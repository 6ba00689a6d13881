import GoCourier.Handover.Schedule

/- Who writes the row of a delivery, and on the word of what. Every write is a whole row
   taken from the writer's own copy: an `Ingest` stores a new one, a dispatch takes the
   delivery with `UpdateIfStatus` and gives it back with `Update`, a replay and a tick
   write back what they have read. `wrote_step` says so once; what every row satisfies
   follows from what every copy does. -/
namespace GoCourier

open Interleave

/-- Where the row of `x` after a step comes from. -/
inductive Wrote (s : System) (l : Act) (x : String) (r' : DeliveryRow) : Prop where
  | kept (before : s.state.db.deliveries x = some r')
  | updated {t : Nat} {c : Choice} {k : Task} {φ : Phase} {d : Delivery} {r : DeliveryRow}
      {f : Ans (.remote (.update d)) → CallTree Op Ans Result} (label : l = .call t c) (effective : c.Effective)
      (running : s.threads t = some ⟨k, φ, .ask (.remote (.update d)) f⟩) (about : d.id = x)
      (before : s.state.db.deliveries x = some r) (after : r' = r.set d)
  | claimed {t : Nat} {c : Choice} {k : Task} {φ : Phase} {d : Delivery} {st : Status} {r : DeliveryRow}
      {f : Ans (.remote (.updateIfStatus d st)) → CallTree Op Ans Result} (label : l = .call t c)
      (effective : c.Effective) (running : s.threads t = some ⟨k, φ, .ask (.remote (.updateIfStatus d st)) f⟩)
      (about : d.id = x) (before : s.state.db.deliveries x = some r) (expected : r.status = st) (after : r' = r.set d)
  | created {t : Nat} {c : Choice} {k : Task} {φ : Phase} {d : Delivery} {exp : Time} {subject : String}
      {payload : Body} {headers : Headers} {schedule : Bool}
      {f : Ans (.remote (.ingestTransactional d exp subject payload headers schedule)) → CallTree Op Ans Result}
      (label : l = .call t c) (effective : c.Effective)
      (running : s.threads t =
        some ⟨k, φ, .ask (.remote (.ingestTransactional d exp subject payload headers schedule)) f⟩)
      (about : d.id = x) (new : s.state.db.deliveries x = none) (after : r' = d.toRow s.state.db.jsonb)

section
variable {p : Params} {s s' : System} {l : Act} {x : String}

theorem deliveries_update (t : Tables) (d : Delivery) (x : String) {r' : DeliveryRow}
    (h : (t.update d).deliveries x = some r') :
    t.deliveries x = some r' ∨ d.id = x ∧ ∃ r, t.deliveries x = some r ∧ r' = r.set d := by
  unfold Tables.update at h
  split at h
  · rename_i r hr
    rcases of_update h with ⟨rfl, hset⟩ | ⟨-, hold⟩
    · exact .inr ⟨rfl, r, hr, (Option.some.inj hset).symm⟩
    · exact .inl hold
  · exact .inl h

theorem deliveries_update_self (t : Tables) (d : Delivery) :
    (t.update d).deliveries d.id = (t.deliveries d.id).map (·.set d) := by
  unfold Tables.update
  split
  · rename_i r hr
    rw [hr]
    exact Function.update_self ..
  · rename_i hnone
    rw [hnone]
    rfl

/-- An `Update` that takes effect. -/
theorem updated_called {t : Nat} {c : Choice} (hs : (machine p).Step s (.call t c) s') {k : Task} {φ : Phase} {d : Delivery}
    {f : Ans (.remote (.update d)) → CallTree Op Ans Result}
    (hth : s.threads t = some ⟨k, φ, .ask (.remote (.update d)) f⟩) (hc : c.Effective) :
    s'.state.db = s.state.db.update d := by
  obtain ⟨r, hans, -⟩ := hs.called hth
  have hans := answer_cases (p := p) hans
  generalize s'.state = w' at hans
  cases hans with
  | ran => rfl
  | fault _ msg => exact hc.elim
  | lost => rfl

/-- One write of one row at a time. -/
theorem wrote_step (hs : (machine p).Step s l s') {r' : DeliveryRow} (h : s'.state.db.deliveries x = some r') :
    Wrote s l x r' := by
  rcases db_step hs with hdb | ⟨t, c, k, φ, q, f, hl, running, heff, hdb⟩
  · rw [hdb] at h
    exact .kept h
  · rw [hdb] at h
    by_cases hq : (Op.remote q).Plain
    · rw [exec_plain p s.state hq] at h
      exact .kept h
    · cases q with
      | update d =>
        rcases deliveries_update s.state.db d x h with h | ⟨hx, r, hr, hset⟩
        · exact .kept h
        · exact .updated hl heff running hx hr hset
      | updateIfStatus d st =>
        have hw : (s.state.db.updateIfStatus d st).2.deliveries x = some r' := h
        rcases s.state.db.updateIfStatus_cases d st with ⟨m, hrow, hwin⟩ | ⟨-, hlose⟩
        · rw [hwin] at hw
          rcases deliveries_update s.state.db d x hw with h | ⟨hx, r, hr, hset⟩
          · exact .kept h
          · refine .claimed hl heff running hx hr ?_ hset
            rw [hx, Tables.row, hr] at hrow
            exact congrArg Prod.fst (Option.some.inj hrow)
        · rw [hlose] at hw
          exact .kept hw
      | ingestTransactional d exp subject payload headers schedule =>
        simp only [exec] at h
        cases htx : s.state.db.ingestTransactional s.state.clock d exp subject payload headers schedule with
        | error e =>
          rw [htx] at h
          exact .kept h
        | ok t' =>
          rw [htx] at h
          have ht' : t'.deliveries x = some r' := h
          obtain ⟨hnew, hdel⟩ := Tables.ingestTransactional_deliveries htx
          rw [hdel] at ht'
          rcases of_update ht' with ⟨rfl, hrow⟩ | ⟨-, hold⟩
          · exact .created hl heff running rfl hnew (Option.some.inj hrow).symm
          · exact .kept hold
      | _ => exact absurd trivial hq

/-! Whose `Update` it is. -/

variable {k : Task} {φ : Phase}

theorem worker_may {ψ : WorkerPhase} {op : Op} (hm : May p k (.worker ψ) op) : WorkerMay p k.Target k.Copies ψ op := by
  cases k with
  | dispatch proc id => exact hm
  | handle proc i c m => exact hm
  | _ => exact hm.elim

/-- An `Update` settles a dispatch, or requeues what a replay or a tick has read. -/
inductive Updates (p : Params) : Phase → Delivery → Prop where
  | settle {φ : WorkerPhase} {d : Delivery} (settles : Settles p φ d) : Updates p (.worker φ) d
  | replay {d₀ d : Delivery} {now : Time} (dead : d₀.status.Replayable)
      (queued : d = { d₀ with status := .queued, updatedAt := now, retryCount := 0 }) : Updates p (.replay (.snap d₀)) d
  | tick {d₀ d : Delivery} {now : Time} {ids : List String} (pending : d₀.status = .pending)
      (queued : d = { d₀ with status := .queued, updatedAt := now }) : Updates p (.tick (.snap d₀ ids)) d

theorem update_may {d : Delivery} (hm : May p k φ (.remote (.update d))) : Updates p φ d := by
  cases φ with
  | worker φ => exact .settle (worker_may hm)
  | replay φ =>
    cases k with
    | replay id =>
      obtain ⟨d₀, now, rfl, hdead, hd⟩ := hm
      exact .replay hdead hd
    | _ => exact hm.elim
  | tick φ =>
    cases k with
    | processDue =>
      obtain ⟨d₀, now, ids, rfl, hst, hd⟩ := hm
      exact .tick hst hd
    | _ => exact hm.elim
  | _ => cases k <;> exact hm.elim

theorem claim_may {d : Delivery} {st : Status} (hm : May p k φ (.remote (.updateIfStatus d st))) :
    ∃ d₀ now, φ = .worker (.snap d₀) ∧ d₀.status.Takeable ∧ st = d₀.status ∧
      d = { d₀ with status := .processing, updatedAt := now } := by
  cases φ with
  | worker φ =>
    obtain ⟨d₀, now, rfl, hst, rfl, hd⟩ := worker_may hm
    exact ⟨d₀, now, rfl, hst, rfl, hd⟩
  | _ => cases k <;> exact hm.elim

/-- A dispatch sends the copy that it owns, where its channel has a provider. -/
theorem send_may {d : Delivery} (hm : May p k φ (.send d)) : φ = .worker (.owned d) ∧ d.channel ∈ p.providers := by
  cases φ with
  | worker φ =>
    obtain ⟨rfl, hchannel⟩ := worker_may hm
    exact ⟨rfl, hchannel⟩
  | _ => cases k <;> exact hm.elim

/-! Where a dispatch's thread, and a replay's, comes from. -/

theorem worker_origin (hc : (machine p).Conforms (protocol p) s) (hs : (machine p).Step s l s') {u : Nat} {k : Task}
    {φ : WorkerPhase} {prog : CallTree Op Ans Result} (hu : s'.threads u = some ⟨k, .worker φ, prog⟩) :
    s.threads u = some ⟨k, .worker φ, prog⟩ ∧ (∀ c, l ≠ .call u c) ∨ φ = .start ∨
      ∃ c ψ op f r, l = .call u c ∧ s.threads u = some ⟨k, .worker ψ, .ask op f⟩ ∧
        answer p op c s.state = some (r, s'.state) ∧ WorkerMoves p k.Target k.Copies ψ op r φ := by
  rcases hs.origin_cases hu with hkept | ⟨-, -, hfirst⟩ | ⟨c, ψ, op, f, r, label, running, answered, hnext⟩
  · exact .inl hkept
  · cases k <;> cases hfirst <;> exact .inr (.inl rfl)
  · have hm : May p k ψ op := hc.may running
    cases ψ with
    | worker ψ =>
      cases hnext
      exact .inr (.inr ⟨c, ψ, op, f, r, label, running, answered, worker_moves (worker_may hm) r⟩)
    | _ => cases hnext

theorem replay_origin (hc : (machine p).Conforms (protocol p) s) (hs : (machine p).Step s l s') {u : Nat} {k : Task}
    {φ : ReplayPhase} {prog : CallTree Op Ans Result} (hu : s'.threads u = some ⟨k, .replay φ, prog⟩) :
    s.threads u = some ⟨k, .replay φ, prog⟩ ∧ (∀ c, l ≠ .call u c) ∨ φ = .start ∨
      ∃ c ψ id op f r, l = .call u c ∧ s.threads u = some ⟨.replay id, .replay ψ, .ask op f⟩ ∧
        answer p op c s.state = some (r, s'.state) ∧ ReplayMoves p id ψ op r φ := by
  rcases hs.origin_cases hu with hkept | ⟨-, -, hfirst⟩ | ⟨c, ψ, op, f, r, label, running, answered, hnext⟩
  · exact .inl hkept
  · cases k <;> cases hfirst
    exact .inr (.inl rfl)
  · have hm : May p k ψ op := hc.may running
    cases ψ with
    | replay ψ =>
      obtain ⟨id, rfl⟩ := replay_task hc running rfl
      cases hnext
      exact .inr (.inr ⟨c, ψ, id, op, f, r, label, running, answered, replay_moves hm r⟩)
    | _ => cases hnext

end

end GoCourier
