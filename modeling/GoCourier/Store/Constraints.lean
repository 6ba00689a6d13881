import GoCourier.Content.Routed
import GoCourier.Outcomes.Drafts
import GoCourier.Rows.Later

/- The constraints of the tables (`migrations/001_init.sql`), and the rows the UPDATE
   statements name. In no run does a service ask for what a primary or a foreign key
   refuses, or set a row that is not there; so all that the database itself ever answers
   with is that a delivery or a registration is not found, or that a key is taken, and
   the broker refuses no subject. -/
namespace GoCourier

open Interleave

/-- The statement breaks no primary or foreign key, and an UPDATE finds its row. -/
def Remote.Fits (t : Tables) : Remote → Prop
  | .update d => t.deliveries d.id ≠ none
  | .updateIfStatus d _ => t.deliveries d.id ≠ none
  | .recordAttempt id a => t.deliveries id ≠ none ∧ a.id ∉ t.attemptIds
  | .ingestTransactional d _ _ _ _ _ => t.deliveries d.id = none ∧ ¬ t.isScheduled d.id
  | .enqueue id _ _ _ => t.deliveries id ≠ none
  | .markPublished id => ∃ r ∈ t.outbox, r.id = id
  | .markFailed id _ => ∃ r ∈ t.outbox, r.id = id
  | .markProcessed id => t.isScheduled id
  | .append id _ _ => t.deliveries id ≠ none
  | _ => True

/-- The errors that are answers, not failures. -/
def Remote.Refuses : Remote → Err → Prop
  | .findByID _, e => e = errNoRows
  | .findByIdempotencyKey _ _, e => e = errNotFound
  | .ingestTransactional _ _ _ _ _ _, e => e = errDuplicate
  | _, _ => False

/-- Every row of a child table refers to a stored delivery. -/
structure Tables.Referential (t : Tables) : Prop where
  linked : t.Linked
  attempts : ∀ r ∈ t.attempts, t.deliveries r.deliveryId ≠ none

/-- The tables, and that every due row a tick has in hand is one of them. -/
structure Constrained (p : Params) (s : System) : Prop where
  routed : Routed p s
  drafts : Drafts p s
  attempted : ∀ r ∈ s.state.db.attempts, s.state.db.deliveries r.deliveryId ≠ none
  due : ∀ t k φ prog, s.threads t = some ⟨k, .tick φ, prog⟩ → ∀ x ∈ φ.ids, s.state.db.isScheduled x

section
variable {p : Params} {s s' : System} {l : Act}

theorem ticking_step (h : Constrained p s) (hs : (machine p).Step s l s') {u : Nat} {k : Task} {φ : TickPhase}
    {prog : CallTree Op Ans Result} (hu : s'.threads u = some ⟨k, .tick φ, prog⟩) :
    ∀ x ∈ φ.ids, s'.state.db.isScheduled x := by
  have hsane := h.routed.faithful.sane
  rcases tick_origin hsane.conforms hs hu with ⟨before, -⟩ | rfl | ⟨c, ψ, op, f, r, label, running, answered, hmoves⟩
  · exact fun x hx => isScheduled_step hsane hs (h.due u k φ prog before x hx)
  · intro x hx
    cases hx
  · intro x hx
    refine isScheduled_step hsane hs ?_
    rcases tick_ids 0 answered hmoves with hsub | ⟨before, limit, hids, -⟩
    · exact h.due u _ ψ _ running x (hsub hx)
    · obtain ⟨r, hr, hid, -⟩ := mem_fetchDue (hids ▸ hx)
      exact ⟨r, hr, hid⟩

/-! The next statement of a thread. -/

theorem stored_of_knows {t : Tables} {d : Delivery} (h : t.Knows d) : t.deliveries d.id ≠ none := by
  obtain ⟨r, hr, -⟩ := h
  rw [hr]
  exact nofun

/-- The delivery that a call writes is stored. -/
theorem Constrained.updates (h : Constrained p s) {t : Nat} {k : Task} {φ : Phase} {d : Delivery}
    {prog : CallTree Op Ans Result} (hth : s.threads t = some ⟨k, φ, prog⟩) (hu : Updates p φ d) :
    s.state.db.deliveries d.id ≠ none := by
  cases hu with
  | settle settles => exact stored_of_knows (settles_knows h.routed hth settles)
  | @replay d₀ d now dead queued =>
    subst queued
    have hstored := stored_of_knows (knows_of_carries (h.routed.faithful.hands t _ d₀ hth rfl))
    exact hstored
  | @tick d₀ d now ids pending queued =>
    subst queued
    have hstored := stored_of_knows (knows_of_carries (h.routed.faithful.hands t _ d₀ hth rfl))
    exact hstored

theorem Constrained.records (h : Constrained p s) {t : Nat} {k : Task} {ψ : WorkerPhase} {id : String} {a : Attempt}
    {prog : CallTree Op Ans Result} (hth : s.threads t = some ⟨k, .worker ψ, prog⟩) (hrec : Records p ψ id a) :
    s.state.db.deliveries id ≠ none := by
  cases hrec with
  | @gaveUp d e a out number => exact stored_of_knows (knows_of_carries (h.routed.faithful.hands t _ d hth rfl))
  | @retry d a status number => exact stored_of_knows (h.routed.settled t k d false _ hth)
  | @success d a status number => exact stored_of_knows (h.routed.settled t k d false _ hth)

theorem Constrained.appends (h : Constrained p s) {t : Nat} {k : Task} {φ : Phase} {id : String} {ev : DomainEventType}
    {payload : AuditPayload} {prog : CallTree Op Ans Result} (hth : s.threads t = some ⟨k, φ, prog⟩)
    (hm : May p k φ (.remote (.append id ev payload))) : s.state.db.deliveries id ≠ none := by
  cases φ with
  | worker ψ =>
    obtain ⟨d, noted, rfl, rfl, -⟩ := worker_may hm
    exact stored_of_knows (h.routed.settled t k d noted _ hth)
  | replay ψ =>
    cases k with
    | replay x =>
      obtain ⟨d, rfl, rfl, -⟩ := hm
      exact stored_of_knows (knows_of_carries (h.routed.faithful.hands t _ d hth rfl))
    | _ => exact hm.elim
  | tick ψ =>
    cases k with
    | processDue =>
      obtain ⟨d, ids, rfl, rfl, -⟩ := hm
      exact stored_of_knows (knows_of_carries (h.routed.faithful.hands t _ d hth rfl))
    | _ => exact hm.elim
  | _ => cases k <;> exact hm.elim

/-- The outbox row that a flush marks is one of the table. -/
theorem Constrained.marks (h : Constrained p s) {t : Nat} {k : Task} {φ : FlushPhase} {m : OutboxMessage}
    {prog : CallTree Op Ans Result} (hth : s.threads t = some ⟨k, .flush φ, prog⟩) (hm : m ∈ φ.rows) :
    ∃ r ∈ s.state.db.outbox, r.id = m.id := by
  obtain ⟨r, hr, hid, -⟩ := row_of_letter ((h.routed.outbox.hands t k φ _ hth).carried m hm)
  exact ⟨r, hr, hid⟩

theorem Constrained.fits (h : Constrained p s) {t : Nat} {k : Task} {φ : Phase} {q : Remote}
    {f : Ans (.remote q) → CallTree Op Ans Result} (hth : s.threads t = some ⟨k, φ, .ask (.remote q) f⟩) :
    q.Fits s.state.db := by
  have hsane := h.routed.faithful.sane
  have hm : May p k φ (.remote q) := hsane.conforms.may hth
  cases q with
  | update d => exact h.updates hth (update_may hm)
  | updateIfStatus d st =>
    obtain ⟨d₀, now, rfl, -, -, rfl⟩ := claim_may hm
    have hstored := stored_of_knows (knows_of_carries (h.routed.faithful.hands t _ d₀ hth rfl))
    exact hstored
  | recordAttempt id a =>
    refine ⟨?_, h.drafts.fresh hth⟩
    cases φ with
    | worker ψ => exact h.records hth (worker_may hm)
    | _ => cases k <;> exact hm.elim
  | ingestTransactional d exp subject payload headers schedule =>
    obtain ⟨req, rfl, rfl, -⟩ := stores_minted hm
    have hnew := hsane.unused hth
    refine ⟨hnew, fun ⟨r, hr, hid⟩ => ?_⟩
    exact hsane.linked.scheduled r hr (hid ▸ Tables.owner_eq_none.mpr hnew)
  | enqueue id subject payload headers =>
    obtain ⟨rfl, d, ids, rfl, rfl, -⟩ := enqueue_tick hm
    exact stored_of_knows (knows_of_carries (h.routed.faithful.hands t _ d hth rfl))
  | markPublished id =>
    obtain ⟨rfl, ψ, m, ms, rfl, hψ, rfl⟩ := markPublished_flush hm
    refine h.marks hth ?_
    rcases hψ with rfl | rfl <;> exact List.mem_cons_self
  | markFailed id msg =>
    obtain ⟨rfl, m, ms, rfl, rfl⟩ := markFailed_flush hm
    exact h.marks hth (m := m) List.mem_cons_self
  | markProcessed id =>
    obtain ⟨rfl, d, ids, rfl, rfl⟩ := markProcessed_tick hm
    exact h.due t _ _ _ hth d.id List.mem_cons_self
  | append id ev payload => exact h.appends hth hm
  | _ => trivial

/-- Attempts are recorded of stored deliveries only. -/
theorem attempted_step (h : Constrained p s) (hs : (machine p).Step s l s') :
    ∀ r ∈ s'.state.db.attempts, s'.state.db.deliveries r.deliveryId ≠ none := by
  have hkept : ∀ x, s.state.db.deliveries x ≠ none → s'.state.db.deliveries x ≠ none := by
    intro x hx
    obtain ⟨r, hr⟩ := Option.ne_none_iff_exists'.mp hx
    obtain ⟨r', hr', -⟩ := (grows_step hs).db.deliveries x r hr
    rw [hr']
    exact Option.some_ne_none r'
  intro r hr
  rcases db_step hs with hdb | ⟨t, c, k, φ, q, f, -, hth, -, hdb⟩
  · rw [hdb] at hr
    exact hkept _ (h.attempted r hr)
  · rw [hdb] at hr
    rcases exec_attempts p s.state q with hsame | ⟨id, a, rfl, hnew⟩
    · rw [hsame] at hr
      exact hkept _ (h.attempted r hr)
    · rw [hnew] at hr
      rcases List.mem_append.mp hr with hold | hlast
      · exact hkept _ (h.attempted r hold)
      · obtain rfl := List.mem_singleton.mp hlast
        exact hkept id (h.fits hth).1

theorem constrained_step (h : Constrained p s) (hs : (machine p).Step s l s') : Constrained p s' :=
  ⟨routed_step h.routed hs, drafts_step h.drafts hs, attempted_step h hs,
    fun _ _ _ _ hu => ticking_step h hs hu⟩

theorem init_constrained (p : Params) : Constrained p (System.init p) where
  routed := init_routed p
  drafts := init_drafts p
  attempted := by
    intro r hr
    cases hr
  due := by
    intro t k φ prog hth
    cases hth

theorem reach_constrained {ok : System → Act → Prop} (hr : (machine p).Reach ok (System.init p) s) : Constrained p s :=
  hr.invariant (init_constrained p) fun _ _ _ h _ hs => constrained_step h hs

/-- What a statement that fits answers, when nothing fails. -/
theorem exec_refuses {w : World} {q : Remote} (hl : w.db.Linked) (hfits : q.Fits w.db)
    (hsub : ∀ subject body headers, q = .publish subject body headers →
      subject ∈ allNotificationSubjects p.streamPrefix ∨ subject ∈ allDLQSubjects) {e : Err}
    (h : (exec p w q).1 = .error e) : q.Refuses e := by
  have hstored : ∀ {x : String}, w.db.deliveries x ≠ none → ∃ r, w.db.deliveries x = some r :=
    fun hx => Option.ne_none_iff_exists'.mp hx
  cases q with
  | findByID id =>
    simp only [exec, Tables.findByID] at h
    split at h <;> cases h
    rfl
  | findByIdempotencyKey key ch => exact lookup_error h
  | recordAttempt id a =>
    obtain ⟨r, hr⟩ := hstored hfits.1
    simp only [exec, Tables.recordAttempt_stored hr] at h
    cases h
  | ingestTransactional d exp subject payload headers schedule =>
    simp only [exec] at h
    cases hk : w.db.idempotencyKeys (d.idempotencyKey, d.channel) with
    | none =>
      obtain ⟨t', ht'⟩ := Tables.ingestTransactional_new w.clock exp subject payload headers schedule hfits.1 hk
      rw [ht'] at h
      cases h
    | some ik =>
      rw [Tables.ingestTransactional_taken w.clock exp subject payload headers schedule hl hfits.1 hk] at h
      exact (Except.error.inj h).symm
  | enqueue id subject payload headers =>
    obtain ⟨r, hr⟩ := hstored hfits
    simp only [exec, Tables.enqueue_stored hr] at h
    cases h
  | append id ev payload =>
    obtain ⟨r, hr⟩ := hstored hfits
    simp only [exec, Tables.append_stored hr] at h
    cases h
  | publish subject body headers =>
    simp only [exec, World.publish] at h
    rcases hsub subject body headers rfl with hmem | hmem
    · rw [if_pos hmem] at h
      cases h
    · split_ifs at h
  | _ => cases h

/-- In every run, whatever fails, crashes and runs at once: the tables, and the next statement of any thread. -/
theorem statements_fit {ok : System → Act → Prop} (hr : (machine p).Reach ok (System.init p) s) :
    s.state.db.Referential ∧ ∀ (t : Nat) (k : Task) (φ : Phase) (q : Remote) (f : Ans (.remote q) → CallTree Op Ans Result),
      s.threads t = some ⟨k, φ, .ask (.remote q) f⟩ →
        q.Fits s.state.db ∧ ∀ e, (exec p s.state q).1 = .error e → q.Refuses e := by
  have h := reach_constrained hr
  have hlinked := h.routed.faithful.sane.linked
  refine ⟨⟨hlinked, h.attempted⟩, fun t k φ q f hth => ⟨h.fits hth, fun e he => exec_refuses hlinked (h.fits hth) ?_ he⟩⟩
  rintro subject body headers rfl
  rcases h.routed.published hth (publish_may (h.routed.faithful.sane.conforms.may hth)) with
    ⟨d, -, hfor, -⟩ | ⟨d, -, hsub, -⟩
  · exact .inl (isFor_subject hfor)
  · have hdead : subject = dlqSubject d.channel := hsub
    exact .inr (hdead ▸ dlqSubject_mem d.channel)

end

/-- A flush that has published a row and is about to mark it. -/
theorem statements_fit_sample : ∃ s,
    (machine {}).run (System.init {}) (ingestCalls 0 "d1" ++ .start 1 .flush :: runs 1 4) = some s ∧
      nextOp (s.threads 1) = some (.remote (.markPublished 1)) ∧ s.state.db.Referential ∧
      Remote.Fits s.state.db (.markPublished 1) ∧
      ∀ e, (exec {} s.state (.markPublished 1)).1 = .error e → Remote.Refuses (.markPublished 1) e := by
  have hrun : ((machine {}).run (System.init {}) (ingestCalls 0 "d1" ++ .start 1 .flush :: runs 1 4)).map
      (fun s => nextOp (s.threads 1)) = some (some (.remote (.markPublished 1))) := by
    decide +kernel
  obtain ⟨s, hs, hnext⟩ := Option.map_eq_some_iff.mp hrun
  obtain ⟨k, φ, f, hth⟩ := nextOp_some hnext
  obtain ⟨htables, hthreads⟩ := statements_fit (Machine.reach_run hs)
  exact ⟨s, hs, hnext, htables, hthreads 1 k φ _ f hth⟩

end GoCourier
