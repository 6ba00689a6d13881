import GoCourier.Ledger.Refines

/- Whose stance it is: a thread that stands as a replay, a tick or an owner towards a
   delivery runs that task, is about that delivery, and has calls to make. -/
namespace GoCourier

open Interleave

variable {p : Params} {s : System} {t : Nat} {th : Thread Op Ans Task Result Phase} {x : String}

/-- A thread's phase is of its task's kind. -/
theorem task_of_phase (hc : (machine p).Conforms (protocol p) s) (h : s.threads t = some th) :
    (∃ op, May p th.task th.phase op) ∨ ∃ r, Finished th.task th.phase r := by
  obtain ⟨k, φ, prog⟩ := th
  cases prog with
  | done r => exact .inr ⟨r, hc.ends h⟩
  | ask op f => exact .inl ⟨op, hc.may h⟩

theorem replay_task (hc : (machine p).Conforms (protocol p) s) (h : s.threads t = some th) {φ : ReplayPhase}
    (hφ : th.phase = .replay φ) : ∃ id, th.task = .replay id := by
  rcases task_of_phase hc h with ⟨op, hm⟩ | ⟨r, hf⟩
  · rw [hφ] at hm
    cases hk : th.task with
    | replay id => exact ⟨id, rfl⟩
    | _ => rw [hk] at hm; exact hm.elim
  · rw [hφ] at hf
    cases hk : th.task with
    | replay id => exact ⟨id, rfl⟩
    | _ => rw [hk] at hf; exact hf.elim

theorem tick_task (hc : (machine p).Conforms (protocol p) s) (h : s.threads t = some th) {φ : TickPhase}
    (hφ : th.phase = .tick φ) : th.task = .processDue := by
  rcases task_of_phase hc h with ⟨op, hm⟩ | ⟨r, hf⟩
  · rw [hφ] at hm
    cases hk : th.task with
    | processDue => rfl
    | _ => rw [hk] at hm; exact hm.elim
  · rw [hφ] at hf
    cases hk : th.task with
    | processDue => rfl
    | _ => rw [hk] at hf; exact hf.elim

theorem worker_task (hc : (machine p).Conforms (protocol p) s) (h : s.threads t = some th) {φ : WorkerPhase}
    (hφ : th.phase = .worker φ) :
    (∃ proc id, th.task = .dispatch proc id) ∨ ∃ proc i c m, th.task = .handle proc i c m := by
  rcases task_of_phase hc h with ⟨op, hm⟩ | ⟨r, hf⟩
  · rw [hφ] at hm
    cases hk : th.task with
    | dispatch proc id => exact .inl ⟨proc, id, rfl⟩
    | handle proc i c m => exact .inr ⟨proc, i, c, m, rfl⟩
    | _ => rw [hk] at hm; exact hm.elim
  · rw [hφ] at hf
    cases hk : th.task with
    | dispatch proc id => exact .inl ⟨proc, id, rfl⟩
    | handle proc i c m => exact .inr ⟨proc, i, c, m, rfl⟩
    | _ => rw [hk] at hf; exact hf.elim

/-- A dispatch knows a delivery it is for. -/
theorem worker_about (hc : (machine p).Conforms (protocol p) s) {k : Task} {φ : WorkerPhase}
    {prog : CallTree Op Ans Result} (h : s.threads t = some ⟨k, .worker φ, prog⟩) : φ.About k.Target := by
  have habout : About k (.worker φ) := hc.holds h
  rcases worker_task hc h rfl with ⟨proc, id, hk⟩ | ⟨proc, i, c, m, hk⟩
  · have hk : k = .dispatch proc id := hk
    subst hk
    exact habout
  · have hk : k = .handle proc i c m := hk
    subst hk
    exact habout

/-! From stances to phases. -/

/-- Where each phase stands, one case per phase that stands somewhere. -/
inductive Standing (x : String) : Phase → Stance → Prop where
  | away (φ : Phase) : Standing x φ .away
  | reader {d : Delivery} (id : d.id = x) (takeable : d.status.Takeable) :
      Standing x (.worker (.snap d)) (.reader d.status d.retryCount)
  | owner {d : Delivery} (id : d.id = x) : Standing x (.worker (.owned d)) (.owner d.retryCount)
  | refused {d : Delivery} {e : Err} (id : d.id = x) : Standing x (.worker (.refused d e false)) (.refused d.retryCount)
  | noted {d : Delivery} {e : Err} (id : d.id = x) : Standing x (.worker (.refused d e true)) (.noted d.retryCount)
  | accepted {d : Delivery} (id : d.id = x) : Standing x (.worker (.accepted d)) (.accepted d.retryCount)
  | retried {d : Delivery} (id : d.id = x) (status : d.status = .retrying) :
      Standing x (.worker (.settled d false)) (.recorder d.retryCount)
  | succeeded {d : Delivery} (id : d.id = x) (status : d.status = .succeeded) :
      Standing x (.worker (.settled d false)) (.recorder (d.retryCount + 1))
  | replayer {d : Delivery} (id : d.id = x) (dead : d.status.Replayable) : Standing x (.replay (.snap d)) .replayer
  | ticker {d : Delivery} {ids : List String} (id : d.id = x) (pending : d.status = .pending) :
      Standing x (.tick (.snap d ids)) (.ticker d.retryCount)

theorem standing (x : String) (φ : Phase) : Standing x φ (φ.stance x) := by
  cases φ with
  | worker φ =>
    cases φ with
    | snap d =>
      simp only [Phase.stance, WorkerPhase.stance]
      split
      · rename_i h
        exact .reader h.1 h.2
      · exact .away _
    | owned d =>
      simp only [Phase.stance, WorkerPhase.stance]
      split
      · exact .owner ‹_›
      · exact .away _
    | refused d e noted =>
      cases noted <;> simp only [Phase.stance, WorkerPhase.stance] <;> split
      · exact .refused ‹_›
      · exact .away _
      · exact .noted ‹_›
      · exact .away _
    | accepted d =>
      simp only [Phase.stance, WorkerPhase.stance]
      split
      · exact .accepted ‹_›
      · exact .away _
    | settled d noted =>
      cases noted with
      | true => exact .away _
      | false =>
        simp only [Phase.stance, WorkerPhase.stance]
        split
        · rename_i h
          exact .retried h.1 h.2
        · split
          · rename_i h
            exact .succeeded h.1 h.2
          · exact .away _
    | _ => exact .away _
  | replay φ =>
    cases φ with
    | snap d =>
      simp only [Phase.stance, ReplayPhase.stance]
      split
      · rename_i h
        exact .replayer h.1 h.2
      · exact .away _
    | _ => exact .away _
  | tick φ =>
    cases φ with
    | snap d ids =>
      simp only [Phase.stance, TickPhase.stance]
      split
      · rename_i h
        exact .ticker h.1 h.2
      · exact .away _
    | _ => exact .away _
  | _ => exact .away _

theorem standing_thread {a : Stance} (h : threadStance x (s.threads t) = a) (ha : a ≠ .away) :
    ∃ th, s.threads t = some th ∧ Standing x th.phase a := by
  cases hth : s.threads t with
  | none =>
    rw [hth] at h
    exact absurd h.symm ha
  | some th =>
    rw [hth] at h
    exact ⟨th, rfl, h ▸ standing x th.phase⟩

/-- A replayer of `x` is a replay of `x` that is not done. -/
theorem replayer_thread (hc : (machine p).Conforms (protocol p) s) (h : threadStance x (s.threads t) = .replayer) :
    ∃ th, s.threads t = some th ∧ th.task = .replay x ∧ th.Live := by
  obtain ⟨⟨k, φ, prog⟩, hth, hst⟩ := standing_thread h nofun
  cases hst with
  | @replayer d id dead =>
    obtain ⟨id', hk⟩ := replay_task hc hth rfl
    cases hk
    have habout : d.id = id' := hc.holds hth
    refine ⟨_, hth, by rw [← habout, id], hc.live hth fun r hr => ?_⟩
    cases r with
    | response r => exact hr.elim
    | unit r =>
      cases r with
      | ok _ =>
        obtain ⟨d', hd'⟩ := hr
        cases hd'
      | error e =>
        rcases hr with hr | ⟨d', hd', hn⟩
        · cases hr
        · cases hd'
          exact hn dead

/-- A ticker is a tick that is not done. -/
theorem ticker_thread (hc : (machine p).Conforms (protocol p) s) {n : Nat}
    (h : threadStance x (s.threads t) = .ticker n) :
    ∃ th, s.threads t = some th ∧ th.task = .processDue ∧ th.Live := by
  obtain ⟨⟨k, φ, prog⟩, hth, hst⟩ := standing_thread h nofun
  cases hst with
  | @ticker d ids id pending =>
    have hk : k = .processDue := tick_task hc hth rfl
    subst hk
    refine ⟨_, hth, rfl, hc.live hth fun r hr => ?_⟩
    cases r with
    | response r => exact hr.elim
    | unit r =>
      cases r with
      | ok _ =>
        have htodo : (TickPhase.snap d ids).todo = some [] := hr
        simp only [TickPhase.todo, pending, if_true] at htodo
        cases htodo
      | error e => cases hr

/-- A call to `Dispatch` for `x` that has not returned. -/
def InFlight (x : String) (s : System) : Prop :=
  ∃ t th, s.threads t = some th ∧ th.Live ∧
    ((∃ proc, th.task = .dispatch proc x) ∨ ∃ proc i c m, th.task = .handle proc i c m ∧ m.deliveryId = .ok x)

/-- A phase in which a dispatch owns its delivery is no end of one. -/
theorem not_finished_of_owning {k : Task} {φ : Phase} (h : (φ.stance x).Owning) (r : Result) : ¬ Finished k φ r := by
  intro hf
  have hst := standing x φ
  generalize φ.stance x = a at h hst
  cases h <;> cases hst <;> cases k <;> cases r <;> try exact hf.elim
  all_goals first
    | cases hf
    | (rename_i r; cases r <;> cases hf)

/-- An owner's phase knows its delivery. -/
theorem about_of_owning {φ : Phase} (h : (φ.stance x).Owning) :
    ∃ ψ : WorkerPhase, φ = .worker ψ ∧ ∀ P : String → Prop, ψ.About P → P x := by
  have hst := standing x φ
  generalize φ.stance x = a at h hst
  cases h <;> cases hst <;> exact ⟨_, rfl, fun P hP => (by assumption : _ = x) ▸ hP⟩

/-- An owner is a dispatch of its delivery that has not returned. -/
theorem inFlight_of_owning (hc : (machine p).Conforms (protocol p) s) (h : (threadStance x (s.threads t)).Owning) :
    InFlight x s := by
  cases hth : s.threads t with
  | none =>
    rw [hth] at h
    cases h
  | some th =>
    rw [hth] at h
    have hl : th.Live := hc.live hth fun r => not_finished_of_owning h r
    obtain ⟨ψ, hψ, habout⟩ := about_of_owning h
    have hholds : About th.task th.phase := hc.holds hth
    refine ⟨t, th, hth, hl, ?_⟩
    rcases worker_task hc hth hψ with ⟨proc, id, hk⟩ | ⟨proc, i, c, m, hk⟩
    · rw [hk, hψ] at hholds
      have hid : x = id := habout (· = id) hholds
      exact .inl ⟨proc, hid ▸ hk⟩
    · rw [hk, hψ] at hholds
      exact .inr ⟨proc, i, c, m, hk, habout (m.deliveryId = .ok ·) hholds⟩

end GoCourier
