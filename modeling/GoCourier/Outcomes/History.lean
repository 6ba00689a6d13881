import GoCourier.Lib.Tally
import GoCourier.Outcomes.Transitions
import GoCourier.Rows.Backoff

/- A delivery's transitions and their history over whole runs. What is stored balances
   against what the dispatches still have to write; a dispatch that is cut off between its
   writes leaves a debt that nobody pays, because the next one finds the row written and
   returns. Where none is cut off every transition has its attempt and its event. -/
namespace GoCourier

open Interleave

/-! The books. -/

/-- The transitions `T` of `x` so far, against what is stored and what is owed; `g` are the threads' bits. -/
structure Books (p : Params) (x : String) (T : List Transition) (s : System) (g : Nat → Bool)
    (e d : Multiset Nat) (u : Multiset DomainEventType) : Prop where
  conforms : (machine p).Conforms (protocol p) s
  watched : Machine.Watched (tellWatch p) g s
  placed : ∀ t k φ prog, s.threads t = some ⟨k, .worker φ, prog⟩ → φ.Placed p x s.state.db (g t)
  early : Total (fun t => earlyOf x (s.threads t)) e
  due : Total (fun t => dueOf x (s.threads t)) d
  untold : Total (fun t => untoldOf x (g t) (s.threads t)) u
  attempts : ((s.state.db.attemptNumbers x : List Nat) : Multiset Nat) + d = (T.filterMap (·.attempt) : List Nat) + e
  events : ((s.state.db.outcomes x : List DomainEventType) : Multiset DomainEventType) + u =
    (T.map (·.after.event) : List DomainEventType)

def Booked (p : Params) (x : String) (s : System) (T : List Transition) : Prop :=
  ∃ g e d u, Books p x T s g e d u

theorem init_booked (p : Params) (x : String) : Booked p x (System.init p) [] :=
  ⟨fun _ => false, 0, 0, 0, {
    conforms := init_conforms p
    watched := fun t th h => by cases h
    placed := fun t k φ prog h => by cases h
    early := total_zero
    due := total_zero
    untold := total_zero
    attempts := rfl
    events := rfl }⟩

section
variable {p : Params} {s s' : System} {x : String} {l : Act} {T : List Transition} {g g' : Nat → Bool}
  {early due : Multiset Nat} {untold : Multiset DomainEventType} {t : Nat} {b : Bool}
  {th th' : Option (Thread Op Ans Task Result Phase)}

/-- A step in which one thread's debts change by what is stored. -/
theorem books_step (h : Books p x T s g early due untold) (hs : (machine p).Step s l s')
    (hw : Machine.Watched (tellWatch p) g' s')
    (hplaced : ∀ t k φ prog, s'.threads t = some ⟨k, .worker φ, prog⟩ → φ.Placed p x s'.state.db (g' t))
    (hother : ∀ u, u ≠ t → s'.threads u = s.threads u ∧ g' u = g u) (hth : s.threads t = th)
    (hth' : s'.threads t = th') (hg : g' t = b)
    (hattempts : ((s'.state.db.attemptNumbers x : List Nat) : Multiset Nat) + dueOf x th' + earlyOf x th =
      (s.state.db.attemptNumbers x : List Nat) + ((transitions p x s l).filterMap (·.attempt) : List Nat) +
        earlyOf x th' + dueOf x th)
    (hevents : ((s'.state.db.outcomes x : List DomainEventType) : Multiset DomainEventType) + untoldOf x b th' =
      (s.state.db.outcomes x : List DomainEventType) + ((transitions p x s l).map (·.after.event) : List DomainEventType) +
        untoldOf x (g t) th) : Booked p x s' (T ++ transitions p x s l) := by
  subst hth hth' hg
  obtain ⟨early', hearly, he⟩ := total_update (g := fun u => earlyOf x (s'.threads u)) h.early t fun u hu => by
    rw [(hother u hu).1]
  obtain ⟨due', hdue, hd⟩ := total_update (g := fun u => dueOf x (s'.threads u)) h.due t fun u hu => by
    rw [(hother u hu).1]
  obtain ⟨untold', huntold, hu⟩ := total_update (g := fun u => untoldOf x (g' u) (s'.threads u)) h.untold t fun u hu => by
    rw [(hother u hu).1, (hother u hu).2]
  refine ⟨g', early', due', untold', {
    conforms := Machine.conforms_step h.conforms hs
    watched := hw
    placed := hplaced
    early := hearly
    due := hdue
    untold := huntold
    attempts := ?_
    events := ?_ }⟩
  · rw [List.filterMap_append, ← Multiset.coe_add]
    have hold := h.attempts
    ext n
    have h₁ := congrArg (Multiset.count n) hold
    have h₂ := congrArg (Multiset.count n) hattempts
    have h₃ := congrArg (Multiset.count n) he
    have h₄ := congrArg (Multiset.count n) hd
    simp only [Multiset.count_add] at h₁ h₂ h₃ h₄ ⊢
    omega
  · rw [List.map_append, ← Multiset.coe_add]
    have hold := h.events
    ext n
    have h₁ := congrArg (Multiset.count n) hold
    have h₂ := congrArg (Multiset.count n) hevents
    have h₃ := congrArg (Multiset.count n) hu
    simp only [Multiset.count_add] at h₁ h₂ h₃ ⊢
    omega

/-- A thread that is no dispatch owes nothing. -/
theorem nothing_owed_other {k : Task} {φ : Phase} (prog : CallTree Op Ans Result) (told : Bool) (h : ∀ ψ, φ ≠ .worker ψ) :
    earlyOf x (some ⟨k, φ, prog⟩) = 0 ∧ dueOf x (some ⟨k, φ, prog⟩) = 0 ∧ untoldOf x told (some ⟨k, φ, prog⟩) = 0 := by
  cases φ with
  | worker ψ => exact absurd rfl (h ψ)
  | _ => exact ⟨rfl, rfl, rfl⟩

/-- A call that no dispatch makes leaves the history alone. -/
theorem other_call {k : Task} {φ : Phase} {op : Op} {f : Ans op → CallTree Op Ans Result} {c : Choice} {r : Ans op}
    {w : World} (hth : s.threads t = some ⟨k, φ, .ask op f⟩) (hm : May p k φ op) (hans : Answered p s.state op c r w)
    (hφ : ∀ ψ, φ ≠ .worker ψ) : s.state.db.SameHistory x w.db ∧ transitions p x s (.call t c) = [] := by
  constructor
  · apply answered_sameHistory hans
    · intro a hop
      subst hop
      cases φ with
      | worker ψ => exact absurd rfl (hφ ψ)
      | _ => cases k <;> exact hm.elim
    · intro ev payload hop
      subst hop
      cases φ with
      | worker ψ => exact absurd rfl (hφ ψ)
      | replay φ =>
        cases k with
        | replay id =>
          obtain ⟨d, -, -, rfl⟩ := hm
          rfl
        | _ => exact hm.elim
      | tick φ =>
        cases k with
        | processDue =>
          obtain ⟨d, ids, -, -, rfl⟩ := hm
          rfl
        | _ => exact hm.elim
      | _ => cases k <;> exact hm.elim
  · by_cases hop : ∃ d, op = .remote (.update d)
    · obtain ⟨d, rfl⟩ := hop
      apply transitions_none hth
      intro _ hst
      exfalso
      -- a replay and a tick write queued
      cases update_may hm with
      | settle settles => exact hφ _ rfl
      | replay dead queued =>
        subst queued
        simp at hst
      | tick pending queued =>
        subst queued
        simp at hst
    · exact transitions_other hth fun d hd => hop ⟨d, hd⟩

/-- A dispatch outside its writes owes nothing. -/
theorem nothing_owed_outside (h : Books p x T s g early due untold) {k : Task} {φ : Phase} {op : Op}
    {f : Ans op → CallTree Op Ans Result} (hth : s.threads t = some ⟨k, φ, .ask op f⟩)
    (hout : ∀ ψ, φ = .worker ψ → ψ.Begun x → ¬ op.Unwritten) :
    earlyOf x (s.threads t) = 0 ∧ dueOf x (s.threads t) = 0 ∧ untoldOf x (g t) (s.threads t) = 0 := by
  rw [hth]
  cases φ with
  | worker ψ =>
    show ψ.early x = 0 ∧ ψ.due x = 0 ∧ ψ.untold x (g t) = 0
    by_cases hbegun : ψ.Begun x
    · have hop := hout ψ rfl hbegun
      have hmay : TaskTellMay p k (.worker ψ, g t) op := Machine.Watched.may h.watched hth
      have hmay : TellMay p ψ (g t) op := by
        rcases worker_task h.conforms hth rfl with ⟨proc, id, rfl⟩ | ⟨proc, i, c, m, rfl⟩
        · exact hmay
        · exact hmay
      apply nothing_owed (h.placed t k ψ _ hth)
      cases op with
      | allow proc ch =>
        obtain ⟨d, rfl, -⟩ := worker_may (h.conforms.may hth)
        exact hbegun.elim
      | remote q =>
        cases q with
        | update d => exact absurd trivial hop
        | recordAttempt id a => exact absurd trivial hop
        | publish subject body headers => exact absurd trivial hop
        | append id ev payload => exact absurd trivial hop
        | _ => exact hmay
      | _ => exact hmay
    · cases ψ with
      | refused d e noted =>
        cases noted with
        | true => exact ⟨if_neg fun hx => hbegun ⟨hx, rfl⟩, rfl, rfl⟩
        | false => exact ⟨rfl, rfl, rfl⟩
      | settled d noted => exact nothing_owed_elsewhere (g t) hbegun
      | _ => exact ⟨rfl, rfl, rfl⟩
  | _ => exact ⟨rfl, rfl, rfl⟩

/-- A step that stores nothing of the history and changes no debt. -/
theorem books_quiet (h : Books p x T s g early due untold) (hs : (machine p).Step s l s')
    (hw : Machine.Watched (tellWatch p) g' s')
    (hplaced : ∀ t k φ prog, s'.threads t = some ⟨k, .worker φ, prog⟩ → φ.Placed p x s'.state.db (g' t))
    (hother : ∀ u, u ≠ t → s'.threads u = s.threads u ∧ g' u = g u) (hth : s.threads t = th)
    (hth' : s'.threads t = th') (hg : g' t = b) (hdb : s.state.db.SameHistory x s'.state.db)
    (hnone : transitions p x s l = []) (hearly : earlyOf x th' = earlyOf x th) (hdue : dueOf x th' = dueOf x th)
    (huntold : untoldOf x b th' = untoldOf x (g t) th) : Booked p x s' (T ++ transitions p x s l) := by
  apply books_step h hs hw hplaced hother hth hth' hg
  · rw [hdb.1, hnone, hearly, hdue, List.filterMap_nil, Multiset.coe_nil, add_zero]
    exact add_right_comm _ _ _
  · rw [hdb.2, hnone, huntold, List.map_nil, Multiset.coe_nil, add_zero]

/-! A step of each kind. -/

section
variable {t : Nat} {c : Choice} {k : Task} {op : Op} {f : Ans op → CallTree Op Ans Result} {r : Ans op} {w : World}

theorem booked_start (h : Books p x T s g early due untold) (free : s.threads t = none)
    (entered : (machine p).enter k s.state = some w) :
    Booked p x { s with state := w, threads := Function.update s.threads t (some ⟨k, k.first, program p k⟩) }
      (T ++ transitions p x s (.start t k)) := by
  have hs : (machine p).Step s (.start t k)
      { s with state := w, threads := Function.update s.threads t (some ⟨k, k.first, program p k⟩) } := .start free entered
  have hplaced : ∀ u k' φ prog, Function.update s.threads t (some ⟨k, k.first, program p k⟩) u = some ⟨k', .worker φ, prog⟩ →
      φ.Placed p x w.db (Function.update g t false u) := by
    intro u k' φ prog hu
    rcases of_update hu with ⟨rfl, hth⟩ | ⟨hne, hth⟩
    · have hφ : k.first = .worker φ := congrArg Thread.phase (Option.some.inj hth)
      have hstart : φ = .start := by cases k <;> cases hφ <;> rfl
      subst hstart
      trivial
    · rw [Function.update_of_ne hne]
      exact placed_mono (h.placed u k' φ prog hth) (row_step h.conforms hs)
  have hfirst : ∀ told, earlyOf x (some ⟨k, k.first, program p k⟩) = 0 ∧ dueOf x (some ⟨k, k.first, program p k⟩) = 0 ∧
      untoldOf x told (some ⟨k, k.first, program p k⟩) = 0 := by
    intro told
    cases k <;> exact ⟨rfl, rfl, rfl⟩
  have hdb : s.state.db.SameHistory x w.db := by
    rw [enter_db entered]
    exact ⟨rfl, rfl⟩
  obtain ⟨hearly, hdue, huntold⟩ := hfirst false
  have hother : ∀ u, u ≠ t → Function.update s.threads t (some ⟨k, k.first, program p k⟩) u = s.threads u ∧
      Function.update g t false u = g u :=
    fun u hu => ⟨Function.update_of_ne hu .., Function.update_of_ne hu ..⟩
  exact books_quiet h hs (Machine.watched_start h.watched t k w) hplaced hother free (Function.update_self ..)
    (Function.update_self ..) hdb rfl hearly hdue huntold

/-- A call of a dispatch: what it owes afterwards and what is stored balance. -/
theorem booked_worker (h : Books p x T s g early due untold) {ψ : WorkerPhase}
    (running : s.threads t = some ⟨k, .worker ψ, .ask op f⟩) (answered : (machine p).answer op c s.state = some (r, w))
    (hwhole : ¬ Torn x s (.call t c)) :
    Booked p x ⟨w, Function.update s.threads t (some ⟨k, (machine p).next k (.worker ψ) op r, f r⟩), ⟨t, k, op, r⟩ :: s.hist⟩
      (T ++ transitions p x s (.call t c)) := by
  have hs : (machine p).Step s (.call t c)
      ⟨w, Function.update s.threads t (some ⟨k, (machine p).next k (.worker ψ) op r, f r⟩), ⟨t, k, op, r⟩ :: s.hist⟩ :=
    .call running answered
  have hans := answer_cases (p := p) answered
  have hmay : TellMay p ψ (g t) op := by
    have hmay : TaskTellMay p k (.worker ψ, g t) op := Machine.Watched.may h.watched running
    rcases worker_task h.conforms running rfl with ⟨proc, id, rfl⟩ | ⟨proc, i, c, m, rfl⟩
    · exact hmay
    · exact hmay
  have hmoves := worker_moves (worker_may (h.conforms.may running)) r
  have hplaced := h.placed t k ψ _ running
  have hrow : s.state.db.row x ≠ none → w.db.row x ≠ none := row_step h.conforms hs
  have hbal := worker_balanced (x := x) running hans hmoves hmay hplaced hwhole
  refine books_step h hs (Machine.watched_call h.watched running answered _) (fun u k' φ' prog hu => ?_)
    (fun u hu => ⟨Function.update_of_ne hu .., Function.update_of_ne hu ..⟩) running (Function.update_self ..)
    (Function.update_self ..) hbal.1 hbal.2
  rcases of_update hu with ⟨rfl, hth⟩ | ⟨hne, hth⟩
  · cases hth
    rw [Function.update_self]
    exact placed_called hans hmoves hmay hrow hplaced
  · rw [Function.update_of_ne hne]
    exact placed_mono (h.placed u k' φ' prog hth) hrow

/-- A call of anybody else. -/
theorem booked_other (h : Books p x T s g early due untold) {φ : Phase}
    (running : s.threads t = some ⟨k, φ, .ask op f⟩) (answered : (machine p).answer op c s.state = some (r, w))
    (hnot : ∀ ψ, φ ≠ .worker ψ) :
    Booked p x ⟨w, Function.update s.threads t (some ⟨k, (machine p).next k φ op r, f r⟩), ⟨t, k, op, r⟩ :: s.hist⟩
      (T ++ transitions p x s (.call t c)) := by
  have hs : (machine p).Step s (.call t c)
      ⟨w, Function.update s.threads t (some ⟨k, (machine p).next k φ op r, f r⟩), ⟨t, k, op, r⟩ :: s.hist⟩ :=
    .call running answered
  have hnext : ∀ ψ, φ.next op r ≠ .worker ψ := by
    intro ψ hψ
    cases φ with
    | worker ψ' => exact hnot ψ' rfl
    | _ => cases hψ
  obtain ⟨hdb, hnone⟩ := other_call (x := x) running (h.conforms.may running) (answer_cases answered) hnot
  obtain ⟨hearly, hdue, huntold⟩ := nothing_owed_other (x := x) (k := k) (.ask op f) (g t) hnot
  obtain ⟨hearly', hdue', huntold'⟩ := nothing_owed_other (x := x) (k := k) (f r) (tell (g t) op r) hnext
  refine books_quiet h hs (Machine.watched_call h.watched running answered _) (fun u k' φ' prog hu => ?_)
    (fun u hu => ⟨Function.update_of_ne hu .., Function.update_of_ne hu ..⟩) running (Function.update_self ..)
    (Function.update_self ..) hdb hnone (hearly'.trans hearly.symm) (hdue'.trans hdue.symm) (huntold'.trans huntold.symm)
  rcases of_update hu with ⟨rfl, hth⟩ | ⟨hne, hth⟩
  · exact absurd (congrArg Thread.phase (Option.some.inj hth)) (hnext φ')
  · rw [Function.update_of_ne hne]
    exact placed_mono (h.placed u k' φ' prog hth) (row_step h.conforms hs)

end

theorem booked_step (h : Booked p x s T) (hs : (machine p).Step s l s') (hwhole : ¬ Torn x s l) :
    Booked p x s' (T ++ transitions p x s l) := by
  obtain ⟨g, early, due, untold, h⟩ := h
  have hrow : s.state.db.row x ≠ none → s'.state.db.row x ≠ none := row_step h.conforms hs
  cases hs with
  | start free entered => exact booked_start h free entered
  | @call t c k φ op f r w running answered =>
    by_cases hφ : ∃ ψ, φ = .worker ψ
    · obtain ⟨ψ, rfl⟩ := hφ
      exact booked_worker h running answered hwhole
    · exact booked_other h running answered fun ψ hψ => hφ ⟨ψ, hψ⟩
  | @crash t k φ op f running =>
    -- a dispatch that crashes outside its writes owes nothing
    have hpaid := nothing_owed_outside h running fun ψ hψ hbegun hop => by
      subst hψ
      exact hwhole (.inl ⟨t, rfl, k, ψ, op, f, running, hbegun, hop⟩)
    rw [running] at hpaid
    obtain ⟨hearly, hdue, huntold⟩ := hpaid
    refine books_quiet h (.crash running) (Machine.watched_crash h.watched t) (fun u k' φ' prog hu => ?_)
      (fun u hu => ⟨Function.update_of_ne hu .., rfl⟩) running (Function.update_self ..) rfl ⟨rfl, rfl⟩ rfl hearly.symm
      hdue.symm huntold.symm
    rcases of_update hu with ⟨-, hth⟩ | ⟨-, hth⟩
    · cases hth
    · exact h.placed u k' φ' prog hth
  | @move m w moved =>
    have hdb : s.state.db.SameHistory x w.db := by
      rw [move_db moved]
      exact ⟨rfl, rfl⟩
    exact books_quiet h (.move moved) h.watched (t := 0) (fun u k φ prog hu => placed_mono (h.placed u k φ prog hu) hrow)
      (fun u _ => ⟨rfl, rfl⟩) rfl rfl rfl hdb rfl rfl rfl rfl

/-- Nobody owes anything where nobody is writing. -/
theorem books_closed (h : Books p x T s g early due untold) (hnone : ∀ t, ¬ Writing x s t) :
    early = 0 ∧ due = 0 ∧ untold = 0 := by
  have hpaid : ∀ t, earlyOf x (s.threads t) = 0 ∧ dueOf x (s.threads t) = 0 ∧ untoldOf x (g t) (s.threads t) = 0 := by
    intro t
    cases hth : s.threads t with
    | none => exact ⟨rfl, rfl, rfl⟩
    | some th =>
      obtain ⟨k, φ, prog⟩ := th
      cases prog with
      | ask op f =>
        rw [← hth]
        apply nothing_owed_outside h hth
        intro ψ hψ hbegun hop
        subst hψ
        exact hnone t ⟨k, ψ, op, f, hth, hbegun, hop⟩
      | done a =>
        cases φ with
        | worker ψ =>
          have hends : TaskWhole k (.worker ψ, g t) a := Machine.Watched.ends h.watched hth
          have hwhole : ψ.Whole (g t) := by
            rcases worker_task h.conforms hth rfl with ⟨proc, id, rfl⟩ | ⟨proc, i, c, m, rfl⟩
            · exact hends
            · exact hends
          exact nothing_owed (h.placed t k ψ _ hth) hwhole
        | _ => exact ⟨rfl, rfl, rfl⟩
  exact ⟨h.early.eq_zero fun t => (hpaid t).1, h.due.eq_zero fun t => (hpaid t).2.1, h.untold.eq_zero fun t => (hpaid t).2.2⟩

/-- With one scheduler and one replay at a time, what a transition finds is processing. -/
theorem before_processing (h : Sole p x s) {tr : Transition} (htr : tr ∈ transitions p x s l) : tr.before = .processing := by
  cases l with
  | call t c =>
    cases hth : s.threads t with
    | none =>
      simp only [transitions, hth] at htr
      cases htr
    | some th =>
      obtain ⟨k, φ, prog⟩ := th
      by_cases hop : ∃ d f, prog = .ask (.remote (.update d)) f
      · obtain ⟨d, f, rfl⟩ := hop
        by_cases hpos : d.id = x ∧ c.Effective ∧ d.status ∈ [.succeeded, .retrying, .dlq]
        · obtain ⟨hx, hc, hst⟩ := hpos
          cases update_may (h.conforms.may hth) with
          | settle settles =>
            obtain ⟨n, hrow⟩ := owned_row (h.held.each t) (owns_of_settles hth settles hx)
            rw [transitions_some hth hx hc hst (show s.state.db.row x = some (.processing, n) from hrow)] at htr
            cases List.mem_singleton.mp htr
            rfl
          | replay dead queued =>
            subst queued
            simp at hst
          | tick pending queued =>
            subst queued
            simp at hst
        · simp only [transitions, hth] at htr
          rw [if_neg hpos] at htr
          cases htr
      · have hnone : transitions p x s (.call t c) = [] := by
          cases prog with
          | done a => simp only [transitions, hth]
          | ask op f =>
            apply transitions_other hth
            intro d hd
            subst hd
            exact hop ⟨d, f, rfl⟩
        rw [hnone] at htr
        cases htr
  | _ => cases htr

/-- In every run in which no dispatch of `x` is cut off between its writes, whatever else crashes, fails or is
    delivered again: where no dispatch of it is writing, the attempts and the events stored for `x` are
    those of its stored transitions, one each. With one scheduler process and one replay of `x` at a
    time, each of these found it processing. -/
theorem history_of_transitions (p : Params) (x : String) (ls : List Act) (s : System)
    (hr : (machine p).run (System.init p) ls = some s)
    (hok : (machine p).Along (fun s l _ => ¬ Torn x s l) (System.init p) ls) :
    ((∀ t, ¬ Writing x s t) →
      (s.state.db.attemptNumbers x).Perm
          (((machine p).collect (transitions p x) (System.init p) ls).filterMap (·.attempt)) ∧
        (s.state.db.outcomes x).Perm
          (((machine p).collect (transitions p x) (System.init p) ls).map (·.after.event))) ∧
      ((machine p).Along (fun s l _ => OneScheduler s l ∧ OneReplay s l) (System.init p) ls →
        ∀ tr ∈ (machine p).collect (transitions p x) (System.init p) ls, tr.before = .processing) := by
  refine ⟨fun hnone => ?_, fun hone => ?_⟩
  · have hbooked : Booked p x s ([] ++ (machine p).collect (transitions p x) (System.init p) ls) :=
      Machine.collect_invariant (I := Booked p x) (fun _ _ _ _ h hs hwhole => booked_step h hs hwhole) ls (init_booked p x)
        hok hr
    obtain ⟨g, early, due, untold, h⟩ := hbooked
    obtain ⟨rfl, rfl, rfl⟩ := books_closed h hnone
    rw [List.nil_append] at h
    have hattempts := h.attempts
    have hevents := h.events
    rw [add_zero, add_zero] at hattempts
    rw [add_zero] at hevents
    exact ⟨Multiset.coe_eq_coe.mp hattempts, Multiset.coe_eq_coe.mp hevents⟩
  · have hsole : ∀ tr ∈ [] ++ (machine p).collect (transitions p x) (System.init p) ls, tr.before = .processing := by
      have h := Machine.collect_invariant (f := transitions p x)
        (I := fun s T => Sole p x s ∧ ∀ tr ∈ T, tr.before = .processing)
        (fun s T l s' h hs hok => ⟨sole_step h.1 hok hs, fun tr htr => ?_⟩) ls
        (show Sole p x (System.init p) ∧ ∀ tr ∈ ([] : List Transition), tr.before = .processing from ⟨init_sole p x, nofun⟩)
        hone hr
      · exact h.2
      · rcases List.mem_append.mp htr with htr | htr
        · exact h.2 tr htr
        · exact before_processing h.1 htr
    rwa [List.nil_append] at hsole

end

/-- A handler of message 0 whose provider accepts `d1`, up to its `Update`. -/
def acceptedAndStored : List Act :=
  ingestCalls 0 "d1" ++ publishCalls 1 ++ .start 2 (.handle 0 0 0 (sampleMessage "d1")) ::
    attemptCalls 2 "a1" (.ok {}) ++ runs 2 3

/-- It goes on to the end. -/
def recordedInFull : List Act := acceptedAndStored ++ runs 2 3

/-- `RecordAttempt` fails, the message is nakked, and the next handler finds the delivery succeeded. -/
def unrecordedForGood : List Act :=
  acceptedAndStored ++ [.call 2 (.fault "down"), .call 2 .run, .start 3 (.handle 0 0 0 (sampleMessage "d1"))] ++ runs 3 2

/-- Where nothing fails no dispatch is cut off. -/
theorem not_torn_of_faultFree {x : String} {s : System} {l : Act} (h : FaultFree s l) : ¬ Torn x s l := by
  intro htorn
  rcases htorn with ⟨t, hl, -⟩ | ⟨t, c, k, φ, q, f, last, hl, -, -, hfail⟩
  · exact h.1 t hl
  · rcases hfail with ⟨⟨msg, rfl⟩, -⟩ | ⟨⟨msg, rfl⟩, -⟩
    · exact h.2 t _ hl trivial
    · exact h.2 t _ hl trivial

theorem not_writing_of_rest {p : Params} {x : String} {s : System} {ls : List Act}
    (hr : (machine p).run (System.init p) ls = some s)
    (hrest : (Machine.started ls).all (fun t => Machine.atRest (s.threads t)) = true) (t : Nat) : ¬ Writing x s t := by
  intro hwriting
  obtain ⟨k, φ, op, f, hth, -⟩ := hwriting
  exact Machine.rest_of_run hr (fun _ => rfl) hrest hth ⟨op, f, rfl⟩

theorem history_of_transitions_sample :
    ∃ s, (machine {}).run (System.init {}) recordedInFull = some s ∧
      s.state.db.row "d1" = some (.succeeded, 0) ∧ (s.state.db.attemptNumbers "d1").Perm [1] ∧
      (s.state.db.outcomes "d1").Perm [.dispatchSucceeded] := by
  have hrun : ((machine {}).run (System.init {}) recordedInFull).map (fun s =>
      (s.state.db.row "d1", (Machine.started recordedInFull).all fun t => Machine.atRest (s.threads t))) =
        some (some (.succeeded, 0), true) := by
    decide +kernel
  have hcollect : (machine {}).collect (transitions {} "d1") (System.init {}) recordedInFull =
      [⟨.processing, .succeeded, some 1⟩] := by
    decide +kernel
  obtain ⟨s, hs, hparts⟩ := Option.map_eq_some_iff.mp hrun
  obtain ⟨hrow, hrest⟩ := Prod.mk.inj hparts
  have hsmooth : (machine {}).Along (fun s l _ => FaultFree s l) (System.init {}) recordedInFull :=
    along_faultFree (by decide +kernel)
  have h := (history_of_transitions {} "d1" recordedInFull s hs
    (Machine.Along.mono (fun _ _ _ => not_torn_of_faultFree) recordedInFull hsmooth)).1 (not_writing_of_rest hs hrest)
  rw [hcollect] at h
  exact ⟨s, hs, hrow, h.1, h.2⟩

/-- The delivery is succeeded for good, its attempt and its event are stored nowhere. -/
theorem succeeded_unrecorded :
    ¬ ∀ (ls : List Act) (s : System), (machine {}).run (System.init {}) ls = some s → (∀ t, ¬ Writing "d1" s t) →
      (s.state.db.attemptNumbers "d1").Perm
          (((machine {}).collect (transitions {} "d1") (System.init {}) ls).filterMap (·.attempt)) ∧
        (s.state.db.outcomes "d1").Perm
          (((machine {}).collect (transitions {} "d1") (System.init {}) ls).map (·.after.event)) := by
  intro hall
  have hrun : ((machine {}).run (System.init {}) unrecordedForGood).map (fun s =>
      (s.state.db.attemptNumbers "d1", (Machine.started unrecordedForGood).all fun t => Machine.atRest (s.threads t))) =
        some ([], true) := by
    decide +kernel
  have hcollect : (machine {}).collect (transitions {} "d1") (System.init {}) unrecordedForGood =
      [⟨.processing, .succeeded, some 1⟩] := by
    decide +kernel
  obtain ⟨s, hs, hparts⟩ := Option.map_eq_some_iff.mp hrun
  obtain ⟨hnone, hrest⟩ := Prod.mk.inj hparts
  have h := (hall unrecordedForGood s hs (not_writing_of_rest hs hrest)).1
  rw [hcollect, hnone] at h
  exact absurd h.length_eq nofun

end GoCourier
