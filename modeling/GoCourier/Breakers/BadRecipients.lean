import GoCourier.Breakers.Isolation

/- Runs with and without the bad recipients. Along a run of dispatches the two go side by side:
   every thread of another delivery is the same in both, and what it has been answered.
   `bad_recipients_harmless` holds of every such run in which no failure opens a breaker on account
   of the bad deliveries; `bad_recipients_open` is a run in which one does. -/
namespace GoCourier

open Interleave

/-- A dispatch, of a message that is in the stream. -/
def Task.Handed (w : World) : Task → Prop
  | .dispatch _ _ => True
  | .handle _ i _ m => w.stream[i]? = some m
  | _ => False

/-- Every thread with calls to make is a dispatch, and no bad delivery has been accepted. -/
structure Rejecting (p : Params) (bad : String → Bool) (s : System) : Prop where
  conforms : (machine p).Conforms (protocol p) s
  handed : ∀ t th, s.threads t = some th → th.Live → th.task.Handed s.state
  rejected : ∀ t th, s.threads t = some th → th.Live → th.task.names bad = true → ∀ d, th.phase ≠ .worker (.accepted d)

/-- The threads `b` are the threads `a` without the dispatches of the bad deliveries. -/
structure Thinned (bad : String → Bool) (a b : Nat → Option (Thread Op Ans Task Result Phase)) : Prop where
  others : ∀ t th, a t = some th → th.task.names bad = false → b t = some th
  free : ∀ t, a t = none → b t = none
  own : ∀ t th, a t = some th → th.Live → th.task.names bad = true → b t = none

/-- `v` is `s` without the dispatches of the bad deliveries. -/
structure Alongside (p : Params) (bad : String → Bool) (s v : System) : Prop where
  rejecting : Rejecting p bad s
  threads : Thinned bad s.threads v.threads
  calls : otherCalls bad v = otherCalls bad s
  world : Spared bad s.state v.state

section
variable {p : Params} {bad : String → Bool} {s s' v : System} {l : Act} {k : Task} {φ : Phase} {w : World}

theorem target_names {x : String} (h : k.Target x) : k.names bad = bad x := by
  cases k with
  | dispatch proc id => exact congrArg bad (show x = id from h).symm
  | handle proc i c m =>
    have hx : m.deliveryId = .ok x := h
    simp only [Task.names, Message.names, hx]
  | _ => exact h.elim

theorem copies_names (h : k.Handed w) {i c : Nat} (hcopy : k.Copies (i, c)) :
    (w.stream[i]?).any (·.names bad) = k.names bad := by
  cases k with
  | handle proc j d m =>
    cases hcopy
    rw [show w.stream[i]? = some m from h]
    rfl
  | _ => exact hcopy.elim

/-- The phase of a dispatch that has a call to make. -/
theorem worker_of_handed (h : k.Handed w) {op : Op} (hm : May p k φ op) : ∃ ψ, φ = .worker ψ := by
  cases φ with
  | worker ψ => exact ⟨ψ, rfl⟩
  | _ =>
    cases k with
    | dispatch proc id => exact hm.elim
    | handle proc i c m => exact hm.elim
    | _ => exact h.elim

theorem about_target {ψ : WorkerPhase} (h : About k (.worker ψ)) (hk : k.Handed w) : ψ.About k.Target := by
  cases k with
  | dispatch proc id => exact h
  | handle proc i c m => exact h
  | _ => exact hk.elim

theorem handed_mono {w' : World} (h : k.Handed w) (hstream : w.stream <+: w'.stream) : k.Handed w' := by
  cases k with
  | dispatch proc id => trivial
  | handle proc i c m =>
    have hi : w.stream[i]? = some m := h
    obtain ⟨ms, hms⟩ := hstream
    obtain ⟨hlt, -⟩ := List.getElem?_eq_some_iff.mp hi
    show w'.stream[i]? = some m
    rw [← hms, List.getElem?_append_left hlt]
    exact hi
  | _ => exact h.elim

/-- A dispatch starts on a message of the stream. -/
theorem handed_of_enter (hd : DispatchStep bad s l) {t : Nat} (hl : l = .start t k) (entered : s.state.enter p k = some w) :
    k.Handed s.state := by
  obtain ⟨proc, id, rfl⟩ | ⟨proc, i, c, m, rfl⟩ := hd.only t k hl
  · trivial
  · simp only [World.enter] at entered
    split at entered
    · rename_i hdue
      exact hdue.1
    · cases entered

/-- The provider accepts a delivery only with its answer to `Send`. -/
theorem accepted_next {ψ : WorkerPhase} {op : Op} {r : Ans op} {d : Delivery} (h : ψ.next op r = .accepted d) :
    ψ = .accepted d ∨ ∃ d', op = .send d' := by
  have hsettle : ∀ d', ψ.settle d' ≠ .accepted d := by
    intro d'
    cases ψ <;> exact WorkerPhase.noConfusion
  have hnote : ψ.note = .accepted d → ψ = .accepted d := by
    intro hn
    cases ψ <;> first | exact hn | cases hn
  have hrefuse : ∀ e, ψ.refuse e = .accepted d → ψ = .accepted d := by
    intro e hr
    cases ψ <;> first | exact hr | cases hr
  cases op with
  | send d' => exact .inr ⟨d', rfl⟩
  | allow proc ch =>
    cases r with
    | ok a => exact .inl h
    | error e => exact .inl (hrefuse _ h)
  | ack i c => cases h
  | nak i c => cases h
  | remote q =>
    left
    cases r with
    | error e => cases q <;> first | exact h | cases h
    | ok a =>
      cases q with
      | findByID id => cases h
      | updateIfStatus d' st => cases a <;> cases h
      | update d' => exact absurd h (hsettle d')
      | recordAttempt id a => exact hnote h
      | _ => exact h
  | _ => exact .inl h

theorem rejecting_step (h : Rejecting p bad s) (hd : DispatchStep bad s l) (hs : (machine p).Step s l s') :
    Rejecting p bad s' := by
  have hmono := (streams_step hs).1
  refine ⟨Machine.conforms_step h.conforms hs, ?_, ?_⟩
  · intro t th hth hlive
    cases hs.origin hth with
    | kept before other => exact handed_mono (h.handed t th before hlive) hmono
    | started label free entered => exact handed_mono (handed_of_enter hd label entered) hmono
    | called label running answered =>
      have hk := h.handed t _ running ⟨_, _, rfl⟩
      exact handed_mono hk hmono
  · intro t th hth hlive hbad d hphase
    cases hs.origin hth with
    | kept before other => exact h.rejected t th before hlive hbad d hphase
    | @started k label free entered => cases k <;> cases hphase
    | @called c k φ op f r label running answered =>
      have hk := h.handed t _ running ⟨_, _, rfl⟩
      obtain ⟨ψ, rfl⟩ := worker_of_handed hk (h.conforms.may running)
      have hnext : ψ.next op r = .accepted d := Phase.worker.inj hphase
      have hψ : ψ ≠ .accepted d := fun hd => h.rejected t _ running ⟨_, _, rfl⟩ hbad d (congrArg Phase.worker hd)
      obtain hsame | ⟨d', rfl⟩ := accepted_next hnext
      · exact hψ hsame
      · -- the provider's verdict on a bad recipient is an error
        generalize s'.state = w' at answered
        cases answer_cases answered with
        | send =>
          obtain ⟨e, rfl, -⟩ := hd.rejected t r _ label running hbad
          cases ψ <;> first | exact hψ hnext | cases hnext

/-! One step of both runs. -/

theorem target_of_names {x : String} {b : Bool} (hk : k.names bad = b) (h : k.Target x) : bad x = b :=
  (target_names h).symm.trans hk

theorem otherCalls_call {s : System} {threads : Nat → Option (Thread Op Ans Task Result Phase)} {t : Nat} {op : Op}
    {r : Ans op} (hk : k.names bad = false) :
    otherCalls bad ⟨w, threads, ⟨t, k, op, r⟩ :: s.hist⟩ = ⟨t, k, op, r⟩ :: otherCalls bad s := by
  simp only [otherCalls, List.filter_cons, hk, Bool.not_false, if_true]

section
variable {a b : Nat → Option (Thread Op Ans Task Result Phase)} {t : Nat} {x : Option (Thread Op Ans Task Result Phase)}

/-- A thread of the others moves in both runs. -/
theorem thinned_both (h : Thinned bad a b) (hx : ∀ th, x = some th → th.task.names bad = false) :
    Thinned bad (Function.update a t x) (Function.update b t x) := by
  refine ⟨?_, ?_, ?_⟩
  · intro u th hu hth
    rcases of_update hu with ⟨rfl, hx'⟩ | ⟨hne, hold⟩
    · rw [Function.update_self]
      exact hx'
    · rw [Function.update_of_ne hne]
      exact h.others u th hold hth
  · intro u hu
    by_cases hne : u = t
    · subst hne
      rw [Function.update_self] at hu ⊢
      exact hu
    · rw [Function.update_of_ne hne] at hu ⊢
      exact h.free u hu
  · intro u th hu hlive hth
    rcases of_update hu with ⟨-, hx'⟩ | ⟨hne, hold⟩
    · exact Bool.noConfusion ((hx th hx').symm.trans hth)
    · rw [Function.update_of_ne hne]
      exact h.own u th hold hlive hth

/-- A thread of a bad delivery moves in one. -/
theorem thinned_out (h : Thinned bad a b) (hx : ∀ th, x = some th → th.task.names bad = true) (hnone : b t = none) :
    Thinned bad (Function.update a t x) b := by
  refine ⟨?_, ?_, ?_⟩
  · intro u th hu hth
    rcases of_update hu with ⟨-, hx'⟩ | ⟨-, hold⟩
    · exact Bool.noConfusion (hth.symm.trans (hx th hx'))
    · exact h.others u th hold hth
  · intro u hu
    by_cases hne : u = t
    · exact hne ▸ hnone
    · rw [Function.update_of_ne hne] at hu
      exact h.free u hu
  · intro u th hu hlive hth
    rcases of_update hu with ⟨rfl, -⟩ | ⟨-, hold⟩
    · exact hnone
    · exact h.own u th hold hlive hth

theorem names_of_some {k : Task} {φ : Phase} {prog : CallTree Op Ans Result} {y : Bool} (hk : k.names bad = y) :
    ∀ th : Thread Op Ans Task Result Phase, some ⟨k, φ, prog⟩ = some th → th.task.names bad = y := by
  intro th hth
  cases hth
  exact hk

theorem names_of_none {y : Bool} :
    ∀ th : Thread Op Ans Task Result Phase, none = some th → th.task.names bad = y := by
  intro th hth
  cases hth

end

/-- A step of the others is made in both runs. -/
theorem alongside_kept (h : Alongside p bad s v) (hd : DispatchStep bad s l) (hharm : ¬ Harms bad s v l)
    (hl : stepNames bad s l = false) (hs : (machine p).Step s l s') :
    ∃ v', (machine p).Step v l v' ∧ Alongside p bad s' v' := by
  have hrejecting := rejecting_step h.rejecting hd hs
  cases hs with
  | @start t k w free entered =>
    have hbad : k.names bad = false := hl
    have hw : ∃ w', v.state.enter p k = some w' ∧ Spared bad w w' := by
      obtain ⟨proc, id, rfl⟩ | ⟨proc, i, c, m, rfl⟩ := hd.only t k rfl
      · cases entered
        exact ⟨v.state, rfl, h.world⟩
      · have entered : s.state.enter p (.handle proc i c m) = some w := entered
        simp only [World.enter] at entered ⊢
        split at entered
        · rename_i hdue
          cases entered
          have hcopy : v.state.copies (i, c) = s.state.copies (i, c) := by
            apply h.world.copies
            rw [hdue.1]
            exact hbad
          rw [h.world.stream, hcopy, if_pos hdue]
          exact ⟨_, rfl, spared_copy h.world i c _⟩
        · cases entered
    obtain ⟨w', entered', hworld⟩ := hw
    exact ⟨_, .start (h.threads.free t free) entered', hrejecting, thinned_both h.threads (names_of_some hbad), h.calls,
      hworld⟩
  | @call t c k φ op f r w running answered =>
    have hbad : k.names bad = false := by
      rw [stepNames, running] at hl
      exact hl
    have hk : k.Handed s.state := h.rejecting.handed t _ running ⟨_, _, rfl⟩
    have hmay := h.rejecting.conforms.may running
    obtain ⟨ψ, rfl⟩ := worker_of_handed hk hmay
    obtain ⟨w', answered', hworld⟩ := spared_answer h.world (worker_may hmay)
      (about_target (h.rejecting.conforms.holds running) hk) (fun x => target_of_names hbad)
      (fun i c hcopy => (copies_names hk hcopy).trans hbad)
      (fun proc ch hop htrips => by
        subst hop
        by_contra hquiet
        exact hharm ⟨t, c, k, .worker ψ, proc, ch, f, rfl, running, htrips, .inr hquiet⟩)
      (answer_cases answered)
    refine ⟨_, .call (h.threads.others t _ running hbad) answered', hrejecting,
      thinned_both h.threads (names_of_some hbad), ?_, hworld⟩
    rw [otherCalls_call hbad, otherCalls_call hbad, h.calls]
  | @crash t k φ op f running =>
    have hbad : k.names bad = false := by
      rw [stepNames, running] at hl
      exact hl
    exact ⟨_, .crash (h.threads.others t _ running hbad), hrejecting, thinned_both h.threads names_of_none, h.calls, h.world⟩
  | @move m w moved =>
    have hw : ∃ w', v.state.move m = some w' ∧ Spared bad w w' := by
      cases m with
      | clock t =>
        cases moved
        have hlater : s.state.clock ≤ t := hd.forward t rfl
        exact ⟨_, rfl, h.world.rows, h.world.stream, h.world.copies, rfl, h.world.issued,
          fun pc => burdened_later (h.world.breakers pc) hlater⟩
      | ackWait i c =>
        have moved : s.state.move (.ackWait i c) = some w := moved
        simp only [World.move] at moved ⊢
        split at moved
        · rename_i hbusy
          cases moved
          rw [h.world.copies i c hl, if_pos hbusy]
          exact ⟨_, rfl, spared_copy h.world i c _⟩
        · cases moved
    obtain ⟨w', moved', hworld⟩ := hw
    exact ⟨_, .move moved', hrejecting, h.threads, h.calls, hworld⟩

/-- A step of a bad delivery's dispatch leaves the other run where it is. -/
theorem alongside_out (h : Alongside p bad s v) (hd : DispatchStep bad s l) (hharm : ¬ Harms bad s v l)
    (hl : stepNames bad s l = true) (hs : (machine p).Step s l s') : Alongside p bad s' v := by
  have hrejecting := rejecting_step h.rejecting hd hs
  cases hs with
  | @start t k w free entered =>
    have hbad : k.names bad = true := hl
    refine ⟨hrejecting, thinned_out h.threads (names_of_some hbad) (h.threads.free t free), h.calls, ?_⟩
    · obtain ⟨proc, id, rfl⟩ | ⟨proc, i, c, m, rfl⟩ := hd.only t k rfl
      · cases entered
        exact h.world
      · have entered : s.state.enter p (.handle proc i c m) = some w := entered
        simp only [World.enter] at entered
        split at entered
        · rename_i hdue
          cases entered
          apply spared_copy_unseen h.world
          rw [hdue.1]
          exact hbad
        · cases entered
  | @call t c k φ op f r w running answered =>
    have hbad : k.names bad = true := by
      rw [stepNames, running] at hl
      exact hl
    have hlive : (⟨k, φ, .ask op f⟩ : Thread Op Ans Task Result Phase).Live := ⟨_, _, rfl⟩
    have hk : k.Handed s.state := h.rejecting.handed t _ running hlive
    have hmay := h.rejecting.conforms.may running
    obtain ⟨ψ, rfl⟩ := worker_of_handed hk hmay
    have hnone := h.threads.own t _ running hlive hbad
    refine ⟨hrejecting, thinned_out h.threads (names_of_some hbad) hnone, ?_, ?_⟩
    · rw [h.calls]
      simp only [otherCalls, List.filter_cons, hbad, Bool.not_true, Bool.false_eq_true, if_false]
    · apply spared_own h.world (worker_may hmay) (about_target (h.rejecting.conforms.holds running) hk)
        (fun x => target_of_names hbad) (fun i c hcopy => (copies_names hk hcopy).trans hbad)
        (fun d hd => h.rejecting.rejected t _ running hlive hbad d (congrArg Phase.worker hd)) ?_ (answer_cases answered)
      intro proc ch hop htrips
      subst hop
      exact hharm ⟨t, c, k, .worker ψ, proc, ch, f, rfl, running, htrips, .inl hbad⟩
  | @crash t k φ op f running =>
    have hbad : k.names bad = true := by
      rw [stepNames, running] at hl
      exact hl
    have hnone := h.threads.own t _ running ⟨_, _, rfl⟩ hbad
    exact ⟨hrejecting, thinned_out h.threads names_of_none hnone, h.calls, h.world⟩
  | @move m w moved =>
    cases m with
    | clock t => cases hl
    | ackWait i c =>
      have moved : s.state.move (.ackWait i c) = some w := moved
      simp only [World.move] at moved
      split at moved
      · cases moved
        exact ⟨hrejecting, h.threads, h.calls, spared_copy_unseen h.world hl c _⟩
      · cases moved

theorem spared_refl (w : World) : Spared bad w w :=
  ⟨fun _ _ => rfl, rfl, fun _ _ _ => rfl, rfl, List.Subset.refl _, fun pc => burdened_refl (w.breakers pc) w.clock⟩

/-- Where nothing is going on the two runs may start. -/
theorem alongside_start (hr : (machine p).Reach (fun _ _ => True) (System.init p) s)
    (hrest : ∀ t th, s.threads t = some th → ¬ th.Live) (hw : Spared bad s.state w) :
    Alongside p bad s { s with state := w } where
  rejecting :=
    { conforms := Machine.reach_conforms (init_conforms p) hr
      handed := fun t th hth hlive => absurd hlive (hrest t th hth)
      rejected := fun t th hth hlive => absurd hlive (hrest t th hth) }
  threads := ⟨fun _ _ hth _ => hth, fun _ hfree => hfree, fun t th hth hlive => absurd hlive (hrest t th hth)⟩
  calls := rfl
  world := hw

end

/-- In every run of dispatches in which no failure opens a breaker on account of the bad recipients: the
    steps of the other deliveries make a run of their own, from any world that is the same to them; they get
    the same answers there, from the breakers and from the provider, and leave the same rows. -/
theorem bad_recipients_harmless (p : Params) (bad : String → Bool) (s₀ s : System) (w₀ : World) (ls : List Act)
    (hr : (machine p).Reach (fun _ _ => True) (System.init p) s₀)
    (hrest : ∀ t th, s₀.threads t = some th → ¬ th.Live) (hsame : Spared bad s₀.state w₀)
    (hok : (machine p).Beside (stepNames bad) (fun s v l => DispatchStep bad s l ∧ ¬ Harms bad s v l) s₀
      { s₀ with state := w₀ } ls)
    (hrun : (machine p).run s₀ ls = some s) :
    ∃ v, (machine p).run { s₀ with state := w₀ } ((machine p).without (stepNames bad) s₀ ls) = some v ∧
      otherCalls bad v = otherCalls bad s ∧ ∀ x, bad x = false → v.state.db.deliveries x = s.state.db.deliveries x := by
  obtain ⟨v, hv, h⟩ := Machine.run_without (R := Alongside p bad)
    (fun _ _ _ _ h hP hl hs => alongside_out h hP.1 hP.2 hl hs) (fun _ _ _ _ h hP hl hs => alongside_kept h hP.1 hP.2 hl hs)
    ls (alongside_start hr hrest hsame) hok hrun
  exact ⟨v, hv, h.calls, h.world.rows⟩

/-! Runs at fixed inputs. -/

/-- `DispatchStep` of a step, at fixed inputs. -/
def dispatchStepCheck (bad : String → Bool) (s : System) : Act → Bool
  | .start _ (.dispatch _ _) => true
  | .start _ (.handle _ _ _ _) => true
  | .start _ _ => false
  | .call t (.verdict v) => match s.threads t, v with
    | some th, .ok _ => ! th.task.names bad
    | some th, .error e => ! th.task.names bad || isPermanent e
    | none, _ => true
  | .move (.clock t) => s.state.clock ≤ t
  | _ => true

theorem dispatchStep_of_check {bad : String → Bool} {s : System} {l : Act} (h : dispatchStepCheck bad s l = true) :
    DispatchStep bad s l where
  only := by
    intro t k hl
    subst hl
    cases k with
    | dispatch proc id => exact .inl ⟨proc, id, rfl⟩
    | handle proc i c m => exact .inr ⟨proc, i, c, m, rfl⟩
    | _ => cases h
  rejected := by
    intro t v th hl hth hbad
    subst hl
    cases v with
    | ok a =>
      simp only [dispatchStepCheck, hth, hbad] at h
      cases h
    | error e =>
      simp only [dispatchStepCheck, hth, hbad, Bool.not_true, Bool.false_or] at h
      exact ⟨e, rfl, h⟩
  forward := by
    intro t hl
    subst hl
    exact of_decide_eq_true h

/-- `Harms` of a step, at fixed inputs. -/
def harmsCheck (bad : String → Bool) (s v : System) : Act → Bool
  | .call t _ => match s.threads t with
    | some ⟨k, _, .ask (.recordFailure proc ch) _⟩ => (s.state.breakers (proc, ch)).Trips s.state.clock ∧
        (k.names bad = true ∨ ¬ (v.state.breakers (proc, ch)).Trips s.state.clock)
    | _ => false
  | _ => false

theorem spares_of_check {bad : String → Bool} {s v : System} {l : Act}
    (h : (dispatchStepCheck bad s l && ! harmsCheck bad s v l) = true) : DispatchStep bad s l ∧ ¬ Harms bad s v l := by
  rw [Bool.and_eq_true, Bool.not_eq_true'] at h
  refine ⟨dispatchStep_of_check h.1, fun hharm => ?_⟩
  obtain ⟨t, c, k, φ, proc, ch, f, rfl, hth, hharm⟩ := hharm
  have hcheck : harmsCheck bad s v (.call t c) = true := by
    simp only [harmsCheck, hth]
    exact decide_eq_true hharm
  rw [hcheck] at h
  cases h.2

/-- An `Ingest` of delivery `id`, by a thread and under a key of its own. -/
def ingestOf (t : Nat) (id : String) : List Act := ingestCalls t id { sampleRequest with idempotencyKey := id }

/-- Every delivery but `d6`. -/
def allButLast (x : String) : Bool := x ≠ "d6"

/-- What the provider says of a bad recipient. -/
def invalidRecipient : Err := ⟨"permanent error: invalid recipient", [.permanent]⟩

/-- Two bad recipients, a good one dispatched between them. -/
def goodBetween : List Act :=
  deadLetterCalls 3 "d1" "a1" invalidRecipient ++ succeedCalls 4 "d6" "a6" ++ deadLetterCalls 5 "d2" "a2" invalidRecipient

theorem bad_recipients_harmless_sample :
    ∃ s₀ s v, (machine {}).run (System.init {}) (ingestOf 0 "d1" ++ ingestOf 1 "d2" ++ ingestOf 2 "d6") = some s₀ ∧
      (machine {}).run s₀ goodBetween = some s ∧ s.state.db.row "d1" = some (.dlq, 0) ∧
      (machine {}).run s₀ ((machine {}).without (stepNames allButLast) s₀ goodBetween) = some v ∧
      otherCalls allButLast v = otherCalls allButLast s ∧ v.state.db.deliveries "d6" = s.state.db.deliveries "d6" := by
  have hrun : ((machine {}).run (System.init {}) (ingestOf 0 "d1" ++ ingestOf 1 "d2" ++ ingestOf 2 "d6")).map (fun s₀ =>
      ((Machine.started (ingestOf 0 "d1" ++ ingestOf 1 "d2" ++ ingestOf 2 "d6")).all fun t => Machine.atRest (s₀.threads t),
        (machine {}).besideCheck (stepNames allButLast)
          (fun s v l => dispatchStepCheck allButLast s l && ! harmsCheck allButLast s v l) s₀ s₀ goodBetween,
        ((machine {}).run s₀ goodBetween).map fun s => s.state.db.row "d1")) = some (true, true, some (some (.dlq, 0))) := by
    decide +kernel
  obtain ⟨s₀, hs₀, hparts⟩ := Option.map_eq_some_iff.mp hrun
  rw [Prod.mk.injEq, Prod.mk.injEq] at hparts
  obtain ⟨hidle, hcheck, hrow⟩ := hparts
  obtain ⟨s, hs, hrow⟩ := Option.map_eq_some_iff.mp hrow
  have hr : (machine {}).Reach (fun _ _ => True) (System.init {}) s₀ :=
    Machine.reach_of_run _ .refl (Machine.along_of_forall _ _ fun _ _ _ _ => trivial) hs₀
  have hrest : ∀ t th, s₀.threads t = some th → ¬ th.Live := fun t th => Machine.rest_of_run hs₀ (fun _ => rfl) hidle
  have hok := Machine.Beside.mono (fun _ _ _ => spares_of_check) _ (Machine.beside_of_check _ hcheck)
  obtain ⟨v, hv, hcalls, hrows⟩ :=
    bad_recipients_harmless {} allButLast s₀ s s₀.state goodBetween hr hrest (spared_refl s₀.state) hok hs
  exact ⟨s₀, s, v, hs₀, hs, hrow, hv, hcalls, hrows "d6" rfl⟩

/-- Five bad recipients, as many failures as open the breaker, and then `d6` asks it. -/
def fiveBefore : List Act :=
  deadLetterCalls 6 "d1" "a1" invalidRecipient ++ deadLetterCalls 7 "d2" "a2" invalidRecipient ++
    deadLetterCalls 8 "d3" "a3" invalidRecipient ++ deadLetterCalls 9 "d4" "a4" invalidRecipient ++
    deadLetterCalls 10 "d5" "a5" invalidRecipient ++ .start 11 (.dispatch 0 "d6") :: runs 11 4

def sixIngests : List Act :=
  ingestOf 0 "d1" ++ ingestOf 1 "d2" ++ ingestOf 2 "d3" ++ ingestOf 3 "d4" ++ ingestOf 4 "d5" ++ ingestOf 5 "d6"

/-- The rest of `d6`'s dispatch when the breaker has refused it. -/
def refusedRest : List Act := .call 11 (.uuid "a6") :: runs 11 4 ++ [.call 11 (.rand 0)]

/-- The rest of it when the breaker has admitted it, and the provider accepts. -/
def admittedRest : List Act := [.call 11 (.uuid "a6"), .call 11 (.verdict (.ok {}))] ++ runs 11 5

/-- The breaker refuses `d6` because of the five; without them it is sent. One retry of `d6` is used up,
    and it is not sent. -/
theorem bad_recipients_open :
    ∃ s₀ s v s' v', (machine {}).run (System.init {}) sixIngests = some s₀ ∧
      (machine {}).run s₀ fiveBefore = some s ∧
      (machine {}).run s₀ ((machine {}).without (stepNames allButLast) s₀ fiveBefore) = some v ∧
      (machine {}).Along (fun s l _ => DispatchStep allButLast s l) s₀ fiveBefore ∧
      lastAllow s = some (.error errCircuitOpen) ∧ lastAllow v = some (.ok ()) ∧
      otherCalls allButLast v ≠ otherCalls allButLast s ∧
      (machine {}).run s refusedRest = some s' ∧ s'.state.db.row "d6" = some (.retrying, 1) ∧
      (machine {}).run v admittedRest = some v' ∧ v'.state.db.row "d6" = some (.succeeded, 0) := by
  have hrun : ((machine {}).run (System.init {}) sixIngests).map (fun s₀ =>
      ((machine {}).check (dispatchStepCheck allButLast) s₀ fiveBefore,
        ((machine {}).run s₀ fiveBefore).map (fun s => decide (lastAllow s = some (.error errCircuitOpen) ∧
          lastAllow { s with hist := otherCalls allButLast s } = some (.error errCircuitOpen) ∧
          ((machine {}).run s refusedRest).map (·.state.db.row "d6") = some (some (.retrying, 1)))),
        ((machine {}).run s₀ ((machine {}).without (stepNames allButLast) s₀ fiveBefore)).map (fun v =>
          decide (lastAllow v = some (.ok ()) ∧ lastAllow { v with hist := otherCalls allButLast v } = some (.ok ()) ∧
            ((machine {}).run v admittedRest).map (·.state.db.row "d6") = some (some (.succeeded, 0)))))) =
      some (true, some true, some true) := by
    decide +kernel
  obtain ⟨s₀, hs₀, hparts⟩ := Option.map_eq_some_iff.mp hrun
  rw [Prod.mk.injEq, Prod.mk.injEq] at hparts
  obtain ⟨hcheck, hs, hv⟩ := hparts
  obtain ⟨s, hs, hsparts⟩ := Option.map_eq_some_iff.mp hs
  obtain ⟨v, hv, hvparts⟩ := Option.map_eq_some_iff.mp hv
  obtain ⟨hrefused, hrefused', hrest⟩ := of_decide_eq_true hsparts
  obtain ⟨hadmitted, hadmitted', hrest'⟩ := of_decide_eq_true hvparts
  obtain ⟨s', hs', hsrow⟩ := Option.map_eq_some_iff.mp hrest
  obtain ⟨v', hv', hvrow⟩ := Option.map_eq_some_iff.mp hrest'
  have hsteps : (machine {}).Along (fun s l _ => DispatchStep allButLast s l) s₀ fiveBefore :=
    Machine.Along.mono (fun _ _ _ => dispatchStep_of_check) _ (Machine.along_of_check _ hcheck)
  refine ⟨s₀, s, v, s', v', hs₀, hs, hv, hsteps, hrefused, hadmitted, ?_, hs', hsrow, hv', hvrow⟩
  intro hcalls
  -- `lastAllow` reads the calls only
  have hsame : lastAllow { v with hist := otherCalls allButLast v } =
      lastAllow { s with hist := otherCalls allButLast s } := by
    rw [hcalls]
    rfl
  rw [hadmitted', hrefused'] at hsame
  cases hsame

end GoCourier
