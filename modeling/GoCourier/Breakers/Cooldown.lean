import GoCourier.Rows.Later

/- The cooldown of a breaker. A call that the breaker admitted before it opened may record
   its outcome after: a late failure leaves the breaker open, a late success closes it. -/
namespace GoCourier

open Interleave

/-! One breaker. -/

namespace Breaker

/-- Since the breaker opened at `t` its cooldown has passed, or it is still open. -/
def OpenSince (b : Breaker) (t now : Time) : Prop :=
  t ≤ now ∧ (t + b.cooldown ≤ now ∨ (b.state = .opened ∧ t ≤ b.openedAt))

/-- The breaker is open and its cooldown has not passed. -/
def Cooling (b : Breaker) (now : Time) : Prop := b.state = .opened ∧ now < b.openedAt + b.cooldown

instance (b : Breaker) (now : Time) : Decidable (b.Cooling now) := inferInstanceAs (Decidable (_ ∧ _))

variable {b : Breaker} {t now : Time}

theorem openSince_later {now' : Time} (h : b.OpenSince t now) (hle : now ≤ now') : b.OpenSince t now' := by
  obtain ⟨hpast, hopen⟩ := h
  refine ⟨le_trans hpast hle, ?_⟩
  rcases hopen with hcooled | hopen
  · exact .inl (le_trans hcooled hle)
  · exact .inr hopen

/-- Within the cooldown the breaker is cooling. -/
theorem cooling_of_openSince (h : b.OpenSince t now) (hlt : now < t + b.cooldown) : b.Cooling now := by
  obtain ⟨-, hcooled | ⟨hst, hle⟩⟩ := h
  · exact absurd hcooled (not_le.mpr hlt)
  · exact ⟨hst, lt_of_lt_of_le hlt (Int.add_le_add_right hle _)⟩

theorem allow_cooling (h : b.Cooling now) : b.allow now = (.error errCircuitOpen, b) := by
  have hlt : ¬ now - b.openedAt ≥ b.cooldown := by
    apply not_le.mpr
    exact Int.sub_left_lt_of_lt_add h.2
  unfold allow
  rw [h.1]
  exact if_neg hlt

theorem allow_cooldown (b : Breaker) (now : Time) : (b.allow now).2.cooldown = b.cooldown := by
  unfold allow
  split
  · split <;> rfl
  · rfl
  · rfl

theorem recordFailure_cooldown (b : Breaker) (now : Time) : (b.recordFailure now).cooldown = b.cooldown := by
  unfold recordFailure
  simp only []
  split <;> rfl

/-- Only an `Allow` after the cooldown moves an open breaker. -/
theorem openSince_allow (h : b.OpenSince t now) : (b.allow now).2.OpenSince t now := by
  by_cases hlt : now < t + b.cooldown
  · rw [allow_cooling (cooling_of_openSince h hlt)]
    exact h
  · refine ⟨h.1, .inl ?_⟩
    rw [allow_cooldown]
    exact not_lt.mp hlt

/-- A late failure may open the breaker again, never close it. -/
theorem openSince_recordFailure (h : b.OpenSince t now) : (b.recordFailure now).OpenSince t now := by
  obtain ⟨hpast, hcooled | ⟨hst, hle⟩⟩ := h
  · refine ⟨hpast, .inl ?_⟩
    rw [recordFailure_cooldown]
    exact hcooled
  · refine ⟨hpast, .inr ?_⟩
    unfold recordFailure
    simp only []
    split
    · exact ⟨rfl, hpast⟩
    · exact ⟨hst, hle⟩

/-- A success closes it, which is late only while it is cooling. -/
theorem openSince_recordSuccess (h : b.OpenSince t now) (hlate : ¬ b.Cooling now) : b.recordSuccess.OpenSince t now := by
  refine ⟨h.1, .inl ?_⟩
  by_contra hlt
  exact hlate (cooling_of_openSince h (not_le.mp hlt))

end Breaker

/-! The breaker of a process and channel. -/

/-- What a call at time `now` makes of the breaker of `pc`. -/
def Op.turnBreaker (pc : Nat × Channel) (now : Time) (b : Breaker) : Op → Breaker
  | .allow proc ch => if (proc, ch) = pc then (b.allow now).2 else b
  | .recordSuccess proc ch => if (proc, ch) = pc then b.recordSuccess else b
  | .recordFailure proc ch => if (proc, ch) = pc then b.recordFailure now else b
  | _ => b

section
variable {p : Params} {s s' s'' : System} {l : Act} {pc : Nat × Channel} {w w' : World}

theorem exec_breakers (p : Params) (w : World) (q : Remote) : (exec p w q).2.breakers = w.breakers := by
  have hstore : ∀ e : Except Err Tables, (w.store e).2.breakers = w.breakers := by
    intro e
    cases e <;> rfl
  cases q with
  | recordAttempt id a => exact hstore _
  | ingestTransactional d exp subject payload headers schedule => exact hstore _
  | enqueue id subject payload headers => exact hstore _
  | append id ev payload => exact hstore _
  | publish subject body headers =>
    simp only [exec, World.publish]
    split_ifs <;> rfl
  | _ => rfl

theorem setBreaker_breakers (w : World) (proc : Nat) (ch : Channel) (f : Breaker → Breaker) (pc : Nat × Channel) :
    (w.setBreaker proc ch (f (w.breakers (proc, ch)))).breakers pc =
      if (proc, ch) = pc then f (w.breakers pc) else w.breakers pc := by
  unfold World.setBreaker
  split
  · rename_i h
    subst h
    exact Function.update_self ..
  · rename_i h
    exact Function.update_of_ne (Ne.symm h) ..

theorem answered_breakers {op : Op} {c : Choice} {r : Ans op} (h : Answered p w op c r w') :
    w'.breakers pc = op.turnBreaker pc w.clock (w.breakers pc) := by
  cases h with
  | allow proc ch => exact setBreaker_breakers w proc ch (fun b => (b.allow w.clock).2) pc
  | recordSuccess proc ch => exact setBreaker_breakers w proc ch Breaker.recordSuccess pc
  | recordFailure proc ch => exact setBreaker_breakers w proc ch (·.recordFailure w.clock) pc
  | ran q => exact congrFun (exec_breakers p w q) pc
  | lost q msg => exact congrFun (exec_breakers p w q) pc
  | _ => rfl

theorem enter_breakers {k : Task} (h : w.enter p k = some w') : w'.breakers = w.breakers := by
  unfold World.enter at h
  split at h
  · split at h
    · cases h
      rfl
    · cases h
  · cases h
    rfl

theorem move_breakers {m : Move} (h : w.move m = some w') : w'.breakers = w.breakers := by
  cases m with
  | clock t =>
    cases h
    rfl
  | ackWait i c =>
    simp only [World.move] at h
    split at h
    · cases h
      rfl
    · cases h

theorem cooldown_step (hs : (machine p).Step s l s') : (s'.state.breakers pc).cooldown = (s.state.breakers pc).cooldown := by
  cases hs with
  | start free entered => rw [show _ = s.state.breakers from enter_breakers entered]
  | crash running => rfl
  | move moved => rw [show _ = s.state.breakers from move_breakers moved]
  | @call u c k φ op f r w running answered =>
    rw [answered_breakers (answer_cases answered)]
    cases op with
    | allow proc ch =>
      simp only [Op.turnBreaker]
      split
      · exact Breaker.allow_cooldown ..
      · rfl
    | recordFailure proc ch =>
      simp only [Op.turnBreaker]
      split
      · exact Breaker.recordFailure_cooldown ..
      · rfl
    | recordSuccess proc ch =>
      simp only [Op.turnBreaker]
      split <;> rfl
    | _ => rfl

variable (pc) in
/-- The breaker of `pc` is told of a success while it is cooling. -/
def LateSuccess (s : System) (l : Act) : Prop :=
  ∃ u c k φ f, l = .call u c ∧ s.threads u = some ⟨k, φ, .ask (.recordSuccess pc.1 pc.2) f⟩ ∧
    (s.state.breakers pc).Cooling s.state.clock

theorem openSince_step {t : Time} (hforward : ClockForward s l) (hlate : ¬ LateSuccess pc s l)
    (h : (s.state.breakers pc).OpenSince t s.state.clock) (hs : (machine p).Step s l s') :
    (s'.state.breakers pc).OpenSince t s'.state.clock := by
  apply Breaker.openSince_later _ (clock_step hforward hs)
  cases hs with
  | start free entered =>
    rw [show _ = s.state.breakers from enter_breakers entered]
    exact h
  | crash running => exact h
  | move moved =>
    rw [show _ = s.state.breakers from move_breakers moved]
    exact h
  | @call u c k φ op f r w running answered =>
    rw [answered_breakers (answer_cases answered)]
    cases op with
    | allow proc ch =>
      simp only [Op.turnBreaker]
      split
      · exact Breaker.openSince_allow h
      · exact h
    | recordFailure proc ch =>
      simp only [Op.turnBreaker]
      split
      · exact Breaker.openSince_recordFailure h
      · exact h
    | recordSuccess proc ch =>
      simp only [Op.turnBreaker]
      split
      · rename_i heq
        apply Breaker.openSince_recordSuccess h
        intro hcooling
        subst heq
        exact hlate ⟨u, c, k, φ, f, rfl, running, hcooling⟩
      · exact h
    | _ => exact h

variable (pc) in
/-- The step is a `RecordFailure` that leaves the breaker of `pc` open from now on. -/
def Opens (s : System) (l : Act) : Prop :=
  ∃ u c k φ f, l = .call u c ∧ s.threads u = some ⟨k, φ, .ask (.recordFailure pc.1 pc.2) f⟩ ∧
    ((s.state.breakers pc).recordFailure s.state.clock).state = .opened ∧
    ((s.state.breakers pc).recordFailure s.state.clock).openedAt = s.state.clock

theorem openSince_of_opens (h : Opens pc s l) (hs : (machine p).Step s l s') :
    (s'.state.breakers pc).OpenSince s.state.clock s'.state.clock := by
  obtain ⟨u, c, k, φ, f, rfl, hth, hst, hat⟩ := h
  obtain ⟨r, hans, -, -⟩ := hs.called hth
  have hanswered := answer_cases (p := p) hans
  rw [answered_breakers hanswered, answered_clock hanswered]
  simp only [Op.turnBreaker, if_true]
  exact ⟨le_refl _, .inr ⟨hst, le_of_eq hat.symm⟩⟩

/-- In every run in which no success is recorded while the breaker is cooling: once a failure has opened it,
    it rejects every `Allow` before its cooldown has passed. -/
theorem open_through_cooldown (p : Params) (pc : Nat × Channel) (s s' s'' : System) (l : Act) (hopen : Opens pc s l)
    (hs : (machine p).step s l = some s')
    (hr : (machine p).Reach (fun s l => ClockForward s l ∧ ¬ LateSuccess pc s l) s' s'')
    (hwithin : s''.state.clock < s.state.clock + (s.state.breakers pc).cooldown) :
    ∀ u c k φ f s₃, s''.threads u = some ⟨k, φ, .ask (.allow pc.1 pc.2) f⟩ → (machine p).step s'' (.call u c) = some s₃ →
      s₃.hist = ⟨u, k, .allow pc.1 pc.2, .error errCircuitOpen⟩ :: s''.hist := by
  have hstep := (machine p).step_iff.mp hs
  have hopened : (s''.state.breakers pc).OpenSince s.state.clock s''.state.clock ∧
      (s''.state.breakers pc).cooldown = (s.state.breakers pc).cooldown :=
    hr.invariant (I := fun s₁ => (s₁.state.breakers pc).OpenSince s.state.clock s₁.state.clock ∧
        (s₁.state.breakers pc).cooldown = (s.state.breakers pc).cooldown)
      ⟨openSince_of_opens hopen hstep, cooldown_step hstep⟩ fun _ _ _ h hok hs =>
        ⟨openSince_step hok.1 hok.2 h.1 hs, (cooldown_step hs).trans h.2⟩
  obtain ⟨hsince, hcooldown⟩ := hopened
  intro u c k φ f s₃ hth hs₃
  rw [← hcooldown] at hwithin
  have hrejects := Breaker.allow_cooling (Breaker.cooling_of_openSince hsince hwithin)
  obtain ⟨r, hans, -, hhist⟩ := ((machine p).step_iff.mp hs₃).called hth
  have hanswer : r = .error errCircuitOpen := by
    generalize s₃.state = w at hans
    cases answer_cases (p := p) hans with
    | allow proc ch => rw [hrejects]
  rw [hhist, hanswer]

end

/-- A breaker that opens at the first failure. -/
def touchy : Params := { cbThreshold := 1 }

/-- Three dispatches on one channel: two are admitted, the third is about to ask, and the first is refused. -/
def twoAdmitted : List Act :=
  ingestCalls 0 "d1" ++ ingestCalls 1 "d2" { sampleRequest with idempotencyKey := "k2" } ++
    ingestCalls 2 "d3" { sampleRequest with idempotencyKey := "k3" } ++
    .start 3 (.dispatch 0 "d1") :: runs 3 4 ++ .start 4 (.dispatch 0 "d2") :: runs 4 4 ++
    .start 5 (.dispatch 0 "d3") :: runs 5 3 ++
    [.call 4 (.uuid "a2"), .call 3 (.uuid "a1"), .call 3 (.verdict (.error errTransient))]

/-- The second ends with the provider's verdict `v`, and its outcome is recorded. -/
def lateOutcome (v : Except Err ProviderResult) : List Act := [.call 4 (.verdict v), .call 4 .run]

/-- The answer of the last call, if it was an `Allow`. -/
def lastAllow (s : System) : Option (Except Err Unit) :=
  match s.hist with
  | ⟨_, _, .allow _ _, r⟩ :: _ => some r
  | _ => none

/-- `LateSuccess` of a step, at fixed inputs. -/
def lateCheck (pc : Nat × Channel) (s : System) : Act → Bool
  | .call u _ => nextOp (s.threads u) = some (.recordSuccess pc.1 pc.2) ∧ (s.state.breakers pc).Cooling s.state.clock
  | _ => false

theorem not_late_of_check {pc : Nat × Channel} {s : System} {l : Act} (h : (forwardCheck s l && ! lateCheck pc s l) = true) :
    ClockForward s l ∧ ¬ LateSuccess pc s l := by
  rw [Bool.and_eq_true, Bool.not_eq_true'] at h
  refine ⟨clockForward_of_check h.1, fun hlate => ?_⟩
  obtain ⟨u, c, k, φ, f, rfl, hth, hcooling⟩ := hlate
  have hcheck : lateCheck pc s (.call u c) = true := by
    simp only [lateCheck, hth, nextOp, hcooling, and_self, decide_true]
  rw [hcheck] at h
  cases h.2

/-- `Opens` of thread 3's next step, at fixed inputs. -/
theorem opens_of_next {s : System} (h : nextOp (s.threads 3) = some (.recordFailure 0 .email) ∧
    ((s.state.breakers (0, .email)).recordFailure s.state.clock).state = .opened ∧
    ((s.state.breakers (0, .email)).recordFailure s.state.clock).openedAt = s.state.clock) :
    Opens (0, .email) s (.call 3 .run) := by
  obtain ⟨hnext, hst, hat⟩ := h
  obtain ⟨k, φ, f, hth⟩ := nextOp_some hnext
  exact ⟨3, .run, k, φ, f, rfl, hth, hst, hat⟩

/-- The second dispatch fails late, and the third is rejected. -/
theorem open_through_cooldown_sample :
    ∃ s s' s'' s₃ k, (machine touchy).run (System.init touchy) twoAdmitted = some s ∧
      (machine touchy).step s (.call 3 .run) = some s' ∧
      (machine touchy).run s' (lateOutcome (.error errTransient)) = some s'' ∧
      (machine touchy).step s'' (.call 5 .run) = some s₃ ∧
      s₃.hist = ⟨5, k, .allow 0 .email, .error errCircuitOpen⟩ :: s''.hist := by
  have hrun : ((machine touchy).run (System.init touchy) twoAdmitted).map (fun s =>
      (decide (nextOp (s.threads 3) = some (.recordFailure 0 .email) ∧
        ((s.state.breakers (0, .email)).recordFailure s.state.clock).state = .opened ∧
        ((s.state.breakers (0, .email)).recordFailure s.state.clock).openedAt = s.state.clock),
      ((machine touchy).step s (.call 3 .run)).map fun s' =>
        ((machine touchy).check (fun s l => forwardCheck s l && ! lateCheck (0, .email) s l) s'
            (lateOutcome (.error errTransient)),
          ((machine touchy).run s' (lateOutcome (.error errTransient))).map fun s'' =>
            decide (s''.state.clock < s.state.clock + (s.state.breakers (0, .email)).cooldown ∧
              nextOp (s''.threads 5) = some (.allow 0 .email) ∧
              ((machine touchy).step s'' (.call 5 .run)).isSome = true)))) =
      some (true, some (true, some true)) := by
    decide +kernel
  obtain ⟨s, hs, hparts⟩ := Option.map_eq_some_iff.mp hrun
  obtain ⟨hopens, hrest⟩ := Prod.mk.inj hparts
  obtain ⟨s', hs', hrest⟩ := Option.map_eq_some_iff.mp hrest
  obtain ⟨hcheck, hrest⟩ := Prod.mk.inj hrest
  obtain ⟨s'', hs'', hlast⟩ := Option.map_eq_some_iff.mp hrest
  obtain ⟨hwithin, hasks, hanswered⟩ := of_decide_eq_true hlast
  obtain ⟨s₃, hs₃⟩ := Option.isSome_iff_exists.mp hanswered
  obtain ⟨k, φ, f, hth⟩ := nextOp_some hasks
  have hr : (machine touchy).Reach (fun s l => ClockForward s l ∧ ¬ LateSuccess (0, .email) s l) s' s'' :=
    Machine.reach_of_run _ .refl
      (Machine.Along.mono (fun _ _ _ => not_late_of_check) _ (Machine.along_of_check _ hcheck)) hs''
  exact ⟨s, s', s'', s₃, k, hs, hs', hs'', hs₃, open_through_cooldown touchy (0, .email) s s' s'' _
    (opens_of_next (of_decide_eq_true hopens)) hs' hr hwithin 5 .run k φ f s₃ hth hs₃⟩

/-- The second dispatch succeeds late, and the third is admitted at the time of the opening. -/
theorem late_success_closes :
    ∃ s s' s'' s₃, (machine touchy).run (System.init touchy) twoAdmitted = some s ∧ Opens (0, .email) s (.call 3 .run) ∧
      (machine touchy).step s (.call 3 .run) = some s' ∧ (machine touchy).run s' (lateOutcome (.ok {})) = some s'' ∧
      s''.state.clock = s.state.clock ∧ 0 < (s.state.breakers (0, .email)).cooldown ∧
      (machine touchy).step s'' (.call 5 .run) = some s₃ ∧ lastAllow s₃ = some (.ok ()) := by
  have hrun : ((machine touchy).run (System.init touchy) twoAdmitted).map (fun s =>
      (decide (nextOp (s.threads 3) = some (.recordFailure 0 .email) ∧
        ((s.state.breakers (0, .email)).recordFailure s.state.clock).state = .opened ∧
        ((s.state.breakers (0, .email)).recordFailure s.state.clock).openedAt = s.state.clock),
      ((machine touchy).step s (.call 3 .run)).map fun s' =>
        ((machine touchy).run s' (lateOutcome (.ok {}))).map fun s'' =>
          (decide (s''.state.clock = s.state.clock ∧ 0 < (s.state.breakers (0, .email)).cooldown),
            ((machine touchy).step s'' (.call 5 .run)).map fun s₃ => decide (lastAllow s₃ = some (.ok ()))))) =
      some (true, some (some (true, some true))) := by
    decide +kernel
  obtain ⟨s, hs, hparts⟩ := Option.map_eq_some_iff.mp hrun
  obtain ⟨hopens, hrest⟩ := Prod.mk.inj hparts
  obtain ⟨s', hs', hrest⟩ := Option.map_eq_some_iff.mp hrest
  obtain ⟨s'', hs'', hlast⟩ := Option.map_eq_some_iff.mp hrest
  obtain ⟨htimes, hlast⟩ := Prod.mk.inj hlast
  obtain ⟨s₃, hs₃, hadmitted⟩ := Option.map_eq_some_iff.mp hlast
  obtain ⟨hclock, hpos⟩ := of_decide_eq_true htimes
  have hallowed : lastAllow s₃ = some (.ok ()) := of_decide_eq_true hadmitted
  exact ⟨s, s', s'', s₃, hs, opens_of_next (of_decide_eq_true hopens), hs', hs'', hclock, hpos, hs₃, hallowed⟩

end GoCourier
