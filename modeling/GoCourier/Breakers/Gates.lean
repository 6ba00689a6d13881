import GoCourier.Breakers.Cooldown
import GoCourier.Pkg.SlidingWindow

/- The breakers of a run. Any number of dispatches call the breakers of all processes and
   channels, in any order. Each breaker is what its own calls have made of it, one after
   the other, so as long as the clock is not set back every `Allow` is answered as the gate
   answers it that has counted every failure of that process and channel. -/
namespace GoCourier

open Interleave

/-- The call on the breaker of `pc`, at time `now`. -/
def Op.onBreaker (pc : Nat × Channel) (now : Time) : Op → Option BreakerCall
  | .allow proc ch => if (proc, ch) = pc then some (.allow now) else none
  | .recordSuccess proc ch => if (proc, ch) = pc then some .success else none
  | .recordFailure proc ch => if (proc, ch) = pc then some (.failure now) else none
  | _ => none

/-- The calls of a step on the breaker of `pc`, one at most. -/
def breakerCalls (pc : Nat × Channel) (s : System) : Act → List BreakerCall
  | .call t _ => ((nextOp (s.threads t)).bind (Op.onBreaker pc s.state.clock)).toList
  | _ => []

/-- The gate after a run's calls on the breaker of `pc`. -/
def gateAfter (p : Params) (pc : Nat × Channel) (ls : List Act) : Gate :=
  afterCalls Gate.call ⟨p.cbThreshold, p.cbWindow, p.cbCooldown, [], .closed, 0⟩
    ((machine p).collect (breakerCalls pc) (System.init p) ls)

/-- The breaker of `pc` and the gate after the calls `cs`, whose readings the clock has come to. -/
structure Gated (p : Params) (pc : Nat × Channel) (s : System) (cs : List BreakerCall) : Prop where
  past : ∀ u ∈ (cs.filterMap BreakerCall.reading).reverse, u ≤ s.state.clock
  follows : Follows p.cbWindow (cs.filterMap BreakerCall.reading).reverse (s.state.breakers pc)
    (afterCalls Gate.call ⟨p.cbThreshold, p.cbWindow, p.cbCooldown, [], .closed, 0⟩ cs)

section
variable {p : Params} {pc : Nat × Channel} {s s' : System} {l : Act} {cs : List BreakerCall}

theorem afterCalls_append {σ α : Type} (call : σ → BreakerCall → α × σ) : ∀ (cs cs' : List BreakerCall) (a : σ),
    afterCalls call a (cs ++ cs') = afterCalls call (afterCalls call a cs) cs'
  | [], _, _ => rfl
  | c :: cs, cs', a => afterCalls_append call cs cs' (call a c).2

theorem turnBreaker_call (op : Op) (now : Time) (b : Breaker) :
    op.turnBreaker pc now b = afterCalls Breaker.call b (op.onBreaker pc now).toList := by
  cases op with
  | allow proc ch =>
    simp only [Op.turnBreaker, Op.onBreaker]
    split <;> rfl
  | recordSuccess proc ch =>
    simp only [Op.turnBreaker, Op.onBreaker]
    split <;> rfl
  | recordFailure proc ch =>
    simp only [Op.turnBreaker, Op.onBreaker]
    split <;> rfl
  | _ => rfl

/-- A step makes of a breaker what its calls on it make. -/
theorem breaker_step (pc : Nat × Channel) (hs : (machine p).Step s l s') :
    s'.state.breakers pc = afterCalls Breaker.call (s.state.breakers pc) (breakerCalls pc s l) := by
  cases hs with
  | start free entered => exact congrFun (enter_breakers entered) pc
  | crash running => rfl
  | move moved => exact congrFun (move_breakers moved) pc
  | @call t c k φ op f r w running answered =>
    rw [answered_breakers (answer_cases answered), turnBreaker_call, breakerCalls, running]
    rfl

/-- A step makes at most one call on a breaker, at the time it is. -/
theorem breakerCalls_cases (pc : Nat × Channel) (s : System) (l : Act) :
    breakerCalls pc s l = [] ∨ ∃ c, breakerCalls pc s l = [c] ∧ ∀ t ∈ c.reading, t = s.state.clock := by
  cases l with
  | call t choice =>
    simp only [breakerCalls]
    cases hc : (nextOp (s.threads t)).bind (Op.onBreaker pc s.state.clock) with
    | none => exact .inl rfl
    | some c =>
      refine .inr ⟨c, rfl, fun u hu => ?_⟩
      obtain ⟨op, -, hop⟩ := Option.bind_eq_some_iff.mp hc
      cases op with
      | allow proc ch =>
        simp only [Op.onBreaker] at hop
        split at hop <;> cases hop
        exact (Option.some.inj hu).symm
      | recordSuccess proc ch =>
        simp only [Op.onBreaker] at hop
        split at hop <;> cases hop
        cases hu
      | recordFailure proc ch =>
        simp only [Op.onBreaker] at hop
        split at hop <;> cases hop
        exact (Option.some.inj hu).symm
      | _ => cases hop
  | _ => exact .inl rfl

theorem gated_step (h : Gated p pc s cs) (hs : (machine p).Step s l s') (hforward : ClockForward s l) :
    Gated p pc s' (cs ++ breakerCalls pc s l) := by
  have hclock := clock_step hforward hs
  have hbreaker := breaker_step pc hs
  rcases breakerCalls_cases pc s l with hnone | ⟨c, hc, hnow⟩
  · rw [hnone] at hbreaker ⊢
    rw [List.append_nil]
    refine ⟨fun u hu => le_trans (h.past u hu) hclock, ?_⟩
    rw [hbreaker]
    exact h.follows
  · have hreadings : ((cs ++ [c]).filterMap BreakerCall.reading).reverse =
        c.reading.toList ++ (cs.filterMap BreakerCall.reading).reverse := by
      rw [List.filterMap_append, List.reverse_append]
      cases hr : c.reading with
      | none => rw [List.filterMap_cons_none hr]; rfl
      | some t => rw [List.filterMap_cons_some hr]; rfl
    have hnext : ∀ t ∈ c.reading, ∀ u ∈ (cs.filterMap BreakerCall.reading).reverse, u ≤ t := by
      intro t ht u hu
      rw [hnow t ht]
      exact h.past u hu
    obtain ⟨-, hfollows⟩ := follows_call h.follows hnext
    rw [hc] at hbreaker ⊢
    constructor
    · intro u hu
      rw [hreadings] at hu
      rcases List.mem_append.mp hu with hnew | hold
      · rw [hnow u (Option.mem_toList.mp hnew)]
        exact hclock
      · exact le_trans (h.past u hold) hclock
    · rw [hreadings, hbreaker, afterCalls_append]
      exact hfollows

theorem init_gated (p : Params) (pc : Nat × Channel) : Gated p pc (System.init p) [] where
  past := by
    intro u hu
    cases hu
  follows := ⟨rfl, ⟨rfl, rfl⟩, rfl, rfl, rfl, fun _ _ => rfl⟩

theorem run_gated (pc : Nat × Channel) {ls : List Act} (hrun : (machine p).run (System.init p) ls = some s)
    (hforward : (machine p).Along (fun s l _ => ClockForward s l) (System.init p) ls) :
    Gated p pc s ((machine p).collect (breakerCalls pc) (System.init p) ls) := by
  have h := Machine.collect_invariant (I := Gated p pc) (fun _ _ _ _ h hs hok => gated_step h hs hok) ls
    (init_gated p pc) hforward hrun
  exact h

end

/-- In every run in which the clock is not set back, whatever runs, crashes and fails, the next `Allow` on any breaker. -/
theorem allow_as_gated {p : Params} (pc : Nat × Channel) {ls : List Act} {s s' : System} {t : Nat} {c : Choice}
    {k : Task} {φ : Phase} {f : Except Err Unit → CallTree Op Ans Result}
    (hrun : (machine p).run (System.init p) ls = some s)
    (hforward : (machine p).Along (fun s l _ => ClockForward s l) (System.init p) ls)
    (hth : s.threads t = some ⟨k, φ, .ask (.allow pc.1 pc.2) f⟩) (hs : (machine p).step s (.call t c) = some s') :
    s'.hist = ⟨t, k, .allow pc.1 pc.2, ((gateAfter p pc ls).allow s.state.clock).1⟩ :: s.hist := by
  have hgated := run_gated pc hrun hforward
  obtain ⟨r, hans, -, hhist⟩ := ((machine p).step_iff.mp hs).called hth
  obtain ⟨hanswer, -⟩ := follows_allow hgated.follows s.state.clock
  have hr : r = ((s.state.breakers pc).allow s.state.clock).1 := by
    generalize s'.state = w at hans
    cases answer_cases (p := p) hans with
    | allow proc ch => rfl
  rw [hhist, hr, hanswer]
  rfl

/-- A dispatch about to ask the breaker that its delivery's first dispatch has opened. -/
def dispatchedAgain : List Act :=
  ingestCalls 0 "d1" ++ retryCalls 1 "d1" "a1" ++ .start 2 (.dispatch 0 "d1") :: runs 2 3

/-- One failure opens a breaker of threshold 1. -/
theorem allow_as_gated_sample : ∃ s s' k,
    (machine { cbThreshold := 1 }).run (System.init { cbThreshold := 1 }) dispatchedAgain = some s ∧
      (machine { cbThreshold := 1 }).step s (.call 2 .run) = some s' ∧
      s'.hist = ⟨2, k, .allow 0 .email, .error errCircuitOpen⟩ :: s.hist := by
  have hrun : ((machine { cbThreshold := 1 }).run (System.init { cbThreshold := 1 }) dispatchedAgain).map (fun s =>
      (nextOp (s.threads 2), ((machine { cbThreshold := 1 }).step s (.call 2 .run)).isSome, s.state.clock)) =
        some (some (.allow 0 .email), true, 0) := by
    decide +kernel
  have hforward : (machine { cbThreshold := 1 }).check forwardCheck (System.init { cbThreshold := 1 }) dispatchedAgain =
      true := by
    decide +kernel
  have hgate : ((gateAfter { cbThreshold := 1 } (0, .email) dispatchedAgain).allow 0).1 = .error errCircuitOpen := by
    decide +kernel
  obtain ⟨s, hs, hparts⟩ := Option.map_eq_some_iff.mp hrun
  simp only [Prod.mk.injEq] at hparts
  obtain ⟨hnext, hstep, hclock⟩ := hparts
  obtain ⟨s', hs'⟩ := Option.isSome_iff_exists.mp hstep
  obtain ⟨k, φ, f, hth⟩ := nextOp_some hnext
  have hanswer := allow_as_gated (0, .email) hs
    (Machine.Along.mono (fun _ _ _ => clockForward_of_check) dispatchedAgain
      (Machine.along_of_check dispatchedAgain hforward)) hth hs'
  rw [hclock, hgate] at hanswer
  exact ⟨s, s', k, hs, hs', hanswer⟩

end GoCourier
