import Mathlib.Algebra.Order.Ring.Int
import GoCourier.Services.Dispatch
import GoCourier.System.Served

/- The retry delay (`pkg/retry`): the base doubled for each earlier attempt up to a cap,
   and a random half of it more. The cap is looked at after a product in 64 bits, and the
   jitter is added after the cap. -/
namespace GoCourier

open Interleave

/-! 64-bit values. -/

theorem wrap64_self {n : Int} (low : -(2 ^ 63) ≤ n) (high : n < 2 ^ 63) : wrap64 n = n := by
  unfold wrap64
  apply Int.bmod_eq_of_le
  · exact low
  · exact high

/-- A sum of two values that is past the range turns negative. -/
theorem wrap64_past {n : Int} (low : 2 ^ 63 ≤ n) (high : n < 2 ^ 64) : wrap64 n < 0 := by
  have hshift : wrap64 n = wrap64 (n - 2 ^ 64) := (Int.sub_bmod_right n (2 ^ 64)).symm
  have hself : wrap64 (n - 2 ^ 64) = n - 2 ^ 64 := by
    apply wrap64_self
    · omega
    · omega
  omega

theorem half_pos (n : Int) : 0 < n.tdiv 2 ↔ 2 ≤ n := by
  rcases Int.le_total 0 n with h | h
  · rw [Int.tdiv_eq_ediv_of_nonneg h]
    omega
  · have hneg : n.tdiv 2 ≤ 0 := by
      rw [← neg_neg n, Int.neg_tdiv, Int.tdiv_eq_ediv_of_nonneg (by omega)]
      omega
    omega

theorem wrap64_mul (a b : Int) : wrap64 (a * wrap64 b) = wrap64 (a * b) := Int.mul_bmod_bmod ..

/-! The delay before its jitter. -/

/-- How often the base is doubled. -/
def doublings (attempt : Int) : Nat := (max attempt 1 - 1).toNat

def baseDelay (attempt base cap : Int) : Int := min (base * 2 ^ doublings attempt) cap

/-- The same in 64 bits, as `Delay` computes it. -/
def wrapped (attempt base cap : Int) : Int := min (wrap64 (base * 2 ^ doublings attempt)) cap

variable {attempt base cap : Int}

theorem doublings_mono {attempt' : Int} (h : attempt ≤ attempt') : doublings attempt ≤ doublings attempt' := by
  unfold doublings
  omega

theorem baseDelay_ge (hbase : 0 ≤ base) (hcap : base ≤ cap) : base ≤ baseDelay attempt base cap := by
  apply le_min _ hcap
  have hpow : (1 : Int) ≤ 2 ^ doublings attempt := one_le_pow₀ (by decide)
  calc base = base * 1 := (mul_one base).symm
    _ ≤ base * 2 ^ doublings attempt := mul_le_mul_of_nonneg_left hpow hbase

/-- The delay before its jitter never gets shorter. -/
theorem baseDelay_mono {attempt' : Int} (hbase : 0 ≤ base) (h : attempt ≤ attempt') :
    baseDelay attempt base cap ≤ baseDelay attempt' base cap := by
  apply min_le_min_right
  apply mul_le_mul_of_nonneg_left _ hbase
  exact pow_le_pow_right₀ (by decide) (doublings_mono h)

theorem delay_eq (attempt base cap : Int) : delay attempt base cap = (do
    let jitter ← ask (.int63n ((wrapped attempt base cap).tdiv 2))
    pure (wrap64 (wrapped attempt base cap + jitter)) : Go Duration) := by
  have hfirst : ((if attempt < 1 then 1 else attempt) - 1).toNat = doublings attempt := by
    unfold doublings
    split <;> omega
  have hcap : ∀ d : Int, (if d > cap then cap else d) = min d cap := by
    intro d
    by_cases h : d > cap
    · rw [if_pos h, min_eq_right (le_of_lt h)]
    · rw [if_neg h, min_eq_left (not_lt.mp h)]
  have hwrapped : (let d := wrap64 (base * wrap64 (2 ^ ((if attempt < 1 then 1 else attempt) - 1).toNat))
      if d > cap then cap else d) = wrapped attempt base cap := by
    simp only [hcap]
    rw [hfirst, wrap64_mul, wrapped]
  exact congrArg (fun d => (do
    let jitter ← ask (.int63n (d.tdiv 2))
    pure (wrap64 (d + jitter)) : Go Duration)) hwrapped

section
variable {p : Params} {env : Env Op Ans World} {w : World}

/-- `Delay` panics where half of the capped product is not positive; otherwise it may add any jitter below that. -/
theorem ensures_delay [∀ n, Serves p env (Op.int63n n)] {Q : Except Err Duration → World → Prop} :
    Ensures env (delay attempt base cap).run w Q ↔ 2 ≤ wrapped attempt base cap ∧
      ∀ jitter w', 0 ≤ jitter → jitter < (wrapped attempt base cap).tdiv 2 → w.Passes w' →
        Q (.ok (wrap64 (wrapped attempt base cap + jitter))) w' := by
  rw [delay_eq, ensures_bindE, ensures_int63n, half_pos]
  exact Iff.rfl

end

/-- `Delay` does not panic, and its value lies between the base delay and half of it more. -/
def DelayBounded (attempt base cap : Int) : Prop :=
  ∀ p w, Ensures (served p) (delay attempt base cap).run w fun r _ => ∃ d : Int, r = .ok d ∧
    baseDelay attempt base cap ≤ d ∧ d ≤ baseDelay attempt base cap + (baseDelay attempt base cap).tdiv 2

/-- The product does not wrap, or wraps to no less than the cap, and the jitter has room above the base delay. -/
def DelayFits (attempt base cap : Int) : Prop :=
  (base * 2 ^ doublings attempt < 2 ^ 63 ∨ cap ≤ wrap64 (base * 2 ^ doublings attempt)) ∧
    baseDelay attempt base cap + (baseDelay attempt base cap).tdiv 2 ≤ 2 ^ 63

theorem wrapped_le (hbase : 0 ≤ base) (hmax : cap < 2 ^ 63) : wrapped attempt base cap ≤ baseDelay attempt base cap := by
  apply le_min _ (min_le_right _ _)
  by_cases h : base * 2 ^ doublings attempt < 2 ^ 63
  · have hpos : 0 ≤ base * 2 ^ doublings attempt := mul_nonneg hbase (pow_nonneg (by decide) _)
    have hself := wrap64_self (le_trans (by decide) hpos) h
    calc wrapped attempt base cap ≤ wrap64 (base * 2 ^ doublings attempt) := min_le_left _ _
      _ = base * 2 ^ doublings attempt := hself
  · calc wrapped attempt base cap ≤ cap := min_le_right _ _
      _ ≤ base * 2 ^ doublings attempt := le_trans (le_of_lt hmax) (not_lt.mp h)

theorem baseDelay_le_wrapped_iff (hbase : 0 ≤ base) (hmax : cap < 2 ^ 63) :
    baseDelay attempt base cap ≤ wrapped attempt base cap ↔
      base * 2 ^ doublings attempt < 2 ^ 63 ∨ cap ≤ wrap64 (base * 2 ^ doublings attempt) := by
  by_cases h : base * 2 ^ doublings attempt < 2 ^ 63
  · have hpos : 0 ≤ base * 2 ^ doublings attempt := mul_nonneg hbase (pow_nonneg (by decide) _)
    unfold baseDelay wrapped
    rw [wrap64_self (le_trans (by decide) hpos) h]
    exact iff_of_true (le_refl _) (.inl h)
  · have hcap : baseDelay attempt base cap = cap := min_eq_right (le_trans (le_of_lt hmax) (not_lt.mp h))
    rw [hcap]
    constructor
    · intro hle
      exact .inr (le_trans hle (min_le_left _ _))
    · intro hle
      exact le_min (hle.resolve_left h) (le_refl _)

theorem delayBounded_iff (hbase : 2 ≤ base) (hcap : base ≤ cap) (hmax : cap < 2 ^ 63) :
    DelayBounded attempt base cap ↔ DelayFits attempt base cap := by
  have hnonneg : 0 ≤ base := le_trans (by decide) hbase
  have hle : wrapped attempt base cap ≤ baseDelay attempt base cap := wrapped_le hnonneg hmax
  have hge : baseDelay attempt base cap ≤ wrapped attempt base cap ↔ _ := baseDelay_le_wrapped_iff hnonneg hmax
  have htwo : 2 ≤ baseDelay attempt base cap := le_trans hbase (baseDelay_ge hnonneg hcap)
  have htop : baseDelay attempt base cap < 2 ^ 63 := lt_of_le_of_lt (min_le_right _ _) hmax
  have hhalf : (baseDelay attempt base cap).tdiv 2 = baseDelay attempt base cap / 2 :=
    Int.tdiv_eq_ediv_of_nonneg (le_trans (by decide) htwo)
  constructor
  · intro h
    obtain ⟨hpos, hvalue⟩ := ensures_delay.mp (h {} (World.empty {}))
    -- with no jitter the value is the capped product itself, which is then no less than the base delay
    have hself := wrap64_self (le_trans (by decide) hpos) (lt_of_le_of_lt hle htop)
    obtain ⟨d, hd, hlow, -⟩ := hvalue 0 _ (le_refl 0) ((half_pos _).mpr hpos) (World.passes_refl _)
    cases hd
    rw [add_zero, hself] at hlow
    refine ⟨hge.mp hlow, ?_⟩
    -- with the most jitter it would wrap below it
    by_contra hroom
    have heq : wrapped attempt base cap = baseDelay attempt base cap := le_antisymm hle hlow
    rw [heq, hhalf] at hvalue
    obtain ⟨d, hd, hback, -⟩ := hvalue (baseDelay attempt base cap / 2 - 1) _ (by omega) (by omega) (World.passes_refl _)
    cases hd
    have hneg := wrap64_past (n := baseDelay attempt base cap + (baseDelay attempt base cap / 2 - 1)) (by omega) (by omega)
    omega
  · intro h p w
    obtain ⟨hwraps, hroom⟩ := h
    have heq : wrapped attempt base cap = baseDelay attempt base cap := le_antisymm hle (hge.mpr hwraps)
    rw [ensures_delay, heq]
    refine ⟨htwo, fun jitter w' hlow hhigh _ => ⟨_, rfl, ?_⟩⟩
    rw [wrap64_self (by omega) (by omega)]
    omega

/-- Within its arithmetic the delay is bounded as meant, and the base delay it starts from grows from the base. -/
theorem delay_bounded_iff (attempt base cap : Int) (hbase : 2 ≤ base) (hcap : base ≤ cap)
    (hmax : cap < 2 ^ 63) :
    (DelayBounded attempt base cap ↔ DelayFits attempt base cap) ∧ base ≤ baseDelay attempt base cap ∧
      ∀ attempt', attempt ≤ attempt' → baseDelay attempt base cap ≤ baseDelay attempt' base cap :=
  ⟨delayBounded_iff hbase hcap hmax, baseDelay_ge (le_trans (by decide) hbase) hcap, fun _ h =>
    baseDelay_mono (le_trans (by decide) hbase) h⟩

/-- The fourth retry with the default settings. -/
theorem delay_bounded_iff_sample : DelayBounded 4 1000000000 1800000000000 ∧ baseDelay 4 1000000000 1800000000000 = 8000000000 :=
  ⟨(delay_bounded_iff 4 1000000000 1800000000000 (by decide) (by decide) (by decide)).1.mpr
    ⟨.inl (by decide), by decide⟩, by decide⟩

/-- With the default settings the thirty-fifth retry panics: the product is negative. -/
theorem delay_panics : ¬ DelayBounded 35 1000000000 1800000000000 := by
  intro h
  have hpos := (ensures_delay.mp (h {} (World.empty {}))).1
  revert hpos
  decide

end GoCourier
