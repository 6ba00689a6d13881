import Mathlib.Algebra.Order.Ring.Int

/- Natural numbers to a fixed number of binary digits, rounded to the nearest and from
   the middle to the even one. Up to `2 ^ p` every number has a place of its own; the
   next one has none and falls back, so that counting in steps of one ends there
   (`next_two_pow`). -/
namespace Rounding

/-- The last of the `p` digits of `n` counts this much. -/
def unit (p n : Nat) : Nat := 2 ^ (n.log2 + 1 - p)

def round (p n : Nat) : Nat :=
  let u := unit p n
  if 2 * (n % u) < u ∨ 2 * (n % u) = u ∧ n / u % 2 = 0 then n / u * u else (n / u + 1) * u

/-- The number after `n`. -/
def next (p n : Nat) : Nat := round p (n + 1)

section
variable {p n : Nat}

theorem unit_of_log2 (h : n.log2 < p) : unit p n = 1 := by
  rw [unit, Nat.sub_eq_zero_of_le h, Nat.pow_zero]

theorem unit_two_digits (h : n.log2 = p) : unit p n = 2 := by
  rw [unit, h, Nat.add_sub_cancel_left, Nat.pow_one]

theorem round_of_lt (hp : 0 < p) (h : n < 2 ^ p) : round p n = n := by
  have hlog : n.log2 < p := by
    by_cases hn : n = 0
    · subst hn
      exact hp
    · exact (Nat.log2_lt hn).mpr h
  simp [round, unit_of_log2 hlog, Nat.mod_one]

theorem round_two_pow (hp : 0 < p) : round p (2 ^ p) = 2 ^ p := by
  have heven : 2 ^ p % 2 = 0 := Nat.two_pow_mod_two_eq_zero.mpr hp
  simp only [round, unit_two_digits Nat.log2_two_pow, heven]
  rw [if_pos (by omega)]
  omega

/-- The first number without a place of its own. -/
theorem round_succ_two_pow (hp : 2 ≤ p) : round p (2 ^ p + 1) = 2 ^ p := by
  obtain ⟨k, rfl⟩ : ∃ k, p = k + 2 := ⟨p - 2, by omega⟩
  have hpow : 2 ^ (k + 2) = 4 * 2 ^ k := by rw [Nat.pow_add, Nat.mul_comm]
  have hpos : 0 < 2 ^ k := Nat.two_pow_pos k
  have hlog : (2 ^ (k + 2) + 1).log2 = k + 2 := by
    rw [Nat.log2_eq_iff (by omega), Nat.pow_succ 2 (k + 2)]
    omega
  -- half of `2 ^ p` is even, and the tie goes there
  simp only [round, unit_two_digits hlog]
  rw [if_pos (by omega)]
  omega

/-! Counting. -/

theorem next_of_lt (hp : 0 < p) (h : n < 2 ^ p) : next p n = n + 1 := by
  rcases Nat.lt_or_eq_of_le (Nat.succ_le_of_lt h) with hlt | heq
  · exact round_of_lt hp hlt
  · unfold next
    rw [show n + 1 = 2 ^ p from heq]
    exact round_two_pow hp

theorem next_two_pow (hp : 2 ≤ p) : next p (2 ^ p) = 2 ^ p := round_succ_two_pow hp

/-- Counting neither goes back nor leaves the numbers up to `2 ^ p`. -/
theorem le_next (hp : 2 ≤ p) (h : n ≤ 2 ^ p) : n ≤ next p n ∧ next p n ≤ 2 ^ p := by
  rcases Nat.lt_or_eq_of_le h with hlt | rfl
  · rw [next_of_lt (by omega) hlt]
    omega
  · rw [next_two_pow hp]
    omega

end

end Rounding
