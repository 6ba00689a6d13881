import Mathlib.Data.Finsupp.Basic
import Mathlib.Algebra.Order.Group.Multiset
import Mathlib.Algebra.BigOperators.Finsupp.Basic

/- What any number of parties owe together. Each party owes a bag of things, all but
   finitely many of them nothing; when one party's debt changes the total changes by as
   much. Invariants that balance a store against the parties' debts use `total_update`
   and never the sum itself. -/
namespace Interleave

variable {α : Type} {f g : Nat → Multiset α} {m : Multiset α}

/-- The parties owe `f`, and `m` together. -/
def Total (f : Nat → Multiset α) (m : Multiset α) : Prop :=
  ∃ D : Nat →₀ Multiset α, (∀ t, D t = f t) ∧ (D.sum fun _ a => a) = m

theorem total_zero : Total (fun _ => (0 : Multiset α)) 0 := ⟨0, fun _ => rfl, Finsupp.sum_zero_index⟩

/-- One party's debt changes. -/
theorem total_update (h : Total f m) (t : Nat) (hother : ∀ u, u ≠ t → g u = f u) :
    ∃ m', Total g m' ∧ m' + f t = m + g t := by
  classical
  obtain ⟨D, hD, rfl⟩ := h
  refine ⟨(D.update t (g t)).sum fun _ a => a, ⟨D.update t (g t), fun u => ?_, rfl⟩, ?_⟩
  · rw [Finsupp.coe_update]
    by_cases hu : u = t
    · rw [hu, Function.update_self]
    · rw [Function.update_of_ne hu, hD, hother u hu]
  · rw [← hD t]
    exact Finsupp.sum_update_add D t (g t) (fun _ a => a) (fun _ => rfl) fun _ _ _ => rfl

/-- Nobody owes anything. -/
theorem Total.eq_zero (h : Total f m) (hf : ∀ t, f t = 0) : m = 0 := by
  obtain ⟨D, hD, rfl⟩ := h
  have hzero : D = 0 := Finsupp.ext fun t => (hD t).trans (hf t)
  rw [hzero]
  exact Finsupp.sum_zero_index

end Interleave
