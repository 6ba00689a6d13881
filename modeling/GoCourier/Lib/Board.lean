import Mathlib.Logic.Function.Basic

/- Parties around one shared value. Each party has a place of its own; a turn changes
   the shared value and the place of the party that takes it, and nobody else's. The
   invariants proved over such a board have three parts: one about the shared value,
   one about it and each place, one about each two places. A turn keeps them when it
   keeps its own part and disturbs nobody else's (`Holds.turn`). -/
namespace Interleave

structure Board (A L : Type) where
  shared : A
  places : Nat → L

namespace Board
variable {A L : Type}

def turn (b : Board A L) (t : Nat) (a : A) (l : L) : Board A L :=
  ⟨a, Function.update b.places t l⟩

structure Holds (I : A → Prop) (J : A → L → Prop) (K : L → L → Prop) (b : Board A L) : Prop where
  shared : I b.shared
  each : ∀ t, J b.shared (b.places t)
  pair : ∀ t u, t ≠ u → K (b.places t) (b.places u)

@[simp] theorem turn_shared (b : Board A L) (t : Nat) (a : A) (l : L) : (b.turn t a l).shared = a := rfl

@[simp] theorem turn_self (b : Board A L) (t : Nat) (a : A) (l : L) : (b.turn t a l).places t = l :=
  Function.update_self ..

theorem turn_other (b : Board A L) {t u : Nat} (a : A) (l : L) (h : u ≠ t) :
    (b.turn t a l).places u = b.places u :=
  Function.update_of_ne h ..

/-- A turn in which nothing changes. -/
theorem turn_same (b : Board A L) (t : Nat) : b.turn t b.shared (b.places t) = b := by
  unfold turn
  rw [Function.update_eq_self]

variable {I : A → Prop} {J : A → L → Prop} {K : L → L → Prop} {b : Board A L}

theorem Holds.turn {t : Nat} {a : A} {l : L} (h : b.Holds I J K) (own : I a ∧ J a l)
    (others : ∀ u, u ≠ t → J b.shared (b.places u) → K (b.places t) (b.places u) →
      K (b.places u) (b.places t) → J a (b.places u) ∧ K l (b.places u) ∧ K (b.places u) l) :
    (b.turn t a l).Holds I J K := by
  have hother := fun u (hu : u ≠ t) =>
    others u hu (h.each u) (h.pair t u hu.symm) (h.pair u t hu)
  refine ⟨own.1, fun u => ?_, fun u v huv => ?_⟩
  · by_cases hu : u = t
    · subst hu
      rw [turn_self]
      exact own.2
    · rw [turn_other _ _ _ hu]
      exact (hother u hu).1
  · by_cases hu : u = t
    · subst hu
      rw [turn_self, turn_other _ _ _ huv.symm]
      exact (hother v huv.symm).2.1
    · rw [turn_other _ _ _ hu]
      by_cases hv : v = t
      · subst hv
        rw [turn_self]
        exact (hother u hu).2.2
      · rw [turn_other _ _ _ hv]
        exact h.pair u v huv

end Board

end Interleave
