import Mathlib.Logic.Function.Basic
import GoCourier.Lib.Machine

/- Stores that forget nothing. A table keeps its keys and a log its places, what they
   hold changing only along a relation. Where the relation is a preorder so is keeping,
   and what every step keeps is kept over any run (`Machine.Reach.relates`). -/
namespace Interleave

section
variable {κ α : Type} {R : α → α → Prop}

/-- What `f` holds under a key, `f'` holds there as well, changed along `R`. -/
def Keeps (R : α → α → Prop) (f f' : κ → Option α) : Prop :=
  ∀ k a, f k = some a → ∃ a', f' k = some a' ∧ R a a'

theorem keeps_refl (hR : ∀ a, R a a) (f : κ → Option α) : Keeps R f f :=
  fun _ a ha => ⟨a, ha, hR a⟩

theorem keeps_trans (hR : ∀ a b c, R a b → R b c → R a c) {f f' f'' : κ → Option α} (h : Keeps R f f')
    (h' : Keeps R f' f'') : Keeps R f f'' := by
  intro k a ha
  obtain ⟨b, hb, hab⟩ := h k a ha
  obtain ⟨c, hc, hbc⟩ := h' k b hb
  exact ⟨c, hc, hR a b c hab hbc⟩

/-- A new value for one key. -/
theorem keeps_update [DecidableEq κ] (hR : ∀ a, R a a) {f : κ → Option α} {k : κ} {b : α}
    (hb : ∀ a, f k = some a → R a b) : Keeps R f (Function.update f k (some b)) := by
  intro k' a ha
  by_cases hk : k' = k
  · subst hk
    exact ⟨b, Function.update_self .., hb a ha⟩
  · exact ⟨a, (Function.update_of_ne hk ..).trans ha, hR a⟩

/-- A log later: its old entries stand in their places, changed along `R`. -/
def Extends (R : α → α → Prop) (l l' : List α) : Prop := Keeps R (fun i : Nat => l[i]?) fun i => l'[i]?

theorem extends_refl (hR : ∀ a, R a a) (l : List α) : Extends R l l := keeps_refl hR _

theorem extends_trans (hR : ∀ a b c, R a b → R b c → R a c) {l l' l'' : List α} (h : Extends R l l')
    (h' : Extends R l' l'') : Extends R l l'' :=
  keeps_trans hR h h'

theorem extends_append (hR : ∀ a, R a a) (l new : List α) : Extends R l (l ++ new) := by
  intro i a ha
  have hlt : i < l.length := (List.getElem?_eq_some_iff.mp ha).1
  exact ⟨a, (List.getElem?_append_left hlt).trans ha, hR a⟩

theorem extends_map {f : α → α} (hf : ∀ a, R a (f a)) (l : List α) : Extends R l (l.map f) := by
  intro i a (ha : l[i]? = some a)
  have hi : (l.map f)[i]? = some (f a) := by
    rw [List.getElem?_map, ha]
    rfl
  exact ⟨f a, hi, hf a⟩

/-- An entry that was there is still there in some form. -/
theorem Extends.mem {l l' : List α} (h : Extends R l l') {a : α} (ha : a ∈ l) : ∃ a' ∈ l', R a a' := by
  obtain ⟨i, hi⟩ := List.mem_iff_getElem?.mp ha
  obtain ⟨a', ha', hR⟩ := h i a hi
  exact ⟨a', List.mem_of_getElem? ha', hR⟩

end

namespace Machine
variable {Op : Type} {Ans : Op → Type} {Task Res σ Choice Move Φ : Type}
  {M : Machine Op Ans Task Res σ Choice Move Φ}
  {ok : Config Op Ans Task Res σ Φ → Label Task Choice Move → Prop} {s s' : Config Op Ans Task Res σ Φ}

/-- What every step relates, any run relates. -/
theorem Reach.relates {R : σ → σ → Prop} (refl : ∀ w, R w w) (trans : ∀ u v w, R u v → R v w → R u w)
    (hstep : ∀ s l s', M.Step s l s' → R s.state s'.state) (hr : M.Reach ok s s') : R s.state s'.state :=
  hr.invariant (I := fun c => R s.state c.state) (refl _) fun _ _ _ h _ hs => trans _ _ _ h (hstep _ _ _ hs)

end Machine

end Interleave
