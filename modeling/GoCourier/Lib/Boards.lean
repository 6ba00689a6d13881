import Mathlib.Data.List.Nodup
import Mathlib.Logic.Relation
import GoCourier.Lib.Board

/- Many boards at once, one to each key. A play of the family is a turn at one board
   after another, in any order. A turn reads and changes no board but its own, so turns
   at two boards commute, and whatever a play comes to a play comes to that finishes with
   one board before it goes on to the next (`inTurn_of_plays`). -/
namespace Interleave

open Relation

section
variable {κ A L : Type}

/-- A party takes a turn that the rules `R` allow. -/
inductive Board.Plays (R : A → L → A → L → Prop) (b : Board A L) : Board A L → Prop where
  | turn {t : Nat} {a : A} {l : L} (allowed : R b.shared (b.places t) a l) : Plays R b (b.turn t a l)

variable [DecidableEq κ]

/-- A turn at one board of a family. -/
inductive Boards.Plays (R : A → L → A → L → Prop) (B : κ → Board A L) : (κ → Board A L) → Prop where
  | on (x : κ) {b : Board A L} (played : (B x).Plays R b) : Plays R B (Function.update B x b)

/-- All turns at the first board, then all at the second, and so on. -/
inductive Boards.InTurn (R : A → L → A → L → Prop) : List κ → (κ → Board A L) → (κ → Board A L) → Prop where
  | done (B : κ → Board A L) : InTurn R [] B B
  | next {x : κ} {xs : List κ} {B B' : κ → Board A L} {b : Board A L} (played : ReflTransGen (Board.Plays R) (B x) b)
      (rest : InTurn R xs (Function.update B x b) B') : InTurn R (x :: xs) B B'

variable {R : A → L → A → L → Prop} {B B' : κ → Board A L} {x : κ} {xs : List κ} {b : Board A L}

/-- The other boards stay as they are. -/
theorem inTurn_other (h : Boards.InTurn R xs B B') (hx : x ∉ xs) : B' x = B x := by
  induction h with
  | done B => rfl
  | next played rest ih =>
    rw [List.mem_cons, not_or] at hx
    obtain ⟨hne, hx⟩ := hx
    rw [ih hx, Function.update_of_ne hne]

/-- They may be any other boards as well. -/
theorem inTurn_update (h : Boards.InTurn R xs B B') (hx : x ∉ xs) (b : Board A L) :
    Boards.InTurn R xs (Function.update B x b) (Function.update B' x b) := by
  induction h with
  | done B => exact .done _
  | @next y ys B B' b₀ played rest ih =>
    rw [List.mem_cons, not_or] at hx
    obtain ⟨hne, hx⟩ := hx
    refine .next (b := b₀) ?_ ?_
    · rw [Function.update_of_ne (Ne.symm hne)]
      exact played
    · rw [Function.update_comm hne]
      exact ih hx

/-- A turn after all of them, at one of the boards, can be taken together with those at its board. -/
theorem inTurn_join (h : Boards.InTurn R xs B B') (hnodup : xs.Nodup) (hx : x ∈ xs) (played : (B' x).Plays R b) :
    Boards.InTurn R xs B (Function.update B' x b) := by
  induction h with
  | done B => cases hx
  | @next y ys B B' b₀ before rest ih =>
    obtain ⟨hy, hnodup⟩ := List.nodup_cons.mp hnodup
    by_cases hxy : x = y
    · subst hxy
      -- the board has stayed as its own turns have left it
      have hb : B' x = b₀ := (inTurn_other rest hy).trans (Function.update_self ..)
      rw [hb] at played
      have hrest := inTurn_update rest hy b
      rw [Function.update_idem] at hrest
      exact .next (before.tail played) hrest
    · have hys : x ∈ ys := (List.mem_cons.mp hx).resolve_left hxy
      exact .next before (ih hnodup hys played)

/-- A turn at another board comes last. -/
theorem inTurn_last (h : Boards.InTurn R xs B B') (played : (B' x).Plays R b) :
    Boards.InTurn R (xs ++ [x]) B (Function.update B' x b) := by
  induction h with
  | done B => exact .next (.single played) (.done _)
  | next before rest ih => exact .next before (ih played)

/-- Any play comes to one that takes the boards in turn, no board twice. -/
theorem inTurn_of_plays (h : ReflTransGen (Boards.Plays R) B B') : ∃ xs, xs.Nodup ∧ Boards.InTurn R xs B B' := by
  induction h with
  | refl => exact ⟨[], List.nodup_nil, .done B⟩
  | tail _ hplay ih =>
    obtain ⟨xs, hnodup, hturns⟩ := ih
    cases hplay with
    | on x played =>
      -- a board that has had its turns takes this one with them
      by_cases hx : x ∈ xs
      · exact ⟨xs, hnodup, inTurn_join hturns hnodup hx played⟩
      · refine ⟨xs ++ [x], ?_, inTurn_last hturns played⟩
        rw [← List.concat_eq_append]
        exact (List.nodup_concat xs x).mpr ⟨hx, hnodup⟩

end

end Interleave
