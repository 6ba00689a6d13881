import Mathlib.Data.List.DropRight

/- Texts made of fields, said without the functions that take them apart. A field lies
   between two separators or the ends of the list and has no separator in it; a field
   without the blanks around it begins and ends with something else, or is empty.

   `mem_splitOn` and `trimmed_iff` are all that users need: splitting a list yields its
   fields and nothing else, and trimming yields what is between the blanks. -/
namespace Fields

section
variable {α : Type} {sep : α} {l part core : List α} {blank : α → Bool}

/-- `part` is a field of `l`. -/
def FieldOf (sep : α) (l part : List α) : Prop :=
  ∃ before after, l = before ++ part ++ after ∧ sep ∉ part ∧ (before = [] ∨ before.getLast? = some sep) ∧
    (after = [] ∨ after.head? = some sep)

/-- `core` is `part` without the blanks around it. -/
def Trimmed (blank : α → Bool) (part core : List α) : Prop :=
  ∃ before after, part = before ++ core ++ after ∧ (∀ a ∈ before, blank a = true) ∧ (∀ a ∈ after, blank a = true) ∧
    (∀ a ∈ core.head?, blank a = false) ∧ ∀ a ∈ core.getLast?, blank a = false

def trim (blank : α → Bool) (l : List α) : List α := (l.dropWhile blank).rdropWhile blank

/-! Trimming. -/

theorem dropWhile_append {before : List α} (hbefore : ∀ a ∈ before, blank a = true) (hcore : ∀ a ∈ l.head?, blank a = false) :
    (before ++ l).dropWhile blank = l := by
  rw [List.dropWhile_append_of_pos hbefore]
  cases l with
  | nil => rfl
  | cons a rest => exact List.dropWhile_cons_of_neg (by rw [hcore a rfl]; decide)

theorem rdropWhile_append {after : List α} (hafter : ∀ a ∈ after, blank a = true)
    (hcore : ∀ a ∈ l.getLast?, blank a = false) : (l ++ after).rdropWhile blank = l := by
  unfold List.rdropWhile
  rw [List.reverse_append, dropWhile_append (by simpa using hafter) (by simpa using hcore), List.reverse_reverse]

theorem trimmed_trim (l : List α) : Trimmed blank l (trim blank l) := by
  refine ⟨l.takeWhile blank, (l.dropWhile blank).rtakeWhile blank, ?_, ?_, ?_, ?_, ?_⟩
  · rw [trim, List.append_assoc, List.rdropWhile_append_rtakeWhile, List.takeWhile_append_dropWhile]
  · exact fun a ha => List.mem_takeWhile_imp ha
  · exact fun a ha => List.mem_rtakeWhile_imp ha
  · intro a ha
    have hhead : (l.dropWhile blank).head? = some a := by
      obtain ⟨rest, hrest⟩ := List.head?_eq_some_iff.mp ha
      obtain ⟨tail, htail⟩ := List.rdropWhile_prefix blank (l := l.dropWhile blank)
      rw [← htail, show (l.dropWhile blank).rdropWhile blank = a :: rest from hrest]
      rfl
    have hnot := List.head?_dropWhile_not blank l
    rw [hhead] at hnot
    simpa using hnot
  · intro a ha
    unfold trim at ha
    have hne : (l.dropWhile blank).rdropWhile blank ≠ [] := by
      intro hnil
      rw [hnil] at ha
      cases ha
    have hlast := List.rdropWhile_last_not blank (l.dropWhile blank) hne
    rw [List.getLast_of_getLast?_eq_some ha] at hlast
    exact (Bool.not_eq_true _).mp hlast

theorem trimmed_iff : Trimmed blank part core ↔ core = trim blank part := by
  constructor
  · rintro ⟨before, after, rfl, hbefore, hafter, hhead, hlast⟩
    cases core with
    | nil =>
      have hall : (before ++ [] ++ after).dropWhile blank = [] := by
        apply List.dropWhile_eq_nil_iff.mpr
        intro a ha
        rw [List.append_nil] at ha
        exact (List.mem_append.mp ha).elim (hbefore a) (hafter a)
      rw [trim, hall, List.rdropWhile_nil]
    | cons a rest =>
      have hdrop : (before ++ (a :: rest ++ after)).dropWhile blank = a :: rest ++ after := dropWhile_append hbefore hhead
      rw [trim, List.append_assoc, hdrop, rdropWhile_append hafter hlast]
  · rintro rfl
    exact trimmed_trim part

/-! Splitting. -/

/-- The field after the first separator is a field of the rest. -/
theorem FieldOf.append {first rest : List α} (h : FieldOf sep rest part) : FieldOf sep (first ++ sep :: rest) part := by
  obtain ⟨before, after, rfl, hsep, hbefore, hafter⟩ := h
  refine ⟨first ++ sep :: before, after, by simp, hsep, .inr ?_, hafter⟩
  rcases hbefore with rfl | hlast
  · simp
  · rw [List.getLast?_append, List.getLast?_cons, hlast]
    rfl

variable [DecidableEq α]

theorem fieldOf_of_mem (h : part ∈ l.splitOn sep) : FieldOf sep l part := by
  -- on the length: what follows the first separator is shorter
  induction hlen : l.length using Nat.strong_induction_on generalizing l with
  | _ n ih =>
    by_cases hsep : sep ∈ l
    · obtain ⟨first, rest, rfl, hfirst⟩ := List.eq_append_cons_of_mem hsep
      rw [List.splitOn_append_cons_self_of_not_mem hfirst] at h
      rcases List.mem_cons.mp h with rfl | hrest
      · exact ⟨[], sep :: rest, rfl, hfirst, .inl rfl, .inr rfl⟩
      · apply FieldOf.append
        apply ih rest.length _ hrest rfl
        rw [← hlen, List.length_append, List.length_cons]
        omega
    · rw [List.splitOn_eq_singleton hsep, List.mem_singleton] at h
      subst h
      exact ⟨[], [], by simp, hsep, .inl rfl, .inl rfl⟩

theorem mem_splitOn_append {after : List α} (hsep : sep ∉ part) (hafter : after = [] ∨ after.head? = some sep) :
    part ∈ (part ++ after).splitOn sep := by
  rcases hafter with rfl | hhead
  · rw [List.append_nil, List.splitOn_eq_singleton hsep]
    exact List.mem_singleton_self part
  · obtain ⟨rest, rfl⟩ := List.head?_eq_some_iff.mp hhead
    rw [List.splitOn_append_cons_self_of_not_mem hsep]
    exact List.mem_cons_self

theorem mem_splitOn : part ∈ l.splitOn sep ↔ FieldOf sep l part := by
  constructor
  · exact fieldOf_of_mem
  · rintro ⟨before, after, rfl, hsep, hbefore, hafter⟩
    have hmem := mem_splitOn_append hsep hafter
    rcases hbefore with rfl | hlast
    · exact hmem
    · obtain ⟨init, rfl⟩ := List.getLast?_eq_some_iff.mp hlast
      have happend : init ++ [sep] ++ part ++ after = init ++ sep :: (part ++ after) := by simp
      rw [happend, List.splitOn_append_cons_self]
      exact List.mem_append_right _ hmem

end

end Fields
