import Mathlib.Data.List.Sort
import Mathlib.Data.List.TakeWhile
import Mathlib.Logic.Function.Iterate

/- A backlog worked off in batches. The items wait in a fixed order; a round takes the first
   few of them, and those that can be done leave. Items that are stuck keep their place and
   come up again in the next round, so a batch full of them holds up all that follow.

   1. The order is a stable sort, and taking items out of it leaves the others in order
      (`filter_insertionSort`).
   2. The first item that is not stuck is taken exactly when fewer stuck ones than a batch
      come before it (`first_taken`); otherwise a round changes nothing (`round_blocked`).
   3. As many rounds as there are items do all that can be done exactly when each of them has
      fewer stuck ones than a batch before it (`cleared_iff`). -/
namespace Backlog

variable {α β : Type}

/-! Order. -/

/-- What is no later than some item comes first. -/
theorem filter_begins {r : α → α → Prop} {q : α → Bool} (hq : ∀ a b, r a b → q b = true → q a = true) :
    ∀ {l : List α}, l.Pairwise r → l.filter q <+: l
  | [], _ => List.prefix_rfl
  | a :: l, h => by
    obtain ⟨ha, hl⟩ := List.pairwise_cons.mp h
    by_cases hqa : q a = true
    · rw [List.filter_cons_of_pos hqa]
      exact (List.prefix_cons_inj a).mpr (filter_begins hq hl)
    · have hnone : l.filter q = [] := List.filter_eq_nil_iff.mpr fun b hb hqb => hqa (hq a b (ha b hb) hqb)
      rw [List.filter_cons_of_neg hqa, hnone]
      exact List.nil_prefix

section
variable {r : α → α → Prop} [DecidableRel r]

theorem orderedInsert_first {a : α} : ∀ {l : List α}, (∀ b ∈ l, r a b) → l.orderedInsert r a = a :: l
  | [], _ => rfl
  | b :: l, h => by rw [List.orderedInsert_cons, if_pos (h b List.mem_cons_self)]

theorem filter_orderedInsert [IsTrans α r] {q : α → Bool} {a : α} (ha : q a = true) :
    ∀ {l : List α}, l.Pairwise r → (l.orderedInsert r a).filter q = (l.filter q).orderedInsert r a
  | [], _ => by simp [ha]
  | b :: l, h => by
    obtain ⟨hb, hl⟩ := List.pairwise_cons.mp h
    by_cases hab : r a b
    · -- `a` comes before everything, also before what is left
      have hfirst : ∀ c ∈ (b :: l).filter q, r a c := by
        intro c hc
        rcases List.mem_cons.mp (List.mem_of_mem_filter hc) with rfl | hc
        · exact hab
        · exact IsTrans.trans a b c hab (hb c hc)
      rw [List.orderedInsert_cons, if_pos hab, List.filter_cons_of_pos ha, orderedInsert_first hfirst]
    · rw [List.orderedInsert_cons, if_neg hab]
      by_cases hq : q b = true
      · rw [List.filter_cons_of_pos hq, List.filter_cons_of_pos hq, List.orderedInsert_cons, if_neg hab,
          filter_orderedInsert ha hl]
      · rw [List.filter_cons_of_neg hq, List.filter_cons_of_neg hq, filter_orderedInsert ha hl]

theorem filter_orderedInsert_neg {q : α → Bool} {a : α} (ha : ¬ q a = true) :
    ∀ (l : List α), (l.orderedInsert r a).filter q = l.filter q
  | [] => by simp [ha]
  | b :: l => by
    rw [List.orderedInsert_cons]
    split
    · rw [List.filter_cons_of_neg ha]
    · by_cases hq : q b = true
      · rw [List.filter_cons_of_pos hq, List.filter_cons_of_pos hq, filter_orderedInsert_neg ha l]
      · rw [List.filter_cons_of_neg hq, List.filter_cons_of_neg hq, filter_orderedInsert_neg ha l]

/-- What is left of a sorted list is what is left, sorted. -/
theorem filter_insertionSort [Std.Total r] [IsTrans α r] (q : α → Bool) :
    ∀ (l : List α), (l.insertionSort r).filter q = (l.filter q).insertionSort r
  | [] => rfl
  | a :: l => by
    rw [List.insertionSort_cons]
    by_cases ha : q a = true
    · rw [List.filter_cons_of_pos ha, List.insertionSort_cons,
        filter_orderedInsert ha (List.pairwise_insertionSort r l), filter_insertionSort q l]
    · rw [List.filter_cons_of_neg ha, filter_orderedInsert_neg ha, filter_insertionSort q l]

end

/-! Rounds. -/

section
variable (b : Nat) (stuck : α → Bool)

/-- What a round leaves: of the first `b` items the stuck ones, and all the others. -/
def round (l : List α) : List α := (l.take b).filter stuck ++ l.drop b

/-- Fewer than `b` stuck items come before each item that is not stuck. -/
def Unblocked (l : List α) : Prop := ∀ as x bs, l = as ++ x :: bs → stuck x = false → as.countP stuck < b

end

section
variable {b : Nat} {stuck : α → Bool} {l as bs : List α} {x : α}

/-- The first item that is not stuck. -/
theorem first_taken (h : ∀ a ∈ as, stuck a = true) (hx : stuck x = false) :
    (l = as ++ x :: bs → ((l.takeWhile stuck).length < b ↔ ∃ cs, l.take b = as ++ x :: cs)) := by
  intro hl
  have hbefore : l.takeWhile stuck = as := by
    rw [hl, List.takeWhile_append_of_pos h, List.takeWhile_cons_of_neg (by simp [hx]), List.append_nil]
  rw [hbefore]
  constructor
  · intro hlt
    refine ⟨bs.take (b - as.length - 1), ?_⟩
    rw [hl, List.take_append, List.take_of_length_le (Nat.le_of_lt hlt)]
    congr 1
    obtain ⟨k, hk⟩ := Nat.exists_eq_add_of_lt hlt
    rw [show b - as.length = k + 1 by omega, List.take_succ_cons, Nat.add_sub_cancel]
  · intro htaken
    obtain ⟨cs, hcs⟩ := htaken
    have hlen := congrArg List.length hcs
    have hle := List.length_take_le b l
    rw [hlen, List.length_append, List.length_cons] at hle
    omega

/-- A batch of stuck items. -/
theorem stuck_of_blocked (h : b ≤ (l.takeWhile stuck).length) : ∀ a ∈ l.take b, stuck a = true := by
  intro a ha
  have hbegin : l.take b <+: l.takeWhile stuck :=
    List.prefix_of_prefix_length_le (List.take_prefix b l) (List.takeWhile_prefix stuck)
      (le_trans (List.length_take_le b l) h)
  exact List.mem_takeWhile_imp (hbegin.mem ha)

/-- What comes later does not unblock. -/
theorem takeWhile_length_le {l' : List α} (h : l <+: l') : (l.takeWhile stuck).length ≤ (l'.takeWhile stuck).length := by
  obtain ⟨bs, rfl⟩ := h
  rw [List.takeWhile_append]
  split
  · rename_i hall
    rw [List.length_append, hall]
    exact Nat.le_add_right _ _
  · exact le_refl _

/-- A round keeps what comes before an item that it does not reach. -/
theorem round_beyond (h : b ≤ as.length) : round b stuck (as ++ x :: bs) = round b stuck as ++ x :: bs := by
  rw [round, round, List.take_append_of_le_length h, List.drop_append_of_le_length h, List.append_assoc]

theorem countP_round (l : List α) : (round b stuck l).countP stuck = l.countP stuck := by
  have hkept : ((l.take b).filter stuck).countP stuck = (l.take b).countP stuck := by
    rw [List.countP_filter]
    simp only [Bool.and_self]
  rw [round, List.countP_append, hkept, ← List.countP_append, List.take_append_drop]

/-- An item behind a batch of stuck ones is never reached. -/
theorem iterate_blocked (hx : b ≤ as.countP stuck) (n : Nat) :
    ∃ cs, (round b stuck)^[n] (as ++ x :: bs) = cs ++ x :: bs ∧ cs.countP stuck = as.countP stuck := by
  induction n with
  | zero => exact ⟨as, rfl, rfl⟩
  | succ n ih =>
    obtain ⟨cs, hcs, hcount⟩ := ih
    have hlen : b ≤ cs.length := le_trans (hcount ▸ hx) List.countP_le_length
    refine ⟨round b stuck cs, ?_, ?_⟩
    · rw [Function.iterate_succ_apply', hcs, round_beyond hlen]
    · rw [countP_round, hcount]

theorem unblocked_round (h : Unblocked b stuck l) : Unblocked b stuck (round b stuck l) := by
  intro as x bs hl hx
  -- the item was beyond the batch, and what was before it has lost none that are stuck
  have hmem : ∃ cs, as = (l.take b).filter stuck ++ cs ∧ l.drop b = cs ++ x :: bs := by
    rw [round] at hl
    rcases List.append_eq_append_iff.mp hl with ⟨cs, hcs, hrest⟩ | ⟨cs, hcs, hrest⟩
    · exact ⟨cs, hcs, hrest⟩
    · cases cs with
      | nil =>
        rw [List.append_nil] at hcs
        rw [List.nil_append] at hrest
        exact ⟨[], by rw [hcs, List.append_nil], hrest.symm⟩
      | cons c cs =>
        rw [List.cons_append, List.cons.injEq] at hrest
        have hin : x ∈ (l.take b).filter stuck := by
          rw [hcs, hrest.1]
          exact List.mem_append_right _ List.mem_cons_self
        have hst := (List.mem_filter.mp hin).2
        rw [hx] at hst
        cases hst
  obtain ⟨cs, rfl, hdrop⟩ := hmem
  have hwhole : l = (l.take b ++ cs) ++ x :: bs := by
    rw [List.append_assoc, ← hdrop, List.take_append_drop]
  have hlt := h _ x bs hwhole hx
  rw [List.countP_append] at hlt ⊢
  rw [List.countP_filter]
  simpa only [Bool.and_self] using hlt

/-- While something can be done, a round does something. -/
theorem round_progress (h : Unblocked b stuck l) :
    (round b stuck l).countP (fun a => ! stuck a) ≤ l.countP (fun a => ! stuck a) - 1 := by
  have hcount : (round b stuck l).countP (fun a => ! stuck a) = (l.drop b).countP fun a => ! stuck a := by
    have hnone : ((l.take b).filter stuck).countP (fun a => ! stuck a) = 0 := by
      apply List.countP_eq_zero.mpr
      intro a ha
      simp [(List.mem_filter.mp ha).2]
    rw [round, List.countP_append, hnone, Nat.zero_add]
  have hsplit : l.countP (fun a => ! stuck a) =
      (l.take b).countP (fun a => ! stuck a) + (l.drop b).countP fun a => ! stuck a := by
    rw [← List.countP_append, List.take_append_drop]
  rw [hcount]
  by_cases hall : ∀ a ∈ l, stuck a = true
  · have hzero : l.countP (fun a => ! stuck a) = 0 := by
      apply List.countP_eq_zero.mpr
      intro a ha
      simp [hall a ha]
    omega
  · -- the first item that is not stuck is within the batch
    have hnot : ¬ l.takeWhile stuck = l := fun heq => hall (List.takeWhile_eq_self_iff.mp heq)
    obtain ⟨x, bs, hbs⟩ : ∃ x bs, l.dropWhile stuck = x :: bs := by
      cases hd : l.dropWhile stuck with
      | nil =>
        have happ := List.takeWhile_append_dropWhile (p := stuck) (l := l)
        rw [hd, List.append_nil] at happ
        exact absurd happ hnot
      | cons x bs => exact ⟨x, bs, rfl⟩
    have hx : stuck x = false := by
      have hne : l.dropWhile stuck ≠ [] := by rw [hbs]; exact List.cons_ne_nil _ _
      have := List.head_dropWhile_not stuck hne
      simpa [hbs] using this
    have hl : l = l.takeWhile stuck ++ x :: bs := by rw [← hbs, List.takeWhile_append_dropWhile]
    have hstuck : ∀ a ∈ l.takeWhile stuck, stuck a = true := fun a ha => List.mem_takeWhile_imp ha
    have hlt : (l.takeWhile stuck).length < b := by
      have hlt := h _ x bs hl hx
      rwa [List.countP_eq_length.mpr hstuck] at hlt
    obtain ⟨cs, hcs⟩ := (first_taken hstuck hx hl).mp hlt
    have hpos : 0 < (l.take b).countP fun a => ! stuck a := by
      apply List.countP_pos_iff.mpr
      refine ⟨x, ?_, by simp [hx]⟩
      rw [hcs]
      exact List.mem_append_right _ List.mem_cons_self
    omega

theorem iterate_unblocked (h : Unblocked b stuck l) (n : Nat) : Unblocked b stuck ((round b stuck)^[n] l) ∧
    ((round b stuck)^[n] l).countP (fun a => ! stuck a) ≤ l.countP (fun a => ! stuck a) - n := by
  induction n with
  | zero => exact ⟨h, le_refl _⟩
  | succ n ih =>
    obtain ⟨hun, hle⟩ := ih
    rw [Function.iterate_succ_apply']
    have := round_progress hun
    exact ⟨unblocked_round hun, by omega⟩

/-- One batch takes everything. -/
theorem unblocked_of_length (h : l.length ≤ b) : Unblocked b stuck l := by
  intro as x bs hl _
  have hle := List.countP_le_length (p := stuck) (l := as)
  rw [hl, List.length_append, List.length_cons] at h
  omega

/-- As many rounds as there are items do all that can be done exactly when nothing is blocked. -/
theorem cleared_iff : (∀ a ∈ (round b stuck)^[l.length] l, stuck a = true) ↔ Unblocked b stuck l := by
  constructor
  · intro hall as x bs hl hx
    by_contra hge
    obtain ⟨cs, hcs, -⟩ := iterate_blocked (not_lt.mp hge) l.length
    rw [← hl] at hcs
    have hst := hall x (by rw [hcs]; exact List.mem_append_right _ List.mem_cons_self)
    rw [hx] at hst
    cases hst
  · intro h a ha
    obtain ⟨-, hle⟩ := iterate_unblocked h l.length
    have hlen : l.countP (fun a => ! stuck a) ≤ l.length := List.countP_le_length
    have hzero : ((round b stuck)^[l.length] l).countP (fun a => ! stuck a) = 0 := by omega
    have hst := List.countP_eq_zero.mp hzero a ha
    simpa using hst

/-- Items named apart: a round strikes out the names of those it has done. -/
theorem round_eq_filter {κ : Type} [DecidableEq κ] {key : α → κ} (h : (l.map key).Nodup) :
    round b stuck l = l.filter fun x => key x ∉ ((l.take b).filter fun x => ! stuck x).map key := by
  have hinj : ∀ x ∈ l, ∀ y ∈ l, key x = key y → x = y := fun x hx y hy => List.inj_on_of_nodup_map h hx hy
  have hdisjoint : ∀ x ∈ l.take b, ∀ y ∈ l.drop b, key x ≠ key y := by
    rw [← List.take_append_drop b l, List.map_append, List.nodup_append] at h
    intro x hx y hy
    exact h.2.2 _ (List.mem_map_of_mem hx) _ (List.mem_map_of_mem hy)
  generalize hdone : ((l.take b).filter fun x => ! stuck x).map key = done
  have htaken : (l.take b).filter stuck = (l.take b).filter fun x => key x ∉ done := by
    apply List.filter_congr
    intro x hx
    rw [Bool.eq_iff_iff, decide_eq_true_eq, ← hdone]
    constructor
    · intro hst hmem
      obtain ⟨y, hy, hkey⟩ := List.mem_map.mp hmem
      obtain ⟨hy, hfree⟩ := List.mem_filter.mp hy
      rw [hinj y (List.mem_of_mem_take hy) x (List.mem_of_mem_take hx) hkey, hst] at hfree
      cases hfree
    · intro hmem
      by_contra hst
      exact hmem (List.mem_map_of_mem (List.mem_filter.mpr ⟨hx, by simp [hst]⟩))
  have hrest : (l.drop b).filter (fun x => key x ∉ done) = l.drop b := by
    apply List.filter_eq_self.mpr
    intro y hy
    apply decide_eq_true
    intro hmem
    rw [← hdone] at hmem
    obtain ⟨x, hx, hkey⟩ := List.mem_map.mp hmem
    exact hdisjoint x (List.mem_of_mem_filter hx) y hy hkey
  calc round b stuck l = (l.take b).filter stuck ++ l.drop b := rfl
    _ = (l.take b).filter (fun x => key x ∉ done) ++ (l.drop b).filter fun x => key x ∉ done := by rw [htaken, hrest]
    _ = (l.take b ++ l.drop b).filter fun x => key x ∉ done := by rw [List.filter_append]
    _ = l.filter fun x => key x ∉ done := by rw [List.take_append_drop]

theorem unblocked_map {stuck : β → Bool} (f : α → β) :
    Unblocked b stuck (l.map f) ↔ Unblocked b (fun a => stuck (f a)) l := by
  constructor
  · intro h as x bs hl hx
    have hlt := h (as.map f) (f x) (bs.map f) (by rw [hl, List.map_append, List.map_cons]) hx
    rwa [List.countP_map] at hlt
  · intro h as y bs hl hy
    obtain ⟨as', ms, rfl, rfl, hms⟩ := List.map_eq_append_iff.mp hl
    obtain ⟨x, bs', rfl, rfl, -⟩ := List.map_eq_cons_iff.mp hms
    rw [List.countP_map]
    exact h as' x bs' rfl hy

end

end Backlog
