import GoCourier.Ledger.Budget
import GoCourier.Ledger.Release

/- The order of attempt numbers at one delivery's board. While one dispatch is engaged at a
   time, the row's count is never behind the numbers recorded, and each number recorded is
   greater than those before it. A replay starts the count anew; it does no harm where
   nothing is recorded and no dispatch has the delivery. -/
namespace GoCourier

open Interleave

/-- No number is beyond `n`. -/
def Ledger.Below (L : Ledger) (n : Nat) : Prop := ∀ k ∈ L.numbers, k ≤ n

/-- The part about the row: the numbers grow, and those of an open delivery are counted. -/
structure Ledger.Ascending (L : Ledger) : Prop where
  ordered : L.numbers.Pairwise (· > ·)
  absent : L.row = none → L.numbers = []
  pending : ∀ n, L.row = some (.pending, n) → L.numbers = []
  takeable : ∀ st n, L.row = some (st, n) → st.Takeable → L.Below n

/-- Number `k` is beyond those recorded, and counted while the delivery is open. -/
structure Ledger.Ahead (L : Ledger) (k : Nat) : Prop where
  beyond : ∀ j ∈ L.numbers, j < k
  stored : ∃ st n, L.row = some (st, n) ∧ st ≠ .pending ∧ (st.Takeable → k ≤ n)

/-- The part about one place: what it will record comes after what is recorded. -/
def Ledger.Follows (L : Ledger) : Stance → Prop
  | .reader _ n => L.Below n
  | .owner n => L.row = some (.processing, n) ∧ L.Below n
  | .refused n => L.row = some (.processing, n) ∧ L.Below n
  | .accepted n => L.row = some (.processing, n) ∧ L.Below n
  | .noted n => L.row = some (.processing, n)
  | .recorder k => L.Ahead k
  | _ => True

/-- A dispatch that may yet record an attempt. -/
def Stance.Engaged (a : Stance) : Prop := (∃ st n, a = .reader st n) ∨ a.Dispatching

/-- What the order of the numbers needs of a turn. -/
structure Orderly (deed : Deed) (L : Ledger) : Prop where
  requeue : deed = .requeue → L.numbers = []
  queue : deed = .queue → ∀ st n, L.row = some (st, n) → st = .pending
  answered : deed ≠ .requeueLost

variable {max : Int} {deed : Deed} {L L' : Ledger} {a a' b : Stance}

theorem follows_row (h : L.Follows a) (ha : a.Owning) : ∃ n, L.row = some (.processing, n) := by
  cases ha with
  | owner n => exact ⟨n, h.1⟩
  | refused n => exact ⟨n, h.1⟩
  | noted n => exact ⟨n, h⟩
  | accepted n => exact ⟨n, h.1⟩

/-- The condition a row bears: it counts the numbers, if a dispatch may take it. -/
theorem ascending_of_row {st : Status} {n : Nat} (hord : L.numbers.Pairwise (· > ·)) (hrow : L.row = some (st, n))
    (hp : st ≠ .pending) (hn : st.Takeable → L.Below n) : L.Ascending where
  ordered := hord
  absent h := by
    rw [hrow] at h
    cases h
  pending m h := by
    rw [hrow] at h
    cases h
    exact absurd rfl hp
  takeable st' m h ht := by
    rw [hrow] at h
    cases h
    exact hn ht

/-- A row that no dispatch may take bears no condition. -/
theorem ascending_closed {st : Status} {n : Nat} (hord : L.numbers.Pairwise (· > ·)) (hrow : L.row = some (st, n))
    (hst : ¬ st.Takeable) (hp : st ≠ .pending) : L.Ascending :=
  ascending_of_row hord hrow hp fun htake => absurd htake hst

/-- A row a dispatch may take counts the numbers. -/
theorem ascending_open {st : Status} {n : Nat} (hord : L.numbers.Pairwise (· > ·)) (hrow : L.row = some (st, n))
    (hp : st ≠ .pending) (hn : L.Below n) : L.Ascending :=
  ascending_of_row hord hrow hp fun _ => hn

/-- Nothing recorded, nothing asked. -/
theorem ascending_nil (h : L.numbers = []) : L.Ascending where
  ordered := by
    rw [h]
    exact List.Pairwise.nil
  absent _ := h
  pending _ _ := h
  takeable _ _ _ _ k hk := by
    rw [h] at hk
    cases hk

theorem below_nil (h : L.numbers = []) (n : Nat) : L.Below n := by
  intro k hk
  rw [h] at hk
  cases hk

/-- One number more, beyond the others. -/
theorem ordered_cons {k : Nat} (h : L.numbers.Pairwise (· > ·)) (hk : ∀ j ∈ L.numbers, j < k) :
    (k :: L.numbers).Pairwise (· > ·) :=
  List.pairwise_cons.mpr ⟨hk, h⟩

/-- A settled row. -/
theorem ascending_settled {r : Status × Nat} (hset : Settling max a r a') (h : L.Ascending) (hf : L.Follows a) :
    Ledger.Ascending { L with row := L.row.map fun _ => r } ∧
      Ledger.Follows { L with row := L.row.map fun _ => r } a' := by
  obtain ⟨m, hm⟩ := follows_row hf (settling_cases hset).1
  cases hset with
  | noProvider n =>
    have hrow : L.row.map (fun _ => (Status.dlq, n)) = some (.dlq, n) := by rw [hm]; rfl
    exact ⟨ascending_closed h.ordered hrow (by decide) nofun, trivial⟩
  | giveUp n =>
    have hrow : L.row.map (fun _ => (Status.dlq, n)) = some (.dlq, n) := by rw [hm]; rfl
    exact ⟨ascending_closed h.ordered hrow (by decide) nofun, trivial⟩
  | @retry n more =>
    have hrow : (L.row.map fun _ => (Status.retrying, n + 1)) = some (.retrying, n + 1) := by
      rw [hm]
      rfl
    refine ⟨ascending_open h.ordered hrow nofun fun k hk => Nat.le_succ_of_le (hf.2 k hk), ⟨?_, ?_⟩⟩
    · exact fun k hk => Nat.lt_succ_of_le (hf.2 k hk)
    · exact ⟨_, _, hrow, nofun, fun _ => Nat.le_refl _⟩
  | succeed n =>
    have hrow : (L.row.map fun _ => (Status.succeeded, n)) = some (.succeeded, n) := by
      rw [hm]
      rfl
    refine ⟨ascending_closed h.ordered hrow (by decide) nofun, ⟨?_, ?_⟩⟩
    · exact fun k hk => Nat.lt_succ_of_le (hf.2 k hk)
    · exact ⟨_, _, hrow, nofun, fun hst => absurd hst (by decide)⟩

/-- A turn keeps the caller's own part. -/
theorem ascending_turn (h : Turn max deed L a L' a') (hok : Orderly deed L) (hL : L.Ascending) (hf : L.Follows a) :
    L'.Ascending ∧ L'.Follows a' := by
  cases h with
  | idle => exact ⟨hL, hf⟩
  | leave free => exact ⟨hL, trivial⟩
  | cut owning => exact ⟨hL, trivial⟩
  | create none new => exact ⟨ascending_nil (hL.absent none), trivial⟩
  | look row takeable => exact ⟨hL, hL.takeable _ _ row takeable⟩
  | lookReplay row dead => exact ⟨hL, trivial⟩
  | lookTick row => exact ⟨hL, trivial⟩
  | claim row takeable => exact ⟨ascending_closed hL.ordered rfl (by decide) nofun, rfl, hf⟩
  | claimCut row takeable => exact ⟨ascending_closed hL.ordered rfl (by decide) nofun, trivial⟩
  | accept n => exact ⟨ascending_closed hL.ordered hf.1 (by decide) nofun, hf⟩
  | refuse n => exact ⟨ascending_closed hL.ordered hf.1 (by decide) nofun, hf⟩
  | block n => exact ⟨hL, hf⟩
  | note n =>
    -- the count is at least every number recorded, so the next is beyond them
    have hord := ordered_cons hL.ordered fun j hj => Nat.lt_succ_of_le (hf.2 j hj)
    exact ⟨ascending_closed hord hf.1 (by decide) nofun, hf.1⟩
  | settle hset => exact ascending_settled hset hL hf
  | settleLost hset => exact ⟨(ascending_settled hset hL hf).1, trivial⟩
  | record k =>
    obtain ⟨hbeyond, st, n, hrow, hp, hk⟩ := hf
    have hord := ordered_cons hL.ordered hbeyond
    by_cases ht : st.Takeable
    · refine ⟨ascending_open hord hrow hp fun j hj => ?_, trivial⟩
      rcases List.mem_cons.mp hj with rfl | hj
      · exact hk ht
      · exact Nat.le_trans (Nat.le_of_lt (hbeyond j hj)) (hk ht)
    · exact ⟨ascending_closed hord hrow ht hp, trivial⟩
  | requeue => exact ⟨ascending_nil rfl, trivial⟩
  | requeueLost => exact absurd rfl hok.answered
  | queue n =>
    refine ⟨?_, trivial⟩
    cases hrow : L.row with
    | none => exact ascending_nil (hL.absent hrow)
    | some r =>
      obtain ⟨st, m⟩ := r
      have hst : st = .pending := hok.queue rfl _ _ hrow
      subst hst
      exact ascending_nil (hL.pending _ hrow)

/-- Who is not engaged leaves the row and the numbers to the one who is. -/
theorem follows_others (h : Turn max deed L a L' a') (hok : Orderly deed L) (hreq : deed = .requeue → ¬ b.Dispatching)
    (hb : L.Follows b) (hab : ¬ (a.Engaged ∧ b.Engaged)) : L'.Follows b := by
  by_cases hbe : b.Engaged
  · have hfree : ¬ a.Engaged := fun ha => hab ⟨ha, hbe⟩
    have howner : ¬ a.Owning := fun ha => hfree (.inr (.inl ha))
    cases h with
    | claim row takeable => exact absurd (.inl ⟨_, _, rfl⟩) hfree
    | claimCut row takeable => exact absurd (.inl ⟨_, _, rfl⟩) hfree
    | accept n => exact absurd (.owner n) howner
    | refuse n => exact absurd (.owner n) howner
    | note n => exact absurd (.refused n) howner
    | settle hset => exact absurd (settling_cases hset).1 howner
    | settleLost hset => exact absurd (settling_cases hset).1 howner
    | record k => exact absurd (.inr (.inr ⟨k, rfl⟩)) hfree
    | requeueLost => exact absurd rfl hok.answered
    | create none new =>
      have hrow : ∀ {r}, L.row ≠ some r := fun hr => by
        rw [none] at hr
        cases hr
      rcases hbe with ⟨st, n, rfl⟩ | hown | ⟨k, rfl⟩
      · exact hb
      · obtain ⟨n, hn⟩ := follows_row hb hown
        exact absurd hn hrow
      · obtain ⟨-, st, n, hn, -⟩ := hb
        exact absurd hn hrow
    | requeue =>
      rcases hbe with ⟨st, n, rfl⟩ | hdisp
      · exact below_nil rfl n
      · exact absurd hdisp (hreq rfl)
    | queue n =>
      rcases hbe with ⟨st, m, rfl⟩ | hown | ⟨k, rfl⟩
      · exact hb
      · obtain ⟨m, hm⟩ := follows_row hb hown
        exact absurd (hok.queue rfl _ _ hm) nofun
      · obtain ⟨-, st, m, hm, hp, -⟩ := hb
        exact absurd (hok.queue rfl _ _ hm) hp
    | _ => exact hb
  · cases b with
    | reader st n => exact absurd (.inl ⟨st, n, rfl⟩) hbe
    | owner n => exact absurd (.inr (.inl (.owner n))) hbe
    | refused n => exact absurd (.inr (.inl (.refused n))) hbe
    | noted n => exact absurd (.inr (.inl (.noted n))) hbe
    | accepted n => exact absurd (.inr (.inl (.accepted n))) hbe
    | recorder k => exact absurd (.inr (.inr ⟨k, rfl⟩)) hbe
    | _ => trivial

end GoCourier
