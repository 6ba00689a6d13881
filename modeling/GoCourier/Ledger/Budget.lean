import GoCourier.Ledger.Ownership

/- The retry budget at one delivery's board. `UpdateIfStatus` compares the status and
   writes the retry count of its caller's copy, which may be old: a delivery that went
   from retrying to processing and back passes the comparison. The stored count covers
   the sends and the recorded attempt numbers as long as no claim writes a smaller
   count (`Allowed`), and as long as no replay begins while a dispatch has its write or
   its record still to come. -/
namespace GoCourier

open Interleave

/-- Count `n` leaves room for another attempt, and is no less than what was sent and recorded. -/
structure Ledger.Covered (max : Int) (L : Ledger) (n : Nat) : Prop where
  room : (n + 1 : Int) ≤ max
  sent : L.sends ≤ n
  recorded : ∀ k ∈ L.numbers, k ≤ n

/-- The same after a send. -/
structure Ledger.Spent (max : Int) (L : Ledger) (n : Nat) : Prop where
  room : (n + 1 : Int) ≤ max
  sent : L.sends ≤ n + 1
  recorded : ∀ k ∈ L.numbers, k ≤ n

/-- The part about the row. -/
structure Ledger.Within (max : Int) (L : Ledger) : Prop where
  absent : L.row = none → L.sends = 0 ∧ L.numbers = []
  pending : ∀ n, L.row = some (.pending, n) → n = 0 ∧ L.sends = 0 ∧ L.numbers = []
  takeable : ∀ st n, L.row = some (st, n) → st.Takeable → L.Covered max n
  total : (L.sends : Int) ≤ max
  distinct : L.numbers.Nodup

/-- Attempt `k` is recorded nowhere yet, and the count has reached it while the delivery is open. -/
structure Ledger.Unrecorded (L : Ledger) (k : Nat) : Prop where
  new : k ∉ L.numbers
  stored : ∃ st n, L.row = some (st, n) ∧ st ≠ .pending ∧ (st.Takeable ∨ st = .processing → k ≤ n)

/-- The part about one place. -/
def Ledger.Budgeted (max : Int) (L : Ledger) : Stance → Prop
  | .reader _ n => (n + 1 : Int) ≤ max
  | .owner n => L.row = some (.processing, n) ∧ L.Covered max n
  | .refused n => L.row = some (.processing, n) ∧ L.Spent max n
  | .accepted n => L.row = some (.processing, n) ∧ L.Spent max n
  | .noted n => L.row = some (.processing, n) ∧ (n + 1 : Int) ≤ max
  | .recorder k => L.Unrecorded k
  | .ticker n => n = 0
  | _ => True

/-- The part about two places: not both own, and not both have one number to record. -/
def Distinct (a b : Stance) : Prop := Apart a b ∧ ∀ k, ¬ (a = .recorder k ∧ b = .recorder k)

/-- What the budget needs of a turn, as seen by the caller. -/
structure Allowed (deed : Deed) (L : Ledger) (a : Stance) : Prop where
  claim : deed = .claim → ∀ st n m, a = .reader st n → L.row = some (st, m) → m ≤ n
  cut : deed = .cut → a.Owning
  queue : deed = .queue → ∀ st n, L.row = some (st, n) → st = .pending
  answered : deed ≠ .requeueLost

/-- A dispatch with its row write or its attempt record still to come. -/
def Stance.Dispatching (a : Stance) : Prop := a.Owning ∨ ∃ k, a = .recorder k

variable {max : Int} {deed : Deed} {L L' : Ledger} {a a' b : Stance}

theorem Ledger.Covered.spent {n : Nat} (h : L.Covered max n) : L.Spent max n :=
  ⟨h.room, Nat.le_succ_of_le h.sent, h.recorded⟩

theorem budgeted_row (h : L.Budgeted max a) (ha : a.Owning) : ∃ n, L.row = some (.processing, n) := by
  cases ha with
  | owner n => exact ⟨n, h.1⟩
  | refused n => exact ⟨n, h.1⟩
  | noted n => exact ⟨n, h.1⟩
  | accepted n => exact ⟨n, h.1⟩

/-- The condition a row bears: its count covers it, if a dispatch may take it. -/
theorem within_of_row {st : Status} {n : Nat} (hrow : L.row = some (st, n)) (hp : st ≠ .pending)
    (hc : st.Takeable → L.Covered max n) (ht : (L.sends : Int) ≤ max) (hd : L.numbers.Nodup) : L.Within max where
  absent h := by
    rw [hrow] at h
    cases h
  pending m h := by
    rw [hrow] at h
    cases h
    exact absurd rfl hp
  takeable st' m h ht := by
    rw [hrow] at h
    cases h
    exact hc ht
  total := ht
  distinct := hd

/-- A row that is out of the dispatches' hands bears no condition. -/
theorem within_closed {st : Status} {n : Nat} (hrow : L.row = some (st, n)) (hst : ¬ st.Takeable) (hp : st ≠ .pending)
    (ht : (L.sends : Int) ≤ max) (hd : L.numbers.Nodup) : L.Within max :=
  within_of_row hrow hp (fun htake => absurd htake hst) ht hd

/-- A row that a dispatch may take has a count that covers it. -/
theorem within_open {st : Status} {n : Nat} (hrow : L.row = some (st, n)) (hst : st ≠ .pending)
    (hc : L.Covered max n) (hd : L.numbers.Nodup) : L.Within max := by
  have ht : (L.sends : Int) ≤ max := by
    have := hc.sent
    have := hc.room
    omega
  exact within_of_row hrow hst (fun _ => hc) ht hd

theorem covered_zero (hmax : 1 ≤ max) (hs : L.sends = 0) (hn : L.numbers = []) : L.Covered max 0 where
  room := by omega
  sent := by omega
  recorded k hk := by
    rw [hn] at hk
    cases hk

theorem Ledger.Covered.mono {m n : Nat} (h : L.Covered max m) (hle : m ≤ n) (hroom : (n + 1 : Int) ≤ max) :
    L.Covered max n :=
  ⟨hroom, Nat.le_trans h.sent hle, fun k hk => Nat.le_trans (h.recorded k hk) hle⟩

theorem Ledger.Spent.total {n : Nat} (h : L.Spent max n) : (L.sends : Int) ≤ max := by
  have := h.sent
  have := h.room
  omega

/-- The number after `n` is new to a ledger that `n` covers. -/
theorem Ledger.Spent.new {n : Nat} (h : L.Spent max n) : n + 1 ∉ L.numbers := fun hk => by
  have := h.recorded _ hk
  omega

/-- A settled row. -/
theorem within_settled {r : Status × Nat} (hset : Settling max a r a') (h : L.Within max) (hb : L.Budgeted max a) :
    Ledger.Within max { L with row := L.row.map fun _ => r } ∧
      Ledger.Budgeted max { L with row := L.row.map fun _ => r } a' := by
  cases hset with
  | noProvider n =>
    rw [hb.1]
    exact ⟨within_closed rfl (by decide) nofun h.total h.distinct, trivial⟩
  | giveUp n =>
    rw [hb.1]
    exact ⟨within_closed rfl (by decide) nofun h.total h.distinct, trivial⟩
  | @retry n more =>
    obtain ⟨hrow, hs⟩ := hb
    rw [hrow]
    refine ⟨within_open rfl nofun ?_ h.distinct, ⟨hs.new, .retrying, n + 1, rfl, nofun, fun _ => Nat.le_refl _⟩⟩
    exact ⟨by push_cast; omega, hs.sent, fun k hk => Nat.le_succ_of_le (hs.recorded k hk)⟩
  | succeed n =>
    obtain ⟨hrow, hs⟩ := hb
    rw [hrow]
    refine ⟨within_closed rfl (by decide) nofun h.total h.distinct, ⟨hs.new, .succeeded, n, rfl, nofun, fun hst => ?_⟩⟩
    exact absurd hst (by decide)

/-- One more send by an owner. -/
theorem Ledger.Covered.send {n : Nat} (h : L.Covered max n) (acc : Nat) :
    Ledger.Spent max { L with accepted := acc, sends := L.sends + 1 } n :=
  ⟨h.room, Nat.succ_le_succ h.sent, h.recorded⟩

/-- A turn keeps the caller's own part. -/
theorem budget_turn (hmax : 1 ≤ max) (h : Turn max deed L a L' a') (hok : Allowed deed L a) (hw : L.Within max)
    (hb : L.Budgeted max a) : L'.Within max ∧ L'.Budgeted max a' := by
  cases h with
  | idle => exact ⟨hw, hb⟩
  | leave free => exact ⟨hw, trivial⟩
  | cut owning => exact ⟨hw, trivial⟩
  | @create _ st none new =>
    obtain ⟨hs, hn⟩ := hw.absent none
    refine ⟨⟨nofun, fun n hrow => ?_, fun st' n hrow _ => ?_, hw.total, hw.distinct⟩, trivial⟩
    · cases hrow
      exact ⟨rfl, hs, hn⟩
    · cases hrow
      exact covered_zero hmax hs hn
  | look row takeable => exact ⟨hw, (hw.takeable _ _ row takeable).room⟩
  | lookReplay row dead => exact ⟨hw, trivial⟩
  | lookTick row => exact ⟨hw, (hw.pending _ row).1⟩
  | @claim _ st n m row takeable =>
    have hcov : L.Covered max n := (hw.takeable _ _ row takeable).mono (hok.claim rfl st n m rfl row) hb
    exact ⟨within_closed rfl (by decide) nofun hw.total hw.distinct, rfl, ⟨hcov.room, hcov.sent, hcov.recorded⟩⟩
  | claimCut row takeable => exact absurd (hok.cut rfl) nofun
  | accept n =>
    have hs := hb.2.send (L.accepted + 1)
    exact ⟨within_closed hb.1 (by decide) nofun hs.total hw.distinct, hb.1, hs⟩
  | refuse n =>
    have hs := hb.2.send L.accepted
    exact ⟨within_closed hb.1 (by decide) nofun hs.total hw.distinct, hb.1, hs⟩
  | block n => exact ⟨hw, hb.1, hb.2.spent⟩
  | note n =>
    obtain ⟨hrow, hs⟩ := hb
    exact ⟨within_closed hrow (by decide) nofun hw.total (List.nodup_cons.mpr ⟨hs.new, hw.distinct⟩), hrow, hs.room⟩
  | settle hset => exact within_settled hset hw hb
  | settleLost hset => exact ⟨(within_settled hset hw hb).1, trivial⟩
  | record k =>
    obtain ⟨hnew, st, n, hrow, hp, hk⟩ := hb
    have hd : (k :: L.numbers).Nodup := List.nodup_cons.mpr ⟨hnew, hw.distinct⟩
    by_cases ht : st.Takeable
    · have hcov := hw.takeable _ _ hrow ht
      refine ⟨within_open hrow hp ⟨hcov.room, hcov.sent, fun j hj => ?_⟩ hd, trivial⟩
      rcases List.mem_cons.mp hj with rfl | hj
      · exact hk (.inl ht)
      · exact hcov.recorded j hj
    · exact ⟨within_closed hrow ht hp hw.total hd, trivial⟩
  | requeue =>
    refine ⟨?_, trivial⟩
    cases hrow : L.row with
    | none => exact ⟨fun _ => ⟨rfl, rfl⟩, nofun, nofun, by show (0 : Int) ≤ max; omega, List.nodup_nil⟩
    | some r => exact within_open rfl nofun (covered_zero hmax rfl rfl) List.nodup_nil
  | requeueLost => exact absurd rfl hok.answered
  | queue n =>
    have hn : n = 0 := hb
    subst hn
    cases hrow : L.row with
    | none => exact ⟨⟨fun _ => hw.absent hrow, nofun, nofun, hw.total, hw.distinct⟩, trivial⟩
    | some r =>
      obtain ⟨st, m⟩ := r
      have hst : st = .pending := hok.queue rfl _ _ hrow
      subst hst
      obtain ⟨-, hs, hn⟩ := hw.pending _ hrow
      exact ⟨within_open rfl nofun (covered_zero hmax hs hn) hw.distinct, trivial⟩

/-! Everyone else. -/

/-- A turn of someone else changes nothing an owner relies on, but may record a number the count covers. -/
theorem turn_beside_owner (h : Turn max deed L a L' a') (hok : Allowed deed L a) (hreq : deed ≠ .requeue)
    (ha : L.Budgeted max a) (hfree : ¬ a.Owning) {n : Nat} (hrow : L.row = some (.processing, n)) :
    L' = L ∨ ∃ k, k ≤ n ∧ L' = { L with numbers := k :: L.numbers } := by
  cases h with
  | create none new => exact absurd (none.symm.trans hrow) nofun
  | claim row takeable =>
    cases row.symm.trans hrow
    exact absurd takeable (by decide)
  | claimCut row takeable =>
    cases row.symm.trans hrow
    exact absurd takeable (by decide)
  | accept n => exact absurd (.owner n) hfree
  | refuse n => exact absurd (.owner n) hfree
  | note n => exact absurd (.refused n) hfree
  | settle hset => exact absurd (settling_cases hset).1 hfree
  | settleLost hset => exact absurd (settling_cases hset).1 hfree
  | record k =>
    obtain ⟨-, st, m, hrow', -, hk⟩ := ha
    cases hrow.symm.trans hrow'
    exact .inr ⟨k, hk (.inr rfl), rfl⟩
  | requeue => exact absurd rfl hreq
  | requeueLost => exact absurd rfl hok.answered
  | queue m => exact absurd (hok.queue rfl _ _ hrow) nofun
  | _ => exact .inl rfl

theorem spent_record {n k : Nat} (h : L.Spent max n) (hk : k ≤ n) :
    Ledger.Spent max { L with numbers := k :: L.numbers } n :=
  ⟨h.room, h.sent, fun j hj => (List.mem_cons.mp hj).elim (fun h => h ▸ hk) (h.recorded j)⟩

theorem budgeted_record {n k : Nat} (hb : L.Budgeted max b) (hbo : b.Owning) (hrow : L.row = some (.processing, n))
    (hk : k ≤ n) : Ledger.Budgeted max { L with numbers := k :: L.numbers } b := by
  cases hbo with
  | owner m =>
    obtain ⟨hrow', hc⟩ := hb
    cases hrow.symm.trans hrow'
    exact ⟨hrow, hc.room, hc.sent, (spent_record hc.spent hk).recorded⟩
  | refused m =>
    obtain ⟨hrow', hs⟩ := hb
    cases hrow.symm.trans hrow'
    exact ⟨hrow, spent_record hs hk⟩
  | noted m => exact hb
  | accepted m =>
    obtain ⟨hrow', hs⟩ := hb
    cases hrow.symm.trans hrow'
    exact ⟨hrow, spent_record hs hk⟩

/-- Nor does it record a number that someone else has still to record. -/
theorem turn_beside_recorder {k : Nat} (h : Turn max deed L a L' a') (hok : Allowed deed L a)
    (hreq : deed ≠ .requeue) (ha : L.Budgeted max a) (hb : L.Unrecorded k) (hab : a ≠ .recorder k) :
    L'.Unrecorded k ∧ a' ≠ .recorder k := by
  obtain ⟨hnew, st, n, hrow, hp, hk⟩ := hb
  have hsettled : ∀ {a' r}, Settling max a r a' → Ledger.Unrecorded { L with row := L.row.map fun _ => r } k ∧
      a' ≠ .recorder k := by
    intro a' r hset
    obtain ⟨m, hm⟩ := budgeted_row ha (settling_cases hset).1
    cases hrow.symm.trans hm
    have hle : k ≤ n := hk (.inr rfl)
    rw [hrow]
    cases hset with
    | noProvider m => exact ⟨⟨hnew, _, _, rfl, nofun, fun h => absurd h (by decide)⟩, nofun⟩
    | giveUp m => exact ⟨⟨hnew, _, _, rfl, nofun, fun h => absurd h (by decide)⟩, nofun⟩
    | @retry m more =>
      cases hrow.symm.trans ha.1
      refine ⟨⟨hnew, _, _, rfl, nofun, fun _ => Nat.le_succ_of_le hle⟩, fun h => ?_⟩
      cases h
      omega
    | succeed m =>
      cases hrow.symm.trans ha.1
      refine ⟨⟨hnew, _, _, rfl, nofun, fun h => absurd h (by decide)⟩, fun h => ?_⟩
      cases h
      omega
  cases h with
  | idle => exact ⟨⟨hnew, st, n, hrow, hp, hk⟩, hab⟩
  | create none new => exact absurd (none.symm.trans hrow) nofun
  | @claim _ st' m m' row takeable =>
    cases hrow.symm.trans row
    have hle := hok.claim rfl _ _ _ rfl row
    exact ⟨⟨hnew, _, _, rfl, nofun, fun _ => Nat.le_trans (hk (.inl takeable)) hle⟩, nofun⟩
  | claimCut row takeable => exact absurd (hok.cut rfl) nofun
  | note m =>
    cases hrow.symm.trans ha.1
    have hle : k ≤ n := hk (.inr rfl)
    refine ⟨⟨fun h => ?_, _, _, hrow, hp, hk⟩, nofun⟩
    rcases List.mem_cons.mp h with h | h
    · omega
    · exact hnew h
  | settle hset => exact hsettled hset
  | settleLost hset => exact ⟨(hsettled hset).1, nofun⟩
  | record j =>
    refine ⟨⟨fun h => ?_, _, _, hrow, hp, hk⟩, nofun⟩
    rcases List.mem_cons.mp h with h | h
    · exact hab (h ▸ rfl)
    · exact hnew h
  | requeue => exact absurd rfl hreq
  | requeueLost => exact absurd rfl hok.answered
  | queue m => exact absurd (hok.queue rfl _ _ hrow) hp
  | _ => exact ⟨⟨hnew, st, n, hrow, hp, hk⟩, nofun⟩

/-- A turn keeps everyone else's part, and leaves its caller distinct from them. -/
theorem budget_others (h : Turn max deed L a L' a') (hok : Allowed deed L a)
    (hreq : deed = .requeue → ¬ b.Dispatching) (ha : L.Budgeted max a) (hb : L.Budgeted max b) (hab : Distinct a b) :
    L'.Budgeted max b ∧ Distinct a' b := by
  by_cases hbo : b.Owning
  · obtain ⟨n, hrow⟩ := budgeted_row hb hbo
    have hfree : ¬ a.Owning := fun ha => hab.1 ⟨ha, hbo⟩
    have hreq' : deed ≠ .requeue := fun h => hreq h (.inl hbo)
    refine ⟨?_, fun ⟨ha', _⟩ => ?_, fun k ⟨_, hk⟩ => ?_⟩
    · rcases turn_beside_owner h hok hreq' ha hfree hrow with rfl | ⟨k, hk, rfl⟩
      · exact hb
      · exact budgeted_record hb hbo hrow hk
    · rcases owning_of_turn h ha' with ha | ⟨st, m, hrow', hst⟩
      · exact hfree ha
      · cases hrow.symm.trans hrow'
        exact absurd hst (by decide)
    · rw [hk] at hbo
      cases hbo
  · by_cases hbr : ∃ k, b = .recorder k
    · obtain ⟨k, rfl⟩ := hbr
      have hreq' : deed ≠ .requeue := fun h => hreq h (.inr ⟨k, rfl⟩)
      obtain ⟨hb', hne⟩ := turn_beside_recorder h hok hreq' ha hb fun h => hab.2 k ⟨h, rfl⟩
      refine ⟨hb', fun h => hbo h.2, fun j ⟨hj, hk⟩ => ?_⟩
      cases hk
      exact hne hj
    · refine ⟨?_, fun h => hbo h.2, fun j hj => hbr ⟨j, hj.2⟩⟩
      cases b with
      | owner n => exact absurd (.owner n) hbo
      | refused n => exact absurd (.refused n) hbo
      | noted n => exact absurd (.noted n) hbo
      | accepted n => exact absurd (.accepted n) hbo
      | recorder k => exact absurd ⟨k, rfl⟩ hbr
      | _ => exact hb

/-- The stored count goes down only where a replay begins a new budget. -/
theorem count_mono (h : Turn max deed L a L' a') (hok : Allowed deed L a) (hreq : deed ≠ .requeue)
    (ha : L.Budgeted max a) (hw : L.Within max) {st st' : Status} {n n' : Nat} (hrow : L.row = some (st, n))
    (hrow' : L'.row = some (st', n')) : n ≤ n' := by
  have hsettled : ∀ {a' r}, Settling max a r a' → (L.row.map fun _ => r) = some (st', n') → n ≤ n' := by
    intro a' r hset hr
    rw [hrow] at hr
    cases hr
    cases hset with
    | noProvider m =>
      cases hrow.symm.trans ha.1
      exact Nat.le_refl _
    | giveUp m =>
      cases hrow.symm.trans ha.1
      exact Nat.le_refl _
    | retry more =>
      cases hrow.symm.trans ha.1
      exact Nat.le_succ _
    | succeed m =>
      cases hrow.symm.trans ha.1
      exact Nat.le_refl _
  cases h with
  | create none new => exact absurd (none.symm.trans hrow) nofun
  | claim row takeable =>
    cases hrow.symm.trans row
    cases hrow'
    exact hok.claim rfl _ _ _ rfl row
  | claimCut row takeable => exact absurd (hok.cut rfl) nofun
  | settle hset => exact hsettled hset hrow'
  | settleLost hset => exact hsettled hset hrow'
  | requeue => exact absurd rfl hreq
  | requeueLost => exact absurd rfl hok.answered
  | queue m =>
    have hst := hok.queue rfl _ _ hrow
    subst hst
    rw [(hw.pending _ hrow).1]
    exact Nat.zero_le _
  | _ =>
    cases hrow.symm.trans hrow'
    exact Nat.le_refl _

end GoCourier
