import GoCourier.Ledger.Turn

/- Who owns a delivery. Nothing but the turn of a replay or of the scheduler can take a
   delivery from its owner, and those two are harmless while they find it idle (`Mild`).
   Under that condition an owner is alone, the row says processing as long as it owns,
   at most one send is ever accepted, and the status moves along the lifecycle (`owned_turn`, `owned_others`, `turn_lifecycle`).

   With one replay and one tick at a time the condition takes care of itself: what a
   replay or a tick has read is still there when it writes (`fresh_turn`, `fresh_others`). -/
namespace GoCourier

open Interleave

/-- The moves of a delivery between statuses. -/
inductive Lifecycle : Status → Status → Prop where
  | release : Lifecycle .pending .queued
  | take {st : Status} (h : st.Takeable) : Lifecycle st .processing
  | finish {st : Status} (h : st = .succeeded ∨ st = .retrying ∨ st = .dlq) : Lifecycle .processing st
  | replay {st : Status} (h : st = .dlq ∨ st = .failed) : Lifecycle st .queued

/-- No dispatch is at work on the delivery, has failed and will take it up again, or has delivered it. -/
def Status.Idle (st : Status) : Prop := st = .pending ∨ st = .queued ∨ st = .dlq ∨ st = .failed

instance (st : Status) : Decidable st.Idle := inferInstanceAs (Decidable (_ ∨ _ ∨ _ ∨ _))

/-- A replay or a tick that writes finds an idle delivery. -/
def Mild (deed : Deed) (L : Ledger) : Prop :=
  deed = .requeue ∨ deed = .requeueLost ∨ deed = .queue → ∀ st n, L.row = some (st, n) → st.Idle

/-- The part about the row: one accepted send at most, and then the delivery is not for sending. -/
structure Ledger.Sound (L : Ledger) : Prop where
  once : L.accepted ≤ 1
  kept : L.accepted = 1 → ∃ n, L.row = some (.succeeded, n) ∨ L.row = some (.processing, n)

/-- The part about one place: an owner's row says processing. -/
def Ledger.Owned (L : Ledger) : Stance → Prop
  | .owner n => L.row = some (.processing, n) ∧ L.accepted = 0
  | .refused n => L.row = some (.processing, n) ∧ L.accepted = 0
  | .noted n => L.row = some (.processing, n) ∧ L.accepted = 0
  | .accepted n => L.row = some (.processing, n)
  | _ => True

/-- The part about two places: not both own. -/
def Apart (a b : Stance) : Prop := ¬ (a.Owning ∧ b.Owning)

variable {max : Int} {deed : Deed} {L L' : Ledger} {a a' b : Stance}

theorem owned_row (h : L.Owned a) (ho : a.Owning) : ∃ n, L.row = some (.processing, n) := by
  cases ho with
  | owner n => exact ⟨n, h.1⟩
  | refused n => exact ⟨n, h.1⟩
  | noted n => exact ⟨n, h.1⟩
  | accepted n => exact ⟨n, h⟩

theorem owned_of_not_owning (h : ¬ a.Owning) : L.Owned a := by
  cases a with
  | owner n => exact absurd (.owner n) h
  | refused n => exact absurd (.refused n) h
  | noted n => exact absurd (.noted n) h
  | accepted n => exact absurd (.accepted n) h
  | _ => trivial

/-- What an owner relies on. -/
theorem owned_congr (h : L.Owned a) (hrow : L'.row = L.row) (hacc : L'.accepted = L.accepted) : L'.Owned a := by
  cases a with
  | owner n => exact ⟨hrow.trans h.1, hacc.trans h.2⟩
  | refused n => exact ⟨hrow.trans h.1, hacc.trans h.2⟩
  | noted n => exact ⟨hrow.trans h.1, hacc.trans h.2⟩
  | accepted n => exact hrow.trans h
  | _ => trivial

theorem sound_congr (h : L.Sound) (hrow : L'.row = L.row) (hacc : L'.accepted = L.accepted) : L'.Sound := by
  refine ⟨hacc ▸ h.once, fun h1 => ?_⟩
  rw [hrow]
  exact h.kept (hacc ▸ h1)

/-- A row whose status is no success and no processing has seen no accepted send. -/
theorem sound_none {st : Status} {n : Nat} (h : L.Sound) (hrow : L.row = some (st, n))
    (hst : st ≠ .succeeded ∧ st ≠ .processing) : L.accepted = 0 := by
  by_contra hne
  have h1 : L.accepted = 1 := by
    have := h.once
    omega
  obtain ⟨m, hm⟩ := h.kept h1
  rcases hm with hm | hm <;> rw [hrow] at hm <;> cases hm
  · exact hst.1 rfl
  · exact hst.2 rfl

theorem sound_of_none (h : L.accepted = 0) : L.Sound :=
  ⟨by omega, fun h1 => by omega⟩

theorem settling_cases {r : Status × Nat} (h : Settling max a r a') :
    a.Owning ∧ ¬ a'.Owning ∧ (r.1 = .succeeded ∨ r.1 = .retrying ∨ r.1 = .dlq) := by
  cases h with
  | noProvider n => exact ⟨.owner n, nofun, .inr (.inr rfl)⟩
  | giveUp n => exact ⟨.noted n, nofun, .inr (.inr rfl)⟩
  | retry more => exact ⟨.refused _, nofun, .inr (.inl rfl)⟩
  | succeed n => exact ⟨.accepted n, nofun, .inl rfl⟩

/-- Only a claim makes an owner. -/
theorem owning_of_turn (h : Turn max deed L a L' a') (ha' : a'.Owning) :
    a.Owning ∨ ∃ st n, L.row = some (st, n) ∧ st.Takeable := by
  cases h with
  | idle => exact .inl ha'
  | claim row takeable => exact .inr ⟨_, _, row, takeable⟩
  | accept n => exact .inl (.owner n)
  | refuse n => exact .inl (.owner n)
  | block n => exact .inl (.owner n)
  | note n => exact .inl (.refused n)
  | settle hset => exact absurd ha' (settling_cases hset).2.1
  | _ => cases ha'

/-- A settled row: a success keeps the accepted send, anything else had none. -/
theorem sound_settled {r : Status × Nat} (hset : Settling max a r a') (hs : L.Sound) (ho : L.Owned a) :
    Ledger.Sound { L with row := L.row.map fun _ => r } := by
  cases hset with
  | noProvider n => exact sound_of_none ho.2
  | giveUp n => exact sound_of_none ho.2
  | retry more => exact sound_of_none ho.2
  | succeed n =>
    refine ⟨hs.once, fun _ => ⟨n, .inl ?_⟩⟩
    rw [show L.row = some (.processing, n) from ho]
    rfl

theorem sound_idle (r : Status × Nat) (hs : L.Sound) (hm : ∀ st n, L.row = some (st, n) → st.Idle) :
    Ledger.Sound { L with row := L.row.map fun _ => r } := by
  refine ⟨hs.once, fun h1 => ?_⟩
  obtain ⟨n, hn⟩ := hs.kept h1
  rcases hn with hn | hn
  · exact absurd (hm _ _ hn) (by decide)
  · exact absurd (hm _ _ hn) (by decide)

/-- A turn keeps the caller's own part. -/
theorem owned_turn (h : Turn max deed L a L' a') (hmild : Mild deed L) (hs : L.Sound) (ho : L.Owned a) :
    L'.Sound ∧ L'.Owned a' := by
  cases h with
  | idle => exact ⟨hs, ho⟩
  | leave free => exact ⟨hs, trivial⟩
  | cut owning => exact ⟨hs, trivial⟩
  | create none new =>
    refine ⟨⟨hs.once, fun h1 => ?_⟩, trivial⟩
    obtain ⟨n, hn⟩ := hs.kept h1
    rcases hn with hn | hn <;> rw [none] at hn <;> cases hn
  | look row takeable => exact ⟨hs, trivial⟩
  | lookReplay row dead => exact ⟨hs, trivial⟩
  | lookTick row => exact ⟨hs, trivial⟩
  | @claim _ st n m row takeable =>
    have hnone : L.accepted = 0 := sound_none hs row (by rcases takeable with rfl | rfl <;> decide)
    exact ⟨sound_of_none hnone, rfl, hnone⟩
  | claimCut row takeable =>
    have hnone : L.accepted = 0 := sound_none hs row (by rcases takeable with rfl | rfl <;> decide)
    exact ⟨sound_of_none hnone, trivial⟩
  | accept n => exact ⟨⟨by simp [ho.2], fun _ => ⟨n, .inr ho.1⟩⟩, ho.1⟩
  | refuse n => exact ⟨sound_congr hs rfl rfl, ho⟩
  | block n => exact ⟨hs, ho⟩
  | note n => exact ⟨sound_congr hs rfl rfl, ho⟩
  | settle hset => exact ⟨sound_settled hset hs ho, owned_of_not_owning (settling_cases hset).2.1⟩
  | settleLost hset => exact ⟨sound_settled hset hs ho, trivial⟩
  | record k => exact ⟨sound_congr hs rfl rfl, trivial⟩
  | requeue => exact ⟨sound_congr (sound_idle (.queued, 0) hs (hmild (.inl rfl))) rfl rfl, trivial⟩
  | requeueLost => exact ⟨sound_idle _ hs (hmild (.inr (.inl rfl))), trivial⟩
  | queue n => exact ⟨sound_idle _ hs (hmild (.inr (.inr rfl))), trivial⟩

/-- An owner's row is left alone by everyone who does not own. -/
theorem owned_stays (ho : L.Owned b) (h : ∀ n, L.row = some (.processing, n) → L'.row = L.row)
    (hacc : L'.accepted = L.accepted) : L'.Owned b := by
  by_cases hb : b.Owning
  · obtain ⟨n, hn⟩ := owned_row ho hb
    exact owned_congr ho (h n hn) hacc
  · exact owned_of_not_owning hb

/-- A turn keeps everyone else's part. -/
theorem owned_others (h : Turn max deed L a L' a') (hmild : Mild deed L) (ho : L.Owned b) (hab : Apart a b) :
    L'.Owned b ∧ Apart a' b := by
  have hfree : a.Owning → ¬ b.Owning := fun ha hb => hab ⟨ha, hb⟩
  have hidle : (∀ st n, L.row = some (st, n) → st.Idle) → ∀ n, L.row ≠ some (.processing, n) :=
    fun hm n hn => absurd (hm _ n hn) (by decide)
  cases h with
  | idle => exact ⟨ho, hab⟩
  | leave free => exact ⟨ho, nofun⟩
  | cut owning => exact ⟨ho, nofun⟩
  | create none new => exact ⟨owned_stays ho (fun n hn => by rw [none] at hn; cases hn) rfl, nofun⟩
  | look row takeable => exact ⟨ho, nofun⟩
  | lookReplay row dead => exact ⟨ho, nofun⟩
  | lookTick row => exact ⟨ho, nofun⟩
  | claim row takeable =>
    have hb : ¬ b.Owning := fun hb => by
      obtain ⟨n, hn⟩ := owned_row ho hb
      rw [row] at hn
      cases hn
      rcases takeable with h | h <;> cases h
    exact ⟨owned_of_not_owning hb, fun h => hb h.2⟩
  | claimCut row takeable =>
    refine ⟨owned_stays ho (fun n hn => ?_) rfl, nofun⟩
    rw [row] at hn
    cases hn
    rcases takeable with h | h <;> cases h
  | accept n => exact ⟨owned_of_not_owning (hfree (.owner n)), fun h => hfree (.owner n) h.2⟩
  | refuse n => exact ⟨owned_congr ho rfl rfl, fun h => hfree (.owner n) h.2⟩
  | block n => exact ⟨ho, fun h => hfree (.owner n) h.2⟩
  | note n => exact ⟨owned_congr ho rfl rfl, fun h => hfree (.refused n) h.2⟩
  | settle hset =>
    obtain ⟨hown, hfree', -⟩ := settling_cases hset
    exact ⟨owned_of_not_owning (hfree hown), fun h => hfree' h.1⟩
  | settleLost hset => exact ⟨owned_of_not_owning (hfree (settling_cases hset).1), nofun⟩
  | record k => exact ⟨owned_congr ho rfl rfl, nofun⟩
  | requeue => exact ⟨owned_stays ho (fun n hn => absurd hn (hidle (hmild (.inl rfl)) n)) rfl, nofun⟩
  | requeueLost => exact ⟨owned_stays ho (fun n hn => absurd hn (hidle (hmild (.inr (.inl rfl))) n)) rfl, nofun⟩
  | queue n => exact ⟨owned_stays ho (fun m hm => absurd hm (hidle (hmild (.inr (.inr rfl))) m)) rfl, nofun⟩

/-- The row stays, and its status moves along the lifecycle. -/
theorem turn_lifecycle (h : Turn max deed L a L' a') (hmild : Mild deed L) (ho : L.Owned a) {st : Status} {n : Nat}
    (hrow : L.row = some (st, n)) :
    ∃ st' n', L'.row = some (st', n') ∧ (st' = st ∨ Lifecycle st st') := by
  have hqueued : st.Idle → .queued = st ∨ Lifecycle st .queued := by
    rintro (rfl | rfl | h)
    · exact .inr .release
    · exact .inl rfl
    · exact .inr (.replay h)
  have hfinish : ∀ {a' : Stance} {r : Status × Nat}, Settling max a r a' → Lifecycle st r.1 := by
    intro a' r hset
    obtain ⟨hown, -, hr⟩ := settling_cases hset
    obtain ⟨m, hm⟩ := owned_row ho hown
    rw [hm] at hrow
    cases hrow
    exact .finish hr
  cases h with
  | create none new =>
    rw [none] at hrow
    cases hrow
  | claim row takeable =>
    rw [row] at hrow
    cases hrow
    exact ⟨_, _, rfl, .inr (.take takeable)⟩
  | claimCut row takeable =>
    rw [row] at hrow
    cases hrow
    exact ⟨_, _, rfl, .inr (.take takeable)⟩
  | @settle _ _ _ r hset => exact ⟨r.1, r.2, by rw [hrow]; rfl, .inr (hfinish hset)⟩
  | @settleLost _ _ _ r hset => exact ⟨r.1, r.2, by rw [hrow]; rfl, .inr (hfinish hset)⟩
  | requeue => exact ⟨.queued, 0, by rw [hrow]; rfl, hqueued (hmild (.inl rfl) _ _ hrow)⟩
  | requeueLost => exact ⟨.queued, 0, by rw [hrow]; rfl, hqueued (hmild (.inr (.inl rfl)) _ _ hrow)⟩
  | queue m => exact ⟨.queued, m, by rw [hrow]; rfl, hqueued (hmild (.inr (.inr rfl)) _ _ hrow)⟩
  | _ => exact ⟨st, n, hrow, .inl rfl⟩

/-! One replay and one tick at a time. -/

/-- What a replay or a tick has read is still there. -/
def Ledger.Fresh (L : Ledger) : Stance → Prop
  | .replayer => ∃ st n, L.row = some (st, n) ∧ (st = .dlq ∨ st = .failed)
  | .ticker n => L.row = some (.pending, n)
  | _ => True

/-- Not two replays, and not two ticks. -/
def Alone (a b : Stance) : Prop :=
  ¬ (a = .replayer ∧ b = .replayer) ∧ ∀ n m, ¬ (a = .ticker n ∧ b = .ticker m)

theorem mild_of_fresh (h : Turn max deed L a L' a') (hf : L.Fresh a) : Mild deed L := by
  have hreplayer : L.Fresh .replayer → ∀ st n, L.row = some (st, n) → st.Idle := by
    rintro ⟨st', n', hrow', hst⟩ st n hrow
    rw [hrow] at hrow'
    cases hrow'
    rcases hst with rfl | rfl <;> decide
  intro hdeed
  cases h with
  | requeue => exact hreplayer hf
  | requeueLost => exact hreplayer hf
  | queue m =>
    intro st n hrow
    have hf : L.row = some (.pending, m) := hf
    rw [hrow] at hf
    cases hf
    decide
  | _ => rcases hdeed with h | h | h <;> cases h

theorem fresh_congr (h : L.Fresh b) (hrow : L'.row = L.row) : L'.Fresh b := by
  cases b with
  | replayer =>
    obtain ⟨st, n, hst⟩ := h
    exact ⟨st, n, by rw [hrow]; exact hst⟩
  | ticker n => exact hrow.trans h
  | _ => trivial

/-- What was read is neither processing nor to be dispatched. -/
theorem fresh_row (h : L.Fresh b) : (b = .replayer ∨ ∃ n, b = .ticker n) →
    ∃ st n, L.row = some (st, n) ∧ ¬ st.Takeable ∧ st ≠ .processing := by
  rintro (rfl | ⟨n, rfl⟩)
  · obtain ⟨st, n, hrow, hst⟩ := h
    exact ⟨st, n, hrow, by rcases hst with rfl | rfl <;> decide⟩
  · exact ⟨.pending, n, h, by decide⟩

theorem fresh_of_other (h : ¬ (b = .replayer ∨ ∃ n, b = .ticker n)) : L.Fresh b := by
  cases b with
  | replayer => exact absurd (.inl rfl) h
  | ticker n => exact absurd (.inr ⟨n, rfl⟩) h
  | _ => trivial

theorem fresh_turn (h : Turn max deed L a L' a') (hf : L.Fresh a) : L'.Fresh a' := by
  cases h with
  | idle => exact hf
  | lookReplay row dead => exact ⟨_, _, row, dead⟩
  | lookTick row => exact row
  | settle hset => cases hset <;> trivial
  | _ => trivial

theorem fresh_others (h : Turn max deed L a L' a') (ho : L.Owned a) (hf : L.Fresh a) (hb : L.Fresh b)
    (hab : Alone a b) : L'.Fresh b := by
  by_cases hb' : b = .replayer ∨ ∃ n, b = .ticker n
  · obtain ⟨st, n, hrow, hst, hproc⟩ := fresh_row hb hb'
    have howned : a.Owning → False := fun ha => by
      obtain ⟨m, hm⟩ := owned_row ho ha
      rw [hrow] at hm
      cases hm
      exact hproc rfl
    -- two of a kind are never about, and the two kinds read different statuses
    have hwrite : (a = .replayer ∨ ∃ n, a = .ticker n) → False := by
      rintro (rfl | ⟨m, rfl⟩)
      · rcases hb' with rfl | ⟨n', rfl⟩
        · exact hab.1 ⟨rfl, rfl⟩
        · obtain ⟨st₁, n₁, hrow₁, hst₁⟩ := hf
          have hpend : L.row = some (.pending, n') := hb
          rw [hrow₁] at hpend
          cases hpend
          rcases hst₁ with h | h <;> cases h
      · rcases hb' with rfl | ⟨n', rfl⟩
        · obtain ⟨st₁, n₁, hrow₁, hst₁⟩ := hb
          have hpend : L.row = some (.pending, m) := hf
          rw [hrow₁] at hpend
          cases hpend
          rcases hst₁ with h | h <;> cases h
        · exact hab.2 m n' ⟨rfl, rfl⟩
    have hclaim : ∀ {st' m}, L.row = some (st', m) → st'.Takeable → False := fun hr ht => by
      rw [hrow] at hr
      cases hr
      exact hst ht
    cases h with
    | create none new =>
      rw [none] at hrow
      cases hrow
    | claim row takeable => exact (hclaim row takeable).elim
    | claimCut row takeable => exact (hclaim row takeable).elim
    | settle hset => exact (howned (settling_cases hset).1).elim
    | settleLost hset => exact (howned (settling_cases hset).1).elim
    | requeue => exact (hwrite (.inl rfl)).elim
    | requeueLost => exact (hwrite (.inl rfl)).elim
    | queue m => exact (hwrite (.inr ⟨m, rfl⟩)).elim
    | _ => exact fresh_congr hb rfl
  · exact fresh_of_other hb'

end GoCourier
