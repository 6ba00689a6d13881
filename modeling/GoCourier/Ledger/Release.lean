import GoCourier.Ledger.Places

/- A delivery before and after the scheduler has released it. While it is pending
   nobody but a scheduler tick can stand towards it, for everything else starts from a
   status that comes later; and nothing ever makes a delivery pending again. So with
   one tick at a time a tick that has read a pending delivery still finds it so. -/
namespace GoCourier

open Interleave

/-- The row exists and is not pending. -/
def Ledger.Released (L : Ledger) : Prop := ∃ st n, L.row = some (st, n) ∧ st ≠ .pending

/-- What a stance says of the row: a tick has seen it pending, everyone else released. -/
def Ledger.Early (L : Ledger) : Stance → Prop
  | .away => True
  | .ticker n => L.row = some (.pending, n)
  | _ => L.Released

section
variable {max : Int} {deed : Deed} {L L' : Ledger} {a a' b : Stance}

theorem released_map {L : Ledger} {r : Status × Nat} (h : L.row ≠ none) (hr : r.1 ≠ .pending) :
    Ledger.Released { L with row := L.row.map fun _ => r } := by
  obtain ⟨q, hq⟩ := Option.ne_none_iff_exists'.mp h
  exact ⟨r.1, r.2, by rw [hq]; rfl, hr⟩

theorem settled_ne_pending {r : Status × Nat} (h : Settling max a r a') : r.1 ≠ .pending := by
  cases h <;> exact nofun

theorem takeable_ne_pending {st : Status} (h : st.Takeable) : st ≠ .pending := by
  intro hst
  rw [hst] at h
  rcases h with h | h <;> cases h

theorem released_ne_none (h : L.Released) : L.row ≠ none := by
  obtain ⟨st, n, hrow, -⟩ := h
  rw [hrow]
  exact nofun

/-- A released delivery stays released, whoever writes it. -/
theorem released_turn (h : Turn max deed L a L' a') (hL : L.Released) : L'.Released := by
  have hne := released_ne_none hL
  cases h with
  | create none new => exact absurd none hne
  | claim row takeable => exact ⟨_, _, rfl, nofun⟩
  | claimCut row takeable => exact ⟨_, _, rfl, nofun⟩
  | settle hset => exact released_map hne (settled_ne_pending hset)
  | settleLost hset => exact released_map hne (settled_ne_pending hset)
  | requeue =>
    obtain ⟨q, hq⟩ := Option.ne_none_iff_exists'.mp hne
    exact ⟨.queued, 0, by rw [hq]; rfl, nofun⟩
  | requeueLost => exact released_map hne nofun
  | queue n => exact released_map hne nofun
  | _ => exact hL

/-- Only a delivery that is pending, or new, is pending after a turn. -/
theorem pending_turn (h : Turn max deed L a L' a') {n : Nat} (hrow : L'.row = some (.pending, n)) :
    L.row = some (.pending, n) ∨ deed = .create ∧ L.row = none := by
  have hmap : ∀ r : Status × Nat, r.1 ≠ .pending → (L.row.map fun _ => r) = some (.pending, n) → False := by
    intro r hr hr'
    obtain ⟨_, _, rfl⟩ := Option.map_eq_some_iff.mp hr'
    exact hr rfl
  cases h with
  | create none new => exact .inr ⟨rfl, none⟩
  | claim row takeable => cases hrow
  | claimCut row takeable => cases hrow
  | settle hset => exact (hmap _ (settled_ne_pending hset) hrow).elim
  | settleLost hset => exact (hmap _ (settled_ne_pending hset) hrow).elim
  | requeue => exact (hmap (.queued, 0) nofun hrow).elim
  | requeueLost => exact (hmap (.queued, 0) nofun hrow).elim
  | queue m => exact (hmap (.queued, m) nofun hrow).elim
  | _ => exact .inl hrow

/-- A turn keeps what its caller has seen. -/
theorem early_turn (h : Turn max deed L a L' a') (ha : L.Early a) : L'.Early a' := by
  cases h with
  | idle => exact ha
  | look row takeable => exact ⟨_, _, row, takeable_ne_pending takeable⟩
  | lookReplay row dead => exact ⟨_, _, row, by rcases dead with rfl | rfl <;> exact nofun⟩
  | lookTick row => exact row
  | claim row takeable => exact ⟨_, _, rfl, nofun⟩
  | accept n => exact ha
  | refuse n => exact ha
  | block n => exact ha
  | note n => exact ha
  | settle hset =>
    have hL : L.Released := by cases hset <;> exact ha
    cases hset with
    | noProvider n => trivial
    | giveUp n => trivial
    | retry more => exact released_map (released_ne_none hL) nofun
    | succeed n => exact released_map (released_ne_none hL) nofun
  | _ => trivial

/-- A turn keeps what the others have seen, if no two of them are ticks. -/
theorem early_others (h : Turn max deed L a L' a') (ha : L.Early a) (hb : L.Early b)
    (hab : ∀ n m, ¬ (a = .ticker n ∧ b = .ticker m)) : L'.Early b := by
  cases b with
  | away => trivial
  | ticker m =>
    -- a pending row is written by ticks only, and the caller is none
    have hrow : L.row = some (.pending, m) := hb
    have hfree : L.Released → False := by
      intro hL
      obtain ⟨st, n, hst, hne⟩ := hL
      rw [hrow, Option.some.injEq, Prod.mk.injEq] at hst
      exact hne hst.1.symm
    cases h with
    | create none new => rw [hrow] at none; cases none
    | claim row takeable => exact (hfree ⟨_, _, row, takeable_ne_pending takeable⟩).elim
    | claimCut row takeable => exact (hfree ⟨_, _, row, takeable_ne_pending takeable⟩).elim
    | settle hset => exact (hfree (by cases hset <;> exact ha)).elim
    | settleLost hset => exact (hfree (by cases hset <;> exact ha)).elim
    | requeue => exact (hfree ha).elim
    | requeueLost => exact (hfree ha).elim
    | queue n => exact absurd ⟨rfl, rfl⟩ (hab n m)
    | _ => exact hb
  | _ => exact released_turn h hb

end

section
variable {p : Params} {s s' : System} {l : Act} {x : String}

/-- With one tick at a time, no two threads stand as ticks. -/
theorem one_ticker (hc : (machine p).Conforms (protocol p) s) (hS : Machine.AtMostOne (· = .processDue) s) {t u : Nat}
    (htu : t ≠ u) (n m : Nat) :
    ¬ (threadStance x (s.threads t) = .ticker n ∧ threadStance x (s.threads u) = .ticker m) := by
  intro h
  obtain ⟨th, hth, hk, hl⟩ := ticker_thread hc h.1
  obtain ⟨th', hth', hk', hl'⟩ := ticker_thread hc h.2
  exact htu (hS t u th th' hth hth' hk hk' hl hl')

/-- What every thread has seen of `x`. -/
def EarlySeen (x : String) (s : System) : Prop :=
  ∀ t, (ledger x s.state s.hist).Early (threadStance x (s.threads t))

/-- Where no two threads stand as ticks, a step keeps what every thread has seen. -/
theorem earlySeen_apart (hc : (machine p).Conforms (protocol p) s)
    (hone : ∀ {t u : Nat}, t ≠ u → ∀ n m,
      ¬ (threadStance x (s.threads t) = .ticker n ∧ threadStance x (s.threads u) = .ticker m))
    (h : EarlySeen x s) (hs : (machine p).Step s l s') : EarlySeen x s' := by
  obtain ⟨t, deed, L, a, hview, hturn, -⟩ := view_step x hc hs
  intro u
  show (System.view x s').shared.Early ((System.view x s').places u)
  rw [hview]
  by_cases hu : u = t
  · subst hu
    rw [Board.turn_self]
    exact early_turn hturn (h u)
  · rw [Board.turn_other _ _ _ hu]
    exact early_others hturn (h t) (h u) (hone (Ne.symm hu))

theorem earlySeen_step (hc : (machine p).Conforms (protocol p) s) (hS : Machine.AtMostOne (· = .processDue) s)
    (h : EarlySeen x s) (hs : (machine p).Step s l s') : EarlySeen x s' :=
  earlySeen_apart hc (one_ticker hc hS) h hs

/-- The row of `x` exists and is not pending. -/
def Tables.released (t : Tables) (x : String) : Prop := ∃ st n, t.row x = some (st, n) ∧ st ≠ .pending

theorem released_step (hc : (machine p).Conforms (protocol p) s) (h : s.state.db.released x)
    (hs : (machine p).Step s l s') : s'.state.db.released x := by
  obtain ⟨t, deed, L, a, hview, hturn, -⟩ := view_step x hc hs
  have hL : (System.view x s').shared = L := by rw [hview, Board.turn_shared]
  have hL' : L.Released := released_turn hturn h
  rw [← hL] at hL'
  exact hL'

theorem pending_step (hc : (machine p).Conforms (protocol p) s) (hs : (machine p).Step s l s') {n : Nat}
    (hrow : s'.state.db.row x = some (.pending, n)) :
    s.state.db.row x = some (.pending, n) ∨ s.state.db.row x = none := by
  obtain ⟨t, deed, L, a, hview, hturn, -⟩ := view_step x hc hs
  have hL : (System.view x s').shared = L := by rw [hview, Board.turn_shared]
  have hrow' : L.row = some (.pending, n) := by
    rw [← hL]
    exact hrow
  rcases pending_turn hturn hrow' with h | ⟨-, h⟩
  · exact .inl h
  · exact .inr h

end

end GoCourier
