import GoCourier.Ledger.Ownership
import GoCourier.Ledger.Places

/- Ownership over whole runs of the system. With one scheduler process and one replay
   of a delivery in flight, a dispatch that has taken a delivery is the only one, its
   row says processing until it writes again, at most one send of the delivery is
   ever accepted, and a succeeded delivery stays so: whatever crashes, fails or is
   answered late, and however many dispatches there are. -/
namespace GoCourier

open Interleave

section
variable {p : Params} {s s' : System} {l : Act} {x : String}

/-- Thread `t` is between its successful `UpdateIfStatus` of `x` and its next write of the row. -/
def Owns (x : String) (s : System) (t : Nat) : Prop := (threadStance x (s.threads t)).Owning

/-- The board's invariant without any condition on replays and ticks but `Mild`. -/
abbrev Held : Board Ledger Stance → Prop := Board.Holds Ledger.Sound Ledger.Owned Apart

theorem init_held (x : String) : Held (System.view x (System.init p)) where
  shared := ⟨by simp [System.view, System.init, ledger], fun h => by simp [System.view, System.init, ledger] at h⟩
  each _ := trivial
  pair _ _ _ := fun h => by cases h.1

/-- One turn of the board, where replays and ticks are mild. -/
theorem held_turn {max : Int} {deed : Deed} {b : Board Ledger Stance} {t : Nat} {L : Ledger} {a : Stance}
    (h : Held b) (ht : Turn max deed b.shared (b.places t) L a) (hmild : Mild deed b.shared) :
    Held (b.turn t L a) :=
  h.turn (owned_turn ht hmild h.shared (h.each t)) fun u hu ho hab _ => by
    obtain ⟨ho', hab'⟩ := owned_others ht hmild ho hab
    exact ⟨ho', hab', fun h => hab' h.symm⟩

/-! One replay and one tick at a time. -/

/-- With one tick and one replay of a delivery at a time, no two stand as such. -/
theorem alone_of_atMostOne (hc : (machine p).Conforms (protocol p) s)
    (hS : Machine.AtMostOne (· = .processDue) s) (hR : Machine.AtMostOne (· = .replay x) s) {t u : Nat} (htu : t ≠ u) :
    Alone (threadStance x (s.threads t)) (threadStance x (s.threads u)) := by
  refine ⟨fun ⟨h₁, h₂⟩ => htu ?_, fun n m ⟨h₁, h₂⟩ => htu ?_⟩
  · obtain ⟨th, hth, hk, hl⟩ := replayer_thread hc h₁
    obtain ⟨th', hth', hk', hl'⟩ := replayer_thread hc h₂
    exact hR t u th th' hth hth' hk hk' hl hl'
  · obtain ⟨th, hth, hk, hl⟩ := ticker_thread hc h₁
    obtain ⟨th', hth', hk', hl'⟩ := ticker_thread hc h₂
    exact hS t u th th' hth hth' hk hk' hl hl'

/-- The invariant of runs with one scheduler process and one replay of `x` at a time. -/
structure Sole (p : Params) (x : String) (s : System) : Prop where
  conforms : (machine p).Conforms (protocol p) s
  scheduler : Machine.AtMostOne (· = .processDue) s
  replay : Machine.AtMostOne (· = .replay x) s
  held : Held (System.view x s)
  fresh : ∀ t, (ledger x s.state s.hist).Fresh (threadStance x (s.threads t))

theorem init_sole (p : Params) (x : String) : Sole p x (System.init p) where
  conforms := init_conforms p
  scheduler _ _ _ _ h := by cases h
  replay _ _ _ _ h := by cases h
  held := init_held x
  fresh _ := trivial

theorem sole_step (h : Sole p x s) (hok : OneScheduler s l ∧ OneReplay s l) (hs : (machine p).Step s l s') :
    Sole p x s' := by
  obtain ⟨t, deed, L, a, hview, hturn, -⟩ := view_step x h.conforms hs
  have hmild : Mild deed (System.view x s).shared := mild_of_fresh hturn (h.fresh t)
  have hfresh : ∀ u, (System.view x s').shared.Fresh ((System.view x s').places u) := by
    intro u
    rw [hview]
    by_cases hu : u = t
    · subst hu
      rw [Board.turn_self]
      exact fresh_turn hturn (h.fresh u)
    · rw [Board.turn_other _ _ _ hu]
      exact fresh_others hturn (h.held.each t) (h.fresh t) (h.fresh u)
        (alone_of_atMostOne h.conforms h.scheduler h.replay (Ne.symm hu))
  exact {
    conforms := Machine.conforms_step h.conforms hs
    scheduler := Machine.atMostOne_step h.scheduler hok.1 hs
    replay := Machine.atMostOne_step h.replay (hok.2 x) hs
    held := hview ▸ held_turn h.held hturn hmild
    fresh := hfresh }

/-- In such a run the status of `x` moves along the lifecycle. -/
theorem sole_lifecycle (h : Sole p x s) (hs : (machine p).Step s l s') {st : Status} {n : Nat}
    (hrow : s.state.db.row x = some (st, n)) :
    ∃ st' n', s'.state.db.row x = some (st', n') ∧ (st' = st ∨ Lifecycle st st') := by
  obtain ⟨t, deed, L, a, hview, hturn, -⟩ := view_step x h.conforms hs
  have hL : (System.view x s').shared = L := by rw [hview, Board.turn_shared]
  have := turn_lifecycle hturn (mild_of_fresh hturn (h.fresh t)) (h.held.each t) hrow
  rwa [← hL] at this

theorem succeeded_step (h : Sole p x s) (hs : (machine p).Step s l s') {n : Nat}
    (hrow : s.state.db.row x = some (.succeeded, n)) : ∃ n', s'.state.db.row x = some (.succeeded, n') := by
  obtain ⟨st', n', hrow', hst⟩ := sole_lifecycle h hs hrow
  rcases hst with rfl | hst
  · exact ⟨n', hrow'⟩
  · cases hst with
    | take h => rcases h with h | h <;> cases h
    | replay h => rcases h with h | h <;> cases h

theorem reach_sole {s₀ : System} (h : Sole p x s₀)
    (hr : (machine p).Reach (fun s l => OneScheduler s l ∧ OneReplay s l) s₀ s) : Sole p x s :=
  hr.invariant h fun _ _ _ h hok hs => sole_step h hok hs

theorem reach_succeeded {s₀ : System} (h : Sole p x s₀) {n : Nat} (hrow : s₀.state.db.row x = some (.succeeded, n))
    (hr : (machine p).Reach (fun s l => OneScheduler s l ∧ OneReplay s l) s₀ s) :
    ∃ n', s.state.db.row x = some (.succeeded, n') := by
  induction hr with
  | refl => exact ⟨n, hrow⟩
  | step hr hok hs ih =>
    obtain ⟨n₁, hn₁⟩ := ih
    exact succeeded_step (reach_sole h hr) ((machine p).step_iff.mp hs) hn₁

/-- One owner at a time, processing while it owns, one accepted send, and success for good. -/
theorem dispatch_sole_owner (p : Params) (s : System) (x : String)
    (hr : (machine p).Reach (fun s l => OneScheduler s l ∧ OneReplay s l) (System.init p) s) :
    (∀ t u, Owns x s t → Owns x s u → t = u) ∧
      (∀ t, Owns x s t → ∃ n, s.state.db.row x = some (.processing, n)) ∧
      s.hist.countP (accepts x) ≤ 1 ∧
      ∀ n, s.state.db.row x = some (.succeeded, n) →
        ∀ s', (machine p).Reach (fun s l => OneScheduler s l ∧ OneReplay s l) s s' →
          ∃ n', s'.state.db.row x = some (.succeeded, n') := by
  have h : Sole p x s := reach_sole (init_sole p x) hr
  refine ⟨fun t u ht hu => ?_, fun t ht => owned_row (h.held.each t) ht, h.held.shared.once,
    fun n hn s' hr' => reach_succeeded h hn hr'⟩
  by_contra htu
  exact h.held.pair t u htu ⟨ht, hu⟩

/-- A run that starts neither a tick nor a replay meets the conditions on them. -/
theorem reach_of_startsNone {s₀ : System} {ls : List Act} (hr : (machine p).run s₀ ls = some s)
    (h : ls.all Act.startsNone = true) : (machine p).Reach (fun s l => OneScheduler s l ∧ OneReplay s l) s₀ s :=
  Machine.reach_of_run ls .refl (Machine.along_of_forall ls s₀ fun l hl _ _ =>
    have hnone := List.all_eq_true.mp h l hl
    ⟨oneScheduler_of_startsNone hnone, oneReplay_of_startsNone hnone⟩) hr

/-- Two dispatches read `d1` as queued, and the first of them takes it. -/
def raceForOne : List Act :=
  ingestCalls 0 "d1" ++ .start 1 (.dispatch 0 "d1") :: .start 2 (.dispatch 0 "d1") :: runs 1 1 ++ runs 2 1 ++ runs 1 3 ++
    [.call 1 (.uuid "a1")] ++ runs 2 2

/-- The first is the one owner, the second is done; the first goes on and sends, and success stays, whatever follows. -/
theorem dispatch_sole_owner_sample :
    ∃ s₁ s, (machine {}).run (System.init {}) raceForOne = some s₁ ∧ Owns "d1" s₁ 1 ∧ (∀ t, Owns "d1" s₁ t → t = 1) ∧
      (machine {}).run (System.init {}) (raceForOne ++ .call 1 (.verdict (.ok {})) :: runs 1 5) = some s ∧
      s.hist.countP (accepts "d1") = 1 ∧
      ∀ s', (machine {}).Reach (fun s l => OneScheduler s l ∧ OneReplay s l) s s' →
        ∃ n, s'.state.db.row "d1" = some (.succeeded, n) := by
  have hrun₁ : ((machine {}).run (System.init {}) raceForOne).map (fun s => threadStance "d1" (s.threads 1)) =
      some (.owner 0) := by
    decide +kernel
  have hrun : ((machine {}).run (System.init {}) (raceForOne ++ .call 1 (.verdict (.ok {})) :: runs 1 5)).map
      (fun s => (s.state.db.row "d1", s.hist.countP (accepts "d1"))) = some (some (.succeeded, 0), 1) := by
    decide +kernel
  obtain ⟨s₁, hs₁, hstance⟩ := Option.map_eq_some_iff.mp hrun₁
  obtain ⟨s, hs, hrow⟩ := Option.map_eq_some_iff.mp hrun
  obtain ⟨hrow, hacc⟩ := Prod.mk.inj hrow
  have howns : Owns "d1" s₁ 1 := by
    unfold Owns
    rw [hstance]
    exact .owner 0
  have h₁ := dispatch_sole_owner {} s₁ "d1" (reach_of_startsNone hs₁ (by decide +kernel))
  have h := dispatch_sole_owner {} s "d1" (reach_of_startsNone hs (by decide +kernel))
  exact ⟨s₁, s, hs₁, howns, fun t ht => h₁.1 t 1 ht howns, hs, hacc, h.2.2.2 0 hrow⟩

end

end GoCourier
