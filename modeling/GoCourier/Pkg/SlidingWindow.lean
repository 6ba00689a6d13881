import GoCourier.Pkg.Breaker

/- What the breaker is for: a gate that counts the failures of a sliding window. The gate
   below forgets no failure until a success, and looks at the window only when it decides.
   The breaker prunes its list whenever it records a failure. As long as the clock does not
   go back, what it has dropped lies outside every later window, so the two give the same
   answers. -/
namespace GoCourier

/-- A gate with the failures since the last success, all of them. -/
structure Gate where
  threshold : Int
  window : Duration
  cooldown : Duration
  history : List Time := []
  state : BreakerState := .closed
  openedAt : Time := 0

/-- The failures that count at `t`. -/
def inWindow (window : Duration) (t : Time) (failures : List Time) : List Time := failures.filter (t - window < ·)

namespace Gate

def allow (g : Gate) (t : Time) : Except Err Unit × Gate :=
  if g.state = .opened then
    if t - g.openedAt < g.cooldown then (.error errCircuitOpen, g) else (.ok (), { g with state := .halfOpen })
  else (.ok (), g)

def recordSuccess (g : Gate) : Gate := { g with history := [], state := .closed }

/-- This failure and the earlier ones in its window open the gate; so does any failure while it is half-open. -/
def recordFailure (g : Gate) (t : Time) : Gate :=
  if g.state = .halfOpen ∨ ((inWindow g.window t g.history).length + 1 : Int) ≥ g.threshold then
    { g with history := g.history ++ [t], state := .opened, openedAt := t }
  else { g with history := g.history ++ [t] }

end Gate

/-! Calls in sequence. -/

inductive BreakerCall where
  | allow (t : Time)
  | success
  | failure (t : Time)

/-- The clock reading of a call. -/
def BreakerCall.reading : BreakerCall → Option Time
  | .allow t => some t
  | .success => none
  | .failure t => some t

def Breaker.call (b : Breaker) : BreakerCall → Except Err Unit × Breaker
  | .allow t => b.allow t
  | .success => (.ok (), b.recordSuccess)
  | .failure t => (.ok (), b.recordFailure t)

def Gate.call (g : Gate) : BreakerCall → Except Err Unit × Gate
  | .allow t => g.allow t
  | .success => (.ok (), g.recordSuccess)
  | .failure t => (.ok (), g.recordFailure t)

/-- What each call answers, and what `view` shows after it. -/
def observed {σ α β : Type} (call : σ → BreakerCall → α × σ) (view : σ → β) : σ → List BreakerCall → List (α × β)
  | _, [] => []
  | s, c :: cs => ((call s c).1, view (call s c).2) :: observed call view (call s c).2 cs

/-- The state the calls lead to. -/
def afterCalls {σ α : Type} (call : σ → BreakerCall → α × σ) : σ → List BreakerCall → σ
  | s, [] => s
  | s, c :: cs => afterCalls call (call s c).2 cs

def Breaker.view (b : Breaker) : BreakerState × Time := (b.state, b.openedAt)

def Gate.view (g : Gate) : BreakerState × Time := (g.state, g.openedAt)

/-! The simulation. -/

section
variable {window : Duration} {t u : Time} {xs ys : List Time}

/-- A later window sees nothing that an earlier one did not. -/
theorem inWindow_inWindow (h : t ≤ u) : inWindow window u (inWindow window t xs) = inWindow window u xs := by
  unfold inWindow
  rw [List.filter_filter]
  apply List.filter_congr
  intro x _
  by_cases hx : u - window < x
  · have hearlier : t - window < x := Int.lt_of_le_of_lt (Int.sub_le_sub_right h window) hx
    simp [hx, hearlier]
  · simp [hx]

theorem inWindow_append : inWindow window t (xs ++ ys) = inWindow window t xs ++ inWindow window t ys :=
  List.filter_append ..

end

/-- The breaker and the gate after calls with the readings `past`: to a window that is not earlier than
    these, both hold the same failures. -/
structure Follows (window : Duration) (past : List Time) (b : Breaker) (g : Gate) : Prop where
  threshold : b.threshold = g.threshold
  windows : b.window = window ∧ g.window = window
  cooldown : b.cooldown = g.cooldown
  state : b.state = g.state
  openedAt : b.openedAt = g.openedAt
  failures : ∀ t, (∀ u ∈ past, u ≤ t) → inWindow window t b.failures = inWindow window t g.history

section
variable {window : Duration} {past : List Time} {b : Breaker} {g : Gate}

theorem follows_allow (h : Follows window past b g) (t : Time) :
    (b.allow t).1 = (g.allow t).1 ∧ Follows window (t :: past) (b.allow t).2 (g.allow t).2 := by
  have hlater : ∀ v, (∀ u ∈ t :: past, u ≤ v) → inWindow window v b.failures = inWindow window v g.history :=
    fun v hv => h.failures v fun u hu => hv u (List.mem_cons_of_mem _ hu)
  unfold Breaker.allow Gate.allow
  rw [← h.state, ← h.openedAt, ← h.cooldown]
  cases hst : b.state with
  | opened =>
    simp only [if_true]
    by_cases hcool : t - b.openedAt < b.cooldown
    · rw [if_pos hcool, if_neg (Int.not_le.mpr hcool)]
      exact ⟨rfl, ⟨h.threshold, h.windows, h.cooldown, h.state, h.openedAt, hlater⟩⟩
    · rw [if_neg hcool, if_pos (Int.not_lt.mp hcool)]
      exact ⟨rfl, ⟨h.threshold, h.windows, rfl, rfl, rfl, hlater⟩⟩
  | closed => exact ⟨rfl, ⟨h.threshold, h.windows, h.cooldown, h.state, h.openedAt, hlater⟩⟩
  | halfOpen => exact ⟨rfl, ⟨h.threshold, h.windows, h.cooldown, h.state, h.openedAt, hlater⟩⟩

theorem follows_success (h : Follows window past b g) : Follows window past b.recordSuccess g.recordSuccess :=
  ⟨h.threshold, h.windows, h.cooldown, rfl, h.openedAt, fun _ _ => rfl⟩

/-- What the breaker keeps of its failures when it records one at `t`. -/
theorem follows_failures (h : Follows window past b g) {t : Time} (ht : ∀ u ∈ past, u ≤ t) :
    b.failures.filter (t - b.window < ·) = inWindow window t g.history := by
  rw [← h.failures t ht, h.windows.1]
  rfl

theorem follows_failure (h : Follows window past b g) {t : Time} (ht : ∀ u ∈ past, u ≤ t) :
    Follows window (t :: past) (b.recordFailure t) (g.recordFailure t) := by
  have hkept := follows_failures h ht
  have hwindow : g.window = window := h.windows.2
  -- what the pruning drops is outside every window to come
  have hlater : ∀ v, (∀ u ∈ t :: past, u ≤ v) →
      inWindow window v (inWindow window t g.history ++ [t]) = inWindow window v (g.history ++ [t]) := by
    intro v hv
    rw [inWindow_append, inWindow_append, inWindow_inWindow (hv t List.mem_cons_self)]
  have hcount : ((inWindow window t g.history ++ [t]).length : Int) = (inWindow window t g.history).length + 1 := by
    simp
  unfold Breaker.recordFailure Gate.recordFailure
  simp only [hkept, hcount, hwindow, h.state, h.threshold]
  split
  · exact ⟨rfl, ⟨h.windows.1, rfl⟩, h.cooldown, rfl, rfl, hlater⟩
  · exact ⟨rfl, ⟨h.windows.1, rfl⟩, h.cooldown, rfl, h.openedAt, hlater⟩

theorem follows_call (h : Follows window past b g) {c : BreakerCall} (ht : ∀ t ∈ c.reading, ∀ u ∈ past, u ≤ t) :
    (b.call c).1 = (g.call c).1 ∧ Follows window (c.reading.toList ++ past) (b.call c).2 (g.call c).2 := by
  cases c with
  | allow t => exact follows_allow h t
  | success => exact ⟨rfl, follows_success h⟩
  | failure t => exact ⟨rfl, follows_failure h (ht t rfl)⟩

/-- From there on they agree, call by call. -/
theorem follows_calls : ∀ (cs : List BreakerCall) {past : List Time} {b : Breaker} {g : Gate}, Follows window past b g →
    (past.reverse ++ cs.filterMap BreakerCall.reading).Pairwise (· ≤ ·) →
    observed Breaker.call Breaker.view b cs = observed Gate.call Gate.view g cs ∧
      Follows window ((cs.filterMap BreakerCall.reading).reverse ++ past) (afterCalls Breaker.call b cs)
        (afterCalls Gate.call g cs)
  | [], _, _, _, h, _ => ⟨rfl, h⟩
  | c :: cs, past, b, g, h, hsorted => by
    have hreading : (c :: cs).filterMap BreakerCall.reading = c.reading.toList ++ cs.filterMap BreakerCall.reading := by
      cases hr : c.reading <;> simp [hr]
    rw [hreading, ← List.append_assoc] at hsorted
    have hnext : ∀ t ∈ c.reading, ∀ u ∈ past, u ≤ t := by
      intro t ht u hu
      have hpair := (List.pairwise_append.mp (List.pairwise_append.mp hsorted).1).2.2
      exact hpair u (List.mem_reverse.mpr hu) t (Option.mem_toList.mpr ht)
    obtain ⟨hanswer, hfollows⟩ := follows_call h hnext
    have hsorted' : ((c.reading.toList ++ past).reverse ++ cs.filterMap BreakerCall.reading).Pairwise (· ≤ ·) := by
      have hrev : (c.reading.toList ++ past).reverse = past.reverse ++ c.reading.toList := by
        cases c.reading <;> simp
      rw [hrev]
      exact hsorted
    obtain ⟨hobserved, hlast⟩ := follows_calls cs hfollows hsorted'
    refine ⟨?_, ?_⟩
    · have hview : (b.call c).2.view = (g.call c).2.view := Prod.ext hfollows.state hfollows.openedAt
      rw [observed, observed, hanswer, hview, hobserved]
    · have hpast : ((c :: cs).filterMap BreakerCall.reading).reverse ++ past =
          (cs.filterMap BreakerCall.reading).reverse ++ (c.reading.toList ++ past) := by
        rw [hreading]
        cases c.reading <;> simp
      rw [hpast]
      exact hlast

/-- The breaker is the gate, for every threshold, window and cooldown and every sequence of calls whose
    readings do not go back; what it has dropped of its failures is in no window from then on. -/
theorem breaker_is_gate (threshold : Int) (window cooldown : Duration) (cs : List BreakerCall)
    (hclock : (cs.filterMap BreakerCall.reading).Pairwise (· ≤ ·)) :
    observed Breaker.call Breaker.view { threshold, window, cooldown } cs =
        observed Gate.call Gate.view { threshold, window, cooldown } cs ∧
      ∀ t, (∀ u ∈ cs.filterMap BreakerCall.reading, u ≤ t) →
        inWindow window t (afterCalls Breaker.call { threshold, window, cooldown } cs).failures =
          inWindow window t (afterCalls Gate.call { threshold, window, cooldown } cs).history := by
  have h0 : Follows window [] { threshold, window, cooldown } { threshold, window, cooldown } :=
    ⟨rfl, ⟨rfl, rfl⟩, rfl, rfl, rfl, fun _ _ => rfl⟩
  obtain ⟨hobserved, hlast⟩ := follows_calls cs h0 hclock
  refine ⟨hobserved, fun t ht => hlast.failures t ?_⟩
  rw [List.append_nil]
  simpa only [List.mem_reverse] using ht

/-- Two failures a nanosecond apart open the breaker; the third, a window later, is on its own. -/
theorem breaker_is_gate_sample :
    observed Breaker.call Breaker.view ⟨2, 5, 3, [], .closed, 0⟩
        [.failure 1, .failure 2, .allow 4, .allow 5, .success, .failure 7] =
      observed Gate.call Gate.view ⟨2, 5, 3, [], .closed, 0⟩
        [.failure 1, .failure 2, .allow 4, .allow 5, .success, .failure 7] :=
  (breaker_is_gate 2 5 3 [.failure 1, .failure 2, .allow 4, .allow 5, .success, .failure 7] (by decide)).1

end

end GoCourier
