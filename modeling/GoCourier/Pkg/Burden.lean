import GoCourier.Pkg.SlidingWindow

/- A breaker that is told of more failures than another. `b` hears of every call that `g` hears
   of, and besides of failures and admissions of its own. As long as no failure opens `b` that
   would not open `g`, the two admit the same calls (`burdened_allow`, `burdened_failure`,
   `burdened_extra`); once one does, they part (`parted`). -/
namespace GoCourier

namespace Breaker

/-- Recording a failure at `now` opens the breaker. -/
def Trips (b : Breaker) (now : Time) : Prop :=
  b.state = .halfOpen ∨ ((b.failures.filter (now - b.window < ·) ++ [now]).length : Int) ≥ b.threshold

instance (b : Breaker) (now : Time) : Decidable (b.Trips now) := inferInstanceAs (Decidable (_ ∨ _))

theorem recordFailure_trips {b : Breaker} {now : Time} (h : b.Trips now) : b.recordFailure now =
    { b with failures := b.failures.filter (now - b.window < ·) ++ [now], state := .opened, openedAt := now } := by
  unfold recordFailure
  exact if_pos h

theorem recordFailure_holds {b : Breaker} {now : Time} (h : ¬ b.Trips now) : b.recordFailure now =
    { b with failures := b.failures.filter (now - b.window < ·) ++ [now] } := by
  unfold recordFailure
  exact if_neg h

end Breaker

/-- To any window from `now` on, `b` holds the failures of `g` and maybe more. It is in the state of
    `g`, or has been admitted to its probe already, when `g` would admit one too. -/
structure Burdened (g b : Breaker) (now : Time) : Prop where
  threshold : b.threshold = g.threshold
  window : b.window = g.window
  cooldown : b.cooldown = g.cooldown
  failures : ∀ t, now ≤ t → (inWindow g.window t g.failures).Sublist (inWindow g.window t b.failures)
  states : (b.state = g.state ∧ (g.state = .opened → b.openedAt = g.openedAt)) ∨
    (g.state = .opened ∧ b.state = .halfOpen ∧ g.openedAt + g.cooldown ≤ now)

section
variable {g b : Breaker} {now now' : Time}

theorem burdened_refl (b : Breaker) (now : Time) : Burdened b b now :=
  ⟨rfl, rfl, rfl, fun _ _ => List.Sublist.refl _, .inl ⟨rfl, fun _ => rfl⟩⟩

theorem burdened_later (h : Burdened g b now) (hle : now ≤ now') : Burdened g b now' := by
  refine ⟨h.threshold, h.window, h.cooldown, fun t ht => h.failures t (Int.le_trans hle ht), ?_⟩
  rcases h.states with hsame | ⟨hg, hb, hcooled⟩
  · exact .inl hsame
  · exact .inr ⟨hg, hb, Int.le_trans hcooled hle⟩

theorem cooled_iff {t o c : Time} : t - o ≥ c ↔ o + c ≤ t := by
  constructor
  · intro h
    exact Int.add_le_of_le_sub_left h
  · intro h
    exact Int.le_sub_left_of_add_le h

/-- Both are asked: they answer alike. -/
theorem burdened_allow (h : Burdened g b now) :
    (b.allow now).1 = (g.allow now).1 ∧ Burdened (g.allow now).2 (b.allow now).2 now := by
  rcases h.states with ⟨hst, hat⟩ | ⟨hg, hb, hcooled⟩
  · cases hstate : g.state with
    | closed =>
      rw [Breaker.allow_closed hstate, Breaker.allow_closed (hst.trans hstate)]
      exact ⟨rfl, h⟩
    | halfOpen =>
      have hb : b.state = .halfOpen := hst.trans hstate
      unfold Breaker.allow
      rw [hstate, hb]
      exact ⟨rfl, h⟩
    | opened =>
      have hb : b.state = .opened := hst.trans hstate
      unfold Breaker.allow
      rw [hstate, hb]
      have hboth : now - b.openedAt ≥ b.cooldown ↔ now - g.openedAt ≥ g.cooldown := by rw [hat hstate, h.cooldown]
      by_cases hcool : now - g.openedAt ≥ g.cooldown
      · simp only [hcool, hboth.mpr hcool, if_true]
        exact ⟨trivial, h.threshold, h.window, h.cooldown, h.failures, .inl ⟨rfl, nofun⟩⟩
      · simp only [hcool, mt hboth.mp hcool, if_false]
        exact ⟨trivial, h⟩
  · -- `b` is past its probe already, and `g` admits its own now
    unfold Breaker.allow
    rw [hg, hb]
    simp only [cooled_iff, hcooled, if_true]
    exact ⟨trivial, h.threshold, h.window, h.cooldown, h.failures, .inl ⟨hb, nofun⟩⟩

/-- Only `b` is asked. -/
theorem burdened_probe (h : Burdened g b now) : Burdened g (b.allow now).2 now := by
  cases hstate : b.state with
  | closed =>
    rw [Breaker.allow_closed hstate]
    exact h
  | halfOpen =>
    unfold Breaker.allow
    rw [hstate]
    exact h
  | opened =>
    unfold Breaker.allow
    rw [hstate]
    simp only []
    split
    · rename_i hcooled
      refine ⟨h.threshold, h.window, h.cooldown, h.failures, ?_⟩
      rcases h.states with ⟨hst, hat⟩ | ⟨-, hhalf, -⟩
      · have hg : g.state = .opened := hst.symm.trans hstate
        refine .inr ⟨hg, rfl, ?_⟩
        rw [← hat hg, ← h.cooldown]
        exact cooled_iff.mp hcooled
      · rw [hstate] at hhalf
        cases hhalf
    · exact h

theorem burdened_success (h : Burdened g b now) : Burdened g.recordSuccess b.recordSuccess now :=
  ⟨h.threshold, h.window, h.cooldown, fun _ _ => List.Sublist.refl _, .inl ⟨rfl, nofun⟩⟩

/-- What trips `g` trips `b`, unless `b` is past its probe. -/
theorem trips_of_burdened (h : Burdened g b now) (hg : g.Trips now) : b.Trips now := by
  rcases hg with hhalf | hcount
  · rcases h.states with ⟨hst, -⟩ | ⟨hopened, -, -⟩
    · exact .inl (hst.trans hhalf)
    · rw [hhalf] at hopened
      cases hopened
  · right
    have hle : (g.failures.filter (now - g.window < ·)).length ≤ (b.failures.filter (now - g.window < ·)).length :=
      (h.failures now (Int.le_refl _)).length_le
    rw [h.threshold, h.window]
    simp only [List.length_append, List.length_singleton] at hcount ⊢
    omega

/-- What `b` keeps of its failures when it records one, and `g` of its own. -/
theorem burdened_failures (h : Burdened g b now) (t : Time) (ht : now ≤ t) :
    (inWindow g.window t (g.failures.filter (now - g.window < ·) ++ [now])).Sublist
      (inWindow g.window t (b.failures.filter (now - b.window < ·) ++ [now])) := by
  have hpruned : ∀ xs : List Time, inWindow g.window t (xs.filter (now - g.window < ·)) = inWindow g.window t xs :=
    fun _ => inWindow_inWindow ht
  rw [h.window, inWindow_append, inWindow_append, hpruned, hpruned]
  exact (h.failures t ht).append (List.Sublist.refl _)

/-- Both are told of a failure, which does not open `b` alone. -/
theorem burdened_failure (h : Burdened g b now) (hboth : b.Trips now → g.Trips now) :
    Burdened (g.recordFailure now) (b.recordFailure now) now := by
  by_cases hg : g.Trips now
  · rw [Breaker.recordFailure_trips hg, Breaker.recordFailure_trips (trips_of_burdened h hg)]
    exact ⟨h.threshold, h.window, h.cooldown, burdened_failures h, .inl ⟨rfl, fun _ => rfl⟩⟩
  · have hb : ¬ b.Trips now := fun hb => hg (hboth hb)
    rw [Breaker.recordFailure_holds hg, Breaker.recordFailure_holds hb]
    exact ⟨h.threshold, h.window, h.cooldown, burdened_failures h, h.states⟩

/-- Only `b` is told of a failure, which does not open it. -/
theorem burdened_extra (h : Burdened g b now) (hb : ¬ b.Trips now) : Burdened g (b.recordFailure now) now := by
  rw [Breaker.recordFailure_holds hb]
  refine ⟨h.threshold, h.window, h.cooldown, fun t ht => ?_, h.states⟩
  show (inWindow g.window t g.failures).Sublist (inWindow g.window t (b.failures.filter (now - b.window < ·) ++ [now]))
  rw [h.window, inWindow_append,
    show inWindow g.window t (b.failures.filter (now - g.window < ·)) = inWindow g.window t b.failures from
      inWindow_inWindow ht]
  exact (h.failures t ht).trans (List.sublist_append_left _ _)

/-- A failure that opens `b` alone: until its cooldown has passed, `b` refuses a call that `g` admits. -/
theorem parted (h : Burdened g b now) (htrips : b.Trips now) (hcooldown : 0 < b.cooldown)
    (hearlier : g.state = .opened → g.openedAt < now) :
    ∃ t, now ≤ t ∧ (g.allow t).1 = .ok () ∧ ((b.recordFailure now).allow t).1 = .error errCircuitOpen := by
  have hrefuses : ∀ t, t < now + b.cooldown → ((b.recordFailure now).allow t).1 = .error errCircuitOpen := by
    intro t ht
    rw [Breaker.recordFailure_trips htrips]
    have hwarm : ¬ t - now ≥ b.cooldown := fun hcool => Int.not_lt.mpr (cooled_iff.mp hcool) ht
    simp only [Breaker.allow, hwarm, if_false]
  have hnow : now < now + b.cooldown := Int.lt_add_of_pos_right now hcooldown
  cases hstate : g.state with
  | closed =>
    refine ⟨now, Int.le_refl _, ?_, hrefuses now hnow⟩
    rw [Breaker.allow_closed hstate]
  | halfOpen =>
    refine ⟨now, Int.le_refl _, ?_, hrefuses now hnow⟩
    unfold Breaker.allow
    rw [hstate]
  | opened =>
    have hlate : g.openedAt + g.cooldown < now + b.cooldown := by
      rw [h.cooldown]
      exact Int.add_lt_add_right (hearlier hstate) _
    refine ⟨max now (g.openedAt + g.cooldown), Int.le_max_left _ _, ?_, hrefuses _ (Int.max_lt.mpr ⟨hnow, hlate⟩)⟩
    have hcool : max now (g.openedAt + g.cooldown) - g.openedAt ≥ g.cooldown := cooled_iff.mpr (Int.le_max_right _ _)
    unfold Breaker.allow
    rw [hstate]
    simp only [hcool, if_true]

end

end GoCourier
