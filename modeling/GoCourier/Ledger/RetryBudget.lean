import GoCourier.Ledger.Budget
import GoCourier.Ledger.SoleOwner

/- The retry budget over whole runs: how many sends, which attempt numbers and which
   retry counts a delivery sees between two replays, with any number of dispatches. -/
namespace GoCourier

open Interleave

section
variable {p : Params} {s s' : System} {l : Act} {x : String}

/-- A call of the database. -/
def Op.Repository : Op → Prop
  | .remote (.publish _ _ _) => False
  | .remote _ => True
  | _ => False

/-- No repository call fails. -/
def RepositoryFaultFree : System → Act → Prop := OnCall fun _ op c _ => op.Repository → ¬ c.Failing

theorem repositoryFaultFree_of_smooth (h : Act.smooth l = true) : RepositoryFaultFree s l :=
  fun t c _ _ _ _ hl _ _ => (faultFree_of_smooth h : FaultFree s l).2 t c hl

/-- The step is the write that queues `x` for a replay. -/
def Replaying (x : String) (s : System) (l : Act) : Prop :=
  ∃ t c id φ d f, l = .call t c ∧ s.threads t = some ⟨.replay id, φ, .ask (.remote (.update d)) f⟩ ∧
    c.Effective ∧ d.id = x

/-- A dispatch that has taken `x` and has its row write or its attempt record still to come. -/
def Dispatching (x : String) (s : System) (t : Nat) : Prop := (threadStance x (s.threads t)).Dispatching

/-- No claim writes back an older retry count, no replay writes beside a dispatch that is not done
    with `x`, and a tick writes pending deliveries only. -/
structure Steady (x : String) (s : System) (l : Act) : Prop where
  claims : OnCall (fun _ op c w => ∀ d st m, op = .remote (.updateIfStatus d st) → c.Effective → d.id = x →
    w.db.row x = some (st, m) → m ≤ d.retryCount) s l
  replays : Replaying x s l → ∀ t, ¬ Dispatching x s t
  ticks : OnCall (fun k op c w => ∀ d, k = .processDue → op = .remote (.update d) → c.Effective → d.id = x →
    ∀ st n, w.db.row x = some (st, n) → st = .pending) s l

theorem allowed_quiet {deed : Deed} {L : Ledger} {a : Stance} (hclaim : deed ≠ .claim) (hcut : deed ≠ .cut)
    (hqueue : deed ≠ .queue) (hlost : deed ≠ .requeueLost) : Allowed deed L a :=
  ⟨fun hd => absurd hd hclaim, fun hd => absurd hd hcut, fun hd => absurd hd hqueue, fun hd => absurd hd hlost⟩

theorem allowed_cut {L : Ledger} {a : Stance} (h : a.Owning) : Allowed .cut L a :=
  ⟨fun hd => absurd hd (by decide), fun _ => h, fun hd => absurd hd (by decide), fun hd => absurd hd (by decide)⟩

/-- A step that meets the conditions is a turn the budget allows. -/
theorem allowed_of_steady {t : Nat} {deed : Deed} (hf : RepositoryFaultFree s l) (h : Steady x s l)
    (hb : StepBehind x s l t deed) : Allowed deed (System.view x s).shared ((System.view x s).places t) := by
  obtain (rfl | ⟨rfl, rfl, how⟩) | ⟨c, k, φ, op, f, rfl, hth, hb⟩ := hb
  · exact allowed_quiet (by decide) (by decide) (by decide) (by decide)
  · exact allowed_cut how
  · have hplace : (System.view x s).places t = φ.stance x := by simp [System.view, hth, threadStance]
    cases deed with
    | claim =>
      obtain ⟨d, st, n, m, rfl, rfl, hid, hn, hrow, hst⟩ := hb
      refine ⟨fun _ st' n' m' ha hrow' => ?_, fun hd => absurd hd (by decide), fun hd => absurd hd (by decide),
        fun hd => absurd hd (by decide)⟩
      rw [hplace, hst] at ha
      cases ha
      exact hn ▸ h.claims t _ k φ _ f rfl hth d st m' rfl trivial hid hrow'
    | cut =>
      obtain ⟨how, -⟩ | ⟨msg, d, st, m, rfl, rfl, -⟩ := hb
      · exact allowed_cut (hplace ▸ how)
      · exact absurd trivial (hf t _ k φ _ f rfl hth trivial)
    | requeueLost =>
      obtain ⟨d, id, msg, rfl, rfl, rfl, -⟩ := hb
      exact absurd trivial (hf t _ _ φ _ f rfl hth trivial)
    | queue =>
      obtain ⟨d, heff, rfl, rfl, hid⟩ := hb
      exact ⟨fun hd => absurd hd (by decide), fun hd => absurd hd (by decide),
        fun _ => h.ticks t c _ φ _ f rfl hth d rfl rfl heff hid, fun hd => absurd hd (by decide)⟩
    | _ => exact allowed_quiet (by decide) (by decide) (by decide) (by decide)

theorem replaying_of_requeue {t : Nat} (hb : StepBehind x s l t .requeue) : Replaying x s l := by
  obtain (h | ⟨h, -⟩) | ⟨c, k, φ, op, f, rfl, hth, d, id, rfl, rfl, rfl, hid⟩ := hb
  · cases h
  · cases h
  · exact ⟨t, _, id, φ, d, f, rfl, hth, trivial, hid⟩

/-- The invariant of runs that keep the budget. -/
structure Budgeting (p : Params) (x : String) (s : System) : Prop where
  conforms : (machine p).Conforms (protocol p) s
  board : (System.view x s).Holds (Ledger.Within p.maxAttempts) (Ledger.Budgeted p.maxAttempts) Distinct

theorem init_budgeting (hmax : 1 ≤ p.maxAttempts) (x : String) : Budgeting p x (System.init p) where
  conforms := init_conforms p
  board := {
    shared := ⟨fun _ => ⟨rfl, rfl⟩, nofun, nofun, by show (0 : Int) ≤ p.maxAttempts; omega, List.nodup_nil⟩
    each := fun _ => trivial
    pair := fun _ _ _ => ⟨nofun, nofun⟩ }

theorem Distinct.symm {a b : Stance} (h : Distinct a b) : Distinct b a :=
  ⟨fun hab => h.1 hab.symm, fun k hk => h.2 k hk.symm⟩

theorem budgeting_step (hmax : 1 ≤ p.maxAttempts) (h : Budgeting p x s)
    (hok : RepositoryFaultFree s l ∧ Steady x s l) (hs : (machine p).Step s l s') :
    Budgeting p x s' ∧ (¬ Replaying x s l → ∀ st n st' n', s.state.db.row x = some (st, n) →
      s'.state.db.row x = some (st', n') → n ≤ n') := by
  obtain ⟨t, deed, L, a, hview, hturn, hbehind⟩ := view_step x h.conforms hs
  have hallowed := allowed_of_steady hok.1 hok.2 hbehind
  have hboard := h.board.turn (budget_turn hmax hturn hallowed h.board.shared (h.board.each t)) fun u hu hb hab _ => by
    have hreq : deed = .requeue → ¬ ((System.view x s).places u).Dispatching := by
      rintro rfl
      exact hok.2.replays (replaying_of_requeue hbehind) u
    obtain ⟨hb', hab'⟩ := budget_others hturn hallowed hreq (h.board.each t) hb hab
    exact ⟨hb', hab', hab'.symm⟩
  refine ⟨⟨Machine.conforms_step h.conforms hs, hview ▸ hboard⟩, fun hreq st n st' n' hrow hrow' => ?_⟩
  have hL : (System.view x s').shared = L := by rw [hview, Board.turn_shared]
  have hdeed : deed ≠ .requeue := by
    rintro rfl
    exact hreq (replaying_of_requeue hbehind)
  have hrow₁ : L.row = some (st', n') := by
    rw [← hL]
    exact hrow'
  exact count_mono hturn hallowed hdeed (h.board.each t) h.board.shared hrow hrow₁

/-- In a steady run a delivery sees at most `MaxAttempts` sends between two replays, no attempt number
    twice, and no retry count go down but by a replay. -/
theorem retry_budget (p : Params) (hmax : 1 ≤ p.maxAttempts) (x : String) (s : System)
    (hr : (machine p).Reach (fun s l => RepositoryFaultFree s l ∧ Steady x s l) (System.init p) s) :
    ((era x s.hist).countP (sends x) : Int) ≤ p.maxAttempts ∧
      ((era x s.hist).filterMap (recorded x)).Nodup ∧
      ∀ l s', RepositoryFaultFree s l → Steady x s l → (machine p).step s l = some s' → ¬ Replaying x s l →
        ∀ st n st' n', s.state.db.row x = some (st, n) → s'.state.db.row x = some (st', n') → n ≤ n' := by
  have h : Budgeting p x s := hr.invariant (init_budgeting hmax x) fun s l s' h hok hs => (budgeting_step hmax h hok hs).1
  refine ⟨h.board.shared.total, h.board.shared.distinct, fun l s' hf hst hs => ?_⟩
  exact (budgeting_step hmax h ⟨hf, hst⟩ ((machine p).step_iff.mp hs)).2

/-- A step of neither replay nor tick whose claim, if it is one, is not stale. -/
def freshClaim (s : System) : Act → Bool
  | .call t _ => match s.threads t with
    | some ⟨.replay _, _, _⟩ => false
    | some ⟨.processDue, _, _⟩ => false
    | some ⟨_, _, .ask (.remote (.updateIfStatus d _)) _⟩ =>
      (s.state.db.row d.id).all fun r => r.2 ≤ d.retryCount
    | _ => true
  | _ => true

theorem not_replaying_of_freshClaim (h : freshClaim s l = true) : ¬ Replaying x s l := by
  rintro ⟨t, c, id, φ, d, f, rfl, hth, -⟩
  simp only [freshClaim, hth, Bool.false_eq_true] at h

theorem steady_of_freshClaim (h : freshClaim s l = true) : Steady x s l where
  claims := by
    intro t c k φ op f hl hth d st m hop _ hid hrow
    subst hl hop hid
    cases k <;> simp only [freshClaim, hth, hrow, Option.all_some, decide_eq_true_eq, Bool.false_eq_true] at h <;>
      exact h
  replays hrep := absurd hrep (not_replaying_of_freshClaim h)
  ticks := by
    intro t c k φ op f hl hth d hk
    subst hl hk
    simp only [freshClaim, hth, Bool.false_eq_true] at h

/-- Three attempts of a delivery that may have three, one after the other. -/
def threeAttempts : List Act :=
  ingestCalls 0 "d1" ++ retryCalls 1 "d1" "a1" ++ retryCalls 2 "d1" "a2" ++ deadLetterCalls 3 "d1" "a3" errTransient

theorem retry_budget_sample :
    ∃ s, (machine { maxAttempts := 3 }).run (System.init { maxAttempts := 3 }) threeAttempts = some s ∧
      (era "d1" s.hist).filterMap (recorded "d1") = [3, 2, 1] ∧ (era "d1" s.hist).countP (sends "d1") = 3 ∧
      ((era "d1" s.hist).countP (sends "d1") : Int) ≤ 3 := by
  have hrun : ((machine { maxAttempts := 3 }).run (System.init { maxAttempts := 3 }) threeAttempts).map
      (fun s => ((era "d1" s.hist).filterMap (recorded "d1"), (era "d1" s.hist).countP (sends "d1"))) =
      some ([3, 2, 1], 3) := by
    decide +kernel
  obtain ⟨s, hs, hcounts⟩ := Option.map_eq_some_iff.mp hrun
  obtain ⟨hnumbers, hsends⟩ := Prod.mk.inj hcounts
  have hcheck : (machine { maxAttempts := 3 }).check (fun s l => Act.smooth l && freshClaim s l)
      (System.init { maxAttempts := 3 }) threeAttempts = true := by
    decide +kernel
  have halong : (machine { maxAttempts := 3 }).Along (fun s l _ => RepositoryFaultFree s l ∧ Steady "d1" s l)
      (System.init { maxAttempts := 3 }) threeAttempts := by
    refine Machine.Along.mono (fun s l _ h => ?_) threeAttempts (Machine.along_of_check threeAttempts hcheck)
    obtain ⟨hsmooth, hfresh⟩ := Bool.and_eq_true_iff.mp h
    exact ⟨repositoryFaultFree_of_smooth hsmooth, steady_of_freshClaim hfresh⟩
  have h := retry_budget { maxAttempts := 3 } (by decide) "d1" s (Machine.reach_of_run threeAttempts .refl halong hs)
  exact ⟨s, hs, hnumbers, hsends, h.1⟩

/-- Dispatch 2 reads the delivery after one attempt and stops. Dispatch 3 makes the second attempt.
    Then 2 claims it with the count it read, and makes the second attempt again. -/
def staleClaim : List Act :=
  ingestCalls 0 "d1" ++ retryCalls 1 "d1" "a1" ++ .start 2 (.dispatch 0 "d1") :: runs 2 2 ++ retryCalls 3 "d1" "a2"

/-- The rest of dispatch 2, and one more dispatch. -/
def afterStaleClaim : List Act :=
  [.call 2 .run, .call 2 (.uuid "a3"), .call 2 (.verdict (.error errTransient))] ++ runs 2 5 ++ [.call 2 (.rand 0)] ++
    deadLetterCalls 4 "d1" "a4" errTransient

/-- With `MaxAttempts` 3 and no call failing, the claim takes the count from 2 back to 1, the delivery is
    sent four times, and attempt 2 is recorded twice. -/
theorem stale_claim_overspends :
    (staleClaim ++ .call 2 .run :: afterStaleClaim).all Act.smooth = true ∧
      ((machine { maxAttempts := 3 }).run (System.init { maxAttempts := 3 }) staleClaim).bind (fun s =>
        ((machine { maxAttempts := 3 }).step s (.call 2 .run)).map fun s' => (s.state.db.row "d1", s'.state.db.row "d1")) =
        some (some (.retrying, 2), some (.processing, 1)) ∧
      ((machine { maxAttempts := 3 }).run (System.init { maxAttempts := 3 })
        (staleClaim ++ .call 2 .run :: afterStaleClaim)).map (fun s =>
          ((era "d1" s.hist).countP (sends "d1"), (era "d1" s.hist).filterMap (recorded "d1"))) =
        some (4, [3, 2, 2, 1]) := by
  refine ⟨by decide +kernel, by decide +kernel, by decide +kernel⟩

end

end GoCourier
