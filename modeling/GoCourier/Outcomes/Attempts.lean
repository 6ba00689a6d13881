import GoCourier.Ledger.Numbering
import GoCourier.Outcomes.Stamps
import GoCourier.Rows.Cause

/- The attempts of a delivery, read back. Each is numbered by the row's retry count and
   started at a reading of the clock; the dashboard and the runbook list them by number. As
   long as no replay starts the count anew after an attempt, the order of the numbers is the
   order of the readings, whatever crashes. -/
namespace GoCourier

open Interleave

/-- The attempts of `x`, in the order they were recorded. -/
def Tables.attemptList (t : Tables) (x : String) : List Attempt :=
  (t.attempts.filter (·.deliveryId = x)).map (·.attempt)

/-- What `DashboardRepo.Detail` lists: `WHERE delivery_id = $1 ORDER BY attempt_number`. -/
def Tables.detailAttempts (t : Tables) (x : String) : List Attempt :=
  (t.attemptList x).insertionSort (·.attemptNumber ≤ ·.attemptNumber)

/-- The readings of the clock, the latest first. -/
def clockReading : Called → Option Time
  | ⟨_, _, .now, v⟩ => some v
  | _ => none

def readings (hist : List Called) : List Time := hist.filterMap clockReading

/-- The clock is read at later and later times. -/
def StrictClock (s : System) : Act → Prop :=
  OnCall (fun _ op _ w => op = .now → ∀ v ∈ readings s.hist, v < w.clock) s

/-- No repository call fails, the clock strictly increases, and one scheduler and one dispatch of `x` run at a time. -/
structure Serially (x : String) (s : System) (l : Act) : Prop where
  faultless : RepositoryFaultFree s l
  clock : StrictClock s l
  scheduler : OneScheduler s l
  dispatch : OneDispatch x s l

/-- No attempt at `x` is recorded, and no dispatch has `x`. -/
def Untried (x : String) (s : System) : Prop := s.state.db.attemptList x = [] ∧ ∀ t, ¬ Dispatching x s t

/-! Who may record. -/

section
variable {p : Params} {s s' : System} {l : Act} {t u : Nat} {x : String} {g : Nat → Stamp}

/-- Who may yet record an attempt at `x` is a dispatch of it that has not returned. -/
theorem engaged_thread (hc : (machine p).Conforms (protocol p) s) (hw : Machine.Watched (stampWatch p) g s)
    (h : (threadStance x (s.threads t)).Engaged) : ∃ th, s.threads t = some th ∧ th.task.Target x ∧ th.Live := by
  rcases h with hread | hown | ⟨k, hk⟩
  · exact working_thread hc (.inl hread)
  · exact working_thread hc (.inr hown)
  · obtain ⟨⟨task, φ, prog⟩, hth, hstanding⟩ := standing_thread hk nofun
    have hrecorder : ∃ d : Delivery, φ = .worker (.settled d false) ∧ d.id = x ∧ d.status ≠ .dlq := by
      cases hstanding with
      | @retried d id status => exact ⟨d, rfl, id, by rw [status]; decide⟩
      | @succeeded d id status => exact ⟨d, rfl, id, by rw [status]; decide⟩
    obtain ⟨d, rfl, rfl, hst⟩ := hrecorder
    have habout : task.Target d.id := worker_about hc hth
    refine ⟨_, hth, habout, ?_⟩
    cases prog with
    | done r =>
      -- it has an attempt to record, so it has not ended
      have hsigned : Phase.Signed (.worker (.settled d false)) := hw.ends hth
      exact absurd (hsigned _ rfl d rfl) hst
    | ask op f => exact ⟨op, f, rfl⟩

theorem engaged_alone (hc : (machine p).Conforms (protocol p) s) (hw : Machine.Watched (stampWatch p) g s)
    (hone : Machine.AtMostOne (Task.Target · x) s) (htu : t ≠ u) :
    ¬ ((threadStance x (s.threads t)).Engaged ∧ (threadStance x (s.threads u)).Engaged) := by
  intro h
  obtain ⟨th, hth, hk, hl⟩ := engaged_thread hc hw h.1
  obtain ⟨th', hth', hk', hl'⟩ := engaged_thread hc hw h.2
  exact htu (hone t u th th' hth hth' hk hk' hl hl')

/-- Whoever records an attempt at `x` is a dispatch of it. -/
theorem target_of_records (hc : (machine p).Conforms (protocol p) s) {k : Task} {φ : Phase} {a : Attempt}
    {f : Ans (.remote (.recordAttempt x a)) → CallTree Op Ans Result}
    (h : s.threads t = some ⟨k, φ, .ask (.remote (.recordAttempt x a)) f⟩) : k.Target x := by
  have hm : May p k φ (.remote (.recordAttempt x a)) := hc.may h
  have hworker : ∃ ψ, φ = .worker ψ ∧ Records p ψ x a := by
    cases k with
    | dispatch proc id =>
      cases φ with
      | worker ψ => exact ⟨ψ, rfl, hm⟩
      | _ => exact hm.elim
    | handle proc i c m =>
      cases φ with
      | worker ψ => exact ⟨ψ, rfl, hm⟩
      | _ => exact hm.elim
    | _ => exact absurd hm (not_records nofun nofun)
  obtain ⟨ψ, rfl, hrec⟩ := hworker
  have habout := worker_about hc h
  cases hrec <;> exact habout

/-! What a step records. -/

/-- A call of a thread records an attempt at `x`, in the table and in the history, or leaves both alone. -/
theorem attempts_answered {op : Op} {c : Choice} {r : Ans op} {w : World} (k : Task)
    (hf : op.Repository → ¬ c.Failing) (ha : Answered p s.state op c r w) :
    (w.db.attemptList x = s.state.db.attemptList x ∧ recorded x ⟨t, k, op, r⟩ = none) ∨
      ∃ a, op = .remote (.recordAttempt x a) ∧ w.db.attemptList x = s.state.db.attemptList x ++ [a] ∧
        recorded x ⟨t, k, op, r⟩ = some a.attemptNumber := by
  cases ha with
  | ran q =>
    cases q with
    | recordAttempt id a =>
      cases he : s.state.db.recordAttempt id a with
      | error e => exact .inl (by simp only [exec, he]; exact ⟨rfl, rfl⟩)
      | ok tables =>
        have ht : tables.attempts = s.state.db.attempts ++ [⟨id, a⟩] := by rw [Tables.recordAttempt_ok he]
        by_cases hid : id = x
        · subst hid
          refine .inr ⟨a, rfl, ?_, ?_⟩
          · simp only [exec, he, World.store, Tables.attemptList, ht, List.filter_append, List.map_append]
            simp
          · simp [exec, he, World.store, recorded]
        · refine .inl ⟨?_, ?_⟩
          · simp only [exec, he, World.store, Tables.attemptList, ht, List.filter_append, List.map_append]
            simp [hid]
          · simp [exec, he, World.store, recorded, hid]
    | _ =>
      left
      refine ⟨?_, rfl⟩
      rcases exec_attempts p s.state _ with hsame | ⟨id, a, hq, -⟩
      · rw [Tables.attemptList, hsame, Tables.attemptList]
      · cases hq
  | lost q msg =>
    left
    cases q with
    | publish subject body headers =>
      refine ⟨?_, rfl⟩
      have hdb : (exec p s.state (.publish subject body headers)).2.db = s.state.db := publish_db p s.state _
      rw [hdb]
    | _ => exact absurd trivial (hf trivial)
  | fault q msg =>
    left
    cases q with
    | publish subject body headers => exact ⟨rfl, rfl⟩
    | _ => exact absurd trivial (hf trivial)
  | _ => exact .inl ⟨rfl, rfl⟩

/-! The order of the numbers. -/

/-- The numbers recorded are those of the board, in the order the board wants. -/
structure Tallied (p : Params) (x : String) (s : System) (g : Nat → Stamp) : Prop where
  conforms : (machine p).Conforms (protocol p) s
  watched : Machine.Watched (stampWatch p) g s
  scheduler : Machine.AtMostOne (· = .processDue) s
  dispatch : Machine.AtMostOne (Task.Target · x) s
  early : EarlySeen x s
  ascending : (ledger x s.state s.hist).Ascending
  follows : ∀ t, (ledger x s.state s.hist).Follows (threadStance x (s.threads t))
  written : (s.state.db.attemptList x).map (·.attemptNumber) = (ledger x s.state s.hist).numbers.reverse

theorem init_tallied (p : Params) (x : String) : Tallied p x (System.init p) fun _ => {} where
  conforms := init_conforms p
  watched _ _ h := by cases h
  scheduler _ _ _ _ h := by cases h
  dispatch _ _ _ _ h := by cases h
  early _ := trivial
  ascending := ascending_nil rfl
  follows _ := trivial
  written := rfl

/-- What the step does at the board keeps the numbers in order. -/
theorem orderly_step {deed : Deed} {L : Ledger} {a : Stance} (h : Tallied p x s g)
    (hf : RepositoryFaultFree s l) (hrep : Replaying x s l → Untried x s)
    (hturn : Turn p.maxAttempts deed (System.view x s).shared ((System.view x s).places t) L a)
    (hbehind : StepBehind x s l t deed) : Orderly deed (System.view x s).shared where
  requeue hd := by
    subst hd
    have hnone := (hrep (replaying_of_requeue hbehind)).1
    have hnumbers := h.written
    rw [hnone] at hnumbers
    exact List.reverse_eq_nil_iff.mp hnumbers.symm
  queue hd st n hrow := by
    subst hd
    have hearly := h.early t
    -- only a tick queues, and it has read a pending row
    generalize hplace : (System.view x s).places t = place at hturn
    cases hturn with
    | queue m =>
      rw [show threadStance x (s.threads t) = .ticker m from hplace] at hearly
      have hpending : (System.view x s).shared.row = some (.pending, m) := hearly
      rw [hrow] at hpending
      cases hpending
      rfl
  answered hd := by
    subst hd
    obtain (hdeed | ⟨hdeed, -⟩) | ⟨c, k, φ, op, f, rfl, hth, d, id, msg, rfl, rfl, rfl, -⟩ := hbehind
    · cases hdeed
    · cases hdeed
    · exact hf t _ _ φ _ f rfl hth trivial trivial

/-- A replay's write of `x` that returned nil. -/
theorem replaying_of_replays {c : Choice} {k : Task} {φ : Phase} {op : Op} {f : Ans op → CallTree Op Ans Result} {r : Ans op}
    {w : World} (running : s.threads t = some ⟨k, φ, .ask op f⟩) (answered : answer p op c s.state = some (r, w))
    (h : replays x ⟨t, k, op, r⟩ = true) : Replaying x s (.call t c) := by
  unfold replays at h
  split at h
  · rename_i _ id d _ heq
    cases heq
    obtain ⟨hc, -⟩ := answered_ok (answer_cases answered)
    subst hc
    exact ⟨t, .run, id, φ, d, f, rfl, running, trivial, of_decide_eq_true h⟩
  · cases h

theorem written_step (h : Tallied p x s g) (hf : RepositoryFaultFree s l) (hrep : Replaying x s l → Untried x s)
    (hs : (machine p).Step s l s') :
    (s'.state.db.attemptList x).map (·.attemptNumber) = (ledger x s'.state s'.hist).numbers.reverse := by
  cases hs with
  | @start t k w free entered =>
    have hdb : w.db = s.state.db := enter_db entered
    show (w.db.attemptList x).map _ = _
    rw [hdb]
    exact h.written
  | @call t c k φ op f r w running answered =>
    have hfail : op.Repository → ¬ c.Failing := hf t c k φ op f rfl running
    have hdone := attempts_answered (x := x) (t := t) k hfail (answer_cases answered)
    show (w.db.attemptList x).map _ = ((era x (⟨t, k, op, r⟩ :: s.hist)).filterMap (recorded x)).reverse
    by_cases hreplays : replays x ⟨t, k, op, r⟩ = true
    · have hnone := (hrep (replaying_of_replays running answered hreplays)).1
      rw [era_replay hreplays, List.filterMap_nil, List.reverse_nil]
      rcases hdone with ⟨hsame, -⟩ | ⟨a, rfl, -, -⟩
      · rw [hsame, hnone, List.map_nil]
      · cases k <;> cases hreplays
    · rw [era_cons (Bool.eq_false_iff.mpr hreplays)]
      rcases hdone with ⟨hsame, hrec⟩ | ⟨a, -, hadd, hrec⟩
      · rw [hsame, List.filterMap_cons_none hrec]
        exact h.written
      · rw [hadd, List.filterMap_cons_some hrec, List.reverse_cons, List.map_append]
        exact congrArg (· ++ [a.attemptNumber]) h.written
  | crash running => exact h.written
  | @move m w moved =>
    have hdb : w.db = s.state.db := move_db moved
    show (w.db.attemptList x).map _ = _
    rw [hdb]
    exact h.written

theorem tallied_step {g' : Nat → Stamp} (h : Tallied p x s g) (hok : Serially x s l)
    (hrep : Replaying x s l → Untried x s) (hs : (machine p).Step s l s') (hw : Machine.Watched (stampWatch p) g' s') :
    Tallied p x s' g' := by
  obtain ⟨t, deed, L, a, hview, hturn, hbehind⟩ := view_step x h.conforms hs
  have hL : ledger x s'.state s'.hist = L := by
    show (System.view x s').shared = L
    rw [hview, Board.turn_shared]
  have horderly := orderly_step h hok.faultless hrep hturn hbehind
  obtain ⟨hasc, hfol⟩ := ascending_turn hturn horderly h.ascending (h.follows t)
  have hfollows : ∀ u, (ledger x s'.state s'.hist).Follows (threadStance x (s'.threads u)) := by
    intro u
    rw [hL]
    show L.Follows ((System.view x s').places u)
    rw [hview]
    by_cases hu : u = t
    · subst hu
      rw [Board.turn_self]
      exact hfol
    · rw [Board.turn_other _ _ _ hu]
      apply follows_others hturn horderly
      · intro hd
        subst hd
        exact (hrep (replaying_of_requeue hbehind)).2 u
      · exact h.follows u
      · exact engaged_alone h.conforms h.watched h.dispatch (Ne.symm hu)
  exact {
    conforms := Machine.conforms_step h.conforms hs
    watched := hw
    scheduler := Machine.atMostOne_step h.scheduler hok.scheduler hs
    dispatch := Machine.atMostOne_step h.dispatch hok.dispatch hs
    early := earlySeen_step h.conforms h.scheduler h.early hs
    ascending := hL ▸ hasc
    follows := hfollows
    written := written_step h hok.faultless hrep hs }

/-! The order of the readings. -/

/-- Attempts started at readings of the clock, each before those recorded after it and before the start of a
    dispatch that may yet record. -/
structure Timed (x : String) (s : System) (g : Nat → Stamp) : Prop where
  read : ∀ t τ, (g t).started = some τ → τ ∈ readings s.hist
  past : ∀ a ∈ s.state.db.attemptList x, a.startedAt ∈ readings s.hist
  later : ∀ t th τ, s.threads t = some th → th.task.Target x → th.Live → g t = { started := some τ } →
    ∀ a ∈ s.state.db.attemptList x, a.startedAt < τ
  ordered : (s.state.db.attemptList x).Pairwise (·.startedAt < ·.startedAt)

theorem init_timed (p : Params) (x : String) : Timed x (System.init p) fun _ => {} where
  read _ _ h := by cases h
  past _ h := by cases h
  later _ _ _ h := by cases h
  ordered := List.Pairwise.nil

theorem mem_readings {e : Called} {hist : List Called} {τ : Time} (h : τ ∈ readings hist) : τ ∈ readings (e :: hist) := by
  obtain ⟨e', he', hτ⟩ := List.mem_filterMap.mp h
  exact List.mem_filterMap.mpr ⟨e', List.mem_cons_of_mem _ he', hτ⟩

/-- A stamp's reading is its first, and one more where it had none. -/
theorem started_next {γ : Stamp} {op : Op} {r : Ans op} {k : Task} {τ : Time} (h : (γ.next op r).started = some τ) :
    γ.started = some τ ∨ γ.started = none ∧ op = .now ∧ clockReading ⟨t, k, op, r⟩ = some τ := by
  cases op with
  | now =>
    have hτ : γ.started.getD r = τ := Option.some.inj h
    cases hs : γ.started with
    | none =>
      rw [hs, Option.getD_none] at hτ
      exact .inr ⟨rfl, rfl, congrArg some hτ⟩
    | some τ' =>
      rw [hs, Option.getD_some] at hτ
      exact .inl (congrArg some hτ)
  | remote q => cases q <;> exact .inl h
  | _ => exact .inl h

section
variable {c : Choice} {k : Task} {φ : Phase} {op : Op} {f : Ans op → CallTree Op Ans Result} {r : Ans op} {w : World}

/-- The dispatch that is answered has just read the clock, or it has recorded nothing. -/
theorem timed_own (h : Timed x s g) (hf : RepositoryFaultFree s (.call t c)) (hclock : StrictClock s (.call t c))
    (running : s.threads t = some ⟨k, φ, .ask op f⟩) (answered : answer p op c s.state = some (r, w)) (hk : k.Target x)
    {τ : Time} (hg : (g t).next op r = { started := some τ }) {a : Attempt} (ha : a ∈ w.db.attemptList x) :
    a.startedAt < τ := by
  have hfresh : ∀ id a, op ≠ .remote (.recordAttempt id a) := by
    intro id a hop
    subst hop
    have hrecorded := congrArg Stamp.recorded hg
    cases hrecorded
  have hmem : a ∈ s.state.db.attemptList x := by
    rcases attempts_answered (x := x) (t := t) k (hf t c k φ op f rfl running) (answer_cases answered) with
      ⟨hsame, -⟩ | ⟨a', hop, -⟩
    · exact hsame ▸ ha
    · exact absurd hop (hfresh x a')
  rcases started_next (t := t) (k := k) (r := r) (by rw [hg]) with hold | ⟨-, hop, hnew⟩
  · have hrec : (g t).recorded = false := by
      have hnext := congrArg Stamp.recorded hg
      cases op with
      | remote q =>
        cases q with
        | recordAttempt id a => exact absurd rfl (hfresh id a)
        | _ => exact hnext
      | _ => exact hnext
    have hbefore : g t = { started := some τ } := by
      cases hgt : g t
      rw [hgt] at hold hrec
      cases hold
      cases hrec
      rfl
    exact h.later t _ τ running hk ⟨op, f, rfl⟩ hbefore a hmem
  · subst hop
    have hread := hclock t c k φ .now f rfl running rfl _ (h.past a hmem)
    cases answer_cases answered
    cases hnew
    exact hread

/-- A call is answered. -/
theorem timed_call (hn : Tallied p x s g) (h : Timed x s g) (hf : RepositoryFaultFree s (.call t c))
    (hclock : StrictClock s (.call t c)) (running : s.threads t = some ⟨k, φ, .ask op f⟩)
    (answered : answer p op c s.state = some (r, w)) :
    Timed x ⟨w, Function.update s.threads t (some ⟨k, φ.next op r, f r⟩), ⟨t, k, op, r⟩ :: s.hist⟩
      (Function.update g t ((g t).next op r)) := by
  have hstamped : op.StampedBy (g t) := hn.watched.may running
  have hdone := attempts_answered (x := x) (t := t) k (hf t c k φ op f rfl running) (answer_cases answered)
  refine ⟨?_, ?_, ?_, ?_⟩
  · intro u τ hu
    by_cases htu : u = t
    · subst htu
      rw [Function.update_self] at hu
      rcases started_next (t := u) (k := k) hu with hold | ⟨-, -, hnew⟩
      · exact mem_readings (h.read u τ hold)
      · exact List.mem_filterMap.mpr ⟨_, List.mem_cons_self, hnew⟩
    · rw [Function.update_of_ne htu] at hu
      exact mem_readings (h.read u τ hu)
  · intro a ha
    rcases hdone with ⟨hsame, -⟩ | ⟨a', rfl, hadd, -⟩
    · exact mem_readings (h.past a (hsame ▸ ha))
    · have ha : a ∈ w.db.attemptList x := ha
      rw [hadd] at ha
      rcases List.mem_append.mp ha with hold | hnew
      · exact mem_readings (h.past a hold)
      · rw [List.mem_singleton.mp hnew]
        exact mem_readings (h.read t _ (by rw [show g t = _ from hstamped]))
  · intro u th τ hu hk hl hg a ha
    rcases of_update hu with ⟨rfl, hth⟩ | ⟨hne, hth⟩
    · cases hth
      rw [Function.update_self] at hg
      exact timed_own h hf hclock running answered hk hg ha
    · rw [Function.update_of_ne hne] at hg
      rcases hdone with ⟨hsame, -⟩ | ⟨a', rfl, -, -⟩
      · exact h.later u th τ hth hk hl hg a (hsame ▸ ha)
      · -- two dispatches of `x`
        exact absurd (hn.dispatch u t th _ hth running hk (target_of_records hn.conforms running) hl ⟨_, _, rfl⟩) hne
  · show (w.db.attemptList x).Pairwise _
    rcases hdone with ⟨hsame, -⟩ | ⟨a', rfl, hadd, -⟩
    · rw [hsame]
      exact h.ordered
    · rw [hadd]
      apply List.pairwise_append.mpr
      refine ⟨h.ordered, List.pairwise_singleton _ _, fun a ha b hb => ?_⟩
      rw [List.mem_singleton.mp hb]
      exact h.later t _ _ running (target_of_records hn.conforms running) ⟨_, _, rfl⟩ hstamped a ha

end

/-- The numbers and the readings, after a step. -/
theorem recorded_step (hn : Tallied p x s g) (h : Timed x s g) (hok : Serially x s l)
    (hrep : Replaying x s l → Untried x s) (hs : (machine p).Step s l s') :
    ∃ g', Tallied p x s' g' ∧ Timed x s' g' := by
  have hnum : ∀ {h : Nat → Stamp}, Machine.Watched (stampWatch p) h s' → Tallied p x s' h := tallied_step hn hok hrep hs
  cases hs with
  | @start t k w free entered =>
    refine ⟨_, hnum (Machine.watched_start hn.watched t k w), ?_⟩
    have hsame : w.db.attemptList x = s.state.db.attemptList x := by rw [enter_db entered]
    refine ⟨?_, ?_, ?_, ?_⟩
    · intro u τ hu
      by_cases htu : u = t
      · subst htu
        rw [Function.update_self] at hu
        cases hu
      · rw [Function.update_of_ne htu] at hu
        exact h.read u τ hu
    · exact fun a ha => h.past a (hsame ▸ ha)
    · intro u th τ hu hk hl hg a ha
      rcases of_update hu with ⟨rfl, -⟩ | ⟨hne, hth⟩
      · rw [Function.update_self] at hg
        cases hg
      · rw [Function.update_of_ne hne] at hg
        exact h.later u th τ hth hk hl hg a (hsame ▸ ha)
    · show (w.db.attemptList x).Pairwise _
      rw [hsame]
      exact h.ordered
  | call running answered =>
    exact ⟨_, hnum (Machine.watched_call hn.watched running answered _),
      timed_call hn h hok.faultless hok.clock running answered⟩
  | @crash t k φ op f running =>
    refine ⟨g, hnum (Machine.watched_crash hn.watched t), h.read, h.past, ?_, h.ordered⟩
    intro u th τ hu hk hl hg
    rcases of_update hu with ⟨-, hth⟩ | ⟨-, hth⟩
    · cases hth
    · exact h.later u th τ hth hk hl hg
  | @move m w moved =>
    have hsame : w.db.attemptList x = s.state.db.attemptList x := by rw [move_db moved]
    refine ⟨g, hnum fun t th hth => hn.watched t th hth, h.read, ?_, ?_, ?_⟩
    · exact fun a ha => h.past a (hsame ▸ ha)
    · exact fun u th τ hu hk hl hg a ha => h.later u th τ hu hk hl hg a (hsame ▸ ha)
    · show (w.db.attemptList x).Pairwise _
      rw [hsame]
      exact h.ordered

/-- The numbers are recorded in their order. -/
theorem numbers_ascend (h : Tallied p x s g) :
    (s.state.db.attemptList x).Pairwise (·.attemptNumber < ·.attemptNumber) := by
  have hrev : (ledger x s.state s.hist).numbers.reverse.Pairwise (· < ·) := List.pairwise_reverse.mpr h.ascending.ordered
  rw [← h.written] at hrev
  exact List.pairwise_map.mp hrev

/-- In every run without repository errors, with one dispatch of `x` at a time and a strictly increasing clock: if `x`
    is replayed only while it is untried, its attempt numbers are distinct, and listed by number its attempts come in
    the order they were started. -/
theorem attempts_in_order (p : Params) (x : String) (s : System)
    (hr : (machine p).Reach (fun s l => Serially x s l ∧ (Replaying x s l → Untried x s)) (System.init p) s) :
    ((s.state.db.detailAttempts x).map (·.attemptNumber)).Nodup ∧
      (s.state.db.detailAttempts x).Pairwise (·.startedAt < ·.startedAt) := by
  have h : ∃ g, Tallied p x s g ∧ Timed x s g := by
    refine hr.invariant (I := fun s => ∃ g, Tallied p x s g ∧ Timed x s g) ⟨_, init_tallied p x, init_timed p x⟩ ?_
    intro s l s' h hok hs
    obtain ⟨g, hn, ht⟩ := h
    exact recorded_step hn ht hok.1 hok.2 hs
  obtain ⟨g, hn, ht⟩ := h
  have hasc := numbers_ascend hn
  -- they are recorded in the order of their numbers, so sorting them does nothing
  have hlist : s.state.db.detailAttempts x = s.state.db.attemptList x :=
    (hasc.imp fun h => Nat.le_of_lt h).insertionSort_eq
  rw [hlist]
  refine ⟨?_, ht.ordered⟩
  exact (List.pairwise_map.mpr hasc).imp fun h => Nat.ne_of_lt h

end

/-- The steps of a run, with the clock set to a later time before each. -/
def later : Int → List Act → List Act
  | _, [] => []
  | n, l :: ls => .move (.clock n) :: l :: later (n + 1) ls

/-- `StrictClock`, computed. -/
def strictClock (s : System) : Act → Bool
  | .call t _ => match s.threads t with
    | some ⟨_, _, .ask .now _⟩ => (readings s.hist).all (· < s.state.clock)
    | _ => true
  | _ => true

theorem strictClock_of_check {s : System} {l : Act} (h : strictClock s l = true) : StrictClock s l := by
  intro t c k φ op f hl hth hop v hv
  subst hl hop
  simp only [strictClock, hth, List.all_eq_true, decide_eq_true_eq] at h
  exact h v hv

/-- `Serially` along a run without ticks. -/
theorem along_serially {p : Params} {x : String} {ls : List Act}
    (hcheck : (machine p).check (fun s l => Act.smooth l && strictClock s l) (System.init p) ls = true)
    (htick : oneTickCheck p ls = true)
    (hone : (machine p).aloneCheck (fun k => decide (k.Target x)) [] (System.init p) ls = true) :
    (machine p).Along (fun s l _ => Serially x s l) (System.init p) ls := by
  have halong := Machine.along_of_check ls hcheck
  have hboth := Machine.Along.and ls halong
    (Machine.Along.and ls (oneScheduler_of_check htick) (Machine.startsAlone_of_check ls (fun _ => rfl) hone))
  refine Machine.Along.mono (fun s l _ h => ?_) ls hboth
  obtain ⟨hstep, hsched, hdispatch⟩ := h
  obtain ⟨hsmooth, hclock⟩ := Bool.and_eq_true_iff.mp hstep
  exact ⟨repositoryFaultFree_of_smooth hsmooth, strictClock_of_check hclock, hsched, hdispatch⟩

/-- Two attempts, the second of which gives up. -/
def twoAttempts : List Act :=
  ingestCalls 0 "d1" ++ retryCalls 1 "d1" "a1" ++ deadLetterCalls 2 "d1" "a2" ⟨"bounced", [.permanent]⟩

theorem attempts_in_order_sample :
    ∃ s, (machine {}).run (System.init {}) (later 1 twoAttempts) = some s ∧
      (s.state.db.detailAttempts "d1").map (·.attemptNumber) = [1, 2] ∧
      (s.state.db.detailAttempts "d1").Pairwise (·.startedAt < ·.startedAt) := by
  have hrun : ((machine {}).run (System.init {}) (later 1 twoAttempts)).map (fun s =>
      (s.state.db.detailAttempts "d1").map (·.attemptNumber)) = some [1, 2] := by
    decide +kernel
  obtain ⟨s, hs, hnumbers⟩ := Option.map_eq_some_iff.mp hrun
  have halong : (machine {}).Along (fun s l _ => Serially "d1" s l) (System.init {}) (later 1 twoAttempts) :=
    along_serially (by decide +kernel) (by decide +kernel) (by decide +kernel)
  have hfresh : (machine {}).Along (fun s l _ => freshClaim s l = true) (System.init {}) (later 1 twoAttempts) :=
    Machine.along_of_check _ (by decide +kernel)
  have hboth : (machine {}).Along (fun s l _ => Serially "d1" s l ∧ (Replaying "d1" s l → Untried "d1" s)) (System.init {})
      (later 1 twoAttempts) := by
    refine Machine.Along.mono (fun s l _ h => ?_) _ (Machine.Along.and _ halong hfresh)
    exact ⟨h.1, fun hrep => absurd hrep (not_replaying_of_freshClaim h.2)⟩
  have h := attempts_in_order {} "d1" s (Machine.reach_of_run _ .refl hboth hs)
  exact ⟨s, hs, hnumbers, h.2⟩

/-- The same, then a replay and one more attempt. -/
def replayedOnce : List Act :=
  twoAttempts ++ .start 3 (.replay "d1") :: runs 3 5 ++ deadLetterCalls 4 "d1" "a3" ⟨"bounced", [.permanent]⟩

/-- After a replay the first attempt is numbered as the very first was, and listed before the second. -/
theorem replay_renumbers :
    (machine {}).Along (fun s l _ => Serially "d1" s l) (System.init {}) (later 1 replayedOnce) ∧
      ∃ s, (machine {}).run (System.init {}) (later 1 replayedOnce) = some s ∧
        (s.state.db.detailAttempts "d1").map (·.attemptNumber) = [1, 1, 2] ∧
        ¬ (s.state.db.detailAttempts "d1").Pairwise (·.startedAt < ·.startedAt) := by
  refine ⟨along_serially (by decide +kernel) (by decide +kernel) (by decide +kernel), ?_⟩
  have hrun : ((machine {}).run (System.init {}) (later 1 replayedOnce)).map (fun s =>
      ((s.state.db.detailAttempts "d1").map (·.attemptNumber), decide ((s.state.db.detailAttempts "d1").Pairwise
        (·.startedAt < ·.startedAt)))) = some ([1, 1, 2], false) := by
    decide +kernel
  obtain ⟨s, hs, hparts⟩ := Option.map_eq_some_iff.mp hrun
  obtain ⟨hnumbers, hpair⟩ := Prod.mk.inj hparts
  exact ⟨s, hs, hnumbers, of_decide_eq_false hpair⟩

end GoCourier
