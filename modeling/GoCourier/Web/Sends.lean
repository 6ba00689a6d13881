import GoCourier.Web.Parallel

/- What a parallel run does, said of all orders in which its sends settle: every index is
   built and sent once, the sends in flight and the reports are as announced, and a run
   in which no promise is left has resolved, with the counters `runSequential` ends with
   (`Job.SendsOnce`).

   The runner does so as long as JavaScript can count the requests and seat the workers,
   and `onProgress` returns (`parallel_sends_once`). Past these bounds it does not, see
   `parallel_bounds`: an array of 2^32 workers is refused, the cursor sticks at 2^53, and
   an `onProgress` that throws takes its worker with it. -/
namespace GoCourier
namespace LoadTest

variable {Req : Type} {job : Job Req} {p p' : Pool Req} {acts : List Act}

/-- What holds of a run at any time. -/
structure Pool.Orderly (job : Job Req) (p : Pool Req) : Prop where
  built : p.trace.built = List.range p.trace.built.length
  within : p.trace.built.length ≤ job.count
  sent : p.trace.sent = p.trace.built.map job.build
  inFlight : p.inFlight ≤ min job.concurrency job.count
  reports : p.trace.reports.map LoadRunResult.handled = List.range' 1 p.trace.reports.length

/-- What a run has done that resolves with `r`. -/
structure Pool.Complete (job : Job Req) (p : Pool Req) (r : LoadRunResult) : Prop where
  built : p.trace.built = List.range job.count
  sent : p.trace.sent = (List.range job.count).map job.build
  reports : p.trace.reports.length = job.count
  handled : r.handled = job.count
  total : r.total = job.count

/-- Where the outcomes of `acts` are those of `f` by index, the sequential runner ends with the counters of `r`. -/
def AsSequential (job : Job Req) (acts : List Act) (r : LoadRunResult) : Prop :=
  ∀ f : Nat → Settled, (∀ w i v, .settle w i v ∈ acts → sendOne v = sendOne (f i)) →
    ∀ (staggerMs : Int) (fuel : Nat), job.count < fuel →
      ∃ r', runSequential job staggerMs f fuel = some (.ok r') ∧ r'.ok = r.ok ∧ r'.fail = r.fail ∧ r'.duplicates = r.duplicates

/-- The runner starts; however its sends settle, the run is orderly and ends, and one that cannot go on has resolved. -/
def Job.SendsOnce (job : Job Req) : Prop :=
  ∃ p₀, runParallel job = .ok p₀ ∧ ∀ acts p, p₀.run job acts = some p →
    p.Orderly job ∧ acts.length ≤ 2 * job.count ∧ ((∀ a, p.step job a = none) → (p.resolved job).isSome = true) ∧
      ∀ r, p.resolved job = some r → p.Complete job r ∧ AsSequential job acts r

/-! The sequential runner. -/

/-- How many of the first `n` indices have the outcome. -/
def expected (f : Nat → Settled) (o : Outcome) (n : Nat) : Nat := (List.range n).countP fun i => sendOne (f i) = o

theorem expected_succ (f : Nat → Settled) (o : Outcome) (n : Nat) :
    expected f o (n + 1) = expected f o n + (decide (sendOne (f n) = o)).toNat := by
  unfold expected
  rw [List.range_succ, List.countP_append, List.countP_singleton]
  by_cases h : sendOne (f n) = o <;> simp [h]

theorem sequentialFrom_ends (hcount : job.count ≤ 2 ^ 53) (hreport : ∀ r, job.onProgress r = .ok ()) (staggerMs : Int)
    (f : Nat → Settled) {fuel i : Nat} {t : Trace Req} (hfuel : job.count < fuel + i) (hi : i ≤ job.count)
    (hhandled : t.result.handled = i) (htally : ∀ o, t.result.tally o = expected f o i) :
    ∃ t', sequentialFrom job staggerMs f fuel i t = some (.ok t') ∧ ∀ o, t'.result.tally o = expected f o job.count := by
  induction fuel generalizing i t with
  | zero => omega
  | succ fuel ih =>
    rcases Nat.lt_or_ge i job.count with hlt | hge
    · have hsmall : t.result.handled < 2 ^ 53 := by omega
      have hrecorded : ((t.call job i).record job (sendOne (f i))).2 = .ok () := hreport _
      simp only [sequentialFrom, if_neg (Nat.not_le.mpr hlt), hrecorded]
      -- the sleep leaves the counters alone
      have hresult : ∀ c : Bool, (if c then { ((t.call job i).record job (sendOne (f i))).1 with
          slept := ((t.call job i).record job (sendOne (f i))).1.slept ++ [staggerMs] }
          else ((t.call job i).record job (sendOne (f i))).1).result = t.result.count (sendOne (f i)) := by
        intro c
        cases c <;> rfl
      have hresult := hresult (decide (0 < staggerMs ∧ i < double (job.count - 1)))
      simp only [decide_eq_true_eq] at hresult
      rw [increment_of_lt (by omega)]
      apply ih (by omega) hlt
      · rw [hresult, handled_count hsmall, hhandled]
      · intro o
        rw [hresult, tally_count hsmall, htally, expected_succ]
    · have heq : i = job.count := Nat.le_antisymm hi hge
      subst heq
      refine ⟨t, ?_, htally⟩
      simp only [sequentialFrom, if_pos hge]

theorem runSequential_ends (hcount : job.count ≤ 2 ^ 53) (hreport : ∀ r, job.onProgress r = .ok ()) (staggerMs : Int)
    (f : Nat → Settled) {fuel : Nat} (hfuel : job.count < fuel) :
    ∃ r, runSequential job staggerMs f fuel = some (.ok r) ∧ ∀ o, r.tally o = expected f o job.count := by
  have hzero : ∀ o, job.start.result.tally o = expected f o 0 := fun o => by cases o <;> rfl
  obtain ⟨t, ht, htally⟩ := sequentialFrom_ends hcount hreport staggerMs f hfuel (Nat.zero_le _) rfl hzero
  refine ⟨t.finish job, ?_, fun o => ?_⟩
  · rw [runSequential, ht]
    rfl
  · rw [← htally o]
    cases o <;> rfl

/-! The start and the end of a parallel run. -/

theorem runParallel_ok (hlimit : min job.concurrency job.count < arrayLimit) :
    runParallel job = .ok (Pool.spawn job job.limit ⟨job.start, 0, []⟩) := by
  have hlt : job.limit < arrayLimit := Nat.max_lt.mpr ⟨by decide, hlimit⟩
  rw [runParallel, if_neg (Nat.not_le.mpr hlt)]

/-- In every state of a run: the invariant, and where the run is. -/
theorem run_sound (hcount : job.count ≤ 2 ^ 53) (hreport : ∀ r, job.onProgress r = .ok ()) (h : p.Sound job)
    (hrun : p.run job acts = some p') :
    p'.Sound job ∧ p'.workers.length = p.workers.length ∧ p'.steps = p.steps + acts.length := by
  induction acts generalizing p with
  | nil =>
    cases hrun
    exact ⟨h, rfl, rfl⟩
  | cons a acts ih =>
    obtain ⟨p₁, h1, h2⟩ := Option.bind_eq_some_iff.mp hrun
    obtain ⟨hsound, hlength, hsteps⟩ := ih (sound_step hcount hreport h h1) h2
    have hstep := steps_step hreport h h1
    refine ⟨hsound, hlength.trans (length_step hreport h1), ?_⟩
    rw [hsteps, hstep, List.length_cons]
    omega

/-- Where the outcomes of the run are those of `f`, its gauges stay in balance. -/
theorem run_balanced (hcount : job.count ≤ 2 ^ 53) (hreport : ∀ r, job.onProgress r = .ok ()) {f : Nat → Settled}
    (hf : ∀ w i v, .settle w i v ∈ acts → sendOne v = sendOne (f i)) (o : Outcome) (h : p.Sound job)
    (hbalanced : p.Balanced (.outcome f o)) (hrun : p.run job acts = some p') : p'.Balanced (.outcome f o) := by
  have hboth : p'.Sound job ∧ p'.Balanced (.outcome f o) := by
    apply run_invariant (I := fun p => p.Sound job ∧ p.Balanced (.outcome f o)) _ ⟨h, hbalanced⟩ hrun
    rintro a ha q q' ⟨hq, hbal⟩ hstep
    refine ⟨sound_step hcount hreport hq hstep, ?_⟩
    apply balanced_step hreport _ _ hbal hstep
    · intro w i v heq
      subst heq
      simp only [Gauge.outcome, hf w i v ha]
    · intro w i v hw
      exact tally_count (hq.handled_lt hw) (sendOne v) o
  exact hboth.2

theorem Pool.Sound.reports_length (h : p.Sound job) : p.trace.reports.length = p.trace.result.handled := by
  have hlength := congrArg List.length h.drawn.reports
  rw [List.length_map, List.length_range'] at hlength
  exact hlength

theorem Pool.Sound.orderly (hconc : 0 < job.concurrency) (h : p.Sound job) (hlength : p.workers.length = job.limit) :
    p.Orderly job where
  built := by rw [h.drawn.built, List.length_range]
  within := by
    rw [h.drawn.built, List.length_range]
    exact Nat.min_le_right _ _
  sent := h.drawn.sent
  inFlight := by
    have hopen : p.inFlight ≤ p.workers.countP Worker.isOpen := by
      apply List.countP_mono_left
      intro x _ hx
      cases x <;> first | rfl | cases hx
    have hworkers : p.workers.countP Worker.isOpen ≤ job.limit := hlength ▸ List.countP_le_length
    have hbalance := h.balance
    unfold Job.limit at hworkers
    omega
  reports := by rw [h.reports_length, h.drawn.reports]

/-- A run that cannot go on has resolved: no worker awaits a send or has yet to go on. -/
theorem Pool.Sound.resolves (h : p.Sound job) (hstuck : ∀ a, p.step job a = none) : (p.resolved job).isSome = true := by
  have hdone : p.workers.all (· = .done) = true := by
    rw [List.all_eq_true]
    intro x hx
    obtain ⟨w, hw⟩ := List.mem_iff_getElem?.mp hx
    cases x with
    | sending i =>
      have hstep := hstuck (.settle w i .rejected)
      rw [Pool.step, if_pos hw] at hstep
      cases hstep
    | settled i v =>
      have hstep := hstuck (.resume w)
      simp only [Pool.step, hw] at hstep
      cases hstep
    | done => rfl
    | thrown => exact absurd rfl (h.seated _ hx).1
  rw [Pool.resolved, if_pos hdone]
  rfl

theorem resolved_cases {r : LoadRunResult} (h : p.resolved job = some r) :
    (∀ x ∈ p.workers, x = .done) ∧ r = p.trace.finish job := by
  unfold Pool.resolved at h
  split at h
  · rename_i hall
    cases h
    exact ⟨fun x hx => of_decide_eq_true (List.all_eq_true.mp hall x hx), rfl⟩
  · cases h

/-- Nothing is owed where all workers have returned. -/
theorem balanced_done {G : Gauge} (h : p.Balanced G) (hdone : ∀ x ∈ p.workers, x = .done) :
    G.counter p.trace.result = G.taken p.trace := by
  have hzero : p.workers.countP G.owes = 0 := by
    rw [List.countP_eq_zero]
    intro x hx
    rw [hdone x hx, G.done]
    decide
  rw [Pool.Balanced, hzero] at h
  exact h

theorem Pool.Sound.built_all (h : p.Sound job) (hworkers : 0 < p.workers.length) (hdone : ∀ x ∈ p.workers, x = .done) :
    p.trace.built = List.range job.count := by
  obtain ⟨x, hx⟩ := List.exists_mem_of_length_pos hworkers
  rw [h.drawn.built, Nat.min_eq_right ((h.seated x hx).2 (hdone x hx))]

theorem Pool.Sound.complete {r : LoadRunResult} (h : p.Sound job) (hworkers : 0 < p.workers.length)
    (hresolved : p.resolved job = some r) : p.Complete job r := by
  obtain ⟨hdone, rfl⟩ := resolved_cases hresolved
  have hbuilt := h.built_all hworkers hdone
  have hhandled : p.trace.result.handled = job.count := by
    have htaken := balanced_done h.balanced hdone
    rw [taken_all, hbuilt, List.length_range] at htaken
    exact htaken
  refine ⟨hbuilt, ?_, ?_, hhandled, h.drawn.total⟩
  · rw [h.drawn.sent, hbuilt]
  · rw [h.reports_length, hhandled]

/-- The counters of a resolved run, where `f` says the outcome of each index. -/
theorem Pool.Sound.tally_eq {r : LoadRunResult} {f : Nat → Settled} {o : Outcome} (h : p.Sound job)
    (hworkers : 0 < p.workers.length) (hbalanced : p.Balanced (.outcome f o)) (hresolved : p.resolved job = some r) :
    r.tally o = expected f o job.count := by
  obtain ⟨hdone, rfl⟩ := resolved_cases hresolved
  calc (p.trace.finish job).tally o = p.trace.result.tally o := by cases o <;> rfl
    _ = (Gauge.outcome f o).taken p.trace := balanced_done hbalanced hdone
    _ = expected f o job.count := by rw [Gauge.taken, h.built_all hworkers hdone]; rfl

/-! The runs. -/

theorem parallel_sends_once (job : Job Req) (hconc : 0 < job.concurrency) (hcount : job.count ≤ 2 ^ 53)
    (hlimit : min job.concurrency job.count < arrayLimit) (hreport : ∀ r, job.onProgress r = .ok ()) : job.SendsOnce := by
  refine ⟨_, runParallel_ok hlimit, fun acts p hrun => ?_⟩
  have hstart := sound_spawn hcount job.limit (sound_start job)
  obtain ⟨hsound, hlength, hsteps⟩ := run_sound hcount hreport hstart hrun
  rw [length_spawn] at hlength
  have hlength : p.workers.length = job.limit := hlength.trans (Nat.zero_add _)
  have hworkers : 0 < p.workers.length := by
    rw [hlength]
    exact Nat.lt_of_lt_of_le Nat.one_pos (Nat.le_max_left _ _)
  have hacts : acts.length ≤ 2 * job.count := by
    have hsettled : p.workers.countP Worker.isSettled ≤ p.workers.countP Worker.isOpen := by
      apply List.countP_mono_left
      intro x _ hx
      cases x <;> first | rfl | cases hx
    have hbalance := hsound.balance
    rw [steps_spawn] at hsteps
    have hsteps : 2 * p.trace.result.handled + p.workers.countP Worker.isSettled = 0 + acts.length := hsteps
    omega
  refine ⟨hsound.orderly hconc hlength, hacts, hsound.resolves, fun r hresolved => ⟨hsound.complete hworkers hresolved, ?_⟩⟩
  intro f hf staggerMs fuel hfuel
  obtain ⟨r', hseq, htally⟩ := runSequential_ends hcount hreport staggerMs f hfuel
  have hsame : ∀ o, r'.tally o = r.tally o := by
    intro o
    have hzero : Pool.Balanced ⟨job.start, 0, []⟩ (.outcome f o) := by cases o <;> rfl
    have hbalanced := run_balanced hcount hreport hf o hstart (balanced_spawn job.limit hzero) hrun
    rw [htally o, hsound.tally_eq hworkers hbalanced hresolved]
  exact ⟨r', hseq, hsame .ok, hsame .fail, hsame .duplicate⟩

/-- Three requests, two at a time. -/
def sampleJob : Job Nat := ⟨3, 2, fun i => 10 * i, fun _ => .ok (), fun n => n⟩

theorem parallel_sends_once_sample : sampleJob.SendsOnce :=
  parallel_sends_once sampleJob (by decide) (by decide) (by decide) fun _ => rfl

/-! Past the bounds. -/

/-- As many workers as no array has places. -/
def wideJob : Job Nat := ⟨2 ^ 32, 2 ^ 32, id, fun _ => .ok (), fun n => n⟩

/-- More requests than the cursor can count. -/
def longJob : Job Nat := ⟨2 ^ 53 + 2, 1, id, fun _ => .ok (), fun n => n⟩

/-- One request, with a callback that throws. -/
def throwingJob : Job Nat := ⟨1, 1, id, fun _ => .error .thrown, fun n => n⟩

/-- One worker after `n` rounds of a run whose cursor sticks at `top`. -/
structure Pool.Looping (top n : Nat) (p : Pool Req) : Prop where
  workers : p.workers = [.sending (min n top)]
  next : p.next = min (n + 1) top
  built : p.trace.built = (List.range (n + 1)).map (min · top)

theorem looping_round {n : Nat} (hcount : 2 ^ 53 < job.count) (hreport : ∀ r, job.onProgress r = .ok ())
    (h : p.Looping (2 ^ 53) n) :
    ∃ p', p.run job [.settle 0 (min n (2 ^ 53)) .rejected, .resume 0] = some p' ∧ p'.Looping (2 ^ 53) (n + 1) := by
  let q : Pool Req := { p with trace := (p.trace.record job .fail).1, workers := [.settled (min n (2 ^ 53)) .rejected] }
  have hlt : q.next < job.count := by
    show p.next < job.count
    rw [h.next]
    omega
  have hnext : increment p.next = min (n + 2) (2 ^ 53) := by
    rw [h.next]
    rcases Nat.lt_or_ge (n + 1) (2 ^ 53) with hn | hn
    · rw [Nat.min_eq_left (Nat.le_of_lt hn), increment_of_lt hn]
      omega
    · rw [Nat.min_eq_right hn, Nat.min_eq_right (Nat.le_succ_of_le hn)]
      exact Rounding.next_two_pow (by decide)
  refine ⟨{ (q.take job).1 with workers := [(q.take job).2] }, ?_, ?_⟩
  · have hsettle : p.step job (.settle 0 (min n (2 ^ 53)) .rejected) =
        some { p with workers := [.settled (min n (2 ^ 53)) .rejected] } := by
      simp [Pool.step, h.workers]
    rw [Pool.run, hsettle, Option.bind_some, Pool.run, Pool.step]
    simp only [List.getElem?_cons_zero, resume_eq hreport, Option.bind_some, Pool.run]
    rfl
  · rw [take_sending hlt]
    refine ⟨?_, hnext, ?_⟩
    · show [Worker.sending p.next] = _
      rw [h.next]
    · show p.trace.built ++ [p.next] = _
      rw [h.built, h.next, List.range_succ (n := n + 1), List.map_append]
      rfl

theorem looping_rounds {k : Nat} (n : Nat) (hcount : 2 ^ 53 < job.count) (hreport : ∀ r, job.onProgress r = .ok ())
    (h : p.Looping (2 ^ 53) k) : ∃ acts p', p.run job acts = some p' ∧ p'.Looping (2 ^ 53) (k + n) := by
  induction n generalizing k p with
  | zero => exact ⟨[], p, rfl, h⟩
  | succ n ih =>
    obtain ⟨p₁, hround, h₁⟩ := looping_round hcount hreport h
    obtain ⟨acts, p', hrun, h'⟩ := ih h₁
    refine ⟨.settle 0 (min k (2 ^ 53)) .rejected :: .resume 0 :: acts, p', ?_, ?_⟩
    · rw [Pool.run] at hround ⊢
      obtain ⟨q, hq, hq₁⟩ := Option.bind_eq_some_iff.mp hround
      rw [Pool.run] at hq₁
      obtain ⟨q₁, hq₂, hend⟩ := Option.bind_eq_some_iff.mp hq₁
      cases hend
      rw [hq, Option.bind_some, Pool.run, hq₂, Option.bind_some, hrun]
    · rw [Nat.add_right_comm] at h'
      exact h'

/-- An index past `top` is not among those the loop builds. -/
theorem looping_repeats {top n : Nat} (h : top < n) : (List.range (n + 1)).map (min · top) ≠ List.range (n + 1) := by
  intro heq
  have hlast := congrArg (·[n]?) heq
  simp at hlast
  omega

/-- The runner past each of the bounds. -/
theorem parallel_bounds : ¬ wideJob.SendsOnce ∧ ¬ longJob.SendsOnce ∧ ¬ throwingJob.SendsOnce := by
  refine ⟨?_, ?_, ?_⟩
  · rintro ⟨p₀, hstart, -⟩
    have hrefused : runParallel wideJob = .error .rangeError := rfl
    rw [hrefused] at hstart
    cases hstart
  · rintro ⟨p₀, hstart, hruns⟩
    have hfirst : p₀.Looping (2 ^ 53) 0 := by
      cases hstart
      exact ⟨rfl, rfl, rfl⟩
    have hmany : 2 ^ 53 < longJob.count := by decide
    have hreport : ∀ r, longJob.onProgress r = .ok () := fun _ => rfl
    obtain ⟨acts, p, hrun, hlooping⟩ := looping_rounds (2 ^ 53 + 1) hmany hreport hfirst
    have hbuilt := (hruns acts p hrun).1.built
    rw [hlooping.built, List.length_map, List.length_range] at hbuilt
    exact looping_repeats (by omega) hbuilt
  · rintro ⟨p₀, hstart, hruns⟩
    cases hstart
    have hrun := (hruns [.settle 0 0 .rejected, .resume 0] _ rfl).2.2.1
    -- its only worker is gone, and nothing is left to happen
    have hresolved := hrun fun a => by
      cases a with
      | settle w i v => cases w <;> rfl
      | resume w => cases w <;> rfl
    cases hresolved

end LoadTest
end GoCourier
