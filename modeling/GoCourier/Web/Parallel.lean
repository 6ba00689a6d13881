import Mathlib.Data.List.Basic
import GoCourier.Web.LoadTest

/- Every order in which the sends of a parallel run settle. The workers share a cursor and
   a result, and only the head of their loop moves the cursor: whoever takes an index is
   the only one to have it.

   1. `Pool.take` and `Trace.record` are all that a worker does between two awaits; each
      has its lemmas, and the steps of a run are made of them (`step_cases`).
   2. A gauge counts something of the requests that have an outcome and of the workers
      that still owe one. What both have together is what the indices taken so far have
      (`Balanced`), and that stays so along a run.
   3. `Sound` is the invariant of the cursor, the calls, the reports and the workers. In
      its states a run that cannot go on has resolved, with every index handled. -/
namespace GoCourier
namespace LoadTest

variable {Req : Type} {job : Job Req} {p p' : Pool Req} {t : Trace Req} {a : Act} {acts : List Act}

/-! Numbers. -/

theorem increment_of_lt {n : Nat} (h : n < 2 ^ 53) : increment n = n + 1 := Rounding.next_of_lt (by decide) h

theorem le_increment {n : Nat} (h : n ≤ 2 ^ 53) : n ≤ increment n ∧ increment n ≤ 2 ^ 53 := Rounding.le_next (by decide) h

/-! The counters. -/

def LoadRunResult.tally (r : LoadRunResult) : Outcome → Nat
  | .ok => r.ok
  | .fail => r.fail
  | .duplicate => r.duplicates

theorem tally_le (r : LoadRunResult) (o : Outcome) : r.tally o ≤ r.handled := by
  unfold LoadRunResult.handled
  cases o <;> simp only [LoadRunResult.tally] <;> omega

theorem tally_count {r : LoadRunResult} (h : r.handled < 2 ^ 53) (o o' : Outcome) :
    (r.count o).tally o' = r.tally o' + (decide (o = o')).toNat := by
  have hlt : increment (r.tally o) = r.tally o + 1 := increment_of_lt (Nat.lt_of_le_of_lt (tally_le r o) h)
  cases o <;> cases o' <;> simp_all [LoadRunResult.count, LoadRunResult.tally]

theorem handled_eq (r : LoadRunResult) : r.handled = r.tally .ok + r.tally .fail + r.tally .duplicate := rfl

theorem handled_count {r : LoadRunResult} (h : r.handled < 2 ^ 53) (o : Outcome) : (r.count o).handled = r.handled + 1 := by
  rw [handled_eq, handled_eq r, tally_count h, tally_count h, tally_count h]
  cases o <;> simp <;> omega

theorem total_count (r : LoadRunResult) (o : Outcome) : (r.count o).total = r.total := by
  cases o <;> rfl

/-! Gauges. -/

/-- Something counted of the requests with an outcome and of the workers that owe one. A worker
    that has returned owes none. -/
structure Gauge where
  counter : LoadRunResult → Nat
  owes : Worker → Bool
  done : owes .done = false

def Worker.isOpen : Worker → Bool
  | .sending _ | .settled _ _ => true
  | _ => false

def Worker.isSettled : Worker → Bool
  | .settled _ _ => true
  | _ => false

/-- All requests. -/
def Gauge.all : Gauge := ⟨LoadRunResult.handled, Worker.isOpen, rfl⟩

/-- The requests whose outcome is `o`, where `f` says how the send of each index settles. -/
def Gauge.outcome (f : Nat → Settled) (o : Outcome) : Gauge where
  counter r := r.tally o
  owes
    | .sending i => sendOne (f i) = o
    | .settled _ v => sendOne v = o
    | _ => false
  done := rfl

/-- What the indices taken so far have of it. -/
def Gauge.taken (G : Gauge) (t : Trace Req) : Nat := t.built.countP fun i => G.owes (.sending i)

/-- The counter and `n` workers make up what was taken. -/
def Gauge.Weighs (G : Gauge) (t : Trace Req) (n : Nat) : Prop := G.counter t.result + n = G.taken t

def Pool.Balanced (p : Pool Req) (G : Gauge) : Prop := G.Weighs p.trace (p.workers.countP G.owes)

theorem taken_all (t : Trace Req) : Gauge.all.taken t = t.built.length := by
  simp [Gauge.taken, Gauge.all, Worker.isOpen]

/-- One worker of the list changes. -/
theorem countP_set_of {workers : List Worker} {w : Nat} {x : Worker} (g : Worker → Bool) (h : workers[w]? = some x)
    (y : Worker) : (workers.set w y).countP g + (g x).toNat = workers.countP g + (g y).toNat := by
  obtain ⟨hlt, hx⟩ := List.getElem?_eq_some_iff.mp h
  have hite : ∀ z, (if g z = true then 1 else 0) = (g z).toNat := fun z => by cases g z <;> rfl
  have hle := List.boole_getElem_le_countP (p := g) hlt
  rw [List.countP_set hlt, hx, hite, hite]
  rw [hx, hite] at hle
  omega

/-! The head of a worker's loop. -/

theorem take_sending (h : p.next < job.count) :
    p.take job = ({ p with next := increment p.next, trace := p.trace.call job p.next }, .sending p.next) := by
  simp only [Pool.take, if_neg (Nat.not_le.mpr h)]

variable (job p) in
/-- A worker at the head of its loop takes the next index or finishes. -/
theorem take_cases :
    (p.next < job.count ∧
        p.take job = ({ p with next := increment p.next, trace := p.trace.call job p.next }, .sending p.next)) ∨
      (job.count ≤ p.next ∧ p.take job = ({ p with next := increment p.next }, .done)) := by
  rcases Nat.lt_or_ge p.next job.count with h | h
  · exact .inl ⟨h, take_sending h⟩
  · exact .inr ⟨h, by simp only [Pool.take, if_pos h]⟩

theorem take_result : (p.take job).1.trace.result = p.trace.result := by
  obtain ⟨-, htake⟩ | ⟨-, htake⟩ := take_cases job p
  · rw [htake]
    rfl
  · rw [htake]

theorem take_next : (p.take job).1.next = increment p.next := by
  obtain ⟨-, htake⟩ | ⟨-, htake⟩ := take_cases job p
  · rw [htake]
  · rw [htake]

/-- The worker owes what its index has. -/
theorem taken_take (G : Gauge) : G.taken (p.take job).1.trace = G.taken p.trace + (G.owes (p.take job).2).toNat := by
  obtain ⟨-, htake⟩ | ⟨-, htake⟩ := take_cases job p
  · rw [htake, Gauge.taken, Gauge.taken, Trace.call, List.countP_append]
    cases hG : G.owes (.sending p.next) <;> simp [hG]
  · rw [htake, G.done]
    rfl

theorem weighs_take {G : Gauge} {n : Nat} (h : G.Weighs p.trace n) :
    G.Weighs (p.take job).1.trace (n + (G.owes (p.take job).2).toNat) := by
  unfold Gauge.Weighs at h ⊢
  rw [take_result, taken_take]
  omega

/-! An outcome is recorded. -/

theorem record_result (o : Outcome) : (t.record job o).1.result = t.result.count o := rfl

/-! Steps. -/

theorem resume_eq (hreport : ∀ r, job.onProgress r = .ok ()) (w : Nat) (v : Settled) :
    p.resume job w v = { (Pool.take job { p with trace := (p.trace.record job (sendOne v)).1 }).1 with
      workers := p.workers.set w (Pool.take job { p with trace := (p.trace.record job (sendOne v)).1 }).2 } := by
  have hrecorded : (p.trace.record job (sendOne v)).2 = .ok () := hreport _
  simp only [Pool.resume, hrecorded]

theorem step_cases (h : p.step job a = some p') :
    (∃ w i v, a = .settle w i v ∧ p.workers[w]? = some (.sending i) ∧
      p' = { p with workers := p.workers.set w (.settled i v) }) ∨
    ∃ w i v, a = .resume w ∧ p.workers[w]? = some (.settled i v) ∧ p' = p.resume job w v := by
  cases a with
  | settle w i v =>
    simp only [Pool.step] at h
    split at h
    · rename_i hsending
      cases h
      exact .inl ⟨w, i, v, rfl, hsending, rfl⟩
    · cases h
  | resume w =>
    simp only [Pool.step] at h
    split at h
    · rename_i i v hsettled
      cases h
      exact .inr ⟨w, i, v, rfl, hsettled, rfl⟩
    · cases h

/-- The run rule. -/
theorem run_invariant {I : Pool Req → Prop} (hstep : ∀ a ∈ acts, ∀ p p', I p → p.step job a = some p' → I p') (h0 : I p)
    (hrun : p.run job acts = some p') : I p' := by
  induction acts generalizing p with
  | nil =>
    cases hrun
    exact h0
  | cons a acts ih =>
    obtain ⟨p₁, h1, h2⟩ := Option.bind_eq_some_iff.mp hrun
    apply ih _ (hstep a List.mem_cons_self p p₁ h0 h1) h2
    intro b hb
    exact hstep b (List.mem_cons_of_mem a hb)

/-! A gauge along a run. -/

/-- The worker at the head of its loop gets its place among the workers `ws`. -/
theorem balanced_take {G : Gauge} {n : Nat} {ws : List Worker} (h : G.Weighs p.trace n)
    (howes : ws.countP G.owes = n + (G.owes (p.take job).2).toNat) :
    Pool.Balanced { (p.take job).1 with workers := ws } G := by
  unfold Pool.Balanced
  rw [howes]
  exact weighs_take h

theorem balanced_spawn {G : Gauge} (n : Nat) (h : p.Balanced G) : (Pool.spawn job n p).Balanced G := by
  induction n generalizing p with
  | zero => exact h
  | succ n ih =>
    apply ih
    apply balanced_take h
    rw [List.countP_append, List.countP_singleton]
    cases G.owes (p.take job).2 <;> rfl

/-- A gauge stays in balance where a settling send owes what its index has, and where the counter
    moves by what the worker owed. -/
theorem balanced_step {G : Gauge} (hreport : ∀ r, job.onProgress r = .ok ())
    (hsettle : ∀ w i v, a = .settle w i v → G.owes (.settled i v) = G.owes (.sending i))
    (hcounter : ∀ (w i : Nat) (v : Settled), p.workers[w]? = some (.settled i v) →
      G.counter (p.trace.result.count (sendOne v)) = G.counter p.trace.result + (G.owes (.settled i v)).toNat)
    (h : p.Balanced G) (hstep : p.step job a = some p') : p'.Balanced G := by
  rcases step_cases hstep with ⟨w, i, v, rfl, hw, rfl⟩ | ⟨w, i, v, rfl, hw, rfl⟩
  · have hset := countP_set_of G.owes hw (.settled i v)
    rw [hsettle w i v rfl] at hset
    show G.Weighs p.trace ((p.workers.set w (.settled i v)).countP G.owes)
    rw [Nat.add_right_cancel hset]
    exact h
  · rw [resume_eq hreport]
    -- without worker `w`, which owes nothing once its outcome is recorded
    have hless := countP_set_of G.owes hw .done
    rw [G.done, Bool.toNat_false, Nat.add_zero] at hless
    have hweighs : G.Weighs (p.trace.record job (sendOne v)).1 ((p.workers.set w .done).countP G.owes) := by
      have hbefore : G.counter p.trace.result + p.workers.countP G.owes = G.taken p.trace := h
      show G.counter (p.trace.result.count (sendOne v)) + (p.workers.set w .done).countP G.owes = G.taken p.trace
      rw [hcounter w i v hw]
      omega
    apply balanced_take (p := { p with trace := (p.trace.record job (sendOne v)).1 }) hweighs
    have hset := countP_set_of G.owes hw (Pool.take job { p with trace := (p.trace.record job (sendOne v)).1 }).2
    omega

/-! The invariant. -/

/-- The cursor is at `next`. -/
structure Trace.Drawn (job : Job Req) (t : Trace Req) (next : Nat) : Prop where
  next_le : next ≤ 2 ^ 53
  built : t.built = List.range (min next job.count)
  sent : t.sent = t.built.map job.build
  total : t.result.total = job.count
  reports : t.reports.map LoadRunResult.handled = List.range' 1 t.result.handled

structure Pool.Sound (job : Job Req) (p : Pool Req) : Prop where
  drawn : p.trace.Drawn job p.next
  balanced : p.Balanced .all
  seated : ∀ x ∈ p.workers, x ≠ .thrown ∧ (x = .done → job.count ≤ p.next)

theorem sound_start (job : Job Req) : Pool.Sound job ⟨job.start, 0, []⟩ where
  drawn := ⟨Nat.zero_le _, by rw [Nat.zero_min]; rfl, rfl, rfl, rfl⟩
  balanced := rfl
  seated x hx := absurd hx List.not_mem_nil

/-- Every index taken has an outcome or a worker that owes one. -/
theorem Pool.Sound.balance (h : p.Sound job) :
    p.trace.result.handled + p.workers.countP Worker.isOpen = min p.next job.count := by
  have hbalanced := h.balanced
  rw [Pool.Balanced, Gauge.Weighs, taken_all, h.drawn.built, List.length_range] at hbalanced
  exact hbalanced

theorem Pool.Sound.handled_lt {w i : Nat} {v : Settled} (h : p.Sound job) (hw : p.workers[w]? = some (.settled i v)) :
    p.trace.result.handled < 2 ^ 53 := by
  have hbalance := h.balance
  have hopen : 0 < p.workers.countP Worker.isOpen := List.countP_pos_iff.mpr ⟨_, List.mem_of_getElem? hw, rfl⟩
  have hnext := h.drawn.next_le
  omega

theorem drawn_take (hcount : job.count ≤ 2 ^ 53) (h : p.trace.Drawn job p.next) :
    (p.take job).1.trace.Drawn job (p.take job).1.next := by
  have hnext := le_increment h.next_le
  obtain ⟨hlt, htake⟩ | ⟨hge, htake⟩ := take_cases job p
  · have hsucc : increment p.next = p.next + 1 := increment_of_lt (Nat.lt_of_lt_of_le hlt hcount)
    rw [htake]
    refine ⟨hnext.2, ?_, ?_, h.total, h.reports⟩
    · -- the index taken is the one after those already called
      have hbuilt := h.built
      rw [Nat.min_eq_left (Nat.le_of_lt hlt)] at hbuilt
      calc p.trace.built ++ [p.next] = List.range (p.next + 1) := by rw [hbuilt, List.range_succ]
        _ = List.range (min (increment p.next) job.count) := by rw [hsucc, Nat.min_eq_left hlt]
    · calc p.trace.sent ++ [job.build p.next] = p.trace.built.map job.build ++ [job.build p.next] := by rw [h.sent]
        _ = (p.trace.built ++ [p.next]).map job.build := by rw [List.map_append]; rfl
  · rw [htake]
    refine ⟨hnext.2, ?_, h.sent, h.total, h.reports⟩
    have hbuilt := h.built
    rw [Nat.min_eq_right hge] at hbuilt
    rw [Nat.min_eq_right (Nat.le_trans hge hnext.1)]
    exact hbuilt

theorem drawn_record {next : Nat} (hlt : t.result.handled < 2 ^ 53) (h : t.Drawn job next) (o : Outcome) :
    (t.record job o).1.Drawn job next := by
  have hcounted : (t.result.count o).handled = t.result.handled + 1 := handled_count hlt o
  refine ⟨h.next_le, h.built, h.sent, ?_, ?_⟩
  · rw [record_result, total_count, h.total]
  · calc (t.record job o).1.reports.map LoadRunResult.handled
        = t.reports.map LoadRunResult.handled ++ [(t.result.count o).handled] := by
          simp only [Trace.record, List.map_append]
          rfl
      _ = List.range' 1 t.result.handled ++ [1 + t.result.handled] := by rw [h.reports, hcounted, Nat.add_comm]
      _ = List.range' 1 (t.result.count o).handled := by rw [hcounted, List.range'_1_concat]

/-- What a worker at the head of its loop may become next to workers `ws` that are fine. -/
theorem seated_take {ws : List Worker} (hnext : p.next ≤ 2 ^ 53)
    (hseated : ∀ x ∈ ws, x = (p.take job).2 ∨ x ≠ .thrown ∧ (x = .done → job.count ≤ p.next)) :
    ∀ x ∈ ws, x ≠ .thrown ∧ (x = .done → job.count ≤ (p.take job).1.next) := by
  intro x hx
  have hle := (le_increment hnext).1
  rw [take_next]
  rcases hseated x hx with rfl | ⟨hthrown, hdone⟩
  · obtain ⟨hlt, htake⟩ | ⟨hge, htake⟩ := take_cases job p
    · rw [htake]
      exact ⟨fun h => (by cases h), fun h => (by cases h)⟩
    · rw [htake]
      exact ⟨fun h => (by cases h), fun _ => Nat.le_trans hge hle⟩
  · exact ⟨hthrown, fun h => Nat.le_trans (hdone h) hle⟩

theorem sound_spawn (hcount : job.count ≤ 2 ^ 53) (n : Nat) (h : p.Sound job) : (Pool.spawn job n p).Sound job := by
  induction n generalizing p with
  | zero => exact h
  | succ n ih =>
    apply ih
    refine ⟨drawn_take hcount h.drawn, balanced_spawn 1 h.balanced, seated_take h.drawn.next_le fun x hx => ?_⟩
    rcases List.mem_append.mp hx with hold | hnew
    · exact .inr (h.seated x hold)
    · exact .inl (List.mem_singleton.mp hnew)

theorem sound_step (hcount : job.count ≤ 2 ^ 53) (hreport : ∀ r, job.onProgress r = .ok ()) (h : p.Sound job)
    (hstep : p.step job a = some p') : p'.Sound job := by
  have hbalanced : p'.Balanced .all := by
    apply balanced_step hreport _ _ h.balanced hstep
    · intro w i v _
      rfl
    · intro w i v hw
      exact handled_count (h.handled_lt hw) (sendOne v)
  rcases step_cases hstep with ⟨w, i, v, rfl, hw, rfl⟩ | ⟨w, i, v, rfl, hw, rfl⟩
  · refine ⟨h.drawn, hbalanced, fun x hx => ?_⟩
    rcases List.mem_or_eq_of_mem_set hx with hold | rfl
    · exact h.seated x hold
    · exact ⟨fun h => (by cases h), fun h => (by cases h)⟩
  · rw [resume_eq hreport] at hbalanced ⊢
    have hdrawn := drawn_record (h.handled_lt hw) h.drawn (sendOne v)
    refine ⟨drawn_take (p := { p with trace := (p.trace.record job (sendOne v)).1 }) hcount hdrawn, hbalanced, ?_⟩
    apply seated_take (p := { p with trace := (p.trace.record job (sendOne v)).1 }) h.drawn.next_le
    intro x hx
    rcases List.mem_or_eq_of_mem_set hx with hold | rfl
    · exact .inr (h.seated x hold)
    · exact .inl rfl

/-! The workers. -/

theorem length_spawn (n : Nat) (p : Pool Req) : (Pool.spawn job n p).workers.length = p.workers.length + n := by
  induction n generalizing p with
  | zero => rfl
  | succ n ih =>
    have happend : (p.workers ++ [(p.take job).2]).length = p.workers.length + 1 := List.length_append
    calc (Pool.spawn job (n + 1) p).workers.length = (p.workers ++ [(p.take job).2]).length + n := ih _
      _ = p.workers.length + (n + 1) := by omega

theorem resume_result (hreport : ∀ r, job.onProgress r = .ok ()) (w : Nat) (v : Settled) :
    (p.resume job w v).trace.result = p.trace.result.count (sendOne v) := by
  rw [resume_eq hreport]
  exact take_result

theorem take_settled : (p.take job).2.isSettled = false := by
  obtain ⟨-, htake⟩ | ⟨-, htake⟩ := take_cases job p
  · rw [htake]
    rfl
  · rw [htake]
    rfl

theorem resume_workers (hreport : ∀ r, job.onProgress r = .ok ()) (w : Nat) (v : Settled) :
    ∃ x, (p.resume job w v).workers = p.workers.set w x ∧ x.isSettled = false := by
  rw [resume_eq hreport]
  exact ⟨_, rfl, take_settled⟩

theorem length_step (hreport : ∀ r, job.onProgress r = .ok ()) (hstep : p.step job a = some p') :
    p'.workers.length = p.workers.length := by
  rcases step_cases hstep with ⟨w, i, v, rfl, hw, rfl⟩ | ⟨w, i, v, rfl, hw, rfl⟩
  · exact List.length_set
  · obtain ⟨x, hworkers, -⟩ := resume_workers (p := p) hreport w v
    rw [hworkers, List.length_set]

/-- How far a run is: an index handled took two steps, a send that has settled one. -/
def Pool.steps (p : Pool Req) : Nat := 2 * p.trace.result.handled + p.workers.countP Worker.isSettled

theorem steps_spawn (n : Nat) (p : Pool Req) : (Pool.spawn job n p).steps = p.steps := by
  induction n generalizing p with
  | zero => rfl
  | succ n ih =>
    rw [Pool.spawn, ih, Pool.steps, Pool.steps, take_result, List.countP_append, List.countP_singleton, take_settled]
    rfl

theorem steps_step (hreport : ∀ r, job.onProgress r = .ok ()) (h : p.Sound job) (hstep : p.step job a = some p') :
    p'.steps = p.steps + 1 := by
  rcases step_cases hstep with ⟨w, i, v, rfl, hw, rfl⟩ | ⟨w, i, v, rfl, hw, rfl⟩
  · have hset : (p.workers.set w (.settled i v)).countP Worker.isSettled + 0 = p.workers.countP Worker.isSettled + 1 :=
      countP_set_of Worker.isSettled hw (.settled i v)
    show 2 * p.trace.result.handled + (p.workers.set w (.settled i v)).countP Worker.isSettled = p.steps + 1
    unfold Pool.steps
    omega
  · obtain ⟨x, hworkers, hx⟩ := resume_workers (p := p) hreport w v
    have hset : (p.workers.set w x).countP Worker.isSettled + 1 = p.workers.countP Worker.isSettled + x.isSettled.toNat :=
      countP_set_of Worker.isSettled hw x
    rw [hx, Bool.toNat_false] at hset
    have hcounted : (p.trace.result.count (sendOne v)).handled = p.trace.result.handled + 1 :=
      handled_count (h.handled_lt hw) (sendOne v)
    rw [Pool.steps, Pool.steps, hworkers, resume_result hreport, hcounted]
    omega

end LoadTest
end GoCourier
