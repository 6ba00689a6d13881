import GoCourier.Lib.Rounding
import GoCourier.Domain.Values

/- The dashboard's load runner (`loadTest.ts`). JavaScript runs one piece of code at a
   time, up to its next `await`. `runParallel` therefore starts its workers one after the
   other (`spawn`), and from then on, in whatever order it happens, a promise of `send`
   settles or a worker whose promise has settled goes on (`Act`).

   Counts are doubles: `n++` is exact below 2^53 and sticks there (`increment`), and an
   array of 2^32 places is refused. What the runner does to the outside, the calls of
   `build`, `send` and `onProgress` and its sleeps, is recorded in a `Trace`. -/
namespace GoCourier
namespace LoadTest

/-- The double nearest to `n`. -/
def double (n : Nat) : Nat := Rounding.round 53 n

/-- `n++`. -/
def increment (n : Nat) : Nat := Rounding.next 53 n

/-- A JavaScript array has fewer places. -/
def arrayLimit : Nat := 2 ^ 32

/-- Why a promise of the runner is rejected. -/
inductive Rejection where
  | rangeError
  | thrown
  deriving DecidableEq, Repr

structure SendNotificationResp where
  deliveryId : String
  status : Status
  duplicate : Option Bool
  deriving DecidableEq, Repr

/-- How a promise of `send` settles. A `send` that throws is caught like a rejection. -/
inductive Settled where
  | fulfilled (res : SendNotificationResp)
  | rejected
  deriving DecidableEq, Repr

inductive Outcome where
  | ok
  | fail
  | duplicate
  deriving DecidableEq, Repr

/-- `sendOne`, after its `await`. -/
def sendOne : Settled → Outcome
  | .fulfilled res => if res.duplicate = some true then .duplicate else .ok
  | .rejected => .fail

structure LoadRunResult where
  ok : Nat
  fail : Nat
  duplicates : Nat
  total : Nat
  elapsedMs : Int
  deriving DecidableEq, Repr

def LoadRunResult.count (r : LoadRunResult) (outcome : Outcome) : LoadRunResult :=
  if outcome = .ok then { r with ok := increment r.ok }
  else if outcome = .duplicate then { r with duplicates := increment r.duplicates }
  else { r with fail := increment r.fail }

/-- The requests that have an outcome. -/
def LoadRunResult.handled (r : LoadRunResult) : Nat := r.ok + r.fail + r.duplicates

/-- What both runners are given. The k-th reading of `performance.now()` is `now k`;
    a callback that throws answers with an error. -/
structure Job (Req : Type) where
  count : Nat
  concurrency : Nat
  build : Nat → Req
  onProgress : LoadRunResult → Except Rejection Unit
  now : Nat → Int

structure Trace (Req : Type) where
  result : LoadRunResult
  built : List Nat
  sent : List Req
  reports : List LoadRunResult
  slept : List Int
  deriving DecidableEq

variable {Req : Type}

def Job.start (job : Job Req) : Trace Req := ⟨⟨0, 0, 0, job.count, 0⟩, [], [], [], []⟩

/-- `send(build(i))`. -/
def Trace.call (job : Job Req) (t : Trace Req) (i : Nat) : Trace Req :=
  { t with built := t.built ++ [i], sent := t.sent ++ [job.build i] }

/-- `performance.now() - started`: the clock is read once at the start and once for each report. -/
def Trace.elapsed (job : Job Req) (t : Trace Req) : Int := job.now (t.reports.length + 1) - job.now 0

/-- The counters move and the callback is called; the second component is how it returns. -/
def Trace.record (job : Job Req) (t : Trace Req) (outcome : Outcome) : Trace Req × Except Rejection Unit :=
  let result := t.result.count outcome
  let report := { result with elapsedMs := t.elapsed job }
  ({ t with result, reports := t.reports ++ [report] }, job.onProgress report)

/-- The result at the end. -/
def Trace.finish (job : Job Req) (t : Trace Req) : LoadRunResult := { t.result with elapsedMs := t.elapsed job }

/-! `runParallel`. -/

/-- A worker awaits the send of `i`, or the send has settled and it has not gone on, or it
    has returned, or `onProgress` threw in it. -/
inductive Worker where
  | sending (i : Nat)
  | settled (i : Nat) (v : Settled)
  | done
  | thrown
  deriving DecidableEq, Repr

def Worker.isSending : Worker → Bool
  | .sending _ => true
  | _ => false

structure Pool (Req : Type) where
  trace : Trace Req
  next : Nat
  workers : List Worker
  deriving DecidableEq

/-- The head of a worker's loop, up to its `await`, with what becomes of the worker. -/
def Pool.take (job : Job Req) (p : Pool Req) : Pool Req × Worker :=
  let i := p.next
  let p := { p with next := increment p.next }
  if job.count ≤ i then (p, .done) else ({ p with trace := p.trace.call job i }, .sending i)

/-- `Array.from({ length: n }, () => worker())`. -/
def Pool.spawn (job : Job Req) : Nat → Pool Req → Pool Req
  | 0, p => p
  | n + 1, p => spawn job n { (p.take job).1 with workers := p.workers ++ [(p.take job).2] }

def Job.limit (job : Job Req) : Nat := max 1 (min job.concurrency job.count)

/-- `runParallel` up to its `await`. -/
def runParallel (job : Job Req) : Except Rejection (Pool Req) :=
  if arrayLimit ≤ job.limit then .error .rangeError
  else .ok (Pool.spawn job job.limit ⟨job.start, 0, []⟩)

/-- What happens next: the send that worker `w` awaits settles, or the worker goes on after it has. -/
inductive Act where
  | settle (w i : Nat) (v : Settled)
  | resume (w : Nat)
  deriving DecidableEq, Repr

/-- Worker `w` goes on with the outcome of its send. -/
def Pool.resume (job : Job Req) (p : Pool Req) (w : Nat) (v : Settled) : Pool Req :=
  let recorded := p.trace.record job (sendOne v)
  let p := { p with trace := recorded.1 }
  match recorded.2 with
  | .error _ => { p with workers := p.workers.set w .thrown }
  | .ok () => { (p.take job).1 with workers := p.workers.set w (p.take job).2 }

def Pool.step (job : Job Req) (p : Pool Req) : Act → Option (Pool Req)
  | .settle w i v =>
    if p.workers[w]? = some (.sending i) then some { p with workers := p.workers.set w (.settled i v) } else none
  | .resume w => match p.workers[w]? with
    | some (.settled _ v) => some (p.resume job w v)
    | _ => none

def Pool.run (job : Job Req) : Pool Req → List Act → Option (Pool Req)
  | p, [] => some p
  | p, a :: acts => (p.step job a).bind fun p' => run job p' acts

/-- What `runParallel` resolves with: `Promise.all` waits for all workers. -/
def Pool.resolved (job : Job Req) (p : Pool Req) : Option LoadRunResult :=
  if p.workers.all (· = .done) then some (p.trace.finish job) else none

def Pool.inFlight (p : Pool Req) : Nat := p.workers.countP Worker.isSending

/-! `runSequential`. -/

/-- The loop from index `i` on, where the send of each index settles as `v` says; `none` where the
    fuel is too little. -/
def sequentialFrom (job : Job Req) (staggerMs : Int) (v : Nat → Settled) :
    Nat → Nat → Trace Req → Option (Except Rejection (Trace Req))
  | 0, _, _ => none
  | fuel + 1, i, t =>
    if job.count ≤ i then some (.ok t)
    else
      let recorded := (t.call job i).record job (sendOne (v i))
      match recorded.2 with
      | .error e => some (.error e)
      | .ok () =>
        let t := recorded.1
        let t := if 0 < staggerMs ∧ i < double (job.count - 1) then { t with slept := t.slept ++ [staggerMs] } else t
        sequentialFrom job staggerMs v fuel (increment i) t

def runSequential (job : Job Req) (staggerMs : Int) (v : Nat → Settled) (fuel : Nat) :
    Option (Except Rejection LoadRunResult) :=
  (sequentialFrom job staggerMs v fuel 0 job.start).map fun r => r.map (Trace.finish job)

end LoadTest
end GoCourier
