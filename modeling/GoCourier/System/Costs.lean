import GoCourier.Lib.Cost
import GoCourier.System.Runs

/- How much work one service call is. No call of a service tries a statement, a publication
   or a send twice, so how many calls it makes on the database, the broker, the provider,
   the breaker, the clock and the random source is bounded by the code, and for a flush and
   a tick by the batch size, whatever they answer. -/
namespace GoCourier

open Interleave

/-- The answers a batch is bounded by: a fetch returns no more rows than it was asked for. -/
def Batched : (op : Op) → Ans op → Prop
  | .remote (.fetchPending limit), .ok rows => rows.length ≤ limit
  | .remote (.fetchDue _ limit), .ok ids => ids.length ≤ limit
  | _, _ => True

/-- How many calls a task makes at most. -/
def Task.cost (p : Params) : Task → Nat
  | .ingest _ => 5
  | .dispatch _ _ => 12
  | .handle _ _ _ _ => 13
  | .replay _ => 5
  | .flush => 3 * p.outboxBatchSize + 2
  | .processDue => 5 * p.outboxBatchSize + 2

theorem batched_answer {p : Params} {op : Op} {c : Choice} {w w' : World} {r : Ans op}
    (h : answer p op c w = some (r, w')) : Batched op r := by
  cases answer_cases h with
  | ran q =>
    cases q with
    | fetchPending limit => exact (List.length_map ..).trans_le (List.length_take_le ..)
    | fetchDue before limit => exact (List.length_map ..).trans_le (List.length_take_le ..)
    | _ => exact trivial
  | fault q msg => cases q <;> exact trivial
  | lost q msg => cases q <;> exact trivial
  | _ => exact trivial

/-! One call. -/

section
variable {α : Type} {q : Remote} {op : Op} {n : Nat}

theorem cost_remote : Cost Batched (remote q).run (n + 1) := Cost.ask fun r _ => Cost.done r n

theorem cost_thenRemote {f : Reply q → Go α} (h : ∀ a, Batched (.remote q) (.ok a) → Cost Batched (f a).run n) :
    Cost Batched (remote q >>= f).run (n + 1) := by
  refine Cost.ask fun r hr => ?_
  cases r with
  | ok a => exact h a hr
  | error e => exact Cost.done _ n

theorem cost_thenAttempt {f : Except Err (Reply q) → Go α} (h : ∀ r, Cost Batched (f r).run n) :
    Cost Batched (attempt q >>= f).run (n + 1) := Cost.ask fun r _ => h r

theorem cost_thenAsk {f : Ans op → Go α} (h : ∀ r, Cost Batched (f r).run n) :
    Cost Batched (ask op >>= f).run (n + 1) := Cost.ask fun r _ => h r

theorem cost_thenIgnore {f : Unit → Go α} (h : Cost Batched (f ()).run n) :
    Cost Batched (ignore q >>= f).run (n + 1) := Cost.ask fun _ _ => h

theorem cost_throw (e : Err) : Cost Batched (throw e : Go α).run n := Cost.done _ n

end

/-! The services. -/

section
variable {p : Params} {n : Nat}

theorem cost_delay (attempt : Int) (base max : Duration) : Cost Batched (delay attempt base max).run 1 :=
  cost_thenAsk fun _ => Cost.done _ 0

theorem cost_moveToDLQ (d : Delivery) (now : Time) (msg : String) (att : Option Attempt) :
    Cost Batched (moveToDLQ d now msg att).run 4 := by
  have hrest : ∀ d : Delivery, Cost Batched (do
      DeliveryRepo.update d
      ignore (.publish (dlqSubject d.channel) (dlqBody d msg) [("delivery_id", d.id)])
      AuditRepo.append d.id .movedToDLQ [("error", .str msg)] : Go Unit).run 3 := by
    intro d
    refine cost_thenRemote fun _ _ => ?_
    refine cost_thenIgnore ?_
    exact cost_remote
  unfold moveToDLQ
  cases att with
  | none => exact cost_mono (hrest _) (by decide)
  | some a =>
    refine cost_thenRemote fun _ _ => ?_
    exact hrest _

theorem cost_handleFailure (d : Delivery) (att : Attempt) (e : Err) : Cost Batched (handleFailure p d att e).run 5 := by
  unfold handleFailure
  refine cost_thenAsk fun now => ?_
  simp only []
  split
  · exact cost_moveToDLQ ..
  · refine cost_thenRemote fun _ _ => ?_
    refine cost_thenRemote fun _ _ => ?_
    refine cost_thenIgnore ?_
    exact cost_bindE (n := 0) (cost_delay ..) fun _ => cost_throw _

theorem cost_dispatchClaimed (proc : Nat) (d : Delivery) (now : Time) :
    Cost Batched (dispatchClaimed p proc d now).run 9 := by
  unfold dispatchClaimed
  split
  · exact cost_mono (cost_moveToDLQ ..) (by decide)
  · refine cost_thenAsk fun admitted => ?_
    refine cost_thenAsk fun id => ?_
    cases admitted with
    | error e => exact cost_mono (cost_handleFailure ..) (by decide)
    | ok _ =>
      refine cost_thenAsk fun sent => ?_
      cases sent with
      | error e =>
        refine cost_thenAsk fun _ => ?_
        exact cost_handleFailure ..
      | ok result =>
        refine cost_thenAsk fun _ => ?_
        refine cost_thenAsk fun done => ?_
        refine cost_thenRemote fun _ _ => ?_
        refine cost_thenRemote fun _ _ => ?_
        exact cost_remote

theorem cost_dispatch (proc : Nat) (id : String) : Cost Batched (dispatch p proc id).run 12 := by
  unfold dispatch
  refine cost_thenRemote fun d _ => ?_
  split
  · exact Cost.done _ _
  split
  · exact Cost.done _ _
  refine cost_thenAsk fun now => ?_
  cases d.startProcessing now with
  | error e => exact cost_throw e
  | ok d' =>
    refine cost_thenRemote fun updated _ => ?_
    split
    · exact cost_dispatchClaimed ..
    · exact Cost.done _ _

theorem cost_consume (proc i c : Nat) (m : Message) : Cost Batched (consume p proc i c m).run 13 := by
  have hhandle : Cost Batched (handleMessage p proc m).run 12 := by
    unfold handleMessage
    split
    · exact cost_throw _
    · exact cost_dispatch ..
  refine cost_bind (n := 1) (fun r => ?_) hhandle
  cases r with
  | ok _ => exact Cost.ask fun _ _ => Cost.done _ 0
  | error e => exact Cost.ask fun _ _ => Cost.done _ 0

theorem cost_replayDelivery (id : String) : Cost Batched (replayDelivery p id).run 5 := by
  unfold replayDelivery
  refine cost_thenRemote fun d _ => ?_
  refine cost_thenAsk fun now => ?_
  cases d.replay now with
  | error e => exact cost_throw e
  | ok d' =>
    refine cost_thenRemote fun _ _ => ?_
    refine cost_thenRemote fun _ _ => ?_
    exact cost_remote

theorem cost_register (d : Delivery) (now : Time) : Cost Batched (register p d now).run 2 := by
  unfold register
  split
  · exact cost_throw _
  · refine cost_thenAttempt fun stored => ?_
    cases stored with
    | ok _ => exact Cost.done _ _
    | error e =>
      simp only []
      split
      · refine cost_thenRemote fun _ _ => ?_
        exact Cost.done _ _
      · exact cost_throw e

theorem cost_newDelivery (req : IngestRequest) (now : Time) : Cost Batched (newDeliveryFromRequest req now).run 1 := by
  unfold newDeliveryFromRequest
  split
  · exact cost_throw _
  · split
    · exact cost_thenAsk fun id => Cost.done _ 0
    · exact cost_throw _
    · exact cost_throw _

theorem cost_ingest (req : IngestRequest) : Cost Batched (ingest p req).run 5 := by
  unfold ingest
  split
  · exact cost_throw _
  split
  · exact cost_throw _
  refine cost_thenAttempt fun found => ?_
  cases found with
  | ok existing => exact Cost.done _ _
  | error e =>
    simp only []
    split
    · refine cost_thenAsk fun now => ?_
      exact cost_bindE (n := 2) (cost_newDelivery _ now) fun d => cost_register d now
    · exact cost_throw e

/-- The loop of a flush: a row costs three calls at most, whatever becomes of it. -/
theorem cost_publishRows : ∀ rows : List OutboxMessage, Cost Batched (publishRows rows).run (3 * rows.length)
  | [] => Cost.done _ _
  | m :: ms => by
    have ih := cost_publishRows ms
    have hlen : 3 * (m :: ms).length = 3 * ms.length + 1 + 1 + 1 := by
      rw [List.length_cons]
      omega
    rw [publishRows, hlen]
    refine cost_thenAttempt fun published => ?_
    cases published with
    | error e => exact cost_mono ih (by omega)
    | ok b =>
      cases b with
      | true =>
        refine cost_thenIgnore ?_
        exact cost_mono ih (by omega)
      | false =>
        refine cost_thenAttempt fun sent => ?_
        cases sent with
        | error e => exact cost_thenIgnore ih
        | ok _ => exact cost_thenIgnore ih

theorem cost_flush : Cost Batched (flush p).run (3 * p.outboxBatchSize + 2) := by
  unfold flush
  refine cost_thenIgnore ?_
  refine cost_thenRemote fun rows hrows => ?_
  have hlen : rows.length ≤ p.outboxBatchSize := hrows
  exact cost_mono (cost_publishRows rows) (Nat.mul_le_mul_left 3 hlen)

/-- The loop of a tick. -/
theorem cost_processRows (now : Time) : ∀ ids : List String, Cost Batched (processRows p now ids).run (5 * ids.length)
  | [] => Cost.done _ _
  | id :: ids => by
    have ih := cost_processRows now ids
    have hlen : 5 * (id :: ids).length = 5 * ids.length + 1 + 1 + 1 + 1 + 1 := by
      rw [List.length_cons]
      omega
    rw [processRows, hlen]
    refine cost_thenAttempt fun found => ?_
    cases found with
    | error e => exact cost_mono ih (by omega)
    | ok d =>
      simp only []
      cases d.queue now with
      | error e => exact cost_mono ih (by omega)
      | ok d' =>
        refine cost_thenRemote fun _ _ => ?_
        refine cost_thenRemote fun _ _ => ?_
        refine cost_thenRemote fun _ _ => ?_
        exact cost_thenIgnore ih

theorem cost_processDue : Cost Batched (processDue p).run (5 * p.outboxBatchSize + 2) := by
  unfold processDue
  refine cost_thenAsk fun now => ?_
  refine cost_thenRemote fun ids hids => ?_
  have hlen : ids.length ≤ p.outboxBatchSize := hids
  exact cost_mono (cost_processRows now ids) (Nat.mul_le_mul_left 5 hlen)

theorem cost_program (k : Task) : Cost Batched (program p k) (k.cost p) := by
  cases k with
  | ingest req => exact cost_map _ (cost_ingest req)
  | dispatch proc id => exact cost_map _ (cost_dispatch proc id)
  | handle proc i c m => exact cost_map _ (cost_consume proc i c m)
  | replay id => exact cost_map _ (cost_replayDelivery id)
  | flush => exact cost_map _ cost_flush
  | processDue => exact cost_map _ cost_processDue

end

/-- From the start of any service call, over any run in which it does not crash, whatever the other threads do and
    whatever fails. -/
theorem calls_bounded {p : Params} {s s' : System} {t : Nat} {k : Task} {ls : List Act}
    (hrun : (machine p).run s (.start t k :: ls) = some s') (hcrash : Label.crash t ∉ ls) :
    ls.countP (Machine.calls t) ≤ k.cost p ∧
      (ls.countP (Machine.calls t) = k.cost p → ∃ φ r, s'.threads t = some ⟨k, φ, .done r⟩) := by
  obtain ⟨s₁, h1, h2⟩ := Option.bind_eq_some_iff.mp hrun
  cases (machine p).step_iff.mp h1 with
  | start free entered =>
    obtain ⟨φ, prog, m, hth, hcost, hm⟩ := Machine.cost_run (fun _ _ _ _ _ => batched_answer) ls h2
      (fun l hl hne => hcrash (hne ▸ hl)) (Function.update_self ..) (cost_program k)
    refine ⟨by omega, fun hall => ?_⟩
    obtain rfl : m = 0 := by omega
    obtain ⟨r, rfl⟩ := done_of_cost hcost
    exact ⟨φ, r, hth⟩

/-- A dispatch that fails and is to be tried again makes all of its twelve calls. -/
theorem calls_bounded_sample : ∃ s s', (machine {}).run (System.init {}) (ingestCalls 0 "d1") = some s ∧
    (machine {}).run s (retryCalls 1 "d1" "a1") = some s' ∧
    (retryCalls 1 "d1" "a1").countP (Machine.calls 1) = Task.cost {} (.dispatch 0 "d1") ∧
    ∃ φ r, s'.threads 1 = some ⟨.dispatch 0 "d1", φ, .done r⟩ := by
  have hrun : (((machine {}).run (System.init {}) (ingestCalls 0 "d1")).bind fun s =>
      (machine {}).run s (retryCalls 1 "d1" "a1")).isSome = true := by
    decide +kernel
  obtain ⟨s', hs'⟩ := Option.isSome_iff_exists.mp hrun
  obtain ⟨s, hs, hs'⟩ := Option.bind_eq_some_iff.mp hs'
  have hall : (retryCalls 1 "d1" "a1").tail.countP (Machine.calls 1) = Task.cost {} (.dispatch 0 "d1") := by decide
  exact ⟨s, s', hs, hs', hall, (calls_bounded hs' (by decide)).2 hall⟩

end GoCourier
