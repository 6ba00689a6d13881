import GoCourier.Domain.Routing
import GoCourier.Lib.Machine
import GoCourier.Pkg.Breaker
import GoCourier.Store.Tables

/- What the services share, and the calls they make on it: the tables, the two
   JetStream streams with the copies their durable consumers hold, one circuit
   breaker for each worker process and channel, the clock and the UUIDs drawn.

   A call on the database or the broker (`Remote`) runs, or fails without effect, or
   takes effect while its caller sees an error; which of them is the environment's
   choice, as are the provider's verdict and the UUID drawn.

   A stream is the log of what the broker has accepted into it. How long a message is
   retained (`MaxAge`: 7 days, and 30 for dead letters) is not modelled: a message that
   is dropped is one whose copies are not handed out again, and a run need not hand out
   any copy. So what is said of a stream is that a message was put into it, not that it
   is there still. -/
namespace GoCourier

open Interleave

/-- What the services are built with (`wiring.Params`, `nats.Config`). `providers` are the
    channels with a provider; `concurrency` is the number of consumers `Run` is asked for.
    `jsonb` is the database server's. -/
structure Params where
  streamPrefix : String := "notifications"
  idempotencyTTL : Duration := 86400000000000
  maxAttempts : Int := 8
  retryBase : Duration := 1000000000
  retryMax : Duration := 1800000000000
  cbThreshold : Int := 5
  cbWindow : Duration := 60000000000
  cbCooldown : Duration := 30000000000
  outboxBatchSize : Nat := 50
  providers : List Channel := allChannels
  concurrency : Int := 10
  maxDeliver : Int := 8
  jsonb : Jsonb := .verbatim

/-- `Service.Run` starts `worker-0` to `worker-(n-1)`, at least one of them; every worker
    process subscribes under the same durable names. -/
def Params.consumers (p : Params) : Nat := if p.concurrency < 1 then 1 else p.concurrency.toNat

structure Message where
  subject : String
  body : Body
  headers : Headers
  deriving DecidableEq, Repr

/-- One durable consumer's copy of one stream message: how often it has been handed out,
    whether it is acked, and whether a handler has it. -/
structure Copy where
  delivered : Nat := 0
  acked : Bool := false
  busy : Bool := false
  deriving DecidableEq, Repr

structure World where
  db : Tables := {}
  /-- What was put into the NOTIFICATIONS stream. -/
  stream : List Message := []
  /-- What was put into the DLQ stream. -/
  deadLetters : List Message := []
  /-- By the message's place in the stream and the consumer's number. -/
  copies : Nat × Nat → Copy := fun _ => {}
  breakers : Nat × Channel → Breaker
  clock : Time := 0
  /-- The UUIDs drawn so far. -/
  issued : List String := []

/-- A copy the broker may hand to a handler: not acked, not with one, and not at the
    consumer's `MaxDeliver` (no limit unless positive). -/
def Copy.Due (p : Params) (c : Copy) : Prop :=
  c.acked = false ∧ c.busy = false ∧ (p.maxDeliver ≤ 0 ∨ (c.delivered : Int) < p.maxDeliver)

instance (p : Params) (c : Copy) : Decidable (c.Due p) := inferInstanceAs (Decidable (_ ∧ _ ∧ _))

/-! Calls. -/

inductive Remote where
  | findByID (id : String)
  | findByIdempotencyKey (key : String) (ch : Channel)
  | update (d : Delivery)
  | updateIfStatus (d : Delivery) (expected : Status)
  | recordAttempt (deliveryId : String) (a : Attempt)
  | ingestTransactional (d : Delivery) (expiresAt : Time) (subject : String) (payload : Body)
      (headers : Headers) (schedule : Bool)
  | enqueue (deliveryId subject : String) (payload : Body) (headers : Headers)
  | fetchPending (limit : Nat)
  | countPending
  | markPublished (id : Nat)
  | markFailed (id : Nat) (errMsg : String)
  | hasPublishedForDelivery (deliveryId : String)
  | fetchDue (before : Time) (limit : Nat)
  | markProcessed (deliveryId : String)
  | append (deliveryId : String) (ev : DomainEventType) (payload : AuditPayload)
  | publish (subject : String) (body : Body) (headers : Headers)
  deriving DecidableEq

abbrev Reply : Remote → Type
  | .findByID _ => Delivery
  | .findByIdempotencyKey _ _ => Delivery
  | .updateIfStatus _ _ => Bool
  | .fetchPending _ => List OutboxMessage
  | .countPending => Nat
  | .hasPublishedForDelivery _ => Bool
  | .fetchDue _ _ => List String
  | _ => Unit

inductive Op where
  | now
  | newUUID
  | int63n (n : Int)
  | allow (proc : Nat) (ch : Channel)
  | recordSuccess (proc : Nat) (ch : Channel)
  | recordFailure (proc : Nat) (ch : Channel)
  | send (d : Delivery)
  | ack (i c : Nat)
  | nak (i c : Nat)
  | remote (q : Remote)
  deriving DecidableEq

abbrev Ans : Op → Type
  | .now => Time
  | .newUUID => String
  | .int63n _ => Int
  | .allow _ _ => Except Err Unit
  | .send _ => Except Err ProviderResult
  | .remote q => Except Err (Reply q)
  | _ => Unit

/-- How the environment answers a call. `lost`: it took effect, the caller sees an error. -/
inductive Choice where
  | run
  | fault (msg : String)
  | lost (msg : String)
  | uuid (u : String)
  | rand (n : Int)
  | verdict (v : Except Err ProviderResult)
  deriving DecidableEq

/-! Answers. -/

/-- A statement that changes the tables or fails. -/
def World.store (w : World) : Except Err Tables → Except Err Unit × World
  | .ok t => (.ok (), { w with db := t })
  | .error e => (.error e, w)

/-- A statement keeps what it keeps when it succeeds. -/
theorem store_keeps {P : Tables → Prop} {w : World} {e : Except Err Tables} (h : P w.db) (he : ∀ t, e = .ok t → P t) :
    P (w.store e).2.db := by
  cases e with
  | ok t => exact he t rfl
  | error e => exact h

theorem store_ok {w w' : World} {e : Except Err Tables} (h : w.store e = (.ok (), w')) : e = .ok w'.db := by
  cases e with
  | ok t =>
    cases h
    rfl
  | error e => cases h

theorem store_deliveries {w : World} {e : Except Err Tables}
    (h : ∀ t, e = .ok t → t.deliveries = w.db.deliveries) : (w.store e).2.db.deliveries = w.db.deliveries :=
  store_keeps (P := (·.deliveries = w.db.deliveries)) rfl h

/-- JetStream stores a message in the stream its subject belongs to. -/
def World.publish (p : Params) (w : World) (m : Message) : Except Err Unit × World :=
  if m.subject ∈ allNotificationSubjects p.streamPrefix then (.ok (), { w with stream := w.stream ++ [m] })
  else if m.subject ∈ allDLQSubjects then (.ok (), { w with deadLetters := w.deadLetters ++ [m] })
  else (.error ⟨"no response from stream", []⟩, w)

def exec (p : Params) (w : World) : (q : Remote) → Except Err (Reply q) × World
  | .findByID id => (w.db.findByID id, w)
  | .findByIdempotencyKey key ch => (w.db.findByIdempotencyKey w.clock key ch, w)
  | .update d => (.ok (), { w with db := w.db.update d })
  | .updateIfStatus d expected =>
    (.ok (w.db.updateIfStatus d expected).1, { w with db := (w.db.updateIfStatus d expected).2 })
  | .recordAttempt id a => w.store (w.db.recordAttempt id a)
  | .ingestTransactional d expiresAt subject payload headers schedule =>
    w.store (w.db.ingestTransactional w.clock d expiresAt subject payload headers schedule)
  | .enqueue id subject payload headers => w.store (w.db.enqueue w.clock id subject payload headers)
  | .fetchPending limit => (.ok (w.db.fetchPending limit), w)
  | .countPending => (.ok w.db.countPending, w)
  | .markPublished id => (.ok (), { w with db := w.db.markPublished id })
  | .markFailed id msg => (.ok (), { w with db := w.db.markFailed id msg })
  | .hasPublishedForDelivery id => (.ok (w.db.hasPublishedForDelivery id), w)
  | .fetchDue before limit => (.ok (w.db.fetchDue before limit), w)
  | .markProcessed id => (.ok (), { w with db := w.db.markProcessed id })
  | .append id ev payload => w.store (w.db.append w.clock id ev payload)
  | .publish subject body headers => w.publish p ⟨subject, body, headers⟩

def World.setCopy (w : World) (i c : Nat) (s : Copy) : World :=
  { w with copies := Function.update w.copies (i, c) s }

def World.setBreaker (w : World) (proc : Nat) (ch : Channel) (b : Breaker) : World :=
  { w with breakers := Function.update w.breakers (proc, ch) b }

def answer (p : Params) : (op : Op) → Choice → World → Option (Ans op × World)
  | .now, .run, w => some (w.clock, w)
  | .newUUID, .uuid u, w =>
    if u ≠ "" ∧ u ∉ w.issued then some (u, { w with issued := u :: w.issued }) else none
  -- `rand.Int63n` panics unless its argument is positive: such a call has no answer
  | .int63n n, .rand r, w => if 0 ≤ r ∧ r < n then some (r, w) else none
  | .allow proc ch, .run, w =>
    let (r, b) := (w.breakers (proc, ch)).allow w.clock
    some (r, w.setBreaker proc ch b)
  | .recordSuccess proc ch, .run, w => some ((), w.setBreaker proc ch (w.breakers (proc, ch)).recordSuccess)
  | .recordFailure proc ch, .run, w =>
    some ((), w.setBreaker proc ch ((w.breakers (proc, ch)).recordFailure w.clock))
  | .send _, .verdict v, w => some (v, w)
  | .ack i c, .run, w => some ((), w.setCopy i c { w.copies (i, c) with acked := true, busy := false })
  | .nak i c, .run, w => some ((), w.setCopy i c { w.copies (i, c) with busy := false })
  | .ack _ _, .fault _, w => some ((), w)
  | .nak _ _, .fault _, w => some ((), w)
  | .remote q, .run, w => some (exec p w q)
  | .remote _, .fault msg, w => some (.error ⟨msg, []⟩, w)
  | .remote q, .lost msg, w => some (.error ⟨msg, []⟩, (exec p w q).2)
  | _, _, _ => none

/-- What a call is answered, one case per kind of answer. -/
inductive Answered (p : Params) (w : World) : (op : Op) → Choice → Ans op → World → Prop where
  | now : Answered p w .now .run w.clock w
  | newUUID {u : String} (ne : u ≠ "") (fresh : u ∉ w.issued) :
      Answered p w .newUUID (.uuid u) u { w with issued := u :: w.issued }
  | int63n {n r : Int} (range : 0 ≤ r ∧ r < n) : Answered p w (.int63n n) (.rand r) r w
  | allow (proc : Nat) (ch : Channel) : Answered p w (.allow proc ch) .run
      ((w.breakers (proc, ch)).allow w.clock).1 (w.setBreaker proc ch ((w.breakers (proc, ch)).allow w.clock).2)
  | recordSuccess (proc : Nat) (ch : Channel) : Answered p w (.recordSuccess proc ch) .run ()
      (w.setBreaker proc ch (w.breakers (proc, ch)).recordSuccess)
  | recordFailure (proc : Nat) (ch : Channel) : Answered p w (.recordFailure proc ch) .run ()
      (w.setBreaker proc ch ((w.breakers (proc, ch)).recordFailure w.clock))
  | send (d : Delivery) (v : Except Err ProviderResult) : Answered p w (.send d) (.verdict v) v w
  | ack (i c : Nat) : Answered p w (.ack i c) .run ()
      (w.setCopy i c { w.copies (i, c) with acked := true, busy := false })
  | nak (i c : Nat) : Answered p w (.nak i c) .run () (w.setCopy i c { w.copies (i, c) with busy := false })
  | ackLost (i c : Nat) (msg : String) : Answered p w (.ack i c) (.fault msg) () w
  | nakLost (i c : Nat) (msg : String) : Answered p w (.nak i c) (.fault msg) () w
  | ran (q : Remote) : Answered p w (.remote q) .run (exec p w q).1 (exec p w q).2
  | fault (q : Remote) (msg : String) : Answered p w (.remote q) (.fault msg) (.error ⟨msg, []⟩) w
  | lost (q : Remote) (msg : String) : Answered p w (.remote q) (.lost msg) (.error ⟨msg, []⟩) (exec p w q).2

theorem answer_cases {p : Params} {op : Op} {c : Choice} {w w' : World} {r : Ans op}
    (h : answer p op c w = some (r, w')) : Answered p w op c r w' := by
  cases op with
  | now => cases c <;> cases h; exact .now
  | newUUID =>
    cases c with
    | uuid u =>
      simp only [answer] at h
      split at h
      · rename_i hu
        cases h
        exact .newUUID hu.1 hu.2
      · cases h
    | _ => cases h
  | int63n n =>
    cases c with
    | rand r =>
      simp only [answer] at h
      split at h
      · rename_i hr
        cases h
        exact .int63n hr
      · cases h
    | _ => cases h
  | allow proc ch => cases c <;> cases h; exact .allow proc ch
  | recordSuccess proc ch => cases c <;> cases h; exact .recordSuccess proc ch
  | recordFailure proc ch => cases c <;> cases h; exact .recordFailure proc ch
  | send d => cases c <;> cases h; exact .send d _
  | ack i c' =>
    cases c <;> cases h
    · exact .ack i c'
    · exact .ackLost i c' _
  | nak i c' =>
    cases c <;> cases h
    · exact .nak i c'
    · exact .nakLost i c' _
  | remote q =>
    cases c with
    | run =>
      have hp : exec p w q = (r, w') := Option.some.inj h
      have hr : Answered p w _ _ _ _ := .ran q
      rwa [hp] at hr
    | fault msg =>
      cases h
      exact .fault q msg
    | lost msg =>
      cases h
      exact .lost q msg
    | _ => cases h

/-- A call that is answered without an error has run. -/
theorem answered_ok {p : Params} {q : Remote} {c : Choice} {w w' : World} {a : Reply q}
    (h : Answered p w (.remote q) c (.ok a) w') : c = .run ∧ exec p w q = (.ok a, w') := by
  generalize hr : (Except.ok a : Except Err (Reply q)) = r at h ⊢
  cases h with
  | ran q => exact ⟨rfl, rfl⟩
  | fault q msg => cases hr
  | lost q msg => cases hr

/-! Programs. A service function is a fallible call tree. -/

abbrev Go := ExceptT Err (CallTree Op Ans)

/-- A call whose error is returned at once (`if err != nil { return err }`). -/
def remote (q : Remote) : Go (Reply q) := ExceptT.mk (@CallTree.call Op Ans (.remote q))

/-- A call whose error the caller looks at. -/
def attempt (q : Remote) : Go (Except Err (Reply q)) := ExceptT.lift (@CallTree.call Op Ans (.remote q))

def ask (op : Op) : Go (Ans op) := ExceptT.lift (@CallTree.call Op Ans op)

/-- A call whose error is dropped (`_ = …`). -/
def ignore (q : Remote) : Go Unit := do
  let _ ← attempt q
  pure ()

abbrev DeliveryRepo.findByID (id : String) : Go Delivery := remote (.findByID id)
abbrev DeliveryRepo.findByIdempotencyKey (key : String) (ch : Channel) : Go Delivery :=
  remote (.findByIdempotencyKey key ch)
abbrev DeliveryRepo.update (d : Delivery) : Go Unit := remote (.update d)
abbrev DeliveryRepo.updateIfStatus (d : Delivery) (expected : Status) : Go Bool :=
  remote (.updateIfStatus d expected)
abbrev DeliveryRepo.recordAttempt (id : String) (a : Attempt) : Go Unit := remote (.recordAttempt id a)
abbrev OutboxRepo.enqueue (id subject : String) (payload : Body) (headers : Headers) : Go Unit :=
  remote (.enqueue id subject payload headers)
abbrev OutboxRepo.fetchPending (limit : Nat) : Go (List OutboxMessage) := remote (.fetchPending limit)
abbrev ScheduledRepo.fetchDue (before : Time) (limit : Nat) : Go (List String) := remote (.fetchDue before limit)
abbrev ScheduledRepo.markProcessed (id : String) : Go Unit := remote (.markProcessed id)
abbrev AuditRepo.append (id : String) (ev : DomainEventType) (payload : AuditPayload) : Go Unit :=
  remote (.append id ev payload)
abbrev MessageBroker.publish (subject : String) (body : Body) (headers : Headers) : Go Unit :=
  remote (.publish subject body headers)

section
variable {Φ α : Type} {D : Discipline Op Ans Φ} {φ : Φ}

theorem obeys_remote {q : Remote} {Q : Φ → Except Err (Reply q) → Prop} :
    Obeys D (remote q).run φ Q ↔ D.may φ (.remote q) ∧
      ∀ r : Except Err (Reply q), D.sees (.remote q) r → Q (D.next φ (.remote q) r) r := Iff.rfl

theorem obeys_attempt {q : Remote} {Q : Φ → Except Err (Except Err (Reply q)) → Prop} :
    Obeys D (attempt q).run φ Q ↔ D.may φ (.remote q) ∧
      ∀ r : Except Err (Reply q), D.sees (.remote q) r → Q (D.next φ (.remote q) r) (.ok r) := Iff.rfl

theorem obeys_ask_op {op : Op} {Q : Φ → Except Err (Ans op) → Prop} :
    Obeys D (ask op).run φ Q ↔ D.may φ op ∧ ∀ r, D.sees op r → Q (D.next φ op r) (.ok r) := Iff.rfl

theorem obeys_ignore {q : Remote} {Q : Φ → Except Err Unit → Prop} :
    Obeys D (ignore q).run φ Q ↔ D.may φ (.remote q) ∧
      ∀ r : Except Err (Reply q), D.sees (.remote q) r → Q (D.next φ (.remote q) r) (.ok ()) := Iff.rfl

@[simp] theorem obeys_pureE {a : α} {Q : Φ → Except Err α → Prop} :
    Obeys D (pure a : Go α).run φ Q ↔ Q φ (.ok a) := Iff.rfl

@[simp] theorem obeys_throw {e : Err} {Q : Φ → Except Err α → Prop} :
    Obeys D (throw e : Go α).run φ Q ↔ Q φ (.error e) := Iff.rfl

end

/-! A service call on its own, the environment's choices laid down. -/

/-- Each call answered as `plan` says. -/
def planned (p : Params) (plan : Op → Choice) (op : Op) (w : World) : Option (Ans op × World) := answer p op (plan op) w

section
variable {p : Params} {plan : Op → Choice} {w : World}

theorem solo_remote (q : Remote) :
    CallTree.solo (planned p plan) (remote q).run w = answer p (.remote q) (plan (.remote q)) w :=
  CallTree.solo_call ..

/-- A lifted call in any environment. -/
theorem solo_lifted {σ : Type} (env : (op : Op) → σ → Option (Ans op × σ)) (op : Op) (e : σ) :
    CallTree.solo env (ExceptT.lift (CallTree.call op) : Go (Ans op)).run e =
      (env op e).bind fun r => some (.ok r.1, r.2) := by
  have h := CallTree.solo_bind env (fun r => CallTree.done (.ok r : Except Err (Ans op))) (CallTree.call op) e
  rw [CallTree.solo_call] at h
  exact h

theorem solo_lift (op : Op) :
    CallTree.solo (planned p plan) (ExceptT.lift (CallTree.call op) : Go (Ans op)).run w =
      (answer p op (plan op) w).bind fun r => some (.ok r.1, r.2) :=
  solo_lifted (planned p plan) op w

theorem solo_attempt (q : Remote) : CallTree.solo (planned p plan) (attempt q).run w =
    (answer p (.remote q) (plan (.remote q)) w).bind fun r => some (.ok r.1, r.2) :=
  solo_lift (.remote q)

theorem solo_ask_op (op : Op) : CallTree.solo (planned p plan) (ask op).run w =
    (answer p op (plan op) w).bind fun r => some (.ok r.1, r.2) :=
  solo_lift op

@[simp] theorem solo_pureE {α : Type} (a : α) :
    CallTree.solo (planned p plan) (pure a : Go α).run w = some (.ok a, w) := rfl

@[simp] theorem solo_throw {α : Type} (e : Err) :
    CallTree.solo (planned p plan) (throw e : Go α).run w = some (.error e, w) := rfl

end

end GoCourier
