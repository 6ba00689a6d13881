import Mathlib.Algebra.Order.Ring.Int
import GoCourier.System.World

/- The dispatch service (`application/dispatch/service.go`), the consumer callback of
   the broker adapter that feeds it (`nats/broker.go`), and the retry delay it logs
   (`pkg/retry`). Metrics, traces and log lines are left out. -/
namespace GoCourier

/-- A 64-bit two's-complement value. -/
def wrap64 (n : Int) : Int := n.bmod (2 ^ 64)

/-- `retry.Delay`. -/
def delay (attempt : Int) (base max : Duration) : Go Duration := do
  let attempt := if attempt < 1 then 1 else attempt
  let d := wrap64 (base * wrap64 (2 ^ (attempt - 1).toNat))
  let d := if d > max then max else d
  let jitter ← ask (.int63n (d.tdiv 2))
  pure (wrap64 (d + jitter))

/-- A dead-lettered delivery's message: its id and its last error. -/
def dlqBody (d : Delivery) (errMsg : String) : Body := .object [("delivery_id", d.id), ("error", errMsg)]

def moveToDLQ (d : Delivery) (now : Time) (errMsg : String) (att : Option Attempt) : Go Unit := do
  let d ← match att with
    | some a => do
      let a := { a with errorMessage := errMsg, finishedAt := some now }
      DeliveryRepo.recordAttempt d.id a
      pure (d.markDLQ a errMsg now)
    | none => pure (d.markDLQ {} errMsg now)
  DeliveryRepo.update d
  ignore (.publish (dlqSubject d.channel) (dlqBody d errMsg) [("delivery_id", d.id)])
  AuditRepo.append d.id .movedToDLQ [("error", .str errMsg)]

section
variable (p : Params)

/-- No retry is left after this failure. -/
def giveUp (d : Delivery) (err : Err) : Prop := isPermanent err ∨ (d.retryCount + 1 : Int) ≥ p.maxAttempts

instance (d : Delivery) (err : Err) : Decidable (giveUp p d err) := inferInstanceAs (Decidable (_ ∨ _))

def handleFailure (d : Delivery) (att : Attempt) (err : Err) : Go Unit := do
  let now ← ask .now
  let errMsg := err.text
  if giveUp p d err then moveToDLQ d now errMsg (some att)
  else do
    let att := { att with errorMessage := errMsg, finishedAt := some now }
    let d := d.markRetrying att errMsg now
    DeliveryRepo.update d
    DeliveryRepo.recordAttempt d.id att
    ignore (.append d.id .dispatchFailed
      [("error", .str errMsg), ("attempt", .num att.attemptNumber), ("retry", .flag true)])
    let _ ← delay d.retryCount p.retryBase p.retryMax
    throw errTransient

/-- `Dispatch` once `UpdateIfStatus` has made the delivery its own. -/
def dispatchClaimed (proc : Nat) (d : Delivery) (now : Time) : Go Unit := do
  if d.channel ∉ p.providers then moveToDLQ d now "no provider for channel" none
  else do
    let admitted ← ask (.allow proc d.channel)
    let id ← ask .newUUID
    let att : Attempt := { id, attemptNumber := d.retryCount + 1, startedAt := now }
    match admitted with
    | .error _ => handleFailure p d att errTransient
    | .ok () => do
      let sent ← ask (.send d)
      match sent with
      | .error err => do
        let _ ← ask (.recordFailure proc d.channel)
        handleFailure p d att err
      | .ok result => do
        let _ ← ask (.recordSuccess proc d.channel)
        let att := { att with providerResponse := some result }
        let done ← ask .now
        -- `MarkSucceeded` finishes its own copy of the attempt; the one recorded below stays as it is
        let d := d.markSucceeded att done
        DeliveryRepo.update d
        DeliveryRepo.recordAttempt d.id att
        AuditRepo.append d.id .dispatchSucceeded [("attempt", .num att.attemptNumber)]

def dispatch (proc : Nat) (deliveryId : String) : Go Unit := do
  let d ← DeliveryRepo.findByID deliveryId
  if d.status = .succeeded then pure ()
  else if d.status = .dlq then pure ()
  else do
    let now ← ask .now
    match d.startProcessing now with
    | .error e => if d.status = .succeeded then pure () else throw e
    | .ok d' => do
      let updated ← DeliveryRepo.updateIfStatus d' d.status
      if updated then dispatchClaimed p proc d' now else pure ()

/-- The delivery a message names: its envelope's `delivery_id`, or else its header's. -/
def Message.deliveryId (m : Message) : Except Err String :=
  match m.body with
  | .malformed => .error ⟨"unmarshal envelope", []⟩
  | .object fields =>
    let id := (fields.lookup "delivery_id").getD ""
    let id := if id = "" then (m.headers.lookup "delivery_id").getD "" else id
    if id = "" then .error ⟨"missing delivery_id", []⟩ else .ok id

def handleMessage (proc : Nat) (m : Message) : Go Unit :=
  match m.deliveryId with
  | .error e => throw e
  | .ok id => dispatch p proc id

/-- `Subscribe`'s callback on consumer `c`'s copy of message `i`. -/
def consume (proc i c : Nat) (m : Message) : Go Unit := ExceptT.mk do
  match ← (handleMessage p proc m).run with
  | .error _ => @Interleave.CallTree.call Op Ans (.nak i c)
  | .ok () => @Interleave.CallTree.call Op Ans (.ack i c)
  pure (.ok ())

/-- A message's body when all it says is which delivery it is for. -/
def idBody (id : String) : Body := .object [("delivery_id", id)]

/-- The headers of a replay's message. -/
def replayHeaders (id : String) : Headers := [("delivery_id", id), ("replay", "true")]

def replayDelivery (deliveryId : String) : Go Unit := do
  let d ← DeliveryRepo.findByID deliveryId
  let now ← ask .now
  match d.replay now with
  | .error e => throw e
  | .ok d => do
    let d := { d with retryCount := 0 }
    DeliveryRepo.update d
    MessageBroker.publish (notificationSubject p.streamPrefix d.channel d.priority) (idBody d.id)
      (replayHeaders d.id)
    AuditRepo.append d.id .replayed [("operator", .str "api")]

end

/-- The message of a delivery names it. -/
theorem deliveryId_idBody {id : String} (h : id ≠ "") (subject : String) (headers : Headers) :
    (Message.mk subject (idBody id) headers).deliveryId = .ok id := by
  simp [Message.deliveryId, idBody, h]

end GoCourier
