import GoCourier.Services.Dispatch

/- The ingest service (`application/ingest/service.go`). -/
namespace GoCourier

/-- `NewDeliveryFromRequest`: a pending delivery under a new UUID. Its errors are those of
    `Validate`, as its caller wraps them. -/
def newDeliveryFromRequest (req : IngestRequest) (now : Time) : Go Delivery :=
  match req.validate with
  | .error e => throw (errValidation e)
  | .ok req =>
    match parseChannel req.channel, parsePriority req.priority with
    | .ok channel, .ok priority => do
      let id ← ask .newUUID
      pure { id, channel, priority
             idempotencyKey := req.idempotencyKey
             tenantId := req.metadata.tenantId
             recipient := req.recipient
             template := req.template
             payload := req.payload
             status := .pending
             scheduledAt := req.scheduledAt
             correlationId := req.metadata.correlationId
             causationId := req.metadata.causationId
             createdAt := now
             updatedAt := now }
    -- not reached: `Validate` has parsed both
    | .error e, _ => throw (errValidation e)
    | .ok _, .error e => throw (errValidation e)

/-- The headers of a new notification's message. -/
def notificationHeaders (d : Delivery) : Headers :=
  [("delivery_id", d.id), ("correlation_id", d.correlationId), ("idempotency_key", d.idempotencyKey),
   ("channel", d.channel.text)]

/-- A delivery that is not for later is queued at once. -/
def queueUnlessScheduled (d : Delivery) (now : Time) : Except Err Delivery :=
  if d.shouldSchedule now then .ok d else d.queue now

/-- The transaction of `Ingest`, and the second look at the key where it lost. -/
def register (p : Params) (d : Delivery) (now : Time) : Go IngestResponse :=
  match queueUnlessScheduled d now with
  | .error e => throw e
  | .ok delivery => do
    let stored ← attempt (.ingestTransactional delivery (now + p.idempotencyTTL)
      (notificationSubject p.streamPrefix delivery.channel delivery.priority) (idBody delivery.id)
      (notificationHeaders delivery) (d.shouldSchedule now))
    match stored with
    | .ok _ => pure { deliveryId := delivery.id, status := delivery.status }
    | .error e =>
      if e.is .duplicate then do
        let existing ← DeliveryRepo.findByIdempotencyKey delivery.idempotencyKey delivery.channel
        pure { deliveryId := existing.id, status := existing.status, duplicate := true }
      else throw e

def ingest (p : Params) (req : IngestRequest) : Go IngestResponse :=
  match req.validate with
  | .error e => throw (errValidation e)
  | .ok req =>
    match parseChannel req.channel with
    | .error e => throw (errValidation e) -- not reached: `Validate` has parsed it
    | .ok ch => do
      let found ← attempt (.findByIdempotencyKey req.idempotencyKey ch)
      match found with
      | .ok existing => pure { deliveryId := existing.id, status := existing.status, duplicate := true }
      | .error e =>
        if e.is .notFound then do
          let now ← ask .now
          let d ← newDeliveryFromRequest req now
          register p d now
        else throw e

end GoCourier
