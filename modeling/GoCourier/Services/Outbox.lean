import GoCourier.System.World

/- The outbox publisher (`application/outbox/publisher.go`). -/
namespace GoCourier

/-- `flush`'s loop: whatever happens to one message, the next one is tried. -/
def publishRows : List OutboxMessage → Go Unit
  | [] => pure ()
  | m :: ms => do
    let published ← attempt (.hasPublishedForDelivery m.deliveryId)
    match published with
    | .error _ => publishRows ms
    | .ok true => do
      ignore (.markPublished m.id)
      publishRows ms
    | .ok false => do
      let sent ← attempt (.publish m.subject m.payload m.headers)
      match sent with
      | .error e => do
        ignore (.markFailed m.id e.text)
        publishRows ms
      | .ok () => do
        ignore (.markPublished m.id)
        publishRows ms

def flush (p : Params) : Go Unit := do
  -- the count only feeds a gauge
  ignore .countPending
  let msgs ← OutboxRepo.fetchPending p.outboxBatchSize
  publishRows msgs

end GoCourier
