import GoCourier.Services.Ingest

/- The scheduler (`application/scheduler/service.go`). -/
namespace GoCourier

/-- `processDue`'s loop: a delivery that is missing or no longer pending is passed over, and
    an error ends the tick. -/
def processRows (p : Params) (now : Time) : List String → Go Unit
  | [] => pure ()
  | id :: ids => do
    let found ← attempt (.findByID id)
    match found with
    | .error _ => processRows p now ids
    | .ok d =>
      match d.queue now with
      | .error _ => processRows p now ids
      | .ok d => do
        DeliveryRepo.update d
        OutboxRepo.enqueue d.id (notificationSubject p.streamPrefix d.channel d.priority) (idBody d.id)
          (notificationHeaders d)
        ScheduledRepo.markProcessed id
        ignore (.append d.id .queued [("scheduled", .flag true)])
        processRows p now ids

def processDue (p : Params) : Go Unit := do
  let now ← ask .now
  let ids ← ScheduledRepo.fetchDue now p.outboxBatchSize
  processRows p now ids

end GoCourier
