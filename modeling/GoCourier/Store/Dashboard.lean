import GoCourier.Store.Tables

/- What the dashboard reads of one delivery (`dashboard_repo.go`): its row, and the rows
   of the other tables that are about it, those of the audit log and of the outbox by
   their creation times. -/
namespace GoCourier

/-- `ports.OutboxStatusRow`. -/
structure OutboxStatusRow where
  id : Nat
  status : OutboxStatus
  subject : String
  attempts : Nat
  lastError : String
  createdAt : Time
  deriving DecidableEq, Repr

/-- `ports.DeliveryDetail`. Its delivery has the columns a `Delivery` has. -/
structure DeliveryDetail where
  delivery : Delivery
  attempts : List Attempt
  audit : List AuditRow
  outbox : List OutboxStatusRow
  deriving DecidableEq, Repr

/-- `scanDeliveryDetailRow`: `Scan` answers `ErrNoRows` where the query yields no row. -/
def scanDeliveryDetailRow (id : String) : Option DeliveryRow → Except Err Delivery
  | some r => .ok (scanDelivery id r)
  | none => .error errNoRows

/-- `Detail`, its four queries each run on the tables of its own moment. -/
def detailOver (row attempts audit outbox : Tables) (deliveryId : String) : Except Err DeliveryDetail :=
  match scanDeliveryDetailRow deliveryId (row.deliveries deliveryId) with
  | .error e => if e = errNoRows then .error errNotFound else .error e
  | .ok delivery => .ok {
      delivery
      attempts := ((attempts.attempts.filter (·.deliveryId = deliveryId)).map (·.attempt)).insertionSort
        (·.attemptNumber ≤ ·.attemptNumber)
      audit := (audit.audit.filter (·.deliveryId = deliveryId)).insertionSort (·.createdAt ≤ ·.createdAt)
      outbox := ((outbox.outbox.filter (·.deliveryId = deliveryId)).insertionSort (·.createdAt ≤ ·.createdAt)).map
        fun r => ⟨r.id, r.status, r.subject, r.attempts, r.lastError.getD "", r.createdAt⟩ }

/-- `Detail` on tables that do not change in between. -/
def Tables.detail (t : Tables) (deliveryId : String) : Except Err DeliveryDetail := detailOver t t t t deliveryId

end GoCourier
