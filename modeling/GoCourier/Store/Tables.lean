import Mathlib.Data.List.Sort
import Mathlib.Logic.Function.Basic
import GoCourier.Domain.Delivery

/- The PostgreSQL tables (`migrations/001_init.sql`) and the statements the
   repositories run on them (`adapters/postgres`). A statement run on the pool is
   atomic, and so is the ingest transaction; each is a function from the tables to
   its answer and the tables after it, and an error leaves the tables unchanged.

   A JSONB column does not keep a text but the value it stands for, and gives it back
   in a spelling of the server's own (`Jsonb`); the objects in `headers` and in an audit
   payload are lists of fields, whose order says nothing. A TIMESTAMPTZ column keeps
   whole microseconds: the clock and the times of a request are taken to be such. Rows
   that a query sorts and that are equal to its key come in the order they were
   inserted, where SQL leaves their order open.

   Columns no modelled statement reads back are left out: the creation times of
   registrations, attempts and scheduled rows, the outbox's publication time, and the
   serial ids of audit events. -/
namespace GoCourier

/-- The text in which the server gives back a JSONB value that was written as another text. -/
structure Jsonb where
  spell : RawJson → RawJson
  ne_empty : ∀ v, v ≠ "" → spell v ≠ ""

/-- Texts that are in the server's spelling already. -/
def Jsonb.verbatim : Jsonb := ⟨id, fun _ h => h⟩

/-- `deliveries`; the id is the key of the table. -/
structure DeliveryRow where
  idempotencyKey : String
  tenantId : String
  channel : Channel
  priority : Priority
  recipient : RawJson
  template : Option RawJson
  payload : Option RawJson
  status : Status
  scheduledAt : Option Time
  correlationId : String
  causationId : String
  retryCount : Nat
  lastError : Option String
  createdAt : Time
  updatedAt : Time
  deriving DecidableEq, Repr

/-- `idempotency_keys`; its primary key (key, channel) is the key of the table. -/
structure IdempotencyRow where
  deliveryId : String
  expiresAt : Time
  deriving DecidableEq, Repr

/-- `delivery_attempts`. -/
structure AttemptRow where
  deliveryId : String
  attempt : Attempt
  deriving DecidableEq, Repr

inductive OutboxStatus where
  | pending
  | published
  deriving DecidableEq, Repr

abbrev Headers := List (String × String)

/-- What a message carries: a JSON object of string fields, or bytes that are no such object. -/
inductive Body where
  | object (fields : List (String × String))
  | malformed
  deriving DecidableEq, Repr

/-- `outbox`. -/
structure OutboxRow where
  id : Nat
  deliveryId : String
  subject : String
  payload : Body
  headers : Headers
  status : OutboxStatus := .pending
  attempts : Nat := 0
  lastError : Option String := none
  createdAt : Time
  deriving DecidableEq, Repr

/-- `ports.OutboxMessage`. -/
structure OutboxMessage where
  id : Nat
  deliveryId : String
  subject : String
  payload : Body
  headers : Headers
  attempts : Nat
  deriving DecidableEq, Repr

def OutboxRow.message (r : OutboxRow) : OutboxMessage :=
  ⟨r.id, r.deliveryId, r.subject, r.payload, r.headers, r.attempts⟩

/-- `scheduled_notifications`. -/
structure ScheduledRow where
  deliveryId : String
  scheduledAt : Time
  processed : Bool := false
  deriving DecidableEq, Repr

/-- A value of an audit payload. -/
inductive AuditValue where
  | str (s : String)
  | num (n : Int)
  | flag (b : Bool)
  deriving DecidableEq, Repr

abbrev AuditPayload := List (String × AuditValue)

/-- What an audit event says. -/
structure AuditEvent where
  deliveryId : String
  eventType : DomainEventType
  payload : AuditPayload
  deriving DecidableEq, Repr

/-- `audit_events`. -/
structure AuditRow extends AuditEvent where
  createdAt : Time
  deriving DecidableEq, Repr

structure Tables where
  /-- No statement changes it. -/
  jsonb : Jsonb := .verbatim
  deliveries : String → Option DeliveryRow := fun _ => none
  idempotencyKeys : String × Channel → Option IdempotencyRow := fun _ => none
  attempts : List AttemptRow := []
  outbox : List OutboxRow := []
  scheduled : List ScheduledRow := []
  audit : List AuditRow := []

/-- `nullString` and `nullableJSON`: an empty text is stored as NULL. -/
def nullable (s : String) : Option String := if s = "" then none else some s

/-- `scanDelivery`. -/
def scanDelivery (id : String) (r : DeliveryRow) : Delivery where
  id := id
  idempotencyKey := r.idempotencyKey
  tenantId := r.tenantId
  channel := r.channel
  priority := r.priority
  recipient := r.recipient
  template := r.template.getD ""
  payload := r.payload.getD ""
  status := r.status
  scheduledAt := r.scheduledAt
  correlationId := r.correlationId
  causationId := r.causationId
  createdAt := r.createdAt
  updatedAt := r.updatedAt
  retryCount := r.retryCount
  lastError := r.lastError.getD ""

/-- The row the INSERT statements store. -/
def Delivery.toRow (d : Delivery) (jsonb : Jsonb) : DeliveryRow where
  idempotencyKey := d.idempotencyKey
  tenantId := d.tenantId
  channel := d.channel
  priority := d.priority
  recipient := jsonb.spell d.recipient
  template := (nullable d.template).map jsonb.spell
  payload := (nullable d.payload).map jsonb.spell
  status := d.status
  scheduledAt := d.scheduledAt
  correlationId := d.correlationId
  causationId := d.causationId
  retryCount := d.retryCount
  lastError := nullable d.lastError
  createdAt := d.createdAt
  updatedAt := d.updatedAt

/-- The columns the UPDATE statements set. -/
def DeliveryRow.set (r : DeliveryRow) (d : Delivery) : DeliveryRow :=
  { r with status := d.status, retryCount := d.retryCount, lastError := nullable d.lastError,
           updatedAt := d.updatedAt }

/-- A statement that breaks a constraint. -/
def errConstraint (what : String) : Err := ⟨"violates constraint " ++ what, []⟩

namespace Tables

/-! `DeliveryRepo`. -/

def findByID (t : Tables) (id : String) : Except Err Delivery :=
  match t.deliveries id with
  | some r => .ok (scanDelivery id r)
  | none => .error errNoRows

/-- The join reads the key's row only while `expires_at > NOW()`. -/
def findByIdempotencyKey (t : Tables) (now : Time) (key : String) (ch : Channel) : Except Err Delivery :=
  match t.idempotencyKeys (key, ch) with
  | some ik =>
    if now < ik.expiresAt then
      match t.deliveries ik.deliveryId with
      | some r => .ok (scanDelivery ik.deliveryId r)
      | none => .error errNotFound
    else .error errNotFound
  | none => .error errNotFound

/-- `UPDATE deliveries … WHERE id = $1`. -/
def update (t : Tables) (d : Delivery) : Tables :=
  match t.deliveries d.id with
  | some r => { t with deliveries := Function.update t.deliveries d.id (some (r.set d)) }
  | none => t

/-- `… AND status = $6`; answers whether a row was changed. -/
def updateIfStatus (t : Tables) (d : Delivery) (expected : Status) : Bool × Tables :=
  match t.deliveries d.id with
  | some r =>
    if r.status = expected then
      (true, { t with deliveries := Function.update t.deliveries d.id (some (r.set d)) })
    else (false, t)
  | none => (false, t)

/-- Attempt ids come from `uuid.NewString`, so the primary key is never hit. -/
def recordAttempt (t : Tables) (deliveryId : String) (a : Attempt) : Except Err Tables :=
  match t.deliveries deliveryId with
  | some _ => .ok { t with attempts := t.attempts ++ [⟨deliveryId, a⟩] }
  | none => .error (errConstraint "delivery_attempts_delivery_id_fkey")

/-! `OutboxRepo`. Rows are never deleted, so the next serial id is one past their number. -/

def insertOutbox (t : Tables) (now : Time) (deliveryId subject : String) (payload : Body) (headers : Headers) :
    Tables :=
  { t with outbox := t.outbox ++ [{ id := t.outbox.length + 1, deliveryId, subject, payload, headers,
                                     createdAt := now }] }

def enqueue (t : Tables) (now : Time) (deliveryId subject : String) (payload : Body) (headers : Headers) :
    Except Err Tables :=
  match t.deliveries deliveryId with
  | some _ => .ok (t.insertOutbox now deliveryId subject payload headers)
  | none => .error (errConstraint "outbox_delivery_id_fkey")

/-- The locks the statement takes are released when it ends, so no other statement ever
    finds them held. -/
def fetchPending (t : Tables) (limit : Nat) : List OutboxMessage :=
  (((t.outbox.filter (·.status = .pending)).insertionSort (·.createdAt ≤ ·.createdAt)).take limit).map
    OutboxRow.message

def countPending (t : Tables) : Nat := t.outbox.countP (·.status = .pending)

def setOutbox (t : Tables) (id : Nat) (f : OutboxRow → OutboxRow) : Tables :=
  { t with outbox := t.outbox.map fun r => if r.id = id then f r else r }

def markPublished (t : Tables) (id : Nat) : Tables :=
  t.setOutbox id fun r => { r with status := .published }

def markFailed (t : Tables) (id : Nat) (errMsg : String) : Tables :=
  t.setOutbox id fun r => { r with attempts := r.attempts + 1, lastError := some errMsg }

def hasPublishedForDelivery (t : Tables) (deliveryId : String) : Bool :=
  t.outbox.any fun r => r.deliveryId = deliveryId ∧ r.status = .published

/-! `ScheduledRepo`. -/

def fetchDue (t : Tables) (before : Time) (limit : Nat) : List String :=
  (((t.scheduled.filter fun r => ¬ r.processed ∧ r.scheduledAt ≤ before).insertionSort
    (·.scheduledAt ≤ ·.scheduledAt)).take limit).map (·.deliveryId)

def markProcessed (t : Tables) (deliveryId : String) : Tables :=
  { t with scheduled := t.scheduled.map fun r =>
      if r.deliveryId = deliveryId then { r with processed := true } else r }

/-! `AuditRepo`. -/

def append (t : Tables) (now : Time) (deliveryId : String) (ev : DomainEventType) (payload : AuditPayload) :
    Except Err Tables :=
  match t.deliveries deliveryId with
  | some _ => .ok { t with audit := t.audit ++ [⟨⟨deliveryId, ev, payload⟩, now⟩] }
  | none => .error (errConstraint "audit_events_delivery_id_fkey")

/-! `Store.IngestTransactional`, statement by statement; an error rolls everything back. -/

/-- `INSERT … ON CONFLICT (idempotency_key, channel) DO NOTHING`: no look at `expires_at`. -/
def insertIdempotency (t : Tables) (key : String) (ch : Channel) (row : IdempotencyRow) : Tables :=
  match t.idempotencyKeys (key, ch) with
  | some _ => t
  | none => { t with idempotencyKeys := Function.update t.idempotencyKeys (key, ch) (some row) }

def insertDelivery (t : Tables) (d : Delivery) : Except Err Tables :=
  match t.deliveries d.id with
  | some _ => .error (errConstraint "deliveries_pkey")
  | none => .ok { t with deliveries := Function.update t.deliveries d.id (some (d.toRow t.jsonb)) }

/-- The tail of the transaction once the key is this delivery's: the scheduled or the
    outbox row, and the audit event. -/
def insertWork (t : Tables) (now : Time) (d : Delivery) (subject : String) (payload : Body) (headers : Headers)
    (schedule : Bool) : Except Err Tables :=
  let work : Tables := match schedule, d.scheduledAt with
    | true, some at_ => { t with scheduled := t.scheduled ++ [{ deliveryId := d.id, scheduledAt := at_ }] }
    | _, _ => t.insertOutbox now d.id subject payload headers
  work.append now d.id .received []

def ingestTransactional (t : Tables) (now : Time) (d : Delivery) (expiresAt : Time) (subject : String)
    (payload : Body) (headers : Headers) (schedule : Bool) : Except Err Tables :=
  match t.insertDelivery d with
  | .error e => .error (e.within "insert delivery")
  | .ok t₁ =>
    let t₂ := t₁.insertIdempotency d.idempotencyKey d.channel ⟨d.id, expiresAt⟩
    match t₂.idempotencyKeys (d.idempotencyKey, d.channel) with
    | none => .error (errNoRows.within "verify idempotency")
    | some ik =>
      if ik.deliveryId ≠ d.id then .error errDuplicate
      else t₂.insertWork now d subject payload headers schedule

end Tables

end GoCourier
