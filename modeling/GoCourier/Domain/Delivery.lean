import GoCourier.Domain.Values

/- The delivery and its state machine (`delivery.go`), and the ingest request it is
   made from (`schema.go`). A method with a pointer receiver returns the value it
   leaves behind; where it fails, the receiver is unchanged. -/
namespace GoCourier

/-- `ports.ProviderResult`. -/
structure ProviderResult where
  providerMessageId : String := ""
  response : RawJson := ""
  deriving DecidableEq, Repr

/-- `providerResponse` is the provider's result itself, not its JSON text. -/
structure Attempt where
  id : String := ""
  attemptNumber : Nat := 0
  startedAt : Time := 0
  finishedAt : Option Time := none
  errorMessage : String := ""
  providerResponse : Option ProviderResult := none
  success : Bool := false
  deriving DecidableEq, Repr

structure Delivery where
  id : String
  idempotencyKey : String
  tenantId : String
  channel : Channel
  priority : Priority
  recipient : RawJson
  template : RawJson
  payload : RawJson
  status : Status
  attempts : List Attempt := []
  scheduledAt : Option Time
  correlationId : String
  causationId : String
  createdAt : Time
  updatedAt : Time
  retryCount : Nat := 0
  lastError : String := ""
  deriving DecidableEq, Repr

namespace Delivery

def queue (d : Delivery) (now : Time) : Except Err Delivery :=
  if d.status ≠ .pending then .error ⟨"cannot queue from status " ++ d.status.text, []⟩
  else .ok { d with status := .queued, updatedAt := now }

def startProcessing (d : Delivery) (now : Time) : Except Err Delivery :=
  match d.status with
  | .queued | .retrying => .ok { d with status := .processing, updatedAt := now }
  | .succeeded => .error ⟨"already succeeded", []⟩
  | s => .error ⟨"cannot process from status " ++ s.text, []⟩

/-- Every caller overwrites `UpdatedAt` right after, so the wall clock read here is left out. -/
def recordAttempt (d : Delivery) (attempt : Attempt) : Delivery :=
  { d with attempts := d.attempts ++ [attempt] }

def markSucceeded (d : Delivery) (attempt : Attempt) (now : Time) : Delivery :=
  { d.recordAttempt { attempt with success := true, finishedAt := some now } with
    status := .succeeded, updatedAt := now, lastError := "" }

def markRetrying (d : Delivery) (attempt : Attempt) (errMsg : String) (now : Time) : Delivery :=
  { d.recordAttempt { attempt with success := false, errorMessage := errMsg, finishedAt := some now } with
    status := .retrying, retryCount := d.retryCount + 1, lastError := errMsg, updatedAt := now }

def markDLQ (d : Delivery) (attempt : Attempt) (errMsg : String) (now : Time) : Delivery :=
  let d := if attempt.id ≠ "" then
      d.recordAttempt { attempt with success := false, errorMessage := errMsg, finishedAt := some now }
    else d
  { d with status := .dlq, lastError := errMsg, updatedAt := now }

def replay (d : Delivery) (now : Time) : Except Err Delivery :=
  if d.status ≠ .dlq ∧ d.status ≠ .failed then .error ⟨"cannot replay from status " ++ d.status.text, []⟩
  else .ok { d with status := .queued, updatedAt := now }

def shouldSchedule (d : Delivery) (now : Time) : Bool :=
  match d.scheduledAt with
  | some t => now < t
  | none => false

/-! What the transitions leave behind. -/

theorem queue_ok {d d' : Delivery} {now : Time} (h : d.queue now = .ok d') :
    d.status = .pending ∧ d' = { d with status := .queued, updatedAt := now } := by
  unfold queue at h
  split at h
  · cases h
  · rename_i hs
    cases h
    exact ⟨not_not.mp hs, rfl⟩

theorem queue_error {d : Delivery} {now : Time} {e : Err} (h : d.queue now = .error e) : d.status ≠ .pending := by
  unfold queue at h
  split at h
  · assumption
  · cases h

theorem startProcessing_ok {d d' : Delivery} {now : Time} (h : d.startProcessing now = .ok d') :
    (d.status = .queued ∨ d.status = .retrying) ∧
      d' = { d with status := .processing, updatedAt := now } := by
  unfold startProcessing at h
  split at h
  · rename_i hs
    cases h
    exact ⟨.inl hs, rfl⟩
  · rename_i hs
    cases h
    exact ⟨.inr hs, rfl⟩
  · cases h
  · cases h

theorem startProcessing_error {d : Delivery} {now : Time} {e : Err} (h : d.startProcessing now = .error e) :
    d.status ≠ .queued ∧ d.status ≠ .retrying := by
  unfold startProcessing at h
  constructor <;> intro hs <;> rw [hs] at h <;> cases h

theorem replay_ok {d d' : Delivery} {now : Time} (h : d.replay now = .ok d') :
    (d.status = .dlq ∨ d.status = .failed) ∧ d' = { d with status := .queued, updatedAt := now } := by
  unfold replay at h
  split at h
  · cases h
  · rename_i hs
    cases h
    refine ⟨?_, rfl⟩
    by_cases hd : d.status = .dlq
    · exact .inl hd
    · exact .inr (not_not.mp fun hf => hs ⟨hd, hf⟩)

theorem replay_error {d : Delivery} {now : Time} {e : Err} (h : d.replay now = .error e) :
    d.status ≠ .dlq ∧ d.status ≠ .failed := by
  unfold replay at h
  split at h
  · assumption
  · cases h

variable (d : Delivery) (a : Attempt) (msg : String) (now : Time)

@[simp] theorem markSucceeded_id : (d.markSucceeded a now).id = d.id := rfl
@[simp] theorem markSucceeded_status : (d.markSucceeded a now).status = .succeeded := rfl
@[simp] theorem markSucceeded_retryCount : (d.markSucceeded a now).retryCount = d.retryCount := rfl
@[simp] theorem markRetrying_id : (d.markRetrying a msg now).id = d.id := rfl
@[simp] theorem markRetrying_status : (d.markRetrying a msg now).status = .retrying := rfl
@[simp] theorem markRetrying_retryCount : (d.markRetrying a msg now).retryCount = d.retryCount + 1 := rfl

@[simp] theorem markDLQ_id : (d.markDLQ a msg now).id = d.id := by
  unfold markDLQ; split <;> rfl
@[simp] theorem markDLQ_status : (d.markDLQ a msg now).status = .dlq := by
  unfold markDLQ; split <;> rfl
@[simp] theorem markDLQ_retryCount : (d.markDLQ a msg now).retryCount = d.retryCount := by
  unfold markDLQ; split <;> rfl

end Delivery

/-! The ingest request. -/

structure RequestMetadata where
  correlationId : String := ""
  causationId : String := ""
  tenantId : String := ""
  deriving DecidableEq, Repr

structure IngestRequest where
  schemaVersion : String := ""
  idempotencyKey : String
  channel : String
  priority : String := ""
  recipient : RawJson
  template : RawJson := ""
  payload : RawJson := ""
  metadata : RequestMetadata := {}
  scheduledAt : Option Time := none
  deriving DecidableEq, Repr

/-- `SchemaVersion`. -/
def schemaVersion : String := "1.0"

namespace IngestRequest

/-- The two defaults `Validate` writes into the request. -/
def fillVersion (r : IngestRequest) : IngestRequest :=
  if r.schemaVersion = "" then { r with schemaVersion := GoCourier.schemaVersion } else r

def fillTenant (r : IngestRequest) : IngestRequest :=
  if r.metadata.tenantId = "" then { r with metadata := { r.metadata with tenantId := "default" } } else r

/-- The checks `Validate` makes, in its order. -/
def check (r : IngestRequest) : Except Err Unit :=
  if r.schemaVersion ≠ GoCourier.schemaVersion then
    .error ⟨"unsupported schema_version: " ++ r.schemaVersion, []⟩
  else if r.idempotencyKey = "" then .error ⟨"idempotency_key is required", []⟩
  else if r.idempotencyKey.utf8ByteSize > 256 then .error ⟨"idempotency_key exceeds 256 characters", []⟩
  else match parseChannel r.channel, parsePriority r.priority with
    | .error e, _ => .error e
    | .ok _, .error e => .error e
    | .ok _, .ok _ =>
      if r.recipient = "" then .error ⟨"recipient is required", []⟩
      else if r.template = "" ∧ r.payload = "" then .error ⟨"template or payload is required", []⟩
      else .ok ()

/-- The request as `Validate` leaves it. -/
def validate (r : IngestRequest) : Except Err IngestRequest :=
  match r.fillVersion.check with
  | .error e => .error e
  | .ok () => .ok r.fillVersion.fillTenant

end IngestRequest

structure IngestResponse where
  deliveryId : String
  status : Status
  duplicate : Bool := false
  deriving DecidableEq, Repr

namespace IngestRequest

/-- The request apart from its two defaulted fields. -/
def SameCore (r r' : IngestRequest) : Prop :=
  r'.idempotencyKey = r.idempotencyKey ∧ r'.channel = r.channel ∧ r'.priority = r.priority ∧
    r'.recipient = r.recipient ∧ r'.template = r.template ∧ r'.payload = r.payload ∧
    r'.scheduledAt = r.scheduledAt

theorem fillVersion_core (r : IngestRequest) : SameCore r r.fillVersion := by
  unfold fillVersion; split <;> simp [SameCore]

theorem fillTenant_core (r : IngestRequest) :
    SameCore r r.fillTenant ∧ r.fillTenant.schemaVersion = r.schemaVersion := by
  unfold fillTenant; split <;> simp [SameCore]

theorem fillVersion_ne (r : IngestRequest) : r.fillVersion.schemaVersion ≠ "" := by
  unfold fillVersion
  split
  · show GoCourier.schemaVersion ≠ ""
    decide
  · assumption

theorem fillTenant_ne (r : IngestRequest) : r.fillTenant.metadata.tenantId ≠ "" := by
  unfold fillTenant
  split
  · simp
  · assumption

theorem check_congr {r r' : IngestRequest} (h : SameCore r r') (hv : r'.schemaVersion = r.schemaVersion) :
    r'.check = r.check := by
  obtain ⟨h1, h2, h3, h4, h5, h6, -⟩ := h
  simp only [check, h1, h2, h3, h4, h5, h6, hv]

theorem check_channel {r : IngestRequest} (h : r.check = .ok ()) : ∃ ch, parseChannel r.channel = .ok ch := by
  unfold check at h
  cases hc : parseChannel r.channel with
  | ok ch => exact ⟨ch, rfl⟩
  | error e =>
    rw [hc] at h
    split_ifs at h

theorem check_priority {r : IngestRequest} (h : r.check = .ok ()) :
    ∃ pri, parsePriority r.priority = .ok pri := by
  unfold check at h
  cases hp : parsePriority r.priority with
  | ok pri => exact ⟨pri, rfl⟩
  | error e =>
    rw [hp] at h
    cases hc : parseChannel r.channel <;> rw [hc] at h <;> split_ifs at h

/-- A validated request passed the checks, and its channel parses. -/
theorem validate_ok {r r' : IngestRequest} (h : r.validate = .ok r') :
    SameCore r r' ∧ ∃ ch, parseChannel r.channel = .ok ch := by
  unfold validate at h
  split at h
  · cases h
  · rename_i hc
    cases h
    have hv := fillVersion_core r
    have ht := (fillTenant_core r.fillVersion).1
    refine ⟨?_, ?_⟩
    · unfold SameCore at hv ht ⊢
      simp only [ht, hv, and_self]
    · rw [← hv.2.1]
      exact check_channel hc

theorem validate_priority {r r' : IngestRequest} (h : r.validate = .ok r') :
    ∃ pri, parsePriority r'.priority = .ok pri := by
  obtain ⟨hcore, -⟩ := validate_ok h
  unfold validate at h
  split at h
  · cases h
  · rename_i hc
    obtain ⟨pri, hp⟩ := check_priority hc
    rw [(fillVersion_core r).2.2.1] at hp
    exact ⟨pri, hcore.2.2.1 ▸ hp⟩

/-- Validating again changes nothing. -/
theorem validate_idem {r r' : IngestRequest} (h : r.validate = .ok r') : r'.validate = .ok r' := by
  unfold validate at h
  split at h
  · cases h
  · rename_i hc
    cases h
    have ⟨ht, hs⟩ := fillTenant_core r.fillVersion
    have h1 : r.fillVersion.fillTenant.fillVersion = r.fillVersion.fillTenant :=
      if_neg (hs ▸ fillVersion_ne r)
    have h2 : r.fillVersion.fillTenant.fillTenant = r.fillVersion.fillTenant := if_neg (fillTenant_ne _)
    rw [validate, h1, check_congr ht hs, hc, h2]

end IngestRequest

end GoCourier
