import GoCourier.Http.Config
import GoCourier.Services.Ingest
import GoCourier.Store.Dashboard

/- The HTTP API (`adapters/http`): what a request is decoded to, the middleware, and the
   handlers. A handler is a program; it calls the services and ends in a response. Which
   route a request takes is the mux's decision and stands in the request. The metrics,
   health and summary routes, and the headers every response gets, are left out. -/
namespace GoCourier

open Interleave

/-! Request bodies. -/

/-- What a JSON object says of one of its known members, when it is of its declared type. -/
inductive Member (α : Type) where
  | absent
  | null
  | value (v : α)
  deriving DecidableEq, Repr

/-- Neither a null nor nothing leaves anything but the zero value. -/
def Member.getD {α : Type} (m : Member α) (zero : α) : α :=
  match m with
  | .value v => v
  | _ => zero

/-- The text of a JSON value that is not null. -/
structure JsonText where
  text : String
  ne_empty : text ≠ ""
  ne_null : text ≠ "null"

/-- A member kept as a `json.RawMessage`: a null is kept as its four bytes. -/
def Member.raw : Member JsonText → RawJson
  | .absent => ""
  | .null => "null"
  | .value v => v.text

structure MetadataBody where
  correlationId : Member String := .absent
  causationId : Member String := .absent
  tenantId : Member String := .absent

structure IngestBody where
  schemaVersion : Member String := .absent
  idempotencyKey : Member String := .absent
  channel : Member String := .absent
  priority : Member String := .absent
  recipient : Member JsonText := .absent
  template : Member JsonText := .absent
  payload : Member JsonText := .absent
  metadata : Member MetadataBody := .absent
  scheduledAt : Member Time := .absent

def MetadataBody.decode (m : MetadataBody) : RequestMetadata where
  correlationId := m.correlationId.getD ""
  causationId := m.causationId.getD ""
  tenantId := m.tenantId.getD ""

/-- `json.Decode` into an `IngestRequest`. -/
def IngestBody.decode (b : IngestBody) : IngestRequest where
  schemaVersion := b.schemaVersion.getD ""
  idempotencyKey := b.idempotencyKey.getD ""
  channel := b.channel.getD ""
  priority := b.priority.getD ""
  recipient := b.recipient.raw
  template := b.template.raw
  payload := b.payload.raw
  metadata := (b.metadata.getD {}).decode
  scheduledAt := match b.scheduledAt with
    | .value t => some t
    | _ => none

/-! Requests and responses. -/

/-- The patterns of `routes` that lead to a modelled handler. -/
inductive Route where
  | dashboardDetail
  | ingest
  | replay
  deriving DecidableEq, Repr

structure Request where
  method : String := "POST"
  /-- The pattern the mux has matched. -/
  pattern : Route
  /-- `PathValue("id")`. -/
  id : String := ""
  /-- `Header.Get`; a header that is not sent is empty. -/
  header : String → String := fun _ => ""
  /-- What the decoder makes of the body. -/
  body : Except Err IngestBody := .error ⟨"EOF", []⟩

inductive ResponseBody where
  | empty
  | error (text : String)
  | ingested (resp : IngestResponse)
  | replayed (deliveryId status : String)
  | detail (d : DeliveryDetail)
  deriving DecidableEq, Repr

structure Response where
  status : Nat
  body : ResponseBody
  deriving DecidableEq, Repr

def writeJSON (status : Nat) (v : ResponseBody) : Response := ⟨status, v⟩

def writeError (status : Nat) (err : Err) : Response := writeJSON status (.error err.text)

def errUnauthorized : Err := ⟨"unauthorized", [.unauthorized]⟩

/-- `apperrors.ErrValidation` by itself. -/
def errInvalid : Err := ⟨"validation error", [.validation]⟩

abbrev HandlerFunc := Request → CallTree Op Ans Response

/-! The server. -/

/-- The ingest and replay services have the parameters `params`; the dashboard is read through `dashboard`. -/
structure Server where
  params : Params
  dashboard : String → Except Err DeliveryDetail
  apiKeys : List String
  serviceName : String

/-- `NewServer`. The keys are a set: a key that is in it already changes nothing. -/
def newServer (p : Params) (dashboard : String → Except Err DeliveryDetail) (apiKeys : List String)
    (serviceName : String) : Server where
  params := p
  dashboard := dashboard
  apiKeys := apiKeys.foldl (fun keys k => keys.insert k) []
  serviceName := if serviceName = "" then "api" else serviceName

/-- `strings.TrimPrefix`. -/
def trimStart (s start : String) : String :=
  if start.toList.isPrefixOf s.toList then String.ofList (s.toList.drop start.toList.length) else s

namespace Server
variable (s : Server)

def auth (next : HandlerFunc) : HandlerFunc := fun r =>
  let key := r.header "X-API-Key"
  let key := if key = "" then trimStart (r.header "Authorization") "Bearer " else key
  if key ∈ s.apiKeys then next r else .done (writeError 401 errUnauthorized)

def handleIngest : HandlerFunc := fun r =>
  match r.body with
  | .error err => .done (writeError 400 err)
  | .ok body => do
    let res ← (ingest s.params body.decode).run
    match res with
    | .error err =>
      let status := if err.is .validation then 400 else if err.is .unauthorized then 401 else 500
      .done (writeError status err)
    | .ok resp => .done (writeJSON (if resp.duplicate then 200 else 202) (.ingested resp))

/-- The replay service only calls the dispatch service's `ReplayDelivery`. -/
def handleReplay : HandlerFunc := fun r =>
  if r.id = "" then .done (writeError 400 errInvalid)
  else do
    let res ← (replayDelivery s.params r.id).run
    match res with
    | .error err => .done (writeError (if err.is .notFound then 404 else 500) err)
    | .ok () => .done (writeJSON 200 (.replayed r.id "queued"))

def handleDashboardDetail : HandlerFunc := fun r =>
  if r.id = "" then .done (writeError 400 errInvalid)
  else match s.dashboard r.id with
    | .error err => .done (writeError (if err.is .notFound then 404 else 500) err)
    | .ok detail => .done (writeJSON 200 (.detail detail))

def routes : Route → HandlerFunc
  | .dashboardDetail => s.handleDashboardDetail
  | .ingest => s.auth s.handleIngest
  | .replay => s.auth s.handleReplay

/-- `withCORS`. -/
def withCORS (next : HandlerFunc) : HandlerFunc := fun r =>
  if r.method = "OPTIONS" then .done ⟨204, .empty⟩ else next r

/-- `Handler`. -/
def handler : HandlerFunc := withCORS fun r => s.routes r.pattern r

end Server

end GoCourier
