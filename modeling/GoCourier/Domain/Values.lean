import Mathlib.Data.List.Basic

/- The values of the domain package: statuses, channels, priorities, domain events,
   errors, and the string functions their parsers use. An enumeration of the source
   is a string type with constants; every value stored or sent comes from one of the
   constants, so here it is an inductive type with its text. -/
namespace GoCourier

/-- Nanoseconds on the global clock. -/
abbrev Time := Int
abbrev Duration := Int

/-- The text of a JSON value, as a `json.RawMessage` holds it. -/
abbrev RawJson := String

/-! Errors (`pkg/apperrors`). -/

/-- The sentinels `errors.Is` is asked for; `noRows` is pgx's own. -/
inductive Sentinel where
  | duplicate
  | notFound
  | validation
  | transient
  | permanent
  | unauthorized
  | circuitOpen
  | noRows
  deriving DecidableEq, Repr

/-- An error value: its text and the sentinels it wraps. -/
structure Err where
  text : String
  wraps : List Sentinel := []
  deriving DecidableEq, Repr

/-- `errors.Is`. -/
def Err.is (e : Err) (s : Sentinel) : Bool := e.wraps.contains s

def errDuplicate : Err := ⟨"duplicate idempotency key", [.duplicate]⟩
def errNotFound : Err := ⟨"not found", [.notFound]⟩
def errTransient : Err := ⟨"transient error", [.transient]⟩
def errCircuitOpen : Err := ⟨"circuit breaker open", [.circuitOpen]⟩
def errNoRows : Err := ⟨"no rows in result set", [.noRows]⟩

def isPermanent (e : Err) : Bool := e.is .permanent

/-- `fmt.Errorf("%w: %v", apperrors.ErrValidation, err)`. -/
def errValidation (e : Err) : Err := ⟨"validation error: " ++ e.text, [.validation]⟩

/-- `fmt.Errorf(what + ": %w", err)`. -/
def Err.within (what : String) (e : Err) : Err := ⟨what ++ ": " ++ e.text, e.wraps⟩

/-! Statuses (`status.go`). -/

inductive Status where
  | pending
  | queued
  | processing
  | retrying
  | succeeded
  | failed
  | dlq
  | cancelled
  | rejected
  deriving DecidableEq, Repr

def Status.text : Status → String
  | .pending => "pending"
  | .queued => "queued"
  | .processing => "processing"
  | .retrying => "retrying"
  | .succeeded => "succeeded"
  | .failed => "failed"
  | .dlq => "dlq"
  | .cancelled => "cancelled"
  | .rejected => "rejected"

def Status.canDispatch : Status → Bool
  | .queued | .retrying | .processing => true
  | _ => false

/-! Strings. `unicode.IsSpace`, `strings.TrimSpace` and `strings.ToLower`. -/

def isSpace (c : Char) : Bool :=
  c.toNat ∈ [0x09, 0x0A, 0x0B, 0x0C, 0x0D, 0x20, 0x85, 0xA0, 0x1680, 0x2028, 0x2029, 0x202F, 0x205F, 0x3000] ||
    (0x2000 ≤ c.toNat && c.toNat ≤ 0x200A)

def trimSpace (s : String) : String :=
  String.ofList ((s.toList.dropWhile isSpace).reverse.dropWhile isSpace).reverse

/-- Lower case as far as a comparison with ASCII text can tell: besides the ASCII
    capitals, U+0130 and U+212A are the only runes whose lower case is ASCII. -/
def lowerRune (c : Char) : Char :=
  if 0x41 ≤ c.toNat ∧ c.toNat ≤ 0x5A then Char.ofNat (c.toNat + 0x20)
  else if c.toNat = 0x130 then 'i'
  else if c.toNat = 0x212A then 'k'
  else c

def toLower (s : String) : String := String.ofList (s.toList.map lowerRune)

/-! Channels and priorities (`channel.go`, `priority.go`). -/

inductive Channel where
  | email
  | sms
  | push
  | webhook
  deriving DecidableEq, Repr

def Channel.text : Channel → String
  | .email => "email"
  | .sms => "sms"
  | .push => "push"
  | .webhook => "webhook"

def allChannels : List Channel := [.email, .sms, .push, .webhook]

def parseChannel (s : String) : Except Err Channel :=
  match allChannels.find? (fun ch => ch.text = toLower (trimSpace s)) with
  | some ch => .ok ch
  | none => .error ⟨"invalid channel: " ++ s, []⟩

inductive Priority where
  | low
  | normal
  | high
  deriving DecidableEq, Repr

def Priority.text : Priority → String
  | .low => "low"
  | .normal => "normal"
  | .high => "high"

def parsePriority (s : String) : Except Err Priority :=
  let p := toLower (trimSpace s)
  if p = "" then .ok .normal
  else match [Priority.low, .normal, .high].find? (fun q => q.text = p) with
    | some q => .ok q
    | none => .error ⟨"invalid priority: " ++ s, []⟩

example : parseChannel " Email\n" = .ok .email := by decide
example : parsePriority "  " = .ok .normal := by decide

/-! Domain events (`events.go`). -/

inductive DomainEventType where
  | received
  | validated
  | queued
  | dispatchAttempted
  | dispatchSucceeded
  | dispatchFailed
  | movedToDLQ
  | replayed
  deriving DecidableEq, Repr

end GoCourier
