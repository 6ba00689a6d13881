import GoCourier.System.Machine

/- Runs of the system: what the environment may be assumed to do in them, as conditions
   on each step, and the calls of whole services as lists of steps, for runs at fixed
   inputs. -/
namespace GoCourier

open Interleave

/-! Answers. -/

/-- The call takes effect, whether or not its caller learns of it. -/
def Choice.Effective : Choice → Prop
  | .run | .lost _ => True
  | _ => False

instance (c : Choice) : Decidable c.Effective :=
  match c with
  | .run | .lost _ => .isTrue trivial
  | .fault _ | .uuid _ | .rand _ | .verdict _ => .isFalse id

/-- The database or the broker fails the call: without effect, or with its answer lost. -/
def Choice.Failing : Choice → Prop
  | .fault _ | .lost _ => True
  | _ => False

/-- A call on the database or the broker that does not fail has run. -/
theorem answered_ran {p : Params} {q : Remote} {c : Choice} {w w' : World} {r : Except Err (Reply q)}
    (h : Answered p w (.remote q) c r w') (hf : ¬ c.Failing) : exec p w q = (r, w') := by
  cases h with
  | ran q => rfl
  | fault q msg => exact absurd trivial hf
  | lost q msg => exact absurd trivial hf

/-! Conditions on a step. -/

/-- `P` holds of the call the step answers, if it answers one. -/
def OnCall (P : Task → Op → Choice → World → Prop) (s : System) (l : Act) : Prop :=
  ∀ t c k φ op f, l = .call t c → s.threads t = some ⟨k, φ, .ask op f⟩ → P k op c s.state

/-- The scheduler's ticks follow one another. -/
def OneScheduler : System → Act → Prop := Machine.StartsAlone (· = .processDue)

/-- The replays of one delivery follow one another. -/
def OneReplay (s : System) (l : Act) : Prop := ∀ id, Machine.StartsAlone (· = .replay id) s l

/-- Nothing crashes and no call fails. -/
def FaultFree (_ : System) (l : Act) : Prop :=
  (∀ t, l ≠ .crash t) ∧ ∀ t c, l = .call t c → ¬ c.Failing

/-- A step that starts neither a tick nor a replay. -/
def Act.startsNone : Act → Bool
  | .start _ .processDue => false
  | .start _ (.replay _) => false
  | _ => true

theorem oneScheduler_of_startsNone {s : System} {l : Act} (h : l.startsNone = true) : OneScheduler s l := by
  intro t k hl hk
  subst hl hk
  cases h

theorem oneReplay_of_startsNone {s : System} {l : Act} (h : l.startsNone = true) : OneReplay s l := by
  intro id t k hl hk
  subst hl hk
  cases h

/-- `OneScheduler` along a run at fixed inputs. -/
def oneTickCheck (p : Params) (ls : List Act) : Bool :=
  (machine p).aloneCheck (fun k => decide (k = .processDue)) [] (System.init p) ls

theorem oneScheduler_of_check {p : Params} {ls : List Act} (h : oneTickCheck p ls = true) :
    (machine p).Along (fun s l _ => OneScheduler s l) (System.init p) ls :=
  Machine.startsAlone_of_check ls (fun _ => rfl) h

/-- A step that crashes nothing and fails no call. -/
def Act.smooth : Act → Bool
  | .crash _ => false
  | .call _ (.fault _) => false
  | .call _ (.lost _) => false
  | _ => true

theorem faultFree_of_smooth {s : System} {l : Act} (h : l.smooth = true) : FaultFree s l := by
  refine ⟨fun t hl => ?_, fun t c hl hf => ?_⟩
  · subst hl
    cases h
  · subst hl
    cases c with
    | fault msg => cases h
    | lost msg => cases h
    | _ => exact hf

theorem along_faultFree {p : Params} {s : System} {ls : List Act} (h : ls.all Act.smooth = true) :
    (machine p).Along (fun s l _ => FaultFree s l) s ls :=
  Machine.along_of_forall ls s fun l hl _ _ => faultFree_of_smooth (List.all_eq_true.mp h l hl)

/-- The call a thread makes next. -/
def nextOp : Option (Thread Op Ans Task Result Phase) → Option Op
  | some ⟨_, _, .ask op _⟩ => some op
  | _ => none

theorem nextOp_some {th : Option (Thread Op Ans Task Result Phase)} {op : Op} (h : nextOp th = some op) :
    ∃ k φ f, th = some ⟨k, φ, .ask op f⟩ := by
  unfold nextOp at h
  split at h
  · cases h
    exact ⟨_, _, _, rfl⟩
  · cases h

/-! Services at fixed inputs. -/

/-- A request that passes `Validate`. -/
def sampleRequest : IngestRequest where
  idempotencyKey := "k1"
  channel := "email"
  recipient := "to"
  payload := "hello"

/-- The same for later. -/
def laterRequest : IngestRequest := { sampleRequest with scheduledAt := some 5 }

/-- `n` calls of thread `t`, each answered as asked. -/
def runs (t n : Nat) : List Act := List.replicate n (.call t .run)

/-- An `Ingest` that stores a new delivery `id`. -/
def ingestCalls (t : Nat) (id : String) (req : IngestRequest := sampleRequest) : List Act :=
  .start t (.ingest req) :: runs t 2 ++ [.call t (.uuid id), .call t .run]

/-- The message of a delivery that `sampleRequest` has ingested. -/
def sampleMessage (id : String) : Message where
  subject := "notifications.email.normal"
  body := idBody id
  headers := [("delivery_id", id), ("correlation_id", ""), ("idempotency_key", "k1"), ("channel", "email")]

/-- A flush that publishes one row. -/
def publishCalls (t : Nat) : List Act := .start t .flush :: runs t 5

/-- The calls of a dispatch up to `Send`, with attempt id `att`. -/
def attemptCalls (t : Nat) (att : String) (v : Except Err ProviderResult) : List Act :=
  runs t 4 ++ [.call t (.uuid att), .call t (.verdict v)]

/-- A dispatch of `id` that fails and is left for a retry. -/
def retryCalls (t : Nat) (id att : String) : List Act :=
  .start t (.dispatch 0 id) :: attemptCalls t att (.error errTransient) ++ runs t 5 ++ [.call t (.rand 0)]

/-- A dispatch of `id` that fails with `e` and is dead-lettered. -/
def deadLetterCalls (t : Nat) (id att : String) (e : Err) : List Act :=
  .start t (.dispatch 0 id) :: attemptCalls t att (.error e) ++ runs t 6

/-- A dispatch of `id` that the provider accepts. -/
def succeedCalls (t : Nat) (id att : String) : List Act :=
  .start t (.dispatch 0 id) :: attemptCalls t att (.ok {}) ++ runs t 5

end GoCourier
