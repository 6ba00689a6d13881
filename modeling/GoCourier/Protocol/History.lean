import GoCourier.Protocol.Worker

/- The writes of a dispatch, counted. The phases of `WorkerPhase` say what a dispatch has
   learnt and whether its row and its attempt are written; whether the audit event is
   appended they do not say. Here they are paired with that bit. A dispatch that nothing
   interrupts makes its three writes once each or none of them. -/
namespace GoCourier

open Interleave

/-- The event of a transition out of processing. -/
def Status.event : Status → DomainEventType
  | .succeeded => .dispatchSucceeded
  | .retrying => .dispatchFailed
  | _ => .movedToDLQ

/-- The number of the attempt that ended in `d`. -/
def Delivery.attempted (d : Delivery) : Nat := if d.status = .retrying then d.retryCount else d.retryCount + 1

/-- Whether the event is appended, after an answer. -/
def tell (told : Bool) : (op : Op) → Ans op → Bool
  | .remote (.append _ _ _), .ok _ => true
  | _, _ => told

/-- The writes of a dispatch are all made, or none is, or one has failed. -/
def WorkerPhase.Whole (told : Bool) : WorkerPhase → Prop
  | .refused _ _ noted => noted = false
  | .settled _ _ => told = true
  | _ => True

/-- Which calls a dispatch makes before and after its writes. -/
def TellMay (p : Params) (φ : WorkerPhase) (told : Bool) : Op → Prop
  | .remote (.append _ ev _) => told = false ∧
      ∃ d noted, φ = .settled d noted ∧ ev = d.status.event ∧ (noted = true ∨ d.status = .dlq)
  | .remote (.update _) => told = false
  | .remote (.recordAttempt _ _) => True
  | .remote (.publish _ _ _) => True
  | .allow _ ch => ch ∈ p.providers
  | _ => φ.Whole told

def tellDiscipline (p : Params) : Discipline Op Ans (WorkerPhase × Bool) where
  may ψ op := TellMay p ψ.1 ψ.2 op
  next ψ op r := (ψ.1.next op r, tell ψ.2 op r)
  sees := Seen

/-- A dispatch returns with its writes whole. -/
abbrev TellReturns (ψ : WorkerPhase × Bool) (_ : Except Err Unit) : Prop := ψ.1.Whole ψ.2

section
variable {p : Params}

theorem tell_deadLetter {φ : WorkerPhase} {d' : Delivery} {msg : String} (hst : d'.status = .dlq)
    (hφ : ∃ noted, φ.settle d' = .settled d' noted) :
    Obeys (tellDiscipline p) (do
      DeliveryRepo.update d'
      ignore (.publish (dlqSubject d'.channel) (dlqBody d' msg) [("delivery_id", d'.id)])
      AuditRepo.append d'.id .movedToDLQ [("error", .str msg)] : Go Unit).run (φ, false) TellReturns := by
  obtain ⟨noted, hφ⟩ := hφ
  rw [obeys_bindE, obeys_remote]
  refine ⟨rfl, fun r _ => ?_⟩
  cases r with
  | error e => exact trivial
  | ok _ =>
    rw [ends_ok, obeys_bindE, obeys_ignore]
    refine ⟨trivial, fun _ _ => ?_⟩
    rw [ends_ok, obeys_remote]
    refine ⟨⟨rfl, d', noted, hφ, ?_, .inr hst⟩, fun r _ => ?_⟩
    · rw [hst]
      rfl
    · cases r with
      | error e => exact trivial
      | ok _ =>
        show (φ.settle d').Whole true
        rw [hφ]
        rfl

theorem tell_moveToDLQ_none {d : Delivery} (now : Time) :
    Obeys (tellDiscipline p) (moveToDLQ d now "no provider for channel" none).run (.owned d, false) TellReturns :=
  tell_deadLetter (markDLQ_moved d {} "no provider for channel" now).status ⟨false, rfl⟩

theorem tell_moveToDLQ_some {d : Delivery} {e : Err} (a : Attempt) (now : Time) :
    Obeys (tellDiscipline p) (moveToDLQ d now e.text (some a)).run (.refused d e false, false) TellReturns := by
  unfold moveToDLQ
  simp only []
  rw [obeys_bindE, obeys_remote]
  refine ⟨trivial, fun r _ => ?_⟩
  cases r with
  | error e => exact trivial
  | ok _ =>
    exact tell_deadLetter (markDLQ_moved d { a with errorMessage := e.text, finishedAt := some now } e.text now).status
      ⟨true, rfl⟩

theorem tell_delay {ψ : WorkerPhase × Bool} {Q : WorkerPhase × Bool → Except Err Duration → Prop} (n : Int)
    (base max : Duration) (hψ : ψ.1.Whole ψ.2) (h : ∀ r, Q ψ r) :
    Obeys (tellDiscipline p) (delay n base max).run ψ Q := by
  unfold delay
  simp only []
  rw [obeys_bindE, obeys_ask_op]
  exact ⟨hψ, fun r _ => h _⟩

theorem tell_handleFailure {d : Delivery} {e : Err} (a : Attempt) :
    Obeys (tellDiscipline p) (handleFailure p d a e).run (.refused d e false, false) TellReturns := by
  unfold handleFailure
  rw [obeys_bindE, obeys_ask_op]
  refine ⟨rfl, fun now _ => ?_⟩
  simp only [ends_ok]
  split
  · exact tell_moveToDLQ_some a now
  · rw [obeys_bindE, obeys_remote]
    refine ⟨rfl, fun r _ => ?_⟩
    cases r with
    | error e => exact trivial
    | ok _ =>
      rw [ends_ok, obeys_bindE, obeys_remote]
      refine ⟨trivial, fun r _ => ?_⟩
      cases r with
      | error e => exact trivial
      | ok _ =>
        rw [ends_ok, obeys_bindE, obeys_ignore]
        refine ⟨⟨rfl, _, true, rfl, rfl, .inl rfl⟩, fun r _ => ?_⟩
        rw [ends_ok, obeys_bindE]
        cases r with
        | error e => exact tell_delay _ _ _ trivial fun r => by cases r <;> exact trivial
        | ok _ => exact tell_delay _ _ _ rfl fun r => by cases r <;> exact rfl

theorem tell_dispatchClaimed (proc : Nat) (d : Delivery) (now : Time) :
    Obeys (tellDiscipline p) (dispatchClaimed p proc d now).run (.owned d, false) TellReturns := by
  unfold dispatchClaimed
  split
  · exact tell_moveToDLQ_none now
  · rename_i present
    rw [obeys_bindE, obeys_ask_op]
    refine ⟨not_not.mp present, fun admitted _ => ?_⟩
    rw [ends_ok, obeys_bindE, obeys_ask_op]
    cases admitted with
    | error e => exact ⟨rfl, fun id _ => tell_handleFailure _⟩
    | ok _ =>
      refine ⟨trivial, fun id _ => ?_⟩
      simp only [ends_ok]
      rw [obeys_bindE, obeys_ask_op]
      refine ⟨trivial, fun sent _ => ?_⟩
      cases sent with
      | error err =>
        simp only [ends_ok]
        rw [obeys_bindE, obeys_ask_op]
        exact ⟨rfl, fun _ _ => tell_handleFailure _⟩
      | ok result =>
        simp only [ends_ok]
        rw [obeys_bindE, obeys_ask_op]
        refine ⟨trivial, fun _ _ => ?_⟩
        rw [ends_ok, obeys_bindE, obeys_ask_op]
        refine ⟨trivial, fun done _ => ?_⟩
        rw [ends_ok, obeys_bindE, obeys_remote]
        refine ⟨rfl, fun r _ => ?_⟩
        cases r with
        | error e => exact trivial
        | ok _ =>
          rw [ends_ok, obeys_bindE, obeys_remote]
          refine ⟨trivial, fun r _ => ?_⟩
          cases r with
          | error e => exact trivial
          | ok _ =>
            rw [ends_ok, obeys_remote]
            refine ⟨⟨rfl, _, true, rfl, rfl, .inl rfl⟩, fun r _ => ?_⟩
            cases r with
            | error e => exact trivial
            | ok _ => exact rfl

theorem tell_dispatch (proc : Nat) (id : String) :
    Obeys (tellDiscipline p) (dispatch p proc id).run (.start, false) TellReturns := by
  unfold dispatch
  rw [obeys_bindE, obeys_remote]
  refine ⟨trivial, fun r hr => ?_⟩
  cases r with
  | error e => exact trivial
  | ok d =>
    simp only [ends_ok]
    split
    · exact trivial
    · split
      · exact trivial
      · rw [obeys_bindE, obeys_ask_op]
        refine ⟨trivial, fun now _ => ?_⟩
        simp only [ends_ok]
        split
        · exact trivial
        · rename_i d' hd'
          rw [obeys_bindE, obeys_remote]
          refine ⟨trivial, fun r _ => ?_⟩
          cases r with
          | error e => exact trivial
          | ok updated =>
            cases updated with
            | false => exact trivial
            | true => exact tell_dispatchClaimed proc d' now

theorem tell_consume (proc i c : Nat) (m : Message) :
    Obeys (tellDiscipline p) (consume p proc i c m).run (.start, false) (fun ψ _ => ψ.1.Whole ψ.2) := by
  have h : Obeys (tellDiscipline p) (handleMessage p proc m).run (.start, false) TellReturns := by
    unfold handleMessage
    split
    · exact trivial
    · exact tell_dispatch proc _
  show Obeys _ ((handleMessage p proc m).run >>= _) _ _
  rw [obeys_bind]
  refine obeys_mono (fun ψ r hr => ?_) _ _ h
  cases r with
  | error e => exact ⟨hr, fun _ _ => trivial⟩
  | ok _ => exact ⟨hr, fun _ _ => trivial⟩

end

end GoCourier
