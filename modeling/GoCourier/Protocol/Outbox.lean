import GoCourier.Protocol.Worker
import GoCourier.Services.Outbox

/- What a flush of the outbox may do: for each fetched row in turn, look whether its
   delivery has a published row, publish it where it has not, and mark the row. -/
namespace GoCourier

open Interleave

inductive FlushPhase where
  | start
  | going (ms : List OutboxMessage)
  /-- `HasPublishedForDelivery` answered `published` for `m`; `ms` follow it. -/
  | checked (m : OutboxMessage) (ms : List OutboxMessage) (published : Bool)
  /-- `Publish` was called for `m`; `ok` unless it failed. -/
  | sent (m : OutboxMessage) (ms : List OutboxMessage) (ok : Bool)
  | failed

namespace FlushPhase

def check (φ : FlushPhase) (r : Except Err Bool) : FlushPhase :=
  match φ, r with
  | .going (m :: ms), .ok b => .checked m ms b
  | .going (_ :: ms), .error _ => .going ms
  | _, _ => .failed

def send (ok : Bool) : FlushPhase → FlushPhase
  | .checked m ms _ => .sent m ms ok
  | φ => φ

def mark : FlushPhase → FlushPhase
  | .checked _ ms _ => .going ms
  | .sent _ ms _ => .going ms
  | φ => φ

def next (φ : FlushPhase) : (op : Op) → Ans op → FlushPhase
  | .remote (.fetchPending _), .ok ms => .going ms
  | .remote (.fetchPending _), .error _ => .failed
  | .remote (.hasPublishedForDelivery _), r => φ.check r
  | .remote (.publish _ _ _), .ok _ => φ.send true
  | .remote (.publish _ _ _), .error _ => φ.send false
  | .remote (.markPublished _), _ => φ.mark
  | .remote (.markFailed _ _), _ => φ.mark
  | _, _ => φ

end FlushPhase

def FlushMay (φ : FlushPhase) : Op → Prop
  | .remote .countPending => φ = .start
  | .remote (.fetchPending _) => φ = .start
  | .remote (.hasPublishedForDelivery id) => ∃ m ms, φ = .going (m :: ms) ∧ id = m.deliveryId
  | .remote (.publish subject body headers) => ∃ m ms, φ = .checked m ms false ∧ subject = m.subject ∧
      body = m.payload ∧ headers = m.headers
  | .remote (.markPublished id) => ∃ m ms, (φ = .checked m ms true ∨ φ = .sent m ms true) ∧ id = m.id
  | .remote (.markFailed id _) => ∃ m ms, φ = .sent m ms false ∧ id = m.id
  | _ => False

def flushDiscipline : Discipline Op Ans FlushPhase := ⟨FlushMay, FlushPhase.next, Seen⟩

abbrev FlushReturns : FlushPhase → Except Err Unit → Prop :=
  Ends (fun φ _ => φ = .going []) (fun φ _ => φ = .failed)

theorem obeys_publishRows : ∀ ms : List OutboxMessage,
    Obeys flushDiscipline (publishRows ms).run (.going ms) FlushReturns
  | [] => rfl
  | m :: ms => by
    unfold publishRows
    rw [obeys_bindE, obeys_attempt]
    refine ⟨⟨m, ms, rfl, rfl⟩, fun r _ => ?_⟩
    cases r with
    | error e => exact obeys_publishRows ms
    | ok b =>
      cases b with
      | true =>
        simp only [ends_ok]
        rw [obeys_bindE, obeys_ignore]
        exact ⟨⟨m, ms, .inl rfl, rfl⟩, fun r _ => by cases r <;> exact obeys_publishRows ms⟩
      | false =>
        simp only [ends_ok]
        rw [obeys_bindE, obeys_attempt]
        refine ⟨⟨m, ms, rfl, rfl, rfl, rfl⟩, fun r _ => ?_⟩
        cases r with
        | error e =>
          simp only [ends_ok]
          rw [obeys_bindE, obeys_ignore]
          exact ⟨⟨m, ms, rfl, rfl⟩, fun r _ => by cases r <;> exact obeys_publishRows ms⟩
        | ok _ =>
          simp only [ends_ok]
          rw [obeys_bindE, obeys_ignore]
          exact ⟨⟨m, ms, .inr rfl, rfl⟩, fun r _ => by cases r <;> exact obeys_publishRows ms⟩

theorem obeys_flush (p : Params) : Obeys flushDiscipline (flush p).run .start FlushReturns := by
  unfold flush
  rw [obeys_bindE, obeys_ignore]
  refine ⟨rfl, fun r _ => ?_⟩
  have hstart : flushDiscipline.next .start (.remote .countPending) r = .start := by cases r <;> rfl
  rw [hstart, ends_ok, obeys_bindE, obeys_remote]
  refine ⟨rfl, fun r _ => ?_⟩
  cases r with
  | error e => exact rfl
  | ok ms => exact obeys_publishRows ms

/-! Every call of a flush, its answer, and the phase it leads to. -/

inductive FlushMoves : FlushPhase → (op : Op) → Ans op → FlushPhase → Prop where
  | counted (r : Except Err Nat) : FlushMoves .start (.remote .countPending) r .start
  | fetched (limit : Nat) (ms : List OutboxMessage) :
      FlushMoves .start (.remote (.fetchPending limit)) (.ok ms) (.going ms)
  | unfetched (limit : Nat) (e : Err) : FlushMoves .start (.remote (.fetchPending limit)) (.error e) .failed
  | checked (m : OutboxMessage) (ms : List OutboxMessage) (b : Bool) :
      FlushMoves (.going (m :: ms)) (.remote (.hasPublishedForDelivery m.deliveryId)) (.ok b) (.checked m ms b)
  | unchecked (m : OutboxMessage) (ms : List OutboxMessage) (e : Err) :
      FlushMoves (.going (m :: ms)) (.remote (.hasPublishedForDelivery m.deliveryId)) (.error e) (.going ms)
  | sent (m : OutboxMessage) (ms : List OutboxMessage) :
      FlushMoves (.checked m ms false) (.remote (.publish m.subject m.payload m.headers)) (.ok ()) (.sent m ms true)
  | unsent (m : OutboxMessage) (ms : List OutboxMessage) (e : Err) :
      FlushMoves (.checked m ms false) (.remote (.publish m.subject m.payload m.headers)) (.error e) (.sent m ms false)
  | skipped (m : OutboxMessage) (ms : List OutboxMessage) (r : Except Err Unit) :
      FlushMoves (.checked m ms true) (.remote (.markPublished m.id)) r (.going ms)
  | marked (m : OutboxMessage) (ms : List OutboxMessage) (r : Except Err Unit) :
      FlushMoves (.sent m ms true) (.remote (.markPublished m.id)) r (.going ms)
  | refused (m : OutboxMessage) (ms : List OutboxMessage) (msg : String) (r : Except Err Unit) :
      FlushMoves (.sent m ms false) (.remote (.markFailed m.id msg)) r (.going ms)

theorem flush_moves {φ : FlushPhase} {op : Op} (hm : FlushMay φ op) (r : Ans op) : FlushMoves φ op r (φ.next op r) := by
  cases op with
  | remote q =>
    cases q with
    | countPending =>
      have hφ : φ = .start := hm
      subst hφ
      cases r with
      | ok n => exact .counted (.ok n)
      | error e => exact .counted (.error e)
    | fetchPending limit =>
      have hφ : φ = .start := hm
      subst hφ
      cases r with
      | ok ms => exact .fetched limit ms
      | error e => exact .unfetched limit e
    | hasPublishedForDelivery id =>
      obtain ⟨m, ms, rfl, rfl⟩ := hm
      cases r with
      | ok b => exact .checked m ms b
      | error e => exact .unchecked m ms e
    | publish subject body headers =>
      obtain ⟨m, ms, rfl, rfl, rfl, rfl⟩ := hm
      cases r with
      | ok _ => exact .sent m ms
      | error e => exact .unsent m ms e
    | markPublished id =>
      obtain ⟨m, ms, hφ, rfl⟩ := hm
      rcases hφ with rfl | rfl <;> cases r
      · exact .skipped m ms (.error _)
      · exact .skipped m ms (.ok ())
      · exact .marked m ms (.error _)
      · exact .marked m ms (.ok ())
    | markFailed id msg =>
      obtain ⟨m, ms, rfl, rfl⟩ := hm
      cases r with
      | ok _ => exact .refused m ms msg (.ok ())
      | error e => exact .refused m ms msg (.error e)
    | _ => exact hm.elim
  | _ => exact hm.elim

end GoCourier
