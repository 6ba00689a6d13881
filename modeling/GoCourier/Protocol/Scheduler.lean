import GoCourier.Protocol.Worker
import GoCourier.Services.Scheduler

/- What a tick of the scheduler may do: for each due delivery in turn, read it and,
   where it is still pending, write it back as queued, enqueue its message, and mark
   its row processed. The phase carries the rows still to come. -/
namespace GoCourier

open Interleave

inductive TickPhase where
  | start
  /-- The clock said `now`. -/
  | asked (now : Time)
  | going (ids : List String)
  /-- `FindByID` returned `d`; `ids` follow it. -/
  | snap (d : Delivery) (ids : List String)
  /-- `Update` wrote `d`. -/
  | requeued (d : Delivery) (ids : List String)
  | enqueued (d : Delivery) (ids : List String)
  | marked (d : Delivery) (ids : List String)
  | failed

namespace TickPhase

/-- The rows a tick goes on to, where it is between two of them. -/
def todo : TickPhase → Option (List String)
  | .going ids => some ids
  | .snap d ids => if d.status = .pending then none else some ids
  | _ => none

def read (φ : TickPhase) (r : Except Err Delivery) : TickPhase :=
  match φ.todo, r with
  | some (_ :: ids), .ok d => .snap d ids
  | some (_ :: ids), .error _ => .going ids
  | _, _ => .failed

def write (d : Delivery) : TickPhase → TickPhase
  | .snap _ ids => .requeued d ids
  | φ => φ

def enqueue : TickPhase → TickPhase
  | .requeued d ids => .enqueued d ids
  | φ => φ

def mark : TickPhase → TickPhase
  | .enqueued d ids => .marked d ids
  | φ => φ

def append : TickPhase → TickPhase
  | .marked _ ids => .going ids
  | φ => φ

def next (φ : TickPhase) : (op : Op) → Ans op → TickPhase
  | .now, now => .asked now
  | .remote (.fetchDue _ _), .ok ids => .going ids
  | .remote (.findByID _), r => φ.read r
  | .remote (.update d), .ok _ => φ.write d
  | .remote (.enqueue _ _ _ _), .ok _ => φ.enqueue
  | .remote (.markProcessed _), .ok _ => φ.mark
  | .remote (.append _ _ _), _ => φ.append
  | .remote _, .error _ => .failed
  | _, _ => φ

end TickPhase

section
variable (p : Params)

def TickMay (φ : TickPhase) : Op → Prop
  | .remote (.fetchDue before _) => φ = .asked before
  | .remote (.findByID id) => ∃ ids, φ.todo = some (id :: ids)
  | .remote (.update d) => ∃ d₀ t ids, φ = .snap d₀ ids ∧ d₀.status = .pending ∧
      d = { d₀ with status := .queued, updatedAt := t }
  | .remote (.enqueue id subject body headers) => ∃ d ids, φ = .requeued d ids ∧ id = d.id ∧
      subject = notificationSubject p.streamPrefix d.channel d.priority ∧ body = idBody d.id ∧
      headers = notificationHeaders d
  | .remote (.markProcessed id) => ∃ d ids, φ = .enqueued d ids ∧ id = d.id
  | .remote (.append id ev _) => ∃ d ids, φ = .marked d ids ∧ id = d.id ∧ ev = .queued
  | .now => φ = .start
  | _ => False

def tickDiscipline : Discipline Op Ans TickPhase := ⟨TickMay p, TickPhase.next, Seen⟩

abbrev TickReturns : TickPhase → Except Err Unit → Prop :=
  Ends (fun φ _ => φ.todo = some []) (fun φ _ => φ = .failed)

variable {p}

theorem obeys_processRows (now : Time) : ∀ (ids : List String) (φ : TickPhase), φ.todo = some ids →
    Obeys (tickDiscipline p) (processRows p now ids).run φ TickReturns
  | [], _, hφ => hφ
  | id :: ids, φ, hφ => by
    unfold processRows
    rw [obeys_bindE, obeys_attempt]
    refine ⟨⟨ids, hφ⟩, fun r hr => ?_⟩
    have hread : (tickDiscipline p).next φ (.remote (.findByID id)) r = φ.read r := by cases r <;> rfl
    rw [hread]
    cases r with
    | error e =>
      have hat : φ.read (.error e) = .going ids := by simp [TickPhase.read, hφ]
      rw [hat]
      exact obeys_processRows now ids _ rfl
    | ok d =>
      have hsnap : φ.read (.ok d) = .snap d ids := by simp [TickPhase.read, hφ]
      rw [hsnap, ends_ok]
      simp only []
      split
      · rename_i e he
        exact obeys_processRows now ids _ (if_neg (Delivery.queue_error he))
      · rename_i d' hd'
        obtain ⟨hst, rfl⟩ := Delivery.queue_ok hd'
        rw [obeys_bindE, obeys_remote]
        refine ⟨⟨d, now, ids, rfl, hst, rfl⟩, fun r _ => ?_⟩
        cases r with
        | error e => exact rfl
        | ok _ =>
          rw [ends_ok, obeys_bindE, obeys_remote]
          refine ⟨⟨_, ids, rfl, rfl, rfl, rfl, rfl⟩, fun r _ => ?_⟩
          cases r with
          | error e => exact rfl
          | ok _ =>
            rw [ends_ok, obeys_bindE, obeys_remote]
            refine ⟨⟨_, ids, rfl, hr.symm⟩, fun r _ => ?_⟩
            cases r with
            | error e => exact rfl
            | ok _ =>
              rw [ends_ok, obeys_bindE, obeys_ignore]
              refine ⟨⟨_, ids, rfl, rfl, rfl⟩, fun r _ => ?_⟩
              cases r <;> exact obeys_processRows now ids _ rfl

theorem obeys_processDue : Obeys (tickDiscipline p) (processDue p).run .start TickReturns := by
  unfold processDue
  rw [obeys_bindE, obeys_ask_op]
  refine ⟨rfl, fun now _ => ?_⟩
  rw [ends_ok, obeys_bindE, obeys_remote]
  refine ⟨rfl, fun r _ => ?_⟩
  cases r with
  | error e => exact rfl
  | ok ids => exact obeys_processRows now ids _ rfl

/-! Every call of a tick, its answer, and the phase it leads to. -/

variable (p) in
inductive TickMoves : TickPhase → (op : Op) → Ans op → TickPhase → Prop where
  | clock (now : Time) : TickMoves .start .now now (.asked now)
  | fetched (before : Time) (limit : Nat) (ids : List String) :
      TickMoves (.asked before) (.remote (.fetchDue before limit)) (.ok ids) (.going ids)
  | unfetched (before : Time) (limit : Nat) (e : Err) :
      TickMoves (.asked before) (.remote (.fetchDue before limit)) (.error e) .failed
  | read {φ : TickPhase} {id : String} {ids : List String} (todo : φ.todo = some (id :: ids)) (d : Delivery) :
      TickMoves φ (.remote (.findByID id)) (.ok d) (.snap d ids)
  | missing {φ : TickPhase} {id : String} {ids : List String} (todo : φ.todo = some (id :: ids)) (e : Err) :
      TickMoves φ (.remote (.findByID id)) (.error e) (.going ids)
  | wrote {d d' : Delivery} {now : Time} (ids : List String) (pending : d.status = .pending)
      (queued : d' = { d with status := .queued, updatedAt := now }) :
      TickMoves (.snap d ids) (.remote (.update d')) (.ok ()) (.requeued d' ids)
  | unwritten {d d' : Delivery} {now : Time} (ids : List String) (pending : d.status = .pending)
      (queued : d' = { d with status := .queued, updatedAt := now }) (e : Err) :
      TickMoves (.snap d ids) (.remote (.update d')) (.error e) .failed
  | enqueued (d : Delivery) (ids : List String) :
      TickMoves (.requeued d ids) (.remote (.enqueue d.id (notificationSubject p.streamPrefix d.channel d.priority)
        (idBody d.id) (notificationHeaders d))) (.ok ()) (.enqueued d ids)
  | unenqueued (d : Delivery) (ids : List String) (e : Err) :
      TickMoves (.requeued d ids) (.remote (.enqueue d.id (notificationSubject p.streamPrefix d.channel d.priority)
        (idBody d.id) (notificationHeaders d))) (.error e) .failed
  | marked (d : Delivery) (ids : List String) :
      TickMoves (.enqueued d ids) (.remote (.markProcessed d.id)) (.ok ()) (.marked d ids)
  | unmarked (d : Delivery) (ids : List String) (e : Err) :
      TickMoves (.enqueued d ids) (.remote (.markProcessed d.id)) (.error e) .failed
  | appended (d : Delivery) (ids : List String) (payload : AuditPayload) (r : Except Err Unit) :
      TickMoves (.marked d ids) (.remote (.append d.id .queued payload)) r (.going ids)

theorem tick_moves {φ : TickPhase} {op : Op} (hm : TickMay p φ op) (r : Ans op) : TickMoves p φ op r (φ.next op r) := by
  cases op with
  | now =>
    have hφ : φ = .start := hm
    subst hφ
    exact .clock r
  | remote q =>
    cases q with
    | fetchDue before limit =>
      have hφ : φ = .asked before := hm
      subst hφ
      cases r with
      | ok ids => exact .fetched before limit ids
      | error e => exact .unfetched before limit e
    | findByID id =>
      obtain ⟨ids, hids⟩ := hm
      cases r with
      | ok d =>
        have hnext : φ.next (.remote (.findByID id)) (.ok d) = .snap d ids := by simp [TickPhase.next, TickPhase.read, hids]
        rw [hnext]
        exact .read hids d
      | error e =>
        have hnext : φ.next (.remote (.findByID id)) (.error e) = .going ids := by
          simp [TickPhase.next, TickPhase.read, hids]
        rw [hnext]
        exact .missing hids e
    | update d' =>
      obtain ⟨d, now, ids, rfl, hst, hd⟩ := hm
      cases r with
      | ok _ => exact .wrote ids hst hd
      | error e => exact .unwritten ids hst hd e
    | enqueue id subject body headers =>
      obtain ⟨d, ids, rfl, rfl, rfl, rfl, rfl⟩ := hm
      cases r with
      | ok _ => exact .enqueued d ids
      | error e => exact .unenqueued d ids e
    | markProcessed id =>
      obtain ⟨d, ids, rfl, rfl⟩ := hm
      cases r with
      | ok _ => exact .marked d ids
      | error e => exact .unmarked d ids e
    | append id ev payload =>
      obtain ⟨d, ids, rfl, rfl, rfl⟩ := hm
      cases r with
      | ok _ => exact .appended d ids payload (.ok ())
      | error e => exact .appended d ids payload (.error e)
    | _ => exact hm.elim
  | _ => exact hm.elim

end

end GoCourier
