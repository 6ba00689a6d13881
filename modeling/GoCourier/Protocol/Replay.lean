import GoCourier.Protocol.Worker

/- What a `ReplayDelivery` may do: read the delivery, write it back as queued with no
   retries, publish its message, record the event. -/
namespace GoCourier

open Interleave

inductive ReplayPhase where
  | start
  /-- `FindByID` returned `d`. -/
  | snap (d : Delivery)
  /-- `Update` wrote `d`. -/
  | requeued (d : Delivery)
  | published (d : Delivery)
  | done (d : Delivery)
  | failed

namespace ReplayPhase

def publish : ReplayPhase → ReplayPhase
  | .requeued d => .published d
  | φ => φ

def append : ReplayPhase → ReplayPhase
  | .published d => .done d
  | φ => φ

def next (φ : ReplayPhase) : (op : Op) → Ans op → ReplayPhase
  | .remote (.findByID _), .ok d => .snap d
  | .remote (.update d), .ok _ => .requeued d
  | .remote (.publish _ _ _), .ok _ => φ.publish
  | .remote (.append _ _ _), .ok _ => φ.append
  | .remote _, .error _ => .failed
  | _, _ => φ

end ReplayPhase

/-- The delivery the phase knows is `target`. -/
def ReplayPhase.About (target : String) : ReplayPhase → Prop
  | .snap d => d.id = target
  | .requeued d => d.id = target
  | .published d => d.id = target
  | .done d => d.id = target
  | _ => True

/-- A delivery that `Replay` accepts. -/
def Status.Replayable (st : Status) : Prop := st = .dlq ∨ st = .failed

instance (st : Status) : Decidable st.Replayable := inferInstanceAs (Decidable (_ ∨ _))

section
variable (p : Params)

def ReplayMay (target : String) (φ : ReplayPhase) : Op → Prop
  | .remote (.findByID id) => φ = .start ∧ id = target
  | .remote (.update d) => ∃ d₀ t, φ = .snap d₀ ∧ d₀.status.Replayable ∧
      d = { d₀ with status := .queued, updatedAt := t, retryCount := 0 }
  | .remote (.publish subject body headers) => ∃ d, φ = .requeued d ∧
      subject = notificationSubject p.streamPrefix d.channel d.priority ∧ body = idBody d.id ∧
      headers = replayHeaders d.id
  | .remote (.append id ev _) => ∃ d, φ = .published d ∧ id = d.id ∧ ev = .replayed
  | .now => True
  | _ => False

def replayDiscipline (target : String) : Discipline Op Ans ReplayPhase :=
  ⟨ReplayMay p target, ReplayPhase.next, Seen⟩

/-- A replay that was refused read a delivery `Replay` does not accept. -/
abbrev ReplayReturns : ReplayPhase → Except Err Unit → Prop :=
  Ends (fun φ _ => ∃ d, φ = .done d) (fun φ _ => φ = .failed ∨ ∃ d, φ = .snap d ∧ ¬ d.status.Replayable)

variable {p}

theorem about_replay {target : String} {φ : ReplayPhase} {op : Op} {r : Ans op} (hφ : φ.About target)
    (hm : ReplayMay p target φ op) (hr : Seen op r) : (φ.next op r).About target := by
  cases op with
  | now => exact hφ
  | remote q =>
    cases q with
    | findByID id =>
      cases r with
      | ok d => exact (show d.id = id from hr).trans hm.2
      | error e => trivial
    | update d =>
      obtain ⟨d₀, now, rfl, -, rfl⟩ := hm
      cases r with
      | ok _ => exact hφ
      | error e => trivial
    | publish subject body headers =>
      obtain ⟨d, rfl, -⟩ := hm
      cases r with
      | ok _ => exact hφ
      | error e => trivial
    | append id ev payload =>
      obtain ⟨d, rfl, -⟩ := hm
      cases r with
      | ok _ => exact hφ
      | error e => trivial
    | _ => exact hm.elim
  | _ => exact hm.elim

theorem obeys_replayDelivery (id : String) :
    Obeys (replayDiscipline p id) (replayDelivery p id).run .start ReplayReturns := by
  unfold replayDelivery
  rw [obeys_bindE, obeys_remote]
  refine ⟨⟨rfl, rfl⟩, fun r _ => ?_⟩
  cases r with
  | error e => exact .inl rfl
  | ok d =>
    rw [ends_ok, obeys_bindE, obeys_ask_op]
    refine ⟨trivial, fun now _ => ?_⟩
    simp only [ends_ok]
    split
    · rename_i e he
      obtain ⟨hd, hf⟩ := Delivery.replay_error he
      exact .inr ⟨d, rfl, fun h => h.elim hd hf⟩
    · rename_i d' hd'
      obtain ⟨hst, rfl⟩ := Delivery.replay_ok hd'
      rw [obeys_bindE, obeys_remote]
      refine ⟨⟨d, now, rfl, hst, rfl⟩, fun r _ => ?_⟩
      cases r with
      | error e => exact .inl rfl
      | ok _ =>
        rw [ends_ok, obeys_bindE, obeys_remote]
        refine ⟨⟨_, rfl, rfl, rfl, rfl⟩, fun r _ => ?_⟩
        cases r with
        | error e => exact .inl rfl
        | ok _ =>
          rw [ends_ok, obeys_remote]
          refine ⟨⟨_, rfl, rfl, rfl⟩, fun r _ => ?_⟩
          cases r with
          | error e => exact .inl rfl
          | ok _ => exact ⟨_, rfl⟩

/-! Every call of a replay, its answer, and the phase it leads to. -/

variable (p) in
inductive ReplayMoves (target : String) : ReplayPhase → (op : Op) → Ans op → ReplayPhase → Prop where
  | clock (φ : ReplayPhase) (t : Time) : ReplayMoves target φ .now t φ
  | found (d : Delivery) : ReplayMoves target .start (.remote (.findByID target)) (.ok d) (.snap d)
  | unfound (e : Err) : ReplayMoves target .start (.remote (.findByID target)) (.error e) .failed
  | wrote {d d' : Delivery} {now : Time} (dead : d.status.Replayable)
      (queued : d' = { d with status := .queued, updatedAt := now, retryCount := 0 }) (u : Unit) :
      ReplayMoves target (.snap d) (.remote (.update d')) (.ok u) (.requeued d')
  | unwritten {d d' : Delivery} {now : Time} (dead : d.status.Replayable)
      (queued : d' = { d with status := .queued, updatedAt := now, retryCount := 0 }) (e : Err) :
      ReplayMoves target (.snap d) (.remote (.update d')) (.error e) .failed
  | published (d : Delivery) (u : Unit) :
      ReplayMoves target (.requeued d) (.remote (.publish (notificationSubject p.streamPrefix d.channel d.priority)
        (idBody d.id) (replayHeaders d.id))) (.ok u) (.published d)
  | unpublished (d : Delivery) (e : Err) :
      ReplayMoves target (.requeued d) (.remote (.publish (notificationSubject p.streamPrefix d.channel d.priority)
        (idBody d.id) (replayHeaders d.id))) (.error e) .failed
  | appended (d : Delivery) (payload : AuditPayload) (u : Unit) :
      ReplayMoves target (.published d) (.remote (.append d.id .replayed payload)) (.ok u) (.done d)
  | unappended (d : Delivery) (payload : AuditPayload) (e : Err) :
      ReplayMoves target (.published d) (.remote (.append d.id .replayed payload)) (.error e) .failed

theorem replay_moves {target : String} {φ : ReplayPhase} {op : Op} (hm : ReplayMay p target φ op) (r : Ans op) :
    ReplayMoves p target φ op r (φ.next op r) := by
  cases op with
  | now => exact .clock φ r
  | remote q =>
    cases q with
    | findByID id =>
      obtain ⟨rfl, rfl⟩ := hm
      cases r with
      | ok d => exact .found d
      | error e => exact .unfound e
    | update d =>
      obtain ⟨d₀, now, rfl, hdead, hd⟩ := hm
      cases r with
      | ok u => exact .wrote hdead hd u
      | error e => exact .unwritten hdead hd e
    | publish subject body headers =>
      obtain ⟨d, rfl, rfl, rfl, rfl⟩ := hm
      cases r with
      | ok u => exact .published d u
      | error e => exact .unpublished d e
    | append id ev payload =>
      obtain ⟨d, rfl, rfl, rfl⟩ := hm
      cases r with
      | ok u => exact .appended d payload u
      | error e => exact .unappended d payload e
    | _ => exact hm.elim
  | _ => exact hm.elim

end

end GoCourier
