import GoCourier.Services.Dispatch

/- What a dispatch may do to its delivery, step by step. A `WorkerPhase` is what a
   `Dispatch` has learnt and done so far; `WorkerMay` names the calls it makes in each
   phase. `obeys_dispatch` and `obeys_consume` show that the programs keep to it
   whatever the database, the broker and the provider answer. Everything proved later
   about interleaved dispatches uses the phases, not the programs. -/
namespace GoCourier

open Interleave

/-- The answers that occur: a delivery found by id has that id, and a UUID is not empty. -/
def Seen : (op : Op) → Ans op → Prop
  | .remote (.findByID id), .ok d => d.id = id
  | .newUUID, u => u ≠ ""
  | _, _ => True

inductive WorkerPhase where
  | start
  /-- `FindByID` returned `d`. -/
  | snap (d : Delivery)
  /-- `UpdateIfStatus` found another status. -/
  | passed
  /-- `UpdateIfStatus` wrote `d`. -/
  | owned (d : Delivery)
  /-- The breaker or the provider refused `d`; `noted`: the attempt is recorded. -/
  | refused (d : Delivery) (e : Err) (noted : Bool)
  /-- The provider accepted `d`. -/
  | accepted (d : Delivery)
  /-- `Update` wrote `d`. -/
  | settled (d : Delivery) (noted : Bool)
  /-- A call failed. -/
  | failed
  /-- The message is acked or nakked. -/
  | closed

namespace WorkerPhase

def refuse (φ : WorkerPhase) (e : Err) : WorkerPhase :=
  match φ with
  | .owned d => .refused d e false
  | φ => φ

def accept : WorkerPhase → WorkerPhase
  | .owned d => .accepted d
  | φ => φ

def settle (d : Delivery) : WorkerPhase → WorkerPhase
  | .refused _ _ noted => .settled d noted
  | _ => .settled d false

def note : WorkerPhase → WorkerPhase
  | .refused d e _ => .refused d e true
  | .settled d _ => .settled d true
  | φ => φ

def next (φ : WorkerPhase) : (op : Op) → Ans op → WorkerPhase
  | .remote (.findByID _), .ok d => .snap d
  | .remote (.updateIfStatus d _), .ok true => .owned d
  | .remote (.updateIfStatus _ _), .ok false => .passed
  | .remote (.update d), .ok _ => φ.settle d
  | .remote (.recordAttempt _ _), .ok _ => φ.note
  | .remote (.publish _ _ _), _ => φ
  | .remote (.append _ _ _), .ok _ => φ
  | .remote _, .error _ => .failed
  | .allow _ _, .error _ => φ.refuse errTransient
  | .send _, .error e => φ.refuse e
  | .send _, .ok _ => φ.accept
  | .ack _ _, _ => .closed
  | .nak _ _, _ => .closed
  | _, _ => φ

end WorkerPhase

/-- The delivery the phase knows is one of `P`. -/
def WorkerPhase.About (P : String → Prop) : WorkerPhase → Prop
  | .snap d => P d.id
  | .owned d => P d.id
  | .refused d _ _ => P d.id
  | .accepted d => P d.id
  | .settled d _ => P d.id
  | _ => True

/-- `d'` is `d` moved to status `st` with this retry count and error text. -/
structure Delivery.Moved (d d' : Delivery) (st : Status) (retryCount : Nat) (lastError : String) : Prop where
  id : d'.id = d.id
  channel : d'.channel = d.channel
  status : d'.status = st
  count : d'.retryCount = retryCount
  error : d'.lastError = lastError

section
variable (p : Params)

/-- The write that ends a dispatch's hold on the row, from each phase it can come in. -/
inductive Settles : WorkerPhase → Delivery → Prop where
  | noProvider {d d' : Delivery} (absent : d.channel ∉ p.providers)
      (moved : d.Moved d' .dlq d.retryCount "no provider for channel") : Settles (.owned d) d'
  | gaveUp {d d' : Delivery} {e : Err} (out : giveUp p d e) (moved : d.Moved d' .dlq d.retryCount e.text) :
      Settles (.refused d e true) d'
  | retry {d d' : Delivery} {e : Err} (more : ¬ giveUp p d e)
      (moved : d.Moved d' .retrying (d.retryCount + 1) e.text) : Settles (.refused d e false) d'
  | success {d d' : Delivery} (moved : d.Moved d' .succeeded d.retryCount "") : Settles (.accepted d) d'

/-- The attempt record a dispatch writes: before the row where it gives up, after it otherwise. -/
inductive Records : WorkerPhase → String → Attempt → Prop where
  | gaveUp {d : Delivery} {e : Err} {a : Attempt} (out : giveUp p d e) (number : a.attemptNumber = d.retryCount + 1) :
      Records (.refused d e false) d.id a
  | retry {d : Delivery} {a : Attempt} (status : d.status = .retrying) (number : a.attemptNumber = d.retryCount) :
      Records (.settled d false) d.id a
  | success {d : Delivery} {a : Attempt} (status : d.status = .succeeded)
      (number : a.attemptNumber = d.retryCount + 1) : Records (.settled d false) d.id a

/-- Phases in which a dispatch returns nil. -/
inductive Quiet : WorkerPhase → Prop where
  | seen {d : Delivery} (terminal : d.status = .succeeded ∨ d.status = .dlq) : Quiet (.snap d)
  | passed : Quiet .passed
  | settled {d : Delivery} {noted : Bool} (terminal : d.status = .succeeded ∨ d.status = .dlq) :
      Quiet (.settled d noted)

/-- Phases in which a dispatch returns an error. -/
inductive Loud : WorkerPhase → Prop where
  | unread : Loud .start
  | seen {d : Delivery} (busy : d.status ≠ .queued ∧ d.status ≠ .retrying ∧ d.status ≠ .succeeded ∧
      d.status ≠ .dlq) : Loud (.snap d)
  | settled {d : Delivery} {noted : Bool} (again : d.status = .retrying) : Loud (.settled d noted)
  | failed : Loud .failed

/-- The calls of a dispatch. `target` holds of the delivery it is for, `copy` of the message
    copy it answers for. -/
def WorkerMay (target : String → Prop) (copy : Nat × Nat → Prop) (φ : WorkerPhase) : Op → Prop
  | .remote (.findByID id) => φ = .start ∧ target id
  | .remote (.updateIfStatus d expected) => ∃ d₀ t, φ = .snap d₀ ∧ (d₀.status = .queued ∨ d₀.status = .retrying) ∧
      expected = d₀.status ∧ d = { d₀ with status := .processing, updatedAt := t }
  | .allow _ ch => ∃ d, φ = .owned d ∧ ch = d.channel
  | .send d => φ = .owned d ∧ d.channel ∈ p.providers
  | .recordFailure _ ch => ∃ d e, φ = .refused d e false ∧ ch = d.channel
  | .recordSuccess _ ch => ∃ d, φ = .accepted d ∧ ch = d.channel
  | .remote (.update d) => Settles p φ d
  | .remote (.recordAttempt id a) => Records p φ id a
  | .remote (.publish subject body headers) => ∃ d noted, φ = .settled d noted ∧ d.status = .dlq ∧
      subject = dlqSubject d.channel ∧ body = dlqBody d d.lastError ∧ headers = [("delivery_id", d.id)]
  | .remote (.append id ev _) => ∃ d noted, φ = .settled d noted ∧ id = d.id ∧ ev ≠ .received
  | .ack i c => copy (i, c) ∧ Quiet φ
  | .nak i c => copy (i, c) ∧ Loud φ
  | .now => True
  | .newUUID => True
  | .int63n _ => True
  | _ => False

def workerDiscipline (target : String → Prop) (copy : Nat × Nat → Prop) : Discipline Op Ans WorkerPhase :=
  ⟨WorkerMay p target copy, WorkerPhase.next, Seen⟩

/-- A dispatch returns nil in a quiet phase and an error in a loud one. -/
abbrev Returns : WorkerPhase → Except Err Unit → Prop := Ends (fun φ _ => Quiet φ) (fun φ _ => Loud φ)

variable {p} {target : String → Prop} {copy : Nat × Nat → Prop}

theorem settles_id {φ : WorkerPhase} {d : Delivery} {P : String → Prop} (h : Settles p φ d) (hφ : φ.About P) :
    P d.id := by
  cases h with
  | noProvider absent moved => exact moved.id ▸ hφ
  | gaveUp out moved => exact moved.id ▸ hφ
  | retry more moved => exact moved.id ▸ hφ
  | success moved => exact moved.id ▸ hφ

/-- A dispatch never comes to know another delivery than the one it is for. -/
theorem about_worker {φ : WorkerPhase} {op : Op} {r : Ans op} (hφ : φ.About target)
    (hm : WorkerMay p target copy φ op) (hr : Seen op r) : (φ.next op r).About target := by
  cases op with
  | allow proc ch =>
    obtain ⟨d, rfl, -⟩ := hm
    cases r with
    | ok _ => exact hφ
    | error e => exact hφ
  | send d =>
    obtain ⟨rfl, -⟩ := hm
    cases r with
    | ok _ => exact hφ
    | error e => exact hφ
  | remote q =>
    cases q with
    | findByID id =>
      cases r with
      | ok d => exact (show d.id = id from hr) ▸ hm.2
      | error e => trivial
    | updateIfStatus d expected =>
      obtain ⟨d₀, now, rfl, -, -, rfl⟩ := hm
      cases r with
      | ok b => cases b with
        | true => exact hφ
        | false => trivial
      | error e => trivial
    | update d =>
      have hid : target d.id := settles_id hm hφ
      cases r with
      | ok _ => cases φ <;> exact hid
      | error e => trivial
    | recordAttempt id a =>
      cases r with
      | ok _ => cases hm <;> exact hφ
      | error e => trivial
    | publish subject body headers => exact hφ
    | append id ev payload =>
      cases r with
      | ok _ => exact hφ
      | error e => trivial
    | _ => exact hm.elim
  | ack i c => trivial
  | nak i c => trivial
  | now => exact hφ
  | newUUID => exact hφ
  | int63n n => exact hφ
  | recordSuccess proc ch => exact hφ
  | recordFailure proc ch => exact hφ

theorem markDLQ_moved (d : Delivery) (a : Attempt) (msg : String) (now : Time) :
    d.Moved (d.markDLQ a msg now) .dlq d.retryCount msg := by
  unfold Delivery.markDLQ
  constructor <;> split <;> rfl

/-- What is left of `moveToDLQ` once the row can be written. -/
theorem obeys_deadLetter {φ : WorkerPhase} {d d' : Delivery} {msg : String} (h : Settles p φ d')
    (hm : d.Moved d' .dlq d.retryCount msg) :
    Obeys (workerDiscipline p target copy) (do
      DeliveryRepo.update d'
      ignore (.publish (dlqSubject d'.channel) (dlqBody d' msg) [("delivery_id", d'.id)])
      AuditRepo.append d'.id .movedToDLQ [("error", .str msg)] : Go Unit).run φ Returns := by
  rw [obeys_bindE, obeys_remote]
  refine ⟨h, fun r _ => ?_⟩
  cases r with
  | error e => exact .failed
  | ok _ =>
    have hs : ∃ noted, φ.settle d' = .settled d' noted := by
      cases φ <;> exact ⟨_, rfl⟩
    obtain ⟨noted, hs⟩ := hs
    rw [ends_ok, obeys_bindE, obeys_ignore]
    refine ⟨⟨d', noted, hs, hm.status, rfl, by rw [hm.error], rfl⟩, fun _ _ => ?_⟩
    rw [ends_ok, obeys_remote]
    refine ⟨⟨d', noted, hs, rfl, nofun⟩, fun r _ => ?_⟩
    cases r with
    | error e => exact .failed
    | ok _ =>
      show Quiet (φ.settle d')
      rw [hs]
      exact .settled (.inr hm.status)

theorem obeys_moveToDLQ_none {d : Delivery} (now : Time) (absent : d.channel ∉ p.providers) :
    Obeys (workerDiscipline p target copy) (moveToDLQ d now "no provider for channel" none).run (.owned d)
      Returns := by
  have hm := markDLQ_moved d {} "no provider for channel" now
  exact obeys_deadLetter (.noProvider absent hm) hm

theorem obeys_moveToDLQ_some {d : Delivery} {e : Err} {a : Attempt} (now : Time) (out : giveUp p d e)
    (number : a.attemptNumber = d.retryCount + 1) :
    Obeys (workerDiscipline p target copy) (moveToDLQ d now e.text (some a)).run (.refused d e false)
      Returns := by
  unfold moveToDLQ
  simp only []
  rw [obeys_bindE, obeys_remote]
  refine ⟨.gaveUp out number, fun r _ => ?_⟩
  cases r with
  | error e => exact .failed
  | ok _ =>
    have hm := markDLQ_moved d { a with errorMessage := e.text, finishedAt := some now } e.text now
    exact obeys_deadLetter (.gaveUp out hm) hm

theorem obeys_delay {φ : WorkerPhase} {Q : WorkerPhase → Except Err Duration → Prop} (n : Int) (base max : Duration)
    (h : ∀ r, Q φ r) : Obeys (workerDiscipline p target copy) (delay n base max).run φ Q := by
  unfold delay
  simp only []
  rw [obeys_bindE, obeys_ask_op]
  exact ⟨trivial, fun r _ => h _⟩

theorem obeys_handleFailure {d : Delivery} {e : Err} {a : Attempt} (number : a.attemptNumber = d.retryCount + 1) :
    Obeys (workerDiscipline p target copy) (handleFailure p d a e).run (.refused d e false) Returns := by
  unfold handleFailure
  rw [obeys_bindE, obeys_ask_op]
  refine ⟨trivial, fun now _ => ?_⟩
  simp only [ends_ok]
  split
  · rename_i out
    exact obeys_moveToDLQ_some now out number
  · rename_i more
    rw [obeys_bindE, obeys_remote]
    refine ⟨.retry more ⟨rfl, rfl, rfl, rfl, rfl⟩, fun r _ => ?_⟩
    cases r with
    | error e => exact .failed
    | ok _ =>
      rw [ends_ok, obeys_bindE, obeys_remote]
      refine ⟨.retry rfl number, fun r _ => ?_⟩
      cases r with
      | error e => exact .failed
      | ok _ =>
        rw [ends_ok, obeys_bindE, obeys_ignore]
        refine ⟨⟨_, true, rfl, rfl, by decide⟩, fun r _ => ?_⟩
        rw [ends_ok, obeys_bindE]
        cases r with
        | error e => exact obeys_delay _ _ _ fun r => by cases r <;> exact .failed
        | ok _ => exact obeys_delay _ _ _ fun r => by cases r <;> exact .settled rfl

/-- The dispatch of a claimed delivery: refused and retried or given up, accepted and recorded. -/
theorem obeys_dispatchClaimed (proc : Nat) (d : Delivery) (now : Time) :
    Obeys (workerDiscipline p target copy) (dispatchClaimed p proc d now).run (.owned d) Returns := by
  unfold dispatchClaimed
  split
  · rename_i absent
    exact obeys_moveToDLQ_none now absent
  · rename_i present
    rw [obeys_bindE, obeys_ask_op]
    refine ⟨⟨d, rfl, rfl⟩, fun admitted _ => ?_⟩
    rw [ends_ok, obeys_bindE, obeys_ask_op]
    refine ⟨trivial, fun id _ => ?_⟩
    cases admitted with
    | error e => exact obeys_handleFailure rfl
    | ok _ =>
      simp only [ends_ok]
      rw [obeys_bindE, obeys_ask_op]
      refine ⟨⟨rfl, not_not.mp present⟩, fun sent _ => ?_⟩
      cases sent with
      | error err =>
        simp only [ends_ok]
        rw [obeys_bindE, obeys_ask_op]
        exact ⟨⟨d, err, rfl, rfl⟩, fun _ _ => obeys_handleFailure rfl⟩
      | ok result =>
        simp only [ends_ok]
        rw [obeys_bindE, obeys_ask_op]
        refine ⟨⟨d, rfl, rfl⟩, fun _ _ => ?_⟩
        rw [ends_ok, obeys_bindE, obeys_ask_op]
        refine ⟨trivial, fun done _ => ?_⟩
        rw [ends_ok, obeys_bindE, obeys_remote]
        refine ⟨.success ⟨rfl, rfl, rfl, rfl, rfl⟩, fun r _ => ?_⟩
        cases r with
        | error e => exact .failed
        | ok _ =>
          rw [ends_ok, obeys_bindE, obeys_remote]
          refine ⟨.success rfl rfl, fun r _ => ?_⟩
          cases r with
          | error e => exact .failed
          | ok _ =>
            rw [ends_ok, obeys_remote]
            refine ⟨⟨_, true, rfl, rfl, by decide⟩, fun r _ => ?_⟩
            cases r with
            | error e => exact .failed
            | ok _ => exact .settled (.inl rfl)

theorem obeys_dispatch (proc : Nat) {id : String} (h : target id) :
    Obeys (workerDiscipline p target copy) (dispatch p proc id).run .start Returns := by
  unfold dispatch
  rw [obeys_bindE, obeys_remote]
  refine ⟨⟨rfl, h⟩, fun r hr => ?_⟩
  cases r with
  | error e => exact .failed
  | ok d =>
    simp only [ends_ok]
    split
    · rename_i hs
      exact .seen (.inl hs)
    · rename_i hns
      split
      · rename_i hd
        exact .seen (.inr hd)
      · rename_i hnd
        rw [obeys_bindE, obeys_ask_op]
        refine ⟨trivial, fun now _ => ?_⟩
        simp only [ends_ok]
        split
        · rename_i e he
          obtain ⟨hq, hr'⟩ := Delivery.startProcessing_error he
          exact .seen ⟨hq, hr', hns, hnd⟩
        · rename_i d' hd'
          obtain ⟨hst, heq⟩ := Delivery.startProcessing_ok hd'
          rw [obeys_bindE, obeys_remote]
          refine ⟨⟨d, now, rfl, hst, rfl, heq⟩, fun r _ => ?_⟩
          cases r with
          | error e => exact .failed
          | ok updated =>
            cases updated with
            | false => exact .passed
            | true => exact obeys_dispatchClaimed proc d' now

/-- The consumer's callback: ack where the dispatch returned nil, nak where it did not. -/
theorem obeys_consume (proc i c : Nat) (m : Message) (ht : ∀ id, m.deliveryId = .ok id → target id)
    (hc : copy (i, c)) :
    Obeys (workerDiscipline p target copy) (consume p proc i c m).run .start (fun φ _ => φ = .closed) := by
  have h : Obeys (workerDiscipline p target copy) (handleMessage p proc m).run .start Returns := by
    unfold handleMessage
    split
    · exact .unread
    · rename_i id hid
      exact obeys_dispatch proc (ht id hid)
  show Obeys _ ((handleMessage p proc m).run >>= _) _ _
  rw [obeys_bind]
  refine obeys_mono (fun φ r hr => ?_) _ _ h
  cases r with
  | error e => exact ⟨⟨hc, hr⟩, fun _ _ => rfl⟩
  | ok _ => exact ⟨⟨hc, hr⟩, fun _ _ => rfl⟩

/-! Every call of a dispatch, its answer, and the phase it leads to. -/

variable (p target copy) in
inductive WorkerMoves : WorkerPhase → (op : Op) → Ans op → WorkerPhase → Prop where
  | clock (φ : WorkerPhase) (t : Time) : WorkerMoves φ .now t φ
  | uuid (φ : WorkerPhase) (u : String) : WorkerMoves φ .newUUID u φ
  | jitter (φ : WorkerPhase) (n r : Int) : WorkerMoves φ (.int63n n) r φ
  | found {id : String} (about : target id) (d : Delivery) :
      WorkerMoves .start (.remote (.findByID id)) (.ok d) (.snap d)
  | unfound {id : String} (about : target id) (e : Err) : WorkerMoves .start (.remote (.findByID id)) (.error e) .failed
  | claimed {d₀ d : Delivery} {now : Time} (takeable : d₀.status = .queued ∨ d₀.status = .retrying)
      (taken : d = { d₀ with status := .processing, updatedAt := now }) :
      WorkerMoves (.snap d₀) (.remote (.updateIfStatus d d₀.status)) (.ok true) (.owned d)
  | passed {d₀ d : Delivery} {now : Time} (takeable : d₀.status = .queued ∨ d₀.status = .retrying)
      (taken : d = { d₀ with status := .processing, updatedAt := now }) :
      WorkerMoves (.snap d₀) (.remote (.updateIfStatus d d₀.status)) (.ok false) .passed
  | unclaimed {d₀ d : Delivery} {now : Time} (takeable : d₀.status = .queued ∨ d₀.status = .retrying)
      (taken : d = { d₀ with status := .processing, updatedAt := now }) (e : Err) :
      WorkerMoves (.snap d₀) (.remote (.updateIfStatus d d₀.status)) (.error e) .failed
  | admitted (d : Delivery) (proc : Nat) (u : Unit) :
      WorkerMoves (.owned d) (.allow proc d.channel) (.ok u) (.owned d)
  | blocked (d : Delivery) (proc : Nat) (e : Err) :
      WorkerMoves (.owned d) (.allow proc d.channel) (.error e) (.refused d errTransient false)
  | accepted {d : Delivery} (present : d.channel ∈ p.providers) (res : ProviderResult) :
      WorkerMoves (.owned d) (.send d) (.ok res) (.accepted d)
  | rejected {d : Delivery} (present : d.channel ∈ p.providers) (e : Err) :
      WorkerMoves (.owned d) (.send d) (.error e) (.refused d e false)
  | failure (d : Delivery) (e : Err) (proc : Nat) (u : Unit) :
      WorkerMoves (.refused d e false) (.recordFailure proc d.channel) u (.refused d e false)
  | success (d : Delivery) (proc : Nat) (u : Unit) :
      WorkerMoves (.accepted d) (.recordSuccess proc d.channel) u (.accepted d)
  | settled {φ : WorkerPhase} {d : Delivery} (settles : Settles p φ d) (u : Unit) :
      WorkerMoves φ (.remote (.update d)) (.ok u) (φ.settle d)
  | unsettled {φ : WorkerPhase} {d : Delivery} (settles : Settles p φ d) (e : Err) :
      WorkerMoves φ (.remote (.update d)) (.error e) .failed
  | recorded {φ : WorkerPhase} {id : String} {a : Attempt} (records : Records p φ id a) (u : Unit) :
      WorkerMoves φ (.remote (.recordAttempt id a)) (.ok u) φ.note
  | unrecorded {φ : WorkerPhase} {id : String} {a : Attempt} (records : Records p φ id a) (e : Err) :
      WorkerMoves φ (.remote (.recordAttempt id a)) (.error e) .failed
  | published {d : Delivery} (noted : Bool) (dead : d.status = .dlq) (r : Except Err Unit) :
      WorkerMoves (.settled d noted)
        (.remote (.publish (dlqSubject d.channel) (dlqBody d d.lastError) [("delivery_id", d.id)])) r
        (.settled d noted)
  | appended (d : Delivery) (noted : Bool) {ev : DomainEventType} (new : ev ≠ .received) (payload : AuditPayload)
      (u : Unit) : WorkerMoves (.settled d noted) (.remote (.append d.id ev payload)) (.ok u) (.settled d noted)
  | unappended (d : Delivery) (noted : Bool) {ev : DomainEventType} (new : ev ≠ .received) (payload : AuditPayload)
      (e : Err) : WorkerMoves (.settled d noted) (.remote (.append d.id ev payload)) (.error e) .failed
  | acked {φ : WorkerPhase} {i c : Nat} (own : copy (i, c)) (quiet : Quiet φ) (u : Unit) :
      WorkerMoves φ (.ack i c) u .closed
  | nakked {φ : WorkerPhase} {i c : Nat} (own : copy (i, c)) (loud : Loud φ) (u : Unit) :
      WorkerMoves φ (.nak i c) u .closed

theorem worker_moves {φ : WorkerPhase} {op : Op} (hm : WorkerMay p target copy φ op) (r : Ans op) :
    WorkerMoves p target copy φ op r (φ.next op r) := by
  cases op with
  | now => exact .clock φ r
  | newUUID => exact .uuid φ r
  | int63n n => exact .jitter φ n r
  | allow proc ch =>
    obtain ⟨d, rfl, rfl⟩ := hm
    cases r with
    | ok u => exact .admitted d proc u
    | error e => exact .blocked d proc e
  | send d =>
    obtain ⟨rfl, hp⟩ := hm
    cases r with
    | ok res => exact .accepted hp res
    | error e => exact .rejected hp e
  | recordSuccess proc ch =>
    obtain ⟨d, rfl, rfl⟩ := hm
    exact .success d proc r
  | recordFailure proc ch =>
    obtain ⟨d, e, rfl, rfl⟩ := hm
    exact .failure d e proc r
  | ack i c => exact .acked hm.1 hm.2 r
  | nak i c => exact .nakked hm.1 hm.2 r
  | remote q =>
    cases q with
    | findByID id =>
      obtain ⟨rfl, ht⟩ := hm
      cases r with
      | ok d => exact .found ht d
      | error e => exact .unfound ht e
    | updateIfStatus d st =>
      obtain ⟨d₀, now, rfl, hst, rfl, hd⟩ := hm
      cases r with
      | ok b =>
        cases b with
        | true => exact .claimed hst hd
        | false => exact .passed hst hd
      | error e => exact .unclaimed hst hd e
    | update d =>
      cases r with
      | ok u => exact .settled hm u
      | error e => exact .unsettled hm e
    | recordAttempt id a =>
      cases r with
      | ok u => exact .recorded hm u
      | error e => exact .unrecorded hm e
    | publish subject body headers =>
      obtain ⟨d, noted, rfl, hst, rfl, rfl, rfl⟩ := hm
      cases r with
      | ok u => exact .published noted hst (.ok u)
      | error e => exact .published noted hst (.error e)
    | append id ev payload =>
      obtain ⟨d, noted, rfl, rfl, hev⟩ := hm
      cases r with
      | ok u => exact .appended d noted hev payload u
      | error e => exact .unappended d noted hev payload e
    | _ => exact hm.elim

end

end GoCourier
