import GoCourier.Protocol.Worker
import GoCourier.Services.Ingest

/- What an `Ingest` may do: look the key up, draw an id for a new delivery, commit
   its transaction, and look the key up again where the transaction lost. -/
namespace GoCourier

open Interleave

inductive IngestPhase where
  | start
  /-- The first lookup found no live registration. -/
  | missing
  /-- The new delivery's id is drawn. -/
  | minted (id : String)
  /-- The transaction found the key taken. -/
  | duplicate
  /-- A lookup found `d`. -/
  | found (d : Delivery)
  /-- The transaction stored `d`. -/
  | committed (d : Delivery)
  | failed
  deriving DecidableEq

namespace IngestPhase

def lookup (φ : IngestPhase) : Except Err Delivery → IngestPhase
  | .ok d => .found d
  | .error e => if φ = .start ∧ e.is .notFound then .missing else .failed

def commit (d : Delivery) : Except Err Unit → IngestPhase
  | .ok _ => .committed d
  | .error e => if e.is .duplicate then .duplicate else .failed

def next (φ : IngestPhase) : (op : Op) → Ans op → IngestPhase
  | .remote (.findByIdempotencyKey _ _), r => φ.lookup r
  | .newUUID, u => .minted u
  | .remote (.ingestTransactional d _ _ _ _ _), r => commit d r
  | _, _ => φ

end IngestPhase

/-- The request passes `Validate`, and this is the key and channel it registers. -/
def IngestRequest.Registers (req : IngestRequest) (key : String) (ch : Channel) : Prop :=
  (∃ req', req.validate = .ok req') ∧ req.idempotencyKey = key ∧ parseChannel req.channel = .ok ch

/-- A delivery `Ingest` stores for `req`: new, and pending only where it is for later. -/
structure IngestRequest.Makes (req : IngestRequest) (id : String) (d : Delivery) (schedule : Bool) : Prop where
  id : d.id = id
  registers : req.Registers d.idempotencyKey d.channel
  count : d.retryCount = 0
  status : d.status = if schedule then .pending else .queued
  later : schedule = true → d.scheduledAt.isSome = true
  decided : schedule = d.shouldSchedule d.createdAt

section
variable (p : Params)

def IngestMay (req : IngestRequest) (φ : IngestPhase) : Op → Prop
  | .remote (.findByIdempotencyKey key ch) => (φ = .start ∨ φ = .duplicate) ∧ req.Registers key ch
  | .newUUID => φ = .missing
  | .remote (.ingestTransactional d _ subject body _ schedule) => ∃ id, φ = .minted id ∧
      req.Makes id d schedule ∧ subject = notificationSubject p.streamPrefix d.channel d.priority ∧
      body = idBody d.id
  | .now => True
  | _ => False

def ingestDiscipline (req : IngestRequest) : Discipline Op Ans IngestPhase :=
  ⟨IngestMay p req, IngestPhase.next, Seen⟩

/-- A found delivery is a duplicate, a committed one is not; an error comes from the request
    or from a call that failed. -/
abbrev IngestReturns (req : IngestRequest) : IngestPhase → Except Err IngestResponse → Prop :=
  Ends
    (fun φ resp => (∃ d, φ = .found d ∧ resp = ⟨d.id, d.status, true⟩) ∨
      ∃ d, φ = .committed d ∧ resp = ⟨d.id, d.status, false⟩)
    (fun φ _ => φ = .failed ∨ φ = .start ∧ ∃ e, req.validate = .error e)

variable {p} {req : IngestRequest}

theorem queueUnlessScheduled_ok {d d' : Delivery} {now : Time} (h : queueUnlessScheduled d now = .ok d')
    (hd : d.status = .pending) :
    d'.id = d.id ∧ d'.idempotencyKey = d.idempotencyKey ∧ d'.channel = d.channel ∧
      d'.retryCount = d.retryCount ∧ d'.status = (if d.shouldSchedule now then .pending else .queued) ∧
      (d.shouldSchedule now = true → d'.scheduledAt.isSome = true) ∧ d'.scheduledAt = d.scheduledAt ∧
      d'.createdAt = d.createdAt := by
  unfold queueUnlessScheduled at h
  split at h
  · rename_i hs
    cases h
    refine ⟨rfl, rfl, rfl, rfl, ?_, fun _ => ?_, rfl, rfl⟩
    · rw [if_pos hs, hd]
    · unfold Delivery.shouldSchedule at hs
      split at hs
      · rename_i t ht
        rw [ht]
        rfl
      · cases hs
  · rename_i hs
    obtain ⟨-, rfl⟩ := Delivery.queue_ok h
    exact ⟨rfl, rfl, rfl, rfl, (if_neg hs).symm, fun h => absurd h hs, rfl, rfl⟩

theorem queueUnlessScheduled_pending {d : Delivery} (hd : d.status = .pending) (now : Time) :
    ∃ d', queueUnlessScheduled d now = .ok d' := by
  unfold queueUnlessScheduled Delivery.queue
  split
  · exact ⟨_, rfl⟩
  · rw [if_neg (not_not.mpr hd)]
    exact ⟨_, rfl⟩

theorem obeys_register {d : Delivery} {now : Time} (hd : d.status = .pending) (hc : d.retryCount = 0)
    (hr : req.Registers d.idempotencyKey d.channel) (hnow : d.createdAt = now) :
    Obeys (ingestDiscipline p req) (register p d now).run (.minted d.id) (IngestReturns req) := by
  unfold register
  obtain ⟨d', hq⟩ := queueUnlessScheduled_pending hd now
  rw [hq]
  simp only []
  obtain ⟨hid, hkey, hch, hcount, hst, hat, hsch, hcr⟩ := queueUnlessScheduled_ok hq hd
  have hdecided : d.shouldSchedule now = d'.shouldSchedule d'.createdAt := by
    rw [hcr, hnow, Delivery.shouldSchedule, Delivery.shouldSchedule, hsch]
  rw [← hkey, ← hch] at hr
  rw [obeys_bindE, obeys_attempt]
  refine ⟨⟨d.id, rfl, ⟨hid, hr, hcount.trans hc, hst, hat, hdecided⟩, rfl, rfl⟩, fun r _ => ?_⟩
  cases r with
  | ok _ => exact .inr ⟨d', rfl, rfl⟩
  | error e =>
    by_cases he : e.is .duplicate
    · have hphase : IngestPhase.commit d' (.error e) = .duplicate := if_pos he
      simp only [ends_ok, if_pos he]
      rw [obeys_bindE, obeys_remote]
      refine ⟨⟨.inr hphase, hr⟩, fun r _ => ?_⟩
      cases r with
      | ok d₁ => exact .inl ⟨d₁, rfl, rfl⟩
      | error e₁ =>
        refine .inl (if_neg fun h => ?_)
        have := hphase.symm.trans h.1
        cases this
    · simp only [ends_ok, if_neg he]
      exact .inl (if_neg he)

/-- A request that passes `Validate` makes a pending delivery under a new id. -/
theorem obeys_newDelivery {req' : IngestRequest} {φ : IngestPhase} {Q : IngestPhase → Except Err Delivery → Prop}
    (now : Time) (hv : req.validate = .ok req') (hφ : φ = .missing)
    (hQ : ∀ (id : String) (d : Delivery), d.id = id → d.status = .pending → d.retryCount = 0 →
      req.Registers d.idempotencyKey d.channel → d.createdAt = now → Q (.minted id) (.ok d)) :
    Obeys (ingestDiscipline p req) (newDeliveryFromRequest req' now).run φ Q := by
  have ⟨hcore, ch, hch⟩ := IngestRequest.validate_ok hv
  have hch' : parseChannel req'.channel = .ok ch := by rw [hcore.2.1, hch]
  obtain ⟨pri, hpri⟩ := IngestRequest.validate_priority hv
  simp only [newDeliveryFromRequest, IngestRequest.validate_idem hv, hch', hpri]
  rw [obeys_bindE, obeys_ask_op]
  refine ⟨hφ, fun id _ => ?_⟩
  rw [ends_ok, obeys_pureE]
  exact hQ id _ rfl rfl rfl ⟨⟨req', hv⟩, hcore.1.symm, hch⟩ rfl

theorem obeys_ingest (req : IngestRequest) :
    Obeys (ingestDiscipline p req) (ingest p req).run .start (IngestReturns req) := by
  unfold ingest
  split
  · rename_i e he
    exact .inr ⟨rfl, e, he⟩
  · rename_i req' hv
    have ⟨hcore, ch, hch⟩ := IngestRequest.validate_ok hv
    have hch' : parseChannel req'.channel = .ok ch := by rw [hcore.2.1, hch]
    simp only [hch']
    rw [obeys_bindE, obeys_attempt]
    refine ⟨⟨.inl rfl, ⟨req', hv⟩, hcore.1.symm, hch⟩, fun r _ => ?_⟩
    cases r with
    | ok d => exact .inl ⟨d, rfl, rfl⟩
    | error e =>
      by_cases he : e.is .notFound
      · simp only [ends_ok, if_pos he]
        rw [obeys_bindE, obeys_ask_op]
        refine ⟨trivial, fun now _ => ?_⟩
        rw [ends_ok, obeys_bindE]
        refine obeys_newDelivery now hv (if_pos ⟨rfl, he⟩) fun id d hid hd hc hr hnow => ?_
        subst hid
        exact obeys_register hd hc hr hnow
      · simp only [ends_ok, if_neg he]
        exact .inl (if_neg fun h => he h.2)

/-! Every call of an ingest, its answer, and the phase it leads to. -/

variable (p req) in
inductive IngestMoves : IngestPhase → (op : Op) → Ans op → IngestPhase → Prop where
  | clock (φ : IngestPhase) (t : Time) : IngestMoves φ .now t φ
  | drawn (u : String) : IngestMoves .missing .newUUID u (.minted u)
  | found {φ : IngestPhase} {key : String} {ch : Channel} (looking : φ = .start ∨ φ = .duplicate)
      (own : req.Registers key ch) (d : Delivery) :
      IngestMoves φ (.remote (.findByIdempotencyKey key ch)) (.ok d) (.found d)
  | missing {key : String} {ch : Channel} (own : req.Registers key ch) {e : Err} (none : e.is .notFound) :
      IngestMoves .start (.remote (.findByIdempotencyKey key ch)) (.error e) .missing
  | unfound {φ : IngestPhase} {key : String} {ch : Channel} (own : req.Registers key ch) (e : Err) :
      IngestMoves φ (.remote (.findByIdempotencyKey key ch)) (.error e) .failed
  | committed {d : Delivery} {schedule : Bool} (makes : req.Makes d.id d schedule) (exp : Time) (headers : Headers)
      (u : Unit) : IngestMoves (.minted d.id) (.remote (.ingestTransactional d exp
        (notificationSubject p.streamPrefix d.channel d.priority) (idBody d.id) headers schedule)) (.ok u) (.committed d)
  | taken {d : Delivery} {schedule : Bool} (makes : req.Makes d.id d schedule) (exp : Time) (headers : Headers)
      {e : Err} (lost : e.is .duplicate) : IngestMoves (.minted d.id) (.remote (.ingestTransactional d exp
        (notificationSubject p.streamPrefix d.channel d.priority) (idBody d.id) headers schedule)) (.error e) .duplicate
  | uncommitted {d : Delivery} {schedule : Bool} (makes : req.Makes d.id d schedule) (exp : Time) (headers : Headers)
      (e : Err) : IngestMoves (.minted d.id) (.remote (.ingestTransactional d exp
        (notificationSubject p.streamPrefix d.channel d.priority) (idBody d.id) headers schedule)) (.error e) .failed

theorem ingest_moves {φ : IngestPhase} {op : Op} (hm : IngestMay p req φ op) (r : Ans op) :
    IngestMoves p req φ op r (φ.next op r) := by
  cases op with
  | now => exact .clock φ r
  | newUUID =>
    have hφ : φ = .missing := hm
    subst hφ
    exact .drawn r
  | remote q =>
    cases q with
    | findByIdempotencyKey key ch =>
      obtain ⟨hlooking, hown⟩ := hm
      cases r with
      | ok d => exact .found hlooking hown d
      | error e =>
        simp only [IngestPhase.next, IngestPhase.lookup]
        split
        · rename_i h
          obtain ⟨rfl, he⟩ := h
          exact .missing hown he
        · exact .unfound hown e
    | ingestTransactional d exp subject body headers schedule =>
      obtain ⟨id, rfl, hmakes, rfl, rfl⟩ := hm
      have hid := hmakes.id
      subst hid
      cases r with
      | ok u => exact .committed hmakes exp headers u
      | error e =>
        simp only [IngestPhase.next, IngestPhase.commit]
        split
        · rename_i he
          exact .taken hmakes exp headers he
        · exact .uncommitted hmakes exp headers e
    | _ => exact hm.elim
  | _ => exact hm.elim

end

end GoCourier
