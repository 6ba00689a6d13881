import GoCourier.Lib.Promise
import GoCourier.System.Machine

/- What an `Ingest` stores is what its request asks for. The request has passed
   `Validate`, and the delivery carries its recipient, template, payload and metadata as
   they came, the tenant defaulted, under the message headers that name it; its key
   expires one TTL after it was made. From the tables the delivery comes back as a request
   would ask for it that has the same texts in the database's spelling. -/
namespace GoCourier

open Interleave

/-- The delivery says what the request says, the tenant defaulted. -/
structure IngestRequest.Asks (req : IngestRequest) (d : Delivery) : Prop where
  valid : ∃ req', req.validate = .ok req'
  idempotencyKey : d.idempotencyKey = req.idempotencyKey
  channel : parseChannel req.channel = .ok d.channel
  priority : parsePriority req.priority = .ok d.priority
  recipient : d.recipient = req.recipient
  template : d.template = req.template
  payload : d.payload = req.payload
  scheduledAt : d.scheduledAt = req.scheduledAt
  tenantId : d.tenantId = if req.metadata.tenantId = "" then "default" else req.metadata.tenantId
  correlationId : d.correlationId = req.metadata.correlationId
  causationId : d.causationId = req.metadata.causationId

/-- How an optional text comes back: one that is missing is stored as NULL. -/
def Jsonb.optional (j : Jsonb) (v : RawJson) : RawJson := if v = "" then "" else j.spell v

/-- The request with its JSON texts as the database gives them back. -/
def IngestRequest.spelled (j : Jsonb) (req : IngestRequest) : IngestRequest :=
  { req with recipient := j.spell req.recipient, template := j.optional req.template, payload := j.optional req.payload }

/-- What `Validate` promises of a delivery. -/
structure Delivery.WellFormed (d : Delivery) : Prop where
  idempotencyKey : d.idempotencyKey ≠ "" ∧ d.idempotencyKey.utf8ByteSize ≤ 256
  recipient : d.recipient ≠ ""
  content : d.template ≠ "" ∨ d.payload ≠ ""
  tenantId : d.tenantId ≠ ""

/-- `d'` is `d` but for what the services write into it. -/
def Delivery.SameContent (d d' : Delivery) : Prop :=
  d' = { d with status := d'.status, attempts := d'.attempts, updatedAt := d'.updatedAt, retryCount := d'.retryCount,
                lastError := d'.lastError }

/-- A transaction stores what the request asks for, with no error yet, until one TTL after it was made. -/
def Op.AsAsked (p : Params) (req : IngestRequest) : Op → Prop
  | .remote (.ingestTransactional d expiresAt _ _ headers _) =>
    req.Asks d ∧ headers = notificationHeaders d ∧ expiresAt = d.createdAt + p.idempotencyTTL ∧ d.lastError = ""
  | _ => True

/-! What passes `Validate`. -/

section
variable {req req' : IngestRequest} {d d' : Delivery}

theorem check_fields (h : req.check = .ok ()) : req.idempotencyKey ≠ "" ∧ req.idempotencyKey.utf8ByteSize ≤ 256 ∧
    req.recipient ≠ "" ∧ (req.template ≠ "" ∨ req.payload ≠ "") := by
  obtain ⟨ch, hch⟩ := IngestRequest.check_channel h
  obtain ⟨pri, hpri⟩ := IngestRequest.check_priority h
  unfold IngestRequest.check at h
  rw [hch, hpri] at h
  split_ifs at h with hversion hkey hsize hrecipient hcontent
  exact ⟨hkey, not_lt.mp hsize, hrecipient, not_and_or.mp hcontent⟩

theorem validate_metadata (h : req.validate = .ok req') :
    req'.metadata = { req.metadata with
      tenantId := if req.metadata.tenantId = "" then "default" else req.metadata.tenantId } := by
  unfold IngestRequest.validate at h
  split at h
  · cases h
  · cases h
    have hversion : req.fillVersion.metadata = req.metadata := by
      unfold IngestRequest.fillVersion
      split <;> rfl
    unfold IngestRequest.fillTenant
    rw [hversion]
    split
    · rfl
    · rw [hversion]

theorem optional_eq_empty (j : Jsonb) (v : RawJson) : j.optional v = "" ↔ v = "" := by
  unfold Jsonb.optional
  split
  · rename_i hv
    exact iff_of_true rfl hv
  · rename_i hv
    exact iff_of_false (j.ne_empty v hv) hv

/-- Whether a request is valid does not depend on the spelling. -/
theorem check_spelled (j : Jsonb) (h : req.check = .ok ()) : (req.spelled j).check = .ok () := by
  obtain ⟨ch, hch⟩ := IngestRequest.check_channel h
  obtain ⟨pri, hpri⟩ := IngestRequest.check_priority h
  have hch' : parseChannel (req.spelled j).channel = .ok ch := hch
  have hpri' : parsePriority (req.spelled j).priority = .ok pri := hpri
  unfold IngestRequest.check at h ⊢
  rw [hch, hpri] at h
  split_ifs at h with hversion hkey hsize hrecipient hcontent
  have hspelled : (req.spelled j).recipient ≠ "" := j.ne_empty _ hrecipient
  have hasks : ¬((req.spelled j).template = "" ∧ (req.spelled j).payload = "") := fun hempty =>
    hcontent (hempty.imp (optional_eq_empty j _).mp (optional_eq_empty j _).mp)
  rw [hch', hpri']
  calc _ = _ := if_neg hversion
    _ = _ := if_neg hkey
    _ = _ := if_neg hsize
    _ = _ := if_neg hspelled
    _ = _ := if_neg hasks

theorem validate_spelled (j : Jsonb) (h : req.validate = .ok req') : (req.spelled j).validate = .ok (req'.spelled j) := by
  have hversion : (req.spelled j).fillVersion = req.fillVersion.spelled j := by
    unfold IngestRequest.fillVersion
    by_cases hempty : req.schemaVersion = ""
    · rw [if_pos hempty]
      exact if_pos hempty
    · rw [if_neg hempty]
      exact if_neg hempty
  have htenant : ∀ r : IngestRequest, (r.spelled j).fillTenant = r.fillTenant.spelled j := by
    intro r
    unfold IngestRequest.fillTenant
    by_cases hempty : r.metadata.tenantId = ""
    · rw [if_pos hempty]
      exact if_pos hempty
    · rw [if_neg hempty]
      exact if_neg hempty
  unfold IngestRequest.validate at h ⊢
  split at h
  · cases h
  · rename_i hc
    cases h
    rw [hversion, check_spelled j hc, htenant]

/-- A delivery that was asked for is well formed. -/
theorem wellFormed_of_asks (h : req.Asks d) : d.WellFormed := by
  obtain ⟨req', hv⟩ := h.valid
  unfold IngestRequest.validate at hv
  split at hv
  · cases hv
  · rename_i hc
    obtain ⟨hkey, hsize, hrecipient, hcontent⟩ := check_fields hc
    obtain ⟨ckey, -, -, crecipient, ctemplate, cpayload, -⟩ := IngestRequest.fillVersion_core req
    rw [ckey] at hkey hsize
    rw [crecipient] at hrecipient
    rw [ctemplate, cpayload] at hcontent
    refine ⟨?_, ?_, ?_, ?_⟩
    · rw [h.idempotencyKey]
      exact ⟨hkey, hsize⟩
    · rw [h.recipient]
      exact hrecipient
    · rw [h.template, h.payload]
      exact hcontent
    · rw [h.tenantId]
      split
      · decide
      · assumption

theorem Delivery.SameContent.symm (h : d.SameContent d') : d'.SameContent d := by
  unfold Delivery.SameContent at h ⊢
  rw [h]

theorem Delivery.SameContent.trans {d'' : Delivery} (h : d.SameContent d') (h' : d'.SameContent d'') :
    d.SameContent d'' := by
  unfold Delivery.SameContent at h h' ⊢
  rw [h] at h'
  exact h'

theorem nullable_getD (s : String) : (nullable s).getD "" = s := by
  unfold nullable
  split
  · rename_i h
    exact h.symm
  · rfl

theorem nullable_spelled (j : Jsonb) (v : RawJson) : ((nullable v).map j.spell).getD "" = j.optional v := by
  unfold nullable Jsonb.optional
  split <;> rfl

/-- What is stored reads back, but for the spelling. -/
theorem asks_stored (j : Jsonb) (h : req.Asks d) : (req.spelled j).Asks (scanDelivery d.id (d.toRow j)) where
  valid := by
    obtain ⟨req', hv⟩ := h.valid
    exact ⟨_, validate_spelled j hv⟩
  idempotencyKey := h.idempotencyKey
  channel := h.channel
  priority := h.priority
  recipient := congrArg j.spell h.recipient
  template := (nullable_spelled j d.template).trans (congrArg j.optional h.template)
  payload := (nullable_spelled j d.payload).trans (congrArg j.optional h.payload)
  scheduledAt := h.scheduledAt
  tenantId := h.tenantId
  correlationId := h.correlationId
  causationId := h.causationId

/-- What the services write is no part of what was asked for. -/
theorem asks_same (h : req.Asks d) (hsame : d.SameContent d') : req.Asks d' := by
  unfold Delivery.SameContent at hsame
  rw [hsame]
  exact ⟨h.valid, h.idempotencyKey, h.channel, h.priority, h.recipient, h.template, h.payload, h.scheduledAt, h.tenantId,
    h.correlationId, h.causationId⟩

end

/-! The programs. -/

section
variable {p : Params} {req req' : IngestRequest} {d : Delivery} {now : Time}

/-- Calls that only keep a transaction as it was asked for. -/
abbrev askedDiscipline (p : Params) (req : IngestRequest) : Discipline Op Ans Unit :=
  ⟨fun _ op => op.AsAsked p req, fun _ _ _ => (), Seen⟩

theorem asked_queued (h : req.Asks d) (hq : queueUnlessScheduled d now = .ok d') :
    req.Asks d' ∧ d'.createdAt = d.createdAt ∧ d'.lastError = d.lastError := by
  unfold queueUnlessScheduled at hq
  split at hq
  · cases hq
    exact ⟨h, rfl, rfl⟩
  · obtain ⟨-, rfl⟩ := Delivery.queue_ok hq
    exact ⟨asks_same h rfl, rfl, rfl⟩

theorem asked_register (h : req.Asks d) (hnow : d.createdAt = now) (herror : d.lastError = "") :
    Obeys (askedDiscipline p req) (register p d now).run () fun _ _ => True := by
  unfold register
  cases hq : queueUnlessScheduled d now with
  | error e => trivial
  | ok d' =>
    obtain ⟨hd', hcreated, herror'⟩ := asked_queued h hq
    simp only []
    rw [obeys_bindE, obeys_attempt]
    refine ⟨⟨hd', rfl, by rw [hcreated, hnow], herror'.trans herror⟩, fun r _ => ?_⟩
    cases r with
    | ok _ => trivial
    | error e =>
      simp only [ends_ok]
      split
      · rw [obeys_bindE, obeys_remote]
        refine ⟨trivial, fun r _ => ?_⟩
        cases r <;> trivial
      · trivial

/-- What is made of a request that has passed `Validate`, but for the id that is drawn for it. -/
theorem newDelivery_eq (hv : req.validate = .ok req') (now : Time) : ∃ made : String → Delivery,
    newDeliveryFromRequest req' now = (do let id ← ask .newUUID; pure (made id)) ∧
      ∀ id, req.Asks (made id) ∧ (made id).createdAt = now ∧ (made id).lastError = "" ∧ (made id).status = .pending := by
  obtain ⟨⟨ckey, cchannel, cpriority, crecipient, ctemplate, cpayload, cscheduled⟩, ch, hch⟩ :=
    IngestRequest.validate_ok hv
  obtain ⟨pri, hpri⟩ := IngestRequest.validate_priority hv
  have hmeta := validate_metadata hv
  have hch' : parseChannel req'.channel = .ok ch := by rw [cchannel, hch]
  simp only [newDeliveryFromRequest, IngestRequest.validate_idem hv, hch', hpri]
  refine ⟨_, rfl, fun id => ⟨?_, rfl, rfl, rfl⟩⟩
  exact {
    valid := ⟨req', hv⟩
    idempotencyKey := ckey
    channel := hch
    priority := cpriority ▸ hpri
    recipient := crecipient
    template := ctemplate
    payload := cpayload
    scheduledAt := cscheduled
    tenantId := by rw [hmeta]
    correlationId := by rw [hmeta]
    causationId := by rw [hmeta] }

/-- The delivery made of a request that has passed `Validate`. -/
theorem asked_newDelivery (hv : req.validate = .ok req') {Q : Unit → Except Err Delivery → Prop}
    (hQ : ∀ d : Delivery, req.Asks d → d.createdAt = now → d.lastError = "" → Q () (.ok d)) :
    Obeys (askedDiscipline p req) (newDeliveryFromRequest req' now).run () Q := by
  obtain ⟨made, heq, hmade⟩ := newDelivery_eq hv now
  rw [heq, obeys_bindE, obeys_ask_op]
  refine ⟨trivial, fun id _ => ?_⟩
  obtain ⟨hasks, hnow, herror, -⟩ := hmade id
  rw [ends_ok, obeys_pureE]
  exact hQ (made id) hasks hnow herror

theorem asked_ingest (p : Params) (req : IngestRequest) : Calls (Op.AsAsked p req) Seen (ingest p req).run := by
  unfold Calls ingest
  split
  · trivial
  · rename_i req' hv
    split
    · trivial
    · rw [obeys_bindE, obeys_attempt]
      refine ⟨trivial, fun r _ => ?_⟩
      cases r with
      | ok d => trivial
      | error e =>
        simp only [ends_ok]
        split
        · rw [obeys_bindE, obeys_ask_op]
          refine ⟨trivial, fun now _ => ?_⟩
          rw [ends_ok, obeys_bindE]
          exact asked_newDelivery hv fun d hd hnow herror => asked_register hd hnow herror
        · trivial

/-- An `Ingest` keeps to its request, the other tasks to nothing. -/
def taskAsked (p : Params) : Task → Discipline Op Ans Unit
  | .ingest req => askedDiscipline p req
  | _ => ⟨fun _ _ => True, fun _ _ _ => (), Seen⟩

def askedPledge (p : Params) : (machine p).Pledge Unit where
  first _ := ()
  discipline := taskAsked p
  ends _ _ _ := True
  answers k op c w r w' h := by cases k <;> exact seen_answer p h
  obeyed k := by
    cases k with
    | ingest req => exact (obeys_map ..).mpr (asked_ingest p req)
    | _ =>
      exact obeys_invariant (I := fun _ => True) (fun _ _ _ => trivial) (fun _ _ _ _ => trivial)
        (fun _ _ _ => trivial) _ _ trivial

end

end GoCourier
