import GoCourier.Domain.Routing
import GoCourier.Http.Lookups

/- Which ingest requests are accepted. `Validate` takes a member for present when its text
   is not empty, and the decoder keeps a null as the text `null`: a null recipient passes
   for a recipient, and a null template or payload for one. Every other request is accepted
   or rejected as it should be, whatever the store answers. -/
namespace GoCourier

open Interleave

/-! What a body lacks. -/

/-- Absent or null. -/
def Member.Missing {α : Type} : Member α → Prop
  | .value _ => False
  | _ => True

def Member.IsNull {α : Type} : Member α → Prop
  | .null => True
  | _ => False

def Member.IsAbsent {α : Type} : Member α → Prop
  | .absent => True
  | _ => False

namespace IngestBody
variable (b : IngestBody)

/-- The key, the version, the channel or the priority is not as it must be. An absent or null text is empty. -/
def Malformed : Prop :=
  b.idempotencyKey.getD "" = "" ∨ 256 < (b.idempotencyKey.getD "").utf8ByteSize ∨
    ¬ (b.schemaVersion.getD "" = "" ∨ b.schemaVersion.getD "" = "1.0") ∨
    (∀ ch : Channel, toLower (trimSpace (b.channel.getD "")) ≠ ch.text) ∨
    (toLower (trimSpace (b.priority.getD "")) ≠ "" ∧
      ∀ pri : Priority, toLower (trimSpace (b.priority.getD "")) ≠ pri.text)

/-- The request is not to be accepted. -/
def Unacceptable : Prop := b.recipient.Missing ∨ b.template.Missing ∧ b.payload.Missing ∨ b.Malformed

/-- Where a value is required there is a null: for the recipient, or for the template or the payload while the other
    has no value. -/
def NullRequired : Prop :=
  b.recipient.IsNull ∨ b.template.Missing ∧ b.payload.Missing ∧ (b.template.IsNull ∨ b.payload.IsNull)

/-- Something other than a null is wrong with the request. -/
def OtherwiseInvalid : Prop := b.recipient.IsAbsent ∨ b.template.IsAbsent ∧ b.payload.IsAbsent ∨ b.Malformed

theorem unacceptable_iff : b.Unacceptable ↔ b.NullRequired ∨ b.OtherwiseInvalid := by
  unfold Unacceptable NullRequired OtherwiseInvalid
  cases b.recipient <;> cases b.template <;> cases b.payload <;>
    simp [Member.Missing, Member.IsNull, Member.IsAbsent]

end IngestBody

/-! What `Validate` says. -/

theorem raw_eq_empty {m : Member JsonText} : m.raw = "" ↔ m.IsAbsent := by
  cases m with
  | absent => exact iff_of_true rfl trivial
  | null => exact iff_of_false (by decide) id
  | value v => exact iff_of_false v.ne_empty id

theorem parseChannel_iff {s : String} :
    (∃ ch, parseChannel s = .ok ch) ↔ ∃ ch : Channel, toLower (trimSpace s) = ch.text := by
  constructor
  · rintro ⟨ch, hch⟩
    exact ⟨ch, parseChannel_ok hch⟩
  · rintro ⟨ch, htext⟩
    unfold parseChannel
    rw [htext]
    cases ch <;> exact ⟨_, rfl⟩

theorem parsePriority_iff {s : String} : (∃ pri, parsePriority s = .ok pri) ↔
    toLower (trimSpace s) = "" ∨ ∃ pri : Priority, toLower (trimSpace s) = pri.text := by
  constructor
  · rintro ⟨pri, hpri⟩
    rcases parsePriority_ok hpri with htext | ⟨hblank, -⟩
    · exact .inr ⟨pri, htext⟩
    · exact .inl hblank
  · intro h
    unfold parsePriority
    rcases h with hblank | ⟨pri, htext⟩
    · rw [hblank]
      exact ⟨_, rfl⟩
    · rw [htext]
      cases pri <;> exact ⟨_, rfl⟩

namespace IngestRequest
variable {r : IngestRequest}

theorem check_iff : r.check = .ok () ↔ r.schemaVersion = "1.0" ∧ r.idempotencyKey ≠ "" ∧ r.idempotencyKey.utf8ByteSize ≤ 256 ∧
    (∃ ch, parseChannel r.channel = .ok ch) ∧ (∃ pri, parsePriority r.priority = .ok pri) ∧ r.recipient ≠ "" ∧
      ¬ (r.template = "" ∧ r.payload = "") := by
  unfold check GoCourier.schemaVersion
  cases hch : parseChannel r.channel with
  | error e => split_ifs <;> simp
  | ok ch =>
    cases hpri : parsePriority r.priority with
    | error e => split_ifs <;> simp
    | ok pri => split_ifs <;> simp_all

theorem validate_iff : (∃ r', r.validate = .ok r') ↔ r.fillVersion.check = .ok () := by
  unfold validate
  cases hcheck : r.fillVersion.check with
  | error e => simp
  | ok u => simp

theorem fillVersion_version : r.fillVersion.schemaVersion = "1.0" ↔ r.schemaVersion = "" ∨ r.schemaVersion = "1.0" := by
  unfold fillVersion GoCourier.schemaVersion
  split
  · rename_i hempty
    simp [hempty]
  · rename_i hversion
    simp [hversion]

end IngestRequest

theorem validate_decode (b : IngestBody) : (∃ req, b.decode.validate = .ok req) ↔ ¬ b.OtherwiseInvalid := by
  obtain ⟨hkey, hch, hpri, hrec, htem, hpay, -⟩ := IngestRequest.fillVersion_core b.decode
  rw [IngestRequest.validate_iff, IngestRequest.check_iff, IngestRequest.fillVersion_version, hkey, hch, hpri, hrec, htem,
    hpay, parseChannel_iff, parsePriority_iff]
  simp only [IngestBody.decode, ne_eq, raw_eq_empty, IngestBody.OtherwiseInvalid, IngestBody.Malformed]
  constructor
  · rintro ⟨hversion, hkey, hsize, ⟨ch, hch⟩, hpri, hrec, hbody⟩ (hno | hno | hno | hno | hno | hno | ⟨hne, hno⟩)
    · exact hrec hno
    · exact hbody hno
    · exact hkey hno
    · omega
    · exact hno hversion
    · exact hno ch hch
    · rcases hpri with hempty | ⟨pri, hpri⟩
      · exact hne hempty
      · exact hno pri hpri
  · intro h
    simp only [not_or] at h
    obtain ⟨hrec, hbody, hkey, hsize, hversion, hch, hpri⟩ := h
    refine ⟨or_iff_not_and_not.mpr hversion, hkey, not_lt.mp hsize, ?_, ?_, hrec, hbody⟩
    · exact not_forall_not.mp hch
    · by_cases hempty : toLower (trimSpace (b.priority.getD "")) = ""
      · exact .inl hempty
      · exact .inr (not_forall_not.mp fun hall => hpri ⟨hempty, hall⟩)

/-! What the handler answers. -/

/-- A call of an `Ingest`; what it stores has a tenant. -/
def Op.Tenanted : Op → Prop
  | .now | .newUUID | .remote (.findByIdempotencyKey _ _) => True
  | .remote (.ingestTransactional d _ _ _ _ _) => d.tenantId ≠ ""
  | _ => False

/-- The calls of an `Ingest` while nothing fails: each is answered as some state of the store has it, whatever the
    other parties have done in between. -/
def answeredIngest (p : Params) : Discipline Op Ans Unit where
  may _ op := op.Tenanted
  next _ _ _ := ()
  sees op r := ∃ c w w', ¬ c.Failing ∧ answer p op c w = some (r, w')

section
variable {p : Params}

theorem answeredIngest_answered (op : Op) (h : op.Tenanted) : ∃ r, (answeredIngest p).sees op r := by
  cases op with
  | now => exact ⟨0, .run, World.empty p, _, id, rfl⟩
  | newUUID => exact ⟨"u", .uuid "u", World.empty p, _, id, rfl⟩
  | remote q => exact ⟨(exec p (World.empty p) q).1, .run, World.empty p, _, id, rfl⟩
  | _ => exact h.elim

theorem seen_remote {q : Remote} {r : Except Err (Reply q)} (h : (answeredIngest p).sees (.remote q) r) :
    ∃ w, r = (exec p w q).1 := by
  obtain ⟨c, w, w', hc, hans⟩ := h
  have hexec := answered_ran (answer_cases hans) hc
  exact ⟨w, by rw [hexec]⟩

theorem append_error {t : Tables} {now : Time} {id : String} {ev : DomainEventType} {payload : AuditPayload} {e : Err}
    (h : t.append now id ev payload = .error e) : e.is .validation = false := by
  unfold Tables.append at h
  split at h
  · cases h
  · cases h
    rfl

/-- The transaction fails for many reasons; an invalid request is not one. -/
theorem ingestTransactional_error {t : Tables} {now exp : Time} {d : Delivery} {subject : String} {payload : Body}
    {headers : Headers} {schedule : Bool} {e : Err}
    (h : t.ingestTransactional now d exp subject payload headers schedule = .error e) : e.is .validation = false := by
  unfold Tables.ingestTransactional at h
  split at h
  · rename_i e' hinsert
    cases h
    unfold Tables.insertDelivery at hinsert
    split at hinsert
    · cases hinsert
      rfl
    · cases hinsert
  · simp only [] at h
    split at h
    · cases h
      rfl
    · split at h
      · cases h
        rfl
      · exact append_error h

/-- The result of an `Ingest` is no validation error. -/
def NotInvalid (_ : Unit) : Except Err IngestResponse → Prop
  | .ok _ => True
  | .error e => e.is .validation = false

theorem obeys_lookup {key : String} {ch : Channel} {Q : Unit → Except Err Delivery → Prop} (hok : ∀ d, Q () (.ok d))
    (hmissing : Q () (.error errNotFound)) :
    Obeys (answeredIngest p) (DeliveryRepo.findByIdempotencyKey key ch).run () Q := by
  rw [obeys_remote]
  refine ⟨trivial, fun r hr => ?_⟩
  obtain ⟨w, rfl⟩ := seen_remote hr
  simp only [exec]
  cases hfind : w.db.findByIdempotencyKey w.clock key ch with
  | ok d => exact hok d
  | error e =>
    obtain rfl := lookup_error hfind
    exact hmissing

theorem queueUnlessScheduled_tenant {d d' : Delivery} {now : Time} (h : queueUnlessScheduled d now = .ok d') :
    d'.tenantId = d.tenantId := by
  unfold queueUnlessScheduled at h
  split at h
  · cases h
    rfl
  · obtain ⟨-, rfl⟩ := Delivery.queue_ok h
    rfl

theorem obeys_register_tenanted {d : Delivery} (hd : d.status = .pending) (ht : d.tenantId ≠ "") (now : Time) :
    Obeys (answeredIngest p) (register p d now).run () NotInvalid := by
  unfold register
  obtain ⟨d', hq⟩ := queueUnlessScheduled_pending hd now
  rw [hq]
  simp only []
  rw [obeys_bindE, obeys_attempt]
  have ht' : d'.tenantId ≠ "" := by
    rw [queueUnlessScheduled_tenant hq]
    exact ht
  refine ⟨ht', fun r hr => ?_⟩
  obtain ⟨w, rfl⟩ := seen_remote hr
  simp only [ends_ok, exec]
  generalize hstored : w.db.ingestTransactional w.clock d' (now + p.idempotencyTTL)
    (notificationSubject p.streamPrefix d'.channel d'.priority) (idBody d'.id) (notificationHeaders d')
    (d.shouldSchedule now) = stored
  cases stored with
  | ok t => trivial
  | error e =>
    have hvalid : e.is .validation = false := ingestTransactional_error hstored
    simp only [World.store]
    by_cases hdup : e.is .duplicate
    · rw [if_pos hdup, obeys_bindE]
      exact obeys_lookup (fun _ => trivial) rfl
    · rw [if_neg hdup]
      exact hvalid

/-- Whatever the store answers, a valid request is not rejected as invalid. -/
theorem obeys_valid {req req' : IngestRequest} (hv : req.validate = .ok req') :
    Obeys (answeredIngest p) (ingest p req).run () NotInvalid := by
  obtain ⟨hcore, ch, hch⟩ := IngestRequest.validate_ok hv
  have hch' : parseChannel req'.channel = .ok ch := by rw [hcore.2.1, hch]
  obtain ⟨pri, hpri⟩ := IngestRequest.validate_priority hv
  have htenant : req'.metadata.tenantId ≠ "" := by
    unfold IngestRequest.validate at hv
    split at hv
    · cases hv
    · cases hv
      exact IngestRequest.fillTenant_ne _
  simp only [ingest, hv, hch']
  rw [obeys_bindE, obeys_attempt]
  refine ⟨trivial, fun r hr => ?_⟩
  obtain ⟨w, rfl⟩ := seen_remote hr
  simp only [ends_ok, exec]
  cases hfind : w.db.findByIdempotencyKey w.clock req'.idempotencyKey ch with
  | ok d => trivial
  | error e =>
    obtain rfl := lookup_error hfind
    simp only []
    rw [if_pos (by decide), obeys_bindE, obeys_ask_op]
    refine ⟨trivial, fun now _ => ?_⟩
    simp only [ends_ok, newDeliveryFromRequest, IngestRequest.validate_idem hv, hch', hpri]
    rw [obeys_bindE, obeys_bindE, obeys_ask_op]
    refine ⟨trivial, fun u _ => ?_⟩
    exact obeys_register_tenanted rfl htenant now

end

section
variable {s : Server} {r : Request} {b : IngestBody}

theorem obeys_acceptable (hbody : r.body = .ok b) (h : ¬ b.OtherwiseInvalid) :
    Obeys (answeredIngest s.params) (s.handleIngest r) () fun _ resp => resp.status ≠ 400 := by
  obtain ⟨req, hv⟩ := (validate_decode b).mpr h
  unfold Server.handleIngest
  simp only [hbody]
  rw [obeys_bind]
  refine obeys_mono (fun _ res hres => ?_) _ _ (obeys_valid hv)
  cases res with
  | ok resp =>
    show (if resp.duplicate then 200 else 202) ≠ 400
    split <;> decide
  | error e =>
    have hnot : e.is .validation = false := hres
    show (if e.is .validation then 400 else if e.is .unauthorized then 401 else 500) ≠ 400
    rw [hnot, if_neg (by decide)]
    split <;> decide

theorem obeys_invalid (hbody : r.body = .ok b) (h : b.OtherwiseInvalid) :
    Obeys (answeredIngest s.params) (s.handleIngest r) () fun _ resp => resp.status = 400 := by
  have hnone : ¬ ∃ req, b.decode.validate = .ok req := fun hv => (validate_decode b).mp hv h
  cases hv : b.decode.validate with
  | ok req => exact absurd ⟨req, hv⟩ hnone
  | error e =>
    have hingest : ingest s.params b.decode = throw (errValidation e) := by
      rw [ingest, hv]
    have hinvalid : (errValidation e).is .validation = true := rfl
    unfold Server.handleIngest
    simp only [hbody]
    rw [hingest, obeys_bind, obeys_throw]
    simp only [hinvalid, if_true]
    rfl

end

/-- For every body: a request is rejected with 400 exactly when it is not to be accepted, and what is stored for it has a
    tenant, if and only if it has no null where a value is required, or something else is wrong with it. -/
theorem ingest_accepts_iff (s : Server) (r : Request) (b : IngestBody) (hpost : r.method = "POST") (hroute : r.pattern = .ingest)
    (hruns : s.Runs r) (hbody : r.body = .ok b) :
    Obeys (answeredIngest s.params) (s.handler r) () (fun _ resp => resp.status = 400 ↔ b.Unacceptable) ↔
      (b.NullRequired → b.OtherwiseInvalid) := by
  rw [handler_ingest hpost hroute hruns]
  constructor
  · intro hobeys hnull
    by_contra hvalid
    -- such a request is accepted whatever way it takes, and there is one
    obtain ⟨_, resp, hcode, haccepted⟩ := obeys_consistent (fun _ op hop => answeredIngest_answered op hop) _ _
      (obeys_and _ _ hobeys (obeys_acceptable hbody hvalid))
    exact haccepted (hcode.mpr (b.unacceptable_iff.mpr (.inl hnull)))
  · intro h
    by_cases hinvalid : b.OtherwiseInvalid
    · refine obeys_mono (fun _ resp hcode => ?_) _ _ (obeys_invalid hbody hinvalid)
      exact iff_of_true hcode (b.unacceptable_iff.mpr (.inr hinvalid))
    · refine obeys_mono (fun _ resp hcode => ?_) _ _ (obeys_acceptable hbody hinvalid)
      exact iff_of_false hcode fun hno => (b.unacceptable_iff.mp hno).elim (fun hnull => hinvalid (h hnull)) hinvalid

/-- A body with a recipient and a template. -/
def fullBody : IngestBody where
  idempotencyKey := .value "k1"
  channel := .value "email"
  recipient := .value ⟨"1", by decide, by decide⟩
  template := .value ⟨"2", by decide, by decide⟩

/-- The same with a null for the recipient. -/
def nullRecipient : IngestBody := { fullBody with recipient := .null }

def ingestRequest (b : IngestBody) : Request where
  pattern := .ingest
  header name := if name = "X-API-Key" then "dev-api-key" else ""
  body := .ok b

theorem keyedServer_ingests (b : IngestBody) : keyedServer.Runs (ingestRequest b) := by
  have hkey : authKey (ingestRequest b) = "dev-api-key" := rfl
  rw [runs_iff, hkey]
  decide

theorem ingest_accepts_iff_sample :
    Obeys (answeredIngest keyedServer.params) (keyedServer.handler (ingestRequest fullBody)) ()
      fun _ resp => resp.status = 400 ↔ fullBody.Unacceptable := by
  apply (ingest_accepts_iff keyedServer (ingestRequest fullBody) fullBody rfl rfl (keyedServer_ingests fullBody) rfl).mpr
  rintro (hnull | ⟨hmissing, -⟩)
  · exact hnull.elim
  · exact hmissing.elim

/-- A request without a recipient to send to is accepted. -/
theorem null_recipient_accepted :
    nullRecipient.Unacceptable ∧
      Obeys (answeredIngest keyedServer.params) (keyedServer.handler (ingestRequest nullRecipient)) ()
        (fun _ resp => resp.status ≠ 400) ∧
      ¬ Obeys (answeredIngest keyedServer.params) (keyedServer.handler (ingestRequest nullRecipient)) ()
        fun _ resp => resp.status = 400 ↔ nullRecipient.Unacceptable := by
  have hvalid : ¬ nullRecipient.OtherwiseInvalid := by
    rw [← validate_decode]
    exact ⟨_, rfl⟩
  have hnull : nullRecipient.Unacceptable := .inl trivial
  have haccepted := obeys_acceptable (s := keyedServer) (r := ingestRequest nullRecipient) rfl hvalid
  rw [handler_ingest rfl rfl (keyedServer_ingests nullRecipient)]
  refine ⟨hnull, haccepted, ?_⟩
  intro hobeys
  obtain ⟨_, resp, hcode, hne⟩ := obeys_consistent (fun _ op hop => answeredIngest_answered op hop) _ _
    (obeys_and _ _ hobeys haccepted)
  exact hne (hcode.mpr hnull)

end GoCourier
