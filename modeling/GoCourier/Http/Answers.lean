import GoCourier.Content.Asked
import GoCourier.Http.Acceptance
import GoCourier.Lib.Transcript

/- What a response says of the calls behind it. A handler's calls may be answered by any
   store at all, each by another, and any of them may fail or lose its answer: other
   clients, workers and schedulers go on between them. Still the status tells how the
   calls were answered. A 4xx means that nothing was to be written, 202 that the one
   transaction was committed, 200 on an ingest that the key was found taken and every
   transaction refused for it, 200 on a replay that its three writes were answered without
   an error.

   The routes are those of the ingest, of the replay and of the dashboard's detail. -/
namespace GoCourier

open Interleave

/-- Some store answers the call so. -/
def Answerable (p : Params) (op : Op) (r : Ans op) : Prop := ∃ c w w', answer p op c w = some (r, w')

abbrev Log := List (Exchange Op Ans)

/-- A call that leaves the tables and the streams alone. -/
def Op.reads : Op → Bool
  | .now | .newUUID | .remote (.findByID _) | .remote (.findByIdempotencyKey _ _) => true
  | _ => false

/-- The calls that may have written something. -/
def writes (log : Log) : Log := log.filter fun e => ! e.op.reads

/-- A call was answered with the error. -/
def Fails (log : Log) (e : Err) : Prop := ∃ q, ⟨.remote q, (.error e : Except Err (Reply q))⟩ ∈ log

/-- The transaction of an ingest. -/
def storing (p : Params) (d : Delivery) (r : Except Err Unit) : Exchange Op Ans where
  op := .remote (.ingestTransactional d (d.createdAt + p.idempotencyTTL)
    (notificationSubject p.streamPrefix d.channel d.priority) (idBody d.id) (notificationHeaders d)
    (d.shouldSchedule d.createdAt))
  ans := r

/-- The calls of a replay that write, answered without an error. -/
def requeues (p : Params) (d : Delivery) : Log :=
  [⟨.remote (.update d), (.ok () : Except Err Unit)⟩,
   ⟨.remote (.publish (notificationSubject p.streamPrefix d.channel d.priority) (idBody d.id)
      (replayHeaders d.id)), (.ok () : Except Err Unit)⟩,
   ⟨.remote (.append d.id .replayed [("operator", .str "api")]), (.ok () : Except Err Unit)⟩]

/-- Every write so far was a transaction for the request that was answered with an error. -/
def Unstored (p : Params) (req : IngestRequest) (log : Log) : Prop :=
  ∀ e ∈ writes log, ∃ d err, req.Asks d ∧ e = storing p d (.error err)

/-- Every write so far was a transaction that found its key taken. -/
def Outrun (p : Params) (log : Log) : Prop :=
  ∀ e ∈ writes log, ∃ d err, err.is .duplicate = true ∧ e = storing p d (.error err)

/-- The responses to `POST /v1/notifications` behind `auth`, and what was done for each. -/
inductive IngestAnswer (p : Params) (r : Request) : Log → Response → Prop where
  | unread {e : Err} (body : r.body = .error e) : IngestAnswer p r [] (writeError 400 e)
  | invalid {b : IngestBody} {e : Err} (body : r.body = .ok b) (invalid : b.decode.validate = .error e) :
      IngestAnswer p r [] (writeError 400 (errValidation e))
  | created {b : IngestBody} {d : Delivery} {log : Log} (body : r.body = .ok b) (asks : b.decode.Asks d)
      (stored : writes log = [storing p d (.ok ())]) :
      IngestAnswer p r log (writeJSON 202 (.ingested ⟨d.id, d.status, false⟩))
  | known {b : IngestBody} {d : Delivery} {key : String} {ch : Channel} {log : Log} (body : r.body = .ok b)
      (own : b.decode.Registers key ch)
      (found : ⟨.remote (.findByIdempotencyKey key ch), (.ok d : Except Err Delivery)⟩ ∈ log)
      (outrun : Outrun p log) :
      IngestAnswer p r log (writeJSON 200 (.ingested ⟨d.id, d.status, true⟩))
  | failed {b : IngestBody} {e : Err} {log : Log} (body : r.body = .ok b) (fails : Fails log e)
      (unstored : Unstored p b.decode log) :
      IngestAnswer p r log (writeError 500 e)

/-- The responses to `POST /v1/notifications/{id}/replay` behind `auth`, and what was done for each. -/
inductive ReplayAnswer (p : Params) (r : Request) : Log → Response → Prop where
  | unnamed (id : r.id = "") : ReplayAnswer p r [] (writeError 400 errInvalid)
  | requeued {d d' : Delivery} {now : Time} {log : Log}
      (found : ⟨.remote (.findByID r.id), (.ok d : Except Err Delivery)⟩ ∈ log) (dead : d.status.Replayable)
      (queued : d' = { d with status := .queued, updatedAt := now, retryCount := 0 })
      (wrote : writes log = requeues p d') : ReplayAnswer p r log (writeJSON 200 (.replayed r.id "queued"))
  | refused {d : Delivery} {log : Log} (found : ⟨.remote (.findByID r.id), (.ok d : Except Err Delivery)⟩ ∈ log)
      (alive : ¬ d.status.Replayable) (wrote : writes log = []) :
      ReplayAnswer p r log (writeError 500 ⟨"cannot replay from status " ++ d.status.text, []⟩)
  | failed {e : Err} {log : Log} (fails : Fails log e) : ReplayAnswer p r log (writeError 500 e)

/-- The responses, and what was done for each. -/
inductive Server.Answer (s : Server) (r : Request) : Log → Response → Prop where
  | preflight (method : r.method = "OPTIONS") : s.Answer r [] ⟨204, .empty⟩
  | unauthorized (guarded : r.pattern = .ingest ∨ r.pattern = .replay) (refused : authKey r ∉ s.apiKeys) :
      s.Answer r [] (writeError 401 errUnauthorized)
  | ingest {log : Log} {resp : Response} (route : r.pattern = .ingest) (key : authKey r ∈ s.apiKeys)
      (answer : IngestAnswer s.params r log resp) : s.Answer r log resp
  | replay {log : Log} {resp : Response} (route : r.pattern = .replay) (key : authKey r ∈ s.apiKeys)
      (answer : ReplayAnswer s.params r log resp) : s.Answer r log resp
  | unnamed (route : r.pattern = .dashboardDetail) (id : r.id = "") : s.Answer r [] (writeError 400 errInvalid)
  | shown {detail : DeliveryDetail} (route : r.pattern = .dashboardDetail) (found : s.dashboard r.id = .ok detail) :
      s.Answer r [] (writeJSON 200 (.detail detail))
  | unshown {e : Err} (route : r.pattern = .dashboardDetail) (found : s.dashboard r.id = .error e) :
      s.Answer r [] (writeError (if e.is .notFound then 404 else 500) e)

/-- What a store may complain of: nothing the services know, no rows, or a key that is taken. -/
def Err.Stored (e : Err) : Prop := e.wraps = [] ∨ e.wraps = [.noRows] ∨ e.wraps = [.duplicate]

section
variable {p : Params} {w : World}

theorem store_error {x : Except Err Tables} {e : Err} (h : (w.store x).1 = .error e) : x = .error e := by
  cases x with
  | ok t => cases h
  | error err => exact congrArg _ (Except.error.inj h)

theorem stored_append {t : Tables} {now : Time} {id : String} {ev : DomainEventType} {payload : AuditPayload} {e : Err}
    (h : t.append now id ev payload = .error e) : e.Stored := by
  unfold Tables.append at h
  split at h <;> cases h
  exact .inl rfl

theorem stored_ingest {t : Tables} {now exp : Time} {d : Delivery} {subject : String} {payload : Body}
    {headers : Headers} {schedule : Bool} {e : Err}
    (h : t.ingestTransactional now d exp subject payload headers schedule = .error e) : e.Stored := by
  unfold Tables.ingestTransactional at h
  split at h
  · rename_i e' hinsert
    unfold Tables.insertDelivery at hinsert
    split at hinsert <;> cases hinsert
    cases h
    exact .inl rfl
  · simp only [] at h
    split at h
    · cases h
      exact .inr (.inl rfl)
    · split at h
      · cases h
        exact .inr (.inr rfl)
      · exact stored_append h

/-- Only a lookup of a key reports that something is not found. -/
theorem stored_exec {q : Remote} {e : Err} (h : (exec p w q).1 = .error e) :
    e.Stored ∨ e = errNotFound ∧ ∃ key ch, q = .findByIdempotencyKey key ch := by
  cases q with
  | findByID id =>
    simp only [exec, Tables.findByID] at h
    split at h <;> cases h
    exact .inl (.inr (.inl rfl))
  | findByIdempotencyKey key ch => exact .inr ⟨lookup_error h, key, ch, rfl⟩
  | recordAttempt id a =>
    have hstore := store_error h
    unfold Tables.recordAttempt at hstore
    split at hstore <;> cases hstore
    exact .inl (.inl rfl)
  | ingestTransactional d exp subject payload headers schedule => exact .inl (stored_ingest (store_error h))
  | enqueue id subject payload headers =>
    have hstore := store_error h
    unfold Tables.enqueue at hstore
    split at hstore <;> cases hstore
    exact .inl (.inl rfl)
  | append id ev payload => exact .inl (stored_append (store_error h))
  | publish subject body headers =>
    simp only [exec, World.publish] at h
    split_ifs at h
    cases h
    exact .inl (.inl rfl)
  | _ => cases h

theorem stored_answerable {q : Remote} {e : Err} (h : Answerable p (.remote q) (.error e : Except Err (Reply q))) :
    e.Stored ∨ e = errNotFound ∧ ∃ key ch, q = .findByIdempotencyKey key ch := by
  obtain ⟨c, w, w', hans⟩ := h
  have hanswered := answer_cases hans
  generalize hr : (Except.error e : Except Err (Reply q)) = r at hanswered
  cases hanswered with
  | fault q msg =>
    cases hr
    exact .inl (.inl rfl)
  | lost q msg =>
    cases hr
    exact .inl (.inl rfl)
  | ran q => exact stored_exec hr.symm

theorem Err.Stored.is {e : Err} (h : e.Stored) {st : Sentinel} (hrows : st ≠ .noRows) (hdup : st ≠ .duplicate) :
    e.is st = false := by
  unfold Err.is
  rcases h with h | h | h <;> rw [h] <;> simp [hrows, hdup]

/-! The ingest handler. -/

variable {r : Request} {b : IngestBody} {s : Server}

/-- What `Ingest` returns, and what it has done. -/
def Ingested (p : Params) (req : IngestRequest) (log : Log) : Except Err IngestResponse → Prop
  | .ok resp => if resp.duplicate
      then ∃ d key ch, resp = ⟨d.id, d.status, true⟩ ∧ req.Registers key ch ∧
        ⟨.remote (.findByIdempotencyKey key ch), (.ok d : Except Err Delivery)⟩ ∈ log ∧ Outrun p log
      else ∃ d, resp = ⟨d.id, d.status, false⟩ ∧ req.Asks d ∧
        writes log = [storing p d (.ok ())]
  | .error e => (∃ e', req.validate = .error e' ∧ e = errValidation e' ∧ log = []) ∨
      Fails log e ∧ (e.Stored ∨ e = errNotFound) ∧ Unstored p req log

theorem writes_append (log : Log) (e : Exchange Op Ans) :
    writes (log ++ [e]) = writes log ++ if e.op.reads then [] else [e] := by
  unfold writes
  rw [List.filter_append]
  cases hreads : e.op.reads <;> simp [hreads]

/-- A lookup writes nothing. -/
theorem writes_lookup (log : Log) (key : String) (ch : Channel) (r : Except Err Delivery) :
    writes (log ++ [⟨.remote (.findByIdempotencyKey key ch), r⟩]) = writes log := by
  rw [writes_append]
  exact List.append_nil _

theorem stored_lookup {key : String} {ch : Channel} {e : Err}
    (h : Answerable p (.remote (.findByIdempotencyKey key ch)) (.error e : Except Err Delivery)) :
    e.Stored ∨ e = errNotFound :=
  (stored_answerable h).imp_right fun h => h.1

theorem logged_register {req : IngestRequest} {d : Delivery} {now : Time} {before : Log} (hbefore : writes before = [])
    (h : req.Asks d) (hd : d.status = .pending) (hnow : d.createdAt = now) :
    Obeys (logging (Answerable p)) (register p d now).run before (Ingested p req) := by
  subst hnow
  unfold register
  obtain ⟨d', hq⟩ := queueUnlessScheduled_pending hd d.createdAt
  obtain ⟨hd', hcreated, -⟩ := asked_queued h hq
  obtain ⟨-, -, -, -, -, -, hscheduled, -⟩ := queueUnlessScheduled_ok hq hd
  have hdecided : d.shouldSchedule d'.createdAt = d'.shouldSchedule d'.createdAt := by
    rw [Delivery.shouldSchedule, Delivery.shouldSchedule, hscheduled]
  rw [hq]
  simp only []
  rw [← hcreated, hdecided, obeys_bindE, obeys_attempt]
  refine ⟨trivial, fun r hr => ?_⟩
  have hwrites : ∀ r, writes (before ++ [storing p d' r]) = [storing p d' r] := by
    intro r
    rw [writes_append, hbefore]
    rfl
  cases r with
  | ok u => exact ⟨d', rfl, hd', hwrites (.ok ())⟩
  | error e =>
    have hwritten : ∀ x ∈ writes (before ++ [storing p d' (.error e)]), x = storing p d' (.error e) := by
      intro x hx
      rw [hwrites] at hx
      exact List.mem_singleton.mp hx
    by_cases he : e.is .duplicate
    · simp only [ends_ok, if_pos he]
      rw [obeys_bindE, obeys_remote]
      refine ⟨trivial, fun r hr' => ?_⟩
      rw [← writes_lookup _ d'.idempotencyKey d'.channel r] at hwritten
      cases r with
      | ok d₁ =>
        refine ⟨d₁, d'.idempotencyKey, d'.channel, rfl, ⟨hd'.valid, hd'.idempotencyKey.symm, hd'.channel⟩, ?_,
          fun x hx => ⟨d', e, he, hwritten x hx⟩⟩
        exact List.mem_append_right _ List.mem_cons_self
      | error e₁ =>
        exact .inr ⟨⟨_, List.mem_append_right _ List.mem_cons_self⟩, stored_lookup hr',
          fun x hx => ⟨d', e, hd', hwritten x hx⟩⟩
    · simp only [ends_ok, if_neg he]
      exact .inr ⟨⟨_, List.mem_append_right _ List.mem_cons_self⟩, (stored_answerable hr).imp_right fun h => h.1,
        fun x hx => ⟨d', e, hd', hwritten x hx⟩⟩

theorem logged_ingest (p : Params) (req : IngestRequest) :
    Obeys (logging (Answerable p)) (ingest p req).run [] (Ingested p req) := by
  unfold ingest
  split
  · rename_i e he
    rw [obeys_throw]
    exact .inl ⟨e, he, rfl, rfl⟩
  · rename_i req' hv
    have ⟨hcore, ch, hch⟩ := IngestRequest.validate_ok hv
    have hch' : parseChannel req'.channel = .ok ch := by rw [hcore.2.1, hch]
    simp only [hch']
    rw [obeys_bindE, obeys_attempt]
    refine ⟨trivial, fun r hr => ?_⟩
    cases r with
    | ok d =>
      exact ⟨d, req'.idempotencyKey, ch, rfl, ⟨⟨req', hv⟩, hcore.1.symm, hch⟩, List.mem_cons_self,
        fun _ hx => absurd hx List.not_mem_nil⟩
    | error e =>
      by_cases he : e.is .notFound
      · simp only [ends_ok, if_pos he]
        rw [obeys_bindE, obeys_ask_op]
        refine ⟨trivial, fun now _ => ?_⟩
        obtain ⟨made, heq, hmade⟩ := newDelivery_eq hv now
        rw [ends_ok, heq, obeys_bindE, obeys_bindE, obeys_ask_op]
        refine ⟨trivial, fun id _ => ?_⟩
        obtain ⟨hasks, hnow, -, hst⟩ := hmade id
        exact logged_register rfl hasks hst hnow
      · simp only [ends_ok, if_neg he]
        exact .inr ⟨⟨_, List.mem_cons_self⟩, stored_lookup hr, fun _ hx => absurd hx List.not_mem_nil⟩

theorem logged_handleIngest (s : Server) (r : Request) :
    Obeys (logging (Answerable s.params)) (s.handleIngest r) [] (IngestAnswer s.params r) := by
  unfold Server.handleIngest
  cases hbody : r.body with
  | error e => exact .unread hbody
  | ok body =>
    simp only []
    rw [obeys_bind]
    refine obeys_mono (fun log res h => ?_) _ _ (logged_ingest s.params body.decode)
    cases res with
    | ok resp =>
      unfold Ingested at h
      simp only [] at h
      split at h
      · rename_i hdup
        obtain ⟨d, key, ch, rfl, hown, hfound, hlost⟩ := h
        exact .known hbody hown hfound hlost
      · obtain ⟨d, rfl, hasks, hstored⟩ := h
        exact .created hbody hasks hstored
    | error e =>
      rcases h with ⟨e', hinvalid, rfl, rfl⟩ | ⟨hfails, hknown, hlost⟩
      · exact .invalid hbody hinvalid
      · have hvalidation : e.is .validation = false := by
          rcases hknown with h | rfl
          · exact h.is (by decide) (by decide)
          · rfl
        have hunauthorized : e.is .unauthorized = false := by
          rcases hknown with h | rfl
          · exact h.is (by decide) (by decide)
          · rfl
        simp only [hvalidation, hunauthorized]
        exact .failed hbody hfails hlost

/-! The replay handler. -/

/-- What `ReplayDelivery` returns, and what it has done. -/
def Replayed (p : Params) (id : String) (log : Log) : Except Err Unit → Prop
  | .ok _ => ∃ d d' now, ⟨.remote (.findByID id), (.ok d : Except Err Delivery)⟩ ∈ log ∧ d.status.Replayable ∧
      d' = { d with status := .queued, updatedAt := now, retryCount := 0 } ∧ writes log = requeues p d'
  | .error e => Fails log e ∧ e.Stored ∨ ∃ d, ⟨.remote (.findByID id), (.ok d : Except Err Delivery)⟩ ∈ log ∧
      ¬ d.status.Replayable ∧ e = ⟨"cannot replay from status " ++ d.status.text, []⟩ ∧ writes log = []

/-- A call of a replay that fails. -/
theorem replayed_failed {id : String} {q : Remote} {log : Log} {e : Err}
    (h : Answerable p (.remote q) (.error e : Except Err (Reply q))) (hq : ∀ key ch, q ≠ .findByIdempotencyKey key ch) :
    Replayed p id (log ++ [⟨.remote q, (.error e : Except Err (Reply q))⟩]) (.error e) := by
  refine .inl ⟨⟨q, List.mem_append_right _ List.mem_cons_self⟩, ?_⟩
  rcases stored_answerable h with hstored | ⟨-, key, ch, hkey⟩
  · exact hstored
  · exact absurd hkey (hq key ch)

theorem logged_replay (p : Params) (id : String) :
    Obeys (logging (Answerable p)) (replayDelivery p id).run [] (Replayed p id) := by
  unfold replayDelivery
  rw [obeys_bindE, obeys_remote]
  refine ⟨trivial, fun r hr => ?_⟩
  cases r with
  | error e => exact replayed_failed hr (by intro _ _ hq; cases hq)
  | ok d =>
    rw [ends_ok, obeys_bindE, obeys_ask_op]
    refine ⟨trivial, fun now _ => ?_⟩
    simp only [ends_ok]
    split
    · rename_i e he
      obtain ⟨hd, hf⟩ := Delivery.replay_error he
      refine .inr ⟨d, List.mem_cons_self, fun h => h.elim hd hf, ?_, rfl⟩
      unfold Delivery.replay at he
      rw [if_pos ⟨hd, hf⟩] at he
      exact (Except.error.inj he).symm
    · rename_i d' hd'
      obtain ⟨hst, rfl⟩ := Delivery.replay_ok hd'
      rw [obeys_bindE, obeys_remote]
      refine ⟨trivial, fun r hr => ?_⟩
      cases r with
      | error e => exact replayed_failed hr (by intro _ _ hq; cases hq)
      | ok _ =>
        rw [ends_ok, obeys_bindE, obeys_remote]
        refine ⟨trivial, fun r hr => ?_⟩
        cases r with
        | error e => exact replayed_failed hr (by intro _ _ hq; cases hq)
        | ok _ =>
          rw [ends_ok, obeys_remote]
          refine ⟨trivial, fun r hr => ?_⟩
          cases r with
          | error e => exact replayed_failed hr (by intro _ _ hq; cases hq)
          | ok _ => exact ⟨d, _, now, List.mem_cons_self, hst, rfl, rfl⟩

theorem logged_handleReplay (s : Server) (r : Request) :
    Obeys (logging (Answerable s.params)) (s.handleReplay r) [] (ReplayAnswer s.params r) := by
  unfold Server.handleReplay
  by_cases hid : r.id = ""
  · rw [if_pos hid]
    exact .unnamed hid
  · rw [if_neg hid, obeys_bind]
    refine obeys_mono (fun log res h => ?_) _ _ (logged_replay s.params r.id)
    cases res with
    | ok u =>
      obtain ⟨d, d', now, hfound, hdead, hqueued, hwrote⟩ := h
      exact .requeued hfound hdead hqueued hwrote
    | error e =>
      rcases h with ⟨hfails, hstored⟩ | ⟨d, hfound, halive, rfl, hwrote⟩
      · have hfound : e.is .notFound = false := hstored.is (by decide) (by decide)
        simp only [hfound]
        exact .failed hfails
      · exact .refused hfound halive hwrote

/-! The server. -/

theorem logged_handler (s : Server) (r : Request) :
    Obeys (logging (Answerable s.params)) (s.handler r) [] (s.Answer r) := by
  unfold Server.handler Server.withCORS
  by_cases hmethod : r.method = "OPTIONS"
  · rw [if_pos hmethod]
    exact .preflight hmethod
  · rw [if_neg hmethod]
    show Obeys _ (s.routes r.pattern r) _ _
    cases hroute : r.pattern with
    | dashboardDetail =>
      unfold Server.routes Server.handleDashboardDetail
      by_cases hid : r.id = ""
      · simp only [if_pos hid]
        exact .unnamed hroute hid
      · simp only [if_neg hid]
        cases hfound : s.dashboard r.id with
        | error e => exact .unshown hroute hfound
        | ok detail => exact .shown hroute hfound
    | ingest =>
      show Obeys _ (s.auth s.handleIngest r) _ _
      rw [auth_eq]
      split
      · rename_i hkey
        exact obeys_mono (fun _ _ h => .ingest hroute hkey h) _ _ (logged_handleIngest s r)
      · rename_i hkey
        exact .unauthorized (.inl hroute) hkey
    | replay =>
      show Obeys _ (s.auth s.handleReplay r) _ _
      rw [auth_eq]
      split
      · rename_i hkey
        exact obeys_mono (fun _ _ h => .replay hroute hkey h) _ _ (logged_handleReplay s r)
      · rename_i hkey
        exact .unauthorized (.inr hroute) hkey

end

end GoCourier
