import GoCourier.Content.Routed
import GoCourier.Http.Answers
import GoCourier.Registry.Race

/- What a response says of the tables and the streams. A call may take effect and lose its
   answer, and a handler is told an error then: so a 500 leaves open whether the delivery
   was stored, and only there. At a 4xx nothing was written, nor at the 200 of an ingest,
   for a transaction that loses its answer is no error of a key that is taken; at a 202 one
   call, and no other, has stored what the body asks for. -/
namespace GoCourier

open Interleave

/-- A call of a handler, served by some state of the system. -/
abbrev Call (p : Params) := Served (answer p)

section
variable {p : Params}

/-- The call left the tables and the streams as they were. -/
structure WroteNothing (c : Call p) : Prop where
  db : c.after.db = c.before.db
  stream : c.after.stream = c.before.stream
  deadLetters : c.after.deadLetters = c.before.deadLetters

/-- The answer of the call did not get back. -/
def AnswerLost (c : Call p) : Prop := ∃ msg, c.choice = .lost msg

/-- The call stored a new delivery that says what the request says, and registered it under the request's key. -/
structure StoresAsked (req : IngestRequest) (c : Call p) (id : String) : Prop where
  new : c.before.db.deliveries id = none
  stored : c.after.db.HoldsAsked c.before.db.jsonb req id
  registered : ∀ key ch, req.Registers key ch →
    ∃ ik, c.after.db.idempotencyKeys (key, ch) = some ik ∧ ik.deliveryId = id

/-- The call stored a delivery that was not there. -/
def stores (c : Call p) : Bool := match c.op with
  | .remote (.ingestTransactional d _ _ _ _ _) =>
    (c.before.db.deliveries d.id).isNone && (c.after.db.deliveries d.id).isSome
  | _ => false

/-- One call stored the request, and no other wrote anything. -/
def StoredOnce (req : IngestRequest) (calls : List (Call p)) (id : String) : Prop :=
  ∃ before c after, calls = before ++ c :: after ∧ StoresAsked req c id ∧ ∀ c' ∈ before ++ after, WroteNothing c'

end

/-- What the status says of the tables and the streams. -/
structure Server.Effects (s : Server) (r : Request) (calls : List (Call s.params)) (resp : Response) : Prop where
  fault : 400 ≤ resp.status → resp.status < 500 → ∀ c ∈ calls, WroteNothing c
  accepted : resp.status = 202 → ∃ b id st, r.body = .ok b ∧ resp = writeJSON 202 (.ingested ⟨id, st, false⟩) ∧
    StoredOnce b.decode calls id
  duplicate : r.pattern = .ingest → resp.status = 200 → ∀ c ∈ calls, WroteNothing c
  failed : r.pattern = .ingest → resp.status = 500 → ∀ c ∈ calls, WroteNothing c ∨ AnswerLost c

/-! One call. -/

section
variable {p : Params} {c : Call p} {calls : List (Call p)} {req : IngestRequest} {d : Delivery}

theorem exec_reads (w : World) {q : Remote} (h : (Op.remote q).reads = true) : (exec p w q).2 = w := by
  cases q with
  | findByID id => rfl
  | findByIdempotencyKey key ch => rfl
  | _ => cases h

theorem wroteNothing_of_reads (h : c.op.reads = true) : WroteNothing c := by
  obtain ⟨op, choice, w, r, w', answered⟩ := c
  cases answer_cases answered with
  | now => exact ⟨rfl, rfl, rfl⟩
  | newUUID ne fresh => exact ⟨rfl, rfl, rfl⟩
  | ran q =>
    have hsame : (exec p w q).2 = w := exec_reads w h
    exact ⟨congrArg _ hsame, congrArg _ hsame, congrArg _ hsame⟩
  | fault q msg => exact ⟨rfl, rfl, rfl⟩
  | lost q msg =>
    have hsame : (exec p w q).2 = w := exec_reads w h
    exact ⟨congrArg _ hsame, congrArg _ hsame, congrArg _ hsame⟩
  | _ => cases h

theorem transaction_error {w w' : World} {choice : Choice} {exp : Time} {subject : String} {payload : Body}
    {headers : Headers} {schedule : Bool} {err : Err}
    (h : Answered p w (.remote (.ingestTransactional d exp subject payload headers schedule)) choice (.error err) w') :
    w' = w ∨ ∃ msg, choice = .lost msg ∧ err = ⟨msg, []⟩ := by
  generalize hr : (Except.error err : Except Err Unit) = r at h
  cases h with
  | ran q =>
    have hrefused := store_error hr.symm
    simp only [exec, hrefused]
    exact .inl rfl
  | fault q msg => exact .inl rfl
  | lost q msg =>
    cases hr
    exact .inr ⟨msg, rfl, rfl⟩

/-- A transaction stores its own delivery only. -/
theorem ingested_id {w w' : World} {choice : Choice} {exp : Time} {subject : String} {payload : Body} {headers : Headers}
    {schedule : Bool} {r : Except Err Unit} {id : String}
    (h : Answered p w (.remote (.ingestTransactional d exp subject payload headers schedule)) choice r w')
    (hnone : w.db.deliveries id = none) (hsome : w'.db.deliveries id ≠ none) : id = d.id := by
  rcases answered_db h with hdb | ⟨q, hq, -, hdb⟩
  · rw [hdb] at hsome
    exact absurd hnone hsome
  · cases hq
    by_contra hne
    have hsame : w'.db.deliveries id = w.db.deliveries id := by
      rw [hdb]
      refine store_keeps (P := (·.deliveries id = w.db.deliveries id)) rfl fun t ht => ?_
      rw [(Tables.ingestTransactional_deliveries ht).2, Function.update_of_ne hne]
    exact hsome (hsame.trans hnone)

/-- A transaction that was answered with an error has been rolled back, unless its answer was lost. -/
theorem wroteNothing_of_error {err : Err} (h : c.exchange = storing p d (.error err)) :
    WroteNothing c ∨ AnswerLost c ∧ err.is .duplicate = false := by
  obtain ⟨op, choice, w, r, w', answered⟩ := c
  cases h
  rcases transaction_error (answer_cases answered) with rfl | ⟨msg, rfl, rfl⟩
  · exact .inl ⟨rfl, rfl, rfl⟩
  · exact .inr ⟨⟨msg, rfl⟩, rfl⟩

/-- A transaction that was answered without an error has been committed. -/
theorem storesAsked_of_ok (hasks : req.Asks d) (h : c.exchange = storing p d (.ok ())) : StoresAsked req c d.id := by
  obtain ⟨op, choice, w, r, w', answered⟩ := c
  cases h
  obtain ⟨-, hexec⟩ := answered_ok (answer_cases answered)
  have htx := store_ok hexec
  obtain ⟨hnew, ⟨ik, hik, hid⟩, -⟩ := Tables.ingestTransactional_ok htx
  obtain ⟨row, hrow, hsame⟩ := has_ingested htx
  refine ⟨hnew, ⟨row, hrow, asks_same (asks_stored w.db.jsonb hasks) hsame.symm⟩, fun key ch hreg => ⟨ik, ?_, hid⟩⟩
  obtain ⟨rfl, rfl⟩ := Prod.mk.inj (registers_unique ⟨hasks.valid, hasks.idempotencyKey.symm, hasks.channel⟩ hreg)
  rw [Tables.ingestTransactional_work htx]
  exact hik

/-- No other call stores a delivery. -/
theorem stores_iff : stores c = true ↔ ∃ id, c.before.db.deliveries id = none ∧ c.after.db.deliveries id ≠ none := by
  constructor
  · intro h
    unfold stores at h
    split at h
    · rename_i d _ _ _ _ _ _
      obtain ⟨hnone, hsome⟩ := (Bool.and_eq_true ..).mp h
      exact ⟨d.id, Option.isNone_iff_eq_none.mp hnone, Option.isSome_iff_ne_none.mp hsome⟩
    · cases h
  · rintro ⟨id, hnone, hsome⟩
    obtain ⟨op, choice, w, r, w', answered⟩ := c
    have hans := answer_cases answered
    by_cases hop : op.Stores
    · cases op with
      | remote q =>
        cases q with
        | ingestTransactional d exp subject payload headers schedule =>
          have hid : id = d.id := ingested_id hans hnone hsome
          subst hid
          exact (Bool.and_eq_true ..).mpr ⟨Option.isNone_iff_eq_none.mpr hnone, Option.isSome_iff_ne_none.mpr hsome⟩
        | _ => exact hop.elim
      | _ => exact hop.elim
    · have howner := congrFun (answered_owner hans hop) id
      rw [Tables.owner_eq_none.mpr hnone, Tables.owner_eq_none] at howner
      exact absurd howner hsome

/-! The calls behind a response. -/

theorem reads_or_mem_writes (hc : c ∈ calls) : c.op.reads = true ∨ c.exchange ∈ writes (calls.map Served.exchange) := by
  cases hreads : c.op.reads with
  | true => exact .inl rfl
  | false =>
    have hwrites : (! c.exchange.op.reads) = true := congrArg (! ·) hreads
    exact .inr (List.mem_filter.mpr ⟨List.mem_map_of_mem hc, hwrites⟩)

theorem wroteNothing_of_writes (h : writes (calls.map Served.exchange) = []) : ∀ c ∈ calls, WroteNothing c := by
  intro c hc
  rcases reads_or_mem_writes hc with hreads | hmem
  · exact wroteNothing_of_reads hreads
  · rw [h] at hmem
    cases hmem

theorem wroteNothing_of_outrun (h : Outrun p (calls.map Served.exchange)) : ∀ c ∈ calls, WroteNothing c := by
  intro c hc
  rcases reads_or_mem_writes hc with hreads | hmem
  · exact wroteNothing_of_reads hreads
  · obtain ⟨d, err, hdup, hex⟩ := h _ hmem
    refine (wroteNothing_of_error hex).resolve_right fun hlost => ?_
    rw [hlost.2] at hdup
    cases hdup

theorem wroteNothing_or_lost (h : Unstored p req (calls.map Served.exchange)) :
    ∀ c ∈ calls, WroteNothing c ∨ AnswerLost c := by
  intro c hc
  rcases reads_or_mem_writes hc with hreads | hmem
  · exact .inl (wroteNothing_of_reads hreads)
  · obtain ⟨d, err, -, hex⟩ := h _ hmem
    exact (wroteNothing_of_error hex).imp_right And.left

theorem storedOnce (hasks : req.Asks d) (h : writes (calls.map Served.exchange) = [storing p d (.ok ())]) :
    StoredOnce req calls d.id := by
  unfold writes at h
  rw [List.filter_map] at h
  obtain ⟨c, hfilter, hc⟩ := List.map_eq_singleton_iff.mp h
  obtain ⟨before, after, rfl, hbefore, -, hafter⟩ := List.filter_eq_cons_iff.mp hfilter
  refine ⟨before, c, after, rfl, storesAsked_of_ok hasks hc, fun c' hc' => wroteNothing_of_reads ?_⟩
  rcases List.mem_append.mp hc' with hc' | hc'
  · simpa [Served.exchange] using hbefore c' hc'
  · simpa [Served.exchange] using List.filter_eq_nil_iff.mp hafter c' hc'

end

section
variable {s : Server} {r : Request} {calls : List (Call s.params)} {resp : Response}

/-- A response behind which nothing was written. -/
theorem effects_of_quiet (hquiet : ∀ c ∈ calls, WroteNothing c) (hstatus : resp.status ≠ 202) :
    s.Effects r calls resp :=
  ⟨fun _ _ => hquiet, fun h => absurd h hstatus, fun _ _ => hquiet, fun _ _ c hc => .inl (hquiet c hc)⟩

/-- A response without a call. -/
theorem effects_of_silent (h : calls.map Served.exchange = []) (hstatus : resp.status ≠ 202) : s.Effects r calls resp := by
  obtain rfl := List.map_eq_nil_iff.mp h
  exact effects_of_quiet (fun _ hc => absurd hc List.not_mem_nil) hstatus

theorem effects_of_ingest (h : IngestAnswer s.params r (calls.map Served.exchange) resp) : s.Effects r calls resp := by
  generalize hlog : calls.map Served.exchange = log at h
  cases h with
  | unread body => exact effects_of_silent hlog (show 400 ≠ 202 by decide)
  | invalid body invalid => exact effects_of_silent hlog (show 400 ≠ 202 by decide)
  | @created b d _ body asks stored =>
    subst hlog
    refine ⟨fun hlow => absurd hlow (show ¬ 400 ≤ 202 by decide), fun _ => ?_, fun _ hok => ?_, fun _ hfail => ?_⟩
    · exact ⟨b, d.id, d.status, body, rfl, storedOnce asks stored⟩
    · exact absurd hok (show (202 : Nat) ≠ 200 by decide)
    · exact absurd hfail (show (202 : Nat) ≠ 500 by decide)
  | known body own found outrun =>
    subst hlog
    exact effects_of_quiet (wroteNothing_of_outrun outrun) (show 200 ≠ 202 by decide)
  | failed body fails unstored =>
    subst hlog
    refine ⟨fun _ hhigh => absurd hhigh (show ¬ 500 < 500 by decide), fun hok => ?_, fun _ hok => ?_, fun _ _ => ?_⟩
    · exact absurd hok (show (500 : Nat) ≠ 202 by decide)
    · exact absurd hok (show (500 : Nat) ≠ 200 by decide)
    · exact wroteNothing_or_lost unstored

theorem effects_of_replay (hroute : r.pattern = .replay)
    (h : ReplayAnswer s.params r (calls.map Served.exchange) resp) : s.Effects r calls resp := by
  generalize hlog : calls.map Served.exchange = log at h
  have hno : r.pattern ≠ .ingest := by
    rw [hroute]
    exact nofun
  cases h with
  | unnamed id => exact effects_of_silent hlog (show 400 ≠ 202 by decide)
  | requeued found dead queued wrote =>
    exact ⟨fun hlow => absurd hlow (show ¬ 400 ≤ 200 by decide), fun h => absurd h (show (200 : Nat) ≠ 202 by decide),
      fun h => absurd h hno, fun h => absurd h hno⟩
  | refused found alive wrote => exact effects_of_quiet (wroteNothing_of_writes (hlog ▸ wrote)) (show 500 ≠ 202 by decide)
  | failed fails =>
    exact ⟨fun _ hhigh => absurd hhigh (show ¬ 500 < 500 by decide), fun h => absurd h (show (500 : Nat) ≠ 202 by decide),
      fun h => absurd h hno, fun h => absurd h hno⟩

theorem effects_of_answer (h : s.Answer r (calls.map Served.exchange) resp) : s.Effects r calls resp := by
  generalize hlog : calls.map Served.exchange = log at h
  cases h with
  | preflight method => exact effects_of_silent hlog (show 204 ≠ 202 by decide)
  | unauthorized guarded refused =>
    exact effects_of_silent hlog (show 401 ≠ 202 by decide)
  | ingest route key answer => exact effects_of_ingest (hlog ▸ answer)
  | replay route key answer => exact effects_of_replay route (hlog ▸ answer)
  | unnamed route id => exact effects_of_silent hlog (show 400 ≠ 202 by decide)
  | shown route found => exact effects_of_silent hlog (show 200 ≠ 202 by decide)
  | unshown route found =>
    refine effects_of_silent hlog ?_
    show (if _ then 404 else 500) ≠ 202
    split <;> decide

/-- For every request to these routes and every way its handler's calls may be served, each by another state. -/
theorem answers_truthful
    (h : Transcript (Answerable s.params) (s.handler r) (calls.map Served.exchange) resp) :
    s.Answer r (calls.map Served.exchange) resp ∧ s.Effects r calls resp := by
  have hanswer : s.Answer r (calls.map Served.exchange) resp := obeys_iff_transcripts.mp (logged_handler s r) _ resp h
  exact ⟨hanswer, effects_of_answer hanswer⟩

end

/-- Nothing fails, and a new id is `d1`. -/
def alone (op : Op) : Choice := if op = .newUUID then .uuid "d1" else .run

theorem transcript_alone {p : Params} {T : CallTree Op Ans Response} {w w' : World} {resp : Response}
    (h : CallTree.solo (fun op => answer p op (alone op)) T w = some (resp, w')) :
    ∃ calls : List (Call p), Transcript (Answerable p) T (calls.map Served.exchange) resp :=
  served_of_solo alone (fun _ c w _ w' hanswer => ⟨c, w, w', hanswer⟩) h

/-- A full body sent to an empty store. -/
theorem answers_truthful_sample : ∃ (calls : List (Call keyedServer.params)) (resp : Response), resp.status = 202 ∧
    Transcript (Answerable keyedServer.params) (keyedServer.handler (ingestRequest fullBody))
      (calls.map Served.exchange) resp ∧
    keyedServer.Answer (ingestRequest fullBody) (calls.map Served.exchange) resp ∧
    ∃ id, StoredOnce fullBody.decode calls id := by
  have hrun : (CallTree.solo (fun op => answer keyedServer.params op (alone op))
      (keyedServer.handler (ingestRequest fullBody)) (World.empty {})).map (fun res => res.1.status) = some 202 := by
    decide +kernel
  obtain ⟨⟨resp, w⟩, hsolo, hstatus⟩ := Option.map_eq_some_iff.mp hrun
  obtain ⟨calls, hcalls⟩ := transcript_alone hsolo
  obtain ⟨hanswer, heffects⟩ := answers_truthful hcalls
  obtain ⟨b, id, st, hbody, -, hstored⟩ := heffects.accepted hstatus
  cases hbody
  exact ⟨calls, resp, hstatus, hcalls, hanswer, id, hstored⟩

end GoCourier
