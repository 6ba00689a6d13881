import GoCourier.Http.Effects
import GoCourier.Web.Requests
import GoCourier.Web.Sends

/- What the load panel shows when a run has ended (`LoadTestPanel.tsx`, `client.ts`), held
   against what the API has done to its tables. Every request may meet another store, be
   refused, fail or lose its answer, and in a parallel run the answers come in any order. A
   request that is counted as accepted has stored the delivery it asks for, and one that is
   counted as a duplicate has stored nothing. One that is counted as failed may have stored
   its delivery in two ways only: the API's answer was lost on its way to the panel, or the
   database's on its way to the API. -/
namespace GoCourier
namespace LoadTest

open Interleave

/-! The client. -/

/-- What the client sends (`sendNotification`, `request`); the key is as it gets through `fetch`. -/
def post (req : SendNotificationReq) (apiKey : String) : Request where
  pattern := .ingest
  header name := if name = "X-API-Key" then apiKey else if name = "Content-Type" then "application/json" else ""
  body := .ok req.body

/-- What the promise of `sendNotification` settles with. Where `res.ok` holds, the body is that of an ingest. -/
def settle : Option Response → Settled
  | some ⟨status, .ingested resp⟩ =>
    if 200 ≤ status ∧ status ≤ 299 then .fulfilled ⟨resp.deliveryId, resp.status, if resp.duplicate then some true else none⟩
    else .rejected
  | _ => .rejected

/-- What the API does for a request of the client, and what the client hears of it. -/
inductive Sent (s : Server) (apiKey : String) (req : SendNotificationReq) :
    List (Call s.params) → Option Response → Prop where
  /-- There is no key, or the request does not get there. -/
  | unsent : Sent s apiKey req [] none
  | lost {calls : List (Call s.params)} {resp : Response} (key : apiKey ≠ "")
      (served : Transcript (Answerable s.params) (s.handler (post req apiKey)) (calls.map Served.exchange) resp) :
      Sent s apiKey req calls none
  | answered {calls : List (Call s.params)} {resp : Response} (key : apiKey ≠ "")
      (served : Transcript (Answerable s.params) (s.handler (post req apiKey)) (calls.map Served.exchange) resp) :
      Sent s apiKey req calls (some resp)

/-! One request. -/

/-- The row says what the request says. -/
structure RowOf (j : Jsonb) (req : SendNotificationReq) (r : DeliveryRow) : Prop where
  channel : req.channel = some r.channel
  priority : req.priority = some r.priority
  idempotencyKey : r.idempotencyKey = req.idempotencyKey
  recipient : r.recipient = j.spell (recipientText req.recipient)

/-- One call stored a new delivery for the request, and no other wrote anything. -/
def Stored {p : Params} (req : SendNotificationReq) (calls : List (Call p)) : Prop :=
  ∃ before c after id r, calls = before ++ c :: after ∧ c.before.db.deliveries id = none ∧
    c.after.db.deliveries id = some r ∧ RowOf c.before.db.jsonb req r ∧ ∀ c' ∈ before ++ after, WroteNothing c'

/-- What the outcome of a request says of it. -/
structure Counted {p : Params} (req : SendNotificationReq) (calls : List (Call p)) (reply : Option Response) : Prop where
  valid : ∀ resp, reply = some resp → resp.status ≠ 400
  ok : sendOne (settle reply) = .ok → Stored req calls
  duplicate : sendOne (settle reply) = .duplicate → (∀ c ∈ calls, WroteNothing c) ∧ ∃ d ch, req.channel = some ch ∧
    ⟨.remote (.findByIdempotencyKey req.idempotencyKey ch), (.ok d : Except Err Delivery)⟩ ∈ calls.map Served.exchange
  fail : sendOne (settle reply) = .fail → reply = none ∨ ∀ c ∈ calls, WroteNothing c ∨ AnswerLost c

section
variable {p : Params} {s : Server} {req : SendNotificationReq} {apiKey : String} {calls : List (Call s.params)}
  {resp : Response} {reply : Option Response}

/-- The row of a request. -/
theorem ready_row (h : req.Ready) {j : Jsonb} {id : String} {r : DeliveryRow}
    (hr : (req.body.decode.spelled j).Asks (scanDelivery id r)) : RowOf j req r := by
  obtain ⟨ch, hch⟩ := h.channel
  obtain ⟨pri, hpri⟩ := h.priority
  have hchannel : parseChannel req.body.decode.channel = .ok r.channel := hr.channel
  have hpriority : parsePriority req.body.decode.priority = .ok r.priority := hr.priority
  simp only [SendNotificationReq.body, IngestBody.decode, hch, hpri] at hchannel hpriority
  refine ⟨?_, ?_, hr.idempotencyKey, hr.recipient⟩
  · rw [hch]
    exact congrArg some (Except.ok.inj ((parseChannel_text ch).symm.trans hchannel))
  · rw [hpri]
    exact congrArg some (Except.ok.inj ((parsePriority_text pri).symm.trans hpriority))

theorem stored_of_once (h : req.Ready) {id : String} (hstored : StoredOnce req.body.decode calls id) :
    Stored req calls := by
  obtain ⟨before, c, after, hcalls, hc, hothers⟩ := hstored
  obtain ⟨r, hr, hasks⟩ := hc.stored
  exact ⟨before, c, after, id, r, hcalls, hc.new, hr, ready_row h hasks, hothers⟩

/-- The key and channel a request registers. -/
theorem ready_registers (h : req.Ready) {key : String} {ch : Channel} (hr : req.body.decode.Registers key ch) :
    key = req.idempotencyKey ∧ req.channel = some ch := by
  obtain ⟨ch', hch⟩ := h.channel
  obtain ⟨-, hkey, hchannel⟩ := hr
  simp only [SendNotificationReq.body, IngestBody.decode, hch] at hchannel
  rw [hch]
  exact ⟨hkey.symm, congrArg some (Except.ok.inj ((parseChannel_text ch').symm.trans hchannel))⟩

/-- An error response. -/
theorem counted_failed {status : Nat} {e : Err} (hstatus : status ≠ 400)
    (hunstored : ∀ c ∈ calls, WroteNothing c ∨ AnswerLost c) : Counted req calls (some (writeError status e)) := by
  refine ⟨?_, fun hout => ?_, fun hout => ?_, fun _ => .inr hunstored⟩
  · intro resp hresp
    cases hresp
    exact hstatus
  · cases hout
  · cases hout

/-- A response of the API. -/
theorem counted_answered (h : req.Ready)
    (hserved : Transcript (Answerable s.params) (s.handler (post req apiKey)) (calls.map Served.exchange) resp) :
    Counted req calls (some resp) := by
  have hanswer : s.Answer (post req apiKey) (calls.map Served.exchange) resp :=
    obeys_iff_transcripts.mp (logged_handler s _) _ resp hserved
  obtain ⟨req', hv⟩ := (validate_decode req.body).mpr (ready_valid h)
  generalize hlog : calls.map Served.exchange = log at hanswer
  cases hanswer with
  | preflight method => exact absurd (show "POST" = "OPTIONS" from method) (by decide)
  | unauthorized guarded refused =>
    obtain rfl := List.map_eq_nil_iff.mp hlog
    exact counted_failed (by decide) fun _ hc => absurd hc List.not_mem_nil
  | ingest route key answer =>
    cases answer with
    | unread body => cases body
    | invalid body invalid =>
      cases body
      rw [hv] at invalid
      cases invalid
    | @created _ d _ body asks stored =>
      cases body
      subst hlog
      refine ⟨?_, fun _ => stored_of_once h (storedOnce asks stored), fun hout => ?_, fun hout => ?_⟩
      · intro resp hresp
        cases hresp
        exact show (202 : Nat) ≠ 400 by decide
      · cases hout
      · cases hout
    | @known _ d _ _ _ body own found outrun =>
      cases body
      subst hlog
      obtain ⟨rfl, hch⟩ := ready_registers h own
      have hquiet := wroteNothing_of_outrun outrun
      refine ⟨?_, fun hout => ?_, fun _ => ⟨hquiet, d, _, hch, found⟩, fun _ => .inr fun c hc => .inl (hquiet c hc)⟩
      · intro resp hresp
        cases hresp
        exact show (200 : Nat) ≠ 400 by decide
      · cases hout
    | failed body fails unstored =>
      subst hlog
      exact counted_failed (by decide) (wroteNothing_or_lost unstored)
  | replay route key answer => cases route
  | unnamed route id => cases route
  | shown route found => cases route
  | unshown route found => cases route

theorem counted (h : req.Ready) (hsent : Sent s apiKey req calls reply) : Counted req calls reply := by
  have hsilent : ∀ calls : List (Call s.params), Counted req calls none := by
    intro calls
    refine ⟨fun _ hresp => ?_, fun hout => ?_, fun hout => ?_, fun _ => .inl rfl⟩
    · cases hresp
    · cases hout
    · cases hout
  cases hsent with
  | unsent => exact hsilent []
  | lost key served => exact hsilent calls
  | answered key served => exact counted_answered h served

end

/-! A run. -/

/-- How a run of the panel ends with `r`, where `f` says how each `send` settles. -/
inductive Ran {Req : Type} (job : Job Req) (f : Nat → Settled) (r : LoadRunResult) : Prop where
  | parallel {p₀ p : Pool Req} {acts : List Act} (starts : runParallel job = .ok p₀) (runs : p₀.run job acts = some p)
      (settles : ∀ w i v, .settle w i v ∈ acts → v = f i) (ends : p.resolved job = some r)
  | sequential {staggerMs : Int} {fuel : Nat} (enough : job.count < fuel)
      (ends : runSequential job staggerMs f fuel = some (.ok r))

theorem ran_tally {Req : Type} {job : Job Req} {f : Nat → Settled} {r : LoadRunResult} (hcount : job.count ≤ 2 ^ 53)
    (hreport : ∀ r, job.onProgress r = .ok ()) (h : Ran job f r) (o : Outcome) : r.tally o = expected f o job.count := by
  cases h with
  | @parallel p₀ p acts starts runs settles ends =>
    unfold runParallel at starts
    split at starts
    · cases starts
    cases starts
    have hstart := sound_spawn hcount job.limit (sound_start job)
    obtain ⟨hsound, hlength, -⟩ := run_sound hcount hreport hstart runs
    have hworkers : 0 < p.workers.length := by
      rw [hlength, length_spawn]
      exact Nat.lt_of_lt_of_le (Nat.lt_of_lt_of_le Nat.one_pos (Nat.le_max_left _ _)) (Nat.le_add_left _ _)
    have hzero : Pool.Balanced ⟨job.start, 0, []⟩ (.outcome f o) := by cases o <;> rfl
    have hf : ∀ w i v, .settle w i v ∈ acts → sendOne v = sendOne (f i) := by
      intro w i v hact
      rw [settles w i v hact]
    exact hsound.tally_eq hworkers (run_balanced hcount hreport hf o hstart (balanced_spawn job.limit hzero) runs) ends
  | @sequential staggerMs fuel enough ends =>
    obtain ⟨r', hends, htally⟩ := runSequential_ends hcount hreport staggerMs f enough
    rw [hends] at ends
    cases ends
    exact htally o

/-- A run of the panel: `now` is the text of `Date.now()`, and `draws i` is drawn for the i-th request. -/
structure PanelRun where
  scenario : LoadScenarioId
  edits : List Edit
  now : Short 16
  draws : Nat → Draws
  count : Nat
  concurrency : Nat
  /-- `performance.now()`. -/
  clock : Nat → Int

/-- `runScenario`. Its `onProgress` sets the state of the panel. -/
def PanelRun.job (run : PanelRun) : Job SendNotificationReq where
  count := run.count
  concurrency := run.concurrency
  build i := buildScenarioRequest run.scenario (edited run.edits) i (sharedKey run.scenario run.now) (run.draws i)
  onProgress _ := .ok ()
  now := run.clock

/-- For how many of the first `n` requests a delivery was stored. -/
def storedCount {p : Params} (calls : Nat → List (Call p)) (n : Nat) : Nat :=
  (List.range n).countP fun i => (calls i).any stores

/-- What the panel shows at the end, held against what the API has done. -/
structure Shown {p : Params} (job : Job SendNotificationReq) (calls : Nat → List (Call p))
    (reply : Nat → Option Response) (r : LoadRunResult) : Prop where
  each : ∀ i < job.count, Counted (job.build i) (calls i) (reply i)
  sum : r.ok + r.fail + r.duplicates = job.count
  accepted : r.ok ≤ storedCount calls job.count
  duplicates : storedCount calls job.count + r.duplicates ≤ job.count
  answered : (∀ i < job.count, reply i ≠ none ∧ ∀ c ∈ calls i, ¬ AnswerLost c) → r.ok = storedCount calls job.count

section
variable {p : Params} {req : SendNotificationReq} {calls : List (Call p)}

theorem stores_stored (h : Stored req calls) : calls.any stores = true := by
  obtain ⟨before, c, after, id, r, rfl, hnone, hsome, -⟩ := h
  refine List.any_eq_true.mpr ⟨c, List.mem_append_right _ List.mem_cons_self, stores_iff.mpr ⟨id, hnone, ?_⟩⟩
  rw [hsome]
  exact Option.some_ne_none r

theorem stores_wrote {c : Call p} (h : stores c = true) : ¬ WroteNothing c := by
  intro hnothing
  obtain ⟨id, hnone, hsome⟩ := stores_iff.mp h
  rw [hnothing.db] at hsome
  exact hsome hnone

/-- What the API has stored was counted as accepted, or an answer was lost. -/
theorem Counted.of_stores {reply : Option Response} (h : Counted req calls reply) (hstores : calls.any stores = true) :
    sendOne (settle reply) = .ok ∨ sendOne (settle reply) = .fail ∧ (reply = none ∨ ∃ c ∈ calls, AnswerLost c) := by
  obtain ⟨c, hc, hstored⟩ := List.any_eq_true.mp hstores
  have hwrote := stores_wrote hstored
  cases hout : sendOne (settle reply) with
  | ok => exact .inl rfl
  | duplicate => exact absurd ((h.duplicate hout).1 c hc) hwrote
  | fail =>
    refine .inr ⟨rfl, ?_⟩
    exact (h.fail hout).imp_right fun heach => ⟨c, hc, (heach c hc).resolve_left hwrote⟩

theorem countP_add_le {α : Type} {l : List α} {P Q : α → Bool} (h : ∀ x ∈ l, P x = true → Q x = false) :
    l.countP P + l.countP Q ≤ l.length := by
  have hnot : l.countP P ≤ l.countP fun x => ! Q x := by
    apply List.countP_mono_left
    intro x hx hp
    rw [h x hx hp]
    rfl
  have hlength := List.length_eq_countP_add_countP Q (l := l)
  simp only [Bool.not_eq_true, Bool.decide_eq_false] at hlength
  omega

theorem expected_sum (f : Nat → Settled) (n : Nat) : expected f .ok n + expected f .fail n + expected f .duplicate n = n := by
  induction n with
  | zero => rfl
  | succ n ih =>
    rw [expected_succ, expected_succ, expected_succ]
    cases sendOne (f n) <;> simp <;> omega

/-- Whatever the edits and the draws, whatever the API meets and in whatever order the answers come. -/
theorem panel_shows (run : PanelRun) (s : Server) (apiKey : String) (calls : Nat → List (Call s.params))
    (reply : Nat → Option Response) {r : LoadRunResult} (hcount : run.count ≤ 2 ^ 53)
    (hsent : ∀ i, Sent s apiKey (run.job.build i) (calls i) (reply i))
    (hran : Ran run.job (fun i => settle (reply i)) r) : Shown run.job calls reply r := by
  have heach : ∀ i, Counted (run.job.build i) (calls i) (reply i) := fun i =>
    counted (scenario_ready (edited_pooled run.edits) run.scenario run.now i (run.draws i)) (hsent i)
  have htally := ran_tally hcount (fun _ => rfl) hran
  have hok : r.ok = expected (fun i => settle (reply i)) .ok run.count := htally .ok
  have hfail : r.fail = expected (fun i => settle (reply i)) .fail run.count := htally .fail
  have hdup : r.duplicates = expected (fun i => settle (reply i)) .duplicate run.count := htally .duplicate
  have hstored : ∀ i, sendOne (settle (reply i)) = .ok → (calls i).any stores = true :=
    fun i hout => stores_stored ((heach i).ok hout)
  have haccepted : r.ok ≤ storedCount calls run.count := by
    rw [hok]
    exact List.countP_mono_left fun i _ hout => hstored i (of_decide_eq_true hout)
  refine ⟨fun i _ => heach i, ?_, haccepted, ?_, fun hanswered => Nat.le_antisymm haccepted ?_⟩
  · rw [hok, hfail, hdup]
    exact expected_sum _ run.count
  · rw [hdup]
    refine (countP_add_le fun i _ hstores => ?_).trans_eq List.length_range
    show decide (sendOne (settle (reply i)) = .duplicate) = false
    rcases (heach i).of_stores hstores with hout | ⟨hout, -⟩ <;> rw [hout] <;> rfl
  · rw [hok]
    apply List.countP_mono_left
    intro i hi hstores
    obtain ⟨hreply, hcalls⟩ := hanswered i (List.mem_range.mp hi)
    refine decide_eq_true (((heach i).of_stores hstores).resolve_right fun hlost => ?_)
    obtain ⟨-, hnone | ⟨c, hc, hc'⟩⟩ := hlost
    · exact hreply hnone
    · exact hcalls c hc hc'

end

def sampleDraws : Draws where
  random := ⟨"x1y2z3", by decide⟩
  time := ⟨"abcd", by decide⟩
  channel := ⟨0, by decide, by decide⟩
  priority := ⟨0, by decide, by decide⟩
  address := ⟨0, by decide, by decide⟩

/-- Two requests after two edits, one after the other. -/
def sampleRun : PanelRun where
  scenario := .staggered
  edits := [.toggle .sms false, .address "fail-circuit@example.com"]
  now := ⟨"1700000000000", by decide⟩
  draws _ := sampleDraws
  count := 2
  concurrency := 1
  clock n := n

/-- Each is sent to an empty store. -/
theorem panel_shows_sample : ∃ (calls : Nat → List (Call keyedServer.params)) (reply : Nat → Option Response)
    (r : LoadRunResult), Ran sampleRun.job (fun i => settle (reply i)) r ∧ r.ok = 2 ∧
      Shown sampleRun.job calls reply r := by
  have hrun : (CallTree.solo (fun op => answer keyedServer.params op (alone op))
      (keyedServer.handler (post (sampleRun.job.build 0) "dev-api-key")) (World.empty {})).map
        (fun res => sendOne (settle (some res.1))) = some .ok := by
    decide +kernel
  obtain ⟨⟨resp, w⟩, hsolo, hout⟩ := Option.map_eq_some_iff.mp hrun
  obtain ⟨calls, hcalls⟩ := transcript_alone hsolo
  have hcount : sampleRun.job.count ≤ 2 ^ 53 := by decide
  obtain ⟨r, hends, htally⟩ := runSequential_ends hcount (fun _ => rfl) 0 (fun _ => settle (some resp))
    (show sampleRun.job.count < 3 by decide)
  have hran : Ran sampleRun.job (fun _ => settle (some resp)) r := .sequential (by decide) hends
  have hok : r.ok = expected (fun _ => settle (some resp)) .ok 2 := htally .ok
  refine ⟨fun _ => calls, fun _ => some resp, r, hran, ?_, ?_⟩
  · rw [hok, expected_succ, expected_succ, hout]
    rfl
  · exact panel_shows sampleRun keyedServer "dev-api-key" (fun _ => calls) (fun _ => some resp) hcount
      (fun _ => .answered (by decide) hcalls) hran

end LoadTest
end GoCourier
