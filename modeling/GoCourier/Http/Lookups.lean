import GoCourier.Http.Auth
import GoCourier.Outcomes.Replay
import GoCourier.Outcomes.Rounds

/- Lookups of rows that are not there. `FindByIdempotencyKey` and `Detail` turn pgx's
   `ErrNoRows` into `ErrNotFound`; `FindByID` hands it on as it is. So the replay endpoint
   answers as it should for the deliveries there are, and 500 for those there are not. -/
namespace GoCourier

open Interleave

/-- The lookup ends in `ErrNotFound` exactly where there is nothing to find. -/
def ReportsMissing {α : Type} (res : Except Err α) (found : Prop) : Prop :=
  (∃ e, res = .error e ∧ e.is .notFound = true) ↔ ¬ found

/-- The key is registered at `now`, for a delivery that is stored. -/
def Tables.Live (t : Tables) (now : Time) (key : String) (ch : Channel) : Prop :=
  ∃ ik, t.idempotencyKeys (key, ch) = some ik ∧ now < ik.expiresAt ∧ t.deliveries ik.deliveryId ≠ none

/-- The three lookups report what is missing. -/
def Tables.LookupsReport (t : Tables) (now : Time) (id : String) : Prop :=
  ReportsMissing (t.findByID id) (t.deliveries id ≠ none) ∧
    (∀ key ch, ReportsMissing (t.findByIdempotencyKey now key ch) (t.Live now key ch)) ∧
    ReportsMissing (t.detail id) (t.deliveries id ≠ none)

/-- The status code says whether the delivery exists and could be replayed. -/
def ReplayAnswered (t : Tables) (id : String) (status : Nat) : Prop :=
  (status = 404 ↔ t.deliveries id = none) ∧
    (status = 200 ↔ ∃ r, t.deliveries id = some r ∧ (r.status = .dlq ∨ r.status = .failed)) ∧
    (status = 200 ∨ 400 ≤ status)

section
variable {t : Tables} {now : Time} {id key : String} {ch : Channel}

theorem reportsMissing_ok {α : Type} {a : α} {found : Prop} (h : found) : ReportsMissing (.ok a : Except Err α) found := by
  apply iff_of_false
  · rintro ⟨e, he, -⟩
    cases he
  · exact not_not.mpr h

theorem reportsMissing_notFound {α : Type} {found : Prop} (h : ¬ found) :
    ReportsMissing (.error errNotFound : Except Err α) found :=
  iff_of_true ⟨errNotFound, rfl, rfl⟩ h

theorem findByIdempotencyKey_reports : ReportsMissing (t.findByIdempotencyKey now key ch) (t.Live now key ch) := by
  unfold Tables.findByIdempotencyKey Tables.Live
  cases hik : t.idempotencyKeys (key, ch) with
  | none =>
    apply reportsMissing_notFound
    rintro ⟨ik, hsome, -⟩
    cases hsome
  | some ik =>
    simp only []
    split
    · rename_i hlive
      cases hrow : t.deliveries ik.deliveryId with
      | none =>
        apply reportsMissing_notFound
        rintro ⟨ik', hsome, -, hstored⟩
        cases hsome
        exact hstored hrow
      | some r => exact reportsMissing_ok ⟨ik, rfl, hlive, by rw [hrow]; exact Option.some_ne_none r⟩
    · rename_i hexpired
      apply reportsMissing_notFound
      rintro ⟨ik', hsome, hlive, -⟩
      cases hsome
      exact hexpired hlive

theorem detail_reports : ReportsMissing (t.detail id) (t.deliveries id ≠ none) := by
  unfold Tables.detail detailOver
  cases hrow : t.deliveries id with
  | none => exact reportsMissing_notFound (not_not.mpr rfl)
  | some r => exact reportsMissing_ok (Option.some_ne_none r)

/-- `FindByID` reports nothing as missing. -/
theorem findByID_reports_iff : ReportsMissing (t.findByID id) (t.deliveries id ≠ none) ↔ t.deliveries id ≠ none := by
  unfold Tables.findByID
  cases hrow : t.deliveries id with
  | none =>
    apply iff_of_false
    · intro hreports
      obtain ⟨e, he, hnot⟩ := hreports.mpr (not_not.mpr rfl)
      cases he
      revert hnot
      decide
    · exact not_not.mpr rfl
  | some r => exact iff_of_true (reportsMissing_ok (Option.some_ne_none r)) (Option.some_ne_none r)

end

section
variable {w : World} {s : Server} {r : Request} {row : DeliveryRow}

theorem ensures_publish_notification {p : Params} {env : Env Op Ans World} {w : World} {ch : Channel} {pri : Priority}
    {body : Body} {headers : Headers}
    [Serves p env (.remote (.publish (notificationSubject p.streamPrefix ch pri) body headers))]
    {Q : Except Err Unit → World → Prop} (hQ : ∀ w', w'.db = w.db → Q (.ok ()) w') :
    Ensures env (MessageBroker.publish (notificationSubject p.streamPrefix ch pri) body headers).run w Q := by
  apply ensures_remote.mpr
  intro w' hpass
  simp only [exec, publish_notification] at hpass ⊢
  exact hQ w' hpass.db

/-- A delivery that can be replayed is, and the answer is 200. -/
theorem ensures_replayed (hid : r.id ≠ "") (hrow : w.db.deliveries r.id = some row)
    (hst : row.status = .dlq ∨ row.status = .failed) :
    Ensures (served s.params) (s.handleReplay r) w fun resp _ => resp.status = 200 := by
  have h : w.db.Has r.id row (w.db.attemptNumbers r.id) := ⟨hrow, rfl⟩
  unfold Server.handleReplay
  rw [if_neg hid, ensures_bind]
  unfold replayDelivery
  rw [ensures_bindE]
  apply ensures_findByID h
  intro w₁ hdb₁
  simp only []
  rw [ensures_bindE]
  apply ensures_now.mpr
  intro w₂ hpass
  have hreplay := replay_replayable (show (scanDelivery r.id row).status = .dlq ∨
    (scanDelivery r.id row).status = .failed from hst) w₁.clock
  simp only [hreplay]
  rw [ensures_bindE]
  apply ensures_update (h.of_db (hpass.db.trans hdb₁)) rfl
  intro w₃ h₃
  simp only []
  rw [ensures_bindE]
  apply ensures_publish_notification
  intro w₄ hdb₄
  apply ensures_append (h₃.of_db hdb₄)
  intro w₅ h₅
  rfl

/-- Any other is refused, and the answer is 500. -/
theorem ensures_refused (hid : r.id ≠ "") (hrow : w.db.deliveries r.id = some row)
    (hst : ¬ (row.status = .dlq ∨ row.status = .failed)) :
    Ensures (served s.params) (s.handleReplay r) w fun resp _ => resp.status = 500 := by
  have h : w.db.Has r.id row (w.db.attemptNumbers r.id) := ⟨hrow, rfl⟩
  unfold Server.handleReplay
  rw [if_neg hid, ensures_bind]
  unfold replayDelivery
  rw [ensures_bindE]
  apply ensures_findByID h
  intro w₁ hdb₁
  simp only []
  rw [ensures_bindE]
  apply ensures_now.mpr
  intro w₂ hpass
  have hreplay : (scanDelivery r.id row).replay w₁.clock = .error ⟨"cannot replay from status " ++ row.status.text, []⟩ :=
    if_pos (not_or.mp hst)
  simp only [hreplay]
  rfl

/-- A delivery that is not there is answered 500 as well. -/
theorem ensures_missing (hid : r.id ≠ "") (hrow : w.db.deliveries r.id = none) :
    Ensures (served s.params) (s.handleReplay r) w fun resp _ => resp.status = 500 := by
  have hfind : w.db.findByID r.id = .error errNoRows := by
    rw [Tables.findByID, hrow]
  unfold Server.handleReplay
  rw [if_neg hid, ensures_bind]
  unfold replayDelivery
  rw [ensures_bindE]
  apply ensures_remote.mpr
  intro w' hpass
  simp only [exec, hfind]
  rfl

end

/-- For every store and every id: the lookups report what is missing, and the replay endpoint's status code says what
    became of the delivery, exactly when there is a delivery of that id. -/
theorem missing_reported_iff (w : World) (s : Server) (r : Request) (hpost : r.method = "POST") (hroute : r.pattern = .replay)
    (hid : r.id ≠ "") (hruns : s.Runs r) :
    (w.db.LookupsReport w.clock r.id ∧
        Ensures (served s.params) (s.handler r) w fun resp _ => ReplayAnswered w.db r.id resp.status) ↔
      w.db.deliveries r.id ≠ none := by
  rw [handler_replay hpost hroute hruns]
  constructor
  · intro h
    exact findByID_reports_iff.mp h.1.1
  · intro hstored
    obtain ⟨row, hrow⟩ := Option.ne_none_iff_exists'.mp hstored
    refine ⟨⟨findByID_reports_iff.mpr hstored, fun _ _ => findByIdempotencyKey_reports, detail_reports⟩, ?_⟩
    by_cases hst : row.status = .dlq ∨ row.status = .failed
    · refine ensures_mono (fun resp _ hstatus => ?_) _ _ (ensures_replayed hid hrow hst)
      rw [hstatus]
      refine ⟨?_, ?_, .inl rfl⟩
      · exact iff_of_false (by decide) hstored
      · exact iff_of_true rfl ⟨row, hrow, hst⟩
    · refine ensures_mono (fun resp _ hstatus => ?_) _ _ (ensures_refused hid hrow hst)
      rw [hstatus]
      refine ⟨?_, ?_, .inr (by decide)⟩
      · exact iff_of_false (by decide) hstored
      · apply iff_of_false (by decide)
        rintro ⟨row', hrow', hst'⟩
        cases hrow.symm.trans hrow'
        exact hst hst'

/-- A server with one key, and a request to replay `d1` that presents it. -/
def keyedServer : Server := newServer {} (fun _ => .error errNotFound) ["dev-api-key"] ""

def replayRequest : Request where
  pattern := .replay
  id := "d1"
  header name := if name = "X-API-Key" then "dev-api-key" else ""

theorem keyedServer_runs : keyedServer.Runs replayRequest := runs_iff.mpr (by decide)

/-- A delivery that is stored and queued: it is found, and the replay is answered neither 404 nor 200. -/
theorem missing_reported_iff_sample :
    (queuedWorld {}).db.LookupsReport (queuedWorld {}).clock "d1" ∧
      Ensures (served {}) (keyedServer.handler replayRequest) (queuedWorld {}) fun resp _ =>
        resp.status ≠ 404 ∧ resp.status ≠ 200 := by
  have hstored : (queuedWorld {}).db.deliveries "d1" = some queuedRow := rfl
  obtain ⟨hlookups, hanswered⟩ := (missing_reported_iff (queuedWorld {}) keyedServer replayRequest rfl rfl (by decide)
    keyedServer_runs).mpr (by decide)
  refine ⟨hlookups, ensures_mono (fun resp _ hcode => ⟨fun hmissing => ?_, fun hreplayed => ?_⟩) _ _ hanswered⟩
  · cases hstored.symm.trans (hcode.1.mp hmissing)
  · obtain ⟨r, hr, hst⟩ := hcode.2.1.mp hreplayed
    cases hstored.symm.trans hr
    revert hst
    decide

/-- Where nothing is stored the endpoint answers 500, not 404. -/
theorem missing_replay_not_404 :
    (World.empty {}).db.deliveries "d1" = none ∧
      ¬ ReportsMissing ((World.empty {}).db.findByID "d1") ((World.empty {}).db.deliveries "d1" ≠ none) ∧
      Ensures (served {}) (keyedServer.handler replayRequest) (World.empty {}) (fun resp _ => resp.status = 500) ∧
      ¬ Ensures (served {}) (keyedServer.handler replayRequest) (World.empty {}) fun resp _ =>
        ReplayAnswered (World.empty {}).db "d1" resp.status := by
  have hmissing : Ensures (served {}) (keyedServer.handler replayRequest) (World.empty {})
      fun resp _ => resp.status = 500 := by
    have hstatus := ensures_missing (w := World.empty {}) (s := keyedServer) (r := replayRequest) (by decide) rfl
    rwa [← handler_replay rfl rfl keyedServer_runs] at hstatus
  refine ⟨rfl, ?_, hmissing, ?_⟩
  · intro hreports
    exact findByID_reports_iff.mp hreports rfl
  · intro hanswered
    obtain ⟨resp, w', hstatus, hcode⟩ := ensures_consistent _ _ (ensures_and _ _ hmissing hanswered)
    have hnot := hcode.1.mpr rfl
    rw [hstatus] at hnot
    revert hnot
    decide

end GoCourier
