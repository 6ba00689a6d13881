import GoCourier.Content.Routed
import GoCourier.Registry.Race
import GoCourier.Store.Dashboard

/- What an accepted request may count on. Once an `Ingest` has returned without an error,
   the delivery it named can be read at the dashboard for good: it is the one delivery of
   its key and channel, whoever asks for them again, its timeline has one received event,
   and unless the answer was a duplicate it says what the request said, its JSON texts in
   the database's spelling.

   The timeline is in the order of the creation times, so it opens with the received event
   only where the clock of the database was not set back meanwhile. -/
namespace GoCourier

open Interleave

/-- The events of a delivery start with its received event, which is the only one. -/
def Begins (events : List (DomainEventType × AuditPayload)) : Prop :=
  ∃ rest, events = (.received, []) :: rest ∧ ∀ e ∈ rest, e.1 ≠ .received

/-- The audit events of `x`, in the order they were appended. -/
def Tables.events (t : Tables) (x : String) : List (DomainEventType × AuditPayload) :=
  (t.audit.filter (·.deliveryId = x)).map fun r => (r.eventType, r.payload)

/-- The timeline the dashboard shows. -/
def DeliveryDetail.events (det : DeliveryDetail) : List (DomainEventType × AuditPayload) :=
  det.audit.map fun r => (r.eventType, r.payload)

/-- The audit rows of `x` were created one after the other. -/
def Tables.InTurn (t : Tables) (x : String) : Prop :=
  (t.audit.filter (·.deliveryId = x)).Pairwise (·.createdAt < ·.createdAt)

/-- The request of an ingest that has returned without an error, and what it returned. -/
def acceptedAs : Option (Thread Op Ans Task Result Phase) → Option (IngestRequest × IngestResponse)
  | some ⟨.ingest req, _, .done (.response (.ok resp))⟩ => some (req, resp)
  | _ => none

theorem acceptedAs_some {th : Option (Thread Op Ans Task Result Phase)} {req : IngestRequest} {resp : IngestResponse}
    (h : acceptedAs th = some (req, resp)) : ∃ φ, th = some ⟨.ingest req, φ, .done (.response (.ok resp))⟩ := by
  unfold acceptedAs at h
  split at h
  · cases h
    exact ⟨_, rfl⟩
  · cases h

/-- What an ingest has in hand when it returns is what it was asked for, and so is what it has stored. -/
structure Accepting (p : Params) (s : System) : Prop where
  faithful : Faithful p s
  found : ∀ t req d prog, s.threads t = some ⟨.ingest req, .ingest (.found d), prog⟩ →
    req.Registers d.idempotencyKey d.channel
  committed : ∀ t req d prog, s.threads t = some ⟨.ingest req, .ingest (.committed d), prog⟩ →
    req.Asks d ∧ s.state.db.HoldsAsked p.jsonb req d.id
  opened : ∀ x, s.state.db.deliveries x ≠ none → Begins (s.state.db.events x)

/-! The audit log. -/

section
variable {p : Params} {s s' : System} {l : Act} {t t' : Tables} {x : String}

theorem events_append {id : String} {ev : DomainEventType} {payload : AuditPayload} {now : Time}
    (h : t'.audit = t.audit ++ [⟨⟨id, ev, payload⟩, now⟩]) (x : String) :
    t'.events x = t.events x ++ if id = x then [(ev, payload)] else [] := by
  unfold Tables.events
  rw [h, List.filter_append, List.map_append]
  by_cases hx : id = x <;> simp [hx]

theorem events_congr (h : t'.audit = t.audit) (x : String) : t'.events x = t.events x := by
  unfold Tables.events
  rw [h]

/-- Nothing is said of a delivery that is not stored. -/
theorem events_unstored (hl : t.Linked) (hx : t.deliveries x = none) : t.events x = [] := by
  unfold Tables.events
  rw [List.map_eq_nil_iff, List.filter_eq_nil_iff]
  intro r hr hrx
  obtain rfl := of_decide_eq_true hrx
  exact hl.audit r hr (Tables.owner_eq_none.mpr hx)

theorem begins_append {events : List (DomainEventType × AuditPayload)} (h : Begins events) {ev : DomainEventType}
    {payload : AuditPayload} (hev : ev ≠ .received) : Begins (events ++ [(ev, payload)]) := by
  obtain ⟨rest, rfl, hrest⟩ := h
  refine ⟨rest ++ [(ev, payload)], rfl, fun e he => ?_⟩
  rcases List.mem_append.mp he with hold | hnew
  · exact hrest e hold
  · obtain rfl := List.mem_singleton.mp hnew
    exact hev

theorem begins_once {events : List (DomainEventType × AuditPayload)} (h : Begins events) :
    events.countP (·.1 = .received) = 1 := by
  obtain ⟨rest, rfl, hrest⟩ := h
  have hnone : rest.countP (·.1 = .received) = 0 := by
    rw [List.countP_eq_zero]
    exact fun e he hev => hrest e he (of_decide_eq_true hev)
  rw [List.countP_cons_of_pos (by rfl), hnone]

/-- The timeline has the events of the table. -/
theorem detail_events {row attempts outbox : Tables} {det : DeliveryDetail}
    (h : detailOver row attempts t outbox x = .ok det) : det.events.Perm (t.events x) ∧
      (t.InTurn x → det.events = t.events x) := by
  unfold detailOver at h
  split at h
  · split at h <;> cases h
  · cases h
    refine ⟨(List.perm_insertionSort ..).map _, fun hturn => ?_⟩
    have hsorted := hturn.imp fun {_ _} hlt => Int.le_of_lt hlt
    exact congrArg (List.map _) hsorted.insertionSort_eq

/-- The outbox rows it lists are letters of the delivery. -/
theorem detail_outbox {row attempts audit : Tables} {det : DeliveryDetail}
    (h : detailOver row attempts audit t x = .ok det) {o : OutboxStatusRow} (ho : o ∈ det.outbox) :
    ∃ m ∈ t.letters, m.deliveryId = x ∧ m.subject = o.subject := by
  unfold detailOver at h
  split at h
  · split at h <;> cases h
  · cases h
    obtain ⟨r, hr, rfl⟩ := List.mem_map.mp ho
    obtain ⟨hr, hid⟩ := List.mem_filter.mp ((List.mem_insertionSort _).mp hr)
    exact ⟨r.letter, List.mem_map_of_mem hr, of_decide_eq_true hid, rfl⟩

/-- Its delivery is the stored row. -/
theorem detail_stored (attempts audit outbox : Tables) {r : DeliveryRow} (hrow : t.deliveries x = some r) :
    ∃ det, detailOver t attempts audit outbox x = .ok det ∧ det.delivery = scanDelivery x r := by
  unfold detailOver
  rw [hrow]
  exact ⟨_, rfl, rfl⟩

/-- No call appends another received event. -/
theorem append_not_received {k : Task} {φ : Phase} {id : String} {ev : DomainEventType} {payload : AuditPayload}
    (hm : May p k φ (.remote (.append id ev payload))) : ev ≠ .received := by
  cases φ with
  | worker φ =>
    obtain ⟨d, noted, -, -, hev⟩ := worker_may hm
    exact hev
  | replay φ =>
    cases k with
    | replay id =>
      obtain ⟨d, -, -, rfl⟩ := hm
      exact nofun
    | _ => exact hm.elim
  | tick φ =>
    cases k with
    | processDue =>
      obtain ⟨d, ids, -, -, rfl, -⟩ := hm
      exact nofun
    | _ => exact hm.elim
  | _ => cases k <;> exact hm.elim

theorem exec_audit (w : World) {q : Remote} (ha : ∀ id ev payload, q ≠ .append id ev payload)
    (hi : ∀ d exp subject payload headers schedule, q ≠ .ingestTransactional d exp subject payload headers schedule) :
    (exec p w q).2.db.audit = w.db.audit := by
  cases q with
  | update d => exact (Tables.update_rest w.db d).2.2.2
  | updateIfStatus d st =>
    exact Tables.updateIfStatus_keeps (P := (·.audit = w.db.audit)) rfl (Tables.update_rest w.db d).2.2.2 st
  | recordAttempt id a =>
    exact store_keeps (P := (·.audit = w.db.audit)) rfl fun t ht => by rw [Tables.recordAttempt_ok ht]
  | ingestTransactional d exp subject payload headers schedule => exact absurd rfl (hi d exp subject payload headers schedule)
  | enqueue id subject payload headers =>
    refine store_keeps (P := (·.audit = w.db.audit)) rfl fun t ht => ?_
    obtain ⟨-, rfl⟩ := Tables.enqueue_ok ht
    rfl
  | append id ev payload => exact absurd rfl (ha id ev payload)
  | publish subject body headers => exact congrArg Tables.audit (publish_db p w _)
  | _ => rfl

theorem opened_step (h : Accepting p s) (hs : (machine p).Step s l s') (hx : s'.state.db.deliveries x ≠ none) :
    Begins (s'.state.db.events x) := by
  have hsane := h.faithful.sane
  rcases db_step hs with hdb | ⟨t, c, k, φ, q, f, -, hth, -, hdb⟩
  · rw [hdb] at hx ⊢
    exact h.opened x hx
  have hm : May p k φ (.remote q) := hsane.conforms.may hth
  have hold : ¬ (Op.remote q).Stores → (exec p s.state q).2.db.deliveries x ≠ none → s.state.db.deliveries x ≠ none := by
    intro hq hx
    rw [ne_eq, ← Tables.owner_eq_none] at hx ⊢
    rwa [exec_owner hq] at hx
  rw [hdb] at hx ⊢
  cases q with
  | append id ev payload =>
    have hbefore := h.opened x (hold (fun hq => hq) hx)
    simp only [exec] at hx ⊢
    cases happ : s.state.db.append s.state.clock id ev payload with
    | error e => exact hbefore
    | ok t' =>
      rw [World.store, events_append (congrArg Tables.audit (Tables.append_ok happ).2)]
      split
      · exact begins_append hbefore (append_not_received hm)
      · rwa [List.append_nil]
  | ingestTransactional d exp subject payload headers schedule =>
    simp only [exec] at hx ⊢
    cases htx : s.state.db.ingestTransactional s.state.clock d exp subject payload headers schedule with
    | error e =>
      rw [htx] at hx
      exact h.opened x hx
    | ok t' =>
      rw [htx] at hx
      have hin := Tables.ingested_of_ok hsane.linked htx
      rw [World.store] at hx ⊢
      rw [events_append hin.audit]
      split
      · rename_i hid
        subst hid
        rw [events_unstored hsane.linked hin.new]
        refine ⟨[], rfl, fun e he => ?_⟩
        cases he
      · rename_i hid
        rw [hin.deliveries, Function.update_of_ne (Ne.symm hid)] at hx
        rw [List.append_nil]
        exact h.opened x hx
  | _ =>
    rw [events_congr (exec_audit s.state (by intro _ _ _ hq; cases hq) (by intro _ _ _ _ _ _ hq; cases hq))]
    exact h.opened x (hold (fun hq => hq) hx)

/-! What an ingest returns. -/

/-- A lookup returns the delivery of its key. -/
theorem lookup_names (hl : t.Linked) {now : Time} {key : String} {ch : Channel} {d : Delivery}
    (h : t.findByIdempotencyKey now key ch = .ok d) : d.idempotencyKey = key ∧ d.channel = ch := by
  obtain ⟨ik, hik, hid⟩ := lookup_ok h
  obtain ⟨r, hr, hsame⟩ := has_lookup h
  have howner := hl.registered _ ik hik
  rw [hid, Tables.owner, hr] at howner
  obtain ⟨hkey, hch⟩ := Prod.mk.inj (Option.some.inj howner)
  unfold Delivery.SameContent at hsame
  rw [hsame]
  exact ⟨hkey, hch⟩

/-- What a transaction has stored is what it was asked for. -/
theorem committed_row (h : Faithful p s) {t : Nat} {c : Choice} {req : IngestRequest}
    {φ : Phase} {d : Delivery} {exp : Time} {subject : String} {payload : Body} {headers : Headers} {schedule : Bool}
    {f : Ans (.remote (.ingestTransactional d exp subject payload headers schedule)) → CallTree Op Ans Result}
    (hth : s.threads t =
      some ⟨.ingest req, φ, .ask (.remote (.ingestTransactional d exp subject payload headers schedule)) f⟩)
    (hans : answer p (.remote (.ingestTransactional d exp subject payload headers schedule)) c s.state =
      some (.ok (), s'.state)) : s'.state.db.HoldsAsked p.jsonb req d.id := by
  obtain ⟨-, hexec⟩ := answered_ok (answer_cases hans)
  obtain ⟨r, hr, hsame⟩ := has_ingested (store_ok hexec)
  refine ⟨r, hr, asks_same ?_ hsame.symm⟩
  exact h.jsonb ▸ asks_stored s.state.db.jsonb (h.transaction hth).1

theorem accepting_step (h : Accepting p s) (hs : (machine p).Step s l s') : Accepting p s' where
  faithful := faithful_step h.faithful hs
  found := by
    intro t req d prog hth
    rcases ingest_origin h.faithful.sane.conforms hs hth with
      ⟨before, -⟩ | hstart | ⟨c, ψ, req', op, f, r, hk, label, running, answered, hmoves⟩
    · exact h.found t req d prog before
    · cases hstart
    · cases hk
      cases hmoves with
      | clock φ now => exact h.found t req d _ running
      | found looking own d =>
        obtain ⟨-, hexec⟩ := answered_ok (answer_cases answered)
        obtain ⟨hkey, hch⟩ := lookup_names h.faithful.sane.linked (congrArg Prod.fst hexec)
        rw [hkey, hch]
        exact own
  committed := by
    intro t req d prog hth
    have hgrows := (grows_step hs).db
    rcases ingest_origin h.faithful.sane.conforms hs hth with
      ⟨before, -⟩ | hstart | ⟨c, ψ, req', op, f, r, hk, label, running, answered, hmoves⟩
    · exact (h.committed t req d prog before).imp_right (holdsAsked_grows · hgrows)
    · cases hstart
    · cases hk
      cases hmoves with
      | clock φ now => exact (h.committed t req d _ running).imp_right (holdsAsked_grows · hgrows)
      | committed makes exp headers v =>
        exact ⟨(h.faithful.transaction running).1, committed_row h.faithful running answered⟩
  opened x hx := opened_step h hs hx

theorem init_accepting (p : Params) : Accepting p (System.init p) where
  faithful := init_faithful p
  found := by
    intro t req d prog hth
    cases hth
  committed := by
    intro t req d prog hth
    cases hth
  opened := by
    intro x hx
    exact absurd rfl hx

theorem reach_accepting {ok : System → Act → Prop} (hr : (machine p).Reach ok (System.init p) s) : Accepting p s :=
  hr.invariant (init_accepting p) fun _ _ _ h _ hs => accepting_step h hs

/-- The delivery that an ingest has named, as it is stored. -/
theorem accepted_row (h : Accepting p s) {t : Nat} {req : IngestRequest} {resp : IngestResponse}
    (hth : acceptedAs (s.threads t) = some (req, resp)) :
    ∃ r, s.state.db.deliveries resp.deliveryId = some r ∧ req.Registers r.idempotencyKey r.channel ∧
      (resp.duplicate = false → (req.spelled p.jsonb).Asks (scanDelivery resp.deliveryId r)) := by
  obtain ⟨φ, hth⟩ := acceptedAs_some hth
  have hend : Finished (.ingest req) φ _ := h.faithful.sane.conforms.ends hth
  cases φ with
  | ingest φ =>
    rcases hend with ⟨d, rfl, rfl⟩ | ⟨d, rfl, rfl⟩
    -- the copy that was looked up is what the row says
    · obtain ⟨r, hr, hsame⟩ := h.faithful.hands t _ d hth rfl
      have hreg := h.found t req d _ hth
      unfold Delivery.SameContent at hsame
      rw [hsame] at hreg
      exact ⟨r, hr, hreg, fun hdup => by cases hdup⟩
    · obtain ⟨hasks, r, hr, hstored⟩ := h.committed t req d _ hth
      exact ⟨r, hr, ⟨hasks.valid, hstored.idempotencyKey.symm, hstored.channel⟩, fun _ => hstored⟩
  | _ => exact hend.elim

/-- The channel and priority of a delivery stay. -/
theorem subject_later {d : Delivery} {r : DeliveryRow} (hrow : t.deliveries d.id = some r) (hgrows : t.Grows t')
    (hd : t'.Carries d) :
    notificationSubject p.streamPrefix d.channel d.priority = notificationSubject p.streamPrefix r.channel r.priority := by
  obtain ⟨r', hr', hsame⟩ := hd
  obtain ⟨r'', hr'', hlater⟩ := hgrows.deliveries _ _ hrow
  rw [hr'] at hr''
  cases hr''
  unfold Delivery.SameContent at hsame
  unfold DeliveryRow.Later at hlater
  rw [hsame, hlater]
  rfl

/-- Requests for one key and channel have been given one id. -/
theorem accepted_same (h : Accepting p s) {t u : Nat} {req req' : IngestRequest} {resp resp' : IngestResponse}
    (hth : acceptedAs (s.threads t) = some (req, resp)) (hu : acceptedAs (s.threads u) = some (req', resp'))
    {key : String} {ch : Channel} (hkey : req.Registers key ch) (hkey' : req'.Registers key ch) :
    resp'.deliveryId = resp.deliveryId := by
  have hregistered : ∀ {t : Nat} {req : IngestRequest} {resp : IngestResponse},
      acceptedAs (s.threads t) = some (req, resp) → req.Registers key ch →
        ∃ ik, s.state.db.idempotencyKeys (key, ch) = some ik ∧ ik.deliveryId = resp.deliveryId := by
    intro t req resp hth hkey
    obtain ⟨r, hrow, hreg, -⟩ := accepted_row h hth
    have howner : s.state.db.owner resp.deliveryId = some (key, ch) := by
      rw [Tables.owner, hrow, ← registers_unique hkey hreg]
      rfl
    exact h.faithful.sane.linked.owned _ _ howner
  obtain ⟨ik, hik, hid⟩ := hregistered hth hkey
  obtain ⟨ik', hik', hid'⟩ := hregistered hu hkey'
  rw [hik] at hik'
  cases hik'
  rw [← hid, ← hid']

theorem acceptedAs_reach {ok : System → Act → Prop} (hr : (machine p).Reach ok s s') {t : Nat} {req : IngestRequest}
    {resp : IngestResponse} (hth : acceptedAs (s.threads t) = some (req, resp)) :
    acceptedAs (s'.threads t) = some (req, resp) := by
  refine hr.invariant (I := fun s => acceptedAs (s.threads t) = some (req, resp)) hth fun s l s' h _ hs => ?_
  obtain ⟨φ, hth⟩ := acceptedAs_some h
  rw [hs.done hth]
  rfl

/-- After any run, whatever fails, crashes and runs at once, a request that was accepted: the four queries of `Detail`
    run at any four moments from then on, and any other request for its key and channel that was accepted. -/
theorem accepted_readable {ok : System → Act → Prop} {s₁ s₂ s₃ : System} (hr : (machine p).Reach ok (System.init p) s)
    (h₁ : (machine p).Reach ok s s₁) (h₂ : (machine p).Reach ok s₁ s₂) (h₃ : (machine p).Reach ok s₂ s₃) {t : Nat}
    {req : IngestRequest} {resp : IngestResponse} (hth : acceptedAs (s.threads t) = some (req, resp)) :
    (∃ det, detailOver s.state.db s₁.state.db s₂.state.db s₃.state.db resp.deliveryId = .ok det ∧
        det.delivery.id = resp.deliveryId ∧ req.Registers det.delivery.idempotencyKey det.delivery.channel ∧
        (resp.duplicate = false → (req.spelled p.jsonb).Asks det.delivery) ∧
        det.events.countP (·.1 = .received) = 1 ∧ (s₂.state.db.InTurn resp.deliveryId → Begins det.events) ∧
        ∀ o ∈ det.outbox, o.subject = notificationSubject p.streamPrefix det.delivery.channel det.delivery.priority) ∧
      ∀ u req' resp' key ch, acceptedAs (s.threads u) = some (req', resp') → req.Registers key ch →
        req'.Registers key ch → resp'.deliveryId = resp.deliveryId := by
  have h := reach_accepting hr
  obtain ⟨r, hrow, hreg, hasks⟩ := accepted_row h hth
  refine ⟨?_, fun u req' resp' key ch hu hkey hkey' => accepted_same h hth hu hkey hkey'⟩
  obtain ⟨det, hdet, hdelivery⟩ := detail_stored s₁.state.db s₂.state.db s₃.state.db hrow
  refine ⟨det, hdet, ?_⟩
  rw [hdelivery]
  refine ⟨rfl, hreg, hasks, ?_⟩
  -- the row was there when the timeline was read
  have hlater := reach_accepting (hr.trans (h₁.trans h₂))
  obtain ⟨r₂, hrow₂, -⟩ := accepted_row hlater (acceptedAs_reach (h₁.trans h₂) hth)
  have hbegins := hlater.opened resp.deliveryId (by rw [hrow₂]; exact Option.some_ne_none r₂)
  obtain ⟨hperm, hinturn⟩ := detail_events hdet
  refine ⟨?_, fun hturn => ?_, fun o ho => ?_⟩
  · rw [hperm.countP_eq]
    exact begins_once hbegins
  · rw [hinturn hturn]
    exact hbegins
  · have hgrows : s.state.Grows s₃.state := (h₁.trans (h₂.trans h₃)).relates World.Grows.refl
      (fun _ _ _ => World.Grows.trans) fun _ _ _ => grows_step
    have hrouted := reach_routed (hr.trans (h₁.trans (h₂.trans h₃)))
    obtain ⟨m, hm, hid, hsubject⟩ := detail_outbox hdet ho
    obtain ⟨d, hd, hmd, hwrites, -⟩ := hrouted.letters m hm
    have hrow' : s.state.db.deliveries d.id = some r := by rw [← hmd, hid, hrow]
    exact hsubject.symm.trans (hwrites.trans (subject_later hrow' hgrows.db hd))

end

/-- Two requests for one key, the first one's delivery read while a worker sends it. -/
theorem accepted_readable_sample : ∃ s s₁ resp,
    (machine {}).run (System.init {}) (ingestCalls 0 "d1" ++ (ingestCalls 1 "d2").take 2) = some s ∧
      (machine {}).run s (succeedCalls 2 "d1" "a1") = some s₁ ∧
      acceptedAs (s.threads 0) = some (sampleRequest, resp) ∧
      ∃ det, detailOver s.state.db s₁.state.db s₁.state.db s₁.state.db resp.deliveryId = .ok det ∧
        sampleRequest.Asks det.delivery ∧ det.events.countP (·.1 = .received) = 1 := by
  have hrun : ((machine {}).run (System.init {}) (ingestCalls 0 "d1" ++ (ingestCalls 1 "d2").take 2)).map (fun s =>
      (acceptedAs (s.threads 0), ((machine {}).run s (succeedCalls 2 "d1" "a1")).isSome)) =
        some (some (sampleRequest, ⟨"d1", .queued, false⟩), true) := by
    decide +kernel
  obtain ⟨s, hs, hparts⟩ := Option.map_eq_some_iff.mp hrun
  obtain ⟨hth, hsome⟩ := Prod.mk.inj hparts
  obtain ⟨s₁, hs₁⟩ := Option.isSome_iff_exists.mp hsome
  obtain ⟨det, hdet, -, -, hasks, hreceived, -⟩ :=
    (accepted_readable (Machine.reach_run hs) (Machine.reach_run hs₁) .refl .refl hth).1
  exact ⟨s, s₁, _, hs, hs₁, hth, det, hdet, hasks rfl, hreceived⟩

end GoCourier
