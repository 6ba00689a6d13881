import GoCourier.Content.Routed
import GoCourier.Handover.Carried
import GoCourier.Handover.Survival

/- The pipeline the dashboard draws for a delivery (`PipelineFlow.tsx`). It lights its
   steps by the delivery's status alone. Where deliveries are dispatched by the handlers of
   messages, what it lights has been done, whatever has failed, crashed and run at once
   before, and by however many schedulers and replays the status was written. There is one
   exception: a delivery that was scheduled is queued before its message is in the outbox,
   and a scheduler that stops in between leaves it so. -/
namespace GoCourier

open Interleave

inductive StepId where
  | ingest
  | pg
  | outbox
  | nats
  | worker
  | provider
  deriving DecidableEq, Repr

/-- The steps that are lit. -/
def activeStepsFor : Option Status → List StepId
  | none => []
  | some .pending => [.ingest]
  | some .queued => [.ingest, .pg, .outbox]
  | some .processing | some .retrying => [.ingest, .pg, .outbox, .nats, .worker]
  | some .succeeded => [.ingest, .pg, .outbox, .nats, .worker, .provider]
  | some .dlq | some .failed | some .rejected => [.ingest, .pg, .outbox, .nats, .worker]
  | some .cancelled => [.ingest, .pg]

theorem lit_outbox {st : Status} (h : .outbox ∈ activeStepsFor (some st)) : st ≠ .pending := by
  revert h
  cases st <;> decide

theorem lit_worker {st : Status} (h : .nats ∈ activeStepsFor (some st) ∨ .worker ∈ activeStepsFor (some st)) :
    st ≠ .pending ∧ st ≠ .queued := by
  revert h
  cases st <;> decide

theorem lit_provider {st : Status} (h : .provider ∈ activeStepsFor (some st)) : st = .succeeded := by
  revert h
  cases st <;> decide

/-! What has been done for a delivery. -/

/-- A call of a handler that has a message of `x`. -/
def works (x : String) : Called → Bool
  | ⟨_, .handle _ _ _ m, _, _⟩ => m.deliveryId = .ok x
  | _ => false

/-- A provider has taken `x`. -/
def takes (x : String) : Called → Bool
  | ⟨_, _, .send d, .ok _⟩ => d.id = x
  | _ => false

def Done (s : System) (x : String) : StepId → Prop
  | .ingest => s.hist.filterMap (storedFor x) ≠ []
  | .pg => s.state.db.deliveries x ≠ none
  | .outbox => s.state.db.listed x
  | .nats => Sent x s
  | .worker => s.hist.any (works x) = true
  | .provider => s.hist.any (takes x) = true

/-- Every dispatch is a handler's. -/
def Handled (_ : System) (l : Act) : Prop := ∀ t proc id, l ≠ .start t (.dispatch proc id)

/-- A scheduled delivery that is queued. -/
def DeliveryRow.Due (r : DeliveryRow) : Prop := r.status = .queued ∧ r.scheduledAt ≠ none

/-- What the row of `x` says has been done. -/
structure DeliveryRow.Backed (s : System) (x : String) (r : DeliveryRow) : Prop where
  pending : r.status = .pending → r.scheduledAt ≠ none
  listed : r.status ≠ .pending → Done s x .outbox ∨ r.Due
  worked : r.status ≠ .pending → r.status ≠ .queued → Done s x .nats ∧ Done s x .worker
  taken : r.status = .succeeded → Done s x .provider

structure Piped (p : Params) (s : System) : Prop where
  routed : Routed p s
  handlers : ∀ t k φ prog, s.threads t = some ⟨k, .worker φ, prog⟩ →
    ∃ proc i c m, k = .handle proc i c m ∧ m ∈ s.state.stream
  accepted : ∀ t k d prog, s.threads t = some ⟨k, .worker (.accepted d), prog⟩ → Done s d.id .provider
  /-- What a replay has read, or written back, has been in the outbox. -/
  replayed : ∀ t k d prog, s.threads t = some ⟨k, .replay (.snap d), prog⟩ → d.status.Replayable → Done s d.id .outbox
  requeued : ∀ t k d prog, s.threads t = some ⟨k, .replay (.requeued d), prog⟩ → Done s d.id .outbox
  scheduled : ∀ t k d ids prog, s.threads t = some ⟨k, .tick (.snap d ids), prog⟩ → d.status = .pending →
    d.scheduledAt ≠ none
  sent : ∀ x, Done s x .nats → Done s x .outbox
  rows : ∀ x r, s.state.db.deliveries x = some r → r.Backed s x

section
variable {p : Params} {s s' : System} {l : Act} {x : String}

/-- What has been done stays done. -/
theorem done_step (h : Sane p s) (hs : (machine p).Step s l s') {step : StepId} (hdone : Done s x step) :
    Done s' x step := by
  have hany : ∀ {f : Called → Bool}, s.hist.any f = true → s'.hist.any f = true := by
    intro f hf
    rcases hs.heard with hhist | ⟨t, c, k, φ, op, f, r, -, -, -, -, hhist⟩
    · rwa [hhist]
    · rw [hhist, List.any_cons, hf, Bool.or_true]
  cases step with
  | ingest =>
    show s'.hist.filterMap (storedFor x) ≠ []
    rcases hs.heard with hhist | ⟨t, c, k, φ, op, f, r, -, -, -, -, hhist⟩
    · rwa [hhist]
    · rw [hhist]
      cases hfor : storedFor x ⟨t, k, op, r⟩ with
      | none => rwa [List.filterMap_cons_none hfor]
      | some req =>
        rw [List.filterMap_cons_some hfor]
        exact List.cons_ne_nil _ _
  | pg =>
    obtain ⟨r, hr⟩ := Option.ne_none_iff_exists'.mp hdone
    obtain ⟨r', hr', -⟩ := (grows_step hs).db.deliveries x r hr
    show s'.state.db.deliveries x ≠ none
    rw [hr']
    exact Option.some_ne_none r'
  | outbox => exact listed_step h hs hdone
  | nats =>
    obtain ⟨m, hm, hx⟩ := hdone
    exact ⟨m, (grows_step hs).stream.subset hm, hx⟩
  | worker => exact hany hdone
  | provider => exact hany hdone

theorem done_reach {ok : System → Act → Prop} (h : Sane p s) (hr : (machine p).Reach ok s s') {step : StepId}
    (hdone : Done s x step) : Done s' x step :=
  (hr.invariant (I := fun s => Sane p s ∧ Done s x step) ⟨h, hdone⟩ fun _ _ _ h _ hs =>
    ⟨sane_step h.1 hs, done_step h.1 hs h.2⟩).2

theorem kept_backed (h : Sane p s) (hs : (machine p).Step s l s') {r : DeliveryRow} (hr : r.Backed s x) : r.Backed s' x where
  pending := hr.pending
  listed hst := (hr.listed hst).imp_left (done_step h hs)
  worked hst hst' := (hr.worked hst hst').imp (done_step h hs) (done_step h hs)
  taken hst := done_step h hs (hr.taken hst)

/-! The threads. -/

/-- The message of a handler is in the stream. -/
theorem handled_step (h : Piped p s) (hok : Handled s l) (hs : (machine p).Step s l s') {t : Nat} {k : Task}
    {φ : WorkerPhase} {prog : CallTree Op Ans Result} (hth : s'.threads t = some ⟨k, .worker φ, prog⟩) :
    ∃ proc i c m, k = .handle proc i c m ∧ m ∈ s'.state.stream := by
  have hkept : (∃ proc i c m, k = .handle proc i c m ∧ m ∈ s.state.stream) →
      ∃ proc i c m, k = .handle proc i c m ∧ m ∈ s'.state.stream := by
    rintro ⟨proc, i, c, m, rfl, hm⟩
    exact ⟨proc, i, c, m, rfl, (grows_step hs).stream.subset hm⟩
  rcases hs.origin_cases hth with ⟨before, -⟩ | ⟨label, entered, hfirst⟩ | ⟨a, ψ, op, f, r, -, running, -, hnext⟩
  · exact hkept (h.handlers t k φ prog before)
  · cases k with
    | handle proc i c m =>
      have entered : s.state.enter p (.handle proc i c m) = some s'.state := entered
      simp only [World.enter] at entered
      split at entered
      · rename_i hgot
        exact hkept ⟨proc, i, c, m, rfl, List.mem_of_getElem? hgot.1⟩
      · cases entered
    | dispatch proc id => exact absurd label (hok t proc id)
    | _ => cases hfirst
  · cases ψ with
    | worker ψ => exact hkept (h.handlers t k ψ _ running)
    | _ => cases hnext

/-- A handler that is called has worked on its delivery. -/
theorem worked_call (h : Piped p s) {t : Nat} {c : Choice} (hs : (machine p).Step s (.call t c) s') {k : Task}
    {φ : WorkerPhase} {op : Op} {f : Ans op → CallTree Op Ans Result}
    (hth : s.threads t = some ⟨k, .worker φ, .ask op f⟩) (hx : k.Target x) : Done s' x .nats ∧ Done s' x .worker := by
  obtain ⟨proc, i, c', m, rfl, hm⟩ := h.handlers t k φ _ hth
  have hx : m.deliveryId = .ok x := hx
  refine ⟨⟨m, (grows_step hs).stream.subset hm, hx⟩, ?_⟩
  obtain ⟨r, -, -, hhist⟩ := hs.called hth
  show s'.hist.any (works x) = true
  rw [hhist, List.any_cons, works, decide_eq_true hx, Bool.true_or]

theorem taken_step (h : Piped p s) (hs : (machine p).Step s l s') {u : Nat} {k : Task} {d : Delivery}
    {prog : CallTree Op Ans Result} (hu : s'.threads u = some ⟨k, .worker (.accepted d), prog⟩) :
    Done s' d.id .provider := by
  have hsane := h.routed.faithful.sane
  rcases worker_origin hsane.conforms hs hu with
    ⟨before, -⟩ | hstart | ⟨c, ψ, op, f, a, label, running, answered, hmoves⟩
  · exact done_step hsane hs (h.accepted u k d prog before)
  · cases hstart
  · have hψ : ψ = .accepted d → Done s' d.id .provider := by
      rintro rfl
      exact done_step hsane hs (h.accepted u k d _ running)
    generalize hφ : WorkerPhase.accepted d = φ at hmoves
    cases hmoves with
    | clock φ t => exact hψ hφ.symm
    | uuid φ v => exact hψ hφ.symm
    | jitter φ n j => exact hψ hφ.symm
    | success d₀ proc v => exact hψ hφ.symm
    | @accepted d₀ present res =>
      obtain rfl := WorkerPhase.accepted.inj hφ
      -- the provider takes it with this call
      subst label
      obtain ⟨a, hans, -, hhist⟩ := hs.called running
      obtain ⟨rfl, -⟩ := Prod.mk.inj (Option.some.inj (answered.symm.trans hans))
      show s'.hist.any (takes d.id) = true
      rw [hhist, List.any_cons, takes, decide_eq_true rfl, Bool.true_or]
    | settled settles v => cases settles <;> cases hφ
    | recorded records v => cases records <;> cases hφ
    | _ => cases hφ

/-- What a `FindByID` has read. -/
theorem read_backed (h : Piped p s) {id : String} {c : Choice} {d : Delivery} {w : World}
    (hans : Answered p s.state (.remote (.findByID id)) c (.ok d) w) :
    ∃ r : DeliveryRow, r.Backed s d.id ∧ r.status = d.status ∧ r.scheduledAt = d.scheduledAt := by
  obtain ⟨-, hexec⟩ := answered_ok hans
  have hfound : s.state.db.findByID id = .ok d := congrArg Prod.fst hexec
  unfold Tables.findByID at hfound
  split at hfound
  · rename_i r hr
    cases hfound
    exact ⟨r, h.rows id r hr, rfl, rfl⟩
  · cases hfound

theorem replayed_step (h : Piped p s) (hs : (machine p).Step s l s') {t : Nat} {k : Task} {d : Delivery}
    {prog : CallTree Op Ans Result} (hth : s'.threads t = some ⟨k, .replay (.snap d), prog⟩)
    (hdead : d.status.Replayable) : Done s' d.id .outbox := by
  have hsane := h.routed.faithful.sane
  rcases replay_origin hsane.conforms hs hth with ⟨before, -⟩ | hstart | ⟨c, ψ, id, op, f, r, -, running, answered, hmoves⟩
  · exact done_step hsane hs (h.replayed t k d prog before hdead)
  · cases hstart
  · cases hmoves with
    | clock φ now => exact done_step hsane hs (h.replayed t _ d _ running hdead)
    | found d =>
      obtain ⟨r, hbacked, hst, -⟩ := read_backed h (answer_cases answered)
      have hpast : r.status ≠ .pending ∧ r.status ≠ .queued := by
        rw [hst]
        rcases hdead with hdlq | hfailed
        · exact hdlq ▸ ⟨by decide, by decide⟩
        · exact hfailed ▸ ⟨by decide, by decide⟩
      exact done_step hsane hs ((hbacked.listed hpast.1).resolve_right fun hdue => hpast.2 hdue.1)

theorem requeued_replay_step (h : Piped p s) (hs : (machine p).Step s l s') {t : Nat} {k : Task} {d : Delivery}
    {prog : CallTree Op Ans Result} (hth : s'.threads t = some ⟨k, .replay (.requeued d), prog⟩) :
    Done s' d.id .outbox := by
  have hsane := h.routed.faithful.sane
  rcases replay_origin hsane.conforms hs hth with ⟨before, -⟩ | hstart | ⟨c, ψ, id, op, f, r, -, running, answered, hmoves⟩
  · exact done_step hsane hs (h.requeued t k d prog before)
  · cases hstart
  · cases hmoves with
    | clock φ now => exact done_step hsane hs (h.requeued t _ d _ running)
    | @wrote d₀ _ now dead queued u =>
      have hid : d.id = d₀.id := by rw [queued]
      rw [hid]
      exact done_step hsane hs (h.replayed t _ d₀ _ running dead)

theorem scheduled_step (h : Piped p s) (hs : (machine p).Step s l s') {t : Nat} {k : Task} {d : Delivery}
    {ids : List String} {prog : CallTree Op Ans Result} (hth : s'.threads t = some ⟨k, .tick (.snap d ids), prog⟩)
    (hpending : d.status = .pending) : d.scheduledAt ≠ none := by
  rcases tick_origin h.routed.faithful.sane.conforms hs hth with
    ⟨before, -⟩ | hstart | ⟨c, ψ, op, f, r, -, running, answered, hmoves⟩
  · exact h.scheduled t k d ids prog before hpending
  · cases hstart
  · cases hmoves with
    | read todo d =>
      obtain ⟨r, hbacked, hst, hat⟩ := read_backed h (answer_cases answered)
      exact hat ▸ hbacked.pending (hst.trans hpending)

/-! The stream and the rows. -/

/-- Who publishes a message in the stream has found its delivery in the outbox. -/
theorem mailed_outbox_step (h : Piped p s) (hs : (machine p).Step s l s') (hx : Done s' x .nats) : Done s' x .outbox := by
  have hsane := h.routed.faithful.sane
  have hrouted := routed_step h.routed hs
  rcases sent_origin hs hx with hold | ⟨t, c, k, φ, subject, body, headers, f, -, hth, hmsg, hgrown⟩
  · exact done_step hsane hs (h.sent x hold)
  · have hnew : Message.mk subject body headers ∈ s'.state.stream := by
      rw [hgrown]
      exact List.mem_append_right _ List.mem_cons_self
    have hpub := publish_may (hsane.conforms.may hth)
    generalize hm : Message.mk subject body headers = m at hpub hmsg hnew
    cases hpub with
    | dead d noted =>
      obtain ⟨_, -, hfor, -⟩ := hrouted.stream _ hnew
      exact absurd (isFor_subject hfor) (dlqSubject_not_mem d.channel p.streamPrefix)
    | replay d =>
      have hne := h.routed.named (knows_of_carries (h.routed.faithful.hands t _ d hth rfl))
      rw [deliveryId_idBody hne] at hmsg
      cases hmsg
      exact done_step hsane hs (h.requeued t k d _ hth)
    | flush m ms =>
      have hletter := (h.routed.outbox.hands t k _ _ hth).carried m List.mem_cons_self
      obtain ⟨r, hr, -, hrx, -⟩ := row_of_letter hletter
      obtain ⟨d, hd, hid, -, hpayload, -⟩ := h.routed.letters _ hletter
      have hne := h.routed.named (knows_of_carries hd)
      have hpayload : m.payload = idBody d.id := hpayload
      have hid : m.deliveryId = d.id := hid
      rw [hpayload, deliveryId_idBody hne] at hmsg
      cases hmsg
      exact done_step hsane hs ⟨r, hr, hrx.trans hid⟩

/-- What a handler writes about its delivery. -/
theorem handled_backed (h : Piped p s) {t : Nat} {c : Choice} (hs : (machine p).Step s (.call t c) s') {k : Task}
    {φ : WorkerPhase} {op : Op} {f : Ans op → CallTree Op Ans Result}
    (hth : s.threads t = some ⟨k, .worker φ, .ask op f⟩) (hx : k.Target x) {r : DeliveryRow} (hpending : r.status ≠ .pending)
    (htaken : r.status = .succeeded → Done s' x .provider) : r.Backed s' x where
  pending hst := absurd hst hpending
  listed _ := .inl (mailed_outbox_step h hs (worked_call h hs hth hx).1)
  worked _ _ := worked_call h hs hth hx
  taken := htaken

theorem rows_backed_step (h : Piped p s) (hs : (machine p).Step s l s') {r' : DeliveryRow}
    (hr' : s'.state.db.deliveries x = some r') : r'.Backed s' x := by
  have hsane := h.routed.faithful.sane
  have hc := hsane.conforms
  cases wrote_step hs hr' with
  | kept before => exact kept_backed hsane hs (h.rows x r' before)
  | @updated t c k φ d r f label effective running about before after =>
    subst label after about
    cases update_may (hc.may running) with
    | @settle φ d settles =>
      refine handled_backed h hs running (settles_id settles (worker_about hc running)) ?_ fun hst => ?_
      · show d.status ≠ .pending
        cases settles with
        | noProvider absent moved => exact moved.status ▸ by decide
        | gaveUp out moved => exact moved.status ▸ by decide
        | retry more moved => exact moved.status ▸ by decide
        | success moved => exact moved.status ▸ by decide
      · have hst : d.status = .succeeded := hst
        cases settles with
        | noProvider absent moved => cases moved.status.symm.trans hst
        | gaveUp out moved => cases moved.status.symm.trans hst
        | retry more moved => cases moved.status.symm.trans hst
        | success moved =>
          rw [moved.id]
          exact done_step hsane hs (h.accepted t k _ _ running)
    | @replay d₀ d now dead queued =>
      subst queued
      have hlisted : Done s' d₀.id .outbox := done_step hsane hs (h.replayed t k d₀ _ running dead)
      exact ⟨nofun, fun _ => .inl hlisted, fun _ hne => absurd rfl hne, nofun⟩
    | @tick d₀ d now ids pending queued =>
      subst queued
      -- the row is for the time the copy is for
      have hat : r.scheduledAt = d₀.scheduledAt := by
        obtain ⟨r₀, hr₀, hsame⟩ := h.routed.faithful.hands t _ d₀ running rfl
        obtain rfl := Option.some.inj (before.symm.trans hr₀)
        unfold Delivery.SameContent at hsame
        rw [hsame]
        rfl
      have hdue : (r.set { d₀ with status := .queued, updatedAt := now }).Due :=
        ⟨rfl, fun hnone => h.scheduled t k d₀ ids _ running pending (hat.symm.trans hnone)⟩
      exact ⟨nofun, fun _ => .inr hdue, fun _ hne => absurd rfl hne, nofun⟩
  | @claimed t c k φ d st r f label effective running about before expected after =>
    subst label after about
    obtain ⟨d₀, now, rfl, -, -, rfl⟩ := claim_may (hc.may running)
    exact handled_backed h hs running (worker_about hc running) nofun nofun
  | @created t c k φ d exp subject payload headers schedule f label effective running about new after =>
    obtain ⟨req, rfl, rfl, hmakes, -⟩ := stores_minted (hc.may running)
    subst after about
    have hst : (d.toRow s.state.db.jsonb).status = if schedule then .pending else .queued := hmakes.status
    cases schedule with
    | true =>
      have hlater := hmakes.later rfl
      refine ⟨fun _ hnone => ?_, fun hne => absurd hst hne, fun hne => absurd hst hne, fun h => ?_⟩
      · have hnone : d.scheduledAt = none := hnone
        rw [hnone] at hlater
        cases hlater
      · cases hst.symm.trans h
    | false =>
      have hrow : s'.state.db.row d.id = some (.queued, (d.toRow s.state.db.jsonb).retryCount) := by
        rw [Tables.row_stored hr', hst]
        rfl
      have hlisted : s'.state.db.listed d.id := listed_of_created hsane hs (by rw [Tables.row, new]; rfl) hrow
      refine ⟨fun h => ?_, fun _ => .inl hlisted, fun _ hne => absurd hst hne, fun h => ?_⟩
      · cases hst.symm.trans h
      · cases hst.symm.trans h

theorem piped_step (h : Piped p s) (hok : Handled s l) (hs : (machine p).Step s l s') : Piped p s' where
  routed := routed_step h.routed hs
  handlers _ _ _ _ := handled_step h hok hs
  accepted _ _ _ _ := taken_step h hs
  replayed _ _ _ _ := replayed_step h hs
  requeued _ _ _ _ := requeued_replay_step h hs
  scheduled _ _ _ _ _ := scheduled_step h hs
  sent _ := mailed_outbox_step h hs
  rows _ _ := rows_backed_step h hs

theorem init_piped (p : Params) : Piped p (System.init p) where
  routed := init_routed p
  handlers := by
    intro t k φ prog hth
    cases hth
  accepted := by
    intro t k d prog hth
    cases hth
  replayed := by
    intro t k d prog hth
    cases hth
  requeued := by
    intro t k d prog hth
    cases hth
  scheduled := by
    intro t k d ids prog hth
    cases hth
  sent := by
    intro x hx
    obtain ⟨m, hm, -⟩ := hx
    cases hm
  rows := by
    intro x r hr
    cases hr

/-- A row that is stored was ingested. -/
theorem ingested_of_row (h : Faithful p s) {r : DeliveryRow} (hr : s.state.db.deliveries x = some r) : Done s x .ingest := by
  obtain ⟨req, hreq, -⟩ := h.rows x r hr
  exact List.ne_nil_of_mem hreq

/-- The status that is shown was read at some moment; whatever has happened since. -/
theorem pipeline_truthful {s₁ : System} {ok : System → Act → Prop} (hr : (machine p).Reach Handled (System.init p) s)
    (h₁ : (machine p).Reach ok s s₁) {r : DeliveryRow} (hrow : s.state.db.deliveries x = some r) {step : StepId}
    (hlit : step ∈ activeStepsFor (some r.status)) : Done s₁ x step ∨ step = .outbox ∧ r.Due := by
  have h : Piped p s := hr.invariant (init_piped p) fun _ _ _ h hok hs => piped_step h hok hs
  have hsane := h.routed.faithful.sane
  have hbacked := h.rows x r hrow
  have hstored : Done s x .pg := by
    show s.state.db.deliveries x ≠ none
    rw [hrow]
    exact Option.some_ne_none r
  have hdone : Done s x step ∨ step = .outbox ∧ r.Due := by
    cases step with
    | ingest => exact .inl (ingested_of_row h.routed.faithful hrow)
    | pg => exact .inl hstored
    | outbox => exact (hbacked.listed (lit_outbox hlit)).imp_right fun hdue => ⟨rfl, hdue⟩
    | nats =>
      obtain ⟨hpending, hqueued⟩ := lit_worker (.inl hlit)
      exact .inl (hbacked.worked hpending hqueued).1
    | worker =>
      obtain ⟨hpending, hqueued⟩ := lit_worker (.inr hlit)
      exact .inl (hbacked.worked hpending hqueued).2
    | provider => exact .inl (hbacked.taken (lit_provider hlit))
  exact hdone.imp_left (done_reach hsane h₁)

end

/-- A dispatch that is no handler's. -/
def direct : Act → Bool
  | .start _ (.dispatch _ _) => true
  | _ => false

theorem handled_of_direct {s : System} {l : Act} (h : direct l = false) : Handled s l := by
  rintro t proc id rfl
  cases h

/-- A delivery that a handler's provider accepts. -/
def pipelineRun : List Act :=
  ingestCalls 0 "d1" ++ publishCalls 1 ++ .start 2 (.handle 0 0 0 (sampleMessage "d1")) ::
    attemptCalls 2 "a1" (.ok {}) ++ runs 2 5

theorem pipeline_truthful_sample : ∃ s r, (machine {}).run (System.init {}) pipelineRun = some s ∧
    s.state.db.deliveries "d1" = some r ∧ .provider ∈ activeStepsFor (some r.status) ∧ Done s "d1" .provider := by
  have hrun : ((machine {}).run (System.init {}) pipelineRun).map (fun s =>
      (s.state.db.deliveries "d1").map (·.status)) = some (some .succeeded) := by
    decide +kernel
  obtain ⟨s, hs, hrow⟩ := Option.map_eq_some_iff.mp hrun
  obtain ⟨r, hr, hst⟩ := Option.map_eq_some_iff.mp hrow
  have hhandled : ∀ l ∈ pipelineRun, direct l = false := by decide +kernel
  have hreach : (machine {}).Reach Handled (System.init {}) s :=
    Machine.reach_of_run pipelineRun .refl
      (Machine.along_of_forall pipelineRun _ fun l hl _ _ => handled_of_direct (hhandled l hl)) hs
  have hlit : .provider ∈ activeStepsFor (some r.status) := by
    rw [hst]
    decide
  have hnow : (machine {}).Reach Handled s s := .refl
  exact ⟨s, r, hs, hr, hlit, (pipeline_truthful hreach hnow hr hlit).resolve_right fun h => by cases h.1⟩

/-- The exception: a tick that has queued the delivery and crashes. -/
example : ((machine {}).run (System.init {}) (ingestCalls 0 "d1" laterRequest ++
    [.move (.clock 10), .start 1 .processDue] ++ runs 1 4)).map (fun s =>
      ((s.state.db.deliveries "d1").map (·.status), s.state.db.outbox)) = some (some .queued, []) := by
  decide +kernel

end GoCourier
