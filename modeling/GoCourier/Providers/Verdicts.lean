import GoCourier.Content.Copies

/- What the providers say and what the rows say. A provider judges a delivery by its
   recipient. Whatever runs, fails and crashes, a row is succeeded only where its
   recipient is accepted, and its last error is the provider's own of that recipient, the
   breaker's, or that the channel has no provider. -/
namespace GoCourier

open Interleave

/-- How `Send` answers, by the recipient. -/
structure Judge where
  accepts : RawJson → ProviderResult → Prop
  rejects : RawJson → Err → Prop

/-- What the judge says of a recipient. -/
def Judge.Says (J : Judge) (recipient : RawJson) : Except Err ProviderResult → Prop
  | .ok res => J.accepts recipient res
  | .error e => J.rejects recipient e

/-- A `Send` is answered as the judge says. -/
def Judge.Rules (J : Judge) (s : System) (l : Act) : Prop :=
  ∀ t v k φ d f, l = .call t (.verdict v) → s.threads t = some ⟨k, φ, .ask (.send d) f⟩ → J.Says d.recipient v

/-- An error that a dispatch may have ended with: the breaker's or the provider's. -/
def Judge.Refuses (J : Judge) (recipient : RawJson) (e : Err) : Prop := e = errTransient ∨ J.rejects recipient e

/-- What a delivery says of itself is so. -/
structure Delivery.Told (p : Params) (J : Judge) (d : Delivery) : Prop where
  succeeded : d.status = .succeeded → ∃ res, J.accepts d.recipient res
  retrying : d.status = .retrying → ∃ e, J.Refuses d.recipient e ∧ isPermanent e = false ∧ d.lastError = e.text
  error : d.lastError = "" ∨ d.channel ∉ p.providers ∧ d.lastError = "no provider for channel" ∨
    ∃ e, J.Refuses d.recipient e ∧ d.lastError = e.text

/-- The delivery a call has read and not yet written. -/
def Phase.read : Phase → Option Delivery
  | .worker (.snap d) => some d
  | .replay (.snap d) => some d
  | .tick (.snap d _) => some d
  | _ => none

/-- What a dispatch has been told of the delivery it owns. -/
def WorkerPhase.Heard (J : Judge) : WorkerPhase → Prop
  | .refused d e _ => J.Refuses d.recipient e
  | .accepted d => ∃ res, J.accepts d.recipient res
  | _ => True

structure Judging (p : Params) (J : Judge) (s : System) : Prop where
  faithful : Faithful p s
  rows : ∀ x r, s.state.db.deliveries x = some r → (scanDelivery x r).Told p J
  reads : ∀ t th d, s.threads t = some th → th.phase.read = some d → d.Told p J
  heard : ∀ t k φ prog, s.threads t = some ⟨k, .worker φ, prog⟩ → φ.Heard J

section
variable {p : Params} {J : Judge} {s s' : System} {l : Act} {d d' : Delivery} {x : String} {r : DeliveryRow}

/-- A copy that is moved on to a status that says nothing yet. -/
theorem told_moved (h : d.Told p J) (st : Status) (hst : st ≠ .succeeded ∧ st ≠ .retrying) :
    Delivery.Told p J { d with status := st } where
  succeeded hs := absurd hs hst.1
  retrying hs := absurd hs hst.2
  error := h.error

/-- A row that is set from `d'`, which tells the truth of the row's delivery `d`. -/
theorem told_set (h : Delivery.Told p J { d with status := d'.status, lastError := d'.lastError })
    (hrow : r.recipient = d.recipient ∧ r.channel = d.channel) : (scanDelivery x (r.set d')).Told p J := by
  have herror : (scanDelivery x (r.set d')).lastError = d'.lastError := nullable_getD d'.lastError
  have hrecipient : (scanDelivery x (r.set d')).recipient = d.recipient := hrow.1
  have hchannel : (scanDelivery x (r.set d')).channel = d.channel := hrow.2
  refine ⟨fun hs => ?_, fun hs => ?_, ?_⟩
  · rw [hrecipient]
    exact h.succeeded hs
  · rw [hrecipient, herror]
    exact h.retrying hs
  · rw [hrecipient, hchannel, herror]
    exact h.error

/-- A copy and its row have one recipient and one channel. -/
theorem carried_same (h : s.state.db.Carries d) (hrow : s.state.db.deliveries d.id = some r) :
    r.recipient = d.recipient ∧ r.channel = d.channel := by
  obtain ⟨r', hr', hsame⟩ := h
  rw [hrow] at hr'
  cases hr'
  unfold Delivery.SameContent at hsame
  rw [hsame]
  exact ⟨rfl, rfl⟩

/-- What a dispatch writes of the delivery it owns is what it has been told. -/
theorem told_settles {φ : WorkerPhase} (h : Settles p φ d') (hheard : φ.Heard J) :
    ∃ d, (Phase.worker φ).copy = some d ∧ d'.id = d.id ∧
      Delivery.Told p J { d with status := d'.status, lastError := d'.lastError } := by
  cases h with
  | @noProvider d d' absent moved =>
    refine ⟨d, rfl, moved.id, ?_⟩
    rw [moved.status, moved.error]
    exact ⟨nofun, nofun, .inr (.inl ⟨absent, rfl⟩)⟩
  | @gaveUp d d' e out moved =>
    refine ⟨d, rfl, moved.id, ?_⟩
    rw [moved.status, moved.error]
    exact ⟨nofun, nofun, .inr (.inr ⟨e, hheard, rfl⟩)⟩
  | @retry d d' e more moved =>
    refine ⟨d, rfl, moved.id, ?_⟩
    rw [moved.status, moved.error]
    refine ⟨nofun, fun _ => ⟨e, hheard, ?_, rfl⟩, .inr (.inr ⟨e, hheard, rfl⟩)⟩
    exact Bool.eq_false_iff.mpr fun hpermanent => more (.inl hpermanent)
  | @success d d' moved =>
    refine ⟨d, rfl, moved.id, ?_⟩
    rw [moved.status, moved.error]
    exact ⟨fun _ => hheard, nofun, .inl rfl⟩

/-! The system. -/

/-- Who reads a row reads what it says. -/
theorem told_found (h : Judging p J s) {w' : World} {id : String} {c : Choice}
    (hans : Answered p s.state (.remote (.findByID id)) c (.ok d) w') : d.Told p J := by
  obtain ⟨-, hexec⟩ := answered_ok hans
  have hfound : s.state.db.findByID id = .ok d := congrArg Prod.fst hexec
  unfold Tables.findByID at hfound
  split at hfound
  · rename_i r hr
    cases hfound
    exact h.rows id r hr
  · cases hfound

theorem reads_step (h : Judging p J s) (hs : (machine p).Step s l s') {u : Nat}
    {th : Thread Op Ans Task Result Phase} (hu : s'.threads u = some th) (hd : th.phase.read = some d) :
    d.Told p J := by
  have hc := h.faithful.sane.conforms
  obtain ⟨k, φ, prog⟩ := th
  cases φ with
  | worker φ =>
    rcases worker_origin hc hs hu with ⟨before, -⟩ | rfl | ⟨c, ψ, op, f, r, label, running, answered, hmoves⟩
    · exact h.reads u _ d before hd
    · cases hd
    · cases hmoves with
      | clock φ t => exact h.reads u _ d running hd
      | uuid φ v => exact h.reads u _ d running hd
      | jitter φ n r => exact h.reads u _ d running hd
      | found about d₀ =>
        cases hd
        exact told_found h (answer_cases answered)
      | settled settles v => cases settles <;> cases hd
      | recorded records v => cases records <;> cases hd
      | _ => cases hd
  | replay φ =>
    rcases replay_origin hc hs hu with ⟨before, -⟩ | rfl | ⟨c, ψ, id, op, f, r, label, running, answered, hmoves⟩
    · exact h.reads u _ d before hd
    · cases hd
    · cases hmoves with
      | clock φ t => exact h.reads u _ d running hd
      | found d₀ =>
        cases hd
        exact told_found h (answer_cases answered)
      | _ => cases hd
  | tick φ =>
    rcases tick_origin hc hs hu with ⟨before, -⟩ | rfl | ⟨c, ψ, op, f, r, label, running, answered, hmoves⟩
    · exact h.reads u _ d before hd
    · cases hd
    · cases hmoves with
      | read todo d₀ =>
        cases hd
        exact told_found h (answer_cases answered)
      | _ => cases hd
  | _ => cases hd

theorem sent_verdict {w w' : World} {c : Choice} {v : Except Err ProviderResult} (h : Answered p w (.send d) c v w') :
    c = .verdict v := by
  cases h
  rfl

theorem heard_step (h : Judging p J s) (hrules : J.Rules s l) (hs : (machine p).Step s l s') {u : Nat} {k : Task}
    {φ : WorkerPhase} {prog : CallTree Op Ans Result} (hu : s'.threads u = some ⟨k, .worker φ, prog⟩) : φ.Heard J := by
  rcases worker_origin h.faithful.sane.conforms hs hu with
    ⟨before, -⟩ | rfl | ⟨c, ψ, op, f, r, label, running, answered, hmoves⟩
  · exact h.heard u k φ prog before
  · trivial
  · have hψ := h.heard u k ψ _ running
    cases hmoves with
    | clock φ t => exact hψ
    | uuid φ v => exact hψ
    | jitter φ n r => exact hψ
    | blocked d proc e => exact .inl rfl
    | @accepted d present res =>
      exact ⟨res, hrules u (.ok res) k _ d f (sent_verdict (answer_cases answered) ▸ label) running⟩
    | @rejected d present e =>
      exact .inr (hrules u (.error e) k _ d f (sent_verdict (answer_cases answered) ▸ label) running)
    | failure d e proc v => exact hψ
    | success d proc v => exact hψ
    | settled settles v => cases settles <;> trivial
    | recorded records v =>
      cases records with
      | gaveUp out number => exact hψ
      | _ => trivial
    | _ => trivial

theorem rows_told_step (h : Judging p J s) (hs : (machine p).Step s l s') {r' : DeliveryRow}
    (hr' : s'.state.db.deliveries x = some r') : (scanDelivery x r').Told p J := by
  have hc := h.faithful.sane.conforms
  have hands := h.faithful.hands
  cases wrote_step hs hr' with
  | kept before => exact h.rows x r' before
  | @updated t c k φ d r f label effective running about before after =>
    subst after about
    cases update_may (hc.may running) with
    | @settle φ d settles =>
      obtain ⟨d₀, hcopy, hid, htold⟩ := told_settles settles (h.heard t k φ _ running)
      exact told_set htold (carried_same (hands t _ d₀ running hcopy) (hid ▸ before))
    | @replay d₀ d now dead queued =>
      subst queued
      have htold := told_moved (h.reads t _ d₀ running rfl) .queued (by decide)
      exact told_set htold (carried_same (hands t _ d₀ running rfl) before)
    | @tick d₀ d now ids pending queued =>
      subst queued
      have htold := told_moved (h.reads t _ d₀ running rfl) .queued (by decide)
      exact told_set htold (carried_same (hands t _ d₀ running rfl) before)
  | @claimed t c k φ d st r f label effective running about before expected after =>
    subst after about
    obtain ⟨d₀, now, rfl, -, -, rfl⟩ := claim_may (hc.may running)
    have htold := told_moved (h.reads t _ d₀ running rfl) .processing (by decide)
    exact told_set htold (carried_same (hands t _ d₀ running rfl) before)
  | @created t c k φ d exp subject payload headers schedule f label effective running about new after =>
    obtain ⟨req, rfl, rfl, hmakes, -⟩ := stores_minted (hc.may running)
    obtain ⟨-, -, -, herror⟩ := h.faithful.transaction running
    subst after about
    have hscan : (scanDelivery d.id (d.toRow s.state.db.jsonb)).lastError = "" := (nullable_getD d.lastError).trans herror
    have hst : (scanDelivery d.id (d.toRow s.state.db.jsonb)).status = if schedule then .pending else .queued := hmakes.status
    refine ⟨fun hs => ?_, fun hs => ?_, .inl hscan⟩
    · rw [hst] at hs
      cases schedule <;> cases hs
    · rw [hst] at hs
      cases schedule <;> cases hs

theorem judging_step (h : Judging p J s) (hrules : J.Rules s l) (hs : (machine p).Step s l s') : Judging p J s' where
  faithful := faithful_step h.faithful hs
  rows _ _ := rows_told_step h hs
  reads _ _ _ := reads_step h hs
  heard _ _ _ _ := heard_step h hrules hs

theorem init_judging (p : Params) (J : Judge) : Judging p J (System.init p) where
  faithful := init_faithful p
  rows := by
    intro x r hr
    cases hr
  reads := by
    intro t th d hth
    cases hth
  heard := by
    intro t k φ prog hth
    cases hth

end

end GoCourier
