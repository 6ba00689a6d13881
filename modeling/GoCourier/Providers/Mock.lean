import GoCourier.Providers.Verdicts
import GoCourier.Rows.Valid

/- The providers this repository ships (`adapters/providers`). A mock provider looks for a
   marker in the recipient and refuses the delivery if there is one; otherwise it notes
   the delivery as sent. So in a deployment of them the recipient alone decides whether a
   delivery can succeed, and with which errors it can fail. -/
namespace GoCourier

open Interleave

/-- `strings.Contains`. -/
def contains (s sub : String) : Bool := s.toList.tails.any sub.toList.isPrefixOf

/-- `apperrors.ErrPermanent`. -/
def errPermanent : Err := ⟨"permanent error", [.permanent]⟩

/-- `fmt.Errorf("%w: " + what, err)`. -/
def Err.because (e : Err) (what : String) : Err := ⟨e.text ++ ": " ++ what, e.wraps⟩

namespace Mock

/-- `mock.Provider`. -/
structure Provider where
  channel : Channel
  sent : List String := []
  deriving DecidableEq, Repr

/-- The switch of `Send`. -/
def refusal (recipient : RawJson) : Option Err :=
  if contains recipient "fail-permanent" then some (errPermanent.because "invalid recipient")
  else if contains recipient "fail-transient" then some (errTransient.because "provider unavailable")
  else if contains recipient "fail-circuit" then some (errTransient.because "circuit test failure")
  else none

/-- The map of two strings, marshalled. -/
def Provider.response (pr : Provider) : RawJson := "\x7b\"channel\":\"" ++ pr.channel.text ++ "\",\"mock\":\"true\"\x7d"

/-- `Send`; `id` is the UUID it draws for the message. -/
def Provider.send (pr : Provider) (id : String) (d : Delivery) : Except Err ProviderResult × Provider :=
  match refusal d.recipient with
  | some e => (.error e, pr)
  | none => (.ok ⟨id, pr.response⟩, { pr with sent := pr.sent ++ [d.id] })

/-- `All`, which `providers.Default` returns. -/
def all : List Provider := [⟨.email, []⟩, ⟨.sms, []⟩, ⟨.push, []⟩, ⟨.webhook, []⟩]

/-- The provider of a channel after the calls of a run, the latest first; the processes' providers taken together. -/
def provider (ch : Channel) : List Called → Provider
  | [] => ⟨ch, []⟩
  | ⟨_, _, .send d, _⟩ :: hist => if d.channel = ch then ((provider ch hist).send "" d).2 else provider ch hist
  | _ :: hist => provider ch hist

end Mock

/-- Every `Send` is answered by the mock provider of its channel. -/
def Mocked (s : System) (l : Act) : Prop :=
  ∀ t v k φ d f, l = .call t (.verdict v) → s.threads t = some ⟨k, φ, .ask (.send d) f⟩ →
    ∃ id, v = ((Mock.provider d.channel s.hist).send id d).1

/-- The mock providers as judges. -/
def Mock.judge : Judge where
  accepts recipient _ := Mock.refusal recipient = none
  rejects recipient e := Mock.refusal recipient = some e

/-- What the row of a delivery can say, by its recipient. -/
structure MockOutcome (p : Params) (r : DeliveryRow) : Prop where
  succeeded : r.status = .succeeded → Mock.refusal r.recipient = none
  retrying : r.status = .retrying → r.lastError = some "transient error" ∨
    ∃ e, Mock.refusal r.recipient = some e ∧ isPermanent e = false ∧ r.lastError = some e.text
  error : r.lastError = none ∨ r.lastError = some "transient error" ∨
    (r.channel ∉ p.providers ∧ r.lastError = some "no provider for channel") ∨
    ∃ e, Mock.refusal r.recipient = some e ∧ r.lastError = some e.text

/-- The providers have noted the deliveries that have succeeded, and only deliveries they accept. -/
structure MockSent (p : Params) (s : System) : Prop where
  judging : Judging p Mock.judge s
  texts : ∀ x r, s.state.db.deliveries x = some r → r.lastError ≠ some ""
  accepted : ∀ t k d prog, s.threads t = some ⟨k, .worker (.accepted d), prog⟩ →
    d.id ∈ (Mock.provider d.channel s.hist).sent
  succeeded : ∀ x r, s.state.db.deliveries x = some r → r.status = .succeeded →
    x ∈ (Mock.provider r.channel s.hist).sent
  sent : ∀ ch x, x ∈ (Mock.provider ch s.hist).sent →
    ∃ r, s.state.db.deliveries x = some r ∧ r.channel = ch ∧ Mock.refusal r.recipient = none

section
variable {p : Params} {s s' : System} {l : Act} {x : String} {r : DeliveryRow}

theorem judge_rules (h : Mocked s l) : Mock.judge.Rules s l := by
  intro t v k φ d f hl hth
  obtain ⟨id, rfl⟩ := h t v k φ d f hl hth
  unfold Mock.Provider.send
  cases hrefusal : Mock.refusal d.recipient with
  | none => exact hrefusal
  | some e => exact hrefusal

theorem some_of_getD {text : Option String} {msg : String} (h : text.getD "" = msg) (hne : msg ≠ "") :
    text = some msg := by
  cases text with
  | none => exact absurd h.symm hne
  | some _ => exact congrArg some h

theorem refusal_text {recipient : RawJson} {e : Err} (h : Mock.refusal recipient = some e) : e.text ≠ "" := by
  unfold Mock.refusal at h
  split at h
  · cases h
    decide
  · split at h
    · cases h
      decide
    · split at h
      · cases h
        decide
      · cases h

theorem outcome_of_told (h : (scanDelivery x r).Told p Mock.judge)
    (hempty : r.lastError ≠ some "") : MockOutcome p r := by
  have htext : ∀ e, Mock.judge.Refuses r.recipient e → (scanDelivery x r).lastError = e.text →
      r.lastError = some e.text := by
    rintro e (rfl | he) heq
    · exact some_of_getD heq (by decide)
    · exact some_of_getD heq (refusal_text he)
  refine ⟨fun hs => ?_, fun hs => ?_, ?_⟩
  · obtain ⟨_, hnone⟩ := h.succeeded hs
    exact hnone
  · obtain ⟨e, hrefuses, hpermanent, heq⟩ := h.retrying hs
    have hsome := htext e hrefuses heq
    rcases hrefuses with rfl | he
    · exact .inl hsome
    · exact .inr ⟨e, he, hpermanent, hsome⟩
  · rcases h.error with hnone | ⟨habsent, heq⟩ | ⟨e, hrefuses, heq⟩
    · left
      have hget : r.lastError.getD "" = "" := hnone
      cases herror : r.lastError with
      | none => rfl
      | some text =>
        rw [herror] at hget hempty
        exact absurd (congrArg some hget) hempty
    · exact .inr (.inr (.inl ⟨habsent, some_of_getD heq (by decide)⟩))
    · have hsome := htext e hrefuses heq
      rcases hrefuses with rfl | he
      · exact .inr (.inl hsome)
      · exact .inr (.inr (.inr ⟨e, he, hsome⟩))

/-! What the providers have noted. -/

theorem mem_provider_cons {ch : Channel} {e : Called} {hist : List Called} :
    x ∈ (Mock.provider ch (e :: hist)).sent ↔ x ∈ (Mock.provider ch hist).sent ∨
      ∃ d, e.op = .send d ∧ d.channel = ch ∧ d.id = x ∧ Mock.refusal d.recipient = none := by
  obtain ⟨t, k, op, ans⟩ := e
  cases op with
  | send d =>
    simp only [Mock.provider, Op.send.injEq]
    by_cases hch : d.channel = ch
    · rw [if_pos hch]
      unfold Mock.Provider.send
      cases hrefusal : Mock.refusal d.recipient with
      | none =>
        simp only [List.mem_append, List.mem_singleton]
        constructor
        · rintro (hold | rfl)
          · exact .inl hold
          · exact .inr ⟨d, rfl, hch, rfl, hrefusal⟩
        · rintro (hold | ⟨_, rfl, -, rfl, -⟩)
          · exact .inl hold
          · exact .inr rfl
      | some err =>
        constructor
        · exact .inl
        · rintro (hold | ⟨_, rfl, -, -, hnone⟩)
          · exact hold
          · rw [hrefusal] at hnone
            cases hnone
    · rw [if_neg hch]
      constructor
      · exact .inl
      · rintro (hold | ⟨_, rfl, heq, -, -⟩)
        · exact hold
        · exact absurd heq hch
  | _ =>
    constructor
    · exact .inl
    · rintro (hold | ⟨d, hop, -⟩)
      · exact hold
      · cases hop

/-- What is noted stays noted. -/
theorem mem_provider_step {ch : Channel} (hs : (machine p).Step s l s') (h : x ∈ (Mock.provider ch s.hist).sent) :
    x ∈ (Mock.provider ch s'.hist).sent := by
  rcases hs.heard with hsame | ⟨t, c, k, φ, op, f, a, -, -, -, -, hhist⟩
  · rwa [hsame]
  · rw [hhist]
    exact mem_provider_cons.mpr (.inl h)

/-- A row's error is written through `nullable`. -/
theorem texts_step (h : MockSent p s) (hs : (machine p).Step s l s') (hr : s'.state.db.deliveries x = some r) :
    r.lastError ≠ some "" := by
  cases wrote_step hs hr with
  | kept before => exact h.texts x r before
  | updated label effective running about before after =>
    subst after
    exact nullable_ne _
  | claimed label effective running about before expected after =>
    subst after
    exact nullable_ne _
  | created label effective running about new after =>
    subst after
    exact nullable_ne _

theorem accepted_noted_step (h : MockSent p s) (hmocked : Mocked s l) (hs : (machine p).Step s l s') {u : Nat} {k : Task}
    {d : Delivery} {prog : CallTree Op Ans Result} (hu : s'.threads u = some ⟨k, .worker (.accepted d), prog⟩) :
    d.id ∈ (Mock.provider d.channel s'.hist).sent := by
  rcases worker_origin h.judging.faithful.sane.conforms hs hu with
    ⟨before, -⟩ | hstart | ⟨c, ψ, op, f, a, label, running, answered, hmoves⟩
  · exact mem_provider_step hs (h.accepted u k d prog before)
  · cases hstart
  · have hψ : ψ = .accepted d → d.id ∈ (Mock.provider d.channel s'.hist).sent := by
      rintro rfl
      exact mem_provider_step hs (h.accepted u k d _ running)
    generalize hφ : WorkerPhase.accepted d = φ at hmoves
    cases hmoves with
    | clock φ t => exact hψ hφ.symm
    | uuid φ v => exact hψ hφ.symm
    | jitter φ n j => exact hψ hφ.symm
    | success d₀ proc v => exact hψ hφ.symm
    | @accepted d₀ present res =>
      obtain rfl := WorkerPhase.accepted.inj hφ
      -- The provider accepts the recipient, and the step notes the delivery.
      have hnone : Mock.refusal d.recipient = none :=
        judge_rules hmocked u (.ok res) k _ d f (sent_verdict (answer_cases answered) ▸ label) running
      subst label
      obtain ⟨a, -, -, hhist⟩ := hs.called running
      rw [hhist]
      exact mem_provider_cons.mpr (.inr ⟨d, rfl, rfl, rfl, hnone⟩)
    | settled settles v => cases settles <;> cases hφ
    | recorded records v => cases records <;> cases hφ
    | _ => cases hφ

theorem succeeded_noted_step (h : MockSent p s) (hs : (machine p).Step s l s')
    (hr : s'.state.db.deliveries x = some r) (hst : r.status = .succeeded) :
    x ∈ (Mock.provider r.channel s'.hist).sent := by
  have hc := h.judging.faithful.sane.conforms
  refine mem_provider_step hs ?_
  cases wrote_step hs hr with
  | kept before => exact h.succeeded x r before hst
  | @updated t c k φ d r₀ f label effective running about before after =>
    subst after about
    cases update_may (hc.may running) with
    | @settle φ d settles =>
      have hd : d.status = .succeeded := hst
      cases settles with
      | noProvider absent moved => cases moved.status.symm.trans hd
      | gaveUp out moved => cases moved.status.symm.trans hd
      | retry more moved => cases moved.status.symm.trans hd
      | @success d₀ _ moved =>
        have hnoted := h.accepted t k d₀ _ running
        obtain ⟨-, hchannel⟩ := carried_same (h.judging.faithful.hands t _ d₀ running rfl) (moved.id ▸ before)
        rw [moved.id]
        exact hchannel ▸ hnoted
    | replay dead queued =>
      subst queued
      cases hst
    | tick pending queued =>
      subst queued
      cases hst
  | @claimed t c k φ d st r₀ f label effective running about before expected after =>
    subst after about
    obtain ⟨d₀, now, rfl, -, -, rfl⟩ := claim_may (hc.may running)
    cases hst
  | @created t c k φ d exp subject payload headers schedule f label effective running about new after =>
    obtain ⟨req, rfl, rfl, hmakes, -⟩ := stores_minted (hc.may running)
    subst after
    have hd : d.status = .succeeded := hst
    rw [hmakes.status] at hd
    cases schedule <;> cases hd

theorem sent_step (h : MockSent p s) (hs : (machine p).Step s l s') {ch : Channel}
    (hx : x ∈ (Mock.provider ch s'.hist).sent) :
    ∃ r, s'.state.db.deliveries x = some r ∧ r.channel = ch ∧ Mock.refusal r.recipient = none := by
  have hlater : ∀ r, s.state.db.deliveries x = some r → r.channel = ch → Mock.refusal r.recipient = none →
      ∃ r', s'.state.db.deliveries x = some r' ∧ r'.channel = ch ∧ Mock.refusal r'.recipient = none := by
    intro r hr hchannel hnone
    obtain ⟨r', hr', hlater⟩ := (grows_step hs).db.deliveries x r hr
    unfold DeliveryRow.Later at hlater
    refine ⟨r', hr', ?_, ?_⟩
    · rw [hlater]
      exact hchannel
    · rw [hlater]
      exact hnone
  have hold : x ∈ (Mock.provider ch s.hist).sent →
      ∃ r, s'.state.db.deliveries x = some r ∧ r.channel = ch ∧ Mock.refusal r.recipient = none := by
    intro hold
    obtain ⟨r, hr, hchannel, hnone⟩ := h.sent ch x hold
    exact hlater r hr hchannel hnone
  rcases hs.heard with hsame | ⟨t, c, k, φ, op, f, a, -, running, -, -, hhist⟩
  · rw [hsame] at hx
    exact hold hx
  · rw [hhist] at hx
    rcases mem_provider_cons.mp hx with hx | ⟨d, hop, rfl, rfl, hnone⟩
    · exact hold hx
    · have hop : op = .send d := hop
      subst hop
      obtain ⟨rfl, -⟩ := send_may (h.judging.faithful.sane.conforms.may running)
      have hcarries := h.judging.faithful.hands t _ d running rfl
      obtain ⟨r, hr, hsame⟩ := hcarries
      obtain ⟨hrecipient, hchannel⟩ := carried_same ⟨r, hr, hsame⟩ hr
      exact hlater r hr hchannel (hrecipient ▸ hnone)

theorem mockSent_step (h : MockSent p s) (hmocked : Mocked s l) (hs : (machine p).Step s l s') : MockSent p s' where
  judging := judging_step h.judging (judge_rules hmocked) hs
  texts _ _ := texts_step h hs
  accepted _ _ _ _ := accepted_noted_step h hmocked hs
  succeeded _ _ := succeeded_noted_step h hs
  sent _ _ := sent_step h hs

theorem init_mockSent (p : Params) : MockSent p (System.init p) where
  judging := init_judging p Mock.judge
  texts := by
    intro x r hr
    cases hr
  accepted := by
    intro t k d prog hth
    cases hth
  succeeded := by
    intro x r hr
    cases hr
  sent := by
    intro ch x hx
    cases hx

/-- With the mock providers, in every run with any interleaving, failing calls and crashes. -/
theorem mock_outcomes (hr : (machine p).Reach Mocked (System.init p) s) :
    (∀ x r, s.state.db.deliveries x = some r → MockOutcome p r) ∧
      (∀ x r, s.state.db.deliveries x = some r → r.status = .succeeded →
        x ∈ (Mock.provider r.channel s.hist).sent) ∧
      ∀ ch x, x ∈ (Mock.provider ch s.hist).sent →
        ∃ r, s.state.db.deliveries x = some r ∧ r.channel = ch ∧ Mock.refusal r.recipient = none := by
  have h : MockSent p s := hr.invariant (init_mockSent p) fun _ _ _ h hmocked hs => mockSent_step h hmocked hs
  exact ⟨fun x r hrow => outcome_of_told (h.judging.rows x r hrow) (h.texts x r hrow), h.succeeded, h.sent⟩

end

/-- `Mocked` of one step, computed. -/
def mockedCheck (s : System) : Act → Bool
  | .call t (.verdict v) =>
    match s.threads t with
    | some ⟨_, _, .ask (.send d) _⟩ =>
      v = ((Mock.provider d.channel s.hist).send ((v.toOption.map (·.providerMessageId)).getD "") d).1
    | _ => true
  | _ => true

theorem mocked_of_check {s : System} {l : Act} (h : mockedCheck s l = true) : Mocked s l := by
  intro t v k φ d f hl hth
  subst hl
  simp only [mockedCheck, hth] at h
  exact ⟨_, of_decide_eq_true h⟩

def failingRequest : IngestRequest := { sampleRequest with idempotencyKey := "k2", recipient := "fail-transient" }

/-- A delivery that is sent and one that the provider refuses. -/
def mockRun : List Act :=
  ingestCalls 0 "d1" ++ ingestCalls 1 "d2" failingRequest ++ .start 2 (.dispatch 0 "d1") ::
    attemptCalls 2 "a1" (.ok ⟨"m1", Mock.Provider.response ⟨.email, []⟩⟩) ++ runs 2 5 ++ .start 3 (.dispatch 0 "d2") ::
    attemptCalls 3 "a2" (.error (errTransient.because "provider unavailable")) ++ runs 3 5 ++ [.call 3 (.rand 0)]

theorem mock_outcomes_sample : ∃ s r₁ r₂, (machine {}).run (System.init {}) mockRun = some s ∧
    s.state.db.deliveries "d1" = some r₁ ∧ r₁.status = .succeeded ∧ "d1" ∈ (Mock.provider r₁.channel s.hist).sent ∧
    s.state.db.deliveries "d2" = some r₂ ∧ r₂.status = .retrying ∧ MockOutcome {} r₂ := by
  have hrun : ((machine {}).run (System.init {}) mockRun).map (fun s =>
      ((s.state.db.deliveries "d1").map (·.status), (s.state.db.deliveries "d2").map (·.status))) =
        some (some .succeeded, some .retrying) := by
    decide +kernel
  have hmocked := Machine.along_of_check mockRun
    (show (machine {}).check mockedCheck (System.init {}) mockRun = true by decide +kernel)
  obtain ⟨s, hs, hparts⟩ := Option.map_eq_some_iff.mp hrun
  rw [Prod.mk.injEq] at hparts
  obtain ⟨r₁, h₁, hst₁⟩ := Option.map_eq_some_iff.mp hparts.1
  obtain ⟨r₂, h₂, hst₂⟩ := Option.map_eq_some_iff.mp hparts.2
  have hr : (machine {}).Reach Mocked (System.init {}) s :=
    Machine.reach_of_run mockRun .refl (Machine.Along.mono (fun _ _ _ => mocked_of_check) mockRun hmocked) hs
  obtain ⟨houtcome, hsucceeded, -⟩ := mock_outcomes hr
  exact ⟨s, r₁, r₂, hs, h₁, hst₁, hsucceeded "d1" r₁ h₁ hst₁, h₂, hst₂, houtcome "d2" r₂ h₂⟩

end GoCourier
