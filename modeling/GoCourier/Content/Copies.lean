import GoCourier.Content.Asked
import GoCourier.Rows.Writes
import GoCourier.Store.Growth

/- From the request to the provider. A stored row says what the request of an `Ingest` of
   this run asked for, its JSON texts in the database's spelling, and every copy of a
   delivery that a call has read says what the row says, however often both have been
   rewritten in between. -/
namespace GoCourier

open Interleave

/-- The request for which an answered transaction was to store `x`. -/
def storedFor (x : String) : Called → Option IngestRequest
  | ⟨_, .ingest req, .remote (.ingestTransactional d _ _ _ _ _), _⟩ => if d.id = x then some req else none
  | _ => none

/-- The row of `d` says what `d` says. -/
def Tables.Carries (t : Tables) (d : Delivery) : Prop :=
  ∃ r, t.deliveries d.id = some r ∧ (scanDelivery d.id r).SameContent d

/-- The delivery a call has read, or made from what it has read. -/
def Phase.copy : Phase → Option Delivery
  | .ingest (.found d) => some d
  | .worker (.snap d) => some d
  | .worker (.owned d) => some d
  | .worker (.refused d _ _) => some d
  | .worker (.accepted d) => some d
  | .replay (.snap d) => some d
  | .replay (.requeued d) => some d
  | .replay (.published d) => some d
  | .tick (.snap d _) => some d
  | .tick (.requeued d _) => some d
  | .tick (.enqueued d _) => some d
  | .tick (.marked d _) => some d
  | _ => none

/-- The row of `x` says what the request says, in the database's spelling. -/
def Tables.HoldsAsked (t : Tables) (j : Jsonb) (req : IngestRequest) (x : String) : Prop :=
  ∃ r, t.deliveries x = some r ∧ (req.spelled j).Asks (scanDelivery x r)

/-- The row of `x` was asked for in this run. -/
def Wanted (j : Jsonb) (hist : List Called) (x : String) (r : DeliveryRow) : Prop :=
  ∃ req ∈ hist.filterMap (storedFor x), (req.spelled j).Asks (scanDelivery x r)

structure Faithful (p : Params) (s : System) : Prop where
  sane : Sane p s
  asked : Machine.Promised (askedPledge p) s
  jsonb : s.state.db.jsonb = p.jsonb
  rows : ∀ x r, s.state.db.deliveries x = some r → Wanted p.jsonb s.hist x r
  hands : ∀ t th d, s.threads t = some th → th.phase.copy = some d → s.state.db.Carries d

/-! Rows and copies. -/

section
variable {t t' : Tables} {d d' : Delivery} {r r' : DeliveryRow} {x : String}

theorem later_same (x : String) (h : r.Later r') : (scanDelivery x r).SameContent (scanDelivery x r') := by
  unfold DeliveryRow.Later at h
  rw [h]
  rfl

theorem holdsAsked_grows {j : Jsonb} {req : IngestRequest} (h : t.HoldsAsked j req x) (hg : t.Grows t') :
    t'.HoldsAsked j req x := by
  obtain ⟨r, hr, hasks⟩ := h
  obtain ⟨r', hr', hlater⟩ := hg.deliveries _ r hr
  exact ⟨r', hr', asks_same hasks (later_same x hlater)⟩

theorem has_grows (h : t.Carries d) (hg : t.Grows t') : t'.Carries d := by
  obtain ⟨r, hr, hsame⟩ := h
  obtain ⟨r', hr', hlater⟩ := hg.deliveries _ r hr
  exact ⟨r', hr', (later_same d.id hlater).symm.trans hsame⟩

theorem has_same (h : t.Carries d) (hsame : d.SameContent d') : t.Carries d' := by
  obtain ⟨r, hr, hcopy⟩ := h
  have hid : d'.id = d.id := by
    unfold Delivery.SameContent at hsame
    rw [hsame]
  rw [← hid] at hr hcopy
  exact ⟨r, hr, hcopy.trans hsame⟩

theorem has_found (h : t.findByID x = .ok d) : t.Carries d := by
  unfold Tables.findByID at h
  split at h
  · rename_i r hr
    cases h
    exact ⟨r, hr, rfl⟩
  · cases h

theorem has_lookup {now : Time} {key : String} {ch : Channel} (h : t.findByIdempotencyKey now key ch = .ok d) :
    t.Carries d := by
  unfold Tables.findByIdempotencyKey at h
  split at h
  · split_ifs at h
    split at h
    · rename_i r hr
      cases h
      exact ⟨r, hr, rfl⟩
    · cases h
  · cases h

end

/-! The system. -/

section
variable {p : Params} {s s' : System} {l : Act} {x : String}

/-- Where an ingest's thread comes from. -/
theorem ingest_origin (hc : (machine p).Conforms (protocol p) s) (hs : (machine p).Step s l s') {u : Nat} {k : Task}
    {φ : IngestPhase} {prog : CallTree Op Ans Result} (hu : s'.threads u = some ⟨k, .ingest φ, prog⟩) :
    s.threads u = some ⟨k, .ingest φ, prog⟩ ∧ (∀ c, l ≠ .call u c) ∨ φ = .start ∨
      ∃ c ψ req op f r, k = .ingest req ∧ l = .call u c ∧ s.threads u = some ⟨.ingest req, .ingest ψ, .ask op f⟩ ∧
        answer p op c s.state = some (r, s'.state) ∧ IngestMoves p req ψ op r φ := by
  rcases hs.origin_cases hu with hkept | ⟨-, -, hfirst⟩ | ⟨c, ψ, op, f, r, label, running, answered, hnext⟩
  · exact .inl hkept
  · cases k <;> cases hfirst
    exact .inr (.inl rfl)
  · have hm : May p k ψ op := hc.may running
    cases ψ with
    | ingest ψ =>
      cases k with
      | ingest req =>
        cases hnext
        exact .inr (.inr ⟨c, ψ, req, op, f, r, rfl, label, running, answered, ingest_moves hm r⟩)
      | _ => exact hm.elim
    | _ => cases hnext

/-- What an `Ingest` has promised of its transaction. -/
theorem Faithful.transaction (h : Faithful p s) {t : Nat} {req : IngestRequest} {φ : Phase} {d : Delivery} {exp : Time}
    {subject : String} {payload : Body} {headers : Headers} {schedule : Bool}
    {f : Ans (.remote (.ingestTransactional d exp subject payload headers schedule)) → CallTree Op Ans Result}
    (hth : s.threads t =
      some ⟨.ingest req, φ, .ask (.remote (.ingestTransactional d exp subject payload headers schedule)) f⟩) :
    req.Asks d ∧ headers = notificationHeaders d ∧ exp = d.createdAt + p.idempotencyTTL ∧ d.lastError = "" := by
  obtain ⟨_, hmay⟩ := h.asked.may hth
  exact hmay

theorem wanted_step {j : Jsonb} (hs : (machine p).Step s l s') {r : DeliveryRow} (h : Wanted j s.hist x r) :
    Wanted j s'.hist x r := by
  obtain ⟨req, hreq, hasks⟩ := h
  exact ⟨req, (hs.remembers.filterMap _).subset hreq, hasks⟩

theorem wanted_later {j : Jsonb} {hist : List Called} {r r' : DeliveryRow} (h : Wanted j hist x r) (hlater : r.Later r') :
    Wanted j hist x r' := by
  obtain ⟨req, hreq, hasks⟩ := h
  exact ⟨req, hreq, asks_same hasks (later_same x hlater)⟩

theorem rows_wanted_step (h : Faithful p s) (hs : (machine p).Step s l s') {r' : DeliveryRow}
    (hr' : s'.state.db.deliveries x = some r') : Wanted p.jsonb s'.hist x r' := by
  have hc := h.sane.conforms
  cases wrote_step hs hr' with
  | kept before => exact wanted_step hs (h.rows x r' before)
  | updated label effective running about before after =>
    subst after
    exact wanted_later (wanted_step hs (h.rows x _ before)) rfl
  | claimed label effective running about before expected after =>
    subst after
    exact wanted_later (wanted_step hs (h.rows x _ before)) rfl
  | @created t c k φ d exp subject payload headers schedule f label effective running about new after =>
    obtain ⟨req, rfl, rfl, -⟩ := stores_minted (hc.may running)
    subst label after about
    obtain ⟨a, -, -, hhist⟩ := hs.called running
    refine ⟨req, ?_, h.jsonb ▸ asks_stored s.state.db.jsonb (h.transaction running).1⟩
    rw [hhist]
    refine List.mem_filterMap.mpr ⟨_, List.mem_cons_self, ?_⟩
    exact if_pos rfl

/-- What `FindByID` returns is what is stored. -/
theorem answered_found {w w' : World} {id : String} {c : Choice} {d : Delivery}
    (h : Answered p w (.remote (.findByID id)) c (.ok d) w') : w.db.Carries d := by
  obtain ⟨-, hexec⟩ := answered_ok h
  exact has_found (congrArg Prod.fst hexec)

theorem ingest_copy_step (h : Faithful p s) (hs : (machine p).Step s l s') {u : Nat} {k : Task} {φ : IngestPhase}
    {prog : CallTree Op Ans Result} {d : Delivery} (hu : s'.threads u = some ⟨k, .ingest φ, prog⟩)
    (hd : (Phase.ingest φ).copy = some d) : s'.state.db.Carries d := by
  have hgrows := (grows_step hs).db
  rcases ingest_origin h.sane.conforms hs hu with
    ⟨before, -⟩ | rfl | ⟨c, ψ, req, op, f, r, -, label, running, answered, hmoves⟩
  · exact has_grows (h.hands u _ d before hd) hgrows
  · cases hd
  · have hans := answer_cases (p := p) answered
    cases hmoves with
    | clock φ t => exact has_grows (h.hands u _ d running hd) hgrows
    | found looking own d₀ =>
      cases hd
      obtain ⟨-, hexec⟩ := answered_ok hans
      exact has_grows (has_lookup (congrArg Prod.fst hexec)) hgrows
    | _ => cases hd

theorem worker_copy_step (h : Faithful p s) (hs : (machine p).Step s l s') {u : Nat} {k : Task} {φ : WorkerPhase}
    {prog : CallTree Op Ans Result} {d : Delivery} (hu : s'.threads u = some ⟨k, .worker φ, prog⟩)
    (hd : (Phase.worker φ).copy = some d) : s'.state.db.Carries d := by
  have hgrows := (grows_step hs).db
  rcases worker_origin h.sane.conforms hs hu with ⟨before, -⟩ | rfl | ⟨c, ψ, op, f, r, label, running, answered, hmoves⟩
  · exact has_grows (h.hands u _ d before hd) hgrows
  · cases hd
  · have hψ := fun d₀ => h.hands u _ d₀ running
    have hans := answer_cases (p := p) answered
    refine has_grows ?_ hgrows
    cases hmoves with
    | clock φ t => exact hψ d hd
    | uuid φ v => exact hψ d hd
    | jitter φ n r => exact hψ d hd
    | found about d₀ =>
      cases hd
      exact answered_found hans
    | @claimed d₀ d₁ now takeable taken =>
      cases hd
      exact has_same (hψ d₀ rfl) (taken ▸ rfl)
    | admitted d₀ proc v => exact hψ d hd
    | blocked d₀ proc e => exact hψ d hd
    | accepted present res => exact hψ d hd
    | rejected present e => exact hψ d hd
    | failure d₀ e proc v => exact hψ d hd
    | success d₀ proc v => exact hψ d hd
    | settled settles v => cases settles <;> cases hd
    | recorded records v =>
      cases records with
      | gaveUp out number => exact hψ d hd
      | _ => cases hd
    | _ => cases hd

theorem replay_copy_step (h : Faithful p s) (hs : (machine p).Step s l s') {u : Nat} {k : Task} {φ : ReplayPhase}
    {prog : CallTree Op Ans Result} {d : Delivery} (hu : s'.threads u = some ⟨k, .replay φ, prog⟩)
    (hd : (Phase.replay φ).copy = some d) : s'.state.db.Carries d := by
  have hgrows := (grows_step hs).db
  rcases replay_origin h.sane.conforms hs hu with
    ⟨before, -⟩ | rfl | ⟨c, ψ, id, op, f, r, label, running, answered, hmoves⟩
  · exact has_grows (h.hands u _ d before hd) hgrows
  · cases hd
  · have hψ := fun d₀ => h.hands u _ d₀ running
    have hans := answer_cases (p := p) answered
    refine has_grows ?_ hgrows
    cases hmoves with
    | clock φ t => exact hψ d hd
    | found d₀ =>
      cases hd
      exact answered_found hans
    | @wrote d₀ d₁ now dead queued v =>
      cases hd
      exact has_same (hψ d₀ rfl) (queued ▸ rfl)
    | published d₀ v => exact hψ d hd
    | _ => cases hd

theorem tick_copy_step (h : Faithful p s) (hs : (machine p).Step s l s') {u : Nat} {k : Task} {φ : TickPhase}
    {prog : CallTree Op Ans Result} {d : Delivery} (hu : s'.threads u = some ⟨k, .tick φ, prog⟩)
    (hd : (Phase.tick φ).copy = some d) : s'.state.db.Carries d := by
  have hgrows := (grows_step hs).db
  rcases tick_origin h.sane.conforms hs hu with ⟨before, -⟩ | rfl | ⟨c, ψ, op, f, r, label, running, answered, hmoves⟩
  · exact has_grows (h.hands u _ d before hd) hgrows
  · cases hd
  · have hψ := fun d₀ => h.hands u _ d₀ running
    have hans := answer_cases (p := p) answered
    refine has_grows ?_ hgrows
    cases hmoves with
    | read todo d₀ =>
      cases hd
      exact answered_found hans
    | @wrote d₀ d₁ now ids pending queued =>
      cases hd
      exact has_same (hψ d₀ rfl) (queued ▸ rfl)
    | enqueued d₀ ids => exact hψ d hd
    | marked d₀ ids => exact hψ d hd
    | _ => cases hd

theorem faithful_step (h : Faithful p s) (hs : (machine p).Step s l s') : Faithful p s' where
  sane := sane_step h.sane hs
  asked := Machine.promised_step h.asked hs
  jsonb := (grows_step hs).db.jsonb.trans h.jsonb
  rows x r := rows_wanted_step h hs
  hands u th d hu hd := by
    obtain ⟨k, φ, prog⟩ := th
    cases φ with
    | ingest φ => exact ingest_copy_step h hs hu hd
    | worker φ => exact worker_copy_step h hs hu hd
    | replay φ => exact replay_copy_step h hs hu hd
    | flush φ => cases hd
    | tick φ => exact tick_copy_step h hs hu hd

theorem init_faithful (p : Params) : Faithful p (System.init p) where
  sane := init_sane p
  asked := by
    refine ⟨fun _ => (), fun t th hth => ?_⟩
    cases hth
  jsonb := rfl
  rows := by
    intro x r hr
    cases hr
  hands := by
    intro t th d hth
    cases hth

end

end GoCourier
