import GoCourier.Registry.Ids

/- One `Ingest` on its own, in any store that a run can leave behind. What it finds
   under its key decides: a registration that counts is returned, no registration at
   all makes a new one, and one that has expired is found by the insert and by the
   verifying SELECT but by neither lookup, so the `Ingest` fails. -/
namespace GoCourier

open Interleave

/-- Every call runs; the UUID drawn is `u`. -/
def ingestPlan (u : String) : Op → Choice
  | .newUUID => .uuid u
  | _ => .run

/-- The registration of a key, while it counts. -/
def World.registration (w : World) (key : String) (ch : Channel) : Option IdempotencyRow :=
  (w.db.idempotencyKeys (key, ch)).filter (w.clock < ·.expiresAt)

section
variable {p : Params} {w : World} {req req' : IngestRequest} {key u : String} {ch : Channel}

/-- A registration that counts is what the lookup returns. -/
theorem lookup_live (hl : w.db.Linked) {ik : IdempotencyRow} (hk : w.db.idempotencyKeys (key, ch) = some ik)
    (hlive : w.clock < ik.expiresAt) :
    ∃ d, w.db.findByIdempotencyKey w.clock key ch = .ok d ∧ d.id = ik.deliveryId := by
  obtain ⟨r, hr, -⟩ := Option.map_eq_some_iff.mp (hl.registered _ ik hk)
  refine ⟨scanDelivery ik.deliveryId r, ?_, rfl⟩
  simp only [Tables.findByIdempotencyKey, hk, if_pos hlive, hr]

theorem lookup_missing (h : ∀ ik, w.db.idempotencyKeys (key, ch) = some ik → ¬ w.clock < ik.expiresAt) :
    w.db.findByIdempotencyKey w.clock key ch = .error errNotFound := by
  unfold Tables.findByIdempotencyKey
  cases hk : w.db.idempotencyKeys (key, ch) with
  | none => rfl
  | some ik => simp only [if_neg (h ik hk)]

/-- The delivery `NewDeliveryFromRequest` makes. -/
def IngestRequest.delivery (req : IngestRequest) (u : String) (ch : Channel) (pri : Priority) (now : Time) : Delivery where
  id := u
  channel := ch
  priority := pri
  idempotencyKey := req.idempotencyKey
  tenantId := req.metadata.tenantId
  recipient := req.recipient
  template := req.template
  payload := req.payload
  status := .pending
  scheduledAt := req.scheduledAt
  correlationId := req.metadata.correlationId
  causationId := req.metadata.causationId
  createdAt := now
  updatedAt := now

theorem solo_newDelivery {pri : Priority} (hv : req.validate = .ok req) (hch : parseChannel req.channel = .ok ch)
    (hpri : parsePriority req.priority = .ok pri) (hu : u ≠ "" ∧ u ∉ w.issued) (now : Time) :
    CallTree.solo (planned p (ingestPlan u)) (newDeliveryFromRequest req now).run w =
      some (.ok (req.delivery u ch pri now), { w with issued := u :: w.issued }) := by
  simp only [newDeliveryFromRequest, hv, hch, hpri]
  rw [CallTree.solo_bindE, solo_ask_op]
  simp only [ingestPlan, answer, if_pos hu, Option.bind_some, solo_pureE]
  rfl

/-- What the first lookup leaves to do. -/
theorem solo_ingest (p : Params) (w : World) (u : String) (hf : req.Registers key ch) : ∃ req' pri, req'.validate = .ok req' ∧
    parseChannel req'.channel = .ok ch ∧ parsePriority req'.priority = .ok pri ∧ req'.idempotencyKey = key ∧
    CallTree.solo (planned p (ingestPlan u)) (ingest p req).run w =
      match w.db.findByIdempotencyKey w.clock key ch with
      | .ok d => some (.ok ⟨d.id, d.status, true⟩, w)
      | .error e =>
        if e.is .notFound then CallTree.solo (planned p (ingestPlan u)) (do
          let d ← newDeliveryFromRequest req' w.clock
          register p d w.clock : Go IngestResponse).run w
        else some (.error e, w) := by
  obtain ⟨⟨req', hv⟩, hkey, hch⟩ := hf
  obtain ⟨hcore, -⟩ := IngestRequest.validate_ok hv
  have hch' : parseChannel req'.channel = .ok ch := by rw [hcore.2.1, hch]
  have hkey' : req'.idempotencyKey = key := hcore.1.trans hkey
  obtain ⟨pri, hpri⟩ := IngestRequest.validate_priority hv
  refine ⟨req', pri, IngestRequest.validate_idem hv, hch', hpri, hkey', ?_⟩
  subst hkey'
  simp only [ingest, hv, hch']
  rw [CallTree.solo_bindE, solo_attempt]
  simp only [ingestPlan, answer, exec, Option.bind_some]
  cases w.db.findByIdempotencyKey w.clock req'.idempotencyKey ch with
  | ok d => rfl
  | error e =>
    simp only []
    split
    · rw [CallTree.solo_bindE, solo_ask_op]
      simp only [ingestPlan, answer, Option.bind_some]
    · rfl

theorem solo_register_ok (p : Params) (u : String) (w : World) (d : Delivery) (now : Time) (hd : d.status = .pending)
    (hnew : w.db.deliveries d.id = none) (hfree : w.db.idempotencyKeys (d.idempotencyKey, d.channel) = none) (hl : w.db.Linked) :
    ∃ st w', CallTree.solo (planned p (ingestPlan u)) (register p d now).run w = some (.ok ⟨d.id, st, false⟩, w') ∧
      w'.db.Linked ∧ w'.issued = w.issued ∧
      w'.db.owner = Function.update w.db.owner d.id (some (d.idempotencyKey, d.channel)) ∧
      w'.db.idempotencyKeys (d.idempotencyKey, d.channel) = some ⟨d.id, now + p.idempotencyTTL⟩ := by
  obtain ⟨d', hq⟩ := queueUnlessScheduled_pending hd now
  obtain ⟨hid, hkey, hch, -⟩ := queueUnlessScheduled_ok hq hd
  rw [← hid] at hnew
  rw [← hkey, ← hch] at hfree
  obtain ⟨t', ht⟩ := Tables.ingestTransactional_new w.clock (now + p.idempotencyTTL)
    (notificationSubject p.streamPrefix d'.channel d'.priority) (idBody d'.id) (notificationHeaders d')
    (d.shouldSchedule now) hnew hfree
  have hin := Tables.ingested_of_ok hl ht
  refine ⟨d'.status, { w with db := t' }, ?_, Tables.linked_ingested hl hin, rfl, ?_, ?_⟩
  · simp only [register, hq]
    rw [CallTree.solo_bindE, solo_attempt]
    simp only [ingestPlan, answer, exec, ht, World.store, Option.bind_some, solo_pureE]
    rw [hid]
  · rw [← hid, ← hkey, ← hch]
    exact Tables.owner_ingested hin
  · rw [← hid, ← hkey, ← hch]
    show t'.idempotencyKeys (d'.idempotencyKey, d'.channel) = _
    rw [hin.keys, Function.update_self]

/-- The transaction loses to an expired registration, which the second lookup does not find either. -/
theorem solo_register_expired (p : Params) (u : String) (w : World) (d : Delivery) (now : Time) {ik : IdempotencyRow}
    (hd : d.status = .pending) (hnew : w.db.deliveries d.id = none)
    (htaken : w.db.idempotencyKeys (d.idempotencyKey, d.channel) = some ik) (hexp : ¬ w.clock < ik.expiresAt) (hl : w.db.Linked) :
    CallTree.solo (planned p (ingestPlan u)) (register p d now).run w = some (.error errNotFound, w) := by
  obtain ⟨d', hq⟩ := queueUnlessScheduled_pending hd now
  obtain ⟨hid, hkey, hch, -⟩ := queueUnlessScheduled_ok hq hd
  rw [← hid] at hnew
  rw [← hkey, ← hch] at htaken
  have ht := Tables.ingestTransactional_taken w.clock (now + p.idempotencyTTL)
    (notificationSubject p.streamPrefix d'.channel d'.priority) (idBody d'.id) (notificationHeaders d')
    (d.shouldSchedule now) hl hnew htaken
  have hmiss : w.db.findByIdempotencyKey w.clock d'.idempotencyKey d'.channel = .error errNotFound := by
    refine lookup_missing fun ik' hik' => ?_
    rw [htaken] at hik'
    cases hik'
    exact hexp
  simp only [register, hq]
  rw [CallTree.solo_bindE, solo_attempt]
  simp only [ingestPlan, answer, exec, ht, World.store, Option.bind_some]
  rw [if_pos (by decide), CallTree.solo_bindE, solo_remote]
  simp only [ingestPlan, answer, exec, hmiss, Option.bind_some]

end

/-! Registrations stay. -/

section
variable {p : Params} {s s' : System} {l : Act} {key u : String} {ch : Channel} {req : IngestRequest}

theorem registration_step {k : String × Channel} {ik : IdempotencyRow} (hl : s.state.db.Linked)
    (hk : s.state.db.idempotencyKeys k = some ik) (hs : (machine p).Step s l s') :
    s'.state.db.idempotencyKeys k = some ik := by
  rcases db_step hs with hdb | ⟨t, c, task, φ, q, f, -, -, -, hdb⟩
  · rwa [hdb]
  · rw [hdb]
    by_cases hq : (Op.remote q).Stores
    · cases q with
      | ingestTransactional d exp subject payload headers schedule =>
        simp only [exec]
        cases htx : s.state.db.ingestTransactional s.state.clock d exp subject payload headers schedule with
        | error e => exact hk
        | ok t' =>
          have hin := Tables.ingested_of_ok hl htx
          show t'.idempotencyKeys k = some ik
          rw [hin.keys, Function.update_of_ne, hk]
          rintro rfl
          rw [hin.free] at hk
          cases hk
      | _ => exact hq.elim
    · rw [exec_keys p s.state hq, hk]

theorem registration_stays {k : String × Channel} {ik : IdempotencyRow} {ok : System → Act → Prop} (h : Sane p s)
    (hk : s.state.db.idempotencyKeys k = some ik) (hr : (machine p).Reach ok s s') :
    s'.state.db.idempotencyKeys k = some ik := by
  induction hr with
  | refl => exact hk
  | step hr _ hs ih => exact registration_step (reach_sane h hr).linked ih ((machine p).step_iff.mp hs)

/-- A delivery stored under a new id by a call of its own disturbs nobody. -/
theorem sane_stored {w : World} {k : String × Channel} (h : Sane p s) (hu : u ≠ "" ∧ u ∉ s.state.issued)
    (hl : w.db.Linked) (hi : w.issued = u :: s.state.issued)
    (ho : w.db.owner = Function.update s.state.db.owner u (some k)) : Sane p { s with state := w } where
  conforms := h.conforms
  linked := hl
  minting := by
    refine ⟨⟨fun v hv => ?_, fun x hx => ?_⟩, fun t => ?_, h.minting.pair⟩
    · rw [show (Machine.board id minted { s with state := w }).shared.issued = u :: s.state.issued from hi] at hv
      rcases List.mem_cons.mp hv with rfl | hv
      · exact hu.1
      · exact h.issues.named v hv
    · rw [show (Machine.board id minted { s with state := w }).shared.issued = u :: s.state.issued from hi]
      rw [show (Machine.board id minted { s with state := w }).shared.db.owner = _ from ho] at hx
      by_cases hxu : x = u
      · exact hxu ▸ List.mem_cons_self
      · rw [Function.update_of_ne hxu] at hx
        exact List.mem_cons_of_mem _ (h.issues.stored x hx)
    · have ht := h.minting.each t
      show w.Unused (minted (s.threads t))
      change s.state.Unused (minted (s.threads t)) at ht
      cases hm : minted (s.threads t) with
      | none => trivial
      | some v =>
        rw [hm] at ht
        refine ⟨hi ▸ List.mem_cons_of_mem _ ht.1, ?_⟩
        rw [ho, Function.update_of_ne]
        · exact ht.2
        · rintro rfl
          exact hu.2 ht.1

/-- An `Ingest` of a request for `(key, ch)` returns the registration that counts, or makes a new one,
    which every later `Ingest` within the TTL returns. -/
def Reusable (p : Params) (req : IngestRequest) (key : String) (ch : Channel) (u : String) (s : System) : Prop :=
  ∃ resp w', CallTree.solo (planned p (ingestPlan u)) (ingest p req).run s.state = some (.ok resp, w') ∧
    match s.state.registration key ch with
    | some ik => resp.deliveryId = ik.deliveryId ∧ resp.duplicate = true
    | none => s.state.db.owner resp.deliveryId = none ∧ w'.db.owner resp.deliveryId = some (key, ch) ∧
        resp.duplicate = false ∧
        ∀ s', (machine p).Reach (fun _ _ => True) { s with state := w' } s' →
          s'.state.clock < s.state.clock + p.idempotencyTTL → ∀ req₂ u₂, req₂.Registers key ch →
            ∃ resp₂ w₂, CallTree.solo (planned p (ingestPlan u₂)) (ingest p req₂).run s'.state = some (.ok resp₂, w₂) ∧
              resp₂.deliveryId = resp.deliveryId ∧ resp₂.duplicate = true

theorem ingest_live (u : String) (hl : s.state.db.Linked) (hf : req.Registers key ch) {ik : IdempotencyRow}
    (hk : s.state.db.idempotencyKeys (key, ch) = some ik) (hlive : s.state.clock < ik.expiresAt) :
    ∃ resp w', CallTree.solo (planned p (ingestPlan u)) (ingest p req).run s.state = some (.ok resp, w') ∧
      resp.deliveryId = ik.deliveryId ∧ resp.duplicate = true := by
  obtain ⟨req', pri, -, -, -, -, hsolo⟩ := solo_ingest p s.state u hf
  obtain ⟨d, hd, hid⟩ := lookup_live hl hk hlive
  rw [hd] at hsolo
  exact ⟨_, _, hsolo, hid, rfl⟩

theorem unissued_new (h : Sane p s) (hu : u ∉ s.state.issued) : s.state.db.deliveries u = none := by
  by_contra hne
  exact hu (h.issues.stored u (mt Tables.owner_eq_none.mp hne))

theorem ingest_free (h : Sane p s) (hf : req.Registers key ch) (hu : u ≠ "" ∧ u ∉ s.state.issued)
    (hk : s.state.db.idempotencyKeys (key, ch) = none) : Reusable p req key ch u s := by
  obtain ⟨req', pri, hv, hch, hpri, hkey, hsolo⟩ := solo_ingest p s.state u hf
  rw [lookup_missing fun ik hik => by rw [hk] at hik; cases hik] at hsolo
  simp only [] at hsolo
  rw [if_pos (by decide), CallTree.solo_bindE, solo_newDelivery hv hch hpri hu, Option.bind_some] at hsolo
  have hnew : s.state.db.deliveries u = none := unissued_new h hu.2
  subst hkey
  obtain ⟨st, w', hreg, hl, hi, ho, hik⟩ := solo_register_ok p u { s.state with issued := u :: s.state.issued }
    (req'.delivery u ch pri s.state.clock) s.state.clock rfl hnew hk h.linked
  have hlive : s.state.registration req'.idempotencyKey ch = none := by
    simp only [World.registration, hk, Option.filter_none]
  refine ⟨_, w', hsolo.trans hreg, ?_⟩
  rw [hlive]
  refine ⟨Tables.owner_eq_none.mpr hnew, ?_, rfl, fun s' hr hclock req₂ u₂ hf₂ => ?_⟩
  · rw [ho, Function.update_self]
    rfl
  · have h' : Sane p { s with state := w' } := sane_stored h hu hl hi ho
    exact ingest_live u₂ (reach_sane h' hr).linked hf₂ (registration_stays h' hik hr) hclock

theorem ingest_expired (h : Sane p s) (hf : req.Registers key ch) (hu : u ≠ "" ∧ u ∉ s.state.issued) {ik : IdempotencyRow}
    (hk : s.state.db.idempotencyKeys (key, ch) = some ik) (hexp : ¬ s.state.clock < ik.expiresAt) :
    ∃ w', CallTree.solo (planned p (ingestPlan u)) (ingest p req).run s.state = some (.error errNotFound, w') := by
  obtain ⟨req', pri, hv, hch, hpri, hkey, hsolo⟩ := solo_ingest p s.state u hf
  have hmiss : s.state.db.findByIdempotencyKey s.state.clock key ch = .error errNotFound := by
    refine lookup_missing fun ik' hik' => ?_
    rw [hk] at hik'
    cases hik'
    exact hexp
  rw [hmiss] at hsolo
  simp only [] at hsolo
  rw [if_pos (by decide), CallTree.solo_bindE, solo_newDelivery hv hch hpri hu, Option.bind_some] at hsolo
  subst hkey
  exact ⟨_, hsolo.trans (solo_register_expired p u { s.state with issued := u :: s.state.issued }
    (req'.delivery u ch pri s.state.clock) s.state.clock rfl (unissued_new h hu.2) hk hexp h.linked)⟩

/-- An `Ingest` treats its key as reusable if and only if no expired registration is stored under it. -/
theorem ingest_reusable_iff (p : Params) (s : System) (hr : (machine p).Reach (fun _ _ => True) (System.init p) s)
    (req : IngestRequest) (key : String) (ch : Channel) (hf : req.Registers key ch) (u : String)
    (hu : u ≠ "" ∧ u ∉ s.state.issued) :
    Reusable p req key ch u s ↔
      ∀ ik, s.state.db.idempotencyKeys (key, ch) = some ik → s.state.clock < ik.expiresAt := by
  have h : Sane p s := reach_sane (init_sane p) hr
  cases hk : s.state.db.idempotencyKeys (key, ch) with
  | none => exact ⟨fun _ => nofun, fun _ => ingest_free h hf hu hk⟩
  | some ik =>
    by_cases hlive : s.state.clock < ik.expiresAt
    · obtain ⟨resp, w', hsolo, hresp⟩ := ingest_live u h.linked hf hk hlive
      have hreg : s.state.registration key ch = some ik := by
        simp only [World.registration, hk, Option.filter_some, hlive, decide_true, if_true]
      refine ⟨fun _ ik' hik' => by cases hik'; exact hlive, fun _ => ⟨resp, w', hsolo, ?_⟩⟩
      rw [hreg]
      exact hresp
    · obtain ⟨w', hsolo⟩ := ingest_expired h hf hu hk hlive
      constructor
      · rintro ⟨resp, w₁, h₁, -⟩
        rw [hsolo] at h₁
        cases h₁
      · intro hall
        exact absurd (hall ik rfl) hlive

end

theorem sampleRequest_registers : sampleRequest.Registers "k1" .email := by
  have hv : sampleRequest.validate.isOk = true := by decide +kernel
  refine ⟨?_, rfl, by decide +kernel⟩
  cases h : sampleRequest.validate with
  | ok req' => exact ⟨req', rfl⟩
  | error e =>
    rw [h] at hv
    cases hv

/-- A second `Ingest` of a key whose registration is live. -/
theorem ingest_reusable_sample : ∃ s, (machine {}).run (System.init {}) (ingestCalls 0 "d1") = some s ∧
    s.state.registration "k1" .email = some ⟨"d1", 86400000000000⟩ ∧ Reusable {} sampleRequest "k1" .email "d2" s := by
  have hrun : ((machine {}).run (System.init {}) (ingestCalls 0 "d1")).map (fun s =>
      (s.state.registration "k1" .email, s.state.db.idempotencyKeys ("k1", .email), s.state.clock,
        decide ("d2" ∉ s.state.issued))) = some (some ⟨"d1", 86400000000000⟩, some ⟨"d1", 86400000000000⟩, 0, true) := by
    decide +kernel
  obtain ⟨s, hs, hparts⟩ := Option.map_eq_some_iff.mp hrun
  simp only [Prod.mk.injEq, decide_eq_true_eq] at hparts
  obtain ⟨hregistered, hkey, hclock, hfresh⟩ := hparts
  refine ⟨s, hs, hregistered, (ingest_reusable_iff {} s (Machine.reach_run hs) sampleRequest "k1" .email
    sampleRequest_registers "d2" ⟨by decide, hfresh⟩).mpr fun ik hik => ?_⟩
  cases hkey.symm.trans hik
  rw [hclock]
  decide

/-- An `Ingest`, and a day later, when its registration has expired. -/
def dayOld : List Act := ingestCalls 0 "d1" ++ [.move (.clock 86400000000000)]

/-- The next `Ingest` of the key fails. -/
theorem expired_key_not_reusable :
    ∃ s w', (machine {}).run (System.init {}) dayOld = some s ∧ s.state.registration "k1" .email = none ∧
      CallTree.solo (planned {} (ingestPlan "d2")) (ingest {} sampleRequest).run s.state =
        some (.error errNotFound, w') ∧ ¬ Reusable {} sampleRequest "k1" .email "d2" s := by
  have hrun : ((machine {}).run (System.init {}) dayOld).bind (fun s =>
      (CallTree.solo (planned {} (ingestPlan "d2")) (ingest {} sampleRequest).run s.state).map fun q =>
        (decide (s.state.registration "k1" .email = none), q.1)) = some (true, .error errNotFound) := by
    decide +kernel
  obtain ⟨s, hs, hsolo⟩ := Option.bind_eq_some_iff.mp hrun
  obtain ⟨⟨res, w'⟩, hw', hparts⟩ := Option.map_eq_some_iff.mp hsolo
  simp only [Prod.mk.injEq, decide_eq_true_eq] at hparts
  obtain ⟨hnone, rfl⟩ := hparts
  refine ⟨s, w', hs, hnone, hw', ?_⟩
  rintro ⟨resp, w₁, h₁, -⟩
  rw [hw'] at h₁
  cases h₁

end GoCourier
