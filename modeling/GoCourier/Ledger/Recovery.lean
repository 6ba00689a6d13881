import GoCourier.Ledger.Replays

/- After a dispatch has died. A redelivered message finds what the dead dispatch left:
   queued or retrying deliveries are dispatched again and succeed, one that is still
   processing is refused by `StartProcessing`, although `CanDispatch` names it. That
   happens in no run in which no owner dies before it has written the row back. -/
namespace GoCourier

open Interleave

/-- No error, and the provider accepts. -/
def acceptPlan (att : String) (res : ProviderResult) : Op → Choice
  | .newUUID => .uuid att
  | .send _ => .verdict (.ok res)
  | _ => .run

section
variable {p : Params} {w : World} {x att : String} {res : ProviderResult} {proc : Nat}

/-- A dispatch of `x` on its own, without an error and with a provider that accepts, ends with `x` succeeded. -/
def RedispatchSucceeds (p : Params) (proc : Nat) (x att : String) (res : ProviderResult) (w : World) : Prop :=
  ∃ w' n, CallTree.solo (planned p (acceptPlan att res)) (dispatch p proc x).run w = some (.ok (), w') ∧
    w'.db.row x = some (.succeeded, n)

theorem redispatch_processing {r : DeliveryRow} (hrow : w.db.deliveries x = some r) (hst : r.status = .processing) :
    CallTree.solo (planned p (acceptPlan att res)) (dispatch p proc x).run w =
      some (.error ⟨"cannot process from status processing", []⟩, w) := by
  unfold dispatch
  rw [CallTree.solo_bindE, solo_remote]
  simp only [acceptPlan, answer, exec, Tables.findByID_stored hrow, Option.bind_some, scanDelivery, hst, reduceCtorEq,
    if_false]
  rw [CallTree.solo_bindE, solo_ask_op]
  simp [acceptPlan, answer, Delivery.startProcessing, Status.text]

/-- The tail of a dispatch the provider accepted: the row, the attempt and the event are written. -/
theorem solo_succeeded {d : Delivery} {att₁ : Attempt} {payload : AuditPayload} {r : DeliveryRow}
    (hrow : w.db.deliveries d.id = some r) (hst : d.status = .succeeded) :
    ∃ w' n, CallTree.solo (planned p (acceptPlan att res)) (do
        DeliveryRepo.update d
        DeliveryRepo.recordAttempt d.id att₁
        AuditRepo.append d.id .dispatchSucceeded payload : Go Unit).run w = some (.ok (), w') ∧
      w'.db.row d.id = some (.succeeded, n) := by
  rw [CallTree.solo_bindE, solo_remote]
  simp only [acceptPlan, answer, exec, Tables.update, hrow, Option.bind_some]
  rw [CallTree.solo_bindE, solo_remote]
  simp only [acceptPlan, answer, exec, Tables.recordAttempt, Function.update_self, World.store, Option.bind_some]
  rw [solo_remote]
  simp only [acceptPlan, answer, exec, Tables.append, Function.update_self, World.store]
  exact ⟨_, d.retryCount, rfl, by simp [Tables.row, DeliveryRow.set, hst]⟩

theorem solo_dispatchClaimed {d : Delivery} {r : DeliveryRow} {now : Time} (hrow : w.db.deliveries d.id = some r)
    (hprov : d.channel ∈ p.providers) (hclosed : (w.breakers (proc, d.channel)).state = .closed)
    (hatt : att ≠ "" ∧ att ∉ w.issued) :
    ∃ w' n, CallTree.solo (planned p (acceptPlan att res)) (dispatchClaimed p proc d now).run w = some (.ok (), w') ∧
      w'.db.row d.id = some (.succeeded, n) := by
  unfold dispatchClaimed
  rw [if_neg (not_not.mpr hprov), CallTree.solo_bindE, solo_ask_op]
  simp only [acceptPlan, answer, Breaker.allow_closed hclosed, Option.bind_some]
  rw [CallTree.solo_bindE, solo_ask_op]
  simp only [acceptPlan, answer, World.setBreaker, if_pos hatt, Option.bind_some]
  rw [CallTree.solo_bindE, solo_ask_op]
  simp only [acceptPlan, answer, Option.bind_some]
  rw [CallTree.solo_bindE, solo_ask_op]
  simp only [acceptPlan, answer, World.setBreaker, Option.bind_some]
  rw [CallTree.solo_bindE, solo_ask_op]
  simp only [acceptPlan, answer, Option.bind_some]
  exact solo_succeeded hrow rfl

theorem startProcessing_takeable {d : Delivery} (h : d.status.Takeable) (now : Time) :
    d.startProcessing now = .ok { d with status := .processing, updatedAt := now } := by
  unfold Delivery.startProcessing
  rcases h with h | h <;> rw [h]

/-- A claim by the only caller wins. -/
theorem updateIfStatus_own {t : Tables} {d : Delivery} {r : DeliveryRow} (h : t.deliveries d.id = some r) :
    t.updateIfStatus d r.status = (true, t.update d) := by
  obtain ⟨m, -, hwin⟩ | ⟨hlose, -⟩ := t.updateIfStatus_cases d r.status
  · exact hwin
  · exact absurd (Tables.row_stored h) (hlose r.retryCount)

theorem redispatch_takeable {r : DeliveryRow} (hrow : w.db.deliveries x = some r) (hst : r.status.Takeable)
    (hprov : r.channel ∈ p.providers) (hclosed : (w.breakers (proc, r.channel)).state = .closed)
    (hatt : att ≠ "" ∧ att ∉ w.issued) : RedispatchSucceeds p proc x att res w := by
  have hne : (scanDelivery x r).status ≠ .succeeded ∧ (scanDelivery x r).status ≠ .dlq := by
    show r.status ≠ .succeeded ∧ r.status ≠ .dlq
    rcases hst with h | h <;> rw [h] <;> decide
  have hstart := startProcessing_takeable (show (scanDelivery x r).status.Takeable from hst) w.clock
  unfold RedispatchSucceeds dispatch
  rw [CallTree.solo_bindE, solo_remote]
  simp only [acceptPlan, answer, exec, Tables.findByID_stored hrow, Option.bind_some]
  rw [if_neg hne.1, if_neg hne.2, CallTree.solo_bindE, solo_ask_op]
  simp only [acceptPlan, answer, Option.bind_some, hstart]
  rw [CallTree.solo_bindE, solo_remote]
  have hwin : w.db.updateIfStatus { scanDelivery x r with status := .processing, updatedAt := w.clock }
      (scanDelivery x r).status = (true, w.db.update { scanDelivery x r with status := .processing, updatedAt := w.clock }) :=
    updateIfStatus_own hrow
  simp only [acceptPlan, answer, exec, hwin, Option.bind_some, if_true]
  have hset : (w.db.update { scanDelivery x r with status := .processing, updatedAt := w.clock }).deliveries x =
      some (r.set { scanDelivery x r with status := .processing, updatedAt := w.clock }) := Tables.update_stored hrow
  exact solo_dispatchClaimed hset hprov hclosed hatt

end

/-! Who is to blame for a delivery left processing. -/

section
variable {max : Int} {deed : Deed} {L L' : Ledger} {a a' : Stance} {b : Board Ledger Stance} {t : Nat}

/-- A processing delivery has an owner, and an owner's delivery exists. -/
structure Attended (b : Board Ledger Stance) : Prop where
  owner : ∀ n, b.shared.row = some (.processing, n) → ∃ t, (b.places t).Owning
  present : ∀ t, (b.places t).Owning → b.shared.row ≠ none

theorem row_present (h : Turn max deed L a L' a') (hrow : L.row ≠ none) : L'.row ≠ none := by
  have hmap : ∀ r : Status × Nat, (L.row.map fun _ => r) ≠ none := fun r => by
    simpa only [ne_eq, Option.map_eq_none_iff] using hrow
  cases h with
  | create none new => exact absurd none hrow
  | claim row takeable => exact nofun
  | claimCut row takeable => exact nofun
  | settle hset => exact hmap _
  | settleLost hset => exact hmap _
  | requeue => exact hmap _
  | requeueLost => exact hmap _
  | queue n => exact hmap _
  | _ => exact hrow

/-- After a turn that cuts nobody off, a processing delivery has its owner: the caller, if the row was
    not processing or the caller owned it before. -/
theorem owning_turn (h : Turn max deed L a L' a') (hcut : deed ≠ .cut) {n : Nat}
    (hrow : L'.row = some (.processing, n)) : a'.Owning ∨ ¬ a.Owning ∧ ∃ m, L.row = some (.processing, m) := by
  have hmap : ∀ {r : Status × Nat}, r.1 ≠ .processing → (L.row.map fun _ => r) ≠ some (.processing, n) := by
    intro r hr h
    obtain ⟨_, _, rfl⟩ := Option.map_eq_some_iff.mp h
    exact hr rfl
  have hfinish : ∀ {a' : Stance} {r : Status × Nat}, Settling max a r a' → r.1 ≠ .processing := by
    intro a' r hset
    rcases (settling_cases hset).2.2 with h | h | h <;> rw [h] <;> decide
  cases h with
  | idle =>
    by_cases ha : a.Owning
    · exact .inl ha
    · exact .inr ⟨ha, n, hrow⟩
  | leave free => exact .inr ⟨free, n, hrow⟩
  | cut owning => exact absurd rfl hcut
  | create none new =>
    cases hrow
    rcases new with h | h <;> cases h
  | look row takeable => exact .inr ⟨nofun, n, hrow⟩
  | lookReplay row dead => exact .inr ⟨nofun, n, hrow⟩
  | lookTick row => exact .inr ⟨nofun, n, hrow⟩
  | claim row takeable => exact .inl (.owner _)
  | claimCut row takeable => exact absurd rfl hcut
  | accept m => exact .inl (.accepted m)
  | refuse m => exact .inl (.refused m)
  | block m => exact .inl (.refused m)
  | note m => exact .inl (.noted m)
  | settle hset => exact absurd hrow (hmap (hfinish hset))
  | settleLost hset => exact absurd hrow (hmap (hfinish hset))
  | record k => exact .inr ⟨nofun, n, hrow⟩
  | requeue => exact absurd hrow (hmap nofun)
  | requeueLost => exact absurd hrow (hmap nofun)
  | queue m => exact absurd hrow (hmap nofun)

theorem attended_turn (ht : Turn max deed b.shared (b.places t) L a) (hcut : deed ≠ .cut) (h : Attended b) :
    Attended (b.turn t L a) where
  owner n hrow := by
    rw [Board.turn_shared] at hrow
    rcases owning_turn ht hcut hrow with ha | ⟨ha, m, hm⟩
    · exact ⟨t, by rwa [Board.turn_self]⟩
    · obtain ⟨u, hu⟩ := h.owner m hm
      have hut : u ≠ t := fun e => ha (e ▸ hu)
      exact ⟨u, by rwa [Board.turn_other _ _ _ hut]⟩
  present u hu := by
    rw [Board.turn_shared]
    by_cases hut : u = t
    · subst hut
      rw [Board.turn_self] at hu
      rcases owning_of_turn ht hu with ha | ⟨st, n, hrow, -⟩
      · exact row_present ht (h.present u ha)
      · exact row_present ht (by rw [hrow]; exact nofun)
    · rw [Board.turn_other _ _ _ hut] at hu
      exact row_present ht (h.present u hu)

end

section
variable {p : Params} {s s' : System} {l : Act} {x : String} {t : Nat}

/-- A dispatch that owns `x` dies in this step: it crashes, or its row write or the attempt record before
    it fails, or the answer to its `UpdateIfStatus` is lost. -/
def Cut (x : String) (s : System) (l : Act) : Prop :=
  ∃ t, l = .crash t ∧ Owns x s t ∨
    ∃ c k φ op f, l = .call t c ∧ s.threads t = some ⟨k, φ, .ask op f⟩ ∧
      (Owns x s t ∧ ((∃ msg, c = .fault msg) ∨ (∃ msg, c = .lost msg) ∧ ∃ id att, op = .remote (.recordAttempt id att)) ∨
        ∃ msg d st m, c = .lost msg ∧ op = .remote (.updateIfStatus d st) ∧ d.id = x ∧ s.state.db.row x = some (st, m))

theorem cut_of_behind (ha : Attended (System.view x s)) (hb : StepBehind x s l t .cut) : Cut x s l := by
  obtain (h | ⟨-, rfl, how⟩) | ⟨c, k, φ, op, f, rfl, hth, hb⟩ := hb
  · cases h
  · exact ⟨t, .inl ⟨rfl, how⟩⟩
  · have hplace : threadStance x (s.threads t) = φ.stance x := by rw [hth, threadStance]
    obtain ⟨how, hfail⟩ | ⟨msg, d, st, m, rfl, rfl, hid, -, hrow, -⟩ := hb
    · have howns : Owns x s t := by rwa [Owns, hplace]
      refine ⟨t, .inr ⟨c, k, φ, op, f, rfl, hth, .inl ⟨howns, ?_⟩⟩⟩
      rcases hfail with h | h | h
      · exact .inl h
      · exact .inr h
      · exact absurd h (ha.present t howns)
    · exact ⟨t, .inr ⟨_, k, φ, _, f, rfl, hth, .inr ⟨msg, d, st, m, rfl, rfl, hid, hrow⟩⟩⟩

/-- The invariant of runs in which no owner of `x` dies. -/
structure Uncut (p : Params) (x : String) (s : System) : Prop where
  conforms : (machine p).Conforms (protocol p) s
  attended : Attended (System.view x s)

theorem uncut_step (h : Uncut p x s) (hok : ¬ Cut x s l) (hs : (machine p).Step s l s') : Uncut p x s' := by
  obtain ⟨t, deed, L, a, hview, hturn, hbehind⟩ := view_step x h.conforms hs
  have hcut : deed ≠ .cut := by
    rintro rfl
    exact hok (cut_of_behind h.attended hbehind)
  exact ⟨Machine.conforms_step h.conforms hs, hview ▸ attended_turn hturn hcut h.attended⟩

theorem reach_uncut (hr : (machine p).Reach (fun s l => ¬ Cut x s l) (System.init p) s) : Uncut p x s :=
  have h0 : Uncut p x (System.init p) := ⟨init_conforms p, ⟨nofun, nofun⟩⟩
  hr.invariant h0 fun _ _ _ h hok hs => uncut_step h hok hs

theorem takeable_of_canDispatch {st : Status} (h : st.canDispatch = true) (hp : st ≠ .processing) : st.Takeable := by
  cases st with
  | queued => exact .inl rfl
  | retrying => exact .inr rfl
  | processing => exact absurd rfl hp
  | _ => cases h

/-- A further dispatch of a delivery whose status `CanDispatch` names succeeds if and only if it is not
    left processing, and it is left processing only where an owner has died. -/
theorem redispatch_succeeds_iff (p : Params) (s : System) (x : String) (r : DeliveryRow) (proc : Nat) (att : String)
    (res : ProviderResult) (hrow : s.state.db.deliveries x = some r) (hcan : r.status.canDispatch = true)
    (hprov : r.channel ∈ p.providers) (hclosed : (s.state.breakers (proc, r.channel)).state = .closed)
    (hatt : att ≠ "" ∧ att ∉ s.state.issued) :
    (RedispatchSucceeds p proc x att res s.state ↔ r.status ≠ .processing) ∧
      ((machine p).Reach (fun s l => ¬ Cut x s l) (System.init p) s → ¬ InFlight x s → r.status ≠ .processing) := by
  refine ⟨⟨fun ⟨w', n, hrun, _⟩ hst => ?_, fun hst => ?_⟩, fun hr hquiet hst => ?_⟩
  · rw [redispatch_processing hrow hst] at hrun
    cases hrun
  · exact redispatch_takeable hrow (takeable_of_canDispatch hcan hst) hprov hclosed hatt
  · have hview : (System.view x s).shared.row = some (.processing, r.retryCount) := by
      simp [System.view, ledger, Tables.row, hrow, hst]
    obtain ⟨t, ht⟩ := (reach_uncut hr).attended.owner _ hview
    exact hquiet (inFlight_of_owning (reach_uncut hr).conforms ht)

end

/-- A delivery left for a retry is dispatched again and succeeds. -/
theorem redispatch_succeeds_sample :
    ∃ s, (machine {}).run (System.init {}) (ingestCalls 0 "d1" ++ retryCalls 1 "d1" "a1") = some s ∧
      RedispatchSucceeds {} 0 "d1" "a2" {} s.state := by
  have hrun : ((machine {}).run (System.init {}) (ingestCalls 0 "d1" ++ retryCalls 1 "d1" "a1")).map (fun s =>
      ((s.state.db.deliveries "d1").map fun r => (r.status, r.channel), (s.state.breakers (0, .email)).state,
        s.state.issued)) = some (some (.retrying, .email), .closed, ["a1", "d1"]) := by
    decide +kernel
  obtain ⟨s, hs, hparts⟩ := Option.map_eq_some_iff.mp hrun
  obtain ⟨hrow, hrest⟩ := Prod.mk.inj hparts
  obtain ⟨hclosed, hissued⟩ := Prod.mk.inj hrest
  obtain ⟨r, hr, hfields⟩ := Option.map_eq_some_iff.mp hrow
  obtain ⟨hst, hch⟩ := Prod.mk.inj hfields
  have h := redispatch_succeeds_iff {} s "d1" r 0 "a2" {} hr (by rw [hst]; rfl) (by rw [hch]; decide)
    (by rw [hch]; exact hclosed) (by rw [hissued]; decide)
  exact ⟨s, hs, h.1.mpr (by rw [hst]; decide)⟩

/-- A worker takes the delivery and crashes before it sends. -/
def crashedDispatch : List Act := ingestCalls 0 "d1" ++ .start 1 (.dispatch 0 "d1") :: runs 1 3 ++ [.crash 1]

/-- No dispatch is left, `CanDispatch` names the status, and yet a further dispatch fails. -/
theorem crashed_dispatch_stuck :
    ∃ s r, (machine {}).run (System.init {}) crashedDispatch = some s ∧ ¬ InFlight "d1" s ∧
      s.state.db.deliveries "d1" = some r ∧ r.status.canDispatch = true ∧ r.channel ∈ ({} : Params).providers ∧
      (s.state.breakers (0, r.channel)).state = .closed ∧ s.hist.countP (accepts "d1") = 0 ∧
      ¬ RedispatchSucceeds {} 0 "d1" "a1" {} s.state := by
  have hrun : ((machine {}).run (System.init {}) crashedDispatch).map (fun s =>
      ((s.state.db.deliveries "d1").map fun r => (r.status, r.channel), (s.state.breakers (0, .email)).state,
        s.hist.countP (accepts "d1"), (Machine.started crashedDispatch).all fun t => Machine.atRest (s.threads t))) =
      some (some (.processing, .email), .closed, 0, true) := by
    decide +kernel
  obtain ⟨s, hs, hparts⟩ := Option.map_eq_some_iff.mp hrun
  obtain ⟨hrow, hrest⟩ := Prod.mk.inj hparts
  obtain ⟨hclosed, hrest⟩ := Prod.mk.inj hrest
  obtain ⟨hacc, hidle⟩ := Prod.mk.inj hrest
  obtain ⟨r, hr, hfields⟩ := Option.map_eq_some_iff.mp hrow
  obtain ⟨hst, hch⟩ := Prod.mk.inj hfields
  refine ⟨s, r, hs, ?_, hr, by rw [hst]; rfl, by rw [hch]; decide, by rw [hch]; exact hclosed, hacc, ?_⟩
  · rintro ⟨t, th, hth, hl, -⟩
    exact Machine.rest_of_run hs (fun _ => rfl) hidle hth hl
  · rintro ⟨w', n, hsolo, -⟩
    rw [redispatch_processing hr hst] at hsolo
    cases hsolo

end GoCourier
