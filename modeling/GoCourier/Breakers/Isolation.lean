import GoCourier.Breakers.Cooldown
import GoCourier.Handover.Published
import GoCourier.Lib.Beside
import GoCourier.Pkg.Burden

/- Deliveries to bad recipients beside the others. A dispatch touches the row, the attempts and
   the message copies of its own delivery, so the only thing through which one delivery's
   dispatches can be felt by another's is the breaker of their channel. The provider's permanent
   errors are recorded there like any other failure. A run with the bad deliveries and the run
   without them go side by side as long as no failure opens a breaker which without the bad
   deliveries' failures it would not. -/
namespace GoCourier

open Interleave

/-! Which steps are whose. -/

/-- The message is of a delivery in `bad`. -/
def Message.names (bad : String → Bool) (m : Message) : Bool :=
  match m.deliveryId with
  | .ok x => bad x
  | .error _ => false

/-- A dispatch of a delivery in `bad`. -/
def Task.names (bad : String → Bool) : Task → Bool
  | .dispatch _ id => bad id
  | .handle _ _ _ m => m.names bad
  | _ => false

/-- The step is one of a dispatch of such a delivery, or takes the copy of its message back. -/
def stepNames (bad : String → Bool) (s : System) : Act → Bool
  | .start _ k => k.names bad
  | .call t _ => (s.threads t).any (·.task.names bad)
  | .crash t => (s.threads t).any (·.task.names bad)
  | .move (.ackWait i _) => (s.state.stream[i]?).any (·.names bad)
  | .move (.clock _) => false

/-- Only dispatches start, the provider rejects the bad recipients for good, and the clock is never set back. -/
structure DispatchStep (bad : String → Bool) (s : System) (l : Act) : Prop where
  only : ∀ t k, l = .start t k → (∃ proc id, k = .dispatch proc id) ∨ ∃ proc i c m, k = .handle proc i c m
  rejected : ∀ t v th, l = .call t (.verdict v) → s.threads t = some th → th.task.names bad = true →
    ∃ e, v = .error e ∧ isPermanent e = true
  forward : ClockForward s l

/-- A failure opens the breaker it is recorded in, which it would not without those of the bad
    deliveries: it is one of theirs, or the breaker `v` has without theirs stays as it is. -/
def Harms (bad : String → Bool) (s v : System) (l : Act) : Prop :=
  ∃ t c k φ proc ch f, l = .call t c ∧ s.threads t = some ⟨k, φ, .ask (.recordFailure proc ch) f⟩ ∧
    (s.state.breakers (proc, ch)).Trips s.state.clock ∧
    (k.names bad = true ∨ ¬ (v.state.breakers (proc, ch)).Trips s.state.clock)

/-- The calls of everyone else, with their answers. -/
def otherCalls (bad : String → Bool) (s : System) : List (Event Op Ans Task) :=
  s.hist.filter fun e => ! e.task.names bad

/-! The world as the others see it. -/

/-- `v` holds what the dispatches of other deliveries look at in `w`; its breakers may have fewer failures. -/
structure Spared (bad : String → Bool) (w v : World) : Prop where
  rows : ∀ x, bad x = false → v.db.deliveries x = w.db.deliveries x
  stream : v.stream = w.stream
  copies : ∀ i c, (w.stream[i]?).any (·.names bad) = false → v.copies (i, c) = w.copies (i, c)
  clock : v.clock = w.clock
  issued : v.issued ⊆ w.issued
  breakers : ∀ pc, Burdened (v.breakers pc) (w.breakers pc) w.clock

/-- What no call of a dispatch on the database or the broker changes. -/
structure Aside (w w' : World) : Prop where
  stream : w'.stream = w.stream
  copies : w'.copies = w.copies
  clock : w'.clock = w.clock
  issued : w'.issued = w.issued
  breakers : w'.breakers = w.breakers

/-- The calls of a dispatch on the database and the broker, for a delivery of `T`. -/
inductive Remote.Within (T : String → Prop) : Remote → Prop where
  | findByID {id : String} (own : T id) : Within T (.findByID id)
  | updateIfStatus {d : Delivery} {st : Status} (own : T d.id) : Within T (.updateIfStatus d st)
  | update {d : Delivery} (own : T d.id) : Within T (.update d)
  | recordAttempt {id : String} {a : Attempt} (own : T id) : Within T (.recordAttempt id a)
  | append {id : String} {ev : DomainEventType} {payload : AuditPayload} (own : T id) : Within T (.append id ev payload)
  | dead {ch : Channel} {body : Body} {headers : Headers} : Within T (.publish (dlqSubject ch) body headers)

/-- What such a call makes of the row of `x`. -/
def Remote.turnRow (x : String) (r : Option DeliveryRow) : Remote → Option DeliveryRow
  | .update d => if d.id = x then r.map (·.set d) else r
  | .updateIfStatus d st => if d.id = x ∧ r.any (·.status = st) then r.map (·.set d) else r
  | _ => r

section
variable {p : Params} {bad : String → Bool} {w w' v v' : World} {T : String → Prop} {q : Remote}

theorem within_of_may {C : Nat × Nat → Prop} {ψ : WorkerPhase} (hm : WorkerMay p T C ψ (.remote q)) (hψ : ψ.About T) :
    q.Within T := by
  cases q with
  | findByID id => exact .findByID hm.2
  | updateIfStatus d st =>
    obtain ⟨d₀, t, rfl, -, -, rfl⟩ := hm
    exact .updateIfStatus hψ
  | update d => exact .update (settles_id hm hψ)
  | recordAttempt id a =>
    apply Remote.Within.recordAttempt
    cases hm <;> exact hψ
  | append id ev payload =>
    obtain ⟨d, noted, rfl, rfl, -⟩ := hm
    exact .append hψ
  | publish subject body headers =>
    obtain ⟨d, noted, rfl, -, rfl, -⟩ := hm
    exact .dead
  | _ => exact hm.elim

theorem deliveries_turn (t : Tables) (d : Delivery) (x : String) :
    (t.update d).deliveries x = (Remote.update d).turnRow x (t.deliveries x) := by
  simp only [Remote.turnRow]
  split
  · rename_i hx
    subst hx
    exact deliveries_update_self t d
  · rename_i hx
    unfold Tables.update
    split
    · exact Function.update_of_ne (Ne.symm hx) ..
    · rfl

theorem exec_turnRow (hq : q.Within T) (x : String) :
    (exec p w q).2.db.deliveries x = q.turnRow x (w.db.deliveries x) := by
  have hstore : ∀ {e : Except Err Tables}, (∀ t, e = .ok t → t.deliveries = w.db.deliveries) →
      (w.store e).2.db.deliveries x = w.db.deliveries x := fun he => congrFun (store_deliveries he) x
  cases hq with
  | findByID own => rfl
  | update own => exact deliveries_turn ..
  | @updateIfStatus d st own =>
    show (w.db.updateIfStatus d st).2.deliveries x = _
    unfold Tables.updateIfStatus
    simp only [Remote.turnRow]
    cases hr : w.db.deliveries d.id with
    | none =>
      by_cases hx : d.id = x
      · subst hx
        simp [hr]
      · simp [hx]
    | some r =>
      by_cases hst : r.status = st
      · by_cases hx : d.id = x
        · subst hx
          simp [hr, hst]
        · simp [hst, hx, Function.update_of_ne (Ne.symm hx)]
      · by_cases hx : d.id = x
        · subst hx
          simp [hr, hst]
        · simp [hst, hx]
  | recordAttempt own => exact hstore fun t ht => Tables.recordAttempt_deliveries ht
  | append own => exact hstore fun t ht => Tables.append_deliveries ht
  | dead => exact congrArg (·.deliveries x) (publish_db p w _)

theorem exec_aside (hq : q.Within T) : Aside w (exec p w q).2 := by
  obtain ⟨hissued, hcopies, hclock⟩ := exec_rest p w q
  refine ⟨?_, hcopies, hclock, hissued, exec_breakers p w q⟩
  rcases exec_posts p w q with ⟨hstream, -⟩ | ⟨subject, body, headers, rfl, ⟨hmem, -⟩ | ⟨-, hstream, -⟩⟩
  · exact hstream
  · -- a dead letter goes to its own stream
    cases hq with
    | dead => exact absurd hmem (dlqSubject_not_mem _ _)
  · exact hstream

/-- Two calls of one answer, the rows of the others alike afterwards. -/
theorem Spared.exec (h : Spared bad w v) (hw : Aside w w') (hv : Aside v v')
    (hrows : ∀ x, bad x = false → v'.db.deliveries x = w'.db.deliveries x) : Spared bad w' v' := by
  refine ⟨hrows, ?_, ?_, ?_, ?_, ?_⟩
  · rw [hw.stream, hv.stream, h.stream]
  · rw [hw.stream, hw.copies, hv.copies]
    exact h.copies
  · rw [hw.clock, hv.clock, h.clock]
  · rw [hw.issued, hv.issued]
    exact h.issued
  · rw [hw.breakers, hv.breakers, hw.clock]
    exact h.breakers

/-- Another's call has the same answer in both. -/
theorem spared_exec (h : Spared bad w v) (hq : q.Within (bad · = false)) :
    (GoCourier.exec p v q).1 = (GoCourier.exec p w q).1 ∧ Spared bad (GoCourier.exec p w q).2 (GoCourier.exec p v q).2 := by
  refine ⟨?_, h.exec (exec_aside hq) (exec_aside hq) fun x hx => ?_⟩
  · cases hq with
    | findByID own =>
      simp only [GoCourier.exec, Tables.findByID, h.rows _ own]
    | update own => rfl
    | updateIfStatus own =>
      simp only [GoCourier.exec, Tables.updateIfStatus, h.rows _ own]
      split
      · split <;> rfl
      · rfl
    | recordAttempt own =>
      simp only [GoCourier.exec, Tables.recordAttempt, h.rows _ own]
      split <;> rfl
    | append own =>
      simp only [GoCourier.exec, Tables.append, h.rows _ own]
      split <;> rfl
    | dead =>
      simp only [GoCourier.exec, World.publish]
      split_ifs <;> rfl
  · rw [exec_turnRow hq, exec_turnRow hq, h.rows x hx]

/-- A bad delivery's call is not seen by the others. -/
theorem spared_unseen (h : Spared bad w v) (hq : q.Within (bad · = true)) : Spared bad (GoCourier.exec p w q).2 v := by
  refine h.exec (exec_aside hq) ⟨rfl, rfl, rfl, rfl, rfl⟩ fun x hx => ?_
  rw [exec_turnRow hq, h.rows x hx]
  have hne : ∀ {y}, bad y = true → y ≠ x := by
    intro y hy hyx
    rw [hyx, hx] at hy
    cases hy
  cases hq with
  | update own => exact (if_neg (hne own)).symm
  | updateIfStatus own => exact (if_neg fun hx => hne own hx.1).symm
  | _ => rfl

/-! Breakers and copies. -/

theorem spared_breaker (h : Spared bad w v) (proc : Nat) (ch : Channel) {g b : Breaker} (hb : Burdened g b w.clock) :
    Spared bad (w.setBreaker proc ch b) (v.setBreaker proc ch g) := by
  refine ⟨h.rows, h.stream, h.copies, h.clock, h.issued, fun pc => ?_⟩
  unfold World.setBreaker
  by_cases hpc : pc = (proc, ch)
  · subst hpc
    simp only [Function.update_self]
    exact hb
  · simp only [Function.update_of_ne hpc]
    exact h.breakers pc

/-- Only the breaker of `w` moves. -/
theorem spared_breaker_unseen (h : Spared bad w v) (proc : Nat) (ch : Channel) {b : Breaker}
    (hb : Burdened (v.breakers (proc, ch)) b w.clock) : Spared bad (w.setBreaker proc ch b) v := by
  have hset : v.setBreaker proc ch (v.breakers (proc, ch)) = v := by
    rw [World.setBreaker, Function.update_eq_self]
  have hboth := spared_breaker h proc ch hb
  rwa [hset] at hboth

theorem spared_copy (h : Spared bad w v) (i c : Nat) (s : Copy) : Spared bad (w.setCopy i c s) (v.setCopy i c s) := by
  refine ⟨h.rows, h.stream, fun j d hj => ?_, h.clock, h.issued, h.breakers⟩
  unfold World.setCopy
  by_cases hjd : (j, d) = (i, c)
  · simp only [hjd, Function.update_self]
  · simp only [Function.update_of_ne hjd]
    exact h.copies j d hj

/-- Only a copy of a bad delivery's message moves. -/
theorem spared_copy_unseen (h : Spared bad w v) {i : Nat} (hi : (w.stream[i]?).any (·.names bad) = true) (c : Nat)
    (s : Copy) : Spared bad (w.setCopy i c s) v := by
  refine ⟨h.rows, h.stream, fun j d hj => ?_, h.clock, h.issued, h.breakers⟩
  have hne : (j, d) ≠ (i, c) := by
    intro hjd
    cases hjd
    exact Bool.noConfusion (hj.symm.trans hi)
  unfold World.setCopy
  simp only [Function.update_of_ne hne]
  exact h.copies j d hj

/-! Calls. -/

theorem Remote.Within.mono {S : String → Prop} (h : ∀ x, T x → S x) (hq : q.Within T) : q.Within S := by
  cases hq with
  | findByID own => exact .findByID (h _ own)
  | updateIfStatus own => exact .updateIfStatus (h _ own)
  | update own => exact .update (h _ own)
  | recordAttempt own => exact .recordAttempt (h _ own)
  | append own => exact .append (h _ own)
  | dead => exact .dead

section
variable {C : Nat × Nat → Prop} {ψ : WorkerPhase} {op : Op} {c : Choice} {r : Ans op}

/-- What a dispatch of another delivery is answered, it is answered in both. -/
theorem spared_answer (h : Spared bad w v) (hm : WorkerMay p T C ψ op) (hψ : ψ.About T) (hT : ∀ x, T x → bad x = false)
    (hC : ∀ i c, C (i, c) → (w.stream[i]?).any (·.names bad) = false)
    (hharm : ∀ proc ch, op = .recordFailure proc ch → (w.breakers (proc, ch)).Trips w.clock →
      (v.breakers (proc, ch)).Trips w.clock)
    (ha : Answered p w op c r w') : ∃ v', answer p op c v = some (r, v') ∧ Spared bad w' v' := by
  cases ha with
  | now => exact ⟨v, by rw [answer, h.clock], h⟩
  | @newUUID u ne fresh =>
    refine ⟨{ v with issued := u :: v.issued }, if_pos ⟨ne, fun hu => fresh (h.issued hu)⟩, ?_⟩
    exact ⟨h.rows, h.stream, h.copies, h.clock, List.cons_subset_cons _ h.issued, h.breakers⟩
  | int63n range => exact ⟨v, if_pos range, h⟩
  | allow proc ch =>
    obtain ⟨hsame, hb⟩ := burdened_allow (h.breakers (proc, ch))
    refine ⟨_, ?_, spared_breaker h proc ch hb⟩
    simp only [answer, h.clock, hsame]
  | recordSuccess proc ch => exact ⟨_, rfl, spared_breaker h proc ch (burdened_success (h.breakers (proc, ch)))⟩
  | recordFailure proc ch =>
    refine ⟨_, ?_, spared_breaker h proc ch (burdened_failure (h.breakers (proc, ch)) (hharm proc ch rfl))⟩
    simp only [answer, h.clock]
  | send d verdict => exact ⟨v, rfl, h⟩
  | ack i c =>
    refine ⟨_, ?_, spared_copy h i c _⟩
    simp only [answer, h.copies i c (hC i c hm.1)]
  | nak i c =>
    refine ⟨_, ?_, spared_copy h i c _⟩
    simp only [answer, h.copies i c (hC i c hm.1)]
  | ackLost i c msg => exact ⟨v, rfl, h⟩
  | nakLost i c msg => exact ⟨v, rfl, h⟩
  | ran q =>
    obtain ⟨hsame, hs⟩ := spared_exec (p := p) h ((within_of_may hm hψ).mono hT)
    refine ⟨_, ?_, hs⟩
    rw [answer, ← hsame]
  | fault q msg => exact ⟨v, rfl, h⟩
  | lost q msg => exact ⟨_, rfl, (spared_exec h ((within_of_may hm hψ).mono hT)).2⟩

/-- What a dispatch of a bad delivery is answered, the others do not see, as long as no failure of
    its opens a breaker. -/
theorem spared_own (h : Spared bad w v) (hm : WorkerMay p T C ψ op) (hψ : ψ.About T) (hT : ∀ x, T x → bad x = true)
    (hC : ∀ i c, C (i, c) → (w.stream[i]?).any (·.names bad) = true) (hrejected : ∀ d, ψ ≠ .accepted d)
    (hharm : ∀ proc ch, op = .recordFailure proc ch → ¬ (w.breakers (proc, ch)).Trips w.clock)
    (ha : Answered p w op c r w') : Spared bad w' v := by
  cases ha with
  | @newUUID u ne fresh =>
    exact ⟨h.rows, h.stream, h.copies, h.clock, List.subset_cons_of_subset u h.issued, h.breakers⟩
  | allow proc ch => exact spared_breaker_unseen h proc ch (burdened_probe (h.breakers (proc, ch)))
  | recordSuccess proc ch =>
    obtain ⟨d, hd, -⟩ := hm
    exact absurd hd (hrejected d)
  | recordFailure proc ch =>
    exact spared_breaker_unseen h proc ch (burdened_extra (h.breakers (proc, ch)) (hharm proc ch rfl))
  | ack i c => exact spared_copy_unseen h (hC i c hm.1) c _
  | nak i c => exact spared_copy_unseen h (hC i c hm.1) c _
  | ran q => exact spared_unseen h ((within_of_may hm hψ).mono hT)
  | lost q msg => exact spared_unseen h ((within_of_may hm hψ).mono hT)
  | _ => exact h

end

end

end GoCourier
