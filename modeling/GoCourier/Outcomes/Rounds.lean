import GoCourier.Outcomes.Transitions
import GoCourier.Services.Retry

/- Dispatches of one delivery, one at a time, while nothing fails and the breaker admits
   every call. The provider's verdicts are laid down; the delivery is retried until a
   verdict settles it or no retry is left. Each retry computes a delay first, and where
   that panics the dispatch does not return. -/
namespace GoCourier

open Interleave

abbrev Verdict := Except Err ProviderResult

/-- A success or a permanent error. -/
def finalVerdict : Verdict → Bool
  | .ok _ => true
  | .error e => isPermanent e

/-- Served, but the breaker admits every call and the provider's verdict is `v`. -/
def scripted (p : Params) (v : Verdict) : Env Op Ans World
  | .allow _ _, w, r, w' => r = .ok () ∧ w.Passes w'
  | .send _, w, r, w' => r = v ∧ w.Passes w'
  | op, w, r, w' => served p op w r w'

/-- Nothing can be called but `FindByID`. -/
def reading (p : Params) : Env Op Ans World
  | .remote (.findByID id), w, r, w' => served p (.remote (.findByID id)) w r w'
  | _, _, _, _ => False

section
variable (p : Params) (v : Verdict)

instance (q : Remote) : Serves p (scripted p v) (.remote q) := ⟨fun _ _ _ => Iff.rfl⟩
instance : Serves p (scripted p v) .now := ⟨fun _ _ _ => Iff.rfl⟩
instance : Serves p (scripted p v) .newUUID := ⟨fun _ _ _ => Iff.rfl⟩
instance (n : Int) : Serves p (scripted p v) (.int63n n) := ⟨fun _ _ _ => Iff.rfl⟩
instance (proc : Nat) (ch : Channel) : Serves p (scripted p v) (.recordSuccess proc ch) := ⟨fun _ _ _ => Iff.rfl⟩
instance (proc : Nat) (ch : Channel) : Serves p (scripted p v) (.recordFailure proc ch) := ⟨fun _ _ _ => Iff.rfl⟩
instance (id : String) : Serves p (reading p) (.remote (.findByID id)) := ⟨fun _ _ _ => Iff.rfl⟩

end

/-! What the calls of a dispatch make of its delivery. -/

/-- The row of `x`, and the numbers of its attempts. -/
def Tables.Has (t : Tables) (x : String) (r : DeliveryRow) (numbers : List Nat) : Prop :=
  t.deliveries x = some r ∧ t.attemptNumbers x = numbers

section
variable {p : Params} {env : Env Op Ans World} {w : World} {x : String} {r : DeliveryRow} {numbers : List Nat}
  {d : Delivery}

theorem has_update (h : w.db.Has x r numbers) (hd : d.id = x) : (w.db.update d).Has x (r.set d) numbers := by
  subst hd
  exact ⟨Tables.update_stored h.1, (update_sameHistory w.db d d.id).1.trans h.2⟩

theorem ensures_findByID [Serves p env (.remote (.findByID x))] (h : w.db.Has x r numbers)
    {Q : Except Err Delivery → World → Prop} (hQ : ∀ w', w'.db = w.db → Q (.ok (scanDelivery x r)) w') :
    Ensures env (DeliveryRepo.findByID x).run w Q := by
  have hfound := Tables.findByID_stored h.1
  apply ensures_remote.mpr
  intro w' hpass
  simp only [exec, hfound] at hpass ⊢
  exact hQ w' hpass.db

theorem ensures_update [Serves p env (.remote (.update d))] (h : w.db.Has x r numbers) (hd : d.id = x)
    {Q : Except Err Unit → World → Prop} (hQ : ∀ w', w'.db.Has x (r.set d) numbers → Q (.ok ()) w') :
    Ensures env (DeliveryRepo.update d).run w Q := by
  apply ensures_remote.mpr
  intro w' hpass
  apply hQ
  rw [hpass.db]
  exact has_update h hd

theorem ensures_updateIfStatus [Serves p env (.remote (.updateIfStatus d r.status))] (h : w.db.Has x r numbers)
    (hd : d.id = x) {Q : Except Err Bool → World → Prop} (hQ : ∀ w', w'.db.Has x (r.set d) numbers → Q (.ok true) w') :
    Ensures env (DeliveryRepo.updateIfStatus d r.status).run w Q := by
  subst hd
  have hrow := updateIfStatus_own h.1
  apply ensures_remote.mpr
  intro w' hpass
  simp only [exec, hrow] at hpass ⊢
  apply hQ
  rw [hpass.db]
  exact has_update h rfl

theorem ensures_recordAttempt {a : Attempt} [Serves p env (.remote (.recordAttempt x a))] (h : w.db.Has x r numbers)
    {Q : Except Err Unit → World → Prop} (hQ : ∀ w', w'.db.Has x r (numbers ++ [a.attemptNumber]) → Q (.ok ()) w') :
    Ensures env (DeliveryRepo.recordAttempt x a).run w Q := by
  have hok := Tables.recordAttempt_stored h.1 a
  apply ensures_remote.mpr
  intro w' hpass
  simp only [exec, hok, World.store] at hpass ⊢
  apply hQ
  rw [hpass.db]
  refine ⟨h.1, ?_⟩
  rw [← h.2]
  simp [Tables.attemptNumbers]

theorem exec_append_has (h : w.db.Has x r numbers) (p : Params) (ev : DomainEventType) (payload : AuditPayload) :
    (exec p w (.append x ev payload)).1 = .ok () ∧ (exec p w (.append x ev payload)).2.db.Has x r numbers := by
  have hok := Tables.append_stored h.1 w.clock ev payload
  simp only [exec, hok, World.store, true_and]
  exact h

theorem ensures_append {ev : DomainEventType} {payload : AuditPayload} [Serves p env (.remote (.append x ev payload))]
    (h : w.db.Has x r numbers) {Q : Except Err Unit → World → Prop} (hQ : ∀ w', w'.db.Has x r numbers → Q (.ok ()) w') :
    Ensures env (AuditRepo.append x ev payload).run w Q := by
  obtain ⟨hok, hhas⟩ := exec_append_has h p ev payload
  apply ensures_remote.mpr
  intro w' hpass
  rw [hok]
  apply hQ
  rw [hpass.db]
  exact hhas

theorem ensures_ignore_append {ev : DomainEventType} {payload : AuditPayload}
    [Serves p env (.remote (.append x ev payload))] (h : w.db.Has x r numbers) {Q : Except Err Unit → World → Prop}
    (hQ : ∀ w', w'.db.Has x r numbers → Q (.ok ()) w') : Ensures env (ignore (.append x ev payload)).run w Q := by
  apply ensures_ignore.mpr
  intro w' hpass
  apply hQ
  rw [hpass.db]
  exact (exec_append_has h p ev payload).2

theorem ensures_ignore_publish {subject : String} {body : Body} {headers : Headers}
    [Serves p env (.remote (.publish subject body headers))] (h : w.db.Has x r numbers)
    {Q : Except Err Unit → World → Prop} (hQ : ∀ w', w'.db.Has x r numbers → Q (.ok ()) w') :
    Ensures env (ignore (.publish subject body headers)).run w Q := by
  have hdb : (exec p w (.publish subject body headers)).2.db = w.db := publish_db p w _
  apply ensures_ignore.mpr
  intro w' hpass
  apply hQ
  rw [hpass.db, hdb]
  exact h

variable {v : Verdict} {proc : Nat} {ch : Channel}

theorem ensures_allow {Q : Except Err (Except Err Unit) → World → Prop} (hQ : ∀ w', w'.db = w.db → Q (.ok (.ok ())) w') :
    Ensures (scripted p v) (ask (.allow proc ch)).run w Q := by
  refine ⟨⟨.ok (), w, rfl, World.passes_refl w⟩, ?_⟩
  intro r w' hr
  obtain ⟨hans, hpass⟩ : r = .ok () ∧ w.Passes w' := hr
  rw [hans]
  exact hQ w' hpass.db

theorem ensures_send {Q : Except Err Verdict → World → Prop} (hQ : ∀ w', w'.db = w.db → Q (.ok v) w') :
    Ensures (scripted p v) (ask (.send d)).run w Q := by
  refine ⟨⟨v, w, rfl, World.passes_refl w⟩, ?_⟩
  intro r w' hr
  obtain ⟨hans, hpass⟩ : r = v ∧ w.Passes w' := hr
  rw [hans]
  exact hQ w' hpass.db

theorem Tables.Has.of_db {t t' : Tables} (h : t.Has x r numbers) (hdb : t' = t) : t'.Has x r numbers := hdb ▸ h

/-- What `moveToDLQ` does once the attempt is recorded. -/
theorem ensures_deadLetter {msg : String} (h : w.db.Has x r numbers) (hd : d.id = x)
    {Q : Except Err Unit → World → Prop} (hQ : ∀ w', w'.db.Has x (r.set d) numbers → Q (.ok ()) w') :
    Ensures (scripted p v) (do
      DeliveryRepo.update d
      ignore (.publish (dlqSubject d.channel) (dlqBody d msg) [("delivery_id", d.id)])
      AuditRepo.append d.id .movedToDLQ [("error", .str msg)] : Go Unit).run w Q := by
  subst hd
  rw [ensures_bindE]
  apply ensures_update h rfl
  intro w₁ h₁
  simp only []
  rw [ensures_bindE]
  apply ensures_ignore_publish h₁
  intro w₂ h₂
  exact ensures_append h₂ hQ

/-! A failed attempt. -/

variable {a : Attempt} {e : Err}

theorem ensures_giveUp (h : w.db.Has d.id r numbers) (hout : giveUp p d e) {Q : Except Err Unit → World → Prop}
    (hQ : ∀ w' r', r'.status = .dlq → w'.db.Has d.id r' (numbers ++ [a.attemptNumber]) → Q (.ok ()) w') :
    Ensures (scripted p v) (handleFailure p d a e).run w Q := by
  unfold handleFailure
  rw [ensures_bindE]
  apply ensures_now.mpr
  intro w₁ hpass
  simp only [if_pos hout]
  unfold moveToDLQ
  simp only []
  rw [ensures_bindE]
  apply ensures_recordAttempt (h.of_db hpass.db)
  intro w₂ h₂
  apply ensures_deadLetter h₂ (Delivery.markDLQ_id ..)
  intro w₃ h₃
  have hset : ∀ d' : Delivery, (r.set d').status = d'.status := fun _ => rfl
  apply hQ w₃ _ _ h₃
  rw [hset, Delivery.markDLQ_status]

theorem ensures_retry (h : w.db.Has d.id r numbers) (hmore : ¬ giveUp p d e)
    (hdelay : 2 ≤ wrapped (d.retryCount + 1 : Nat) p.retryBase p.retryMax) {Q : Except Err Unit → World → Prop}
    (hQ : ∀ w' r', r'.status = .retrying → r'.retryCount = d.retryCount + 1 → r'.channel = r.channel →
      w'.db.Has d.id r' (numbers ++ [a.attemptNumber]) → Q (.error errTransient) w') :
    Ensures (scripted p v) (handleFailure p d a e).run w Q := by
  unfold handleFailure
  rw [ensures_bindE]
  apply ensures_now.mpr
  intro w₁ hpass
  simp only [if_neg hmore]
  rw [ensures_bindE]
  apply ensures_update (h.of_db hpass.db) (Delivery.markRetrying_id ..)
  intro w₂ h₂
  simp only []
  rw [ensures_bindE]
  apply ensures_recordAttempt h₂
  intro w₃ h₃
  simp only []
  rw [ensures_bindE]
  apply ensures_ignore_append h₃
  intro w₄ h₄
  simp only []
  rw [ensures_bindE]
  apply ensures_delay.mpr
  refine ⟨hdelay, fun jitter w₅ _ _ hpass => ?_⟩
  apply hQ w₅ _ _ _ _ (h₄.of_db hpass.db)
  · rfl
  · rfl
  · rfl

/-- A retry that returns has computed its delay. -/
theorem delay_of_retry (h : w.db.Has d.id r numbers) (hmore : ¬ giveUp p d e) {Q : Except Err Unit → World → Prop}
    (hret : Ensures (scripted p v) (handleFailure p d a e).run w Q) :
    2 ≤ wrapped (d.retryCount + 1 : Nat) p.retryBase p.retryMax := by
  unfold handleFailure at hret
  obtain ⟨now, w₁, hdb, hret⟩ := ensures_next (P := fun _ w' => w'.db = w.db) hret
    (ensures_now.mpr fun w' hpass => ⟨_, rfl, hpass.db⟩)
  simp only [if_neg hmore] at hret
  obtain ⟨-, w₂, ⟨r₂, h₂⟩, hret⟩ := ensures_next (P := fun _ w' => ∃ r, w'.db.Has d.id r numbers) hret
    (ensures_update (h.of_db hdb) (Delivery.markRetrying_id ..) fun w' h' => ⟨(), rfl, _, h'⟩)
  obtain ⟨-, w₃, ⟨n₃, h₃⟩, hret⟩ := ensures_next (P := fun _ w' => ∃ numbers, w'.db.Has d.id r₂ numbers) hret
    (ensures_recordAttempt h₂ fun w' h' => ⟨(), rfl, _, h'⟩)
  obtain ⟨-, w₄, -, hret⟩ := ensures_next (P := fun _ _ => True) hret
    (ensures_ignore_append h₃ fun w' h' => ⟨(), rfl, trivial⟩)
  rw [ensures_bindE] at hret
  exact (ensures_delay.mp hret).1

/-! A dispatch. -/

/-- The delivery can be taken, and its channel has a provider. -/
def Servable (p : Params) (r : DeliveryRow) : Prop := r.status.Takeable ∧ r.channel ∈ p.providers

/-- The delivery a dispatch has taken, from its row. -/
def taken (x : String) (r : DeliveryRow) (now : Time) : Delivery :=
  { scanDelivery x r with status := .processing, updatedAt := now }

theorem ensures_taken (h : w.db.Has x r numbers) (ht : Servable p r) {Q : Except Err Unit → World → Prop}
    (hQ : ∀ w' now, w'.db.Has x (r.set (taken x r now)) numbers →
      Ensures (scripted p v) (dispatchClaimed p proc (taken x r now) now).run w' Q) :
    Ensures (scripted p v) (dispatch p proc x).run w Q := by
  have hlive : (scanDelivery x r).status ≠ .succeeded ∧ (scanDelivery x r).status ≠ .dlq := by
    show r.status ≠ .succeeded ∧ r.status ≠ .dlq
    rcases ht.1 with hst | hst <;> rw [hst] <;> decide
  have hstart : ∀ now, (scanDelivery x r).startProcessing now = .ok (taken x r now) :=
    startProcessing_takeable (show (scanDelivery x r).status.Takeable from ht.1)
  unfold dispatch
  rw [ensures_bindE]
  apply ensures_findByID h
  intro w₁ hdb
  simp only [if_neg hlive.1, if_neg hlive.2]
  rw [ensures_bindE]
  apply ensures_now.mpr
  intro w₂ hpass
  simp only [hstart]
  rw [ensures_bindE]
  apply ensures_updateIfStatus (h.of_db (hpass.db.trans hdb)) rfl
  intro w₃ h₃
  exact hQ w₃ _ h₃

/-- It is admitted and sent, with the next number. -/
theorem ensures_sent (h : w.db.Has x r numbers) (hd : d.channel ∈ p.providers) {now : Time}
    {Q : Except Err Unit → World → Prop} (hok : ∀ res, v = .ok res → ∀ w' r' , r'.status = .succeeded →
      w'.db.Has x r' (numbers ++ [d.retryCount + 1]) → Q (.ok ()) w')
    (herror : ∀ e, v = .error e → ∀ w' a, a.attemptNumber = d.retryCount + 1 → w'.db.Has x r numbers →
      Ensures (scripted p v) (handleFailure p d a e).run w' Q) (hx : d.id = x) :
    Ensures (scripted p v) (dispatchClaimed p proc d now).run w Q := by
  subst hx
  unfold dispatchClaimed
  rw [if_neg (not_not.mpr hd), ensures_bindE]
  apply ensures_allow
  intro w₁ hdb₁
  simp only []
  rw [ensures_bindE]
  apply ensures_newUUID
  intro u w₂ _ hdb₂
  simp only []
  rw [ensures_bindE]
  apply ensures_send
  intro w₃ hdb₃
  have h₃ := h.of_db (hdb₃.trans (hdb₂.trans hdb₁))
  cases v with
  | error e =>
    simp only []
    rw [ensures_bindE]
    apply ensures_recordFailure
    intro w₄ hdb₄
    exact herror e rfl w₄ _ rfl (h₃.of_db hdb₄)
  | ok res =>
    simp only []
    rw [ensures_bindE]
    apply ensures_recordSuccess
    intro w₄ hdb₄
    simp only []
    rw [ensures_bindE]
    apply ensures_now.mpr
    intro w₅ hpass
    simp only []
    rw [ensures_bindE]
    apply ensures_update (h₃.of_db (hpass.db.trans hdb₄)) (Delivery.markSucceeded_id ..)
    intro w₆ h₆
    simp only []
    rw [ensures_bindE]
    apply ensures_recordAttempt h₆
    intro w₇ h₇
    apply ensures_append h₇
    intro w₈ h₈
    apply hok res rfl w₈ _ _ h₈
    rfl

/-- A dispatch that is to be retried, and returns, has computed its delay. -/
theorem delay_of_dispatch (h : w.db.Has x r numbers) (ht : Servable p r) (hv : v = .error e)
    (hmore : ∀ d : Delivery, d.retryCount = r.retryCount → ¬ giveUp p d e) {Q : Except Err Unit → World → Prop}
    (hret : Ensures (scripted p v) (dispatch p proc x).run w Q) :
    2 ≤ wrapped (r.retryCount + 1 : Nat) p.retryBase p.retryMax := by
  subst hv
  have hlive : (scanDelivery x r).status ≠ .succeeded ∧ (scanDelivery x r).status ≠ .dlq := by
    show r.status ≠ .succeeded ∧ r.status ≠ .dlq
    rcases ht.1 with hst | hst <;> rw [hst] <;> decide
  have hstart : ∀ now, (scanDelivery x r).startProcessing now = .ok (taken x r now) :=
    startProcessing_takeable (show (scanDelivery x r).status.Takeable from ht.1)
  have hpresent : ∀ now, (taken x r now).channel ∈ p.providers := fun _ => ht.2
  unfold dispatch at hret
  obtain ⟨d, w₁, ⟨rfl, hdb₁⟩, hret⟩ := ensures_next (P := fun d w' => d = scanDelivery x r ∧ w'.db = w.db) hret
    (ensures_findByID h fun w' hdb => ⟨_, rfl, rfl, hdb⟩)
  simp only [if_neg hlive.1, if_neg hlive.2] at hret
  obtain ⟨now, w₂, hdb₂, hret⟩ := ensures_next (P := fun _ w' => w'.db = w₁.db) hret
    (ensures_now.mpr fun w' hpass => ⟨_, rfl, hpass.db⟩)
  simp only [hstart] at hret
  obtain ⟨b, w₃, ⟨rfl, r₃, h₃⟩, hret⟩ := ensures_next (P := fun b w' => b = true ∧ ∃ r', w'.db.Has x r' numbers) hret
    (ensures_updateIfStatus (h.of_db (hdb₂.trans hdb₁)) rfl fun w' h' => ⟨true, rfl, rfl, _, h'⟩)
  simp only [if_true, dispatchClaimed, if_neg (not_not.mpr (hpresent now))] at hret
  obtain ⟨admitted, w₄, ⟨rfl, hdb₄⟩, hret⟩ := ensures_next (P := fun a w' => a = .ok () ∧ w'.db = w₃.db) hret
    (ensures_allow fun w' hdb => ⟨_, rfl, rfl, hdb⟩)
  obtain ⟨u, w₅, hdb₅, hret⟩ := ensures_next (P := fun _ w' => w'.db = w₄.db) hret
    (ensures_newUUID fun u w' _ hdb => ⟨u, rfl, hdb⟩)
  obtain ⟨sent, w₆, ⟨rfl, hdb₆⟩, hret⟩ := ensures_next (P := fun a w' => a = .error e ∧ w'.db = w₅.db) hret
    (ensures_send fun w' hdb => ⟨_, rfl, rfl, hdb⟩)
  obtain ⟨-, w₇, hdb₇, hret⟩ := ensures_next (P := fun _ w' => w'.db = w₆.db) hret
    (ensures_recordFailure fun w' hdb => ⟨(), rfl, hdb⟩)
  have h₇ := h₃.of_db (hdb₇.trans (hdb₆.trans (hdb₅.trans hdb₄)))
  exact delay_of_retry (d := taken x r now) h₇ (hmore _ rfl) hret

end

/-! Rounds. -/

/-- The number of the dispatch that settles a delivery which has had `n`: the one with the first final verdict,
    or the last that is allowed. -/
def settlingRound (p : Params) (n : Nat) (vs : List Verdict) : Nat :=
  min (max p.maxAttempts 1).toNat (n + vs.findIdx finalVerdict + 1)

def settledStatus : Verdict → Status
  | .ok _ => .succeeded
  | .error _ => .dlq

/-- What the `n`-th dispatch leaves, where the `k`-th settles the delivery; `before`: the attempts it had at first. -/
def AfterRound (x : String) (before : List Nat) (k n : Nat) (v : Verdict) (w : World) (r : Except Err Unit) (w' : World) :
    Prop :=
  if n < k then
    r = .error errTransient ∧ w'.db.row x = some (.retrying, n) ∧ w'.db.attemptNumbers x = before ++ List.range' 1 n
  else if n = k then
    r = .ok () ∧ (w'.db.row x).map (·.1) = some (settledStatus v) ∧ w'.db.attemptNumbers x = before ++ List.range' 1 k
  else r = .ok () ∧ w'.db = w.db

/-- Dispatches with these verdicts, one after the other, `n` having been made. Those after the `k`-th read only. -/
def Rounds (p : Params) (proc : Nat) (x : String) (before : List Nat) (k : Nat) : Nat → List Verdict → World → Prop
  | _, [], _ => True
  | n, v :: vs, w => Ensures (if n < k then scripted p v else reading p) (dispatch p proc x).run w fun r w' =>
      AfterRound x before k (n + 1) v w r w' ∧ Rounds p proc x before k (n + 1) vs w'

section
variable {p : Params} {proc : Nat} {x : String} {before : List Nat} {k : Nat}

/-- A settled delivery is only read. -/
theorem rounds_settled {r : DeliveryRow} {numbers : List Nat} (hst : r.status = .succeeded ∨ r.status = .dlq) :
    ∀ (vs : List Verdict) (n : Nat) (w : World), k ≤ n → w.db.Has x r numbers → Rounds p proc x before k n vs w
  | [], _, _, _, _ => trivial
  | v :: vs, n, w, hn, h => by
    unfold Rounds
    rw [if_neg (not_lt.mpr hn)]
    unfold dispatch
    rw [ensures_bindE]
    apply ensures_findByID h
    intro w' hdb
    have hafter : AfterRound x before k (n + 1) v w (.ok ()) w' ∧ Rounds p proc x before k (n + 1) vs w' := by
      refine ⟨?_, rounds_settled hst vs (n + 1) w' (le_trans hn (Nat.le_succ n)) (h.of_db hdb)⟩
      unfold AfterRound
      rw [if_neg (by omega), if_neg (by omega)]
      exact ⟨rfl, hdb⟩
    rcases hst with hst | hst
    · simp only [show (scanDelivery x r).status = .succeeded from hst, if_true]
      exact hafter
    · simp only [show (scanDelivery x r).status = .dlq from hst, if_true, reduceCtorEq, if_false]
      exact hafter

/-- The numbers after one more dispatch. -/
theorem numbers_snoc (n : Nat) : (before ++ List.range' 1 n) ++ [n + 1] = before ++ List.range' 1 (n + 1) := by
  rw [List.range'_concat, Nat.one_mul, Nat.add_comm 1 n, List.append_assoc]

/-- No retry is left after the last dispatch that is allowed. -/
theorem giveUp_iff {d : Delivery} {e : Err} {n : Nat} (hn : d.retryCount = n) :
    giveUp p d e ↔ isPermanent e = true ∨ (max p.maxAttempts 1).toNat ≤ n + 1 := by
  unfold giveUp
  rw [hn]
  apply or_congr Iff.rfl
  omega

/-- The verdict settles the delivery: it is final, or the last that is allowed. -/
def SettlesAt (p : Params) (n : Nat) (v : Verdict) : Prop := finalVerdict v = true ∨ (max p.maxAttempts 1).toNat ≤ n + 1

theorem settlingRound_settles {n : Nat} {v : Verdict} (h : SettlesAt p n v) (hn : n < (max p.maxAttempts 1).toNat)
    (vs : List Verdict) : settlingRound p n (v :: vs) = n + 1 := by
  unfold settlingRound
  rcases h with hfinal | hlast
  · rw [List.findIdx_cons, hfinal, cond_true]
    omega
  · omega

theorem settlingRound_cons {n : Nat} {v : Verdict} (h : ¬ SettlesAt p n v) (vs : List Verdict) :
    settlingRound p n (v :: vs) = settlingRound p (n + 1) vs ∧ n + 1 < settlingRound p n (v :: vs) := by
  obtain ⟨hfinal, hmore⟩ := not_or.mp h
  unfold settlingRound
  rw [List.findIdx_cons, (Bool.not_eq_true _).mp hfinal, cond_false]
  omega

variable {v : Verdict} {w : World} {r : DeliveryRow} {n : Nat}

/-- The dispatch that settles the delivery. -/
theorem ensures_settled (h : w.db.Has x r (before ++ List.range' 1 n)) (ht : Servable p r) (hn : r.retryCount = n)
    (hv : SettlesAt p n v) {Q : Except Err Unit → World → Prop}
    (hQ : ∀ w' r', r'.status = settledStatus v → w'.db.Has x r' (before ++ List.range' 1 (n + 1)) → Q (.ok ()) w') :
    Ensures (scripted p v) (dispatch p proc x).run w Q := by
  subst hn
  apply ensures_taken h ht
  intro w₁ now h₁
  have hd : (taken x r now).retryCount = r.retryCount := rfl
  apply ensures_sent h₁ (show (taken x r now).channel ∈ p.providers from ht.2)
  · intro res hres w₂ r₂ hst h₂
    subst hres
    rw [hd, numbers_snoc] at h₂
    exact hQ w₂ r₂ hst h₂
  · intro e he w₂ a ha h₂
    subst he
    apply ensures_giveUp h₂ ((giveUp_iff hd).mpr hv)
    intro w₃ r₃ hst h₃
    rw [ha, hd, numbers_snoc] at h₃
    exact hQ w₃ r₃ hst h₃
  · rfl

/-- A dispatch after which the delivery is to be retried. -/
theorem ensures_retried (h : w.db.Has x r (before ++ List.range' 1 n)) (ht : Servable p r) (hn : r.retryCount = n)
    (hv : ¬ SettlesAt p n v) (hdelay : 2 ≤ wrapped (n + 1 : Nat) p.retryBase p.retryMax)
    {Q : Except Err Unit → World → Prop}
    (hQ : ∀ w' r', r'.status = .retrying → Servable p r' → r'.retryCount = n + 1 →
      w'.db.Has x r' (before ++ List.range' 1 (n + 1)) → Q (.error errTransient) w') :
    Ensures (scripted p v) (dispatch p proc x).run w Q := by
  subst hn
  apply ensures_taken h ht
  intro w₁ now h₁
  have hd : (taken x r now).retryCount = r.retryCount := rfl
  apply ensures_sent h₁ (show (taken x r now).channel ∈ p.providers from ht.2)
  · intro res hres
    subst hres
    exact absurd (.inl rfl) hv
  · intro e he w₂ a ha h₂
    subst he
    apply ensures_retry h₂ (fun hout => hv ((giveUp_iff hd).mp hout)) hdelay
    intro w₃ r₃ hst hcount hchan h₃
    rw [ha, hd, numbers_snoc] at h₃
    refine hQ w₃ r₃ hst ⟨.inr hst, ?_⟩ hcount h₃
    rw [hchan]
    exact ht.2
  · rfl

/-- The delays of the retries that are made. -/
def DelaysFit (p : Params) (k n : Nat) (vs : List Verdict) : Prop :=
  ∀ m, n < m → m < k → m ≤ n + vs.length → 2 ≤ wrapped m p.retryBase p.retryMax

theorem rounds_iff : ∀ (vs : List Verdict) (n : Nat) (w : World) (r : DeliveryRow),
    w.db.Has x r (before ++ List.range' 1 n) → Servable p r → r.retryCount = n → n < (max p.maxAttempts 1).toNat →
      (Rounds p proc x before (settlingRound p n vs) n vs w ↔ DelaysFit p (settlingRound p n vs) n vs)
  | [], n, w, r, _, _, _, _ => by
    refine iff_of_true trivial fun m hlow _ hhigh => ?_
    rw [List.length_nil] at hhigh
    omega
  | v :: vs, n, w, r, h, ht, hn, hmax => by
    by_cases hv : SettlesAt p n v
    · -- this dispatch is the last that does anything
      rw [settlingRound_settles hv hmax vs]
      apply iff_of_true
      · unfold Rounds
        rw [if_pos (Nat.lt_succ_self n)]
        apply ensures_settled h ht hn hv
        intro w' r' hst h'
        refine ⟨?_, rounds_settled ?_ vs (n + 1) w' (le_refl _) h'⟩
        · unfold AfterRound
          rw [if_neg (lt_irrefl _), if_pos rfl, Tables.row_stored h'.1, hst]
          exact ⟨rfl, rfl, h'.2⟩
        · rw [hst]
          cases v with
          | ok res => exact .inl rfl
          | error e => exact .inr rfl
      · intro m hlow hhigh
        omega
    · -- a retry, and then the rest
      obtain ⟨hk, hlt⟩ := settlingRound_cons hv vs
      obtain ⟨hfinal, hmore⟩ := not_or.mp hv
      have hstep : 2 ≤ wrapped (n + 1 : Nat) p.retryBase p.retryMax → ∀ {Q : Except Err Unit → World → Prop},
          (∀ w' r', Servable p r' → r'.retryCount = n + 1 → w'.db.Has x r' (before ++ List.range' 1 (n + 1)) →
            AfterRound x before (settlingRound p n (v :: vs)) (n + 1) v w (.error errTransient) w' →
              Q (.error errTransient) w') → Ensures (scripted p v) (dispatch p proc x).run w Q := by
        intro hdelay Q hQ
        apply ensures_retried h ht hn hv hdelay
        intro w' r' hst ht' hcount h'
        refine hQ w' r' ht' hcount h' ?_
        unfold AfterRound
        rw [if_pos hlt, Tables.row_stored h'.1, hst, hcount]
        exact ⟨rfl, rfl, h'.2⟩
      have hrest := fun w' r' h' ht' hcount => rounds_iff vs (n + 1) w' r' h' ht' hcount (not_le.mp hmore)
      rw [← hk] at hrest
      unfold Rounds
      rw [if_pos (Nat.lt_of_succ_lt hlt)]
      constructor
      · intro hrounds
        have hdelay : 2 ≤ wrapped (n + 1 : Nat) p.retryBase p.retryMax := by
          obtain ⟨e, he⟩ : ∃ e, v = .error e := by
            cases v with
            | ok res => exact absurd rfl hfinal
            | error e => exact ⟨e, rfl⟩
          have hret := delay_of_dispatch h ht he (fun d hd hout => hv ?_) hrounds
          · rwa [hn] at hret
          · subst he
            exact (giveUp_iff (hd.trans hn)).mp hout
        obtain ⟨_, w', ⟨r', ht', hcount, h'⟩, -, hnext⟩ := ensures_consistent _ _ (ensures_and _ _
          (hstep hdelay (Q := fun _ w' => ∃ r', Servable p r' ∧ r'.retryCount = n + 1 ∧
            w'.db.Has x r' (before ++ List.range' 1 (n + 1))) fun w' r' ht' hcount h' _ => ⟨r', ht', hcount, h'⟩) hrounds)
        intro m hlow hhigh hlen
        rcases Nat.eq_or_lt_of_le hlow with rfl | hlow
        · exact hdelay
        · refine (hrest w' r' h' ht' hcount).mp hnext m hlow hhigh ?_
          rw [List.length_cons] at hlen
          omega
      · intro hdelays
        have hdelay := hdelays (n + 1) (Nat.lt_succ_self n) hlt (by rw [List.length_cons]; omega)
        apply hstep hdelay
        intro w' r' ht' hcount h' hafter
        refine ⟨hafter, (hrest w' r' h' ht' hcount).mpr fun m hlow hhigh hlen => ?_⟩
        exact hdelays m (Nat.lt_of_succ_lt hlow) hhigh (by rw [List.length_cons]; omega)

end

/-- Dispatches of a queued delivery, one at a time: it is retried, settled and left alone as the verdicts say, exactly
    when none of its retries panics in computing its delay. -/
theorem retry_rounds (p : Params) (proc : Nat) (x : String) (vs : List Verdict) (w : World) (row : DeliveryRow)
    (hrow : w.db.deliveries x = some row) (hst : row.status = .queued) (hcount : row.retryCount = 0)
    (hchan : row.channel ∈ p.providers) :
    Rounds p proc x (w.db.attemptNumbers x) (settlingRound p 0 vs) 0 vs w ↔
      ∀ m : Nat, 0 < m → m < settlingRound p 0 vs → m ≤ vs.length → 2 ≤ wrapped m p.retryBase p.retryMax := by
  have h : w.db.Has x row (w.db.attemptNumbers x ++ List.range' 1 0) := ⟨hrow, (List.append_nil _).symm⟩
  have hiff : Rounds p proc x _ (settlingRound p 0 vs) 0 vs w ↔ _ :=
    rounds_iff vs 0 w row h ⟨.inl hst, hchan⟩ hcount (by omega)
  unfold DelaysFit at hiff
  simpa only [Nat.zero_add] using hiff

/-- A queued delivery of the email channel. -/
def queuedRow : DeliveryRow where
  idempotencyKey := "k1"
  tenantId := "default"
  channel := .email
  priority := .normal
  recipient := "to"
  template := none
  payload := some "hello"
  status := .queued
  scheduledAt := none
  correlationId := ""
  causationId := ""
  retryCount := 0
  lastError := none
  createdAt := 0
  updatedAt := 0

/-- The tables hold it alone. -/
def queuedWorld (p : Params) : World :=
  { World.empty p with db := { deliveries := Function.update (fun _ => none) "d1" (some queuedRow) } }

/-- A transient error, then a permanent one; the third dispatch is never asked for. -/
theorem retry_rounds_sample :
    Rounds {} 0 "d1" [] 2 0 [.error errTransient, .error ⟨"invalid recipient", [.permanent]⟩, .ok {}] (queuedWorld {}) := by
  apply (retry_rounds {} 0 "d1" [.error errTransient, .error ⟨"invalid recipient", [.permanent]⟩, .ok {}] (queuedWorld {})
    queuedRow rfl rfl rfl (by decide)).mpr
  intro m hlow hhigh _
  have hm : m = 1 := by
    have hk : settlingRound {} 0 [.error errTransient, .error ⟨"invalid recipient", [.permanent]⟩, .ok {}] = 2 := by decide
    omega
  subst hm
  decide

/-- With 36 attempts and the default delays the thirty-fifth transient error panics. -/
theorem thirty_fifth_retry_panics :
    ¬ ∀ (p : Params) (proc : Nat) (x : String) (vs : List Verdict) (w : World) (row : DeliveryRow),
      w.db.deliveries x = some row → row.status = .queued → row.retryCount = 0 → row.channel ∈ p.providers →
        Rounds p proc x (w.db.attemptNumbers x) (settlingRound p 0 vs) 0 vs w := by
  intro hall
  have hrounds := hall { maxAttempts := 36 } 0 "d1" (List.replicate 35 (.error errTransient)) (queuedWorld {}) queuedRow
    rfl rfl rfl (by decide)
  have hdelays := (rounds_iff _ 0 (queuedWorld {}) queuedRow ⟨rfl, rfl⟩ ⟨.inl rfl, by decide⟩ rfl (by decide)).mp hrounds
  have hdelay := hdelays 35 (by decide) (by decide) (by decide)
  revert hdelay
  decide

end GoCourier
