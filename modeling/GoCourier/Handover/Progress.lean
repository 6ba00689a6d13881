import GoCourier.Handover.Schedule
import GoCourier.Lib.Backlog
import GoCourier.System.Served

/- One tick of the scheduler while nothing fails. It takes the first due rows up to the batch
   size, queues those deliveries that are pending, and passes over the others without
   marking them. So rows whose delivery is pending no longer keep their place, and a batch
   full of them, at this tick and at every later one, keeps the rest from being fetched. -/
namespace GoCourier

open Interleave

/-- The rows `FetchDue` chooses from, in its order. -/
def Tables.dueRows (t : Tables) (before : Time) : List ScheduledRow :=
  (t.scheduled.filter fun r => ¬ r.processed ∧ r.scheduledAt ≤ before).insertionSort (·.scheduledAt ≤ ·.scheduledAt)

def Tables.isPending (t : Tables) (x : String) : Bool := (t.row x).any fun r => r.1 = .pending

/-- A row that a tick passes over. -/
def Tables.passedOver (t : Tables) (r : ScheduledRow) : Bool := ! t.isPending r.deliveryId

/-- The due rows that come before the earliest whose delivery is pending. -/
def Tables.passedBefore (t : Tables) (now : Time) : Nat := ((t.dueRows now).takeWhile t.passedOver).length

/-- What a tick makes of a pending delivery: it is queued, it has one outbox row more, and no unprocessed scheduled row. -/
structure Tables.Released (t t' : Tables) (x : String) : Prop where
  queued : ∃ n, t'.row x = some (.queued, n)
  enqueued : t'.rowCount x = t.rowCount x + 1
  processed : ¬ t'.due x

/-- `t'` is `t` with the pending delivery `id` queued. -/
structure Tables.Queues (t t' : Tables) (id : String) : Prop where
  row : ∃ n, ∀ y, t'.row y = if y = id then some (.queued, n) else t.row y
  count : ∀ y, t'.rowCount y = t.rowCount y + if id = y then 1 else 0
  due : ∀ y, t'.due y → t.due y ∧ y ≠ id

/-- The delivery a tick has queued, from its row. -/
def released (id : String) (r : DeliveryRow) (now : Time) : Delivery :=
  { scanDelivery id r with status := .queued, updatedAt := now }

section
variable {p : Params} {w : World} {now : Time} {id x : String} {ids : List String}

theorem isPending_row (h : w.db.isPending id = true) : ∃ r, w.db.deliveries id = some r ∧ r.status = .pending := by
  obtain ⟨⟨st, n⟩, hrow, hst⟩ := (Option.any_eq_true _ _).mp h
  obtain ⟨r, hr, hcols⟩ := Option.map_eq_some_iff.mp hrow
  rw [Prod.mk.injEq] at hcols
  exact ⟨r, hr, hcols.1.trans (of_decide_eq_true hst)⟩

/-! One row. -/

/-- A delivery that is missing or no longer pending is read only. -/
theorem ensures_passed (h : w.db.isPending id = false) {Q : Except Err Unit → World → Prop}
    (hQ : ∀ w', w.Passes w' → Ensures (served p) (processRows p now ids).run w' Q) :
    Ensures (served p) (processRows p now (id :: ids)).run w Q := by
  unfold processRows
  rw [ensures_bindE]
  apply ensures_attempt.mpr
  intro w' hpass
  cases hfind : w.db.findByID id with
  | error e =>
    simp only [exec, hfind]
    exact hQ w' hpass
  | ok d =>
    obtain ⟨-, hrow⟩ := Tables.findByID_ok hfind
    have hst : d.status ≠ .pending := by
      intro hst
      rw [Tables.isPending, hrow, Option.any_some, decide_eq_false_iff_not] at h
      exact h hst
    have hqueue : d.queue now = .error ⟨"cannot queue from status " ++ d.status.text, []⟩ := if_pos hst
    simp only [exec, hfind, hqueue]
    exact hQ w' hpass

/-- The tables once the statements of a tick for a pending delivery have run. -/
theorem queues_tables {t₁ t₂ t₃ : Tables} {r : DeliveryRow} {d : Delivery} {at_ : Time} {subject : String} {body : Body}
    {headers : Headers} (hr : t₁.deliveries d.id = some r) (hst : d.status = .queued)
    (h₂ : t₂ = (t₁.update d).insertOutbox at_ d.id subject body headers)
    (h₃ : t₃.deliveries = t₂.deliveries ∧ t₃.outbox = t₂.outbox ∧ t₃.scheduled = (t₂.markProcessed d.id).scheduled) :
    t₁.Queues t₃ d.id := by
  have hrow₁ := Tables.row_stored hr
  have hcount : ∀ y, (t₁.update d).rowCount y = t₁.rowCount y := by
    intro y
    exact Tables.rowCount_of_outbox (Tables.update_rest t₁ d).2.1
  have hsched : t₃.scheduled = (t₁.markProcessed d.id).scheduled := by
    rw [h₃.2.2, h₂]
    show (t₁.update d).scheduled.map _ = _
    rw [(Tables.update_rest t₁ d).2.2.1]
    rfl
  refine ⟨⟨d.retryCount, fun y => ?_⟩, fun y => ?_, fun y hy => ?_⟩
  · have hrow₂ : t₂.row y = (t₁.update d).row y := by
      rw [h₂]
      rfl
    rw [Tables.row_congr h₃.1, hrow₂, Tables.row_update]
    by_cases hy : y = d.id
    · subst hy
      rw [if_pos rfl, if_pos rfl, hrow₁, hst]
      rfl
    · rw [if_neg (Ne.symm hy), if_neg hy]
  · rw [Tables.rowCount_of_outbox h₃.2.1, h₂, Tables.rowCount_insertOutbox, hcount]
  · obtain ⟨row, hmem, hid, hproc⟩ := hy
    rw [hsched] at hmem
    obtain ⟨row₀, hmem₀, rfl⟩ := List.mem_map.mp hmem
    split at hid
    · rename_i hown
      rw [if_pos hown] at hproc
      cases hproc
    · rename_i hother
      rw [if_neg hother] at hproc
      exact ⟨⟨row₀, hmem₀, hid, hproc⟩, fun heq => hother (hid.trans heq)⟩

/-- A pending delivery is queued, enqueued and marked. -/
theorem ensures_queued (h : w.db.isPending id = true) {Q : Except Err Unit → World → Prop}
    (hQ : ∀ w', w.db.Queues w'.db id → Ensures (served p) (processRows p now ids).run w' Q) :
    Ensures (served p) (processRows p now (id :: ids)).run w Q := by
  obtain ⟨r, hr, hst⟩ := isPending_row h
  have hfind := Tables.findByID_stored hr
  have hqueue : (scanDelivery id r).queue now = .ok (released id r now) := if_neg (not_not.mpr hst)
  unfold processRows
  rw [ensures_bindE]
  apply ensures_attempt.mpr
  intro w₁ hpass₁
  simp only [exec, hfind, hqueue] at hpass₁ ⊢
  have hid : (released id r now).id = id := rfl
  have hdst : (released id r now).status = .queued := rfl
  generalize released id r now = d at *
  subst hid
  rw [ensures_bindE]
  apply ensures_remote.mpr
  intro w₂ hpass₂
  simp only [exec, hpass₁.db] at hpass₂ ⊢
  have hrow₂ : w₂.db.deliveries d.id = some (r.set d) := by
    rw [hpass₂.db]
    exact Tables.update_stored hr
  rw [ensures_bindE]
  apply ensures_remote.mpr
  intro w₃ hpass₃
  simp only [exec, Tables.enqueue_stored hrow₂, World.store] at hpass₃ ⊢
  rw [ensures_bindE]
  apply ensures_remote.mpr
  intro w₄ hpass₄
  simp only [exec] at hpass₄ ⊢
  rw [ensures_bindE]
  apply ensures_ignore.mpr
  intro w₅ hpass₅
  simp only []
  apply hQ
  -- the audit event touches neither the rows of the delivery nor its work
  have haudit : ∀ t : Tables, t.deliveries = w₄.db.deliveries ∧ t.outbox = w₄.db.outbox ∧ t.scheduled = w₄.db.scheduled →
      w.db.Queues t d.id := by
    intro t ht
    have hw₂ : w₂.db = w.db.update d := hpass₂.db
    have hw₃ := hpass₃.db
    simp only [hw₂] at hw₃
    refine queues_tables hr hdst hw₃ ?_
    rw [ht.1, ht.2.1, ht.2.2, hpass₄.db]
    exact ⟨rfl, rfl, rfl⟩
  rw [hpass₅.db]
  apply haudit
  refine store_keeps (P := fun t => t.deliveries = w₄.db.deliveries ∧ t.outbox = w₄.db.outbox ∧
    t.scheduled = w₄.db.scheduled) ⟨rfl, rfl, rfl⟩ fun t ht => ?_
  rw [(Tables.append_ok ht).2]
  exact ⟨rfl, rfl, rfl⟩

/-! A batch. -/

/-- A batch without a pending delivery changes nothing. -/
theorem ensures_stuck : ∀ (ids : List String) {w : World}, (∀ id ∈ ids, w.db.isPending id = false) →
    Ensures (served p) (processRows p now ids).run w fun r w' => r = .ok () ∧ w.Passes w'
  | [], _, _ => ⟨rfl, World.passes_refl _⟩
  | id :: ids, w, h => by
    apply ensures_passed (h id List.mem_cons_self)
    intro w' hpass
    have hrest : ∀ y ∈ ids, w'.db.isPending y = false := fun y hy => hpass.db ▸ h y (List.mem_cons_of_mem _ hy)
    refine ensures_mono (fun r w'' hr => ?_) _ _ (ensures_stuck ids hrest)
    exact ⟨hr.1, hpass.trans hr.2⟩

theorem not_pending_of_queued {t : Tables} (h : ∃ n, t.row x = some (.queued, n)) : t.isPending x = false := by
  obtain ⟨n, hn⟩ := h
  rw [Tables.isPending, hn]
  rfl

theorem released_queues {t t' t'' : Tables} (h : t.Released t' x) (hid : id ≠ x) (hq : t'.Queues t'' id) :
    t.Released t'' x := by
  obtain ⟨⟨m, hrow⟩, hcount, hdue⟩ := hq
  obtain ⟨n, hn⟩ := h.queued
  refine ⟨⟨n, ?_⟩, ?_, fun hx => h.processed (hdue x hx).1⟩
  · rw [hrow, if_neg (Ne.symm hid)]
    exact hn
  · rw [hcount, if_neg hid, Nat.add_zero]
    exact h.enqueued

/-- A delivery that has been queued is left alone by what follows in the batch. -/
theorem ensures_released {t : Tables} : ∀ (ids : List String) {w : World}, t.Released w.db x →
    Ensures (served p) (processRows p now ids).run w fun r w' => r = .ok () ∧ t.Released w'.db x
  | [], _, h => ⟨rfl, h⟩
  | id :: ids, w, h => by
    by_cases hp : w.db.isPending id = true
    · have hid : id ≠ x := by
        rintro rfl
        rw [not_pending_of_queued h.queued] at hp
        cases hp
      apply ensures_queued hp
      intro w' hq
      exact ensures_released ids (released_queues h hid hq)
    · apply ensures_passed (Bool.eq_false_iff.mpr hp)
      intro w' hpass
      exact ensures_released ids (hpass.db ▸ h)

/-- The first pending delivery of a batch is queued. -/
theorem ensures_first (after : List String) : ∀ (before : List String) {w : World},
    (∀ id ∈ before, w.db.isPending id = false) → w.db.isPending x = true →
    Ensures (served p) (processRows p now (before ++ x :: after)).run w fun r w' => r = .ok () ∧ w.db.Released w'.db x
  | [], w, _, hx => by
    apply ensures_queued hx
    intro w' hq
    obtain ⟨⟨n, hrow⟩, hcount, hdue⟩ := hq
    apply ensures_released after
    refine ⟨⟨n, ?_⟩, ?_, fun hd => (hdue x hd).2 rfl⟩
    · rw [hrow, if_pos rfl]
    · rw [hcount, if_pos rfl]
  | id :: before, w, h, hx => by
    apply ensures_passed (h id List.mem_cons_self)
    intro w' hpass
    have hdb := hpass.db
    have hrest := ensures_first after before (w := w') (fun y hy => hdb ▸ h y (List.mem_cons_of_mem _ hy)) (hdb ▸ hx)
    rwa [hdb] at hrest

/-! A tick. -/

/-- A tick goes through the first due rows. -/
theorem ensures_tick {Q : Except Err Unit → World → Prop} (hQ : ∀ w', w.Passes w' →
    Ensures (served p) (processRows p w.clock (((w.db.dueRows w.clock).take p.outboxBatchSize).map (·.deliveryId))).run w' Q) :
    Ensures (served p) (processDue p).run w Q := by
  unfold processDue
  rw [ensures_bindE]
  apply ensures_now.mpr
  intro w₁ hpass₁
  simp only []
  rw [ensures_bindE]
  apply ensures_remote.mpr
  intro w₂ hpass₂
  have hids : w₁.db.fetchDue w.clock p.outboxBatchSize =
      ((w.db.dueRows w.clock).take p.outboxBatchSize).map (·.deliveryId) := by
    rw [hpass₁.db]
    rfl
  simp only [exec, hids]
  exact hQ w₂ (hpass₁.trans hpass₂)

/-- A tick that fetches no pending delivery changes nothing. -/
theorem tick_stuck (h : p.outboxBatchSize ≤ w.db.passedBefore w.clock) :
    Ensures (served p) (processDue p).run w fun r w' => r = .ok () ∧ w.Passes w' := by
  apply ensures_tick
  intro w' hpass
  refine ensures_mono (fun r w'' hr => ⟨hr.1, hpass.trans hr.2⟩) _ _ (ensures_stuck _ ?_)
  intro id hid
  obtain ⟨r, hr, rfl⟩ := List.mem_map.mp hid
  have hpassed := Backlog.stuck_of_blocked h r hr
  rw [hpass.db]
  exact (Bool.not_eq_true' _).mp hpassed

/-- Rows that become due later come after those that are due. -/
theorem dueRows_begin (t : Tables) {now now' : Time} (h : now ≤ now') : t.dueRows now <+: t.dueRows now' := by
  have hfilter : t.scheduled.filter (fun r => ¬ r.processed ∧ r.scheduledAt ≤ now) =
      (t.scheduled.filter fun r => ¬ r.processed ∧ r.scheduledAt ≤ now').filter fun r => r.scheduledAt ≤ now := by
    rw [List.filter_filter]
    apply List.filter_congr
    intro r _
    have hle : r.scheduledAt ≤ now → r.scheduledAt ≤ now' := fun hr => le_trans hr h
    rw [← Bool.decide_and]
    exact decide_eq_decide.mpr ⟨fun hr => ⟨hr.2, hr.1, hle hr.2⟩, fun hr => ⟨hr.2.1, hr.1⟩⟩
  rw [Tables.dueRows, hfilter, ← Backlog.filter_insertionSort]
  apply Backlog.filter_begins _ (List.pairwise_insertionSort _ _)
  intro a b hab hb
  exact decide_eq_true (le_trans hab (of_decide_eq_true hb))

/-- `n` ticks, one after the other. -/
def Ticks (p : Params) : Nat → World → (World → Prop) → Prop
  | 0, w, Q => Q w
  | n + 1, w, Q => Ensures (served p) (processDue p).run w fun _ w' => Ticks p n w' Q

/-- Where a tick fetches no pending delivery, no later one does. -/
theorem ticks_stuck : ∀ (n : Nat) {w : World}, p.outboxBatchSize ≤ w.db.passedBefore w.clock →
    Ticks p n w fun w' => w'.db = w.db
  | 0, _, _ => rfl
  | n + 1, w, h => by
    refine ensures_mono (fun r w' hr => ?_) _ _ (tick_stuck h)
    obtain ⟨-, t, ht, rfl⟩ := hr
    have hstill : p.outboxBatchSize ≤ w.db.passedBefore t :=
      le_trans h (Backlog.takeWhile_length_le (dueRows_begin w.db ht))
    exact ticks_stuck n (w := { w with clock := t }) hstill

/-- A tick queues the earliest due delivery that is pending exactly when fewer due rows than a batch come before it. -/
theorem tick_progress_iff (p : Params) (w : World) (r : ScheduledRow)
    (h : (w.db.dueRows w.clock).find? (fun r => w.db.isPending r.deliveryId) = some r) :
    (Ensures (served p) (processDue p).run w fun res w' => res = .ok () ∧ w.db.Released w'.db r.deliveryId) ↔
      w.db.passedBefore w.clock < p.outboxBatchSize := by
  obtain ⟨hpending, as, bs, hrows, hbefore⟩ := List.find?_eq_some_iff_append.mp h
  have hstuck : ∀ a ∈ as, w.db.passedOver a = true := hbefore
  have hfree : w.db.passedOver r = false := by rw [Tables.passedOver, hpending]; rfl
  constructor
  · intro hens
    by_contra hge
    obtain ⟨res, w', ⟨-, hreleased⟩, -, hpass⟩ := ensures_consistent _ _ (ensures_and _ _ hens (tick_stuck (not_lt.mp hge)))
    -- the delivery would be queued in tables that say it is pending
    rw [hpass.db] at hreleased
    rw [not_pending_of_queued hreleased.queued] at hpending
    cases hpending
  · intro hlt
    obtain ⟨cs, hcs⟩ := (Backlog.first_taken hstuck hfree hrows).mp hlt
    apply ensures_tick
    intro w' hpass
    have hdb := hpass.db
    rw [hcs, List.map_append, List.map_cons, ← hdb]
    apply ensures_first
    · intro id hid
      obtain ⟨a, ha, rfl⟩ := List.mem_map.mp hid
      rw [hdb]
      exact (Bool.not_eq_true' _).mp (hstuck a ha)
    · rw [hdb]
      exact hpending

/-- `d1` and `d2` are ingested for later; a tick queues `d1` and stops before it enqueues it. -/
def leftBehind : List Act :=
  ingestCalls 0 "d1" laterRequest ++ ingestCalls 1 "d2" { laterRequest with idempotencyKey := "k2", scheduledAt := some 6 } ++
    .move (.clock 10) :: .start 2 .processDue :: runs 2 4 ++ [.crash 2]

/-- A batch has room for both rows, and the first is passed over. -/
theorem tick_progress_iff_sample :
    ∃ s, (machine {}).run (System.init {}) leftBehind = some s ∧ s.state.db.passedBefore s.state.clock = 1 ∧
      Ensures (served {}) (processDue {}).run s.state fun res w => res = .ok () ∧ s.state.db.Released w.db "d2" := by
  have hrun : ((machine {}).run (System.init {}) leftBehind).map (fun s =>
      ((s.state.db.dueRows s.state.clock).find? (fun r => s.state.db.isPending r.deliveryId),
        s.state.db.passedBefore s.state.clock)) = some (some ⟨"d2", 6, false⟩, 1) := by
    decide +kernel
  obtain ⟨s, hs, hparts⟩ := Option.map_eq_some_iff.mp hrun
  obtain ⟨hfirst, hpassed⟩ := Prod.mk.inj hparts
  exact ⟨s, hs, hpassed, (tick_progress_iff {} s.state _ hfirst).mpr (by rw [hpassed]; decide)⟩

end

/-! A row that is left behind. -/

/-- Ingests and ticks, a tick at a time. -/
def Feeding (s : System) (l : Act) : Prop :=
  OneScheduler s l ∧ ∀ t k, l = .start t k → k = .processDue ∨ ∃ req, k = .ingest req

/-- `Feeding` where threads that a list of steps starts are all there is. -/
theorem feeding_of_check {p : Params} {ls : List Act} (hone : oneTickCheck p ls = true)
    (hkinds : ls.all (fun
      | .start _ .processDue => true
      | .start _ (.ingest _) => true
      | .start _ _ => false
      | _ => true) = true) :
    (machine p).Along (fun s l _ => Feeding s l) (System.init p) ls := by
  have hstart : (machine p).Along (fun _ l _ => ∀ t k, l = .start t k → k = .processDue ∨ ∃ req, k = .ingest req)
      (System.init p) ls := by
    refine Machine.along_of_forall ls _ fun l hl _ _ t k hk => ?_
    have hkind := List.all_eq_true.mp hkinds l hl
    subst hk
    cases k with
    | processDue => exact .inl rfl
    | ingest req => exact .inr ⟨req, rfl⟩
    | _ => cases hkind
  exact Machine.Along.mono (fun s l _ h => h) ls (Machine.Along.and ls (oneScheduler_of_check hone) hstart)

/-- With a batch of one, the row of a delivery that a crashed tick has queued keeps another delivery from being
    queued, at every tick to come. -/
theorem pending_never_fetched :
    ∃ s, (machine { outboxBatchSize := 1 }).Reach Feeding (System.init { outboxBatchSize := 1 }) s ∧
      ((s.state.db.dueRows s.state.clock).find? (fun r => s.state.db.isPending r.deliveryId)).map (·.deliveryId) = some "d2" ∧
      (∀ n, Ticks { outboxBatchSize := 1 } n s.state fun w => w.db = s.state.db) ∧
      ¬ Ensures (served { outboxBatchSize := 1 }) (processDue { outboxBatchSize := 1 }).run s.state fun res w =>
        res = .ok () ∧ s.state.db.Released w.db "d2" := by
  have hrun : ((machine { outboxBatchSize := 1 }).run (System.init { outboxBatchSize := 1 }) leftBehind).map (fun s =>
      (((s.state.db.dueRows s.state.clock).find? (fun r => s.state.db.isPending r.deliveryId)).map (·.deliveryId),
        s.state.db.passedBefore s.state.clock, s.state.db.row "d2")) = some (some "d2", 1, some (.pending, 0)) := by
    decide +kernel
  obtain ⟨s, hs, hparts⟩ := Option.map_eq_some_iff.mp hrun
  rw [Prod.mk.injEq, Prod.mk.injEq] at hparts
  obtain ⟨hfirst, hpassed, hrow⟩ := hparts
  have hfeeding := @feeding_of_check { outboxBatchSize := 1 } leftBehind (by decide +kernel) (by decide)
  have hstuck : ({ outboxBatchSize := 1 } : Params).outboxBatchSize ≤ s.state.db.passedBefore s.state.clock := by
    rw [hpassed]
  refine ⟨s, Machine.reach_of_run leftBehind .refl hfeeding hs, hfirst, fun n => ticks_stuck n hstuck, ?_⟩
  intro h
  obtain ⟨res, w, ⟨-, hreleased⟩, -, hpass⟩ := ensures_consistent _ _ (ensures_and _ _ h (tick_stuck hstuck))
  obtain ⟨n, hn⟩ := hreleased.queued
  rw [hpass.db, hrow] at hn
  cases hn

end GoCourier
