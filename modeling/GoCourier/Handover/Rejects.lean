import GoCourier.Lib.Backlog
import GoCourier.Services.Outbox
import GoCourier.System.Frames
import GoCourier.System.Served

/- Flushes of the outbox while the broker rejects some messages on every try and nothing
   else fails. A rejected row stays pending and keeps its place, so the rows a flush
   fetches are a round of the backlog: the accepted ones leave, the rejected ones come up
   again. What is left after any number of flushes is what the backlog says. -/
namespace GoCourier

open Interleave

/-- The message a row is published as. -/
def OutboxRow.mail (r : OutboxRow) : Message := ⟨r.subject, r.payload, r.headers⟩

/-- The rows `FetchPending` chooses from, in its order. -/
def Tables.pendingRows (t : Tables) : List OutboxRow :=
  (t.outbox.filter (·.status = .pending)).insertionSort (·.createdAt ≤ ·.createdAt)

/-- Nothing fails but that the broker rejects some messages, on every try. -/
def rejecting (p : Params) (rejects : Message → Bool) : Env Op Ans World
  | .remote (.publish subject body headers), w, r, w' =>
    if rejects ⟨subject, body, headers⟩ then (∃ e, r = .error e) ∧ w.Passes w'
    else r = .ok () ∧ ({ w with stream := w.stream ++ [⟨subject, body, headers⟩] } : World).Passes w'
  | op, w, r, w' => served p op w r w'

section
variable (p : Params) (rejects : Message → Bool)

instance : Serves p (rejecting p rejects) (.remote .countPending) := ⟨fun _ _ _ => Iff.rfl⟩
instance (limit : Nat) : Serves p (rejecting p rejects) (.remote (.fetchPending limit)) := ⟨fun _ _ _ => Iff.rfl⟩
instance (id : String) : Serves p (rejecting p rejects) (.remote (.hasPublishedForDelivery id)) := ⟨fun _ _ _ => Iff.rfl⟩
instance (id : Nat) : Serves p (rejecting p rejects) (.remote (.markPublished id)) := ⟨fun _ _ _ => Iff.rfl⟩
instance (id : Nat) (msg : String) : Serves p (rejecting p rejects) (.remote (.markFailed id msg)) :=
  ⟨fun _ _ _ => Iff.rfl⟩

/-- `n` flushes, one after the other. -/
def Flushes : Nat → World → (World → Prop) → Prop
  | 0, w, Q => Q w
  | n + 1, w, Q => Ensures (rejecting p rejects) (flush p).run w fun _ w' => Flushes n w' Q

/-- Row `r` of `w` is marked published, and a message of its delivery has gone out since, unless one had before. -/
structure PublishedSince (w w' : World) (r : OutboxRow) : Prop where
  marked : ∃ r' ∈ w'.db.outbox, r'.id = r.id ∧ r'.status = .published
  sent : ∃ r' ∈ w.db.outbox, r'.deliveryId = r.deliveryId ∧
    (r'.status = .published ∨ r'.mail ∈ w'.stream.drop w.stream.length)

/-- Where a pending row is rejected, its delivery has no row that is not. -/
def Alike (rows : List OutboxRow) : Prop :=
  ∀ r ∈ rows, r.status = .pending → rejects r.mail = true → ∀ r' ∈ rows, r'.deliveryId = r.deliveryId →
    r'.status = .pending ∧ rejects r'.mail = true

end

instance (rejects : Message → Bool) (rows : List OutboxRow) : Decidable (Alike rejects rows) :=
  inferInstanceAs (Decidable (∀ r ∈ rows, r.status = .pending → rejects r.mail = true → ∀ r' ∈ rows,
    r'.deliveryId = r.deliveryId → r'.status = .pending ∧ rejects r'.mail = true))

/-! What a flush changes of a row. -/

/-- A row without what failures leave on it. -/
def OutboxRow.core (r : OutboxRow) : OutboxRow := { r with attempts := 0, lastError := none }

def Tables.cores (t : Tables) : List OutboxRow := t.outbox.map OutboxRow.core

/-- Those of `ids` are published. -/
def strike (ids : List Nat) (r : OutboxRow) : OutboxRow := if r.id ∈ ids then { r with status := .published } else r

@[simp] theorem strike_id (ids : List Nat) (r : OutboxRow) : (strike ids r).id = r.id := by
  unfold strike
  split <;> rfl

@[simp] theorem strike_deliveryId (ids : List Nat) (r : OutboxRow) : (strike ids r).deliveryId = r.deliveryId := by
  unfold strike
  split <;> rfl

@[simp] theorem strike_mail (ids : List Nat) (r : OutboxRow) : (strike ids r).mail = r.mail := by
  unfold strike
  split <;> rfl

theorem strike_nil (r : OutboxRow) : strike [] r = r := if_neg List.not_mem_nil

theorem strike_strike (ids ids' : List Nat) (r : OutboxRow) : strike ids' (strike ids r) = strike (ids ++ ids') r := by
  by_cases h : r.id ∈ ids <;> by_cases h' : r.id ∈ ids' <;> simp [strike, h, h']

theorem strike_pending {ids : List Nat} {r : OutboxRow} (h : (strike ids r).status = .pending) :
    strike ids r = r ∧ r.id ∉ ids := by
  unfold strike at h ⊢
  split
  · rename_i hmem
    rw [if_pos hmem] at h
    cases h
  · rename_i hmem
    exact ⟨rfl, hmem⟩

theorem pending_strike (ids : List Nat) : ∀ (rows : List OutboxRow), (rows.map (strike ids)).filter (·.status = .pending) =
    (rows.filter (·.status = .pending)).filter fun r => r.id ∉ ids
  | [] => rfl
  | r :: rows => by
    rw [List.map_cons]
    by_cases hid : r.id ∈ ids
    · have hst : (strike ids r).status = .published := by rw [strike, if_pos hid]
      rw [List.filter_cons_of_neg (by simp [hst]), pending_strike ids rows]
      by_cases hp : r.status = .pending
      · rw [List.filter_cons_of_pos (by simp [hp]), List.filter_cons_of_neg (by simp [hid])]
      · rw [List.filter_cons_of_neg (by simp [hp])]
    · have hsame : strike ids r = r := if_neg hid
      rw [hsame]
      by_cases hp : r.status = .pending
      · rw [List.filter_cons_of_pos (by simp [hp]), List.filter_cons_of_pos (by simp [hp]),
          List.filter_cons_of_pos (by simp [hid]), pending_strike ids rows]
      · rw [List.filter_cons_of_neg (by simp [hp]), List.filter_cons_of_neg (by simp [hp]), pending_strike ids rows]

theorem markPublished_cores (t : Tables) (id : Nat) : (t.markPublished id).cores = t.cores.map (strike [id]) := by
  unfold Tables.cores Tables.markPublished Tables.setOutbox
  simp only [List.map_map]
  apply List.map_congr_left
  intro r _
  by_cases h : r.id = id <;> simp [strike, OutboxRow.core, h]

theorem markFailed_cores (t : Tables) (id : Nat) (msg : String) : (t.markFailed id msg).cores = t.cores := by
  unfold Tables.cores Tables.markFailed Tables.setOutbox
  rw [List.map_map]
  apply List.map_congr_left
  intro r _
  by_cases h : r.id = id <;> simp [OutboxRow.core, h]

theorem pendingRows_cores (t : Tables) : t.pendingRows.map OutboxRow.core =
    (t.cores.filter (·.status = .pending)).insertionSort (·.createdAt ≤ ·.createdAt) := by
  have hsort := List.map_insertionSort (fun r r' : OutboxRow => r.createdAt ≤ r'.createdAt)
    (fun r r' : OutboxRow => r.createdAt ≤ r'.createdAt) OutboxRow.core (t.outbox.filter (·.status = .pending))
    fun _ _ _ _ => Iff.rfl
  rw [Tables.pendingRows, hsort, Tables.cores, List.filter_map]
  rfl

theorem mem_pendingRows {t : Tables} {r : OutboxRow} : r ∈ t.pendingRows ↔ r ∈ t.outbox ∧ r.status = .pending := by
  rw [Tables.pendingRows, List.mem_insertionSort, List.mem_filter, decide_eq_true_eq]

/-! One row. -/

/-- How far the flushes have come since `w₀`. -/
structure Flushing (rejects : Message → Bool) (w₀ w : World) : Prop where
  alike : Alike rejects w.db.cores
  ids : (w.db.cores.map (·.id)).Nodup
  struck : ∃ ids, w.db.cores = w₀.db.cores.map (strike ids)
  stream : w₀.stream <+: w.stream
  sent : ∀ r ∈ w.db.cores, r.status = .published → ∃ r' ∈ w₀.db.cores, r'.deliveryId = r.deliveryId ∧
    (r'.status = .published ∨ r'.mail ∈ w.stream.drop w₀.stream.length)

section
variable {p : Params} {rejects : Message → Bool} {w₀ w w' : World} {r : OutboxRow}

theorem strike_ids (ids : List Nat) (rows : List OutboxRow) :
    (rows.map (strike ids)).map (·.id) = rows.map (·.id) := by
  rw [List.map_map]
  exact List.map_congr_left fun r _ => strike_id ids r

/-- Time passes, and no row changes. -/
theorem flushing_same (h : Flushing rejects w₀ w) (hcores : w'.db.cores = w.db.cores) (hstream : w'.stream = w.stream) :
    Flushing rejects w₀ w' := by
  obtain ⟨halike, hids, hstruck, hbegin, hsent⟩ := h
  rw [← hcores] at halike hids hstruck hsent
  rw [← hstream] at hbegin hsent
  exact ⟨halike, hids, hstruck, hbegin, hsent⟩

/-- A row that is not rejected is marked, once its delivery has been published or its own message has gone out. -/
theorem flushing_marked (h : Flushing rejects w₀ w) (hr : r ∈ w.db.cores) (haccepted : rejects r.mail = false)
    (hcores : w'.db.cores = w.db.cores.map (strike [r.id])) (hstream : w.stream <+: w'.stream)
    (hout : (∃ r' ∈ w.db.cores, r'.deliveryId = r.deliveryId ∧ r'.status = .published) ∨
      r.mail ∈ w'.stream.drop w.stream.length) : Flushing rejects w₀ w' := by
  have hown : ∀ r' ∈ w.db.cores, r'.id = r.id → r' = r := fun r' hr' hid => List.inj_on_of_nodup_map h.ids hr' hr hid
  have hdrop : ∀ m ∈ w.stream.drop w₀.stream.length, m ∈ w'.stream.drop w₀.stream.length := by
    intro m hm
    obtain ⟨ms, hms⟩ := hstream
    rw [← hms, List.drop_append]
    exact List.mem_append_left _ hm
  -- what has been published before this row
  have hkept : ∀ r' ∈ w.db.cores, r'.status = .published → ∃ r'' ∈ w₀.db.cores, r''.deliveryId = r'.deliveryId ∧
      (r''.status = .published ∨ r''.mail ∈ w'.stream.drop w₀.stream.length) := by
    intro r' hr' hst
    obtain ⟨r'', hr'', hid, hgone⟩ := h.sent r' hr' hst
    exact ⟨r'', hr'', hid, hgone.imp_right (hdrop _)⟩
  refine ⟨?_, ?_, ?_, h.stream.trans hstream, ?_⟩
  · rw [hcores]
    intro c hc hst hrej c' hc' hid
    obtain ⟨b, hb, rfl⟩ := List.mem_map.mp hc
    obtain ⟨b', hb', rfl⟩ := List.mem_map.mp hc'
    obtain ⟨hsame, -⟩ := strike_pending hst
    rw [hsame] at hst hrej hid
    rw [strike_deliveryId] at hid
    obtain ⟨hst', hrej'⟩ := h.alike b hb hst hrej b' hb' hid
    have hne : b'.id ∉ [r.id] := by
      intro hmem
      rw [hown b' hb' (List.mem_singleton.mp hmem), haccepted] at hrej'
      cases hrej'
    rw [show strike [r.id] b' = b' from if_neg hne]
    exact ⟨hst', hrej'⟩
  · rw [hcores, strike_ids]
    exact h.ids
  · obtain ⟨ids, hids⟩ := h.struck
    refine ⟨ids ++ [r.id], ?_⟩
    rw [hcores, hids, List.map_map]
    exact List.map_congr_left fun b _ => strike_strike ids [r.id] b
  · intro c hc hst
    rw [hcores] at hc
    obtain ⟨b, hb, rfl⟩ := List.mem_map.mp hc
    rw [strike_deliveryId]
    by_cases hid : b.id = r.id
    · rw [hown b hb hid]
      rcases hout with ⟨r', hr', hdelivery, hpub⟩ | hmail
      · rw [← hdelivery]
        exact hkept r' hr' hpub
      · obtain ⟨ids, hids⟩ := h.struck
        rw [hids] at hr
        obtain ⟨r₀, hr₀, rfl⟩ := List.mem_map.mp hr
        refine ⟨r₀, hr₀, (strike_deliveryId ids r₀).symm, .inr ?_⟩
        rw [strike_mail] at hmail
        obtain ⟨ms, hms⟩ := h.stream
        rw [← hms, List.length_append, ← List.drop_drop] at hmail
        exact List.mem_of_mem_drop hmail
    · rw [show strike [r.id] b = b from if_neg fun hmem => hid (List.mem_singleton.mp hmem)] at hst
      exact hkept b hb hst

/-- The ids of the rows that a flush publishes. -/
def acceptedIds (rejects : Message → Bool) (rows : List OutboxRow) : List Nat :=
  (rows.filter fun r => ! rejects r.mail).map (·.id)

theorem ensures_rejected {subject : String} {body : Body} {headers : Headers} (hrej : rejects ⟨subject, body, headers⟩ = true)
    {Q : Except Err (Except Err Unit) → World → Prop} (hQ : ∀ e w', w.Passes w' → Q (.ok (.error e)) w') :
    Ensures (rejecting p rejects) (attempt (.publish subject body headers)).run w Q := by
  have hanswer : ∀ (a : Except Err Unit) (w' : World),
      rejecting p rejects (.remote (.publish subject body headers)) w a w' ↔ (∃ e, a = .error e) ∧ w.Passes w' := by
    intro a w'
    show (if rejects ⟨subject, body, headers⟩ = true then _ else _) ↔ _
    rw [if_pos hrej]
  refine ⟨⟨.error errTransient, w, (hanswer _ _).mpr ⟨⟨_, rfl⟩, World.passes_refl w⟩⟩, ?_⟩
  intro a w' ha
  obtain ⟨⟨e, rfl⟩, hpass⟩ := (hanswer a w').mp ha
  exact hQ e w' hpass

theorem ensures_accepted {subject : String} {body : Body} {headers : Headers}
    (hrej : rejects ⟨subject, body, headers⟩ = false)
    {Q : Except Err (Except Err Unit) → World → Prop}
    (hQ : ∀ w', ({ w with stream := w.stream ++ [⟨subject, body, headers⟩] } : World).Passes w' → Q (.ok (.ok ())) w') :
    Ensures (rejecting p rejects) (attempt (.publish subject body headers)).run w Q := by
  have hanswer : ∀ (a : Except Err Unit) (w' : World),
      rejecting p rejects (.remote (.publish subject body headers)) w a w' ↔
        a = .ok () ∧ ({ w with stream := w.stream ++ [⟨subject, body, headers⟩] } : World).Passes w' := by
    intro a w'
    show (if rejects ⟨subject, body, headers⟩ = true then _ else _) ↔ _
    rw [if_neg (by rw [hrej]; exact Bool.false_ne_true)]
  refine ⟨⟨.ok (), _, (hanswer _ _).mpr ⟨rfl, World.passes_refl _⟩⟩, ?_⟩
  intro a w' ha
  obtain ⟨rfl, hpass⟩ := (hanswer a w').mp ha
  exact hQ w' hpass

theorem ensures_row {ms : List OutboxMessage} (h : Flushing rejects w₀ w) (hr : r.core ∈ w.db.cores)
    (hpending : r.status = .pending) {Q : Except Err Unit → World → Prop}
    (hQ : ∀ w', Flushing rejects w₀ w' → w'.db.cores = w.db.cores.map (strike (acceptedIds rejects [r])) →
      Ensures (rejecting p rejects) (publishRows ms).run w' Q) :
    Ensures (rejecting p rejects) (publishRows (r.message :: ms)).run w Q := by
  have hnone : rejects r.mail = true → acceptedIds rejects [r] = [] := fun hrej => by simp [acceptedIds, hrej]
  have hone : rejects r.mail = false → acceptedIds rejects [r] = [r.id] := fun hrej => by simp [acceptedIds, hrej]
  have hhas : w.db.hasPublishedForDelivery r.deliveryId = true →
      ∃ r' ∈ w.db.cores, r'.deliveryId = r.deliveryId ∧ r'.status = .published := by
    intro hpub
    obtain ⟨r', hr', hst⟩ := List.any_eq_true.mp hpub
    exact ⟨r'.core, List.mem_map_of_mem hr', of_decide_eq_true hst⟩
  unfold publishRows
  rw [ensures_bindE]
  apply ensures_attempt.mpr
  intro w₁ hpass₁
  obtain ⟨τ₁, -, rfl⟩ := hpass₁
  simp only [exec]
  cases hpub : w.db.hasPublishedForDelivery r.message.deliveryId with
  | true =>
    -- a rejected row would have no published sibling
    obtain ⟨r', hr', hdelivery, hst⟩ := hhas hpub
    have haccepted : rejects r.mail = false := by
      by_contra hrej
      have hsibling := (h.alike r.core hr hpending (Bool.not_eq_false _ ▸ hrej) r' hr' hdelivery).1
      rw [hst] at hsibling
      cases hsibling
    simp only []
    rw [ensures_bindE]
    apply ensures_ignore.mpr
    intro w₂ hpass₂
    obtain ⟨τ₂, -, rfl⟩ := hpass₂
    have hcores := markPublished_cores w.db r.id
    apply hQ
    · exact flushing_marked h hr haccepted hcores List.prefix_rfl (.inl ⟨r', hr', hdelivery, hst⟩)
    · rw [hone haccepted]
      exact hcores
  | false =>
    simp only []
    rw [ensures_bindE]
    cases hrej : rejects r.mail with
    | true =>
      apply ensures_rejected hrej
      intro e w₂ hpass₂
      obtain ⟨τ₂, -, rfl⟩ := hpass₂
      simp only []
      rw [ensures_bindE]
      apply ensures_ignore.mpr
      intro w₃ hpass₃
      obtain ⟨τ₃, -, rfl⟩ := hpass₃
      have hcores := markFailed_cores w.db r.id e.text
      apply hQ
      · exact flushing_same h hcores rfl
      · rw [hnone hrej]
        refine hcores.trans ?_
        rw [List.map_congr_left fun r _ => strike_nil r, List.map_id']
    | false =>
      apply ensures_accepted hrej
      intro w₂ hpass₂
      obtain ⟨τ₂, -, rfl⟩ := hpass₂
      simp only []
      rw [ensures_bindE]
      apply ensures_ignore.mpr
      intro w₃ hpass₃
      obtain ⟨τ₃, -, rfl⟩ := hpass₃
      have hcores := markPublished_cores w.db r.id
      apply hQ
      · refine flushing_marked h hr hrej hcores (List.prefix_append _ _) (.inr ?_)
        show r.mail ∈ (w.stream ++ [r.mail]).drop w.stream.length
        rw [List.drop_left]
        exact List.mem_singleton.mpr rfl
      · rw [hone hrej]
        exact hcores

/-! A flush. -/

/-- A batch: the rows that are accepted are published, the others stay. -/
theorem ensures_rows : ∀ (rs : List OutboxRow) {w : World}, Flushing rejects w₀ w →
    (∀ r ∈ rs, r.core ∈ w.db.cores ∧ r.status = .pending) → (rs.map (·.id)).Nodup →
    Ensures (rejecting p rejects) (publishRows (rs.map OutboxRow.message)).run w fun res w' => res = .ok () ∧
      Flushing rejects w₀ w' ∧ w'.db.cores = w.db.cores.map (strike (acceptedIds rejects rs))
  | [], w, h, _, _ => by
    refine ⟨rfl, h, ?_⟩
    rw [show acceptedIds rejects [] = [] from rfl, List.map_congr_left fun r _ => strike_nil r, List.map_id']
  | r :: rs, w, h, hrows, hids => by
    obtain ⟨hcore, hpending⟩ := hrows r List.mem_cons_self
    rw [List.map_cons, List.nodup_cons] at hids
    rw [List.map_cons]
    apply ensures_row h hcore hpending
    intro w₁ h₁ hcores₁
    have hrest : ∀ r' ∈ rs, r'.core ∈ w₁.db.cores ∧ r'.status = .pending := by
      intro r' hr'
      obtain ⟨hcore', hpending'⟩ := hrows r' (List.mem_cons_of_mem _ hr')
      refine ⟨?_, hpending'⟩
      have hne : r'.core.id ∉ acceptedIds rejects [r] := by
        intro hmem
        obtain ⟨b, hb, hid⟩ := List.mem_map.mp hmem
        rw [List.mem_singleton.mp (List.mem_of_mem_filter hb)] at hid
        have hid : r.id = r'.id := hid
        rw [hid] at hids
        exact hids.1 (List.mem_map_of_mem hr')
      rw [hcores₁]
      exact List.mem_map.mpr ⟨r'.core, hcore', if_neg hne⟩
    refine ensures_mono (fun res w' hr => ?_) _ _ (ensures_rows rs h₁ hrest hids.2)
    obtain ⟨hres, h', hcores'⟩ := hr
    refine ⟨hres, h', ?_⟩
    have happend : acceptedIds rejects (r :: rs) = acceptedIds rejects [r] ++ acceptedIds rejects rs := by
      rw [acceptedIds, acceptedIds, acceptedIds, ← List.map_append, ← List.filter_append, List.singleton_append]
    rw [hcores', hcores₁, List.map_map, happend]
    exact List.map_congr_left fun b _ => strike_strike _ _ b

/-- The rows a flush may fetch are rows of the table, each once. -/
theorem pendingRows_ids (h : (w.db.cores.map (·.id)).Nodup) : (w.db.pendingRows.map (·.id)).Nodup := by
  have hids : w.db.cores.map (·.id) = w.db.outbox.map (·.id) := by
    rw [Tables.cores, List.map_map]
    rfl
  rw [hids] at h
  have hperm := List.perm_insertionSort (fun r r' : OutboxRow => r.createdAt ≤ r'.createdAt)
    (w.db.outbox.filter (·.status = .pending))
  exact (hperm.map _).nodup_iff.mpr (h.sublist (List.filter_sublist.map _))

/-- A flush is a round of the backlog. -/
theorem ensures_flush (h : Flushing rejects w₀ w) :
    Ensures (rejecting p rejects) (flush p).run w fun res w' => res = .ok () ∧ Flushing rejects w₀ w' ∧
      w'.db.pendingRows.map OutboxRow.core = Backlog.round p.outboxBatchSize (fun r => rejects r.mail)
        (w.db.pendingRows.map OutboxRow.core) := by
  unfold flush
  rw [ensures_bindE]
  apply ensures_ignore.mpr
  intro w₁ hpass₁
  obtain ⟨τ₁, -, rfl⟩ := hpass₁
  simp only []
  rw [ensures_bindE]
  apply ensures_remote.mpr
  intro w₂ hpass₂
  obtain ⟨τ₂, -, rfl⟩ := hpass₂
  simp only [exec]
  have hids := pendingRows_ids h.ids
  have hfetched : ∀ r ∈ w.db.pendingRows.take p.outboxBatchSize, r.core ∈ w.db.cores ∧ r.status = .pending := by
    intro r hr
    obtain ⟨hmem, hst⟩ := mem_pendingRows.mp (List.mem_of_mem_take hr)
    exact ⟨List.mem_map_of_mem hmem, hst⟩
  have hsome : ((w.db.pendingRows.take p.outboxBatchSize).map (·.id)).Nodup :=
    hids.sublist ((List.take_sublist ..).map _)
  have hbatch : Flushing rejects w₀ { w with clock := τ₂ } := flushing_same h rfl rfl
  refine ensures_mono (fun res w' hr => ?_) _ _ (ensures_rows (w := { w with clock := τ₂ }) _ hbatch hfetched hsome)
  obtain ⟨hres, h', hcores⟩ := hr
  refine ⟨hres, h', ?_⟩
  have hcoreIds : ((w.db.pendingRows.map OutboxRow.core).map (·.id)).Nodup := by
    rw [List.map_map]
    exact hids
  have hdone : (((w.db.pendingRows.map OutboxRow.core).take p.outboxBatchSize).filter fun r => ! rejects r.mail).map (·.id) =
      acceptedIds rejects (w.db.pendingRows.take p.outboxBatchSize) := by
    rw [← List.map_take, List.filter_map, List.map_map]
    rfl
  rw [pendingRows_cores, hcores, pending_strike, Backlog.round_eq_filter hcoreIds, hdone, pendingRows_cores,
    Backlog.filter_insertionSort]
  rfl

/-- Flushes are rounds. -/
theorem ensures_flushes : ∀ (n : Nat) {w : World}, Flushing rejects w₀ w → Flushes p rejects n w fun w' =>
    Flushing rejects w₀ w' ∧ w'.db.pendingRows.map OutboxRow.core =
      (Backlog.round p.outboxBatchSize fun r => rejects r.mail)^[n] (w.db.pendingRows.map OutboxRow.core)
  | 0, _, h => ⟨h, rfl⟩
  | n + 1, w, h => by
    refine ensures_mono (fun res w₁ hr => ?_) _ _ (ensures_flush h)
    obtain ⟨-, h₁, hround⟩ := hr
    have hrest := ensures_flushes n h₁
    rw [hround] at hrest
    exact hrest

theorem flushes_mono {Q Q' : World → Prop} (hQ : ∀ w, Q w → Q' w) : ∀ (n : Nat) {w : World},
    Flushes p rejects n w Q → Flushes p rejects n w Q'
  | 0, w, h => hQ w h
  | n + 1, _, h => ensures_mono (fun _ _ h' => flushes_mono hQ n h') _ _ h

/-- Flushes that keep to both conditions come to an end that does. -/
theorem flushes_consistent {Q Q' : World → Prop} : ∀ (n : Nat) {w : World}, Flushes p rejects n w Q →
    Flushes p rejects n w Q' → ∃ w', Q w' ∧ Q' w'
  | 0, w, h, h' => ⟨w, h, h'⟩
  | n + 1, _, h, h' => by
    obtain ⟨_, _, hboth⟩ := ensures_consistent _ _ (ensures_and _ _ h h')
    exact flushes_consistent n hboth.1 hboth.2

/-! As many flushes as there are rows. -/

/-- Rows with ids of their own, a broker that treats the rows of a delivery alike. -/
theorem flushing_first (hids : (w.db.outbox.map (·.id)).Nodup) (halike : Alike rejects w.db.outbox) :
    Flushing rejects w w where
  alike := by
    intro c hc hst hrej c' hc' hid
    obtain ⟨r, hr, rfl⟩ := List.mem_map.mp hc
    obtain ⟨r', hr', rfl⟩ := List.mem_map.mp hc'
    exact halike r hr hst hrej r' hr' hid
  ids := by
    rw [Tables.cores, List.map_map]
    exact hids
  struck := ⟨[], by rw [List.map_congr_left fun r _ => strike_nil r, List.map_id']⟩
  stream := List.prefix_rfl
  sent r hr hst := ⟨r, hr, rfl, .inl hst⟩

/-- A row that is no longer pending has been published. -/
theorem published_of_gone (h : Flushing rejects w w') {r : OutboxRow} (hr : r ∈ w.db.pendingRows)
    (hgone : r.core ∉ w'.db.pendingRows.map OutboxRow.core) : PublishedSince w w' r := by
  obtain ⟨hmem, hpending⟩ := mem_pendingRows.mp hr
  obtain ⟨ids, hids⟩ := h.struck
  have hcore : strike ids r.core ∈ w'.db.cores := by
    rw [hids]
    exact List.mem_map_of_mem (List.mem_map_of_mem hmem)
  have hstruck : r.core.id ∈ ids := by
    by_contra hne
    rw [show strike ids r.core = r.core from if_neg hne] at hcore
    apply hgone
    rw [pendingRows_cores, List.mem_insertionSort, List.mem_filter]
    exact ⟨hcore, decide_eq_true hpending⟩
  have hpub : (strike ids r.core).status = .published := by rw [strike, if_pos hstruck]
  constructor
  · obtain ⟨r', hr', heq⟩ := List.mem_map.mp hcore
    refine ⟨r', hr', ?_, ?_⟩
    · have := congrArg OutboxRow.id heq
      rwa [strike_id] at this
    · rw [← heq] at hpub
      exact hpub
  · obtain ⟨c, hc, hdelivery, hout⟩ := h.sent _ hcore hpub
    obtain ⟨r', hr', rfl⟩ := List.mem_map.mp hc
    rw [strike_deliveryId] at hdelivery
    exact ⟨r', hr', hdelivery, hout⟩

/-- A row that is still pending is not marked. -/
theorem not_published_of_pending (h : Flushing rejects w w') {r : OutboxRow}
    (hstill : r.core ∈ w'.db.pendingRows.map OutboxRow.core) : ¬ PublishedSince w w' r := by
  intro hpub
  obtain ⟨r', hr', hid, hst⟩ := hpub.marked
  rw [pendingRows_cores, List.mem_insertionSort, List.mem_filter, decide_eq_true_eq] at hstill
  have hsame := List.inj_on_of_nodup_map h.ids (List.mem_map_of_mem hr') hstill.1 hid
  have hpending : r'.core.status = .pending := by
    rw [hsame]
    exact hstill.2
  rw [show r'.core.status = r'.status from rfl, hst] at hpending
  cases hpending

/-- A row behind a batch of rejected ones is never published. -/
theorem flushes_blocked (hids : (w.db.outbox.map (·.id)).Nodup) (halike : Alike rejects w.db.outbox) {as bs : List OutboxRow}
    (hl : w.db.pendingRows = as ++ r :: bs) (hfull : p.outboxBatchSize ≤ as.countP fun r => rejects r.mail) (n : Nat) :
    Flushes p rejects n w fun w' => ¬ PublishedSince w w' r := by
  refine flushes_mono (fun w' hw' => ?_) n (ensures_flushes n (flushing_first hids halike))
  obtain ⟨h, hleft⟩ := hw'
  have hcores : p.outboxBatchSize ≤ (as.map OutboxRow.core).countP fun r => rejects r.mail := by
    rw [List.countP_map]
    exact hfull
  obtain ⟨cs, hcs, -⟩ := Backlog.iterate_blocked hcores n
  apply not_published_of_pending h
  rw [hleft, hl, List.map_append, List.map_cons, hcs]
  exact List.mem_append_right _ List.mem_cons_self

/-- A broker rejects the same messages on every try, and the rows of one delivery alike; nothing else fails. After as
    many flushes as there were pending rows, every row it accepts is published exactly when fewer rejected rows than
    a batch came before each of them. -/
theorem flushes_clear_iff (p : Params) (rejects : Message → Bool) (w : World) (hids : (w.db.outbox.map (·.id)).Nodup)
    (halike : Alike rejects w.db.outbox) :
    (Flushes p rejects w.db.pendingRows.length w fun w' =>
      ∀ r ∈ w.db.pendingRows, rejects r.mail = false → PublishedSince w w' r) ↔
      Backlog.Unblocked p.outboxBatchSize (fun r => rejects r.mail) w.db.pendingRows := by
  constructor
  · intro hall as r bs hl haccepted
    by_contra hfull
    obtain ⟨w', hpublished, hnot⟩ :=
      flushes_consistent _ hall (flushes_blocked hids halike hl (not_lt.mp hfull) w.db.pendingRows.length)
    apply hnot
    apply hpublished r _ haccepted
    rw [hl]
    exact List.mem_append_right _ List.mem_cons_self
  · intro hun
    have hcores : Backlog.Unblocked p.outboxBatchSize (fun r : OutboxRow => rejects r.mail)
        (w.db.pendingRows.map OutboxRow.core) := (Backlog.unblocked_map _).mpr hun
    have hcleared := Backlog.cleared_iff.mpr hcores
    rw [List.length_map] at hcleared
    refine flushes_mono (fun w' hw' => ?_) _ (ensures_flushes _ (flushing_first hids halike))
    obtain ⟨h, hleft⟩ := hw'
    intro r hr haccepted
    apply published_of_gone h hr
    intro hstill
    rw [hleft] at hstill
    have hrej : rejects r.mail = true := hcleared r.core hstill
    rw [haccepted] at hrej
    cases hrej

end

/-! A header the broker does not take. -/

/-- A correlation id that is too long. -/
def oversized (m : Message) : Bool := 8 < ((m.headers.lookup "correlation_id").getD "").length

/-- `d1` comes with such a correlation id, `d2` does not. -/
def oversizedFirst : List Act :=
  ingestCalls 0 "d1" { sampleRequest with metadata := { correlationId := "correlation" } } ++ .move (.clock 1) ::
    ingestCalls 1 "d2" { sampleRequest with idempotencyKey := "k2" }

theorem oversizedFirst_rows (p : Params) (hrun : ((machine p).run (System.init p) oversizedFirst).map (fun s =>
    (s.state.db.pendingRows.map (·.deliveryId), s.state.db.pendingRows.map fun r => oversized r.mail,
      decide ((s.state.db.outbox.map (·.id)).Nodup ∧ Alike oversized s.state.db.outbox))) =
        some (["d1", "d2"], [true, false], true)) :
    ∃ s r₁ r₂, (machine p).run (System.init p) oversizedFirst = some s ∧ s.state.db.pendingRows = [r₁, r₂] ∧
      r₂.deliveryId = "d2" ∧ oversized r₁.mail = true ∧ oversized r₂.mail = false ∧
      (s.state.db.outbox.map (·.id)).Nodup ∧ Alike oversized s.state.db.outbox := by
  obtain ⟨s, hs, hparts⟩ := Option.map_eq_some_iff.mp hrun
  rw [Prod.mk.injEq, Prod.mk.injEq] at hparts
  obtain ⟨hids, hmails, hsound⟩ := hparts
  obtain ⟨r₁, rs, hrows, -, hrest⟩ := List.map_eq_cons_iff.mp hids
  obtain ⟨r₂, rs', rfl, hid, hnil⟩ := List.map_eq_cons_iff.mp hrest
  rw [List.map_eq_nil_iff] at hnil
  subst hnil
  rw [hrows] at hmails
  obtain ⟨hmail₁, hmail₂⟩ := List.cons.inj hmails
  obtain ⟨hnodup, halike⟩ := of_decide_eq_true hsound
  exact ⟨s, r₁, r₂, hs, hrows, hid, hmail₁, (List.cons.inj hmail₂).1, hnodup, halike⟩

theorem flushes_clear_iff_sample :
    ∃ s, (machine {}).run (System.init {}) oversizedFirst = some s ∧ (∃ r ∈ s.state.db.pendingRows, oversized r.mail = true) ∧
      Flushes {} oversized s.state.db.pendingRows.length s.state fun w =>
        ∀ r ∈ s.state.db.pendingRows, oversized r.mail = false → PublishedSince s.state w r := by
  obtain ⟨s, r₁, r₂, hs, hrows, -, hmail, -, hids, halike⟩ := oversizedFirst_rows {} (by decide +kernel)
  refine ⟨s, hs, ⟨r₁, by rw [hrows]; exact List.mem_cons_self, hmail⟩, ?_⟩
  apply (flushes_clear_iff {} oversized s.state hids halike).mpr
  apply Backlog.unblocked_of_length
  rw [hrows]
  show 2 ≤ 50
  decide

/-- With a batch of one, the rejected row keeps the other from ever being published. -/
theorem oversized_blocks :
    ∃ s r, (machine { outboxBatchSize := 1 }).run (System.init { outboxBatchSize := 1 }) oversizedFirst = some s ∧
      r ∈ s.state.db.pendingRows ∧ r.deliveryId = "d2" ∧ oversized r.mail = false ∧
      (∀ n, Flushes { outboxBatchSize := 1 } oversized n s.state fun w => ¬ PublishedSince s.state w r) ∧
      ¬ Flushes { outboxBatchSize := 1 } oversized s.state.db.pendingRows.length s.state fun w =>
        ∀ r ∈ s.state.db.pendingRows, oversized r.mail = false → PublishedSince s.state w r := by
  obtain ⟨s, r₁, r₂, hs, hrows, hid, hmail₁, hmail₂, hids, halike⟩ :=
    oversizedFirst_rows { outboxBatchSize := 1 } (by decide +kernel)
  have hmem : r₂ ∈ s.state.db.pendingRows := by
    rw [hrows]
    exact List.mem_cons_of_mem _ (List.mem_singleton.mpr rfl)
  have hfull : ({ outboxBatchSize := 1 } : Params).outboxBatchSize ≤ [r₁].countP fun r => oversized r.mail := by
    simp [hmail₁]
  have hblocked := fun n => flushes_blocked hids halike (show _ = [r₁] ++ r₂ :: [] from hrows) hfull n
  refine ⟨s, r₂, hs, hmem, hid, hmail₂, hblocked, ?_⟩
  intro hall
  obtain ⟨w, hpublished, hnot⟩ := flushes_consistent _ hall (hblocked s.state.db.pendingRows.length)
  exact hnot (hpublished r₂ hmem hmail₂)

end GoCourier
