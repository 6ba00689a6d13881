import GoCourier.Handover.Published

/- A flush and its batch. The rows a flush handles are those it has fetched, each
   handled by two or three calls that depend on that row and the answers to these calls
   alone. A row it could not publish it does not come back to, and the attempts a row
   counts are the failures it was charged with. -/
namespace GoCourier

open Interleave

/-! One row at a time. -/

/-- The answers to the calls a flush makes for one row. -/
structure RowAnswers where
  published : Except Err Bool
  sent : Except Err Unit
  marked : Except Err Unit

/-- The calls a flush makes for row `m` when they are answered so. -/
def rowCalls (m : OutboxMessage) (a : RowAnswers) : List Op :=
  .remote (.hasPublishedForDelivery m.deliveryId) :: match a.published with
    | .error _ => []
    | .ok true => [.remote (.markPublished m.id)]
    | .ok false => .remote (.publish m.subject m.payload m.headers) :: match a.sent with
      | .ok _ => [.remote (.markPublished m.id)]
      | .error e => [.remote (.markFailed m.id e.text)]

/-- Answers laid down row by row, and the calls made so far. -/
structure Script where
  now : RowAnswers
  later : List RowAnswers
  calls : List Op

def Script.answer : (op : Op) → Script → Option (Ans op × Script)
  | .remote (.hasPublishedForDelivery x), e => match e.later with
    | a :: as => some (a.published, ⟨a, as, e.calls ++ [.remote (.hasPublishedForDelivery x)]⟩)
    | [] => none
  | .remote (.publish subject body headers), e =>
    some (e.now.sent, ⟨e.now, e.later, e.calls ++ [.remote (.publish subject body headers)]⟩)
  | .remote (.markPublished id), e => some (e.now.marked, ⟨e.now, e.later, e.calls ++ [.remote (.markPublished id)]⟩)
  | .remote (.markFailed id msg), e => some (e.now.marked, ⟨e.now, e.later, e.calls ++ [.remote (.markFailed id msg)]⟩)
  | _, _ => none

theorem solo_attempt_script (q : Remote) (e : Script) :
    CallTree.solo Script.answer (attempt q).run e = (Script.answer (.remote q) e).bind fun r => some (.ok r.1, r.2) :=
  solo_lifted Script.answer (.remote q) e

theorem solo_ignore_script (q : Remote) (e : Script) :
    CallTree.solo Script.answer (ignore q).run e = (Script.answer (.remote q) e).bind fun r => some (.ok (), r.2) := by
  unfold ignore
  rw [CallTree.solo_bindE, solo_attempt_script]
  cases Script.answer (.remote q) e <;> rfl

/-- One row: its own calls, then the rest of the batch. -/
theorem solo_publishRow (m : OutboxMessage) (ms : List OutboxMessage) (a : RowAnswers) (as : List RowAnswers)
    (now : RowAnswers) (calls : List Op) :
    CallTree.solo Script.answer (publishRows (m :: ms)).run ⟨now, a :: as, calls⟩ =
      CallTree.solo Script.answer (publishRows ms).run ⟨a, as, calls ++ rowCalls m a⟩ := by
  rw [publishRows, CallTree.solo_bindE, solo_attempt_script]
  simp only [Script.answer, Option.bind_some]
  unfold rowCalls
  cases hp : a.published with
  | error e => rfl
  | ok b =>
    cases b with
    | true =>
      rw [CallTree.solo_bindE, solo_ignore_script]
      simp only [Script.answer, Option.bind_some, List.append_assoc, List.singleton_append]
    | false =>
      simp only []
      rw [CallTree.solo_bindE, solo_attempt_script]
      simp only [Script.answer, Option.bind_some]
      cases hs : a.sent with
      | ok u =>
        simp only []
        rw [CallTree.solo_bindE, solo_ignore_script]
        simp only [Script.answer, Option.bind_some, List.append_assoc, List.cons_append, List.nil_append]
      | error e =>
        simp only []
        rw [CallTree.solo_bindE, solo_ignore_script]
        simp only [Script.answer, Option.bind_some, List.append_assoc, List.cons_append, List.nil_append]

/-- A batch is handled row by row, whatever each row's calls are answered. -/
theorem solo_publishRows : ∀ (ms : List OutboxMessage) (as : List RowAnswers), ms.length = as.length →
    ∀ (now : RowAnswers) (calls : List Op),
      (CallTree.solo Script.answer (publishRows ms).run ⟨now, as, calls⟩).map (fun q => (q.1, q.2.calls)) =
        some (.ok (), calls ++ (List.zipWith rowCalls ms as).flatten)
  | [], [], _, now, calls => by
    show some (Except.ok (), calls) = _
    simp
  | m :: ms, a :: as, hlen, now, calls => by
    rw [solo_publishRow, solo_publishRows ms as (Nat.succ.inj hlen), List.zipWith_cons_cons, List.flatten_cons,
      List.append_assoc]

section
variable {p : Params} {s s' : System} {l : Act}

/-! A row whose `Publish` failed. -/

/-- Thread `t` marks row `id` published in this step. -/
def Marks (t id : Nat) (s : System) (l : Act) : Prop :=
  ∃ c k φ f, l = .call t c ∧ s.threads t = some ⟨k, φ, .ask (.remote (.markPublished id)) f⟩

/-- The flush of thread `t` will not come to mark row `id` published. -/
def HandsOff (t id : Nat) (s : System) : Prop :=
  ∀ k φ prog, s.threads t = some ⟨k, φ, prog⟩ → ∃ ψ, φ = .flush ψ ∧ ψ ≠ .start ∧
    ((∃ m ms, ψ = .sent m ms false ∧ m.id = id ∧ id ∉ ms.map (·.id)) ∨ id ∉ ψ.rows.map (·.id))

theorem not_marks_of_handsOff (hc : (machine p).Conforms (protocol p) s) {t id : Nat} (h : HandsOff t id s) :
    ¬ Marks t id s l := by
  intro hmarks
  obtain ⟨c, k, φ, f, -, hth⟩ := hmarks
  obtain ⟨-, ψ, m, ms, rfl, hψ, hid⟩ := markPublished_flush (hc.may hth)
  obtain ⟨ψ', hφ, -, hoff⟩ := h _ _ _ hth
  cases hφ
  rcases hoff with ⟨m', ms', hsent, -, -⟩ | hnot
  · rcases hψ with rfl | rfl <;> cases hsent
  · apply hnot
    rw [hid]
    rcases hψ with rfl | rfl <;> exact List.mem_map_of_mem List.mem_cons_self

theorem handsOff_step (hc : (machine p).Conforms (protocol p) s) {t id : Nat} (h : HandsOff t id s)
    (hstart : ∀ k, l ≠ .start t k) (hs : (machine p).Step s l s') : HandsOff t id s' := by
  intro k φ prog hth
  rcases hs.origin_cases hth with ⟨before, -⟩ | ⟨label, -, -⟩ | ⟨c, ψ, op, f, r, -, running, -, hnext⟩
  · exact h k φ prog before
  · exact absurd label (hstart _)
  · subst hnext
    obtain ⟨χ, rfl, hne, hoff⟩ := h _ _ _ running
    have hm : May p k (.flush χ) op := hc.may running
    have hmay : FlushMay χ op := by
      cases k with
      | flush => exact hm
      | _ => exact hm.elim
    refine ⟨χ.next op r, rfl, ?_⟩
    have hmoves := flush_moves hmay r
    generalize χ.next op r = χ' at hmoves
    -- but for the row it has just failed to publish, the flush has nothing of that id in hand
    have hrows : (∀ m ms, χ ≠ .sent m ms false) → id ∉ χ.rows.map (·.id) := by
      intro hsent
      exact hoff.resolve_left fun ⟨m, ms, h, _⟩ => hsent m ms h
    cases hmoves with
    | counted r => exact absurd rfl hne
    | fetched limit ms => exact absurd rfl hne
    | unfetched limit e => exact absurd rfl hne
    | checked m ms b => exact ⟨nofun, .inr (hrows nofun)⟩
    | unchecked m ms e => exact ⟨nofun, .inr fun hmem => hrows nofun (List.mem_cons_of_mem _ hmem)⟩
    | sent m ms => exact ⟨nofun, .inr (hrows nofun)⟩
    | unsent m ms e => exact ⟨nofun, .inr (hrows nofun)⟩
    | skipped m ms r => exact ⟨nofun, .inr fun hmem => hrows nofun (List.mem_cons_of_mem _ hmem)⟩
    | marked m ms r => exact ⟨nofun, .inr fun hmem => hrows nofun (List.mem_cons_of_mem _ hmem)⟩
    | refused m ms msg r =>
      refine ⟨nofun, .inr fun hmem => ?_⟩
      rcases hoff with ⟨m', ms', hsent, -, hnot⟩ | hnot
      · cases hsent
        exact hnot hmem
      · exact hnot (List.mem_cons_of_mem _ hmem)

/-- From its failed `Publish` on, a flush does not mark the row published. -/
theorem unpublished_unmarked (h : OutboxSound p s) {t : Nat} {k : Task} {m : OutboxMessage} {ms : List OutboxMessage}
    {prog : CallTree Op Ans Result} (hth : s.threads t = some ⟨k, .flush (.sent m ms false), prog⟩) (ls : List Act)
    (hstart : ∀ k, .start t k ∉ ls) : (machine p).Along (fun s l _ => ¬ Marks t m.id s l) s ls := by
  have hoff : HandsOff t m.id s := by
    intro k' φ prog' hth'
    cases hth.symm.trans hth'
    have hnodup := (h.hands t _ _ _ hth).distinct
    exact ⟨_, rfl, nofun, .inl ⟨m, ms, rfl, rfl, (List.nodup_cons.mp hnodup).1⟩⟩
  have hrest : (machine p).Along (fun _ l _ => ∀ k, l ≠ .start t k) s ls :=
    Machine.along_of_forall ls s fun l hl _ _ k hk => hstart k (hk ▸ hl)
  refine Machine.along_of_invariant (I := fun s => (machine p).Conforms (protocol p) s ∧ HandsOff t m.id s)
    (fun s l s' hI hs hok => ?_) ls s ⟨h.conforms, hoff⟩ hrest
  exact ⟨not_marks_of_handsOff hI.1 hI.2, Machine.conforms_step hI.1 hs, handsOff_step hI.1 hI.2 hok hs⟩

/-! The attempts a row counts. -/

/-- The row a flush could not publish, and is about to mark failed. -/
def failedRow : Option (Thread Op Ans Task Result Phase) → List Nat
  | some ⟨_, .flush (.sent m _ false), .ask _ _⟩ => [m.id]
  | _ => []

/-- The row whose `MarkFailed` takes effect in this step, after its `Publish` failed. -/
def charged (s : System) : Act → List Nat
  | .call t .run => failedRow (s.threads t)
  | .call t (.lost _) => failedRow (s.threads t)
  | _ => []

/-- The attempts of row `id`, if there is one. -/
def Tables.attemptsOf (t : Tables) (id : Nat) : Nat := ((t.outbox.find? (·.id = id)).map (·.attempts)).getD 0

/-- What becomes of the call after a failed `Publish`. -/
theorem failed_call (hc : (machine p).Conforms (protocol p) s) (hs : (machine p).Step s l s') {t : Nat} {c : Choice}
    {k : Task} {m : OutboxMessage} {ms : List OutboxMessage} {op : Op} {f : Ans op → CallTree Op Ans Result}
    (hl : l = .call t c) (hth : s.threads t = some ⟨k, .flush (.sent m ms false), .ask op f⟩) :
    charged s l = [m.id] ∧ (∃ msg, s'.state.db = s.state.db.markFailed m.id msg) ∨
      charged s l = [] ∧ s'.state.db = s.state.db := by
  subst hl
  have hm : May p k (.flush (.sent m ms false)) op := hc.may hth
  have hmay : FlushMay (.sent m ms false) op := by
    cases k with
    | flush => exact hm
    | _ => exact hm.elim
  have hrow : failedRow (s.threads t) = [m.id] := by rw [hth, failedRow]
  cases hs with
  | @call _ _ k' φ op' f' r w running answered =>
    have hans := answer_cases (p := p) answered
    cases hth.symm.trans running
    have hmoves := flush_moves hmay r
    generalize FlushPhase.next (.sent m ms false) op r = φ' at hmoves
    cases hmoves with
    | refused m ms msg r =>
      cases hans with
      | ran q => exact .inl ⟨hrow, msg, rfl⟩
      | fault q msg' => exact .inr ⟨rfl, rfl⟩
      | lost q msg' => exact .inl ⟨hrow, msg, rfl⟩

/-- A step either charges one row, or leaves the attempts of every row alone. -/
theorem attempts_step (hc : (machine p).Conforms (protocol p) s) (hs : (machine p).Step s l s') :
    (charged s l = [] ∧ ∀ r' ∈ s'.state.db.outbox,
        (∃ r ∈ s.state.db.outbox, r.id = r'.id ∧ r.attempts = r'.attempts) ∨
          r'.attempts = 0 ∧ s.state.db.outbox.length < r'.id) ∨
      ∃ t k m ms prog msg, s.threads t = some ⟨k, .flush (.sent m ms false), prog⟩ ∧ charged s l = [m.id] ∧
        s'.state.db = s.state.db.markFailed m.id msg := by
  by_cases hfail : ∃ t c k m ms op f, l = .call t c ∧ s.threads t = some ⟨k, .flush (.sent m ms false), .ask op f⟩
  · obtain ⟨t, c, k, m, ms, op, f, hl, hth⟩ := hfail
    rcases failed_call hc hs hl hth with ⟨hch, msg, hdb⟩ | ⟨hch, hdb⟩
    · exact .inr ⟨t, k, m, ms, _, msg, hth, hch, hdb⟩
    · refine .inl ⟨hch, fun r' hr' => .inl ⟨r', ?_, rfl, rfl⟩⟩
      rwa [hdb] at hr'
  · have hfree : ∀ t c, l = .call t c → failedRow (s.threads t) = [] := by
      intro t c hl
      unfold failedRow
      split
      · rename_i k m ms op f hth
        exact absurd ⟨t, c, k, m, ms, op, f, hl, hth⟩ hfail
      · rfl
    have huncharged : charged s l = [] := by
      unfold charged
      split
      · exact hfree _ _ rfl
      · exact hfree _ _ rfl
      · rfl
    refine .inl ⟨huncharged, fun r' hr' => ?_⟩
    cases posted_step hc hs with
    | added rs outbox rows =>
      rw [outbox] at hr'
      rcases List.mem_append.mp hr' with hr | hr
      · exact .inl ⟨r', hr, rfl, rfl⟩
      · obtain ⟨i, hi⟩ := List.mem_iff_getElem?.mp hr
        obtain ⟨hid, -, hzero⟩ := rows i r' hi
        exact .inr ⟨hzero, by omega⟩
    | @published u c m ms φ prog label caller phase stored =>
      rw [stored] at hr'
      obtain ⟨r, hr, rfl⟩ := List.mem_map.mp hr'
      refine .inl ⟨r, hr, ?_⟩
      split <;> exact ⟨rfl, rfl⟩
    | @refused u c m ms msg prog label caller stored =>
      exfalso
      cases hs with
      | call running answered =>
        cases label
        obtain ⟨rfl, hφ, rfl⟩ := Thread.mk.inj (Option.some.inj (running.symm.trans caller))
        subst hφ
        exact hfail ⟨_, _, _, m, ms, _, _, rfl, running⟩
      | _ => cases label

/-- What every row has been charged since the start. -/
structure Charges (p : Params) (s₀ s : System) (acc : List Nat) : Prop where
  sound : OutboxSound p s
  grown : s₀.state.db.outbox.length ≤ s.state.db.outbox.length
  rows : ∀ r ∈ s.state.db.outbox, r.attempts = s₀.state.db.attemptsOf r.id + acc.count r.id
  known : ∀ id ∈ acc, id ≤ s.state.db.outbox.length

theorem attemptsOf_new {t : Tables} (h : t.Numbered) {id : Nat} (hid : t.outbox.length < id) : t.attemptsOf id = 0 := by
  have hnone : t.outbox.find? (·.id = id) = none := by
    rw [List.find?_eq_none]
    intro r hr heq
    obtain ⟨i, hi, hri⟩ := h.get hr
    obtain ⟨hlt, -⟩ := List.getElem?_eq_some_iff.mp hi
    have := of_decide_eq_true heq
    omega
  rw [Tables.attemptsOf, hnone]
  rfl

theorem attemptsOf_row {t : Tables} (h : t.Numbered) {r : OutboxRow} (hr : r ∈ t.outbox) :
    t.attemptsOf r.id = r.attempts := by
  unfold Tables.attemptsOf
  cases hf : t.outbox.find? (·.id = r.id) with
  | none =>
    have := List.find?_eq_none.mp hf r hr
    simp at this
  | some r' =>
    have hid : r'.id = r.id := by simpa using List.find?_some hf
    rw [h.inj (List.mem_of_find?_eq_some hf) hr hid]
    rfl

theorem length_step (hc : (machine p).Conforms (protocol p) s) (hs : (machine p).Step s l s') :
    s.state.db.outbox.length ≤ s'.state.db.outbox.length := by
  have hle := (letters_step hc hs).length_le
  simpa only [Tables.letters, List.length_map] using hle

theorem charges_step {s₀ : System} {acc : List Nat} (h0 : s₀.state.db.Numbered) (h : Charges p s₀ s acc)
    (hs : (machine p).Step s l s') : Charges p s₀ s' (acc ++ charged s l) := by
  have hc := h.sound.conforms
  have hgrown := length_step hc hs
  rcases attempts_step hc hs with ⟨hch, hrows⟩ | ⟨t, k, m, ms, prog, msg, hth, hch, hdb⟩
  · rw [hch, List.append_nil]
    refine ⟨outboxSound_step h.sound hs, le_trans h.grown hgrown, fun r' hr' => ?_, fun id hid =>
      le_trans (h.known id hid) hgrown⟩
    rcases hrows r' hr' with ⟨r, hr, hid, hatt⟩ | ⟨hzero, hnew⟩
    · rw [← hatt, ← hid]
      exact h.rows r hr
    · have hold : acc.count r'.id = 0 := by
        rw [List.count_eq_zero]
        intro hmem
        have := h.known _ hmem
        omega
      rw [hzero, attemptsOf_new h0 (lt_of_le_of_lt h.grown hnew), hold]
  · rw [hch]
    refine ⟨outboxSound_step h.sound hs, le_trans h.grown hgrown, fun r' hr' => ?_, fun id hid => ?_⟩
    · rw [hdb] at hr'
      obtain ⟨r, hr, rfl⟩ := List.mem_map.mp hr'
      have hrow := h.rows r hr
      rw [List.count_append]
      by_cases hid : r.id = m.id
      · rw [if_pos hid]
        show r.attempts + 1 = s₀.state.db.attemptsOf r.id + (acc.count r.id + [m.id].count r.id)
        rw [hid, List.count_singleton_self, ← hid]
        omega
      · rw [if_neg hid, List.count_singleton, if_neg (by simpa using Ne.symm hid)]
        omega
    · rcases List.mem_append.mp hid with hid | hid
      · exact le_trans (h.known id hid) hgrown
      · obtain rfl := List.mem_singleton.mp hid
        have hcarried := (h.sound.hands t k _ prog hth).carried m List.mem_cons_self
        obtain ⟨r, hr, hletter⟩ := List.mem_map.mp hcarried
        obtain ⟨i, hi, hri⟩ := h.sound.numbered.get hr
        obtain ⟨hlt, -⟩ := List.getElem?_eq_some_iff.mp hi
        have hid' : r.id = m.id := congrArg OutboxMessage.id hletter
        omega

/-! The rows a flush leaves alone. -/

/-- What thread `t` fetched in this call. -/
def fetchedBy (t : Nat) : Called → Option (List OutboxMessage)
  | ⟨u, _, .remote (.fetchPending _), .ok ms⟩ => if u = t then some ms else none
  | _ => none

/-- The batch thread `t` fetched last. -/
def batchOf (t : Nat) (hist : List Called) : List OutboxMessage := (hist.findSome? (fetchedBy t)).getD []

theorem batchOf_keep {t : Nat} {e : Called} (h : fetchedBy t e = none) (hist : List Called) :
    batchOf t (e :: hist) = batchOf t hist := by
  unfold batchOf
  rw [List.findSome?_cons, h]

theorem batchOf_fetch {t : Nat} {e : Called} {ms : List OutboxMessage} (h : fetchedBy t e = some ms)
    (hist : List Called) : batchOf t (e :: hist) = ms := by
  unfold batchOf
  rw [List.findSome?_cons, h]
  rfl

theorem fetchedBy_other {t : Nat} {e : Called} (h : e.tid ≠ t) : fetchedBy t e = none := by
  unfold fetchedBy
  split
  · exact if_neg h
  · rfl

/-- What a flush has in hand is from the batch it fetched. -/
def FromBatch (s : System) : Prop :=
  ∀ t k φ prog, s.threads t = some ⟨k, .flush φ, prog⟩ → ∀ m ∈ φ.rows, m ∈ batchOf t s.hist

theorem fromBatch_step (hc : (machine p).Conforms (protocol p) s) (h : FromBatch s) (hs : (machine p).Step s l s') :
    FromBatch s' := by
  intro u k φ prog hu m hm
  rcases flush_origin hc hs hu with ⟨before, other⟩ | rfl | ⟨c, ψ, op, f, r, rfl, running, answered, hmoves⟩
  · have hold := h u k φ prog before m hm
    cases hs with
    | @call t c k' φ' op f r w running answered =>
      have htu : t ≠ u := by
        intro htu
        exact other c (by rw [htu])
      rw [batchOf_keep (fetchedBy_other htu)]
      exact hold
    | _ => exact hold
  · cases hm
  · obtain ⟨r', hans, -, hhist⟩ := hs.called running
    obtain rfl : r' = r := congrArg Prod.fst (Option.some.inj (hans.symm.trans answered))
    rw [hhist]
    have hold := h u _ ψ _ running
    -- a call that fetches nothing takes rows away at most
    have hkeep : φ.rows ⊆ ψ.rows → fetchedBy u ⟨u, .flush, op, r'⟩ = none →
        m ∈ batchOf u (⟨u, .flush, op, r'⟩ :: s.hist) := by
      intro hsub hno
      rw [batchOf_keep hno]
      exact hold m (hsub hm)
    cases hmoves with
    | fetched limit ms =>
      have hfetch : fetchedBy u ⟨u, .flush, .remote (.fetchPending limit), .ok ms⟩ = some ms := if_pos rfl
      rw [batchOf_fetch hfetch]
      exact hm
    | counted r => cases hm
    | unfetched limit e => cases hm
    | checked m' ms b => exact hkeep (List.Subset.refl _) rfl
    | unchecked m' ms e => exact hkeep (List.subset_cons_self ..) rfl
    | sent m' ms => exact hkeep (List.Subset.refl _) rfl
    | unsent m' ms e => exact hkeep (List.Subset.refl _) rfl
    | skipped m' ms r => exact hkeep (List.subset_cons_self ..) rfl
    | marked m' ms r => exact hkeep (List.subset_cons_self ..) rfl
    | refused m' ms msg r => exact hkeep (List.subset_cons_self ..) rfl

/-- A row that is not set keeps its place and its contents. -/
theorem getElem?_setOutbox {t : Tables} {i id : Nat} {r : OutboxRow} {f : OutboxRow → OutboxRow}
    (h : t.outbox[i]? = some r) (hid : r.id ≠ id) : (t.setOutbox id f).outbox[i]? = some r := by
  have hmap : (t.setOutbox id f).outbox[i]? = (t.outbox[i]?).map fun r => if r.id = id then f r else r :=
    List.getElem?_map ..
  rw [hmap, h, Option.map_some, if_neg hid]

/-- A call of a flush leaves the rows outside its batch as they are. -/
theorem flush_frame (hc : (machine p).Conforms (protocol p) s) (h : FromBatch s) {t : Nat} {c : Choice}
    (hs : (machine p).Step s (.call t c) s') {i : Nat} {r : OutboxRow} (hr : s.state.db.outbox[i]? = some r)
    (hout : r.id ∉ (batchOf t s.hist).map (·.id)) : s'.state.db.outbox[i]? = some r := by
  have hnot : ∀ {m : OutboxMessage} {ψ : FlushPhase} {prog : CallTree Op Ans Result},
      s.threads t = some ⟨.flush, .flush ψ, prog⟩ → m ∈ ψ.rows → r.id ≠ m.id := by
    intro m ψ prog hψ hm hid
    apply hout
    rw [hid]
    exact List.mem_map_of_mem (h t _ _ _ hψ m hm)
  cases posted_step hc hs with
  | added rs outbox rows =>
    obtain ⟨hlt, -⟩ := List.getElem?_eq_some_iff.mp hr
    rw [outbox, List.getElem?_append_left hlt]
    exact hr
  | published label caller phase stored =>
    cases label
    rw [stored]
    refine getElem?_setOutbox hr (hnot caller ?_)
    rcases phase with rfl | rfl <;> exact List.mem_cons_self
  | refused label caller stored =>
    cases label
    rw [stored]
    exact getElem?_setOutbox hr (hnot caller List.mem_cons_self)

/-- From any outbox: what is marked published the broker has a message for; a flush whose `Publish` of a row
    failed does not mark it; attempts count failures; a flush changes no row outside its batch; and what it
    does for a row depends on that row's own answers. -/
theorem published_is_accepted (p : Params) (s₀ s : System) (ls : List Act) (h0 : Opened s₀)
    (hrows : ∀ r ∈ s₀.state.db.outbox, r.status = .published → s₀.state.Accepted r.deliveryId)
    (hrun : (machine p).run s₀ ls = some s) :
    (∀ r ∈ s.state.db.outbox, r.status = .published → s.state.Accepted r.deliveryId) ∧
      (∀ t k m ms prog, s.threads t = some ⟨k, .flush (.sent m ms false), prog⟩ →
        ∀ ms' : List Act, (∀ k, .start t k ∉ ms') → (machine p).Along (fun s l _ => ¬ Marks t m.id s l) s ms') ∧
      (∀ r ∈ s.state.db.outbox,
        r.attempts = s₀.state.db.attemptsOf r.id + ((machine p).collect charged s₀ ls).count r.id) ∧
      (∀ t c φ prog s', s.threads t = some ⟨.flush, .flush φ, prog⟩ → (machine p).step s (.call t c) = some s' →
        ∀ (i : Nat) (r : OutboxRow), s.state.db.outbox[i]? = some r → r.id ∉ (batchOf t s.hist).map (·.id) →
          s'.state.db.outbox[i]? = some r) ∧
      ∀ (ms : List OutboxMessage) (as : List RowAnswers) (now : RowAnswers), ms.length = as.length →
        (CallTree.solo Script.answer (publishRows ms).run ⟨now, as, []⟩).map (fun q => (q.1, q.2.calls)) =
          some (.ok (), (List.zipWith rowCalls ms as).flatten) := by
  have hr : (machine p).Reach (fun _ _ => True) s₀ s :=
    Machine.reach_of_run ls .refl (Machine.along_of_forall ls s₀ fun _ _ _ _ => trivial) hrun
  have hpub : PublishedSound p s :=
    hr.invariant (publishedSound_of_opened h0 hrows) fun _ _ _ h _ hs => publishedSound_step h hs
  have hbatch : (machine p).Conforms (protocol p) s ∧ FromBatch s := by
    refine hr.invariant (I := fun s => (machine p).Conforms (protocol p) s ∧ FromBatch s) ⟨conforms_of_opened h0, ?_⟩
      fun _ _ _ h _ hs => ⟨Machine.conforms_step h.1 hs, fromBatch_step h.1 h.2 hs⟩
    intro t k φ prog hth
    rw [h0.idle t] at hth
    cases hth
  have hcharges : Charges p s₀ s ([] ++ (machine p).collect charged s₀ ls) := by
    refine Machine.collect_invariant (fun s acc l s' h hs _ =>
      charges_step h0.numbered h hs) ls ⟨outboxSound_of_opened h0, le_refl _, fun r hr => ?_, nofun⟩
      (Machine.along_of_forall (P := fun _ _ _ => True) ls s₀ fun _ _ _ _ => trivial) hrun
    rw [attemptsOf_row h0.numbered hr, List.count_nil, Nat.add_zero]
  refine ⟨hpub.rows, ?_, ?_, ?_, ?_⟩
  · intro t k m ms prog hth ms' hstart
    exact unpublished_unmarked hpub.sound hth ms' hstart
  · intro r hrow
    have := hcharges.rows r hrow
    rwa [List.nil_append] at this
  · intro t c φ prog s' hth hs i r hi hout
    exact flush_frame hbatch.1 hbatch.2 ((machine p).step_iff.mp hs) hi hout
  · intro ms as now hlen
    exact solo_publishRows ms as hlen now []

end

/-- Two deliveries, and a flush that cannot publish the first of them. -/
def halfPublished : List Act :=
  ingestCalls 0 "d1" ++ ingestCalls 1 "d2" { sampleRequest with idempotencyKey := "k2" } ++
    [.start 2 .flush] ++ runs 2 3 ++ [.call 2 (.fault "no broker")] ++ runs 2 4

theorem published_is_accepted_sample :
    ∃ s, (machine {}).run (System.init {}) halfPublished = some s ∧
      s.state.db.outbox.map (fun r => (r.deliveryId, r.status, r.attempts)) =
        [("d1", .pending, 1), ("d2", .published, 0)] ∧
      (∀ r ∈ s.state.db.outbox, r.status = .published → s.state.Accepted r.deliveryId) ∧
      ∀ r ∈ s.state.db.outbox, r.attempts = (System.init {}).state.db.attemptsOf r.id +
        ((machine {}).collect charged (System.init {}) halfPublished).count r.id := by
  have hrun : ((machine {}).run (System.init {}) halfPublished).map (fun s =>
      s.state.db.outbox.map fun r => (r.deliveryId, r.status, r.attempts)) =
        some [("d1", .pending, 1), ("d2", .published, 0)] := by
    decide +kernel
  obtain ⟨s, hs, hout⟩ := Option.map_eq_some_iff.mp hrun
  have h := published_is_accepted {} (System.init {}) s halfPublished (init_opened {}) (fun r hr => by cases hr) hs
  exact ⟨s, hs, hout, h.1, h.2.2.1⟩

end GoCourier
