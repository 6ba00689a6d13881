import GoCourier.Handover.Work
import GoCourier.System.Runs

/- The outbox table over runs from any contents. Its rows are numbered by their place
   and are never deleted, and what a row says of its message never changes: only how its
   publication has gone does. A flush has fetched distinct rows and takes them one after
   the other, so each row it still has in hand is a row of the table. -/
namespace GoCourier

open Interleave

/-- What a row says, apart from how its publication has gone. -/
def OutboxMessage.letter (m : OutboxMessage) : OutboxMessage := { m with attempts := 0 }

def OutboxRow.letter (r : OutboxRow) : OutboxMessage := r.message.letter

/-- The rows a flush has in hand, the one it is at first. -/
def FlushPhase.rows : FlushPhase → List OutboxMessage
  | .going ms => ms
  | .checked m ms _ => m :: ms
  | .sent m ms _ => m :: ms
  | _ => []

namespace Tables

def letters (t : Tables) : List OutboxMessage := t.outbox.map OutboxRow.letter

/-- The serial ids of a table from which nothing is deleted. -/
def Numbered (t : Tables) : Prop := ∀ i r, t.outbox[i]? = some r → r.id = i + 1

variable {t t' : Tables}

theorem Numbered.get (h : t.Numbered) {r : OutboxRow} (hr : r ∈ t.outbox) :
    ∃ i, t.outbox[i]? = some r ∧ r.id = i + 1 := by
  obtain ⟨i, hi⟩ := List.mem_iff_getElem?.mp hr
  exact ⟨i, hi, h i r hi⟩

theorem Numbered.inj (h : t.Numbered) {r r' : OutboxRow} (hr : r ∈ t.outbox) (hr' : r' ∈ t.outbox)
    (hid : r.id = r'.id) : r = r' := by
  obtain ⟨i, hi, hri⟩ := h.get hr
  obtain ⟨j, hj, hrj⟩ := h.get hr'
  have hij : i = j := by omega
  subst hij
  exact Option.some.inj (hi.symm.trans hj)

theorem Numbered.ids (h : t.Numbered) : t.outbox.map (·.id) = (List.range t.outbox.length).map (· + 1) := by
  apply List.ext_getElem?
  intro i
  rw [List.getElem?_map, List.getElem?_map]
  cases hi : t.outbox[i]? with
  | none => simp [List.getElem?_eq_none_iff.mp hi]
  | some r =>
    obtain ⟨hlt, -⟩ := List.getElem?_eq_some_iff.mp hi
    simp [hlt, h i r hi]

theorem Numbered.nodup (h : t.Numbered) : (t.outbox.map (·.id)).Nodup := by
  rw [h.ids]
  exact List.nodup_range.map fun i j hij => Nat.succ.inj hij

theorem numbered_append (h : t.Numbered) {rs : List OutboxRow} (hout : t'.outbox = t.outbox ++ rs)
    (hrs : ∀ i r, rs[i]? = some r → r.id = t.outbox.length + i + 1) : t'.Numbered := by
  intro i r hi
  rw [hout] at hi
  by_cases hlt : i < t.outbox.length
  · rw [List.getElem?_append_left hlt] at hi
    exact h i r hi
  · rw [List.getElem?_append_right (by omega)] at hi
    have := hrs _ _ hi
    omega

theorem numbered_setOutbox (h : t.Numbered) (id : Nat) {f : OutboxRow → OutboxRow} (hf : ∀ r, (f r).id = r.id) :
    (t.setOutbox id f).Numbered := by
  intro i r' hi
  have hi : (t.outbox.map fun r => if r.id = id then f r else r)[i]? = some r' := hi
  rw [List.getElem?_map] at hi
  obtain ⟨r, hr, rfl⟩ := Option.map_eq_some_iff.mp hi
  split
  · rw [hf]
    exact h i r hr
  · exact h i r hr

theorem letters_append {rs : List OutboxRow} (hout : t'.outbox = t.outbox ++ rs) : t.letters <+: t'.letters := by
  unfold letters
  rw [hout, List.map_append]
  exact List.prefix_append ..

/-- A letter is one of before, or that of a row that was added. -/
theorem letter_of_append {rs : List OutboxRow} (hout : t'.outbox = t.outbox ++ rs) {m : OutboxMessage}
    (hm : m ∈ t'.letters) : m ∈ t.letters ∨ ∃ r ∈ rs, m = r.letter := by
  obtain ⟨r, hr, rfl⟩ := List.mem_map.mp hm
  rw [hout] at hr
  rcases List.mem_append.mp hr with hold | hnew
  · exact .inl (List.mem_map_of_mem hold)
  · exact .inr ⟨r, hnew, rfl⟩

theorem mem_ingestWork {now : Time} {d : Delivery} {subject : String} {payload : Body} {headers : Headers}
    {schedule : Bool} {r : OutboxRow} (hr : r ∈ (t.ingestWork now d subject payload headers schedule).2) :
    r.letter = ⟨r.id, d.id, subject, payload, headers, 0⟩ := by
  unfold ingestWork at hr
  split at hr
  · cases hr
  · obtain rfl := List.mem_singleton.mp hr
    rfl

theorem letters_setOutbox (id : Nat) {f : OutboxRow → OutboxRow} (hf : ∀ r, (f r).letter = r.letter) :
    (t.setOutbox id f).letters = t.letters := by
  unfold letters setOutbox
  rw [List.map_map]
  refine List.map_congr_left fun r _ => ?_
  simp only [Function.comp_apply]
  split
  · exact hf r
  · rfl

theorem letter_of_setOutbox {id : Nat} {f : OutboxRow → OutboxRow} (hf : ∀ r, (f r).letter = r.letter)
    (hset : t' = t.setOutbox id f) {m : OutboxMessage} (hm : m ∈ t'.letters) : m ∈ t.letters := by
  rw [hset, letters_setOutbox id hf] at hm
  exact hm

/-- What `FetchPending` returns are rows of the table, each once. -/
theorem fetchPending_rows (h : t.Numbered) (limit : Nat) :
    (∀ m ∈ t.fetchPending limit, ∃ r ∈ t.outbox, r.status = .pending ∧ m = r.message) ∧
      ((t.fetchPending limit).map (·.id)).Nodup := by
  have hperm := List.perm_insertionSort (fun a b : OutboxRow => a.createdAt ≤ b.createdAt)
    (t.outbox.filter (·.status = .pending))
  constructor
  · intro m hm
    obtain ⟨r, hr, rfl⟩ := List.mem_map.mp hm
    have hmem := hperm.mem_iff.mp (List.mem_of_mem_take hr)
    rw [List.mem_filter, decide_eq_true_eq] at hmem
    exact ⟨r, hmem.1, hmem.2, rfl⟩
  · have hmap : (t.fetchPending limit).map (·.id) =
        (((t.outbox.filter (·.status = .pending)).insertionSort (·.createdAt ≤ ·.createdAt)).take limit).map (·.id) := by
      unfold fetchPending
      rw [List.map_map]
      rfl
    rw [hmap]
    apply List.Nodup.sublist ((List.take_sublist ..).map _)
    rw [(hperm.map _).nodup_iff]
    exact h.nodup.sublist (List.filter_sublist.map _)

end Tables

section
variable {p : Params} {s s' : System} {l : Act}

theorem ingestWork_numbered (t : Tables) (now : Time) (d : Delivery) (subject : String) (payload : Body)
    (headers : Headers) (schedule : Bool) (i : Nat) (r : OutboxRow)
    (h : (t.ingestWork now d subject payload headers schedule).2[i]? = some r) :
    r.id = t.outbox.length + i + 1 ∧ r.status = .pending ∧ r.attempts = 0 := by
  have hone : ∀ r₀ : OutboxRow, [r₀][i]? = some r → i = 0 ∧ r = r₀ := by
    intro r₀ h
    cases i with
    | zero => exact ⟨rfl, (Option.some.inj h).symm⟩
    | succ i => cases h
  unfold Tables.ingestWork at h
  split at h
  · cases h
  · obtain ⟨rfl, rfl⟩ := hone _ h
    exact ⟨rfl, rfl, rfl⟩

/-- A step appends outbox rows, or sets one as a flush does. -/
inductive Posted (s : System) (l : Act) (t : Tables) : Prop where
  | added (rs : List OutboxRow) (outbox : t.outbox = s.state.db.outbox ++ rs)
      (rows : ∀ i r, rs[i]? = some r → r.id = s.state.db.outbox.length + i + 1 ∧ r.status = .pending ∧ r.attempts = 0)
  | published {u : Nat} {c : Choice} {m : OutboxMessage} {ms : List OutboxMessage} {φ : FlushPhase}
      {prog : CallTree Op Ans Result} (label : l = .call u c) (caller : s.threads u = some ⟨.flush, .flush φ, prog⟩)
      (phase : φ = .checked m ms true ∨ φ = .sent m ms true) (stored : t = s.state.db.markPublished m.id)
  | refused {u : Nat} {c : Choice} {m : OutboxMessage} {ms : List OutboxMessage} {msg : String}
      {prog : CallTree Op Ans Result} (label : l = .call u c)
      (caller : s.threads u = some ⟨.flush, .flush (.sent m ms false), prog⟩) (stored : t = s.state.db.markFailed m.id msg)

theorem posted_step (hc : (machine p).Conforms (protocol p) s) (hs : (machine p).Step s l s') :
    Posted s l s'.state.db := by
  cases worked_step hc hs with
  | same owner outbox scheduled => exact .added [] (by rw [outbox, List.append_nil]) nofun
  | ingested makes committed =>
    refine .added _ (congrArg Tables.outbox (Tables.ingestTransactional_work committed)) ?_
    intro i r hr
    exact ingestWork_numbered _ _ _ _ _ _ _ i r hr
  | enqueued label caller stored =>
    refine .added [_] (congrArg Tables.outbox stored) ?_
    intro i r hr
    cases i with
    | zero =>
      obtain rfl := Option.some.inj hr
      exact ⟨rfl, rfl, rfl⟩
    | succ i => cases hr
  | processed label caller stored =>
    refine .added [] ?_ nofun
    rw [stored, List.append_nil]
    rfl
  | published label caller phase stored => exact .published label caller phase stored
  | refused label caller stored => exact .refused label caller stored

theorem numbered_step (hc : (machine p).Conforms (protocol p) s) (h : s.state.db.Numbered)
    (hs : (machine p).Step s l s') : s'.state.db.Numbered := by
  cases posted_step hc hs with
  | added rs outbox rows => exact Tables.numbered_append h outbox fun i r hr => (rows i r hr).1
  | @published u c m ms φ prog label caller phase stored =>
    rw [stored]
    exact Tables.numbered_setOutbox h m.id (f := fun r => { r with status := .published }) fun _ => rfl
  | @refused u c m ms msg prog label caller stored =>
    rw [stored]
    exact Tables.numbered_setOutbox h m.id
      (f := fun r => { r with attempts := r.attempts + 1, lastError := some msg }) fun _ => rfl

theorem letters_step (hc : (machine p).Conforms (protocol p) s) (hs : (machine p).Step s l s') :
    s.state.db.letters <+: s'.state.db.letters := by
  cases posted_step hc hs with
  | added rs outbox rows => exact Tables.letters_append outbox
  | @published u c m ms φ prog label caller phase stored =>
    have hsame := s.state.db.letters_setOutbox m.id (f := fun r => { r with status := .published }) fun _ => rfl
    rw [stored]
    exact hsame ▸ List.prefix_refl _
  | @refused u c m ms msg prog label caller stored =>
    have hsame := s.state.db.letters_setOutbox m.id
      (f := fun r => { r with attempts := r.attempts + 1, lastError := some msg }) fun _ => rfl
    rw [stored]
    exact hsame ▸ List.prefix_refl _

/-- Where a flush's thread comes from. -/
theorem flush_origin (hc : (machine p).Conforms (protocol p) s) (hs : (machine p).Step s l s') {u : Nat} {k : Task}
    {φ : FlushPhase} {prog : CallTree Op Ans Result} (hu : s'.threads u = some ⟨k, .flush φ, prog⟩) :
    s.threads u = some ⟨k, .flush φ, prog⟩ ∧ (∀ c, l ≠ .call u c) ∨ φ = .start ∨
      ∃ c ψ op f r, l = .call u c ∧ s.threads u = some ⟨.flush, .flush ψ, .ask op f⟩ ∧
        answer p op c s.state = some (r, s'.state) ∧ FlushMoves ψ op r φ := by
  rcases hs.origin_cases hu with hkept | ⟨-, -, hfirst⟩ | ⟨c, ψ, op, f, r, label, running, answered, hnext⟩
  · exact .inl hkept
  · cases k <;> cases hfirst
    exact .inr (.inl rfl)
  · have hm : May p k ψ op := hc.may running
    cases ψ with
    | flush ψ =>
      have hk : k = .flush := by
        cases k with
        | flush => rfl
        | _ => exact hm.elim
      subst hk
      cases hnext
      exact .inr (.inr ⟨c, ψ, op, f, r, label, running, answered, flush_moves hm r⟩)
    | _ => cases hnext

/-- The rows in hand are rows of the table, each once. -/
structure InHand (t : Tables) (ms : List OutboxMessage) : Prop where
  carried : ∀ m ∈ ms, m.letter ∈ t.letters
  distinct : (ms.map (·.id)).Nodup

theorem inHand_nil (t : Tables) : InHand t [] := ⟨nofun, List.nodup_nil⟩

theorem inHand_tail {t : Tables} {m : OutboxMessage} {ms : List OutboxMessage} (h : InHand t (m :: ms)) : InHand t ms :=
  ⟨fun m' hm' => h.carried m' (List.mem_cons_of_mem _ hm'), (List.nodup_cons.mp h.distinct).2⟩

theorem inHand_mono {t t' : Tables} {ms : List OutboxMessage} (h : InHand t ms) (hl : t.letters <+: t'.letters) :
    InHand t' ms :=
  ⟨fun m hm => hl.subset (h.carried m hm), h.distinct⟩

theorem inHand_fetched {t : Tables} (h : t.Numbered) (limit : Nat) : InHand t (t.fetchPending limit) := by
  obtain ⟨hrows, hnodup⟩ := Tables.fetchPending_rows h limit
  refine ⟨fun m hm => ?_, hnodup⟩
  obtain ⟨r, hr, -, rfl⟩ := hrows m hm
  exact List.mem_map.mpr ⟨r, hr, rfl⟩

/-- The outbox invariant of every run. -/
structure OutboxSound (p : Params) (s : System) : Prop where
  conforms : (machine p).Conforms (protocol p) s
  numbered : s.state.db.Numbered
  hands : ∀ t k φ prog, s.threads t = some ⟨k, .flush φ, prog⟩ → InHand s.state.db φ.rows

/-- Nothing is running yet; the outbox may hold any rows. -/
structure Opened (s : System) : Prop where
  idle : ∀ t, s.threads t = none
  unheard : s.hist = []
  numbered : s.state.db.Numbered

theorem init_opened (p : Params) : Opened (System.init p) where
  idle _ := rfl
  unheard := rfl
  numbered := by
    intro i r hr
    cases hr

theorem conforms_of_opened (h : Opened s) : (machine p).Conforms (protocol p) s := by
  intro t th hth
  rw [h.idle t] at hth
  cases hth

theorem outboxSound_of_opened (h : Opened s) : OutboxSound p s := by
  refine ⟨conforms_of_opened h, h.numbered, ?_⟩
  intro t k φ prog hth
  rw [h.idle t] at hth
  cases hth

theorem outboxSound_step (h : OutboxSound p s) (hs : (machine p).Step s l s') : OutboxSound p s' := by
  have hletters := letters_step h.conforms hs
  refine ⟨Machine.conforms_step h.conforms hs, numbered_step h.conforms h.numbered hs, ?_⟩
  intro u k φ prog hu
  rcases flush_origin h.conforms hs hu with ⟨before, -⟩ | rfl | ⟨c, ψ, op, f, r, -, running, answered, hmoves⟩
  · exact inHand_mono (h.hands u k φ prog before) hletters
  · exact inHand_nil _
  · have hhand := inHand_mono (h.hands u _ ψ _ running) hletters
    have hans := answer_cases (p := p) answered
    cases hmoves with
    | fetched limit ms =>
      obtain ⟨-, hexec⟩ := answered_ok hans
      obtain rfl : s.state.db.fetchPending limit = ms := Except.ok.inj (congrArg Prod.fst hexec)
      exact inHand_mono (inHand_fetched h.numbered limit) hletters
    | counted r => exact hhand
    | unfetched limit e => exact inHand_nil _
    | checked m ms b => exact hhand
    | unchecked m ms e => exact inHand_tail hhand
    | sent m ms => exact hhand
    | unsent m ms e => exact hhand
    | skipped m ms r => exact inHand_tail hhand
    | marked m ms r => exact inHand_tail hhand
    | refused m ms msg r => exact inHand_tail hhand

theorem reach_outboxSound {ok : System → Act → Prop} {s₀ : System} (h0 : Opened s₀)
    (hr : (machine p).Reach ok s₀ s) : OutboxSound p s :=
  hr.invariant (outboxSound_of_opened h0) fun _ _ _ h _ hs => outboxSound_step h hs

end

end GoCourier
