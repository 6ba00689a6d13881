import GoCourier.Content.Copies

/- What a provider is handed. A delivery is stored by one transaction, that of the one
   `Ingest` which drew its id; what `Send` gets is what that request asked for, for a
   channel that has a provider, whoever has written the row in between.

   `Dispatch` reads its delivery back from the table. So the recipient, the template and
   the payload are the request's in the database's spelling, which is the same JSON value
   in a text that may differ, and the time of the schedule is the request's for a request
   in whole microseconds. -/
namespace GoCourier

open Interleave

/-- No id is stored twice: not one that nobody has drawn, nor one that an `Ingest` still holds. -/
structure MadeOnce (s : System) : Prop where
  once : ∀ x, (s.hist.filterMap (storedFor x)).length ≤ 1
  undrawn : ∀ x, x ∉ s.state.issued → s.hist.filterMap (storedFor x) = []
  held : ∀ t id, minted (s.threads t) = some id → s.hist.filterMap (storedFor id) = []

section
variable {p : Params} {s s' : System} {l : Act} {x : String}

/-- The transaction that is to store `x` is one of an `Ingest` that holds the id, and does so no longer. -/
theorem storedFor_call (hc : (machine p).Conforms (protocol p) s) {t : Nat} {k : Task} {φ : Phase} {op : Op}
    {f : Ans op → CallTree Op Ans Result} {r : Ans op} {req : IngestRequest}
    (hth : s.threads t = some ⟨k, φ, .ask op f⟩) (h : storedFor x ⟨t, k, op, r⟩ = some req) :
    minted (s.threads t) = some x ∧ minted (some ⟨k, φ.next op r, f r⟩) = none := by
  have hm : May p k φ op := hc.may hth
  cases k with
  | ingest req' =>
    cases op with
    | remote q =>
      cases q with
      | ingestTransactional d exp subject payload headers schedule =>
        simp only [storedFor] at h
        split_ifs at h with hid
        obtain ⟨-, -, rfl, -⟩ := stores_minted hm
        refine ⟨by rw [hth, ← hid]; rfl, ?_⟩
        cases r with
        | ok v => rfl
        | error e =>
          simp only [Phase.next, IngestPhase.next, IngestPhase.commit]
          split <;> rfl
      | _ => cases h
    | _ => cases h
  | _ => cases h

/-- What a call adds to the stored ids. -/
theorem storedFor_heard (hsane : Sane p s) (h : MadeOnce s) {t : Nat} {k : Task} {φ : Phase} {op : Op}
    {f : Ans op → CallTree Op Ans Result} {r : Ans op} (hth : s.threads t = some ⟨k, φ, .ask op f⟩) (x : String) :
    (⟨t, k, op, r⟩ :: s.hist : List Called).filterMap (storedFor x) = s.hist.filterMap (storedFor x) ∨
      minted (s.threads t) = some x ∧ minted (some ⟨k, φ.next op r, f r⟩) = none ∧
        ∃ req, (⟨t, k, op, r⟩ :: s.hist : List Called).filterMap (storedFor x) = [req] := by
  cases hfor : storedFor x ⟨t, k, op, r⟩ with
  | none => exact .inl (List.filterMap_cons_none hfor)
  | some req =>
    obtain ⟨hheld, hnext⟩ := storedFor_call hsane.conforms hth hfor
    exact .inr ⟨hheld, hnext, req, by rw [List.filterMap_cons_some hfor, h.held t x hheld]⟩

theorem minted_issued (hsane : Sane p s) {t : Nat} {id : String} (h : minted (s.threads t) = some id) :
    id ∈ s.state.issued := by
  have hboard : s.state.Unused (minted (s.threads t)) := hsane.minting.each t
  rw [h] at hboard
  exact hboard.1

/-- The id a thread holds after its call it held before, or has just drawn. -/
theorem minted_called (hsane : Sane p s) {t : Nat} {k : Task} {φ : Phase} {op : Op} {c : Choice} {w : World}
    {f : Ans op → CallTree Op Ans Result} {r : Ans op} (hth : s.threads t = some ⟨k, φ, .ask op f⟩)
    (hans : answer p op c s.state = some (r, w)) {id : String} (h : minted (some ⟨k, φ.next op r, f r⟩) = some id) :
    minted (s.threads t) = some id ∨ id ∉ s.state.issued := by
  have hm : May p k φ op := hsane.conforms.may hth
  by_cases hop : op = .newUUID
  · subst hop
    cases answer_cases hans with
    | newUUID ne fresh =>
      cases φ with
      | ingest φ =>
        cases h
        exact .inr fresh
      | _ => cases h
  · rw [hth]
    rcases minted_next (f := f) (r := r) hm hop with hsame | hnone
    · exact .inl (hsame.symm.trans h)
    · rw [hnone] at h
      cases h

theorem minted_update {threads : Nat → Option (Thread Op Ans Task Result Phase)} {t u : Nat}
    {th : Option (Thread Op Ans Task Result Phase)} {id : String} (h : minted (Function.update threads t th u) = some id) :
    u = t ∧ minted th = some id ∨ u ≠ t ∧ minted (threads u) = some id := by
  by_cases hut : u = t
  · subst hut
    rw [Function.update_self] at h
    exact .inl ⟨rfl, h⟩
  · rw [Function.update_of_ne hut] at h
    exact .inr ⟨hut, h⟩

theorem madeOnce_step (hsane : Sane p s) (h : MadeOnce s) (hs : (machine p).Step s l s') : MadeOnce s' := by
  have hissued := (grows_step hs).issued
  have hundrawn : ∀ x, x ∉ s'.state.issued → s.hist.filterMap (storedFor x) = [] :=
    fun x hx => h.undrawn x fun hold => hx (hissued.subset hold)
  cases hs with
  | @start t k w free entered =>
    refine ⟨h.once, hundrawn, fun u id hu => ?_⟩
    rcases minted_update hu with ⟨-, hfirst⟩ | ⟨-, hu⟩
    · cases k <;> cases hfirst
    · exact h.held u id hu
  | @call t c k φ op f r w hth hans =>
    have hnew := storedFor_heard hsane h (r := r) hth
    refine ⟨fun x => ?_, fun x hx => ?_, fun u id hu => ?_⟩
    · rcases hnew x with hsame | ⟨-, -, req, hone⟩
      · exact hsame ▸ h.once x
      · exact hone ▸ Nat.le_refl 1
    · rcases hnew x with hsame | ⟨hheld, -⟩
      · exact hsame ▸ hundrawn x hx
      · exact absurd (hissued.subset (minted_issued hsane hheld)) hx
    · rcases minted_update hu with ⟨rfl, hself⟩ | ⟨hut, hu⟩
      · rcases hnew id with hsame | ⟨-, hnone, -⟩
        · refine hsame.trans ?_
          rcases minted_called hsane hth hans hself with hheld | hfresh
          · exact h.held u id hheld
          · exact h.undrawn id hfresh
        · cases hnone.symm.trans hself
      -- two threads never hold the same id
      · rcases hnew id with hsame | ⟨hheld, -⟩
        · exact hsame.trans (h.held u id hu)
        · exact absurd hheld (hsane.minting.pair u t hut id hu)
  | @crash t k φ op f running =>
    refine ⟨h.once, hundrawn, fun u id hu => ?_⟩
    rcases minted_update hu with ⟨-, hnone⟩ | ⟨-, hu⟩
    · cases hnone
    · exact h.held u id hu
  | move moved => exact ⟨h.once, hundrawn, h.held⟩

theorem init_madeOnce (p : Params) : MadeOnce (System.init p) where
  once _ := Nat.zero_le 1
  undrawn _ _ := rfl
  held _ _ h := by cases h

/-- What a stored row says, one request asked for. -/
theorem asked_of_stored (h : Faithful p s) (ho : MadeOnce s) {r : DeliveryRow} (hr : s.state.db.deliveries x = some r) :
    ∃ req, s.hist.filterMap (storedFor x) = [req] ∧ (req.spelled p.jsonb).Asks (scanDelivery x r) := by
  obtain ⟨req, hreq, hasks⟩ := h.rows x r hr
  refine ⟨req, ?_, hasks⟩
  have hlength := ho.once x
  cases hlist : s.hist.filterMap (storedFor x) with
  | nil =>
    rw [hlist] at hreq
    cases hreq
  | cons req' rest =>
    rw [hlist] at hreq hlength
    obtain rfl : rest = [] := List.length_eq_zero_iff.mp (Nat.le_zero.mp (Nat.le_of_succ_le_succ hlength))
    obtain rfl := List.mem_singleton.mp hreq
    rfl

/-- The delivery of a `Send` is one that a request of this run asked for, in the database's spelling. -/
def SentAsAsked (p : Params) (hist : List Called) (d : Delivery) : Prop :=
  (∃ req, hist.filterMap (storedFor d.id) = [req] ∧ (req.spelled p.jsonb).Asks d) ∧ d.WellFormed ∧
    d.channel ∈ p.providers

/-- The history of stored ids does not change once the id is stored. -/
theorem sentAsAsked_later (ho : MadeOnce s') (hsuffix : s.hist <:+ s'.hist) {d : Delivery}
    (h : SentAsAsked p s.hist d) : SentAsAsked p s'.hist d := by
  obtain ⟨⟨req, hreq, hasks⟩, hrest⟩ := h
  refine ⟨⟨req, ?_, hasks⟩, hrest⟩
  have hsub : s.hist.filterMap (storedFor d.id) <:+ s'.hist.filterMap (storedFor d.id) := hsuffix.filterMap _
  rw [hreq] at hsub
  exact (hsub.eq_of_length_le (ho.once d.id)).symm

/-- Over every run, whatever fails, crashes and runs at once. -/
theorem sent_as_asked {ok : System → Act → Prop} (hr : (machine p).Reach ok (System.init p) s) :
    ∀ e ∈ s.hist, ∀ d, e.op = .send d → SentAsAsked p s.hist d := by
  have h : Faithful p s ∧ MadeOnce s ∧ ∀ e ∈ s.hist, ∀ d, e.op = .send d → SentAsAsked p s.hist d := by
    refine hr.invariant (I := fun s => Faithful p s ∧ MadeOnce s ∧ ∀ e ∈ s.hist, ∀ d, e.op = .send d →
      SentAsAsked p s.hist d) ⟨init_faithful p, init_madeOnce p, fun e he => by cases he⟩ fun s l s' h _ hs => ?_
    obtain ⟨hf, ho, hsent⟩ := h
    have ho' := madeOnce_step hf.sane ho hs
    refine ⟨faithful_step hf hs, ho', ?_⟩
    rcases hs.heard with hsame | ⟨t, c, k, φ, op, f, r, -, hth, -, -, hhist⟩
    · rw [hsame]
      exact hsent
    · have hsuffix := hs.remembers
      intro e he d hd
      rw [hhist] at he
      rcases List.mem_cons.mp he with rfl | he
      · have hop : op = .send d := hd
        subst hop
        obtain ⟨rfl, hchannel⟩ := send_may (hf.sane.conforms.may hth)
        obtain ⟨row, hrow, hsame⟩ := hf.hands t _ d hth rfl
        obtain ⟨req, hreq, hasks⟩ := asked_of_stored hf ho hrow
        have hasked := asks_same hasks hsame
        exact sentAsAsked_later ho' hsuffix ⟨⟨req, hreq, hasked⟩, wellFormed_of_asks hasked, hchannel⟩
      · exact sentAsAsked_later ho' hsuffix (hsent e he d hd)
  exact h.2.2

end

theorem op_of_sends {x : String} {e : Called} (h : sends x e = true) : ∃ d, e.op = .send d ∧ d.id = x := by
  unfold sends at h
  split at h
  · exact ⟨_, rfl, of_decide_eq_true h⟩
  · cases h

/-- A delivery that is ingested and sent. -/
theorem sent_as_asked_sample : ∃ s e d,
    (machine {}).run (System.init {}) (ingestCalls 0 "d1" ++ succeedCalls 1 "d1" "a1") = some s ∧ e ∈ s.hist ∧
      e.op = .send d ∧ d.id = "d1" ∧ SentAsAsked {} s.hist d := by
  have hrun : ((machine {}).run (System.init {}) (ingestCalls 0 "d1" ++ succeedCalls 1 "d1" "a1")).map
      (fun s => s.hist.any (sends "d1")) = some true := by
    decide +kernel
  obtain ⟨s, hs, hany⟩ := Option.map_eq_some_iff.mp hrun
  obtain ⟨e, he, hsends⟩ := List.any_eq_true.mp hany
  obtain ⟨d, hop, hid⟩ := op_of_sends hsends
  exact ⟨s, e, d, hs, he, hop, hid, sent_as_asked (Machine.reach_run hs) e he d hop⟩

end GoCourier
