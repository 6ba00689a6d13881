import GoCourier.Handover.Keepers
import GoCourier.Ledger.Recovery
import GoCourier.Outcomes.Replay

/- Where the work of a delivery is, when nothing fails. A delivery that is queued or
   retrying is with a replay that has written it and is about to publish; or with a copy
   that keeps it going; or no message of it is sent yet, and its outbox row is there or
   with the tick that is about to write it. Whoever writes a row so carries its delivery
   from then on, and while nobody writes the row, what carries the delivery is handed on. -/
namespace GoCourier

open Interleave

/-- A replay is between its `Update` of `x` and its `Publish`. -/
def Requeuing (x : String) (s : System) : Prop :=
  ∃ t k d prog, s.threads t = some ⟨k, .replay (.requeued d), prog⟩ ∧ d.id = x

/-- What carries a delivery of status `st`. -/
inductive Carried (p : Params) (x : String) (st : Status) (s : System) : Prop where
  | requeuing (replay : Requeuing x s)
  | kept (keeper : Keeper p x st s)
  | unsent (fresh : ¬ Sent x s) (work : s.state.db.listed x ∨ Carrying x s)

structure Handed (p : Params) (x : String) (s : System) : Prop where
  keeping : Keeping p x s
  uncut : Uncut p x s
  carried : ∀ st n, s.state.db.row x = some (st, n) → st.Takeable → Carried p x st s

section
variable {p : Params} {s s' : System} {l : Act} {x : String} {st : Status}

theorem not_strands_of_faultFree (h : FaultFree s l) : ¬ Strands x s l := by
  intro hstrand
  cases hstrand with
  | crash tick about => exact h.1 _ rfl
  | enqueue tick about => exact h.2 _ _ rfl trivial
  | answer tick about pending => exact h.2 _ _ rfl trivial

theorem not_cut_of_faultFree (h : FaultFree s l) : ¬ Cut x s l := by
  intro hcut
  obtain ⟨t, ⟨hl, -⟩ | ⟨c, k, φ, op, f, hl, -, hfail⟩⟩ := hcut
  · exact h.1 t hl
  · refine h.2 t c hl ?_
    rcases hfail with ⟨-, ⟨msg, rfl⟩ | ⟨⟨msg, rfl⟩, -⟩⟩ | ⟨msg, d, st, m, rfl, -⟩ <;> exact trivial

/-! A row that stays. -/

/-- A replay that has requeued `x` publishes a message of it. -/
theorem requeuing_step (h : Keeping p x s) (hok : Reliable s l) (hs : (machine p).Step s l s') (hk : Requeuing x s) :
    Requeuing x s' ∨ ∃ m, m.deliveryId = .ok x ∧ s'.state.stream = s.state.stream ++ [m] := by
  have hc := h.mailed.holding.conforms
  obtain ⟨t, k, d, prog, hth, hx⟩ := hk
  by_cases hcall : ∃ a, l = .call t a
  · obtain ⟨a, rfl⟩ := hcall
    have hfree : ¬ a.Failing := hok.faultFree.2 t a rfl
    obtain ⟨id, hid⟩ := replay_task hc hth rfl
    have hid : k = .replay id := hid
    subst hid
    cases hs with
    | @call _ _ k ψ op f r w running answered =>
      have hsame := Option.some.inj (running.symm.trans hth)
      cases hsame
      have hans := answer_cases (p := p) answered
      have hm : ReplayMay p id (.requeued d) op := hc.may running
      have hmoves := replay_moves hm r
      have hstored : s.state.db.row d.id ≠ none := by
        obtain ⟨st, n, hrow, -⟩ := h.mailed.requeued t _ d _ hth
        rw [hrow]
        exact Option.some_ne_none _
      generalize ReplayPhase.next (.requeued d) op r = φ at hmoves
      cases hmoves with
      | clock φ now => exact .inl ⟨t, .replay id, d, f now, Function.update_self .., hx⟩
      | published d u =>
        have hran := answered_ran hans hfree
        have hid := deliveryId_idBody ((h.mailed.scheduling d.id).sane.named hstored)
          (notificationSubject p.streamPrefix d.channel d.priority) (replayHeaders d.id)
        rw [exec, publish_notification] at hran
        obtain ⟨-, rfl⟩ := Prod.mk.inj hran
        exact .inr ⟨_, hx ▸ hid, rfl⟩
      | unpublished d e =>
        have hran := answered_ran hans hfree
        rw [exec, publish_notification] at hran
        cases (Prod.mk.inj hran).1
  · have hkept := hs.kept hth (fun a hl => hcall ⟨a, hl⟩) (hok.faultFree.1 t)
    exact .inl ⟨t, k, d, prog, hkept, hx⟩

/-- What carries `x` goes on while its row stays. -/
theorem carried_step (h : Keeping p x s) (hok : Reliable s l) (hs : (machine p).Step s l s') (hst : st.Takeable) {n n' : Nat}
    (hrow : s.state.db.row x = some (st, n)) (hrow' : s'.state.db.row x = some (st, n')) (hk : Carried p x st s) :
    Carried p x st s' := by
  have hgrown : ∀ {m : Message}, m.deliveryId = .ok x → s'.state.stream = s.state.stream ++ [m] → Carried p x st s' :=
    fun hx hgrown => .kept (keeper_of_grown h.mailed.holding hok hs hgrown hx st)
  cases hk with
  | requeuing replay =>
    rcases requeuing_step h hok hs replay with hon | ⟨m, hx, hstream⟩
    · exact .requeuing hon
    · exact hgrown hx hstream
  | kept keeper => exact .kept (keeper_step h hok hs hst hrow hrow' keeper)
  | unsent fresh work =>
    -- the first message is sent by this step, or the row and the tick stay
    by_cases hsent : Sent x s'
    · rcases sent_origin hs hsent with hold | ⟨t, c, k, φ, subject, body, headers, f, -, -, hx, hstream⟩
      · exact absurd hold fresh
      · exact hgrown hx hstream
    · refine .unsent hsent ?_
      rcases work with hlist | hcarry
      · exact .inl (listed_step (h.mailed.scheduling x).sane hs hlist)
      · exact accounted_carrying (h.mailed.scheduling x) (not_strands_of_faultFree hok.faultFree) hs hcarry

/-! A row that is written. -/

/-- No message names a delivery before it is released. -/
theorem unsent_of_unreleased (h : Mailed p s) (hs : (machine p).Step s l s') (hno : ¬ s.state.db.released x) :
    ¬ Sent x s' := by
  intro hsent
  rcases sent_origin hs hsent with hold | ⟨t, c, k, φ, subject, body, headers, f, -, hth, hx, -⟩
  · exact hno (h.released x hold)
  · exact hno (h.released_of_publish hth hx)

/-- A delivery that is ingested as queued is in the outbox. -/
theorem listed_of_created (h : Sane p s) (hs : (machine p).Step s l s') (hnew : s.state.db.row x = none) {n : Nat}
    (hrow : s'.state.db.row x = some (.queued, n)) : s'.state.db.listed x := by
  -- the tables hold a new delivery
  have hnone : s.state.db.owner x = none := Tables.row_eq_none.mp hnew
  have howner : s'.state.db.owner x ≠ s.state.db.owner x := by
    rw [hnone]
    exact Tables.owner_of_row hrow
  cases worked_step h.conforms hs with
  | same owner outbox scheduled => exact absurd (congrFun owner x) howner
  | @ingested req d exp headers schedule makes committed =>
    have hin := Tables.ingested_of_ok h.linked committed
    by_cases hx : d.id = x
    · rw [Tables.row_insert hin.deliveries, if_pos hx, makes.status] at hrow
      have hnow : schedule = false := by
        by_contra hlater
        rw [Bool.not_eq_false] at hlater
        rw [hlater] at hrow
        cases hrow
      subst hnow
      have hwork : ∃ r, (s.state.db.ingestWork s.state.clock d (notificationSubject p.streamPrefix d.channel d.priority)
          (idBody d.id) headers false).2 = [r] ∧ r.deliveryId = d.id := ⟨_, rfl, rfl⟩
      obtain ⟨r, hr, hid⟩ := hwork
      refine ⟨r, ?_, hid.trans hx⟩
      rw [hin.outbox, hr]
      exact List.mem_append_right _ (List.mem_singleton.mpr rfl)
    · rw [Tables.owner_ingested hin, Function.update_of_ne (Ne.symm hx)] at howner
      exact absurd rfl howner
  | enqueued label caller stored => exact absurd (by rw [stored]; rfl) howner
  | processed label caller stored => exact absurd (by rw [stored]; rfl) howner
  | published label caller phase stored => exact absurd (by rw [stored]; rfl) howner
  | refused label caller stored => exact absurd (by rw [stored]; rfl) howner

/-- Whoever writes `x` to be dispatched carries it. -/
theorem carried_of_update (h : Mailed p s) (hok : Reliable s l) (hs : (machine p).Step s l s') {t : Nat} {a : Choice}
    {k : Task} {φ : Phase} {d : Delivery} {f : Ans (.remote (.update d)) → CallTree Op Ans Result} (label : l = .call t a)
    (running : s.threads t = some ⟨k, φ, .ask (.remote (.update d)) f⟩) (hst : d.status.Takeable) :
    Carried p d.id d.status s' := by
  subst label
  have hc := h.holding.conforms
  have hm : May p k φ (.remote (.update d)) := hc.may running
  obtain ⟨r, answered, hth, -⟩ := hs.called running
  have hran := answered_ran (answer_cases (p := p) answered) (hok.faultFree.2 t a rfl)
  have hr : r = .ok () := (Prod.mk.inj hran).1.symm
  subst hr
  have hnow : s'.threads t = some ⟨k, φ.next (.remote (.update d)) (.ok ()), f (.ok ())⟩ := by
    rw [hth]
    exact Function.update_self ..
  cases update_may hm with
  | @settle ψ _ settles =>
    obtain ⟨proc, i, c, m, rfl, hi, hlt⟩ := h.holding.handlers t k ψ _ running
    have hid : m.deliveryId = .ok d.id := settles_id settles (worker_about hc running)
    refine .kept ⟨i, c, m, present_step hs hi, hid, hlt, .inr ⟨t, proc, _, _, hnow, ?_⟩⟩
    -- of the writes that settle a dispatch only the retry leaves the delivery to be dispatched
    cases settles with
    | noProvider absent moved =>
      rw [moved.status] at hst
      exact absurd hst (by decide)
    | gaveUp out moved =>
      rw [moved.status] at hst
      exact absurd hst (by decide)
    | retry more moved => exact moved.status
    | success moved =>
      rw [moved.status] at hst
      exact absurd hst (by decide)
  | @replay d₀ _ now dead queued => exact .requeuing ⟨t, k, d, _, hnow, rfl⟩
  | @tick d₀ _ now ids pending queued =>
    have hid : d₀.id = d.id := by rw [queued]
    have hbefore := (h.scheduling d.id).fresh running hid pending
    have hk : k = .processDue := tick_task hc running rfl
    subst hk
    refine .unsent (unsent_of_unreleased h hs fun hrel => ?_) (.inr ⟨t, d, ids, _, hnow, rfl⟩)
    obtain ⟨st, n, hrow, hne⟩ := hrel
    rw [hbefore] at hrow
    exact hne (congrArg Prod.fst (Option.some.inj hrow)).symm

theorem carried_of_handed (h : Handed p x s) (hok : Reliable s l) (hs : (machine p).Step s l s') {n : Nat}
    (hrow : s'.state.db.row x = some (st, n)) (hst : st.Takeable) : Carried p x st s' := by
  obtain ⟨r', hr', hparts⟩ := Option.map_eq_some_iff.mp hrow
  have hstatus : r'.status = st := congrArg Prod.fst hparts
  cases wrote_step hs hr' with
  | kept before =>
    have hbefore : s.state.db.row x = some (st, n) := (congrArg (Option.map _) before).trans (hr' ▸ hrow)
    exact carried_step h.keeping hok hs hst hbefore hrow (h.carried st n hbefore hst)
  | @updated t a k φ d r f label effective running about before after =>
    have hd : d.status = st := by rw [← hstatus, after]; rfl
    subst hd
    subst about
    exact carried_of_update h.keeping.mailed hok hs label running hst
  | @claimed t a k φ d st' r f label effective running about before expected after =>
    have hm : May p k φ (.remote (.updateIfStatus d st')) := h.keeping.mailed.holding.conforms.may running
    obtain ⟨d₀, now, -, -, -, taken⟩ := claim_may hm
    -- who takes a delivery leaves it processing
    have hproc : st = .processing := by rw [← hstatus, after, taken]; rfl
    rw [hproc] at hst
    exact absurd hst (by decide)
  | @created t a k φ d exp subject payload headers schedule f label effective running about new after =>
    have hm : May p k φ (.remote (.ingestTransactional d exp subject payload headers schedule)) :=
      h.keeping.mailed.holding.conforms.may running
    obtain ⟨req, -, -, makes, -, -⟩ := stores_minted hm
    have hd : d.status = st := by rw [← hstatus, after]; rfl
    -- a delivery scheduled for later starts as pending
    have hqueued : st = .queued := by
      rw [← hd, makes.status] at hst ⊢
      split_ifs at hst ⊢ with hlater
      · exact absurd hst (by decide)
      · rfl
    have hnew : s.state.db.row x = none := by rw [Tables.row, new]; rfl
    subst hqueued
    have hlist := listed_of_created (h.keeping.mailed.scheduling x).sane hs hnew hrow
    refine .unsent (unsent_of_unreleased h.keeping.mailed hs fun hrel => ?_) (.inl hlist)
    obtain ⟨st', m, hbefore, -⟩ := hrel
    rw [hnew] at hbefore
    cases hbefore

theorem init_handed (p : Params) (x : String) : Handed p x (System.init p) where
  keeping := init_keeping p x
  uncut := by
    refine ⟨init_conforms p, ⟨fun n h => ?_, fun t h => ?_⟩⟩
    · cases h
    · cases h
  carried := by
    intro st n h
    cases h

theorem handed_step (h : Handed p x s) (hok : Reliable s l) (hshort : ¬ TakesShort p x s l)
    (hs : (machine p).Step s l s') : Handed p x s' where
  keeping := keeping_step h.keeping hok hshort hs
  uncut := uncut_step h.uncut (not_cut_of_faultFree hok.faultFree) hs
  carried _ _ := carried_of_handed h hok hs

theorem reach_handed (hr : (machine p).Reach (fun s l => Reliable s l ∧ ¬ TakesShort p x s l) (System.init p) s) :
    Handed p x s :=
  hr.invariant (init_handed p x) fun _ _ _ h hok hs => handed_step h hok.1 hok.2 hs

end

end GoCourier
