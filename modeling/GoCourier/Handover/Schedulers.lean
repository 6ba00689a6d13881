import GoCourier.Handover.Survival

/- Schedulers side by side. The locks of `FetchDue` are gone when the statement ends, so
   two ticks may have one delivery to release; each reads it, and writes it as queued on
   the word of what it has read, with no look at what the row says by then. One of two
   ticks that have both read the delivery pending may write it when it has long been
   sent. As long as no tick reads it pending behind another one's back, it is released
   once and by one tick. -/
namespace GoCourier

open Interleave

/-- The thread whose tick wrote `x` as queued in this call. -/
def queuer (x : String) : Called → Option Nat
  | ⟨t, .processDue, .remote (.update d), .ok _⟩ => if d.id = x then some t else none
  | _ => none

/-- The thread whose tick enqueued `x` in this call. -/
def enqueuer (x : String) : Called → Option Nat
  | ⟨t, .processDue, .remote (.enqueue id _ _ _), .ok _⟩ => if id = x then some t else none
  | _ => none

/-- The tick of thread `t` has written `x` and is to enqueue it. -/
def Carrier (x : String) (s : System) (t : Nat) : Prop :=
  ∃ k d ids prog, s.threads t = some ⟨k, .tick (.requeued d ids), prog⟩ ∧ d.id = x

/-- A tick reads `x` pending while another one that has read it so is still to write it. -/
def SecondLook (x : String) (s : System) (l : Act) : Prop :=
  ∃ t u c φ f k d ids prog, l = .call t c ∧ s.threads t = some ⟨.processDue, φ, .ask (.remote (.findByID x)) f⟩ ∧
    (∃ n, s.state.db.row x = some (.pending, n)) ∧ u ≠ t ∧
    s.threads u = some ⟨k, .tick (.snap d ids), prog⟩ ∧ d.id = x ∧ d.status = .pending

/-- A tick that writes `x` finds it pending. -/
def WritesPending (x : String) : System → Act → Prop := OnCall fun k op _ w =>
  k = .processDue → ∀ d, op = .remote (.update d) → d.id = x → ∃ n, w.db.row x = some (.pending, n)

/-- Who has released `x`: nobody while it is pending, and one tick afterwards. -/
structure Dispensed (p : Params) (x : String) (s : System) : Prop where
  sane : Sane p s
  seen : EarlySeen x s
  one : ∀ {t u : Nat}, t ≠ u → ∀ n m,
    ¬ (threadStance x (s.threads t) = .ticker n ∧ threadStance x (s.threads u) = .ticker m)
  held : ∀ t, Carrier x s t → s.hist.filterMap (queuer x) = [t] ∧ s.hist.filterMap (enqueuer x) = []
  once : s.hist.filterMap (queuer x) = [] ∧ s.hist.filterMap (enqueuer x) = [] ∨
    ∃ t, s.hist.filterMap (queuer x) = [t] ∧
      (s.hist.filterMap (enqueuer x) = [t] ∧ s.state.db.listed x ∨
        s.hist.filterMap (enqueuer x) = [] ∧ Carrier x s t)
  early : ¬ s.state.db.released x → s.hist.filterMap (queuer x) = []
  late : s.state.db.isScheduled x → s.state.db.released x → s.hist.filterMap (queuer x) ≠ []

section
variable {p : Params} {s s' : System} {l : Act} {x : String}

theorem ticker_snap {t : Nat} {n : Nat} (h : threadStance x (s.threads t) = .ticker n) :
    ∃ k d ids prog, s.threads t = some ⟨k, .tick (.snap d ids), prog⟩ ∧ d.id = x ∧ d.status = .pending := by
  obtain ⟨⟨k, φ, prog⟩, hth, hst⟩ := standing_thread h nofun
  cases hst with
  | ticker id pending => exact ⟨k, _, _, prog, hth, id, pending⟩

/-- A tick comes to stand as one by reading `x` pending. -/
theorem look_of_ticker (hc : (machine p).Conforms (protocol p) s) (hs : (machine p).Step s l s') {t n : Nat}
    (h : threadStance x (s'.threads t) = .ticker n) :
    threadStance x (s.threads t) = .ticker n ∧ (∀ c, l ≠ .call t c) ∨
      ∃ c φ f, l = .call t c ∧ s.threads t = some ⟨.processDue, φ, .ask (.remote (.findByID x)) f⟩ ∧
        ∃ m, s.state.db.row x = some (.pending, m) := by
  obtain ⟨k, d, ids, prog, hth, hx, hst⟩ := ticker_snap h
  rcases tick_origin hc hs hth with ⟨before, other⟩ | hstart | ⟨c, ψ, op, f, r, hl, running, answered, hmoves⟩
  · rw [before]
    rw [hth] at h
    exact .inl ⟨h, other⟩
  · cases hstart
  · have hans := answer_cases (p := p) answered
    cases hmoves with
    | read todo d =>
      obtain ⟨-, hexec⟩ := answered_ok hans
      obtain ⟨hid, hrow⟩ := Tables.findByID_ok (show s.state.db.findByID _ = .ok d from congrArg Prod.fst hexec)
      rw [hid] at hx
      subst hx
      rw [hst] at hrow
      exact .inr ⟨c, _, f, hl, running, _, hrow⟩

theorem one_ticker_step (h : Dispensed p x s) (hok : ¬ SecondLook x s l) (hs : (machine p).Step s l s') {t u : Nat}
    (htu : t ≠ u) (n m : Nat) :
    ¬ (threadStance x (s'.threads t) = .ticker n ∧ threadStance x (s'.threads u) = .ticker m) := by
  intro hboth
  have hc := h.sane.conforms
  -- the one that was not there before has taken a second look
  have hsecond : ∀ {t u n m : Nat}, t ≠ u → threadStance x (s.threads u) = .ticker m →
      (∃ c φ f, l = .call t c ∧ s.threads t = some ⟨.processDue, φ, .ask (.remote (.findByID x)) f⟩ ∧
        ∃ m, s.state.db.row x = some (.pending, m)) → False := by
    intro t u n m htu hu hlook
    obtain ⟨c, φ, f, hl, hth, hrow⟩ := hlook
    obtain ⟨k, d, ids, prog, hu', hx, hst⟩ := ticker_snap hu
    exact hok ⟨t, u, c, φ, f, k, d, ids, prog, hl, hth, hrow, Ne.symm htu, hu', hx, hst⟩
  rcases look_of_ticker hc hs hboth.1 with ⟨ht, hnt⟩ | ht <;> rcases look_of_ticker hc hs hboth.2 with ⟨hu, hnu⟩ | hu
  · exact h.one htu n m ⟨ht, hu⟩
  · exact hsecond (n := m) (Ne.symm htu) ht hu
  · exact hsecond (n := n) htu hu ht
  · obtain ⟨c, -, -, hl, -⟩ := ht
    obtain ⟨c', -, -, hl', -⟩ := hu
    cases hl.symm.trans hl'
    exact htu rfl

/-- A call that counts as the release of `x` is a tick's write of it. -/
theorem queuer_call (hc : (machine p).Conforms (protocol p) s) {t u : Nat} {k : Task} {φ : Phase} {op : Op}
    {f : Ans op → CallTree Op Ans Result} {r : Ans op} (running : s.threads t = some ⟨k, φ, .ask op f⟩)
    (h : queuer x ⟨t, k, op, r⟩ = some u) :
    u = t ∧ k = .processDue ∧ ∃ d d' ids, φ = .tick (.snap d ids) ∧ d.status = .pending ∧ d.id = x ∧
      d'.id = x ∧ d'.status = .queued ∧ op = .remote (.update d') ∧ Phase.next φ op r = .tick (.requeued d' ids) := by
  unfold queuer at h
  split at h
  · rename_i t' d' a heq
    split at h
    · rename_i hx
      obtain ⟨rfl, rfl, rfl, hr⟩ := Event.mk.inj heq
      have hr : r = .ok a := eq_of_heq hr
      subst hr
      cases h
      have hm : May p .processDue φ (.remote (.update d')) := hc.may running
      cases φ with
      | tick φ =>
        obtain ⟨d, now, ids, rfl, hst, hd'⟩ := hm
        have hid : d'.id = d.id := by rw [hd']
        exact ⟨rfl, rfl, d, d', ids, rfl, hst, hid.symm.trans hx, hx, by rw [hd'], rfl, rfl⟩
      | _ => exact hm.elim
    · cases h
  · cases h

/-- A call that counts as the `Enqueue` of `x` has put it in the outbox. -/
theorem enqueuer_call (hc : (machine p).Conforms (protocol p) s) {t u : Nat} {c : Choice} {k : Task} {φ : Phase} {op : Op}
    {f : Ans op → CallTree Op Ans Result} {r : Ans op} {w : World} (running : s.threads t = some ⟨k, φ, .ask op f⟩)
    (answered : answer p op c s.state = some (r, w)) (h : enqueuer x ⟨t, k, op, r⟩ = some u) :
    u = t ∧ Carrier x s t ∧ w.db.listed x ∧ queuer x ⟨t, k, op, r⟩ = none := by
  unfold enqueuer at h
  split at h
  · rename_i t' id subject payload headers a heq
    split at h
    · rename_i hx
      obtain ⟨rfl, rfl, rfl, hr⟩ := Event.mk.inj heq
      have hr : r = .ok a := eq_of_heq hr
      subst hr
      cases h
      obtain ⟨-, d, ids, rfl, rfl, -⟩ := enqueue_tick (hc.may running)
      refine ⟨rfl, ⟨_, d, ids, _, running, hx⟩, ?_, rfl⟩
      obtain ⟨-, hexec⟩ := answered_ok (answer_cases (p := p) answered)
      simp only [exec] at hexec
      cases hins : s.state.db.enqueue s.state.clock d.id subject payload headers with
      | error e =>
        rw [hins] at hexec
        cases congrArg Prod.fst hexec
      | ok t' =>
        rw [hins] at hexec
        have hw : w.db = t' := (congrArg (fun q => q.2.db) hexec).symm
        rw [hw, (Tables.enqueue_ok hins).2]
        exact Tables.listed_insertOutbox.mpr (.inr hx)
    · cases h
  · cases h

/-- Where a carrier comes from: it was one, or it has just written `x`. -/
theorem carrier_origin (hc : (machine p).Conforms (protocol p) s) (hs : (machine p).Step s l s') {t : Nat}
    (h : Carrier x s' t) : Carrier x s t ∧ (∀ c, l ≠ .call t c) ∨
      ∃ c k φ op f r, l = .call t c ∧ s.threads t = some ⟨k, φ, .ask op f⟩ ∧ s'.hist = ⟨t, k, op, r⟩ :: s.hist ∧
        queuer x ⟨t, k, op, r⟩ = some t := by
  obtain ⟨k, d, ids, prog, hth, hx⟩ := h
  rcases tick_origin hc hs hth with ⟨before, other⟩ | hstart | ⟨c, ψ, op, f, r, rfl, running, answered, hmoves⟩
  · exact .inl ⟨⟨k, d, ids, prog, before, hx⟩, other⟩
  · cases hstart
  · obtain ⟨r', hans, -, hhist⟩ := hs.called running
    obtain rfl : r' = r := congrArg Prod.fst (Option.some.inj (hans.symm.trans answered))
    refine .inr ⟨c, _, _, op, f, r', rfl, running, hhist, ?_⟩
    cases hmoves with
    | wrote ids pending queued => exact if_pos hx

/-- Without failing calls, a carrier that makes its call enqueues `x`. -/
theorem carrier_enqueues (hc : (machine p).Conforms (protocol p) s) (hf : FaultFree s l) {t : Nat} {c : Choice} {k : Task}
    {φ : Phase} {op : Op} {f : Ans op → CallTree Op Ans Result} {r : Ans op} {w : World} (hl : l = .call t c)
    (running : s.threads t = some ⟨k, φ, .ask op f⟩) (answered : answer p op c s.state = some (r, w))
    (h : Carrier x s t) (hrel : s.state.db.released x) : enqueuer x ⟨t, k, op, r⟩ = some t := by
  obtain ⟨k', d, ids, prog, hth, hx⟩ := h
  have hans := answer_cases (p := p) answered
  have hk : k' = .processDue := tick_task hc hth rfl
  have hsame := Option.some.inj (running.symm.trans hth)
  cases hsame
  subst hk
  have hm : TickMay p (.requeued d ids) op := hc.may running
  obtain rfl := enqueue_of_requeued hm r
  rw [← hx] at hrel
  obtain ⟨w', hexec, -⟩ := exec_enqueue (p := p) hrel (notificationSubject p.streamPrefix d.channel d.priority)
    (idBody d.id) (notificationHeaders d)
  have hok : r = .ok () := by
    have hran := answered_ran hans (hf.2 t c hl)
    exact (congrArg Prod.fst hran).symm.trans (congrArg Prod.fst hexec)
  subst hok
  exact if_pos hx

/-- A tick that stands as one has seen what is still so. -/
theorem pending_of_snap (h : Dispensed p x s) {t : Nat} {k : Task} {d : Delivery} {ids : List String}
    {prog : CallTree Op Ans Result} (hth : s.threads t = some ⟨k, .tick (.snap d ids), prog⟩) (hx : d.id = x)
    (hst : d.status = .pending) : s.state.db.row x = some (.pending, d.retryCount) := by
  have hseen := h.seen t
  have hstance : threadStance x (s.threads t) = .ticker d.retryCount := by
    rw [hth]
    exact if_pos ⟨hx, hst⟩
  rw [hstance] at hseen
  exact hseen

theorem not_released_of_pending {t : Tables} {n : Nat} (h : t.row x = some (.pending, n)) : ¬ t.released x := by
  intro hrel
  obtain ⟨st, m, hrow, hne⟩ := hrel
  rw [h] at hrow
  cases hrow
  exact hne rfl

theorem unenqueued_of_unqueued (h : Dispensed p x s) (hq : s.hist.filterMap (queuer x) = []) :
    s.hist.filterMap (enqueuer x) = [] := by
  rcases h.once with ⟨-, he⟩ | ⟨t, ht, -⟩
  · exact he
  · rw [hq] at ht
    cases ht

/-- What a step is to the release of `x`: a tick's write of it, its `Enqueue`, or nothing. -/
inductive Released (p : Params) (x : String) (s : System) (l : Act) (s' : System) : Prop where
  | wrote {t : Nat} {c : Choice} (label : l = .call t c) (before : s.hist.filterMap (queuer x) = [])
      (queued : s'.hist.filterMap (queuer x) = [t]) (enqueued : s'.hist.filterMap (enqueuer x) = [])
      (carrier : Carrier x s' t) (released : s'.state.db.released x)
  | enqueued {t : Nat} {c : Choice} (label : l = .call t c) (before : Carrier x s t)
      (queued : s'.hist.filterMap (queuer x) = [t]) (enqueued : s'.hist.filterMap (enqueuer x) = [t])
      (listed : s'.state.db.listed x)
  | same (queued : s'.hist.filterMap (queuer x) = s.hist.filterMap (queuer x))
      (enqueued : s'.hist.filterMap (enqueuer x) = s.hist.filterMap (enqueuer x))
      (other : ∀ t c k φ op f r, l = .call t c → s.threads t = some ⟨k, φ, .ask op f⟩ →
        answer p op c s.state = some (r, s'.state) →
          queuer x ⟨t, k, op, r⟩ = none ∧ enqueuer x ⟨t, k, op, r⟩ = none)

theorem released_cases (h : Dispensed p x s) (hf : FaultFree s l) (hs : (machine p).Step s l s') :
    Released p x s l s' := by
  have hc := h.sane.conforms
  rcases hs.heard with hhist | ⟨t, c, k, φ, op, f, r, rfl, running, answered, hthreads, hhist⟩
  · refine .same (by rw [hhist]) (by rw [hhist]) ?_
    intro t c k φ op f r hl running _
    subst hl
    obtain ⟨r', -, -, hcalled⟩ := hs.called running
    rw [hcalled] at hhist
    exact absurd hhist (List.cons_ne_self _ _)
  · have hans := answer_cases (p := p) answered
    cases hq : queuer x ⟨t, k, op, r⟩ with
    | some u =>
      obtain ⟨rfl, rfl, d, d', ids, rfl, hst, hx, hx', hst', rfl, hnext⟩ := queuer_call hc running hq
      have hpend := pending_of_snap h running hx hst
      have hnone := h.early (not_released_of_pending hpend)
      refine .wrote (t := u) rfl hnone ?_ ?_ ⟨.processDue, d', ids, f r, ?_, hx'⟩ ?_
      · rw [hhist, List.filterMap_cons_some hq, hnone]
      · rw [hhist, List.filterMap_cons_none rfl]
        exact unenqueued_of_unqueued h hnone
      · rw [hthreads, Function.update_self]
        exact congrArg (fun φ => some (⟨.processDue, φ, f r⟩ : Thread Op Ans Task Result Phase)) hnext
      · refine released_of_update hans (fun e he => ?_) hx' (by rw [hpend]; exact nofun) (by rw [hst']; exact nofun)
        have hran := answered_ran hans (hf.2 _ _ rfl)
        rw [he] at hran
        cases congrArg Prod.fst hran
    | none =>
      cases he : enqueuer x ⟨t, k, op, r⟩ with
      | some u =>
        obtain ⟨rfl, hcar, hlist, -⟩ := enqueuer_call hc running answered he
        obtain ⟨hQ, hE⟩ := h.held _ hcar
        refine .enqueued rfl hcar ?_ ?_ hlist
        · rw [hhist, List.filterMap_cons_none hq, hQ]
        · rw [hhist, List.filterMap_cons_some he, hE]
      | none =>
        refine .same (by rw [hhist, List.filterMap_cons_none hq]) (by rw [hhist, List.filterMap_cons_none he]) ?_
        intro t' c' k' φ' op' f' r' hl running' answered'
        cases hl
        have hsame := Option.some.inj (running.symm.trans running')
        cases hsame
        have hr := congrArg Prod.fst (Option.some.inj (answered.symm.trans answered'))
        subst hr
        exact ⟨hq, he⟩

theorem held_step (h : Dispensed p x s) (hf : FaultFree s l) (hs : (machine p).Step s l s') {t : Nat}
    (hcar : Carrier x s' t) :
    s'.hist.filterMap (queuer x) = [t] ∧ s'.hist.filterMap (enqueuer x) = [] := by
  have hc := h.sane.conforms
  rcases carrier_origin hc hs hcar with ⟨hbefore, other⟩ | ⟨c, k, φ, op, f, r, rfl, running, hhist, hq⟩
  · obtain ⟨hQ, hE⟩ := h.held t hbefore
    cases released_cases h hf hs with
    | wrote label before queued enqueued carrier released =>
      rw [hQ] at before
      cases before
    | enqueued label before queued enqueued listed =>
      -- two carriers would both have written `x`
      have hQ' := (h.held _ before).1
      rw [hQ] at hQ'
      cases hQ'
      exact absurd label (other _)
    | same queued enqueued hother => exact ⟨queued.trans hQ, enqueued.trans hE⟩
  · obtain ⟨r', answered, -, hhist'⟩ := hs.called running
    obtain rfl : r = r' := by
      rw [hhist] at hhist'
      cases hhist'
      rfl
    obtain ⟨-, -, d, d', ids, rfl, -⟩ := queuer_call hc running hq
    cases released_cases h hf hs with
    | wrote label before queued enqueued carrier released =>
      cases label
      exact ⟨queued, enqueued⟩
    | enqueued label before queued enqueued listed =>
      cases label
      obtain ⟨k', d', ids', prog, hth, -⟩ := before
      cases running.symm.trans hth
    | same queued enqueued hother =>
      rw [(hother _ _ _ _ _ _ _ rfl running answered).1] at hq
      cases hq

theorem once_step (h : Dispensed p x s) (hf : FaultFree s l) (hs : (machine p).Step s l s') :
    s'.hist.filterMap (queuer x) = [] ∧ s'.hist.filterMap (enqueuer x) = [] ∨
      ∃ t, s'.hist.filterMap (queuer x) = [t] ∧
        (s'.hist.filterMap (enqueuer x) = [t] ∧ s'.state.db.listed x ∨
          s'.hist.filterMap (enqueuer x) = [] ∧ Carrier x s' t) := by
  have hc := h.sane.conforms
  cases released_cases h hf hs with
  | @wrote t c label before queued enqueued carrier released => exact .inr ⟨t, queued, .inr ⟨enqueued, carrier⟩⟩
  | @enqueued t c label before queued enqueued listed => exact .inr ⟨t, queued, .inl ⟨enqueued, listed⟩⟩
  | same queued enqueued hother =>
    rw [queued, enqueued]
    rcases h.once with hnone | ⟨t, hQ, ⟨hE, hlist⟩ | ⟨hE, hcar⟩⟩
    · exact .inl hnone
    · exact .inr ⟨t, hQ, .inl ⟨hE, listed_step h.sane hs hlist⟩⟩
    · refine .inr ⟨t, hQ, .inr ⟨hE, ?_⟩⟩
      have hrel : s.state.db.released x := by
        by_contra hno
        rw [h.early hno] at hQ
        cases hQ
      obtain ⟨k, d, ids, prog, hth, hx⟩ := id hcar
      refine ⟨k, d, ids, prog, hs.kept hth (fun c hl => ?_) (hf.1 t), hx⟩
      -- its call would be the `Enqueue`
      rcases hs.heard with hhist | ⟨t', c', k', φ, op, f, r, hl', running, answered, -, -⟩
      · subst hl
        obtain ⟨op, f, rfl⟩ : ∃ op f, prog = .ask op f := by
          cases hs with
          | call running answered =>
            have hsame := Option.some.inj (running.symm.trans hth)
            cases hsame
            exact ⟨_, _, rfl⟩
        obtain ⟨r, -, -, hcalled⟩ := hs.called hth
        rw [hcalled] at hhist
        exact absurd hhist (List.cons_ne_self _ _)
      · have hsame : t' = t := by
          cases hl'.symm.trans hl
          rfl
        subst hsame
        have henq := carrier_enqueues hc hf hl' running answered hcar hrel
        rw [(hother _ _ _ _ _ _ _ hl' running answered).2] at henq
        cases henq

theorem early_step (h : Dispensed p x s) (hf : FaultFree s l) (hs : (machine p).Step s l s')
    (hno : ¬ s'.state.db.released x) : s'.hist.filterMap (queuer x) = [] := by
  have hbefore : ¬ s.state.db.released x := fun hrel => hno (released_step h.sane.conforms hrel hs)
  cases released_cases h hf hs with
  | wrote label before queued enqueued carrier released => exact absurd released hno
  | enqueued label before queued enqueued listed =>
    have hQ := (h.held _ before).1
    rw [h.early hbefore] at hQ
    cases hQ
  | same queued enqueued hother => exact queued.trans (h.early hbefore)

/-- A delivery that is stored and not released is pending. -/
theorem pending_of_not_released {t : Tables} (h : t.row x ≠ none) (hno : ¬ t.released x) :
    ∃ n, t.row x = some (.pending, n) := by
  obtain ⟨⟨st, n⟩, hrow⟩ := Option.ne_none_iff_exists'.mp h
  by_cases hst : st = .pending
  · subst hst
    exact ⟨n, hrow⟩
  · exact absurd ⟨st, n, hrow, hst⟩ hno

theorem late_step (h : Dispensed p x s) (hf : FaultFree s l) (hs : (machine p).Step s l s')
    (hsch : s'.state.db.isScheduled x) (hrel : s'.state.db.released x) : s'.hist.filterMap (queuer x) ≠ [] := by
  have hc := h.sane.conforms
  cases released_cases h hf hs with
  | wrote label before queued enqueued carrier released =>
    rw [queued]
    exact nofun
  | enqueued label before queued enqueued listed =>
    rw [queued]
    exact nofun
  | same queued enqueued hother =>
    rw [queued]
    by_cases hsch₀ : s.state.db.isScheduled x
    · by_cases hrel₀ : s.state.db.released x
      · exact h.late hsch₀ hrel₀
      · -- only a tick's write releases a pending delivery
        exfalso
        have hstored : s.state.db.row x ≠ none := by
          obtain ⟨r, hr, hx⟩ := hsch₀
          have howner := h.sane.linked.scheduled r hr
          rw [hx] at howner
          exact mt Tables.row_eq_none.mp howner
        obtain ⟨n, hrow⟩ := pending_of_not_released hstored hrel₀
        obtain ⟨t, deed, L, a, hview, hturn, hbehind⟩ := view_step x hc hs
        have hL : (System.view x s').shared = L := by rw [hview, Board.turn_shared]
        rcases queue_of_pending hturn (h.seen t) hrow with hrow' | rfl
        · rw [← hL] at hrow'
          exact not_released_of_pending (show s'.state.db.row x = _ from hrow') hrel
        · rcases hbehind with (hdeed | ⟨hdeed, -⟩) | ⟨c, k, φ, op, f, hl, running, d, heff, rfl, rfl, hx⟩
          · cases hdeed
          · cases hdeed
          · subst hl
            obtain ⟨r, answered, -, -⟩ := hs.called running
            have hran := answered_ran (answer_cases (p := p) answered) (hf.2 t c rfl)
            obtain rfl : Except.ok () = r := congrArg Prod.fst hran
            have hnone := (hother _ _ _ _ _ _ _ rfl running answered).1
            rw [show queuer x ⟨t, .processDue, .remote (.update d), .ok ()⟩ = some t from if_pos hx] at hnone
            cases hnone
    · obtain ⟨n, hrow⟩ := pending_of_scheduled h.sane hs hsch₀ hsch
      exact absurd hrel (not_released_of_pending hrow)

theorem dispensed_step (h : Dispensed p x s) (hf : FaultFree s l) (hok : ¬ SecondLook x s l)
    (hs : (machine p).Step s l s') : Dispensed p x s' where
  sane := sane_step h.sane hs
  seen := earlySeen_apart h.sane.conforms h.one h.seen hs
  one := one_ticker_step h hok hs
  held _ := held_step h hf hs
  once := once_step h hf hs
  early := early_step h hf hs
  late := late_step h hf hs

theorem init_dispensed (p : Params) (x : String) : Dispensed p x (System.init p) where
  sane := init_sane p
  seen _ := trivial
  one _ _ _ h := by cases h.1
  held t h := by
    obtain ⟨k, d, ids, prog, hth, -⟩ := h
    cases hth
  once := .inl ⟨rfl, rfl⟩
  early _ := rfl
  late h := by
    obtain ⟨r, hr, -⟩ := h
    cases hr

theorem writesPending_of_dispensed (h : Dispensed p x s) : WritesPending x s l := by
  intro t c k φ op f hl hth hk d hop hx
  subst hk hop
  have hm : May p .processDue φ (.remote (.update d)) := h.sane.conforms.may hth
  cases φ with
  | tick φ =>
    obtain ⟨d₀, now, ids, rfl, hst, hd⟩ := hm
    have hid : d.id = d₀.id := by rw [hd]
    exact ⟨_, pending_of_snap h hth (hid.symm.trans hx) hst⟩
  | _ => exact hm.elim

/-- Without failing calls or crashes, and as long as no tick reads `x` pending behind the back of another one, every
    tick that writes `x` finds it pending, and once `x` is released one tick has written it and no other has
    enqueued it. -/
theorem schedulers_release_once (p : Params) (x : String) (ls : List Act)
    (hok : (machine p).Along (fun s l _ => FaultFree s l ∧ ¬ SecondLook x s l) (System.init p) ls) :
    (machine p).Along (fun s l _ => WritesPending x s l) (System.init p) ls ∧
      ∀ s, (machine p).run (System.init p) ls = some s →
        (s.hist.filterMap (queuer x) = [] ∧ s.hist.filterMap (enqueuer x) = [] ∨
          ∃ t, s.hist.filterMap (queuer x) = [t] ∧
            (s.hist.filterMap (enqueuer x) = [t] ∧ s.state.db.listed x ∨
              s.hist.filterMap (enqueuer x) = [] ∧ Carrier x s t)) ∧
          (s.state.db.isScheduled x → s.state.db.released x → s.hist.filterMap (queuer x) ≠ []) := by
  refine ⟨?_, fun s hrun => ?_⟩
  · refine Machine.along_of_invariant (fun s l s' h hs hb => ?_) ls (System.init p) (init_dispensed p x) hok
    exact ⟨writesPending_of_dispensed h, dispensed_step h hb.1 hb.2 hs⟩
  · have hr := Machine.reach_of_run ls .refl hok hrun
    have h : Dispensed p x s := hr.invariant (init_dispensed p x) fun _ _ _ h hb hs => dispensed_step h hb.1 hb.2 hs
    exact ⟨h.once, h.late⟩

end

/-- Two ticks take turns: the second one reads the delivery when the first has written it. -/
def tickedInTurn : List Act :=
  ingestCalls 0 "d1" laterRequest ++ [.move (.clock 9), .start 1 .processDue, .start 2 .processDue] ++
    runs 1 2 ++ runs 2 2 ++ runs 1 2 ++ runs 2 1 ++ runs 1 3

/-- Both ticks read the delivery pending, one releases it, and it is sent. -/
def tickedAtOnce : List Act :=
  ingestCalls 0 "d1" laterRequest ++ [.move (.clock 9), .start 1 .processDue, .start 2 .processDue] ++
    runs 1 3 ++ runs 2 3 ++ runs 1 4 ++ succeedCalls 3 "d1" "a1"

/-- No thread of `ts` is a tick that is to write `x` when another thread's call is answered. -/
def aloneLook (ts : List Nat) (x : String) (s : System) : Act → Bool
  | .call t _ => ts.all fun u => u = t || match s.threads u with
    | some ⟨_, .tick (.snap d _), _⟩ => ¬ (d.id = x ∧ d.status = .pending)
    | _ => true
  | _ => true

theorem not_secondLook_of_aloneLook {ts : List Nat} {x : String} {s : System} {l : Act} (h : aloneLook ts x s l = true)
    (hts : ∀ t th, s.threads t = some th → t ∈ ts) : ¬ SecondLook x s l := by
  intro hlook
  obtain ⟨t, u, c, φ, f, k, d, ids, prog, rfl, -, -, hne, hu, hx, hst⟩ := hlook
  have hu' := List.all_eq_true.mp h u (hts u _ hu)
  rw [hu] at hu'
  simp [hne, hx, hst] at hu'

theorem schedulers_release_once_sample :
    (machine {}).Along (fun s l _ => WritesPending "d1" s l) (System.init {}) tickedInTurn ∧
      ((machine {}).run (System.init {}) tickedInTurn).map (fun s =>
        (s.state.db.row "d1", s.hist.filterMap (queuer "d1"), s.hist.filterMap (enqueuer "d1"),
          s.state.db.outbox.map (·.deliveryId))) = some (some (.queued, 0), [1], [1], ["d1"]) := by
  have halone := Machine.along_of_check tickedInTurn
    (show (machine {}).check (aloneLook [0, 1, 2] "d1") (System.init {}) tickedInTurn = true by decide +kernel)
  have hts := Machine.along_confined (M := machine {}) (s := System.init {}) [0, 1, 2] tickedInTurn
    (fun _ _ => rfl) (by decide)
  have hok : (machine {}).Along (fun s l _ => FaultFree s l ∧ ¬ SecondLook "d1" s l) (System.init {}) tickedInTurn :=
    Machine.Along.and tickedInTurn (along_faultFree (by decide)) (Machine.Along.mono
      (fun s l s' h => not_secondLook_of_aloneLook h.1 h.2) tickedInTurn (Machine.Along.and tickedInTurn halone hts))
  exact ⟨(schedulers_release_once {} "d1" tickedInTurn hok).1, by decide +kernel⟩

/-- A delivery that has been sent is written back to queued, and enqueued again. -/
theorem sent_delivery_requeued :
    (machine {}).Along (fun s l _ => FaultFree s l) (System.init {}) (tickedAtOnce ++ runs 2 2) ∧
      ((machine {}).run (System.init {}) tickedAtOnce).map (fun s => s.state.db.row "d1") =
        some (some (.succeeded, 0)) ∧
      ((machine {}).run (System.init {}) (tickedAtOnce ++ runs 2 2)).map (fun s =>
        (s.state.db.row "d1", s.hist.filterMap (queuer "d1"), s.hist.filterMap (enqueuer "d1"),
          s.state.db.outbox.map (·.deliveryId))) = some (some (.queued, 0), [2, 1], [2, 1], ["d1", "d1"]) := by
  refine ⟨along_faultFree (by decide), by decide +kernel, by decide +kernel⟩

end GoCourier
