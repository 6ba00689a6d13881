import GoCourier.Handover.Schedule
import GoCourier.System.Runs

/- A scheduler fault. A tick releases a delivery by two statements, `Update` and then
   `Enqueue`, and in between the delivery is neither pending nor in the outbox. A tick
   that ends there leaves it so for good: the next tick reads it queued and passes it
   over. Everywhere else a tick may end without harm. -/
namespace GoCourier

open Interleave

/-- No tick is going on. -/
def BetweenTicks (s : System) : Prop := ∀ t th, s.threads t = some th → th.task = .processDue → ¬ th.Live

/-- Between ticks, `x`, if it was ingested as scheduled, is due or in the outbox. -/
def Survives (x : String) (s : System) : Prop :=
  BetweenTicks s → s.state.db.isScheduled x →
    (∃ n, s.state.db.row x = some (.pending, n)) ∧ s.state.db.due x ∨ s.state.db.listed x

/-- A tick writes `x` and does not come to enqueue it: it crashes in between, or the answer to its
    `Update` is lost, or its `Enqueue` fails. -/
inductive Strands (x : String) (s : System) : Act → Prop where
  | crash {t : Nat} {d : Delivery} {ids : List String} {prog : CallTree Op Ans Result}
      (tick : s.threads t = some ⟨.processDue, .tick (.requeued d ids), prog⟩) (about : d.id = x) : Strands x s (.crash t)
  | enqueue {t : Nat} {d : Delivery} {ids : List String} {prog : CallTree Op Ans Result} {msg : String}
      (tick : s.threads t = some ⟨.processDue, .tick (.requeued d ids), prog⟩) (about : d.id = x) :
      Strands x s (.call t (.fault msg))
  | answer {t : Nat} {d : Delivery} {ids : List String} {prog : CallTree Op Ans Result} {msg : String}
      (tick : s.threads t = some ⟨.processDue, .tick (.snap d ids), prog⟩) (about : d.id = x)
      (pending : d.status = .pending) : Strands x s (.call t (.lost msg))

/-- A tick is between its `Update` of `x` and its `Enqueue`. -/
def Carrying (x : String) (s : System) : Prop :=
  ∃ t d ids prog, s.threads t = some ⟨.processDue, .tick (.requeued d ids), prog⟩ ∧ d.id = x

/-- Where the work of a delivery ingested as scheduled is. -/
def Accounted (x : String) (s : System) : Prop :=
  s.state.db.isScheduled x → (∃ n, s.state.db.row x = some (.pending, n)) ∨ s.state.db.listed x ∨ Carrying x s

section
variable {p : Params} {s s' : System} {l : Act} {x : String}

theorem survives_of_accounted (h : Scheduling p x s) (hk : Accounted x s) : Survives x s := by
  intro hbetween hsch
  rcases hk hsch with ⟨n, hrow⟩ | hlist | ⟨t, d, ids, prog, ht, -⟩
  · exact .inl ⟨⟨n, hrow⟩, (h.pending n hrow).1⟩
  · exact .inr hlist
  · obtain ⟨-, hlive⟩ := live_of_tick h.sane.conforms ht nofun nofun
    exact absurd hlive (hbetween t _ ht rfl)

theorem listed_step (h : Sane p s) (hs : (machine p).Step s l s') (hx : s.state.db.listed x) : s'.state.db.listed x := by
  cases worked_step h.conforms hs with
  | same owner outbox scheduled => rwa [Tables.listed_of_outbox outbox]
  | @ingested req d exp headers schedule makes committed =>
    obtain ⟨r, hr, hrx⟩ := hx
    refine ⟨r, ?_, hrx⟩
    rw [(Tables.ingested_of_ok h.linked committed).outbox]
    exact List.mem_append_left _ hr
  | enqueued label caller stored =>
    rw [stored, Tables.listed_insertOutbox]
    exact .inl hx
  | processed label caller stored =>
    rw [stored]
    exact hx
  | @published u c m ms φ prog label caller phase stored =>
    rw [stored]
    exact (Tables.listed_setOutbox (f := fun r => { r with status := .published }) fun _ => rfl).mpr hx
  | @refused u c m ms msg prog label caller stored =>
    rw [stored]
    exact (Tables.listed_setOutbox
      (f := fun r => { r with attempts := r.attempts + 1, lastError := some msg }) fun _ => rfl).mpr hx

/-- A tick that has written a delivery enqueues it next. -/
theorem enqueue_of_requeued {d : Delivery} {ids : List String} {op : Op} (hm : TickMay p (.requeued d ids) op)
    (r : Ans op) : op = .remote (.enqueue d.id (notificationSubject p.streamPrefix d.channel d.priority) (idBody d.id)
      (notificationHeaders d)) := by
  have hmoves := tick_moves hm r
  generalize TickPhase.next (.requeued d ids) op r = φ at hmoves
  cases hmoves with
  | read todo => cases todo
  | missing todo => cases todo
  | enqueued => rfl
  | unenqueued => rfl

/-- A tick that has read a pending delivery writes it next. -/
theorem update_of_snap {d : Delivery} {ids : List String} {op : Op} (hm : TickMay p (.snap d ids) op) (r : Ans op)
    (hst : d.status = .pending) : ∃ d', op = .remote (.update d') ∧ d'.id = d.id ∧ d'.status = .queued := by
  have hmoves := tick_moves hm r
  generalize TickPhase.next (.snap d ids) op r = φ at hmoves
  have htodo : TickPhase.todo (.snap d ids) = none := if_pos hst
  cases hmoves with
  | read todo =>
    rw [htodo] at todo
    cases todo
  | missing todo =>
    rw [htodo] at todo
    cases todo
  | wrote ids pending queued => exact ⟨_, rfl, by rw [queued], by rw [queued]⟩
  | unwritten ids pending queued => exact ⟨_, rfl, by rw [queued], by rw [queued]⟩

/-- The `Enqueue` of a stored delivery breaks no constraint. -/
theorem exec_enqueue {w : World} {d : Delivery} (hrel : w.db.released d.id) (subject : String) (payload : Body)
    (headers : Headers) : ∃ w', exec p w (.enqueue d.id subject payload headers) = (.ok (), w') ∧ w'.db.listed d.id := by
  obtain ⟨st, n, hrow, -⟩ := hrel
  obtain ⟨r, hr, -⟩ := Option.map_eq_some_iff.mp hrow
  simp only [exec, Tables.enqueue_stored hr, World.store]
  exact ⟨_, rfl, Tables.listed_insertOutbox.mpr (.inr rfl)⟩

/-- Only a tick's write takes a delivery out of pending. -/
theorem queue_of_pending {max : Int} {deed : Deed} {L L' : Ledger} {a a' : Stance} {n : Nat}
    (h : Turn max deed L a L' a') (ha : L.Early a) (hrow : L.row = some (.pending, n)) :
    L'.row = some (.pending, n) ∨ deed = .queue := by
  have hfree : ¬ L.Released := by
    intro hL
    obtain ⟨st, m, hst, hne⟩ := hL
    rw [hrow] at hst
    cases hst
    exact hne rfl
  cases h with
  | create none new =>
    rw [none] at hrow
    cases hrow
  | claim row takeable => exact absurd ⟨_, _, row, takeable_ne_pending takeable⟩ hfree
  | claimCut row takeable => exact absurd ⟨_, _, row, takeable_ne_pending takeable⟩ hfree
  | settle hset => exact absurd (by cases hset <;> exact ha) hfree
  | settleLost hset => exact absurd (by cases hset <;> exact ha) hfree
  | requeue => exact absurd ha hfree
  | requeueLost => exact absurd ha hfree
  | queue m => exact .inr rfl
  | _ => exact .inl hrow

/-- The work of `x` leaves the scheduled table in the hands of a tick. -/
theorem accounted_pending (h : Scheduling p x s) (hok : ¬ Strands x s l) (hs : (machine p).Step s l s') {n : Nat}
    (hrow : s.state.db.row x = some (.pending, n)) :
    (∃ m, s'.state.db.row x = some (.pending, m)) ∨ Carrying x s' := by
  obtain ⟨t, deed, L, a, hview, hturn, hbehind⟩ := view_step x h.sane.conforms hs
  have hL : (System.view x s').shared = L := by rw [hview, Board.turn_shared]
  rcases queue_of_pending hturn (h.seen t) hrow with hsame | rfl
  · rw [← hL] at hsame
    exact .inl ⟨n, hsame⟩
  · obtain (hdeed | ⟨hdeed, -⟩) | ⟨c, k, φ, op, f, rfl, running, d, heff, rfl, rfl, hx⟩ := hbehind
    · cases hdeed
    · cases hdeed
    have hm : May p .processDue φ (.remote (.update d)) := h.sane.conforms.may running
    cases φ with
    | tick φ =>
      obtain ⟨d₀, now, ids, rfl, hst, hd⟩ := hm
      cases c with
      | lost msg => exact absurd (.answer running (by rw [← hx, hd]) hst) hok
      | run =>
        -- the tick learns of its write, and goes on to its `Enqueue`
        cases hs with
        | call running' answered =>
          have hans := answer_cases (p := p) answered
          have hsame := Option.some.inj (running.symm.trans running')
          cases hsame
          cases hans with
          | ran q => exact .inr ⟨t, d, ids, _, Function.update_self .., hx⟩
      | _ => exact heff.elim
    | _ => exact hm.elim

theorem accounted_carrying (h : Scheduling p x s) (hok : ¬ Strands x s l) (hs : (machine p).Step s l s')
    (hk : Carrying x s) : s'.state.db.listed x ∨ Carrying x s' := by
  obtain ⟨t, d, ids, prog, ht, hx⟩ := hk
  have hother : ∀ {w hist u th}, u ≠ t → s' = ⟨w, Function.update s.threads u th, hist⟩ → Carrying x s' := by
    intro w hist u th hu hs'
    refine ⟨t, d, ids, prog, ?_, hx⟩
    rw [hs']
    exact (Function.update_of_ne (Ne.symm hu) ..).trans ht
  cases hs with
  | @start u k w free entered =>
    refine .inr (hother (fun hu => ?_) rfl)
    rw [hu, ht] at free
    cases free
  | @call u c k φ op f r w running answered =>
    by_cases hu : u = t
    · subst hu
      have hans := answer_cases (p := p) answered
      have hsame := Option.some.inj (running.symm.trans ht)
      cases hsame
      have hm : TickMay p (.requeued d ids) op := h.sane.conforms.may ht
      obtain rfl := enqueue_of_requeued hm r
      have hrel := (h.ticks u _ _ _ ht hx).1
      rw [← hx] at hrel
      obtain ⟨w', hexec, hlist⟩ := exec_enqueue (p := p) hrel
        (notificationSubject p.streamPrefix d.channel d.priority) (idBody d.id) (notificationHeaders d)
      have hlisted : (exec p s.state (.enqueue d.id (notificationSubject p.streamPrefix d.channel d.priority)
          (idBody d.id) (notificationHeaders d))).2.db.listed x := by
        rw [hexec, ← hx]
        exact hlist
      cases hans with
      | ran q => exact .inl hlisted
      | fault q msg => exact absurd (.enqueue ht hx) hok
      | lost q msg => exact .inl hlisted
    · exact .inr (hother hu rfl)
  | @crash u k φ op f running =>
    by_cases hu : u = t
    · subst hu
      exact absurd (.crash ht hx) hok
    · exact .inr (hother hu rfl)
  | move moved => exact .inr ⟨t, d, ids, prog, ht, hx⟩

/-- A delivery that becomes scheduled in this step is pending. -/
theorem pending_of_scheduled (h : Sane p s) (hs : (machine p).Step s l s') (hno : ¬ s.state.db.isScheduled x)
    (hsch : s'.state.db.isScheduled x) : ∃ n, s'.state.db.row x = some (.pending, n) := by
  cases worked_step h.conforms hs with
  | same owner outbox scheduled =>
    unfold Tables.isScheduled at hno hsch
    rw [scheduled] at hsch
    exact absurd hsch hno
  | @ingested req d exp headers schedule makes committed =>
    have hin := Tables.ingested_of_ok h.linked committed
    obtain ⟨r, hr, hrx⟩ := hsch
    rw [hin.scheduled] at hr
    rcases List.mem_append.mp hr with hr | hr
    · exact absurd ⟨r, hr, hrx⟩ hno
    · have hx : d.id = x := ((Tables.ingestWork_about ..).1 r hr).symm.trans hrx
      have hschedule : schedule = true := by
        by_contra hne
        rw [Bool.not_eq_true] at hne
        subst hne
        cases hr
      refine ⟨d.retryCount, ?_⟩
      rw [Tables.row_insert hin.deliveries, if_pos hx, makes.status, if_pos hschedule]
  | enqueued label caller stored =>
    rw [stored] at hsch
    exact absurd hsch hno
  | processed label caller stored =>
    rw [stored] at hsch
    exact absurd ((Tables.isScheduled_markProcessed _).mp hsch) hno
  | published label caller phase stored =>
    rw [stored] at hsch
    exact absurd hsch hno
  | refused label caller stored =>
    rw [stored] at hsch
    exact absurd hsch hno

theorem accounted_step (h : Scheduling p x s) (hk : Accounted x s) (hok : ¬ Strands x s l)
    (hs : (machine p).Step s l s') : Accounted x s' := by
  intro hsch
  by_cases hbefore : s.state.db.isScheduled x
  · rcases hk hbefore with ⟨n, hrow⟩ | hlist | hcarry
    · rcases accounted_pending h hok hs hrow with hrow' | hcarry'
      · exact .inl hrow'
      · exact .inr (.inr hcarry')
    · exact .inr (.inl (listed_step h.sane hs hlist))
    · rcases accounted_carrying h hok hs hcarry with hlist' | hcarry'
      · exact .inr (.inl hlist')
      · exact .inr (.inr hcarry')
  · exact .inl (pending_of_scheduled h.sane hs hbefore hsch)

/-! The other direction. -/

theorem not_live_of_failed (hc : (machine p).Conforms (protocol p) s) {t : Nat} {k : Task}
    {prog : CallTree Op Ans Result} (h : s.threads t = some ⟨k, .tick .failed, prog⟩) :
    ¬ (⟨k, .tick .failed, prog⟩ : Thread Op Ans Task Result Phase).Live := by
  intro hlive
  obtain ⟨op, f, hf⟩ := hlive
  have hk : k = .processDue := tick_task hc h rfl
  subst hk
  rw [show prog = .ask op f from hf] at h
  have hm : May p .processDue (.tick .failed) op := hc.may h
  have hm : TickMay p .failed op := hm
  cases op with
  | now => cases hm
  | remote q =>
    cases q with
    | fetchDue before limit => cases hm
    | findByID id =>
      obtain ⟨ids, hids⟩ := hm
      cases hids
    | update d =>
      obtain ⟨d₀, now, ids, hφ, -⟩ := hm
      cases hφ
    | enqueue id subject body headers =>
      obtain ⟨d, ids, hφ, -⟩ := hm
      cases hφ
    | markProcessed id =>
      obtain ⟨d, ids, hφ, -⟩ := hm
      cases hφ
    | append id ev payload =>
      obtain ⟨d, ids, hφ, -⟩ := hm
      cases hφ
    | _ => exact hm.elim
  | _ => exact hm.elim

/-- With one tick at a time, a tick that has just ended leaves none behind. -/
theorem betweenTicks_of_ended (hone : Machine.AtMostOne (· = .processDue) s) {t : Nat}
    {th : Thread Op Ans Task Result Phase} (ht : s.threads t = some th) (hk : th.task = .processDue) (hl : th.Live)
    (hsame : ∀ u, u ≠ t → s'.threads u = s.threads u)
    (hend : ∀ th', s'.threads t = some th' → ¬ th'.Live) : BetweenTicks s' := by
  intro u th' hu hk' hl'
  by_cases hut : u = t
  · subst hut
    exact hend th' hu hl'
  · rw [hsame u hut] at hu
    exact hut (hone u t th' th hu ht hk' hk hl' hl)

theorem betweenTicks_of_failed (h : Scheduling p x s) (h' : Scheduling p x s') {t : Nat}
    {th : Thread Op Ans Task Result Phase} (ht : s.threads t = some th) (hk : th.task = .processDue) (hl : th.Live)
    (hsame : ∀ u, u ≠ t → s'.threads u = s.threads u) {k : Task} {prog : CallTree Op Ans Result}
    (hend : s'.threads t = some ⟨k, .tick .failed, prog⟩) : BetweenTicks s' := by
  refine betweenTicks_of_ended h.one ht hk hl hsame fun th' hth' => ?_
  obtain rfl := Option.some.inj (hend.symm.trans hth')
  exact not_live_of_failed h'.sane.conforms hend

theorem not_survives (hbetween : BetweenTicks s) (hsch : s.state.db.isScheduled x) (hrel : s.state.db.released x)
    (hlist : ¬ s.state.db.listed x) : ¬ Survives x s := by
  intro h
  rcases h hbetween hsch with ⟨⟨n, hrow⟩, -⟩ | hl
  · obtain ⟨st, m, hst, hne⟩ := hrel
    rw [hrow] at hst
    cases hst
    exact hne rfl
  · exact hlist hl

theorem survives_necessary (h : Scheduling p x s) (hok : OneScheduler s l) (hs : (machine p).Step s l s')
    (hsurv : Survives x s') : ¬ Strands x s l := by
  intro hstrand
  have h' := scheduling_step h hok hs
  cases hstrand with
  | @crash t d ids prog tick about =>
    obtain ⟨hrel, hsch, hlist⟩ := h.ticks t _ _ _ tick about
    obtain ⟨-, hlive⟩ := live_of_tick h.sane.conforms tick (fun htodo => by cases htodo) fun hphase => by cases hphase
    cases hs with
    | crash running =>
      have hbetween : BetweenTicks { s with threads := Function.update s.threads t none } := by
        refine betweenTicks_of_ended h.one tick rfl hlive (fun u hu => Function.update_of_ne hu ..) fun th' hth' => ?_
        have hnone : Function.update s.threads t none t = none := Function.update_self ..
        cases hnone.symm.trans hth'
      exact not_survives hbetween hsch hrel hlist hsurv
  | @enqueue t d ids prog msg tick about =>
    obtain ⟨hrel, hsch, hlist⟩ := h.ticks t _ _ _ tick about
    obtain ⟨-, hlive⟩ := live_of_tick h.sane.conforms tick (fun htodo => by cases htodo) fun hphase => by cases hphase
    cases hs with
    | @call _ _ k φ op f r w running answered =>
      have hans := answer_cases (p := p) answered
      have hsame := Option.some.inj (running.symm.trans tick)
      cases hsame
      have hm : TickMay p (.requeued d ids) op := h.sane.conforms.may tick
      obtain rfl := enqueue_of_requeued hm r
      cases hans
      refine not_survives (betweenTicks_of_failed h h' tick rfl hlive (fun u hu => Function.update_of_ne hu ..)
        (Function.update_self ..)) hsch hrel hlist hsurv
  | @answer t d ids prog msg tick about pending =>
    have hpend := h.fresh tick about pending
    obtain ⟨hdue, hlist⟩ := h.pending _ hpend
    have hne : TickPhase.todo (.snap d ids) ≠ some [] := by
      rw [TickPhase.todo, if_pos pending]
      exact fun htodo => by cases htodo
    obtain ⟨-, hlive⟩ := live_of_tick h.sane.conforms tick hne fun hphase => by cases hphase
    have hsch' := isScheduled_step h.sane hs (Tables.isScheduled_of_due hdue)
    cases hs with
    | @call _ _ k φ op f r w running answered =>
      have hans := answer_cases (p := p) answered
      have hsame := Option.some.inj (running.symm.trans tick)
      cases hsame
      have hm : TickMay p (.snap d ids) op := h.sane.conforms.may tick
      obtain ⟨d', rfl, hx, hst⟩ := update_of_snap hm r pending
      rw [about] at hx
      have hlist' : ¬ w.db.listed x := by
        have hout : w.db.outbox = s.state.db.outbox := by
          cases hans
          exact (exec_work p s.state (show ¬ (Op.remote (.update _)).Works from id)).1
        rwa [Tables.listed_of_outbox hout]
      have hrel : w.db.released x := by
        have hrow := (answered_update (x := x) hans).2
        rcases hrow with ⟨-, hrow⟩ | ⟨⟨msg', hmsg⟩, -⟩
        · rw [if_pos hx, hpend] at hrow
          exact ⟨_, _, hrow, by rw [hst]; decide⟩
        · cases hmsg
      cases hans
      exact not_survives (betweenTicks_of_failed h h' tick rfl hlive (fun u hu => Function.update_of_ne hu ..)
        (Function.update_self ..)) hsch' hrel hlist' hsurv

/-- Between ticks every scheduled delivery is due or in the outbox, if and only if no tick ends between its
    write of the delivery and its `Enqueue`. -/
theorem schedule_survives_iff (p : Params) (x : String) (ls : List Act)
    (hone : (machine p).Along (fun s l _ => OneScheduler s l) (System.init p) ls) :
    (machine p).Along (fun _ _ s' => Survives x s') (System.init p) ls ↔
      (machine p).Along (fun s l _ => ¬ Strands x s l) (System.init p) ls := by
  constructor
  · intro hsurv
    refine Machine.along_of_invariant (fun s l s' h hs hb => ?_) ls (System.init p) (init_scheduling p x)
      (Machine.Along.and ls hone hsurv)
    exact ⟨survives_necessary h hb.1 hs hb.2, scheduling_step h hb.1 hs⟩
  · intro hok
    have h0 : Scheduling p x (System.init p) ∧ Accounted x (System.init p) := by
      refine ⟨init_scheduling p x, fun hsch => ?_⟩
      obtain ⟨r, hr, -⟩ := hsch
      cases hr
    refine Machine.along_of_invariant (I := fun s => Scheduling p x s ∧ Accounted x s) (fun s l s' h hs hb => ?_) ls
      (System.init p) h0 (Machine.Along.and ls hone hok)
    have h' := scheduling_step h.1 hb.1 hs
    have hk' := accounted_step h.1 h.2 hb.2 hs
    exact ⟨survives_of_accounted h' hk', h', hk'⟩

end

/-- The delivery comes due and a tick releases it. -/
def releasedOnTime : List Act :=
  ingestCalls 0 "d1" laterRequest ++ [.move (.clock 9), .start 1 .processDue] ++ runs 1 7

/-- A tick crashes after it has written the delivery; the next one passes it over. -/
def crashedTick : List Act :=
  ingestCalls 0 "d1" laterRequest ++ [.move (.clock 9), .start 1 .processDue] ++ runs 1 4 ++
    [.crash 1, .start 2 .processDue] ++ runs 2 3

theorem not_strands_of_smooth {x : String} {s : System} {l : Act} (h : l.smooth = true) : ¬ Strands x s l := by
  intro hs
  cases hs <;> cases h

theorem schedule_survives_sample :
    (machine {}).Along (fun _ _ s' => Survives "d1" s') (System.init {}) releasedOnTime ∧
      ((machine {}).run (System.init {}) releasedOnTime).map (fun s =>
        (s.state.db.row "d1", s.state.db.outbox.map (·.deliveryId), s.state.db.scheduled.map (·.processed))) =
        some (some (.queued, 0), ["d1"], [true]) := by
  have hsmooth : releasedOnTime.all Act.smooth = true := by decide
  refine ⟨(schedule_survives_iff {} "d1" releasedOnTime (oneScheduler_of_check (by decide +kernel))).mpr ?_,
    by decide +kernel⟩
  refine Machine.along_of_forall releasedOnTime (System.init {}) fun l hl s s' => ?_
  exact not_strands_of_smooth (List.all_eq_true.mp hsmooth l hl)

/-- The delivery is neither pending nor in the outbox, and no tick is going on. -/
theorem crashed_tick_strands :
    (machine {}).Along (fun s l _ => OneScheduler s l) (System.init {}) crashedTick ∧
      ∃ s, (machine {}).run (System.init {}) crashedTick = some s ∧ s.state.db.row "d1" = some (.queued, 0) ∧
        ¬ Survives "d1" s := by
  refine ⟨oneScheduler_of_check (by decide +kernel), ?_⟩
  have hrun : ((machine {}).run (System.init {}) crashedTick).map (fun s =>
      (s.state.db.row "d1", s.state.db.scheduled.map (·.deliveryId), s.state.db.outbox.map (·.deliveryId),
        (Machine.started crashedTick).all fun t => Machine.atRest (s.threads t))) =
      some (some (.queued, 0), ["d1"], [], true) := by
    decide +kernel
  obtain ⟨s, hs, hparts⟩ := Option.map_eq_some_iff.mp hrun
  simp only [Prod.mk.injEq] at hparts
  obtain ⟨hrow, hsch, hout, hidle⟩ := hparts
  refine ⟨s, hs, hrow, not_survives ?_ ?_ ⟨_, _, hrow, nofun⟩ ?_⟩
  · intro t th hth _
    exact Machine.rest_of_run hs (fun _ => rfl) hidle hth
  · have hmem : "d1" ∈ s.state.db.scheduled.map (·.deliveryId) := by
      rw [hsch]
      exact List.mem_singleton.mpr rfl
    exact List.mem_map.mp hmem
  · intro hlist
    obtain ⟨r, hr, -⟩ := hlist
    have hmem := List.mem_map_of_mem (f := OutboxRow.deliveryId) hr
    rw [hout] at hmem
    cases hmem

end GoCourier
