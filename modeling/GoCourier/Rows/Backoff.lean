import GoCourier.Ledger.SoleOwner
import GoCourier.Rows.Later

/- The time between two attempts. A failed attempt leaves the delivery retrying and
   returns an error, and the broker may hand its message out again at once; the delay
   that is computed is logged and used for nothing else. Nothing but the moment at
   which a dispatch takes the retrying delivery decides how far apart the sends are:
   where that is late enough every later send is. -/
namespace GoCourier

open Interleave

/-- How long an attempt that leaves `n` retries counted asks the next one to wait. -/
def backoff (p : Params) (n : Nat) : Duration := min (p.retryBase * 2 ^ (n - 1)) p.retryMax

/-- A dispatch takes `x` before its last failure is that long ago. -/
def Hurried (p : Params) (x : String) (s : System) (l : Act) : Prop :=
  ∃ t c k φ d f r, l = .call t c ∧ c.Effective ∧
    s.threads t = some ⟨k, φ, .ask (.remote (.updateIfStatus d .retrying)) f⟩ ∧ d.id = x ∧
    s.state.db.deliveries x = some r ∧ r.status = .retrying ∧ s.state.clock < r.updatedAt + backoff p r.retryCount

/-- One scheduler, one replay at a time, a clock that is not set back, and nobody in a hurry. -/
structure Patient (p : Params) (x : String) (s : System) (l : Act) : Prop where
  scheduler : OneScheduler s l
  replay : OneReplay s l
  clock : ClockForward s l
  patient : ¬ Hurried p x s l

/-- `x` is still waiting for its retry after `until_`, or that time has come. -/
def Cooled (p : Params) (x : String) (until_ : Time) (s : System) : Prop :=
  (∃ r, s.state.db.deliveries x = some r ∧ r.status = .retrying ∧ r.updatedAt + backoff p r.retryCount = until_) ∨
    until_ ≤ s.state.clock

section
variable {p : Params} {s s' s'' : System} {l : Act} {t : Nat} {c : Choice} {x : String}

/-- A dispatch that settles `x` owns it. -/
theorem owns_of_settles {t : Nat} {k : Task} {φ : WorkerPhase} {d : Delivery} {prog : CallTree Op Ans Result}
    (hth : s.threads t = some ⟨k, .worker φ, prog⟩) (h : Settles p φ d) (hx : d.id = x) : Owns x s t := by
  have hset := settling_of_settles h hx
  unfold Owns
  rw [hth]
  exact owning_of_settling hset

/-- While `x` is retrying nobody writes it but a dispatch that takes it. -/
theorem not_updated_retrying (h : Sole p x s) {r : DeliveryRow} (hr : s.state.db.deliveries x = some r)
    (hst : r.status = .retrying) {t : Nat} {k : Task} {φ : Phase} {d : Delivery}
    {f : Ans (.remote (.update d)) → CallTree Op Ans Result}
    (hth : s.threads t = some ⟨k, φ, .ask (.remote (.update d)) f⟩) (hx : d.id = x) : False := by
  have hrow := Tables.row_stored hr
  rw [hst] at hrow
  have hfresh := h.fresh t
  rw [hth] at hfresh
  cases update_may (h.conforms.may hth) with
  | settle settles =>
    obtain ⟨n, hproc⟩ := owned_row (h.held.each t) (owns_of_settles hth settles hx)
    rw [show (System.view x s).shared.row = s.state.db.row x from rfl, hrow] at hproc
    cases hproc
  | @replay d₀ d now dead queued =>
    subst queued
    rw [show threadStance x (some ⟨k, .replay (.snap d₀), .ask _ f⟩) = .replayer from if_pos ⟨hx, dead⟩] at hfresh
    obtain ⟨st, n, hrow', hdead⟩ := hfresh
    rw [show (ledger x s.state s.hist).row = s.state.db.row x from rfl, hrow] at hrow'
    cases hrow'
    rcases hdead with hdead | hdead <;> cases hdead
  | @tick d₀ d now ids pending queued =>
    subst queued
    rw [show threadStance x (some ⟨k, .tick (.snap d₀ ids), .ask _ f⟩) = .ticker d₀.retryCount from
      if_pos ⟨hx, pending⟩] at hfresh
    have hrow' : s.state.db.row x = some (.pending, d₀.retryCount) := hfresh
    rw [hrow] at hrow'
    cases hrow'

/-- A failed attempt's write leaves the delivery waiting. -/
theorem cooled_of_failure (h : Sole p x s) (hs : (machine p).Step s (.call t c) s') {k : Task} {φ : Phase} {d : Delivery}
    {f : Ans (.remote (.update d)) → CallTree Op Ans Result}
    (hth : s.threads t = some ⟨k, φ, .ask (.remote (.update d)) f⟩) (hc : c.Effective) (hx : d.id = x)
    (hst : d.status = .retrying) : Cooled p x (d.updatedAt + backoff p d.retryCount) s' := by
  have hrow : ∃ r, s.state.db.deliveries d.id = some r := by
    cases update_may (h.conforms.may hth) with
    | settle settles =>
      obtain ⟨n, hproc⟩ := owned_row (h.held.each t) (owns_of_settles hth settles hx)
      obtain ⟨r, hr, -⟩ := Option.map_eq_some_iff.mp (show s.state.db.row x = some (.processing, n) from hproc)
      exact ⟨r, hx ▸ hr⟩
    | replay dead queued =>
      rw [queued] at hst
      cases hst
    | tick pending queued =>
      rw [queued] at hst
      cases hst
  obtain ⟨r, hr⟩ := hrow
  refine .inl ⟨r.set d, ?_, hst, rfl⟩
  rw [updated_called hs hth hc, ← hx, deliveries_update_self, hr]
  rfl

theorem cooled_step {until_ : Time} (h : Sole p x s) (hok : Patient p x s l) (hs : (machine p).Step s l s')
    (hcool : Cooled p x until_ s) : Cooled p x until_ s' := by
  have hclock := clock_step hok.clock hs
  rcases hcool with ⟨r, hr, hst, huntil⟩ | hle
  · obtain ⟨r', hr', -⟩ := stored_step h.conforms hs hr
    cases wrote_step hs hr' with
    | kept before =>
      obtain rfl := Option.some.inj (before.symm.trans hr)
      exact .inl ⟨r', hr', hst, huntil⟩
    | updated label effective running about before after => exact (not_updated_retrying h hr hst running about).elim
    | @claimed t c k φ d st r₀ f label effective running about before expected after =>
      obtain rfl := Option.some.inj (before.symm.trans hr)
      have hst' : st = .retrying := expected.symm.trans hst
      subst hst'
      right
      have hdue : ¬ s.state.clock < r₀.updatedAt + backoff p r₀.retryCount := fun hlt =>
        hok.patient ⟨t, c, k, φ, d, f, r₀, label, effective, running, about, hr, hst, hlt⟩
      rw [← huntil]
      exact le_trans (not_lt.mp hdue) hclock
    | created label effective running about new after =>
      rw [new] at hr
      cases hr
  · exact .inr (le_trans hle hclock)

/-- The `Send` of a delivery that is waiting for its retry is not due. -/
theorem cooled_of_send {until_ : Time} (h : Sole p x s) (hcool : Cooled p x until_ s) {k : Task} {φ : Phase} {d : Delivery}
    {f : Ans (.send d) → CallTree Op Ans Result} (hth : s.threads t = some ⟨k, φ, .ask (.send d) f⟩) (hx : d.id = x) :
    until_ ≤ s.state.clock := by
  rcases hcool with ⟨r, hr, hst, -⟩ | hle
  · have hm : May p k φ (.send d) := h.conforms.may hth
    cases φ with
    | worker φ =>
      obtain ⟨rfl, -⟩ := worker_may hm
      have howned := h.held.each t
      rw [show (System.view x s).places t = threadStance x (s.threads t) from rfl, hth,
        show threadStance x (some ⟨k, .worker (.owned d), .ask (.send d) f⟩) = .owner d.retryCount from if_pos hx] at howned
      have hrow : s.state.db.row x = some (.processing, d.retryCount) := howned.1
      rw [Tables.row_stored hr, hst] at hrow
      cases hrow
    | _ => cases k <;> exact hm.elim
  · exact hle

/-- In every run in which no dispatch takes the retrying delivery before its time: from a write that
    leaves it retrying, every `Send` of it comes when the backoff of that write has passed. -/
theorem backoff_honoured (p : Params) (x : String) (s s' s'' : System) (t : Nat) (c : Choice) (k : Task) (φ : Phase)
    (d : Delivery) (f : Ans (.remote (.update d)) → CallTree Op Ans Result)
    (hr : (machine p).Reach (Patient p x) (System.init p) s)
    (hth : s.threads t = some ⟨k, φ, .ask (.remote (.update d)) f⟩) (hc : c.Effective) (hx : d.id = x)
    (hst : d.status = .retrying) (hs : (machine p).step s (.call t c) = some s')
    (hr' : (machine p).Reach (Patient p x) s' s'') :
    ∀ u k' φ' d' f', s''.threads u = some ⟨k', φ', .ask (.send d') f'⟩ → d'.id = x →
      d.updatedAt + backoff p d.retryCount ≤ s''.state.clock := by
  have hsole : Sole p x s := reach_sole (init_sole p x) (hr.mono fun _ _ hok => ⟨hok.scheduler, hok.replay⟩)
  have hstep := (machine p).step_iff.mp hs
  have hsole' : Sole p x s' :=
    sole_step hsole ⟨fun _ _ hl => (by cases hl), fun _ _ _ hl => (by cases hl)⟩ hstep
  have h : Sole p x s'' ∧ Cooled p x (d.updatedAt + backoff p d.retryCount) s'' :=
    hr'.invariant (I := fun s => Sole p x s ∧ Cooled p x (d.updatedAt + backoff p d.retryCount) s)
      ⟨hsole', cooled_of_failure hsole hstep hth hc hx hst⟩ fun _ _ _ h hok hs =>
        ⟨sole_step h.1 ⟨hok.scheduler, hok.replay⟩ hs, cooled_step h.1 hok hs h.2⟩
  intro u k' φ' d' f' hu hx'
  exact cooled_of_send h.1 h.2 hu hx'

end

/-- Consumer 0 has the message of a new delivery, its attempt has failed, and the row is to be written. -/
def firstFailure : List Act :=
  ingestCalls 0 "d1" ++ publishCalls 1 ++ .start 2 (.handle 0 0 0 (sampleMessage "d1")) ::
    attemptCalls 2 "a1" (.error errTransient) ++ runs 2 2

/-- The rest of that handler, up to its Nak. -/
def nakked : List Act := runs 2 2 ++ [.call 2 (.rand 0), .call 2 .run]

/-- The message is handed out again, up to the `Send`. -/
def redelivered : List Act :=
  .start 3 (.handle 0 0 0 (sampleMessage "d1")) :: runs 3 4 ++ [.call 3 (.uuid "a2")]

/-- The delivery the thread's next call writes. -/
def writesNext : Option (Thread Op Ans Task Result Phase) → Option Delivery
  | some ⟨_, _, .ask (.remote (.update d)) _⟩ => some d
  | _ => none

theorem writesNext_some {th : Option (Thread Op Ans Task Result Phase)} {d : Delivery} (h : writesNext th = some d) :
    ∃ k φ f, th = some ⟨k, φ, .ask (.remote (.update d)) f⟩ := by
  unfold writesNext at h
  split at h
  · cases h
    exact ⟨_, _, _, rfl⟩
  · cases h

/-- `Patient`, at fixed inputs. -/
def patientCheck (p : Params) (s : System) (l : Act) : Bool :=
  l.startsNone && forwardCheck s l && match l with
    | .call t _ => match s.threads t with
      | some ⟨_, _, .ask (.remote (.updateIfStatus d .retrying)) _⟩ =>
        (s.state.db.deliveries d.id).all fun r => r.updatedAt + backoff p r.retryCount ≤ s.state.clock
      | _ => true
    | _ => true

theorem patient_of_check {p : Params} {x : String} {s : System} {l : Act} (h : patientCheck p s l = true) :
    Patient p x s l := by
  unfold patientCheck at h
  rw [Bool.and_eq_true, Bool.and_eq_true] at h
  obtain ⟨⟨hnone, hforward⟩, hdue⟩ := h
  refine ⟨oneScheduler_of_startsNone hnone, oneReplay_of_startsNone hnone, clockForward_of_check hforward, ?_⟩
  intro hhurry
  obtain ⟨t, c, k, φ, d, f, r, hl, -, hth, hx, hr, -, hlt⟩ := hhurry
  subst hl
  rw [← hx] at hr
  simp only [hth, hr, Option.all_some, decide_eq_true_eq] at hdue
  exact not_lt.mpr hdue hlt

/-- Where the broker hands the message out a second later, the second `Send` has waited. -/
theorem backoff_honoured_sample :
    ∃ s s' s'' d, (machine {}).run (System.init {}) firstFailure = some s ∧ writesNext (s.threads 2) = some d ∧
      d.status = .retrying ∧ (machine {}).step s (.call 2 .run) = some s' ∧
      (machine {}).run s' (nakked ++ .move (.clock 1000000000) :: redelivered) = some s'' ∧
      sendsNext "d1" (s''.threads 3) = true ∧ d.updatedAt + backoff {} d.retryCount ≤ s''.state.clock := by
  have hrun : ((machine {}).run (System.init {}) firstFailure).map (fun s =>
      ((writesNext (s.threads 2)).map (fun d => (d.id, d.status)),
        ((machine {}).step s (.call 2 .run)).map (fun s' =>
          ((machine {}).check (patientCheck {}) s' (nakked ++ .move (.clock 1000000000) :: redelivered),
            ((machine {}).run s' (nakked ++ .move (.clock 1000000000) :: redelivered)).map (fun s'' =>
              sendsNext "d1" (s''.threads 3)))))) =
      some (some ("d1", .retrying), some (true, some true)) := by
    decide +kernel
  obtain ⟨s, hs, hparts⟩ := Option.map_eq_some_iff.mp hrun
  rw [Prod.mk.injEq] at hparts
  obtain ⟨d, hd, hcols⟩ := Option.map_eq_some_iff.mp hparts.1
  obtain ⟨s', hs', hrest⟩ := Option.map_eq_some_iff.mp hparts.2
  rw [Prod.mk.injEq] at hcols hrest
  obtain ⟨s'', hs'', hsend⟩ := Option.map_eq_some_iff.mp hrest.2
  obtain ⟨k, φ, f, hth⟩ := writesNext_some hd
  obtain ⟨k', φ', d', f', hu, hx'⟩ := sendsNext_true hsend
  have hfirst := Machine.along_of_check firstFailure
    (show (machine {}).check (patientCheck {}) (System.init {}) firstFailure = true by decide +kernel)
  have hrest := Machine.along_of_check _ hrest.1
  have hr : (machine {}).Reach (Patient {} "d1") (System.init {}) s :=
    Machine.reach_of_run _ .refl (Machine.Along.mono (fun _ _ _ => patient_of_check) _ hfirst) hs
  have hr' : (machine {}).Reach (Patient {} "d1") s' s'' :=
    Machine.reach_of_run _ .refl (Machine.Along.mono (fun _ _ _ => patient_of_check) _ hrest) hs''
  exact ⟨s, s', s'', d, hs, hd, hcols.2, hs', hs'', hsend,
    backoff_honoured {} "d1" s s' s'' 2 .run k φ d f hr hth trivial hcols.1 hcols.2 hs' hr' 3 k' φ' d' f' hu hx'⟩

/-- The Nak'd message is handed out at once: the second `Send` comes at the time of the first failure,
    a second before the backoff has passed. -/
theorem redelivered_at_once :
    ∃ s s' s'' d, (machine {}).run (System.init {}) firstFailure = some s ∧ writesNext (s.threads 2) = some d ∧
      d.id = "d1" ∧ d.status = .retrying ∧ (machine {}).step s (.call 2 .run) = some s' ∧
      (machine {}).run s' (nakked ++ redelivered) = some s'' ∧ sendsNext "d1" (s''.threads 3) = true ∧
      s''.state.clock + 1000000000 = d.updatedAt + backoff {} d.retryCount := by
  have hrun : ((machine {}).run (System.init {}) firstFailure).map (fun s =>
      ((writesNext (s.threads 2)).map (fun d => (d.id, d.status, d.updatedAt + backoff {} d.retryCount)),
        ((machine {}).step s (.call 2 .run)).map (fun s' =>
          ((machine {}).run s' (nakked ++ redelivered)).map (fun s'' =>
            (sendsNext "d1" (s''.threads 3), s''.state.clock))))) =
      some (some ("d1", .retrying, 1000000000), some (some (true, 0))) := by
    decide +kernel
  obtain ⟨s, hs, hparts⟩ := Option.map_eq_some_iff.mp hrun
  rw [Prod.mk.injEq] at hparts
  obtain ⟨d, hd, hcols⟩ := Option.map_eq_some_iff.mp hparts.1
  obtain ⟨s', hs', hrest⟩ := Option.map_eq_some_iff.mp hparts.2
  obtain ⟨s'', hs'', hsend⟩ := Option.map_eq_some_iff.mp hrest
  simp only [Prod.mk.injEq] at hcols hsend
  refine ⟨s, s', s'', d, hs, hd, hcols.1, hcols.2.1, hs', hs'', hsend.1, ?_⟩
  rw [hcols.2.2, hsend.2]
  rfl

end GoCourier
