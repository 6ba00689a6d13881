import GoCourier.Handover.Carried

/- Whether a delivery can be lost between the tables, the broker and the workers when
   nothing fails. Without a limit on hand-outs it cannot: in every state reached its work
   is somewhere. With a limit it can be stranded, although `MaxDeliver` is no less than
   `MaxAttempts`: a copy handed out while another worker has the delivery is refused and
   nakked, which the broker counts and the row does not. -/
namespace GoCourier

open Interleave

/-- A message of `x` has a copy that is not acked. -/
def Unacked (p : Params) (x : String) (s : System) : Prop :=
  ∃ i c m, s.state.stream[i]? = some m ∧ m.deliveryId = .ok x ∧ c < p.consumers ∧ (s.state.copies (i, c)).acked = false

/-- A handler of a message of `x` has taken `x` and has not returned, and its copy is not acked. -/
def AtWork (p : Params) (x : String) (s : System) : Prop :=
  ∃ t proc i c m φ prog, s.threads t = some ⟨.handle proc i c m, φ, prog⟩ ∧ (φ.stance x).Owning ∧
    (⟨.handle proc i c m, φ, prog⟩ : Thread Op Ans Task Result Phase).Live ∧ s.state.stream[i]? = some m ∧
    m.deliveryId = .ok x ∧ c < p.consumers ∧ (s.state.copies (i, c)).acked = false

/-- The broker has given up on `x`: each copy of each of its messages is acked or has used up its hand-outs. -/
def GivenUp (p : Params) (x : String) (s : System) : Prop :=
  ∀ i c m, s.state.stream[i]? = some m → m.deliveryId = .ok x → c < p.consumers →
    (s.state.copies (i, c)).acked = true ∨ ¬ (s.state.copies (i, c)).HasMore p

/-- A status that some service writes. -/
def Status.Written : Status → Prop
  | .failed | .cancelled | .rejected => False
  | _ => True

section
variable {p : Params} {s s' : System} {l : Act} {x : String} {st : Status} {n : Nat}

theorem status_step (hc : (machine p).Conforms (protocol p) s) (hs : (machine p).Step s l s')
    (h : ∀ x r, s.state.db.deliveries x = some r → r.status.Written) {r' : DeliveryRow}
    (hr' : s'.state.db.deliveries x = some r') : r'.status.Written := by
  cases wrote_step hs hr' with
  | kept before => exact h x r' before
  | @updated t c k φ d r f label effective running about before after =>
    rw [after]
    show d.status.Written
    have hm : May p k φ (.remote (.update d)) := hc.may running
    cases update_may hm with
    | settle settles =>
      cases settles with
      | noProvider absent moved => rw [moved.status]; trivial
      | gaveUp out moved => rw [moved.status]; trivial
      | retry more moved => rw [moved.status]; trivial
      | success moved => rw [moved.status]; trivial
    | replay dead queued => rw [queued]; trivial
    | tick pending queued => rw [queued]; trivial
  | @claimed t c k φ d st r f label effective running about before expected after =>
    have hm : May p k φ (.remote (.updateIfStatus d st)) := hc.may running
    obtain ⟨d₀, now, -, -, -, taken⟩ := claim_may hm
    rw [after]
    show d.status.Written
    rw [taken]
    trivial
  | @created t c k φ d exp subject payload headers schedule f label effective running about new after =>
    have hm : May p k φ (.remote (.ingestTransactional d exp subject payload headers schedule)) := hc.may running
    obtain ⟨req, -, -, makes, -, -⟩ := stores_minted hm
    rw [after]
    show d.status.Written
    rw [makes.status]
    split <;> trivial

theorem reach_written {ok : System → Act → Prop} (hr : (machine p).Reach ok (System.init p) s) :
    ∀ x r, s.state.db.deliveries x = some r → r.status.Written := by
  induction hr with
  | refl =>
    intro x r h
    cases h
  | step hreach hok hstep ih =>
    have hc := Machine.reach_conforms (init_conforms p) hreach
    intro x r h
    exact status_step hc ((machine p).step_iff.mp hstep) ih h

/-! Without a limit. -/

/-- Who has `x` processing is a handler at work. -/
theorem Handed.atWork (h : Handed p x s) (hrow : s.state.db.row x = some (.processing, n)) : AtWork p x s := by
  have hc := h.keeping.mailed.holding.conforms
  obtain ⟨t, ht⟩ := h.uncut.attended.owner n hrow
  have ht : (threadStance x (s.threads t)).Owning := ht
  cases hth : s.threads t with
  | none =>
    rw [hth] at ht
    cases ht
  | some th =>
    rw [hth] at ht
    obtain ⟨k, φ, prog⟩ := th
    have hown : (φ.stance x).Owning := ht
    -- only a dispatch owns, and each dispatch here is a handler's
    obtain ⟨ψ, rfl, habout⟩ := about_of_owning hown
    obtain ⟨proc, i, c, m, rfl, hi, hlt⟩ := h.keeping.mailed.holding.handlers t k ψ prog hth
    have hlive := hc.live hth fun r => not_finished_of_owning hown r
    have hid : m.deliveryId = .ok x := habout _ (worker_about hc hth)
    have hholder : Holder s t i c := by
      refine ⟨proc, m, ψ, prog, hth, fun hψ => ?_⟩
      subst hψ
      cases hown
    exact ⟨t, proc, i, c, m, _, prog, hth, hown, hlive, hi, hid, hlt, (h.keeping.mailed.holding.held t i c hholder).1⟩

/-- A copy that keeps `x` going is not acked. -/
theorem Keeper.unacked (h : Holding p s) (hk : Keeper p x st s) : Unacked p x s := by
  obtain ⟨i, c, m, hi, hx, hlt, hk⟩ := hk
  refine ⟨i, c, m, hi, hx, hlt, ?_⟩
  rcases hk with hdue | ⟨t, proc, φ, prog, hth, hkeeps⟩
  · exact hdue.1
  · have hholder : Holder s t i c := by
      refine ⟨proc, m, φ, prog, hth, fun hφ => ?_⟩
      rw [hφ] at hkeeps
      exact hkeeps
    exact (h.held t i c hholder).1

/-- The outbox row of a delivery of which no message is sent is still to be published. -/
theorem Mailed.waiting_of_unsent (h : Mailed p s) (hsent : ¬ Sent x s) (hlist : s.state.db.listed x) :
    s.state.db.waiting x := by
  obtain ⟨r, hr, hx⟩ := hlist
  refine ⟨r, hr, hx, ?_⟩
  cases hst : r.status with
  | pending => rfl
  | published =>
    have hacc := h.published.rows r hr hst
    rw [hx] at hacc
    exact absurd (h.sent_of_accepted hacc) hsent

theorem not_takesShort_of_unlimited (hmax : p.maxDeliver ≤ 0) : ¬ TakesShort p x s l := by
  intro hshort
  cases hshort with
  | mk running about row short => exact short (.inl hmax)

/-- Where nothing fails and copies are handed out without limit, no delivery is lost: a pending one has its
    scheduled row; a queued or retrying one has an outbox row to be published, an unacked copy of a message, a tick
    about to enqueue it or a replay about to publish it; a processing one is in the hands of a handler. -/
theorem no_delivery_lost (p : Params) (s : System) (x : String) (hmax : p.maxDeliver ≤ 0)
    (hr : (machine p).Reach Reliable (System.init p) s) :
    (∀ n, s.state.db.row x = some (.pending, n) → s.state.db.due x) ∧
      (∀ st n, s.state.db.row x = some (st, n) → st = .queued ∨ st = .retrying →
        s.state.db.waiting x ∨ Unacked p x s ∨ Carrying x s ∨ Requeuing x s) ∧
      ∀ n, s.state.db.row x = some (.processing, n) → AtWork p x s := by
  have h : Handed p x s :=
    reach_handed (hr.mono fun s l hok => ⟨hok, not_takesShort_of_unlimited hmax⟩)
  refine ⟨fun n hrow => ?_, fun st n hrow hst => ?_, fun n hrow => h.atWork hrow⟩
  · exact ((h.keeping.mailed.scheduling x).pending n hrow).1
  · cases h.carried st n hrow hst with
    | requeuing replay => exact .inr (.inr (.inr replay))
    | kept keeper => exact .inr (.inl (keeper.unacked h.keeping.mailed.holding))
    | unsent fresh work =>
      rcases work with hlist | hcarry
      · exact .inl (h.keeping.mailed.waiting_of_unsent fresh hlist)
      · exact .inr (.inr (.inl hcarry))

/-! With one. -/

/-- Nothing keeps `x` going that the broker has given up on and no handler is at. -/
theorem Keeper.not_givenUp (h : Holding p s) (hk : Keeper p x st s) (hquiet : ¬ InFlight x s) : ¬ GivenUp p x s := by
  intro hup
  obtain ⟨i, c, m, hi, hx, hlt, hk⟩ := hk
  rcases hk with hdue | ⟨t, proc, φ, prog, hth, hkeeps⟩
  · rcases hup i c m hi hx hlt with hacked | hspent
    · rw [hdue.1] at hacked
      cases hacked
    · exact hspent hdue.2.2
  · -- a handler that has not answered for its copy has calls to make
    have hlive := h.conforms.live hth fun r hend => by
      cases r with
      | response r => exact hend.elim
      | unit r =>
        have hend : φ = .closed := hend
        rw [hend] at hkeeps
        exact hkeeps
    exact hquiet ⟨t, _, hth, hlive, .inr ⟨proc, i, c, m, rfl, hx⟩⟩

/-- Where every handler that takes `x` does so with a copy that affords the retries, whatever becomes of other
    deliveries, `x` is not stranded: once the broker has given up on it, it is succeeded or dead-lettered. -/
theorem given_up_settled (p : Params) (s : System) (x : String)
    (hr : (machine p).Reach (fun s l => Reliable s l ∧ ¬ TakesShort p x s l) (System.init p) s) (hsent : Sent x s)
    (hup : GivenUp p x s) (hquiet : ¬ InFlight x s) (hreplay : ¬ Requeuing x s) :
    ∃ n, s.state.db.row x = some (.succeeded, n) ∨ s.state.db.row x = some (.dlq, n) := by
  have h : Handed p x s := reach_handed hr
  obtain ⟨st, n, hrow, hpending⟩ := h.keeping.mailed.released x hsent
  obtain ⟨r, hstored, hparts⟩ := Option.map_eq_some_iff.mp hrow
  have hst : r.status = st := congrArg Prod.fst hparts
  have hw := reach_written hr x r hstored
  rw [hst] at hw
  -- a delivery still to be dispatched would be carried by something that is excluded here
  have hnot : ¬ st.Takeable := by
    intro htake
    cases h.carried st n hrow htake with
    | requeuing replay => exact hreplay replay
    | kept keeper => exact keeper.not_givenUp h.keeping.mailed.holding hquiet hup
    | unsent fresh work => exact fresh hsent
  refine ⟨n, ?_⟩
  cases st with
  | pending => exact absurd rfl hpending
  | queued => exact absurd (.inl rfl) hnot
  | retrying => exact absurd (.inr rfl) hnot
  | processing =>
    obtain ⟨t, proc, i, c, m, φ, prog, hth, -, hlive, -, hx, -⟩ := h.atWork hrow
    exact absurd ⟨t, _, hth, hlive, .inr ⟨proc, i, c, m, rfl, hx⟩⟩ hquiet
  | succeeded => exact .inl hrow
  | dlq => exact .inr hrow
  | _ => exact hw.elim

end

/-! At fixed inputs. -/

def Act.reliable : Act → Bool
  | .start _ (.dispatch _ _) => false
  | .move (.ackWait _ _) => false
  | l => l.smooth && l.startsNone

theorem reliable_of_check {s : System} {l : Act} (h : l.reliable = true) : Reliable s l := by
  have hrest : l.smooth = true ∧ l.startsNone = true := by
    cases l with
    | start t k => cases k <;> first | exact absurd h Bool.false_ne_true | exact Bool.and_eq_true_iff.mp h
    | move m => cases m <;> first | exact absurd h Bool.false_ne_true | exact Bool.and_eq_true_iff.mp h
    | _ => exact Bool.and_eq_true_iff.mp h
  refine ⟨faultFree_of_smooth hrest.1, oneScheduler_of_startsNone hrest.2, fun i c hl => ?_, fun t proc id hl => ?_⟩
  · subst hl
    cases h
  · subst hl
    cases h

/-- No handler takes `x` short, at fixed inputs. -/
def shortCheck (p : Params) (x : String) (s : System) : Act → Bool
  | .call t _ => match s.threads t with
    | some ⟨.handle _ i c _, _, .ask (.remote (.updateIfStatus d _)) _⟩ =>
      decide (d.id ≠ x ∨ p.maxAttempts - (d.retryCount + 1) ≤ p.maxDeliver - (s.state.copies (i, c)).delivered)
    | _ => true
  | _ => true

theorem not_takesShort_of_check {p : Params} {x : String} {s : System} {l : Act} (h : shortCheck p x s l = true) :
    ¬ TakesShort p x s l := by
  intro hshort
  cases hshort with
  | mk running about row short =>
    simp only [shortCheck, running, decide_eq_true_eq] at h
    exact short (.inr (h.resolve_left (not_not_intro about)))

theorem reach_of_checks {p : Params} {x : String} {ls : List Act} {s : System} (hreliable : ls.all Act.reliable = true)
    (hshort : (machine p).check (shortCheck p x) (System.init p) ls = true)
    (hrun : (machine p).run (System.init p) ls = some s) :
    (machine p).Reach (fun s l => Reliable s l ∧ ¬ TakesShort p x s l) (System.init p) s := by
  have hr : (machine p).Along (fun s l _ => Reliable s l) (System.init p) ls :=
    Machine.along_of_forall ls _ fun l hl _ _ => reliable_of_check (List.all_eq_true.mp hreliable l hl)
  have hs : (machine p).Along (fun s l _ => ¬ TakesShort p x s l) (System.init p) ls :=
    Machine.Along.mono (fun _ _ _ => not_takesShort_of_check) ls (Machine.along_of_check ls hshort)
  exact Machine.reach_of_run ls .refl (Machine.Along.and ls hr hs) hrun

/-- Thread `t` is handed consumer `c`'s copy of the message of `d1`. -/
def handed (t c : Nat) : Act := .start t (.handle c 0 c (sampleMessage "d1"))

/-- A handler that has taken the delivery, from there on: its attempt `att` fails, and it naks. -/
def failedCalls (t : Nat) (att : String) : List Act :=
  [.call t .run, .call t (.uuid att), .call t (.verdict (.error errTransient))] ++ runs t 5 ++
    [.call t (.rand 0), .call t .run]

/-- Consumer 0 fails once. -/
def failedOnce : List Act := ingestCalls 0 "d1" ++ publishCalls 1 ++ handed 2 0 :: runs 2 3 ++ failedCalls 2 "a1"

/-- It is handed the copy again, and the provider accepts. -/
def failedThenAccepted : List Act :=
  failedOnce ++ handed 3 0 :: attemptCalls 3 "a2" (.ok {}) ++ runs 3 6

/-- Two consumers: while one has the delivery the other is handed its copy twice, and then the other way round. -/
def crossed : List Act :=
  ingestCalls 0 "d1" ++ publishCalls 1 ++ handed 2 0 :: runs 2 3 ++
    handed 3 1 :: runs 3 3 ++ handed 4 1 :: runs 4 3 ++ failedCalls 2 "a1" ++
    handed 5 1 :: runs 5 3 ++ handed 6 0 :: runs 6 3 ++ handed 7 0 :: runs 7 3 ++ failedCalls 5 "a2"

/-- A replay that has requeued its delivery has its message to publish. -/
theorem not_requeuing_of_rest {p : Params} {s : System} {x : String} (hc : (machine p).Conforms (protocol p) s)
    (hrest : ∀ t th, s.threads t = some th → ¬ th.Live) : ¬ Requeuing x s := by
  intro hreplay
  obtain ⟨t, k, d, prog, hth, -⟩ := hreplay
  obtain ⟨id, hk⟩ := replay_task hc hth rfl
  have hk : k = .replay id := hk
  subst hk
  refine hrest t _ hth (hc.live hth fun r hend => ?_)
  cases r with
  | response r => exact hend.elim
  | unit r =>
    cases r with
    | ok u =>
      obtain ⟨d', hd'⟩ := hend
      cases hd'
    | error e =>
      rcases hend with hfail | ⟨d', hd', -⟩
      · cases hfail
      · cases hd'

/-- The one message of a stream with each of its copies done with. -/
theorem givenUp_of_one {p : Params} {s : System} {m : Message} (hstream : s.state.stream = [m])
    (hcopies : ∀ c < p.consumers, (s.state.copies (0, c)).acked = true ∨ ¬ (s.state.copies (0, c)).HasMore p) (x : String) :
    GivenUp p x s := by
  intro i c m' hi _ hlt
  rw [hstream] at hi
  obtain ⟨hlen, -⟩ := List.getElem?_eq_some_iff.mp hi
  have hzero : i = 0 := Nat.lt_one_iff.mp hlen
  subst hzero
  exact hcopies c hlt

theorem no_delivery_lost_sample :
    ∃ s, (machine { maxDeliver := 0 }).run (System.init { maxDeliver := 0 }) failedOnce = some s ∧
      s.state.db.row "d1" = some (.retrying, 1) ∧
      (s.state.db.waiting "d1" ∨ Unacked { maxDeliver := 0 } "d1" s ∨ Carrying "d1" s ∨ Requeuing "d1" s) := by
  have hrun : ((machine { maxDeliver := 0 }).run (System.init { maxDeliver := 0 }) failedOnce).map
      (·.state.db.row "d1") = some (some (.retrying, 1)) := by
    decide +kernel
  obtain ⟨s, hs, hrow⟩ := Option.map_eq_some_iff.mp hrun
  have hreliable : failedOnce.all Act.reliable = true := by decide
  have hr : (machine { maxDeliver := 0 }).Reach Reliable (System.init { maxDeliver := 0 }) s := by
    refine Machine.reach_of_run failedOnce .refl (Machine.along_of_forall failedOnce _ fun l hl _ _ => ?_) hs
    exact reliable_of_check (List.all_eq_true.mp hreliable l hl)
  exact ⟨s, hs, hrow, (no_delivery_lost { maxDeliver := 0 } s "d1" le_rfl hr).2.1 _ _ hrow (.inr rfl)⟩

theorem given_up_settled_sample :
    ∃ s n, (machine { concurrency := 1 }).run (System.init { concurrency := 1 }) failedThenAccepted = some s ∧
      (s.state.db.row "d1" = some (.succeeded, n) ∨ s.state.db.row "d1" = some (.dlq, n)) := by
  have hrun : ((machine { concurrency := 1 }).run (System.init { concurrency := 1 }) failedThenAccepted).map (fun s =>
      (s.state.stream, s.state.copies (0, 0),
        (Machine.started failedThenAccepted).all fun t => Machine.atRest (s.threads t))) =
        some ([sampleMessage "d1"], { delivered := 2, acked := true, busy := false }, true) := by
    decide +kernel
  obtain ⟨s, hs, hparts⟩ := Option.map_eq_some_iff.mp hrun
  simp only [Prod.mk.injEq] at hparts
  obtain ⟨hstream, hcopy, hidle⟩ := hparts
  have hr := reach_of_checks (x := "d1") (by decide) (by decide +kernel) hs
  have hrest : ∀ t th, s.threads t = some th → ¬ th.Live := fun t th => Machine.rest_of_run hs (fun _ => rfl) hidle
  have hsent : Sent "d1" s := ⟨_, by rw [hstream]; exact List.mem_singleton.mpr rfl, by decide⟩
  have hup : GivenUp { concurrency := 1 } "d1" s := by
    refine givenUp_of_one hstream (fun c hc => ?_) "d1"
    have hzero : c = 0 := Nat.lt_one_iff.mp hc
    rw [hzero, hcopy]
    exact .inl rfl
  have hquiet : ¬ InFlight "d1" s := by
    intro hflight
    obtain ⟨t, th, hth, hlive, -⟩ := hflight
    exact hrest t th hth hlive
  have hreplay := not_requeuing_of_rest (x := "d1") (Machine.reach_conforms (init_conforms _) hr) hrest
  obtain ⟨n, hrow⟩ := given_up_settled { concurrency := 1 } s "d1" hr hsent hup hquiet hreplay
  exact ⟨s, n, hs, hrow⟩

/-- Three attempts, three hand-outs of each copy, two workers. -/
def twoWorkers : Params := { maxAttempts := 3, maxDeliver := 3, concurrency := 2 }

/-- Nothing has failed but two attempts, nothing is running, both copies have used up their hand-outs, and the
    delivery waits for its third attempt. -/
theorem crossed_strands :
    1 ≤ twoWorkers.maxAttempts ∧ twoWorkers.maxAttempts ≤ twoWorkers.maxDeliver ∧
      ∃ s, (machine twoWorkers).Reach Reliable (System.init twoWorkers) s ∧ Sent "d1" s ∧ GivenUp twoWorkers "d1" s ∧
        (∀ t th, s.threads t = some th → ¬ th.Live) ∧ s.state.db.row "d1" = some (.retrying, 2) := by
  refine ⟨by decide, by decide, ?_⟩
  have hrun : ((machine twoWorkers).run (System.init twoWorkers) crossed).map (fun s =>
      (s.state.stream, [s.state.copies (0, 0), s.state.copies (0, 1)], s.state.db.row "d1",
        (Machine.started crossed).all fun t => Machine.atRest (s.threads t))) =
        some ([sampleMessage "d1"], [{ delivered := 3 }, { delivered := 3 }], some (.retrying, 2), true) := by
    decide +kernel
  obtain ⟨s, hs, hparts⟩ := Option.map_eq_some_iff.mp hrun
  simp only [Prod.mk.injEq, List.cons.injEq, and_true] at hparts
  obtain ⟨hstream, ⟨hfirst, hsecond⟩, hrow, hidle⟩ := hparts
  have hreliable : crossed.all Act.reliable = true := by decide
  refine ⟨s, ?_, ?_, ?_, fun t th => Machine.rest_of_run hs (fun _ => rfl) hidle, hrow⟩
  · refine Machine.reach_of_run crossed .refl (Machine.along_of_forall crossed _ fun l hl _ _ => ?_) hs
    exact reliable_of_check (List.all_eq_true.mp hreliable l hl)
  · exact ⟨_, by rw [hstream]; exact List.mem_singleton.mpr rfl, by decide⟩
  · refine givenUp_of_one hstream (fun c hc => ?_) "d1"
    have hspent : ¬ (Copy.mk 3 false false).HasMore twoWorkers := by
      unfold Copy.HasMore twoWorkers
      decide
    have hc : c < 2 := hc
    obtain rfl | rfl : c = 0 ∨ c = 1 := by omega
    · rw [hfirst]
      exact .inr hspent
    · rw [hsecond]
      exact .inr hspent

end GoCourier
