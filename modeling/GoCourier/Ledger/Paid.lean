import GoCourier.Lib.Account
import GoCourier.Rows.Writes

/- What a delivery is worth. A row is released when a write makes it takeable: an ingest,
   a retry, a replay, a scheduler tick. Each claim takes one release, and each send, each
   attempt record and each last write of a dispatch takes one claim. So however many
   publishers, schedulers, replays and dispatches race, whatever fails and whoever crashes,
   a delivery is sent no more often than it was released. -/
namespace GoCourier

open Interleave

/-! What the calls of a run come to, as bags of delivery ids. -/

/-- An `UpdateIfStatus` that returned true. -/
def claims : Called → Multiset String
  | ⟨_, _, .remote (.updateIfStatus d _), .ok true⟩ => {d.id}
  | _ => 0

def sent : Called → Multiset String
  | ⟨_, _, .send d, _⟩ => {d.id}
  | _ => 0

def attempted : Called → Multiset String
  | ⟨_, _, .remote (.recordAttempt id _), _⟩ => {id}
  | _ => 0

/-- An `Update` to a status that ends a dispatch. -/
def settled : Called → Multiset String
  | ⟨_, _, .remote (.update d), _⟩ => if d.status = .queued then 0 else {d.id}
  | _ => 0

/-- The deliveries that a call makes takeable if it takes effect. -/
def Op.releases : Op → List String
  | .remote (.update d) => if d.status.Takeable then [d.id] else []
  | .remote (.ingestTransactional d _ _ _ _ _) => if d.status.Takeable then [d.id] else []
  | _ => []

/-- The deliveries that a step makes takeable; it may be that the caller hears of an error. -/
def releases (s : System) : Act → List String
  | .call t c => if c.Effective then (nextOp (s.threads t)).elim [] Op.releases else []
  | _ => []

/-! What a dispatch has claimed and not used. -/

def WorkerPhase.unsent : WorkerPhase → Multiset String
  | .owned d => {d.id}
  | _ => 0

def WorkerPhase.unnoted : WorkerPhase → Multiset String
  | .owned d | .refused d _ false | .accepted d | .settled d false => {d.id}
  | _ => 0

def WorkerPhase.unsettled : WorkerPhase → Multiset String
  | .owned d | .refused d _ _ | .accepted d => {d.id}
  | _ => 0

def Phase.claimed (unused : WorkerPhase → Multiset String) : Phase → Multiset String
  | .worker φ => unused φ
  | _ => 0

/-- A claim pays for one call that `spends`. -/
def claimAccount (spends : Called → Multiset String) (unused : WorkerPhase → Multiset String) :
    Machine.Account Op Ans Task Phase String :=
  ⟨claims, spends, Phase.claimed unused⟩

def sendAccount := claimAccount sent WorkerPhase.unsent
def attemptAccount := claimAccount attempted WorkerPhase.unnoted
def settleAccount := claimAccount settled WorkerPhase.unsettled

section
variable {p : Params} {s s' : System} {l : Act} {t : Nat} {k : Task} {φ ψ : WorkerPhase} {T : String → Prop}
  {C : Nat × Nat → Prop} {op : Op} {r : Ans op} {x : String}

theorem send_pays (h : WorkerMoves p T C φ op r ψ) : sendAccount.Pays (.worker φ) ⟨t, k, op, r⟩ (.worker ψ) := by
  unfold Machine.Account.Pays
  cases h with
  | claimed takeable taken =>
    subst taken
    exact le_refl _
  | settled settles u => cases settles <;> exact Multiset.zero_le _
  | recorded records u => cases records <;> exact Multiset.zero_le _
  | clock | uuid | jitter => exact le_of_eq (add_comm ..)
  | accepted | rejected | admitted => exact le_refl _
  | _ => exact Multiset.zero_le _

theorem attempt_pays (h : WorkerMoves p T C φ op r ψ) :
    attemptAccount.Pays (.worker φ) ⟨t, k, op, r⟩ (.worker ψ) := by
  unfold Machine.Account.Pays
  cases h with
  | claimed takeable taken =>
    subst taken
    exact le_refl _
  | settled settles u =>
    cases settles with
    | noProvider absent moved => exact le_of_eq (congrArg (0 + {·}) moved.id)
    | gaveUp out moved => exact le_refl _
    | retry more moved => exact le_of_eq (congrArg (0 + {·}) moved.id)
    | success moved => exact le_of_eq (congrArg (0 + {·}) moved.id)
  | recorded records u => cases records <;> exact le_refl _
  | unrecorded records u => cases records <;> exact le_refl _
  | clock | uuid | jitter | published | appended => exact le_of_eq (add_comm ..)
  | accepted | rejected | admitted | blocked | failure | success => exact le_refl _
  | _ => exact Multiset.zero_le _

theorem settled_le {d : Delivery} {r : Ans (.remote (.update d))} :
    settled ⟨t, k, .remote (.update d), r⟩ ≤ {d.id} := by
  show (if d.status = .queued then 0 else {d.id} : Multiset String) ≤ {d.id}
  split
  · exact Multiset.zero_le _
  · exact le_refl _

/-- The write that ends a dispatch is of the delivery it has claimed. -/
theorem unsettled_of_settles {d : Delivery} (h : Settles p φ d) : φ.unsettled = {d.id} := by
  cases h with
  | noProvider absent moved => rw [moved.id]; rfl
  | gaveUp out moved => rw [moved.id]; rfl
  | retry more moved => rw [moved.id]; rfl
  | success moved => rw [moved.id]; rfl

theorem settle_pays (h : WorkerMoves p T C φ op r ψ) :
    settleAccount.Pays (.worker φ) ⟨t, k, op, r⟩ (.worker ψ) := by
  cases h with
  | claimed takeable taken =>
    subst taken
    exact le_refl _
  | @settled φ d settles u =>
    have hnone : (φ.settle d).unsettled = 0 := by cases settles <;> rfl
    show settled ⟨t, k, .remote (.update d), .ok u⟩ + (φ.settle d).unsettled ≤ φ.unsettled + 0
    rw [hnone, unsettled_of_settles settles]
    exact add_le_add settled_le (le_refl 0)
  | @unsettled φ d settles e =>
    show settled ⟨t, k, .remote (.update d), .error e⟩ + 0 ≤ φ.unsettled + 0
    rw [unsettled_of_settles settles]
    exact add_le_add settled_le (le_refl 0)
  | recorded records u => cases records <;> exact le_refl _
  | clock | uuid | jitter => exact le_of_eq (add_comm ..)
  | accepted | rejected | admitted | blocked | failure | success => exact le_refl _
  | _ => exact Multiset.zero_le _

/-! The other calls. -/

theorem attempt_may {φ : Phase} {id : String} {a : Attempt} (hm : May p k φ (.remote (.recordAttempt id a))) :
    ∃ ψ, φ = .worker ψ := by
  cases φ with
  | worker ψ => exact ⟨ψ, rfl⟩
  | _ => cases k <;> exact hm.elim

/-- Nobody but a dispatch spends what a claim pays for. -/
theorem spends_outside {φ : Phase} (hm : May p k φ op) (hφ : ∀ ψ, φ ≠ .worker ψ) :
    sent ⟨t, k, op, r⟩ = 0 ∧ attempted ⟨t, k, op, r⟩ = 0 ∧ settled ⟨t, k, op, r⟩ = 0 := by
  cases op with
  | send d =>
    obtain ⟨rfl, -⟩ := send_may hm
    exact absurd rfl (hφ _)
  | remote q =>
    cases q with
    | recordAttempt id a =>
      obtain ⟨ψ, rfl⟩ := attempt_may hm
      exact absurd rfl (hφ ψ)
    | update d =>
      refine ⟨rfl, rfl, ?_⟩
      cases update_may hm with
      | settle settles => exact absurd rfl (hφ _)
      | replay dead queued =>
        subst queued
        rfl
      | tick pending queued =>
        subst queued
        rfl
    | _ => exact ⟨rfl, rfl, rfl⟩
  | _ => exact ⟨rfl, rfl, rfl⟩

theorem pays_nothing {spends : Called → Multiset String} {unused : WorkerPhase → Multiset String} {φ φ' : Phase}
    {e : Called} (he : spends e = 0) (hφ' : φ'.claimed unused = 0) : (claimAccount spends unused).Pays φ e φ' := by
  show spends e + φ'.claimed unused ≤ _
  rw [he, hφ']
  exact Multiset.zero_le _

theorem solvent_step {spends : Called → Multiset String} {unused : WorkerPhase → Multiset String}
    (hworker : ∀ t (k : Task) φ op r ψ, WorkerMoves p k.Target k.Copies φ op r ψ →
      (claimAccount spends unused).Pays (.worker φ) ⟨t, k, op, r⟩ (.worker ψ))
    (hother : ∀ t k (φ : Phase) op r, May p k φ op → (∀ ψ, φ ≠ .worker ψ) → spends ⟨t, k, op, r⟩ = 0)
    (hstart : unused .start = 0) (hc : (machine p).Conforms (protocol p) s)
    (h : (claimAccount spends unused).Solvent s) (hs : (machine p).Step s l s') :
    (claimAccount spends unused).Solvent s' := by
  refine Machine.Account.solvent_step h hs (fun k => ?_) fun t c k φ op f r running _ => ?_
  · cases k <;> first | exact hstart | rfl
  · have hm : May p k φ op := hc.may running
    cases φ with
    | worker φ => exact hworker t k φ op r _ (worker_moves (worker_may hm) r)
    | _ =>
      have hnone := hother t k _ op r hm (by intro ψ hψ; cases hψ)
      exact pays_nothing hnone rfl

/-! Releases. -/

/-- A dispatch can take the delivery. -/
def Tables.Free (t : Tables) (x : String) : Prop := ∃ r, t.deliveries x = some r ∧ r.status.Takeable

/-- The claims so far have taken what was released; a delivery that is free has a release to spare. -/
structure Stocked (p : Params) (s : System) (released : List String) : Prop where
  conforms : (machine p).Conforms (protocol p) s
  taken : (s.hist.map claims).sum ≤ released
  free : ∀ x, s.state.db.Free x → ((s.hist.map claims).sum).count x < released.count x

/-- Only an `UpdateIfStatus` that returned true is a claim. -/
theorem claims_cases (e : Called) : claims e = 0 ∨ ∃ d st, e.op = .remote (.updateIfStatus d st) ∧ claims e = {d.id} ∧
    HEq e.ans (Except.ok true : Except Err Bool) := by
  unfold claims
  split
  · exact .inr ⟨_, _, rfl, rfl, HEq.rfl⟩
  · exact .inl rfl

/-- A claim takes a delivery that is free, and leaves it taken. -/
theorem free_of_claims (hc : (machine p).Conforms (protocol p) s) {c : Choice} {φ : Phase}
    {f : Ans op → CallTree Op Ans Result} (hth : s.threads t = some ⟨k, φ, .ask op f⟩)
    (hans : Answered p s.state op c r s'.state) (hx : claims ⟨t, k, op, r⟩ ≠ 0) :
    ∃ x, claims ⟨t, k, op, r⟩ = {x} ∧ s.state.db.Free x ∧ ¬ s'.state.db.Free x := by
  rcases claims_cases ⟨t, k, op, r⟩ with hnone | ⟨d, st, hop, hclaims, hr⟩
  · exact absurd hnone hx
  · have hop : op = .remote (.updateIfStatus d st) := hop
    subst hop
    obtain rfl := eq_of_heq hr
    obtain ⟨-, hexec⟩ := answered_ok hans
    obtain ⟨d₀, now, -, hst, rfl, hd⟩ := claim_may (hc.may hth)
    have hdb : s'.state.db = (s.state.db.updateIfStatus d d₀.status).2 := (congrArg (·.2.db) hexec).symm
    have htrue : (s.state.db.updateIfStatus d d₀.status).1 = true := Except.ok.inj (congrArg Prod.fst hexec)
    rcases Tables.updateIfStatus_cases s.state.db d d₀.status with ⟨n, hrow, heq⟩ | ⟨-, heq⟩
    · obtain ⟨row, hstored, hcols⟩ := Option.map_eq_some_iff.mp hrow
      refine ⟨d.id, hclaims, ⟨row, hstored, ?_⟩, ?_⟩
      · rw [Prod.mk.injEq] at hcols
        exact hcols.1 ▸ hst
      · rintro ⟨row', hstored', hst'⟩
        rw [hdb, heq, deliveries_update_self, hstored] at hstored'
        obtain rfl := Option.some.inj hstored'
        subst hd
        exact absurd hst' (show ¬ Status.Takeable .processing by decide)
    · rw [heq] at htrue
      cases htrue

/-- A delivery that is free after a step was free before, or the step has released it. -/
theorem free_or_released (hc : (machine p).Conforms (protocol p) s) (hs : (machine p).Step s l s') (h : s'.state.db.Free x) :
    s.state.db.Free x ∨ x ∈ releases s l := by
  obtain ⟨r', hr', hst⟩ := h
  cases wrote_step hs hr' with
  | kept before => exact .inl ⟨r', before, hst⟩
  | @updated t c k φ d r f label effective running about before after =>
    right
    subst label after about
    have htakeable : d.status.Takeable := hst
    simp [releases, effective, running, nextOp, Op.releases, htakeable]
  | @claimed t c k φ d st r f label effective running about before expected after =>
    obtain ⟨d₀, now, rfl, -, -, rfl⟩ := claim_may (hc.may running)
    subst after
    exact absurd hst (show ¬ Status.Takeable .processing by decide)
  | @created t c k φ d exp subject payload headers schedule f label effective running about new after =>
    right
    subst label after about
    have htakeable : d.status.Takeable := hst
    simp [releases, effective, running, nextOp, Op.releases, htakeable]

/-- A step claims nothing, or one delivery that was free and is no longer. -/
theorem claims_step (hc : (machine p).Conforms (protocol p) s) (hs : (machine p).Step s l s') :
    (s'.hist.map claims).sum = (s.hist.map claims).sum ∨
      ∃ x, (s'.hist.map claims).sum = {x} + (s.hist.map claims).sum ∧ s.state.db.Free x ∧ ¬ s'.state.db.Free x := by
  rcases hs.heard with hsame | ⟨t, c, k, φ, op, f, r, -, hth, hans, -, hhist⟩
  · rw [hsame]
    exact .inl rfl
  · rw [hhist, List.map_cons, List.sum_cons]
    by_cases hnone : claims ⟨t, k, op, r⟩ = 0
    · rw [hnone, zero_add]
      exact .inl rfl
    · obtain ⟨x, hx, hbefore, hafter⟩ := free_of_claims hc hth (answer_cases hans) hnone
      rw [hx]
      exact .inr ⟨x, rfl, hbefore, hafter⟩

theorem stocked_step {released : List String} (h : Stocked p s released) (hs : (machine p).Step s l s') :
    Stocked p s' (released ++ releases s l) := by
  have htaken : ∀ x, ((s.hist.map claims).sum).count x ≤ released.count x := by
    intro x
    have hle := Multiset.le_iff_count.mp h.taken x
    rwa [Multiset.coe_count] at hle
  have hfree : ∀ x, s'.state.db.Free x → ((s.hist.map claims).sum).count x < (released ++ releases s l).count x := by
    intro x hx
    rw [List.count_append]
    rcases free_or_released h.conforms hs hx with hbefore | hreleased
    · exact Nat.lt_of_lt_of_le (h.free x hbefore) (Nat.le_add_right ..)
    · exact Nat.add_lt_add_of_le_of_lt (htaken x) (List.count_pos_iff.mpr hreleased)
  refine ⟨Machine.conforms_step h.conforms hs, Multiset.le_iff_count.mpr fun x => ?_, fun x hx => ?_⟩
  · rw [Multiset.coe_count, List.count_append]
    rcases claims_step h.conforms hs with hsame | ⟨y, hgrown, hbefore, -⟩
    · rw [hsame]
      exact Nat.le_trans (htaken x) (Nat.le_add_right ..)
    · -- the claim takes the release that the delivery had to spare
      rw [hgrown, Multiset.count_add, Multiset.count_singleton]
      split
      · rename_i hxy
        have hspare := h.free y hbefore
        rw [hxy]
        omega
      · have hle := htaken x
        omega
  · rcases claims_step h.conforms hs with hsame | ⟨y, hgrown, -, hafter⟩
    · rw [hsame]
      exact hfree x hx
    · have hne : x ≠ y := fun hxy => hafter (hxy ▸ hx)
      rw [hgrown, Multiset.count_add, Multiset.count_singleton, if_neg hne, zero_add]
      exact hfree x hx

theorem init_stocked (p : Params) : Stocked p (System.init p) [] where
  conforms := init_conforms p
  taken := le_refl _
  free := by
    rintro x ⟨r, hr, -⟩
    cases hr

/-- In every run, whatever races, fails and crashes. -/
theorem every_send_paid {ls : List Act} (hrun : (machine p).run (System.init p) ls = some s) :
    (s.hist.map sent).sum ≤ (s.hist.map claims).sum ∧ (s.hist.map attempted).sum ≤ (s.hist.map claims).sum ∧
      (s.hist.map settled).sum ≤ (s.hist.map claims).sum ∧
      (s.hist.map claims).sum ≤ ((machine p).collect releases (System.init p) ls : List String) := by
  have hr := Machine.reach_run hrun
  have hsolvent : ∀ (spends : Called → Multiset String) (unused : WorkerPhase → Multiset String),
      (∀ s s' l, (machine p).Conforms (protocol p) s → (claimAccount spends unused).Solvent s →
        (machine p).Step s l s' → (claimAccount spends unused).Solvent s') →
      (s.hist.map spends).sum ≤ (s.hist.map claims).sum := by
    intro spends unused hstep
    have h : (machine p).Conforms (protocol p) s ∧ (claimAccount spends unused).Solvent s := by
      refine hr.invariant (I := fun s => (machine p).Conforms (protocol p) s ∧ (claimAccount spends unused).Solvent s)
        ⟨init_conforms p, Machine.Account.solvent_init _⟩ ?_
      intro s l s' hI _ hs
      exact ⟨Machine.conforms_step hI.1 hs, hstep s s' l hI.1 hI.2 hs⟩
    exact h.2.spent_le
  refine ⟨?_, ?_, ?_, ?_⟩
  · refine hsolvent sent WorkerPhase.unsent fun s s' l hc h hs => solvent_step ?_ ?_ rfl hc h hs
    · exact fun t k φ op r ψ h => send_pays h
    · exact fun t k φ op r hm hφ => (spends_outside hm hφ).1
  · refine hsolvent attempted WorkerPhase.unnoted fun s s' l hc h hs => solvent_step ?_ ?_ rfl hc h hs
    · exact fun t k φ op r ψ h => attempt_pays h
    · exact fun t k φ op r hm hφ => (spends_outside hm hφ).2.1
  · refine hsolvent settled WorkerPhase.unsettled fun s s' l hc h hs => solvent_step ?_ ?_ rfl hc h hs
    · exact fun t k φ op r ψ h => settle_pays h
    · exact fun t k φ op r hm hφ => (spends_outside hm hφ).2.2
  · have h := Machine.collect_invariant (I := Stocked p) (fun _ _ _ _ h hs _ => stocked_step h hs) ls
      (init_stocked p) (Machine.along_of_forall ls _ fun _ _ _ _ => trivial) hrun
    exact h.taken

end

/-- An ingest, a dispatch that is left for a retry, and one that succeeds. -/
def retriedRun : List Act := ingestCalls 0 "d1" ++ retryCalls 1 "d1" "a1" ++ succeedCalls 2 "d1" "a2"

/-- Two sends for two releases. -/
theorem every_send_paid_sample : ∃ s, (machine {}).run (System.init {}) retriedRun = some s ∧
    (s.hist.map sent).sum = {"d1", "d1"} ∧ (s.hist.map sent).sum ≤ (s.hist.map claims).sum ∧
    (s.hist.map claims).sum ≤ (["d1", "d1"] : Multiset String) := by
  have hrun : ((machine {}).run (System.init {}) retriedRun).map (fun s => (s.hist.map sent).sum) =
      some {"d1", "d1"} := by
    decide +kernel
  have hreleases : (machine {}).collect releases (System.init {}) retriedRun = ["d1", "d1"] := by
    decide +kernel
  obtain ⟨s, hs, hsent⟩ := Option.map_eq_some_iff.mp hrun
  obtain ⟨hle, -, -, hreleased⟩ := every_send_paid hs
  rw [hreleases] at hreleased
  exact ⟨s, hs, hsent, hle, hreleased⟩

end GoCourier
