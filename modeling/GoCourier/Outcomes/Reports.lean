import GoCourier.Store.Integrity
import GoCourier.System.Runs

/- What a dispatch tells of its attempt: the row it records beside the attempt it appends
   to the delivery it stores. The two come from one value, which each of the three
   outcomes finishes in its own way. -/
namespace GoCourier

open Interleave

/-- What a dispatch has heard from its provider and written so far. -/
structure Report where
  verdict : Option (Except Err ProviderResult) := none
  /-- What `Update` wrote. -/
  stored : List Delivery := []
  recorded : List AttemptRow := []
  /-- One of these writes failed. -/
  failed : Bool := false

def Report.next (ρ : Report) : (op : Op) → Ans op → Report
  | .send _, v => { ρ with verdict := some v }
  | .remote (.update d), .ok _ => { ρ with stored := ρ.stored ++ [d] }
  | .remote (.recordAttempt id a), .ok _ => { ρ with recorded := ρ.recorded ++ [⟨id, a⟩] }
  | .remote (.update _), .error _ => { ρ with failed := true }
  | .remote (.recordAttempt _ _), .error _ => { ρ with failed := true }
  | _, _ => ρ

/-- One delivery is stored and one row is recorded. The row is the delivery's last attempt, it is finished,
    and it is a success exactly when the delivery has succeeded. -/
def Report.Truthful (ρ : Report) : Prop :=
  ∃ d a before, ρ.stored = [d] ∧ ρ.recorded = [⟨d.id, a⟩] ∧ d.attempts = before ++ [a] ∧
    (a.success = true ↔ d.status = .succeeded) ∧ a.finishedAt.isSome = true

/-- A recorded attempt is no success. -/
def Op.Modest : Op → Prop
  | .remote (.recordAttempt _ a) => a.success = false
  | _ => True

def reportDiscipline : Discipline Op Ans Report := ⟨fun _ op => op.Modest, Report.next, Seen⟩

/-- How a dispatch ends that has reached its provider and whose writes went through. -/
def Reported (ρ : Report) (_ : Except Err Unit) : Prop :=
  ρ.failed = false → ∀ v, ρ.verdict = some v → (ρ.Truthful ↔ ∃ e, v = .error e)

section
variable {p : Params}

/-- How the two paths of a failure end. -/
def Blamed (verdict : Option (Except Err ProviderResult)) (ρ : Report) (_ : Except Err Unit) : Prop :=
  ρ.verdict = verdict ∧ (ρ.failed = false → ρ.Truthful)

/-- What `moveToDLQ` does once the attempt is recorded. -/
theorem report_deadLetter {ρ : Report} {Q : Report → Except Err Unit → Prop} (d : Delivery) (msg : String)
    (hstored : ∀ r, Q { ρ with stored := ρ.stored ++ [d] } r) (hfailed : ∀ r, Q { ρ with failed := true } r) :
    Obeys reportDiscipline (do
      DeliveryRepo.update d
      ignore (.publish (dlqSubject d.channel) (dlqBody d msg) [("delivery_id", d.id)])
      AuditRepo.append d.id .movedToDLQ [("error", .str msg)] : Go Unit).run ρ Q := by
  rw [obeys_bindE, obeys_remote]
  refine ⟨trivial, fun r _ => ?_⟩
  cases r with
  | error e => exact hfailed _
  | ok _ =>
    rw [ends_ok, obeys_bindE, obeys_ignore]
    refine ⟨trivial, fun _ _ => ?_⟩
    rw [ends_ok, obeys_remote]
    exact ⟨trivial, fun r _ => hstored r⟩

theorem markDLQ_attempts {d : Delivery} {a : Attempt} {msg : String} {now : Time} (hid : a.id ≠ "")
    (hsuccess : a.success = false) :
    (d.markDLQ { a with errorMessage := msg, finishedAt := some now } msg now).attempts =
      d.attempts ++ [{ a with errorMessage := msg, finishedAt := some now }] := by
  unfold Delivery.markDLQ
  rw [if_pos hid, ← hsuccess]
  rfl

theorem report_moveToDLQ {verdict : Option (Except Err ProviderResult)} {d : Delivery} {a : Attempt} (now : Time)
    (msg : String) (hid : a.id ≠ "") (hsuccess : a.success = false) :
    Obeys reportDiscipline (moveToDLQ d now msg (some a)).run { verdict } (Blamed verdict) := by
  unfold moveToDLQ
  simp only []
  rw [obeys_bindE, obeys_remote]
  refine ⟨hsuccess, fun r _ => ?_⟩
  cases r with
  | error e => exact ⟨rfl, fun hend => by cases hend⟩
  | ok _ =>
    apply report_deadLetter
    · intro r
      have hrecorded : [AttemptRow.mk d.id { a with errorMessage := msg, finishedAt := some now }] =
          [⟨(d.markDLQ { a with errorMessage := msg, finishedAt := some now } msg now).id,
            { a with errorMessage := msg, finishedAt := some now }⟩] := by
        rw [Delivery.markDLQ_id]
      refine ⟨rfl, fun _ => ⟨_, _, d.attempts, rfl, hrecorded, markDLQ_attempts hid hsuccess, ?_, rfl⟩⟩
      simp [hsuccess]
    · intro r
      exact ⟨rfl, nofun⟩

/-- Where the dispatch fails, the attempt is finished before it is recorded. -/
theorem report_handleFailure {verdict : Option (Except Err ProviderResult)} {d : Delivery} {a : Attempt} (e : Err)
    (hid : a.id ≠ "") (hsuccess : a.success = false) :
    Obeys reportDiscipline (handleFailure p d a e).run { verdict } (Blamed verdict) := by
  unfold handleFailure
  rw [obeys_bindE, obeys_ask_op]
  refine ⟨trivial, fun now _ => ?_⟩
  simp only [ends_ok]
  split
  · exact report_moveToDLQ now e.text hid hsuccess
  · rw [obeys_bindE, obeys_remote]
    refine ⟨trivial, fun r _ => ?_⟩
    cases r with
    | error e => exact ⟨rfl, fun hend => by cases hend⟩
    | ok _ =>
      rw [ends_ok, obeys_bindE, obeys_remote]
      refine ⟨hsuccess, fun r _ => ?_⟩
      cases r with
      | error e => exact ⟨rfl, fun hend => by cases hend⟩
      | ok _ =>
        rw [ends_ok, obeys_bindE, obeys_ignore]
        refine ⟨trivial, fun _ _ => ?_⟩
        rw [ends_ok, obeys_bindE, delay, obeys_bindE, obeys_ask_op]
        refine ⟨trivial, fun _ _ => ⟨rfl, fun _ => ?_⟩⟩
        have hmark : (d.markRetrying { a with errorMessage := e.text, finishedAt := some now } e.text now).attempts =
            d.attempts ++ [{ a with errorMessage := e.text, finishedAt := some now }] := by
          unfold Delivery.markRetrying
          rw [← hsuccess]
          rfl
        refine ⟨_, _, d.attempts, rfl, rfl, hmark, ?_, rfl⟩
        simp [hsuccess, Delivery.markRetrying]

/-- Where the provider accepts, the attempt is recorded as it was before `MarkSucceeded`. -/
theorem report_success {result : ProviderResult} {d : Delivery} {a : Attempt} (done : Time)
    (hsuccess : a.success = false) (hfinished : a.finishedAt = none) :
    Obeys reportDiscipline (do
      DeliveryRepo.update (d.markSucceeded a done)
      DeliveryRepo.recordAttempt (d.markSucceeded a done).id a
      AuditRepo.append (d.markSucceeded a done).id .dispatchSucceeded [("attempt", .num a.attemptNumber)] : Go Unit).run
      { verdict := some (.ok result) } Reported := by
  rw [obeys_bindE, obeys_remote]
  refine ⟨trivial, fun r _ => ?_⟩
  cases r with
  | error e => exact nofun
  | ok _ =>
    rw [ends_ok, obeys_bindE, obeys_remote]
    refine ⟨hsuccess, fun r _ => ?_⟩
    cases r with
    | error e => exact nofun
    | ok _ =>
      rw [ends_ok, obeys_remote]
      refine ⟨trivial, fun r _ _ v hv => ?_⟩
      have hok : v = .ok result := (Option.some.inj hv).symm
      subst hok
      constructor
      · intro h
        obtain ⟨d', a', before, -, hrecorded, -, -, hend⟩ := h
        have ha : a' = a := congrArg AttemptRow.attempt (List.singleton_inj.mp hrecorded).symm
        rw [ha, hfinished] at hend
        cases hend
      · intro h
        obtain ⟨e, he⟩ := h
        cases he

theorem report_dispatchClaimed (proc : Nat) (d : Delivery) (now : Time) :
    Obeys reportDiscipline (dispatchClaimed p proc d now).run {} Reported := by
  unfold dispatchClaimed
  split
  · apply report_deadLetter
    · intro r _ v hv
      cases hv
    · intro r hf
      cases hf
  · rw [obeys_bindE, obeys_ask_op]
    refine ⟨trivial, fun admitted _ => ?_⟩
    rw [ends_ok, obeys_bindE, obeys_ask_op]
    refine ⟨trivial, fun id hid => ?_⟩
    cases admitted with
    | error e =>
      -- The breaker refused: there is no verdict yet.
      have hfailed := @report_handleFailure p none d { id, attemptNumber := d.retryCount + 1, startedAt := now } errTransient
        hid rfl
      refine obeys_mono (fun ρ r h => ?_) _ _ hfailed
      intro _ v hv
      rw [h.1] at hv
      cases hv
    | ok _ =>
      simp only [ends_ok]
      rw [obeys_bindE, obeys_ask_op]
      refine ⟨trivial, fun sent _ => ?_⟩
      cases sent with
      | error err =>
        simp only [ends_ok]
        rw [obeys_bindE, obeys_ask_op]
        refine ⟨trivial, fun _ _ => ?_⟩
        refine obeys_mono (fun ρ r h => ?_) _ _ (report_handleFailure err hid rfl)
        intro hf v hv
        rw [h.1] at hv
        exact iff_of_true (h.2 hf) ⟨err, (Option.some.inj hv).symm⟩
      | ok result =>
        simp only [ends_ok]
        rw [obeys_bindE, obeys_ask_op]
        refine ⟨trivial, fun _ _ => ?_⟩
        rw [ends_ok, obeys_bindE, obeys_ask_op]
        exact ⟨trivial, fun done _ => report_success done rfl rfl⟩

theorem report_dispatch (proc : Nat) (id : String) : Obeys reportDiscipline (dispatch p proc id).run {} Reported := by
  have hsilent : ∀ r, Reported {} r := fun _ _ _ h => by cases h
  unfold dispatch
  rw [obeys_bindE, obeys_remote]
  refine ⟨trivial, fun r _ => ?_⟩
  cases r with
  | error e => exact hsilent (.error e)
  | ok d =>
    simp only [ends_ok]
    split
    · exact hsilent _
    · split
      · exact hsilent _
      · rw [obeys_bindE, obeys_ask_op]
        refine ⟨trivial, fun now _ => ?_⟩
        simp only [ends_ok]
        split
        · exact hsilent _
        · rename_i d' hd'
          rw [obeys_bindE, obeys_remote]
          refine ⟨trivial, fun r _ => ?_⟩
          cases r with
          | error e => exact hsilent (.error e)
          | ok updated =>
            cases updated with
            | false => exact hsilent (.ok ())
            | true => exact report_dispatchClaimed proc d' now

theorem report_consume (proc i c : Nat) (m : Message) :
    Obeys reportDiscipline (consume p proc i c m).run {} fun _ _ => True := by
  have h : Obeys reportDiscipline (handleMessage p proc m).run {} fun _ _ => True := by
    unfold handleMessage
    split
    · exact trivial
    · exact obeys_mono (fun _ _ _ => trivial) _ _ (report_dispatch proc _)
  show Obeys _ ((handleMessage p proc m).run >>= _) _ _
  rw [obeys_bind]
  refine obeys_mono (fun ρ r _ => ?_) _ _ h
  cases r with
  | error e => exact ⟨trivial, fun _ _ => trivial⟩
  | ok _ => exact ⟨trivial, fun _ _ => trivial⟩

/-! Every run. -/

/-- Only a dispatch records attempts. -/
theorem not_records {k : Task} {φ : Phase} {id : String} {a : Attempt} (hdispatch : ∀ proc id, k ≠ .dispatch proc id)
    (hhandle : ∀ proc i c m, k ≠ .handle proc i c m) : ¬ May p k φ (.remote (.recordAttempt id a)) := by
  intro hm
  cases k with
  | dispatch proc id => exact hdispatch proc id rfl
  | handle proc i c m => exact hhandle proc i c m rfl
  | _ => cases φ <;> exact hm

theorem modest_of_may {k : Task} {φ : Phase} {op : Op} (hdispatch : ∀ proc id, k ≠ .dispatch proc id)
    (hhandle : ∀ proc i c m, k ≠ .handle proc i c m) (hm : May p k φ op) : op.Modest := by
  cases op with
  | remote q =>
    cases q with
    | recordAttempt id a => exact absurd hm (not_records hdispatch hhandle)
    | _ => trivial
  | _ => trivial

end

section
variable (p : Params)

theorem modest_obeyed (k : Task) : Obeys ⟨fun _ op => op.Modest, fun ψ op r => (Phase.next ψ.1 op r, ψ.2.next op r), Seen⟩
    (program p k) (k.first, ({} : Report)) (fun _ _ => True) := by
  have hreport : ∀ {T : CallTree Op Ans (Except Err Unit)} {Q : Report → Except Err Unit → Prop},
      Obeys reportDiscipline T {} Q → Obeys ⟨fun _ op => op.Modest,
        fun (ψ : Phase × Report) op r => (Phase.next ψ.1 op r, ψ.2.next op r), Seen⟩ (Result.unit <$> T)
          (k.first, ({} : Report)) (fun _ _ => True) := by
    intro T Q h
    apply (obeys_map ..).mpr
    exact obeys_extend (fun ψ : Phase × Report => ψ.2) (fun _ _ h => h) (fun _ _ _ => rfl) (fun _ _ h => h)
      (fun _ _ _ => trivial) _ (k.first, {}) h
  have hother : (∀ proc id, k ≠ .dispatch proc id) → (∀ proc i c m, k ≠ .handle proc i c m) →
      Obeys ⟨fun _ op => op.Modest, fun (ψ : Phase × Report) op r => (Phase.next ψ.1 op r, ψ.2.next op r), Seen⟩
        (program p k) (k.first, ({} : Report)) (fun _ _ => True) := by
    intro hdispatch hhandle
    exact obeys_extend (fun ψ : Phase × Report => ψ.1) (fun _ _ hm => modest_of_may hdispatch hhandle hm)
      (fun _ _ _ => rfl) (fun _ _ h => h) (fun _ _ _ => trivial) _ (k.first, {}) (obeyed p k)
  cases k with
  | dispatch proc id => exact hreport (report_dispatch proc id)
  | handle proc i c m => exact hreport (report_consume proc i c m)
  | _ => exact hother nofun nofun

def modestWatch : Machine.Watch (protocol p) Report where
  first := {}
  grow := Report.next
  may _ _ op := op.Modest
  ends _ _ _ := True
  obeyed := modest_obeyed p

end

section
variable {p : Params} {s s' : System}

/-- No row tells of a success. -/
def NoSuccess (s : System) : Prop := ∀ r ∈ s.state.db.attempts, r.attempt.success = false

theorem noSuccess_answered {op : Op} {c : Choice} {r : Ans op} {w : World} (hop : op.Modest)
    (h : ∀ r ∈ s.state.db.attempts, r.attempt.success = false) (answered : answer p op c s.state = some (r, w)) :
    ∀ r ∈ w.db.attempts, r.attempt.success = false := by
  rcases answered_db (answer_cases answered) with hdb | ⟨q, rfl, -, hdb⟩
  · rw [hdb]
    exact h
  · rw [hdb]
    rcases exec_attempts p s.state q with hsame | ⟨id, a, rfl, hadd⟩
    · rw [hsame]
      exact h
    · rw [hadd]
      intro row hrow
      rcases List.mem_append.mp hrow with hold | hnew
      · exact h row hold
      · rw [List.mem_singleton.mp hnew]
        exact hop

/-- In no state reached is there the row of a success. -/
theorem reach_noSuccess {ok : System → Act → Prop} (hr : (machine p).Reach ok (System.init p) s) : NoSuccess s := by
  have h : ∃ g, Machine.Watched (modestWatch p) g s ∧ NoSuccess s := by
    refine hr.invariant (I := fun s => ∃ g, Machine.Watched (modestWatch p) g s ∧ NoSuccess s) ⟨fun _ => {}, ?_, ?_⟩ ?_
    · intro t th hth
      cases hth
    · intro row hrow
      cases hrow
    · intro s l s' h _ hs
      obtain ⟨g, hw, hno⟩ := h
      cases hs with
      | @start t k w free entered =>
        have hdb : w.db = s.state.db := enter_db entered
        refine ⟨_, Machine.watched_start hw t k w, ?_⟩
        intro row hrow
        apply hno
        rwa [← hdb]
      | call running answered =>
        exact ⟨_, Machine.watched_call hw running answered _, noSuccess_answered (hw.may running) hno answered⟩
      | @crash t _ _ _ _ running => exact ⟨g, Machine.watched_crash hw t, hno⟩
      | move moved =>
        have hdb : _ = s.state.db := move_db moved
        refine ⟨g, fun t th hth => hw t th hth, ?_⟩
        intro row hrow
        apply hno
        rwa [← hdb]
  obtain ⟨g, -, hno⟩ := h
  exact hno

/-- The rows of `x` that tell of a success. -/
def Tables.successRows (t : Tables) (x : String) : Nat := t.attempts.countP fun r => r.deliveryId = x ∧ r.attempt.success

/-- A dispatch that has reached its provider tells the truth of its attempt exactly when the provider has refused; so
    a stored delivery has its one row of a success exactly when it need not. -/
theorem attempt_rows_truthful (p : Params) :
    (∀ proc id, Obeys ⟨fun _ _ => True, Report.next, Seen⟩ (dispatch p proc id).run {} Reported) ∧
      ∀ s, (machine p).Reach (fun _ _ => True) (System.init p) s → ∀ x row, s.state.db.deliveries x = some row →
        ((row.status = .succeeded → s.state.db.successRows x = 1) ↔ row.status ≠ .succeeded) := by
  constructor
  · intro proc id
    apply obeys_extend (D := reportDiscipline) (fun ρ : Report => ρ)
    · exact fun _ _ _ => trivial
    · exact fun _ _ _ => rfl
    · exact fun _ _ h => h
    · exact fun _ _ h => h
    · exact report_dispatch proc id
  · intro s hr x row _
    have hnone : s.state.db.successRows x = 0 := by
      apply List.countP_eq_zero.mpr
      intro r hmem
      rw [decide_eq_true_eq, reach_noSuccess hr r hmem]
      rintro ⟨-, h⟩
      cases h
    rw [hnone]
    constructor
    · intro h hst
      cases h hst
    · intro h hst
      exact absurd hst h

/-- An accepted dispatch. -/
def acceptedOnce : List Act := ingestCalls 0 "d1" ++ succeedCalls 1 "d1" "a1"

theorem attempt_rows_truthful_sample :
    ∃ s row, (machine {}).run (System.init {}) acceptedOnce = some s ∧ s.state.db.deliveries "d1" = some row ∧
      ¬ (row.status = .succeeded → s.state.db.successRows "d1" = 1) := by
  have hrun : ((machine {}).run (System.init {}) acceptedOnce).bind (fun s => (s.state.db.deliveries "d1").map (·.status)) =
      some .succeeded := by
    decide +kernel
  obtain ⟨s, hs, hrow⟩ := Option.bind_eq_some_iff.mp hrun
  obtain ⟨row, hrow, hst⟩ := Option.map_eq_some_iff.mp hrow
  have hreach : (machine {}).Reach (fun _ _ => True) (System.init {}) s :=
    Machine.reach_of_run acceptedOnce .refl (Machine.along_of_forall _ _ fun _ _ _ _ => trivial) hs
  exact ⟨s, row, hs, hrow, fun h => ((attempt_rows_truthful {}).2 s hreach "d1" row hrow).mp h hst⟩

/-- The row of the only attempt of a succeeded delivery is neither a success nor finished. -/
theorem success_untold :
    ∃ s row, (machine {}).run (System.init {}) acceptedOnce = some s ∧ s.state.db.deliveries "d1" = some row ∧
      row.status = .succeeded ∧
      s.state.db.attempts = [AttemptRow.mk "d1" { id := "a1", attemptNumber := 1, providerResponse := some {} }] ∧
      s.state.db.successRows "d1" = 0 := by
  have hrun : ((machine {}).run (System.init {}) acceptedOnce).map (fun s =>
      ((s.state.db.deliveries "d1").map (·.status), s.state.db.attempts)) =
        some (some .succeeded, [⟨"d1", { id := "a1", attemptNumber := 1, providerResponse := some {} }⟩]) := by
    decide +kernel
  obtain ⟨s, hs, hparts⟩ := Option.map_eq_some_iff.mp hrun
  obtain ⟨hrow, hattempts⟩ := Prod.mk.inj hparts
  obtain ⟨row, hrow, hst⟩ := Option.map_eq_some_iff.mp hrow
  refine ⟨s, row, hs, hrow, hst, hattempts, ?_⟩
  rw [Tables.successRows, hattempts]
  rfl

end

end GoCourier
