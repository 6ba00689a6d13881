import GoCourier.Outcomes.Reports

/- When an attempt starts. A dispatch reads the clock before it takes the delivery, and that
   reading is the start of the one attempt it may record. A dispatch that has written the row
   returns only once it has recorded, unless it never made an attempt. -/
namespace GoCourier

open Interleave

/-- What a dispatch has read off the clock first, and whether it has asked for its record. -/
structure Stamp where
  started : Option Time := none
  recorded : Bool := false

def Stamp.next (γ : Stamp) : (op : Op) → Ans op → Stamp
  | .now, v => { γ with started := some (γ.started.getD v) }
  | .remote (.recordAttempt _ _), _ => { γ with recorded := true }
  | _, _ => γ

/-- An attempt is recorded once, as started at the first reading. -/
def Op.StampedBy (γ : Stamp) : Op → Prop
  | .remote (.recordAttempt _ a) => γ = { started := some a.startedAt }
  | _ => True

def stampDiscipline : Discipline Op Ans (WorkerPhase × Stamp) :=
  ⟨fun ψ op => op.StampedBy ψ.2, fun ψ op r => (ψ.1.next op r, ψ.2.next op r), Seen⟩

/-- No attempt is left to record. -/
def WorkerPhase.Signed (φ : WorkerPhase) : Prop := ∀ d, φ = .settled d false → d.status = .dlq

section
variable {p : Params}

/-- A dispatch ends with nothing left to record. -/
abbrev EndsSigned (ψ : WorkerPhase × Stamp) (_ : Except Err Unit) : Prop := ψ.1.Signed

theorem signed_noted (d : Delivery) : (WorkerPhase.settled d true).Signed := by
  intro _ h
  cases h

theorem signed_failed : WorkerPhase.failed.Signed := by
  intro _ h
  cases h

theorem signed_passed : WorkerPhase.passed.Signed := by
  intro _ h
  cases h

theorem signed_snap (d : Delivery) : (WorkerPhase.snap d).Signed := by
  intro _ h
  cases h

theorem signed_closed : WorkerPhase.closed.Signed := by
  intro _ h
  cases h

/-- What `moveToDLQ` does once the attempt is recorded. -/
theorem stamp_deadLetter {φ : WorkerPhase} {γ : Stamp} {d : Delivery} (msg : String) (hdlq : d.status = .dlq) :
    Obeys stampDiscipline (do
      DeliveryRepo.update d
      ignore (.publish (dlqSubject d.channel) (dlqBody d msg) [("delivery_id", d.id)])
      AuditRepo.append d.id .movedToDLQ [("error", .str msg)] : Go Unit).run (φ, γ) EndsSigned := by
  rw [obeys_bindE, obeys_remote]
  refine ⟨trivial, fun r _ => ?_⟩
  cases r with
  | error e => exact signed_failed
  | ok _ =>
    have hsettled : (φ.settle d).Signed := by
      have hdead : ∀ {noted}, (WorkerPhase.settled d noted).Signed := by
        intro noted d' hd'
        cases hd'
        exact hdlq
      cases φ <;> exact hdead
    rw [ends_ok, obeys_bindE, obeys_ignore]
    refine ⟨trivial, fun _ _ => ?_⟩
    rw [ends_ok, obeys_remote]
    refine ⟨trivial, fun r _ => ?_⟩
    cases r with
    | error e => exact signed_failed
    | ok _ => exact hsettled

theorem stamp_moveToDLQ {φ : WorkerPhase} {d : Delivery} {a : Attempt} (now : Time) (msg : String) :
    Obeys stampDiscipline (moveToDLQ d now msg (some a)).run (φ, { started := some a.startedAt }) EndsSigned := by
  unfold moveToDLQ
  simp only []
  rw [obeys_bindE, obeys_remote]
  refine ⟨rfl, fun r _ => ?_⟩
  cases r with
  | error e => exact signed_failed
  | ok _ => exact stamp_deadLetter msg (markDLQ_moved d _ msg now).status

/-- A failure is recorded with the start it was given. -/
theorem stamp_handleFailure {d₀ d : Delivery} {e₀ : Err} {a : Attempt} (e : Err) :
    Obeys stampDiscipline (handleFailure p d a e).run (.refused d₀ e₀ false, { started := some a.startedAt })
      EndsSigned := by
  unfold handleFailure
  rw [obeys_bindE, obeys_ask_op]
  refine ⟨trivial, fun now _ => ?_⟩
  simp only [ends_ok]
  split
  · exact stamp_moveToDLQ now e.text
  · rw [obeys_bindE, obeys_remote]
    refine ⟨trivial, fun r _ => ?_⟩
    cases r with
    | error e => exact signed_failed
    | ok _ =>
      rw [ends_ok, obeys_bindE, obeys_remote]
      refine ⟨rfl, fun r _ => ?_⟩
      cases r with
      | error e => exact signed_failed
      | ok _ =>
        -- the attempt is recorded, and neither the audit event nor the delay changes that
        rw [ends_ok, obeys_bindE, obeys_ignore]
        refine ⟨trivial, fun r _ => ?_⟩
        rw [ends_ok, obeys_bindE, delay, obeys_bindE, obeys_ask_op]
        refine ⟨trivial, fun _ _ => ?_⟩
        cases r with
        | error e => exact signed_failed
        | ok _ => exact signed_noted _

theorem stamp_success {d₀ d : Delivery} {a : Attempt} (done : Time) :
    Obeys stampDiscipline (do
      DeliveryRepo.update (d.markSucceeded a done)
      DeliveryRepo.recordAttempt (d.markSucceeded a done).id a
      AuditRepo.append (d.markSucceeded a done).id .dispatchSucceeded [("attempt", .num a.attemptNumber)] : Go Unit).run
      (.accepted d₀, { started := some a.startedAt }) EndsSigned := by
  rw [obeys_bindE, obeys_remote]
  refine ⟨trivial, fun r _ => ?_⟩
  cases r with
  | error e => exact signed_failed
  | ok _ =>
    rw [ends_ok, obeys_bindE, obeys_remote]
    refine ⟨rfl, fun r _ => ?_⟩
    cases r with
    | error e => exact signed_failed
    | ok _ =>
      rw [ends_ok, obeys_remote]
      refine ⟨trivial, fun r _ => ?_⟩
      cases r with
      | error e => exact signed_failed
      | ok _ => exact signed_noted _

theorem stamp_dispatchClaimed (proc : Nat) (d : Delivery) (now : Time) :
    Obeys stampDiscipline (dispatchClaimed p proc d now).run (.owned d, { started := some now }) EndsSigned := by
  unfold dispatchClaimed
  split
  · exact stamp_deadLetter _ (markDLQ_moved d {} _ now).status
  · rw [obeys_bindE, obeys_ask_op]
    refine ⟨trivial, fun admitted _ => ?_⟩
    rw [ends_ok, obeys_bindE, obeys_ask_op]
    refine ⟨trivial, fun id _ => ?_⟩
    cases admitted with
    | error e => exact stamp_handleFailure errTransient
    | ok _ =>
      simp only [ends_ok]
      rw [obeys_bindE, obeys_ask_op]
      refine ⟨trivial, fun sent _ => ?_⟩
      cases sent with
      | error err =>
        simp only [ends_ok]
        rw [obeys_bindE, obeys_ask_op]
        refine ⟨trivial, fun _ _ => ?_⟩
        exact stamp_handleFailure err
      | ok result =>
        simp only [ends_ok]
        rw [obeys_bindE, obeys_ask_op]
        refine ⟨trivial, fun _ _ => ?_⟩
        rw [ends_ok, obeys_bindE, obeys_ask_op]
        exact ⟨trivial, fun done _ => stamp_success done⟩

theorem stamp_dispatch (proc : Nat) (id : String) :
    Obeys stampDiscipline (dispatch p proc id).run (.start, {}) EndsSigned := by
  unfold dispatch
  rw [obeys_bindE, obeys_remote]
  refine ⟨trivial, fun r _ => ?_⟩
  cases r with
  | error e => exact signed_failed
  | ok d =>
    simp only [ends_ok]
    split
    · exact signed_snap d
    · split
      · exact signed_snap d
      · rw [obeys_bindE, obeys_ask_op]
        refine ⟨trivial, fun now _ => ?_⟩
        simp only [ends_ok]
        split
        · exact signed_snap d
        · rename_i d' hd'
          rw [obeys_bindE, obeys_remote]
          refine ⟨trivial, fun r _ => ?_⟩
          cases r with
          | error e => exact signed_failed
          | ok updated =>
            cases updated with
            | false => exact signed_passed
            | true => exact stamp_dispatchClaimed proc d' now

theorem stamp_consume (proc i c : Nat) (m : Message) :
    Obeys stampDiscipline (consume p proc i c m).run (.start, {}) EndsSigned := by
  have h : Obeys stampDiscipline (handleMessage p proc m).run (.start, {}) fun _ _ => True := by
    unfold handleMessage
    split
    · exact trivial
    · exact obeys_mono (fun _ _ _ => trivial) _ _ (stamp_dispatch proc _)
  show Obeys _ ((handleMessage p proc m).run >>= _) _ _
  rw [obeys_bind]
  refine obeys_mono (fun ψ r _ => ?_) _ _ h
  cases r with
  | error e => exact ⟨trivial, fun _ _ => signed_closed⟩
  | ok _ => exact ⟨trivial, fun _ _ => signed_closed⟩

end

section
variable (p : Params)

/-- Only a dispatch ends in a dispatch's phase. -/
theorem not_finished_worker {k : Task} {φ : WorkerPhase} {r : Result} (hdispatch : ∀ proc id, k ≠ .dispatch proc id)
    (hhandle : ∀ proc i c m, k ≠ .handle proc i c m) : ¬ Finished k (.worker φ) r := by
  intro hf
  cases k with
  | dispatch proc id => exact hdispatch proc id rfl
  | handle proc i c m => exact hhandle proc i c m rfl
  | _ => exact hf

def Phase.Signed (φ : Phase) : Prop := ∀ ψ, φ = .worker ψ → ψ.Signed

theorem stamp_obeyed (k : Task) :
    Obeys ⟨fun ψ op => op.StampedBy ψ.2, fun ψ op r => (Phase.next ψ.1 op r, ψ.2.next op r), Seen⟩
      (program p k) (k.first, ({} : Stamp)) (fun ψ _ => ψ.1.Signed) := by
  have hstamp : ∀ {T : CallTree Op Ans (Except Err Unit)}, Obeys stampDiscipline T (.start, {}) EndsSigned →
      Obeys ⟨fun ψ op => op.StampedBy ψ.2, fun (ψ : Phase × Stamp) op r => (Phase.next ψ.1 op r, ψ.2.next op r), Seen⟩
        (Result.unit <$> T) (.worker .start, ({} : Stamp)) (fun ψ _ => ψ.1.Signed) := by
    intro T h
    apply (obeys_map ..).mpr
    refine obeys_embed (fun ψ : WorkerPhase × Stamp => (Phase.worker ψ.1, ψ.2)) (fun _ _ h => h) (fun _ _ _ => rfl)
      (fun _ _ h => h) (fun ψ _ hψ φ hφ => ?_) _ (WorkerPhase.start, {}) h
    cases hφ
    exact hψ
  have hother : (∀ proc id, k ≠ .dispatch proc id) → (∀ proc i c m, k ≠ .handle proc i c m) →
      Obeys ⟨fun ψ op => op.StampedBy ψ.2, fun (ψ : Phase × Stamp) op r => (Phase.next ψ.1 op r, ψ.2.next op r), Seen⟩
        (program p k) (k.first, ({} : Stamp)) (fun ψ _ => ψ.1.Signed) := by
    intro hdispatch hhandle
    have hmay : ∀ (ψ : Phase × Stamp) op, May p k ψ.1 op → op.StampedBy ψ.2 := by
      intro ψ op hm
      cases op with
      | remote q =>
        cases q with
        | recordAttempt id a => exact absurd hm (not_records hdispatch hhandle)
        | _ => trivial
      | _ => trivial
    refine obeys_extend (fun ψ : Phase × Stamp => ψ.1) hmay (fun _ _ _ => rfl) (fun _ _ h => h)
      (fun ψ r hf φ hφ => ?_) _ (k.first, {}) (obeyed p k)
    rw [hφ] at hf
    exact absurd hf (not_finished_worker hdispatch hhandle)
  cases k with
  | dispatch proc id => exact hstamp (stamp_dispatch proc id)
  | handle proc i c m => exact hstamp (stamp_consume proc i c m)
  | _ => exact hother nofun nofun

def stampWatch : Machine.Watch (protocol p) Stamp where
  first := {}
  grow := Stamp.next
  may _ ψ op := op.StampedBy ψ.2
  ends _ ψ _ := ψ.1.Signed
  obeyed := stamp_obeyed p

end

end GoCourier
