import GoCourier.Content.Accepted
import GoCourier.Lib.Account

/- What the timeline of a delivery tells. Beside the received event, an audit event tells
   of one write of the delivery's row, which has gone through before it: that an attempt
   succeeded and which one it was, that it failed and with what error, that the delivery
   was moved to the DLQ, replayed, or put on the queue by the scheduler. A write may go
   untold (its program fails or crashes before the event is in), but no write is told of
   twice and no event tells of a write that was not made, whatever races and crashes. -/
namespace GoCourier

open Interleave

/-- The event that tells of the write of `d` by task `k`. -/
def Task.eventFor (k : Task) (d : Delivery) : Option AuditEvent :=
  match d.status with
  | .succeeded => some ⟨d.id, .dispatchSucceeded, [("attempt", .num (d.retryCount + 1))]⟩
  -- the row counts the attempt that failed already
  | .retrying => some ⟨d.id, .dispatchFailed,
      [("error", .str d.lastError), ("attempt", .num d.retryCount), ("retry", .flag true)]⟩
  | .dlq => some ⟨d.id, .movedToDLQ, [("error", .str d.lastError)]⟩
  | .queued => match k with
    | .replay _ => some ⟨d.id, .replayed, [("operator", .str "api")]⟩
    | _ => some ⟨d.id, .queued, [("scheduled", .flag true)]⟩
  | _ => none

/-- An event that is still to be told of. -/
def untold : Option AuditEvent → Multiset AuditEvent
  | some row => {row}
  | none => 0

/-- What a write that has gone through gives to tell of. -/
def eventOf : Called → Multiset AuditEvent
  | ⟨_, k, .remote (.update d), .ok _⟩ => untold (k.eventFor d)
  | _ => 0

/-- An `Append`, whether it takes effect or not. -/
def tellings : Called → Multiset AuditEvent
  | ⟨_, _, .remote (.append id ev payload), _⟩ => {⟨id, ev, payload⟩}
  | _ => 0

def timelineAccount : Machine.Account Op Ans Task (Option AuditEvent) AuditEvent := ⟨eventOf, tellings, untold⟩

/-- A program tells of the last write that went through, once. -/
def timelineDiscipline (k : Task) : Discipline Op Ans (Option AuditEvent) where
  may γ
    | .remote (.append id ev payload) => γ = some ⟨id, ev, payload⟩
    | _ => True
  next γ op r := match op, r with
    | .remote (.update d), .ok _ => k.eventFor d
    | .remote (.append _ _ _), _ => none
    | _, _ => γ
  sees := Seen

/-! The programs. -/

section
variable {p : Params} {k : Task} {γ : Option AuditEvent}

/-- A call whose error ends the program. -/
theorem timeline_then {α : Type} {q : Remote} {f : Reply q → Go α} (hm : (timelineDiscipline k).may γ (.remote q))
    (h : ∀ a, Obeys (timelineDiscipline k) (f a).run ((timelineDiscipline k).next γ (.remote q) (.ok a)) fun _ _ => True) :
    Obeys (timelineDiscipline k) (remote q >>= f : Go α).run γ fun _ _ => True := by
  rw [obeys_bindE, obeys_remote]
  refine ⟨hm, fun r _ => ?_⟩
  cases r with
  | error e => trivial
  | ok a => exact h a

/-- A call that the program goes on after, whatever its answer. -/
theorem timeline_ask {α : Type} {op : Op} {f : Ans op → Go α} (hm : (timelineDiscipline k).may γ op)
    (h : ∀ r, Obeys (timelineDiscipline k) (f r).run ((timelineDiscipline k).next γ op r) fun _ _ => True) :
    Obeys (timelineDiscipline k) (ask op >>= f : Go α).run γ fun _ _ => True := by
  rw [obeys_bindE, obeys_ask_op]
  exact ⟨hm, fun r _ => h r⟩

theorem timeline_last {q : Remote} (hm : (timelineDiscipline k).may γ (.remote q)) :
    Obeys (timelineDiscipline k) (remote q).run γ fun _ _ => True :=
  obeys_remote.mpr ⟨hm, fun _ _ => trivial⟩

theorem timeline_deadLetter {d : Delivery} {msg : String} (hstatus : d.status = .dlq) (herror : d.lastError = msg) :
    Obeys (timelineDiscipline k) (do
      DeliveryRepo.update d
      ignore (.publish (dlqSubject d.channel) (dlqBody d msg) [("delivery_id", d.id)])
      AuditRepo.append d.id .movedToDLQ [("error", .str msg)] : Go Unit).run γ fun _ _ => True := by
  refine timeline_then trivial fun _ => ?_
  rw [obeys_bindE, obeys_ignore]
  refine ⟨trivial, fun _ _ => timeline_last ?_⟩
  show k.eventFor d = _
  unfold Task.eventFor
  rw [hstatus, herror]

theorem timeline_moveToDLQ (d : Delivery) (now : Time) (msg : String) (att : Option Attempt) :
    Obeys (timelineDiscipline k) (moveToDLQ d now msg att).run γ fun _ _ => True := by
  have herror : ∀ a : Attempt, (d.markDLQ a msg now).lastError = msg := by
    intro a
    unfold Delivery.markDLQ
    split <;> rfl
  unfold moveToDLQ
  cases att with
  | none => exact timeline_deadLetter (d.markDLQ_status ..) (herror _)
  | some a => exact timeline_then trivial fun _ => timeline_deadLetter (d.markDLQ_status ..) (herror _)

theorem timeline_handleFailure {d : Delivery} {a : Attempt} (hnumber : a.attemptNumber = d.retryCount + 1) (e : Err) :
    Obeys (timelineDiscipline k) (handleFailure p d a e).run γ fun _ _ => True := by
  unfold handleFailure
  refine timeline_ask trivial fun now => ?_
  split
  · exact timeline_moveToDLQ d now e.text _
  · refine timeline_then trivial fun _ => timeline_then trivial fun _ => ?_
    rw [obeys_bindE, obeys_ignore]
    -- the event gives the attempt's number, which the row's retry count has reached
    refine ⟨?_, fun r _ => ?_⟩
    · show k.eventFor (d.markRetrying _ e.text now) = _
      simp [Task.eventFor, Delivery.markRetrying, hnumber]
    · rw [ends_ok, obeys_bindE, delay, obeys_bindE, obeys_ask_op]
      exact ⟨trivial, fun _ _ => trivial⟩

theorem timeline_success {d : Delivery} {a : Attempt} (hnumber : a.attemptNumber = d.retryCount + 1) (done : Time) :
    Obeys (timelineDiscipline k) (do
      DeliveryRepo.update (d.markSucceeded a done)
      DeliveryRepo.recordAttempt (d.markSucceeded a done).id a
      AuditRepo.append (d.markSucceeded a done).id .dispatchSucceeded [("attempt", .num a.attemptNumber)] : Go Unit).run
      γ fun _ _ => True := by
  refine timeline_then trivial fun _ => timeline_then trivial fun _ => timeline_last ?_
  show k.eventFor (d.markSucceeded a done) = _
  rw [hnumber]
  rfl

theorem timeline_dispatchClaimed (proc : Nat) (d : Delivery) (now : Time) :
    Obeys (timelineDiscipline k) (dispatchClaimed p proc d now).run γ fun _ _ => True := by
  unfold dispatchClaimed
  split
  · exact timeline_moveToDLQ d now _ none
  · refine timeline_ask trivial fun admitted => timeline_ask trivial fun id => ?_
    cases admitted with
    | error e => exact timeline_handleFailure rfl errTransient
    | ok _ =>
      refine timeline_ask trivial fun sent => ?_
      cases sent with
      | error err => exact timeline_ask trivial fun _ => timeline_handleFailure rfl err
      | ok result => exact timeline_ask trivial fun _ => timeline_ask trivial fun done => timeline_success rfl done

theorem timeline_dispatch (proc : Nat) (id : String) :
    Obeys (timelineDiscipline k) (dispatch p proc id).run γ fun _ _ => True := by
  unfold dispatch
  refine timeline_then trivial fun d => ?_
  split
  · trivial
  · split
    · trivial
    · refine timeline_ask trivial fun now => ?_
      split
      · trivial
      · rename_i d' hd'
        refine timeline_then trivial fun updated => ?_
        cases updated with
        | false => trivial
        | true => exact timeline_dispatchClaimed proc d' now

theorem timeline_consume (proc i c : Nat) (m : Message) :
    Obeys (timelineDiscipline k) (consume p proc i c m).run γ fun _ _ => True := by
  have h : Obeys (timelineDiscipline k) (handleMessage p proc m).run γ fun _ _ => True := by
    unfold handleMessage
    split
    · trivial
    · exact timeline_dispatch proc _
  show Obeys _ ((handleMessage p proc m).run >>= _) _ _
  rw [obeys_bind]
  refine obeys_mono (fun γ r _ => ?_) _ _ h
  cases r with
  | error e => exact ⟨trivial, fun _ _ => trivial⟩
  | ok _ => exact ⟨trivial, fun _ _ => trivial⟩

theorem timeline_replay (x id : String) :
    Obeys (timelineDiscipline (.replay x)) (replayDelivery p id).run γ fun _ _ => True := by
  unfold replayDelivery
  refine timeline_then trivial fun d => timeline_ask trivial fun now => ?_
  cases hreplay : d.replay now with
  | error e => trivial
  | ok d' =>
    obtain ⟨-, rfl⟩ := Delivery.replay_ok hreplay
    exact timeline_then trivial fun _ => timeline_then trivial fun _ => timeline_last rfl

/-- Each turn of the loop tells of its own write, and the next one begins with whatever is left untold. -/
theorem timeline_processRows (now : Time) (ids : List String) : ∀ γ : Option AuditEvent,
    Obeys (timelineDiscipline .processDue) (processRows p now ids).run γ fun _ _ => True := by
  induction ids with
  | nil => exact fun _ => trivial
  | cons id ids ih =>
    intro γ
    unfold processRows
    rw [obeys_bindE, obeys_attempt]
    refine ⟨trivial, fun found _ => ?_⟩
    cases found with
    -- the row is passed over, as it is when it cannot be queued
    | error e => exact ih _
    | ok d =>
      simp only [ends_ok]
      cases hqueue : d.queue now with
      | error e => exact ih _
      | ok d' =>
        obtain ⟨-, rfl⟩ := Delivery.queue_ok hqueue
        refine timeline_then trivial fun _ => timeline_then trivial fun _ => timeline_then trivial fun _ => ?_
        rw [obeys_bindE, obeys_ignore]
        exact ⟨rfl, fun _ _ => ih _⟩

theorem timeline_processDue : Obeys (timelineDiscipline .processDue) (processDue p).run γ fun _ _ => True := by
  unfold processDue
  exact timeline_ask trivial fun now => timeline_then trivial fun ids => timeline_processRows now ids _

/-- An ingest and a publisher tell of nothing. -/
theorem timeline_untold (hnone : ∀ φ id ev payload, ¬ May p k φ (.remote (.append id ev payload))) :
    Obeys (timelineDiscipline k) (program p k) γ fun _ _ => True := by
  refine obeys_allowed ?_ ?_ _ k.first γ (obeyed p k)
  · intro φ _ op hm
    cases op with
    | remote q =>
      cases q with
      | append id ev payload => exact absurd hm (hnone φ id ev payload)
      | _ => trivial
    | _ => trivial
  · exact fun _ _ h => h

variable (p) in
def timelinePledge : (machine p).Pledge (Option AuditEvent) where
  first _ := none
  discipline := timelineDiscipline
  ends _ _ _ := True
  answers _ _ _ _ _ _ h := seen_answer p h
  obeyed k := by
    cases k with
    | ingest req =>
      refine timeline_untold fun φ _ _ _ hm => ?_
      cases φ <;> exact hm.elim
    | dispatch proc id => exact (obeys_map ..).mpr (timeline_dispatch proc id)
    | handle proc i c m => exact (obeys_map ..).mpr (timeline_consume proc i c m)
    | replay id => exact (obeys_map ..).mpr (timeline_replay id id)
    | flush =>
      refine timeline_untold fun φ _ _ _ hm => ?_
      cases φ <;> exact hm.elim
    | processDue => exact (obeys_map ..).mpr timeline_processDue

/-- An event is paid for by the write that it tells of. -/
theorem timeline_pays {t : Nat} {op : Op} {r : Ans op} (hm : (timelineDiscipline k).may γ op) :
    timelineAccount.Pays γ ⟨t, k, op, r⟩ ((timelineDiscipline k).next γ op r) := by
  have hidle : (0 : Multiset AuditEvent) + untold γ ≤ untold γ + 0 := le_of_eq (add_comm ..)
  cases op with
  | remote q =>
    cases q with
    | update d =>
      cases r with
      | ok u =>
        show 0 + untold (k.eventFor d) ≤ untold γ + untold (k.eventFor d)
        exact add_le_add (Multiset.zero_le _) (le_refl _)
      | error e => exact hidle
    | append id ev payload =>
      have htold : γ = some ⟨id, ev, payload⟩ := hm
      subst htold
      exact le_refl _
    | _ => exact hidle
  | _ => exact hidle

end

/-! Runs. -/

section
variable {p : Params} {s s' : System} {l : Act}

/-- The events of all deliveries but for those of their ingests. -/
def Tables.timeline (t : Tables) : Multiset AuditEvent :=
  (t.audit.map (·.toAuditEvent)).filter (·.eventType ≠ .received)

/-- A step that adds to the timeline is an `Append`. -/
theorem timeline_step (hlinked : s.state.db.Linked) (h : s.state.db.timeline ≤ (s.hist.map tellings).sum)
    (hs : (machine p).Step s l s') : s'.state.db.timeline ≤ (s'.hist.map tellings).sum := by
  have hgrown : (s.hist.map tellings).sum ≤ (s'.hist.map tellings).sum := by
    rcases hs.heard with hsame | ⟨t, c, k, φ, op, f, r, -, -, -, -, hhist⟩
    · rw [hsame]
    · rw [hhist, List.map_cons, List.sum_cons]
      exact Multiset.le_add_left ..
  rcases db_step hs with hdb | ⟨t, c, k, φ, q, f, rfl, hth, -, hdb⟩
  · rw [hdb]
    exact le_trans h hgrown
  rw [hdb]
  have hsame : (exec p s.state q).2.db.audit = s.state.db.audit →
      (exec p s.state q).2.db.timeline ≤ (s'.hist.map tellings).sum := by
    intro haudit
    rw [Tables.timeline, haudit]
    exact le_trans h hgrown
  cases q with
  | append id ev payload =>
    simp only [exec]
    cases happ : s.state.db.append s.state.clock id ev payload with
    | error e => exact le_trans h hgrown
    | ok t' =>
      obtain ⟨r, -, -, hhist⟩ := hs.called hth
      rw [World.store, Tables.timeline, (Tables.append_ok happ).2, List.map_append, List.map_singleton,
        List.filter_append, ← Multiset.coe_add, hhist, List.map_cons, List.sum_cons, add_comm]
      exact add_le_add (Multiset.coe_le.mpr (List.filter_sublist ..).subperm) h
  | ingestTransactional d exp subject payload headers schedule =>
    simp only [exec]
    cases htx : s.state.db.ingestTransactional s.state.clock d exp subject payload headers schedule with
    | error e => exact le_trans h hgrown
    | ok t' =>
      have hin := Tables.ingested_of_ok hlinked htx
      -- the received event is left out
      have hnone : [(⟨d.id, .received, []⟩ : AuditEvent)].filter (·.eventType ≠ .received) = [] := by simp
      rw [World.store, Tables.timeline, hin.audit, List.map_append, List.filter_append]
      rw [List.map_singleton, hnone, List.append_nil]
      exact le_trans h hgrown
  | _ => exact hsame (exec_audit s.state (by intro _ _ _ hq; cases hq) (by intro _ _ _ _ _ _ hq; cases hq))

/-- In every run, whatever races, fails and crashes. -/
theorem audit_never_overstates {ok : System → Act → Prop} (hr : (machine p).Reach ok (System.init p) s) :
    s.state.db.timeline ≤ (s.hist.map eventOf).sum := by
  have htold : s.state.db.timeline ≤ (s.hist.map tellings).sum :=
    (hr.invariant (I := fun s => s.state.db.Linked ∧ s.state.db.timeline ≤ (s.hist.map tellings).sum)
      ⟨init_linked p, le_refl _⟩ fun _ _ _ h _ hs => ⟨linked_step h.1 hs, timeline_step h.1 h.2 hs⟩).2
  exact le_trans htold (Machine.Account.spent_le_earned (A := timelineAccount) (P := timelinePledge p) none rfl hr
    (fun _ => rfl) fun t k γ op r hm => timeline_pays hm)

end

/-- An attempt that fails and one that succeeds. -/
def secondTime : List Act := ingestCalls 0 "d1" ++ retryCalls 1 "d1" "a1" ++ succeedCalls 2 "d1" "a2"

theorem audit_never_overstates_sample : ∃ s, (machine {}).run (System.init {}) secondTime = some s ∧
    s.state.db.timeline =
      {⟨"d1", .dispatchFailed, [("error", .str "transient error"), ("attempt", .num 1), ("retry", .flag true)]⟩,
        ⟨"d1", .dispatchSucceeded, [("attempt", .num 2)]⟩} ∧
    s.state.db.timeline ≤ (s.hist.map eventOf).sum := by
  have hrun : ((machine {}).run (System.init {}) secondTime).map (fun s => s.state.db.timeline) = some
      {⟨"d1", .dispatchFailed, [("error", .str "transient error"), ("attempt", .num 1), ("retry", .flag true)]⟩,
        ⟨"d1", .dispatchSucceeded, [("attempt", .num 2)]⟩} := by
    decide +kernel
  obtain ⟨s, hs, htimeline⟩ := Option.map_eq_some_iff.mp hrun
  exact ⟨s, hs, htimeline, audit_never_overstates (Machine.reach_run hs)⟩

end GoCourier
