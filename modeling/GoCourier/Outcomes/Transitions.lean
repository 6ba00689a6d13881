import Mathlib.Algebra.Order.Group.Multiset
import GoCourier.Protocol.History
import GoCourier.Rows.Later

/- A delivery's transitions and what a dispatch writes of each. The row, the attempt and the
   audit event are three statements and no transaction, so between them a dispatch owes
   what it has not written yet, or is owed the row of an attempt it has recorded already.
   A call that is not cut off changes what is stored and what is owed by the same amount. -/
namespace GoCourier

open Interleave

/-- A write of a row: the status before and after, and the attempt that led to it where there is a provider. -/
structure Transition where
  before : Status
  after : Status
  attempt : Option Nat
  deriving DecidableEq, Repr

/-- The transition of `x` to succeeded, retrying or dlq that the step stores. -/
def transitions (p : Params) (x : String) (s : System) : Act → List Transition
  | .call t c => match s.threads t with
    | some ⟨_, _, .ask (.remote (.update d)) _⟩ =>
      if d.id = x ∧ c.Effective ∧ d.status ∈ [.succeeded, .retrying, .dlq] then
        ((s.state.db.row x).map fun r =>
          ⟨r.1, d.status, if d.channel ∈ p.providers then some d.attempted else none⟩).toList
      else []
    | _ => []
  | _ => []

/-- The attempt numbers stored for `x`. -/
def Tables.attemptNumbers (t : Tables) (x : String) : List Nat :=
  (t.attempts.filter (·.deliveryId = x)).map (·.attempt.attemptNumber)

def DomainEventType.isOutcome : DomainEventType → Bool
  | .dispatchSucceeded | .dispatchFailed | .movedToDLQ => true
  | _ => false

/-- The events of such transitions stored for `x`. -/
def Tables.outcomes (t : Tables) (x : String) : List DomainEventType :=
  (t.audit.filter fun r => r.deliveryId = x ∧ r.eventType.isOutcome).map (·.eventType)

/-- A dispatch of `x` has made the first of its writes. -/
def WorkerPhase.Begun (x : String) : WorkerPhase → Prop
  | .refused d _ noted => d.id = x ∧ noted = true
  | .settled d _ => d.id = x
  | _ => False

/-- A call made before the last write is. -/
def Op.Unwritten : Op → Prop
  | .remote (.update _) | .remote (.recordAttempt _ _) | .remote (.publish _ _ _) | .remote (.append _ _ _) => True
  | _ => False

/-- One of the writes of a dispatch of `x`; `last`: the event. -/
def Remote.Writes (x : String) : Remote → Bool → Prop
  | .update d, last => d.id = x ∧ last = false
  | .recordAttempt id _, last => id = x ∧ last = false
  | .append id _ _, last => id = x ∧ last = true
  | _, _ => False

/-- Thread `t` is a dispatch of `x` between its first write and its last. -/
def Writing (x : String) (s : System) (t : Nat) : Prop :=
  ∃ k φ op f, s.threads t = some ⟨k, .worker φ, .ask op f⟩ ∧ φ.Begun x ∧ op.Unwritten

/-- A dispatch of `x` is cut off between its writes: it crashes there, or one of them fails after
    the first, or its answer is lost before the last. -/
def Torn (x : String) (s : System) (l : Act) : Prop :=
  (∃ t, l = .crash t ∧ Writing x s t) ∨
    ∃ t c k φ q f last, l = .call t c ∧ s.threads t = some ⟨k, .worker φ, .ask (.remote q) f⟩ ∧ q.Writes x last ∧
      ((∃ msg, c = .fault msg) ∧ φ.Begun x ∨ (∃ msg, c = .lost msg) ∧ last = false)

/-! What a dispatch owes. -/

namespace WorkerPhase
variable (x : String)

/-- The attempt recorded before the row is written. -/
def early : WorkerPhase → Multiset Nat
  | .refused d _ true => if d.id = x then {d.retryCount + 1} else 0
  | _ => 0

/-- The attempt to be recorded after the row. -/
def due : WorkerPhase → Multiset Nat
  | .settled d false => if d.id = x ∧ d.status ≠ .dlq then {d.attempted} else 0
  | _ => 0

/-- The event to be appended. -/
def untold (told : Bool) : WorkerPhase → Multiset DomainEventType
  | .settled d _ => if d.id = x ∧ told = false then {d.status.event} else 0
  | _ => 0

end WorkerPhase

/-- The debts of a thread. -/
def earlyOf (x : String) : Option (Thread Op Ans Task Result Phase) → Multiset Nat
  | some ⟨_, .worker φ, _⟩ => φ.early x
  | _ => 0

def dueOf (x : String) : Option (Thread Op Ans Task Result Phase) → Multiset Nat
  | some ⟨_, .worker φ, _⟩ => φ.due x
  | _ => 0

def untoldOf (x : String) (told : Bool) : Option (Thread Op Ans Task Result Phase) → Multiset DomainEventType
  | some ⟨_, .worker φ, _⟩ => φ.untold x told
  | _ => 0

/-! The watch. -/

/-- What a dispatch's thread is held to by the bit that says its event is appended. -/
def TaskTellMay (p : Params) : Task → Phase × Bool → Op → Prop
  | .dispatch _ _, (.worker φ, told) => TellMay p φ told
  | .handle _ _ _ _, (.worker φ, told) => TellMay p φ told
  | _, _ => fun _ => True

def TaskWhole : Task → Phase × Bool → Result → Prop
  | .dispatch _ _, (.worker φ, told), _ => φ.Whole told
  | .handle _ _ _ _, (.worker φ, told), _ => φ.Whole told
  | _, _, _ => True

section
variable (p : Params)

theorem tell_obeyed (k : Task) : Obeys ⟨TaskTellMay p k, fun ψ op r => (Phase.next ψ.1 op r, tell ψ.2 op r), Seen⟩
    (program p k) (k.first, false) (TaskWhole k) := by
  cases k with
  | dispatch proc id =>
    exact (obeys_map ..).mpr (obeys_embed (fun ψ : WorkerPhase × Bool => (Phase.worker ψ.1, ψ.2)) (fun _ _ h => h)
      (fun _ _ _ => rfl) (fun _ _ h => h) (fun _ _ h => h) _ (.start, false) (tell_dispatch proc id))
  | handle proc i c m =>
    exact (obeys_map ..).mpr (obeys_embed (fun ψ : WorkerPhase × Bool => (Phase.worker ψ.1, ψ.2)) (fun _ _ h => h)
      (fun _ _ _ => rfl) (fun _ _ h => h) (fun _ _ h => h) _ (.start, false) (tell_consume proc i c m))
  | _ =>
    exact obeys_invariant (I := fun _ => True) (fun _ _ _ => trivial) (fun _ _ _ _ => trivial) (fun _ _ _ => trivial) _ _
      trivial

def tellWatch : Machine.Watch (protocol p) Bool where
  first := false
  grow := tell
  may := TaskTellMay p
  ends := TaskWhole
  obeyed := tell_obeyed p

end

/-! What the statements leave. -/

/-- The history of `x` in the tables. -/
def Tables.SameHistory (x : String) (t t' : Tables) : Prop :=
  t'.attemptNumbers x = t.attemptNumbers x ∧ t'.outcomes x = t.outcomes x

section
variable {p : Params} {w : World} {t t' : Tables} {x : String}

theorem attemptNumbers_congr (h : t'.attempts = t.attempts) : t'.attemptNumbers x = t.attemptNumbers x := by
  unfold Tables.attemptNumbers
  rw [h]

theorem outcomes_congr (h : t'.audit = t.audit) : t'.outcomes x = t.outcomes x := by
  unfold Tables.outcomes
  rw [h]

theorem sameHistory_of_eq (ha : t'.attempts = t.attempts) (he : t'.audit = t.audit) : t.SameHistory x t' :=
  ⟨attemptNumbers_congr ha, outcomes_congr he⟩

theorem update_sameHistory (t : Tables) (d : Delivery) (x : String) : t.SameHistory x (t.update d) := by
  unfold Tables.update
  split
  · exact sameHistory_of_eq rfl rfl
  · exact ⟨rfl, rfl⟩

theorem outcomes_append (t : Tables) {r : AuditRow} (h : ¬ (r.deliveryId = x ∧ r.eventType.isOutcome = true)) :
    ({ t with audit := t.audit ++ [r] } : Tables).outcomes x = t.outcomes x := by
  simp only [Tables.outcomes, List.filter_append, List.filter_singleton, h, decide_false, cond_false, List.append_nil]

/-- A statement that stores neither an attempt of `x` nor an outcome of it. -/
theorem exec_sameHistory (p : Params) (w : World) {q : Remote} (ha : ∀ a, q ≠ .recordAttempt x a)
    (he : ∀ ev payload, q = .append x ev payload → ev.isOutcome = false) : w.db.SameHistory x (exec p w q).2.db := by
  cases q with
  | update d => exact update_sameHistory w.db d x
  | updateIfStatus d st =>
    exact Tables.updateIfStatus_keeps (P := fun t => w.db.SameHistory x t) ⟨rfl, rfl⟩ (update_sameHistory w.db d x) st
  | recordAttempt id a =>
    refine store_keeps (P := fun t => w.db.SameHistory x t) ⟨rfl, rfl⟩ fun t ht => ?_
    have hid : id ≠ x := fun h => ha a (by rw [h])
    rw [Tables.recordAttempt_ok ht]
    refine ⟨?_, outcomes_congr rfl⟩
    simp [Tables.attemptNumbers, hid]
  | ingestTransactional d exp subject payload headers schedule =>
    refine store_keeps (P := fun t => w.db.SameHistory x t) ⟨rfl, rfl⟩ fun t ht => ?_
    rw [Tables.ingestTransactional_work ht]
    exact ⟨attemptNumbers_congr (Tables.registered_attempts ..),
      outcomes_append w.db (r := ⟨⟨d.id, .received, []⟩, w.clock⟩) nofun⟩
  | enqueue id subject payload headers =>
    refine store_keeps (P := fun t => w.db.SameHistory x t) ⟨rfl, rfl⟩ fun t ht => ?_
    rw [(Tables.enqueue_ok ht).2]
    exact sameHistory_of_eq rfl rfl
  | append id ev payload =>
    refine store_keeps (P := fun t => w.db.SameHistory x t) ⟨rfl, rfl⟩ fun t ht => ?_
    rw [(Tables.append_ok ht).2]
    refine ⟨attemptNumbers_congr rfl, outcomes_append w.db fun h => ?_⟩
    have hid : id = x := h.1
    subst hid
    rw [he ev payload rfl] at h
    cases h.2
  | publish subject body headers =>
    have hdb : (exec p w (.publish subject body headers)).2.db = w.db := publish_db p w _
    rw [hdb]
    exact ⟨rfl, rfl⟩
  | _ => exact ⟨rfl, rfl⟩

/-- The attempt of a stored delivery is recorded. -/
theorem exec_recordAttempt (p : Params) (h : w.db.row x ≠ none) (a : Attempt) :
    ∃ w', exec p w (.recordAttempt x a) = (.ok (), w') ∧
      w'.db.attemptNumbers x = w.db.attemptNumbers x ++ [a.attemptNumber] ∧ w'.db.outcomes x = w.db.outcomes x := by
  obtain ⟨r, hr⟩ := Option.ne_none_iff_exists'.mp (mt Option.map_eq_none_iff.mpr h)
  have hok := Tables.recordAttempt_stored hr a
  refine ⟨{ w with db := { w.db with attempts := w.db.attempts ++ [⟨x, a⟩] } }, ?_, ?_, outcomes_congr rfl⟩
  · rw [exec, hok]
    rfl
  · simp [Tables.attemptNumbers]

/-- The outcome of a stored delivery is appended. -/
theorem exec_append (p : Params) (h : w.db.row x ≠ none) {ev : DomainEventType} (hev : ev.isOutcome = true)
    (payload : AuditPayload) :
    ∃ w', exec p w (.append x ev payload) = (.ok (), w') ∧
      w'.db.attemptNumbers x = w.db.attemptNumbers x ∧ w'.db.outcomes x = w.db.outcomes x ++ [ev] := by
  obtain ⟨r, hr⟩ := Option.ne_none_iff_exists'.mp (mt Option.map_eq_none_iff.mpr h)
  have hok := Tables.append_stored hr w.clock ev payload
  refine ⟨{ w with db := { w.db with audit := w.db.audit ++ [⟨⟨x, ev, payload⟩, w.clock⟩] } }, ?_,
    attemptNumbers_congr rfl, ?_⟩
  · rw [exec, hok]
    rfl
  · simp [Tables.outcomes, hev]

theorem event_isOutcome (st : Status) : st.event.isOutcome = true := by
  cases st <;> rfl

end

/-! One call of a dispatch. -/

/-- What the phase of a dispatch says of its delivery: it is stored, an attempt is made through a
    provider, and the event is appended after the attempt is recorded. -/
def WorkerPhase.Placed (p : Params) (x : String) (t : Tables) (told : Bool) : WorkerPhase → Prop
  | .snap d => d.id = x → t.row x ≠ none
  | .owned d => d.id = x → t.row x ≠ none
  | .refused d _ _ => d.channel ∈ p.providers ∧ (d.id = x → t.row x ≠ none)
  | .accepted d => d.channel ∈ p.providers ∧ (d.id = x → t.row x ≠ none)
  | .settled d noted => (told = true → noted = true ∨ d.status = .dlq) ∧ (d.id = x → t.row x ≠ none)
  | _ => True

section
variable {p : Params} {s : System} {x : String} {t : Nat} {c : Choice} {k : Task} {op : Op}
  {f : Ans op → CallTree Op Ans Result} {r : Ans op} {w : World}

theorem answered_sameHistory (h : Answered p s.state op c r w) (ha : ∀ a, op ≠ .remote (.recordAttempt x a))
    (he : ∀ ev payload, op = .remote (.append x ev payload) → ev.isOutcome = false) :
    s.state.db.SameHistory x w.db := by
  rcases answered_db h with hdb | ⟨q, rfl, -, hdb⟩
  · rw [hdb]
    exact ⟨rfl, rfl⟩
  · rw [hdb]
    exact exec_sameHistory p s.state (fun a hq => ha a (by rw [hq])) fun ev payload hq => he ev payload (by rw [hq])

theorem transitions_other {φ : Phase} (h : s.threads t = some ⟨k, φ, .ask op f⟩) (hop : ∀ d, op ≠ .remote (.update d)) :
    transitions p x s (.call t c) = [] := by
  cases op with
  | remote q =>
    cases q with
    | update d => exact absurd rfl (hop d)
    | _ => simp only [transitions, h]
  | _ => simp only [transitions, h]

/-- A write of another delivery, or of another status. -/
theorem transitions_none {φ : Phase} {d : Delivery} {f : Ans (.remote (.update d)) → CallTree Op Ans Result}
    (h : s.threads t = some ⟨k, φ, .ask (.remote (.update d)) f⟩)
    (hno : d.id = x → d.status ∈ [.succeeded, .retrying, .dlq] → ¬ c.Effective) :
    transitions p x s (.call t c) = [] := by
  simp only [transitions, h]
  exact if_neg fun hpos => hno hpos.1 hpos.2.2 hpos.2.1

theorem transitions_some {φ : Phase} {d : Delivery} {f : Ans (.remote (.update d)) → CallTree Op Ans Result}
    (h : s.threads t = some ⟨k, φ, .ask (.remote (.update d)) f⟩) (hx : d.id = x) (hc : c.Effective)
    (hst : d.status ∈ [.succeeded, .retrying, .dlq]) {st : Status} {n : Nat} (hrow : s.state.db.row x = some (st, n)) :
    transitions p x s (.call t c) = [⟨st, d.status, if d.channel ∈ p.providers then some d.attempted else none⟩] := by
  simp only [transitions, h]
  rw [if_pos ⟨hx, hc, hst⟩, hrow]
  rfl

/-- The books of `x` before and after a call of a dispatch. -/
def Balanced (p : Params) (x : String) (s : System) (l : Act) (w : World) (ψ φ : WorkerPhase) (told told' : Bool) : Prop :=
  ((w.db.attemptNumbers x : List Nat) : Multiset Nat) + φ.due x + ψ.early x =
      (s.state.db.attemptNumbers x : List Nat) + ((transitions p x s l).filterMap (·.attempt) : List Nat) + φ.early x +
        ψ.due x ∧
    ((w.db.outcomes x : List DomainEventType) : Multiset DomainEventType) + φ.untold x told' =
      (s.state.db.outcomes x : List DomainEventType) + ((transitions p x s l).map (·.after.event) : List DomainEventType) +
        ψ.untold x told

/-- A call that stores nothing and owes what was owed before. -/
theorem balanced_quiet {l : Act} {ψ φ : WorkerPhase} {told told' : Bool} (hdb : s.state.db.SameHistory x w.db)
    (hnone : transitions p x s l = []) (hearly : φ.early x = ψ.early x) (hdue : φ.due x = ψ.due x)
    (huntold : φ.untold x told' = ψ.untold x told) : Balanced p x s l w ψ φ told told' := by
  unfold Balanced
  rw [hdb.1, hdb.2, hnone, hearly, hdue, huntold, List.filterMap_nil, List.map_nil, Multiset.coe_nil, Multiset.coe_nil,
    add_zero, add_zero]
  exact ⟨add_right_comm _ _ _, rfl⟩

theorem untold_settled_none {d : Delivery} {noted told : Bool} (h : ¬ (d.id = x ∧ told = false)) :
    (WorkerPhase.settled d noted).untold x told = 0 := by
  rw [WorkerPhase.untold]
  exact if_neg h

/-- A dispatch whose writes are whole owes nothing. -/
theorem nothing_owed {ψ : WorkerPhase} {told : Bool} {T : Tables} (hplaced : ψ.Placed p x T told)
    (hwhole : ψ.Whole told) : ψ.early x = 0 ∧ ψ.due x = 0 ∧ ψ.untold x told = 0 := by
  cases ψ with
  | refused d e noted =>
    have hnoted : noted = false := hwhole
    subst hnoted
    exact ⟨rfl, rfl, rfl⟩
  | settled d noted =>
    have htold : told = true := hwhole
    subst htold
    refine ⟨rfl, ?_, untold_settled_none fun h => by cases h.2⟩
    rcases hplaced.1 rfl with rfl | hdlq
    · rfl
    · cases noted with
      | true => rfl
      | false => exact if_neg fun h => h.2 hdlq
  | _ => exact ⟨rfl, rfl, rfl⟩

/-- The write that ends a dispatch's hold on the row. -/
theorem settled_balanced {ψ : WorkerPhase} {d : Delivery} {told : Bool}
    {f : Ans (.remote (.update d)) → CallTree Op Ans Result}
    (hth : s.threads t = some ⟨k, .worker ψ, .ask (.remote (.update d)) f⟩) (hrun : exec p s.state (.update d) = (.ok (), w))
    (settles : Settles p ψ d) (hplaced : ψ.Placed p x s.state.db told) :
    Balanced p x s (.call t .run) w ψ (ψ.settle d) false false := by
  have hdb : s.state.db.SameHistory x w.db := by
    have hsame := exec_sameHistory p s.state (x := x) (q := .update d) nofun nofun
    rwa [hrun] at hsame
  by_cases hx : d.id = x
  · have hrow : s.state.db.row x ≠ none := by
      cases settles with
      | noProvider absent moved => exact hplaced (moved.id.symm.trans hx)
      | gaveUp out moved => exact hplaced.2 (moved.id.symm.trans hx)
      | retry more moved => exact hplaced.2 (moved.id.symm.trans hx)
      | success moved => exact hplaced.2 (moved.id.symm.trans hx)
    obtain ⟨⟨st, n⟩, hrow⟩ := Option.ne_none_iff_exists'.mp hrow
    have hst : d.status ∈ [.succeeded, .retrying, .dlq] := by
      cases settles with
      | noProvider absent moved => simp [moved.status]
      | gaveUp out moved => simp [moved.status]
      | retry more moved => simp [moved.status]
      | success moved => simp [moved.status]
    have htrans := transitions_some (p := p) (c := .run) hth hx trivial hst hrow
    unfold Balanced
    rw [hdb.1, hdb.2, htrans]
    cases settles with
    | @noProvider d₀ _ absent moved =>
      have hch : d.channel ∉ p.providers := by rwa [moved.channel]
      simp [WorkerPhase.settle, WorkerPhase.due, WorkerPhase.early, WorkerPhase.untold, hx, moved.status, hch]
    | @gaveUp d₀ _ e out moved =>
      have hch : d.channel ∈ p.providers := by
        rw [moved.channel]
        exact hplaced.1
      have hid : d₀.id = x := moved.id.symm.trans hx
      simp [WorkerPhase.settle, WorkerPhase.due, WorkerPhase.early, WorkerPhase.untold, Delivery.attempted, hx, hid,
        moved.status, moved.count, hch]
    | @retry d₀ _ e more moved =>
      have hch : d.channel ∈ p.providers := by
        rw [moved.channel]
        exact hplaced.1
      simp [WorkerPhase.settle, WorkerPhase.due, WorkerPhase.early, WorkerPhase.untold, Delivery.attempted, hx,
        moved.status, moved.count, hch]
    | @success d₀ _ moved =>
      have hch : d.channel ∈ p.providers := by
        rw [moved.channel]
        exact hplaced.1
      simp [WorkerPhase.settle, WorkerPhase.due, WorkerPhase.early, WorkerPhase.untold, Delivery.attempted, hx,
        moved.status, moved.count, hch]
  · have hnone : transitions p x s (.call t .run) = [] := transitions_none hth fun hid => absurd hid hx
    apply balanced_quiet hdb hnone
    · cases settles with
      | gaveUp out moved => exact (if_neg fun hid => hx (moved.id.trans hid)).symm
      | _ => rfl
    · cases settles with
      | gaveUp out moved => rfl
      | _ => exact if_neg fun hpos : d.id = x ∧ d.status ≠ .dlq => hx hpos.1
    · cases settles <;> exact if_neg fun hpos : d.id = x ∧ false = false => hx hpos.1

/-- The attempt is recorded, before the row or after it. -/
theorem recorded_balanced {ψ : WorkerPhase} {id : String} {a : Attempt} {told : Bool}
    {f : Ans (.remote (.recordAttempt id a)) → CallTree Op Ans Result}
    (hth : s.threads t = some ⟨k, .worker ψ, .ask (.remote (.recordAttempt id a)) f⟩)
    (hrun : exec p s.state (.recordAttempt id a) = (.ok (), w)) (records : Records p ψ id a)
    (hplaced : ψ.Placed p x s.state.db told) : Balanced p x s (.call t .run) w ψ ψ.note told told := by
  have htrans : transitions p x s (.call t .run) = [] := transitions_other hth fun _ h => by cases h
  by_cases hx : id = x
  · subst hx
    have hrow : s.state.db.row id ≠ none := by
      cases records with
      | gaveUp out number => exact hplaced.2 rfl
      | retry status number => exact hplaced.2 rfl
      | success status number => exact hplaced.2 rfl
    obtain ⟨w', hrun', hnum, hout⟩ := exec_recordAttempt p hrow a
    obtain rfl : w = w' := congrArg Prod.snd (hrun.symm.trans hrun')
    unfold Balanced
    rw [hnum, hout, htrans, ← Multiset.coe_add, Multiset.coe_singleton]
    cases records with
    | @gaveUp d e a out number => simp [WorkerPhase.note, WorkerPhase.due, WorkerPhase.early, WorkerPhase.untold, number]
    | @retry d a status number =>
      simp [WorkerPhase.note, WorkerPhase.due, WorkerPhase.early, WorkerPhase.untold, Delivery.attempted, number, status]
    | @success d a status number =>
      simp [WorkerPhase.note, WorkerPhase.due, WorkerPhase.early, WorkerPhase.untold, Delivery.attempted, number, status]
  · have hdb : s.state.db.SameHistory x w.db := by
      have hsame := exec_sameHistory p s.state (x := x) (q := .recordAttempt id a)
        (fun b hq => hx (by cases hq; rfl)) (fun _ _ hq => by cases hq)
      rwa [hrun] at hsame
    apply balanced_quiet hdb htrans
    · cases records with
      | gaveUp out number => exact if_neg hx
      | _ => rfl
    · cases records with
      | @gaveUp d e a out number => rfl
      | @retry d a status number => exact (if_neg fun hpos : d.id = x ∧ d.status ≠ .dlq => hx hpos.1).symm
      | @success d a status number => exact (if_neg fun hpos : d.id = x ∧ d.status ≠ .dlq => hx hpos.1).symm
    · cases records <;> rfl

/-- The event is appended, and with it the dispatch has paid. -/
theorem appended_balanced {d : Delivery} {noted : Bool} {payload : AuditPayload} {φ : WorkerPhase} {told : Bool}
    {f : Ans (.remote (.append d.id d.status.event payload)) → CallTree Op Ans Result}
    (hth : s.threads t = some ⟨k, .worker (.settled d noted), .ask (.remote (.append d.id d.status.event payload)) f⟩)
    (hplaced : (WorkerPhase.settled d noted).Placed p x s.state.db false) (hnoted : noted = true ∨ d.status = .dlq)
    (hφ : φ.early x = 0 ∧ φ.due x = 0 ∧ φ.untold x told = 0) :
    Balanced p x s (.call t c) (exec p s.state (.append d.id d.status.event payload)).2 (.settled d noted) φ false
      told := by
  have htrans : transitions p x s (.call t c) = [] := transitions_other hth fun _ h => by cases h
  have hdue : (WorkerPhase.settled d noted).due x = 0 := by
    cases noted with
    | true => rfl
    | false =>
      rcases hnoted with hnoted | hdlq
      · cases hnoted
      · exact if_neg fun hpos => hpos.2 hdlq
  by_cases hx : d.id = x
  · subst hx
    obtain ⟨w', hrun, hnum, hout⟩ := exec_append p (hplaced.2 rfl) (event_isOutcome d.status) payload
    unfold Balanced
    rw [hrun, hnum, hout, htrans, hφ.1, hφ.2.1, hφ.2.2, hdue, ← Multiset.coe_add, Multiset.coe_singleton]
    simp [WorkerPhase.early, WorkerPhase.untold]
  · have hdb := exec_sameHistory p s.state (x := x) (q := .append d.id d.status.event payload) nofun
      fun ev pl hq => absurd (by cases hq; rfl) hx
    apply balanced_quiet hdb htrans
    · rw [hφ.1]
      rfl
    · rw [hφ.2.1, hdue]
    · rw [hφ.2.2]
      exact (if_neg fun hpos : d.id = x ∧ false = false => hx hpos.1).symm

/-- A statement whose answer is an error has failed, unless it ran and was refused. -/
theorem answered_error {q : Remote} {e : Err} (h : Answered p s.state (.remote q) c (.error e) w) :
    (∃ msg, c = .fault msg) ∧ w = s.state ∨ (∃ msg, c = .lost msg) ∧ w = (exec p s.state q).2 ∨
      c = .run ∧ exec p s.state q = (.error e, w) := by
  generalize hr : (Except.error e : Except Err (Reply q)) = r at h ⊢
  cases h with
  | ran q => exact .inr (.inr ⟨rfl, rfl⟩)
  | fault q msg => exact .inl ⟨⟨msg, rfl⟩, rfl⟩
  | lost q msg => exact .inr (.inl ⟨⟨msg, rfl⟩, rfl⟩)

/-- A call that is none of the writes. -/
theorem quiet_call {φ : Phase} (hth : s.threads t = some ⟨k, φ, .ask op f⟩) (hans : Answered p s.state op c r w)
    (hop : ¬ op.Unwritten) : s.state.db.SameHistory x w.db ∧ transitions p x s (.call t c) = [] := by
  constructor
  · apply answered_sameHistory hans
    · intro a hq
      subst hq
      exact absurd trivial hop
    · intro ev payload hq
      subst hq
      exact absurd trivial hop
  · apply transitions_other hth
    intro d hq
    subst hq
    exact hop trivial

theorem transitions_fault {msg : String} : transitions p x s (.call t (.fault msg)) = [] := by
  unfold transitions
  simp only []
  split
  · exact if_neg fun hpos => hpos.2.1
  · rfl

/-- A dispatch of another delivery owes nothing of this one. -/
theorem nothing_owed_elsewhere {ψ : WorkerPhase} (told : Bool) (h : ψ.About (· ≠ x)) :
    ψ.early x = 0 ∧ ψ.due x = 0 ∧ ψ.untold x told = 0 := by
  cases ψ with
  | refused d e noted =>
    cases noted with
    | true => exact ⟨if_neg h, rfl, rfl⟩
    | false => exact ⟨rfl, rfl, rfl⟩
  | settled d noted =>
    refine ⟨rfl, ?_, untold_settled_none fun hpos => h hpos.1⟩
    cases noted with
    | true => rfl
    | false => exact if_neg fun hpos => h hpos.1
  | _ => exact ⟨rfl, rfl, rfl⟩

/-- The first write of a dispatch fails. -/
theorem failed_balanced {ψ : WorkerPhase} {q : Remote} {e : Err} {told told' : Bool}
    {f : Ans (.remote q) → CallTree Op Ans Result} (hth : s.threads t = some ⟨k, .worker ψ, .ask (.remote q) f⟩)
    (hans : Answered p s.state (.remote q) c (.error e) w) (hrun : (exec p s.state q).1 ≠ .error e)
    (hwrites : q.Writes x false) (hwhole : ¬ Torn x s (.call t c))
    (howed : ¬ ψ.Begun x → ψ.early x = 0 ∧ ψ.due x = 0 ∧ ψ.untold x told = 0) :
    Balanced p x s (.call t c) w ψ .failed told told' := by
  rcases answered_error hans with ⟨⟨msg, rfl⟩, hw⟩ | ⟨⟨msg, rfl⟩, -⟩ | ⟨-, hfail⟩
  · have hfirst : ¬ ψ.Begun x := fun hbegun =>
      hwhole (.inr ⟨t, _, k, ψ, q, f, false, rfl, hth, hwrites, .inl ⟨⟨msg, rfl⟩, hbegun⟩⟩)
    obtain ⟨hearly, hdue, huntold⟩ := howed hfirst
    have hdb : s.state.db.SameHistory x w.db := by
      rw [hw]
      exact ⟨rfl, rfl⟩
    exact balanced_quiet hdb transitions_fault hearly.symm hdue.symm huntold.symm
  · exact absurd (.inr ⟨t, _, k, ψ, q, f, false, rfl, hth, hwrites, .inr ⟨⟨msg, rfl⟩, rfl⟩⟩) hwhole
  · exact absurd (congrArg Prod.fst hfail) hrun

theorem unsettled_balanced {ψ : WorkerPhase} {d : Delivery} {e : Err} {told told' : Bool}
    {f : Ans (.remote (.update d)) → CallTree Op Ans Result}
    (hth : s.threads t = some ⟨k, .worker ψ, .ask (.remote (.update d)) f⟩)
    (hans : Answered p s.state (.remote (.update d)) c (.error e) w) (settles : Settles p ψ d)
    (hwhole : ¬ Torn x s (.call t c)) : Balanced p x s (.call t c) w ψ .failed told told' := by
  by_cases hx : d.id = x
  · apply failed_balanced hth hans (fun hrun => by cases hrun) ⟨hx, rfl⟩ hwhole
    intro hfirst
    cases settles with
    | gaveUp out moved => exact absurd ⟨moved.id.symm.trans hx, rfl⟩ hfirst
    | _ => exact ⟨rfl, rfl, rfl⟩
  · have habout : ψ.About (· ≠ x) := by
      cases settles with
      | noProvider absent moved => exact fun hid => hx (moved.id.trans hid)
      | gaveUp out moved => exact fun hid => hx (moved.id.trans hid)
      | retry more moved => exact fun hid => hx (moved.id.trans hid)
      | success moved => exact fun hid => hx (moved.id.trans hid)
    obtain ⟨hearly, hdue, huntold⟩ := nothing_owed_elsewhere told habout
    have hnone : transitions p x s (.call t c) = [] := transitions_none hth fun hid => absurd hid hx
    exact balanced_quiet (answered_sameHistory hans (fun _ h => by cases h) fun _ _ h => by cases h) hnone
      hearly.symm hdue.symm huntold.symm

theorem unrecorded_balanced {ψ : WorkerPhase} {id : String} {a : Attempt} {e : Err} {told told' : Bool}
    {f : Ans (.remote (.recordAttempt id a)) → CallTree Op Ans Result}
    (hth : s.threads t = some ⟨k, .worker ψ, .ask (.remote (.recordAttempt id a)) f⟩)
    (hans : Answered p s.state (.remote (.recordAttempt id a)) c (.error e) w) (records : Records p ψ id a)
    (hplaced : ψ.Placed p x s.state.db told) (hwhole : ¬ Torn x s (.call t c)) :
    Balanced p x s (.call t c) w ψ .failed told told' := by
  by_cases hx : id = x
  · have hrow : s.state.db.row x ≠ none := by
      cases records <;> exact hplaced.2 hx
    obtain ⟨w', hrun, -⟩ := exec_recordAttempt p hrow a
    subst hx
    apply failed_balanced hth hans (fun hfail => by rw [hrun] at hfail; cases hfail) ⟨rfl, rfl⟩ hwhole
    intro hfirst
    cases records with
    | gaveUp out number => exact ⟨rfl, rfl, rfl⟩
    | retry status number => exact absurd rfl hfirst
    | success status number => exact absurd rfl hfirst
  · have habout : ψ.About (· ≠ x) := by
      cases records <;> exact hx
    obtain ⟨hearly, hdue, huntold⟩ := nothing_owed_elsewhere told habout
    have hdb : s.state.db.SameHistory x w.db := by
      apply answered_sameHistory hans
      · intro b hq
        cases hq
        exact hx rfl
      · intro ev payload hq
        cases hq
    exact balanced_quiet hdb (transitions_other hth fun _ h => by cases h) hearly.symm hdue.symm huntold.symm

theorem unappended_balanced {d : Delivery} {noted told' : Bool} {payload : AuditPayload} {e : Err}
    {f : Ans (.remote (.append d.id d.status.event payload)) → CallTree Op Ans Result}
    (hth : s.threads t = some ⟨k, .worker (.settled d noted), .ask (.remote (.append d.id d.status.event payload)) f⟩)
    (hans : Answered p s.state (.remote (.append d.id d.status.event payload)) c (.error e) w)
    (hplaced : (WorkerPhase.settled d noted).Placed p x s.state.db false) (hnoted : noted = true ∨ d.status = .dlq)
    (hwhole : ¬ Torn x s (.call t c)) : Balanced p x s (.call t c) w (.settled d noted) .failed false told' := by
  by_cases hx : d.id = x
  · rcases answered_error hans with ⟨⟨msg, rfl⟩, -⟩ | ⟨⟨msg, rfl⟩, hw⟩ | ⟨-, hfail⟩
    · exact absurd (.inr ⟨t, _, k, _, _, f, true, rfl, hth, ⟨hx, rfl⟩, .inl ⟨⟨msg, rfl⟩, hx⟩⟩) hwhole
    · -- the event is there, and nobody knows
      rw [hw]
      exact appended_balanced hth hplaced hnoted ⟨rfl, rfl, rfl⟩
    · subst hx
      obtain ⟨w', hrun, -⟩ := exec_append p (hplaced.2 rfl) (event_isOutcome d.status) payload
      rw [hrun] at hfail
      cases congrArg Prod.fst hfail
  · obtain ⟨hearly, hdue, huntold⟩ := nothing_owed_elsewhere false
      (show (WorkerPhase.settled d noted).About (· ≠ x) from hx)
    have hdb : s.state.db.SameHistory x w.db := by
      apply answered_sameHistory hans
      · intro b hq
        cases hq
      · intro ev pl hq
        cases hq
        exact absurd rfl hx
    exact balanced_quiet hdb (transitions_other hth fun _ h => by cases h) hearly.symm hdue.symm huntold.symm

/-- One call of a dispatch that is not cut off. -/
theorem worker_balanced {ψ φ : WorkerPhase} {told : Bool}
    (hth : s.threads t = some ⟨k, .worker ψ, .ask op f⟩) (hans : Answered p s.state op c r w)
    (hmoves : WorkerMoves p k.Target k.Copies ψ op r φ) (hmay : TellMay p ψ told op)
    (hplaced : ψ.Placed p x s.state.db told) (hwhole : ¬ Torn x s (.call t c)) :
    Balanced p x s (.call t c) w ψ φ told (tell told op r) := by
  cases hmoves with
  | settled settles u =>
    have htold : told = false := hmay
    subst htold
    obtain ⟨rfl, hrun⟩ := answered_ok hans
    exact settled_balanced hth hrun settles hplaced
  | recorded records u =>
    obtain ⟨rfl, hrun⟩ := answered_ok hans
    exact recorded_balanced hth hrun records hplaced
  | @appended d noted ev new payload u =>
    obtain ⟨rfl, d', noted', hφ, rfl, hnoted⟩ := hmay
    cases hφ
    obtain ⟨rfl, hrun⟩ := answered_ok hans
    have hpaid : (WorkerPhase.settled d noted).Placed p x s.state.db true := ⟨fun _ => hnoted, hplaced.2⟩
    have hbal := appended_balanced (c := .run) hth hplaced hnoted (nothing_owed hpaid rfl)
    rwa [hrun] at hbal
  | unsettled settles e => exact unsettled_balanced hth hans settles hwhole
  | unrecorded records e => exact unrecorded_balanced hth hans records hplaced hwhole
  | @unappended d noted ev new payload e =>
    obtain ⟨rfl, d', noted', hφ, rfl, hnoted⟩ := hmay
    cases hφ
    exact unappended_balanced hth hans hplaced hnoted hwhole
  | acked own quiet u =>
    obtain ⟨hdb, hnone⟩ := quiet_call (x := x) hth hans id
    obtain ⟨hearly, hdue, huntold⟩ := nothing_owed hplaced hmay
    exact balanced_quiet hdb hnone hearly.symm hdue.symm huntold.symm
  | nakked own loud u =>
    obtain ⟨hdb, hnone⟩ := quiet_call (x := x) hth hans id
    obtain ⟨hearly, hdue, huntold⟩ := nothing_owed hplaced hmay
    exact balanced_quiet hdb hnone hearly.symm hdue.symm huntold.symm
  | published noted dead r =>
    have hdb : s.state.db.SameHistory x w.db :=
      answered_sameHistory hans (fun _ h => by cases h) fun _ _ h => by cases h
    exact balanced_quiet hdb (transitions_other hth fun _ h => by cases h) rfl rfl rfl
  | _ =>
    obtain ⟨hdb, hnone⟩ := quiet_call (x := x) hth hans id
    exact balanced_quiet hdb hnone rfl rfl rfl

/-- What a dispatch's phase says of its delivery stays true, as what is stored stays so. -/
theorem placed_mono {ψ : WorkerPhase} {told : Bool} {T T' : Tables} (h : ψ.Placed p x T told)
    (hrow : T.row x ≠ none → T'.row x ≠ none) : ψ.Placed p x T' told := by
  cases ψ with
  | snap d => exact fun hx => hrow (h hx)
  | owned d => exact fun hx => hrow (h hx)
  | refused d e noted => exact ⟨h.1, fun hx => hrow (h.2 hx)⟩
  | accepted d => exact ⟨h.1, fun hx => hrow (h.2 hx)⟩
  | settled d noted => exact ⟨h.1, fun hx => hrow (h.2 hx)⟩
  | _ => trivial

theorem placed_called {ψ φ : WorkerPhase} {told : Bool} (hans : Answered p s.state op c r w)
    (hmoves : WorkerMoves p k.Target k.Copies ψ op r φ) (hmay : TellMay p ψ told op)
    (hrow : s.state.db.row x ≠ none → w.db.row x ≠ none) (hplaced : ψ.Placed p x s.state.db told) :
    φ.Placed p x w.db (tell told op r) := by
  cases hmoves with
  | @found id about d =>
    intro hx
    obtain ⟨-, hexec⟩ := answered_ok hans
    have hfound : s.state.db.findByID id = .ok d := congrArg Prod.fst hexec
    obtain ⟨hid, hr⟩ := Tables.findByID_ok hfound
    apply hrow
    rw [← hx, hid, hr]
    exact nofun
  | claimed takeable taken =>
    subst taken
    exact fun hx => hrow (hplaced hx)
  | blocked d proc e => exact ⟨hmay, fun hx => hrow (hplaced hx)⟩
  | accepted present res => exact ⟨present, fun hx => hrow (hplaced hx)⟩
  | rejected present e => exact ⟨present, fun hx => hrow (hplaced hx)⟩
  | settled settles u =>
    have htold : told = false := hmay
    subst htold
    cases settles with
    | noProvider absent moved => exact ⟨nofun, fun hx => hrow (hplaced (moved.id.symm.trans hx))⟩
    | gaveUp out moved => exact ⟨nofun, fun hx => hrow (hplaced.2 (moved.id.symm.trans hx))⟩
    | retry more moved => exact ⟨nofun, fun hx => hrow (hplaced.2 (moved.id.symm.trans hx))⟩
    | success moved => exact ⟨nofun, fun hx => hrow (hplaced.2 (moved.id.symm.trans hx))⟩
  | recorded records u =>
    cases records with
    | gaveUp out number => exact ⟨hplaced.1, fun hx => hrow (hplaced.2 hx)⟩
    | retry status number => exact ⟨fun _ => .inl rfl, fun hx => hrow (hplaced.2 hx)⟩
    | success status number => exact ⟨fun _ => .inl rfl, fun hx => hrow (hplaced.2 hx)⟩
  | appended d noted new payload u =>
    obtain ⟨-, d', noted', hφ, -, hnoted⟩ := hmay
    cases hφ
    exact ⟨fun _ => hnoted, fun hx => hrow (hplaced.2 hx)⟩
  | clock => exact placed_mono hplaced hrow
  | uuid => exact placed_mono hplaced hrow
  | jitter => exact placed_mono hplaced hrow
  | admitted d proc u => exact placed_mono hplaced hrow
  | failure d e proc u => exact placed_mono hplaced hrow
  | success d proc u => exact placed_mono hplaced hrow
  | published noted dead r => exact placed_mono hplaced hrow
  | _ => trivial

end

end GoCourier
