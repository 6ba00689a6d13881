import GoCourier.Registry.Ids

/- What is on file about each delivery. Its ingest leaves one received event, and one
   row of work: to be scheduled, or to be published. Nobody adds another received
   event, and nobody but the scheduler adds another row of work. -/
namespace GoCourier

open Interleave

namespace Tables

/-- The received events of a delivery. -/
def received (t : Tables) (x : String) : Nat := t.audit.countP fun e => e.deliveryId = x ∧ e.eventType = .received

/-- Its rows of work, scheduled and to be published. -/
def work (t : Tables) (x : String) : Nat :=
  t.scheduled.countP (·.deliveryId = x) + t.outbox.countP (·.deliveryId = x)

/-- Every stored delivery has its one event and its one row of work on file. -/
def Filed (t : Tables) : Prop := ∀ x, t.owner x ≠ none → t.received x = 1 ∧ t.work x = 1

variable {t t' : Tables}

theorem filed_congr (h : t.Filed) (ho : t'.owner = t.owner) (hr : t'.received = t.received) (hw : t'.work = t.work) :
    t'.Filed := by
  intro x hx
  rw [hr, hw]
  exact h x (ho ▸ hx)

/-- Nothing is on file about a delivery that is not stored. -/
theorem unfiled (h : t.Linked) {x : String} (hx : t.owner x = none) : t.received x = 0 ∧ t.work x = 0 := by
  refine ⟨List.countP_eq_zero.mpr fun e he hex => ?_, Nat.add_eq_zero_iff.mpr
    ⟨List.countP_eq_zero.mpr fun r hr hrx => ?_, List.countP_eq_zero.mpr fun r hr hrx => ?_⟩⟩
  · obtain ⟨rfl, -⟩ := of_decide_eq_true hex
    exact h.audit e he hx
  · obtain rfl := of_decide_eq_true hrx
    exact h.scheduled r hr hx
  · obtain rfl := of_decide_eq_true hrx
    exact h.outbox r hr hx

theorem received_append {now : Time} {id : String} {ev : DomainEventType} {payload : AuditPayload} (hev : ev ≠ .received)
    (h : t.append now id ev payload = .ok t') : t'.received = t.received ∧ t'.work = t.work := by
  obtain ⟨-, rfl⟩ := append_ok h
  refine ⟨funext fun x => ?_, rfl⟩
  unfold received
  rw [List.countP_append, List.countP_singleton, if_neg (by simp [hev])]
  rfl

theorem work_setOutbox (t : Tables) (id : Nat) {f : OutboxRow → OutboxRow} (hf : ∀ r, (f r).deliveryId = r.deliveryId) :
    (t.setOutbox id f).work = t.work := by
  funext x
  unfold work setOutbox
  rw [List.countP_map]
  congr 2
  funext r
  simp only [Function.comp_apply]
  split
  · rw [hf]
  · rfl

theorem work_markProcessed (t : Tables) (id : String) : (t.markProcessed id).work = t.work := by
  funext x
  unfold work markProcessed
  rw [List.countP_map]
  congr 2
  funext r
  simp only [Function.comp_apply]
  split <;> rfl

theorem filed_update (h : t.Filed) (d : Delivery) : (t.update d).Filed := by
  obtain ⟨-, hout, hsch, haud⟩ := update_rest t d
  refine filed_congr h (owner_update t d) (funext fun x => ?_) (funext fun x => ?_)
  · rw [received, haud, received]
  · rw [work, hout, hsch, work]

/-- A committed transaction adds one row of work, and it is its delivery's. -/
theorem work_ingested {now exp : Time} {d : Delivery} {subject : String} {payload : Body} {headers : Headers}
    {schedule : Bool} (h : t.Ingested now d exp subject payload headers schedule t') (x : String) :
    t'.received x = t.received x + (if d.id = x then 1 else 0) ∧ t'.work x = t.work x + (if d.id = x then 1 else 0) := by
  refine ⟨?_, ?_⟩
  · unfold received
    rw [h.audit, List.countP_append, List.countP_singleton]
    simp
  · unfold work
    rw [h.scheduled, h.outbox, List.countP_append, List.countP_append]
    cases schedule <;> cases hat : d.scheduledAt <;>
      simp only [ingestWork, hat, List.countP_nil, List.countP_singleton, decide_eq_true_eq] <;> omega

theorem filed_ingested {now exp : Time} {d : Delivery} {subject : String} {payload : Body} {headers : Headers}
    {schedule : Bool} (hl : t.Linked) (h : t.Filed) (hi : t.Ingested now d exp subject payload headers schedule t') :
    t'.Filed := by
  intro x hx
  obtain ⟨hrec, hwork⟩ := work_ingested hi x
  rw [owner_ingested hi] at hx
  by_cases hxd : d.id = x
  · obtain ⟨hr0, hw0⟩ := unfiled hl (owner_eq_none.mpr hi.new)
    subst hxd
    rw [hrec, hwork, hr0, hw0, if_pos rfl]
    exact ⟨rfl, rfl⟩
  · rw [Function.update_of_ne (Ne.symm hxd)] at hx
    rw [hrec, hwork, if_neg hxd]
    exact h x hx

end Tables

/-- A call that puts something on file: an outbox row, or a received event. -/
def Op.Files : Op → Prop
  | .remote (.enqueue _ _ _ _) => True
  | .remote (.append _ ev _) => ev = .received
  | _ => False

theorem exec_filed (p : Params) (w : World) (q : Remote) (hl : w.db.Linked) (h : w.db.Filed)
    (hq : ¬ (Op.remote q).Files) : (exec p w q).2.db.Filed := by
  cases q with
  | update d => exact Tables.filed_update h d
  | updateIfStatus d st => exact Tables.updateIfStatus_keeps h (Tables.filed_update h d) st
  | recordAttempt id a =>
    refine store_keeps h fun t ht => ?_
    rw [Tables.recordAttempt_ok ht]
    exact h
  | ingestTransactional d exp subject payload headers schedule =>
    exact store_keeps h fun t ht => Tables.filed_ingested hl h (Tables.ingested_of_ok hl ht)
  | enqueue id subject payload headers => exact absurd trivial hq
  | append id ev payload =>
    refine store_keeps h fun t ht => ?_
    obtain ⟨hr, hw⟩ := Tables.received_append hq ht
    exact Tables.filed_congr h (Tables.owner_congr (Tables.append_deliveries ht)) hr hw
  | markPublished id => exact Tables.filed_congr h rfl rfl (Tables.work_setOutbox w.db id fun _ => rfl)
  | markFailed id msg => exact Tables.filed_congr h rfl rfl (Tables.work_setOutbox w.db id fun _ => rfl)
  | markProcessed id => exact Tables.filed_congr h rfl rfl (Tables.work_markProcessed w.db id)
  | publish subject body headers =>
    have hdb : (exec p w (.publish subject body headers)).2.db = w.db := publish_db p w _
    rwa [hdb]
  | _ => exact h

section
variable {p : Params} {s s' : System} {l : Act}

theorem worker_not_files {target : String → Prop} {copy : Nat × Nat → Prop} {φ : WorkerPhase} {op : Op}
    (hm : WorkerMay p target copy φ op) : ¬ op.Files := by
  intro hop
  cases op with
  | remote q =>
    cases q with
    | append id ev payload =>
      obtain ⟨d, noted, -, -, hev⟩ := hm
      exact hev hop
    | enqueue id subject payload headers => exact hm
    | _ => exact hop
  | _ => exact hop

/-- Only the scheduler puts anything on file. -/
theorem files_tick {k : Task} {φ : Phase} {op : Op} (hm : May p k φ op) (hop : op.Files) : k = .processDue := by
  cases k with
  | processDue => rfl
  | dispatch proc id =>
    cases φ with
    | worker φ =>
      have hm : WorkerMay p (· = id) (fun _ => False) φ op := hm
      exact absurd hop (worker_not_files hm)
    | _ => exact hm.elim
  | handle proc i c m =>
    cases φ with
    | worker φ =>
      have hm : WorkerMay p (m.deliveryId = .ok ·) (· = (i, c)) φ op := hm
      exact absurd hop (worker_not_files hm)
    | _ => exact hm.elim
  | replay id =>
    cases φ with
    | replay φ =>
      cases op with
      | remote q =>
        cases q with
        | append id ev payload =>
          obtain ⟨d, -, -, rfl⟩ := hm
          cases hop
        | enqueue id subject payload headers => exact hm.elim
        | _ => exact hop.elim
      | _ => exact hop.elim
    | _ => exact hm.elim
  | ingest req =>
    cases φ with
    | ingest φ =>
      cases op with
      | remote q => cases q <;> first | exact hop.elim | exact hm.elim
      | _ => exact hop.elim
    | _ => exact hm.elim
  | flush =>
    cases φ with
    | flush φ =>
      cases op with
      | remote q => cases q <;> first | exact hop.elim | exact hm.elim
      | _ => exact hop.elim
    | _ => exact hm.elim

/-- The scheduler is not running. -/
def NoTick (_ : System) (l : Act) : Prop := ∀ t, l ≠ .start t .processDue

def Unticked (s : System) : Prop := ∀ t th, s.threads t = some th → th.task ≠ .processDue

theorem unticked_step (h : Unticked s) (hok : NoTick s l) (hs : (machine p).Step s l s') : Unticked s' := by
  intro u th hu
  cases hs with
  | @start t k w free entered =>
    rcases of_update hu with ⟨rfl, hv⟩ | ⟨-, hu⟩
    · cases hv
      rintro rfl
      exact hok u rfl
    · exact h u th hu
  | call running answered =>
    rcases of_update hu with ⟨rfl, hv⟩ | ⟨-, hu⟩
    · cases hv
      exact fun hk => h u _ running hk
    · exact h u th hu
  | crash running =>
    rcases of_update hu with ⟨-, hv⟩ | ⟨-, hu⟩
    · cases hv
    · exact h u th hu
  | move moved => exact h u th hu

theorem filed_step (hsane : Sane p s) (hu : Unticked s) (h : s.state.db.Filed) (hs : (machine p).Step s l s') :
    s'.state.db.Filed := by
  rcases db_step hs with hdb | ⟨t, c, k, φ, q, f, -, hth, -, hdb⟩
  · rwa [hdb]
  · rw [hdb]
    refine exec_filed p s.state q hsane.linked h fun hq => ?_
    exact hu t _ hth (files_tick (hsane.conforms.may hth) hq)

end

end GoCourier
