import GoCourier.Handover.Work
import GoCourier.Ledger.Release

/- What one scheduler process keeps about a delivery `x`, whatever else runs, fails or
   crashes: while `x` is pending its scheduled row is unprocessed and it has no outbox
   row, and it never has two. A tick between its `Update` of `x` and its `Enqueue` is
   the only holder of the work, and it knows that nobody else has enqueued it. -/
namespace GoCourier

open Interleave

/-- What a tick that has written `x` knows of it until it comes to the next row. -/
def TickKnows (x : String) (t : Tables) : TickPhase → Prop
  | .requeued d _ => d.id = x → t.released x ∧ t.isScheduled x ∧ ¬ t.listed x
  | .enqueued d _ => d.id = x → t.released x
  | _ => True

/-- The number of outbox rows of `x`. -/
def Tables.rowCount (t : Tables) (x : String) : Nat := t.outbox.countP fun r => r.deliveryId = x

structure Scheduling (p : Params) (x : String) (s : System) : Prop where
  sane : Sane p s
  one : Machine.AtMostOne (· = .processDue) s
  seen : EarlySeen x s
  pending : ∀ n, s.state.db.row x = some (.pending, n) → s.state.db.due x ∧ ¬ s.state.db.listed x
  single : s.state.db.rowCount x ≤ 1
  ticks : ∀ t k φ prog, s.threads t = some ⟨k, .tick φ, prog⟩ → TickKnows x s.state.db φ

namespace Tables
variable {t t' : Tables} {x : String} {now : Time} {exp : Time} {d : Delivery} {subject : String} {payload : Body}
  {headers : Headers} {schedule : Bool}

theorem rowCount_eq_zero : t.rowCount x = 0 ↔ ¬ t.listed x := by
  simp [rowCount, listed, List.countP_eq_zero]

theorem listed_of_outbox (h : t'.outbox = t.outbox) : t'.listed x ↔ t.listed x := by
  unfold listed
  rw [h]

theorem rowCount_of_outbox (h : t'.outbox = t.outbox) : t'.rowCount x = t.rowCount x := by
  unfold rowCount
  rw [h]

theorem rowCount_setOutbox {id : Nat} {f : OutboxRow → OutboxRow} (hf : ∀ r, (f r).deliveryId = r.deliveryId) :
    (t.setOutbox id f).rowCount x = t.rowCount x := by
  unfold rowCount setOutbox
  rw [List.countP_map]
  congr 1
  funext r
  simp only [Function.comp_apply]
  split
  · rw [hf]
  · rfl

theorem rowCount_insertOutbox :
    (t.insertOutbox now d.id subject payload headers).rowCount x = t.rowCount x + if d.id = x then 1 else 0 := by
  simp [rowCount, insertOutbox, List.countP_append, List.countP_singleton]

/-- The rows of work of a delivery that nothing refers to yet. -/
theorem unlisted_of_new (hl : t.Linked) (hx : t.deliveries x = none) : ¬ t.listed x ∧ ¬ t.isScheduled x := by
  have hnone : t.owner x = none := owner_eq_none.mpr hx
  refine ⟨fun h => ?_, fun h => ?_⟩
  · obtain ⟨r, hr, rfl⟩ := h
    exact hl.outbox r hr hnone
  · obtain ⟨r, hr, rfl⟩ := h
    exact hl.scheduled r hr hnone

/-- The transaction for another delivery leaves the work of `x` alone. -/
theorem rowCount_ingested_other (h : t.Ingested now d exp subject payload headers schedule t') (hx : d.id ≠ x) :
    t'.rowCount x = t.rowCount x ∧ (t'.isScheduled x ↔ t.isScheduled x) ∧ (t.due x → t'.due x) := by
  obtain ⟨hsch, hout⟩ := ingestWork_about t now d subject payload headers schedule
  refine ⟨?_, ⟨fun hs => ?_, fun hs => ?_⟩, fun hdue => ?_⟩
  · unfold rowCount
    have hnone : (t.ingestWork now d subject payload headers schedule).2.countP (fun r => r.deliveryId = x) = 0 := by
      apply List.countP_eq_zero.mpr
      intro r hr
      rw [hout r hr]
      simpa using hx
    rw [h.outbox, List.countP_append, hnone, Nat.add_zero]
  · obtain ⟨r, hr, hrx⟩ := hs
    rw [h.scheduled] at hr
    rcases List.mem_append.mp hr with hr | hr
    · exact ⟨r, hr, hrx⟩
    · exact absurd ((hsch r hr).symm.trans hrx) hx
  · obtain ⟨r, hr, hrx⟩ := hs
    refine ⟨r, ?_, hrx⟩
    rw [h.scheduled]
    exact List.mem_append_left _ hr
  · obtain ⟨r, hr, hrx⟩ := hdue
    refine ⟨r, ?_, hrx⟩
    rw [h.scheduled]
    exact List.mem_append_left _ hr

/-- The transaction gives its delivery one row of work: scheduled while it is pending, in the outbox otherwise. -/
theorem rowCount_ingested {req : IngestRequest} (hl : t.Linked) (makes : req.Makes d.id d schedule)
    (h : t.Ingested now d exp subject payload headers schedule t') :
    t'.rowCount d.id ≤ 1 ∧ (∀ n, t'.row d.id = some (.pending, n) → t'.due d.id ∧ ¬ t'.listed d.id) := by
  obtain ⟨hlist, -⟩ := unlisted_of_new hl h.new
  have hzero := rowCount_eq_zero.mpr hlist
  have hwork : t'.outbox = t.outbox ++ (t.ingestWork now d subject payload headers schedule).2 := h.outbox
  have hlength : (t.ingestWork now d subject payload headers schedule).2.length ≤ 1 := by
    unfold ingestWork
    split <;> simp
  refine ⟨?_, fun n hrow => ?_⟩
  · have hle := List.countP_le_length (p := fun r : OutboxRow => decide (r.deliveryId = d.id))
      (l := (t.ingestWork now d subject payload headers schedule).2)
    unfold rowCount at hzero ⊢
    rw [hwork, List.countP_append]
    omega
  · rw [row_insert h.deliveries, if_pos rfl] at hrow
    have hst : d.status = .pending := congrArg Prod.fst (Option.some.inj hrow)
    have hschedule : schedule = true := by
      by_contra hne
      rw [makes.status, if_neg hne] at hst
      cases hst
    obtain ⟨at_, hat⟩ := Option.isSome_iff_exists.mp (makes.later hschedule)
    subst hschedule
    have hpair : t.ingestWork now d subject payload headers true = ([{ deliveryId := d.id, scheduledAt := at_ }], []) := by
      simp only [ingestWork, hat]
    refine ⟨⟨{ deliveryId := d.id, scheduledAt := at_ }, ?_, rfl, rfl⟩, ?_⟩
    · rw [h.scheduled, hpair]
      exact List.mem_append_right _ (List.mem_singleton.mpr rfl)
    · rw [← rowCount_eq_zero] at hlist ⊢
      unfold rowCount at hlist ⊢
      rw [hwork, hpair, List.append_nil]
      exact hlist

end Tables

section
variable {p : Params} {s s' : System} {l : Act} {x : String}

/-- A tick between two of its writes has calls to make. -/
theorem live_of_tick (hc : (machine p).Conforms (protocol p) s) {t : Nat} {k : Task} {φ : TickPhase}
    {prog : CallTree Op Ans Result} (h : s.threads t = some ⟨k, .tick φ, prog⟩) (htodo : φ.todo ≠ some [])
    (hfail : φ ≠ .failed) : k = .processDue ∧ (⟨k, .tick φ, prog⟩ : Thread Op Ans Task Result Phase).Live := by
  have hk : k = .processDue := tick_task hc h rfl
  refine ⟨hk, hc.live h fun r hr => ?_⟩
  subst hk
  cases r with
  | response r => exact hr.elim
  | unit r =>
    cases r with
    | ok _ => exact htodo hr
    | error e => exact hfail hr

/-- Where a tick's thread comes from. -/
theorem tick_origin (hc : (machine p).Conforms (protocol p) s) (hs : (machine p).Step s l s') {u : Nat} {k : Task}
    {φ : TickPhase} {prog : CallTree Op Ans Result} (hu : s'.threads u = some ⟨k, .tick φ, prog⟩) :
    s.threads u = some ⟨k, .tick φ, prog⟩ ∧ (∀ c, l ≠ .call u c) ∨ φ = .start ∨
      ∃ c ψ op f r, l = .call u c ∧ s.threads u = some ⟨.processDue, .tick ψ, .ask op f⟩ ∧
        answer p op c s.state = some (r, s'.state) ∧ TickMoves p ψ op r φ := by
  rcases hs.origin_cases hu with hkept | ⟨-, -, hfirst⟩ | ⟨c, ψ, op, f, r, label, running, answered, hnext⟩
  · exact .inl hkept
  · cases k <;> cases hfirst
    exact .inr (.inl rfl)
  · have hm : May p k ψ op := hc.may running
    cases ψ with
    | tick ψ =>
      have hk : k = .processDue := tick_task hc running rfl
      subst hk
      cases hnext
      exact .inr (.inr ⟨c, ψ, op, f, r, label, running, answered, tick_moves hm r⟩)
    | _ => cases hnext

/-- A step never leaves a delivery with two outbox rows, and a pending one keeps its scheduled row. -/
theorem scheduling_work (h : Scheduling p x s) (hs : (machine p).Step s l s') :
    s'.state.db.rowCount x ≤ 1 ∧
      ∀ n, s'.state.db.row x = some (.pending, n) → s'.state.db.due x ∧ ¬ s'.state.db.listed x := by
  have hreleased : s.state.db.released x → ∀ n, s'.state.db.row x ≠ some (.pending, n) := by
    intro hrel n hrow
    obtain ⟨st, m, hst, hne⟩ := released_step h.sane.conforms hrel hs
    rw [hrow] at hst
    cases hst
    exact hne rfl
  -- where the deliveries are those there were, a pending one was pending before
  have hkeep : s'.state.db.owner x = s.state.db.owner x → (s.state.db.due x → s'.state.db.due x) →
      (s'.state.db.listed x → s.state.db.listed x) →
      ∀ n, s'.state.db.row x = some (.pending, n) → s'.state.db.due x ∧ ¬ s'.state.db.listed x := by
    intro ho hdue hlist n hrow
    rcases pending_step h.sane.conforms hs hrow with hbefore | hnone
    · obtain ⟨hd, hn⟩ := h.pending n hbefore
      exact ⟨hdue hd, fun hl => hn (hlist hl)⟩
    · rw [Tables.row_eq_none, ← ho, ← Tables.row_eq_none, hrow] at hnone
      cases hnone
  have hset : ∀ (id : Nat) (f : OutboxRow → OutboxRow), (∀ r, (f r).deliveryId = r.deliveryId) →
      s'.state.db = s.state.db.setOutbox id f → s'.state.db.rowCount x ≤ 1 ∧
        ∀ n, s'.state.db.row x = some (.pending, n) → s'.state.db.due x ∧ ¬ s'.state.db.listed x := by
    intro id f hf hdb
    refine ⟨?_, hkeep ?_ ?_ ?_⟩ <;> rw [hdb]
    · rw [Tables.rowCount_setOutbox hf]
      exact h.single
    · rfl
    · intro hdue
      exact hdue
    · exact (Tables.listed_setOutbox hf).mp
  cases worked_step h.sane.conforms hs with
  | same owner outbox scheduled =>
    refine ⟨?_, hkeep (congrFun owner x) ?_ (Tables.listed_of_outbox outbox).mp⟩
    · rw [Tables.rowCount_of_outbox outbox]
      exact h.single
    · unfold Tables.due
      rw [scheduled]
      exact id
  | @ingested req d exp headers schedule makes committed =>
    have hin := Tables.ingested_of_ok h.sane.linked committed
    by_cases hx : d.id = x
    · subst hx
      exact Tables.rowCount_ingested h.sane.linked makes hin
    · obtain ⟨hcount, -, hdue⟩ := Tables.rowCount_ingested_other hin hx
      refine ⟨by rw [hcount]; exact h.single, hkeep ?_ hdue ?_⟩
      · rw [Tables.owner_ingested hin, Function.update_of_ne (Ne.symm hx)]
      · rw [← not_imp_not, ← Tables.rowCount_eq_zero, ← Tables.rowCount_eq_zero, hcount]
        exact id
  | @enqueued u c d ids prog label caller stored =>
    by_cases hx : d.id = x
    · obtain ⟨hrel, -, hlist⟩ := h.ticks u _ _ _ caller hx
      refine ⟨?_, fun n hrow => absurd hrow (hreleased hrel n)⟩
      rw [stored, Tables.rowCount_insertOutbox, if_pos hx, Tables.rowCount_eq_zero.mpr hlist]
    · refine ⟨?_, hkeep ?_ ?_ ?_⟩ <;> rw [stored]
      · rw [Tables.rowCount_insertOutbox, if_neg hx]
        exact h.single
      · rfl
      · exact id
      · intro hl
        exact (Tables.listed_insertOutbox.mp hl).resolve_right hx
  | @processed u c d ids prog label caller stored =>
    by_cases hx : d.id = x
    · have hrel := h.ticks u _ _ _ caller hx
      refine ⟨?_, fun n hrow => absurd hrow (hreleased hrel n)⟩
      rw [stored]
      exact h.single
    · refine ⟨?_, hkeep ?_ ?_ ?_⟩ <;> rw [stored]
      · exact h.single
      · rfl
      · intro hdue
        exact Tables.due_markProcessed hdue hx
      · exact id
  | @published u c m ms φ prog label caller phase stored =>
    exact hset m.id (fun r => { r with status := .published }) (fun _ => rfl) stored
  | @refused u c m ms msg prog label caller stored =>
    exact hset m.id (fun r => { r with attempts := r.attempts + 1, lastError := some msg }) (fun _ => rfl) stored

/-- A released delivery that nobody has enqueued stays so, unless this step is its tick's `Enqueue`. -/
theorem scheduling_unlisted (h : Scheduling p x s) (hs : (machine p).Step s l s') (hrel : s.state.db.released x)
    (hlist : ¬ s.state.db.listed x)
    (hother : ∀ u c d ids prog, l = .call u c → s.threads u = some ⟨.processDue, .tick (.requeued d ids), prog⟩ →
      d.id ≠ x) : ¬ s'.state.db.listed x := by
  cases worked_step h.sane.conforms hs with
  | same owner outbox scheduled => rwa [Tables.listed_of_outbox outbox]
  | @ingested req d exp headers schedule makes committed =>
    have hin := Tables.ingested_of_ok h.sane.linked committed
    have hx : d.id ≠ x := by
      intro hx
      obtain ⟨st, n, hrow, -⟩ := hrel
      have hnone : s.state.db.row x = none := by
        rw [Tables.row_eq_none, Tables.owner_eq_none, ← hx]
        exact hin.new
      rw [hrow] at hnone
      cases hnone
    rw [← Tables.rowCount_eq_zero] at hlist ⊢
    rw [(Tables.rowCount_ingested_other hin hx).1, hlist]
  | @enqueued u c d ids prog label caller stored =>
    rw [stored, Tables.listed_insertOutbox]
    intro hl
    exact hl.elim hlist (hother u c d ids prog label caller)
  | processed label caller stored =>
    rw [stored]
    exact hlist
  | @published u c m ms φ prog label caller phase stored =>
    rw [stored]
    exact mt (Tables.listed_setOutbox (f := fun r => { r with status := .published }) fun _ => rfl).mp hlist
  | @refused u c m ms msg prog label caller stored =>
    rw [stored]
    exact mt (Tables.listed_setOutbox
      (f := fun r => { r with attempts := r.attempts + 1, lastError := some msg }) fun _ => rfl).mp hlist

theorem isScheduled_step (h : Sane p s) (hs : (machine p).Step s l s') (hx : s.state.db.isScheduled x) :
    s'.state.db.isScheduled x := by
  cases worked_step h.conforms hs with
  | same owner outbox scheduled =>
    unfold Tables.isScheduled
    rw [scheduled]
    exact hx
  | @ingested req d exp headers schedule makes committed =>
    obtain ⟨r, hr, hrx⟩ := hx
    refine ⟨r, ?_, hrx⟩
    rw [(Tables.ingested_of_ok h.linked committed).scheduled]
    exact List.mem_append_left _ hr
  | enqueued label caller stored =>
    rw [stored]
    exact hx
  | processed label caller stored =>
    rw [stored]
    exact (Tables.isScheduled_markProcessed _).mpr hx
  | published label caller phase stored =>
    rw [stored]
    exact hx
  | refused label caller stored =>
    rw [stored]
    exact hx

/-- A tick that has read a pending delivery still finds it pending when it writes. -/
theorem Scheduling.fresh (h : Scheduling p x s) {u : Nat} {k : Task} {d : Delivery} {ids : List String}
    {prog : CallTree Op Ans Result} (hu : s.threads u = some ⟨k, .tick (.snap d ids), prog⟩) (hx : d.id = x)
    (hst : d.status = .pending) : s.state.db.row x = some (.pending, d.retryCount) := by
  have hseen := h.seen u
  rw [hu] at hseen
  have hstance : threadStance x (some ⟨k, .tick (.snap d ids), prog⟩) = .ticker d.retryCount := if_pos ⟨hx, hst⟩
  rw [hstance] at hseen
  exact hseen

/-- An `Update` that is answered with nil releases its delivery. -/
theorem released_of_update {d : Delivery} {c : Choice} {w w' : World} {r : Ans (.remote (.update d))}
    (ha : Answered p w (.remote (.update d)) c r w') (hok : ∀ e, r ≠ .error e) (hx : d.id = x)
    (hrow : w.db.row x ≠ none) (hst : d.status ≠ .pending) : w'.db.released x := by
  obtain ⟨h | ⟨-, e, he⟩, h'⟩ := answered_update (x := x) ha
  · obtain ⟨rfl, -⟩ := h
    rcases h' with ⟨-, hrow'⟩ | ⟨⟨msg, hmsg⟩, -⟩
    · obtain ⟨q, hq⟩ := Option.ne_none_iff_exists'.mp hrow
      rw [if_pos hx, hq] at hrow'
      exact ⟨d.status, d.retryCount, hrow', hst⟩
    · cases hmsg
  · exact absurd he (hok e)

theorem scheduling_ticks (h : Scheduling p x s) (hs : (machine p).Step s l s') {u : Nat} {k : Task} {φ : TickPhase}
    {prog : CallTree Op Ans Result} (hu : s'.threads u = some ⟨k, .tick φ, prog⟩) : TickKnows x s'.state.db φ := by
  rcases tick_origin h.sane.conforms hs hu with ⟨before, other⟩ | rfl |
    ⟨c, ψ, op, f, r, label, running, answered, hmoves⟩
  · have hknows := h.ticks u k φ prog before
    cases φ with
    | requeued d ids =>
      intro hx
      obtain ⟨hrel, hsch, hlist⟩ := hknows hx
      refine ⟨released_step h.sane.conforms hrel hs, isScheduled_step h.sane hs hsch,
        scheduling_unlisted h hs hrel hlist ?_⟩
      -- a second tick would be live beside this one
      intro v c d' ids' prog' label caller hx'
      obtain ⟨rfl, hlive⟩ := live_of_tick h.sane.conforms before nofun nofun
      obtain ⟨-, hlive'⟩ := live_of_tick h.sane.conforms caller nofun nofun
      have huv : u = v := h.one u v _ _ before caller rfl rfl hlive hlive'
      exact other c (huv ▸ label)
    | enqueued d ids =>
      intro hx
      exact released_step h.sane.conforms (hknows hx) hs
    | _ => trivial
  · trivial
  · have hans := answer_cases (p := p) answered
    cases hmoves with
    | wrote ids pending queued =>
      intro hx
      have hx₀ := (congrArg Delivery.id queued).symm.trans hx
      have hpend := h.fresh running hx₀ pending
      obtain ⟨hdue, hlist⟩ := h.pending _ hpend
      have hst : (_ : Delivery).status = .queued := congrArg Delivery.status queued
      refine ⟨released_of_update hans nofun hx (by rw [hpend]; exact nofun) (by rw [hst]; exact nofun),
        isScheduled_step h.sane hs (Tables.isScheduled_of_due hdue), ?_⟩
      have hout : s'.state.db.outbox = s.state.db.outbox := by
        rcases answered_db hans with hdb | ⟨q, hq, -, hdb⟩
        · rw [hdb]
        · cases hq
          rw [hdb]
          exact (exec_work p s.state (show ¬ (Op.remote (.update _)).Works from id)).1
      rwa [Tables.listed_of_outbox hout]
    | enqueued d ids =>
      intro hx
      exact released_step h.sane.conforms (h.ticks u _ _ _ running hx).1 hs
    | _ => trivial

theorem scheduling_step (h : Scheduling p x s) (hok : OneScheduler s l) (hs : (machine p).Step s l s') :
    Scheduling p x s' := by
  obtain ⟨hsingle, hpending⟩ := scheduling_work h hs
  exact ⟨sane_step h.sane hs, Machine.atMostOne_step h.one hok hs, earlySeen_step h.sane.conforms h.one h.seen hs,
    hpending, hsingle, fun u k φ prog hu => scheduling_ticks h hs hu⟩

theorem init_scheduling (p : Params) (x : String) : Scheduling p x (System.init p) where
  sane := init_sane p
  one := by
    intro t u th th' ht
    cases ht
  seen := by
    intro t
    trivial
  pending := by
    intro n hn
    cases hn
  single := Nat.zero_le 1
  ticks := by
    intro t k φ prog ht
    cases ht

theorem reach_scheduling (x : String) {ok : System → Act → Prop} (hone : ∀ s l, ok s l → OneScheduler s l)
    (hr : (machine p).Reach ok (System.init p) s) : Scheduling p x s :=
  hr.invariant (init_scheduling p x) fun _ _ _ h hok hs => scheduling_step h (hone _ _ hok) hs

end

end GoCourier
