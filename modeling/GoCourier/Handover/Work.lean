import GoCourier.Registry.Ids

/- The two tables that hold the work to come, `scheduled_notifications` and `outbox`,
   and who writes them: an `Ingest` inserts one row with its delivery, a tick moves a
   due delivery to the outbox and marks its scheduled row, a flush marks the outbox
   rows it has published. `worked_step` says it once for every step; the invariants
   about either table start there. -/
namespace GoCourier

open Interleave

namespace Tables

/-- A scheduled row of `x` that no tick has processed. -/
def due (t : Tables) (x : String) : Prop := ∃ r ∈ t.scheduled, r.deliveryId = x ∧ r.processed = false

/-- `x` was ingested to be sent later. -/
def isScheduled (t : Tables) (x : String) : Prop := ∃ r ∈ t.scheduled, r.deliveryId = x

/-- `x` has an outbox row. -/
def listed (t : Tables) (x : String) : Prop := ∃ r ∈ t.outbox, r.deliveryId = x

/-- An outbox row of `x` that is still to be published. -/
def waiting (t : Tables) (x : String) : Prop := ∃ r ∈ t.outbox, r.deliveryId = x ∧ r.status = .pending

variable {t t' : Tables} {x : String}

theorem isScheduled_of_due (h : t.due x) : t.isScheduled x := by
  obtain ⟨r, hr, hx, -⟩ := h
  exact ⟨r, hr, hx⟩

theorem due_markProcessed {id : String} (h : t.due x) (hid : id ≠ x) : (t.markProcessed id).due x := by
  obtain ⟨r, hr, hx, hp⟩ := h
  refine ⟨r, List.mem_map.mpr ⟨r, hr, ?_⟩, hx, hp⟩
  rw [if_neg]
  intro h
  exact hid (h.symm.trans hx)

theorem isScheduled_markProcessed (id : String) : (t.markProcessed id).isScheduled x ↔ t.isScheduled x := by
  constructor
  · intro h
    obtain ⟨r', hr', hx⟩ := h
    obtain ⟨r, hr, rfl⟩ := List.mem_map.mp hr'
    refine ⟨r, hr, ?_⟩
    split at hx <;> exact hx
  · intro h
    obtain ⟨r, hr, hx⟩ := h
    refine ⟨_, List.mem_map.mpr ⟨r, hr, rfl⟩, ?_⟩
    split <;> exact hx

theorem listed_insertOutbox {now : Time} {id subject : String} {payload : Body} {headers : Headers} :
    (t.insertOutbox now id subject payload headers).listed x ↔ t.listed x ∨ id = x := by
  constructor
  · intro h
    obtain ⟨r, hr, hx⟩ := h
    rcases List.mem_append.mp hr with hr | hr
    · exact .inl ⟨r, hr, hx⟩
    · obtain rfl := List.mem_singleton.mp hr
      exact .inr hx
  · intro h
    rcases h with ⟨r, hr, hx⟩ | hx
    · exact ⟨r, List.mem_append_left _ hr, hx⟩
    · exact ⟨_, List.mem_append_right _ (List.mem_singleton.mpr rfl), hx⟩

theorem listed_setOutbox {id : Nat} {f : OutboxRow → OutboxRow} (hf : ∀ r, (f r).deliveryId = r.deliveryId) :
    (t.setOutbox id f).listed x ↔ t.listed x := by
  have hid : ∀ r : OutboxRow, (if r.id = id then f r else r).deliveryId = r.deliveryId := by
    intro r
    split
    · exact hf r
    · rfl
  constructor
  · intro h
    obtain ⟨r', hr', hx⟩ := h
    obtain ⟨r, hr, rfl⟩ := List.mem_map.mp hr'
    exact ⟨r, hr, (hid r).symm.trans hx⟩
  · intro h
    obtain ⟨r, hr, hx⟩ := h
    exact ⟨_, List.mem_map.mpr ⟨r, hr, rfl⟩, (hid r).trans hx⟩

end Tables

/-- What a step does to the two tables, and the thread whose call does it. -/
inductive Worked (p : Params) (s : System) (l : Act) (t : Tables) : Prop where
  | same (owner : t.owner = s.state.db.owner) (outbox : t.outbox = s.state.db.outbox)
      (scheduled : t.scheduled = s.state.db.scheduled)
  | ingested {req : IngestRequest} {d : Delivery} {exp : Time} {headers : Headers} {schedule : Bool}
      (makes : req.Makes d.id d schedule)
      (committed : s.state.db.ingestTransactional s.state.clock d exp
        (notificationSubject p.streamPrefix d.channel d.priority) (idBody d.id) headers schedule = .ok t)
      (caller : ∃ u φ f, s.threads u = some ⟨.ingest req, φ, .ask (.remote (.ingestTransactional d exp
        (notificationSubject p.streamPrefix d.channel d.priority) (idBody d.id) headers schedule)) f⟩)
  | enqueued {u : Nat} {c : Choice} {d : Delivery} {ids : List String} {prog : CallTree Op Ans Result}
      (label : l = .call u c) (caller : s.threads u = some ⟨.processDue, .tick (.requeued d ids), prog⟩)
      (stored : t = s.state.db.insertOutbox s.state.clock d.id (notificationSubject p.streamPrefix d.channel d.priority)
        (idBody d.id) (notificationHeaders d))
  | processed {u : Nat} {c : Choice} {d : Delivery} {ids : List String} {prog : CallTree Op Ans Result}
      (label : l = .call u c) (caller : s.threads u = some ⟨.processDue, .tick (.enqueued d ids), prog⟩)
      (stored : t = s.state.db.markProcessed d.id)
  | published {u : Nat} {c : Choice} {m : OutboxMessage} {ms : List OutboxMessage} {φ : FlushPhase}
      {prog : CallTree Op Ans Result} (label : l = .call u c) (caller : s.threads u = some ⟨.flush, .flush φ, prog⟩)
      (phase : φ = .checked m ms true ∨ φ = .sent m ms true) (stored : t = s.state.db.markPublished m.id)
  | refused {u : Nat} {c : Choice} {m : OutboxMessage} {ms : List OutboxMessage} {msg : String}
      {prog : CallTree Op Ans Result} (label : l = .call u c)
      (caller : s.threads u = some ⟨.flush, .flush (.sent m ms false), prog⟩) (stored : t = s.state.db.markFailed m.id msg)

section
variable {p : Params} {s s' : System} {l : Act} {k : Task} {φ : Phase}

theorem enqueue_tick {id subject : String} {body : Body} {headers : Headers}
    (hm : May p k φ (.remote (.enqueue id subject body headers))) :
    k = .processDue ∧ ∃ d ids, φ = .tick (.requeued d ids) ∧ id = d.id ∧
      subject = notificationSubject p.streamPrefix d.channel d.priority ∧ body = idBody d.id ∧
      headers = notificationHeaders d := by
  cases k with
  | processDue =>
    cases φ with
    | tick φ =>
      obtain ⟨d, ids, rfl, hrest⟩ := hm
      exact ⟨rfl, d, ids, rfl, hrest⟩
    | _ => exact hm.elim
  | _ => cases φ <;> exact hm.elim

theorem markProcessed_tick {id : String} (hm : May p k φ (.remote (.markProcessed id))) :
    k = .processDue ∧ ∃ d ids, φ = .tick (.enqueued d ids) ∧ id = d.id := by
  cases k with
  | processDue =>
    cases φ with
    | tick φ =>
      obtain ⟨d, ids, rfl, hid⟩ := hm
      exact ⟨rfl, d, ids, rfl, hid⟩
    | _ => exact hm.elim
  | _ => cases φ <;> exact hm.elim

theorem markPublished_flush {id : Nat} (hm : May p k φ (.remote (.markPublished id))) :
    k = .flush ∧ ∃ ψ m ms, φ = .flush ψ ∧ (ψ = .checked m ms true ∨ ψ = .sent m ms true) ∧ id = m.id := by
  cases k with
  | flush =>
    cases φ with
    | flush φ =>
      obtain ⟨m, ms, hφ, hid⟩ := hm
      exact ⟨rfl, φ, m, ms, rfl, hφ, hid⟩
    | _ => exact hm.elim
  | _ => cases φ <;> exact hm.elim

theorem markFailed_flush {id : Nat} {msg : String} (hm : May p k φ (.remote (.markFailed id msg))) :
    k = .flush ∧ ∃ m ms, φ = .flush (.sent m ms false) ∧ id = m.id := by
  cases k with
  | flush =>
    cases φ with
    | flush φ =>
      obtain ⟨m, ms, rfl, hid⟩ := hm
      exact ⟨rfl, m, ms, rfl, hid⟩
    | _ => exact hm.elim
  | _ => cases φ <;> exact hm.elim

theorem worked_step (hc : (machine p).Conforms (protocol p) s) (hs : (machine p).Step s l s') :
    Worked p s l s'.state.db := by
  rcases db_step hs with hdb | ⟨t, c, k, φ, q, f, rfl, running, -, hdb⟩
  · rw [hdb]
    exact .same rfl rfl rfl
  have hm : May p k φ (.remote q) := hc.may running
  by_cases hq : (Op.remote q).Works
  · cases q with
    | ingestTransactional d exp subject payload headers schedule =>
      obtain ⟨req, rfl, rfl, hmakes, rfl, rfl⟩ := stores_minted hm
      simp only [exec] at hdb
      cases htx : s.state.db.ingestTransactional s.state.clock d exp
          (notificationSubject p.streamPrefix d.channel d.priority) (idBody d.id) headers schedule with
      | error e =>
        rw [htx] at hdb
        rw [hdb]
        exact .same rfl rfl rfl
      | ok t' =>
        rw [htx] at hdb
        rw [hdb]
        exact .ingested hmakes htx ⟨t, _, f, running⟩
    | enqueue id subject payload headers =>
      obtain ⟨rfl, d, ids, rfl, rfl, rfl, rfl, rfl⟩ := enqueue_tick hm
      simp only [exec] at hdb
      cases hins : s.state.db.enqueue s.state.clock d.id (notificationSubject p.streamPrefix d.channel d.priority)
          (idBody d.id) (notificationHeaders d) with
      | error e =>
        rw [hins] at hdb
        rw [hdb]
        exact .same rfl rfl rfl
      | ok t' =>
        rw [hins] at hdb
        rw [hdb]
        exact .enqueued rfl running (Tables.enqueue_ok hins).2
    | markProcessed id =>
      obtain ⟨rfl, d, ids, rfl, rfl⟩ := markProcessed_tick hm
      exact .processed rfl running hdb
    | markPublished id =>
      obtain ⟨rfl, ψ, m, ms, rfl, hψ, rfl⟩ := markPublished_flush hm
      exact .published rfl running hψ hdb
    | markFailed id msg =>
      obtain ⟨rfl, m, ms, rfl, rfl⟩ := markFailed_flush hm
      exact .refused rfl running hdb
    | _ => exact hq.elim
  · obtain ⟨hout, hsch⟩ := exec_work p s.state hq
    rw [hdb]
    refine .same (exec_owner fun hst => hq ?_) hout hsch
    cases q with
    | ingestTransactional d exp subject payload headers schedule => trivial
    | _ => exact hst.elim

end

end GoCourier
