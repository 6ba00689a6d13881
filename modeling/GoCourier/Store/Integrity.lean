import GoCourier.Ledger.Refines

/- How the tables fit together. Every statement keeps the references between them: a
   registered key and the delivery stored under it name each other, and no outbox row,
   scheduled row or audit event is about a delivery that is not stored. Deliveries and
   registrations are never deleted, so what the ingest transaction has registered
   stays registered. -/
namespace GoCourier

open Interleave

namespace Tables

/-- The key a stored delivery was ingested under. -/
def owner (t : Tables) (x : String) : Option (String × Channel) :=
  (t.deliveries x).map fun r => (r.idempotencyKey, r.channel)

structure Linked (t : Tables) : Prop where
  registered : ∀ k ik, t.idempotencyKeys k = some ik → t.owner ik.deliveryId = some k
  owned : ∀ x k, t.owner x = some k → ∃ ik, t.idempotencyKeys k = some ik ∧ ik.deliveryId = x
  outbox : ∀ r ∈ t.outbox, t.owner r.deliveryId ≠ none
  scheduled : ∀ r ∈ t.scheduled, t.owner r.deliveryId ≠ none
  audit : ∀ r ∈ t.audit, t.owner r.deliveryId ≠ none

variable {t t' : Tables}

theorem owner_eq_none {x : String} : t.owner x = none ↔ t.deliveries x = none := Option.map_eq_none_iff

theorem owner_congr (h : t'.deliveries = t.deliveries) : t'.owner = t.owner := by
  funext x
  rw [owner, owner, h]

theorem owner_of_row {x : String} {st : Status} {n : Nat} (h : t.row x = some (st, n)) : t.owner x ≠ none := by
  obtain ⟨r, hr, -⟩ := Option.map_eq_some_iff.mp h
  rw [Ne, owner_eq_none, hr]
  exact nofun

theorem row_eq_none {x : String} : t.row x = none ↔ t.owner x = none :=
  Option.map_eq_none_iff.trans Option.map_eq_none_iff.symm

/-- What the UPDATE statements set is no part of the key. -/
theorem owner_update (t : Tables) (d : Delivery) : (t.update d).owner = t.owner := by
  funext x
  unfold update owner
  split
  · rename_i r hr
    by_cases hx : x = d.id
    · subst hx
      simp [hr, DeliveryRow.set]
    · simp [Function.update_of_ne hx]
  · rfl

theorem linked_update (h : t.Linked) (d : Delivery) : (t.update d).Linked := by
  have ho := owner_update t d
  obtain ⟨hk, hout, hsch, haud⟩ := update_rest t d
  constructor <;> rw [ho]
  · rw [hk]; exact h.registered
  · rw [hk]; exact h.owned
  · rw [hout]; exact h.outbox
  · rw [hsch]; exact h.scheduled
  · rw [haud]; exact h.audit

theorem linked_recordAttempt {id : String} {a : Attempt} (h : t.Linked) (ht : t.recordAttempt id a = .ok t') :
    t'.Linked := by
  rw [recordAttempt_ok ht]
  exact ⟨h.registered, h.owned, h.outbox, h.scheduled, h.audit⟩

theorem linked_insertOutbox (h : t.Linked) (now : Time) {id : String} (hid : t.owner id ≠ none) (subject : String)
    (payload : Body) (headers : Headers) : (t.insertOutbox now id subject payload headers).Linked := by
  refine ⟨h.registered, h.owned, fun r hr => ?_, h.scheduled, h.audit⟩
  rcases List.mem_append.mp hr with hr | hr
  · exact h.outbox r hr
  · obtain rfl := List.mem_singleton.mp hr
    exact hid

theorem linked_enqueue {now : Time} {id subject : String} {payload : Body} {headers : Headers} (h : t.Linked)
    (ht : t.enqueue now id subject payload headers = .ok t') : t'.Linked := by
  obtain ⟨hid, rfl⟩ := enqueue_ok ht
  exact linked_insertOutbox h now (mt owner_eq_none.mp hid) ..

theorem linked_setOutbox (h : t.Linked) (id : Nat) {f : OutboxRow → OutboxRow}
    (hf : ∀ r, (f r).deliveryId = r.deliveryId) : (t.setOutbox id f).Linked := by
  refine ⟨h.registered, h.owned, fun r' hr' => ?_, h.scheduled, h.audit⟩
  obtain ⟨r, hr, rfl⟩ := List.mem_map.mp hr'
  split
  · rw [hf]
    exact h.outbox r hr
  · exact h.outbox r hr

theorem linked_markProcessed (h : t.Linked) (id : String) : (t.markProcessed id).Linked := by
  refine ⟨h.registered, h.owned, h.outbox, fun r' hr' => ?_, h.audit⟩
  obtain ⟨r, hr, rfl⟩ := List.mem_map.mp hr'
  split <;> exact h.scheduled r hr

theorem linked_append {now : Time} {id : String} {ev : DomainEventType} {payload : AuditPayload} (h : t.Linked)
    (ht : t.append now id ev payload = .ok t') : t'.Linked := by
  obtain ⟨hid, rfl⟩ := append_ok ht
  refine ⟨h.registered, h.owned, h.outbox, h.scheduled, fun r hr => ?_⟩
  rcases List.mem_append.mp hr with hr | hr
  · exact h.audit r hr
  · obtain rfl := List.mem_singleton.mp hr
    exact mt owner_eq_none.mp hid

/-! The ingest transaction. -/

/-- The row of work a committed transaction stores: to be scheduled, or to be published. -/
def ingestWork (t : Tables) (now : Time) (d : Delivery) (subject : String) (payload : Body) (headers : Headers)
    (schedule : Bool) : List ScheduledRow × List OutboxRow :=
  match schedule, d.scheduledAt with
  | true, some at_ => ([{ deliveryId := d.id, scheduledAt := at_ }], [])
  | _, _ => ([], [{ id := t.outbox.length + 1, deliveryId := d.id, subject, payload, headers, createdAt := now }])

/-- What a committed transaction found and left. -/
structure Ingested (t : Tables) (now : Time) (d : Delivery) (exp : Time) (subject : String) (payload : Body)
    (headers : Headers) (schedule : Bool) (t' : Tables) : Prop where
  new : t.deliveries d.id = none
  free : t.idempotencyKeys (d.idempotencyKey, d.channel) = none
  deliveries : t'.deliveries = Function.update t.deliveries d.id (some (d.toRow t.jsonb))
  keys : t'.idempotencyKeys = Function.update t.idempotencyKeys (d.idempotencyKey, d.channel) (some ⟨d.id, exp⟩)
  scheduled : t'.scheduled = t.scheduled ++ (t.ingestWork now d subject payload headers schedule).1
  outbox : t'.outbox = t.outbox ++ (t.ingestWork now d subject payload headers schedule).2
  audit : t'.audit = t.audit ++ [⟨⟨d.id, .received, []⟩, now⟩]

variable {now exp : Time} {d : Delivery} {subject : String} {payload : Body} {headers : Headers} {schedule : Bool}

theorem registered_keys (t : Tables) (d : Delivery) (exp : Time) :
    (t.registered d exp).deliveries = Function.update t.deliveries d.id (some (d.toRow t.jsonb)) ∧
      (t.registered d exp).scheduled = t.scheduled ∧ (t.registered d exp).outbox = t.outbox ∧
      (t.registered d exp).audit = t.audit ∧
      (t.registered d exp).idempotencyKeys = match t.idempotencyKeys (d.idempotencyKey, d.channel) with
        | some _ => t.idempotencyKeys
        | none => Function.update t.idempotencyKeys (d.idempotencyKey, d.channel) (some ⟨d.id, exp⟩) := by
  cases hk : t.idempotencyKeys (d.idempotencyKey, d.channel) <;> simp only [registered, insertIdempotency, hk] <;>
    exact ⟨trivial, trivial, trivial, trivial, trivial⟩

/-- The rows of work and the event of a committed transaction. -/
theorem ingestTransactional_work (ht : t.ingestTransactional now d exp subject payload headers schedule = .ok t') :
    t' = { (t.registered d exp) with
      scheduled := t.scheduled ++ (t.ingestWork now d subject payload headers schedule).1
      outbox := t.outbox ++ (t.ingestWork now d subject payload headers schedule).2
      audit := t.audit ++ [⟨⟨d.id, .received, []⟩, now⟩] } := by
  obtain ⟨-, -, hwork⟩ := ingestTransactional_ok ht
  obtain ⟨-, hsch, hout, haud, -⟩ := registered_keys t d exp
  obtain ⟨-, rfl⟩ := append_ok hwork
  cases schedule <;> cases hat : d.scheduledAt <;>
    simp only [ingestWork, insertOutbox, hat, hsch, hout, haud, List.append_nil]

theorem ingested_of_ok (h : t.Linked) (ht : t.ingestTransactional now d exp subject payload headers schedule = .ok t') :
    t.Ingested now d exp subject payload headers schedule t' := by
  obtain ⟨hnew, ⟨ik, hik, hid⟩, -⟩ := ingestTransactional_ok ht
  obtain ⟨hdel, -, -, -, hkeys⟩ := registered_keys t d exp
  -- a key taken before would name a stored delivery
  have hfree : t.idempotencyKeys (d.idempotencyKey, d.channel) = none := by
    cases hk : t.idempotencyKeys (d.idempotencyKey, d.channel) with
    | none => rfl
    | some ik' =>
      rw [hkeys, hk] at hik
      have hsome := h.registered _ ik hik
      rw [hid, owner, hnew] at hsome
      cases hsome
  rw [hfree] at hkeys
  have hwork := ingestTransactional_work ht
  subst hwork
  exact ⟨hnew, hfree, hdel, hkeys, rfl, rfl, rfl⟩

theorem owner_ingested (h : t.Ingested now d exp subject payload headers schedule t') :
    t'.owner = Function.update t.owner d.id (some (d.idempotencyKey, d.channel)) := by
  funext x
  rw [owner, h.deliveries]
  by_cases hx : x = d.id
  · subst hx
    simp [Delivery.toRow]
  · simp [Function.update_of_ne hx, owner]

theorem owner_ne_none_of_ingested (h : t.Ingested now d exp subject payload headers schedule t') {x : String}
    (hx : t.owner x ≠ none) : t'.owner x ≠ none := by
  rw [owner_ingested h]
  by_cases hxd : x = d.id
  · subst hxd
    simp
  · rwa [Function.update_of_ne hxd]

theorem ingestWork_about (t : Tables) (now : Time) (d : Delivery) (subject : String) (payload : Body) (headers : Headers)
    (schedule : Bool) :
    (∀ r ∈ (t.ingestWork now d subject payload headers schedule).1, r.deliveryId = d.id) ∧
      ∀ r ∈ (t.ingestWork now d subject payload headers schedule).2, r.deliveryId = d.id := by
  unfold ingestWork
  split <;> simp

/-- A scheduled row is for the time its delivery is for. -/
theorem ingestWork_times (t : Tables) (now : Time) (d : Delivery) (subject : String) (payload : Body) (headers : Headers)
    (schedule : Bool) :
    ∀ r ∈ (t.ingestWork now d subject payload headers schedule).1, d.scheduledAt = some r.scheduledAt := by
  intro r hr
  unfold ingestWork at hr
  cases hat : d.scheduledAt with
  | none =>
    rw [hat] at hr
    cases schedule <;> cases hr
  | some at_ =>
    rw [hat] at hr
    cases schedule with
    | false => cases hr
    | true =>
      obtain rfl := List.mem_singleton.mp hr
      rfl

theorem linked_ingested (h : t.Linked) (hi : t.Ingested now d exp subject payload headers schedule t') : t'.Linked := by
  have hkeep := fun {x} => owner_ne_none_of_ingested (x := x) hi
  have hnone : t.owner d.id = none := owner_eq_none.mpr hi.new
  have hself : t'.owner d.id = some (d.idempotencyKey, d.channel) := by
    rw [owner_ingested hi, Function.update_self]
  have hd : t'.owner d.id ≠ none := by
    rw [hself]
    exact nofun
  obtain ⟨hsch, hout⟩ := ingestWork_about t now d subject payload headers schedule
  constructor
  · intro k ik hik
    rw [hi.keys] at hik
    rcases of_update hik with ⟨rfl, hrow⟩ | ⟨hk, hik⟩
    · cases hrow
      exact hself
    · rw [owner_ingested hi, Function.update_of_ne]
      · exact h.registered k ik hik
      · intro hid
        have := h.registered k ik hik
        rw [hid, hnone] at this
        cases this
  · intro x k hk
    rw [owner_ingested hi] at hk
    rcases of_update hk with ⟨rfl, hown⟩ | ⟨hx, hk⟩
    · cases hown
      exact ⟨⟨d.id, exp⟩, by rw [hi.keys, Function.update_self], rfl⟩
    · obtain ⟨ik, hik, hid⟩ := h.owned x k hk
      refine ⟨ik, ?_, hid⟩
      rw [hi.keys, Function.update_of_ne, hik]
      rintro rfl
      rw [hi.free] at hik
      cases hik
  · intro r hr
    rw [hi.outbox] at hr
    rcases List.mem_append.mp hr with hr | hr
    · exact hkeep (h.outbox r hr)
    · rwa [hout r hr]
  · intro r hr
    rw [hi.scheduled] at hr
    rcases List.mem_append.mp hr with hr | hr
    · exact hkeep (h.scheduled r hr)
    · rwa [hsch r hr]
  · intro r hr
    rw [hi.audit] at hr
    rcases List.mem_append.mp hr with hr | hr
    · exact hkeep (h.audit r hr)
    · obtain rfl := List.mem_singleton.mp hr
      exact hd

/-- A new delivery under a free key commits. -/
theorem ingestTransactional_new (now exp : Time) (subject : String) (payload : Body) (headers : Headers)
    (schedule : Bool) (hnew : t.deliveries d.id = none)
    (hfree : t.idempotencyKeys (d.idempotencyKey, d.channel) = none) :
    ∃ t', t.ingestTransactional now d exp subject payload headers schedule = .ok t' := by
  unfold ingestTransactional insertDelivery
  rw [hnew]
  simp only [insertIdempotency, hfree, Function.update_self, ne_eq, not_true, if_false]
  cases schedule <;> cases hat : d.scheduledAt <;>
    simp only [insertWork, append, insertOutbox, hat, Function.update_self] <;> exact ⟨_, rfl⟩

/-- A new delivery under a taken key is rolled back. -/
theorem ingestTransactional_taken {ik : IdempotencyRow} (now exp : Time) (subject : String) (payload : Body)
    (headers : Headers) (schedule : Bool) (h : t.Linked) (hnew : t.deliveries d.id = none)
    (htaken : t.idempotencyKeys (d.idempotencyKey, d.channel) = some ik) :
    t.ingestTransactional now d exp subject payload headers schedule = .error errDuplicate := by
  have hne : ik.deliveryId ≠ d.id := fun hid => by
    have := h.registered _ ik htaken
    rw [hid, owner, hnew] at this
    cases this
  unfold ingestTransactional insertDelivery
  rw [hnew]
  simp only [insertIdempotency, htaken]
  rw [if_pos hne]

end Tables

/-- Every statement keeps the tables together. -/
theorem exec_linked (p : Params) (w : World) (q : Remote) (h : w.db.Linked) : (exec p w q).2.db.Linked := by
  cases q with
  | update d => exact Tables.linked_update h d
  | updateIfStatus d st => exact Tables.updateIfStatus_keeps h (Tables.linked_update h d) st
  | recordAttempt id a => exact store_keeps h fun _ => Tables.linked_recordAttempt h
  | ingestTransactional d exp subject payload headers schedule =>
    exact store_keeps h fun _ ht => Tables.linked_ingested h (Tables.ingested_of_ok h ht)
  | enqueue id subject payload headers => exact store_keeps h fun _ => Tables.linked_enqueue h
  | markPublished id => exact Tables.linked_setOutbox h id fun _ => rfl
  | markFailed id msg => exact Tables.linked_setOutbox h id fun _ => rfl
  | markProcessed id => exact Tables.linked_markProcessed h id
  | append id ev payload => exact store_keeps h fun _ => Tables.linked_append h
  | publish subject body headers =>
    have hdb : (exec p w (.publish subject body headers)).2.db = w.db := publish_db p w _
    rwa [hdb]
  | _ => exact h

section
variable {p : Params} {s s' : System} {l : Act}

theorem answered_db {w w' : World} {op : Op} {c : Choice} {r : Ans op} (h : Answered p w op c r w') :
    w'.db = w.db ∨ ∃ q, op = .remote q ∧ c.Effective ∧ w'.db = (exec p w q).2.db := by
  cases h with
  | ran q => exact .inr ⟨q, rfl, trivial, rfl⟩
  | lost q msg => exact .inr ⟨q, rfl, trivial, rfl⟩
  | _ => exact .inl rfl

/-- The tables change by statements only. -/
theorem db_step (hs : (machine p).Step s l s') :
    s'.state.db = s.state.db ∨ ∃ t c k φ q f, l = .call t c ∧ s.threads t = some ⟨k, φ, .ask (.remote q) f⟩ ∧
      c.Effective ∧ s'.state.db = (exec p s.state q).2.db := by
  cases hs with
  | start free entered => exact .inl (enter_db entered)
  | @call t c k φ op f r w running answered =>
    rcases answered_db (answer_cases answered) with hdb | ⟨q, rfl, heff, hdb⟩
    · exact .inl hdb
    · exact .inr ⟨t, c, k, φ, q, f, rfl, running, heff, hdb⟩
  | crash running => exact .inl rfl
  | move moved => exact .inl (move_db moved)

theorem linked_step (h : s.state.db.Linked) (hs : (machine p).Step s l s') : s'.state.db.Linked := by
  rcases db_step hs with hdb | ⟨t, c, k, φ, q, f, -, -, -, hdb⟩
  · rwa [hdb]
  · rw [hdb]
    exact exec_linked p s.state q h

theorem init_linked (p : Params) : (System.init p).state.db.Linked where
  registered := nofun
  owned := nofun
  outbox := nofun
  scheduled := nofun
  audit := nofun

theorem reach_linked {ok : System → Act → Prop} (hr : (machine p).Reach ok (System.init p) s) : s.state.db.Linked := by
  induction hr with
  | refl => exact init_linked p
  | step _ _ hs ih => exact linked_step ih ((machine p).step_iff.mp hs)

end

end GoCourier
