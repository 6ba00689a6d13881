import GoCourier.Handover.Published
import GoCourier.Lib.Logs
import GoCourier.Store.Integrity

/- Nothing that is recorded in the tables is lost or rewritten. Whatever runs, fails and
   crashes: a delivery's row changes in its status, retry count, error and time of update
   alone; a registration never does, nor an attempt or an audit event; an outbox row
   keeps its message and stays published, a scheduled row stays processed.

   The same holds of what the broker has accepted and of its copies, as the world counts
   them: a message that the retention of its stream drops has been accepted nonetheless,
   and no more of it is said here. -/
namespace GoCourier

open Interleave

/-- A delivery's row later: what was asked for stands. -/
def DeliveryRow.Later (r r' : DeliveryRow) : Prop :=
  r' = { r with status := r'.status, retryCount := r'.retryCount, lastError := r'.lastError, updatedAt := r'.updatedAt }

/-- An outbox row later. -/
structure OutboxRow.Later (r r' : OutboxRow) : Prop where
  message : r' = { r with status := r'.status, attempts := r'.attempts, lastError := r'.lastError }
  attempts : r.attempts ≤ r'.attempts
  published : r.status = .published → r'.status = .published

/-- A scheduled row later. -/
structure ScheduledRow.Later (r r' : ScheduledRow) : Prop where
  due : r' = { r with processed := r'.processed }
  processed : r.processed = true → r'.processed = true

/-- A copy later. -/
structure Copy.Later (c c' : Copy) : Prop where
  delivered : c.delivered ≤ c'.delivered
  acked : c.acked = true → c'.acked = true

structure Tables.Grows (t t' : Tables) : Prop where
  jsonb : t'.jsonb = t.jsonb
  deliveries : Keeps DeliveryRow.Later t.deliveries t'.deliveries
  idempotencyKeys : Keeps Eq t.idempotencyKeys t'.idempotencyKeys
  attempts : t.attempts <+: t'.attempts
  outbox : Extends OutboxRow.Later t.outbox t'.outbox
  scheduled : Extends ScheduledRow.Later t.scheduled t'.scheduled
  audit : t.audit <+: t'.audit

structure World.Grows (w w' : World) : Prop where
  db : w.db.Grows w'.db
  stream : w.stream <+: w'.stream
  deadLetters : w.deadLetters <+: w'.deadLetters
  copies : ∀ k, (w.copies k).Later (w'.copies k)
  issued : w.issued <:+ w'.issued

/-! Growth is a preorder. -/

theorem DeliveryRow.Later.refl (r : DeliveryRow) : r.Later r := rfl

theorem DeliveryRow.Later.trans {r r' r'' : DeliveryRow} (h : r.Later r') (h' : r'.Later r'') : r.Later r'' := by
  unfold Later at h h' ⊢
  rw [h] at h'
  exact h'

theorem OutboxRow.Later.refl (r : OutboxRow) : r.Later r := ⟨rfl, Nat.le_refl _, fun h => h⟩

theorem OutboxRow.Later.trans {r r' r'' : OutboxRow} (h : r.Later r') (h' : r'.Later r'') : r.Later r'' := by
  refine ⟨?_, Nat.le_trans h.attempts h'.attempts, h'.published ∘ h.published⟩
  have hmessage := h'.message
  rw [h.message] at hmessage
  exact hmessage

theorem ScheduledRow.Later.refl (r : ScheduledRow) : r.Later r := ⟨rfl, fun h => h⟩

theorem ScheduledRow.Later.trans {r r' r'' : ScheduledRow} (h : r.Later r') (h' : r'.Later r'') : r.Later r'' := by
  refine ⟨?_, h'.processed ∘ h.processed⟩
  have hdue := h'.due
  rw [h.due] at hdue
  exact hdue

theorem Copy.Later.refl (c : Copy) : c.Later c := ⟨Nat.le_refl _, fun h => h⟩

theorem Copy.Later.trans {c c' c'' : Copy} (h : c.Later c') (h' : c'.Later c'') : c.Later c'' :=
  ⟨Nat.le_trans h.delivered h'.delivered, h'.acked ∘ h.acked⟩

theorem Tables.Grows.refl (t : Tables) : t.Grows t where
  jsonb := rfl
  deliveries := keeps_refl DeliveryRow.Later.refl _
  idempotencyKeys := keeps_refl Eq.refl _
  attempts := List.prefix_rfl
  outbox := extends_refl OutboxRow.Later.refl _
  scheduled := extends_refl ScheduledRow.Later.refl _
  audit := List.prefix_rfl

theorem Tables.Grows.trans {t t' t'' : Tables} (h : t.Grows t') (h' : t'.Grows t'') : t.Grows t'' where
  jsonb := h'.jsonb.trans h.jsonb
  deliveries := keeps_trans (fun _ _ _ h h' => h.trans h') h.deliveries h'.deliveries
  idempotencyKeys := keeps_trans (fun _ _ _ h h' => h.trans h') h.idempotencyKeys h'.idempotencyKeys
  attempts := h.attempts.trans h'.attempts
  outbox := extends_trans (fun _ _ _ h h' => h.trans h') h.outbox h'.outbox
  scheduled := extends_trans (fun _ _ _ h h' => h.trans h') h.scheduled h'.scheduled
  audit := h.audit.trans h'.audit

theorem World.Grows.refl (w : World) : w.Grows w :=
  ⟨Tables.Grows.refl _, List.prefix_rfl, List.prefix_rfl, fun _ => Copy.Later.refl _, List.suffix_rfl⟩

theorem World.Grows.trans {w w' w'' : World} (h : w.Grows w') (h' : w'.Grows w'') : w.Grows w'' :=
  ⟨h.db.trans h'.db, h.stream.trans h'.stream, h.deadLetters.trans h'.deadLetters,
    fun k => (h.copies k).trans (h'.copies k), h.issued.trans h'.issued⟩

/-! The statements. -/

namespace Tables
variable {t t' : Tables}

theorem grows_update (t : Tables) (d : Delivery) : t.Grows (t.update d) := by
  unfold update
  split
  · rename_i r hr
    refine { Grows.refl t with deliveries := keeps_update DeliveryRow.Later.refl fun r' hr' => ?_ }
    obtain rfl := Option.some.inj (hr.symm.trans hr')
    rfl
  · exact .refl t

theorem grows_setOutbox (t : Tables) (id : Nat) {f : OutboxRow → OutboxRow} (hf : ∀ r : OutboxRow, r.Later (f r)) :
    t.Grows (t.setOutbox id f) := by
  refine { Grows.refl t with outbox := extends_map (fun r => ?_) t.outbox }
  split
  · exact hf r
  · exact .refl r

theorem grows_markProcessed (t : Tables) (id : String) : t.Grows (t.markProcessed id) := by
  refine { Grows.refl t with scheduled := extends_map (fun r => ?_) t.scheduled }
  split
  · exact ⟨rfl, fun _ => rfl⟩
  · exact .refl r

theorem grows_insertOutbox (t : Tables) (now : Time) (id subject : String) (payload : Body) (headers : Headers) :
    t.Grows (t.insertOutbox now id subject payload headers) :=
  { Grows.refl t with outbox := extends_append OutboxRow.Later.refl _ _ }

theorem grows_ingested {now exp : Time} {d : Delivery} {subject : String} {payload : Body} {headers : Headers}
    {schedule : Bool} (ht : t.ingestTransactional now d exp subject payload headers schedule = .ok t') : t.Grows t' := by
  obtain ⟨hnew, hdel⟩ := ingestTransactional_deliveries ht
  obtain ⟨-, -, -, -, hkeys⟩ := registered_keys t d exp
  have hrest := ingestTransactional_work ht
  refine ⟨?_, ?_, ?_, ?_, ?_, ?_, ?_⟩
  · rw [hrest]
    exact registered_jsonb t d exp
  · rw [hdel]
    exact keeps_update DeliveryRow.Later.refl fun r hr => by rw [hnew] at hr; cases hr
  · have hk : t'.idempotencyKeys = (t.registered d exp).idempotencyKeys := by rw [hrest]
    rw [hk, hkeys]
    split
    · exact keeps_refl Eq.refl _
    · rename_i hfree
      exact keeps_update Eq.refl fun ik hik => by rw [hfree] at hik; cases hik
  · have ha : t'.attempts = t.attempts := by rw [hrest]; exact registered_attempts t d exp
    exact ha ▸ List.prefix_rfl
  · rw [hrest]
    exact extends_append OutboxRow.Later.refl _ _
  · rw [hrest]
    exact extends_append ScheduledRow.Later.refl _ _
  · rw [hrest]
    exact List.prefix_append _ _

end Tables

section
variable (p : Params) (w : World)

theorem exec_grows (q : Remote) : w.db.Grows (exec p w q).2.db := by
  cases q with
  | update d => exact w.db.grows_update d
  | updateIfStatus d st => exact Tables.updateIfStatus_keeps (.refl w.db) (w.db.grows_update d) st
  | recordAttempt id a =>
    refine store_keeps (.refl w.db) fun t ht => ?_
    rw [Tables.recordAttempt_ok ht]
    exact { Tables.Grows.refl w.db with attempts := List.prefix_append _ _ }
  | ingestTransactional d exp subject payload headers schedule =>
    exact store_keeps (.refl w.db) fun _ => Tables.grows_ingested
  | enqueue id subject payload headers =>
    refine store_keeps (.refl w.db) fun t ht => ?_
    rw [(Tables.enqueue_ok ht).2]
    exact w.db.grows_insertOutbox ..
  | markPublished id => exact w.db.grows_setOutbox id fun r => ⟨rfl, Nat.le_refl _, fun _ => rfl⟩
  | markFailed id msg => exact w.db.grows_setOutbox id fun r => ⟨rfl, Nat.le_succ _, fun h => h⟩
  | markProcessed id => exact w.db.grows_markProcessed id
  | append id ev payload =>
    refine store_keeps (.refl w.db) fun t ht => ?_
    rw [(Tables.append_ok ht).2]
    exact { Tables.Grows.refl w.db with audit := List.prefix_append _ _ }
  | publish subject body headers =>
    have hdb : (exec p w (.publish subject body headers)).2.db = w.db := publish_db p w _
    rw [hdb]
    exact .refl w.db
  | _ => exact .refl w.db

variable {p w}

theorem grows_setCopy {i c : Nat} {s : Copy} (h : (w.copies (i, c)).Later s) : w.Grows (w.setCopy i c s) := by
  refine { World.Grows.refl w with copies := fun k => ?_ }
  by_cases hk : k = (i, c)
  · subst hk
    have hcopy : (w.setCopy i c s).copies (i, c) = s := Function.update_self ..
    rw [hcopy]
    exact h
  · have hcopy : (w.setCopy i c s).copies k = w.copies k := Function.update_of_ne hk ..
    rw [hcopy]
    exact .refl _

theorem answered_grows {op : Op} {c : Choice} {r : Ans op} {w' : World} (h : Answered p w op c r w') : w.Grows w' := by
  have hexec : ∀ q, w.Grows (exec p w q).2 := by
    intro q
    obtain ⟨hstream, hdead⟩ := exec_streams p w q
    obtain ⟨hissued, hcopies, -⟩ := exec_rest p w q
    refine ⟨exec_grows p w q, hstream, hdead, fun k => ?_, ?_⟩
    · rw [hcopies]
      exact .refl _
    · exact hissued ▸ List.suffix_rfl
  cases h with
  | newUUID ne fresh => exact { World.Grows.refl w with issued := List.suffix_cons _ _ }
  | allow proc ch => exact { World.Grows.refl w with }
  | recordSuccess proc ch => exact { World.Grows.refl w with }
  | recordFailure proc ch => exact { World.Grows.refl w with }
  | ack i c => exact grows_setCopy ⟨Nat.le_refl _, fun _ => rfl⟩
  | nak i c => exact grows_setCopy ⟨Nat.le_refl _, fun h => h⟩
  | ran q => exact hexec q
  | lost q msg => exact hexec q
  | _ => exact .refl w

end

section
variable {p : Params} {s s' : System} {l : Act}

theorem grows_step (hs : (machine p).Step s l s') : s.state.Grows s'.state := by
  cases hs with
  | @start t k w free entered =>
    have h : s.state.enter p k = some w := entered
    unfold World.enter at h
    split at h
    · split at h
      · cases h
        exact grows_setCopy ⟨Nat.le_succ _, fun h => h⟩
      · cases h
    · cases h
      exact .refl _
  | call running answered => exact answered_grows (answer_cases answered)
  | crash running => exact .refl _
  | @move m w moved =>
    have h : s.state.move m = some w := moved
    unfold World.move at h
    split at h
    · cases h
      exact { World.Grows.refl s.state with }
    · split at h
      · cases h
        exact grows_setCopy ⟨Nat.le_refl _, fun h => h⟩
      · cases h

/-- From any state, over any run with any interleaving, failing calls and crashes. -/
theorem nothing_recorded_is_lost {ok : System → Act → Prop} (hr : (machine p).Reach ok s s') :
    s.state.db.Grows s'.state.db := by
  have hgrows : s.state.Grows s'.state :=
    hr.relates World.Grows.refl (fun _ _ _ => World.Grows.trans) fun _ _ _ => grows_step
  exact hgrows.db

end

/-- A delivery stored by one thread, then sent by another. -/
theorem nothing_recorded_is_lost_sample : ∃ s s', (machine {}).run (System.init {}) (ingestCalls 0 "d1") = some s ∧
    (machine {}).run s (succeedCalls 1 "d1" "a1") = some s' ∧ s.state.db.Grows s'.state.db := by
  have hrun : (((machine {}).run (System.init {}) (ingestCalls 0 "d1")).bind fun s =>
      (machine {}).run s (succeedCalls 1 "d1" "a1")).isSome = true := by
    decide +kernel
  obtain ⟨s', hs'⟩ := Option.isSome_iff_exists.mp hrun
  obtain ⟨s, hs, hs'⟩ := Option.bind_eq_some_iff.mp hs'
  exact ⟨s, s', hs, hs', nothing_recorded_is_lost (Machine.reach_run hs')⟩

end GoCourier
