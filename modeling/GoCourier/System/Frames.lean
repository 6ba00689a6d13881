import GoCourier.Store.Effects
import GoCourier.System.World

/- What each call leaves alone: the tables a statement does not write, and the parts of
   the world that no statement touches. -/
namespace GoCourier

namespace Tables
variable {t t' : Tables}

theorem update_rest (t : Tables) (d : Delivery) :
    (t.update d).idempotencyKeys = t.idempotencyKeys ∧ (t.update d).outbox = t.outbox ∧
      (t.update d).scheduled = t.scheduled ∧ (t.update d).audit = t.audit := by
  unfold update
  split <;> exact ⟨rfl, rfl, rfl, rfl⟩

/-- What an UPDATE keeps, whether or not it finds its row. -/
theorem updateIfStatus_keeps {P : Tables → Prop} {d : Delivery} (h : P t) (hupdate : P (t.update d)) (st : Status) :
    P (t.updateIfStatus d st).2 := by
  obtain ⟨m, -, hwin⟩ | ⟨-, hlose⟩ := t.updateIfStatus_cases d st
  · rwa [hwin]
  · rwa [hlose]

theorem recordAttempt_ok {id : String} {a : Attempt} (h : t.recordAttempt id a = .ok t') :
    t' = { t with attempts := t.attempts ++ [⟨id, a⟩] } := by
  unfold recordAttempt at h
  split at h <;> cases h
  rfl

theorem enqueue_ok {now : Time} {id subject : String} {payload : Body} {headers : Headers}
    (h : t.enqueue now id subject payload headers = .ok t') :
    t.deliveries id ≠ none ∧ t' = t.insertOutbox now id subject payload headers := by
  unfold enqueue at h
  split at h
  · rename_i r hr
    cases h
    exact ⟨fun hn => (by rw [hr] at hn; cases hn), rfl⟩
  · cases h

theorem append_ok {now : Time} {id : String} {ev : DomainEventType} {payload : AuditPayload}
    (h : t.append now id ev payload = .ok t') :
    t.deliveries id ≠ none ∧ t' = { t with audit := t.audit ++ [⟨⟨id, ev, payload⟩, now⟩] } := by
  unfold append at h
  split at h
  · rename_i r hr
    cases h
    exact ⟨fun hn => (by rw [hr] at hn; cases hn), rfl⟩
  · cases h

end Tables

/-! Calls by the tables they write. -/

/-- The transaction of an `Ingest`. -/
def Op.Stores : Op → Prop
  | .remote (.ingestTransactional _ _ _ _ _ _) => True
  | _ => False

/-- A call that writes outbox rows or scheduled rows. -/
def Op.Works : Op → Prop
  | .remote (.ingestTransactional _ _ _ _ _ _) | .remote (.enqueue _ _ _ _) | .remote (.markPublished _)
  | .remote (.markFailed _ _) | .remote (.markProcessed _) => True
  | _ => False

section
variable (p : Params) (w : World)

theorem publish_db (m : Message) : (w.publish p m).2.db = w.db := by
  unfold World.publish
  split_ifs <;> rfl

theorem exec_rest (q : Remote) :
    (exec p w q).2.issued = w.issued ∧ (exec p w q).2.copies = w.copies ∧ (exec p w q).2.clock = w.clock := by
  have hstore : ∀ e : Except Err Tables, (w.store e).2.issued = w.issued ∧ (w.store e).2.copies = w.copies ∧
      (w.store e).2.clock = w.clock := by
    intro e
    cases e <;> exact ⟨rfl, rfl, rfl⟩
  cases q with
  | recordAttempt id a => exact hstore _
  | ingestTransactional d exp subject payload headers schedule => exact hstore _
  | enqueue id subject payload headers => exact hstore _
  | append id ev payload => exact hstore _
  | publish subject body headers =>
    simp only [exec, World.publish]
    split_ifs <;> exact ⟨rfl, rfl, rfl⟩
  | _ => exact ⟨rfl, rfl, rfl⟩

theorem exec_keys {q : Remote} (hq : ¬ (Op.remote q).Stores) :
    (exec p w q).2.db.idempotencyKeys = w.db.idempotencyKeys := by
  cases q with
  | update d => exact (Tables.update_rest w.db d).1
  | updateIfStatus d st =>
    exact Tables.updateIfStatus_keeps (P := (·.idempotencyKeys = w.db.idempotencyKeys)) rfl (Tables.update_rest w.db d).1 st
  | recordAttempt id a =>
    exact store_keeps (P := (·.idempotencyKeys = w.db.idempotencyKeys)) rfl fun t ht => by rw [Tables.recordAttempt_ok ht]
  | enqueue id subject payload headers =>
    refine store_keeps (P := (·.idempotencyKeys = w.db.idempotencyKeys)) rfl fun t ht => ?_
    rw [(Tables.enqueue_ok ht).2]
    rfl
  | append id ev payload =>
    exact store_keeps (P := (·.idempotencyKeys = w.db.idempotencyKeys)) rfl fun t ht => by rw [(Tables.append_ok ht).2]
  | publish subject body headers => exact congrArg Tables.idempotencyKeys (publish_db p w _)
  | ingestTransactional d exp subject payload headers schedule => exact absurd trivial hq
  | _ => rfl

/-- Attempts are recorded and never changed. -/
theorem exec_attempts (q : Remote) : (exec p w q).2.db.attempts = w.db.attempts ∨
    ∃ id a, q = .recordAttempt id a ∧ (exec p w q).2.db.attempts = w.db.attempts ++ [⟨id, a⟩] := by
  have hupdate : ∀ d, (w.db.update d).attempts = w.db.attempts := by
    intro d
    unfold Tables.update
    split <;> rfl
  have hstore : ∀ {e : Except Err Tables}, (∀ t, e = .ok t → t.attempts = w.db.attempts) →
      (w.store e).2.db.attempts = w.db.attempts := fun he => store_keeps (P := (·.attempts = w.db.attempts)) rfl he
  cases q with
  | recordAttempt id a =>
    cases he : w.db.recordAttempt id a with
    | error e =>
      left
      simp only [exec, he]
      rfl
    | ok t =>
      refine .inr ⟨id, a, rfl, ?_⟩
      simp only [exec, he, World.store]
      rw [Tables.recordAttempt_ok he]
  | update d => exact .inl (hupdate d)
  | updateIfStatus d st =>
    exact .inl (Tables.updateIfStatus_keeps (P := (·.attempts = w.db.attempts)) rfl (hupdate d) st)
  | ingestTransactional d exp subject payload headers schedule =>
    left
    apply hstore
    intro t ht
    obtain ⟨-, -, hwork⟩ := Tables.ingestTransactional_ok ht
    rw [(Tables.append_ok hwork).2, ← Tables.registered_attempts w.db d exp]
    split <;> rfl
  | enqueue id subject payload headers =>
    left
    apply hstore
    intro t ht
    rw [(Tables.enqueue_ok ht).2]
    rfl
  | append id ev payload =>
    left
    apply hstore
    intro t ht
    rw [(Tables.append_ok ht).2]
  | publish subject body headers => exact .inl (congrArg Tables.attempts (publish_db p w _))
  | _ => exact .inl rfl

theorem exec_work {q : Remote} (hq : ¬ (Op.remote q).Works) :
    (exec p w q).2.db.outbox = w.db.outbox ∧ (exec p w q).2.db.scheduled = w.db.scheduled := by
  have hupdate : ∀ d, (w.db.update d).outbox = w.db.outbox ∧ (w.db.update d).scheduled = w.db.scheduled :=
    fun d => ⟨(Tables.update_rest w.db d).2.1, (Tables.update_rest w.db d).2.2.1⟩
  have hstore : ∀ {e : Except Err Tables}, (∀ t, e = .ok t → t.outbox = w.db.outbox ∧ t.scheduled = w.db.scheduled) →
      (w.store e).2.db.outbox = w.db.outbox ∧ (w.store e).2.db.scheduled = w.db.scheduled := fun he =>
    store_keeps (P := fun t => t.outbox = w.db.outbox ∧ t.scheduled = w.db.scheduled) ⟨rfl, rfl⟩ he
  cases q with
  | update d => exact hupdate d
  | updateIfStatus d st =>
    exact Tables.updateIfStatus_keeps (P := fun t => t.outbox = w.db.outbox ∧ t.scheduled = w.db.scheduled)
      ⟨rfl, rfl⟩ (hupdate d) st
  | recordAttempt id a =>
    refine hstore fun t ht => ?_
    rw [Tables.recordAttempt_ok ht]
    exact ⟨rfl, rfl⟩
  | append id ev payload =>
    refine hstore fun t ht => ?_
    rw [(Tables.append_ok ht).2]
    exact ⟨rfl, rfl⟩
  | publish subject body headers =>
    have hdb : (exec p w (.publish subject body headers)).2.db = w.db := publish_db p w _
    rw [hdb]
    exact ⟨rfl, rfl⟩
  | ingestTransactional d exp subject payload headers schedule => exact absurd trivial hq
  | enqueue id subject payload headers => exact absurd trivial hq
  | markPublished id => exact absurd trivial hq
  | markFailed id msg => exact absurd trivial hq
  | markProcessed id => exact absurd trivial hq
  | _ => exact ⟨rfl, rfl⟩

end

end GoCourier
