import GoCourier.Store.Tables

/- What each statement leaves in each table. A delivery's row is read here as its
   status and retry count, the two columns the services decide by. -/
namespace GoCourier

namespace Tables

/-- Status and retry count of a stored delivery. -/
def row (t : Tables) (x : String) : Option (Status × Nat) :=
  (t.deliveries x).map fun r => (r.status, r.retryCount)

theorem row_congr {t t' : Tables} (h : t'.deliveries = t.deliveries) (x : String) : t'.row x = t.row x := by
  unfold row
  rw [h]

theorem findByID_ok {t : Tables} {id : String} {d : Delivery} (h : t.findByID id = .ok d) :
    d.id = id ∧ t.row id = some (d.status, d.retryCount) := by
  unfold findByID at h
  split at h
  · rename_i r hr
    cases h
    exact ⟨rfl, by simp [row, hr, scanDelivery]⟩
  · cases h

/-! The statements about a stored delivery. -/

section
variable {t : Tables} {x : String} {r : DeliveryRow}

theorem row_stored (h : t.deliveries x = some r) : t.row x = some (r.status, r.retryCount) := by
  rw [row, h]
  rfl

theorem findByID_stored (h : t.deliveries x = some r) : t.findByID x = .ok (scanDelivery x r) := by
  rw [findByID, h]

theorem update_stored {d : Delivery} (h : t.deliveries d.id = some r) : (t.update d).deliveries d.id = some (r.set d) := by
  rw [update, h]
  exact Function.update_self ..

theorem recordAttempt_stored (h : t.deliveries x = some r) (a : Attempt) :
    t.recordAttempt x a = .ok { t with attempts := t.attempts ++ [⟨x, a⟩] } := by
  rw [recordAttempt, h]

theorem append_stored (h : t.deliveries x = some r) (now : Time) (ev : DomainEventType) (payload : AuditPayload) :
    t.append now x ev payload = .ok { t with audit := t.audit ++ [⟨⟨x, ev, payload⟩, now⟩] } := by
  rw [append, h]

theorem enqueue_stored (h : t.deliveries x = some r) (now : Time) (subject : String) (payload : Body) (headers : Headers) :
    t.enqueue now x subject payload headers = .ok (t.insertOutbox now x subject payload headers) := by
  rw [enqueue, h]

end

/-! The statements that write `deliveries`. -/

theorem row_update (t : Tables) (d : Delivery) (x : String) :
    (t.update d).row x = if d.id = x then (t.row x).map fun _ => (d.status, d.retryCount) else t.row x := by
  unfold update
  split
  · rename_i r hr
    split
    · rename_i hx
      subst hx
      simp [row, hr, DeliveryRow.set]
    · rename_i hx
      simp [row, Function.update_of_ne (Ne.symm hx)]
  · rename_i hr
    split
    · rename_i hx
      subst hx
      simp [row, hr]
    · rfl

/-- `UpdateIfStatus` either matched, and wrote like `Update`, or changed nothing. -/
theorem updateIfStatus_cases (t : Tables) (d : Delivery) (st : Status) :
    (∃ m, t.row d.id = some (st, m) ∧ t.updateIfStatus d st = (true, t.update d)) ∨
      ((∀ m, t.row d.id ≠ some (st, m)) ∧ t.updateIfStatus d st = (false, t)) := by
  unfold updateIfStatus update row
  cases hr : t.deliveries d.id with
  | none => exact .inr ⟨fun m => by simp, rfl⟩
  | some r =>
    by_cases hst : r.status = st
    · exact .inl ⟨r.retryCount, by simp [hst], by simp [hst]⟩
    · refine .inr ⟨fun m h => hst ?_, by simp [hst]⟩
      simp only [Option.map_some, Option.some.injEq, Prod.mk.injEq] at h
      exact h.1

theorem append_deliveries {t t' : Tables} {now : Time} {id : String} {ev : DomainEventType} {payload : AuditPayload}
    (h : t.append now id ev payload = .ok t') : t'.deliveries = t.deliveries := by
  unfold append at h
  split at h
  · cases h
    rfl
  · cases h

theorem recordAttempt_deliveries {t t' : Tables} {id : String} {a : Attempt} (h : t.recordAttempt id a = .ok t') :
    t'.deliveries = t.deliveries := by
  unfold recordAttempt at h
  split at h
  · cases h
    rfl
  · cases h

theorem enqueue_deliveries {t t' : Tables} {now : Time} {id subject : String} {payload : Body} {headers : Headers}
    (h : t.enqueue now id subject payload headers = .ok t') : t'.deliveries = t.deliveries := by
  unfold enqueue at h
  split at h
  · cases h
    rfl
  · cases h

theorem insertDelivery_ok {t t' : Tables} {d : Delivery} (h : t.insertDelivery d = .ok t') :
    t.deliveries d.id = none ∧ t' = { t with deliveries := Function.update t.deliveries d.id (some (d.toRow t.jsonb)) } := by
  unfold insertDelivery at h
  split at h
  · cases h
  · rename_i hr
    cases h
    exact ⟨hr, rfl⟩

theorem insertIdempotency_deliveries (t : Tables) (key : String) (ch : Channel) (r : IdempotencyRow) :
    (t.insertIdempotency key ch r).deliveries = t.deliveries := by
  unfold insertIdempotency
  split <;> rfl

theorem insertWork_deliveries {t t' : Tables} {now : Time} {d : Delivery} {subject : String} {payload : Body}
    {headers : Headers} {schedule : Bool} (h : t.insertWork now d subject payload headers schedule = .ok t') :
    t'.deliveries = t.deliveries := by
  unfold insertWork at h
  rw [append_deliveries h]
  split <;> rfl

/-- The tables once the transaction has inserted its delivery and tried for the key. -/
def registered (t : Tables) (d : Delivery) (exp : Time) : Tables :=
  ({ t with deliveries := Function.update t.deliveries d.id (some (d.toRow t.jsonb)) } : Tables).insertIdempotency
    d.idempotencyKey d.channel ⟨d.id, exp⟩

theorem registered_attempts (t : Tables) (d : Delivery) (exp : Time) : (t.registered d exp).attempts = t.attempts := by
  unfold registered insertIdempotency
  split <;> rfl

theorem registered_jsonb (t : Tables) (d : Delivery) (exp : Time) : (t.registered d exp).jsonb = t.jsonb := by
  unfold registered insertIdempotency
  split <;> rfl

/-- A committed transaction found the id new and the key its own. -/
theorem ingestTransactional_ok {t t' : Tables} {now exp : Time} {d : Delivery} {subject : String}
    {payload : Body} {headers : Headers} {schedule : Bool}
    (h : t.ingestTransactional now d exp subject payload headers schedule = .ok t') :
    t.deliveries d.id = none ∧
      (∃ ik, (t.registered d exp).idempotencyKeys (d.idempotencyKey, d.channel) = some ik ∧ ik.deliveryId = d.id) ∧
      (t.registered d exp).insertWork now d subject payload headers schedule = .ok t' := by
  unfold ingestTransactional at h
  split at h
  · cases h
  · rename_i t₁ ht₁
    obtain ⟨hnone, rfl⟩ := insertDelivery_ok ht₁
    simp only [] at h
    split at h
    · cases h
    · rename_i ik hik
      split at h
      · cases h
      · rename_i hid
        exact ⟨hnone, ⟨ik, hik, not_not.mp hid⟩, h⟩

theorem ingestTransactional_deliveries {t t' : Tables} {now exp : Time} {d : Delivery} {subject : String}
    {payload : Body} {headers : Headers} {schedule : Bool}
    (h : t.ingestTransactional now d exp subject payload headers schedule = .ok t') :
    t.deliveries d.id = none ∧ t'.deliveries = Function.update t.deliveries d.id (some (d.toRow t.jsonb)) := by
  obtain ⟨hnone, -, hwork⟩ := ingestTransactional_ok h
  refine ⟨hnone, ?_⟩
  rw [insertWork_deliveries hwork, registered, insertIdempotency_deliveries]

theorem row_insert {t t' : Tables} {d : Delivery}
    (h : t'.deliveries = Function.update t.deliveries d.id (some (d.toRow t.jsonb))) (x : String) :
    t'.row x = if d.id = x then some (d.status, d.retryCount) else t.row x := by
  unfold row
  rw [h]
  split
  · rename_i hx
    subst hx
    simp [Delivery.toRow]
  · rename_i hx
    rw [Function.update_of_ne (Ne.symm hx)]

end Tables

/-- A lookup by key that finds nothing says so. -/
theorem lookup_error {t : Tables} {now : Time} {key : String} {ch : Channel} {e : Err}
    (h : t.findByIdempotencyKey now key ch = .error e) : e = errNotFound := by
  unfold Tables.findByIdempotencyKey at h
  split at h
  · split_ifs at h
    · split at h
      · cases h
      · cases h
        rfl
    · cases h
      rfl
  · cases h
    rfl

end GoCourier
