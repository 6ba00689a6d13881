import GoCourier.Handover.Outbox
import GoCourier.Handover.Schedule

/- One outbox row for each delivery. The publisher asks of a row whether its delivery has
   a published row; with one scheduler that is the row itself. -/
namespace GoCourier

open Interleave

namespace Tables
variable {t : Tables} {x : String}

/-- Two rows of a delivery that has one are the same. -/
theorem eq_of_rowCount (h : t.rowCount x ≤ 1) {r r' : OutboxRow} (hr : r ∈ t.outbox) (hr' : r' ∈ t.outbox)
    (hx : r.deliveryId = x) (hx' : r'.deliveryId = x) : r = r' := by
  unfold rowCount at h
  rw [List.countP_eq_length_filter] at h
  have hmem : ∀ {q : OutboxRow}, q ∈ t.outbox → q.deliveryId = x → q ∈ t.outbox.filter (·.deliveryId = x) := by
    intro q hq hqx
    exact List.mem_filter.mpr ⟨hq, decide_eq_true hqx⟩
  cases hf : t.outbox.filter (·.deliveryId = x) with
  | nil =>
    have := hmem hr hx
    rw [hf] at this
    cases this
  | cons q qs =>
    have hqs : qs = [] := by
      rw [hf, List.length_cons] at h
      exact List.length_eq_zero_iff.mp (by omega)
    subst hqs
    have h1 := hmem hr hx
    have h2 := hmem hr' hx'
    rw [hf, List.mem_singleton] at h1 h2
    rw [h1, h2]

theorem hasPublished_iff : t.hasPublishedForDelivery x = true ↔
    ∃ r ∈ t.outbox, r.deliveryId = x ∧ r.status = .published := by
  simp [hasPublishedForDelivery]

end Tables

section
variable {p : Params} {s : System}

/-- The row of the table a letter is from. -/
theorem row_of_letter {t : Tables} {m : OutboxMessage} (h : m.letter ∈ t.letters) :
    ∃ r ∈ t.outbox, r.id = m.id ∧ r.deliveryId = m.deliveryId ∧ r.subject = m.subject ∧ r.payload = m.payload ∧
      r.headers = m.headers := by
  obtain ⟨r, hr, hletter⟩ := List.mem_map.mp h
  have hfields : r.message.letter = m.letter := hletter
  simp only [OutboxRow.message, OutboxMessage.letter, OutboxMessage.mk.injEq] at hfields
  exact ⟨r, hr, hfields.1, hfields.2.1, hfields.2.2.1, hfields.2.2.2.1, hfields.2.2.2.2.1⟩

/-- A delivery has one outbox row at most, none while it is pending and due, and the publisher's guard
    speaks of the very row it is asked for. -/
theorem outbox_one_row (p : Params) (s : System) (hr : (machine p).Reach OneScheduler (System.init p) s) :
    (∀ x, s.state.db.rowCount x ≤ 1) ∧
      (∀ x n, s.state.db.row x = some (.pending, n) → s.state.db.rowCount x = 0 ∧ s.state.db.due x) ∧
      ∀ t k φ prog, s.threads t = some ⟨k, .flush φ, prog⟩ → ∀ m ∈ φ.rows,
        s.state.db.hasPublishedForDelivery m.deliveryId = true →
          ∃ r ∈ s.state.db.outbox, r.id = m.id ∧ r.deliveryId = m.deliveryId ∧ r.status = .published := by
  have hsched := fun x => reach_scheduling x (fun _ _ h => h) hr
  refine ⟨fun x => (hsched x).single, fun x n hrow => ?_, ?_⟩
  · obtain ⟨hdue, hlist⟩ := (hsched x).pending n hrow
    exact ⟨Tables.rowCount_eq_zero.mpr hlist, hdue⟩
  · intro t k φ prog hth m hm hpub
    have hsound := reach_outboxSound (init_opened p) hr
    obtain ⟨r, hrow, hid, hx, -⟩ := row_of_letter ((hsound.hands t k φ prog hth).carried m hm)
    obtain ⟨r', hrow', hx', hst⟩ := Tables.hasPublished_iff.mp hpub
    -- the published row of the delivery is the one in hand
    have hsame : r' = r := Tables.eq_of_rowCount (hsched m.deliveryId).single hrow' hrow hx' hx
    subst hsame
    exact ⟨r', hrow', hid, hx', hst⟩

end

/-- A delivery for later and one for now, a tick that fails halfway, another one, and a flush under way. -/
def twoDeliveries : List Act :=
  ingestCalls 0 "d1" laterRequest ++
    ingestCalls 1 "d2" { sampleRequest with idempotencyKey := "k2" } ++
    [.move (.clock 9), .start 2 .processDue] ++ runs 2 5 ++ [.call 2 (.fault "timeout"), .start 3 .processDue] ++
    runs 3 3 ++ [.start 4 .flush] ++ runs 4 5

theorem outbox_one_row_sample :
    ∃ s, (machine {}).run (System.init {}) twoDeliveries = some s ∧
      s.state.db.outbox.map (fun r => (r.deliveryId, r.status)) = [("d2", .published), ("d1", .pending)] ∧
      s.state.db.rowCount "d1" ≤ 1 ∧ s.state.db.rowCount "d2" ≤ 1 := by
  have hrun : ((machine {}).run (System.init {}) twoDeliveries).map (fun s =>
      s.state.db.outbox.map fun r => (r.deliveryId, r.status)) = some [("d2", .published), ("d1", .pending)] := by
    decide +kernel
  obtain ⟨s, hs, hout⟩ := Option.map_eq_some_iff.mp hrun
  have hr : (machine {}).Reach OneScheduler (System.init {}) s :=
    Machine.reach_of_run twoDeliveries .refl (oneScheduler_of_check (by decide +kernel)) hs
  have h := outbox_one_row {} s hr
  exact ⟨s, hs, hout, h.1 "d1", h.1 "d2"⟩

end GoCourier
