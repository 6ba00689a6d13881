import GoCourier.Store.Effects
import GoCourier.System.Runs

/- What one `ReplayDelivery` leaves behind, call by call. Its row write, its message and
   its audit event are three calls with nothing to undo the first, so it is all or
   nothing except where a call after the row write fails, or the answer to that write
   is lost. -/
namespace GoCourier

open Interleave

/-- What becomes of one call of the database or the broker. -/
inductive Fate where
  | run
  /-- It fails without effect. -/
  | fault (msg : String)
  /-- It takes effect and its caller sees an error. -/
  | lost (msg : String)
  deriving DecidableEq

def Fate.choice : Fate → Choice
  | .run => .run
  | .fault msg => .fault msg
  | .lost msg => .lost msg

/-- The fates of a replay's four calls. -/
structure ReplayFates where
  findByID : Fate := .run
  update : Fate := .run
  publish : Fate := .run
  append : Fate := .run

def ReplayFates.plan (f : ReplayFates) : Op → Choice
  | .remote (.findByID _) => f.findByID.choice
  | .remote (.update _) => f.update.choice
  | .remote (.publish _ _ _) => f.publish.choice
  | .remote (.append _ _ _) => f.append.choice
  | _ => .run

section
variable {p : Params} {x : String} {w : World} {r : DeliveryRow} {f : ReplayFates}

/-- An error leaves the delivery as it was; nil leaves it queued with no retries, its message
    in the stream and the event in the audit trail. -/
def AllOrNothing (p : Params) (x : String) (w : World) (f : ReplayFates) : Prop :=
  ∃ res w', CallTree.solo (planned p f.plan) (replayDelivery p x).run w = some (res, w') ∧
    match res with
    | .error _ => w'.db.deliveries x = w.db.deliveries x
    | .ok () => w'.db.row x = some (.queued, 0) ∧ (∃ m, w'.stream = w.stream ++ [m] ∧ m.body = idBody x) ∧
        ∃ ev, w'.db.audit = w.db.audit ++ [ev] ∧ ev.deliveryId = x ∧ ev.eventType = .replayed

/-- The delivery a replay writes. -/
def requeued (x : String) (r : DeliveryRow) (now : Time) : Delivery :=
  { scanDelivery x r with status := .queued, updatedAt := now, retryCount := 0 }

/-- A replay that cannot read its delivery. -/
theorem replay_unread (p : Params) (x : String) (w : World) (hf : f.findByID ≠ .run) :
    ∃ e, CallTree.solo (planned p f.plan) (replayDelivery p x).run w = some (.error e, w) := by
  unfold replayDelivery
  rw [CallTree.solo_bindE, solo_remote]
  cases hfind : f.findByID with
  | run => exact absurd hfind hf
  | fault msg =>
    simp only [ReplayFates.plan, hfind, Fate.choice, answer, Option.bind_some]
    exact ⟨_, rfl⟩
  | lost msg =>
    simp only [ReplayFates.plan, hfind, Fate.choice, answer, exec, Option.bind_some]
    exact ⟨_, rfl⟩

theorem replay_replayable {d : Delivery} (h : d.status = .dlq ∨ d.status = .failed) (now : Time) :
    d.replay now = .ok { d with status := .queued, updatedAt := now } := by
  unfold Delivery.replay
  rw [if_neg fun hn => h.elim hn.1 hn.2]

theorem replay_not_replayable {d : Delivery} (h : ¬ (d.status = .dlq ∨ d.status = .failed)) (now : Time) :
    ∃ e, d.replay now = .error e := by
  unfold Delivery.replay
  rw [if_pos (not_or.mp h)]
  exact ⟨_, rfl⟩

/-- What is left of a replay once it has read its delivery. -/
def replayWrites (p : Params) (d : Delivery) : Go Unit := do
  DeliveryRepo.update d
  MessageBroker.publish (notificationSubject p.streamPrefix d.channel d.priority) (idBody d.id)
    [("delivery_id", d.id), ("replay", "true")]
  AuditRepo.append d.id .replayed [("operator", .str "api")]

theorem replay_refused (p : Params) (hrow : w.db.deliveries x = some r) (hf : f.findByID = .run)
    (hst : ¬ (r.status = .dlq ∨ r.status = .failed)) :
    ∃ e, CallTree.solo (planned p f.plan) (replayDelivery p x).run w = some (.error e, w) := by
  obtain ⟨e, he⟩ := replay_not_replayable (show ¬ ((scanDelivery x r).status = .dlq ∨
    (scanDelivery x r).status = .failed) from hst) w.clock
  unfold replayDelivery
  rw [CallTree.solo_bindE, solo_remote]
  simp only [ReplayFates.plan, hf, Fate.choice, answer, exec, Tables.findByID_stored hrow, Option.bind_some]
  rw [CallTree.solo_bindE, solo_ask_op]
  simp only [ReplayFates.plan, answer, Option.bind_some, he]
  exact ⟨e, rfl⟩

theorem replay_accepted (hrow : w.db.deliveries x = some r) (hf : f.findByID = .run)
    (hst : r.status = .dlq ∨ r.status = .failed) :
    CallTree.solo (planned p f.plan) (replayDelivery p x).run w =
      CallTree.solo (planned p f.plan) (replayWrites p (requeued x r w.clock)).run w := by
  have he := replay_replayable (show (scanDelivery x r).status = .dlq ∨ (scanDelivery x r).status = .failed from hst)
    w.clock
  unfold replayDelivery
  rw [CallTree.solo_bindE, solo_remote]
  simp only [ReplayFates.plan, hf, Fate.choice, answer, exec, Tables.findByID_stored hrow, Option.bind_some]
  rw [CallTree.solo_bindE, solo_ask_op]
  simp only [ReplayFates.plan, answer, Option.bind_some, he]
  rfl

/-! The three writes, fate by fate. -/

theorem publish_notification (w : World) (ch : Channel) (pri : Priority) (body : Body) (headers : Headers) :
    w.publish p ⟨notificationSubject p.streamPrefix ch pri, body, headers⟩ =
      (.ok (), { w with stream := w.stream ++ [⟨notificationSubject p.streamPrefix ch pri, body, headers⟩] }) :=
  if_pos (notificationSubject_mem ..)

theorem writes_fault (p : Params) (w : World) (d : Delivery) {msg : String} (hu : f.update = .fault msg) :
    ∃ e, CallTree.solo (planned p f.plan) (replayWrites p d).run w = some (.error e, w) := by
  unfold replayWrites
  rw [CallTree.solo_bindE, solo_remote]
  simp only [ReplayFates.plan, hu, Fate.choice, answer, Option.bind_some]
  exact ⟨_, rfl⟩

/-- The row is written, and a later call fails or the write's answer is lost. -/
theorem writes_half (p : Params) (w : World) (d : Delivery) (hu : ∀ msg, f.update ≠ .fault msg)
    (hf : ¬ (f.update = .run ∧ f.publish = .run ∧ f.append = .run)) :
    ∃ e w', CallTree.solo (planned p f.plan) (replayWrites p d).run w = some (.error e, w') ∧
      w'.db.deliveries = (w.db.update d).deliveries := by
  unfold replayWrites
  rw [CallTree.solo_bindE, solo_remote]
  cases hupd : f.update with
  | fault msg => exact absurd hupd (hu msg)
  | lost msg =>
    simp only [ReplayFates.plan, hupd, Fate.choice, answer, exec, Option.bind_some]
    exact ⟨_, _, rfl, rfl⟩
  | run =>
    simp only [ReplayFates.plan, hupd, Fate.choice, answer, exec, Option.bind_some]
    rw [CallTree.solo_bindE, solo_remote]
    cases hpub : f.publish with
    | fault msg =>
      simp only [ReplayFates.plan, hpub, Fate.choice, answer, Option.bind_some]
      exact ⟨_, _, rfl, rfl⟩
    | lost msg =>
      simp only [ReplayFates.plan, hpub, Fate.choice, answer, exec, publish_notification, Option.bind_some]
      exact ⟨_, _, rfl, rfl⟩
    | run =>
      simp only [ReplayFates.plan, hpub, Fate.choice, answer, exec, publish_notification, Option.bind_some]
      rw [solo_remote]
      cases happ : f.append with
      | fault msg =>
        simp only [ReplayFates.plan, happ, Fate.choice, answer]
        exact ⟨_, _, rfl, rfl⟩
      | lost msg =>
        simp only [ReplayFates.plan, happ, Fate.choice, answer, exec]
        refine ⟨_, _, rfl, ?_⟩
        exact store_deliveries fun _ => Tables.append_deliveries
      | run => exact absurd ⟨hupd, hpub, happ⟩ hf

theorem writes_done (p : Params) (d : Delivery) (hrow : w.db.deliveries d.id = some r)
    (hf : f.update = .run ∧ f.publish = .run ∧ f.append = .run) :
    ∃ w', CallTree.solo (planned p f.plan) (replayWrites p d).run w = some (.ok (), w') ∧
      w'.db.deliveries = (w.db.update d).deliveries ∧ (∃ m, w'.stream = w.stream ++ [m] ∧ m.body = idBody d.id) ∧
      ∃ ev, w'.db.audit = w.db.audit ++ [ev] ∧ ev.deliveryId = d.id ∧ ev.eventType = .replayed := by
  obtain ⟨hupd, hpub, happ⟩ := hf
  have hset := Tables.update_stored hrow
  unfold replayWrites
  rw [CallTree.solo_bindE, solo_remote]
  simp only [ReplayFates.plan, hupd, Fate.choice, answer, exec, Option.bind_some]
  rw [CallTree.solo_bindE, solo_remote]
  simp only [ReplayFates.plan, hpub, Fate.choice, answer, exec, publish_notification, Option.bind_some]
  rw [solo_remote]
  simp only [ReplayFates.plan, happ, Fate.choice, answer, exec, Tables.append_stored hset, World.store]
  have haudit : (w.db.update d).audit = w.db.audit := by simp only [Tables.update, hrow]
  refine ⟨_, rfl, rfl, ⟨_, rfl, rfl⟩, ?_⟩
  rw [haudit]
  exact ⟨_, rfl, rfl, rfl⟩

/-- A replay is all or nothing if and only if it is refused, or it cannot read, or its row write has no
    effect, or none of its writes fails. -/
theorem replay_allOrNothing_iff (p : Params) (x : String) (w : World) (r : DeliveryRow) (f : ReplayFates)
    (hrow : w.db.deliveries x = some r) :
    AllOrNothing p x w f ↔
      ¬ (r.status = .dlq ∨ r.status = .failed) ∨ f.findByID ≠ .run ∨ (∃ msg, f.update = .fault msg) ∨
        (f.update = .run ∧ f.publish = .run ∧ f.append = .run) := by
  unfold AllOrNothing
  by_cases hfind : f.findByID = .run
  · by_cases hst : r.status = .dlq ∨ r.status = .failed
    · rw [replay_accepted hrow hfind hst]
      have hset : (w.db.update (requeued x r w.clock)).deliveries x = some (r.set (requeued x r w.clock)) := by
        simp [Tables.update, requeued, scanDelivery, hrow]
      by_cases hupd : ∃ msg, f.update = .fault msg
      · obtain ⟨msg, hmsg⟩ := hupd
        obtain ⟨e, he⟩ := writes_fault p w (requeued x r w.clock) hmsg
        exact ⟨fun _ => .inr (.inr (.inl ⟨msg, hmsg⟩)), fun _ => ⟨_, _, he, rfl⟩⟩
      · by_cases hall : f.update = .run ∧ f.publish = .run ∧ f.append = .run
        · obtain ⟨w', hsolo, hdel, hmsg, hev⟩ := writes_done p (requeued x r w.clock) hrow hall
          refine ⟨fun _ => .inr (.inr (.inr hall)), fun _ => ⟨_, _, hsolo, ?_, hmsg, hev⟩⟩
          rw [Tables.row, hdel, hset]
          rfl
        · obtain ⟨e, w', hsolo, hdel⟩ := writes_half p w (requeued x r w.clock)
            (fun msg h => hupd ⟨msg, h⟩) hall
          constructor
          · rintro ⟨res, w₁, h, hres⟩
            rw [hsolo] at h
            cases h
            -- the stored status has become queued
            rw [hdel, hset, hrow, Option.some.injEq] at hres
            have hq : r.status = .queued := (congrArg DeliveryRow.status hres).symm
            rw [hq] at hst
            exact absurd hst (by decide)
          · rintro (h | h | h | h)
            · exact absurd hst h
            · exact absurd hfind h
            · exact absurd h hupd
            · exact absurd h hall
    · obtain ⟨e, he⟩ := replay_refused p hrow hfind hst
      exact ⟨fun _ => .inl hst, fun _ => ⟨_, _, he, rfl⟩⟩
  · obtain ⟨e, he⟩ := replay_unread p x w hfind
    exact ⟨fun _ => .inr (.inl hfind), fun _ => ⟨_, _, he, rfl⟩⟩

end

/-- The delivery's email address bounces: it is dead-lettered at its first attempt. -/
def bouncedEmail : List Act := ingestCalls 0 "d1" ++ deadLetterCalls 1 "d1" "a1" ⟨"bounced", [.permanent]⟩

/-- A replay of it in which nothing fails. -/
theorem replay_allOrNothing_sample :
    ∃ s, (machine {}).run (System.init {}) bouncedEmail = some s ∧ s.state.db.row "d1" = some (.dlq, 0) ∧
      AllOrNothing {} "d1" s.state {} := by
  have hrun : ((machine {}).run (System.init {}) bouncedEmail).map (fun s => s.state.db.row "d1") =
      some (some (.dlq, 0)) := by
    decide +kernel
  obtain ⟨s, hs, hrow⟩ := Option.map_eq_some_iff.mp hrun
  obtain ⟨r, hr, -⟩ := Option.map_eq_some_iff.mp hrow
  exact ⟨s, hs, hrow, (replay_allOrNothing_iff {} "d1" s.state r {} hr).mpr (.inr (.inr (.inr ⟨rfl, rfl, rfl⟩)))⟩

/-- `Publish` fails: the replay returns an error, the delivery is queued, no message was published,
    and a later replay is refused. -/
theorem failed_publish_strands_replay :
    ∃ s w', (machine {}).run (System.init {}) bouncedEmail = some s ∧ s.state.db.row "d1" = some (.dlq, 0) ∧
      CallTree.solo (planned {} (ReplayFates.plan { publish := .fault "timeout" })) (replayDelivery {} "d1").run
        s.state = some (.error ⟨"timeout", []⟩, w') ∧
      w'.db.row "d1" = some (.queued, 0) ∧ w'.stream = s.state.stream ∧
      (CallTree.solo (planned {} (ReplayFates.plan {})) (replayDelivery {} "d1").run w').map (·.1) =
        some (.error ⟨"cannot replay from status queued", []⟩) ∧
      ¬ AllOrNothing {} "d1" s.state { publish := .fault "timeout" } := by
  have hrun : ((machine {}).run (System.init {}) bouncedEmail).bind (fun s =>
      (CallTree.solo (planned {} (ReplayFates.plan { publish := .fault "timeout" })) (replayDelivery {} "d1").run
        s.state).map fun q => (s.state.db.row "d1", q.2.db.row "d1",
          decide (q.1 = .error ⟨"timeout", []⟩) && decide (q.2.stream = s.state.stream) &&
          decide ((CallTree.solo (planned {} (ReplayFates.plan {})) (replayDelivery {} "d1").run q.2).map (·.1) =
            some (.error ⟨"cannot replay from status queued", []⟩)))) =
      some (some (.dlq, 0), some (.queued, 0), true) := by
    decide +kernel
  obtain ⟨s, hs, hsolo⟩ := Option.bind_eq_some_iff.mp hrun
  obtain ⟨⟨res, w'⟩, hw', hparts⟩ := Option.map_eq_some_iff.mp hsolo
  simp only [Prod.mk.injEq, Bool.and_eq_true, decide_eq_true_eq] at hparts
  obtain ⟨hrow, hrow', ⟨rfl, hstream⟩, hagain⟩ := hparts
  refine ⟨s, w', hs, hrow, hw', hrow', hstream, hagain, ?_⟩
  rintro ⟨res, w₁, h, hres⟩
  rw [hw'] at h
  cases h
  have hsame : w'.db.deliveries "d1" = s.state.db.deliveries "d1" := hres
  rw [Tables.row, hsame, ← Tables.row, hrow] at hrow'
  cases hrow'

end GoCourier
