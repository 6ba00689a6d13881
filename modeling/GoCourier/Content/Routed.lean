import GoCourier.Content.Copies
import GoCourier.Handover.Messages

/- Where a message goes and what it says. An outbox row names a stored delivery, on the
   subject of its channel and priority, and so does every message that is put into the
   notification stream: it is that of an outbox row, under the headers of the row, or a
   replay's, which has no row and headers of its own. A dead letter names a delivery on
   the subject of its channel. No run breaks that, with any number of publishers,
   schedulers and replays, failing calls and crashes. The headers are those that the
   services set; trace headers are not modelled. -/
namespace GoCourier

open Interleave

/-- The outbox row is the message of a stored delivery. -/
def Tables.Writes (p : Params) (t : Tables) (m : OutboxMessage) : Prop :=
  ∃ d, t.Carries d ∧ m.deliveryId = d.id ∧ m.subject = notificationSubject p.streamPrefix d.channel d.priority ∧
    m.payload = idBody d.id ∧ m.headers = notificationHeaders d

/-- A message of the notification stream for `d`. -/
structure Message.IsFor (p : Params) (m : Message) (d : Delivery) : Prop where
  subject : m.subject = notificationSubject p.streamPrefix d.channel d.priority
  body : m.body = idBody d.id
  deliveryId : m.deliveryId = .ok d.id

/-- The message of an outbox row of `d`. -/
def Delivery.Posted (d : Delivery) (t : Tables) (m : Message) : Prop :=
  m.headers = notificationHeaders d ∧ ∃ o ∈ t.letters, o.deliveryId = d.id ∧ o.sent = m

/-- A message that a replay of `d` published. -/
def Delivery.Reposted (d : Delivery) (hist : List Called) (m : Message) : Prop :=
  m.headers = replayHeaders d.id ∧
    ∃ e ∈ hist, e.task = .replay d.id ∧ e.op = .remote (.publish m.subject m.body m.headers)

/-- A message for a stored delivery, put there by a flush or by a replay. -/
def Notifies (p : Params) (s : System) (m : Message) : Prop :=
  ∃ d, s.state.db.Carries d ∧ m.IsFor p d ∧ (d.Posted s.state.db m ∨ d.Reposted s.hist m)

/-- `d` is stored, on its channel. -/
def Tables.Knows (t : Tables) (d : Delivery) : Prop := ∃ r, t.deliveries d.id = some r ∧ r.channel = d.channel

/-- A dead letter of a stored delivery. -/
def Tables.Buries (t : Tables) (m : Message) : Prop :=
  ∃ d, t.Knows d ∧ m.subject = dlqSubject d.channel ∧ m.body = dlqBody d d.lastError ∧ m.deliveryId = .ok d.id ∧
    m.headers = [("delivery_id", d.id)]

structure Routed (p : Params) (s : System) : Prop where
  faithful : Faithful p s
  outbox : OutboxSound p s
  letters : ∀ m ∈ s.state.db.letters, s.state.db.Writes p m
  settled : ∀ t k d noted prog, s.threads t = some ⟨k, .worker (.settled d noted), prog⟩ → s.state.db.Knows d
  stream : ∀ m ∈ s.state.stream, Notifies p s m
  deadLetters : ∀ m ∈ s.state.deadLetters, s.state.db.Buries m

section
variable {p : Params} {t t' : Tables} {d : Delivery}

theorem writes_grows {m : OutboxMessage} (h : t.Writes p m) (hg : t.Grows t') : t'.Writes p m := by
  obtain ⟨d, hd, hrest⟩ := h
  exact ⟨d, has_grows hd hg, hrest⟩

theorem letters_grows {m : OutboxMessage} (hm : m ∈ t.letters) (hg : t.Grows t') : m ∈ t'.letters := by
  obtain ⟨r, hr, rfl⟩ := List.mem_map.mp hm
  obtain ⟨r', hr', hlater⟩ := hg.outbox.mem hr
  refine List.mem_map.mpr ⟨r', hr', ?_⟩
  rw [hlater.message]
  rfl

theorem has_ingested {now exp : Time} {subject : String} {payload : Body} {headers : Headers} {schedule : Bool}
    (h : t.ingestTransactional now d exp subject payload headers schedule = .ok t') :
    t'.Carries (scanDelivery d.id (d.toRow t.jsonb)) := by
  obtain ⟨-, hdel⟩ := Tables.ingestTransactional_deliveries h
  exact ⟨d.toRow t.jsonb, by rw [hdel]; exact Function.update_self .., rfl⟩

theorem knows_grows (h : t.Knows d) (hg : t.Grows t') : t'.Knows d := by
  obtain ⟨r, hr, hchannel⟩ := h
  obtain ⟨r', hr', hlater⟩ := hg.deliveries _ r hr
  refine ⟨r', hr', ?_⟩
  unfold DeliveryRow.Later at hlater
  rw [hlater]
  exact hchannel

theorem buries_grows {m : Message} (h : t.Buries m) (hg : t.Grows t') : t'.Buries m := by
  obtain ⟨d, hd, hrest⟩ := h
  exact ⟨d, knows_grows hd hg, hrest⟩

theorem knows_of_carries (h : t.Carries d) : t.Knows d := by
  obtain ⟨r, hr, hsame⟩ := h
  refine ⟨r, hr, ?_⟩
  unfold Delivery.SameContent at hsame
  rw [hsame]
  rfl

end

section
variable {p : Params} {s s' : System} {l : Act}

theorem notifies_step {m : Message} (h : Notifies p s m) (hs : (machine p).Step s l s') : Notifies p s' m := by
  obtain ⟨d, hd, hfor, horigin⟩ := h
  have hgrows := (grows_step hs).db
  refine ⟨d, has_grows hd hgrows, hfor, ?_⟩
  rcases horigin with ⟨hheaders, o, ho, hown⟩ | ⟨hheaders, e, he, hcall⟩
  · exact .inl ⟨hheaders, o, letters_grows ho hgrows, hown⟩
  · exact .inr ⟨hheaders, e, hs.remembers.subset he, hcall⟩

theorem Routed.named (h : Routed p s) {d : Delivery} (hd : s.state.db.Knows d) : d.id ≠ "" := by
  obtain ⟨r, hr, -⟩ := hd
  refine h.faithful.sane.named ?_
  rw [Tables.row_stored hr]
  exact nofun

/-- A letter that was not there before is of a delivery that is stored, by its ingest or before. -/
theorem letter_written (h : Faithful p s) (hs : (machine p).Step s l s') {m : OutboxMessage}
    (hm : m ∈ s'.state.db.letters) : m ∈ s.state.db.letters ∨ s'.state.db.Writes p m := by
  cases worked_step h.sane.conforms hs with
  | same owner outbox scheduled =>
    left
    unfold Tables.letters at hm ⊢
    rwa [outbox] at hm
  | @ingested req d exp headers schedule makes committed caller =>
    obtain ⟨u, φ, f, running⟩ := caller
    obtain ⟨-, rfl, -⟩ := h.transaction running
    refine (Tables.letter_of_append (Tables.ingested_of_ok h.sane.linked committed).outbox hm).imp_right ?_
    rintro ⟨r, hr, rfl⟩
    rw [Tables.mem_ingestWork hr]
    exact ⟨_, has_ingested committed, rfl, rfl, rfl, rfl⟩
  | @enqueued u c d ids prog label caller stored =>
    have hcarries := has_grows (h.hands u _ d caller rfl) (grows_step hs).db
    refine (Tables.letter_of_append (congrArg Tables.outbox stored) hm).imp_right ?_
    rintro ⟨r, hr, rfl⟩
    obtain rfl := List.mem_singleton.mp hr
    exact ⟨d, hcarries, rfl, rfl, rfl, rfl⟩
  | processed label caller stored =>
    left
    rw [stored] at hm
    exact hm
  | @published u c m' ms φ prog label caller phase stored =>
    exact .inl (Tables.letter_of_setOutbox (f := fun r => { r with status := .published }) (fun _ => rfl) stored hm)
  | @refused u c m' ms msg prog label caller stored =>
    exact .inl (Tables.letter_of_setOutbox (f := fun r => { r with attempts := r.attempts + 1, lastError := some msg })
      (fun _ => rfl) stored hm)

/-- What a dispatch has written is about the delivery it held. -/
theorem settles_knows (h : Routed p s) {t : Nat} {k : Task} {ψ : WorkerPhase} {prog : CallTree Op Ans Result}
    {d : Delivery} (hth : s.threads t = some ⟨k, .worker ψ, prog⟩) (hset : Settles p ψ d) : s.state.db.Knows d := by
  have hmoved : ∀ {d₀ : Delivery} {st : Status} {n : Nat} {e : String}, (Phase.worker ψ).copy = some d₀ →
      d₀.Moved d st n e → s.state.db.Knows d := by
    intro d₀ st n e hcopy hm
    obtain ⟨r, hr, hchannel⟩ := knows_of_carries (h.faithful.hands t _ d₀ hth hcopy)
    exact ⟨r, hm.id ▸ hr, hchannel.trans hm.channel.symm⟩
  cases hset with
  | noProvider absent moved => exact hmoved rfl moved
  | gaveUp out moved => exact hmoved rfl moved
  | retry more moved => exact hmoved rfl moved
  | success moved => exact hmoved rfl moved

theorem settled_knows_step (h : Routed p s) (hs : (machine p).Step s l s') {u : Nat} {k : Task} {d : Delivery}
    {noted : Bool} {prog : CallTree Op Ans Result} (hu : s'.threads u = some ⟨k, .worker (.settled d noted), prog⟩) :
    s'.state.db.Knows d := by
  have hgrows := (grows_step hs).db
  rcases worker_origin h.faithful.sane.conforms hs hu with
    ⟨before, -⟩ | hstart | ⟨c, ψ, op, f, r, label, running, answered, hmoves⟩
  · exact knows_grows (h.settled u k d noted prog before) hgrows
  · cases hstart
  · refine knows_grows ?_ hgrows
    generalize hφ : WorkerPhase.settled d noted = φ at hmoves
    cases hmoves with
    | clock ψ t => exact h.settled u k d noted _ (hφ ▸ running)
    | uuid ψ v => exact h.settled u k d noted _ (hφ ▸ running)
    | jitter ψ n r => exact h.settled u k d noted _ (hφ ▸ running)
    | settled settles v =>
      have hd := settles_knows h running settles
      cases settles <;> cases hφ <;> exact hd
    | recorded records v =>
      cases records with
      | gaveUp out number => cases hφ
      | retry status number =>
        cases hφ
        exact h.settled u k _ false _ running
      | success status number =>
        cases hφ
        exact h.settled u k _ false _ running
    | published noted' dead r =>
      cases hφ
      exact h.settled u k _ _ _ running
    | appended d' noted' new payload v =>
      cases hφ
      exact h.settled u k _ _ _ running
    | _ => cases hφ

theorem requeued_task (hc : (machine p).Conforms (protocol p) s) {t : Nat} {k : Task} {d : Delivery} {op : Op}
    {f : Ans op → CallTree Op Ans Result} (hth : s.threads t = some ⟨k, .replay (.requeued d), .ask op f⟩) :
    k = .replay d.id := by
  have hm : May p k (.replay (.requeued d)) op := hc.may hth
  cases k with
  | replay id =>
    have habout : d.id = id := hc.holds hth
    rw [habout]
  | _ => exact hm.elim

/-- What a thread is about to publish. -/
theorem Routed.published (h : Routed p s) {t : Nat} {k : Task} {φ : Phase} {m : Message}
    {f : Ans (.remote (.publish m.subject m.body m.headers)) → CallTree Op Ans Result}
    (hth : s.threads t = some ⟨k, φ, .ask (.remote (.publish m.subject m.body m.headers)) f⟩) (hpub : Publishes p φ m) :
    (∃ d, s.state.db.Carries d ∧ m.IsFor p d ∧
      (d.Posted s.state.db m ∨ k = .replay d.id ∧ m.headers = replayHeaders d.id)) ∨ s.state.db.Buries m := by
  cases hpub with
  | dead d noted =>
    have hd := h.settled t k d noted _ hth
    exact .inr ⟨d, hd, rfl, rfl, deliveryId_dlqBody (h.named hd) _ _ _, rfl⟩
  | replay d =>
    have hd := h.faithful.hands t _ d hth rfl
    have hid := deliveryId_idBody (h.named (knows_of_carries hd))
      (notificationSubject p.streamPrefix d.channel d.priority) (replayHeaders d.id)
    exact .inl ⟨d, hd, ⟨rfl, rfl, hid⟩, .inr ⟨requeued_task h.faithful.sane.conforms hth, rfl⟩⟩
  | flush m ms =>
    have hletter := (h.outbox.hands t k _ _ hth).carried m List.mem_cons_self
    obtain ⟨d, hd, hid, hsub, hpayload, hheaders⟩ := h.letters _ hletter
    have hbody : m.payload = idBody d.id := hpayload
    refine .inl ⟨d, hd, ⟨hsub, hbody, ?_⟩, .inl ⟨hheaders, _, hletter, hid, rfl⟩⟩
    rw [hbody]
    exact deliveryId_idBody (h.named (knows_of_carries hd)) _ _

theorem isFor_subject {m : Message} {d : Delivery} (h : m.IsFor p d) : m.subject ∈ allNotificationSubjects p.streamPrefix := by
  rw [h.subject]
  exact notificationSubject_mem ..

theorem buries_subject {t : Tables} {m : Message} (h : t.Buries m) :
    m.subject ∉ allNotificationSubjects p.streamPrefix := by
  obtain ⟨d, -, hsub, -⟩ := h
  rw [hsub]
  exact dlqSubject_not_mem d.channel p.streamPrefix

theorem routed_step (h : Routed p s) (hs : (machine p).Step s l s') : Routed p s' := by
  have hc := h.faithful.sane.conforms
  have hgrows := (grows_step hs).db
  have hold : ∀ m ∈ s.state.stream, Notifies p s' m := fun m hm => notifies_step (h.stream m hm) hs
  have hdead : ∀ m ∈ s.state.deadLetters, s'.state.db.Buries m := fun m hm => buries_grows (h.deadLetters m hm) hgrows
  refine ⟨faithful_step h.faithful hs, outboxSound_step h.outbox hs, fun m hm => ?_,
    fun u k d noted prog hu => settled_knows_step h hs hu, fun m hm => ?_, fun m hm => ?_⟩
  · rcases letter_written h.faithful hs hm with hold | hnew
    · exact writes_grows (h.letters m hold) hgrows
    · exact hnew
  · rcases posts_step hs with ⟨hstream, -⟩ | ⟨t, c, k, φ, subject, body, headers, f, rfl, -, hth, hposts⟩
    · exact hold m (hstream ▸ hm)
    · rcases hposts with ⟨hsub, hstream, -⟩ | ⟨-, hstream, -⟩
      · rw [hstream] at hm
        rcases List.mem_append.mp hm with hm | hm
        · exact hold m hm
        · obtain rfl := List.mem_singleton.mp hm
          rcases h.published hth (publish_may (hc.may hth)) with ⟨d, hd, hfor, horigin⟩ | hbury
          · refine ⟨d, has_grows hd hgrows, hfor, ?_⟩
            rcases horigin with ⟨hheaders, o, ho, hown⟩ | ⟨htask, hheaders⟩
            · exact .inl ⟨hheaders, o, letters_grows ho hgrows, hown⟩
            · obtain ⟨r, -, -, hhist⟩ := hs.called hth
              exact .inr ⟨hheaders, _, hhist ▸ List.mem_cons_self, htask, rfl⟩
          · exact absurd hsub (buries_subject hbury)
      · exact hold m (hstream ▸ hm)
  · rcases posts_step hs with ⟨-, hletters⟩ | ⟨t, c, k, φ, subject, body, headers, f, rfl, -, hth, hposts⟩
    · exact hdead m (hletters ▸ hm)
    · rcases hposts with ⟨-, -, hletters⟩ | ⟨hsub, -, hletters⟩
      · exact hdead m (hletters ▸ hm)
      · rw [hletters] at hm
        rcases List.mem_append.mp hm with hm | hm
        · exact hdead m hm
        · obtain rfl := List.mem_singleton.mp hm
          rcases h.published hth (publish_may (hc.may hth)) with ⟨d, -, hfor, -⟩ | hbury
          · exact absurd (isFor_subject hfor) hsub
          · exact buries_grows hbury hgrows

theorem init_routed (p : Params) : Routed p (System.init p) where
  faithful := init_faithful p
  outbox := outboxSound_of_opened (init_opened p)
  letters := by
    intro m hm
    cases hm
  settled := by
    intro t k d noted prog hth
    cases hth
  stream := by
    intro m hm
    cases hm
  deadLetters := by
    intro m hm
    cases hm

theorem reach_routed {ok : System → Act → Prop} (hr : (machine p).Reach ok (System.init p) s) : Routed p s :=
  hr.invariant (init_routed p) fun _ _ _ h _ hs => routed_step h hs

/-- Every message the broker has accepted. -/
theorem messages_routed {ok : System → Act → Prop} (hr : (machine p).Reach ok (System.init p) s) :
    (∀ m ∈ s.state.stream, Notifies p s m) ∧ ∀ m ∈ s.state.deadLetters, s.state.db.Buries m :=
  ⟨(reach_routed hr).stream, (reach_routed hr).deadLetters⟩

end

/-- A delivery that is published, given up at once and replayed. -/
def publishedTwice : List Act :=
  ingestCalls 0 "d1" ++ publishCalls 1 ++ deadLetterCalls 2 "d1" "a1" ⟨"refused", [.permanent]⟩ ++
    .start 3 (.replay "d1") :: runs 3 5

theorem messages_routed_sample : ∃ s, (machine {}).run (System.init {}) publishedTwice = some s ∧
    s.state.stream.length = 2 ∧ s.state.deadLetters.length = 1 ∧
    (∀ m ∈ s.state.stream, Notifies {} s m) ∧ ∀ m ∈ s.state.deadLetters, s.state.db.Buries m := by
  have hrun : ((machine {}).run (System.init {}) publishedTwice).map
      (fun s => (s.state.stream.length, s.state.deadLetters.length)) = some (2, 1) := by
    decide +kernel
  obtain ⟨s, hs, hlengths⟩ := Option.map_eq_some_iff.mp hrun
  obtain ⟨hstream, hdead⟩ := Prod.mk.inj hlengths
  exact ⟨s, hs, hstream, hdead, messages_routed (Machine.reach_run hs)⟩

end GoCourier
