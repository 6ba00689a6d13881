import GoCourier.Handover.Doubles
import GoCourier.Handover.Holding

/- What the broker holds of a delivery. A message that names `x` is published by a flush,
   from an outbox row of `x`; by a replay that has requeued `x`; or by a dispatch that has
   given `x` up, on the word of an earlier message. So no message names a delivery that is
   still pending, and every published outbox row is in the stream. -/
namespace GoCourier

open Interleave

/-- The stream holds a message of `x`. -/
def Sent (x : String) (s : System) : Prop := ∃ m ∈ s.state.stream, m.deliveryId = .ok x

/-- Who publishes what. -/
inductive Publishes (p : Params) : Phase → Message → Prop where
  | dead (d : Delivery) (noted : Bool) : Publishes p (.worker (.settled d noted))
      ⟨dlqSubject d.channel, dlqBody d d.lastError, [("delivery_id", d.id)]⟩
  | replay (d : Delivery) : Publishes p (.replay (.requeued d))
      ⟨notificationSubject p.streamPrefix d.channel d.priority, idBody d.id, replayHeaders d.id⟩
  | flush (m : OutboxMessage) (ms : List OutboxMessage) :
      Publishes p (.flush (.checked m ms false)) ⟨m.subject, m.payload, m.headers⟩

structure Mailed (p : Params) (s : System) : Prop where
  scheduling : ∀ x, Scheduling p x s
  published : PublishedSound p s
  addressed : s.state.db.Addressed p
  written : ∀ m ∈ s.state.db.letters, m.payload = idBody m.deliveryId
  dead : ∀ m ∈ s.state.deadLetters, m.subject ∉ allNotificationSubjects p.streamPrefix
  holding : Holding p s
  requeued : ∀ t k d prog, s.threads t = some ⟨k, .replay (.requeued d), prog⟩ → s.state.db.released d.id
  released : ∀ x, Sent x s → s.state.db.released x

section
variable {p : Params} {s s' : System} {l : Act} {x : String}

theorem publish_may {k : Task} {φ : Phase} {subject : String} {body : Body} {headers : Headers}
    (hm : May p k φ (.remote (.publish subject body headers))) : Publishes p φ ⟨subject, body, headers⟩ := by
  cases φ with
  | worker φ =>
    obtain ⟨d, noted, rfl, -, rfl, rfl, rfl⟩ := worker_may hm
    exact .dead d noted
  | replay φ =>
    cases k with
    | replay id =>
      obtain ⟨d, rfl, rfl, rfl, rfl⟩ := hm
      exact .replay d
    | _ => exact hm.elim
  | flush φ =>
    cases k with
    | flush =>
      obtain ⟨m, ms, rfl, rfl, rfl, rfl⟩ := hm
      exact .flush m ms
    | _ => exact hm.elim
  | _ => cases k <;> exact hm.elim

/-- The id of a stored delivery is no empty text. -/
theorem Sane.named (h : Sane p s) (hrow : s.state.db.row x ≠ none) : x ≠ "" :=
  h.issues.named x (h.issues.stored x (mt Tables.row_eq_none.mpr hrow))

theorem deliveryId_ne_empty {m : Message} (h : m.deliveryId = .ok x) : x ≠ "" := by
  unfold Message.deliveryId at h
  split at h
  · cases h
  · simp only [] at h
    split_ifs at h with h1 h2
    · cases h
      exact h2
    · cases h
      exact h1

theorem deliveryId_dlqBody {d : Delivery} (h : d.id ≠ "") (subject msg : String) (headers : Headers) :
    (Message.mk subject (dlqBody d msg) headers).deliveryId = .ok d.id := by
  simp [Message.deliveryId, dlqBody, h]

theorem init_mailed (p : Params) : Mailed p (System.init p) where
  scheduling x := init_scheduling p x
  published := by
    apply publishedSound_of_opened (init_opened p)
    intro r hr
    cases hr
  addressed := by
    intro m hm
    cases hm
  written := by
    intro m hm
    cases hm
  dead := by
    intro m hm
    cases hm
  holding := init_holding p
  requeued := by
    intro t k d prog h
    cases h
  released := by
    intro x h
    obtain ⟨m, hm, -⟩ := h
    cases hm

/-- A delivery with an outbox row has been released. -/
theorem Scheduling.released_of_listed (h : Scheduling p x s) (hx : s.state.db.listed x) : s.state.db.released x := by
  have hrow : s.state.db.row x ≠ none := by
    obtain ⟨r, hr, rfl⟩ := id hx
    exact mt Tables.row_eq_none.mp (h.sane.linked.outbox r hr)
  obtain ⟨⟨st, n⟩, hst⟩ := Option.ne_none_iff_exists'.mp hrow
  refine ⟨st, n, hst, fun hpend => ?_⟩
  subst hpend
  exact (h.pending n hst).2 hx

/-- The message of an outbox row names its delivery. -/
theorem Mailed.deliveryId_of_letter (h : Mailed p s) {m : OutboxMessage} (hm : m.letter ∈ s.state.db.letters) :
    m.sent.deliveryId = .ok m.deliveryId := by
  obtain ⟨r, hr, -, hrx, -⟩ := row_of_letter hm
  have hrow : s.state.db.row m.deliveryId ≠ none := by
    rw [← hrx]
    exact mt Tables.row_eq_none.mp ((h.scheduling "").sane.linked.outbox r hr)
  have hpayload : m.payload = idBody m.deliveryId := h.written m.letter hm
  unfold OutboxMessage.sent
  rw [hpayload]
  exact deliveryId_idBody ((h.scheduling "").sane.named hrow) m.subject m.headers

/-- A delivery whose message is about to be published has been released. -/
theorem Mailed.released_of_publish (h : Mailed p s) {t : Nat} {k : Task} {φ : Phase} {subject : String} {body : Body}
    {headers : Headers} {f : Ans (.remote (.publish subject body headers)) → CallTree Op Ans Result}
    (hth : s.threads t = some ⟨k, φ, .ask (.remote (.publish subject body headers)) f⟩)
    (hx : (Message.mk subject body headers).deliveryId = .ok x) : s.state.db.released x := by
  have hc := h.holding.conforms
  have hpub := publish_may (hc.may hth)
  generalize hmsg : Message.mk subject body headers = msg at hpub hx
  cases hpub with
  | dead d noted =>
    -- the handler was handed a message of its delivery
    obtain ⟨proc, i, c, m, rfl, hi, -⟩ := h.holding.handlers t k _ _ hth
    have habout : m.deliveryId = .ok d.id := worker_about hc hth
    rw [deliveryId_dlqBody (deliveryId_ne_empty habout)] at hx
    cases hx
    exact h.released d.id ⟨m, List.mem_of_getElem? hi, habout⟩
  | replay d =>
    have hrel := h.requeued t k d _ hth
    have hne := (h.scheduling d.id).sane.named (by
      obtain ⟨st, n, hrow, -⟩ := id hrel
      rw [hrow]
      exact nofun)
    rw [deliveryId_idBody hne] at hx
    cases hx
    exact hrel
  | flush m ms =>
    have hcarried := (h.published.sound.hands t k _ _ hth).carried m List.mem_cons_self
    obtain ⟨r, hr, -, hrx, -⟩ := row_of_letter hcarried
    have hrel := (h.scheduling m.deliveryId).released_of_listed ⟨r, hr, hrx⟩
    have hid : m.deliveryId = x := Except.ok.inj ((h.deliveryId_of_letter hcarried).symm.trans hx)
    exact hid ▸ hrel

theorem requeued_step (h : Mailed p s) (hs : (machine p).Step s l s') {t : Nat} {k : Task} {d : Delivery}
    {prog : CallTree Op Ans Result} (hth : s'.threads t = some ⟨k, .replay (.requeued d), prog⟩) :
    s'.state.db.released d.id := by
  have hc := h.holding.conforms
  rcases replay_origin hc hs hth with ⟨before, -⟩ | hstart | ⟨c, ψ, id, op, f, r, -, running, answered, hmoves⟩
  · exact released_step hc (h.requeued t k d prog before) hs
  · cases hstart
  · have hans := answer_cases (p := p) answered
    cases hmoves with
    | clock φ now => exact released_step hc (h.requeued t _ d _ running) hs
    | @wrote d₀ _ now dead queued u =>
      -- what it read had been released before
      have hseen := (h.scheduling d₀.id).seen t
      rw [running] at hseen
      have hstance : threadStance d₀.id (some ⟨.replay id, .replay (.snap d₀), .ask _ f⟩) = .replayer :=
        if_pos ⟨rfl, dead⟩
      rw [hstance] at hseen
      have hrow : s.state.db.row d₀.id ≠ none := released_ne_none hseen
      have hid : d.id = d₀.id := by rw [queued]
      have hst : d.status = .queued := by rw [queued]
      rw [hid]
      exact released_of_update hans nofun hid hrow (by rw [hst]; exact nofun)

theorem dead_step (h : Mailed p s) (hs : (machine p).Step s l s') :
    ∀ m ∈ s'.state.deadLetters, m.subject ∉ allNotificationSubjects p.streamPrefix := by
  intro m hm
  rcases posts_step hs with ⟨-, hd⟩ | ⟨t, c, k, φ, subject, body, headers, f, -, -, -, ⟨-, -, hd⟩ | ⟨hsub, -, hd⟩⟩
  · exact h.dead m (hd ▸ hm)
  · exact h.dead m (hd ▸ hm)
  · rw [hd] at hm
    rcases List.mem_append.mp hm with hold | hnew
    · exact h.dead m hold
    · obtain rfl := List.mem_singleton.mp hnew
      exact hsub

/-- The first message of `x`, and every other, is published by a thread that has one. -/
theorem sent_origin (hs : (machine p).Step s l s') (h : Sent x s') :
    Sent x s ∨ ∃ t c k φ subject body headers f, l = .call t c ∧
      s.threads t = some ⟨k, φ, .ask (.remote (.publish subject body headers)) f⟩ ∧
      (Message.mk subject body headers).deliveryId = .ok x ∧
      s'.state.stream = s.state.stream ++ [⟨subject, body, headers⟩] := by
  obtain ⟨m, hm, hx⟩ := h
  rcases stream_step hs with hsame | ⟨t, c, k, φ, subject, body, headers, f, hl, -, hth, -, hgrown⟩
  · exact .inl ⟨m, hsame ▸ hm, hx⟩
  · rw [hgrown] at hm
    rcases List.mem_append.mp hm with hold | hnew
    · exact .inl ⟨m, hold, hx⟩
    · obtain rfl := List.mem_singleton.mp hnew
      exact .inr ⟨t, c, k, φ, subject, body, headers, f, hl, hth, hx, hgrown⟩

theorem mailed_step (h : Mailed p s) (hok : Reliable s l) (hs : (machine p).Step s l s') : Mailed p s' where
  scheduling x := scheduling_step (h.scheduling x) hok.scheduler hs
  published := publishedSound_step h.published hs
  addressed := addressed_step h.holding.conforms h.addressed hs
  written := by
    intro m hm
    rcases letter_step h.holding.conforms hs hm with hold | ⟨ch, pri, -, hpayload⟩
    · exact h.written m hold
    · exact hpayload
  dead := dead_step h hs
  holding := holding_step h.holding hok hs
  requeued _ _ _ _ := requeued_step h hs
  released := by
    intro x hx
    rcases sent_origin hs hx with hold | ⟨t, c, k, φ, subject, body, headers, f, -, hth, hmsg, -⟩
    · exact released_step h.holding.conforms (h.released x hold) hs
    · exact released_step h.holding.conforms (h.released_of_publish hth hmsg) hs

/-- A published outbox row is in the stream. -/
theorem Mailed.sent_of_accepted (h : Mailed p s) (hx : s.state.Accepted x) : Sent x s := by
  obtain ⟨m, hm, rfl, hmem⟩ := hx
  rcases List.mem_append.mp hmem with hmem | hmem
  · obtain ⟨r, hr, rfl⟩ := List.mem_map.mp hm
    exact ⟨_, hmem, h.deliveryId_of_letter (m := r.letter) (List.mem_map_of_mem hr)⟩
  · exact absurd (h.addressed m hm) (h.dead _ hmem)

end

end GoCourier
