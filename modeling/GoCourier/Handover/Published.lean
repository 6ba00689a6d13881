import GoCourier.Handover.Outbox
import GoCourier.Lib.CallTree

/- What the publisher makes of the outbox, from any contents, with any number of
   flushes, failing calls and crashes. A row is marked published on the word of the
   broker, or of another published row of its delivery: whoever was first had it from
   the broker. -/
namespace GoCourier

open Interleave

/-- The broker message of a row. -/
def OutboxMessage.sent (m : OutboxMessage) : Message := ⟨m.subject, m.payload, m.headers⟩

/-- The broker holds a message of a row of delivery `x`. -/
def World.Accepted (w : World) (x : String) : Prop :=
  ∃ m ∈ w.db.letters, m.deliveryId = x ∧ m.sent ∈ w.stream ++ w.deadLetters

section
variable {p : Params} {w w' : World} {op : Op} {c : Choice} {r : Ans op}

/-- A call leaves the streams alone, or is a `Publish` whose message goes to one of them. -/
theorem exec_posts (p : Params) (w : World) (q : Remote) :
    ((exec p w q).2.stream = w.stream ∧ (exec p w q).2.deadLetters = w.deadLetters) ∨
      ∃ subject body headers, q = .publish subject body headers ∧
        (subject ∈ allNotificationSubjects p.streamPrefix ∧
            (exec p w q).2.stream = w.stream ++ [⟨subject, body, headers⟩] ∧
            (exec p w q).2.deadLetters = w.deadLetters ∨
          subject ∉ allNotificationSubjects p.streamPrefix ∧ (exec p w q).2.stream = w.stream ∧
            (exec p w q).2.deadLetters = w.deadLetters ++ [⟨subject, body, headers⟩]) := by
  have hstore : ∀ e : Except Err Tables,
      (w.store e).2.stream = w.stream ∧ (w.store e).2.deadLetters = w.deadLetters := by
    intro e
    cases e <;> exact ⟨rfl, rfl⟩
  cases q with
  | recordAttempt id a => exact .inl (hstore _)
  | ingestTransactional d exp subject payload headers schedule => exact .inl (hstore _)
  | enqueue id subject payload headers => exact .inl (hstore _)
  | append id ev payload => exact .inl (hstore _)
  | publish subject body headers =>
    simp only [exec, World.publish]
    split_ifs with hsub
    · exact .inr ⟨subject, body, headers, rfl, .inl ⟨hsub, rfl, rfl⟩⟩
    · exact .inr ⟨subject, body, headers, rfl, .inr ⟨hsub, rfl, rfl⟩⟩
    · exact .inl ⟨rfl, rfl⟩
  | _ => exact .inl ⟨rfl, rfl⟩

/-- The streams only grow. -/
theorem exec_streams (p : Params) (w : World) (q : Remote) :
    w.stream <+: (exec p w q).2.stream ∧ w.deadLetters <+: (exec p w q).2.deadLetters := by
  rcases exec_posts p w q with ⟨hs, hd⟩ | ⟨subject, body, headers, -, ⟨-, hs, hd⟩ | ⟨-, hs, hd⟩⟩
  · rw [hs, hd]
    exact ⟨List.prefix_rfl, List.prefix_rfl⟩
  · rw [hs, hd]
    exact ⟨List.prefix_append .., List.prefix_rfl⟩
  · rw [hs, hd]
    exact ⟨List.prefix_rfl, List.prefix_append ..⟩

theorem answered_streams (h : Answered p w op c r w') : w.stream <+: w'.stream ∧ w.deadLetters <+: w'.deadLetters := by
  cases h with
  | ran q => exact exec_streams p w q
  | lost q msg => exact exec_streams p w q
  | _ => exact ⟨List.prefix_refl _, List.prefix_refl _⟩

end

section
variable {p : Params} {s s' : System} {l : Act} {x : String}

theorem enter_streams {k : Task} {w w' : World} (h : w.enter p k = some w') :
    w'.stream = w.stream ∧ w'.deadLetters = w.deadLetters := by
  unfold World.enter at h
  split at h
  · split at h
    · cases h
      exact ⟨rfl, rfl⟩
    · cases h
  · cases h
    exact ⟨rfl, rfl⟩

theorem move_streams {m : Move} {w w' : World} (h : w.move m = some w') :
    w'.stream = w.stream ∧ w'.deadLetters = w.deadLetters := by
  unfold World.move at h
  split at h
  · cases h
    exact ⟨rfl, rfl⟩
  · split at h
    · cases h
      exact ⟨rfl, rfl⟩
    · cases h

theorem streams_step (hs : (machine p).Step s l s') :
    s.state.stream <+: s'.state.stream ∧ s.state.deadLetters <+: s'.state.deadLetters := by
  cases hs with
  | start free entered =>
    obtain ⟨h1, h2⟩ := enter_streams entered
    exact ⟨h1 ▸ List.prefix_refl _, h2 ▸ List.prefix_refl _⟩
  | call running answered => exact answered_streams (answer_cases answered)
  | crash running => exact ⟨List.prefix_refl _, List.prefix_refl _⟩
  | move moved =>
    obtain ⟨h1, h2⟩ := move_streams moved
    exact ⟨h1 ▸ List.prefix_refl _, h2 ▸ List.prefix_refl _⟩

theorem accepted_step (hc : (machine p).Conforms (protocol p) s) (hs : (machine p).Step s l s')
    (h : s.state.Accepted x) : s'.state.Accepted x := by
  obtain ⟨m, hm, hx, hsent⟩ := h
  obtain ⟨h1, h2⟩ := streams_step hs
  refine ⟨m, (letters_step hc hs).subset hm, hx, ?_⟩
  rcases List.mem_append.mp hsent with h | h
  · exact List.mem_append_left _ (h1.subset h)
  · exact List.mem_append_right _ (h2.subset h)

/-- What a flush relies on when it goes on to mark its row published. -/
def FlushPhase.Backed (w : World) : FlushPhase → Prop
  | .checked m _ true => w.Accepted m.deliveryId
  | .sent m _ true => w.Accepted m.deliveryId
  | _ => True

/-- Every published row stands for a message the broker holds. -/
structure PublishedSound (p : Params) (s : System) : Prop where
  sound : OutboxSound p s
  rows : ∀ r ∈ s.state.db.outbox, r.status = .published → s.state.Accepted r.deliveryId
  backed : ∀ t k φ prog, s.threads t = some ⟨k, .flush φ, prog⟩ → φ.Backed s.state

/-- A `Publish` that is answered with nil has stored its message. -/
theorem publish_stored {m : Message} {w w' : World} (h : w.publish p m = (.ok (), w')) :
    m ∈ w'.stream ++ w'.deadLetters := by
  unfold World.publish at h
  split_ifs at h
  · cases h
    simp
  · cases h
    simp
  · cases h

theorem backed_step (h : PublishedSound p s) (hs : (machine p).Step s l s') {u : Nat} {k : Task} {φ : FlushPhase}
    {prog : CallTree Op Ans Result} (hu : s'.threads u = some ⟨k, .flush φ, prog⟩) : φ.Backed s'.state := by
  have hc := h.sound.conforms
  rcases flush_origin hc hs hu with ⟨before, -⟩ | rfl | ⟨c, ψ, op, f, r, -, running, answered, hmoves⟩
  · have hback := h.backed u k φ prog before
    cases φ with
    | checked m ms b =>
      cases b with
      | true => exact accepted_step hc hs hback
      | false => trivial
    | sent m ms b =>
      cases b with
      | true => exact accepted_step hc hs hback
      | false => trivial
    | _ => trivial
  · trivial
  · have hans := answer_cases (p := p) answered
    cases hmoves with
    | checked m ms b =>
      cases b with
      | false => trivial
      | true =>
        -- another row of the delivery is published, and stands for a message
        obtain ⟨-, hexec⟩ := answered_ok hans
        have hpub : s.state.db.hasPublishedForDelivery m.deliveryId = true := Except.ok.inj (congrArg Prod.fst hexec)
        simp only [Tables.hasPublishedForDelivery, List.any_eq_true, decide_eq_true_eq] at hpub
        obtain ⟨r, hr, hx, hst⟩ := hpub
        exact accepted_step hc hs (hx ▸ h.rows r hr hst)
    | sent m ms =>
      obtain ⟨-, hexec⟩ := answered_ok hans
      have hcarried := (h.sound.hands u _ _ _ running).carried m List.mem_cons_self
      exact ⟨m.letter, (letters_step hc hs).subset hcarried, rfl, publish_stored hexec⟩
    | _ => trivial

theorem publishedSound_step (h : PublishedSound p s) (hs : (machine p).Step s l s') : PublishedSound p s' := by
  have hc := h.sound.conforms
  refine ⟨outboxSound_step h.sound hs, ?_, fun u k φ prog hu => backed_step h hs hu⟩
  intro r' hr' hst'
  cases posted_step hc hs with
  | added rs outbox rows =>
    rw [outbox] at hr'
    rcases List.mem_append.mp hr' with hr | hr
    · exact accepted_step hc hs (h.rows r' hr hst')
    · obtain ⟨i, hi⟩ := List.mem_iff_getElem?.mp hr
      rw [(rows i r' hi).2.1] at hst'
      cases hst'
  | @published u c m ms φ prog label caller phase stored =>
    rw [stored] at hr'
    obtain ⟨r, hr, rfl⟩ := List.mem_map.mp hr'
    by_cases hid : r.id = m.id
    · rw [if_pos hid]
      -- the row in hand, and its delivery's message
      have hacc : s.state.Accepted m.deliveryId := by
        have hback := h.backed u _ φ _ caller
        rcases phase with rfl | rfl <;> exact hback
      have hcarried : m.letter ∈ s.state.db.letters := by
        have hhand := (h.sound.hands u _ φ _ caller).carried m
        rcases phase with rfl | rfl <;> exact hhand List.mem_cons_self
      obtain ⟨r₀, hr₀, hletter⟩ := List.mem_map.mp hcarried
      have hsame : r₀ = r := by
        have hid₀ : r₀.id = m.id := congrArg OutboxMessage.id hletter
        exact h.sound.numbered.inj hr₀ hr (hid₀.trans hid.symm)
      have hx : r₀.deliveryId = m.deliveryId := congrArg OutboxMessage.deliveryId hletter
      have hacc' : s.state.Accepted r.deliveryId := by
        rw [← hsame, hx]
        exact hacc
      exact accepted_step hc hs hacc'
    · rw [if_neg hid] at hst' ⊢
      exact accepted_step hc hs (h.rows r hr hst')
  | @refused u c m ms msg prog label caller stored =>
    rw [stored] at hr'
    obtain ⟨r, hr, rfl⟩ := List.mem_map.mp hr'
    by_cases hid : r.id = m.id
    · rw [if_pos hid] at hst' ⊢
      exact accepted_step hc hs (h.rows r hr hst')
    · rw [if_neg hid] at hst' ⊢
      exact accepted_step hc hs (h.rows r hr hst')

theorem publishedSound_of_opened (h : Opened s)
    (hrows : ∀ r ∈ s.state.db.outbox, r.status = .published → s.state.Accepted r.deliveryId) : PublishedSound p s := by
  refine ⟨outboxSound_of_opened h, hrows, ?_⟩
  intro t k φ prog hth
  rw [h.idle t] at hth
  cases hth

end

end GoCourier
