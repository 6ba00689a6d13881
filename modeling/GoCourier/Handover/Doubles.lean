import GoCourier.Handover.OneRow

/- Publishers side by side. The locks of `FetchPending` are gone when the statement ends,
   so two flushes may have one row in hand, and what keeps the second from publishing it
   is `HasPublishedForDelivery`: asked before `Publish`, and answered from what
   `MarkPublished` writes after it. It keeps its promise exactly while no flush asks
   within another's two steps. -/
namespace GoCourier

open Interleave

/-- The delivery of which the flush has been told that no row is published, until it has marked its own. -/
def FlushPhase.claim : FlushPhase → Option String
  | .checked m _ false => some m.deliveryId
  | .sent m _ true => some m.deliveryId
  | _ => none

/-- Thread `t` is a flush that claims `x`. -/
def Claimant (x : String) (s : System) (t : Nat) : Prop :=
  ∃ k φ prog, s.threads t = some ⟨k, .flush φ, prog⟩ ∧ φ.claim = some x

/-- The flush of thread `t` is told in this step that no row of `x` is published. -/
def ToldNone (x : String) (s : System) (l : Act) (t : Nat) : Prop :=
  ∃ c k m ms prog, l = .call t c ∧ s.threads t = some ⟨k, .flush (.going (m :: ms)), prog⟩ ∧ m.deliveryId = x ∧
    s.state.db.hasPublishedForDelivery x = false

/-- … while another flush claims `x`. -/
def Collides (x : String) (s : System) (l : Act) : Prop := ∃ t u, ToldNone x s l t ∧ u ≠ t ∧ Claimant x s u

/-- The row of `x` a flush hands to `Publish` in this step. -/
def handsOver (x : String) (s : System) : Act → List Nat
  | .call t _ => match s.threads t with
    | some ⟨_, .flush (.checked m _ _), .ask (.remote (.publish _ _ _)) _⟩ => if m.deliveryId = x then [m.id] else []
    | _ => []
  | _ => []

/-- Every row is for the notification stream. -/
def Tables.Addressed (p : Params) (t : Tables) : Prop :=
  ∀ m ∈ t.letters, m.subject ∈ allNotificationSubjects p.streamPrefix

section
variable {p : Params} {s s' : System} {l : Act} {x : String}

/-- A letter that was not there before is for a delivery's subject, and names the delivery. -/
theorem letter_step (hc : (machine p).Conforms (protocol p) s) (hs : (machine p).Step s l s') {m : OutboxMessage}
    (hm : m ∈ s'.state.db.letters) : m ∈ s.state.db.letters ∨
      ∃ ch pri, m.subject = notificationSubject p.streamPrefix ch pri ∧ m.payload = idBody m.deliveryId := by
  cases worked_step hc hs with
  | same owner outbox scheduled =>
    left
    unfold Tables.letters at hm ⊢
    rwa [outbox] at hm
  | @ingested req d exp headers schedule makes committed =>
    refine (Tables.letter_of_append (congrArg Tables.outbox (Tables.ingestTransactional_work committed)) hm).imp_right ?_
    rintro ⟨r, hr, rfl⟩
    rw [Tables.mem_ingestWork hr]
    exact ⟨d.channel, d.priority, rfl, rfl⟩
  | @enqueued u c d ids prog label caller stored =>
    refine (Tables.letter_of_append (congrArg Tables.outbox stored) hm).imp_right ?_
    rintro ⟨r, hr, rfl⟩
    obtain rfl := List.mem_singleton.mp hr
    exact ⟨d.channel, d.priority, rfl, rfl⟩
  | processed label caller stored =>
    left
    rw [stored] at hm
    exact hm
  | @published u c m' ms φ prog label caller phase stored =>
    exact .inl (Tables.letter_of_setOutbox (f := fun r => { r with status := .published }) (fun _ => rfl) stored hm)
  | @refused u c m' ms msg prog label caller stored =>
    exact .inl (Tables.letter_of_setOutbox (f := fun r => { r with attempts := r.attempts + 1, lastError := some msg })
      (fun _ => rfl) stored hm)

theorem addressed_step (hc : (machine p).Conforms (protocol p) s) (h : s.state.db.Addressed p)
    (hs : (machine p).Step s l s') : s'.state.db.Addressed p := by
  intro m hm
  rcases letter_step hc hs hm with hold | ⟨ch, pri, hsub, -⟩
  · exact h m hold
  · rw [hsub]
    exact notificationSubject_mem ..

/-- A message for the notification stream is stored. -/
theorem publish_addressed {w : World} {m : Message} (h : m.subject ∈ allNotificationSubjects p.streamPrefix) :
    w.publish p m = (.ok (), { w with stream := w.stream ++ [m] }) := by
  rw [World.publish, if_pos h]

/-- A published row stays published. -/
theorem hasPublished_step (hc : (machine p).Conforms (protocol p) s) (hs : (machine p).Step s l s')
    (h : s.state.db.hasPublishedForDelivery x = true) : s'.state.db.hasPublishedForDelivery x = true := by
  rw [Tables.hasPublished_iff] at h ⊢
  obtain ⟨r, hr, hx, hst⟩ := h
  cases posted_step hc hs with
  | added rs outbox rows =>
    refine ⟨r, ?_, hx, hst⟩
    rw [outbox]
    exact List.mem_append_left _ hr
  | @published u c m ms φ prog label caller phase stored =>
    rw [stored]
    refine ⟨_, List.mem_map.mpr ⟨r, hr, rfl⟩, ?_⟩
    split
    · exact ⟨hx, rfl⟩
    · exact ⟨hx, hst⟩
  | @refused u c m ms msg prog label caller stored =>
    rw [stored]
    refine ⟨_, List.mem_map.mpr ⟨r, hr, rfl⟩, ?_⟩
    split <;> exact ⟨hx, hst⟩

/-- Marking a row of the table publishes its delivery. -/
theorem hasPublished_markPublished {t : Tables} {m : OutboxMessage} (h : m.letter ∈ t.letters) :
    (t.markPublished m.id).hasPublishedForDelivery m.deliveryId = true := by
  obtain ⟨r, hr, hid, hx, -⟩ := row_of_letter h
  rw [Tables.hasPublished_iff]
  refine ⟨_, List.mem_map.mpr ⟨r, hr, rfl⟩, ?_⟩
  rw [if_pos hid]
  exact ⟨hx, rfl⟩

/-- A flush comes to claim `x` when it is told that no row of `x` is published. -/
theorem claimant_origin (hc : (machine p).Conforms (protocol p) s) (hs : (machine p).Step s l s') {t : Nat}
    (h : Claimant x s' t) : Claimant x s t ∨ ToldNone x s l t := by
  obtain ⟨k, φ, prog, hth, hclaims⟩ := h
  rcases flush_origin hc hs hth with ⟨before, -⟩ | rfl | ⟨c, ψ, op, f, r, hl, running, answered, hmoves⟩
  · exact .inl ⟨k, φ, prog, before, hclaims⟩
  · cases hclaims
  · have hans := answer_cases (p := p) answered
    cases hmoves with
    | checked m ms b =>
      cases b with
      | true => cases hclaims
      | false =>
        obtain ⟨-, hexec⟩ := answered_ok hans
        have hpub : s.state.db.hasPublishedForDelivery m.deliveryId = false := Except.ok.inj (congrArg Prod.fst hexec)
        have hx : m.deliveryId = x := Option.some.inj hclaims
        rw [hx] at hpub
        exact .inr ⟨c, _, m, ms, _, hl, running, hx, hpub⟩
    | sent m ms => exact .inl ⟨_, _, _, running, hclaims⟩
    | _ => cases hclaims

/-- A row is handed over by a flush that claims its delivery and has not sent it yet. -/
theorem handsOver_cases (hc : (machine p).Conforms (protocol p) s) :
    handsOver x s l = [] ∨ ∃ t c m ms f, l = .call t c ∧ m.deliveryId = x ∧ handsOver x s l = [m.id] ∧
      s.threads t = some ⟨.flush, .flush (.checked m ms false),
        .ask (.remote (.publish m.subject m.payload m.headers)) f⟩ := by
  cases l with
  | call t c =>
    unfold handsOver
    simp only []
    split
    · rename_i k m ms b subject body headers f hth
      split
      · rename_i hx
        have hm : May p k (.flush (.checked m ms b)) (.remote (.publish subject body headers)) := hc.may hth
        cases k with
        | flush =>
          obtain ⟨m', ms', hφ, rfl, rfl, rfl⟩ := hm
          cases hφ
          exact .inr ⟨t, c, m, ms, f, rfl, hx, rfl, hth⟩
        | _ => exact hm.elim
      · exact .inl rfl
    · exact .inl rfl
  | _ => exact .inl rfl

/-- One flush at a time claims `x`, and the rows of `x` handed over so far are one at most: the published
    one, or the claimant's. -/
structure Guarded (p : Params) (x : String) (s : System) (acc : List Nat) : Prop where
  sound : OutboxSound p s
  addressed : s.state.db.Addressed p
  one : ∀ t u, Claimant x s t → Claimant x s u → t = u
  unsent : ∀ t k m ms prog, s.threads t = some ⟨k, .flush (.checked m ms false), prog⟩ → m.deliveryId = x → acc = []
  count : acc.length ≤ 1
  kept : acc ≠ [] → s.state.db.hasPublishedForDelivery x = true ∨
    ∃ t k m ms prog, s.threads t = some ⟨k, .flush (.sent m ms true), prog⟩ ∧ m.deliveryId = x

variable {acc : List Nat}

theorem one_step (h : Guarded p x s acc) (hok : ¬ Collides x s l) (hs : (machine p).Step s l s') {t u : Nat}
    (ht : Claimant x s' t) (hu : Claimant x s' u) : t = u := by
  have hc := h.sound.conforms
  by_contra hne
  rcases claimant_origin hc hs ht with ht | ht <;> rcases claimant_origin hc hs hu with hu | hu
  · exact hne (h.one t u ht hu)
  · exact hok ⟨u, t, hu, hne, ht⟩
  · exact hok ⟨t, u, ht, Ne.symm hne, hu⟩
  · -- a step is one thread's
    obtain ⟨c, k, m, ms, prog, hl, -⟩ := ht
    obtain ⟨c', k', m', ms', prog', hl', -⟩ := hu
    cases hl.symm.trans hl'
    exact hne rfl

/-- A flush that is told that nothing is published finds that nothing has been handed over. -/
theorem nothing_of_told (h : Guarded p x s acc) (hok : ¬ Collides x s l) {t : Nat} (ht : ToldNone x s l t) : acc = [] := by
  by_contra hacc
  obtain ⟨c, k, m, ms, prog, -, hth, -, hno⟩ := id ht
  rcases h.kept hacc with hpub | ⟨u, k', m', ms', prog', hu, hx⟩
  · rw [hno] at hpub
    cases hpub
  · refine hok ⟨t, u, ht, fun hut => ?_, k', _, prog', hu, congrArg some hx⟩
    subst hut
    cases hth.symm.trans hu

theorem unsent_step (h : Guarded p x s acc) (hok : ¬ Collides x s l) (hs : (machine p).Step s l s') {t : Nat} {k : Task}
    {m : OutboxMessage} {ms : List OutboxMessage} {prog : CallTree Op Ans Result}
    (hth : s'.threads t = some ⟨k, .flush (.checked m ms false), prog⟩) (hx : m.deliveryId = x) :
    acc ++ handsOver x s l = [] := by
  have hc := h.sound.conforms
  -- nothing is handed over in this step either: that would take another claimant
  have hnone : handsOver x s l = [] := by
    rcases handsOver_cases (x := x) (l := l) hc with hnone | ⟨u, c, m', ms', f, rfl, hx', -, hu⟩
    · exact hnone
    · exfalso
      rcases flush_origin hc hs hth with ⟨before, other⟩ | hstart | ⟨c', ψ, op, f', r, hl, running, -, hmoves⟩
      · have hut : u = t := h.one u t ⟨_, _, _, hu, congrArg some hx'⟩ ⟨_, _, _, before, congrArg some hx⟩
        exact other c (by rw [hut])
      · cases hstart
      · cases hl
        cases hu.symm.trans running
        cases hmoves
  have hacc : acc = [] := by
    rcases flush_origin hc hs hth with ⟨before, -⟩ | hstart | ⟨c, ψ, op, f, r, hl, running, answered, hmoves⟩
    · exact h.unsent t k m ms prog before hx
    · cases hstart
    · rcases claimant_origin hc hs ⟨k, _, prog, hth, congrArg some hx⟩ with hclaim | htold
      · obtain ⟨k', φ, prog', hth', hclaims⟩ := hclaim
        cases hth'.symm.trans running
        cases hmoves
        cases hclaims
      · exact nothing_of_told h hok htold
  rw [hacc, hnone, List.append_nil]

/-- Without failing calls, a claimant that has sent its row marks it. -/
theorem kept_sent (h : Guarded p x s acc) (hf : FaultFree s l) (hs : (machine p).Step s l s') {t : Nat} {k : Task}
    {m : OutboxMessage} {ms : List OutboxMessage} {prog : CallTree Op Ans Result}
    (hth : s.threads t = some ⟨k, .flush (.sent m ms true), prog⟩) (hx : m.deliveryId = x) :
    s'.state.db.hasPublishedForDelivery x = true ∨
      ∃ t k m ms prog, s'.threads t = some ⟨k, .flush (.sent m ms true), prog⟩ ∧ m.deliveryId = x := by
  have hc := h.sound.conforms
  by_cases hcall : ∃ c, l = .call t c
  · obtain ⟨c, rfl⟩ := hcall
    cases hs with
    | @call _ _ k' φ op f r w running answered =>
      have hans := answer_cases (p := p) answered
      cases hth.symm.trans running
      have hm : May p k (.flush (.sent m ms true)) op := hc.may running
      have hmay : FlushMay (.sent m ms true) op := by
        cases k with
        | flush => exact hm
        | _ => exact hm.elim
      have hmoves := flush_moves hmay r
      generalize FlushPhase.next (.sent m ms true) op r = φ' at hmoves
      cases hmoves with
      | marked m ms r =>
        left
        have hw : w = { s.state with db := s.state.db.markPublished m.id } :=
          (congrArg Prod.snd (answered_ran hans (hf.2 t _ rfl))).symm
        rw [hw, ← hx]
        exact hasPublished_markPublished ((h.sound.hands t k _ _ hth).carried m List.mem_cons_self)
  · exact .inr ⟨t, k, m, ms, prog, hs.kept hth (fun c hl => hcall ⟨c, hl⟩) (hf.1 t), hx⟩

theorem guarded_step (h : Guarded p x s acc) (hf : FaultFree s l) (hok : ¬ Collides x s l)
    (hs : (machine p).Step s l s') : Guarded p x s' (acc ++ handsOver x s l) := by
  have hc := h.sound.conforms
  have hunsent : ∀ t k m ms prog, s'.threads t = some ⟨k, .flush (.checked m ms false), prog⟩ → m.deliveryId = x →
      acc ++ handsOver x s l = [] :=
    fun t k m ms prog hth hx => unsent_step h hok hs hth hx
  refine ⟨outboxSound_step h.sound hs, addressed_step hc h.addressed hs, fun t u => one_step h hok hs, hunsent, ?_, ?_⟩
  · rcases handsOver_cases (x := x) (l := l) hc with hnone | ⟨t, c, m, ms, f, -, hx, hrow, hth⟩
    · rw [hnone, List.append_nil]
      exact h.count
    · rw [hrow, h.unsent t _ m ms _ hth hx]
      exact le_refl _
  · intro hne
    rcases handsOver_cases (x := x) (l := l) hc with hnone | ⟨t, c, m, ms, f, rfl, hx, -, hth⟩
    · rw [hnone, List.append_nil] at hne
      rcases h.kept hne with hpub | ⟨t, k, m, ms, prog, hth, hx⟩
      · exact .inl (hasPublished_step hc hs hpub)
      · exact kept_sent h hf hs hth hx
    · -- the broker takes a message for one of its streams
      obtain ⟨r, hans, hthreads, -⟩ := hs.called hth
      have hstored : m.subject ∈ allNotificationSubjects p.streamPrefix :=
        h.addressed m.letter ((h.sound.hands t _ _ _ hth).carried m List.mem_cons_self)
      have hok' : r = .ok () := by
        have hran := answered_ran (answer_cases (p := p) hans) (hf.2 t _ rfl)
        exact (congrArg Prod.fst hran).symm.trans (congrArg Prod.fst (publish_addressed hstored))
      subst hok'
      refine .inr ⟨t, .flush, m, ms, f (.ok ()), ?_, hx⟩
      rw [hthreads, Function.update_self]
      rfl

/-- Without failing calls or crashes, and as long as no flush is told that nothing of `x` is published while
    another one claims `x`, one row of `x` at most is handed to the broker, once. -/
theorem publishers_hand_over_once (p : Params) (s₀ s : System) (x : String) (ls : List Act) (h0 : Opened s₀)
    (haddr : s₀.state.db.Addressed p)
    (hok : (machine p).Along (fun s l _ => FaultFree s l ∧ ¬ Collides x s l) s₀ ls)
    (hrun : (machine p).run s₀ ls = some s) :
    ((machine p).collect (handsOver x) s₀ ls).length ≤ 1 ∧
      ∀ id, ((machine p).collect (handsOver x) s₀ ls).count id ≤ 1 := by
  have hidle : ∀ {t th}, s₀.threads t = some th → False := by
    intro t th hth
    rw [h0.idle t] at hth
    cases hth
  have hinit : Guarded p x s₀ [] :=
    { sound := outboxSound_of_opened h0
      addressed := haddr
      one := fun t u ht _ => by
        obtain ⟨k, φ, prog, hth, -⟩ := ht
        exact (hidle hth).elim
      unsent := fun _ _ _ _ _ _ _ => rfl
      count := Nat.zero_le _
      kept := fun hne => absurd rfl hne }
  have h : Guarded p x s ([] ++ (machine p).collect (handsOver x) s₀ ls) :=
    Machine.collect_invariant (fun s acc l s' h hs hb => guarded_step h hb.1 hb.2 hs) ls hinit hok hrun
  have hcount := h.count
  rw [List.nil_append] at hcount
  exact ⟨hcount, fun id => le_trans List.count_le_length hcount⟩

end

/-- Two flushes take turns: the second one asks when the first has marked its row. -/
def flushedInTurn : List Act :=
  ingestCalls 0 "d1" ++ [.start 1 .flush, .start 2 .flush] ++ runs 1 2 ++ runs 2 2 ++ runs 1 3 ++ runs 2 2

/-- Both flushes ask, then both publish. -/
def flushedAtOnce : List Act :=
  ingestCalls 0 "d1" ++ [.start 1 .flush, .start 2 .flush] ++ runs 1 3 ++ runs 2 3 ++ runs 1 2 ++ runs 2 2

/-- No thread of `ts` claims `x` when another thread's call is answered. -/
def aloneClaim (ts : List Nat) (x : String) (s : System) : Act → Bool
  | .call t _ => ts.all fun u => u = t || match s.threads u with
    | some ⟨_, .flush φ, _⟩ => φ.claim ≠ some x
    | _ => true
  | _ => true

theorem not_collides_of_aloneClaim {ts : List Nat} {x : String} {s : System} {l : Act} (h : aloneClaim ts x s l = true)
    (hts : ∀ t th, s.threads t = some th → t ∈ ts) : ¬ Collides x s l := by
  intro hcol
  obtain ⟨t, u, ⟨c, -, -, -, -, rfl, -⟩, hne, k, φ, prog, hu, hclaim⟩ := hcol
  have hu' := List.all_eq_true.mp h u (hts u _ hu)
  rw [hu] at hu'
  simp [hne, hclaim] at hu'

theorem init_addressed (p : Params) : (System.init p).state.db.Addressed p := by
  intro m hm
  cases hm

theorem publishers_hand_over_once_sample :
    ∃ s, (machine {}).run (System.init {}) flushedInTurn = some s ∧ s.state.stream.length = 1 ∧
      (machine {}).collect (handsOver "d1") (System.init {}) flushedInTurn = [1] ∧
      ((machine {}).collect (handsOver "d1") (System.init {}) flushedInTurn).length ≤ 1 := by
  have hrun : ((machine {}).run (System.init {}) flushedInTurn).map (fun s => s.state.stream.length) = some 1 := by
    decide +kernel
  obtain ⟨s, hs, hstream⟩ := Option.map_eq_some_iff.mp hrun
  have hfree : (machine {}).Along (fun s l _ => FaultFree s l) (System.init {}) flushedInTurn :=
    along_faultFree (by decide)
  have halone := Machine.along_of_check flushedInTurn
    (show (machine {}).check (aloneClaim [0, 1, 2] "d1") (System.init {}) flushedInTurn = true by decide +kernel)
  have hts := Machine.along_confined (M := machine {}) (s := System.init {}) [0, 1, 2] flushedInTurn
    (fun _ _ => rfl) (by decide)
  have hok : (machine {}).Along (fun s l _ => FaultFree s l ∧ ¬ Collides "d1" s l) (System.init {}) flushedInTurn :=
    Machine.Along.and flushedInTurn hfree (Machine.Along.mono
      (fun s l s' h => not_collides_of_aloneClaim h.1 h.2) flushedInTurn (Machine.Along.and flushedInTurn halone hts))
  have h := publishers_hand_over_once {} (System.init {}) s "d1" flushedInTurn (init_opened {}) (init_addressed {}) hok hs
  exact ⟨s, hs, hstream, by decide +kernel, h.1⟩

/-- One row is handed to the broker by two flushes, and the broker has two messages of it. -/
theorem published_twice :
    (machine {}).Along (fun s l _ => FaultFree s l) (System.init {}) flushedAtOnce ∧
      ∃ s, (machine {}).run (System.init {}) flushedAtOnce = some s ∧
        (machine {}).collect (handsOver "d1") (System.init {}) flushedAtOnce = [1, 1] ∧
        s.state.stream.map (·.deliveryId) = [.ok "d1", .ok "d1"] := by
  refine ⟨along_faultFree (by decide), ?_⟩
  have hrun : ((machine {}).run (System.init {}) flushedAtOnce).map (fun s => s.state.stream.map (·.deliveryId)) =
      some [.ok "d1", .ok "d1"] := by
    decide +kernel
  obtain ⟨s, hs, hstream⟩ := Option.map_eq_some_iff.mp hrun
  exact ⟨s, hs, by decide +kernel, hstream⟩

end GoCourier
