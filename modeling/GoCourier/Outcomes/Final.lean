import GoCourier.Content.Accepted
import GoCourier.Handover.Schedule
import GoCourier.Ledger.Paid

/- Deliveries at rest. While a dispatch, a replay or a tick of the scheduler holds a
   delivery it may still write it, on the word of what it has read. Once nobody does, a
   delivery that has succeeded stays as it is for good: whatever messages of it come
   again, whoever dispatches, replays or ingests it, whatever fails and crashes, nothing
   about it is written any more and no provider is called for it. One in the DLQ stays so
   until a replay of it is started. And one that is processing, where the dispatch that
   had taken it is gone, stays so just as well: nothing the system does moves it on. -/
namespace GoCourier

open Interleave

/-- What is on file about a delivery; of its messages what they say, not how they fared. -/
structure File where
  row : Option DeliveryRow
  attempts : List Attempt
  events : List (DomainEventType × AuditPayload)
  scheduled : List ScheduledRow
  messages : List (String × Body × Headers)

def Tables.file (t : Tables) (x : String) : File where
  row := t.deliveries x
  attempts := (t.attempts.filter (·.deliveryId = x)).map (·.attempt)
  events := t.events x
  scheduled := t.scheduled.filter (·.deliveryId = x)
  messages := (t.outbox.filter (·.deliveryId = x)).map fun r => (r.subject, r.payload, r.headers)

/-- A thread in this phase may still write `x`, or what it has done to it. -/
def Phase.Holds (x : String) : Phase → Prop
  | .worker (.owned d) | .worker (.refused d _ _) | .worker (.accepted d) | .worker (.settled d _) => d.id = x
  | .replay (.snap d) => d.id = x ∧ d.status.Replayable
  | .replay (.requeued d) | .replay (.published d) => d.id = x
  | .tick (.snap d _) => d.id = x ∧ d.status = .pending
  | .tick (.requeued d _) | .tick (.enqueued d _) | .tick (.marked d _) => d.id = x
  | _ => False

/-- No thread that still has calls to make holds `x`. -/
def LetGo (x : String) (s : System) : Prop :=
  ∀ t k φ op f, s.threads t = some ⟨k, φ, .ask op f⟩ → ¬ φ.Holds x

/-- A replay of `x` still has calls to make. -/
def UnderReplay (x : String) (s : System) : Prop := ∃ t φ op f, s.threads t = some ⟨.replay x, φ, .ask op f⟩

/-- No tick queues a row in this status, no dispatch takes it, and no replay that could is on its way. -/
structure Stays (x : String) (r : DeliveryRow) (s : System) : Prop where
  not_pending : r.status ≠ .pending
  not_takeable : ¬ r.status.Takeable
  dead : r.status.Replayable → ¬ UnderReplay x s

/-! What each statement leaves on file. -/

section
variable {p : Params} {t t' : Tables} {x : String}

theorem file_congr (hrow : t'.deliveries x = t.deliveries x) (hattempts : t'.attempts = t.attempts)
    (haudit : t'.audit = t.audit) (hscheduled : t'.scheduled = t.scheduled) (houtbox : t'.outbox = t.outbox) :
    t'.file x = t.file x := by
  simp only [Tables.file, Tables.events, hrow, hattempts, haudit, hscheduled, houtbox]

theorem file_update (t : Tables) {d : Delivery} (hd : d.id ≠ x) : (t.update d).file x = t.file x := by
  unfold Tables.update
  split
  · exact file_congr (Function.update_of_ne (Ne.symm hd) ..) rfl rfl rfl rfl
  · rfl

theorem file_setOutbox (t : Tables) (id : Nat) {f : OutboxRow → OutboxRow}
    (hf : ∀ r, (f r).deliveryId = r.deliveryId ∧ (f r).subject = r.subject ∧ (f r).payload = r.payload ∧
      (f r).headers = r.headers) : (t.setOutbox id f).file x = t.file x := by
  have hsays : ∀ r : OutboxRow, (if r.id = id then f r else r).deliveryId = r.deliveryId ∧
      (if r.id = id then f r else r).subject = r.subject ∧ (if r.id = id then f r else r).payload = r.payload ∧
      (if r.id = id then f r else r).headers = r.headers := by
    intro r
    split
    · exact hf r
    · exact ⟨rfl, rfl, rfl, rfl⟩
  simp only [Tables.file, Tables.setOutbox, Tables.events, List.filter_map, List.map_map, Function.comp_def, hsays]

theorem file_markProcessed (t : Tables) {id : String} (hid : id ≠ x) : (t.markProcessed id).file x = t.file x := by
  have hrows : (t.markProcessed id).scheduled.filter (·.deliveryId = x) = t.scheduled.filter (·.deliveryId = x) := by
    unfold Tables.markProcessed
    induction t.scheduled with
    | nil => rfl
    | cons r rs ih =>
      rw [List.map_cons, List.filter_cons, List.filter_cons, ih]
      by_cases hr : r.deliveryId = id
      · have hx : r.deliveryId ≠ x := hr ▸ hid
        simp [hr, hid]
      · simp [hr]
  simp only [Tables.file, hrows]
  rfl

theorem file_ingested {now exp : Time} {d : Delivery} {subject : String} {payload : Body} {headers : Headers}
    {schedule : Bool} (h : t.Ingested now d exp subject payload headers schedule t') (hattempts : t'.attempts = t.attempts)
    (hd : d.id ≠ x) : t'.file x = t.file x := by
  have hwork : (t.ingestWork now d subject payload headers schedule).1.filter (·.deliveryId = x) = [] ∧
      (t.ingestWork now d subject payload headers schedule).2.filter (·.deliveryId = x) = [] := by
    unfold Tables.ingestWork
    split <;> simp [hd]
  simp only [Tables.file, Tables.events, h.deliveries, hattempts, h.audit, h.scheduled, h.outbox, List.filter_append,
    hwork.1, hwork.2, List.append_nil, Function.update_of_ne (Ne.symm hd)]
  simp [hd]

/-- A statement that writes what is on file about `x`, where `x` is stored. -/
def Remote.Alters (x : String) : Remote → Prop
  | .update d => d.id = x
  | .recordAttempt id _ | .enqueue id _ _ _ | .markProcessed id | .append id _ _ => id = x
  | _ => False

theorem exec_file {w : World} {q : Remote} (hlinked : w.db.Linked) {r : DeliveryRow} (hrow : w.db.deliveries x = some r)
    (hq : ¬ q.Alters x) (hclaim : ∀ d st, q = .updateIfStatus d st → d.id = x → r.status ≠ st) :
    (exec p w q).2.db.file x = w.db.file x := by
  have hstore : ∀ {e : Except Err Tables}, (∀ t, e = .ok t → t.file x = w.db.file x) →
      (w.store e).2.db.file x = w.db.file x := fun he => store_keeps (P := (·.file x = w.db.file x)) rfl he
  cases q with
  | update d => exact file_update w.db hq
  | updateIfStatus d st =>
    by_cases hd : d.id = x
    · -- the row has another status
      obtain ⟨m, hfound, -⟩ | ⟨-, hlose⟩ := w.db.updateIfStatus_cases d st
      · rw [hd, Tables.row_stored hrow] at hfound
        exact absurd (congrArg Prod.fst (Option.some.inj hfound)) (hclaim d st rfl hd)
      · simp only [exec, hlose]
    · exact Tables.updateIfStatus_keeps (P := (·.file x = w.db.file x)) rfl (file_update w.db hd) st
  | recordAttempt id a =>
    refine hstore fun t ht => ?_
    have hid : id ≠ x := hq
    rw [Tables.recordAttempt_ok ht]
    simp [Tables.file, Tables.events, List.filter_append, hid]
  | ingestTransactional d exp subject payload headers schedule =>
    have hattempts : (exec p w (.ingestTransactional d exp subject payload headers schedule)).2.db.attempts =
        w.db.attempts := by
      rcases exec_attempts p w (.ingestTransactional d exp subject payload headers schedule) with hsame | ⟨_, _, hq, -⟩
      · exact hsame
      · cases hq
    simp only [exec] at hattempts ⊢
    cases htx : w.db.ingestTransactional w.clock d exp subject payload headers schedule with
    | error e => rfl
    | ok t' =>
      rw [htx] at hattempts
      have hin := Tables.ingested_of_ok hlinked htx
      -- the delivery is a new one, and `x` is stored already
      refine file_ingested hin hattempts fun hd => ?_
      have hnew := hin.new
      rw [hd, hrow] at hnew
      cases hnew
  | enqueue id subject payload headers =>
    refine hstore fun t ht => ?_
    have hid : id ≠ x := hq
    rw [(Tables.enqueue_ok ht).2]
    simp [Tables.file, Tables.events, Tables.insertOutbox, List.filter_append, hid]
  | markPublished id => exact file_setOutbox w.db id fun _ => ⟨rfl, rfl, rfl, rfl⟩
  | markFailed id msg => exact file_setOutbox w.db id fun _ => ⟨rfl, rfl, rfl, rfl⟩
  | markProcessed id => exact file_markProcessed w.db hq
  | append id ev payload =>
    refine hstore fun t ht => ?_
    have hid : id ≠ x := hq
    rw [(Tables.append_ok ht).2]
    simp [Tables.file, Tables.events, List.filter_append, hid]
  | publish subject body headers => rw [show (exec p w (.publish subject body headers)).2.db = w.db from publish_db p w _]
  | _ => rfl

end

/-! Who writes it. -/

section
variable {p : Params} {s s' : System} {l : Act} {x : String} {k : Task} {φ : Phase} {r : DeliveryRow}

theorem holds_of_settles {ψ : WorkerPhase} {d : Delivery} (h : Settles p ψ d) (hd : d.id = x) :
    Phase.Holds x (.worker ψ) := by
  cases h with
  | noProvider absent moved => exact moved.id.symm.trans hd
  | gaveUp out moved => exact moved.id.symm.trans hd
  | retry more moved => exact moved.id.symm.trans hd
  | success moved => exact moved.id.symm.trans hd

/-- Only who holds a delivery makes calls that write it. -/
theorem holds_of_may {q : Remote} (hm : May p k φ (.remote q)) (hq : q.Alters x) : φ.Holds x := by
  cases φ with
  | worker ψ =>
    have hm := worker_may hm
    cases q with
    | update d => exact holds_of_settles hm hq
    | recordAttempt id a =>
      obtain rfl : id = x := hq
      cases hm <;> rfl
    | append id ev payload =>
      obtain ⟨d, noted, rfl, rfl, -⟩ := hm
      exact hq
    | enqueue => exact hm.elim
    | markProcessed => exact hm.elim
    | _ => exact hq.elim
  | replay ψ =>
    cases k with
    | replay id =>
      cases q with
      | update d =>
        obtain ⟨d₀, now, rfl, hdead, rfl⟩ := hm
        exact ⟨hq, hdead⟩
      | append id ev payload =>
        obtain ⟨d, rfl, rfl, -⟩ := hm
        exact hq
      | recordAttempt => exact hm.elim
      | enqueue => exact hm.elim
      | markProcessed => exact hm.elim
      | _ => exact hq.elim
    | _ => exact hm.elim
  | tick ψ =>
    cases k with
    | processDue =>
      cases q with
      | update d =>
        obtain ⟨d₀, now, ids, rfl, hpending, rfl⟩ := hm
        exact ⟨hq, hpending⟩
      | enqueue id subject body headers =>
        obtain ⟨d, ids, rfl, rfl, -⟩ := hm
        exact hq
      | markProcessed id =>
        obtain ⟨d, ids, rfl, rfl⟩ := hm
        exact hq
      | append id ev payload =>
        obtain ⟨d, ids, rfl, rfl, -⟩ := hm
        exact hq
      | recordAttempt => exact hm.elim
      | _ => exact hq.elim
    | _ => exact hm.elim
  | _ =>
    cases k with
    | ingest req => cases q <;> first | exact hm.elim | exact hq.elim
    | flush => cases q <;> first | exact hm.elim | exact hq.elim
    | _ => exact hm.elim

/-- A row that has been read is the one that is stored. -/
theorem status_of_found {id : String} {c : Choice} {w w' : World} {d : Delivery}
    (answered : answer p (.remote (.findByID id)) c w = some (.ok d, w')) (hd : d.id = x)
    (hrow : w.db.deliveries x = some r) : d.status = r.status := by
  obtain ⟨-, hexec⟩ := answered_ok (answer_cases answered)
  have hfound : w.db.findByID id = .ok d := congrArg Prod.fst hexec
  unfold Tables.findByID at hfound
  split at hfound
  · rename_i r' hr'
    cases hfound
    have hid : id = x := hd
    rw [hid, hrow] at hr'
    cases hr'
    rfl
  · cases hfound

theorem status_of_claimed {d : Delivery} {st : Status} {c : Choice} {w w' : World}
    (answered : answer p (.remote (.updateIfStatus d st)) c w = some (.ok true, w')) (hd : d.id = x)
    (hrow : w.db.deliveries x = some r) : r.status = st := by
  obtain ⟨-, hexec⟩ := answered_ok (answer_cases answered)
  have hwon : (w.db.updateIfStatus d st).1 = true := Except.ok.inj (congrArg Prod.fst hexec)
  obtain ⟨m, hfound, -⟩ | ⟨-, hlose⟩ := w.db.updateIfStatus_cases d st
  · rw [hd, Tables.row_stored hrow] at hfound
    exact congrArg Prod.fst (Option.some.inj hfound)
  · rw [hlose] at hwon
    cases hwon

/-- A dispatch comes to hold a delivery by a claim. -/
theorem holds_worker {ψ χ : WorkerPhase} {T : String → Prop} {C : Nat × Nat → Prop} {op : Op} {a : Ans op}
    (h : WorkerMoves p T C ψ op a χ) (hχ : Phase.Holds x (.worker χ)) : Phase.Holds x (.worker ψ) ∨
      ∃ d st, op = .remote (.updateIfStatus d st) ∧ d.id = x ∧ st.Takeable ∧ HEq a (Except.ok true : Except Err Bool) := by
  cases h with
  | clock | uuid | jitter | admitted | blocked | accepted | rejected | failure | success | published | appended =>
    exact .inl hχ
  | claimed takeable taken => exact .inr ⟨_, _, rfl, hχ, takeable, HEq.rfl⟩
  | @settled φ d settles u =>
    have hd : d.id = x := by cases settles <;> exact hχ
    exact .inl (holds_of_settles settles hd)
  | recorded records u => cases records <;> exact .inl hχ
  | _ => exact hχ.elim

theorem holds_replay {ψ χ : ReplayPhase} {id : String} {op : Op} {a : Ans op} (h : ReplayMoves p id ψ op a χ)
    (hχ : Phase.Holds x (.replay χ)) : Phase.Holds x (.replay ψ) ∨
      ∃ d, op = .remote (.findByID id) ∧ d.id = x ∧ d.status.Replayable ∧ HEq a (Except.ok d : Except Err Delivery) := by
  cases h with
  | clock => exact .inl hχ
  | found d => exact .inr ⟨d, rfl, hχ.1, hχ.2, HEq.rfl⟩
  | wrote dead queued u =>
    subst queued
    exact .inl ⟨hχ, dead⟩
  | published d u => exact .inl hχ
  | _ => exact hχ.elim

theorem holds_tick {ψ χ : TickPhase} {op : Op} {a : Ans op} (h : TickMoves p ψ op a χ) (hχ : Phase.Holds x (.tick χ)) :
    Phase.Holds x (.tick ψ) ∨ ∃ id d, op = .remote (.findByID id) ∧ d.id = x ∧ d.status = .pending ∧
      HEq a (Except.ok d : Except Err Delivery) := by
  cases h with
  | read todo d => exact .inr ⟨_, d, rfl, hχ.1, hχ.2, HEq.rfl⟩
  | wrote ids pending queued =>
    subst queued
    exact .inl ⟨hχ, pending⟩
  | enqueued | marked => exact .inl hχ
  | _ => exact hχ.elim

/-- The delivery, its row `r`, is out of everybody's hands. -/
structure Final (p : Params) (x : String) (r : DeliveryRow) (s : System) : Prop where
  conforms : (machine p).Conforms (protocol p) s
  linked : s.state.db.Linked
  row : s.state.db.deliveries x = some r
  stays : Stays x r s
  letGo : LetGo x s

/-- Nobody starts to replay `x` from the DLQ. -/
def NoReplay (x : String) (r : DeliveryRow) (_ : System) (l : Act) : Prop :=
  r.status.Replayable → ∀ t, l ≠ .start t (.replay x)

/-- Nothing that is on file about it is written. -/
theorem final_file (h : Final p x r s) (hs : (machine p).Step s l s') : s'.state.db.file x = s.state.db.file x := by
  rcases db_step hs with hdb | ⟨t, c, k, φ, q, f, -, hth, -, hdb⟩
  · rw [hdb]
  · rw [hdb]
    have hm : May p k φ (.remote q) := h.conforms.may hth
    refine exec_file h.linked h.row (fun hq => h.letGo t k φ _ f hth (holds_of_may hm hq)) fun d st hq hd hst => ?_
    subst hq
    obtain ⟨d₀, now, -, htakeable, rfl, -⟩ := claim_may hm
    exact h.stays.not_takeable (hst ▸ htakeable)

theorem final_sends (h : Final p x r s) (hs : (machine p).Step s l s') :
    s'.hist.countP (sends x) = s.hist.countP (sends x) := by
  rcases hs.heard with hsame | ⟨t, c, k, φ, op, f, a, -, hth, -, -, hhist⟩
  · rw [hsame]
  · rw [hhist, List.countP_cons_of_neg]
    intro hsend
    cases op with
    | send d =>
      obtain ⟨rfl, -⟩ := send_may (h.conforms.may hth)
      have hd : d.id = x := of_decide_eq_true hsend
      exact h.letGo t k _ _ f hth hd
    | _ => cases hsend

theorem final_stays (h : Final p x r s) (hs : (machine p).Step s l s') (hl : NoReplay x r s l) : Stays x r s' where
  not_pending := h.stays.not_pending
  not_takeable := h.stays.not_takeable
  dead hdead := by
    have hnone := h.stays.dead hdead
    rintro ⟨t, φ, op, f, hth⟩
    rcases hs.origin_cases hth with ⟨hkept, -⟩ | ⟨hstart, -, -⟩ | ⟨c, ψ, op', f', a, -, running, -, -⟩
    · exact hnone ⟨t, φ, op, f, hkept⟩
    · exact hl hdead t hstart
    · exact hnone ⟨t, ψ, op', f', running⟩

/-- Nobody comes to hold it: it cannot be claimed, and is not read as dead or pending. -/
theorem final_letGo (h : Final p x r s) (hs : (machine p).Step s l s') : LetGo x s' := by
  intro u k φ op f hu hholds
  have hc := h.conforms
  cases φ with
  | worker φ =>
    rcases worker_origin hc hs hu with ⟨hkept, -⟩ | rfl | ⟨c, ψ, op', f', a, -, running, answered, hmoves⟩
    · exact h.letGo u k _ op f hkept hholds
    · exact hholds
    · rcases holds_worker hmoves hholds with hbefore | ⟨d, st, rfl, hd, htakeable, ha⟩
      · exact h.letGo u k _ op' f' running hbefore
      · -- a claim that has won has found the row takeable
        obtain rfl := eq_of_heq ha
        rw [← status_of_claimed answered hd h.row] at htakeable
        exact h.stays.not_takeable htakeable
  | replay φ =>
    rcases replay_origin hc hs hu with ⟨hkept, -⟩ | rfl | ⟨c, ψ, id, op', f', a, -, running, answered, hmoves⟩
    · exact h.letGo u k _ op f hkept hholds
    · exact hholds
    · rcases holds_replay hmoves hholds with hbefore | ⟨d, rfl, hd, hdead, ha⟩
      · exact h.letGo u _ _ op' f' running hbefore
      · -- it has read the row as dead, so it is a replay of `x`, and there is none
        obtain rfl := eq_of_heq ha
        have hid : d.id = id := seen_answer p answered
        obtain rfl : x = id := hd.symm.trans hid
        rw [status_of_found answered hd h.row] at hdead
        exact h.stays.dead hdead ⟨u, _, _, f', running⟩
  | tick φ =>
    rcases tick_origin hc hs hu with ⟨hkept, -⟩ | rfl | ⟨c, ψ, op', f', a, -, running, answered, hmoves⟩
    · exact h.letGo u k _ op f hkept hholds
    · exact hholds
    · rcases holds_tick hmoves hholds with hbefore | ⟨id, d, rfl, hd, hpending, ha⟩
      · exact h.letGo u _ _ op' f' running hbefore
      · -- a tick writes only what it has read as pending
        obtain rfl := eq_of_heq ha
        rw [status_of_found answered hd h.row] at hpending
        exact h.stays.not_pending hpending
  | _ => exact hholds

theorem final_step (h : Final p x r s) (hs : (machine p).Step s l s') (hl : NoReplay x r s l) : Final p x r s' where
  conforms := Machine.conforms_step h.conforms hs
  linked := linked_step h.linked hs
  row := (congrArg File.row (final_file h hs)).trans h.row
  stays := final_stays h hs hl
  letGo := final_letGo h hs

/-- From any state that a run reaches, over any run from there, whatever races, fails and crashes: a delivery that has
    nowhere to go, and that nobody holds, keeps all that is on file about it, and is not sent again. -/
theorem at_rest_stays {ok : System → Act → Prop} (hr : (machine p).Reach ok (System.init p) s)
    (hrow : s.state.db.deliveries x = some r) (hstays : Stays x r s) (hfree : LetGo x s)
    (hlater : (machine p).Reach (NoReplay x r) s s') :
    s'.state.db.file x = s.state.db.file x ∧ s'.hist.countP (sends x) = s.hist.countP (sends x) := by
  have hfinal : Final p x r s := ⟨Machine.reach_conforms (init_conforms p) hr, reach_linked hr, hrow, hstays, hfree⟩
  have hkept : Final p x r s' ∧ s'.state.db.file x = s.state.db.file x ∧
      s'.hist.countP (sends x) = s.hist.countP (sends x) := by
    refine hlater.invariant (I := fun s' => Final p x r s' ∧ s'.state.db.file x = s.state.db.file x ∧
      s'.hist.countP (sends x) = s.hist.countP (sends x)) ⟨hfinal, rfl, rfl⟩ ?_
    intro s₁ l s₂ hI hl hs
    refine ⟨final_step hI.1 hs hl, ?_, ?_⟩
    · rw [final_file hI.1 hs]
      exact hI.2.1
    · rw [final_sends hI.1 hs]
      exact hI.2.2
  exact hkept.2

end

def succeededOnce : List Act := ingestCalls 0 "d1" ++ succeedCalls 1 "d1" "a1"

/-- A replay that is refused, another dispatch, and a flush that publishes the message again. -/
def afterwards : List Act := .start 2 (.replay "d1") :: runs 2 2 ++ .start 3 (.dispatch 0 "d1") :: runs 3 1 ++ publishCalls 4

theorem at_rest_stays_sample : ∃ s s', (machine {}).run (System.init {}) succeededOnce = some s ∧
    (machine {}).run s afterwards = some s' ∧ s'.state.stream.length = 1 ∧
    s'.state.db.file "d1" = s.state.db.file "d1" ∧ s'.hist.countP (sends "d1") = 1 := by
  have hrun : ((machine {}).run (System.init {}) succeededOnce).map (fun s =>
      ((s.state.db.deliveries "d1").map (·.status), s.hist.countP (sends "d1"),
        (Machine.started succeededOnce).all fun t => Machine.atRest (s.threads t),
        ((machine {}).run s afterwards).map (·.state.stream.length))) = some (some .succeeded, 1, true, some 1) := by
    decide +kernel
  obtain ⟨s, hs, hparts⟩ := Option.map_eq_some_iff.mp hrun
  simp only [Prod.mk.injEq] at hparts
  obtain ⟨hstatus, hsends, hrest, hlater⟩ := hparts
  obtain ⟨r, hrow, hst⟩ := Option.map_eq_some_iff.mp hstatus
  obtain ⟨s', hs', hstream⟩ := Option.map_eq_some_iff.mp hlater
  have hfree : LetGo "d1" s := fun t k φ op f hth _ => Machine.rest_of_run hs (fun _ => rfl) hrest hth ⟨op, f, rfl⟩
  have hreach : (machine {}).Reach (NoReplay "d1" r) s s' := by
    refine (Machine.reach_run hs').mono fun _ l _ hdead => ?_
    rw [hst] at hdead
    exact absurd hdead (by decide)
  have hstays : Stays "d1" r s := by
    refine ⟨?_, ?_, ?_⟩ <;> rw [hst]
    · decide
    · decide
    · exact fun hdead => absurd hdead (by decide)
  obtain ⟨hfile, hsame⟩ := at_rest_stays (Machine.reach_run hs) hrow hstays hfree hreach
  exact ⟨s, s', hs, hs', hstream, hfile, hsame.trans hsends⟩

end GoCourier
