import GoCourier.Ledger.View

/- The simulation: each step of the system is a turn at the board of each delivery. -/
namespace GoCourier

open Interleave

section
variable {p : Params} {x : String} {w w' : World} {hist : List Called} {t : Nat} {k : Task} {c : Choice}
  {a a' : Stance}

/-- The answered call is a turn of its caller at `x`'s board. -/
def Simulated (p : Params) (x : String) (w : World) (hist : List Called) (a : Stance) (c : Choice) (w' : World)
    (e : Called) (a' : Stance) : Prop :=
  ∃ deed, Turn p.maxAttempts deed (ledger x w hist) a (ledger x w' (e :: hist)) a' ∧ Behind x a e.task e.op c w deed

/-- Anything but a send. -/
def Op.Silent : Op → Prop
  | .send _ => False
  | _ => True

/-- A call the ledger does not show. -/
theorem ledger_unseen {op : Op} {r : Ans op} (hrow : w'.db.row x = w.db.row x)
    (hr : replays x ⟨t, k, op, r⟩ = false) (hs : op.Silent)
    (hn : recorded x ⟨t, k, op, r⟩ = none) : ledger x w' (⟨t, k, op, r⟩ :: hist) = ledger x w hist := by
  refine ledger_quiet hrow hr ?_ ?_ hn
  · cases op with
    | send d => exact hs.elim
    | _ => rfl
  · cases op with
    | send d => exact hs.elim
    | _ => rfl

theorem simulated_idle {e : Called} (hL : ledger x w' (e :: hist) = ledger x w hist) (hs : a' = a) :
    Simulated p x w hist a c w' e a' := by
  subst hs
  refine ⟨.none, ?_, trivial⟩
  rw [hL]
  exact .idle _ _

theorem simulated_leave {e : Called} (hL : ledger x w' (e :: hist) = ledger x w hist) (ha : ¬ a.Owning)
    (hs : a' = .away) : Simulated p x w hist a c w' e a' := by
  subst hs
  refine ⟨.none, ?_, trivial⟩
  rw [hL]
  exact .leave ha

theorem not_replays_update {d : Delivery} {r : Ans (.remote (.update d))} (hk : ∀ id, k ≠ .replay id) :
    replays x ⟨t, k, .remote (.update d), r⟩ = false := by
  cases k with
  | replay id => exact absurd rfl (hk id)
  | _ => rfl

/-- An `Update` that is no replay's shows in the row only. -/
theorem ledger_update {d : Delivery} {r : Ans (.remote (.update d))} (hk : ∀ id, k ≠ .replay id) :
    ledger x w' (⟨t, k, .remote (.update d), r⟩ :: hist) = { ledger x w hist with row := w'.db.row x } := by
  unfold ledger
  rw [era_cons (not_replays_update hk), List.countP_cons_of_neg (by simp [accepts]),
    List.countP_cons_of_neg (by simp [sends]), List.filterMap_cons_none rfl]

/-! A dispatch. -/

/-- The write that gives a delivery back, for the delivery it is about. -/
theorem settling_of_settles {φ : WorkerPhase} {d : Delivery} (h : Settles p φ d) (hid : d.id = x) :
    Settling p.maxAttempts (φ.stance x) (d.status, d.retryCount) ((φ.settle d).stance x) := by
  cases h with
  | @noProvider d₀ _ absent moved =>
    have hid₀ : d₀.id = x := moved.id.symm.trans hid
    simp only [WorkerPhase.settle, WorkerPhase.stance, hid, hid₀, moved.status, moved.count, if_true, reduceCtorEq,
      and_false, if_false]
    exact .noProvider _
  | @gaveUp d₀ _ e out moved =>
    have hid₀ : d₀.id = x := moved.id.symm.trans hid
    simp only [WorkerPhase.settle, WorkerPhase.stance, if_pos hid₀, moved.status, moved.count]
    exact .giveUp _
  | @retry d₀ _ e more moved =>
    have hid₀ : d₀.id = x := moved.id.symm.trans hid
    simp only [WorkerPhase.settle, WorkerPhase.stance, hid, hid₀, moved.status, moved.count, if_true, and_self]
    refine .retry ?_
    unfold giveUp at more
    omega
  | @success d₀ _ moved =>
    have hid₀ : d₀.id = x := moved.id.symm.trans hid
    simp only [WorkerPhase.settle, WorkerPhase.stance, hid, hid₀, moved.status, moved.count, if_true, reduceCtorEq,
      and_false, if_false, and_self]
    exact .succeed _

/-- A write for another delivery leaves its caller where it was: away. -/
theorem stance_of_settles_ne {φ : WorkerPhase} {d : Delivery} (h : Settles p φ d) (hid : d.id ≠ x) :
    φ.stance x = .away ∧ (φ.settle d).stance x = .away := by
  cases h with
  | @noProvider d₀ _ absent moved =>
    have hid₀ : d₀.id ≠ x := fun h => hid (moved.id.trans h)
    simp [WorkerPhase.settle, WorkerPhase.stance, hid, hid₀]
  | @gaveUp d₀ _ e out moved =>
    have hid₀ : d₀.id ≠ x := fun h => hid (moved.id.trans h)
    simp [WorkerPhase.settle, WorkerPhase.stance, hid₀]
  | @retry d₀ _ e more moved =>
    have hid₀ : d₀.id ≠ x := fun h => hid (moved.id.trans h)
    simp [WorkerPhase.settle, WorkerPhase.stance, hid, hid₀]
  | @success d₀ _ moved =>
    have hid₀ : d₀.id ≠ x := fun h => hid (moved.id.trans h)
    simp [WorkerPhase.settle, WorkerPhase.stance, hid, hid₀]

theorem owning_of_settling {max : Int} {r : Status × Nat} (h : Settling max a r a') : a.Owning := by
  cases h <;> constructor

@[simp] theorem not_owning_away : ¬ Stance.Owning .away := by
  intro h
  cases h

@[simp] theorem not_owning_reader (st : Status) (n : Nat) : ¬ Stance.Owning (.reader st n) := by
  intro h
  cases h

@[simp] theorem not_owning_recorder (n : Nat) : ¬ Stance.Owning (.recorder n) := by
  intro h
  cases h

@[simp] theorem not_owning_replayer : ¬ Stance.Owning .replayer := by
  intro h
  cases h

@[simp] theorem not_owning_ticker (n : Nat) : ¬ Stance.Owning (.ticker n) := by
  intro h
  cases h

theorem not_owning_of_away (h : a = .away) : ¬ a.Owning := by
  subst h
  exact not_owning_away

theorem worker_update {φ : WorkerPhase} {d : Delivery} {r : Ans (.remote (.update d))} (hk : ∀ id, k ≠ .replay id)
    (hm : Settles p φ d) (ha : Answered p w (.remote (.update d)) c r w') :
    Simulated p x w hist (φ.stance x) c w' ⟨t, k, .remote (.update d), r⟩
      ((φ.next (.remote (.update d)) r).stance x) := by
  have hL : ledger x w' (⟨t, k, .remote (.update d), r⟩ :: hist) = { ledger x w hist with row := w'.db.row x } :=
    ledger_update hk
  by_cases hid : d.id = x
  · have hset := settling_of_settles hm hid
    have hrow : (w.db.update d).row x = (w.db.row x).map fun _ => (d.status, d.retryCount) := by
      rw [Tables.row_update, if_pos hid]
    cases ha with
    | ran =>
      refine ⟨.settle, ?_, trivial⟩
      rw [hL]
      simp only [exec, hrow]
      exact .settle hset
    | fault _ msg =>
      refine ⟨.cut, ?_, .inl ⟨owning_of_settling hset, .inl ⟨msg, rfl⟩⟩⟩
      rw [hL]
      exact .cut (owning_of_settling hset)
    | lost _ msg =>
      refine ⟨.settle, ?_, trivial⟩
      rw [hL]
      simp only [exec, hrow]
      exact .settleLost hset
  · obtain ⟨haway, haway'⟩ := stance_of_settles_ne hm hid
    have hrow : (w.db.update d).row x = w.db.row x := by
      rw [Tables.row_update, if_neg hid]
    cases ha with
    | ran =>
      refine simulated_idle ?_ (haway'.trans haway.symm)
      rw [hL]
      simp only [exec, hrow]
      rfl
    | fault _ msg =>
      refine simulated_idle ?_ haway.symm
      rw [hL]
      rfl
    | lost _ msg =>
      refine simulated_idle ?_ haway.symm
      rw [hL]
      simp only [exec, hrow]
      rfl

theorem worker_claim {d₀ d : Delivery} {r : Ans (.remote (.updateIfStatus d d₀.status))} (hst : d₀.status.Takeable)
    (hid : d.id = d₀.id) (hp : d.status = .processing) (hn : d.retryCount = d₀.retryCount)
    (ha : Answered p w (.remote (.updateIfStatus d d₀.status)) c r w') :
    Simulated p x w hist ((WorkerPhase.snap d₀).stance x) c w' ⟨t, k, .remote (.updateIfStatus d d₀.status), r⟩
      (((WorkerPhase.snap d₀).next (.remote (.updateIfStatus d d₀.status)) r).stance x) := by
  have hL : ledger x w' (⟨t, k, .remote (.updateIfStatus d d₀.status), r⟩ :: hist) =
      { ledger x w hist with row := w'.db.row x } := by
    unfold ledger
    rw [era_cons (by cases k <;> rfl), List.countP_cons_of_neg (by simp [accepts]),
      List.countP_cons_of_neg (by simp [sends]), List.filterMap_cons_none rfl]
  by_cases hx : d₀.id = x
  · have hstance : (WorkerPhase.snap d₀).stance x = .reader d₀.status d₀.retryCount := if_pos ⟨hx, hst⟩
    rw [hstance]
    obtain ⟨m, hrow, hexec⟩ | ⟨-, hexec⟩ := w.db.updateIfStatus_cases d d₀.status
    · have hrow₀ : w.db.row x = some (d₀.status, m) := by rw [← hrow, hid, hx]
      have hrow' : (w.db.update d).row x = some (.processing, d₀.retryCount) := by
        rw [Tables.row_update, if_pos (hid.trans hx), hrow₀, hp, hn]
        rfl
      cases ha with
      | ran =>
        refine ⟨.claim, ?_, d, d₀.status, d₀.retryCount, m, rfl, rfl, hid.trans hx, hn, hrow₀, rfl⟩
        rw [hL]
        simp only [exec, hexec, hrow', WorkerPhase.next, WorkerPhase.stance, hid, hx, hn, if_true]
        exact .claim hrow₀ hst
      | fault _ msg => exact simulated_leave hL (not_owning_reader _ _) rfl
      | lost _ msg =>
        refine ⟨.cut, ?_, .inr ⟨msg, d, d₀.status, m, rfl, rfl, hid.trans hx, hst, hrow₀, by rw [hn]⟩⟩
        rw [hL]
        simp only [exec, hexec, hrow']
        exact .claimCut hrow₀ hst
    · cases ha with
      | ran =>
        refine simulated_leave ?_ (not_owning_reader _ _) ?_
        · rw [hL]
          simp only [exec, hexec]
          rfl
        · simp only [exec, hexec, WorkerPhase.next, WorkerPhase.stance]
      | fault _ msg => exact simulated_leave hL (not_owning_reader _ _) rfl
      | lost _ msg =>
        refine simulated_leave ?_ (not_owning_reader _ _) rfl
        rw [hL]
        simp only [exec, hexec]
        rfl
  · have hstance : (WorkerPhase.snap d₀).stance x = .away := if_neg fun h => hx h.1
    have hrow : (w.db.updateIfStatus d d₀.status).2.row x = w.db.row x := by
      obtain ⟨m, -, hexec⟩ | ⟨-, hexec⟩ := w.db.updateIfStatus_cases d d₀.status
      · rw [hexec, Tables.row_update, if_neg (hid.trans_ne hx)]
      · rw [hexec]
    rw [hstance]
    cases ha with
    | ran =>
      refine simulated_idle ?_ ?_
      · rw [hL]
        simp only [exec, hrow]
        rfl
      · show ((WorkerPhase.snap d₀).next (.remote (.updateIfStatus d d₀.status))
          (.ok (w.db.updateIfStatus d d₀.status).1)).stance x = .away
        cases (w.db.updateIfStatus d d₀.status).1 with
        | true => exact if_neg (hid.trans_ne hx)
        | false => rfl
    | fault _ msg => exact simulated_idle hL rfl
    | lost _ msg =>
      refine simulated_idle ?_ rfl
      rw [hL]
      simp only [exec, hrow]
      rfl

theorem worker_read {id : String} {r : Ans (.remote (.findByID id))}
    (ha : Answered p w (.remote (.findByID id)) c r w') :
    Simulated p x w hist (WorkerPhase.start.stance x) c w' ⟨t, k, .remote (.findByID id), r⟩
      ((WorkerPhase.start.next (.remote (.findByID id)) r).stance x) := by
  have hL : ledger x w' (⟨t, k, .remote (.findByID id), r⟩ :: hist) = ledger x w hist :=
    ledger_unseen (answered_plain ha trivial) (by cases k <;> rfl) trivial rfl
  cases ha with
  | ran =>
    cases hf : w.db.findByID id with
    | error e => exact simulated_idle (by simpa only [exec, hf] using hL) (by simp only [exec, hf]; rfl)
    | ok d =>
      obtain ⟨hid, hrow⟩ := Tables.findByID_ok hf
      simp only [exec, hf] at hL ⊢
      by_cases hd : d.id = x ∧ d.status.Takeable
      · refine ⟨.none, ?_, trivial⟩
        rw [hL]
        simp only [WorkerPhase.next, WorkerPhase.stance, if_pos hd]
        exact .look (by rw [← hd.1, hid]; exact hrow) hd.2
      · exact simulated_idle hL (if_neg hd)
  | fault _ msg => exact simulated_idle hL rfl
  | lost _ msg => exact simulated_idle hL rfl

theorem worker_send {d : Delivery} {r : Ans (.send d)} (ha : Answered p w (.send d) c r w') :
    Simulated p x w hist ((WorkerPhase.owned d).stance x) c w' ⟨t, k, .send d, r⟩
      (((WorkerPhase.owned d).next (.send d) r).stance x) := by
  cases ha with
  | send =>
    have hr : replays x ⟨t, k, .send d, r⟩ = false := by cases k <;> rfl
    by_cases hx : d.id = x
    · have hs : sends x ⟨t, k, .send d, r⟩ = true := by simpa [sends] using hx
      cases r with
      | ok res =>
        have hacc : accepts x ⟨t, k, .send d, .ok res⟩ = true := by simpa [accepts] using hx
        refine ⟨.none, ?_, trivial⟩
        simp only [WorkerPhase.next, WorkerPhase.accept, WorkerPhase.stance, if_pos hx, ledger]
        rw [era_cons hr, List.countP_cons_of_pos hacc, List.countP_cons_of_pos hs, List.filterMap_cons_none rfl]
        exact .accept _
      | error e =>
        have hacc : ¬ accepts x ⟨t, k, .send d, .error e⟩ = true := by simp [accepts]
        refine ⟨.none, ?_, trivial⟩
        simp only [WorkerPhase.next, WorkerPhase.refuse, WorkerPhase.stance, if_pos hx, ledger]
        rw [era_cons hr, List.countP_cons_of_neg hacc, List.countP_cons_of_pos hs, List.filterMap_cons_none rfl]
        exact .refuse _
    · have hs : sends x ⟨t, k, .send d, r⟩ = false := by simpa [sends] using hx
      have hacc : accepts x ⟨t, k, .send d, r⟩ = false := by
        cases r with
        | ok res => simpa [accepts] using hx
        | error e => rfl
      refine simulated_idle (ledger_quiet rfl hr hs hacc rfl) ?_
      cases r with
      | ok res => simp [WorkerPhase.next, WorkerPhase.accept, WorkerPhase.stance, hx]
      | error e => simp [WorkerPhase.next, WorkerPhase.refuse, WorkerPhase.stance, hx]

theorem worker_allow {d : Delivery} {proc : Nat} {r : Ans (.allow proc d.channel)}
    (ha : Answered p w (.allow proc d.channel) c r w') :
    Simulated p x w hist ((WorkerPhase.owned d).stance x) c w' ⟨t, k, .allow proc d.channel, r⟩
      (((WorkerPhase.owned d).next (.allow proc d.channel) r).stance x) := by
  have hL : ledger x w' (⟨t, k, .allow proc d.channel, r⟩ :: hist) = ledger x w hist :=
    ledger_unseen (answered_plain ha trivial) (by cases k <;> rfl) trivial rfl
  cases r with
  | ok _ => exact simulated_idle hL rfl
  | error e =>
    by_cases hx : d.id = x
    · refine ⟨.none, ?_, trivial⟩
      rw [hL]
      simp only [WorkerPhase.next, WorkerPhase.refuse, WorkerPhase.stance, if_pos hx]
      exact .block _
    · exact simulated_idle hL (by simp [WorkerPhase.next, WorkerPhase.refuse, WorkerPhase.stance, hx])

theorem recordAttempt_exec (p : Params) (w : World) (id : String) (att : Attempt) :
    (w.db.row id = none ∧ ∃ e, exec p w (.recordAttempt id att) = (.error e, w)) ∨
      ∃ w₁, exec p w (.recordAttempt id att) = (.ok (), w₁) := by
  simp only [exec, Tables.recordAttempt, Tables.row]
  cases hr : w.db.deliveries id with
  | none => exact .inl ⟨rfl, _, rfl⟩
  | some r => exact .inr ⟨_, rfl⟩

/-- An attempt recorded for `x` shows in the numbers only. -/
theorem ledger_recorded {id : String} {att : Attempt} (hrow : w'.db.row x = w.db.row x) :
    ledger x w' (⟨t, k, .remote (.recordAttempt id att), .ok ()⟩ :: hist) =
      if id = x then { ledger x w hist with numbers := att.attemptNumber :: (ledger x w hist).numbers }
      else ledger x w hist := by
  have hr : replays x ⟨t, k, .remote (.recordAttempt id att), .ok ()⟩ = false := by cases k <;> rfl
  split
  · rename_i hid
    have hn : recorded x ⟨t, k, .remote (.recordAttempt id att), .ok ()⟩ = some att.attemptNumber := if_pos hid
    unfold ledger
    rw [hrow, era_cons hr, List.countP_cons_of_neg (by simp [accepts]), List.countP_cons_of_neg (by simp [sends]),
      List.filterMap_cons_some hn]
  · rename_i hid
    exact ledger_unseen hrow hr trivial (if_neg hid)

theorem ledger_unrecorded {id : String} {att : Attempt} {e : Err} (hrow : w'.db.row x = w.db.row x) :
    ledger x w' (⟨t, k, .remote (.recordAttempt id att), .error e⟩ :: hist) = ledger x w hist :=
  ledger_unseen hrow (by cases k <;> rfl) trivial rfl

/-- A record of `d`'s attempt, written while its caller stands at `a`. -/
theorem worker_note {d : Delivery} {e : Err} {att : Attempt} {r : Ans (.remote (.recordAttempt d.id att))}
    (hn : att.attemptNumber = d.retryCount + 1) (ha : Answered p w (.remote (.recordAttempt d.id att)) c r w') :
    Simulated p x w hist ((WorkerPhase.refused d e false).stance x) c w' ⟨t, k, .remote (.recordAttempt d.id att), r⟩
      (((WorkerPhase.refused d e false).next (.remote (.recordAttempt d.id att)) r).stance x) := by
  have hrow : w'.db.row x = w.db.row x := answered_plain ha trivial
  by_cases hx : d.id = x
  · have hstance : (WorkerPhase.refused d e false).stance x = .refused d.retryCount := if_pos hx
    rw [hstance]
    have hcut : ∀ e', Turn p.maxAttempts .cut (ledger x w hist) (.refused d.retryCount)
        (ledger x w' (⟨t, k, .remote (.recordAttempt d.id att), .error e'⟩ :: hist)) .away := by
      intro e'
      rw [ledger_unrecorded hrow]
      exact .cut (.refused _)
    cases ha with
    | ran =>
      obtain ⟨hnone, e', hexec⟩ | ⟨w₁, hexec⟩ := recordAttempt_exec p w d.id att
      · rw [hexec] at hcut ⊢
        exact ⟨.cut, hcut e', .inl ⟨.refused _, .inr (.inr (hx ▸ hnone))⟩⟩
      · rw [hexec] at hrow ⊢
        refine ⟨.none, ?_, trivial⟩
        rw [ledger_recorded hrow, if_pos hx, hn]
        simp only [WorkerPhase.next, WorkerPhase.note, WorkerPhase.stance, if_pos hx]
        exact .note _
    | fault _ msg => exact ⟨.cut, hcut _, .inl ⟨.refused _, .inl ⟨msg, rfl⟩⟩⟩
    | lost _ msg => exact ⟨.cut, hcut _, .inl ⟨.refused _, .inr (.inl ⟨⟨msg, rfl⟩, _, _, rfl⟩)⟩⟩
  · refine simulated_idle ?_ ?_
    · cases r with
      | ok _ => rw [ledger_recorded hrow, if_neg hx]
      | error e' => exact ledger_unrecorded hrow
    · cases r <;> simp [WorkerPhase.next, WorkerPhase.note, WorkerPhase.stance, hx]

theorem worker_record {d : Delivery} {att : Attempt} {n : Nat} {r : Ans (.remote (.recordAttempt d.id att))}
    (hs : (WorkerPhase.settled d false).stance x = if d.id = x then .recorder n else .away)
    (hn : att.attemptNumber = n) (ha : Answered p w (.remote (.recordAttempt d.id att)) c r w') :
    Simulated p x w hist ((WorkerPhase.settled d false).stance x) c w' ⟨t, k, .remote (.recordAttempt d.id att), r⟩
      (((WorkerPhase.settled d false).next (.remote (.recordAttempt d.id att)) r).stance x) := by
  have hrow : w'.db.row x = w.db.row x := answered_plain ha trivial
  rw [hs]
  by_cases hx : d.id = x
  · rw [if_pos hx]
    cases r with
    | ok _ =>
      refine ⟨.none, ?_, trivial⟩
      rw [ledger_recorded hrow, if_pos hx, hn]
      exact .record _
    | error e => exact simulated_leave (ledger_unrecorded hrow) (not_owning_recorder _) rfl
  · rw [if_neg hx]
    cases r with
    | ok _ => exact simulated_idle (by rw [ledger_recorded hrow, if_neg hx]) rfl
    | error e => exact simulated_idle (ledger_unrecorded hrow) rfl

theorem quiet_not_owning {φ : WorkerPhase} (h : Quiet φ) : ¬ (φ.stance x).Owning := by
  cases h with
  | @seen d terminal =>
    refine not_owning_of_away (if_neg fun h => ?_)
    rcases terminal with ht | ht <;> rw [ht] at h <;> rcases h.2 with h | h <;> cases h
  | passed => exact not_owning_away
  | @settled d noted terminal =>
    cases noted with
    | true => exact not_owning_away
    | false =>
      simp only [WorkerPhase.stance]
      split_ifs <;> simp only [not_owning_recorder, not_owning_away, not_false_eq_true]

theorem loud_not_owning {φ : WorkerPhase} (h : Loud φ) : ¬ (φ.stance x).Owning := by
  cases h with
  | unread => exact not_owning_away
  | @seen d busy =>
    exact not_owning_of_away (if_neg fun h => h.2.elim busy.1 busy.2.1)
  | @settled d noted again =>
    cases noted with
    | true => exact not_owning_away
    | false =>
      simp only [WorkerPhase.stance]
      split_ifs <;> simp only [not_owning_recorder, not_owning_away, not_false_eq_true]
  | failed => exact not_owning_away

theorem stance_retrying {d : Delivery} (h : d.status = .retrying) :
    (WorkerPhase.settled d false).stance x = if d.id = x then .recorder d.retryCount else .away := by
  simp only [WorkerPhase.stance, h, and_true, reduceCtorEq, and_false, if_false]

theorem stance_succeeded {d : Delivery} (h : d.status = .succeeded) :
    (WorkerPhase.settled d false).stance x = if d.id = x then .recorder (d.retryCount + 1) else .away := by
  simp only [WorkerPhase.stance, h, and_true, reduceCtorEq, and_false, if_false]

theorem worker_turn {target : String → Prop} {copy : Nat × Nat → Prop} {φ : WorkerPhase} {op : Op} {r : Ans op}
    (hk : ∀ id, k ≠ .replay id) (hm : WorkerMay p target copy φ op) (ha : Answered p w op c r w') :
    Simulated p x w hist (φ.stance x) c w' ⟨t, k, op, r⟩ ((φ.next op r).stance x) := by
  have hL : op.Plain → replays x ⟨t, k, op, r⟩ = false → op.Silent → recorded x ⟨t, k, op, r⟩ = none →
      ledger x w' (⟨t, k, op, r⟩ :: hist) = ledger x w hist :=
    fun h => ledger_unseen (answered_plain ha h)
  cases op with
  | now => exact simulated_idle (hL trivial (by cases k <;> rfl) trivial rfl) rfl
  | newUUID => exact simulated_idle (hL trivial (by cases k <;> rfl) trivial rfl) rfl
  | int63n n => exact simulated_idle (hL trivial (by cases k <;> rfl) trivial rfl) rfl
  | recordSuccess proc ch => exact simulated_idle (hL trivial (by cases k <;> rfl) trivial rfl) rfl
  | recordFailure proc ch => exact simulated_idle (hL trivial (by cases k <;> rfl) trivial rfl) rfl
  | ack i c' =>
    exact simulated_leave (hL trivial (by cases k <;> rfl) trivial rfl) (quiet_not_owning hm.2) rfl
  | nak i c' =>
    exact simulated_leave (hL trivial (by cases k <;> rfl) trivial rfl) (loud_not_owning hm.2) rfl
  | allow proc ch =>
    obtain ⟨d, rfl, rfl⟩ := hm
    exact worker_allow ha
  | send d =>
    obtain ⟨rfl, -⟩ := hm
    exact worker_send ha
  | remote q =>
    cases q with
    | findByID id =>
      obtain ⟨rfl, -⟩ := hm
      exact worker_read ha
    | updateIfStatus d expected =>
      obtain ⟨d₀, now, rfl, hst, rfl, rfl⟩ := hm
      exact worker_claim hst rfl rfl rfl ha
    | update d => exact worker_update hk hm ha
    | recordAttempt id att =>
      cases hm with
      | gaveUp out number => exact worker_note number ha
      | retry status number => exact worker_record (stance_retrying status) number ha
      | success status number => exact worker_record (stance_succeeded status) number ha
    | publish subject body headers =>
      exact simulated_idle (hL trivial (by cases k <;> rfl) trivial rfl) rfl
    | append id ev payload =>
      obtain ⟨d, noted, rfl, rfl, -⟩ := hm
      have hq := hL trivial (by cases k <;> rfl) trivial rfl
      cases r with
      | ok _ => exact simulated_idle hq rfl
      | error e =>
        refine simulated_leave hq ?_ rfl
        cases noted with
        | true => exact not_owning_away
        | false =>
          simp only [WorkerPhase.stance]
          split_ifs <;> simp only [not_owning_recorder, not_owning_away, not_false_eq_true]
    | _ => exact hm.elim

/-! The other services. -/

/-- A write of the row by a call that stands at `a`, or that is about another delivery. -/
theorem replay_turn {id : String} {φ : ReplayPhase} {op : Op} {r : Ans op} (hm : ReplayMay p id φ op)
    (ha : Answered p w op c r w') :
    Simulated p x w hist (φ.stance x) c w' ⟨t, .replay id, op, r⟩ ((φ.next op r).stance x) := by
  cases op with
  | now => exact simulated_idle (ledger_unseen (answered_plain ha trivial) rfl trivial rfl) rfl
  | remote q =>
    cases q with
    | findByID id' =>
      obtain ⟨rfl, rfl⟩ := hm
      have hL : ledger x w' (⟨t, .replay id', .remote (.findByID id'), r⟩ :: hist) = ledger x w hist :=
        ledger_unseen (answered_plain ha trivial) rfl trivial rfl
      cases ha with
      | ran =>
        cases hf : w.db.findByID id' with
        | error e => exact simulated_idle (by simpa only [exec, hf] using hL) (by simp only [exec, hf]; rfl)
        | ok d =>
          obtain ⟨hid, hrow⟩ := Tables.findByID_ok hf
          simp only [exec, hf] at hL ⊢
          by_cases hd : d.id = x ∧ d.status.Replayable
          · refine ⟨.none, ?_, trivial⟩
            rw [hL]
            simp only [ReplayPhase.next, ReplayPhase.stance, if_pos hd]
            exact .lookReplay (by rw [← hd.1, hid]; exact hrow) hd.2
          · exact simulated_idle hL (if_neg hd)
      | fault _ msg => exact simulated_idle hL rfl
      | lost _ msg => exact simulated_idle hL rfl
    | update d =>
      obtain ⟨d₀, now, rfl, hst, hd⟩ := hm
      have hid : d.id = d₀.id := by rw [hd]
      by_cases hx : d₀.id = x
      · have hstance : (ReplayPhase.snap d₀).stance x = .replayer := if_pos ⟨hx, hst⟩
        have hrow : (w.db.update d).row x = (w.db.row x).map fun _ => (.queued, 0) := by
          rw [Tables.row_update, if_pos (hid.trans hx), hd]
        rw [hstance]
        cases ha with
        | ran =>
          refine ⟨.requeue, ?_, d, id, rfl, rfl, rfl, hid.trans hx⟩
          have hr : replays x ⟨t, .replay id, .remote (.update d), .ok ()⟩ = true := by
            simpa [replays] using hid.trans hx
          simp only [exec, ledger, hrow, ReplayPhase.next, ReplayPhase.stance]
          rw [era_replay hr, List.countP_cons_of_neg (by simp [accepts])]
          exact .requeue _
        | fault _ msg =>
          exact simulated_leave (ledger_unseen rfl rfl trivial rfl) not_owning_replayer rfl
        | lost _ msg =>
          refine ⟨.requeueLost, ?_, d, id, msg, rfl, rfl, rfl, hid.trans hx⟩
          simp only [exec, ledger, hrow, ReplayPhase.next, ReplayPhase.stance]
          rw [era_cons rfl, List.countP_cons_of_neg (by simp [accepts]), List.countP_cons_of_neg (by simp [sends]),
            List.filterMap_cons_none rfl]
          exact .requeueLost _
      · have hstance : (ReplayPhase.snap d₀).stance x = .away := if_neg fun h => hx h.1
        have hrow : (w.db.update d).row x = w.db.row x := by
          rw [Tables.row_update, if_neg (hid.trans_ne hx)]
        rw [hstance]
        refine simulated_idle (ledger_unseen ?_ ?_ trivial rfl) ?_
        · cases ha with
          | ran => exact hrow
          | fault _ msg => rfl
          | lost _ msg => exact hrow
        · cases r with
          | ok _ => simpa [replays] using hid.trans_ne hx
          | error e => rfl
        · cases r <;> rfl
    | publish subject body headers =>
      obtain ⟨d, rfl, -⟩ := hm
      refine simulated_idle (ledger_unseen (answered_plain ha trivial) rfl trivial rfl) ?_
      cases r <;> rfl
    | append id' ev payload =>
      obtain ⟨d, rfl, -⟩ := hm
      refine simulated_idle (ledger_unseen (answered_plain ha trivial) rfl trivial rfl) ?_
      cases r <;> rfl
    | _ => exact hm.elim
  | _ => exact hm.elim

/-- A tick between two rows stands nowhere. -/
theorem stance_of_todo {φ : TickPhase} {ids : List String} (h : φ.todo = some ids) : φ.stance x = .away := by
  cases φ with
  | snap d rest =>
    simp only [TickPhase.todo] at h
    split at h
    · cases h
    · rename_i hd
      exact if_neg fun h => hd h.2
  | _ => rfl

theorem tick_turn {φ : TickPhase} {op : Op} {r : Ans op} (hm : TickMay p φ op) (ha : Answered p w op c r w') :
    Simulated p x w hist (φ.stance x) c w' ⟨t, .processDue, op, r⟩ ((φ.next op r).stance x) := by
  cases op with
  | now =>
    have hφ : φ = .start := hm
    subst hφ
    exact simulated_idle (ledger_unseen (answered_plain ha trivial) rfl trivial rfl) rfl
  | remote q =>
    cases q with
    | fetchDue before limit =>
      have hφ : φ = .asked before := hm
      subst hφ
      refine simulated_idle (ledger_unseen (answered_plain ha trivial) rfl trivial rfl) ?_
      cases r <;> rfl
    | findByID id' =>
      obtain ⟨ids, htodo⟩ := hm
      have hL : ledger x w' (⟨t, .processDue, .remote (.findByID id'), r⟩ :: hist) = ledger x w hist :=
        ledger_unseen (answered_plain ha trivial) rfl trivial rfl
      have hread : φ.next (.remote (.findByID id')) r = φ.read r := by cases r <;> rfl
      rw [stance_of_todo htodo, hread]
      have herr : ∀ e, (φ.read (.error e)).stance x = .away := fun e => by
        simp only [TickPhase.read, htodo]
        rfl
      cases ha with
      | ran =>
        cases hf : w.db.findByID id' with
        | error e => exact simulated_idle (by simpa only [exec, hf] using hL) (by simpa only [exec, hf] using herr e)
        | ok d =>
          obtain ⟨hid, hrow⟩ := Tables.findByID_ok hf
          simp only [exec, hf] at hL ⊢
          simp only [TickPhase.read, htodo, TickPhase.stance]
          by_cases hd : d.id = x ∧ d.status = .pending
          · refine ⟨.none, ?_, trivial⟩
            rw [hL, if_pos hd]
            exact .lookTick (by rw [← hd.1, hid, ← hd.2]; exact hrow)
          · exact simulated_idle hL (if_neg hd)
      | fault _ msg => exact simulated_idle hL (herr _)
      | lost _ msg => exact simulated_idle hL (herr _)
    | update d =>
      obtain ⟨d₀, now, ids, rfl, hst, hd⟩ := hm
      have hid : d.id = d₀.id := by rw [hd]
      by_cases hx : d₀.id = x
      · have hstance : (TickPhase.snap d₀ ids).stance x = .ticker d₀.retryCount := if_pos ⟨hx, hst⟩
        have hrow : (w.db.update d).row x = (w.db.row x).map fun _ => (.queued, d₀.retryCount) := by
          rw [Tables.row_update, if_pos (hid.trans hx), hd]
        rw [hstance]
        have hL : ledger x w' (⟨t, .processDue, .remote (.update d), r⟩ :: hist) =
            { ledger x w hist with row := w'.db.row x } := ledger_update fun _ h => by cases h
        cases ha with
        | ran =>
          refine ⟨.queue, ?_, d, trivial, rfl, rfl, hid.trans hx⟩
          rw [hL]
          simp only [exec, hrow]
          exact .queue _
        | fault _ msg => exact simulated_leave (ledger_unseen rfl rfl trivial rfl) (not_owning_ticker _) rfl
        | lost _ msg =>
          refine ⟨.queue, ?_, d, trivial, rfl, rfl, hid.trans hx⟩
          rw [hL]
          simp only [exec, hrow]
          exact .queue _
      · have hstance : (TickPhase.snap d₀ ids).stance x = .away := if_neg fun h => hx h.1
        have hrow : (w.db.update d).row x = w.db.row x := by
          rw [Tables.row_update, if_neg (hid.trans_ne hx)]
        rw [hstance]
        refine simulated_idle (ledger_unseen ?_ rfl trivial rfl) (by cases r <;> rfl)
        cases ha with
        | ran => exact hrow
        | fault _ msg => rfl
        | lost _ msg => exact hrow
    | enqueue id' subject body headers =>
      obtain ⟨d, ids, rfl, -⟩ := hm
      refine simulated_idle (ledger_unseen (answered_plain ha trivial) rfl trivial rfl) ?_
      cases r <;> rfl
    | markProcessed id' =>
      obtain ⟨d, ids, rfl, -⟩ := hm
      refine simulated_idle (ledger_unseen (answered_plain ha trivial) rfl trivial rfl) ?_
      cases r <;> rfl
    | append id' ev payload =>
      obtain ⟨d, ids, rfl, -⟩ := hm
      refine simulated_idle (ledger_unseen (answered_plain ha trivial) rfl trivial rfl) ?_
      cases r <;> rfl
    | _ => exact hm.elim
  | _ => exact hm.elim

theorem flush_turn {φ : FlushPhase} {op : Op} {r : Ans op} (hm : FlushMay φ op) (ha : Answered p w op c r w') :
    Simulated p x w hist .away c w' ⟨t, .flush, op, r⟩ .away := by
  have hplain : op.Plain ∧ op.Silent ∧ recorded x ⟨t, .flush, op, r⟩ = none := by
    cases op with
    | remote q => cases q <;> first | exact ⟨trivial, trivial, rfl⟩ | exact hm.elim
    | _ => exact hm.elim
  exact simulated_idle (ledger_unseen (answered_plain ha hplain.1) rfl hplain.2.1 hplain.2.2) rfl

theorem ingest_turn {req : IngestRequest} {φ : IngestPhase} {op : Op} {r : Ans op} (hm : IngestMay p req φ op)
    (ha : Answered p w op c r w') : Simulated p x w hist .away c w' ⟨t, .ingest req, op, r⟩ .away := by
  have hidle : op.Plain → op.Silent → recorded x ⟨t, .ingest req, op, r⟩ = none →
      Simulated p x w hist .away c w' ⟨t, .ingest req, op, r⟩ .away := fun h1 h2 h3 =>
    simulated_idle (ledger_unseen (answered_plain ha h1) rfl h2 h3) rfl
  cases op with
  | now => exact hidle trivial trivial rfl
  | newUUID => exact hidle trivial trivial rfl
  | remote q =>
    cases q with
    | findByIdempotencyKey key ch => exact hidle trivial trivial rfl
    | ingestTransactional d exp subject payload headers schedule =>
      obtain ⟨id, rfl, hmakes, -⟩ := hm
      have hL : ledger x w' (⟨t, .ingest req, .remote (.ingestTransactional d exp subject payload headers schedule),
          r⟩ :: hist) = { ledger x w hist with row := w'.db.row x } := by
        unfold ledger
        rw [era_cons rfl, List.countP_cons_of_neg (by simp [accepts]), List.countP_cons_of_neg (by simp [sends]),
          List.filterMap_cons_none rfl]
      have hnew : d.status = .pending ∨ d.status = .queued := by
        rw [hmakes.status]
        cases schedule
        · exact .inr rfl
        · exact .inl rfl
      -- what the transaction does to the row, whether or not its caller learns of it
      have hexec : w'.db.row x = w.db.row x ∨ w.db.row x = none ∧ w'.db.row x = some (d.status, 0) := by
        have hrun : (exec p w (.ingestTransactional d exp subject payload headers schedule)).2.db.row x = w.db.row x ∨
            w.db.row x = none ∧
              (exec p w (.ingestTransactional d exp subject payload headers schedule)).2.db.row x =
                some (d.status, 0) := by
          simp only [exec]
          cases htx : w.db.ingestTransactional w.clock d exp subject payload headers schedule with
          | error e => exact .inl rfl
          | ok t₁ =>
            obtain ⟨hnone, hdel⟩ := Tables.ingestTransactional_deliveries htx
            simp only [World.store, Tables.row_insert hdel, hmakes.count]
            split
            · rename_i hx
              subst hx
              exact .inr ⟨by simp [Tables.row, hnone], rfl⟩
            · exact .inl rfl
        cases ha with
        | ran => exact hrun
        | fault _ msg => exact .inl rfl
        | lost _ msg => exact hrun
      rcases hexec with hsame | ⟨hnone, hsome⟩
      · refine simulated_idle ?_ rfl
        rw [hL, hsame]
        rfl
      · refine ⟨.create, ?_, trivial⟩
        rw [hL, hsome]
        exact .create hnone hnew
    | _ => exact hm.elim
  | _ => exact hm.elim

/-- Whatever the task, its answered call is a turn. -/
theorem call_turn {φ : Phase} {op : Op} {r : Ans op} (hm : May p k φ op) (ha : Answered p w op c r w') :
    Simulated p x w hist (φ.stance x) c w' ⟨t, k, op, r⟩ ((φ.next op r).stance x) := by
  cases k with
  | ingest req =>
    cases φ with
    | ingest φ => exact ingest_turn hm ha
    | _ => exact hm.elim
  | dispatch proc id =>
    cases φ with
    | worker φ =>
      have hm : WorkerMay p (· = id) (fun _ => False) φ op := hm
      exact worker_turn (fun _ h => by cases h) hm ha
    | _ => exact hm.elim
  | handle proc i c' m =>
    cases φ with
    | worker φ =>
      have hm : WorkerMay p (m.deliveryId = .ok ·) (· = (i, c')) φ op := hm
      exact worker_turn (fun _ h => by cases h) hm ha
    | _ => exact hm.elim
  | replay id =>
    cases φ with
    | replay φ => exact replay_turn hm ha
    | _ => exact hm.elim
  | flush =>
    cases φ with
    | flush φ => exact flush_turn hm ha
    | _ => exact hm.elim
  | processDue =>
    cases φ with
    | tick φ => exact tick_turn hm ha
    | _ => exact hm.elim

end

/-! Whole steps. -/

section
variable {p : Params} {s s' : System} {l : Act}

theorem enter_db {k : Task} {w w' : World} (h : w.enter p k = some w') : w'.db = w.db := by
  unfold World.enter at h
  split at h
  · split at h
    · cases h
      rfl
    · cases h
  · cases h
    rfl

theorem move_db {m : Move} {w w' : World} (h : w.move m = some w') : w'.db = w.db := by
  unfold World.move at h
  split at h
  · cases h
    rfl
  · split at h
    · cases h
      rfl
    · cases h

theorem first_stance (x : String) (k : Task) : k.first.stance x = .away := by
  cases k <;> rfl

theorem view_update (x : String) (t : Nat) (th : Option (Thread Op Ans Task Result Phase)) :
    (fun u => threadStance x (Function.update s.threads t th u)) =
      Function.update (fun u => threadStance x (s.threads u)) t (threadStance x th) :=
  Function.comp_update (threadStance x) s.threads t th

/-- What a step of the system was at `x`'s board: the deed, and what it comes from. -/
def StepBehind (x : String) (s : System) (l : Act) (t : Nat) (deed : Deed) : Prop :=
  (deed = .none ∨ deed = .cut ∧ l = .crash t ∧ (threadStance x (s.threads t)).Owning) ∨
    ∃ c k φ op f, l = .call t c ∧ s.threads t = some ⟨k, φ, .ask op f⟩ ∧ Behind x (φ.stance x) k op c s.state deed

/-- The simulation: a step is a turn of the thread that takes it, at the board of every delivery. -/
theorem view_step (x : String) (hc : (machine p).Conforms (protocol p) s) (hs : (machine p).Step s l s') :
    ∃ t deed L a, System.view x s' = (System.view x s).turn t L a ∧
      Turn p.maxAttempts deed (System.view x s).shared ((System.view x s).places t) L a ∧ StepBehind x s l t deed := by
  cases hs with
  | @start t k w free entered =>
    have hplace : (System.view x s).places t = .away := by simp [System.view, free, threadStance]
    refine ⟨t, .none, (System.view x s).shared, .away, ?_, hplace ▸ .idle _ _, .inl (.inl rfl)⟩
    have hdb : w.db = s.state.db := enter_db entered
    have hfirst : threadStance x (some ⟨k, k.first, program p k⟩) = .away := first_stance x k
    simp only [System.view, Board.turn, machine, view_update, hfirst, ledger, hdb]
  | @call t c k φ op f r w running answered =>
    have hm : May p k φ op := hc.may running
    have hsim : Simulated p x s.state s.hist (φ.stance x) c w ⟨t, k, op, r⟩ ((φ.next op r).stance x) :=
      call_turn hm (answer_cases answered)
    obtain ⟨deed, hturn, hbehind⟩ := hsim
    have hplace : (System.view x s).places t = φ.stance x := by simp [System.view, running, threadStance]
    refine ⟨t, deed, ledger x w (⟨t, k, op, r⟩ :: s.hist), (φ.next op r).stance x, ?_, ?_,
      .inr ⟨c, k, φ, op, f, rfl, running, hbehind⟩⟩
    · simp only [System.view, Board.turn, machine, view_update]
      rfl
    · rw [hplace]
      exact hturn
  | @crash t k φ op f running =>
    have hview : System.view x { s with threads := Function.update s.threads t none } =
        (System.view x s).turn t (System.view x s).shared .away := by
      simp only [System.view, Board.turn, view_update]
      rfl
    by_cases how : ((System.view x s).places t).Owning
    · exact ⟨t, .cut, _, _, hview, .cut how, .inl (.inr ⟨rfl, rfl, how⟩)⟩
    · exact ⟨t, .none, _, _, hview, .leave how, .inl (.inl rfl)⟩
  | @move m w moved =>
    refine ⟨0, .none, (System.view x s).shared, (System.view x s).places 0, ?_, .idle _ _, .inl (.inl rfl)⟩
    rw [Board.turn_same]
    have hdb : w.db = s.state.db := move_db moved
    simp only [System.view, ledger, hdb]

end

end GoCourier
