import GoCourier.Ledger.Places
import GoCourier.Lib.Boards
import GoCourier.Rows.Writes

/- Deliveries one by one. Every step of the system is a turn at the board of one delivery
   at most: whatever thread takes it, it changes one row at most, shows in one ledger at
   most, and comes to stand otherwise towards one delivery at most. So for the ledgers a
   run of any number of services at once, with whatever fails and crashes, comes to what
   a run comes to that deals with one delivery after another, each by the turns that its
   own ledger allows. -/
namespace GoCourier

open Interleave

/-- The turns that a ledger allows. -/
def LedgerTurn (max : Int) (L : Ledger) (a : Stance) (L' : Ledger) (a' : Stance) : Prop := ∃ deed, Turn max deed L a L' a'

/-- The boards of all deliveries. -/
def System.ledgers (s : System) (x : String) : Board Ledger Stance := System.view x s

/-- The delivery whose ledger a call may show in. -/
def Op.subject : Op → Option String
  | .send d | .remote (.update d) | .remote (.updateIfStatus d _) | .remote (.ingestTransactional d _ _ _ _ _) => some d.id
  | .remote (.recordAttempt id _) => some id
  | _ => none

section
variable {p : Params} {s s' : System} {l : Act} {x : String} {t : Nat} {k : Task} {c : Choice} {w w' : World}
  {op : Op} {r : Ans op} {hist : List Called}

/-! One call. -/

theorem row_other {q : Remote} (hx : (Op.remote q).subject ≠ some x) : (exec p w q).2.db.row x = w.db.row x := by
  by_cases hq : (Op.remote q).Plain
  · -- most statements write no status
    exact Tables.row_congr (exec_plain p w hq) x
  · have hupdate : ∀ d : Delivery, d.id ≠ x → (w.db.update d).row x = w.db.row x := by
      intro d hd
      rw [Tables.row_update, if_neg hd]
    cases q with
    | update d => exact hupdate d fun hd => hx (congrArg some hd)
    | updateIfStatus d st =>
      exact Tables.updateIfStatus_keeps (P := (·.row x = w.db.row x)) rfl (hupdate d fun hd => hx (congrArg some hd)) st
    | ingestTransactional d exp subject payload headers schedule =>
      refine store_keeps (P := (·.row x = w.db.row x)) rfl fun t ht => ?_
      have hd : x ≠ d.id := fun hd => hx (congrArg some hd.symm)
      rw [Tables.row, (Tables.ingestTransactional_deliveries ht).2, Function.update_of_ne hd]
      rfl
    | _ => exact absurd trivial hq

/-- The other ledgers do not show the call. -/
theorem ledger_other (ha : Answered p w op c r w') (hx : op.subject ≠ some x) :
    ledger x w' (⟨t, k, op, r⟩ :: hist) = ledger x w hist := by
  have hrow : w'.db.row x = w.db.row x := by
    cases ha with
    | ran q => exact row_other hx
    | lost q msg => exact row_other hx
    | _ => rfl
  have hid : ∀ id : String, op.subject = some id → id ≠ x := fun id hop hid => hx (hop.trans (congrArg some hid))
  apply ledger_quiet hrow
  · cases k with
    | replay y =>
      cases op with
      | remote q =>
        cases q with
        | update d =>
          cases r with
          | ok u => exact decide_eq_false (hid d.id rfl)
          | error e => rfl
        | _ => rfl
      | _ => rfl
    | _ => rfl
  · cases op with
    | send d => exact decide_eq_false (hid d.id rfl)
    | _ => rfl
  · cases op with
    | send d =>
      cases r with
      | ok res => exact decide_eq_false (hid d.id rfl)
      | error e => rfl
    | _ => rfl
  · cases op with
    | remote q =>
      cases q with
      | recordAttempt id a =>
        cases r with
        | ok u => exact if_neg (hid id rfl)
        | error e => rfl
      | _ => rfl
    | _ => rfl

/-! Where a thread stands. -/

theorem worker_away {φ : WorkerPhase} {P : String → Prop} (h : φ.About P) (hx : ¬ P x) : φ.stance x = .away := by
  have hne : ∀ d : Delivery, P d.id → d.id ≠ x := fun d hd hid => hx (hid ▸ hd)
  cases φ with
  | snap d => exact if_neg fun hd => hne d h hd.1
  | owned d => exact if_neg (hne d h)
  | refused d e noted => cases noted <;> exact if_neg (hne d h)
  | accepted d => exact if_neg (hne d h)
  | settled d noted =>
    cases noted with
    | true => rfl
    | false => exact (if_neg fun hd => hne d h hd.1).trans (if_neg fun hd => hne d h hd.1)
  | _ => rfl

theorem replay_away {φ : ReplayPhase} {id : String} (h : φ.About id) (hx : x ≠ id) : φ.stance x = .away := by
  cases φ with
  | snap d =>
    have hd : d.id = id := h
    exact if_neg fun hboth => hx (hboth.1.symm.trans hd)
  | _ => rfl

theorem tick_away (d : Delivery) (ids : List String) (hx : x ≠ d.id) : (TickPhase.snap d ids).stance x = .away :=
  if_neg fun hboth => hx hboth.1.symm

/-- A dispatch is for one delivery. -/
theorem one_target (k : Task) : ∃ x₀, ∀ x, k.Target x → x = x₀ := by
  cases k with
  | dispatch proc id => exact ⟨id, fun x hx => hx⟩
  | handle proc i c m =>
    cases hm : m.deliveryId with
    | error e =>
      refine ⟨"", fun x hx => ?_⟩
      have hx : m.deliveryId = .ok x := hx
      rw [hm] at hx
      cases hx
    | ok id =>
      refine ⟨id, fun x hx => ?_⟩
      have hx : m.deliveryId = .ok x := hx
      rw [hm] at hx
      exact (Except.ok.inj hx).symm
  | _ => exact ⟨"", fun x hx => hx.elim⟩

/-- A call that shows in no ledger but `x₀`'s, by a thread that stands towards no other delivery before and after it. -/
def Confined (x₀ : String) (φ : Phase) (op : Op) (φ' : Phase) : Prop :=
  ∀ x, x ≠ x₀ → φ'.stance x = φ.stance x ∧ op.subject ≠ some x

theorem confined_of_away {x₀ : String} {φ φ' : Phase} (h : ∀ x, x ≠ x₀ → φ.stance x = .away ∧ φ'.stance x = .away)
    (hop : ∀ x, op.subject = some x → x = x₀) : Confined x₀ φ op φ' := by
  intro x hx
  obtain ⟨hbefore, hafter⟩ := h x hx
  exact ⟨hafter.trans hbefore.symm, fun hsubject => hx (hop x hsubject)⟩

theorem worker_subject {φ : WorkerPhase} {T : String → Prop} {C : Nat × Nat → Prop} (hm : WorkerMay p T C φ op)
    (h : φ.About T) (hx : op.subject = some x) : T x := by
  cases op with
  | send d =>
    obtain ⟨rfl, -⟩ := hm
    exact Option.some.inj hx ▸ h
  | remote q =>
    cases q with
    | update d => exact Option.some.inj hx ▸ settles_id hm h
    | updateIfStatus d st =>
      obtain ⟨d₀, now, rfl, -, -, rfl⟩ := hm
      exact Option.some.inj hx ▸ h
    | recordAttempt id a =>
      obtain rfl := Option.some.inj hx
      cases hm <;> exact h
    | ingestTransactional => exact hm.elim
    | _ => cases hx
  | _ => cases hx

theorem worker_confined {φ : WorkerPhase} (hm : WorkerMay p k.Target k.Copies φ op) (h : φ.About k.Target) (hr : Seen op r) :
    ∃ x₀, Confined x₀ (.worker φ) op (.worker (φ.next op r)) := by
  -- a message may name any delivery, but it names one
  obtain ⟨x₀, hone⟩ := one_target k
  refine ⟨x₀, confined_of_away (fun x hx => ?_) fun x hop => hone x (worker_subject hm h hop)⟩
  have hnone : ¬ k.Target x := fun ht => hx (hone x ht)
  exact ⟨worker_away h hnone, worker_away (about_worker h hm hr) hnone⟩

theorem replay_confined {φ : ReplayPhase} {id : String} (hm : ReplayMay p id φ op) (h : φ.About id) (hr : Seen op r) :
    ∃ x₀, Confined x₀ (.replay φ) op (.replay (φ.next op r)) := by
  refine ⟨id, confined_of_away (fun x hx => ⟨replay_away h hx, replay_away (about_replay h hm hr) hx⟩) fun x hop => ?_⟩
  cases op with
  | remote q =>
    cases q with
    | update d =>
      obtain ⟨d₀, now, rfl, -, rfl⟩ := hm
      exact (Option.some.inj hop).symm.trans h
    | updateIfStatus => exact hm.elim
    | recordAttempt => exact hm.elim
    | ingestTransactional => exact hm.elim
    | _ => cases hop
  | send => exact hm.elim
  | _ => cases hop

theorem tick_confined {φ φ' : TickPhase} (h : TickMoves p φ op r φ') : ∃ x₀, Confined x₀ (.tick φ) op (.tick φ') := by
  cases h with
  | @read φ id ids todo d =>
    refine ⟨d.id, confined_of_away (fun x hx => ⟨stance_of_todo todo, tick_away d ids hx⟩) fun x hop => ?_⟩
    cases hop
  | missing todo e =>
    refine ⟨"", confined_of_away (fun x hx => ⟨stance_of_todo todo, rfl⟩) fun x hop => ?_⟩
    cases hop
  | @wrote d d' now ids pending queued =>
    subst queued
    exact ⟨d.id, confined_of_away (fun x hx => ⟨tick_away d ids hx, rfl⟩) fun x hop => (Option.some.inj hop).symm⟩
  | @unwritten d d' now ids pending queued e =>
    subst queued
    exact ⟨d.id, confined_of_away (fun x hx => ⟨tick_away d ids hx, rfl⟩) fun x hop => (Option.some.inj hop).symm⟩
  | _ =>
    refine ⟨"", confined_of_away (fun x hx => ⟨rfl, rfl⟩) fun x hop => ?_⟩
    cases hop

/-- Every call is confined so. -/
theorem call_confined {φ : Phase} (hm : May p k φ op) (h : About k φ) (hr : Seen op r) :
    ∃ x₀, Confined x₀ φ op (φ.next op r) := by
  cases φ with
  | worker ψ =>
    cases k with
    | dispatch proc id => exact worker_confined (worker_may hm) h hr
    | handle proc i c m => exact worker_confined (worker_may hm) h hr
    | _ => exact hm.elim
  | replay ψ =>
    cases k with
    | replay id => exact replay_confined hm h hr
    | _ => exact hm.elim
  | tick ψ =>
    cases k with
    | processDue => exact tick_confined (tick_moves hm r)
    | _ => exact hm.elim
  | _ =>
    -- an ingest and a publisher stand nowhere
    refine ⟨op.subject.getD "", confined_of_away (fun x hx => ⟨rfl, rfl⟩) fun x hop => ?_⟩
    rw [hop]
    rfl

/-! One step. -/

/-- A thread stands towards one delivery at most. -/
theorem one_stance (φ : Phase) : ∃ x₀, ∀ x, x ≠ x₀ → φ.stance x = .away := by
  cases φ with
  | worker ψ =>
    have habout : ∃ x₀, ψ.About (· = x₀) := by
      cases ψ with
      | snap d => exact ⟨d.id, rfl⟩
      | owned d => exact ⟨d.id, rfl⟩
      | refused d e noted => exact ⟨d.id, rfl⟩
      | accepted d => exact ⟨d.id, rfl⟩
      | settled d noted => exact ⟨d.id, rfl⟩
      | _ => exact ⟨"", trivial⟩
    obtain ⟨x₀, h⟩ := habout
    exact ⟨x₀, fun x hx => worker_away h hx⟩
  | replay ψ =>
    have habout : ∃ id, ψ.About id := by
      cases ψ with
      | snap d => exact ⟨d.id, rfl⟩
      | requeued d => exact ⟨d.id, rfl⟩
      | published d => exact ⟨d.id, rfl⟩
      | done d => exact ⟨d.id, rfl⟩
      | _ => exact ⟨"", trivial⟩
    obtain ⟨id, h⟩ := habout
    exact ⟨id, fun x hx => replay_away h hx⟩
  | tick ψ =>
    cases ψ with
    | snap d ids => exact ⟨d.id, fun x hx => tick_away d ids hx⟩
    | _ => exact ⟨"", fun x hx => rfl⟩
  | _ => exact ⟨"", fun x hx => rfl⟩

/-- A thread that stands as it stood, and a ledger that shows what it showed. -/
theorem view_same {th : Option (Thread Op Ans Task Result Phase)} (hL : ledger x w hist = ledger x s.state s.hist)
    (hth : threadStance x th = threadStance x (s.threads t)) :
    System.view x ⟨w, Function.update s.threads t th, hist⟩ = System.view x s := by
  unfold System.view
  rw [hL, view_update, hth]
  congr 1
  exact Function.update_eq_self t (fun u => threadStance x (s.threads u))

theorem step_confined (hc : (machine p).Conforms (protocol p) s) (hs : (machine p).Step s l s') :
    ∃ x₀, ∀ x, x ≠ x₀ → System.view x s' = System.view x s := by
  cases hs with
  | @start t k w free entered =>
    refine ⟨"", fun x _ => view_same ?_ ?_⟩
    · simp only [ledger, enter_db entered]
    · rw [free]
      exact first_stance x k
  | @call t c k φ op f r w running answered =>
    have habout : About k φ := hc.holds running
    obtain ⟨x₀, hconfined⟩ := call_confined (hc.may running) habout (seen_answer p answered)
    refine ⟨x₀, fun x hx => view_same ?_ ?_⟩
    · exact ledger_other (answer_cases answered) (hconfined x hx).2
    · rw [running]
      exact (hconfined x hx).1
  | @crash t k φ op f running =>
    -- only where the thread stood has it left a place
    obtain ⟨x₀, haway⟩ := one_stance φ
    refine ⟨x₀, fun x hx => view_same rfl ?_⟩
    rw [running]
    exact (haway x hx).symm
  | @move m w moved =>
    refine ⟨"", fun x _ => ?_⟩
    simp only [System.view, ledger, move_db moved]

theorem ledgers_step (hc : (machine p).Conforms (protocol p) s) (hs : (machine p).Step s l s') :
    Boards.Plays (LedgerTurn p.maxAttempts) (System.ledgers s) (System.ledgers s') := by
  obtain ⟨x₀, hother⟩ := step_confined hc hs
  -- at that delivery's board the step is a turn, at the others it is none
  obtain ⟨t, deed, L, a, hview, hturn, -⟩ := view_step x₀ hc hs
  have hledgers : System.ledgers s' = Function.update (System.ledgers s) x₀ ((System.ledgers s x₀).turn t L a) := by
    funext x
    by_cases hx : x = x₀
    · subst hx
      rw [Function.update_self]
      exact hview
    · rw [Function.update_of_ne hx]
      exact hother x hx
  rw [hledgers]
  exact .on x₀ (.turn ⟨deed, hturn⟩)

/-- Whatever races, fails and crashes, the ledgers come to what one delivery after another would bring them to. -/
theorem ledgers_in_turn {ok : System → Act → Prop} (hr : (machine p).Reach ok (System.init p) s) :
    ∃ xs, xs.Nodup ∧ Boards.InTurn (LedgerTurn p.maxAttempts) xs (System.ledgers (System.init p)) (System.ledgers s) := by
  have hplays : (machine p).Conforms (protocol p) s ∧
      Relation.ReflTransGen (Boards.Plays (LedgerTurn p.maxAttempts)) (System.ledgers (System.init p)) (System.ledgers s) := by
    refine hr.invariant (I := fun s => (machine p).Conforms (protocol p) s ∧
      Relation.ReflTransGen (Boards.Plays (LedgerTurn p.maxAttempts)) (System.ledgers (System.init p)) (System.ledgers s))
      ⟨init_conforms p, .refl⟩ ?_
    intro s₁ l s₂ hI _ hs
    exact ⟨Machine.conforms_step hI.1 hs, hI.2.tail (ledgers_step hI.1 hs)⟩
  exact inTurn_of_plays hplays.2

end

/-- Two dispatches that race: each reads, claims and sends while the other is at it. -/
def racingDispatches : List Act :=
  ingestCalls 0 "d1" ++ ingestCalls 1 "d2" { sampleRequest with idempotencyKey := "k2" } ++
    [.start 2 (.dispatch 0 "d1"), .start 3 (.dispatch 0 "d2"), .call 2 .run, .call 3 .run, .call 3 .run, .call 2 .run] ++
    runs 2 2 ++ runs 3 2 ++
    [.call 2 (.uuid "a1"), .call 3 (.uuid "a2"), .call 3 (.verdict (.ok {})), .call 2 (.verdict (.ok {}))] ++
    runs 2 1 ++ runs 3 5 ++ runs 2 4

theorem ledgers_in_turn_sample : ∃ s, (machine {}).run (System.init {}) racingDispatches = some s ∧
    s.state.db.row "d1" = some (.succeeded, 0) ∧ s.state.db.row "d2" = some (.succeeded, 0) ∧
    ∃ xs, xs.Nodup ∧ Boards.InTurn (LedgerTurn 8) xs (System.ledgers (System.init {})) (System.ledgers s) := by
  have hrun : ((machine {}).run (System.init {}) racingDispatches).map (fun s =>
      (s.state.db.row "d1", s.state.db.row "d2")) = some (some (.succeeded, 0), some (.succeeded, 0)) := by
    decide +kernel
  obtain ⟨s, hs, hrows⟩ := Option.map_eq_some_iff.mp hrun
  obtain ⟨hd1, hd2⟩ := Prod.mk.inj hrows
  exact ⟨s, hs, hd1, hd2, ledgers_in_turn (Machine.reach_run hs)⟩

end GoCourier
