import GoCourier.Ledger.Turn
import GoCourier.System.Frames
import GoCourier.System.Runs

/- Every step of the system is a turn at the board of each delivery. `System.view x`
   reads the board of delivery `x` off a configuration: the row from the table, the
   counts from the history, the stance of each call from its phase. `view_step` is the
   simulation; it also says which step of the program a turn that matters comes from. -/
namespace GoCourier

open Interleave

abbrev Called := Event Op Ans Task

/-! What the history says of a delivery. -/

/-- A replay's `Update` of `x` that returned nil. -/
def replays (x : String) : Called → Bool
  | ⟨_, .replay _, .remote (.update d), .ok _⟩ => d.id = x
  | _ => false

def sends (x : String) : Called → Bool
  | ⟨_, _, .send d, _⟩ => d.id = x
  | _ => false

def accepts (x : String) : Called → Bool
  | ⟨_, _, .send d, .ok _⟩ => d.id = x
  | _ => false

/-- The attempt number a `RecordAttempt` for `x` stored. -/
def recorded (x : String) : Called → Option Nat
  | ⟨_, _, .remote (.recordAttempt id a), .ok _⟩ => if id = x then some a.attemptNumber else none
  | _ => none

/-- The calls since the last replay of `x`, the latest first. -/
def era (x : String) (hist : List Called) : List Called := hist.takeWhile fun e => ! replays x e

def ledger (x : String) (w : World) (hist : List Called) : Ledger where
  row := w.db.row x
  accepted := hist.countP (accepts x)
  sends := (era x hist).countP (sends x)
  numbers := (era x hist).filterMap (recorded x)

/-! Where a call stands. -/

section
variable (x : String)

def WorkerPhase.stance : WorkerPhase → Stance
  | .snap d => if d.id = x ∧ d.status.Takeable then .reader d.status d.retryCount else .away
  | .owned d => if d.id = x then .owner d.retryCount else .away
  | .refused d _ false => if d.id = x then .refused d.retryCount else .away
  | .refused d _ true => if d.id = x then .noted d.retryCount else .away
  | .accepted d => if d.id = x then .accepted d.retryCount else .away
  | .settled d false =>
    if d.id = x ∧ d.status = .retrying then .recorder d.retryCount
    else if d.id = x ∧ d.status = .succeeded then .recorder (d.retryCount + 1)
    else .away
  | _ => .away

def ReplayPhase.stance : ReplayPhase → Stance
  | .snap d => if d.id = x ∧ d.status.Replayable then .replayer else .away
  | _ => .away

def TickPhase.stance : TickPhase → Stance
  | .snap d _ => if d.id = x ∧ d.status = .pending then .ticker d.retryCount else .away
  | _ => .away

def Phase.stance : Phase → Stance
  | .worker φ => φ.stance x
  | .replay φ => φ.stance x
  | .tick φ => φ.stance x
  | _ => .away

def threadStance : Option (Thread Op Ans Task Result Phase) → Stance
  | some th => th.phase.stance x
  | none => .away

def System.view (s : System) : Board Ledger Stance where
  shared := ledger x s.state s.hist
  places t := threadStance x (s.threads t)

end

/-! Which step of the program a turn comes from. -/

/-- The call behind a turn of delivery `x` from stance `a`. -/
def Behind (x : String) (a : Stance) (k : Task) (op : Op) (c : Choice) (w : World) : Deed → Prop
  | .claim => ∃ d st n m, c = .run ∧ op = .remote (.updateIfStatus d st) ∧ d.id = x ∧ d.retryCount = n ∧
      w.db.row x = some (st, m) ∧ a = .reader st n
  | .requeue => ∃ d id, c = .run ∧ k = .replay id ∧ op = .remote (.update d) ∧ d.id = x
  | .requeueLost => ∃ d id msg, c = .lost msg ∧ k = .replay id ∧ op = .remote (.update d) ∧ d.id = x
  | .queue => ∃ d, c.Effective ∧ k = .processDue ∧ op = .remote (.update d) ∧ d.id = x
  | .cut =>
    (a.Owning ∧ ((∃ msg, c = .fault msg) ∨ ((∃ msg, c = .lost msg) ∧ ∃ id att, op = .remote (.recordAttempt id att)) ∨
        w.db.row x = none)) ∨
      ∃ msg d st m, c = .lost msg ∧ op = .remote (.updateIfStatus d st) ∧ d.id = x ∧ st.Takeable ∧
        w.db.row x = some (st, m) ∧ a = .reader st d.retryCount
  | _ => True

/-! Calls that leave the rows, or the counts, alone. -/

def Op.Plain : Op → Prop
  | .remote (.update _) | .remote (.updateIfStatus _ _) | .remote (.ingestTransactional _ _ _ _ _ _) => False
  | _ => True

theorem exec_plain (p : Params) (w : World) {q : Remote} (h : (Op.remote q).Plain) :
    (exec p w q).2.db.deliveries = w.db.deliveries := by
  cases q with
  | recordAttempt id a => exact store_deliveries fun _ => Tables.recordAttempt_deliveries
  | enqueue id subject payload headers => exact store_deliveries fun _ => Tables.enqueue_deliveries
  | append id ev payload => exact store_deliveries fun _ => Tables.append_deliveries
  | publish subject body headers => exact congrArg Tables.deliveries (publish_db p w _)
  | update d => exact h.elim
  | updateIfStatus d st => exact h.elim
  | ingestTransactional d exp subject payload headers schedule => exact h.elim
  | _ => rfl

section
variable {p : Params} {x : String} {w w' : World} {op : Op} {c : Choice} {r : Ans op}

theorem answered_plain (h : Answered p w op c r w') (hp : op.Plain) : w'.db.row x = w.db.row x := by
  cases h with
  | ran q => exact Tables.row_congr (exec_plain p w hp) x
  | lost q msg => exact Tables.row_congr (exec_plain p w hp) x
  | _ => rfl

/-- An `Update` that takes effect writes its row; one that does not changes nothing. -/
theorem answered_update {d : Delivery} {r : Ans (.remote (.update d))}
    (h : Answered p w (.remote (.update d)) c r w') :
    (c = .run ∧ r = .ok () ∨ c.Failing ∧ ∃ e, r = .error e) ∧
      (c.Effective ∧ w'.db.row x = (if d.id = x then (w.db.row x).map fun _ => (d.status, d.retryCount)
          else w.db.row x) ∨
        (∃ msg, c = .fault msg) ∧ w'.db.row x = w.db.row x) := by
  cases h with
  | ran => exact ⟨.inl ⟨rfl, rfl⟩, .inl ⟨trivial, Tables.row_update ..⟩⟩
  | fault _ msg => exact ⟨.inr ⟨trivial, _, rfl⟩, .inr ⟨⟨msg, rfl⟩, rfl⟩⟩
  | lost => exact ⟨.inr ⟨trivial, _, rfl⟩, .inl ⟨trivial, Tables.row_update ..⟩⟩

variable {e : Called} {hist : List Called}

theorem era_cons (h : replays x e = false) : era x (e :: hist) = e :: era x hist := by
  simp [era, h]

theorem era_replay (h : replays x e = true) : era x (e :: hist) = [] := by
  simp [era, h]

/-- A call that is no replay of `x`, no send of it and no record of it. -/
theorem ledger_quiet (hrow : w'.db.row x = w.db.row x) (hr : replays x e = false) (hs : sends x e = false)
    (ha : accepts x e = false) (hn : recorded x e = none) : ledger x w' (e :: hist) = ledger x w hist := by
  unfold ledger
  rw [hrow, era_cons hr, List.countP_cons_of_neg (by simp [ha]), List.countP_cons_of_neg (by simp [hs]),
    List.filterMap_cons_none hn]

end

end GoCourier
