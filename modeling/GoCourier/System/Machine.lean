import GoCourier.Protocol.Ingest
import GoCourier.Protocol.Outbox
import GoCourier.Protocol.Replay
import GoCourier.Protocol.Scheduler

/- The whole system: every service call that can be going on at once, over one world.
   `Dispatch` is called by a worker that was handed a copy of a message (`handle`), or
   directly (`dispatch`), as the tests do. A handler starts only on a copy the broker
   may hand out; the environment may set the clock, and may take a copy back from a
   handler that exceeded `AckWait`. A restarted process is one with a new number. -/
namespace GoCourier

open Interleave

inductive Task where
  | ingest (req : IngestRequest)
  | dispatch (proc : Nat) (id : String)
  /-- Process `proc` has consumer `c`'s copy of message `m`, the `i`-th of the stream. -/
  | handle (proc i c : Nat) (m : Message)
  | replay (id : String)
  | flush
  | processDue
  deriving DecidableEq

inductive Result where
  | unit (r : Except Err Unit)
  | response (r : Except Err IngestResponse)

inductive Phase where
  | ingest (φ : IngestPhase)
  | worker (φ : WorkerPhase)
  | replay (φ : ReplayPhase)
  | flush (φ : FlushPhase)
  | tick (φ : TickPhase)

inductive Move where
  | clock (t : Time)
  | ackWait (i c : Nat)
  deriving DecidableEq

section
variable (p : Params)

def program : Task → CallTree Op Ans Result
  | .ingest req => .response <$> (ingest p req).run
  | .dispatch proc id => .unit <$> (dispatch p proc id).run
  | .handle proc i c m => .unit <$> (consume p proc i c m).run
  | .replay id => .unit <$> (replayDelivery p id).run
  | .flush => .unit <$> (flush p).run
  | .processDue => .unit <$> (processDue p).run

def Task.first : Task → Phase
  | .ingest _ => .ingest .start
  | .dispatch _ _ => .worker .start
  | .handle _ _ _ _ => .worker .start
  | .replay _ => .replay .start
  | .flush => .flush .start
  | .processDue => .tick .start

def Phase.next (φ : Phase) (op : Op) (r : Ans op) : Phase :=
  match φ with
  | .ingest φ => .ingest (φ.next op r)
  | .worker φ => .worker (φ.next op r)
  | .replay φ => .replay (φ.next op r)
  | .flush φ => .flush (φ.next op r)
  | .tick φ => .tick (φ.next op r)

/-- A handler takes its copy; the other tasks need nothing to start. -/
def World.enter (w : World) : Task → Option World
  | .handle _ i c m =>
    if w.stream[i]? = some m ∧ c < p.consumers ∧ (w.copies (i, c)).Due p then
      some (w.setCopy i c { w.copies (i, c) with delivered := (w.copies (i, c)).delivered + 1, busy := true })
    else none
  | _ => some w

def World.move (w : World) : Move → Option World
  | .clock t => some { w with clock := t }
  | .ackWait i c =>
    if (w.copies (i, c)).busy then some (w.setCopy i c { w.copies (i, c) with busy := false }) else none

def machine : Machine Op Ans Task Result World Choice Move Phase where
  program := program p
  answer := answer p
  enter k w := w.enter p k
  move m w := w.move m
  first := Task.first
  next _ := Phase.next

abbrev System := Interleave.Config Op Ans Task Result World Phase

abbrev Act := Label Task Choice Move

/-- Empty tables and streams, closed breakers. -/
def World.empty : World where
  db := { jsonb := p.jsonb }
  breakers := fun _ => { threshold := p.cbThreshold, window := p.cbWindow, cooldown := p.cbCooldown }

def System.init : System where
  state := World.empty p
  threads := fun _ => none
  hist := []

/-! The protocol. -/

def May : Task → Phase → Op → Prop
  | .ingest req, .ingest φ => IngestMay p req φ
  | .dispatch _ id, .worker φ => WorkerMay p (· = id) (fun _ => False) φ
  | .handle _ i c m, .worker φ => WorkerMay p (m.deliveryId = .ok ·) (· = (i, c)) φ
  | .replay id, .replay φ => ReplayMay p id φ
  | .flush, .flush φ => FlushMay φ
  | .processDue, .tick φ => TickMay p φ
  | _, _ => fun _ => False

/-- The deliveries a dispatch may be for. -/
def Task.Target : Task → String → Prop
  | .dispatch _ id => (· = id)
  | .handle _ _ _ m => (m.deliveryId = .ok ·)
  | _ => fun _ => False

instance (k : Task) (x : String) : Decidable (k.Target x) :=
  match k with
  | .dispatch _ _ => inferInstanceAs (Decidable (_ = _))
  | .handle _ _ _ _ => inferInstanceAs (Decidable (_ = _))
  | .ingest _ | .replay _ | .flush | .processDue => inferInstanceAs (Decidable False)

/-- The message copies a dispatch answers for. -/
def Task.Copies : Task → Nat × Nat → Prop
  | .handle _ i c _ => (· = (i, c))
  | _ => fun _ => False

/-- The deliveries a thread knows are those its task is for. -/
def About : Task → Phase → Prop
  | .dispatch _ id, .worker φ => φ.About (· = id)
  | .handle _ _ _ m, .worker φ => φ.About (m.deliveryId = .ok ·)
  | .replay id, .replay φ => φ.About id
  | _, _ => True

def Finished : Task → Phase → Result → Prop
  | .ingest req, .ingest φ, .response r => IngestReturns req φ r
  | .dispatch _ _, .worker φ, .unit r => Returns φ r
  | .handle _ _ _ _, .worker φ, .unit _ => φ = .closed
  | .replay _, .replay φ, .unit r => ReplayReturns φ r
  | .flush, .flush φ, .unit r => FlushReturns φ r
  | .processDue, .tick φ, .unit r => TickReturns φ r
  | _, _, _ => False

theorem seen_error (q : Remote) (e : Err) : Seen (.remote q) (.error e) := by
  cases q <;> trivial

theorem seen_exec (w : World) (q : Remote) : Seen (.remote q) (exec p w q).1 := by
  cases q with
  | findByID id =>
    simp only [exec, Tables.findByID]
    split <;> trivial
  | _ => trivial

theorem seen_answer {op : Op} {c : Choice} {w w' : World} {r : Ans op} (h : answer p op c w = some (r, w')) :
    Seen op r := by
  cases answer_cases h with
  | newUUID ne fresh => exact ne
  | ran q => exact seen_exec p w q
  | fault q msg => exact seen_error q _
  | lost q msg => exact seen_error q _
  | _ => trivial

theorem about_first (k : Task) : About k k.first := by
  cases k <;> trivial

theorem about_next {k : Task} {φ : Phase} {op : Op} {r : Ans op} (h : About k φ) (hm : May p k φ op) (hr : Seen op r) :
    About k (φ.next op r) := by
  cases k with
  | dispatch proc id =>
    cases φ with
    | worker φ =>
      have h : φ.About (· = id) := h
      have hm : WorkerMay p (· = id) (fun _ => False) φ op := hm
      exact about_worker h hm hr
    | _ => exact hm.elim
  | handle proc i c m =>
    cases φ with
    | worker φ =>
      have h : φ.About (m.deliveryId = .ok ·) := h
      have hm : WorkerMay p (m.deliveryId = .ok ·) (· = (i, c)) φ op := hm
      exact about_worker h hm hr
    | _ => exact hm.elim
  | replay id =>
    cases φ with
    | replay φ => exact about_replay h hm hr
    | _ => exact hm.elim
  | _ => trivial

theorem obeyed (k : Task) :
    Obeys ⟨May p k, fun φ op r => Phase.next φ op r, Seen⟩ (program p k) k.first (Finished k) := by
  cases k with
  | ingest req =>
    exact (obeys_map ..).mpr (obeys_embed Phase.ingest (fun _ _ h => h) (fun _ _ _ => rfl) (fun _ _ h => h)
      (fun _ _ h => h) _ _ (obeys_ingest req))
  | dispatch proc id =>
    have h : Obeys (workerDiscipline p (· = id) (fun _ => False)) (dispatch p proc id).run .start Returns :=
      obeys_dispatch proc rfl
    exact (obeys_map ..).mpr (obeys_embed Phase.worker (fun _ _ h => h) (fun _ _ _ => rfl) (fun _ _ h => h)
      (fun _ _ h => h) _ _ h)
  | handle proc i c m =>
    have h : Obeys (workerDiscipline p (m.deliveryId = .ok ·) (· = (i, c))) (consume p proc i c m).run .start
        (fun φ _ => φ = .closed) :=
      obeys_consume proc i c m (fun _ h => h) rfl
    exact (obeys_map ..).mpr (obeys_embed Phase.worker (fun _ _ h => h) (fun _ _ _ => rfl) (fun _ _ h => h)
      (fun _ _ h => h) _ _ h)
  | replay id =>
    exact (obeys_map ..).mpr (obeys_embed Phase.replay (fun _ _ h => h) (fun _ _ _ => rfl) (fun _ _ h => h)
      (fun _ _ h => h) _ _ (obeys_replayDelivery id))
  | flush =>
    exact (obeys_map ..).mpr (obeys_embed Phase.flush (fun _ _ h => h) (fun _ _ _ => rfl) (fun _ _ h => h)
      (fun _ _ h => h) _ _ (obeys_flush p))
  | processDue =>
    exact (obeys_map ..).mpr (obeys_embed Phase.tick (fun _ _ h => h) (fun _ _ _ => rfl) (fun _ _ h => h)
      (fun _ _ h => h) _ _ obeys_processDue)

def protocol : (machine p).Protocol where
  may := May p
  sees := Seen
  holds := About
  ends := Finished
  answers _ _ _ _ _ h := seen_answer p h
  holds_first := about_first
  holds_next _ _ _ _ h hm hr := about_next p h hm hr
  obeyed := obeyed p

theorem init_conforms : (machine p).Conforms (protocol p) (System.init p) := by
  intro t th h
  cases h

end

end GoCourier
