import GoCourier.Domain.Values
import GoCourier.Lib.Board

/- One delivery's row, and where each service call stands towards it. This is what
   the row is for, with the programs left out: a dispatch takes the delivery by moving
   it to processing and gives it back by its next write; a replay starts the retry
   budget anew; the scheduler releases a pending delivery. Status and retry count
   stand for the row; the ledger also counts the sends, and keeps the attempt numbers
   recorded since the last replay. -/
namespace GoCourier

structure Ledger where
  row : Option (Status × Nat)
  /-- Sends the provider accepted. -/
  accepted : Nat
  /-- Sends since the last replay. -/
  sends : Nat
  /-- Attempt numbers recorded since the last replay. -/
  numbers : List Nat

/-- Where a service call stands towards the delivery. Counts are those of its own copy. -/
inductive Stance where
  | away
  /-- A dispatch that has read a status it may take the delivery from. -/
  | reader (st : Status) (n : Nat)
  | owner (n : Nat)
  /-- An owner the provider or the breaker refused. -/
  | refused (n : Nat)
  /-- A refused owner that has recorded its attempt. -/
  | noted (n : Nat)
  /-- An owner the provider accepted. -/
  | accepted (n : Nat)
  /-- A dispatch that has written the row, and has attempt `k` to record. -/
  | recorder (k : Nat)
  /-- A replay that has read a replayable delivery. -/
  | replayer
  /-- A scheduler tick that has read a pending delivery. -/
  | ticker (n : Nat)
  deriving DecidableEq, Repr

/-- Between taking the delivery and the next write of its row. -/
inductive Stance.Owning : Stance → Prop where
  | owner (n : Nat) : Owning (.owner n)
  | refused (n : Nat) : Owning (.refused n)
  | noted (n : Nat) : Owning (.noted n)
  | accepted (n : Nat) : Owning (.accepted n)

/-- A status a dispatch takes the delivery from. -/
def Status.Takeable (st : Status) : Prop := st = .queued ∨ st = .retrying

instance (st : Status) : Decidable st.Takeable := inferInstanceAs (Decidable (_ ∨ _))

/-- What a turn does to the row. -/
inductive Deed where
  | none
  | create
  | claim
  | settle
  | requeue
  /-- A requeue whose caller was answered with an error. -/
  | requeueLost
  | queue
  /-- An owner is gone without giving the delivery back. -/
  | cut
  deriving DecidableEq

/-- The write that gives a delivery back, and the attempt left to record. -/
inductive Settling (max : Int) : Stance → Status × Nat → Stance → Prop where
  | noProvider (n : Nat) : Settling max (.owner n) (.dlq, n) .away
  | giveUp (n : Nat) : Settling max (.noted n) (.dlq, n) .away
  | retry {n : Nat} (more : (n + 1 : Int) < max) : Settling max (.refused n) (.retrying, n + 1) (.recorder (n + 1))
  | succeed (n : Nat) : Settling max (.accepted n) (.succeeded, n) (.recorder (n + 1))

/-- One turn of a service call. A write whose answer is lost takes its caller away. -/
inductive Turn (max : Int) : Deed → Ledger → Stance → Ledger → Stance → Prop where
  | idle (L : Ledger) (a : Stance) : Turn max .none L a L a
  | leave {L : Ledger} {a : Stance} (free : ¬ a.Owning) : Turn max .none L a L .away
  | cut {L : Ledger} {a : Stance} (owning : a.Owning) : Turn max .cut L a L .away
  | create {L : Ledger} {st : Status} (none : L.row = none) (new : st = .pending ∨ st = .queued) :
      Turn max .create L .away { L with row := some (st, 0) } .away
  | look {L : Ledger} {st : Status} {n : Nat} (row : L.row = some (st, n)) (takeable : st.Takeable) :
      Turn max .none L .away L (.reader st n)
  | lookReplay {L : Ledger} {st : Status} {n : Nat} (row : L.row = some (st, n)) (dead : st = .dlq ∨ st = .failed) :
      Turn max .none L .away L .replayer
  | lookTick {L : Ledger} {n : Nat} (row : L.row = some (.pending, n)) : Turn max .none L .away L (.ticker n)
  | claim {L : Ledger} {st : Status} {n m : Nat} (row : L.row = some (st, m)) (takeable : st.Takeable) :
      Turn max .claim L (.reader st n) { L with row := some (.processing, n) } (.owner n)
  | claimCut {L : Ledger} {st : Status} {n m : Nat} (row : L.row = some (st, m)) (takeable : st.Takeable) :
      Turn max .cut L (.reader st n) { L with row := some (.processing, n) } .away
  | accept {L : Ledger} (n : Nat) :
      Turn max .none L (.owner n) { L with accepted := L.accepted + 1, sends := L.sends + 1 } (.accepted n)
  | refuse {L : Ledger} (n : Nat) : Turn max .none L (.owner n) { L with sends := L.sends + 1 } (.refused n)
  | block {L : Ledger} (n : Nat) : Turn max .none L (.owner n) L (.refused n)
  | note {L : Ledger} (n : Nat) :
      Turn max .none L (.refused n) { L with numbers := (n + 1) :: L.numbers } (.noted n)
  | settle {L : Ledger} {a a' : Stance} {r : Status × Nat} (h : Settling max a r a') :
      Turn max .settle L a { L with row := L.row.map fun _ => r } a'
  | settleLost {L : Ledger} {a a' : Stance} {r : Status × Nat} (h : Settling max a r a') :
      Turn max .settle L a { L with row := L.row.map fun _ => r } .away
  | record {L : Ledger} (k : Nat) : Turn max .none L (.recorder k) { L with numbers := k :: L.numbers } .away
  | requeue (L : Ledger) :
      Turn max .requeue L .replayer ⟨L.row.map fun _ => (.queued, 0), L.accepted, 0, []⟩ .away
  | requeueLost (L : Ledger) :
      Turn max .requeueLost L .replayer { L with row := L.row.map fun _ => (.queued, 0) } .away
  | queue {L : Ledger} (n : Nat) :
      Turn max .queue L (.ticker n) { L with row := L.row.map fun _ => (.queued, n) } .away

end GoCourier
