import Mathlib.Logic.Basic

/- Programs as the calls they make. A program that talks to its environment (a
   database, a broker, a clock) is a call tree: either it is done, or it makes one
   call and continues with the answer. Local computation takes no step, so two
   programs with the same tree make the same calls on every answer.

   Two readings of a tree are given here:

   1. `solo` runs it alone against a state, every call answered at once;
   2. `Obeys D` says that on every answer it only makes the calls a discipline `D`
      allows in the phase it has reached, and ends as `D` permits. A discipline
      is the protocol of one party: `may` names the calls of each phase, `next`
      the phase after an answer, `sees` the answers the environment can give.

   Fallible programs are call trees under `ExceptT`: an error answer ends them
   unless they handle it. -/
namespace Interleave

inductive CallTree (Op : Type) (Ans : Op → Type) (α : Type) where
  | done (a : α)
  | ask (op : Op) (k : Ans op → CallTree Op Ans α)

section
variable {Op : Type} {Ans : Op → Type} {α β σ Φ ε : Type}

namespace CallTree

def bind : CallTree Op Ans α → (α → CallTree Op Ans β) → CallTree Op Ans β
  | .done a, f => f a
  | .ask op k, f => .ask op (fun r => bind (k r) f)

instance : Monad (CallTree Op Ans) where
  pure := .done
  bind := bind

/-- One call, its answer returned. -/
def call (op : Op) : CallTree Op Ans (Ans op) := .ask op .done

@[simp] theorem pure_eq (a : α) : (pure a : CallTree Op Ans α) = .done a := rfl

@[simp] theorem done_bind (a : α) (f : α → CallTree Op Ans β) :
    (CallTree.done a : CallTree Op Ans α) >>= f = f a := rfl

@[simp] theorem ask_bind (op : Op) (k : Ans op → CallTree Op Ans α) (f : α → CallTree Op Ans β) :
    CallTree.ask op k >>= f = .ask op (fun r => k r >>= f) := rfl

/-! Running alone. -/

/-- Answer every call in turn from the state; `none` when a call has no answer. -/
def solo (answer : (op : Op) → σ → Option (Ans op × σ)) : CallTree Op Ans α → σ → Option (α × σ)
  | .done a, s => some (a, s)
  | .ask op k, s => match answer op s with
    | some (r, s') => solo answer (k r) s'
    | none => none

variable (answer : (op : Op) → σ → Option (Ans op × σ))

@[simp] theorem solo_done (a : α) (s : σ) :
    solo answer (.done a : CallTree Op Ans α) s = some (a, s) := rfl

theorem solo_bind (f : α → CallTree Op Ans β) : ∀ (T : CallTree Op Ans α) (s : σ),
    solo answer (T >>= f) s = (solo answer T s).bind (fun p => solo answer (f p.1) p.2)
  | .done _, _ => rfl
  | .ask op k, s => by
    rw [ask_bind, solo, solo]
    cases answer op s with
    | none => rfl
    | some p => exact solo_bind f (k p.1) p.2

theorem solo_call (op : Op) (s : σ) : solo answer (call op : CallTree Op Ans (Ans op)) s = answer op s := by
  rw [call, solo]
  cases answer op s <;> rfl

/-- A fallible program in sequence. -/
theorem solo_bindE (x : ExceptT ε (CallTree Op Ans) α) (f : α → ExceptT ε (CallTree Op Ans) β) (s : σ) :
    solo answer (x >>= f).run s = (solo answer x.run s).bind fun q => match q.1 with
      | .ok a => solo answer (f a).run q.2
      | .error e => some (.error e, q.2) := by
  rw [ExceptT.run_bind, solo_bind]
  congr 1
  funext q
  obtain ⟨r, s'⟩ := q
  cases r <;> rfl

end CallTree

/-! Disciplines. -/

structure Discipline (Op : Type) (Ans : Op → Type) (Φ : Type) where
  may : Φ → Op → Prop
  next : Φ → (op : Op) → Ans op → Φ
  sees : (op : Op) → Ans op → Prop

/-- From phase `φ` the tree makes only calls `D` allows, whatever the environment
    answers, and ends in a phase and with a result `Q` permits. -/
def Obeys (D : Discipline Op Ans Φ) : CallTree Op Ans α → Φ → (Φ → α → Prop) → Prop
  | .done a, φ, Q => Q φ a
  | .ask op k, φ, Q => D.may φ op ∧ ∀ r, D.sees op r → Obeys D (k r) (D.next φ op r) Q

variable {D : Discipline Op Ans Φ}

@[simp] theorem obeys_done (a : α) (φ : Φ) (Q : Φ → α → Prop) :
    Obeys D (.done a) φ Q ↔ Q φ a := Iff.rfl

@[simp] theorem obeys_pure (a : α) (φ : Φ) (Q : Φ → α → Prop) :
    Obeys D (pure a) φ Q ↔ Q φ a := Iff.rfl

theorem obeys_ask {op : Op} {k : Ans op → CallTree Op Ans α} {φ : Φ} {Q : Φ → α → Prop} :
    Obeys D (.ask op k) φ Q ↔
      D.may φ op ∧ ∀ r, D.sees op r → Obeys D (k r) (D.next φ op r) Q := Iff.rfl

theorem obeys_mono {Q Q' : Φ → α → Prop} (h : ∀ φ a, Q φ a → Q' φ a) :
    ∀ (T : CallTree Op Ans α) (φ : Φ), Obeys D T φ Q → Obeys D T φ Q'
  | .done a, φ, hq => h φ a hq
  | .ask _ k, _, hq => ⟨hq.1, fun r hr => obeys_mono h (k r) _ (hq.2 r hr)⟩

theorem obeys_and {Q Q' : Φ → α → Prop} : ∀ (T : CallTree Op Ans α) (φ : Φ), Obeys D T φ Q → Obeys D T φ Q' →
    Obeys D T φ fun φ' a => Q φ' a ∧ Q' φ' a
  | .done _, _, hq, hq' => ⟨hq, hq'⟩
  | .ask _ k, _, hq, hq' => ⟨hq.1, fun r hr => obeys_and (k r) _ (hq.2 r hr) (hq'.2 r hr)⟩

/-- Where every call that is allowed has an answer, a tree has a way to end. -/
theorem obeys_consistent (hans : ∀ φ op, D.may φ op → ∃ r, D.sees op r) {Q : Φ → α → Prop} :
    ∀ (T : CallTree Op Ans α) (φ : Φ), Obeys D T φ Q → ∃ φ' a, Q φ' a
  | .done a, φ, hq => ⟨φ, a, hq⟩
  | .ask op k, φ, hq => by
    obtain ⟨r, hr⟩ := hans φ op hq.1
    exact obeys_consistent hans (k r) _ (hq.2 r hr)

theorem obeys_bind (f : α → CallTree Op Ans β) (Q : Φ → β → Prop) :
    ∀ (T : CallTree Op Ans α) (φ : Φ),
      Obeys D (T >>= f) φ Q ↔ Obeys D T φ (fun φ' a => Obeys D (f a) φ' Q)
  | .done _, _ => Iff.rfl
  | .ask op k, φ => by
    rw [CallTree.ask_bind, obeys_ask, obeys_ask]
    exact and_congr_right fun _ => forall_congr' fun r => imp_congr_right fun _ => obeys_bind f Q (k r) _

/-- Every program keeps to a discipline that allows all it can do from phases that are never left. -/
theorem obeys_invariant {I : Φ → Prop} {Q : Φ → α → Prop} (hmay : ∀ φ op, I φ → D.may φ op)
    (hnext : ∀ φ op r, I φ → I (D.next φ op r)) (hQ : ∀ φ a, I φ → Q φ a) :
    ∀ (T : CallTree Op Ans α) (φ : Φ), I φ → Obeys D T φ Q
  | .done a, φ, h => hQ φ a h
  | .ask op k, φ, h => ⟨hmay φ op h, fun r _ => obeys_invariant hmay hnext hQ (k r) _ (hnext φ op r h)⟩

/-- A program that keeps to a discipline keeps to one that allows as much in every phase. -/
theorem obeys_allowed {Φ' : Type} {D' : Discipline Op Ans Φ'} {Q : Φ → α → Prop}
    (hmay : ∀ φ φ' op, D.may φ op → D'.may φ' op) (hsees : ∀ op r, D'.sees op r → D.sees op r) :
    ∀ (T : CallTree Op Ans α) (φ : Φ) (φ' : Φ'), Obeys D T φ Q → Obeys D' T φ' fun _ _ => True
  | .done _, _, _, _ => trivial
  | .ask op k, φ, φ', h => by
    refine ⟨hmay φ φ' op h.1, fun r hr => ?_⟩
    exact obeys_allowed hmay hsees (k r) _ _ (h.2 r (hsees op r hr))

/-- A program that keeps to a discipline keeps to one it is part of, its phases read along `ι`. -/
theorem obeys_embed {Φ' : Type} {D' : Discipline Op Ans Φ'} (ι : Φ → Φ') {Q : Φ → α → Prop} {Q' : Φ' → α → Prop}
    (hmay : ∀ φ op, D.may φ op → D'.may (ι φ) op)
    (hnext : ∀ φ op r, D'.next (ι φ) op r = ι (D.next φ op r))
    (hsees : ∀ op r, D'.sees op r → D.sees op r) (hQ : ∀ φ a, Q φ a → Q' (ι φ) a) :
    ∀ (T : CallTree Op Ans α) (φ : Φ), Obeys D T φ Q → Obeys D' T (ι φ) Q'
  | .done a, φ, h => hQ φ a h
  | .ask op k, φ, h => by
    refine ⟨hmay φ op h.1, fun r hr => ?_⟩
    rw [hnext]
    exact obeys_embed ι hmay hnext hsees hQ (k r) _ (h.2 r (hsees op r hr))

/-- A program that keeps to a discipline keeps to one that extends it, whose phases `π` reads. -/
theorem obeys_extend {Φ' : Type} {D' : Discipline Op Ans Φ'} (π : Φ' → Φ) {Q : Φ → α → Prop} {Q' : Φ' → α → Prop}
    (hmay : ∀ φ op, D.may (π φ) op → D'.may φ op)
    (hnext : ∀ φ op r, π (D'.next φ op r) = D.next (π φ) op r)
    (hsees : ∀ op r, D'.sees op r → D.sees op r) (hQ : ∀ φ a, Q (π φ) a → Q' φ a) :
    ∀ (T : CallTree Op Ans α) (φ : Φ'), Obeys D T (π φ) Q → Obeys D' T φ Q'
  | .done a, φ, h => hQ φ a h
  | .ask op k, φ, h => by
    refine ⟨hmay φ op h.1, fun r hr => ?_⟩
    apply obeys_extend π hmay hnext hsees hQ (k r)
    rw [hnext]
    exact h.2 r (hsees op r hr)

theorem obeys_map (f : α → β) (Q : Φ → β → Prop) (T : CallTree Op Ans α) (φ : Φ) :
    Obeys D (f <$> T) φ Q ↔ Obeys D T φ (fun φ' a => Q φ' (f a)) :=
  obeys_bind (fun a => .done (f a)) Q T φ

/-- The two ways a fallible program can end. -/
def Ends (ok : Φ → α → Prop) (err : Φ → ε → Prop) (φ : Φ) : Except ε α → Prop
  | .ok a => ok φ a
  | .error e => err φ e

@[simp] theorem ends_ok (ok : Φ → α → Prop) (err : Φ → ε → Prop) (φ : Φ) (a : α) :
    Ends ok err φ (.ok a) ↔ ok φ a := Iff.rfl

@[simp] theorem ends_error (ok : Φ → α → Prop) (err : Φ → ε → Prop) (φ : Φ) (e : ε) :
    Ends ok err φ (.error e) ↔ err φ e := Iff.rfl

/-- A fallible program in sequence: an error ends it, a value goes on. -/
theorem obeys_bindE (x : ExceptT ε (CallTree Op Ans) α) (f : α → ExceptT ε (CallTree Op Ans) β)
    (φ : Φ) (Q : Φ → Except ε β → Prop) :
    Obeys D (x >>= f).run φ Q ↔ Obeys D x.run φ
      (Ends (fun φ' a => Obeys D (f a).run φ' Q) (fun φ' e => Q φ' (.error e))) := by
  rw [ExceptT.run_bind, obeys_bind]
  constructor
  · apply obeys_mono
    intro φ' r h
    cases r with
    | ok a => exact h
    | error e => exact h
  · apply obeys_mono
    intro φ' r h
    cases r with
    | ok a => exact h
    | error e => exact h

end

end Interleave
