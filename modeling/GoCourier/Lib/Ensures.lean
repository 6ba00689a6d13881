import GoCourier.Lib.CallTree

/- Total correctness of a call tree. The environment answers each call from the state it
   is in, in any of the ways it has; a tree ensures `Q` when every call it comes to has an
   answer and, whatever the answers are, it ends in a result and a state that `Q` allows.
   So a tree that may come to a call without an answer ensures nothing.

   The rules are equivalences: what a composed tree ensures can be read off its parts in
   both directions, and a tree can also be shown not to ensure something. -/
namespace Interleave

/-- What may be answered to a call in a state, and the state after it. -/
abbrev Env (Op : Type) (Ans : Op → Type) (σ : Type) := (op : Op) → σ → Ans op → σ → Prop

section
variable {Op : Type} {Ans : Op → Type} {α β σ ε : Type} {env env' : Env Op Ans σ}

def Ensures (env : Env Op Ans σ) : CallTree Op Ans α → σ → (α → σ → Prop) → Prop
  | .done a, s, Q => Q a s
  | .ask op k, s, Q => (∃ r s', env op s r s') ∧ ∀ r s', env op s r s' → Ensures env (k r) s' Q

@[simp] theorem ensures_done (a : α) (s : σ) (Q : α → σ → Prop) :
    Ensures env (.done a : CallTree Op Ans α) s Q ↔ Q a s := Iff.rfl

@[simp] theorem ensures_pure (a : α) (s : σ) (Q : α → σ → Prop) :
    Ensures env (pure a : CallTree Op Ans α) s Q ↔ Q a s := Iff.rfl

theorem ensures_bind (f : α → CallTree Op Ans β) (Q : β → σ → Prop) : ∀ (T : CallTree Op Ans α) (s : σ),
    Ensures env (T >>= f) s Q ↔ Ensures env T s fun a s' => Ensures env (f a) s' Q
  | .done _, _ => Iff.rfl
  | .ask op k, s => by
    rw [CallTree.ask_bind]
    exact and_congr_right fun _ => forall_congr' fun r => forall_congr' fun s' => imp_congr_right fun _ =>
      ensures_bind f Q (k r) s'

theorem ensures_mono {Q Q' : α → σ → Prop} (h : ∀ a s, Q a s → Q' a s) : ∀ (T : CallTree Op Ans α) (s : σ),
    Ensures env T s Q → Ensures env T s Q'
  | .done a, s, hq => h a s hq
  | .ask _ k, _, hq => ⟨hq.1, fun r s' hr => ensures_mono h (k r) s' (hq.2 r s' hr)⟩

/-- What two postconditions allow where a tree meets both. -/
theorem ensures_and {Q Q' : α → σ → Prop} : ∀ (T : CallTree Op Ans α) (s : σ),
    Ensures env T s Q → Ensures env T s Q' → Ensures env T s fun a s' => Q a s' ∧ Q' a s'
  | .done _, _, hq, hq' => ⟨hq, hq'⟩
  | .ask _ k, _, hq, hq' => ⟨hq.1, fun r s' hr => ensures_and (k r) s' (hq.2 r s' hr) (hq'.2 r s' hr)⟩

/-- A tree that ensures something has a way to end, and ends only as it ensures. -/
theorem ensures_consistent {Q : α → σ → Prop} : ∀ (T : CallTree Op Ans α) (s : σ), Ensures env T s Q → ∃ a s', Q a s'
  | .done a, s, hq => ⟨a, s, hq⟩
  | .ask _ k, _, hq => by
    obtain ⟨⟨r, s', hr⟩, hall⟩ := hq
    exact ensures_consistent (k r) s' (hall r s' hr)

/-- A fallible program in sequence: an error ends it, a value goes on. -/
theorem ensures_bindE (x : ExceptT ε (CallTree Op Ans) α) (f : α → ExceptT ε (CallTree Op Ans) β) (s : σ)
    (Q : Except ε β → σ → Prop) :
    Ensures env (x >>= f).run s Q ↔ Ensures env x.run s fun r s' => match r with
      | .ok a => Ensures env (f a).run s' Q
      | .error e => Q (.error e) s' := by
  rw [ExceptT.run_bind, ensures_bind]
  constructor
  · apply ensures_mono
    intro r s' h
    cases r with
    | ok a => exact h
    | error e => exact h
  · apply ensures_mono
    intro r s' h
    cases r with
    | ok a => exact h
    | error e => exact h

/-- Where the first of two parts is bound to end in a value of which `P` holds, the second part is come to with one. -/
theorem ensures_next {x : ExceptT ε (CallTree Op Ans) α} {f : α → ExceptT ε (CallTree Op Ans) β} {s : σ}
    {Q : Except ε β → σ → Prop} {P : α → σ → Prop} (h : Ensures env (x >>= f).run s Q)
    (hx : Ensures env x.run s fun r s' => ∃ a, r = .ok a ∧ P a s') : ∃ a s', P a s' ∧ Ensures env (f a).run s' Q := by
  rw [ensures_bindE] at h
  obtain ⟨r, s', ⟨a, rfl, hP⟩, hrest⟩ := ensures_consistent _ _ (ensures_and _ _ hx h)
  exact ⟨a, s', hP, hrest⟩

end

end Interleave
