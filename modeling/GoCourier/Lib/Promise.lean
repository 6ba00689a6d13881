import GoCourier.Lib.Machine

/- Promises. Beside the protocol whose phases the configuration carries, a program may
   keep to other disciplines, whose phases nobody records. What each program keeps to
   from its start every thread of a run still keeps to, in phases that move as the
   thread does (`Pledged`), or in some phases (`Promised`); of a discipline with one
   phase that is a condition on its calls. -/
namespace Interleave

section
variable {Op : Type} {Ans : Op → Type} {α : Type}

/-- Every call the tree can make satisfies `P`, if the answers do what `sees` says. -/
def Calls (P : Op → Prop) (sees : (op : Op) → Ans op → Prop) (T : CallTree Op Ans α) : Prop :=
  Obeys ⟨fun _ op => P op, fun (_ : Unit) _ _ => (), sees⟩ T () fun _ _ => True

end

namespace Machine
variable {Op : Type} {Ans : Op → Type} {Task Res σ Choice Move Φ Γ : Type}

/-- What the programs of a machine keep to, each from the phase `first` of its task. -/
structure Pledge (M : Machine Op Ans Task Res σ Choice Move Φ) (Γ : Type) where
  first : Task → Γ
  discipline : Task → Discipline Op Ans Γ
  ends : Task → Γ → Res → Prop
  answers : ∀ k op c w r w', M.answer op c w = some (r, w') → (discipline k).sees op r
  obeyed : ∀ k, Obeys (discipline k) (M.program k) (first k) (ends k)

variable {M : Machine Op Ans Task Res σ Choice Move Φ} {P : Pledge M Γ}
  {ok : Config Op Ans Task Res σ Φ → Label Task Choice Move → Prop}
  {s₀ s s' : Config Op Ans Task Res σ Φ} {g : Nat → Γ} {t : Nat} {k : Task} {φ : Φ}

/-- Every thread keeps to its pledge from the phase that `g` says. -/
def Pledged (P : Pledge M Γ) (g : Nat → Γ) (s : Config Op Ans Task Res σ Φ) : Prop :=
  ∀ t th, s.threads t = some th → Obeys (P.discipline th.task) th.prog (g t) (P.ends th.task)

theorem Pledged.may (h : Pledged P g s) {op : Op} {f : Ans op → CallTree Op Ans Res}
    (hth : s.threads t = some ⟨k, φ, .ask op f⟩) : (P.discipline k).may (g t) op :=
  (h t _ hth).1

theorem pledged_start (h : Pledged P g s) (t : Nat) (k : Task) (w : σ) :
    Pledged P (Function.update g t (P.first k))
      { s with state := w, threads := Function.update s.threads t (some ⟨k, M.first k, M.program k⟩) } := by
  intro u th hu
  rcases of_update hu with ⟨rfl, hnew⟩ | ⟨hne, hold⟩
  · cases hnew
    rw [Function.update_self]
    exact P.obeyed k
  · rw [Function.update_of_ne hne]
    exact h u th hold

theorem pledged_call (h : Pledged P g s) {op : Op} {f : Ans op → CallTree Op Ans Res} {c : Choice} {r : Ans op} {w : σ}
    (running : s.threads t = some ⟨k, φ, .ask op f⟩) (answered : M.answer op c s.state = some (r, w))
    (hist : List (Event Op Ans Task)) :
    Pledged P (Function.update g t ((P.discipline k).next (g t) op r))
      ⟨w, Function.update s.threads t (some ⟨k, M.next k φ op r, f r⟩), hist⟩ := by
  intro u th hu
  rcases of_update hu with ⟨rfl, hnew⟩ | ⟨hne, hold⟩
  · cases hnew
    rw [Function.update_self]
    exact (h u _ running).2 r (P.answers _ _ _ _ _ _ answered)
  · rw [Function.update_of_ne hne]
    exact h u th hold

theorem pledged_crash (h : Pledged P g s) (t : Nat) : Pledged P g { s with threads := Function.update s.threads t none } := by
  intro u th hu
  rcases of_update hu with ⟨-, hnone⟩ | ⟨-, hold⟩
  · cases hnone
  · exact h u th hold

/-- Every thread keeps to its pledge, from some phase. -/
def Promised (P : Pledge M Γ) (s : Config Op Ans Task Res σ Φ) : Prop := ∃ g, Pledged P g s

theorem promised_step {l : Label Task Choice Move} (h : Promised P s) (hs : M.Step s l s') : Promised P s' := by
  obtain ⟨g, hg⟩ := h
  cases hs with
  | start free entered => exact ⟨_, pledged_start hg _ _ _⟩
  | call running answered => exact ⟨_, pledged_call hg running answered _⟩
  | crash running => exact ⟨_, pledged_crash hg _⟩
  | move moved => exact ⟨g, hg⟩

/-- The next call of a thread is one its pledge allows. -/
theorem Promised.may (h : Promised P s) {op : Op} {f : Ans op → CallTree Op Ans Res}
    (hth : s.threads t = some ⟨k, φ, .ask op f⟩) : ∃ γ, (P.discipline k).may γ op := by
  obtain ⟨g, hg⟩ := h
  exact ⟨g t, hg.may hth⟩

end Machine

end Interleave
