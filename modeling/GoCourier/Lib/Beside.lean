import GoCourier.Lib.Machine

/- A run beside the same run with some of its steps left out. `out` says which steps those are,
   `without` are the others, and `Beside` is a condition on every step, given the configurations
   of both runs before it. Where a step that is left out keeps the two configurations related, and
   any other step can be made in both, the steps that are kept make a run of their own, to a related
   configuration (`run_without`). -/
namespace Interleave

namespace Machine

section
variable {Op : Type} {Ans : Op → Type} {Task Res σ Choice Move Φ : Type}
variable (M : Machine Op Ans Task Res σ Choice Move Φ)
variable (out : Config Op Ans Task Res σ Φ → Label Task Choice Move → Bool)

/-- The steps of a run that are kept. -/
def without : Config Op Ans Task Res σ Φ → List (Label Task Choice Move) → List (Label Task Choice Move)
  | _, [] => []
  | s, l :: ls => match M.step s l with
    | some s' => if out s l then without s' ls else l :: without s' ls
    | none => []

/-- `P` holds at every step of the run from the first configuration, the second one making only the
    steps that are kept. -/
def Beside (P : Config Op Ans Task Res σ Φ → Config Op Ans Task Res σ Φ → Label Task Choice Move → Prop) :
    Config Op Ans Task Res σ Φ → Config Op Ans Task Res σ Φ → List (Label Task Choice Move) → Prop
  | _, _, [] => True
  | s, v, l :: ls => P s v l ∧ ∀ s', M.step s l = some s' →
      (out s l = true → Beside P s' v ls) ∧ (out s l = false → ∀ v', M.step v l = some v' → Beside P s' v' ls)

variable {M out}

/-- The simulation rule. -/
theorem run_without {R : Config Op Ans Task Res σ Φ → Config Op Ans Task Res σ Φ → Prop}
    {P : Config Op Ans Task Res σ Φ → Config Op Ans Task Res σ Φ → Label Task Choice Move → Prop}
    (hout : ∀ s v l s', R s v → P s v l → out s l = true → M.Step s l s' → R s' v)
    (hkeep : ∀ s v l s', R s v → P s v l → out s l = false → M.Step s l s' → ∃ v', M.Step v l v' ∧ R s' v') :
    ∀ (ls : List (Label Task Choice Move)) {s v s' : Config Op Ans Task Res σ Φ}, R s v → M.Beside out P s v ls →
      M.run s ls = some s' → ∃ v', M.run v (M.without out s ls) = some v' ∧ R s' v'
  | [], s, v, s', h, _, hr => by
    cases hr
    exact ⟨v, rfl, h⟩
  | l :: ls, s, v, s', h, hb, hr => by
    obtain ⟨s₁, h1, h2⟩ := Option.bind_eq_some_iff.mp hr
    obtain ⟨hP, hrest⟩ := hb
    have hstep := M.step_iff.mp h1
    rw [without, h1]
    simp only []
    cases hl : out s l with
    | true =>
      rw [if_pos rfl]
      exact run_without hout hkeep ls (hout s v l s₁ h hP hl hstep) ((hrest s₁ h1).1 hl) h2
    | false =>
      obtain ⟨v₁, hv₁, h₁⟩ := hkeep s v l s₁ h hP hl hstep
      have hv := M.step_iff.mpr hv₁
      obtain ⟨v', hrun, h'⟩ := run_without hout hkeep ls h₁ ((hrest s₁ h1).2 hl v₁ hv) h2
      refine ⟨v', ?_, h'⟩
      rw [if_neg Bool.false_ne_true, run, hv]
      exact hrun

variable (M out) in
/-- `Beside` of a condition that computes. -/
def besideCheck (f : Config Op Ans Task Res σ Φ → Config Op Ans Task Res σ Φ → Label Task Choice Move → Bool) :
    Config Op Ans Task Res σ Φ → Config Op Ans Task Res σ Φ → List (Label Task Choice Move) → Bool
  | _, _, [] => true
  | s, v, l :: ls => f s v l && match M.step s l with
    | none => true
    | some s' =>
      if out s l then besideCheck f s' v ls
      else match M.step v l with
        | none => true
        | some v' => besideCheck f s' v' ls

theorem beside_of_check {f : Config Op Ans Task Res σ Φ → Config Op Ans Task Res σ Φ → Label Task Choice Move → Bool} :
    ∀ (ls : List (Label Task Choice Move)) {s v : Config Op Ans Task Res σ Φ}, M.besideCheck out f s v ls = true →
      M.Beside out (fun s v l => f s v l = true) s v ls
  | [], _, _, _ => trivial
  | l :: ls, s, v, h => by
    rw [besideCheck, Bool.and_eq_true] at h
    refine ⟨h.1, fun s' hs => ⟨fun hl => ?_, fun hl v' hv => ?_⟩⟩
    · have hrest := h.2
      rw [hs] at hrest
      simp only [hl, if_true] at hrest
      exact beside_of_check ls hrest
    · have hrest := h.2
      rw [hs] at hrest
      simp only [hl, hv, Bool.false_eq_true, if_false] at hrest
      exact beside_of_check ls hrest

theorem Beside.mono {P Q : Config Op Ans Task Res σ Φ → Config Op Ans Task Res σ Φ → Label Task Choice Move → Prop}
    (hPQ : ∀ s v l, P s v l → Q s v l) : ∀ (ls : List (Label Task Choice Move)) {s v : Config Op Ans Task Res σ Φ},
      M.Beside out P s v ls → M.Beside out Q s v ls
  | [], _, _, _ => trivial
  | _ :: ls, _, _, h => ⟨hPQ _ _ _ h.1, fun s' hs =>
      ⟨fun hl => Beside.mono hPQ ls ((h.2 s' hs).1 hl), fun hl v' hv => Beside.mono hPQ ls ((h.2 s' hs).2 hl v' hv)⟩⟩

end

end Machine

end Interleave
