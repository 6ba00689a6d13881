import Mathlib.Tactic.Abel
import GoCourier.Lib.Promise
import GoCourier.Lib.Tally

/- Accounts over a machine. A call may earn things and may spend them; what a thread has
   earned and not spent it holds. Where no call spends what its thread does not hold, all
   the calls of a run together have spent no more than they have earned, whatever the
   interleaving and whoever crashes. What a thread holds is either said by the phase of its
   protocol, or is the credit that its program keeps to (a pledge). -/
namespace Interleave

namespace Machine
variable {Op : Type} {Ans : Op → Type} {Task Res σ Choice Move Φ α : Type}

structure Account (Op : Type) (Ans : Op → Type) (Task Φ α : Type) where
  earns : Event Op Ans Task → Multiset α
  spends : Event Op Ans Task → Multiset α
  held : Φ → Multiset α

namespace Account
variable (A : Account Op Ans Task Φ α)

def earned (hist : List (Event Op Ans Task)) : Multiset α := (hist.map A.earns).sum

def spent (hist : List (Event Op Ans Task)) : Multiset α := (hist.map A.spends).sum

/-- What has been spent and what the threads hold has been earned. -/
def Balanced (hold : Nat → Multiset α) (hist : List (Event Op Ans Task)) : Prop :=
  ∃ m, Total hold m ∧ A.spent hist + m ≤ A.earned hist

variable {A} {hold hold' : Nat → Multiset α} {hist : List (Event Op Ans Task)} {e : Event Op Ans Task} {t : Nat}

theorem Balanced.spent_le (h : A.Balanced hold hist) : A.spent hist ≤ A.earned hist := by
  obtain ⟨m, -, hle⟩ := h
  exact le_trans (Multiset.le_add_right ..) hle

/-- A thread pays for its call from what it holds and what the call earns. -/
theorem balanced_call (h : A.Balanced hold hist) (hother : ∀ u, u ≠ t → hold' u = hold u)
    (hpay : A.spends e + hold' t ≤ hold t + A.earns e) : A.Balanced hold' (e :: hist) := by
  obtain ⟨m, htotal, hle⟩ := h
  obtain ⟨m', htotal', hheld⟩ := total_update htotal t hother
  -- a multiset cannot be subtracted from, so what `t` held is put on both sides
  refine ⟨m', htotal', le_of_add_le_add_right (a := hold t) ?_⟩
  calc A.spent (e :: hist) + m' + hold t
      = A.spends e + hold' t + (A.spent hist + m) := by
        rw [add_assoc, hheld]
        simp only [spent, List.map_cons, List.sum_cons]
        abel
    _ ≤ hold t + A.earns e + A.earned hist := add_le_add hpay hle
    _ = A.earned (e :: hist) + hold t := by
        simp only [earned, List.map_cons, List.sum_cons]
        abel

/-- A thread may lose what it holds. -/
theorem balanced_loss (h : A.Balanced hold hist) (hother : ∀ u, u ≠ t → hold' u = hold u) (hless : hold' t ≤ hold t) :
    A.Balanced hold' hist := by
  obtain ⟨m, htotal, hle⟩ := h
  obtain ⟨m', htotal', hheld⟩ := total_update htotal t hother
  have hm : m' ≤ m := by
    refine le_of_add_le_add_right (a := hold t) ?_
    rw [hheld]
    exact add_le_add (le_refl m) hless
  exact ⟨m', htotal', le_trans (add_le_add (le_refl _) hm) hle⟩

end Account

/-! What the phases say. -/

namespace Account
variable (A : Account Op Ans Task Φ α)

/-- A crashed thread holds nothing. -/
def holding : Option (Thread Op Ans Task Res Φ) → Multiset α
  | some th => A.held th.phase
  | none => 0

def Solvent (s : Config Op Ans Task Res σ Φ) : Prop := A.Balanced (fun t => A.holding (s.threads t)) s.hist

/-- A call from phase `φ` to phase `φ'` spends no more than its thread holds. -/
def Pays (φ : Φ) (e : Event Op Ans Task) (φ' : Φ) : Prop := A.spends e + A.held φ' ≤ A.held φ + A.earns e

variable {A} {M : Machine Op Ans Task Res σ Choice Move Φ} {s s' : Config Op Ans Task Res σ Φ} {l : Label Task Choice Move}

theorem solvent_init (w : σ) : A.Solvent (⟨w, fun _ => none, []⟩ : Config Op Ans Task Res σ Φ) :=
  ⟨0, total_zero, le_refl _⟩

/-- One step: a thread starts with nothing, a call pays, a crash only loses. -/
theorem solvent_step (h : A.Solvent s) (hs : M.Step s l s') (hfirst : ∀ k, A.held (M.first k) = 0)
    (hpays : ∀ t c k φ op f r, s.threads t = some ⟨k, φ, .ask op f⟩ → M.answer op c s.state = some (r, s'.state) →
      A.Pays φ ⟨t, k, op, r⟩ (M.next k φ op r)) : A.Solvent s' := by
  have hother : ∀ (t : Nat) (th : Option (Thread Op Ans Task Res Φ)), ∀ u, u ≠ t →
      A.holding (Function.update s.threads t th u) = A.holding (s.threads u) := by
    intro t th u hu
    rw [Function.update_of_ne hu]
  cases hs with
  | @start t k w free entered =>
    refine balanced_loss h (hother t _) ?_
    show A.holding (Function.update s.threads t _ t) ≤ _
    rw [Function.update_self, holding, hfirst k]
    exact Multiset.zero_le _
  | @call t c k φ op f r w running answered =>
    refine balanced_call h (hother t _) ?_
    show _ + A.holding (Function.update s.threads t _ t) ≤ A.holding (s.threads t) + _
    rw [Function.update_self, running]
    exact hpays t c k φ op f r running answered
  | @crash t k φ op f running =>
    refine balanced_loss h (hother t none) ?_
    show A.holding (Function.update s.threads t none t) ≤ _
    rw [Function.update_self]
    exact Multiset.zero_le _
  | move moved => exact h

end Account

/-! What the pledges say. -/

namespace Account
variable {M : Machine Op Ans Task Res σ Choice Move Φ} {Γ : Type} {A : Account Op Ans Task Γ α} {P : M.Pledge Γ}
  {s s' : Config Op Ans Task Res σ Φ} {l : Label Task Choice Move}

/-- Every thread keeps to its pledge, in phases whose holdings have been earned. -/
def SolventBy (A : Account Op Ans Task Γ α) (P : M.Pledge Γ) (s : Config Op Ans Task Res σ Φ) : Prop :=
  ∃ g, Pledged P g s ∧ A.Balanced (fun t => A.held (g t)) s.hist

theorem solventBy_step (h : A.SolventBy P s) (hs : M.Step s l s') (hfirst : ∀ k, A.held (P.first k) = 0)
    (hpays : ∀ t k γ op r, (P.discipline k).may γ op → A.Pays γ ⟨t, k, op, r⟩ ((P.discipline k).next γ op r)) :
    A.SolventBy P s' := by
  obtain ⟨g, hg, hbalanced⟩ := h
  have hother : ∀ (t : Nat) (γ : Γ), ∀ u, u ≠ t → A.held (Function.update g t γ u) = A.held (g u) := by
    intro t γ u hu
    rw [Function.update_of_ne hu]
  cases hs with
  | @start t k w free entered =>
    refine ⟨_, pledged_start hg t k w, balanced_loss hbalanced (hother t _) ?_⟩
    rw [Function.update_self, hfirst k]
    exact Multiset.zero_le _
  | @call t c k φ op f r w running answered =>
    refine ⟨_, pledged_call hg running answered _, balanced_call hbalanced (hother t _) ?_⟩
    rw [Function.update_self]
    exact hpays t k (g t) op r (hg.may running)
  -- nobody spends what a crashed thread held, so it may as well be kept
  | @crash t k φ op f running => exact ⟨g, pledged_crash hg t, hbalanced⟩
  | move moved => exact ⟨g, hg, hbalanced⟩

/-- In every run from idle threads, the calls have spent no more than they have earned. -/
theorem spent_le_earned {ok : Config Op Ans Task Res σ Φ → Label Task Choice Move → Prop} {w : σ} (γ : Γ)
    (hγ : A.held γ = 0) (hr : M.Reach ok ⟨w, fun _ => none, []⟩ s) (hfirst : ∀ k, A.held (P.first k) = 0)
    (hpays : ∀ t k γ op r, (P.discipline k).may γ op → A.Pays γ ⟨t, k, op, r⟩ ((P.discipline k).next γ op r)) :
    A.spent s.hist ≤ A.earned s.hist := by
  have h : A.SolventBy P s := by
    refine hr.invariant (I := A.SolventBy P) ⟨fun _ => γ, ?_, 0, ?_, le_refl _⟩ fun _ _ _ hI _ hs =>
      solventBy_step hI hs hfirst hpays
    · intro t th hth
      cases hth
    · show Total (fun _ => A.held γ) 0
      rw [hγ]
      exact total_zero
  obtain ⟨g, -, hbalanced⟩ := h
  exact hbalanced.spent_le

end Account

end Machine

end Interleave
