import GoCourier.Lib.Machine

/- How many calls a program makes. `Cost` bounds them by what the program is, whatever it
   is answered; the bound of a composed program is the sum of the bounds of its parts. A
   thread of a machine then takes at most so many steps, whatever runs beside it. -/
namespace Interleave

section
variable {Op : Type} {Ans : Op → Type} {α β ε : Type} {sees : (op : Op) → Ans op → Prop}

/-- The tree is done after at most `n` calls, if the answers do what `sees` says. -/
inductive Cost (sees : (op : Op) → Ans op → Prop) : CallTree Op Ans α → Nat → Prop where
  | done (a : α) (n : Nat) : Cost sees (.done a) n
  | ask {op : Op} {k : Ans op → CallTree Op Ans α} {n : Nat} (h : ∀ r, sees op r → Cost sees (k r) n) :
      Cost sees (.ask op k) (n + 1)

theorem cost_mono {T : CallTree Op Ans α} {m n : Nat} (h : Cost sees T m) (hle : m ≤ n) : Cost sees T n := by
  induction h generalizing n with
  | done a m => exact .done a n
  | @ask op k m h ih =>
    obtain ⟨n, rfl⟩ := Nat.exists_eq_add_of_le' (Nat.le_trans (Nat.succ_le_succ (Nat.zero_le m)) hle)
    exact .ask fun r hr => ih r hr (Nat.le_of_succ_le_succ hle)

theorem cost_bind {f : α → CallTree Op Ans β} {T : CallTree Op Ans α} {m n : Nat} (hf : ∀ a, Cost sees (f a) n)
    (h : Cost sees T m) : Cost sees (T >>= f) (n + m) := by
  induction h with
  | done a m => exact cost_mono (hf a) (Nat.le_add_right n m)
  | ask h ih => exact .ask ih

theorem cost_map (f : α → β) {T : CallTree Op Ans α} {n : Nat} (h : Cost sees T n) : Cost sees (f <$> T) n := by
  have hbind := cost_bind (n := 0) (fun a => Cost.done (f a) 0) h
  rwa [Nat.zero_add] at hbind

/-- A fallible program in sequence: an error costs nothing more. -/
theorem cost_bindE {x : ExceptT ε (CallTree Op Ans) α} {f : α → ExceptT ε (CallTree Op Ans) β} {m n : Nat}
    (hx : Cost sees x.run m) (hf : ∀ a, Cost sees (f a).run n) : Cost sees (x >>= f).run (n + m) := by
  rw [ExceptT.run_bind]
  refine cost_bind (fun r => ?_) hx
  cases r with
  | ok a => exact hf a
  | error e => exact .done _ n

/-- A program with no calls left to make. -/
theorem done_of_cost {T : CallTree Op Ans α} (h : Cost sees T 0) : ∃ a, T = .done a := by
  cases h with
  | done a => exact ⟨a, rfl⟩

end

namespace Machine
variable {Op : Type} {Ans : Op → Type} {Task Res σ Choice Move Φ : Type} {M : Machine Op Ans Task Res σ Choice Move Φ}
  {sees : (op : Op) → Ans op → Prop} {t : Nat} {k : Task}

/-- The step answers a call of thread `t`. -/
def calls (t : Nat) : Label Task Choice Move → Bool
  | .call u _ => u = t
  | _ => false

/-- One step: it answers a call of the thread, which has one less to make, or leaves the thread alone. -/
theorem cost_step (hsees : ∀ op c w r w', M.answer op c w = some (r, w') → sees op r)
    {s s' : Config Op Ans Task Res σ Φ} {l : Label Task Choice Move} (hs : M.Step s l s') (hcrash : l ≠ .crash t)
    {φ : Φ} {prog : CallTree Op Ans Res} {n : Nat} (hth : s.threads t = some ⟨k, φ, prog⟩) (hcost : Cost sees prog n) :
    ∃ φ' prog' m, s'.threads t = some ⟨k, φ', prog'⟩ ∧ Cost sees prog' m ∧ n = m + (if calls t l then 1 else 0) := by
  by_cases hcall : ∃ c, l = .call t c
  · obtain ⟨c, rfl⟩ := hcall
    cases hs with
    | call running answered =>
      rw [running] at hth
      cases hth
      cases hcost with
      | ask h =>
        refine ⟨_, _, _, Function.update_self .., h _ (hsees _ _ _ _ _ answered), ?_⟩
        rw [calls, if_pos (decide_eq_true rfl)]
  · have hother : calls t l = false := by
      cases l with
      | call u c =>
        refine decide_eq_false fun hu => hcall ⟨c, ?_⟩
        rw [hu]
      | _ => rfl
    refine ⟨φ, prog, n, hs.kept hth (fun c hl => hcall ⟨c, hl⟩) hcrash, hcost, ?_⟩
    rw [hother]
    rfl

/-- A run in which the thread does not crash: what it was bound to make and has not made is left. -/
theorem cost_run (hsees : ∀ op c w r w', M.answer op c w = some (r, w') → sees op r) :
    ∀ (ls : List (Label Task Choice Move)) {s s' : Config Op Ans Task Res σ Φ} {φ : Φ} {prog : CallTree Op Ans Res}
      {n : Nat}, M.run s ls = some s' → (∀ l ∈ ls, l ≠ .crash t) → s.threads t = some ⟨k, φ, prog⟩ →
      Cost sees prog n →
      ∃ φ' prog' m, s'.threads t = some ⟨k, φ', prog'⟩ ∧ Cost sees prog' m ∧ n = m + ls.countP (calls t)
  | [], _, _, φ, prog, n, hrun, _, hth, hcost => by
    cases hrun
    exact ⟨φ, prog, n, hth, hcost, rfl⟩
  | l :: ls, s, s', φ, prog, n, hrun, hcrash, hth, hcost => by
    obtain ⟨s₁, h1, h2⟩ := Option.bind_eq_some_iff.mp hrun
    obtain ⟨φ₁, prog₁, m, hth₁, hcost₁, hn⟩ :=
      cost_step hsees (M.step_iff.mp h1) (hcrash l List.mem_cons_self) hth hcost
    obtain ⟨φ', prog', m', hth', hcost', hm⟩ :=
      cost_run hsees ls h2 (fun l' hl' => hcrash l' (List.mem_cons_of_mem l hl')) hth₁ hcost₁
    refine ⟨φ', prog', m', hth', hcost', ?_⟩
    rw [List.countP_cons, hn, hm, Nat.add_assoc]

end Machine

end Interleave
