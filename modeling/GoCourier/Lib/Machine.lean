import Mathlib.Logic.Function.Basic
import GoCourier.Lib.Board
import GoCourier.Lib.CallTree

/- Any number of programs interleaved over one shared state. A task (a request, a
   delivered message, a timer tick) starts a thread running its program; each step
   answers the next call of one thread, so a call is atomic and everything between
   two calls of a thread can be reordered with the other threads. A thread may
   crash at any point, and the environment may move the state on its own.

   Every thread carries a phase, computed from the answers it has had and read by
   no program, and the configuration carries the history of all answered calls:
   both are ghosts, for statements.

   1. `step` runs one label, `run` a list of them; `Step` is its inversion, and
      every proof about a step starts there.
   2. `Reach ok` are the configurations reached by steps that all satisfy `ok`
      (what the environment is assumed to do), `Along` a property of every step
      of one run.
   3. `Conforms`: every thread still obeys the protocol of its task. It holds in
      every configuration reached (`reach_conforms`), so an invariant proof only
      sees calls the protocol allows (`Step.may`), never a program text. -/
namespace Interleave

structure Machine (Op : Type) (Ans : Op → Type) (Task Res σ Choice Move Φ : Type) where
  program : Task → CallTree Op Ans Res
  /-- The answer to a call and the state after it, as the environment chooses. -/
  answer : (op : Op) → Choice → σ → Option (Ans op × σ)
  /-- The state after the task has started; `none` where it cannot. -/
  enter : Task → σ → Option σ
  move : Move → σ → Option σ
  first : Task → Φ
  next : Task → Φ → (op : Op) → Ans op → Φ

structure Thread (Op : Type) (Ans : Op → Type) (Task Res Φ : Type) where
  task : Task
  phase : Φ
  prog : CallTree Op Ans Res

/-- An answered call. -/
structure Event (Op : Type) (Ans : Op → Type) (Task : Type) where
  tid : Nat
  task : Task
  op : Op
  ans : Ans op

structure Config (Op : Type) (Ans : Op → Type) (Task Res σ Φ : Type) where
  state : σ
  threads : Nat → Option (Thread Op Ans Task Res Φ)
  hist : List (Event Op Ans Task)

inductive Label (Task Choice Move : Type) where
  | start (t : Nat) (k : Task)
  | call (t : Nat) (c : Choice)
  | crash (t : Nat)
  | move (m : Move)
  deriving DecidableEq

variable {Op : Type} {Ans : Op → Type} {Task Res σ Choice Move Φ : Type}

/-- What a changed map holds at `u`: the new value at the changed place, the old elsewhere. -/
theorem of_update {κ β : Type} [DecidableEq κ] {f : κ → Option β} {t u : κ} {v : Option β} {b : β}
    (h : Function.update f t v u = some b) : u = t ∧ v = some b ∨ u ≠ t ∧ f u = some b := by
  by_cases e : u = t
  · subst e
    rw [Function.update_self] at h
    exact .inl ⟨rfl, h⟩
  · rw [Function.update_of_ne e] at h
    exact .inr ⟨e, h⟩

/-- The thread has calls to make. -/
def Thread.Live (th : Thread Op Ans Task Res Φ) : Prop := ∃ op k, th.prog = .ask op k

namespace Machine
variable (M : Machine Op Ans Task Res σ Choice Move Φ)

def step (s : Config Op Ans Task Res σ Φ) : Label Task Choice Move → Option (Config Op Ans Task Res σ Φ)
  | .start t k => match s.threads t with
    | some _ => none
    | none => (M.enter k s.state).map fun w =>
      { s with state := w, threads := Function.update s.threads t (some ⟨k, M.first k, M.program k⟩) }
  | .call t c => match s.threads t with
    | some ⟨k, φ, .ask op f⟩ => (M.answer op c s.state).map fun p =>
      { state := p.2
        threads := Function.update s.threads t (some ⟨k, M.next k φ op p.1, f p.1⟩)
        hist := ⟨t, k, op, p.1⟩ :: s.hist }
    | _ => none
  | .crash t => match s.threads t with
    | some ⟨_, _, .ask _ _⟩ => some { s with threads := Function.update s.threads t none }
    | _ => none
  | .move m => (M.move m s.state).map fun w => { s with state := w }

def run : Config Op Ans Task Res σ Φ → List (Label Task Choice Move) → Option (Config Op Ans Task Res σ Φ)
  | s, [] => some s
  | s, l :: ls => (M.step s l).bind fun s' => run s' ls

/-- What a step is: one case per kind of label. -/
inductive Step (s : Config Op Ans Task Res σ Φ) :
    Label Task Choice Move → Config Op Ans Task Res σ Φ → Prop where
  | start {t : Nat} {k : Task} {w : σ} (free : s.threads t = none) (entered : M.enter k s.state = some w) :
      Step s (.start t k)
        { s with state := w, threads := Function.update s.threads t (some ⟨k, M.first k, M.program k⟩) }
  | call {t : Nat} {c : Choice} {k : Task} {φ : Φ} {op : Op} {f : Ans op → CallTree Op Ans Res}
      {r : Ans op} {w : σ} (running : s.threads t = some ⟨k, φ, .ask op f⟩)
      (answered : M.answer op c s.state = some (r, w)) :
      Step s (.call t c)
        { state := w
          threads := Function.update s.threads t (some ⟨k, M.next k φ op r, f r⟩)
          hist := ⟨t, k, op, r⟩ :: s.hist }
  | crash {t : Nat} {k : Task} {φ : Φ} {op : Op} {f : Ans op → CallTree Op Ans Res}
      (running : s.threads t = some ⟨k, φ, .ask op f⟩) :
      Step s (.crash t) { s with threads := Function.update s.threads t none }
  | move {m : Move} {w : σ} (moved : M.move m s.state = some w) : Step s (.move m) { s with state := w }

theorem step_iff {s s' : Config Op Ans Task Res σ Φ} {l : Label Task Choice Move} :
    M.step s l = some s' ↔ M.Step s l s' := by
  constructor
  · intro h
    cases l with
    | start t k =>
      simp only [step] at h
      split at h
      · cases h
      · rename_i free
        obtain ⟨w, entered, rfl⟩ := Option.map_eq_some_iff.mp h
        exact .start free entered
    | call t c =>
      simp only [step] at h
      split at h
      · rename_i running
        obtain ⟨⟨r, w⟩, answered, rfl⟩ := Option.map_eq_some_iff.mp h
        exact .call running answered
      · cases h
    | crash t =>
      simp only [step] at h
      split at h
      · rename_i running
        cases h
        exact .crash running
      · cases h
    | move m =>
      obtain ⟨w, moved, rfl⟩ := Option.map_eq_some_iff.mp h
      exact .move moved
  · intro h
    cases h with
    | start free entered => simp [step, free, entered]
    | call running answered => simp [step, running, answered]
    | crash running => simp [step, running]
    | move moved => simp [step, moved]

/-! Runs. -/

/-- The configurations reached from `s₀` by steps that all satisfy `ok`. -/
inductive Reach (ok : Config Op Ans Task Res σ Φ → Label Task Choice Move → Prop)
    (s₀ : Config Op Ans Task Res σ Φ) : Config Op Ans Task Res σ Φ → Prop where
  | refl : Reach ok s₀ s₀
  | step {s s' : Config Op Ans Task Res σ Φ} {l : Label Task Choice Move} :
      Reach ok s₀ s → ok s l → M.step s l = some s' → Reach ok s₀ s'

/-- Every step of the run satisfies `P`. -/
def Along (P : Config Op Ans Task Res σ Φ → Label Task Choice Move → Config Op Ans Task Res σ Φ → Prop) :
    Config Op Ans Task Res σ Φ → List (Label Task Choice Move) → Prop
  | _, [] => True
  | s, l :: ls => ∀ s', M.step s l = some s' → P s l s' ∧ Along P s' ls

variable {M} {ok ok' : Config Op Ans Task Res σ Φ → Label Task Choice Move → Prop}
  {s₀ s s' s'' : Config Op Ans Task Res σ Φ}

theorem Reach.mono (h : ∀ s l, ok s l → ok' s l) (hr : M.Reach ok s₀ s) : M.Reach ok' s₀ s := by
  induction hr with
  | refl => exact .refl
  | step _ hok hstep ih => exact .step ih (h _ _ hok) hstep

theorem Reach.trans (h₁ : M.Reach ok s₀ s) (h₂ : M.Reach ok s s') : M.Reach ok s₀ s' := by
  induction h₂ with
  | refl => exact h₁
  | step _ hok hstep ih => exact .step ih hok hstep

/-- The invariant rule. -/
theorem Reach.invariant {I : Config Op Ans Task Res σ Φ → Prop} (h0 : I s₀)
    (hstep : ∀ s l s', I s → ok s l → M.Step s l s' → I s') (hr : M.Reach ok s₀ s) : I s := by
  induction hr with
  | refl => exact h0
  | step _ hok hs ih => exact hstep _ _ _ ih hok (M.step_iff.mp hs)

theorem reach_of_run : ∀ (ls : List (Label Task Choice Move)) {s : Config Op Ans Task Res σ Φ},
    M.Reach ok s₀ s → M.Along (fun s l _ => ok s l) s ls → M.run s ls = some s' → M.Reach ok s₀ s'
  | [], _, hr, _, h => by cases h; exact hr
  | l :: ls, s, hr, ha, h => by
    obtain ⟨s₁, h1, h2⟩ := Option.bind_eq_some_iff.mp h
    obtain ⟨hok, hrest⟩ := ha s₁ h1
    exact reach_of_run ls (hr.step hok h1) hrest h2

theorem along_of_forall {P : Config Op Ans Task Res σ Φ → Label Task Choice Move → Config Op Ans Task Res σ Φ → Prop} :
    ∀ (ls : List (Label Task Choice Move)) (s : Config Op Ans Task Res σ Φ),
      (∀ l ∈ ls, ∀ s s', P s l s') → M.Along P s ls
  | [], _, _ => trivial
  | l :: ls, s, h => fun s' _ =>
    ⟨h l List.mem_cons_self s s', along_of_forall ls s' fun l' hl' => h l' (List.mem_cons_of_mem _ hl')⟩

/-- Where a run ends is reached. -/
theorem reach_run {ls : List (Label Task Choice Move)} (h : M.run s₀ ls = some s) : M.Reach (fun _ _ => True) s₀ s :=
  reach_of_run ls .refl (along_of_forall ls s₀ fun _ _ _ _ => trivial) h

theorem Along.mono {P Q : Config Op Ans Task Res σ Φ → Label Task Choice Move → Config Op Ans Task Res σ Φ → Prop}
    (hPQ : ∀ s l s', P s l s' → Q s l s') :
    ∀ (ls : List (Label Task Choice Move)) {s : Config Op Ans Task Res σ Φ}, M.Along P s ls → M.Along Q s ls
  | [], _, _ => trivial
  | _ :: ls, _, h => fun s' hs => ⟨hPQ _ _ _ (h s' hs).1, Along.mono hPQ ls (h s' hs).2⟩

theorem Along.and {P Q : Config Op Ans Task Res σ Φ → Label Task Choice Move → Config Op Ans Task Res σ Φ → Prop} :
    ∀ (ls : List (Label Task Choice Move)) {s : Config Op Ans Task Res σ Φ}, M.Along P s ls → M.Along Q s ls →
      M.Along (fun s l s' => P s l s' ∧ Q s l s') s ls
  | [], _, _, _ => trivial
  | _ :: ls, _, hP, hQ => fun s' hs => ⟨⟨(hP s' hs).1, (hQ s' hs).1⟩, Along.and ls (hP s' hs).2 (hQ s' hs).2⟩

variable (M) in
/-- `Along` of a condition that computes. -/
def check (f : Config Op Ans Task Res σ Φ → Label Task Choice Move → Bool) :
    Config Op Ans Task Res σ Φ → List (Label Task Choice Move) → Bool
  | _, [] => true
  | s, l :: ls => f s l && match M.step s l with
    | some s' => check f s' ls
    | none => true

theorem along_of_check {f : Config Op Ans Task Res σ Φ → Label Task Choice Move → Bool} :
    ∀ (ls : List (Label Task Choice Move)) {s : Config Op Ans Task Res σ Φ}, M.check f s ls = true →
      M.Along (fun s l _ => f s l = true) s ls
  | [], _, _ => trivial
  | l :: ls, s, h => fun s' hs => by
    rw [check, hs, Bool.and_eq_true] at h
    exact ⟨h.1, along_of_check ls h.2⟩

/-- What holds along a run holds of the step after any of its beginnings. -/
theorem Along.at_step {P : Config Op Ans Task Res σ Φ → Label Task Choice Move → Config Op Ans Task Res σ Φ → Prop} :
    ∀ (ls : List (Label Task Choice Move)) {l : Label Task Choice Move} {ms : List (Label Task Choice Move)}
      {s s₁ s₂ : Config Op Ans Task Res σ Φ},
      M.Along P s (ls ++ l :: ms) → M.run s ls = some s₁ → M.step s₁ l = some s₂ → P s₁ l s₂
  | [], _, _, _, _, _, h, hr, hs => by
    cases hr
    exact (h _ hs).1
  | l' :: ls, _, _, _, _, _, h, hr, hs => by
    obtain ⟨s', h1, h2⟩ := Option.bind_eq_some_iff.mp hr
    exact Along.at_step ls (h s' h1).2 h2 hs

/-- Along a run whose steps all satisfy `base`, a step-indexed fact that an
    invariant gives at each step holds at each step. -/
theorem along_of_invariant {I : Config Op Ans Task Res σ Φ → Prop}
    {base P : Config Op Ans Task Res σ Φ → Label Task Choice Move → Config Op Ans Task Res σ Φ → Prop}
    (hstep : ∀ s l s', I s → M.Step s l s' → base s l s' → P s l s' ∧ I s') :
    ∀ (ls : List (Label Task Choice Move)) (s : Config Op Ans Task Res σ Φ), I s → M.Along base s ls →
      M.Along P s ls
  | [], _, _, _ => trivial
  | l :: ls, s, hI, hb => by
    intro s₁ h1
    obtain ⟨hbase, hrest⟩ := hb s₁ h1
    obtain ⟨hP, hI₁⟩ := hstep s l s₁ hI (M.step_iff.mp h1) hbase
    exact ⟨hP, along_of_invariant hstep ls s₁ hI₁ hrest⟩

/-! What the steps of a run yield. -/

section
variable {α : Type}

variable (M) in
/-- What each step yields, in order. -/
def collect (f : Config Op Ans Task Res σ Φ → Label Task Choice Move → List α) :
    Config Op Ans Task Res σ Φ → List (Label Task Choice Move) → List α
  | _, [] => []
  | s, l :: ls => match M.step s l with
    | some s' => f s l ++ collect f s' ls
    | none => []

/-- An invariant about a configuration and what the run up to it has yielded. -/
theorem collect_invariant {f : Config Op Ans Task Res σ Φ → Label Task Choice Move → List α}
    {base : Config Op Ans Task Res σ Φ → Label Task Choice Move → Config Op Ans Task Res σ Φ → Prop}
    {I : Config Op Ans Task Res σ Φ → List α → Prop}
    (hstep : ∀ s acc l s', I s acc → M.Step s l s' → base s l s' → I s' (acc ++ f s l)) :
    ∀ (ls : List (Label Task Choice Move)) {s s' : Config Op Ans Task Res σ Φ} {acc : List α}, I s acc →
      M.Along base s ls → M.run s ls = some s' → I s' (acc ++ M.collect f s ls)
  | [], s, _, acc, h, _, hr => by
    cases hr
    rw [collect, List.append_nil]
    exact h
  | l :: ls, s, s', acc, h, hb, hr => by
    obtain ⟨s₁, h1, h2⟩ := Option.bind_eq_some_iff.mp hr
    obtain ⟨hbase, hrest⟩ := hb s₁ h1
    have h' := collect_invariant hstep ls (hstep s acc l s₁ h (M.step_iff.mp h1) hbase) hrest h2
    rw [collect, h1]
    simpa only [List.append_assoc] using h'

end

/-! One thread of the next configuration. -/

variable (M) in
/-- Where a thread comes from: it did not move, or it has just started, or its call was answered. -/
inductive Origin (s s' : Config Op Ans Task Res σ Φ) (l : Label Task Choice Move) (u : Nat) :
    Thread Op Ans Task Res Φ → Prop where
  | kept {th : Thread Op Ans Task Res Φ} (before : s.threads u = some th) (other : ∀ c, l ≠ .call u c) :
      Origin s s' l u th
  | started {k : Task} (label : l = .start u k) (free : s.threads u = none)
      (entered : M.enter k s.state = some s'.state) : Origin s s' l u ⟨k, M.first k, M.program k⟩
  | called {c : Choice} {k : Task} {φ : Φ} {op : Op} {f : Ans op → CallTree Op Ans Res} {r : Ans op}
      (label : l = .call u c) (running : s.threads u = some ⟨k, φ, .ask op f⟩)
      (answered : M.answer op c s.state = some (r, s'.state)) : Origin s s' l u ⟨k, M.next k φ op r, f r⟩

theorem Step.origin {l : Label Task Choice Move} {u : Nat} {th : Thread Op Ans Task Res Φ} (hs : M.Step s l s')
    (hu : s'.threads u = some th) : M.Origin s s' l u th := by
  cases hs with
  | start free entered =>
    rcases of_update hu with ⟨rfl, h⟩ | ⟨_, h⟩
    · cases h
      exact .started rfl free entered
    · exact .kept h nofun
  | call running answered =>
    rcases of_update hu with ⟨rfl, h⟩ | ⟨hne, h⟩
    · cases h
      exact .called rfl running answered
    · exact .kept h fun c hl => hne (by cases hl; rfl)
  | crash running =>
    rcases of_update hu with ⟨_, h⟩ | ⟨_, h⟩
    · cases h
    · exact .kept h nofun
  | move moved => exact .kept hu nofun

/-- The same of a thread given by its parts. -/
theorem Step.origin_cases {l : Label Task Choice Move} {u : Nat} {k : Task} {φ : Φ} {prog : CallTree Op Ans Res}
    (hs : M.Step s l s') (hu : s'.threads u = some ⟨k, φ, prog⟩) :
    (s.threads u = some ⟨k, φ, prog⟩ ∧ ∀ c, l ≠ .call u c) ∨
      (l = .start u k ∧ M.enter k s.state = some s'.state ∧ φ = M.first k) ∨
        ∃ c ψ op f r, l = .call u c ∧ s.threads u = some ⟨k, ψ, .ask op f⟩ ∧
          M.answer op c s.state = some (r, s'.state) ∧ φ = M.next k ψ op r := by
  have ho := hs.origin hu
  generalize hth : (⟨k, φ, prog⟩ : Thread Op Ans Task Res Φ) = th at ho
  cases ho with
  | kept before other =>
    subst hth
    exact .inl ⟨before, other⟩
  | started label free entered =>
    obtain ⟨rfl, hφ, -⟩ := Thread.mk.inj hth
    exact .inr (.inl ⟨label, entered, hφ⟩)
  | called label running answered =>
    obtain ⟨rfl, hφ, -⟩ := Thread.mk.inj hth
    exact .inr (.inr ⟨_, _, _, _, _, label, running, answered, hφ⟩)

/-- What the answered call of a thread leaves. -/
theorem Step.called {t : Nat} {c : Choice} {k : Task} {φ : Φ} {op : Op} {f : Ans op → CallTree Op Ans Res}
    (hs : M.Step s (.call t c) s') (h : s.threads t = some ⟨k, φ, .ask op f⟩) :
    ∃ r, M.answer op c s.state = some (r, s'.state) ∧
      s'.threads = Function.update s.threads t (some ⟨k, M.next k φ op r, f r⟩) ∧ s'.hist = ⟨t, k, op, r⟩ :: s.hist := by
  cases hs with
  | call running answered =>
    have hsame := Option.some.inj (running.symm.trans h)
    cases hsame
    exact ⟨_, answered, rfl, rfl⟩

/-- The history grows by the call a step answers. -/
theorem Step.heard {l : Label Task Choice Move} (hs : M.Step s l s') :
    s'.hist = s.hist ∨ ∃ t c k φ op f r, l = .call t c ∧ s.threads t = some ⟨k, φ, .ask op f⟩ ∧
      M.answer op c s.state = some (r, s'.state) ∧
      s'.threads = Function.update s.threads t (some ⟨k, M.next k φ op r, f r⟩) ∧ s'.hist = ⟨t, k, op, r⟩ :: s.hist := by
  cases hs with
  | call running answered => exact .inr ⟨_, _, _, _, _, _, _, rfl, running, answered, rfl, rfl⟩
  | _ => exact .inl rfl

/-- No call that was answered is forgotten. -/
theorem Step.remembers {l : Label Task Choice Move} (hs : M.Step s l s') : s.hist <:+ s'.hist := by
  rcases hs.heard with hsame | ⟨t, c, k, φ, op, f, r, -, -, -, -, hhist⟩
  · exact hsame ▸ List.suffix_rfl
  · exact hhist ▸ List.suffix_cons _ _

/-- A thread stays as it is unless its call is answered or it crashes. -/
theorem Step.kept {l : Label Task Choice Move} {t : Nat} {th : Thread Op Ans Task Res Φ} (hs : M.Step s l s')
    (h : s.threads t = some th) (hcall : ∀ c, l ≠ .call t c) (hcrash : l ≠ .crash t) : s'.threads t = some th := by
  cases hs with
  | @start u k w free entered =>
    have hne : t ≠ u := by
      intro htu
      rw [htu, free] at h
      cases h
    exact (Function.update_of_ne hne ..).trans h
  | @call u c k φ op f r w running answered =>
    have hne : t ≠ u := fun htu => hcall c (by rw [htu])
    exact (Function.update_of_ne hne ..).trans h
  | @crash u k φ op f running =>
    have hne : t ≠ u := fun htu => hcrash (by rw [htu])
    exact (Function.update_of_ne hne ..).trans h
  | move moved => exact h

/-- A thread that has returned stays as it is. -/
theorem Step.done {l : Label Task Choice Move} {t : Nat} {k : Task} {φ : Φ} {a : Res} (hs : M.Step s l s')
    (h : s.threads t = some ⟨k, φ, .done a⟩) : s'.threads t = some ⟨k, φ, .done a⟩ := by
  refine hs.kept h ?_ ?_
  · rintro c rfl
    cases hs with
    | call running answered =>
      rw [h] at running
      cases running
  · rintro rfl
    cases hs with
    | crash running =>
      rw [h] at running
      cases running

/-! Threads that have nothing left to do. -/

/-- The threads a list of steps starts. -/
def started (ls : List (Label Task Choice Move)) : List Nat :=
  ls.filterMap fun | .start t _ => some t | _ => none

/-- No thread, or one that has returned. -/
def atRest : Option (Thread Op Ans Task Res Φ) → Bool
  | some ⟨_, _, .ask _ _⟩ => false
  | _ => true

theorem not_live_of_atRest {th : Thread Op Ans Task Res Φ} (h : atRest (some th) = true) : ¬ th.Live := by
  rintro ⟨op, k, hk⟩
  obtain ⟨task, φ, prog⟩ := th
  cases hk
  cases h

theorem threads_step {l : Label Task Choice Move} {t : Nat} (hs : M.Step s l s') (h : s.threads t = none)
    (hl : ∀ k, l ≠ .start t k) : s'.threads t = none := by
  have hne : ∀ {u v}, u ≠ t → Function.update s.threads u v t = none := fun hu => by
    rw [Function.update_of_ne (Ne.symm hu), h]
  cases hs with
  | @start u k _ free entered => exact hne fun hu => hl k (hu ▸ rfl)
  | call running answered => exact hne fun hu => by rw [hu, h] at running; cases running
  | crash running => exact hne fun hu => by rw [hu, h] at running; cases running
  | move moved => exact h

theorem threads_run : ∀ (ls : List (Label Task Choice Move)) {s s' : Config Op Ans Task Res σ Φ} {t : Nat},
    M.run s ls = some s' → s.threads t = none → t ∉ started ls → s'.threads t = none
  | [], _, _, _, hr, h, _ => by cases hr; exact h
  | l :: ls, s, s', t, hr, h, ht => by
    obtain ⟨s₁, h1, h2⟩ := Option.bind_eq_some_iff.mp hr
    have hmem : t ∉ started [l] ∧ t ∉ started ls := by
      simpa only [started, ← List.mem_append, ← not_or, ← List.filterMap_append, List.singleton_append] using ht
    refine threads_run ls h2 (threads_step (M.step_iff.mp h1) h fun k hk => hmem.1 ?_) hmem.2
    rw [hk]
    exact List.mem_singleton.mpr rfl

/-- The threads of a run from the threads `ts` that starts no other. -/
theorem along_confined (ts : List Nat) (ls : List (Label Task Choice Move)) (h0 : ∀ t, t ∉ ts → s.threads t = none)
    (hls : (started ls).all (· ∈ ts) = true) :
    M.Along (fun s _ _ => ∀ t th, s.threads t = some th → t ∈ ts) s ls := by
  have hstart : M.Along (fun _ l _ => ∀ t k, l = .start t k → t ∈ ts) s ls := by
    refine along_of_forall ls s fun l hl _ _ t k hk => ?_
    have hmem : t ∈ started ls := List.mem_filterMap.mpr ⟨l, hl, by rw [hk]⟩
    exact of_decide_eq_true (List.all_eq_true.mp hls t hmem)
  refine along_of_invariant (I := fun s => ∀ t, t ∉ ts → s.threads t = none) (fun s l s' hI hs hb => ⟨?_, ?_⟩) ls s h0 hstart
  · intro t th hth
    by_contra hne
    rw [hI t hne] at hth
    cases hth
  · intro t hne
    exact threads_step hs (hI t hne) fun k hk => hne (hb t k hk)

/-- After a run from nothing whose threads are all at rest, no thread is live. -/
theorem rest_of_run {ls : List (Label Task Choice Move)} (hr : M.run s ls = some s') (h0 : ∀ t, s.threads t = none)
    (hrest : (started ls).all (fun t => atRest (s'.threads t)) = true) {t : Nat} {th : Thread Op Ans Task Res Φ}
    (h : s'.threads t = some th) : ¬ th.Live := by
  by_cases ht : t ∈ started ls
  · have := List.all_eq_true.mp hrest t ht
    rw [h] at this
    exact not_live_of_atRest this
  · rw [threads_run ls hr (h0 t) ht] at h
    cases h

/-! Boards. -/

/-- A configuration as a board: what `f` reads off its state, and `g` off each thread. -/
def board {A L : Type} (f : σ → A) (g : Option (Thread Op Ans Task Res Φ) → L) (s : Config Op Ans Task Res σ Φ) :
    Board A L where
  shared := f s.state
  places t := g (s.threads t)

section
variable {A L : Type} (s : Config Op Ans Task Res σ Φ) (f : σ → A) (g : Option (Thread Op Ans Task Res Φ) → L)

theorem board_update (w : σ) (t : Nat) (th : Option (Thread Op Ans Task Res Φ)) (hist : List (Event Op Ans Task)) :
    board f g ⟨w, Function.update s.threads t th, hist⟩ = (board f g s).turn t (f w) (g th) := by
  unfold board Board.turn
  congr 1
  exact Function.comp_update g s.threads t th

theorem board_state (w : σ) (t : Nat) :
    board f g { s with state := w } = (board f g s).turn t (f w) ((board f g s).places t) := by
  rw [Board.turn, Function.update_eq_self]
  rfl

end

/-! Protocols. -/

variable (M) in
/-- What every thread of a task is held to: the calls allowed in each phase, the
    answers that occur, what holds in every phase it reaches, and how it may end. -/
structure Protocol where
  may : Task → Φ → Op → Prop
  sees : (op : Op) → Ans op → Prop
  holds : Task → Φ → Prop
  ends : Task → Φ → Res → Prop
  answers : ∀ op c w r w', M.answer op c w = some (r, w') → sees op r
  holds_first : ∀ k, holds k (M.first k)
  holds_next : ∀ k φ op r, holds k φ → may k φ op → sees op r → holds k (M.next k φ op r)
  obeyed : ∀ k, Obeys ⟨may k, M.next k, sees⟩ (M.program k) (M.first k) (ends k)

/-- Every thread still obeys the protocol of its task. -/
def Conforms (P : M.Protocol) (s : Config Op Ans Task Res σ Φ) : Prop :=
  ∀ t th, s.threads t = some th → P.holds th.task th.phase ∧
    Obeys ⟨P.may th.task, M.next th.task, P.sees⟩ th.prog th.phase (P.ends th.task)

variable {P : M.Protocol}

theorem conforms_step {l : Label Task Choice Move} (hc : M.Conforms P s) (hs : M.Step s l s') :
    M.Conforms P s' := by
  intro u th hu
  cases hs with
  | start free entered =>
    rcases of_update hu with ⟨rfl, h⟩ | ⟨_, h⟩
    · cases h
      exact ⟨P.holds_first _, P.obeyed _⟩
    · exact hc u th h
  | call running answered =>
    rcases of_update hu with ⟨rfl, h⟩ | ⟨_, h⟩
    · cases h
      obtain ⟨hholds, hmay, hrest⟩ := hc u _ running
      have hsees := P.answers _ _ _ _ _ answered
      exact ⟨P.holds_next _ _ _ _ hholds hmay hsees, hrest _ hsees⟩
    · exact hc u th h
  | crash running =>
    rcases of_update hu with ⟨rfl, h⟩ | ⟨_, h⟩
    · cases h
    · exact hc u th h
  | move moved => exact hc u th hu

theorem reach_conforms (h0 : M.Conforms P s₀) (hr : M.Reach ok s₀ s) : M.Conforms P s :=
  hr.invariant h0 fun _ _ _ hc _ hs => conforms_step hc hs

theorem Conforms.holds (hc : M.Conforms P s) {t : Nat} {th : Thread Op Ans Task Res Φ}
    (h : s.threads t = some th) : P.holds th.task th.phase :=
  (hc t th h).1

/-- The next call of a conforming thread is one its protocol allows. -/
theorem Conforms.may (hc : M.Conforms P s) {t : Nat} {k : Task} {φ : Φ} {op : Op}
    {f : Ans op → CallTree Op Ans Res} (h : s.threads t = some ⟨k, φ, .ask op f⟩) : P.may k φ op :=
  (hc t _ h).2.1

theorem Conforms.ends (hc : M.Conforms P s) {t : Nat} {k : Task} {φ : Φ} {a : Res}
    (h : s.threads t = some ⟨k, φ, .done a⟩) : P.ends k φ a :=
  (hc t _ h).2

/-- A thread that may not end in its phase still has calls to make. -/
theorem Conforms.live (hc : M.Conforms P s) {t : Nat} {th : Thread Op Ans Task Res Φ}
    (h : s.threads t = some th) (hend : ∀ a, ¬ P.ends th.task th.phase a) : th.Live := by
  obtain ⟨k, φ, prog⟩ := th
  cases prog with
  | done a => exact absurd (hc.ends h) (hend a)
  | ask op f => exact ⟨op, f, rfl⟩

/-! Ghosts beside the phases. -/

section
variable {Γ : Type}

/-- What a party is also held to, by a ghost that grows beside its phase. The configuration does not
    carry it: where every thread keeps to the watch, some ghosts fit (`Watched`), and they move as the threads do. -/
structure Watch (P : M.Protocol) (Γ : Type) where
  first : Γ
  grow : Γ → (op : Op) → Ans op → Γ
  may : Task → Φ × Γ → Op → Prop
  ends : Task → Φ × Γ → Res → Prop
  obeyed : ∀ k, Obeys ⟨may k, fun ψ op r => (M.next k ψ.1 op r, grow ψ.2 op r), P.sees⟩ (M.program k) (M.first k, first)
    (ends k)

/-- Every thread keeps to the watch with the ghosts `g`. -/
def Watched (W : Watch P Γ) (g : Nat → Γ) (s : Config Op Ans Task Res σ Φ) : Prop :=
  ∀ t th, s.threads t = some th →
    Obeys ⟨W.may th.task, fun ψ op r => (M.next th.task ψ.1 op r, W.grow ψ.2 op r), P.sees⟩ th.prog (th.phase, g t)
      (W.ends th.task)

variable {W : Watch P Γ} {g : Nat → Γ} {t : Nat} {k : Task} {φ : Φ}

theorem Watched.may (hw : Watched W g s) {op : Op} {f : Ans op → CallTree Op Ans Res}
    (h : s.threads t = some ⟨k, φ, .ask op f⟩) : W.may k (φ, g t) op :=
  (hw t _ h).1

theorem Watched.ends (hw : Watched W g s) {a : Res} (h : s.threads t = some ⟨k, φ, .done a⟩) : W.ends k (φ, g t) a :=
  hw t _ h

theorem watched_start (hw : Watched W g s) (t : Nat) (k : Task) (w : σ) : Watched W (Function.update g t W.first)
    { s with state := w, threads := Function.update s.threads t (some ⟨k, M.first k, M.program k⟩) } := by
  intro u th hu
  rcases of_update hu with ⟨rfl, h⟩ | ⟨hne, h⟩
  · cases h
    rw [Function.update_self]
    exact W.obeyed k
  · rw [Function.update_of_ne hne]
    exact hw u th h

theorem watched_call (hw : Watched W g s) {op : Op} {f : Ans op → CallTree Op Ans Res} {c : Choice} {r : Ans op} {w : σ}
    (running : s.threads t = some ⟨k, φ, .ask op f⟩) (answered : M.answer op c s.state = some (r, w))
    (hist : List (Event Op Ans Task)) :
    Watched W (Function.update g t (W.grow (g t) op r))
      ⟨w, Function.update s.threads t (some ⟨k, M.next k φ op r, f r⟩), hist⟩ := by
  intro u th hu
  rcases of_update hu with ⟨rfl, h⟩ | ⟨hne, h⟩
  · cases h
    rw [Function.update_self]
    exact (hw u _ running).2 r (P.answers _ _ _ _ _ answered)
  · rw [Function.update_of_ne hne]
    exact hw u th h

theorem watched_crash (hw : Watched W g s) (t : Nat) :
    Watched W g { s with threads := Function.update s.threads t none } := by
  intro u th hu
  rcases of_update hu with ⟨-, h⟩ | ⟨-, h⟩
  · cases h
  · exact hw u th h

end

/-! Tasks of which one runs at a time. -/

/-- The step starts no task of `T` while one of them has calls to make. -/
def StartsAlone (T : Task → Prop) (s : Config Op Ans Task Res σ Φ) (l : Label Task Choice Move) : Prop :=
  ∀ t k, l = .start t k → T k → ∀ u th, s.threads u = some th → T th.task → ¬ th.Live

def AtMostOne (T : Task → Prop) (s : Config Op Ans Task Res σ Φ) : Prop :=
  ∀ t u th th', s.threads t = some th → s.threads u = some th' → T th.task → T th'.task →
    th.Live → th'.Live → t = u

theorem atMostOne_step {T : Task → Prop} {l : Label Task Choice Move} (h : AtMostOne T s)
    (hok : StartsAlone T s l) (hs : M.Step s l s') : AtMostOne T s' := by
  intro t u th th' ht hu hT hT' hl hl'
  cases hs with
  | start free entered =>
    rcases of_update ht with ⟨rfl, h₁⟩ | ⟨_, h₁⟩ <;> rcases of_update hu with ⟨rfl, h₂⟩ | ⟨_, h₂⟩
    · rfl
    · cases h₁
      exact absurd hl' (hok _ _ rfl hT u th' h₂ hT')
    · cases h₂
      exact absurd hl (hok _ _ rfl hT' t th h₁ hT)
    · exact h t u th th' h₁ h₂ hT hT' hl hl'
  | call running answered =>
    rcases of_update ht with ⟨rfl, h₁⟩ | ⟨_, h₁⟩ <;> rcases of_update hu with ⟨rfl, h₂⟩ | ⟨_, h₂⟩
    · rfl
    · cases h₁
      exact h _ u _ th' running h₂ hT hT' ⟨_, _, rfl⟩ hl'
    · cases h₂
      exact h t _ th _ h₁ running hT hT' hl ⟨_, _, rfl⟩
    · exact h t u th th' h₁ h₂ hT hT' hl hl'
  | crash running =>
    rcases of_update ht with ⟨_, h₁⟩ | ⟨_, h₁⟩
    · cases h₁
    · rcases of_update hu with ⟨_, h₂⟩ | ⟨_, h₂⟩
      · cases h₂
      · exact h t u th th' h₁ h₂ hT hT' hl hl'
  | move moved => exact h t u th th' ht hu hT hT' hl hl'

/-- The thread runs a task of `T` and has calls to make. -/
def runsTask (T : Task → Bool) : Option (Thread Op Ans Task Res Φ) → Bool
  | some ⟨k, _, .ask _ _⟩ => T k
  | _ => false

/-- `StartsAlone` where only the threads `ts` are about. -/
def startCheck (T : Task → Bool) (ts : List Nat) (s : Config Op Ans Task Res σ Φ) : Label Task Choice Move → Bool
  | .start _ k => ! T k || ts.all fun u => ! runsTask T (s.threads u)
  | _ => true

variable (M) in
/-- `StartsAlone` along a run from the threads `ts`. -/
def aloneCheck (T : Task → Bool) : List Nat → Config Op Ans Task Res σ Φ → List (Label Task Choice Move) → Bool
  | _, _, [] => true
  | ts, s, l :: ls =>
    startCheck T ts s l && match M.step s l with
      | some s' => aloneCheck T (started [l] ++ ts) s' ls
      | none => true

theorem along_of_aloneCheck {T : Task → Bool} : ∀ (ls : List (Label Task Choice Move)) {ts : List Nat}
    {s : Config Op Ans Task Res σ Φ}, (∀ t, t ∉ ts → s.threads t = none) → M.aloneCheck T ts s ls = true →
      M.Along (fun s l _ => StartsAlone (T · = true) s l) s ls
  | [], _, _, _, _ => trivial
  | l :: ls, ts, s, hts, h => by
    intro s' hs
    rw [aloneCheck, hs, Bool.and_eq_true] at h
    refine ⟨?_, along_of_aloneCheck ls (fun t ht => ?_) h.2⟩
    · intro t k hl hk u th hu hth hlive
      subst hl
      have hall : (! T k || ts.all fun u => ! runsTask T (s.threads u)) = true := h.1
      rw [hk, Bool.not_true, Bool.false_or] at hall
      -- a thread outside `ts` is not there
      have hmem : u ∈ ts := by
        by_contra hne
        rw [hts u hne] at hu
        cases hu
      have hfree := List.all_eq_true.mp hall u hmem
      obtain ⟨op, f, hf⟩ := hlive
      obtain ⟨k', φ, prog⟩ := th
      cases hf
      have hT : T k' = true := hth
      rw [hu, runsTask, hT] at hfree
      cases hfree
    · rw [List.mem_append, not_or] at ht
      refine threads_step (M.step_iff.mp hs) (hts t ht.2) fun k hk => ht.1 ?_
      rw [hk]
      exact List.mem_singleton.mpr rfl

theorem startsAlone_of_check {T : Task → Prop} [DecidablePred T] (ls : List (Label Task Choice Move))
    (h0 : ∀ t, s.threads t = none) (h : M.aloneCheck (fun k => decide (T k)) [] s ls = true) :
    M.Along (fun s l _ => StartsAlone T s l) s ls := by
  refine Along.mono (fun s l _ halone => ?_) ls (along_of_aloneCheck ls (fun t _ => h0 t) h)
  intro t k hl hk u th hu hth
  exact halone t k hl (decide_eq_true hk) u th hu (decide_eq_true hth)

end Machine

end Interleave
