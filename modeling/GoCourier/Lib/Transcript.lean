import GoCourier.Lib.CallTree

/- What a program has said to its environment when it is done. A transcript is the calls
   of one run with their answers, in order; the environment may answer each as `sees`
   allows, so a program stands for all its transcripts. The discipline `logging` allows
   every call and keeps the transcript as its phase: the rules of `Obeys` prove things of
   all transcripts of a program without looking at the program's tree.

   A transcript says what the program was told, not what was done. A call that was served
   by a state carries that state and the one after it. -/
namespace Interleave

/-- A call and its answer. -/
structure Exchange (Op : Type) (Ans : Op → Type) where
  op : Op
  ans : Ans op

/-- A call and its answer, with the states it was made in and has left. -/
structure Served {Op : Type} {Ans : Op → Type} {σ Choice : Type}
    (answer : (op : Op) → Choice → σ → Option (Ans op × σ)) where
  op : Op
  choice : Choice
  before : σ
  ans : Ans op
  after : σ
  answered : answer op choice before = some (ans, after)

section
variable {Op : Type} {Ans : Op → Type} {α σ Choice : Type} {answer : (op : Op) → Choice → σ → Option (Ans op × σ)}

def Served.exchange (c : Served answer) : Exchange Op Ans := ⟨c.op, c.ans⟩

variable (sees : (op : Op) → Ans op → Prop)

/-- The tree can be run with these exchanges, and ends in `a` then. -/
inductive Transcript : CallTree Op Ans α → List (Exchange Op Ans) → α → Prop where
  | done (a : α) : Transcript (.done a) [] a
  | ask {op : Op} {k : Ans op → CallTree Op Ans α} {r : Ans op} {log : List (Exchange Op Ans)} {a : α} (seen : sees op r)
      (rest : Transcript (k r) log a) : Transcript (.ask op k) (⟨op, r⟩ :: log) a

def logging : Discipline Op Ans (List (Exchange Op Ans)) where
  may _ _ := True
  next log op r := log ++ [⟨op, r⟩]
  sees := sees

variable {sees} {Q : List (Exchange Op Ans) → α → Prop}

theorem obeys_of_transcripts : ∀ (T : CallTree Op Ans α) (before : List (Exchange Op Ans)),
    (∀ log a, Transcript sees T log a → Q (before ++ log) a) → Obeys (logging sees) T before Q
  | .done a, before, h => by
    have hdone := h [] a (.done a)
    rwa [List.append_nil] at hdone
  | .ask op k, before, h => by
    refine ⟨trivial, fun r hr => obeys_of_transcripts (k r) _ fun log a hlog => ?_⟩
    have hask := h (⟨op, r⟩ :: log) a (.ask hr hlog)
    rwa [List.append_cons] at hask

/-- What is proved of the logging discipline holds of every transcript. -/
theorem transcript_of_obeys {T : CallTree Op Ans α} {log : List (Exchange Op Ans)} {a : α} (h : Transcript sees T log a) :
    ∀ {before : List (Exchange Op Ans)}, Obeys (logging sees) T before Q → Q (before ++ log) a := by
  induction h with
  | done a =>
    intro before hobeys
    rw [List.append_nil]
    exact hobeys
  | @ask op k r log a hseen hrest ih =>
    intro before hobeys
    have hnext := ih (hobeys.2 r hseen)
    rwa [List.append_cons]

theorem obeys_iff_transcripts {T : CallTree Op Ans α} :
    Obeys (logging sees) T [] Q ↔ ∀ log a, Transcript sees T log a → Q log a :=
  ⟨fun h _ _ hlog => transcript_of_obeys hlog h, fun h => obeys_of_transcripts T [] h⟩

/-- A tree that is run alone has been served. -/
theorem served_of_solo (choose : Op → Choice) (hsees : ∀ op c w r w', answer op c w = some (r, w') → sees op r) :
    ∀ {T : CallTree Op Ans α} {w w' : σ} {a : α}, CallTree.solo (fun op => answer op (choose op)) T w = some (a, w') →
      ∃ calls : List (Served answer), Transcript sees T (calls.map Served.exchange) a
  | .done a, _, _, _, h => by
    cases h
    exact ⟨[], .done a⟩
  | .ask op k, w, w', a, h => by
    rw [CallTree.solo] at h
    split at h
    · rename_i r w₁ hanswer
      obtain ⟨calls, hcalls⟩ := served_of_solo choose hsees h
      exact ⟨⟨op, choose op, w, r, w₁, hanswer⟩ :: calls, .ask (hsees op _ w r w₁ hanswer) hcalls⟩
    · cases h

end

end Interleave
