import Mathlib.Data.List.Dedup
import GoCourier.Handover.Published
import GoCourier.Rows.Writes
import GoCourier.Services.Consumers

/- How often a message is handed to a handler. The stream keeps its messages, and each
   durable consumer has a copy of every one. A copy is handed out once unless its handler
   naks it or takes too long; so a message is worked as often as there are consumers, and
   there is one for each number `Run` counts to. -/
namespace GoCourier

open Interleave

/-- What happens to the copies. -/
inductive CopyTurn (p : Params) (s : System) : Act → System → Prop where
  | same {l : Act} {s' : System} (other : ∀ t proc i c m, l ≠ .start t (.handle proc i c m))
      (copies : s'.state.copies = s.state.copies) : CopyTurn p s l s'
  | handedOut {t proc i c : Nat} {m : Message} {s' : System} (present : s.state.stream[i]? = some m)
      (known : c < p.consumers) (due : (s.state.copies (i, c)).Due p)
      (copies : s'.state.copies = Function.update s.state.copies (i, c)
        { s.state.copies (i, c) with delivered := (s.state.copies (i, c)).delivered + 1, busy := true })
      (stream : s'.state.stream = s.state.stream) :
      CopyTurn p s (.start t (.handle proc i c m)) s'
  | acked {t i c : Nat} {k : Task} {φ : Phase} {f : Ans (.ack i c) → CallTree Op Ans Result} {s' : System}
      (running : s.threads t = some ⟨k, φ, .ask (.ack i c) f⟩)
      (copies : s'.state.copies = Function.update s.state.copies (i, c)
        { s.state.copies (i, c) with acked := true, busy := false }) : CopyTurn p s (.call t .run) s'
  | nakked {t i c : Nat} {k : Task} {φ : Phase} {f : Ans (.nak i c) → CallTree Op Ans Result} {s' : System}
      (running : s.threads t = some ⟨k, φ, .ask (.nak i c) f⟩)
      (copies : s'.state.copies = Function.update s.state.copies (i, c) { s.state.copies (i, c) with busy := false }) :
      CopyTurn p s (.call t .run) s'
  | expired {i c : Nat} {s' : System}
      (copies : s'.state.copies = Function.update s.state.copies (i, c) { s.state.copies (i, c) with busy := false }) :
      CopyTurn p s (.move (.ackWait i c)) s'

section
variable {p : Params} {s s' : System} {l : Act}

theorem copies_step (hs : (machine p).Step s l s') : CopyTurn p s l s' := by
  cases hs with
  | @start t k w free entered =>
    have entered : s.state.enter p k = some w := entered
    cases k with
    | handle proc i c m =>
      simp only [World.enter] at entered
      split at entered
      · rename_i hok
        cases entered
        exact .handedOut hok.1 hok.2.1 hok.2.2 rfl rfl
      · cases entered
    | _ =>
      cases entered
      exact .same nofun rfl
  | @call t c k φ op f r w running answered =>
    have hans := answer_cases (p := p) answered
    cases hans with
    | ack i c => exact .acked running rfl
    | nak i c => exact .nakked running rfl
    | ran q => exact .same nofun (exec_rest p s.state q).2.1
    | lost q msg => exact .same nofun (exec_rest p s.state q).2.1
    | _ => exact .same nofun rfl
  | crash running => exact .same nofun rfl
  | @move m w moved =>
    have moved : s.state.move m = some w := moved
    cases m with
    | clock t =>
      cases moved
      exact .same nofun rfl
    | ackWait i c =>
      simp only [World.move] at moved
      split at moved
      · cases moved
        exact .expired rfl
      · cases moved

/-- Only a handler of the copy acks it. -/
theorem ack_task (hc : (machine p).Conforms (protocol p) s) {t i c : Nat} {k : Task} {φ : Phase}
    {f : Ans (.ack i c) → CallTree Op Ans Result} (h : s.threads t = some ⟨k, φ, .ask (.ack i c) f⟩) :
    ∃ proc m, k = .handle proc i c m := by
  have hm : May p k φ (.ack i c) := hc.may h
  cases φ with
  | worker φ =>
    cases k with
    | handle proc j d m =>
      obtain ⟨hcopy, -⟩ := hm
      cases hcopy
      exact ⟨proc, m, rfl⟩
    | dispatch proc id => exact hm.1.elim
    | _ => exact hm.elim
  | _ => cases k <;> exact hm.elim

/-- A step leaves the streams alone, or is a `Publish` whose message goes to one of them. -/
theorem posts_step (hs : (machine p).Step s l s') :
    (s'.state.stream = s.state.stream ∧ s'.state.deadLetters = s.state.deadLetters) ∨
      ∃ t c k φ subject body headers f, l = .call t c ∧ c.Effective ∧
        s.threads t = some ⟨k, φ, .ask (.remote (.publish subject body headers)) f⟩ ∧
        (subject ∈ allNotificationSubjects p.streamPrefix ∧
            s'.state.stream = s.state.stream ++ [⟨subject, body, headers⟩] ∧
            s'.state.deadLetters = s.state.deadLetters ∨
          subject ∉ allNotificationSubjects p.streamPrefix ∧ s'.state.stream = s.state.stream ∧
            s'.state.deadLetters = s.state.deadLetters ++ [⟨subject, body, headers⟩]) := by
  cases hs with
  | start free entered => exact .inl (enter_streams entered)
  | @call t c k φ op f r w running answered =>
    have hans := answer_cases (p := p) answered
    cases hans with
    | ran q =>
      rcases exec_posts p s.state q with h | ⟨subject, body, headers, rfl, h⟩
      · exact .inl h
      · exact .inr ⟨t, _, k, φ, subject, body, headers, f, rfl, trivial, running, h⟩
    | lost q msg =>
      rcases exec_posts p s.state q with h | ⟨subject, body, headers, rfl, h⟩
      · exact .inl h
      · exact .inr ⟨t, _, k, φ, subject, body, headers, f, rfl, trivial, running, h⟩
    | _ => exact .inl ⟨rfl, rfl⟩
  | crash running => exact .inl ⟨rfl, rfl⟩
  | move moved => exact .inl (move_streams moved)

/-- A message the stream gets is a published one, on one of its subjects. -/
theorem stream_step (hs : (machine p).Step s l s') :
    s'.state.stream = s.state.stream ∨ ∃ t c k φ subject body headers f, l = .call t c ∧ c.Effective ∧
      s.threads t = some ⟨k, φ, .ask (.remote (.publish subject body headers)) f⟩ ∧
      subject ∈ allNotificationSubjects p.streamPrefix ∧ s'.state.stream = s.state.stream ++ [⟨subject, body, headers⟩] := by
  rcases posts_step hs with ⟨h, -⟩ | ⟨t, c, k, φ, subject, body, headers, f, hl, heff, hth, ⟨hsub, h, -⟩ | ⟨-, h, -⟩⟩
  · exact .inl h
  · exact .inr ⟨t, c, k, φ, subject, body, headers, f, hl, heff, hth, hsub, h⟩
  · exact .inl h

end

/-! A message nobody naks. -/

/-- The consumer whose copy of message `i` the step hands to a handler. -/
def handOuts (i : Nat) (_ : System) : Act → List Nat
  | .start _ (.handle _ j c _) => if j = i then [c] else []
  | _ => []

/-- The handlers of message `i` return nil within `AckWait`: none naks, and no copy is taken back. -/
structure NilInTime (i : Nat) (s : System) (l : Act) : Prop where
  returnsNil : ∀ t a c k φ f, l = .call t a → s.threads t ≠ some ⟨k, φ, .ask (.nak i c) f⟩
  inTime : ∀ c, l ≠ .move (.ackWait i c)

/-- The copies of message `i` after it was handed to the consumers `cs`. -/
structure Dealt (p : Params) (i : Nat) (s : System) (cs : List Nat) : Prop where
  conforms : (machine p).Conforms (protocol p) s
  known : ∀ c ∈ cs, c < p.consumers
  once : cs.Nodup
  fresh : ∀ c, c ∉ cs → s.state.copies (i, c) = {}
  held : ∀ c ∈ cs, (s.state.copies (i, c)).acked = true ∨ (s.state.copies (i, c)).busy = true
  handled : ∀ t proc c m φ prog, s.threads t = some ⟨.handle proc i c m, φ, prog⟩ → c ∈ cs
  taken : ∀ m ∈ s.state.stream, Takes p.streamPrefix m.subject

section
variable {p : Params} {s s' : System} {l : Act} {i : Nat} {cs : List Nat}

theorem handOuts_nil (h : ∀ t proc i c m, l ≠ .start t (.handle proc i c m)) : handOuts i s l = [] := by
  cases l with
  | start t k =>
    cases k with
    | handle proc j c m => exact absurd rfl (h t proc j c m)
    | _ => rfl
  | _ => rfl

theorem dealt_handled_step (h : Dealt p i s cs) (hs : (machine p).Step s l s') {t proc c : Nat} {m : Message} {φ : Phase}
    {prog : CallTree Op Ans Result} (hth : s'.threads t = some ⟨.handle proc i c m, φ, prog⟩) :
    c ∈ cs ++ handOuts i s l := by
  rcases hs.origin_cases hth with ⟨before, -⟩ | ⟨label, -, -⟩ | ⟨a, ψ, op, f, r, -, running, -, -⟩
  · exact List.mem_append_left _ (h.handled t proc c m φ prog before)
  · subst label
    exact List.mem_append_right _ (by simp [handOuts])
  · exact List.mem_append_left _ (h.handled t proc c m ψ _ running)

theorem dealt_taken_step (h : Dealt p i s cs) (hs : (machine p).Step s l s') {m : Message} (hm : m ∈ s'.state.stream) :
    Takes p.streamPrefix m.subject := by
  rcases stream_step hs with hsame | ⟨t, c, k, φ, subject, body, headers, f, -, -, -, hsub, hgrown⟩
  · exact h.taken m (hsame ▸ hm)
  · rw [hgrown] at hm
    rcases List.mem_append.mp hm with hold | hnew
    · exact h.taken m hold
    · obtain rfl := List.mem_singleton.mp hnew
      exact taken_of_mem hsub

/-- A step that leaves the copies of message `i` alone. -/
theorem dealt_same (h : Dealt p i s cs) (hs : (machine p).Step s l s') (hnone : handOuts i s l = [])
    (hsame : ∀ c, s'.state.copies (i, c) = s.state.copies (i, c)) : Dealt p i s' (cs ++ handOuts i s l) where
  conforms := Machine.conforms_step h.conforms hs
  known := by
    rw [hnone, List.append_nil]
    exact h.known
  once := by
    rw [hnone, List.append_nil]
    exact h.once
  fresh := by
    intro c hc
    rw [hsame]
    rw [hnone, List.append_nil] at hc
    exact h.fresh c hc
  held := by
    intro c hc
    rw [hsame]
    rw [hnone, List.append_nil] at hc
    exact h.held c hc
  handled _ _ _ _ _ _ := dealt_handled_step h hs
  taken _ := dealt_taken_step h hs

/-- The copy handed out is a new one: one handed out before is acked or with its handler. -/
theorem dealt_handedOut (h : Dealt p i s cs) {t proc d : Nat} {m : Message} {a : Copy}
    (hs : (machine p).Step s (.start t (.handle proc i d m)) s') (known : d < p.consumers)
    (due : (s.state.copies (i, d)).Due p) (hbusy : a.busy = true)
    (copies : s'.state.copies = Function.update s.state.copies (i, d) a) :
    Dealt p i s' (cs ++ handOuts i s (.start t (.handle proc i d m))) := by
  have hnew : d ∉ cs := by
    intro hd
    rcases h.held d hd with hacked | hbusy
    · rw [due.1] at hacked
      cases hacked
    · rw [due.2.1] at hbusy
      cases hbusy
  have hother : ∀ c, c ≠ d → s'.state.copies (i, c) = s.state.copies (i, c) := by
    intro c hcd
    rw [copies, Function.update_of_ne fun h => hcd (congrArg Prod.snd h)]
  have hdealt : handOuts i s (.start t (.handle proc i d m)) = [d] := if_pos rfl
  refine ⟨Machine.conforms_step h.conforms hs, ?_, ?_, ?_, ?_, fun _ _ _ _ _ _ => dealt_handled_step h hs,
    fun _ => dealt_taken_step h hs⟩
  · intro c hmem
    rcases List.mem_append.mp hmem with hmem | hmem
    · exact h.known c hmem
    · rw [hdealt, List.mem_singleton] at hmem
      exact hmem ▸ known
  · rw [hdealt]
    exact h.once.append (List.nodup_singleton d) (List.disjoint_singleton.mpr hnew)
  · intro c hmem
    rw [hdealt, List.mem_append, not_or, List.mem_singleton] at hmem
    rw [hother c hmem.2]
    exact h.fresh c hmem.1
  · intro c hmem
    rw [hdealt, List.mem_append, List.mem_singleton] at hmem
    by_cases hcd : c = d
    · right
      rw [hcd, copies, Function.update_self]
      exact hbusy
    · rw [hother c hcd]
      exact h.held c (hmem.resolve_right hcd)

/-- Only a handler that has the copy acks it. -/
theorem dealt_acked (h : Dealt p i s cs) {t j d : Nat} {k : Task} {φ : Phase} {f : Ans (.ack j d) → CallTree Op Ans Result}
    {a : Copy} (hs : (machine p).Step s (.call t .run) s') (running : s.threads t = some ⟨k, φ, .ask (.ack j d) f⟩)
    (hacked : a.acked = true) (copies : s'.state.copies = Function.update s.state.copies (j, d) a) :
    Dealt p i s' (cs ++ handOuts i s (.call t .run)) := by
  have hnone : handOuts i s (.call t .run) = [] := rfl
  rw [hnone, List.append_nil]
  refine ⟨Machine.conforms_step h.conforms hs, h.known, h.once, ?_, ?_, fun _ _ _ _ _ _ hth => ?_,
    fun _ => dealt_taken_step h hs⟩
  · intro c hmem
    have hne : (i, c) ≠ (j, d) := by
      intro heq
      obtain ⟨rfl, rfl⟩ := Prod.mk.inj heq
      obtain ⟨proc, m, rfl⟩ := ack_task h.conforms running
      exact hmem (h.handled t proc c m φ _ running)
    rw [copies, Function.update_of_ne hne]
    exact h.fresh c hmem
  · intro c hmem
    by_cases heq : (i, c) = (j, d)
    · left
      rw [heq, copies, Function.update_self]
      exact hacked
    · rw [copies, Function.update_of_ne heq]
      exact h.held c hmem
  · have hmem := dealt_handled_step h hs hth
    rwa [hnone, List.append_nil] at hmem

theorem dealt_step (h : Dealt p i s cs) (hok : NilInTime i s l) (hs : (machine p).Step s l s') :
    Dealt p i s' (cs ++ handOuts i s l) := by
  have hapart : ∀ {j d : Nat} {a : Copy}, j ≠ i → s'.state.copies = Function.update s.state.copies (j, d) a →
      ∀ c, s'.state.copies (i, c) = s.state.copies (i, c) := by
    intro j d a hj copies c
    rw [copies, Function.update_of_ne fun h => hj (congrArg Prod.fst h).symm]
  cases copies_step hs with
  | same other copies => exact dealt_same h hs (handOuts_nil other) fun c => by rw [copies]
  | @handedOut t proc j d m _ present known due copies stream =>
    by_cases hj : j = i
    · subst hj
      exact dealt_handedOut h hs known due rfl copies
    · exact dealt_same h hs (if_neg hj) (hapart hj copies)
  | acked running copies => exact dealt_acked h hs running rfl copies
  | @nakked t j d k φ f _ running copies =>
    refine dealt_same h hs rfl (hapart ?_ copies)
    intro hj
    subst hj
    exact hok.returnsNil t _ d k φ f rfl running
  | @expired j d _ copies =>
    refine dealt_same h hs rfl (hapart ?_ copies)
    intro hj
    subst hj
    exact hok.inTime d rfl

/-- When no copy of message `i` is left to hand out, each consumer has had it once. -/
theorem dealt_to_all (h : Dealt p i s cs) (hdone : ∀ c < p.consumers, ¬ (s.state.copies (i, c)).Due p) :
    cs.Perm (List.range p.consumers) := by
  refine (List.perm_ext_iff_of_nodup h.once List.nodup_range).mpr fun c => ⟨fun hc => ?_, fun hc => ?_⟩
  · exact List.mem_range.mpr (h.known c hc)
  · by_contra hnew
    apply hdone c (List.mem_range.mp hc)
    rw [h.fresh c hnew]
    refine ⟨rfl, rfl, ?_⟩
    by_cases hmax : p.maxDeliver ≤ 0
    · exact .inl hmax
    · exact .inr (not_le.mp hmax)

/-- For every number of processes and any order of steps: a message whose handlers return nil in time is
    handed to one handler for each durable consumer, so to exactly one if and only if `Run` starts one. -/
theorem message_worked_once_iff (p : Params) (i : Nat) (m : Message) (ls : List Act) (s : System)
    (hok : (machine p).Along (fun s l _ => NilInTime i s l) (System.init p) ls)
    (hrun : (machine p).run (System.init p) ls = some s) (hm : s.state.stream[i]? = some m)
    (hdone : ∀ c < p.consumers, ¬ (s.state.copies (i, c)).Due p) :
    Takes p.streamPrefix m.subject ∧
      ((machine p).collect (handOuts i) (System.init p) ls).length = (durableNames p).dedup.length ∧
      (((machine p).collect (handOuts i) (System.init p) ls).length = 1 ↔ p.concurrency ≤ 1) := by
  have h0 : Dealt p i (System.init p) [] := by
    refine ⟨init_conforms p, ?_, List.nodup_nil, fun c _ => rfl, ?_, fun t proc c m φ prog hth => ?_, ?_⟩
    · intro c hc
      cases hc
    · intro c hc
      cases hc
    · cases hth
    · intro m hm
      cases hm
  have h : Dealt p i s ([] ++ (machine p).collect (handOuts i) (System.init p) ls) :=
    Machine.collect_invariant (fun s cs l s' h hs hb => dealt_step h hb hs) ls h0 hok hrun
  have hperm := dealt_to_all h hdone
  have hlength : ((machine p).collect (handOuts i) (System.init p) ls).length = p.consumers := by
    rw [← List.length_range (n := p.consumers), ← hperm.length_eq, List.nil_append]
  refine ⟨h.taken m (List.mem_of_getElem? hm), ?_, ?_⟩
  · rw [hlength, List.dedup_eq_self.mpr (durableNames_nodup p), durableNames, List.length_map, List.length_range]
  · rw [hlength, Params.consumers]
    split <;> omega

end

/-- `NilInTime`, at fixed inputs. -/
def nilCheck (i : Nat) (s : System) : Act → Bool
  | .call t _ => match s.threads t with
    | some ⟨_, _, .ask (.nak j _) _⟩ => j ≠ i
    | _ => true
  | .move (.ackWait j _) => j ≠ i
  | _ => true

theorem nilInTime_of_check {i : Nat} {s : System} {l : Act} (h : nilCheck i s l = true) : NilInTime i s l := by
  constructor
  · intro t a c k φ f hl hth
    subst hl
    simp only [nilCheck, hth, ne_eq, not_true, decide_false] at h
    cases h
  · intro c hl
    subst hl
    simp only [nilCheck, ne_eq, not_true, decide_false] at h
    cases h

theorem along_nilInTime {p : Params} {i : Nat} {s : System} {ls : List Act}
    (h : (machine p).check (nilCheck i) s ls = true) : (machine p).Along (fun s l _ => NilInTime i s l) s ls :=
  Machine.Along.mono (fun _ _ _ => nilInTime_of_check) ls (Machine.along_of_check ls h)

/-- Consumer 0 works the message of `d1` and acks it. -/
def workedOnce : List Act :=
  ingestCalls 0 "d1" ++ publishCalls 1 ++ .start 2 (.handle 0 0 0 (sampleMessage "d1")) ::
    attemptCalls 2 "a1" (.ok {}) ++ runs 2 6

/-- So does consumer 1, in another process; it finds the delivery succeeded. -/
def workedTwice : List Act := workedOnce ++ .start 3 (.handle 1 0 1 (sampleMessage "d1")) :: runs 3 2

theorem message_worked_once_iff_sample :
    ∃ s, (machine { concurrency := 1 }).run (System.init { concurrency := 1 }) workedOnce = some s ∧
      (((machine { concurrency := 1 }).collect (handOuts 0) (System.init { concurrency := 1 }) workedOnce).length = 1 ↔
        (1 : Int) ≤ 1) := by
  have hrun : ((machine { concurrency := 1 }).run (System.init { concurrency := 1 }) workedOnce).map (fun s =>
      (s.state.stream[0]?, s.state.copies (0, 0))) =
        some (some (sampleMessage "d1"), { delivered := 1, acked := true, busy := false }) := by
    decide +kernel
  obtain ⟨s, hs, hparts⟩ := Option.map_eq_some_iff.mp hrun
  rw [Prod.mk.injEq] at hparts
  have hok : (machine { concurrency := 1 }).Along (fun s l _ => NilInTime 0 s l) (System.init { concurrency := 1 })
      workedOnce :=
    along_nilInTime (by decide +kernel)
  have hdone : ∀ c < ({ concurrency := 1 } : Params).consumers,
      ¬ (s.state.copies (0, c)).Due { concurrency := 1 } := by
    intro c hc
    have hzero : c = 0 := Nat.lt_one_iff.mp hc
    rw [hzero, hparts.2]
    decide
  exact ⟨s, hs, (message_worked_once_iff { concurrency := 1 } 0 _ workedOnce s hok hs hparts.1 hdone).2.2⟩

/-- With two consumers one message, whose handlers return nil in time, is worked twice. -/
theorem worked_twice :
    (machine { concurrency := 2 }).Along (fun s l _ => NilInTime 0 s l) (System.init { concurrency := 2 }) workedTwice ∧
      ∃ s, (machine { concurrency := 2 }).run (System.init { concurrency := 2 }) workedTwice = some s ∧
        s.state.stream = [sampleMessage "d1"] ∧
        (machine { concurrency := 2 }).collect (handOuts 0) (System.init { concurrency := 2 }) workedTwice = [0, 1] := by
  constructor
  · exact along_nilInTime (by decide +kernel)
  · have hrun : ((machine { concurrency := 2 }).run (System.init { concurrency := 2 }) workedTwice).map (·.state.stream) =
        some [sampleMessage "d1"] := by
      decide +kernel
    obtain ⟨s, hs, hstream⟩ := Option.map_eq_some_iff.mp hrun
    exact ⟨s, hs, hstream, by decide +kernel⟩

end GoCourier
