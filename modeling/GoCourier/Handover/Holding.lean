import GoCourier.Handover.Copies

/- Which handler has which copy. Where no call fails and no handler is too slow, a handler
   has its copy from the moment it is handed out until it acks or naks it, and nobody else
   has it meanwhile. So what becomes of a copy is in the hands of one handler, and it can be
   read off the phase of its dispatch. -/
namespace GoCourier

open Interleave

/-- No crash and no failing call, one scheduler process, handlers that finish within `AckWait`, and
    no dispatches but theirs. -/
structure Reliable (s : System) (l : Act) : Prop where
  faultFree : FaultFree s l
  scheduler : OneScheduler s l
  inTime : ∀ i c, l ≠ .move (.ackWait i c)
  handled : ∀ t proc id, l ≠ .start t (.dispatch proc id)

/-- The handler of thread `t` has consumer `c`'s copy of message `i`. -/
def Holder (s : System) (t i c : Nat) : Prop :=
  ∃ proc m φ prog, s.threads t = some ⟨.handle proc i c m, .worker φ, prog⟩ ∧ φ ≠ .closed

structure Holding (p : Params) (s : System) : Prop where
  conforms : (machine p).Conforms (protocol p) s
  handlers : ∀ t k φ prog, s.threads t = some ⟨k, .worker φ, prog⟩ →
    ∃ proc i c m, k = .handle proc i c m ∧ s.state.stream[i]? = some m ∧ c < p.consumers
  held : ∀ t i c, Holder s t i c → (s.state.copies (i, c)).acked = false ∧ (s.state.copies (i, c)).busy = true
  apart : ∀ t u i c, Holder s t i c → Holder s u i c → t = u
  spare : ∀ i c, s.state.stream.length ≤ i → s.state.copies (i, c) = {}

section
variable {p : Params} {s s' : System} {l : Act}

theorem init_holding (p : Params) : Holding p (System.init p) where
  conforms := init_conforms p
  handlers := by
    intro t k φ prog h
    cases h
  held := by
    intro t i c h
    obtain ⟨proc, m, φ, prog, h, -⟩ := h
    cases h
  apart := by
    intro t u i c h
    obtain ⟨proc, m, φ, prog, h, -⟩ := h
    cases h
  spare := by
    intro i c _
    rfl

/-- A dispatch that is done with its message does nothing more. -/
theorem closed_moves {target : String → Prop} {copy : Nat × Nat → Prop} {φ : WorkerPhase} {op : Op} {r : Ans op}
    (h : WorkerMoves p target copy .closed op r φ) : φ = .closed := by
  cases h with
  | settled settles u => cases settles
  | recorded records u => cases records
  | unsettled settles e => cases settles
  | unrecorded records e => cases records
  | acked own quiet u => cases quiet
  | nakked own loud u => cases loud
  | _ => rfl

/-- A handler gets its copy when it starts. -/
theorem holder_origin (hc : (machine p).Conforms (protocol p) s) (hs : (machine p).Step s l s') {t i c : Nat}
    (h : Holder s' t i c) : Holder s t i c ∨ ∃ proc m, l = .start t (.handle proc i c m) := by
  obtain ⟨proc, m, φ, prog, hth, hφ⟩ := h
  rcases hs.origin_cases hth with ⟨before, -⟩ | ⟨label, -, -⟩ | ⟨a, ψ, op, f, r, -, running, -, hnext⟩
  · exact .inl ⟨proc, m, φ, prog, before, hφ⟩
  · exact .inr ⟨proc, m, label⟩
  · have hm : May p (.handle proc i c m) ψ op := hc.may running
    cases ψ with
    | worker ψ =>
      cases hnext
      refine .inl ⟨proc, m, ψ, _, running, ?_⟩
      intro hclosed
      subst hclosed
      exact hφ (closed_moves (worker_moves (worker_may hm) r))
    | _ => exact hm.elim

/-- Who acks or naks a copy has it, and is done with it afterwards. -/
theorem holder_of_answer (hc : (machine p).Conforms (protocol p) s) {t i c : Nat} {k : Task} {φ : Phase} {op : Op}
    {f : Ans op → CallTree Op Ans Result} (hop : op = .ack i c ∨ op = .nak i c)
    (h : s.threads t = some ⟨k, φ, .ask op f⟩) : Holder s t i c ∧ ∀ r, φ.next op r = .worker .closed := by
  have hm : May p k φ op := hc.may h
  cases φ with
  | worker φ =>
    have hw := worker_may hm
    have hcopy : k.Copies (i, c) ∧ φ ≠ .closed := by
      rcases hop with rfl | rfl
      · refine ⟨hw.1, fun hφ => ?_⟩
        subst hφ
        cases hw.2
      · refine ⟨hw.1, fun hφ => ?_⟩
        subst hφ
        cases hw.2
    cases k with
    | handle proc j d m =>
      cases hcopy.1
      refine ⟨⟨proc, m, φ, _, h, hcopy.2⟩, fun r => ?_⟩
      rcases hop with rfl | rfl <;> rfl
    | _ => exact hcopy.1.elim
  | _ =>
    rcases hop with rfl | rfl <;> cases k <;> exact hm.elim

/-- The stream keeps its messages in their places. -/
theorem present_step (hs : (machine p).Step s l s') {i : Nat} {m : Message} (hi : s.state.stream[i]? = some m) :
    s'.state.stream[i]? = some m := by
  obtain ⟨ms, hms⟩ := (streams_step hs).1
  obtain ⟨hlt, -⟩ := List.getElem?_eq_some_iff.mp hi
  rw [← hms, List.getElem?_append_left hlt]
  exact hi

/-- The message of a handler is the one its copy is of. -/
theorem handlers_step (h : Holding p s) (hok : Reliable s l) (hs : (machine p).Step s l s') {t : Nat} {k : Task}
    {φ : WorkerPhase} {prog : CallTree Op Ans Result} (hth : s'.threads t = some ⟨k, .worker φ, prog⟩) :
    ∃ proc i c m, k = .handle proc i c m ∧ s'.state.stream[i]? = some m ∧ c < p.consumers := by
  rcases hs.origin_cases hth with ⟨before, -⟩ | ⟨label, entered, hfirst⟩ | ⟨a, ψ, op, f, r, -, running, -, hnext⟩
  · obtain ⟨proc, i, c, m, rfl, hi, hlt⟩ := h.handlers t k φ prog before
    exact ⟨proc, i, c, m, rfl, present_step hs hi, hlt⟩
  · cases k with
    | handle proc i c m =>
      have entered : s.state.enter p (.handle proc i c m) = some s'.state := entered
      simp only [World.enter] at entered
      split at entered
      · rename_i hgot
        exact ⟨proc, i, c, m, rfl, present_step hs hgot.1, hgot.2.1⟩
      · cases entered
    | dispatch proc id => exact absurd label (hok.handled t proc id)
    | _ => cases hfirst
  · cases ψ with
    | worker ψ =>
      obtain ⟨proc, i, c, m, rfl, hi, hlt⟩ := h.handlers t k ψ _ running
      exact ⟨proc, i, c, m, rfl, present_step hs hi, hlt⟩
    | _ => cases hnext

/-- The copies of a message that is not there yet are new, also after the step that puts it there. -/
theorem spare_step (h : Holding p s) (hok : Reliable s l) (hs : (machine p).Step s l s') {i c : Nat}
    (hi : s.state.stream.length ≤ i) : s'.state.copies (i, c) = {} := by
  have hspare := h.spare i c hi
  -- a copy that a handler has is no new one
  have hheld : ∀ {t j d k φ op f}, op = .ack j d ∨ op = .nak j d → s.threads t = some ⟨k, φ, .ask op f⟩ →
      (i, c) ≠ (j, d) := by
    intro t j d k φ op f hop running heq
    cases heq
    have hbusy := (h.held t i c (holder_of_answer h.conforms hop running).1).2
    rw [hspare] at hbusy
    cases hbusy
  cases copies_step hs with
  | same other copies => rw [copies, hspare]
  | @handedOut t proc j d m _ present known due copies stream =>
    rw [copies, Function.update_of_ne, hspare]
    intro heq
    cases heq
    have hlt := (List.getElem?_eq_some_iff.mp present).1
    omega
  | acked running copies => rw [copies, Function.update_of_ne (hheld (.inl rfl) running), hspare]
  | nakked running copies => rw [copies, Function.update_of_ne (hheld (.inr rfl) running), hspare]
  | expired copies => exact absurd rfl (hok.inTime _ _)

/-- A step in which nobody takes a copy and nobody gives one back. -/
theorem holding_same (h : Holding p s) (hok : Reliable s l) (hs : (machine p).Step s l s')
    (hcopies : s'.state.copies = s.state.copies) (hholder : ∀ t i c, Holder s' t i c → Holder s t i c) :
    Holding p s' where
  conforms := Machine.conforms_step h.conforms hs
  handlers _ _ _ _ := handlers_step h hok hs
  held := by
    intro t i c ht
    rw [hcopies]
    exact h.held t i c (hholder t i c ht)
  apart := by
    intro t u i c ht hu
    exact h.apart t u i c (hholder t i c ht) (hholder u i c hu)
  spare i c hi := spare_step h hok hs (le_trans (streams_step hs).1.length_le hi)

/-- A step in which the handler that has a copy gives it back. -/
theorem holding_given (h : Holding p s) (hok : Reliable s l) (hs : (machine p).Step s l s') {t i c : Nat} {a : Copy}
    (ht : Holder s t i c) (hgone : ¬ Holder s' t i c)
    (hcopies : s'.state.copies = Function.update s.state.copies (i, c) a) (hstart : ∀ u k, l ≠ .start u k) :
    Holding p s' := by
  have hc := h.conforms
  have hold : ∀ u j d, Holder s' u j d → Holder s u j d := by
    intro u j d hu
    rcases holder_origin hc hs hu with hu | ⟨proc, m, hl⟩
    · exact hu
    · exact absurd hl (hstart u _)
  have hother : ∀ u j d, Holder s' u j d → s'.state.copies (j, d) = s.state.copies (j, d) := by
    intro u j d hu
    rw [hcopies]
    apply Function.update_of_ne
    intro heq
    cases heq
    have htu : t = u := h.apart t u i c ht (hold u i c hu)
    subst htu
    exact hgone hu
  refine ⟨Machine.conforms_step hc hs, fun _ _ _ _ => handlers_step h hok hs, ?_, ?_, ?_⟩
  · intro u j d hu
    rw [hother u j d hu]
    exact h.held u j d (hold u j d hu)
  · intro u v j d hu hv
    exact h.apart u v j d (hold u j d hu) (hold v j d hv)
  · intro j d hj
    exact spare_step h hok hs (le_trans (streams_step hs).1.length_le hj)

/-- A step in which a handler starts on a copy that was free. -/
theorem holding_taken {t₀ proc₀ i₀ c₀ : Nat} {m₀ : Message} (h : Holding p s)
    (hok : Reliable s (.start t₀ (.handle proc₀ i₀ c₀ m₀)))
    (hs : (machine p).Step s (.start t₀ (.handle proc₀ i₀ c₀ m₀)) s')
    (due : (s.state.copies (i₀, c₀)).Due p)
    (hcopies : s'.state.copies = Function.update s.state.copies (i₀, c₀)
      { s.state.copies (i₀, c₀) with delivered := (s.state.copies (i₀, c₀)).delivered + 1, busy := true }) :
    Holding p s' := by
  have hc := h.conforms
  have hnew : ∀ u j d, Holder s' u j d → Holder s u j d ∨ (u = t₀ ∧ j = i₀ ∧ d = c₀) := by
    intro u j d hu
    rcases holder_origin hc hs hu with hu | ⟨proc, m, hl⟩
    · exact .inl hu
    · cases hl
      exact .inr ⟨rfl, rfl, rfl⟩
  -- nobody had the copy, for it was not with a handler
  have hfree : ∀ u, ¬ Holder s u i₀ c₀ := by
    intro u hu
    have hbusy := (h.held u i₀ c₀ hu).2
    rw [due.2.1] at hbusy
    cases hbusy
  refine ⟨Machine.conforms_step hc hs, fun _ _ _ _ => handlers_step h hok hs, ?_, ?_, ?_⟩
  · intro u j d hu
    rw [hcopies]
    by_cases heq : (j, d) = (i₀, c₀)
    · rw [heq, Function.update_self]
      exact ⟨due.1, rfl⟩
    · rw [Function.update_of_ne heq]
      rcases hnew u j d hu with hold | ⟨-, rfl, rfl⟩
      · exact h.held u j d hold
      · exact absurd rfl heq
  · intro u v j d hu hv
    rcases hnew u j d hu with hold | ⟨rfl, rfl, rfl⟩
    · rcases hnew v j d hv with hold' | ⟨rfl, rfl, rfl⟩
      · exact h.apart u v j d hold hold'
      · exact absurd hold (hfree u)
    · rcases hnew v j d hv with hold' | ⟨rfl, -, -⟩
      · exact absurd hold' (hfree v)
      · rfl
  · intro j d hj
    exact spare_step h hok hs (le_trans (streams_step hs).1.length_le hj)

theorem not_holder_of_answer {t i c : Nat} {a : Choice} {k : Task} {φ : Phase} {op : Op}
    {f : Ans op → CallTree Op Ans Result} (hs : (machine p).Step s (.call t a) s')
    (h : s.threads t = some ⟨k, φ, .ask op f⟩) (hclosed : ∀ r, φ.next op r = .worker .closed) : ¬ Holder s' t i c := by
  obtain ⟨r, -, hth, -⟩ := hs.called h
  rintro ⟨proc, m, ψ, prog, hth', hψ⟩
  rw [hth, Function.update_self] at hth'
  obtain ⟨-, hphase, -⟩ := Thread.mk.inj (Option.some.inj hth'.symm)
  have hphase : Phase.worker ψ = φ.next op r := hphase
  rw [hclosed r] at hphase
  cases hphase
  exact hψ rfl

theorem holding_step (h : Holding p s) (hok : Reliable s l) (hs : (machine p).Step s l s') : Holding p s' := by
  have hc := h.conforms
  cases copies_step hs with
  | same other copies =>
    apply holding_same h hok hs copies
    intro t i c ht
    rcases holder_origin hc hs ht with hold | ⟨proc, m, hl⟩
    · exact hold
    · exact absurd hl (other t proc i c m)
  | handedOut present known due copies stream => exact holding_taken h hok hs due copies
  | @acked t i c k φ f _ running copies =>
    obtain ⟨ht, hclosed⟩ := holder_of_answer hc (.inl rfl) running
    exact holding_given h hok hs ht (not_holder_of_answer hs running hclosed) copies nofun
  | @nakked t i c k φ f _ running copies =>
    obtain ⟨ht, hclosed⟩ := holder_of_answer hc (.inr rfl) running
    exact holding_given h hok hs ht (not_holder_of_answer hs running hclosed) copies nofun
  | expired copies => exact absurd rfl (hok.inTime _ _)

end

end GoCourier
