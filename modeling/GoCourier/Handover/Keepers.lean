import GoCourier.Handover.Messages
import GoCourier.Handover.Survival

/- The copies that keep a delivery going. A copy of one of its messages does so while the
   broker may still hand it out; while its handler has read the delivery as it stands, or
   is about to, for that handler will take it; and after its handler has left it for a
   retry, for that handler will nak. The last is worth something only where the copy is
   handed out again: the broker counts the hand-outs of a copy, the row counts the
   retries, and a hand-out that finds the delivery processing is counted by one alone. -/
namespace GoCourier

open Interleave

/-- The broker's limit allows the copy another hand-out. -/
def Copy.HasMore (p : Params) (a : Copy) : Prop := p.maxDeliver ≤ 0 ∨ (a.delivered : Int) < p.maxDeliver

/-- The copy has at least as many hand-outs left as `d` has attempts, after the one at hand. -/
def Copy.Affords (p : Params) (a : Copy) (d : Delivery) : Prop :=
  p.maxDeliver ≤ 0 ∨ p.maxAttempts - (d.retryCount + 1) ≤ p.maxDeliver - a.delivered

/-- The copy of a handler that has its delivery affords the retries, and that of one that
    has left it for a retry is handed out again. -/
def WorkerPhase.Afforded (p : Params) (a : Copy) : WorkerPhase → Prop
  | .owned d => a.Affords p d
  | .refused d _ _ => a.Affords p d
  | .settled d _ => d.status = .retrying → a.HasMore p
  | _ => True

/-- A handler in this phase will take its delivery, if that still has status `st`, or nak. -/
def WorkerPhase.Keeps (st : Status) : WorkerPhase → Prop
  | .start => True
  | .snap d => d.status = st
  | .settled d _ => d.status = .retrying
  | _ => False

/-- A handler takes `x` with a copy that does not afford the retries. -/
inductive TakesShort (p : Params) (x : String) (s : System) : Act → Prop where
  | mk {t proc i c n : Nat} {a : Choice} {m : Message} {φ : Phase} {d : Delivery} {st : Status}
      {f : Ans (.remote (.updateIfStatus d st)) → CallTree Op Ans Result}
      (running : s.threads t = some ⟨.handle proc i c m, φ, .ask (.remote (.updateIfStatus d st)) f⟩)
      (about : d.id = x) (row : s.state.db.row x = some (st, n)) (short : ¬ (s.state.copies (i, c)).Affords p d) :
      TakesShort p x s (.call t a)

/-- A copy of a message of `x` keeps it going, while it has status `st`. -/
def Keeper (p : Params) (x : String) (st : Status) (s : System) : Prop :=
  ∃ i c m, s.state.stream[i]? = some m ∧ m.deliveryId = .ok x ∧ c < p.consumers ∧
    ((s.state.copies (i, c)).Due p ∨
      ∃ t proc φ prog, s.threads t = some ⟨.handle proc i c m, .worker φ, prog⟩ ∧ φ.Keeps st)

structure Keeping (p : Params) (x : String) (s : System) : Prop where
  mailed : Mailed p s
  opening : ∀ t proc i c m prog, s.threads t = some ⟨.handle proc i c m, .worker .start, prog⟩ →
    m.deliveryId = .ok x → ∃ f, prog = .ask (.remote (.findByID x)) f
  afforded : ∀ t proc i c m φ prog, s.threads t = some ⟨.handle proc i c m, .worker φ, prog⟩ →
    m.deliveryId = .ok x → φ.Afforded p (s.state.copies (i, c))

/-! The budget of a copy. -/

section
variable {p : Params} {a b : Copy} {d d' : Delivery} {e : Err}

/-- An attempt that is to be followed by another leaves the copy a hand-out for it. -/
theorem Copy.Affords.hasMore (h : a.Affords p d) (more : ¬ giveUp p d e) : a.HasMore p := by
  unfold Copy.Affords at h
  unfold Copy.HasMore
  unfold giveUp at more
  have hcount : (d.retryCount + 1 : Int) < p.maxAttempts := by
    by_contra hge
    exact more (.inr (not_lt.mp hge))
  omega

theorem WorkerPhase.Afforded.congr {φ : WorkerPhase} (h : φ.Afforded p a) (hd : b.delivered = a.delivered) :
    φ.Afforded p b := by
  cases φ with
  | owned d =>
    unfold WorkerPhase.Afforded Copy.Affords at *
    rwa [hd]
  | refused d e noted =>
    unfold WorkerPhase.Afforded Copy.Affords at *
    rwa [hd]
  | settled d noted =>
    unfold WorkerPhase.Afforded Copy.HasMore at *
    rwa [hd]
  | _ => trivial

/-- A won `UpdateIfStatus` found its row. -/
theorem row_of_claimed {st : Status} {c : Choice} {w w' : World}
    (h : Answered p w (.remote (.updateIfStatus d st)) c (.ok true) w') : ∃ n, w.db.row d.id = some (st, n) := by
  have hwin : (w.db.updateIfStatus d st).1 = true := by
    generalize hr : (Except.ok true : Ans (.remote (.updateIfStatus d st))) = r at h
    cases h with
    | ran => exact (Except.ok.inj hr).symm
    | fault => cases hr
    | lost => cases hr
  obtain ⟨m, hrow, -⟩ | ⟨-, hlose⟩ := w.db.updateIfStatus_cases d st
  · exact ⟨m, hrow⟩
  · rw [hlose] at hwin
    cases hwin

/-- A copy that affords the retries when its handler takes the delivery affords them until it has left it for one. -/
theorem afforded_moves {target : String → Prop} {copy : Nat × Nat → Prop} {ψ φ : WorkerPhase} {op : Op} {r : Ans op}
    {c : Choice} {w w' : World} (hm : WorkerMoves p target copy ψ op r φ) (answered : Answered p w op c r w')
    (h : ψ.Afforded p a) (habout : ψ.About target)
    (hclaim : ∀ d st n, op = .remote (.updateIfStatus d st) → target d.id → w.db.row d.id = some (st, n) →
      a.Affords p d) : φ.Afforded p a := by
  cases hm with
  | claimed takeable taken =>
    obtain ⟨n, hrow⟩ := row_of_claimed answered
    refine hclaim _ _ n rfl ?_ hrow
    rw [taken]
    exact habout
  | settled settles u =>
    cases settles with
    | noProvider absent moved =>
      intro hst
      rw [moved.status] at hst
      cases hst
    | gaveUp out moved =>
      intro hst
      rw [moved.status] at hst
      cases hst
    | retry more moved => exact fun _ => h.hasMore more
    | success moved =>
      intro hst
      rw [moved.status] at hst
      cases hst
  | recorded records u => cases records <;> exact h
  | clock => exact h
  | uuid => exact h
  | jitter => exact h
  | admitted => exact h
  | blocked => exact h
  | rejected => exact h
  | failure => exact h
  | published => exact h
  | appended => exact h
  | _ => trivial

end

section
variable {p : Params} {s s' : System} {l : Act} {x : String} {st : Status}

/-- The handler of a message that names `x` looks it up first. -/
theorem program_handle (p : Params) (proc i c : Nat) {m : Message} (h : m.deliveryId = .ok x) :
    ∃ f, program p (.handle proc i c m) = .ask (.remote (.findByID x)) f := by
  have hmsg : handleMessage p proc m = dispatch p proc x := by
    unfold handleMessage
    rw [h]
  simp only [program, consume, hmsg]
  exact ⟨_, rfl⟩

theorem opening_step (h : Keeping p x s) (hs : (machine p).Step s l s') {t proc i c : Nat} {m : Message}
    {prog : CallTree Op Ans Result} (hth : s'.threads t = some ⟨.handle proc i c m, .worker .start, prog⟩)
    (hx : m.deliveryId = .ok x) : ∃ f, prog = .ask (.remote (.findByID x)) f := by
  have ho := hs.origin hth
  generalize hnew : (⟨.handle proc i c m, .worker .start, prog⟩ : Thread Op Ans Task Result Phase) = th at ho
  cases ho with
  | kept before other =>
    subst hnew
    exact h.opening t proc i c m prog before hx
  | started label free entered =>
    obtain ⟨rfl, -, hprog⟩ := Thread.mk.inj hnew
    obtain ⟨f, hf⟩ := program_handle p proc i c hx
    exact ⟨f, hprog.trans hf⟩
  | @called a k ψ op f r label running answered =>
    obtain ⟨rfl, hphase, -⟩ := Thread.mk.inj hnew
    have hm : May p (.handle proc i c m) ψ op := h.mailed.holding.conforms.may running
    cases ψ with
    | worker ψ =>
      have hphase : Phase.worker .start = .worker (ψ.next op r) := hphase
      have hmoves := worker_moves (worker_may hm) r
      rw [← Phase.worker.inj hphase] at hmoves
      -- only a call that says nothing leads back to the start, and the first call is the lookup
      have hψ : ψ = .start := by
        generalize hφ : WorkerPhase.start = φ at hmoves
        cases hmoves with
        | clock => rfl
        | uuid => rfl
        | jitter => rfl
        | settled settles => cases settles <;> cases hφ
        | recorded records => cases records <;> cases hφ
        | _ => cases hφ
      subst hψ
      obtain ⟨f', hf'⟩ := h.opening t proc i c m _ running hx
      obtain ⟨rfl, -⟩ := CallTree.ask.inj hf'
      cases r <;> cases hphase
    | _ => exact hm.elim

/-- A copy that a handler has is not handed out. -/
theorem delivered_step (h : Holding p s) (hs : (machine p).Step s l s') {t i c : Nat} (ht : Holder s t i c) :
    (s'.state.copies (i, c)).delivered = (s.state.copies (i, c)).delivered := by
  have hput : ∀ {j d : Nat} {a : Copy}, s'.state.copies = Function.update s.state.copies (j, d) a →
      a.delivered = (s.state.copies (j, d)).delivered →
      (s'.state.copies (i, c)).delivered = (s.state.copies (i, c)).delivered := by
    intro j d a copies ha
    rw [copies]
    by_cases heq : (i, c) = (j, d)
    · rw [heq, Function.update_self, ha]
    · rw [Function.update_of_ne heq]
  cases copies_step hs with
  | same other copies => rw [copies]
  | @handedOut u proc j d m _ present known due copies stream =>
    rw [copies, Function.update_of_ne]
    intro heq
    have hbusy := (h.held t i c ht).2
    rw [heq, due.2.1] at hbusy
    cases hbusy
  | acked running copies => exact hput copies rfl
  | nakked running copies => exact hput copies rfl
  | expired copies => exact hput copies rfl

theorem afforded_step (h : Keeping p x s) (hshort : ¬ TakesShort p x s l) (hs : (machine p).Step s l s')
    {t proc i c : Nat} {m : Message} {φ : WorkerPhase} {prog : CallTree Op Ans Result}
    (hth : s'.threads t = some ⟨.handle proc i c m, .worker φ, prog⟩) (hx : m.deliveryId = .ok x) :
    φ.Afforded p (s'.state.copies (i, c)) := by
  have hc := h.mailed.holding.conforms
  -- a handler that is done with its copy needs nothing of it, and any other has it
  have hheld : ∀ {ψ prog}, s.threads t = some ⟨.handle proc i c m, .worker ψ, prog⟩ → ψ ≠ .closed →
      (s'.state.copies (i, c)).delivered = (s.state.copies (i, c)).delivered := by
    intro ψ prog hψ hne
    exact delivered_step h.mailed.holding hs ⟨proc, m, ψ, prog, hψ, hne⟩
  rcases worker_origin hc hs hth with ⟨before, -⟩ | rfl | ⟨a, ψ, op, f, r, label, running, answered, hmoves⟩
  · by_cases hclosed : φ = .closed
    · subst hclosed
      trivial
    · exact (h.afforded t proc i c m φ prog before hx).congr (hheld before hclosed)
  · trivial
  · by_cases hclosed : ψ = .closed
    · subst hclosed
      rw [closed_moves hmoves]
      trivial
    · refine (afforded_moves hmoves (answer_cases answered) (h.afforded t proc i c m ψ _ running hx)
        (worker_about hc running) ?_).congr (hheld running hclosed)
      intro d st n hop hd hrow
      subst hop
      subst label
      -- the message names no delivery but `x`
      have hd : m.deliveryId = .ok d.id := hd
      rw [hx] at hd
      obtain rfl := Except.ok.inj hd
      by_contra hno
      exact hshort (.mk running rfl hrow hno)

theorem init_keeping (p : Params) (x : String) : Keeping p x (System.init p) where
  mailed := init_mailed p
  opening := by
    intro t proc i c m prog h
    cases h
  afforded := by
    intro t proc i c m φ prog h
    cases h

theorem keeping_step (h : Keeping p x s) (hok : Reliable s l) (hshort : ¬ TakesShort p x s l)
    (hs : (machine p).Step s l s') : Keeping p x s' where
  mailed := mailed_step h.mailed hok hs
  opening _ _ _ _ _ _ := opening_step h hs
  afforded _ _ _ _ _ _ _ := afforded_step h hshort hs

/-! Keepers from step to step. -/

/-- A message that has just been published has new copies. -/
theorem keeper_of_grown (h : Holding p s) (hok : Reliable s l) (hs : (machine p).Step s l s') {m : Message}
    (hgrown : s'.state.stream = s.state.stream ++ [m]) (hx : m.deliveryId = .ok x) (st : Status) : Keeper p x st s' := by
  have hpresent : s'.state.stream[s.state.stream.length]? = some m := by
    rw [hgrown]
    exact List.getElem?_concat_length
  have hzero : 0 < p.consumers := by
    unfold Params.consumers
    split <;> omega
  refine ⟨s.state.stream.length, 0, m, hpresent, hx, hzero, .inl ?_⟩
  -- nobody has had a copy of a message beyond the end of the stream
  rw [spare_step h hok hs le_rfl]
  refine ⟨rfl, rfl, ?_⟩
  by_cases hmax : p.maxDeliver ≤ 0
  · exact .inl hmax
  · exact .inr (not_le.mp hmax)

/-- An `UpdateIfStatus` on the status the row has writes it. -/
theorem exec_claim {d : Delivery} {w w' : World} {n : Nat} {r : Except Err Bool}
    (h : exec p w (.updateIfStatus d st) = (r, w')) (hrow : w.db.row d.id = some (st, n)) :
    r = .ok true ∧ w'.db.row d.id = some (d.status, d.retryCount) := by
  obtain ⟨m, -, hwin⟩ | ⟨hlose, -⟩ := w.db.updateIfStatus_cases d st
  · simp only [exec, hwin] at h
    obtain ⟨hr, hw⟩ := Prod.mk.inj h
    refine ⟨hr.symm, ?_⟩
    rw [← hw]
    have hupdate := w.db.row_update d d.id
    rw [if_pos rfl, hrow] at hupdate
    exact hupdate
  · exact absurd hrow (hlose n)

/-- A handler whose copy keeps `x` goes on keeping it while `x` has status `st`, until it naks. -/
theorem keeps_moves {target : String → Prop} {copy : Nat × Nat → Prop} {ψ φ : WorkerPhase} {op : Op} {r : Ans op}
    {a : Choice} {w w' : World} {n m : Nat} (hm : WorkerMoves p target copy ψ op r φ) (answered : Answered p w op a r w')
    (hok : ¬ a.Failing) (hst : st.Takeable) (hx : ∀ y, target y → y = x) (habout : ψ.About target)
    (hopen : ψ = .start → ∃ id, op = .remote (.findByID id)) (hrow : w.db.row x = some (st, n))
    (hrow' : w'.db.row x = some (st, m)) (hk : ψ.Keeps st) :
    φ.Keeps st ∨ (∃ i c, op = .nak i c) ∧ ∃ d noted, ψ = .settled d noted ∧ d.status = .retrying := by
  obtain ⟨row, hstored, hsame⟩ := Option.map_eq_some_iff.mp hrow
  have hstatus : row.status = st := congrArg Prod.fst hsame
  -- its `UpdateIfStatus` would have written the row
  have hwrites : ∀ {d₀ d : Delivery} {now : Time} {q : Except Err Bool}, target d₀.id → d₀.status = st →
      d = { d₀ with status := .processing, updatedAt := now } → exec p w (.updateIfStatus d d₀.status) ≠ (q, w') := by
    intro d₀ d now q ha hd hd' hran
    have hid : d.id = x := by
      rw [hd']
      exact hx _ ha
    obtain ⟨-, htaken⟩ := exec_claim hran (by rw [hid, hd, hrow])
    rw [hid, hrow', hd'] at htaken
    have hproc : st = .processing := congrArg Prod.fst (Option.some.inj htaken)
    rw [hproc] at hst
    exact absurd hst (by decide)
  cases hm with
  | clock => exact .inl hk
  | uuid => exact .inl hk
  | jitter => exact .inl hk
  | @found id about d =>
    have hran := answered_ran answered hok
    obtain rfl := hx id about
    rw [exec, Tables.findByID_stored hstored] at hran
    rw [← Except.ok.inj (Prod.mk.inj hran).1]
    exact .inl hstatus
  | @unfound id about e =>
    have hran := answered_ran answered hok
    obtain rfl := hx id about
    rw [exec, Tables.findByID_stored hstored] at hran
    cases (Prod.mk.inj hran).1
  | claimed takeable taken => exact (hwrites habout hk taken (answered_ran answered hok)).elim
  | passed takeable taken => exact (hwrites habout hk taken (answered_ran answered hok)).elim
  | unclaimed takeable taken e => exact (hwrites habout hk taken (answered_ran answered hok)).elim
  | settled settles u => cases settles <;> exact hk.elim
  | unsettled settles e => cases settles <;> exact hk.elim
  | recorded records u =>
    cases records with
    | gaveUp => exact hk.elim
    | retry => exact .inl hk
    | success => exact .inl hk
  | @unrecorded φ id att records e =>
    have hid : id = x := by
      cases records <;> exact hx _ habout
    have hran := answered_ran answered hok
    rw [exec, hid, Tables.recordAttempt_stored hstored] at hran
    cases (Prod.mk.inj hran).1
  | published noted dead r =>
    have hk : _ = Status.retrying := hk
    rw [dead] at hk
    cases hk
  | appended => exact .inl hk
  | @unappended d noted ev new payload e =>
    have hran := answered_ran answered hok
    have hid : d.id = x := hx _ habout
    rw [exec, hid, Tables.append_stored hstored] at hran
    cases (Prod.mk.inj hran).1
  | acked own quiet u =>
    cases quiet with
    | seen terminal =>
      have hk : _ = st := hk
      rw [← hk] at hst
      rcases hst with h | h <;> rw [h] at terminal <;> exact absurd terminal (by decide)
    | passed => exact hk.elim
    | settled terminal =>
      have hk : _ = Status.retrying := hk
      rw [hk] at terminal
      exact absurd terminal (by decide)
  | @nakked φ i c own loud u =>
    cases loud with
    | unread =>
      obtain ⟨id, hid⟩ := hopen rfl
      cases hid
    | seen busy =>
      have hk : _ = st := hk
      rw [hk] at busy
      rcases hst with h | h
      · exact absurd h busy.1
      · exact absurd h busy.2.1
    | settled again => exact .inr ⟨⟨i, c, rfl⟩, _, _, rfl, again⟩
    | failed => exact hk.elim
  | _ => exact hk.elim

/-- A copy that nobody has is left alone, or a handler starts on it. -/
theorem due_step (h : Holding p s) (hok : Reliable s l) (hs : (machine p).Step s l s') {i c : Nat} {m : Message}
    (hi : s.state.stream[i]? = some m) (hdue : (s.state.copies (i, c)).Due p) :
    (s'.state.copies (i, c)).Due p ∨
      ∃ t proc prog, s'.threads t = some ⟨.handle proc i c m, .worker .start, prog⟩ := by
  have hother : ∀ {j d : Nat} {a : Copy}, s'.state.copies = Function.update s.state.copies (j, d) a →
      (i, c) ≠ (j, d) → (s'.state.copies (i, c)).Due p := by
    intro j d a copies hne
    rwa [copies, Function.update_of_ne hne]
  -- who acks or naks has a copy, and this one nobody has
  have hfree : ∀ {t j d k φ op f}, op = .ack j d ∨ op = .nak j d → s.threads t = some ⟨k, φ, .ask op f⟩ →
      (i, c) ≠ (j, d) := by
    intro t j d k φ op f hop running heq
    obtain ⟨rfl, rfl⟩ := Prod.mk.inj heq
    have hbusy := (h.held t i c (holder_of_answer h.conforms hop running).1).2
    rw [hdue.2.1] at hbusy
    cases hbusy
  cases copies_step hs with
  | same other copies =>
    rw [copies]
    exact .inl hdue
  | @handedOut t proc j d m' _ present known due copies stream =>
    by_cases heq : (i, c) = (j, d)
    · obtain ⟨rfl, rfl⟩ := Prod.mk.inj heq
      obtain rfl := Option.some.inj (present.symm.trans hi)
      cases hs with
      | start free entered => exact .inr ⟨t, proc, _, Function.update_self ..⟩
    · exact .inl (hother copies heq)
  | acked running copies => exact .inl (hother copies (hfree (.inl rfl) running))
  | nakked running copies => exact .inl (hother copies (hfree (.inr rfl) running))
  | expired copies => exact absurd rfl (hok.inTime _ _)

/-- A handler whose copy keeps `x` goes on, or has nakked a copy that is handed out again. -/
theorem handler_step (h : Keeping p x s) (hok : Reliable s l) (hs : (machine p).Step s l s') (hst : st.Takeable)
    {n n' : Nat} (hrow : s.state.db.row x = some (st, n)) (hrow' : s'.state.db.row x = some (st, n')) {t proc i c : Nat}
    {m : Message} {φ : WorkerPhase} {prog : CallTree Op Ans Result} (hx : m.deliveryId = .ok x)
    (hth : s.threads t = some ⟨.handle proc i c m, .worker φ, prog⟩) (hk : φ.Keeps st) :
    (s'.state.copies (i, c)).Due p ∨
      ∃ φ' prog', s'.threads t = some ⟨.handle proc i c m, .worker φ', prog'⟩ ∧ φ'.Keeps st := by
  have hc := h.mailed.holding.conforms
  have hholder : Holder s t i c := by
    refine ⟨proc, m, φ, prog, hth, fun hφ => ?_⟩
    rw [hφ] at hk
    exact hk
  by_cases hcall : ∃ a, l = .call t a
  · obtain ⟨a, rfl⟩ := hcall
    have hfree : ¬ a.Failing := hok.faultFree.2 t a rfl
    cases hs with
    | @call _ _ k ψ op f r w running answered =>
      have hsame := Option.some.inj (running.symm.trans hth)
      cases hsame
      have hans := answer_cases (p := p) answered
      have hm : WorkerMay p (m.deliveryId = .ok ·) (· = (i, c)) φ op := worker_may (hc.may running)
      have hname : ∀ y, m.deliveryId = .ok y → y = x := fun y hy => Except.ok.inj (hy.symm.trans hx)
      have hopen : φ = .start → ∃ id, op = .remote (.findByID id) := by
        intro hφ
        rw [hφ] at hth
        obtain ⟨f', hf'⟩ := h.opening t proc i c m _ hth hx
        exact ⟨x, (CallTree.ask.inj hf').1⟩
      rcases keeps_moves (worker_moves hm r) hans hfree hst hname (worker_about hc running) hopen hrow hrow' hk with
        hon | ⟨⟨j, d, rfl⟩, d₀, noted, rfl, hd₀⟩
      · exact .inr ⟨_, _, Function.update_self .., hon⟩
      · obtain ⟨rfl, rfl⟩ := Prod.mk.inj hm.1
        have hmore := h.afforded t proc j d m _ _ hth hx hd₀
        cases hans with
        | nak j d =>
          left
          show (Function.update s.state.copies (j, d) _ (j, d)).Due p
          rw [Function.update_self]
          exact ⟨(h.mailed.holding.held t j d hholder).1, rfl, hmore⟩
        | nakLost j d msg => exact absurd trivial hfree
  · have hkept := hs.kept hth (fun a hl => hcall ⟨a, hl⟩) (hok.faultFree.1 t)
    exact .inr ⟨φ, prog, hkept, hk⟩

/-- While the row of `x` keeps its status, what keeps `x` going does so. -/
theorem keeper_step (h : Keeping p x s) (hok : Reliable s l) (hs : (machine p).Step s l s') (hst : st.Takeable) {n n' : Nat}
    (hrow : s.state.db.row x = some (st, n)) (hrow' : s'.state.db.row x = some (st, n')) (hk : Keeper p x st s) :
    Keeper p x st s' := by
  obtain ⟨i, c, m, hi, hx, hlt, hk⟩ := hk
  refine ⟨i, c, m, present_step hs hi, hx, hlt, ?_⟩
  rcases hk with hdue | ⟨t, proc, φ, prog, hth, hkeeps⟩
  · rcases due_step h.mailed.holding hok hs hi hdue with hdue' | ⟨t, proc, prog, hth⟩
    · exact .inl hdue'
    · exact .inr ⟨t, proc, .start, prog, hth, trivial⟩
  · rcases handler_step h hok hs hst hrow hrow' hx hth hkeeps with hdue | ⟨φ', prog', hth', hkeeps'⟩
    · exact .inl hdue
    · exact .inr ⟨t, proc, φ', prog', hth', hkeeps'⟩

end

end GoCourier
