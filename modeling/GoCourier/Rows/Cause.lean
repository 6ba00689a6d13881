import GoCourier.Ledger.RetryBudget
import GoCourier.Rows.Later

/- Why a delivery is dead-lettered. The retry count of a row is raised by a dispatch
   that was refused, and by nothing else; a rejection by an open breaker is a refusal as
   good as the provider's. So the count never runs ahead of the attempts made since the
   last replay, and a dispatch that gives up has a cause. -/
namespace GoCourier

open Interleave

/-- What a step says about the attempts at a delivery. -/
inductive Mark where
  /-- A replay has queued it. -/
  | replayed
  /-- The provider was called. -/
  | sent (permanent : Bool)
  /-- The breaker was open. -/
  | rejected
  deriving DecidableEq

def Mark.isSend : Mark → Bool
  | .sent _ => true
  | _ => false

def refusedForGood : Except Err ProviderResult → Bool
  | .error e => isPermanent e
  | .ok _ => false

/-- The marks for `x` of a call that task `k` makes and `c` answers. -/
def callMarks (x : String) (w : World) (k : Task) (c : Choice) : Op → List Mark
  | .send d => match c with
    | .verdict v => if d.id = x then [.sent (refusedForGood v)] else []
    | _ => []
  | .allow proc ch => match ((w.breakers (proc, ch)).allow w.clock).1 with
    | .error _ => if k.Target x then [.rejected] else []
    | .ok _ => []
  | .remote (.update d) => match k with
    | .replay _ => if d.id = x ∧ c.Effective then [.replayed] else []
    | _ => []
  | _ => []

def marks (x : String) (s : System) : Act → List Mark
  | .call t c => match s.threads t with
    | some ⟨k, _, .ask op _⟩ => callMarks x s.state k c op
    | _ => []
  | _ => []

/-- The attempts since the last replay, the latest first. -/
def since (ms : List Mark) : List Mark := ms.reverse.takeWhile (· ≠ .replayed)

/-- A reason to dead-letter a delivery of channel `ch` after the attempts `ms`. -/
def Cause (p : Params) (ch : Channel) (ms : List Mark) : Prop :=
  ch ∉ p.providers ∨ .sent true ∈ ms ∨ p.maxAttempts ≤ (ms.length : Int)

/-- The dispatches of `x` follow one another. -/
def OneDispatch (x : String) : System → Act → Prop := Machine.StartsAlone (Task.Target · x)

/-- One scheduler, one replay and one dispatch of `x` at a time. -/
structure InTurn (x : String) (s : System) (l : Act) : Prop where
  scheduler : OneScheduler s l
  replay : OneReplay s l
  dispatch : OneDispatch x s l

theorem since_append (ms : List Mark) (m : Mark) :
    since (ms ++ [m]) = if m = .replayed then [] else m :: since ms := by
  rw [since, List.reverse_append, List.reverse_singleton, List.singleton_append, List.takeWhile_cons]
  by_cases hm : m = .replayed
  · rw [if_pos hm, hm]
    rfl
  · rw [if_neg hm, if_pos (decide_eq_true hm)]
    rfl

theorem cause_mono {p : Params} {ch : Channel} {ms ms' : List Mark} (h : Cause p ch ms) (hsuf : ms <:+ ms') :
    Cause p ch ms' := by
  rcases h with h | h | h
  · exact .inl h
  · exact .inr (.inl (hsuf.mem h))
  · have := hsuf.length_le
    exact .inr (.inr (by omega))

/-! What a dispatch has read is still there. -/

/-- A dispatch on its way to take the delivery, or one that has it. -/
def Stance.Working (a : Stance) : Prop := (∃ st n, a = .reader st n) ∨ a.Owning

/-- What a dispatch has read. -/
def Ledger.Current (L : Ledger) : Stance → Prop
  | .reader st n => L.row = some (st, n) ∧ st.Takeable
  | _ => True

section
variable {max : Int} {deed : Deed} {L L' : Ledger} {a a' b : Stance}

theorem current_turn (h : Turn max deed L a L' a') (ha : L.Current a) : L'.Current a' := by
  cases h with
  | idle => exact ha
  | look row takeable => exact ⟨row, takeable⟩
  | settle hset => cases hset <;> trivial
  | _ => trivial

theorem current_others (h : Turn max deed L a L' a') (hf : L.Fresh a) (hb : L.Current b)
    (hab : ¬ (a.Working ∧ b.Working)) : L'.Current b := by
  cases b with
  | reader st n =>
    obtain ⟨hrow, htake⟩ := hb
    have hfree : ¬ a.Working := fun ha => hab ⟨ha, .inl ⟨st, n, rfl⟩⟩
    cases h with
    | create none new =>
      rw [none] at hrow
      cases hrow
    | claim row takeable => exact absurd (.inl ⟨_, _, rfl⟩) hfree
    | claimCut row takeable => exact absurd (.inl ⟨_, _, rfl⟩) hfree
    | settle hset => exact absurd (.inr (settling_cases hset).1) hfree
    | settleLost hset => exact absurd (.inr (settling_cases hset).1) hfree
    | requeue =>
      obtain ⟨st', n', hrow', hdead⟩ := hf
      rw [hrow] at hrow'
      cases hrow'
      rcases htake with rfl | rfl <;> rcases hdead with h | h <;> cases h
    | requeueLost =>
      obtain ⟨st', n', hrow', hdead⟩ := hf
      rw [hrow] at hrow'
      cases hrow'
      rcases htake with rfl | rfl <;> rcases hdead with h | h <;> cases h
    | queue m =>
      have hrow' : L.row = some (.pending, m) := hf
      rw [hrow] at hrow'
      cases hrow'
      rcases htake with h | h <;> cases h
    | _ => exact ⟨hrow, htake⟩
  | _ => trivial

end

/-! One dispatch at a time. -/

section
variable {p : Params} {s s' : System} {l : Act} {t u : Nat} {x : String}

/-- A dispatch that may take `x` has not returned. -/
theorem not_finished_of_reader {k : Task} {d : Delivery} (h : d.status.Takeable) (r : Result) :
    ¬ Finished k (.worker (.snap d)) r := by
  intro hf
  have hdead : ¬ (d.status = .succeeded ∨ d.status = .dlq) := by
    rcases h with h | h <;> rw [h] <;> decide
  cases k with
  | dispatch proc id =>
    cases r with
    | unit r =>
      cases r with
      | ok _ =>
        have hq : Quiet (.snap d) := hf
        cases hq with
        | seen terminal => exact hdead terminal
      | error e =>
        have hl : Loud (.snap d) := hf
        cases hl with
        | seen busy =>
          rcases h with h | h
          · exact busy.1 h
          · exact busy.2.1 h
    | response r => exact hf.elim
  | handle proc i c m =>
    cases r with
    | unit r =>
      have hclosed : WorkerPhase.snap d = .closed := hf
      cases hclosed
    | response r => exact hf.elim
  | _ => exact hf.elim

/-- Who works on `x` is a dispatch of it that has not returned. -/
theorem working_thread (hc : (machine p).Conforms (protocol p) s) (h : (threadStance x (s.threads t)).Working) :
    ∃ th, s.threads t = some th ∧ th.task.Target x ∧ th.Live := by
  rcases h with ⟨st, n, hst⟩ | hown
  · obtain ⟨⟨k, φ, prog⟩, hth, hstanding⟩ := standing_thread hst nofun
    cases hstanding with
    | @reader d id takeable =>
      have habout : k.Target d.id := worker_about hc hth
      exact ⟨_, hth, id ▸ habout, hc.live hth fun r => not_finished_of_reader takeable r⟩
  · cases hth : s.threads t with
    | none =>
      rw [hth] at hown
      cases hown
    | some th =>
      rw [hth] at hown
      obtain ⟨k, φ, prog⟩ := th
      have hown : (φ.stance x).Owning := hown
      have hlive := hc.live hth fun r => not_finished_of_owning hown r
      obtain ⟨ψ, rfl, habout⟩ := about_of_owning hown
      exact ⟨_, rfl, habout _ (worker_about hc hth), hlive⟩

theorem working_alone (hc : (machine p).Conforms (protocol p) s)
    (hone : Machine.AtMostOne (Task.Target · x) s) (htu : t ≠ u) :
    ¬ ((threadStance x (s.threads t)).Working ∧ (threadStance x (s.threads u)).Working) := by
  intro h
  obtain ⟨th, hth, hk, hl⟩ := working_thread hc h.1
  obtain ⟨th', hth', hk', hl'⟩ := working_thread hc h.2
  exact htu (hone t u th th' hth hth' hk hk' hl hl')

/-- Ownership, and one dispatch at a time that has read what is there. -/
structure Sequential (p : Params) (x : String) (s : System) : Prop where
  sole : Sole p x s
  one : Machine.AtMostOne (Task.Target · x) s
  current : ∀ t, (ledger x s.state s.hist).Current (threadStance x (s.threads t))

theorem init_sequential (p : Params) (x : String) : Sequential p x (System.init p) where
  sole := init_sole p x
  one _ _ _ _ h := by cases h
  current _ := trivial

theorem sequential_step (h : Sequential p x s) (hok : InTurn x s l) (hs : (machine p).Step s l s') :
    Sequential p x s' := by
  obtain ⟨t, deed, L, a, hview, hturn, -⟩ := view_step x h.sole.conforms hs
  refine ⟨sole_step h.sole ⟨hok.scheduler, hok.replay⟩ hs, Machine.atMostOne_step h.one hok.dispatch hs, fun u => ?_⟩
  show (System.view x s').shared.Current ((System.view x s').places u)
  rw [hview]
  by_cases hu : u = t
  · subst hu
    rw [Board.turn_self]
    exact current_turn hturn (h.current u)
  · rw [Board.turn_other _ _ _ hu]
    exact current_others hturn (h.sole.fresh t) (h.current u) (working_alone h.sole.conforms h.one (Ne.symm hu))

/-- Nobody works on a delivery that a replay may queue. -/
theorem not_working_of_replayer (h : Sequential p x s) (ht : threadStance x (s.threads t) = .replayer) :
    ¬ (threadStance x (s.threads u)).Working := by
  intro hw
  have hfresh := h.sole.fresh t
  rw [ht] at hfresh
  obtain ⟨st, n, hrow, hdead⟩ := hfresh
  rcases hw with ⟨st', n', hreader⟩ | hown
  · have hcur := h.current u
    rw [hreader] at hcur
    obtain ⟨hrow', htake⟩ := hcur
    rw [hrow] at hrow'
    cases hrow'
    rcases htake with rfl | rfl <;> rcases hdead with h | h <;> cases h
  · obtain ⟨m, hrow'⟩ := owned_row (h.sole.held.each u) hown
    rw [show (System.view x s).shared.row = (ledger x s.state s.hist).row from rfl, hrow] at hrow'
    cases hrow'
    rcases hdead with h | h <;> cases h

end

/-! Attempts and retry counts. -/

def Tables.channelOf (t : Tables) (x : String) : Option Channel := (t.deliveries x).map (·.channel)

/-- The copy a dispatch of `x` has counts no more retries than there were attempts. -/
def WorkerPhase.Counted (x : String) (ch : Option Channel) (ms : List Mark) : WorkerPhase → Prop
  | .snap d => d.id = x → ch = some d.channel ∧ (d.status.Takeable → d.retryCount ≤ ms.length)
  | .owned d => d.id = x → ch = some d.channel ∧ d.retryCount ≤ ms.length
  | .refused d e _ => d.id = x → ch = some d.channel ∧ d.retryCount + 1 ≤ ms.length ∧
      (isPermanent e = true → .sent true ∈ ms)
  | .accepted d => d.id = x → ch = some d.channel ∧ d.retryCount ≤ ms.length
  | _ => True

/-- Rows and copies in hand count no more retries than there were attempts, and `x` is dead for cause. -/
structure Grounded (p : Params) (x : String) (s : System) (ms : List Mark) : Prop where
  sequential : Sequential p x s
  count : ∀ r, s.state.db.deliveries x = some r → r.retryCount ≤ (since ms).length
  cause : ∀ r, s.state.db.deliveries x = some r → r.status = .dlq → Cause p r.channel (since ms)
  hands : ∀ t k φ prog, s.threads t = some ⟨k, .worker φ, prog⟩ →
    φ.Counted x (s.state.db.channelOf x) (since ms)

section
variable {p : Params} {s s' : System} {l : Act} {x : String} {ms ms' : List Mark}

theorem counted_mono {φ : WorkerPhase} {ch ch' : Option Channel} (h : φ.Counted x ch ms)
    (hch : ∀ a, ch = some a → ch' = some a) (hsuf : ms <:+ ms') : φ.Counted x ch' ms' := by
  have hle := hsuf.length_le
  cases φ with
  | snap d =>
    intro hx
    obtain ⟨hd, hn⟩ := h hx
    exact ⟨hch _ hd, fun htake => le_trans (hn htake) hle⟩
  | owned d =>
    intro hx
    obtain ⟨hd, hn⟩ := h hx
    exact ⟨hch _ hd, le_trans hn hle⟩
  | refused d e noted =>
    intro hx
    obtain ⟨hd, hn, hperm⟩ := h hx
    exact ⟨hch _ hd, le_trans hn hle, fun he => hsuf.mem (hperm he)⟩
  | accepted d =>
    intro hx
    obtain ⟨hd, hn⟩ := h hx
    exact ⟨hch _ hd, le_trans hn hle⟩
  | _ => trivial

/-- Who does not work on `x` has no count of it. -/
theorem counted_of_idle {k : Task} {φ : WorkerPhase} {prog : CallTree Op Ans Result} {ch : Option Channel} {t : Nat}
    (hth : s.threads t = some ⟨k, .worker φ, prog⟩) (h : φ.Counted x ch ms)
    (hidle : ¬ (threadStance x (s.threads t)).Working) : φ.Counted x ch ms' := by
  rw [hth] at hidle
  cases φ with
  | snap d =>
    intro hx
    refine ⟨(h hx).1, fun htake => absurd (.inl ⟨d.status, d.retryCount, ?_⟩) hidle⟩
    exact if_pos ⟨hx, htake⟩
  | owned d =>
    intro hx
    refine absurd (.inr ?_) hidle
    rw [show threadStance x (some ⟨k, .worker (.owned d), prog⟩) = .owner d.retryCount from if_pos hx]
    exact .owner _
  | refused d e noted =>
    intro hx
    refine absurd (.inr ?_) hidle
    cases noted with
    | false =>
      rw [show threadStance x (some ⟨k, .worker (.refused d e false), prog⟩) = .refused d.retryCount from if_pos hx]
      exact .refused _
    | true =>
      rw [show threadStance x (some ⟨k, .worker (.refused d e true), prog⟩) = .noted d.retryCount from if_pos hx]
      exact .noted _
  | accepted d =>
    intro hx
    refine absurd (.inr ?_) hidle
    rw [show threadStance x (some ⟨k, .worker (.accepted d), prog⟩) = .accepted d.retryCount from if_pos hx]
    exact .accepted _
  | _ => trivial

theorem channelOf_step (hc : (machine p).Conforms (protocol p) s) (hs : (machine p).Step s l s') {ch : Channel}
    (h : s.state.db.channelOf x = some ch) : s'.state.db.channelOf x = some ch := by
  obtain ⟨r, hr, rfl⟩ := Option.map_eq_some_iff.mp h
  obtain ⟨r', hr', -, -, hch⟩ := fixed_step hc hs hr
  rw [Tables.channelOf, hr', Option.map_some, hch]

theorem marks_call {t : Nat} {c : Choice} {k : Task} {φ : Phase} {op : Op} {f : Ans op → CallTree Op Ans Result}
    (h : s.threads t = some ⟨k, φ, .ask op f⟩) : marks x s (.call t c) = callMarks x s.state k c op := by
  rw [marks, h]

/-- A call leaves no mark, or one of an attempt, or is the write of a replay. -/
theorem callMarks_cases (x : String) (w : World) (k : Task) (c : Choice) (op : Op) :
    callMarks x w k c op = [] ∨ (∃ m, m ≠ .replayed ∧ callMarks x w k c op = [m]) ∨
      callMarks x w k c op = [.replayed] ∧ ∃ id d, k = .replay id ∧ op = .remote (.update d) ∧ d.id = x ∧ c.Effective := by
  cases op with
  | send d =>
    cases c with
    | verdict v =>
      by_cases hx : d.id = x
      · exact .inr (.inl ⟨.sent (refusedForGood v), nofun, if_pos hx⟩)
      · exact .inl (if_neg hx)
    | _ => exact .inl rfl
  | allow proc ch =>
    simp only [callMarks]
    split
    · split
      · exact .inr (.inl ⟨.rejected, nofun, rfl⟩)
      · exact .inl rfl
    · exact .inl rfl
  | remote q =>
    cases q with
    | update d =>
      cases k with
      | replay id =>
        by_cases hx : d.id = x ∧ c.Effective
        · exact .inr (.inr ⟨if_pos hx, id, d, rfl, rfl, hx.1, hx.2⟩)
        · exact .inl (if_neg hx)
      | _ => exact .inl rfl
    | _ => exact .inl rfl
  | _ => exact .inl rfl

theorem marks_cases (x : String) (s : System) (l : Act) :
    marks x s l = [] ∨ (∃ m, m ≠ .replayed ∧ marks x s l = [m]) ∨ marks x s l = [.replayed] ∧ Replaying x s l := by
  cases l with
  | call t c =>
    cases hth : s.threads t with
    | none =>
      refine .inl ?_
      rw [marks, hth]
    | some th =>
      obtain ⟨k, φ, prog⟩ := th
      cases prog with
      | done r =>
        refine .inl ?_
        rw [marks, hth]
      | ask op f =>
        rw [marks_call hth]
        rcases callMarks_cases x s.state k c op with h | h | ⟨h, id, d, rfl, rfl, hx, hc⟩
        · exact .inl h
        · exact .inr (.inl h)
        · exact .inr (.inr ⟨h, t, c, id, φ, d, f, rfl, hth, hc, hx⟩)
  | _ => exact .inl rfl

/-- Attempts are added, unless the step is the write of a replay. -/
theorem since_marks (ms : List Mark) (x : String) (s : System) (l : Act) :
    since ms <:+ since (ms ++ marks x s l) ∨ since (ms ++ marks x s l) = [] ∧ Replaying x s l := by
  rcases marks_cases x s l with h | ⟨m, hm, h⟩ | ⟨h, hrep⟩
  · exact .inl ⟨[], by rw [h, List.append_nil, List.nil_append]⟩
  · left
    rw [h, since_append, if_neg hm]
    exact List.suffix_cons ..
  · right
    rw [h, since_append, if_pos rfl]
    exact ⟨rfl, hrep⟩

/-- The write of a replay: nobody works on the delivery, and it is queued with no retries. -/
theorem replaying_writes (h : Sequential p x s) (hs : (machine p).Step s l s') (hrep : Replaying x s l) :
    (∀ u, ¬ (threadStance x (s.threads u)).Working) ∧
      ∀ r', s'.state.db.deliveries x = some r' → r'.status = .queued ∧ r'.retryCount = 0 := by
  obtain ⟨t, c, id, φ, d, f, rfl, hth, hc, hx⟩ := hrep
  have hm : May p (.replay id) φ (.remote (.update d)) := h.sole.conforms.may hth
  cases update_may hm with
  | settle settles => exact hm.elim
  | @replay d₀ d now dead queued =>
    subst queued
    constructor
    · intro u
      refine not_working_of_replayer h (t := t) ?_
      rw [hth]
      exact if_pos ⟨hx, dead⟩
    · intro r' hr'
      rw [updated_called hs hth hc, ← hx, deliveries_update_self] at hr'
      obtain ⟨r, -, rfl⟩ := Option.map_eq_some_iff.mp hr'
      exact ⟨rfl, rfl⟩
  | tick pending queued => exact hm.elim

/-- What a write that is no replay's leaves counts no more retries than there were attempts, and has a cause. -/
theorem grounded_updates (h : Grounded p x s ms) {t : Nat} {k : Task} {φ : Phase} {d : Delivery} {r : DeliveryRow}
    {f : Ans (.remote (.update d)) → CallTree Op Ans Result}
    (hth : s.threads t = some ⟨k, φ, .ask (.remote (.update d)) f⟩) (hx : d.id = x)
    (hr : s.state.db.deliveries x = some r) (hk : ∀ id, k ≠ .replay id) :
    d.retryCount ≤ (since ms).length ∧ (d.status = .dlq → Cause p r.channel (since ms)) := by
  have hc := h.sequential.sole.conforms
  have hch : s.state.db.channelOf x = some r.channel := by rw [Tables.channelOf, hr, Option.map_some]
  cases update_may (hc.may hth) with
  | @settle ψ d settles =>
    have hψ := h.hands t k ψ _ hth
    rw [hch] at hψ
    cases settles with
    | @noProvider d₀ d absent moved =>
      obtain ⟨hchan, hn⟩ := hψ (moved.id.symm.trans hx)
      rw [moved.count, Option.some.inj hchan]
      exact ⟨hn, fun _ => .inl absent⟩
    | @gaveUp d₀ d e out moved =>
      obtain ⟨hchan, hn, hperm⟩ := hψ (moved.id.symm.trans hx)
      rw [moved.count]
      refine ⟨by omega, fun _ => .inr ?_⟩
      rcases out with hpermanent | hspent
      · exact .inl (hperm hpermanent)
      · right
        have : (d₀.retryCount + 1 : Int) ≤ ((since ms).length : Int) := by exact_mod_cast hn
        omega
    | @retry d₀ d e more moved =>
      obtain ⟨hchan, hn, -⟩ := hψ (moved.id.symm.trans hx)
      rw [moved.count, moved.status]
      exact ⟨hn, nofun⟩
    | @success d₀ d moved =>
      obtain ⟨hchan, hn⟩ := hψ (moved.id.symm.trans hx)
      rw [moved.count, moved.status]
      exact ⟨hn, nofun⟩
  | replay dead queued =>
    obtain ⟨id, rfl⟩ := replay_task hc hth rfl
    exact absurd rfl (hk id)
  | @tick d₀ d now ids pending queued =>
    subst queued
    have hfresh := h.sequential.sole.fresh t
    rw [hth, show threadStance x (some ⟨k, .tick (.snap d₀ ids), .ask _ f⟩) = .ticker d₀.retryCount from
      if_pos ⟨hx, pending⟩] at hfresh
    have hrow : s.state.db.row x = some (.pending, d₀.retryCount) := hfresh
    rw [Tables.row_stored hr] at hrow
    have hn := h.count r hr
    rw [show r.retryCount = d₀.retryCount from congrArg Prod.snd (Option.some.inj hrow)] at hn
    exact ⟨hn, nofun⟩

/-- The row after a step that is no replay's write. -/
theorem grounded_row (h : Grounded p x s ms) (hs : (machine p).Step s l s')
    (hrep : ¬ Replaying x s l) {r' : DeliveryRow} (hr' : s'.state.db.deliveries x = some r') :
    r'.retryCount ≤ (since ms).length ∧ (r'.status = .dlq → Cause p r'.channel (since ms)) := by
  have hc := h.sequential.sole.conforms
  cases wrote_step hs hr' with
  | kept before => exact ⟨h.count r' before, h.cause r' before⟩
  | @updated t c k φ d r f label effective running about before after =>
    have hk : ∀ id, k ≠ .replay id := by
      intro id hk
      subst hk
      exact hrep ⟨t, c, id, φ, d, f, label, running, effective, about⟩
    subst after
    obtain ⟨hn, hcause⟩ := grounded_updates h running about before hk
    exact ⟨hn, hcause⟩
  | @claimed t c k φ d st r f label effective running about before expected after =>
    obtain ⟨d₀, now, rfl, htake, -, rfl⟩ := claim_may (hc.may running)
    subst after
    obtain ⟨-, hn⟩ := h.hands t k _ _ running about
    exact ⟨hn htake, nofun⟩
  | @created t c k φ d exp subject payload headers schedule f label effective running about new after =>
    obtain ⟨req, rfl, rfl, hmakes, -⟩ := stores_minted (hc.may running)
    subst after
    constructor
    · show d.retryCount ≤ _
      rw [hmakes.count]
      exact Nat.zero_le _
    · show d.status = .dlq → _
      rw [hmakes.status]
      split <;> exact nofun

/-- What `FindByID` returns counts no more retries than there were attempts. -/
theorem counted_found (h : Grounded p x s ms) {id : String} {c : Choice} {d : Delivery} {w : World}
    (ha : Answered p s.state (.remote (.findByID id)) c (.ok d) w) :
    (WorkerPhase.snap d).Counted x (s.state.db.channelOf x) (since ms) := by
  intro hx
  obtain ⟨-, hexec⟩ := answered_ok ha
  have hfind : s.state.db.findByID id = .ok d := congrArg Prod.fst hexec
  unfold Tables.findByID at hfind
  split at hfind
  · rename_i r hr
    cases hfind
    have hx : id = x := hx
    subst hx
    refine ⟨?_, fun _ => h.count r hr⟩
    rw [Tables.channelOf, hr]
    rfl
  · cases hfind

theorem allow_answer {w w' : World} {proc : Nat} {ch : Channel} {c : Choice} {r : Ans (.allow proc ch)}
    (h : Answered p w (.allow proc ch) c r w') : r = ((w.breakers (proc, ch)).allow w.clock).1 := by
  cases h
  rfl

theorem send_answer {w w' : World} {d : Delivery} {c : Choice} {r : Ans (.send d)}
    (h : Answered p w (.send d) c r w') : c = .verdict r := by
  cases h
  rfl

/-- The call of a dispatch: a refusal is an attempt. -/
theorem counted_called (h : Grounded p x s ms) {t : Nat} {c : Choice} {k : Task} {ψ φ : WorkerPhase} {op : Op}
    {f : Ans op → CallTree Op Ans Result} {r : Ans op} {w : World}
    (running : s.threads t = some ⟨k, .worker ψ, .ask op f⟩) (answered : answer p op c s.state = some (r, w))
    (hmoves : WorkerMoves p k.Target k.Copies ψ op r φ) :
    φ.Counted x (s.state.db.channelOf x) (since (ms ++ callMarks x s.state k c op)) := by
  have hc := h.sequential.sole.conforms
  have hψ := h.hands t k ψ _ running
  have habout := worker_about hc running
  have hans := answer_cases (p := p) answered
  have hnil : ∀ {φ : WorkerPhase}, callMarks x s.state k c op = [] → φ.Counted x (s.state.db.channelOf x) (since ms) →
      φ.Counted x (s.state.db.channelOf x) (since (ms ++ callMarks x s.state k c op)) := by
    intro φ hmarks hφ
    rw [hmarks, List.append_nil]
    exact hφ
  cases hmoves with
  | clock φ t => exact hnil rfl hψ
  | uuid φ u => exact hnil rfl hψ
  | jitter φ n r => exact hnil rfl hψ
  | found about d => exact hnil rfl (counted_found h hans)
  | claimed takeable taken =>
    subst taken
    exact hnil rfl fun hx => ⟨(hψ hx).1, (hψ hx).2 takeable⟩
  | admitted d proc u =>
    refine hnil ?_ hψ
    rw [callMarks, ← allow_answer hans]
  | blocked d proc e =>
    intro hx
    obtain ⟨hch, hn⟩ := hψ hx
    have hmarks : callMarks x s.state k c (.allow proc d.channel) = [.rejected] := by
      rw [callMarks, ← allow_answer hans]
      exact if_pos (hx ▸ habout)
    rw [hmarks, since_append, if_neg nofun]
    exact ⟨hch, Nat.succ_le_succ hn, nofun⟩
  | @accepted d present res =>
    intro hx
    obtain ⟨hch, hn⟩ := hψ hx
    have hmarks : callMarks x s.state k c (.send d) = [.sent false] := by
      have hverdict := send_answer hans
      subst hverdict
      exact if_pos hx
    rw [hmarks, since_append, if_neg nofun]
    exact ⟨hch, Nat.le_succ_of_le hn⟩
  | @rejected d present e =>
    intro hx
    obtain ⟨hch, hn⟩ := hψ hx
    have hmarks : callMarks x s.state k c (.send d) = [.sent (isPermanent e)] := by
      have hverdict := send_answer hans
      subst hverdict
      exact if_pos hx
    rw [hmarks, since_append, if_neg nofun]
    refine ⟨hch, Nat.succ_le_succ hn, fun he => ?_⟩
    rw [he]
    exact List.mem_cons_self
  | failure d e proc u => exact hnil rfl hψ
  | success d proc u => exact hnil rfl hψ
  | settled settles u => cases settles <;> trivial
  | recorded records u => cases records <;> exact hnil rfl hψ
  | _ => trivial

theorem grounded_hands (h : Grounded p x s ms) (hs : (machine p).Step s l s') {u : Nat} {k : Task} {φ : WorkerPhase}
    {prog : CallTree Op Ans Result} (hu : s'.threads u = some ⟨k, .worker φ, prog⟩) :
    φ.Counted x (s'.state.db.channelOf x) (since (ms ++ marks x s l)) := by
  have hc := h.sequential.sole.conforms
  have hch : ∀ ch, s.state.db.channelOf x = some ch → s'.state.db.channelOf x = some ch := fun _ => channelOf_step hc hs
  rcases worker_origin hc hs hu with ⟨before, -⟩ | rfl | ⟨c, ψ, op, f, r, rfl, running, answered, hmoves⟩
  · have hφ := h.hands u k φ prog before
    rcases since_marks ms x s l with hsuf | ⟨-, hrep⟩
    · exact counted_mono hφ hch hsuf
    · have hidle := (replaying_writes h.sequential hs hrep).1 u
      exact counted_mono (counted_of_idle before hφ hidle) hch (List.suffix_refl _)
  · trivial
  · rw [marks_call running]
    exact counted_mono (counted_called h running answered hmoves) hch (List.suffix_refl _)

theorem grounded_step (h : Grounded p x s ms) (hok : InTurn x s l) (hs : (machine p).Step s l s') :
    Grounded p x s' (ms ++ marks x s l) := by
  have hrows : ∀ r', s'.state.db.deliveries x = some r' → r'.retryCount ≤ (since (ms ++ marks x s l)).length ∧
      (r'.status = .dlq → Cause p r'.channel (since (ms ++ marks x s l))) := by
    intro r' hr'
    by_cases hrep : Replaying x s l
    · obtain ⟨hst, hn⟩ := (replaying_writes h.sequential hs hrep).2 r' hr'
      rw [hst, hn]
      exact ⟨Nat.zero_le _, nofun⟩
    · obtain ⟨hn, hcause⟩ := grounded_row h hs hrep hr'
      rcases since_marks ms x s l with hsuf | ⟨-, hrep'⟩
      · exact ⟨le_trans hn hsuf.length_le, fun hst => cause_mono (hcause hst) hsuf⟩
      · exact absurd hrep' hrep
  exact {
    sequential := sequential_step h.sequential hok hs
    count := fun r' hr' => (hrows r' hr').1
    cause := fun r' hr' => (hrows r' hr').2
    hands := fun _ _ _ _ hu => grounded_hands h hs hu }

/-- In every run with one dispatch of `x`, one replay and one scheduler at a time, whatever happens to other
    deliveries, to the breakers and to the clock: `x` is dead-lettered only if since its last replay it has had
    no provider, was refused for good, or was attempted `MaxAttempts` times, by a send or a rejection. -/
theorem dead_lettered_for_cause (p : Params) (x : String) (ls : List Act) (s : System)
    (hok : (machine p).Along (fun s l _ => InTurn x s l) (System.init p) ls)
    (hrun : (machine p).run (System.init p) ls = some s) (r : DeliveryRow) (hr : s.state.db.deliveries x = some r)
    (hst : r.status = .dlq) :
    r.channel ∉ p.providers ∨
      .sent true ∈ since ((machine p).collect (marks x) (System.init p) ls) ∨
      p.maxAttempts ≤ ((since ((machine p).collect (marks x) (System.init p) ls)).length : Int) := by
  have h0 : Grounded p x (System.init p) [] := by
    refine ⟨init_sequential p x, fun r hr => ?_, fun r hr => ?_, fun t k φ prog hth => ?_⟩
    · cases hr
    · cases hr
    · cases hth
  have h : Grounded p x s ([] ++ (machine p).collect (marks x) (System.init p) ls) :=
    Machine.collect_invariant (fun s acc l s' h hs hb => grounded_step h hb hs) ls h0 hok hrun
  exact h.cause r hr hst

end

/-- Dispatches of one delivery that follow one another, in a run without ticks and replays. -/
theorem along_inTurn {p : Params} {x : String} {ls : List Act} (hnone : ls.all Act.startsNone = true)
    (hone : (machine p).aloneCheck (fun k => decide (k.Target x)) [] (System.init p) ls = true) :
    (machine p).Along (fun s l _ => InTurn x s l) (System.init p) ls := by
  have hnone : (machine p).Along (fun _ l _ => Act.startsNone l = true) (System.init p) ls :=
    Machine.along_of_forall ls _ fun l hl _ _ => List.all_eq_true.mp hnone l hl
  have hone := Machine.startsAlone_of_check ls (fun _ => rfl) hone
  refine Machine.Along.mono (fun s l _ h => ?_) ls (Machine.Along.and ls hnone hone)
  exact ⟨oneScheduler_of_startsNone h.1, oneReplay_of_startsNone h.1, h.2⟩

/-- A delivery that bounces. -/
def bounced : List Act := ingestCalls 0 "d1" ++ deadLetterCalls 1 "d1" "a1" ⟨"bounced", [.permanent]⟩

theorem dead_lettered_for_cause_sample :
    ∃ s r, (machine {}).run (System.init {}) bounced = some s ∧ s.state.db.deliveries "d1" = some r ∧ r.status = .dlq ∧
      (r.channel ∉ ({} : Params).providers ∨
        .sent true ∈ since ((machine {}).collect (marks "d1") (System.init {}) bounced) ∨
        ({} : Params).maxAttempts ≤ ((since ((machine {}).collect (marks "d1") (System.init {}) bounced)).length : Int)) := by
  have hrun : ((machine {}).run (System.init {}) bounced).map (fun s =>
      (s.state.db.deliveries "d1").map (·.status)) = some (some .dlq) := by
    decide +kernel
  obtain ⟨s, hs, hrow⟩ := Option.map_eq_some_iff.mp hrun
  obtain ⟨r, hr, hst⟩ := Option.map_eq_some_iff.mp hrow
  exact ⟨s, r, hs, hr, hst,
    dead_lettered_for_cause {} "d1" bounced s (along_inTurn (by decide) (by decide +kernel)) hs r hr hst⟩

/-- A dispatch of `id` that finds the breaker open. -/
def rejectedCalls (t : Nat) (id att : String) : List Act :=
  .start t (.dispatch 0 id) :: runs t 4 ++ [.call t (.uuid att)] ++ runs t 4 ++ [.call t (.rand 0)]

/-- Another delivery fails five times; then `d1` is dispatched eight times. -/
def behindOpenBreaker : List Act :=
  ingestCalls 0 "d2" { sampleRequest with idempotencyKey := "k2" } ++ retryCalls 1 "d2" "b1" ++ retryCalls 2 "d2" "b2" ++
    retryCalls 3 "d2" "b3" ++ retryCalls 4 "d2" "b4" ++ retryCalls 5 "d2" "b5" ++ ingestCalls 6 "d1" ++
    rejectedCalls 7 "d1" "a1" ++ rejectedCalls 8 "d1" "a2" ++ rejectedCalls 9 "d1" "a3" ++ rejectedCalls 10 "d1" "a4" ++
    rejectedCalls 11 "d1" "a5" ++ rejectedCalls 12 "d1" "a6" ++ rejectedCalls 13 "d1" "a7" ++
    .start 14 (.dispatch 0 "d1") :: runs 14 4 ++ [.call 14 (.uuid "a8")] ++ runs 14 5

/-- A delivery that has a provider and was never sent is dead-lettered. -/
theorem dead_lettered_unsent :
    (machine {}).Along (fun s l _ => InTurn "d1" s l) (System.init {}) behindOpenBreaker ∧
      ∃ s r, (machine {}).run (System.init {}) behindOpenBreaker = some s ∧ s.state.db.deliveries "d1" = some r ∧
        r.status = .dlq ∧ r.channel ∈ ({} : Params).providers ∧
        ((machine {}).collect (marks "d1") (System.init {}) behindOpenBreaker).countP Mark.isSend = 0 := by
  refine ⟨along_inTurn (by decide) (by decide +kernel), ?_⟩
  have hrun : ((machine {}).run (System.init {}) behindOpenBreaker).map (fun s =>
      (s.state.db.deliveries "d1").map fun r => (r.status, r.channel)) = some (some (.dlq, .email)) := by
    decide +kernel
  obtain ⟨s, hs, hrow⟩ := Option.map_eq_some_iff.mp hrun
  obtain ⟨r, hr, hcols⟩ := Option.map_eq_some_iff.mp hrow
  rw [Prod.mk.injEq] at hcols
  refine ⟨s, r, hs, hr, hcols.1, ?_, by decide +kernel⟩
  rw [hcols.2]
  decide

end GoCourier
