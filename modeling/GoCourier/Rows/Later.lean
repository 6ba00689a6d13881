import GoCourier.Ledger.Recovery
import GoCourier.Rows.Writes

/- A delivery ingested for later. It is stored pending, with a scheduled row for its time,
   and only a tick that has fetched that row writes it; everyone else finds it pending
   and leaves it alone. So whatever is dispatched or replayed meanwhile, and whoever
   crashes, nothing is sent before a tick has read a clock that has come so far. -/
namespace GoCourier

open Interleave

/-- `x` was ingested at a time before the one it is for. -/
def World.Later (w : World) (x : String) (at_ : Time) : Prop :=
  ∃ r, w.db.deliveries x = some r ∧ r.scheduledAt = some at_ ∧ r.createdAt < at_

/-- A `FetchDue` that has read a clock of `at_` or later. -/
def fetchesAt (at_ : Time) : Called → Bool
  | ⟨_, _, .remote (.fetchDue before _), .ok _⟩ => at_ ≤ before
  | _ => false

/-- The deliveries a tick has in hand. -/
def TickPhase.ids : TickPhase → List String
  | .going ids => ids
  | .snap d ids => d.id :: ids
  | .requeued d ids => d.id :: ids
  | .enqueued d ids => d.id :: ids
  | .marked d ids => d.id :: ids
  | _ => []

/-- Who stands towards a delivery has found it stored, and a dispatch or a replay has found it released. -/
def Ledger.Touched (L : Ledger) : Stance → Prop
  | .away => True
  | .ticker _ => L.row ≠ none
  | _ => L.Released

section
variable {max : Int} {deed : Deed} {L L' : Ledger} {a a' b : Stance}

theorem touched_turn (h : Turn max deed L a L' a') (ha : L.Touched a) : L'.Touched a' := by
  cases h with
  | idle => exact ha
  | look row takeable => exact ⟨_, _, row, takeable_ne_pending takeable⟩
  | lookReplay row dead => exact ⟨_, _, row, by rcases dead with rfl | rfl <;> exact nofun⟩
  | lookTick row => exact fun hnone => by rw [row] at hnone; cases hnone
  | claim row takeable => exact ⟨_, _, rfl, nofun⟩
  | accept n => exact ha
  | refuse n => exact ha
  | block n => exact ha
  | note n => exact ha
  | settle hset =>
    have hL : L.Released := by cases hset <;> exact ha
    cases hset with
    | noProvider n => trivial
    | giveUp n => trivial
    | retry more => exact released_map (released_ne_none hL) nofun
    | succeed n => exact released_map (released_ne_none hL) nofun
  | _ => trivial

/-- What is stored stays so, and what is released stays released. -/
theorem touched_others (h : Turn max deed L a L' a') (hb : L.Touched b) : L'.Touched b := by
  cases b with
  | away => trivial
  | ticker n => exact row_present h hb
  | _ => exact released_turn h hb

/-- Nobody who is away writes a pending delivery. -/
theorem pending_of_away {n : Nat} (h : Turn max deed L .away L' a') (hrow : L.row = some (.pending, n)) :
    L'.row = some (.pending, n) := by
  cases h with
  | create none new =>
    rw [none] at hrow
    cases hrow
  | settle hset => cases hset
  | settleLost hset => cases hset
  | _ => exact hrow

end

section
variable {p : Params} {s s' : System} {l : Act} {x : String} {at_ : Time}

/-- A stored delivery stays stored; a write sets four columns of it and keeps the others. -/
theorem stored_step (hc : (machine p).Conforms (protocol p) s) (hs : (machine p).Step s l s') {r : DeliveryRow}
    (hr : s.state.db.deliveries x = some r) :
    ∃ r', s'.state.db.deliveries x = some r' ∧ (r' = r ∨ ∃ d, r' = r.set d) := by
  obtain ⟨t, deed, L, a, hview, hturn, -⟩ := view_step x hc hs
  have hrow : s.state.db.row x ≠ none := by
    rw [Tables.row_stored hr]
    exact Option.some_ne_none _
  have hrow' : s'.state.db.row x ≠ none := by
    have hL : (System.view x s').shared = L := by rw [hview, Board.turn_shared]
    have hne := row_present hturn hrow
    rw [← hL] at hne
    exact hne
  obtain ⟨r', hr'⟩ := Option.ne_none_iff_exists'.mp (mt Option.map_eq_none_iff.mpr hrow')
  refine ⟨r', hr', ?_⟩
  cases wrote_step hs hr' with
  | kept before => exact .inl (Option.some.inj (before.symm.trans hr))
  | updated label effective running about before after =>
    obtain rfl := Option.some.inj (before.symm.trans hr)
    exact .inr ⟨_, after⟩
  | claimed label effective running about before expected after =>
    obtain rfl := Option.some.inj (before.symm.trans hr)
    exact .inr ⟨_, after⟩
  | created label effective running about new after =>
    rw [new] at hr
    cases hr

/-- What the delivery is for stays as it was ingested. -/
theorem fixed_step (hc : (machine p).Conforms (protocol p) s) (hs : (machine p).Step s l s') {r : DeliveryRow}
    (hr : s.state.db.deliveries x = some r) :
    ∃ r', s'.state.db.deliveries x = some r' ∧ r'.scheduledAt = r.scheduledAt ∧ r'.createdAt = r.createdAt ∧
      r'.channel = r.channel := by
  obtain ⟨r', hr', hset⟩ := stored_step hc hs hr
  refine ⟨r', hr', ?_⟩
  rcases hset with rfl | ⟨d, rfl⟩
  · exact ⟨rfl, rfl, rfl⟩
  · exact ⟨rfl, rfl, rfl⟩

theorem todo_ids {φ : TickPhase} {ids : List String} (h : φ.todo = some ids) : ids ⊆ φ.ids := by
  unfold TickPhase.todo at h
  split at h
  · cases h
    exact List.Subset.refl _
  · split at h
    · cases h
    · cases h
      exact List.subset_cons_self ..
  · cases h

/-- A tick gets what it has in hand from `FetchDue`. -/
theorem tick_ids (at_ : Time) {ψ φ : TickPhase} {op : Op} {c : Choice} {r : Ans op} {w : World}
    (answered : answer p op c s.state = some (r, w)) (h : TickMoves p ψ op r φ) :
    φ.ids ⊆ ψ.ids ∨ ∃ before limit, φ.ids = s.state.db.fetchDue before limit ∧
      ∀ t, fetchesAt at_ ⟨t, .processDue, op, r⟩ = decide (at_ ≤ before) := by
  have hans := answer_cases (p := p) answered
  cases h with
  | clock now => exact .inl (List.Subset.refl _)
  | fetched before limit ids =>
    obtain ⟨-, hexec⟩ := answered_ok hans
    have hids : s.state.db.fetchDue before limit = ids := Except.ok.inj (congrArg Prod.fst hexec)
    exact .inr ⟨before, limit, hids.symm, fun t => rfl⟩
  | unfetched before limit e => exact .inl (List.nil_subset _)
  | @read _ id ids todo d =>
    left
    obtain ⟨-, hexec⟩ := answered_ok hans
    obtain ⟨hid, -⟩ := Tables.findByID_ok (show s.state.db.findByID id = .ok d from congrArg Prod.fst hexec)
    show d.id :: ids ⊆ ψ.ids
    rw [hid]
    exact todo_ids todo
  | missing todo e => exact .inl (List.Subset.trans (List.subset_cons_self ..) (todo_ids todo))
  | wrote ids pending queued =>
    left
    subst queued
    exact List.Subset.refl _
  | unwritten ids pending queued e => exact .inl (List.nil_subset _)
  | enqueued d ids => exact .inl (List.Subset.refl _)
  | unenqueued d ids e => exact .inl (List.nil_subset _)
  | marked d ids => exact .inl (List.Subset.refl _)
  | unmarked d ids e => exact .inl (List.nil_subset _)
  | appended d ids payload r => exact .inl (List.subset_cons_self ..)

/-- A fetched delivery has a scheduled row whose time has come. -/
theorem mem_fetchDue {t : Tables} {before : Time} {limit : Nat} (h : x ∈ t.fetchDue before limit) :
    ∃ r ∈ t.scheduled, r.deliveryId = x ∧ r.scheduledAt ≤ before := by
  obtain ⟨r, hr, hx⟩ := List.mem_map.mp h
  have hmem := (List.perm_insertionSort ..).mem_iff.mp (List.mem_of_mem_take hr)
  rw [List.mem_filter, decide_eq_true_eq] at hmem
  exact ⟨r, hmem.1, hx, hmem.2.2⟩

/-- Nobody has fetched `x` yet. -/
def Unfetched (x : String) (at_ : Time) (s : System) : Prop :=
  s.state.Later x at_ ∧ s.hist.any (fetchesAt at_) = false

/-- Until a tick has fetched it, a delivery for later is pending and in nobody's hands. -/
structure Waits (p : Params) (x : String) (at_ : Time) (s : System) : Prop where
  sane : Sane p s
  touched : ∀ t, (ledger x s.state s.hist).Touched (threadStance x (s.threads t))
  known : ∀ t k φ prog, s.threads t = some ⟨k, .tick φ, prog⟩ → x ∈ φ.ids → s.state.db.row x ≠ none
  times : ∀ sr ∈ s.state.db.scheduled, sr.deliveryId = x →
    ∃ r, s.state.db.deliveries x = some r ∧ r.scheduledAt = some sr.scheduledAt
  pending : Unfetched x at_ s → ∃ n, s.state.db.row x = some (.pending, n)
  free : Unfetched x at_ s → ∀ t k φ prog, s.threads t = some ⟨k, .tick φ, prog⟩ → x ∉ φ.ids

theorem touched_step (hc : (machine p).Conforms (protocol p) s)
    (h : ∀ t, (ledger x s.state s.hist).Touched (threadStance x (s.threads t))) (hs : (machine p).Step s l s') (u : Nat) :
    (ledger x s'.state s'.hist).Touched (threadStance x (s'.threads u)) := by
  obtain ⟨t, deed, L, a, hview, hturn, -⟩ := view_step x hc hs
  show (System.view x s').shared.Touched ((System.view x s').places u)
  rw [hview]
  by_cases hu : u = t
  · subst hu
    rw [Board.turn_self]
    exact touched_turn hturn (h u)
  · rw [Board.turn_other _ _ _ hu]
    exact touched_others hturn (h u)

theorem row_step (hc : (machine p).Conforms (protocol p) s) (hs : (machine p).Step s l s')
    (h : s.state.db.row x ≠ none) : s'.state.db.row x ≠ none := by
  obtain ⟨r, hr, -⟩ := Option.map_eq_some_iff.mp (Option.ne_none_iff_exists'.mp h).choose_spec
  obtain ⟨r', hr', -⟩ := stored_step hc hs hr
  rw [Tables.row_stored hr']
  exact Option.some_ne_none _

/-- A delivery with a scheduled row is stored. -/
theorem row_of_scheduled (h : Sane p s) {sr : ScheduledRow} (hsr : sr ∈ s.state.db.scheduled)
    (hx : sr.deliveryId = x) : s.state.db.row x ≠ none := by
  have howner := h.linked.scheduled sr hsr
  rw [hx] at howner
  exact mt Tables.row_eq_none.mp howner

theorem known_step (h : Waits p x at_ s) (hs : (machine p).Step s l s') {u : Nat} {k : Task} {φ : TickPhase}
    {prog : CallTree Op Ans Result} (hu : s'.threads u = some ⟨k, .tick φ, prog⟩) (hx : x ∈ φ.ids) :
    s'.state.db.row x ≠ none := by
  have hc := h.sane.conforms
  apply row_step hc hs
  rcases tick_origin hc hs hu with ⟨before, -⟩ | rfl | ⟨c, ψ, op, f, r, hl, running, answered, hmoves⟩
  · exact h.known u k φ prog before hx
  · cases hx
  · rcases tick_ids at_ answered hmoves with hsub | ⟨before, limit, hids, -⟩
    · exact h.known u _ ψ _ running (hsub hx)
    · rw [hids] at hx
      obtain ⟨sr, hsr, hsrx, -⟩ := mem_fetchDue hx
      exact row_of_scheduled h.sane hsr hsrx

theorem times_step (h : Waits p x at_ s) (hs : (machine p).Step s l s') {sr : ScheduledRow}
    (hsr : sr ∈ s'.state.db.scheduled) (hx : sr.deliveryId = x) :
    ∃ r, s'.state.db.deliveries x = some r ∧ r.scheduledAt = some sr.scheduledAt := by
  have hc := h.sane.conforms
  have hold : ∀ sr₀ ∈ s.state.db.scheduled, sr₀.deliveryId = x → sr₀.scheduledAt = sr.scheduledAt →
      ∃ r, s'.state.db.deliveries x = some r ∧ r.scheduledAt = some sr.scheduledAt := by
    intro sr₀ hsr₀ hx₀ hat₀
    obtain ⟨r, hr, hat⟩ := h.times sr₀ hsr₀ hx₀
    obtain ⟨r', hr', hat', -⟩ := fixed_step hc hs hr
    exact ⟨r', hr', by rw [hat', hat, hat₀]⟩
  cases worked_step hc hs with
  | same owner outbox scheduled =>
    rw [scheduled] at hsr
    exact hold sr hsr hx rfl
  | @ingested req d exp headers schedule makes committed =>
    have hin := Tables.ingested_of_ok h.sane.linked committed
    rw [hin.scheduled] at hsr
    rcases List.mem_append.mp hsr with hsr | hsr
    · exact hold sr hsr hx rfl
    · refine ⟨d.toRow s.state.db.jsonb, ?_, ?_⟩
      · rw [hin.deliveries, ← hx, (Tables.ingestWork_about ..).1 sr hsr, Function.update_self]
      · exact Tables.ingestWork_times _ _ _ _ _ _ _ sr hsr
  | enqueued label caller stored =>
    rw [stored] at hsr
    exact hold sr hsr hx rfl
  | processed label caller stored =>
    rw [stored] at hsr
    obtain ⟨sr₀, hsr₀, rfl⟩ := List.mem_map.mp hsr
    split at hx
    · refine hold sr₀ hsr₀ hx ?_
      split <;> rfl
    · refine hold sr₀ hsr₀ hx ?_
      split <;> rfl
  | published label caller phase stored =>
    rw [stored] at hsr
    exact hold sr hsr hx rfl
  | refused label caller stored =>
    rw [stored] at hsr
    exact hold sr hsr hx rfl

/-- A delivery for later that was not there before is new and pending. -/
theorem later_created (hc : (machine p).Conforms (protocol p) s) (hs : (machine p).Step s l s')
    (h : s'.state.Later x at_) (hno : ¬ s.state.Later x at_) :
    (∃ n, s'.state.db.row x = some (.pending, n)) ∧ s.state.db.row x = none ∧
      ∃ t c req φ prog, l = .call t c ∧ s.threads t = some ⟨.ingest req, φ, prog⟩ := by
  obtain ⟨r', hr', hat, hlt⟩ := h
  have hrow : ∀ {st : Status}, r'.status = st → ∃ n, s'.state.db.row x = some (st, n) := by
    intro st hst
    exact ⟨r'.retryCount, by rw [Tables.row_stored hr', hst]⟩
  cases wrote_step hs hr' with
  | kept before => exact absurd ⟨r', before, hat, hlt⟩ hno
  | updated label effective running about before after =>
    rw [after] at hat hlt
    exact absurd ⟨_, before, hat, hlt⟩ hno
  | claimed label effective running about before expected after =>
    rw [after] at hat hlt
    exact absurd ⟨_, before, hat, hlt⟩ hno
  | @created t c k φ d exp subject payload headers schedule f label effective running about new after =>
    obtain ⟨req, rfl, rfl, hmakes, -⟩ := stores_minted (hc.may running)
    rw [after] at hat hlt
    have hschedule : schedule = true := by
      rw [hmakes.decided, Delivery.shouldSchedule, show d.scheduledAt = some at_ from hat]
      exact decide_eq_true hlt
    refine ⟨hrow ?_, ?_, t, c, req, _, _, label, running⟩
    · rw [after]
      show d.status = .pending
      rw [hmakes.status, if_pos hschedule]
    · rw [Tables.row, new]
      rfl

/-- A step that leaves `x` unfetched found it so, or created it. -/
theorem unfetched_before (hs : (machine p).Step s l s') (h : Unfetched x at_ s') (hlater : s.state.Later x at_) :
    Unfetched x at_ s := by
  refine ⟨hlater, ?_⟩
  have hany := h.2
  rcases hs.heard with hhist | ⟨t, c, k, φ, op, f, r, -, -, -, -, hhist⟩
  · rwa [hhist] at hany
  · rw [hhist, List.any_cons, Bool.or_eq_false_iff] at hany
    exact hany.2

/-- Who stands towards an unfetched delivery is nobody. -/
theorem away_of_unfetched (h : Waits p x at_ s) (hu : Unfetched x at_ s) (t : Nat) :
    threadStance x (s.threads t) = .away := by
  have htouched := h.touched t
  obtain ⟨n, hrow⟩ := h.pending hu
  have hfree : ¬ (ledger x s.state s.hist).Released := by
    intro hrel
    obtain ⟨st, m, hst, hne⟩ := hrel
    rw [show (ledger x s.state s.hist).row = _ from hrow] at hst
    cases hst
    exact hne rfl
  cases hst : threadStance x (s.threads t) with
  | away => rfl
  | ticker m =>
    obtain ⟨⟨k, φ, prog⟩, hth, hstanding⟩ := standing_thread hst nofun
    cases hstanding with
    | @ticker d ids id pending =>
      refine absurd ?_ (h.free hu t k _ prog hth)
      rw [← id]
      exact List.mem_cons_self
  | _ =>
    rw [hst] at htouched
    exact absurd htouched hfree

theorem pending_waits_step (h : Waits p x at_ s) (hs : (machine p).Step s l s') (hu : Unfetched x at_ s') :
    ∃ n, s'.state.db.row x = some (.pending, n) := by
  have hc := h.sane.conforms
  by_cases hlater : s.state.Later x at_
  · have hbefore := unfetched_before hs hu hlater
    obtain ⟨n, hrow⟩ := h.pending hbefore
    obtain ⟨t, deed, L, a, hview, hturn, -⟩ := view_step x hc hs
    have hL : (System.view x s').shared = L := by rw [hview, Board.turn_shared]
    have haway : (System.view x s).places t = .away := away_of_unfetched h hbefore t
    rw [haway] at hturn
    have hrow' := pending_of_away hturn hrow
    rw [← hL] at hrow'
    exact ⟨n, hrow'⟩
  · exact (later_created hc hs hu.1 hlater).1

theorem free_step (h : Waits p x at_ s) (hs : (machine p).Step s l s') (hu : Unfetched x at_ s') {u : Nat} {k : Task}
    {φ : TickPhase} {prog : CallTree Op Ans Result} (hth : s'.threads u = some ⟨k, .tick φ, prog⟩) : x ∉ φ.ids := by
  have hc := h.sane.conforms
  intro hx
  by_cases hlater : s.state.Later x at_
  · have hbefore := unfetched_before hs hu hlater
    rcases tick_origin hc hs hth with ⟨before, -⟩ | rfl | ⟨c, ψ, op, f, r, rfl, running, answered, hmoves⟩
    · exact h.free hbefore u k φ prog before hx
    · cases hx
    · rcases tick_ids at_ answered hmoves with hsub | ⟨before, limit, hids, hfetch⟩
      · exact h.free hbefore u _ ψ _ running (hsub hx)
      · -- the clock that was read had not come so far
        obtain ⟨r', hans, -, hhist⟩ := hs.called running
        obtain rfl : r' = r := congrArg Prod.fst (Option.some.inj (hans.symm.trans answered))
        have hany := hu.2
        rw [hhist, List.any_cons, Bool.or_eq_false_iff, hfetch, decide_eq_false_iff_not] at hany
        rw [hids] at hx
        obtain ⟨sr, hsr, hsrx, hdue⟩ := mem_fetchDue hx
        obtain ⟨row, hrow, hat⟩ := h.times sr hsr hsrx
        obtain ⟨row', hrow', hat', -⟩ := hlater
        obtain rfl := Option.some.inj (hrow.symm.trans hrow')
        obtain rfl := Option.some.inj (hat.symm.trans hat')
        exact hany.1 hdue
  · -- nobody can have a new delivery in hand
    obtain ⟨-, hnew, t, c, req, ψ, prog', hl, hcaller⟩ := later_created hc hs hu.1 hlater
    rcases tick_origin hc hs hth with ⟨before, -⟩ | rfl | ⟨c', ψ', op, f, r, hl', running, -⟩
    · exact h.known u k φ prog before hx hnew
    · cases hx
    · cases hl.symm.trans hl'
      cases hcaller.symm.trans running

theorem waits_step (h : Waits p x at_ s) (hs : (machine p).Step s l s') : Waits p x at_ s' where
  sane := sane_step h.sane hs
  touched := touched_step h.sane.conforms h.touched hs
  known _ _ _ _ := known_step h hs
  times _ := times_step h hs
  pending := pending_waits_step h hs
  free hu _ _ _ _ := free_step h hs hu

theorem init_waits (p : Params) (x : String) (at_ : Time) : Waits p x at_ (System.init p) where
  sane := init_sane p
  touched _ := trivial
  known t k φ prog hth := by cases hth
  times sr hsr := by cases hsr
  pending hu := by
    obtain ⟨r, hr, -⟩ := hu.1
    cases hr
  free _ t k φ prog hth := by cases hth

/-! The clock. -/

/-- The clock is never set back. -/
def ClockForward (s : System) (l : Act) : Prop := ∀ t, l = .move (.clock t) → s.state.clock ≤ t

theorem answered_clock {w w' : World} {op : Op} {c : Choice} {r : Ans op} (h : Answered p w op c r w') :
    w'.clock = w.clock := by
  cases h with
  | ran q => exact (exec_rest p w q).2.2
  | lost q msg => exact (exec_rest p w q).2.2
  | _ => rfl

theorem enter_clock {k : Task} {w w' : World} (h : w.enter p k = some w') : w'.clock = w.clock := by
  unfold World.enter at h
  split at h
  · split at h
    · cases h
      rfl
    · cases h
  · cases h
    rfl

theorem clock_step (hok : ClockForward s l) (hs : (machine p).Step s l s') : s.state.clock ≤ s'.state.clock := by
  cases hs with
  | start free entered => exact le_of_eq (enter_clock entered).symm
  | call running answered => exact le_of_eq (answered_clock (answer_cases answered)).symm
  | crash running => exact le_refl _
  | @move m w moved =>
    cases m with
    | clock t =>
      have hle := hok t rfl
      cases moved
      exact hle
    | ackWait i c =>
      have hmoved : s.state.move (.ackWait i c) = some w := moved
      simp only [World.move] at hmoved
      split at hmoved
      · cases hmoved
        exact le_refl _
      · cases hmoved

/-- The clock has come to what the ticks have read of it. -/
structure Clocked (p : Params) (s : System) : Prop where
  conforms : (machine p).Conforms (protocol p) s
  asked : ∀ t k now prog, s.threads t = some ⟨k, .tick (.asked now), prog⟩ → now ≤ s.state.clock
  fetched : ∀ at_, s.hist.any (fetchesAt at_) = true → at_ ≤ s.state.clock

theorem clocked_step (h : Clocked p s) (hok : ClockForward s l) (hs : (machine p).Step s l s') : Clocked p s' := by
  have hc := h.conforms
  have hclock := clock_step hok hs
  refine ⟨Machine.conforms_step hc hs, fun u k now prog hu => ?_, fun at_ hany => ?_⟩
  · rcases tick_origin hc hs hu with ⟨before, -⟩ | hstart | ⟨c, ψ, op, f, r, rfl, running, answered, hmoves⟩
    · exact le_trans (h.asked u k now prog before) hclock
    · cases hstart
    · have hans := answer_cases (p := p) answered
      generalize s'.state = w' at hans hclock
      cases hmoves with
      | clock now =>
        cases hans
        exact hclock
  · rcases hs.heard with hhist | ⟨t, c, k, φ, op, f, r, rfl, running, answered, -, hhist⟩
    · rw [hhist] at hany
      exact le_trans (h.fetched at_ hany) hclock
    · rw [hhist, List.any_cons, Bool.or_eq_true] at hany
      rcases hany with hnow | hany
      · unfold fetchesAt at hnow
        split at hnow
        · rename_i t' k' before limit ids heq
          obtain ⟨rfl, rfl, rfl, -⟩ := Event.mk.inj heq
          have hle := of_decide_eq_true hnow
          have hm : May p k φ (.remote (.fetchDue before limit)) := hc.may running
          cases φ with
          | tick φ =>
            cases k with
            | processDue =>
              have hφ : φ = .asked before := hm
              subst hφ
              exact le_trans hle (le_trans (h.asked _ _ _ _ running) hclock)
            | _ => exact hm.elim
          | _ => cases k <;> exact hm.elim
        · cases hnow
      · exact le_trans (h.fetched at_ hany) hclock

/-- The delivery of a `Send` has been released. -/
theorem released_of_send (h : Waits p x at_ s) {t : Nat} {k : Task} {φ : Phase} {d : Delivery}
    {f : Ans (.send d) → CallTree Op Ans Result} (hth : s.threads t = some ⟨k, φ, .ask (.send d) f⟩) (hx : d.id = x) :
    threadStance x (s.threads t) ≠ .away := by
  have hm : May p k φ (.send d) := h.sane.conforms.may hth
  cases φ with
  | worker φ =>
    obtain ⟨rfl, -⟩ := worker_may hm
    rw [hth]
    intro haway
    rw [show threadStance x (some ⟨k, .worker (.owned d), .ask (.send d) f⟩) = .owner d.retryCount from if_pos hx] at haway
    cases haway
  | _ => cases k <;> exact hm.elim

/-- In every run, whatever fails, crashes or is dispatched: a delivery for later stays pending until a `FetchDue` has
    read a clock that has come to its time, and if the clock is never set back it is not sent before. -/
theorem scheduled_never_early (p : Params) (x : String) (at_ : Time) :
    (∀ s, (machine p).Reach (fun _ _ => True) (System.init p) s → s.state.Later x at_ →
      s.hist.any (fetchesAt at_) = false → ∃ n, s.state.db.row x = some (.pending, n)) ∧
    ∀ s, (machine p).Reach ClockForward (System.init p) s → s.state.Later x at_ →
      ∀ t k φ d f, s.threads t = some ⟨k, φ, .ask (.send d) f⟩ → d.id = x → at_ ≤ s.state.clock := by
  have hwaits : ∀ {ok : System → Act → Prop} {s : System}, (machine p).Reach ok (System.init p) s → Waits p x at_ s :=
    fun hr => hr.invariant (init_waits p x at_) fun _ _ _ h _ hs => waits_step h hs
  refine ⟨fun s hr hlater hnone => (hwaits hr).pending ⟨hlater, hnone⟩, fun s hr hlater t k φ d f hth hx => ?_⟩
  have h := hwaits hr
  have h0 : Clocked p (System.init p) := by
    refine ⟨init_conforms p, fun t k now prog hth => ?_, fun at_ hany => ?_⟩
    · cases hth
    · cases hany
  have hclocked : Clocked p s := hr.invariant h0 fun _ _ _ h hok hs => clocked_step h hok hs
  apply hclocked.fetched
  by_contra hnot
  exact released_of_send h hth hx (away_of_unfetched h ⟨hlater, eq_false_of_ne_true hnot⟩ t)

end

/-- A dispatch before the time. -/
def dispatchedEarly : List Act := ingestCalls 0 "d1" laterRequest ++ [.start 1 (.dispatch 0 "d1")] ++ runs 1 2

/-- A tick at the time, and a dispatch up to its `Send`. -/
def sentOnTime : List Act :=
  dispatchedEarly ++ [.move (.clock 5), .start 2 .processDue] ++ runs 2 7 ++ [.start 3 (.dispatch 0 "d1")] ++
    runs 3 4 ++ [.call 3 (.uuid "a1")]

/-- The thread's next call is a `Send` of `x`. -/
def sendsNext (x : String) : Option (Thread Op Ans Task Result Phase) → Bool
  | some ⟨_, _, .ask (.send d) _⟩ => d.id = x
  | _ => false

theorem sendsNext_true {x : String} {th : Option (Thread Op Ans Task Result Phase)} (h : sendsNext x th = true) :
    ∃ k φ d f, th = some ⟨k, φ, .ask (.send d) f⟩ ∧ d.id = x := by
  unfold sendsNext at h
  split at h
  · exact ⟨_, _, _, _, rfl, of_decide_eq_true h⟩
  · cases h

def forwardCheck (s : System) : Act → Bool
  | .move (.clock t) => s.state.clock ≤ t
  | _ => true

theorem clockForward_of_check {s : System} {l : Act} (h : forwardCheck s l = true) : ClockForward s l := by
  intro t hl
  subst hl
  exact of_decide_eq_true h

theorem later_of_columns {w : World} {x : String} {at_ t : Time}
    (h : (w.db.deliveries x).map (fun r => (r.scheduledAt, r.createdAt)) = some (some at_, t)) (hlt : t < at_) :
    w.Later x at_ := by
  obtain ⟨r, hr, hcols⟩ := Option.map_eq_some_iff.mp h
  simp only [Prod.mk.injEq] at hcols
  exact ⟨r, hr, hcols.1, by rw [hcols.2]; exact hlt⟩

theorem scheduled_never_early_sample :
    (∃ s, (machine {}).run (System.init {}) dispatchedEarly = some s ∧ ∃ n, s.state.db.row "d1" = some (.pending, n)) ∧
      ∃ s, (machine {}).run (System.init {}) sentOnTime = some s ∧ sendsNext "d1" (s.threads 3) = true ∧
        5 ≤ s.state.clock := by
  have h := scheduled_never_early {} "d1" 5
  constructor
  · have hrun : ((machine {}).run (System.init {}) dispatchedEarly).map (fun s =>
        ((s.state.db.deliveries "d1").map (fun r => (r.scheduledAt, r.createdAt)), s.hist.any (fetchesAt 5))) =
          some (some (some 5, 0), false) := by
      decide +kernel
    obtain ⟨s, hs, hparts⟩ := Option.map_eq_some_iff.mp hrun
    rw [Prod.mk.injEq] at hparts
    have hr := Machine.reach_of_run dispatchedEarly .refl
      (Machine.along_of_forall dispatchedEarly _ fun _ _ _ _ => trivial) hs
    exact ⟨s, hs, h.1 s hr (later_of_columns hparts.1 (by decide)) hparts.2⟩
  · have hrun : ((machine {}).run (System.init {}) sentOnTime).map (fun s =>
        ((s.state.db.deliveries "d1").map (fun r => (r.scheduledAt, r.createdAt)), sendsNext "d1" (s.threads 3))) =
          some (some (some 5, 0), true) := by
      decide +kernel
    obtain ⟨s, hs, hparts⟩ := Option.map_eq_some_iff.mp hrun
    rw [Prod.mk.injEq] at hparts
    have hforward := Machine.along_of_check sentOnTime
      (show (machine {}).check forwardCheck (System.init {}) sentOnTime = true by decide +kernel)
    have hr : (machine {}).Reach ClockForward (System.init {}) s :=
      Machine.reach_of_run sentOnTime .refl
        (Machine.Along.mono (fun _ _ _ => clockForward_of_check) sentOnTime hforward) hs
    obtain ⟨k, φ, d, f, hth, hx⟩ := sendsNext_true hparts.2
    exact ⟨s, hs, hparts.2, h.2 s hr (later_of_columns hparts.1 (by decide)) 3 k φ d f hth hx⟩

end GoCourier
