import GoCourier.Ledger.SoleOwner

/- Any number of replays at once. `ReplayDelivery` reads a status and then writes
   whatever the row has become. Statuses move along the lifecycle, and no second send
   is accepted, exactly as long as each such write, and each of the scheduler's, finds
   the delivery idle. -/
namespace GoCourier

open Interleave

section
variable {p : Params} {s s' : System} {l : Act} {x : String}

/-- A replay's or a tick's `Update` of `x` that takes effect finds it pending, queued, dead or failed. -/
def WritesIdle (x : String) : System → Act → Prop := OnCall fun k op c w =>
  ∀ d, op = .remote (.update d) → (∃ id, k = .replay id) ∨ k = .processDue → c.Effective → d.id = x →
    ∀ st n, w.db.row x = some (st, n) → st.Idle

/-- The step moves `x` along the lifecycle or not at all, and leaves it with one accepted send at most. -/
def Lawful (x : String) (s : System) (_ : Act) (s' : System) : Prop :=
  (∀ st n st' n', s.state.db.row x = some (st, n) → s'.state.db.row x = some (st', n') →
    st' = st ∨ Lifecycle st st') ∧ s'.hist.countP (accepts x) ≤ 1

theorem idle_of_lifecycle {st : Status} (h : .queued = st ∨ Lifecycle st .queued) : st.Idle := by
  rcases h with rfl | h
  · exact .inr (.inl rfl)
  · cases h with
    | release => exact .inl rfl
    | finish h => rcases h with h | h | h <;> cases h
    | replay h => exact .inr (.inr h)

/-- What a replay or a tick writes is a queued delivery. -/
theorem rewrite_queued {k : Task} {φ : Phase} {d : Delivery} (hm : May p k φ (.remote (.update d)))
    (hk : (∃ id, k = .replay id) ∨ k = .processDue) : d.status = .queued := by
  rcases hk with ⟨id, rfl⟩ | rfl
  · cases φ with
    | replay φ =>
      obtain ⟨d₀, now, -, -, rfl⟩ := hm
      rfl
    | _ => exact hm.elim
  · cases φ with
    | tick φ =>
      obtain ⟨d₀, now, ids, -, -, rfl⟩ := hm
      rfl
    | _ => exact hm.elim

theorem writesIdle_of_lawful (hc : (machine p).Conforms (protocol p) s) (hs : (machine p).Step s l s')
    (h : Lawful x s l s') : WritesIdle x s l := by
  intro t c k φ op f hl hth d hop hk heff hid st n hrow
  subst hl hop
  cases hs with
  | call running answered =>
    rw [hth] at running
    cases running
    have hqueued : d.status = .queued := rewrite_queued (hc.may hth) hk
    obtain ⟨-, hw⟩ := answered_update (x := x) (answer_cases answered)
    rcases hw with ⟨-, hw⟩ | ⟨⟨msg, rfl⟩, -⟩
    · rw [if_pos hid, hrow, hqueued] at hw
      exact idle_of_lifecycle (h.1 _ _ _ _ hrow hw)
    · exact heff.elim

theorem mild_of_writesIdle {t : Nat} {deed : Deed} (h : WritesIdle x s l) (hb : StepBehind x s l t deed) :
    Mild deed (System.view x s).shared := by
  rintro (rfl | rfl | rfl) st n hrow
  · obtain (h₁ | ⟨h₁, -⟩) | ⟨c, k, φ, op, f, rfl, hth, d, id, rfl, rfl, rfl, hid⟩ := hb
    · cases h₁
    · cases h₁
    · exact h t _ _ φ _ f rfl hth d rfl (.inl ⟨id, rfl⟩) trivial hid st n hrow
  · obtain (h₁ | ⟨h₁, -⟩) | ⟨c, k, φ, op, f, rfl, hth, d, id, msg, rfl, rfl, rfl, hid⟩ := hb
    · cases h₁
    · cases h₁
    · exact h t _ _ φ _ f rfl hth d rfl (.inl ⟨id, rfl⟩) trivial hid st n hrow
  · obtain (h₁ | ⟨h₁, -⟩) | ⟨c, k, φ, op, f, rfl, hth, d, heff, rfl, rfl, hid⟩ := hb
    · cases h₁
    · cases h₁
    · exact h t c _ φ _ f rfl hth d rfl (.inr rfl) heff hid st n hrow

/-- The invariant of runs whose replays and ticks are mild. -/
structure Kept (p : Params) (x : String) (s : System) : Prop where
  conforms : (machine p).Conforms (protocol p) s
  held : Held (System.view x s)

theorem init_kept (p : Params) (x : String) : Kept p x (System.init p) := ⟨init_conforms p, init_held x⟩

theorem lawful_step (hk : Kept p x s) (hs : (machine p).Step s l s') (h : WritesIdle x s l) :
    Lawful x s l s' ∧ Kept p x s' := by
  obtain ⟨t, deed, L, a, hview, hturn, hbehind⟩ := view_step x hk.conforms hs
  have hmild : Mild deed (System.view x s).shared := mild_of_writesIdle h hbehind
  have hheld' : Held (System.view x s') := hview ▸ held_turn hk.held hturn hmild
  have hL : (System.view x s').shared = L := by rw [hview, Board.turn_shared]
  refine ⟨⟨fun st n st' n' hrow hrow' => ?_, hheld'.shared.once⟩, Machine.conforms_step hk.conforms hs, hheld'⟩
  obtain ⟨st₁, n₁, hrow₁, hst⟩ := turn_lifecycle hturn hmild (hk.held.each t) hrow
  rw [← hL] at hrow₁
  have heq := hrow'.symm.trans hrow₁
  cases heq
  exact hst

/-- Statuses follow the lifecycle and no second send is accepted, if and only if replays and
    ticks write idle deliveries only. -/
theorem replay_lawful_iff (p : Params) (x : String) (ls : List Act) :
    (machine p).Along (Lawful x) (System.init p) ls ↔
      (machine p).Along (fun s l _ => WritesIdle x s l) (System.init p) ls := by
  constructor
  · refine Machine.along_of_invariant (fun s l s' hc hs h => ?_) ls (System.init p) (init_conforms p)
    exact ⟨writesIdle_of_lawful hc hs h, Machine.conforms_step hc hs⟩
  · have hstep : ∀ s l s', Kept p x s → (machine p).Step s l s' → WritesIdle x s l → Lawful x s l s' ∧ Kept p x s' :=
      fun _ _ _ hk hs hw => lawful_step hk hs hw
    exact Machine.along_of_invariant hstep ls (System.init p) (init_kept p x)

end

/-- A dead delivery is replayed twice at once. Both calls read it dead; the first one's message is
    dispatched and accepted before the second one writes. -/
def racingReplays : List Act :=
  ingestCalls 0 "d1" ++ deadLetterCalls 1 "d1" "a1" ⟨"rejected", [.permanent]⟩ ++
    [.start 2 (.replay "d1"), .call 2 .run, .start 3 (.replay "d1"), .call 3 .run] ++ runs 2 4 ++
    succeedCalls 4 "d1" "a2" ++ [.call 3 .run]

/-- The late replay queues the succeeded delivery again, and it is sent again. -/
theorem racing_replays_unlawful :
    ¬ (machine {}).Along (Lawful "d1") (System.init {}) (racingReplays ++ [.call 3 .run]) ∧
      ((machine {}).run (System.init {}) (racingReplays ++ [.call 3 .run] ++ succeedCalls 5 "d1" "a3")).map
        (fun s => s.hist.countP (accepts "d1")) = some 2 := by
  refine ⟨fun h => ?_, by decide +kernel⟩
  have hrun : ((machine {}).run (System.init {}) racingReplays).bind (fun s =>
      ((machine {}).step s (.call 3 .run)).map fun s' => (s.state.db.row "d1", s'.state.db.row "d1")) =
      some (some (.succeeded, 0), some (.queued, 0)) := by
    decide +kernel
  obtain ⟨s, hs, hstep⟩ := Option.bind_eq_some_iff.mp hrun
  obtain ⟨s', hs', hrows⟩ := Option.map_eq_some_iff.mp hstep
  obtain ⟨hrow, hrow'⟩ := Prod.mk.inj hrows
  rcases (Machine.Along.at_step racingReplays h hs hs').1 _ _ _ _ hrow hrow' with h | h
  · cases h
  · exact absurd (idle_of_lifecycle (.inr h)) (by decide)

end GoCourier
