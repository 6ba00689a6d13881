import Mathlib.Data.Fintype.EquivFin
import GoCourier.Lib.Ensures
import GoCourier.System.Runs

/- One service call in a world where nothing fails. Each call is answered as the world
   stands, by any choice that is no fault, and then some time may pass before the next.
   An environment that answers some calls in a way of its own (a provider with a fixed
   verdict, a broker that rejects some messages) serves the others. -/
namespace GoCourier

open Interleave

/-- Nothing happens but that time passes. -/
def World.Passes (w w' : World) : Prop := ∃ t, w.clock ≤ t ∧ w' = { w with clock := t }

def served (p : Params) : Env Op Ans World := fun op w r w' =>
  ∃ c w₁, ¬ c.Failing ∧ answer p op c w = some (r, w₁) ∧ w₁.Passes w'

/-- The environment answers this call as `served` does. -/
class Serves (p : outParam Params) (env : Env Op Ans World) (op : Op) : Prop where
  same : ∀ w r w', env op w r w' ↔ served p op w r w'

instance (p : Params) (op : Op) : Serves p (served p) op := ⟨fun _ _ _ => Iff.rfl⟩

section
variable {p : Params} {w w' : World}

theorem World.passes_refl (w : World) : w.Passes w := ⟨w.clock, le_refl _, rfl⟩

theorem World.Passes.trans {w'' : World} (h : w.Passes w') (h' : w'.Passes w'') : w.Passes w'' := by
  obtain ⟨t, ht, rfl⟩ := h
  obtain ⟨t', ht', rfl⟩ := h'
  exact ⟨t', le_trans ht ht', rfl⟩

theorem World.Passes.db (h : w.Passes w') : w'.db = w.db := by
  obtain ⟨t, -, rfl⟩ := h
  rfl

/-! What is answered. -/

/-- A call on the database or the broker does what it does. -/
theorem served_remote {q : Remote} {r : Except Err (Reply q)} :
    served p (.remote q) w r w' ↔ r = (exec p w q).1 ∧ (exec p w q).2.Passes w' := by
  constructor
  · intro h
    obtain ⟨c, w₁, hc, hans, hpass⟩ := h
    have hexec := answered_ran (answer_cases hans) hc
    rw [hexec]
    exact ⟨rfl, hpass⟩
  · intro h
    obtain ⟨rfl, hpass⟩ := h
    exact ⟨.run, (exec p w q).2, id, rfl, hpass⟩

theorem served_now {r : Time} : served p .now w r w' ↔ r = w.clock ∧ w.Passes w' := by
  constructor
  · intro h
    obtain ⟨c, w₁, -, hans, hpass⟩ := h
    cases answer_cases hans with
    | now => exact ⟨rfl, hpass⟩
  · intro h
    obtain ⟨rfl, hpass⟩ := h
    exact ⟨.run, w, id, rfl, hpass⟩

/-- `rand.Int63n` answers any number below its argument. -/
theorem served_int63n {n r : Int} : served p (.int63n n) w r w' ↔ (0 ≤ r ∧ r < n) ∧ w.Passes w' := by
  constructor
  · intro h
    obtain ⟨c, w₁, -, hans, hpass⟩ := h
    cases answer_cases hans with
    | int63n range => exact ⟨range, hpass⟩
  · intro h
    exact ⟨.rand r, w, id, if_pos h.1, h.2⟩

theorem served_newUUID {u : String} :
    served p .newUUID w u w' ↔ (u ≠ "" ∧ u ∉ w.issued) ∧ ({ w with issued := u :: w.issued } : World).Passes w' := by
  constructor
  · intro h
    obtain ⟨c, w₁, -, hans, hpass⟩ := h
    cases answer_cases hans with
    | newUUID ne fresh => exact ⟨⟨ne, fresh⟩, hpass⟩
  · intro h
    exact ⟨.uuid u, _, id, if_pos h.1, h.2⟩

theorem served_recordSuccess {proc : Nat} {ch : Channel} {r : Unit} : served p (.recordSuccess proc ch) w r w' ↔
    (w.setBreaker proc ch (w.breakers (proc, ch)).recordSuccess).Passes w' := by
  constructor
  · intro h
    obtain ⟨c, w₁, -, hans, hpass⟩ := h
    cases answer_cases hans with
    | recordSuccess proc ch => exact hpass
  · intro h
    exact ⟨.run, _, id, rfl, h⟩

theorem served_recordFailure {proc : Nat} {ch : Channel} {r : Unit} : served p (.recordFailure proc ch) w r w' ↔
    (w.setBreaker proc ch ((w.breakers (proc, ch)).recordFailure w.clock)).Passes w' := by
  constructor
  · intro h
    obtain ⟨c, w₁, -, hans, hpass⟩ := h
    cases answer_cases hans with
    | recordFailure proc ch => exact hpass
  · intro h
    exact ⟨.run, _, id, rfl, h⟩

/-! What a call ensures. -/

variable {env : Env Op Ans World}

theorem ensures_remote {q : Remote} [hs : Serves p env (.remote q)] {Q : Except Err (Reply q) → World → Prop} :
    Ensures env (remote q).run w Q ↔ ∀ w', (exec p w q).2.Passes w' → Q (exec p w q).1 w' := by
  constructor
  · intro h w' hpass
    exact h.2 _ w' ((hs.same ..).mpr (served_remote.mpr ⟨rfl, hpass⟩))
  · intro h
    refine ⟨⟨_, _, (hs.same ..).mpr (served_remote.mpr ⟨rfl, World.passes_refl _⟩)⟩, ?_⟩
    intro r w' hr
    obtain ⟨rfl, hpass⟩ := served_remote.mp ((hs.same ..).mp hr)
    exact h w' hpass

theorem ensures_attempt {q : Remote} [Serves p env (.remote q)]
    {Q : Except Err (Except Err (Reply q)) → World → Prop} :
    Ensures env (attempt q).run w Q ↔ ∀ w', (exec p w q).2.Passes w' → Q (.ok (exec p w q).1) w' :=
  ensures_remote (Q := fun r w' => Q (.ok r) w')

theorem ensures_ignore {q : Remote} [Serves p env (.remote q)] {Q : Except Err Unit → World → Prop} :
    Ensures env (ignore q).run w Q ↔ ∀ w', (exec p w q).2.Passes w' → Q (.ok ()) w' :=
  ensures_remote (Q := fun _ w' => Q (.ok ()) w')

theorem ensures_now [hs : Serves p env .now] {Q : Except Err Time → World → Prop} :
    Ensures env (ask .now).run w Q ↔ ∀ w', w.Passes w' → Q (.ok w.clock) w' := by
  constructor
  · intro h w' hpass
    exact h.2 _ w' ((hs.same ..).mpr (served_now.mpr ⟨rfl, hpass⟩))
  · intro h
    refine ⟨⟨_, _, (hs.same ..).mpr (served_now.mpr ⟨rfl, World.passes_refl w⟩)⟩, ?_⟩
    intro r w' hr
    obtain ⟨rfl, hpass⟩ := served_now.mp ((hs.same ..).mp hr)
    exact h w' hpass

/-- There is always a UUID left. -/
theorem ensures_newUUID [hs : Serves p env .newUUID] {Q : Except Err String → World → Prop}
    (h : ∀ u w', u ≠ "" → w'.db = w.db → Q (.ok u) w') : Ensures env (ask .newUUID).run w Q := by
  obtain ⟨u, hu⟩ := Infinite.exists_notMem_finset ("" :: w.issued).toFinset
  rw [List.mem_toFinset, List.mem_cons, not_or] at hu
  refine ⟨⟨u, _, (hs.same ..).mpr (served_newUUID.mpr ⟨hu, World.passes_refl _⟩)⟩, ?_⟩
  intro r w' hr
  obtain ⟨⟨hne, -⟩, hpass⟩ := served_newUUID.mp ((hs.same ..).mp hr)
  exact h r w' hne hpass.db

theorem ensures_recordSuccess {proc : Nat} {ch : Channel} [hs : Serves p env (.recordSuccess proc ch)]
    {Q : Except Err Unit → World → Prop} (h : ∀ w', w'.db = w.db → Q (.ok ()) w') :
    Ensures env (ask (.recordSuccess proc ch)).run w Q := by
  refine ⟨⟨(), _, (hs.same ..).mpr (served_recordSuccess.mpr (World.passes_refl _))⟩, ?_⟩
  intro r w' hr
  exact h w' (served_recordSuccess.mp ((hs.same ..).mp hr)).db

theorem ensures_recordFailure {proc : Nat} {ch : Channel} [hs : Serves p env (.recordFailure proc ch)]
    {Q : Except Err Unit → World → Prop} (h : ∀ w', w'.db = w.db → Q (.ok ()) w') :
    Ensures env (ask (.recordFailure proc ch)).run w Q := by
  refine ⟨⟨(), _, (hs.same ..).mpr (served_recordFailure.mpr (World.passes_refl _))⟩, ?_⟩
  intro r w' hr
  exact h w' (served_recordFailure.mp ((hs.same ..).mp hr)).db

/-- The call has an answer only where its argument is positive. -/
theorem ensures_int63n {n : Int} [hs : Serves p env (.int63n n)] {Q : Except Err Int → World → Prop} :
    Ensures env (ask (.int63n n)).run w Q ↔ 0 < n ∧ ∀ r w', 0 ≤ r → r < n → w.Passes w' → Q (.ok r) w' := by
  constructor
  · intro h
    obtain ⟨⟨r, w', hr⟩, hall⟩ := h
    obtain ⟨⟨hpos, hlt⟩, -⟩ := served_int63n.mp ((hs.same ..).mp hr)
    refine ⟨lt_of_le_of_lt hpos hlt, ?_⟩
    intro r w' hpos hlt hpass
    exact hall r w' ((hs.same ..).mpr (served_int63n.mpr ⟨⟨hpos, hlt⟩, hpass⟩))
  · intro h
    refine ⟨⟨0, w, (hs.same ..).mpr (served_int63n.mpr ⟨⟨le_refl _, h.1⟩, World.passes_refl w⟩)⟩, ?_⟩
    intro r w' hr
    obtain ⟨⟨hpos, hlt⟩, hpass⟩ := served_int63n.mp ((hs.same ..).mp hr)
    exact h.2 r w' hpos hlt hpass

end

end GoCourier
