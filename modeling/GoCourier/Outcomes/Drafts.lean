import GoCourier.Lib.Promise
import GoCourier.Outcomes.Reports
import GoCourier.Store.Growth

/- Whose id an attempt record has. A dispatch draws a UUID for its attempt and records
   the attempt under it, once; UUIDs are drawn once, so no two attempt records have the
   same id, whoever records at the same time and whatever is lost. -/
namespace GoCourier

open Interleave

/-- The id a dispatch has drawn and recorded nothing under. -/
abbrev Draft := Option String

def Draft.next (γ : Draft) : (op : Op) → Ans op → Draft
  | .newUUID, u => some u
  | .remote (.recordAttempt _ _), _ => none
  | _, _ => γ

/-- An attempt is recorded under the id that was drawn for it. -/
def Op.Drafted (γ : Draft) : Op → Prop
  | .remote (.recordAttempt _ a) => γ = some a.id
  | _ => True

def draftDiscipline : Discipline Op Ans Draft := ⟨fun γ op => op.Drafted γ, Draft.next, Seen⟩

section
variable {p : Params}

/-- What `moveToDLQ` does once the attempt is recorded. -/
theorem drafted_deadLetter (γ : Draft) (d : Delivery) (msg : String) :
    Obeys draftDiscipline (do
      DeliveryRepo.update d
      ignore (.publish (dlqSubject d.channel) (dlqBody d msg) [("delivery_id", d.id)])
      AuditRepo.append d.id .movedToDLQ [("error", .str msg)] : Go Unit).run γ fun _ _ => True := by
  rw [obeys_bindE, obeys_remote]
  refine ⟨trivial, fun r _ => ?_⟩
  cases r with
  | error e => trivial
  | ok _ =>
    rw [ends_ok, obeys_bindE, obeys_ignore]
    refine ⟨trivial, fun _ _ => ?_⟩
    rw [ends_ok, obeys_remote]
    exact ⟨trivial, fun _ _ => trivial⟩

theorem drafted_moveToDLQ (d : Delivery) (a : Attempt) (now : Time) (msg : String) :
    Obeys draftDiscipline (moveToDLQ d now msg (some a)).run (some a.id) fun _ _ => True := by
  unfold moveToDLQ
  simp only []
  rw [obeys_bindE, obeys_remote]
  refine ⟨rfl, fun r _ => ?_⟩
  cases r with
  | error e => trivial
  | ok _ => exact drafted_deadLetter none _ msg

theorem drafted_handleFailure (d : Delivery) (a : Attempt) (e : Err) :
    Obeys draftDiscipline (handleFailure p d a e).run (some a.id) fun _ _ => True := by
  unfold handleFailure
  rw [obeys_bindE, obeys_ask_op]
  refine ⟨trivial, fun now _ => ?_⟩
  simp only [ends_ok]
  split
  · exact drafted_moveToDLQ d a now e.text
  · rw [obeys_bindE, obeys_remote]
    refine ⟨trivial, fun r _ => ?_⟩
    cases r with
    | error e => trivial
    | ok _ =>
      rw [ends_ok, obeys_bindE, obeys_remote]
      refine ⟨rfl, fun r _ => ?_⟩
      cases r with
      | error e => trivial
      | ok _ =>
        rw [ends_ok, obeys_bindE, obeys_ignore]
        refine ⟨trivial, fun _ _ => ?_⟩
        rw [ends_ok, obeys_bindE, delay, obeys_bindE, obeys_ask_op]
        exact ⟨trivial, fun _ _ => trivial⟩

theorem drafted_success (d : Delivery) (a : Attempt) (done : Time) :
    Obeys draftDiscipline (do
      DeliveryRepo.update (d.markSucceeded a done)
      DeliveryRepo.recordAttempt (d.markSucceeded a done).id a
      AuditRepo.append (d.markSucceeded a done).id .dispatchSucceeded [("attempt", .num a.attemptNumber)] : Go Unit).run
      (some a.id) fun _ _ => True := by
  rw [obeys_bindE, obeys_remote]
  refine ⟨trivial, fun r _ => ?_⟩
  cases r with
  | error e => trivial
  | ok _ =>
    rw [ends_ok, obeys_bindE, obeys_remote]
    refine ⟨rfl, fun r _ => ?_⟩
    cases r with
    | error e => trivial
    | ok _ =>
      rw [ends_ok, obeys_remote]
      exact ⟨trivial, fun _ _ => trivial⟩

theorem drafted_dispatchClaimed (proc : Nat) (d : Delivery) (now : Time) :
    Obeys draftDiscipline (dispatchClaimed p proc d now).run none fun _ _ => True := by
  unfold dispatchClaimed
  split
  · exact drafted_deadLetter none _ _
  · rw [obeys_bindE, obeys_ask_op]
    refine ⟨trivial, fun admitted _ => ?_⟩
    rw [ends_ok, obeys_bindE, obeys_ask_op]
    refine ⟨trivial, fun id _ => ?_⟩
    -- from here on the attempt has its id
    cases admitted with
    | error e => exact drafted_handleFailure d _ errTransient
    | ok _ =>
      simp only [ends_ok]
      rw [obeys_bindE, obeys_ask_op]
      refine ⟨trivial, fun sent _ => ?_⟩
      cases sent with
      | error err =>
        simp only [ends_ok]
        rw [obeys_bindE, obeys_ask_op]
        exact ⟨trivial, fun _ _ => drafted_handleFailure d _ err⟩
      | ok result =>
        simp only [ends_ok]
        rw [obeys_bindE, obeys_ask_op]
        refine ⟨trivial, fun _ _ => ?_⟩
        rw [ends_ok, obeys_bindE, obeys_ask_op]
        exact ⟨trivial, fun done _ => drafted_success d _ done⟩

theorem drafted_dispatch (proc : Nat) (id : String) :
    Obeys draftDiscipline (dispatch p proc id).run none fun _ _ => True := by
  unfold dispatch
  rw [obeys_bindE, obeys_remote]
  refine ⟨trivial, fun r _ => ?_⟩
  cases r with
  | error e => trivial
  | ok d =>
    simp only [ends_ok]
    split
    · trivial
    · split
      · trivial
      · rw [obeys_bindE, obeys_ask_op]
        refine ⟨trivial, fun now _ => ?_⟩
        simp only [ends_ok]
        split
        · trivial
        · rename_i d' hd'
          rw [obeys_bindE, obeys_remote]
          refine ⟨trivial, fun r _ => ?_⟩
          cases r with
          | error e => trivial
          | ok updated =>
            cases updated with
            | false => trivial
            | true => exact drafted_dispatchClaimed proc d' now

theorem drafted_consume (proc i c : Nat) (m : Message) :
    Obeys draftDiscipline (consume p proc i c m).run none fun _ _ => True := by
  have h : Obeys draftDiscipline (handleMessage p proc m).run none fun _ _ => True := by
    unfold handleMessage
    split
    · trivial
    · exact drafted_dispatch proc _
  show Obeys _ ((handleMessage p proc m).run >>= _) _ _
  rw [obeys_bind]
  refine obeys_mono (fun γ r _ => ?_) _ _ h
  cases r with
  | error e => exact ⟨trivial, fun _ _ => trivial⟩
  | ok _ => exact ⟨trivial, fun _ _ => trivial⟩

variable (p) in
/-- A dispatch records under the id it has drawn; the other tasks record nothing anyway. -/
def draftPledge : (machine p).Pledge Draft where
  first _ := none
  discipline
    | .dispatch _ _ | .handle _ _ _ _ => draftDiscipline
    | _ => ⟨fun _ _ => True, Draft.next, Seen⟩
  ends _ _ _ := True
  answers k op c w r w' h := by cases k <;> exact seen_answer p h
  obeyed k := by
    cases k with
    | dispatch proc id => exact (obeys_map ..).mpr (drafted_dispatch proc id)
    | handle proc i c m => exact (obeys_map ..).mpr (drafted_consume proc i c m)
    | _ =>
      exact obeys_invariant (I := fun _ => True) (fun _ _ _ => trivial) (fun _ _ _ _ => trivial)
        (fun _ _ _ => trivial) _ _ trivial

end

/-! The ids in the table. -/

def Tables.attemptIds (t : Tables) : List String := t.attempts.map (·.attempt.id)

/-- The recorded ids are drawn, and each is there once. -/
structure World.Signs (w : World) : Prop where
  drawn : ∀ u ∈ w.db.attemptIds, u ∈ w.issued
  once : w.db.attemptIds.Nodup

/-- A drawn id under which nothing is recorded yet. -/
def World.Unsigned (w : World) : Draft → Prop
  | some u => u ∈ w.issued ∧ u ∉ w.db.attemptIds
  | none => True

/-- Attempts and the ids their dispatches hold. -/
def draftBoard (s : System) (g : Nat → Draft) : Board World Draft := ⟨s.state, g⟩

structure Drafts (p : Params) (s : System) : Prop where
  conforms : (machine p).Conforms (protocol p) s
  held : ∃ g, Machine.Pledged (draftPledge p) g s ∧ (draftBoard s g).Holds World.Signs World.Unsigned Differ

section
variable {p : Params} {s s' : System} {l : Act}

/-- Ids under which nothing is recorded stay so while nothing is. -/
theorem drafts_idle {b : Board World Draft} (h : b.Holds World.Signs World.Unsigned Differ) {t : Nat} {w : World}
    {γ : Draft} (hi : b.shared.issued <:+ w.issued) (ha : w.db.attempts = b.shared.db.attempts)
    (hγ : γ = b.places t ∨ γ = none) : (b.turn t w γ).Holds World.Signs World.Unsigned Differ := by
  have hids : w.db.attemptIds = b.shared.db.attemptIds := congrArg (List.map _) ha
  have hkeep : ∀ a, b.shared.Unsigned a → w.Unsigned a := by
    rintro (_ | u) h
    · trivial
    · exact ⟨hi.subset h.1, hids ▸ h.2⟩
  refine h.turn ⟨⟨fun u hu => hi.subset (h.shared.drawn u (hids ▸ hu)), hids ▸ h.shared.once⟩, ?_⟩
    fun u _ hu htu hut => ⟨hkeep _ hu, ?_⟩
  · rcases hγ with rfl | rfl
    · exact hkeep _ (h.each t)
    · trivial
  · rcases hγ with rfl | rfl
    · exact ⟨htu, hut⟩
    · exact ⟨nofun, fun _ _ => nofun⟩

theorem drafts_draw {b : Board World Draft} (h : b.Holds World.Signs World.Unsigned Differ) (t : Nat) {u : String}
    (hnew : u ∉ b.shared.issued) :
    (b.turn t { b.shared with issued := u :: b.shared.issued } (some u)).Holds World.Signs World.Unsigned Differ := by
  have hkeep : ∀ a, b.shared.Unsigned a → ({ b.shared with issued := u :: b.shared.issued } : World).Unsigned a := by
    rintro (_ | v) h
    · trivial
    · exact ⟨List.mem_cons_of_mem _ h.1, h.2⟩
  have hdiff : ∀ v, b.shared.Unsigned (b.places v) → b.places v ≠ some u := by
    intro v hv heq
    rw [heq] at hv
    exact hnew hv.1
  refine h.turn ⟨⟨fun v hv => List.mem_cons_of_mem _ (h.shared.drawn v hv), h.shared.once⟩, ?_⟩ fun v _ hv _ _ =>
    ⟨hkeep _ hv, fun w hw => ?_, fun w hv' hw => ?_⟩
  · exact ⟨List.mem_cons_self, fun hmem => hnew (h.shared.drawn u hmem)⟩
  · cases hw
    exact hdiff v hv
  · cases hw
    exact hdiff v hv hv'

theorem drafts_record {b : Board World Draft} (h : b.Holds World.Signs World.Unsigned Differ) {t : Nat} {w : World}
    {id : String} {a : Attempt} (ht : b.places t = some a.id) (hi : w.issued = b.shared.issued)
    (ha : w.db.attempts = b.shared.db.attempts ++ [⟨id, a⟩]) :
    (b.turn t w none).Holds World.Signs World.Unsigned Differ := by
  have hids : w.db.attemptIds = b.shared.db.attemptIds ++ [a.id] := by
    unfold Tables.attemptIds
    rw [ha, List.map_append]
    rfl
  have hmine := h.each t
  rw [ht] at hmine
  refine h.turn ⟨⟨?_, ?_⟩, trivial⟩ fun u _ hu htu _ => ⟨?_, nofun, fun _ _ => nofun⟩
  · intro u hu
    rw [hids] at hu
    rw [hi]
    rcases List.mem_append.mp hu with hold | hnew
    · exact h.shared.drawn u hold
    · exact List.mem_singleton.mp hnew ▸ hmine.1
  · rw [hids, List.nodup_append]
    refine ⟨h.shared.once, List.nodup_singleton _, fun u hu v hv => ?_⟩
    rw [List.mem_singleton.mp hv]
    rintro rfl
    exact hmine.2 hu
  · cases hplace : b.places u with
    | none => trivial
    | some v =>
      rw [hplace] at hu
      refine ⟨hi ▸ hu.1, ?_⟩
      rw [hids, List.mem_append, List.mem_singleton, not_or]
      refine ⟨hu.2, fun hv => ?_⟩
      exact htu a.id ht (hv ▸ hplace)

theorem enter_attempts {k : Task} {w w' : World} (h : w.enter p k = some w') : w'.db.attempts = w.db.attempts := by
  rw [enter_db h]

/-- A call of a thread whose ghost is `γ`, by what it does to the attempts and the drawn ids. -/
theorem drafts_called (hc : (machine p).Conforms (protocol p) s) {g : Nat → Draft}
    (hg : Machine.Pledged (draftPledge p) g s) (h : (draftBoard s g).Holds World.Signs World.Unsigned Differ) {t : Nat}
    {c : Choice} {k : Task} {φ : Phase} {op : Op} {f : Ans op → CallTree Op Ans Result} {r : Ans op} {w : World}
    (running : s.threads t = some ⟨k, φ, .ask op f⟩) (answered : answer p op c s.state = some (r, w)) :
    ((draftBoard s g).turn t w ((g t).next op r)).Holds World.Signs World.Unsigned Differ := by
  have hans := answer_cases answered
  have hissued := (answered_grows hans).issued
  have hidle : (∀ id a, op ≠ .remote (.recordAttempt id a)) → (g t).next op r = g t →
      ((draftBoard s g).turn t w ((g t).next op r)).Holds World.Signs World.Unsigned Differ := by
    intro hop hγ
    refine drafts_idle h hissued ?_ (.inl hγ)
    rcases answered_db hans with hdb | ⟨q, rfl, -, hdb⟩
    · rw [hdb]
      rfl
    · rw [hdb]
      rcases exec_attempts p s.state q with hsame | ⟨id, a, rfl, -⟩
      · exact hsame
      · exact absurd rfl (hop id a)
  cases op with
  | newUUID =>
    cases hans with
    | newUUID ne fresh => exact drafts_draw h t fresh
  | remote q =>
    cases q with
    | recordAttempt id a =>
      have hnext : (g t).next (.remote (.recordAttempt id a)) r = none := by cases r <;> rfl
      rw [hnext]
      have hwrote : w.db.attempts = s.state.db.attempts ∨ w.db.attempts = s.state.db.attempts ++ [⟨id, a⟩] := by
        rcases answered_db hans with hdb | ⟨q, hq, -, hdb⟩
        · exact .inl (congrArg Tables.attempts hdb)
        · cases hq
          rw [hdb]
          rcases exec_attempts p s.state (.recordAttempt id a) with hsame | ⟨id', a', hq, hgrown⟩
          · exact .inl hsame
          · cases hq
            exact .inr hgrown
      rcases hwrote with hsame | hgrown
      · exact drafts_idle h hissued hsame (.inr rfl)
      · refine drafts_record h ?_ (answered_issued hans nofun) hgrown
        -- only a dispatch records, under the id it holds
        have hm : May p k φ (.remote (.recordAttempt id a)) := hc.may running
        have hmay := hg.may running
        cases k with
        | dispatch proc id => exact hmay
        | handle proc i c m => exact hmay
        | _ => exact absurd hm (not_records nofun nofun)
    | _ => exact hidle nofun (by cases r <;> rfl)
  | _ => exact hidle nofun rfl

theorem drafts_step (h : Drafts p s) (hs : (machine p).Step s l s') : Drafts p s' := by
  obtain ⟨hc, g, hg, hboard⟩ := h
  refine ⟨Machine.conforms_step hc hs, ?_⟩
  have hissued := (grows_step hs).issued
  cases hs with
  | @start t k w free entered =>
    refine ⟨_, Machine.pledged_start hg t k w, ?_⟩
    exact drafts_idle hboard (t := t) hissued (enter_attempts entered) (.inr rfl)
  | @call t c k φ op f r w running answered =>
    refine ⟨_, Machine.pledged_call hg running answered _, ?_⟩
    have hnext : ((draftPledge p).discipline k).next (g t) op r = (g t).next op r := by cases k <;> rfl
    rw [hnext]
    exact drafts_called hc hg hboard running answered
  | @crash t k φ op f running => exact ⟨g, Machine.pledged_crash hg t, hboard⟩
  | @move m w moved =>
    refine ⟨g, hg, ?_⟩
    have hidle := drafts_idle hboard (t := 0) (w := w) hissued (by rw [move_db moved]; rfl) (.inl rfl)
    rwa [show (draftBoard s g).turn 0 w ((draftBoard s g).places 0) = draftBoard { s with state := w } g from ?_] at hidle
    unfold draftBoard Board.turn
    rw [Function.update_eq_self]

theorem init_drafts (p : Params) : Drafts p (System.init p) where
  conforms := init_conforms p
  held := by
    refine ⟨fun _ => none, fun t th hth => ?_, ⟨⟨?_, List.nodup_nil⟩, fun _ => trivial, fun _ _ _ => nofun⟩⟩
    · cases hth
    · intro u hu
      cases hu

/-- An attempt that is about to be recorded is recorded under a new id. -/
theorem Drafts.fresh (h : Drafts p s) {t : Nat} {k : Task} {φ : Phase} {id : String} {a : Attempt}
    {f : Ans (.remote (.recordAttempt id a)) → CallTree Op Ans Result}
    (hth : s.threads t = some ⟨k, φ, .ask (.remote (.recordAttempt id a)) f⟩) : a.id ∉ s.state.db.attemptIds := by
  obtain ⟨hc, g, hg, hboard⟩ := h
  have hm : May p k φ (.remote (.recordAttempt id a)) := hc.may hth
  have hmay := hg.may hth
  have hdrawn : g t = some a.id := by
    cases k with
    | dispatch proc id => exact hmay
    | handle proc i c m => exact hmay
    | _ => exact absurd hm (not_records nofun nofun)
  have hmine : s.state.Unsigned (g t) := hboard.each t
  rw [hdrawn] at hmine
  exact hmine.2

end

end GoCourier
