import GoCourier.Store.Integrity
import GoCourier.System.Frames

/- Where delivery ids come from. A UUID is drawn once, a delivery is stored under the
   id its own `Ingest` has drawn, and until then nobody else has that id: so the
   transaction of an `Ingest` never finds its delivery's id taken. -/
namespace GoCourier

open Interleave

/-- The id an `Ingest` has drawn and not yet used. -/
def minted : Option (Thread Op Ans Task Result Phase) → Option String
  | some ⟨_, .ingest (.minted id), _⟩ => some id
  | _ => none

/-- Ids are drawn, and never empty. -/
structure World.Issues (w : World) : Prop where
  named : ∀ u ∈ w.issued, u ≠ ""
  stored : ∀ x, w.db.owner x ≠ none → x ∈ w.issued

/-- A drawn id is not in the tables yet. -/
def World.Unused (w : World) : Option String → Prop
  | some id => id ∈ w.issued ∧ w.db.owner id = none
  | none => True

def Differ (a b : Option String) : Prop := ∀ id, a = some id → b ≠ some id

def Minting (s : System) : Prop := (Machine.board id minted s).Holds World.Issues World.Unused Differ

section
variable {p : Params} {w w' : World} {op : Op} {c : Choice} {r : Ans op}

/-- Only the ingest transaction stores deliveries. -/
theorem exec_owner {q : Remote} (hq : ¬ (Op.remote q).Stores) : (exec p w q).2.db.owner = w.db.owner := by
  cases q with
  | update d => exact Tables.owner_update w.db d
  | updateIfStatus d st =>
    exact Tables.updateIfStatus_keeps (P := (·.owner = w.db.owner)) rfl (Tables.owner_update w.db d) st
  | ingestTransactional d exp subject payload headers schedule => exact absurd trivial hq
  | _ => exact Tables.owner_congr (exec_plain p w trivial)

theorem answered_owner (h : Answered p w op c r w') (hop : ¬ op.Stores) : w'.db.owner = w.db.owner := by
  rcases answered_db h with hdb | ⟨q, rfl, -, hdb⟩
  · rw [hdb]
  · rw [hdb]
    exact exec_owner hop

theorem answered_issued (h : Answered p w op c r w') (hop : op ≠ .newUUID) : w'.issued = w.issued := by
  cases h with
  | newUUID ne fresh => exact absurd rfl hop
  | ran q => exact (exec_rest p w q).1
  | lost q msg => exact (exec_rest p w q).1
  | _ => rfl

/-- The transaction stores its own delivery or nothing. -/
theorem answered_stores {d : Delivery} {exp : Time} {subject : String} {payload : Body} {headers : Headers}
    {schedule : Bool} {r : Ans (.remote (.ingestTransactional d exp subject payload headers schedule))}
    (hl : w.db.Linked) (h : Answered p w (.remote (.ingestTransactional d exp subject payload headers schedule)) c r w') :
    w'.db = w.db ∨ w.db.Ingested w.clock d exp subject payload headers schedule w'.db := by
  rcases answered_db h with hdb | ⟨q, hq, -, hdb⟩
  · exact .inl hdb
  · cases hq
    simp only [exec] at hdb
    cases htx : w.db.ingestTransactional w.clock d exp subject payload headers schedule with
    | error e =>
      rw [htx] at hdb
      exact .inl hdb
    | ok t =>
      rw [htx] at hdb
      rw [hdb]
      exact .inr (Tables.ingested_of_ok hl htx)

end

section
variable {p : Params} {s s' : System} {l : Act}

theorem enter_issued {k : Task} {w w' : World} (h : w.enter p k = some w') : w'.issued = w.issued := by
  unfold World.enter at h
  split at h
  · split at h
    · cases h
      rfl
    · cases h
  · cases h
    rfl

theorem move_issued {m : Move} {w w' : World} (h : w.move m = some w') : w'.issued = w.issued := by
  unfold World.move at h
  split at h
  · cases h
    rfl
  · split at h
    · cases h
      rfl
    · cases h

theorem issues_congr {w w' : World} (h : w.Issues) (hi : w'.issued = w.issued) (ho : w'.db.owner = w.db.owner) :
    w'.Issues := by
  refine ⟨?_, ?_⟩
  · rw [hi]
    exact h.named
  · rw [hi, ho]
    exact h.stored

theorem unused_congr {w w' : World} {a : Option String} (h : w.Unused a) (hi : w'.issued = w.issued)
    (ho : w'.db.owner = w.db.owner) : w'.Unused a := by
  cases a with
  | none => trivial
  | some id => exact ⟨hi ▸ h.1, ho ▸ h.2⟩

/-- A turn that draws and stores no id; its caller keeps the one it has drawn, or is done with it. -/
theorem minting_idle {b : Board World (Option String)} (h : b.Holds World.Issues World.Unused Differ) {t : Nat}
    {w : World} {a : Option String} (hi : w.issued = b.shared.issued) (ho : w.db.owner = b.shared.db.owner)
    (ha : a = b.places t ∨ a = none) : (b.turn t w a).Holds World.Issues World.Unused Differ := by
  refine h.turn ⟨issues_congr h.shared hi ho, ?_⟩ fun u _ hu htu hut => ⟨unused_congr hu hi ho, ?_⟩
  · rcases ha with rfl | rfl
    · exact unused_congr (h.each t) hi ho
    · trivial
  · rcases ha with rfl | rfl
    · exact ⟨htu, hut⟩
    · exact ⟨nofun, fun _ _ => nofun⟩

theorem minting_draw {b : Board World (Option String)} (h : b.Holds World.Issues World.Unused Differ) {t : Nat}
    {u : String} (hu : u ≠ "") (hnew : u ∉ b.shared.issued) {a : Option String}
    (ha : a = some u ∨ a = b.places t ∨ a = none) :
    (b.turn t { b.shared with issued := u :: b.shared.issued } a).Holds World.Issues World.Unused Differ := by
  have hkeep : ∀ a, b.shared.Unused a → ({ b.shared with issued := u :: b.shared.issued } : World).Unused a := by
    rintro (_ | id) h
    · trivial
    · exact ⟨List.mem_cons_of_mem _ h.1, h.2⟩
  have hdiff : ∀ v, b.shared.Unused (b.places v) → b.places v ≠ some u := by
    intro v hv heq
    rw [heq] at hv
    exact hnew hv.1
  refine h.turn ⟨⟨?_, fun x hx => List.mem_cons_of_mem _ (h.shared.stored x hx)⟩, ?_⟩ fun v _ hv htv hvt =>
    ⟨hkeep _ hv, ?_⟩
  · intro v hv
    rcases List.mem_cons.mp hv with rfl | hv
    · exact hu
    · exact h.shared.named v hv
  · rcases ha with rfl | rfl | rfl
    · refine ⟨List.mem_cons_self, ?_⟩
      by_contra hne
      exact hnew (h.shared.stored u hne)
    · exact hkeep _ (h.each t)
    · trivial
  · rcases ha with rfl | rfl | rfl
    · refine ⟨fun id hid => ?_, fun id hid heq => ?_⟩
      · cases hid
        exact hdiff v hv
      · cases heq
        exact hdiff v hv hid
    · exact ⟨htv, hvt⟩
    · exact ⟨nofun, fun _ _ => nofun⟩

theorem minting_store {b : Board World (Option String)} (h : b.Holds World.Issues World.Unused Differ) {t : Nat}
    {id : String} (hid : b.places t = some id) {w : World} {k : String × Channel} (hi : w.issued = b.shared.issued)
    (ho : w.db.owner = Function.update b.shared.db.owner id (some k)) :
    (b.turn t w none).Holds World.Issues World.Unused Differ := by
  refine h.turn ⟨⟨?_, fun x hx => ?_⟩, trivial⟩ fun u _ hu htu _ => ⟨?_, nofun, fun _ _ => nofun⟩
  · rw [hi]
    exact h.shared.named
  · rw [ho] at hx
    rw [hi]
    by_cases hxid : x = id
    · subst hxid
      have := h.each t
      rw [hid] at this
      exact this.1
    · rw [Function.update_of_ne hxid] at hx
      exact h.shared.stored x hx
  · cases hplace : b.places u with
    | none => trivial
    | some id' =>
      rw [hplace] at hu
      refine ⟨hi ▸ hu.1, ?_⟩
      rw [ho, Function.update_of_ne]
      · exact hu.2
      · rintro rfl
        exact htu _ hid hplace

theorem minted_next {k : Task} {φ : Phase} {op : Op} {f : Ans op → CallTree Op Ans Result} {r : Ans op}
    (hm : May p k φ op) (hop : op ≠ .newUUID) :
    minted (some ⟨k, φ.next op r, f r⟩) = minted (some ⟨k, φ, .ask op f⟩) ∨ minted (some ⟨k, φ.next op r, f r⟩) = none := by
  cases φ with
  | ingest φ =>
    cases k with
    | ingest req =>
      cases op with
      | newUUID => exact absurd rfl hop
      | now => cases φ <;> exact .inl rfl
      | remote q =>
        cases q with
        | findByIdempotencyKey key ch =>
          refine .inr ?_
          cases r with
          | ok d => rfl
          | error e =>
            simp only [Phase.next, IngestPhase.next, IngestPhase.lookup]
            split <;> rfl
        | ingestTransactional d exp subject payload headers schedule =>
          refine .inr ?_
          cases r with
          | ok d => rfl
          | error e =>
            simp only [Phase.next, IngestPhase.next, IngestPhase.commit]
            split <;> rfl
        | _ => exact hm.elim
      | _ => exact hm.elim
    | _ => exact hm.elim
  | _ => exact .inr rfl

/-- Only an `Ingest` stores a delivery, and it stores the one whose id it has drawn. -/
theorem stores_minted {k : Task} {φ : Phase} {d : Delivery} {exp : Time} {subject : String} {payload : Body}
    {headers : Headers} {schedule : Bool}
    (hm : May p k φ (.remote (.ingestTransactional d exp subject payload headers schedule))) :
    ∃ req, k = .ingest req ∧ φ = .ingest (.minted d.id) ∧ req.Makes d.id d schedule ∧
      subject = notificationSubject p.streamPrefix d.channel d.priority ∧ payload = idBody d.id := by
  cases k with
  | ingest req =>
    cases φ with
    | ingest φ =>
      obtain ⟨id, rfl, hmakes, hsub, hbody⟩ := hm
      have hid := hmakes.id
      subst hid
      exact ⟨req, rfl, rfl, hmakes, hsub, hbody⟩
    | _ => exact hm.elim
  | _ => cases φ <;> exact hm.elim

theorem minting_step (hc : (machine p).Conforms (protocol p) s) (hl : s.state.db.Linked) (h : Minting s)
    (hs : (machine p).Step s l s') : Minting s' := by
  unfold Minting at h ⊢
  cases hs with
  | @start t k w free entered =>
    rw [Machine.board_update]
    refine minting_idle h (enter_issued entered) (congrArg Tables.owner (enter_db entered)) (.inr ?_)
    cases k <;> rfl
  | @call t c k φ op f r w running answered =>
    have hm : May p k φ op := hc.may running
    have ha := answer_cases answered
    have hplace : (Machine.board id minted s).places t = minted (some ⟨k, φ, .ask op f⟩) := congrArg minted running
    rw [Machine.board_update]
    by_cases hop : op = .newUUID
    · subst hop
      cases ha with
      | newUUID ne fresh =>
        refine minting_draw h ne fresh ?_
        cases φ with
        | ingest φ => exact .inl rfl
        | _ => exact .inr (.inr rfl)
    · have hissued : w.issued = s.state.issued := answered_issued ha hop
      by_cases hst : op.Stores
      · cases op with
        | remote q =>
          cases q with
          | ingestTransactional d exp subject payload headers schedule =>
            obtain ⟨req, rfl, rfl, -⟩ := stores_minted hm
            have hnext : minted (some ⟨.ingest req, Phase.next (.ingest (.minted d.id))
                (.remote (.ingestTransactional d exp subject payload headers schedule)) r, f r⟩) = none := by
              cases r with
              | ok _ => rfl
              | error e =>
                simp only [Phase.next, IngestPhase.next, IngestPhase.commit]
                split <;> rfl
            rcases answered_stores hl ha with hdb | hin
            · exact minting_idle h hissued (congrArg Tables.owner hdb) (.inr hnext)
            · show ((Machine.board id minted s).turn t w (minted (some ⟨.ingest req, _, f r⟩))).Holds _ _ _
              simp only [machine, hnext]
              exact minting_store h hplace hissued (Tables.owner_ingested hin)
          | _ => exact hst.elim
        | _ => exact hst.elim
      · refine minting_idle h hissued (answered_owner ha hst) ?_
        rw [hplace]
        exact minted_next hm hop
  | @crash t k φ op f running =>
    have hb := Machine.board_update s id minted s.state t none s.hist
    rw [hb]
    exact minting_idle h rfl rfl (.inr rfl)
  | @move m w moved =>
    rw [Machine.board_state s id minted w 0]
    exact minting_idle h (move_issued moved) (congrArg Tables.owner (move_db moved)) (.inl rfl)

theorem init_minting (p : Params) : Minting (System.init p) where
  shared := ⟨nofun, fun _ h => absurd rfl h⟩
  each _ := trivial
  pair _ _ _ := nofun

/-- What every configuration reached from the start has. -/
structure Sane (p : Params) (s : System) : Prop where
  conforms : (machine p).Conforms (protocol p) s
  linked : s.state.db.Linked
  minting : Minting s

theorem init_sane (p : Params) : Sane p (System.init p) := ⟨init_conforms p, init_linked p, init_minting p⟩

theorem sane_step (h : Sane p s) (hs : (machine p).Step s l s') : Sane p s' :=
  ⟨Machine.conforms_step h.conforms hs, linked_step h.linked hs, minting_step h.conforms h.linked h.minting hs⟩

theorem reach_sane {ok : System → Act → Prop} {s₀ : System} (h : Sane p s₀) (hr : (machine p).Reach ok s₀ s) :
    Sane p s := by
  induction hr with
  | refl => exact h
  | step _ _ hs ih => exact sane_step ih ((machine p).step_iff.mp hs)

theorem Sane.issues (h : Sane p s) : s.state.Issues := h.minting.shared

/-- An `Ingest` that has drawn its id finds it free. -/
theorem Sane.unused (h : Sane p s) {t : Nat} {k : Task} {id : String} {prog : CallTree Op Ans Result}
    (hth : s.threads t = some ⟨k, .ingest (.minted id), prog⟩) : s.state.db.deliveries id = none := by
  have := h.minting.each t
  simp only [Machine.board, hth, minted] at this
  exact Tables.owner_eq_none.mp this.2

end

end GoCourier
