import GoCourier.Registry.Filing
import GoCourier.Registry.Reuse

/- Any number of `Ingest` calls under one key at once. The unique index lets one
   transaction register the key; every other call finds that registration, in its
   first lookup or after its own transaction was rolled back. What each call knows in
   each phase is part of the invariant `Race`, which holds in every run in which the
   racing calls are not cut short and the registration has not expired. -/
namespace GoCourier

open Interleave

section
variable {p : Params} {s s' : System} {l : Act} {key : String} {ch : Channel}

/-- No racing call crashes, and none of its calls fails. -/
def Unhindered (key : String) (ch : Channel) (s : System) (l : Act) : Prop :=
  ∀ t req φ op f, s.threads t = some ⟨.ingest req, φ, .ask op f⟩ → req.Registers key ch →
    l ≠ .crash t ∧ ∀ c, l = .call t c → ¬ c.Failing

/-- A lookup of the key finds no registration that has expired. -/
def WithinTTL (key : String) (ch : Channel) : System → Act → Prop := OnCall fun _ op _ w =>
  op = .remote (.findByIdempotencyKey key ch) → ∀ ik, w.db.idempotencyKeys (key, ch) = some ik → w.clock < ik.expiresAt

/-- What a racing call knows of the registration. -/
def Knows (t : Tables) (k : String × Channel) : IngestPhase → Prop
  | .duplicate => ∃ ik, t.idempotencyKeys k = some ik
  | .found d => ∃ ik, t.idempotencyKeys k = some ik ∧ ik.deliveryId = d.id
  | .committed d => ∃ ik, t.idempotencyKeys k = some ik ∧ ik.deliveryId = d.id
  | .failed => False
  | _ => True

theorem knows_mono {t t' : Tables} {k : String × Channel} {φ : IngestPhase} (h : Knows t k φ)
    (hk : ∀ ik, t.idempotencyKeys k = some ik → t'.idempotencyKeys k = some ik) : Knows t' k φ := by
  cases φ with
  | duplicate =>
    obtain ⟨ik, hik⟩ := h
    exact ⟨ik, hk ik hik⟩
  | found d =>
    obtain ⟨ik, hik, hid⟩ := h
    exact ⟨ik, hk ik hik, hid⟩
  | committed d =>
    obtain ⟨ik, hik, hid⟩ := h
    exact ⟨ik, hk ik hik, hid⟩
  | failed => exact h
  | _ => trivial

/-- The call whose transaction registered the key. -/
def Commits (key : String) (ch : Channel) (s : System) (t : Nat) : Prop :=
  ∃ req d prog, s.threads t = some ⟨.ingest req, .ingest (.committed d), prog⟩ ∧ req.Registers key ch

structure Race (key : String) (ch : Channel) (s : System) : Prop where
  each : ∀ t req φ prog, s.threads t = some ⟨.ingest req, .ingest φ, prog⟩ → req.Registers key ch →
    Knows s.state.db (key, ch) φ
  first : ∀ ik, s.state.db.idempotencyKeys (key, ch) = some ik → ∃ t, Commits key ch s t
  alone : ∀ t u, Commits key ch s t → Commits key ch s u → t = u

theorem commits_knows (h : Race key ch s) {t : Nat} (hc : Commits key ch s t) :
    ∃ ik, s.state.db.idempotencyKeys (key, ch) = some ik := by
  obtain ⟨req, d, prog, hth, hreq⟩ := hc
  obtain ⟨ik, hik, -⟩ := h.each t req _ prog hth hreq
  exact ⟨ik, hik⟩

theorem registers_unique {req : IngestRequest} {key' : String} {ch' : Channel} (h : req.Registers key ch)
    (h' : req.Registers key' ch') : (key', ch') = (key, ch) := by
  obtain ⟨-, rfl, hch⟩ := h
  obtain ⟨-, rfl, hch'⟩ := h'
  rw [hch] at hch'
  cases hch'
  rfl

theorem lookup_ok {t : Tables} {now : Time} {d : Delivery} (h : t.findByIdempotencyKey now key ch = .ok d) :
    ∃ ik, t.idempotencyKeys (key, ch) = some ik ∧ ik.deliveryId = d.id := by
  unfold Tables.findByIdempotencyKey at h
  split at h
  · rename_i ik hik
    split_ifs at h
    split at h
    · cases h
      exact ⟨ik, hik, rfl⟩
    · cases h
  · cases h

/-- What a racing call knows after its next answer. -/
theorem knows_next (hsane : Sane p s) (h : Race key ch s) {t : Nat} {req : IngestRequest} {φ : IngestPhase} {op : Op}
    {f : Ans op → CallTree Op Ans Result} {c : Choice} {r : Ans op} {w : World}
    (hth : s.threads t = some ⟨.ingest req, .ingest φ, .ask op f⟩) (hreq : req.Registers key ch)
    (hc : ¬ c.Failing) (httl : op = .remote (.findByIdempotencyKey key ch) →
      ∀ ik, s.state.db.idempotencyKeys (key, ch) = some ik → s.state.clock < ik.expiresAt)
    (ha : Answered p s.state op c r w)
    (hkeep : ∀ ik, s.state.db.idempotencyKeys (key, ch) = some ik → w.db.idempotencyKeys (key, ch) = some ik) :
    Knows w.db (key, ch) (φ.next op r) ∧
      ∀ d, φ.next op r = .committed d → φ = .committed d ∨ s.state.db.idempotencyKeys (key, ch) = none := by
  have hm : IngestMay p req φ op := hsane.conforms.may hth
  have hφ := h.each t req φ _ hth hreq
  cases op with
  | now => exact ⟨knows_mono hφ hkeep, fun d hd => .inl hd⟩
  | newUUID => exact ⟨trivial, fun d hd => by cases hd⟩
  | remote q =>
    cases q with
    | findByIdempotencyKey key' ch' =>
      obtain ⟨hstart, hreg⟩ := hm
      cases registers_unique hreq hreg
      cases ha with
      | fault _ msg => exact absurd trivial hc
      | lost _ msg => exact absurd trivial hc
      | ran =>
        refine ⟨?_, fun d hd => ?_⟩
        · show Knows s.state.db (key, ch) (φ.lookup (s.state.db.findByIdempotencyKey s.state.clock key ch))
          cases hl : s.state.db.findByIdempotencyKey s.state.clock key ch with
          | ok d => exact lookup_ok hl
          | error e =>
            rcases hstart with rfl | rfl
            · rw [lookup_error hl]
              trivial
            · obtain ⟨ik, hik⟩ := hφ
              obtain ⟨d, hd, -⟩ := lookup_live hsane.linked hik (httl rfl ik hik)
              rw [hl] at hd
              cases hd
        · simp only [IngestPhase.next, exec, IngestPhase.lookup] at hd
          split at hd
          · cases hd
          · split at hd <;> cases hd
    | ingestTransactional d exp subject payload headers schedule =>
      obtain ⟨id, rfl, hmakes, -⟩ := hm
      have hk : (d.idempotencyKey, d.channel) = (key, ch) := registers_unique hreq hmakes.registers
      have hnew : s.state.db.deliveries d.id = none := by
        rw [hmakes.id]
        exact hsane.unused hth
      cases ha with
      | fault _ msg => exact absurd trivial hc
      | lost _ msg => exact absurd trivial hc
      | ran =>
        cases hik : s.state.db.idempotencyKeys (key, ch) with
        | none =>
          refine ⟨?_, fun _ _ => .inr rfl⟩
          obtain ⟨t', ht'⟩ := Tables.ingestTransactional_new s.state.clock exp subject payload headers schedule hnew
            (hk ▸ hik)
          have hin := Tables.ingested_of_ok hsane.linked ht'
          simp only [IngestPhase.next, exec, ht', World.store, IngestPhase.commit, Knows]
          exact ⟨⟨d.id, exp⟩, by rw [hin.keys, hk, Function.update_self], rfl⟩
        | some ik =>
          have ht' := Tables.ingestTransactional_taken s.state.clock exp subject payload headers schedule hsane.linked
            hnew (hk ▸ hik)
          have hdup : errDuplicate.is .duplicate = true := by decide
          simp only [IngestPhase.next, exec, ht', World.store, IngestPhase.commit, hdup, if_true, Knows]
          exact ⟨⟨ik, hik⟩, fun d hd => by cases hd⟩
    | _ => exact hm.elim
  | _ => exact hm.elim

/-- A thread that has committed stays so. -/
theorem commits_next (hsane : Sane p s) {t : Nat} {req : IngestRequest} {d : Delivery} {op : Op}
    {f : Ans op → CallTree Op Ans Result} (r : Ans op)
    (hth : s.threads t = some ⟨.ingest req, .ingest (.committed d), .ask op f⟩) :
    (IngestPhase.committed d).next op r = .committed d := by
  have hm : IngestMay p req (.committed d) op := hsane.conforms.may hth
  cases op with
  | now => rfl
  | newUUID => cases hm
  | remote q =>
    cases q with
    | findByIdempotencyKey key' ch' => rcases hm.1 with h | h <;> cases h
    | ingestTransactional d' exp subject payload headers schedule =>
      obtain ⟨id, hid, -⟩ := hm
      cases hid
    | _ => exact hm.elim
  | _ => exact hm.elim

/-- The key is registered by the transaction of a racing call, or was before. -/
theorem registered_by (hsane : Sane p s) (h : s.state.db.idempotencyKeys (key, ch) = none) {t : Nat} {k : Task} {φ : Phase}
    {op : Op} {f : Ans op → CallTree Op Ans Result} {c : Choice} {r : Ans op} {w : World}
    (hth : s.threads t = some ⟨k, φ, .ask op f⟩) (ha : Answered p s.state op c r w) {ik : IdempotencyRow}
    (hik : w.db.idempotencyKeys (key, ch) = some ik) :
    ∃ req d exp subject payload headers schedule, k = .ingest req ∧ φ = .ingest (.minted d.id) ∧ req.Registers key ch ∧
      op = .remote (.ingestTransactional d exp subject payload headers schedule) := by
  have hm : May p k φ op := hsane.conforms.may hth
  rcases answered_db ha with hdb | ⟨q, rfl, -, hdb⟩
  · rw [hdb, h] at hik
    cases hik
  · by_cases hq : (Op.remote q).Stores
    · cases q with
      | ingestTransactional d exp subject payload headers schedule =>
        obtain ⟨req, rfl, rfl, hmakes, -⟩ := stores_minted hm
        refine ⟨req, d, exp, subject, payload, headers, schedule, rfl, rfl, ?_, rfl⟩
        rcases answered_stores hsane.linked ha with hsame | hin
        · rw [hsame, h] at hik
          cases hik
        · rw [hin.keys] at hik
          rcases of_update hik with ⟨hk, -⟩ | ⟨-, hold⟩
          · cases hk
            exact hmakes.registers
          · rw [h] at hold
            cases hold
      | _ => exact hq.elim
    · rw [hdb, exec_keys p s.state hq, h] at hik
      cases hik

/-- What a racing call knows after a step, and when it has committed. -/
theorem known_after (hsane : Sane p s) (h : Race key ch s) (hun : Unhindered key ch s l) (httl : WithinTTL key ch s l)
    (hs : (machine p).Step s l s') {t : Nat} {req : IngestRequest} {φ : IngestPhase} {prog : CallTree Op Ans Result}
    (hth : s'.threads t = some ⟨.ingest req, .ingest φ, prog⟩) (hreq : req.Registers key ch) :
    Knows s'.state.db (key, ch) φ ∧ ∀ d, φ = .committed d →
      Commits key ch s t ∨ (∃ c, l = .call t c) ∧ s.state.db.idempotencyKeys (key, ch) = none := by
  have hkeep : ∀ ik, s.state.db.idempotencyKeys (key, ch) = some ik →
      s'.state.db.idempotencyKeys (key, ch) = some ik := fun ik hik => registration_step hsane.linked hik hs
  obtain ⟨before, -⟩ | ⟨-, -, hφ⟩ | ⟨c, ψ, op, f, r, rfl, before, answered, hφ⟩ := hs.origin_cases hth
  · refine ⟨knows_mono (h.each t req φ prog before hreq) hkeep, fun d hd => .inl ?_⟩
    subst hd
    exact ⟨req, d, prog, before, hreq⟩
  · cases hφ
    exact ⟨trivial, fun d hd => by cases hd⟩
  · cases ψ with
    | ingest ψ =>
      cases hφ
      have hc : ¬ c.Failing := (hun t req _ op f before hreq).2 c rfl
      obtain ⟨hknows, hcommit⟩ := knows_next hsane h before hreq hc (fun hop => httl t c _ _ op f rfl before hop)
        (answer_cases answered) hkeep
      refine ⟨hknows, fun d hd => ?_⟩
      rcases hcommit d hd with rfl | hnone
      · exact .inl ⟨req, d, _, before, hreq⟩
      · exact .inr ⟨⟨c, rfl⟩, hnone⟩
    | _ => cases hφ

theorem commits_step (hsane : Sane p s) (hun : Unhindered key ch s l) (hs : (machine p).Step s l s') {t : Nat}
    (hc : Commits key ch s t) : Commits key ch s' t := by
  obtain ⟨req, d, prog, hth, hreq⟩ := hc
  -- its own next answer does not change the phase, and it does not crash
  by_cases hcall : ∃ c, l = .call t c
  · obtain ⟨c, rfl⟩ := hcall
    cases hs with
    | @call _ _ _ _ _ f r _ running answered =>
      rw [hth] at running
      cases running
      have hnext := commits_next hsane r hth
      refine ⟨req, d, f r, ?_, hreq⟩
      simp only [Function.update_self, machine, Phase.next, hnext]
  · refine ⟨req, d, prog, hs.kept hth (fun c hl => hcall ⟨c, hl⟩) ?_, hreq⟩
    rintro rfl
    cases hs with
    | crash running =>
      rw [hth] at running
      cases running
      exact (hun t req _ _ _ hth hreq).1 rfl

/-- The call that registers the key has committed. -/
theorem commits_of_registered (hsane : Sane p s) (hun : Unhindered key ch s l) (hs : (machine p).Step s l s')
    (hnone : s.state.db.idempotencyKeys (key, ch) = none) {ik : IdempotencyRow}
    (hik : s'.state.db.idempotencyKeys (key, ch) = some ik) : ∃ t, Commits key ch s' t := by
  have hsame : s'.state.db ≠ s.state.db := by
    intro hdb
    rw [hdb, hnone] at hik
    cases hik
  cases hs with
  | start free entered => exact absurd (enter_db entered) hsame
  | @call t c k φ op f r w running answered =>
    have ha := answer_cases answered
    obtain ⟨req, d, exp, subject, payload, headers, schedule, rfl, rfl, hreq, rfl⟩ :=
      registered_by hsane hnone running ha hik
    have hc : ¬ c.Failing := (hun t req _ _ f running hreq).2 c rfl
    cases ha with
    | fault _ msg => exact absurd trivial hc
    | lost _ msg => exact absurd trivial hc
    | ran =>
      cases htx : s.state.db.ingestTransactional s.state.clock d exp subject payload headers schedule with
      | error e =>
        simp only [exec, htx, World.store, hnone] at hik
        cases hik
      | ok t' =>
        refine ⟨t, req, d, f (.ok ()), ?_, hreq⟩
        simp only [Function.update_self, machine, Phase.next, IngestPhase.next, exec, htx, World.store,
          IngestPhase.commit]
  | crash running => exact absurd rfl hsame
  | move moved => exact absurd (move_db moved) hsame

theorem race_step (hsane : Sane p s) (h : Race key ch s) (hun : Unhindered key ch s l) (httl : WithinTTL key ch s l)
    (hs : (machine p).Step s l s') : Race key ch s' where
  each t req φ prog hth hreq := (known_after hsane h hun httl hs hth hreq).1
  first ik hik := by
    cases hold : s.state.db.idempotencyKeys (key, ch) with
    | some ik' =>
      obtain ⟨t, ht⟩ := h.first ik' hold
      exact ⟨t, commits_step hsane hun hs ht⟩
    | none => exact commits_of_registered hsane hun hs hold hik
  alone := by
    rintro t u ⟨req, d, prog, ht, hreq⟩ ⟨req', d', prog', hu, hreq'⟩
    -- who commits now finds the key free, so nobody has committed before
    have htaken : ∀ {v}, Commits key ch s v → s.state.db.idempotencyKeys (key, ch) ≠ none := by
      intro v hv hnone
      obtain ⟨ik, hik⟩ := commits_knows h hv
      rw [hnone] at hik
      cases hik
    rcases (known_after hsane h hun httl hs ht hreq).2 d rfl with before | ⟨⟨c, hl⟩, hnone⟩
    · rcases (known_after hsane h hun httl hs hu hreq').2 d' rfl with before' | ⟨-, hnone⟩
      · exact h.alone t u before before'
      · exact absurd hnone (htaken before)
    · rcases (known_after hsane h hun httl hs hu hreq').2 d' rfl with before' | ⟨⟨c', hl'⟩, -⟩
      · exact absurd hnone (htaken before')
      · rw [hl] at hl'
        cases hl'
        rfl

/-! Whole runs. -/

/-- The conditions of a race: the racing calls are not cut short, the key does not expire, and the
    scheduler does not run. -/
structure Racing (key : String) (ch : Channel) (s : System) (l : Act) : Prop where
  unhindered : Unhindered key ch s l
  withinTTL : WithinTTL key ch s l
  noTick : NoTick s l

/-- Its invariant. -/
structure Raced (p : Params) (key : String) (ch : Channel) (s : System) : Prop where
  sane : Sane p s
  unticked : Unticked s
  filed : s.state.db.Filed
  race : Race key ch s

theorem reach_raced (hr : (machine p).Reach (Racing key ch) (System.init p) s) : Raced p key ch s := by
  induction hr with
  | refl =>
    refine ⟨init_sane p, fun t th h => (by cases h), fun x hx => absurd rfl hx, fun t req φ prog h => (by cases h),
      fun ik hik => (by cases hik), fun t u ht => ?_⟩
    obtain ⟨req, d, prog, h, -⟩ := ht
    cases h
  | step _ hok hs ih =>
    have hs := (machine p).step_iff.mp hs
    exact ⟨sane_step ih.sane hs, unticked_step ih.unticked hok.noTick hs, filed_step ih.sane ih.unticked ih.filed hs,
      race_step ih.sane ih.race hok.unhindered hok.withinTTL hs⟩

/-- How a racing call ends. -/
theorem race_ends (h : Raced p key ch s) {t : Nat} {req : IngestRequest} {φ : Phase} {r : Result}
    (hth : s.threads t = some ⟨.ingest req, φ, .done r⟩) (hreq : req.Registers key ch) :
    ∃ ik d, s.state.db.idempotencyKeys (key, ch) = some ik ∧ ik.deliveryId = d.id ∧
      (φ = .ingest (.found d) ∧ r = .response (.ok ⟨d.id, d.status, true⟩) ∨
        φ = .ingest (.committed d) ∧ r = .response (.ok ⟨d.id, d.status, false⟩)) := by
  have hend : Finished (.ingest req) φ r := h.sane.conforms.ends hth
  cases φ with
  | ingest φ =>
    cases r with
    | unit r => exact hend.elim
    | response r =>
      have hknows := h.race.each t req φ _ hth hreq
      cases r with
      | ok resp =>
        rcases hend with ⟨d, rfl, rfl⟩ | ⟨d, rfl, rfl⟩
        · obtain ⟨ik, hik, hid⟩ := hknows
          exact ⟨ik, d, hik, hid, .inl ⟨rfl, rfl⟩⟩
        · obtain ⟨ik, hik, hid⟩ := hknows
          exact ⟨ik, d, hik, hid, .inr ⟨rfl, rfl⟩⟩
      | error e =>
        obtain ⟨req', hv⟩ := hreq.1
        rcases hend with rfl | ⟨-, e', he'⟩
        · exact hknows.elim
        · rw [hv] at he'
          cases he'
  | _ => cases r <;> exact hend.elim

/-- The delivery a call returned, and whether it called it a duplicate. -/
def Returned (key : String) (ch : Channel) (s : System) (t : Nat) (id : String) (dup : Bool) : Prop :=
  ∃ req φ st, s.threads t = some ⟨.ingest req, φ, .done (.response (.ok ⟨id, st, dup⟩))⟩ ∧ req.Registers key ch

/-- What the store holds for a key: one delivery, its registration, one received event, one row of work. -/
structure Tables.HoldsOne (t : Tables) (k : String × Channel) (id : String) : Prop where
  delivery : ∀ x, t.owner x = some k ↔ x = id
  registration : (t.idempotencyKeys k).map (·.deliveryId) = some id
  received : (t.audit.countP fun e => t.owner e.deliveryId = some k ∧ e.eventType = .received) = 1
  work : (t.scheduled.countP fun r => t.owner r.deliveryId = some k) +
    (t.outbox.countP fun r => t.owner r.deliveryId = some k) = 1

theorem holdsOne {t : Tables} {k : String × Channel} {ik : IdempotencyRow} (hl : t.Linked) (hf : t.Filed)
    (hik : t.idempotencyKeys k = some ik) : t.HoldsOne k ik.deliveryId := by
  have hself : t.owner ik.deliveryId = some k := hl.registered k ik hik
  have hiff : ∀ x, t.owner x = some k ↔ x = ik.deliveryId := by
    intro x
    constructor
    · intro hx
      obtain ⟨ik', hik', rfl⟩ := hl.owned x k hx
      rw [hik] at hik'
      cases hik'
      rfl
    · rintro rfl
      exact hself
  obtain ⟨hrec, hwork⟩ := hf ik.deliveryId (by rw [hself]; exact nofun)
  refine ⟨hiff, by rw [hik]; rfl, ?_, ?_⟩
  · simp only [hiff]
    exact hrec
  · simp only [hiff]
    exact hwork

/-- However many calls race for a key: those that have returned succeeded with one delivery id, and when all
    have returned, one of them alone made the delivery, and the store holds it once. -/
theorem ingest_race_agrees (p : Params) (key : String) (ch : Channel) (s : System)
    (hr : (machine p).Reach (Racing key ch) (System.init p) s) :
    ∃ id,
      (∀ t req φ r, s.threads t = some ⟨.ingest req, φ, .done r⟩ → req.Registers key ch →
        ∃ dup, Returned key ch s t id dup) ∧
      ((∀ t req φ prog, s.threads t = some ⟨.ingest req, φ, prog⟩ → req.Registers key ch → ∃ r, prog = .done r) →
        (∃ t req φ prog, s.threads t = some ⟨.ingest req, φ, prog⟩ ∧ req.Registers key ch) →
        (∃! t, Returned key ch s t id false) ∧ s.state.db.HoldsOne (key, ch) id) := by
  have h := reach_raced hr
  cases hk : s.state.db.idempotencyKeys (key, ch) with
  | none =>
    have hnone : ∀ t req φ r, s.threads t = some ⟨.ingest req, φ, .done r⟩ → ¬ req.Registers key ch := by
      intro t req φ r hth hreq
      obtain ⟨ik, d, hik, -⟩ := race_ends h hth hreq
      rw [hk] at hik
      cases hik
    refine ⟨"", fun t req φ r hth hreq => absurd hreq (hnone t req φ r hth), fun hdone hsome => ?_⟩
    obtain ⟨t, req, φ, prog, hth, hreq⟩ := hsome
    obtain ⟨r, rfl⟩ := hdone t req φ prog hth hreq
    exact absurd hreq (hnone t req φ r hth)
  | some ik =>
    refine ⟨ik.deliveryId, fun t req φ r hth hreq => ?_, fun hdone _ => ⟨?_, holdsOne h.sane.linked h.filed hk⟩⟩
    · obtain ⟨ik', d, hik, hid, ⟨-, rfl⟩ | ⟨-, rfl⟩⟩ := race_ends h hth hreq <;> rw [hk] at hik <;> cases hik
      · exact ⟨true, req, φ, d.status, by rw [hth, hid], hreq⟩
      · exact ⟨false, req, φ, d.status, by rw [hth, hid], hreq⟩
    · obtain ⟨t, req, d, prog, hth, hreq⟩ := h.race.first ik hk
      obtain ⟨r, rfl⟩ := hdone t req _ prog hth hreq
      obtain ⟨ik', d', hik, hid, ⟨hφ, rfl⟩ | ⟨hφ, rfl⟩⟩ := race_ends h hth hreq <;> cases hφ
      rw [hk] at hik
      cases hik
      refine ⟨t, ⟨req, _, d.status, by rw [hth, hid], hreq⟩, ?_⟩
      rintro u ⟨req', φ', st', hth', hreq'⟩
      obtain ⟨ik', d', -, -, ⟨-, hresp⟩ | ⟨rfl, -⟩⟩ := race_ends h hth' hreq'
      · simp only [Result.response.injEq, Except.ok.injEq, IngestResponse.mk.injEq, Bool.false_eq_true, and_false] at hresp
      · exact h.race.alone u t ⟨req', d', _, hth', hreq'⟩ ⟨req, d, _, hth, hreq⟩

/-- A step that looks up no key that has expired. -/
def freshLookup (s : System) : Act → Bool
  | .call t _ => match s.threads t with
    | some ⟨_, _, .ask (.remote (.findByIdempotencyKey key ch)) _⟩ =>
      (s.state.db.idempotencyKeys (key, ch)).all fun ik => s.state.clock < ik.expiresAt
    | _ => true
  | _ => true

theorem racing_of_smooth (hsmooth : Act.smooth l = true) (hnone : Act.startsNone l = true)
    (hlookup : freshLookup s l = true) : Racing key ch s l := by
  have hfree : FaultFree s l := faultFree_of_smooth hsmooth
  refine ⟨fun t _ _ _ _ _ _ => ⟨hfree.1 t, hfree.2 t⟩, fun t c k φ op f hl hth hop ik hik => ?_, fun t hl => ?_⟩
  · subst hl hop
    simp only [freshLookup, hth, hik, Option.all_some, decide_eq_true_eq] at hlookup
    exact hlookup
  · subst hl
    cases hnone

end

/-- Two calls look the key up before either registers it; a third comes later. -/
def threeIngests : List Act :=
  [.start 0 (.ingest sampleRequest), .start 1 (.ingest { sampleRequest with channel := " Email" })] ++ runs 0 2 ++
    runs 1 2 ++ [.call 0 (.uuid "d1"), .call 1 (.uuid "d2"), .call 1 .run, .call 0 .run, .call 0 .run,
      .start 2 (.ingest sampleRequest), .call 2 .run]

theorem ingest_race_agrees_sample :
    ∃ s, (machine {}).run (System.init {}) threeIngests = some s ∧ (∃! t, Returned "k1" .email s t "d2" false) ∧
      s.state.db.HoldsOne ("k1", .email) "d2" := by
  have hrun : ((machine {}).run (System.init {}) threeIngests).map (fun s => (s.state.db.owner "d2",
      (s.threads 0).map (·.task), (Machine.started threeIngests).all fun t => Machine.atRest (s.threads t))) =
      some (some ("k1", .email), some (.ingest sampleRequest), true) := by
    decide +kernel
  obtain ⟨s, hs, hparts⟩ := Option.map_eq_some_iff.mp hrun
  obtain ⟨howner, hrest⟩ := Prod.mk.inj hparts
  obtain ⟨htask, hrest⟩ := Prod.mk.inj hrest
  obtain ⟨⟨task, φ, prog⟩, hth, rfl⟩ := Option.map_eq_some_iff.mp htask
  have hcheck : (machine {}).check (fun s l => Act.smooth l && Act.startsNone l && freshLookup s l)
      (System.init {}) threeIngests = true := by
    decide +kernel
  have halong : (machine {}).Along (fun s l _ => Racing "k1" .email s l) (System.init {}) threeIngests := by
    refine Machine.Along.mono (fun s l _ h => ?_) threeIngests (Machine.along_of_check threeIngests hcheck)
    simp only [Bool.and_eq_true] at h
    exact racing_of_smooth h.1.1 h.1.2 h.2
  obtain ⟨id, -, hall⟩ := ingest_race_agrees {} "k1" .email s (Machine.reach_of_run threeIngests .refl halong hs)
  obtain ⟨hone, hstore⟩ := hall
    (fun t req φ prog ht _ => by
      cases prog with
      | done r => exact ⟨r, rfl⟩
      | ask op f => exact absurd ⟨op, f, rfl⟩ (Machine.rest_of_run hs (fun _ => rfl) hrest ht))
    ⟨0, sampleRequest, φ, prog, hth, sampleRequest_registers⟩
  obtain rfl := (hstore.delivery "d2").mp howner
  exact ⟨s, hs, hone, hstore⟩

end GoCourier
