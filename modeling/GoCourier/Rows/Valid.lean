import GoCourier.Rows.Writes

/- What every row satisfies, whoever wrote it last. The writers do not wait for one
   another, and most do not look at the row they overwrite; but each writes a status, a
   retry count and an error text that belong together, taken from a copy in which they
   did. So the three columns agree in every row and in every copy still in hand. -/
namespace GoCourier

open Interleave

/-- Status, retry count and last error of one delivery. -/
structure Consistent (max : Int) (st : Status) (n : Nat) (err : Option String) : Prop where
  count : 0 ≤ (n : Int) ∧ (n : Int) ≤ max - 1
  unsent : st = .pending ∨ st = .queued → n = 0
  retried : st = .retrying → 1 ≤ n ∧ err ≠ none
  dead : st = .dlq → err ≠ none
  done : st = .succeeded → err = none
  /-- The text of an error is NULL or not empty. -/
  text : err ≠ some ""
  status : st ∈ [Status.pending, .queued, .processing, .retrying, .succeeded, .dlq]

def DeliveryRow.Consistent (max : Int) (r : DeliveryRow) : Prop :=
  GoCourier.Consistent max r.status r.retryCount r.lastError

/-- The same of a copy, as it would be stored. -/
def Delivery.Consistent (max : Int) (d : Delivery) : Prop :=
  GoCourier.Consistent max d.status d.retryCount (nullable d.lastError)

/-- The copy a call may still write is consistent, and an error it may write has a text. -/
def Phase.Consistent (max : Int) : Phase → Prop
  | .worker (.snap d) => d.Consistent max
  | .worker (.owned d) => d.Consistent max
  | .worker (.refused d e _) => d.Consistent max ∧ e.text ≠ ""
  | .worker (.accepted d) => d.Consistent max
  | .replay (.snap d) => d.Consistent max
  | .tick (.snap d _) => d.Consistent max
  | _ => True

/-- The errors of a provider have a text. -/
def TextedErrors (_ : System) (l : Act) : Prop := ∀ t e, l = .call t (.verdict (.error e)) → e.text ≠ ""

theorem nullable_ne (s : String) : nullable s ≠ some "" := by
  unfold nullable
  split
  · exact nofun
  · rename_i hne
    intro h
    exact hne (Option.some.inj h)

theorem nullable_some {s : String} (h : s ≠ "") : nullable s ≠ none := by
  rw [nullable, if_neg h]
  exact nofun

section
variable {max : Int} {d d' : Delivery} {r : DeliveryRow}

/-- What is read from a consistent row is consistent. -/
theorem consistent_scan (id : String) (h : r.Consistent max) : (scanDelivery id r).Consistent max := by
  have herr : nullable (r.lastError.getD "") = r.lastError := by
    cases he : r.lastError with
    | none => rfl
    | some e =>
      refine if_neg fun hempty => h.text ?_
      rw [he]
      exact congrArg some hempty
  show GoCourier.Consistent max r.status r.retryCount (nullable (r.lastError.getD ""))
  rw [herr]
  exact h

/-- A copy that is queued with no retries. -/
theorem consistent_queued (hmax : 1 ≤ max) (hst : d.status = .pending ∨ d.status = .queued) (hn : d.retryCount = 0) :
    d.Consistent max where
  count := by omega
  unsent _ := hn
  retried h := by rcases hst with hst | hst <;> rw [hst] at h <;> cases h
  dead h := by rcases hst with hst | hst <;> rw [hst] at h <;> cases h
  done h := by rcases hst with hst | hst <;> rw [hst] at h <;> cases h
  text := nullable_ne _
  status := by rcases hst with hst | hst <;> rw [hst] <;> decide

/-- A dispatch keeps count and error of what it takes. -/
theorem consistent_claimed (h : d.Consistent max) (now : Time) :
    Delivery.Consistent max { d with status := .processing, updatedAt := now } where
  count := h.count
  unsent h := by rcases h with h | h <;> cases h
  retried h := by cases h
  dead h := by cases h
  done h := by cases h
  text := nullable_ne _
  status := by simp

/-- A copy in a status that needs an error text has one. -/
theorem consistent_failed {st : Status} {n : Nat} {e : String} (hcount : (n : Int) ≤ max - 1)
    (hst : st = .dlq ∨ st = .retrying ∧ 1 ≤ n) (he : e ≠ "") (hm : d.Moved d' st n e) : d'.Consistent max := by
  unfold Delivery.Consistent
  rw [hm.status, hm.count, hm.error]
  have hnone := nullable_some he
  exact {
    count := by omega
    unsent := by
      intro h
      rcases hst with rfl | ⟨rfl, -⟩ <;> rcases h with h | h <;> cases h
    retried := by
      intro h
      rcases hst with rfl | ⟨-, hn⟩
      · cases h
      · exact ⟨hn, hnone⟩
    dead := fun _ => hnone
    done := by
      intro h
      rcases hst with rfl | ⟨rfl, -⟩ <;> cases h
    text := nullable_ne _
    status := by rcases hst with rfl | ⟨rfl, -⟩ <;> simp }

end

section
variable {p : Params} {s s' : System} {l : Act}

/-- What ends a dispatch's hold is consistent. -/
theorem consistent_settles {φ : WorkerPhase} {d' : Delivery} (h : Settles p φ d')
    (hφ : Phase.Consistent p.maxAttempts (.worker φ)) : d'.Consistent p.maxAttempts := by
  cases h with
  | noProvider absent moved => exact consistent_failed hφ.count.2 (.inl rfl) (by decide) moved
  | gaveUp out moved => exact consistent_failed hφ.1.count.2 (.inl rfl) hφ.2 moved
  | @retry d d' e more moved =>
    have hroom : (d.retryCount + 1 : Int) < p.maxAttempts := not_le.mp (not_or.mp more).2
    exact consistent_failed (by push_cast; omega) (.inr ⟨rfl, by omega⟩) hφ.2 moved
  | @success d d' moved =>
    have hd : d.Consistent p.maxAttempts := hφ
    unfold Delivery.Consistent
    rw [moved.status, moved.count, moved.error]
    exact {
      count := hd.count
      unsent := by
        intro h
        rcases h with h | h <;> cases h
      retried := nofun
      dead := nofun
      done := fun _ => rfl
      text := nullable_ne _
      status := by simp }

/-- Every `Update` writes a consistent copy. -/
theorem consistent_updates (hmax : 1 ≤ p.maxAttempts) {φ : Phase} {d : Delivery} (h : Updates p φ d)
    (hφ : φ.Consistent p.maxAttempts) : d.Consistent p.maxAttempts := by
  cases h with
  | settle settles => exact consistent_settles settles hφ
  | replay dead queued =>
    subst queued
    exact consistent_queued hmax (.inr rfl) rfl
  | @tick d₀ d now ids pending queued =>
    have hd : d₀.Consistent p.maxAttempts := hφ
    subst queued
    exact consistent_queued hmax (.inr rfl) (hd.unsent (.inl pending))

/-- Rows and copies in hand. -/
structure AllConsistent (p : Params) (s : System) : Prop where
  conforms : (machine p).Conforms (protocol p) s
  rows : ∀ x r, s.state.db.deliveries x = some r → r.Consistent p.maxAttempts
  hands : ∀ t th, s.threads t = some th → th.phase.Consistent p.maxAttempts

theorem rows_consistent_step (hmax : 1 ≤ p.maxAttempts) (h : AllConsistent p s) (hs : (machine p).Step s l s')
    {x : String} {r' : DeliveryRow} (hr' : s'.state.db.deliveries x = some r') : r'.Consistent p.maxAttempts := by
  have hc := h.conforms
  cases wrote_step hs hr' with
  | kept before => exact h.rows x r' before
  | updated label effective running about before after =>
    subst after
    exact consistent_updates hmax (update_may (hc.may running)) (h.hands _ _ running)
  | claimed label effective running about before expected after =>
    obtain ⟨d₀, now, rfl, -, -, rfl⟩ := claim_may (hc.may running)
    subst after
    exact consistent_claimed (h.hands _ _ running) now
  | @created t c k φ d exp subject payload headers schedule f label effective running about new after =>
    obtain ⟨req, rfl, rfl, hmakes, -⟩ := stores_minted (hc.may running)
    subst after
    refine consistent_queued (d := d) hmax ?_ hmakes.count
    rw [hmakes.status]
    split
    · exact .inl rfl
    · exact .inr rfl

/-- What `FindByID` returns is consistent. -/
theorem consistent_found (h : AllConsistent p s) {id : String} {c : Choice} {d : Delivery} {w : World}
    (ha : Answered p s.state (.remote (.findByID id)) c (.ok d) w) : d.Consistent p.maxAttempts := by
  obtain ⟨-, hexec⟩ := answered_ok ha
  have hfind : s.state.db.findByID id = .ok d := congrArg Prod.fst hexec
  unfold Tables.findByID at hfind
  split at hfind
  · rename_i r hr
    cases hfind
    exact consistent_scan id (h.rows id r hr)
  · cases hfind

theorem worker_consistent_step (h : AllConsistent p s) (htext : TextedErrors s l) {t : Nat} {c : Choice} {k : Task}
    {ψ φ : WorkerPhase} {op : Op} {f : Ans op → CallTree Op Ans Result} {r : Ans op} {w : World} (hl : l = .call t c)
    (running : s.threads t = some ⟨k, .worker ψ, .ask op f⟩) (answered : answer p op c s.state = some (r, w))
    (hmoves : WorkerMoves p k.Target k.Copies ψ op r φ) : Phase.Consistent p.maxAttempts (.worker φ) := by
  have hψ := h.hands t _ running
  have hans := answer_cases (p := p) answered
  cases hmoves with
  | clock φ t => exact hψ
  | uuid φ u => exact hψ
  | jitter φ n r => exact hψ
  | found about d => exact consistent_found h hans
  | claimed takeable taken =>
    subst taken
    exact consistent_claimed hψ _
  | admitted d proc u => exact hψ
  | blocked d proc e => exact ⟨hψ, by decide⟩
  | accepted present res => exact hψ
  | rejected present e =>
    cases hans with
    | send d v => exact ⟨hψ, htext t e hl⟩
  | failure d e proc u => exact hψ
  | success d proc u => exact hψ
  | settled settles u => cases settles <;> trivial
  | recorded records u => cases records <;> exact hψ
  | _ => trivial

theorem hands_consistent_step (h : AllConsistent p s) (htext : TextedErrors s l) (hs : (machine p).Step s l s') {u : Nat}
    {th : Thread Op Ans Task Result Phase} (hu : s'.threads u = some th) : th.phase.Consistent p.maxAttempts := by
  have hc := h.conforms
  obtain ⟨k, φ, prog⟩ := th
  cases φ with
  | worker φ =>
    rcases worker_origin hc hs hu with ⟨before, -⟩ | rfl | ⟨c, ψ, op, f, r, hl, running, answered, hmoves⟩
    · exact h.hands u _ before
    · trivial
    · exact worker_consistent_step h htext hl running answered hmoves
  | replay φ =>
    rcases replay_origin hc hs hu with ⟨before, -⟩ | rfl | ⟨c, ψ, id, op, f, r, hl, running, answered, hmoves⟩
    · exact h.hands u _ before
    · trivial
    · have hψ := h.hands u _ running
      cases hmoves with
      | clock φ t => exact hψ
      | found d => exact consistent_found h (answer_cases answered)
      | _ => trivial
  | tick φ =>
    rcases tick_origin hc hs hu with ⟨before, -⟩ | rfl | ⟨c, ψ, op, f, r, hl, running, answered, hmoves⟩
    · exact h.hands u _ before
    · trivial
    · cases hmoves with
      | read todo d => exact consistent_found h (answer_cases answered)
      | _ => trivial
  | _ => trivial

/-- For every number of retries allowed, in every run with any interleaving, crashes and failing calls, if
    only provider errors have a text: every row is consistent. -/
theorem delivery_rows_consistent (p : Params) (hmax : 1 ≤ p.maxAttempts) (s : System)
    (hr : (machine p).Reach TextedErrors (System.init p) s) :
    ∀ x r, s.state.db.deliveries x = some r → r.Consistent p.maxAttempts := by
  have h0 : AllConsistent p (System.init p) := by
    refine ⟨init_conforms p, fun x r hr => ?_, fun t th hth => ?_⟩
    · cases hr
    · cases hth
  have h : AllConsistent p s := hr.invariant h0 fun s l s' h htext hs =>
    ⟨Machine.conforms_step h.conforms hs, fun x r => rows_consistent_step hmax h hs,
      fun t th => hands_consistent_step h htext hs⟩
  exact h.rows

end

/-- `TextedErrors` of a step. -/
def Act.texted : Act → Bool
  | .call _ (.verdict (.error e)) => e.text ≠ ""
  | _ => true

/-- A delivery that fails once, and then for good. -/
def failedTwice : List Act :=
  ingestCalls 0 "d1" ++ retryCalls 1 "d1" "a1" ++ deadLetterCalls 2 "d1" "a2" ⟨"refused", [.permanent]⟩

theorem delivery_rows_consistent_sample :
    ∃ s r, (machine {}).run (System.init {}) failedTwice = some s ∧ s.state.db.deliveries "d1" = some r ∧
      r.status = .dlq ∧ r.retryCount = 1 ∧ r.lastError = some "refused" ∧ r.Consistent 8 := by
  have hrun : ((machine {}).run (System.init {}) failedTwice).map (fun s =>
      (s.state.db.deliveries "d1").map fun r => (r.status, r.retryCount, r.lastError)) =
        some (some (.dlq, 1, some "refused")) := by
    decide +kernel
  obtain ⟨s, hs, hrow⟩ := Option.map_eq_some_iff.mp hrun
  obtain ⟨r, hr, hcols⟩ := Option.map_eq_some_iff.mp hrow
  simp only [Prod.mk.injEq] at hcols
  have htext : failedTwice.all Act.texted = true := by decide
  have hreach : (machine {}).Reach TextedErrors (System.init {}) s := by
    refine Machine.reach_of_run failedTwice .refl (Machine.along_of_forall failedTwice _ fun l hl _ _ t e he => ?_) hs
    have htexted := List.all_eq_true.mp htext l hl
    rw [he] at htexted
    exact of_decide_eq_true htexted
  have h := delivery_rows_consistent {} (by decide) s hreach
  exact ⟨s, r, hs, hr, hcols.1, hcols.2.1, hcols.2.2, h "d1" r hr⟩

end GoCourier
