import Mathlib.Data.List.DropRight
import GoCourier.System.World

/- The consumers of a worker process. `Run` starts `worker-0`, `worker-1` and so on, and
   `Subscribe` makes a durable consumer of each, named after it and the subjects it
   filters. The name does not say which process asks: all processes share the consumers
   of one number, and no two numbers share one. -/
namespace GoCourier

/-- Letters, digits, dashes and underscores stay; any other rune becomes a dash. -/
def consumerRune (r : Char) : Char := if r.isAlphanum ∨ r = '-' ∨ r = '_' then r else '-'

/-- `sanitizeConsumerName`. -/
def sanitizeConsumerName (name : String) : String :=
  -- `strings.Trim(b.String(), "-")`
  let out := ((name.toList.map consumerRune).dropWhile (· = '-')).rdropWhile (· = '-')
  if out = [] then "consumer" else String.ofList out

/-- The subjects `Subscribe` asks for on the NOTIFICATIONS stream. -/
def subscribeFilter (streamPrefix : String) : String := streamPrefix ++ ".>"

/-- The durable name under which `Subscribe` registers `worker-i`. -/
def durableName (p : Params) (i : Nat) : String :=
  sanitizeConsumerName s!"worker-{i}-{subscribeFilter p.streamPrefix}"

/-- The durable consumers that `Run` subscribes, in any number of processes. -/
def durableNames (p : Params) : List String := (List.range p.consumers).map (durableName p)

/-- A filter `pre.>` takes the subjects that go on after `pre.`. -/
def Takes (pre subject : String) : Prop := ∃ rest, rest ≠ "" ∧ subject = pre ++ "." ++ rest

/-- Every subject of the stream is one the consumers filter for. -/
theorem taken_of_mem {pre subject : String} (h : subject ∈ allNotificationSubjects pre) : Takes pre subject := by
  obtain ⟨ch, -, hch⟩ := List.mem_flatMap.mp h
  obtain ⟨pri, -, rfl⟩ := List.mem_map.mp hch
  refine ⟨ch.text ++ "." ++ pri.text, ?_, ?_⟩
  · cases ch <;> cases pri <;> decide
  · simp only [notificationSubject, String.append_assoc]
    rfl

theorem rdropWhile_append_last {α : Type} {f : α → Bool} {a : α} (h : f a = false) (l m : List α) :
    (l ++ [a] ++ m).rdropWhile f = l ++ [a] ++ m.rdropWhile f := by
  induction m using List.reverseRecOn with
  | nil => rw [List.append_nil, List.rdropWhile_nil, List.append_nil, List.rdropWhile_concat_neg _ _ _ (by simp [h])]
  | append_singleton m b ih =>
    rw [← List.append_assoc]
    by_cases hb : f b = true
    · rw [List.rdropWhile_concat_pos _ _ _ hb, List.rdropWhile_concat_pos _ _ _ hb, ih]
    · rw [List.rdropWhile_concat_neg _ _ _ hb, List.rdropWhile_concat_neg _ _ _ hb, List.append_assoc]

theorem consumerRune_digit {r : Char} (h : r.isDigit = true) : consumerRune r = r :=
  if_pos (.inl (by rw [Char.isAlphanum, h, Bool.or_true]))

theorem digits_runes (i : Nat) : (Nat.toDigits 10 i).map consumerRune = Nat.toDigits 10 i :=
  (List.map_congr_left fun _ h => consumerRune_digit (Nat.isDigit_of_mem_toDigits (by decide) (by decide) h)).trans
    (List.map_id _)

/-- What is left of a worker's name: its number stands between the same beginning and the same end. -/
theorem durableName_toList (p : Params) (i : Nat) :
    (durableName p i).toList = "worker-".toList ++ Nat.toDigits 10 i ++
      (('-' :: (subscribeFilter p.streamPrefix).toList.map consumerRune).rdropWhile (· = '-')) := by
  have hname : (s!"worker-{i}-{subscribeFilter p.streamPrefix}").toList.map consumerRune =
      "worker-".toList ++ Nat.toDigits 10 i ++ '-' :: (subscribeFilter p.streamPrefix).toList.map consumerRune := by
    have hworker : "worker-".toList.map consumerRune = "worker-".toList := by decide
    have hdash : "-".toList.map consumerRune = ['-'] := by decide
    simp only [String.toList_append, List.map_append, toString, Nat.toList_repr, digits_runes, hworker, hdash]
    rw [List.append_assoc, List.singleton_append]
  obtain ⟨ds, a, hds⟩ : ∃ ds a, Nat.toDigits 10 i = ds ++ [a] :=
    ⟨_, _, (List.dropLast_append_getLast Nat.toDigits_ne_nil).symm⟩
  have hdigit : a.isDigit = true := by
    refine Nat.isDigit_of_mem_toDigits (b := 10) (n := i) (by decide) (by decide) ?_
    rw [hds]
    exact List.mem_append_right _ (List.mem_singleton_self a)
  have hdash : decide (a = '-') = false := by
    refine decide_eq_false fun h => ?_
    rw [h] at hdigit
    cases hdigit
  have htrim : ("worker-".toList ++ Nat.toDigits 10 i ++
        '-' :: (subscribeFilter p.streamPrefix).toList.map consumerRune).rdropWhile (· = '-') =
      "worker-".toList ++ Nat.toDigits 10 i ++
        ('-' :: (subscribeFilter p.streamPrefix).toList.map consumerRune).rdropWhile (· = '-') := by
    rw [hds, ← List.append_assoc]
    exact rdropWhile_append_last (f := fun r => decide (r = '-')) hdash _ _
  have hfront : ∀ cs : List Char, ("worker-".toList ++ cs).dropWhile (· = '-') = "worker-".toList ++ cs := fun _ => rfl
  unfold durableName sanitizeConsumerName
  simp only [hname]
  rw [List.append_assoc, hfront, ← List.append_assoc, htrim, if_neg, String.toList_ofList]
  simp

theorem durableName_injective (p : Params) : Function.Injective (durableName p) := by
  intro i j h
  have hlist := congrArg String.toList h
  rw [durableName_toList, durableName_toList, List.append_cancel_right_eq, List.append_cancel_left_eq] at hlist
  have hnum := congrArg (Nat.ofDigitChars 10 · 0) hlist
  simpa only [Nat.ofDigitChars_ten_toDigits] using hnum

theorem durableNames_nodup (p : Params) : (durableNames p).Nodup :=
  (List.nodup_map_iff (durableName_injective p)).mpr List.nodup_range

end GoCourier
