import GoCourier.Domain.Values

/- Broker subjects (`subjects.go`): where a notification and a dead letter are
   published, the subjects the two streams are created with, and what a subject says
   when it is read back. -/
namespace GoCourier

def notificationSubject (pre : String) (ch : Channel) (pri : Priority) : String :=
  s!"{pre}.{ch.text}.{pri.text}"

def dlqSubject (ch : Channel) : String := s!"dlq.{ch.text}"

def allNotificationSubjects (pre : String) : List String :=
  allChannels.flatMap fun ch => [Priority.low, .normal, .high].map fun pri => notificationSubject pre ch pri

def allDLQSubjects : List String := allChannels.map dlqSubject

/-- Every notification is published on a subject of the notification stream. -/
theorem notificationSubject_mem (pre : String) (ch : Channel) (pri : Priority) :
    notificationSubject pre ch pri ∈ allNotificationSubjects pre := by
  cases ch <;> cases pri <;> simp [allNotificationSubjects, allChannels]

theorem dlqSubject_mem (ch : Channel) : dlqSubject ch ∈ allDLQSubjects := by
  cases ch <;> simp [allDLQSubjects, allChannels]

/-! Reading a subject back. -/

/-- `strings.Split(s, ".")`. -/
def splitDots (s : String) : List String := (s.toList.splitOn '.').map String.ofList

def parseNotificationSubject (pre subject : String) : Except Err (Channel × Priority) :=
  match splitDots subject with
  | first :: second :: third :: _ =>
    if first ≠ pre then .error ⟨"unexpected stream prefix in subject: " ++ subject, []⟩
    else match parseChannel second with
      | .error e => .error e
      | .ok ch => match parsePriority third with
        | .error e => .error e
        | .ok pri => .ok (ch, pri)
  | _ => .error ⟨"invalid subject: " ++ subject, []⟩

theorem parseChannel_ok {s : String} {ch : Channel} (h : parseChannel s = .ok ch) : toLower (trimSpace s) = ch.text := by
  unfold parseChannel at h
  split at h
  · rename_i found hfind
    cases h
    have htext := List.find?_some hfind
    simp only [decide_eq_true_eq] at htext
    exact htext.symm
  · cases h

/-- A blank priority counts as normal. -/
theorem parsePriority_ok {s : String} {pri : Priority} (h : parsePriority s = .ok pri) :
    toLower (trimSpace s) = pri.text ∨ toLower (trimSpace s) = "" ∧ pri = .normal := by
  unfold parsePriority at h
  simp only [] at h
  split at h
  · rename_i hblank
    cases h
    exact .inr ⟨hblank, rfl⟩
  · split at h
    · rename_i found hfind
      cases h
      have htext := List.find?_some hfind
      simp only [decide_eq_true_eq] at htext
      exact .inl htext.symm
    · cases h

@[simp] theorem parseChannel_text (ch : Channel) : parseChannel ch.text = .ok ch := by
  cases ch <;> decide

@[simp] theorem parsePriority_text (pri : Priority) : parsePriority pri.text = .ok pri := by
  cases pri <;> decide

theorem splitDots_append (s rest : String) : splitDots (s ++ "." ++ rest) = splitDots s ++ splitDots rest := by
  have hlist : (s ++ "." ++ rest).toList = s.toList ++ '.' :: rest.toList := by
    simp [String.toList_append]
  unfold splitDots
  rw [hlist, List.splitOn_append_cons_self, List.map_append]

theorem splitDots_single {s : String} (h : '.' ∉ s.toList) : splitDots s = [s] := by
  unfold splitDots
  rw [List.splitOn_eq_singleton h, List.map_singleton, String.ofList_toList]

theorem splitDots_notificationSubject {pre : String} (h : '.' ∉ pre.toList) (ch : Channel) (pri : Priority) :
    splitDots (notificationSubject pre ch pri) = [pre, ch.text, pri.text] := by
  have hch : '.' ∉ ch.text.toList := by cases ch <;> decide
  have hpri : '.' ∉ pri.text.toList := by cases pri <;> decide
  have hsubject : notificationSubject pre ch pri = pre ++ "." ++ (ch.text ++ "." ++ pri.text) := by
    simp only [notificationSubject, String.append_assoc]
    rfl
  rw [hsubject, splitDots_append, splitDots_append, splitDots_single h, splitDots_single hch, splitDots_single hpri]
  rfl

/-- A dead letter is published on no subject of the notification stream, whatever the prefix: the two
    end differently. -/
theorem dlqSubject_not_mem (ch : Channel) (pre : String) : dlqSubject ch ∉ allNotificationSubjects pre := by
  intro hmem
  obtain ⟨ch', -, hpri⟩ := List.mem_flatMap.mp hmem
  obtain ⟨pri, -, hsubject⟩ := List.mem_map.mp hpri
  have hlast : ∀ pri : Priority, '.' ∉ pri.text.toList := by
    intro pri
    cases pri <;> decide
  have hdots : splitDots (notificationSubject pre ch' pri) = splitDots (pre ++ "." ++ ch'.text) ++ [pri.text] := by
    calc splitDots (notificationSubject pre ch' pri)
      _ = splitDots (pre ++ "." ++ ch'.text ++ "." ++ pri.text) := rfl
      _ = splitDots (pre ++ "." ++ ch'.text) ++ splitDots pri.text := splitDots_append ..
      _ = splitDots (pre ++ "." ++ ch'.text) ++ [pri.text] := by rw [splitDots_single (hlast pri)]
  have hdead : splitDots (dlqSubject ch) = ["dlq", ch.text] := by
    cases ch <;> decide
  have hsame := congrArg List.getLast? (hdots.symm.trans ((congrArg splitDots hsubject).trans hdead))
  simp only [List.getLast?_append, List.getLast?_singleton, List.getLast?_cons_cons, Option.some_or,
    Option.some.injEq] at hsame
  revert hsame
  cases ch <;> cases pri <;> decide

/-- With a prefix without dots a subject reads back as what it was made from; and a subject that can be
    read has the prefix for its first part, and a spelling of the channel and of the priority after it. -/
theorem parse_notificationSubject (pre : String) :
    ('.' ∉ pre.toList → ∀ ch pri, parseNotificationSubject pre (notificationSubject pre ch pri) = .ok (ch, pri)) ∧
      ∀ s ch pri, parseNotificationSubject pre s = .ok (ch, pri) →
        ∃ second third rest, splitDots s = pre :: second :: third :: rest ∧
          toLower (trimSpace second) = ch.text ∧
          (toLower (trimSpace third) = pri.text ∨ toLower (trimSpace third) = "" ∧ pri = .normal) := by
  constructor
  · intro h ch pri
    unfold parseNotificationSubject
    rw [splitDots_notificationSubject h]
    simp
  · intro s ch pri h
    unfold parseNotificationSubject at h
    split at h
    · rename_i first second third rest hsplit
      split at h
      · cases h
      · rename_i hfirst
        split at h
        · cases h
        · rename_i ch' hch
          split at h
          · cases h
          · rename_i pri' hpri
            cases h
            rw [not_not] at hfirst
            subst hfirst
            exact ⟨second, third, rest, hsplit, parseChannel_ok hch, parsePriority_ok hpri⟩
    · cases h

theorem parse_notificationSubject_sample :
    parseNotificationSubject "notifications" (notificationSubject "notifications" .sms .high) = .ok (.sms, .high) ∧
      ∃ second third rest, splitDots "notifications.SMS. " = "notifications" :: second :: third :: rest ∧
        toLower (trimSpace second) = "sms" :=
  ⟨(parse_notificationSubject "notifications").1 (by decide) .sms .high, by
    obtain ⟨second, third, rest, hsplit, hsecond, -⟩ :=
      (parse_notificationSubject "notifications").2 "notifications.SMS. " .sms .normal (by decide)
    exact ⟨second, third, rest, hsplit, hsecond⟩⟩

/-- A prefix with a dot is never found again, and two subjects may read as one. -/
theorem dotted_prefix_unread :
    parseNotificationSubject "acme.notifications" (notificationSubject "acme.notifications" .email .normal) ≠
        .ok (.email, .normal) ∧
      parseNotificationSubject "notifications" "notifications.Email." = .ok (.email, .normal) ∧
      "notifications.Email." ≠ notificationSubject "notifications" .email .normal := by
  decide

end GoCourier
