import Mathlib.Algebra.Order.Floor.Ring
import Mathlib.Data.Rat.Floor
import GoCourier.Http.Acceptance
import GoCourier.Web.LoadTest

/- The requests of the load panel (`loadTest.ts`, `LoadTestPanel.tsx`). A user edits the
   configuration, in any order and as often as they like; a scenario then builds its
   requests from it with whatever random numbers it draws. The pool of channels never
   becomes empty, so every request has a channel and a priority, and as the API decodes it
   it is valid. The numbers of the configuration, which no request is built from, are left
   out. -/
namespace GoCourier
namespace LoadTest

open Interleave

/-! What JavaScript draws. -/

/-- A value of `Math.random()`. -/
abbrev Random := { u : Rat // 0 ≤ u ∧ u < 1 }

/-- A text of at most `n` bytes, such as a slice or the digits of a number. -/
abbrev Short (n : Nat) := { s : String // s.utf8ByteSize ≤ n }

/-- What is drawn for one request. -/
structure Draws where
  /-- `Math.random().toString(36).slice(2, 8)`. -/
  random : Short 6
  /-- `Date.now().toString(36).slice(-4)`. -/
  time : Short 4
  channel : Random
  priority : Random
  address : Random

def genLoadKey (start : String) (draws : Draws) : String := start ++ "-" ++ draws.random.val ++ "-" ++ draws.time.val

/-- `items[Math.floor(Math.random() * items.length)]`; nothing where there is no such item. The product of doubles is
    rounded, but never up to the length. -/
def pickRandom {α : Type} (items : List α) (u : Random) : Option α := items[⌊u.val * items.length⌋.toNat]?

/-! The configuration. -/

inductive ChannelMode where
  | fixed
  | random
  | roundRobin
  deriving DecidableEq, Repr

inductive PriorityMode where
  | fixed
  | random
  deriving DecidableEq, Repr

structure LoadTestConfig where
  address : String
  channelMode : ChannelMode
  fixedChannel : Channel
  selectedChannels : List Channel
  priorityMode : PriorityMode
  fixedPriority : Priority
  deriving DecidableEq, Repr

def defaultLoadConfig : LoadTestConfig where
  address := "user@example.com"
  channelMode := .fixed
  fixedChannel := .email
  selectedChannels := allChannels
  priorityMode := .fixed
  fixedPriority := .normal

/-- `new Set(items)`, in its order. -/
def newSet {α : Type} [DecidableEq α] (items : List α) : List α :=
  items.foldl (fun set x => if x ∈ set then set else set ++ [x]) []

def toggleChannel (channel : Channel) (checked : Bool) (c : LoadTestConfig) : LoadTestConfig :=
  let next := if checked then newSet (c.selectedChannels ++ [channel]) else c.selectedChannels.filter (· ≠ channel)
  { c with selectedChannels := if 0 < next.length then next else [channel] }

/-- What the panel's inputs do; all but the checkboxes `patch` one field. -/
inductive Edit where
  | address (value : String)
  | channelMode (v : ChannelMode)
  | fixedChannel (v : Channel)
  | toggle (channel : Channel) (checked : Bool)
  | priorityMode (v : PriorityMode)
  | fixedPriority (v : Priority)
  deriving DecidableEq, Repr

def Edit.apply (c : LoadTestConfig) : Edit → LoadTestConfig
  | .address value => { c with address := value }
  | .channelMode v => { c with channelMode := v }
  | .fixedChannel v => { c with fixedChannel := v }
  | .toggle channel checked => toggleChannel channel checked c
  | .priorityMode v => { c with priorityMode := v }
  | .fixedPriority v => { c with fixedPriority := v }

/-- The configuration after the edits. -/
def edited (edits : List Edit) : LoadTestConfig := edits.foldl Edit.apply defaultLoadConfig

/-! The requests. -/

/-- A field that is `undefined` is no part of the JSON. -/
structure SendNotificationReq where
  schemaVersion : String
  idempotencyKey : String
  channel : Option Channel
  priority : Option Priority
  /-- The address of the recipient. -/
  recipient : Option String
  deriving DecidableEq, Repr

def resolveChannel (config : LoadTestConfig) (index : Nat) (draws : Draws) : Option Channel :=
  let pool := if config.channelMode = .fixed then [config.fixedChannel]
    else if 0 < config.selectedChannels.length then config.selectedChannels else allChannels
  if config.channelMode = .roundRobin ∨ config.channelMode = .random then
    if config.channelMode = .roundRobin then pool[index % pool.length]? else pickRandom pool draws.channel
  else some config.fixedChannel

def allPriorities : List Priority := [.low, .normal, .high]

def resolvePriority (config : LoadTestConfig) (draws : Draws) : Option Priority :=
  if config.priorityMode = .random then pickRandom allPriorities draws.priority else some config.fixedPriority

/-- `buildRequest` before its overrides. -/
def buildRequest (config : LoadTestConfig) (index : Nat) (draws : Draws) : SendNotificationReq where
  schemaVersion := "1.0"
  idempotencyKey := genLoadKey "load" draws
  channel := resolveChannel config index draws
  priority := resolvePriority config draws
  recipient := some config.address

inductive LoadScenarioId where
  | burst
  | duplicateSeq
  | duplicatePar
  | randomChannel
  | randomPriority
  | mixedChaos
  | retryStorm
  | failureMix
  | staggered
  | allChannels
  deriving DecidableEq, Repr

def failureMixAddresses : List String := ["user@example.com", "fail-transient@example.com", "fail-permanent@example.com"]

def buildScenarioRequest (scenario : LoadScenarioId) (config : LoadTestConfig) (index : Nat) (sharedKey : Option String)
    (draws : Draws) : SendNotificationReq :=
  match scenario with
  | .retryStorm => { buildRequest config index draws with
      channel := if config.channelMode = .fixed then some config.fixedChannel else resolveChannel config index draws
      priority := if config.priorityMode = .fixed then some config.fixedPriority else resolvePriority config draws
      recipient := some "fail-transient@example.com" }
  | .failureMix => { buildRequest config index draws with
      recipient := pickRandom failureMixAddresses draws.address }
  | .randomChannel => buildRequest { config with channelMode := .random } index draws
  | .randomPriority => buildRequest { config with priorityMode := .random } index draws
  | .mixedChaos => buildRequest { config with channelMode := .random, priorityMode := .random } index draws
  | .allChannels => buildRequest { config with channelMode := .roundRobin } index draws
  | .duplicateSeq | .duplicatePar =>
    { buildRequest config index draws with idempotencyKey := sharedKey.getD (genLoadKey "dup" draws) }
  | .burst | .staggered => buildRequest config index draws

/-- The key of a run; `now` is the text of `Date.now()`. -/
def sharedKey (scenario : LoadScenarioId) (now : Short 16) : Option String :=
  match scenario with
  | .duplicateSeq | .duplicatePar => some ("dup-storm-" ++ now.val)
  | _ => none

/-! The client. -/

/-- A character in a JSON string. -/
def quoteChar (c : Char) : String :=
  if c.toNat = 0x22 ∨ c.toNat = 0x5c then "\\" ++ c.toString
  else if c.toNat = 0x08 then "\\b"
  else if c.toNat = 0x09 then "\\t"
  else if c.toNat = 0x0a then "\\n"
  else if c.toNat = 0x0c then "\\f"
  else if c.toNat = 0x0d then "\\r"
  else if c.toNat < 0x10 then "\\u000" ++ String.ofList (Nat.toDigits 16 c.toNat)
  else if c.toNat < 0x20 then "\\u00" ++ String.ofList (Nat.toDigits 16 c.toNat)
  else c.toString

/-- `JSON.stringify` of a text. -/
def quote (s : String) : String := "\"" ++ String.join (s.toList.map quoteChar) ++ "\""

/-- `JSON.stringify` of the object of an address. -/
def recipientText : Option String → String
  | some address => "\x7b\"address\":" ++ quote address ++ "\x7d"
  | none => "\x7b\x7d"

theorem recipientText_brace (recipient : Option String) : ∃ rest, (recipientText recipient).toList = '\x7b' :: rest := by
  cases recipient with
  | none => exact ⟨_, rfl⟩
  | some address =>
    refine ⟨"\"address\":".toList ++ (quote address).toList ++ "\x7d".toList, ?_⟩
    unfold recipientText
    rw [String.toList_append, String.toList_append]
    rfl

def recipientJson (recipient : Option String) : JsonText where
  text := recipientText recipient
  ne_empty := by
    intro hempty
    obtain ⟨rest, hrest⟩ := recipientText_brace recipient
    rw [hempty] at hrest
    cases hrest
  ne_null := by
    intro hnull
    obtain ⟨rest, hrest⟩ := recipientText_brace recipient
    rw [hnull] at hrest
    exact absurd (congrArg List.head? hrest) (by simp)

/-- A member that may be `undefined`. -/
def member : Option String → Member String
  | some v => .value v
  | none => .absent

/-- `{ id: "welcome", data: {} }`. -/
def welcomeTemplate : JsonText where
  text := "\x7b\"id\":\"welcome\",\"data\":\x7b\x7d\x7d"
  ne_empty := by decide
  ne_null := by decide

/-- What `JSON.stringify` makes of a request, as the API reads it. -/
def SendNotificationReq.body (req : SendNotificationReq) : IngestBody where
  schemaVersion := .value req.schemaVersion
  idempotencyKey := .value req.idempotencyKey
  channel := member (req.channel.map Channel.text)
  priority := member (req.priority.map Priority.text)
  recipient := .value (recipientJson req.recipient)
  template := .value welcomeTemplate

/-! The pool of channels. -/

section
variable {α : Type} {c : LoadTestConfig}

/-- There is a channel to pick. -/
def LoadTestConfig.Pooled (c : LoadTestConfig) : Prop := c.selectedChannels ≠ []

theorem toggle_pooled (channel : Channel) (checked : Bool) : (toggleChannel channel checked c).Pooled := by
  unfold toggleChannel
  generalize (if checked then newSet (c.selectedChannels ++ [channel])
    else c.selectedChannels.filter (· ≠ channel)) = next
  by_cases hlength : 0 < next.length
  · simp only [if_pos hlength]
    exact List.ne_nil_of_length_pos hlength
  · simp only [if_neg hlength]
    exact List.cons_ne_nil _ _

/-- One edit. -/
theorem edit_pooled (h : c.Pooled) (e : Edit) : (e.apply c).Pooled := by
  cases e with
  | toggle channel checked => exact toggle_pooled channel checked
  | _ => exact h

/-- Any edits. -/
theorem edited_pooled (edits : List Edit) : (edited edits).Pooled := by
  have hrun : ∀ (edits : List Edit) (c : LoadTestConfig), c.Pooled → (edits.foldl Edit.apply c).Pooled := by
    intro edits
    induction edits with
    | nil => exact fun c h => h
    | cons e edits ih => exact fun c h => ih _ (edit_pooled h e)
  exact hrun edits defaultLoadConfig (List.cons_ne_nil _ _)

/-! What a scenario picks. -/

theorem pickRandom_mem {items : List α} (h : items ≠ []) (u : Random) : ∃ x ∈ items, pickRandom items u = some x := by
  have hlength : (0 : Rat) < items.length := by
    exact_mod_cast List.length_pos_iff.mpr h
  have hnonneg : (0 : Int) ≤ ⌊u.val * items.length⌋ := Int.floor_nonneg.mpr (mul_nonneg u.property.1 hlength.le)
  have hlt : ⌊u.val * items.length⌋ < (items.length : Int) := by
    rw [Int.floor_lt]
    calc u.val * items.length < 1 * items.length := mul_lt_mul_of_pos_right u.property.2 hlength
      _ = ((items.length : Int) : Rat) := by rw [one_mul]; rfl
  have hindex : ⌊u.val * items.length⌋.toNat < items.length := by omega
  exact ⟨_, List.getElem_mem hindex, List.getElem?_eq_getElem hindex⟩

/-- The channel is one the configuration names. -/
theorem resolveChannel_mem (h : c.Pooled) (index : Nat) (draws : Draws) :
    ∃ ch, resolveChannel c index draws = some ch ∧
      (if c.channelMode = .fixed then ch = c.fixedChannel else ch ∈ c.selectedChannels) := by
  have hlength := List.length_pos_iff.mpr h
  unfold resolveChannel
  cases hmode : c.channelMode with
  | fixed => exact ⟨c.fixedChannel, by simp, by simp⟩
  | random =>
    obtain ⟨ch, hch, hpick⟩ := pickRandom_mem h draws.channel
    exact ⟨ch, by simp [hlength, hpick], by simpa using hch⟩
  | roundRobin =>
    have hindex := Nat.mod_lt index hlength
    exact ⟨c.selectedChannels[index % c.selectedChannels.length], by simp [hlength, hindex], by simp⟩

theorem resolvePriority_some (c : LoadTestConfig) (draws : Draws) : ∃ pri, resolvePriority c draws = some pri := by
  unfold resolvePriority
  split
  · have hsome : allPriorities ≠ [] := by decide
    obtain ⟨pri, -, hpick⟩ := pickRandom_mem hsome draws.priority
    exact ⟨pri, hpick⟩
  · exact ⟨_, rfl⟩

/-- The channel, priority, version and key are as the API wants them. -/
structure SendNotificationReq.Ready (req : SendNotificationReq) : Prop where
  channel : ∃ ch, req.channel = some ch
  priority : ∃ pri, req.priority = some pri
  version : req.schemaVersion = "1.0"
  named : 0 < req.idempotencyKey.utf8ByteSize
  short : req.idempotencyKey.utf8ByteSize ≤ 256

theorem genLoadKey_size (start : String) (draws : Draws) :
    start.utf8ByteSize < (genLoadKey start draws).utf8ByteSize ∧
      (genLoadKey start draws).utf8ByteSize ≤ start.utf8ByteSize + 12 := by
  have hrandom := draws.random.property
  have htime := draws.time.property
  have hdash : "-".utf8ByteSize = 1 := rfl
  simp only [genLoadKey, String.utf8ByteSize_append]
  omega

theorem build_ready (h : c.Pooled) (index : Nat) (draws : Draws) : (buildRequest c index draws).Ready where
  channel := by
    obtain ⟨ch, hch, -⟩ := resolveChannel_mem h index draws
    exact ⟨ch, hch⟩
  priority := resolvePriority_some c draws
  version := rfl
  named := Nat.zero_lt_of_lt (genLoadKey_size "load" draws).1
  short := (genLoadKey_size "load" draws).2.trans (by decide)

theorem shared_size (scenario : LoadScenarioId) (now : Short 16) {key : String} (h : sharedKey scenario now = some key) :
    0 < key.utf8ByteSize ∧ key.utf8ByteSize ≤ 256 := by
  have hnow := now.property
  have hsize : ("dup-storm-" ++ now.val).utf8ByteSize = 10 + now.val.utf8ByteSize := by
    rw [String.utf8ByteSize_append]
    rfl
  cases scenario <;> cases h <;> omega

/-- Whatever the scenario. -/
theorem scenario_ready (h : c.Pooled) (scenario : LoadScenarioId) (now : Short 16) (index : Nat) (draws : Draws) :
    (buildScenarioRequest scenario c index (sharedKey scenario now) draws).Ready := by
  have hbuild := build_ready h index draws
  have hmodes : ∀ chMode priMode,
      (buildRequest { c with channelMode := chMode, priorityMode := priMode } index draws).Ready :=
    fun chMode priMode => build_ready (c := { c with channelMode := chMode, priorityMode := priMode })
      h index draws
  cases scenario with
  | burst => exact hbuild
  | staggered => exact hbuild
  | failureMix => exact { hbuild with }
  | randomChannel => exact hmodes .random c.priorityMode
  | randomPriority => exact hmodes c.channelMode .random
  | mixedChaos => exact hmodes .random .random
  | allChannels => exact hmodes .roundRobin c.priorityMode
  | retryStorm =>
    refine { hbuild with channel := ?_, priority := ?_ }
    · show ∃ ch, (if c.channelMode = .fixed then some c.fixedChannel else resolveChannel c index draws) = some ch
      split
      · exact ⟨_, rfl⟩
      · exact hbuild.channel
    · show ∃ pri, (if c.priorityMode = .fixed then some c.fixedPriority else resolvePriority c draws) = some pri
      split
      · exact ⟨_, rfl⟩
      · exact hbuild.priority
  | duplicateSeq =>
    obtain ⟨hnamed, hshort⟩ := shared_size .duplicateSeq now rfl
    exact { hbuild with named := hnamed, short := hshort }
  | duplicatePar =>
    obtain ⟨hnamed, hshort⟩ := shared_size .duplicatePar now rfl
    exact { hbuild with named := hnamed, short := hshort }

/-! What the API reads. -/

variable {req : SendNotificationReq}

theorem channel_text (ch : Channel) : toLower (trimSpace ch.text) = ch.text := by
  cases ch <;> decide

theorem priority_text (pri : Priority) : toLower (trimSpace pri.text) = pri.text := by
  cases pri <;> decide

theorem ready_valid (h : req.Ready) : ¬ req.body.OtherwiseInvalid := by
  obtain ⟨ch, hch⟩ := h.channel
  obtain ⟨pri, hpri⟩ := h.priority
  have hkey : req.idempotencyKey ≠ "" := by
    intro hempty
    exact absurd h.named (hempty ▸ Nat.lt_irrefl 0)
  have hbody : req.body.channel = .value ch.text ∧ req.body.priority = .value pri.text := by
    unfold SendNotificationReq.body
    rw [hch, hpri]
    exact ⟨rfl, rfl⟩
  rintro (habsent | ⟨habsent, -⟩ | hempty | hlong | hversion | hchannel | ⟨-, hpriority⟩)
  · exact habsent
  · exact habsent
  · exact hkey hempty
  · exact absurd h.short (Nat.not_le.mpr hlong)
  · exact hversion (.inr h.version)
  · rw [hbody.1] at hchannel
    exact hchannel ch (channel_text ch)
  · rw [hbody.2] at hpriority
    exact hpriority pri (priority_text pri)

end

end LoadTest
end GoCourier
