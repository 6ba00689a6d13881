import GoCourier.Domain.Values
import GoCourier.Lib.Fields

/- The configuration of the API server (`config.go`): what it reads of the environment,
   and the keys it ends up with. -/
namespace GoCourier

open Fields

/-- The variables of the process; one that is not set has no value. -/
abbrev Environ := String → Option String

/-- `os.Getenv`. -/
def Environ.getenv (env : Environ) (key : String) : String := (env key).getD ""

def getEnv (env : Environ) (key fallback : String) : String :=
  let v := env.getenv key
  if v ≠ "" then v else fallback

/-- `strings.Split(s, ",")`. -/
def splitCommas (s : String) : List String := (s.toList.splitOn ',').map String.ofList

def splitCSV (s : String) : List String :=
  (splitCommas s).foldl (fun out part =>
    let part := trimSpace part
    if part ≠ "" then out ++ [part] else out) []

structure Config where
  serviceName : String
  apiKeys : List String
  deriving DecidableEq, Repr

/-- `Load`. -/
def Config.load (env : Environ) : Except Err Config :=
  let serviceName := getEnv env "SERVICE_NAME" "gocourier"
  let apiKeys := splitCSV (getEnv env "API_KEYS" "dev-api-key")
  if apiKeys.length = 0 then .error ⟨"API_KEYS must contain at least one key", []⟩ else .ok { serviceName, apiKeys }

/-- `k` stands in the comma-separated list `s`: a field of it without the blanks around it, and not empty. -/
def Entry (s k : String) : Prop := k ≠ "" ∧ ∃ part, FieldOf ',' s.toList part ∧ Trimmed isSpace part k.toList

theorem trimSpace_ofList (l : List Char) : trimSpace (String.ofList l) = String.ofList (trim isSpace l) := by
  rw [trimSpace, String.toList_ofList]
  rfl

/-- The loop keeps the fields that are not blank. -/
theorem splitCSV_eq (s : String) : splitCSV s = ((splitCommas s).map trimSpace).filter (· ≠ "") := by
  have hloop : ∀ (parts out : List String), parts.foldl (fun out part =>
      let part := trimSpace part
      if part ≠ "" then out ++ [part] else out) out = out ++ (parts.map trimSpace).filter (· ≠ "") := by
    intro parts
    induction parts with
    | nil => simp
    | cons part parts ih =>
      intro out
      rw [List.foldl_cons, ih, List.map_cons]
      by_cases hblank : trimSpace part = ""
      · simp [hblank]
      · simp [hblank]
  exact hloop (splitCommas s) []

theorem mem_splitCSV {s k : String} : k ∈ splitCSV s ↔ Entry s k := by
  rw [splitCSV_eq, List.mem_filter, and_comm]
  apply and_congr
  · simp
  · simp only [splitCommas, List.map_map, List.mem_map, Function.comp_apply, mem_splitOn, trimSpace_ofList, trimmed_iff]
    apply exists_congr
    intro part
    apply and_congr_right'
    constructor
    · rintro rfl
      exact String.toList_ofList
    · intro h
      rw [← h, String.ofList_toList]

/-- The text the keys are read from. -/
theorem getEnv_eq (env : Environ) (key fallback : String) :
    (∃ v, env key = some v ∧ v ≠ "" ∧ getEnv env key fallback = v) ∨
      ((env key = none ∨ env key = some "") ∧ getEnv env key fallback = fallback) := by
  unfold getEnv Environ.getenv
  cases hv : env key with
  | none => exact .inr ⟨.inl rfl, rfl⟩
  | some v =>
    by_cases hempty : v = ""
    · subst hempty
      exact .inr ⟨.inr rfl, rfl⟩
    · exact .inl ⟨v, rfl, hempty, if_pos hempty⟩

theorem load_ok {env : Environ} {cfg : Config} (h : Config.load env = .ok cfg) :
    cfg.apiKeys = splitCSV (getEnv env "API_KEYS" "dev-api-key") := by
  unfold Config.load at h
  simp only [] at h
  split at h
  · cases h
  · cases h
    rfl

end GoCourier
