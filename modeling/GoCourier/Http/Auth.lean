import GoCourier.Http.Server

/- Who may call the API. The keys come from one comma-separated variable, through the
   splitting and trimming of `splitCSV` and the set of `newServer`; what a request presents
   comes from one of two headers. An empty key never gets into the set, so a request that
   presents nothing is refused whatever the configuration. -/
namespace GoCourier

open Fields Interleave

/-- The key a request presents: its `X-API-Key`, or else its `Authorization` but for one `Bearer ` in front. -/
def Presents (r : Request) (k : String) : Prop :=
  r.header "X-API-Key" ≠ "" ∧ k = r.header "X-API-Key" ∨
    r.header "X-API-Key" = "" ∧ (r.header "Authorization" = "Bearer " ++ k ∨
      (∀ rest, r.header "Authorization" ≠ "Bearer " ++ rest) ∧ k = r.header "Authorization")

/-- The key stands in `API_KEYS`, or is the default where that is unset or empty. -/
def Configured (env : Environ) (k : String) : Prop :=
  (∃ v, env "API_KEYS" = some v ∧ v ≠ "" ∧ Entry v k) ∨
    (env "API_KEYS" = none ∨ env "API_KEYS" = some "") ∧ k = "dev-api-key"

/-- The key `auth` looks up. -/
def authKey (r : Request) : String :=
  if r.header "X-API-Key" = "" then trimStart (r.header "Authorization") "Bearer " else r.header "X-API-Key"

/-- Behind `auth`, a handler runs on the request whatever it is. -/
def Server.Runs (s : Server) (r : Request) : Prop := ∀ next : HandlerFunc, s.auth next r = next r

/-- Behind `auth`, the request is answered 401 whatever the handler. -/
def Server.Refuses (s : Server) (r : Request) : Prop :=
  ∀ next : HandlerFunc, s.auth next r = .done (writeError 401 errUnauthorized)

/-- The server hands a POST request of this route to `next` if it presents a configured key, and answers it 401 if not. -/
def Server.Guards (s : Server) (env : Environ) (route : Route) (next : HandlerFunc) (r : Request) : Prop :=
  r.method = "POST" → r.pattern = route →
    ((∃ k, Presents r k ∧ Configured env k) → s.handler r = next r) ∧
      ((¬ ∃ k, Presents r k ∧ Configured env k) → s.handler r = .done (writeError 401 errUnauthorized))

section
variable {r : Request} {s : Server}

theorem auth_eq (next : HandlerFunc) :
    s.auth next r = if authKey r ∈ s.apiKeys then next r else .done (writeError 401 errUnauthorized) := rfl

theorem runs_iff : s.Runs r ↔ authKey r ∈ s.apiKeys := by
  constructor
  · intro hruns
    by_contra hnot
    have hempty := hruns fun _ => .done ⟨200, .empty⟩
    rw [auth_eq, if_neg hnot] at hempty
    cases hempty
  · intro hmem next
    rw [auth_eq, if_pos hmem]

theorem refuses_iff : s.Refuses r ↔ authKey r ∉ s.apiKeys := by
  constructor
  · intro hrefuses hmem
    have hempty := hrefuses fun _ => .done ⟨200, .empty⟩
    rw [auth_eq, if_pos hmem] at hempty
    cases hempty
  · intro hnot next
    rw [auth_eq, if_neg hnot]

/-- A POST request goes to its route. -/
theorem handler_post (hpost : r.method = "POST") : s.handler r = s.routes r.pattern r := by
  have hmethod : ¬ r.method = "OPTIONS" := by
    rw [hpost]
    decide
  rw [Server.handler, Server.withCORS, if_neg hmethod]

theorem handler_ingest (hpost : r.method = "POST") (hroute : r.pattern = .ingest) (hruns : s.Runs r) :
    s.handler r = s.handleIngest r := by
  rw [handler_post hpost, hroute]
  exact hruns s.handleIngest

theorem handler_replay (hpost : r.method = "POST") (hroute : r.pattern = .replay) (hruns : s.Runs r) :
    s.handler r = s.handleReplay r := by
  rw [handler_post hpost, hroute]
  exact hruns s.handleReplay

/-- A route behind `auth` is guarded where `auth` knows the configured keys. -/
theorem guards_of_auth {env : Environ} {route : Route} {next : HandlerFunc} (hroute : s.routes route = s.auth next)
    (hruns : s.Runs r ↔ ∃ k, Presents r k ∧ Configured env k)
    (hrefuses : s.Refuses r ↔ ¬ ∃ k, Presents r k ∧ Configured env k) : s.Guards env route next r := by
  intro hpost hpattern
  rw [handler_post hpost, hpattern, hroute]
  exact ⟨fun hkey => hruns.mpr hkey next, fun hno => hrefuses.mpr hno next⟩

/-- What is left of a text that begins with `start`. -/
theorem trimStart_append (start rest : String) : trimStart (start ++ rest) start = rest := by
  have hbegins : start.toList.isPrefixOf (start ++ rest).toList = true := by
    rw [String.toList_append, List.isPrefixOf_iff_prefix]
    exact List.prefix_append ..
  rw [trimStart, if_pos hbegins, String.toList_append, List.drop_left, String.ofList_toList]

theorem trimStart_of_ne {text start : String} (h : ∀ rest, text ≠ start ++ rest) : trimStart text start = text := by
  have hnot : ¬ start.toList.isPrefixOf text.toList = true := by
    intro hbegins
    obtain ⟨rest, hrest⟩ := List.isPrefixOf_iff_prefix.mp hbegins
    apply h (String.ofList rest)
    rw [← String.toList_inj, String.toList_append, String.toList_ofList]
    exact hrest.symm
  rw [trimStart, if_neg hnot]

theorem presents_iff {k : String} : Presents r k ↔ k = authKey r := by
  unfold Presents authKey
  by_cases hkey : r.header "X-API-Key" = ""
  · rw [if_pos hkey]
    by_cases hbearer : ∃ rest, r.header "Authorization" = "Bearer " ++ rest
    · obtain ⟨rest, hrest⟩ := hbearer
      rw [hrest, trimStart_append]
      constructor
      · rintro (⟨hne, -⟩ | ⟨-, hsame | ⟨hno, -⟩⟩)
        · exact absurd hkey hne
        · exact (String.append_right_inj _).mp hsame.symm
        · exact absurd rfl (hno rest)
      · rintro rfl
        exact .inr ⟨hkey, .inl rfl⟩
    · have hno : ∀ rest, r.header "Authorization" ≠ "Bearer " ++ rest := fun rest hrest => hbearer ⟨rest, hrest⟩
      rw [trimStart_of_ne hno]
      constructor
      · rintro (⟨hne, -⟩ | ⟨-, hsame | ⟨-, hsame⟩⟩)
        · exact absurd hkey hne
        · exact absurd hsame (hno k)
        · exact hsame
      · intro hsame
        exact .inr ⟨hkey, .inr ⟨hno, hsame⟩⟩
  · rw [if_neg hkey]
    constructor
    · rintro (⟨-, hsame⟩ | ⟨hempty, -⟩)
      · exact hsame
      · exact absurd hempty hkey
    · intro hsame
      exact .inl ⟨hkey, hsame⟩

end

section
variable {env : Environ} {cfg : Config} {k : String}

/-- The set of `newServer` has the keys of the list. -/
theorem mem_newServer (p : Params) (dashboard : String → Except Err DeliveryDetail) (keys : List String) (name : String) :
    k ∈ (newServer p dashboard keys name).apiKeys ↔ k ∈ keys := by
  have hloop : ∀ (keys known : List String), k ∈ keys.foldl (fun known key => known.insert key) known ↔
      k ∈ keys ∨ k ∈ known := by
    intro keys
    induction keys with
    | nil => simp
    | cons key keys ih =>
      intro known
      rw [List.foldl_cons, ih, List.mem_insert_iff, List.mem_cons, or_left_comm, or_assoc]
  have hkeys := hloop keys []
  rwa [or_iff_left List.not_mem_nil] at hkeys

theorem configured_iff (hload : Config.load env = .ok cfg) : k ∈ cfg.apiKeys ↔ Configured env k := by
  rw [load_ok hload, mem_splitCSV]
  unfold Configured
  rcases getEnv_eq env "API_KEYS" "dev-api-key" with ⟨v, hv, hne, hget⟩ | ⟨hunset, hget⟩
  · rw [hget, hv]
    simp [hne]
  · have hdefault : Entry "dev-api-key" k ↔ k = "dev-api-key" := by
      have hkeys : splitCSV "dev-api-key" = ["dev-api-key"] := by decide
      rw [← mem_splitCSV, hkeys, List.mem_singleton]
    rw [hget, hdefault]
    rcases hunset with hnone | hnone
    · simp [hnone]
    · simp [hnone]

theorem not_configured_empty : ¬ Configured env "" := by
  rintro (⟨v, -, -, hne, -⟩ | ⟨-, hdefault⟩)
  · exact hne rfl
  · revert hdefault
    decide

end

/-- The ingest and replay handlers stand behind `auth`; there a request runs them exactly when it presents one of the
    configured keys, and is refused otherwise, as it always is when what it presents is empty. So the server itself
    hands a request to them in the one case and answers 401 in the other. -/
theorem auth_fails_closed (p : Params) (dashboard : String → Except Err DeliveryDetail) (env : Environ) (cfg : Config)
    (hload : Config.load env = .ok cfg) (s : Server) (hs : s = newServer p dashboard cfg.apiKeys cfg.serviceName)
    (r : Request) :
    s.routes .ingest = s.auth s.handleIngest ∧ s.routes .replay = s.auth s.handleReplay ∧
      (s.Runs r ↔ ∃ k, Presents r k ∧ Configured env k) ∧ (s.Refuses r ↔ ¬ ∃ k, Presents r k ∧ Configured env k) ∧
      (Presents r "" → s.Refuses r) ∧
      s.Guards env .ingest s.handleIngest r ∧ s.Guards env .replay s.handleReplay r := by
  have hkeys : authKey r ∈ s.apiKeys ↔ Configured env (authKey r) := by
    rw [hs, mem_newServer, configured_iff hload]
  have hpresented : (∃ k, Presents r k ∧ Configured env k) ↔ Configured env (authKey r) := by
    simp only [presents_iff, exists_eq_left]
  have hruns : s.Runs r ↔ ∃ k, Presents r k ∧ Configured env k := by rw [runs_iff, hkeys, hpresented]
  have hrefuses : s.Refuses r ↔ ¬ ∃ k, Presents r k ∧ Configured env k := by rw [refuses_iff, hkeys, hpresented]
  refine ⟨rfl, rfl, hruns, hrefuses, fun hempty => ?_, guards_of_auth rfl hruns hrefuses,
    guards_of_auth rfl hruns hrefuses⟩
  rw [refuses_iff, hkeys, ← presents_iff.mp hempty]
  exact not_configured_empty

/-- Two keys among blanks and stray commas. -/
def twoKeys : Environ := fun key => if key = "API_KEYS" then some " k1 , ,k2," else none

/-- A request with an `Authorization` header and nothing else. -/
def authorizedBy (authorization : String) : Request where
  pattern := .ingest
  header name := if name = "Authorization" then authorization else ""

/-- The handler runs for the second key, and does not for an empty one. -/
theorem auth_fails_closed_sample :
    ∃ cfg, Config.load twoKeys = .ok cfg ∧
      let s := newServer {} (fun _ => .error errNotFound) cfg.apiKeys cfg.serviceName
      s.handler (authorizedBy "Bearer k2") = s.handleIngest (authorizedBy "Bearer k2") ∧
        s.handler (authorizedBy "Bearer ") = .done (writeError 401 errUnauthorized) := by
  have hload : Config.load twoKeys = .ok ⟨"gocourier", ["k1", "k2"]⟩ := by decide
  have hkey : ∃ k, Presents (authorizedBy "Bearer k2") k ∧ Configured twoKeys k :=
    ⟨"k2", .inr ⟨rfl, .inl rfl⟩, (configured_iff hload).mp (by decide)⟩
  refine ⟨_, hload, ?_, ?_⟩
  · obtain ⟨-, -, -, -, -, hguards, -⟩ := auth_fails_closed {} (fun _ => .error errNotFound) twoKeys _ hload _ rfl
      (authorizedBy "Bearer k2")
    exact (hguards rfl rfl).1 hkey
  · obtain ⟨-, -, -, hrefuses, hempty, hguards, -⟩ := auth_fails_closed {} (fun _ => .error errNotFound) twoKeys _ hload
      _ rfl (authorizedBy "Bearer ")
    exact (hguards rfl rfl).2 (hrefuses.mp (hempty (.inr ⟨rfl, .inl rfl⟩)))

end GoCourier
