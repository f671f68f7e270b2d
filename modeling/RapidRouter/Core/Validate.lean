import RapidRouter.Core.Document

/-!
# Validation of the whole document

`router-core/src/config/validate.rs`: every section is checked, every problem
is reported under its path, and a document loads when there is none. What one
entry leaves is a `Checked` value; the sections gather those of their entries,
and the few that must not repeat a name pass on the names so far
(`checkSeen`).

The routing sections are those of `RawRouting`. From `validate_ok` on stands
what a document that loads has in it.
-/

namespace RapidRouter.Core.Document

open Text

/-- The path of an entry of a list. -/
def indexed (path : String) (i : Nat) : String := path ++ "[" ++ toString i ++ "]"

/-- What the entries of a list leave together. -/
def gather {β : Type} (checked : List (Checked β)) : List ConfigError × List β :=
  (checked.flatMap Prod.fst, checked.filterMap Prod.snd)

/-- An entry that loads when nothing is wrong with it. -/
def whenClean {β : Type} (errors : List ConfigError) (x : β) : Checked β :=
  (errors, if errors = [] then some x else none)

/-- The entries of a list checked in order, each against the names of those
before it. -/
def checkSeen {α β : Type} (named : α → Option String)
    (check : Nat → List String → α → Checked β) : Nat → List String → List α → List (Checked β)
  | _, _, [] => []
  | i, seen, x :: rest =>
    check i seen x :: checkSeen named check (i + 1) ((named x).toList ++ seen) rest

/-! ## Services -/

/-- The name a service is declared by. -/
def serviceName (name : String) : Option String := if trim name = "" then none else some name

def validateTenant (i : Nat) (seen : List String) (name : String) : Checked String :=
  if trim name = "" then ([⟨indexed "tenants" i, "a service name must not be empty"⟩], none)
  else if name ∈ seen then ([⟨indexed "tenants" i, "duplicate service `" ++ name ++ "`"⟩], none)
  else ([], some name)

/-- `validate_tenants`. -/
def validateTenants (raw : RawConfig) : List ConfigError × List String :=
  gather (checkSeen serviceName validateTenant 0 [] raw.tenants)

/-- A service named on an account or on a key must be declared. -/
def checkTenant (tenants : List String) (path : String) : Option String → List ConfigError
  | none => []
  | some tenant =>
    if tenant ∈ tenants then []
    else [⟨path ++ ".tenant", "no service named `" ++ tenant
      ++ "` is declared (add it to the top-level `tenants` list)"⟩]

/-- `validate_account_tenants`. -/
def validateAccountTenants (raw : RawConfig) (tenants : List String) : List ConfigError :=
  raw.providers.entries.flatMap fun e =>
    e.2.keys.zipIdx.flatMap fun k =>
      checkTenant tenants (indexed ("providers." ++ e.1 ++ ".keys") k.2) k.1.tenant

/-! ## The server -/

def validateAuthKey (src : Sources) (tenants : List String) (i : Nat) (entry : RawAuthKey) :
    Checked StaticKey :=
  let path := indexed "server.auth_keys" i
  let tenant := checkTenant tenants path entry.tenant
  match resolveSecret src entry.value with
  | .ok secret => (tenant, some ⟨secret, entry.tenant⟩)
  | .error msg => (tenant ++ [⟨path, msg⟩], none)

/-- `validate_server`. -/
def validateServer (src : Sources) (raw : RawConfig) (tenants : List String) :
    List ConfigError × ServerConfig :=
  let s := raw.server
  let size :=
    if s.maxBodySizeMb = 0 ∨ 1024 < s.maxBodySizeMb then
      [⟨"server.max_body_size_mb", "must be between 1 and 1024"⟩]
    else []
  let keys := gather (s.authKeys.zipIdx.map fun e => validateAuthKey src tenants e.2 e.1)
  (size ++ keys.1,
    { host := s.host
      port := s.port
      maxBodySize := s.maxBodySizeMb * 1024 * 1024
      authKeys := keys.2
      requireAuth := s.requireAuth
      drainTimeoutSecs := s.drainTimeoutSecs })

/-! ## Providers -/

/-- A float that is finite and above 0. -/
def positive : Option Rat → Option { q : Rat // 0 < q }
  | none => none
  | some q => if h : 0 < q then some ⟨q, h⟩ else none

/-- The adapter of a provider: that of a well-known name, or an explicit
type. -/
def providerKind (name path : String) (known : Option Preset) (type_ : Option String) :
    Except ConfigError (ProviderKind × List ConfigError) :=
  match known, type_ with
  | some p, none => .ok (p.kind, [])
  | none, some "openai_compat" => .ok (.openAiCompat, [])
  | _, some "claude_subscription" => .ok (.claudeSubscription, [])
  | _, some "codex_subscription" => .ok (.codexSubscription, [])
  | none, some other =>
    .error ⟨path ++ ".type", "unknown provider type `" ++ other ++ "` (expected `openai_compat`, "
      ++ "`claude_subscription`, or `codex_subscription`)"⟩
  | none, none =>
    .error ⟨path, "`" ++ name ++ "` is not a well-known provider; set `type = \"openai_compat\"` "
      ++ "and a `base_url`"⟩
  | some p, some t =>
    .ok (p.kind,
      if p.kind = .openAiCompat ∧ t = "openai_compat" then []
      else [⟨path ++ ".type", "`" ++ name ++ "` is well-known; `type` must be omitted"⟩])

def checkBaseUrl (kind : ProviderKind) (path : String) : Option String → List ConfigError
  | none =>
    if kind = .openAiCompat then
      [⟨path ++ ".base_url", "required for openai_compat providers"⟩]
    else []
  | some url =>
    if startsWith "http://" url || startsWith "https://" url then []
    else [⟨path ++ ".base_url", "must start with http:// or https://"⟩]

/-- Without an `auth` of its own a local server with no keys has none. -/
def authMode (path : String) (keyless noKeys : Bool) : Option String → List ConfigError × AuthMode
  | none => ([], if keyless && noKeys then .none else .key)
  | some "none" => ([], .none)
  | some "bearer" | some "key" => ([], .key)
  | some other =>
    ([⟨path ++ ".auth", "unknown auth mode `" ++ other ++ "` (expected `bearer` or `none`)"⟩], .key)

/-- A ceiling of 0 is a mistake for no ceiling. -/
def checkLimits (path subject : String) (limits : KeyLimits) : List ConfigError :=
  [("rpm", limits.rpm), ("tpm", limits.tpm), ("max_concurrency", limits.maxConcurrency)].filterMap
    fun field =>
      if field.2 = some 0 then
        some ⟨path ++ "." ++ field.1,
          "must be > 0 — omit the field to leave " ++ subject ++ " unlimited"⟩
      else none

def keyName (rk : RawKey) : Option String := if rk.name = "" then none else some rk.name

def checkKeyName (kpath : String) (seen : List String) (rk : RawKey) : List ConfigError :=
  if rk.name = "" then [⟨kpath ++ ".name", "must not be empty"⟩]
  else if rk.name ∈ seen then [⟨kpath ++ ".name", "duplicate key name `" ++ rk.name ++ "`"⟩]
  else []

def checkWeight (kpath : String) (weight : Option Rat) : Checked { q : Rat // 0 < q } :=
  match positive weight with
  | some w => ([], some w)
  | none => ([⟨kpath ++ ".weight", "must be > 0"⟩], none)

/-- One key of `validate_provider`. -/
def validateKey (src : Sources) (defaults : Option KeyLimits) (path : String) (i : Nat)
    (seen : List String) (rk : RawKey) : Checked ApiKey :=
  let kpath := indexed (path ++ ".keys") i
  let weight := checkWeight kpath rk.weight
  let errors := checkKeyName kpath seen rk ++ weight.1 ++ checkLimits kpath "this key" rk.limits
  match resolveSecret src rk.value with
  | .error msg => (errors ++ [⟨kpath ++ ".value", msg⟩], none)
  | .ok secret =>
    (errors, weight.2.map fun w =>
      { name := rk.name
        secret := secret
        weight := w.1
        weight_pos := w.2
        models := rk.models
        tenant := rk.tenant
        limits :=
          { rpm := rk.limits.rpm.or (defaults.bind (·.rpm))
            tpm := rk.limits.tpm.or (defaults.bind (·.tpm))
            maxConcurrency := rk.limits.maxConcurrency.or (defaults.bind (·.maxConcurrency)) }
        sourcePath := (stripPrefix "file:" rk.value).filter (· ≠ "") })

def required (path message : String) : Option String → Checked String
  | some value => ([], some value)
  | none => ([⟨path, message⟩], none)

/-- `validate_azure`. -/
def validateAzure (kind : ProviderKind) (rp : RawProvider) (path : String) : Checked AzureSettings :=
  if kind ≠ .azure then ([], none)
  else
    let endpoint : Checked String :=
      match rp.endpoint with
      | some e =>
        if startsWith "https://" e || startsWith "http://" e then ([], some e)
        else ([⟨path ++ ".endpoint", "must start with http:// or https://"⟩], none)
      | none => ([⟨path ++ ".endpoint", "required for azure"⟩], none)
    let apiVersion := required (path ++ ".api_version") "required for azure" rp.apiVersion
    (endpoint.1 ++ apiVersion.1, do return ⟨← endpoint.2, ← apiVersion.2, rp.deployments⟩)

/-- `validate_bedrock`. -/
def validateBedrock (src : Sources) (kind : ProviderKind) (rp : RawProvider) (path : String) :
    Checked BedrockSettings :=
  if kind ≠ .bedrock then ([], none)
  else
    let region := required (path ++ ".region") "required for bedrock" (rp.region.filter (· ≠ ""))
    let accessKeyId : Checked String :=
      match rp.accessKeyId with
      | some reference =>
        match resolveSecret src reference with
        | .ok secret => ([], some secret)
        | .error msg => ([⟨path ++ ".access_key_id", msg⟩], none)
      | none =>
        ([⟨path ++ ".access_key_id",
          "required for bedrock (the key's `value` is the secret access key)"⟩], none)
    (region.1 ++ accessKeyId.1, do return ⟨← region.2, ← accessKeyId.2⟩)

/-- `validate_vertex`. -/
def validateVertex (kind : ProviderKind) (rp : RawProvider) (path : String) :
    Checked VertexSettings :=
  if kind ≠ .vertex then ([], none)
  else
    let project := required (path ++ ".project") "required for vertex" (rp.project.filter (· ≠ ""))
    (project.1, project.2.map fun p => ⟨p, rp.location.getD "us-central1"⟩)

/-- A list of strings as `{:?}` writes it. -/
def debugList (values : List String) : String :=
  "[" ++ String.intercalate ", " (values.map fun v => "\"" ++ v ++ "\"") ++ "]"

/-- An enum knob of `validate_codex`: `""` takes the backend's own default. -/
def codexChoice (path field : String) (allowed : List String) (unset : Option String) :
    Option String → List ConfigError × Option String
  | none => ([], unset)
  | some value =>
    if value = "" then ([], none)
    else if value ∈ allowed then ([], some value)
    else
      ([⟨path ++ ".codex." ++ field, "must be one of " ++ debugList allowed
        ++ ", or \"\" for the provider default"⟩], unset)

def efforts : List String := ["none", "minimal", "low", "medium", "high", "xhigh", "max"]

def verbosities : List String := ["low", "medium", "high"]

/-- `validate_codex`. -/
def validateCodex (kind : ProviderKind) (rp : RawProvider) (path : String) :
    Checked CodexSettings :=
  if kind ≠ .codexSubscription then
    (if rp.codex.isSome then
        [⟨path ++ ".codex", "only valid for `type = \"codex_subscription\"` providers"⟩]
      else [],
      none)
  else
    let raw := rp.codex.getD {}
    let settings : CodexSettings := {}
    let version : List ConfigError × String :=
      match raw.version with
      | none => ([], settings.version)
      | some version =>
        if version = "" then
          ([⟨path ++ ".codex.version",
            "must not be empty — the backend gates models on this value"⟩], settings.version)
        else ([], version)
    let effort :=
      codexChoice path "reasoning_effort" efforts settings.reasoningEffort raw.reasoningEffort
    let verbosity := codexChoice path "verbosity" verbosities settings.verbosity raw.verbosity
    let dpi : List ConfigError × Nat :=
      match raw.pdfDpi with
      | none => ([], settings.pdfDpi)
      | some dpi =>
        if 36 ≤ dpi ∧ dpi ≤ 600 then ([], dpi)
        else ([⟨path ++ ".codex.pdf_dpi", "must be between 36 and 600"⟩], settings.pdfDpi)
    let pages : List ConfigError × Nat :=
      match raw.pdfMaxPages with
      | none => ([], settings.pdfMaxPages)
      | some pages =>
        if pages = 0 then
          ([⟨path ++ ".codex.pdf_max_pages", "must be at least 1"⟩], settings.pdfMaxPages)
        else ([], pages)
    (version.1 ++ effort.1 ++ verbosity.1 ++ dpi.1 ++ pages.1,
      some ⟨version.2, effort.2, verbosity.2, dpi.2, pages.2⟩)

/-- The fields of one kind of provider, on a provider of another kind. -/
def checkOnlyFor (path label : String) (allowed : Bool) (fields : List (String × Bool)) :
    List ConfigError :=
  fields.filterMap fun field =>
    if field.2 && !allowed then
      some ⟨path ++ "." ++ field.1, "only valid for the " ++ label ++ " provider"⟩
    else none

/-- Where requests go: the endpoint of the deployment, the URL that was set,
or the one the provider is known by. -/
def effectiveUrl (kind : ProviderKind) (baseUrl : Option String) (azure : Option AzureSettings)
    (bedrock : Option BedrockSettings) (vertex : Option VertexSettings) : Option String :=
  match kind, azure, bedrock, vertex with
  | .azure, some a, _, _ => some a.endpoint
  | .bedrock, _, some b, _ =>
    baseUrl.or (some ("https://bedrock-runtime." ++ b.region ++ ".amazonaws.com"))
  | .vertex, _, _, some v =>
    baseUrl.or (some (if v.location = "global" then "https://aiplatform.googleapis.com"
      else "https://" ++ v.location ++ "-aiplatform.googleapis.com"))
  | .claudeSubscription, _, _, _ => baseUrl.or (some "https://api.anthropic.com")
  | .codexSubscription, _, _, _ => baseUrl.or (some "https://chatgpt.com")
  | _, _, _, _ => baseUrl

/-- `validate_provider`. -/
def validateProvider (src : Sources) (name : String) (rp : RawProvider) :
    Checked (String × Provider) :=
  let path := "providers." ++ name
  let known := preset name
  match providerKind name path known rp.type_ with
  | .error err => ([err], none)
  | .ok (kind, typeErrors) =>
    let baseUrl := rp.baseUrl.or (known.bind (·.baseUrl))
    let auth := authMode path (known.any (·.keylessOk)) rp.keys.isEmpty rp.auth
    let noKeys : List ConfigError :=
      if auth.2 = .key ∧ rp.keys = [] then
        [⟨path ++ ".keys",
          "at least one key is required (or set `auth = \"none\"` for keyless servers)"⟩]
      else []
    let limits := (rp.keyLimits.map (checkLimits (path ++ ".key_limits") "keys")).getD []
    let keys := gather (checkSeen keyName (validateKey src rp.keyLimits path) 0 [] rp.keys)
    let maxConcurrency : List ConfigError :=
      if rp.maxConcurrency = 0 then [⟨path ++ ".max_concurrency", "must be > 0"⟩] else []
    let timeout : List ConfigError :=
      if rp.timeoutSecs = 0 then [⟨path ++ ".timeout_secs", "must be > 0"⟩] else []
    let azure := validateAzure kind rp path
    let azureOnly := checkOnlyFor path "azure" (kind = .azure)
      [("endpoint", rp.endpoint.isSome), ("api_version", rp.apiVersion.isSome),
        ("deployments", !rp.deployments.entries.isEmpty)]
    let bedrock := validateBedrock src kind rp path
    let vertex := validateVertex kind rp path
    let vertexOnly := checkOnlyFor path "vertex" (kind = .vertex)
      [("project", rp.project.isSome), ("location", rp.location.isSome)]
    let bedrockOnly := checkOnlyFor path "bedrock" (kind = .bedrock)
      [("region", rp.region.isSome), ("access_key_id", rp.accessKeyId.isSome)]
    let codex := validateCodex kind rp path
    let errors := typeErrors ++ checkBaseUrl kind path baseUrl ++ auth.1 ++ noKeys ++ limits
      ++ keys.1 ++ maxConcurrency ++ timeout ++ azure.1 ++ azureOnly ++ bedrock.1 ++ vertex.1
      ++ vertexOnly ++ bedrockOnly ++ codex.1
    whenClean errors (name,
      { kind := kind
        baseUrl := effectiveUrl kind baseUrl azure.2 bedrock.2 vertex.2
        auth := auth.2
        keys := keys.2
        maxConcurrency := rp.maxConcurrency
        timeoutSecs := rp.timeoutSecs
        azure := azure.2
        bedrock := bedrock.2
        vertex := vertex.2
        codex := codex.2 })

/-- `validate_providers`. -/
def validateProviders (src : Sources) (raw : RawConfig) :
    List ConfigError × OrdMap String Provider :=
  collect (raw.providers.entries.map fun e => validateProvider src e.1 e.2)

/-! ## Virtual keys -/

section VirtualKeys

variable (providers : OrdMap String Provider) (aliases : OrdMap String TargetModel)
  (groups : OrdMap String RoutingGroup)

/-- One entry of a key's allowlist. -/
def checkScope (path scope : String) : List ConfigError :=
  if scope = "" then [⟨path, "must not be empty"⟩]
  else
    match splitOnce '/' scope with
    | some (provider, _) =>
      if (providers.get? provider).isSome then []
      else [⟨path, "unknown provider `" ++ provider ++ "`"⟩]
    | none =>
      if (aliases.get? scope).isSome || (groups.get? scope).isSome then []
      else [⟨path, "`" ++ scope ++ "` is not a configured routing group or alias "
        ++ "(use `provider/model` to scope to a model)"⟩]

def parsePeriod : String → Option BudgetPeriod
  | "daily" => some .daily
  | "weekly" => some .weekly
  | "monthly" => some .monthly
  | _ => none

def validateBudget (path : String) : Option RawBudget → Checked Budget
  | none => ([], none)
  | some b =>
    match parsePeriod b.period with
    | none =>
      ([⟨path ++ ".budget.period",
        "unknown period `" ++ b.period ++ "` (expected daily, weekly, or monthly)"⟩], none)
    | some period =>
      match positive b.usd with
      | none => ([⟨path ++ ".budget.usd", "must be a positive number"⟩], none)
      | some usd => ([], some ⟨usd.1, period⟩)

def checkRate (path : String) : Option RateLimit → List ConfigError
  | none => []
  | some r =>
    (if r.rpm = some 0 then [⟨path ++ ".rate_limit.rpm", "must be > 0"⟩] else [])
      ++ (if r.tpm = some 0 then [⟨path ++ ".rate_limit.tpm", "must be > 0"⟩] else [])
      ++ (if r.rpm.isNone && r.tpm.isNone then
          [⟨path ++ ".rate_limit", "must set rpm and/or tpm"⟩]
        else [])

def validateExpires (path : String) : Option String → Checked Nat
  | none => ([], none)
  | some s =>
    match parseRfc3339UtcMs s with
    | some ms => ([], some ms)
    | none => ([⟨path ++ ".expires", "must be RFC 3339 UTC, e.g. `2027-01-01T00:00:00Z`"⟩], none)

def keyId (rk : RawVirtualKey) : Option String := if isHex 6 rk.id then some rk.id else none

def checkKeyId (path : String) (seen : List String) (rk : RawVirtualKey) : List ConfigError :=
  if !isHex 6 rk.id then
    [⟨path ++ ".id", "must be 6 hex characters (the id segment of `ck-<id>-…`)"⟩]
  else if rk.id ∈ seen then [⟨path ++ ".id", "duplicate key id `" ++ rk.id ++ "`"⟩]
  else []

/-- One key of `validate_virtual_keys`. -/
def validateVirtualKey (tenants : List String) (i : Nat) (seen : List String)
    (rk : RawVirtualKey) : Checked VirtualKeyDef :=
  let path := indexed "virtual_keys" i
  let name : List ConfigError :=
    if rk.name = "" then [⟨path ++ ".name", "must not be empty"⟩] else []
  let secretHash : List ConfigError :=
    if isHex 64 ((stripPrefix "blake3:" rk.secretHash).getD "") then []
    else [⟨path ++ ".secret_hash", "must be `blake3:` followed by 64 hex characters "
      ++ "(create one with `rapid-router key hash`)"⟩]
  let models := rk.models.zipIdx.flatMap fun e =>
    checkScope providers aliases groups (indexed (path ++ ".models") e.2) e.1
  let budget := validateBudget path rk.budget
  let expires := validateExpires path rk.expires
  let errors := name ++ checkKeyId path seen rk ++ secretHash ++ models ++ checkTenant tenants path rk.tenant
    ++ budget.1 ++ checkRate path rk.rateLimit ++ expires.1
  whenClean errors
    { id := rk.id
      name := rk.name
      secretHash := rk.secretHash
      prevSecret := none
      models := rk.models
      tenant := rk.tenant
      budget := budget.2
      rate := rk.rateLimit
      expiresMs := expires.2
      tags := rk.tags
      enabled := rk.enabled
      createdMs := 0 }

/-- `validate_virtual_keys`. -/
def validateVirtualKeys (raw : RawConfig) (tenants : List String) :
    List ConfigError × List VirtualKeyDef :=
  gather (checkSeen keyId (validateVirtualKey providers aliases groups tenants) 0 []
    raw.virtualKeys)

end VirtualKeys

/-! ## The other sections -/

/-- `validate_store`. -/
def validateStore (s : StoreConfig) : List ConfigError :=
  let backend : List ConfigError :=
    match s.backend with
    | "file" | "memory" => []
    | "s3" =>
      if s.bucket.getD "" = "" then
        [⟨"store.bucket", "required when `store.backend` is `s3`"⟩]
      else []
    | "dynamodb" =>
      if s.table.getD "" = "" then
        [⟨"store.table", "required when `store.backend` is `dynamodb`"⟩]
      else []
    | other =>
      [⟨"store.backend",
        "unknown backend `" ++ other ++ "` — expected `file`, `s3`, or `dynamodb`"⟩]
  -- A node must not age out between two of its own heartbeats.
  let window : List ConfigError :=
    if s.livenessWindowSecs ≤ s.heartbeatIntervalSecs then
      [⟨"store.liveness_window_secs", "must be greater than store.heartbeat_interval_secs ("
        ++ toString s.heartbeatIntervalSecs
        ++ "s), or nodes age out between their own heartbeats"⟩]
    else []
  let intervals : List ConfigError :=
    if s.refreshIntervalSecs = 0 ∨ s.heartbeatIntervalSecs = 0 then
      [⟨"store.refresh_interval_secs", "intervals must be at least 1 second"⟩]
    else []
  backend ++ window ++ intervals

/-- A number outside its range. -/
def checkRange (path message : String) (low high n : Nat) : List ConfigError :=
  if low ≤ n ∧ n ≤ high then [] else [⟨path, message⟩]

/-- `validate_usage`. -/
def validateUsage (u : RawUsage) : List ConfigError × UsageConfig :=
  let capture : List ConfigError × BodyCapture :=
    match BodyCapture.parse u.captureBodies with
    | some capture => ([], capture)
    | none => ([⟨"usage.capture_bodies", "must be `off`, `errors` or `all`"⟩], .off)
  (checkRange "usage.retention_days" "must be between 1 and 3650" 1 3650 u.retentionDays
      ++ checkRange "usage.flush_interval_secs" "must be between 1 and 300" 1 300
        u.flushIntervalSecs
      ++ capture.1
      ++ checkRange "usage.body_limit_bytes" "must be 4 MiB or less per body" 0 (4 * 1048576)
        u.bodyLimitBytes
      ++ checkRange "usage.body_retention_days" "must be between 1 and 3650" 1 3650
        u.bodyRetentionDays,
    { retentionDays := u.retentionDays
      flushIntervalSecs := u.flushIntervalSecs
      perKeyMetrics := u.perKeyMetrics
      captureBodies := capture.2
      bodyLimitBytes := u.bodyLimitBytes
      bodyRetentionDays := u.bodyRetentionDays })

/-- One price of `validate_pricing`. -/
def validatePrice (model : String) (p : RawPrice) : Checked (String × Price) :=
  match p.inputPerMtok.filter (0 ≤ ·), p.outputPerMtok.filter (0 ≤ ·) with
  | some input, some output => ([], some (model, ⟨input, output⟩))
  | _, _ =>
    ([⟨"pricing." ++ model, "prices must be non-negative numbers (USD per million tokens)"⟩], none)

/-- `validate_pricing`. -/
def validatePricing (raw : RawConfig) : List ConfigError × OrdMap String Price :=
  collect (raw.pricing.entries.map fun e => validatePrice e.1 e.2)

/-- `validate_reliability`. -/
def validateReliability (raw : RawConfig) (routing : RawRouting) : List ConfigError × Reliability :=
  let breaker : List ConfigError :=
    if raw.reliability.breaker.failureThreshold = 0 then
      [⟨"reliability.breaker.failure_threshold", "must be > 0"⟩]
    else []
  let retries := routing.validateRetries
  (breaker ++ retries.1, ⟨raw.reliability.breaker, retries.2⟩)

/-- `validate`. -/
def validate (src : Sources) (raw : RawConfig) : Except (List ConfigError) Config :=
  let tenants := validateTenants raw
  let server := validateServer src raw tenants.2
  let providers := validateProviders src raw
  let routing := raw.routing providers.2
  let aliases := routing.validateAliases
  let fallbacks := routing.validateFallbacks aliases.2
  let groups := routing.validateGroups aliases.2
  let reliability := validateReliability raw routing
  let accounts := validateAccountTenants raw tenants.2
  let virtualKeys := validateVirtualKeys providers.2 aliases.2 groups.2 raw tenants.2
  let console := validateConsole src raw.access
  let store := validateStore raw.store
  let usage := validateUsage raw.usage
  let pricing := validatePricing raw
  let errors := tenants.1 ++ server.1 ++ providers.1 ++ aliases.1 ++ fallbacks.1 ++ groups.1
    ++ reliability.1 ++ accounts ++ virtualKeys.1 ++ console.2 ++ store ++ usage.1 ++ pricing.1
  if errors = [] then
    .ok
      { server := server.2
        providers := providers.2
        aliases := aliases.2
        fallbacks := fallbacks.2
        groups := groups.2
        reliability := reliability.2
        tenants := tenants.2
        virtualKeys := virtualKeys.2
        console := console.1
        store := raw.store
        usage := usage.2
        pricing := pricing.2 }
  else .error errors

/-! ## What a document that loads has in it -/

/-- No error in a list of entries is none in each. -/
theorem gather_errors {β : Type} {checked : List (Checked β)} (h : (gather checked).1 = []) :
    ∀ x ∈ checked, x.1 = [] :=
  List.flatMap_eq_nil_iff.mp h

theorem whenClean_ok {β : Type} {errors : List ConfigError} {x : β}
    (h : (whenClean errors x).1 = []) : (whenClean errors x).2 = some x := if_pos h

theorem whenClean_some {β : Type} {errors : List ConfigError} {x y : β}
    (h : (whenClean errors x).2 = some y) : y = x := by
  unfold whenClean at h
  dsimp only at h
  split at h
  · cases h
    rfl
  · cases h

/-- An entry that passes leaves a value, and is remembered by a name no entry
before it had. -/
structure Passes {α β : Type} (named : α → Option String)
    (check : Nat → List String → α → Checked β) (R : α → β → Prop) : Prop where
  value : ∀ {i seen x}, (check i seen x).1 = [] → ∃ y, (check i seen x).2 = some y ∧ R x y
  fresh : ∀ {i seen x}, (check i seen x).1 = [] → ∃ name, named x = some name ∧ name ∉ seen

theorem Passes.all {α β : Type} {named : α → Option String}
    {check : Nat → List String → α → Checked β} {R : α → β → Prop} (hpasses : Passes named check R)
    {i : Nat} {seen : List String} {xs : List α}
    (h : ∀ e ∈ checkSeen named check i seen xs, e.1 = []) :
    List.Forall₂ R xs ((checkSeen named check i seen xs).filterMap Prod.snd) ∧
      (xs.map named).Nodup ∧ ∀ x ∈ xs, ∃ name, named x = some name ∧ name ∉ seen := by
  induction xs generalizing i seen with
  | nil => exact ⟨.nil, List.nodup_nil, fun _ hx => absurd hx List.not_mem_nil⟩
  | cons x rest ih =>
    have hone : (check i seen x).1 = [] := h _ List.mem_cons_self
    obtain ⟨y, hy, hxy⟩ := hpasses.value hone
    obtain ⟨name, hname, hfresh⟩ := hpasses.fresh hone
    obtain ⟨hrest, hnodup, hnames⟩ := ih fun e he => h e (List.mem_cons_of_mem _ he)
    refine ⟨?_, ?_, ?_⟩
    · show List.Forall₂ R (x :: rest) ((check i seen x :: checkSeen ..).filterMap Prod.snd)
      rw [List.filterMap_cons_some hy]
      exact .cons hxy hrest
    · rw [List.map_cons, List.nodup_cons]
      refine ⟨fun hmem => ?_, hnodup⟩
      obtain ⟨x', hx', hsame⟩ := List.mem_map.mp hmem
      obtain ⟨name', hname', hfresh'⟩ := hnames x' hx'
      rw [hsame, hname, Option.some.injEq] at hname'
      refine hfresh' (List.mem_append_left _ ?_)
      rw [hname, hname']
      exact List.mem_singleton_self _
    · intro z hz
      rcases List.mem_cons.mp hz with rfl | hz
      · exact ⟨name, hname, hfresh⟩
      · obtain ⟨name', hname', hfresh'⟩ := hnames z hz
        exact ⟨name', hname', fun hmem => hfresh' (List.mem_append_right _ hmem)⟩

theorem passes_tenant : Passes serviceName validateTenant (fun name loaded => loaded = name) where
  value := by
    intro i seen name h
    unfold validateTenant at h ⊢
    split at h
    · cases h
    · next hblank =>
      split at h
      · cases h
      · next hseen => exact ⟨name, by rw [if_neg hblank, if_neg hseen], rfl⟩
  fresh := by
    intro i seen name h
    unfold validateTenant at h
    split at h
    · cases h
    · next hblank =>
      split at h
      · cases h
      · next hseen => exact ⟨name, if_neg hblank, hseen⟩

/-- The declared services load as they are written, each once. -/
theorem validateTenants_ok {raw : RawConfig} (h : (validateTenants raw).1 = []) :
    (validateTenants raw).2 = raw.tenants ∧ raw.tenants.Nodup := by
  obtain ⟨hall, hnodup, _⟩ := passes_tenant.all (gather_errors h)
  have hsame : raw.tenants = (validateTenants raw).2 :=
    List.forall₂_eq_eq_eq ▸ hall.imp fun _ _ heq => heq.symm
  exact ⟨hsame.symm, hnodup.of_map⟩

theorem checkTenant_ok {tenants : List String} {path t : String}
    (h : checkTenant tenants path (some t) = []) : t ∈ tenants := by
  unfold checkTenant at h
  dsimp only at h
  split at h
  · assumption
  · cases h

theorem validateAccountTenants_ok {raw : RawConfig} {tenants : List String}
    (h : validateAccountTenants raw tenants = []) {name : String} {rp : RawProvider}
    (hname : raw.providers.get? name = some rp) {rk : RawKey} (hrk : rk ∈ rp.keys) {t : String}
    (ht : rk.tenant = some t) : t ∈ tenants := by
  have hprovider := List.flatMap_eq_nil_iff.mp h _ (OrdMap.mem_entries.mpr hname)
  obtain ⟨e, he, rfl⟩ := List.mem_map.mp ((List.zipIdx_map_fst 0 rp.keys).symm ▸ hrk)
  have hkey := List.flatMap_eq_nil_iff.mp hprovider e he
  rw [ht] at hkey
  exact checkTenant_ok hkey

/-- A gateway key as it loads. -/
def AuthKeyLoaded (tenants : List String) (entry : RawAuthKey) (k : StaticKey) : Prop :=
  k.tenant = entry.tenant ∧ ∀ t, entry.tenant = some t → t ∈ tenants

theorem validateAuthKey_ok {src : Sources} {tenants : List String} {i : Nat} {entry : RawAuthKey}
    (h : (validateAuthKey src tenants i entry).1 = []) :
    ∃ k, (validateAuthKey src tenants i entry).2 = some k ∧ AuthKeyLoaded tenants entry k := by
  unfold validateAuthKey at h ⊢
  dsimp only at h ⊢
  split at h
  · refine ⟨_, rfl, rfl, fun t ht => ?_⟩
    rw [ht] at h
    exact checkTenant_ok h
  · exact absurd (List.append_eq_nil_iff.mp h).2 (List.cons_ne_nil _ _)

/-- Entries checked each for itself. -/
theorem forall₂_gather {α β : Type} {check : Nat → α → Checked β} {R : α → β → Prop}
    (hvalue : ∀ {i x}, (check i x).1 = [] → ∃ y, (check i x).2 = some y ∧ R x y) {xs : List α}
    {i : Nat} (h : (gather ((xs.zipIdx i).map fun e => check e.2 e.1)).1 = []) :
    List.Forall₂ R xs (gather ((xs.zipIdx i).map fun e => check e.2 e.1)).2 := by
  induction xs generalizing i with
  | nil => exact .nil
  | cons x rest ih =>
    rw [List.zipIdx_cons, List.map_cons] at h ⊢
    obtain ⟨hone, hrest⟩ := List.append_eq_nil_iff.mp h
    obtain ⟨y, hy, hxy⟩ := hvalue hone
    unfold gather
    dsimp only
    rw [List.filterMap_cons_some hy]
    exact .cons hxy (ih hrest)

theorem validateServer_ok {src : Sources} {raw : RawConfig} {tenants : List String}
    (h : (validateServer src raw tenants).1 = []) :
    List.Forall₂ (AuthKeyLoaded tenants) raw.server.authKeys
      (validateServer src raw tenants).2.authKeys := by
  unfold validateServer at h ⊢
  dsimp only at h ⊢
  exact @forall₂_gather _ _ (validateAuthKey src tenants) _ validateAuthKey_ok _ _
    (List.append_eq_nil_iff.mp h).2

/-- A provider key as it loads: what the document says of it, its weight a
positive number. -/
structure KeyLoaded (rk : RawKey) (k : ApiKey) : Prop where
  name : k.name = rk.name
  named : rk.name ≠ ""
  models : k.models = rk.models
  tenant : k.tenant = rk.tenant
  weight : rk.weight = some k.weight

theorem positive_eq {w : Option Rat} {q : { q : Rat // 0 < q }} (h : positive w = some q) :
    w = some q.1 := by
  unfold positive at h
  split at h
  · cases h
  · split at h
    · cases h
      rfl
    · cases h

theorem checkKeyName_ok {kpath : String} {seen : List String} {rk : RawKey}
    (h : checkKeyName kpath seen rk = []) : rk.name ≠ "" ∧ rk.name ∉ seen := by
  unfold checkKeyName at h
  split at h
  · cases h
  · next hnamed =>
    split at h
    · cases h
    · next hseen => exact ⟨hnamed, hseen⟩

theorem checkWeight_ok {kpath : String} {weight : Option Rat} (h : (checkWeight kpath weight).1 = []) :
    ∃ w, (checkWeight kpath weight).2 = some w ∧ weight = some w.1 := by
  unfold checkWeight at h ⊢
  split at h
  · next w hw => exact ⟨w, rfl, positive_eq hw⟩
  · cases h

theorem validateKey_ok {src : Sources} {defaults : Option KeyLimits} {path : String} {i : Nat}
    {seen : List String} {rk : RawKey} (h : (validateKey src defaults path i seen rk).1 = []) :
    rk.name ∉ seen ∧
      ∃ k, (validateKey src defaults path i seen rk).2 = some k ∧ KeyLoaded rk k := by
  unfold validateKey at h ⊢
  dsimp only at h ⊢
  split at h
  · exact absurd (List.append_eq_nil_iff.mp h).2 (List.cons_ne_nil _ _)
  · rw [List.append_eq_nil_iff, List.append_eq_nil_iff] at h
    obtain ⟨⟨hname, hweight⟩, _⟩ := h
    obtain ⟨hnamed, hseen⟩ := checkKeyName_ok hname
    obtain ⟨w, hw, hvalue⟩ := checkWeight_ok hweight
    refine ⟨hseen, ?_⟩
    rw [hw]
    exact ⟨_, rfl, rfl, hnamed, rfl, rfl, hvalue⟩

theorem passes_key (src : Sources) (defaults : Option KeyLimits) (path : String) :
    Passes keyName (validateKey src defaults path) KeyLoaded where
  value h := (validateKey_ok h).2
  fresh := by
    intro i seen rk h
    obtain ⟨hseen, _, _, hloaded⟩ := validateKey_ok h
    exact ⟨rk.name, if_neg hloaded.named, hseen⟩

/-- A provider loads under its name. -/
theorem validateProvider_key {src : Sources} (name : String) (rp : RawProvider)
    (e : String × Provider) (h : (validateProvider src name rp).2 = some e) : e.1 = name := by
  unfold validateProvider at h
  dsimp only at h
  split at h
  · cases h
  · rw [whenClean_some h]

/-- A provider that loads has every key of the document, under names of
their own. -/
theorem validateProvider_ok {src : Sources} {name : String} {rp : RawProvider}
    (h : (validateProvider src name rp).1 = []) :
    ∃ p, (validateProvider src name rp).2 = some (name, p) ∧
      List.Forall₂ KeyLoaded rp.keys p.keys ∧ (rp.keys.map keyName).Nodup := by
  unfold validateProvider at h ⊢
  dsimp only at h ⊢
  split at h
  · cases h
  · next kind typeErrors hkind =>
    have hkeys : (gather (checkSeen keyName (validateKey src rp.keyLimits ("providers." ++ name)) 0
        [] rp.keys)).1 = [] := by
      have hall := h
      unfold whenClean at hall
      simp only [List.append_eq_nil_iff] at hall
      tauto
    obtain ⟨hall, hnodup, _⟩ := (passes_key ..).all (gather_errors hkeys)
    exact ⟨_, whenClean_ok h, hall, hnodup⟩

theorem validateProviders_get? {src : Sources} {raw : RawConfig}
    (h : (validateProviders src raw).1 = []) {name : String} {rp : RawProvider}
    (hname : raw.providers.get? name = some rp) :
    ∃ p, (validateProviders src raw).2.get? name = some p ∧
      List.Forall₂ KeyLoaded rp.keys p.keys ∧ (rp.keys.map keyName).Nodup := by
  have hone := collect_errors h _ (List.mem_map.mpr ⟨(name, rp), OrdMap.mem_entries.mpr hname, rfl⟩)
  obtain ⟨p, hp, hkeys⟩ := validateProvider_ok hone
  refine ⟨p, ?_, hkeys⟩
  unfold validateProviders
  rw [get?_collect (f := fun k rp => validateProvider src k rp) validateProvider_key, hname,
    Option.bind_some, hp]
  rfl

/-- A virtual key as it loads. -/
structure DefLoaded (tenants : List String) (rk : RawVirtualKey) (d : VirtualKeyDef) : Prop where
  id : d.id = rk.id
  hex : isHex 6 rk.id = true
  models : d.models = rk.models
  tenant : d.tenant = rk.tenant
  declared : ∀ t, rk.tenant = some t → t ∈ tenants

theorem checkKeyId_ok {path : String} {seen : List String} {rk : RawVirtualKey}
    (h : checkKeyId path seen rk = []) : isHex 6 rk.id = true ∧ rk.id ∉ seen := by
  unfold checkKeyId at h
  split at h
  · cases h
  · next hhex =>
    split at h
    · cases h
    · next hseen => exact ⟨by simpa using hhex, hseen⟩

section

variable {providers : OrdMap String Provider} {aliases : OrdMap String TargetModel}
  {groups : OrdMap String RoutingGroup} {tenants : List String}

theorem validateVirtualKey_ok {i : Nat} {seen : List String} {rk : RawVirtualKey}
    (h : (validateVirtualKey providers aliases groups tenants i seen rk).1 = []) :
    rk.id ∉ seen ∧ ∃ d, (validateVirtualKey providers aliases groups tenants i seen rk).2 = some d ∧
      DefLoaded tenants rk d := by
  unfold validateVirtualKey at h ⊢
  dsimp only at h ⊢
  have hall := h
  unfold whenClean at hall
  simp only [List.append_eq_nil_iff] at hall
  obtain ⟨⟨⟨⟨⟨⟨⟨_, hid⟩, _⟩, _⟩, htenant⟩, _⟩, _⟩, _⟩ := hall
  obtain ⟨hhex, hseen⟩ := checkKeyId_ok hid
  refine ⟨hseen, _, whenClean_ok h, rfl, hhex, rfl, rfl, fun t ht => ?_⟩
  rw [ht] at htenant
  exact checkTenant_ok htenant

theorem passes_virtualKey :
    Passes keyId (validateVirtualKey providers aliases groups tenants) (DefLoaded tenants) where
  value h := (validateVirtualKey_ok h).2
  fresh := by
    intro i seen rk h
    obtain ⟨hseen, _, _, hloaded⟩ := validateVirtualKey_ok h
    exact ⟨rk.id, if_pos hloaded.hex, hseen⟩

theorem validateVirtualKeys_ok {raw : RawConfig}
    (h : (validateVirtualKeys providers aliases groups raw tenants).1 = []) :
    List.Forall₂ (DefLoaded tenants) raw.virtualKeys
        (validateVirtualKeys providers aliases groups raw tenants).2 ∧
      (raw.virtualKeys.map keyId).Nodup := by
  obtain ⟨hall, hnodup, _⟩ := passes_virtualKey.all (gather_errors h)
  exact ⟨hall, hnodup⟩

end

theorem validateProviders_none {src : Sources} {raw : RawConfig} {name : String}
    (h : raw.providers.get? name = none) : (validateProviders src raw).2.get? name = none := by
  unfold validateProviders
  rw [get?_collect (f := fun k rp => validateProvider src k rp) validateProvider_key, h,
    Option.bind_none]

/-- A document that loads, section by section. -/
structure Loaded (src : Sources) (raw : RawConfig) (c : Config) : Prop where
  tenants : c.tenants = raw.tenants
  services : raw.tenants.Nodup
  provider_some : ∀ {name rp}, raw.providers.get? name = some rp →
    ∃ p, c.providers.get? name = some p ∧ List.Forall₂ KeyLoaded rp.keys p.keys ∧
      (rp.keys.map keyName).Nodup
  provider_none : ∀ {name}, raw.providers.get? name = none → c.providers.get? name = none
  accounts : ∀ {name rp}, raw.providers.get? name = some rp → ∀ rk ∈ rp.keys, ∀ t,
    rk.tenant = some t → t ∈ raw.tenants
  virtualKeys : List.Forall₂ (DefLoaded raw.tenants) raw.virtualKeys c.virtualKeys
  keyIds : (raw.virtualKeys.map keyId).Nodup
  authKeys : List.Forall₂ (AuthKeyLoaded raw.tenants) raw.server.authKeys c.server.authKeys
  routing : (raw.routing c.providers).validate = .ok c.routing

theorem validate_ok {src : Sources} {raw : RawConfig} {c : Config} (h : validate src raw = .ok c) :
    Loaded src raw c := by
  unfold validate at h
  dsimp only at h
  split at h
  · next herrors =>
    cases h
    simp only [List.append_eq_nil_iff] at herrors
    obtain ⟨⟨⟨⟨⟨⟨⟨⟨⟨⟨⟨⟨htenants, hserver⟩, hproviders⟩, haliases⟩, hfallbacks⟩, hgroups⟩,
      hreliability⟩, haccounts⟩, hvirtual⟩, _⟩, _⟩, _⟩, _⟩ := herrors
    obtain ⟨hsame, hnodup⟩ := validateTenants_ok htenants
    rw [hsame] at hserver haccounts hvirtual
    obtain ⟨hdefs, hids⟩ := validateVirtualKeys_ok hvirtual
    have hnone : ∀ {name}, raw.providers.get? name = none →
        (validateProviders src raw).2.get? name = none := validateProviders_none
    refine
      { tenants := hsame
        services := hnodup
        provider_some := validateProviders_get? hproviders
        provider_none := hnone
        accounts := fun hname _ hrk _ ht => validateAccountTenants_ok haccounts hname hrk ht
        virtualKeys := ?_
        keyIds := hids
        authKeys := ?_
        routing := ?_ }
    · dsimp only
      rw [hsame]
      exact hdefs
    · dsimp only
      rw [hsame]
      exact validateServer_ok hserver
    · have hretries := (List.append_eq_nil_iff.mp hreliability).2
      have hconfigured : (raw.routing (validateProviders src raw).2).providers =
          (validateProviders src raw).2.mapValues Provider.runtime := by
        refine OrdMap.ext_get? fun name => ?_
        unfold RawConfig.routing
        dsimp only
        rw [OrdMap.get?_mapWithKey, OrdMap.get?_mapValues]
        cases hname : raw.providers.get? name with
        | none => rw [hnone hname, Option.map_none, Option.map_none]
        | some rp =>
          obtain ⟨p, hp, _⟩ := validateProviders_get? hproviders hname
          rw [hp]
          rfl
      unfold RawRouting.validate Config.routing
      dsimp only
      rw [haliases, hfallbacks, hgroups, hretries, ← hconfigured]
      exact if_pos rfl
  · cases h

end RapidRouter.Core.Document
