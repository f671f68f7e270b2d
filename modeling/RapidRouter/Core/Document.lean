import RapidRouter.Core.Routes
import RapidRouter.Core.VKey

/-!
# The configuration document

`router-core/src/config`: the document as written (`raw.rs`), the well-known
providers (`presets.rs`), and the types a clean document loads as (`mod.rs`).
A number that was written as a float is `none` where it is not finite.

An `ApiKey` and a `WeightedTarget` carry that their weight is positive: the
validators build none that is not, so a table never holds one.
-/

namespace RapidRouter.Core.Document

/-! ## As written -/

inductive RawAuthKey where
  | bare (value : String)
  | named (key : String) (tenant : Option String)
  deriving DecidableEq

namespace RawAuthKey

def value : RawAuthKey → String
  | bare value => value
  | named key _ => key

def tenant : RawAuthKey → Option String
  | bare _ => none
  | named _ tenant => tenant

end RawAuthKey

structure RawServer where
  host : String := "0.0.0.0"
  port : Nat := 8080
  maxBodySizeMb : Nat := 100
  authKeys : List RawAuthKey := []
  requireAuth : Bool := false
  drainTimeoutSecs : Nat := 30
  deriving DecidableEq

structure RawBudget where
  usd : Option Rat
  period : String
  deriving DecidableEq

structure RawVirtualKey where
  name : String
  id : String
  secretHash : String
  models : List String := []
  tenant : Option String := none
  budget : Option RawBudget := none
  rateLimit : Option RateLimit := none
  expires : Option String := none
  tags : OrdMap String String := .empty
  enabled : Bool := true
  deriving DecidableEq

structure RawConsole where
  adminKeys : List String := []
  sessionTtlSecs : Nat := 12 * 60 * 60
  deriving DecidableEq

/-- `[store]`, which loads as it is written. -/
structure StoreConfig where
  backend : String := "file"
  bucket : Option String := none
  prefix_ : Option String := none
  table : Option String := none
  region : Option String := none
  endpoint : Option String := none
  refreshIntervalSecs : Nat := 3
  heartbeatIntervalSecs : Nat := 5
  livenessWindowSecs : Nat := 15
  deriving DecidableEq

structure RawUsage where
  retentionDays : Nat := 365
  flushIntervalSecs : Nat := 10
  perKeyMetrics : Bool := false
  captureBodies : String := "all"
  bodyLimitBytes : Nat := 256 * 1024
  bodyRetentionDays : Nat := 1
  deriving DecidableEq

structure RawPrice where
  inputPerMtok : Option Rat
  outputPerMtok : Option Rat
  deriving DecidableEq

/-- The ceilings of a key, or of every key of a provider. -/
structure KeyLimits where
  rpm : Option Nat := none
  tpm : Option Nat := none
  maxConcurrency : Option Nat := none
  deriving DecidableEq

structure RawKey where
  name : String
  value : String
  weight : Option Rat := some 1
  models : Option (List String) := none
  tenant : Option String := none
  limits : KeyLimits := {}
  deriving DecidableEq

structure RawCodex where
  version : Option String := none
  reasoningEffort : Option String := none
  verbosity : Option String := none
  pdfDpi : Option Nat := none
  pdfMaxPages : Option Nat := none
  deriving DecidableEq

structure RawProvider where
  type_ : Option String := none
  baseUrl : Option String := none
  auth : Option String := none
  keys : List RawKey := []
  maxConcurrency : Nat := 512
  timeoutSecs : Nat := 120
  endpoint : Option String := none
  apiVersion : Option String := none
  deployments : OrdMap String String := .empty
  region : Option String := none
  accessKeyId : Option String := none
  project : Option String := none
  location : Option String := none
  codex : Option RawCodex := none
  keyLimits : Option KeyLimits := none
  deriving DecidableEq

structure RawBreaker where
  failureThreshold : Nat := 5
  windowSecs : Nat := 30
  cooldownSecs : Nat := 15
  deriving DecidableEq

structure RawRetries where
  maxAttempts : Nat := 2
  on : List String := ["connect_error", "429", "5xx"]
  deriving DecidableEq

structure RawReliability where
  breaker : RawBreaker := {}
  retries : RawRetries := {}
  deriving DecidableEq

structure RawConfig where
  server : RawServer := {}
  providers : OrdMap String RawProvider := .empty
  aliases : OrdMap String String := .empty
  fallbacks : OrdMap String (List String) := .empty
  groups : OrdMap String RawGroup := .empty
  reliability : RawReliability := {}
  tenants : List String := []
  virtualKeys : List RawVirtualKey := []
  console : RawConsole := {}
  store : StoreConfig := {}
  usage : RawUsage := {}
  pricing : OrdMap String RawPrice := .empty
  deriving DecidableEq

/-! ## Well-known providers -/

structure Preset where
  kind : ProviderKind
  baseUrl : Option String
  keylessOk : Bool

def openaiCompat (baseUrl : String) : Preset := ⟨.openAiCompat, some baseUrl, false⟩

def preset : String → Option Preset
  | "openai" => some ⟨.openAi, some "https://api.openai.com/v1", false⟩
  | "anthropic" => some ⟨.anthropic, some "https://api.anthropic.com", false⟩
  | "gemini" => some ⟨.gemini, some "https://generativelanguage.googleapis.com", false⟩
  | "azure" => some ⟨.azure, none, false⟩
  | "bedrock" => some ⟨.bedrock, none, false⟩
  | "vertex" => some ⟨.vertex, none, false⟩
  | "databricks" => some ⟨.openAiCompat, none, false⟩
  | "groq" => some (openaiCompat "https://api.groq.com/openai/v1")
  | "mistral" => some (openaiCompat "https://api.mistral.ai/v1")
  | "cerebras" => some (openaiCompat "https://api.cerebras.ai/v1")
  | "openrouter" => some (openaiCompat "https://openrouter.ai/api/v1")
  | "ollama" => some ⟨.openAiCompat, some "http://localhost:11434/v1", true⟩
  | "vllm" => some ⟨.openAiCompat, some "http://localhost:8000/v1", true⟩
  | _ => none

/-! ## As loaded -/

structure StaticKey where
  secret : String
  tenant : Option String
  deriving DecidableEq

structure ServerConfig where
  host : String
  port : Nat
  maxBodySize : Nat
  authKeys : List StaticKey
  requireAuth : Bool
  drainTimeoutSecs : Nat
  deriving DecidableEq

inductive BodyCapture where
  | off
  | errors
  | all
  deriving DecidableEq

def BodyCapture.parse : String → Option BodyCapture
  | "off" | "none" | "false" => some .off
  | "errors" => some .errors
  | "all" | "true" => some .all
  | _ => none

structure UsageConfig where
  retentionDays : Nat
  flushIntervalSecs : Nat
  perKeyMetrics : Bool
  captureBodies : BodyCapture
  bodyLimitBytes : Nat
  bodyRetentionDays : Nat
  deriving DecidableEq

structure Price where
  inputPerMtok : Rat
  outputPerMtok : Rat
  deriving DecidableEq

inductive AuthMode where
  | key
  | none
  deriving DecidableEq

structure ApiKey where
  name : String
  secret : String
  weight : Rat
  weight_pos : 0 < weight
  models : Option (List String)
  tenant : Option String
  limits : KeyLimits
  sourcePath : Option String
  deriving DecidableEq

structure AzureSettings where
  endpoint : String
  apiVersion : String
  deployments : OrdMap String String
  deriving DecidableEq

structure BedrockSettings where
  region : String
  accessKeyId : String
  deriving DecidableEq

structure VertexSettings where
  project : String
  location : String
  deriving DecidableEq

structure CodexSettings where
  version : String := "0.146.0"
  reasoningEffort : Option String := some "low"
  verbosity : Option String := some "low"
  pdfDpi : Nat := 150
  pdfMaxPages : Nat := 50
  deriving DecidableEq

structure Provider where
  kind : ProviderKind
  baseUrl : Option String
  auth : AuthMode
  keys : List ApiKey
  maxConcurrency : Nat
  timeoutSecs : Nat
  azure : Option AzureSettings
  bedrock : Option BedrockSettings
  vertex : Option VertexSettings
  codex : Option CodexSettings
  deriving DecidableEq

structure Reliability where
  breaker : RawBreaker
  retries : Retries
  deriving DecidableEq

structure Config where
  server : ServerConfig
  providers : OrdMap String Provider
  aliases : OrdMap String TargetModel
  fallbacks : OrdMap TargetModel (List TargetModel)
  groups : OrdMap String RoutingGroup
  reliability : Reliability
  tenants : List String
  virtualKeys : List VirtualKeyDef
  console : ConsoleConfig
  store : StoreConfig
  usage : UsageConfig
  pricing : OrdMap String Price
  deriving DecidableEq

/-! ## What routing reads of it -/

/-- A key as the routing table keeps it. -/
def ApiKey.runtime (k : ApiKey) : KeyRuntime := ⟨k.name, k.models, k.tenant⟩

def Provider.runtime (p : Provider) : Core.Provider := ⟨p.kind, p.keys.map ApiKey.runtime⟩

/-- The configuration a routing table is built from. -/
def Config.routing (c : Config) : RoutingConfig where
  providers := c.providers.mapValues Provider.runtime
  aliases := c.aliases
  fallbacks := c.fallbacks
  groups := c.groups
  retries := c.reliability.retries

/-- The routing sections of a document, over the providers of it that loaded.
One that did not is still a configured name, which is all the routing
validators ask. -/
def RawConfig.routing (raw : RawConfig) (providers : OrdMap String Provider) : RawRouting where
  providers := raw.providers.mapWithKey fun name _ =>
    ((providers.get? name).map Provider.runtime).getD ⟨.openAiCompat, []⟩
  aliases := raw.aliases
  fallbacks := raw.fallbacks
  groups := raw.groups
  maxAttempts := raw.reliability.retries.maxAttempts
  retryOn := raw.reliability.retries.on

/-- The part of a document that decides who may operate the console. -/
def RawConfig.access (raw : RawConfig) : Core.RawConfig where
  adminKeys := raw.console.adminKeys
  sessionTtlSecs := raw.console.sessionTtlSecs
  tenants := raw.tenants
  providerKeys := raw.providers.entries.flatMap fun e =>
    e.2.keys.zipIdx.map fun k =>
      ("providers." ++ e.1 ++ ".keys[" ++ toString k.2 ++ "].value", k.1.value)

end RapidRouter.Core.Document
