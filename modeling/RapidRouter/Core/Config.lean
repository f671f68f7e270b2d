import RapidRouter.Core.Text

/-!
# Configuration, as the control plane reads it

The part of `router-core/src/config` that decides who may operate the
console. A document names secrets by reference (`env.VAR`, `store.name`,
`file:/path`, or a literal), `resolveSecret` looks a reference up, and
`validateConsole` turns the `[console]` section into the live admin keys.

Parsing TOML is the `toml` crate's business and the other sections'
validators say nothing about access, so both are parameters (`Parser`). What
is kept of the other sections is what they can disclose or what the handlers
ask of them: the declared services and the credentials sent upstream.
-/

namespace RapidRouter.Core

open Text

structure ConfigError where
  path : String
  message : String
  deriving DecidableEq, Repr

inductive LoadError where
  | parse (message : String)
  | invalid (errors : List ConfigError)
  deriving DecidableEq

/-- The `Display` text of a load error. -/
def LoadError.text : LoadError → String
  | .parse message => "failed to parse config: " ++ message
  | .invalid errors =>
    "invalid config:\n" ++
      String.intercalate "\n" (errors.map fun e => "  - " ++ e.path ++ ": " ++ e.message)

/-- The sections of `RawConfig` the model reads. -/
structure RawConfig where
  adminKeys : List String
  sessionTtlSecs : Nat
  tenants : List String
  /-- Where each upstream credential is declared, and its reference. -/
  providerKeys : List (String × String)
  deriving DecidableEq

structure ConsoleConfig where
  adminKeys : List String
  sessionTtlMs : Nat
  deriving DecidableEq

/-- `ConsoleConfig::enabled`: the admin API exists only when credentials do. -/
def ConsoleConfig.enabled (c : ConsoleConfig) : Bool := !c.adminKeys.isEmpty

structure Config where
  console : ConsoleConfig
  tenants : List String
  /-- The resolved credentials the gateway presents to upstreams. -/
  upstreamKeys : List String
  deriving DecidableEq

/-- Where references are looked up: `env` answers environment variables and
`store.` names, `file` is `read_to_string`. -/
structure Sources where
  env : String → Option String
  file : String → Option String

/-- `resolve_secret`. -/
def resolveSecret (src : Sources) (value : String) : Except String String :=
  match stripPrefix "file:" value with
  | some path =>
    if path = "" then .error "empty path after `file:`"
    else
      match src.file path with
      | some contents =>
        if trim contents = "" then .error ("credential file `" ++ path ++ "` is empty")
        else .ok (trim contents)
      | none => .error ("cannot read credential file `" ++ path ++ "`")
  | none =>
    match stripPrefix "env." value with
    | some var =>
      if var = "" then .error "empty environment variable name after `env.`"
      else
        match src.env var with
        | some v =>
          if v = "" then .error ("environment variable `" ++ var ++ "` is set but empty")
          else .ok v
        | none => .error ("environment variable `" ++ var ++ "` is not set")
    | none =>
      match stripPrefix "store." value with
      | some name =>
        if name = "" then .error "empty secret name after `store.`"
        else
          match src.env value with
          | some v => if v = "" then .error (unset name) else .ok v
          | none => .error (unset name)
      | none => if value = "" then .error "must not be empty" else .ok value
where
  unset (name : String) : String :=
    "store secret `" ++ name ++ "` is not set (managed mode: `rapid-router secret set " ++
      name ++ "`)"

/-- Resolve a list of references, each named by where it is declared. -/
def resolveAll (src : Sources) (refs : List (String × String)) :
    List String × List ConfigError :=
  refs.foldr
    (fun r acc =>
      match resolveSecret src r.2 with
      | .ok secret => (secret :: acc.1, acc.2)
      | .error msg => (acc.1, ⟨r.1, msg⟩ :: acc.2))
    ([], [])

/-- The admin key references of a document, named `console.admin_keys[i]`. -/
def RawConfig.adminKeyRefs (raw : RawConfig) : List (String × String) :=
  raw.adminKeys.zipIdx.map fun v =>
    ("console.admin_keys[" ++ toString v.2 ++ "]", v.1)

/-- `validate_console`. -/
def validateConsole (src : Sources) (raw : RawConfig) : ConsoleConfig × List ConfigError :=
  let keys := resolveAll src raw.adminKeyRefs
  let ttl :=
    if 60 ≤ raw.sessionTtlSecs ∧ raw.sessionTtlSecs ≤ 604800 then []
    else [⟨"console.session_ttl_secs", "must be between 60 (1 minute) and 604800 (7 days)"⟩]
  (⟨keys.1, raw.sessionTtlSecs * 1000⟩, keys.2 ++ ttl)

/-- Reading TOML, and what the validators of the other sections report. -/
structure Parser where
  toml : String → Except String RawConfig
  otherErrors : String → List ConfigError

/-- `Config::from_str_with_env`. -/
def Config.fromStr (parser : Parser) (src : Sources) (text : String) : Except LoadError Config :=
  match parser.toml text with
  | .error msg => .error (.parse msg)
  | .ok raw =>
    let upstream := resolveAll src raw.providerKeys
    let console := validateConsole src raw
    let errors := parser.otherErrors text ++ upstream.2 ++ console.2
    if errors = [] then .ok ⟨console.1, raw.tenants, upstream.1⟩
    else .error (.invalid errors)

end RapidRouter.Core
