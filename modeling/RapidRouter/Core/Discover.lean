import RapidRouter.Core.Validate
import RapidRouter.Lib.Toml

/-!
# A configuration found in the environment

`Config::from_str_with_env` and `Config::discover_from_env` of
`router-core/src/config/mod.rs`, with the discovery variables of `presets.rs`.
Discovery writes a TOML document for the variables that are set, reads it back
and takes it for granted that it loads; what it puts between quotes there is
the workspace host as the environment has it.

Reading a document is `toml`'s and `serde_json`'s business, so it is a
parameter; what is relied on of the first is `Reads`.
-/

namespace RapidRouter.Core.Discover

open Document (RawKey RawProvider)

/-! ## Reading a document -/

inductive Format where
  | toml
  | json
  deriving DecidableEq

/-- `toml::from_str` and `serde_json::from_str`. -/
abbrev Reader := Format → String → Except String Document.RawConfig

/-- `Config::from_str_with_env`. -/
def fromStrWithEnv (read : Reader) (src : Sources) (text : String) (format : Format) :
    Except LoadError Document.Config :=
  match read format text with
  | .error msg => .error (.parse msg)
  | .ok raw =>
    match Document.validate src raw with
    | .error errors => .error (.invalid errors)
    | .ok c => .ok c

/-! ## Writing one -/

/-- The `discovery_env` of a well-known provider. -/
def discoveryEnv : String → Option String
  | "openai" => some "OPENAI_API_KEY"
  | "anthropic" => some "ANTHROPIC_API_KEY"
  | "gemini" => some "GEMINI_API_KEY"
  | "groq" => some "GROQ_API_KEY"
  | "mistral" => some "MISTRAL_API_KEY"
  | "cerebras" => some "CEREBRAS_API_KEY"
  | "openrouter" => some "OPENROUTER_API_KEY"
  | _ => none

/-- `DISCOVERY_ORDER`. -/
def discoveryOrder : List String :=
  ["openai", "anthropic", "gemini", "groq", "mistral", "cerebras", "openrouter"]

/-- The two `expect`s of `discover_from_env`. -/
inductive Panic where
  /-- "discovery list entries define an env var" -/
  | noVariable
  /-- "generated discovery config is valid" -/
  | invalid (e : LoadError)
  deriving DecidableEq

def isSet (env : String → Option String) (var : String) : Bool := (env var).any (· ≠ "")

def headerLine (name : String) : String := "[providers." ++ name ++ "]\n"

def keysLine (var : String) : String :=
  "keys = [\x7b name = \"default\", value = \"env." ++ var ++ "\" \x7d]\n"

/-- The section of a provider that has its key in a variable. -/
def keySection (name var : String) : String := headerLine name ++ keysLine var ++ "\n"

/-- The loop of `discover_from_env`. -/
def keySections (env : String → Option String) : List String → Except Panic String
  | [] => .ok ""
  | name :: rest =>
    match discoveryEnv name with
    | none => .error .noVariable
    | some var =>
      match keySections env rest with
      | .error e => .error e
      | .ok doc => .ok ((if isSet env var then keySection name var else "") ++ doc)

def databricksHost : String := "DATABRICKS_HOST"

def databricksToken : String := "DATABRICKS_TOKEN"

/-- What stands after the host in its section. -/
def afterHost : String := "/serving-endpoints\"\n" ++ keysLine databricksToken ++ "\n"

def hostSection (host : String) : String :=
  headerLine "databricks" ++ "base_url = \"" ++ host ++ afterHost

/-- Databricks needs both a workspace host and a token. -/
def databricksSection (env : String → Option String) : String :=
  match env databricksHost, env databricksToken with
  | some host, some _ => hostSection (Text.trimEndMatches '/' host)
  | _, _ => ""

/-- The end of `discover_from_env`: an empty document is none, and any other is
read back. -/
def loadDiscovered (read : Reader) (src : Sources) (doc : String) :
    Except Panic (Option Document.Config) :=
  if doc = "" then .ok none
  else
    match fromStrWithEnv read src doc .toml with
    | .error e => .error (.invalid e)
    | .ok c => .ok (some c)

/-- `Config::discover_from_env`. -/
def discoverFromEnv (read : Reader) (src : Sources) : Except Panic (Option Document.Config) :=
  match keySections src.env discoveryOrder with
  | .error e => .error e
  | .ok sections => loadDiscovered read src (sections ++ databricksSection src.env)

/-! ## What is relied on of the reader -/

def rawKey : List (String × String) → Option RawKey
  | [("name", name), ("value", value)] => some { name := name, value := value }
  | _ => none

def rawProvider : Toml.Entries → Option RawProvider
  | [("keys", .tables rows)] => (rows.mapM rawKey).map fun keys => { keys := keys }
  | [("base_url", .text url), ("keys", .tables rows)] =>
    (rows.mapM rawKey).map fun keys => { baseUrl := some url, keys := keys }
  | _ => none

def rawSection : List String × Toml.Entries → Option (String × RawProvider)
  | (["providers", name], entries) => (rawProvider entries).map fun rp => (name, rp)
  | _ => none

/-- What `serde` makes of a document of provider sections, each of them under
a name of its own and with a URL or without one. -/
def rawConfig (doc : Toml.Entries × List (List String × Toml.Entries)) :
    Option Document.RawConfig :=
  if doc.1 ≠ [] then none
  else
    (doc.2.mapM rawSection).bind fun sections =>
      if (sections.map Prod.fst).Nodup then some { providers := .ofList sections } else none

/-- A document of the fragment is read as TOML has it, and text that is no
TOML is refused. -/
structure Reads (toml : String → Except String Document.RawConfig) : Prop where
  reads : ∀ {text : String} {doc : Toml.Entries × List (List String × Toml.Entries)}
    {raw : Document.RawConfig}, Toml.document text.toList = .ok doc [] →
      rawConfig doc = some raw → toml text = .ok raw
  refuses : ∀ {text : String}, Toml.document text.toList = .bad → ∃ msg, toml text = .error msg

/-! ## The lines are read back -/

theorem line_header {name : String} (h : Toml.Bare name) (rest : List Char) :
    Toml.line ((headerLine name).toList ++ rest) = .ok (.header ["providers", name]) rest := by
  let path : List Char := "providers".toList ++ '.' :: (name.toList ++ ']' :: '\n' :: rest)
  have htext : (headerLine name).toList ++ rest = '[' :: path := by
    have hopen : "[providers.".toList = '[' :: ("providers".toList ++ ['.']) := by decide
    have hclose : "]\n".toList = [']', '\n'] := by decide
    unfold headerLine
    rw [String.toList_append, String.toList_append, hopen, hclose]
    simp only [List.append_assoc, List.cons_append, List.nil_append, path]
  have hproviders : Toml.key path = .ok "providers" ('.' :: (name.toList ++ ']' :: '\n' :: rest)) :=
    Toml.key_bare (by decide) (by decide) _
  have hname : Toml.key (name.toList ++ ']' :: '\n' :: rest) = .ok name (']' :: '\n' :: rest) :=
    Toml.key_bare h (by decide) _
  have hpath : ∀ n, 2 ≤ n →
      Toml.separated '.' ']' Toml.key n path = .ok ["providers", name] ('\n' :: rest) := by
    intro n hn
    obtain ⟨m, rfl⟩ := Nat.exists_eq_add_of_le' hn
    rw [Toml.separated_more (m + 1) hproviders rfl (by decide), Toml.separated_last m hname rfl]
    rfl
  rw [htext]
  show (Toml.separated '.' ']' Toml.key path.length path).bind _ = _
  rw [hpath path.length (by simp only [path, List.length_append, List.length_cons]; omega)]
  rfl

/-- What the `keys` of a section say. -/
def keysValue (var : String) : Toml.Value :=
  .tables [[("name", "default"), ("value", "env." ++ var)]]

/-- The text of the pairs of the only key. -/
def pairsText (var : String) (rest : List Char) : List Char :=
  ' ' :: (Toml.writePair "name" "default" ++ ',' :: ' ' ::
    (Toml.writePair "value" ("env." ++ var) ++ ' ' :: '\x7d' :: ']' :: '\n' :: rest))

theorem keysLine_text (var : String) (rest : List Char) : (keysLine var).toList ++ rest =
    "keys".toList ++ ' ' :: '=' :: ' ' :: '[' :: '\x7b' :: pairsText var rest := by
  have hopen : "keys = [\x7b name = \"default\", value = \"env.".toList =
      "keys".toList ++ ' ' :: '=' :: ' ' :: '[' :: '\x7b' :: ' ' ::
        (Toml.writePair "name" "default" ++ ',' :: ' ' ::
          ("value".toList ++ ' ' :: '=' :: ' ' :: '"' :: "env.".toList)) := by
    decide
  have hclose : "\" \x7d]\n".toList = ['"', ' ', '\x7d', ']', '\n'] := by decide
  have hvalue : Toml.writePair "value" ("env." ++ var) =
      "value".toList ++ ' ' :: '=' :: ' ' :: '"' :: ("env.".toList ++ (var.toList ++ ['"'])) := by
    unfold Toml.writePair
    rw [String.toList_append, List.append_assoc]
  unfold keysLine pairsText
  rw [String.toList_append, String.toList_append, hopen, hclose, hvalue]
  simp only [List.append_assoc, List.cons_append, List.nil_append]

theorem table_pairs {var : String} (h : Toml.Bare var) (rest : List Char) :
    Toml.table ('\x7b' :: pairsText var rest) =
      .ok [("name", "default"), ("value", "env." ++ var)] (']' :: '\n' :: rest) := by
  have henv : Toml.Plain "env." := by decide
  have hdefault : Toml.Plain "default" := by decide
  have hname := Toml.pair_write (k := "name") (by decide) hdefault (',' :: ' ' ::
      (Toml.writePair "value" ("env." ++ var) ++ ' ' :: '\x7d' :: ']' :: '\n' :: rest))
  have hvalue := Toml.pair_write (k := "value") (by decide)
    (henv.append h.plain) (' ' :: '\x7d' :: ']' :: '\n' :: rest)
  have hpairs : ∀ n, 2 ≤ n → Toml.separated ',' '\x7d' Toml.pair n (pairsText var rest) =
      .ok [("name", "default"), ("value", "env." ++ var)] (']' :: '\n' :: rest) := by
    intro n hn
    obtain ⟨m, rfl⟩ := Nat.exists_eq_add_of_le' hn
    unfold pairsText
    rw [Toml.separated_more (m + 1) hname rfl (by decide), Toml.separated_last m hvalue rfl]
    rfl
  have hlength : 2 ≤ (pairsText var rest).length := by
    unfold pairsText
    simp only [List.length_append, List.length_cons]
    omega
  exact hpairs _ hlength

theorem line_keys {var : String} (h : Toml.Bare var) (rest : List Char) :
    Toml.line ((keysLine var).toList ++ rest) = .ok (.entry "keys" (keysValue var)) rest := by
  have htables : ∀ n, 1 ≤ n → Toml.separated ',' ']' Toml.table n ('\x7b' :: pairsText var rest) =
      .ok [[("name", "default"), ("value", "env." ++ var)]] ('\n' :: rest) := by
    intro n hn
    obtain ⟨m, rfl⟩ := Nat.exists_eq_add_of_le' hn
    exact Toml.separated_last m (table_pairs h rest) rfl
  have hvalue : Toml.value (' ' :: '[' :: '\x7b' :: pairsText var rest) =
      .ok (keysValue var) ('\n' :: rest) := by
    show (Toml.separated ',' ']' Toml.table ('\x7b' :: pairsText var rest).length _).map _ = _
    rw [htables ('\x7b' :: pairsText var rest).length (Nat.succ_pos _)]
    rfl
  rw [keysLine_text, Toml.line_entry (by decide), hvalue]
  rfl

/-- What the line of the workspace URL says, and what stands after that line,
when the document has this host. -/
def urlLine (host : String) : Toml.Read String :=
  (Toml.string ('"' :: (host.toList ++ afterHost.toList))).bind fun url rest =>
    (Toml.endOfLine rest).map fun _ => url

theorem line_url (host : String) :
    Toml.line ("base_url".toList ++ ' ' :: '=' :: ' ' :: '"' :: (host.toList ++ afterHost.toList)) =
      (urlLine host).map fun url => .entry "base_url" (.text url) := by
  rw [Toml.line_entry (by decide)]
  show ((Toml.string ('"' :: (host.toList ++ afterHost.toList))).map Toml.Value.text).bind _ = _
  unfold urlLine
  cases Toml.string ('"' :: (host.toList ++ afterHost.toList)) with
  | ok url rest =>
    show (Toml.endOfLine rest).map _ = ((Toml.endOfLine rest).map fun _ => url).map _
    cases Toml.endOfLine rest with
    | ok _ _ => rfl
    | bad => rfl
    | beyond => rfl
  | bad => rfl
  | beyond => rfl

/-- The rest of the document, when the host does not end its own line. -/
def afterUrl : List Char := (keysLine databricksToken).toList ++ ['\n']

/-! ## The document is read back -/

/-- A section of the document. -/
structure Section where
  name : String
  url : Option String := none
  var : String

namespace Section

def lines (s : Section) : List Toml.Line :=
  .header ["providers", s.name] ::
    ((s.url.map fun url => .entry "base_url" (.text url)).toList ++
      [.entry "keys" (keysValue s.var), .blank])

def table (s : Section) : List String × Toml.Entries :=
  (["providers", s.name],
    (s.url.map fun url => ("base_url", Toml.Value.text url)).toList ++ [("keys", keysValue s.var)])

def provider (s : Section) : RawProvider where
  baseUrl := s.url
  keys := [{ name := "default", value := "env." ++ s.var }]

end Section

/-- The document of some sections. -/
def rawOf (ss : List Section) : Document.RawConfig :=
  { providers := .ofList (ss.map fun s => (s.name, s.provider)) }

/-- The sections written for the variables that are set. -/
def keyed (env : String → Option String) (names : List String) : List Section :=
  names.filterMap fun name =>
    (discoveryEnv name).bind fun var =>
      if isSet env var then some { name := name, var := var } else none

def keyedText (ss : List Section) : List Char :=
  ss.flatMap fun s => (keySection s.name s.var).toList

theorem grouped_lines (ss : List Section) :
    Toml.grouped (ss.flatMap Section.lines) = ([], ss.map Section.table) := by
  induction ss with
  | nil => rfl
  | cons s ss ih =>
    rw [List.flatMap_cons, List.map_cons]
    obtain ⟨name, url, var⟩ := s
    cases url with
    | none =>
      show ([], (_, ("keys", keysValue var) :: (Toml.grouped (ss.flatMap Section.lines)).1) ::
        (Toml.grouped (ss.flatMap Section.lines)).2) = _
      rw [ih]
      rfl
    | some url =>
      show ([], (_, ("base_url", .text url) :: ("keys", keysValue var) ::
        (Toml.grouped (ss.flatMap Section.lines)).1) ::
          (Toml.grouped (ss.flatMap Section.lines)).2) = _
      rw [ih]
      rfl

theorem mapM_rawSection (ss : List Section) :
    (ss.map Section.table).mapM rawSection = some (ss.map fun s => (s.name, s.provider)) := by
  induction ss with
  | nil => rfl
  | cons s ss ih =>
    have hone : rawSection s.table = some (s.name, s.provider) := by
      obtain ⟨name, url, var⟩ := s
      cases url with
      | none => rfl
      | some url => rfl
    rw [List.map_cons, List.mapM_cons, hone, ih]
    rfl

theorem rawConfig_tables {ss : List Section} (h : (ss.map Section.name).Nodup) :
    rawConfig ([], ss.map Section.table) = some (rawOf ss) := by
  have hnames : ((ss.map fun s => (s.name, s.provider)).map Prod.fst).Nodup := by
    rw [List.map_map]
    exact h
  show ((ss.map Section.table).mapM rawSection).bind _ = _
  rw [mapM_rawSection, Option.bind_some, if_pos hnames]
  rfl

theorem toList_ne_nil {s : String} {cs : List Char} (h : s.toList ≠ []) : s.toList ++ cs ≠ [] :=
  List.append_ne_nil_of_left_ne_nil h cs

theorem headerLine_ne_nil (name : String) : (headerLine name).toList ≠ [] := by
  unfold headerLine
  rw [String.toList_append, String.toList_append, List.append_assoc]
  exact toList_ne_nil (by decide)

theorem keysLine_ne_nil (var : String) : (keysLine var).toList ≠ [] := by
  unfold keysLine
  rw [String.toList_append, String.toList_append, List.append_assoc]
  exact toList_ne_nil (by decide)

/-- The header of a section is a line of it. -/
theorem lines_header {name : String} (h : Toml.Bare name) (n : Nat) (t : List Char) :
    Toml.lines (n + 1) ((headerLine name).toList ++ t) =
      (Toml.lines n t).map (.header ["providers", name] :: ·) :=
  Toml.lines_cons (toList_ne_nil (headerLine_ne_nil name)) (line_header h t) n

/-- The keys and the blank line that end every section. -/
theorem lines_keys {var : String} (h : Toml.Bare var) (n : Nat) (t : List Char) :
    Toml.lines (n + 2) ((keysLine var).toList ++ '\n' :: t) =
      (Toml.lines n t).map fun ls => .entry "keys" (keysValue var) :: .blank :: ls := by
  have hblank : Toml.lines (n + 1) ('\n' :: t) = (Toml.lines n t).map (.blank :: ·) :=
    Toml.lines_cons (List.cons_ne_nil _ _) rfl n
  rw [Toml.lines_cons (toList_ne_nil (keysLine_ne_nil var)) (line_keys h _) (n + 1), hblank,
    Toml.Read.map_map]

/-- A section the loop writes. -/
structure Section.Keyed (s : Section) : Prop where
  url : s.url = none
  name : Toml.Bare s.name
  var : Toml.Bare s.var

theorem lines_keySection {s : Section} (h : s.Keyed) (n : Nat) (t : List Char) :
    Toml.lines (n + 3) ((keySection s.name s.var).toList ++ t) =
      (Toml.lines n t).map (s.lines ++ ·) := by
  have htext : (keySection s.name s.var).toList ++ t =
      (headerLine s.name).toList ++ ((keysLine s.var).toList ++ '\n' :: t) := by
    have hend : "\n".toList = ['\n'] := by decide
    unfold keySection
    rw [String.toList_append, String.toList_append, hend]
    simp only [List.append_assoc, List.cons_append, List.nil_append]
  rw [htext, lines_header h.name (n + 2), lines_keys h.var, Toml.Read.map_map]
  unfold Section.lines
  rw [h.url]
  rfl

theorem lines_keyedText {ss : List Section} (h : ∀ s ∈ ss, s.Keyed) (n : Nat) (t : List Char) :
    Toml.lines (n + 3 * ss.length) (keyedText ss ++ t) =
      (Toml.lines n t).map (ss.flatMap Section.lines ++ ·) := by
  induction ss generalizing n with
  | nil =>
    show Toml.lines n t = (Toml.lines n t).map fun ls => ls
    cases Toml.lines n t with
    | ok ls rest => rfl
    | bad => rfl
    | beyond => rfl
  | cons s ss ih =>
    have htext : keyedText (s :: ss) ++ t =
        (keySection s.name s.var).toList ++ (keyedText ss ++ t) := by
      unfold keyedText
      rw [List.flatMap_cons, List.append_assoc]
    have hfuel : n + 3 * (s :: ss).length = n + 3 * ss.length + 3 := by
      rw [List.length_cons]
      omega
    rw [htext, hfuel, lines_keySection (h s List.mem_cons_self),
      ih fun x hx => h x (List.mem_cons_of_mem _ hx), Toml.Read.map_map]
    simp only [List.flatMap_cons, List.append_assoc]

/-- The section of the workspace, up to where its URL is read. -/
theorem lines_hostSection (host : String) (n : Nat) :
    Toml.lines (n + 2) (hostSection host).toList =
      (urlLine host).bind fun url rest => (Toml.lines n rest).map fun ls =>
        .header ["providers", "databricks"] :: .entry "base_url" (.text url) :: ls := by
  have htext : (hostSection host).toList = (headerLine "databricks").toList ++
      ("base_url".toList ++ ' ' :: '=' :: ' ' :: '"' :: (host.toList ++ afterHost.toList)) := by
    have hopen : "base_url = \"".toList = "base_url".toList ++ [' ', '=', ' ', '"'] := by
      decide
    unfold hostSection
    rw [String.toList_append, String.toList_append, String.toList_append, hopen]
    simp only [List.append_assoc, List.cons_append, List.nil_append]
  rw [htext, lines_header (by decide) (n + 1),
    Toml.lines_eq (toList_ne_nil (by decide)), line_url]
  cases urlLine host with
  | ok url rest => exact Toml.Read.map_map _ _ _
  | bad => rfl
  | beyond => rfl

theorem length_keyedText (ss : List Section) : 3 * ss.length ≤ (keyedText ss).length := by
  induction ss with
  | nil => exact Nat.le_refl 0
  | cons s ss ih =>
    have hheader := List.length_pos_iff.mpr (headerLine_ne_nil s.name)
    have hkeys := List.length_pos_iff.mpr (keysLine_ne_nil s.var)
    have hend : "\n".toList.length = 1 := by decide
    unfold keyedText keySection at ih ⊢
    rw [List.flatMap_cons, List.length_cons, List.length_append, String.toList_append,
      String.toList_append, List.length_append, List.length_append]
    omega

theorem document_keyedText {ss : List Section} (h : ∀ s ∈ ss, s.Keyed) :
    Toml.document (keyedText ss) = .ok ([], ss.map Section.table) [] := by
  obtain ⟨n, hn⟩ := Nat.exists_eq_add_of_le' (length_keyedText ss)
  have hlines := lines_keyedText h n []
  rw [List.append_nil, ← hn] at hlines
  have hnil : Toml.lines n [] = .ok [] [] := by
    cases n with
    | zero => rfl
    | succ n => rfl
  unfold Toml.document
  rw [hlines, hnil, Toml.Read.map_ok, Toml.Read.map_ok, List.append_nil, grouped_lines]

def databricks (url : String) : Section :=
  { name := "databricks", url := some url, var := databricksToken }

/-- The lines after that of the URL, and with them the whole section. -/
theorem lines_afterUrl (n : Nat) : Toml.lines (n + 2) afterUrl =
    .ok [.entry "keys" (keysValue databricksToken), .blank] [] := by
  have hnil : Toml.lines n [] = .ok [] [] := by
    cases n with
    | zero => rfl
    | succ n => rfl
  unfold afterUrl
  rw [lines_keys (by decide), hnil]
  rfl

section Host

variable {ss : List Section} (h : ∀ s ∈ ss, s.Keyed) (host : String)

include h

theorem document_fuel : ∃ n, Toml.document (keyedText ss ++ (hostSection host).toList) =
    ((urlLine host).bind fun url rest => (Toml.lines (n + 2) rest).map fun ls =>
      Toml.grouped (ss.flatMap Section.lines ++
        .header ["providers", "databricks"] :: .entry "base_url" (.text url) :: ls)) := by
  have hlength : 4 ≤ (hostSection host).toList.length := by
    have hafter : 4 ≤ "base_url = \"".toList.length := by decide
    unfold hostSection
    rw [String.toList_append, String.toList_append, String.toList_append, List.length_append,
      List.length_append, List.length_append]
    omega
  obtain ⟨n, hn⟩ := Nat.exists_eq_add_of_le'
    (show 4 + 3 * ss.length ≤ (keyedText ss ++ (hostSection host).toList).length by
      have hkeyed := length_keyedText ss
      rw [List.length_append]
      omega)
  have hfuel : (keyedText ss ++ (hostSection host).toList).length = n + 4 + 3 * ss.length := by
    omega
  refine ⟨n, ?_⟩
  unfold Toml.document
  rw [hfuel, lines_keyedText h, lines_hostSection, Toml.Read.map_map]
  cases urlLine host with
  | ok url rest => exact Toml.Read.map_map _ _ _
  | bad => rfl
  | beyond => rfl

variable {host}

theorem document_host {url : String} (hurl : urlLine host = .ok url afterUrl) :
    Toml.document (keyedText ss ++ (hostSection host).toList) =
      .ok ([], (ss ++ [databricks url]).map Section.table) [] := by
  obtain ⟨n, hdocument⟩ := document_fuel h host
  have hsections := grouped_lines (ss ++ [databricks url])
  rw [List.flatMap_append, List.flatMap_singleton] at hsections
  rw [hdocument, hurl, Toml.Read.bind_ok, lines_afterUrl, Toml.Read.map_ok, ← hsections]
  rfl

theorem document_bad (hurl : urlLine host = .bad) :
    Toml.document (keyedText ss ++ (hostSection host).toList) = .bad := by
  obtain ⟨n, hdocument⟩ := document_fuel h host
  rw [hdocument, hurl, Toml.Read.bind_bad]

end Host

end RapidRouter.Core.Discover
