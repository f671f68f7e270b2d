import RapidRouter.Core.Discover

/-!
# What discovery comes to

The document of `discover_from_env` is validated like any other, so its
sections decide. Those of the loop always load. That of the Databricks
workspace loads when the token is not empty and the host, which stands in the
document as the environment has it, makes a URL there (`Usable`).
-/

namespace RapidRouter.Core.Discover

open Document (RawKey RawProvider ApiKey preset checkBaseUrl validateKey validateProvider
  validateProviders whenClean gather)

/-! ## What discovery should come to -/

/-- The providers that are discovered, each with the variable of its key. -/
inductive Found (env : String → Option String) : String → String → Prop
  | keyed {name var v : String} : name ∈ discoveryOrder → discoveryEnv name = some var →
    env var = some v → v ≠ "" → Found env name var
  | databricks {host token : String} : env databricksHost = some host →
    env databricksToken = some token → Found env "databricks" databricksToken

/-- A configuration of what was discovered: one that validation accepts, with
one provider for each variable, which has the value of the variable as its
only key. -/
structure Covers (src : Sources) (c : Document.Config) : Prop where
  accepted : ∃ raw, Document.validate src raw = .ok c
  provider : ∀ {name var}, Found src.env name var →
    ∃ p k, c.providers.get? name = some p ∧ p.keys = [k] ∧ src.env var = some k.secret
  only : ∀ {name p}, c.providers.get? name = some p → ∃ var, Found src.env name var

/-- No panic: nothing where nothing is found, and otherwise a configuration of
what is. -/
inductive Discovers (src : Sources) : Except Panic (Option Document.Config) → Prop
  | nothing : (∀ name var, ¬ Found src.env name var) → Discovers src (.ok none)
  | config {c : Document.Config} : Covers src c → Discovers src (.ok (some c))

/-- Discovery comes to what it should. -/
def Meets (read : Reader) (src : Sources) : Prop := Discovers src (discoverFromEnv read src)

/-- Between its quotes the host is the start of a URL, and its line ends where
the code ends it. -/
def HostUrl (host url : String) : Prop :=
  urlLine (Text.trimEndMatches '/' host) = .ok url afterUrl

/-- The host is read beyond its own line: it closes the quotes and goes on
with lines of its own, or opens a string of several lines. -/
def Spills (host : String) : Prop :=
  urlLine (Text.trimEndMatches '/' host) ≠ .bad ∧ ∀ url, ¬ HostUrl host url

/-- If both Databricks variables are set, the token is one and the host makes a
URL. -/
def Usable (env : String → Option String) : Prop :=
  ∀ host token, env databricksHost = some host → env databricksToken = some token →
    token ≠ "" ∧ ∃ url, HostUrl host url ∧
      (Text.startsWith "http://" url || Text.startsWith "https://" url) = true

/-- No host of the environment spills. -/
def Contained (env : String → Option String) : Prop :=
  ∀ host token, env databricksHost = some host → env databricksToken = some token → ¬ Spills host

/-! ## The document is validated -/

/-- Only the provider sections of a document can fail when it has no others. -/
theorem validate_providers (src : Sources) (m : OrdMap String RawProvider)
    (htenant : ∀ e ∈ m.entries, ∀ rk ∈ e.2.keys, rk.tenant = none) :
    ((validateProviders src { providers := m }).1 = [] →
      ∃ c, Document.validate src { providers := m } = .ok c ∧
        c.providers = (validateProviders src { providers := m }).2) ∧
    ((validateProviders src { providers := m }).1 ≠ [] →
      ∃ errors, Document.validate src { providers := m } = .error errors) := by
  have haccounts : Document.validateAccountTenants { providers := m } [] = [] := by
    refine List.flatMap_eq_nil_iff.mpr fun e he => List.flatMap_eq_nil_iff.mpr fun k hk => ?_
    have hmem : k.1 ∈ e.2.keys := by
      rw [← List.zipIdx_map_fst 0 e.2.keys]
      exact List.mem_map_of_mem hk
    rw [htenant e he k.1 hmem]
    rfl
  constructor
  · intro hproviders
    refine ⟨_, if_pos ?_, rfl⟩
    simp only [List.append_eq_nil_iff]
    have hstore : Document.validateStore {} = [] := by decide
    have husage : (Document.validateUsage {}).1 = [] := by decide
    exact ⟨⟨⟨⟨⟨⟨⟨⟨⟨⟨⟨⟨rfl, rfl⟩, hproviders⟩, rfl⟩, rfl⟩, rfl⟩, rfl⟩, haccounts⟩, rfl⟩, rfl⟩,
      hstore⟩, husage⟩, rfl⟩
  · intro hproviders
    refine ⟨_, if_neg fun hnil => hproviders ?_⟩
    simp only [List.append_eq_nil_iff] at hnil
    obtain ⟨⟨⟨⟨⟨⟨⟨⟨⟨⟨⟨⟨_, _⟩, hnone⟩, _⟩, _⟩, _⟩, _⟩, _⟩, _⟩, _⟩, _⟩, _⟩, _⟩ := hnil
    exact hnone

theorem resolve_env {src : Sources} {var : String} (hvar : var ≠ "") :
    resolveSecret src ("env." ++ var) =
      match src.env var with
      | some v =>
        if v = "" then .error ("environment variable `" ++ var ++ "` is set but empty")
        else .ok v
      | none => .error ("environment variable `" ++ var ++ "` is not set") := by
  have hfile : Text.stripPrefix "file:" ("env." ++ var) = none := by
    rw [Option.eq_none_iff_forall_ne_some]
    intro rest hrest
    have htext := congrArg String.toList (Text.stripPrefix_eq.mp hrest)
    rw [String.toList_append, String.toList_append] at htext
    have hleft : "env.".toList = ['e', 'n', 'v', '.'] := by decide
    have hright : "file:".toList = ['f', 'i', 'l', 'e', ':'] := by decide
    rw [hleft, hright] at htext
    exact absurd (List.cons.inj htext).1 (by decide)
  unfold resolveSecret
  rw [hfile, Text.stripPrefix_eq.mpr rfl]
  exact if_neg hvar

/-- The kinds of provider that need a URL and a key and nothing more. -/
def Direct (kind : ProviderKind) : Prop :=
  kind = .openAi ∨ kind = .anthropic ∨ kind = .gemini ∨ kind = .openAiCompat

instance (kind : ProviderKind) : Decidable (Direct kind) :=
  inferInstanceAs (Decidable (_ ∨ _ ∨ _ ∨ _))

/-- The key of a section, as it is checked. -/
def checkedKey (src : Sources) (s : Section) : Checked ApiKey :=
  validateKey src none ("providers." ++ s.name) 0 [] { name := "default", value := "env." ++ s.var }

theorem validateProvider_section {src : Sources} {s : Section} {kind : ProviderKind}
    {base : Option String} (hpreset : preset s.name = some ⟨kind, base, false⟩)
    (hdirect : Direct kind) : validateProvider src s.name s.provider =
      whenClean (checkBaseUrl kind ("providers." ++ s.name) (s.url.or base) ++ (checkedKey src s).1)
        (s.name,
          { kind := kind
            baseUrl := s.url.or base
            auth := .key
            keys := (gather [checkedKey src s]).2
            maxConcurrency := 512
            timeoutSecs := 120
            azure := none
            bedrock := none
            vertex := none
            codex := none }) := by
  have hgather : (gather [checkedKey src s]).1 = (checkedKey src s).1 := List.append_nil _
  rw [← hgather]
  unfold validateProvider
  rw [hpreset]
  -- What the other kinds ask for is not asked of these, whichever it is.
  obtain rfl | rfl | rfl | rfl := hdirect
  all_goals
    show whenClean ([] ++ checkBaseUrl _ _ (s.url.or base) ++ [] ++ [] ++ [] ++
      (gather [checkedKey src s]).1 ++ [] ++ [] ++ [] ++ [] ++ [] ++ [] ++ [] ++ [] ++ []) _ = _
    simp only [List.nil_append, List.append_nil]
    rfl

theorem checkedKey_ok {src : Sources} {s : Section} (hvar : s.var ≠ "") {v : String}
    (hv : src.env s.var = some v) (hne : v ≠ "") :
    ∃ k, checkedKey src s = ([], some k) ∧ k.secret = v := by
  have hresolve : resolveSecret src ("env." ++ s.var) = .ok v := by
    rw [resolve_env hvar, hv]
    exact if_neg hne
  unfold checkedKey validateKey
  dsimp only
  rw [hresolve]
  exact ⟨_, rfl, rfl⟩

theorem checkedKey_error {src : Sources} {s : Section} (hvar : s.var ≠ "")
    (h : ∀ v, src.env s.var = some v → v = "") : (checkedKey src s).1 ≠ [] := by
  have hresolve : ∃ msg, resolveSecret src ("env." ++ s.var) = .error msg := by
    rw [resolve_env hvar]
    cases hv : src.env s.var with
    | none => exact ⟨_, rfl⟩
    | some v => exact ⟨_, if_pos (h v hv)⟩
  obtain ⟨msg, hmsg⟩ := hresolve
  unfold checkedKey validateKey
  dsimp only
  rw [hmsg]
  exact List.append_ne_nil_of_right_ne_nil _ (List.cons_ne_nil _ _)

theorem rawOf_get? {ss : List Section} (hnodup : (ss.map Section.name).Nodup) {name : String}
    {rp : RawProvider} : (rawOf ss).providers.get? name = some rp ↔
      ∃ s ∈ ss, s.name = name ∧ s.provider = rp := by
  have hnames : ((ss.map fun s => (s.name, s.provider)).map Prod.fst).Nodup := by
    rw [List.map_map]
    exact hnodup
  refine (OrdMap.get?_ofList_of_nodup hnames).trans ?_
  rw [List.mem_map]
  simp only [Prod.mk.injEq]

theorem rawOf_tenants {ss : List Section} (hnodup : (ss.map Section.name).Nodup) :
    ∀ e ∈ (rawOf ss).providers.entries, ∀ rk ∈ e.2.keys, rk.tenant = none := by
  rintro ⟨name, rp⟩ he rk hrk
  obtain ⟨s, _, _, rfl⟩ := (rawOf_get? hnodup).mp (OrdMap.mem_entries.mp he)
  rw [List.mem_singleton.mp hrk]

/-- Nothing is wrong with the section. -/
def Section.Loads (src : Sources) (s : Section) : Prop :=
  (validateProvider src s.name s.provider).1 = []

/-- Sections that load give a provider each, and no others. -/
theorem validate_loads {src : Sources} {ss : List Section} (hnodup : (ss.map Section.name).Nodup)
    (hloads : ∀ s ∈ ss, s.Loads src) : ∃ c, Document.validate src (rawOf ss) = .ok c ∧
      ∀ name p, c.providers.get? name = some p ↔
        ∃ s ∈ ss, (validateProvider src s.name s.provider).2 = some (name, p) := by
  have hnone : (validateProviders src (rawOf ss)).1 = [] := by
    refine List.flatMap_eq_nil_iff.mpr fun x hx => ?_
    obtain ⟨⟨name, rp⟩, he, rfl⟩ := List.mem_map.mp hx
    obtain ⟨s, hs, rfl, rfl⟩ := (rawOf_get? hnodup).mp (OrdMap.mem_entries.mp he)
    exact hloads s hs
  obtain ⟨c, hc, hproviders⟩ := (validate_providers src _ (rawOf_tenants hnodup)).1 hnone
  refine ⟨c, hc, fun name p => ?_⟩
  have hget : c.providers.get? name = ((rawOf ss).providers.get? name).bind fun rp =>
      (validateProvider src name rp).2.map Prod.snd := by
    rw [hproviders]
    exact get?_collect (f := fun k rp => validateProvider src k rp)
      Document.validateProvider_key name
  rw [hget, Option.bind_eq_some_iff]
  constructor
  · rintro ⟨rp, hrp, hp⟩
    obtain ⟨s, hs, rfl, rfl⟩ := (rawOf_get? hnodup).mp hrp
    obtain ⟨e, he, rfl⟩ := Option.map_eq_some_iff.mp hp
    have hkey := Document.validateProvider_key _ _ e he
    exact ⟨s, hs, by rw [he, ← hkey]⟩
  · rintro ⟨s, hs, hp⟩
    have hkey : name = s.name := Document.validateProvider_key _ _ _ hp
    subst hkey
    refine ⟨s.provider, (rawOf_get? hnodup).mpr ⟨s, hs, rfl, rfl⟩, ?_⟩
    rw [hp]
    rfl

theorem validate_fails {src : Sources} {ss : List Section} (hnodup : (ss.map Section.name).Nodup)
    {s : Section} (hs : s ∈ ss) (hfails : ¬ s.Loads src) :
    ∃ errors, Document.validate src (rawOf ss) = .error errors := by
  refine (validate_providers src _ (rawOf_tenants hnodup)).2 fun hnone => hfails ?_
  have hmem : (s.name, s.provider) ∈ (rawOf ss).providers.entries :=
    OrdMap.mem_entries.mpr ((rawOf_get? hnodup).mpr ⟨s, hs, rfl, rfl⟩)
  exact collect_errors hnone _ (List.mem_map.mpr ⟨_, hmem, rfl⟩)

/-- What a section needs to load: a URL the adapter accepts, and its variable. -/
theorem loads_iff {src : Sources} {s : Section} {kind : ProviderKind} {base : Option String}
    (hpreset : preset s.name = some ⟨kind, base, false⟩) (hdirect : Direct kind)
    (hvar : s.var ≠ "") : s.Loads src ↔
      checkBaseUrl kind ("providers." ++ s.name) (s.url.or base) = [] ∧
        ∃ v, src.env s.var = some v ∧ v ≠ "" := by
  unfold Section.Loads
  rw [validateProvider_section hpreset hdirect]
  show _ ++ _ = [] ↔ _
  rw [List.append_eq_nil_iff]
  refine and_congr_right fun _ => ⟨fun hkey => ?_, ?_⟩
  · by_contra hnone
    refine checkedKey_error hvar (fun v hv => ?_) hkey
    by_contra hne
    exact hnone ⟨v, hv, hne⟩
  · rintro ⟨v, hv, hne⟩
    obtain ⟨k, hk, _⟩ := checkedKey_ok hvar hv hne
    rw [hk]

/-- A section that loads gives a provider with one key, that of its variable. -/
theorem provider_of_loads {src : Sources} {s : Section} {kind : ProviderKind} {base : Option String}
    (hpreset : preset s.name = some ⟨kind, base, false⟩) (hdirect : Direct kind)
    (hvar : s.var ≠ "") (h : s.Loads src) :
    ∃ p k, (validateProvider src s.name s.provider).2 = some (s.name, p) ∧ p.keys = [k] ∧
      src.env s.var = some k.secret := by
  obtain ⟨_, v, hv, hne⟩ := (loads_iff hpreset hdirect hvar).mp h
  obtain ⟨k, hk, rfl⟩ := checkedKey_ok hvar hv hne
  unfold Section.Loads at h
  rw [validateProvider_section hpreset hdirect] at h ⊢
  refine ⟨_, k, Document.whenClean_ok h, ?_, hv⟩
  show (gather [checkedKey src s]).2 = [k]
  rw [hk]
  rfl

/-! ## The sections of an environment -/

theorem keySections_ok (env : String → Option String) {names : List String}
    (h : ∀ name ∈ names, (discoveryEnv name).isSome) :
    ∃ doc, keySections env names = .ok doc ∧ doc.toList = keyedText (keyed env names) := by
  induction names with
  | nil => exact ⟨"", rfl, rfl⟩
  | cons name names ih =>
    obtain ⟨var, hvar⟩ := Option.isSome_iff_exists.mp (h name List.mem_cons_self)
    obtain ⟨doc, hdoc, htext⟩ := ih fun x hx => h x (List.mem_cons_of_mem _ hx)
    unfold keySections
    rw [hvar, hdoc]
    refine ⟨_, rfl, ?_⟩
    unfold keyed
    rw [String.toList_append, htext, List.filterMap_cons, hvar, Option.bind_some]
    cases isSet env var with
    | true => rfl
    | false => rfl

theorem mem_keyed {env : String → Option String} {names : List String} {s : Section} :
    s ∈ keyed env names ↔ s.name ∈ names ∧ discoveryEnv s.name = some s.var ∧
      isSet env s.var = true ∧ s.url = none := by
  unfold keyed
  rw [List.mem_filterMap]
  constructor
  · rintro ⟨name, hname, hs⟩
    obtain ⟨var, hvar, hs⟩ := Option.bind_eq_some_iff.mp hs
    split at hs
    · next hset =>
      cases hs
      exact ⟨hname, hvar, hset, rfl⟩
    · cases hs
  · obtain ⟨name, url, var⟩ := s
    rintro ⟨hname, hvar, hset, hurl⟩
    dsimp only at hname hvar hset hurl
    subst hurl
    refine ⟨name, hname, ?_⟩
    rw [hvar, Option.bind_some, if_pos hset]

/-- The sections of the loop keep the order of discovery. -/
theorem keyed_names (env : String → Option String) (names : List String) :
    ((keyed env names).map Section.name).Sublist names := by
  induction names with
  | nil => exact .slnil
  | cons name names ih =>
    unfold keyed at ih ⊢
    rw [List.filterMap_cons]
    cases discoveryEnv name with
    | none => exact ih.cons name
    | some var =>
      rw [Option.bind_some]
      cases isSet env var with
      | true => exact ih.cons_cons name
      | false => exact ih.cons name

theorem discoveryEnv_isSome : ∀ name ∈ discoveryOrder, (discoveryEnv name).isSome := by
  decide

/-- Names and variables need no quotes. -/
theorem bare_discovery : ∀ name ∈ discoveryOrder, (discoveryEnv name).all fun var =>
    decide (Toml.Bare name ∧ Toml.Bare var) := by
  decide

/-- What is discovered by a key alone is called at a URL of its own. -/
theorem preset_discovery : ∀ name ∈ discoveryOrder, (preset name).any fun p =>
    decide (Direct p.kind) && !p.keylessOk && p.baseUrl.any (Text.startsWith "https://") := by
  decide

theorem keyed_of_mem {env : String → Option String} {s : Section}
    (h : s ∈ keyed env discoveryOrder) : s.Keyed := by
  obtain ⟨hname, hvar, _, hurl⟩ := mem_keyed.mp h
  have hbare := bare_discovery s.name hname
  rw [hvar, Option.all_some, decide_eq_true_eq] at hbare
  exact ⟨hurl, hbare.1, hbare.2⟩

/-- A section of a well-known provider that is called with a key. -/
structure Section.Direct (s : Section) (kind : ProviderKind) (base : Option String) : Prop where
  preset : preset s.name = some ⟨kind, base, false⟩
  kind : Discover.Direct kind
  var : s.var ≠ ""

theorem direct_of_mem {env : String → Option String} {s : Section}
    (h : s ∈ keyed env discoveryOrder) :
    ∃ kind url, s.Direct kind (some url) ∧ Text.startsWith "https://" url = true := by
  have hpreset := preset_discovery s.name (mem_keyed.mp h).1
  obtain ⟨⟨kind, base, keyless⟩, hp, hall⟩ := (Option.any_eq_true _ _).mp hpreset
  rw [Bool.and_eq_true, Bool.and_eq_true, decide_eq_true_eq, Bool.not_eq_true'] at hall
  obtain ⟨⟨hdirect, hkeyless⟩, hbase⟩ := hall
  obtain ⟨url, hurl, hhttps⟩ := (Option.any_eq_true _ _).mp hbase
  dsimp only at hdirect hkeyless hurl
  subst hkeyless hurl
  refine ⟨kind, url, ⟨hp, hdirect, fun hvar => ?_⟩, hhttps⟩
  have hbare := (keyed_of_mem h).var.ne_nil
  rw [hvar] at hbare
  exact hbare (by decide)

theorem direct_databricks (url : String) : (databricks url).Direct .openAiCompat none where
  preset := rfl
  kind := Or.inr (Or.inr (Or.inr rfl))
  var := by
    show databricksToken ≠ ""
    decide

/-- What the loop writes always loads: its keys are there, and its URLs are
those the providers are known by. -/
theorem loads_of_keyed {src : Sources} {s : Section} (h : s ∈ keyed src.env discoveryOrder) :
    s.Loads src := by
  obtain ⟨kind, url, hdirect, hhttps⟩ := direct_of_mem h
  obtain ⟨_, _, hset, hurl⟩ := mem_keyed.mp h
  obtain ⟨v, hv, hne⟩ := (Option.any_eq_true _ _).mp hset
  refine (loads_iff hdirect.preset hdirect.kind hdirect.var).mpr ⟨?_, v, hv, of_decide_eq_true hne⟩
  rw [hurl, Option.none_or]
  show (if (Text.startsWith "http://" url || Text.startsWith "https://" url) = true then _
    else _) = _
  rw [hhttps, Bool.or_true, if_pos rfl]

theorem loads_databricks {src : Sources} {url token : String}
    (htoken : src.env databricksToken = some token) : (databricks url).Loads src ↔
      token ≠ "" ∧ (Text.startsWith "http://" url || Text.startsWith "https://" url) = true := by
  have hdirect := direct_databricks url
  have hurl : checkBaseUrl .openAiCompat ("providers." ++ (databricks url).name)
      ((databricks url).url.or none) = [] ↔
        (Text.startsWith "http://" url || Text.startsWith "https://" url) = true := by
    show (if (Text.startsWith "http://" url || Text.startsWith "https://" url) = true then []
      else [_]) = [] ↔ _
    split
    · next h => exact ⟨fun _ => h, fun _ => rfl⟩
    · next h => exact ⟨fun hnil => absurd hnil (List.cons_ne_nil _ _), fun hhttp => absurd hhttp h⟩
  rw [loads_iff hdirect.preset hdirect.kind hdirect.var, hurl, and_comm]
  refine and_congr_left fun _ => ?_
  show (∃ v, src.env databricksToken = some v ∧ v ≠ "") ↔ _
  rw [htoken]
  constructor
  · rintro ⟨v, hv, hne⟩
    cases hv
    exact hne
  · exact fun hne => ⟨token, rfl, hne⟩

/-! ## What discovery comes to -/

/-- The result of a document that was read. -/
def outcome : Except (List ConfigError) Document.Config → Except Panic (Option Document.Config)
  | .error errors => .error (.invalid (.invalid errors))
  | .ok c => .ok (some c)

section Outcome

variable {read : Reader} {src : Sources}

/-- Of a document that is read, discovery does what it should exactly when
every section of it loads. -/
theorem meets_iff_loads {ss : List Section} (hnodup : (ss.map Section.name).Nodup)
    (hdirect : ∀ s ∈ ss, ∃ kind base, s.Direct kind base)
    (hfound : ∀ name var, Found src.env name var ↔ ∃ s ∈ ss, s.name = name ∧ s.var = var)
    (h : discoverFromEnv read src = outcome (Document.validate src (rawOf ss))) :
    Meets read src ↔ ∀ s ∈ ss, s.Loads src := by
  unfold Meets
  rw [h]
  constructor
  · intro hmeets s hs
    by_contra hfails
    obtain ⟨errors, herrors⟩ := validate_fails hnodup hs hfails
    rw [herrors] at hmeets
    cases hmeets
  · intro hloads
    obtain ⟨c, hc, hproviders⟩ := validate_loads hnodup hloads
    rw [hc]
    refine .config ⟨⟨_, hc⟩, ?_, ?_⟩
    · intro name var hname
      obtain ⟨s, hs, rfl, rfl⟩ := (hfound name var).mp hname
      obtain ⟨kind, base, hs'⟩ := hdirect s hs
      obtain ⟨p, k, hp, hkeys, hsecret⟩ :=
        provider_of_loads hs'.preset hs'.kind hs'.var (hloads s hs)
      exact ⟨p, k, (hproviders _ _).mpr ⟨s, hs, hp⟩, hkeys, hsecret⟩
    · intro name p hp
      obtain ⟨s, hs, hsome⟩ := (hproviders name p).mp hp
      have hname : name = s.name := Document.validateProvider_key _ _ _ hsome
      exact ⟨s.var, (hfound name s.var).mpr ⟨s, hs, hname.symm, rfl⟩⟩

theorem keyed_nodup (env : String → Option String) :
    ((keyed env discoveryOrder).map Section.name).Nodup :=
  (keyed_names env discoveryOrder).nodup (by decide)

/-- The loop finds every variable that is set. -/
theorem found_keyed {env : String → Option String} {name var v : String}
    (hname : name ∈ discoveryOrder) (hvar : discoveryEnv name = some var) (hv : env var = some v)
    (hne : v ≠ "") : ∃ s ∈ keyed env discoveryOrder, s.name = name ∧ s.var = var := by
  have hset : isSet env var = true := by
    unfold isSet
    rw [hv, Option.any_some]
    exact decide_eq_true hne
  exact ⟨⟨name, none, var⟩, mem_keyed.mpr ⟨hname, hvar, hset, rfl⟩, rfl, rfl⟩

theorem keyed_found {env : String → Option String} {s : Section}
    (h : s ∈ keyed env discoveryOrder) : Found env s.name s.var := by
  obtain ⟨hname, hvar, hset, _⟩ := mem_keyed.mp h
  obtain ⟨v, hv, hne⟩ := (Option.any_eq_true _ _).mp hset
  exact .keyed hname hvar hv (of_decide_eq_true hne)

/-- Without both Databricks variables only the loop finds something. -/
theorem found_iff_keyed {env : String → Option String}
    (hno : ∀ host token, env databricksHost = some host → env databricksToken ≠ some token)
    (name var : String) :
    Found env name var ↔ ∃ s ∈ keyed env discoveryOrder, s.name = name ∧ s.var = var := by
  constructor
  · intro h
    cases h with
    | keyed hname hvar hv hne => exact found_keyed hname hvar hv hne
    | databricks hhost htoken => exact absurd htoken (hno _ _ hhost)
  · rintro ⟨s, hs, rfl, rfl⟩
    exact keyed_found hs

theorem found_iff_host {env : String → Option String} {host token : String}
    (hhost : env databricksHost = some host) (htoken : env databricksToken = some token)
    (url name var : String) : Found env name var ↔
      ∃ s ∈ keyed env discoveryOrder ++ [databricks url], s.name = name ∧ s.var = var := by
  constructor
  · intro h
    cases h with
    | keyed hname hvar hv hne =>
      obtain ⟨s, hs, hsame⟩ := found_keyed hname hvar hv hne
      exact ⟨s, List.mem_append_left _ hs, hsame⟩
    | databricks _ _ =>
      exact ⟨databricks url, List.mem_append_right _ (List.mem_singleton_self _), rfl, rfl⟩
  · rintro ⟨s, hs, rfl, rfl⟩
    rcases List.mem_append.mp hs with hs | hs
    · exact keyed_found hs
    · rw [List.mem_singleton.mp hs]
      exact .databricks hhost htoken

theorem host_nodup (env : String → Option String) (url : String) :
    ((keyed env discoveryOrder ++ [databricks url]).map Section.name).Nodup := by
  rw [List.map_append, List.map_singleton]
  refine List.nodup_append.mpr ⟨keyed_nodup env, List.nodup_singleton _, ?_⟩
  intro name hname other hother heq
  have horder := (keyed_names env discoveryOrder).subset hname
  rw [heq, List.mem_singleton.mp hother] at horder
  have hnot : "databricks" ∉ discoveryOrder := by decide
  exact hnot horder

/-- What discovery reads back: the sections of the loop and that of the
workspace. -/
theorem discover_eq (read : Reader) (src : Sources) :
    ∃ doc, doc.toList =
        keyedText (keyed src.env discoveryOrder) ++ (databricksSection src.env).toList ∧
      discoverFromEnv read src = loadDiscovered read src doc := by
  obtain ⟨sections, hsections, htext⟩ := keySections_ok src.env discoveryEnv_isSome
  refine ⟨sections ++ databricksSection src.env, ?_, ?_⟩
  · rw [String.toList_append, htext]
  · unfold discoverFromEnv
    rw [hsections]

/-- The document with a workspace in it. -/
theorem discover_workspace (read : Reader) {src : Sources} {host token : String}
    (hhost : src.env databricksHost = some host) (htoken : src.env databricksToken = some token) :
    ∃ doc, doc ≠ "" ∧
    doc.toList = keyedText (keyed src.env discoveryOrder) ++
      (hostSection (Text.trimEndMatches '/' host)).toList ∧
    discoverFromEnv read src = loadDiscovered read src doc := by
  obtain ⟨doc, htext, hdiscover⟩ := discover_eq read src
  have hsection : databricksSection src.env = hostSection (Text.trimEndMatches '/' host) := by
    unfold databricksSection
    rw [hhost, htoken]
  rw [hsection] at htext
  refine ⟨doc, fun hempty => ?_, htext, hdiscover⟩
  rw [hempty] at htext
  have hnone := (List.append_eq_nil_iff.mp htext.symm).2
  unfold hostSection at hnone
  rw [String.toList_append, String.toList_append, String.toList_append, List.append_assoc,
    List.append_assoc] at hnone
  exact headerLine_ne_nil _ (List.append_eq_nil_iff.mp hnone).1

theorem loadDiscovered_ok {doc : String} {raw : Document.RawConfig} (hdoc : doc ≠ "")
    (hraw : read .toml doc = .ok raw) :
    loadDiscovered read src doc = outcome (Document.validate src raw) := by
  unfold loadDiscovered fromStrWithEnv
  rw [if_neg hdoc, hraw]
  dsimp only
  cases Document.validate src raw with
  | error errors => rfl
  | ok c => rfl

theorem loadDiscovered_error {doc msg : String} (hdoc : doc ≠ "")
    (hread : read .toml doc = .error msg) :
    loadDiscovered read src doc = .error (.invalid (.parse msg)) := by
  unfold loadDiscovered fromStrWithEnv
  rw [if_neg hdoc, hread]

variable (hreads : Reads (read .toml))

include hreads

/-- Without a workspace discovery always does what it should. -/
theorem meets_keyed
    (hno : ∀ host token, src.env databricksHost = some host →
      src.env databricksToken ≠ some token) : Meets read src := by
  obtain ⟨doc, htext, hdiscover⟩ := discover_eq read src
  have hsection : databricksSection src.env = "" := by
    unfold databricksSection
    split
    · next host token hhost htoken => exact absurd htoken (hno _ _ hhost)
    · rfl
  rw [hsection] at htext
  have htext : doc.toList = keyedText (keyed src.env discoveryOrder) :=
    htext.trans (List.append_nil _)
  by_cases hdoc : doc = ""
  · -- Nothing was written, so no variable of the loop is set.
    have hnone : keyed src.env discoveryOrder = [] := by
      have hlength := length_keyedText (keyed src.env discoveryOrder)
      rw [← htext, hdoc] at hlength
      exact List.length_eq_zero_iff.mp (by simpa using hlength)
    unfold Meets
    rw [hdiscover]
    unfold loadDiscovered
    rw [if_pos hdoc]
    refine .nothing fun name var hname => ?_
    obtain ⟨s, hs, _⟩ := (found_iff_keyed hno name var).mp hname
    rw [hnone] at hs
    exact absurd hs List.not_mem_nil
  · have hdocument : Toml.document doc.toList =
        .ok ([], (keyed src.env discoveryOrder).map Section.table) [] := by
      rw [htext]
      exact document_keyedText fun s hs => keyed_of_mem hs
    have hread : read .toml doc = .ok (rawOf (keyed src.env discoveryOrder)) :=
      hreads.reads hdocument (rawConfig_tables (keyed_nodup src.env))
    refine (meets_iff_loads (keyed_nodup src.env) (fun s hs => ?_) (found_iff_keyed hno)
      (hdiscover.trans (loadDiscovered_ok hdoc hread))).mpr fun s hs => loads_of_keyed hs
    obtain ⟨kind, url, hdirect, _⟩ := direct_of_mem hs
    exact ⟨kind, some url, hdirect⟩

section Workspace

variable {host token : String} (hhost : src.env databricksHost = some host)
  (htoken : src.env databricksToken = some token)

include hhost htoken

/-- A host that makes a URL is all right if the URL and the token are. -/
theorem meets_iff_of_url {url : String} (hurl : HostUrl host url) : Meets read src ↔
    token ≠ "" ∧ (Text.startsWith "http://" url || Text.startsWith "https://" url) = true := by
  obtain ⟨doc, hdoc, htext, hdiscover⟩ := discover_workspace read hhost htoken
  have hdocument : Toml.document doc.toList =
      .ok ([], (keyed src.env discoveryOrder ++ [databricks url]).map Section.table) [] := by
    rw [htext]
    exact document_host (fun s hs => keyed_of_mem hs) hurl
  have hread : read .toml doc = .ok (rawOf (keyed src.env discoveryOrder ++ [databricks url])) :=
    hreads.reads hdocument (rawConfig_tables (host_nodup src.env url))
  refine (meets_iff_loads (host_nodup src.env url) (fun s hs => ?_)
    (found_iff_host hhost htoken url) (hdiscover.trans (loadDiscovered_ok hdoc hread))).trans ?_
  · rcases List.mem_append.mp hs with hs | hs
    · obtain ⟨kind, url', hdirect, _⟩ := direct_of_mem hs
      exact ⟨kind, some url', hdirect⟩
    · rw [List.mem_singleton.mp hs]
      exact ⟨_, _, direct_databricks url⟩
  · rw [← loads_databricks htoken]
    constructor
    · intro hall
      exact hall _ (List.mem_append_right _ (List.mem_singleton_self _))
    · intro hhost' s hs
      rcases List.mem_append.mp hs with hs | hs
      · exact loads_of_keyed hs
      · rw [List.mem_singleton.mp hs]
        exact hhost'

/-- A host that TOML refuses is the end of discovery. -/
theorem not_meets_of_bad (hbad : urlLine (Text.trimEndMatches '/' host) = .bad) :
    ¬ Meets read src := by
  obtain ⟨doc, hdoc, htext, hdiscover⟩ := discover_workspace read hhost htoken
  have hdocument : Toml.document doc.toList = .bad := by
    rw [htext]
    exact document_bad (fun s hs => keyed_of_mem hs) hbad
  obtain ⟨msg, hmsg⟩ := hreads.refuses hdocument
  unfold Meets
  rw [hdiscover, loadDiscovered_error hdoc hmsg]
  intro h
  cases h

end Workspace

end Outcome

/-! ## Which hosts make a URL -/

theorem afterHost_text : afterHost.toList =
    "/serving-endpoint".toList ++ 's' :: '"' :: '\n' :: afterUrl := by
  decide

theorem mem_trimEndMatches {c d : Char} {s : String} (h : d ∈ (Text.trimEndMatches c s).toList) :
    d ∈ s.toList := by
  unfold Text.trimEndMatches at h
  rw [String.toList_ofList, List.mem_reverse] at h
  exact List.mem_reverse.mp ((List.dropWhile_sublist _).subset h)

/-- A host without quotes, backslashes and control characters is taken as it
stands. -/
theorem hostUrl_of_plain {host : String} (h : Toml.Plain (Text.trimEndMatches '/' host)) :
    HostUrl host (Text.trimEndMatches '/' host ++ "/serving-endpoints") := by
  have hsuffix : Toml.Plain "/serving-endpoints" := by decide
  have hread := Toml.string_plain (h.append hsuffix) ('\n' :: afterUrl)
  have htext : (Text.trimEndMatches '/' host ++ "/serving-endpoints").toList ++
      '"' :: '\n' :: afterUrl = (Text.trimEndMatches '/' host).toList ++ afterHost.toList := by
    have hend : "/serving-endpoints".toList = "/serving-endpoint".toList ++ ['s'] := by
      decide
    rw [String.toList_append, afterHost_text, hend]
    simp only [List.append_assoc, List.cons_append, List.nil_append]
  rw [htext] at hread
  unfold HostUrl urlLine
  rw [hread]
  rfl

/-- Only a host with a quote in it gets beyond its line. -/
theorem quote_of_spills {host : String} (h : Spills host) : '"' ∈ host.toList := by
  by_contra hnone
  let trimmed := Text.trimEndMatches '/' host
  have hquote : '"' ∉ trimmed.toList ++ "/serving-endpoint".toList := by
    intro hmem
    rcases List.mem_append.mp hmem with hmem | hmem
    · exact hnone (mem_trimEndMatches hmem)
    · exact absurd hmem (by decide)
  have htext : trimmed.toList ++ afterHost.toList =
      (trimmed.toList ++ "/serving-endpoint".toList) ++ 's' :: '"' :: '\n' :: afterUrl := by
    rw [afterHost_text, List.append_assoc]
  have hends := Toml.endsAt_string (d := 's') (by decide) (by decide) (by decide) (by decide) hquote
    ('\n' :: afterUrl)
  rw [← htext] at hends
  rcases hends with hbad | ⟨url, hurl⟩
  · refine h.1 ?_
    unfold urlLine
    rw [hbad]
    rfl
  · refine h.2 url ?_
    unfold HostUrl urlLine
    rw [hurl]
    rfl

/-- Discovery does what it should when the host makes a URL, and of the hosts
that stay on their line with no other. -/
theorem meets_iff_usable {read : Reader} (hreads : Reads (read .toml)) (src : Sources) :
    (Usable src.env → Meets read src) ∧
      (Contained src.env → (Meets read src ↔ Usable src.env)) := by
  by_cases hno : ∀ host token, src.env databricksHost = some host →
      src.env databricksToken ≠ some token
  · have hmeets := meets_keyed hreads hno
    have husable : Usable src.env := fun host token hhost htoken => absurd htoken (hno _ _ hhost)
    exact ⟨fun _ => hmeets, fun _ => ⟨fun _ => husable, fun _ => hmeets⟩⟩
  · push Not at hno
    obtain ⟨host, token, hhost, htoken⟩ := hno
    have hmeets : Usable src.env → Meets read src := by
      intro husable
      obtain ⟨hne, url, hurl, hhttp⟩ := husable host token hhost htoken
      exact (meets_iff_of_url hreads hhost htoken hurl).mpr ⟨hne, hhttp⟩
    refine ⟨hmeets, fun hcontained => ⟨fun h => ?_, hmeets⟩⟩
    have hone : ∃ url, HostUrl host url := by
      by_contra hnone
      refine hcontained host token hhost htoken ⟨fun hbad => ?_, fun url hurl => hnone ⟨url, hurl⟩⟩
      exact not_meets_of_bad hreads hhost htoken hbad h
    obtain ⟨url, hurl⟩ := hone
    obtain ⟨hne, hhttp⟩ := (meets_iff_of_url hreads hhost htoken hurl).mp h
    intro host' token' hhost' htoken'
    rw [hhost, Option.some.injEq] at hhost'
    rw [htoken, Option.some.injEq] at htoken'
    subst hhost' htoken'
    exact ⟨hne, url, hurl, hhttp⟩

/-! ## A reader of the fragment -/

/-- The part of `toml::from_str` that the documents written here need. -/
def readFragment : Reader
  | .json, _ => .error "not a document of the fragment"
  | .toml, text =>
    match Toml.document text.toList with
    | .ok doc [] =>
      match rawConfig doc with
      | some raw => .ok raw
      | none => .error "not a document of provider sections"
    | _ => .error "not a document of the fragment"

theorem reads_fragment : Reads (readFragment .toml) where
  reads := by
    intro text doc raw hdoc hraw
    unfold readFragment
    dsimp only
    rw [hdoc]
    dsimp only
    rw [hraw]
  refuses := by
    intro text hbad
    unfold readFragment
    dsimp only
    rw [hbad]
    exact ⟨_, rfl⟩

/-- An environment with a workspace and nothing else. -/
def workspace (host token : String) : Sources where
  env var :=
    if var = databricksHost then some host else if var = databricksToken then some token else none
  file _ := none

theorem workspace_env {host token host' token' : String}
    (hhost : (workspace host token).env databricksHost = some host')
    (htoken : (workspace host token).env databricksToken = some token') :
    host' = host ∧ token' = token := by
  have hother : databricksToken ≠ databricksHost := by decide
  unfold workspace at hhost htoken
  dsimp only at hhost htoken
  rw [if_pos rfl, Option.some.injEq] at hhost
  rw [if_neg hother, if_pos rfl, Option.some.injEq] at htoken
  exact ⟨hhost.symm, htoken.symm⟩

theorem usable_workspace {host token url : String} (hne : token ≠ "") (hurl : HostUrl host url)
    (hhttp : (Text.startsWith "http://" url || Text.startsWith "https://" url) = true) :
    Usable (workspace host token).env := by
  intro host' token' hhost htoken
  obtain ⟨rfl, rfl⟩ := workspace_env hhost htoken
  exact ⟨hne, url, hurl, hhttp⟩

theorem contained_workspace {host token url : String} (hurl : HostUrl host url) :
    Contained (workspace host token).env := by
  intro host' token' hhost htoken
  obtain ⟨rfl, rfl⟩ := workspace_env hhost htoken
  exact fun hspills => hspills.2 url hurl

theorem hostUrl_workspace : HostUrl "https://my-ws.cloud.databricks.com/"
    "https://my-ws.cloud.databricks.com/serving-endpoints" := by
  unfold HostUrl
  decide +kernel

theorem workspace_discovered :
    Meets readFragment (workspace "https://my-ws.cloud.databricks.com/" "dapi-abc") ∧
      (Meets readFragment (workspace "https://my-ws.cloud.databricks.com/" "dapi-abc") ↔
        Usable (workspace "https://my-ws.cloud.databricks.com/" "dapi-abc").env) := by
  have htoken : "dapi-abc" ≠ "" := by decide
  have husable := usable_workspace htoken hostUrl_workspace (by decide)
  exact ⟨(meets_iff_usable reads_fragment _).1 husable,
    (meets_iff_usable reads_fragment _).2 (contained_workspace hostUrl_workspace)⟩

/-- A host without a scheme: the document that was generated does not load. -/
theorem discovery_panics :
    ¬ ∀ read : Reader, Reads (read .toml) → ∀ src, Meets read src := by
  intro h
  have hmeets := h readFragment reads_fragment
    (workspace "dbc-1234.cloud.databricks.com" "dapi-abc")
  have hpanic : discoverFromEnv readFragment
      (workspace "dbc-1234.cloud.databricks.com" "dapi-abc") =
        .error (.invalid (.invalid
          [⟨"providers.databricks.base_url", "must start with http:// or https://"⟩])) := by
    decide +kernel
  unfold Meets at hmeets
  rw [hpanic] at hmeets
  cases hmeets

end RapidRouter.Core.Discover
