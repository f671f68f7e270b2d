import RapidRouter.Store.Blobs

/-!
# The fleet's rollups

`fleet_rollups` of `router-server/src/usage.rs`, over the blobs that
`ship_partitions` puts into the store. It lists what is under `rollup/` and reads
every file of the window that is not on local disk; a key that the listing cuts
short names no file any more, and no error says so. `rollups_exact_iff` puts the
blob operations and the fleet's view together: all of it is as it should be when
no key begins with the store's prefix, and only then.
-/

namespace RapidRouter.Usage.FleetRows

open Core Store.Blobs

variable {τ : Type}

/-- The days are directories, and are compared as texts; `onDisk` is
`local_rollup_files`. -/
structure Window where
  cutoff : String
  onDisk : List (String × String)

/-- The file of an object, when it is to be read:
`rollup/dt=YYYY-MM-DD/node=<id>/<file>`. -/
def wanted (window : Window) (key : String) : Bool :=
  match Text.split '/' key with
  | _ :: day :: _ :: file :: _ => !(day < window.cutoff) && !window.onDisk.contains (day, file)
  | _ => false

/-- The objects that are read, with what is in them. -/
def fleetReads (window : Window) (pre : String) (service : Service τ) (fuel : Nat) :
    List (String × Bytes) :=
  match listBlobs pre service fuel "rollup/" with
  | none => []
  | some keys =>
    keys.filterMap fun key =>
      if wanted window key then (getBlob pre service key).map (key, ·) else none

/-- The rows of a body are the lines that parse, of what the decoder returns. -/
def fleetRollups {ρ : Type} (rows : Bytes → List ρ) (window : Window) (pre : String)
    (service : Service τ) (fuel : Nat) : List ρ :=
  (fleetReads window pre service fuel).flatMap fun read => rows read.2

/-! ## Shipped files -/

/-- A rollup file as it is shipped; no part of its key has a slash. -/
structure RollupFile where
  day : String
  node : String
  name : String
  plain : '/' ∉ day.toList ∧ '/' ∉ node.toList ∧ '/' ∉ name.toList

/-- `{kind}/{day_name}/node={node}/{name}` -/
def RollupFile.key (file : RollupFile) : String :=
  "/".intercalate ["rollup", file.day, "node=" ++ file.node, file.name]

/-- A file of the window that is not on local disk. -/
def Window.Has (window : Window) (file : RollupFile) : Prop :=
  ¬ file.day < window.cutoff ∧ (file.day, file.name) ∉ window.onDisk

theorem split_key (file : RollupFile) :
    Text.split '/' file.key = ["rollup", file.day, "node=" ++ file.node, file.name] := by
  obtain ⟨hday, hnode, hname⟩ := file.plain
  have hparts : file.key.toList =
      ['/'].intercalate
        (["rollup", file.day, "node=" ++ file.node, file.name].map String.toList) :=
    String.toList_intercalate
  unfold Text.split
  rw [hparts, List.splitOn_intercalate '/' ?_ (by simp)]
  · simp only [List.map_cons, List.map_nil, String.ofList_toList]
  · simp only [List.map_cons, List.map_nil, List.mem_cons, List.not_mem_nil, or_false]
    rintro part (rfl | rfl | rfl | rfl)
    · decide
    · exact hday
    · rw [String.toList_append, List.mem_append, not_or]
      exact ⟨by decide, hnode⟩
    · exact hname

theorem wanted_key {window : Window} {file : RollupFile} :
    wanted window file.key = true ↔ window.Has file := by
  unfold wanted Window.Has
  rw [split_key]
  simp

theorem startsWith_key (file : RollupFile) : Text.startsWith "rollup/" file.key = true := by
  rw [Text.startsWith_iff]
  refine ⟨"/".intercalate [file.day, "node=" ++ file.node, file.name], ?_⟩
  unfold RollupFile.key
  rw [String.intercalate_cons_cons]
  rfl

/-! ## What the fleet sees -/

/-- A file in the store that belongs to the window is read once, as it was put. -/
def Seen (pre : String) (service : Service τ) (puts : List (String × Bytes)) : Prop :=
  ∀ (window : Window) (file : RollupFile) (body : Bytes),
    (blobs puts).get? file.key = some body → window.Has file →
      ∃ n, ∀ fuel ≥ n, (fleetReads window pre service fuel).count (file.key, body) = 1

section
variable {service : Service τ} {pre : String} {puts : List (String × Bytes)}

theorem fleetReads_eq (h : service.Faithful (stored pre puts))
    (hlisted : Listed pre service puts "rollup/") (window : Window) :
    ∃ n, ∀ fuel ≥ n, fleetReads window pre service fuel =
      ((blobs puts).keysFrom "rollup/").filterMap fun key =>
        if wanted window key then ((blobs puts).get? key).map (key, ·) else none := by
  obtain ⟨n, hn⟩ := hlisted
  refine ⟨n, ?_⟩
  intro fuel hfuel
  unfold fleetReads
  rw [hn fuel hfuel]
  dsimp only
  apply List.filterMap_congr
  intro key _
  rw [getBlob_eq h]

theorem nodup_keysFrom (bucket : Bucket) (start : String) : (bucket.keysFrom start).Nodup := by
  exact List.Nodup.filter _ bucket.nodup_keys

theorem mem_keysFrom {bucket : Bucket} {start key : String} :
    key ∈ bucket.keysFrom start ↔
      (∃ body, bucket.get? key = some body) ∧ Text.startsWith start key = true := by
  unfold Bucket.keysFrom
  rw [List.mem_filter, List.mem_map]
  refine and_congr_left fun _ => ?_
  constructor
  · rintro ⟨e, he, rfl⟩
    exact ⟨e.2, OrdMap.mem_entries.mp he⟩
  · rintro ⟨body, hbody⟩
    exact ⟨(key, body), OrdMap.mem_entries.mpr hbody, rfl⟩

theorem seen_of_listed (h : service.Faithful (stored pre puts))
    (hlisted : Listed pre service puts "rollup/") : Seen pre service puts := by
  intro window file body hbody hhas
  obtain ⟨n, hn⟩ := fleetReads_eq h hlisted window
  refine ⟨n, ?_⟩
  intro fuel hfuel
  rw [hn fuel hfuel]
  have hread : (if wanted window file.key then ((blobs puts).get? file.key).map (file.key, ·)
      else none) = some (file.key, body) := by
    rw [if_pos (wanted_key.mpr hhas), hbody]
    rfl
  apply List.count_eq_one_of_mem
  · apply List.Nodup.filterMap _ (nodup_keysFrom (blobs puts) "rollup/")
    -- What is read names the key it was read under.
    intro key key' read hkey hkey'
    rw [Option.mem_def] at hkey hkey'
    split at hkey
    · split at hkey'
      · rw [Option.map_eq_some_iff] at hkey hkey'
        obtain ⟨_, _, rfl⟩ := hkey
        obtain ⟨_, _, heq⟩ := hkey'
        exact (Prod.mk.inj heq).1.symm
      · cases hkey'
    · cases hkey
  · rw [List.mem_filterMap]
    exact ⟨file.key, mem_keysFrom.mpr ⟨⟨body, hbody⟩, startsWith_key file⟩, hread⟩

end

/-! ## The operations together -/

/-- The blobs as their users find them: every listing is of the keys that begin
as asked, every blob that is listed is what was put, and the fleet sees every
rollup. -/
structure Exact (pre : String) (service : Service τ) (puts : List (String × Bytes)) : Prop where
  listed : ∀ start, Listed pre service puts start
  got : ∀ start, ∃ n, ∀ fuel ≥ n, ∀ keys, listBlobs pre service fuel start = some keys →
    ∀ key ∈ keys, ∃ body, (blobs puts).get? key = some body ∧ getBlob pre service key = some body
  seen : Seen pre service puts

/-- The keys that were put. -/
theorem mem_keys_blobs {puts : List (String × Bytes)} {key : String} :
    key ∈ (blobs puts).keysFrom "" ↔ ∃ put ∈ puts, put.1 = key := by
  have hfold : ∀ (puts : List (String × Bytes)) (own : Bucket),
      (∃ body, (puts.foldl (fun own put => own.insert put.1 put.2) own).get? key = some body) ↔
        (∃ body, own.get? key = some body) ∨ ∃ put ∈ puts, put.1 = key := by
    intro puts
    induction puts with
    | nil =>
      intro own
      simp
    | cons put puts ih =>
      intro own
      rw [List.foldl_cons, ih, OrdMap.get?_insert]
      by_cases hkey : key = put.1
      · subst hkey
        simp
      · rw [if_neg hkey]
        simp [Ne.symm hkey]
  rw [mem_keysFrom]
  have hempty : Text.startsWith "" key = true := Text.startsWith_iff.mpr ⟨key, rfl⟩
  unfold blobs OrdMap.ofList
  rw [hfold, OrdMap.get?_empty]
  simp [hempty]

/-- **Blobs under a prefix.** Keys are what they were exactly when none of them
begins with the store's prefix. -/
theorem rollups_exact_iff {service : Service τ} (raw : String) {puts : List (String × Bytes)}
    (h : service.Faithful (stored (normalizePrefix raw) puts)) :
    Exact (normalizePrefix raw) service puts ↔
      normalizePrefix raw = "" ∨
        ∀ put ∈ puts, Text.startsWith (normalizePrefix raw) put.1 = false := by
  constructor
  · intro hexact
    rcases (listed_iff h "").mp (hexact.listed "") with hpre | hfree
    · exact .inl hpre
    · exact .inr fun put hput => hfree put.1 (mem_keys_blobs.mpr ⟨put, hput, rfl⟩)
  · intro hfree
    have hlisted : ∀ start, Listed (normalizePrefix raw) service puts start := by
      intro start
      rw [listed_iff h]
      refine hfree.imp_right ?_
      intro hfree key hkey
      obtain ⟨put, hput, rfl⟩ := mem_keys_blobs.mp
        (mem_keysFrom.mpr ⟨(mem_keysFrom.mp hkey).1, Text.startsWith_iff.mpr ⟨key, rfl⟩⟩)
      exact hfree put hput
    refine ⟨hlisted, ?_, seen_of_listed h (hlisted "rollup/")⟩
    intro start
    obtain ⟨n, hn⟩ := hlisted start
    refine ⟨n, ?_⟩
    intro fuel hfuel keys hkeys key hkey
    rw [hn fuel hfuel] at hkeys
    cases hkeys
    obtain ⟨body, hbody⟩ := (mem_keysFrom.mp hkey).1
    exact ⟨body, hbody, (getBlob_eq h key).trans hbody⟩

/-- Two files, put by two nodes. -/
def twoFiles : List (String × Bytes) :=
  [("rollup/dt=2026-09-01/node=a/a-00000000.jsonl.zst", [1]),
    ("rollup/dt=2026-09-02/node=b/b-00000000.jsonl.zst", [2])]

theorem rollups_exact_team :
    Exact (normalizePrefix "/team/")
      (paged 1 (stored (normalizePrefix "/team/") twoFiles)) twoFiles :=
  (rollups_exact_iff "/team/" (paged_faithful (by decide) _)).mpr (.inr (by decide))

/-- Under the prefix `rollup` the fleet sees nothing, and no file that is listed
can be read. -/
theorem rollup_unseen :
    let service := paged 1 (stored (normalizePrefix "rollup") twoFiles)
    fleetReads ⟨"dt=2026-09-01", []⟩ (normalizePrefix "rollup") service 3 = [] ∧
      listBlobs (normalizePrefix "rollup") service 3 "rollup/" =
        some ["dt=2026-09-01/node=a/a-00000000.jsonl.zst",
          "dt=2026-09-02/node=b/b-00000000.jsonl.zst"] ∧
      getBlob (normalizePrefix "rollup") service "dt=2026-09-01/node=a/a-00000000.jsonl.zst" =
        none := by
  decide +kernel

end RapidRouter.Usage.FleetRows
