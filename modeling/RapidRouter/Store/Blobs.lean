import RapidRouter.Core.Text
import RapidRouter.Lib.Keyset
import RapidRouter.Lib.OrdMap

/-!
# Blobs in a bucket

`put_blob`, `list_blobs` and `get_blob` of `backend/s3.rs`. A blob is put under
its key with the store's prefix before it, and a listing takes the prefix off
again, as often as it stands there. So the keys of a listing are the keys that
were put unless one of them begins with the prefix itself (`listed_iff`).

S3 is a service that is asked for pages and objects. It is `Faithful` to a bucket
when the pages that follow on one another are the keys of the bucket that begin
as asked, and an object is what is in the bucket.
-/

namespace RapidRouter.Store.Blobs

open Core Keyset

abbrev Bytes := List UInt8

/-! ## The service -/

/-- The fields of a response to `ListObjectsV2` that are read. -/
structure Page (τ : Type) where
  contents : List (Option String)
  isTruncated : Option Bool
  nextContinuationToken : Option τ

/-- `ListObjectsV2` of a prefix from a token on, and `GetObject`. -/
structure Service (τ : Type) where
  listObjects : String → Option τ → Page τ
  getObject : String → Option Bytes

variable {τ : Type}

/-- The keys of a page, and the token to go on with. -/
def Page.read (page : Page τ) : List String × Option τ :=
  (page.contents.filterMap id,
    if page.isTruncated.getD false then page.nextContinuationToken else none)

abbrev Bucket := OrdMap String Bytes

/-- The keys of a bucket that begin with a text. -/
def Bucket.keysFrom (bucket : Bucket) (start : String) : List String :=
  (bucket.entries.map (·.1)).filter (Text.startsWith start)

structure Service.Faithful (service : Service τ) (bucket : Bucket) : Prop where
  listing : ∀ full,
    Follows (fun token => (service.listObjects full token).read) none (bucket.keysFrom full)
  getting : ∀ key, service.getObject key = bucket.get? key

/-- A service with pages of one size, whose tokens are places in the listing. -/
def paged (size : Nat) (bucket : Bucket) : Service Nat where
  listObjects := fun full token =>
    let rest := (bucket.keysFrom full).drop (token.getD 0)
    { contents := (rest.take size).map some
      isTruncated := some (size < rest.length)
      nextContinuationToken := if size < rest.length then some (token.getD 0 + size) else none }
  getObject := fun key => bucket.get? key

theorem paged_read (size : Nat) (bucket : Bucket) (full : String) (token : Option Nat) :
    ((paged size bucket).listObjects full token).read =
      (((bucket.keysFrom full).drop (token.getD 0)).take size,
        if size < ((bucket.keysFrom full).drop (token.getD 0)).length then
          some (token.getD 0 + size) else none) := by
  unfold Page.read paged
  dsimp only
  rw [List.filterMap_map]
  refine Prod.ext (List.filterMap_some) ?_
  by_cases hmore : size < ((bucket.keysFrom full).drop (token.getD 0)).length
  · rw [if_pos hmore]
    exact if_pos (decide_eq_true hmore)
  · rw [if_neg hmore]
    exact ite_self _

theorem paged_faithful {size : Nat} (hsize : 0 < size) (bucket : Bucket) :
    (paged size bucket).Faithful bucket where
  listing := by
    intro full
    have hrest : ∀ n token, ((bucket.keysFrom full).drop (token.getD 0)).length = n →
        Follows (fun token => ((paged size bucket).listObjects full token).read) token
          ((bucket.keysFrom full).drop (token.getD 0)) := by
      intro n
      induction n using Nat.strong_induction_on with
      | h n ih =>
        intro token hn
        have hread := paged_read size bucket full token
        by_cases hmore : size < ((bucket.keysFrom full).drop (token.getD 0)).length
        · rw [if_pos hmore] at hread
          have hnext := ih (n - size) (by omega) (some (token.getD 0 + size)) (by
            rw [← hn, List.length_drop, List.length_drop, Option.getD_some]
            omega)
          rw [Option.getD_some, ← List.drop_drop] at hnext
          have hall : Follows (fun token => ((paged size bucket).listObjects full token).read) token
              (((bucket.keysFrom full).drop (token.getD 0)).take size ++
                ((bucket.keysFrom full).drop (token.getD 0)).drop size) := .more hread hnext
          rw [List.take_append_drop] at hall
          exact hall
        · rw [if_neg hmore, List.take_of_length_le (Nat.le_of_not_lt hmore)] at hread
          exact .last hread
    exact hrest _ none rfl
  getting := fun _ => rfl

/-! ## The store -/

/-- `normalize_prefix` -/
def normalizePrefix (raw : String) : String :=
  let trimmed := Text.trimMatches '/' raw
  if trimmed = "" then "" else trimmed ++ "/"

section
variable (pre : String)

def putBlob (bucket : Bucket) (key : String) (body : Bytes) : Bucket :=
  bucket.insert (pre ++ key) body

def listBlobs (service : Service τ) (fuel : Nat) (start : String) : Option (List String) :=
  (collect (fun token => (service.listObjects (pre ++ start) token).read) fuel none).map
    (List.map (Text.trimStartMatches pre))

def getBlob (service : Service τ) (key : String) : Option Bytes := service.getObject (pre ++ key)

/-- The bucket after blobs were put. -/
def stored (puts : List (String × Bytes)) : Bucket :=
  puts.foldl (fun bucket put => putBlob pre bucket put.1 put.2) .empty

end

/-- The blobs by their own keys, each as it was put last. -/
def blobs (puts : List (String × Bytes)) : Bucket := OrdMap.ofList puts

/-! ## Keys with a prefix -/

theorem append_lt_append (pre a b : String) : pre ++ a < pre ++ b ↔ a < b := by
  rw [String.lt_iff_toList_lt, String.lt_iff_toList_lt, String.toList_append, String.toList_append]
  induction pre.toList with
  | nil => exact Iff.rfl
  | cons c cs ih =>
    rw [List.cons_append, List.cons_append, List.cons_lt_cons_self]
    exact ih

theorem append_right_inj (pre : String) {a b : String} : pre ++ a = pre ++ b ↔ a = b := by
  constructor
  · intro h
    have hlist := congrArg String.toList h
    rw [String.toList_append, String.toList_append] at hlist
    exact String.toList_injective (List.append_cancel_left hlist)
  · rintro rfl
    rfl

/-- The bucket has the blobs, each key with the prefix. -/
theorem entries_stored (pre : String) (puts : List (String × Bytes)) :
    (stored pre puts).entries = (blobs puts).entries.map fun e => (pre ++ e.1, e.2) := by
  have hfold : ∀ (puts : List (String × Bytes)) (bucket own : Bucket),
      bucket.entries = own.entries.map (fun e => (pre ++ e.1, e.2)) →
      (puts.foldl (fun bucket put => putBlob pre bucket put.1 put.2) bucket).entries =
        (puts.foldl (fun own put => own.insert put.1 put.2) own).entries.map
          fun e => (pre ++ e.1, e.2) := by
    intro puts
    induction puts with
    | nil => exact fun _ _ h => h
    | cons put puts ih =>
      intro bucket own h
      apply ih
      show Entries.insert (pre ++ put.1) put.2 bucket.entries = _
      rw [h]
      exact Entries.insert_mapKeys (append_lt_append pre) put.1 put.2 own.entries
  exact hfold puts .empty .empty rfl

theorem get?_stored (pre : String) (puts : List (String × Bytes)) (key : String) :
    (stored pre puts).get? (pre ++ key) = (blobs puts).get? key := by
  unfold OrdMap.get?
  rw [entries_stored]
  induction (blobs puts).entries with
  | nil => rfl
  | cons e rest ih =>
    obtain ⟨k, x⟩ := e
    show (if pre ++ key = pre ++ k then some x else _) = if key = k then some x else _
    by_cases hkey : key = k
    · rw [if_pos hkey, if_pos ((append_right_inj pre).mpr hkey)]
    · rw [if_neg hkey, if_neg (fun h => hkey ((append_right_inj pre).mp h))]
      exact ih

theorem startsWith_append (pre start key : String) :
    Text.startsWith (pre ++ start) (pre ++ key) = Text.startsWith start key := by
  unfold Text.startsWith
  rw [String.toList_append, String.toList_append]
  induction pre.toList with
  | nil => rfl
  | cons c cs ih =>
    show (c == c && _) = _
    rw [beq_self_eq_true, Bool.true_and]
    exact ih

theorem keysFrom_stored (pre : String) (puts : List (String × Bytes)) (start : String) :
    (stored pre puts).keysFrom (pre ++ start) =
      ((blobs puts).keysFrom start).map (pre ++ ·) := by
  unfold Bucket.keysFrom
  rw [entries_stored, List.map_map, List.filter_map, List.filter_map, List.map_map]
  congr 1
  apply List.filter_congr
  intro e _
  exact startsWith_append pre start e.1

/-! ## Listings -/

section
variable {service : Service τ} {pre : String} {puts : List (String × Bytes)}

/-- What a listing returns, once its pages are read. -/
theorem listBlobs_eq (h : service.Faithful (stored pre puts)) (start : String) :
    ∃ n, ∀ fuel ≥ n, listBlobs pre service fuel start =
      some (((blobs puts).keysFrom start).map fun key => Text.trimStartMatches pre (pre ++ key)) := by
  obtain ⟨n, hn⟩ := (h.listing (pre ++ start)).collect_eq
  refine ⟨n, ?_⟩
  intro fuel hfuel
  unfold listBlobs
  rw [hn fuel hfuel, keysFrom_stored, Option.map_some, List.map_map]
  rfl

theorem getBlob_eq (h : service.Faithful (stored pre puts)) (key : String) :
    getBlob pre service key = (blobs puts).get? key := by
  unfold getBlob
  rw [h.getting, get?_stored]

/-- A listing returns the keys of the blobs, in their order. -/
def Listed (pre : String) (service : Service τ) (puts : List (String × Bytes)) (start : String) :
    Prop :=
  ∃ n, ∀ fuel ≥ n, listBlobs pre service fuel start = some ((blobs puts).keysFrom start)

/-- No key begins with the prefix that is put before it. -/
def Distinct (pre : String) (keys : List String) : Prop :=
  pre = "" ∨ ∀ key ∈ keys, Text.startsWith pre key = false

theorem listed_iff (h : service.Faithful (stored pre puts)) (start : String) :
    Listed pre service puts start ↔ Distinct pre ((blobs puts).keysFrom start) := by
  obtain ⟨n, hn⟩ := listBlobs_eq h start
  constructor
  · rintro ⟨m, hm⟩
    by_cases hpre : pre = ""
    · exact .inl hpre
    · right
      intro key hkey
      have hsame := (hn (max n m) (le_max_left n m)).symm.trans (hm (max n m) (le_max_right n m))
      rw [Option.some.injEq] at hsame
      rw [← hsame] at hkey
      obtain ⟨own, _, rfl⟩ := List.mem_map.mp hkey
      exact Text.trimStartMatches_done hpre (pre ++ own)
  · intro hdistinct
    refine ⟨n, ?_⟩
    intro fuel hfuel
    rw [hn fuel hfuel]
    have htrim : ∀ key ∈ (blobs puts).keysFrom start,
        Text.trimStartMatches pre (pre ++ key) = key := by
      intro key hkey
      rcases hdistinct with rfl | hfree
      · rw [String.empty_append]
        exact Text.trimStartMatches_empty key
      · exact Text.trimStartMatches_append (hfree key hkey)
    rw [List.map_congr_left htrim, List.map_id']

end

end RapidRouter.Store.Blobs
