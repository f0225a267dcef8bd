/-
  Canari.Chat.HistoryManifest — what a device tells another it holds of a conversation
  (`frontend/src/lib/utils/chat/historyManifest.ts`, `utils/hash32.ts`).

  A digest lists the ids of a small store. Of a large one it has a fingerprint for each slice of
  the id space, at a depth that follows from the size of the store it describes; the reader slices
  its own store at that depth.
  - `mem_pushPrefixes`, `mem_pullPrefixes`: a slice is sent, or asked for, when the two stores do
    not hold the same ids in it.
  - `isEmptyHistoryDiff_iff`: the diff is empty exactly when the stores hold the same ids.
  - `parseHistoryDigest_build`: a digest is read as it was built.
-/

import Canari.Lib.JsMap
import Canari.Lib.JsText

namespace Canari.Chat.HistoryManifest

open Lib Lib.JsText List
open Lib.Utf16 (JsString utf8Of)

/-! ## Hashes -/

def mixedHash32 (id : JsString) : UInt32 :=
  let hash := id.foldl (fun hash c => (hash ^^^ (c.toUInt32 &&& 0xff)) * 0x01000193) 0x811c9dc5
  let hash := hash ^^^ (hash >>> 16)
  let hash := hash * 0x85ebca6b
  let hash := hash ^^^ (hash >>> 13)
  let hash := hash * 0xc2b2ae35
  hash ^^^ (hash >>> 16)

structure WebCrypto where
  sha256 : Bytes → Bytes
  sha256_length : ∀ bytes, (sha256 bytes).length = 32

def RANGE_HASH_HEX_CHARS : Nat := 16

def hashIdList (C : WebCrypto) (sortedIds : List JsString) : JsString :=
  ((C.sha256 (utf8Of (join (text "\n") sortedIds))).flatMap fun b => hexOf 2 b.toNat).take RANGE_HASH_HEX_CHARS

/-! ## Slices -/

structure HistoryEntry where
  id : JsString
  timestamp : Int

def historyRangeOf (id : JsString) (depth : Nat) : JsString := (hexOf 8 (mixedHash32 id).toNat).take depth

def RANGE_TARGET_LEAF : Nat := 64
def MAX_RANGE_DEPTH : Nat := 3

/-- The loop of `rangeDepthFor`. -/
def depthLoop (size : Nat) : Nat → Nat → Nat
  | 0, depth => depth
  | fuel + 1, depth => if depth < MAX_RANGE_DEPTH ∧ 16 ^ depth * RANGE_TARGET_LEAF < size then depthLoop size fuel (depth + 1) else depth

def rangeDepthFor (size : Nat) : Nat := depthLoop size MAX_RANGE_DEPTH 1

/-- A `Set`, in insertion order. -/
def setOf (ids : List JsString) : List JsString :=
    ids.foldl (fun seen id => if id ∈ seen then seen else seen ++ [id]) []

def uniqueSortedIds (entries : List HistoryEntry) : List JsString :=
    sort (setOf ((entries.map fun e => trim e.id).filter (· ≠ [])))

/-- One turn of the loop of `sliceIdsByRange`. -/
def addToSlice (depth : Nat) (out : JsMap JsString (List JsString)) (id : JsString) : JsMap JsString (List JsString) :=
  let slice := historyRangeOf id depth
  match out.get slice with
  | some list => out.set slice (list ++ [id])
  | none => out.set slice [id]

def sliceIdsByRange (ids : List JsString)
    (depth : Nat) : JsMap JsString (List JsString) := (ids.foldl (addToSlice depth) JsMap.empty).mapValues sort

/-! ## Digests -/

structure HistoryRange where
  slice : JsString
  count : Nat
  hash : JsString

inductive HistoryDigest where
  | ids (ids : List JsString)
  | range (depth : Nat) (ranges : List HistoryRange)

structure HistoryDiff where
  missingLocally : List JsString
  missingOnPeer : List JsString
  pullPrefixes : List JsString
  pushPrefixes : List JsString

def DIGEST_ID_MODE_MAX : Int := 1000

section Digests

variable (C : WebCrypto)

def rangeOfSlice (bySlice : JsMap JsString (List JsString)) (slice : JsString) : HistoryRange :=
  let sliceIds := (bySlice.get slice).getD []
  ⟨slice, sliceIds.length, hashIdList C sliceIds⟩

def buildHistoryDigest (entries : List HistoryEntry) (idModeMax : Int) : HistoryDigest :=
  let ids := uniqueSortedIds entries
  if ids.length ≤ idModeMax then .ids ids
  else
    let depth := rangeDepthFor ids.length
    let bySlice := sliceIdsByRange ids depth
    .range depth ((sort bySlice.keys).map (rangeOfSlice C bySlice))

def slicesDiffer (mine : List JsString)
    (theirs : HistoryRange) : Bool := theirs.count ≠ mine.length || theirs.hash ≠ hashIdList C mine

def pullsSlice (mine : Option (List JsString)) (theirs : Option HistoryRange) : Bool :=
  match mine, theirs with
  | none, _ => true
  | some _, none => false
  | some mine, some theirs => slicesDiffer C mine theirs

def pushesSlice (mine : Option (List JsString)) (theirs : Option HistoryRange) : Bool :=
  match mine, theirs with
  | none, _ => false
  | some _, none => true
  | some mine, some theirs => slicesDiffer C mine theirs

def diffHistoryDigest (localEntries : List HistoryEntry) (remote : HistoryDigest) : HistoryDiff :=
  let localIds := uniqueSortedIds localEntries
  match remote with
  | .ids remoteIds =>
    let remoteSet := setOf (remoteIds.filter fun id => trim id ≠ [])
    { missingLocally := sort (remoteSet.filter (· ∉ localIds))
      missingOnPeer := localIds.filter (· ∉ remoteSet)
      pullPrefixes := []
      pushPrefixes := [] }
  | .range depth ranges =>
    let localBySlice := sliceIdsByRange localIds depth
    let remoteBySlice := ranges.foldl (fun (m : JsMap JsString HistoryRange) r => m.set r.slice r) JsMap.empty
    let allPrefixes := sort (setOf (localBySlice.keys ++ remoteBySlice.keys))
    { missingLocally := []
      missingOnPeer := []
      pullPrefixes := allPrefixes.filter fun p => pullsSlice C (localBySlice.get p) (remoteBySlice.get p)
      pushPrefixes := allPrefixes.filter fun p => pushesSlice C (localBySlice.get p) (remoteBySlice.get p) }

end Digests

def isEmptyHistoryDiff (diff : HistoryDiff) : Bool :=
  diff.missingLocally.length = 0 && diff.missingOnPeer.length = 0 && diff.pullPrefixes.length = 0 &&
    diff.pushPrefixes.length = 0

def selectEntryIdsForPrefixes (entries : List HistoryEntry) (prefixes : List JsString) (depth : Nat) : List JsString :=
  if prefixes = [] then [] else (uniqueSortedIds entries).filter fun id => historyRangeOf id depth ∈ prefixes

/-! ## Reading a digest -/

inductive Value where
  | null
  | bool (b : Bool)
  | integer (n : Int)
  | fraction
  | string (s : JsString)
  | array (items : List Value)
  | object (fields : List (String × Value))

def Value.field (key : String) : Value → Option Value
  | .object fields => fields.lookup key
  | _ => none

def MAX_DIGEST_ENTRIES : Nat := 5000

def parseId : Value → Option JsString
  | .string id => if trim id = [] then none else some id
  | _ => none

def parseRange (depth : Nat) (entry : Value) : Option HistoryRange :=
  match entry with
  | .object _ =>
    match entry.field "prefix", entry.field "count", entry.field "hash" with
    | some (.string slice), some (.integer count), some (.string hash) =>
      if slice.length ≠ depth || !isHex slice then none
      else if count < 0 then none
      else if !isHex hash then none
      else some ⟨slice, count.toNat, hash⟩
    | _, _, _ => none
  | _ => none

def parseHistoryDigest (value : Value) : Option HistoryDigest :=
  match value.field "mode" with
  | some (.string mode) =>
    if mode = text "ids" then
      match value.field "ids" with
      | some (.array items) => if MAX_DIGEST_ENTRIES < items.length then none else (items.mapM parseId).map .ids
      | _ => none
    else if mode = text "range" then
      match value.field "depth", value.field "ranges" with
      | some (.integer depth), some (.array items) =>
        if depth < 1 then none
        else if (MAX_RANGE_DEPTH : Int) < depth then none
        else if MAX_DIGEST_ENTRIES < items.length then none
        else (items.mapM (parseRange depth.toNat)).map (.range depth.toNat)
      | _, _ => none
    else none
  | _ => none

def HistoryRange.toValue (r : HistoryRange) : Value :=
    .object [("prefix", .string r.slice), ("count", .integer r.count), ("hash", .string r.hash)]

def HistoryDigest.toValue : HistoryDigest → Value
  | .ids listed => .object [("mode", .string (text "ids")), ("ids", .array (listed.map .string))]
  | .range depth ranges =>
    .object [("mode", .string (text "range")), ("depth", .integer depth),
      ("ranges", .array (ranges.map HistoryRange.toValue))]

/-! ## Sets and slices -/

variable {ids : List JsString}

theorem setOf_fold {seen : List JsString} (hs : seen.Nodup) :
    (ids.foldl (fun seen id => if id ∈ seen then seen else seen ++ [id]) seen).Nodup ∧
      ∀ id, id ∈ ids.foldl (fun seen id => if id ∈ seen then seen else seen ++ [id]) seen ↔ id ∈ seen ∨ id ∈ ids := by
  induction ids generalizing seen with
  | nil => exact ⟨hs, fun id => by simp⟩
  | cons x ids ih =>
    rw [foldl_cons]
    by_cases hx : x ∈ seen
    · rw [if_pos hx]
      obtain ⟨hn, hm⟩ := ih hs
      refine ⟨hn, fun id => ?_⟩
      rw [hm, mem_cons]
      constructor
      · rintro (h | h)
        · exact .inl h
        · exact .inr (.inr h)
      · rintro (h | rfl | h)
        · exact .inl h
        · exact .inl hx
        · exact .inr h
    · rw [if_neg hx]
      have hs' : (seen ++ [x]).Nodup := by
        rw [nodup_append]
        refine ⟨hs, by simp, ?_⟩
        rintro a ha b hb rfl
        exact hx (mem_singleton.mp hb ▸ ha)
      obtain ⟨hn, hm⟩ := ih hs'
      refine ⟨hn, fun id => ?_⟩
      rw [hm, mem_append, mem_singleton, mem_cons, or_assoc]

theorem nodup_setOf (ids : List JsString) : (setOf ids).Nodup := (setOf_fold nodup_nil).1

@[simp] theorem mem_setOf {id : JsString} : id ∈ setOf ids ↔ id ∈ ids := by
  rw [setOf, (setOf_fold nodup_nil).2]
  simp

theorem nodup_uniqueSortedIds (entries : List HistoryEntry) : (uniqueSortedIds entries).Nodup :=
    nodup_sort (nodup_setOf _)

theorem pairwise_uniqueSortedIds (entries : List HistoryEntry) : (uniqueSortedIds entries).Pairwise Le :=
    pairwise_sort _

theorem mem_uniqueSortedIds {entries : List HistoryEntry}
    {id : JsString} : id ∈ uniqueSortedIds entries ↔ id ≠ [] ∧ ∃ e ∈ entries, trim e.id = id := by
  rw [uniqueSortedIds, mem_sort, mem_setOf, and_comm]
  simp

theorem uniqueSortedIds_congr {x y : List HistoryEntry} (h : ∀ id, id ∈ uniqueSortedIds x ↔ id ∈ uniqueSortedIds y) :
    uniqueSortedIds x = uniqueSortedIds y :=
  eq_of_sorted (pairwise_uniqueSortedIds x) (pairwise_uniqueSortedIds y) (nodup_uniqueSortedIds x)
    (nodup_uniqueSortedIds y) h

def sliceOf (ids : List JsString) (depth : Nat)
    (slice : JsString) : List JsString := ids.filter fun id => historyRangeOf id depth = slice

theorem mem_sliceOf {depth : Nat}
    {slice id : JsString} : id ∈ sliceOf ids depth slice ↔ id ∈ ids ∧ historyRangeOf id depth = slice := by
  simp [sliceOf]

theorem get_addToSlice (depth : Nat) (out : JsMap JsString (List JsString)) (id p : JsString) :
    (addToSlice depth out id).get p = if p = historyRangeOf id depth then some ((out.get p).getD [] ++ [id]) else
      out.get p := by
  unfold addToSlice
  simp only
  by_cases hp : p = historyRangeOf id depth
  · rw [← hp]
    cases hget : out.get p <;> simp
  · cases hget : out.get (historyRangeOf id depth) <;> simp [hp]

theorem get_foldl_addToSlice (depth : Nat) (ids : List JsString) (out : JsMap JsString (List JsString)) (p : JsString) :
    (ids.foldl (addToSlice depth) out).get p =
      if sliceOf ids depth p = [] then out.get p else some ((out.get p).getD [] ++ sliceOf ids depth p) := by
  induction ids generalizing out with
  | nil => rfl
  | cons id ids ih =>
    rw [foldl_cons, ih, get_addToSlice]
    by_cases hp : p = historyRangeOf id depth
    · have hcons : sliceOf (id :: ids) depth p = id :: sliceOf ids depth p := by simp [sliceOf, hp]
      rw [if_pos hp, hcons, if_neg (cons_ne_nil _ _)]
      by_cases hs : sliceOf ids depth p = []
      · rw [if_pos hs, hs]
      · simp
    · have hcons : sliceOf (id :: ids) depth p = sliceOf ids depth p := by simp [sliceOf, Ne.symm hp]
      rw [if_neg hp, hcons]

theorem get_sliceIdsByRange (hs : ids.Pairwise Le) (depth : Nat) (p : JsString) :
    (sliceIdsByRange ids depth).get p = if sliceOf ids depth p = [] then none else some (sliceOf ids depth p) := by
  have hsort : sort (sliceOf ids depth p) = sliceOf ids depth p := (hs.filter _).insertionSort_eq
  rw [sliceIdsByRange, JsMap.get_mapValues, get_foldl_addToSlice]
  by_cases h : sliceOf ids depth p = []
  · rw [if_pos h, if_pos h]
    rfl
  · rw [if_neg h, if_neg h, JsMap.get_empty, Option.map_some, Option.getD_none, nil_append, hsort]

theorem mem_keys_sliceIdsByRange (hs : ids.Pairwise Le) {depth : Nat} {p : JsString} :
    p ∈ (sliceIdsByRange ids depth).keys ↔ sliceOf ids depth p ≠ [] := by
  rw [JsMap.mem_keys, get_sliceIdsByRange hs]
  by_cases h : sliceOf ids depth p = [] <;> simp [h]

theorem nodup_keys_sliceIdsByRange (ids : List JsString) (depth : Nat) : (sliceIdsByRange ids depth).keys.Nodup := by
  have hfold : ∀ (ids : List JsString) (out : JsMap JsString (List JsString)), out.keys.Nodup →
    (ids.foldl (addToSlice depth) out).keys.Nodup := by
    intro ids
    induction ids with
    | nil => exact fun _ h => h
    | cons id ids ih =>
      intro out h
      refine ih _ ?_
      unfold addToSlice
      simp only
      split <;> exact JsMap.nodup_keys_set h _ _
  rw [sliceIdsByRange, JsMap.keys_mapValues]
  exact hfold ids _ nodup_nil

/-! ## The diff -/

section Diff

variable {C : WebCrypto} {A B : List HistoryEntry} {p : JsString} {depth : Nat}

/-- The slices of a range digest, as its reader finds them. -/
theorem get_remoteBySlice {a : List JsString} (hs : a.Pairwise Le) (depth : Nat) (p : JsString) :
    (((sort (sliceIdsByRange a depth).keys).map (rangeOfSlice C (sliceIdsByRange a depth))).foldl
        (fun (m : JsMap JsString HistoryRange) r => m.set r.slice r) JsMap.empty).get p =
      if sliceOf a depth p = [] then none else
        some ⟨p, (sliceOf a depth p).length, hashIdList C (sliceOf a depth p)⟩ := by
  have hkeys : ((sort (sliceIdsByRange a depth).keys).map
    (rangeOfSlice C (sliceIdsByRange a depth))).map HistoryRange.slice =
      sort (sliceIdsByRange a depth).keys := by
    rw [map_map]
    exact map_id _
  have hmem : p ∈ (sliceIdsByRange a depth).keys ↔ sliceOf a depth p ≠ [] := mem_keys_sliceIdsByRange hs
  have hnodup := nodup_sort (nodup_keys_sliceIdsByRange a depth)
  rw [← hkeys] at hnodup
  by_cases h : sliceOf a depth p = []
  · rw [if_pos h]
    refine JsMap.get_setAll_of_not_mem HistoryRange.slice (fun r => r) ?_ JsMap.empty
    rw [hkeys, mem_sort, hmem]
    exact fun hne => hne h
  · have hp : rangeOfSlice C (sliceIdsByRange a depth) p ∈ (sort (sliceIdsByRange a depth).keys).map
      (rangeOfSlice C (sliceIdsByRange a depth)) :=
      mem_map_of_mem (mem_sort.mpr (hmem.mpr h))
    refine (JsMap.get_setAll_of_mem HistoryRange.slice (fun r => r) hnodup hp JsMap.empty).trans ?_
    rw [if_neg h, rangeOfSlice, get_sliceIdsByRange hs, if_neg h, Option.getD_some]

theorem slicesDiffer_iff {x y : List JsString} (h : hashIdList C x = hashIdList C y → x = y) :
    slicesDiffer C y ⟨p, x.length, hashIdList C x⟩ = true ↔ x ≠ y := by
  constructor
  · rintro hd rfl
    simp [slicesDiffer] at hd
  · intro hne
    have hhash : hashIdList C x ≠ hashIdList C y := fun e => hne (h e)
    simp [slicesDiffer, hhash]

def depthOf (A : List HistoryEntry) : Nat := rangeDepthFor (uniqueSortedIds A).length

theorem buildHistoryDigest_ids {idModeMax : Int} (h : ((uniqueSortedIds A).length : Int) ≤ idModeMax) :
    buildHistoryDigest C A idModeMax = .ids (uniqueSortedIds A) := if_pos h

theorem buildHistoryDigest_range {idModeMax : Int} (h : ¬ ((uniqueSortedIds A).length : Int) ≤ idModeMax) :
    buildHistoryDigest C A idModeMax = .range (depthOf A)
      ((sort (sliceIdsByRange (uniqueSortedIds A) (depthOf A)).keys).map
      (rangeOfSlice C (sliceIdsByRange (uniqueSortedIds A) (depthOf A)))) := if_neg h

/-- The slice two stores have at a place, by the depth the asker chose. -/
def sameSlice (A B : List HistoryEntry) (p : JsString) : Prop :=
  sliceOf (uniqueSortedIds A) (depthOf A) p = sliceOf (uniqueSortedIds B) (depthOf A) p

/-- The fingerprints tell apart the slices that differ. -/
def Distinguishes (C : WebCrypto) (A B : List HistoryEntry) : Prop :=
  ∀ p, hashIdList C (sliceOf (uniqueSortedIds A) (depthOf A) p) = hashIdList C
    (sliceOf (uniqueSortedIds B) (depthOf A) p) → sameSlice A B p

theorem distinguishes_of_eq (h : uniqueSortedIds A = uniqueSortedIds B) : Distinguishes C A B := by
  intro p _
  rw [sameSlice, h]

section Range

variable {idModeMax : Int} (hr : ¬ ((uniqueSortedIds A).length : Int) ≤ idModeMax) (hd : Distinguishes C A B)
include hr hd

theorem mem_pushPrefixes : p ∈ (diffHistoryDigest C B (buildHistoryDigest C A idModeMax)).pushPrefixes ↔
    sliceOf (uniqueSortedIds B) (depthOf A) p ≠ [] ∧ ¬ sameSlice A B p := by
  have hA := pairwise_uniqueSortedIds A
  have hB := pairwise_uniqueSortedIds B
  rw [buildHistoryDigest_range hr, diffHistoryDigest]
  simp only
  rw [mem_filter, mem_sort, mem_setOf, mem_append, mem_keys_sliceIdsByRange hB, JsMap.mem_keys, get_remoteBySlice hA,
    get_sliceIdsByRange hB]
  by_cases hb : sliceOf (uniqueSortedIds B) (depthOf A) p = []
  · simp [hb, pushesSlice]
  · by_cases ha : sliceOf (uniqueSortedIds A) (depthOf A) p = []
    · simp [hb, ha, pushesSlice, sameSlice, Ne.symm hb]
    · simp only [if_neg hb, if_neg ha, pushesSlice, slicesDiffer_iff (hd p)]
      simp [hb, sameSlice]

theorem mem_pullPrefixes : p ∈ (diffHistoryDigest C B (buildHistoryDigest C A idModeMax)).pullPrefixes ↔
    sliceOf (uniqueSortedIds A) (depthOf A) p ≠ [] ∧ ¬ sameSlice A B p := by
  have hA := pairwise_uniqueSortedIds A
  have hB := pairwise_uniqueSortedIds B
  rw [buildHistoryDigest_range hr, diffHistoryDigest]
  simp only
  rw [mem_filter, mem_sort, mem_setOf, mem_append, mem_keys_sliceIdsByRange hB, JsMap.mem_keys, get_remoteBySlice hA,
    get_sliceIdsByRange hB]
  by_cases ha : sliceOf (uniqueSortedIds A) (depthOf A) p = []
  · by_cases hb : sliceOf (uniqueSortedIds B) (depthOf A) p = []
    · simp [ha, hb]
    · simp [ha, hb, pullsSlice]
  · by_cases hb : sliceOf (uniqueSortedIds B) (depthOf A) p = []
    · simp [hb, ha, pullsSlice, sameSlice]
    · simp only [if_neg hb, if_neg ha, pullsSlice, slicesDiffer_iff (hd p)]
      simp [ha, sameSlice]

end Range

theorem trim_ne_nil_of_mem {id : JsString} (h : id ∈ uniqueSortedIds A) : trim id ≠ [] := by
  obtain ⟨hne, e, -, rfl⟩ := (mem_uniqueSortedIds).mp h
  exact trim_trim_ne_nil hne

section Ids

variable {idModeMax : Int} {id : JsString} (hi : ((uniqueSortedIds A).length : Int) ≤ idModeMax)
include hi

theorem mem_missingOnPeer : id ∈ (diffHistoryDigest C B (buildHistoryDigest C A idModeMax)).missingOnPeer ↔
    id ∈ uniqueSortedIds B ∧ id ∉ uniqueSortedIds A := by
  rw [buildHistoryDigest_ids hi, diffHistoryDigest]
  simp only [mem_filter, mem_setOf, decide_eq_true_eq]
  constructor
  · rintro ⟨hb, hn⟩
    exact ⟨hb, fun ha => hn ⟨ha, trim_ne_nil_of_mem ha⟩⟩
  · rintro ⟨hb, hn⟩
    exact ⟨hb, fun ha => hn ha.1⟩

theorem mem_missingLocally : id ∈ (diffHistoryDigest C B (buildHistoryDigest C A idModeMax)).missingLocally ↔
    id ∈ uniqueSortedIds A ∧ id ∉ uniqueSortedIds B := by
  rw [buildHistoryDigest_ids hi, diffHistoryDigest]
  simp only [mem_sort, mem_filter, mem_setOf, decide_eq_true_eq]
  constructor
  · rintro ⟨⟨ha, -⟩, hn⟩
    exact ⟨ha, hn⟩
  · rintro ⟨ha, hn⟩
    exact ⟨⟨ha, trim_ne_nil_of_mem ha⟩, hn⟩

end Ids

theorem diff_ids_prefixes {remoteIds : List JsString} :
    (diffHistoryDigest C B (.ids remoteIds)).pullPrefixes = [] ∧
      (diffHistoryDigest C B (.ids remoteIds)).pushPrefixes = [] := ⟨rfl, rfl⟩

theorem diff_range_ids {ranges : List HistoryRange} :
    (diffHistoryDigest C B (.range depth ranges)).missingLocally = [] ∧
      (diffHistoryDigest C B (.range depth ranges)).missingOnPeer = [] := ⟨rfl, rfl⟩

theorem isEmptyHistoryDiff_eq {d : HistoryDiff} :
    isEmptyHistoryDiff d = true ↔ d.missingLocally = [] ∧ d.missingOnPeer = [] ∧ d.pullPrefixes = [] ∧
      d.pushPrefixes = [] := by
  simp [isEmptyHistoryDiff, and_assoc]

theorem mem_iff_of_sameSlice (h : ∀ p, sameSlice A B p)
    (id : JsString) : id ∈ uniqueSortedIds A ↔ id ∈ uniqueSortedIds B := by
  have hs := h (historyRangeOf id (depthOf A))
  have hmem : id ∈ sliceOf (uniqueSortedIds A) (depthOf A) (historyRangeOf id (depthOf A)) ↔
      id ∈ sliceOf (uniqueSortedIds B) (depthOf A) (historyRangeOf id (depthOf A)) := by rw [hs]
  simpa [mem_sliceOf] using hmem

theorem isEmptyHistoryDiff_iff (hd : Distinguishes C A B) (idModeMax : Int) :
    isEmptyHistoryDiff (diffHistoryDigest C B (buildHistoryDigest C A idModeMax)) = true ↔
      ∀ id, id ∈ uniqueSortedIds A ↔ id ∈ uniqueSortedIds B := by
  rw [isEmptyHistoryDiff_eq]
  by_cases hi : ((uniqueSortedIds A).length : Int) ≤ idModeMax
  · simp only [eq_nil_iff_forall_not_mem, mem_missingLocally hi, mem_missingOnPeer hi]
    rw [buildHistoryDigest_ids hi, (diff_ids_prefixes).1, (diff_ids_prefixes).2]
    constructor
    · rintro ⟨h1, h2, -⟩ id
      exact ⟨fun ha => Classical.byContradiction fun hb => h1 id ⟨ha, hb⟩,
        fun hb => Classical.byContradiction fun ha => h2 id ⟨hb, ha⟩⟩
    · intro h
      exact ⟨fun id hx => hx.2 ((h id).mp hx.1), fun id hx => hx.2 ((h id).mpr hx.1), by simp, by simp⟩
  · simp only [eq_nil_iff_forall_not_mem, mem_pullPrefixes hi hd, mem_pushPrefixes hi hd]
    rw [buildHistoryDigest_range hi, (diff_range_ids).1, (diff_range_ids).2]
    constructor
    · rintro ⟨-, -, h1, h2⟩
      refine mem_iff_of_sameSlice fun p => Classical.byContradiction fun hne => ?_
      have ha := Classical.byContradiction fun ha => h1 p ⟨ha, hne⟩
      have hb := Classical.byContradiction fun hb => h2 p ⟨hb, hne⟩
      exact hne (ha.trans hb.symm)
    · intro h
      have heq := uniqueSortedIds_congr h
      have hsame : ∀ p, sameSlice A B p := fun p => by rw [sameSlice, heq]
      exact ⟨by simp, by simp, fun p hx => hx.2 (hsame p), fun p hx => hx.2 (hsame p)⟩

end Diff

/-! ## A digest is read as it was built -/

theorem mapM_map_eq_some {α β : Type} {f : β → Option α} {g : α → β} {l : List α}
    (h : ∀ a ∈ l, f (g a) = some a) : (l.map g).mapM f = some l := by
  induction l with
  | nil => rfl
  | cons a l ih =>
    rw [map_cons, mapM_cons, h a mem_cons_self, ih fun b hb => h b (mem_cons_of_mem a hb)]
    rfl

theorem depthLoop_bounds (size : Nat) {fuel depth : Nat} (h1 : 1 ≤ depth) (h3 : depth ≤ 3) :
    1 ≤ depthLoop size fuel depth ∧ depthLoop size fuel depth ≤ 3 := by
  induction fuel generalizing depth with
  | zero => exact ⟨h1, h3⟩
  | succ fuel ih =>
    unfold depthLoop
    split
    · rename_i h
      exact ih (by omega) h.1
    · exact ⟨h1, h3⟩

theorem rangeDepthFor_bounds (size : Nat) : 1 ≤ rangeDepthFor size ∧ rangeDepthFor size ≤ 3 :=
    depthLoop_bounds size (by omega) (by omega)

theorem historyRangeOf_spec (id : JsString) {depth : Nat} (h : depth ≤ 3) :
    (historyRangeOf id depth).length = depth ∧ (historyRangeOf id depth).all isHexDigit = true := by
  obtain ⟨hl, ha⟩ := hexOf_spec 8 (mixedHash32 id).toNat
  refine ⟨?_, ?_⟩
  · rw [historyRangeOf, length_take]
    omega
  · rw [all_eq_true] at ha ⊢
    exact fun u hu => ha u (mem_of_mem_take hu)

theorem hashIdList_isHex (C : WebCrypto) (ids : List JsString) : isHex (hashIdList C ids) = true := by
  have hlen := C.sha256_length (utf8Of (join (text "\n") ids))
  unfold hashIdList
  generalize C.sha256 (utf8Of (join (text "\n") ids)) = digest at hlen ⊢
  have hall : (digest.flatMap fun b => hexOf 2 b.toNat).all isHexDigit = true := by
    simp only [all_flatMap, (hexOf_spec 2 _).2, all_eq_true, implies_true]
  have hne : digest.flatMap (fun b => hexOf 2 b.toNat) ≠ [] := by
    cases digest with
    | nil => cases hlen
    | cons b rest =>
      have := (hexOf_spec 2 b.toNat).1
      rw [flatMap_cons]
      intro h
      rw [(append_eq_nil_iff.mp h).1] at this
      exact absurd this (by decide)
  refine isHex_iff.mpr ⟨fun h => ?_, ?_⟩
  · rw [take_eq_nil_iff] at h
    rcases h with h | h
    · cases h
    · exact hne h
  · rw [all_eq_true] at hall ⊢
    exact fun u hu => hall u (mem_of_mem_take hu)

theorem key_spec (hs : ids.Pairwise Le) {depth : Nat} (h3 : depth ≤ 3) {p : JsString}
    (h : p ∈ (sliceIdsByRange ids depth).keys) :
    p.length = depth ∧ p.all isHexDigit = true := by
  obtain ⟨id, hid⟩ := exists_mem_of_ne_nil _ ((mem_keys_sliceIdsByRange hs).mp h)
  obtain ⟨-, rfl⟩ := (mem_sliceOf).mp hid
  exact historyRangeOf_spec id h3

theorem parseRange_toValue {r : HistoryRange} {depth : Nat} (hl : r.slice.length = depth) (hp : isHex r.slice = true)
    (hh : isHex r.hash = true) :
    parseRange depth r.toValue = some r := by
  obtain ⟨slice, count, hash⟩ := r
  simp only at hl hp hh
  simp [parseRange, HistoryRange.toValue, Value.field, lookup_cons, hl, hp, hh]

theorem parseHistoryDigest_build (C : WebCrypto) (A : List HistoryEntry) {idModeMax : Int}
    (hm : idModeMax ≤ MAX_DIGEST_ENTRIES) :
    parseHistoryDigest (buildHistoryDigest C A idModeMax).toValue = some (buildHistoryDigest C A idModeMax) := by
  by_cases hi : ((uniqueSortedIds A).length : Int) ≤ idModeMax
  · rw [buildHistoryDigest_ids hi]
    have hmap : ((uniqueSortedIds A).map Value.string).mapM parseId = some (uniqueSortedIds A) :=
      mapM_map_eq_some fun id hid => if_neg (trim_ne_nil_of_mem hid)
    have hlen : ¬ MAX_DIGEST_ENTRIES < (uniqueSortedIds A).length := by omega
    simp [parseHistoryDigest, HistoryDigest.toValue, Value.field, lookup_cons, hlen, hmap]
  · rw [buildHistoryDigest_range hi]
    have hs := pairwise_uniqueSortedIds A
    obtain ⟨h1, h3⟩ : 1 ≤ depthOf A ∧ depthOf A ≤ 3 := rangeDepthFor_bounds _
    have hkeys : ∀ p ∈ sort (sliceIdsByRange (uniqueSortedIds A) (depthOf A)).keys, p.length = depthOf A ∧
      p.all isHexDigit = true :=
      fun p hp => key_spec hs h3 (mem_sort.mp hp)
    generalize hranges : (sort (sliceIdsByRange (uniqueSortedIds A) (depthOf A)).keys).map
      (rangeOfSlice C (sliceIdsByRange (uniqueSortedIds A) (depthOf A))) = ranges
    have hlen : ¬ MAX_DIGEST_ENTRIES < ranges.length := by
      have hcount := length_le_of_hex (nodup_sort (nodup_keys_sliceIdsByRange (uniqueSortedIds A) (depthOf A)))
        (fun p hp => (hkeys p hp).1)
        fun p hp => (hkeys p hp).2
      have hpow : 16 ^ depthOf A ≤ 16 ^ 3 := Nat.pow_le_pow_right (by omega) h3
      rw [← hranges, length_map]
      unfold MAX_DIGEST_ENTRIES
      omega
    have hmap : (ranges.map HistoryRange.toValue).mapM (parseRange (depthOf A)) = some ranges := by
      refine mapM_map_eq_some fun r hr => ?_
      rw [← hranges] at hr
      obtain ⟨p, hp, rfl⟩ := mem_map.mp hr
      obtain ⟨hl, ha⟩ := hkeys p hp
      exact parseRange_toValue hl (isHex_of_length hl h1 ha) (hashIdList_isHex C _)
    have hmode : text "range" ≠ text "ids" := by decide
    have hd1 : ¬ (depthOf A : Int) < 1 := by omega
    have hd3 : ¬ (MAX_RANGE_DEPTH : Int) < depthOf A := by unfold MAX_RANGE_DEPTH; omega
    simp [parseHistoryDigest, HistoryDigest.toValue, Value.field, lookup_cons, hmode, hd1, hd3, hlen, hmap]

end Canari.Chat.HistoryManifest
