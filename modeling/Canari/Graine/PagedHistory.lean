/-
  Canari.Graine.PagedHistory — whether the answer to a history ask arrived whole
  (`frontend/src/lib/utils/graine/pagedHistoryAnswer.ts`).

  The records of an account, one for each community, are one text of `localStorage`: every
  function reads it, checks every record of it (`isRecord`), and writes it back. Nothing is kept in
  memory beside the undo each `noteHistoryAsked` returns, so a reload changes nothing. The numbers
  of a page are any numbers of the language (`PageNumber`): those of an answer are the sender's.
  A community's id is no name that every object has, and the storage does not refuse.
  - `readAll_writeAll`: what is written is read back.
  - `record_exact`: after an ask, whatever pages arrive and whatever happens to other communities,
    the record has exactly the pages of the first answer, and is gone exactly when that answer is
    whole or was one message; and once a re-ask was sent no other one is asked for until then.
-/

import Canari.Lib.Json
import Canari.Lib.JsMap
import Canari.Lib.Machine
import Mathlib.Data.List.Sort

namespace Canari.Graine.PagedHistory

open Lib List Option
open Lib.Json (JsNumber Value)
open Lib.Utf16 (JsString)
open Lib.JsText (text)

/-! ## Numbers and records -/

/-- A number, as far as the records go: the integer it is (`-0` is 0), how one is written, and how a log shows it. -/
class PageNumber (ν : Type) extends JsNumber ν where
  integer : ν → Option Int
  ofNat : Nat → ν
  shown : ν → String
  integer_ofNat : ∀ n, n < 2 ^ 53 → integer (ofNat n) = some (n : Int)
  finite_ofNat : ∀ n, n < 2 ^ 53 → isFinite (ofNat n) = true
  reread_ofNat : ∀ n, n < 2 ^ 53 → ofLiteral (toLiteral (ofNat n)) = ofNat n

def GRAINE_BUNDLE_MAX_PAGES : Nat := 8000

structure PagedHistoryRecord where
  requestId : JsString
  sender : Option JsString
  pageCount : Nat
  received : List Nat
  reasked : Bool
  deriving DecidableEq

/-- What `isRecord` asks of a count and the indexes under it. -/
structure PagedHistoryRecord.Fits (r : PagedHistoryRecord) : Prop where
  count : r.pageCount ≤ GRAINE_BUNDLE_MAX_PAGES
  length : r.received.length ≤ r.pageCount
  indexes : ∀ n ∈ r.received, n < r.pageCount

instance (r : PagedHistoryRecord) : Decidable r.Fits :=
  decidable_of_iff (r.pageCount ≤ GRAINE_BUNDLE_MAX_PAGES ∧ r.received.length ≤ r.pageCount ∧ ∀ n ∈ r.received,
    n < r.pageCount)
    ⟨fun h => ⟨h.1, h.2.1, h.2.2⟩, fun h => ⟨h.1, h.2, h.3⟩⟩

abbrev Records := JsMap JsString PagedHistoryRecord

variable {ν : Type} [PageNumber ν]

inductive PageFault (ν : Type) where
  | count (pageCount : ν)
  | index (pageIndex pageCount : ν)

def PageFault.message : PageFault ν → String
  | .count pageCount => s!"a page count of {PageNumber.shown pageCount}, above the {GRAINE_BUNDLE_MAX_PAGES} any answer can fill"
  | .index pageIndex pageCount =>
      s!"page index {PageNumber.shown pageIndex} outside its {PageNumber.shown pageCount} page(s)"

def within (n : ν) (ok : Int → Bool) : Option Nat :=
  match PageNumber.integer n with
  | some z => if 0 ≤ z ∧ ok z = true then some z.toNat else none
  | none => none

def isPageCount (n : ν) : Option Nat := within n fun z => decide (z ≤ GRAINE_BUNDLE_MAX_PAGES)

def historyPageFault (pageIndex pageCount : ν) : Option (PageFault ν) :=
  if PageNumber.integer pageCount = some 0 then none
  else match isPageCount pageCount with
    | none => some (.count pageCount)
    | some count =>
      match within pageIndex fun z => decide (z < count) with
      | none => some (.index pageIndex pageCount)
      | some _ => none

/-! ## The text in storage -/

def PagedHistoryRecord.value (r : PagedHistoryRecord) : Value ν :=
  Json.record [("requestId", some (.str r.requestId)), ("sender", some (r.sender.elim .null .str)),
    ("pageCount", some (.num (PageNumber.ofNat r.pageCount))),
    ("received", some (.arr (r.received.map fun n => .num (PageNumber.ofNat n)))), ("reasked", some (.bool r.reasked))]

/-- `null` or a string. -/
def readSender : Value ν → Option (Option JsString)
  | .null => some none
  | .str s => some (some s)
  | _ => none

def readBool : Value ν → Option Bool
  | .bool b => some b
  | _ => none

/-- `isRecord`, and the record it vouches for. -/
def isRecord (v : Value ν) : Option PagedHistoryRecord := do
  let requestId ← v.getString "requestId"
  let sender ← (v.get "sender").bind readSender
  let pageCount ← (v.getNumber "pageCount").bind isPageCount
  let items ← (v.get "received").bind Value.asArray
  let received ← items.mapM fun item => item.asNumber.bind fun n => within n fun z => decide (z < pageCount)
  let reasked ← (v.get "reasked").bind readBool
  if received.length ≤ pageCount then some ⟨requestId, sender, pageCount, received, reasked⟩ else none

/-- `Object.entries` of what `JSON.parse` gave; a field that stands twice counts as it stands last. -/
def entriesOf : Value ν → List (JsString × Value ν)
  | .obj fields => fields
  | .arr items => items.zipIdx.map fun p => (JsText.decimal p.2, p.1)
  | _ => []

def readEntries (entries : List (JsString × Value ν)) : Records :=
  entries.foldl (fun records entry =>
    match isRecord entry.2 with
    | some r => records.set entry.1 r
    | none => records.delete entry.1) JsMap.empty

variable (ν) in
def readAll (storage : Option JsString) : Records :=
  match storage.bind fun raw => Json.parse (ν := ν) raw with
  | none => JsMap.empty
  | some parsed => readEntries (entriesOf parsed)

variable (ν) in
def writeAll (records : Records) : Option JsString :=
  if records.entries.isEmpty then none
  else some (Json.stringify (.obj (records.entries.map fun e => (e.1, (e.2.value : Value ν)))))

/-! ## Asks and pages -/

/-- What `noteHistoryAsked` returns puts back: the record it replaced, if the ask is still the recorded one. -/
structure Undo where
  workspaceId : JsString
  requestId : JsString
  previous : Option PagedHistoryRecord

variable (ν) in
def noteHistoryAsked (storage : Option JsString) (workspaceId requestId : JsString)
    (reask : Bool) : Option JsString × Undo :=
  let records := readAll ν storage
  let previous := records.get workspaceId
  let reasked := reask || previous.any (·.reasked)
  (writeAll ν (records.set workspaceId ⟨requestId, none, 0, [], reasked⟩), ⟨workspaceId, requestId, previous⟩)

variable (ν) in
def Undo.run (u : Undo) (storage : Option JsString) : Option JsString :=
  let now := readAll ν storage
  if (now.get u.workspaceId).any (·.requestId = u.requestId) then
    match u.previous with
    | some previous => writeAll ν (now.set u.workspaceId previous)
    | none => writeAll ν (now.delete u.workspaceId)
  else storage

/-- A bundle as `noteHistoryPage` is told of it. -/
structure Page (ν : Type) where
  requestId : JsString
  sender : JsString
  pageIndex : ν
  pageCount : ν

def PagedHistoryRecord.refuses (record : PagedHistoryRecord) (page : Page ν) : Bool :=
  match record.sender with
  | none => false
  | some sender => page.sender ≠ sender || PageNumber.integer page.pageCount ≠ some (record.pageCount : Int)

/-- `new Set(received)` with the index added. -/
def addIndex (received : List Nat) (index : Nat) : List Nat :=
  let set := received.eraseDups
  if index ∈ set then set else set ++ [index]

def noteHistoryPage (storage : Option JsString) (workspaceId : JsString) (page : Page ν) : Option JsString :=
  let records := readAll ν storage
  match records.get workspaceId with
  | none => storage
  | some record =>
    if record.requestId ≠ page.requestId then storage
    else if (historyPageFault page.pageIndex page.pageCount).isSome then storage
    else if record.refuses page then storage
    else match PageNumber.integer page.pageCount with
      | none => storage
      | some 0 => writeAll ν (records.delete workspaceId)
      | some count =>
        let received := addIndex record.received ((PageNumber.integer page.pageIndex).getD 0).toNat
        if (received.length : Int) = count then writeAll ν (records.delete workspaceId)
        else
          writeAll ν (records.set workspaceId
            { record with sender := some page.sender, pageCount := count.toNat, received :=
              received.mergeSort (· ≤ ·) })

variable (ν) in
def incompleteHistoryPages (storage : Option JsString) (workspaceId : JsString) : Option (List Nat) :=
  match (readAll ν storage).get workspaceId with
  | none => none
  | some record =>
    if record.pageCount = 0 ∨ record.reasked = true then none
    else
      let missing := (List.range record.pageCount).filter fun i => !record.received.contains i
      if missing.isEmpty then none else some missing

variable (ν) in
def forgetPagedHistoryAnswer (storage : Option JsString) (workspaceId : JsString) : Option JsString :=
  let records := readAll ν storage
  if records.has workspaceId then writeAll ν (records.delete workspaceId) else storage

/-! ## What is written is read -/

variable {n : Nat}

theorem lt_of_count (h : n ≤ GRAINE_BUNDLE_MAX_PAGES) : n < 2 ^ 53 :=
  lt_of_le_of_lt h (by decide)

theorem within_ofNat {ok : Int → Bool} (hn : n < 2 ^ 53) (hok : ok n = true) :
    within (PageNumber.ofNat n : ν) ok = some n := by
  rw [within, PageNumber.integer_ofNat n hn]
  simp [hok]

theorem within_eq_some {n : ν} {ok : Int → Bool} {k : Nat} (h : within n ok = some k) :
    PageNumber.integer n = some (k : Int) ∧ ok k = true := by
  unfold within at h
  split at h
  · rename_i z hz
    split at h
    · rename_i hc
      cases h
      have : ((z.toNat : Nat) : Int) = z := Int.toNat_of_nonneg hc.1
      rw [this]
      exact ⟨hz, hc.2⟩
    · cases h
  · cases h

theorem reread_num (hn : n < 2 ^ 53) :
    Json.reread (.num (PageNumber.ofNat n) : Value ν) = .num (PageNumber.ofNat n) := by
  rw [Json.reread, if_pos (PageNumber.finite_ofNat n hn), PageNumber.reread_ofNat n hn]

theorem rereadItems_indexes {l : List Nat} (h : ∀ n ∈ l, n < 2 ^ 53) :
    Json.rereadItems (l.map fun n => (.num (PageNumber.ofNat n) : Value ν)) = l.map fun n =>
      .num (PageNumber.ofNat n) := by
  induction l with
  | nil => rw [map_nil, Json.rereadItems]
  | cons n l ih =>
    rw [map_cons, Json.rereadItems, reread_num (h n mem_cons_self), ih fun m hm => h m (mem_cons_of_mem n hm)]

theorem PagedHistoryRecord.Fits.small {r : PagedHistoryRecord} (h : r.Fits) : ∀ n ∈ r.received, n < 2 ^ 53 :=
  fun n hn => lt_of_lt_of_le (h.indexes n hn) (lt_of_count h.count).le

theorem reread_value {r : PagedHistoryRecord} (h : r.Fits) : Json.reread (r.value : Value ν) = r.value := by
  have hsender : Json.reread (r.sender.elim .null .str : Value ν) = r.sender.elim .null .str := by
    cases r.sender <;> rw [Option.elim, Json.reread]
  unfold PagedHistoryRecord.value
  rw [Json.reread_record]
  simp only [map_cons, map_nil, map_some]
  rw [hsender, reread_num (lt_of_count h.count), Json.reread, Json.reread, Json.reread, rereadItems_indexes h.small]

theorem mapM_indexes {l : List Nat} {count : Nat} (hc : count ≤ GRAINE_BUNDLE_MAX_PAGES) (h : ∀ n ∈ l, n < count) :
    (l.map fun n => (.num (PageNumber.ofNat n) : Value ν)).mapM
      (fun item => item.asNumber.bind fun n => within n fun z => decide (z < count)) =
      some l := by
  induction l with
  | nil => rfl
  | cons n l ih =>
    have hn := h n mem_cons_self
    have hw : within (PageNumber.ofNat n : ν) (fun z => decide (z < count)) = some n :=
      within_ofNat (lt_of_lt_of_le hn (lt_of_count hc).le) (by simpa using hn)
    rw [map_cons, mapM_cons, ih fun m hm => h m (mem_cons_of_mem n hm)]
    simp [Value.asNumber, hw]

theorem isRecord_value {r : PagedHistoryRecord} (h : r.Fits) : isRecord (r.value : Value ν) = some r := by
  have hsender : readSender (r.sender.elim .null .str : Value ν) = some r.sender := by
    cases r.sender <;> rfl
  have hcount : isPageCount (PageNumber.ofNat r.pageCount : ν) = some r.pageCount :=
    within_ofNat (lt_of_count h.count) (by simpa using h.count)
  have h1 : (r.value : Value ν).getString "requestId" = some r.requestId := by
    simp [PagedHistoryRecord.value, Value.getString, Value.asString]
  have h2 : ((r.value : Value ν).get "sender").bind readSender = some r.sender := by
    simp [PagedHistoryRecord.value, hsender]
  have h3 : ((r.value : Value ν).getNumber "pageCount").bind isPageCount = some r.pageCount := by
    simp [PagedHistoryRecord.value, Value.getNumber, Value.asNumber, hcount]
  have h4 : ((r.value : Value ν).get "received").bind Value.asArray = some
    (r.received.map fun n => .num (PageNumber.ofNat n)) := by
    simp [PagedHistoryRecord.value, Value.asArray]
  have h5 : ((r.value : Value ν).get "reasked").bind readBool = some r.reasked := by
    simp [PagedHistoryRecord.value, readBool]
  simp only [isRecord, h1, h2, h3, h4, h5, mapM_indexes h.count h.indexes, bind_eq_bind, bind_some]
  rw [if_pos h.length]

theorem fits_of_isRecord {v : Value ν} {r : PagedHistoryRecord} (h : isRecord v = some r) : r.Fits := by
  unfold isRecord at h
  simp only [bind_eq_bind, bind_eq_some_iff] at h
  obtain ⟨requestId, -, sender, -, pageCount, ⟨n, -, hcount⟩, items, -, received, hm, reasked, -, h⟩ := h
  split at h
  · rename_i hlen
    cases h
    have hc := (within_eq_some hcount).2
    refine ⟨by simpa using hc, hlen, ?_⟩
    clear hlen
    induction items generalizing received with
    | nil =>
      cases hm
      simp
    | cons item items ih =>
      rw [mapM_cons] at hm
      simp only [bind_eq_bind, bind_eq_some_iff] at hm
      obtain ⟨k, ⟨m, -, hk⟩, rest, hrest, hm⟩ := hm
      cases hm
      intro j hj
      rcases mem_cons.mp hj with rfl | hj
      · simpa using (within_eq_some hk).2
      · exact ih rest hrest j hj
  · cases h

/-- Records as they are read: each community once, and each record fitting. -/
structure Sound (records : Records) : Prop where
  nodup : records.keys.Nodup
  fits : ∀ e ∈ records.entries, e.2.Fits

theorem sound_empty : Sound JsMap.empty := ⟨nodup_nil, by simp [JsMap.empty]⟩

variable {records : Records}

theorem Sound.set (h : Sound records) (k : JsString) {r : PagedHistoryRecord}
    (hr : r.Fits) : Sound (records.set k r) := by
  refine ⟨JsMap.nodup_keys_set h.nodup k r, ?_⟩
  intro e he
  rcases JsMap.mem_entries_set he with rfl | he
  · exact hr
  · exact h.fits e he

theorem Sound.delete (h : Sound records) (k : JsString) : Sound (records.delete k) := by
  refine ⟨?_, fun e he => h.fits e (mem_filter.mp he).1⟩
  exact h.nodup.sublist (filter_sublist.map _)

theorem Sound.get (h : Sound records) {k : JsString} {r : PagedHistoryRecord} (hr : records.get k = some r) : r.Fits :=
  h.fits (k, r) (JsMap.mem_entries_of_get hr)

theorem sound_readAll (storage : Option JsString) : Sound (readAll ν storage) := by
  unfold readAll
  split
  · exact sound_empty
  · rename_i parsed _
    generalize entriesOf parsed = entries
    have hfold : ∀ records : Records, Sound records → Sound (entries.foldl (fun records entry =>
        match isRecord entry.2 with
        | some r => records.set entry.1 r
        | none => records.delete entry.1) records) := by
      induction entries with
      | nil => exact fun records h => h
      | cons e entries ih =>
        intro records h
        rw [foldl_cons]
        apply ih
        cases hr : isRecord e.2 with
        | some r => exact h.set e.1 (fits_of_isRecord hr)
        | none => exact h.delete e.1
    exact hfold _ sound_empty

theorem get_readEntries {entries : List (JsString × Value ν)} (hn : (entries.map Prod.fst).Nodup) (k : JsString) :
    (readEntries entries).get k = ((⟨entries⟩ : JsMap JsString (Value ν)).get k).bind isRecord := by
  unfold readEntries
  have hfold : ∀ records : Records, (entries.foldl (fun records entry =>
      match isRecord entry.2 with
      | some r => JsMap.set records entry.1 r
      | none => JsMap.delete records entry.1) records).get k =
      ((⟨entries⟩ : JsMap JsString (Value ν)).get k).elim (records.get k) isRecord := by
    induction entries with
    | nil => exact fun records => rfl
    | cons e entries ih =>
      intro records
      rw [map_cons, nodup_cons] at hn
      rw [foldl_cons, ih hn.2]
      by_cases hk : k = e.1
      · subst hk
        have hrest : (⟨entries⟩ : JsMap JsString (Value ν)).get e.1 = none := JsMap.lookup_eq_none_of_not_mem hn.1
        rw [JsMap.get_cons_self, hrest]
        cases hr : isRecord e.2 with
        | some r => simp [hr]
        | none => simp [hr, JsMap.get_delete]
      · rw [JsMap.get_cons_ne hk]
        cases hr : isRecord e.2 with
        | some r => simp [JsMap.get_set_ne _ _ hk]
        | none => simp [JsMap.get_delete, hk]
  rw [hfold]
  cases (⟨entries⟩ : JsMap JsString (Value ν)).get k <;> rfl

theorem rereadFields_eq_map (fs : List (JsString × Value ν)) : Json.rereadFields fs = fs.map fun e =>
    (e.1, Json.reread e.2) := by
  induction fs with
  | nil => rw [map_nil, Json.rereadFields]
  | cons e fs ih => rw [map_cons, Json.rereadFields, ih]

theorem get_readAll_writeAll (hn : records.keys.Nodup) (k : JsString) :
    (readAll ν (writeAll ν records)).get k = (records.get k).bind fun r =>
      isRecord (Json.reread (r.value : Value ν)) := by
  unfold writeAll
  split
  · rename_i he
    have : records.entries = [] := by simpa using he
    have hnone : records.get k = none := by rw [JsMap.get, this]; rfl
    rw [hnone]
    rfl
  · unfold readAll
    rw [bind_some, Json.parse_stringify, Json.reread, rereadFields_eq_map, List.map_map]
    have hget := JsMap.get_mapValues (fun r : PagedHistoryRecord => Json.reread (r.value : Value ν)) records k
    dsimp only [entriesOf]
    rw [get_readEntries (by rw [List.map_map]; exact hn)]
    refine (congrArg (·.bind isRecord) hget).trans ?_
    cases records.get k <;> rfl

theorem get_readAll_of_fits (hn : records.keys.Nodup) {k : JsString} (hk : ∀ r, records.get k = some r → r.Fits) :
    (readAll ν (writeAll ν records)).get k = records.get k := by
  rw [get_readAll_writeAll hn]
  cases hr : records.get k with
  | none => rfl
  | some r => rw [bind_some, reread_value (hk r hr), isRecord_value (hk r hr)]

section Written

variable {storage : Option JsString} {k k' : JsString} {r : PagedHistoryRecord}

theorem get_set_written (hr : r.Fits) :
    (readAll ν (writeAll ν ((readAll ν storage).set k r))).get k' = if k' = k then some r else
      (readAll ν storage).get k' := by
  have hs : Sound (readAll ν storage) := sound_readAll storage
  rw [get_readAll_of_fits (hs.set k hr).nodup fun x hx => (hs.set k hr).get hx, JsMap.get_set]

theorem get_delete_written :
    (readAll ν (writeAll ν ((readAll ν storage).delete k))).get k' = if k' = k then none else
      (readAll ν storage).get k' := by
  have hs : Sound (readAll ν storage) := sound_readAll storage
  rw [get_readAll_of_fits (hs.delete k).nodup fun x hx => (hs.delete k).get hx, JsMap.get_delete]

theorem get_set_written_ne (h : k' ≠ k) :
    (readAll ν (writeAll ν ((readAll ν storage).set k r))).get k' = (readAll ν storage).get k' := by
  have hs : Sound (readAll ν storage) := sound_readAll storage
  rw [get_readAll_of_fits (JsMap.nodup_keys_set hs.nodup k r), JsMap.get_set_ne _ _ h]
  intro x hx
  rw [JsMap.get_set_ne _ _ h] at hx
  exact hs.get hx

end Written

/-! ## What each function does to a record -/

/-- The index and the count of a page that is admitted; one message has neither. -/
def Page.numbering (page : Page ν) : Option (Nat × Nat) :=
  if PageNumber.integer page.pageCount = some 0 then some (0, 0)
  else (isPageCount page.pageCount).bind fun count =>
    (within page.pageIndex fun z => decide (z < count)).map fun index => (index, count)

theorem fault_isSome_iff (page : Page ν) : (historyPageFault page.pageIndex page.pageCount).isSome = true ↔
    page.numbering = none := by
  unfold historyPageFault Page.numbering
  split
  · simp
  · cases isPageCount page.pageCount with
    | none => simp
    | some count =>
      dsimp
      cases within page.pageIndex fun z => decide (z < count) <;> simp

theorem numbering_eq_some {page : Page ν} {index count : Nat} (h : page.numbering = some (index, count)) :
    PageNumber.integer page.pageCount = some (count : Int) ∧ count ≤ GRAINE_BUNDLE_MAX_PAGES ∧
      (count = 0 ∧ index = 0 ∨ index < count ∧ PageNumber.integer page.pageIndex = some (index : Int)) := by
  unfold Page.numbering at h
  split at h
  · rename_i hz
    cases h
    exact ⟨hz, Nat.zero_le _, .inl ⟨rfl, rfl⟩⟩
  · obtain ⟨c, hc, h⟩ := bind_eq_some_iff.mp h
    obtain ⟨i, hi, h⟩ := map_eq_some_iff.mp h
    cases h
    obtain ⟨hcz, hcm⟩ := within_eq_some hc
    obtain ⟨hiz, him⟩ := within_eq_some hi
    exact ⟨hcz, by simpa using hcm, .inr ⟨by simpa using him, hiz⟩⟩

def PagedHistoryRecord.absorb (record : PagedHistoryRecord) (page : Page ν) : Option PagedHistoryRecord :=
  if record.requestId ≠ page.requestId then some record
  else match page.numbering with
    | none => some record
    | some (index, count) =>
      if record.refuses page then some record
      else if count = 0 ∨ (addIndex record.received index).length = count then none
      else some { record with sender := some page.sender, pageCount := count, received :=
        (addIndex record.received index).mergeSort (· ≤ ·) }

/-- A record as an ask and its pages leave it: no pages before a sender, and distinct ones in order after. -/
structure PagedHistoryRecord.Clean (r : PagedHistoryRecord) : Prop where
  fits : r.Fits
  noSender : r.sender = none → r.pageCount = 0
  sorted : r.received.Pairwise (· < ·)

theorem mem_addIndex {received : List Nat}
    {index i : Nat} : i ∈ addIndex received index ↔ i ∈ received ∨ i = index := by
  unfold addIndex
  dsimp only
  split
  · rename_i h
    rw [mem_eraseDups] at h
    rw [mem_eraseDups]
    constructor
    · exact .inl
    · intro hi
      rcases hi with hi | rfl
      · exact hi
      · exact h
  · rw [mem_append, mem_eraseDups, mem_singleton]

theorem nodup_addIndex (received : List Nat) (index : Nat) : (addIndex received index).Nodup := by
  unfold addIndex
  dsimp only
  split
  · exact JsMap.nodup_eraseDups received
  · rename_i h
    rw [nodup_append]
    refine ⟨JsMap.nodup_eraseDups received, by simp, ?_⟩
    intro a ha b hb e
    rw [mem_singleton] at hb
    exact h (hb ▸ e ▸ ha)

theorem length_le_of_lt {l : List Nat} (hn : l.Nodup) (hlt : ∀ i ∈ l, i < n) :
    l.length ≤ n ∧ (l.length = n ↔ ∀ i < n, i ∈ l) := by
  have hsub : l ⊆ List.range n := fun i hi => mem_range.mpr (hlt i hi)
  have hle : l.length ≤ n := by simpa using (hn.subperm hsub).length_le
  refine ⟨hle, ?_, ?_⟩
  · intro heq i hi
    have hperm : l.Perm (List.range n) := (hn.subperm hsub).perm_of_length_le (by simp [heq])
    exact hperm.mem_iff.mpr (mem_range.mpr hi)
  · intro hall
    have := (nodup_range.subperm (show List.range n ⊆ l from fun i hi => hall i (mem_range.mp hi))).length_le
    simp at this
    omega

theorem addIndex_lt {record : PagedHistoryRecord} (hc : record.Clean) {page : Page ν} {index count : Nat}
    (hn : page.numbering = some (index, count)) (h0 : count ≠ 0) (hr : record.refuses page = false) :
    ∀ i ∈ addIndex record.received index, i < count := by
  obtain ⟨hcount, -, hidx⟩ := numbering_eq_some hn
  intro i hi
  rcases (mem_addIndex).mp hi with hi | rfl
  · have hlt := hc.fits.indexes i hi
    cases hs : record.sender with
    | none =>
      rw [hc.noSender hs] at hlt
      omega
    | some sender =>
      have : record.pageCount = count := by
        simp [PagedHistoryRecord.refuses, hs, hcount] at hr
        omega
      omega
  · rcases hidx with ⟨h, -⟩ | ⟨h, -⟩
    · exact absurd h h0
    · exact h

theorem clean_absorb {record record' : PagedHistoryRecord} (hc : record.Clean) {page : Page ν}
    (h : record.absorb page = some record') :
    record'.Clean := by
  unfold PagedHistoryRecord.absorb at h
  split at h
  · cases h
    exact hc
  · split at h
    · cases h
      exact hc
    · rename_i index count hn
      split at h
      · cases h
        exact hc
      · rename_i hr
        split at h
        · cases h
        · rename_i hopen
          cases h
          rw [not_or] at hopen
          have hlt := addIndex_lt hc hn hopen.1 (by simpa using hr)
          have hnd := nodup_addIndex record.received index
          refine ⟨⟨(numbering_eq_some hn).2.1, ?_, ?_⟩, by simp, ?_⟩
          · rw [length_mergeSort]
            exact (length_le_of_lt hnd hlt).1
          · intro i hi
            exact hlt i (mem_mergeSort.mp hi)
          · have hle : ((addIndex record.received index).mergeSort (· ≤ ·)).Pairwise fun a b => decide (a ≤ b) = true :=
              pairwise_mergeSort (fun a b c => by simp only [decide_eq_true_eq]; omega)
                (fun a b => by simp only [Bool.or_eq_true, decide_eq_true_eq]; omega) _
            have hnd' := (mergeSort_perm (addIndex record.received index) fun a b => decide (a ≤ b)).nodup_iff.mpr hnd
            exact (hle.and hnd').imp fun {a b} hab => lt_of_le_of_ne (by simpa using hab.1) hab.2

section Effects

variable {storage : Option JsString} {w w' : JsString}

theorem get_asked (R : JsString) (reask : Bool) :
    (readAll ν (noteHistoryAsked ν storage w R reask).1).get w' =
      if w' = w then some ⟨R, none, 0, [], reask || ((readAll ν storage).get w).any (·.reasked)⟩ else
        (readAll ν storage).get w' :=
  get_set_written ⟨Nat.zero_le _, Nat.zero_le _, by simp⟩

theorem get_forgotten_ne (h : w' ≠ w) :
    (readAll ν (forgetPagedHistoryAnswer ν storage w)).get w' = (readAll ν storage).get w' := by
  unfold forgetPagedHistoryAnswer
  dsimp only
  split
  · rw [get_delete_written, if_neg h]
  · rfl

variable {u : Undo}

theorem get_undone_ne (h : w' ≠ u.workspaceId) : (readAll ν (u.run ν storage)).get w' = (readAll ν storage).get w' := by
  unfold Undo.run
  dsimp only
  split
  · split
    · exact get_set_written_ne h
    · rw [get_delete_written, if_neg h]
  · rfl

theorem undo_stale (h : ∀ r, (readAll ν storage).get u.workspaceId = some r → r.requestId ≠ u.requestId) :
    u.run ν storage = storage := by
  unfold Undo.run
  rw [if_neg]
  intro hany
  obtain ⟨r, hr, he⟩ := (Option.any_eq_true _ _).mp hany
  exact h r hr (by simpa using he)

theorem get_undone (hp : ∀ r, u.previous = some r → r.Fits) :
    u.run ν storage = storage ∨ (readAll ν (u.run ν storage)).get u.workspaceId = u.previous := by
  unfold Undo.run
  dsimp only
  split
  · right
    split
    · rename_i previous hprev
      rw [get_set_written (hp previous hprev), if_pos rfl, hprev]
    · rename_i hprev
      rw [get_delete_written, if_pos rfl, hprev]
  · exact .inl rfl

theorem get_undone_recorded (hp : ∀ r, u.previous = some r → r.Fits) {r : PagedHistoryRecord}
    (hr : (readAll ν storage).get u.workspaceId = some r) (hid : r.requestId = u.requestId) :
    (readAll ν (u.run ν storage)).get u.workspaceId = u.previous := by
  unfold Undo.run
  rw [if_pos (by rw [hr]; simpa using hid)]
  split
  · rename_i previous hprev
    rw [get_set_written (hp previous hprev), if_pos rfl, hprev]
  · rename_i hprev
    rw [get_delete_written, if_pos rfl, hprev]

theorem get_page_ne (page : Page ν)
    (h : w' ≠ w) : (readAll ν (noteHistoryPage storage w page)).get w' = (readAll ν storage).get w' := by
  unfold noteHistoryPage
  dsimp only
  split
  · rfl
  · split
    · rfl
    · split
      · rfl
      · split
        · rfl
        · split
          · rfl
          · rw [get_delete_written, if_neg h]
          · split
            · rw [get_delete_written, if_neg h]
            · exact get_set_written_ne h

theorem get_page (page : Page ν) {record : PagedHistoryRecord} (hr : (readAll ν storage).get w = some record)
    (hc : record.Clean) :
    (readAll ν (noteHistoryPage storage w page)).get w = record.absorb page := by
  have hclean : ∀ r', record.absorb page = some r' → r'.Clean := fun r' h => clean_absorb hc h
  unfold noteHistoryPage
  unfold PagedHistoryRecord.absorb at hclean ⊢
  simp only [hr]
  by_cases hreq : record.requestId ≠ page.requestId
  · rw [if_pos hreq, if_pos hreq, hr]
  rw [if_neg hreq] at hclean ⊢
  rw [if_neg hreq]
  cases hn : page.numbering with
  | none =>
    rw [if_pos ((fault_isSome_iff page).mpr hn), hr]
  | some numbering =>
    obtain ⟨index, count⟩ := numbering
    rw [if_neg (fun hf => by rw [(fault_isSome_iff page).mp hf] at hn; cases hn)]
    rw [hn] at hclean
    dsimp only at hclean ⊢
    by_cases href : record.refuses page = true
    · rw [if_pos href, if_pos href, hr]
    rw [if_neg href] at hclean ⊢
    rw [if_neg href]
    obtain ⟨hcount, -, hidx⟩ := numbering_eq_some hn
    rw [hcount]
    rcases Nat.eq_zero_or_pos count with rfl | hpos
    · exact (get_delete_written).trans (if_pos rfl)
    · have hi : PageNumber.integer page.pageIndex = some (index : Int) := by
        rcases hidx with ⟨h, -⟩ | ⟨-, h⟩
        · omega
        · exact h
      rw [hi]
      split
      · rename_i h
        cases h
      · rename_i h
        have : (count : Int) = 0 := some.inj h
        omega
      · rename_i z _ h
        obtain rfl : (count : Int) = z := some.inj h
        simp only [getD_some, Int.toNat_natCast, Nat.cast_inj]
        by_cases hwhole : (addIndex record.received index).length = count
        · rw [if_pos hwhole, if_pos (.inr hwhole)]
          exact (get_delete_written).trans (if_pos rfl)
        · have hne : ¬ (count = 0 ∨ (addIndex record.received index).length = count) := by
            rw [not_or]
            exact ⟨by omega, hwhole⟩
          rw [if_neg hne] at hclean ⊢
          rw [if_neg hwhole]
          exact (get_set_written (hclean _ rfl).fits).trans (if_pos rfl)

end Effects

/-! ## The first answer -/

section Answer

variable (R : JsString)

def Arrived (sender : JsString) (count index : Nat) (log : List (Page ν)) : Prop :=
  ∃ page ∈ log, page.requestId = R ∧ page.sender = sender ∧ page.numbering = some (index, count)

def Page.answer (page : Page ν) : Option (JsString × Nat) :=
  if page.requestId = R then page.numbering.map fun x => (page.sender, x.2) else none

/-- The sender and the count of the first page of the ask that is numbered as one can be. -/
def firstAnswer (log : List (Page ν)) : Option (JsString × Nat) := log.findSome? (Page.answer R)

/-- The record is of the first answer: gone when all of its pages arrived, and with exactly those that
    arrived before. -/
def Exact (reasked : Bool) (log : List (Page ν)) (record : Option PagedHistoryRecord) : Prop :=
  match firstAnswer R log with
  | none => record = some ⟨R, none, 0, [], reasked⟩
  | some (sender, count) =>
    (record = none ↔ ∀ i < count, Arrived R sender count i log) ∧
    ∀ r, record = some r → r.requestId = R ∧ r.sender = some sender ∧ r.pageCount = count ∧ r.reasked = reasked ∧
      r.received.Pairwise (· < ·) ∧ ∀ i, i ∈ r.received ↔ Arrived R sender count i log

variable {R} {log : List (Page ν)} {page : Page ν} {sender : JsString} {count index : Nat} {reasked : Bool}

theorem arrived_concat : Arrived R sender count index (log ++ [page]) ↔
    Arrived R sender count index log ∨
      (page.requestId = R ∧ page.sender = sender ∧ page.numbering = some (index, count)) := by
  simp [Arrived, or_and_right, exists_or]

theorem firstAnswer_concat : firstAnswer R (log ++ [page]) = (firstAnswer R log).or (page.answer R) := by
  unfold firstAnswer
  cases h : page.answer R <;> simp [h]

theorem answer_eq_some_iff : page.answer R = some (sender, count) ↔
    ∃ index, page.requestId = R ∧ page.sender = sender ∧ page.numbering = some (index, count) := by
  unfold Page.answer
  split
  · rename_i hreq
    rw [map_eq_some_iff]
    constructor
    · intro h
      obtain ⟨⟨i, c⟩, hn, he⟩ := h
      cases he
      exact ⟨i, hreq, rfl, hn⟩
    · intro h
      obtain ⟨i, -, rfl, hn⟩ := h
      exact ⟨(i, count), hn, rfl⟩
  · rename_i hreq
    simp [hreq]

theorem not_arrived (h : firstAnswer R log = none) : ¬ Arrived R sender count index log := by
  intro ha
  obtain ⟨page, hp, hreq, hs, hn⟩ := ha
  have hnone := findSome?_eq_none_iff.mp h page hp
  rw [(answer_eq_some_iff).mpr ⟨index, hreq, hs, hn⟩] at hnone
  cases hnone

/-- The page is of the answer of `sender` in `count` pages, which no record of that answer refuses. -/
theorem absorb_counted {r : PagedHistoryRecord} (hc : r.Clean) (hreq : r.requestId = page.requestId)
    (hn : page.numbering = some (index, count))
    (href : r.refuses page = false) (h0 : count ≠ 0) :
    (r.absorb page = none ↔ ∀ i < count, i ∈ r.received ∨ i = index) ∧
      ∀ r', r.absorb page = some r' → r'.requestId = r.requestId ∧ r'.sender = some page.sender ∧
        r'.pageCount = count ∧ r'.reasked = r.reasked ∧
        ∀ i, i ∈ r'.received ↔ i ∈ r.received ∨ i = index := by
  have hlt := addIndex_lt hc hn h0 href
  have hlen := (length_le_of_lt (nodup_addIndex r.received index) hlt).2
  simp only [mem_addIndex] at hlen
  unfold PagedHistoryRecord.absorb
  rw [if_neg (by simpa using hreq), hn]
  dsimp only
  rw [if_neg (by simp [href])]
  by_cases hwhole : (addIndex r.received index).length = count
  · rw [if_pos (.inr hwhole)]
    exact ⟨by simpa using hlen.mp hwhole, by simp⟩
  · rw [if_neg (by rw [not_or]; exact ⟨h0, hwhole⟩)]
    refine ⟨by simpa using fun h => hwhole (hlen.mpr h), ?_⟩
    intro r' hr'
    cases hr'
    refine ⟨rfl, rfl, rfl, rfl, ?_⟩
    intro i
    rw [mem_mergeSort, mem_addIndex]

theorem absorb_foreign {r : PagedHistoryRecord}
    (h : page.requestId ≠ r.requestId ∨ page.numbering = none ∨ r.refuses page = true) :
    r.absorb page = some r := by
  unfold PagedHistoryRecord.absorb
  split
  · rfl
  · rename_i hreq
    split
    · rfl
    · rename_i hn
      rcases h with h | h | h
      · exact absurd (not_not.mp hreq).symm h
      · rw [h] at hn
        cases hn
      · rw [if_pos h]

theorem exact_step {record : Option PagedHistoryRecord} (hc : ∀ r, record = some r → r.Clean)
    (h : Exact R reasked log record) :
    Exact R reasked (log ++ [page]) (record.bind fun r => r.absorb page) := by
  unfold Exact at h ⊢
  rw [firstAnswer_concat]
  cases hf : firstAnswer R log with
  | none =>
    rw [hf] at h
    subst h
    rw [bind_some]
    cases ha : page.answer R with
    | none =>
      -- not a page of the ask, or not one that can be
      refine absorb_foreign ?_
      by_cases hreq : page.requestId = R
      · right; left
        simpa [Page.answer, hreq] using ha
      · exact .inl hreq
    | some answer =>
      obtain ⟨sender, count⟩ := answer
      obtain ⟨index, hreq, rfl, hn⟩ := (answer_eq_some_iff).mp ha
      rcases Nat.eq_zero_or_pos count with rfl | hpos
      · have hclose : (⟨R, none, 0, [], reasked⟩ : PagedHistoryRecord).absorb page = none := by
          simp [PagedHistoryRecord.absorb, hreq, hn, PagedHistoryRecord.refuses]
        rw [hclose]
        exact ⟨by simp, by simp⟩
      · obtain ⟨h1, h2⟩ := absorb_counted (hc _ rfl) hreq.symm hn rfl (by omega)
        refine ⟨?_, ?_⟩
        · rw [h1]
          refine forall_congr' fun i => imp_congr_right fun _ => ?_
          rw [arrived_concat]
          simp [not_arrived hf, hreq, hn, eq_comm]
        · intro r hr
          obtain ⟨e1, e2, e3, e4, e5⟩ := h2 r hr
          refine ⟨e1, e2, e3, e4, (clean_absorb (hc _ rfl) hr).sorted, ?_⟩
          intro i
          rw [e5, arrived_concat]
          simp [not_arrived hf, hreq, hn, eq_comm]
  | some answer =>
    obtain ⟨sender, count⟩ := answer
    rw [hf] at h
    obtain ⟨hnone, hsome⟩ := h
    cases record with
    | none =>
      refine ⟨?_, by simp⟩
      simp only [bind_none, true_iff]
      intro i hi
      exact (arrived_concat).mpr (.inl (hnone.mp rfl i hi))
    | some r =>
      obtain ⟨e1, e2, e3, e4, e5, e6⟩ := hsome r rfl
      rw [bind_some]
      have hopen : ¬ ∀ i < count, Arrived R sender count i log := by simpa using hnone
      by_cases hmine : page.requestId = R ∧ page.sender = sender ∧ ∃ index, page.numbering = some (index, count)
      · -- a page of the recorded answer
        obtain ⟨hreq, hs, index, hn⟩ := hmine
        have href : r.refuses page = false := by
          simp [PagedHistoryRecord.refuses, e2, hs, e3, (numbering_eq_some hn).1]
        have h0 : count ≠ 0 := by
          rintro rfl
          exact hopen (by simp)
        obtain ⟨h1, h2⟩ := absorb_counted (hc r rfl) (e1.trans hreq.symm) hn href h0
        have harr : ∀ i, Arrived R sender count i (log ++ [page]) ↔ i ∈ r.received ∨ i = index := by
          intro i
          rw [arrived_concat, e6]
          simp [hreq, hs, hn, eq_comm]
        refine ⟨?_, ?_⟩
        · rw [h1]
          exact forall_congr' fun i => imp_congr_right fun _ => (harr i).symm
        · intro r' hr'
          obtain ⟨d1, d2, d3, d4, d5⟩ := h2 r' hr'
          exact ⟨d1.trans e1, by rw [d2, hs], d3, d4.trans e4, (clean_absorb (hc r rfl) hr').sorted, fun i => (d5 i).trans (harr i).symm⟩
      · -- any other
        have hsame : ∀ i, Arrived R sender count i (log ++ [page]) ↔ Arrived R sender count i log := by
          intro i
          rw [arrived_concat]
          constructor
          · intro h
            rcases h with h | ⟨hr, hs, hn⟩
            · exact h
            · exact absurd ⟨hr, hs, i, hn⟩ hmine
          · exact .inl
        have hkeep : r.absorb page = some r := by
          refine absorb_foreign ?_
          by_cases hreq : page.requestId = R
          · right
            cases hn : page.numbering with
            | none => exact .inl rfl
            | some x =>
              right
              obtain ⟨i, n⟩ := x
              rw [PagedHistoryRecord.refuses, e2]
              simp only [ne_eq, decide_not, Bool.or_eq_true, Bool.not_eq_eq_eq_not, Bool.not_true,
                decide_eq_false_iff_not]
              by_cases hs : page.sender = sender
              · right
                rw [(numbering_eq_some hn).1, e3]
                intro hnc
                have : n = count := by simpa using hnc
                exact hmine ⟨hreq, hs, i, this ▸ hn⟩
              · exact .inl hs
          · exact .inl (e1 ▸ hreq)
        rw [hkeep]
        refine ⟨by simp only [hsame]; simpa using hopen, ?_⟩
        intro r' hr'
        cases hr'
        exact ⟨e1, e2, e3, e4, e5, fun i => (e6 i).trans (hsame i).symm⟩

end Answer

/-! ## Runs -/

structure St (ν : Type) where
  storage : Option JsString
  undos : List Undo
  pages : List (JsString × Page ν)

inductive Ev (ν : Type) where
  | ask (workspaceId requestId : JsString) (reask : Bool)
  | undo (k : Nat)
  | page (workspaceId : JsString) (page : Page ν)
  | forget (workspaceId : JsString)
  | reload

def St.asked (s : St ν) (w R : JsString) (reask : Bool) : St ν :=
  let (storage, undo) := noteHistoryAsked ν s.storage w R reask
  { s with storage := storage, undos := s.undos ++ [undo] }

def step (s : St ν) : Ev ν → Option (St ν)
  | .ask w R reask => some (s.asked w R reask)
  | .undo k => (s.undos[k]?).map fun u => { s with storage := u.run ν s.storage }
  | .page w page => some { s with storage := noteHistoryPage s.storage w page, pages := s.pages ++ [(w, page)] }
  | .forget w => some { s with storage := forgetPagedHistoryAnswer ν s.storage w }
  | .reload => some s

def afterAsk (s₀ : St ν) (w R : JsString) (reask : Bool) : Machine (St ν) (Ev ν) :=
  ⟨(· = { s₀.asked w R reask with pages := [] }), step⟩

def recordOf (s : St ν) (w : JsString) : Option PagedHistoryRecord := (readAll ν s.storage).get w

def St.pagesOf (s : St ν) (w : JsString) : List (Page ν) := (s.pages.filter (·.1 = w)).map (·.2)

/-- The ask stays the recorded one: the community is neither asked again nor forgotten, and the ask is not undone. -/
def Stays (w R : JsString) (s : St ν) : Ev ν → Prop
  | .ask w' _ _ => w' ≠ w
  | .undo k => ∀ u, s.undos[k]? = some u → u.workspaceId = w → u.requestId ≠ R
  | .page _ _ => True
  | .forget w' => w' ≠ w
  | .reload => True

section Runs

variable {s₀ s : St ν} {w R : JsString} {reask : Bool}

def spent (s₀ : St ν) (w : JsString) (reask : Bool) : Bool := reask || (recordOf s₀ w).any (·.reasked)

theorem clean_asked (R : JsString) (reasked : Bool) : (⟨R, none, 0, [], reasked⟩ : PagedHistoryRecord).Clean :=
  ⟨⟨Nat.zero_le _, Nat.zero_le _, by simp⟩, fun _ => rfl, List.Pairwise.nil⟩

theorem recordOf_asked (s : St ν) (w R : JsString) (reask : Bool) :
    recordOf (s.asked w R reask) w = some ⟨R, none, 0, [], spent s w reask⟩ :=
  get_asked R reask |>.trans (if_pos rfl)

theorem requestId_absorb {r r' : PagedHistoryRecord} {page : Page ν} (h : r.absorb page = some r') :
    r'.requestId = r.requestId ∧ r'.reasked = r.reasked := by
  unfold PagedHistoryRecord.absorb at h
  split at h
  · cases h; exact ⟨rfl, rfl⟩
  · split at h
    · cases h; exact ⟨rfl, rfl⟩
    · split at h
      · cases h; exact ⟨rfl, rfl⟩
      · split at h
        · cases h
        · cases h; exact ⟨rfl, rfl⟩

theorem recordOf_page (s : St ν) {w : JsString} (hc : ∀ r, recordOf s w = some r → r.Clean) (page : Page ν) :
    (readAll ν (noteHistoryPage s.storage w page)).get w = (recordOf s w).bind fun r => r.absorb page := by
  cases hr : recordOf s w with
  | none =>
    have hr' : (readAll ν s.storage).get w = none := hr
    rw [bind_none, noteHistoryPage]
    simp only [hr']
  | some r => exact get_page page hr (hc r hr)

structure Kept (w R : JsString) (reasked : Bool) (s : St ν) : Prop where
  clean : ∀ r, recordOf s w = some r → r.Clean
  request : ∀ r, recordOf s w = some r → r.requestId = R
  exact : Exact R reasked (s.pagesOf w) (recordOf s w)

theorem Kept.of_same {s' : St ν} {reasked : Bool} (h : Kept w R reasked s) (hr : recordOf s' w = recordOf s w)
    (hp : s'.pagesOf w = s.pagesOf w) :
    Kept w R reasked s' :=
  ⟨by rw [hr]; exact h.clean, by rw [hr]; exact h.request, by rw [hr, hp]; exact h.exact⟩

theorem kept_step {s' : St ν} {e : Ev ν} {reasked : Bool} (h : Kept w R reasked s) (hk : Stays w R s e)
    (hs : step s e = some s') :
    Kept w R reasked s' := by
  cases e with
  | ask w' R' reask' =>
    cases hs
    exact h.of_same (get_asked R' reask' |>.trans (if_neg (Ne.symm hk))) rfl
  | undo k =>
    obtain ⟨u, hu, rfl⟩ := map_eq_some_iff.mp hs
    refine h.of_same ?_ rfl
    by_cases hw : u.workspaceId = w
    · have hstale : u.run ν s.storage = s.storage := by
        refine undo_stale fun r hr => ?_
        rw [hw] at hr
        rw [h.request r hr]
        exact (hk u hu hw).symm
      show (readAll ν (u.run ν s.storage)).get w = _
      rw [hstale]
      rfl
    · exact get_undone_ne (Ne.symm hw)
  | page w' page =>
    cases hs
    by_cases hw : w' = w
    · subst hw
      have hget := recordOf_page s h.clean page
      have hpages : St.pagesOf { s with storage := noteHistoryPage s.storage w' page, pages :=
        s.pages ++ [(w', page)] } w' =
          s.pagesOf w' ++ [page] := by
        simp [St.pagesOf]
      refine ⟨?_, ?_, ?_⟩
      · intro r hr
        obtain ⟨r₀, hr₀, ha⟩ := bind_eq_some_iff.mp (hget.symm.trans hr)
        exact clean_absorb (h.clean r₀ hr₀) ha
      · intro r hr
        obtain ⟨r₀, hr₀, ha⟩ := bind_eq_some_iff.mp (hget.symm.trans hr)
        exact (requestId_absorb ha).1.trans (h.request r₀ hr₀)
      · rw [hpages]
        have hexact := @exact_step _ _ R _ page _ _ h.clean h.exact
        rw [← hget] at hexact
        exact hexact
    · refine h.of_same (get_page_ne page (Ne.symm hw)) ?_
      simp [St.pagesOf, hw]
  | forget w' =>
    cases hs
    exact h.of_same (get_forgotten_ne (Ne.symm hk)) rfl
  | reload =>
    cases hs
    exact h

theorem kept_of_reach (h : (afterAsk s₀ w R reask).ReachBy (Stays w R) s) : Kept w R (spent s₀ w reask) s := by
  refine Machine.ReachBy.invariant ?_ (fun s e s' hi ho hs => @kept_step _ _ s w R s' e _ hi ho hs) h
  intro s hs
  subst hs
  have hr : recordOf { s₀.asked w R reask with pages := [] } w = some ⟨R, none, 0, [], spent s₀ w reask⟩ :=
    recordOf_asked s₀ w R reask
  refine ⟨?_, ?_, ?_⟩
  · intro r h
    cases hr.symm.trans h
    exact clean_asked R _
  · intro r h
    cases hr.symm.trans h
    rfl
  · rw [hr]
    rfl

/-- A page of another request, or of another sender or count than the recorded ones. -/
def Foreign (r : PagedHistoryRecord) (page : Page ν) : Prop :=
  page.requestId ≠ r.requestId ∨
    ∃ sender, r.sender = some sender ∧
      (page.sender ≠ sender ∨ PageNumber.integer page.pageCount ≠ some (r.pageCount : Int))

theorem noteHistoryPage_foreign {storage : Option JsString} {r : PagedHistoryRecord} {page : Page ν}
    (hr : (readAll ν storage).get w = some r)
    (hf : Foreign r page) : noteHistoryPage storage w page = storage := by
  unfold noteHistoryPage
  simp only [hr]
  split
  · rfl
  · rename_i hreq
    split
    · rfl
    · have href : r.refuses page = true := by
        rcases hf with h | ⟨sender, hs, h⟩
        · exact absurd (not_not.mp hreq).symm h
        · rw [PagedHistoryRecord.refuses, hs]
          simpa using h
      rw [if_pos href]

/-- Once a re-ask was sent, and until the record closes: the community is open before each step, the
    re-ask is not undone, and no ask takes the id of one made before it. -/
def Open (s₀ : St ν) (w : JsString) (s : St ν) (e : Ev ν) : Prop :=
  recordOf s w ≠ none ∧
    match e with
    | .ask w' R' _ => w' = w → ∀ u ∈ s₀.undos, u.requestId ≠ R'
    | .undo k => k ≠ s₀.undos.length
    | _ => True

/-- A record that a re-ask or an ask after it left. -/
structure Reasked (s₀ : St ν) (r : PagedHistoryRecord) : Prop where
  clean : r.Clean
  reasked : r.reasked = true
  later : ∀ u ∈ s₀.undos, u.requestId ≠ r.requestId

/-- The record is such a one, and so is what any undo handed out since would put back. -/
structure Spent (s₀ : St ν) (w : JsString) (s : St ν) : Prop where
  record : ∀ r, recordOf s w = some r → Reasked s₀ r
  prior : ∀ k, k < s₀.undos.length → s.undos[k]? = s₀.undos[k]?
  long : s₀.undos.length < s.undos.length
  undos : ∀ (k : Nat) u, s₀.undos.length < k → s.undos[k]? = some u → u.workspaceId = w → ∃ r,
    u.previous = some r ∧ Reasked s₀ r

theorem spent_step {s' : St ν} {e : Ev ν} (h : Spent s₀ w s) (ho : Open s₀ w s e)
    (hs : step s e = some s') : Spent s₀ w s' := by
  obtain ⟨hopen, ho⟩ := ho
  obtain ⟨r, hr⟩ := ne_none_iff_exists'.mp hopen
  have hrk := h.record r hr
  cases e with
  | ask w' R' reask' =>
    cases hs
    refine ⟨?_, ?_, ?_, ?_⟩
    · intro r' hr'
      by_cases hw : w' = w
      · subst hw
        cases (recordOf_asked s w' R' reask').symm.trans hr'
        refine ⟨clean_asked R' _, ?_, ho rfl⟩
        simp [spent, hr, hrk.reasked]
      · exact h.record r' ((get_asked R' reask' |>.trans (if_neg (Ne.symm hw))).symm.trans hr')
    · intro k hk
      have hlt : k < s.undos.length := hk.trans h.long
      show (s.undos ++ [_])[k]? = _
      rw [getElem?_append_left hlt]
      exact h.prior k hk
    · show _ < (s.undos ++ [_]).length
      rw [length_append]
      exact Nat.lt_add_right _ h.long
    · intro k u hk hu hw
      have hu' : (s.undos ++ [(noteHistoryAsked ν s.storage w' R' reask').2])[k]? = some u := hu
      rcases Nat.lt_or_ge k s.undos.length with hlt | hge
      · rw [getElem?_append_left hlt] at hu'
        exact h.undos k u hk hu' hw
      · rw [getElem?_append_right hge] at hu'
        have hmem := mem_of_getElem? hu'
        rw [mem_singleton] at hmem
        subst hmem
        obtain rfl : w' = w := hw
        exact ⟨r, hr, hrk⟩
  | undo k =>
    obtain ⟨u, hu, rfl⟩ := map_eq_some_iff.mp hs
    refine ⟨?_, h.prior, h.long, h.undos⟩
    intro r' hr'
    have hr'' : (readAll ν (u.run ν s.storage)).get w = some r' := hr'
    by_cases hw : u.workspaceId = w
    · rcases Nat.lt_trichotomy k s₀.undos.length with hlt | rfl | hgt
      · -- the undo of an ask made before the re-ask finds another ask recorded
        have hold : u ∈ s₀.undos := mem_of_getElem? ((h.prior k hlt).symm.trans hu)
        have hstale : u.run ν s.storage = s.storage := by
          refine undo_stale fun x hx => ?_
          rw [hw] at hx
          exact ((h.record x hx).later u hold).symm
        rw [hstale] at hr''
        exact h.record r' hr''
      · exact absurd rfl ho
      · obtain ⟨p, hp, hpk⟩ := h.undos k u hgt hu hw
        rcases @get_undone ν _ s.storage u (fun x hx => by
          cases hp.symm.trans hx; exact hpk.clean.fits) with hsame | hput
        · rw [hsame] at hr''
          exact h.record r' hr''
        · rw [hw, hr'', hp] at hput
          cases hput
          exact hpk
    · rw [get_undone_ne (Ne.symm hw)] at hr''
      exact h.record r' hr''
  | page w' page =>
    cases hs
    refine ⟨?_, h.prior, h.long, h.undos⟩
    intro r' hr'
    have hr'' : (readAll ν (noteHistoryPage s.storage w' page)).get w = some r' := hr'
    by_cases hw : w' = w
    · subst hw
      rw [recordOf_page s (fun x hx => (h.record x hx).clean) page, hr] at hr''
      obtain ⟨h1, h2⟩ := @requestId_absorb ν _ _ _ page hr''
      exact ⟨clean_absorb hrk.clean hr'', h2.trans hrk.reasked, by rw [h1]; exact hrk.later⟩
    · rw [get_page_ne page (Ne.symm hw)] at hr''
      exact h.record r' hr''
  | forget w' =>
    cases hs
    refine ⟨?_, h.prior, h.long, h.undos⟩
    intro r' hr'
    have hr'' : (readAll ν (forgetPagedHistoryAnswer ν s.storage w')).get w = some r' := hr'
    by_cases hw : w' = w
    · subst hw
      unfold forgetPagedHistoryAnswer at hr''
      dsimp only at hr''
      split at hr''
      · rw [get_delete_written, if_pos rfl] at hr''
        cases hr''
      · exact h.record r' hr''
    · rw [get_forgotten_ne (Ne.symm hw)] at hr''
      exact h.record r' hr''
  | reload =>
    cases hs
    exact h

theorem spent_of_reach (hR : ∀ u ∈ s₀.undos, u.requestId ≠ R)
    (h : (afterAsk s₀ w R true).ReachBy (Open s₀ w) s) : Spent s₀ w s := by
  refine Machine.ReachBy.invariant ?_ (fun s e s' hi ho hs => @spent_step _ _ s₀ s w s' e hi ho hs) h
  intro s hs
  subst hs
  have hundos : ∀ k, s₀.undos.length < k → (s₀.undos ++ [(noteHistoryAsked ν s₀.storage w R true).2])[k]? = none := by
    intro k hk
    rw [List.getElem?_eq_none_iff, length_append]
    exact hk
  refine ⟨?_, ?_, ?_, ?_⟩
  · intro r hr
    cases (recordOf_asked s₀ w R true).symm.trans hr
    exact ⟨clean_asked R _, by simp [spent], hR⟩
  · intro k hk
    exact getElem?_append_left hk
  · show _ < (s₀.undos ++ [_]).length
    rw [length_append]
    exact Nat.lt_succ_self _
  · intro k u hk hu
    cases (hundos k hk).symm.trans hu

/-- After an ask of a community is recorded, whatever pages arrive in what order with whatever numbers,
    whatever happens to other communities, and however often the app reloads: the record has exactly the
    pages that arrived of the first answer, is gone exactly when all did (or it was one message), and no
    other page touches the storage. After a re-ask, nothing more is asked for until the record is gone,
    whatever asks follow it and whichever of these fail. -/
theorem record_exact (s₀ : St ν) (w R : JsString) (reask : Bool) :
    (∀ s, (afterAsk s₀ w R reask).ReachBy (Stays w R) s →
      Exact R (spent s₀ w reask) (s.pagesOf w) (recordOf s w) ∧
      ∀ r (page : Page ν), recordOf s w = some r → Foreign r page → noteHistoryPage s.storage w page = s.storage) ∧
    ((∀ u ∈ s₀.undos, u.requestId ≠ R) → ∀ s, (afterAsk s₀ w R true).ReachBy (Open s₀ w) s →
      incompleteHistoryPages ν s.storage w = none) := by
  refine ⟨?_, ?_⟩
  · intro s h
    exact ⟨(kept_of_reach h).exact, fun r page hr hf => noteHistoryPage_foreign hr hf⟩
  · intro hR s h
    have hsp := spent_of_reach hR h
    unfold incompleteHistoryPages
    cases hr : (readAll ν s.storage).get w with
    | none => rfl
    | some r =>
      dsimp only
      rw [if_pos (.inr (hsp.record r hr).reasked)]

end Runs

/-! ## Whole numbers -/

instance : PageNumber Json.Whole where
  integer
    | .of n => some n
    | .infinite => none
  ofNat := .of
  shown
    | .of n => toString n
    | .infinite => "Infinity"
  integer_ofNat _ _ := rfl
  finite_ofNat _ _ := rfl
  reread_ofNat n _ := Json.Whole.ofLiteral_wholeLiteral n

end Canari.Graine.PagedHistory
