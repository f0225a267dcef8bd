/-
  Canari.Chat.MessagePage — a page read from the store, merged into the list on
  screen (`frontend/src/lib/utils/chat/messageMerge.ts`,
  `frontend/src/lib/utils/chat/messageOrder.ts`).

  (1) The order (`precedes_total`, `precedes_trans`, `id_eq_of_precedes`). Rows
  compare by tier, time and id, so the order is total and two rows that tie are one
  message; the sort of a list with distinct ids is one list (`sortMessages_congr`).

  (2) One merge (`mergeMessagePage_eq`). The loop over the rows on screen, with the
  rows of the page it has not met yet in a map, comes to this: each row on screen is
  reconciled with the page's row of its id, or kept, or dropped; the rows the page
  adds follow; the whole is sorted. A row the page omits stays when it is outside the
  page's window or not sent (`kept_of_outside`) and goes otherwise
  (`dropped_of_inside`).

  (3) The same page twice (`merges_iff_repeatable`). A row that is kept on screen as
  it is, or taken from the page, is the same the second time. A row that was given its
  body is not a preview any more, so the second time the page's row replaces it
  whole: what the upgrade had kept of the screen is lost, an edit it carried too. A
  page that holds an edited preview, flagged and with an envelope for content, puts it
  in the place of the body (`an_edited_preview_replaces_a_body`).
-/

import Canari.Chat.MessageMerge
import Canari.Lib.JsMap

namespace Canari.Chat.MessagePage

open Lib Lib.Json List
open Lib.Utf16 (JsString)
open Lib.JsText (text)
open Chat.Envelope Chat.EditPrecedence Chat.MessageMerge

variable {ρ : Type}

/-! ## Messages and their order -/

inductive MessageSendStatus where
  | pending
  | sending
  | sent
  | error
  | unconfirmed
  deriving DecidableEq

/-- A message on screen; a flag that is absent is not set, and `rest` is what a merge only carries along. -/
structure ChatMessage (ρ : Type) where
  id : JsString
  senderId : String
  content : JsString
  timestamp : ℚ
  editedAt : Option Instant
  isOwn : Bool
  isSystem : Option Bool
  status : Option MessageSendStatus
  replyTo : Option MessageReference
  isEdited : Bool
  isDeleted : Bool
  serverTimestamp : Option ℚ
  isFcmPreview : Bool
  awaitingServerId : Bool
  pageKey : Option PageKey
  rest : ρ
  deriving DecidableEq

variable (msg : ChatMessage ρ)

def messageTime : ℚ :=
  match msg.serverTimestamp with
  | some server => if 0 < server then server else msg.timestamp
  | none => msg.timestamp

def isUnsent : Bool :=
  msg.status = some .pending || msg.status = some .sending || msg.status = some .error || msg.status = some .unconfirmed

def awaitsServerTime : Bool :=
  if msg.awaitingServerId then true else if !msg.isOwn || msg.serverTimestamp.isSome then false else isUnsent msg

def tier : ℚ := if awaitsServerTime msg then 1 else 0

def compareMessageOrder (a b : ChatMessage ρ) : ℚ :=
  if tier a ≠ tier b then tier a - tier b
  else if messageTime a - messageTime b ≠ 0 then messageTime a - messageTime b
  else if greater b.id a.id then -1
  else if greater a.id b.id then 1
  else 0

/-- `[...messages].sort(compareMessageOrder)`. -/
def sortMessages (messages : List (ChatMessage ρ)) : List (ChatMessage ρ) :=
    messages.insertionSort fun a b => compareMessageOrder a b ≤ 0

/-! ## Merging -/

def ChatMessage.previewSide (m : ChatMessage ρ) : PreviewSide := ⟨m.content, some m.isFcmPreview, some m.isDeleted⟩

def ChatMessage.editedSide (m : ChatMessage ρ) : EditedSide :=
    ⟨m.senderId, m.content, some m.isEdited, m.editedAt.map some⟩

variable (ν : Type) [JsNumber ν]

def isPushPreview (row : ChatMessage ρ) : Bool :=
    if row.isDeleted then false else row.isFcmPreview || isFcmPreviewContent ν row.content

def mergeMessageUpgrade (existing incoming : ChatMessage ρ) : ChatMessage ρ :=
  let carried := previewEditWins ν existing.editedSide incoming.editedSide
  { existing with
    isEdited := if carried then existing.isEdited else incoming.isEdited
    editedAt := if carried then existing.editedAt else incoming.editedAt
    content := if carried then bodyEditedAsPreview ν existing.editedSide incoming.editedSide else incoming.content
    replyTo := incoming.replyTo.or existing.replyTo
    isSystem := incoming.isSystem.or existing.isSystem
    isFcmPreview := false
    serverTimestamp := incoming.serverTimestamp.or existing.serverTimestamp }

def reconcile (existing incoming : ChatMessage ρ) : ChatMessage ρ :=
  let kept :=
    if shouldUpgradeMessage ν existing.previewSide incoming.content then mergeMessageUpgrade ν existing incoming
    else if isEnvelopeContent ν existing.content && isFcmPreviewContent ν incoming.content then existing
    else incoming
  { kept with pageKey := incoming.pageKey.or kept.pageKey }

/-- One turn of the loop: the rows merged so far, and the rows of the page not yet met. -/
def mergeOne (oldest newest : ChatMessage ρ) (acc : List (ChatMessage ρ) × JsMap JsString (ChatMessage ρ))
    (existing : ChatMessage ρ) :
    List (ChatMessage ρ) × JsMap JsString (ChatMessage ρ) :=
  match acc.2.get existing.id with
  | some incoming => (acc.1 ++ [reconcile ν existing incoming], acc.2.delete existing.id)
  | none =>
    if compareMessageOrder existing oldest < 0 || compareMessageOrder existing newest > 0 || isUnsent existing then
      (acc.1 ++ [existing], acc.2)
    else acc

def byId (messages : List (ChatMessage ρ)) : JsMap JsString (ChatMessage ρ) :=
    messages.foldl (fun m msg => m.set msg.id msg) .empty

def mergeMessagePage (current page : List (ChatMessage ρ)) : List (ChatMessage ρ) :=
  if current.isEmpty then sortMessages page
  else
    match (sortMessages page).head?, (sortMessages page).getLast? with
    | some oldest, some newest =>
      let merging := current.foldl (mergeOne ν oldest newest) ([], byId (sortMessages page))
      sortMessages (merging.1 ++ merging.2.values)
    | _, _ => sortMessages current

variable {ν}

/-! ## A total order -/

def Precedes (a b : ChatMessage ρ) : Prop := compareMessageOrder a b ≤ 0

instance (a b : ChatMessage ρ) : Decidable (Precedes a b) := inferInstanceAs (Decidable (compareMessageOrder a b ≤ 0))

variable {a b : ChatMessage ρ}

theorem precedes_iff : Precedes a b ↔
    tier a < tier b ∨ (tier a = tier b ∧
      (messageTime a < messageTime b ∨ (messageTime a = messageTime b ∧ JsText.Le a.id b.id))) := by
  rw [Precedes, compareMessageOrder]
  by_cases ht : tier a = tier b
  · by_cases hm : messageTime a = messageTime b
    · have hid : (if greater b.id a.id = true then (-1 : ℚ) else if greater a.id b.id = true then 1 else 0) ≤ 0 ↔
        JsText.Le a.id b.id := by
        split_ifs with hb ha
        · exact iff_of_true (by norm_num) ((JsText.le_total a.id b.id).resolve_right (greater_iff.mp hb))
        · exact iff_of_false (by norm_num) (greater_iff.mp ha)
        · exact iff_of_true le_rfl (not_not.mp fun h => ha (greater_iff.mpr h))
      simp [ht, hm, hid]
    · have hne : messageTime a - messageTime b ≠ 0 := sub_ne_zero.mpr hm
      simp [ht, hm, hne, lt_iff_le_and_ne]
  · simp [ht, lt_iff_le_and_ne]

theorem precedes_total (a b : ChatMessage ρ) : Precedes a b ∨ Precedes b a := by
  rw [precedes_iff, precedes_iff]
  rcases lt_trichotomy (tier a) (tier b) with h | h | h
  · exact .inl (.inl h)
  · rcases lt_trichotomy (messageTime a) (messageTime b) with hm | hm | hm
    · exact .inl (.inr ⟨h, .inl hm⟩)
    · rcases JsText.le_total a.id b.id with hid | hid
      · exact .inl (.inr ⟨h, .inr ⟨hm, hid⟩⟩)
      · exact .inr (.inr ⟨h.symm, .inr ⟨hm.symm, hid⟩⟩)
    · exact .inr (.inr ⟨h.symm, .inl hm⟩)
  · exact .inr (.inl h)

theorem precedes_trans {c : ChatMessage ρ} (h : Precedes a b) (h' : Precedes b c) : Precedes a c := by
  rw [precedes_iff] at h h' ⊢
  rcases h with h | ⟨ht, h⟩
  · rcases h' with h' | ⟨ht', -⟩
    · exact .inl (h.trans h')
    · exact .inl (ht' ▸ h)
  · rcases h' with h' | ⟨ht', h'⟩
    · exact .inl (ht ▸ h')
    · refine .inr ⟨ht.trans ht', ?_⟩
      rcases h with h | ⟨hm, h⟩
      · rcases h' with h' | ⟨hm', -⟩
        · exact .inl (h.trans h')
        · exact .inl (hm' ▸ h)
      · rcases h' with h' | ⟨hm', h'⟩
        · exact .inl (hm ▸ h')
        · exact .inr ⟨hm.trans hm', JsText.le_trans h h'⟩

theorem id_eq_of_precedes (h : Precedes a b) (h' : Precedes b a) : a.id = b.id := by
  rw [precedes_iff] at h h'
  rcases h with h | ⟨ht, h⟩
  · rcases h' with h' | ⟨ht', -⟩
    · exact absurd h' h.asymm
    · exact absurd ht' h.ne'
  · rcases h' with h' | ⟨-, h'⟩
    · exact absurd ht h'.ne'
    · rcases h with h | ⟨hm, h⟩
      · rcases h' with h' | ⟨hm', -⟩
        · exact absurd h' h.asymm
        · exact absurd hm' h.ne'
      · rcases h' with h' | ⟨-, h'⟩
        · exact absurd hm h'.ne'
        · exact JsText.le_antisymm h h'

instance : Std.Total (Precedes (ρ := ρ)) := ⟨precedes_total⟩

instance : IsTrans (ChatMessage ρ) Precedes := ⟨fun _ _ _ => precedes_trans⟩

theorem compare_swap (a b : ChatMessage ρ) : compareMessageOrder b a = -compareMessageOrder a b := by
  have hone : ¬ (greater a.id b.id = true ∧ greater b.id a.id = true) := fun h =>
    (JsText.le_total a.id b.id).elim (greater_iff.mp h.1) (greater_iff.mp h.2)
  rw [compareMessageOrder, compareMessageOrder]
  by_cases ht : tier a = tier b
  · by_cases hm : messageTime a = messageTime b
    · cases hab : greater a.id b.id with
      | false => cases hba : greater b.id a.id <;> simp [ht, hm]
      | true =>
        have hba : greater b.id a.id = false := Bool.eq_false_iff.mpr fun h => hone ⟨hab, h⟩
        simp [ht, hm, hba]
    · have hab : messageTime a - messageTime b ≠ 0 := sub_ne_zero.mpr hm
      have hba : messageTime b - messageTime a ≠ 0 := sub_ne_zero.mpr (Ne.symm hm)
      simp [ht, hab, hba]
  · simp [ht, Ne.symm ht]

theorem compare_neg_iff : compareMessageOrder a b < 0 ↔ ¬ Precedes b a := by
  rw [Precedes, compare_swap a b, not_le, Left.neg_pos_iff]

/-! ## Sorting -/

theorem sortMessages_perm (l : List (ChatMessage ρ)) : (sortMessages l).Perm l := perm_insertionSort _ l

variable {l : List (ChatMessage ρ)} {m : ChatMessage ρ}

theorem mem_sortMessages : m ∈ sortMessages l ↔ m ∈ l := (sortMessages_perm l).mem_iff

theorem sortMessages_sorted (l : List (ChatMessage ρ)) : (sortMessages l).Pairwise Precedes :=
    pairwise_insertionSort Precedes l

theorem sortMessages_congr {l' : List (ChatMessage ρ)} (hid : (l.map ChatMessage.id).Nodup)
    (h : l.Perm l') : sortMessages l = sortMessages l' := by
  refine List.Perm.eq_of_pairwise (fun a b ha hb hab hba => ?_) (sortMessages_sorted l) (sortMessages_sorted l')
    ((sortMessages_perm l).trans (h.trans (sortMessages_perm l').symm))
  exact inj_on_of_nodup_map hid ((mem_sortMessages).mp ha) (h.mem_iff.mpr ((mem_sortMessages).mp hb))
    (id_eq_of_precedes hab hba)

/-- Between the oldest row of a page and its newest. -/
def Inside (page : List (ChatMessage ρ))
    (m : ChatMessage ρ) : Prop := (∃ a ∈ page, Precedes a m) ∧ ∃ b ∈ page, Precedes m b

instance (page : List (ChatMessage ρ)) (m : ChatMessage ρ) : Decidable (Inside page m) :=
  inferInstanceAs (Decidable ((∃ a ∈ page, Precedes a m) ∧ ∃ b ∈ page, Precedes m b))

theorem not_inside_iff {page : List (ChatMessage ρ)} {oldest newest : ChatMessage ρ}
    (ho : (sortMessages page).head? = some oldest)
    (hn : (sortMessages page).getLast? = some newest) :
    (compareMessageOrder m oldest < 0 ∨ compareMessageOrder m newest > 0) ↔ ¬ Inside page m := by
  have hsorted := sortMessages_sorted page
  have holdest : ∀ a ∈ page, Precedes oldest a := by
    intro a ha
    rw [← mem_sortMessages] at ha
    obtain ⟨rest, hrest⟩ := head?_eq_some_iff.mp ho
    rw [hrest] at hsorted ha
    rcases mem_cons.mp ha with rfl | ha
    · exact (precedes_total a a).elim id id
    · exact rel_of_pairwise_cons hsorted ha
  have hnewest : ∀ b ∈ page, Precedes b newest := by
    intro b hb
    rw [← mem_sortMessages] at hb
    obtain ⟨rest, hrest⟩ := getLast?_eq_some_iff.mp hn
    rw [hrest] at hsorted hb
    rcases mem_append.mp hb with hb | hb
    · exact (pairwise_append.mp hsorted).2.2 b hb newest (mem_singleton_self _)
    · obtain rfl := mem_singleton.mp hb
      exact (precedes_total b b).elim id id
  have hom : oldest ∈ page := (mem_sortMessages).mp (mem_of_head? ho)
  have hnm : newest ∈ page := (mem_sortMessages).mp (mem_of_getLast? hn)
  have hfirst : Precedes oldest m ↔ ∃ a ∈ page, Precedes a m :=
    ⟨fun h => ⟨oldest, hom, h⟩, fun ⟨a, ha, h⟩ => precedes_trans (holdest a ha) h⟩
  have hlast : Precedes m newest ↔ ∃ b ∈ page, Precedes m b :=
    ⟨fun h => ⟨newest, hnm, h⟩, fun ⟨b, hb, h⟩ => precedes_trans h (hnewest b hb)⟩
  rw [Inside, ← hfirst, ← hlast, compare_neg_iff, gt_iff_lt, ← not_le, not_and_or]
  rfl

/-! ## The rows of a merge -/

variable (ν) in
def placeRow (page : List (ChatMessage ρ)) (incoming : Option (ChatMessage ρ))
    (existing : ChatMessage ρ) : Option (ChatMessage ρ) :=
  match incoming with
  | some incoming => some (reconcile ν existing incoming)
  | none => if ¬ Inside page existing ∨ isUnsent existing = true then some existing else none

def rowOf (page : List (ChatMessage ρ)) (id : JsString) : Option (ChatMessage ρ) := page.find? fun m => m.id = id

variable (ν) in
/-- The rows on screen that stay, then the rows of the page that were not there. -/
def mergedRows (current page : List (ChatMessage ρ)) : List (ChatMessage ρ) :=
  current.filterMap (fun e => placeRow ν page (rowOf page e.id) e) ++ page.filter fun i =>
    i.id ∉ current.map ChatMessage.id

section Loop

variable {page : List (ChatMessage ρ)} {oldest newest : ChatMessage ρ}

theorem mergeOne_eq (ho : (sortMessages page).head? = some oldest) (hn : (sortMessages page).getLast? = some newest)
    (acc : List (ChatMessage ρ) × JsMap JsString (ChatMessage ρ)) (e : ChatMessage ρ) :
    mergeOne ν oldest newest acc e = (acc.1 ++ (placeRow ν page (acc.2.get e.id) e).toList, acc.2.delete e.id) := by
  rw [mergeOne]
  cases hg : acc.2.get e.id with
  | some i => rfl
  | none =>
    have hcond : (decide (compareMessageOrder e oldest < 0) || decide
      (compareMessageOrder e newest > 0) || isUnsent e) = true ↔
        ¬ Inside page e ∨ isUnsent e = true := by
      rw [Bool.or_eq_true, Bool.or_eq_true, decide_eq_true_eq, decide_eq_true_eq, not_inside_iff ho hn]
    rw [JsMap.delete_of_get_none hg]
    by_cases hk : ¬ Inside page e ∨ isUnsent e = true
    · simp only [placeRow, if_pos hk, if_pos (hcond.mpr hk)]
      rfl
    · simp only [placeRow, if_neg hk, if_neg fun h => hk (hcond.mp h)]
      rw [Option.toList_none, append_nil]

theorem foldl_mergeOne (ho : (sortMessages page).head? = some oldest) (hn : (sortMessages page).getLast? = some newest)
    {current : List (ChatMessage ρ)} (hc : (current.map ChatMessage.id).Nodup) (acc : List (ChatMessage ρ))
    (m : JsMap JsString (ChatMessage ρ)) :
    current.foldl (mergeOne ν oldest newest) (acc, m) =
      (acc ++ current.filterMap (fun e => placeRow ν page (m.get e.id) e),
        ⟨m.entries.filter fun p => p.1 ∉ current.map ChatMessage.id⟩) := by
  induction current generalizing acc m with
  | nil => simp
  | cons e current ih =>
    rw [map_cons, nodup_cons] at hc
    -- the page's row of another id is not touched by this turn
    have hget : current.filterMap (fun d => placeRow ν page ((m.delete e.id).get d.id) d) =
        current.filterMap fun d => placeRow ν page (m.get d.id) d := by
      refine filterMap_congr fun d hd => ?_
      have hne : d.id ≠ e.id := fun he => hc.1 (he ▸ mem_map_of_mem hd)
      rw [JsMap.get_delete, if_neg hne]
    have hentries : (m.delete e.id).entries.filter (fun p => p.1 ∉ current.map ChatMessage.id) =
        m.entries.filter fun p => p.1 ∉ (e :: current).map ChatMessage.id := by
      rw [JsMap.delete, filter_filter]
      refine filter_congr fun p _ => ?_
      by_cases hp : p.1 = e.id
      · simp [hp]
      · simp [hp, map_cons, mem_cons]
    rw [foldl_cons, mergeOne_eq ho hn, ih hc.2, hget, append_assoc]
    congr 2
    rw [filterMap_cons]
    cases placeRow ν page (m.get e.id) e with
    | none => rfl
    | some r => rfl

theorem byId_entries (hl : (l.map ChatMessage.id).Nodup) : (byId l).entries = l.map fun m => (m.id, m) := by
  rw [byId, JsMap.entries_setAll ChatMessage.id (fun m => m) hl fun _ _ => rfl]
  rfl

theorem get_byId (hl : (l.map ChatMessage.id).Nodup) (id : JsString) : (byId l).get id = rowOf l id := by
  rw [JsMap.get, byId_entries hl, JsMap.lookup_map_key, rowOf]

theorem rowOf_eq_some (hl : (l.map ChatMessage.id).Nodup) {id : JsString} :
    rowOf l id = some m ↔ m ∈ l ∧ m.id = id := JsMap.find?_key_eq_some hl

theorem rowOf_eq_none {id : JsString} : rowOf l id = none ↔ id ∉ l.map ChatMessage.id := by
  rw [rowOf, find?_eq_none]
  simp [eq_comm]

theorem rowOf_perm {l' : List (ChatMessage ρ)} (hl : (l.map ChatMessage.id).Nodup) (h : l.Perm l')
    (id : JsString) : rowOf l id = rowOf l' id := by
  have hl' : (l'.map ChatMessage.id).Nodup := (h.map ChatMessage.id).nodup_iff.mp hl
  refine Option.ext fun m => ?_
  rw [rowOf_eq_some hl, rowOf_eq_some hl', h.mem_iff]

theorem mem_mergedRows {current : List (ChatMessage ρ)} {r : ChatMessage ρ} :
    r ∈ mergedRows ν current page ↔ (∃ e ∈ current, placeRow ν page (rowOf page e.id) e = some r) ∨
      (r ∈ page ∧ r.id ∉ current.map ChatMessage.id) := by
  simp [mergedRows]

theorem id_reconcile {e i : ChatMessage ρ} (h : e.id = i.id) : (reconcile ν e i).id = e.id := by
  rw [reconcile]
  simp only
  split
  · rfl
  · split
    · rfl
    · exact h.symm

theorem id_placeRow (hp : (page.map ChatMessage.id).Nodup) {e r : ChatMessage ρ}
    (h : placeRow ν page (rowOf page e.id) e = some r) : r.id = e.id := by
  cases hi : rowOf page e.id with
  | some i =>
    rw [hi] at h
    cases h
    exact id_reconcile ((rowOf_eq_some hp).mp hi).2.symm
  | none =>
    rw [hi, placeRow] at h
    split at h
    · cases h
      rfl
    · cases h

theorem nodup_mergedRows (hp : (page.map ChatMessage.id).Nodup) {current : List (ChatMessage ρ)}
    (hc : (current.map ChatMessage.id).Nodup) :
    ((mergedRows ν current page).map ChatMessage.id).Nodup := by
  rw [mergedRows, map_append, nodup_append]
  refine ⟨?_, hp.sublist (filter_sublist.map _), ?_⟩
  · -- the ids of the rows that stay are some of theirs
    have hids : (current.filterMap fun e => placeRow ν page (rowOf page e.id) e).map ChatMessage.id =
        (current.filter fun e => (placeRow ν page (rowOf page e.id) e).isSome).map ChatMessage.id := by
      clear hc
      induction current with
      | nil => rfl
      | cons e current ih =>
        rw [filterMap_cons, filter_cons]
        cases hr : placeRow ν page (rowOf page e.id) e with
        | none => exact ih
        | some r =>
          rw [Option.isSome_some, if_pos rfl, map_cons, map_cons, ih, id_placeRow hp hr]
    rw [hids]
    exact hc.sublist (filter_sublist.map _)
  · intro x hx y hy hxy
    obtain ⟨r, hr, rfl⟩ := mem_map.mp hx
    obtain ⟨i, hi, rfl⟩ := mem_map.mp hy
    obtain ⟨e, he, her⟩ := mem_filterMap.mp hr
    have hnot : i.id ∉ current.map ChatMessage.id := by simpa using (mem_filter.mp hi).2
    rw [← hxy, id_placeRow hp her] at hnot
    exact hnot (mem_map_of_mem he)

/-- A merge sorts the rows that stay and the rows the page adds. -/
theorem mergeMessagePage_eq (hp : (page.map ChatMessage.id).Nodup) {current : List (ChatMessage ρ)}
    (hc : (current.map ChatMessage.id).Nodup) :
    mergeMessagePage ν current page = sortMessages (mergedRows ν current page) := by
  rw [mergeMessagePage]
  split
  · rename_i he
    rw [List.isEmpty_iff.mp he, mergedRows]
    simp
  · split
    · rename_i oldest newest ho hn
      have hp' : ((sortMessages page).map ChatMessage.id).Nodup :=
        ((sortMessages_perm page).map ChatMessage.id).nodup_iff.mpr hp
      have hrows : current.filterMap (fun e => placeRow ν page ((byId (sortMessages page)).get e.id) e) =
          current.filterMap fun e => placeRow ν page (rowOf page e.id) e := by
        refine filterMap_congr fun e _ => ?_
        rw [get_byId hp', rowOf_perm hp' (sortMessages_perm page)]
      have hvalues : (⟨(byId (sortMessages page)).entries.filter fun p => p.1 ∉ current.map ChatMessage.id⟩ :
        JsMap JsString (ChatMessage ρ)).values =
          (sortMessages page).filter fun i => i.id ∉ current.map ChatMessage.id := by
        rw [JsMap.values, byId_entries hp', filter_map, map_map]
        exact map_id _
      simp only [foldl_mergeOne ho hn hc, nil_append, hrows, hvalues]
      have hperm : (current.filterMap (fun e => placeRow ν page (rowOf page e.id) e) ++
          (sortMessages page).filter fun i => i.id ∉ current.map ChatMessage.id).Perm (mergedRows ν current page) :=
        ((sortMessages_perm page).filter _).append_left _
      exact (sortMessages_congr (nodup_mergedRows hp hc) hperm.symm).symm
    · rename_i hnone
      have hempty : page = [] := by
        by_contra hne
        have hsorted : sortMessages page ≠ [] := fun h => hne ((sortMessages_perm page).symm.trans (by rw [h])).eq_nil
        exact hnone _ _ (head?_eq_some_head hsorted) (getLast?_eq_some_getLast hsorted)
      have hall : current.filterMap (fun e => placeRow ν ([] : List (ChatMessage ρ)) (rowOf [] e.id) e) = current := by
        have hplace : (fun e : ChatMessage ρ => placeRow ν ([] : List (ChatMessage ρ)) (rowOf [] e.id) e) = some := by
          funext e
          simp [placeRow, rowOf, Inside]
        rw [hplace, filterMap_some]
      rw [hempty, mergedRows, hall, filter_nil, append_nil]

end Loop

/-! ## A row reconciled twice -/

variable (ν) in
/-- A preview whose text was edited: still flagged, with an envelope for content. -/
def isEditedPreview (m : ChatMessage ρ) : Bool := m.isFcmPreview && isEnvelopeContent ν m.content && !m.isDeleted

section Row

variable {e i : ChatMessage ρ}

theorem shouldUpgrade_iff {content : JsString} : shouldUpgradeMessage ν e.previewSide content = true ↔
    isEnvelopeContent ν content = true ∧ e.isDeleted = false ∧
      (e.isFcmPreview = true ∨ isEnvelopeContent ν e.content = false) := by
  rw [shouldUpgradeMessage_iff]
  simp [ChatMessage.previewSide, truthy]

theorem shouldUpgrade_self : shouldUpgradeMessage ν i.previewSide i.content = isEditedPreview ν i := by
  rw [Bool.eq_iff_iff, shouldUpgrade_iff, isEditedPreview]
  cases isEnvelopeContent ν i.content <;> simp [and_comm]

theorem pageKey_or_self (i : ChatMessage ρ) : { i with pageKey := i.pageKey.or i.pageKey } = i := by
  cases hk : i.pageKey <;> simp [← hk]

theorem reconcile_of_upgrade (h : shouldUpgradeMessage ν e.previewSide i.content = true) :
    reconcile ν e i = { mergeMessageUpgrade ν e i with pageKey := i.pageKey.or e.pageKey } := by
  rw [reconcile, if_pos h]
  rfl

theorem reconcile_of_full (hi : isEnvelopeContent ν i.content = false) (he : isEnvelopeContent ν e.content = true) :
    reconcile ν e i = { e with pageKey := i.pageKey.or e.pageKey } := by
  have hs : shouldUpgradeMessage ν e.previewSide i.content = false := by
    rw [← Bool.not_eq_true, shouldUpgrade_iff]
    intro h
    exact Bool.noConfusion (h.1.symm.trans hi)
  rw [reconcile, hs, he, isFcmPreviewContent, hi]
  rfl

theorem reconcile_of_taken (hs : shouldUpgradeMessage ν e.previewSide i.content = false)
    (hk : ¬ (isEnvelopeContent ν e.content = true ∧ isEnvelopeContent ν i.content = false)) : reconcile ν e i = i := by
  have hcond : (isEnvelopeContent ν e.content && isFcmPreviewContent ν i.content) = false := by
    rw [isFcmPreviewContent, Bool.and_eq_false_iff, Bool.not_eq_false']
    by_cases he : isEnvelopeContent ν e.content = true
    · exact .inr (not_not.mp fun h => hk ⟨he, Bool.eq_false_iff.mpr h⟩)
    · exact .inl (Bool.eq_false_iff.mpr he)
  rw [reconcile, hs, hcond]
  exact pageKey_or_self i

theorem isEnvelopeContent_upgrade (h : isEnvelopeContent ν i.content = true) :
    isEnvelopeContent ν (mergeMessageUpgrade ν e i).content = true := by
  change isEnvelopeContent ν
    (if previewEditWins ν e.editedSide i.editedSide then bodyEditedAsPreview ν e.editedSide i.editedSide else
    i.content) = true
  split
  · exact isEnvelopeContent_applyEditToBody _ _
  · exact h

theorem reconcile_self_iff : reconcile ν i i = i ↔ isEditedPreview ν i = false := by
  cases hp : isEditedPreview ν i with
  | true =>
    refine iff_of_false (fun h => ?_) (by simp)
    rw [reconcile_of_upgrade ((shouldUpgrade_self).trans hp)] at h
    have hflag : i.isFcmPreview = true := by
      rw [isEditedPreview, Bool.and_eq_true, Bool.and_eq_true] at hp
      exact hp.1.1
    rw [← h] at hflag
    cases hflag
  | false =>
    refine iff_of_true (reconcile_of_taken ((shouldUpgrade_self).trans hp) fun h => ?_) rfl
    exact Bool.noConfusion (h.1.symm.trans h.2)

/-- The second time the same row of a page comes. -/
theorem reconcile_again_iff : reconcile ν (reconcile ν e i) i = reconcile ν e i ↔
    isEditedPreview ν i = false ∧ (shouldUpgradeMessage ν e.previewSide i.content = true → reconcile ν e i = i) := by
  by_cases hs : shouldUpgradeMessage ν e.previewSide i.content = true
  · have hi := ((shouldUpgrade_iff).mp hs).1
    have henv : isEnvelopeContent ν (reconcile ν e i).content = true := by
      rw [reconcile_of_upgrade hs]
      exact isEnvelopeContent_upgrade hi
    have hflag : (reconcile ν e i).isFcmPreview = false := by
      rw [reconcile_of_upgrade hs]
      rfl
    have hsecond : reconcile ν (reconcile ν e i) i = i := by
      refine reconcile_of_taken ?_ fun h => Bool.noConfusion (hi.symm.trans h.2)
      rw [← Bool.not_eq_true, shouldUpgrade_iff]
      intro h
      rcases h.2.2 with h | h
      · exact Bool.noConfusion (hflag.symm.trans h)
      · exact Bool.noConfusion (h.symm.trans henv)
    rw [hsecond]
    refine ⟨fun h => ⟨?_, fun _ => h.symm⟩, fun h => (h.2 hs).symm⟩
    rw [isEditedPreview, h, hflag]
    rfl
  · have hs' := Bool.eq_false_iff.mpr hs
    by_cases hk : isEnvelopeContent ν e.content = true ∧ isEnvelopeContent ν i.content = false
    · refine iff_of_true ?_ ⟨by rw [isEditedPreview, hk.2, Bool.and_false, Bool.false_and], fun h => absurd h hs⟩
      have hkept := reconcile_of_full (ν := ν) hk.2 hk.1
      have henv : isEnvelopeContent ν (reconcile ν e i).content = true := by
        rw [hkept]
        exact hk.1
      rw [reconcile_of_full hk.2 henv, hkept]
      cases i.pageKey <;> rfl
    · rw [reconcile_of_taken hs' hk, reconcile_self_iff]
      exact ⟨fun h => ⟨h, fun _ => rfl⟩, fun h => h.1⟩

/-- The row on screen that a page's body upgrades says what the page says, apart from its text. -/
structure Matches (ν : Type) [JsNumber ν] (e i : ChatMessage ρ) : Prop where
  notPreview : i.isFcmPreview = false
  isDeleted : e.isDeleted = i.isDeleted
  senderId : e.senderId = i.senderId
  timestamp : e.timestamp = i.timestamp
  isOwn : e.isOwn = i.isOwn
  status : e.status = i.status
  awaitingServerId : e.awaitingServerId = i.awaitingServerId
  rest : e.rest = i.rest
  replyTo : i.replyTo = none → e.replyTo = none
  isSystem : i.isSystem = none → e.isSystem = none
  serverTimestamp : i.serverTimestamp = none → e.serverTimestamp = none
  pageKey : i.pageKey = none → e.pageKey = none
  /-- An edit of the preview that is carried is already in the page. -/
  edit : previewEditWins ν e.editedSide i.editedSide = true →
    e.isEdited = i.isEdited ∧ e.editedAt = i.editedAt ∧ bodyEditedAsPreview ν e.editedSide i.editedSide = i.content

theorem or_eq_left_iff {α : Type} {a b : Option α} : a.or b = a ↔ (a = none → b = none) := by
  cases a <;> simp

theorem ite_eq_right_iff_imp {α : Type} {c : Bool} {a b : α} : (if c then a else b) = b ↔ (c = true → a = b) := by
  cases c <;> simp

theorem matches_iff (hid : e.id = i.id)
    (h : shouldUpgradeMessage ν e.previewSide i.content = true) : reconcile ν e i = i ↔ Matches ν e i := by
  rw [reconcile_of_upgrade h]
  constructor
  · intro heq
    have hedited := congrArg ChatMessage.isEdited heq
    have heditedAt := congrArg ChatMessage.editedAt heq
    have hcontent := congrArg ChatMessage.content heq
    simp only [mergeMessageUpgrade] at hedited heditedAt hcontent
    -- the fields an upgrade leaves as they are on screen
    have hkept : ∀ {α : Type} (f : ChatMessage ρ → α),
      f { mergeMessageUpgrade ν e i with pageKey := i.pageKey.or e.pageKey } = f e → f e = f i :=
      fun f hf => hf.symm.trans (congrArg f heq)
    exact {
      notPreview := (congrArg ChatMessage.isFcmPreview heq).symm
      isDeleted := hkept ChatMessage.isDeleted rfl
      senderId := hkept ChatMessage.senderId rfl
      timestamp := hkept ChatMessage.timestamp rfl
      isOwn := hkept ChatMessage.isOwn rfl
      status := hkept ChatMessage.status rfl
      awaitingServerId := hkept ChatMessage.awaitingServerId rfl
      rest := hkept ChatMessage.rest rfl
      replyTo := (or_eq_left_iff).mp (congrArg ChatMessage.replyTo heq)
      isSystem := (or_eq_left_iff).mp (congrArg ChatMessage.isSystem heq)
      serverTimestamp := (or_eq_left_iff).mp (congrArg ChatMessage.serverTimestamp heq)
      pageKey := (or_eq_left_iff).mp (congrArg ChatMessage.pageKey heq)
      edit := fun hc => by
        rw [hc] at hedited heditedAt hcontent
        exact ⟨hedited, heditedAt, hcontent⟩ }
  · intro hm
    have hedit : ∀ {α : Type} {a b : α}, (previewEditWins ν e.editedSide i.editedSide = true → a = b) →
        (if previewEditWins ν e.editedSide i.editedSide then a else b) = b := fun h => (ite_eq_right_iff_imp).mpr h
    have hreply := (or_eq_left_iff).mpr hm.replyTo
    have hsystem := (or_eq_left_iff).mpr hm.isSystem
    have hserver := (or_eq_left_iff).mpr hm.serverTimestamp
    have hpage := (or_eq_left_iff).mpr hm.pageKey
    rw [mergeMessageUpgrade]
    simp only [hedit fun hc => (hm.edit hc).1, hedit fun hc => (hm.edit hc).2.1, hedit fun hc => (hm.edit hc).2.2,
      hreply, hsystem, hserver, hpage]
    obtain ⟨_, _, _, _, _, _, _, _, _, _, _, _, _, _, _, _⟩ := e
    obtain ⟨_, _, _, _, _, _, _, _, _, _, _, _, _, _, _, _⟩ := i
    obtain ⟨h1, h2, h3, h4, h5, h6, h7, h8, -, -, -, -, -⟩ := hm
    simp only at hid h1 h2 h3 h4 h5 h6 h7 h8
    simp only [hid, h1, h2, h3, h4, h5, h6, h7, h8]

end Row

/-! ## What a merge promises -/

/-- Messages under their ids; the store and the list on screen hold an id once. -/
structure Messages (ρ : Type) where
  rows : List (ChatMessage ρ)
  distinct : (rows.map ChatMessage.id).Nodup

variable (ν) in
def isFull (m : ChatMessage ρ) : Bool := !m.isDeleted && !isPushPreview ν m

/-- Sorted, each id once, every row of the page there, the rows outside its window or not sent kept and
    the others it omits dropped, no body replaced by a preview; and the same page changes nothing the
    second time. -/
structure Merges (ν : Type) [JsNumber ν] (current page : Messages ρ) : Prop where
  sorted : (mergeMessagePage ν current.rows page.rows).Pairwise Precedes
  distinct : ((mergeMessagePage ν current.rows page.rows).map ChatMessage.id).Nodup
  holds : ∀ i ∈ page.rows, ∃ r ∈ mergeMessagePage ν current.rows page.rows, r.id = i.id ∧
    (i.id ∉ current.rows.map ChatMessage.id → r = i)
  kept : ∀ e ∈ current.rows, ¬ Inside page.rows e ∨ isUnsent e = true →
    ∃ r ∈ mergeMessagePage ν current.rows page.rows, r.id = e.id ∧ (e.id ∉ page.rows.map ChatMessage.id → r = e)
  dropped : ∀ e ∈ current.rows, Inside page.rows e → isUnsent e = false → e.id ∉ page.rows.map ChatMessage.id →
    e.id ∉ (mergeMessagePage ν current.rows page.rows).map ChatMessage.id
  full : ∀ e ∈ current.rows, isFull ν e = true → ∀ r ∈ mergeMessagePage ν current.rows page.rows, r.id = e.id →
    isPushPreview ν r = false
  again : mergeMessagePage ν
    (mergeMessagePage ν current.rows page.rows) page.rows = mergeMessagePage ν current.rows page.rows

structure Repeatable (ν : Type) [JsNumber ν] (current page : Messages ρ) : Prop where
  noEditedPreview : ∀ i ∈ page.rows, isEditedPreview ν i = false
  upgraded : ∀ e ∈ current.rows, ∀ i ∈ page.rows, e.id = i.id →
    shouldUpgradeMessage ν e.previewSide i.content = true → Matches ν e i

section Main

variable {current page : Messages ρ} {r : ChatMessage ρ}

theorem mem_merge : r ∈ mergeMessagePage ν current.rows page.rows ↔
    (∃ e ∈ current.rows, placeRow ν page.rows (rowOf page.rows e.id) e = some r) ∨
      (r ∈ page.rows ∧ r.id ∉ current.rows.map ChatMessage.id) := by
  rw [mergeMessagePage_eq page.distinct current.distinct, mem_sortMessages, mem_mergedRows]

variable (ν) in
theorem nodup_merge (current page : Messages ρ) :
    ((mergeMessagePage ν current.rows page.rows).map ChatMessage.id).Nodup := by
  rw [mergeMessagePage_eq page.distinct current.distinct]
  exact ((sortMessages_perm _).map ChatMessage.id).nodup_iff.mpr (nodup_mergedRows page.distinct current.distinct)

theorem sorted_merge (current page : Messages ρ) : (mergeMessagePage ν current.rows page.rows).Pairwise Precedes := by
  rw [mergeMessagePage_eq page.distinct current.distinct]
  exact sortMessages_sorted _

variable (ν) in
def merged (current page : Messages ρ) : Messages ρ :=
    ⟨mergeMessagePage ν current.rows page.rows, nodup_merge ν current page⟩

theorem placeRow_absent {e : ChatMessage ρ} (h : e.id ∉ page.rows.map ChatMessage.id) :
    placeRow ν page.rows (rowOf page.rows e.id) e = if ¬ Inside page.rows e ∨
      isUnsent e = true then some e else none := by
  rw [rowOf_eq_none.mpr h]
  rfl

theorem placeRow_present {e i : ChatMessage ρ} (hi : i ∈ page.rows) (hid : e.id = i.id) :
    placeRow ν page.rows (rowOf page.rows e.id) e = some (reconcile ν e i) := by
  rw [hid, (rowOf_eq_some page.distinct).mpr ⟨hi, rfl⟩]
  rfl

theorem merged_of_page {i : ChatMessage ρ} (hi : i ∈ page.rows) (hr : r ∈ (merged ν current page).rows)
    (hid : r.id = i.id) :
    (∃ e ∈ current.rows, e.id = i.id ∧ r = reconcile ν e i) ∨ (r = i ∧ i.id ∉ current.rows.map ChatMessage.id) := by
  rcases (mem_merge).mp hr with ⟨e, he, her⟩ | ⟨hrp, hnot⟩
  · have hei : e.id = i.id := (id_placeRow page.distinct her).symm.trans hid
    rw [placeRow_present hi hei] at her
    exact .inl ⟨e, he, hei, (Option.some.inj her).symm⟩
  · have hri : r = i := inj_on_of_nodup_map page.distinct hrp hi hid
    exact .inr ⟨hri, hid ▸ hnot⟩

variable (ν current) in
theorem exists_of_page {i : ChatMessage ρ} (hi : i ∈ page.rows) :
    ∃ r ∈ (merged ν current page).rows, r.id = i.id ∧ (i.id ∉ current.rows.map ChatMessage.id → r = i) := by
  by_cases hin : i.id ∈ current.rows.map ChatMessage.id
  · obtain ⟨e, he, hei⟩ := mem_map.mp hin
    exact ⟨reconcile ν e i, (mem_merge).mpr (.inl ⟨e, he, placeRow_present hi hei⟩), (id_reconcile hei).trans hei,
      fun h => absurd hin h⟩
  · exact ⟨i, (mem_merge).mpr (.inr ⟨hi, hin⟩), rfl, fun _ => rfl⟩

theorem merged_of_current {e : ChatMessage ρ} (he : e ∈ current.rows)
    (hr : r ∈ mergeMessagePage ν current.rows page.rows) (hid : r.id = e.id) :
    placeRow ν page.rows (rowOf page.rows e.id) e = some r := by
  rcases (mem_merge).mp hr with ⟨d, hd, hdr⟩ | ⟨-, hnot⟩
  · have hde : d.id = e.id := (id_placeRow page.distinct hdr).symm.trans hid
    rwa [inj_on_of_nodup_map current.distinct hd he hde] at hdr
  · exact absurd (hid ▸ mem_map_of_mem he) hnot

theorem kept_of_outside {e : ChatMessage ρ} (he : e ∈ current.rows) (ho : ¬ Inside page.rows e ∨ isUnsent e = true) :
    ∃ r ∈ mergeMessagePage ν current.rows page.rows, r.id = e.id ∧ (e.id ∉ page.rows.map ChatMessage.id → r = e) := by
  by_cases hin : e.id ∈ page.rows.map ChatMessage.id
  · obtain ⟨i, hi, hie⟩ := mem_map.mp hin
    exact ⟨reconcile ν e i, (mem_merge).mpr (.inl ⟨e, he, placeRow_present hi hie.symm⟩), id_reconcile hie.symm,
      fun h => absurd hin h⟩
  · refine ⟨e, (mem_merge).mpr (.inl ⟨e, he, ?_⟩), rfl, fun _ => rfl⟩
    rw [placeRow_absent hin, if_pos ho]

theorem dropped_of_inside {e : ChatMessage ρ} (he : e ∈ current.rows) (hin : Inside page.rows e)
    (hsent : isUnsent e = false)
    (hnot : e.id ∉ page.rows.map ChatMessage.id) :
    e.id ∉ (mergeMessagePage ν current.rows page.rows).map ChatMessage.id := by
  intro hmem
  obtain ⟨r, hr, hid⟩ := mem_map.mp hmem
  have hplace := merged_of_current he hr hid
  rw [placeRow_absent hnot, if_neg] at hplace
  · cases hplace
  · intro h
    rcases h with h | h
    · exact h hin
    · exact Bool.noConfusion (hsent.symm.trans h)

theorem isFull_iff : isFull ν m = true ↔
    m.isDeleted = false ∧ m.isFcmPreview = false ∧ isEnvelopeContent ν m.content = true := by
  rw [isFull, isPushPreview, isFcmPreviewContent]
  cases m.isDeleted <;> simp

theorem isPushPreview_of_envelope (h : isEnvelopeContent ν m.content = true) :
    isPushPreview ν m = isEditedPreview ν m := by
  rw [isPushPreview, isEditedPreview, isFcmPreviewContent, h]
  cases m.isDeleted <;> simp

theorem isPushPreview_reconcile {e i : ChatMessage ρ} (he : isFull ν e = true) (hi : isEditedPreview ν i = false) :
    isPushPreview ν (reconcile ν e i) = false := by
  obtain ⟨hdel, hflag, henv⟩ := (isFull_iff).mp he
  cases hci : isEnvelopeContent ν i.content with
  | false =>
    rw [reconcile_of_full hci henv, isPushPreview, isFcmPreviewContent]
    simp [hdel, hflag, henv]
  | true =>
    have hs : shouldUpgradeMessage ν e.previewSide i.content = false := by
      rw [← Bool.not_eq_true, shouldUpgrade_iff]
      simp [hflag, henv]
    rw [reconcile_of_taken hs fun h => Bool.noConfusion (hci.symm.trans h.2), isPushPreview_of_envelope hci, hi]

theorem full_stays (hp : ∀ i ∈ page.rows, isEditedPreview ν i = false) {e : ChatMessage ρ} (he : e ∈ current.rows)
    (hfull : isFull ν e = true)
    (hr : r ∈ mergeMessagePage ν current.rows page.rows) (hid : r.id = e.id) : isPushPreview ν r = false := by
  have hplace := merged_of_current he hr hid
  by_cases hin : e.id ∈ page.rows.map ChatMessage.id
  · obtain ⟨i, hi, hie⟩ := mem_map.mp hin
    rw [placeRow_present hi hie.symm] at hplace
    cases hplace
    exact isPushPreview_reconcile hfull (hp i hi)
  · rw [placeRow_absent hin] at hplace
    split at hplace
    · cases hplace
      rw [isFull, Bool.and_eq_true, Bool.not_eq_true', Bool.not_eq_true'] at hfull
      exact hfull.2
    · cases hplace

/-! ## The same page again -/

theorem placeRow_merged (hr : r ∈ (merged ν current page).rows)
    (h : ∀ i ∈ page.rows, r.id = i.id → reconcile ν r i = r) :
    placeRow ν page.rows (rowOf page.rows r.id) r = some r := by
  by_cases hin : r.id ∈ page.rows.map ChatMessage.id
  · obtain ⟨i, hi, hir⟩ := mem_map.mp hin
    rw [placeRow_present hi hir.symm, h i hi hir.symm]
  · rcases (mem_merge).mp hr with ⟨e, -, her⟩ | ⟨hrp, -⟩
    · have hid := id_placeRow page.distinct her
      have hplace := her
      rw [placeRow_absent (hid ▸ hin)] at hplace
      split at hplace
      · cases hplace
        exact her
      · cases hplace
    · exact absurd (mem_map_of_mem hrp) hin

theorem merge_again_iff : mergeMessagePage ν (merged ν current page).rows page.rows = (merged ν current page).rows ↔
    ∀ r ∈ (merged ν current page).rows, ∀ i ∈ page.rows, r.id = i.id → reconcile ν r i = r := by
  constructor
  · intro heq r hr i hi hid
    have hmem : reconcile ν r i ∈ (merged ν current page).rows := by
      rw [← heq]
      exact (mem_merge).mpr (.inl ⟨r, hr, placeRow_present hi hid⟩)
    exact inj_on_of_nodup_map (merged ν current page).distinct hmem hr (id_reconcile hid)
  · intro h
    -- both lists are sorted, hold each id once, and have the same rows
    have hmem : ∀ r, r ∈ mergeMessagePage ν (merged ν current page).rows page.rows ↔
      r ∈ (merged ν current page).rows := by
      intro r
      refine ⟨fun hr => ?_, fun hr => (mem_merge).mpr (.inl ⟨r, hr, placeRow_merged hr (h r hr)⟩)⟩
      rcases (mem_merge).mp hr with ⟨d, hd, hdr⟩ | ⟨hrp, hnot⟩
      · rw [placeRow_merged hd (h d hd)] at hdr
        exact Option.some.inj hdr ▸ hd
      · obtain ⟨d, hd, hid, -⟩ := exists_of_page ν current hrp
        exact absurd (hid ▸ mem_map_of_mem hd) hnot
    have hperm : (mergeMessagePage ν (merged ν current page).rows page.rows).Perm (merged ν current page).rows :=
      (perm_ext_iff_of_nodup (nodup_merge ν _ _).of_map (merged ν current page).distinct.of_map).mpr hmem
    refine List.Perm.eq_of_pairwise (fun a b ha hb hab hba => ?_) (sorted_merge _ _) (sorted_merge _ _) hperm
    exact inj_on_of_nodup_map (merged ν current page).distinct ((hmem a).mp ha) hb (id_eq_of_precedes hab hba)

/-- The rows the page and the screen share are settled by the first merge exactly when the page holds no
    edited preview and an upgrade takes the page's row. -/
theorem settled_iff : (∀ r ∈ (merged ν current page).rows, ∀ i ∈ page.rows, r.id = i.id → reconcile ν r i = r) ↔
    Repeatable ν current page := by
  constructor
  · intro h
    refine ⟨fun i hi => ?_, fun e he i hi hid hs => ?_⟩
    · obtain ⟨r, hr, hid, -⟩ := exists_of_page ν current hi
      have hsettled := h r hr i hi hid
      rcases merged_of_page hi hr hid with ⟨e, -, -, rfl⟩ | ⟨rfl, -⟩
      · exact ((reconcile_again_iff).mp hsettled).1
      · exact reconcile_self_iff.mp hsettled
    · have hr : reconcile ν e i ∈ (merged ν current page).rows :=
        (mem_merge).mpr (.inl ⟨e, he, placeRow_present hi hid⟩)
      have hsettled := h _ hr i hi ((id_reconcile hid).trans hid)
      exact (matches_iff hid hs).mp ((reconcile_again_iff.mp hsettled).2 hs)
  · intro h r hr i hi hid
    rcases merged_of_page hi hr hid with ⟨e, he, hei, rfl⟩ | ⟨rfl, -⟩
    · exact reconcile_again_iff.mpr ⟨h.noEditedPreview i hi,
        fun hs => (matches_iff hei hs).mpr (h.upgraded e he i hi hei hs)⟩
    · exact reconcile_self_iff.mpr (h.noEditedPreview r hi)

end Main

variable (ν) in
/-- A merge keeps its promises exactly when the page holds no edited preview and agrees with every row
    on screen it gives a body to. -/
theorem merges_iff_repeatable (current page : Messages ρ) : Merges ν current page ↔ Repeatable ν current page := by
  constructor
  · intro h
    exact (settled_iff).mp ((merge_again_iff).mp h.again)
  · intro h
    exact {
      sorted := sorted_merge current page
      distinct := nodup_merge ν current page
      holds := fun i hi => exists_of_page ν current hi
      kept := fun e he ho => kept_of_outside he ho
      dropped := fun e he hin hsent hnot => dropped_of_inside he hin hsent hnot
      full := fun e he hfull r hr hid => full_stays h.noEditedPreview he hfull hr hid
      again := (merge_again_iff).mpr ((settled_iff).mpr h) }

def body : ChatMessage Unit where
  id := text "m2"
  senderId := "alice"
  content := text "\x7b\"kind\":\"text\",\"text\":\"see you\"\x7d"
  timestamp := 20
  editedAt := none
  isOwn := false
  isSystem := none
  status := none
  replyTo := none
  isEdited := false
  isDeleted := false
  serverTimestamp := some 21
  isFcmPreview := false
  awaitingServerId := false
  pageKey := none
  rest := ()

def caption : ChatMessage Unit := { body with content := text "see you", isFcmPreview := true }

/-- The screen: an older message, the caption, a row the store no longer has, a row not sent, a later arrival. -/
def screen : Messages Unit where
  rows := [{ body with id := text "m1", serverTimestamp := some 1 }, caption,
    { body with id := text "m3", serverTimestamp := some 22 },
    { body with id := text "m6", serverTimestamp := some 50 },
      { body with id := text "m4", isOwn := true, serverTimestamp := none, status := some .pending }]
  distinct := by decide +kernel

def stored : Messages Unit where
  rows := [{ body with id := text "m5", serverTimestamp := some 30 }, body]
  distinct := by decide

/-- The caption gets its body, and the row the page omits goes. -/
theorem caption_gets_its_body : Merges Whole screen stored ∧
    (mergeMessagePage Whole screen.rows stored.rows).map ChatMessage.id = [text "m1", text "m2", text "m5", text "m6",
      text "m4"] := by
  refine ⟨(merges_iff_repeatable Whole screen stored).mpr ⟨by decide, ?_⟩, by decide +kernel⟩
  intro e he i hi hid _
  have hpair : ∀ e ∈ screen.rows, ∀ i ∈ stored.rows, e.id = i.id → e = caption ∧ i = body := by decide
  obtain ⟨rfl, rfl⟩ := hpair e he i hi hid
  have hedit : previewEditWins Whole caption.editedSide body.editedSide = false := by decide
  exact ⟨rfl, rfl, rfl, rfl, rfl, rfl, rfl, rfl, fun _ => rfl, fun _ => rfl, (fun h => nomatch h), fun _ => rfl,
    fun h => Bool.noConfusion (hedit.symm.trans h)⟩

/-- The body on screen, and the preview the store still holds with the text alice edited. -/
def shown : Messages Unit := ⟨[body], by decide⟩

def editedCaption : Messages Unit :=
    ⟨[{ body with isFcmPreview := true, isEdited := true, editedAt := some (.finite 7) }], by decide⟩

/-- The preview takes the place of the body. -/
theorem an_edited_preview_replaces_a_body : ¬ Merges Whole shown editedCaption := by
  intro h
  have hmerge : mergeMessagePage Whole shown.rows editedCaption.rows = editedCaption.rows := by decide +kernel
  have hpreview := h.full body (mem_singleton_self _) (by decide +kernel)
  rw [hmerge] at hpreview
  exact absurd (hpreview _ (mem_singleton_self _) rfl) (by decide +kernel)

end Canari.Chat.MessagePage
