/-
  Canari.Chat.PendingMutations — mutations that came before their message
  (`frontend/src/lib/utils/chat/pendingMutations.ts`).

  A deletion, an edit or a reaction may reach a device before the message it is about; it is kept
  and settled when the body comes. Only the author's deletion and edit are applied; a deletion is
  final, else the edits challenge the one the message carries (`foldl_editOne`, `Contest.challenger`),
  and every reaction is written under its key (`foldl_reactOne`, `LastWrite.write`). `bodyFields_eq`
  and `settle_fields` are what a settlement writes, `settle_lists` what becomes of the entries.

  Whatever the entries, the fields read nothing of somebody else's deletions and edits
  (`fields_of_counts`), and each entry is consumed or retained (`disposed_of_settle`).
-/

import Canari.Chat.MessageMerge

namespace Canari.Chat.PendingMutations

open Lib Lib.Json Lib.LastWrite Lib.Contest List
open Lib.Utf16 (JsString)
open Lib.JsText (text)
open Chat.Envelope Chat.EditPrecedence Chat.MessageReactions Chat.MessageMerge
open Mls.Identity (canonicalUserId)

variable {P : Type}

/-! ## Entries and targets -/

/-- What an entry asks for, with the part of it its kind reads; a deletion's rank is read by nobody. -/
inductive Change where
  | delete
  | edit (rank : Instant) (text : Option JsString)
  | reaction (slot : String) (rank : Int) (removed : Option Bool)
  deriving DecidableEq

structure PendingMutation (P : Type) where
  conversationId : String
  messageId : String
  sender : String
  change : Change
  at? : ℚ
  proof : Option P
  deriving DecidableEq

/-- The part of a message a settlement reads; an instant that is absent and one that is `null` are alike. -/
structure SettleTarget (P : Type) where
  id : String
  senderId : String
  content : JsString
  isDeleted : Option Bool
  isEdited : Option Bool
  editedAt : Option Instant
  reactions : Option (List (MessageReaction P))
  restoredUnverified : Option Bool

/-- The fields written; `authorship` and `editProof` may be cleared. -/
structure SettledFields (P : Type) where
  isDeleted : Option Bool
  content : Option JsString
  authorship : Option (Option P)
  editProof : Option (Option P)
  deleteProof : Option P
  isEdited : Option Bool
  editedAt : Option Instant
  reactions : Option (List (MessageReaction P))
  deriving DecidableEq

def SettledFields.empty : SettledFields P := ⟨none, none, none, none, none, none, none, none⟩

structure Settlement (P : Type) where
  fields : Option (SettledFields P)
  discarded : List (PendingMutation P)
  retained : List (PendingMutation P)
  consumed : List (PendingMutation P)

/-! ## Settling -/

structure Sorted (P : Type) where
  discarded : List (PendingMutation P)
  retained : List (PendingMutation P)
  deletion : Option (PendingMutation P)
  edits : List (PendingMutation P)
  reactions : List (PendingMutation P)

def byAuthor (target : SettleTarget P)
    (entry : PendingMutation P) : Bool := canonicalUserId entry.sender = canonicalUserId target.senderId

def sortOne (target : SettleTarget P) (acc : Sorted P) (entry : PendingMutation P) : Sorted P :=
  match entry.change with
  | .reaction _ _ _ => { acc with reactions := acc.reactions ++ [entry] }
  | change =>
    if !byAuthor target entry then
      if truthy target.restoredUnverified then { acc with retained := acc.retained ++ [entry] } else
        { acc with discarded := acc.discarded ++ [entry] }
    else if change = .delete then { acc with deletion := acc.deletion.or (some entry) }
    else { acc with edits := acc.edits ++ [entry] }

def sortEntries (target : SettleTarget P) (entries : List (PendingMutation P)) : Sorted P :=
  entries.foldl (sortOne target) ⟨[], [], none, [], []⟩

variable (ν : Type) [JsNumber ν]

/-- One turn of the loop over the author's edits: the state shown and the edit it came from. -/
def editOne (target : SettleTarget P) (acc : HeldEdit × Option (PendingMutation P)) (entry : PendingMutation P) :
    HeldEdit × Option (PendingMutation P) :=
  match entry.change with
  | .edit rank (some newText) =>
    if editSupersedes ν ⟨rank, newText⟩ (some acc.1) then
      (⟨some rank, applyEditToBody ν target.content newText⟩, some entry) else acc
  | _ => acc

def foldEdits (target : SettleTarget P) (edits : List (PendingMutation P)) : HeldEdit × Option (PendingMutation P) :=
  edits.foldl (editOne ν target) (⟨if truthy target.isEdited then target.editedAt else none, target.content⟩, none)

def Change.editRank : Change → Instant
  | .edit rank _ => rank
  | _ => .notFinite

def reactOne (acc : List (MessageReaction P) × Bool) (entry : PendingMutation P) : List (MessageReaction P) × Bool :=
  match entry.change with
  | .reaction slot rank removed =>
    match applyReaction acc.1 entry.sender slot rank (truthy removed) entry.proof with
    | some next => (next, true)
    | none => acc
  | _ => acc

/-- What a deletion or an edit writes. `deletedText` is the text the app shows for a deleted message. -/
def bodyFields (deletedText : JsString) (target : SettleTarget P) (sorted : Sorted P) : SettledFields P :=
  if truthy target.isDeleted then .empty
  else
    match sorted.deletion with
    | some deletion =>
      { SettledFields.empty with
        isDeleted := some true, content := some deletedText, authorship := some none, editProof :=
          some none, deleteProof := deletion.proof }
    | none =>
      let (current, winner) := foldEdits ν target sorted.edits
      match winner with
      | some winner =>
        { SettledFields.empty with
          content := some current.content, isEdited := some true, editedAt :=
            some winner.change.editRank, editProof := some winner.proof }
      | none => .empty

variable [DecidableEq P]

def settleAgainstPending (deletedText : JsString) (target : SettleTarget P)
    (entries : List (PendingMutation P)) : Settlement P :=
  let sorted := sortEntries target entries
  let (folded, reacted) := sorted.reactions.foldl reactOne (target.reactions.getD [], false)
  let fields := { bodyFields ν deletedText target sorted with reactions := if reacted then some folded else none }
  { fields := if fields = .empty then none else some fields
    discarded := sorted.discarded
    retained := sorted.retained
    consumed := entries.filter fun entry => entry ∉ sorted.retained }

/-! ## The row it is written to -/

def settleTarget (m : StoredMessage P) : SettleTarget P :=
  ⟨m.id, m.senderId, m.content, m.isDeleted, m.isEdited, m.editedAt.join, m.reactions, m.restoredUnverified⟩

def settledStoredPatch (fields : SettledFields P) : StoredMessagePatch P :=
  { senderId := none, content := fields.content, timestamp := none, reactions :=
    fields.reactions, serverTimestamp := none
    isDeleted := fields.isDeleted, isEdited := fields.isEdited, editedAt :=
      fields.editedAt.map some, isFcmPreview := none
    authorship := fields.authorship, editProof := fields.editProof, deleteProof :=
      fields.deleteProof, restoredUnverified := none
    unsentReason := none, mediaPurgedAt := none, pageKey := none }

/-- The row after its entries were settled; `null` leaves it. -/
def settleRow (deletedText : JsString) (row : StoredMessage P) (entries : List (PendingMutation P)) : StoredMessage P :=
  match (settleAgainstPending ν deletedText (settleTarget row) entries).fields with
  | some fields => mergeStoredMessage row (settledStoredPatch fields)
  | none => row

/-! ## What the first loop leaves -/

def PendingMutation.isReaction (e : PendingMutation P) : Bool :=
  match e.change with
  | .reaction _ _ _ => true
  | _ => false

def PendingMutation.isDelete (e : PendingMutation P) : Bool := e.change = .delete

def refused (target : SettleTarget P) (e : PendingMutation P) : Bool := !e.isReaction && !byAuthor target e

def authorDeletes (target : SettleTarget P) (e : PendingMutation P) : Bool := e.isDelete && byAuthor target e

def authorEdits (target : SettleTarget P)
    (e : PendingMutation P) : Bool := !e.isReaction && !e.isDelete && byAuthor target e

omit [DecidableEq P] in
theorem sortOne_eq (target : SettleTarget P) (acc : Sorted P) (e : PendingMutation P) :
    sortOne target acc e =
      { discarded := acc.discarded ++ [e].filter fun e => refused target e && !truthy target.restoredUnverified
        retained := acc.retained ++ [e].filter fun e => refused target e && truthy target.restoredUnverified
        deletion := acc.deletion.or ([e].find? (authorDeletes target))
        edits := acc.edits ++ [e].filter (authorEdits target)
        reactions := acc.reactions ++ [e].filter PendingMutation.isReaction } := by
  rw [sortOne]
  cases hc : e.change with
  | reaction slot rank removed =>
    have hr : e.isReaction = true := by rw [PendingMutation.isReaction, hc]
    have hd : e.isDelete = false := by simp [PendingMutation.isDelete, hc]
    simp [refused, authorDeletes, authorEdits, hr, hd]
  | delete =>
    have hr : e.isReaction = false := by rw [PendingMutation.isReaction, hc]
    have hd : e.isDelete = true := by simp [PendingMutation.isDelete, hc]
    cases hb : byAuthor target e <;> cases hu : truthy target.restoredUnverified <;>
      simp [refused, authorDeletes, authorEdits, hr, hd, hb]
  | edit rank newText =>
    have hr : e.isReaction = false := by rw [PendingMutation.isReaction, hc]
    have hd : e.isDelete = false := by simp [PendingMutation.isDelete, hc]
    cases hb : byAuthor target e <;> cases hu : truthy target.restoredUnverified <;>
      simp [refused, authorDeletes, authorEdits, hr, hd, hb]

omit [DecidableEq P] in
theorem foldl_sortOne (target : SettleTarget P) (acc : Sorted P) (entries : List (PendingMutation P)) :
    entries.foldl (sortOne target) acc =
      { discarded := acc.discarded ++ entries.filter fun e => refused target e && !truthy target.restoredUnverified
        retained := acc.retained ++ entries.filter fun e => refused target e && truthy target.restoredUnverified
        deletion := acc.deletion.or (entries.find? (authorDeletes target))
        edits := acc.edits ++ entries.filter (authorEdits target)
        reactions := acc.reactions ++ entries.filter PendingMutation.isReaction } := by
  induction entries generalizing acc with
  | nil => simp
  | cons e entries ih =>
    rw [foldl_cons, ih, sortOne_eq]
    simp only [append_assoc, Option.or_assoc]
    rw [← singleton_append (x := e) (l := entries)]
    simp only [filter_append, find?_append]

omit [DecidableEq P] in
theorem sortEntries_eq (target : SettleTarget P) (entries : List (PendingMutation P)) :
    sortEntries target entries =
      { discarded := entries.filter fun e => refused target e && !truthy target.restoredUnverified
        retained := entries.filter fun e => refused target e && truthy target.restoredUnverified
        deletion := entries.find? (authorDeletes target)
        edits := entries.filter (authorEdits target)
        reactions := entries.filter PendingMutation.isReaction } := by
  rw [sortEntries, foldl_sortOne]
  simp

/-! ## The author's edits are challenges -/

structure Offer (P : Type) where
  edit : IncomingEdit
  proof : Option P
  deriving DecidableEq

def offer (e : PendingMutation P) : Option (Offer P) :=
  match e.change with
  | .edit rank (some newText) => some ⟨⟨rank, newText⟩, e.proof⟩
  | _ => none

def offers (target : SettleTarget P)
    (entries : List (PendingMutation P)) : List (Offer P) := (entries.filter (authorEdits target)).filterMap offer

def offerBeats (a b : Offer P) : Bool := beats ν a.edit b.edit

def heldOffer (target : SettleTarget P) : Offer P :=
  ⟨⟨(if truthy target.isEdited then target.editedAt else none).getD .notFinite,
    envelopeBodyText ν target.content⟩, none⟩

/-- What the fold holds once `taker` was taken. -/
def shows (target : SettleTarget P) : Option (Offer P) → HeldEdit
  | none => ⟨if truthy target.isEdited then target.editedAt else none, target.content⟩
  | some w => ⟨some w.edit.editedAt, applyEditToBody ν target.content w.edit.content⟩

variable {ν}

theorem editSupersedes_eq_beats (e : IncomingEdit) (editedAt : Option Instant) (content : JsString) :
    editSupersedes ν e (some ⟨editedAt, content⟩) = beats ν e ⟨editedAt.getD .notFinite,
      envelopeBodyText ν content⟩ := by
  cases editedAt with
  | none => rfl
  | some i => rfl

omit [DecidableEq P] in
theorem editSupersedes_shows (target : SettleTarget P) (taker : Option (Offer P)) (o : Offer P) :
    editSupersedes ν o.edit (some (shows ν target taker)) = offerBeats ν o (taker.getD (heldOffer ν target)) := by
  cases taker with
  | none => exact editSupersedes_eq_beats _ _ _
  | some w =>
    rw [shows, editSupersedes_eq_beats, envelopeBodyText_applyEditToBody]
    rfl

variable {e : PendingMutation P}

omit [DecidableEq P] in
theorem editOne_of_offer (target : SettleTarget P) (acc : HeldEdit × Option (PendingMutation P)) {o : Offer P}
    (h : offer e = some o) :
    editOne ν target acc e =
      if editSupersedes ν o.edit (some acc.1) then (shows ν target (some o), some e) else acc := by
  unfold offer at h
  split at h
  · rename_i rank newText hc
    cases h
    rw [editOne, hc]
    rfl
  · cases h

omit [DecidableEq P] in
theorem editOne_of_no_offer (target : SettleTarget P) (acc : HeldEdit × Option (PendingMutation P))
    (h : offer e = none) :
    editOne ν target acc e = acc := by
  unfold offer at h
  split at h
  · cases h
  · rename_i hc
    rw [editOne]
    split
    · rename_i rank newText hc'
      exact absurd hc' (hc rank newText)
    · rfl

omit [DecidableEq P] in
/-- The loop holds what the last challenger put there. -/
theorem foldl_editOne (target : SettleTarget P) (edits : List (PendingMutation P))
    {winner : Option (PendingMutation P)} {taker : Option (Offer P)}
    (h : winner.bind offer = taker) (hs : winner.isSome = taker.isSome) :
    ∃ winner', edits.foldl (editOne ν target) (shows ν target taker, winner) =
        (shows ν target ((edits.filterMap offer).foldl (challenge (offerBeats ν) (heldOffer ν target)) taker),
          winner') ∧
      winner'.bind offer = (edits.filterMap offer).foldl (challenge (offerBeats ν) (heldOffer ν target)) taker ∧
      winner'.isSome = ((edits.filterMap offer).foldl
        (challenge (offerBeats ν) (heldOffer ν target)) taker).isSome := by
  induction edits generalizing winner taker with
  | nil => exact ⟨winner, rfl, h, hs⟩
  | cons e edits ih =>
    cases ho : offer e with
    | none =>
      rw [filterMap_cons_none ho, foldl_cons, editOne_of_no_offer target _ ho]
      exact ih h hs
    | some o =>
      rw [filterMap_cons_some ho, foldl_cons, foldl_cons, editOne_of_offer target _ ho, editSupersedes_shows, challenge]
      split
      · exact ih ho rfl
      · exact ih h hs

def deletionFields (deletedText : JsString) (proof : Option P) : SettledFields P :=
  { SettledFields.empty with
    isDeleted := some true, content := some deletedText, authorship := some none, editProof :=
      some none, deleteProof := proof }

variable (ν) in
def editFields (content : JsString) : Option (Offer P) → SettledFields P
  | none => .empty
  | some w =>
    { SettledFields.empty with
      content := some (applyEditToBody ν content w.edit.content), isEdited := some true, editedAt :=
        some w.edit.editedAt, editProof := some w.proof }

variable (ν) in
def editTaken (target : SettleTarget P) (entries : List (PendingMutation P)) : Option (Offer P) :=
  challenger (offerBeats ν) (heldOffer ν target) (offers target entries)

omit [DecidableEq P] in
theorem offer_eq_some {o : Offer P}
    (h : offer e = some o) : e.change.editRank = o.edit.editedAt ∧ e.proof = o.proof := by
  unfold offer at h
  split at h
  · rename_i rank newText hc
    cases h
    rw [hc]
    exact ⟨rfl, rfl⟩
  · cases h

omit [DecidableEq P] in
theorem bodyFields_eq (deletedText : JsString) (target : SettleTarget P) (entries : List (PendingMutation P)) :
    bodyFields ν deletedText target (sortEntries target entries) =
      if truthy target.isDeleted then .empty
      else
        match entries.find? (authorDeletes target) with
        | some d => deletionFields deletedText d.proof
        | none => editFields ν target.content (editTaken ν target entries) := by
  rw [sortEntries_eq, bodyFields]
  split
  · rfl
  · split
    · rename_i hd
      simp only at hd
      rw [hd]
      rfl
    · rename_i hd
      simp only at hd
      rw [hd]
      obtain ⟨winner, hfold, hoffer, hsome⟩ :=
        @foldl_editOne P ν _ target (entries.filter (authorEdits target)) none none rfl rfl
      have htaken : (List.filterMap offer (entries.filter (authorEdits target))).foldl
        (challenge (offerBeats ν) (heldOffer ν target)) none =
        editTaken ν target entries := rfl
      rw [htaken] at hfold hoffer hsome
      have hedits : foldEdits ν target
        (entries.filter (authorEdits target)) = (shows ν target (editTaken ν target entries), winner) := hfold
      simp only [hedits]
      cases winner with
      | none =>
        rw [← hoffer]
        rfl
      | some e =>
        have he : offer e = editTaken ν target entries := hoffer
        cases ht : editTaken ν target entries with
        | none =>
          rw [ht] at hsome
          cases hsome
        | some w =>
          rw [ht] at he
          obtain ⟨hrank, hproof⟩ := offer_eq_some he
          simp only [shows, editFields, hrank, hproof]

/-! ## The reactions are writes -/

def frame (e : PendingMutation P) : Option (Frame P) :=
  match e.change with
  | .reaction slot rank removed => some ⟨e.sender, slot, rank, truthy removed, e.proof⟩
  | _ => none

/-- The entries the reactions of a list place, in their order; one without an emoji is refused. -/
def placed (entries : List (PendingMutation P)) : List (MessageReaction P) :=
  ((entries.filterMap frame).filter fun f => f.emoji ≠ "").map Frame.state

omit [DecidableEq P] in
theorem reactOne_of_frame (acc : List (MessageReaction P) × Bool) {f : Frame P} (h : frame e = some f) :
    reactOne acc e = match applyReaction acc.1 f.userId f.emoji f.at? f.removed f.proof with
      | some next => (next, true)
      | none => acc := by
  unfold frame at h
  split at h
  · rename_i slot rank removed hc
    cases h
    rw [reactOne, hc]
  · cases h

omit [DecidableEq P] in
theorem foldl_reactOne {l : List (MessageReaction P)} (hl : (l.map keptUnder).Nodup) (b : Bool)
    (entries : List (PendingMutation P)) :
    (entries.filter PendingMutation.isReaction).foldl reactOne (l, b) =
      ((placed entries).foldl (write keptUnder instant) l, b || (placed entries).any fun r => News l r) := by
  induction entries generalizing l b with
  | nil => simp [placed]
  | cons e entries ih =>
    cases hf : frame e with
    | none =>
      have hr : e.isReaction = false := by
        unfold frame at hf
        split at hf
        · cases hf
        · rename_i hc
          rw [PendingMutation.isReaction]
          split
          · rename_i slot rank removed hc'
            exact absurd hc' (hc slot rank removed)
          · rfl
      have hplaced : placed (e :: entries) = placed entries := by rw [placed, filterMap_cons_none hf, placed]
      rw [filter_cons_of_neg (by simp [hr]), hplaced]
      exact ih hl b
    | some f =>
      have hr : e.isReaction = true := by
        unfold frame at hf
        split at hf
        · rename_i slot rank removed hc
          rw [PendingMutation.isReaction, hc]
        · cases hf
      rw [filter_cons_of_pos hr, foldl_cons, reactOne_of_frame _ hf]
      by_cases he : f.emoji = ""
      · have hplaced : placed (e :: entries) = placed entries := by
          rw [placed, filterMap_cons_some hf, filter_cons_of_neg (by simp [he]), placed]
        have hnone : applyReaction l f.userId f.emoji f.at? f.removed f.proof = none := if_pos he
        rw [hnone, hplaced]
        exact ih hl b
      · have hplaced : placed (e :: entries) = f.state :: placed entries := by
          rw [placed, filterMap_cons_some hf, filter_cons_of_pos (by simp [he]), map_cons, placed]
        rw [applyReaction_eq hl he, hplaced, foldl_cons, any_cons]
        by_cases hn : News l f.state
        · rw [if_pos hn]
          rw [ih (nodup_write hl f.state) true]
          simp [hn]
        · rw [if_neg hn, write_of_not_news hl hn]
          rw [ih hl b]
          simp [hn]

def reactionFields (l : List (MessageReaction P))
    (entries : List (PendingMutation P)) : Option (List (MessageReaction P)) :=
  if (placed entries).any fun r => News l r then some ((placed entries).foldl (write keptUnder instant) l) else none

variable (ν) in
def allFields (deletedText : JsString) (target : SettleTarget P)
    (entries : List (PendingMutation P)) : SettledFields P :=
  { bodyFields ν deletedText target (sortEntries target entries) with reactions := reactionFields (target.reactions.getD []) entries }

theorem settle_fields (deletedText : JsString) {target : SettleTarget P}
    (hl : ((target.reactions.getD []).map keptUnder).Nodup)
    (entries : List (PendingMutation P)) : (settleAgainstPending ν deletedText target entries).fields =
      if allFields ν deletedText target entries = .empty then none else
        some (allFields ν deletedText target entries) := by
  have hreact : (sortEntries target entries).reactions.foldl reactOne (target.reactions.getD [], false) =
      ((placed entries).foldl (write keptUnder instant) (target.reactions.getD []), (placed entries).any fun r => News (target.reactions.getD []) r) := by
    rw [sortEntries_eq, foldl_reactOne hl, Bool.false_or]
  rw [settleAgainstPending, hreact]
  rfl

/-! ## The entries -/

/-- An entry that can change the message: a reaction, or a deletion or an edit of the author. -/
def counts (target : SettleTarget P) (e : PendingMutation P) : Bool := e.isReaction || byAuthor target e

theorem settle_lists (deletedText : JsString) (target : SettleTarget P) (entries : List (PendingMutation P)) :
    (settleAgainstPending ν deletedText target entries).discarded = entries.filter
      (fun e => refused target e && !truthy target.restoredUnverified) ∧
    (settleAgainstPending ν deletedText target entries).retained = entries.filter
      (fun e => refused target e && truthy target.restoredUnverified) ∧
    (settleAgainstPending ν deletedText target entries).consumed =
      entries.filter (fun e => !(refused target e && truthy target.restoredUnverified)) := by
  refine ⟨?_, ?_, ?_⟩
  · rw [settleAgainstPending, sortEntries_eq]
  · rw [settleAgainstPending, sortEntries_eq]
  · rw [settleAgainstPending, sortEntries_eq]
    refine filter_congr fun e he => ?_
    simp [mem_filter, he]

/-- The fields read nothing of the other entries. -/
theorem fields_of_counts (deletedText : JsString) (target : SettleTarget P)
    {entries entries' : List (PendingMutation P)}
    (h : entries'.filter (counts target) = entries.filter (counts target)) :
    (settleAgainstPending ν deletedText target entries').fields =
      (settleAgainstPending ν deletedText target entries).fields := by
  have hsub : ∀ (p : PendingMutation P → Bool), (∀ e, p e = true → counts target e = true) → ∀ es :
    List (PendingMutation P),
      es.filter p = (es.filter (counts target)).filter p := by
    intro p hp es
    rw [filter_filter]
    refine filter_congr fun e _ => ?_
    cases he : p e with
    | false => simp
    | true => simp [hp e he]
  have hreactions := hsub PendingMutation.isReaction fun e he => by simp [counts, he]
  have hedits := hsub (authorEdits target) fun e he => by
    simp only [authorEdits, Bool.and_eq_true] at he
    simp [counts, he.2]
  have hdeletes := hsub (authorDeletes target) fun e he => by
    simp only [authorDeletes, Bool.and_eq_true] at he
    simp [counts, he.2]
  have hfind : entries'.find? (authorDeletes target) = entries.find? (authorDeletes target) := by
    rw [← head?_filter, ← head?_filter, hdeletes entries', hdeletes entries, h]
  have hbody : bodyFields ν deletedText target (sortEntries target entries') = bodyFields ν deletedText target
    (sortEntries target entries) := by
    rw [sortEntries_eq, sortEntries_eq, bodyFields, bodyFields]
    simp only [hfind]
    rw [hedits entries', hedits entries, h]
  have hreact : (sortEntries target entries').reactions = (sortEntries target entries).reactions := by
    rw [sortEntries_eq, sortEntries_eq]
    rw [hreactions entries', hreactions entries, h]
  rw [settleAgainstPending, settleAgainstPending]
  simp only [hbody, hreact]

theorem disposed_of_settle (deletedText : JsString) (target : SettleTarget P) (entries : List (PendingMutation P)) :
    ((settleAgainstPending ν deletedText target entries).consumed ++
      (settleAgainstPending ν deletedText target entries).retained).Perm entries ∧
      ∀ e ∈ (settleAgainstPending ν deletedText target entries).consumed,
        e ∉ (settleAgainstPending ν deletedText target entries).retained := by
  obtain ⟨-, hretained, hconsumed⟩ := settle_lists (ν := ν) deletedText target entries
  rw [hconsumed, hretained]
  refine ⟨perm_append_comm.trans (filter_append_perm _ entries), fun e he hr => ?_⟩
  have hc := (mem_filter.mp he).2
  rw [(mem_filter.mp hr).2] at hc
  cases hc

end Canari.Chat.PendingMutations
