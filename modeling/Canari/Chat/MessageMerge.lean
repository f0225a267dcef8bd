/-
  Canari.Chat.MessageMerge — a notification preview and the body that replaces it
  (`frontend/src/lib/utils/chat/messageMerge.ts`, `frontend/src/lib/db/messagePayload.ts`).

  A push puts a caption on the row before the body is there; the body is then laid over the stored
  row with `previewUpgradeOnto`. A row that is deleted is refused (`previewUpgradeOnto_of_deleted`),
  and so is one that has its body. Text, instant and proof come from the edit that wins (`kept_edit`), so the
  proof kept is of the version whose text is kept.

  Reactions are merged under `pairKey`, which joins user and emoji with a space. A user id is minted
  without one (`userIdRuleBroken`), so a key tells the pairs apart (`samePair_of_keptUnder`) and an
  upgrade replaces a standing reaction only with another entry of its pair. `Row` carries that rule
  and the one entry for each pair a stored row holds; upgrades keep both (`Row.next`).
  `upgrades_keep_the_row` is what a sequence of upgrades keeps.
-/

import Canari.Chat.EditPrecedence
import Canari.Chat.MessageReactions

namespace Canari.Chat.MessageMerge

open Lib Lib.Json Lib.LastWrite List Option
open Lib.Utf16 (JsString)
open Lib.JsText (text)
open Chat.Envelope Chat.EditPrecedence Chat.MessageReactions
open Mls.Identity (canonicalUserId)

variable {P : Type}

/-! ## Previews -/

/-- `s.includes(part)`. -/
def includes (s part : JsString) : Bool := s.tails.any fun rest => part.isPrefixOf rest

def truthy (flag : Option Bool) : Bool := flag = some true

variable (ν : Type) [JsNumber ν]

def isEnvelopeContent (content : JsString) : Bool :=
  content.head? = some 0x7b && includes content (text "\"kind\"") &&
    ((parse content : Option (Value ν)).bind (·.getString "kind")).isSome

def isFcmPreviewContent (content : JsString) : Bool := !isEnvelopeContent ν content

/-- What `shouldUpgradeMessage` and `isPushPreview` read of a row. -/
structure PreviewSide where
  content : JsString
  isFcmPreview : Option Bool
  isDeleted : Option Bool

def shouldUpgradeMessage (existing : PreviewSide) (incomingContent : JsString) : Bool :=
  if !isEnvelopeContent ν incomingContent then false
  else if truthy existing.isDeleted then false
  else if truthy existing.isFcmPreview then true
  else isFcmPreviewContent ν existing.content

/-- The edit a row carries; an instant may be absent or `null`. -/
structure EditedSide where
  senderId : String
  content : JsString
  isEdited : Option Bool
  editedAt : Option (Option Instant)

def previewEditWins (preview upgrade : EditedSide) : Bool :=
  if !truthy preview.isEdited then false
  else if canonicalUserId preview.senderId ≠ canonicalUserId upgrade.senderId then false
  else
    editSupersedes ν ⟨preview.editedAt.join.getD .notFinite, envelopeBodyText ν preview.content⟩
      (if truthy upgrade.isEdited then some ⟨upgrade.editedAt.join, upgrade.content⟩ else none)

def bodyEditedAsPreview (preview upgrade : EditedSide) : JsString :=
    applyEditToBody ν upgrade.content (envelopeBodyText ν preview.content)

/-! ## Stored rows -/

inductive UnsentReason where
  | groupDeleted
  | notAMember

structure PageKey where
  orderAt : ℚ
  id : String
  provisional : Bool
  deriving DecidableEq

/-- A row; `P` is the type of a recorded proof. A field that may be cleared is absent, `null` or a value. -/
structure StoredMessage (P : Type) where
  id : String
  conversationId : String
  senderId : String
  content : JsString
  timestamp : ℚ
  reactions : Option (List (MessageReaction P))
  serverTimestamp : Option ℚ
  isDeleted : Option Bool
  isEdited : Option Bool
  editedAt : Option (Option Instant)
  isFcmPreview : Option Bool
  authorship : Option (Option P)
  editProof : Option (Option P)
  deleteProof : Option P
  restoredUnverified : Option Bool
  unsentReason : Option UnsentReason
  mediaPurgedAt : Option ℚ
  pageKey : Option PageKey

structure StoredMessagePatch (P : Type) where
  senderId : Option String
  content : Option JsString
  timestamp : Option ℚ
  reactions : Option (List (MessageReaction P))
  serverTimestamp : Option ℚ
  isDeleted : Option Bool
  isEdited : Option Bool
  editedAt : Option (Option Instant)
  isFcmPreview : Option Bool
  authorship : Option (Option P)
  editProof : Option (Option P)
  deleteProof : Option P
  restoredUnverified : Option Bool
  unsentReason : Option UnsentReason
  mediaPurgedAt : Option ℚ
  pageKey : Option PageKey

/-- A field the patch does not carry stays; the id and the conversation are never patched. -/
def mergeStoredMessage (msg : StoredMessage P) (patch : StoredMessagePatch P) : StoredMessage P :=
  { msg with
    senderId := patch.senderId.getD msg.senderId
    content := patch.content.getD msg.content
    timestamp := patch.timestamp.getD msg.timestamp
    reactions := patch.reactions.or msg.reactions
    serverTimestamp := patch.serverTimestamp.or msg.serverTimestamp
    isDeleted := patch.isDeleted.or msg.isDeleted
    isEdited := patch.isEdited.or msg.isEdited
    editedAt := patch.editedAt.or msg.editedAt
    isFcmPreview := patch.isFcmPreview.or msg.isFcmPreview
    authorship := patch.authorship.or msg.authorship
    editProof := patch.editProof.or msg.editProof
    deleteProof := patch.deleteProof.or msg.deleteProof
    restoredUnverified := patch.restoredUnverified.or msg.restoredUnverified
    unsentReason := patch.unsentReason.or msg.unsentReason
    mediaPurgedAt := patch.mediaPurgedAt.or msg.mediaPurgedAt
    pageKey := patch.pageKey.or msg.pageKey }

def StoredMessage.previewSide (m : StoredMessage P) : PreviewSide := ⟨m.content, m.isFcmPreview, m.isDeleted⟩

def StoredMessage.editedSide (m : StoredMessage P) : EditedSide := ⟨m.senderId, m.content, m.isEdited, m.editedAt⟩

structure EditFields (P : Type) where
  content : JsString
  isEdited : Bool
  editedAt : Option Instant
  editProof : Option P

def editKept (current upgrade : StoredMessage P) : EditFields P :=
  if previewEditWins ν current.editedSide upgrade.editedSide then
    ⟨bodyEditedAsPreview ν current.editedSide upgrade.editedSide, true, current.editedAt.join, current.editProof.join⟩
  else if truthy upgrade.isEdited then ⟨upgrade.content, true, upgrade.editedAt.join, upgrade.editProof.join⟩
  else ⟨upgrade.content, false, none, none⟩

def previewUpgradeOnto (current upgrade : StoredMessage P) : Option (StoredMessage P) :=
  if !shouldUpgradeMessage ν current.previewSide upgrade.content then none
  else
    let edit := editKept ν current upgrade
    some (mergeStoredMessage current {
      senderId := some upgrade.senderId
      content := some edit.content
      timestamp := some upgrade.timestamp
      reactions := (mergeReactions (current.reactions.getD []) (upgrade.reactions.getD [])).or current.reactions
      serverTimestamp := upgrade.serverTimestamp
      isDeleted := if truthy upgrade.isDeleted then upgrade.isDeleted else none
      isEdited := some edit.isEdited
      editedAt := some edit.editedAt
      isFcmPreview := some false
      authorship := upgrade.authorship
      editProof := some edit.editProof
      deleteProof := upgrade.deleteProof
      restoredUnverified := upgrade.restoredUnverified
      unsentReason := upgrade.unsentReason
      mediaPurgedAt := upgrade.mediaPurgedAt.filter (· ≠ 0)
      pageKey := upgrade.pageKey })

/-! ## Sequences of upgrades -/

/-- What the store holds after an upgrade was given to `mergeMessages`: a `null` leaves the row. -/
def upgradeRow (row upgrade : StoredMessage P) : StoredMessage P := (previewUpgradeOnto ν row upgrade).getD row

def upgradeRows (row : StoredMessage P)
    (upgrades : List (StoredMessage P)) : StoredMessage P := upgrades.foldl (upgradeRow ν) row

/-- Two entries of one user, under any spelling of the id, and one emoji. -/
def SamePair (a b : MessageReaction P) : Prop := canonicalUserId a.userId = canonicalUserId b.userId ∧ a.emoji = b.emoji

/-- The reaction of `r`'s pair is on the row and not taken back. -/
def Stands (row : StoredMessage P)
    (r : MessageReaction P) : Prop := ∃ q ∈ row.reactions.getD [], SamePair q r ∧ q.removed ≠ some true

def CarriesRemoval (upgrade : StoredMessage P) (r : MessageReaction P) : Prop :=
  ∃ q ∈ upgrade.reactions.getD [], SamePair q r ∧ q.removed = some true

/-- `p` is the proof of the edit a version carries, and `t` the text it shows. -/
def Proves (p : P) (t : JsString) (version : StoredMessage P) : Prop :=
  version.editProof.join = some p ∧ envelopeBodyText ν version.content = t

variable {ν}

/-! ## What is written is an envelope -/

theorem includes_of_append (front part back : JsString) : includes (front ++ (part ++ back)) part = true := by
  refine List.any_eq_true.mpr ⟨part ++ back, ?_, List.isPrefixOf_iff_prefix.mpr (prefix_append part back)⟩
  exact (mem_tails _ _).mpr (suffix_append front (part ++ back))

theorem includes_kind (v : Value ν) (slots : List (String × Option (Value ν))) :
    includes (stringify (record (("kind", some v) :: slots))) (text "\"kind\"") = true := by
  have hkey : quoted (text "kind") = text "\"kind\"" := by decide
  have hfirst : record (("kind", some v) :: slots) = .obj
    ((text "kind", v) :: slots.filterMap fun s => s.2.map fun v => (text s.1, v)) := rfl
  rw [hfirst, stringify, hkey]
  exact includes_of_append [0x7b] (text "\"kind\"") _

theorem isEnvelopeContent_record {kind : String} {slots : List (String × Option (Value ν))}
    (h : (record (slots.map fun s => (s.1, s.2.map reread))).get "kind" = none) :
    isEnvelopeContent ν (stringify (record (("kind", some (literal kind)) :: slots))) = true := by
  have hkind : ((parse (stringify (record (("kind", some (literal kind)) :: slots))) : Option (Value ν)).bind
    (·.getString "kind")) = some (text kind) := by
    rw [parse_stringify, reread_record, bind_some, map_cons, map_some, reread_literal, Value.getString,
      get_record_cons, h]
    simp [literal, Value.asString]
  rw [isEnvelopeContent, head_stringify_record, includes_kind, hkind]
  simp

theorem isEnvelopeContent_serializeEnvelope (env : MessageEnvelope ν) :
    isEnvelopeContent ν (serializeEnvelope env) = true := by
  cases env with
  | text t replyTo => exact isEnvelopeContent_record (by simp)
  | media m caption replyTo => exact isEnvelopeContent_record (by simp)
  | system t channelInvite callEvent => exact isEnvelopeContent_record (by simp)
  | poll question options multipleChoice endsAt => exact isEnvelopeContent_record (by simp)

theorem isEnvelopeContent_applyEditToBody (content newText : JsString) :
    isEnvelopeContent ν (applyEditToBody ν content newText) = true :=
  isEnvelopeContent_serializeEnvelope _

/-! ## One upgrade -/

variable {row upgrade upgraded : StoredMessage P}

theorem shouldUpgradeMessage_iff {existing : PreviewSide} {content : JsString} :
    shouldUpgradeMessage ν existing content = true ↔
      isEnvelopeContent ν content = true ∧ truthy existing.isDeleted = false ∧
      (truthy existing.isFcmPreview = true ∨ isEnvelopeContent ν existing.content = false) := by
  rw [shouldUpgradeMessage]
  cases isEnvelopeContent ν content <;> cases truthy existing.isDeleted <;> cases truthy existing.isFcmPreview <;>
    simp [isFcmPreviewContent]

/-- What an upgrade that is taken leaves of the text, the flags and the reactions. -/
theorem previewUpgradeOnto_eq_some (h : previewUpgradeOnto ν row upgrade = some upgraded) :
    shouldUpgradeMessage ν row.previewSide upgrade.content = true ∧
      upgraded.content = (editKept ν row upgrade).content ∧
      upgraded.editProof = some (editKept ν row upgrade).editProof ∧ upgraded.isFcmPreview = some false ∧
      upgraded.reactions = (mergeReactions (row.reactions.getD []) (upgrade.reactions.getD [])).or row.reactions := by
  rw [previewUpgradeOnto] at h
  split at h
  · cases h
  · rename_i hs
    cases h
    refine ⟨by simpa using hs, rfl, rfl, rfl, ?_⟩
    simp [mergeStoredMessage, Option.or_assoc]

theorem previewUpgradeOnto_of_deleted (h : truthy row.isDeleted = true)
    (upgrade : StoredMessage P) : previewUpgradeOnto ν row upgrade = none := by
  have hs : shouldUpgradeMessage ν row.previewSide upgrade.content = false := by
    rw [← Bool.not_eq_true, shouldUpgradeMessage_iff]
    intro hup
    exact Bool.noConfusion (hup.2.1.symm.trans h)
  rw [previewUpgradeOnto, hs]
  rfl

/-- The text kept and its proof are of one edit, or there is no proof. -/
theorem kept_edit (current upgrade : StoredMessage P) :
    (envelopeBodyText ν (editKept ν current upgrade).content = envelopeBodyText ν current.content ∧
      (editKept ν current upgrade).editProof = current.editProof.join) ∨
    ((editKept ν current upgrade).content = upgrade.content ∧
      (editKept ν current upgrade).editProof = upgrade.editProof.join) ∨
    (editKept ν current upgrade).editProof = none := by
  rw [editKept]
  split
  · exact .inl ⟨envelopeBodyText_applyEditToBody ν _ _, rfl⟩
  · split
    · exact .inr (.inl ⟨rfl, rfl⟩)
    · exact .inr (.inr rfl)

theorem proves_upgradeRow {p : P} {t : JsString}
    (h : Proves ν p t (upgradeRow ν row upgrade)) : Proves ν p t row ∨ Proves ν p t upgrade := by
  rw [upgradeRow] at h
  cases hup : previewUpgradeOnto ν row upgrade with
  | none =>
    rw [hup] at h
    exact .inl h
  | some upgraded =>
    obtain ⟨-, hc, hp, -, -⟩ := previewUpgradeOnto_eq_some hup
    rw [hup, getD_some, Proves, hp, hc, join_some] at h
    obtain ⟨hproof, rfl⟩ := h
    rcases kept_edit (ν := ν) row upgrade with ⟨htext, hkept⟩ | ⟨htext, hkept⟩ | hkept
    · exact .inl ⟨hkept.symm.trans hproof, htext.symm⟩
    · exact .inr ⟨hkept.symm.trans hproof, by rw [htext]⟩
    · rw [hkept] at hproof
      cases hproof

/-! ## User ids -/

inductive UserIdRule where
  | empty
  | notVisibleAscii
  | colon

def isVisibleAscii (c : Char) : Bool := 0x21 ≤ c.toNat && c.toNat ≤ 0x7e

/-- The rule a user id is minted under (`apps/core-service/src/users/user-id.ts`). -/
def userIdRuleBroken (id : String) : Option UserIdRule :=
  if id = "" then some .empty
  else if !id.toList.all isVisibleAscii then some .notVisibleAscii
  else if id.toList.contains ':' then some .colon
  else none

theorem userIdRuleBroken_eq_none {id : String} :
    userIdRuleBroken id = none ↔ id ≠ "" ∧ (∀ c ∈ id.toList, isVisibleAscii c = true) ∧ ':' ∉ id.toList := by
  rw [userIdRuleBroken]
  by_cases h : id = ""
  · simp [h]
  · rw [if_neg h]
    split
    · rename_i hv
      refine iff_of_false (by simp) fun hr => ?_
      rw [List.all_eq_true.mpr hr.2.1] at hv
      cases hv
    · rename_i hv
      rw [Bool.not_eq_true', Bool.not_eq_false, List.all_eq_true] at hv
      simp only [h, not_false_eq_true, ne_eq, true_and, contains_iff_mem, ite_eq_right_iff, reduceCtorEq, imp_false]
      exact ⟨fun hc => ⟨hv, hc⟩, fun hr => hr.2⟩

theorem isVisibleAscii_toLower {c : Char} (h : isVisibleAscii c = true) : isVisibleAscii c.toLower = true := by
  rw [isVisibleAscii, Bool.and_eq_true, decide_eq_true_eq, decide_eq_true_eq] at h ⊢
  by_cases hc : c.val ≥ 'A'.val ∧ c.val ≤ 'Z'.val
  · have hv : c.toLower.val = c.val + ('a'.val - 'A'.val) := by delta Char.toLower; rw [dif_pos hc]
    have hn : c.toLower.toNat = (c.toNat + 32) % 2 ^ 32 := by
      change c.toLower.val.toNat = _
      rw [hv, UInt32.toNat_add]
      rfl
    have h2 : c.toNat ≤ 90 := UInt32.le_iff_toNat_le.mp hc.2
    omega
  · have hc' : c.toLower = c := by delta Char.toLower; exact dif_neg hc
    rw [hc']
    exact h

theorem minted_canonicalUserId {id : String}
    (h : userIdRuleBroken id = none) : userIdRuleBroken (canonicalUserId id) = none := by
  rw [userIdRuleBroken_eq_none] at h ⊢
  obtain ⟨hne, hvis, hcolon⟩ := h
  have hlist : (canonicalUserId id).toList = id.toList.map Char.toLower := String.toList_ofList
  refine ⟨fun he => hne ?_, fun c hc => ?_, fun hc => ?_⟩
  · rw [← String.toList_inj] at he ⊢
    rw [hlist] at he
    exact map_eq_nil_iff.mp he
  · rw [hlist] at hc
    obtain ⟨d, hd, rfl⟩ := List.mem_map.mp hc
    exact isVisibleAscii_toLower (hvis d hd)
  · rw [hlist] at hc
    obtain ⟨d, hd, he⟩ := List.mem_map.mp hc
    exact Mls.Identity.toLower_ne_colon (fun e => hcolon (e ▸ hd)) he

theorem space_not_mem {id : String} (h : userIdRuleBroken id = none) : ' ' ∉ id.toList := fun hs =>
  absurd (((userIdRuleBroken_eq_none).mp h).2.1 ' ' hs) (by decide)

theorem split_at_first {sep : Char} {x y u v : List Char} (hx : sep ∉ x) (hy : sep ∉ y)
    (h : x ++ sep :: u = y ++ sep :: v) :
    x = y ∧ u = v := by
  induction x generalizing y with
  | nil =>
    cases y with
    | nil => exact ⟨rfl, tail_eq_of_cons_eq h⟩
    | cons c y => exact absurd (head_eq_of_cons_eq h ▸ mem_cons_self) hy
  | cons c x ih =>
    cases y with
    | nil => exact absurd (head_eq_of_cons_eq h ▸ mem_cons_self) hx
    | cons d y =>
      obtain ⟨rfl, htail⟩ := cons_eq_cons.mp h
      obtain ⟨rfl, rfl⟩ := ih (fun hm => hx (mem_cons_of_mem c hm)) (fun hm => hy (mem_cons_of_mem c hm)) htail
      exact ⟨rfl, rfl⟩

variable {a b : MessageReaction P}

theorem samePair_of_keptUnder (ha : userIdRuleBroken a.userId = none) (hb : userIdRuleBroken b.userId = none)
    (h : keptUnder a = keptUnder b) : SamePair a b := by
  have hsplit : (canonicalUserId a.userId).toList ++ ' ' ::
    a.emoji.toList = (canonicalUserId b.userId).toList ++ ' ' :: b.emoji.toList := by
    have hl := congrArg String.toList h
    simpa [keptUnder, pairKey, normalise] using hl
  have hsa : ' ' ∉ (canonicalUserId a.userId).toList := space_not_mem (minted_canonicalUserId ha)
  have hsb : ' ' ∉ (canonicalUserId b.userId).toList := space_not_mem (minted_canonicalUserId hb)
  obtain ⟨huser, hemoji⟩ := split_at_first hsa hsb hsplit
  exact ⟨String.toList_inj.mp huser, String.toList_inj.mp hemoji⟩

theorem keptUnder_of_samePair (h : SamePair a b) : keptUnder a = keptUnder b := by
  simp [keptUnder, pairKey, normalise, h.1, h.2]

/-! ## The reactions of a row -/

def Distinct (row : StoredMessage P) : Prop := ((row.reactions.getD []).map keptUnder).Nodup

theorem samePair_normalise : SamePair (normalise a) b ↔ SamePair a b := by
  simp [SamePair, normalise, canonicalUserId, Mls.Identity.toAsciiLowercase_idem]

theorem mergeReactions_normalise (l cs : List (MessageReaction P)) :
    mergeReactions (l.map normalise) cs = mergeReactions l cs := by
  have hmap : byPair (l.map normalise) = byPair l := by
    simp [byPair, foldl_map]
  rw [mergeReactions, mergeReactions, hmap]

theorem kept_normalised {l : List (MessageReaction P)} (h : (l.map keptUnder).Nodup) : Kept (l.map normalise) := by
  refine ⟨?_, fun r hr => ?_⟩
  · rw [List.map_map]
    exact h
  · obtain ⟨q, -, rfl⟩ := List.mem_map.mp hr
    exact normalise_normalise q

variable {l cs merged : List (MessageReaction P)}

theorem mergeReactions_eq_some (h : (l.map keptUnder).Nodup) (hm : mergeReactions l cs = some merged) :
    merged = ((cs.filter named).map normalise).foldl (write pairKey instant) (l.map normalise) := by
  have hd := mergeReactions_getD (kept_normalised h) cs
  rwa [mergeReactions_normalise, hm, getD_some] at hd

theorem distinct_merged (h : (l.map keptUnder).Nodup) (hm : mergeReactions l cs = some merged) :
    (merged.map keptUnder).Nodup := by
  have hk : Kept merged := by
    rw [mergeReactions_eq_some h hm]
    refine (kept_normalised h).foldl_write fun r hr => ?_
    obtain ⟨q, -, rfl⟩ := List.mem_map.mp hr
    exact normalise_normalise q
  exact hk.distinct

theorem reactions_upgradeRow (row upgrade : StoredMessage P) :
    (upgradeRow ν row upgrade).reactions = row.reactions ∨
      ∃ merged, mergeReactions (row.reactions.getD []) (upgrade.reactions.getD []) = some merged ∧
        (upgradeRow ν row upgrade).reactions = some merged := by
  rw [upgradeRow]
  cases h : previewUpgradeOnto ν row upgrade with
  | none => exact .inl rfl
  | some upgraded =>
    obtain ⟨-, -, -, -, hre⟩ := previewUpgradeOnto_eq_some h
    cases hm : mergeReactions (row.reactions.getD []) (upgrade.reactions.getD []) with
    | none =>
      rw [hm, none_or] at hre
      exact .inl hre
    | some merged =>
      rw [hm, some_or] at hre
      exact .inr ⟨merged, rfl, hre⟩

theorem distinct_upgradeRow (h : Distinct row) (upgrade : StoredMessage P) : Distinct (upgradeRow ν row upgrade) := by
  rcases reactions_upgradeRow (ν := ν) row upgrade with hre | ⟨merged, hm, hre⟩
  · rw [Distinct, hre]
    exact h
  · rw [Distinct, hre]
    exact distinct_merged h hm

theorem stands_upgradeRow (hd : Distinct row)
    (ha : ∀ r ∈ row.reactions.getD [], ∀ c ∈ upgrade.reactions.getD [], keptUnder c = keptUnder r → SamePair c r)
    {r : MessageReaction P} (hs : Stands row r)
    (hc : ¬ CarriesRemoval upgrade r) : Stands (upgradeRow ν row upgrade) r := by
  rcases reactions_upgradeRow (ν := ν) row upgrade with hre | ⟨merged, hm, hre⟩
  · rw [Stands, hre]
    exact hs
  · obtain ⟨held, hheld, hpair, hplaced⟩ := hs
    have hn : (((row.reactions.getD []).map normalise).map pairKey).Nodup := (kept_normalised hd).1
    have hgood : SamePair (normalise held) r ∧ (normalise held).removed ≠ some true :=
      ⟨(samePair_normalise).mpr hpair, hplaced⟩
    -- what comes under the key of the reaction held is of its pair, and places it again
    have hagain : ∀ f ∈ ((upgrade.reactions.getD []).filter named).map normalise, pairKey f = pairKey (normalise held) →
        (SamePair f r ∧ f.removed ≠ some true) ∨ instant f ≤ instant (normalise held) := by
      intro f hf hk
      obtain ⟨c, hcm, rfl⟩ := List.mem_map.mp hf
      have hcm := mem_of_mem_filter hcm
      have hheldPair := ha held hheld c hcm hk
      have hsame : SamePair c r := ⟨hheldPair.1.trans hpair.1, hheldPair.2.trans hpair.2⟩
      exact .inl ⟨(samePair_normalise).mpr hsame, fun hrem => hc ⟨c, hcm, hsame, hrem⟩⟩
    obtain ⟨q, hq, -, hqr⟩ := exists_good_foldl_write (List.mem_map_of_mem hheld) hgood hn hagain
    rw [← mergeReactions_eq_some hd hm] at hq
    rw [Stands, hre]
    exact ⟨q, hq, hqr⟩

/-! ## Rows and runs of upgrades -/

def Minted (m : StoredMessage P) : Prop := ∀ r ∈ m.reactions.getD [], userIdRuleBroken r.userId = none

/-- A row as the store holds it: one entry for each pair of a user and an emoji (`StoredMessage.reactions`). -/
structure Row (P : Type) where
  message : StoredMessage P
  minted : Minted message
  onePerPair : (message.reactions.getD []).Pairwise fun a b => ¬ SamePair a b

abbrev Upgrade (P : Type) := { m : StoredMessage P // Minted m }

theorem Row.distinct (row : Row P) : Distinct row.message := by
  rw [Distinct, List.Nodup, pairwise_map]
  exact row.onePerPair.imp_of_mem fun ha hb hne hk => hne (samePair_of_keptUnder (row.minted _ ha) (row.minted _ hb) hk)

theorem onePerPair_of_distinct (h : Distinct row) : (row.reactions.getD []).Pairwise fun a b => ¬ SamePair a b := by
  rw [Distinct, List.Nodup, pairwise_map] at h
  exact h.imp fun hne hpair => hne (keptUnder_of_samePair hpair)

theorem minted_upgradeRow (hd : Distinct row) (hr : Minted row)
    (hu : Minted upgrade) : Minted (upgradeRow ν row upgrade) := by
  rcases reactions_upgradeRow (ν := ν) row upgrade with hre | ⟨merged, hm, hre⟩
  · rw [Minted, hre]
    exact hr
  · have hl : Latest pairKey instant ((row.reactions.getD []).map normalise)
      {q | q ∈ (row.reactions.getD []).map normalise} :=
      ⟨(kept_normalised hd).1, fun _ hq => hq, fun q hq => ⟨q, hq, rfl, le_rfl⟩⟩
    have hsub := (hl.foldl_write (((upgrade.reactions.getD []).filter named).map normalise)).sub
    rw [← mergeReactions_eq_some hd hm] at hsub
    rw [Minted, hre]
    intro r hrm
    rcases hsub r hrm with hq | hq
    · obtain ⟨c, hc, rfl⟩ := List.mem_map.mp hq
      exact minted_canonicalUserId (hu c (mem_of_mem_filter hc))
    · obtain ⟨c, hc, rfl⟩ := List.mem_map.mp hq
      exact minted_canonicalUserId (hr c hc)

variable (ν) in
def Row.next (row : Row P) (u : Upgrade P) : Row P where
  message := upgradeRow ν row.message u.val
  minted := minted_upgradeRow row.distinct row.minted u.property
  onePerPair := onePerPair_of_distinct (distinct_upgradeRow row.distinct u.val)

variable (ν) in
def Row.after (row : Row P) (upgrades : List (Upgrade P)) : Row P := upgrades.foldl (Row.next ν) row

theorem Row.after_append (row : Row P)
    (us vs : List (Upgrade P)) : row.after ν (us ++ vs) = (row.after ν us).after ν vs :=
  foldl_append

theorem Row.next_of_deleted {row : Row P} (h : truthy row.message.isDeleted = true)
    (u : Upgrade P) : row.next ν u = row := by
  have hsame : upgradeRow ν row.message u.val = row.message := by
    rw [upgradeRow, previewUpgradeOnto_of_deleted h, getD_none]
  simp only [Row.next, hsame]

theorem Row.after_of_deleted {row : Row P} (h : truthy row.message.isDeleted = true)
    (us : List (Upgrade P)) : row.after ν us = row := by
  induction us with
  | nil => rfl
  | cons u us ih =>
    change (row.next ν u).after ν us = row
    rw [Row.next_of_deleted h]
    exact ih

theorem Row.stands_next {row : Row P} {u : Upgrade P} {r : MessageReaction P} (hs : Stands row.message r)
    (hc : ¬ CarriesRemoval u.val r) :
    Stands (row.next ν u).message r :=
  stands_upgradeRow row.distinct
    (fun q hq c hcm hk => samePair_of_keptUnder (u.property c hcm) (row.minted q hq) hk) hs hc

theorem Row.proves_after {row : Row P} {p : P} {t : JsString} {us : List (Upgrade P)}
    (h : Proves ν p t (row.after ν us).message) :
    ∃ version ∈ row.message :: us.map Subtype.val, Proves ν p t version := by
  induction us generalizing row with
  | nil => exact ⟨row.message, mem_cons_self, h⟩
  | cons u us ih =>
    have hnext : Proves ν p t ((row.next ν u).after ν us).message := h
    obtain ⟨version, hmem, hv⟩ := ih hnext
    rcases mem_cons.mp hmem with rfl | hmem
    · rcases proves_upgradeRow hv with hv | hv
      · exact ⟨row.message, mem_cons_self, hv⟩
      · exact ⟨u.val, mem_cons_of_mem _ mem_cons_self, hv⟩
    · exact ⟨version, mem_cons_of_mem _ (mem_cons_of_mem _ hmem), hv⟩

variable (ν) in
/-- Over every sequence of upgrades: a deletion stays, a reaction stays until an upgrade takes it back,
    and the proof and the text of the edit kept come from one version. -/
theorem upgrades_keep_the_row (row : Row P) (upgrades : List (Upgrade P)) :
    (∀ before after, upgrades = before ++ after → truthy (row.after ν before).message.isDeleted = true →
      row.after ν upgrades = row.after ν before) ∧
    (∀ before u after r, upgrades = before ++ u :: after → Stands (row.after ν before).message r →
      ¬ CarriesRemoval u.val r →
      Stands (row.after ν (before ++ [u])).message r) ∧
    ∀ p, (row.after ν upgrades).message.editProof.join = some p →
      ∃ version ∈ row.message :: upgrades.map Subtype.val,
        Proves ν p (envelopeBodyText ν (row.after ν upgrades).message.content) version := by
  refine ⟨fun before after hus hdel => ?_, fun before u after r _ hs hc => ?_, fun p hp => Row.proves_after ⟨hp, rfl⟩⟩
  · rw [hus, Row.after_append]
    exact Row.after_of_deleted hdel after
  · rw [Row.after_append]
    exact Row.stands_next hs hc

def thumbsUp : MessageReaction String := ⟨"+1", "bob", some 5, none, none⟩

def caption : Row String where
  message :=
    { id := "m1", conversationId := "g1", senderId := "alice", content := text "see you at nine", timestamp :=
      1, reactions := some [thumbsUp]
      serverTimestamp := none, isDeleted := none, isEdited := some true, editedAt :=
        some (some (.finite 7)), isFcmPreview := some true
      authorship := none, editProof := some (some "edit"), deleteProof := none, restoredUnverified :=
        none, unsentReason := none
      mediaPurgedAt := none, pageKey := none }
  minted := by
    intro r hr
    obtain rfl := mem_singleton.mp hr
    decide +kernel
  onePerPair := pairwise_singleton _ _

def body : Upgrade String :=
  ⟨{ caption.message with
      content := text "\x7b\"kind\":\"text\",\"text\":\"see you\"\x7d", reactions :=
        some [⟨"x", "Bob", some 6, none, none⟩], isEdited := none
      editedAt := none, isFcmPreview := none, editProof := none }, by
    intro r hr
    obtain rfl := mem_singleton.mp hr
    decide⟩

/-- The reaction stays, and the text of alice's edit with its proof. -/
theorem caption_upgraded : Stands (caption.after Whole [body]).message thumbsUp ∧
    ∃ version ∈ [caption.message, body.val], Proves Whole "edit" (text "see you at nine") version := by
  obtain ⟨-, hstands, hproof⟩ := upgrades_keep_the_row Whole caption [body]
  have htext : envelopeBodyText Whole (caption.after Whole [body]).message.content = text "see you at nine" := by
    decide +kernel
  refine ⟨hstands [] body [] thumbsUp rfl ⟨thumbsUp, mem_singleton_self _, ⟨rfl, rfl⟩, by decide⟩ ?_, ?_⟩
  · rintro ⟨q, hq, -, hrem⟩
    obtain rfl := mem_singleton.mp hq
    cases hrem
  · rw [← htext]
    exact hproof "edit" (by decide +kernel)

end Canari.Chat.MessageMerge
