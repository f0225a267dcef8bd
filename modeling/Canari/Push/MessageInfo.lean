/-
  Canari.Push.MessageInfo — what a push reads of a decrypted message
  (`frontend/src-tauri/src/mobile/proto_fields.rs`: `graine_seeds`,
  `extract_full_message_info`; `push_text.rs`: `PushText::render`).

  Both are calls of the three scanners, on the message and on the parts the scanners found in it,
  and decisions on what they find.
  - `scanners_safe_iff`: the five functions return, with no panic and no overflow, exactly on the
    bytes where no scan they make meets a record whose start and length add up past the last
    position.
  - `hostile_length_breaks_the_scanners`: eleven bytes where none of that holds, on any target.
-/

import Canari.Push.ProtoFields

namespace Canari.Push

open Lib Lib.Usize

variable {t : Target}

/-! ## Values -/

inductive Json where
  | null
  | bool (b : Bool)
  | int (n : Int)
  | float (bits : UInt64)
  | str (s : String)
  | arr (items : List Json)
  | obj (fields : List (String × Json))

namespace Json

/-- `Value::get`. -/
def get (key : String) : Json → Option Json
  | .obj fields => fields.lookup key
  | _ => none

def asStr : Json → Option String
  | .str s => some s
  | _ => none

def asArray : Json → Option (List Json)
  | .arr items => some items
  | _ => none

/-- `value[key] = …`. -/
def set (key : String) (value : Json) : Json → Json
  | .obj fields => .obj (fields.filter (·.1 ≠ key) ++ [(key, value)])
  | other => other

end Json

structure Crates where
  base64Encode : Bytes → String
  /-- `serde_json::from_str`. -/
  jsonFromStr : String → Option Json

/-- `String::from_utf8(..).ok()`. -/
def fromUtf8 (s : Slice t) : Option String := String.fromUTF8? ⟨s.bytes.toArray⟩

/-- `v as i64`. -/
def asI64 (v : UInt64) : Int := v.toBitVec.toInt

/-! ## The sentences -/

inductive PushLanguage where
  | french
  | english

inductive PushText where
  | groupRenamed (newName : Option String)
  | groupImageChanged
  | membersAdded (n : Nat)
  | memberRemoved
  | memberLeft
  | groupDeleted
  | invited (name : Option String)
  | unknownEvent (event : String)
  | reacted (emoji : String)
  | photo
  | video
  | voiceNote
  | audio
  | reel (caption : Option String)
  | attachment
  | poll (question : String)
  | videoCallIncoming
  | callIncoming

def PushText.render (language : PushLanguage) : PushText → String :=
  let pick (fr en : String) : String :=
    match language with
    | .french => fr
    | .english => en
  fun
  | .groupRenamed none => pick "a renommé le groupe" "renamed the group"
  | .groupRenamed (some name) =>
      pick ("a renommé le groupe en « " ++ name ++ " »") ("renamed the group to \"" ++ name ++ "\"")
  | .groupImageChanged => pick "a changé la photo du groupe" "changed the group photo"
  | .membersAdded n =>
    if n ≤ 1 then pick "a ajouté un membre au groupe" "added a member to the group"
    else pick ("a ajouté " ++ toString n ++ " membres au groupe") ("added " ++ toString n ++ " members to the group")
  | .memberRemoved => pick "a retiré un membre du groupe" "removed a member from the group"
  | .memberLeft => pick "a quitté le groupe" "left the group"
  | .groupDeleted => pick "a supprimé la conversation" "deleted the conversation"
  | .invited (some name) =>
      pick ("vous a invité à rejoindre « " ++ name ++ " »") ("invited you to join \"" ++ name ++ "\"")
  | .invited none => pick "vous a invité à rejoindre une communauté" "invited you to join a community"
  | .unknownEvent event => pick ("événement de groupe (" ++ event ++ ")") ("group event (" ++ event ++ ")")
  | .reacted emoji => pick ("a réagi " ++ emoji) ("reacted " ++ emoji)
  | .photo => pick "📷 Photo" "📷 Photo"
  | .video => pick "🎥 Vidéo" "🎥 Video"
  | .voiceNote => pick "🎤 Message vocal" "🎤 Voice message"
  | .audio => pick "🎵 Fichier audio" "🎵 Audio file"
  | .reel none => pick "🎬 CanaReel" "🎬 CanaReel"
  | .reel (some caption) => pick ("🎬 CanaReel : " ++ caption) ("🎬 CanaReel: " ++ caption)
  | .attachment => pick "📎 Pièce jointe" "📎 Attachment"
  | .poll question => pick ("📊 Sondage : " ++ question) ("📊 Poll: " ++ question)
  | .videoCallIncoming => pick "📹 Appel vidéo entrant" "📹 Incoming video call"
  | .callIncoming => pick "📞 Appel entrant" "📞 Incoming call"

def silentEvents : List String :=
  ["read_receipt", "read_watermark", "delete_message", "edit_message", "remove_reaction", "pin", "unpin",
    "history_bundle",
    "history_coverage", "history_digest", "history_digest_request", "history_pull", "history_range", "history_state"]

/-- The text of a `SystemMsg`; none for the silent ones. -/
def formatSystemEventText (crates : Crates) (event data : String) (language : PushLanguage) : Option String :=
  let dataJson := (crates.jsonFromStr data).getD .null
  let named (key : String) : Option String := (dataJson.get key).bind Json.asStr
  let shown (text : PushText) : Option String := some (text.render language)
  if event = "groupRenamed" then shown (.groupRenamed ((named "newName").filter (· ≠ "")))
  else if event = "groupImageChanged" then shown .groupImageChanged
  else if event = "memberAdded" then
    let listed := (((dataJson.get "newUsers").bind Json.asArray).map List.length).filter (0 < ·)
    let count := listed.or ((named "newUser").map fun _ => 1)
    -- A frame that names nobody still added someone.
    shown (.membersAdded (count.getD 1))
  else if event = "memberRemoved" then shown .memberRemoved
  else if event = "memberLeft" then shown .memberLeft
  else if event = "groupDeleted" then shown .groupDeleted
  else if event = "channel_invitation" then
    shown (.invited (["workspaceName", "channelName"].findSome? fun key => (named key).filter (· ≠ "")))
  else if event ∈ silentEvents then none
  else shown (.unknownEvent event)

/-! ## Reading -/

abbrev Read (t : Target) : Type → Type := Calls (ScanCall t) Found

def find (s : Slice t) (fieldNum : UInt32) : Read t (Option (Slice t)) := Calls.perform (ScanCall.field s fieldNum)

def findRepeated (s : Slice t)
    (fieldNum : UInt32) : Read t (List (Slice t)) := Calls.perform (ScanCall.repeated s fieldNum)

def findVarint (s : Slice t) (fieldNum : UInt32) : Read t (Option UInt64) := Calls.perform (ScanCall.varint s fieldNum)

def findText (s : Slice t) (fieldNum : UInt32) : Read t String := do return ((← find s fieldNum).bind fromUtf8).getD ""

def okMessageJson (text messageId : String) (sentAt : Int) (msgType : String) : Json :=
  .obj [("ok", .bool true), ("text", .str text), ("messageId", .str messageId), ("sentAt", .int sentAt),
    ("type", .str msgType),
    ("replyTo", .null), ("mediaKind", .null)]

def graineSeedBytes : Nat := 32

def findBase64 (crates : Crates) (s : Slice t) (fieldNum : UInt32) : Read t String := do
  return crates.base64Encode (((← find s fieldNum).map Slice.bytes).getD [])

/-- The entry of one `GraineMsg`; none for a seed that cannot be used. -/
def absorb (crates : Crates) (graine : Slice t) (relayed : Bool) : Read t (Option Json) := do
  let channelId ← findText graine 1
  let sessionId ← findText graine 2
  let seed := ((← find graine 3).map Slice.bytes).getD []
  let createdAt := asI64 ((← findVarint graine 5).getD 0)
  let firstIndex := (← findVarint graine 4).getD 0
  let version := (← findVarint graine 6).getD 0
  if channelId = "" ∨ sessionId = "" ∨ seed.length ≠ graineSeedBytes then return none
  let mut entry := Json.obj [("channelId", .str channelId), ("sessionId", .str sessionId),
    ("seedB64", .str (crates.base64Encode seed)),
    ("createdAt", .int createdAt), ("firstIndex", .int firstIndex.toNat)]
  if version = 2 then
    entry := entry.set "version" (.int 2)
    entry := entry.set "minterUserId" (.str (← findText graine 7))
    entry := entry.set "minterDeviceId" (.str (← findText graine 8))
    entry := entry.set "signingPublicKeyB64" (.str (← findBase64 crates graine 9))
    entry := entry.set "endorsementB64" (.str (← findBase64 crates graine 10))
  if relayed then
    entry := entry.set "relayed" (.bool true)
  return some entry

def absorbAll (crates : Crates) : List (Slice t) → Read t (List Json)
  | [] => return []
  | graine :: rest => do
    let entry ← absorb crates graine true
    let entries ← absorbAll crates rest
    return entry.toList ++ entries

def graineSeeds (crates : Crates) (bytes : Slice t) : Read t (Option (List Json)) := do
  let single ← find bytes 10
  let bundle ← find bytes 12
  if single.isNone && bundle.isNone then return none
  let mut out : List Json := []
  if let some graine := single then
    out := out ++ (← absorb crates graine false).toList
  if let some bundle := bundle then
    out := out ++ (← absorbAll crates (← findRepeated bundle 3))
  return some out

def kindReactionWithdrawn : String := "reaction_withdrawn"

def kindSilentEvent : String := "silent_event"

def quietJson (kind : String) : Json := .obj [("ok", .bool false), ("kind", .str kind)]

def keyMaterialJson (seeds : List Json) : Json := (quietJson "graine_key_material").set "seeds" (.arr seeds)

def replyRef (refBytes : Slice t) : Read t Json := do
  let id ← findText refBytes 1
  let senderId ← findText refBytes 2
  let preview ← findText refBytes 3
  return .obj [("id", .str id), ("senderId", .str senderId), ("preview", .str preview)]

def mediaInfo (crates : Crates) (language : PushLanguage) (messageId : String) (sentAt : Int)
    (mediaMsg : Slice t) : Read t Json := do
  let kindStr :=
    match ← findVarint mediaMsg 1 with
    | some 1 => "image"
    | some 2 => "video"
    | some 3 => "audio"
    | _ => "file"
  let caption := ((← find mediaMsg 8).bind fromUtf8).filter (· ≠ "")
  let voiceNote := (← findVarint mediaMsg 11).getD 0 ≠ 0
  -- `&&` asks for field 14 of a video only.
  let reel ← if kindStr = "video" then do pure (decide ((← findVarint mediaMsg 14) = some 1)) else pure false
  let mediaKind := if reel then "reel" else kindStr
  let placeholder : PushText :=
    if kindStr = "image" then .photo
    else if kindStr = "video" then .video
    else if kindStr = "audio" then if voiceNote then .voiceNote else .audio
    else .attachment
  let displayText := if reel then (PushText.reel caption).render language else
    caption.getD (placeholder.render language)
  let mediaId ← findText mediaMsg 2
  let encoding := (← findVarint mediaMsg 12).getD 0
  let thumbnailReadable := encoding = 0 ∧ reel = false
  let key := (← find mediaMsg 3).filter fun _ => thumbnailReadable
  let iv := (← find mediaMsg 4).filter fun _ => thumbnailReadable
  let mimeType ← findText mediaMsg 5
  return .obj [("ok", .bool true), ("text", .str displayText), ("messageId", .str messageId), ("sentAt", .int sentAt),
    ("type", .str "media"), ("replyTo", .null), ("mediaKind", .str mediaKind), ("mediaId", .str mediaId),
    ("mediaKey", .str ((key.map fun b => crates.base64Encode b.bytes).getD "")),
    ("mediaIv", .str ((iv.map fun b => crates.base64Encode b.bytes).getD "")), ("mimeType", .str mimeType)]

def callInfo (language : PushLanguage) (messageId : String) (sentAt : Int) (callMsg : Slice t) : Read t Json := do
  let callId ← findText callMsg 1
  let hasVideo : Bool := decide ((← findVarint callMsg 6).getD 0 = 1)
  if (← find callMsg 2).isSome then
    let text : PushText := if hasVideo then .videoCallIncoming else .callIncoming
    let info := okMessageJson (text.render language) messageId sentAt "call_invite"
    return (info.set "callId" (.str callId)).set "hasVideo" (.bool hasVideo)
  -- `||` asks for field 7 only when field 5 is absent.
  let ended ← if (← findVarint callMsg 5).isSome then pure true else do pure (← findVarint callMsg 7).isSome
  let info := okMessageJson "" messageId sentAt "call_control"
  return (info.set "callId" (.str callId)).set "callEnded" (.bool ended)

def extractFullMessageInfo (crates : Crates) (bytes : Slice t) (language : PushLanguage) : Read t Json := do
  let messageId ← findText bytes 6
  let sentAt := asI64 ((← findVarint bytes 8).getD 0)
  if let some textMsg ← find bytes 1 then
    if let some contentBytes ← find textMsg 1 then
      if let some text := fromUtf8 contentBytes then
        if text ≠ "" then return okMessageJson text messageId sentAt "text"
  if let some replyMsg ← find bytes 2 then
    let content ← findText replyMsg 1
    if content ≠ "" then
      let replyTo ← match ← find replyMsg 2 with
        | some refBytes => replyRef refBytes
        | none => pure .null
      return .obj [("ok", .bool true), ("text", .str content), ("messageId", .str messageId), ("sentAt", .int sentAt),
        ("type", .str "reply"), ("replyTo", replyTo), ("mediaKind", .null)]
  if let some reactionMsg ← find bytes 3 then
    let emoji ← findText reactionMsg 2
    let removed := (← findVarint reactionMsg 4).getD 0 ≠ 0
    if emoji ≠ "" ∧ ¬ removed then
      return okMessageJson ((PushText.reacted emoji).render language) messageId sentAt "reaction"
    if removed then return quietJson kindReactionWithdrawn
  if let some mediaMsg ← find bytes 4 then return ← mediaInfo crates language messageId sentAt mediaMsg
  if let some systemMsg ← find bytes 5 then
    let event ← findText systemMsg 1
    let data ← findText systemMsg 2
    if event ≠ "" then
      match formatSystemEventText crates event data language with
      | some text => return okMessageJson text messageId sentAt "system"
      | none => return quietJson kindSilentEvent
  if let some pollMsg ← find bytes 9 then
    let question ← findText pollMsg 1
    if question ≠ "" then return okMessageJson ((PushText.poll question).render language) messageId sentAt "poll"
  if let some seeds ← graineSeeds crates bytes then return keyMaterialJson seeds
  if (← find bytes 11).isSome then return quietJson "graine_request"
  if (← find bytes 12).isSome then return keyMaterialJson []
  if let some callMsg ← find bytes 7 then return ← callInfo language messageId sentAt callMsg
  return .obj [("ok", .bool false)]

/-! ## Hostile bytes -/

def Read.exec {α : Type} (p : Read t α) (fuel : Nat) : Run α := p.run Push.exec fuel

/-- No scan the code makes meets a record whose start and length add up past the last position. -/
def Read.Tame {α : Type} (p : Read t α) : Prop := p.AllGood TameCall found

/-- The scanners return, with no panic and no overflow, on the bytes that have no such record
    where they look, and on no others. -/
theorem scanners_safe_iff (t : Target) (bytes : Slice t) (fieldNum : UInt32) (crates : Crates)
    (language : PushLanguage) :
    (Safe (findLengthDelimitedField bytes fieldNum) ↔ Tame bytes (firstField fieldNum)) ∧
      (Safe (findRepeatedLengthDelimitedField bytes fieldNum) ↔ Tame bytes (everyField fieldNum)) ∧
      (Safe (findVarintField bytes fieldNum) ↔ Tame bytes (firstVarint fieldNum)) ∧
      (Safe (graineSeeds crates bytes).exec ↔ (graineSeeds crates bytes).Tame) ∧
      (Safe (extractFullMessageInfo crates bytes language).exec ↔
        (extractFullMessageInfo crates bytes language).Tame) :=
  ⟨scan_safe_iff _ _, scan_safe_iff _ _, scan_safe_iff _ _, Calls.safe_run_iff exec_known _,
    Calls.safe_run_iff exec_known _⟩

/-- Field 2, of 2^64 - 11 bytes: from position 11 the end is position 0 again. -/
def hostileBytes : Bytes := [0x12, 0xf5, 0xff, 0xff, 0xff, 0xff, 0xff, 0xff, 0xff, 0xff, 0x01]

def hostileSlice (t : Target) : Slice t where
  bytes := hostileBytes
  fits := by
    unfold Target.limit
    split <;> decide

theorem hostileSlice_record (t : Target) :
    recordAt t (hostileSlice t).bytes 0 = some (.delimited 2 11 (t.limit - 11)) := by
  obtain ⟨width, checked⟩ := t
  cases width <;> cases checked <;> decide

theorem hostileSlice_hostile (t : Target) : Hostile (hostileSlice t) 0 := by
  refine ⟨Nat.zero_lt_succ 10, 2, 11, t.limit - 11, hostileSlice_record t, ?_⟩
  omega

theorem hostileSlice_loops (width : Width) (fuel : Nat) :
    (findLengthDelimitedField (hostileSlice ⟨width, false⟩) 1 fuel).out = .outOfFuel := by
  unfold findLengthDelimitedField scan
  induction fuel with
  | zero => rfl
  | succ fuel ih =>
    cases width with
    | bits32 => exact ih
    | bits64 => exact ih

theorem hostileSlice_not_tame {α : Type}
    (v : Visitor t α) : ¬ Tame (hostileSlice t) v := fun h => h (.here (hostileSlice_hostile t))

def silentCrates : Crates := ⟨fun _ => "", fun _ => none⟩

/-- On a 64-bit target: the search for field 1 never returns, the search for field 2 takes a
    slice that ends before it starts, and with checked additions both panic. -/
theorem hostile_length_breaks_the_scanners :
    (∀ fuel, (findLengthDelimitedField (hostileSlice ⟨.bits64, false⟩) 1 fuel).out = .outOfFuel) ∧
      (findLengthDelimitedField (hostileSlice ⟨.bits64, false⟩) 2 1).out = .panicked ∧
      (findLengthDelimitedField (hostileSlice ⟨.bits64, true⟩) 1 1).out = .panicked ∧
      ¬ Safe (findRepeatedLengthDelimitedField (hostileSlice ⟨.bits64, false⟩) 3) ∧
      ¬ Safe (findVarintField (hostileSlice ⟨.bits64, false⟩) 8) ∧
      ¬ Safe (graineSeeds silentCrates (hostileSlice ⟨.bits64, false⟩)).exec ∧
      ¬ Safe (extractFullMessageInfo silentCrates (hostileSlice ⟨.bits64, false⟩) .french).exec := by
  refine ⟨hostileSlice_loops .bits64, by decide, by decide, ?_, ?_, ?_, ?_⟩
  · exact fun h => hostileSlice_not_tame _ ((scan_safe_iff _ _).mp h)
  · exact fun h => hostileSlice_not_tame _ ((scan_safe_iff _ _).mp h)
  -- The first scan of each meets the record.
  · exact fun h => hostileSlice_not_tame _ ((Calls.safe_run_iff exec_known _).mp h).1
  · exact fun h => hostileSlice_not_tame _ ((Calls.safe_run_iff exec_known _).mp h).1

end Canari.Push
