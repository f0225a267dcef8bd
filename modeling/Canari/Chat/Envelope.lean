/-
  Canari.Chat.Envelope — the body of a message as it is stored
  (`frontend/src/lib/envelope.ts`).

  A stored body is the JSON of an envelope; a text that is not one is a text envelope of itself.
  `applyEditToBody` parses the body, puts the new text in and writes it again, so what an edit
  leaves is what comes back of a parse: the text it was given (`envelopeBodyText_applyEditToBody`)
  and every field it does not carry. A second edit then finds the same fields, except for a number
  of a media reference that is not finite: it is written `null`, and the next parse takes its default
  (`applyEditToBody_applyEditToBody_iff`).

  `parseEnvelope` keeps its legacy results in a cache keyed by the content; the value is the same
  with and without it.
-/

import Canari.Lib.Json

namespace Canari.Chat.Envelope

open Option

open Lib.Utf16 (JsString)
open Lib.JsText (text text_inj)
open Lib.Json

variable {ν : Type}

/-! ## The variants -/

structure MessageReference where
  id : JsString
  senderId : JsString
  content : JsString
  deriving DecidableEq

inductive MediaType where
  | image
  | video
  | audio
  | file
  deriving DecidableEq

inductive MediaIntent where
  | reelMessage

structure MediaRef (ν : Type) where
  type : MediaType
  mediaId : JsString
  key : JsString
  iv : JsString
  mimeType : JsString
  size : ν
  fileName : Option JsString
  width : Option ν
  height : Option ν
  placeholder : Option JsString
  voiceNote : Bool
  encoding : Option JsString
  intent : Option MediaIntent
  durationMs : Option ν
  expiresAtMs : Option ν

structure ChannelInvite where
  channelId : JsString
  channelName : JsString
  workspaceName : Option JsString
  workspaceImageMediaId : Option JsString
  inviterName : Option JsString
  invitedName : Option JsString

inductive CallEndReason where
  | cancelled
  | declined
  | notAnswered
  | busy

structure StartClocks (ν : Type) where
  server : Option ν
  «local» : ν

structure CallEvent (ν : Type) where
  callId : JsString
  starterId : JsString
  startedAt : ν
  startClocks : Option (StartClocks ν)
  endedAt : Option ν
  outcome : Option CallEndReason

structure PollOption where
  id : JsString
  label : JsString

inductive MessageEnvelope (ν : Type) where
  | text (text : JsString) (replyTo : Option MessageReference)
  | media (media : MediaRef ν) (caption : Option JsString) (replyTo : Option MessageReference)
  | system (text : JsString) (channelInvite : Option ChannelInvite) (callEvent : Option (CallEvent ν))
  | poll (question : JsString) (options : List PollOption) (multipleChoice : Bool) (endsAt : Option JsString)

def MediaType.text : MediaType → String
  | .image => "image"
  | .video => "video"
  | .audio => "audio"
  | .file => "file"

def CallEndReason.text : CallEndReason → String
  | .cancelled => "cancelled"
  | .declined => "declined"
  | .notAnswered => "not-answered"
  | .busy => "busy"

/-! ## Writing -/

def literal (s : String) : Value ν := .str (text s)

def MessageReference.toValue (r : MessageReference) : Value ν :=
  record [("id", some (.str r.id)), ("senderId", some (.str r.senderId)), ("content", some (.str r.content))]

def MediaRef.toValue (m : MediaRef ν) : Value ν :=
  record [("type", some (literal m.type.text)), ("mediaId", some (.str m.mediaId)), ("key", some (.str m.key)),
    ("iv", some (.str m.iv)),
    ("mimeType", some (.str m.mimeType)), ("size", some (.num m.size)), ("fileName", m.fileName.map .str),
      ("width", m.width.map .num),
    ("height", m.height.map .num), ("placeholder", m.placeholder.map .str),
      ("voiceNote", if m.voiceNote then some (.bool true) else none),
    ("encoding", m.encoding.map .str), ("intent", m.intent.map fun _ => literal "reel-message"),
      ("durationMs", m.durationMs.map .num),
    ("expiresAtMs", m.expiresAtMs.map .num)]

def ChannelInvite.toValue (c : ChannelInvite) : Value ν :=
  record [("channelId", some (.str c.channelId)), ("channelName", some (.str c.channelName)),
    ("workspaceName", c.workspaceName.map .str),
    ("workspaceImageMediaId", c.workspaceImageMediaId.map .str), ("inviterName", c.inviterName.map .str),
      ("invitedName", c.invitedName.map .str)]

def StartClocks.toValue (c : StartClocks ν) : Value ν :=
    record [("local", some (.num c.local)), ("server", c.server.map .num)]

def CallEvent.toValue (c : CallEvent ν) : Value ν :=
  record [("callId", some (.str c.callId)), ("starterId", some (.str c.starterId)),
    ("startedAt", some (.num c.startedAt)),
    ("startClocks", c.startClocks.map StartClocks.toValue), ("endedAt", c.endedAt.map .num),
      ("outcome", c.outcome.map fun o => literal o.text)]

def PollOption.toValue (o : PollOption) : Value ν := record [("id", some (.str o.id)), ("label", some (.str o.label))]

def MessageEnvelope.toValue : MessageEnvelope ν → Value ν
  | .text t replyTo => record [("kind", some (literal "text")), ("text", some (.str t)), ("replyTo", replyTo.map MessageReference.toValue)]
  | .media m caption replyTo =>
    record [("kind", some (literal "media")), ("media", some m.toValue), ("caption", caption.map .str),
      ("replyTo", replyTo.map MessageReference.toValue)]
  | .system t channelInvite callEvent =>
    record [("kind", some (literal "system")), ("text", some (.str t)),
      ("channelInvite", channelInvite.map ChannelInvite.toValue),
      ("callEvent", callEvent.map CallEvent.toValue)]
  | .poll question options multipleChoice endsAt =>
    record [("kind", some (literal "poll")), ("question", some (.str question)),
      ("options", some (.arr (options.map PollOption.toValue))),
      ("multipleChoice", some (.bool multipleChoice)), ("endsAt", some ((endsAt.map Value.str).getD .null))]

variable [JsNumber ν]

def serializeEnvelope (env : MessageEnvelope ν) : JsString := stringify env.toValue

/-! ## Parsing -/

def safeReplyTo (v : Option (Value ν)) : Option MessageReference := do
  let r ← v
  some ⟨← r.getString "id", ← r.getString "senderId", ← r.getString "content"⟩

variable (t : JsString)

def readMediaType : Option MediaType := [MediaType.image, .video, .audio, .file].find? fun k => text k.text = t

/-- A field that is literally `true`. -/
def isTrue : Option (Value ν) → Bool
  | some (.bool b) => b
  | _ => false

def readIntent : Option MediaIntent := if t = text "reel-message" then some .reelMessage else none

def readMedia (media : Value ν) : Option (MediaRef ν) := do
  let type ← (media.getString "type").bind readMediaType
  let mediaId ← media.getString "mediaId"
  let key ← media.getString "key"
  let iv ← media.getString "iv"
  some {
    type, mediaId, key, iv
    mimeType := (media.getString "mimeType").getD []
    size := (media.getNumber "size").getD JsNumber.zero
    fileName := media.getString "fileName"
    width := (media.getNumber "width").filter JsNumber.isPositive
    height := (media.getNumber "height").filter JsNumber.isPositive
    placeholder := (media.getString "placeholder").filter (· ≠ [])
    voiceNote := isTrue (media.get "voiceNote")
    encoding := media.getString "encoding"
    intent := (media.getString "intent").bind readIntent
    durationMs := (media.getNumber "durationMs").filter JsNumber.isPositive
    expiresAtMs := (media.getNumber "expiresAtMs").filter JsNumber.isPositive }

def readChannelInvite (ci : Value ν) : Option ChannelInvite := do
  some {
    channelId := ← ci.getString "channelId"
    channelName := ← ci.getString "channelName"
    workspaceName := ci.getString "workspaceName"
    workspaceImageMediaId := ci.getString "workspaceImageMediaId"
    inviterName := ci.getString "inviterName"
    invitedName := ci.getString "invitedName" }

def readStartClocks (v : Value ν) : Option (StartClocks ν) := do
  some { «local» := ← v.getNumber "local", server := v.getNumber "server" }

def readCallEndReason : Option CallEndReason :=
  [CallEndReason.cancelled, .declined, .notAnswered, .busy].find? fun r => text r.text = t

def readCallEvent (ce : Value ν) : Option (CallEvent ν) := do
  some {
    callId := ← ce.getString "callId"
    starterId := ← ce.getString "starterId"
    startedAt := ← ce.getNumber "startedAt"
    startClocks := (ce.get "startClocks").bind readStartClocks
    endedAt := ce.getNumber "endedAt"
    outcome := (ce.getString "outcome").bind readCallEndReason }

def readPollOption (o : Value ν) : Option PollOption := do
  some ⟨← o.getString "id", ← o.getString "label"⟩

def readPoll (obj : Value ν) : Option (MessageEnvelope ν) := do
  let question ← obj.getString "question"
  let items ← (obj.get "options").bind Value.asArray
  let options := items.filterMap readPollOption
  if 2 ≤ options.length then
    some (.poll question options (isTrue (obj.get "multipleChoice")) (obj.getString "endsAt")) else none

def readEnvelope (obj : Value ν) : Option (MessageEnvelope ν) := do
  let kind ← obj.getString "kind"
  if kind = text "text" then some (.text (← obj.getString "text") (safeReplyTo (obj.get "replyTo")))
  else if kind = text "system" then
    some (.system (← obj.getString "text") ((obj.get "channelInvite").bind readChannelInvite)
      ((obj.get "callEvent").bind readCallEvent))
  else if kind = text "media" then
    some (.media (← (obj.get "media").bind readMedia) (obj.getString "caption") (safeReplyTo (obj.get "replyTo")))
  else if kind = text "poll" then readPoll obj
  else none

def parseEnvelope (content : JsString) : MessageEnvelope ν :=
  if content.head? = some 0x7b then (((parse content).bind readEnvelope).getD (.text content none)) else
    .text content none

/-! ## Edits -/

def mkTextEnvelope (replyTo : Option MessageReference) : MessageEnvelope ν := .text t replyTo

def MessageEnvelope.bodyText : MessageEnvelope ν → JsString
  | .text t _ => t
  | .media _ caption _ => caption.getD []
  | .system t _ _ => t
  | .poll question _ _ _ => question

variable (ν) in
def envelopeBodyText (content : JsString) : JsString := (parseEnvelope content : MessageEnvelope ν).bodyText

def MessageEnvelope.edited (env : MessageEnvelope ν) (newText : JsString) : MessageEnvelope ν :=
  match env with
  | .text _ replyTo => .text newText replyTo
  | .media m _ replyTo => .media m (some newText) replyTo
  | _ => mkTextEnvelope newText none

variable (ν) in
def applyEditToBody (content newText : JsString) : JsString :=
    serializeEnvelope ((parseEnvelope content : MessageEnvelope ν).edited newText)

/-! ## What a parse gives of what was written -/

theorem head_stringify_record (slots : List (String × Option (Value ν))) :
    (stringify (record slots)).head? = some 0x7b := by
  unfold record
  generalize slots.filterMap (fun s => s.2.map fun v => (text s.1, v)) = fs
  cases fs with
  | nil => rw [stringify, List.head?_cons]
  | cons f fs =>
    rw [stringify, List.head?_cons]

theorem parseEnvelope_stringify {slots : List (String × Option (Value ν))} {env : MessageEnvelope ν}
    (h : readEnvelope (record (slots.map fun s => (s.1, s.2.map reread))) = some env) :
    parseEnvelope (stringify (record slots)) = env := by
  rw [parseEnvelope, if_pos (head_stringify_record slots), parse_stringify, reread_record, bind_some, h, getD_some]

theorem reread_str (s : JsString) : reread (.str s : Value ν) = .str s := by rw [reread]

theorem reread_literal (s : String) : reread (literal s : Value ν) = literal s := reread_str (text s)

theorem reread_comp_str : reread ∘ (Value.str : JsString → Value ν) = Value.str := funext reread_str

theorem reread_reference (r : MessageReference) : reread (r.toValue : Value ν) = r.toValue := by
  rw [MessageReference.toValue, reread_record]
  simp [reread_str]

theorem safeReplyTo_toValue (r : Option MessageReference) :
    safeReplyTo (r.map (reread (ν := ν) ∘ MessageReference.toValue)) = r := by
  cases r with
  | none => rfl
  | some r =>
    rw [map_some, Function.comp_apply, reread_reference]
    simp [safeReplyTo, MessageReference.toValue, Value.getString, Value.asString]

theorem parseEnvelope_text (r : Option MessageReference) :
    parseEnvelope (serializeEnvelope (.text t r : MessageEnvelope ν)) = (.text t r : MessageEnvelope ν) := by
  refine parseEnvelope_stringify ?_
  simp [readEnvelope, Value.getString, literal, reread_str, Value.asString, safeReplyTo_toValue]

/-- A number as it comes back, `none` for the `null` of one that is not finite. -/
def rereadNumber (n : ν) : Option ν :=
    if JsNumber.isFinite n then some (JsNumber.ofLiteral (JsNumber.toLiteral n)) else none

def MediaRef.reread (m : MediaRef ν) : MediaRef ν :=
  { m with
    size := (rereadNumber m.size).getD JsNumber.zero
    width := (m.width.bind rereadNumber).filter JsNumber.isPositive
    height := (m.height.bind rereadNumber).filter JsNumber.isPositive
    placeholder := m.placeholder.filter (· ≠ [])
    durationMs := (m.durationMs.bind rereadNumber).filter JsNumber.isPositive
    expiresAtMs := (m.expiresAtMs.bind rereadNumber).filter JsNumber.isPositive }

theorem asNumber_reread (n : ν) : (reread (.num n)).asNumber = rereadNumber n := by
  rw [reread, rereadNumber]
  split
  · rfl
  · rfl

theorem bind_asNumber (o : Option ν) : (o.map (reread ∘ Value.num)).bind Value.asNumber = o.bind rereadNumber := by
  cases o with
  | none => rfl
  | some n => exact asNumber_reread n

omit [JsNumber ν] in
theorem bind_asString (o : Option JsString) : (o.map (Value.str : JsString → Value ν)).bind Value.asString = o := by
  cases o with
  | none => rfl
  | some s => rfl

theorem readMediaType_text (t : MediaType) : readMediaType (text t.text) = some t := by
  cases t <;> decide

theorem isTrue_flag (b : Bool) : isTrue (if b then some (reread (.bool true : Value ν)) else none) = b := by
  cases b with
  | true => simp [reread, isTrue]
  | false => rfl

theorem readIntent_written (o : Option MediaIntent) :
    ((o.map (reread (ν := ν) ∘ fun _ => .str (text "reel-message"))).bind Value.asString).bind readIntent = o := by
  match o with
  | none => rfl
  | some .reelMessage => simp [reread_str, Value.asString, readIntent]

theorem readMedia_toValue (m : MediaRef ν) : readMedia (reread m.toValue) = some m.reread := by
  rw [MediaRef.toValue, reread_record]
  simp [readMedia, Value.getString, Value.getNumber, literal, reread_str, reread_comp_str, Value.asString,
    bind_asNumber, bind_asString,
    asNumber_reread, readMediaType_text, isTrue_flag, readIntent_written, MediaRef.reread]

theorem parseEnvelope_media (m : MediaRef ν) (caption : Option JsString) (r : Option MessageReference) :
    parseEnvelope (serializeEnvelope (.media m caption r)) = .media m.reread caption r := by
  refine parseEnvelope_stringify ?_
  simp [readEnvelope, Value.getString, literal, reread_str, reread_comp_str, Value.asString, bind_asString,
    readMedia_toValue,
    safeReplyTo_toValue, text_inj]

/-! ## What an edit leaves -/

def MediaRef.numbersFinite (m : MediaRef ν) : Bool :=
  JsNumber.isFinite m.size && m.width.all JsNumber.isFinite && m.height.all JsNumber.isFinite &&
    m.durationMs.all JsNumber.isFinite &&
    m.expiresAtMs.all JsNumber.isFinite

/-- What a parse leaves out: a dimension or a time that is not positive, an empty placeholder. -/
structure MediaRef.Valid (m : MediaRef ν) : Prop where
  width : m.width.all JsNumber.isPositive = true
  height : m.height.all JsNumber.isPositive = true
  placeholder : m.placeholder.all (· ≠ []) = true
  durationMs : m.durationMs.all JsNumber.isPositive = true
  expiresAtMs : m.expiresAtMs.all JsNumber.isPositive = true

theorem all_filter_self {α : Type} (p : α → Bool) (o : Option α) : (o.filter p).all p = true := by
  cases o with
  | none => rfl
  | some a =>
    rw [filter_some]
    split
    · assumption
    · rfl

variable {m : MediaRef ν}

theorem valid_of_readMedia {v : Value ν} (h : readMedia v = some m) : m.Valid := by
  simp only [readMedia, bind_eq_bind, bind_eq_some_iff] at h
  obtain ⟨_, _, _, _, _, _, _, _, h⟩ := h
  cases h
  exact ⟨all_filter_self _ _, all_filter_self _ _, all_filter_self _ _, all_filter_self _ _, all_filter_self _ _⟩

theorem valid_of_readEnvelope {v : Value ν} {caption : Option JsString} {r : Option MessageReference}
    (h : readEnvelope v = some (.media m caption r)) : m.Valid := by
  obtain ⟨kind, -, h⟩ := bind_eq_some_iff.mp h
  split_ifs at h
  · obtain ⟨_, -, h⟩ := bind_eq_some_iff.mp h
    cases h
  · obtain ⟨_, -, h⟩ := bind_eq_some_iff.mp h
    cases h
  · obtain ⟨_, hm, h⟩ := bind_eq_some_iff.mp h
    cases h
    obtain ⟨_, -, hm⟩ := bind_eq_some_iff.mp hm
    exact valid_of_readMedia hm
  · simp only [readPoll, bind_eq_bind, bind_eq_some_iff] at h
    obtain ⟨_, -, _, -, h⟩ := h
    split_ifs at h
    cases h

theorem valid_of_parseEnvelope {content : JsString} {caption : Option JsString} {r : Option MessageReference}
    (h : parseEnvelope content = .media m caption r) : m.Valid := by
  unfold parseEnvelope at h
  split at h
  · cases hp : (parse content).bind (readEnvelope (ν := ν)) with
    | none =>
      rw [hp] at h
      cases h
    | some env =>
      rw [hp, getD_some] at h
      obtain ⟨v, -, hv⟩ := bind_eq_some_iff.mp hp
      exact valid_of_readEnvelope (h ▸ hv)
  · cases h

variable (ν) in
/-- A media body's numbers are finite; there are none in the others an edit keeps. -/
def numbersFinite (content : JsString) : Bool :=
  match (parseEnvelope content : MessageEnvelope ν) with
  | .media m _ _ => m.numbersFinite
  | _ => true

theorem finite_rereadNumber (n : ν) : (rereadNumber n).all JsNumber.isFinite = true := by
  rw [rereadNumber]
  split
  · rename_i h
    exact JsNumber.isFinite_reread n h
  · rfl

theorem finite_rereadPositive (o : Option ν) :
    ((o.bind rereadNumber).filter JsNumber.isPositive).all JsNumber.isFinite = true := by
  rw [Option.all_eq_true]
  intro n hn
  obtain ⟨w, -, hw⟩ := bind_eq_some_iff.mp (eq_some_of_filter_eq_some hn)
  have hf := finite_rereadNumber w
  rwa [hw] at hf

theorem numbersFinite_reread (m : MediaRef ν) : m.reread.numbersFinite = true := by
  have hsize : JsNumber.isFinite ((rereadNumber m.size).getD JsNumber.zero) = true := by
    have hf := finite_rereadNumber m.size
    cases hr : rereadNumber m.size with
    | none => exact JsNumber.isFinite_zero
    | some n => rwa [hr] at hf
  simp only [MediaRef.numbersFinite, MediaRef.reread, hsize, finite_rereadPositive, Bool.and_self]

theorem rereadPositive_of_finite {o : Option ν} (hp : o.all JsNumber.isPositive = true)
    (hf : o.all JsNumber.isFinite = true) :
    ((o.bind rereadNumber).filter JsNumber.isPositive).map Value.num = o.map (reread ∘ Value.num) := by
  cases o with
  | none => rfl
  | some n =>
    have hf : JsNumber.isFinite n = true := hf
    have hp : JsNumber.isPositive n = true := hp
    simp [rereadNumber, hf, JsNumber.isPositive_reread n hf, hp, reread]

theorem reread_toValue (hv : m.Valid) (hf : m.numbersFinite = true) : m.reread.toValue = reread m.toValue := by
  simp only [MediaRef.numbersFinite, Bool.and_eq_true] at hf
  obtain ⟨⟨⟨⟨hs, hw⟩, hh⟩, hd⟩, he⟩ := hf
  have hplaceholder : m.placeholder.filter (· ≠ []) = m.placeholder := by
    have hp := hv.placeholder
    cases hm : m.placeholder with
    | none => rfl
    | some p =>
      rw [hm] at hp
      exact if_pos hp
  have hsize : Value.num ((rereadNumber m.size).getD JsNumber.zero) = reread (.num m.size) := by
    rw [rereadNumber, if_pos hs, reread, if_pos hs, getD_some]
  have hnote : (if m.voiceNote then some (.bool true) else none : Option (Value ν)).map reread = if m.voiceNote then
    some (.bool true) else none := by
    split
    · rw [map_some, reread]
    · rfl
  have hintent : m.intent.map (reread ∘ fun _ => literal "reel-message") = m.intent.map fun _ =>
    (literal "reel-message" : Value ν) := by
    rw [Function.comp_def, reread_literal]
  rw [MediaRef.toValue, MediaRef.toValue, reread_record]
  simp only [MediaRef.reread, hplaceholder, hsize, hnote, hintent, rereadPositive_of_finite hv.width hw,
    rereadPositive_of_finite hv.height hh,
    rereadPositive_of_finite hv.durationMs hd, rereadPositive_of_finite hv.expiresAtMs he, reread_literal, reread_str,
      reread_comp_str,
    List.map_cons, List.map_nil, map_some, Option.map_map]

theorem finite_of_map_eq {β : Type} {o : Option ν} {f g : ν → β}
    (h : ((o.bind rereadNumber).filter JsNumber.isPositive).map f = o.map g) : o.all JsNumber.isFinite = true := by
  cases o with
  | none => rfl
  | some n =>
    by_contra hn
    have hnone : rereadNumber n = none := if_neg hn
    rw [bind_some, hnone] at h
    cases h

theorem finite_of_reread_toValue (h : reread m.reread.toValue = reread m.toValue) : m.numbersFinite = true := by
  have hsize : JsNumber.isFinite m.size = true := by
    by_contra hn
    have hs := congrArg (Value.getNumber "size") h
    have hz : rereadNumber (JsNumber.zero : ν) = some _ := if_pos JsNumber.isFinite_zero
    have hnone : rereadNumber m.size = none := if_neg hn
    simp [MediaRef.toValue, reread_record, Value.getNumber, asNumber_reread, MediaRef.reread, hnone, hz] at hs
  have hget : ∀ k, (reread m.reread.toValue).get k = (reread m.toValue).get k := fun k => congrArg (Value.get k) h
  have hw := hget "width"
  have hh := hget "height"
  have hd := hget "durationMs"
  have he := hget "expiresAtMs"
  simp only [MediaRef.toValue, reread_record] at hw hh hd he
  simp [MediaRef.reread] at hw hh hd he
  simp only [MediaRef.numbersFinite, hsize, finite_of_map_eq hw, finite_of_map_eq hh, finite_of_map_eq hd,
    finite_of_map_eq he, Bool.and_self]

theorem reread_media (m : MediaRef ν) (t : JsString) (r : Option MessageReference) :
    reread (MessageEnvelope.media m (some t) r).toValue =
      record [("kind", some (literal "media")), ("media", some (reread m.toValue)), ("caption", some (.str t)),
        ("replyTo", r.map MessageReference.toValue)] := by
  have hr : r.map (reread (ν := ν) ∘ MessageReference.toValue) = r.map MessageReference.toValue :=
    congrArg (r.map ·) (funext reread_reference)
  rw [MessageEnvelope.toValue, reread_record]
  simp [hr, reread_literal, reread_str]

theorem serializeEnvelope_reread_iff (hv : m.Valid) (t : JsString) (r : Option MessageReference) :
    serializeEnvelope (.media m.reread (some t) r) = serializeEnvelope (.media m (some t) r) ↔
      m.numbersFinite = true := by
  constructor
  · intro h
    have hp := congrArg (parse (ν := ν)) h
    rw [serializeEnvelope, serializeEnvelope, parse_stringify, parse_stringify, reread_media, reread_media] at hp
    have hm := congrArg (Value.get "media") (some.inj hp)
    simp at hm
    exact finite_of_reread_toValue hm
  · intro hf
    have ht : (MessageEnvelope.media m.reread (some t) r).toValue = reread
      (MessageEnvelope.media m (some t) r).toValue := by
      rw [reread_media, ← reread_toValue hv hf]
      rfl
    rw [serializeEnvelope, serializeEnvelope, ht, stringify_reread]

variable (ν) in
theorem parseEnvelope_applyEditToBody (content t : JsString) :
    (parseEnvelope (applyEditToBody ν content t) : MessageEnvelope ν) =
      match (parseEnvelope content : MessageEnvelope ν) with
      | .text _ r => .text t r
      | .media m _ r => .media m.reread (some t) r
      | _ => .text t none := by
  unfold applyEditToBody
  cases (parseEnvelope content : MessageEnvelope ν) with
  | text _ r => exact parseEnvelope_text t r
  | media m _ r => exact parseEnvelope_media m (some t) r
  | system _ _ _ => exact parseEnvelope_text t none
  | poll _ _ _ _ => exact parseEnvelope_text t none

variable (ν) in
theorem envelopeBodyText_applyEditToBody (content t : JsString) :
    envelopeBodyText ν (applyEditToBody ν content t) = t := by
  rw [envelopeBodyText, parseEnvelope_applyEditToBody]
  cases (parseEnvelope content : MessageEnvelope ν) <;> rfl

variable (ν) in
theorem numbersFinite_applyEditToBody (content t : JsString) :
    numbersFinite ν (applyEditToBody ν content t) = true := by
  rw [numbersFinite, parseEnvelope_applyEditToBody]
  cases (parseEnvelope content : MessageEnvelope ν) with
  | text _ _ => rfl
  | media m _ _ => exact numbersFinite_reread m
  | system _ _ _ => rfl
  | poll _ _ _ _ => rfl

variable (ν) in
theorem applyEditToBody_twice (content t new : JsString) :
    applyEditToBody ν (applyEditToBody ν content t) new =
      serializeEnvelope (match (parseEnvelope content : MessageEnvelope ν) with
        | .text _ r => .text new r
        | .media m _ r => .media m.reread (some new) r
        | _ => .text new none) := by
  rw [applyEditToBody, parseEnvelope_applyEditToBody]
  cases (parseEnvelope content : MessageEnvelope ν) <;> rfl

variable (ν) in
theorem applyEditToBody_replaced (content t t' new : JsString) :
    applyEditToBody ν (applyEditToBody ν content t) new = applyEditToBody ν (applyEditToBody ν content t') new := by
  rw [applyEditToBody_twice, applyEditToBody_twice]

variable (ν) in
theorem applyEditToBody_applyEditToBody_iff (content t new : JsString) :
    applyEditToBody ν (applyEditToBody ν content t) new = applyEditToBody ν content new ↔
      numbersFinite ν content = true := by
  rw [applyEditToBody_twice, applyEditToBody, numbersFinite]
  cases hp : (parseEnvelope content : MessageEnvelope ν) with
  | text _ _ => exact iff_of_true rfl rfl
  | media m _ r => exact serializeEnvelope_reread_iff (valid_of_parseEnvelope hp) new r
  | system _ _ _ => exact iff_of_true rfl rfl
  | poll _ _ _ _ => exact iff_of_true rfl rfl

end Canari.Chat.Envelope
