/-
  Canari.Graine.Statements — the byte strings that are signed: an author's descriptor and a
  fork claim (`frontend/mls-core/src/authorship.rs`, `fork_check.rs`), the Graine v2 header and
  endorsement (`frontend/src/lib/crypto/graineV2.ts`), and the admission, link and redemption
  statements (`graineAdmission.ts`).

  Every one opens with its own length-prefixed label, and each part after it tells its own end,
  so two of them are equal only when they are one statement part by part (`encode_delimits`).
  A part is its bytes: the texts of the browser's side are code units, and `TextEncoder` writes
  one byte string for all the texts with the same scalar values. A statement is the only one with
  its bytes exactly when its texts are plain (`statement_alone_iff`).
-/

import Canari.Lib.Utf16
import Canari.Mls.Authorship
import Mathlib.Data.Set.Function

namespace Canari.Graine.Statements

open Lib Lib.Utf16 Mls.Authorship List

def FORK_CLAIM_LABEL : String := "canari-mls-fork-v1"
def GRAINE_V2_HEADER_LABEL : String := "canari-graine-v2"
def GRAINE_V2_ENDORSEMENT_LABEL : String := "canari-graine-v2-endorse"
def ADMISSION_DIRECT_LABEL : String := "canari-graine-admit-direct-v1"
def ADMISSION_LINK_LABEL : String := "canari-graine-admit-link-v1"
def ADMISSION_REDEEM_LABEL : String := "canari-graine-admit-redeem-v1"

def GRAINE_NONCE_BYTES : Nat := 12

inductive JsNumber where
  | safe (n : Int) (h : n.natAbs < 2 ^ 53)
  | other (shown : String)
  deriving DecidableEq

def JsNumber.nat : JsNumber → Nat
  | .safe n _ => n.toNat
  | .other _ => 0

def JsNumber.shown : JsNumber → String
  | .safe n _ => toString n
  | .other shown => shown

/-! ## The checks, by the error they throw -/

def requireText (name : String) (value : JsString) : Except String Unit :=
  if value.isEmpty then .error s!"{name} is required: it is bound into Graine v2" else .ok ()

def requireIndex (index : JsNumber) : Except String Nat :=
  let refused := Except.error s!"Message index must be a uint32, got {index.shown}"
  match index with
  | .safe n _ => if 0 ≤ n ∧ n ≤ 0xffffffff then .ok n.toNat else refused
  | .other _ => refused

def requireLength (name : String) (bytes : Bytes) (length : Nat) : Except String Unit :=
  if bytes.length ≠ length then .error s!"{name} must be {length} bytes, got {bytes.length}" else .ok ()

def nonNegative (what : String) (value : JsNumber) : Except String Nat :=
  let refused := Except.error s!"{what} must be a non-negative integer, got {value.shown}"
  match value with
  | .safe n _ => if 0 ≤ n then .ok n.toNat else refused
  | .other _ => refused

def text (name : String) (value : JsString) : Except String Bytes :=
  if value.isEmpty then .error s!"admission {name} is required" else .ok (utf8Of value)

def sized (name : String) (value : Bytes) (length : Nat) : Except String Bytes :=
  if value.length ≠ length then .error s!"admission {name} must be {length} bytes, got {value.length}" else .ok value

def instant (value : JsNumber) : Except String Nat := nonNegative "admission an instant or an epoch" value

/-! ## The encoders -/

def forkClaimDescriptor (groupId : String) (epoch : UInt64) (fingerprint : Bytes) (identity : String) : Bytes :=
  lp (utf8 FORK_CLAIM_LABEL) ++ (lp (utf8 groupId) ++ (be64 epoch.toNat ++ (lp fingerprint ++ lp (utf8 identity))))

structure GraineMessageHeaderV2 where
  channelId : JsString
  sessionId : JsString
  minterUserId : JsString
  index : JsNumber
  deriving DecidableEq

def encodeGraineHeaderV2 (header : GraineMessageHeaderV2) : Except String Bytes := do
  requireText "channelId" header.channelId
  requireText "sessionId" header.sessionId
  requireText "minterUserId" header.minterUserId
  let index ← requireIndex header.index
  return lp (utf8 GRAINE_V2_HEADER_LABEL) ++ (lp (utf8Of header.channelId) ++ (lp (utf8Of header.sessionId) ++
    (lp (utf8Of header.minterUserId) ++ be32 index)))

structure GraineEndorsementV2 where
  channelId : JsString
  sessionId : JsString
  minterUserId : JsString
  minterDeviceId : JsString
  signingPublicKey : Bytes
  seedCommitment : Bytes
  createdAt : JsNumber
  deriving DecidableEq

def encodeGraineEndorsementV2 (endorsement : GraineEndorsementV2) : Except String Bytes := do
  requireText "channelId" endorsement.channelId
  requireText "sessionId" endorsement.sessionId
  requireText "minterUserId" endorsement.minterUserId
  requireText "minterDeviceId" endorsement.minterDeviceId
  requireLength "signingPublicKey" endorsement.signingPublicKey GRAINE_PUBLIC_KEY_BYTES
  requireLength "seedCommitment" endorsement.seedCommitment 32
  let createdAt ← nonNegative "createdAt" endorsement.createdAt
  return lp (utf8 GRAINE_V2_ENDORSEMENT_LABEL) ++
    (lp (utf8Of endorsement.channelId) ++ (lp (utf8Of endorsement.sessionId) ++
    (lp (utf8Of endorsement.minterUserId) ++
      (lp (utf8Of endorsement.minterDeviceId) ++ (lp endorsement.signingPublicKey ++
    (lp endorsement.seedCommitment ++ be64 createdAt))))))

structure AdmissionSigner where
  userId : JsString
  deviceId : JsString
  deriving DecidableEq

structure AdmissionPlace where
  keyGroupId : JsString
  epoch : JsNumber
  deriving DecidableEq

structure DirectAdmission where
  workspaceId : JsString
  subjectUserId : JsString
  signer : AdmissionSigner
  place : AdmissionPlace
  issuedAt : JsNumber
  deriving DecidableEq

def writePlace (place : AdmissionPlace) : Except String Bytes := do
  let keyGroupId ← text "place.keyGroupId" place.keyGroupId
  let epoch ← instant place.epoch
  return lp keyGroupId ++ be64 epoch

def encodeDirectAdmission (v : DirectAdmission) : Except String Bytes := do
  let workspaceId ← text "workspaceId" v.workspaceId
  let subjectUserId ← text "subjectUserId" v.subjectUserId
  let signerUser ← text "signer.userId" v.signer.userId
  let signerDevice ← text "signer.deviceId" v.signer.deviceId
  let place ← writePlace v.place
  let issuedAt ← instant v.issuedAt
  return lp (utf8 ADMISSION_DIRECT_LABEL) ++
    (lp workspaceId ++ (lp subjectUserId ++ (lp signerUser ++ (lp signerDevice ++
    (place ++ be64 issuedAt)))))

structure LinkAdmission where
  workspaceId : JsString
  signer : AdmissionSigner
  place : AdmissionPlace
  issuedAt : JsNumber
  expiresAt : JsNumber
  linkPublicKey : Bytes
  deriving DecidableEq

def encodeLinkAdmission (v : LinkAdmission) : Except String Bytes := do
  let workspaceId ← text "workspaceId" v.workspaceId
  let signerUser ← text "signer.userId" v.signer.userId
  let signerDevice ← text "signer.deviceId" v.signer.deviceId
  let place ← writePlace v.place
  let linkPublicKey ← sized "linkPublicKey" v.linkPublicKey GRAINE_PUBLIC_KEY_BYTES
  let issuedAt ← instant v.issuedAt
  let expiresAt ← instant v.expiresAt
  return lp (utf8 ADMISSION_LINK_LABEL) ++ (lp workspaceId ++ (lp signerUser ++ (lp signerDevice ++ (place ++
    (lp linkPublicKey ++ (be64 issuedAt ++ be64 expiresAt))))))

structure LinkRedemption where
  workspaceId : JsString
  subjectUserId : JsString
  linkPublicKey : Bytes
  deriving DecidableEq

def encodeLinkRedemption (v : LinkRedemption) : Except String Bytes := do
  let workspaceId ← text "workspaceId" v.workspaceId
  let subjectUserId ← text "subjectUserId" v.subjectUserId
  let linkPublicKey ← sized "linkPublicKey" v.linkPublicKey GRAINE_PUBLIC_KEY_BYTES
  return lp (utf8 ADMISSION_REDEEM_LABEL) ++ (lp workspaceId ++ (lp subjectUserId ++ lp linkPublicKey))

inductive Statement where
  | author (groupId author : String) (body : Bytes)
  | forkClaim (groupId : String) (epoch : UInt64) (fingerprint : Bytes) (identity : String)
  | header (header : GraineMessageHeaderV2)
  | endorsement (endorsement : GraineEndorsementV2)
  | admission (v : DirectAdmission)
  | link (v : LinkAdmission)
  | redemption (v : LinkRedemption)
  deriving DecidableEq

variable (C : Crypto)

def Statement.encode : Statement → Except String Bytes
  | .author groupId signer body => .ok (authorDescriptor C groupId signer body)
  | .forkClaim groupId epoch fingerprint identity =>
    .ok (forkClaimDescriptor groupId epoch fingerprint identity)
  | .header h => encodeGraineHeaderV2 h
  | .endorsement e => encodeGraineEndorsementV2 e
  | .admission v => encodeDirectAdmission v
  | .link v => encodeLinkAdmission v
  | .redemption v => encodeLinkRedemption v

inductive Kind where
  | author | forkClaim | header | endorsement | admission | link | redemption

def Statement.kind : Statement → Kind
  | .author .. => .author
  | .forkClaim .. => .forkClaim
  | .header _ => .header
  | .endorsement _ => .endorsement
  | .admission _ => .admission
  | .link _ => .link
  | .redemption _ => .redemption

def Kind.label : Kind → String
  | .author => AUTHOR_DESCRIPTOR_LABEL
  | .forkClaim => FORK_CLAIM_LABEL
  | .header => GRAINE_V2_HEADER_LABEL
  | .endorsement => GRAINE_V2_ENDORSEMENT_LABEL
  | .admission => ADMISSION_DIRECT_LABEL
  | .link => ADMISSION_LINK_LABEL
  | .redemption => ADMISSION_REDEEM_LABEL

/-! ## The texts of a statement -/

section Texts

variable (f : JsString → JsString)

def GraineMessageHeaderV2.mapTexts (h : GraineMessageHeaderV2) : GraineMessageHeaderV2 :=
  { h with channelId := f h.channelId, sessionId := f h.sessionId, minterUserId := f h.minterUserId }

def GraineEndorsementV2.mapTexts (e : GraineEndorsementV2) : GraineEndorsementV2 :=
  { e with channelId := f e.channelId, sessionId := f e.sessionId, minterUserId := f e.minterUserId, minterDeviceId := f e.minterDeviceId }

def AdmissionSigner.mapTexts (s : AdmissionSigner) : AdmissionSigner := ⟨f s.userId, f s.deviceId⟩

def AdmissionPlace.mapTexts (p : AdmissionPlace) : AdmissionPlace := { p with keyGroupId := f p.keyGroupId }

def DirectAdmission.mapTexts (v : DirectAdmission) : DirectAdmission :=
  { v with workspaceId := f v.workspaceId, subjectUserId := f v.subjectUserId, signer := v.signer.mapTexts f, place :=
    v.place.mapTexts f }

def LinkAdmission.mapTexts (v : LinkAdmission) : LinkAdmission :=
  { v with workspaceId := f v.workspaceId, signer := v.signer.mapTexts f, place := v.place.mapTexts f }

def LinkRedemption.mapTexts (v : LinkRedemption) : LinkRedemption :=
  { v with workspaceId := f v.workspaceId, subjectUserId := f v.subjectUserId }

/-- The statement with its browser texts changed; a Rust string is well formed by its type. -/
def Statement.mapTexts : Statement → Statement
  | .header h => .header (h.mapTexts f)
  | .endorsement e => .endorsement (e.mapTexts f)
  | .admission v => .admission (v.mapTexts f)
  | .link v => .link (v.mapTexts f)
  | .redemption v => .redemption (v.mapTexts f)
  | s => s

end Texts

/-- The texts the encoder hands to `TextEncoder`. -/
def Statement.texts : Statement → List JsString
  | .header h => [h.channelId, h.sessionId, h.minterUserId]
  | .endorsement e => [e.channelId, e.sessionId, e.minterUserId, e.minterDeviceId]
  | .admission v => [v.workspaceId, v.subjectUserId, v.signer.userId, v.signer.deviceId, v.place.keyGroupId]
  | .link v => [v.workspaceId, v.signer.userId, v.signer.deviceId, v.place.keyGroupId]
  | .redemption v => [v.workspaceId, v.subjectUserId]
  | _ => []

def Statement.blobs : Statement → List Bytes
  | .author groupId signer _ => [utf8 groupId, utf8 signer]
  | .forkClaim groupId _ fingerprint identity => [utf8 groupId, fingerprint, utf8 identity]
  | .endorsement e => [e.signingPublicKey, e.seedCommitment]
  | .link v => [v.linkPublicKey]
  | .redemption v => [v.linkPublicKey]
  | _ => []

/-- Every field is shorter than its length prefix can count. -/
def Statement.Short (s : Statement) : Prop :=
  (∀ t ∈ s.texts, (utf8Of t).length < 2 ^ 32) ∧ ∀ b ∈ s.blobs, b.length < 2 ^ 32

/-- The body an author signs is one of `bodies`. -/
def Statement.BodyIn (bodies : Set Bytes) : Statement → Prop
  | .author _ _ body => body ∈ bodies
  | _ => True

theorem texts_mapTexts (f : JsString → JsString) (s : Statement) : (s.mapTexts f).texts = s.texts.map f := by
  cases s <;> rfl

theorem mapTexts_eq_self {f : JsString → JsString} {s : Statement} (h : ∀ t ∈ s.texts, f t = t) : s.mapTexts f = s := by
  cases s with
  | author | forkClaim => rfl
  | header x | endorsement x | admission x | link x | redemption x =>
    have h' := fun t ht => h t ht
    simp [Statement.texts] at h'
    simp [Statement.mapTexts, GraineMessageHeaderV2.mapTexts, GraineEndorsementV2.mapTexts, DirectAdmission.mapTexts,
      LinkAdmission.mapTexts,
      LinkRedemption.mapTexts, AdmissionSigner.mapTexts, AdmissionPlace.mapTexts, h']

/-! ## What the checks let through -/

section Checks

variable {α β : Type} {name what : String} {value : JsString} {bytes out : Bytes} {number number' : JsNumber}
    {n length : Nat} {u : Unit}

theorem bind_eq_ok {ε : Type} {x : Except ε α} {f : α → Except ε β} {b : β}
    (h : x >>= f = .ok b) : ∃ a, x = .ok a ∧ f a = .ok b := by
  cases x with
  | error e => cases h
  | ok a => exact ⟨a, rfl, h⟩

theorem text_ok (h : text name value = .ok out) : out = utf8Of value := by
  unfold text at h
  split at h
  · cases h
  · cases h; rfl

theorem sized_ok (h : sized name bytes length = .ok out) : out = bytes := by
  unfold sized at h
  split at h
  · cases h
  · cases h; rfl

theorem requireIndex_ok (h : requireIndex number = .ok n) : n < 2 ^ 32 ∧ ∃ hn, number = .safe n hn := by
  cases number with
  | other shown => cases h
  | safe k hk =>
    dsimp only [requireIndex] at h
    split at h
    · next hrange =>
      cases h
      have hcast : (k.toNat : Int) = k := Int.toNat_of_nonneg hrange.1
      refine ⟨by omega, by omega, ?_⟩
      simp only [hcast]
    · cases h

theorem nonNegative_ok (h : nonNegative what number = .ok n) : n < 2 ^ 64 ∧ ∃ hn, number = .safe n hn := by
  cases number with
  | other shown => cases h
  | safe k hk =>
    dsimp only [nonNegative] at h
    split at h
    · next hpos =>
      cases h
      have hcast : (k.toNat : Int) = k := Int.toNat_of_nonneg hpos
      refine ⟨by omega, by omega, ?_⟩
      simp only [hcast]
    · cases h

end Checks

/-! ## Each statement tells its own end -/

inductive Part where
  | text (t : JsString)
  | blob (b : Bytes)
  | epoch (n : UInt64)
  | index (x : JsNumber)
  | instant (x : JsNumber)

namespace Part

@[simp] def bytes : Part → Bytes
  | .text t => lp (utf8Of t)
  | .blob b => lp b
  | .epoch n => be64 n.toNat
  | .index x => be32 x.nat
  | .instant x => be64 x.nat

@[simp] def Short : Part → Prop
  | .text t => (utf8Of t).length < 2 ^ 32
  | .blob b => b.length < 2 ^ 32
  | .epoch _ => True
  | .index x => x.nat < 2 ^ 32 ∧ ∃ h, x = .safe x.nat h
  | .instant x => x.nat < 2 ^ 64 ∧ ∃ h, x = .safe x.nat h

def sort : Part → Fin 5
  | .text _ => 0
  | .blob _ => 1
  | .epoch _ => 2
  | .index _ => 3
  | .instant _ => 4

def read : Part → Part
  | .text t => .text (toWellFormed t)
  | p => p

end Part

@[simp] def Statement.parts : Statement → List Part
  | .author groupId signer body => [.blob (utf8 groupId), .blob (utf8 signer), .blob (C.sha256 body)]
  | .forkClaim groupId epoch fingerprint identity =>
      [.blob (utf8 groupId), .epoch epoch, .blob fingerprint, .blob (utf8 identity)]
  | .header h => [.text h.channelId, .text h.sessionId, .text h.minterUserId, .index h.index]
  | .endorsement e => [.text e.channelId, .text e.sessionId, .text e.minterUserId, .text e.minterDeviceId, .blob e.signingPublicKey,
      .blob e.seedCommitment, .instant e.createdAt]
  | .admission v => [.text v.workspaceId, .text v.subjectUserId, .text v.signer.userId, .text v.signer.deviceId, .text v.place.keyGroupId,
      .instant v.place.epoch, .instant v.issuedAt]
  | .link v => [.text v.workspaceId, .text v.signer.userId, .text v.signer.deviceId, .text v.place.keyGroupId, .instant v.place.epoch,
      .blob v.linkPublicKey, .instant v.issuedAt, .instant v.expiresAt]
  | .redemption v => [.text v.workspaceId, .text v.subjectUserId, .blob v.linkPublicKey]

section Delimits

variable {x y r r' bytes bytes' : Bytes} {s t : Statement}

theorem utf8_inj {x y : String} (h : utf8 x = utf8 y) : x = y :=
  String.toByteArray_inj.mp (ByteArray.ext (Array.toList_inj.mp h))

theorem label_injective : Function.Injective Kind.label := by
  intro a b h
  cases a <;> cases b <;> first | rfl | exact absurd h (by decide)

theorem label_short (k : Kind) : (utf8 k.label).length < 2 ^ 32 := by
  cases k <;> decide

theorem part_delimits {p q : Part} (hsort : p.sort = q.sort) (hp : p.Short) (hq : q.Short)
    (e : p.bytes ++ r = q.bytes ++ r') :
    p.read = q.read ∧ r = r' := by
  cases p <;> cases q <;> cases hsort
  case text.text a b =>
    obtain ⟨htext, hrest⟩ := lp_delimits _ _ hp hq _ _ e
    exact ⟨congrArg Part.text (toWellFormed_congr (utf8Of_inj.mp htext)), hrest⟩
  case blob.blob a b => exact (lp_delimits _ _ hp hq _ _ e).imp_left (congrArg Part.blob)
  case epoch.epoch m n => exact (be64_delimits _ _ m.toNat_lt n.toNat_lt _ _ e).imp_left fun h => congrArg Part.epoch (UInt64.toNat_inj.mp h)
  case index.index a b =>
    obtain ⟨hnat, hrest⟩ := be32_delimits _ _ hp.1 hq.1 _ _ e
    obtain ⟨⟨_, ha⟩, ⟨_, hb⟩⟩ := And.intro hp.2 hq.2
    exact ⟨congrArg Part.index (by rw [ha, hb]; simp only [hnat]), hrest⟩
  case instant.instant a b =>
    obtain ⟨hnat, hrest⟩ := be64_delimits _ _ hp.1 hq.1 _ _ e
    obtain ⟨⟨_, ha⟩, ⟨_, hb⟩⟩ := And.intro hp.2 hq.2
    exact ⟨congrArg Part.instant (by rw [ha, hb]; simp only [hnat]), hrest⟩

theorem parts_delimit {ps qs : List Part} (hsort : ps.map Part.sort = qs.map Part.sort) (hp : ∀ p ∈ ps, p.Short)
    (hq : ∀ q ∈ qs, q.Short)
    (e : ps.flatMap Part.bytes ++ r = qs.flatMap Part.bytes ++ r') : ps.map Part.read = qs.map Part.read ∧ r = r' := by
  induction ps generalizing qs with
  | nil =>
    obtain rfl := map_eq_nil_iff.mp hsort.symm
    exact ⟨rfl, e⟩
  | cons p ps ih =>
    obtain ⟨q, qs, rfl, hhead, htail⟩ := map_eq_cons_iff.mp hsort.symm
    rw [flatMap_cons, flatMap_cons, append_assoc, append_assoc] at e
    obtain ⟨hread, e⟩ := part_delimits hhead.symm (hp p mem_cons_self) (hq q mem_cons_self) e
    obtain ⟨hreads, hr⟩ := ih htail.symm (fun x hx => hp x (mem_cons_of_mem _ hx))
      (fun x hx => hq x (mem_cons_of_mem _ hx)) e
    exact ⟨by rw [map_cons, map_cons, hread, hreads], hr⟩

theorem index_ok {x : JsNumber} {n : Nat} (h : requireIndex x = .ok n) : x.nat = n ∧ (Part.index x).Short := by
  obtain ⟨hlt, hn, rfl⟩ := requireIndex_ok h
  exact ⟨rfl, hlt, hn, rfl⟩

theorem instant_ok {what : String} {x : JsNumber} {n : Nat}
    (h : nonNegative what x = .ok n) : x.nat = n ∧ (Part.instant x).Short := by
  obtain ⟨hlt, hn, rfl⟩ := nonNegative_ok h
  exact ⟨rfl, hlt, hn, rfl⟩

theorem place_ok {p : AdmissionPlace} (hb : writePlace p = .ok bytes) :
    bytes = lp (utf8Of p.keyGroupId) ++ be64 p.epoch.nat ∧ (Part.instant p.epoch).Short := by
  obtain ⟨keyGroupId, hk, hb⟩ := bind_eq_ok hb
  obtain ⟨n, hn, hb⟩ := bind_eq_ok hb
  obtain ⟨rfl, hshort⟩ := instant_ok hn
  cases hb
  exact ⟨by rw [text_ok hk], hshort⟩

variable {C} {bodies : Set Bytes}

/-- What an encoder returns: the label, then the parts. -/
theorem encode_parts (hlength : ∀ body, (C.sha256 body).length = 32) (hb : s.encode C = .ok bytes) (hs : s.Short) :
    bytes = lp (utf8 s.kind.label) ++ (s.parts C).flatMap Part.bytes ∧ ∀ p ∈ s.parts C, p.Short := by
  obtain ⟨htexts, hblobs⟩ := hs
  cases s with
  | author g i body =>
    cases hb
    simp [Statement.blobs] at hblobs
    simp [authorDescriptor, Statement.kind, Kind.label, hlength, hblobs]
  | forkClaim g n x i =>
    cases hb
    simp [Statement.blobs] at hblobs
    simp [forkClaimDescriptor, Statement.kind, Kind.label, hblobs]
  | header h =>
    obtain ⟨-, -, hb⟩ := bind_eq_ok hb
    obtain ⟨-, -, hb⟩ := bind_eq_ok hb
    obtain ⟨-, -, hb⟩ := bind_eq_ok hb
    obtain ⟨n, hn, hb⟩ := bind_eq_ok hb
    obtain ⟨rfl, hindex⟩ := index_ok hn
    cases hb
    simp [Statement.texts] at htexts
    exact ⟨by simp; rfl, by simpa [htexts] using hindex⟩
  | endorsement d =>
    obtain ⟨-, -, hb⟩ := bind_eq_ok hb
    obtain ⟨-, -, hb⟩ := bind_eq_ok hb
    obtain ⟨-, -, hb⟩ := bind_eq_ok hb
    obtain ⟨-, -, hb⟩ := bind_eq_ok hb
    obtain ⟨-, -, hb⟩ := bind_eq_ok hb
    obtain ⟨-, -, hb⟩ := bind_eq_ok hb
    obtain ⟨n, hn, hb⟩ := bind_eq_ok hb
    obtain ⟨rfl, hcreated⟩ := instant_ok hn
    cases hb
    simp [Statement.texts, Statement.blobs] at htexts hblobs
    exact ⟨by simp; rfl, by simpa [htexts, hblobs] using hcreated⟩
  | admission v =>
    obtain ⟨_, hw, hb⟩ := bind_eq_ok hb
    obtain ⟨_, hs, hb⟩ := bind_eq_ok hb
    obtain ⟨_, hu, hb⟩ := bind_eq_ok hb
    obtain ⟨_, hd, hb⟩ := bind_eq_ok hb
    obtain ⟨_, hp, hb⟩ := bind_eq_ok hb
    obtain ⟨n, hn, hb⟩ := bind_eq_ok hb
    obtain ⟨rfl, hepoch⟩ := place_ok hp
    obtain ⟨rfl, hissued⟩ := instant_ok hn
    cases hb
    simp [Statement.texts] at htexts
    rw [text_ok hw, text_ok hs, text_ok hu, text_ok hd]
    exact ⟨by simp; rfl, by simpa [htexts] using ⟨hepoch, hissued⟩⟩
  | link v =>
    obtain ⟨_, hw, hb⟩ := bind_eq_ok hb
    obtain ⟨_, hu, hb⟩ := bind_eq_ok hb
    obtain ⟨_, hd, hb⟩ := bind_eq_ok hb
    obtain ⟨_, hp, hb⟩ := bind_eq_ok hb
    obtain ⟨_, hk, hb⟩ := bind_eq_ok hb
    obtain ⟨n, hn, hb⟩ := bind_eq_ok hb
    obtain ⟨m, hm, hb⟩ := bind_eq_ok hb
    obtain ⟨rfl, hepoch⟩ := place_ok hp
    obtain ⟨rfl, hissued⟩ := instant_ok hn
    obtain ⟨rfl, hexpires⟩ := instant_ok hm
    cases hb
    simp [Statement.texts, Statement.blobs] at htexts hblobs
    rw [text_ok hw, text_ok hu, text_ok hd, sized_ok hk]
    exact ⟨by simp; rfl, by simpa [htexts, hblobs] using ⟨hepoch, hissued, hexpires⟩⟩
  | redemption v =>
    obtain ⟨_, hw, hb⟩ := bind_eq_ok hb
    obtain ⟨_, hs, hb⟩ := bind_eq_ok hb
    obtain ⟨_, hk, hb⟩ := bind_eq_ok hb
    cases hb
    simp [Statement.texts, Statement.blobs] at htexts hblobs
    rw [text_ok hw, text_ok hs, sized_ok hk]
    exact ⟨by simp; rfl, by simp [htexts, hblobs]⟩

/-- No statement is the beginning of another, up to what `TextEncoder` reads of its texts. -/
theorem encode_delimits (hlength : ∀ body, (C.sha256 body).length = 32) (hsha : Set.InjOn C.sha256 bodies)
    (hb : s.encode C = .ok bytes) (hb' : t.encode C = .ok bytes') (hs : s.Short) (ht : t.Short)
    (hbody : s.BodyIn bodies)
    (hbody' : t.BodyIn bodies)
    (e : bytes ++ r = bytes' ++ r') : s.mapTexts toWellFormed = t.mapTexts toWellFormed ∧ r = r' := by
  obtain ⟨rfl, hparts⟩ := encode_parts hlength hb hs
  obtain ⟨rfl, hparts'⟩ := encode_parts hlength hb' ht
  rw [append_assoc, append_assoc] at e
  obtain ⟨hlabel, e⟩ := lp_delimits _ _ (label_short _) (label_short _) _ _ e
  have hkind : s.kind = t.kind := label_injective (utf8_inj hlabel)
  have hsort : (s.parts C).map Part.sort = (t.parts C).map Part.sort := by
    cases s <;> cases t <;> first | rfl | cases hkind
  refine (parts_delimit hsort hparts hparts' e).imp_left fun hread => ?_
  cases s with
  | author g i body =>
    cases t with
    | author g' i' body' => 
      simp [Part.read] at hread
      rw [utf8_inj hread.1, utf8_inj hread.2.1, hsha hbody hbody' hread.2.2]
    | _ => cases hkind
  | forkClaim g n x i =>
    cases t with
    | forkClaim g' n' x' i' => 
      simp [Part.read] at hread
      rw [utf8_inj hread.1, hread.2.1, hread.2.2.1, utf8_inj hread.2.2.2]
    | _ => cases hkind
  | header h | endorsement h | admission h | link h | redemption h =>
    cases t <;> cases hkind
    simp [Part.read] at hread
    simp [Statement.mapTexts, GraineMessageHeaderV2.mapTexts, GraineEndorsementV2.mapTexts, DirectAdmission.mapTexts,
      LinkAdmission.mapTexts,
      LinkRedemption.mapTexts, AdmissionSigner.mapTexts, AdmissionPlace.mapTexts, hread]

end Delimits

/-! ## Which statements stand alone -/

section Alone

variable {C} {bodies : Set Bytes} {s : Statement} {bytes : Bytes} {f : JsString → JsString}

/-- Texts that read the same encode the same, and fail the same checks. -/
theorem encode_mapTexts (hf : ∀ t, scalars (f t) = scalars t)
    (s : Statement) : (s.mapTexts f).encode C = s.encode C := by
  have hutf8 : ∀ t, utf8Of (f t) = utf8Of t := fun t => utf8Of_inj.mpr (hf t)
  have hempty : ∀ t, (f t).isEmpty = t.isEmpty := by
    intro t
    rw [Bool.eq_iff_iff, List.isEmpty_iff, List.isEmpty_iff, ← scalars_eq_nil, hf t, scalars_eq_nil]
  have htext : ∀ name t, text name (f t) = text name t := by
    intro name t
    unfold text
    rw [hempty, hutf8]
  have hrequire : ∀ name t, requireText name (f t) = requireText name t := by
    intro name t
    unfold requireText
    rw [hempty]
  cases s with
  | author | forkClaim => rfl
  | header h =>
    simp only [Statement.mapTexts, Statement.encode, encodeGraineHeaderV2, GraineMessageHeaderV2.mapTexts,
      hrequire, hutf8]
  | endorsement d =>
    simp only [Statement.mapTexts, Statement.encode, encodeGraineEndorsementV2, GraineEndorsementV2.mapTexts, hrequire, hutf8]
  | admission v =>
    simp only [Statement.mapTexts, Statement.encode, encodeDirectAdmission, DirectAdmission.mapTexts,
      AdmissionSigner.mapTexts,
      AdmissionPlace.mapTexts, writePlace, htext]
  | link v =>
    simp only [Statement.mapTexts, Statement.encode, encodeLinkAdmission, LinkAdmission.mapTexts,
      AdmissionSigner.mapTexts,
      AdmissionPlace.mapTexts, writePlace, htext]
  | redemption v =>
    simp only [Statement.mapTexts, Statement.encode, encodeLinkRedemption, LinkRedemption.mapTexts, htext]

theorem short_mapTexts (hf : ∀ t, scalars (f t) = scalars t) (h : s.Short) : (s.mapTexts f).Short := by
  refine ⟨fun t ht => ?_, fun b hb => h.2 b ?_⟩
  · rw [texts_mapTexts] at ht
    obtain ⟨t', ht', rfl⟩ := mem_map.mp ht
    rw [utf8Of_inj.mpr (hf t')]
    exact h.1 t' ht'
  · cases s <;> exact hb

theorem bodyIn_mapTexts (h : s.BodyIn bodies) : (s.mapTexts f).BodyIn bodies := by
  cases s <;> exact h

theorem has_double {t : JsString} (ht : t ∈ s.texts) (hp : ¬ Plain t) (hb : s.encode C = .ok bytes) (hs : s.Short)
    (hbody : s.BodyIn bodies) :
    ∃ d : Statement, d.Short ∧ d.BodyIn bodies ∧ d.encode C = .ok bytes ∧ d ≠ s := by
  have hunit : single (otherUnit t) = replacement ∧ isLow (otherUnit t) = false := by
    unfold otherUnit
    split <;> decide
  have hf : ∀ text, scalars (rebuild (otherUnit t) (scalars text)) = scalars text :=
    fun text => scalars_rebuild hunit.1 hunit.2 _
  refine ⟨s.mapTexts fun text => rebuild (otherUnit t) (scalars text), short_mapTexts hf hs, bodyIn_mapTexts hbody,
    (encode_mapTexts hf s).trans hb, fun e => ?_⟩
  have htexts := congrArg Statement.texts e
  rw [texts_mapTexts] at htexts
  exact rebuild_ne_of_not_plain hp (map_inj_left.mp (htexts.trans (map_id _).symm) t ht)

/-- No other statement, of any kind, has a statement's bytes exactly when its texts are plain. -/
theorem statement_alone_iff (hlength : ∀ body, (C.sha256 body).length = 32) (hsha : Set.InjOn C.sha256 bodies)
    (hb : s.encode C = .ok bytes) (hs : s.Short) (hbody : s.BodyIn bodies) :
    (∀ t : Statement, t.Short → t.BodyIn bodies → t.encode C = .ok bytes → t = s) ↔ ∀ t ∈ s.texts, Plain t := by
  constructor
  · intro halone t ht
    by_contra hp
    obtain ⟨d, hd, hdbody, hdb, hne⟩ := has_double ht hp hb hs hbody
    exact hne (halone d hd hdbody hdb)
  · intro hplain t ht htbody htb
    have hsame : s.mapTexts toWellFormed = t.mapTexts toWellFormed :=
      (encode_delimits hlength hsha hb htb hs ht hbody htbody (rfl : bytes ++ [] = bytes ++ [])).1
    have hself : s.mapTexts toWellFormed = s :=
      mapTexts_eq_self fun x hx => toWellFormed_of_wellFormed (hplain x hx).wellFormed
    have htself : t.mapTexts toWellFormed = t := by
      refine mapTexts_eq_self fun x hx => toWellFormed_of_wellFormed ?_
      have hmem : toWellFormed x ∈ (t.mapTexts toWellFormed).texts := by
        rw [texts_mapTexts]
        exact mem_map_of_mem hx
      rw [← hsame, hself] at hmem
      have hread : scalars (toWellFormed x) = scalars x := scalars_rebuild (by decide) (by decide) _
      exact (plain_iff.mpr (hread ▸ plain_iff.mp (hplain _ hmem))).wellFormed
    rw [← htself, ← hsame, hself]

/-- What a session key signs: the header, then a nonce of fixed width, then the ciphertext. -/
def graineSignedBytesV2 (header nonce ciphertext : Bytes) : Except String Bytes := do
  requireLength "nonce" nonce GRAINE_NONCE_BYTES
  return header ++ (nonce ++ ciphertext)

end Alone

def emptyDigest : Bytes :=
  [0xe3, 0xb0, 0xc4, 0x42, 0x98, 0xfc, 0x1c, 0x14, 0x9a, 0xfb, 0xf4, 0xc8, 0x99, 0x6f, 0xb9, 0x24,
   0x27, 0xae, 0x41, 0xe4, 0x64, 0x9b, 0x93, 0x4c, 0xa4, 0x95, 0x99, 0x1b, 0x78, 0x52, 0xb8, 0x55]

def emptyBodyCrypto : Crypto := ⟨fun _ => emptyDigest, fun _ _ _ => false⟩

def headerIn (sessionId : JsString) : Statement := .header ⟨[0x73], sessionId, [0x6d], .safe 0 (by decide)⟩

/-- Sessions `"a\uD800"` and `"a\uFFFD"` have one header. -/
theorem two_headers_with_one_encoding : ¬ ∀ (C : Crypto) (bodies : Set Bytes) (s t : Statement) (bytes : Bytes),
    (∀ body, (C.sha256 body).length = 32) → Set.InjOn C.sha256 bodies → s.Short → t.Short → s.BodyIn bodies →
      t.BodyIn bodies →
      s.encode C = .ok bytes → t.encode C = .ok bytes → s = t := by
  intro h
  have hinj : Set.InjOn emptyBodyCrypto.sha256 {[]} := Set.injOn_singleton _ _
  have hencode : (headerIn [0x61, 0xD800]).encode emptyBodyCrypto =
    (headerIn [0x61, 0xFFFD]).encode emptyBodyCrypto := by decide
  have hshort : ∀ u : UInt16, utf8Of [0x61, u] = utf8Of [0x61, 0xFFFD] → (headerIn [0x61, u]).Short := by
    intro u hu
    refine ⟨fun t ht => ?_, fun b hb => nomatch hb⟩
    simp only [headerIn, Statement.texts, mem_cons, not_mem_nil, or_false] at ht
    rcases ht with rfl | rfl | rfl
    · decide
    · rw [hu]; decide
    · decide
  have hok : ((headerIn [0x61, 0xFFFD]).encode emptyBodyCrypto).isOk = true := by decide
  cases hb : (headerIn [0x61, 0xFFFD]).encode emptyBodyCrypto with
  | error e => rw [hb] at hok; cases hok
  | ok bytes =>
    have := h emptyBodyCrypto {[]} _ _ bytes (fun _ => rfl) hinj (hshort 0xD800 (by decide))
      (hshort 0xFFFD rfl) trivial trivial
      (hencode.trans hb) hb
    revert this
    decide

/-- A direct admission with plain texts: nothing else that is signed has its bytes. -/
def adaAdmitsBob : Statement :=
  .admission ⟨[0x77], [0x62, 0x6f, 0x62], ⟨[0x61, 0x64, 0x61], [0x70]⟩, ⟨[0x6b], .safe 3 (by decide)⟩,
    .safe 1730000000000 (by decide)⟩

theorem adaAdmitsBob_stands_alone : ∃ bytes, adaAdmitsBob.encode emptyBodyCrypto = .ok bytes ∧
    ∀ t : Statement, t.Short → t.BodyIn {[]} → t.encode emptyBodyCrypto = .ok bytes → t = adaAdmitsBob := by
  have hplain : ∀ t ∈ adaAdmitsBob.texts, isWellFormed t = true ∧ (0xFFFD : UInt16) ∉ t ∧
    (utf8Of t).length < 2 ^ 32 := by decide
  have hshort : adaAdmitsBob.Short := ⟨fun t ht => (hplain t ht).2.2, fun b hb => nomatch hb⟩
  have hok : (adaAdmitsBob.encode emptyBodyCrypto).isOk = true := by decide
  cases hb : adaAdmitsBob.encode emptyBodyCrypto with
  | error e => rw [hb] at hok; cases hok
  | ok bytes =>
    exact ⟨bytes, rfl, (statement_alone_iff (fun _ => rfl) (Set.injOn_singleton _ _) hb hshort trivial).mpr
      fun t ht => ⟨(hplain t ht).1, (hplain t ht).2.1⟩⟩

end Canari.Graine.Statements
