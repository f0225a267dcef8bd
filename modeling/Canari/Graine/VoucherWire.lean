/-
  Canari.Graine.VoucherWire — the two wire forms of a community admission: the voucher stored with a
  membership and the fragment of an invite link (`frontend/src/lib/crypto/graineAdmission.ts`:
  `encodeAdmissionVoucher`, `decodeAdmissionVoucher`, `encodeInviteLinkGrant`, `decodeInviteLinkGrant`,
  `FieldReader`).

  The reader checks every length, so nothing is thrown but its format error, and the fields it reads are
  those that were written, with one exception: each text goes through a `TextDecoder` that takes a byte
  order mark off its front. A value comes back exactly when no text of it opens with U+FEFF
  (`WireForm.round_trip_iff`), and bytes that no value is written as are refused unless they are a value
  behind a marked label (`WireForm.refused_iff`).
-/

import Canari.Graine.Statements
import Canari.Lib.Reader
import Canari.Lib.WebText

namespace Canari.Graine.VoucherWire

open Lib Lib.Utf16 Lib.WebText List
open Mls.Authorship (GRAINE_PUBLIC_KEY_BYTES GRAINE_SIGNATURE_BYTES)
open Graine.Statements

def VOUCHER_LABEL : String := "canari-graine-admission-v1"
def INVITE_GRANT_LABEL : String := "canari-graine-invite-v1"
def LINK_SECRET_BYTES : Nat := 32
def KIND_DIRECT : Nat := 1
def KIND_LINK : Nat := 2

inductive Thrown where
  /-- `AdmissionFormatError`. -/
  | admissionFormat (message : String)
  /-- Of a `DataView` asked for bytes it does not have. -/
  | rangeError
  deriving DecidableEq

/-- `new AdmissionFormatError(what)`. -/
def admissionFormatError (what : String) : Thrown := .admissionFormat s!"admission {what}"

structure DirectAdmissionVoucher extends DirectAdmission where
  signature : Bytes
  deriving DecidableEq

structure LinkAdmissionVoucher extends DirectAdmission where
  expiresAt : JsNumber
  linkPublicKey : Bytes
  linkSignature : Bytes
  redemptionSignature : Bytes
  deriving DecidableEq

inductive AdmissionVoucher where
  | direct (v : DirectAdmissionVoucher)
  | link (v : LinkAdmissionVoucher)
  deriving DecidableEq

structure InviteLinkGrant extends LinkAdmission where
  linkSignature : Bytes
  linkSecret : Bytes

/-! ## Writing -/

def replaceUnit (a b : UInt16) (t : JsString) : JsString := t.map fun u => if u = a then b else u

/-- `replace(/=+$/, '')`. -/
def withoutEquals (t : JsString) : JsString := (t.reverse.dropWhile (· = 0x3D)).reverse

def toBase64Url (bytes : Bytes) : JsString := withoutEquals (replaceUnit 0x2F 0x5F (replaceUnit 0x2B 0x2D (btoa bytes)))

variable (v : DirectAdmission)

def writeAdmission : Except String Bytes := do
  let workspaceId ← text "workspaceId" v.workspaceId
  let subjectUserId ← text "subjectUserId" v.subjectUserId
  let signerUser ← text "signer.userId" v.signer.userId
  let signerDevice ← text "signer.deviceId" v.signer.deviceId
  let place ← writePlace v.place
  let issuedAt ← instant v.issuedAt
  return lp workspaceId ++ (lp subjectUserId ++ (lp signerUser ++ (lp signerDevice ++ (place ++ be64 issuedAt))))

def encodeAdmissionVoucher (voucher : AdmissionVoucher) : Except String JsString := do
  let label := lp (utf8Of (JsText.text VOUCHER_LABEL))
  match voucher with
  | .direct v =>
    let admission ← writeAdmission v.toDirectAdmission
    let signature ← sized "signature" v.signature GRAINE_SIGNATURE_BYTES
    return toBase64Url (label ++ (be32 KIND_DIRECT ++ (admission ++ lp signature)))
  | .link v =>
    let admission ← writeAdmission v.toDirectAdmission
    let expiresAt ← instant v.expiresAt
    let linkPublicKey ← sized "linkPublicKey" v.linkPublicKey GRAINE_PUBLIC_KEY_BYTES
    let linkSignature ← sized "linkSignature" v.linkSignature GRAINE_SIGNATURE_BYTES
    let redemptionSignature ← sized "redemptionSignature" v.redemptionSignature GRAINE_SIGNATURE_BYTES
    return toBase64Url (label ++
      (be32 KIND_LINK ++ (admission ++ (be64 expiresAt ++ (lp linkPublicKey ++ (lp linkSignature ++
      lp redemptionSignature))))))

def encodeInviteLinkGrant (grant : InviteLinkGrant) : Except String JsString := do
  let workspaceId ← text "workspaceId" grant.workspaceId
  let signerUser ← text "signer.userId" grant.signer.userId
  let signerDevice ← text "signer.deviceId" grant.signer.deviceId
  let place ← writePlace grant.place
  let issuedAt ← instant grant.issuedAt
  let expiresAt ← instant grant.expiresAt
  let linkPublicKey ← sized "linkPublicKey" grant.linkPublicKey GRAINE_PUBLIC_KEY_BYTES
  let linkSignature ← sized "linkSignature" grant.linkSignature GRAINE_SIGNATURE_BYTES
  let linkSecret ← sized "linkSecret" grant.linkSecret LINK_SECRET_BYTES
  return toBase64Url (lp (utf8Of (JsText.text INVITE_GRANT_LABEL)) ++
    (lp workspaceId ++ (lp signerUser ++ (lp signerDevice ++ (place ++
    (be64 issuedAt ++ (be64 expiresAt ++ (lp linkPublicKey ++ (lp linkSignature ++ lp linkSecret)))))))))

/-! ## Reading -/

/-- `/^[A-Za-z0-9_-]*$/`. -/
def isBase64Url (u : UInt16) : Bool := (Buffer.sixBits u).isSome && u != 0x2B && u != 0x2F

def fromBase64Url (encoded : JsString) : Except Thrown Bytes :=
  if ¬ encoded.all isBase64Url then .error (admissionFormatError "not base64url")
  else
    let b64 := replaceUnit 0x5F 0x2F (replaceUnit 0x2D 0x2B encoded)
    match atob (b64 ++ List.replicate ((4 - b64.length % 4) % 4) 0x3D) with
    | some bytes => .ok bytes
    | none => .error (admissionFormatError "not base64url")

/-- A `FieldReader`, as its bytes from `at` on. -/
abbrev FieldReader := Reader Thrown

namespace FieldReader

def need (length : Nat) : FieldReader Unit := fun bytes =>
  if bytes.length < length then .error (admissionFormatError "truncated") else .ok ((), bytes)

/-- `getUint32`, `getBigUint64`, by the bytes they take. -/
def getUint (width : Nat) : FieldReader Nat := fun bytes =>
  if bytes.length < width then .error .rangeError else .ok (Cbor.ofBe (bytes.take width), bytes.drop width)

def number (width : Nat) : FieldReader Nat := do
  need width
  getUint width

def u32 : FieldReader Nat := number 4

def u64 : FieldReader JsNumber := do
  let v ← number 8
  if h : v < 2 ^ 53 then return .safe v (by omega) else Reader.fail (admissionFormatError "an instant overflows")

/-- `bytes.slice(at, at + length)`: what there is of it. -/
def slice (length : Nat) : FieldReader Bytes := fun bytes => .ok (bytes.take length, bytes.drop length)

def field : FieldReader Bytes := do
  let length ← u32
  need length
  slice length

def sized (length : Nat) : FieldReader Bytes := do
  let out ← field
  if out.length ≠ length then Reader.fail (admissionFormatError s!"a {length}-byte field holds {out.length}")
    else return out

def string : FieldReader JsString := do
  let bytes ← field
  match decodeFatal bytes with
  | some t => return t
  | none => Reader.fail (admissionFormatError "a text field is not UTF-8")

def place : FieldReader AdmissionPlace := do
  let keyGroupId ← string
  let epoch ← u64
  return ⟨keyGroupId, epoch⟩

def atEnd (rest : Bytes) : Except Thrown Unit :=
  if rest.length ≠ 0 then .error (admissionFormatError "trailing bytes") else .ok ()

end FieldReader

open FieldReader

def expectLabel (label what : String) : FieldReader Unit := do
  let read ← string
  if read ≠ JsText.text label then Reader.fail (admissionFormatError s!"{what}: unknown label") else return ()

def admissionFields : FieldReader DirectAdmission := do
  let workspaceId ← string
  let subjectUserId ← string
  let userId ← string
  let deviceId ← string
  let place ← place
  let issuedAt ← u64
  return ⟨workspaceId, subjectUserId, ⟨userId, deviceId⟩, place, issuedAt⟩

def directFields : FieldReader AdmissionVoucher := do
  let signature ← FieldReader.sized GRAINE_SIGNATURE_BYTES
  return .direct ⟨v, signature⟩

def linkFields : FieldReader AdmissionVoucher := do
  let expiresAt ← u64
  let linkPublicKey ← FieldReader.sized GRAINE_PUBLIC_KEY_BYTES
  let linkSignature ← FieldReader.sized GRAINE_SIGNATURE_BYTES
  let redemptionSignature ← FieldReader.sized GRAINE_SIGNATURE_BYTES
  return .link ⟨v, expiresAt, linkPublicKey, linkSignature, redemptionSignature⟩

def voucherFields : FieldReader AdmissionVoucher := do
  expectLabel VOUCHER_LABEL "voucher"
  let kind ← u32
  let v ← admissionFields
  if kind = KIND_DIRECT then directFields v
  else if kind = KIND_LINK then linkFields v
  else Reader.fail (admissionFormatError s!"voucher: unknown kind {kind}")

def grantFields : FieldReader InviteLinkGrant := do
  expectLabel INVITE_GRANT_LABEL "fragment"
  let workspaceId ← string
  let userId ← string
  let deviceId ← string
  let place ← place
  let issuedAt ← u64
  let expiresAt ← u64
  let linkPublicKey ← FieldReader.sized GRAINE_PUBLIC_KEY_BYTES
  let linkSignature ← FieldReader.sized GRAINE_SIGNATURE_BYTES
  let linkSecret ← FieldReader.sized LINK_SECRET_BYTES
  return ⟨⟨workspaceId, ⟨userId, deviceId⟩, place, issuedAt, expiresAt, linkPublicKey⟩, linkSignature, linkSecret⟩

def AdmissionVoucher.admission : AdmissionVoucher → DirectAdmission
  | .direct v => v.toDirectAdmission
  | .link v => v.toDirectAdmission

def AdmissionVoucher.texts (v : AdmissionVoucher) : List JsString :=
  [v.admission.workspaceId, v.admission.subjectUserId, v.admission.signer.userId, v.admission.signer.deviceId,
    v.admission.place.keyGroupId]

variable (g : InviteLinkGrant)

def InviteLinkGrant.texts : List JsString := [g.workspaceId, g.signer.userId, g.signer.deviceId, g.place.keyGroupId]

/-- What is read of the bytes: the fields, the end, and no empty identity among them. -/
def readWhole {α : Type} (fields : FieldReader α) (texts : α → List JsString) (what : String)
    (bytes : Bytes) : Except Thrown α := do
  let (value, rest) ← fields bytes
  atEnd rest
  if (texts value).any List.isEmpty then .error (admissionFormatError s!"{what}: an empty identity") else .ok value

def decodeAdmissionVoucher (encoded : JsString) : Except Thrown AdmissionVoucher := do
  let bytes ← fromBase64Url encoded
  readWhole voucherFields AdmissionVoucher.texts "voucher" bytes

/-- `replace(/^#/, '')`. -/
def withoutHash : JsString → JsString
  | [] => []
  | u :: rest => if u = 0x23 then rest else u :: rest

def decodeInviteLinkGrant (fragment : JsString) : Except Thrown InviteLinkGrant := do
  let bytes ← fromBase64Url (withoutHash fragment)
  readWhole grantFields InviteLinkGrant.texts "fragment" bytes

/-! ## What each field is written as -/

/-- Well formed, and its bytes can be counted in four. -/
structure TextFits (t : JsString) : Prop where
  wellFormed : isWellFormed t = true
  short : (utf8Of t).length < 2 ^ 32

def InRange (x : JsNumber) : Prop := ∃ (n : Nat) (h : (n : Int).natAbs < 2 ^ 53), x = .safe n h

def count : JsNumber → Nat
  | .safe n _ => n.toNat
  | .other _ => 0

def IsFormatError (e : Thrown) : Prop := ∃ message, e = .admissionFormat message

section Fields

variable {bytes : Bytes} {x y : JsNumber} {t s : JsString} {width n length : Nat}

theorem number_eq (width : Nat) (bytes : Bytes) : number width bytes =
    if bytes.length < width then .error (admissionFormatError "truncated") else
      .ok (Cbor.ofBe (bytes.take width), bytes.drop width) := by
  by_cases h : bytes.length < width
  · rw [if_pos h]
    exact Reader.bind_of_error (if_pos h)
  · rw [if_neg h]
    exact (Reader.bind_of_ok (if_neg h)).trans (if_neg h)

theorem reads_number (width : Nat) : Reader.Reads (number width) fun w n => n < 256 ^ width ∧ w = beBytes width n := by
  intro bytes n rest
  rw [number_eq]
  constructor
  · intro h
    split at h
    · cases h
    · next hlen =>
      cases h
      have htake : (bytes.take width).length = width := by
        rw [length_take]
        omega
      have hlt := Cbor.ofBe_lt (bytes.take width)
      have hbytes := Cbor.beBytes_ofBe (bytes.take width)
      rw [htake] at hlt hbytes
      exact ⟨_, ⟨hlt, rfl⟩, by rw [hbytes, take_append_drop]⟩
  · intro ⟨w, ⟨hn, hw⟩, hbytes⟩
    subst hw hbytes
    have hlen := length_beBytes width n
    have hroom : ¬ (beBytes width n ++ rest).length < width := by
      rw [length_append]
      omega
    rw [if_neg hroom, take_left' hlen, drop_left' hlen, Cbor.ofBe_beBytes, Nat.mod_eq_of_lt hn]

theorem reads_u32 : Reader.Reads u32 fun w n => n < 2 ^ 32 ∧ w = be32 n := reads_number 4

theorem count_safe (h : (n : Int).natAbs < 2 ^ 53) : count (.safe n h) = n := Int.toNat_natCast n

theorem count_lt (h : InRange x) : count x < 2 ^ 53 := by
  obtain ⟨n, hn, rfl⟩ := h
  rw [count_safe]
  omega

theorem count_inj (hx : InRange x) (hy : InRange y) (h : count x = count y) : x = y := by
  obtain ⟨n, hn, rfl⟩ := hx
  obtain ⟨m, hm, rfl⟩ := hy
  rw [count_safe] at h
  subst h
  rfl

theorem reads_u64 : Reader.Reads u64 fun w x => InRange x ∧ w = be64 (count x) := by
  have hnumber : ∀ v : Nat, Reader.Reads
      (if h : v < 2 ^ 53 then pure (.safe v (by omega)) else Reader.fail
      (admissionFormatError "an instant overflows") : FieldReader JsNumber)
      fun w x => w = [] ∧ InRange x ∧ count x = v := by
    intro v bytes x rest
    split
    · next hv =>
      rw [Reader.Reads.pure _ bytes x rest]
      constructor
      · intro h
        obtain ⟨w, ⟨hw, hx⟩, hb⟩ := h
        exact ⟨w, ⟨hw, ⟨v, by omega, hx⟩, by rw [hx, count_safe]⟩, hb⟩
      · intro h
        obtain ⟨w, ⟨hw, ⟨n, hn, hx⟩, hc⟩, hb⟩ := h
        rw [hx] at hc
        subst hc
        exact ⟨w, ⟨hw, hx⟩, hb⟩
    · next hv =>
      rw [Reader.Reads.fail _ bytes x rest]
      constructor
      · intro h
        obtain ⟨_, h, _⟩ := h
        exact h.elim
      · intro h
        obtain ⟨_, ⟨_, hx, hc⟩, _⟩ := h
        exact absurd (count_lt hx) (hc ▸ hv)
  have hread : Reader.Reads u64 _ := Reader.Reads.bind (reads_number 8) hnumber
  refine hread.congr fun w x => ?_
  constructor
  · intro h
    obtain ⟨v, a, b, ⟨_, ha⟩, ⟨hb, hx, hc⟩, hw⟩ := h
    exact ⟨hx, by rw [hw, ha, hb, hc]; rfl⟩
  · intro h
    obtain ⟨hx, hw⟩ := h
    have hlt := count_lt hx
    exact ⟨count x, be64 (count x), [], ⟨by omega, rfl⟩, ⟨rfl, hx, rfl⟩, by rw [hw, append_nil]⟩

theorem reads_field : Reader.Reads field fun w f => f.length < 2 ^ 32 ∧ w = lp f := by
  intro bytes f rest
  unfold field
  rw [Reader.bind_eq_ok]
  constructor
  · intro h
    obtain ⟨n, mid, hn, h⟩ := h
    obtain ⟨w, ⟨hlt, rfl⟩, rfl⟩ := (reads_u32 _ _ _).mp hn
    obtain ⟨u, mid', hneed, h⟩ := Reader.bind_eq_ok.mp h
    unfold need at hneed
    split at hneed
    · cases hneed
    · next hroom =>
      cases hneed
      cases h
      have hlen : (mid.take n).length = n := by
        rw [length_take]
        omega
      exact ⟨_, ⟨hlen.symm ▸ hlt, rfl⟩, by rw [Lib.lp, hlen, append_assoc, take_append_drop]⟩
  · intro h
    obtain ⟨w, ⟨hlt, hw⟩, hbytes⟩ := h
    subst hw hbytes
    rw [Lib.lp]
    refine ⟨f.length, f ++ rest, (reads_u32 _ _ _).mpr ⟨_, ⟨hlt, rfl⟩, rfl⟩, ?_⟩
    have hneed : need f.length (f ++ rest) = .ok ((), f ++ rest) := if_neg (by rw [length_append]; omega)
    rw [Reader.bind_of_ok hneed, slice, take_left, drop_left]

theorem reads_sized (h : length < 2 ^ 32) : Reader.Reads (FieldReader.sized length) fun w f => f.length = length ∧
    w = lp f := by
  have hread : Reader.Reads (FieldReader.sized length) _ :=
    .bind reads_field fun out => (Reader.Reads.pure out).refuse _
  refine hread.congr fun w f => ?_
  constructor
  · intro ⟨out, a, b, ⟨_, ha⟩, ⟨hlen, hb, hf⟩, hw⟩
    subst hf
    exact ⟨not_not.mp hlen, by rw [hw, ha, hb, append_nil]⟩
  · intro ⟨hlen, hw⟩
    exact ⟨f, lp f, [], ⟨hlen.symm ▸ h, rfl⟩, ⟨not_not.mpr hlen, rfl, rfl⟩, by rw [hw, append_nil]⟩

theorem reads_string : Reader.Reads string fun w t => ∃ s, TextFits s ∧ w = lp (utf8Of s) ∧ t = withoutMark s := by
  have hdecode : ∀ out : Bytes, Reader.Reads
      (match decodeFatal out with
        | some t => pure t
        | none => Reader.fail (admissionFormatError "a text field is not UTF-8") : FieldReader JsString)
      fun w t => w = [] ∧ decodeFatal out = some t := by
    intro out
    cases hd : decodeFatal out with
    | some t => exact (Reader.Reads.pure t).congr fun w t' => by rw [Option.some.injEq, @eq_comm _ t t']
    | none => exact (Reader.Reads.fail _).congr fun w t' => ⟨False.elim, fun h => by cases h.2⟩
  have hread : Reader.Reads string _ := .bind reads_field hdecode
  refine hread.congr fun w t => ?_
  constructor
  · intro ⟨out, a, b, ⟨hlt, ha⟩, ⟨hb, hd⟩, hw⟩
    obtain ⟨s, hs, rfl, ht⟩ := decodeFatal_iff.mp hd
    exact ⟨s, ⟨hs, hlt⟩, by rw [hw, ha, hb, append_nil], ht⟩
  · intro ⟨s, hs, hw, ht⟩
    refine ⟨utf8Of s, lp (utf8Of s), [], ⟨hs.short, rfl⟩, ⟨rfl, ?_⟩, by rw [hw, append_nil]⟩
    exact decodeFatal_iff.mpr ⟨s, hs.wellFormed, rfl, ht⟩

theorem reads_expectLabel (label what : String) : Reader.Reads (expectLabel label what)
    fun w _ => ∃ s, TextFits s ∧ withoutMark s = JsText.text label ∧ w = lp (utf8Of s) := by
  have hread : Reader.Reads (expectLabel label what) _ := .bind reads_string fun read => (Reader.Reads.pure ()).refuse _
  refine hread.congr fun w u => ?_
  constructor
  · intro ⟨t, a, b, ⟨s, hs, ha, ht⟩, ⟨hlabel, hb, _⟩, hw⟩
    exact ⟨s, hs, ht.symm.trans (not_not.mp hlabel), by rw [hw, ha, hb, append_nil]⟩
  · intro ⟨s, hs, hlabel, hw⟩
    exact ⟨withoutMark s, lp (utf8Of s), [], ⟨s, hs, rfl, rfl⟩, ⟨not_not.mpr hlabel, rfl, rfl⟩, by rw [hw, append_nil]⟩

end Fields

/-! ## What they throw -/

section Throws

variable {length : Nat}

theorem throws_number (width : Nat) : Reader.Throws IsFormatError (number width) := by
  intro bytes e h
  rw [number_eq] at h
  split at h
  · cases h
    exact ⟨_, rfl⟩
  · cases h

theorem throws_fail {α : Type}
    (what : String) : Reader.Throws IsFormatError (Reader.fail (admissionFormatError what) : FieldReader α) :=
  Reader.Throws.fail ⟨_, rfl⟩

theorem throws_u64 : Reader.Throws IsFormatError u64 := by
  refine (throws_number 8).bind fun v => ?_
  split
  · exact Reader.Throws.pure _
  · exact throws_fail _

theorem throws_field : Reader.Throws IsFormatError field := by
  refine (throws_number 4).bind fun n => Reader.Throws.bind ?_ fun _ => ?_
  · intro bytes e h
    unfold need at h
    split at h
    · cases h
      exact ⟨_, rfl⟩
    · cases h
  · intro bytes e h
    cases h

theorem throws_sized : Reader.Throws IsFormatError (FieldReader.sized length) :=
  .bind throws_field fun _ => (throws_fail _).ite (Reader.Throws.pure _)

theorem throws_string : Reader.Throws IsFormatError string := by
  refine .bind throws_field fun out => ?_
  cases decodeFatal out with
  | some t => exact Reader.Throws.pure t
  | none => exact throws_fail _

theorem throws_expectLabel (label what : String) : Reader.Throws IsFormatError (expectLabel label what) :=
  .bind throws_string fun _ => (throws_fail _).ite (Reader.Throws.pure _)

theorem throws_place : Reader.Throws IsFormatError place :=
    .bind throws_string fun _ => .bind throws_u64 fun _ => Reader.Throws.pure _

theorem throws_admissionFields : Reader.Throws IsFormatError admissionFields :=
  .bind throws_string fun _ => .bind throws_string fun _ => .bind throws_string fun _ => .bind throws_string fun _ =>
    .bind throws_place fun _ => .bind throws_u64 fun _ => Reader.Throws.pure _

theorem throws_voucherFields : Reader.Throws IsFormatError voucherFields := by
  refine (throws_expectLabel _ _).bind fun _ => (throws_number 4).bind fun kind =>
    .bind throws_admissionFields fun v => ?_
  have hdirect : Reader.Throws IsFormatError (directFields v) := .bind throws_sized fun _ => Reader.Throws.pure _
  have hlink : Reader.Throws IsFormatError (linkFields v) :=
    .bind throws_u64 fun _ => .bind throws_sized fun _ => .bind throws_sized fun _ => .bind throws_sized fun _ =>
      Reader.Throws.pure _
  exact hdirect.ite (hlink.ite (throws_fail _))

theorem throws_grantFields : Reader.Throws IsFormatError grantFields :=
  (throws_expectLabel _ _).bind fun _ => .bind throws_string fun _ => .bind throws_string fun _ =>
    .bind throws_string fun _ =>
    .bind throws_place fun _ => .bind throws_u64 fun _ => .bind throws_u64 fun _ => .bind throws_sized fun _ =>
      .bind throws_sized fun _ =>
      .bind throws_sized fun _ => Reader.Throws.pure _

end Throws

/-! ## A wire form -/

/-- The values of one wire form: their texts, their numbers and the byte fields with their sizes, how
    they are written behind the label, and the code that writes and reads them. -/
structure WireForm (α : Type) where
  label : String
  what : String
  encode : α → Except String JsString
  decode : JsString → Except Thrown α
  /-- What `decode` takes off its text before reading it. -/
  payload : JsString → JsString
  fields : FieldReader α
  texts : α → List JsString
  numbers : α → List JsNumber
  blobs : α → List (Bytes × Nat)
  mapTexts : (JsString → JsString) → α → α
  bytes : α → Bytes

namespace WireForm

variable {α : Type} (W : WireForm α)

/-- Well-formed identities that are not empty, and numbers in range. -/
structure Proper (v : α) : Prop where
  texts : ∀ t ∈ W.texts v, isWellFormed t = true ∧ t ≠ []
  numbers : ∀ n ∈ W.numbers v, InRange n

def Sized (v : α) : Prop := ∀ b ∈ W.blobs v, b.1.length = b.2

def Short (v : α) : Prop := ∀ t ∈ W.texts v, (utf8Of t).length < 2 ^ 32

def Unmarked (v : α) : Prop := ∀ t ∈ W.texts v, ¬ Marked t

structure Fits (v : α) : Prop where
  texts : ∀ t ∈ W.texts v, TextFits t
  numbers : ∀ n ∈ W.numbers v, InRange n
  sized : W.Sized v

theorem fits_iff {W : WireForm α} {v : α} : W.Fits v ↔
    (∀ t ∈ W.texts v, TextFits t) ∧ (∀ n ∈ W.numbers v, InRange n) ∧ ∀ b ∈ W.blobs v, b.1.length = b.2 :=
  ⟨fun h => ⟨h.texts, h.numbers, h.sized⟩, fun ⟨ht, hn, hb⟩ => ⟨ht, hn, hb⟩⟩

def labelled (label : JsString) (v : α) : Bytes := lp (utf8Of label) ++ W.bytes v

/-- The text holds a value with a mark put before the label, and more than a mark in each of its texts. -/
def BehindMark (t : JsString) : Prop :=
    ∃ u, W.Proper u ∧ W.Sized u ∧ W.Short u ∧ (∀ x ∈ W.texts u, withoutMark x ≠ []) ∧
  fromBase64Url t = .ok (W.labelled (byteOrderMark :: JsText.text W.label) u)

theorem fits_of_proper {W : WireForm α} {v : α} (hp : W.Proper v) (hsized : W.Sized v)
    (hshort : W.Short v) : W.Fits v :=
  ⟨fun t ht => ⟨(hp.texts t ht).1, hshort t ht⟩, hp.numbers, hsized⟩

/-- What the code of a form has to be for its values to be read as they are written. -/
structure Lawful : Prop where
  encode_iff : ∀ v e, W.encode v = .ok e ↔
    ((∀ t ∈ W.texts v, t ≠ []) ∧ (∀ n ∈ W.numbers v, InRange n) ∧ W.Sized v) ∧
      e = toBase64Url (W.labelled (JsText.text W.label) v)
  decode_eq : ∀ t, W.decode t = fromBase64Url (W.payload t) >>= readWhole W.fields W.texts W.what
  payload_encoded : ∀ b, W.payload (toBase64Url b) = toBase64Url b
  reads : Reader.Reads W.fields fun w v => ∃ s u, TextFits s ∧ withoutMark s = JsText.text W.label ∧ W.Fits u ∧
    w = W.labelled s u ∧
    v = W.mapTexts withoutMark u
  throws : Reader.Throws IsFormatError W.fields
  texts_mapTexts : ∀ f v, W.texts (W.mapTexts f v) = (W.texts v).map f
  mapTexts_eq_self : ∀ f v, W.mapTexts f v = v ↔ ∀ t ∈ W.texts v, f t = t
  label_fits : TextFits (JsText.text W.label) ∧ TextFits (byteOrderMark :: JsText.text W.label) ∧
    ¬ Marked (JsText.text W.label)
  bytes_inj : ∀ u v, W.Fits u → W.Fits v → W.bytes u = W.bytes v → u = v

end WireForm

/-! ## Base64url -/

def urlUnit (n : Nat) : UInt16 := if n = 62 then 0x2D else if n = 63 then 0x5F else Buffer.unitOf n

theorem urlUnit_spec {n : Nat} (h : n < 64) :
    replaceUnit 0x2F 0x5F (replaceUnit 0x2B 0x2D [Buffer.unitOf n]) = [urlUnit n] ∧
    replaceUnit 0x5F 0x2F (replaceUnit 0x2D 0x2B [urlUnit n]) = [Buffer.unitOf n] ∧
    isBase64Url (urlUnit n) = true ∧ urlUnit n ≠ 0x3D ∧ urlUnit n ≠ 0x23 := by
  have hall : ∀ m : Fin 64, replaceUnit 0x2F 0x5F (replaceUnit 0x2B 0x2D [Buffer.unitOf m]) = [urlUnit m] ∧
      replaceUnit 0x5F 0x2F (replaceUnit 0x2D 0x2B [urlUnit m]) = [Buffer.unitOf m] ∧
      isBase64Url (urlUnit m) = true ∧ urlUnit m ≠ 0x3D ∧ urlUnit m ≠ 0x23 := by decide
  exact hall ⟨n, h⟩

theorem replaceUnit_map {a b c d : UInt16} {f g : Nat → UInt16} {digits : List Nat}
    (h : ∀ n ∈ digits, replaceUnit a b (replaceUnit c d [f n]) = [g n]) :
    replaceUnit a b (replaceUnit c d (digits.map f)) = digits.map g := by
  unfold replaceUnit at h ⊢
  rw [map_map, map_map]
  exact map_congr_left fun n hn => by simpa using h n hn

theorem toBase64Url_eq (bytes : Bytes) : toBase64Url bytes = (Buffer.sixesOf bytes).map urlUnit := by
  have hdigits := fun n hn => urlUnit_spec (Buffer.sixesOf_lt bytes n hn)
  have hequals : ∀ k, replaceUnit 0x2F 0x5F
    (replaceUnit 0x2B 0x2D (List.replicate k 0x3D)) = List.replicate k 0x3D := by
    intro k
    simp [replaceUnit]
  have happend : ∀ a b (x y : JsString), replaceUnit a b (x ++ y) = replaceUnit a b x ++ replaceUnit a b y :=
    fun a b x y => map_append
  have hnot : ∀ u ∈ ((Buffer.sixesOf bytes).map urlUnit).reverse, ¬ decide (u = 0x3D) = true := by
    intro u hu
    obtain ⟨n, hn, rfl⟩ := mem_map.mp (mem_reverse.mp hu)
    simpa using (hdigits n hn).2.2.2.1
  rw [toBase64Url, btoa, Buffer.base64Of, happend, happend, hequals, replaceUnit_map fun n hn => (hdigits n hn).1,
    withoutEquals,
    reverse_append, reverse_replicate, dropWhile_append_of_pos (by simp)]
  have hself : ((Buffer.sixesOf bytes).map urlUnit).reverse.dropWhile
    (fun u => decide (u = 0x3D)) = ((Buffer.sixesOf bytes).map urlUnit).reverse :=
    dropWhile_eq_self_iff.mpr fun hl => hnot _ (getElem_mem hl)
  rw [hself, reverse_reverse]

theorem fromBase64Url_toBase64Url (bytes : Bytes) : fromBase64Url (toBase64Url bytes) = .ok bytes := by
  have hdigits := fun n hn => urlUnit_spec (Buffer.sixesOf_lt bytes n hn)
  have hall : ((Buffer.sixesOf bytes).map urlUnit).all isBase64Url = true := by
    rw [all_eq_true]
    intro u hu
    obtain ⟨n, hn, rfl⟩ := mem_map.mp hu
    exact (hdigits n hn).2.2.1
  unfold fromBase64Url
  rw [toBase64Url_eq, if_neg (not_not.mpr hall), replaceUnit_map fun n hn => (hdigits n hn).2.1]
  dsimp only
  rw [atob_padded]

theorem withoutHash_toBase64Url (bytes : Bytes) : withoutHash (toBase64Url bytes) = toBase64Url bytes := by
  have hdigits := fun n hn => urlUnit_spec (Buffer.sixesOf_lt bytes n hn)
  rw [toBase64Url_eq]
  cases h : Buffer.sixesOf bytes with
  | nil => rfl
  | cons n rest => exact if_neg (hdigits n (h ▸ mem_cons_self)).2.2.2.2

theorem throws_fromBase64Url {encoded : JsString} {e : Thrown}
    (h : fromBase64Url encoded = .error e) : IsFormatError e := by
  unfold fromBase64Url at h
  split at h
  · cases h
    exact ⟨_, rfl⟩
  · dsimp only at h
    split at h
    · cases h
    · cases h
      exact ⟨_, rfl⟩

/-! ## Every wire form -/

namespace WireForm

variable {α : Type} {W : WireForm α} (L : W.Lawful)

include L

/-- A value is read of exactly the bytes that write one it is the unmarked form of, behind a label that
    may be marked. -/
theorem readWhole_iff (bytes : Bytes) (v : α) : readWhole W.fields W.texts W.what bytes = .ok v ↔
    ∃ s u, (TextFits s ∧ withoutMark s = JsText.text W.label) ∧ W.Fits u ∧ bytes = W.labelled s u ∧
      v = W.mapTexts withoutMark u ∧
      ∀ t ∈ W.texts u, withoutMark t ≠ [] := by
  have hempty : ∀ u : α, (W.texts (W.mapTexts withoutMark u)).any List.isEmpty = true ↔
    ¬ ∀ t ∈ W.texts u, withoutMark t ≠ [] := by
    intro u
    rw [L.texts_mapTexts]
    simp
  unfold readWhole atEnd
  constructor
  · intro h
    obtain ⟨⟨value, rest⟩, hread, h⟩ := bind_eq_ok h
    obtain ⟨w, ⟨s, u, hs, hlabel, hu, hw, hvalue⟩, hbytes⟩ := (L.reads _ _ _).mp hread
    dsimp only at h
    obtain ⟨_, hend, h⟩ := bind_eq_ok h
    split at hend
    · cases hend
    next hrest =>
    obtain rfl : rest = [] := eq_nil_of_length_eq_zero (not_not.mp hrest)
    change (if (W.texts value).any List.isEmpty = true then Except.error _ else Except.ok value) = Except.ok v at h
    split at h
    · cases h
    next hfull =>
    cases h
    rw [hvalue, hempty, not_not] at hfull
    exact ⟨s, u, ⟨hs, hlabel⟩, hu, by rw [hbytes, hw, append_nil], hvalue, hfull⟩
  · intro ⟨s, u, ⟨hs, hlabel⟩, hu, hbytes, hv, hfull⟩
    have hread : W.fields bytes = .ok (v, []) :=
      (L.reads _ _ _).mpr ⟨_, ⟨s, u, hs, hlabel, hu, rfl, hv⟩, by rw [hbytes, append_nil]⟩
    have hnone : ¬ (W.texts v).any List.isEmpty = true := by
      rw [hv, hempty, not_not]
      exact hfull
    rw [hread]
    exact if_neg hnone

theorem decode_iff (t : JsString) (v : α) : W.decode t = .ok v ↔
    ∃ bytes, fromBase64Url (W.payload t) = .ok bytes ∧ readWhole W.fields W.texts W.what bytes = .ok v := by
  rw [L.decode_eq]
  constructor
  · exact bind_eq_ok
  · intro ⟨bytes, hb, hv⟩
    rw [hb]
    exact hv

theorem only_format_errors {t : JsString} {e : Thrown} (h : W.decode t = .error e) : IsFormatError e := by
  rw [L.decode_eq] at h
  cases hb : fromBase64Url (W.payload t) with
  | error e' =>
    rw [hb] at h
    cases h
    exact throws_fromBase64Url hb
  | ok bytes =>
    rw [hb] at h
    change (W.fields bytes >>= fun p => _) = _ at h
    cases hr : W.fields bytes with
    | error e' =>
      rw [hr] at h
      cases h
      exact L.throws _ _ hr
    | ok p =>
      rw [hr] at h
      change (atEnd p.2 >>= fun _ => _) = _ at h
      unfold atEnd at h
      split at h
      · cases h
        exact ⟨_, rfl⟩
      · split at h
        · cases h
          exact ⟨_, rfl⟩
        · cases h

theorem label_iff (s : JsString) : (TextFits s ∧ withoutMark s = JsText.text W.label) ↔
    s = JsText.text W.label ∨ s = byteOrderMark :: JsText.text W.label := by
  obtain ⟨hplain, hmarked, hnot⟩ := L.label_fits
  constructor
  · intro ⟨_, h⟩
    by_cases hm : Marked s
    · exact .inr (h ▸ hm.eq_cons)
    · exact .inl (h ▸ (withoutMark_of_not_marked hm).symm)
  · intro h
    rcases h with rfl | rfl
    · exact ⟨hplain, withoutMark_of_not_marked hnot⟩
    · exact ⟨hmarked, withoutMark_mark_cons _⟩

theorem labelled_inj {s s' : JsString} {u v : α} (hs : TextFits s) (hs' : TextFits s') (hu : W.Fits u) (hv : W.Fits v)
    (h : W.labelled s u = W.labelled s' v) : u = v := by
  obtain ⟨-, hbytes⟩ := lp_delimits _ _ hs.short hs'.short _ _ h
  exact L.bytes_inj u v hu hv hbytes

theorem round_trip_iff {v : α} (hp : W.Proper v) :
    (∃ e, W.encode v = .ok e ∧ W.decode e = .ok v) ↔ W.Sized v ∧ W.Short v ∧ W.Unmarked v := by
  obtain ⟨hlabel, -, -⟩ := L.label_fits
  constructor
  · intro ⟨e, hencode, hdecode⟩
    obtain ⟨⟨-, -, hsized⟩, he⟩ := (L.encode_iff v e).mp hencode
    obtain ⟨bytes, hb, hread⟩ := (decode_iff L e v).mp hdecode
    rw [he, L.payload_encoded, fromBase64Url_toBase64Url] at hb
    obtain ⟨s, u, hs, hu, hbytes, hv, -⟩ := (readWhole_iff L bytes v).mp hread
    have hshort : W.Short v := by
      intro t ht
      rw [hv, L.texts_mapTexts] at ht
      obtain ⟨t', ht', rfl⟩ := mem_map.mp ht
      exact lt_of_le_of_lt (length_utf8Of_withoutMark_le t') (hu.texts t' ht').short
    obtain rfl : v = u := labelled_inj L hlabel hs.1 (fits_of_proper hp hsized hshort) hu
      ((Except.ok.inj hb).trans hbytes)
    exact ⟨hsized, hshort, fun t ht => withoutMark_eq_self.mp ((L.mapTexts_eq_self _ v).mp hv.symm t ht)⟩
  · intro ⟨hsized, hshort, hunmarked⟩
    have hself : ∀ t ∈ W.texts v, withoutMark t = t := fun t ht => withoutMark_of_not_marked (hunmarked t ht)
    refine ⟨_, (L.encode_iff v _).mpr ⟨⟨fun t ht => (hp.texts t ht).2, hp.numbers, hsized⟩, rfl⟩, 
      (decode_iff L _ v).mpr ⟨W.labelled (JsText.text W.label) v, ?_, ?_⟩⟩
    · rw [L.payload_encoded, fromBase64Url_toBase64Url]
    · refine (readWhole_iff L _ v).mpr ⟨_, v, (label_iff L _).mpr (.inl rfl),
        fits_of_proper hp hsized hshort, rfl, ?_, ?_⟩
      · exact ((L.mapTexts_eq_self _ v).mpr hself).symm
      · intro t ht
        rw [hself t ht]
        exact (hp.texts t ht).2

theorem eq_of_encode_eq {v w : α} {e : JsString} (hv : W.Proper v) (hw : W.Proper w) (hsv : W.Short v) (hsw : W.Short w)
    (hev : W.encode v = .ok e) (hew : W.encode w = .ok e) : v = w := by
  obtain ⟨hlabel, -, -⟩ := L.label_fits
  obtain ⟨⟨-, -, hzv⟩, he⟩ := (L.encode_iff v e).mp hev
  obtain ⟨⟨-, -, hzw⟩, he'⟩ := (L.encode_iff w e).mp hew
  have hbytes := congrArg fromBase64Url (he.symm.trans he')
  rw [fromBase64Url_toBase64Url, fromBase64Url_toBase64Url] at hbytes
  exact labelled_inj L hlabel hlabel (fits_of_proper hv hzv hsv) (fits_of_proper hw hzw hsw) (Except.ok.inj hbytes)

/-- What no value is written as is refused, unless it is one behind a marked label. -/
theorem refused_iff {t : JsString}
    (hother : ∀ v e, W.Proper v → W.encode v = .ok e → fromBase64Url e ≠ fromBase64Url (W.payload t)) :
    (∃ message, W.decode t = .error (.admissionFormat message)) ↔ ¬ W.BehindMark (W.payload t) := by
  constructor
  · intro ⟨message, herror⟩ ⟨u, hp, hsized, hshort, hread, hbytes⟩
    have hwhole : readWhole W.fields W.texts W.what (W.labelled (byteOrderMark :: JsText.text W.label) u) = .ok
      (W.mapTexts withoutMark u) := by
      rw [readWhole_iff L]
      exact ⟨_, u, (label_iff L _).mpr (.inr rfl), fits_of_proper hp hsized hshort, rfl, rfl, hread⟩
    have hok := (decode_iff L t _).mpr ⟨_, hbytes, hwhole⟩
    rw [herror] at hok
    cases hok
  · intro hnot
    cases hd : W.decode t with
    | error e =>
      obtain ⟨message, rfl⟩ := only_format_errors L hd
      exact ⟨message, rfl⟩
    | ok v =>
      obtain ⟨bytes, hb, hread⟩ := (decode_iff L t v).mp hd
      obtain ⟨s, u, hs, hu, hbytes, -, hfull⟩ := (readWhole_iff L bytes v).mp hread
      have hne : ∀ x ∈ W.texts u, x ≠ [] := fun x hx h => hfull x hx (by rw [h]; rfl)
      have hproper : W.Proper u := ⟨fun x hx => ⟨(hu.texts x hx).wellFormed, hne x hx⟩, hu.numbers⟩
      rcases (label_iff L s).mp hs with rfl | rfl
      · refine absurd ?_ (hother u _ hproper ((L.encode_iff u _).mpr ⟨⟨hne, hu.numbers, hu.sized⟩, rfl⟩))
        rw [fromBase64Url_toBase64Url, hb, hbytes]
      · exact absurd ⟨u, hproper, hu.sized, fun x hx => (hu.texts x hx).short, hfull, hbytes ▸ hb⟩ hnot

end WireForm

/-! ## Vouchers -/

def placeBytes (p : AdmissionPlace) : Bytes := lp (utf8Of p.keyGroupId) ++ be64 (count p.epoch)

def admissionBytes : Bytes :=
  lp (utf8Of v.workspaceId) ++
    (lp (utf8Of v.subjectUserId) ++ (lp (utf8Of v.signer.userId) ++ (lp (utf8Of v.signer.deviceId) ++
    (placeBytes v.place ++ be64 (count v.issuedAt)))))

def AdmissionVoucher.bytes : AdmissionVoucher → Bytes
  | .direct v => be32 KIND_DIRECT ++ (admissionBytes v.toDirectAdmission ++ lp v.signature)
  | .link v => be32 KIND_LINK ++ (admissionBytes v.toDirectAdmission ++ (be64 (count v.expiresAt) ++ (lp v.linkPublicKey ++ (lp v.linkSignature ++
    lp v.redemptionSignature))))

def AdmissionVoucher.numbers : AdmissionVoucher → List JsNumber
  | .direct v => [v.place.epoch, v.issuedAt]
  | .link v => [v.place.epoch, v.issuedAt, v.expiresAt]

def AdmissionVoucher.blobs : AdmissionVoucher → List (Bytes × Nat)
  | .direct v => [(v.signature, GRAINE_SIGNATURE_BYTES)]
  | .link v => [(v.linkPublicKey, GRAINE_PUBLIC_KEY_BYTES), (v.linkSignature, GRAINE_SIGNATURE_BYTES), (v.redemptionSignature, GRAINE_SIGNATURE_BYTES)]

def AdmissionVoucher.mapTexts (f : JsString → JsString) : AdmissionVoucher → AdmissionVoucher
  | .direct v => .direct ⟨v.toDirectAdmission.mapTexts f, v.signature⟩
  | .link v => .link ⟨v.toDirectAdmission.mapTexts f, v.expiresAt, v.linkPublicKey, v.linkSignature, v.redemptionSignature⟩

def voucherForm : WireForm AdmissionVoucher where
  label := VOUCHER_LABEL
  what := "voucher"
  encode := encodeAdmissionVoucher
  decode := decodeAdmissionVoucher
  payload := id
  fields := voucherFields
  texts := AdmissionVoucher.texts
  numbers := AdmissionVoucher.numbers
  blobs := AdmissionVoucher.blobs
  mapTexts := AdmissionVoucher.mapTexts
  bytes := AdmissionVoucher.bytes

def InviteLinkGrant.numbers : List JsNumber := [g.place.epoch, g.issuedAt, g.expiresAt]

def InviteLinkGrant.blobs : List (Bytes × Nat) :=
  [(g.linkPublicKey, GRAINE_PUBLIC_KEY_BYTES), (g.linkSignature, GRAINE_SIGNATURE_BYTES),
    (g.linkSecret, LINK_SECRET_BYTES)]

def InviteLinkGrant.mapTexts (f : JsString → JsString) (g : InviteLinkGrant) : InviteLinkGrant :=
  ⟨g.toLinkAdmission.mapTexts f, g.linkSignature, g.linkSecret⟩

def InviteLinkGrant.bytes : Bytes :=
  lp (utf8Of g.workspaceId) ++ (lp (utf8Of g.signer.userId) ++ (lp (utf8Of g.signer.deviceId) ++ (placeBytes g.place ++
    (be64 (count g.issuedAt) ++
      (be64 (count g.expiresAt) ++ (lp g.linkPublicKey ++ (lp g.linkSignature ++ lp g.linkSecret)))))))

def grantForm : WireForm InviteLinkGrant where
  label := INVITE_GRANT_LABEL
  what := "fragment"
  encode := encodeInviteLinkGrant
  decode := decodeInviteLinkGrant
  payload := withoutHash
  fields := grantFields
  texts := InviteLinkGrant.texts
  numbers := InviteLinkGrant.numbers
  blobs := InviteLinkGrant.blobs
  mapTexts := InviteLinkGrant.mapTexts
  bytes := InviteLinkGrant.bytes

/-! ### Writing them -/

section Writing

variable {name : String} {value : JsString} {x : JsNumber} {b out : Bytes} {n length : Nat}

theorem bind_eq_ok_iff {ε α β : Type} {r : Except ε α} {f : α → Except ε β}
    {b : β} : (r >>= f) = .ok b ↔ ∃ a, r = .ok a ∧ f a = .ok b := by
  refine ⟨bind_eq_ok, fun ⟨a, hr, hf⟩ => ?_⟩
  rw [hr]
  exact hf

theorem text_iff : text name value = .ok out ↔ value ≠ [] ∧ out = utf8Of value := by
  cases value with
  | nil => simp [text]
  | cons u rest => simp [text, eq_comm]

theorem sized_iff : Statements.sized name b length = .ok out ↔ b.length = length ∧ out = b := by
  unfold Statements.sized
  split
  · next h => simp [h]
  · next h => simp [not_not.mp h, eq_comm]

theorem instant_iff : instant x = .ok n ↔ InRange x ∧ n = count x := by
  constructor
  · intro h
    obtain ⟨-, hn, rfl⟩ := nonNegative_ok h
    exact ⟨⟨n, hn, rfl⟩, (count_safe hn).symm⟩
  · intro ⟨⟨m, hm, hx⟩, hn⟩
    rw [hx, count_safe] at hn
    rw [hx, hn]
    unfold instant nonNegative
    dsimp only
    rw [if_pos (Int.natCast_nonneg m), Int.toNat_natCast]

theorem writePlace_iff {p : AdmissionPlace} : writePlace p = .ok out ↔
    (p.keyGroupId ≠ [] ∧ InRange p.epoch) ∧ out = placeBytes p := by
  unfold writePlace placeBytes
  simp only [bind_eq_ok_iff, text_iff, instant_iff, pure, Except.pure, Except.ok.injEq]
  constructor
  · intro ⟨_, ⟨hk, rfl⟩, _, ⟨he, rfl⟩, h⟩
    exact ⟨⟨hk, he⟩, h.symm⟩
  · intro ⟨⟨hk, he⟩, h⟩
    exact ⟨_, ⟨hk, rfl⟩, _, ⟨he, rfl⟩, h.symm⟩

theorem writeAdmission_iff {v : DirectAdmission} : writeAdmission v = .ok out ↔
    (v.workspaceId ≠ [] ∧ v.subjectUserId ≠ [] ∧ v.signer.userId ≠ [] ∧ v.signer.deviceId ≠ [] ∧
      v.place.keyGroupId ≠ [] ∧ InRange v.place.epoch ∧
      InRange v.issuedAt) ∧ out = admissionBytes v := by
  unfold writeAdmission admissionBytes
  simp only [bind_eq_ok_iff, text_iff, instant_iff, writePlace_iff, pure, Except.pure, Except.ok.injEq]
  constructor
  · intro ⟨_, ⟨h1, rfl⟩, _, ⟨h2, rfl⟩, _, ⟨h3, rfl⟩, _, ⟨h4, rfl⟩, _, ⟨⟨h5, h6⟩, rfl⟩, _, ⟨h7, rfl⟩, h⟩
    exact ⟨⟨h1, h2, h3, h4, h5, h6, h7⟩, h.symm⟩
  · intro ⟨⟨h1, h2, h3, h4, h5, h6, h7⟩, h⟩
    exact ⟨_, ⟨h1, rfl⟩, _, ⟨h2, rfl⟩, _, ⟨h3, rfl⟩, _, ⟨h4, rfl⟩, _, ⟨⟨h5, h6⟩, rfl⟩, _, ⟨h7, rfl⟩, h.symm⟩

theorem encodeAdmissionVoucher_iff (v : AdmissionVoucher) (e : JsString) : encodeAdmissionVoucher v = .ok e ↔
    ((∀ t ∈ v.texts, t ≠ []) ∧ (∀ n ∈ v.numbers, InRange n) ∧ ∀ b ∈ v.blobs, b.1.length = b.2) ∧
      e = toBase64Url (lp (utf8Of (JsText.text VOUCHER_LABEL)) ++ v.bytes) := by
  cases v with
  | direct v =>
    simp only [encodeAdmissionVoucher, AdmissionVoucher.texts, AdmissionVoucher.admission, AdmissionVoucher.numbers,
      AdmissionVoucher.blobs,
      AdmissionVoucher.bytes, bind_eq_ok_iff, writeAdmission_iff, sized_iff, pure, Except.pure, Except.ok.injEq,
        forall_mem_cons, not_mem_nil,
      false_imp_iff, implies_true, and_true]
    constructor
    · intro ⟨_, ⟨⟨h1, h2, h3, h4, h5, h6, h7⟩, ha⟩, _, ⟨hs, hb⟩, h⟩
      exact ⟨⟨⟨h1, h2, h3, h4, h5⟩, ⟨h6, h7⟩, hs⟩, by rw [← h, ha, hb]⟩
    · intro ⟨⟨⟨h1, h2, h3, h4, h5⟩, ⟨h6, h7⟩, hs⟩, h⟩
      exact ⟨_, ⟨⟨h1, h2, h3, h4, h5, h6, h7⟩, rfl⟩, _, ⟨hs, rfl⟩, h.symm⟩
  | link v =>
    simp only [encodeAdmissionVoucher, AdmissionVoucher.texts, AdmissionVoucher.admission, AdmissionVoucher.numbers,
      AdmissionVoucher.blobs,
      AdmissionVoucher.bytes, bind_eq_ok_iff, writeAdmission_iff, sized_iff, instant_iff, pure, Except.pure,
        Except.ok.injEq, forall_mem_cons,
      not_mem_nil, false_imp_iff, implies_true, and_true]
    constructor
    · intro ⟨_, ⟨⟨h1, h2, h3, h4, h5, h6, h7⟩, ha⟩, _, ⟨h8, hx⟩, _, ⟨hk, hk'⟩, _, ⟨hl, hl'⟩, _, ⟨hr, hr'⟩, h⟩
      exact ⟨⟨⟨h1, h2, h3, h4, h5⟩, ⟨h6, h7, h8⟩, hk, hl, hr⟩, by rw [← h, ha, hx, hk', hl', hr']⟩
    · intro ⟨⟨⟨h1, h2, h3, h4, h5⟩, ⟨h6, h7, h8⟩, hk, hl, hr⟩, h⟩
      exact ⟨_, ⟨⟨h1, h2, h3, h4, h5, h6, h7⟩, rfl⟩, _, ⟨h8, rfl⟩, _, ⟨hk, rfl⟩, _, ⟨hl, rfl⟩, _, ⟨hr, rfl⟩, h.symm⟩

theorem encodeInviteLinkGrant_iff (e : JsString) : encodeInviteLinkGrant g = .ok e ↔
    ((∀ t ∈ g.texts, t ≠ []) ∧ (∀ n ∈ g.numbers, InRange n) ∧ ∀ b ∈ g.blobs, b.1.length = b.2) ∧
      e = toBase64Url (lp (utf8Of (JsText.text INVITE_GRANT_LABEL)) ++ g.bytes) := by
  simp only [encodeInviteLinkGrant, InviteLinkGrant.texts, InviteLinkGrant.numbers, InviteLinkGrant.blobs,
    InviteLinkGrant.bytes, bind_eq_ok_iff,
    text_iff, writePlace_iff, instant_iff, sized_iff, pure, Except.pure, Except.ok.injEq, forall_mem_cons,
      not_mem_nil, false_imp_iff,
    implies_true, and_true]
  constructor
  · intro ⟨_, ⟨h1, e1⟩, _, ⟨h2, e2⟩, _, ⟨h3, e3⟩, _, ⟨⟨h4, h5⟩, e4⟩, _, ⟨h6, e6⟩, _, ⟨h7, e7⟩, _, ⟨hk, ek⟩, _,
      ⟨hl, el⟩, _, ⟨hs, es⟩, h⟩
    exact ⟨⟨⟨h1, h2, h3, h4⟩, ⟨h5, h6, h7⟩, hk, hl, hs⟩, by rw [← h, e1, e2, e3, e4, e6, e7, ek, el, es]⟩
  · intro ⟨⟨⟨h1, h2, h3, h4⟩, ⟨h5, h6, h7⟩, hk, hl, hs⟩, h⟩
    exact ⟨_, ⟨h1, rfl⟩, _, ⟨h2, rfl⟩, _, ⟨h3, rfl⟩, _, ⟨⟨h4, h5⟩, rfl⟩, _, ⟨h6, rfl⟩, _, ⟨h7, rfl⟩, _, ⟨hk, rfl⟩, _,
      ⟨hl, rfl⟩, _, ⟨hs, rfl⟩,
      h.symm⟩

end Writing

/-! ### Reading them -/

section Reading

theorem reads_place : Reader.Reads place fun w q => ∃ p : AdmissionPlace, (TextFits p.keyGroupId ∧ InRange p.epoch) ∧
    w = placeBytes p ∧
    q = p.mapTexts withoutMark := by
  have hread : Reader.Reads place _ := .bind reads_string fun _ => .bind reads_u64 fun _ => Reader.Reads.pure _
  refine hread.congr fun w q => ?_
  constructor
  · intro ⟨_, _, _, ⟨s, hs, e1, t1⟩, ⟨x, _, _, ⟨hx, e2⟩, ⟨e3, hq⟩, e4⟩, hw⟩
    exact ⟨⟨s, x⟩, ⟨hs, hx⟩, by rw [hw, e1, e4, e2, e3]; rfl, by rw [hq, t1]; rfl⟩
  · intro ⟨⟨s, x⟩, ⟨hs, hx⟩, hw, hq⟩
    exact ⟨_, _, _, ⟨s, hs, rfl, rfl⟩, ⟨x, _, _, ⟨hx, rfl⟩, ⟨rfl, hq⟩, (append_nil _).symm⟩, hw⟩

theorem reads_admissionFields : Reader.Reads admissionFields fun w q => ∃ v : DirectAdmission,
    (TextFits v.workspaceId ∧ TextFits v.subjectUserId ∧ TextFits v.signer.userId ∧ TextFits v.signer.deviceId ∧
      TextFits v.place.keyGroupId ∧
      InRange v.place.epoch ∧ InRange v.issuedAt) ∧ w = admissionBytes v ∧ q = v.mapTexts withoutMark := by
  have hread : Reader.Reads admissionFields _ :=
    .bind reads_string fun _ => .bind reads_string fun _ => .bind reads_string fun _ =>
    .bind reads_string fun _ => .bind reads_place fun _ => .bind reads_u64 fun _ => Reader.Reads.pure _
  refine hread.congr fun w q => ?_
  constructor
  · intro ⟨_, _, _, ⟨w', h1, e1, t1⟩,
      ⟨_, _, _, ⟨s', h2, e2, t2⟩, ⟨_, _, _, ⟨u', h3, e3, t3⟩, ⟨_, _, _, ⟨d', h4, e4, t4⟩,
      ⟨_, _, _, ⟨p, ⟨h5, h6⟩, e5, t5⟩, ⟨x, _, _, ⟨h7, e7⟩, ⟨e8, hq⟩, f6⟩, f5⟩, f4⟩, f3⟩, f2⟩, hw⟩
    refine ⟨⟨w', s', ⟨u', d'⟩, p, x⟩, ⟨h1, h2, h3, h4, h5, h6, h7⟩, ?_, ?_⟩
    · rw [hw, f2, f3, f4, f5, f6, e1, e2, e3, e4, e5, e7, e8]
      rfl
    · rw [hq, t1, t2, t3, t4, t5]
      rfl
  · intro ⟨⟨w', s', ⟨u', d'⟩, p, x⟩, ⟨h1, h2, h3, h4, h5, h6, h7⟩, hw, hq⟩
    exact ⟨_, _, _, ⟨w', h1, rfl, rfl⟩,
      ⟨_, _, _, ⟨s', h2, rfl, rfl⟩, ⟨_, _, _, ⟨u', h3, rfl, rfl⟩, ⟨_, _, _, ⟨d', h4, rfl, rfl⟩,
      ⟨_, _, _, ⟨p, ⟨h5, h6⟩, rfl, rfl⟩, ⟨x, _, _, ⟨h7, rfl⟩, ⟨rfl, hq⟩, (append_nil _).symm⟩, rfl⟩, rfl⟩, rfl⟩, rfl⟩,
        hw⟩

theorem reads_directFields : Reader.Reads (directFields v) fun w q => ∃ signature : Bytes,
    signature.length = GRAINE_SIGNATURE_BYTES ∧ w = lp signature ∧ q = .direct ⟨v, signature⟩ := by
  have hread : Reader.Reads (directFields v) _ := (reads_sized (by decide)).bind fun _ => Reader.Reads.pure _
  refine hread.congr fun w q => ?_
  constructor
  · intro ⟨s, _, _, ⟨hs, e1⟩, ⟨e2, hq⟩, hw⟩
    exact ⟨s, hs, by rw [hw, e1, e2, append_nil], hq⟩
  · intro ⟨s, hs, hw, hq⟩
    exact ⟨s, _, _, ⟨hs, rfl⟩, ⟨rfl, hq⟩, by rw [hw, append_nil]⟩

theorem reads_linkFields : Reader.Reads (linkFields v) fun w q => ∃ (x : JsNumber) (k l r : Bytes),
    (InRange x ∧ k.length = GRAINE_PUBLIC_KEY_BYTES ∧ l.length = GRAINE_SIGNATURE_BYTES ∧
      r.length = GRAINE_SIGNATURE_BYTES) ∧
      w = be64 (count x) ++ (lp k ++ (lp l ++ lp r)) ∧ q = .link ⟨v, x, k, l, r⟩ := by
  have hread : Reader.Reads (linkFields v) _ := .bind reads_u64 fun _ => (reads_sized (by decide)).bind fun _ =>
    (reads_sized (by decide)).bind fun _ =>
    (reads_sized (by decide)).bind fun _ => Reader.Reads.pure _
  refine hread.congr fun w q => ?_
  constructor
  · intro ⟨x, _, _, ⟨hx, e1⟩, ⟨k, _, _, ⟨hk, e2⟩, ⟨l, _, _, ⟨hl, e3⟩, ⟨r, _, _, ⟨hr, e4⟩, ⟨e5, hq⟩, f4⟩, f3⟩, f2⟩, hw⟩
    exact ⟨x, k, l, r, ⟨hx, hk, hl, hr⟩, by rw [hw, f2, f3, f4, e1, e2, e3, e4, e5, append_nil], hq⟩
  · intro ⟨x, k, l, r, ⟨hx, hk, hl, hr⟩, hw, hq⟩
    exact ⟨x, _, _, ⟨hx, rfl⟩,
      ⟨k, _, _, ⟨hk, rfl⟩, ⟨l, _, _, ⟨hl, rfl⟩, ⟨r, _, _, ⟨hr, rfl⟩, ⟨rfl, hq⟩, (append_nil _).symm⟩, rfl⟩, rfl⟩, hw⟩

theorem fits_direct_iff {v : DirectAdmission} {signature : Bytes} : voucherForm.Fits (.direct ⟨v, signature⟩) ↔
    (TextFits v.workspaceId ∧ TextFits v.subjectUserId ∧ TextFits v.signer.userId ∧ TextFits v.signer.deviceId ∧
      TextFits v.place.keyGroupId ∧
      InRange v.place.epoch ∧ InRange v.issuedAt) ∧ signature.length = GRAINE_SIGNATURE_BYTES := by
  rw [WireForm.fits_iff]
  simp only [voucherForm, AdmissionVoucher.texts, AdmissionVoucher.admission, AdmissionVoucher.numbers,
    AdmissionVoucher.blobs, forall_mem_cons,
    not_mem_nil, false_imp_iff, implies_true, and_true, and_assoc]

theorem fits_link_iff {v : DirectAdmission} {x : JsNumber} {k l r : Bytes} : voucherForm.Fits (.link ⟨v, x, k, l, r⟩) ↔
    (TextFits v.workspaceId ∧ TextFits v.subjectUserId ∧ TextFits v.signer.userId ∧ TextFits v.signer.deviceId ∧
      TextFits v.place.keyGroupId ∧
      InRange v.place.epoch ∧ InRange v.issuedAt) ∧ InRange x ∧ k.length = GRAINE_PUBLIC_KEY_BYTES ∧
        l.length = GRAINE_SIGNATURE_BYTES ∧
      r.length = GRAINE_SIGNATURE_BYTES := by
  rw [WireForm.fits_iff]
  simp only [voucherForm, AdmissionVoucher.texts, AdmissionVoucher.admission, AdmissionVoucher.numbers,
    AdmissionVoucher.blobs, forall_mem_cons,
    not_mem_nil, false_imp_iff, implies_true, and_true, and_assoc]

theorem fits_grant_iff {g : InviteLinkGrant} : grantForm.Fits g ↔
    (TextFits g.workspaceId ∧ TextFits g.signer.userId ∧ TextFits g.signer.deviceId ∧ TextFits g.place.keyGroupId ∧
      InRange g.place.epoch) ∧
      (InRange g.issuedAt ∧ InRange g.expiresAt) ∧ g.linkPublicKey.length = GRAINE_PUBLIC_KEY_BYTES ∧
        g.linkSignature.length = GRAINE_SIGNATURE_BYTES ∧
      g.linkSecret.length = LINK_SECRET_BYTES := by
  rw [WireForm.fits_iff]
  simp only [grantForm, InviteLinkGrant.texts, InviteLinkGrant.numbers, InviteLinkGrant.blobs, forall_mem_cons,
    not_mem_nil, false_imp_iff, implies_true, and_true, and_assoc]

/-- The kind says which fields come last. -/
theorem reads_kind (kind : Nat) : Reader.Reads
    (if kind = KIND_DIRECT then directFields v else if kind = KIND_LINK then linkFields v
      else Reader.fail (admissionFormatError s!"voucher: unknown kind {kind}"))
    fun w q => (kind = KIND_DIRECT ∧ ∃ signature : Bytes, signature.length = GRAINE_SIGNATURE_BYTES ∧
      w = lp signature ∧ q = .direct ⟨v, signature⟩) ∨
      (kind = KIND_LINK ∧ ∃ (x : JsNumber) (k l r : Bytes),
        (InRange x ∧ k.length = GRAINE_PUBLIC_KEY_BYTES ∧ l.length = GRAINE_SIGNATURE_BYTES ∧
        r.length = GRAINE_SIGNATURE_BYTES) ∧ w = be64 (count x) ++ (lp k ++ (lp l ++ lp r)) ∧
          q = .link ⟨v, x, k, l, r⟩) := by
  by_cases hd : kind = KIND_DIRECT
  · have hl : ¬ kind = KIND_LINK := by rw [hd]; decide
    rw [if_pos hd]
    refine (reads_directFields v).congr fun w q => ⟨fun h => .inl ⟨hd, h⟩, fun h => ?_⟩
    rcases h with ⟨-, h⟩ | ⟨h, -⟩
    · exact h
    · exact absurd h hl
  · rw [if_neg hd]
    by_cases hl : kind = KIND_LINK
    · rw [if_pos hl]
      refine (reads_linkFields v).congr fun w q => ⟨fun h => .inr ⟨hl, h⟩, fun h => ?_⟩
      rcases h with ⟨h, -⟩ | ⟨-, h⟩
      · exact absurd h hd
      · exact h
    · rw [if_neg hl]
      refine (Reader.Reads.fail _).congr fun w q => ⟨False.elim, fun h => ?_⟩
      rcases h with ⟨h, -⟩ | ⟨h, -⟩
      · exact hd h
      · exact hl h

theorem reads_voucherFields : Reader.Reads voucherFields fun w q => ∃ s u, TextFits s ∧
    withoutMark s = JsText.text VOUCHER_LABEL ∧
    voucherForm.Fits u ∧ w = voucherForm.labelled s u ∧ q = u.mapTexts withoutMark := by
  have hread : Reader.Reads voucherFields _ := (reads_expectLabel _ _).bind fun _ => .bind reads_u32 fun kind =>
    .bind reads_admissionFields fun v =>
    reads_kind v kind
  refine hread.congr fun w q => ?_
  constructor
  · intro ⟨_, _, _, ⟨s, hs, hlabel, e1⟩, ⟨kind, _, _, ⟨_, e2⟩, ⟨_, _, _, ⟨v, hv, e3, t3⟩, hkind, f3⟩, f2⟩, hw⟩
    rw [hw, f2, f3, e1, e2, e3]
    rcases hkind with ⟨rfl, signature, hsig, rfl, hq⟩ | ⟨rfl, x, k, l, r, hsizes, rfl, hq⟩
    · exact ⟨s, .direct ⟨v, signature⟩, hs, hlabel, (fits_direct_iff).mpr ⟨hv, hsig⟩, rfl, by rw [hq, t3]; rfl⟩
    · exact ⟨s, .link ⟨v, x, k, l, r⟩, hs, hlabel, (fits_link_iff).mpr ⟨hv, hsizes⟩, rfl, by rw [hq, t3]; rfl⟩
  · intro ⟨s, u, hs, hlabel, hu, hw, hq⟩
    cases u with
    | direct u =>
      obtain ⟨hv, hsig⟩ := (fits_direct_iff).mp hu
      exact ⟨(), _, _, ⟨s, hs, hlabel, rfl⟩,
        ⟨KIND_DIRECT, _, _, ⟨by decide, rfl⟩,
        ⟨_, _, _, ⟨_, hv, rfl, rfl⟩, .inl ⟨rfl, _, hsig, rfl, hq⟩, rfl⟩, rfl⟩, hw⟩
    | link u =>
      obtain ⟨hv, hsizes⟩ := (fits_link_iff).mp hu
      exact ⟨(), _, _, ⟨s, hs, hlabel, rfl⟩,
        ⟨KIND_LINK, _, _, ⟨by decide, rfl⟩,
        ⟨_, _, _, ⟨_, hv, rfl, rfl⟩, .inr ⟨rfl, _, _, _, _, hsizes, rfl, hq⟩, rfl⟩,
        rfl⟩, hw⟩

theorem reads_grantFields : Reader.Reads grantFields fun w q => ∃ s u, TextFits s ∧
    withoutMark s = JsText.text INVITE_GRANT_LABEL ∧
    grantForm.Fits u ∧ w = grantForm.labelled s u ∧ q = u.mapTexts withoutMark := by
  have hread : Reader.Reads grantFields _ := (reads_expectLabel _ _).bind fun _ => .bind reads_string fun _ =>
    .bind reads_string fun _ =>
    .bind reads_string fun _ => .bind reads_place fun _ => .bind reads_u64 fun _ => .bind reads_u64 fun _ =>
      (reads_sized (by decide)).bind fun _ =>
      (reads_sized (by decide)).bind fun _ => (reads_sized (by decide)).bind fun _ => Reader.Reads.pure _
  refine hread.congr fun w q => ?_
  constructor
  · intro ⟨_, _, _, ⟨s, hs, hlabel, e0⟩,
      ⟨_, _, _, ⟨w', h1, e1, t1⟩, ⟨_, _, _, ⟨u', h2, e2, t2⟩, ⟨_, _, _, ⟨d', h3, e3, t3⟩,
      ⟨_, _, _, ⟨p, ⟨h4, h5⟩, e4, t4⟩,
        ⟨x, _, _, ⟨h6, e6⟩, ⟨y, _, _, ⟨h7, e7⟩, ⟨k, _, _, ⟨hk, ek⟩, ⟨l, _, _, ⟨hl, el⟩, ⟨r, _, _, ⟨hr, er⟩,
      ⟨e8, hq⟩, f9⟩, f8⟩, f7⟩, f6⟩, f5⟩, f4⟩, f3⟩, f2⟩, f1⟩, hw⟩
    refine ⟨s, ⟨⟨w', ⟨u', d'⟩, p, x, y, k⟩, l, r⟩, hs, hlabel,
      (fits_grant_iff).mpr ⟨⟨h1, h2, h3, h4, h5⟩, ⟨h6, h7⟩, hk, hl, hr⟩, ?_, ?_⟩
    · rw [hw, f1, f2, f3, f4, f5, f6, f7, f8, f9, e0, e1, e2, e3, e4, e6, e7, ek, el, er, e8, append_nil]
      rfl
    · rw [hq, t1, t2, t3, t4]
      rfl
  · intro ⟨s, ⟨⟨w', ⟨u', d'⟩, p, x, y, k⟩, l, r⟩, hs, hlabel, hu, hw, hq⟩
    obtain ⟨⟨h1, h2, h3, h4, h5⟩, ⟨h6, h7⟩, hk, hl, hr⟩ := (fits_grant_iff).mp hu
    exact ⟨(), _, _, ⟨s, hs, hlabel, rfl⟩,
      ⟨_, _, _, ⟨w', h1, rfl, rfl⟩, ⟨_, _, _, ⟨u', h2, rfl, rfl⟩, ⟨_, _, _, ⟨d', h3, rfl, rfl⟩,
      ⟨_, _, _, ⟨p, ⟨h4, h5⟩, rfl, rfl⟩,
        ⟨x, _, _, ⟨h6, rfl⟩, ⟨y, _, _, ⟨h7, rfl⟩, ⟨k, _, _, ⟨hk, rfl⟩, ⟨l, _, _, ⟨hl, rfl⟩, ⟨r, _, _, ⟨hr, rfl⟩,
      ⟨rfl, hq⟩, (append_nil _).symm⟩, rfl⟩, rfl⟩, rfl⟩, rfl⟩, rfl⟩, rfl⟩, rfl⟩, rfl⟩, hw⟩

end Reading

/-! ### No two are written alike -/

section Delimits

theorem text_delimits : Delimits TextFits fun t => lp (utf8Of t) := by
  intro a b ha hb r r' h
  obtain ⟨hbytes, hrest⟩ := lp_delimits _ _ ha.short hb.short r r' h
  exact ⟨eq_of_utf8Of_eq ha.wellFormed hb.wellFormed hbytes, hrest⟩

theorem number_delimits : Delimits InRange fun x => be64 (count x) := by
  intro x y hx hy r r' h
  have hlt := count_lt hx
  have hlt' := count_lt hy
  obtain ⟨hcount, hrest⟩ := be64_delimits _ _ (by omega : count x < 2 ^ 64) (by omega : count y < 2 ^ 64) r r' h
  exact ⟨count_inj hx hy hcount, hrest⟩

theorem blob_delimits {length : Nat}
    (hlength : length < 2 ^ 32) : Delimits (fun b : Bytes => b.length = length) lp := by
  intro a b ha hb r r' h
  exact lp_delimits a b (by show a.length < _; omega) (by show b.length < _; omega) r r' h

theorem place_delimits : Delimits (fun p : AdmissionPlace => TextFits p.keyGroupId ∧ InRange p.epoch) placeBytes := by
  intro ⟨k, x⟩ ⟨k', x'⟩ ⟨hk, hx⟩ ⟨hk', hx'⟩ r r' h
  simp only [placeBytes, append_assoc] at h
  obtain ⟨e₁, hx₁⟩ := text_delimits k k' hk hk' _ _ h
  obtain ⟨e₂, hrest⟩ := number_delimits x x' hx hx' _ _ hx₁
  exact ⟨by rw [e₁, e₂], hrest⟩

theorem admission_delimits :
    Delimits (fun v : DirectAdmission => TextFits v.workspaceId ∧ TextFits v.subjectUserId ∧
    TextFits v.signer.userId ∧
    TextFits v.signer.deviceId ∧ TextFits v.place.keyGroupId ∧ InRange v.place.epoch ∧
      InRange v.issuedAt) admissionBytes := by
  intro ⟨w, s, ⟨u, d⟩, p, x⟩ ⟨w', s', ⟨u', d'⟩, p', x'⟩ ⟨h1, h2, h3, h4, h5, h6, h7⟩ ⟨h1', h2', h3', h4', h5',
    h6', h7'⟩ r r' h
  simp only [admissionBytes, append_assoc] at h
  obtain ⟨e₁, hs⟩ := text_delimits w w' h1 h1' _ _ h
  obtain ⟨e₂, hu⟩ := text_delimits s s' h2 h2' _ _ hs
  obtain ⟨e₃, hd⟩ := text_delimits u u' h3 h3' _ _ hu
  obtain ⟨e₄, hp⟩ := text_delimits d d' h4 h4' _ _ hd
  obtain ⟨e₅, hx⟩ := place_delimits p p' ⟨h5, h6⟩ ⟨h5', h6'⟩ _ _ hp
  obtain ⟨e₆, hrest⟩ := number_delimits x x' h7 h7' _ _ hx
  exact ⟨by rw [e₁, e₂, e₃, e₄, e₅, e₆], hrest⟩

theorem kind_ne {r r' : Bytes} : be32 KIND_DIRECT ++ r ≠ be32 KIND_LINK ++ r' := by
  intro h
  obtain ⟨hkind, -⟩ := be32_delimits _ _ (by decide : KIND_DIRECT < 2 ^ 32) (by decide : KIND_LINK < 2 ^ 32) _ _ h
  exact absurd hkind (by decide)

theorem voucher_bytes_inj (u v : AdmissionVoucher) (hu : voucherForm.Fits u) (hv : voucherForm.Fits v)
    (h : u.bytes = v.bytes) : u = v := by
  cases u with
  | direct u =>
    cases v with
    | link v => exact absurd h kind_ne
    | direct v =>
      obtain ⟨u, s⟩ := u
      obtain ⟨v, s'⟩ := v
      obtain ⟨hu, hs⟩ := (fits_direct_iff).mp hu
      obtain ⟨hv, hs'⟩ := (fits_direct_iff).mp hv
      obtain ⟨rfl, h⟩ := admission_delimits _ _ hu hv _ _ (append_cancel_left h)
      rw [← append_nil (lp s), ← append_nil (lp s')] at h
      obtain ⟨rfl, -⟩ := blob_delimits (by decide) _ _ hs hs' _ _ h
      rfl
  | link u =>
    cases v with
    | direct v => exact absurd h.symm kind_ne
    | link v =>
      obtain ⟨u, x, k, l, r⟩ := u
      obtain ⟨v, x', k', l', r'⟩ := v
      obtain ⟨hu, hx, hk, hl, hr⟩ := (fits_link_iff).mp hu
      obtain ⟨hv, hx', hk', hl', hr'⟩ := (fits_link_iff).mp hv
      obtain ⟨rfl, h⟩ := admission_delimits _ _ hu hv _ _ (append_cancel_left h)
      obtain ⟨rfl, h⟩ := number_delimits _ _ hx hx' _ _ h
      obtain ⟨rfl, h⟩ := blob_delimits (by decide) _ _ hk hk' _ _ h
      obtain ⟨rfl, h⟩ := blob_delimits (by decide) _ _ hl hl' _ _ h
      rw [← append_nil (lp r), ← append_nil (lp r')] at h
      obtain ⟨rfl, -⟩ := blob_delimits (by decide) _ _ hr hr' _ _ h
      rfl

theorem grant_bytes_inj (g g' : InviteLinkGrant) (hg : grantForm.Fits g) (hg' : grantForm.Fits g')
    (h : g.bytes = g'.bytes) : g = g' := by
  obtain ⟨⟨w, ⟨u, d⟩, p, x, y, k⟩, l, s⟩ := g
  obtain ⟨⟨w', ⟨u', d'⟩, p', x', y', k'⟩, l', s'⟩ := g'
  obtain ⟨⟨h1, h2, h3, h4, h5⟩, ⟨hx, hy⟩, hk, hl, hs⟩ := (fits_grant_iff).mp hg
  obtain ⟨⟨h1', h2', h3', h4', h5'⟩, ⟨hx', hy'⟩, hk', hl', hs'⟩ := (fits_grant_iff).mp hg'
  obtain ⟨rfl, h⟩ := text_delimits _ _ h1 h1' _ _ h
  obtain ⟨rfl, h⟩ := text_delimits _ _ h2 h2' _ _ h
  obtain ⟨rfl, h⟩ := text_delimits _ _ h3 h3' _ _ h
  obtain ⟨rfl, h⟩ := place_delimits _ _ ⟨h4, h5⟩ ⟨h4', h5'⟩ _ _ h
  obtain ⟨rfl, h⟩ := number_delimits _ _ hx hx' _ _ h
  obtain ⟨rfl, h⟩ := number_delimits _ _ hy hy' _ _ h
  obtain ⟨rfl, h⟩ := blob_delimits (by decide) _ _ hk hk' _ _ h
  obtain ⟨rfl, h⟩ := blob_delimits (by decide) _ _ hl hl' _ _ h
  rw [← append_nil (lp s), ← append_nil (lp s')] at h
  obtain ⟨rfl, -⟩ := blob_delimits (by decide) _ _ hs hs' _ _ h
  rfl

end Delimits

/-! ## Both forms -/

/-- The values `v` and `w` of a form come back and are written apart, and a text `t` that writes none is
    not read, as far as marks allow. -/
structure ExactButMarks {α : Type} (W : WireForm α) (v w : α) (t : JsString) : Prop where
  round_trip : W.Proper v → ((∃ e, W.encode v = .ok e ∧ W.decode e = .ok v) ↔ W.Sized v ∧ W.Short v ∧ W.Unmarked v)
  distinct : ∀ e, W.Proper v → W.Proper w → W.Short v → W.Short w → W.encode v = .ok e → W.encode w = .ok e → v = w
  refused : (∀ v e, W.Proper v → W.encode v = .ok e → fromBase64Url e ≠ fromBase64Url (W.payload t)) →
    ((∃ message, W.decode t = .error (.admissionFormat message)) ↔ ¬ W.BehindMark (W.payload t))
  nothing_else : ∀ e, W.decode t = .error e → ∃ message, e = .admissionFormat message

theorem WireForm.Lawful.exactButMarks {α : Type} {W : WireForm α} (L : W.Lawful) (v w : α)
    (t : JsString) : ExactButMarks W v w t where
  round_trip := WireForm.round_trip_iff L
  distinct _ := WireForm.eq_of_encode_eq L
  refused := WireForm.refused_iff L
  nothing_else _ := WireForm.only_format_errors L

theorem lawful_voucherForm : voucherForm.Lawful where
  encode_iff := encodeAdmissionVoucher_iff
  decode_eq _ := rfl
  payload_encoded _ := rfl
  reads := reads_voucherFields
  throws := throws_voucherFields
  texts_mapTexts f v := by cases v <;> rfl
  mapTexts_eq_self f v := by
    cases v with
    | direct v =>
      obtain ⟨⟨w, s, ⟨u, d⟩, ⟨k, x⟩, y⟩, b⟩ := v
      simp [voucherForm, AdmissionVoucher.texts, AdmissionVoucher.admission, AdmissionVoucher.mapTexts,
        DirectAdmission.mapTexts,
        AdmissionSigner.mapTexts, AdmissionPlace.mapTexts, and_assoc]
    | link v =>
      obtain ⟨⟨w, s, ⟨u, d⟩, ⟨k, x⟩, y⟩, z, b, b', b''⟩ := v
      simp [voucherForm, AdmissionVoucher.texts, AdmissionVoucher.admission, AdmissionVoucher.mapTexts,
        DirectAdmission.mapTexts,
        AdmissionSigner.mapTexts, AdmissionPlace.mapTexts, and_assoc]
  label_fits := ⟨⟨by decide, by decide⟩, ⟨by decide, by decide⟩, by decide⟩
  bytes_inj := voucher_bytes_inj

theorem lawful_grantForm : grantForm.Lawful where
  encode_iff := encodeInviteLinkGrant_iff
  decode_eq _ := rfl
  payload_encoded := withoutHash_toBase64Url
  reads := reads_grantFields
  throws := throws_grantFields
  texts_mapTexts _ _ := rfl
  mapTexts_eq_self f g := by
    obtain ⟨⟨w, ⟨u, d⟩, ⟨k, e⟩, x, y, b⟩, b', b''⟩ := g
    simp [grantForm, InviteLinkGrant.texts, InviteLinkGrant.mapTexts, LinkAdmission.mapTexts,
      AdmissionSigner.mapTexts, AdmissionPlace.mapTexts,
      and_assoc]
  label_fits := ⟨⟨by decide, by decide⟩, ⟨by decide, by decide⟩, by decide⟩
  bytes_inj := grant_bytes_inj

/-- A voucher or a grant comes back exactly when no identity of it opens with U+FEFF (and its fields
    have their sizes), two of them are written apart, and bytes that write none are refused with a
    format error exactly when they are none behind a marked label. -/
theorem exact_iff_unmarked (v w : AdmissionVoucher) (g g' : InviteLinkGrant) (t : JsString) :
    ExactButMarks voucherForm v w t ∧ ExactButMarks grantForm g g' t :=
  ⟨lawful_voucherForm.exactButMarks v w t, lawful_grantForm.exactButMarks g g' t⟩

/-! ## A marked identity -/

theorem epoch_safe : (3 : Int).natAbs < 2 ^ 53 := by decide

def markedVoucher (workspaceId : JsString) : AdmissionVoucher :=
  .direct ⟨⟨workspaceId, JsText.text "u", ⟨JsText.text "s", JsText.text "d"⟩, ⟨JsText.text "g", .safe 3 epoch_safe⟩,
    .safe 5 (by decide)⟩,
    List.replicate 64 7⟩

/-- It is read back as one for the community `w`, one for the community U+FEFF is not read back at all,
    and a label behind a mark is accepted. -/
theorem a_marked_identity_is_lost :
    (∃ e, encodeAdmissionVoucher (markedVoucher [0xFEFF, 0x77]) = .ok e ∧
      decodeAdmissionVoucher e = .ok (markedVoucher [0x77]) ∧
        decodeAdmissionVoucher e ≠ .ok (markedVoucher [0xFEFF, 0x77])) ∧
    (∃ e, encodeAdmissionVoucher (markedVoucher [0xFEFF]) = .ok e ∧
      decodeAdmissionVoucher e = .error (.admissionFormat "admission voucher: an empty identity")) ∧
    decodeAdmissionVoucher (toBase64Url
      (voucherForm.labelled (byteOrderMark :: JsText.text VOUCHER_LABEL) (markedVoucher [0x77]))) =
      .ok (markedVoucher [0x77]) := by
  refine ⟨⟨_, rfl, by decide +kernel, by decide +kernel⟩, ⟨_, rfl, by decide +kernel⟩, by decide +kernel⟩

end Canari.Graine.VoucherWire
