/-
  Canari.Mls.StateBlob — the framing around a sealed MLS state: the Rust parser and loader
  (`frontend/mls-core/src/state_blob.rs`, `load_with_key` of `crypto.rs`) and the web's seal and opener
  (`frontend/src/lib/mls-client/mlsStateSeal.ts`).

  Both decide the shape from the bytes alone: the magic, the version, the length of the body, and the
  fingerprint before any cipher runs. The web's opener keeps one prepared key; its header is the
  fingerprint's whatever was prepared before (`Reached.header_eq`), so the two readers answer alike on
  every blob (`readersAgree`).

  A blob cut short is not always called short. Below 44 bytes it is never altered; from there on a header
  and a whole tag's worth of body are left, the key is the one it names, and a tag that fails is
  alteration (`cutRead_take`).
-/

import Canari.Lib.WebText

namespace Canari.Mls.StateBlob

open Lib Lib.Utf16 Lib.WebText List

/-! ## The format -/

def ascii (s : String) : Bytes := s.toUTF8.data.toList

def MAGIC : Bytes := ascii "CANARIS"
def VERSION_1 : UInt8 := 1
def VERSION_2 : UInt8 := 2
def V2_KDF_SALT : Bytes := ascii "canari/mls-state-blob/v2/salt"
def V2_KDF_INFO : Bytes := ascii "canari/mls-state-blob/v2/aes-256-gcm"
def V2_IV_LEN : Nat := 12
def V2_TAG_LEN : Nat := 16
def HEADER_LEN : Nat := 16
def FINGERPRINT_LEN : Nat := 8
def FINGERPRINT_DOMAIN : Bytes := ascii "canari/mls-state-blob/key-fingerprint/v1"

structure Crypto where
  sha256 : Bytes → Bytes
  hkdfExtract : (salt ikm : Bytes) → Except String Bytes
  hkdfExpand : (prk info : Bytes) → Except String Bytes
  aesGcmEncrypt : (key iv aad plain : Bytes) → Bytes
  aesGcmDecrypt : (key iv aad sealed : Bytes) → Except String Bytes
  chachaEncrypt : (key nonce plain : Bytes) → Bytes
  chachaDecrypt : (key nonce sealed : Bytes) → Except String Bytes
  /-- The tag is appended. -/
  length_aesGcmEncrypt : ∀ key iv aad plain, (aesGcmEncrypt key iv aad plain).length = plain.length + 16
  length_chachaEncrypt : ∀ key nonce plain, (chachaEncrypt key nonce plain).length = plain.length + 16
  /-- What has no room for a tag is refused. -/
  chachaDecrypt_short : ∀ key nonce sealed, sealed.length < 16 → ∃ e, chachaDecrypt key nonce sealed = .error e

structure DeviceKey where
  bytes : Bytes
  length_eq : bytes.length = 32

variable (C : Crypto)

variable (digest : Bytes)

def fingerprintOf : Bytes := digest.take FINGERPRINT_LEN ++ List.replicate (FINGERPRINT_LEN - digest.length) 0

def deviceKeyDigest (key : Bytes) : Bytes := C.sha256 (FINGERPRINT_DOMAIN ++ key)

def keyFingerprint (key : DeviceKey) : Bytes := fingerprintOf (deviceKeyDigest C key.bytes)

/-! ## In Rust -/

inductive Framed where
  | legacy (sealed : Bytes)
  | v1 (keyFingerprint sealed : Bytes)
  | v2 (keyFingerprint header sealed : Bytes)
  deriving DecidableEq

inductive Undecryptable where
  | unknownVersion (version : UInt8)
  | shortBody (version : UInt8) (n floor : Nat)
  | shortNonce (n : Nat)
  | shortV2 (n : Nat)
  | derivation (stage error : String)
  | cipher (error : String)
  deriving DecidableEq

def Undecryptable.text : Undecryptable → String
  | .unknownVersion version => s!"state blob announces framing version {version}, which this build does not know - it was written by a newer client, so this is a downgrade and not corruption"
  | .shortBody version n floor => s!"framed state blob (version {version}) carries {n} byte(s) after its header, too short to hold its {floor}-byte minimum"
  | .shortNonce n => s!"state blob is {n} bytes, too short to carry a nonce"
  | .shortV2 n => s!"v2 body is {n} bytes, shorter than an IV and a tag"
  | .derivation stage error => s!"v2 key derivation ({stage}): {error}"
  | .cipher error => error

def anotherKey : String :=
  "the state's header names a different device key, so the PIN was rotated on another device and the OLD one opens this state"

inductive MlsError where
  | stateUndecryptable (reason : Undecryptable)
  | stateSealedUnderAnotherKey (message : String)
  | stateAltered (message : String)
  deriving DecidableEq

def floorOf (version : UInt8) : Option Nat :=
  if version = VERSION_1 then some (12 + 16) else if version = VERSION_2 then some (V2_IV_LEN + V2_TAG_LEN) else none

def parse (blob : Bytes) : Except MlsError Framed :=
  if HEADER_LEN ≤ blob.length ∧ blob.take MAGIC.length = MAGIC then
    let version := blob.getD MAGIC.length 0
    match floorOf version with
    | none => .error (.stateUndecryptable (.unknownVersion version))
    | some floor =>
      let body := blob.drop HEADER_LEN
      if body.length < floor then .error (.stateUndecryptable (.shortBody version body.length floor))
      else
        let fp := (blob.take HEADER_LEN).drop (MAGIC.length + 1)
        if version = VERSION_1 then .ok (.v1 fp body) else .ok (.v2 fp (blob.take HEADER_LEN) body)
  else if blob.length < 12 then .error (.stateUndecryptable (.shortNonce blob.length))
  else .ok (.legacy blob)

def frameV1 (key : DeviceKey) (sealed : Bytes) : Bytes := MAGIC ++ [VERSION_1] ++ keyFingerprint C key ++ sealed

def v2AeadKey (key : DeviceKey) : Except MlsError Bytes :=
  match C.hkdfExtract V2_KDF_SALT key.bytes with
  | .error e => .error (.stateUndecryptable (.derivation "extract" e))
  | .ok prk => match C.hkdfExpand prk V2_KDF_INFO with
    | .error e => .error (.stateUndecryptable (.derivation "expand" e))
    | .ok okm => .ok okm

def openV2 (key : DeviceKey) (header sealed : Bytes) : Except MlsError Bytes :=
  if sealed.length < V2_IV_LEN + V2_TAG_LEN then
    .error (.stateUndecryptable (.shortV2 sealed.length))
  else do
    let aesKey ← v2AeadKey C key
    match C.aesGcmDecrypt aesKey (sealed.take V2_IV_LEN) header (sealed.drop V2_IV_LEN) with
    | .ok plain => .ok plain
    | .error e => .error (.stateAltered s!"v2 AES-GCM tag did not verify under the right key - the blob was altered: {e}")

def decryptBlob (key : DeviceKey) (sealed : Bytes) : Except String Bytes :=
  if sealed.length < 12 then .error "Invalid encrypted data" else
    C.chachaDecrypt key.bytes (sealed.take 12) (sealed.drop 12)

def encryptBlob (key : DeviceKey) (nonce plain : Bytes) : Bytes := nonce ++ C.chachaEncrypt key.bytes nonce plain

def requireThisKey (key : DeviceKey) (fp : Bytes) : Except MlsError Unit :=
  if fp ≠ keyFingerprint C key then .error (.stateSealedUnderAnotherKey anotherKey) else .ok ()

/-- The state `load_with_key` decrypts, before it is loaded. -/
def loadWithKey (key : DeviceKey) (blob : Bytes) : Except MlsError Bytes := do
  match ← parse blob with
  | .legacy body =>
    match decryptBlob C key body with
    | .ok plain => .ok plain
    | .error s => .error (.stateUndecryptable (.cipher s))
  | .v1 fp sealed =>
    requireThisKey C key fp
    match decryptBlob C key sealed with
    | .ok plain => .ok plain
    | .error s => .error (.stateAltered s!"v1 tag did not verify under the key its header names - the blob was altered: {s}")
  | .v2 fp header sealed =>
    requireThisKey C key fp
    openV2 C key header sealed

/-! ## On the web -/

/-- How WebCrypto answers the calls of one seal or open: the name of a rejection, where there is one. -/
structure Engine where
  digest : Option String
  derive : Option String
  decrypt : Option String

structure PreparedKey where
  header : Bytes
  aesKey : Bytes

abbrev Prepared := Option (Bytes × PreparedKey)

inductive VerdictCode where
  | stateAltered | stateKeyMismatch | stateUndecryptable | identityMismatch

/-- What the opener decides of the bytes, with the code it answers and the text of it. -/
inductive Verdict where
  | notV2
  | shortBody (n : Nat)
  | anotherKey

def Verdict.code : Verdict → VerdictCode
  | .notV2 => .stateUndecryptable
  | .shortBody _ => .stateUndecryptable
  | .anotherKey => .stateKeyMismatch

def Verdict.detail : Verdict → String
  | .notV2 => "not a framed v2 state blob"
  | .shortBody n => s!"framed state blob (version 2) carries {n} byte(s) after its header, too short to hold its 28-byte minimum"
  | .anotherKey => "the state's header names a different device key, so the PIN was rotated on another device and the OLD one opens this state"

inductive OpenError where
  | verdict (verdict : Verdict)
  | unreadableNow (blobBytes : Nat) (errorName : String) (keyPrepared : Bool)

def decodeDeviceKey (deviceKeyB64 : JsString) : Except String Bytes :=
  match atob deviceKeyB64 with
  | none => .error "InvalidCharacterError"
  | some bytes => if bytes.length ≠ 32 then .error "Error" else .ok bytes

def headerFor : Bytes := MAGIC ++ [VERSION_2] ++ fingerprintOf digest

def prepareKey (engine : Engine) (raw digest : Bytes) : Except String PreparedKey :=
  match engine.derive with
  | some name => .error name
  | none => match C.hkdfExtract V2_KDF_SALT raw with
    | .error name => .error name
    | .ok prk => match C.hkdfExpand prk V2_KDF_INFO with
      | .error name => .error name
      | .ok aesKey => .ok ⟨headerFor digest, aesKey⟩

/-- The prepared key, or the name of the rejection, with what is kept after the call. -/
def preparedKeyFor (engine : Engine) (prepared : Prepared)
    (deviceKeyB64 : JsString) : Except String PreparedKey × Prepared :=
  match decodeDeviceKey deviceKeyB64 with
  | .error name => (.error name, prepared)
  | .ok raw => match engine.digest with
    | some name => (.error name, prepared)
    | none =>
      let digest := deviceKeyDigest C raw
      match prepared.filter (·.1 = digest) with
      | some (_, key) => (.ok key, prepared)
      | none => match prepareKey C engine raw digest with
        | .ok key => (.ok key, some (digest, key))
        | .error name => (.error name, none)

/-- `iv` is what `getRandomValues` draws. -/
def sealMlsStateBlobV2 (engine : Engine) (prepared : Prepared) (plain : Bytes) (deviceKeyB64 : JsString)
    (iv : Bytes) : Except String Bytes × Prepared :=
  match preparedKeyFor C engine prepared deviceKeyB64 with
  | (.error name, prepared) => (.error name, prepared)
  | (.ok key, prepared) => (.ok (key.header ++ iv ++ C.aesGcmEncrypt key.aesKey iv key.header plain), prepared)

/-- A loop over the indices from `lo` to `hi` that stops where the bytes differ. -/
def differ (lo hi : Nat) (a b : Bytes) : Bool :=
    (List.range hi).any fun i => decide (lo ≤ i) && a.getD i 0 != b.getD i 0

def isMlsStateBlobV2 (blob : Bytes) : Bool :=
  if blob.length < HEADER_LEN then false
  else if differ 0 MAGIC.length blob MAGIC then false
  else blob.getD MAGIC.length 0 == VERSION_2

def openMlsStateBlobV2 (engine : Engine) (prepared : Prepared) (blob : Bytes)
    (deviceKeyB64 : JsString) : Except OpenError Bytes × Prepared :=
  if isMlsStateBlobV2 blob = false then (.error (.verdict .notV2), prepared)
  else
    let body := blob.drop HEADER_LEN
    if body.length < V2_IV_LEN + 16 then (.error (.verdict (.shortBody body.length)), prepared)
    else match preparedKeyFor C engine prepared deviceKeyB64 with
      | (.error name, prepared) => (.error (.unreadableNow blob.length name false), prepared)
      | (.ok key, prepared) =>
        if differ (MAGIC.length + 1) HEADER_LEN blob key.header then (.error (.verdict .anotherKey), prepared)
        else match engine.decrypt with
          | some name => (.error (.unreadableNow blob.length name true), prepared)
          | none => match C.aesGcmDecrypt key.aesKey (body.take V2_IV_LEN) (blob.take HEADER_LEN) (body.drop V2_IV_LEN) with
            | .ok plain => (.ok plain, prepared)
            | .error _ => (.error (.unreadableNow blob.length "OperationError" true), prepared)

/-- The prepared keys a session can hold: none at first, then what each call leaves. -/
inductive Reached : Prepared → Prop
  | cold : Reached none
  | sealing (engine : Engine) (prepared : Prepared) (plain : Bytes) (key : JsString) (iv : Bytes) :
    Reached prepared → Reached (sealMlsStateBlobV2 C engine prepared plain key iv).2
  | opening (engine : Engine) (prepared : Prepared) (blob : Bytes) (key : JsString) :
    Reached prepared → Reached (openMlsStateBlobV2 C engine prepared blob key).2

def DeviceKey.b64 (key : DeviceKey) : JsString := btoa key.bytes

/-! ## The shape -/

section Shape

variable {blob a b : Bytes} {lo hi : Nat}

theorem length_MAGIC : MAGIC.length = 7 := by decide

theorem differ_eq_false (ha : hi ≤ a.length)
    (hb : hi ≤ b.length) : differ lo hi a b = false ↔ (a.take hi).drop lo = (b.take hi).drop lo := by
  have hentry : ∀ {i}, i < hi → (a.getD i 0 = b.getD i 0 ↔ a[i]? = b[i]?) := by
    intro i hi
    rw [getD_eq_getElem?_getD, getD_eq_getElem?_getD, getElem?_eq_getElem (by omega), getElem?_eq_getElem (by omega)]
    simp
  constructor
  · intro h
    refine ext_getElem? fun k => ?_
    rw [getElem?_drop, getElem?_drop, getElem?_take, getElem?_take]
    by_cases hk : lo + k < hi
    · rw [if_pos hk, if_pos hk]
      have hall := any_eq_false.mp h (lo + k) (mem_range.mpr hk)
      exact (hentry hk).mp (by simpa using hall)
    · rw [if_neg hk, if_neg hk]
  · intro h
    refine any_eq_false.mpr fun i hi' => ?_
    have hlt := mem_range.mp hi'
    by_cases hlo : lo ≤ i
    · have hat := congrArg (·[i - lo]?) h
      simp only [getElem?_drop, Nat.add_sub_cancel' hlo, getElem?_take, if_pos hlt] at hat
      simpa [hlo] using (hentry hlt).mpr hat
    · simp [hlo]

theorem isMlsStateBlobV2_iff : isMlsStateBlobV2 blob = true ↔
    (HEADER_LEN ≤ blob.length ∧ blob.take MAGIC.length = MAGIC) ∧ blob.getD MAGIC.length 0 = VERSION_2 := by
  unfold isMlsStateBlobV2
  by_cases hlen : blob.length < HEADER_LEN
  · rw [if_pos hlen]
    simp only [Bool.false_eq_true, false_iff]
    intro h
    exact absurd hlen (not_lt.mpr h.1.1)
  · have hroom : MAGIC.length ≤ blob.length := by
      rw [length_MAGIC]
      unfold HEADER_LEN at hlen
      omega
    have hmagic : differ 0 MAGIC.length blob MAGIC = false ↔ blob.take MAGIC.length = MAGIC.take MAGIC.length :=
      differ_eq_false hroom (Nat.le_refl MAGIC.length)
    cases hd : differ 0 MAGIC.length blob MAGIC with
    | true =>
      have hne : ¬ blob.take MAGIC.length = MAGIC := fun h => by
        rw [hmagic.mpr h] at hd
        cases hd
      simp [hne]
    | false => simp [hmagic.mp hd, not_lt.mp hlen]

/-- The parse of a blob that announces version 2. -/
theorem parse_of_isMlsStateBlobV2 (h : isMlsStateBlobV2 blob = true) : parse blob =
    if (blob.drop HEADER_LEN).length < V2_IV_LEN + V2_TAG_LEN then
      .error (.stateUndecryptable (.shortBody VERSION_2 (blob.drop HEADER_LEN).length 28))
    else .ok (.v2 ((blob.take HEADER_LEN).drop (MAGIC.length + 1)) (blob.take HEADER_LEN) (blob.drop HEADER_LEN)) := by
  obtain ⟨hframed, hversion⟩ := (isMlsStateBlobV2_iff).mp h
  have hfloor : floorOf VERSION_2 = some (V2_IV_LEN + V2_TAG_LEN) := by decide
  have hne : ¬ VERSION_2 = VERSION_1 := by decide
  unfold parse
  rw [if_pos hframed, hversion]
  dsimp only
  rw [hfloor]
  rfl

/-- The parser says that the blob is of version 2: it is whole, or too short for one. -/
def AnnouncesV2 (parsed : Except MlsError Framed) : Prop :=
  (∃ fp header sealed, parsed = .ok (.v2 fp header sealed)) ∨ ∃ n,
    parsed = .error (.stateUndecryptable (.shortBody VERSION_2 n 28))

theorem not_announcesV2_of_not (h : isMlsStateBlobV2 blob = false) : ¬ AnnouncesV2 (parse blob) := by
  have hnot : ¬ ((HEADER_LEN ≤ blob.length ∧ blob.take MAGIC.length = MAGIC) ∧
    blob.getD MAGIC.length 0 = VERSION_2) := by
    rw [← isMlsStateBlobV2_iff, h]
    decide
  unfold parse AnnouncesV2
  by_cases hframed : HEADER_LEN ≤ blob.length ∧ blob.take MAGIC.length = MAGIC
  · have hversion : ¬ blob.getD MAGIC.length 0 = VERSION_2 := fun hv => hnot ⟨hframed, hv⟩
    rw [if_pos hframed]
    dsimp only
    by_cases h1 : blob.getD MAGIC.length 0 = VERSION_1
    · have hfloor : floorOf VERSION_1 = some (12 + 16) := by decide
      have hne : ¬ VERSION_1 = VERSION_2 := by decide
      rw [h1, hfloor]
      dsimp only
      split
      · simp [hne]
      · simp
    · have hfloor : floorOf (blob.getD MAGIC.length 0) = none := by rw [floorOf, if_neg h1, if_neg hversion]
      rw [hfloor]
      simp
  · rw [if_neg hframed]
    split
    · simp
    · simp

theorem isMlsStateBlobV2_iff_announcesV2 : isMlsStateBlobV2 blob = true ↔ AnnouncesV2 (parse blob) := by
  constructor
  · intro h
    rw [parse_of_isMlsStateBlobV2 h]
    split
    · exact .inr ⟨_, rfl⟩
    · exact .inl ⟨_, _, _, rfl⟩
  · intro h
    by_contra hnot
    exact not_announcesV2_of_not (Bool.eq_false_iff.mpr hnot) h

end Shape

/-! ## The key -/

section Key

variable {C} {engine : Engine} {prepared : Prepared} {key : DeviceKey} {pk : PreparedKey} {blob : Bytes}

theorem length_fingerprintOf : (fingerprintOf digest).length = FINGERPRINT_LEN := by
  unfold fingerprintOf
  rw [length_append, length_take, length_replicate]
  omega

theorem length_headerFor : (headerFor digest).length = HEADER_LEN := by
  rw [headerFor, length_append, length_fingerprintOf]
  rfl

theorem headerFor_fingerprint : (headerFor digest).drop (MAGIC.length + 1) = fingerprintOf digest :=
  drop_left' (by rw [length_append, length_singleton])

/-- What is prepared has the header of the digest it was prepared for. -/
def Prepared.Sound (prepared : Prepared) : Prop :=
    ∀ digest pk, prepared = some (digest, pk) → pk.header = headerFor digest

theorem prepareKey_header {raw digest : Bytes}
    (h : prepareKey C engine raw digest = .ok pk) : pk.header = headerFor digest := by
  unfold prepareKey at h
  split at h
  · cases h
  · split at h
    · cases h
    · split at h
      · cases h
      · cases h
        rfl

theorem decodeDeviceKey_b64 (key : DeviceKey) : decodeDeviceKey key.b64 = .ok key.bytes := by
  unfold decodeDeviceKey DeviceKey.b64
  rw [atob_btoa]
  dsimp only
  rw [if_neg (not_not.mpr key.length_eq)]

theorem preparedKeyFor_spec (hs : prepared.Sound) (b64 : JsString) :
    (preparedKeyFor C engine prepared b64).2.Sound ∧ ∀ pk, (preparedKeyFor C engine prepared b64).1 = .ok pk →
      ∃ raw, decodeDeviceKey b64 = .ok raw ∧ pk.header = headerFor (deviceKeyDigest C raw) := by
  unfold preparedKeyFor
  cases hr : decodeDeviceKey b64 with
  | error name => exact ⟨hs, fun pk h => (by cases h)⟩
  | ok raw =>
    cases hd : engine.digest with
    | some name => exact ⟨hs, fun pk h => (by cases h)⟩
    | none =>
      dsimp only
      cases hk : prepared.filter (·.1 = deviceKeyDigest C raw) with
      | some kept =>
        obtain ⟨hprepared, heq⟩ := Option.filter_eq_some_iff.mp hk
        refine ⟨hs, fun pk h => ⟨raw, rfl, ?_⟩⟩
        cases h
        rw [hs kept.1 kept.2 hprepared, of_decide_eq_true heq]
      | none =>
        cases hp : prepareKey C engine raw (deviceKeyDigest C raw) with
        | error name => exact ⟨fun digest pk h => (by cases h), fun pk h => (by cases h)⟩
        | ok pk =>
          refine ⟨fun digest pk' h => ?_, fun pk' h => ⟨raw, rfl, ?_⟩⟩
          · cases h
            exact prepareKey_header hp
          · cases h
            exact prepareKey_header hp

theorem sealMlsStateBlobV2_kept (plain iv : Bytes) (b64 : JsString) :
    (sealMlsStateBlobV2 C engine prepared plain b64 iv).2 = (preparedKeyFor C engine prepared b64).2 := by
  unfold sealMlsStateBlobV2
  split
  · next h => rw [h]
  · next h => rw [h]

theorem openMlsStateBlobV2_kept (b64 : JsString) :
    (openMlsStateBlobV2 C engine prepared blob b64).2 = prepared ∨
    (openMlsStateBlobV2 C engine prepared blob b64).2 = (preparedKeyFor C engine prepared b64).2 := by
  unfold openMlsStateBlobV2
  split
  · exact .inl rfl
  · dsimp only
    split
    · exact .inl rfl
    · right
      split
      · next h => rw [h]
      · next h =>
        rw [h]
        split
        · rfl
        · split
          · rfl
          · split <;> rfl

theorem Reached.sound (h : Reached C prepared) : prepared.Sound := by
  induction h with
  | cold => exact fun digest pk h => by cases h
  | sealing engine prepared plain b64 iv _ ih =>
    rw [sealMlsStateBlobV2_kept]
    exact (preparedKeyFor_spec ih b64).1
  | opening engine prepared blob b64 _ ih =>
    rcases @openMlsStateBlobV2_kept C engine prepared blob b64 with h | h
    · rw [h]
      exact ih
    · rw [h]
      exact (preparedKeyFor_spec ih b64).1

theorem Reached.header_eq (h : Reached C prepared) (hpk : (preparedKeyFor C engine prepared key.b64).1 = .ok pk) :
    pk.header = headerFor (deviceKeyDigest C key.bytes) := by
  obtain ⟨raw, hraw, hheader⟩ := (preparedKeyFor_spec h.sound key.b64).2 pk hpk
  rw [decodeDeviceKey_b64] at hraw
  cases hraw
  exact hheader

end Key

/-! ## The two readers -/

section Agree

variable {C} {engine : Engine} {prepared : Prepared} {key : DeviceKey} {blob : Bytes}

theorem openV2_cases {header sealed : Bytes} (hlong : ¬ sealed.length < V2_IV_LEN + V2_TAG_LEN) :
    (∃ plain, openV2 C key header sealed = .ok plain) ∨ (∃ m, openV2 C key header sealed = .error (.stateAltered m)) ∨
      ∃ stage e, openV2 C key header sealed = .error (.stateUndecryptable (.derivation stage e)) := by
  unfold openV2 v2AeadKey
  rw [if_neg hlong]
  cases C.hkdfExtract V2_KDF_SALT key.bytes with
  | error e => exact .inr (.inr ⟨_, _, rfl⟩)
  | ok prk =>
    dsimp only
    cases C.hkdfExpand prk V2_KDF_INFO with
    | error e => exact .inr (.inr ⟨_, _, rfl⟩)
    | ok okm =>
      dsimp only [bind, Except.bind]
      cases C.aesGcmDecrypt okm (sealed.take V2_IV_LEN) header (sealed.drop V2_IV_LEN) with
      | ok plain => exact .inl ⟨plain, rfl⟩
      | error e => exact .inr (.inl ⟨_, rfl⟩)

theorem openV2_ne_anotherKey {header sealed : Bytes} {m : String} (hlong : ¬ sealed.length < V2_IV_LEN + V2_TAG_LEN) :
    openV2 C key header sealed ≠ .error (.stateSealedUnderAnotherKey m) := by
  intro h
  rcases @openV2_cases C key header sealed hlong with ⟨_, h'⟩ | ⟨_, h'⟩ | ⟨_, _, h'⟩
  · rw [h] at h'
    cases h'
  · rw [h] at h'
    cases h'
  · rw [h] at h'
    cases h'

theorem loadWithKey_of_v2 {fp header sealed : Bytes} (h : parse blob = .ok (.v2 fp header sealed)) :
    loadWithKey C key blob = if fp ≠ keyFingerprint C key then .error (.stateSealedUnderAnotherKey anotherKey) else
      openV2 C key header sealed := by
  unfold loadWithKey
  rw [h]
  show (requireThisKey C key fp >>= fun _ => openV2 C key header sealed) = _
  unfold requireThisKey
  split
  · rfl
  · rfl

theorem loadWithKey_of_error {e : MlsError} (h : parse blob = .error e) : loadWithKey C key blob = .error e := by
  unfold loadWithKey
  rw [h]
  rfl

/-- The opener on a whole version 2 blob: the key, then the fingerprint, then the cipher, which decides nothing. -/
theorem openMlsStateBlobV2_whole (hv2 : isMlsStateBlobV2 blob = true)
    (hlong : ¬ (blob.drop HEADER_LEN).length < V2_IV_LEN + V2_TAG_LEN) :
    (∀ name, (preparedKeyFor C engine prepared key.b64).1 = .error name →
      (openMlsStateBlobV2 C engine prepared blob key.b64).1 = .error (.unreadableNow blob.length name false)) ∧
    ∀ pk, (preparedKeyFor C engine prepared key.b64).1 = .ok pk →
      (differ (MAGIC.length + 1) HEADER_LEN blob pk.header = true →
        (openMlsStateBlobV2 C engine prepared blob key.b64).1 = .error (.verdict .anotherKey)) ∧
      (differ (MAGIC.length + 1) HEADER_LEN blob pk.header = false → ∀ v,
        (openMlsStateBlobV2 C engine prepared blob key.b64).1 ≠ .error (.verdict v)) := by
  have hnotV2 : ¬ isMlsStateBlobV2 blob = false := by
    rw [hv2]
    decide
  unfold openMlsStateBlobV2
  rw [if_neg hnotV2]
  rw [if_neg (show ¬ (blob.drop HEADER_LEN).length < V2_IV_LEN + 16 from hlong)]
  refine ⟨fun name hname => ?_, fun pk hpk => ⟨fun hd => ?_, fun hd v => ?_⟩⟩
  · split
    · next h =>
      rw [h] at hname
      cases hname
      rfl
    · next h =>
      rw [h] at hname
      cases hname
  · split
    · next h =>
      rw [h] at hpk
      cases hpk
    · next h =>
      rw [h] at hpk
      cases hpk
      rw [if_pos hd]
  · split
    · next h =>
      rw [h] at hpk
      cases hpk
    · next h =>
      rw [h] at hpk
      cases hpk
      rw [hd, if_neg Bool.false_ne_true]
      split
      · simp
      · split
        · simp
        · simp

/-- What the web's opener and the parser say of one blob. -/
structure ReadersAgree (C : Crypto) (key : DeviceKey) (engine : Engine) (prepared : Prepared)
    (blob : Bytes) : Prop where
  notV2 : (openMlsStateBlobV2 C engine prepared blob key.b64).1 = .error (.verdict .notV2) ↔ ¬ AnnouncesV2 (parse blob)
  short : ∀ n, (openMlsStateBlobV2 C engine prepared blob key.b64).1 = .error (.verdict (.shortBody n)) ↔
    parse blob = .error (.stateUndecryptable (.shortBody VERSION_2 n 28))
  anotherKey : (openMlsStateBlobV2 C engine prepared blob key.b64).1 = .error (.verdict .anotherKey) ↔
    (∃ pk, (preparedKeyFor C engine prepared key.b64).1 = .ok pk) ∧ AnnouncesV2 (parse blob) ∧
      loadWithKey C key blob = .error (.stateSealedUnderAnotherKey anotherKey)

theorem readersAgree (h : Reached C prepared) : ReadersAgree C key engine prepared blob := by
  cases hv2 : isMlsStateBlobV2 blob with
  | false =>
    have hnot := not_announcesV2_of_not hv2
    have hopen : openMlsStateBlobV2 C engine prepared blob key.b64 = (.error (.verdict .notV2), prepared) := by
      unfold openMlsStateBlobV2
      rw [if_pos hv2]
    refine ⟨?_, fun n => ?_, ?_⟩
    · rw [hopen]
      exact ⟨fun _ => hnot, fun _ => rfl⟩
    · rw [hopen]
      refine ⟨fun h => (by cases h), fun h => absurd ?_ hnot⟩
      exact .inr ⟨n, h⟩
    · rw [hopen]
      refine ⟨fun h => (by cases h), fun ⟨_, h, _⟩ => absurd h hnot⟩
  | true =>
    have hannounces := (isMlsStateBlobV2_iff_announcesV2).mp hv2
    have hparse := parse_of_isMlsStateBlobV2 hv2
    have hnotV2 : ¬ isMlsStateBlobV2 blob = false := by rw [hv2]; decide
    by_cases hshort : (blob.drop HEADER_LEN).length < V2_IV_LEN + V2_TAG_LEN
    · rw [if_pos hshort] at hparse
      have hopen : openMlsStateBlobV2 C engine prepared blob key.b64 =
        (.error (.verdict (.shortBody (blob.drop HEADER_LEN).length)), prepared) := by
        unfold openMlsStateBlobV2
        rw [if_neg hnotV2]
        exact if_pos hshort
      refine ⟨?_, fun n => ?_, ?_⟩
      · rw [hopen]
        exact ⟨fun h => (by cases h), fun h => absurd hannounces h⟩
      · rw [hopen, hparse]
        simp
      · rw [hopen, loadWithKey_of_error hparse]
        exact ⟨fun h => (by cases h), fun ⟨_, _, h⟩ => (by cases h)⟩
    · rw [if_neg hshort] at hparse
      have hload := @loadWithKey_of_v2 C key blob _ _ _ hparse
      obtain ⟨hrejected, hprepared⟩ := @openMlsStateBlobV2_whole C engine prepared key blob hv2 hshort
      cases hpk : (preparedKeyFor C engine prepared key.b64).1 with
      | error name =>
        have hopen := hrejected name hpk
        refine ⟨?_, fun n => ?_, ?_⟩
        · rw [hopen]
          exact ⟨fun h => (by cases h), fun h => absurd hannounces h⟩
        · rw [hopen, hparse]
          simp
        · rw [hopen, hpk]
          exact ⟨fun h => (by cases h), fun ⟨⟨_, h⟩, _⟩ => (by cases h)⟩
      | ok pk =>
        obtain ⟨hdiffer, hsame⟩ := hprepared pk hpk
        have hheader := h.header_eq hpk
        have hlen : HEADER_LEN ≤ blob.length := (isMlsStateBlobV2_iff.mp hv2).1.1
        have hiff : differ (MAGIC.length + 1) HEADER_LEN blob pk.header = false ↔
            (blob.take HEADER_LEN).drop (MAGIC.length + 1) = keyFingerprint C key := by
          have hown : (pk.header.take HEADER_LEN).drop (MAGIC.length + 1) = keyFingerprint C key := by
            rw [hheader, ← length_headerFor (deviceKeyDigest C key.bytes), take_length]
            exact headerFor_fingerprint _
          rw [differ_eq_false hlen (by rw [hheader, length_headerFor]), hown]
        cases hd : differ (MAGIC.length + 1) HEADER_LEN blob pk.header with
        | true =>
          have hother : (blob.take HEADER_LEN).drop (MAGIC.length + 1) ≠ keyFingerprint C key := fun h => by
            rw [hiff.mpr h] at hd
            cases hd
          have hopen := hdiffer hd
          rw [if_pos hother] at hload
          refine ⟨?_, fun n => ?_, ?_⟩
          · rw [hopen]
            exact ⟨fun h => (by cases h), fun h => absurd hannounces h⟩
          · rw [hopen, hparse]
            simp
          · rw [hopen, hpk, hload]
            exact ⟨fun _ => ⟨⟨pk, rfl⟩, hannounces, rfl⟩, fun _ => rfl⟩
        | false =>
          have hnone := hsame hd
          rw [if_neg (not_not.mpr (hiff.mp hd))] at hload
          refine ⟨⟨fun h => absurd h (hnone _), fun h => absurd hannounces h⟩,
            fun n => ⟨fun h => absurd h (hnone _), fun h => ?_⟩,
            ⟨fun h => absurd h (hnone _), fun ⟨_, _, h⟩ => ?_⟩⟩
          · rw [hparse] at h
            cases h
          · rw [hload] at h
            exact absurd h (openV2_ne_anotherKey hshort)

end Agree

/-! ## Framed blobs and their prefixes -/

section Cut

variable {C} {engine : Engine} {prepared : Prepared} {key : DeviceKey} {blob : Bytes}

theorem parse_framed {version : UInt8} {fp body : Bytes} (hfp : fp.length = FINGERPRINT_LEN) :
    let framed := MAGIC ++ [version] ++ fp ++ body
    HEADER_LEN ≤ framed.length ∧ framed.take MAGIC.length = MAGIC ∧ framed.getD MAGIC.length 0 = version ∧
      framed.take HEADER_LEN = MAGIC ++ [version] ++ fp ∧ (framed.take HEADER_LEN).drop (MAGIC.length + 1) = fp ∧
        framed.drop HEADER_LEN = body := by
  intro framed
  have hheader : (MAGIC ++ [version] ++ fp).length = HEADER_LEN := by
    rw [length_append, hfp]
    rfl
  have htake : framed.take HEADER_LEN = MAGIC ++ [version] ++ fp := take_left' hheader
  refine ⟨?_, ?_, ?_, htake, ?_, drop_left' hheader⟩
  · rw [length_append]
    omega
  · rw [show framed = MAGIC ++ ([version] ++ fp ++ body) by simp [framed], take_left]
  · rw [show framed = MAGIC ++ (version :: (fp ++ body)) by
      simp [framed], getD_eq_getElem?_getD, getElem?_append_right (Nat.le_refl _)]
    simp
  · rw [htake]
    exact drop_left' (by rw [length_append, length_singleton])

theorem length_keyFingerprint (key : DeviceKey) : (keyFingerprint C key).length = FINGERPRINT_LEN :=
    length_fingerprintOf _

theorem parse_frameV1 {sealed : Bytes}
    (h : 28 ≤ sealed.length) : parse (frameV1 C key sealed) = .ok (.v1 (keyFingerprint C key) sealed) := by
  obtain ⟨hlen, hmagic, hversion, -, hfp, hbody⟩ :=
    @parse_framed VERSION_1 (keyFingerprint C key) sealed (length_keyFingerprint key)
  have hfloor : floorOf VERSION_1 = some 28 := by decide
  unfold parse frameV1
  rw [if_pos ⟨hlen, hmagic⟩, hversion]
  dsimp only
  rw [hfloor]
  dsimp only
  rw [hbody, if_neg (not_lt.mpr h), if_pos rfl, hfp]

theorem seal_eq (h : Reached C prepared) {plain iv : Bytes}
    (hs : (sealMlsStateBlobV2 C engine prepared plain key.b64 iv).1 = .ok blob) :
    ∃ sealed, sealed.length = plain.length + 16 ∧
      blob = MAGIC ++ [VERSION_2] ++ keyFingerprint C key ++ (iv ++ sealed) := by
  unfold sealMlsStateBlobV2 at hs
  split at hs
  · cases hs
  · next pk kept hpk =>
    cases hs
    have hheader : pk.header = headerFor (deviceKeyDigest C key.bytes) := h.header_eq (by rw [hpk])
    refine ⟨C.aesGcmEncrypt pk.aesKey iv pk.header plain, C.length_aesGcmEncrypt _ _ _ _, ?_⟩
    rw [append_assoc, hheader]
    rfl

/-- How what is left of a version 2 blob is read under the key that sealed it, by its length. -/
inductive CutRead (C : Crypto) (key : DeviceKey) (cut : Bytes) : Prop
  | noNonce (h : cut.length < 12) (parsed : parse cut = .error (.stateUndecryptable (.shortNonce cut.length)))
  | noHeader (h : 12 ≤ cut.length ∧ cut.length < HEADER_LEN) (parsed : parse cut = .ok (.legacy cut))
    (loaded : ∃ e, loadWithKey C key cut = .error (.stateUndecryptable (.cipher e)))
  | stub (h : HEADER_LEN ≤ cut.length ∧ cut.length < HEADER_LEN + 28)
    (parsed : parse cut = .error (.stateUndecryptable (.shortBody VERSION_2 (cut.length - HEADER_LEN) 28)))
  | body (h : HEADER_LEN + 28 ≤ cut.length)
    (parsed : parse cut = .ok (.v2 (keyFingerprint C key) (cut.take HEADER_LEN) (cut.drop HEADER_LEN)))
    (loaded : (∃ plain, loadWithKey C key cut = .ok plain) ∨ (∃ m, loadWithKey C key cut = .error (.stateAltered m)) ∨
      ∃ stage e, loadWithKey C key cut = .error (.stateUndecryptable (.derivation stage e)))

theorem cutRead_of_short {cut : Bytes} (h : cut.length < HEADER_LEN) : CutRead C key cut := by
  have hunframed : ¬ (HEADER_LEN ≤ cut.length ∧ cut.take MAGIC.length = MAGIC) := fun hf => absurd h (not_lt.mpr hf.1)
  by_cases hnonce : cut.length < 12
  · refine .noNonce hnonce ?_
    unfold parse
    rw [if_neg hunframed, if_pos hnonce]
  · have hparse : parse cut = .ok (.legacy cut) := by
      unfold parse
      rw [if_neg hunframed, if_neg hnonce]
    refine .noHeader ⟨not_lt.mp hnonce, h⟩ hparse ?_
    have hstub : (cut.drop 12).length < 16 := by
      rw [length_drop]
      unfold HEADER_LEN at h
      omega
    obtain ⟨e, he⟩ := C.chachaDecrypt_short key.bytes (cut.take 12) (cut.drop 12) hstub
    have hdecrypt : decryptBlob C key cut = .error e := by
      unfold decryptBlob
      rw [if_neg hnonce, he]
    refine ⟨e, ?_⟩
    unfold loadWithKey
    rw [hparse]
    dsimp only [bind, Except.bind]
    rw [hdecrypt]

theorem cutRead_of_header {body : Bytes} : CutRead C key (MAGIC ++ [VERSION_2] ++ keyFingerprint C key ++ body) := by
  obtain ⟨hlen, hmagic, hversion, -, hfp, hbody⟩ :=
    @parse_framed VERSION_2 (keyFingerprint C key) body (length_keyFingerprint key)
  generalize MAGIC ++ [VERSION_2] ++ keyFingerprint C key ++ body = cut at hlen hmagic hversion hfp hbody
  have hparse := parse_of_isMlsStateBlobV2 (isMlsStateBlobV2_iff.mpr ⟨⟨hlen, hmagic⟩, hversion⟩)
  have hcut : (cut.drop HEADER_LEN).length = cut.length - HEADER_LEN := length_drop
  by_cases hshort : (cut.drop HEADER_LEN).length < V2_IV_LEN + V2_TAG_LEN
  · rw [if_pos hshort, hcut] at hparse
    refine .stub ⟨hlen, ?_⟩ hparse
    unfold V2_IV_LEN V2_TAG_LEN at hshort
    omega
  · rw [if_neg hshort, hfp] at hparse
    refine .body ?_ hparse ?_
    · unfold V2_IV_LEN V2_TAG_LEN at hshort
      omega
    · have hload := @loadWithKey_of_v2 C key cut _ _ _ hparse
      rw [if_neg (not_not.mpr rfl)] at hload
      rw [hload]
      exact openV2_cases hshort

theorem cutRead_take {body : Bytes}
    (n : Nat) : CutRead C key ((MAGIC ++ [VERSION_2] ++ keyFingerprint C key ++ body).take n) := by
  have hheader : (MAGIC ++ [VERSION_2] ++ keyFingerprint C key).length = HEADER_LEN := length_headerFor _
  by_cases hn : n < HEADER_LEN
  · refine cutRead_of_short ?_
    rw [length_take]
    omega
  · rw [take_append, take_of_length_le (by omega)]
    exact cutRead_of_header

end Cut

/-! ## Every blob -/

/-- The two readers agree on every blob, whatever was prepared before; what is framed is read back in
    its parts; and what is left of a sealed version 2 blob is read as its length says, never as another
    key's or another version's. -/
theorem readers_agree_and_cuts_are_read_by_length (C : Crypto) (key : DeviceKey) :
    (∀ engine prepared blob, Reached C prepared → ReadersAgree C key engine prepared blob) ∧
    (∀ sealed : Bytes, 28 ≤ sealed.length → parse (frameV1 C key sealed) = .ok (.v1 (keyFingerprint C key) sealed)) ∧
    ∀ engine prepared plain iv blob, Reached C prepared → iv.length = V2_IV_LEN →
      (sealMlsStateBlobV2 C engine prepared plain key.b64 iv).1 = .ok blob →
      (∃ sealed, blob = MAGIC ++ [VERSION_2] ++ keyFingerprint C key ++ (iv ++ sealed) ∧
        parse blob = .ok (.v2 (keyFingerprint C key) (MAGIC ++ [VERSION_2] ++ keyFingerprint C key) (iv ++ sealed))) ∧
      ∀ n, CutRead C key (blob.take n) := by
  refine ⟨fun engine prepared blob h => readersAgree h, fun sealed h => parse_frameV1 h,
    fun engine prepared plain iv blob h hiv hs => ?_⟩
  obtain ⟨sealed, hlen, rfl⟩ := seal_eq h hs
  refine ⟨⟨sealed, rfl, ?_⟩, fun n => cutRead_take n⟩
  obtain ⟨hroom, hmagic, hversion, hheader, hfp, hbody⟩ :=
    @parse_framed VERSION_2 (keyFingerprint C key) (iv ++ sealed) (length_keyFingerprint key)
  have hlong : ¬ (iv ++ sealed).length < V2_IV_LEN + V2_TAG_LEN := by
    rw [length_append]
    unfold V2_TAG_LEN
    omega
  rw [parse_of_isMlsStateBlobV2 (isMlsStateBlobV2_iff.mpr ⟨⟨hroom, hmagic⟩, hversion⟩), hfp, hheader,
    hbody, if_neg hlong]

/-! ## A state cut by one byte -/

def testKey : DeviceKey := ⟨List.replicate 32 7, by decide⟩

def testDigest : Bytes :=
    [0xae, 0xb2, 0x48, 0xd2, 0xa1, 0xf6, 0xc5, 0x77, 0xfb, 0xec, 0xe4, 0xc0, 0x31, 0xbc, 0x64, 0xc4, 0x3c,
    0x56, 0xa0, 0xa5,
  0x73, 0xc4, 0x21, 0xfd, 0xc6, 0xb1, 0xbc, 0x89, 0x86, 0x60, 0x6a, 0x82]

def testPrk : Bytes := [0xaf, 0x44, 0xbf, 0xee, 0xb0, 0xa1, 0x71, 0x41, 0xd8, 0x78, 0xfc, 0x66, 0xcc, 0x09, 0x35,
    0x34, 0x1e, 0x51, 0x42, 0x2d, 0x58,
  0xe2, 0x58, 0x75, 0x18, 0xca, 0x5c, 0xf3, 0x00, 0x0d, 0x45, 0x3c]

def testAesKey : Bytes :=
    [0xfe, 0x75, 0xbd, 0x5d, 0x36, 0x21, 0xef, 0x0d, 0x97, 0xfe, 0x8f, 0xa2, 0xc1, 0xbb, 0x53, 0xce, 0x3c,
    0x41, 0x21, 0xfe,
  0x57, 0xdd, 0xb4, 0xb8, 0x41, 0xa4, 0x76, 0x92, 0x01, 0x2d, 0xac, 0xb5]

def testIv : Bytes := [1, 2, 3, 4, 5, 6, 7, 8, 9, 10, 11, 12]

/-- The byte `a0` under the test key and that IV, with its tag. -/
def testSealed : Bytes :=
    [0xc5, 0x86, 0x0d, 0xdf, 0xd1, 0x84, 0xab, 0xee, 0x8b, 0xce, 0x0f, 0x7c, 0x38, 0x66, 0xfd, 0xca, 0x39]

def knownAnswers : Crypto where
  sha256 input := if input = FINGERPRINT_DOMAIN ++ testKey.bytes then testDigest else List.replicate 32 0
  hkdfExtract _ _ := .ok testPrk
  hkdfExpand _ _ := .ok testAesKey
  aesGcmEncrypt key iv aad plain :=
    if (key = testAesKey ∧ iv = testIv ∧ aad = headerFor testDigest) ∧
      plain = [0xa0] then testSealed else plain ++ List.replicate 16 0
  aesGcmDecrypt key iv aad sealed :=
    if (key = testAesKey ∧ iv = testIv ∧ aad = headerFor testDigest) ∧
      sealed = testSealed then .ok [0xa0] else .error "AeadDecryptionError"
  chachaEncrypt _ _ plain := plain ++ List.replicate 16 0
  chachaDecrypt _ _ _ := .error "aead::Error"
  length_aesGcmEncrypt key iv aad plain := by
    split
    · next h =>
      rw [h.2]
      rfl
    · rw [length_append, length_replicate]
  length_chachaEncrypt key nonce plain := by rw [length_append, length_replicate]
  chachaDecrypt_short _ _ _ _ := ⟨_, rfl⟩

/-- The 44 bytes left of a sealed state of 45 are read as altered, and its first 12 as a blob of the
    legacy shape; the whole of it opens. -/
theorem a_cut_state_is_read_as_altered :
    let sealing := (sealMlsStateBlobV2 knownAnswers ⟨none, none, none⟩ none [0xa0] testKey.b64 testIv).1
    let blob := headerFor testDigest ++ testIv ++ testSealed
    sealing = .ok blob ∧ blob.length = 45 ∧ loadWithKey knownAnswers testKey blob = .ok [0xa0] ∧
    loadWithKey knownAnswers testKey (blob.take 44) =
      .error (.stateAltered "v2 AES-GCM tag did not verify under the right key - the blob was altered: AeadDecryptionError") ∧
    parse (blob.take 12) = .ok (.legacy (blob.take 12)) := by
  decide

end Canari.Mls.StateBlob
