/-
  Canari.Graine.ChannelSeal — opening sealed channel rows, one at a time or a page at once
  (`frontend/src/lib/utils/graine/channelSeal.ts`, with `runtime.ts`, `crypto/graine.ts` and
  `crypto/graineV2.ts` under it).

  `openChannelMessageProving` prepares a row, has its signature checked and finishes it. A
  page prepares every row, has the signatures of all checked in calls of at most 256, and
  finishes every row in page order. Preparing touches only the seed cache and finishing only
  the opened keys; what that gives is in `Canari.Graine.ChannelPage`.

  A row's texts are code units and an error is its class and the fields its text is built
  from. What the browser supplies is a `Platform`: lower casing, HKDF, AES-GCM, and `<` on
  numbers that are no safe integers. The store, the runtime and the engine do not change
  during a call.
-/

import Canari.Lib.JsMap
import Canari.Graine.SignatureEngine
import Canari.Graine.Statements

namespace Canari.Graine.ChannelSeal

open Lib Lib.Utf16 Mls.Authorship Graine.Statements Graine.SignatureEngine

def GRAINE_HKDF_INFO : String := "canari-graine-v1"
def GRAINE_SEED_BYTES : Nat := 32

def units (text : String) : JsString := text.toList.map fun c => UInt16.ofNat c.toNat

structure OpenableChannelMessage where
  id : JsString
  senderId : JsString
  ciphertext : JsString
  nonce : Option JsString
  senderSessionId : Option JsString
  messageIndex : Option JsNumber
  signature : Option JsString

/-- What opening reads of a stored session; `v2` is its `signingPublicKeyB64`. -/
structure StoredGraineSession where
  channelId : JsString
  sessionId : JsString
  senderId : JsString
  seedB64 : JsString
  firstIndex : Nat
  v2 : Option JsString

inductive OpenError (ε : Type) where
  | sessionUnavailable (sessionId channelId : JsString)
  | v1SessionNotHeld (sessionId channelId : JsString)
  | belowFirstIndex (sessionId : JsString) (index : JsNumber) (firstIndex : Nat)
  | channelMismatch (sessionId servedIn sessionChannel : JsString)
  | authorMismatch (sessionId claimed minter : JsString)
  | signature (verdict : GraineSignatureVerdict) (what : String)
  | verdictMissing (sessionId : JsString)
  | replay (sessionId : JsString) (index : JsNumber) (firstRowId : JsString)
  | notReady (channel : JsString)
  | input (message : String)
  | signatureBatch (detail : BatchRefusal)
  /-- `atob` on a text that is not base64. -/
  | invalidCharacter
  /-- What the store, WebCrypto or the engine throws. -/
  | thrown (e : ε)
  deriving DecidableEq

variable {ε : Type}

structure Platform (ε : Type) where
  toLowerCase : JsString → JsString
  hkdfSha256 : (seed salt info : Bytes) → Except ε Bytes
  aesGcmDecrypt : (key iv : Bytes) → (additionalData : Option Bytes) → (ciphertext : Bytes) → Except ε Bytes
  /-- `<` between a number that is no safe integer, by what it prints as, and a whole number. -/
  isBelow : String → Nat → Bool

structure Runtime (ε : Type) where
  getGraineSession : JsString → Except ε (Option StoredGraineSession)
  engine : GraineSignatureEngine ε

structure Env (ε : Type) where
  platform : Platform ε
  runtime : Option (Runtime ε)

/-! ## Base64 -/

def sextet (u : UInt16) : Option Nat :=
  let n := u.toNat
  if 0x41 ≤ n ∧ n ≤ 0x5A then some (n - 0x41)
  else if 0x61 ≤ n ∧ n ≤ 0x7A then some (n - 0x61 + 26)
  else if 0x30 ≤ n ∧ n ≤ 0x39 then some (n - 0x30 + 52)
  else if n = 0x2B then some 62
  else if n = 0x2F then some 63
  else none

def bytesOfSextets : List Nat → Bytes
  | a :: b :: c :: d :: rest =>
    UInt8.ofNat (a * 4 + b / 16) :: UInt8.ofNat (b % 16 * 16 + c / 4) :: UInt8.ofNat (c % 4 * 64 + d) ::
      bytesOfSextets rest
  | [a, b, c] => [UInt8.ofNat (a * 4 + b / 16), UInt8.ofNat (b % 16 * 16 + c / 4)]
  | [a, b] => [UInt8.ofNat (a * 4 + b / 16)]
  | _ => []

def dropPadding (text : JsString) : JsString := if text.getLast? = some 0x3D then text.dropLast else text

/-- `atob`: blanks are skipped, and one or two `=` at the end of a whole number of quadruples. -/
def fromBase64 (text : JsString) : Except (OpenError ε) Bytes :=
  let data := text.filter fun u => !([0x09, 0x0A, 0x0C, 0x0D, 0x20] : List UInt16).contains u
  let data := if data.length % 4 = 0 then dropPadding (dropPadding data) else data
  if data.length % 4 = 1 then .error .invalidCharacter
  else match data.mapM sextet with
    | none => .error .invalidCharacter
    | some sextets => .ok (bytesOfSextets sextets)

/-! ## The message key and the two seals -/

def deriveMessageKey (P : Platform ε) (seed : Bytes) (sessionId : JsString)
    (index : JsNumber) : Except (OpenError ε) Bytes := do
  if seed.length ≠ GRAINE_SEED_BYTES then
    throw (.input s!"Seed must be {GRAINE_SEED_BYTES} bytes, got {seed.length}")
  if sessionId.isEmpty then
    throw (.input "Session id is required: it is bound into the derivation")
  let index ← (requireIndex index).mapError .input
  (P.hkdfSha256 seed (utf8Of sessionId) (utf8 GRAINE_HKDF_INFO ++ be32 index)).mapError .thrown

def openWithGraine (P : Platform ε) (seed : Bytes) (sessionId : JsString) (index : JsNumber)
    (ciphertext nonce : JsString) :
    Except (OpenError ε) Bytes := do
  let key ← deriveMessageKey P seed sessionId index
  let iv ← fromBase64 nonce
  let ciphertext ← fromBase64 ciphertext
  (P.aesGcmDecrypt key iv none ciphertext).mapError .thrown

structure PreparedGraineV2Open where
  header : GraineMessageHeaderV2
  encodedHeader : Bytes
  nonce : Bytes
  ciphertext : Bytes
  check : GraineSignatureCheck

def prepareGraineV2Open (header : GraineMessageHeaderV2) (ciphertext nonce signature : JsString)
    (signingPublicKey : Bytes) :
    Except (OpenError ε) PreparedGraineV2Open := do
  let encodedHeader ← (encodeGraineHeaderV2 header).mapError .input
  let nonce ← fromBase64 nonce
  let ciphertext ← fromBase64 ciphertext
  let signature ← fromBase64 signature
  if signature.length ≠ GRAINE_SIGNATURE_BYTES then
    throw (.signature .malformedSignature "message")
  let message ← (graineSignedBytesV2 encodedHeader nonce ciphertext).mapError .input
  return ⟨header, encodedHeader, nonce, ciphertext, ⟨signingPublicKey, message, signature⟩⟩

def finishGraineV2Open (P : Platform ε) (seed : Bytes) (prepared : PreparedGraineV2Open)
    (verdict : GraineSignatureVerdict) :
    Except (OpenError ε) Bytes := do
  if verdict ≠ .valid then
    throw (.signature verdict "message")
  let key ← deriveMessageKey P seed prepared.header.sessionId prepared.header.index
  (P.aesGcmDecrypt key prepared.nonce (some prepared.encodedHeader) prepared.ciphertext).mapError .thrown

/-! ## Preparing a row -/

structure TypedRow where
  id : JsString
  senderId : JsString
  ciphertext : JsString
  nonce : JsString
  senderSessionId : JsString
  messageIndex : JsNumber
  signature : Option JsString

inductive PreparedChannelMessage (ε : Type) where
  | v2 (row : TypedRow) (seed : Bytes) (opening : PreparedGraineV2Open) (engine : GraineSignatureEngine ε)
  | v1 (row : TypedRow) (seed : Bytes)

def PreparedChannelMessage.row : PreparedChannelMessage ε → TypedRow
  | .v2 row .. => row
  | .v1 row _ => row

/-- Strips the `channel_` prefix. -/
def rawChannelId (channelId : JsString) : JsString :=
  if (units "channel_").isPrefixOf channelId then channelId.drop 8 else channelId

/-- `!text`: absent, or empty. -/
def missing (text : Option JsString) : Bool := text.all List.isEmpty

abbrev SeedCache := JsMap JsString StoredGraineSession

/-- The session a row names: the cached one, else the stored one, which is then cached. -/
def sessionOf (rt : Runtime ε) (cache : SeedCache)
    (sessionId : JsString) : Except ε (Option StoredGraineSession) × SeedCache :=
  match cache.get sessionId with
  | some session => (.ok (some session), cache)
  | none =>
    match rt.getGraineSession sessionId with
    | .error e => (.error e, cache)
    | .ok none => (.ok none, cache)
    | .ok (some session) => (.ok (some session), cache.set session.sessionId session)

def belowFirstIndex (P : Platform ε) (firstIndex : Nat) : JsNumber → Bool
  | .safe n _ => decide (n < firstIndex)
  | .other shown => P.isBelow shown firstIndex

def prepareV2Row (P : Platform ε) (channel : JsString) (row : TypedRow) (session : StoredGraineSession)
    (signingPublicKeyB64 : JsString) :
    Except (OpenError ε) PreparedGraineV2Open := do
  let sessionChannel := rawChannelId session.channelId
  if sessionChannel ≠ channel then
    throw (.channelMismatch row.senderSessionId channel sessionChannel)
  if P.toLowerCase row.senderId ≠ P.toLowerCase session.senderId then
    throw (.authorMismatch row.senderSessionId row.senderId session.senderId)
  if missing row.signature then
    throw (.signature .malformedSignature "message")
  let publicKey ← fromBase64 signingPublicKeyB64
  prepareGraineV2Open ⟨session.channelId, row.senderSessionId, session.senderId,
    row.messageIndex⟩ row.ciphertext row.nonce
    (row.signature.getD []) publicKey

def prepareUnder (P : Platform ε) (engine : GraineSignatureEngine ε) (channel : JsString) (row : TypedRow)
    (session : StoredGraineSession) :
    Except (OpenError ε) (PreparedChannelMessage ε) :=
  if belowFirstIndex P session.firstIndex row.messageIndex then
    .error (.belowFirstIndex row.senderSessionId row.messageIndex session.firstIndex)
  else match session.v2 with
    | none => do
      let seed ← fromBase64 session.seedB64
      return .v1 row seed
    | some signingPublicKeyB64 => do
      let opening ← prepareV2Row P channel row session signingPublicKeyB64
      let seed ← fromBase64 session.seedB64
      return .v2 row seed opening engine

def typedRow (row : OpenableChannelMessage) : Option TypedRow :=
  match row.senderSessionId, row.nonce, row.messageIndex with
  | some sessionId, some nonce, some index =>
    if sessionId.isEmpty then none else
      some ⟨row.id, row.senderId, row.ciphertext, nonce, sessionId, index, row.signature⟩
  | _, _, _ => none

def prepareChannelMessage (env : Env ε) (channelId : JsString) (row : OpenableChannelMessage) (cache : SeedCache) :
    Except (OpenError ε) (PreparedChannelMessage ε) × SeedCache :=
  let channel := rawChannelId channelId
  match typedRow row with
  | none => (.error (.sessionUnavailable (row.senderSessionId.getD (units "(none)")) channel), cache)
  | some typed =>
    match env.runtime with
    | none => (.error (.notReady channel), cache)
    | some rt =>
      match sessionOf rt cache typed.senderSessionId with
      | (.error e, cache) => (.error (.thrown e), cache)
      | (.ok none, cache) =>
        (.error (if missing row.signature then .v1SessionNotHeld typed.senderSessionId channel
          else .sessionUnavailable typed.senderSessionId channel), cache)
      | (.ok (some session), cache) => (prepareUnder env.platform rt.engine channel typed session, cache)

/-! ## Finishing a row -/

abbrev OpenedKeys := JsMap JsString JsString

def openedKey (sessionId : JsString) (index : JsNumber) : JsString := sessionId ++ units "#" ++ units index.shown

def claimOpenedKey (opened : OpenedKeys) (sessionId : JsString) (index : JsNumber)
    (rowId : JsString) : Option JsString × OpenedKeys :=
  match opened.get (openedKey sessionId index) with
  | none => (none, opened.set (openedKey sessionId index) rowId)
  | some first => (if first = rowId then none else some first, opened)

def decryptPrepared (P : Platform ε) (prepared : PreparedChannelMessage ε) (verdict : Option GraineSignatureVerdict) :
    Except (OpenError ε) Bytes :=
  match prepared with
  | .v2 row seed opening _ =>
    match verdict with
    | none => .error (.verdictMissing row.senderSessionId)
    | some verdict => finishGraineV2Open P seed opening verdict
  | .v1 row seed => openWithGraine P seed row.senderSessionId row.messageIndex row.ciphertext row.nonce

def finishChannelMessage (P : Platform ε) (prepared : PreparedChannelMessage ε)
    (verdict : Option GraineSignatureVerdict) (opened : OpenedKeys) :
    Except (OpenError ε) Bytes × OpenedKeys :=
  match decryptPrepared P prepared verdict with
  | .error e => (.error e, opened)
  | .ok bytes =>
    let row := prepared.row
    match claimOpenedKey opened row.senderSessionId row.messageIndex row.id with
    | (none, opened) => (.ok bytes, opened)
    | (some first, opened) => (.error (.replay row.senderSessionId row.messageIndex first), opened)

/-! ## A row, and a page -/

structure St where
  seedCache : SeedCache
  openedKeys : OpenedKeys

structure ProvenChannelOpening where
  bytes : Bytes
  authorProven : Bool

def singleVerdict : PreparedChannelMessage ε → Except ε (Option GraineSignatureVerdict)
  | .v2 _ _ opening engine => (engine.verifySignature opening.check).map some
  | .v1 .. => .ok none

def PreparedChannelMessage.isV2 : PreparedChannelMessage ε → Bool
  | .v2 .. => true
  | .v1 .. => false

def openChannelMessageProving (env : Env ε) (channelId : JsString) (row : OpenableChannelMessage) (s : St) :
    Except (OpenError ε) ProvenChannelOpening × St :=
  match prepareChannelMessage env channelId row s.seedCache with
  | (.error e, seedCache) => (.error e, { s with seedCache })
  | (.ok prepared, seedCache) =>
    match singleVerdict prepared with
    | .error e => (.error (.thrown e), { s with seedCache })
    | .ok verdict =>
      let (bytes, openedKeys) := finishChannelMessage env.platform prepared verdict s.openedKeys
      (bytes.map fun bytes => ⟨bytes, prepared.isV2⟩, ⟨seedCache, openedKeys⟩)

def prepareAll (env : Env ε) (channelId : JsString) : List OpenableChannelMessage → SeedCache →
    List (Except (OpenError ε) (PreparedChannelMessage ε)) × SeedCache
  | [], cache => ([], cache)
  | row :: rows, cache =>
    let (prepared, cache) := prepareChannelMessage env channelId row cache
    let (rest, cache) := prepareAll env channelId rows cache
    (prepared :: rest, cache)

structure Waiting (ε : Type) where
  pos : Nat
  check : GraineSignatureCheck
  engine : GraineSignatureEngine ε

def waitingFrom : Nat → List (Except (OpenError ε) (PreparedChannelMessage ε)) → List (Waiting ε)
  | _, [] => []
  | i, .ok (.v2 _ _ opening engine) :: rest => ⟨i, opening.check, engine⟩ :: waitingFrom (i + 1) rest
  | i, _ :: rest => waitingFrom (i + 1) rest

structure Verdicts (ε : Type) where
  verdicts : JsMap Nat GraineSignatureVerdict
  engineFailures : JsMap Nat (OpenError ε)

def askBatch (engine : GraineSignatureEngine ε) (slice : List (Waiting ε)) : Except (OpenError ε)
    (List GraineSignatureVerdict) := do
  let answer ← (engine.verifySignatures (slice.map (·.check))).mapError .thrown
  (requireGraineVerdicts answer slice.length).mapError .signatureBatch

def recordBatch (acc : Verdicts ε) (engine : GraineSignatureEngine ε) (slice : List (Waiting ε)) : Verdicts ε :=
  match askBatch engine slice with
  | .ok answer => { acc with verdicts := (slice.zip answer).foldl (fun m w => m.set w.1.pos w.2) acc.verdicts }
  | .error e => { acc with engineFailures := slice.foldl (fun m w => m.set w.pos e) acc.engineFailures }

def verifyBatches : Nat → List (Waiting ε) → Verdicts ε → Verdicts ε
  | 0, _, acc => acc
  | _ + 1, [], acc => acc
  | turns + 1, w :: ws, acc =>
    verifyBatches turns ((w :: ws).drop GRAINE_SIGNATURE_BATCH_MAX)
      (recordBatch acc w.engine ((w :: ws).take GRAINE_SIGNATURE_BATCH_MAX))

/-- A page's row at position `i`, once the verdicts are known. -/
def finishAt (P : Platform ε) (acc : Verdicts ε) (i : Nat) (prepared : PreparedChannelMessage ε) (opened : OpenedKeys) :
    Except (OpenError ε) Bytes × OpenedKeys :=
  match acc.engineFailures.get i with
  | some e => (.error e, opened)
  | none => finishChannelMessage P prepared (acc.verdicts.get i) opened

def finishAll (P : Platform ε)
    (acc : Verdicts ε) : Nat → List (Except (OpenError ε) (PreparedChannelMessage ε)) → OpenedKeys →
    List (Except (OpenError ε) Bytes) × OpenedKeys
  | _, [], opened => ([], opened)
  | i, p :: ps, opened =>
    let (out, opened) := match p with
      | .error e => (.error e, opened)
      | .ok prepared => finishAt P acc i prepared opened
    let (outs, opened) := finishAll P acc (i + 1) ps opened
    (out :: outs, opened)

def openChannelMessagePage (env : Env ε) (channelId : JsString) (rows : List OpenableChannelMessage) (s : St) :
    List (Except (OpenError ε) Bytes) × St :=
  let (prepared, seedCache) := prepareAll env channelId rows s.seedCache
  let waiting := waitingFrom 0 prepared
  let acc := verifyBatches waiting.length waiting ⟨.empty, .empty⟩
  let (outs, openedKeys) := finishAll env.platform acc 0 prepared s.openedKeys
  (outs, ⟨seedCache, openedKeys⟩)

def openEach (env : Env ε)
    (channelId : JsString) : List OpenableChannelMessage → St → List (Except (OpenError ε) Bytes) × St
  | [], s => ([], s)
  | row :: rows, s =>
    let (out, s) := openChannelMessageProving env channelId row s
    let (outs, s) := openEach env channelId rows s
    (out.map (·.bytes) :: outs, s)

end Canari.Graine.ChannelSeal
