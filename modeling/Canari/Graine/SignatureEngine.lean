/-
  Canari.Graine.SignatureEngine — Ed25519 checks, one at a time and a batch in one call
  (`frontend/src/lib/crypto/graineV2.ts`, `frontend/mls-core/src/graine_signature.rs` and
  the two bridges between them, `mlsWasmLoader.ts` and `tauriGraineSignatureEngine.ts`).

  A batch crosses the bridge as one buffer: the number of checks, then three fields a
  check, each behind its length. `unpack_pack`: the engine reads back the checks that
  were packed, so it answers for each what the single call answers, in their order
  (`graineSignatureEngine_batchesAs`).

  The curve arithmetic is the provider's, a parameter. A call that does not get across
  (a module that does not load, a command that fails) is one too.
-/

import Canari.Lib.Cbor
import Canari.Mls.Authorship

namespace Canari.Graine.SignatureEngine

open Lib Lib.Cbor Mls.Authorship List

inductive GraineSignatureVerdict where
  | valid
  | invalid
  | malformedPublicKey
  | malformedSignature
  deriving DecidableEq

namespace GraineSignatureVerdict

def code : GraineSignatureVerdict → String
  | valid => "valid"
  | invalid => "invalid"
  | malformedPublicKey => "malformed-public-key"
  | malformedSignature => "malformed-signature"

/-- The membership test of `GRAINE_SIGNATURE_VERDICTS`. -/
def ofCode (text : String) : Option GraineSignatureVerdict :=
  [valid, invalid, malformedPublicKey, malformedSignature].find? fun v => v.code = text

theorem ofCode_code (v : GraineSignatureVerdict) : ofCode v.code = some v := by
  cases v <;> decide

end GraineSignatureVerdict

structure GraineSignatureCheck where
  publicKey : Bytes
  message : Bytes
  signature : Bytes

/-- What opening a message asks of the platform's engine; `ε` is what a call throws. -/
structure GraineSignatureEngine (ε : Type) where
  verifySignature : GraineSignatureCheck → Except ε GraineSignatureVerdict
  verifySignatures : List GraineSignatureCheck → Except ε (List String)

def GRAINE_SIGNATURE_BATCH_MAX : Nat := 256

/-- The engine's promise: a batch is answered check by check, in order, as the single call
    answers, and a call that fails fails for the batch as for each of its checks. -/
def GraineSignatureEngine.BatchesAs {ε : Type} (engine : GraineSignatureEngine ε)
    (checks : List GraineSignatureCheck) : Prop :=
  ∀ batch : List GraineSignatureCheck, batch ≠ [] → batch ⊆ checks → batch.length ≤ GRAINE_SIGNATURE_BATCH_MAX →
    (∃ e, engine.verifySignatures batch = .error e ∧ ∀ c ∈ batch, engine.verifySignature c = .error e) ∨
    (∃ verdict : GraineSignatureCheck → GraineSignatureVerdict,
      engine.verifySignatures batch = .ok (batch.map fun c => (verdict c).code) ∧
      ∀ c ∈ batch, engine.verifySignature c = .ok (verdict c))

/-! ## The shape of an answer -/

/-- `GraineSignatureBatchError`, by what its detail names. -/
inductive BatchRefusal where
  | count (answered expected : Nat)
  | unknownEntry (entry : Nat) (text : String)
  deriving DecidableEq

def readVerdicts : Nat → List String → Except BatchRefusal (List GraineSignatureVerdict)
  | _, [] => .ok []
  | i, text :: rest =>
    match GraineSignatureVerdict.ofCode text with
    | none => .error (.unknownEntry i text)
    | some v => (readVerdicts (i + 1) rest).map (v :: ·)

def requireGraineVerdicts (answer : List String) (expected : Nat) : Except BatchRefusal (List GraineSignatureVerdict) :=
  if answer.length ≠ expected then .error (.count answer.length expected) else readVerdicts 0 answer

theorem readVerdicts_codes (i : Nat)
    (vs : List GraineSignatureVerdict) : readVerdicts i (vs.map GraineSignatureVerdict.code) = .ok vs := by
  induction vs generalizing i with
  | nil => rfl
  | cons v vs ih => simp only [map_cons, readVerdicts, GraineSignatureVerdict.ofCode_code, ih]; rfl

theorem requireGraineVerdicts_codes (vs : List GraineSignatureVerdict) :
    requireGraineVerdicts (vs.map GraineSignatureVerdict.code) vs.length = .ok vs := by
  rw [requireGraineVerdicts, if_neg (by simp), readVerdicts_codes]

/-! ## The engine -/

/-- What the provider answers besides yes: a key that is no point of the curve, or a signature that does not verify. -/
inductive CryptoError where
  | cryptoLibraryError
  | invalidSignature

section Engine

-- The provider's strict Ed25519 check of a message, under a public key.
variable (ed25519 : (message publicKey signature : Bytes) → Except CryptoError Unit)

def verifyGraineSignature (check : GraineSignatureCheck) : GraineSignatureVerdict :=
  if check.publicKey.length ≠ GRAINE_PUBLIC_KEY_BYTES then .malformedPublicKey
  else if check.signature.length ≠ GRAINE_SIGNATURE_BYTES then .malformedSignature
  else match ed25519 check.message check.publicKey check.signature with
    | .ok () => .valid
    | .error .cryptoLibraryError => .malformedPublicKey
    | .error .invalidSignature => .invalid

def packCheck (check : GraineSignatureCheck) : Bytes := lp check.publicKey ++ lp check.message ++ lp check.signature

def packGraineSignatureChecks (checks : List GraineSignatureCheck) : Bytes :=
    be32 checks.length ++ checks.flatMap packCheck

/-- A packed batch that does not parse: cut inside the field that starts there, or followed by more bytes. -/
inductive GraineBatchError where
  | truncated (offset : Nat)
  | trailing (bytes : Nat)

def readBe32 (packed : Bytes) (offset : Nat) : Except GraineBatchError (Nat × Nat) :=
  if offset + 4 ≤ packed.length then .ok (ofBe ((packed.drop offset).take 4), offset + 4) else
    .error (.truncated offset)

def readField (packed : Bytes) (offset : Nat) : Except GraineBatchError (Bytes × Nat) := do
  let (len, start) ← readBe32 packed offset
  if start + len ≤ packed.length then .ok ((packed.drop start).take len, start + len) else .error (.truncated offset)

def readChecks (packed : Bytes) : Nat → Nat → Except GraineBatchError (List GraineSignatureCheck × Nat)
  | 0, offset => .ok ([], offset)
  | count + 1, offset => do
    let (publicKey, offset) ← readField packed offset
    let (message, offset) ← readField packed offset
    let (signature, offset) ← readField packed offset
    let (checks, offset) ← readChecks packed count offset
    return (⟨publicKey, message, signature⟩ :: checks, offset)

def unpackGraineSignatureChecks (packed : Bytes) : Except GraineBatchError (List GraineSignatureCheck) := do
  let (count, offset) ← readBe32 packed 0
  if count > (packed.length - 4) / 12 then .error (.truncated offset)
  else
    let (checks, offset) ← readChecks packed count offset
    if offset ≠ packed.length then .error (.trailing (packed.length - offset)) else return checks

def verifyPackedGraineSignatures (packed : Bytes) : Except GraineBatchError (List String) :=
  (unpackGraineSignatureChecks packed).map fun checks => checks.map fun c => (verifyGraineSignature ed25519 c).code

/-- The engine of either platform. `crossing` says whether a call gets across; a batch that
    does not parse is thrown as its sentence. -/
def graineSignatureEngine {ε : Type} (crossing : Except ε Unit)
    (thrown : GraineBatchError → ε) : GraineSignatureEngine ε where
  verifySignature check := crossing.map fun _ => verifyGraineSignature ed25519 check
  verifySignatures checks :=
    if checks.isEmpty then .ok []
    else crossing.bind fun _ =>
      (verifyPackedGraineSignatures ed25519 (packGraineSignatureChecks checks)).mapError thrown

/-! ## A packed batch is read back -/

def GraineSignatureCheck.Short (c : GraineSignatureCheck) : Prop :=
  c.publicKey.length < 2 ^ 32 ∧ c.message.length < 2 ^ 32 ∧ c.signature.length < 2 ^ 32

theorem readBe32_at (before : Bytes) {n : Nat} (h : n < 2 ^ 32) (rest : Bytes) :
    readBe32 (before ++ be32 n ++ rest) before.length = .ok (n, before.length + 4) := by
  have hlen : (be32 n).length = 4 := length_beBytes 4 n
  have hdrop : ((before ++ be32 n ++ rest).drop before.length).take 4 = be32 n := by
    rw [append_assoc, drop_left, take_left' hlen]
  rw [readBe32, if_pos (by simp only [length_append, hlen]; omega), hdrop, be32, ofBe_beBytes,
    Nat.mod_eq_of_lt (by omega)]

theorem readField_at (before : Bytes) {field : Bytes} (h : field.length < 2 ^ 32) (rest : Bytes) :
    readField (before ++ lp field ++ rest) before.length = .ok (field, (before ++ lp field).length) := by
  have hlen : (be32 field.length).length = 4 := length_beBytes 4 _
  have hsplit : before ++ lp field ++ rest = before ++ be32 field.length ++ (field ++ rest) := by
    simp [Lib.lp]
  have hstart : (before ++ be32 field.length).length = before.length + 4 := by rw [length_append, hlen]
  have hdrop : ((before ++ be32 field.length ++ (field ++ rest)).drop
    (before.length + 4)).take field.length = field := by
    rw [drop_left' hstart, take_left]
  have hend : before.length + 4 + field.length = (before ++ lp field).length := by
    simp only [Lib.lp, length_append, hlen]
    omega
  rw [hsplit, readField, readBe32_at before h]
  show (if before.length + 4 + field.length ≤ _ then _ else _) = _
  rw [if_pos (by simp only [length_append, hlen]; omega), hdrop, hend]

variable {checks : List GraineSignatureCheck}

theorem readChecks_at (h : ∀ c ∈ checks, c.Short) (before rest : Bytes) :
    readChecks (before ++ checks.flatMap packCheck ++ rest) checks.length before.length =
      .ok (checks, (before ++ checks.flatMap packCheck).length) := by
  induction checks generalizing before with
  | nil => simp [readChecks]
  | cons c checks ih =>
    obtain ⟨hk, hm, hs⟩ := h c mem_cons_self
    have htail := ih (fun d hd => h d (mem_cons_of_mem c hd)) (before ++ packCheck c)
    have h1 := readField_at before hk (lp c.message ++ lp c.signature ++ checks.flatMap packCheck ++ rest)
    have h2 := readField_at (before ++ lp c.publicKey) hm (lp c.signature ++ checks.flatMap packCheck ++ rest)
    have h3 := readField_at (before ++ lp c.publicKey ++ lp c.message) hs (checks.flatMap packCheck ++ rest)
    simp only [flatMap_cons, packCheck, append_assoc, length_cons] at h1 h2 h3 htail ⊢
    simp only [readChecks, h1, h2, h3, htail, bind, Except.bind]
    rfl

theorem length_packCheck (c : GraineSignatureCheck) : 12 ≤ (packCheck c).length := by
  have h4 : ∀ n, (be32 n).length = 4 := length_beBytes 4
  simp only [packCheck, Lib.lp, length_append, h4]
  omega

theorem length_packChecks (checks : List GraineSignatureCheck) :
    12 * checks.length ≤ (checks.flatMap packCheck).length := by
  induction checks with
  | nil => simp
  | cons c checks ih =>
    have := length_packCheck c
    rw [flatMap_cons, length_append, length_cons]
    omega

/-- What `unpackGraineSignatureChecks` reads is what was packed. -/
theorem unpack_pack (hc : checks.length < 2 ^ 32) (h : ∀ c ∈ checks, c.Short) :
    unpackGraineSignatureChecks (packGraineSignatureChecks checks) = .ok checks := by
  have hlen : (be32 checks.length).length = 4 := length_beBytes 4 _
  have hpacked : (packGraineSignatureChecks checks).length = 4 + (checks.flatMap packCheck).length := by
    rw [packGraineSignatureChecks, length_append, hlen]
  have hcount : readBe32 (packGraineSignatureChecks checks) 0 = .ok (checks.length, 4) := by
    have := readBe32_at [] hc (checks.flatMap packCheck)
    simpa [packGraineSignatureChecks] using this
  have hroom : ¬ checks.length > ((packGraineSignatureChecks checks).length - 4) / 12 := by
    have := length_packChecks checks
    omega
  have hread : readChecks (packGraineSignatureChecks checks) checks.length 4 =
      .ok (checks, (packGraineSignatureChecks checks).length) := by
    have := readChecks_at h (be32 checks.length) []
    simpa [packGraineSignatureChecks, hlen] using this
  simp only [unpackGraineSignatureChecks, hcount, bind, Except.bind, if_neg hroom, hread, ne_eq,
    not_true_eq_false, if_false]
  rfl

/-- The engine keeps its promise for every batch whose fields fit their prefix. -/
theorem graineSignatureEngine_batchesAs {ε : Type} (crossing : Except ε Unit) (thrown : GraineBatchError → ε)
    (h : ∀ c ∈ checks, c.Short) :
    (graineSignatureEngine ed25519 crossing thrown).BatchesAs checks := by
  intro batch hne hsub hmax
  have hunpack : unpackGraineSignatureChecks (packGraineSignatureChecks batch) = .ok batch :=
    unpack_pack (by unfold GRAINE_SIGNATURE_BATCH_MAX at hmax; omega) fun c hc => h c (hsub hc)
  cases crossing with
  | error e => exact .inl ⟨e, by simp [graineSignatureEngine, hne, Except.bind], fun c _ => rfl⟩
  | ok u =>
    refine .inr ⟨verifyGraineSignature ed25519, ?_, fun c _ => rfl⟩
    simp [graineSignatureEngine, hne, Except.bind, verifyPackedGraineSignatures, hunpack, Except.map, Except.mapError]

end Engine

end Canari.Graine.SignatureEngine
