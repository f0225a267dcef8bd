/-
  Canari.Graine.ExactFrames — two frames of length-prefixed fields and what their readers accept: a packed batch of
  signature checks (`frontend/src/lib/crypto/graineV2.ts`, `frontend/mls-core/src/graine_signature.rs`)
  and the signed epoch fingerprint of a frame's authenticated data (`fork_check.rs`).

  A batch ends where its count and its lengths say, so what is read is what was packed and nothing else is
  accepted (`unpack_exact`). A fork claim has no length for its fingerprint and its signature: they are 16
  and 64 bytes, the reader's layout, and a claim with other sizes is cut elsewhere
  (`a_missized_claim_is_read_as_another`). A field longer than its prefix can say is lost, and the batch with
  it.
-/

import Canari.Graine.SignatureEngine
import Canari.Graine.Statements

namespace Canari.Graine.ExactFrames

open Lib Lib.Cbor Graine.SignatureEngine List
open Mls.Authorship (utf8)
open Graine.Statements (bind_eq_ok)

/-! ## A packed batch -/

def Fits (checks : List GraineSignatureCheck) : Prop := checks.length < 2 ^ 32 ∧ ∀ c ∈ checks, c.Short

section Batch

variable {packed : Bytes} {o o' count : Nat} {field : Bytes} {checks : List GraineSignatureCheck}

theorem readBe32_eq_ok {n : Nat} (h : readBe32 packed o = .ok (n, o')) :
    o' = o + 4 ∧ o' ≤ packed.length ∧ n < 2 ^ 32 ∧ packed.drop o = be32 n ++ packed.drop o' := by
  unfold readBe32 at h
  split at h
  · next hroom =>
    cases h
    obtain ⟨hbytes, hlt⟩ := drop_eq_be32 hroom
    exact ⟨rfl, hroom, hlt, hbytes⟩
  · cases h

theorem readField_eq_ok (h : readField packed o = .ok (field, o')) :
    o' ≤ packed.length ∧ field.length < 2 ^ 32 ∧ packed.drop o = lp field ++ packed.drop o' := by
  obtain ⟨⟨n, start⟩, hlen, h⟩ := bind_eq_ok h
  dsimp only at h
  split at h
  · next hroom =>
    cases h
    obtain ⟨-, hstart, hlt, hbytes⟩ := readBe32_eq_ok hlen
    have hfield : ((packed.drop start).take n).length = n := by
      rw [length_take, length_drop]
      omega
    refine ⟨hroom, hfield.symm ▸ hlt, ?_⟩
    rw [Lib.lp, hfield, append_assoc, ← drop_drop, take_append_drop]
    exact hbytes
  · cases h

theorem readChecks_eq_ok (h : readChecks packed count o = .ok (checks, o')) (ho : o ≤ packed.length) :
    o' ≤ packed.length ∧ checks.length = count ∧ (∀ c ∈ checks, c.Short) ∧
      packed.drop o = checks.flatMap packCheck ++ packed.drop o' := by
  induction count generalizing o checks with
  | zero =>
    cases h
    exact ⟨ho, rfl, fun c hc => (not_mem_nil hc).elim, rfl⟩
  | succ count ih =>
    obtain ⟨⟨publicKey, o₁⟩, hk, h⟩ := bind_eq_ok h
    obtain ⟨⟨message, o₂⟩, hm, h⟩ := bind_eq_ok h
    obtain ⟨⟨signature, o₃⟩, hs, h⟩ := bind_eq_ok h
    obtain ⟨⟨rest, o₄⟩, hr, h⟩ := bind_eq_ok h
    cases h
    obtain ⟨-, hkl, hkb⟩ := readField_eq_ok hk
    obtain ⟨-, hml, hmb⟩ := readField_eq_ok hm
    obtain ⟨hsend, hsl, hsb⟩ := readField_eq_ok hs
    obtain ⟨hend, hcount, hshort, hbytes⟩ := ih hr hsend
    refine ⟨hend, by rw [length_cons, hcount], fun c hc => ?_, ?_⟩
    · rcases mem_cons.mp hc with rfl | hc
      · exact ⟨hkl, hml, hsl⟩
      · exact hshort c hc
    · rw [hkb, hmb, hsb, hbytes, flatMap_cons, packCheck]
      simp

theorem unpack_exact (h : unpackGraineSignatureChecks packed = .ok checks) : Fits checks ∧
    packed = packGraineSignatureChecks checks := by
  obtain ⟨⟨count, o₁⟩, hc, h⟩ := bind_eq_ok h
  obtain ⟨-, ho, hlt, hbytes⟩ := readBe32_eq_ok hc
  dsimp only at h
  split at h
  · cases h
  · obtain ⟨⟨read, o₂⟩, hr, h⟩ := bind_eq_ok h
    dsimp only at h
    split at h
    · cases h
    · next hend =>
      cases h
      obtain ⟨-, hcount, hshort, hrest⟩ := readChecks_eq_ok hr ho
      refine ⟨⟨hcount.symm ▸ hlt, hshort⟩, ?_⟩
      rw [hrest, not_not.mp hend, drop_length, append_nil] at hbytes
      rw [packGraineSignatureChecks, hcount]
      exact hbytes

/-- The error of a batch is about its own bytes: it ends inside the field that starts there, or goes on
    past the last check. -/
def GraineBatchError.Within (packed : Bytes) : GraineBatchError → Prop
  | .truncated o => o ≤ packed.length
  | .trailing n => 0 < n ∧ n ≤ packed.length

variable {e : GraineBatchError}

theorem readField_eq_error (h : readField packed o = .error e)
    (ho : o ≤ packed.length) : GraineBatchError.Within packed e := by
  unfold readField readBe32 at h
  by_cases hroom : o + 4 ≤ packed.length
  · rw [if_pos hroom] at h
    change (if o + 4 + ofBe ((packed.drop o).take 4) ≤ packed.length then Except.ok _ else
      Except.error (GraineBatchError.truncated o)) = _ at h
    split at h
    · cases h
    · cases h
      exact ho
  · rw [if_neg hroom] at h
    cases h
    exact ho

theorem bind_eq_error {ε α β : Type} {x : Except ε α} {f : α → Except ε β} {e : ε} (h : x >>= f = .error e) :
    x = .error e ∨ ∃ a, x = .ok a ∧ f a = .error e := by
  cases x with
  | error e' =>
    cases h
    exact .inl rfl
  | ok a => exact .inr ⟨a, rfl, h⟩

theorem readChecks_eq_error (h : readChecks packed count o = .error e) (ho : o ≤ packed.length) :
    GraineBatchError.Within packed e := by
  induction count generalizing o with
  | zero => cases h
  | succ count ih =>
    rcases bind_eq_error h with h | ⟨⟨publicKey, o₁⟩, hk, h⟩
    · exact readField_eq_error h ho
    rcases bind_eq_error h with h | ⟨⟨message, o₂⟩, hm, h⟩
    · exact readField_eq_error h (readField_eq_ok hk).1
    rcases bind_eq_error h with h | ⟨⟨signature, o₃⟩, hs, h⟩
    · exact readField_eq_error h (readField_eq_ok hm).1
    rcases bind_eq_error h with h | ⟨⟨rest, o₄⟩, -, h⟩
    · exact ih h (readField_eq_ok hs).1
    · cases h

theorem unpack_error_within (h : unpackGraineSignatureChecks packed = .error e) : GraineBatchError.Within packed e := by
  rcases bind_eq_error h with h | ⟨⟨count, o₁⟩, hc, h⟩
  · unfold readBe32 at h
    split at h
    · cases h
    · cases h
      exact Nat.zero_le _
  · obtain ⟨-, ho, -, -⟩ := readBe32_eq_ok hc
    dsimp only at h
    split at h
    · cases h
      exact ho
    · rcases bind_eq_error h with h | ⟨⟨read, o₂⟩, hr, h⟩
      · exact readChecks_eq_error h ho
      · have hend := (readChecks_eq_ok hr ho).1
        split at h
        · next hne =>
          cases h
          exact ⟨by omega, by omega⟩
        · cases h

end Batch

/-! ## A fork claim -/

def FORK_AAD_VERSION : UInt8 := 1
def FORK_FINGERPRINT_BYTES : Nat := 16
def SIGNATURE_BYTES : Nat := 64

structure ForkClaim where
  identity : String
  fingerprint : Bytes
  signature : Bytes
  deriving DecidableEq

def encodeForkAad (claim : ForkClaim) : Bytes :=
    [FORK_AAD_VERSION] ++ lp (utf8 claim.identity) ++ claim.fingerprint ++ claim.signature

/-- `aad.get(lo..hi)`. -/
def range (bytes : Bytes) (lo hi : Nat) : Option Bytes :=
  if lo ≤ hi ∧ hi ≤ bytes.length then some ((bytes.drop lo).take (hi - lo)) else none

def decodeForkAad (aad : Bytes) : Option ForkClaim :=
  if aad.head? ≠ some FORK_AAD_VERSION then none
  else do
    let lenBytes ← range aad 1 5
    let idEnd := 5 + ofBe lenBytes
    let identity ← String.fromUTF8? ⟨(← range aad 5 idEnd).toArray⟩
    let fpEnd := idEnd + FORK_FINGERPRINT_BYTES
    let fingerprint ← range aad idEnd fpEnd
    let signature ← range aad fpEnd aad.length
    if signature.length ≠ SIGNATURE_BYTES then none else some ⟨identity, fingerprint, signature⟩

structure ForkClaim.Sized (claim : ForkClaim) : Prop where
  identity : (utf8 claim.identity).length < 2 ^ 32
  fingerprint : claim.fingerprint.length = FORK_FINGERPRINT_BYTES
  signature : claim.signature.length = SIGNATURE_BYTES

theorem range_eq_some {bytes x : Bytes} {lo hi : Nat} (h : range bytes lo hi = some x) :
    hi ≤ bytes.length ∧ x.length = hi - lo ∧ bytes.drop lo = x ++ bytes.drop hi := by
  unfold range at h
  split at h
  · next hroom =>
    cases h
    refine ⟨hroom.2, by rw [length_take, length_drop]; omega, ?_⟩
    rw [show bytes.drop hi = (bytes.drop lo).drop (hi - lo) by rw [drop_drop]; congr 1; omega, take_append_drop]
  · cases h

theorem range_between {bytes : Bytes} (x y z : Bytes) {lo hi : Nat} (h : bytes = x ++ y ++ z) (hlo : x.length = lo)
    (hhi : lo + y.length = hi) :
    range bytes lo hi = some y := by
  subst h hlo hhi
  have hroom : x.length ≤ x.length + y.length ∧ x.length + y.length ≤ (x ++ y ++ z).length := by
    simp only [length_append]
    omega
  rw [range, if_pos hroom, append_assoc, drop_left, Nat.add_sub_cancel_left, take_left]

theorem decode_encodeForkAad {claim : ForkClaim}
    (h : claim.Sized) : decodeForkAad (encodeForkAad claim) = some claim := by
  obtain ⟨identity, fingerprint, signature⟩ := claim
  obtain ⟨hid, hfp, hsig⟩ := h
  have h4 : (be32 (utf8 identity).length).length = 4 := length_beBytes 4 _
  have h256 : (256 : Nat) ^ 4 = 2 ^ 32 := rfl
  have hlen : ofBe (be32 (utf8 identity).length) = (utf8 identity).length := by
    rw [be32, ofBe_beBytes, h256, Nat.mod_eq_of_lt hid]
  have hutf : String.fromUTF8? ⟨(utf8 identity).toArray⟩ = some identity := fromUTF8?_eq_some.mpr rfl
  generalize hbytes : encodeForkAad ⟨identity, fingerprint, signature⟩ = aad
  have hsplit : aad = [FORK_AAD_VERSION] ++ be32 (utf8 identity).length ++ utf8 identity ++ fingerprint ++
    signature := by
    rw [← hbytes]
    simp [encodeForkAad, Lib.lp]
  have hall : 5 + (utf8 identity).length + FORK_FINGERPRINT_BYTES + signature.length = aad.length := by
    rw [hsplit]
    simp only [length_append, h4, hfp, length_singleton]
  have h1 : range aad 1 5 = some (be32 (utf8 identity).length) := by
    refine range_between [FORK_AAD_VERSION] _ (utf8 identity ++ fingerprint ++ signature) ?_ rfl (by rw [h4])
    simp [hsplit]
  have h2 : range aad 5 (5 + (utf8 identity).length) = some (utf8 identity) := by
    refine range_between ([FORK_AAD_VERSION] ++ be32 (utf8 identity).length) _ (fingerprint ++ signature) ?_ ?_ rfl
    · simp [hsplit]
    · rw [length_append, h4, length_singleton]
  have h3 : range aad (5 + (utf8 identity).length)
    (5 + (utf8 identity).length + FORK_FINGERPRINT_BYTES) = some fingerprint := by
    refine range_between ([FORK_AAD_VERSION] ++ be32 (utf8 identity).length ++
      utf8 identity) _ signature hsplit ?_ (by rw [hfp])
    rw [length_append, length_append, h4, length_singleton]
  have hlast : range aad (5 + (utf8 identity).length + FORK_FINGERPRINT_BYTES) aad.length = some signature := by
    refine range_between ([FORK_AAD_VERSION] ++ be32 (utf8 identity).length ++ utf8 identity ++
      fingerprint) _ [] ?_ ?_ hall
    · rw [append_nil]
      exact hsplit
    · rw [length_append, length_append, length_append, h4, hfp, length_singleton]
  have hhead : aad.head? = some FORK_AAD_VERSION := by
    rw [hsplit]
    rfl
  unfold decodeForkAad
  rw [if_neg (not_not.mpr hhead)]
  simp [h1, hlen, h2, hutf, h3, hlast, hsig]

theorem decodeForkAad_exact {aad : Bytes} {claim : ForkClaim}
    (h : decodeForkAad aad = some claim) : claim.Sized ∧ aad = encodeForkAad claim := by
  unfold decodeForkAad at h
  split at h
  · cases h
  next hhead =>
  obtain ⟨lenBytes, h1, h⟩ := Option.bind_eq_some_iff.mp h
  obtain ⟨idBytes, h2, h⟩ := Option.bind_eq_some_iff.mp h
  obtain ⟨identity, hutf, h⟩ := Option.bind_eq_some_iff.mp h
  obtain ⟨fingerprint, h3, h⟩ := Option.bind_eq_some_iff.mp h
  obtain ⟨signature, h4, h⟩ := Option.bind_eq_some_iff.mp h
  split at h
  · cases h
  next hsig =>
  cases h
  obtain ⟨-, hl1, hb1⟩ := range_eq_some h1
  obtain ⟨-, hl2, hb2⟩ := range_eq_some h2
  obtain ⟨-, hl3, hb3⟩ := range_eq_some h3
  obtain ⟨-, -, hb4⟩ := range_eq_some h4
  have hid : idBytes = utf8 identity := fromUTF8?_eq_some.mp hutf
  have hprefix : lenBytes = be32 (utf8 identity).length := by
    have hbytes := beBytes_ofBe lenBytes
    rw [hl1] at hbytes
    rw [← hid, hl2, Nat.add_sub_cancel_left]
    exact hbytes.symm
  have hlt := ofBe_lt lenBytes
  rw [hl1] at hlt
  refine ⟨⟨?_, hl3.trans (Nat.add_sub_cancel_left _ _), not_not.mp hsig⟩, ?_⟩
  · rw [← hid, hl2, Nat.add_sub_cancel_left]
    exact hlt
  · rw [hb2, hb3, hb4, hid, hprefix] at hb1
    obtain ⟨v, rest, rfl⟩ : ∃ v rest, aad = v :: rest := by
      cases aad with
      | nil => exact absurd h1 (by simp [range])
      | cons v rest => exact ⟨v, rest, rfl⟩
    obtain rfl : v = FORK_AAD_VERSION := by simpa using hhead
    rw [drop_one, tail_cons] at hb1
    rw [hb1]
    simp [encodeForkAad, Lib.lp]

/-! ## Both are read exactly -/

/-- A batch that fits is read back and each of its verdicts is that of its check alone; no other bytes
    are accepted, and the error is about the bytes there are. A fork claim of the layout's sizes is read
    back, and no other bytes are accepted. -/
theorem frames_are_read_exactly (ed25519 : (message publicKey signature : Bytes) → Except CryptoError Unit) :
    (∀ checks, Fits checks → unpackGraineSignatureChecks (packGraineSignatureChecks checks) = .ok checks ∧
      verifyPackedGraineSignatures ed25519 (packGraineSignatureChecks checks) = .ok
        (checks.map fun c => (verifyGraineSignature ed25519 c).code)) ∧
    (∀ packed, (∀ checks, Fits checks → packed ≠ packGraineSignatureChecks checks) →
      ∃ e, unpackGraineSignatureChecks packed = .error e ∧ GraineBatchError.Within packed e) ∧
    (∀ aad claim, decodeForkAad aad = some claim ↔ claim.Sized ∧ aad = encodeForkAad claim) := by
  refine ⟨fun checks h => ?_, fun packed hnone => ?_, fun aad claim => ⟨decodeForkAad_exact, fun h => ?_⟩⟩
  · have hread := unpack_pack h.1 h.2
    exact ⟨hread, by rw [verifyPackedGraineSignatures, hread]; rfl⟩
  · cases h : unpackGraineSignatureChecks packed with
    | error e => exact ⟨e, rfl, unpack_error_within h⟩
    | ok checks => exact absurd (unpack_exact h).2 (hnone checks (unpack_exact h).1)
  · obtain ⟨hsized, rfl⟩ := h
    exact decode_encodeForkAad hsized

/-- A fingerprint of 15 bytes and a signature of 65 are cut after 16, and a signature of 63 is refused;
    a public key of 2^32 bytes has the length prefix of an empty one. -/
theorem a_missized_claim_is_read_as_another :
    decodeForkAad (encodeForkAad ⟨"a:b", List.replicate 15 3, List.replicate 65 5⟩) = some ⟨"a:b",
      List.replicate 15 3 ++ [5], List.replicate 64 5⟩ ∧
    decodeForkAad (encodeForkAad ⟨"a:b", List.replicate 16 3, List.replicate 63 5⟩) = none ∧
    unpackGraineSignatureChecks (packGraineSignatureChecks [⟨List.replicate (2 ^ 32) 0, [], []⟩]) ≠ .ok
      [⟨List.replicate (2 ^ 32) 0, [], []⟩] := by
  refine ⟨by decide, by decide, fun h => ?_⟩
  have hshort := ((unpack_exact h).1.2 _ mem_cons_self).1
  rw [length_replicate] at hshort
  exact lt_irrefl _ hshort

end Canari.Graine.ExactFrames
