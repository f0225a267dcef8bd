/-
  Canari.Delivery.MlsFrameEpoch — what the delivery service reads in the clear of a commit
  (`apps/chat-delivery-service/src/utils/mls-frame-epoch.ts`: `mlsFrameEpoch`,
  `readCommitFrame`, `readExternalCommitRemovals`; `key-package-leaf.ts`).

  The service reads the head of an external commit and no further: up to the credential of the
  new leaf. It takes epochs a number holds exactly, basic credentials behind a signature key, and
  the proposals a join or a rejoin carries.
  - `external_commits_are_read`: what it reads of every external commit and of every cut of one.
  - `not_every_commit_is_read`: a later epoch is refused, a cut behind the credential is not.
-/

import Mathlib.Data.UInt
import Canari.Delivery.MlsWire

namespace Canari.Delivery

open Lib Lib.Buffer List Option
open Lib.Utf16 (JsString)
open Lib.Buffer.Answer (refuse refuse_of refuse_of_not settled_refuse settled_value settled_null)

/-! ## The leaf -/

structure KeyPackageLeaf where
  signatureKey : JsString
  identity : JsString

def readLeafNodeHead (bytes : Bytes) (offset : Nat) : Answer KeyPackageLeaf := do
  let (_, next) ← readMlsOpaque bytes offset
  let (signatureKey, credentialAt) ← readMlsOpaque bytes next
  refuse (signatureKey.length = 0)
  refuse (bytes.length < credentialAt + 2)
  let credentialType ← readUIntBE 2 bytes credentialAt
  refuse (credentialType ≠ 1)
  let (identity, _) ← readMlsOpaque bytes (credentialAt + 2)
  return ⟨base64Of signatureKey, utf8Text identity⟩

def readKeyPackageLeaf (keyPackageBase64 : JsString) : Answer KeyPackageLeaf := do
  let bytes := fromBase64 keyPackageBase64
  refuse (bytes.length < 4)
  let version ← readUIntBE 2 bytes 0
  refuse (version ≠ 1)
  let (_, next) ← readMlsOpaque bytes 4
  readLeafNodeHead bytes next

/-! ## The frame -/

def maxSafeInteger : Nat := 2 ^ 53 - 1

/-- `PublicMessage` (1) or `PrivateMessage` (2). -/
def framedWireFormat (bytes : Bytes) : Answer Nat := do
  refuse (bytes.length < 5)
  let version ← readUIntBE 2 bytes 0
  refuse (version ≠ 1)
  let wireFormat ← readUIntBE 2 bytes 2
  refuse (¬ (wireFormat = 1 ∨ wireFormat = 2))
  return wireFormat

structure FramedHeader where
  groupId : JsString
  epoch : Nat
  next : Nat

def readFramedHeader (bytes : Bytes) : Answer FramedHeader := do
  let (groupId, offset) ← readMlsOpaque bytes 4
  refuse (bytes.length < offset + 8)
  let epoch ← readUIntBE 8 bytes offset
  refuse (maxSafeInteger < epoch)
  return ⟨utf8Text groupId, epoch, offset + 8⟩

def mlsFrameEpoch (protoBase64 : JsString) : Answer Nat := do
  let bytes := fromBase64 protoBase64
  let _ ← framedWireFormat bytes
  let header ← readFramedHeader bytes
  return header.epoch

inductive CommitFrame where
  | member (groupId : JsString) (epoch : Nat)
  | external (groupId : JsString) (epoch : Nat) (leafIdentity : JsString) (removedLeaves : List Nat)
  deriving DecidableEq

def CommitFrame.epoch : CommitFrame → Nat
  | .member _ epoch => epoch
  | .external _ epoch _ _ => epoch

/-- The `while` loop of `readExternalCommitRemovals`. -/
def removalsLoop (proposals : Bytes) : Nat → Nat → List Nat → Answer (List Nat)
  | 0, _, _ => .unfinished
  | fuel + 1, offset, removed =>
    if proposals.length ≤ offset then .value removed
    else do
      refuse (proposals.length < offset + 3)
      let byValue ← readUIntBE 1 proposals offset
      refuse (byValue ≠ 1)
      let type ← readUIntBE 2 proposals (offset + 1)
      if type = 6 then do
        let (_, next) ← readMlsOpaque proposals (offset + 3)
        removalsLoop proposals fuel next removed
      else if type = 3 then do
        refuse (proposals.length < offset + 3 + 4)
        let leaf ← readUIntBE 4 proposals (offset + 3)
        removalsLoop proposals fuel (offset + 3 + 4) (removed ++ [leaf])
      else .null

def readExternalCommitRemovals (proposals : Bytes) : Answer (List Nat) :=
    removalsLoop proposals (proposals.length + 1) 0 []

/-- `bytes.length < offset + 1 || bytes.readUInt8(offset) !== expected`. -/
def expectByte (bytes : Bytes) (offset expected : Nat) : Answer Unit := do
  refuse (bytes.length < offset + 1)
  let byte ← readUIntBE 1 bytes offset
  refuse (byte ≠ expected)

/-- The branch of a `PublicMessage`. -/
def readExternalCommit (bytes : Bytes) (header : FramedHeader) : Answer CommitFrame := do
  expectByte bytes header.next 4
  let (_, offset) ← readMlsOpaque bytes (header.next + 1)
  expectByte bytes offset 3
  let (proposals, next) ← readMlsOpaque bytes (offset + 1)
  let removedLeaves ← readExternalCommitRemovals proposals
  expectByte bytes next 1
  let leaf ← readLeafNodeHead bytes (next + 1)
  return .external header.groupId header.epoch leaf.identity removedLeaves

def readCommitFrame (protoBase64 : JsString) : Answer CommitFrame := do
  let bytes := fromBase64 protoBase64
  let wireFormat ← framedWireFormat bytes
  let header ← readFramedHeader bytes
  if wireFormat = 2 then return .member header.groupId header.epoch
  else readExternalCommit bytes header

/-! ## Any bytes -/

theorem expectByte_settled (bytes : Bytes) (offset expected : Nat) : (expectByte bytes offset expected).Settled :=
  settled_refuse fun h => (readUIntBE_settled (by omega)).bind fun _ _ => Answer.refuse_settled _

theorem readLeafNodeHead_settled (bytes : Bytes) (offset : Nat) : (readLeafNodeHead bytes offset).Settled :=
  (readMlsOpaque_settled _ _).bind fun _ _ => (readMlsOpaque_settled _ _).bind fun _ _ => settled_refuse fun _ =>
    settled_refuse fun h => (readUIntBE_settled (by omega)).bind fun _ _ => settled_refuse fun _ =>
      (readMlsOpaque_settled _ _).bind fun _ _ => settled_value _

theorem framedWireFormat_settled (bytes : Bytes) : (framedWireFormat bytes).Settled :=
  settled_refuse fun h => (readUIntBE_settled (by omega)).bind fun _ _ => settled_refuse fun _ =>
    (readUIntBE_settled (by omega)).bind fun _ _ => settled_refuse fun _ => settled_value _

theorem readFramedHeader_settled (bytes : Bytes) : (readFramedHeader bytes).Settled :=
  (readMlsOpaque_settled _ _).bind fun _ _ => settled_refuse fun h => (readUIntBE_settled (by omega)).bind fun _ _ =>
    settled_refuse fun _ => settled_value _

theorem removalsLoop_settled (proposals : Bytes) {fuel offset : Nat} (removed : List Nat)
    (ho : offset ≤ proposals.length)
    (hf : proposals.length < offset + fuel) : (removalsLoop proposals fuel offset removed).Settled := by
  induction fuel generalizing offset removed with
  | zero => omega
  | succ fuel ih =>
    unfold removalsLoop
    split
    · exact settled_value _
    · refine settled_refuse fun h3 => (readUIntBE_settled (by omega)).bind fun _ _ => settled_refuse fun _ =>
        (readUIntBE_settled (by omega)).bind fun type _ => ?_
      split
      · refine (readMlsOpaque_settled _ _).bind fun (_, next) hv => ?_
        have hb := readMlsOpaque_bounds hv
        exact ih _ hb.2 (by omega)
      · split
        · exact settled_refuse fun h7 => (readUIntBE_settled (by omega)).bind fun _ _ => ih _ (by omega) (by omega)
        · exact settled_null

theorem readExternalCommitRemovals_settled (proposals : Bytes) : (readExternalCommitRemovals proposals).Settled :=
  removalsLoop_settled proposals [] (Nat.zero_le _) (by omega)

theorem readExternalCommit_settled (bytes : Bytes)
    (header : FramedHeader) : (readExternalCommit bytes header).Settled :=
  (expectByte_settled _ _ _).bind fun _ _ => (readMlsOpaque_settled _ _).bind fun _ _ =>
    (expectByte_settled _ _ _).bind fun _ _ =>
    (readMlsOpaque_settled _ _).bind fun _ _ => (readExternalCommitRemovals_settled _).bind fun _ _ =>
      (expectByte_settled _ _ _).bind fun _ _ =>
      (readLeafNodeHead_settled _ _).bind fun _ _ => settled_value _

theorem readCommitFrame_settled (protoBase64 : JsString) : (readCommitFrame protoBase64).Settled := by
  refine (framedWireFormat_settled _).bind fun _ _ => (readFramedHeader_settled _).bind fun header _ => ?_
  split
  · exact settled_value _
  · exact readExternalCommit_settled _ header

theorem mlsFrameEpoch_of_readCommitFrame {protoBase64 : JsString} {frame : CommitFrame}
    (h : readCommitFrame protoBase64 = .value frame) :
    mlsFrameEpoch protoBase64 = .value frame.epoch := by
  obtain ⟨wireFormat, hw, h⟩ := Answer.bind_eq_value h
  obtain ⟨header, hh, h⟩ := Answer.bind_eq_value h
  have hepoch : frame.epoch = header.epoch := by
    split at h
    · cases h
      rfl
    · obtain ⟨_, -, h⟩ := Answer.bind_eq_value h
      obtain ⟨_, -, h⟩ := Answer.bind_eq_value h
      obtain ⟨_, -, h⟩ := Answer.bind_eq_value h
      obtain ⟨_, -, h⟩ := Answer.bind_eq_value h
      obtain ⟨_, -, h⟩ := Answer.bind_eq_value h
      obtain ⟨_, -, h⟩ := Answer.bind_eq_value h
      obtain ⟨_, -, h⟩ := Answer.bind_eq_value h
      cases h
      rfl
  simp only [mlsFrameEpoch, hw, hh, hepoch, Answer.value_bind, Answer.pure_eq]

/-! ## An external commit and its cuts -/

def LeafNode.basicIdentity (l : LeafNode) : Option Bytes :=
  match l.credential with
  | .basic identity => if l.signatureKey.bytes.length = 0 then none else some identity.bytes
  | .x509 _ => none

def LeafNode.headLength (l : LeafNode) : Nat :=
    l.encryptionKey.encode.length + l.signatureKey.encode.length + l.credential.encode.length

/-- The leaves the proposals remove; none when one of them is not of the kind this service takes. -/
def removedBy : List Proposal → Option (List Nat)
  | [] => some []
  | .externalInit _ :: rest => removedBy rest
  | .remove removed :: rest => (removedBy rest).map (removed.toNat :: ·)
  | .preSharedKey _ :: _ => none

def wholeProposals : List Proposal → Nat → Option (List Proposal)
  | [], _ => some []
  | p :: rest, k =>
    if k = 0 then some [] else if k < p.encode.length then none else
      (wholeProposals rest (k - p.encode.length)).map (p :: ·)

section Cuts

variable {bytes rest : Bytes} {o k : Nat} {α : Type}

theorem expectByte_bind {expected : Nat} {f : Unit → Answer α} {r : Answer α}
    (h : Cut bytes o (beBytes 1 expected ++ rest) k) (he : expected < 256)
    (whole : ∀ k', k = 1 + k' → Cut bytes (o + 1) rest k' → f () = r)
    (cut : k < 1 → r = .null) : (expectByte bytes o expected >>= f) = r := by
  simp only [expectByte, Answer.bind_bind]
  refine number_bind h he (fun k' hk hc => ?_) cut
  rw [refuse_of_not (by omega)]
  exact whole k' hk hc

theorem readLeafNodeHead_cut {l : LeafNode} (h : Cut bytes o (l.encode ++ rest) k) :
    readLeafNodeHead bytes o =
      if l.headLength ≤ k then .ofOption (l.basicIdentity.map fun id => ⟨base64Of l.signatureKey.bytes, utf8Text id⟩)
        else .null := by
  simp only [LeafNode.encode, append_assoc] at h
  unfold LeafNode.headLength LeafNode.basicIdentity
  refine Opaque.bind h (fun _ k1 e1 h1 => ?_) fun hk => if_neg (by omega)
  refine Opaque.bind h1 (fun credentialAt k2 e2 h2 => ?_) fun hk => if_neg (by omega)
  simp only
  by_cases hs : l.signatureKey.bytes.length = 0
  · rw [refuse_of hs]
    cases l.credential <;> simp [hs, Answer.ofOption]
  · rw [refuse_of_not hs]
    cases hc : l.credential with
    | basic identity =>
      rw [hc] at h2
      simp only [Credential.encode, append_assoc, length_append, u16, length_beBytes] at h2 ⊢
      refine number_bind h2 (by decide) (fun k3 e3 h3 => ?_) fun hk => if_neg (by omega)
      refine Opaque.bind h3 (fun _ k4 e4 _ => ?_) fun hk => if_neg (by omega)
      rw [if_pos (by omega), if_neg hs]
      rfl
    | x509 certificates =>
      rw [hc] at h2
      simp only [Credential.encode, append_assoc, length_append, u16, length_beBytes] at h2 ⊢
      refine number_bind h2 (by decide) (fun k3 e3 h3 => ?_) fun hk => if_neg (by omega)
      rw [refuse_of (by decide)]
      simp [Answer.ofOption]

/-- The head of a proposal by value. -/
theorem removalsLoop_head {fuel : Nat} {removed : List Nat} {type : UInt16}
    (h : Cut bytes o (beBytes 1 1 ++ (u16 type ++ rest)) k) (hk : 0 < k) :
    removalsLoop bytes (fuel + 1) o removed =
      if k < 3 then .null
      else if type.toNat = 6 then do
        let (_, next) ← readMlsOpaque bytes (o + 3)
        removalsLoop bytes fuel next removed
      else if type.toNat = 3 then do
        refuse (bytes.length < o + 3 + 4)
        let leaf ← readUIntBE 4 bytes (o + 3)
        removalsLoop bytes fuel (o + 3 + 4) (removed ++ [leaf])
      else .null := by
  have hl := h.length_eq
  rw [removalsLoop, if_neg (by omega)]
  by_cases h3 : k < 3
  · rw [if_pos h3, refuse_of (by omega)]
  · have htype : Cut bytes (o + 1) (beBytes 2 type.toNat ++ rest) (k - 1) :=
      h.step (x := beBytes 1 1) (by rw [length_beBytes]; omega)
    have hlt := type.toNat_lt
    rw [if_neg h3, refuse_of_not (by omega), h.readUIntBE (by decide) (by omega), Answer.value_bind,
      refuse_of_not (by decide),
      htype.readUIntBE hlt (by omega), Answer.value_bind]

theorem step_head {type : UInt16} (h : Cut bytes o (beBytes 1 1 ++ (u16 type ++ rest)) k)
    (h3 : ¬ k < 3) : Cut bytes (o + 3) rest (k - 3) := by
  have hx : beBytes 1 1 ++ (u16 type ++ rest) = (beBytes 1 1 ++ u16 type) ++ rest := (append_assoc _ _ _).symm
  rw [hx] at h
  exact h.step (by rw [length_append, u16, length_beBytes, length_beBytes]; omega)

theorem Proposal.length_encode_ge (p : Proposal) : 3 ≤ p.encode.length := by
  cases p <;> simp only [Proposal.encode, u16, length_append, length_beBytes] <;> omega

theorem removalsLoop_cut {ps : List Proposal} {fuel : Nat} {removed : List Nat}
    (h : Cut bytes o (ps.flatMap Proposal.encode) k) (hf : k < fuel) :
    removalsLoop bytes fuel o removed = .ofOption
      ((wholeProposals ps k).bind fun whole => (removedBy whole).map (removed ++ ·)) := by
  induction ps generalizing o k fuel removed with
  | nil =>
    obtain ⟨g, rfl⟩ : ∃ g, fuel = g + 1 := ⟨fuel - 1, by omega⟩
    have hl := h.length_eq
    have hk : k ≤ 0 := h.le_length
    rw [removalsLoop, if_pos (by omega), wholeProposals, bind_some, removedBy, map_some, append_nil, Answer.ofOption]
  | cons p ps ih =>
    obtain ⟨g, rfl⟩ : ∃ g, fuel = g + 1 := ⟨fuel - 1, by omega⟩
    have hl := h.length_eq
    have hlen := p.length_encode_ge
    rw [flatMap_cons] at h
    rw [wholeProposals]
    by_cases hk : k = 0
    · rw [if_pos hk, removalsLoop, if_pos (by omega), bind_some, removedBy, map_some, append_nil, Answer.ofOption]
    · rw [if_neg hk]
      have hcut : k < p.encode.length → Answer.ofOption ((if k < p.encode.length then none
          else (wholeProposals ps (k - p.encode.length)).map (p :: ·)).bind
            fun whole => (removedBy whole).map (removed ++ ·)) = .null := by
        intro hlt
        rw [if_pos hlt]
        rfl
      -- The cut is in the head, in the body, or behind the proposal.
      cases p with
      | externalInit kemOutput =>
        have henc : (Proposal.externalInit kemOutput).encode.length = 3 + kemOutput.encode.length := by
          simp only [Proposal.encode, u16, length_append, length_beBytes]
          omega
        rw [removalsLoop_head h (by omega)]
        by_cases h3 : k < 3
        · rw [if_pos h3, hcut (by omega)]
        · rw [if_neg h3]
          refine Opaque.bind (step_head h h3) (fun next k' e hc => ?_) fun hlt => hcut (by omega)
          rw [if_neg (by omega), show k - (Proposal.externalInit kemOutput).encode.length = k' by omega]
          refine (ih hc (by omega)).trans ?_
          cases wholeProposals ps k' <;> rfl
      | remove leaf =>
        have henc : (Proposal.remove leaf).encode.length = 7 := by
          simp [Proposal.encode, u16, u32, length_beBytes]
        have hleaf := leaf.toNat_lt
        rw [removalsLoop_head h (by omega)]
        by_cases h3 : k < 3
        · rw [if_pos h3, hcut (by omega)]
        · rw [if_neg h3]
          refine number_bind (step_head h h3) hleaf (fun k' e hc => ?_) fun hlt => hcut (by omega)
          rw [if_neg (by omega), show k - (Proposal.remove leaf).encode.length = k' by omega, ih hc (by omega)]
          cases wholeProposals ps k' with
          | none => rfl
          | some whole =>
            simp only [bind_some, map_some, removedBy, Option.map_map]
            cases removedBy whole with
            | none => rfl
            | some leaves => simp [Answer.ofOption]
      | preSharedKey psk =>
        rw [removalsLoop_head h (by omega)]
        by_cases hlt : k < (Proposal.preSharedKey psk).encode.length
        · rw [hcut hlt]
          split
          · rfl
          · rw [if_neg (by decide), if_neg (by decide)]
        · rw [if_neg (by omega), if_neg hlt]
          cases wholeProposals ps (k - (Proposal.preSharedKey psk).encode.length) <;> rfl

end Cuts

theorem wholeProposals_of_le {ps : List Proposal} {k : Nat}
    (h : (ps.flatMap Proposal.encode).length ≤ k) : wholeProposals ps k = some ps := by
  induction ps generalizing k with
  | nil => rfl
  | cons p ps ih =>
    have hlen := p.length_encode_ge
    rw [flatMap_cons, length_append] at h
    rw [wholeProposals, if_neg (by omega), if_neg (by omega), ih (by omega), map_some]

theorem readExternalCommitRemovals_take (ps : List Proposal) (n : Nat) :
    readExternalCommitRemovals ((ps.flatMap Proposal.encode).take n) = .ofOption
      ((wholeProposals ps n).bind removedBy) := by
  have hc := Cut.of_take (ps.flatMap Proposal.encode) n
  have hl := hc.length_eq
  have hwhole : wholeProposals ps (min n (ps.flatMap Proposal.encode).length) = wholeProposals ps n := by
    by_cases hn : n ≤ (ps.flatMap Proposal.encode).length
    · rw [Nat.min_eq_left hn]
    · rw [Nat.min_eq_right (by omega), wholeProposals_of_le (Nat.le_refl _), wholeProposals_of_le (by omega)]
  rw [readExternalCommitRemovals, removalsLoop_cut hc (by omega), hwhole]
  cases wholeProposals ps n with
  | none => rfl
  | some whole => cases h : removedBy whole <;> simp [h]

theorem readExternalCommitRemovals_encode (ps : List Proposal) :
    readExternalCommitRemovals (ps.flatMap Proposal.encode) = .ofOption (removedBy ps) := by
  have h := readExternalCommitRemovals_take ps (ps.flatMap Proposal.encode).length
  rwa [take_length, wholeProposals_of_le (Nat.le_refl _)] at h

variable (c : ExternalCommit)

def ExternalCommit.headLength : Nat :=
  4 + c.groupId.encode.length + 8 + 1 + c.authenticatedData.encode.length + 1 + c.proposals.encode.length + 1 +
    c.path.leafNode.headLength

/-- What the service takes from a commit; none when the commit is not of the kind it takes. -/
def ExternalCommit.frame : Option CommitFrame :=
  if maxSafeInteger < c.epoch.toNat then none
  else (removedBy c.proposals.items).bind fun removed => c.path.leafNode.basicIdentity.map fun identity =>
    .external (utf8Text c.groupId.bytes) c.epoch.toNat (utf8Text identity) removed

theorem ExternalCommit.headLength_le : c.headLength ≤ c.encode.length := by
  simp only [headLength, encode, LeafNode.headLength, LeafNode.encode, u16, u64, length_append, length_beBytes]
  omega

theorem framedWireFormat_cut {bytes rest : Bytes} {k : Nat} (h : Cut bytes 0 (u16 1 ++ (u16 1 ++ rest)) k) :
    framedWireFormat bytes = if k < 5 then .null else .value 1 := by
  have hl := h.length_eq
  unfold framedWireFormat
  by_cases h5 : k < 5
  · rw [if_pos h5, refuse_of (by omega)]
  · have h2 : Cut bytes 2 (u16 1 ++ rest) (k - 2) := h.step (x := u16 1) (by rw [u16, length_beBytes]; omega)
    rw [if_neg h5, refuse_of_not (by omega), h.readUIntBE (by decide) (by omega), Answer.value_bind,
      refuse_of_not (by decide),
      h2.readUIntBE (by decide) (by omega), Answer.value_bind, refuse_of_not (by decide)]
    rfl

/-- Behind the epoch. -/
theorem readExternalCommit_cut {c : ExternalCommit} {bytes rest : Bytes} {k : Nat} {header : FramedHeader}
    (h : Cut bytes header.next (beBytes 1 4 ++ (c.authenticatedData.encode ++ (beBytes 1 3 ++ (c.proposals.encode ++
      (beBytes 1 1 ++ (c.path.leafNode.encode ++ rest)))))) k) :
    readExternalCommit bytes header =
      if 1 + c.authenticatedData.encode.length + 1 + c.proposals.encode.length + 1 + c.path.leafNode.headLength ≤ k then
        .ofOption ((removedBy c.proposals.items).bind fun removed => c.path.leafNode.basicIdentity.map fun identity =>
          .external header.groupId header.epoch (utf8Text identity) removed)
      else .null := by
  refine expectByte_bind h (by decide) (fun k1 e1 h1 => ?_) fun hk => if_neg (by omega)
  refine Opaque.bind h1 (fun _ k2 e2 h2 => ?_) fun hk => if_neg (by omega)
  refine expectByte_bind h2 (by decide) (fun k3 e3 h3 => ?_) fun hk => if_neg (by omega)
  refine Listed.bind h3 (fun _ k4 e4 h4 => ?_) fun hk => if_neg (by omega)
  simp only [readExternalCommitRemovals_encode]
  cases removedBy c.proposals.items with
  | none => exact (ite_self _).symm
  | some removed =>
    refine expectByte_bind h4 (by decide) (fun k5 e5 h5 => ?_) fun hk => if_neg (by omega)
    rw [readLeafNodeHead_cut h5]
    by_cases hk : c.path.leafNode.headLength ≤ k5
    · rw [if_pos hk, if_pos (by omega)]
      cases c.path.leafNode.basicIdentity <;> rfl
    · rw [if_neg hk, if_neg (by omega), Answer.null_bind]

theorem readCommitFrame_cut {c : ExternalCommit} {bytes : Bytes} {k : Nat} (h : Cut bytes 0 c.encode k) :
    readCommitFrame (base64Of bytes) = if c.headLength ≤ k then .ofOption c.frame else .null := by
  have hepoch := c.epoch.toNat_lt
  unfold ExternalCommit.headLength ExternalCommit.frame
  simp only [readCommitFrame, fromBase64_base64Of, framedWireFormat_cut h]
  by_cases h5 : k < 5
  · rw [if_pos h5, Answer.null_bind, if_neg (by omega)]
  · have h4 : Cut bytes 4 (c.groupId.encode ++ _) (k - 4) :=
      (h.step (x := u16 1) (by rw [u16, length_beBytes]; omega)).step (x := u16 1) (by rw [u16, length_beBytes]; omega)
    rw [if_neg h5]
    simp only [readFramedHeader, Answer.bind_bind]
    refine Opaque.bind h4 (fun offset k1 e1 h1 => ?_) fun hk => if_neg (by omega)
    refine number_bind h1 hepoch (fun k2 e2 h2 => ?_) fun hk => if_neg (by omega)
    by_cases hsafe : maxSafeInteger < c.epoch.toNat
    · rw [refuse_of hsafe, if_pos hsafe]
      exact (ite_self _).symm
    · rw [refuse_of_not hsafe, if_neg hsafe, Answer.pure_eq, Answer.value_bind, if_neg (by decide),
        readExternalCommit_cut h2]
      by_cases hk : c.headLength ≤ k
      · unfold ExternalCommit.headLength at hk
        rw [if_pos (by omega), if_pos hk]
      · unfold ExternalCommit.headLength at hk
        rw [if_neg (by omega), if_neg hk]

theorem readCommitFrame_take (n : Nat) :
    readCommitFrame (base64Of (c.encode.take n)) = if c.headLength ≤ n then .ofOption c.frame else .null := by
  have hlen := c.headLength_le
  rw [readCommitFrame_cut (Cut.of_take c.encode n)]
  by_cases hn : c.headLength ≤ n
  · rw [if_pos hn, if_pos (by omega)]
  · rw [if_neg hn, if_neg (by omega)]

/-- Of every external commit and every cut of it the service reads what `frame` says, if the cut
    leaves the credential of the new leaf whole, and null if not; on any text it comes back, and
    with the epoch of the frame. An id that is the UTF-8 of a text is read as that text. -/
theorem external_commits_are_read :
    (∀ (c : ExternalCommit) (n : Nat),
      readCommitFrame (base64Of (c.encode.take n)) = if c.headLength ≤ n then .ofOption c.frame else .null) ∧
      (∀ (ps : List Proposal) (n : Nat),
        readExternalCommitRemovals ((ps.flatMap Proposal.encode).take n) = .ofOption
          ((wholeProposals ps n).bind removedBy)) ∧
      (∀ text : JsString, Utf16.isWellFormed text = true → utf8Text (Utf16.utf8Of text) = text) ∧
      (∀ proto : JsString, (readCommitFrame proto).Settled) ∧
      (∀ proposals : Bytes, (readExternalCommitRemovals proposals).Settled) ∧
      ∀ (proto : JsString) (frame : CommitFrame), readCommitFrame proto = .value frame →
        mlsFrameEpoch proto = .value frame.epoch :=
  ⟨readCommitFrame_take, readExternalCommitRemovals_take, fun _ h => utf8Text_utf8Of h, readCommitFrame_settled,
    readExternalCommitRemovals_settled, fun _ _ h => mlsFrameEpoch_of_readCommitFrame h⟩

/-! ## Commits it does not read -/

def shortBytes (bytes : Bytes) (h : bytes.length < 64) : Opaque := ⟨bytes, Nat.lt_trans h (by decide)⟩

def emptyList {α : Type} (enc : α → Bytes) : Listed enc := ⟨[], Nat.two_pow_pos 30⟩

def noBytes : Opaque := shortBytes [] (by decide)

def oneByte (b : UInt8) : Opaque := shortBytes [b] (by simp)

def joinCommit (epoch : UInt64) : ExternalCommit where
  groupId := shortBytes [0x67] (by decide)
  epoch := epoch
  authenticatedData := shortBytes [] (by decide)
  proposals := ⟨[.externalInit (shortBytes [1, 2] (by decide))], by decide⟩
  path :=
    { leafNode :=
        { encryptionKey := shortBytes [3] (by decide)
          signatureKey := shortBytes [4] (by decide)
          credential := .basic (shortBytes [0x75] (by decide))
          capabilities := ⟨emptyList _, emptyList _, emptyList _, emptyList _, emptyList _⟩
          source := .commit (shortBytes [] (by decide))
          extensions := emptyList _
          signature := shortBytes [5] (by decide) }
      nodes := emptyList _ }
  signature := shortBytes [6] (by decide)
  confirmationTag := shortBytes [7] (by decide)

/-- At epoch 2^53 the commit is not read; at epoch 1 it is, also when it is cut behind the
    credential. -/
theorem not_every_commit_is_read :
    readCommitFrame (base64Of (joinCommit (2 ^ 53)).encode) = .null ∧
      (joinCommit 1).headLength < (joinCommit 1).encode.length ∧
      readCommitFrame (base64Of ((joinCommit 1).encode.take (joinCommit 1).headLength)) = .value
        (.external [0x67] 1 [0x75] []) := by
  refine ⟨by decide +kernel, by decide +kernel, by decide +kernel⟩

end Canari.Delivery
