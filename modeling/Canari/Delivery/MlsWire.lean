/-
  Canari.Delivery.MlsWire — the messages of RFC 9420 the delivery service looks into, as a
  conforming writer encodes them: an external commit in a `PublicMessage`, and a `GroupInfo` with
  its ratchet tree. Each carries all its fields, also those the service never reads.
-/

import Canari.Delivery.MlsTls

namespace Canari.Delivery

open Lib Lib.Buffer

/-! ## Leaves -/

inductive Credential where
  | basic (identity : Opaque)
  | x509 (certificates : Listed Opaque.encode)

def Credential.encode : Credential → Bytes
  | .basic identity => u16 1 ++ identity.encode
  | .x509 certificates => u16 2 ++ certificates.encode

structure Capabilities where
  versions : Listed u16
  cipherSuites : Listed u16
  extensions : Listed u16
  proposals : Listed u16
  credentials : Listed u16

def Capabilities.encode (c : Capabilities) : Bytes :=
  c.versions.encode ++ (c.cipherSuites.encode ++ (c.extensions.encode ++ (c.proposals.encode ++ c.credentials.encode)))

inductive LeafNodeSource where
  | keyPackage (notBefore notAfter : UInt64)
  | update
  | commit (parentHash : Opaque)

def LeafNodeSource.encode : LeafNodeSource → Bytes
  | .keyPackage notBefore notAfter => beBytes 1 1 ++ (u64 notBefore ++ u64 notAfter)
  | .update => beBytes 1 2
  | .commit parentHash => beBytes 1 3 ++ parentHash.encode

structure Extension where
  extensionType : UInt16
  data : Opaque

def Extension.encode (e : Extension) : Bytes := u16 e.extensionType ++ e.data.encode

structure LeafNode where
  encryptionKey : Opaque
  signatureKey : Opaque
  credential : Credential
  capabilities : Capabilities
  source : LeafNodeSource
  extensions : Listed Extension.encode
  signature : Opaque

def LeafNode.encode (l : LeafNode) : Bytes :=
  l.encryptionKey.encode ++ (l.signatureKey.encode ++ (l.credential.encode ++ (l.capabilities.encode ++
    (l.source.encode ++ (l.extensions.encode ++ l.signature.encode)))))

/-! ## An external commit -/

inductive PreSharedKeyId where
  | external (pskId pskNonce : Opaque)
  | resumption (usage : UInt8) (pskGroupId : Opaque) (pskEpoch : UInt64) (pskNonce : Opaque)

def PreSharedKeyId.encode : PreSharedKeyId → Bytes
  | .external pskId pskNonce => beBytes 1 1 ++ (pskId.encode ++ pskNonce.encode)
  | .resumption usage pskGroupId pskEpoch pskNonce =>
    beBytes 1 2 ++ (beBytes 1 usage.toNat ++ (pskGroupId.encode ++ (u64 pskEpoch ++ pskNonce.encode)))

inductive Proposal where
  | externalInit (kemOutput : Opaque)
  | remove (removed : UInt32)
  | preSharedKey (psk : PreSharedKeyId)

def Proposal.encode : Proposal → Bytes
  | .externalInit kemOutput => beBytes 1 1 ++ (u16 6 ++ kemOutput.encode)
  | .remove removed => beBytes 1 1 ++ (u16 3 ++ u32 removed)
  | .preSharedKey psk => beBytes 1 1 ++ (u16 4 ++ psk.encode)

structure HpkeCiphertext where
  kemOutput : Opaque
  ciphertext : Opaque

def HpkeCiphertext.encode (c : HpkeCiphertext) : Bytes := c.kemOutput.encode ++ c.ciphertext.encode

structure UpdatePathNode where
  encryptionKey : Opaque
  encryptedPathSecret : Listed HpkeCiphertext.encode

def UpdatePathNode.encode (n : UpdatePathNode) : Bytes := n.encryptionKey.encode ++ n.encryptedPathSecret.encode

structure UpdatePath where
  leafNode : LeafNode
  nodes : Listed UpdatePathNode.encode

structure ExternalCommit where
  groupId : Opaque
  epoch : UInt64
  authenticatedData : Opaque
  proposals : Listed Proposal.encode
  path : UpdatePath
  signature : Opaque
  confirmationTag : Opaque

/-- The `MLSMessage`: version 1, a `PublicMessage`, from a new member (4), a commit (3), with a
    path. -/
def ExternalCommit.encode (c : ExternalCommit) : Bytes :=
  u16 1 ++ (u16 1 ++ (c.groupId.encode ++ (u64 c.epoch ++ (beBytes 1 4 ++ (c.authenticatedData.encode ++ (beBytes 1 3 ++
    (c.proposals.encode ++ (beBytes 1 1 ++ (c.path.leafNode.encode ++ (c.path.nodes.encode ++
      (c.signature.encode ++ c.confirmationTag.encode)))))))))))

/-! ## A group info -/

structure ParentNode where
  encryptionKey : Opaque
  parentHash : Opaque
  unmergedLeaves : Listed u32

def ParentNode.encode (p : ParentNode) : Bytes :=
    p.encryptionKey.encode ++ (p.parentHash.encode ++ p.unmergedLeaves.encode)

inductive Node where
  | leaf (l : LeafNode)
  | parent (p : ParentNode)

/-- `optional<Node>`. -/
def encodeNode : Option Node → Bytes
  | none => beBytes 1 0
  | some (.leaf l) => beBytes 1 1 ++ (beBytes 1 1 ++ l.encode)
  | some (.parent p) => beBytes 1 1 ++ (beBytes 1 2 ++ p.encode)

structure GroupInfo where
  cipherSuite : UInt16
  groupId : Opaque
  epoch : UInt64
  treeHash : Opaque
  confirmedTranscriptHash : Opaque
  contextExtensions : Listed Extension.encode
  /-- The extensions before the ratchet tree: none of them is one. -/
  before : List Extension
  before_ne : ∀ e ∈ before, e.extensionType ≠ 2
  tree : Listed encodeNode
  treeFits : tree.encode.length < maxVec
  after : List Extension
  fits : (before.flatMap Extension.encode ++
    (u16 2 ++ vec tree.encode ++ after.flatMap Extension.encode)).length < maxVec
  confirmationTag : Opaque
  signer : UInt32
  signature : Opaque

def GroupInfo.extensionBytes (g : GroupInfo) : Bytes :=
  g.before.flatMap Extension.encode ++ (u16 2 ++ vec g.tree.encode ++ g.after.flatMap Extension.encode)

/-- The `MLSMessage`: version 1, a `GroupInfo` (4), whose context is of version 1. -/
def GroupInfo.encode (g : GroupInfo) : Bytes :=
  u16 1 ++ (u16 4 ++ (u16 1 ++ (u16 g.cipherSuite ++ (g.groupId.encode ++ (u64 g.epoch ++ (g.treeHash.encode ++
    (g.confirmedTranscriptHash.encode ++ (g.contextExtensions.encode ++ (vec g.extensionBytes ++
      (g.confirmationTag.encode ++ (u32 g.signer ++ g.signature.encode)))))))))))

end Canari.Delivery
