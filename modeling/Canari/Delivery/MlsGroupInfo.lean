/-
  Canari.Delivery.MlsGroupInfo — whose leaf an external commit removes
  (`apps/chat-delivery-service/src/utils/mls-group-info.ts`: `groupInfoLeafIdentity`).

  The service finds the ratchet tree among the extensions of a `GroupInfo` and walks its nodes up
  to node `2i`: every node before it is skipped by its own fields. A leaf whose credential is not
  a basic one is not skipped, it ends the walk.
  - `leaf_identities_are_read`: so the identity of leaf `i` is found when node `2i` is a leaf and
    every leaf up to it has a basic credential.
-/

import Canari.Delivery.MlsFrameEpoch

namespace Canari.Delivery

open Lib Lib.Buffer List Option
open Lib.Utf16 (JsString)
open Lib.Buffer.Answer (refuse refuse_of refuse_of_not)

/-! ## The code -/

/-- `count` vectors in a row. -/
def skipOpaques (bytes : Bytes) : Nat → Nat → Answer Nat
  | 0, offset => .value offset
  | count + 1, offset => do
    let (_, next) ← readMlsOpaque bytes offset
    skipOpaques bytes count next

/-- The `while` loop over the extensions. -/
def extensionLoop (list : Bytes) : Nat → Nat → Answer Bytes
  | 0, _ => .unfinished
  | fuel + 1, offset =>
    if list.length ≤ offset then .null
    else do
      refuse (list.length < offset + 2)
      let type ← readUIntBE 2 list offset
      let (data, next) ← readMlsOpaque list (offset + 2)
      if type = 2 then do
        let (tree, _) ← readMlsOpaque data 0
        return tree
      else extensionLoop list fuel next

def readRatchetTreeExtension (bytes : Bytes) : Answer Bytes := do
  refuse (bytes.length < 4)
  let version ← readUIntBE 2 bytes 0
  refuse (version ≠ 1)
  let wireFormat ← readUIntBE 2 bytes 2
  refuse (wireFormat ≠ 4)
  let (_, next) ← readMlsOpaque bytes (4 + 4)
  let offset ← skipOpaques bytes 3 (next + 8)
  let (list, _) ← readMlsOpaque bytes offset
  extensionLoop list (list.length + 1) 0

def skipLeafSource (bytes : Bytes) (offset : Nat) : Answer Nat := do
  refuse (bytes.length ≤ offset)
  let source ← readUIntBE 1 bytes offset
  if source = 1 then return offset + 1 + 16
  else if source = 3 then do
    let (_, next) ← readMlsOpaque bytes (offset + 1)
    return next
  else do
    refuse (source ≠ 2)
    return offset + 1

def readLeafNode (bytes : Bytes) (offset : Nat) : Answer (JsString × Nat) := do
  let (_, next) ← readMlsOpaque bytes offset
  let (_, credentialAt) ← readMlsOpaque bytes next
  refuse (bytes.length < credentialAt + 2)
  let credentialType ← readUIntBE 2 bytes credentialAt
  refuse (credentialType ≠ 1)
  let (identity, next) ← readMlsOpaque bytes (credentialAt + 2)
  let next ← skipOpaques bytes 5 next
  let next ← skipLeafSource bytes next
  let next ← skipOpaques bytes 2 next
  return (utf8Text identity, next)

def skipParentNode (bytes : Bytes) (offset : Nat) : Answer Nat := skipOpaques bytes 3 offset

/-- The `for` loop over the nodes. -/
def nodeLoop (tree : Bytes) (target : Nat) : Nat → Nat → Nat → Answer JsString
  | 0, _, _ => .unfinished
  | fuel + 1, node, offset =>
    if tree.length ≤ offset then .null
    else do
      let present ← readUIntBE 1 tree offset
      if present = 0 then
        if node = target then .null else nodeLoop tree target fuel (node + 1) (offset + 1)
      else do
        refuse (present ≠ 1 ∨ tree.length ≤ offset + 1)
        let nodeType ← readUIntBE 1 tree (offset + 1)
        if nodeType = 1 then do
          let (identity, next) ← readLeafNode tree (offset + 2)
          if node = target then return identity else nodeLoop tree target fuel (node + 1) next
        else if nodeType = 2 then do
          let next ← skipParentNode tree (offset + 2)
          nodeLoop tree target fuel (node + 1) next
        else .null

def groupInfoLeafIdentity (groupInfoBase64 : JsString) (leafIndex : Nat) : Answer JsString := do
  let tree ← readRatchetTreeExtension (fromBase64 groupInfoBase64)
  nodeLoop tree (leafIndex * 2) (tree.length + 1) 0 0

/-! ## Whole fields -/

/-- From here on the buffer holds these bytes, and ends. -/
def Holds (bytes : Bytes) (o : Nat) (rest : Bytes) : Prop := Cut bytes o rest rest.length

section Holds

variable {bytes rest v : Bytes} {o n : Nat}

theorem Holds.vec (h : Holds bytes o (vec v ++ rest)) (hv : v.length < maxVec) :
    ∃ next, readMlsOpaque bytes o = .value (v, next) ∧ Holds bytes next rest := by
  have hlen : (Delivery.vec v ++ rest).length = (Delivery.vec v).length + rest.length := length_append
  have hstep := Cut.step h (by omega)
  rw [hlen, Nat.add_sub_cancel_left] at hstep
  refine ⟨_, ?_, hstep⟩
  rw [readMlsOpaque_cut h hv, if_pos (by omega)]

theorem Holds.number {w : Nat} (h : Holds bytes o (beBytes w n ++ rest)) (hn : n < 256 ^ w) :
    o + w ≤ bytes.length ∧ readUIntBE w bytes o = .value n ∧ Holds bytes (o + w) rest := by
  have hlen : (beBytes w n ++ rest).length = w + rest.length := by rw [length_append, length_beBytes]
  have hl := Cut.length_eq h
  have hstep := Cut.step h (by rw [length_beBytes]; omega)
  rw [hlen, length_beBytes, Nat.add_sub_cancel_left] at hstep
  exact ⟨by omega, Cut.readUIntBE h hn (by omega), hstep⟩

/-- Vectors in a row. -/
theorem Holds.skip {xs : List Opaque} (h : Holds bytes o (xs.flatMap Opaque.encode ++ rest)) :
    ∃ next, skipOpaques bytes xs.length o = .value next ∧ Holds bytes next rest := by
  induction xs generalizing o with
  | nil => exact ⟨o, rfl, h⟩
  | cons x xs ih =>
    rw [flatMap_cons, append_assoc] at h
    obtain ⟨next, hread, hnext⟩ := h.vec x.fits
    obtain ⟨last, hskip, hlast⟩ := ih hnext
    refine ⟨last, ?_, hlast⟩
    rw [length_cons, skipOpaques, hread]
    exact hskip

/-! ## Nodes -/

theorem skipLeafSource_holds {source : LeafNodeSource} (h : Holds bytes o (source.encode ++ rest)) :
    ∃ next, skipLeafSource bytes o = .value next ∧ Holds bytes next rest := by
  unfold skipLeafSource
  cases source with
  | keyPackage notBefore notAfter =>
    simp only [LeafNodeSource.encode, append_assoc] at h
    obtain ⟨hl, hsource, h1⟩ := h.number (by decide)
    obtain ⟨-, -, h2⟩ := h1.number notBefore.toNat_lt
    obtain ⟨-, -, h3⟩ := h2.number notAfter.toNat_lt
    refine ⟨_, ?_, h3⟩
    rw [refuse_of_not (by omega), hsource]
    rfl
  | update =>
    obtain ⟨hl, hsource, h1⟩ := Holds.number h (by decide)
    refine ⟨_, ?_, h1⟩
    rw [refuse_of_not (by omega), hsource, Answer.value_bind, if_neg (by decide), if_neg (by decide),
      refuse_of_not (by decide)]
    rfl
  | commit parentHash =>
    simp only [LeafNodeSource.encode, append_assoc] at h
    obtain ⟨hl, hsource, h1⟩ := h.number (by decide)
    obtain ⟨next, hread, h2⟩ := h1.vec parentHash.fits
    refine ⟨next, ?_, h2⟩
    rw [refuse_of_not (by omega), hsource, Answer.value_bind, hread, Answer.value_bind]
    rfl

theorem skipCapabilities_holds {c : Capabilities} (h : Holds bytes o (c.encode ++ rest)) :
    ∃ next, skipOpaques bytes 5 o = .value next ∧ Holds bytes next rest := by
  have henc : c.encode = [c.versions.contents, c.cipherSuites.contents, c.extensions.contents, c.proposals.contents,
      c.credentials.contents].flatMap Opaque.encode := by
    simp [Capabilities.encode, Listed.encode]
  rw [henc] at h
  exact h.skip

theorem skipParentNode_holds {p : ParentNode} (h : Holds bytes o (p.encode ++ rest)) :
    ∃ next, skipParentNode bytes o = .value next ∧ Holds bytes next rest := by
  have henc : p.encode = [p.encryptionKey, p.parentHash, p.unmergedLeaves.contents].flatMap Opaque.encode := by
    simp [ParentNode.encode, Listed.encode]
  rw [henc] at h
  exact h.skip

theorem readLeafNode_basic {l : LeafNode} {identity : Opaque} (hc : l.credential = .basic identity)
    (h : Holds bytes o (l.encode ++ rest)) :
    ∃ next, readLeafNode bytes o = .value (utf8Text identity.bytes, next) ∧ Holds bytes next rest := by
  simp only [LeafNode.encode, hc, Credential.encode, append_assoc] at h
  obtain ⟨n1, r1, h1⟩ := h.vec l.encryptionKey.fits
  obtain ⟨n2, r2, h2⟩ := h1.vec l.signatureKey.fits
  obtain ⟨hl, r3, h3⟩ := h2.number (by decide)
  obtain ⟨n4, r4, h4⟩ := h3.vec identity.fits
  obtain ⟨n5, r5, h5⟩ := skipCapabilities_holds h4
  obtain ⟨n6, r6, h6⟩ := skipLeafSource_holds h5
  have htail : l.extensions.encode ++
    (l.signature.encode ++ rest) = [l.extensions.contents, l.signature].flatMap Opaque.encode ++ rest := by
    simp [Listed.encode]
  rw [htail] at h6
  obtain ⟨n7, r7, h7⟩ := h6.skip
  rw [show [l.extensions.contents, l.signature].length = 2 from rfl] at r7
  refine ⟨n7, ?_, h7⟩
  unfold readLeafNode
  rw [r1]
  simp only [r2, Answer.value_bind]
  rw [refuse_of_not (by omega), r3, Answer.value_bind, refuse_of_not (by decide), r4]
  simp only [r5, r6, r7, Answer.value_bind, Answer.pure_eq]

theorem readLeafNode_x509 {l : LeafNode} {certificates : Listed Opaque.encode} (hc : l.credential = .x509 certificates)
    (h : Holds bytes o (l.encode ++ rest)) : readLeafNode bytes o = .null := by
  simp only [LeafNode.encode, hc, Credential.encode, append_assoc] at h
  obtain ⟨n1, r1, h1⟩ := h.vec l.encryptionKey.fits
  obtain ⟨n2, r2, h2⟩ := h1.vec l.signatureKey.fits
  obtain ⟨hl, r3, h3⟩ := h2.number (by decide)
  unfold readLeafNode
  rw [r1]
  simp only [r2, Answer.value_bind]
  rw [refuse_of_not (by omega), r3, Answer.value_bind, refuse_of (by decide)]

end Holds

/-! ## The tree -/

def LeafNode.identityText (l : LeafNode) : Option JsString :=
  match l.credential with
  | .basic identity => some (utf8Text identity.bytes)
  | .x509 _ => none

def lookFrom (target : Nat) : Nat → List (Option Node) → Option JsString
  | _, [] => none
  | node, none :: rest => if node = target then none else lookFrom target (node + 1) rest
  | node, some (.leaf l) :: rest =>
      l.identityText.bind fun identity => if node = target then some identity else lookFrom target (node + 1) rest
  | node, some (.parent _) :: rest => lookFrom target (node + 1) rest

theorem length_encodeNode_pos (x : Option Node) : 1 ≤ (encodeNode x).length := by
  cases x with
  | none => exact Nat.le_refl 1
  | some node => cases node <;> simp only [encodeNode, length_append, length_beBytes] <;> omega

theorem nodeLoop_holds {tree : Bytes} {target fuel node o : Nat} {nodes : List (Option Node)}
    (h : Holds tree o (nodes.flatMap encodeNode))
    (hf : (nodes.flatMap encodeNode).length < fuel) :
    nodeLoop tree target fuel node o = .ofOption (lookFrom target node nodes) := by
  induction nodes generalizing node o fuel with
  | nil =>
    obtain ⟨g, rfl⟩ : ∃ g, fuel = g + 1 := ⟨fuel - 1, by omega⟩
    have hl : tree.length = o + 0 := Cut.length_eq h
    rw [nodeLoop, if_pos (by omega), lookFrom, Answer.ofOption]
  | cons x rest ih =>
    obtain ⟨g, rfl⟩ : ∃ g, fuel = g + 1 := ⟨fuel - 1, by omega⟩
    have hpos := length_encodeNode_pos x
    rw [flatMap_cons] at h hf
    rw [length_append] at hf
    cases x with
    | none =>
      obtain ⟨hl, hread, h1⟩ := Holds.number h (by decide)
      rw [nodeLoop, if_neg (by omega), hread, Answer.value_bind, if_pos rfl, lookFrom]
      by_cases ht : node = target
      · rw [if_pos ht, if_pos ht, Answer.ofOption]
      · rw [if_neg ht, if_neg ht, ih h1 (by omega)]
    | some x =>
      cases x with
      | leaf l =>
        simp only [encodeNode, append_assoc] at h
        obtain ⟨hl, hread, h1⟩ := h.number (by decide)
        obtain ⟨hl1, htype, h2⟩ := h1.number (by decide)
        rw [nodeLoop, if_neg (by omega), hread, Answer.value_bind, if_neg (by decide), refuse_of_not (by omega),
          htype, Answer.value_bind,
          if_pos rfl, lookFrom, LeafNode.identityText]
        cases hc : l.credential with
        | basic identity =>
          obtain ⟨next, hleaf, h3⟩ := readLeafNode_basic hc h2
          rw [hleaf]
          by_cases ht : node = target
          · simp only [if_pos ht]
            rfl
          · simp only [if_neg ht]
            exact ih h3 (by omega)
        | x509 certificates =>
          rw [readLeafNode_x509 hc h2]
          rfl
      | parent p =>
        simp only [encodeNode, append_assoc] at h
        obtain ⟨hl, hread, h1⟩ := h.number (by decide)
        obtain ⟨hl1, htype, h2⟩ := h1.number (by decide)
        obtain ⟨next, hskip, h3⟩ := skipParentNode_holds h2
        rw [nodeLoop, if_neg (by omega), hread, Answer.value_bind, if_neg (by decide), refuse_of_not (by omega),
          htype, Answer.value_bind,
          if_neg (by decide), if_pos rfl, hskip, Answer.value_bind, ih h3 (by omega), lookFrom]

/-- A node the walk can pass: anything but a leaf whose credential it does not read. -/
def passable : Option Node → Bool
  | none => true
  | some (.leaf l) => l.identityText.isSome
  | some (.parent _) => true

def nodeIdentity : Option Node → Option JsString
  | none => none
  | some (.leaf l) => l.identityText
  | some (.parent _) => none

theorem lookFrom_past {target node : Nat} (h : target < node)
    (nodes : List (Option Node)) : lookFrom target node nodes = none := by
  induction nodes generalizing node with
  | nil => rfl
  | cons x rest ih =>
    have hne : ¬ node = target := by omega
    match x with
    | none => rw [lookFrom, if_neg hne, ih (by omega)]
    | some (.leaf l) =>
      rw [lookFrom]
      simp only [if_neg hne, ih (by omega : target < node + 1), bind_fun_none]
    | some (.parent p) => rw [lookFrom, ih (by omega)]

theorem lookFrom_eq {target node d : Nat} (h : target = node + d) (nodes : List (Option Node)) :
    lookFrom target node nodes = if (nodes.take d).all passable then nodes[d]?.bind nodeIdentity else none := by
  induction nodes generalizing node d with
  | nil => simp [lookFrom]
  | cons x rest ih =>
    cases d with
    | zero =>
      have ht : node = target := by omega
      rw [take_zero, all_nil, if_pos rfl, getElem?_cons_zero, bind_some]
      match x with
      | none => rw [lookFrom, if_pos ht, nodeIdentity]
      | some (.leaf l) =>
        rw [lookFrom, nodeIdentity]
        simp only [if_pos ht, bind_fun_some]
      | some (.parent p) => rw [lookFrom, lookFrom_past (by omega), nodeIdentity]
    | succ d =>
      have ht : ¬ node = target := by omega
      have hrec := ih (by omega : target = node + 1 + d)
      rw [take_succ_cons, all_cons, getElem?_cons_succ]
      match x with
      | none => rw [lookFrom, if_neg ht, hrec, passable, Bool.true_and]
      | some (.leaf l) =>
        rw [lookFrom, passable]
        cases l.identityText with
        | none => rfl
        | some identity => simp only [bind_some, if_neg ht, hrec, isSome_some, Bool.true_and]
      | some (.parent p) => rw [lookFrom, hrec, passable, Bool.true_and]

/-! ## The group info -/

theorem extensionLoop_holds {list data rest : Bytes} {fuel o : Nat} {tree : Opaque} {before : List Extension}
    (hb : ∀ e ∈ before, e.extensionType ≠ 2)
    (hd : data = tree.encode) (hfit : data.length < maxVec)
    (h : Holds list o (before.flatMap Extension.encode ++ (u16 2 ++ vec data ++ rest)))
    (hf : (before.flatMap Extension.encode).length < fuel) : extensionLoop list fuel o = .value tree.bytes := by
  induction before generalizing o fuel with
  | nil =>
    obtain ⟨g, rfl⟩ : ∃ g, fuel = g + 1 := ⟨fuel - 1, by omega⟩
    rw [append_assoc] at h
    obtain ⟨hl, htype, h1⟩ := Holds.number h (by decide)
    obtain ⟨next, hdata, -⟩ := h1.vec hfit
    have hwhole : Holds data 0 (vec tree.bytes ++ []) := by
      rw [append_nil, hd]
      exact Cut.whole _
    obtain ⟨last, htree, -⟩ := hwhole.vec tree.fits
    rw [extensionLoop, if_neg (by omega), refuse_of_not (by omega), htype, hdata]
    simp only [htree, Answer.value_bind]
    rfl
  | cons e before ih =>
    obtain ⟨g, rfl⟩ : ∃ g, fuel = g + 1 := ⟨fuel - 1, by omega⟩
    rw [flatMap_cons] at h
    rw [flatMap_cons, length_append, Extension.encode, length_append, u16, length_beBytes] at hf
    simp only [Extension.encode, append_assoc] at h
    obtain ⟨hl, htype, h1⟩ := Holds.number h e.extensionType.toNat_lt
    obtain ⟨next, hdata, h2⟩ := h1.vec e.data.fits
    have hne : ¬ e.extensionType.toNat = 2 := fun heq => hb e mem_cons_self (UInt16.toNat_inj.mp heq)
    rw [extensionLoop, if_neg (by omega), refuse_of_not (by omega), htype, hdata, Answer.value_bind]
    simp only [if_neg hne]
    refine ih (fun x hx => hb x (mem_cons_of_mem e hx)) ?_ (by omega)
    simpa [Extension.encode] using h2

theorem readRatchetTreeExtension_holds {g : GroupInfo} {bytes : Bytes} (h : Holds bytes 0 g.encode) :
    readRatchetTreeExtension bytes = .value (g.tree.items.flatMap encodeNode) := by
  obtain ⟨-, hversion, h1⟩ := h.number (by decide)
  obtain ⟨hl, hformat, h2⟩ := h1.number (by decide)
  obtain ⟨-, -, h3⟩ := h2.number (by decide)
  obtain ⟨-, -, h4⟩ := h3.number g.cipherSuite.toNat_lt
  obtain ⟨n5, hgroup, h5⟩ := h4.vec g.groupId.fits
  obtain ⟨-, -, h6⟩ := h5.number g.epoch.toNat_lt
  have hrow : g.treeHash.encode ++
    (g.confirmedTranscriptHash.encode ++ (g.contextExtensions.encode ++ (vec g.extensionBytes ++
      (g.confirmationTag.encode ++ (u32 g.signer ++ g.signature.encode))))) =
      [g.treeHash, g.confirmedTranscriptHash, g.contextExtensions.contents].flatMap Opaque.encode ++
        (vec g.extensionBytes ++
        (g.confirmationTag.encode ++ (u32 g.signer ++ g.signature.encode))) := by
    simp [Listed.encode]
  rw [hrow] at h6
  obtain ⟨n7, hskip, h7⟩ := h6.skip
  obtain ⟨n8, hlist, -⟩ := h7.vec g.fits
  have hlen : (g.before.flatMap Extension.encode).length ≤ g.extensionBytes.length := by
    rw [GroupInfo.extensionBytes, length_append]
    omega
  have hloop : extensionLoop g.extensionBytes (g.extensionBytes.length + 1) 0 = .value
    (g.tree.items.flatMap encodeNode) :=
    extensionLoop_holds g.before_ne rfl g.treeFits (Cut.whole _) (by omega)
  unfold readRatchetTreeExtension
  rw [refuse_of_not (by omega), hversion, Answer.value_bind, refuse_of_not (by decide), hformat, Answer.value_bind,
    refuse_of_not (by decide),
    hgroup, Answer.value_bind]
  simp only
  rw [show skipOpaques bytes 3 (n5 + 8) = .value n7 from hskip, Answer.value_bind, hlist]
  exact hloop

theorem groupInfoLeafIdentity_encode (g : GroupInfo) (i : Nat) :
    groupInfoLeafIdentity (base64Of g.encode) i =
      .ofOption (if (g.tree.items.take (2 * i)).all passable then
        g.tree.items[2 * i]?.bind nodeIdentity else none) := by
  have htree : Holds (g.tree.items.flatMap encodeNode) 0 (g.tree.items.flatMap encodeNode) := Cut.whole _
  unfold groupInfoLeafIdentity
  rw [fromBase64_base64Of, readRatchetTreeExtension_holds (Cut.whole g.encode), Answer.value_bind,
    nodeLoop_holds htree (by omega),
    lookFrom_eq (by omega : i * 2 = 0 + 2 * i)]

/-- Of every group info the service reads the identity of leaf `i`, when node `2i` is a leaf and
    every leaf up to it has a basic credential, and null otherwise. An identity that is the UTF-8
    of a text is read as that text. -/
theorem leaf_identities_are_read :
    (∀ (g : GroupInfo) (i : Nat), groupInfoLeafIdentity (base64Of g.encode) i =
      .ofOption (if (g.tree.items.take (2 * i)).all passable then g.tree.items[2 * i]?.bind nodeIdentity else none)) ∧
      ∀ text : JsString, Utf16.isWellFormed text = true → utf8Text (Utf16.utf8Of text) = text :=
  ⟨groupInfoLeafIdentity_encode, fun _ h => utf8Text_utf8Of h⟩

/-! ## A tree it does not read -/

def leafOf (credential : Credential) : LeafNode where
  encryptionKey := oneByte 3
  signatureKey := oneByte 4
  credential := credential
  capabilities := ⟨emptyList _, emptyList _, emptyList _, emptyList _, emptyList _⟩
  source := .update
  extensions := emptyList _
  signature := oneByte 5

def certificateLeaf : LeafNode := leafOf (.x509 (emptyList _))

def basicLeaf : LeafNode := leafOf (.basic (oneByte 0x75))

def certificateGroup : GroupInfo where
  cipherSuite := 1
  groupId := oneByte 0x67
  epoch := 1
  treeHash := noBytes
  confirmedTranscriptHash := noBytes
  contextExtensions := emptyList _
  before := []
  before_ne := by decide
  tree := ⟨[some (.leaf certificateLeaf), none, some (.leaf basicLeaf)], by decide⟩
  treeFits := by decide
  after := []
  fits := by decide
  confirmationTag := noBytes
  signer := 1
  signature := noBytes

/-- Neither leaf is blank, and neither is read. -/
theorem certificate_hides_leaves :
    certificateGroup.tree.items[0]? = some (some (.leaf certificateLeaf)) ∧
      certificateGroup.tree.items[2]? = some (some (.leaf basicLeaf)) ∧
      groupInfoLeafIdentity (base64Of certificateGroup.encode) 0 = .null ∧
      groupInfoLeafIdentity (base64Of certificateGroup.encode) 1 = .null := by
  refine ⟨rfl, rfl, by decide +kernel, by decide +kernel⟩

end Canari.Delivery
