/-
  Canari.Mls.Authorship — the author's proof inside an application plaintext
  (`frontend/mls-core/src/authorship.rs`).

  The proof is field 14, appended as the last field. `splitAuthorProof` walks the fields
  from the front and reads the last one; `vetAuthorProof` keeps a proof that names the MLS
  sender and verifies under its leaf key, and cuts any other off. What it cuts is one field:
  the plaintext it then hands over is the fields before it, and its last field may be a proof
  too (`splitAuthorProof_take`), one nobody checked.

  The hash and the signature check are parameters. A length that overflows `usize` is past
  the end of the bytes, and refused there.
-/

import Canari.Lib.Wire

namespace Canari.Mls.Authorship

open Lib List Option

def AUTHOR_PROOF_FIELD : Nat := 14
def AUTHOR_PROOF_VERSION : Nat := 1
def AUTHOR_DESCRIPTOR_LABEL : String := "canari-mls-author-v1"

def GRAINE_PUBLIC_KEY_BYTES : Nat := 32
def GRAINE_SIGNATURE_BYTES : Nat := 64

structure AuthorProof where
  version : Nat
  /-- `userId:deviceId`, the signer's MLS credential identity. -/
  author : String
  signature : Bytes

inductive AuthorVerdict where
  | unsigned
  | verified
  | refused (why : String)
  deriving DecidableEq

structure Crypto where
  sha256 : Bytes → Bytes
  verifySignature : Bytes → Bytes → Bytes → Bool

variable (C : Crypto)

def verifyGraineSignature (publicKey message signature : Bytes) : Bool :=
  publicKey.length = GRAINE_PUBLIC_KEY_BYTES && signature.length = GRAINE_SIGNATURE_BYTES &&
    C.verifySignature message publicKey signature

def utf8 (text : String) : Bytes := text.toUTF8.data.toList

def authorDescriptor (groupId author : String) (body : Bytes) : Bytes :=
  lp (utf8 AUTHOR_DESCRIPTOR_LABEL) ++ lp (utf8 groupId) ++ lp (utf8 author) ++ lp (C.sha256 body)

/-! ## The wire -/

def writeVarintFrom (v : UInt64) : Nat → Bytes
  | 0 => []
  | left + 1 =>
    let byte := (v &&& 0x7f).toUInt8
    if v >>> 7 = 0 then [byte] else (byte ||| 0x80) :: writeVarintFrom (v >>> 7) left

def writeVarint (v : UInt64) : Bytes := writeVarintFrom v 10

/-- `left` bytes may still be read: the shift is 64 or more after ten. -/
def readVarintFrom (bytes : Bytes) (cur : Nat) (result : UInt64) : Nat → Option (UInt64 × Nat)
  | 0 => none
  | left + 1 =>
    match bytes[cur]? with
    | none => none
    | some byte =>
      let result := result ||| ((byte &&& 0x7f).toUInt64 <<< UInt64.ofNat (7 * (9 - left)))
      if byte &&& 0x80 = 0 then some (result, cur + 1) else readVarintFrom bytes (cur + 1) result left

def readVarint (bytes : Bytes) (pos : Nat) : Option (UInt64 × Nat) := readVarintFrom bytes pos 0 10

/-- `version` (1, varint), `author` (2, string), `signature` (3, bytes). -/
def encodeAuthorProof (proof : AuthorProof) : Bytes :=
  [0x08] ++ writeVarint (.ofNat proof.version) ++
  [0x12] ++ writeVarint (.ofNat (utf8 proof.author).length) ++ utf8 proof.author ++
  [0x1a] ++ writeVarint (.ofNat proof.signature.length) ++ proof.signature

structure Decoded where
  version : Option Nat
  author : Option String
  signature : Option Bytes

def decodeField (inner : Bytes) (pos : Nat) (d : Decoded) : Option (Decoded × Nat) := do
  let (tag, pos) ← readVarint inner pos
  match (tag >>> 3).toNat, (tag &&& 0x7).toNat with
  | 1, 0 =>
    let (v, next) ← readVarint inner pos
    if v.toNat < 2 ^ 32 then some ({ d with version := some v.toNat }, next) else none
  | 2, 2 =>
    let (len, afterLen) ← readVarint inner pos
    if afterLen + len.toNat ≤ inner.length then
      let author ← String.fromUTF8? ⟨((inner.drop afterLen).take len.toNat).toArray⟩
      some ({ d with author := some author }, afterLen + len.toNat)
    else none
  | 3, 2 =>
    let (len, afterLen) ← readVarint inner pos
    if afterLen + len.toNat ≤ inner.length then
      some ({ d with signature := some ((inner.drop afterLen).take len.toNat) }, afterLen + len.toNat)
    else none
  | _, _ => none

/-- The loop over the payload: every turn reads a byte or more, so `inner.length` turns are enough. -/
def decodeFrom (inner : Bytes) (pos : Nat) (d : Decoded) : Nat → Option Decoded
  | 0 => if pos < inner.length then none else some d
  | turns + 1 => if pos < inner.length then (decodeField inner pos d).bind fun (d, pos) => decodeFrom inner pos d turns else some d

def decodeAuthorProof (inner : Bytes) : Option AuthorProof := do
  let d ← decodeFrom inner 0 ⟨none, none, none⟩ inner.length
  some ⟨← d.version, ← d.author, ← d.signature⟩

def authorProofTag : UInt64 := (UInt64.ofNat AUTHOR_PROOF_FIELD <<< 3) ||| 2

def appendAuthorProof (body proofPayload : Bytes) : Bytes :=
  body ++ writeVarint authorProofTag ++ writeVarint (.ofNat proofPayload.length) ++ proofPayload

structure Field where
  start : Nat
  tag : UInt64
  lo : Nat
  hi : Nat

def valueRange (bytes : Bytes) (tag : UInt64) (pos : Nat) : Option (Nat × Nat) :=
  match (tag &&& 0x7).toNat with
  | 0 => (readVarint bytes pos).map fun (_, next) => (pos, next)
  | 1 => some (pos, pos + 8)
  | 2 => (readVarint bytes pos).map fun (len, afterLen) => (afterLen, afterLen + len.toNat)
  | 5 => some (pos, pos + 4)
  | _ => none

def readField (bytes : Bytes) (pos : Nat) : Option Field := do
  let (tag, afterTag) ← readVarint bytes pos
  let (lo, hi) ← valueRange bytes tag afterTag
  if hi ≤ bytes.length then some ⟨pos, tag, lo, hi⟩ else none

/-- The loop of `split_author_proof`: the last field read, or `none` when a field does not read. -/
def lastFrom (bytes : Bytes) (pos : Nat) (last : Option Field) : Nat → Option (Option Field)
  | 0 => if pos < bytes.length then none else some last
  | turns + 1 => if pos < bytes.length then (readField bytes pos).bind fun f => lastFrom bytes f.hi (some f) turns else some last

def proofOf (bytes : Bytes) (f : Field) : Option AuthorProof :=
  if f.tag = authorProofTag then decodeAuthorProof ((bytes.drop f.lo).take (f.hi - f.lo)) else none

def splitAuthorProof (plaintext : Bytes) : Option (Nat × AuthorProof) := do
  let last ← lastFrom plaintext 0 none plaintext.length
  let f ← last
  let proof ← proofOf plaintext f
  some (f.start, proof)

def refusal (plaintext : Bytes) (groupId : String) (senderIdentity : Option String) (senderKey : Option Bytes)
    (bodyLen : Nat)
    (proof : AuthorProof) : Option String :=
  if proof.version ≠ AUTHOR_PROOF_VERSION then some "unknown proof version"
  else if senderIdentity ≠ some proof.author then some "the proof names another author than the MLS sender"
  else match senderKey with
    | some key =>
      if verifyGraineSignature C key
        (authorDescriptor C groupId proof.author (plaintext.take bodyLen)) proof.signature then none
      else some "the signature does not verify under the sender's leaf key"
    | none => some "the sender's leaf key is not readable"

def vetAuthorProof (plaintext : Bytes) (groupId : String) (senderIdentity : Option String)
    (senderKey : Option Bytes) : Bytes × AuthorVerdict :=
  match splitAuthorProof plaintext with
  | none => (plaintext, .unsigned)
  | some (bodyLen, proof) =>
    match refusal C plaintext groupId senderIdentity senderKey bodyLen proof with
    | none => (plaintext, .verified)
    | some why => (plaintext.take bodyLen, .refused why)

/-! ## The fields of a plaintext -/

def fieldsFrom (bytes : Bytes) (pos : Nat) : Nat → Option (List Field)
  | 0 => if pos < bytes.length then none else some []
  | turns + 1 => if pos < bytes.length then (readField bytes pos).bind fun f => (fieldsFrom bytes f.hi turns).map (f :: ·) else some []

def fieldsOf (plaintext : Bytes) : Option (List Field) := fieldsFrom plaintext 0 plaintext.length

section Fields

variable {bytes : Bytes} {pos cur next n turns : Nat} {v result : UInt64} {f g : Field} {fs : List Field}

theorem readVarintFrom_advances {left : Nat}
    (h : readVarintFrom bytes cur result left = some (v, next)) : cur < next ∧ next ≤ bytes.length := by
  induction left generalizing cur result with
  | zero => cases h
  | succ left ih =>
    rw [readVarintFrom] at h
    cases hb : bytes[cur]? with
    | none => rw [hb] at h; cases h
    | some byte =>
      have hcur := (List.getElem?_eq_some_iff.mp hb).1
      rw [hb] at h
      dsimp only at h
      split at h
      · cases h; omega
      · have := ih h; omega

theorem readVarintFrom_take {left : Nat} (h : readVarintFrom bytes cur result left = some (v, next)) (hn : next ≤ n) :
    readVarintFrom (bytes.take n) cur result left = some (v, next) := by
  induction left generalizing cur result with
  | zero => cases h
  | succ left ih =>
    have hcur : cur < n := by have := (readVarintFrom_advances h).1; omega
    rw [readVarintFrom] at h ⊢
    rw [getElem?_take_of_lt hcur]
    cases hb : bytes[cur]? with
    | none => rw [hb] at h; cases h
    | some byte =>
      rw [hb] at h
      dsimp only at h ⊢
      split at h
      · next hlast => rw [if_pos hlast]; exact h
      · next hmore => rw [if_neg hmore]; exact ih h

theorem valueRange_advances {tag : UInt64} {lo hi : Nat}
    (h : valueRange bytes tag pos = some (lo, hi)) : pos ≤ lo ∧ lo ≤ hi := by
  unfold valueRange at h
  split at h
  · obtain ⟨⟨v, next⟩, hv, e⟩ := map_eq_some_iff.mp h
    cases e
    have := readVarintFrom_advances hv
    omega
  · cases h; omega
  · obtain ⟨⟨v, next⟩, hv, e⟩ := map_eq_some_iff.mp h
    cases e
    have := readVarintFrom_advances hv
    omega
  · cases h; omega
  · cases h

theorem valueRange_take {tag : UInt64} {lo hi : Nat} (h : valueRange bytes tag pos = some (lo, hi)) (hn : hi ≤ n) :
    valueRange (bytes.take n) tag pos = some (lo, hi) := by
  unfold valueRange at h ⊢
  split at h
  · obtain ⟨⟨v, next⟩, hv, e⟩ := map_eq_some_iff.mp h
    cases e
    rw [readVarint, readVarintFrom_take hv hn, map_some]
  · exact h
  · obtain ⟨⟨v, next⟩, hv, e⟩ := map_eq_some_iff.mp h
    cases e
    rw [readVarint, readVarintFrom_take hv (by omega), map_some]
  · exact h
  · cases h

theorem readField_eq_some (h : readField bytes pos = some f) :
    ∃ afterTag, readVarint bytes pos = some (f.tag, afterTag) ∧ valueRange bytes f.tag afterTag = some (f.lo, f.hi) ∧
      f.start = pos ∧ f.hi ≤ bytes.length := by
  obtain ⟨⟨tag, afterTag⟩, htag, h⟩ := bind_eq_some_iff.mp h
  obtain ⟨⟨lo, hi⟩, hrange, h⟩ := bind_eq_some_iff.mp h
  obtain ⟨hhi, e⟩ := ite_none_right_eq_some.mp h
  cases e
  exact ⟨afterTag, htag, hrange, rfl, hhi⟩

theorem readField_advances (h : readField bytes pos = some f) : f.start = pos ∧ pos < f.lo ∧ f.lo ≤ f.hi ∧
    f.hi ≤ bytes.length := by
  obtain ⟨afterTag, htag, hrange, hstart, hhi⟩ := readField_eq_some h
  have h1 := readVarintFrom_advances htag
  have h2 := valueRange_advances hrange
  exact ⟨hstart, by omega, h2.2, hhi⟩

theorem readField_take (h : readField bytes pos = some f) (hn : f.hi ≤ n) : readField (bytes.take n) pos = some f := by
  obtain ⟨afterTag, htag, hrange, hstart, hhi⟩ := readField_eq_some h
  have hvalue := valueRange_advances hrange
  have hfits : f.hi ≤ (bytes.take n).length := by rw [length_take]; omega
  have htag' : readVarint (bytes.take n) pos = some (f.tag, afterTag) := readVarintFrom_take htag (by omega)
  cases hstart
  unfold readField
  rw [htag', bind_eq_bind, bind_some]
  dsimp only
  rw [valueRange_take hrange hn, bind_eq_bind, bind_some]
  rw [if_pos hfits]

theorem fieldsFrom_turns {turns' : Nat} (h : bytes.length ≤ pos + turns) (h' : bytes.length ≤ pos + turns') :
    fieldsFrom bytes pos turns = fieldsFrom bytes pos turns' := by
  induction turns generalizing pos turns' with
  | zero =>
    have hpos : ¬ pos < bytes.length := by omega
    cases turns' with
    | zero => rfl
    | succ turns' => rw [fieldsFrom, fieldsFrom, if_neg hpos, if_neg hpos]
  | succ turns ih =>
    cases turns' with
    | zero =>
      have hpos : ¬ pos < bytes.length := by omega
      rw [fieldsFrom, fieldsFrom, if_neg hpos, if_neg hpos]
    | succ turns' =>
      rw [fieldsFrom, fieldsFrom]
      split
      · cases hf : readField bytes pos with
        | none => rfl
        | some f =>
          have := readField_advances hf
          have hrest : fieldsFrom bytes f.hi turns = fieldsFrom bytes f.hi turns' := ih (by omega) (by omega)
          rw [bind_some, bind_some, hrest]
      · rfl

theorem fieldsFrom_cons (h : fieldsFrom bytes pos turns = some (f :: fs)) :
    ∃ left, turns = left + 1 ∧ pos < bytes.length ∧ readField bytes pos = some f ∧
      fieldsFrom bytes f.hi left = some fs := by
  cases turns with
  | zero =>
    rw [fieldsFrom] at h
    split at h <;> cases h
  | succ left =>
    rw [fieldsFrom] at h
    split at h
    · next hpos =>
      obtain ⟨g, hg, h⟩ := bind_eq_some_iff.mp h
      obtain ⟨gs, hgs, e⟩ := map_eq_some_iff.mp h
      cases e
      exact ⟨left, rfl, hpos, hg, hgs⟩
    · cases h

theorem fieldsFrom_take (h : fieldsFrom bytes pos turns = some (fs ++ [f])) (hturns : bytes.length ≤ pos + turns) :
    pos ≤ f.start ∧ fieldsFrom (bytes.take f.start) pos turns = some fs ∧ ∀ g ∈ fs, g.lo ≤ g.hi ∧ g.hi ≤ f.start := by
  induction fs generalizing pos turns with
  | nil =>
    obtain ⟨left, rfl, hpos, hf, -⟩ := fieldsFrom_cons h
    have hstart := (readField_advances hf).1
    have hcut : ¬ pos < (bytes.take f.start).length := by rw [length_take]; omega
    refine ⟨by omega, ?_, fun g hg => absurd hg not_mem_nil⟩
    rw [fieldsFrom, if_neg hcut]
  | cons g fs ih =>
    obtain ⟨left, rfl, hpos, hg, hrest⟩ := fieldsFrom_cons h
    have hadv := readField_advances hg
    obtain ⟨hle, hcut, hall⟩ := ih hrest (by omega)
    have hin : pos < (bytes.take f.start).length := by rw [length_take]; omega
    refine ⟨by omega, ?_, ?_⟩
    · rw [fieldsFrom, if_pos hin, readField_take hg hle, bind_some, hcut, map_some]
    · intro x hx
      rcases mem_cons.mp hx with rfl | hx
      · exact ⟨hadv.2.2.1, hle⟩
      · exact hall x hx

theorem lastFrom_eq (bytes : Bytes) (pos : Nat) (last : Option Field) (turns : Nat) :
    lastFrom bytes pos last turns = (fieldsFrom bytes pos turns).map fun fs => fs.getLast?.or last := by
  induction turns generalizing pos last with
  | zero =>
    rw [lastFrom, fieldsFrom]
    split <;> rfl
  | succ turns ih =>
    rw [lastFrom, fieldsFrom]
    split
    · cases readField bytes pos with
      | none => rfl
      | some f =>
        rw [bind_some, bind_some, ih, Option.map_map]
        congr 1
        funext fs
        cases hl : fs.getLast? with
        | none => simp [getLast?_eq_none_iff.mp hl]
        | some g => simp [getLast?_cons, hl]
    · rfl

theorem proofOf_take (hlo : f.lo ≤ f.hi) (hhi : f.hi ≤ n) : proofOf (bytes.take n) f = proofOf bytes f := by
  unfold proofOf
  rw [drop_take, take_take, Nat.min_eq_left (by omega)]

theorem splitAuthorProof_eq_some_iff {plaintext : Bytes} {proof : AuthorProof} :
    splitAuthorProof plaintext = some (n, proof) ↔
      ∃ fs f, fieldsOf plaintext = some (fs ++ [f]) ∧ f.start = n ∧ proofOf plaintext f = some proof := by
  unfold splitAuthorProof
  rw [lastFrom_eq]
  constructor
  · intro h
    obtain ⟨last, hlast, hf⟩ := bind_eq_some_iff.mp h
    obtain ⟨f, rfl, hproof⟩ := bind_eq_some_iff.mp hf
    obtain ⟨p, hp, e⟩ := bind_eq_some_iff.mp hproof
    cases e
    obtain ⟨all, hall, hl⟩ := map_eq_some_iff.mp hlast
    rw [or_none] at hl
    exact ⟨all.dropLast, f, by rw [dropLast_append_getLast? f hl]; exact hall, rfl, hp⟩
  · rintro ⟨fs, f, hall, rfl, hp⟩
    unfold fieldsOf at hall
    rw [hall, map_some]
    simp [hp]

/-- Two proofs in a row at the end: a body that ends with one, under another. -/
def EndsWithTwoProofs (plaintext : Bytes) : Prop :=
  ∃ fs f g, fieldsOf plaintext = some (fs ++ [f, g]) ∧ (proofOf plaintext f).isSome ∧ (proofOf plaintext g).isSome

theorem splitAuthorProof_take {plaintext : Bytes} {proof : AuthorProof}
    (h : splitAuthorProof plaintext = some (n, proof)) :
    (splitAuthorProof (plaintext.take n)).isSome ↔ EndsWithTwoProofs plaintext := by
  obtain ⟨fs, f, hfields, rfl, hproof⟩ := (splitAuthorProof_eq_some_iff).mp h
  obtain ⟨-, hcut, hall⟩ := fieldsFrom_take hfields (by omega)
  have hbefore : fieldsOf (plaintext.take f.start) = some fs := by
    rw [← hcut]
    exact fieldsFrom_turns (by omega) (by rw [length_take]; omega)
  constructor
  · intro hsome
    obtain ⟨⟨m, inner⟩, hsplit⟩ := isSome_iff_exists.mp hsome
    obtain ⟨gs, g, hg, -, hinner⟩ := (splitAuthorProof_eq_some_iff).mp hsplit
    obtain rfl : fs = gs ++ [g] := some.inj (hbefore.symm.trans hg)
    obtain ⟨hlo, hhi⟩ := hall g (mem_append_right gs mem_cons_self)
    refine ⟨gs, g, f, by rw [hfields, append_assoc]; rfl, ?_, by rw [hproof]; rfl⟩
    rw [← proofOf_take hlo hhi, hinner]
    rfl
  · rintro ⟨gs, g, f', hboth, hg, -⟩
    have hsame : fs ++ [f] = (gs ++ [g]) ++ [f'] := by
      rw [append_assoc]
      exact some.inj (hfields.symm.trans hboth)
    obtain ⟨rfl, -⟩ := append_inj' hsame rfl
    obtain ⟨hlo, hhi⟩ := hall g (mem_append_right gs mem_cons_self)
    obtain ⟨inner, hinner⟩ := isSome_iff_exists.mp hg
    refine isSome_iff_exists.mpr ⟨(g.start, inner), (splitAuthorProof_eq_some_iff).mpr ⟨gs, g, hbefore, rfl, ?_⟩⟩
    rw [proofOf_take hlo hhi, hinner]

end Fields

/-! ## What the application is handed -/

/-- The last proof names the MLS sender and verifies under the key of its leaf. -/
def Authentic (plaintext : Bytes) (groupId : String) (senderIdentity : Option String)
    (senderKey : Option Bytes) : Prop :=
  ∃ bodyLen proof key, splitAuthorProof plaintext = some (bodyLen, proof) ∧ proof.version = AUTHOR_PROOF_VERSION ∧
    senderIdentity = some proof.author ∧ senderKey = some key ∧
    verifyGraineSignature C key
      (authorDescriptor C groupId proof.author (plaintext.take bodyLen)) proof.signature = true

section Vet

variable {C} {plaintext : Bytes} {groupId : String} {senderIdentity : Option String} {senderKey : Option Bytes}

theorem refusal_eq_none_iff {bodyLen : Nat} {proof : AuthorProof}
    (h : splitAuthorProof plaintext = some (bodyLen, proof)) :
    refusal C plaintext groupId senderIdentity senderKey bodyLen proof = none ↔
      Authentic C plaintext groupId senderIdentity senderKey := by
  constructor
  · intro hnone
    unfold refusal at hnone
    split at hnone
    · cases hnone
    · next hversion =>
      split at hnone
      · cases hnone
      · next hsender =>
        cases senderKey with
        | none => cases hnone
        | some key =>
          dsimp only at hnone
          split at hnone
          · next hverify => exact ⟨bodyLen, proof, key, h, not_not.mp hversion, not_not.mp hsender, rfl, hverify⟩
          · cases hnone
  · rintro ⟨bodyLen', proof', key, h', hversion, hsender, rfl, hverify⟩
    cases h.symm.trans h'
    unfold refusal
    rw [if_neg (not_not.mpr hversion), if_neg (not_not.mpr hsender)]
    dsimp only
    rw [if_pos hverify]

/-- A proof in what is handed over is a checked one exactly when no second proof stands under a refused one. -/
theorem vetted_proof_iff_verified :
    ((splitAuthorProof (vetAuthorProof C plaintext groupId senderIdentity senderKey).1).isSome ↔
      (vetAuthorProof C plaintext groupId senderIdentity senderKey).2 = .verified) ↔
    (¬ EndsWithTwoProofs plaintext ∨ Authentic C plaintext groupId senderIdentity senderKey) := by
  unfold vetAuthorProof
  cases hsplit : splitAuthorProof plaintext with
  | none =>
    have hfew : ¬ EndsWithTwoProofs plaintext := by
      rintro ⟨fs, f, g, hfields, -, hg⟩
      obtain ⟨proof, hproof⟩ := isSome_iff_exists.mp hg
      have hsome := (splitAuthorProof_eq_some_iff).mpr ⟨fs ++ [f], g, by rw [hfields, append_assoc]; rfl, rfl, hproof⟩
      rw [hsplit] at hsome
      cases hsome
    simp [hsplit, hfew]
  | some split =>
    obtain ⟨bodyLen, proof⟩ := split
    have hrefusal := @refusal_eq_none_iff C plaintext groupId senderIdentity senderKey bodyLen proof hsplit
    dsimp only
    cases hwhy : refusal C plaintext groupId senderIdentity senderKey bodyLen proof with
    | none => simp [hsplit, hrefusal.mp hwhy]
    | some why =>
      have hforged : ¬ Authentic C plaintext groupId senderIdentity senderKey := by
        intro ha
        rw [hrefusal.mpr ha] at hwhy
        cases hwhy
      have hleft := splitAuthorProof_take hsplit
      simp [hleft, hforged]

end Vet

/-- A body that ends with a proof of another frame, under a proof that names another author. -/
def nestedFrame : Bytes :=
  appendAuthorProof (appendAuthorProof [] (encodeAuthorProof ⟨1, "bob:web", [7, 7]⟩))
    (encodeAuthorProof ⟨1, "carol:web", [8]⟩)

/-- Neither proof of the frame is ever put to the signature check. -/
theorem a_stripped_frame_ends_with_a_proof : ¬ ∀ (C : Crypto) plaintext groupId senderIdentity senderKey,
    (splitAuthorProof (vetAuthorProof C plaintext groupId senderIdentity senderKey).1).isSome ↔
      (vetAuthorProof C plaintext groupId senderIdentity senderKey).2 = .verified := by
  intro h
  have hframe := h ⟨fun _ => [], fun _ _ _ => true⟩ nestedFrame "salon" (some "alice:web") (some (List.replicate 32 5))
  revert hframe
  decide

end Canari.Mls.Authorship
