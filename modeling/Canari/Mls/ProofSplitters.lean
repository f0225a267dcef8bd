/-
  Canari.Mls.ProofSplitters — the two readers of a plaintext's author proof: `split_author_proof`
  (`frontend/mls-core/src/authorship.rs`) and `splitAuthorProof`
  (`frontend/src/lib/crypto/messageAuthorship.ts`).

  The first walks the fields itself, the second with the `Reader` of protobufjs. That reader is a
  parameter: what its documentation says of numbers of 32 bits, of the four wire types and of the end of
  the bytes is all that is used of it. It also skips groups and reads only the low half of a longer number,
  which the Rust walk does not, so the two are compared on plaintexts without either
  (`split_iff_tsSplit`). There they find the same last field; the Rust side asks besides that its
  payload decodes.

  A proof appended to a body that reads as fields is split off it again (`splitAuthorProof_append`). A
  body that does not read hides it.
-/

import Canari.Mls.Authorship

namespace Canari.Mls.ProofSplitters

open Lib Mls.Authorship List Option

/-! ## The reader of protobufjs -/

/-- What is used of a `Reader` over some bytes, by position; `none` where it throws. -/
structure ProtobufReader where
  uint32 : Bytes → Nat → Option (Nat × Nat)
  skipType : Bytes → Nat → Nat → Option Nat
  bytes : Bytes → Nat → Option (Bytes × Nat)
  /-- A number of 32 bits in at most five bytes is read. -/
  uint32_short : ∀ {b pos v next}, readVarint b pos = some (v, next) →
    next ≤ pos + 5 → v.toNat < 2 ^ 32 → uint32 b pos = some (v.toNat, next)
  /-- The bytes end inside it. -/
  uint32_cut : ∀ {b pos}, readVarint b pos = none → b.length < pos + 10 → uint32 b pos = none
  skip_varint : ∀ {b pos v next}, readVarint b pos = some (v, next) → skipType b 0 pos = some next
  skip_varint_cut : ∀ {b pos}, readVarint b pos = none → b.length < pos + 10 → skipType b 0 pos = none
  skip_fixed64 : ∀ b pos, skipType b 1 pos = if pos + 8 ≤ b.length then some (pos + 8) else none
  skip_delimited : ∀ b pos, skipType b 2 pos = (uint32 b pos).bind fun (n, at') =>
    if at' + n ≤ b.length then some (at' + n) else none
  skip_fixed32 : ∀ b pos, skipType b 5 pos = if pos + 4 ≤ b.length then some (pos + 4) else none
  skip_unknown : ∀ b wireType pos, wireType = 4 ∨ wireType = 6 ∨ wireType = 7 → skipType b wireType pos = none
  bytes_eq : ∀ b pos, bytes b pos = (uint32 b pos).bind fun (n, at') =>
    if at' + n ≤ b.length then some ((b.drop at').take n, at' + n) else none

variable (R : ProtobufReader)

def nextField (plaintext : Bytes) (pos : Nat) : Option (Nat × Nat) := do
  let (tag, afterTag) ← R.uint32 plaintext pos
  let next ← R.skipType plaintext (tag % 8) afterTag
  some (tag, next)

/-- The `while` loop: where the last field starts and its tag. Every turn reads a byte or more. -/
def walk (plaintext : Bytes) (pos : Nat) (last : Option (Nat × Nat)) : Nat → Option (Option (Nat × Nat))
  | 0 => if pos < plaintext.length then none else some last
  | turns + 1 =>
    if pos < plaintext.length then (nextField R plaintext pos).bind fun (tag, next) =>
      walk plaintext next (some (pos, tag)) turns else some last

/-- The body and the proof's payload; `some none` for null, `none` where a throw comes out. -/
def tsSplitAuthorProof (plaintext : Bytes) : Option (Option (Bytes × Bytes)) :=
  match walk R plaintext 0 none plaintext.length with
  | none => some none
  | some none => some none
  | some (some (lastStart, lastTag)) =>
    if lastTag ≠ AUTHOR_PROOF_FIELD * 8 + 2 then some none
    else do
      let tail := plaintext.drop lastStart
      let (_, afterTag) ← R.uint32 tail 0
      let (proof, _) ← R.bytes tail afterTag
      some (some (plaintext.take lastStart, proof))

/-! ## Numbers -/

section Numbers

variable {bytes rest : Bytes} {cur pos : Nat}

theorem toNat_or_shift {acc b : UInt64} {s : Nat} (hs : s < 64) (hacc : acc.toNat < 2 ^ s)
    (hfit : b.toNat * 2 ^ s < 2 ^ 64) :
    (acc ||| (b <<< UInt64.ofNat s)).toNat = acc.toNat + b.toNat * 2 ^ s := by
  have hshift : (UInt64.ofNat s).toNat = s := by
    rw [UInt64.toNat_ofNat']
    omega
  rw [UInt64.toNat_or, UInt64.toNat_shiftLeft, hshift, Nat.mod_eq_of_lt hs, Nat.shiftLeft_eq, Nat.mod_eq_of_lt hfit,
    Nat.or_comm, Nat.mul_comm b.toNat,
    ← Nat.two_pow_add_eq_or_of_lt hacc]
  omega

theorem toNat_low_seven (v : UInt64) : ((v &&& 0x7f).toUInt8).toNat = v.toNat % 128 := by
  rw [UInt64.toNat_toUInt8, UInt64.toNat_and]
  have hmask : (0x7f : UInt64).toNat = 2 ^ 7 - 1 := rfl
  rw [hmask, Nat.and_two_pow_sub_one_eq_mod]
  omega

theorem toNat_shift_seven (v : UInt64) : (v >>> 7).toNat = v.toNat / 128 := by
  simp [Nat.shiftRight_eq_div_pow]

theorem low_seven_of_byte (b : UInt8) : ((b &&& 0x7f).toUInt64).toNat = b.toNat % 128 := by
  rw [UInt8.toNat_toUInt64, UInt8.toNat_and]
  have hmask : (0x7f : UInt8).toNat = 2 ^ 7 - 1 := rfl
  rw [hmask, Nat.and_two_pow_sub_one_eq_mod]

theorem toNat_continued {b : UInt8} (h : b.toNat < 128) : (b ||| 0x80).toNat = b.toNat + 128 := by
  rw [UInt8.toNat_or]
  have hbit : (0x80 : UInt8).toNat = 2 ^ 7 * 1 := rfl
  rw [hbit, Nat.or_comm, ← Nat.two_pow_add_eq_or_of_lt h]
  omega

theorem continues_iff (b : UInt8) : b &&& 0x80 = 0 ↔ b.toNat < 128 := by
  have hall : ∀ b : Fin 256, (UInt8.ofNat b.val &&& 0x80 = 0 ↔ b.val < 128) := by decide +kernel
  have h := hall ⟨b.toNat, b.toNat_lt⟩
  rwa [UInt8.ofNat_toNat] at h

theorem toNat_read_step {V acc w b : UInt64} {s : Nat} (hs : s < 64) (hacc : acc.toNat = V.toNat % 2 ^ s)
    (hw : w.toNat = V.toNat / 2 ^ s)
    (hb : b.toNat = w.toNat % 128) : (acc ||| (b <<< UInt64.ofNat s)).toNat = V.toNat % 2 ^ (s + 7) := by
  have hV := V.toNat_lt
  have hle : V.toNat / 2 ^ s % 128 * 2 ^ s ≤ V.toNat / 2 ^ s * 2 ^ s := Nat.mul_le_mul_right _ (Nat.mod_le _ _)
  have hdiv : V.toNat / 2 ^ s * 2 ^ s ≤ V.toNat := Nat.div_mul_le_self _ _
  rw [toNat_or_shift hs, hacc, hb, hw, Nat.pow_add, Nat.mod_mul, Nat.mul_comm (2 ^ s)]
  · rw [hacc]
    exact Nat.mod_lt _ (Nat.pow_pos (by decide))
  · rw [hb, hw]
    omega

/-- A number is read back from where it was written; `acc` holds the bits read before. -/
theorem readVarintFrom_writeVarintFrom (V : UInt64) {left s : Nat} {acc w : UInt64} (hleft : left < 10)
    (hs : s = 7 * (9 - left))
    (hacc : acc.toNat = V.toNat % 2 ^ s) (hw : w.toNat = V.toNat / 2 ^ s)
    (hbytes : bytes.drop cur = writeVarintFrom w (left + 1) ++ rest) :
    readVarintFrom bytes cur acc (left + 1) = some (V, cur + (writeVarintFrom w (left + 1)).length) := by
  have hlast : ∀ {left s : Nat} {acc w : UInt64} {cur : Nat}, left < 10 → s = 7 * (9 - left) →
    acc.toNat = V.toNat % 2 ^ s →
      w.toNat = V.toNat / 2 ^ s → bytes.drop cur = writeVarintFrom w (left + 1) ++ rest → w.toNat < 128 →
      readVarintFrom bytes cur acc (left + 1) = some (V, cur + (writeVarintFrom w (left + 1)).length) := by
    intro left s acc w cur hleft hs hacc hw hbytes hsmall
    have hzero : w >>> 7 = 0 := by
      apply UInt64.toNat_inj.mp
      rw [toNat_shift_seven]
      exact Nat.div_eq_of_lt hsmall
    have hbyte := toNat_low_seven w
    rw [writeVarintFrom, if_pos hzero] at hbytes ⊢
    have hat : bytes[cur]? = some (w &&& 0x7f).toUInt8 := by
      have h0 := congrArg (·[0]?) hbytes
      simpa using h0
    have hend : (w &&& 0x7f).toUInt8 &&& 0x80 = 0 := (continues_iff _).mpr (by rw [hbyte]; omega)
    rw [readVarintFrom, hat]
    dsimp only
    rw [if_pos hend, length_singleton]
    have hread := toNat_read_step (b := ((w &&& 0x7f).toUInt8 &&& 0x7f).toUInt64) (by omega) hacc hw (by
      rw [low_seven_of_byte, hbyte, Nat.mod_mod])
    have hfull : V.toNat % 2 ^ (s + 7) = V.toNat := by
      apply Nat.mod_eq_of_lt
      rw [Nat.pow_add]
      have hdiv : V.toNat / 2 ^ s < 128 := hw ▸ hsmall
      rw [Nat.div_lt_iff_lt_mul (Nat.pow_pos (by decide))] at hdiv
      omega
    rw [← hs, UInt64.toNat_inj.mp (hread.trans hfull)]
  induction left generalizing cur s acc w with
  | zero =>
    refine hlast hleft hs hacc hw hbytes ?_
    have hV := V.toNat_lt
    subst hs
    omega
  | succ left ih =>
    by_cases hsmall : w.toNat < 128
    · exact hlast hleft hs hacc hw hbytes hsmall
    · have hmore : ¬ w >>> 7 = 0 := by
        intro h
        have h0 := congrArg UInt64.toNat h
        rw [toNat_shift_seven] at h0
        change w.toNat / 128 = 0 at h0
        omega
      have hbyte := toNat_low_seven w
      have hcont : ((w &&& 0x7f).toUInt8 ||| 0x80).toNat = w.toNat % 128 + 128 := by
        rw [toNat_continued (by rw [hbyte]; omega), hbyte]
      rw [writeVarintFrom, if_neg hmore] at hbytes ⊢
      have hat : bytes[cur]? = some ((w &&& 0x7f).toUInt8 ||| 0x80) := by
        have h0 := congrArg (·[0]?) hbytes
        simpa using h0
      have hnext : bytes.drop (cur + 1) = writeVarintFrom (w >>> 7) (left + 1) ++ rest := by
        rw [← drop_drop, hbytes]
        rfl
      have hgoes : ¬ ((w &&& 0x7f).toUInt8 ||| 0x80) &&& 0x80 = 0 := by
        rw [continues_iff]
        omega
      have hread := toNat_read_step (b := (((w &&& 0x7f).toUInt8 ||| 0x80) &&& 0x7f).toUInt64) (by omega) hacc hw
        (by rw [low_seven_of_byte]; omega)
      rw [readVarintFrom, hat]
      dsimp only
      rw [if_neg hgoes, ← hs, ih (by omega) (by omega) hread ?_ hnext, length_cons]
      · congr 2
        omega
      · rw [toNat_shift_seven, hw, Nat.pow_add, Nat.div_div_eq_div_mul]

theorem readVarint_writeVarint {v : UInt64} (h : bytes.drop pos = writeVarint v ++ rest) :
    readVarint bytes pos = some (v, pos + (writeVarint v).length) :=
  readVarintFrom_writeVarintFrom v (by decide) rfl (by simp [Nat.mod_one]) (by simp) h

theorem length_writeVarintFrom_le {w : UInt64} (left k : Nat)
    (h : w.toNat < 128 ^ (k + 1)) : (writeVarintFrom w left).length ≤ k + 1 := by
  induction left generalizing w k with
  | zero => exact Nat.zero_le _
  | succ left ih =>
    rw [writeVarintFrom]
    split
    · exact Nat.le_add_left 1 k
    · next hmore =>
      cases k with
      | zero =>
        refine absurd (UInt64.toNat_inj.mp ?_) hmore
        rw [toNat_shift_seven]
        exact Nat.div_eq_of_lt (by simpa using h)
      | succ k =>
        have hshift : (w >>> 7).toNat < 128 ^ (k + 1) := by
          rw [toNat_shift_seven, Nat.div_lt_iff_lt_mul (by decide)]
          rwa [Nat.pow_succ] at h
        have hrest := ih k hshift
        rw [length_cons]
        omega

theorem length_writeVarint_le_five {v : UInt64} (h : v.toNat < 2 ^ 32) : (writeVarint v).length ≤ 5 :=
  length_writeVarintFrom_le 10 4 (lt_of_lt_of_le h (by decide))

theorem readVarintFrom_append {result : UInt64} {left : Nat} {out : UInt64 × Nat}
    (h : readVarintFrom bytes cur result left = some out) (more : Bytes) :
    readVarintFrom (bytes ++ more) cur result left = some out := by
  induction left generalizing cur result with
  | zero => cases h
  | succ left ih =>
    rw [readVarintFrom] at h ⊢
    cases hb : bytes[cur]? with
    | none =>
      rw [hb] at h
      cases h
    | some byte =>
      rw [hb] at h
      rw [getElem?_append_left (List.getElem?_eq_some_iff.mp hb).1, hb]
      dsimp only at h ⊢
      split at h
      · next hlast =>
        rw [if_pos hlast]
        exact h
      · next hmore =>
        rw [if_neg hmore]
        exact ih h

end Numbers

/-! ## The payload of a proof -/

section Payload

variable {inner : Bytes} {pos turns : Nat} {d d' : Decoded} {proof : AuthorProof}

theorem decodeFrom_step {next : Nat} (hpos : pos < inner.length) (h : decodeField inner pos d = some (d', next)) :
    decodeFrom inner pos d (turns + 1) = decodeFrom inner next d' turns := by
  rw [decodeFrom, if_pos hpos, h]
  rfl

theorem decodeFrom_done (h : ¬ pos < inner.length) : decodeFrom inner pos d turns = some d := by
  cases turns with
  | zero => rw [decodeFrom, if_neg h]
  | succ turns => rw [decodeFrom, if_neg h]

/-- The fields of the type: a 32-bit version, and lengths a count can say. -/
structure Encodable (proof : AuthorProof) : Prop where
  version : proof.version < 2 ^ 32
  author : (utf8 proof.author).length < 2 ^ 64
  signature : proof.signature.length < 2 ^ 64

theorem fromUTF8?_utf8 (t : String) : String.fromUTF8? ⟨(utf8 t).toArray⟩ = some t := by
  rw [utf8, String.toUTF8_eq_toByteArray, String.fromUTF8?, dif_pos t.isValidUTF8]
  rfl

theorem drop_past {x y : Bytes} (h : inner.drop pos = x ++ y) : inner.drop (pos + x.length) = y := by
  rw [← drop_drop, h, drop_left]

theorem pos_lt_of_drop {x : UInt8} {y : Bytes} (h : inner.drop pos = x :: y) : pos < inner.length := by
  have hlen := congrArg List.length h
  rw [length_drop, length_cons] at hlen
  omega

theorem decodeField_version {rest : Bytes} {v : UInt64} (hv : v.toNat < 2 ^ 32)
    (h : inner.drop pos = [0x08] ++ (writeVarint v ++ rest)) :
    decodeField inner pos d = some ({ d with version := some v.toNat }, pos + 1 + (writeVarint v).length) := by
  have htag : readVarint inner pos = some (0x08, pos + 1) := readVarint_writeVarint (v := 0x08) h
  have hvalue : readVarint inner (pos + 1) = some (v, pos + 1 + (writeVarint v).length) :=
    readVarint_writeVarint (drop_past h)
  unfold decodeField
  rw [htag]
  show ((readVarint inner (pos + 1)).bind fun r =>
    if r.1.toNat < 2 ^ 32 then some ({ d with version := some r.1.toNat }, r.2) else none) = _
  rw [hvalue]
  exact if_pos hv

/-- A field behind its length, and where it ends. -/
theorem delimited_at {rest value : Bytes} {len : UInt64} (hlen : len.toNat = value.length)
    (h : inner.drop pos = writeVarint len ++ (value ++ rest)) :
    readVarint inner pos = some (len, pos + (writeVarint len).length) ∧
      pos + (writeVarint len).length + len.toNat ≤ inner.length ∧
      (inner.drop (pos + (writeVarint len).length)).take len.toNat = value := by
  have hread := readVarint_writeVarint h
  have hend := (readVarintFrom_advances hread).2
  have hdrop := drop_past h
  have hroom := congrArg List.length hdrop
  rw [length_drop, length_append] at hroom
  refine ⟨hread, by omega, ?_⟩
  rw [hdrop, hlen, take_left]

theorem decodeField_author {rest value : Bytes} {len : UInt64} {author : String} (hlen : len.toNat = value.length)
    (hutf : String.fromUTF8? ⟨value.toArray⟩ = some author)
    (h : inner.drop pos = [0x12] ++ (writeVarint len ++ (value ++ rest))) :
    decodeField inner pos d = some ({ d with author := some author },
      pos + 1 + (writeVarint len).length + value.length) := by
  have htag : readVarint inner pos = some (0x12, pos + 1) := readVarint_writeVarint (v := 0x12) h
  obtain ⟨hread, hroom, hvalue⟩ := delimited_at hlen (drop_past h)
  unfold decodeField
  rw [htag]
  show ((readVarint inner (pos + 1)).bind fun r =>
    if r.2 + r.1.toNat ≤ inner.length then
      (String.fromUTF8? ⟨((inner.drop r.2).take r.1.toNat).toArray⟩).bind fun author =>
        some ({ d with author := some author }, r.2 + r.1.toNat)
    else none) = _
  rw [show pos + 1 = pos + ([0x12] : Bytes).length from rfl, hread]
  show (if _ then _ else none) = _
  rw [if_pos hroom, hvalue, hutf, hlen]
  rfl

theorem decodeField_signature {rest value : Bytes} {len : UInt64} (hlen : len.toNat = value.length)
    (h : inner.drop pos = [0x1a] ++ (writeVarint len ++ (value ++ rest))) :
    decodeField inner pos d = some ({ d with signature := some value },
      pos + 1 + (writeVarint len).length + value.length) := by
  have htag : readVarint inner pos = some (0x1a, pos + 1) := readVarint_writeVarint (v := 0x1a) h
  obtain ⟨hread, hroom, hvalue⟩ := delimited_at hlen (drop_past h)
  unfold decodeField
  rw [htag]
  show ((readVarint inner (pos + 1)).bind fun r =>
    if r.2 + r.1.toNat ≤ inner.length then
      some ({ d with signature := some ((inner.drop r.2).take r.1.toNat) }, r.2 + r.1.toNat)
    else none) = _
  rw [show pos + 1 = pos + ([0x1a] : Bytes).length from rfl, hread]
  show (if _ then _ else none) = _
  rw [if_pos hroom, hvalue, hlen]

theorem decodeAuthorProof_encode (h : Encodable proof) : decodeAuthorProof (encodeAuthorProof proof) = some proof := by
  obtain ⟨version, author, signature⟩ := proof
  obtain ⟨hversion, hauthor, hsignature⟩ := h
  have hcast : ∀ {n : Nat}, n < 2 ^ 64 → (UInt64.ofNat n).toNat = n := fun hn => by
    rw [UInt64.toNat_ofNat']
    omega
  have hv : (UInt64.ofNat version).toNat = version := hcast (by dsimp only at hversion; omega)
  generalize hinner : encodeAuthorProof ⟨version, author, signature⟩ = inner
  have h1 : inner.drop 0 = [0x08] ++
    (writeVarint (.ofNat version) ++ ([0x12] ++ (writeVarint (.ofNat (utf8 author).length) ++ (utf8 author ++
      ([0x1a] ++ (writeVarint (.ofNat signature.length) ++ (signature ++ []))))))) := by
    rw [← hinner, encodeAuthorProof]
    simp
  have h2 := drop_past (drop_past h1)
  have h3 := drop_past (drop_past (drop_past h2))
  have h4 := drop_past (drop_past (drop_past h3))
  have step1 := @decodeField_version inner 0 ⟨none, none, none⟩ _ _ (hv.symm ▸ hversion) h1
  have step2 := @decodeField_author inner _ ⟨some (UInt64.ofNat version).toNat, none, none⟩ _ _ _ author
    (hcast hauthor) (fromUTF8?_utf8 author) h2
  have step3 := @decodeField_signature inner _ ⟨some (UInt64.ofNat version).toNat, some author, none⟩ _ _ _
    (hcast hsignature) h3
  have hend : inner.length ≤ 0 + 1 + (writeVarint (.ofNat version)).length + 1 +
    (writeVarint (.ofNat (utf8 author).length)).length + (utf8 author).length +
      1 + (writeVarint (.ofNat signature.length)).length + signature.length := drop_eq_nil_iff.mp h4
  obtain ⟨k, hk⟩ : ∃ k, inner.length = k + 3 := by
    refine ⟨inner.length - 3, ?_⟩
    have hlen := congrArg List.length h1
    simp only [length_append, length_singleton, drop_zero] at hlen
    omega
  have hall : decodeFrom inner 0 ⟨none, none, none⟩ inner.length = some ⟨some (UInt64.ofNat version).toNat,
    some author, some signature⟩ := by
    rw [hk]
    refine (decodeFrom_step (pos_lt_of_drop h1) step1).trans ?_
    refine (decodeFrom_step (pos_lt_of_drop h2) step2).trans ?_
    refine (decodeFrom_step (pos_lt_of_drop h3) step3).trans ?_
    exact decodeFrom_done (not_lt.mpr hend)
  unfold decodeAuthorProof
  rw [hall, hv]
  rfl

end Payload

/-! ## Appending -/

section Append

variable {bytes more body payload : Bytes} {pos turns : Nat} {f : Field} {fs : List Field} {proof : AuthorProof}

theorem readField_append (h : readField bytes pos = some f)
    (more : Bytes) : readField (bytes ++ more) pos = some f := by
  obtain ⟨afterTag, htag, hrange, hstart, hhi⟩ := readField_eq_some h
  have hvalue : valueRange (bytes ++ more) f.tag afterTag = some (f.lo, f.hi) := by
    unfold valueRange at hrange ⊢
    split at hrange
    · obtain ⟨x, hx, e⟩ := map_eq_some_iff.mp hrange
      rw [readVarint, readVarintFrom_append hx more, map_some, e]
    · exact hrange
    · obtain ⟨x, hx, e⟩ := map_eq_some_iff.mp hrange
      rw [readVarint, readVarintFrom_append hx more, map_some, e]
    · exact hrange
    · cases hrange
  have hfits : f.hi ≤ (bytes ++ more).length := by
    rw [length_append]
    omega
  cases hstart
  unfold readField
  rw [readVarint, readVarintFrom_append htag more, bind_eq_bind, bind_some]
  dsimp only
  rw [hvalue, bind_eq_bind, bind_some]
  rw [if_pos hfits]

/-- More bytes behind a plaintext that reads: its fields, then those behind it. -/
theorem fieldsFrom_append (h : fieldsFrom bytes pos turns = some fs) (hpos : pos ≤ bytes.length)
    (hturns : bytes.length ≤ pos + turns) (extra : Nat)
    (hextra : more.length ≤ extra) :
    fieldsFrom (bytes ++ more) pos (turns + extra) = (fieldsFrom (bytes ++ more) bytes.length extra).map
    (fs ++ ·) := by
  induction turns generalizing pos fs with
  | zero =>
    obtain rfl : pos = bytes.length := by omega
    rw [fieldsFrom, if_neg (lt_irrefl _)] at h
    cases h
    simp
  | succ turns ih =>
    by_cases hlt : pos < bytes.length
    · rw [fieldsFrom, if_pos hlt] at h
      obtain ⟨f, hf, h⟩ := bind_eq_some_iff.mp h
      obtain ⟨gs, hgs, rfl⟩ := map_eq_some_iff.mp h
      have hadv := readField_advances hf
      have hlt' : pos < (bytes ++ more).length := by
        rw [length_append]
        omega
      rw [Nat.add_right_comm, fieldsFrom, if_pos hlt', readField_append hf more, bind_some,
        ih hgs (by omega) (by omega), Option.map_map]
      rfl
    · obtain rfl : pos = bytes.length := by omega
      rw [fieldsFrom, if_neg hlt] at h
      cases h
      have hsame : fieldsFrom (bytes ++ more) bytes.length (turns + 1 + extra) = fieldsFrom
        (bytes ++ more) bytes.length extra :=
        fieldsFrom_turns (by rw [length_append]; omega) (by rw [length_append]; omega)
      rw [hsame]
      simp

def trailer (body payload : Bytes) : Field :=
  ⟨body.length, authorProofTag, body.length + 1 + (writeVarint (.ofNat payload.length)).length,
    body.length + 1 + (writeVarint (.ofNat payload.length)).length + payload.length⟩

theorem writeVarint_authorProofTag : writeVarint authorProofTag = [0x72] := by decide

theorem drop_append_trailer (body payload : Bytes) : (appendAuthorProof body payload).drop body.length =
    writeVarint authorProofTag ++ (writeVarint (.ofNat payload.length) ++ (payload ++ [])) := by
  unfold appendAuthorProof
  rw [append_assoc, append_assoc, drop_left, append_nil]

theorem length_append_trailer (body payload : Bytes) :
    (appendAuthorProof body payload).length = (trailer body payload).hi := by
  unfold appendAuthorProof trailer
  rw [writeVarint_authorProofTag]
  simp only [length_append, length_singleton]

theorem readField_trailer (hlen : payload.length < 2 ^ 64) :
    readField (appendAuthorProof body payload) body.length = some (trailer body payload) := by
  have hdrop := drop_append_trailer body payload
  have htag := readVarint_writeVarint hdrop
  have hcast : (UInt64.ofNat payload.length).toNat = payload.length := by
    rw [UInt64.toNat_ofNat']
    omega
  obtain ⟨hread, hroom, -⟩ := delimited_at hcast (drop_past hdrop)
  have hwire : (authorProofTag &&& 0x7).toNat = 2 := by decide
  rw [writeVarint_authorProofTag] at htag hread hroom
  have hvalue : valueRange (appendAuthorProof body payload) authorProofTag (body.length + 1) =
      some ((trailer body payload).lo, (trailer body payload).hi) := by
    unfold valueRange
    show (readVarint _ (body.length + 1)).map _ = _
    rw [show body.length + 1 = body.length + ([0x72] : Bytes).length from rfl, hread, map_some]
    dsimp only
    rw [hcast]
    rfl
  unfold readField
  rw [htag]
  show (valueRange (appendAuthorProof body payload) authorProofTag (body.length + 1)).bind _ = _
  rw [hvalue]
  exact if_pos (by rw [length_append_trailer])

/-- The fields of a body with a proof behind it. -/
theorem fieldsOf_append (h : fieldsOf body = some fs) (hlen : payload.length < 2 ^ 64) :
    fieldsOf (appendAuthorProof body payload) = some (fs ++ [trailer body payload]) := by
  have hsplit : appendAuthorProof body payload = body ++
    (writeVarint authorProofTag ++ (writeVarint (.ofNat payload.length) ++ payload)) := by
    unfold appendAuthorProof
    simp
  have hfield := @readField_trailer body payload hlen
  have hend := length_append_trailer body payload
  have hlt : body.length < (appendAuthorProof body payload).length := by
    rw [hend]
    unfold trailer
    dsimp only
    omega
  have hlast : ∀ extra, 1 ≤ extra →
    fieldsFrom (appendAuthorProof body payload) body.length extra = some [trailer body payload] := by
    intro extra hextra
    obtain ⟨extra, rfl⟩ : ∃ e, extra = e + 1 := ⟨extra - 1, by omega⟩
    have hdone : fieldsFrom (appendAuthorProof body payload) (trailer body payload).hi extra = some [] := by
      cases extra with
      | zero => rw [fieldsFrom, if_neg (by rw [hend]; exact lt_irrefl _)]
      | succ extra => rw [fieldsFrom, if_neg (by rw [hend]; exact lt_irrefl _)]
    rw [fieldsFrom, if_pos hlt, hfield, bind_some, hdone]
    rfl
  have hlonger : (appendAuthorProof body payload).length =
      body.length + (writeVarint authorProofTag ++ (writeVarint (.ofNat payload.length) ++ payload)).length := by
    rw [hsplit, length_append]
  have happend := fieldsFrom_append h (Nat.zero_le _) (by omega) _
    (Nat.le_refl (writeVarint authorProofTag ++ (writeVarint (.ofNat payload.length) ++ payload)).length)
  rw [← hsplit, ← hlonger] at happend
  unfold fieldsOf
  rw [happend, hlast _ (by omega)]
  rfl

theorem value_trailer (hlen : payload.length < 2 ^ 64) :
    ((appendAuthorProof body payload).drop (trailer body payload).lo).take
      ((trailer body payload).hi - (trailer body payload).lo) = payload := by
  have hdrop := drop_append_trailer body payload
  have hcast : (UInt64.ofNat payload.length).toNat = payload.length := by
    rw [UInt64.toNat_ofNat']
    omega
  obtain ⟨-, -, hvalue⟩ := delimited_at hcast (drop_past hdrop)
  rw [hcast] at hvalue
  have hsize : (trailer body payload).hi - (trailer body payload).lo = payload.length := by
    unfold trailer
    dsimp only
    omega
  rw [hsize]
  exact hvalue

theorem proofOf_trailer (hlen : payload.length < 2 ^ 64) : proofOf (appendAuthorProof body payload)
    (trailer body payload) = decodeAuthorProof payload := by
  have htag : (trailer body payload).tag = authorProofTag := rfl
  unfold proofOf
  rw [if_pos htag, value_trailer hlen]

theorem splitAuthorProof_append (h : fieldsOf body = some fs) (hproof : Encodable proof)
    (hlen : (encodeAuthorProof proof).length < 2 ^ 64) :
    splitAuthorProof (appendAuthorProof body (encodeAuthorProof proof)) = some (body.length, proof) :=
  splitAuthorProof_eq_some_iff.mpr ⟨fs, trailer body (encodeAuthorProof proof), fieldsOf_append h hlen, rfl,
    (proofOf_trailer hlen).trans (decodeAuthorProof_encode hproof)⟩

end Append

/-! ## Plaintexts both can read -/

/-- A number of 32 bits in at most five bytes, or one the plaintext ends inside. -/
def ShortNumber (bytes : Bytes) (pos : Nat) : Prop :=
  (∀ v next, readVarint bytes pos = some (v, next) → next ≤ pos + 5 ∧ v.toNat < 2 ^ 32) ∧
    (readVarint bytes pos = none → bytes.length < pos + 10)

/-- The field there is no group, its tag and its length are short numbers, and a number it holds has at
    most ten bytes. -/
def PlainAt (bytes : Bytes) (pos : Nat) : Prop :=
  ShortNumber bytes pos ∧ ∀ tag next, readVarint bytes pos = some (tag, next) →
    ((tag &&& 0x7).toNat = 0 → readVarint bytes next = none → bytes.length < next + 10) ∧
    ((tag &&& 0x7).toNat = 2 → ShortNumber bytes next) ∧ (tag &&& 0x7).toNat ≠ 3

def PlainFrom (bytes : Bytes) (pos : Nat) : Nat → Prop
  | 0 => True
  | turns + 1 => pos < bytes.length → PlainAt bytes pos ∧ ∀ f, readField bytes pos = some f → PlainFrom bytes f.hi turns

def Plain (plaintext : Bytes) : Prop := PlainFrom plaintext 0 plaintext.length

section Plain

variable {R} {bytes plaintext body payload : Bytes} {pos turns : Nat} {f : Field} {fs : List Field}

theorem toNat_wireType (tag : UInt64) : (tag &&& 0x7).toNat = tag.toNat % 8 := by
  rw [UInt64.toNat_and]
  have hmask : (0x7 : UInt64).toNat = 2 ^ 3 - 1 := rfl
  rw [hmask, Nat.and_two_pow_sub_one_eq_mod]

theorem readField_of_tag {tag : UInt64} {next : Nat} (h : readVarint bytes pos = some (tag, next)) :
    readField bytes pos = (valueRange bytes tag next).bind fun (lo, hi) =>
      if hi ≤ bytes.length then some ⟨pos, tag, lo, hi⟩ else none := by
  unfold readField
  rw [h]
  rfl

/-- A plain field ends for both where it ends for one. -/
theorem nextField_eq (h : PlainAt bytes pos) : nextField R bytes pos = (readField bytes pos).map fun f =>
    (f.tag.toNat, f.hi) := by
  obtain ⟨⟨htag, hcut⟩, hvalue⟩ := h
  cases hread : readVarint bytes pos with
  | none =>
    have hts : R.uint32 bytes pos = none := R.uint32_cut hread (hcut hread)
    unfold nextField readField
    rw [hts, hread]
    rfl
  | some number =>
    obtain ⟨tag, next⟩ := number
    obtain ⟨hfive, h32⟩ := htag tag next hread
    obtain ⟨hzero, htwo, hthree⟩ := hvalue tag next hread
    have hts : nextField R bytes pos = (R.skipType bytes (tag.toNat % 8) next).map fun hi => (tag.toNat, hi) := by
      unfold nextField
      rw [R.uint32_short hread hfive h32]
      cases hk : R.skipType bytes (tag.toNat % 8) next with
      | none => simp [hk]
      | some hi => simp [hk]
    have hbound : tag.toNat % 8 < 8 := Nat.mod_lt _ (by decide)
    have hwire := toNat_wireType tag
    rw [hts, readField_of_tag hread]
    unfold valueRange
    rw [hwire] at hzero htwo hthree ⊢
    generalize tag.toNat % 8 = wireType at hbound hzero htwo hthree ⊢
    match wireType, hbound with
    | 0, _ =>
      cases hv : readVarint bytes next with
      | none =>
        rw [R.skip_varint_cut hv (hzero rfl hv)]
        rfl
      | some value =>
        have hend := (readVarintFrom_advances hv).2
        rw [R.skip_varint hv]
        simp [hend]
    | 1, _ =>
      rw [R.skip_fixed64]
      by_cases hroom : next + 8 ≤ bytes.length
      · simp [hroom]
      · simp [hroom]
    | 2, _ =>
      rw [R.skip_delimited]
      obtain ⟨hshort, hlencut⟩ := htwo rfl
      cases hv : readVarint bytes next with
      | none =>
        rw [R.uint32_cut hv (hlencut hv)]
        rfl
      | some value =>
        obtain ⟨len, afterLen⟩ := value
        obtain ⟨h5, hlt⟩ := hshort len afterLen hv
        rw [R.uint32_short hv h5 hlt]
        by_cases hroom : afterLen + len.toNat ≤ bytes.length
        · simp [hroom]
        · simp [hroom]
    | 3, _ => exact absurd rfl hthree
    | 4, _ =>
      rw [R.skip_unknown _ _ _ (.inl rfl)]
      rfl
    | 5, _ =>
      rw [R.skip_fixed32]
      by_cases hroom : next + 4 ≤ bytes.length
      · simp [hroom]
      · simp [hroom]
    | 6, _ =>
      rw [R.skip_unknown _ _ _ (.inr (.inl rfl))]
      rfl
    | 7, _ =>
      rw [R.skip_unknown _ _ _ (.inr (.inr rfl))]
      rfl

theorem walk_eq (h : PlainFrom bytes pos turns) (last : Option (Nat × Nat)) :
    walk R bytes pos last turns = (fieldsFrom bytes pos turns).map fun fs =>
      (fs.getLast?.map fun f => (f.start, f.tag.toNat)).or last := by
  induction turns generalizing pos last with
  | zero =>
    rw [walk, fieldsFrom]
    split <;> rfl
  | succ turns ih =>
    rw [walk, fieldsFrom]
    split
    · next hpos =>
      obtain ⟨hplain, hrest⟩ := h hpos
      rw [nextField_eq hplain]
      cases hf : readField bytes pos with
      | none => rfl
      | some f =>
        have hstart := (readField_advances hf).1
        rw [map_some, bind_some, bind_some]
        dsimp only
        rw [ih (hrest f hf), Option.map_map]
        congr 1
        funext fs
        cases hl : fs.getLast? with
        | none => simp [getLast?_eq_none_iff.mp hl, hstart]
        | some g => simp [getLast?_cons, hl]
    · rfl

theorem plainAt_of_mem (h : PlainFrom bytes pos turns) (hfs : fieldsFrom bytes pos turns = some fs) (hf : f ∈ fs) :
    PlainAt bytes f.start ∧ readField bytes f.start = some f := by
  induction turns generalizing pos fs with
  | zero =>
    rw [fieldsFrom] at hfs
    split at hfs
    · cases hfs
    · cases hfs
      cases hf
  | succ turns ih =>
    cases fs with
    | nil => cases hf
    | cons g gs =>
      obtain ⟨left, hleft, hpos, hg, hgs⟩ := fieldsFrom_cons hfs
      obtain rfl : turns = left := Nat.succ.inj hleft
      obtain ⟨hplain, hrest⟩ := h hpos
      rcases mem_cons.mp hf with rfl | hf
      · rw [(readField_advances hg).1]
        exact ⟨hplain, hg⟩
      · exact ih (hrest g hg) hgs hf

theorem readVarintFrom_drop {k cur left : Nat} {result : UInt64} :
    readVarintFrom (bytes.drop k) cur result left = (readVarintFrom bytes (k + cur) result left).map fun (v, next) =>
      (v, next - k) := by
  induction left generalizing cur result with
  | zero => rfl
  | succ left ih =>
    rw [readVarintFrom, readVarintFrom, getElem?_drop]
    cases bytes[k + cur]? with
    | none => rfl
    | some byte =>
      dsimp only
      split
      · congr 2
        omega
      · rw [ih, Nat.add_assoc]

/-- The tail the proof is read from a second time. -/
theorem bytes_of_tail (hplain : PlainAt plaintext f.start) (hf : readField plaintext f.start = some f)
    (htag : f.tag = authorProofTag) :
    ∃ afterTag, R.uint32 (plaintext.drop f.start) 0 = some (f.tag.toNat, afterTag) ∧
      R.bytes (plaintext.drop f.start) afterTag = some ((plaintext.drop f.lo).take (f.hi - f.lo), f.hi - f.start) := by
  obtain ⟨afterTag, hread, hrange, -, hhi⟩ := readField_eq_some hf
  obtain ⟨⟨hshort, -⟩, hvalue⟩ := hplain
  obtain ⟨h5, h32⟩ := hshort f.tag afterTag hread
  have hwire : (f.tag &&& 0x7).toNat = 2 := by
    rw [htag]
    decide
  obtain ⟨hlenshort, -⟩ := (hvalue f.tag afterTag hread).2.1 hwire
  have hadv := (readVarintFrom_advances hread).1
  unfold valueRange at hrange
  rw [hwire] at hrange
  obtain ⟨⟨len, lo⟩, hlen, e⟩ := map_eq_some_iff.mp hrange
  obtain ⟨hlo, hend⟩ := Prod.mk.inj e
  obtain ⟨hl5, hl32⟩ := hlenshort len lo hlen
  have hladv := (readVarintFrom_advances hlen).1
  have htagTail : readVarint (plaintext.drop f.start) 0 = some (f.tag, afterTag - f.start) := by
    rw [readVarint, readVarintFrom_drop, Nat.add_zero, ← readVarint, hread]
    rfl
  have hlenTail : readVarint (plaintext.drop f.start) (afterTag - f.start) = some (len, lo - f.start) := by
    rw [readVarint, readVarintFrom_drop, Nat.add_sub_cancel' (by omega), ← readVarint, hlen]
    rfl
  refine ⟨afterTag - f.start, R.uint32_short htagTail (by omega) h32, ?_⟩
  have hroom : lo - f.start + len.toNat ≤ (plaintext.drop f.start).length := by
    rw [length_drop]
    omega
  rw [R.bytes_eq, R.uint32_short hlenTail (by omega) hl32, bind_some]
  dsimp only
  rw [if_pos hroom, drop_drop, Nat.add_sub_cancel' (by omega), ← hlo]
  congr 2
  · congr 1
    omega
  · omega

theorem tsSplit_eq (h : Plain plaintext) :
    tsSplitAuthorProof R plaintext = some ((fieldsOf plaintext).bind fun fs => fs.getLast?.bind fun f =>
    if f.tag = authorProofTag then some (plaintext.take f.start, (plaintext.drop f.lo).take (f.hi - f.lo))
      else none) := by
  have hwalk : walk R plaintext 0 none plaintext.length =
      (fieldsOf plaintext).map fun fs => (fs.getLast?.map fun f => (f.start, f.tag.toNat)).or none := walk_eq h none
  have hnumber : ∀ {tag : UInt64}, tag.toNat = AUTHOR_PROOF_FIELD * 8 + 2 ↔ tag = authorProofTag := by
    intro tag
    rw [← UInt64.toNat_inj]
    exact Iff.rfl
  unfold tsSplitAuthorProof
  rw [hwalk]
  cases hfs : fieldsOf plaintext with
  | none => rfl
  | some fs =>
    rw [map_some, or_none, bind_some]
    cases hl : fs.getLast? with
    | none => rfl
    | some f =>
      rw [map_some, bind_some]
      dsimp only
      by_cases htag : f.tag = authorProofTag
      · obtain ⟨hplain, hf⟩ := plainAt_of_mem h hfs (mem_of_getLast? hl)
        obtain ⟨afterTag, huint, hbytes⟩ := @bytes_of_tail R plaintext f hplain hf htag
        rw [if_neg (not_not.mpr (hnumber.mpr htag)), if_pos htag, huint, bind_eq_bind, bind_some]
        rw [hbytes, bind_eq_bind, bind_some]
      · rw [if_pos (fun hn => htag (hnumber.mp hn)), if_neg htag]

theorem tsSplit_eq_some_iff (h : Plain plaintext) : tsSplitAuthorProof R plaintext = some (some (body, payload)) ↔
    ∃ fs f, fieldsOf plaintext = some (fs ++ [f]) ∧ f.tag = authorProofTag ∧ body = plaintext.take f.start ∧
      payload = (plaintext.drop f.lo).take (f.hi - f.lo) := by
  rw [tsSplit_eq h, some.injEq]
  constructor
  · intro hsplit
    obtain ⟨fs, hfs, hlast⟩ := bind_eq_some_iff.mp hsplit
    obtain ⟨f, hl, hif⟩ := bind_eq_some_iff.mp hlast
    obtain ⟨htag, e⟩ := ite_none_right_eq_some.mp hif
    cases e
    exact ⟨fs.dropLast, f, by rw [dropLast_append_getLast? f hl]; exact hfs, htag, rfl, rfl⟩
  · intro ⟨fs, f, hfs, htag, hbody, hpayload⟩
    rw [hfs, bind_some, getLast?_concat, bind_some, if_pos htag, hbody, hpayload]

theorem split_iff_tsSplit (h : Plain plaintext) (n : Nat)
    (proof : AuthorProof) : splitAuthorProof plaintext = some (n, proof) ↔
    n ≤ plaintext.length ∧ ∃ payload, tsSplitAuthorProof R plaintext = some (some (plaintext.take n, payload)) ∧
      decodeAuthorProof payload = some proof := by
  rw [splitAuthorProof_eq_some_iff]
  constructor
  · intro ⟨fs, f, hfs, hstart, hproof⟩
    obtain ⟨htag, hdecode⟩ := ite_none_right_eq_some.mp hproof
    obtain ⟨-, hf⟩ := plainAt_of_mem h hfs (mem_append_right fs mem_cons_self)
    have hadv := readField_advances hf
    exact ⟨by omega, _, (tsSplit_eq_some_iff h).mpr ⟨fs, f, hfs, htag, by rw [hstart], rfl⟩, hdecode⟩
  · intro ⟨hn, payload, hts, hdecode⟩
    obtain ⟨fs, f, hfs, htag, hbody, hpayload⟩ := (tsSplit_eq_some_iff h).mp hts
    obtain ⟨-, hf⟩ := plainAt_of_mem h hfs (mem_append_right fs mem_cons_self)
    have hadv := readField_advances hf
    have hlen := congrArg List.length hbody
    rw [length_take, length_take] at hlen
    refine ⟨fs, f, hfs, by omega, ?_⟩
    unfold proofOf
    rw [if_pos htag, ← hpayload]
    exact hdecode

theorem plainAt_append (h : PlainAt bytes pos) (hf : readField bytes pos = some f)
    (more : Bytes) : PlainAt (bytes ++ more) pos := by
  obtain ⟨afterTag, htag, hrange, -, -⟩ := readField_eq_some hf
  obtain ⟨⟨hshort, -⟩, hvalue⟩ := h
  have htag' : readVarint (bytes ++ more) pos = some (f.tag, afterTag) := readVarintFrom_append htag more
  have hnumber : ∀ {at' : Nat} {v : UInt64} {next : Nat}, readVarint bytes at' = some (v, next) →
    next ≤ at' + 5 ∧ v.toNat < 2 ^ 32 →
      ShortNumber (bytes ++ more) at' := by
    intro at' v next hread hsmall
    have hread' : readVarint (bytes ++ more) at' = some (v, next) := readVarintFrom_append hread more
    refine ⟨fun v' next' h' => ?_, fun hnone => ?_⟩
    · rw [hread'] at h'
      cases h'
      exact hsmall
    · rw [hread'] at hnone
      cases hnone
  refine ⟨hnumber htag (hshort _ _ htag), fun tag next hread => ?_⟩
  rw [htag'] at hread
  cases hread
  obtain ⟨-, htwo, hthree⟩ := hvalue _ _ htag
  unfold valueRange at hrange
  refine ⟨fun hwire hnone => ?_, fun hwire => ?_, hthree⟩
  · rw [hwire] at hrange
    obtain ⟨value, hread, -⟩ := map_eq_some_iff.mp hrange
    rw [readVarint, readVarintFrom_append hread more] at hnone
    cases hnone
  · rw [hwire] at hrange
    obtain ⟨value, hread, -⟩ := map_eq_some_iff.mp hrange
    exact hnumber hread ((htwo hwire).1 _ _ hread)

theorem plainFrom_append {more : Bytes} (h : PlainFrom bytes pos turns) (hfs : fieldsFrom bytes pos turns = some fs)
    (hpos : pos ≤ bytes.length)
    (hmore : ∀ extra, PlainFrom (bytes ++ more) bytes.length extra)
    (extra : Nat) : PlainFrom (bytes ++ more) pos (turns + extra) := by
  induction turns generalizing pos fs with
  | zero =>
    obtain rfl : pos = bytes.length := by
      rw [fieldsFrom] at hfs
      split at hfs
      · cases hfs
      · omega
    exact hmore _
  | succ turns ih =>
    by_cases hlt : pos < bytes.length
    · obtain ⟨hplain, hrest⟩ := h hlt
      rw [fieldsFrom, if_pos hlt] at hfs
      obtain ⟨f, hf, hfs⟩ := bind_eq_some_iff.mp hfs
      obtain ⟨gs, hgs, -⟩ := map_eq_some_iff.mp hfs
      have hadv := readField_advances hf
      rw [Nat.add_right_comm]
      refine fun _ => ⟨plainAt_append hplain hf more, fun g hg => ?_⟩
      rw [readField_append hf more] at hg
      cases hg
      exact ih (hrest f hf) hgs hadv.2.2.2
    · obtain rfl : pos = bytes.length := by omega
      exact hmore _

/-- A proof behind a plain body leaves the plaintext plain. -/
theorem plain_append (h : Plain body) (hfs : fieldsOf body = some fs)
    (hlen : payload.length < 2 ^ 32) : Plain (appendAuthorProof body payload) := by
  have hsplit : appendAuthorProof body payload = body ++
    (writeVarint authorProofTag ++ (writeVarint (.ofNat payload.length) ++ payload)) := by
    unfold appendAuthorProof
    simp
  have hend := length_append_trailer body payload
  have hfield := @readField_trailer body payload (by omega)
  have hcast : (UInt64.ofNat payload.length).toNat = payload.length := by
    rw [UInt64.toNat_ofNat']
    omega
  have htrailer : PlainAt (appendAuthorProof body payload) body.length := by
    have hdrop := drop_append_trailer body payload
    have htag := readVarint_writeVarint hdrop
    obtain ⟨hread, -, -⟩ := delimited_at hcast (drop_past hdrop)
    have hfive : (writeVarint (.ofNat payload.length)).length ≤ 5 :=
      length_writeVarint_le_five (by rw [hcast]; exact hlen)
    refine ⟨⟨fun v next h => ?_, fun hnone => ?_⟩, fun tag next h => ?_⟩
    · rw [htag] at h
      cases h
      exact ⟨Nat.add_le_add_left (by decide) _, by decide⟩
    · rw [htag] at hnone
      cases hnone
    · rw [htag] at h
      cases h
      refine ⟨fun hwire => absurd hwire (by decide), fun _ => ⟨fun v next h => ?_, fun hnone => ?_⟩, by decide⟩
      · rw [hread] at h
        cases h
        exact ⟨by omega, by rw [hcast]; exact hlen⟩
      · rw [hread] at hnone
        cases hnone
  have hmore : ∀ extra, PlainFrom (appendAuthorProof body payload) body.length extra := by
    intro extra
    cases extra with
    | zero => trivial
    | succ extra =>
      refine fun _ => ⟨htrailer, fun f hf => ?_⟩
      rw [hfield] at hf
      cases hf
      cases extra with
      | zero => trivial
      | succ extra => exact fun hlt => absurd hlt (by rw [hend]; exact lt_irrefl _)
  have hall : ∀ extra, PlainFrom (appendAuthorProof body payload) 0 (body.length + extra) := by
    intro extra
    rw [hsplit] at hmore ⊢
    exact plainFrom_append h hfs (Nat.zero_le _) hmore extra
  unfold Plain
  rw [hsplit, length_append, ← hsplit]
  exact hall _

end Plain

/-! ## The two splitters -/

/-- A proof appended to a plain body that reads is split off it by both, the body and the proof as they
    were. On every plain plaintext the TypeScript side throws nothing, and the Rust side finds a proof
    exactly where the other finds a trailer whose payload decodes. -/
theorem splitters_agree_on_plain_fields (R : ProtobufReader) :
    (∀ body fs proof, fieldsOf body = some fs → Plain body → Encodable proof →
      (encodeAuthorProof proof).length < 2 ^ 32 →
      splitAuthorProof (appendAuthorProof body (encodeAuthorProof proof)) = some (body.length, proof) ∧
      tsSplitAuthorProof R (appendAuthorProof body (encodeAuthorProof proof)) = some
        (some (body, encodeAuthorProof proof))) ∧
    ∀ plaintext, Plain plaintext → (∃ out, tsSplitAuthorProof R plaintext = some out) ∧ ∀ n proof,
      splitAuthorProof plaintext = some (n, proof) ↔
      n ≤ plaintext.length ∧ ∃ payload, tsSplitAuthorProof R plaintext = some (some (plaintext.take n, payload)) ∧
        decodeAuthorProof payload = some proof := by
  refine ⟨fun body fs proof hfs hplain hproof hlen => ?_,
    fun plaintext hplain => ⟨⟨_, tsSplit_eq hplain⟩, split_iff_tsSplit hplain⟩⟩
  refine ⟨splitAuthorProof_append hfs hproof (by omega), (tsSplit_eq_some_iff (plain_append hplain hfs hlen)).mpr ?_⟩
  refine ⟨fs, trailer body (encodeAuthorProof proof), fieldsOf_append hfs (by omega), rfl, ?_, ?_⟩
  · unfold appendAuthorProof
    rw [append_assoc, append_assoc]
    exact take_left.symm
  · exact (value_trailer (by omega)).symm

/-! ## A payload that does not decode -/

def shortReader : ProtobufReader where
  uint32 b pos := (readVarint b pos).bind fun (v, next) => if v.toNat < 2 ^ 32 then some (v.toNat, next) else none
  skipType b wireType pos := match wireType with
    | 0 => (readVarint b pos).map (·.2)
    | 1 => if pos + 8 ≤ b.length then some (pos + 8) else none
    | 2 => ((readVarint b pos).bind fun (v, next) => if v.toNat < 2 ^ 32 then some (v.toNat, next) else none).bind fun (n, at') =>
      if at' + n ≤ b.length then some (at' + n) else none
    | 5 => if pos + 4 ≤ b.length then some (pos + 4) else none
    | _ => none
  bytes b pos := ((readVarint b pos).bind fun (v, next) => if v.toNat < 2 ^ 32 then some (v.toNat, next) else
    none).bind fun (n, at') =>
    if at' + n ≤ b.length then some ((b.drop at').take n, at' + n) else none
  uint32_short h _ hlt := by rw [h]; exact if_pos hlt
  uint32_cut h _ := by rw [h]; rfl
  skip_varint h := by rw [h]; rfl
  skip_varint_cut h _ := by rw [h]; rfl
  skip_fixed64 _ _ := rfl
  skip_delimited _ _ := rfl
  skip_fixed32 _ _ := rfl
  skip_unknown b wireType pos h := by rcases h with rfl | rfl | rfl <;> rfl
  bytes_eq _ _ := rfl

/-- A body that does not read as fields hides the proof behind it, and a last field 14 whose payload
    does not decode is a trailer for one side only. -/
theorem a_payload_that_does_not_decode_is_a_trailer_for_one :
    splitAuthorProof (appendAuthorProof [0xff] (encodeAuthorProof ⟨1, "bob:web", [7]⟩)) = none ∧
    splitAuthorProof [0x72, 0x01, 0xff] = none ∧
      tsSplitAuthorProof shortReader [0x72, 0x01, 0xff] = some (some ([], [0xff])) := by
  decide

end Canari.Mls.ProofSplitters
