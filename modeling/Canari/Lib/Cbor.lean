/-
  Canari.Lib.Cbor — CBOR items of definite length, as a serialiser writes them.

  An item opens with a head: its major type in the three high bits, then its argument in the
  shortest of five forms. Every reader here takes an item off the front of its input, and each
  `read…` lemma says so with any bytes behind the item.
-/

import Canari.Lib.Wire
import Mathlib.Tactic.Ring

namespace Canari.Lib.Cbor

open Lib List

def ofBe (bytes : Bytes) : Nat := bytes.foldl (fun acc b => acc * 256 + b.toNat) 0

/-- The first byte carries the argument itself, or how many bytes follow with it. -/
def head (major n : Nat) : Bytes :=
  if n < 24 then [UInt8.ofNat (32 * major + n)]
  else if n < 256 ^ 1 then UInt8.ofNat (32 * major + 24) :: beBytes 1 n
  else if n < 256 ^ 2 then UInt8.ofNat (32 * major + 25) :: beBytes 2 n
  else if n < 256 ^ 4 then UInt8.ofNat (32 * major + 26) :: beBytes 4 n
  else UInt8.ofNat (32 * major + 27) :: beBytes 8 n

def uint (n : Nat) : Bytes := head 0 n
def byteString (b : Bytes) : Bytes := head 2 b.length ++ b
def textString (b : Bytes) : Bytes := head 3 b.length ++ b
def text (t : String) : Bytes := textString t.toByteArray.data.toList
def array {α : Type} (write : α → Bytes) (items : List α) : Bytes := head 4 items.length ++ items.flatMap write
def uintArray (ns : List Nat) : Bytes := array uint ns

/-! ## Readers -/

def readBe (k : Nat) (input : Bytes) : Option (Nat × Bytes) :=
  if k ≤ input.length then some (ofBe (input.take k), input.drop k) else none

def readArgument (info : Nat) (rest : Bytes) : Option (Nat × Bytes) :=
  if info < 24 then some (info, rest)
  else match info with
    | 24 => readBe 1 rest
    | 25 => readBe 2 rest
    | 26 => readBe 4 rest
    | 27 => readBe 8 rest
    | _ => none

def readHead (major : Nat) : Bytes → Option (Nat × Bytes)
  | [] => none
  | b :: rest => if b.toNat / 32 = major then readArgument (b.toNat % 32) rest else none

def readUint : Bytes → Option (Nat × Bytes) := readHead 0

def readByteString (input : Bytes) : Option (Bytes × Bytes) := do
  let (n, rest) ← readHead 2 input
  if n ≤ rest.length then some (rest.take n, rest.drop n) else none

def readText (input : Bytes) : Option (String × Bytes) := do
  let (n, rest) ← readHead 3 input
  if n ≤ rest.length then (String.fromUTF8? ⟨(rest.take n).toArray⟩).map (·, rest.drop n) else none

def readItems {α : Type} (read : Bytes → Option (α × Bytes)) : Nat → Bytes → Option (List α × Bytes)
  | 0, input => some ([], input)
  | k + 1, input => do
    let (a, rest) ← read input
    let (items, rest) ← readItems read k rest
    some (a :: items, rest)

def readArray {α : Type} (read : Bytes → Option (α × Bytes)) (input : Bytes) : Option (List α × Bytes) := do
  let (k, rest) ← readHead 4 input
  readItems read k rest

def readUintArray : Bytes → Option (List Nat × Bytes) := readArray readUint

def expect (bytes input : Bytes) : Option Bytes :=
    if bytes.isPrefixOf input then some (input.drop bytes.length) else none

/-! ## Reading back -/

theorem ofBe_beBytes (k n : Nat) : ofBe (beBytes k n) = n % 256 ^ k := by
  have hfold : ∀ k n acc : Nat,
    (beBytes k n).foldl (fun acc b => acc * 256 + b.toNat) acc = acc * 256 ^ k + n % 256 ^ k := by
    intro k
    induction k with
    | zero => intro n acc; simp [beBytes, Nat.mod_one]
    | succ k ih =>
      intro n acc
      rw [beBytes, foldl_cons, ih, UInt8.toNat_ofNat']
      rw [show 256 ^ (k + 1) = 256 ^ k * 256 from Nat.pow_succ .., Nat.mod_mul]
      have h8 : (2 : Nat) ^ 8 = 256 := rfl
      ring
  rw [ofBe, hfold]
  simp

theorem beBytes_add_mul (k a n : Nat) : beBytes k (a * 256 ^ k + n) = beBytes k n := by
  induction k generalizing a with
  | zero => rfl
  | succ k ih =>
    have hsplit : a * 256 ^ (k + 1) + n = a * 256 * 256 ^ k + n := by ring
    have hhead : (a * 256 * 256 ^ k + n) / 256 ^ k = a * 256 + n / 256 ^ k := by
      rw [Nat.add_comm, Nat.add_mul_div_right _ _ (Nat.pow_pos (by decide)), Nat.add_comm]
    rw [hsplit, beBytes, ih]
    congr 1
    refine UInt8.toNat_inj.mp ?_
    rw [UInt8.toNat_ofNat', UInt8.toNat_ofNat']
    omega

theorem ofBe_cons (b : UInt8) (bytes : Bytes) : ofBe (b :: bytes) = b.toNat * 256 ^ bytes.length + ofBe bytes := by
  have hfold : ∀ (bytes : Bytes) (acc : Nat),
    bytes.foldl (fun acc b => acc * 256 + b.toNat) acc = acc * 256 ^ bytes.length + ofBe bytes := by
    intro bytes
    induction bytes with
    | nil => intro acc; simp [ofBe]
    | cons b bytes ih =>
      intro acc
      rw [ofBe, foldl_cons, foldl_cons, ih, ih, length_cons]
      ring
  rw [ofBe, foldl_cons, hfold]
  simp

theorem ofBe_lt (bytes : Bytes) : ofBe bytes < 256 ^ bytes.length := by
  induction bytes with
  | nil => exact Nat.one_pos
  | cons b bytes ih =>
    have hb := b.toNat_lt
    have hle : b.toNat * 256 ^ bytes.length ≤ 255 * 256 ^ bytes.length := Nat.mul_le_mul_right _ (by omega)
    rw [ofBe_cons, length_cons]
    omega

theorem beBytes_ofBe (bytes : Bytes) : beBytes bytes.length (ofBe bytes) = bytes := by
  induction bytes with
  | nil => rfl
  | cons b bytes ih =>
    have hlt := ofBe_lt bytes
    have hhead : (b.toNat * 256 ^ bytes.length + ofBe bytes) / 256 ^ bytes.length = b.toNat := by
      rw [Nat.add_comm, Nat.add_mul_div_right _ _ (Nat.pow_pos (by decide)), Nat.div_eq_of_lt hlt, Nat.zero_add]
    rw [ofBe_cons, length_cons, beBytes, hhead, beBytes_add_mul, ih, UInt8.ofNat_toNat]

theorem drop_eq_be32 {bytes : Bytes} {o : Nat} (h : o + 4 ≤ bytes.length) :
    bytes.drop o = be32 (ofBe ((bytes.drop o).take 4)) ++ bytes.drop (o + 4) ∧
      ofBe ((bytes.drop o).take 4) < 2 ^ 32 := by
  have hlen : ((bytes.drop o).take 4).length = 4 := by
    rw [length_take, length_drop]
    omega
  have hbytes := beBytes_ofBe ((bytes.drop o).take 4)
  have hlt := ofBe_lt ((bytes.drop o).take 4)
  rw [hlen] at hbytes hlt
  refine ⟨?_, hlt⟩
  rw [be32, hbytes, ← drop_drop, take_append_drop]

theorem fromUTF8?_eq_some {bytes : Bytes}
    {t : String} : String.fromUTF8? ⟨bytes.toArray⟩ = some t ↔ bytes = t.toByteArray.data.toList := by
  constructor
  · intro h
    unfold String.fromUTF8? at h
    split at h
    · cases h
      exact toList_toArray.symm
    · cases h
  · intro h
    rw [h, String.fromUTF8?, dif_pos t.isValidUTF8]
    rfl

theorem readBe_beBytes {k n : Nat} (h : n < 256 ^ k)
    (rest : Bytes) : readBe k (beBytes k n ++ rest) = some (n, rest) := by
  have hlen := length_beBytes k n
  rw [readBe, if_pos (by simp [hlen]), take_left' hlen, drop_left' hlen, ofBe_beBytes, Nat.mod_eq_of_lt h]

theorem readHead_cons {major info : Nat} (hm : major < 8) (hi : info < 32) (rest : Bytes) :
    readHead major (UInt8.ofNat (32 * major + info) :: rest) = readArgument info rest := by
  have hb : (UInt8.ofNat (32 * major + info)).toNat = 32 * major + info := by
    rw [UInt8.toNat_ofNat']
    omega
  rw [readHead, hb, if_pos (by omega), show (32 * major + info) % 32 = info by omega]

theorem readHead_head {major n : Nat} (hm : major < 8) (hn : n < 2 ^ 64) (rest : Bytes) :
    readHead major (head major n ++ rest) = some (n, rest) := by
  unfold head
  split
  · rename_i h
    exact (readHead_cons hm (by omega) rest).trans (if_pos h)
  · split
    · rename_i h
      exact (readHead_cons hm (by decide) _).trans (readBe_beBytes h rest)
    · split
      · rename_i h
        exact (readHead_cons hm (by decide) _).trans (readBe_beBytes h rest)
      · split
        · rename_i h
          exact (readHead_cons hm (by decide) _).trans (readBe_beBytes h rest)
        · exact (readHead_cons hm (by decide) _).trans (readBe_beBytes (k := 8) hn rest)

theorem readUint_uint {n : Nat} (h : n < 2 ^ 64) (rest : Bytes) : readUint (uint n ++ rest) = some (n, rest) :=
  readHead_head (by decide) h rest

theorem readByteString_byteString {b : Bytes} (h : b.length < 2 ^ 64) (rest : Bytes) :
    readByteString (byteString b ++ rest) = some (b, rest) := by
  simp [readByteString, byteString, readHead_head (show 2 < 8 by decide) h]

theorem readText_text {t : String} (h : t.toByteArray.data.toList.length < 2 ^ 64) (rest : Bytes) :
    readText (text t ++ rest) = some (t, rest) := by
  have htext : String.fromUTF8? ⟨t.toByteArray.data.toList.toArray⟩ = some t := fromUTF8?_eq_some.mpr rfl
  rw [text, textString, append_assoc, readText, readHead_head (by decide) h]
  simp only [Option.bind_eq_bind, Option.bind_some, length_append, take_left, drop_left, htext, Option.map_some]
  rw [if_pos (Nat.le_add_right ..)]

section Arrays

variable {α β : Type} {write : α → Bytes} {read : Bytes → Option (β × Bytes)} {f : α → β} {items : List α}

theorem readItems_flatMap (h : ∀ a ∈ items, ∀ rest, read (write a ++ rest) = some (f a, rest)) (rest : Bytes) :
    readItems read items.length (items.flatMap write ++ rest) = some (items.map f, rest) := by
  induction items with
  | nil => rfl
  | cons a items ih =>
    have htail := ih fun b hb => h b (mem_cons_of_mem a hb)
    simp [readItems, h a mem_cons_self, htail]

theorem readArray_array (hl : items.length < 2 ^ 64)
    (h : ∀ a ∈ items, ∀ rest, read (write a ++ rest) = some (f a, rest)) (rest : Bytes) :
    readArray read (array write items ++ rest) = some (items.map f, rest) := by
  simp [readArray, array, readHead_head (show 4 < 8 by decide) hl, readItems_flatMap h]

end Arrays

theorem readUintArray_uintArray {ns : List Nat} (hl : ns.length < 2 ^ 64) (h : ∀ n ∈ ns, n < 2 ^ 64) (rest : Bytes) :
    readUintArray (uintArray ns ++ rest) = some (ns, rest) := by
  have hread := readArray_array (f := id) hl (fun n hn rest => readUint_uint (h n hn) rest) rest
  rwa [map_id] at hread

theorem expect_append (bytes rest : Bytes) : expect bytes (bytes ++ rest) = some rest := by
  rw [expect, if_pos (by simp), drop_left' rfl]

end Canari.Lib.Cbor
