/-
  Canari.Lib.Buffer — code that reads a byte buffer at offsets.

  A read answers a value, answers null, or faults: it asks for a byte the buffer does not have,
  or its loop is still going when the fuel is out. `Settled` says that it does not fault.

  `Cut bytes o rest k`: from offset `o` on the buffer holds the first `k` bytes of `rest` and
  ends. A read of an encoding is described once for every cut of it: it answers when the cut
  leaves the field whole, and the buffer is then a cut at the next offset (`Cut.step`).
-/

import Canari.Lib.JsText
import Mathlib.Tactic.Ring

namespace Canari.Lib.Buffer

open Lib.Utf16 List

inductive Answer (α : Type) where
  | value (a : α)
  | null
  /-- A byte outside the buffer. -/
  | outOfRange
  /-- A loop that goes on. -/
  | unfinished
  deriving DecidableEq

namespace Answer

variable {α β : Type}

def bind (x : Answer α) (f : α → Answer β) : Answer β :=
  match x with
  | .value a => f a
  | .null => .null
  | .outOfRange => .outOfRange
  | .unfinished => .unfinished

instance : Monad Answer where
  pure := .value
  bind := bind

@[simp] theorem value_bind (a : α) (f : α → Answer β) : (Answer.value a >>= f) = f a := rfl

@[simp] theorem null_bind (f : α → Answer β) : ((Answer.null : Answer α) >>= f) = .null := rfl

@[simp] theorem pure_eq (a : α) : (pure a : Answer α) = .value a := rfl

theorem bind_bind {γ : Type} (x : Answer α) (f : α → Answer β)
    (g : β → Answer γ) : (x >>= f >>= g) = x >>= fun a => f a >>= g := by
  cases x <;> rfl

def ofOption : Option α → Answer α
  | some a => .value a
  | none => .null

/-- `if (c) return null`. -/
def refuse (c : Prop) [Decidable c] : Answer Unit := if c then .null else .value ()

theorem refuse_of {c : Prop} [Decidable c] (h : c) (f : Unit → Answer β) : (refuse c >>= f) = .null := by
  rw [refuse, if_pos h, null_bind]

theorem refuse_of_not {c : Prop} [Decidable c] (h : ¬ c) (f : Unit → Answer β) : (refuse c >>= f) = f () := by
  rw [refuse, if_neg h, value_bind]

def Settled (x : Answer α) : Prop := ∃ r, x = ofOption r

theorem settled_value (a : α) : Settled (.value a) := ⟨some a, rfl⟩

theorem settled_null : Settled (.null : Answer α) := ⟨none, rfl⟩

theorem Settled.bind {x : Answer α} {f : α → Answer β} (hx : x.Settled)
    (hf : ∀ a, x = .value a → (f a).Settled) : (x >>= f).Settled := by
  obtain ⟨r, rfl⟩ := hx
  cases r with
  | none => exact settled_null
  | some a => exact hf a rfl

theorem refuse_settled (c : Prop) [Decidable c] : (refuse c).Settled := by
  unfold refuse
  split
  · exact settled_null
  · exact settled_value ()

theorem settled_refuse {c : Prop} [Decidable c] {f : Unit → Answer β}
    (hf : ¬ c → (f ()).Settled) : (refuse c >>= f).Settled := by
  by_cases h : c
  · rw [refuse_of h]
    exact settled_null
  · rw [refuse_of_not h]
    exact hf h

theorem bind_eq_value {x : Answer α} {f : α → Answer β} {b : β}
    (h : (x >>= f) = .value b) : ∃ a, x = .value a ∧ f a = .value b := by
  cases x with
  | value a => exact ⟨a, rfl, h⟩
  | null => cases h
  | outOfRange => cases h
  | unfinished => cases h

theorem refuse_eq_value {c : Prop} [Decidable c] {f : Unit → Answer β} {b : β}
    (h : (refuse c >>= f) = .value b) : ¬ c ∧ f () = .value b := by
  by_cases hc : c
  · rw [refuse_of hc] at h
    cases h
  · rw [refuse_of_not hc] at h
    exact ⟨hc, h⟩

end Answer

/-! ## Reading numbers -/

def beNat (bytes : Bytes) : Nat := bytes.foldl (fun n b => n * 256 + b.toNat) 0

/-- `readUInt8`, `readUInt16BE`, `readUInt32BE`, `readBigUInt64BE`, by the bytes they take. -/
def readUIntBE (width : Nat) (bytes : Bytes) (offset : Nat) : Answer Nat :=
  if offset + width ≤ bytes.length then .value (beNat ((bytes.drop offset).take width)) else .outOfRange

theorem readUIntBE_settled {width : Nat} {bytes : Bytes} {offset : Nat}
    (h : offset + width ≤ bytes.length) : (readUIntBE width bytes offset).Settled := by
  unfold readUIntBE
  rw [if_pos h]
  exact Answer.settled_value _

theorem foldl_beBytes (k n m : Nat) :
    (beBytes k n).foldl (fun n b => n * 256 + b.toNat) m = m * 256 ^ k + n % 256 ^ k := by
  induction k generalizing m with
  | zero => simp [beBytes, Nat.mod_one]
  | succ k ih =>
    have hmod : n % 256 ^ (k + 1) = n % 256 ^ k + 256 ^ k * (n / 256 ^ k % 256) := by rw [Nat.pow_succ, Nat.mod_mul]
    rw [beBytes, foldl_cons, ih, UInt8.toNat_ofNat', hmod]
    ring

theorem beNat_beBytes {k n : Nat} (h : n < 256 ^ k) : beNat (beBytes k n) = n := by
  rw [beNat, foldl_beBytes, Nat.zero_mul, Nat.zero_add, Nat.mod_eq_of_lt h]

/-! ## Cuts -/

structure Cut (bytes : Bytes) (o : Nat) (rest : Bytes) (k : Nat) : Prop where
  length_eq : bytes.length = o + k
  drop_eq : bytes.drop o = rest.take k

namespace Cut

variable {bytes x y rest : Bytes} {o k n : Nat}

theorem whole (bytes : Bytes) : Cut bytes 0 bytes bytes.length := ⟨by omega, by simp⟩

theorem of_take (bytes : Bytes) (n : Nat) : Cut (bytes.take n) 0 bytes (min n bytes.length) := by
  refine ⟨by rw [length_take, Nat.zero_add], ?_⟩
  exact take_eq_take_min

theorem le_length (h : Cut bytes o rest k) : k ≤ rest.length := by
  have hd := congrArg List.length h.drop_eq
  have hl := h.length_eq
  rw [length_drop, length_take] at hd
  omega

theorem take_eq (h : Cut bytes o (x ++ y) k) (hk : x.length ≤ k) : (bytes.drop o).take x.length = x := by
  rw [h.drop_eq, take_take, Nat.min_eq_left hk, take_left]

/-- Behind it the buffer is a cut of what follows. -/
theorem step (h : Cut bytes o (x ++ y) k) (hk : x.length ≤ k) : Cut bytes (o + x.length) y (k - x.length) := by
  have hl := h.length_eq
  refine ⟨by omega, ?_⟩
  rw [← drop_drop, h.drop_eq, drop_take, drop_left]

theorem readUIntBE {width : Nat} (h : Cut bytes o (beBytes width n ++ y) k) (hn : n < 256 ^ width) (hk : width ≤ k) :
    readUIntBE width bytes o = .value n := by
  have hl := h.length_eq
  have hx := h.take_eq (by rw [length_beBytes]; exact hk)
  rw [length_beBytes] at hx
  rw [Buffer.readUIntBE, if_pos (by omega), hx, beNat_beBytes hn]

end Cut

/-! ## Base64 -/

/-- Both alphabets: `-` and `_` read as `+` and `/`. -/
def sixBits (u : UInt16) : Option Nat :=
  let n := u.toNat
  if 0x41 ≤ n ∧ n ≤ 0x5A then some (n - 0x41)
  else if 0x61 ≤ n ∧ n ≤ 0x7A then some (n - 0x61 + 26)
  else if 0x30 ≤ n ∧ n ≤ 0x39 then some (n - 0x30 + 52)
  else if n = 0x2B ∨ n = 0x2D then some 62
  else if n = 0x2F ∨ n = 0x5F then some 63
  else none

def unitOf (n : Nat) : UInt16 :=
  if n < 26 then UInt16.ofNat (0x41 + n)
  else if n < 52 then UInt16.ofNat (0x61 + (n - 26))
  else if n < 62 then UInt16.ofNat (0x30 + (n - 52))
  else if n = 62 then 0x2B else 0x2F

def bytesOfSixes : List Nat → Bytes
  | a :: b :: c :: d :: rest =>
    UInt8.ofNat (a * 4 + b / 16) :: UInt8.ofNat (b % 16 * 16 + c / 4) :: UInt8.ofNat (c % 4 * 64 + d) ::
      bytesOfSixes rest
  | [a, b, c] => [UInt8.ofNat (a * 4 + b / 16), UInt8.ofNat (b % 16 * 16 + c / 4)]
  | [a, b] => [UInt8.ofNat (a * 4 + b / 16)]
  | _ => []

def sixesOf : Bytes → List Nat
  | a :: b :: c :: rest =>
    a.toNat / 4 :: (a.toNat % 4 * 16 + b.toNat / 16) :: (b.toNat % 16 * 4 + c.toNat / 64) ::
      c.toNat % 64 :: sixesOf rest
  | [a, b] => [a.toNat / 4, a.toNat % 4 * 16 + b.toNat / 16, b.toNat % 16 * 4]
  | [a] => [a.toNat / 4, a.toNat % 4 * 16]
  | [] => []

/-- `toString('base64')`. -/
def base64Of (bytes : Bytes) : JsString :=
    (sixesOf bytes).map unitOf ++ List.replicate ((3 - bytes.length % 3) % 3) 0x3D

/-- `Buffer.from(text, 'base64')`: it stops at a `=`, and skips what is not of the alphabet. -/
def fromBase64 (text : JsString) : Bytes := bytesOfSixes ((text.takeWhile (· ≠ 0x3D)).filterMap sixBits)

theorem sixesOf_lt (bytes : Bytes) : ∀ n ∈ sixesOf bytes, n < 64 := by
  fun_induction sixesOf bytes with
  | case1 a b c rest ih =>
    have ha := a.toNat_lt
    have hb := b.toNat_lt
    have hc := c.toNat_lt
    intro n hn
    simp only [mem_cons] at hn
    rcases hn with rfl | rfl | rfl | rfl | hn
    · omega
    · omega
    · omega
    · omega
    · exact ih n hn
  | case2 a b =>
    have ha := a.toNat_lt
    have hb := b.toNat_lt
    intro n hn
    simp only [mem_cons, not_mem_nil, or_false] at hn
    omega
  | case3 a =>
    have ha := a.toNat_lt
    intro n hn
    simp only [mem_cons, not_mem_nil, or_false] at hn
    omega
  | case4 => simp

theorem sixBits_unitOf {n : Nat} (h : n < 64) : sixBits (unitOf n) = some n ∧ unitOf n ≠ 0x3D := by
  have hall : ∀ m : Fin 64, sixBits (unitOf m) = some m.val ∧ unitOf m ≠ 0x3D := by decide
  exact hall ⟨n, h⟩

theorem bytesOfSixes_sixesOf (bytes : Bytes) : bytesOfSixes (sixesOf bytes) = bytes := by
  have hbyte : ∀ {n : Nat} {a : UInt8}, n = a.toNat → UInt8.ofNat n = a := by
    rintro n a rfl
    exact UInt8.ofNat_toNat
  fun_induction sixesOf bytes with
  | case1 a b c rest ih =>
    have hb := b.toNat_lt
    have hc := c.toNat_lt
    rw [bytesOfSixes, ih, hbyte (a := a) (by omega), hbyte (a := b) (by omega), hbyte (a := c) (by omega)]
  | case2 a b =>
    have hb := b.toNat_lt
    rw [bytesOfSixes, hbyte (a := a) (by omega), hbyte (a := b) (by omega)]
  | case3 a =>
    rw [bytesOfSixes, hbyte (a := a) (by omega)]
  | case4 => rfl

@[simp] theorem fromBase64_base64Of (bytes : Bytes) : fromBase64 (base64Of bytes) = bytes := by
  have hlt := sixesOf_lt bytes
  have htake : (base64Of bytes).takeWhile (· ≠ 0x3D) = (sixesOf bytes).map unitOf := by
    rw [base64Of, takeWhile_append_of_pos]
    · simp
    · intro u hu
      obtain ⟨n, hn, rfl⟩ := mem_map.mp hu
      simpa using (sixBits_unitOf (hlt n hn)).2
  have hmap : ((sixesOf bytes).map unitOf).filterMap sixBits = sixesOf bytes := by
    rw [filterMap_map]
    exact (filterMap_congr fun n hn => (sixBits_unitOf (hlt n hn)).1).trans filterMap_some
  rw [fromBase64, htake, hmap, bytesOfSixes_sixesOf]

/-! ## UTF-8 -/

def continues (b : UInt8) : Bool := 0x80 ≤ b && b ≤ 0xBF

def secondOf (a b : UInt8) : Bool :=
  if a = 0xE0 then 0xA0 ≤ b && b ≤ 0xBF
  else if a = 0xED then 0x80 ≤ b && b ≤ 0x9F
  else if a = 0xF0 then 0x90 ≤ b && b ≤ 0xBF
  else if a = 0xF4 then 0x80 ≤ b && b ≤ 0x8F
  else 0xE1 ≤ a && a ≤ 0xF3 && continues b

def illFormedLength : Bytes → Nat
  | a :: b :: c :: _ => if secondOf a b then if 0xF0 ≤ a && continues c then 3 else 2 else 1
  | [a, b] => if secondOf a b then 2 else 1
  | _ => 1

def decodeLoop : Nat → Bytes → List Char
  | 0, _ => []
  | _ + 1, [] => []
  | fuel + 1, b :: rest =>
    match (b :: rest).toByteArray.utf8DecodeChar? 0 with
    | some c => c :: decodeLoop fuel ((b :: rest).drop c.utf8Size)
    | none => replacement :: decodeLoop fuel ((b :: rest).drop (illFormedLength (b :: rest)))

/-- `toString('utf8')`. -/
def utf8Text (bytes : Bytes) : JsString := rebuild 0xFFFD (decodeLoop bytes.length bytes)

theorem decodeLoop_encode (cs : List Char) {fuel : Nat} (hf : (cs.flatMap String.utf8EncodeChar).length ≤ fuel) :
    decodeLoop fuel (cs.flatMap String.utf8EncodeChar) = cs := by
  induction cs generalizing fuel with
  | nil => cases fuel <;> rfl
  | cons c cs ih =>
    have hlen := String.length_utf8EncodeChar c
    have hpos := Char.utf8Size_pos c
    rw [flatMap_cons] at hf ⊢
    rw [length_append] at hf
    have hdecode : (String.utf8EncodeChar c ++
      cs.flatMap String.utf8EncodeChar).toByteArray.utf8DecodeChar? 0 = some c := by
      rw [toByteArray_append]
      exact ByteArray.utf8DecodeChar?_utf8EncodeChar_append
    have hdrop : (String.utf8EncodeChar c ++ cs.flatMap String.utf8EncodeChar).drop c.utf8Size =
      cs.flatMap String.utf8EncodeChar := by
      rw [← hlen, drop_left]
    obtain ⟨g, rfl⟩ : ∃ g, fuel = g + 1 := ⟨fuel - 1, by omega⟩
    cases hl : String.utf8EncodeChar c ++ cs.flatMap String.utf8EncodeChar with
    | nil =>
      have := congrArg List.length hl
      rw [length_append, length_nil] at this
      omega
    | cons b rest =>
      rw [hl] at hdecode hdrop
      rw [decodeLoop, hdecode]
      simp only
      rw [hdrop, ih (by omega)]

theorem utf8Text_utf8Of {text : JsString} (h : isWellFormed text = true) : utf8Text (utf8Of text) = text := by
  have henc : utf8Of text = (scalars text).flatMap String.utf8EncodeChar := by
    exact toList_data_toByteArray
  rw [utf8Text, henc, decodeLoop_encode _ (Nat.le_refl _)]
  exact toWellFormed_of_wellFormed h

end Canari.Lib.Buffer
