/-
  Canari.Lib.ProtoWriter — how a protobuf message is written: base-128 numbers, tags, and fields
  that are a number or a length and as many bytes.

  A generated encoder writes the fields an object has, in the order of their numbers. Whether a
  field that holds its default is written as well is left open: encoders differ there.
-/

import Canari.Lib.Utf16
import Canari.Lib.Wire

namespace Canari.Lib.ProtoWriter

open Lib.Utf16

/-! ## Numbers -/

/-- Seven bits a byte, lowest first, all but the last with the high bit; of at most `extra + 1` bytes. -/
def varintOf : Nat → Nat → Bytes
  | 0, n => [UInt8.ofNat n]
  | extra + 1, n => if n < 128 then [UInt8.ofNat n] else UInt8.ofNat (n % 128 + 128) :: varintOf extra (n / 128)

/-- `Writer.uint32`: of the number's low 32 bits. -/
def uint32 (n : Nat) : Bytes := varintOf 4 (n % 2 ^ 32)

/-- `Writer.int64`: of the two's complement in 64 bits. -/
def int64 (n : Int) : Bytes := varintOf 9 (n % 2 ^ 64).toNat

theorem one_le_length_varintOf (extra n : Nat) : 1 ≤ (varintOf extra n).length := by
  cases extra with
  | zero => simp [varintOf]
  | succ extra => rw [varintOf]; split <;> simp

theorem length_varintOf_le {k extra n : Nat} (h : n < 128 ^ (k + 1)) : (varintOf extra n).length ≤ k + 1 := by
  induction k generalizing extra n with
  | zero =>
    cases extra with
    | zero => simp [varintOf]
    | succ extra => rw [varintOf, if_pos (by simpa using h)]; simp
  | succ k ih =>
    cases extra with
    | zero => simp [varintOf]
    | succ extra =>
      rw [varintOf]
      split
      · simp
      · have hdiv : n / 128 < 128 ^ (k + 1) := by
          rw [Nat.div_lt_iff_lt_mul (by decide)]
          exact h
        exact Nat.succ_le_succ (ih hdiv)

theorem one_le_length_uint32 (n : Nat) : 1 ≤ (uint32 n).length := one_le_length_varintOf _ _

theorem length_uint32_le (n : Nat) : (uint32 n).length ≤ 5 :=
  length_varintOf_le (Nat.lt_of_lt_of_le (Nat.mod_lt n (by decide)) (by decide))

theorem length_uint32_le_four {n : Nat} (h : n < 2 ^ 28) : (uint32 n).length ≤ 4 :=
  length_varintOf_le (Nat.lt_of_le_of_lt (Nat.mod_le n _) h)

/-! ## Fields -/

/-- What generated code leaves to its runtime: how text becomes bytes, and whether a field that
    holds its default is left out. A text takes as many bytes as its UTF-8. -/
structure Runtime where
  utf8 : JsString → Bytes
  omitsDefaults : Bool
  length_utf8 : ∀ text, (utf8 text).length = (utf8Of text).length

def delimited (bytes : Bytes) : Bytes := uint32 bytes.length ++ bytes

variable (R : Runtime) (tag : Nat)

/-- A field an object may have; `default` says whether a value is its default. -/
def field {α : Type} (default : α → Bool) (write : α → Bytes) : Option α → Bytes
  | none => []
  | some a => if R.omitsDefaults && default a then [] else uint32 tag ++ write a

def boolField : Option Bool → Bytes := field R tag (!·) fun b => [if b then 1 else 0]

def uint32Field : Option Nat → Bytes := field R tag (· % 2 ^ 32 == 0) uint32

def int64Field : Option Int → Bytes := field R tag (· % 2 ^ 64 == 0) int64

def bytesField : Option Bytes → Bytes := field R tag List.isEmpty delimited

def stringField : Option JsString → Bytes := field R tag List.isEmpty fun t => delimited (R.utf8 t)

def repeatedField {α : Type} (write : α → Bytes) (entries : List α) : Bytes :=
  entries.flatMap fun a => uint32 tag ++ delimited (write a)

theorem length_field_le {α : Type} (default : α → Bool) (write : α → Bytes) (a : α) :
    (field R tag default write (some a)).length ≤ (uint32 tag).length + (write a).length := by
  show (if R.omitsDefaults && default a then [] else uint32 tag ++ write a).length ≤ _
  split <;> simp

theorem length_repeatedField {α : Type} (write : α → Bytes) (entries : List α) :
    (repeatedField tag write entries).length =
      (entries.map fun a => (uint32 tag).length + (delimited (write a)).length).sum := by
  simp [repeatedField, List.length_flatMap]

end Canari.Lib.ProtoWriter
