/-
  Canari.Lib.ProtoWire — what a sequence of protobuf fields is, as bytes.

  A field is a tag, which is a number and a wire type, and a body of that type: a number in base
  128, a length and as many bytes, or eight or four bytes. A base-128 number may be longer than it
  has to be, up to ten bytes, and is read in 64 bits. `Message` relates fields to every string
  that spells them; the fields may be any, in any order, any number of times.
-/

import Canari.Lib.Wire

namespace Canari.Lib.ProtoWire

/-! ## Numbers -/

def number : Bytes → Nat
  | [] => 0
  | b :: rest => b.toNat % 128 + 128 * number rest

inductive Continued : Bytes → Prop
  | last {b : UInt8} (h : b.toNat < 128) : Continued [b]
  | more {b : UInt8} {rest : Bytes} (h : 128 ≤ b.toNat) (hr : Continued rest) : Continued (b :: rest)

structure Varint (value : UInt64) (bytes : Bytes) : Prop where
  continued : Continued bytes
  short : bytes.length ≤ 10
  spells : UInt64.ofNat (number bytes) = value

/-! ## Fields -/

inductive Field where
  | varint (number : UInt32) (value : UInt64)
  | fixed64 (number : UInt32) (payload : Bytes)
  | delimited (number : UInt32) (payload : Bytes)
  | fixed32 (number : UInt32) (payload : Bytes)

namespace Field

def num : Field → UInt32
  | .varint n _ | .fixed64 n _ | .delimited n _ | .fixed32 n _ => n

def wireType : Field → Nat
  | .varint .. => 0
  | .fixed64 .. => 1
  | .delimited .. => 2
  | .fixed32 .. => 5

def tag (f : Field) : UInt64 := UInt64.ofNat (8 * f.num.toNat + f.wireType)

inductive Body : Field → Bytes → Prop
  | varint {n : UInt32} {value : UInt64} {bytes : Bytes} (h : Varint value bytes) : Body (.varint n value) bytes
  | fixed64 {n : UInt32} {payload : Bytes} (h : payload.length = 8) : Body (.fixed64 n payload) payload
  | delimited {n : UInt32} {payload length : Bytes} (h : Varint (UInt64.ofNat payload.length) length) :
      Body (.delimited n payload) (length ++ payload)
  | fixed32 {n : UInt32} {payload : Bytes} (h : payload.length = 4) : Body (.fixed32 n payload) payload

/-- The bytes of the field, if its number is `n` and it is of wire type 2. -/
def payloadOf (n : UInt32) : Field → Option Bytes
  | .delimited m payload => if m = n then some payload else none
  | _ => none

/-- Its value, if its number is `n` and it is of wire type 0. -/
def valueOf (n : UInt32) : Field → Option UInt64
  | .varint m value => if m = n then some value else none
  | _ => none

end Field

inductive Message : List Field → Bytes → Prop
  | nil : Message [] []
  | cons {f : Field} {fields : List Field} {tag body rest : Bytes} (ht : Varint f.tag tag) (hb : f.Body body)
      (hr : Message fields rest) :
      Message (f :: fields) (tag ++ body ++ rest)

/-- Of the fields of number `n` and wire type 2, the bytes. -/
def payloads (n : UInt32) (fields : List Field) : List Bytes := fields.filterMap (Field.payloadOf n)

def values (n : UInt32) (fields : List Field) : List UInt64 := fields.filterMap (Field.valueOf n)

theorem Field.wireType_lt (f : Field) : f.wireType < 8 := by
  cases f <;> simp [wireType]

theorem Field.toNat_tag (f : Field) : f.tag.toNat = 8 * f.num.toNat + f.wireType := by
  have hn := f.num.toNat_lt
  have hw := f.wireType_lt
  unfold Field.tag
  rw [UInt64.toNat_ofNat', Nat.mod_eq_of_lt (by omega)]

theorem Message.append {fields fields' : List Field} {bytes bytes' : Bytes} (h : Message fields bytes)
    (h' : Message fields' bytes') :
    Message (fields ++ fields') (bytes ++ bytes') := by
  induction h with
  | nil => exact h'
  | cons ht hb _ ih =>
    rw [List.append_assoc]
    exact .cons ht hb ih

end Canari.Lib.ProtoWire
