/-
  Canari.Delivery.MlsTls — the TLS presentation language the delivery service reads
  (`apps/chat-delivery-service/src/utils/mls-tls.ts`: `readMlsVarint`, `readMlsOpaque`).

  `sizePrefix` and `vec` are the writer's side, from RFC 9420 section 2.1.2: the shortest prefix
  that holds the size. `Opaque` and `Listed` are the vectors that have one.
  - `Cut.readMlsOpaque`: of a vector in a cut buffer, the reader answers the bytes and where they
    end, and null when the cut falls inside the vector.
-/

import Canari.Lib.Buffer

namespace Canari.Delivery

open Lib Lib.Buffer
open Lib.Buffer.Answer (refuse refuse_of refuse_of_not settled_refuse settled_value settled_null)

/-! ## The reader -/

def readMlsVarint (bytes : Bytes) (offset : Nat) : Answer (Nat × Nat) := do
  refuse (bytes.length ≤ offset)
  let first ← readUIntBE 1 bytes offset
  match first >>> 6 with
  | 0 => return (first &&& 0x3f, offset + 1)
  | 1 =>
    refuse (bytes.length < offset + 2)
    return ((← readUIntBE 2 bytes offset) &&& 0x3fff, offset + 2)
  | 2 =>
    refuse (bytes.length < offset + 4)
    return ((← readUIntBE 4 bytes offset) &&& 0x3fffffff, offset + 4)
  | _ => .null

/-- An `opaque x<V>`: its bytes and the offset after them. -/
def readMlsOpaque (bytes : Bytes) (offset : Nat) : Answer (Bytes × Nat) := do
  let (value, next) ← readMlsVarint bytes offset
  refuse (bytes.length < next + value)
  return ((bytes.drop next).take value, next + value)

/-! ## The writer -/

def sizePrefix (n : Nat) : Bytes :=
  if n < 2 ^ 6 then beBytes 1 n else if n < 2 ^ 14 then beBytes 2 (2 ^ 14 + n) else beBytes 4 (2 ^ 31 + n)

/-- `x<V>`. -/
def vec (bytes : Bytes) : Bytes := sizePrefix bytes.length ++ bytes

def maxVec : Nat := 2 ^ 30

structure Opaque where
  bytes : Bytes
  fits : bytes.length < maxVec

def Opaque.encode (x : Opaque) : Bytes := vec x.bytes

structure Listed {α : Type} (enc : α → Bytes) where
  items : List α
  fits : (items.flatMap enc).length < maxVec

def Listed.contents {α : Type} {enc : α → Bytes} (x : Listed enc) : Opaque := ⟨x.items.flatMap enc, x.fits⟩

def Listed.encode {α : Type} {enc : α → Bytes} (x : Listed enc) : Bytes := x.contents.encode

def u16 (n : UInt16) : Bytes := beBytes 2 n.toNat
def u32 (n : UInt32) : Bytes := beBytes 4 n.toNat
def u64 (n : UInt64) : Bytes := beBytes 8 n.toNat

/-! ## Reading what was written -/

section Reading

variable {bytes v rest : Bytes} {o k n : Nat}

theorem readMlsVarint_settled (bytes : Bytes) (offset : Nat) : (readMlsVarint bytes offset).Settled := by
  refine settled_refuse fun h0 => (readUIntBE_settled (by omega)).bind fun first _ => ?_
  split
  · exact settled_value _
  · exact settled_refuse fun h2 => (readUIntBE_settled (by omega)).bind fun _ _ => settled_value _
  · exact settled_refuse fun h4 => (readUIntBE_settled (by omega)).bind fun _ _ => settled_value _
  · exact settled_null

theorem readMlsOpaque_settled (bytes : Bytes) (offset : Nat) : (readMlsOpaque bytes offset).Settled :=
  (readMlsVarint_settled bytes offset).bind fun _ _ => settled_refuse fun _ => settled_value _

theorem readMlsVarint_lt {offset next : Nat} (h : readMlsVarint bytes offset = .value (n, next)) : offset < next := by
  obtain ⟨-, h⟩ := Answer.refuse_eq_value h
  obtain ⟨first, -, h⟩ := Answer.bind_eq_value h
  split at h
  · cases h
    omega
  · obtain ⟨-, h⟩ := Answer.refuse_eq_value h
    obtain ⟨size, -, h⟩ := Answer.bind_eq_value h
    cases h
    omega
  · obtain ⟨-, h⟩ := Answer.refuse_eq_value h
    obtain ⟨size, -, h⟩ := Answer.bind_eq_value h
    cases h
    omega
  · cases h

theorem readMlsOpaque_bounds {offset next : Nat}
    (h : readMlsOpaque bytes offset = .value (v, next)) : offset < next ∧ next ≤ bytes.length := by
  obtain ⟨⟨size, after⟩, hsize, h⟩ := Answer.bind_eq_value h
  obtain ⟨hfit, h⟩ := Answer.refuse_eq_value h
  have hafter := readMlsVarint_lt hsize
  cases h
  omega

theorem readUIntBE_first {w : Nat} (h : Cut bytes o (beBytes (w + 1) n ++ rest) k) (hn : n < 256 ^ (w + 1))
    (hk : 0 < k) :
    readUIntBE 1 bytes o = .value (n / 256 ^ w) := by
  have hbytes : beBytes (w + 1) n ++ rest = beBytes 1 (n / 256 ^ w) ++ (beBytes w n ++ rest) := by
    simp [beBytes]
  rw [hbytes] at h
  exact h.readUIntBE (Nat.div_lt_of_lt_mul hn) hk

theorem readWide_cut {w v mask : Nat} (h : Cut bytes o (beBytes w v ++ rest) k) (hv : v < 256 ^ w)
    (hmask : v &&& mask = n) :
    (do
      refuse (bytes.length < o + w)
      return ((← readUIntBE w bytes o) &&& mask, o + w) : Answer (Nat × Nat)) = if w ≤ k then
        .value (n, o + w) else .null := by
  have hl := h.length_eq
  by_cases hk : w ≤ k
  · rw [refuse_of_not (by omega), h.readUIntBE hv hk, Answer.value_bind, if_pos hk, hmask, Answer.pure_eq]
  · rw [refuse_of (by omega), if_neg hk]

theorem readMlsVarint_cut (h : Cut bytes o (sizePrefix n ++ rest) k) (hn : n < maxVec) :
    readMlsVarint bytes o = if (sizePrefix n).length ≤ k then .value (n, o + (sizePrefix n).length) else .null := by
  have hl := h.length_eq
  unfold readMlsVarint maxVec at *
  by_cases hk : 1 ≤ k
  · rw [refuse_of_not (by omega)]
    by_cases h6 : n < 2 ^ 6
    · rw [sizePrefix, if_pos h6] at h ⊢
      have hshift : n >>> 6 = 0 := by rw [Nat.shiftRight_eq_div_pow]; omega
      have hmask : n &&& 0x3f = n := (Nat.and_two_pow_sub_one_eq_mod n 6).trans (Nat.mod_eq_of_lt h6)
      rw [length_beBytes, h.readUIntBE (by omega) hk, Answer.value_bind, hshift, if_pos hk]
      simp [hmask]
    · by_cases h14 : n < 2 ^ 14
      · rw [sizePrefix, if_neg h6, if_pos h14] at h ⊢
        have hshift : ((2 ^ 14 + n) / 256 ^ 1) >>> 6 = 1 := by rw [Nat.shiftRight_eq_div_pow]; omega
        have hmask : (2 ^ 14 + n) &&& 0x3fff = n := (Nat.and_two_pow_sub_one_eq_mod _ 14).trans (by omega)
        rw [readUIntBE_first h (by omega) hk, Answer.value_bind, hshift]
        exact readWide_cut h (by omega) hmask
      · rw [sizePrefix, if_neg h6, if_neg h14] at h ⊢
        have hshift : ((2 ^ 31 + n) / 256 ^ 3) >>> 6 = 2 := by rw [Nat.shiftRight_eq_div_pow]; omega
        have hmask : (2 ^ 31 + n) &&& 0x3fffffff = n := (Nat.and_two_pow_sub_one_eq_mod _ 30).trans (by omega)
        rw [readUIntBE_first h (by omega) hk, Answer.value_bind, hshift]
        exact readWide_cut h (by omega) hmask
  · have hpos : 0 < (sizePrefix n).length := by
      unfold sizePrefix
      split_ifs <;> rw [length_beBytes] <;> omega
    rw [refuse_of (by omega), if_neg (by omega)]

theorem readMlsOpaque_cut (h : Cut bytes o (vec v ++ rest) k) (hv : v.length < maxVec) :
    readMlsOpaque bytes o = if (vec v).length ≤ k then .value (v, o + (vec v).length) else .null := by
  have hl := h.length_eq
  have hlen : (vec v).length = (sizePrefix v.length).length + v.length := List.length_append
  rw [vec, List.append_assoc] at h
  unfold readMlsOpaque
  rw [readMlsVarint_cut h hv]
  by_cases hp : (sizePrefix v.length).length ≤ k
  · have hv' := h.step hp
    rw [if_pos hp, Answer.value_bind]
    simp only
    by_cases hk : (vec v).length ≤ k
    · rw [refuse_of_not (by omega), if_pos hk, hv'.take_eq (by omega), hlen, Nat.add_assoc, Answer.pure_eq]
    · rw [refuse_of (by omega), if_neg hk]
  · rw [if_neg hp, Answer.null_bind, if_neg (by omega)]

/-! Rules for code that reads a field and goes on: it does what it does behind the field, or the
    cut fell inside. -/

variable {α : Type}

variable {f : Bytes × Nat → Answer α} {r : Answer α}

theorem vec_bind (h : Cut bytes o (vec v ++ rest) k) (hv : v.length < maxVec)
    (whole : ∀ next k', k = (vec v).length + k' → Cut bytes next rest k' → f (v, next) = r)
    (cut : k < (vec v).length → r = .null) :
    (readMlsOpaque bytes o >>= f) = r := by
  rw [readMlsOpaque_cut h hv]
  by_cases hk : (vec v).length ≤ k
  · rw [if_pos hk]
    exact whole _ _ (by omega) (h.step hk)
  · rw [if_neg hk, Answer.null_bind, cut (by omega)]

theorem Opaque.bind {x : Opaque} (h : Cut bytes o (x.encode ++ rest) k)
    (whole : ∀ next k', k = x.encode.length + k' → Cut bytes next rest k' → f (x.bytes, next) = r)
    (cut : k < x.encode.length → r = .null) :
    (readMlsOpaque bytes o >>= f) = r :=
  vec_bind h x.fits whole cut

theorem Listed.bind {β : Type} {enc : β → Bytes} {x : Listed enc}
    (h : Cut bytes o (x.encode ++ rest) k)
    (whole : ∀ next k', k = x.encode.length + k' → Cut bytes next rest k' → f (x.items.flatMap enc, next) = r)
    (cut : k < x.encode.length → r = .null) : (readMlsOpaque bytes o >>= f) = r :=
  vec_bind h x.fits whole cut

theorem number_bind {w : Nat} {f : Nat → Answer α} (h : Cut bytes o (beBytes w n ++ rest) k) (hn : n < 256 ^ w)
    (whole : ∀ k', k = w + k' → Cut bytes (o + w) rest k' → f n = r) (cut : k < w → r = .null) :
    (refuse (bytes.length < o + w) >>= fun _ => readUIntBE w bytes o >>= f) = r := by
  have hl := h.length_eq
  by_cases hk : w ≤ k
  · have hstep := h.step (by rw [length_beBytes]; exact hk)
    rw [length_beBytes] at hstep
    rw [refuse_of_not (by omega), h.readUIntBE hn hk]
    exact whole _ (by omega) hstep
  · rw [refuse_of (by omega), cut (by omega)]

end Reading

end Canari.Delivery
