/-
  Canari.Lib.Wire — byte strings whose end is told by what they hold.

  An encoding delimits its values when the bytes that follow it cannot change what is
  read: `f a ++ r = f b ++ s` only when `a = b` and `r = s`. A fixed-width number does,
  and so does a field behind its length, as long as the length fits the prefix. Two
  strings built of such parts are compared part by part.
-/

import Mathlib.Data.List.Basic
import Mathlib.Algebra.Order.Ring.Nat

namespace Canari.Lib

abbrev Bytes := List UInt8

/-- Big-endian, in `k` bytes: what does not fit is lost, as in a cast. -/
def beBytes : Nat → Nat → Bytes
  | 0, _ => []
  | k + 1, n => UInt8.ofNat (n / 256 ^ k) :: beBytes k n

def be32 (n : Nat) : Bytes := beBytes 4 n
def be64 (n : Nat) : Bytes := beBytes 8 n

def lp (bytes : Bytes) : Bytes := be32 bytes.length ++ bytes

/-- No two values that meet `P` are encoded as a prefix of one string. -/
def Delimits {α : Type} (P : α → Prop) (f : α → Bytes) : Prop :=
  ∀ a b, P a → P b → ∀ r s, f a ++ r = f b ++ s → a = b ∧ r = s

theorem length_beBytes (k n : Nat) : (beBytes k n).length = k := by
  induction k with
  | zero => rfl
  | succ k ih => rw [beBytes, List.length_cons, ih]

theorem beBytes_inj {k : Nat} {n m : Nat} (hn : n < 256 ^ k) (hm : m < 256 ^ k)
    (h : beBytes k n = beBytes k m) : n = m := by
  have hdigits : ∀ k n m : Nat, beBytes k n = beBytes k m → n % 256 ^ k = m % 256 ^ k := by
    intro k
    induction k with
    | zero => intro n m _; rw [Nat.pow_zero, Nat.mod_one, Nat.mod_one]
    | succ k ih =>
      intro n m h
      obtain ⟨hhead, htail⟩ := List.cons.inj h
      have hhead' : n / 256 ^ k % 256 = m / 256 ^ k % 256 := by
        have := congrArg UInt8.toNat hhead
        rwa [UInt8.toNat_ofNat'] at this
      rw [Nat.pow_succ, Nat.mod_mul, Nat.mod_mul, ih n m htail, hhead']
  have := hdigits k n m h
  rwa [Nat.mod_eq_of_lt hn, Nat.mod_eq_of_lt hm] at this

theorem beBytes_delimits (k : Nat) : Delimits (· < 256 ^ k) (beBytes k) := by
  intro n m hn hm r s h
  obtain ⟨hdigits, hrest⟩ := List.append_inj h ((length_beBytes k n).trans (length_beBytes k m).symm)
  exact ⟨beBytes_inj hn hm hdigits, hrest⟩

theorem be64_delimits : Delimits (· < 2 ^ 64) be64 := beBytes_delimits 8

theorem be32_delimits : Delimits (· < 2 ^ 32) be32 := beBytes_delimits 4

theorem lp_delimits : Delimits (·.length < 2 ^ 32) lp := by
  intro a b ha hb r s h
  obtain ⟨hlength, hrest⟩ := be32_delimits _ _ ha hb _ _ h
  exact List.append_inj hrest hlength

end Canari.Lib
