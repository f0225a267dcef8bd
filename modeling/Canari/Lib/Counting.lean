/-
  Canari.Lib.Counting — counts of the elements of a list, compared element by element.

  `countP_balance`: two counts make as much as two others when they do at every element. The rest
  are its uses: a count split in two, and one element more or less among distinct ones.
-/

import Mathlib.Data.List.Basic
import Mathlib.Data.List.Count
import Mathlib.Data.List.Nodup

namespace Canari.Lib.Counting

open List

variable {α : Type}

variable {l : List α}

theorem countP_balance {p q r s : α → Bool} (h : ∀ x ∈ l, (p x).toNat + (q x).toNat = (r x).toNat + (s x).toNat) :
    l.countP p + l.countP q = l.countP r + l.countP s := by
  have hone : ∀ b : Bool, (if b = true then 1 else 0) = b.toNat := by decide
  induction l with
  | nil => rfl
  | cons x l ih =>
    have hx := h x mem_cons_self
    have hl := ih fun y hy => h y (mem_cons_of_mem x hy)
    rw [countP_cons, countP_cons, countP_cons, countP_cons, hone, hone, hone, hone]
    omega

theorem countP_split {p q r : α → Bool} (h : ∀ x ∈ l, (p x).toNat = (q x).toNat + (r x).toNat) :
    l.countP p = l.countP q + l.countP r := by
  have hbalance := countP_balance (q := fun _ => false) h
  simpa using hbalance

theorem countP_le_split {p q r : α → Bool} (h : ∀ x ∈ l, p x = true → q x = true ∨ r x = true) :
    l.countP p ≤ l.countP q + l.countP r := by
  induction l with
  | nil => simp
  | cons x l ih =>
    cases hp : p x <;> cases hq : q x <;> cases hr : r x <;> simp_all <;> omega

variable [DecidableEq α]

theorem countP_eq_one {v : α} (hn : l.Nodup) (hv : v ∈ l) : (l.countP fun x => x = v) = 1 := by
  rw [← count_eq_one_of_mem hn hv]
  exact countP_congr fun x _ => by simp

theorem countP_eq_and {v : α} (hn : l.Nodup) (hv : v ∈ l)
    (b : Bool) : (l.countP fun x => decide (x = v) && b) = b.toNat := by
  cases b with
  | true => simpa using countP_eq_one hn hv
  | false => simp

theorem countP_one_more {v : α} (hn : l.Nodup) (hv : v ∈ l) {p q : α → Bool} (hp : p v = true) (hq : q v = false)
    (hother : ∀ x ∈ l, x ≠ v → p x = q x) : l.countP p = l.countP q + 1 := by
  rw [← countP_eq_one hn hv]
  refine countP_split fun x hx => ?_
  by_cases hxv : x = v
  · simp [hxv, hp, hq]
  · simp [hxv, hother x hx hxv]

end Canari.Lib.Counting
