/-
  Canari.Lib.Table — a database table: rows by a serial key that is never used twice.

  `count` is what `SELECT count(*)` answers, `sum` what `SELECT COALESCE(SUM(..), 0)`
  answers; the lemmas say how an insert, an update of one row, an update of every row
  and a delete move them.
-/

import Mathlib.Algebra.GroupWithZero.Nat
import Mathlib.Logic.Function.Basic
import Mathlib.Data.List.Range

namespace Canari.Lib

open List

structure Table (ρ : Type) where
  rows : Nat → Option ρ
  next : Nat

namespace Table

variable {ρ : Type}

def empty : Table ρ := ⟨fun _ => none, 0⟩

def insert (t : Table ρ) (r : ρ) : Table ρ := ⟨Function.update t.rows t.next (some r), t.next + 1⟩

def set (t : Table ρ) (i : Nat) (r : ρ) : Table ρ := { t with rows := Function.update t.rows i (some r) }

def delete (t : Table ρ) (i : Nat) : Table ρ := { t with rows := Function.update t.rows i none }

/-- `UPDATE` of every row. -/
def updateAll (t : Table ρ) (f : ρ → ρ) : Table ρ := { t with rows := fun i => (t.rows i).map f }

def count (t : Table ρ) (p : ρ → Bool) : Nat := (List.range t.next).countP fun i => (t.rows i).any p

def any (t : Table ρ) (p : Nat → ρ → Bool) : Bool := (List.range t.next).any fun i => (t.rows i).any (p i)

def Wf (t : Table ρ) : Prop := ∀ i r, t.rows i = some r → i < t.next

variable {t : Table ρ}

theorem wf_insert (h : t.Wf) (r : ρ) : (t.insert r).Wf := by
  intro i x hi
  show i < t.next + 1
  by_cases e : i = t.next
  · omega
  · have := h i x (by simpa [insert, e] using hi)
    omega

variable {i : Nat}

theorem wf_set (h : t.Wf) {x : ρ} (hi : t.rows i = some x) (r : ρ) : (t.set i r).Wf := by
  intro j y hj
  by_cases e : j = i
  · subst e; exact h j x hi
  · exact h j y (by simpa [set, e] using hj)

theorem any_eq_true (h : t.Wf) {p : Nat → ρ → Bool} : t.any p = true ↔ ∃ i r, t.rows i = some r ∧ p i r = true := by
  unfold any
  rw [List.any_eq_true]
  constructor
  · intro ⟨i, _, hi⟩
    obtain ⟨r, hr, hp⟩ := (Option.any_eq_true _ _).mp hi
    exact ⟨i, r, hr, hp⟩
  · intro ⟨i, r, hr, hp⟩
    exact ⟨i, mem_range.mpr (h i r hr), by rw [hr]; exact hp⟩

/-! ## Counting -/

theorem countP_lt {α : Type} {l : List α} {p q : α → Bool} (h : ∀ x ∈ l, q x = true → p x = true) {a : α} (ha : a ∈ l)
    (hp : p a = true)
    (hq : q a = false) : l.countP q < l.countP p := by
  induction l with
  | nil => cases ha
  | cons x l ih =>
    have hx := h x mem_cons_self
    have hrest : l.countP q ≤ l.countP p := countP_mono_left fun y hy => h y (mem_cons_of_mem _ hy)
    simp only [countP_cons]
    rcases mem_cons.mp ha with rfl | ha
    · simp only [hp, hq, if_true, Bool.false_eq_true, if_false]
      omega
    · have := ih (fun y hy => h y (mem_cons_of_mem _ hy)) ha
      by_cases hqx : q x = true
      · rw [if_pos hqx, if_pos (hx hqx)]; omega
      · rw [if_neg hqx]; split <;> omega

theorem countP_le_succ {l : List Nat} (hl : l.Nodup) {p q : Nat → Bool} (h : ∀ j, j ≠ i → q j = true → p j = true) :
    l.countP q ≤ l.countP p + 1 := by
  induction l with
  | nil => simp
  | cons a l ih =>
    obtain ⟨ha, hn⟩ := nodup_cons.mp hl
    have ihl := ih hn
    by_cases e : a = i
    · subst e
      have hrest : l.countP q ≤ l.countP p := countP_mono_left fun j hj => h j (fun e => ha (e ▸ hj))
      simp only [countP_cons]
      split <;> split <;> omega
    · have hap := h a e
      simp only [countP_cons]
      by_cases hq : q a = true
      · rw [if_pos hq, if_pos (hap hq)]; omega
      · rw [if_neg hq]; split <;> omega

theorem count_mono {p q : ρ → Bool} (h : ∀ r, p r = true → q r = true) : t.count p ≤ t.count q := by
  refine countP_mono_left fun i _ hi => ?_
  obtain ⟨r, hr, hp⟩ := (Option.any_eq_true _ _).mp hi
  rw [hr]
  exact h r hp

theorem count_set_le_succ (t : Table ρ) (i : Nat) (r : ρ) (p : ρ → Bool) : (t.set i r).count p ≤ t.count p + 1 := by
  refine countP_le_succ nodup_range (i := i) fun j hj hp => ?_
  simpa [set, hj] using hp

theorem count_set_le {r : ρ} {p : ρ → Bool} (h : p r = true → ∃ x, t.rows i = some x ∧ p x = true) :
    (t.set i r).count p ≤ t.count p := by
  refine countP_mono_left fun j _ hp => ?_
  by_cases e : j = i
  · subst e
    obtain ⟨x, hx, hpx⟩ := h (by simpa [set] using hp)
    rw [hx]; exact hpx
  · simpa [set, e] using hp

theorem count_insert_le_succ (r : ρ) (p : ρ → Bool) : (t.insert r).count p ≤ t.count p + 1 := by
  show (List.range (t.next + 1)).countP _ ≤ _
  rw [range_succ, countP_append, countP_singleton]
  have hold : (List.range t.next).countP (fun i => ((t.insert r).rows i).any p) ≤ t.count p := by
    refine countP_mono_left fun j hj hp => ?_
    have hne : j ≠ t.next := Nat.ne_of_lt (mem_range.mp hj)
    simpa [insert, hne] using hp
  split <;> omega

theorem count_updateAll_le {f : ρ → ρ} {p : ρ → Bool} (h : ∀ r, p (f r) = true → p r = true) :
    (t.updateAll f).count p ≤ t.count p := by
  refine countP_mono_left fun j _ hp => ?_
  obtain ⟨y, hy, hpy⟩ := (Option.any_eq_true _ _).mp hp
  obtain ⟨x, hx, rfl⟩ := Option.map_eq_some_iff.mp hy
  rw [hx]
  exact h x hpy

theorem count_delete_le (t : Table ρ) (i : Nat) (p : ρ → Bool) : (t.delete i).count p ≤ t.count p := by
  refine countP_mono_left fun j _ hp => ?_
  by_cases e : j = i
  · subst e; simp [delete] at hp
  · simpa [delete, e] using hp

/-! ## Summing -/

def sum (t : Table ρ) (f : ρ → Nat) : Nat := ((List.range t.next).map fun i => ((t.rows i).map f).getD 0).sum

theorem sum_map_le {l : List Nat} {f g : Nat → Nat} (h : ∀ i ∈ l, f i ≤ g i) : (l.map f).sum ≤ (l.map g).sum := by
  induction l with
  | nil => simp
  | cons a l ih =>
    have ha := h a (mem_cons_self ..)
    have hl := ih fun i hi => h i (mem_cons_of_mem _ hi)
    simp only [map_cons, sum_cons]
    omega

theorem sum_insert (t : Table ρ) (r : ρ) (f : ρ → Nat) : (t.insert r).sum f = t.sum f + f r := by
  show ((List.range (t.next + 1)).map _).sum = _
  rw [range_succ, map_append]
  have hold : (List.range t.next).map (fun i => (((t.insert r).rows i).map f).getD 0) =
      (List.range t.next).map (fun i => ((t.rows i).map f).getD 0) := by
    refine map_congr_left fun j hj => ?_
    have hne : j ≠ t.next := Nat.ne_of_lt (mem_range.mp hj)
    simp [insert, hne]
  rw [hold]
  simp [insert, sum]

theorem sum_set_le {r x : ρ} {f : ρ → Nat} (hi : t.rows i = some x) (h : f r ≤ f x) :
    (t.set i r).sum f ≤ t.sum f := by
  refine sum_map_le fun j _ => ?_
  by_cases e : j = i
  · subst e
    simpa [set, hi] using h
  · simp [set, e]

end Table

end Canari.Lib
