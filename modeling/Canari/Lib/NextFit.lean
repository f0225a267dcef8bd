/-
  Canari.Lib.NextFit — items put into bins in their order, the last bin first: an item that
  would take a bin past the limit opens a new one. A bin is never left empty for an item that
  fits nowhere, so a bin over the limit holds one item alone.

  `base` is what a bin costs before its first item.
-/

import Mathlib.Algebra.GroupWithZero.Nat
import Mathlib.Data.List.Basic

namespace Canari.Lib.NextFit

open List

variable {α : Type}

structure Bins (α : Type) where
  closed : List (List α)
  last : List α

def Bins.all (b : Bins α) : List (List α) := b.closed ++ [b.last]

section Pack

variable (cost : α → Nat) (base limit : Nat)

def size (bin : List α) : Nat := base + (bin.map cost).sum

def put (b : Bins α) (a : α) : Bins α :=
  if !b.last.isEmpty && decide (limit < size cost base b.last + cost a) then ⟨b.closed ++ [b.last], [a]⟩
  else ⟨b.closed, b.last ++ [a]⟩

def pack (items : List α) : Bins α := items.foldl (put cost base limit) ⟨[], []⟩

end Pack

variable {cost : α → Nat} {base limit : Nat}

@[simp] theorem size_nil : size cost base [] = base := rfl

theorem size_concat (bin : List α) (a : α) : size cost base (bin ++ [a]) = size cost base bin + cost a := by
  simp [size, Nat.add_assoc]

theorem put_cases (cost : α → Nat) (base limit : Nat) (b : Bins α) (a : α) :
    (b.last ≠ [] ∧ put cost base limit b a = ⟨b.closed ++ [b.last], [a]⟩) ∨
      ((b.last = [] ∨ size cost base b.last + cost a ≤ limit) ∧
        put cost base limit b a = ⟨b.closed, b.last ++ [a]⟩) := by
  unfold put
  split
  · rename_i h
    simp only [Bool.and_eq_true, Bool.not_eq_true', isEmpty_eq_false_iff] at h
    exact Or.inl ⟨h.1, rfl⟩
  · rename_i h
    refine Or.inr ⟨?_, rfl⟩
    by_cases hl : b.last = []
    · exact Or.inl hl
    · right
      simpa [hl] using h

theorem flatten_put (b : Bins α) (a : α) : (put cost base limit b a).all.flatten = b.all.flatten ++ [a] := by
  rcases put_cases cost base limit b a with ⟨-, h⟩ | ⟨-, h⟩ <;> simp [h, Bins.all]

theorem flatten_pack (items : List α) : (pack cost base limit items).all.flatten = items := by
  have hfold : ∀ (items : List α) (b : Bins α),
    (items.foldl (put cost base limit) b).all.flatten = b.all.flatten ++ items := by
    intro items
    induction items with
    | nil => intro b; simp
    | cons a rest ih => intro b; rw [foldl_cons, ih, flatten_put, append_assoc, singleton_append]
  rw [pack, hfold]
  rfl

/-- The bins behind the last one hold something, and no bin of several items is past the limit. -/
structure Fitting (cost : α → Nat) (base limit : Nat) (b : Bins α) : Prop where
  closed : ∀ bin ∈ b.closed, bin ≠ []
  fits : ∀ bin ∈ b.all, 2 ≤ bin.length → size cost base bin ≤ limit

theorem fitting_put {b : Bins α} (h : Fitting cost base limit b)
    (a : α) : Fitting cost base limit (put cost base limit b a) := by
  rcases put_cases cost base limit b a with ⟨hl, hput⟩ | ⟨hroom, hput⟩
  · rw [hput]
    refine ⟨?_, ?_⟩
    · intro bin hbin
      rcases mem_append.mp hbin with hbin | hbin
      · exact h.closed bin hbin
      · rw [mem_singleton.mp hbin]
        exact hl
    · intro bin hbin hlen
      rcases mem_append.mp hbin with hbin | hbin
      · exact h.fits bin hbin hlen
      · rw [mem_singleton.mp hbin] at hlen
        exact absurd hlen (by simp)
  · rw [hput]
    refine ⟨h.closed, ?_⟩
    intro bin hbin hlen
    rcases mem_append.mp hbin with hbin | hbin
    · exact h.fits bin (mem_append_left _ hbin) hlen
    · rw [mem_singleton.mp hbin] at hlen ⊢
      rw [size_concat]
      rcases hroom with hnil | hroom
      · rw [hnil] at hlen
        exact absurd hlen (by simp)
      · exact hroom

theorem fitting_pack (items : List α) : Fitting cost base limit (pack cost base limit items) := by
  refine List.foldlRecOn (motive := Fitting cost base limit) items _ ⟨by simp, ?_⟩ fun b h a _ => fitting_put h a
  intro bin hbin hlen
  rw [mem_singleton.mp hbin] at hlen
  cases hlen

theorem last_put_ne_nil (b : Bins α) (a : α) : (put cost base limit b a).last ≠ [] := by
  rcases put_cases cost base limit b a with ⟨-, h⟩ | ⟨-, h⟩ <;> simp [h]

theorem ne_nil_of_mem_pack {items : List α} (h : items ≠ []) {bin : List α}
    (hbin : bin ∈ (pack cost base limit items).all) :
    bin ≠ [] := by
  rcases mem_append.mp hbin with hbin | hbin
  · exact (fitting_pack items).closed bin hbin
  · rw [mem_singleton.mp hbin, ← dropLast_append_getLast h, pack, foldl_append]
    exact last_put_ne_nil _ _

end Canari.Lib.NextFit
