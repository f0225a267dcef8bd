/-
  Canari.Lib.Worklist — a list of items gone through until a pass takes nothing: an item is
  left for a later pass until it is ready by what was taken before it, and is dropped for
  good when it is ready and not to be kept.

  What is taken within a pass counts at once for the items after it. When readiness only
  grows with what is taken, the items taken are the least fixpoint of the operator that
  takes every ready item worth keeping (`taken_eq_lfp`), so their order does not matter
  (`taken_perm`).
-/

import Mathlib.Order.FixedPoints
import Mathlib.Data.List.Chain
import Mathlib.Data.List.Perm.Lattice
import Mathlib.Order.CompletePartialOrder

namespace Canari.Lib.Worklist

open List

variable {α : Type}

structure Work (α : Type) where
  taken : List α
  left : List α
  moved : Bool

/-! ## Passes -/

section Passes

variable (ready : List α → α → Bool) (keep : α → Bool)

def visit (w : Work α) (a : α) : Work α :=
  if !ready w.taken a then { w with left := w.left ++ [a] }
  else if !keep a then w
  else { w with taken := w.taken ++ [a], moved := true }

def pass (taken pending : List α) : Work α := pending.foldl (visit ready keep) ⟨taken, [], false⟩

def passes : Nat → List α → List α → List α × List α
  | 0, taken, pending => (taken, pending)
  | fuel + 1, taken, pending =>
    let w := pass ready keep taken pending
    if w.moved && !w.left.isEmpty then passes fuel w.taken w.left else (w.taken, w.left)

def run (items : List α) : List α × List α := passes ready keep items.length [] items

end Passes

/-! ## The operator -/

def operator (enabled : Set α →o Set α) (keep : α → Bool) (items : List α) : Set α →o Set α where
  toFun S := { a | a ∈ items ∧ keep a = true ∧ a ∈ enabled S }
  monotone' _ _ h _ ha := ⟨ha.1, ha.2.1, enabled.monotone h ha.2.2⟩

theorem mem_operator {enabled : Set α →o Set α} {keep : α → Bool} {items : List α} {S : Set α} {a : α} :
    a ∈ operator enabled keep items S ↔ a ∈ items ∧ keep a = true ∧ a ∈ enabled S := Iff.rfl

theorem operator_perm {enabled : Set α →o Set α} {keep : α → Bool} {items items' : List α} (h : items.Perm items') :
    operator enabled keep items = operator enabled keep items' := by
  ext S a
  rw [mem_operator, mem_operator, h.mem_iff]

/-- Where an item is enabled by itself or by one item linked to it, every item of the least
    fixpoint ends a chain that starts at an item enabled by itself. -/
theorem exists_chain {enabled : Set α →o Set α} {keep : α → Bool} {items : List α} {start : α → Prop}
    {link : α → α → Prop}
    (he : ∀ S a, a ∈ enabled S → start a ∨ ∃ b ∈ S, link b a) {a : α} (ha : a ∈ (operator enabled keep items).lfp) :
    ∃ chain : List α, chain.IsChain link ∧ chain.getLast? = some a ∧ (∀ b ∈ chain, b ∈ items ∧ keep b = true) ∧
      ∀ b ∈ chain.head?, start b := by
  let chained : Set α := { a | ∃ chain : List α, chain.IsChain link ∧ chain.getLast? = some a ∧
    (∀ b ∈ chain, b ∈ items ∧ keep b = true) ∧ ∀ b ∈ chain.head?, start b }
  suffices h : (operator enabled keep items).lfp ≤ chained from h ha
  apply OrderHom.lfp_le
  intro a ha
  obtain ⟨hi, hk, hen⟩ := (mem_operator).mp ha
  rcases he chained a hen with hs | ⟨b, ⟨chain, hc, hl, hall, hh⟩, hb⟩
  · exact ⟨[a], List.IsChain.singleton a, rfl, by simp [hi, hk], by simpa using hs⟩
  · refine ⟨chain ++ [a], ?_, by simp, ?_, ?_⟩
    · rw [isChain_append]
      refine ⟨hc, List.IsChain.singleton a, ?_⟩
      intro x hx y hy
      rw [hl] at hx
      cases hx
      cases hy
      exact hb
    · intro c hc'
      rcases mem_append.mp hc' with hc' | hc'
      · exact hall c hc'
      · rw [mem_singleton.mp hc']
        exact ⟨hi, hk⟩
    · intro c hc'
      cases chain with
      | nil => cases hl
      | cons d rest => exact hh c hc'

/-! ## What a run takes -/

section Spec

variable {ready : List α → α → Bool} {keep : α → Bool} {enabled : Set α →o Set α} {items : List α}

/-- Taken items are of the least fixpoint, and an item neither taken nor waiting is not worth keeping. -/
structure Inv (enabled : Set α →o Set α) (keep : α → Bool) (items taken waiting : List α) : Prop where
  sound : ∀ a ∈ taken, a ∈ (operator enabled keep items).lfp
  among : ∀ a ∈ waiting, a ∈ items
  covered : ∀ a ∈ items, a ∈ taken ∨ a ∈ waiting ∨ keep a = false
  nodup : (taken ++ waiting).Nodup

variable (hr : ∀ taken a, ready taken a = true ↔ a ∈ enabled { x | x ∈ taken })
include hr

theorem inv_visit {w : Work α} {a : α} {rest : List α} (h : Inv enabled keep items w.taken (w.left ++ a :: rest)) :
    Inv enabled keep items (visit ready keep w a).taken ((visit ready keep w a).left ++ rest) := by
  have hmem : a ∈ items := h.among a (by simp)
  unfold visit
  split
  · simpa using h
  · rename_i hready
    have hen : a ∈ enabled { x | x ∈ w.taken } := (hr w.taken a).mp (by simpa using hready)
    split
    · rename_i hkeep
      refine ⟨h.sound, ?_, ?_, ?_⟩
      · intro b hb
        exact h.among b (by simp at hb ⊢; tauto)
      · intro b hb
        rcases h.covered b hb with ht | hw | hk
        · exact Or.inl ht
        · rcases mem_append.mp hw with hw | hw
          · exact Or.inr (Or.inl (mem_append_left _ hw))
          · rcases mem_cons.mp hw with hw | hw
            · subst hw
              exact Or.inr (Or.inr (by simpa using hkeep))
            · exact Or.inr (Or.inl (mem_append_right _ hw))
        · exact Or.inr (Or.inr hk)
      · refine h.nodup.sublist ?_
        exact (sublist_cons_self a rest).append_left w.left |>.append_left w.taken
    · rename_i hkeep
      have hperm : (w.taken ++ (w.left ++ a :: rest)).Perm (w.taken ++ [a] ++ (w.left ++ rest)) := by
        rw [append_assoc]
        exact (perm_middle).append_left w.taken
      refine ⟨?_, ?_, ?_, hperm.nodup h.nodup⟩
      · intro b hb
        rcases mem_append.mp hb with hb | hb
        · exact h.sound b hb
        · rw [mem_singleton.mp hb, ← OrderHom.map_lfp]
          exact (mem_operator).mpr ⟨hmem, by simpa using hkeep, enabled.monotone h.sound hen⟩
      · intro b hb
        exact h.among b (by simp at hb ⊢; tauto)
      · intro b hb
        rcases h.covered b hb with ht | hw | hk
        · exact Or.inl (mem_append_left _ ht)
        · have : b ∈ w.taken ++ [a] ++ (w.left ++ rest) := hperm.mem_iff.mp (mem_append_right _ hw)
          rcases mem_append.mp this with ht | hw
          · exact Or.inl ht
          · exact Or.inr (Or.inl hw)
        · exact Or.inr (Or.inr hk)

theorem inv_foldl (rest : List α) : ∀ w : Work α, Inv enabled keep items w.taken (w.left ++ rest) →
    Inv enabled keep items (rest.foldl (visit ready keep) w).taken (rest.foldl (visit ready keep) w).left := by
  induction rest with
  | nil => intro w h; simpa using h
  | cons a rest ih => intro w h; exact ih _ (inv_visit hr h)

variable {taken pending : List α}

theorem inv_pass (h : Inv enabled keep items taken pending) :
    Inv enabled keep items (pass ready keep taken pending).taken (pass ready keep taken pending).left :=
  inv_foldl hr pending _ (by simpa using h)

omit hr

theorem still_foldl (taken rest : List α) : ∀ w : Work α,
    (w.moved = false → w.taken = taken ∧ ∀ a ∈ w.left, ready taken a = false) →
    (rest.foldl (visit ready keep) w).moved = false →
    (rest.foldl (visit ready keep) w).taken = taken ∧ ∀ a ∈ (rest.foldl (visit ready keep) w).left,
      ready taken a = false := by
  induction rest with
  | nil => intro w h; exact h
  | cons a rest ih =>
    intro w h
    refine ih _ ?_
    unfold visit
    split
    · rename_i hready
      intro hm
      obtain ⟨ht, hl⟩ := h hm
      refine ⟨ht, ?_⟩
      intro b hb
      rcases mem_append.mp hb with hb | hb
      · exact hl b hb
      · rw [mem_singleton.mp hb, ← ht]
        simpa using hready
    · split
      · exact h
      · intro hm; cases hm

theorem still_pass (h : (pass ready keep taken pending).moved = false) :
    (pass ready keep taken pending).taken = taken ∧ ∀ a ∈ (pass ready keep taken pending).left, ready taken a = false :=
  still_foldl taken pending _ (fun _ => ⟨rfl, by simp⟩) h

variable (ready keep) in
theorem length_foldl (rest : List α) : ∀ w : Work α,
    (rest.foldl (visit ready keep) w).left.length + (if (rest.foldl (visit ready keep) w).moved then 1 else 0) ≤
      w.left.length + rest.length + (if w.moved then 1 else 0) := by
  induction rest with
  | nil => intro w; exact Nat.le_refl _
  | cons a rest ih =>
    intro w
    refine Nat.le_trans (ih _) ?_
    unfold visit
    split
    · simp only [length_append, length_cons, length_nil]
      omega
    · split
      · simp only [length_cons]
        omega
      · simp only [length_cons]
        split <;> omega

theorem length_pass (h : (pass ready keep taken pending).moved = true) :
    (pass ready keep taken pending).left.length < pending.length := by
  have hle := length_foldl ready keep pending ⟨taken, [], false⟩
  unfold pass at h ⊢
  rw [h] at hle
  simp only [if_true, length_nil, Bool.false_eq_true, if_false] at hle
  omega

include hr

theorem passes_spec (fuel : Nat) : ∀ taken pending : List α, pending.length ≤ fuel →
    Inv enabled keep items taken pending →
    Inv enabled keep items (passes ready keep fuel taken pending).1 (passes ready keep fuel taken pending).2 ∧
    ∀ a ∈ (passes ready keep fuel taken pending).2, ready (passes ready keep fuel taken pending).1 a = false := by
  induction fuel with
  | zero =>
    intro taken pending hf h
    have : pending = [] := eq_nil_of_length_eq_zero (Nat.le_zero.mp hf)
    subst this
    exact ⟨h, by simp [passes]⟩
  | succ fuel ih =>
    intro taken pending hf h
    have hinv := inv_pass hr h
    unfold passes
    simp only
    split
    · rename_i hm
      simp only [Bool.and_eq_true] at hm
      have := length_pass hm.1
      exact ih _ _ (by omega) hinv
    · rename_i hm
      refine ⟨hinv, ?_⟩
      cases hmoved : (pass ready keep taken pending).moved with
      | false =>
        obtain ⟨ht, hl⟩ := still_pass hmoved
        rw [ht]
        exact hl
      | true =>
        have : (pass ready keep taken pending).left = [] := by simpa [hmoved] using hm
        rw [this]
        simp

theorem run_spec (hn : items.Nodup) : Inv enabled keep items (run ready keep items).1 (run ready keep items).2 ∧
    ∀ a ∈ (run ready keep items).2, ready (run ready keep items).1 a = false :=
  passes_spec hr items.length [] items (Nat.le_refl _)
    ⟨by simp, fun _ ha => ha, fun _ ha => Or.inr (Or.inl ha), by simpa using hn⟩

theorem taken_eq_lfp (hn : items.Nodup) : { a | a ∈ (run ready keep items).1 } = (operator enabled keep items).lfp := by
  obtain ⟨hinv, hstuck⟩ : Inv enabled keep items _ _ ∧ _ := run_spec hr hn
  refine le_antisymm hinv.sound (OrderHom.lfp_le _ ?_)
  intro a ha
  obtain ⟨hi, hk, hen⟩ := (mem_operator).mp ha
  rcases hinv.covered a hi with ht | hl | hd
  · exact ht
  · have := hstuck a hl
    rw [(hr _ a).mpr hen] at this
    cases this
  · rw [hk] at hd
    cases hd

theorem taken_nodup (hn : items.Nodup) : (run ready keep items).1.Nodup := by
  obtain ⟨hinv, _⟩ : Inv enabled keep items _ _ ∧ _ := run_spec hr hn
  exact (nodup_append.mp hinv.nodup).1

theorem taken_perm {items' : List α} (hn : items.Nodup) (hp : items.Perm items') :
    (run ready keep items).1.Perm (run ready keep items').1 := by
  have hn' : items'.Nodup := hp.nodup hn
  rw [perm_ext_iff_of_nodup (taken_nodup hr hn) (taken_nodup hr hn')]
  intro a
  have h : _ = (operator enabled keep items).lfp := taken_eq_lfp hr hn
  have h' : _ = (operator enabled keep items').lfp := taken_eq_lfp hr hn'
  rw [← operator_perm hp] at h'
  exact Set.ext_iff.mp (h.trans h'.symm) a

end Spec

end Canari.Lib.Worklist
