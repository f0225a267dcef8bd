/-
  Canari.Lib.ParentForest — disjoint sets, kept as a forest of parents.

  An element that is its own parent is the root of its tree. Two writes change a forest: pointing an
  element at its root (`root_compress`: every element keeps its root) and pointing a root at another
  root (`root_attach`: the elements of the one tree come under the other's root). So an equivalence the
  forest stands for grows by exactly the pair that is joined (`Stands.attach`). In a forest on a finite
  set a root is fewer steps away than the set has elements (`Forest.depth_lt`).
-/

import Mathlib.Data.List.Nodup
import Mathlib.Data.List.Perm.Subperm
import Mathlib.Logic.Function.Basic
import Mathlib.Logic.Relation

namespace Canari.Lib.ParentForest

open Function

variable {α : Type} {parent : α → α} {a b r s x y : α} {n m : Nat}

/-- Going up from an element, `n` parents lead to a root. -/
inductive Leads (parent : α → α) : α → Nat → α → Prop
  | root {r : α} : parent r = r → Leads parent r 0 r
  | up {a r : α} {n : Nat} : parent a ≠ a → Leads parent (parent a) n r → Leads parent a (n + 1) r

theorem Leads.isRoot (h : Leads parent a n r) : parent r = r := by
  induction h with
  | root hr => exact hr
  | up _ _ ih => exact ih

theorem Leads.unique (h : Leads parent a n r) (h' : Leads parent a m s) : n = m ∧ r = s := by
  induction h generalizing m with
  | root hr =>
    cases h' with
    | root _ => exact ⟨rfl, rfl⟩
    | up hne _ => exact absurd hr hne
  | up hne _ ih =>
    cases h' with
    | root hr => exact absurd hr hne
    | up _ h' =>
      obtain ⟨rfl, rfl⟩ := ih h'
      exact ⟨rfl, rfl⟩

variable {V : List α}

theorem Leads.exists_path (h : Leads parent a n r) (ha : a ∈ V) (hclosed : ∀ x ∈ V, parent x ∈ V) :
    ∃ path : List α, path.Nodup ∧ path.length = n + 1 ∧ ∀ x ∈ path, x ∈ V ∧ ∃ m ≤ n, Leads parent x m r := by
  induction h with
  | @root r hr =>
    refine ⟨[r], List.nodup_singleton r, rfl, fun x hx => ?_⟩
    rw [List.mem_singleton.mp hx]
    exact ⟨ha, 0, Nat.le_refl 0, .root hr⟩
  | @up a r n hne h ih =>
    obtain ⟨path, hnodup, hlength, hpath⟩ := ih (hclosed a ha)
    refine ⟨a :: path, List.nodup_cons.mpr ⟨fun hmem => ?_, hnodup⟩, by rw [List.length_cons, hlength], fun x hx => ?_⟩
    · -- The element is higher than all on the path.
      obtain ⟨-, m, hm, hlow⟩ := hpath a hmem
      have heq := ((Leads.up hne h).unique hlow).1
      omega
    · rcases List.mem_cons.mp hx with rfl | hx
      · exact ⟨ha, n + 1, Nat.le_refl _, .up hne h⟩
      · obtain ⟨hxV, m, hm, hlow⟩ := hpath x hx
        exact ⟨hxV, m, by omega, hlow⟩

def Root (parent : α → α) (a r : α) : Prop := ∃ n, Leads parent a n r

theorem Root.isRoot (h : Root parent a r) : parent r = r := h.elim fun _ h => h.isRoot

theorem Root.self (h : parent r = r) : Root parent r r := ⟨0, .root h⟩

theorem Root.unique (h : Root parent a r) (h' : Root parent a s) : r = s := by
  obtain ⟨n, h⟩ := h
  obtain ⟨m, h'⟩ := h'
  exact (h.unique h').2

theorem Root.up (hne : parent a ≠ a)
    (h : Root parent (parent a) r) : Root parent a r := h.elim fun n h => ⟨n + 1, .up hne h⟩

/-! ## A forest on a set -/

/-- Every element has a root, and the set is closed under parents. -/
structure Forest (V : List α) (parent : α → α) : Prop where
  rooted : ∀ a, ∃ r, Root parent a r
  closed : ∀ a ∈ V, parent a ∈ V

theorem Forest.id (V : List α) : Forest V (id : α → α) := ⟨fun a => ⟨a, .self rfl⟩, fun _ ha => ha⟩

theorem Forest.root_mem (hf : Forest V parent) (ha : a ∈ V) (h : Root parent a r) : r ∈ V := by
  obtain ⟨n, h⟩ := h
  induction h with
  | root _ => exact ha
  | up _ _ ih => exact ih (hf.closed _ ha)

theorem Forest.depth_lt (hf : Forest V parent) (ha : a ∈ V) (h : Leads parent a n r) : n < V.length := by
  obtain ⟨path, hnodup, hlength, hpath⟩ := h.exists_path ha hf.closed
  have hle : path.length ≤ V.length := (hnodup.subperm fun x hx => (hpath x hx).1).length_le
  omega

variable [DecidableEq α]

theorem root_compress (ha : Root parent a r) (hx : Root parent x s) : Root (Function.update parent a r) x s := by
  obtain ⟨n, hx⟩ := hx
  induction hx with
  | @root s hs =>
    refine .self ?_
    by_cases hsa : s = a
    · subst hsa
      rw [update_self]
      exact ha.unique (.self hs)
    · rw [update_of_ne hsa, hs]
  | @up x s n hne h ih =>
    by_cases hxa : x = a
    · subst hxa
      have hrs : r = s := ha.unique ⟨n + 1, .up hne h⟩
      subst hrs
      have hrx : r ≠ x := fun he => hne (he ▸ ha.isRoot)
      have hat : Function.update parent x r x = r := update_self x r parent
      refine .up (by rw [hat]; exact hrx) ?_
      rw [hat]
      exact .self (by rw [update_of_ne hrx, ha.isRoot])
    · have hat : Function.update parent a r x = parent x := update_of_ne hxa r parent
      refine .up (by rw [hat]; exact hne) ?_
      rw [hat]
      exact ih

theorem root_attach (ha : parent a = a) (hb : parent b = b) (hne : a ≠ b) (hx : Root parent x s) :
    Root (Function.update parent a b) x (if s = a then b else s) := by
  have hbroot : Root (Function.update parent a b) b b := .self (by rw [update_of_ne hne.symm, hb])
  obtain ⟨n, hx⟩ := hx
  induction hx with
  | @root s hs =>
    by_cases hsa : s = a
    · subst hsa
      have hat : Function.update parent s b s = b := update_self s b parent
      rw [if_pos rfl]
      refine .up (by rw [hat]; exact hne.symm) ?_
      rw [hat]
      exact hbroot
    · rw [if_neg hsa]
      exact .self (by rw [update_of_ne hsa, hs])
  | @up x s n hup _ ih =>
    have hxa : x ≠ a := fun he => hup (he ▸ ha)
    have hat : Function.update parent a b x = parent x := update_of_ne hxa b parent
    refine .up (by rw [hat]; exact hup) ?_
    rw [hat]
    exact ih

theorem Forest.compress (hf : Forest V parent) (ha : Root parent a r) : Forest V (Function.update parent a r) := by
  refine ⟨fun x => ?_, fun x hx => ?_⟩
  · obtain ⟨s, hs⟩ := hf.rooted x
    exact ⟨s, root_compress ha hs⟩
  · by_cases hxa : x = a
    · subst hxa
      rw [update_self]
      exact hf.root_mem hx ha
    · rw [update_of_ne hxa]
      exact hf.closed x hx

theorem Forest.attach (hf : Forest V parent) (ha : parent a = a) (hb : parent b = b) (hbV : b ∈ V) (hne : a ≠ b) :
    Forest V (Function.update parent a b) := by
  refine ⟨fun x => ?_, fun x hx => ?_⟩
  · obtain ⟨s, hs⟩ := hf.rooted x
    exact ⟨_, root_attach ha hb hne hs⟩
  · by_cases hxa : x = a
    · subst hxa
      rwa [update_self]
    · rw [update_of_ne hxa]
      exact hf.closed x hx

/-! ## The equivalence a forest stands for -/

/-- Two elements have one root exactly when the relation ties them. -/
def Stands (parent : α → α) (R : α → α → Prop) : Prop :=
  ∀ x y, (∃ r, Root parent x r ∧ Root parent y r) ↔ Relation.EqvGen R x y

omit [DecidableEq α] in
theorem Stands.id : Stands (id : α → α) fun _ _ => False := by
  intro x y
  constructor
  · intro h
    obtain ⟨r, hx, hy⟩ := h
    rw [(Root.self rfl).unique hx, (Root.self rfl).unique hy]
    exact .refl r
  · intro h
    induction h with
    | rel _ _ h => exact h.elim
    | refl x => exact ⟨x, .self rfl, .self rfl⟩
    | symm _ _ _ ih => exact ih.imp fun r h => h.symm
    | trans _ _ _ _ _ ih ih' =>
      obtain ⟨r, hx, hy⟩ := ih
      obtain ⟨s, hy', hz⟩ := ih'
      exact ⟨r, hx, hy.unique hy' ▸ hz⟩

variable {R : α → α → Prop}

omit [DecidableEq α] in
theorem Stands.congr {parent' : α → α} (hs : Stands parent R) (hf : ∀ a, ∃ r, Root parent a r)
    (h : ∀ x s, Root parent x s → Root parent' x s) :
    Stands parent' R := by
  intro x y
  rw [← hs x y]
  constructor
  · intro hr
    obtain ⟨r, hx, hy⟩ := hr
    obtain ⟨s, hxs⟩ := hf x
    obtain ⟨t, hyt⟩ := hf y
    refine ⟨s, hxs, ?_⟩
    rw [(h x s hxs).unique hx, ← (h y t hyt).unique hy]
    exact hyt
  · intro hr
    obtain ⟨r, hx, hy⟩ := hr
    exact ⟨r, h x r hx, h y r hy⟩

omit [DecidableEq α] in
theorem eqvGen_insert {x y : α} (hab : Relation.EqvGen R a b) :
    Relation.EqvGen (fun u v => R u v ∨ u = a ∧ v = b) x y ↔ Relation.EqvGen R x y := by
  constructor
  · intro h
    induction h with
    | rel u v h =>
      rcases h with h | ⟨rfl, rfl⟩
      · exact .rel u v h
      · exact hab
    | refl u => exact .refl u
    | symm u v _ ih => exact .symm u v ih
    | trans u v w _ _ ih ih' => exact .trans u v w ih ih'
  · exact Relation.EqvGen.mono (fun _ _ h => Or.inl h) x y

theorem Stands.attach {ra rb : α} (hs : Stands parent R) (hf : ∀ a, ∃ r, Root parent a r) (ha : Root parent a ra)
    (hb : Root parent b rb)
    (hne : ra ≠ rb) : Stands (Function.update parent ra rb) fun u v => R u v ∨ u = a ∧ v = b := by
  have hmoved : ∀ {x s}, Root parent x s → Root (Function.update parent ra rb) x (if s = ra then rb else s) :=
    fun hx => root_attach ha.isRoot hb.isRoot hne hx
  -- In the tree of an element's old root everything is tied as it was.
  have hold : ∀ {x y s}, Root parent x s → Root parent y s → Relation.EqvGen (fun u v => R u v ∨ u = a ∧ v = b) x y :=
    fun {x y} _ hx hy => Relation.EqvGen.mono (fun _ _ h => Or.inl h) x y ((hs x y).mp ⟨_, hx, hy⟩)
  have hab : Relation.EqvGen (fun u v => R u v ∨ u = a ∧ v = b) a b := .rel a b (.inr ⟨rfl, rfl⟩)
  intro x y
  constructor
  · intro h
    obtain ⟨r, hx, hy⟩ := h
    obtain ⟨s, hxs⟩ := hf x
    obtain ⟨t, hyt⟩ := hf y
    have hst : (if s = ra then rb else s) = if t = ra then rb else t := by
      rw [(hmoved hxs).unique hx, (hmoved hyt).unique hy]
    by_cases hsa : s = ra
    · by_cases hta : t = ra
      · exact hold hxs (hsa.trans hta.symm ▸ hyt)
      · rw [if_pos hsa, if_neg hta] at hst
        exact .trans _ _ _ (hold (hsa ▸ hxs) ha) (.trans _ _ _ hab (hold hb (hst ▸ hyt)))
    · by_cases hta : t = ra
      · rw [if_neg hsa, if_pos hta] at hst
        exact .trans _ _ _ (hold (hst ▸ hxs) hb) (.trans _ _ _ (.symm _ _ hab) (hold ha (hta ▸ hyt)))
      · rw [if_neg hsa, if_neg hta] at hst
        exact hold hxs (hst ▸ hyt)
  · intro h
    induction h with
    | rel u v h =>
      rcases h with h | ⟨rfl, rfl⟩
      · obtain ⟨r, hu, hv⟩ := (hs u v).mpr (.rel u v h)
        exact ⟨_, hmoved hu, hmoved hv⟩
      · have hu := hmoved ha
        have hv := hmoved hb
        rw [if_pos rfl] at hu
        rw [if_neg hne.symm] at hv
        exact ⟨rb, hu, hv⟩
    | refl u =>
      obtain ⟨s, hs⟩ := hf u
      exact ⟨_, hmoved hs, hmoved hs⟩
    | symm u v _ ih => exact ih.imp fun r h => h.symm
    | trans u v w _ _ ih ih' =>
      obtain ⟨r, hu, hv⟩ := ih
      obtain ⟨s, hv', hw⟩ := ih'
      exact ⟨r, hu, hv.unique hv' ▸ hw⟩

end Canari.Lib.ParentForest
