/-
  Canari.Lib.Runs — a set of points as a list of half-open ranges.

  A list is `Merged` when every range has points and leaves a gap before the next one. Such a
  list holds exactly the maximal stretches of the set it covers (`mem_iff_stretch`), so two of them
  that cover the same points are the same list (`eq_of_covers`). `merge` sorts ranges and joins
  those that overlap or touch, `subtract` takes one range away: both give a merged list again
  and change the set by what they say.
-/

import Mathlib.Data.List.Sort
import Mathlib.Data.List.Pairwise
import Mathlib.Order.MinMax
import Mathlib.Tactic.Order

namespace Canari.Lib.Runs

open List

variable {α : Type} [LinearOrder α]

def Covers (runs : List (α × α)) (m : α) : Prop := ∃ r ∈ runs, r.1 ≤ m ∧ m < r.2

instance (runs : List (α × α)) (m : α) : Decidable (Covers runs m) :=
  inferInstanceAs (Decidable (∃ r ∈ runs, r.1 ≤ m ∧ m < r.2))

structure Merged (runs : List (α × α)) : Prop where
  ranges : ∀ r ∈ runs, r.1 < r.2
  gaps : runs.Pairwise fun a b => a.2 < b.1

/-- `[a, b)` is in the set, and no larger range around it is. -/
structure Stretch (T : α → Prop) (a b : α) : Prop where
  range : a < b
  inside : ∀ m, a ≤ m → m < b → T m
  after : ¬ T b
  before : ∀ m, m < a → ∃ k, m ≤ k ∧ k < a ∧ ¬ T k

variable {runs : List (α × α)} {r : α × α} {m a b : α}

@[simp] theorem not_covers_nil : ¬ Covers ([] : List (α × α)) m := by
  simp [Covers]

theorem covers_cons : Covers (r :: runs) m ↔ (r.1 ≤ m ∧ m < r.2) ∨ Covers runs m := by
  simp [Covers]

variable {runs' : List (α × α)}

theorem covers_append : Covers (runs ++ runs') m ↔ Covers runs m ∨ Covers runs' m := by
  simp [Covers, or_and_right, exists_or]

theorem covers_perm (h : runs.Perm runs') : Covers runs m ↔ Covers runs' m := by
  simp [Covers, h.mem_iff]

theorem covers_flatMap {f : α × α → List (α × α)} : Covers (runs.flatMap f) m ↔ ∃ r ∈ runs, Covers (f r) m := by
  simp only [Covers, mem_flatMap]
  constructor
  · rintro ⟨p, ⟨q, hq, hp⟩, hm⟩
    exact ⟨q, hq, p, hp, hm⟩
  · rintro ⟨q, hq, p, hp, hm⟩
    exact ⟨p, ⟨q, hq, hp⟩, hm⟩

/-! ## A merged list is the maximal stretches -/

/-- Of two ranges of a merged list, one ends before the other starts. -/
theorem Merged.apart (h : Merged runs) {p q : α × α} (hp : p ∈ runs) (hq : q ∈ runs) (hne : p ≠ q) :
    p.2 < q.1 ∨ q.2 < p.1 := by
  have : Std.Symm fun a b : α × α => a.2 < b.1 ∨ b.2 < a.1 := ⟨fun _ _ hab => hab.symm⟩
  have hsym : runs.Pairwise fun a b => a.2 < b.1 ∨ b.2 < a.1 := h.gaps.imp Or.inl
  exact hsym.forall hp hq hne

theorem Merged.eq_of_common (h : Merged runs) {p q : α × α} (hp : p ∈ runs) (hq : q ∈ runs) (hpm : p.1 ≤ m ∧ m < p.2)
    (hqm : q.1 ≤ m ∧ m < q.2) :
    p = q := by
  by_contra hne
  rcases h.apart hp hq hne with hgap | hgap <;> order

theorem Merged.not_covers_stop (h : Merged runs) (hr : r ∈ runs) : ¬ Covers runs r.2 := by
  rintro ⟨q, hq, hle, hlt⟩
  have hrr := h.ranges r hr
  by_cases hne : r = q
  · subst hne
    exact lt_irrefl _ hlt
  · rcases h.apart hr hq hne with hgap | hgap <;> order

theorem Merged.stretch (h : Merged runs) (hr : r ∈ runs) : Stretch (Covers runs) r.1 r.2 := by
  refine ⟨h.ranges r hr, fun m hle hlt => ⟨r, hr, hle, hlt⟩, h.not_covers_stop hr, fun m hm => ?_⟩
  by_cases hc : Covers runs m
  · -- The range that holds `m` ends before this one starts: its end is the gap.
    obtain ⟨q, hq, hle, hlt⟩ := hc
    have hrr := h.ranges r hr
    have hne : r ≠ q := by
      rintro rfl
      order
    rcases h.apart hr hq hne with hgap | hgap
    · order
    · exact ⟨q.2, hlt.le, hgap, h.not_covers_stop hq⟩
  · exact ⟨m, le_rfl, hm, hc⟩

theorem mem_iff_stretch (h : Merged runs) : (a, b) ∈ runs ↔ Stretch (Covers runs) a b := by
  constructor
  · intro hab
    exact h.stretch hab
  · intro hs
    obtain ⟨r, hr, hle, hlt⟩ := hs.inside a le_rfl hs.range
    have hstart : r.1 = a := by
      by_contra hne
      obtain ⟨k, hk, hka, hnot⟩ := hs.before r.1 (lt_of_le_of_ne hle hne)
      exact hnot ⟨r, hr, hk, by order⟩
    have hstop : r.2 = b := by
      rcases lt_trichotomy r.2 b with hlt' | heq | hgt
      · exact absurd (hs.inside r.2 hlt.le hlt') (h.not_covers_stop hr)
      · exact heq
      · exact absurd ⟨r, hr, by have := hs.range; order, hgt⟩ hs.after
    rwa [← hstart, ← hstop]

theorem Merged.sorted (h : Merged runs) : runs.Pairwise fun a b => a.1 < b.1 := by
  refine h.gaps.imp_of_mem fun {a b} ha _ hab => ?_
  exact lt_trans (h.ranges a ha) hab

theorem Merged.nodup (h : Merged runs) : runs.Nodup :=
  h.sorted.imp fun hab heq => absurd (congrArg Prod.fst heq) hab.ne

theorem eq_of_covers (h : Merged runs) (h' : Merged runs')
    (hc : ∀ m, Covers runs m ↔ Covers runs' m) : runs = runs' := by
  have hfun : Covers runs = Covers runs' := funext fun m => propext (hc m)
  have hmem : ∀ r, r ∈ runs ↔ r ∈ runs' := fun r => by
    rw [mem_iff_stretch h, mem_iff_stretch h', hfun]
  have hperm : runs.Perm runs' := (perm_ext_iff_of_nodup h.nodup h'.nodup).mpr hmem
  refine hperm.eq_of_pairwise (fun a b _ _ hab hba => ?_) h.sorted h'.sorted
  order

/-! ## Merging -/

/-- The order of `sort((a, b) => a[0] - b[0] || a[1] - b[1])`. -/
def before (a b : α × α) : Prop := a.1 < b.1 ∨ a.1 = b.1 ∧ a.2 ≤ b.2

instance : DecidableRel (before (α := α)) := fun a b =>
  inferInstanceAs (Decidable (a.1 < b.1 ∨ a.1 = b.1 ∧ a.2 ≤ b.2))

/-- The loop over the sorted ranges: the last one grows while the next one reaches it. -/
def absorb (last : α × α) : List (α × α) → List (α × α)
  | [] => [last]
  | r :: rest => if r.1 ≤ last.2 then absorb (last.1, max last.2 r.2) rest else last :: absorb r rest

def join : List (α × α) → List (α × α)
  | [] => []
  | r :: rest => absorb r rest

def merge (runs : List (α × α)) : List (α × α) := join (runs.insertionSort before)

theorem covers_absorb {last : α × α} (hs : (last :: runs).Pairwise fun a b => a.1 ≤ b.1) :
    Covers (absorb last runs) m ↔ Covers (last :: runs) m := by
  induction runs generalizing last with
  | nil => rfl
  | cons r rest ih =>
    rw [pairwise_cons] at hs
    have hle : last.1 ≤ r.1 := hs.1 r mem_cons_self
    rw [absorb]
    split_ifs with hr
    · have hs' : ((last.1, max last.2 r.2) :: rest).Pairwise fun a b => a.1 ≤ b.1 :=
        pairwise_cons.mpr ⟨fun q hq => hs.1 q (mem_cons_of_mem r hq), hs.2.tail⟩
      rw [ih hs']
      simp only [covers_cons, ← or_assoc]
      refine or_congr_left ⟨?_, ?_⟩
      · rintro ⟨h1, h2⟩
        rcases lt_or_ge m last.2 with hlt | hge
        · exact .inl ⟨h1, hlt⟩
        · exact .inr ⟨by order, (lt_max_iff.mp h2).resolve_left (not_lt.mpr hge)⟩
      · rintro (⟨h1, h2⟩ | ⟨h1, h2⟩)
        · exact ⟨h1, lt_max_iff.mpr (.inl h2)⟩
        · exact ⟨by order, lt_max_iff.mpr (.inr h2)⟩
    · rw [covers_cons, ih hs.2, covers_cons (r := last)]

theorem le_of_mem_absorb {last : α × α} (hs : (last :: runs).Pairwise fun a b => a.1 ≤ b.1)
    (hr : r ∈ absorb last runs) :
    last.1 ≤ r.1 := by
  induction runs generalizing last with
  | nil => rw [mem_singleton.mp hr]
  | cons q rest ih =>
    rw [pairwise_cons] at hs
    rw [absorb] at hr
    split_ifs at hr with hq
    · have hs' : ((last.1, max last.2 q.2) :: rest).Pairwise fun a b => a.1 ≤ b.1 :=
        pairwise_cons.mpr ⟨fun p hp => hs.1 p (mem_cons_of_mem q hp), hs.2.tail⟩
      exact show (last.1, max last.2 q.2).1 ≤ r.1 from ih hs' hr
    · rcases mem_cons.mp hr with rfl | hr
      · exact le_rfl
      · exact le_trans (hs.1 q mem_cons_self) (ih hs.2 hr)

theorem merged_absorb {last : α × α} (hs : (last :: runs).Pairwise fun a b => a.1 ≤ b.1)
    (hne : ∀ r ∈ last :: runs, r.1 < r.2) : Merged (absorb last runs) := by
  induction runs generalizing last with
  | nil => exact ⟨hne, pairwise_singleton _ _⟩
  | cons q rest ih =>
    have hlast := hne last mem_cons_self
    have hs' := pairwise_cons.mp hs
    rw [absorb]
    split_ifs with hq
    · refine ih (pairwise_cons.mpr ⟨fun p hp => hs'.1 p (mem_cons_of_mem q hp), hs'.2.tail⟩) fun p hp => ?_
      rcases mem_cons.mp hp with rfl | hp
      · exact lt_max_iff.mpr (.inl hlast)
      · exact hne p (mem_cons_of_mem _ (mem_cons_of_mem q hp))
    · have hrest := ih hs'.2 fun p hp => hne p (mem_cons_of_mem last hp)
      refine ⟨fun p hp => ?_, pairwise_cons.mpr ⟨fun p hp => ?_, hrest.gaps⟩⟩
      · rcases mem_cons.mp hp with rfl | hp
        · exact hlast
        · exact hrest.ranges p hp
      · exact lt_of_lt_of_le (not_le.mp hq) (le_of_mem_absorb hs'.2 hp)

theorem sorted_insertionSort (runs : List (α × α)) : (runs.insertionSort before).Pairwise fun a b => a.1 ≤ b.1 := by
  have : Std.Total (before (α := α)) := ⟨fun a b => by
    rcases lt_trichotomy a.1 b.1 with h | h | h
    · exact .inl (.inl h)
    · exact (le_total a.2 b.2).imp (fun h' => .inr ⟨h, h'⟩) (fun h' => .inr ⟨h.symm, h'⟩)
    · exact .inr (.inl h)⟩
  have : IsTrans (α × α) before := ⟨fun a b c hab hbc => by
    rcases hab with hab | ⟨hab, hab'⟩ <;> rcases hbc with hbc | ⟨hbc, hbc'⟩
    · exact .inl (hab.trans hbc)
    · exact .inl (hbc ▸ hab)
    · exact .inl (hab ▸ hbc)
    · exact .inr ⟨hab.trans hbc, hab'.trans hbc'⟩⟩
  refine (pairwise_insertionSort before runs).imp fun hab => ?_
  rcases hab with hab | ⟨hab, -⟩
  · exact hab.le
  · exact hab.le

theorem covers_merge : Covers (merge runs) m ↔ Covers runs m := by
  rw [← covers_perm (perm_insertionSort before runs), merge]
  have hs := sorted_insertionSort runs
  cases h : runs.insertionSort before with
  | nil => rfl
  | cons r rest =>
    rw [h] at hs
    exact covers_absorb hs

theorem merged_merge (hne : ∀ r ∈ runs, r.1 < r.2) : Merged (merge runs) := by
  rw [merge]
  have hs := sorted_insertionSort runs
  have hmem : ∀ q, q ∈ runs.insertionSort before → q ∈ runs := fun q => (perm_insertionSort before runs).mem_iff.mp
  cases h : runs.insertionSort before with
  | nil => exact ⟨fun r hr => (not_mem_nil hr).elim, List.Pairwise.nil⟩
  | cons r rest =>
    rw [h] at hs hmem
    exact merged_absorb hs fun q hq => hne q (hmem q hq)

theorem merge_of_perm (h : Merged runs) (hp : runs'.Perm runs) : merge runs' = runs :=
  eq_of_covers (merged_merge fun r hr => h.ranges r (hp.mem_iff.mp hr)) h fun _ => (covers_merge).trans (covers_perm hp)

/-! ## Taking a range away -/

variable {lo hi : α}

def cut (lo hi : α) (r : α × α) : List (α × α) :=
  if r.2 ≤ lo ∨ hi ≤ r.1 then [r]
  else (if r.1 < lo then [(r.1, lo)] else []) ++ (if hi < r.2 then [(hi, r.2)] else [])

def subtract (runs : List (α × α)) (lo hi : α) : List (α × α) := runs.flatMap (cut lo hi)

theorem mem_cut {p : α × α} (hp : p ∈ cut lo hi r) :
    (p = r ∧ (r.2 ≤ lo ∨ hi ≤ r.1)) ∨
      ((lo < r.2 ∧ r.1 < hi) ∧ ((p = (r.1, lo) ∧ r.1 < lo) ∨ (p = (hi, r.2) ∧ hi < r.2))) := by
  rw [cut] at hp
  split_ifs at hp with h h1 h2 h2 <;> simp_all

theorem covers_cut : Covers (cut lo hi r) m ↔ (r.1 ≤ m ∧ m < r.2) ∧ ¬ (lo ≤ m ∧ m < hi) := by
  constructor
  · rintro ⟨p, hp, h1, h2⟩
    rcases mem_cut hp with ⟨rfl, h | h⟩ | ⟨⟨h3, h4⟩, ⟨rfl, h5⟩ | ⟨rfl, h5⟩⟩
    · exact ⟨⟨h1, h2⟩, fun h' => by order⟩
    · exact ⟨⟨h1, h2⟩, fun h' => by order⟩
    · exact ⟨⟨h1, lt_trans h2 h3⟩, fun h' => absurd h2 (not_lt.mpr h'.1)⟩
    · exact ⟨⟨le_trans h4.le h1, h2⟩, fun h' => absurd h'.2 (not_lt.mpr h1)⟩
  · rintro ⟨⟨h1, h2⟩, h3⟩
    rw [cut]
    split
    · exact ⟨r, mem_singleton_self r, h1, h2⟩
    · rw [covers_append]
      rcases lt_or_ge m lo with hlo | hlo
      · refine .inl ⟨(r.1, lo), ?_, h1, hlo⟩
        rw [if_pos (lt_of_le_of_lt h1 hlo)]
        exact mem_singleton_self _
      · have hhi : hi ≤ m := not_lt.mp fun h => h3 ⟨hlo, h⟩
        refine .inr ⟨(hi, r.2), ?_, hhi, h2⟩
        rw [if_pos (lt_of_le_of_lt hhi h2)]
        exact mem_singleton_self _

theorem covers_subtract : Covers (subtract runs lo hi) m ↔ Covers runs m ∧ ¬ (lo ≤ m ∧ m < hi) := by
  rw [subtract, covers_flatMap]
  constructor
  · rintro ⟨r, hr, hc⟩
    exact ⟨⟨r, hr, ((covers_cut).mp hc).1⟩, ((covers_cut).mp hc).2⟩
  · rintro ⟨⟨r, hr, hm⟩, hn⟩
    exact ⟨r, hr, (covers_cut).mpr ⟨hm, hn⟩⟩

theorem within_of_mem_cut {p : α × α} (hr : r.1 < r.2) (hp : p ∈ cut lo hi r) : r.1 ≤ p.1 ∧ p.1 < p.2 ∧ p.2 ≤ r.2 := by
  rcases mem_cut hp with ⟨rfl, -⟩ | ⟨⟨h3, h4⟩, ⟨rfl, h5⟩ | ⟨rfl, h5⟩⟩
  · exact ⟨le_rfl, hr, le_rfl⟩
  · exact ⟨le_rfl, h5, h3.le⟩
  · exact ⟨h4.le, h5, le_rfl⟩

theorem gaps_cut (hlt : lo < hi) : (cut lo hi r).Pairwise fun a b => a.2 < b.1 := by
  rw [cut]
  split_ifs <;> simp [hlt]

theorem merged_subtract (h : Merged runs) (hlt : lo < hi) : Merged (subtract runs lo hi) := by
  refine ⟨fun p hp => ?_, pairwise_flatMap.mpr ⟨fun r _ => gaps_cut hlt, ?_⟩⟩
  · obtain ⟨r, hr, hp⟩ := mem_flatMap.mp hp
    exact (within_of_mem_cut (h.ranges r hr) hp).2.1
  · refine h.gaps.imp_of_mem fun {a b} ha hb hab p hp q hq => ?_
    calc p.2 ≤ a.2 := (within_of_mem_cut (h.ranges a ha) hp).2.2
      _ < b.1 := hab
      _ ≤ q.1 := (within_of_mem_cut (h.ranges b hb) hq).1

theorem covers_lt {limit : α} (h : ∀ r ∈ runs, r.2 ≤ limit) (hm : Covers runs m) : m < limit := by
  obtain ⟨r, hr, -, hlt⟩ := hm
  exact lt_of_lt_of_le hlt (h r hr)

theorem Merged.le_of_covers {limit : α} (h : Merged runs) (hc : ∀ m, Covers runs m → m < limit)
    (hr : r ∈ runs) : r.2 ≤ limit := by
  by_contra hgt
  have hrr := h.ranges r hr
  rcases le_total r.1 limit with hle | hle
  · exact lt_irrefl _ (hc limit ⟨r, hr, hle, not_le.mp hgt⟩)
  · exact absurd (hc r.1 ⟨r, hr, le_rfl, hrr⟩) (not_lt.mpr hle)

end Canari.Lib.Runs
