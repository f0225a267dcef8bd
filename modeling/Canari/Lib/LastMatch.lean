/-
  Canari.Lib.LastMatch — the last place of a list where something holds.

  A binary search finds it where what is asked is true up to some place and false behind it
  (`isLast_lastWhere`). Suffix minima make it so whatever the order of the list: a suffix
  has a key under a bound exactly when its minimum is (`below_suffixMinima`). So the search over
  the minima ends where a scan of the keys would (`isLast_suffixMinima`).
-/

import Mathlib.Data.List.Basic
import Mathlib.Order.MinMax
import Mathlib.Data.Int.Order.Basic

namespace Canari.Lib.LastMatch

open List

variable {α : Type}

/-! ## The last match -/

/-- `r` is the last place below `n` where `P` holds, and -1 for none. -/
structure IsLast (P : Nat → Prop) (n : Nat) (r : Int) : Prop where
  lower : -1 ≤ r
  upper : r < n
  holds : ∀ i : Nat, (i : Int) = r → P i
  past : ∀ i : Nat, r < i → i < n → ¬ P i

theorem IsLast.or {P Q : Nat → Prop} {n : Nat} {r s : Int} (hr : IsLast P n r)
    (hs : IsLast Q n s) : IsLast (fun i => P i ∨ Q i) n (max r s) where
  lower := le_max_of_le_left hr.lower
  upper := max_lt hr.upper hs.upper
  holds := by
    intro i hi
    rcases max_choice r s with hm | hm
    · exact .inl (hr.holds i (hi.trans hm))
    · exact .inr (hs.holds i (hi.trans hm))
  past := by
    intro i hi hn
    rw [max_lt_iff] at hi
    rw [not_or]
    exact ⟨hr.past i hi.1 hn, hs.past i hi.2 hn⟩

theorem IsLast.congr {P Q : Nat → Prop} {n : Nat} {r : Int} (h : IsLast P n r)
    (hpq : ∀ i < n, P i ↔ Q i) : IsLast Q n r where
  lower := h.lower
  upper := h.upper
  holds := by
    intro i hi
    have hn : i < n := by
      have := h.upper
      omega
    exact (hpq i hn).mp (h.holds i hi)
  past := fun i hi hn hq => h.past i hi hn ((hpq i hn).mpr hq)

theorem isLast_none {n : Nat} {P : Nat → Prop} (h : ∀ i < n, ¬ P i) : IsLast P n (-1) :=
  ⟨le_rfl, by omega, fun i hi => by omega, fun i _ hn => h i hn⟩

theorem isLast_top {P : Nat → Prop} {n : Nat} (h : P n) : IsLast P (n + 1) n :=
  ⟨by omega, by omega, fun i hi => by rwa [Int.ofNat_inj.mp hi], fun i hi hn => by omega⟩

theorem IsLast.succ {P : Nat → Prop} {n : Nat} {r : Int} (h : IsLast P n r) (hn : ¬ P n) : IsLast P (n + 1) r where
  lower := h.lower
  upper := by
    have := h.upper
    omega
  holds := h.holds
  past := by
    intro i hi hlt
    rcases Nat.lt_succ_iff_lt_or_eq.mp hlt with hlt | rfl
    · exact h.past i hi hlt
    · exact hn

theorem find?_reverse_of_isLast {p : α → Bool} {l : List α} {r : Int}
    (h : IsLast (fun i => l[i]?.any p = true) l.length r) :
    l.reverse.find? p = if r < 0 then none else l[r.toNat]? := by
  split
  · rw [find?_eq_none]
    intro a ha hp
    obtain ⟨i, hi, rfl⟩ := getElem_of_mem (mem_reverse.mp ha)
    exact h.past i (by omega) hi (by simp [hi, hp])
  · rename_i hr
    obtain ⟨k, rfl⟩ := Int.eq_ofNat_of_zero_le (Int.not_lt.mp hr)
    have hk : k < l.length := by
      have := h.upper
      omega
    have hhold : p l[k] = true := by simpa [hk] using h.holds k rfl
    rw [Int.toNat_natCast, getElem?_eq_getElem hk, find?_eq_some_iff_append]
    refine ⟨hhold, (l.drop (k + 1)).reverse, (l.take k).reverse, ?_, ?_⟩
    · have hsplit : l = l.take k ++ l[k] :: l.drop (k + 1) := by
        rw [← drop_eq_getElem_cons hk, take_append_drop]
      conv_lhs => rw [hsplit]
      simp
    · intro a ha
      obtain ⟨i, hi, rfl⟩ := getElem_of_mem (mem_reverse.mp ha)
      rw [length_drop] at hi
      have hnot := h.past (k + 1 + i) (by omega) (by omega)
      have hlt : k + 1 + i < l.length := by omega
      simpa [hlt] using hnot

/-! ## Binary search -/

/-- The loop; `fuel` is at least the length of the range that is left. -/
def lastWhere (p : Nat → Bool) : Nat → Int → Int → Int → Int
  | 0, _, _, found => found
  | fuel + 1, lo, hi, found =>
    if lo ≤ hi then
      let mid := (lo + hi) / 2
      if p mid.toNat then lastWhere p fuel (mid + 1) hi mid else lastWhere p fuel lo (mid - 1) found
    else found

theorem isLast_loop {p : Nat → Bool} {n : Nat} (hp : ∀ i j, i ≤ j → j < n → p j = true → p i = true) :
    ∀ {fuel : Nat} {lo hi : Int}, 0 ≤ lo → lo ≤ hi + 1 → hi < n → hi - lo < fuel →
      (∀ i : Nat, (i : Int) = lo - 1 → p i = true) →
      (∀ i : Nat, hi < i → i < n → p i = false) → IsLast (fun i => p i = true) n (lastWhere p fuel lo hi (lo - 1)) := by
  intro fuel
  induction fuel with
  | zero =>
    intro lo hi hlo hle hn hfuel hbelow habove
    refine ⟨by rw [lastWhere]; omega, by rw [lastWhere]; omega, hbelow, ?_⟩
    intro i hi' hin
    rw [lastWhere] at hi'
    rw [habove i (by omega) hin]
    exact Bool.false_ne_true
  | succ fuel ih =>
    intro lo hi hlo hle hn hfuel hbelow habove
    rw [lastWhere]
    by_cases hlh : lo ≤ hi
    · rw [if_pos hlh]
      have hmid : lo ≤ (lo + hi) / 2 ∧ (lo + hi) / 2 ≤ hi := by omega
      generalize (lo + hi) / 2 = mid at hmid ⊢
      dsimp only
      split
      · rename_i hm
        have hnext := @ih (mid + 1) hi (by omega) (by omega) hn (by omega) ?_ habove
        · rwa [show mid + 1 - 1 = mid by omega] at hnext
        · intro i hi'
          rw [show i = mid.toNat by omega]
          exact hm
      · rename_i hm
        refine ih hlo (by omega) (by omega) (by omega) hbelow ?_
        intro i hi' hin
        rw [Bool.eq_false_iff]
        intro h
        exact hm (hp mid.toNat i (by omega) hin h)
    · rw [if_neg hlh]
      refine ⟨by omega, by omega, hbelow, ?_⟩
      intro i hi' hin
      rw [habove i (by omega) hin]
      exact Bool.false_ne_true

theorem isLast_lastWhere {p : Nat → Bool} {n : Nat} (hp : ∀ i j, i ≤ j → j < n → p j = true → p i = true) :
    IsLast (fun i => p i = true) n (lastWhere p n 0 (n - 1) (-1)) :=
  isLast_loop hp le_rfl (by omega) (by omega) (by omega) (fun i hi => by omega) fun i hi hn => by omega

/-! ## Suffix minima -/

def suffixMinima (min : α → α → α) : List α → List α
  | [] => []
  | key :: keys =>
    match suffixMinima min keys with
    | [] => [key]
    | least :: out => min least key :: least :: out

theorem length_suffixMinima (min : α → α → α) (keys : List α) : (suffixMinima min keys).length = keys.length := by
  induction keys with
  | nil => rfl
  | cons key keys ih =>
    rw [suffixMinima]
    cases hs : suffixMinima min keys with
    | nil =>
      rw [hs, length_nil] at ih
      rw [length_singleton, length_cons, ← ih]
    | cons least out =>
      rw [hs, length_cons] at ih
      rw [length_cons, length_cons, length_cons, ih]

section Below

variable {min : α → α → α} {below : α → Bool} {D : α → Prop}

/-- What a minimum of two must do, among the keys of `D`. -/
structure Least (min : α → α → α) (below : α → Bool) (D : α → Prop) : Prop where
  closed : ∀ {a b}, D a → D b → D (min a b)
  below_min : ∀ {a b}, D a → D b → below (min a b) = (below a || below b)

theorem Least.suffixMinima_mem (h : Least min below D) {keys : List α}
    (hk : ∀ k ∈ keys, D k) : ∀ m ∈ suffixMinima min keys, D m := by
  induction keys with
  | nil =>
    intro m hm
    cases hm
  | cons key keys ih =>
    have hrest := ih fun k hk' => hk k (mem_cons_of_mem _ hk')
    have hkey := hk key mem_cons_self
    intro m hm
    rw [suffixMinima] at hm
    cases hs : suffixMinima min keys with
    | nil =>
      rw [hs] at hm
      rwa [mem_singleton.mp hm]
    | cons least out =>
      rw [hs] at hm hrest
      rcases mem_cons.mp hm with rfl | hm
      · exact h.closed (hrest least mem_cons_self) hkey
      · exact hrest m hm

theorem Least.below_suffixMinima (h : Least min below D) {keys : List α} (hk : ∀ k ∈ keys, D k) (i : Nat) :
    (suffixMinima min keys)[i]?.any below = (keys.drop i).any below := by
  induction keys generalizing i with
  | nil => simp [suffixMinima]
  | cons key keys ih =>
    have hk' : ∀ k ∈ keys, D k := fun k hk' => hk k (mem_cons_of_mem _ hk')
    have hrest := ih hk'
    have hmem := h.suffixMinima_mem hk'
    rw [suffixMinima]
    cases hs : suffixMinima min keys with
    | nil =>
      have hnil : keys = [] := length_eq_zero_iff.mp (by rw [← length_suffixMinima min keys, hs]; rfl)
      cases i with
      | zero => simp [hnil]
      | succ i => simp [hnil]
    | cons least out =>
      rw [hs] at hrest hmem
      cases i with
      | zero =>
        have hhead := hrest 0
        rw [getElem?_cons_zero, Option.any_some, drop_zero] at hhead
        rw [getElem?_cons_zero, Option.any_some, h.below_min (hmem least mem_cons_self) (hk key mem_cons_self),
          hhead, drop_zero,
          any_cons, Bool.or_comm]
      | succ i => simpa using hrest i

theorem isLast_suffixMinima (h : Least min below D) {keys : List α} (hk : ∀ k ∈ keys, D k) :
    IsLast (fun i => keys[i]?.any below = true) keys.length
      (lastWhere (fun i => (suffixMinima min keys)[i]?.any below) keys.length 0 (keys.length - 1) (-1)) := by
  have hany : ∀ i : Nat, (suffixMinima min keys)[i]?.any below = true ↔ ∃ j, i ≤ j ∧ keys[j]?.any below = true := by
    intro i
    rw [h.below_suffixMinima hk, List.any_eq_true]
    constructor
    · intro hx
      obtain ⟨x, hx, hb⟩ := hx
      obtain ⟨j, hj, rfl⟩ := getElem_of_mem hx
      rw [length_drop] at hj
      refine ⟨i + j, Nat.le_add_right i j, ?_⟩
      have hlt : i + j < keys.length := by omega
      simpa [hlt] using hb
    · intro hx
      obtain ⟨j, hij, hb⟩ := hx
      obtain ⟨x, hx, hb⟩ := (Option.any_eq_true _ _).mp hb
      obtain ⟨hj, rfl⟩ := List.getElem?_eq_some_iff.mp hx
      refine ⟨keys[j], ?_, hb⟩
      rw [mem_drop_iff_getElem]
      exact ⟨j - i, by omega, by congr 1; omega⟩
  have hsearch := @isLast_lastWhere (fun i => (suffixMinima min keys)[i]?.any below) keys.length fun i j hij _ hj => by
    obtain ⟨k, hk', hb⟩ := (hany j).mp hj
    exact (hany i).mpr ⟨k, hij.trans hk', hb⟩
  refine ⟨hsearch.lower, hsearch.upper, fun i hi => ?_,
    fun i hi hn hb => hsearch.past i hi hn ((hany i).mpr ⟨i, le_rfl, hb⟩)⟩
  -- a key behind this one under the bound would make the next minimum be
  obtain ⟨j, hij, hb⟩ := (hany i).mp (hsearch.holds i hi)
  rcases Nat.eq_or_lt_of_le hij with rfl | hlt
  · exact hb
  · have hj : j < keys.length := by
      by_contra hge
      rw [getElem?_eq_none (by omega)] at hb
      cases hb
    exact absurd ((hany j).mpr ⟨j, le_rfl, hb⟩) (hsearch.past j (by omega) hj)

end Below

end Canari.Lib.LastMatch
