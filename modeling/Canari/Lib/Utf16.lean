/-
  Canari.Lib.Utf16 — strings of UTF-16 code units and what their UTF-8 encoding loses.

  A string of code units may hold a surrogate without its pair. An encoder to UTF-8 reads
  scalar values and puts U+FFFD for such a unit, so two strings have one encoding exactly
  when they have the same scalar values (`utf8Of_inj`). A string is the only one with its
  encoding only if it is plain: no lone surrogate and no U+FFFD of its own
  (`not_unique_of_not_plain`).
-/

import Canari.Lib.Wire

namespace Canari.Lib.Utf16

open List

abbrev JsString := List UInt16

instance : LawfulBEq JsString := inferInstance

def isHigh (u : UInt16) : Bool := decide (0xD800 ≤ u.toNat) && decide (u.toNat < 0xDC00)
def isLow (u : UInt16) : Bool := decide (0xDC00 ≤ u.toNat) && decide (u.toNat < 0xE000)

def replacement : Char := Char.ofNat 0xFFFD

def combine (hi lo : UInt16) : Char := Char.ofNat (0x10000 + (hi.toNat - 0xD800) * 0x400 + (lo.toNat - 0xDC00))

def single (u : UInt16) : Char := if isHigh u || isLow u then replacement else Char.ofNat u.toNat

def scalars : JsString → List Char
  | [] => []
  | [u] => [single u]
  | u :: l :: rest => if isHigh u && isLow l then combine u l :: scalars rest else single u :: scalars (l :: rest)

/-- `isWellFormed`: every surrogate has its pair. -/
def isWellFormed : JsString → Bool
  | [] => true
  | [u] => !(isHigh u || isLow u)
  | u :: l :: rest => if isHigh u && isLow l then isWellFormed rest else !(isHigh u || isLow u) && isWellFormed (l :: rest)

/-- What `TextEncoder` writes. -/
def utf8Of (text : JsString) : Bytes := (String.ofList (scalars text)).toUTF8.data.toList

/-- The units of a scalar value, with `r` for U+FFFD. -/
def unitsBy (r : UInt16) (c : Char) : JsString :=
  if c = replacement then [r]
  else if c.toNat < 0x10000 then [UInt16.ofNat c.toNat]
  else [UInt16.ofNat (0xD800 + (c.toNat - 0x10000) / 0x400), UInt16.ofNat (0xDC00 + (c.toNat - 0x10000) % 0x400)]

def rebuild (r : UInt16) (cs : List Char) : JsString := cs.flatMap (unitsBy r)

/-- `toWellFormed`. -/
def toWellFormed (text : JsString) : JsString := rebuild 0xFFFD (scalars text)

structure Plain (text : JsString) : Prop where
  wellFormed : isWellFormed text = true
  noReplacement : (0xFFFD : UInt16) ∉ text

/-! ## Characters -/

theorem char_cases (c : Char) : c.toNat < 0xD800 ∨ (0xE000 ≤ c.toNat ∧ c.toNat < 0x110000) := by
  have h : c.toNat < 0xD800 ∨ (0xDFFF < c.toNat ∧ c.toNat < 0x110000) := c.valid
  omega

theorem toNat_ofNat_of_valid {n : Nat} (h : n < 0xD800 ∨ (0xE000 ≤ n ∧ n < 0x110000)) : (Char.ofNat n).toNat = n := by
  have hvalid : n.isValidChar := by
    omega
  unfold Char.ofNat
  rw [dif_pos hvalid]
  rfl

theorem replacement_toNat : replacement.toNat = 0xFFFD := by decide

theorem isHigh_iff {u : UInt16} : isHigh u = true ↔ 0xD800 ≤ u.toNat ∧ u.toNat < 0xDC00 := by simp [isHigh]

theorem isLow_iff {u : UInt16} : isLow u = true ↔ 0xDC00 ≤ u.toNat ∧ u.toNat < 0xE000 := by simp [isLow]

theorem combine_toNat {hi lo : UInt16} (h : isHigh hi = true) (l : isLow lo = true) :
    (combine hi lo).toNat = 0x10000 + (hi.toNat - 0xD800) * 0x400 + (lo.toNat - 0xDC00) := by
  have h1 := (isHigh_iff).mp h
  have h2 := (isLow_iff).mp l
  exact toNat_ofNat_of_valid (by omega)

theorem combine_ne_replacement {hi lo : UInt16} (h : isHigh hi = true)
    (l : isLow lo = true) : combine hi lo ≠ replacement := by
  intro e
  have := congrArg Char.toNat e
  rw [combine_toNat h l, replacement_toNat] at this
  omega

theorem single_of_surrogate {u : UInt16} (h : (isHigh u || isLow u) = true) : single u = replacement := if_pos h

theorem single_toNat {u : UInt16} (h : ¬ (isHigh u || isLow u) = true) : (single u).toNat = u.toNat := by
  rw [single, if_neg h]
  rw [Bool.or_eq_true, isHigh_iff, isLow_iff] at h
  have := u.toNat_lt
  exact toNat_ofNat_of_valid (by omega)

theorem replacement_eq_single {u : UInt16} (h : ¬ (isHigh u || isLow u) = true) : replacement = single u ↔
    0xFFFD = u := by
  rw [← Char.toNat_inj, single_toNat h, ← UInt16.toNat_inj]
  rfl

theorem unitsBy_combine {hi lo : UInt16} (h : isHigh hi = true) (l : isLow lo = true)
    (r : UInt16) : unitsBy r (combine hi lo) = [hi, lo] := by
  have h1 := (isHigh_iff).mp h
  have h2 := (isLow_iff).mp l
  have hn := combine_toNat h l
  have hhi : UInt16.ofNat (0xD800 + ((combine hi lo).toNat - 0x10000) / 0x400) = hi := by
    apply UInt16.toNat_inj.mp
    rw [UInt16.toNat_ofNat']
    omega
  have hlo : UInt16.ofNat (0xDC00 + ((combine hi lo).toNat - 0x10000) % 0x400) = lo := by
    apply UInt16.toNat_inj.mp
    rw [UInt16.toNat_ofNat']
    omega
  rw [unitsBy, if_neg (combine_ne_replacement h l), if_neg (by omega), hhi, hlo]

theorem unitsBy_single {u : UInt16} (h : ¬ (isHigh u || isLow u) = true) : unitsBy 0xFFFD (single u) = [u] := by
  have hn := single_toNat h
  have hlt := u.toNat_lt
  unfold unitsBy
  split
  · next e =>
    have := congrArg Char.toNat e
    rw [hn] at this
    rw [UInt16.toNat_inj.mp (this.trans rfl : u.toNat = (0xFFFD : UInt16).toNat)]
  · rw [if_pos (by omega), hn, UInt16.ofNat_toNat]

/-! ## Reading back -/

def startsLow (text : JsString) : Bool := text.head?.any isLow

theorem unitsBy_cases (r : UInt16) (c : Char) :
    (c = replacement ∧ unitsBy r c = [r]) ∨
    (c ≠ replacement ∧ ∃ u, unitsBy r c = [u] ∧ single u = c ∧ isHigh u = false ∧ isLow u = false) ∨
    (c ≠ replacement ∧ ∃ hi lo, unitsBy r c = [hi, lo] ∧ combine hi lo = c ∧ isHigh hi = true ∧ isLow lo = true) := by
  by_cases e : c = replacement
  · exact .inl ⟨e, if_pos e⟩
  · have hc := char_cases c
    by_cases hb : c.toNat < 0x10000
    · have hu : (UInt16.ofNat c.toNat).toNat = c.toNat := by rw [UInt16.toNat_ofNat']; omega
      have hhigh : isHigh (UInt16.ofNat c.toNat) = false := by
        rw [Bool.eq_false_iff, Ne, isHigh_iff]
        omega
      have hlow : isLow (UInt16.ofNat c.toNat) = false := by
        rw [Bool.eq_false_iff, Ne, isLow_iff]
        omega
      refine .inr (.inl ⟨e, UInt16.ofNat c.toNat, by rw [unitsBy, if_neg e, if_pos hb], ?_, hhigh, hlow⟩)
      apply Char.toNat_inj.mp
      rw [single_toNat (by simp [hhigh, hlow]), hu]
    · have h1 : (UInt16.ofNat (0xD800 + (c.toNat - 0x10000) / 0x400)).toNat = 0xD800 + (c.toNat - 0x10000) / 0x400 := by
        rw [UInt16.toNat_ofNat']; omega
      have h2 : (UInt16.ofNat (0xDC00 + (c.toNat - 0x10000) % 0x400)).toNat = 0xDC00 + (c.toNat - 0x10000) % 0x400 := by
        rw [UInt16.toNat_ofNat']; omega
      have hhigh := (isHigh_iff).mpr (show 0xD800 ≤ (UInt16.ofNat (0xD800 + (c.toNat - 0x10000) / 0x400)).toNat ∧ _ by
        omega)
      have hlow := (isLow_iff).mpr (show 0xDC00 ≤ (UInt16.ofNat (0xDC00 + (c.toNat - 0x10000) % 0x400)).toNat ∧ _ by
        omega)
      refine .inr (.inr ⟨e, _, _, by rw [unitsBy, if_neg e, if_neg hb], ?_, hhigh, hlow⟩)
      apply Char.toNat_inj.mp
      rw [combine_toNat hhigh hlow]
      omega

section Text

variable {u hi lo r : UInt16} {rest text other : JsString}

theorem scalars_pair (h : isHigh hi = true) (l : isLow lo = true) (rest : JsString) :
    scalars (hi :: lo :: rest) = combine hi lo :: scalars rest := by
  rw [scalars, if_pos (by simp [h, l])]

theorem scalars_cons (h : isHigh u = false ∨ startsLow rest = false) : scalars (u :: rest) = single u ::
    scalars rest := by
  cases rest with
  | nil => rfl
  | cons l rest =>
    have hpair : ¬ (isHigh u && isLow l) = true := by
      rcases h with h | h
      · simp [h]
      · have hl : isLow l = false := h
        simp [hl]
    rw [scalars, if_neg hpair]

theorem startsLow_rebuild (hr : isLow r = false) (cs : List Char) : startsLow (rebuild r cs) = false := by
  cases cs with
  | nil => rfl
  | cons c cs =>
    rw [rebuild, flatMap_cons]
    rcases unitsBy_cases r c with ⟨-, e⟩ | ⟨-, u, e, -, -, hl⟩ | ⟨-, hi, lo, e, -, hh, -⟩
    · rw [e]; exact hr
    · rw [e]; exact hl
    · rw [e]
      show isLow hi = false
      rw [Bool.eq_false_iff, Ne, isLow_iff]
      have := (isHigh_iff).mp hh
      omega

theorem scalars_rebuild (hr : single r = replacement) (hl : isLow r = false)
    (cs : List Char) : scalars (rebuild r cs) = cs := by
  induction cs with
  | nil => rfl
  | cons c cs ih =>
    have hstart := startsLow_rebuild hl cs
    rw [rebuild, flatMap_cons]
    rcases unitsBy_cases r c with ⟨rfl, e⟩ | ⟨-, u, e, hu, -, -⟩ | ⟨-, hi, lo, e, hc, hh, hlow⟩
    · exact (scalars_cons (.inr hstart)).trans (by rw [hr]; exact congrArg _ ih)
    · rw [e]
      exact (scalars_cons (.inr hstart)).trans (by rw [hu]; exact congrArg _ ih)
    · rw [e]
      exact (scalars_pair hh hlow _).trans (by rw [hc]; exact congrArg _ ih)

theorem toWellFormed_of_wellFormed (h : isWellFormed text = true) : toWellFormed text = text := by
  unfold toWellFormed rebuild
  induction text using scalars.induct with
  | case1 => rfl
  | case2 u =>
    have hu : ¬ (isHigh u || isLow u) = true := by simpa [isWellFormed] using h
    rw [scalars, flatMap_singleton, unitsBy_single hu]
  | case3 u l rest hpair ih =>
    rw [isWellFormed, if_pos hpair] at h
    obtain ⟨hh, hl⟩ := Bool.and_eq_true_iff.mp hpair
    rw [scalars, if_pos hpair, flatMap_cons, unitsBy_combine hh hl, ih h]
    rfl
  | case4 u l rest hpair ih =>
    rw [isWellFormed, if_neg hpair] at h
    obtain ⟨hu, hrest⟩ := Bool.and_eq_true_iff.mp h
    rw [scalars, if_neg hpair, flatMap_cons, unitsBy_single (by simpa using hu), ih hrest]
    rfl

theorem plain_iff : Plain text ↔ replacement ∉ scalars text := by
  have hiff : (isWellFormed text = true ∧ (0xFFFD : UInt16) ∉ text) ↔ replacement ∉ scalars text := by
    induction text using scalars.induct with
    | case1 => simp [isWellFormed, scalars]
    | case2 u =>
      by_cases hu : (isHigh u || isLow u) = true
      · simp [isWellFormed, scalars, single_of_surrogate hu, hu]
      · simp [isWellFormed, scalars, replacement_eq_single hu, hu]
    | case3 u l rest hpair ih =>
      obtain ⟨hh, hl⟩ := Bool.and_eq_true_iff.mp hpair
      have h1 := (isHigh_iff).mp hh
      have h2 := (isLow_iff).mp hl
      have hu : ¬ (0xFFFD : UInt16) = u := by rintro rfl; exact absurd h1 (by decide)
      have hl' : ¬ (0xFFFD : UInt16) = l := by rintro rfl; exact absurd h2 (by decide)
      rw [isWellFormed, if_pos hpair, scalars, if_pos hpair, mem_cons, mem_cons, mem_cons, not_or, not_or, not_or, ← ih]
      simp [hu, hl', Ne.symm (combine_ne_replacement hh hl)]
    | case4 u l rest hpair ih =>
      have hread : replacement ∉ single u :: scalars (l :: rest) ↔
        ¬ replacement = single u ∧ replacement ∉ scalars (l :: rest) := by
        rw [mem_cons, not_or]
      have hunits : (0xFFFD : UInt16) ∉ u :: l :: rest ↔ ¬ 0xFFFD = u ∧ (0xFFFD : UInt16) ∉ l :: rest := by
        rw [mem_cons, not_or]
      rw [isWellFormed, if_neg hpair, scalars, if_neg hpair, hread, hunits, ← ih]
      by_cases hu : (isHigh u || isLow u) = true
      · simp [single_of_surrogate hu, hu]
      · have hu' : (!(isHigh u || isLow u)) = true := by simpa using hu
        rw [replacement_eq_single hu, hu']
        exact and_left_comm
  exact ⟨fun h => hiff.mp ⟨h.1, h.2⟩, fun h => ⟨(hiff.mpr h).1, (hiff.mpr h).2⟩⟩

theorem toWellFormed_congr (h : scalars text = scalars other) : toWellFormed text = toWellFormed other := by
  unfold toWellFormed
  rw [h]

theorem isWellFormed_toWellFormed (text : JsString) : isWellFormed (toWellFormed text) = true := by
  unfold toWellFormed
  induction scalars text with
  | nil => rfl
  | cons c cs ih =>
    rw [rebuild, flatMap_cons]
    have hwf : ∀ u : UInt16, isHigh u = false → isLow u = false → isWellFormed (u :: rebuild 0xFFFD cs) = true := by
      intro u hh hl
      cases hrest : rebuild 0xFFFD cs with
      | nil => simp [isWellFormed, hh, hl]
      | cons v rest =>
        rw [hrest] at ih
        rw [isWellFormed]
        simp [hh, hl, ih]
    rcases unitsBy_cases 0xFFFD c with ⟨-, e⟩ | ⟨-, u, e, -, hh, hl⟩ | ⟨-, hi, lo, e, -, hh, hl⟩
    · rw [e]; exact hwf 0xFFFD (by decide) (by decide)
    · rw [e]; exact hwf u hh hl
    · rw [e]
      show isWellFormed (hi :: lo :: rebuild 0xFFFD cs) = true
      rw [isWellFormed, if_pos (by simp [hh, hl])]
      exact ih

theorem notMem_rebuild_high (cs : List Char) : (0xFFFD : UInt16) ∉ rebuild 0xD800 cs := by
  intro hmem
  obtain ⟨c, -, hc⟩ := mem_flatMap.mp hmem
  rcases unitsBy_cases 0xD800 c with ⟨-, e⟩ | ⟨hne, u, e, hu, hh, hl⟩ | ⟨-, hi, lo, e, -, hh, hl⟩
  · rw [e] at hc
    exact absurd (mem_singleton.mp hc) (by decide)
  · rw [e] at hc
    obtain rfl := mem_singleton.mp hc
    exact hne (hu.symm.trans (by decide))
  · rw [e] at hc
    have h1 := (isHigh_iff).mp hh
    have h2 := (isLow_iff).mp hl
    rcases mem_cons.mp hc with rfl | hc
    · exact absurd h1 (by decide)
    · obtain rfl := mem_singleton.mp hc
      exact absurd h2 (by decide)

/-- The unit a string that is not plain is read as another with: its lone surrogates
    as U+FFFD, or else its U+FFFD as lone surrogates. -/
def otherUnit (text : JsString) : UInt16 := if isWellFormed text then 0xD800 else 0xFFFD

theorem rebuild_ne_of_not_plain (hp : ¬ Plain text) : rebuild (otherUnit text) (scalars text) ≠ text := by
  intro e
  unfold otherUnit at e
  split at e
  · next hw =>
    have hmem : (0xFFFD : UInt16) ∈ text := by
      by_contra hn
      exact hp ⟨hw, hn⟩
    rw [← e] at hmem
    exact notMem_rebuild_high _ hmem
  · next hw =>
    have := isWellFormed_toWellFormed text
    rw [toWellFormed, e] at this
    exact hw this

theorem utf8Of_inj : utf8Of text = utf8Of other ↔ scalars text = scalars other := by
  constructor
  · intro h
    have hdata : (String.ofList (scalars text)).toUTF8 = (String.ofList (scalars other)).toUTF8 :=
      ByteArray.ext (Array.toList_inj.mp h)
    exact String.ofList_injective (String.toByteArray_inj.mp hdata)
  · intro h
    unfold utf8Of
    rw [h]

theorem scalars_eq_nil : scalars text = [] ↔ text = [] := by
  constructor
  · intro h
    cases text with
    | nil => rfl
    | cons u rest =>
      cases rest with
      | nil => cases h
      | cons l rest =>
        rw [scalars] at h
        split at h <;> cases h
  · rintro rfl
    rfl

end Text

end Canari.Lib.Utf16
