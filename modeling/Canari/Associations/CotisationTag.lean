/-
  Canari.Associations.CotisationTag — the tag a membership tier grants
  (`apps/social-service/src/associations/cotisation-tag.util.ts`, the tag readers of
  `tier-pricing.ts`).

  A tier has no tag column of its own: its tag name is derived from the association's slug and
  mode and the tier's `variantKey`, and every reader goes the other way, from a name to the tier
  it belongs to. What the runs of `TierRuns` rest on is that the two agree:
  - `tagName_inj`: two tiers of one association never derive one name;
  - `linkedTo_tagName`: a tier's own tag is read as that tier's;
  - `linkedTo_tagName_iff`: and as no other tier's, when no key is shaped like a year.
  The key `""` is read as the base tier by `deriveCotisationTag` and as a key of its own by
  every comparison of keys, so all three ask for keys that are not empty.
-/

import Canari.Associations.ProductCheckout
import Canari.Lib.Utf16
import Canari.Lib.JsMap
import Mathlib.Data.List.Sort

namespace Canari.Associations.Cotisation

open ProductCheckout (truthy)
open List

inductive CotisationMode where
  | lifetime
  | dated

/-- An academic year: the year it starts in, and 31 August 23:59:59 UTC of the next. -/
structure AcademicYear where
  startYear : Nat
  expiresAt : Int
  four_digits : 1000 ≤ startYear ∧ startYear + 1 < 10000

def AcademicYear.label (y : AcademicYear) : String := toString y.startYear ++ "-" ++ toString (y.startYear + 1)

/-- 31 August of a year, 23:59:59 UTC: the 242 days before it in a common year, and a day for each leap
    year up to it. -/
def augustEnd (year : Nat) : Int :=
  let days : Int := 365 * (year - 1970) + (year / 4 - year / 100 + year / 400 - 477) + 242
  (days * 86400 + 86399) * 1000

def startYear (year month : Nat) : Nat := if month ≥ 8 then year else year - 1

structure Moment where
  year : Nat
  month : Nat
  four_digits : 1000 ≤ startYear year month ∧ startYear year month + 1 < 10000

def getAcademicYear (now : Moment) : AcademicYear :=
  ⟨startYear now.year now.month, augustEnd (startYear now.year now.month + 1), now.four_digits⟩

/-- A `variantKey`; `none` is the base tier. -/
abbrev Key := Option String

structure CotisationTag where
  tagName : String
  expiresAt : Option Int

def cotisationStem (slug : String) (variant : Key) : String :=
  match variant with
  | some v => if truthy variant then slug ++ "-" ++ v else slug
  | none => slug

/-- `deriveCotisationTag(slug, 'lifetime', …).tagName`, the year-free name of a tier's tag. -/
def lifetimeTag (slug : String) (variant : Key) : String := "cotisant:" ++ cotisationStem slug variant

def deriveCotisationTag (slug : String) (mode : CotisationMode) (year : AcademicYear) (variant : Key) : CotisationTag :=
  match mode with
  | .lifetime => ⟨lifetimeTag slug variant, none⟩
  | .dated => ⟨lifetimeTag slug variant ++ "-" ++ year.label, some year.expiresAt⟩

/-! ## Academic years in a name -/

def isAcademicYear : List Char → Bool
  | [a, b, c, d, m, e, f, g, h] => m == '-' && [a, b, c, d, e, f, g, h].all Char.isDigit
  | _ => false

/-- The name ends in a hyphen and an academic year (`ACADEMIC_YEAR_TAIL`). -/
def hasYearTail (cs : List Char) : Bool :=
  match cs.drop (cs.length - 10) with
  | m :: y => m == '-' && isAcademicYear y
  | [] => false

def YEAR_SHAPED_VARIANT_KEY (key : String) : Bool := isAcademicYear key.toList || hasYearTail key.toList

/-! ## From a name to its tier -/

/-- One turn of `linkedTierKey`'s loop. -/
def linkedTo (slug : String) (key : Key) (tagName : String) : Bool :=
  let stem := lifetimeTag slug key
  tagName == stem ||
    (List.isPrefixOf (stem ++ "-").toList tagName.toList &&
      isAcademicYear (tagName.toList.drop (stem.toList.length + 1)))

def linkedTierKey (memberPriceTag slug : String) (tierKeys : List Key) : Option Key :=
  tierKeys.find? fun key => linkedTo slug key memberPriceTag

structure OrphanTierTag where
  tagName : String
  variantKey : Key
  deriving DecidableEq

def root (slug : String) : String := "cotisant:" ++ slug

/-- The names an association's tiers may have: its root, and what follows it after a hyphen. -/
def inNamespace (slug tagName : String) : Bool :=
  tagName == root slug || List.isPrefixOf (root slug ++ "-").toList tagName.toList

def orphanKey (slug tagName : String) : Key :=
  let rest := tagName.toList.drop ((root slug).toList.length + 1)
  let variant := if isAcademicYear rest then [] else if hasYearTail rest then rest.take (rest.length - 10) else rest
  if variant = [] then none else some (String.ofList variant)

def utf16Le (a b : String) : Bool := decide (Lib.Utf16.rebuild 0xFFFD a.toList ≤ Lib.Utf16.rebuild 0xFFFD b.toList)

def orphanTierTags (tagNames : List String) (slug : String) (tierKeys : List Key) : List OrphanTierTag :=
  let orphans := tagNames.eraseDups.filter fun n => inNamespace slug n && (linkedTierKey n slug tierKeys).isNone
  (orphans.map fun n => OrphanTierTag.mk n (orphanKey slug n)).insertionSort fun a b => utf16Le a.tagName b.tagName

/-- The distinct keys of an association's tiers, the base tier last; `[null]` without any. -/
def tierVariantKeys (products : List Key) : List Key :=
  if products = [] then [none] else products.eraseDups.insertionSort fun a b => a.isSome || b.isNone

/-! ## Names as characters -/

def Named (key : Key) : Prop := key ≠ some ""

def tail : Key → List Char
  | some v => '-' :: v.toList
  | none => []

variable {a : Key}

theorem tail_inj {b : Key} (h : tail a = tail b) : a = b := by
  cases a with
  | none => cases b with
    | none => rfl
    | some w => cases h
  | some v => cases b with
    | none => cases h
    | some w =>
      have hv : v.toList = w.toList := (List.cons.inj h).2
      rw [String.toList_inj.mp hv]

variable {slug : String} {key : Key}

theorem lifetimeTag_toList (h : Named key) :
    (lifetimeTag slug key).toList = (root slug).toList ++ tail key := by
  cases key with
  | none => simp [lifetimeTag, cotisationStem, root, tail]
  | some v =>
    have hv : truthy (some v) = true := by
      have hne : v ≠ "" := fun e => h (by rw [e])
      simp [truthy, hne]
    simp [lifetimeTag, cotisationStem, root, tail, hv]

variable {y : List Char}

theorem isAcademicYear_length (h : isAcademicYear y = true) : y.length = 9 := by
  unfold isAcademicYear at h
  split at h
  · rfl
  · cases h

theorem digits_of_year {n : Nat} (h : 1000 ≤ n ∧ n < 10000) :
    ∃ a b c d, (toString n).toList = [a, b, c, d] ∧ [a, b, c, d].all Char.isDigit = true := by
  have hl : (Nat.toDigits 10 n).length = 4 := by
    have hle := (Nat.length_toDigits_le_iff (b := 10) (n := n) (k := 4) (by decide) (by decide)).mpr (by omega)
    have hgt : ¬ (Nat.toDigits 10 n).length ≤ 3 := fun hc => by
      have := (Nat.length_toDigits_le_iff (b := 10) (n := n) (k := 3) (by decide) (by decide)).mp hc
      omega
    omega
  have hd : ∀ c ∈ Nat.toDigits 10 n, c.isDigit = true := fun c hc =>
    Nat.isDigit_of_mem_toDigits (by decide) (by decide) hc
  have hs : (toString n).toList = Nat.toDigits 10 n := Nat.toList_repr
  rw [hs]
  match hm : Nat.toDigits 10 n, hl with
  | [a, b, c, d], _ =>
    rw [hm] at hd
    exact ⟨a, b, c, d, rfl, all_eq_true.mpr hd⟩

theorem AcademicYear.label_shape (y : AcademicYear) : isAcademicYear y.label.toList = true := by
  obtain ⟨a, b, c, d, h1, hd1⟩ := digits_of_year (n := y.startYear) ⟨y.four_digits.1, by have := y.four_digits.2; omega⟩
  obtain ⟨e, f, g, i, h2, hd2⟩ :=
    digits_of_year (n := y.startYear + 1) ⟨by have := y.four_digits.1; omega, y.four_digits.2⟩
  have hy : y.label.toList = [a, b, c, d, '-', e, f, g, i] := by
    rw [AcademicYear.label, String.toList_append, String.toList_append, h1, h2]
    rfl
  rw [hy]
  simp_all [isAcademicYear]

variable {mode : CotisationMode} {year : AcademicYear}

theorem tagName_toList (h : Named key) :
    (deriveCotisationTag slug mode year key).tagName.toList =
      (root slug).toList ++ (tail key ++ match mode with | .lifetime => [] | .dated => '-' :: year.label.toList) := by
  cases mode with
  | lifetime => simp [deriveCotisationTag, lifetimeTag_toList h]
  | dated => simp [deriveCotisationTag, lifetimeTag_toList h]

theorem tagName_inj {b : Key} (ha : Named a) (hb : Named b)
    (h : (deriveCotisationTag slug mode year a).tagName = (deriveCotisationTag slug mode year b).tagName) : a = b := by
  have hl := congrArg String.toList h
  rw [tagName_toList ha, tagName_toList hb] at hl
  exact tail_inj (append_cancel_right (append_cancel_left hl))

theorem inNamespace_iff {name : String} :
    inNamespace slug name = true ↔
      name.toList = (root slug).toList ∨ ∃ rest, name.toList = (root slug).toList ++ '-' :: rest := by
  have hp : List.isPrefixOf (root slug ++ "-").toList name.toList = true ↔
    ∃ rest, name.toList = (root slug).toList ++ '-' :: rest := by
    rw [List.isPrefixOf_iff_prefix, String.toList_append]
    constructor
    · rintro ⟨rest, hr⟩
      exact ⟨rest, by rw [← hr, append_assoc]; rfl⟩
    · rintro ⟨rest, hr⟩
      exact ⟨rest, by rw [hr, append_assoc]; rfl⟩
  rw [inNamespace, Bool.or_eq_true, beq_iff_eq, hp, ← String.toList_inj]

theorem drop_past {p : List Char} {c : Char} : (p ++ c :: y).drop (p.length + 1) = y := by
  rw [← drop_drop, drop_left, drop_one, tail_cons]

theorem linkedTo_iff {name : String} (h : Named key) :
    linkedTo slug key name = true ↔ name.toList = (root slug).toList ++ tail key ∨
      ∃ y, isAcademicYear y = true ∧ name.toList = (root slug).toList ++ (tail key ++ '-' :: y) := by
  have hs : (lifetimeTag slug key).toList = (root slug).toList ++ tail key := lifetimeTag_toList h
  have hp : (List.isPrefixOf (lifetimeTag slug key ++ "-").toList name.toList &&
        isAcademicYear (name.toList.drop ((lifetimeTag slug key).toList.length + 1))) = true ↔
      ∃ y, isAcademicYear y = true ∧ name.toList = (root slug).toList ++ (tail key ++ '-' :: y) := by
    rw [Bool.and_eq_true, List.isPrefixOf_iff_prefix, String.toList_append, hs]
    constructor
    · rintro ⟨⟨rest, hr⟩, hy⟩
      have hn : name.toList = (root slug).toList ++ (tail key ++ '-' :: rest) := by
        rw [← hr, append_assoc, append_assoc]; rfl
      refine ⟨rest, ?_, hn⟩
      rwa [hn, ← append_assoc, drop_past] at hy
    · rintro ⟨y, hy, hn⟩
      refine ⟨⟨y, by rw [hn, append_assoc, append_assoc]; rfl⟩, ?_⟩
      rwa [hn, ← append_assoc, drop_past]
  rw [linkedTo, Bool.or_eq_true, beq_iff_eq, hp, ← String.toList_inj, hs]

theorem linkedTo_tagName (h : Named key) :
    linkedTo slug key (deriveCotisationTag slug mode year key).tagName = true := by
  rw [linkedTo_iff h, tagName_toList h]
  cases mode with
  | lifetime => exact .inl (by rw [append_nil])
  | dated => exact .inr ⟨_, year.label_shape, rfl⟩

/-! ## Keys shaped like a year -/

/-- A key the tier writers accept: not empty and not shaped like a year. -/
def Plain (key : Key) : Prop := Named key ∧ ∀ v, key = some v → YEAR_SHAPED_VARIANT_KEY v = false

theorem hasYearTail_append {p : List Char} (h : isAcademicYear y = true) : hasYearTail (p ++ '-' :: y) = true := by
  have hd : (p ++ '-' :: y).drop ((p ++ '-' :: y).length - 10) = '-' :: y := by
    have hl : (p ++ '-' :: y).length - 10 = p.length := by
      rw [length_append, length_cons, isAcademicYear_length h]
      omega
    rw [hl, drop_left]
  rw [hasYearTail, hd]
  exact Bool.and_eq_true_iff.mpr ⟨rfl, h⟩

theorem Plain.tail_ne {b : Key} (ha : Plain a) (hy : isAcademicYear y = true) : tail a ≠ tail b ++ '-' :: y := by
  intro h
  cases a with
  | none => cases b with
    | none => cases h
    | some w => cases h
  | some v =>
    have hv := ha.2 v rfl
    rw [YEAR_SHAPED_VARIANT_KEY, Bool.or_eq_false_iff] at hv
    cases b with
    | none =>
      have he : v.toList = y := (List.cons.inj h).2
      rw [he, hy] at hv
      cases hv.1
    | some w =>
      have he : v.toList = w.toList ++ '-' :: y := (List.cons.inj h).2
      rw [he, hasYearTail_append hy] at hv
      cases hv.2

theorem linkedTo_tagName_iff (ha : Plain a) (hk : Plain key) :
    linkedTo slug a (deriveCotisationTag slug mode year key).tagName = true ↔ a = key := by
  refine ⟨fun h => ?_, fun h => h ▸ linkedTo_tagName ha.1⟩
  rw [linkedTo_iff ha.1, tagName_toList hk.1] at h
  cases mode with
  | lifetime =>
    rw [append_nil] at h
    rcases h with h | ⟨y, hy, h⟩
    · exact (tail_inj (append_cancel_left h)).symm
    · exact absurd (append_cancel_left h) (hk.tail_ne hy)
  | dated =>
    rcases h with h | ⟨y, hy, h⟩
    · exact absurd (append_cancel_left h).symm (ha.tail_ne year.label_shape)
    · have hl : ('-' :: year.label.toList).length = ('-' :: y).length := by
        rw [length_cons, length_cons, isAcademicYear_length year.label_shape, isAcademicYear_length hy]
      exact (tail_inj (append_inj_left' (append_cancel_left h) hl)).symm

/-! ## The readers' lists -/

variable {keys : List Key}

theorem linkedTierKey_isNone {name : String} :
    (linkedTierKey name slug keys).isNone = true ↔ ∀ k ∈ keys, linkedTo slug k name = false := by
  rw [linkedTierKey, Option.isNone_iff_eq_none, find?_eq_none]
  exact forall₂_congr fun _ _ => Bool.eq_false_iff.symm

theorem mem_orphanTierTags {names : List String} {o : OrphanTierTag} :
    o ∈ orphanTierTags names slug keys ↔ o.tagName ∈ names ∧ inNamespace slug o.tagName = true ∧
      (∀ k ∈ keys, linkedTo slug k o.tagName = false) ∧ o.variantKey = orphanKey slug o.tagName := by
  rw [orphanTierTags, mem_insertionSort, mem_map]
  constructor
  · rintro ⟨n, hn, rfl⟩
    rw [mem_filter, mem_eraseDups, Bool.and_eq_true, linkedTierKey_isNone] at hn
    exact ⟨hn.1, hn.2.1, hn.2.2, rfl⟩
  · rintro ⟨hn, hs, hk, ho⟩
    refine ⟨o.tagName, ?_, by rw [← ho]⟩
    rw [mem_filter, mem_eraseDups, Bool.and_eq_true, linkedTierKey_isNone]
    exact ⟨hn, hs, hk⟩

/-! ## The tags of tiers that are gone -/

/-- The key of a tier is read back from its tag. -/
theorem orphanKey_tagName (h : Plain key) :
    orphanKey slug (deriveCotisationTag slug mode year key).tagName = key := by
  have hlabel := isAcademicYear_length year.label_shape
  rw [orphanKey, tagName_toList h.1]
  cases key with
  | none =>
    cases mode with
    | lifetime => simp [tail, isAcademicYear, hasYearTail]
    | dated => simp [tail, year.label_shape]
  | some v =>
    have hne : v.toList ≠ [] := fun e => h.1 (by rw [String.toList_eq_nil_iff.mp e])
    have hshape := h.2 v rfl
    rw [YEAR_SHAPED_VARIANT_KEY, Bool.or_eq_false_iff] at hshape
    cases mode with
    | lifetime =>
      simp only [tail, append_nil, drop_past, hshape.1, hshape.2]
      simp [hne]
    | dated =>
      -- The year is the last ten characters, after at least one of the key.
      have hpos := length_pos_iff.mpr hne
      have hyear : isAcademicYear (v.toList ++ '-' :: year.label.toList) = false := by
        rw [Bool.eq_false_iff]
        intro hc
        have hl := isAcademicYear_length hc
        rw [length_append, length_cons] at hl
        omega
      have htake : (v.toList ++ '-' :: year.label.toList).take
        ((v.toList ++ '-' :: year.label.toList).length - 10) = v.toList := by
        have hl : (v.toList ++ '-' :: year.label.toList).length - 10 = v.toList.length := by
          rw [length_append, length_cons]
          omega
        rw [hl, take_left]
      simp only [tail, cons_append, drop_past, hyear, hasYearTail_append year.label_shape, htake]
      simp [hne]

theorem inNamespace_tagName (h : Named key) :
    inNamespace slug (deriveCotisationTag slug mode year key).tagName = true := by
  rw [inNamespace_iff, tagName_toList h]
  cases key with
  | none =>
    cases mode with
    | lifetime => exact .inl (by simp [tail])
    | dated => exact .inr ⟨_, rfl⟩
  | some v => exact .inr ⟨_, rfl⟩

theorem linkedTierKey_tagName
    (hkeys : ∀ k ∈ keys, Plain k) (h : Plain key) :
    linkedTierKey (deriveCotisationTag slug mode year key).tagName slug keys = if key ∈ keys then
      some key else none := by
  by_cases hmem : key ∈ keys
  · rw [if_pos hmem]
    obtain ⟨k, hk⟩ : ∃ k, linkedTierKey (deriveCotisationTag slug mode year key).tagName slug keys = some k :=
      Option.isSome_iff_exists.mp (find?_isSome.mpr ⟨key, hmem, linkedTo_tagName h.1⟩)
    have hlinked := find?_some hk
    rw [hk, (linkedTo_tagName_iff (hkeys k (mem_of_find?_eq_some hk)) h).mp hlinked]
  · rw [if_neg hmem, ← Option.isNone_iff_eq_none, linkedTierKey_isNone]
    intro k hk
    rw [Bool.eq_false_iff]
    intro hc
    exact hmem ((linkedTo_tagName_iff (hkeys k hk) h).mp hc ▸ hk)

theorem nodup_orphanTierTags (names : List String) (slug : String) (keys : List Key) :
    ((orphanTierTags names slug keys).map fun o => o.tagName).Nodup := by
  have hperm := (perm_insertionSort (fun a b : OrphanTierTag => utf16Le a.tagName b.tagName)
    ((names.eraseDups.filter fun n => inNamespace slug n && (linkedTierKey n slug keys).isNone).map
      fun n => OrphanTierTag.mk n (orphanKey slug n))).map
      fun o => o.tagName
  refine hperm.nodup_iff.mpr ?_
  rw [map_map]
  have hid : (fun o : OrphanTierTag => o.tagName) ∘ (fun n => OrphanTierTag.mk n (orphanKey slug n)) = id := rfl
  rw [hid, map_id]
  exact (Lib.JsMap.nodup_eraseDups names).filter _

/-- A tag issued at some date, in the mode the association had then, for a tier. -/
structure Issued where
  variantKey : Key
  mode : CotisationMode
  now : Moment

def Issued.tagName (slug : String)
    (i : Issued) : String := (deriveCotisationTag slug i.mode (getAcademicYear i.now) i.variantKey).tagName

/-- A tier's tag is read as that tier, and the orphans of the tags issued are those of the tiers that
    are gone, each once and with its own key: every tag is the one or the other. -/
theorem tier_tags_unambiguous (slug : String) (keys : List Key) (hkeys : ∀ k ∈ keys, Plain k) (issued : List Issued)
    (hissued : ∀ i ∈ issued, Plain i.variantKey) :
    (∀ key ∈ keys, ∀ mode now,
      linkedTierKey (deriveCotisationTag slug mode (getAcademicYear now) key).tagName slug keys = some key) ∧
    ((orphanTierTags (issued.map (Issued.tagName slug)) slug keys).map fun o => o.tagName).Nodup ∧
    (∀ o, o ∈ orphanTierTags (issued.map (Issued.tagName slug)) slug keys ↔
      ∃ i ∈ issued, i.variantKey ∉ keys ∧ o = ⟨i.tagName slug, i.variantKey⟩) ∧
    ∀ i ∈ issued, (linkedTierKey (i.tagName slug) slug keys = some i.variantKey ↔ i.variantKey ∈ keys) ∧
      ((∃ o ∈ orphanTierTags (issued.map (Issued.tagName slug)) slug keys, o.tagName = i.tagName slug) ↔
        i.variantKey ∉ keys) := by
  have hmem : ∀ o, o ∈ orphanTierTags (issued.map (Issued.tagName slug)) slug keys ↔
      ∃ i ∈ issued, i.variantKey ∉ keys ∧ o = ⟨i.tagName slug, i.variantKey⟩ := by
    intro o
    rw [mem_orphanTierTags, ← linkedTierKey_isNone]
    constructor
    · rintro ⟨hname, -, hnone, hkey⟩
      obtain ⟨i, hi, hname⟩ := mem_map.mp hname
      have hplain := hissued i hi
      rw [← hname, Issued.tagName] at hnone hkey
      rw [linkedTierKey_tagName hkeys hplain] at hnone
      rw [orphanKey_tagName hplain] at hkey
      refine ⟨i, hi, fun hc => ?_, ?_⟩
      · rw [if_pos hc] at hnone
        cases hnone
      · rw [← hkey, hname]
    · rintro ⟨i, hi, hgone, rfl⟩
      have hplain := hissued i hi
      refine ⟨mem_map_of_mem hi, inNamespace_tagName hplain.1, ?_, (orphanKey_tagName hplain).symm⟩
      rw [Issued.tagName, linkedTierKey_tagName hkeys hplain, if_neg hgone]
      rfl
  refine ⟨fun key hk mode now => ?_, nodup_orphanTierTags _ slug keys, hmem, fun i hi => ⟨?_, ?_⟩⟩
  · rw [linkedTierKey_tagName hkeys (hkeys key hk), if_pos hk]
  · rw [Issued.tagName, linkedTierKey_tagName hkeys (hissued i hi)]
    split_ifs with h
    · exact iff_of_true rfl h
    · exact iff_of_false (by simp) h
  · constructor
    · rintro ⟨o, ho, hname⟩ hc
      obtain ⟨-, -, hnone, -⟩ := (mem_orphanTierTags).mp ho
      have hlinked := hnone i.variantKey hc
      rw [hname, Issued.tagName, linkedTo_tagName (hissued i hi).1] at hlinked
      cases hlinked
    · intro hgone
      exact ⟨_, (hmem _).mpr ⟨i, hi, hgone, rfl⟩, rfl⟩

/-- With the tier `vip` gone, a base tier and a tier `vip-2` left: its tag of 2026-2027 is the one orphan. -/
theorem vip_tag_is_an_orphan :
    ⟨"cotisant:bde-vip-2026-2027", some "vip"⟩ ∈ orphanTierTags ["cotisant:bde-vip-2026-2027",
      "cotisant:bde-vip-2"] "bde" [none, some "vip-2"] := by
  have hplain : ∀ k ∈ [none, some "vip", some "vip-2"], Plain k := by
    intro k hk
    simp only [mem_cons, not_mem_nil, or_false] at hk
    rcases hk with rfl | rfl | rfl
    · exact ⟨by simp [Named], fun v hv => by cases hv⟩
    · exact ⟨by simp [Named], fun v hv => by cases hv; decide⟩
    · exact ⟨by simp [Named], fun v hv => by cases hv; decide⟩
  have hspec := (tier_tags_unambiguous "bde" [none, some "vip-2"] (fun k hk => hplain k (by simp at hk ⊢; tauto))
    [⟨some "vip", .dated, ⟨2027, 3, by decide⟩⟩, ⟨some "vip-2", .lifetime, ⟨2026, 8, by decide⟩⟩]
    (fun i hi => hplain i.variantKey (by simp at hi; rcases hi with rfl | rfl <;> simp))).2.2.1
  exact (hspec _).mpr ⟨_, mem_cons_self, by decide, by decide⟩

theorem mem_tierVariantKeys (h : keys ≠ []) {k : Key} : k ∈ tierVariantKeys keys ↔ k ∈ keys := by
  rw [tierVariantKeys, if_neg h, mem_insertionSort, mem_eraseDups]

theorem nodup_tierVariantKeys (keys : List Key) : (tierVariantKeys keys).Nodup := by
  unfold tierVariantKeys
  split
  · exact nodup_singleton _
  · exact (perm_insertionSort _ _).nodup_iff.mpr (Lib.JsMap.nodup_eraseDups _)

end Canari.Associations.Cotisation
