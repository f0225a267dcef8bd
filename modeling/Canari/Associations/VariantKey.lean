/-
  Canari.Associations.VariantKey — the key of a tier, from the label typed for it
  (`apps/social-service/src/associations/cotisation-tag.util.ts`).

  The label is folded, hyphenated, rid of its trailing years, cut at the cap and rid of trailing
  years again. What is left after years are cut is never year-shaped (`cutYears_not_yearShaped`);
  but the hyphens are trimmed after that, and a cut that ends on a hyphen hides the year before it
  from `YEAR_TAIL` and gives it back (`withoutYearTail_yearShaped_iff`). A key is year-shaped
  exactly when the cap falls one character after a year in the label and the key is free
  (`variantKeyFromLabel_iff`).
-/

import Canari.Associations.CotisationTag
import Mathlib.Data.List.DropRight

namespace Canari.Associations.Cotisation

open List

def VARIANT_KEY_MAX : Nat := 60

def VARIANT_KEY_EMPTY_LABEL : String := "palier"

def VARIANT_KEY_SUFFIX_MAX : Nat := 999

inductive KeyError
  | noRoom (cap : Nat)
  | spaceExhausted (base : String)
  deriving DecidableEq

/-- In `[a-z0-9]`. -/
def alnum (c : Char) : Bool := ('a' ≤ c && c ≤ 'z') || ('0' ≤ c && c ≤ '9')

def spellOut (c : Char) : List Char :=
  if c = 'œ' then ['o', 'e'] else if c = 'æ' then ['a', 'e'] else if c = 'ß' then ['s', 's'] else [c]

/-- Every run of other characters is one hyphen; `inRun` inside one. -/
def hyphenate : Bool → List Char → List Char
  | _, [] => []
  | inRun, c :: cs =>
    if alnum c then c :: hyphenate false cs
    else if inRun then hyphenate true cs
    else '-' :: hyphenate true cs

/-- Matches `(?:-\d{4})*$`. -/
def moreYears : List Char → Bool
  | [] => true
  | m :: a :: b :: c :: d :: rest => m == '-' && [a, b, c, d].all Char.isDigit && moreYears rest
  | _ => false

/-- Matches `\d{4}(?:-\d{4})+$`. -/
def years : List Char → Bool
  | a :: b :: c :: d :: rest => [a, b, c, d].all Char.isDigit && !rest.isEmpty && moreYears rest
  | _ => false

/-- A match of `YEAR_TAIL` starts here. -/
def yearTail (atStart : Bool) : List Char → Bool
  | [] => false
  | c :: cs => atStart && years (c :: cs) || c == '-' && years cs

/-- What stands before the first match of `YEAR_TAIL`. -/
def cutYears : Bool → List Char → List Char
  | _, [] => []
  | atStart, c :: cs => if yearTail atStart (c :: cs) then [] else c :: cutYears false cs

def withoutYearTail (key : List Char) : List Char :=
  ((cutYears true key).dropWhile fun c => c == '-').rdropWhile fun c => c == '-'

/-- The label, hyphenated and without its trailing years; `fold` is the Unicode folding to lower case without marks. -/
def hyphenated (fold : String → String) (label : String) : List Char :=
  withoutYearTail (hyphenate false ((fold label).toList.flatMap spellOut))

def baseKey (fold : String → String) (label : String) (cap : Nat) : String :=
  let folded := withoutYearTail ((hyphenated fold label).take cap)
  String.ofList (if folded.isEmpty then VARIANT_KEY_EMPTY_LABEL.toList.take cap else folded)

def suffixed (base : String) (n : Nat) : String := base ++ "-" ++ toString n

def candidates (base : String) : List String := base :: (List.range' 2 (VARIANT_KEY_SUFFIX_MAX - 1)).map (suffixed base)

def unusable (taken : List Key) (isUnavailable : String → Bool)
    (key : String) : Bool := taken.contains (some key) || isUnavailable key

def variantKeyFromLabel (fold : String → String) (label : String) (taken : List Key) (cap : Nat)
    (isUnavailable : String → Bool) :
    Except KeyError String :=
  if cap < 1 then .error (.noRoom cap)
  else
    match (candidates (baseKey fold label cap)).find? fun key => !unusable taken isUnavailable key with
    | some key => .ok key
    | none => .error (.spaceExhausted (baseKey fold label cap))

/-! ## Years at the end -/

def yearShaped (cs : List Char) : Bool := isAcademicYear cs || hasYearTail cs

variable {cs : List Char}

theorem isAcademicYear_iff :
    isAcademicYear cs = true ↔
      ∃ a b c d e f g h, cs = [a, b, c, d, '-', e, f, g, h] ∧ [a, b, c, d, e, f, g, h].all Char.isDigit = true := by
  constructor
  · intro h
    unfold isAcademicYear at h
    split at h
    · rename_i a b c d m e f g i
      rw [Bool.and_eq_true, beq_iff_eq] at h
      obtain ⟨rfl, h⟩ := h
      exact ⟨a, b, c, d, e, f, g, i, rfl, h⟩
    · cases h
  · rintro ⟨a, b, c, d, e, f, g, i, rfl, h⟩
    rw [isAcademicYear, h]
    rfl

theorem hasYearTail_iff : hasYearTail cs = true ↔ ∃ p y, cs = p ++ '-' :: y ∧ isAcademicYear y = true := by
  constructor
  · intro h
    have hsplit := take_append_drop (cs.length - 10) cs
    rw [hasYearTail] at h
    split at h
    · rename_i m y hd
      rw [Bool.and_eq_true, beq_iff_eq] at h
      rw [hd, h.1] at hsplit
      exact ⟨_, y, hsplit.symm, h.2⟩
    · cases h
  · rintro ⟨p, y, rfl, hy⟩
    exact hasYearTail_append hy

theorem years_of_isAcademicYear (h : isAcademicYear cs = true) : years cs = true := by
  obtain ⟨a, b, c, d, e, f, g, i, rfl, hd⟩ := (isAcademicYear_iff).mp h
  simp only [all_cons, all_nil, Bool.and_true, Bool.and_eq_true] at hd
  simp [years, moreYears, hd]

theorem years_append {w ys : List Char} (hw : isAcademicYear w = true)
    (hys : years ys = true) : years (w ++ '-' :: ys) = true := by
  obtain ⟨a, b, c, d, e, f, g, i, rfl, hd⟩ := (isAcademicYear_iff).mp hw
  simp only [all_cons, all_nil, Bool.and_true, Bool.and_eq_true] at hd
  unfold years at hys
  split at hys
  · simp only [all_cons, all_nil, Bool.and_true, Bool.and_eq_true] at hys
    simp [years, moreYears, hd, hys]
  · cases hys

theorem cutYears_split (atStart : Bool) (cs : List Char) : cutYears atStart cs = cs ∨
    ∃ ys, years ys = true ∧ (cs = cutYears atStart cs ++ '-' :: ys ∨ atStart = true ∧ cutYears atStart cs = [] ∧
      cs = ys) := by
  induction cs generalizing atStart with
  | nil => exact .inl rfl
  | cons c cs ih =>
    rw [cutYears]
    split_ifs with hmatch
    · rw [yearTail, Bool.or_eq_true, Bool.and_eq_true, Bool.and_eq_true, beq_iff_eq] at hmatch
      rcases hmatch with ⟨hstart, hys⟩ | ⟨rfl, hys⟩
      · exact .inr ⟨c :: cs, hys, .inr ⟨hstart, rfl, rfl⟩⟩
      · exact .inr ⟨cs, hys, .inl rfl⟩
    · rcases ih false with h | ⟨ys, hys, h | ⟨h, -⟩⟩
      · exact .inl (by rw [h])
      · exact .inr ⟨ys, hys, .inl (by rw [cons_append, ← h])⟩
      · cases h

theorem hasYearTail_cons {c : Char}
    (h : hasYearTail (c :: cs) = true) : hasYearTail cs = true ∨ c = '-' ∧ isAcademicYear cs = true := by
  obtain ⟨p, y, hp, hy⟩ := (hasYearTail_iff).mp h
  cases p with
  | nil =>
    cases hp
    exact .inr ⟨rfl, hy⟩
  | cons q p =>
    cases hp
    exact .inl (hasYearTail_append hy)

/-- What is left does not end in a year: the match would have been longer. -/
theorem cutYears_no_year (atStart : Bool) (cs : List Char) :
    hasYearTail (cutYears atStart cs) = false ∧ (atStart = true → isAcademicYear (cutYears atStart cs) = false) := by
  induction cs generalizing atStart with
  | nil => exact ⟨rfl, fun _ => rfl⟩
  | cons c cs ih =>
    rw [cutYears]
    split_ifs with hmatch
    · exact ⟨rfl, fun _ => rfl⟩
    rw [yearTail, Bool.or_eq_true, Bool.and_eq_true, Bool.and_eq_true] at hmatch
    -- Years where `cs` stands would be matched here.
    constructor
    · rw [Bool.eq_false_iff]
      intro hc
      rcases hasYearTail_cons hc with h | ⟨rfl, hw⟩
      · rw [(ih false).1] at h
        cases h
      · refine hmatch (.inr ⟨rfl, ?_⟩)
        rcases cutYears_split false cs with h | ⟨ys, hys, h | ⟨h, -⟩⟩
        · rw [h] at hw
          exact years_of_isAcademicYear hw
        · rw [h]
          exact years_append hw hys
        · cases h
    · intro hstart
      rw [Bool.eq_false_iff]
      intro hw
      refine hmatch (.inl ⟨hstart, ?_⟩)
      rcases cutYears_split false cs with h | ⟨ys, hys, h | ⟨h, -⟩⟩
      · rw [h] at hw
        exact years_of_isAcademicYear hw
      · rw [h]
        exact years_append hw hys
      · cases h

theorem cutYears_not_yearShaped (cs : List Char) : yearShaped (cutYears true cs) = false := by
  rw [yearShaped, (cutYears_no_year true cs).1, (cutYears_no_year true cs).2 rfl]
  rfl

/-! ## Hyphens -/

/-- Letters, digits and hyphens, no two of these in a row. -/
def Tidy (cs : List Char) : Prop := (∀ c ∈ cs, alnum c = true ∨ c = '-') ∧ cs.IsChain fun a b => ¬ (a = '-' ∧ b = '-')

def Trimmed (cs : List Char) : Prop := cs.head? ≠ some '-' ∧ cs.getLast? ≠ some '-'

theorem Tidy.left {a b : List Char}
    (h : Tidy (a ++ b)) : Tidy a := ⟨fun c hc => h.1 c (mem_append_left b hc), h.2.left_of_append⟩

theorem Tidy.right {a b : List Char}
    (h : Tidy (a ++ b)) : Tidy b := ⟨fun c hc => h.1 c (mem_append_right a hc), h.2.right_of_append⟩

theorem Tidy.no_double {a b : List Char} (h : Tidy (a ++ '-' :: '-' :: b)) : False := by
  have hchain := h.right.2
  exact (isChain_cons_cons.mp hchain).1 ⟨rfl, rfl⟩

theorem tidy_hyphenate (inRun : Bool)
    (cs : List Char) : Tidy (hyphenate inRun cs) ∧ (inRun = true → (hyphenate inRun cs).head? ≠ some '-') := by
  induction cs generalizing inRun with
  | nil => exact ⟨⟨fun c hc => (not_mem_nil hc).elim, isChain_nil⟩, fun _ => by simp [hyphenate]⟩
  | cons c cs ih =>
    rw [hyphenate]
    split_ifs with hc hrun
    · obtain ⟨⟨hchars, hchain⟩, -⟩ := ih false
      have hne : c ≠ '-' := fun e => by
        rw [e] at hc
        exact absurd hc (by decide)
      refine ⟨⟨?_, ?_⟩, fun _ => by simpa using hne⟩
      · intro d hd
        rcases mem_cons.mp hd with rfl | hd
        · exact .inl hc
        · exact hchars d hd
      · exact isChain_cons.mpr ⟨fun d _ h => hne h.1, hchain⟩
    · exact ⟨(ih true).1, fun _ => (ih true).2 rfl⟩
    · obtain ⟨⟨hchars, hchain⟩, hhead⟩ := ih true
      refine ⟨⟨?_, ?_⟩, fun h => absurd h hrun⟩
      · intro d hd
        rcases mem_cons.mp hd with rfl | hd
        · exact .inr rfl
        · exact hchars d hd
      · refine isChain_cons.mpr ⟨fun d hd h => hhead rfl ?_, hchain⟩
        rw [← h.2]
        exact hd

theorem withoutYearTail_part (cs : List Char) : ∃ a b, cs = a ++ (withoutYearTail cs ++ b) := by
  have hcut : ∃ b, cs = cutYears true cs ++ b := by
    rcases cutYears_split true cs with h | ⟨ys, -, h | ⟨-, h, -⟩⟩
    · exact ⟨[], by rw [h, append_nil]⟩
    · exact ⟨_, h⟩
    · exact ⟨cs, by rw [h, nil_append]⟩
  obtain ⟨b, hb⟩ := hcut
  refine ⟨(cutYears true cs).takeWhile fun c => c == '-',
    ((cutYears true cs).dropWhile fun c => c == '-').rtakeWhile (fun c => c == '-') ++ b, ?_⟩
  rw [withoutYearTail, ← append_assoc _ _ b, rdropWhile_append_rtakeWhile, ← append_assoc, takeWhile_append_dropWhile]
  exact hb

theorem tidy_withoutYearTail (h : Tidy cs) : Tidy (withoutYearTail cs) := by
  obtain ⟨a, b, hab⟩ := withoutYearTail_part cs
  rw [hab] at h
  exact h.right.left

theorem length_withoutYearTail (cs : List Char) : (withoutYearTail cs).length ≤ cs.length := by
  obtain ⟨a, b, hab⟩ := withoutYearTail_part cs
  have hl := congrArg List.length hab
  rw [length_append, length_append] at hl
  omega

theorem trimmed_withoutYearTail (cs : List Char) : Trimmed (withoutYearTail cs) := by
  rw [withoutYearTail]
  constructor
  · intro h
    -- The first character left is the first that `dropWhile` kept.
    obtain ⟨b, hb⟩ : ∃ b, (cutYears true cs).dropWhile (fun c => c == '-') =
        ((cutYears true cs).dropWhile fun c => c == '-').rdropWhile (fun c => c == '-') ++ b :=
          ⟨_, rdropWhile_append_rtakeWhile.symm⟩
    have hhead : ((cutYears true cs).dropWhile fun c => c == '-').head? = some '-' := by
      rw [hb, head?_append, h]
      rfl
    have hnot := head?_dropWhile_not (fun c => c == '-') (cutYears true cs)
    rw [hhead] at hnot
    cases hnot
  · intro h
    have hne : ((cutYears true cs).dropWhile fun c => c == '-').rdropWhile (fun c => c == '-') ≠ [] := fun e => by
      rw [e] at h
      cases h
    have hnot := rdropWhile_last_not _ _ hne
    rw [getLast?_eq_some_getLast hne] at h
    rw [Option.some.inj h] at hnot
    exact hnot rfl

theorem moreYears_last (h : moreYears cs = true) : cs.getLast? ≠ some '-' := by
  fun_induction moreYears cs with
  | case1 => simp
  | case2 m a b c d rest ih =>
    rw [Bool.and_eq_true, Bool.and_eq_true] at h
    cases rest with
    | nil =>
      intro hlast
      have hd : d = '-' := by simpa using hlast
      rw [hd] at h
      exact absurd h.1.2 (by simp)
    | cons e rest =>
      exact ih h.2
  | case3 => cases h

theorem years_last (h : years cs = true) : cs.getLast? ≠ some '-' := by
  unfold years at h
  split at h
  · rename_i a b c d rest
    rw [Bool.and_eq_true, Bool.and_eq_true] at h
    cases rest with
    | nil => exact absurd h.1.2 (by decide)
    | cons e rest =>
      simp only [getLast?_cons_cons]
      exact moreYears_last h.2
  · cases h

theorem cutYears_of_hyphen (z : List Char) : cutYears true (z ++ ['-']) = z ++ ['-'] := by
  rcases cutYears_split true (z ++ ['-']) with h | ⟨ys, hys, h | ⟨-, -, h⟩⟩
  · exact h
  · refine absurd ?_ (years_last hys)
    have hl := congrArg List.getLast? h
    cases ys with
    | nil => cases hys
    | cons y ys => simpa using hl.symm
  · refine absurd ?_ (years_last hys)
    rw [← h, getLast?_concat]

theorem trim_of_trimmed {y : List Char} (hhead : y.head? ≠ some '-') : y.dropWhile (fun c => c == '-') = y := by
  cases y with
  | nil => rfl
  | cons c y =>
    refine dropWhile_cons_of_neg ?_
    simpa using hhead

theorem withoutYearTail_hyphen {z : List Char} (htidy : Tidy (z ++ ['-'])) (hhead : (z ++ ['-']).head? ≠ some '-') :
    withoutYearTail (z ++ ['-']) = z := by
  rw [withoutYearTail, cutYears_of_hyphen, trim_of_trimmed hhead, rdropWhile_concat_pos _ _ _ (by decide),
    rdropWhile_eq_self_iff]
  intro hne hlast
  rw [beq_iff_eq] at hlast
  rw [← dropLast_append_getLast hne, hlast, append_assoc] at htidy
  exact htidy.no_double

/-- A year is left exactly where a hyphen after it hid it. -/
theorem withoutYearTail_yearShaped_iff {x : List Char} (htidy : Tidy x) (hhead : x.head? ≠ some '-') :
    yearShaped (withoutYearTail x) = true ↔ ∃ z, x = z ++ ['-'] ∧ yearShaped z = true := by
  constructor
  · intro h
    rcases eq_nil_or_concat' x with rfl | ⟨z, c, rfl⟩
    · cases h
    by_cases hc : c = '-'
    · subst hc
      rw [withoutYearTail_hyphen htidy hhead] at h
      exact ⟨z, rfl, h⟩
    · -- What is cut is not trimmed: a hyphen before the years would be doubled.
      generalize hx : z ++ [c] = x at *
      have hcut : Trimmed (cutYears true x) := by
        rcases cutYears_split true x with he | ⟨ys, -, he | ⟨-, he, -⟩⟩
        · rw [he]
          refine ⟨hhead, ?_⟩
          rw [← hx]
          simpa using hc
        · constructor
          · intro hfirst
            refine hhead ?_
            rw [he, head?_append, hfirst]
            rfl
          · intro hlast
            obtain ⟨w, hw⟩ := getLast?_eq_some_iff.mp hlast
            rw [he, hw, append_assoc] at htidy
            exact htidy.no_double
        · rw [he]
          exact ⟨by simp, by simp⟩
      have hkept : withoutYearTail x = cutYears true x := by
        rw [withoutYearTail, trim_of_trimmed hcut.1, rdropWhile_eq_self_iff]
        intro hne hlast
        refine hcut.2 ?_
        rw [getLast?_eq_some_getLast hne, beq_iff_eq.mp hlast]
      rw [hkept, cutYears_not_yearShaped] at h
      cases h
  · rintro ⟨z, rfl, hz⟩
    rw [withoutYearTail_hyphen htidy hhead, hz]

/-! ## The key -/

/-- Letters, digits and inner hyphens, one character at least and `length` at most. -/
structure KeyShape (length : Nat) (key : List Char) : Prop where
  nonempty : key ≠ []
  chars : ∀ c ∈ key, alnum c = true ∨ c = '-'
  trimmed : Trimmed key
  short : key.length ≤ length

variable {fold : String → String} {label : String} {cap : Nat}

theorem tidy_hyphenated (fold : String → String)
    (label : String) : Tidy (hyphenated fold label) := tidy_withoutYearTail (tidy_hyphenate false _).1

theorem tidy_cut (fold : String → String) (label : String) (cap : Nat) : Tidy ((hyphenated fold label).take cap) := by
  have h := tidy_hyphenated fold label
  rw [← take_append_drop cap (hyphenated fold label)] at h
  exact h.left

variable (fold label) in
theorem head_cut (hcap : 1 ≤ cap) : ((hyphenated fold label).take cap).head? ≠ some '-' := by
  rw [head?_take, if_neg (by omega)]
  exact (trimmed_withoutYearTail _).1

variable (fold label) in
theorem baseKey_shape (hcap : 1 ≤ cap) : KeyShape cap (baseKey fold label cap).toList := by
  rw [baseKey, String.toList_ofList]
  split_ifs with hempty
  · have hpalier : VARIANT_KEY_EMPTY_LABEL.toList = ['p', 'a', 'l', 'i', 'e', 'r'] := rfl
    obtain ⟨n, rfl⟩ : ∃ n, cap = n + 1 := ⟨cap - 1, by omega⟩
    refine ⟨?_, ?_, ⟨?_, ?_⟩, length_take_le _ _⟩
    · rw [hpalier]
      simp
    · intro c hc
      have hc := mem_of_mem_take hc
      exact .inl (all_eq_true.mp (by decide : ['p', 'a', 'l', 'i', 'e', 'r'].all alnum = true) c hc)
    · rw [hpalier]
      simp
    · intro hlast
      have hc := mem_of_mem_take (mem_of_getLast? hlast)
      exact absurd hc (by decide)
  · refine ⟨by simpa using hempty, (tidy_withoutYearTail (tidy_cut fold label cap)).1, trimmed_withoutYearTail _, ?_⟩
    exact (length_withoutYearTail _).trans (length_take_le _ _)

def CutAfterYear (fold : String → String) (label : String) (cap : Nat) (key : String) : Prop :=
  YEAR_SHAPED_VARIANT_KEY key = true ∧ key.toList.length + 1 = cap ∧ ∃ rest,
    hyphenated fold label = key.toList ++ '-' :: rest

/-- The base key is year-shaped exactly when it is what the cut leaves before a hyphen. -/
theorem baseKey_yearShaped_iff (hcap : 1 ≤ cap) {key : String} :
    baseKey fold label cap = key ∧ YEAR_SHAPED_VARIANT_KEY key = true ↔ CutAfterYear fold label cap key := by
  have hiff := withoutYearTail_yearShaped_iff (tidy_cut fold label cap) (head_cut fold label hcap)
  constructor
  · rintro ⟨rfl, hyear⟩
    have hlist : yearShaped (baseKey fold label cap).toList = true := hyear
    rw [baseKey, String.toList_ofList] at hlist
    split_ifs at hlist with hempty
    · -- "palier" is too short to hold a year.
      have hle : (VARIANT_KEY_EMPTY_LABEL.toList.take cap).length ≤ 6 := length_take_le' _ _
      rw [yearShaped, Bool.or_eq_true] at hlist
      rcases hlist with h | h
      · have hl := isAcademicYear_length h
        omega
      · obtain ⟨p, y, hp, hy⟩ := hasYearTail_iff.mp h
        have hl := isAcademicYear_length hy
        rw [hp, length_append, length_cons] at hle
        omega
    · obtain ⟨z, hz, -⟩ := hiff.mp hlist
      have hbase : (baseKey fold label cap).toList = z := by
        have htidy := tidy_cut fold label cap
        have hhead := head_cut fold label hcap
        rw [baseKey, String.toList_ofList, if_neg hempty, hz]
        rw [hz] at htidy hhead
        exact withoutYearTail_hyphen htidy hhead
      have hrest := take_append_drop cap (hyphenated fold label)
      rw [hz, append_assoc] at hrest
      refine ⟨hyear, ?_, _, by rw [hbase]; exact hrest.symm⟩
      -- The label itself does not end in a hyphen, so the cap has cut it.
      rw [hbase]
      have hlen := congrArg List.length hz
      rw [length_take, length_append, length_singleton] at hlen
      have hmin : min cap (hyphenated fold label).length = cap := by
        by_contra hlt
        rw [take_of_length_le (by omega)] at hz
        refine (trimmed_withoutYearTail (hyphenate false ((fold label).toList.flatMap spellOut))).2 ?_
        rw [← hyphenated, hz, getLast?_concat]
      omega
  · rintro ⟨hyear, hlen, rest, hsplit⟩
    have htake : (hyphenated fold label).take cap = key.toList ++ ['-'] := by
      rw [hsplit, ← hlen, take_append, take_of_length_le (Nat.le_succ _), Nat.add_sub_cancel_left]
      rfl
    have hbase : withoutYearTail ((hyphenated fold label).take cap) = key.toList := by
      have htidy := tidy_cut fold label cap
      have hhead := head_cut fold label hcap
      rw [htake] at htidy hhead ⊢
      exact withoutYearTail_hyphen htidy hhead
    refine ⟨?_, hyear⟩
    rw [baseKey, hbase, if_neg, String.ofList_toList]
    intro hempty
    rw [YEAR_SHAPED_VARIANT_KEY, List.isEmpty_iff.mp hempty] at hyear
    cases hyear

theorem yearShaped_last (h : yearShaped cs = true) : ∃ p a b c d, cs = p ++ [a, b, c, d] ∧
    [a, b, c, d].all Char.isDigit = true := by
  have hyear : ∀ y, isAcademicYear y = true → ∃ p a b c d, y = p ++ [a, b, c, d] ∧
    [a, b, c, d].all Char.isDigit = true := by
    intro y hy
    obtain ⟨a, b, c, d, e, f, g, i, rfl, hd⟩ := isAcademicYear_iff.mp hy
    refine ⟨[a, b, c, d, '-'], e, f, g, i, rfl, ?_⟩
    simp only [all_cons, all_nil, Bool.and_true, Bool.and_eq_true] at hd ⊢
    exact hd.2.2.2.2
  rw [yearShaped, Bool.or_eq_true] at h
  rcases h with h | h
  · exact hyear cs h
  · obtain ⟨p, y, rfl, hy⟩ := hasYearTail_iff.mp h
    obtain ⟨q, a, b, c, d, rfl, hd⟩ := hyear y hy
    exact ⟨p ++ '-' :: q, a, b, c, d, by simp, hd⟩

theorem digits_suffix {n : Nat} (hn : n ≤ VARIANT_KEY_SUFFIX_MAX) :
    (toString n).toList ≠ [] ∧ (toString n).toList.length ≤ 3 ∧ ∀ c ∈ (toString n).toList, c.isDigit = true := by
  have hs : (toString n).toList = Nat.toDigits 10 n := Nat.toList_repr
  rw [hs]
  refine ⟨Nat.toDigits_ne_nil, ?_, fun c hc => Nat.isDigit_of_mem_toDigits (by decide) (by decide) hc⟩
  refine (Nat.length_toDigits_le_iff (by decide) (by decide)).mpr ?_
  have hmax : VARIANT_KEY_SUFFIX_MAX = 999 := rfl
  omega

theorem suffixed_toList (base : String)
    (n : Nat) : (suffixed base n).toList = base.toList ++ '-' :: (toString n).toList := by
  rw [suffixed, String.toList_append, String.toList_append, append_assoc]
  rfl

theorem suffixed_not_yearShaped {base : String} {n : Nat}
    (hn : n ≤ VARIANT_KEY_SUFFIX_MAX) : YEAR_SHAPED_VARIANT_KEY (suffixed base n) = false := by
  rw [Bool.eq_false_iff]
  intro h
  obtain ⟨hne, hlen, hdigits⟩ := digits_suffix hn
  obtain ⟨p, a, b, c, d, hlast, hd⟩ := yearShaped_last h
  rw [suffixed_toList] at hlast
  have hmem : '-' ∈ [a, b, c, d] := by
    have hdrop := congrArg (List.drop p.length) hlast
    rw [drop_left] at hdrop
    have hlength := congrArg List.length hlast
    rw [length_append, length_append] at hlength
    have hp : p.length ≤ base.toList.length := by
      simp only [length_cons, length_nil] at hlength
      omega
    rw [drop_append_of_le_length hp] at hdrop
    rw [← hdrop]
    simp
  exact absurd (all_eq_true.mp hd '-' hmem) (by decide)

theorem suffixed_shape {base : String} {n : Nat} (hn : n ≤ VARIANT_KEY_SUFFIX_MAX) (hbase : KeyShape cap base.toList) :
    KeyShape (cap + 4) (suffixed base n).toList := by
  obtain ⟨hne, hlen, hdigits⟩ := digits_suffix hn
  rw [suffixed_toList]
  have halnum : ∀ c ∈ (toString n).toList, alnum c = true := by
    intro c hc
    have hd := hdigits c hc
    rw [Char.isDigit, Bool.and_eq_true, decide_eq_true_eq, decide_eq_true_eq] at hd
    rw [alnum, Bool.or_eq_true, Bool.and_eq_true, Bool.and_eq_true, decide_eq_true_eq, decide_eq_true_eq,
      decide_eq_true_eq, decide_eq_true_eq]
    exact .inr ⟨hd.1, hd.2⟩
  refine ⟨by simp, ?_, ⟨?_, ?_⟩, ?_⟩
  · intro c hc
    rcases mem_append.mp hc with hc | hc
    · exact hbase.chars c hc
    · rcases mem_cons.mp hc with rfl | hc
      · exact .inr rfl
      · exact .inl (halnum c hc)
  · rw [head?_append_of_ne_nil _ hbase.nonempty]
    exact hbase.trimmed.1
  · intro hlast
    rw [getLast?_append, getLast?_cons, getLast?_eq_some_getLast hne] at hlast
    have hmem : '-' ∈ (toString n).toList := by
      have he : (toString n).toList.getLast hne = '-' := by simpa using hlast
      rw [← he]
      exact getLast_mem hne
    exact absurd (hdigits '-' hmem) (by decide)
  · have hshort := hbase.short
    rw [length_append, length_cons]
    omega

theorem mem_candidates {base key : String} : key ∈ candidates base ↔
    key = base ∨ ∃ n, 2 ≤ n ∧ n ≤ VARIANT_KEY_SUFFIX_MAX ∧ suffixed base n = key := by
  rw [candidates, mem_cons, mem_map]
  refine or_congr Iff.rfl (exists_congr fun n => ?_)
  rw [mem_range'_1, and_assoc]
  constructor
  · rintro ⟨h1, h2, h3⟩
    exact ⟨h1, by omega, h3⟩
  · rintro ⟨h1, h2, h3⟩
    exact ⟨h1, by omega, h3⟩

/-- What a derived key is to be: refused only when the base and every suffix are unusable; else usable,
    in shape, and no year. -/
structure Derives (base : String) (cap : Nat) (unusable : String → Bool) (result : Except KeyError String) : Prop where
  refused : ∀ e, result = .error e ↔ e = .spaceExhausted base ∧ ∀ key ∈ candidates base, unusable key = true
  usable : ∀ key, result = .ok key → unusable key = false
  shaped : ∀ key, result = .ok key → KeyShape (cap + 4) key.toList
  yearless : ∀ key, result = .ok key → YEAR_SHAPED_VARIANT_KEY key = false

/-- A key is derived as it is to be, unless the cap falls one character after a year and the key before it is usable. -/
theorem variantKeyFromLabel_iff (fold : String → String) (label : String) (taken : List Key) (cap : Nat)
    (hcap : 1 ≤ cap)
    (isUnavailable : String → Bool) :
    Derives (baseKey fold label cap) cap (unusable taken isUnavailable)
      (variantKeyFromLabel fold label taken cap isUnavailable) ↔
      ¬ ∃ key, CutAfterYear fold label cap key ∧ unusable taken isUnavailable key = false := by
  have hresult : variantKeyFromLabel fold label taken cap isUnavailable =
      match (candidates (baseKey fold label cap)).find? fun key => !unusable taken isUnavailable key with
      | some key => .ok key
      | none => .error (.spaceExhausted (baseKey fold label cap)) := by
    rw [variantKeyFromLabel, if_neg (by omega)]
  constructor
  · rintro h ⟨key, hcut, husable⟩
    obtain ⟨hbase, hyear⟩ := (baseKey_yearShaped_iff hcap).mpr hcut
    rw [hbase, candidates, find?_cons_of_pos (by simpa using husable)] at hresult
    have hnot := h.yearless key hresult
    rw [hyear] at hnot
    cases hnot
  · intro h
    cases hfind : (candidates (baseKey fold label cap)).find? fun key => !unusable taken isUnavailable key with
    | none =>
      rw [hfind] at hresult
      have hall : ∀ key ∈ candidates (baseKey fold label cap), unusable taken isUnavailable key = true := by
        intro key hkey
        simpa using find?_eq_none.mp hfind key hkey
      rw [hresult]
      refine ⟨fun e => ⟨fun he => ?_, fun he => (by rw [he.1])⟩, fun key hkey => (nomatch hkey),
        fun key hkey => (nomatch hkey), fun key hkey => (nomatch hkey)⟩
      cases he
      exact ⟨rfl, hall⟩
    | some found =>
      rw [hfind] at hresult
      have husable : unusable taken isUnavailable found = false := by simpa using find?_some hfind
      have hmem := mem_of_find?_eq_some hfind
      rw [hresult]
      refine ⟨fun e => ⟨fun he => (nomatch he), fun he => ?_⟩, ?_, ?_, ?_⟩
      · have hc := he.2 found hmem
        rw [husable] at hc
        cases hc
      · rintro key ⟨⟩
        exact husable
      · rintro key ⟨⟩
        rcases (mem_candidates).mp hmem with rfl | ⟨n, -, hn, rfl⟩
        · obtain ⟨h1, h2, h3, h4⟩ := baseKey_shape fold label hcap
          exact ⟨h1, h2, h3, by omega⟩
        · exact suffixed_shape hn (baseKey_shape fold label hcap)
      · rintro key ⟨⟩
        rcases (mem_candidates).mp hmem with rfl | ⟨n, -, hn, rfl⟩
        · rw [Bool.eq_false_iff]
          intro hyear
          exact h ⟨_, (baseKey_yearShaped_iff hcap).mp ⟨rfl, hyear⟩, husable⟩
        · exact suffixed_not_yearShaped hn

/-- A cap that falls right after the year lets it be removed. -/
theorem year_before_the_cap :
    Derives "bureau" 16 (unusable [] fun _ => false)
      (variantKeyFromLabel id "bureau 2024-2025 bis" [] 16 fun _ => false) := by
  have hbase : baseKey id "bureau 2024-2025 bis" 16 = "bureau" := by decide
  have h := (variantKeyFromLabel_iff id "bureau 2024-2025 bis" [] 16 (by decide) fun _ => false).mpr ?_
  · rwa [hbase] at h
  · rintro ⟨key, hcut, -⟩
    have hshape := (baseKey_yearShaped_iff (by decide)).mpr hcut
    rw [← hshape.1] at hshape
    exact absurd hshape.2 (by decide)

/-- Sixty characters of this label end on the hyphen after its year: the key ends in the year. -/
theorem year_at_the_cap :
    variantKeyFromLabel id "cotisation annuelle de la section voile et kayaks 2024-2025 bis" [] VARIANT_KEY_MAX
      (fun _ => false) =
        .ok "cotisation-annuelle-de-la-section-voile-et-kayaks-2024-2025" ∧
      YEAR_SHAPED_VARIANT_KEY "cotisation-annuelle-de-la-section-voile-et-kayaks-2024-2025" = true := by
  decide

end Canari.Associations.Cotisation
