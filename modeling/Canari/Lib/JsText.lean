/-
  Canari.Lib.JsText — what the code does with strings of UTF-16 units: the order of `<` and
  `sort`, `trim`, `join`, numbers and bytes as text.
-/

import Canari.Lib.Utf16
import Mathlib.Data.List.Sort
import Mathlib.Data.List.TakeWhile

namespace Canari.Lib.JsText

open Lib.Utf16 (JsString rebuild)
open List

def text (s : String) : JsString := rebuild 0xFFFD s.toList

theorem text_inj {a b : String} : text a = text b ↔ a = b := by
  refine ⟨fun h => ?_, fun h => congrArg text h⟩
  have hs : ∀ s : String, Utf16.scalars (text s) = s.toList :=
    fun s => Utf16.scalars_rebuild (by decide) (by decide) s.toList
  rw [← String.toList_inj, ← hs a, ← hs b, h]

/-- What `trim` drops. -/
def isSpace (u : UInt16) : Bool :=
  let n := u.toNat
  (9 ≤ n && n ≤ 13) || n = 0x20 || n = 0xa0 || n = 0x1680 || (0x2000 ≤ n && n ≤ 0x200a) || n = 0x2028 || n = 0x2029 ||
    n = 0x202f || n = 0x205f || n = 0x3000 || n = 0xfeff

def trim (s : JsString) : JsString := ((s.dropWhile isSpace).reverse.dropWhile isSpace).reverse

def join (separator : JsString) (parts : List JsString) : JsString := separator.intercalate parts

def decimal (n : Int) : JsString := text (toString n)

/-- `toString(16).padStart(width, '0')`. -/
def hexOf (width n : Nat) : JsString := text (String.ofList ((Nat.toDigits 16 n).leftpad width '0'))

/-! ## Splitting at a separator -/

theorem not_mem_of_mem_splitOn {α : Type} [BEq α] [LawfulBEq α] {a : α} {l part : List α}
    (h : part ∈ l.splitOn a) : a ∉ part := by
  induction l generalizing part with
  | nil =>
    obtain rfl := mem_singleton.mp h
    exact not_mem_nil
  | cons x xs ih =>
    rw [splitOn_cons_eq_if_modifyHead] at h
    split at h
    · rcases mem_cons.mp h with rfl | h
      · exact not_mem_nil
      · exact ih h
    · next hx =>
      obtain ⟨first, rest, hs⟩ :
        ∃ first rest, xs.splitOn a = first :: rest := exists_cons_of_ne_nil (splitOn_ne_nil a xs)
      rw [hs] at h ih
      rcases mem_cons.mp h with rfl | h
      · intro hmem
        rcases mem_cons.mp hmem with rfl | hmem
        · exact hx (beq_self_eq_true _)
        · exact ih mem_cons_self hmem
      · exact ih (mem_cons_of_mem _ h)

/-! ## The order of code units -/

/-- `a <= b`. -/
def le : JsString → JsString → Bool
  | [], _ => true
  | _ :: _, [] => false
  | a :: as, b :: bs => a < b || (a == b && le as bs)

def sort (parts : List JsString) : List JsString := parts.insertionSort fun a b => le a b = true

/-- The order `sort` takes. -/
def Le (a b : JsString) : Prop := le a b = true

theorem le_cons {a b : UInt16} {as bs : JsString} : Le (a :: as)
    (b :: bs) ↔ a.toNat < b.toNat ∨ (a = b ∧ Le as bs) := by
  simp [Le, le, UInt16.lt_iff_toNat_lt]

theorem le_total (a b : JsString) : Le a b ∨ Le b a := by
  induction a generalizing b with
  | nil => exact .inl rfl
  | cons x as ih =>
    cases b with
    | nil => exact .inr rfl
    | cons y bs =>
      rw [le_cons, le_cons]
      by_cases h : x = y
      · subst h
        rcases ih bs with h | h
        · exact .inl (.inr ⟨rfl, h⟩)
        · exact .inr (.inr ⟨rfl, h⟩)
      · have hne : x.toNat ≠ y.toNat := fun e => h (UInt16.toNat_inj.mp e)
        rcases Nat.lt_or_gt_of_ne hne with h | h
        · exact .inl (.inl h)
        · exact .inr (.inl h)

theorem le_trans {a b c : JsString} (h : Le a b) (h' : Le b c) : Le a c := by
  induction a generalizing b c with
  | nil => rfl
  | cons x as ih =>
    cases b with
    | nil => cases h
    | cons y bs =>
      cases c with
      | nil => cases h'
      | cons z cs =>
        rw [le_cons] at h h' ⊢
        rcases h with h | ⟨rfl, h⟩
        · rcases h' with h' | ⟨rfl, -⟩
          · exact .inl (by omega)
          · exact .inl h
        · rcases h' with h' | ⟨rfl, h'⟩
          · exact .inl h'
          · exact .inr ⟨rfl, ih h h'⟩

theorem le_antisymm {a b : JsString} (h : Le a b) (h' : Le b a) : a = b := by
  induction a generalizing b with
  | nil =>
    cases b with
    | nil => rfl
    | cons _ _ => cases h'
  | cons x as ih =>
    cases b with
    | nil => cases h
    | cons y bs =>
      rw [le_cons] at h h'
      rcases h with h | ⟨rfl, h⟩
      · rcases h' with h' | ⟨rfl, -⟩
        · omega
        · omega
      · rcases h' with h' | ⟨-, h'⟩
        · omega
        · rw [ih h h']

instance : DecidableRel Le := fun a b => inferInstanceAs (Decidable (le a b = true))

instance : Std.Total Le := ⟨le_total⟩

instance : IsTrans JsString Le := ⟨fun _ _ _ => le_trans⟩

instance : Std.Antisymm Le := ⟨fun _ _ => le_antisymm⟩

variable {parts : List JsString}

@[simp] theorem mem_sort {x : JsString} : x ∈ sort parts ↔ x ∈ parts := mem_insertionSort _

theorem nodup_sort (h : parts.Nodup) : (sort parts).Nodup := (perm_insertionSort _ parts).nodup_iff.mpr h

theorem pairwise_sort (parts : List JsString) : (sort parts).Pairwise Le := pairwise_insertionSort Le parts

theorem eq_of_sorted {x y : List JsString} (hx : x.Pairwise Le) (hy : y.Pairwise Le) (nx : x.Nodup) (ny : y.Nodup)
    (h : ∀ a, a ∈ x ↔ a ∈ y) :
    x = y :=
  ((perm_ext_iff_of_nodup nx ny).mpr h).eq_of_pairwise' hx hy

/-! ## Trimmed text -/

variable {s : JsString}

theorem trim_trim_ne_nil (h : trim s ≠ []) : trim (trim s) ≠ [] := by
  have hne : (s.dropWhile isSpace).reverse.dropWhile isSpace ≠ [] := by
    intro e
    rw [trim, e] at h
    exact h rfl
  obtain ⟨u, hu, hns⟩ : ∃ u ∈ trim s, isSpace u = false :=
    ⟨_, mem_reverse.mpr (head_mem hne), head_dropWhile_not isSpace hne⟩
  have h1 : (trim s).dropWhile isSpace ≠ [] := by
    intro e
    have := dropWhile_eq_nil_iff.mp e u hu
    rw [hns] at this
    cases this
  intro e
  rw [trim, reverse_eq_nil_iff, dropWhile_eq_nil_iff] at e
  have := e _ (mem_reverse.mpr (head_mem h1))
  rw [head_dropWhile_not isSpace h1] at this
  cases this

/-! ## Hexadecimal digits -/

/-- A unit of `[0-9a-f]`. -/
def isHexDigit (u : UInt16) : Bool := (0x30 ≤ u && u ≤ 0x39) || (0x61 ≤ u && u ≤ 0x66)

/-- A text of `/^[0-9a-f]+$/`. -/
def isHex (s : JsString) : Bool := s ≠ [] && s.all isHexDigit

theorem isHex_iff : isHex s = true ↔ s ≠ [] ∧ s.all isHexDigit = true := by
  rw [isHex, Bool.and_eq_true, decide_eq_true_eq]

theorem isHex_of_length {n : Nat} (hl : s.length = n) (hn : 1 ≤ n) (h : s.all isHexDigit = true) : isHex s = true := by
  refine (isHex_iff).mpr ⟨?_, h⟩
  rintro rfl
  rw [length_nil] at hl
  omega

def hexChars : List Char := ['0', '1', '2', '3', '4', '5', '6', '7', '8', '9', 'a', 'b', 'c', 'd', 'e', 'f']

theorem mem_hexChars_of_toDigits {n : Nat} {c : Char} (h : c ∈ Nat.toDigits 16 n) : c ∈ hexChars := by
  have hdigit : ∀ d : Fin 16, d.val.digitChar ∈ hexChars := by decide
  induction n using Nat.strongRecOn with
  | ind n ih =>
    rw [Nat.toDigits_eq_if (by omega)] at h
    split at h
    · rename_i hn
      rw [mem_singleton.mp h]
      exact hdigit ⟨n, hn⟩
    · rcases mem_append.mp h with h | h
      · exact ih (n / 16) (by omega) h
      · rw [mem_singleton.mp h]
        exact hdigit ⟨n % 16, Nat.mod_lt n (by omega)⟩

theorem unitsBy_hexChar {c : Char} (h : c ∈ hexChars) : ∃ u, Utf16.unitsBy 0xFFFD c = [u] ∧ isHexDigit u = true := by
  have hall : (hexChars.all fun c => Utf16.unitsBy 0xFFFD c == [UInt16.ofNat c.toNat] &&
    isHexDigit (UInt16.ofNat c.toNat)) = true := by decide
  have hc := all_eq_true.mp hall c h
  rw [Bool.and_eq_true, beq_iff_eq] at hc
  exact ⟨_, hc⟩

theorem rebuild_hex {cs : List Char}
    (h : ∀ c ∈ cs, c ∈ hexChars) : (rebuild 0xFFFD cs).length = cs.length ∧
    (rebuild 0xFFFD cs).all isHexDigit = true := by
  induction cs with
  | nil => exact ⟨rfl, rfl⟩
  | cons c cs ih =>
    obtain ⟨u, hu, hd⟩ := unitsBy_hexChar (h c mem_cons_self)
    obtain ⟨hl, ha⟩ := ih fun d hd => h d (mem_cons_of_mem c hd)
    have hcons : rebuild 0xFFFD (c :: cs) = u :: rebuild 0xFFFD cs := by
      rw [rebuild, flatMap_cons, hu]
      rfl
    rw [hcons, length_cons, hl, all_cons, hd, ha]
    exact ⟨rfl, rfl⟩

theorem hexOf_spec (width n : Nat) : width ≤ (hexOf width n).length ∧ (hexOf width n).all isHexDigit = true := by
  have hmem : ∀ c ∈ (Nat.toDigits 16 n).leftpad width '0', c ∈ hexChars := by
    intro c hc
    rcases mem_append.mp hc with hc | hc
    · rw [eq_of_mem_replicate hc]
      decide
    · exact mem_hexChars_of_toDigits hc
  obtain ⟨hl, ha⟩ := rebuild_hex hmem
  unfold hexOf text
  rw [String.toList_ofList]
  refine ⟨?_, ha⟩
  rw [hl, length_leftpad]
  exact Nat.le_max_left _ _

def hexUnits : List UInt16 := (List.range 10).map (fun n => UInt16.ofNat (0x30 + n)) ++ (List.range 6).map fun n =>
    UInt16.ofNat (0x61 + n)

theorem mem_hexUnits {u : UInt16} (h : isHexDigit u = true) : u ∈ hexUnits := by
  have hof : ∀ {n : Nat}, n = u.toNat → UInt16.ofNat n = u := by
    rintro n rfl
    exact UInt16.ofNat_toNat
  simp only [isHexDigit, Bool.or_eq_true, Bool.and_eq_true, decide_eq_true_eq, UInt16.le_iff_toNat_le] at h
  refine mem_append.mpr ?_
  rcases h with ⟨h1, h2⟩ | ⟨h1, h2⟩
  · refine .inl (mem_map.mpr ⟨u.toNat - 0x30, mem_range.mpr ?_, hof ?_⟩)
    · simp at h1 h2
      omega
    · simp at h1 h2
      omega
  · refine .inr (mem_map.mpr ⟨u.toNat - 0x61, mem_range.mpr ?_, hof ?_⟩)
    · simp at h1 h2
      omega
    · simp at h1 h2
      omega

def hexTexts : Nat → List JsString
  | 0 => [[]]
  | depth + 1 => hexUnits.flatMap fun u => (hexTexts depth).map (u :: ·)

theorem length_hexTexts (depth : Nat) : (hexTexts depth).length = 16 ^ depth := by
  induction depth with
  | zero => rfl
  | succ depth ih =>
    rw [hexTexts, length_flatMap]
    simp only [length_map, ih]
    rw [map_const', sum_replicate_nat, show hexUnits.length = 16 from rfl, Nat.pow_succ, Nat.mul_comm]

theorem mem_hexTexts (h : s.all isHexDigit = true) : s ∈ hexTexts s.length := by
  induction s with
  | nil => exact mem_singleton.mpr rfl
  | cons u s ih =>
    rw [all_cons, Bool.and_eq_true] at h
    exact mem_flatMap.mpr ⟨u, mem_hexUnits h.1, mem_map_of_mem (ih h.2)⟩

theorem length_le_of_hex {depth : Nat} (hn : parts.Nodup) (hd : ∀ p ∈ parts, p.length = depth)
    (hx : ∀ p ∈ parts, p.all isHexDigit = true) : parts.length ≤ 16 ^ depth := by
  have hsub : parts ⊆ hexTexts depth := fun p hp => hd p hp ▸ mem_hexTexts (hx p hp)
  rw [← length_hexTexts depth]
  exact (subperm_of_subset hn hsub).length_le

end Canari.Lib.JsText
