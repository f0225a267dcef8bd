/-
  Canari.Lib.WebText — `TextDecoder` with `fatal`, `btoa` and `atob`, as a web page has them.

  A decoder made without `ignoreBOM` takes a byte order mark off the front of what it reads. A text that
  opens with U+FEFF is written with those three bytes and so read back without its first unit
  (`decodeFatal_iff`). Base64 loses nothing: the digits of some bytes are read
  back, with their padding put on again (`atob_padded`).
-/

import Canari.Lib.Buffer
import Canari.Lib.Cbor

namespace Canari.Lib.WebText

open Lib.Utf16 Lib.Buffer List

/-! ## UTF-8 -/

def byteOrderMark : UInt16 := 0xFEFF

def markBytes : Bytes := [0xEF, 0xBB, 0xBF]

/-- `new TextDecoder('utf-8', { fatal: true }).decode(bytes)`, `none` where it throws. -/
def decodeFatal (bytes : Bytes) : Option JsString :=
  (String.fromUTF8? ⟨(if markBytes.isPrefixOf bytes then bytes.drop markBytes.length else
    bytes).toArray⟩).map JsText.text

def withoutMark : JsString → JsString
  | [] => []
  | u :: rest => if u = byteOrderMark then rest else u :: rest

def Marked (t : JsString) : Prop := t.head? = some byteOrderMark

instance (t : JsString) : Decidable (Marked t) := inferInstanceAs (Decidable (_ = _))

section Utf8

variable {t s : JsString} {bytes : Bytes}

theorem utf8Of_eq (t : JsString) : utf8Of t = (scalars t).flatMap String.utf8EncodeChar := by
  exact toList_data_toByteArray

theorem utf8Of_text (str : String) : utf8Of (JsText.text str) = str.toByteArray.data.toList := by
  rw [utf8Of, JsText.text, scalars_rebuild (by decide) (by decide), String.ofList_toList]
  rfl

theorem isWellFormed_text (str : String) : isWellFormed (JsText.text str) = true := by
  have h := isWellFormed_toWellFormed (JsText.text str)
  rwa [toWellFormed, JsText.text, scalars_rebuild (by decide) (by decide)] at h

theorem fromUTF8?_utf8Of (t : JsString) : String.fromUTF8? ⟨(utf8Of t).toArray⟩ = some (String.ofList (scalars t)) :=
  Cbor.fromUTF8?_eq_some.mpr rfl

theorem text_ofList_scalars (h : isWellFormed t = true) : JsText.text (String.ofList (scalars t)) = t := by
  rw [JsText.text, String.toList_ofList]
  exact toWellFormed_of_wellFormed h

theorem isWellFormed_mark_cons : isWellFormed (byteOrderMark :: t) = isWellFormed t := by
  cases t with
  | nil => decide
  | cons u rest =>
    have hhigh : isHigh byteOrderMark = false := by decide
    have hlow : isLow byteOrderMark = false := by decide
    rw [isWellFormed, hhigh, hlow]
    simp

theorem utf8Of_mark_cons (t : JsString) : utf8Of (byteOrderMark :: t) = markBytes ++ utf8Of t := by
  rw [utf8Of_eq, utf8Of_eq, scalars_cons (.inl (by decide))]
  rfl

/-- Only a text that opens with the mark is written with its bytes first. -/
theorem marked_of_utf8Of (h : utf8Of t = markBytes ++ bytes) : Marked t := by
  have hmark : markBytes = String.utf8EncodeChar (single byteOrderMark) := by decide
  have hread : ∀ {c : Char} {more : List UInt8},
    (String.utf8EncodeChar c ++ more).toByteArray.utf8DecodeChar? 0 = some c := by
    intro c more
    rw [toByteArray_append]
    exact ByteArray.utf8DecodeChar?_utf8EncodeChar_append
  rw [utf8Of_eq] at h
  cases hs : scalars t with
  | nil =>
    rw [hs] at h
    cases h
  | cons c cs =>
    rw [hs, flatMap_cons, hmark] at h
    have hc : c = single byteOrderMark := by
      have hcongr := congrArg (fun l => l.toByteArray.utf8DecodeChar? 0) h
      simp only [hread] at hcongr
      exact Option.some.inj hcongr
    have hunit : (single byteOrderMark).toNat = 0xFEFF := by decide
    cases t with
    | nil => cases hs
    | cons u rest =>
      by_cases hpair : isHigh u = true ∧ startsLow rest = true
      · obtain ⟨lo, rest, rfl⟩ : ∃ lo more, rest = lo :: more := by
          cases rest with
          | nil => exact absurd hpair.2 (by decide)
          | cons lo more => exact ⟨lo, more, rfl⟩
        have hlow : isLow lo = true := hpair.2
        rw [scalars_pair hpair.1 hlow] at hs
        have hn := combine_toNat hpair.1 hlow
        rw [(List.cons.inj hs).1, hc] at hn
        omega
      · have hcons : isHigh u = false ∨ startsLow rest = false := by
          rcases not_and_or.mp hpair with h | h
          · exact .inl (Bool.eq_false_iff.mpr h)
          · exact .inr (Bool.eq_false_iff.mpr h)
        rw [scalars_cons hcons] at hs
        have hu : single u = single byteOrderMark := (List.cons.inj hs).1.trans hc
        by_cases hsur : (isHigh u || isLow u) = true
        · rw [single_of_surrogate hsur] at hu
          exact absurd hu (by decide)
        · have hn := single_toNat hsur
          rw [hu] at hn
          exact congrArg some (UInt16.toNat_inj.mp hn.symm)

theorem withoutMark_of_not_marked (h : ¬ Marked t) : withoutMark t = t := by
  cases t with
  | nil => rfl
  | cons u rest => exact if_neg fun hu => h (congrArg some hu)

theorem withoutMark_mark_cons (t : JsString) : withoutMark (byteOrderMark :: t) = t := by
  rw [withoutMark, if_pos rfl]

theorem Marked.eq_cons (h : Marked t) : t = byteOrderMark :: withoutMark t := by
  cases t with
  | nil => cases h
  | cons u rest =>
    obtain rfl : u = byteOrderMark := Option.some.inj h
    rw [withoutMark_mark_cons]

theorem withoutMark_eq_self : withoutMark t = t ↔ ¬ Marked t := by
  refine ⟨fun h hm => ?_, withoutMark_of_not_marked⟩
  have hlen := congrArg List.length hm.eq_cons
  rw [h, length_cons] at hlen
  omega

theorem length_utf8Of_withoutMark_le (t : JsString) : (utf8Of (withoutMark t)).length ≤ (utf8Of t).length := by
  by_cases h : Marked t
  · obtain ⟨s, rfl⟩ : ∃ s, t = byteOrderMark :: s := ⟨_, h.eq_cons⟩
    rw [withoutMark_mark_cons, utf8Of_mark_cons, length_append]
    omega
  · rw [withoutMark_of_not_marked h]

/-- What a decoder reads: the text some bytes were written from, less its mark. -/
theorem decodeFatal_iff : decodeFatal bytes = some t ↔
    ∃ s, isWellFormed s = true ∧ bytes = utf8Of s ∧ t = withoutMark s := by
  constructor
  · intro h
    obtain ⟨str, hstr, rfl⟩ := Option.map_eq_some_iff.mp h
    have hbytes := Cbor.fromUTF8?_eq_some.mp hstr
    split at hbytes
    · next hp =>
      obtain ⟨more, rfl⟩ := List.isPrefixOf_iff_prefix.mp hp
      rw [drop_left] at hbytes
      refine ⟨byteOrderMark :: JsText.text str, ?_, ?_, (withoutMark_mark_cons _).symm⟩
      · rw [isWellFormed_mark_cons, isWellFormed_text]
      · rw [utf8Of_mark_cons, utf8Of_text, hbytes]
    · next hp =>
      rw [← utf8Of_text] at hbytes
      refine ⟨JsText.text str, isWellFormed_text str, hbytes, (withoutMark_of_not_marked fun hm => hp ?_).symm⟩
      rw [hbytes, hm.eq_cons, utf8Of_mark_cons]
      exact List.isPrefixOf_iff_prefix.mpr (prefix_append _ _)
  · intro ⟨s, hw, hbytes, ht⟩
    subst hbytes ht
    unfold decodeFatal
    by_cases hm : Marked s
    · obtain ⟨t, rfl⟩ : ∃ t, s = byteOrderMark :: t := ⟨_, hm.eq_cons⟩
      rw [isWellFormed_mark_cons] at hw
      rw [utf8Of_mark_cons, withoutMark_mark_cons,
        if_pos (List.isPrefixOf_iff_prefix.mpr (prefix_append _ _)), drop_left,
        fromUTF8?_utf8Of, Option.map_some, text_ofList_scalars hw]
    · have hp : ¬ markBytes.isPrefixOf (utf8Of s) = true := fun hp => by
        obtain ⟨more, hmore⟩ := List.isPrefixOf_iff_prefix.mp hp
        exact hm (marked_of_utf8Of hmore.symm)
      rw [if_neg hp, fromUTF8?_utf8Of, Option.map_some, text_ofList_scalars hw, withoutMark_of_not_marked hm]

theorem eq_of_utf8Of_eq (ht : isWellFormed t = true) (hs : isWellFormed s = true)
    (h : utf8Of t = utf8Of s) : t = s := by
  rw [← toWellFormed_of_wellFormed ht, ← toWellFormed_of_wellFormed hs]
  exact toWellFormed_congr (utf8Of_inj.mp h)

end Utf8

/-! ## Base64 -/

def isAsciiSpace (u : UInt16) : Bool := u = 0x09 || u = 0x0A || u = 0x0C || u = 0x0D || u = 0x20

def isBase64 (u : UInt16) : Bool := (sixBits u).isSome && u != 0x2D && u != 0x5F

/-- One or two `=` that close a text of whole groups. -/
def withoutPadding (t : JsString) : JsString :=
  if t.length % 4 ≠ 0 then t
  else if [0x3D, 0x3D].isSuffixOf t then t.take (t.length - 2)
  else if [0x3D].isSuffixOf t then t.take (t.length - 1)
  else t

/-- `atob`, as the bytes of its binary string, `none` where it throws. -/
def atob (data : JsString) : Option Bytes :=
  let t := withoutPadding (data.filter fun u => !isAsciiSpace u)
  if t.length % 4 = 1 ∨ ¬ t.all isBase64 then none else some (bytesOfSixes (t.filterMap sixBits))

/-- `btoa` of a binary string, by its bytes. -/
def btoa (bytes : Bytes) : JsString := base64Of bytes

section Base64

variable {t : JsString} {bytes : Bytes}

theorem length_sixesOf (bytes : Bytes) : (sixesOf bytes).length % 4 ≠ 1 := by
  fun_induction sixesOf bytes with
  | case1 a b c rest ih =>
    simp only [length_cons]
    omega
  | case2 a b => exact (by decide : 3 % 4 ≠ 1)
  | case3 a => exact (by decide : 2 % 4 ≠ 1)
  | case4 => exact (by decide : 0 % 4 ≠ 1)

theorem isSuffixOf_eq_false {a b : JsString} {u : UInt16} (hu : u ∈ a) (hb : u ∉ b) : a.isSuffixOf b = false := by
  rw [Bool.eq_false_iff]
  intro h
  exact hb ((isSuffixOf_iff_suffix.mp h).subset hu)

theorem withoutPadding_padded (hlen : t.length % 4 ≠ 1) (h : (0x3D : UInt16) ∉ t) :
    withoutPadding (t ++ List.replicate ((4 - t.length % 4) % 4) 0x3D) = t := by
  have hcases : t.length % 4 = 0 ∨ t.length % 4 = 3 ∨ t.length % 4 = 2 := by omega
  unfold withoutPadding
  rcases hcases with h0 | h3 | h2
  · rw [h0, show (4 - 0) % 4 = 0 from rfl, replicate_zero, append_nil, if_neg (not_not.mpr h0),
      isSuffixOf_eq_false mem_cons_self h, isSuffixOf_eq_false mem_cons_self h]
    rfl
  · have hmod : (t ++ [(0x3D : UInt16)]).length % 4 = 0 := by
      rw [length_append, length_singleton]
      omega
    have htwo : ([0x3D, 0x3D] : JsString).isSuffixOf (t ++ [0x3D]) = false := by
      rw [Bool.eq_false_iff]
      intro hs
      obtain ⟨pre, hpre⟩ := isSuffixOf_iff_suffix.mp hs
      have hpre' : pre ++ [(0x3D : UInt16)] ++ [0x3D] = t ++ [0x3D] := by simpa using hpre
      exact h (append_cancel_right hpre' ▸ by simp)
    have hone : ([0x3D] : JsString).isSuffixOf (t ++ [0x3D]) = true := isSuffixOf_iff_suffix.mpr (suffix_append _ _)
    rw [h3, replicate_one, if_neg (not_not.mpr hmod), htwo]
    simp
  · have hmod : (t ++ ([0x3D, 0x3D] : JsString)).length % 4 = 0 := by
      rw [length_append, length_cons, length_singleton]
      omega
    have htwo : ([0x3D, 0x3D] : JsString).isSuffixOf (t ++ [0x3D, 0x3D]) = true :=
      isSuffixOf_iff_suffix.mpr (suffix_append _ _)
    rw [h2, show List.replicate ((4 - 2) % 4) (0x3D : UInt16) = [0x3D, 0x3D] from rfl, if_neg (not_not.mpr hmod)]
    simp

theorem atob_padded (bytes : Bytes) :
    atob ((sixesOf bytes).map unitOf ++ List.replicate ((4 - ((sixesOf bytes).map unitOf).length % 4) % 4) 0x3D) =
      some bytes := by
  have hunits : ∀ u ∈ (sixesOf bytes).map unitOf, isBase64 u = true ∧ isAsciiSpace u = false ∧ u ≠ 0x3D := by
    intro u hu
    obtain ⟨n, hn, rfl⟩ := mem_map.mp hu
    have hall : ∀ m : Fin 64, isBase64 (unitOf m) = true ∧ isAsciiSpace (unitOf m) = false ∧ unitOf m ≠ 0x3D := by
      decide
    exact hall ⟨n, sixesOf_lt bytes n hn⟩
  have hread : ((sixesOf bytes).map unitOf).filterMap sixBits = sixesOf bytes := by
    rw [filterMap_map]
    exact (filterMap_congr fun n hn => (sixBits_unitOf (sixesOf_lt bytes n hn)).1).trans filterMap_some
  have hlen : ((sixesOf bytes).map unitOf).length % 4 ≠ 1 := by
    rw [length_map]
    exact length_sixesOf bytes
  generalize (sixesOf bytes).map unitOf = t at hunits hread hlen ⊢
  have hfilter : (t ++ List.replicate ((4 - t.length % 4) % 4) 0x3D).filter (fun u => !isAsciiSpace u) =
      t ++ List.replicate ((4 - t.length % 4) % 4) 0x3D := by
    rw [filter_eq_self]
    intro u hu
    rcases mem_append.mp hu with hu | hu
    · rw [(hunits u hu).2.1]
      rfl
    · rw [eq_of_mem_replicate hu]
      decide
  have hall : t.all isBase64 = true := all_eq_true.mpr fun u hu => (hunits u hu).1
  unfold atob
  rw [hfilter, withoutPadding_padded hlen fun hu => (hunits _ hu).2.2 rfl]
  rw [if_neg (by rw [hall]; simpa using hlen), hread, bytesOfSixes_sixesOf]

theorem length_sixesOf_padded (bytes : Bytes) : (3 - bytes.length % 3) % 3 = (4 - (sixesOf bytes).length % 4) % 4 := by
  fun_induction sixesOf bytes with
  | case1 a b c rest ih =>
    simp only [length_cons]
    omega
  | case2 a b => rfl
  | case3 a => rfl
  | case4 => rfl

theorem atob_btoa (bytes : Bytes) : atob (btoa bytes) = some bytes := by
  have h := atob_padded bytes
  rw [length_map, ← length_sixesOf_padded] at h
  exact h

end Base64

end Canari.Lib.WebText
