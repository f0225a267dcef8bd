/-
  Canari.Lib.Json — `JSON.parse` and `JSON.stringify` on strings of UTF-16 units.

  A reader takes one piece off the front of its input and gives the rest. `parse_stringify`
  says what comes back of a value that was written: the value itself, with each number as its
  text is read again and `null` for a number that is not finite (`reread`). Strings come back
  as they were, whatever their units: a surrogate without its pair is written as an escape.

  Numbers are a parameter: `JsNumber` has what the text of a number means and how a number is
  written, with what the language promises of the two together.
-/

import Canari.Lib.JsText
import Mathlib.Data.Nat.Digits.Defs
import Mathlib.Data.Nat.Digits.Lemmas

namespace Canari.Lib.Json

open Option

open Lib.Utf16 (JsString isHigh isLow)
open List
open Lib.JsText (text)

/-! ## Numbers -/

def isDigit (u : UInt16) : Bool := 0x30 ≤ u && u ≤ 0x39

abbrev Digits := { ds : JsString // ds ≠ [] ∧ ds.all isDigit = true }

/-- A number as JSON spells it; the sign of the exponent is a minus when `some true`. -/
structure Literal where
  minus : Bool
  int : Digits
  frac : Option Digits
  exp : Option (Option Bool × Digits)
  noLeadingZero : int.val.head? = some 0x30 → int.val.length = 1

def writeFrac : Option Digits → JsString
  | none => []
  | some ds => 0x2e :: ds.val

def writeExp : Option (Option Bool × Digits) → JsString
  | none => []
  | some (none, ds) => 0x65 :: ds.val
  | some (some true, ds) => 0x65 :: 0x2d :: ds.val
  | some (some false, ds) => 0x65 :: 0x2b :: ds.val

variable (l : Literal)

def Literal.write : JsString := (if l.minus then [0x2d] else []) ++ l.int.val ++ writeFrac l.frac ++ writeExp l.exp

variable (s : JsString)

def readDigits : Option (Digits × JsString) :=
  if h : s.takeWhile isDigit ≠ [] then some (⟨s.takeWhile isDigit, h, all_takeWhile⟩, s.dropWhile isDigit) else none

def readFrac : JsString → Option (Option Digits × JsString)
  | [] => some (none, [])
  | u :: rest => if u = 0x2e then (readDigits rest).map fun r => (some r.1, r.2) else some (none, u :: rest)

def readExpSign : JsString → Option Bool × JsString
  | [] => (none, [])
  | u :: rest => if u = 0x2d then (some true, rest) else if u = 0x2b then (some false, rest) else (none, u :: rest)

def readExp : JsString → Option (Option (Option Bool × Digits) × JsString)
  | [] => some (none, [])
  | u :: rest =>
    if u = 0x65 || u = 0x45 then
      let r := readExpSign rest
      (readDigits r.2).map fun d => (some (r.1, d.1), d.2)
    else some (none, u :: rest)

def readMinus : JsString → Bool × JsString
  | [] => (false, [])
  | u :: rest => if u = 0x2d then (true, rest) else (false, u :: rest)

def readNumber : Option (Literal × JsString) := do
  let m := readMinus s
  let i ← readDigits m.2
  if h : i.1.val.head? = some 0x30 → i.1.val.length = 1 then
    let f ← readFrac i.2
    let e ← readExp f.2
    some (⟨m.1, i.1, f.1, e.1, h⟩, e.2)
  else none

def Stops (rest : JsString) : Prop := ∀ u ∈ rest.head?, isDigit u = false ∧ u ≠ 0x2e ∧ u ≠ 0x65 ∧ u ≠ 0x45

variable {rest : JsString}

theorem readDigits_append (ds : Digits) (h : ∀ u ∈ rest.head?, isDigit u = false) :
    readDigits (ds.val ++ rest) = some (ds, rest) := by
  obtain ⟨ds, hne, hall⟩ := ds
  have hds : ∀ u ∈ ds, isDigit u = true := List.all_eq_true.mp hall
  have htake : (ds ++ rest).takeWhile isDigit = ds := by
    rw [takeWhile_append_of_pos hds]
    cases rest with
    | nil => exact append_nil ds
    | cons u rest => rw [takeWhile_cons, h u rfl, if_neg Bool.false_ne_true, append_nil]
  have hdrop : (ds ++ rest).dropWhile isDigit = rest := by
    rw [dropWhile_append_of_pos hds]
    cases rest with
    | nil => rfl
    | cons u rest => rw [dropWhile_cons, h u rfl, if_neg Bool.false_ne_true]
  unfold readDigits
  simp only [htake, hdrop]
  rw [dif_pos hne]

theorem Stops.not_digit (h : Stops rest) : ∀ u ∈ rest.head?, isDigit u = false := fun u hu => (h u hu).1

variable {u : UInt16}

theorem Digits.head_ne (ds : Digits) {r : JsString} (h : ds.val = u :: r) : u ≠ 0x2d ∧ u ≠ 0x2b := by
  have hu : isDigit u = true := List.all_eq_true.mp ds.property.2 u (h ▸ mem_cons_self)
  refine ⟨?_, ?_⟩
  · rintro rfl
    exact absurd hu (by decide)
  · rintro rfl
    exact absurd hu (by decide)

theorem readExp_write (e : Option (Option Bool × Digits))
    (h : Stops rest) : readExp (writeExp e ++ rest) = some (e, rest) := by
  match e with
  | none =>
    cases rest with
    | nil => rfl
    | cons u rest =>
      obtain ⟨-, -, h1, h2⟩ := h u rfl
      simp [writeExp, readExp, h1, h2]
  | some (none, ds) =>
    have hsign : readExpSign (ds.val ++ rest) = (none, ds.val ++ rest) := by
      obtain ⟨u, r, hu⟩ := exists_cons_of_ne_nil ds.property.1
      obtain ⟨h1, h2⟩ := ds.head_ne hu
      rw [hu, cons_append, readExpSign, if_neg h1, if_neg h2]
    simp [writeExp, readExp, hsign, readDigits_append ds h.not_digit]
  | some (some true, ds) => simp [writeExp, readExp, readExpSign, readDigits_append ds h.not_digit]
  | some (some false, ds) => simp [writeExp, readExp, readExpSign, readDigits_append ds h.not_digit]

theorem head_writeExp_append (e : Option (Option Bool × Digits)) (h : Stops rest) :
    ∀ u ∈ (writeExp e ++ rest).head?, isDigit u = false ∧ u ≠ 0x2e := by
  intro u hu
  match e with
  | none => exact ⟨(h u hu).1, (h u hu).2.1⟩
  | some (none, ds) => cases hu; decide
  | some (some true, ds) => cases hu; decide
  | some (some false, ds) => cases hu; decide

theorem readFrac_write (f : Option Digits) (h : ∀ u ∈ rest.head?, isDigit u = false ∧ u ≠ 0x2e) :
    readFrac (writeFrac f ++ rest) = some (f, rest) := by
  match f with
  | none =>
    cases rest with
    | nil => rfl
    | cons u rest => simp [writeFrac, readFrac, (h u rfl).2]
  | some ds => simp [writeFrac, readFrac, readDigits_append ds fun u hu => (h u hu).1]

theorem head_writeFrac_append (f : Option Digits) (h : ∀ u ∈ rest.head?, isDigit u = false ∧ u ≠ 0x2e) :
    ∀ u ∈ (writeFrac f ++ rest).head?, isDigit u = false := by
  intro u hu
  match f with
  | none => exact (h u hu).1
  | some ds => cases hu; decide

theorem readMinus_write (rest : JsString) :
    readMinus ((if l.minus then [0x2d] else []) ++ (l.int.val ++ rest)) = (l.minus, l.int.val ++ rest) := by
  cases hm : l.minus with
  | true => rfl
  | false =>
    obtain ⟨u, r, hu⟩ := exists_cons_of_ne_nil l.int.property.1
    rw [if_neg Bool.false_ne_true, nil_append, hu, cons_append, readMinus, if_neg (l.int.head_ne hu).1]

theorem readNumber_write (h : Stops rest) : readNumber (l.write ++ rest) = some (l, rest) := by
  have hexp := head_writeExp_append l.exp h
  have hfrac := head_writeFrac_append l.frac hexp
  unfold readNumber Literal.write
  simp only [append_assoc, readMinus_write, readDigits_append l.int hfrac, bind_eq_bind, bind_some]
  rw [dif_pos l.noLeadingZero, readFrac_write l.frac hexp, bind_some, readExp_write l.exp h, bind_some]

/-! ## Strings -/

variable (n : Nat)

def hexUnit : UInt16 := UInt16.ofNat (if n < 10 then 0x30 + n else 0x57 + n)

def hexValue (u : UInt16) : Option Nat :=
  let n := u.toNat
  if 0x30 ≤ n && n ≤ 0x39 then some (n - 0x30)
  else if 0x61 ≤ n && n ≤ 0x66 then some (n - 0x57)
  else if 0x41 ≤ n && n ≤ 0x46 then some (n - 0x37)
  else none

def unicodeEscape (u : UInt16) : JsString :=
  let n := u.toNat
  [0x5c, 0x75, hexUnit (n / 4096), hexUnit (n / 256 % 16), hexUnit (n / 16 % 16), hexUnit (n % 16)]

def shortEscape (u : UInt16) : Option UInt16 :=
  if u = 0x08 then some 0x62 else if u = 0x09 then some 0x74 else if u = 0x0a then some 0x6e else
    if u = 0x0c then some 0x66
  else if u = 0x0d then some 0x72 else if u = 0x22 then some 0x22 else if u = 0x5c then some 0x5c else none

/-- What a short escape stands for; `\/` is read and never written. -/
def shortUnescape (e : UInt16) : Option UInt16 :=
  if e = 0x62 then some 0x08 else if e = 0x74 then some 0x09 else if e = 0x6e then some 0x0a else
    if e = 0x66 then some 0x0c
  else if e = 0x72 then some 0x0d else if e = 0x22 then some 0x22 else if e = 0x5c then some 0x5c else
    if e = 0x2f then some 0x2f
  else none

def writeUnit (u : UInt16) : JsString :=
  match shortEscape u with
  | some e => [0x5c, e]
  | none => if u < 0x20 || isHigh u || isLow u then unicodeEscape u else [u]

def writeUnits : JsString → JsString
  | [] => []
  | [u] => writeUnit u
  | u :: l :: rest => if isHigh u && isLow l then u :: l :: writeUnits rest else writeUnit u ++ writeUnits (l :: rest)

def quoted : JsString := 0x22 :: (writeUnits s ++ [0x22])

/-- Where the reader of a string stands: before a unit, behind a backslash, or with so many more digits
    of an escape to come. -/
inductive Mode where
  | plain
  | escape
  | hex (left value : Nat)

def readUnits : Mode → JsString → Option (JsString × JsString)
  | _, [] => none
  | .plain, u :: rest =>
    if u = 0x22 then some ([], rest)
    else if u = 0x5c then readUnits .escape rest
    else if u < 0x20 then none
    else (readUnits .plain rest).map fun r => (u :: r.1, r.2)
  | .escape, e :: rest =>
    if e = 0x75 then readUnits (.hex 3 0) rest
    else match shortUnescape e with
      | none => none
      | some v => (readUnits .plain rest).map fun r => (v :: r.1, r.2)
  | .hex left value, d :: rest =>
    match hexValue d with
    | none => none
    | some x =>
      match left with
      | 0 => (readUnits .plain rest).map fun r => (UInt16.ofNat (value * 16 + x) :: r.1, r.2)
      | left + 1 => readUnits (.hex left (value * 16 + x)) rest

theorem readUnits_plain (u : UInt16) (rest : JsString) : readUnits .plain (u :: rest) =
    if u = 0x22 then some ([], rest)
    else if u = 0x5c then readUnits .escape rest
    else if u < 0x20 then none
    else (readUnits .plain rest).map fun r => (u :: r.1, r.2) := rfl

theorem readUnits_escape (e : UInt16) (rest : JsString) : readUnits .escape (e :: rest) =
    if e = 0x75 then readUnits (.hex 3 0) rest
    else match shortUnescape e with
      | none => none
      | some v => (readUnits .plain rest).map fun r => (v :: r.1, r.2) := rfl

theorem readUnits_hex (left value : Nat) (d : UInt16) (rest : JsString) : readUnits (.hex left value) (d :: rest) =
    match hexValue d with
    | none => none
    | some x =>
      match left with
      | 0 => (readUnits .plain rest).map fun r => (UInt16.ofNat (value * 16 + x) :: r.1, r.2)
      | left + 1 => readUnits (.hex left (value * 16 + x)) rest := rfl

theorem hexValue_hexUnit {n : Nat} (h : n < 16) : hexValue (hexUnit n) = some n := by
  have hall : ∀ d : Fin 16, hexValue (hexUnit d.val) = some d.val := by decide
  exact hall ⟨n, h⟩

theorem readUnits_raw (h1 : u ≠ 0x22) (h2 : u ≠ 0x5c) (h3 : ¬ u < 0x20) (t : JsString) :
    readUnits .plain (u :: t) = (readUnits .plain t).map fun r => (u :: r.1, r.2) := by
  rw [readUnits_plain, if_neg h1, if_neg h2, if_neg h3]

theorem readUnits_backslash (t : JsString) : readUnits .plain (0x5c :: t) = readUnits .escape t := by
  rw [readUnits_plain, if_neg (by decide), if_pos rfl]

theorem readUnits_hexUnit {left value n : Nat} (h : n < 16) (t : JsString) :
    readUnits (.hex (left + 1) value) (hexUnit n :: t) = readUnits (.hex left (value * 16 + n)) t := by
  rw [readUnits_hex, hexValue_hexUnit h]

theorem readUnits_lastHexUnit {value n : Nat} (h : n < 16) (t : JsString) :
    readUnits (.hex 0 value) (hexUnit n :: t) = (readUnits .plain t).map fun r =>
      (UInt16.ofNat (value * 16 + n) :: r.1, r.2) := by
  rw [readUnits_hex, hexValue_hexUnit h]

theorem readUnits_unicodeEscape (u : UInt16) (t : JsString) :
    readUnits .plain (unicodeEscape u ++ t) = (readUnits .plain t).map fun r => (u :: r.1, r.2) := by
  have hlt : u.toNat < 65536 := u.toNat_lt
  have hn : (((0 * 16 + u.toNat / 4096) * 16 + u.toNat / 256 % 16) * 16 + u.toNat / 16 % 16) * 16 + u.toNat % 16 =
    u.toNat := by omega
  simp only [unicodeEscape, cons_append, nil_append]
  rw [readUnits_backslash, readUnits_escape, if_pos rfl, readUnits_hexUnit (by omega), readUnits_hexUnit (by omega),
    readUnits_hexUnit (by omega),
    readUnits_lastHexUnit (by omega), hn, UInt16.ofNat_toNat]

theorem shortUnescape_shortEscape {e : UInt16} (h : shortEscape u = some e) : shortUnescape e = some u ∧ e ≠ 0x75 := by
  unfold shortEscape at h
  split_ifs at h with h1 h2 h3 h4 h5 h6 h7
  all_goals
    subst u
    cases h
    decide

theorem readUnits_shortEscape {e : UInt16} (h : shortEscape u = some e) (t : JsString) :
    readUnits .plain (0x5c :: e :: t) = (readUnits .plain t).map fun r => (u :: r.1, r.2) := by
  obtain ⟨hu, he⟩ := shortUnescape_shortEscape h
  rw [readUnits_backslash, readUnits_escape, if_neg he, hu]

theorem readUnits_writeUnit (u : UInt16)
    (t : JsString) : readUnits .plain (writeUnit u ++ t) = (readUnits .plain t).map fun r => (u :: r.1, r.2) := by
  unfold writeUnit
  split
  · rename_i e he
    exact readUnits_shortEscape he t
  · rename_i hn
    split
    · exact readUnits_unicodeEscape u t
    · rename_i hp
      simp only [Bool.or_eq_true, decide_eq_true_eq, not_or] at hp
      have h1 : u ≠ 0x22 := by
        rintro rfl
        cases hn
      have h2 : u ≠ 0x5c := by
        rintro rfl
        cases hn
      exact readUnits_raw h1 h2 hp.1.1 t

theorem surrogate_plain (h : (isHigh u || isLow u) = true) : u ≠ 0x22 ∧ u ≠ 0x5c ∧ ¬ u < 0x20 := by
  have hge : 0xD800 ≤ u.toNat := by
    rcases (Bool.or_eq_true _ _).mp h with h | h
    · exact (Utf16.isHigh_iff.mp h).1
    · have := (Utf16.isLow_iff.mp h).1
      omega
  refine ⟨?_, ?_, ?_⟩
  · rintro rfl
    exact absurd hge (by decide)
  · rintro rfl
    exact absurd hge (by decide)
  · rw [UInt16.lt_iff_toNat_lt]
    simp
    omega

theorem readUnits_writeUnits (s t : JsString) : readUnits .plain (writeUnits s ++ 0x22 :: t) = some (s, t) := by
  fun_induction writeUnits s with
  | case1 => rfl
  | case2 u => rw [readUnits_writeUnit, readUnits, if_pos rfl, map_some]
  | case3 u l rest h ih =>
    rw [Bool.and_eq_true] at h
    obtain ⟨u1, u2, u3⟩ := surrogate_plain (u := u) (by rw [h.1, Bool.true_or])
    obtain ⟨l1, l2, l3⟩ := surrogate_plain (u := l) (by rw [h.2, Bool.or_true])
    rw [cons_append, cons_append, readUnits_raw u1 u2 u3, readUnits_raw l1 l2 l3, ih, map_some, map_some]
  | case4 u l rest h ih => rw [append_assoc, readUnits_writeUnit, ih, map_some]

/-! ## Values -/

/-- The numbers of the language, as far as their text goes: which number a literal stands for, how a
    finite number is written, and that what is written stands for a number that is written the same
    (`-0` is written `0`). -/
class JsNumber (ν : Type) where
  ofLiteral : Literal → ν
  toLiteral : ν → Literal
  isFinite : ν → Bool
  /-- `n > 0`. -/
  isPositive : ν → Bool
  zero : ν
  isFinite_zero : isFinite zero = true
  isFinite_reread : ∀ n, isFinite n = true → isFinite (ofLiteral (toLiteral n)) = true
  isPositive_reread : ∀ n, isFinite n = true → isPositive (ofLiteral (toLiteral n)) = isPositive n
  toLiteral_reread : ∀ n, isFinite n = true → toLiteral (ofLiteral (toLiteral n)) = toLiteral n

/-- A value of `JSON.parse`, with the fields of an object as they stand in the text. -/
inductive Value (ν : Type) where
  | null
  | bool (b : Bool)
  | num (n : ν)
  | str (s : JsString)
  | arr (items : List (Value ν))
  | obj (fields : List (JsString × Value ν))

variable {ν : Type} [JsNumber ν]

def writeNumber (n : ν) : JsString := if JsNumber.isFinite n then (JsNumber.toLiteral n).write else text "null"

mutual

/-- `JSON.stringify`. -/
def stringify : Value ν → JsString
  | .null => text "null"
  | .bool true => text "true"
  | .bool false => text "false"
  | .num n => writeNumber n
  | .str s => quoted s
  | .arr [] => [0x5b, 0x5d]
  | .arr (v :: vs) => 0x5b :: (stringify v ++ writeItems vs)
  | .obj [] => [0x7b, 0x7d]
  | .obj ((k, v) :: fs) => 0x7b :: (quoted k ++ 0x3a :: (stringify v ++ writeFields fs))

def writeItems : List (Value ν) → JsString
  | [] => [0x5d]
  | v :: vs => 0x2c :: (stringify v ++ writeItems vs)

def writeFields : List (JsString × Value ν) → JsString
  | [] => [0x7d]
  | (k, v) :: fs => 0x2c :: (quoted k ++ 0x3a :: (stringify v ++ writeFields fs))

end

def isBlank (u : UInt16) : Bool := u = 0x20 || u = 0x09 || u = 0x0a || u = 0x0d

def skip : JsString := s.dropWhile isBlank

def readWord (word : JsString) (v : Value ν)
    (s : JsString) : Option (Value ν × JsString) := (s.dropPrefix? word).map fun rest => (v, rest)

def readNum : Option (Value ν × JsString) := (readNumber s).map fun r => (.num (JsNumber.ofLiteral r.1), r.2)

def readKey : JsString → Option (JsString × JsString)
  | [] => none
  | u :: rest =>
    if u = 0x22 then
      match readUnits .plain rest with
      | none => none
      | some r =>
        match skip r.2 with
        | [] => none
        | c :: rest => if c = 0x3a then some (r.1, skip rest) else none
    else none

mutual

def readValue : Nat → JsString → Option (Value ν × JsString)
  | 0, _ => none
  | _ + 1, [] => none
  | fuel + 1, u :: rest =>
    if u = 0x22 then (readUnits .plain rest).map fun r => (.str r.1, r.2)
    else if u = 0x5b then
      match skip rest with
      | [] => none
      | c :: after => if c = 0x5d then some (.arr [], after) else (readItems fuel (c :: after)).map fun r => (.arr r.1, r.2)
    else if u = 0x7b then
      match skip rest with
      | [] => none
      | c :: after => if c = 0x7d then some (.obj [], after) else (readFields fuel (c :: after)).map fun r => (.obj r.1, r.2)
    else if u = 0x6e then readWord (text "null") .null (u :: rest)
    else if u = 0x74 then readWord (text "true") (.bool true) (u :: rest)
    else if u = 0x66 then readWord (text "false") (.bool false) (u :: rest)
    else readNum (u :: rest)

def readItems : Nat → JsString → Option (List (Value ν) × JsString)
  | 0, _ => none
  | fuel + 1, s =>
    match readValue fuel s with
    | none => none
    | some r =>
      match skip r.2 with
      | [] => none
      | c :: after =>
        if c = 0x5d then some ([r.1], after)
        else if c = 0x2c then (readItems fuel (skip after)).map fun q => (r.1 :: q.1, q.2)
        else none

def readFields : Nat → JsString → Option (List (JsString × Value ν) × JsString)
  | 0, _ => none
  | fuel + 1, s =>
    match readKey s with
    | none => none
    | some k =>
      match readValue fuel k.2 with
      | none => none
      | some r =>
        match skip r.2 with
        | [] => none
        | c :: after =>
          if c = 0x7d then some ([(k.1, r.1)], after)
          else if c = 0x2c then (readFields fuel (skip after)).map fun q => ((k.1, r.1) :: q.1, q.2)
          else none

end

/-- `JSON.parse`, `none` where it throws. A call within another has read a unit, or is the first of the
    items its own value opened. -/
def parse : Option (Value ν) :=
  match readValue (2 * s.length + 2) (skip s) with
  | some (v, rest) => if skip rest = [] then some v else none
  | none => none

mutual

def reread : Value ν → Value ν
  | .null => .null
  | .bool b => .bool b
  | .num n => if JsNumber.isFinite n then .num (JsNumber.ofLiteral (JsNumber.toLiteral n)) else .null
  | .str s => .str s
  | .arr vs => .arr (rereadItems vs)
  | .obj fs => .obj (rereadFields fs)

def rereadItems : List (Value ν) → List (Value ν)
  | [] => []
  | v :: vs => reread v :: rereadItems vs

def rereadFields : List (JsString × Value ν) → List (JsString × Value ν)
  | [] => []
  | (k, v) :: fs => (k, reread v) :: rereadFields fs

end

/-! ## What is written is read -/

theorem skip_cons (h : isBlank u = false) (s : JsString) : skip (u :: s) = u :: s := by
  rw [skip, dropWhile_cons, h, if_neg Bool.false_ne_true]

omit [JsNumber ν] in
theorem readWord_append (word : JsString) (v : Value ν)
    (rest : JsString) : readWord word v (word ++ rest) = some (v, rest) := by
  have h : (word ++ rest).dropPrefix? word = some rest := dropPrefix?_eq_some_iff.mpr ⟨word, rfl, by simp⟩
  rw [readWord, h, map_some]

theorem Literal.head_write : ∃ u r, l.write = u :: r ∧ (u = 0x2d ∨ isDigit u = true) := by
  unfold Literal.write
  cases l.minus with
  | true => exact ⟨0x2d, _, rfl, .inl rfl⟩
  | false =>
    obtain ⟨u, r, hu⟩ := exists_cons_of_ne_nil l.int.property.1
    refine ⟨u, r ++ writeFrac l.frac ++ writeExp l.exp, by rw [hu]; rfl, .inr ?_⟩
    exact List.all_eq_true.mp l.int.property.2 u (hu ▸ mem_cons_self)

theorem isDigit_iff : isDigit u = true ↔ 0x30 ≤ u.toNat ∧ u.toNat ≤ 0x39 := by
  simp [isDigit, UInt16.le_iff_toNat_le]

theorem opens_number (h : u = 0x2d ∨ isDigit u = true) :
    isBlank u = false ∧ u ≠ 0x22 ∧ u ≠ 0x5b ∧ u ≠ 0x5d ∧ u ≠ 0x7b ∧ u ≠ 0x6e ∧ u ≠ 0x74 ∧ u ≠ 0x66 := by
  rcases h with rfl | h
  · decide
  · rw [isDigit_iff] at h
    have hne : ∀ {w : UInt16}, (w.toNat < 0x30 ∨ 0x39 < w.toNat) → u ≠ w := by
      rintro w hw rfl
      omega
    refine ⟨?_, hne (by decide), hne (by decide), hne (by decide), hne (by decide), hne (by decide), hne (by decide),
      hne (by decide)⟩
    simp only [isBlank, Bool.or_eq_false_iff, decide_eq_false_iff_not]
    exact ⟨⟨⟨hne (by decide), hne (by decide)⟩, hne (by decide)⟩, hne (by decide)⟩

theorem readValue_num (n : ν) (fuel : Nat) (h : Stops rest) :
    readValue (fuel + 1) (writeNumber n ++ rest) = some (reread (.num n), rest) := by
  unfold writeNumber
  rw [reread]
  split
  · obtain ⟨u, r, hu, ho⟩ := (JsNumber.toLiteral n).head_write
    obtain ⟨-, h1, h2, -, h3, h4, h5, h6⟩ := opens_number ho
    have hread : readNumber (u :: (r ++ rest)) = some (JsNumber.toLiteral n, rest) := by
      rw [← readNumber_write (JsNumber.toLiteral n) h, hu, cons_append]
    rw [hu, cons_append, readValue, if_neg h1, if_neg h2, if_neg h3, if_neg h4, if_neg h5, if_neg h6, readNum,
      hread, map_some]
  · exact readWord_append (text "null") .null rest

theorem head_stringify (v : Value ν) : ∃ u r, stringify v = u :: r ∧ isBlank u = false ∧ u ≠ 0x5d := by
  match v with
  | .null => exact ⟨0x6e, _, rfl, by decide, by decide⟩
  | .bool true => exact ⟨0x74, _, rfl, by decide, by decide⟩
  | .bool false => exact ⟨0x66, _, rfl, by decide, by decide⟩
  | .num n =>
    rw [stringify, writeNumber]
    split
    · obtain ⟨u, r, hu, ho⟩ := (JsNumber.toLiteral n).head_write
      obtain ⟨hb, -, -, hc, -⟩ := opens_number ho
      exact ⟨u, r, hu, hb, hc⟩
    · exact ⟨0x6e, _, rfl, by decide, by decide⟩
  | .str s => exact ⟨0x22, _, by rw [stringify, quoted], by decide, by decide⟩
  | .arr [] => exact ⟨0x5b, _, by rw [stringify], by decide, by decide⟩
  | .arr (v :: vs) => exact ⟨0x5b, _, by rw [stringify], by decide, by decide⟩
  | .obj [] => exact ⟨0x7b, _, by rw [stringify], by decide, by decide⟩
  | .obj ((k, v) :: fs) => exact ⟨0x7b, _, by rw [stringify], by decide, by decide⟩

theorem skip_stringify (v : Value ν) (rest : JsString) : skip (stringify v ++ rest) = stringify v ++ rest := by
  obtain ⟨u, r, hu, hb, -⟩ := head_stringify v
  rw [hu, cons_append, skip_cons hb]

theorem stops_nil : Stops [] := by
  rintro _ ⟨⟩

theorem stops_cons (h : isDigit u = false ∧ u ≠ 0x2e ∧ u ≠ 0x65 ∧ u ≠ 0x45) (rest : JsString) : Stops (u :: rest) := by
  rintro _ ⟨⟩
  exact h

theorem stops_writeItems (vs : List (Value ν)) (rest : JsString) : Stops (writeItems vs ++ rest) := by
  cases vs with
  | nil => exact stops_cons (by decide) rest
  | cons v vs =>
    exact stops_cons (by decide) _

theorem stops_writeFields (fs : List (JsString × Value ν)) (rest : JsString) : Stops (writeFields fs ++ rest) := by
  match fs with
  | [] => exact stops_cons (by decide) rest
  | (k, v) :: fs =>
    exact stops_cons (by decide) _

theorem readKey_quoted (k : JsString) (v : Value ν) (rest : JsString) :
    readKey (quoted k ++ 0x3a :: (stringify v ++ rest)) = some (k, stringify v ++ rest) := by
  rw [quoted, cons_append, append_assoc, readKey, cons_append, nil_append, readUnits_writeUnits]
  simp [skip_cons (show isBlank 0x3a = false by decide), skip_stringify]

/-- What the readers give within so many nested calls. -/
structure ReadsBack (ν : Type) [JsNumber ν] (fuel : Nat) : Prop where
  value : ∀ (v : Value ν) {rest : JsString}, 2 * (stringify v).length ≤ fuel → Stops rest →
    readValue fuel (stringify v ++ rest) = some (reread v, rest)
  items : ∀ (v : Value ν) (vs : List (Value ν)) (rest : JsString),
    2 * (stringify v ++ writeItems vs).length + 1 ≤ fuel →
    readItems fuel (stringify v ++ (writeItems vs ++ rest)) = some (reread v :: rereadItems vs, rest)
  fields : ∀ (k : JsString) (v : Value ν) (fs : List (JsString × Value ν)) (rest : JsString),
    2 * (quoted k ++ 0x3a :: (stringify v ++ writeFields fs)).length + 1 ≤ fuel →
    readFields fuel (quoted k ++ 0x3a :: (stringify v ++ (writeFields fs ++ rest))) = some
      ((k, reread v) :: rereadFields fs, rest)

theorem readValue_step {fuel : Nat} (ih : ReadsBack ν fuel) (v : Value ν) (hf : 2 * (stringify v).length ≤ fuel + 1)
    (h : Stops rest) : readValue (fuel + 1) (stringify v ++ rest) = some (reread v, rest) := by
  match v with
  | .null => exact readWord_append (text "null") .null rest
  | .bool true => exact readWord_append (text "true") (.bool true) rest
  | .bool false => exact readWord_append (text "false") (.bool false) rest
  | .num n =>
    exact readValue_num n fuel h
  | .str s =>
    rw [stringify, quoted, cons_append, append_assoc, readValue, if_pos rfl, cons_append, nil_append,
      readUnits_writeUnits,
      map_some, reread]
  | .arr [] =>
    rfl
  | .arr (v :: vs) =>
    obtain ⟨u, r, hu, -, hc⟩ := head_stringify v
    rw [stringify, length_cons] at hf
    have hitems := ih.items v vs rest (by omega)
    rw [stringify, cons_append, append_assoc, readValue, if_neg (by decide), if_pos rfl, skip_stringify]
    rw [hu, cons_append] at hitems ⊢
    simp only
    rw [if_neg hc, hitems, map_some, reread, rereadItems]
  | .obj [] =>
    rfl
  | .obj ((k, v) :: fs) =>
    rw [stringify, length_cons] at hf
    have hfields := ih.fields k v fs rest (by omega)
    rw [stringify, cons_append, append_assoc, cons_append, append_assoc, readValue, if_neg (by decide),
      if_neg (by decide),
      if_pos rfl]
    rw [quoted, cons_append] at hfields ⊢
    rw [skip_cons (by decide)]
    simp only
    rw [if_neg (by decide), hfields, map_some, reread, rereadFields]

theorem readItems_step {fuel : Nat} (ih : ReadsBack ν fuel) (v : Value ν) (vs : List (Value ν)) (rest : JsString)
    (hf : 2 * (stringify v ++ writeItems vs).length + 1 ≤ fuel + 1) :
    readItems (fuel + 1) (stringify v ++ (writeItems vs ++ rest)) = some (reread v :: rereadItems vs, rest) := by
  rw [length_append] at hf
  rw [readItems, ih.value v (by omega) (stops_writeItems vs rest)]
  cases vs with
  | nil => rfl
  | cons w vs =>
    rw [writeItems, length_cons] at hf
    have hrest := ih.items w vs rest (by omega)
    simp only [writeItems, cons_append, append_assoc, skip_cons (show isBlank 0x2c = false by decide), skip_stringify]
    rw [if_neg (by decide), if_pos trivial, hrest, map_some, rereadItems]

theorem readFields_step {fuel : Nat} (ih : ReadsBack ν fuel) (k : JsString) (v : Value ν)
    (fs : List (JsString × Value ν)) (rest : JsString)
    (hf : 2 * (quoted k ++ 0x3a :: (stringify v ++ writeFields fs)).length + 1 ≤ fuel + 1) :
    readFields (fuel + 1) (quoted k ++ 0x3a :: (stringify v ++ (writeFields fs ++ rest))) = some
      ((k, reread v) :: rereadFields fs, rest) := by
  rw [length_append, length_cons, length_append] at hf
  rw [readFields, readKey_quoted]
  simp only
  rw [ih.value v (by omega) (stops_writeFields fs rest)]
  match fs with
  | [] => rfl
  | (k', w) :: fs =>
    rw [writeFields, length_cons] at hf
    have hrest := ih.fields k' w fs rest (by omega)
    have hskip : ∀ t, skip (quoted k' ++ t) = quoted k' ++ t := fun t => by
      rw [quoted, cons_append, skip_cons (by decide)]
    simp only [writeFields, cons_append, append_assoc, skip_cons (show isBlank 0x2c = false by decide), hskip]
    rw [if_neg (by decide), if_pos trivial, hrest, map_some, rereadFields]

theorem readsBack (fuel : Nat) : ReadsBack ν fuel := by
  induction fuel with
  | zero =>
    refine ⟨fun v _ hf _ => ?_, fun _ _ _ hf => by omega, fun _ _ _ _ hf => by omega⟩
    obtain ⟨u, r, hu, -⟩ := head_stringify v
    rw [hu, length_cons] at hf
    omega
  | succ fuel ih => exact ⟨fun v _ => readValue_step ih v, readItems_step ih, readFields_step ih⟩

theorem parse_stringify (v : Value ν) : parse (stringify v) = some (reread v) := by
  have hread := (readsBack (2 * (stringify v).length + 2)).value v (Nat.le_add_right _ 2) stops_nil
  have hskip := skip_stringify v []
  rw [append_nil] at hread hskip
  rw [parse, hskip, hread]
  rfl

mutual

/-- Read and written once more, the text is the same: a number that is not finite was written `null`. -/
theorem stringify_reread : ∀ v : Value ν, stringify (reread v) = stringify v
  | .null => by rw [reread]
  | .bool _ => by rw [reread]
  | .num n => by
    rw [reread, stringify, writeNumber]
    split
    · rename_i h
      rw [stringify, writeNumber, if_pos (JsNumber.isFinite_reread n h), JsNumber.toLiteral_reread n h]
    · rw [stringify]
  | .str _ => by rw [reread]
  | .arr [] => by rw [reread, rereadItems]
  | .arr (v :: vs) => by rw [reread, rereadItems, stringify, stringify, stringify_reread v, writeItems_reread vs]
  | .obj [] => by rw [reread, rereadFields]
  | .obj ((_, v) :: fs) => by rw [reread, rereadFields, stringify, stringify, stringify_reread v, writeFields_reread fs]

theorem writeItems_reread : ∀ vs : List (Value ν), writeItems (rereadItems vs) = writeItems vs
  | [] => by rw [rereadItems]
  | v :: vs => by rw [rereadItems, writeItems, writeItems, stringify_reread v, writeItems_reread vs]

theorem writeFields_reread : ∀ fs : List (JsString × Value ν), writeFields (rereadFields fs) = writeFields fs
  | [] => by rw [rereadFields]
  | (_, v) :: fs => by rw [rereadFields, writeFields, writeFields, stringify_reread v, writeFields_reread fs]

end

/-! ## Fields -/

def lookup (k : JsString) : List (JsString × Value ν) → Option (Value ν)
  | [] => none
  | (k', v) :: fs => (lookup k fs).or (if k' = k then some v else none)

/-- `value.k`, `none` for a field that is not there. -/
def Value.get (k : String) : Value ν → Option (Value ν)
  | .obj fs => lookup (text k) fs
  | _ => none

/-- The value when `typeof` says it is a string. -/
def Value.asString : Value ν → Option JsString
  | .str s => some s
  | _ => none

def Value.asNumber : Value ν → Option ν
  | .num n => some n
  | _ => none

def Value.asArray : Value ν → Option (List (Value ν))
  | .arr items => some items
  | _ => none

def Value.getString (k : String) (v : Value ν) : Option JsString := (v.get k).bind Value.asString

def Value.getNumber (k : String) (v : Value ν) : Option ν := (v.get k).bind Value.asNumber

variable (slots : List (String × Option (Value ν)))

/-- An object literal as it is written: a field that is `undefined` is left out. -/
def record : Value ν := .obj (slots.filterMap fun s => s.2.map fun v => (text s.1, v))

omit [JsNumber ν] in
@[simp] theorem get_record_nil (k : String) : (record ([] : List (String × Option (Value ν)))).get k = none := rfl

omit [JsNumber ν] in
@[simp] theorem get_record_cons (k k' : String) (o : Option (Value ν)) (slots : List (String × Option (Value ν))) :
    (record ((k', o) :: slots)).get k = ((record slots).get k).or (if k' = k then o else none) := by
  cases o with
  | none => simp [record, Value.get]
  | some v => simp [record, Value.get, lookup, JsText.text_inj]

theorem rereadFields_filterMap :
    rereadFields (slots.filterMap fun s => s.2.map fun v => (text s.1, v)) =
      (slots.map fun s => (s.1, s.2.map reread)).filterMap fun s => s.2.map fun v => (text s.1, v) := by
  induction slots with
  | nil => rfl
  | cons s slots ih =>
    obtain ⟨k, o⟩ := s
    cases o with
    | none => simpa using ih
    | some v => simpa [rereadFields] using ih

theorem reread_record : reread (record slots) = record (slots.map fun s => (s.1, s.2.map reread)) := by
  rw [record, reread, rereadFields_filterMap, record]

/-! ## Whole numbers -/

/-- The whole numbers, which are written with neither a point nor an exponent; any other literal is
    taken as beyond them. -/
inductive Whole where
  | of (n : Nat)
  | infinite
  deriving DecidableEq

def digitUnits : JsString := if n = 0 then [0x30] else (Nat.digits 10 n).reverse.map fun d => UInt16.ofNat (0x30 + d)

def digitsValue (ds : JsString) : Nat := Nat.ofDigits 10 (ds.reverse.map fun u => u.toNat - 0x30)

theorem toNat_digitUnit {d : Nat} (h : d < 10) : (UInt16.ofNat (0x30 + d)).toNat = 0x30 + d := by
  rw [UInt16.toNat_ofNat', Nat.mod_eq_of_lt (by omega)]

theorem digitsValue_digitUnits : digitsValue (digitUnits n) = n := by
  unfold digitUnits digitsValue
  split
  · rename_i h
    rw [h]
    rfl
  · have hmap : ((Nat.digits 10 n).map fun d => (UInt16.ofNat (0x30 + d)).toNat - 0x30) = Nat.digits 10 n := by
      refine (map_congr_left fun d hd => ?_).trans (List.map_id _)
      rw [toNat_digitUnit (Nat.digits_lt_base (by omega) hd), id, Nat.add_sub_cancel_left]
    rw [← map_reverse, reverse_reverse, List.map_map]
    exact (congrArg (Nat.ofDigits 10) hmap).trans (Nat.ofDigits_digits 10 n)

theorem digitUnits_spec :
    (digitUnits n ≠ [] ∧ (digitUnits n).all isDigit = true) ∧
      ((digitUnits n).head? = some 0x30 → (digitUnits n).length = 1) := by
  unfold digitUnits
  split
  · exact ⟨⟨by simp, by decide⟩, fun _ => rfl⟩
  · rename_i h
    have hne : Nat.digits 10 n ≠ [] := Nat.digits_ne_nil_iff_ne_zero.mpr h
    refine ⟨⟨by simpa using hne, ?_⟩, fun hz => ?_⟩
    · rw [List.all_map, List.all_eq_true]
      intro d hd
      have hlt := Nat.digits_lt_base (by omega) (mem_reverse.mp hd)
      rw [Function.comp_apply, isDigit_iff, toNat_digitUnit hlt]
      omega
    · -- the last digit is not zero
      exfalso
      rw [head?_map, head?_reverse, getLast?_eq_getLast_of_ne_nil hne] at hz
      have hlast := Nat.getLast_digit_ne_zero 10 h
      have hlt := Nat.digits_lt_base (b := 10) (by omega) (getLast_mem hne)
      have hnat := congrArg UInt16.toNat (some.inj hz)
      rw [toNat_digitUnit hlt] at hnat
      exact hlast (Nat.add_left_cancel hnat)

def wholeLiteral : Literal := ⟨false, ⟨digitUnits n, (digitUnits_spec n).1⟩, none, none, (digitUnits_spec n).2⟩

def Whole.ofLiteral : Whole :=
    if l.minus || l.frac.isSome || l.exp.isSome then .infinite else .of (digitsValue l.int.val)

def Whole.toLiteral : Whole → Literal
  | .of n => wholeLiteral n
  | .infinite => wholeLiteral 0

theorem Whole.ofLiteral_wholeLiteral : Whole.ofLiteral (wholeLiteral n) = .of n :=
    congrArg Whole.of (digitsValue_digitUnits n)

instance : JsNumber Whole where
  ofLiteral := Whole.ofLiteral
  toLiteral := Whole.toLiteral
  isFinite
    | .of _ => true
    | .infinite => false
  isPositive
    | .of n => 0 < n
    | .infinite => true
  zero := .of 0
  isFinite_zero := rfl
  isFinite_reread
    | .of n, _ => by rw [Whole.toLiteral, Whole.ofLiteral_wholeLiteral]
  isPositive_reread
    | .of n, _ => by rw [Whole.toLiteral, Whole.ofLiteral_wholeLiteral]
  toLiteral_reread
    | .of n, _ => by rw [Whole.toLiteral, Whole.ofLiteral_wholeLiteral, Whole.toLiteral]

end Canari.Lib.Json
