/-
  Canari.Forms.Criteria — the untyped documents a client sends, turned into criteria or refused
  (social-service pricing/validate.ts: `parseDimension`, `parsePriceMatrix`; the half of
  `assertMatrixValid` that reads raw prices, pricing/price-matrix.ts).

  A document is what was sent: an object is its fields as written, and reading one is what
  `JSON.parse` makes of it. An accepted grid is a typed one that `assertMatrixValid` accepts
  (`parsePriceMatrix_accepted`), and every group id of it was sent as a text that is not blank and
  not reserved (`parseDimension_ids`). Nothing else is asked of an id: not that it holds no `|`.
-/

import Canari.Forms.PriceMatrix
import Canari.Lib.JsMap

namespace Canari.Forms.Fill

open Lib (JsMap)
open List

/-! ## Documents -/

structure Number where
  whole : Option Int
  printed : String

inductive Document where
  | null
  | bool (b : Bool)
  | number (n : Number)
  | text (s : String)
  | list (items : List Document)
  | object (written : List (String × Document))

abbrev Record := List (String × Document)

/-- The fields `JSON.parse` leaves: a key written twice keeps its last value. -/
def ownFields (written : Record) : Record := (written.foldl (fun m f => m.set f.1 f.2) JsMap.empty).entries

mutual
/-- `String(value)`. -/
def Document.string : Document → String
  | .null => "null"
  | .bool b => if b then "true" else "false"
  | .number n => n.printed
  | .text s => s
  | .list items => ",".intercalate (Document.strings items)
  | .object _ => "[object Object]"

/-- The items of a list, joined: `null` is nothing. -/
def Document.strings : List Document → List String
  | [] => []
  | .null :: rest => "" :: Document.strings rest
  | item :: rest => item.string :: Document.strings rest
end

variable (value : Option Document)

/-- `String(value)` of a field that may be absent. -/
def stringOf : String := (value.map Document.string).getD "undefined"

/-- What JavaScript's `trim` drops. -/
def isBlank (c : Char) : Bool :=
  let n := c.toNat
  (9 ≤ n && n ≤ 13) || n = 0x20 || n = 0xa0 || n = 0x1680 || (0x2000 ≤ n && n ≤ 0x200a) || n = 0x2028 || n = 0x2029 ||
    n = 0x202f || n = 0x205f || n = 0x3000 || n = 0xfeff

def trim (s : String) : String := String.ofList ((s.toList.dropWhile isBlank).reverse.dropWhile isBlank).reverse

/-- A text that is not blank, as it was sent; the empty one for anything else. -/
def requiredText : Option Document → String
  | some (.text s) => if trim s = "" then "" else s
  | _ => ""

/-! ## Criteria -/

structure CriteriaContext where
  /-- The tiers the association sells, `none` being the base one. -/
  tierKeys : List (Option String)
  /-- The option ids of each question. -/
  questions : String → Option (List String)
  /-- The year of today. -/
  lastYear : Int

def FIRST_PROMO_YEAR : Int := 1816

def asRecord (place : String) : Except String Record :=
  match value with
  | some (.object written) => .ok (ownFields written)
  | _ => .error (place ++ " must be an object.")

def asListOf {α : Type} (read : Document → Option α) (what : String) (value : Option Document)
    (place : String) : Except String (List α) :=
  match value with
  | some (.list items) =>
    match items.mapM read with
    | none => .error (place ++ " must be a list of " ++ what ++ ".")
    | some values => if values.isEmpty then .error (place ++ " cannot be empty.") else .ok values
  | _ => .error (place ++ " must be a list of " ++ what ++ ".")

def Document.asText : Document → Option String
  | .text s => some s
  | _ => none

def Document.asTier : Document → Option (Option String)
  | .null => some none
  | .text s => some (some s)
  | _ => none

def Document.asWhole : Document → Option (Int × String)
  | .number ⟨some n, printed⟩ => some (n, printed)
  | _ => none

def asStringArray (place : String) : Except String (List String) := asListOf Document.asText "strings" value place

/-- The refusal of a tier the association does not sell; the empty key is worded as the base tier. -/
def unknownTier (key : Option String) : String :=
  if (key.getD "") = "" then "This association has no base cotisation tier, so a tier must be named."
  else "Unknown cotisation tier \"" ++ key.getD "" ++ "\" for this association."

def asTierKeys (ctx : CriteriaContext) (value : Option Document)
    (place : String) : Except String (List (Option String)) := do
  let keys ← asListOf Document.asTier "cotisation tiers" value place
  match keys.find? fun key => !ctx.tierKeys.contains key with
  | some key => .error (unknownTier key)
  | none => .ok keys

def asPromoValues (ctx : CriteriaContext) (value : Option Document) (place : String) : Except String (List Int) := do
  let years ← asListOf Document.asWhole "whole years" value place
  match years.find? fun year => year.1 < FIRST_PROMO_YEAR || ctx.lastYear < year.1 with
  | some year => .error (place ++ " holds " ++ year.2 ++ ", which is not a promo: they run from " ++ toString FIRST_PROMO_YEAR ++ " to " ++
      toString ctx.lastYear ++ ".")
  | none => .ok (years.map (·.1))

def assertSellsCotisation (ctx : CriteriaContext) (place : String) : Except String Unit :=
  if ctx.tierKeys.isEmpty then
    .error (place ++ " refers to a cotisation, but this association has none: enable it and add a tier first.")
  else .ok ()

def reservedMessage : String :=
  "\"" ++ OTHERS_BUCKET_ID ++ "\" is reserved: every criterion already ends with an \"everyone else\" group."

variable (raw : Document)

def bucketBase (place : String) : Except String (Record × String × String) := do
  let b ← asRecord (some raw) place
  let id := requiredText (b.lookup "id")
  if id = "" then .error (place ++ ".id is required.")
  else if id = OTHERS_BUCKET_ID then .error reservedMessage
  else
    let label := match b.lookup "label" with
      | some (.text s) => trim s
      | _ => ""
    if label = "" then .error (place ++ ".label is required.") else .ok (b, id, label)

/-- The groups of one criterion, from the `i`th on. -/
def parseBuckets {α : Type} (place : String)
    (accepts : Record → String → Except String α) : Nat → List Document → Except String (List (Bucket α))
  | _, [] => .ok []
  | i, raw :: rest => do
    let here := place ++ ".buckets[" ++ toString i ++ "]"
    let (b, id, label) ← bucketBase raw here
    let accepted ← accepts b here
    let more ← parseBuckets place accepts (i + 1) rest
    .ok (⟨id, label, accepted⟩ :: more)

def cotisationTest (ctx : CriteriaContext) (b : Record) (place : String) : Except String CotisationTest :=
  match b.lookup "anyTier" with
  | some (.bool true) => .ok ⟨true, []⟩
  | _ => (asTierKeys ctx (b.lookup "variantKeys") (place ++ ".variantKeys")).map (⟨false, ·⟩)

def optionValues (options : List String) (b : Record) (place : String) : Except String (List String) := do
  let values ← asStringArray (b.lookup "values") (place ++ ".values")
  if values.all options.contains then .ok values else .error (place ++ " names an option that question does not offer.")

def parseDimension (ctx : CriteriaContext) (place : String) : Except String Dimension := do
  let doc ← asRecord (some raw) place
  let id := requiredText (doc.lookup "id")
  if id = "" then .error (place ++ ".id is required.")
  else
    match doc.lookup "buckets" with
    | some (.list buckets) =>
      match doc.lookup "kind" with
      | some (.text "cotisation") =>
        assertSellsCotisation ctx place
        (parseBuckets place (cotisationTest ctx) 0 buckets).map (.cotisation id)
      | some (.text "promo") =>
        (parseBuckets place (fun b here => asPromoValues ctx (b.lookup "values") (here ++ ".values")) 0 buckets).map
          (.promo id)
      | some (.text "formation") =>
        (parseBuckets place (fun b here => asStringArray (b.lookup "values") (here ++ ".values")) 0 buckets).map
          (.formation id)
      | some (.text "answer") =>
        let questionId := match doc.lookup "questionId" with
          | some (.text s) => s
          | _ => ""
        match ctx.questions questionId with
        | none => .error (place ++ ".questionId names a question that does not exist here.")
        | some options =>
          if options.isEmpty then .error (place ++ " prices on a question that offers no options, so it separates nobody.")
          else (parseBuckets place (optionValues options) 0 buckets).map (.answer id questionId)
      | _ => .error (place ++ ".kind must be one of: cotisation, promo, formation, answer.")
    | _ => .error (place ++ ".buckets must be a list.")

/-! ## The grid -/

inductive PricedSubject where
  | form | product
  deriving DecidableEq

def allUnavailableMessage : PricedSubject → String
  | .form => "Every combination of this grid is marked unavailable, so nobody could answer. Close the form instead."
  | .product => "Every combination of this grid is marked unavailable, so nobody could buy this. Take the product off sale instead."

def MatrixRefusal.message (subject : PricedSubject) (maxCells : Nat) : MatrixRefusal → String
  | .noCriterion => "A pricing grid needs at least one criterion."
  | .duplicateCriterion id => "Duplicate criterion \"" ++ id ++ "\" in the pricing grid."
  | .noGroup id => "Criterion \"" ++ id ++ "\" has no group, so it separates nobody. Remove it or add a group."
  | .reservedGroup _ => reservedMessage
  | .duplicateGroup id bucketId => "Duplicate group \"" ++ bucketId ++ "\" in criterion \"" ++ id ++ "\"."
  | .overlappingGroups id a b => "Groups \"" ++ a ++ "\" and \"" ++ b ++ "\" of criterion \"" ++ id ++
      "\" can both apply to the same person, so the price would depend on their order. Make them exclusive."
  | .tooManyCells expected =>
      "This grid would have " ++ toString expected ++ " prices to fill (limit " ++ toString maxCells ++
      "). Use fewer groups."
  | .incomplete missing first => "The pricing grid is incomplete: " ++ toString missing ++ " price(s) missing, starting with \"" ++ first ++ "\"."
  | .extra count first => "The pricing grid has " ++ toString count ++ " price(s) that match no combination, starting with \"" ++ first ++ "\"."
  | .badPrice key => "Price \"" ++ key ++ "\" must be a whole number of cents, at least 0."
  | .allUnavailable => allUnavailableMessage subject

/-- A key that carries a decision: a number, or the `null` of a combination that does not exist. -/
def hasCell (cells : Record) (key : String) : Bool :=
  match cells.lookup key with
  | some .null | some (.number _) => true
  | _ => false

def isBadPrice : Document → Bool
  | .null => false
  | .number ⟨some cents, _⟩ => cents < 0
  | _ => true

/-- `assertMatrixValid` on the prices as they were sent. -/
def rawMatrixRefusal (dimensions : List Dimension) (cells : Record) (maxCells : Nat) : Option MatrixRefusal :=
  let required := allCellKeys dimensions
  let missing := required.filter fun key => !hasCell cells key
  let extra := (cells.map (·.1)).filter fun key => !required.contains key
  if dimensions.isEmpty then some .noCriterion
  else
    match dimensionsRefusal [] dimensions with
    | some refusal => some refusal
    | none =>
      if maxCells < expectedCellCount dimensions then some (.tooManyCells (expectedCellCount dimensions))
      else
        match missing, extra with
        | key :: _, _ => some (.incomplete missing.length key)
        | [], key :: _ => some (.extra extra.length key)
        | [], [] =>
          match cells.find? fun cell => isBadPrice cell.2 with
          | some cell => some (.badPrice cell.1)
          | none =>
            if required.all fun key => match cells.lookup key with
              | some .null => true
              | _ => false
            then some .allUnavailable
            else none

def centsOf : Document → CellValue
  | .number n => n.whole
  | _ => none

def typedMatrix (dimensions : List Dimension)
    (cells : Record) : PriceMatrix := ⟨dimensions, cells.map fun cell => (cell.1, centsOf cell.2)⟩

/-- The criteria of a grid, from the `i`th on. -/
def parseDimensions (ctx : CriteriaContext) : Nat → List Document → Except String (List Dimension)
  | _, [] => .ok []
  | i, raw :: rest => do
    let d ← parseDimension raw ctx ("priceMatrix.dimensions[" ++ toString i ++ "]")
    let more ← parseDimensions ctx (i + 1) rest
    .ok (d :: more)

def parsePriceMatrix (ctx : CriteriaContext) (subject : PricedSubject) : Except String PriceMatrix := do
  let doc ← asRecord (some raw) "priceMatrix"
  match doc.lookup "dimensions" with
  | some (.list dimensions) =>
    let cells ← asRecord (doc.lookup "cells") "priceMatrix.cells"
    let dimensions ← parseDimensions ctx 0 dimensions
    match rawMatrixRefusal dimensions cells MAX_CELLS with
    | some refusal => .error (refusal.message subject MAX_CELLS)
    | none => .ok (typedMatrix dimensions cells)
  | _ => .error "priceMatrix.dimensions must be a list."

/-! ## What an accepted document was -/

section

variable {ctx : CriteriaContext} {place : String}

theorem bind_eq_ok {ε α β : Type} {x : Except ε α} {f : α → Except ε β} {b : β}
    (h : x.bind f = .ok b) : ∃ a, x = .ok a ∧ f a = .ok b := by
  cases x with
  | error e => cases h
  | ok a => exact ⟨a, rfl, h⟩

theorem map_eq_ok {ε α β : Type} {x : Except ε α} {f : α → β} {b : β}
    (h : x.map f = .ok b) : ∃ a, x = .ok a ∧ f a = b := by
  cases x with
  | error e => cases h
  | ok a => exact ⟨a, rfl, Except.ok.inj h⟩

theorem nodup_keys_ownFields (written : Record) : ((ownFields written).map (·.1)).Nodup :=
  JsMap.nodup_keys_setAll (fun f : String × Document => f.1) (fun f => f.2) written nodup_nil

/-- The document a group was read from: an object with this id, which is not blank and not reserved. -/
def SentAs (id : String) : Prop :=
  ∃ written, raw = .object written ∧ (ownFields written).lookup "id" = some (.text id) ∧ trim id ≠ "" ∧
    id ≠ OTHERS_BUCKET_ID

theorem requiredText_ne_empty {value : Option Document} (h : requiredText value ≠ "") :
    ∃ s, value = some (.text s) ∧ requiredText value = s ∧ trim s ≠ "" := by
  unfold requiredText at h ⊢
  split at h
  · split at h
    · exact absurd rfl h
    · rename_i s hs
      exact ⟨s, rfl, if_neg hs, hs⟩
  · exact absurd rfl h

theorem bucketBase_sentAs {raw : Document} {b : Record} {id label : String}
    (h : bucketBase raw place = .ok (b, id, label)) : SentAs raw id := by
  unfold bucketBase asRecord at h
  split at h
  · rename_i written hraw
    cases hraw
    simp only [bind, Except.bind] at h
    split at h
    · cases h
    · rename_i hid
      obtain ⟨s, hs, hreq, htrim⟩ := requiredText_ne_empty hid
      split at h
      · cases h
      · rename_i hres
        split at h
        all_goals
          split at h
          · cases h
          · cases h
            rw [hreq] at hres ⊢
            exact ⟨written, rfl, hs, htrim, hres⟩
  · cases h

theorem parseBuckets_ids {α : Type} {accepts : Record → String → Except String α} {i : Nat} {items : List Document}
    {buckets : List (Bucket α)}
    (h : parseBuckets place accepts i items = .ok buckets) : List.Forall₂ SentAs items (buckets.map (·.id)) := by
  induction items generalizing i buckets with
  | nil =>
    cases h
    exact .nil
  | cons raw rest ih =>
    obtain ⟨⟨b, id, label⟩, hbase, h⟩ := bind_eq_ok h
    obtain ⟨accepted, -, h⟩ := bind_eq_ok h
    obtain ⟨more, hmore, h⟩ := bind_eq_ok h
    cases h
    exact .cons (bucketBase_sentAs hbase) (ih hmore)

/-- The groups of an accepted criterion are those that were sent. -/
theorem parseDimension_ids {raw : Document} {d : Dimension} (h : parseDimension raw ctx place = .ok d) :
    ∃ written items, raw = .object written ∧ (ownFields written).lookup "buckets" = some (.list items) ∧
      List.Forall₂ SentAs items d.bucketIds := by
  unfold parseDimension asRecord at h
  split at h
  swap
  · cases h
  rename_i written hraw
  cases hraw
  simp only [bind, Except.bind] at h
  split at h
  · cases h
  split at h
  swap
  · cases h
  rename_i items hitems
  refine ⟨written, items, rfl, hitems, ?_⟩
  split at h
  · split at h
    · cases h
    · obtain ⟨buckets, hb, rfl⟩ := map_eq_ok h
      exact parseBuckets_ids hb
  · obtain ⟨buckets, hb, rfl⟩ := map_eq_ok h
    exact parseBuckets_ids hb
  · obtain ⟨buckets, hb, rfl⟩ := map_eq_ok h
    exact parseBuckets_ids hb
  · split at h
    · cases h
    · split at h
      · cases h
      · obtain ⟨buckets, hb, rfl⟩ := map_eq_ok h
        exact parseBuckets_ids hb
  · cases h

theorem exists_of_forall₂ {α β : Type} {R : α → β → Prop} {as : List α} {bs : List β} (h : List.Forall₂ R as bs)
    {b : β} (hb : b ∈ bs) :
    ∃ a ∈ as, R a b := by
  induction h with
  | nil => cases hb
  | cons hr _ ih =>
    rcases mem_cons.mp hb with rfl | hb
    · exact ⟨_, mem_cons_self, hr⟩
    · obtain ⟨a, ha, hr⟩ := ih hb
      exact ⟨a, mem_cons_of_mem _ ha, hr⟩

theorem parseDimensions_ids {i : Nat} {items : List Document} {dimensions : List Dimension}
    (h : parseDimensions ctx i items = .ok dimensions) :
    ∀ d ∈ dimensions, ∀ id ∈ d.bucketIds, trim id ≠ "" ∧ id ≠ OTHERS_BUCKET_ID := by
  induction items generalizing i dimensions with
  | nil =>
    cases h
    exact nofun
  | cons raw rest ih =>
    obtain ⟨d, hd, h⟩ := bind_eq_ok h
    obtain ⟨more, hmore, h⟩ := bind_eq_ok h
    cases h
    intro e he id hid
    rcases mem_cons.mp he with rfl | he
    · obtain ⟨-, items, -, -, hids⟩ := parseDimension_ids hd
      obtain ⟨-, -, -, -, -, htrim, hne⟩ := exists_of_forall₂ hids hid
      exact ⟨htrim, hne⟩
    · exact ih hmore e he id hid

theorem lookup_typed (cells : Record) (key : String) :
    (cells.map fun cell => (cell.1, centsOf cell.2)).lookup key = (cells.lookup key).map centsOf := by
  induction cells with
  | nil => rfl
  | cons cell rest ih =>
    rw [map_cons, lookup_cons, lookup_cons, ih]
    cases key == cell.1 <;> rfl

theorem lookup_of_hasCell {cells : Record} {key : String} (h : hasCell cells key = true) :
    cells.lookup key = some .null ∨ ∃ n, cells.lookup key = some (.number n) := by
  unfold hasCell at h
  split at h
  · rename_i hl
    exact .inl hl
  · rename_i n hl
    exact .inr ⟨n, hl⟩
  · cases h

/-- Prices accepted as they were sent are accepted as the numbers they are. -/
theorem typedMatrix_accepted {dimensions : List Dimension} {cells : Record} {maxCells : Nat}
    (h : rawMatrixRefusal dimensions cells maxCells = none) :
    assertMatrixValid (typedMatrix dimensions cells) maxCells = none := by
  unfold rawMatrixRefusal at h
  dsimp only at h
  split at h
  · cases h
  rename_i hdims
  split at h
  · cases h
  rename_i hrefusal
  split at h
  · cases h
  rename_i hcount
  split at h
  · cases h
  · cases h
  rename_i hmissing hextra
  split at h
  · cases h
  rename_i hbad
  split at h
  · cases h
  rename_i havailable
  have hcells : ∀ key ∈ allCellKeys dimensions, hasCell cells key = true := by
    intro key hkey
    simpa using filter_eq_nil_iff.mp hmissing key hkey
  have hmissing' : (allCellKeys dimensions).filter
    (fun key => ((typedMatrix dimensions cells).cells.lookup key).isNone) = [] := by
    refine filter_eq_nil_iff.mpr fun key hkey => ?_
    rw [typedMatrix, lookup_typed]
    rcases lookup_of_hasCell (hcells key hkey) with hl | ⟨n, hl⟩ <;> simp [hl]
  have hextra' : ((typedMatrix dimensions cells).cells.map (·.1)).filter
    (fun key => !(allCellKeys dimensions).contains key) = [] := by
    rw [← hextra]
    simp [typedMatrix, Function.comp_def]
  have hbad' : (typedMatrix dimensions cells).cells.find? (fun cell => cell.2.any fun cents => cents < 0) = none := by
    refine find?_eq_none.mpr fun cell hcell => ?_
    obtain ⟨⟨key, doc⟩, hmem, rfl⟩ := mem_map.mp hcell
    have hgood := find?_eq_none.mp hbad _ hmem
    cases doc with
    | number n =>
      obtain ⟨whole, printed⟩ := n
      cases whole with
      | none => exact absurd rfl hgood
      | some cents => simpa [centsOf, isBadPrice] using hgood
    | _ => simp [centsOf]
  have havailable' : ¬ ((allCellKeys dimensions).all
    fun key => (typedMatrix dimensions cells).cells.lookup key == some none) = true := by
    intro hall
    apply havailable
    rw [all_eq_true] at hall ⊢
    intro key hkey
    have hnone := hall key hkey
    rw [typedMatrix, lookup_typed] at hnone
    rcases lookup_of_hasCell (hcells key hkey) with hl | ⟨n, hl⟩
    · simp [hl]
    · -- a number that is no whole price is refused
      have hgood := find?_eq_none.mp hbad _ (mem_of_lookup hl)
      obtain ⟨whole, printed⟩ := n
      cases whole with
      | none => exact absurd rfl hgood
      | some cents => simp [hl, centsOf] at hnone
  have hd : (typedMatrix dimensions cells).dimensions = dimensions := rfl
  unfold assertMatrixValid
  rw [hd, if_neg hdims, hrefusal]
  rw [if_neg hcount, hmissing', hextra']
  rw [hbad']
  exact if_neg havailable'

theorem parsePriceMatrix_accepted {raw : Document} {subject : PricedSubject} {matrix : PriceMatrix}
    (h : parsePriceMatrix raw ctx subject = .ok matrix) :
    assertMatrixValid matrix MAX_CELLS = none ∧ ∀ d ∈ matrix.dimensions, ∀ id ∈ d.bucketIds, trim id ≠ "" ∧
      id ≠ OTHERS_BUCKET_ID := by
  obtain ⟨doc, -, h⟩ := bind_eq_ok h
  split at h
  · obtain ⟨cells, -, h⟩ := bind_eq_ok h
    obtain ⟨dimensions, hdims, h⟩ := bind_eq_ok h
    split at h
    · cases h
    · rename_i haccepted
      cases h
      exact ⟨typedMatrix_accepted haccepted, parseDimensions_ids hdims⟩
  · cases h

end

end Canari.Forms.Fill
