/-
  Canari.Forms.GridDefinition — a priced grid as a manager sends it, judged and stored
  (social-service product-grid-contract.ts: `productGridItemRefusal`; product-grid.ts:
  `normaliseProductGridItems`), and what an order of a stored grid comes to.

  The bounds are checked apart: rows, columns and prices when the grid is saved, quantities when
  an order is judged. Together they keep every sum of an order an exact integer, and since no id
  holds a `:` each cell of the grid has its own key. So an accepted order is always priced, cell by
  cell, each once, and reading the stored order back changes nothing (`PricedOrder`,
  `stored_grid_prices_orders`).
-/

import Mathlib.Algebra.GroupWithZero.Nat
import Canari.Forms.Criteria
import Mathlib.Algebra.Order.BigOperators.Group.List
import Mathlib.Data.List.Nodup
import Mathlib.Data.List.ProdSigma
import Mathlib.Data.Int.Cast.Basic
import Mathlib.Algebra.Ring.Int.Defs

namespace Canari.Forms.Fill

open Lib (JsMap)
open List

/-! ## Refusals -/

inductive ProductGridDefinitionCode where
  | definitionMissing | notRequired | requiresPayment | axisInvalid | idInvalid | duplicateId | labelInvalid
      | duplicateLabel
  | maxPerCellInvalid | closedCellInvalid | allCellsClosed | priceModeInvalid | tierInvalid | guestPriceMissing
      | pricesIncomplete
  | priceInvalid

def ProductGridDefinitionCode.message : ProductGridDefinitionCode → String
  | .definitionMissing => "A product grid question needs its grid (rows, columns, prices)."
  | .notRequired => "A product grid question is stored required, so an app that cannot draw it holds the send."
  | .requiresPayment => "A form with a product grid must take payment: the grid charges."
  | .axisInvalid => "A product grid needs at least one row and one column, within bounds."
  | .idInvalid => "A product grid row or column id is missing or malformed."
  | .duplicateId => "Two rows, or two columns, of a product grid share an id."
  | .labelInvalid => "A product grid row or column has an empty or too long label."
  | .duplicateLabel => "Two rows, or two columns, of a product grid share a label."
  | .maxPerCellInvalid => "The maximum per cell of a product grid must be 1 to 99."
  | .closedCellInvalid => "A closed cell of a product grid names no cell of it."
  | .allCellsClosed => "Every cell of a product grid is closed: nothing can be ordered."
  | .priceModeInvalid => "A product grid price mode must be single, per_row or per_column."
  | .tierInvalid => "A product grid can vary its prices on one cotisation, promo or formation criterion only."
  | .guestPriceMissing => "A public form charges a guest the \"everyone else\" price: the product grid needs it."
  | .pricesIncomplete => "A product grid needs exactly one price per category and axis."
  | .priceInvalid => "A product grid price must be a whole number of cents, at least 0."

structure DefinitionRefusal where
  code : ProductGridDefinitionCode
  detail : Option String := none

structure ProductGridRefusalBody where
  code : ProductGridDefinitionCode
  message : String
  itemId : Option String

def productGridRefused (itemId : Option String) (refusal : DefinitionRefusal) : ProductGridRefusalBody :=
  let place := match refusal.detail with
    | some detail => if detail = "" then "" else " (" ++ detail ++ ")"
    | none => ""
  ⟨refusal.code, refusal.code.message ++ place, itemId⟩

/-! ## A definition, read -/

def PRODUCT_GRID_MIN_PER_CELL : Int := 1
def PRODUCT_GRID_MAX_PER_CELL : Int := 99
def PRODUCT_GRID_MAX_ROWS : Nat := 40
def PRODUCT_GRID_MAX_COLUMNS : Nat := 15
def PRODUCT_GRID_LABEL_MAX : Nat := 100
def PRODUCT_GRID_MAX_PRICE_CENTS : Int := 1000000

def isAlphanumeric (c : Char) : Bool := ('A' ≤ c && c ≤ 'Z') || ('a' ≤ c && c ≤ 'z') || ('0' ≤ c && c ≤ '9')

/-- A letter or a digit, then at most 35 of these, `_` or `-`. -/
def PRODUCT_GRID_ID_PATTERN (id : String) : Bool :=
  match id.toList with
  | [] => false
  | c :: rest => isAlphanumeric c && rest.length ≤ 35 && rest.all fun c => isAlphanumeric c || c = '_' || c = '-'

def jsLength (s : String) : Nat := (s.toList.map fun c => if c.toNat < 0x10000 then 1 else 2).sum

def Document.fields : Document → Option Record
  | .object written => some (ownFields written)
  | _ => none

section

-- Unicode's lower case; nothing depends on which
variable (toLowerCase : String → String)

def productGridLabelKey (label : String) : String := toLowerCase (trim label)

def axisEntries : List Document → List String → List String → Except DefinitionRefusal (List ProductGridAxisEntry)
  | [], _, _ => .ok []
  | entry :: rest, ids, labels =>
    match entry.fields with
    | none => .error ⟨.axisInvalid, none⟩
    | some fields =>
      match fields.lookup "id" with
      | some (.text id) =>
        if !PRODUCT_GRID_ID_PATTERN id then .error ⟨.idInvalid, some id⟩
        else if ids.contains id then .error ⟨.duplicateId, some id⟩
        else
          match fields.lookup "label" with
          | some (.text label) =>
            if trim label = "" || PRODUCT_GRID_LABEL_MAX < jsLength (trim label) then .error ⟨.labelInvalid, some id⟩
            else if labels.contains (productGridLabelKey toLowerCase label) then
              .error ⟨.duplicateLabel, some (trim label)⟩
            else do
              let more ← axisEntries rest (id :: ids) (productGridLabelKey toLowerCase label :: labels)
              .ok (⟨id, label⟩ :: more)
          | _ => .error ⟨.labelInvalid, some id⟩
      | id => .error ⟨.idInvalid, some (stringOf id)⟩

def axisRefusal (raw : Option Document) (max : Nat) : Except DefinitionRefusal (List ProductGridAxisEntry) :=
  match raw with
  | some (.list items) => if items.isEmpty || max < items.length then .error ⟨.axisInvalid, none⟩ else axisEntries toLowerCase items [] []
  | _ => .error ⟨.axisInvalid, none⟩

end

def tierBucketIds : List Document → List String → Except DefinitionRefusal (List String)
  | [], _ => .ok []
  | bucket :: rest, ids =>
    match bucket.fields.bind (·.lookup "id") with
    | some (.text id) =>
      if !PRODUCT_GRID_ID_PATTERN id || ids.contains id then .error ⟨.tierInvalid, some id⟩
      else do
        let more ← tierBucketIds rest (id :: ids)
        .ok (id :: more)
    | id => .error ⟨.tierInvalid, some (stringOf id)⟩

def tiersRefusal (raw : Document) : Except DefinitionRefusal (Option (List String)) :=
  match raw with
  | .null => .ok none
  | .object written =>
    match (ownFields written).lookup "kind" with
    | some (.text "cotisation") | some (.text "promo") | some (.text "formation") =>
      match (ownFields written).lookup "buckets" with
      | some (.list buckets) =>
          if buckets.isEmpty then .error ⟨.tierInvalid, none⟩ else (tierBucketIds buckets []).map some
      | _ => .error ⟨.tierInvalid, none⟩
    | kind => .error ⟨.tierInvalid, some (stringOf kind)⟩
  | _ => .error ⟨.tierInvalid, none⟩

def gridCellKeys (rows columns : List ProductGridAxisEntry) : List String :=
  rows.flatMap fun r => columns.map fun c => productGridCellKey r.id c.id

def closedCellsOf (cells : List String) : List Document → List String → Except DefinitionRefusal (List String)
  | [], _ => .ok []
  | .text key :: rest, closed =>
    if !cells.contains key || closed.contains key then .error ⟨.closedCellInvalid, some key⟩
    else do
      let more ← closedCellsOf cells rest (key :: closed)
      .ok (key :: more)
  | key :: _, _ => .error ⟨.closedCellInvalid, some key.string⟩

def closedRefusal (cells : List String) (raw : Option Document) : Except DefinitionRefusal (List String) :=
  match raw with
  | none | some .null => .ok []
  | some (.list keys) => closedCellsOf cells keys []
  | some _ => .error ⟨.closedCellInvalid, none⟩

def productGridAxisKeys (mode : ProductGridPriceMode) (rows columns : List ProductGridAxisEntry) : List String :=
  match mode with
  | .perRow => rows.map (·.id)
  | .perColumn => columns.map (·.id)
  | .single => [PRODUCT_GRID_SINGLE_KEY]

def ProductGridPriceMode.read : Option Document → Option ProductGridPriceMode
  | some (.text "single") => some .single
  | some (.text "per_row") => some .perRow
  | some (.text "per_column") => some .perColumn
  | _ => none

def tierIdsOf : Option (List String) → List String
  | none => [PRODUCT_GRID_ALL_TIER]
  | some ids => ids ++ [OTHERS_BUCKET_ID]

def productGridGuestTier (tiers : Option (List String)) : String :=
  match tiers with
  | none => PRODUCT_GRID_ALL_TIER
  | some _ => OTHERS_BUCKET_ID

def completeList (prices : Record) (axisKeys : List String) (tierId : String) : Option Record :=
  match (prices.lookup tierId).bind Document.fields with
  | none => none
  | some list => if axisKeys.all fun key => (list.lookup key).isSome then some list else none

def isPriceCents : Option Document → Bool
  | some (.number ⟨some cents, _⟩) => 0 ≤ cents && cents ≤ PRODUCT_GRID_MAX_PRICE_CENTS
  | _ => false

def listRefusal (axisKeys : List String) (tierId : String) (list : Record) : Option DefinitionRefusal :=
  match (list.map (·.1)).find? fun key => !axisKeys.contains key with
  | some key => some ⟨.pricesIncomplete, some (tierId ++ "/" ++ key)⟩
  | none => (axisKeys.find? fun key => !isPriceCents (list.lookup key)).map fun key => ⟨.priceInvalid, some (tierId ++ "/" ++ key)⟩

def pricesRefusal (isPublic : Bool) (tiers : Option (List String)) (axisKeys : List String)
    (prices : Record) : Option DefinitionRefusal :=
  let tierIds := tierIdsOf tiers
  if isPublic && (completeList prices axisKeys (productGridGuestTier tiers)).isNone then
    some ⟨.guestPriceMissing, some (productGridGuestTier tiers)⟩
  else
    match tierIds.find? fun tierId => (completeList prices axisKeys tierId).isNone with
    | some tierId => some ⟨.pricesIncomplete, some tierId⟩
    | none =>
      match (prices.map (·.1)).find? fun id => !tierIds.contains id with
      | some id => some ⟨.pricesIncomplete, some id⟩
      | none => tierIds.findSome? fun tierId => ((prices.lookup tierId).bind Document.fields).bind (listRefusal axisKeys tierId)

structure SentGrid where
  rows : List ProductGridAxisEntry
  columns : List ProductGridAxisEntry
  maxPerCell : Int
  closedCells : List String
  mode : ProductGridPriceMode
  tiers : Document
  prices : Record

structure ProductGridFormContext where
  isPublic : Bool
  requiresPayment : Bool
  associationId : Option String

structure SentItem where
  id : String
  type : String
  label : String
  required : Option Document
  productGrid : Option Document

/-- The first reason a grid cannot be saved; the `null` of a grid that can is the grid it read. -/
def productGridItemRefusal (toLowerCase : String → String) (item : SentItem)
    (form : ProductGridFormContext) : Except DefinitionRefusal SentGrid :=
  match item.productGrid.bind Document.fields with
  | none => .error ⟨.definitionMissing, none⟩
  | some grid =>
    match item.required with
    | some (.bool true) =>
      if !form.requiresPayment then .error ⟨.requiresPayment, none⟩
      else do
        let rows ← axisRefusal toLowerCase (grid.lookup "rows") PRODUCT_GRID_MAX_ROWS
        let columns ← axisRefusal toLowerCase (grid.lookup "columns") PRODUCT_GRID_MAX_COLUMNS
        match grid.lookup "maxPerCell" with
        | some (.number ⟨some max, printed⟩) =>
          if max < PRODUCT_GRID_MIN_PER_CELL || PRODUCT_GRID_MAX_PER_CELL < max then
            .error ⟨.maxPerCellInvalid, some printed⟩
          else do
            let closed ← closedRefusal (gridCellKeys rows columns) (grid.lookup "closedCells")
            if closed.length = (gridCellKeys rows columns).eraseDups.length then .error ⟨.allCellsClosed, none⟩
            else
              match (grid.lookup "pricing").bind Document.fields with
              | none => .error ⟨.priceModeInvalid, none⟩
              | some pricing =>
                match ProductGridPriceMode.read (pricing.lookup "mode") with
                | none => .error ⟨.priceModeInvalid, some (stringOf (pricing.lookup "mode"))⟩
                | some mode => do
                  let tiers := (pricing.lookup "tiers").getD .null
                  let tierIds ← tiersRefusal tiers
                  match (pricing.lookup "prices").bind Document.fields with
                  | none => .error ⟨.pricesIncomplete, none⟩
                  | some prices =>
                    match pricesRefusal form.isPublic tierIds (productGridAxisKeys mode rows columns) prices with
                    | some refusal => .error refusal
                    | none => .ok ⟨rows, columns, max, closed, mode, tiers, prices⟩
        | max => .error ⟨.maxPerCellInvalid, some (stringOf max)⟩
    | _ => .error ⟨.notRequired, none⟩

/-! ## A definition, stored -/

structure StoredGrid where
  rows : List ProductGridAxisEntry
  columns : List ProductGridAxisEntry
  maxPerCell : Int
  closedCells : List String
  mode : ProductGridPriceMode
  tiers : Option Dimension
  prices : List (String × List (String × Int))

inductive StoredItem where
  /-- Another question, less any grid it carried. -/
  | other (item : SentItem)
  | productGrid (id label : String) (grid : StoredGrid)

/-- The cents of a price list; every price of an accepted one is a whole number. -/
def centsList (list : Record) : List (String × Int) :=
    list.filterMap fun price => (price.2.asWhole.map (·.1)).map fun cents => (price.1, cents)

def storedPrices (prices : Record) : List (String × List (String × Int)) :=
  prices.filterMap fun entry => (entry.2.fields.map centsList).map fun list => (entry.1, list)

def isCotisation (tiers : Record) : Bool :=
  match tiers.lookup "kind" with
  | some (.text "cotisation") => true
  | _ => false

def normaliseTiers (ctx : CriteriaContext) (associationId : Option String) (itemId : String) (tiers : Document) :
    Except DefinitionRefusal (Option Dimension) :=
  match tiers with
  | .object written =>
    if isCotisation (ownFields written) && (associationId.getD "") = "" then
      .error ⟨.tierInvalid, some "a cotisation criterion needs a beneficiary association"⟩
    else
      match parseDimension tiers ctx ("items[" ++ itemId ++ "].productGrid.pricing.tiers") with
      | .error message => .error ⟨.tierInvalid, some message⟩
      | .ok parsed =>
        match findOverlappingBuckets parsed with
        | (a, b) :: _ => .error ⟨.tierInvalid, some ("categories " ++ a ++ " and " ++ b ++ " can both hold one person")⟩
        | [] => .ok (some parsed)
  | _ => .ok none

def trimEntry (entry : ProductGridAxisEntry) : ProductGridAxisEntry := ⟨entry.id, trim entry.label⟩

def normaliseProductGridItem (toLowerCase : String → String) (ctx : CriteriaContext) (form : ProductGridFormContext)
    (item : SentItem) :
    Except ProductGridRefusalBody StoredItem :=
  if item.type ≠ "product_grid" then .ok (.other { item with productGrid := none })
  else
    match productGridItemRefusal toLowerCase item form with
    | .error refusal => .error (productGridRefused (some item.id) refusal)
    | .ok grid =>
      match normaliseTiers ctx form.associationId item.id grid.tiers with
      | .error refusal => .error (productGridRefused (some item.id) refusal)
      | .ok tiers =>
        .ok (.productGrid item.id item.label
          ⟨grid.rows.map trimEntry, grid.columns.map trimEntry, grid.maxPerCell, grid.closedCells, grid.mode, tiers,
            storedPrices grid.prices⟩)

def normaliseProductGridItems (toLowerCase : String → String) (items : List SentItem) (ctx : CriteriaContext)
    (form : ProductGridFormContext) :
    Except ProductGridRefusalBody (List StoredItem) :=
  items.mapM (normaliseProductGridItem toLowerCase ctx form)

def ProductGrid.stored (grid : ProductGrid) : StoredGrid :=
  ⟨grid.rows, grid.columns, grid.maxPerCell, grid.closedCells, grid.mode, grid.tiers, grid.prices⟩

/-! ## What a stored grid is -/

/-- What the save has checked of a grid, beside what its type carries. -/
structure ProductGrid.WellFormed (grid : ProductGrid) : Prop where
  rowIds : (grid.rows.map (·.id)).Nodup ∧ ∀ row ∈ grid.rows, PRODUCT_GRID_ID_PATTERN row.id = true
  columnIds : (grid.columns.map (·.id)).Nodup ∧ ∀ column ∈ grid.columns, PRODUCT_GRID_ID_PATTERN column.id = true
  rowCount : grid.rows.length ≤ PRODUCT_GRID_MAX_ROWS
  columnCount : grid.columns.length ≤ PRODUCT_GRID_MAX_COLUMNS
  perCell : grid.maxPerCell ≤ PRODUCT_GRID_MAX_PER_CELL
  priced : ∀ list ∈ grid.prices, ∀ key ∈ productGridAxisKeys grid.mode grid.rows grid.columns,
    (list.2.lookup key).isSome = true
  bounded : ∀ list ∈ grid.prices, ∀ price ∈ list.2, price.2 ≤ PRODUCT_GRID_MAX_PRICE_CENTS

section

variable {toLowerCase : String → String}

theorem axisEntries_spec {items : List Document} {ids labels : List String} {entries : List ProductGridAxisEntry}
    (h : axisEntries toLowerCase items ids labels = .ok entries) :
    entries.length = items.length ∧ (entries.map (·.id)).Nodup ∧ ∀ entry ∈ entries,
      PRODUCT_GRID_ID_PATTERN entry.id = true ∧ entry.id ∉ ids := by
  induction items generalizing ids labels entries with
  | nil =>
    cases h
    exact ⟨rfl, nodup_nil, nofun⟩
  | cons item rest ih =>
    unfold axisEntries at h
    split at h
    · cases h
    split at h
    swap
    · cases h
    split at h
    · cases h
    rename_i hpattern
    split at h
    · cases h
    rename_i hfresh
    split at h
    swap
    · cases h
    split at h
    · cases h
    split at h
    · cases h
    obtain ⟨more, hmore, h⟩ := bind_eq_ok h
    cases h
    obtain ⟨hlength, hnodup, hentries⟩ := ih hmore
    refine ⟨congrArg Nat.succ hlength, nodup_cons.mpr ⟨fun hmem => ?_, hnodup⟩, fun entry hentry => ?_⟩
    · obtain ⟨entry, hentry, hid⟩ := mem_map.mp hmem
      exact (hentries entry hentry).2 (hid ▸ mem_cons_self)
    · rcases mem_cons.mp hentry with rfl | hentry
      · exact ⟨by simpa using hpattern, by simpa using hfresh⟩
      · exact ⟨(hentries entry hentry).1, fun hmem => (hentries entry hentry).2 (mem_cons_of_mem _ hmem)⟩

theorem axisRefusal_spec {raw : Option Document} {max : Nat} {entries : List ProductGridAxisEntry}
    (h : axisRefusal toLowerCase raw max = .ok entries) :
    entries.length ≤ max ∧ (entries.map (·.id)).Nodup ∧ ∀ entry ∈ entries, PRODUCT_GRID_ID_PATTERN entry.id = true := by
  unfold axisRefusal at h
  split at h
  · split at h
    · cases h
    · rename_i hbound
      obtain ⟨hlength, hnodup, hentries⟩ := axisEntries_spec h
      simp only [Bool.or_eq_true, decide_eq_true_eq, not_or, Nat.not_lt] at hbound
      exact ⟨hlength ▸ hbound.2, hnodup, fun entry hentry => (hentries entry hentry).1⟩
  · cases h

theorem tierBucketIds_spec {buckets : List Document} {ids bucketIds : List String}
    (h : tierBucketIds buckets ids = .ok bucketIds) :
    List.Forall₂ (fun raw id => raw.fields.bind (·.lookup "id") = some (.text id)) buckets bucketIds := by
  induction buckets generalizing ids bucketIds with
  | nil =>
    cases h
    exact .nil
  | cons bucket rest ih =>
    unfold tierBucketIds at h
    split at h
    · rename_i id hid
      split at h
      · cases h
      · obtain ⟨more, hmore, h⟩ := bind_eq_ok h
        cases h
        exact .cons hid (ih hmore)
    · cases h

theorem eq_of_sentAs {docs : List Document} {checked parsed : List String}
    (hchecked : List.Forall₂ (fun raw id => raw.fields.bind (·.lookup "id") = some (.text id)) docs checked)
    (hparsed : List.Forall₂ SentAs docs parsed) : checked = parsed := by
  induction hchecked generalizing parsed with
  | nil =>
    cases hparsed
    rfl
  | cons hid _ ih =>
    cases hparsed with
    | cons hsent hrest =>
      obtain ⟨written, rfl, hwritten, -, -⟩ := hsent
      have htext : Document.text _ = Document.text _ := Option.some.inj (hid.symm.trans hwritten)
      rw [Document.text.inj htext, ih hrest]

variable {ctx : CriteriaContext}

theorem parseDimension_answer {raw : Document} {place id questionId : String} {buckets : List (Bucket (List String))}
    (h : parseDimension raw ctx place = .ok (.answer id questionId buckets)) :
    ∃ written, raw = .object written ∧ (ownFields written).lookup "kind" = some (.text "answer") := by
  unfold parseDimension asRecord at h
  split at h
  swap
  · cases h
  rename_i written hraw
  cases hraw
  refine ⟨written, rfl, ?_⟩
  simp only [bind, Except.bind] at h
  split at h
  · cases h
  split at h
  swap
  · cases h
  split at h
  · split at h
    · cases h
    · obtain ⟨_, _, hd⟩ := map_eq_ok h
      cases hd
  · obtain ⟨_, _, hd⟩ := map_eq_ok h
    cases hd
  · obtain ⟨_, _, hd⟩ := map_eq_ok h
    cases hd
  · assumption
  · cases h

/-- The criterion stored is of the person, and its categories are those the prices were checked for. -/
theorem normaliseTiers_spec {associationId : Option String} {itemId : String} {raw : Document}
    {tierIds : Option (List String)}
    {tiers : Option Dimension} (hraw : tiersRefusal raw = .ok tierIds)
    (h : normaliseTiers ctx associationId itemId raw = .ok tiers) :
    productGridTierIds tiers = tierIdsOf tierIds ∧ ∀ d ∈ tiers, ∀ id q b, d ≠ .answer id q b := by
  unfold normaliseTiers at h
  split at h
  · split at h
    · cases h
    split at h
    · cases h
    rename_i parsed hparsed
    split at h
    · cases h
    cases h
    obtain ⟨written', items, hwritten, hitems, hids⟩ := parseDimension_ids hparsed
    obtain rfl := Document.object.inj hwritten
    unfold tiersRefusal at hraw
    dsimp only at hraw
    split at hraw
    case h_4 => cases hraw
    all_goals
      rename_i hkind
      rw [hitems] at hraw
      dsimp only at hraw
      split at hraw
      · cases hraw
      · obtain ⟨bucketIds, hbuckets, rfl⟩ := map_eq_ok hraw
        constructor
        · rw [productGridTierIds, tierIdsOf, eq_of_sentAs (tierBucketIds_spec hbuckets) hids]
        · rintro d hd id q b rfl
          cases hd
          obtain ⟨w, hw, hanswer⟩ := parseDimension_answer hparsed
          obtain rfl := Document.object.inj hw
          rw [hkind] at hanswer
          exact absurd (Document.text.inj (Option.some.inj hanswer)) (by decide)
  · rename_i hnull
    cases h
    refine ⟨?_, nofun⟩
    unfold tiersRefusal at hraw
    split at hraw
    · cases hraw
      rfl
    · exact absurd rfl (hnull _)
    · cases hraw

variable {axisKeys : List String}

theorem completeList_some {prices list : Record} {tierId : String}
    (h : completeList prices axisKeys tierId = some list) :
    (prices.lookup tierId).bind Document.fields = some list := by
  unfold completeList at h
  split at h
  · cases h
  · rename_i found hfound
    split at h
    · exact Option.some.inj h ▸ hfound
    · cases h

theorem listRefusal_none {tierId : String} {list : Record} (h : listRefusal axisKeys tierId list = none) :
    (∀ price ∈ list, price.1 ∈ axisKeys) ∧ ∀ key ∈ axisKeys, isPriceCents (list.lookup key) = true := by
  unfold listRefusal at h
  split at h
  · cases h
  · rename_i hextra
    constructor
    · intro price hprice
      simpa using find?_eq_none.mp hextra price.1 (mem_map_of_mem hprice)
    · intro key hkey
      simpa using find?_eq_none.mp (Option.map_eq_none_iff.mp h) key hkey

/-- Accepted prices: a list for each category and no other, and each list of them accepted. -/
theorem pricesRefusal_none {isPublic : Bool} {tiers : Option (List String)} {prices : Record}
    (h : pricesRefusal isPublic tiers axisKeys prices = none) :
    (∀ entry ∈ prices, entry.1 ∈ tierIdsOf tiers) ∧
      ∀ tierId ∈ tierIdsOf tiers, ∃ list, (prices.lookup tierId).bind Document.fields = some list ∧
        listRefusal axisKeys tierId list = none := by
  unfold pricesRefusal at h
  dsimp only at h
  split at h
  · cases h
  split at h
  · cases h
  rename_i hcomplete
  split at h
  · cases h
  rename_i hextra
  constructor
  · intro entry hentry
    simpa using find?_eq_none.mp hextra entry.1 (mem_map_of_mem hentry)
  · intro tierId htier
    have hlist := find?_eq_none.mp hcomplete tierId htier
    rw [Option.isNone_iff_eq_none] at hlist
    obtain ⟨list, hlist⟩ := Option.ne_none_iff_exists'.mp hlist
    have hfound := completeList_some hlist
    have hrefusal := findSome?_eq_none_iff.mp h tierId htier
    rw [hfound] at hrefusal
    exact ⟨list, hfound, hrefusal⟩

/-- Accepted lists as they are stored: complete, and every price in bounds. -/
theorem centsList_spec {written : List (String × Document)} {tierId : String}
    (h : listRefusal axisKeys tierId (ownFields written) = none) :
    (∀ key ∈ axisKeys, ((centsList (ownFields written)).lookup key).isSome = true) ∧
      ∀ price ∈ centsList (ownFields written), 0 ≤ price.2 ∧ price.2 ≤ PRODUCT_GRID_MAX_PRICE_CENTS := by
  obtain ⟨hkeys, hprices⟩ := listRefusal_none h
  have hcents : ∀ doc, isPriceCents (some doc) = true → ∃ cents, doc.asWhole.map (·.1) = some cents ∧ 0 ≤ cents ∧
    cents ≤ PRODUCT_GRID_MAX_PRICE_CENTS := by
    intro doc hdoc
    unfold isPriceCents at hdoc
    split at hdoc
    · rename_i cents _ hsome
      cases hsome
      simp only [Bool.and_eq_true, decide_eq_true_eq] at hdoc
      exact ⟨cents, rfl, hdoc⟩
    · cases hdoc
  constructor
  · intro key hkey
    have hprice := hprices key hkey
    rw [centsList, JsMap.lookup_filterMap (nodup_keys_ownFields written) fun doc => doc.asWhole.map (·.1)]
    cases hlookup : (ownFields written).lookup key with
    | none =>
      rw [hlookup] at hprice
      cases hprice
    | some doc =>
      rw [hlookup] at hprice
      obtain ⟨cents, hwhole, -⟩ := hcents doc hprice
      exact Option.isSome_iff_exists.mpr ⟨cents, hwhole⟩
  · intro price hprice
    obtain ⟨⟨key, doc⟩, hmem, hmap⟩ := mem_filterMap.mp hprice
    obtain ⟨cents, hwhole, rfl⟩ := Option.map_eq_some_iff.mp hmap
    have haccepted := hprices key (hkeys _ hmem)
    rw [JsMap.lookup_of_mem (nodup_keys_ownFields written) hmem] at haccepted
    obtain ⟨cents', hwhole', hbounds⟩ := hcents doc haccepted
    obtain rfl := Option.some.inj (hwhole.symm.trans hwhole')
    exact hbounds

theorem fields_eq_some {doc : Document} {list : Record}
    (h : doc.fields = some list) : ∃ written, list = ownFields written := by
  cases doc with
  | object written => exact ⟨written, (Option.some.inj h).symm⟩
  | _ => cases h

/-- Accepted prices as they are stored. -/
theorem storedPrices_spec {isPublic : Bool} {tiers : Option (List String)} {written : List (String × Document)}
    (h : pricesRefusal isPublic tiers axisKeys (ownFields written) = none) :
    (∀ tierId ∈ tierIdsOf tiers, ((storedPrices (ownFields written)).lookup tierId).isSome = true) ∧
      ∀ entry ∈ storedPrices (ownFields written), (∀ key ∈ axisKeys, (entry.2.lookup key).isSome = true) ∧
        ∀ price ∈ entry.2, 0 ≤ price.2 ∧ price.2 ≤ PRODUCT_GRID_MAX_PRICE_CENTS := by
  obtain ⟨hkeys, hlists⟩ := pricesRefusal_none h
  have hlookup : ∀ tierId ∈ tierIdsOf tiers, ∃ list,
    (storedPrices (ownFields written)).lookup tierId = some (centsList (ownFields list)) ∧
      listRefusal axisKeys tierId (ownFields list) = none ∧
        ((ownFields written).lookup tierId).bind Document.fields = some (ownFields list) := by
    intro tierId htier
    obtain ⟨list, hfound, hrefusal⟩ := hlists tierId htier
    obtain ⟨doc, hdoc, hfields⟩ := Option.bind_eq_some_iff.mp hfound
    obtain ⟨list, rfl⟩ := fields_eq_some hfields
    refine ⟨list, ?_, hrefusal, hfound⟩
    rw [storedPrices, JsMap.lookup_filterMap (nodup_keys_ownFields written) fun doc => doc.fields.map centsList, hdoc]
    exact congrArg (Option.map centsList) hfields
  constructor
  · intro tierId htier
    obtain ⟨list, hlist, -⟩ := hlookup tierId htier
    rw [hlist]
    rfl
  · intro entry hentry
    obtain ⟨⟨tierId, doc⟩, hmem, hmap⟩ := mem_filterMap.mp hentry
    obtain ⟨cents, hcents, rfl⟩ := Option.map_eq_some_iff.mp hmap
    obtain ⟨fields, hfields, rfl⟩ := Option.map_eq_some_iff.mp hcents
    obtain ⟨list, -, hrefusal, hfound⟩ := hlookup tierId (hkeys _ hmem)
    rw [JsMap.lookup_of_mem (nodup_keys_ownFields written) hmem] at hfound
    obtain rfl := Option.some.inj (hfields.symm.trans hfound)
    exact centsList_spec hrefusal

structure SentGrid.Accepted (toLowerCase : String → String) (isPublic : Bool) (grid : SentGrid) : Prop where
  rows : ∃ raw, axisRefusal toLowerCase raw PRODUCT_GRID_MAX_ROWS = .ok grid.rows
  columns : ∃ raw, axisRefusal toLowerCase raw PRODUCT_GRID_MAX_COLUMNS = .ok grid.columns
  perCell : grid.maxPerCell ≤ PRODUCT_GRID_MAX_PER_CELL
  prices : ∃ tierIds written, tiersRefusal grid.tiers = .ok tierIds ∧ grid.prices = ownFields written ∧
    pricesRefusal isPublic tierIds (productGridAxisKeys grid.mode grid.rows grid.columns) (ownFields written) = none

theorem productGridItemRefusal_ok {item : SentItem} {form : ProductGridFormContext} {grid : SentGrid}
    (h : productGridItemRefusal toLowerCase item form = .ok grid) : grid.Accepted toLowerCase form.isPublic := by
  unfold productGridItemRefusal at h
  split at h
  · cases h
  split at h
  swap
  · cases h
  split at h
  · cases h
  obtain ⟨rows, hrows, h⟩ := bind_eq_ok h
  obtain ⟨columns, hcolumns, h⟩ := bind_eq_ok h
  split at h
  swap
  · cases h
  split at h
  · cases h
  rename_i hmax
  obtain ⟨closed, -, h⟩ := bind_eq_ok h
  split at h
  · cases h
  split at h
  · cases h
  split at h
  · cases h
  obtain ⟨tierIds, htiers, h⟩ := bind_eq_ok h
  split at h
  · cases h
  rename_i prices hprices
  split at h
  · cases h
  rename_i hrefusal
  cases h
  obtain ⟨doc, -, hfields⟩ := Option.bind_eq_some_iff.mp hprices
  obtain ⟨written, rfl⟩ := fields_eq_some hfields
  simp only [Bool.or_eq_true, decide_eq_true_eq, not_or, Int.not_lt] at hmax
  exact ⟨⟨_, hrows⟩, ⟨_, hcolumns⟩, hmax.2, tierIds, written, htiers, rfl, hrefusal⟩

theorem ids_trimEntry (entries : List ProductGridAxisEntry) :
    (entries.map trimEntry).map (·.id) = entries.map (·.id) := by
  rw [map_map]
  rfl

/-- A stored grid is a well-formed one. -/
theorem normaliseProductGridItem_wellFormed {form : ProductGridFormContext} {item : SentItem} {id label : String}
    {data : StoredGrid}
    (h : normaliseProductGridItem toLowerCase ctx form item = .ok (.productGrid id label data)) : ∃ grid :
    ProductGrid, grid.stored = data ∧ grid.WellFormed := by
  unfold normaliseProductGridItem at h
  split at h
  · cases h
  split at h
  · cases h
  rename_i sent hsent
  split at h
  · cases h
  rename_i tiers htiers
  obtain ⟨⟨_, hrows⟩, ⟨_, hcolumns⟩, hmax, tierIds, written, htierIds, hwritten, hprices⟩ :=
    productGridItemRefusal_ok hsent
  obtain ⟨hrowCount, hrowNodup, hrowPattern⟩ := axisRefusal_spec hrows
  obtain ⟨hcolumnCount, hcolumnNodup, hcolumnPattern⟩ := axisRefusal_spec hcolumns
  obtain ⟨hids, hprofile⟩ := normaliseTiers_spec htierIds htiers
  obtain ⟨hcomplete, hlists⟩ := storedPrices_spec hprices
  have haxis : productGridAxisKeys sent.mode (sent.rows.map trimEntry)
    (sent.columns.map trimEntry) = productGridAxisKeys sent.mode sent.rows sent.columns := by
    unfold productGridAxisKeys
    rw [ids_trimEntry, ids_trimEntry]
  have hentries : ∀ entries : List ProductGridAxisEntry, (∀ entry ∈ entries, PRODUCT_GRID_ID_PATTERN entry.id = true) →
      ∀ entry ∈ entries.map trimEntry, PRODUCT_GRID_ID_PATTERN entry.id = true := by
    intro entries hpattern entry hentry
    obtain ⟨e, he, rfl⟩ := mem_map.mp hentry
    exact hpattern e he
  obtain ⟨rfl, rfl, rfl⟩ := StoredItem.productGrid.inj (Except.ok.inj h)
  rw [hwritten]
  refine ⟨⟨sent.rows.map trimEntry, sent.columns.map trimEntry, sent.maxPerCell, sent.closedCells, sent.mode, tiers,
    storedPrices (ownFields written),
    hprofile, hids ▸ hcomplete, fun list hlist price hprice => ((hlists list hlist).2 price hprice).1⟩, rfl, ?_⟩
  exact {
    rowIds := ⟨(ids_trimEntry sent.rows).symm ▸ hrowNodup, hentries _ hrowPattern⟩
    columnIds := ⟨(ids_trimEntry sent.columns).symm ▸ hcolumnNodup, hentries _ hcolumnPattern⟩
    rowCount := by simpa using hrowCount
    columnCount := by simpa using hcolumnCount
    perCell := hmax
    priced := fun list hlist key hkey => (hlists list hlist).1 key (haxis ▸ hkey)
    bounded := fun list hlist price hprice => ((hlists list hlist).2 price hprice).2 }

end

/-! ## An order of a stored grid -/

section

variable {grid : ProductGrid}

theorem colon_not_mem {id : String} (h : PRODUCT_GRID_ID_PATTERN id = true) : ':' ∉ id.toList := by
  unfold PRODUCT_GRID_ID_PATTERN at h
  split at h
  · cases h
  · rename_i c rest hid
    rw [hid]
    simp only [Bool.and_eq_true, all_eq_true] at h
    intro hmem
    rcases mem_cons.mp hmem with rfl | hmem
    · exact absurd h.1.1 (by decide)
    · exact absurd (h.2 ':' hmem) (by decide)

theorem cellKey_inj {r c r' c' : String} (hr : PRODUCT_GRID_ID_PATTERN r = true) (hc : PRODUCT_GRID_ID_PATTERN c = true)
    (h : productGridCellKey r c = productGridCellKey r' c') : r = r' ∧ c = c' := by
  have hlist := congrArg String.toList h
  simp only [productGridCellKey, String.toList_append, append_assoc] at hlist
  have hsplit : r.toList ++ ':' :: c.toList = r'.toList ++ ':' :: c'.toList := hlist
  obtain ⟨h₁, -, h₂⟩ := (append_cons_inj_of_notMem (colon_not_mem hr) (colon_not_mem hc)).mp hsplit
  exact ⟨String.toList_inj.mp h₁, String.toList_inj.mp h₂⟩

def keyOf (cell : ProductGridAxisEntry × ProductGridAxisEntry) : String := productGridCellKey cell.1.id cell.2.id

theorem cellKeys_eq : grid.cellKeys = grid.cells.map keyOf := rfl

theorem ProductGrid.WellFormed.nodup_cellKeys (h : grid.WellFormed) : grid.cellKeys.Nodup := by
  have hids : (grid.cells.map fun cell => (cell.1.id, cell.2.id)).Nodup := by
    have hproduct : (grid.cells.map fun cell => (cell.1.id, cell.2.id)) = (grid.rows.map (·.id)) ×ˢ
      (grid.columns.map (·.id)) := by
      show (grid.rows.flatMap fun r => grid.columns.map fun c => (r, c)).map _ = (grid.rows.map (·.id)).flatMap
        fun r => (grid.columns.map (·.id)).map (Prod.mk r)
      simp [map_flatMap, flatMap_map, Function.comp_def]
    rw [hproduct]
    exact h.rowIds.1.product h.columnIds.1
  refine (nodup_map_iff_inj_on (List.Nodup.of_map _ hids)).mpr fun a ha b hb hkey => ?_
  obtain ⟨row, hrow, hmap⟩ := mem_flatMap.mp ha
  obtain ⟨column, hcolumn, rfl⟩ := mem_map.mp hmap
  obtain ⟨hr, hc⟩ := cellKey_inj (h.rowIds.2 row hrow) (h.columnIds.2 column hcolumn) hkey
  exact inj_on_of_nodup_map hids ha hb (Prod.ext hr hc)

theorem ProductGrid.WellFormed.cell_count (h : grid.WellFormed) : grid.cells.length ≤ 600 := by
  have hlength : grid.cells.length = grid.rows.length * grid.columns.length := by simp [ProductGrid.cells]
  rw [hlength]
  exact Nat.mul_le_mul h.rowCount h.columnCount

structure Orders (grid : ProductGrid) (parsed : ParsedAnswer) (quantity : String → Int) : Prop where
  bounds : ∀ key, 0 ≤ quantity key ∧ quantity key ≤ max 0 grid.maxPerCell
  closed : ∀ key, 0 < quantity key → grid.closedCells.contains key = false
  answer : parsed.answer = (grid.cells.filter fun cell => quantity (keyOf cell) != 0).map fun cell =>
    (keyOf cell, quantity (keyOf cell))
  units : parsed.units = (parsed.answer.map (·.2)).sum

theorem filter_map_keys (quantity : String → Int) :
    ((grid.cellKeys.map fun key => (key, quantity key)).filter fun cell => cell.2 != 0) =
      (grid.cells.filter fun cell => quantity (keyOf cell) != 0).map fun cell =>
        (keyOf cell, quantity (keyOf cell)) := by
  rw [cellKeys_eq, map_map, filter_map]
  rfl

theorem quantityOf_bounds {fields : List (String × Field)}
    (h : fields.findSome? (fun (key, value) => grid.cellRefusal key value) = none) (key : String) :
    quantityOf fields key ≤ max 0 grid.maxPerCell ∧
      (0 < quantityOf fields key → grid.closedCells.contains key = false) := by
  unfold quantityOf
  split
  · rename_i n hn
    have hcell := findSome?_eq_none_iff.mp h _ (mem_of_lookup hn)
    simp only [ProductGrid.cellRefusal] at hcell
    split at hcell
    · cases hcell
    split at hcell
    · cases hcell
    rename_i hbounds
    split at hcell
    · cases hcell
    rename_i hclosed
    simp only [Bool.or_eq_true, decide_eq_true_eq, not_or, Int.not_lt] at hbounds
    simp only [Bool.and_eq_true, decide_eq_true_eq, not_and, Bool.not_eq_true] at hclosed
    exact ⟨le_max_of_le_right hbounds.2, hclosed⟩
  · exact ⟨le_max_left _ _, fun hpos => absurd hpos (Int.lt_irrefl 0)⟩

variable {parsed : ParsedAnswer}

theorem exists_orders {raw : Option Value}
    (h : parseProductGridAnswer grid raw = .ok parsed) : ∃ quantity, Orders grid parsed quantity := by
  have hunits := (parsed_spec h).2
  unfold parseProductGridAnswer at h
  split at h
  · cases h
    exact ⟨fun _ => 0, fun _ => ⟨Int.le_refl 0, le_max_left _ _⟩, fun _ hpos => absurd hpos (Int.lt_irrefl 0), by
      simp, hunits⟩
  · rename_i fields
    split at h
    · cases h
    · rename_i hnone
      cases h
      refine ⟨quantityOf fields, fun key => ⟨parsed_nonneg hnone key, (quantityOf_bounds hnone key).1⟩,
        fun key => (quantityOf_bounds hnone key).2, ?_, hunits⟩
      exact filter_map_keys _
  · cases h

variable {cell : ProductGridAxisEntry × ProductGridAxisEntry} {quantity : String → Int}

/-- Reading an answer under the key of a cell gives what is ordered of it. -/
theorem Orders.lookup (h : Orders grid parsed quantity)
    (hcell : cell ∈ grid.cells) : (parsed.answer.lookup (keyOf cell)).getD 0 = quantity (keyOf cell) := by
  have hlookup : ∀ cells : List (ProductGridAxisEntry × ProductGridAxisEntry), cell ∈ cells →
      (((cells.filter fun cell => quantity (keyOf cell) != 0).map
        fun cell => (keyOf cell, quantity (keyOf cell))).lookup (keyOf cell)).getD 0 =
        quantity (keyOf cell) := by
    intro cells
    induction cells with
    | nil => exact nofun
    | cons first rest ih =>
      intro hmem
      by_cases hkey : keyOf cell = keyOf first
      · by_cases hzero : quantity (keyOf first) = 0
        · -- nothing is ordered under this key, here or later
          rw [filter_cons_of_neg (by simp [hzero]), hkey]
          have hnone : ((rest.filter fun cell => quantity (keyOf cell) != 0).map
            fun cell => (keyOf cell, quantity (keyOf cell))).lookup (keyOf first) = none := by
            refine JsMap.lookup_eq_none_of_not_mem fun hin => ?_
            obtain ⟨entry, hentry, hsame⟩ := mem_map.mp hin
            obtain ⟨other, hother, rfl⟩ := mem_map.mp hentry
            have hne := (mem_filter.mp hother).2
            rw [show keyOf other = keyOf first from hsame, hzero] at hne
            exact absurd hne (by decide)
          rw [hnone, hzero]
          rfl
        · rw [filter_cons_of_pos (by simpa using hzero), map_cons, hkey, lookup_cons_self]
          rfl
      · have hrest : cell ∈ rest := (mem_cons.mp hmem).resolve_left fun e => hkey (e ▸ rfl)
        by_cases hzero : quantity (keyOf first) = 0
        · rw [filter_cons_of_neg (by simp [hzero])]
          exact ih hrest
        · rw [filter_cons_of_pos (by simpa using hzero), map_cons, lookup_cons, beq_false_of_ne hkey]
          exact ih hrest
  rw [h.answer]
  exact hlookup grid.cells hcell

def storedAnswer (answer : List (String × Int)) : Value := .object (answer.map fun cell => (cell.1, .number cell.2))

theorem quantityOf_storedAnswer (answer : List (String × Int)) (key : String) :
    quantityOf (answer.map fun cell => (cell.1, .number cell.2)) key = (answer.lookup key).getD 0 := by
  unfold quantityOf
  induction answer with
  | nil => rfl
  | cons cell rest ih =>
    rw [map_cons, lookup_cons, lookup_cons]
    cases key == cell.1 with
    | true => rfl
    | false => exact ih

/-- What is stored is accepted, as itself. -/
theorem Orders.reparse (h : Orders grid parsed quantity) :
    parseProductGridAnswer grid (some (storedAnswer parsed.answer)) = .ok parsed := by
  have haccepted : (parsed.answer.map fun cell => (cell.1, Field.number cell.2)).findSome?
    (fun (key, value) => grid.cellRefusal key value) = none := by
    rw [findSome?_eq_none_iff]
    intro field hfield
    obtain ⟨entry, hentry, rfl⟩ := mem_map.mp hfield
    rw [h.answer] at hentry
    obtain ⟨cell, hcell, rfl⟩ := mem_map.mp hentry
    obtain ⟨hmem, hne⟩ := mem_filter.mp hcell
    have hkey : grid.cellKeys.contains (keyOf cell) = true := contains_iff_mem.mpr (mem_map_of_mem hmem)
    have hne' : quantity (keyOf cell) ≠ 0 := by simpa using hne
    obtain ⟨hlow, hhigh⟩ := h.bounds (keyOf cell)
    have hclosed := h.closed (keyOf cell) (by omega)
    have hbounds : (decide (quantity (keyOf cell) < 0) || decide
      (grid.maxPerCell < quantity (keyOf cell))) = false := by
      simp only [Bool.or_eq_false_iff, decide_eq_false_iff_not]
      omega
    simp only [ProductGrid.cellRefusal, hkey, hbounds, hclosed, Bool.not_true, Bool.false_eq_true, if_false,
      Bool.and_false]
  unfold parseProductGridAnswer storedAnswer
  dsimp only
  rw [haccepted]
  have hsame : ((grid.cellKeys.map
    fun key => (key, quantityOf (parsed.answer.map fun cell => (cell.1, Field.number cell.2)) key)).filter
    fun cell => cell.2 != 0) =
      parsed.answer := by
    have hquantities : (grid.cellKeys.map
      fun key => (key, quantityOf (parsed.answer.map fun cell => (cell.1, Field.number cell.2)) key)) =
        grid.cellKeys.map fun key => (key, quantity key) := by
      refine map_congr_left fun key hkey => ?_
      obtain ⟨cell, hcell, rfl⟩ := mem_map.mp hkey
      exact Prod.ext rfl ((quantityOf_storedAnswer _ _).trans (h.lookup hcell))
    rw [hquantities, filter_map_keys, ← h.answer]
  rw [hsame, ← h.units]

def axisKeyOf (grid : ProductGrid) (cell : ProductGridAxisEntry × ProductGridAxisEntry) : String :=
    productGridAxisKey grid.mode cell.1.id cell.2.id

theorem axisKeyOf_mem (hcell : cell ∈ grid.cells) :
    axisKeyOf grid cell ∈ productGridAxisKeys grid.mode grid.rows grid.columns := by
  obtain ⟨row, hrow, hmap⟩ := mem_flatMap.mp hcell
  obtain ⟨column, hcolumn, rfl⟩ := mem_map.mp hmap
  unfold axisKeyOf productGridAxisKey productGridAxisKeys
  cases grid.mode with
  | single => exact mem_singleton_self _
  | perRow => exact mem_map_of_mem hrow
  | perColumn => exact mem_map_of_mem hcolumn

variable {viewer : ProductGridViewerPrices}

theorem viewer_mem {facts : PricingFacts} (h : viewerPricesFor grid facts = some viewer) :
    (viewer.tierId, viewer.prices) ∈ grid.prices := by
  obtain ⟨list, hlist, rfl⟩ := Option.map_eq_some_iff.mp h
  exact mem_of_lookup hlist

def orderLine (itemId itemLabel : String) (grid : ProductGrid) (viewer : ProductGridViewerPrices)
    (quantity : String → Int)
    (cell : ProductGridAxisEntry × ProductGridAxisEntry) : ProductGridLine :=
  let cents := (viewer.prices.lookup (axisKeyOf grid cell)).getD 0
  ⟨itemId, itemLabel, cell.1.id, cell.1.label, cell.2.id, cell.2.label, quantity (keyOf cell), cents,
    cents * quantity (keyOf cell),
    viewer.tierId, viewer.tierLabel⟩

/-- With a price for each cell there is a line for each ordered one. -/
theorem linesOf_eq {itemId itemLabel : String} {answer : List (String × Int)}
    {cells : List (ProductGridAxisEntry × ProductGridAxisEntry)}
    (hquantity : ∀ cell ∈ cells, (answer.lookup (keyOf cell)).getD 0 = quantity (keyOf cell))
    (hprice : ∀ cell ∈ cells, (viewer.prices.lookup (axisKeyOf grid cell)).isSome = true) :
    linesOf itemId itemLabel grid answer viewer cells =
      .ok ((cells.filter fun cell => quantity (keyOf cell) != 0).map
        (orderLine itemId itemLabel grid viewer quantity)) := by
  induction cells with
  | nil => rfl
  | cons cell rest ih =>
    have hrest := ih (fun c hc => hquantity c (mem_cons_of_mem _ hc)) fun c hc => hprice c (mem_cons_of_mem _ hc)
    have hline : lineOf itemId itemLabel grid answer viewer cell.1 cell.2 =
        .ok (if quantity (keyOf cell) = 0 then none else
          some (orderLine itemId itemLabel grid viewer quantity cell)) := by
      obtain ⟨cents, hcents⟩ := Option.isSome_iff_exists.mp (hprice cell mem_cons_self)
      unfold lineOf
      rw [show (answer.lookup (productGridCellKey cell.1.id cell.2.id)).getD 0 = quantity (keyOf cell)
        from hquantity cell mem_cons_self,
        show viewer.prices.lookup (productGridAxisKey grid.mode cell.1.id cell.2.id) = some cents from hcents]
      dsimp only
      split
      · rfl
      · simp [orderLine, hcents]
    unfold linesOf
    rw [hline, hrest]
    by_cases hzero : quantity (keyOf cell) = 0
    · rw [if_pos hzero, filter_cons_of_neg (by simp [hzero])]
      rfl
    · rw [if_neg hzero, filter_cons_of_pos (by simpa using hzero)]
      rfl

def ProductGrid.cellPrice (grid : ProductGrid) (facts : PricingFacts) (key : String) : Option Int :=
  (viewerPricesFor grid facts).bind fun viewer => (grid.cells.find? fun cell => keyOf cell = key).bind fun cell =>
    viewer.prices.lookup (axisKeyOf grid cell)

theorem cellPrice_eq (hgrid : grid.WellFormed) {facts : PricingFacts}
    (hviewer : viewerPricesFor grid facts = some viewer) (hcell : cell ∈ grid.cells) :
    grid.cellPrice facts (keyOf cell) = viewer.prices.lookup (axisKeyOf grid cell) := by
  unfold ProductGrid.cellPrice
  rw [hviewer]
  cases hfind : grid.cells.find? fun c => keyOf c = keyOf cell with
  | none => exact absurd (decide_eq_true rfl) (find?_eq_none.mp hfind cell hcell)
  | some found =>
    have hkey : keyOf found = keyOf cell := by simpa using find?_some hfind
    have hnodup : (grid.cells.map keyOf).Nodup := hgrid.nodup_cellKeys
    rw [inj_on_of_nodup_map hnodup (mem_of_find?_eq_some hfind) hcell hkey]
    rfl

def MAX_EXACT : Int := 2 ^ 53

structure PricedOrder (grid : ProductGrid) (facts : PricingFacts) (parsed : ParsedAnswer)
    (priced : PricedAnswer) : Prop where
  answer : priced.answer = parsed.answer ∧ priced.units = parsed.units
  hasPrice : ∀ cell ∈ parsed.answer, (grid.cellPrice facts cell.1).isSome = true
  total : productGridTotalCents priced.lines =
    (parsed.answer.map fun cell => cell.2 * (grid.cellPrice facts cell.1).getD 0).sum
  units : priced.units = (parsed.answer.map (·.2)).sum
  /-- The sums are exact, as far as they have come. -/
  exactSums : ∀ n, 0 ≤ productGridTotalCents (priced.lines.take n) ∧
    productGridTotalCents (priced.lines.take n) ≤ MAX_EXACT ∧
    0 ≤ ((parsed.answer.take n).map (·.2)).sum ∧ ((parsed.answer.take n).map (·.2)).sum ≤ MAX_EXACT
  exactLines : ∀ line ∈ priced.lines, line.lineCents = line.unitCents * line.quantity ∧ 0 ≤ line.lineCents ∧
    line.lineCents ≤ MAX_EXACT
  cells : priced.lines.map (fun line => (productGridCellKey line.rowId line.colId, line.quantity)) = parsed.answer ∧
    (parsed.answer.map (·.1)).Nodup
  reparsed : parseProductGridAnswer grid (some (storedAnswer parsed.answer)) = .ok parsed

theorem sum_bounds {l : List Int} {count : Nat} {bound : Int} (hlength : l.length ≤ count) (hbound : 0 ≤ bound)
    (h : ∀ x ∈ l, 0 ≤ x ∧ x ≤ bound) :
    0 ≤ l.sum ∧ l.sum ≤ count * bound := by
  refine ⟨sum_nonneg fun x hx => (h x hx).1, ?_⟩
  calc l.sum ≤ l.length • bound := sum_le_card_nsmul _ _ fun x hx => (h x hx).2
    _ = (l.length : Int) * bound := nsmul_eq_mul _ _
    _ ≤ count * bound := Int.mul_le_mul_of_nonneg_right (Int.ofNat_le.mpr hlength) hbound

theorem ProductGrid.WellFormed.priced_order (hgrid : grid.WellFormed) (itemId itemLabel : String)
    (facts : PricingFacts) {raw : Option Value}
    (h : parseProductGridAnswer grid raw = .ok parsed) :
    ∃ priced, priceProductGridAnswer itemId itemLabel grid raw facts = .ok priced ∧
      PricedOrder grid facts parsed priced := by
  obtain ⟨quantity, horders⟩ := exists_orders h
  obtain ⟨viewer, hviewer⟩ := viewerPricesFor_isSome grid facts
  have hprice : ∀ cell ∈ grid.cells, (viewer.prices.lookup (axisKeyOf grid cell)).isSome = true := by
    intro cell hcell
    exact hgrid.priced _ (viewer_mem hviewer) _ (axisKeyOf_mem hcell)
  have hcents : ∀ cell ∈ grid.cells, 0 ≤ (viewer.prices.lookup (axisKeyOf grid cell)).getD 0 ∧
      (viewer.prices.lookup (axisKeyOf grid cell)).getD 0 ≤ PRODUCT_GRID_MAX_PRICE_CENTS := by
    intro cell hcell
    obtain ⟨cents, hfound⟩ := Option.isSome_iff_exists.mp (hprice cell hcell)
    rw [hfound]
    exact ⟨viewerPrices_nonneg hviewer hfound, hgrid.bounded _ (viewer_mem hviewer) _ (mem_of_lookup hfound)⟩
  have hquantity : ∀ key, 0 ≤ quantity key ∧ quantity key ≤ 99 := by
    intro key
    have hbounds := horders.bounds key
    have hmax : grid.maxPerCell ≤ 99 := hgrid.perCell
    omega
  -- the answer and the lines both follow the ordered cells
  obtain ⟨ordered, hordered⟩ : ∃ ordered, ordered = grid.cells.filter fun cell => quantity (keyOf cell) != 0 := ⟨_, rfl⟩
  have hsub : ∀ cell ∈ ordered, cell ∈ grid.cells := fun cell hcell => (mem_filter.mp (hordered ▸ hcell)).1
  have hcount : ordered.length ≤ 600 := hordered ▸ (length_filter_le _ _).trans hgrid.cell_count
  have hanswer : parsed.answer = ordered.map fun cell => (keyOf cell, quantity (keyOf cell)) :=
    hordered ▸ horders.answer
  have hlines : productGridLines itemId itemLabel grid parsed.answer viewer = .ok
    (ordered.map (orderLine itemId itemLabel grid viewer quantity)) :=
    hordered ▸ linesOf_eq (fun cell hcell => horders.lookup hcell) hprice
  have hpriced : priceProductGridAnswer itemId itemLabel grid raw facts =
      .ok ⟨parsed.answer, ordered.map (orderLine itemId itemLabel grid viewer quantity), parsed.units⟩ := by
    unfold priceProductGridAnswer
    rw [h]
    dsimp only
    split
    · rw [hviewer]
      dsimp only
      rw [hlines]
    · rename_i hunits
      have hempty : parsed.answer = [] := by
        by_contra hne
        exact hunits (horders.units ▸ sum_pos_of_ne_nil (parsed_spec h).1 hne)
      have hnil : ordered = [] := map_eq_nil_iff.mp (hanswer ▸ hempty)
      rw [hnil]
      rfl
  have hline : ∀ cell ∈ ordered, 0 ≤ (orderLine itemId itemLabel grid viewer quantity cell).lineCents ∧
      (orderLine itemId itemLabel grid viewer quantity cell).lineCents ≤ 99000000 := by
    intro cell hcell
    obtain ⟨hlow, hhigh⟩ := hcents cell (hsub cell hcell)
    obtain ⟨hmin, hmax⟩ := hquantity (keyOf cell)
    exact ⟨Int.mul_nonneg hlow hmin, (Int.mul_le_mul hhigh hmax hmin (by decide)).trans (by decide)⟩
  refine ⟨_, hpriced, ⟨⟨rfl, rfl⟩, ?_, ?_, horders.units, ?_, ?_, ⟨?_, ?_⟩, horders.reparse⟩⟩
  · intro entry hentry
    obtain ⟨cell, hcell, rfl⟩ := mem_map.mp (hanswer ▸ hentry)
    rw [cellPrice_eq hgrid hviewer (hsub cell hcell)]
    exact hprice cell (hsub cell hcell)
  · rw [hanswer, productGridTotalCents, map_map, map_map]
    refine congrArg List.sum (map_congr_left fun cell hcell => ?_)
    simp only [Function.comp_apply, cellPrice_eq hgrid hviewer (hsub cell hcell)]
    exact Int.mul_comm _ _
  · intro n
    have htake : (ordered.take n).length ≤ 600 := (length_take_le' n ordered).trans hcount
    have hcharged : 0 ≤ ((ordered.take n).map
      fun cell => (orderLine itemId itemLabel grid viewer quantity cell).lineCents).sum ∧
        ((ordered.take n).map fun cell => (orderLine itemId itemLabel grid viewer quantity cell).lineCents).sum ≤
          (600 : Nat) * 99000000 := by
      refine sum_bounds (by simpa using htake) (by decide) fun x hx => ?_
      obtain ⟨cell, hcell, rfl⟩ := mem_map.mp hx
      exact hline cell (mem_of_mem_take hcell)
    have hunits : 0 ≤ ((ordered.take n).map fun cell => quantity (keyOf cell)).sum ∧
        ((ordered.take n).map fun cell => quantity (keyOf cell)).sum ≤ (600 : Nat) * 99 := by
      refine sum_bounds (by simpa using htake) (by decide) fun x hx => ?_
      obtain ⟨cell, -, rfl⟩ := mem_map.mp hx
      exact hquantity _
    rw [hanswer, productGridTotalCents, ← map_take, ← map_take, map_map, map_map]
    exact ⟨hcharged.1, hcharged.2.trans (by decide), hunits.1, hunits.2.trans (by decide)⟩
  · intro line hmem
    obtain ⟨cell, hcell, rfl⟩ := mem_map.mp hmem
    obtain ⟨hlow, hhigh⟩ := hline cell hcell
    exact ⟨rfl, hlow, hhigh.trans (by decide)⟩
  · rw [hanswer, map_map]
    rfl
  · rw [hanswer, map_map]
    have hnodup : (grid.cells.map keyOf).Nodup := hgrid.nodup_cellKeys
    exact hordered ▸ hnodup.sublist (filter_sublist.map _)

theorem stored_injective {other : ProductGrid} (h : grid.stored = other.stored) : grid = other := by
  cases grid
  cases other
  obtain ⟨rfl, rfl, rfl, rfl, rfl, rfl, rfl⟩ := StoredGrid.mk.inj h
  rfl

theorem exists_of_mem_mapM {α β ε : Type} {f : α → Except ε β} {l : List α} {l' : List β} (h : l.mapM f = .ok l')
    {b : β} (hb : b ∈ l') :
    ∃ a ∈ l, f a = .ok b := by
  induction l generalizing l' with
  | nil =>
    cases h
    cases hb
  | cons a l ih =>
    rw [mapM_cons] at h
    obtain ⟨first, hfirst, h⟩ := bind_eq_ok h
    obtain ⟨rest, hrest, h⟩ := bind_eq_ok h
    cases h
    rcases mem_cons.mp hb with rfl | hb
    · exact ⟨a, mem_cons_self, hfirst⟩
    · obtain ⟨a', ha', hf⟩ := ih hrest hb
      exact ⟨a', mem_cons_of_mem _ ha', hf⟩

/-- Whoever orders from a grid that was saved, an accepted order is priced, exactly. -/
theorem stored_grid_prices_orders (toLowerCase : String → String) (items : List SentItem) (ctx : CriteriaContext)
    (form : ProductGridFormContext)
    (stored : List StoredItem) (h : normaliseProductGridItems toLowerCase items ctx form = .ok stored)
    (id label : String) (data : StoredGrid)
    (hmem : .productGrid id label data ∈ stored) :
    ∃ grid : ProductGrid, grid.stored = data ∧ ∀ (facts : PricingFacts) (raw : Option Value) (parsed : ParsedAnswer),
      parseProductGridAnswer grid raw = .ok parsed →
        ∃ priced, priceProductGridAnswer id label grid raw facts = .ok priced ∧
          PricedOrder grid facts parsed priced := by
  obtain ⟨item, -, hitem⟩ := exists_of_mem_mapM h hmem
  obtain ⟨grid, hdata, hgrid⟩ := normaliseProductGridItem_wellFormed hitem
  exact ⟨grid, hdata, fun facts raw parsed hparsed => hgrid.priced_order id label facts hparsed⟩

end

/-! ## A grid of shirts -/

def axisEntry (id label : String) : Document := .object [("id", .text id), ("label", .text label)]

def shirts : SentItem where
  id := "q1"
  type := "product_grid"
  label := "Shirts"
  required := some (.bool true)
  productGrid := some (.object
    [ ("rows", .list [axisEntry "green" " Vert ", axisEntry "blue" "Bleu"]),
      ("columns", .list [axisEntry "m" "M", axisEntry "l" "L"])
    , ("maxPerCell", .number ⟨some 3, "3"⟩), ("closedCells", .list [.text "blue:l"])
    , ("pricing", .object
        [ ("mode", .text "per_column")
        , ("tiers", .object [("id", .text "t"), ("kind", .text "formation"), ("buckets", .list
            [.object [("id", .text "icm"), ("label", .text "ICM"), ("values", .list [.text "ICM"])]])])
        , ("prices", .object
            [ ("icm", .object [("m", .number ⟨some 1000, "1000"⟩), ("l", .number ⟨some 1200, "1200"⟩)])
            , ("_others", .object [("m", .number ⟨some 1500, "1500"⟩), ("l", .number ⟨some 1700, "1700"⟩)]) ]) ]) ])

def storedShirts : ProductGrid where
  rows := [⟨"green", "Vert"⟩, ⟨"blue", "Bleu"⟩]
  columns := [⟨"m", "M"⟩, ⟨"l", "L"⟩]
  maxPerCell := 3
  closedCells := ["blue:l"]
  mode := .perColumn
  tiers := some (.formation "t" [⟨"icm", "ICM", ["ICM"]⟩])
  prices := [("icm", [("m", 1000), ("l", 1200)]), ("_others", [("m", 1500), ("l", 1700)])]
  profileTiers := by rintro d hd id q b rfl; cases hd
  complete := by decide
  nonneg := by decide

/-- Two green shirts in M and one in L, for somebody of no formation. -/
theorem shirts_order : ∃ priced,
    priceProductGridAnswer "q1" "Shirts" storedShirts
    (some (.object [("green:l", .number 1), ("green:m", .number 2)]))
    ⟨⟨none, none, []⟩, fun _ => none⟩ = .ok priced ∧ productGridTotalCents priced.lines = 4700 ∧ priced.units = 3 ∧
      PricedOrder storedShirts ⟨⟨none, none, []⟩, fun _ => none⟩ ⟨[("green:m", 2), ("green:l", 1)], 3⟩ priced := by
  obtain ⟨grid, hstored, hprices⟩ := stored_grid_prices_orders id [shirts] ⟨[], fun _ => none, 2026⟩ ⟨true, true, none⟩
    [.productGrid "q1" "Shirts" storedShirts.stored] rfl "q1" "Shirts" storedShirts.stored mem_cons_self
  obtain rfl := stored_injective hstored
  obtain ⟨priced, hpriced, horder⟩ :=
    hprices ⟨⟨none, none, []⟩, fun _ => none⟩ (some (.object [("green:l", .number 1), ("green:m", .number 2)]))
    ⟨[("green:m", 2), ("green:l", 1)], 3⟩ (by decide)
  refine ⟨priced, hpriced, ?_, horder.answer.2, horder⟩
  rw [horder.total]
  decide

end Canari.Forms.Fill
