/-
  Canari.Forms.ProductGrid — the values a page holds and the priced grid (`product_grid`), the
  contract both sides hold a copy of (product-grid-contract.ts) and what each builds on it
  (social-service product-grid.ts, frontend productGridFill.ts).

  A grid prices each ordered cell once, from one axis, at the list of the person's category.
  A saved grid has a list for every category and no negative price: the structure carries both.
-/

import Mathlib.Algebra.Ring.Int.Defs
import Canari.Forms.Audience

namespace Canari.Forms.Fill

open List

/-! ## Values -/

/-- What a row of a grid answer holds. Numbers are whole: a scale's step, a quantity. -/
inductive Field where
  | text (s : String)
  | number (n : Int)
  | list (ids : List String)

/-- A selection; `undefined` and `null` are `none` of `Option Value`. -/
inductive Value where
  | text (s : String)
  | number (n : Int)
  | list (ids : List String)
  | object (fields : List (String × Field))

/-- JavaScript's `String(value)`, of a value that is not a list. -/
def Value.string : Value → String
  | .text s => s
  | .number n => toString n
  | .list ids => ",".intercalate ids
  | .object _ => "[object Object]"

def Value.truthy : Value → Bool
  | .text s => s != ""
  | .number n => n != 0
  | .list _ | .object _ => true

/-- `Object.entries`, `none` for what is no object. A list's keys are its indices. -/
def Value.entries : Value → Option (List (String × Field))
  | .object fields => some fields
  | .list ids => some (ids.zipIdx.map fun (s, k) => (toString k, .text s))
  | .text _ | .number _ => none

def Field.hasValue : Field → Bool
  | .text s => s != ""
  | .number _ => true
  | .list ids => !ids.isEmpty

/-- `0` is an answer. -/
def hasValue : Option Value → Bool
  | none => false
  | some (.text s) => s != ""
  | some (.number _) => true
  | some (.list ids) => !ids.isEmpty
  | some (.object _) => true

/-! ## The contract -/

def PRODUCT_GRID_ALL_TIER : String := "_all"
def PRODUCT_GRID_SINGLE_KEY : String := "*"

structure ProductGridAxisEntry where
  id : String
  /-- Stored trimmed. -/
  label : String

inductive ProductGridPriceMode where
  | single | perRow | perColumn

def productGridTierIds (tiers : Option Dimension) : List String :=
  match tiers with
  | none => [PRODUCT_GRID_ALL_TIER]
  | some d => d.bucketIds ++ [OTHERS_BUCKET_ID]

structure ProductGrid where
  rows : List ProductGridAxisEntry
  columns : List ProductGridAxisEntry
  maxPerCell : Int
  closedCells : List String
  mode : ProductGridPriceMode
  /-- Who the person is, never an answer. -/
  tiers : Option Dimension
  /-- Category id -> axis key -> cents. -/
  prices : List (String × List (String × Int))
  profileTiers : ∀ d ∈ tiers, ∀ id q b, d ≠ .answer id q b
  complete : ∀ tierId ∈ productGridTierIds tiers, (prices.lookup tierId).isSome = true
  nonneg : ∀ list ∈ prices, ∀ price ∈ list.2, 0 ≤ price.2

structure ProductGridViewerPrices where
  tierId : String
  tierLabel : Option String
  prices : List (String × Int)

structure ProductGridLine where
  itemId : String
  itemLabel : String
  rowId : String
  rowLabel : String
  colId : String
  colLabel : String
  quantity : Int
  unitCents : Int
  lineCents : Int
  tierId : String
  tierLabel : Option String

inductive ProductGridAnswerCode where
  | answerMissing | unknownCell | quantityInvalid | cellClosed | empty
  deriving DecidableEq

structure ProductGridRefusal where
  code : ProductGridAnswerCode
  detail : Option String
  deriving DecidableEq

def productGridCellKey (rowId colId : String) : String := rowId ++ ":" ++ colId

def productGridAxisKey (mode : ProductGridPriceMode) (rowId colId : String) : String :=
  match mode with
  | .perRow => rowId
  | .perColumn => colId
  | .single => PRODUCT_GRID_SINGLE_KEY

def ProductGrid.cells (grid : ProductGrid) : List (ProductGridAxisEntry × ProductGridAxisEntry) :=
  grid.rows.flatMap fun r => grid.columns.map fun c => (r, c)

def ProductGrid.cellKeys (grid : ProductGrid) : List String := grid.cells.map fun (r, c) => productGridCellKey r.id c.id

def ProductGrid.cellRefusal (grid : ProductGrid) (key : String) (value : Field) : Option ProductGridRefusal :=
  if !grid.cellKeys.contains key then some ⟨.unknownCell, some key⟩
  else
    match value with
    | .number n =>
      if n < 0 || grid.maxPerCell < n then some ⟨.quantityInvalid, some key⟩
      else if 0 < n && grid.closedCells.contains key then some ⟨.cellClosed, some key⟩
      else none
    | _ => some ⟨.quantityInvalid, some key⟩

def quantityOf (fields : List (String × Field)) (key : String) : Int :=
  match fields.lookup key with
  | some (.number n) => n
  | _ => 0

structure ParsedAnswer where
  answer : List (String × Int)
  units : Int
  deriving DecidableEq

/-- Judges one grid's answer: the ordered cells in the grid's order, or why it is refused. -/
def parseProductGridAnswer (grid : ProductGrid) (raw : Option Value) : Except ProductGridRefusal ParsedAnswer :=
  match raw with
  | none => .ok ⟨[], 0⟩
  | some (.object fields) =>
    match fields.findSome? fun (key, value) => grid.cellRefusal key value with
    | some refusal => .error refusal
    | none =>
      let ordered := (grid.cellKeys.map fun key => (key, quantityOf fields key)).filter fun cell => cell.2 != 0
      .ok ⟨ordered, (ordered.map (·.2)).sum⟩
  | some _ => .error ⟨.answerMissing, none⟩

/-- The priced line of one cell; `none` when nothing is ordered there, an error when the list has no price. -/
def lineOf (itemId itemLabel : String) (grid : ProductGrid) (answer : List (String × Int))
    (viewer : ProductGridViewerPrices)
    (row col : ProductGridAxisEntry) : Except String (Option ProductGridLine) :=
  let quantity := (answer.lookup (productGridCellKey row.id col.id)).getD 0
  if quantity = 0 then .ok none
  else
    match viewer.prices.lookup (productGridAxisKey grid.mode row.id col.id) with
    | none => .error (productGridAxisKey grid.mode row.id col.id)
    | some unitCents =>
      .ok (some ⟨itemId, itemLabel, row.id, row.label, col.id, col.label, quantity, unitCents, unitCents * quantity,
        viewer.tierId, viewer.tierLabel⟩)

def linesOf (itemId itemLabel : String) (grid : ProductGrid) (answer : List (String × Int))
    (viewer : ProductGridViewerPrices) :
    List (ProductGridAxisEntry × ProductGridAxisEntry) → Except String (List ProductGridLine)
  | [] => .ok []
  | (row, col) :: rest =>
    match lineOf itemId itemLabel grid answer viewer row col with
    | .error axisKey => .error axisKey
    | .ok line =>
      match linesOf itemId itemLabel grid answer viewer rest with
      | .error axisKey => .error axisKey
      | .ok lines => .ok (line.toList ++ lines)

/-- The priced lines of a judged answer, in the grid's order; the axis key of a missing price is the error. -/
def productGridLines (itemId itemLabel : String) (grid : ProductGrid) (answer : List (String × Int))
    (viewer : ProductGridViewerPrices) : Except String (List ProductGridLine) :=
  linesOf itemId itemLabel grid answer viewer grid.cells

def productGridTotalCents (lines : List ProductGridLine) : Int := (lines.map (·.lineCents)).sum

/-! ## The server's prices -/

def Dimension.labelOf (d : Dimension) (bucketId : String) : Option String :=
  match d with
  | .cotisation _ buckets => (buckets.find? (·.id == bucketId)).map (·.label)
  | .promo _ buckets => (buckets.find? (·.id == bucketId)).map (·.label)
  | .formation _ buckets => (buckets.find? (·.id == bucketId)).map (·.label)
  | .answer _ _ buckets => (buckets.find? (·.id == bucketId)).map (·.label)

/-- The category a person is in, and its list; `none` is the throw of a missing list. -/
def viewerPricesFor (grid : ProductGrid) (facts : PricingFacts) : Option ProductGridViewerPrices :=
  let tierId :=
    match grid.tiers with
    | some d => bucketFor facts d
    | none => PRODUCT_GRID_ALL_TIER
  (grid.prices.lookup tierId).map fun prices => ⟨tierId, grid.tiers.bind fun d => d.labelOf tierId, prices⟩

structure PricedAnswer where
  answer : List (String × Int)
  lines : List ProductGridLine
  units : Int

inductive GridFailure where
  | refused (itemId : String) (refusal : ProductGridRefusal)
  | noPriceList (itemId : String)
  | noPrice (itemId axisKey : String)
  deriving DecidableEq

def priceProductGridAnswer (itemId itemLabel : String) (grid : ProductGrid) (raw : Option Value)
    (facts : PricingFacts) :
    Except GridFailure PricedAnswer :=
  match parseProductGridAnswer grid raw with
  | .error refusal => .error (.refused itemId refusal)
  | .ok parsed =>
    if 0 < parsed.units then
      match viewerPricesFor grid facts with
      | none => .error (.noPriceList itemId)
      | some viewer =>
        match productGridLines itemId itemLabel grid parsed.answer viewer with
        | .error axisKey => .error (.noPrice itemId axisKey)
        | .ok lines => .ok ⟨parsed.answer, lines, parsed.units⟩
    else .ok ⟨parsed.answer, [], parsed.units⟩

/-! ## The page -/

def hasOrderedUnits : Option Value → Bool
  | some (.object fields) => fields.any fun (_, value) =>
    match value with
    | .number n => 0 < n
    | _ => false
  | _ => false

/-- The lines of one visible grid on the page: none when nothing is ordered, or when the contract refuses. -/
def pageGridLines (itemId itemLabel : String) (grid : ProductGrid) (answer : Option Value)
    (viewer : Option ProductGridViewerPrices) : List ProductGridLine :=
  if !hasOrderedUnits answer then []
  else
    match viewer with
    | none => []
    | some viewer =>
      match parseProductGridAnswer grid answer with
      | .error _ => []
      | .ok judged =>
        match productGridLines itemId itemLabel grid judged.answer viewer with
        | .ok lines => lines
        | .error _ => []

/-! ## One price on both sides -/

section

variable {grid : ProductGrid} {facts : PricingFacts} {itemId itemLabel : String}

theorem mem_of_lookup {α : Type} {l : List (String × α)} {key : String} {a : α}
    (h : l.lookup key = some a) : (key, a) ∈ l := by
  obtain ⟨before, after, rfl, _⟩ := lookup_eq_some_iff.mp h
  exact mem_append_right _ mem_cons_self

theorem viewerPricesFor_isSome (grid : ProductGrid)
    (facts : PricingFacts) : ∃ viewer, viewerPricesFor grid facts = some viewer := by
  have htier : (match grid.tiers with | some d => bucketFor facts d | none => PRODUCT_GRID_ALL_TIER) ∈
    productGridTierIds grid.tiers := by
    cases grid.tiers with
    | none => exact mem_singleton_self _
    | some d => exact bucketFor_mem facts d
  obtain ⟨list, hlist⟩ := Option.isSome_iff_exists.mp (grid.complete _ htier)
  exact ⟨_, Option.map_eq_some_iff.mpr ⟨list, hlist, rfl⟩⟩

theorem viewerPricesFor_answers (answers : String → Option (List String)) :
    viewerPricesFor grid { facts with answers } = viewerPricesFor grid facts := by
  unfold viewerPricesFor
  cases htiers : grid.tiers with
  | none => rfl
  | some d =>
    dsimp only
    rw [bucketFor_answers (grid.profileTiers d htiers) answers]

variable {viewer : ProductGridViewerPrices}

theorem viewerPrices_nonneg (h : viewerPricesFor grid facts = some viewer) {key : String} {cents : Int}
    (hk : viewer.prices.lookup key = some cents) : 0 ≤ cents := by
  obtain ⟨list, hlist, rfl⟩ := Option.map_eq_some_iff.mp h
  exact grid.nonneg _ (mem_of_lookup hlist) _ (mem_of_lookup hk)

theorem parsed_nonneg {fields : List (String × Field)}
    (h : fields.findSome? (fun (key, value) => grid.cellRefusal key value) = none)
    (key : String) : 0 ≤ quantityOf fields key := by
  unfold quantityOf
  split
  · next n hn =>
    have hcell := findSome?_eq_none_iff.mp h _ (mem_of_lookup hn)
    by_contra hneg
    have hlt : n < 0 := by omega
    simp only [ProductGrid.cellRefusal, hlt, decide_true, Bool.true_or, if_true] at hcell
    split at hcell <;> cases hcell
  · exact Int.le_refl 0

theorem linesOf_nonneg {answer : List (String × Int)} (hq : ∀ cell ∈ answer, 0 ≤ cell.2)
    (hp : ∀ key cents, viewer.prices.lookup key = some cents → 0 ≤ cents)
    {cells : List (ProductGridAxisEntry × ProductGridAxisEntry)}
    {lines : List ProductGridLine}
    (h : linesOf itemId itemLabel grid answer viewer cells = .ok lines) : 0 ≤ productGridTotalCents lines := by
  induction cells generalizing lines with
  | nil => cases h; exact Int.le_refl 0
  | cons cell rest ih =>
    obtain ⟨row, col⟩ := cell
    unfold linesOf at h
    split at h
    · cases h
    · next line hline =>
      split at h
      · cases h
      · next more hmore =>
        cases h
        have hrest := ih hmore
        have hline0 : 0 ≤ productGridTotalCents line.toList := by
          unfold lineOf at hline
          dsimp only at hline
          split_ifs at hline with h0
          · cases hline; exact Int.le_refl 0
          · split at hline
            · cases hline
            · next cents hcents =>
              cases hline
              have hquantity : 0 ≤ (answer.lookup (productGridCellKey row.id col.id)).getD 0 := by
                cases hl : answer.lookup (productGridCellKey row.id col.id) with
                | none => exact Int.le_refl 0
                | some q => exact hq _ (mem_of_lookup hl)
              simpa [productGridTotalCents] using Int.mul_nonneg (hp _ _ hcents) hquantity
        unfold productGridTotalCents at *
        rw [map_append, sum_append]
        omega

theorem parsed_spec {raw : Option Value} {parsed : ParsedAnswer} (h : parseProductGridAnswer grid raw = .ok parsed) :
    (∀ cell ∈ parsed.answer, 0 < cell.2) ∧ parsed.units = (parsed.answer.map (·.2)).sum := by
  unfold parseProductGridAnswer at h
  split at h
  · cases h; exact ⟨fun _ hc => absurd hc not_mem_nil, rfl⟩
  · next fields =>
    split at h
    · cases h
    · next hnone =>
      cases h
      refine ⟨fun cell hc => ?_, rfl⟩
      obtain ⟨hmem, hne⟩ := mem_filter.mp hc
      obtain ⟨key, _, rfl⟩ := mem_map.mp hmem
      have hnonneg := parsed_nonneg hnone key
      have hne' : quantityOf fields key ≠ 0 := by simpa using hne
      omega
  · cases h

theorem sum_pos_of_ne_nil {l : List (String × Int)} (h : ∀ cell ∈ l, 0 < cell.2)
    (hl : l ≠ []) : 0 < (l.map (·.2)).sum := by
  induction l with
  | nil => exact absurd rfl hl
  | cons cell rest ih =>
    have hcell := h cell mem_cons_self
    rw [map_cons, sum_cons]
    by_cases hrest : rest = []
    · subst hrest; simpa using hcell
    · have := ih (fun c hc => h c (mem_cons_of_mem _ hc)) hrest
      omega

theorem linesOf_nil (viewer : ProductGridViewerPrices) (cells : List (ProductGridAxisEntry × ProductGridAxisEntry)) :
    linesOf itemId itemLabel grid [] viewer cells = .ok [] := by
  induction cells with
  | nil => rfl
  | cons cell rest ih =>
    simp [linesOf, lineOf, ih]

def sentOrder (answer : Option Value) : Option Value := if hasOrderedUnits answer then answer else none

theorem pageGridLines_eq {answer : Option Value} {priced : PricedAnswer}
    (hv : viewerPricesFor grid facts = some viewer)
    (h : priceProductGridAnswer itemId itemLabel grid (sentOrder answer) facts = .ok priced) :
    pageGridLines itemId itemLabel grid answer (some viewer) = priced.lines := by
  unfold priceProductGridAnswer sentOrder at h
  unfold pageGridLines
  cases hordered : hasOrderedUnits answer with
  | false =>
    simp only [hordered, Bool.false_eq_true, if_false, parseProductGridAnswer] at h
    cases h
    rfl
  | true =>
    simp only [hordered, if_true, Bool.not_true, Bool.false_eq_true, if_false] at h ⊢
    split at h
    · cases h
    · next parsed hparsed =>
      obtain ⟨hpos, hunits⟩ := parsed_spec hparsed
      by_cases hu : 0 < parsed.units
      · rw [if_pos hu, hv] at h
        dsimp only at h
        split at h
        · cases h
        · next lines hlines => cases h; simp only [hlines]
      · -- a judged answer without a unit holds no cell at all
        have hempty : parsed.answer = [] := by
          by_contra hne
          exact hu (hunits ▸ sum_pos_of_ne_nil hpos hne)
        rw [if_neg hu] at h
        cases h
        simp only [hempty, productGridLines, linesOf_nil]

theorem priced_nonneg {raw : Option Value} {priced : PricedAnswer}
    (h : priceProductGridAnswer itemId itemLabel grid raw facts = .ok priced) :
    0 ≤ productGridTotalCents priced.lines := by
  unfold priceProductGridAnswer at h
  split at h
  · cases h
  · next parsed hparsed =>
    split_ifs at h with hu
    · split at h
      · cases h
      · next viewer hv =>
        split at h
        · cases h
        · next lines hlines =>
          cases h
          exact linesOf_nonneg (fun cell hc => Int.le_of_lt ((parsed_spec hparsed).1 cell hc))
            (fun key cents hk => viewerPrices_nonneg hv hk) hlines
    · cases h; exact Int.le_refl 0

end

end Canari.Forms.Fill
