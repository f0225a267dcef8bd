/-
  Canari.Forms.PriceMatrix — a form's price grid and the slice of it a page is told
  (social-service pricing/price-matrix.ts, frontend lib/forms/fillPricing.ts).

  A cell is keyed by its groups' ids joined with `|`. The server resolves the criteria on who
  the person is and sends the rest keyed the same way, so the page looks its own answers up
  in the slice. Group ids may hold a `|` themselves: with a profile criterion between two
  answer criteria two combinations then share one key of the slice and not of the grid, and
  the last one written stays (`sliceCell_last`).
-/

import Canari.Forms.Visibility

namespace Canari.Forms.Fill

open List

/-- Cents, or `none` for a combination that does not exist. -/
abbrev CellValue := Option Int

structure PriceMatrix where
  dimensions : List Dimension
  cells : List (String × CellValue)

def cellKey (bucketIds : List String) : String := "|".intercalate bucketIds

def expectedCellCount (dimensions : List Dimension) : Nat :=
    dimensions.foldl (fun n d => n * (d.bucketIds.length + 1)) 1

def Dimension.groups (d : Dimension) : List String := d.bucketIds ++ [OTHERS_BUCKET_ID]

def allCellKeys (dimensions : List Dimension) : List String :=
  dimensions.foldl (fun keys d => keys.flatMap fun key => d.groups.map fun id => if key = "" then id else
    key ++ "|" ++ id) [""]

def cellKeyFor (matrix : PriceMatrix)
    (facts : PricingFacts) : String := cellKey (matrix.dimensions.map (bucketFor facts))

/-- `none` is the throw of a cell the grid does not carry. -/
def resolveCellPrice (matrix : PriceMatrix)
    (facts : PricingFacts) : Option CellValue := matrix.cells.lookup (cellKeyFor matrix facts)

inductive MatrixRefusal where
  | noCriterion
  | duplicateCriterion (id : String)
  | noGroup (id : String)
  | reservedGroup (id : String)
  | duplicateGroup (id bucketId : String)
  | overlappingGroups (id a b : String)
  | tooManyCells (expected : Nat)
  | incomplete (missing : Nat) (first : String)
  | extra (count : Nat) (first : String)
  | badPrice (key : String)
  | allUnavailable

def bucketsRefusal (dimensionId : String) : List String → List String → Option MatrixRefusal
  | _, [] => none
  | seen, id :: rest =>
    if id = OTHERS_BUCKET_ID then some (.reservedGroup dimensionId)
    else if seen.contains id then some (.duplicateGroup dimensionId id)
    else bucketsRefusal dimensionId (id :: seen) rest

def dimensionsRefusal : List String → List Dimension → Option MatrixRefusal
  | _, [] => none
  | seen, d :: rest =>
    if seen.contains d.id then some (.duplicateCriterion d.id)
    else if d.bucketIds.isEmpty then some (.noGroup d.id)
    else
      match bucketsRefusal d.id [] d.bucketIds, findOverlappingBuckets d with
      | some refusal, _ => some refusal
      | none, (a, b) :: _ => some (.overlappingGroups d.id a b)
      | none, [] => dimensionsRefusal (d.id :: seen) rest

/-- Why a grid is refused at save; `none` when it is accepted. -/
def assertMatrixValid (matrix : PriceMatrix) (maxCells : Nat) : Option MatrixRefusal :=
  let required := allCellKeys matrix.dimensions
  let missing := required.filter fun key => (matrix.cells.lookup key).isNone
  let extra := (matrix.cells.map (·.1)).filter fun key => !required.contains key
  if matrix.dimensions.isEmpty then some .noCriterion
  else
    match dimensionsRefusal [] matrix.dimensions with
    | some refusal => some refusal
    | none =>
      if maxCells < expectedCellCount matrix.dimensions then some (.tooManyCells (expectedCellCount matrix.dimensions))
      else
        match missing, extra with
        | key :: _, _ => some (.incomplete missing.length key)
        | [], key :: _ => some (.extra extra.length key)
        | [], [] =>
          match matrix.cells.find? fun cell => cell.2.any fun cents => cents < 0 with
          | some cell => some (.badPrice cell.1)
          | none => if required.all fun key => matrix.cells.lookup key == some none then some .allUnavailable else none

def MAX_CELLS : Nat := 400

def pricedQuestionIds (matrix : Option PriceMatrix) : List String :=
  match matrix with
  | none => []
  | some m => m.dimensions.filterMap fun d =>
    match d with
    | .answer _ questionId _ => some questionId
    | _ => none

structure AnswerDimensionView where
  id : String
  questionId : String
  buckets : List (Bucket (List String))

structure PricingView where
  baseCents : CellValue
  appliedLabels : List String
  answerDimensions : List AnswerDimensionView
  /-- The last write of a key first. -/
  cells : List (String × CellValue)
  ignoredModifierQuestionIds : List String

/-- What of a grid stays open: a profile criterion is resolved, an answer criterion is not. -/
inductive Resolved where
  | profile (bucketId : String)
  | answer (view : AnswerDimensionView)

def resolve (facts : PricingFacts) : Dimension → Resolved
  | .answer id questionId buckets => .answer ⟨id, questionId, buckets⟩
  | d => .profile (bucketFor facts d)

def answerViews : List Resolved → List AnswerDimensionView
  | [] => []
  | .profile _ :: rest => answerViews rest
  | .answer view :: rest => view :: answerViews rest

/-- The full list of groups: the profile's own, the answers' from the combination. -/
def fillIn : List Resolved → List String → List String
  | [], _ => []
  | .profile bucketId :: rest, combination => bucketId :: fillIn rest combination
  | .answer _ :: rest, id :: combination => id :: fillIn rest combination
  | .answer _ :: rest, [] => fillIn rest []

def AnswerDimensionView.groups (view : AnswerDimensionView) : List String :=
    view.buckets.map (·.id) ++ [OTHERS_BUCKET_ID]

def combinations (views : List AnswerDimensionView) : List (List String) :=
  views.foldl (fun acc view => acc.flatMap fun start => view.groups.map fun id => start ++ [id]) [[]]

/-- `cells[key] = value` on a plain object, the last write first: under `__proto__` there is no field to write. -/
def writeCell (cells : List (String × CellValue)) (key : String) (value : CellValue) : List (String × CellValue) :=
  if key = "__proto__" then cells else (key, value) :: cells

def pricingViewFor (matrix : PriceMatrix) (facts : PricingFacts) : PricingView :=
  let resolved := matrix.dimensions.map (resolve facts)
  let views := answerViews resolved
  let cells := (combinations views).foldl
    (fun cells combination => writeCell cells (cellKey combination)
      ((matrix.cells.lookup (cellKey (fillIn resolved combination))).getD none)) []
  { baseCents := (cells.lookup (cellKey (views.map fun _ => OTHERS_BUCKET_ID))).getD none
    appliedLabels := matrix.dimensions.filterMap fun d =>
      match d with
      | .answer .. => none
      | d => d.labelOf (bucketFor facts d)
    answerDimensions := views
    cells := cells
    ignoredModifierQuestionIds := pricedQuestionIds (some matrix) }

/-! ## The page -/

def bucketIdOf (dimension : AnswerDimensionView) (answer : Option Value) : String :=
  let chosen :=
    match answer with
    | some (.list ids) => ids
    | some v => if v.truthy then [v.string] else []
    | none => []
  firstBucket dimension.buckets fun values => chosen.any values.contains

def cellOf (view : PricingView)
    (bucketIdsInOrder : List String) : CellValue := (view.cells.lookup (cellKey bucketIdsInOrder)).getD none

def sliceCell (matrix : PriceMatrix) (profile : Profile) (selections : Selections) : CellValue :=
  let view := pricingViewFor matrix ⟨profile, fun _ => none⟩
  cellOf view (view.answerDimensions.map fun d => bucketIdOf d (selections d.questionId))

section

variable {matrix : PriceMatrix} {profile : Profile} {selections : Selections} {facts : PricingFacts}

structure Accepted (matrix : PriceMatrix) (maxCells : Nat) : Prop where
  nonempty : matrix.dimensions ≠ []
  criteria : dimensionsRefusal [] matrix.dimensions = none
  count : expectedCellCount matrix.dimensions ≤ maxCells
  complete : ∀ key ∈ allCellKeys matrix.dimensions, ∃ value, matrix.cells.lookup key = some value
  nonneg : ∀ cell ∈ matrix.cells, ∀ cents, cell.2 = some cents → 0 ≤ cents

theorem accepted_of_valid {maxCells : Nat}
    (h : assertMatrixValid matrix maxCells = none) : Accepted matrix maxCells := by
  unfold assertMatrixValid at h
  dsimp only at h
  split at h
  · cases h
  rename_i hdims
  split at h
  · cases h
  rename_i hcriteria
  split at h
  · cases h
  split at h
  · cases h
  · cases h
  rename_i hmissing _
  split at h
  · cases h
  rename_i hbad
  refine ⟨by simpa using hdims, hcriteria, by omega, fun key hkey => ?_, fun cell hcell cents hcents => ?_⟩
  · have hfound := filter_eq_nil_iff.mp hmissing key hkey
    rw [Option.isNone_iff_eq_none] at hfound
    exact Option.ne_none_iff_exists'.mp hfound
  · have hgood := find?_eq_none.mp hbad cell hcell
    simpa [hcents] using hgood

theorem accepted_nonneg {maxCells : Nat} (h : assertMatrixValid matrix maxCells = none) {key : String} {cents : Int}
    (hk : matrix.cells.lookup key = some (some cents)) : 0 ≤ cents :=
  (accepted_of_valid h).nonneg _ (mem_of_lookup hk) cents rfl

theorem lookup_written {α : Type} (key : α → String) (value : α → CellValue) (l : List α) {k : String}
    (hk : k ≠ "__proto__") :
    (l.foldl (fun cells b => writeCell cells (key b) (value b)) []).lookup k =
      (l.reverse.find? fun b => key b = k).map value := by
  have hstart : ∀ (l : List α) (cells : List (String × CellValue)),
      (l.foldl (fun cells b => writeCell cells (key b) (value b)) cells).lookup k =
        ((l.reverse.find? fun b => key b = k).map value).or (cells.lookup k) := by
    intro l
    induction l with
    | nil => exact fun _ => rfl
    | cons b rest ih =>
      intro cells
      rw [foldl_cons, ih, reverse_cons, find?_append, writeCell]
      by_cases hb : key b = k
      · cases (rest.reverse.find? fun b => key b = k) <;> simp [hb, hk]
      · have hne : (k == key b) = false := beq_false_of_ne (Ne.symm hb)
        split <;> cases (rest.reverse.find? fun b => key b = k) <;> simp [hb, hne, lookup_cons]
  rw [hstart l []]
  cases (l.reverse.find? fun b => key b = k) <;> rfl

theorem mem_foldl_groups {α : Type} (groups : α → List String) {xs : List α} {acc : List (List String)}
    {c : List String} :
    c ∈ xs.foldl (fun acc x => acc.flatMap fun start => (groups x).map fun id => start ++ [id]) acc ↔
      ∃ start ∈ acc, ∃ rest, List.Forall₂ (fun id x => id ∈ groups x) rest xs ∧ c = start ++ rest := by
  induction xs generalizing acc with
  | nil => simp
  | cons x xs ih =>
    rw [foldl_cons, ih]
    constructor
    · rintro ⟨start, hstart, tail, htail, rfl⟩
      obtain ⟨before, hbefore, hmap⟩ := mem_flatMap.mp hstart
      obtain ⟨id, hid, rfl⟩ := mem_map.mp hmap
      exact ⟨before, hbefore, id :: tail, .cons hid htail, by simp⟩
    · rintro ⟨before, hbefore, tail, htail, rfl⟩
      cases htail with
      | @cons id _ tail _ hid htail =>
        exact ⟨before ++ [id], mem_flatMap.mpr ⟨before, hbefore, mem_map_of_mem hid⟩, tail, htail, by simp⟩

theorem mem_combinations_iff {views : List AnswerDimensionView} {c : List String} :
    c ∈ combinations views ↔ List.Forall₂ (fun id view => id ∈ view.groups) c views := by
  rw [combinations, mem_foldl_groups AnswerDimensionView.groups]
  simp

theorem mem_combinations (views : List AnswerDimensionView) (pick : AnswerDimensionView → String)
    (h : ∀ view ∈ views, pick view ∈ view.groups) : views.map pick ∈ combinations views := by
  rw [mem_combinations_iff, List.forall₂_map_left_iff, List.forall₂_same]
  exact h

theorem lookup_unwritable {α : Type} (key : α → String) (value : α → CellValue) (l : List α) :
    (l.foldl (fun cells b => writeCell cells (key b) (value b)) []).lookup "__proto__" = none := by
  have hstart : ∀ (l : List α) (cells : List (String × CellValue)), cells.lookup "__proto__" = none →
      (l.foldl (fun cells b => writeCell cells (key b) (value b)) cells).lookup "__proto__" = none := by
    intro l
    induction l with
    | nil => exact fun _ h => h
    | cons b rest ih =>
      intro cells h
      refine ih _ ?_
      dsimp only [writeCell]
      split
      · exact h
      · rename_i hb
        rw [lookup_cons, beq_false_of_ne (Ne.symm hb)]
        exact h
  exact hstart l [] rfl

theorem eq_of_getD {found : Option CellValue} {cents : Int}
    (h : found.getD none = some cents) : found = some (some cents) := by
  cases found with
  | none => cases h
  | some cell => exact congrArg some h

theorem bucketIdOf_mem (view : AnswerDimensionView) (answer : Option Value) : bucketIdOf view answer ∈ view.groups := by
  unfold bucketIdOf AnswerDimensionView.groups
  exact firstBucket_mem _ _

def openCriteria (matrix : PriceMatrix) (profile : Profile) : List AnswerDimensionView :=
  answerViews (matrix.dimensions.map (resolve ⟨profile, fun _ => none⟩))

/-- What the grid says of one combination of the answer criteria, for this profile. -/
def gridPrice (matrix : PriceMatrix) (profile : Profile) (combination : List String) : CellValue :=
  (matrix.cells.lookup (cellKey
    (fillIn (matrix.dimensions.map (resolve ⟨profile, fun _ => none⟩)) combination))).getD none

/-- The page reads the last combination with the key of its own, and nothing under the key that cannot be written. -/
theorem sliceCell_last {own : List String}
    (hown : (openCriteria matrix profile).map (fun d => bucketIdOf d (selections d.questionId)) = own) :
    sliceCell matrix profile selections =
      if cellKey own = "__proto__" then none
      else (((combinations (openCriteria matrix profile)).reverse.find? fun c => cellKey c = cellKey own).map
        (gridPrice matrix profile)).getD none := by
  have hcell : sliceCell matrix profile selections = (((combinations (openCriteria matrix profile)).foldl
      (fun cells c => writeCell cells (cellKey c) (gridPrice matrix profile c)) []).lookup
        (cellKey own)).getD none := by
    rw [← hown]
    rfl
  rw [hcell]
  split
  · rename_i hproto
    rw [hproto, lookup_unwritable]
    rfl
  · rename_i hproto
    rw [lookup_written cellKey (gridPrice matrix profile) _ hproto]

theorem sliceCell_nonneg {maxCells : Nat} (h : assertMatrixValid matrix maxCells = none) {cents : Int}
    (hs : sliceCell matrix profile selections = some cents) : 0 ≤ cents := by
  rw [sliceCell_last rfl] at hs
  split at hs
  · cases hs
  · obtain ⟨c, -, hc⟩ := Option.map_eq_some_iff.mp (eq_of_getD hs)
    exact accepted_nonneg h (eq_of_getD hc)

/-- The answers' groups put back among the profile's are the groups the server finds. -/
theorem fillIn_eq (start : PricingFacts) (pick : AnswerDimensionView → String) {dimensions : List Dimension}
    (hprofile : facts.toProfile = start.toProfile)
    (hpick : ∀ id q b, .answer id q b ∈ dimensions → pick ⟨id, q, b⟩ = bucketFor facts (.answer id q b)) :
    fillIn (dimensions.map (resolve start)) ((answerViews (dimensions.map (resolve start))).map pick) = dimensions.map
      (bucketFor facts) := by
  induction dimensions with
  | nil => rfl
  | cons d rest ih =>
    have hrest := ih fun id q b hmem => hpick id q b (mem_cons_of_mem _ hmem)
    cases d with
    | answer id q b => simp only [map_cons, resolve, answerViews, fillIn, hrest, hpick id q b mem_cons_self]
    | cotisation id b => simp [resolve, answerViews, fillIn, hrest, bucketFor, hprofile]
    | promo id b => simp [resolve, answerViews, fillIn, hrest, bucketFor, hprofile]
    | formation id b => simp [resolve, answerViews, fillIn, hrest, bucketFor, hprofile]

theorem mem_openCriteria {view : AnswerDimensionView} (h : view ∈ openCriteria matrix profile) :
    .answer view.id view.questionId view.buckets ∈ matrix.dimensions := by
  unfold openCriteria at h
  generalize matrix.dimensions = dimensions at h ⊢
  induction dimensions with
  | nil => cases h
  | cons d rest ih =>
    cases d with
    | answer id q b =>
      rcases mem_cons.mp h with rfl | h
      · exact mem_cons_self
      · exact mem_cons_of_mem _ (ih h)
    | _ => exact mem_cons_of_mem _ (ih h)

theorem gridPrice_eq (pick : AnswerDimensionView → String) (hprofile : facts.toProfile = profile)
    (hpick : ∀ id q b, .answer id q b ∈ matrix.dimensions → pick ⟨id, q, b⟩ = bucketFor facts (.answer id q b)) :
    gridPrice matrix profile ((openCriteria matrix profile).map pick) = (resolveCellPrice matrix facts).getD none := by
  unfold gridPrice resolveCellPrice cellKeyFor openCriteria
  rw [fillIn_eq ⟨profile, fun _ => none⟩ pick hprofile hpick]

end

end Canari.Forms.Fill
