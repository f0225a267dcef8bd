/-
  Canari.Forms.FillPrice — the total a fill page shows and the total `submit` charges
  (frontend lib/forms/fillPricing.ts, social-service FormsService.submit).

  Supplements, grid lines and the floor at zero agree on every form and every selection. What
  can differ is the base price, and the questions shown:
  - the page shows a question whose condition is met by a selection left in a hidden one
    (`staleChain`), and charges its supplement;
  - the page looks the base price up with the selections of hidden questions too
    (`hiddenPriced`), where `submit` prices the visible answers only;
  - two combinations of the slice can share a key (`sharedKey`).
  `page_agrees_iff` says exactly when the two agree: no condition is met by a stale selection, and
  of the combinations whose ids join to the key of the groups held the last is priced, in the grid
  as it is saved, like the groups on screen. Where each group held is the one on screen and no
  group id holds the separator the second always is so (`pricedAlike_of_plain`).

  What `submit` refuses before it reads the answers (dates, sizes, identity, files) is not here.
-/

import Mathlib.Algebra.Ring.Int.Defs
import Canari.Forms.CellKeys
import Mathlib.Algebra.Order.BigOperators.Group.List

namespace Canari.Forms.Fill

open List

/-- What a save accepts: ids unique (`assertUniqueItemIds`), no negative price, a valid grid. -/
structure Form where
  items : List FormItem
  basePrice : Int
  priceMatrix : Option PriceMatrix
  submitCondition : Option AudienceCondition
  unique : (items.map (·.id)).Nodup
  baseNonneg : 0 ≤ basePrice
  accepted : ∀ m ∈ priceMatrix, assertMatrixValid m MAX_CELLS = none

/-! ## The page -/

def isItemAnswered (item : FormItem) (value : Option Value) : Bool :=
  if isProductGrid item then hasOrderedUnits value
  else if isMatrix item then
    match value.bind Value.entries with
    | none => false
    | some rows =>
      let answered := fun row => (rows.lookup row).any Field.hasValue
      if item.requireEveryRow then item.rows.all answered else item.rows.any answered
  else hasValue value

def pricedQuestionsAwaitingAnswer (visible : List FormItem) (pricedQuestionIds : List String)
    (selections : Selections) : List String :=
  (visible.filter fun item =>
    pricedQuestionIds.contains item.id && item.required && !isItemAnswered item (selections item.id)).map (·.id)

structure FillPriceState where
  baseCents : CellValue
  priceDecided : Bool
  priceUnavailable : Bool
  priceCents : Int
  unavailableOptionIds : List String
  pricedByGrid : List String
  gridLines : List ProductGridLine
  gridCents : Int
  total : Int
  appliedLabels : List String

def modifierOf (item : FormItem) (optionId : String) : Int :=
  match item.options.find? (·.id == optionId) with
  | some opt => opt.priceModifier
  | none => 0

def supplementOf (pricedByGrid : List String) (item : FormItem) (value : Option Value) : Int :=
  match value with
  | none => 0
  | some v =>
    if !v.truthy || pricedByGrid.contains item.id then 0
    else
      match item.type, v with
      | .singleChoice, .text id => modifierOf item id
      | .dropdown, .text id => modifierOf item id
      | .multipleChoice, .list ids => (ids.map (modifierOf item)).sum
      | _, _ => 0

def productGridOrderLines (visible : List FormItem) (selections : Selections)
    (prices : List (String × ProductGridViewerPrices)) :
    List ProductGridLine :=
  visible.flatMap fun item =>
    match item.type with
    | .productGrid grid => pageGridLines item.id item.label grid (selections item.id) (prices.lookup item.id)
    | _ => []

/-- Options that would land on a combination that does not exist, one criterion at a time. -/
def unavailableOptions (view : PricingView) (items : List FormItem) (awaiting : List String)
    (current : List String) : List String :=
  view.answerDimensions.zipIdx.flatMap fun (dimension, index) =>
    let othersPending := view.answerDimensions.zipIdx.any fun (other, j) =>
      j != index && awaiting.contains other.questionId
    if othersPending then []
    else
      match items.find? (·.id == dimension.questionId) with
      | none => []
      | some item => (item.options.filter fun option => option.id != "" &&
          (cellOf view (current.set index (bucketIdOf dimension (some (.text option.id))))).isNone).map (·.id)

def fillPriceState (basePrice : Int) (pricing : Option PricingView) (items visible : List FormItem)
    (selections : Selections)
    (prices : List (String × ProductGridViewerPrices)) : FillPriceState :=
  let current := fun view : PricingView => view.answerDimensions.map fun d => bucketIdOf d (selections d.questionId)
  let baseCents := match pricing with
    | none => some basePrice
    | some view => cellOf view (current view)
  let awaiting := match pricing with
    | none => []
    | some view => pricedQuestionsAwaitingAnswer visible (view.answerDimensions.map (·.questionId)) selections
  let priceDecided := awaiting.isEmpty
  let pricedByGrid := match pricing with
    | none => []
    | some view => view.ignoredModifierQuestionIds
  let gridLines := productGridOrderLines visible selections prices
  let gridCents := productGridTotalCents gridLines
  let total := match priceDecided, baseCents with
    | true, some base => max 0 (base + (visible.map fun item => supplementOf pricedByGrid item (selections item.id)).sum + gridCents)
    | _, _ => 0
  { baseCents, priceDecided, pricedByGrid, gridLines, gridCents, total
    priceUnavailable := priceDecided && baseCents.isNone
    priceCents := baseCents.getD 0
    unavailableOptionIds := match pricing with
      | none => []
      | some view => unavailableOptions view items awaiting (current view)
    appliedLabels := match pricing with
      | none => []
      | some view => view.appliedLabels }

/-- Each grid's prices for this person; `none` is the throw of a list missing, on no saved grid. -/
def productGridPricesFor (facts : PricingFacts) : List FormItem → Option (List (String × ProductGridViewerPrices))
  | [] => some []
  | item :: rest =>
    match item.type with
    | .productGrid grid =>
      match viewerPricesFor grid facts, productGridPricesFor facts rest with
      | some viewer, some prices => some ((item.id, viewer) :: prices)
      | _, _ => none
    | _ => productGridPricesFor facts rest

def fillPage (form : Form) (profile : Profile) (selections : Selections) : FillPriceState :=
  let facts : PricingFacts := ⟨profile, fun _ => none⟩
  fillPriceState form.basePrice (form.priceMatrix.map fun m => pricingViewFor m facts) form.items
    (visibleItems form.items selections (hiddenFor form.items profile)) selections
      ((productGridPricesFor facts form.items).getD [])

/-! ## The server -/

def PROVIDER_MAX_AMOUNT_CENTS : Int := 100000

inductive Refusal where
  | gridAnswerInvalid (itemId : String)
  | notOpenToYou
  | cotisationHeld
  | answerNotAnOption (itemId : String)
  | noCell (key : String)
  | combinationUnavailable
  | grid (failure : GridFailure)
  | answerMissing (itemId : String)
  | orderEmpty
  | amountOutOfRange (totalCents : Int)
  deriving DecidableEq

def validCell (item : FormItem) (cell : Field) : Bool :=
  let columns := (item.options.map (·.id)).filter (· != "")
  match item.type, cell with
  | .matrixMultiple, .list ids => ids.Nodup && ids.all columns.contains
  | .matrixMultiple, _ => false
  | _, .text id => columns.contains id
  | _, _ => false

def normaliseRows (item : FormItem) : List (String × Field) → Except Refusal (List (String × Field))
  | [] => .ok []
  | (row, cell) :: rest =>
    if !item.rows.contains row then .error (.gridAnswerInvalid item.id)
    else if !cell.hasValue then normaliseRows item rest
    else if !validCell item cell then .error (.gridAnswerInvalid item.id)
    else (normaliseRows item rest).map ((row, cell) :: ·)

/-- A survey grid's answer checked and stripped of its empty rows; `none` when no row is answered. -/
def normaliseGridAnswer (item : FormItem) (value : Value) : Except Refusal (Option Value) :=
  match value with
  | .text s => if s = "" then .ok none else .error (.gridAnswerInvalid item.id)
  | .number _ | .list _ => .error (.gridAnswerInvalid item.id)
  | .object fields => (normaliseRows item fields).map fun kept => if kept.isEmpty then none else some (.object kept)

def Value.isRowMap : Value → Bool
  | .object _ => true
  | _ => false

/-- What becomes of one answer; `none` leaves it out. -/
def normaliseAnswer (items : List FormItem) (key : String) (value : Value) : Except Refusal (Option Value) :=
  match byId items key with
  | some item =>
    if isMatrix item then normaliseGridAnswer item value
    else if isProductGrid item then .ok (some value)
    else if value.isRowMap then .error (.gridAnswerInvalid item.id)
    else .ok (some value)
  | none => if value.isRowMap then .ok none else .ok (some value)

def withNormalisedGridAnswers (items : List FormItem) : Answers → Except Refusal Answers
  | [] => .ok []
  | (key, value) :: rest =>
    match normaliseAnswer items key value with
    | .error refusal => .error refusal
    | .ok kept => (withNormalisedGridAnswers items rest).map ((kept.map fun v => (key, v)).toList ++ ·)

def isQuestionAnswered (item : FormItem) (value : Option Value) : Bool :=
  if isMatrix item then
    match value with
    | some (.object rows) =>
      if item.requireEveryRow then item.rows.all fun row => (rows.lookup row).any Field.hasValue
      else rows.any fun (_, cell) => cell.hasValue
    | _ => false
  else hasValue value

def isChoiceQuestion (item : FormItem) : Bool :=
  match item.type with
  | .singleChoice | .dropdown | .multipleChoice => true
  | _ => false

def decidesPrice (item : FormItem) (gridQuestions : List String) : Bool :=
  gridQuestions.contains item.id || (isChoiceQuestion item && item.options.any fun o => 0 < o.priceModifier)

def isEmptyChoice : Option Value → Bool
  | none => true
  | some (.text s) => s = ""
  | some (.list ids) => ids.isEmpty
  | _ => false

/-- The option ids a choice answer names, `none` when its shape is not the question's. -/
def chosenOptions (item : FormItem) (value : Option Value) : Option (List String) :=
  match item.type, value with
  | .singleChoice, some (.text id) => some [id]
  | .dropdown, some (.text id) => some [id]
  | .multipleChoice, some (.list ids) => some ids
  | _, _ => none

def declaredOptions (item : FormItem) : List String := (item.options.map (·.id)).filter (· != "")

/-- Whether one visible item's answer names its own options and nothing else, where that decides a price. -/
def declaredAnswer (gridQuestions : List String) (item : FormItem) (value : Option Value) : Bool :=
  !decidesPrice item gridQuestions || isEmptyChoice value ||
    (chosenOptions item value).any fun chosen => chosen.Nodup && chosen.all (declaredOptions item).contains

def assertDeclaredOptionAnswers (items : List FormItem) (answers : Answers)
    (visible gridQuestions : List String) : Option Refusal :=
  (items.find? fun item => visible.contains item.id && !declaredAnswer gridQuestions item (answers.lookup item.id)).map
    fun item => .answerNotAnOption item.id

def submitRefusal (condition : Option AudienceCondition) (facts : PricingFacts) : Option Refusal :=
  match condition with
  | none => none
  | some c =>
    match failedCriterion c facts with
    | none => none
    | some .notCotisation => some .cotisationHeld
    | some _ => some .notOpenToYou

def priceFor (form : Form) (facts : PricingFacts) : Except Refusal CellValue :=
  match form.priceMatrix with
  | none => .ok (some form.basePrice)
  | some m =>
    match resolveCellPrice m facts with
    | none => .error (.noCell (cellKeyFor m facts))
    | some cell => .ok cell

def addModifier (item : FormItem) (total : Int) (optionId : String) : Int :=
  match item.options.find? (·.id == optionId) with
  | some opt => if 0 < opt.priceModifier then total + opt.priceModifier else total
  | none => total

def calculateModifiers (item : FormItem) (answer : Value) (total : Int) : Int :=
  match answer with
  | .list ids => ids.foldl (addModifier item) total
  | .text id => addModifier item total id
  | _ => total

structure Charge where
  totalCents : Int
  gridLines : List ProductGridLine
  visibleGrids : Nat
  orderedUnits : Int

def chargeItem (facts : PricingFacts) (pricedQuestions : List String) (answer : Option Value) (charge : Charge)
    (item : FormItem) :
    Except Refusal Charge :=
  match item.type with
  | .productGrid grid =>
    match priceProductGridAnswer item.id item.label grid answer facts with
    | .error failure => .error (.grid failure)
    | .ok priced => .ok { charge with
        gridLines := charge.gridLines ++ priced.lines
        visibleGrids := charge.visibleGrids + 1
        orderedUnits := charge.orderedUnits + priced.units }
  | _ =>
    if item.required && !isQuestionAnswered item answer then .error (.answerMissing item.id)
    else
      match answer with
      | none => .ok charge
      | some v =>
        if v.truthy && isChoiceQuestion item && !item.options.isEmpty && !pricedQuestions.contains item.id then
          .ok { charge with totalCents := calculateModifiers item v charge.totalCents }
        else .ok charge

def chargeItems (facts : PricingFacts) (pricedQuestions visible : List String) (answers : Answers) :
    Charge → List FormItem → Except Refusal Charge
  | charge, [] => .ok charge
  | charge, item :: rest =>
    if visible.contains item.id then
      match chargeItem facts pricedQuestions (answers.lookup item.id) charge item with
      | .error refusal => .error refusal
      | .ok charge => chargeItems facts pricedQuestions visible answers charge rest
    else chargeItems facts pricedQuestions visible answers charge rest

def totalOf (charge : Charge) : Except Refusal Int :=
  if 0 < charge.visibleGrids && charge.orderedUnits = 0 then .error .orderEmpty
  else if charge.gridLines.isEmpty then .ok charge.totalCents
  else
    let total := charge.totalCents + productGridTotalCents charge.gridLines
    if PROVIDER_MAX_AMOUNT_CENTS < total then .error (.amountOutOfRange total) else .ok total

/-- The total of `submit`, from the answers as sent. -/
def submit (form : Form) (profile : Profile) (sent : Answers) : Except Refusal Int :=
  match withNormalisedGridAnswers form.items sent with
  | .error refusal => .error refusal
  | .ok answers =>
    let facts : PricingFacts := ⟨profile, answerSelections form.items answers⟩
    let visible := visibleItemIds form.items facts
    let visibleOnly : PricingFacts := ⟨profile, fun q => if visible.contains q then facts.answers q else none⟩
    match submitRefusal form.submitCondition facts,
      assertDeclaredOptionAnswers form.items answers visible (pricedQuestionIds form.priceMatrix) with
    | some refusal, _ => .error refusal
    | none, some refusal => .error refusal
    | none, none =>
      match priceFor form visibleOnly with
      | .error refusal => .error refusal
      | .ok none => .error .combinationUnavailable
      | .ok (some baseCents) =>
        match chargeItems facts (pricedQuestionIds form.priceMatrix) visible answers ⟨baseCents, [], 0,
          0⟩ form.items with
        | .error refusal => .error refusal
        | .ok charge => totalOf charge

def sentAnswers (form : Form) (profile : Profile) (selections : Selections) : Answers :=
  visibleAnswers (visibleItems form.items selections (hiddenFor form.items profile)) selections

/-! ## Supplements and lines -/

section Charge

variable {form : Form} {profile : Profile} {selections : Selections} {facts : PricingFacts} {item : FormItem}
    {priced : List String}

theorem modifierOf_nonneg (item : FormItem) (optionId : String) : 0 ≤ modifierOf item optionId := by
  unfold modifierOf
  split
  · next opt _ => exact opt.nonneg
  · exact Int.le_refl 0

theorem addModifier_eq (item : FormItem) (total : Int) (optionId : String) :
    addModifier item total optionId = total + modifierOf item optionId := by
  unfold addModifier modifierOf
  split
  · next opt _ =>
    have := opt.nonneg
    split <;> omega
  · omega

def modifiersOf (item : FormItem) : Value → Int
  | .list ids => (ids.map (modifierOf item)).sum
  | .text id => modifierOf item id
  | _ => 0

theorem calculateModifiers_eq (item : FormItem) (v : Value)
    (total : Int) : calculateModifiers item v total = total + modifiersOf item v := by
  cases v with
  | list ids =>
    show ids.foldl (addModifier item) total = total + (ids.map (modifierOf item)).sum
    induction ids generalizing total with
    | nil => simp
    | cons id rest ih =>
      rw [foldl_cons, ih, addModifier_eq, map_cons, sum_cons]
      omega
  | text id => exact addModifier_eq item total id
  | number n => exact (Int.add_zero total).symm
  | object fields => exact (Int.add_zero total).symm

theorem modifiersOf_free (h : ∀ o ∈ item.options, ¬ 0 < o.priceModifier) (v : Value) : modifiersOf item v = 0 := by
  have hzero : ∀ id, modifierOf item id = 0 := by
    intro id
    unfold modifierOf
    split
    · next opt hopt =>
      have h1 := h opt (mem_of_find?_eq_some hopt)
      have h2 := opt.nonneg
      omega
    · rfl
  cases v with
  | list ids => simp [modifiersOf, show modifierOf item = fun _ => 0 from funext hzero]
  | text id => exact hzero id
  | number n => rfl
  | object fields => rfl

theorem modifiersOf_no_options (h : item.options = []) (v : Value) : modifiersOf item v = 0 :=
  modifiersOf_free (by rw [h]; intro o ho; cases ho) v

def chargedFor (priced : List String) (item : FormItem) (answer : Option Value) : Int :=
  match answer with
  | none => 0
  | some v => if v.truthy && isChoiceQuestion item && !priced.contains item.id then modifiersOf item v else 0

theorem free_of_wrong_shape {v : Value} (hdeclared : declaredAnswer priced item (some v) = true)
    (hshape : chosenOptions item (some v) = none)
    (hfull : isEmptyChoice (some v) = false) (hchoice : isChoiceQuestion item = true) : modifiersOf item v = 0 := by
  unfold declaredAnswer at hdeclared
  rw [hshape, hfull] at hdeclared
  simp only [Option.any_none, Bool.or_false, Bool.not_eq_eq_eq_not, Bool.not_true] at hdeclared
  unfold decidesPrice at hdeclared
  simp only [hchoice, Bool.true_and, Bool.or_eq_false_iff, any_eq_false, decide_eq_true_eq] at hdeclared
  exact modifiersOf_free hdeclared.2 v

theorem sentValue_choice (hchoice : isChoiceQuestion item = true) (value : Option Value) :
    sentValue item value = if hasValue value then value else none := by
  unfold sentValue isProductGrid isMatrix
  unfold isChoiceQuestion at hchoice
  cases hty : item.type <;> simp [hty] at hchoice ⊢

theorem supplementOf_some (v : Value) :
    supplementOf priced item (some v) =
      if !v.truthy || priced.contains item.id || (chosenOptions item (some v)).isNone then 0 else
        modifiersOf item v := by
  unfold supplementOf chosenOptions
  dsimp only
  by_cases hskip : (!v.truthy || priced.contains item.id) = true
  · rw [if_pos hskip, hskip, Bool.true_or, if_pos rfl]
  · rw [Bool.eq_false_iff.mpr hskip]
    cases item.type <;> cases v <;> rfl

theorem isNone_chosenOptions (hchoice : isChoiceQuestion item = false)
    (v : Value) : (chosenOptions item (some v)).isNone = true := by
  unfold isChoiceQuestion at hchoice
  unfold chosenOptions
  cases hty : item.type <;> simp [hty] at hchoice ⊢

theorem supplementOf_of_not_choice (hchoice : isChoiceQuestion item = false)
    (value : Option Value) : supplementOf priced item value = 0 := by
  cases value with
  | none => rfl
  | some v => rw [supplementOf_some, isNone_chosenOptions hchoice, Bool.or_true, if_pos rfl]

theorem chargedFor_of_not_choice (hchoice : isChoiceQuestion item = false)
    (answer : Option Value) : chargedFor priced item answer = 0 := by
  cases answer with
  | none => rfl
  | some v => rw [chargedFor, hchoice, Bool.and_false, Bool.false_and, if_neg Bool.false_ne_true]

theorem supplementOf_of_no_value {v : Value}
    (h : hasValue (some v) = false) : supplementOf priced item (some v) = 0 := by
  rw [supplementOf_some]
  cases v with
  | text s =>
    have hs : (Value.text s).truthy = false := h
    rw [hs, Bool.not_false, Bool.true_or, Bool.true_or, if_pos rfl]
  | list ids =>
    obtain rfl : ids = [] := by simpa [hasValue] using h
    rw [show modifiersOf item (.list []) = 0 from rfl, ite_self]
  | number n => cases h
  | object fields => cases h

theorem isEmptyChoice_of_value {v : Value} (h : hasValue (some v) = true) : isEmptyChoice (some v) = false := by
  cases v with
  | text s => simpa [isEmptyChoice, hasValue] using h
  | list ids => simpa [isEmptyChoice, hasValue] using h
  | number n => rfl
  | object fields => rfl

theorem supplementOf_eq (value : Option Value) (hdeclared : declaredAnswer priced item (sentValue item value) = true) :
    supplementOf priced item value = chargedFor priced item (sentValue item value) := by
  cases hchoice : isChoiceQuestion item with
  | false => rw [supplementOf_of_not_choice hchoice, chargedFor_of_not_choice hchoice]
  | true =>
    rw [sentValue_choice hchoice] at hdeclared ⊢
    cases value with
    | none => rfl
    | some v =>
      cases hhas : hasValue (some v) with
      | false =>
        rw [supplementOf_of_no_value hhas]
        rfl
      | true =>
        rw [hhas] at hdeclared
        rw [if_pos rfl, supplementOf_some, chargedFor, hchoice]
        cases hshape : chosenOptions item (some v) with
        | none =>
          rw [free_of_wrong_shape hdeclared hshape (isEmptyChoice_of_value hhas) hchoice, ite_self, ite_self]
        | some chosen =>
          cases v.truthy <;> cases priced.contains item.id <;> rfl

theorem supplementOf_nonneg (priced : List String) (item : FormItem)
    (value : Option Value) : 0 ≤ supplementOf priced item value := by
  unfold supplementOf
  split
  · exact Int.le_refl 0
  · split
    · exact Int.le_refl 0
    · split
      · exact modifierOf_nonneg item _
      · exact modifierOf_nonneg item _
      · refine sum_nonneg fun x hx => ?_
        obtain ⟨id, _, rfl⟩ := mem_map.mp hx
        exact modifierOf_nonneg item id
      · exact Int.le_refl 0

def itemLines (item : FormItem) (value : Option Value)
    (viewer : Option ProductGridViewerPrices) : List ProductGridLine :=
  match item.type with
  | .productGrid grid => pageGridLines item.id item.label grid value viewer
  | _ => []

/-- One item of the loop adds what the page adds. -/
theorem chargeItem_eq {charge charge' : Charge} {value : Option Value} (viewer : Option ProductGridViewerPrices)
    (hdeclared : declaredAnswer priced item (sentValue item value) = true)
    (hviewer : ∀ grid, item.type = .productGrid grid → viewer = viewerPricesFor grid facts)
    (h : chargeItem facts priced (sentValue item value) charge item = .ok charge') :
    charge'.totalCents = charge.totalCents + supplementOf priced item value ∧
      charge'.gridLines = charge.gridLines ++ itemLines item value viewer ∧
        0 ≤ productGridTotalCents (itemLines item value viewer) := by
  rw [supplementOf_eq value hdeclared]
  unfold chargeItem at h
  cases hty : item.type with
  | productGrid grid =>
    have hsent : sentValue item value = sentOrder value := by simp [sentValue, isProductGrid, hty]
    have hfree : chargedFor priced item (sentValue item value) = 0 := by
      unfold chargedFor
      cases sentValue item value <;> simp [isChoiceQuestion, hty]
    rw [hfree]
    rw [hty, hsent] at h
    dsimp only at h
    split at h
    · cases h
    · next pricedAnswer hpriced =>
      obtain ⟨v, hv⟩ := viewerPricesFor_isSome grid facts
      have hlines : itemLines item value viewer = pricedAnswer.lines := by
        unfold itemLines
        rw [hty, hviewer grid hty, hv]
        exact pageGridLines_eq hv hpriced
      cases h
      rw [hlines]
      exact ⟨(Int.add_zero _).symm, rfl, priced_nonneg hpriced⟩
  | _ =>
    have hnone : itemLines item value viewer = [] := by unfold itemLines; rw [hty]
    rw [hnone, append_nil]
    rw [hty] at h
    dsimp only at h
    split at h
    · cases h
    · unfold chargedFor
      cases hsent : sentValue item value with
      | none =>
        rw [hsent] at h
        cases h
        exact ⟨(Int.add_zero _).symm, rfl, Int.le_refl 0⟩
      | some v =>
        rw [hsent] at h
        dsimp only at h ⊢
        by_cases hopt : item.options = []
        · rw [modifiersOf_no_options hopt]
          rw [hopt] at h
          simp only [isEmpty_nil, Bool.not_true, Bool.and_false, Bool.false_and, Bool.false_eq_true, if_false] at h
          cases h
          exact ⟨by simp, rfl, Int.le_refl 0⟩
        · have hne : item.options.isEmpty = false := by simpa using hopt
          rw [hne] at h
          simp only [Bool.not_false, Bool.and_true] at h
          split at h
          · next hcond =>
            cases h
            rw [if_pos hcond]
            exact ⟨calculateModifiers_eq item v _, rfl, Int.le_refl 0⟩
          · next hcond =>
            cases h
            rw [if_neg hcond]
            exact ⟨(Int.add_zero _).symm, rfl, Int.le_refl 0⟩

/-- The whole loop, over any part of the items. -/
theorem chargeItems_eq (selections : Selections) (prices : List (String × ProductGridViewerPrices))
    {answers : Answers} {visible : List String}
    {rest : List FormItem} {charge charge' : Charge}
    (hsent : ∀ item ∈ rest, visible.contains item.id = true →
    answers.lookup item.id = sentValue item (selections item.id))
    (hdeclared : ∀ item ∈ rest, visible.contains item.id = true →
    declaredAnswer priced item (answers.lookup item.id) = true)
    (hprices : ∀ item ∈ rest, ∀ grid, item.type = .productGrid grid →
    prices.lookup item.id = viewerPricesFor grid facts)
    (h : chargeItems facts priced visible answers charge rest = .ok charge') :
    charge'.totalCents = charge.totalCents +
        ((rest.filter fun item => visible.contains item.id).map
          fun item => supplementOf priced item (selections item.id)).sum ∧
      charge'.gridLines = charge.gridLines ++
        productGridOrderLines (rest.filter fun item => visible.contains item.id) selections prices ∧
      0 ≤ productGridTotalCents
        (productGridOrderLines (rest.filter fun item => visible.contains item.id) selections prices) := by
  induction rest generalizing charge with
  | nil => cases h; exact ⟨by simp, by simp [productGridOrderLines], Int.le_refl 0⟩
  | cons item rest ih =>
    have hsent' := fun i hi => hsent i (mem_cons_of_mem _ hi)
    have hdeclared' := fun i hi => hdeclared i (mem_cons_of_mem _ hi)
    have hprices' := fun i hi => hprices i (mem_cons_of_mem _ hi)
    unfold chargeItems at h
    by_cases hv : visible.contains item.id = true
    · rw [if_pos hv] at h
      split at h
      · cases h
      · next c hc =>
        have hans := hsent item mem_cons_self hv
        have hdec := hdeclared item mem_cons_self hv
        rw [hans] at hc hdec
        obtain ⟨htotal, hlines, hnonneg⟩ := chargeItem_eq (prices.lookup item.id) hdec (hprices item mem_cons_self) hc
        obtain ⟨htotal', hlines', hnonneg'⟩ := ih hsent' hdeclared' hprices' h
        have hcons : productGridOrderLines ((item :: rest).filter fun i => visible.contains i.id) selections prices =
            itemLines item (selections item.id) (prices.lookup item.id) ++
              productGridOrderLines (rest.filter fun i => visible.contains i.id) selections prices := by
          rw [filter_cons_of_pos (by exact hv)]
          rfl
        refine ⟨?_, ?_, ?_⟩
        · rw [filter_cons_of_pos (by exact hv), map_cons, sum_cons]
          omega
        · rw [hcons, hlines', hlines, append_assoc]
        · rw [hcons]
          unfold productGridTotalCents at *
          rw [map_append, sum_append]
          omega
    · rw [if_neg hv] at h
      rw [filter_cons_of_neg (by exact hv)]
      exact ih hsent' hdeclared' hprices' h

/-! ## What is sent is what is read -/

theorem normaliseRows_id {rows kept : List (String × Field)} (hfull : ∀ row ∈ rows, row.2.hasValue = true)
    (h : normaliseRows item rows = .ok kept) : kept = rows := by
  induction rows generalizing kept with
  | nil => cases h; rfl
  | cons row rest ih =>
    obtain ⟨name, cell⟩ := row
    have hcell : cell.hasValue = true := hfull _ mem_cons_self
    unfold normaliseRows at h
    rw [hcell] at h
    simp only [Bool.not_true, Bool.false_eq_true, if_false] at h
    split at h
    · cases h
    split at h
    · cases h
    cases hrest : normaliseRows item rest with
    | error refusal => rw [hrest] at h; cases h
    | ok more =>
      rw [hrest] at h
      cases h
      rw [ih (fun r hr => hfull r (mem_cons_of_mem _ hr)) hrest]

/-- The page leaves nothing for the server to strip. -/
theorem normaliseAnswer_id {items : List FormItem} {value : Option Value} {v : Value} {kept : Option Value}
    (hbyId : byId items item.id = some item) (hsent : sentValue item value = some v)
    (h : normaliseAnswer items item.id v = .ok kept) : kept = some v := by
  unfold normaliseAnswer at h
  rw [hbyId] at h
  dsimp only at h
  by_cases hmatrix : isMatrix item = true
  · rw [if_pos hmatrix] at h
    have hgrid : isProductGrid item = false := by
      unfold isMatrix at hmatrix
      unfold isProductGrid
      cases hty : item.type <;> simp_all
    unfold sentValue at hsent
    rw [hgrid, if_neg (by decide), if_pos hmatrix] at hsent
    split at hsent
    · cases hsent
    · next entries _ =>
      dsimp only at hsent
      split_ifs at hsent with hempty
      cases hsent
      unfold normaliseGridAnswer at h
      dsimp only at h
      cases hrows : normaliseRows item (entries.filter fun x => x.2.hasValue) with
      | error refusal => rw [hrows] at h; cases h
      | ok rows =>
        obtain rfl := normaliseRows_id (fun row hr => (mem_filter.mp hr).2) hrows
        rw [hrows] at h
        cases h
        exact if_neg hempty
  · rw [if_neg hmatrix] at h
    split at h
    · cases h; rfl
    · split at h
      · cases h
      · cases h; rfl

theorem withNormalised_id {items visible : List FormItem} {answers : Answers} (hunique : (items.map (·.id)).Nodup)
    (hsub : ∀ item ∈ visible, item ∈ items)
    (h : withNormalisedGridAnswers items (visibleAnswers visible selections) = .ok answers) :
    answers = visibleAnswers visible selections := by
  induction visible generalizing answers with
  | nil => cases h; rfl
  | cons item rest ih =>
    have hrest := fun i hi => hsub i (mem_cons_of_mem _ hi)
    unfold visibleAnswers at h ih ⊢
    cases hsent : sentValue item (selections item.id) with
    | none =>
      simp only [filterMap_cons, hsent, Option.map_none] at h ⊢
      exact ih hrest h
    | some v =>
      simp only [filterMap_cons, hsent, Option.map_some] at h ⊢
      unfold withNormalisedGridAnswers at h
      split at h
      · cases h
      · next kept hkept =>
        obtain rfl := normaliseAnswer_id (byId_eq hunique (hsub item mem_cons_self)) hsent hkept
        cases hmore : withNormalisedGridAnswers items
            (rest.filterMap fun i => (sentValue i (selections i.id)).map fun value => (i.id, value)) with
        | error refusal => rw [hmore] at h; cases h
        | ok more =>
          rw [hmore] at h
          cases h
          rw [ih hrest hmore]
          rfl

theorem productGridPricesFor_spec (facts : PricingFacts) {items : List FormItem} (hunique : (items.map (·.id)).Nodup) :
    ∃ prices, productGridPricesFor facts items = some prices ∧ ∀ item ∈ items, ∀ grid, item.type = .productGrid grid →
      prices.lookup item.id = viewerPricesFor grid facts := by
  induction items with
  | nil => exact ⟨[], rfl, fun _ h => absurd h not_mem_nil⟩
  | cons x rest ih =>
    obtain ⟨hx, hrest⟩ := nodup_cons.mp (map_cons ▸ hunique)
    obtain ⟨prices, hprices, hall⟩ := ih hrest
    unfold productGridPricesFor
    cases hty : x.type with
    | productGrid grid =>
      obtain ⟨viewer, hviewer⟩ := viewerPricesFor_isSome grid facts
      refine ⟨(x.id, viewer) :: prices, by simp only [hviewer, hprices], ?_⟩
      intro item hitem g hg
      rcases mem_cons.mp hitem with rfl | hmem
      · rw [hty] at hg
        cases hg
        rw [lookup_cons_self, hviewer]
      · have hne : item.id ≠ x.id := fun e => hx (e ▸ mem_map_of_mem hmem)
        rw [lookup_cons, beq_false_of_ne hne]
        exact hall item hmem g hg
    | _ =>
      refine ⟨prices, hprices, ?_⟩
      intro item hitem g hg
      rcases mem_cons.mp hitem with rfl | hmem
      · rw [hty] at hg
        cases hg
      · exact hall item hmem g hg

end Charge

/-! ## The page against the charge -/

/-- The answers of the questions on screen, as `submit` prices them. -/
def onScreenFacts (items : List FormItem) (profile : Profile) (selections : Selections) : PricingFacts :=
  ⟨profile, fun q => if (visibleItemIds items ⟨profile, allAnswers items selections⟩).contains q then
    allAnswers items selections q else none⟩

/-- The groups the page looks up: those of every selection held, on screen or not. -/
def heldGroups (m : PriceMatrix) (profile : Profile) (selections : Selections) : List String :=
  (openCriteria m profile).map fun d => bucketIdOf d (selections d.questionId)

def shownGroups (m : PriceMatrix) (items : List FormItem) (profile : Profile) (selections : Selections) : List String :=
  answerGroups m (onScreenFacts items profile selections)

/-- Of the combinations whose ids join to one key, the one that is sent under it: the last. -/
def keptUnder (m : PriceMatrix) (profile : Profile) (key : String) : Option (List String) :=
  if key = "__proto__" then none else (combinations (openCriteria m profile)).reverse.find? fun c => cellKey c = key

/-- The saved grid has one price for the combination kept under the key of the groups held and for the
    groups on screen. -/
def PricedAlike (form : Form) (profile : Profile) (selections : Selections) : Prop :=
  ∀ m ∈ form.priceMatrix, ∃ kept, keptUnder m profile (cellKey (heldGroups m profile selections)) = some kept ∧
    gridPrice m profile kept = gridPrice m profile (shownGroups m form.items profile selections)

/-- Every priced question's selection is in the group of its answer on screen. -/
def PricedOnScreen (form : Form) (profile : Profile) (selections : Selections) : Prop :=
  ∀ m ∈ form.priceMatrix, ∀ d ∈ openCriteria m profile,
    bucketIdOf d (selections d.questionId) =
      bucketFor (onScreenFacts form.items profile selections) (.answer d.id d.questionId d.buckets)

/-- The page shows the questions the server shows for the answers it is sent. -/
def SameQuestions (form : Form) (profile : Profile) (selections : Selections) : Prop :=
  ∀ id, id ∈ (visibleItems form.items selections (hiddenFor form.items profile)).map (·.id) ↔
    id ∈ visibleItemIds form.items (sentFacts form.items profile selections)

def SameTotal (form : Form) (profile : Profile) (selections : Selections) (totalCents : Int) : Prop :=
  (fillPage form profile selections).priceUnavailable = false ∧ (fillPage form profile selections).total = totalCents

section Agree

variable {form : Form} {profile : Profile} {selections : Selections}

theorem visibleOnly_eq (hheld : PageHolds form.items selections) :
    (⟨profile, fun q => if (visibleItemIds form.items (sentFacts form.items profile selections)).contains q
      then answerSelections form.items (sentAnswers form profile selections) q else none⟩ : PricingFacts) =
        onScreenFacts form.items profile selections := by
  congr 1
  funext q
  by_cases h : OnScreen form.items ⟨profile, allAnswers form.items selections⟩ q
  · rw [if_pos (contains_iff_mem.mpr (visibleItemIds_iff.mpr (onScreen_sent form.unique hheld h))),
      if_pos (contains_iff_mem.mpr (visibleItemIds_iff.mpr h))]
    exact sentFacts_answers form.unique hheld h
  · rw [if_neg fun e => h (onScreen_all form.unique (visibleItemIds_iff.mp (contains_iff_mem.mp e))),
      if_neg fun e => h (visibleItemIds_iff.mp (contains_iff_mem.mp e))]

/-- When the same questions are shown, the charge is the grid's cell plus what the page adds to its own. -/
theorem submit_spec (hheld : PageHolds form.items selections) (hstale : NoStale form.items profile selections)
    {totalCents : Int}
    (h : submit form profile (sentAnswers form profile selections) = .ok totalCents) :
    ∃ base, priceFor form (onScreenFacts form.items profile selections) = .ok (some base) ∧
      totalCents = base + ((visibleItems form.items selections (hiddenFor form.items profile)).map fun item =>
        supplementOf (pricedQuestionIds form.priceMatrix) item (selections item.id)).sum +
          (fillPage form profile selections).gridCents ∧
      0 ≤ (fillPage form profile selections).gridCents := by
  have hshown := (shown_iff_noStale form.unique hheld).mpr hstale
  unfold submit at h
  split at h
  · cases h
  next answers hanswers =>
  have hfacts : (⟨profile, answerSelections form.items (sentAnswers form profile selections)⟩ : PricingFacts) =
    sentFacts form.items profile selections := rfl
  obtain rfl : answers = sentAnswers form profile selections :=
    withNormalised_id form.unique (fun item hi => (mem_filter.mp hi).1) hanswers
  dsimp only at h
  rw [hfacts, visibleOnly_eq hheld] at h
  split at h
  · cases h
  · cases h
  next hdeclared =>
  split at h
  · cases h
  · cases h
  next base hbase =>
  split at h
  · cases h
  next charge hcharge =>
  refine ⟨base, hbase, ?_⟩
  -- the visible items are the ones the page shows
  have hfilter : (form.items.filter
    fun item => (visibleItemIds form.items (sentFacts form.items profile selections)).contains item.id) =
      visibleItems form.items selections (hiddenFor form.items profile) := by
    refine filter_congr fun item hitem => ?_
    rw [Bool.eq_iff_iff, contains_iff_mem, ← hshown item.id]
    constructor
    · intro hmem
      obtain ⟨other, hother, hid⟩ := mem_map.mp hmem
      obtain ⟨hin, hshows⟩ := mem_filter.mp hother
      have h1 := byId_eq form.unique hin
      rw [hid, byId_eq form.unique hitem] at h1
      exact Option.some.inj h1 ▸ hshows
    · exact fun hshows => mem_map_of_mem (mem_filter.mpr ⟨hitem, hshows⟩)
  have hvisible : ∀ item ∈ form.items,
    (visibleItemIds form.items (sentFacts form.items profile selections)).contains item.id = true →
      item ∈ visibleItems form.items selections (hiddenFor form.items profile) := by
    intro item hitem hv
    rw [← hfilter]
    exact mem_filter.mpr ⟨hitem, hv⟩
  have hsublist : ((visibleItems form.items selections (hiddenFor form.items profile)).map (·.id)).Nodup :=
    form.unique.sublist (filter_sublist.map _)
  obtain ⟨prices, hprices, hlookup⟩ := productGridPricesFor_spec ⟨profile, fun _ => none⟩ form.unique
  obtain ⟨htotal, hlines, hnonneg⟩ := chargeItems_eq selections prices
    (fun item hitem hv => lookup_visibleAnswers hsublist (hvisible item hitem hv))
    (fun item hitem hv => by
      by_contra hbad
      have hnone := find?_eq_none.mp (Option.map_eq_none_iff.mp hdeclared) item hitem
      simp only [hv, Bool.true_and, Bool.not_eq_true, Bool.not_eq_false'] at hnone
      exact hbad hnone)
    (fun item hitem grid hgrid => (hlookup item hitem grid hgrid).trans (viewerPricesFor_answers _).symm) hcharge
  rw [hfilter] at htotal hlines hnonneg
  have hgrid : (fillPage form profile selections).gridCents =
      productGridTotalCents (productGridOrderLines
        (visibleItems form.items selections (hiddenFor form.items profile)) selections prices) := by
    unfold fillPage
    dsimp only
    rw [hprices]
    rfl
  rw [nil_append] at hlines
  unfold totalOf at h
  rw [hgrid]
  split at h
  · cases h
  · split at h
    · next hempty =>
      cases h
      rw [List.isEmpty_iff.mp hempty] at hlines
      rw [← hlines] at hnonneg ⊢
      exact ⟨htotal.trans (Int.add_zero _).symm, hnonneg⟩
    · dsimp only at h
      split at h
      · cases h
      · cases h
        rw [hlines, htotal]
        exact ⟨rfl, hnonneg⟩

theorem fillPage_baseCents : (fillPage form profile selections).baseCents =
    match form.priceMatrix with
    | none => some form.basePrice
    | some m => sliceCell m profile selections := by
  unfold fillPage fillPriceState
  cases form.priceMatrix <;> rfl

theorem fillPage_total (hdecided : (fillPage form profile selections).priceDecided = true) :
    (fillPage form profile selections).total =
      match (fillPage form profile selections).baseCents with
      | some base => max 0 (base + ((visibleItems form.items selections (hiddenFor form.items profile)).map fun item =>
          supplementOf (pricedQuestionIds form.priceMatrix) item (selections item.id)).sum +
            (fillPage form profile selections).gridCents)
      | none => 0 := by
  have hpriced : (match form.priceMatrix.map fun m => pricingViewFor m ⟨profile, fun _ => none⟩ with
      | none => []
      | some view => view.ignoredModifierQuestionIds) = pricedQuestionIds form.priceMatrix := by
    cases form.priceMatrix <;> rfl
  unfold fillPage fillPriceState at hdecided ⊢
  dsimp only at hdecided ⊢
  rw [hdecided, hpriced]
  split
  · next base _ hbase => rw [hbase]
  · next hnone =>
    split
    · next base hbase => exact absurd hbase (hnone base rfl)
    · rfl

theorem gridPrice_shown (m : PriceMatrix) :
    gridPrice m profile (shownGroups m form.items profile selections) =
      (resolveCellPrice m (onScreenFacts form.items profile selections)).getD none :=
  gridPrice_eq (fun d => bucketFor (onScreenFacts form.items profile selections)
    (.answer d.id d.questionId d.buckets)) rfl
    fun _ _ _ _ => rfl

theorem sliceCell_kept (m : PriceMatrix) :
    sliceCell m profile selections =
      ((keptUnder m profile (cellKey (heldGroups m profile selections))).map (gridPrice m profile)).getD none := by
  have hheld : (openCriteria m profile).map
    (fun d => bucketIdOf d (selections d.questionId)) = heldGroups m profile selections := rfl
  rw [sliceCell_last hheld, keptUnder]
  split <;> rfl

theorem pricedAlike_iff {base : Int}
    (hbase : priceFor form (onScreenFacts form.items profile selections) = .ok (some base)) :
    PricedAlike form profile selections ↔ (fillPage form profile selections).baseCents = some base := by
  unfold PricedAlike
  rw [fillPage_baseCents]
  unfold priceFor at hbase
  cases hm : form.priceMatrix with
  | none =>
    rw [hm] at hbase
    cases hbase
    exact ⟨fun _ => rfl, fun _ m h => (nomatch h)⟩
  | some m =>
    rw [hm] at hbase
    dsimp only at hbase ⊢
    split at hbase
    · cases hbase
    · next cell hcell =>
      cases hbase
      have hshown : gridPrice m profile (shownGroups m form.items profile selections) = some base := by
        rw [gridPrice_shown, hcell]
        rfl
      rw [sliceCell_kept]
      constructor
      · intro h
        obtain ⟨kept, hkept, hprice⟩ := h m rfl
        rw [hkept, Option.map_some, Option.getD_some, hprice, hshown]
      · intro h m' hm'
        cases hm'
        obtain ⟨kept, hkept, hprice⟩ := Option.map_eq_some_iff.mp (eq_of_getD h)
        exact ⟨kept, hkept, hprice.trans hshown.symm⟩

/-- Without a priced selection off screen and without a group id that blurs a key, the two prices are one. -/
theorem pricedAlike_of_plain (hshown : PricedOnScreen form profile selections)
    (hplain : ∀ m ∈ form.priceMatrix, PlainGroups (openCriteria m profile)) : PricedAlike form profile selections := by
  intro m hm
  have hgroups : heldGroups m profile selections = shownGroups m form.items profile selections :=
    map_congr_left fun d hd => hshown m hm d hd
  have hmem : shownGroups m form.items profile selections ∈ combinations (openCriteria m profile) :=
    answerGroups_mem m _
  rw [hgroups]
  refine ⟨shownGroups m form.items profile selections, ?_, rfl⟩
  rw [keptUnder, if_neg (plain_ne_proto (hplain m hm) hmem)]
  exact find_plain (hplain m hm) hmem

theorem unavailable_iff (hdecided : (fillPage form profile selections).priceDecided = true) :
    (fillPage form profile selections).priceUnavailable = false ↔
      (fillPage form profile selections).baseCents.isSome = true := by
  have h : (fillPage form profile selections).priceUnavailable =
      ((fillPage form profile selections).priceDecided && (fillPage form profile selections).baseCents.isNone) := rfl
  rw [h, hdecided]
  cases (fillPage form profile selections).baseCents <;> simp

theorem fillPage_nonneg {base : Int} (h : (fillPage form profile selections).baseCents = some base) : 0 ≤ base := by
  rw [fillPage_baseCents] at h
  cases hm : form.priceMatrix with
  | none =>
    rw [hm] at h
    cases h
    exact form.baseNonneg
  | some m =>
    rw [hm] at h
    exact sliceCell_nonneg (form.accepted m hm) h

/-- With the same questions shown, a total is right exactly when the base price is. -/
theorem total_iff_pricedAlike (hheld : PageHolds form.items selections) (hstale : NoStale form.items profile selections)
    (hdecided : (fillPage form profile selections).priceDecided = true) {totalCents : Int}
    (hsubmit : submit form profile (sentAnswers form profile selections) = .ok totalCents) :
    SameTotal form profile selections totalCents ↔ PricedAlike form profile selections := by
  unfold SameTotal
  obtain ⟨base, hbase, htotal, hgrid⟩ := submit_spec hheld hstale hsubmit
  rw [pricedAlike_iff hbase, unavailable_iff hdecided, fillPage_total hdecided]
  have hsupplements : 0 ≤ ((visibleItems form.items selections (hiddenFor form.items profile)).map fun item =>
      supplementOf (pricedQuestionIds form.priceMatrix) item (selections item.id)).sum := by
    refine sum_nonneg fun x hx => ?_
    obtain ⟨item, _, rfl⟩ := mem_map.mp hx
    exact supplementOf_nonneg _ _ _
  cases hpage : (fillPage form profile selections).baseCents with
  | none => simp
  | some pageBase =>
    have hpageBase := fillPage_nonneg hpage
    dsimp only
    rw [max_eq_right (by omega), Option.some.injEq]
    constructor
    · intro h; omega
    · intro h; exact ⟨rfl, by omega⟩

/-- The page shows the questions the server counts exactly when no condition is met by a stale
    selection; and where the price is decided and `submit` computes a total, it shows that total too
    exactly when the grid also prices the combination kept under the key of the groups held like the
    groups on screen. -/
theorem page_agrees_iff (form : Form) (profile : Profile) (selections : Selections)
    (hheld : PageHolds form.items selections) :
    (SameQuestions form profile selections ↔ NoStale form.items profile selections) ∧
      ∀ totalCents, (fillPage form profile selections).priceDecided = true →
        submit form profile (sentAnswers form profile selections) = .ok totalCents →
          (SameQuestions form profile selections ∧ SameTotal form profile selections totalCents ↔
            NoStale form.items profile selections ∧ PricedAlike form profile selections) := by
  have hshown : SameQuestions form profile selections ↔ NoStale form.items profile selections :=
    shown_iff_noStale form.unique hheld
  refine ⟨hshown, fun totalCents hdecided hsubmit => ?_⟩
  rw [hshown]
  exact and_congr_right fun hstale => total_iff_pricedAlike hheld hstale hdecided hsubmit

end Agree

/-! ## Forms -/

def anyone : Profile := ⟨none, none, []⟩

def choice (id : String) (options : List FormOption) (after : Option AnswerTest) : FormItem :=
  { id, type := .singleChoice, options, showIf := after.map fun test => { answer := some test } }

/-- A meal, its menu, the menu's drink at 5 euros: the meal is taken back, the menu and the drink are left behind. -/
def staleChain : Form where
  items := [choice "meal" [⟨"yes", 0, by decide⟩, ⟨"no", 0, by decide⟩] none,
    choice "menu" [⟨"b", 0, by decide⟩] (some ⟨"meal", ["yes"]⟩),
    choice "drink" [⟨"wine", 500, by decide⟩] (some ⟨"menu", ["b"]⟩)]
  basePrice := 0
  priceMatrix := none
  submitCondition := none
  unique := by decide
  baseNonneg := by decide
  accepted := by intro m hm; cases hm

def takenBack : Selections := fun q =>
  if q = "meal" then some (.text "no") else if q = "menu" then some (.text "b") else if q = "drink" then
    some (.text "wine") else none

/-- The page shows the drink and 5 euros; the server shows the meal alone and charges nothing. -/
theorem stale_chain_disagrees : (visibleItems staleChain.items takenBack (hiddenFor staleChain.items anyone)).map
    (·.id) = ["meal", "drink"] ∧
    visibleItemIds staleChain.items (sentFacts staleChain.items anyone takenBack) = ["meal"] ∧
    (fillPage staleChain anyone takenBack).priceDecided = true ∧ (fillPage staleChain anyone takenBack).total = 500 ∧
    submit staleChain anyone (sentAnswers staleChain anyone takenBack) = .ok 0 := by
  decide

def menuGrid : PriceMatrix where
  dimensions := [.answer "d" "menu" [⟨"A", "Menu A", ["a"]⟩, ⟨"B", "Menu B", ["b"]⟩]]
  cells := [("A", some 1000), ("B", some 1500), ("_others", some 200)]

def hiddenPriced : Form where
  items := [choice "meal" [⟨"yes", 0, by decide⟩, ⟨"no", 0, by decide⟩] none,
    choice "menu" [⟨"a", 0, by decide⟩, ⟨"b", 0, by decide⟩] (some ⟨"meal", ["yes"]⟩)]
  basePrice := 0
  priceMatrix := some menuGrid
  submitCondition := none
  unique := by decide
  baseNonneg := by decide
  accepted := by intro m hm; cases hm; decide

def eats (meal : String) : Selections := fun q =>
  if q = "meal" then some (.text meal) else if q = "menu" then some (.text "b") else none

/-- The meal taken back, the page still prices the menu B it left behind. -/
theorem hidden_priced_disagrees : (fillPage hiddenPriced anyone (eats "no")).priceDecided = true ∧
    (fillPage hiddenPriced anyone (eats "no")).total = 1500 ∧
    submit hiddenPriced anyone (sentAnswers hiddenPriced anyone (eats "no")) = .ok 200 := by
  decide

/-- With the meal taken the two agree, on menu B's price. -/
theorem hidden_priced_agrees_on_screen :
    submit hiddenPriced anyone (sentAnswers hiddenPriced anyone (eats "yes")) = .ok 1500 ∧
    SameQuestions hiddenPriced anyone (eats "yes") ∧ SameTotal hiddenPriced anyone (eats "yes") 1500 := by
  have hheld : PageHolds hiddenPriced.items (eats "yes") := by
    intro item hitem hmatrix
    simp only [hiddenPriced, mem_cons, not_mem_nil, or_false] at hitem
    rcases hitem with rfl | rfl <;> cases hmatrix
  have hmeal : OnScreen hiddenPriced.items ⟨anyone, allAnswers hiddenPriced.items (eats "yes")⟩ "meal" :=
    visibleItemIds_iff.mp (by decide)
  have hsubmit : submit hiddenPriced anyone (sentAnswers hiddenPriced anyone (eats "yes")) = .ok 1500 := by decide
  refine ⟨hsubmit, ((page_agrees_iff hiddenPriced anyone (eats "yes") hheld).2 1500 (by decide) hsubmit).mpr ⟨?_, ?_⟩⟩
  · intro item hitem _ test htest _ _
    simp only [hiddenPriced, mem_cons, not_mem_nil, or_false] at hitem
    rcases hitem with rfl | rfl
    · cases htest
    · cases htest
      exact ⟨hmeal, by decide⟩
  · refine pricedAlike_of_plain ?_ ?_
    · intro m hm d hd
      cases hm
      obtain rfl := mem_singleton.mp hd
      decide
    · intro m hm d hd id hid
      cases hm
      obtain rfl := mem_singleton.mp hd
      simp only [AnswerDimensionView.groups, map_cons, map_nil, cons_append, nil_append, mem_cons, not_mem_nil,
        or_false] at hid
      rcases hid with rfl | rfl | rfl <;> decide

/-- Two sizes of two colours, whose groups join to one key of the slice. -/
def sharedKey : Form where
  items := [choice "colour" [⟨"x", 0, by decide⟩, ⟨"y", 0, by decide⟩] none,
    choice "size" [⟨"u", 0, by decide⟩, ⟨"v", 0, by decide⟩] none]
  basePrice := 0
  priceMatrix := some slicedMatrix
  submitCondition := none
  unique := by decide
  baseNonneg := by decide
  accepted := by intro m hm; cases hm; decide

theorem shared_key_disagrees : (fillPage sharedKey nobody (chosen "x" "v")).priceDecided = true ∧
    (fillPage sharedKey nobody (chosen "x" "v")).total = 50 ∧
    submit sharedKey nobody (sentAnswers sharedKey nobody (chosen "x" "v")) = .ok 100 := by
  decide

end Canari.Forms.Fill
