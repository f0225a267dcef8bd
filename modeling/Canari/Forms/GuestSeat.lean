/-
  Canari.Forms.GuestSeat — the free seat a public form must not offer by default (social-service
  forms/answer-options.ts: `othersReachable`, `freeFallbackCells`; form-option-rules.ts:
  `isGuestCell`; the editor's copy, frontend lib/pricing/priceMatrix.ts: `guestFreeCellKey`).

  Only the cell where every criterion is "everyone else" is judged: a named option priced 0 is a
  choice the manager made. Where the save finds no such free cell, a guest whose answers are
  accepted never pays 0 through it, and the editor flags a cell exactly when the save refuses one
  (`guests_pay_iff_flagged`). The editor looks one key up where the server splits every key, so a
  group with an empty id would set them apart; the save accepts none.
-/

import Canari.Forms.CellKeys
import Canari.Forms.FillPrice
import Canari.Forms.OneBucket

namespace Canari.Forms.Fill

open List

/-! ## Reachable fallbacks -/

structure SeatItem where
  id : String
  type : String
  required : Bool
  /-- The option ids; the empty one is none. -/
  options : List String
  dependsOn : Option String
  /-- The keys of `showIf`, when it is an object. -/
  showIf : Option (List String)

def isChoiceType (type : String) : Bool := type = "single_choice" || type = "dropdown" || type = "multiple_choice"

/-- `dependsOn`, when it names a question. -/
def SeatItem.dependsOnQuestion (item : SeatItem) : Bool := (item.dependsOn.getD "") != ""

/-- Whether "everyone else" of a criterion can be reached, by what counts as a condition. -/
def othersReachableBy (conditional : SeatItem → Bool) (dimension : Dimension) (items : List SeatItem) : Bool :=
  match dimension with
  | .answer _ questionId buckets =>
    match items.find? (·.id == questionId) with
    | none => true
    | some item =>
      if !item.required || conditional item then true
      else if !isChoiceType item.type then true
      else item.options.any fun id => id = "" || !(buckets.flatMap (·.accepts)).contains id
  | _ => true

/-- The keys of the condition `normaliseCondition` merges. -/
def mergedKeys (item : SeatItem) : List String :=
  let own := item.showIf.getD []
  if own.contains "answer" || !item.dependsOnQuestion then own else own ++ ["answer"]

def othersReachable (dimension : Dimension) (items : List SeatItem) : Bool :=
  othersReachableBy (fun item => !(mergedKeys item).isEmpty) dimension items

def editorOthersReachable (dimension : Dimension) (items : List SeatItem) : Bool :=
  othersReachableBy (fun item => item.dependsOnQuestion || item.showIf.any fun keys => !keys.isEmpty) dimension items

/-! ## The free cell -/

def Dimension.isAnswer : Dimension → Bool
  | .answer .. => true
  | _ => false

/-- Whether a guest can land in a cell: "everyone else" on every criterion about who the person is. -/
def isGuestCell (matrix : PriceMatrix) (key : String) : Bool :=
  matrix.dimensions.zipIdx.all fun (d, i) => d.isAnswer || (splitKey key)[i]? == some OTHERS_BUCKET_ID

def charges (matrix : PriceMatrix) : Bool := matrix.cells.any fun cell => cell.2.any fun cents => 0 < cents

/-- The cells of a charging grid a guest reaches by default and does not pay for. -/
def freeFallbackCells (matrix : Option PriceMatrix) (items : List SeatItem) : List String :=
  match matrix with
  | none => []
  | some m =>
    if !charges m then []
    else
      let reachable := m.dimensions.map fun d => othersReachable d items
      (allCellKeys m.dimensions).filter fun key =>
        m.cells.lookup key == some (some 0) && isGuestCell m key &&
          (splitKey key).zipIdx.all fun (part, i) => part == OTHERS_BUCKET_ID && (reachable[i]?).getD false

/-- The cell the editor flags. Both sides read signs only, so euros there and cents here are one. -/
def guestFreeCellKey (matrix : Option PriceMatrix) (items : List SeatItem) : Option String :=
  match matrix with
  | none => none
  | some m =>
    if m.dimensions.isEmpty then none
    else if !charges m then none
    else if !m.dimensions.all fun d => editorOthersReachable d items then none
    else
      let key := cellKey (m.dimensions.map fun _ => OTHERS_BUCKET_ID)
      if m.cells.lookup key == some (some 0) then some key else none

section

variable {matrix : PriceMatrix} {items : List SeatItem}

theorem conditional_eq (item : SeatItem) :
    (!(mergedKeys item).isEmpty) = (item.dependsOnQuestion || item.showIf.any fun keys => !keys.isEmpty) := by
  unfold mergedKeys
  cases item.dependsOnQuestion with
  | false => cases item.showIf <;> simp
  | true =>
    cases item.showIf with
    | none => rfl
    | some keys =>
      by_cases h : "answer" ∈ keys
      · have hne : keys ≠ [] := ne_nil_of_mem h
        simp [h, hne]
      · simp [h]

theorem editorOthersReachable_eq (d : Dimension) : editorOthersReachable d items = othersReachable d items := by
  unfold editorOthersReachable othersReachable
  congr 1
  funext item
  exact (conditional_eq item).symm

/-! ## The key of the fallback cell -/

def fallbackKey (dimensions : List Dimension) : String := cellKey (dimensions.map fun _ => OTHERS_BUCKET_ID)

theorem fallbackKey_mem (dimensions : List Dimension) : fallbackKey dimensions ∈ allCellKeys dimensions := by
  have hfold : ∀ (rest : List Dimension) (keys : List String) (start : List String), (∀ id ∈ start, id ≠ "") →
    cellKey start ∈ keys →
      cellKey (start ++ rest.map fun _ => OTHERS_BUCKET_ID) ∈
        rest.foldl (fun keys d => keys.flatMap fun key => d.groups.map fun id => if key = "" then id else
          key ++ "|" ++ id) keys := by
    intro rest
    induction rest with
    | nil => intro keys start _ hstart; simpa using hstart
    | cons d rest ih =>
      intro keys start hne hstart
      rw [map_cons, append_cons]
      refine ih _ _ ?_ (mem_flatMap.mpr ⟨_, hstart, mem_map.mpr ⟨OTHERS_BUCKET_ID, ?_, cellKey_concat hne _⟩⟩)
      · intro id hid
        rcases mem_append.mp hid with hid | hid
        · exact hne id hid
        · rw [mem_singleton.mp hid]
          decide
      · exact mem_append_right _ (mem_singleton_self _)
  exact hfold dimensions [""] [] nofun mem_cons_self

theorem splitKey_fallbackKey {dimensions : List Dimension} (h : dimensions ≠ []) :
    splitKey (fallbackKey dimensions) = dimensions.map fun _ => OTHERS_BUCKET_ID := by
  refine splitKey_cellKey (by simpa using h) fun id hid => ?_
  obtain ⟨-, -, rfl⟩ := mem_map.mp hid
  decide

theorem cellKey_splitKey (key : String) : cellKey (splitKey key) = key := by
  rw [← String.toList_inj, cellKey, String.toList_intercalate, splitKey, map_map]
  have hid : String.toList ∘ String.ofList = id := funext fun _ => String.toList_ofList
  rw [hid, map_id]
  exact intercalate_splitOn '|'

theorem count_cellKey {v : List String} (h : v ≠ []) :
    (cellKey v).toList.count '|' + 1 = v.length + (v.map fun id => id.toList.count '|').sum := by
  induction v with
  | nil => exact absurd rfl h
  | cons id rest ih =>
    cases rest with
    | nil => simp [cellKey, Nat.add_comm]
    | cons next rest =>
      have hrest := ih (cons_ne_nil _ _)
      have hkey : (cellKey (id :: next :: rest)).toList = id.toList ++ '|' :: (cellKey (next :: rest)).toList := by
        rw [cellKey, String.intercalate_cons_cons, String.toList_append, String.toList_append, append_assoc]
        rfl
      rw [hkey, count_append, count_cons_self, map_cons, sum_cons, length_cons]
      omega

theorem mem_freeFallbackCells_of (hne : matrix.dimensions ≠ []) (hcharges : charges matrix = true)
    (hfree : matrix.cells.lookup (fallbackKey matrix.dimensions) = some (some 0))
    (hreach : ∀ d ∈ matrix.dimensions, othersReachable d items = true) :
    fallbackKey matrix.dimensions ∈ freeFallbackCells (some matrix) items := by
  unfold freeFallbackCells
  dsimp only
  rw [hcharges]
  refine mem_filter.mpr ⟨fallbackKey_mem _, ?_⟩
  have hparts := splitKey_fallbackKey hne
  have hguest : isGuestCell matrix (fallbackKey matrix.dimensions) = true := by
    unfold isGuestCell
    rw [hparts, all_eq_true]
    rintro ⟨d, i⟩ hmem
    have hd : matrix.dimensions[i]? = some d := mem_zipIdx_iff_getElem?.mp hmem
    dsimp only
    rw [getElem?_map, hd]
    exact Bool.or_true _
  have hall : ((splitKey (fallbackKey matrix.dimensions)).zipIdx.all fun (part, i) =>
      part == OTHERS_BUCKET_ID &&
        ((matrix.dimensions.map fun d => othersReachable d items)[i]?).getD false) = true := by
    rw [hparts, all_eq_true]
    rintro ⟨part, i⟩ hmem
    have hpart := mem_zipIdx_iff_getElem?.mp hmem
    rw [getElem?_map] at hpart
    obtain ⟨d, hd, rfl⟩ := Option.map_eq_some_iff.mp hpart
    simp [getElem?_map, show matrix.dimensions[i]? = some d from hd, hreach d (mem_of_getElem? hd)]
  rw [hfree, hguest, hall]
  rfl

/-- With no empty group id, a key that splits into fallbacks is the fallback cell's. -/
theorem eq_fallbackKey {dimensions : List Dimension} (hne : ∀ d ∈ dimensions, ∀ id ∈ d.bucketIds, id ≠ "")
    {reachable : List Bool}
    (hlength : reachable.length = dimensions.length) {key : String} (hkey : key ∈ allCellKeys dimensions)
    (h : ((splitKey key).zipIdx.all fun (part, i) => part == OTHERS_BUCKET_ID && (reachable[i]?).getD false) = true) :
    dimensions ≠ [] ∧ key = fallbackKey dimensions ∧ ∀ b ∈ reachable, b = true := by
  have hgroups : ∀ d ∈ dimensions, ∀ id ∈ d.groups, id ≠ "" := by
    intro d hd id hid
    rcases mem_append.mp hid with hid | hid
    · exact hne d hd id hid
    · rw [mem_singleton.mp hid]
      decide
  rw [allCellKeys_eq hgroups] at hkey
  obtain ⟨v, hv, rfl⟩ := mem_map.mp hkey
  have hvector := mem_vectors.mp hv
  have hparts : ∀ (i : Nat) (part : String), (splitKey (cellKey v))[i]? = some part → part = OTHERS_BUCKET_ID ∧
    (reachable[i]?).getD false = true := by
    intro i part hpart
    have hone := all_eq_true.mp h (part, i) (mem_zipIdx_iff_getElem?.mpr hpart)
    simpa using hone
  have hsplit : splitKey (cellKey v) ≠ [] := by simp [splitKey, splitOn_ne_nil]
  have hothers : ∀ part ∈ splitKey (cellKey v), part = OTHERS_BUCKET_ID := by
    intro part hpart
    obtain ⟨i, hi⟩ := getElem?_of_mem hpart
    exact (hparts i part hi).1
  have hdims : dimensions ≠ [] := by
    rintro rfl
    have hnil : v = [] := length_eq_zero_iff.mp hvector.length
    subst hnil
    exact absurd (hothers "" (by decide)) (by decide)
  -- as many parts as criteria: each part has its criterion, and a key has a bar for each of its groups
  have hle : (splitKey (cellKey v)).length ≤ dimensions.length := by
    by_contra hlt
    have hin : dimensions.length < (splitKey (cellKey v)).length := by omega
    have hreach := (hparts _ _ (getElem?_eq_getElem hin)).2
    rw [getElem?_eq_none (by omega)] at hreach
    cases hreach
  have hge : dimensions.length ≤ (splitKey (cellKey v)).length := by
    have hbars := count_cellKey hsplit
    rw [cellKey_splitKey] at hbars
    have hnone : ((splitKey (cellKey v)).map fun id => id.toList.count '|').sum = 0 := by
      rw [sum_eq_zero_iff]
      intro n hn
      obtain ⟨part, hpart, rfl⟩ := mem_map.mp hn
      rw [hothers part hpart]
      decide
    have hvne : v ≠ [] := fun e => hdims (length_eq_zero_iff.mp (hvector.length.symm.trans (e ▸ rfl)))
    have hgroupsCount := count_cellKey hvne
    have hvlength := hvector.length
    omega
  refine ⟨hdims, ?_, fun b hb => ?_⟩
  · have hsame : splitKey (cellKey v) = dimensions.map fun _ => OTHERS_BUCKET_ID := by
      rw [map_const']
      exact eq_replicate_iff.mpr ⟨Nat.le_antisymm hle hge, hothers⟩
    rw [fallbackKey, ← hsame, cellKey_splitKey]
  · obtain ⟨i, hi⟩ := getElem?_of_mem hb
    have hin : i < (splitKey (cellKey v)).length := by
      have hbound := (List.getElem?_eq_some_iff.mp hi).1
      omega
    have hreach := (hparts i _ (getElem?_eq_getElem hin)).2
    rw [hi] at hreach
    exact hreach

/-- What the save refuses, for a grid with no empty group id. -/
theorem mem_freeFallbackCells (hne : ∀ d ∈ matrix.dimensions, ∀ id ∈ d.bucketIds, id ≠ "") {key : String} :
    key ∈ freeFallbackCells (some matrix) items ↔
      matrix.dimensions ≠ [] ∧ charges matrix = true ∧ key = fallbackKey matrix.dimensions ∧
      matrix.cells.lookup key = some (some 0) ∧ ∀ d ∈ matrix.dimensions, othersReachable d items = true := by
  constructor
  · intro h
    unfold freeFallbackCells at h
    dsimp only at h
    split at h
    · cases h
    · rename_i hcharges
      obtain ⟨hmem, h⟩ := mem_filter.mp h
      rw [Bool.and_eq_true, Bool.and_eq_true] at h
      obtain ⟨hdims, hkey, hreach⟩ := eq_fallbackKey hne (length_map _) hmem h.2
      exact ⟨hdims, by simpa using hcharges, hkey, beq_iff_eq.mp h.1.1, fun d hd => hreach _ (mem_map_of_mem hd)⟩
  · rintro ⟨hdims, hcharges, rfl, hfree, hreach⟩
    exact mem_freeFallbackCells_of hdims hcharges hfree hreach

theorem guestFreeCellKey_eq_some {key : String} :
    guestFreeCellKey (some matrix) items = some key ↔
      matrix.dimensions ≠ [] ∧ charges matrix = true ∧ key = fallbackKey matrix.dimensions ∧
      matrix.cells.lookup key = some (some 0) ∧ ∀ d ∈ matrix.dimensions, othersReachable d items = true := by
  have hreach : (matrix.dimensions.all fun d => editorOthersReachable d items) = true ↔
    ∀ d ∈ matrix.dimensions, othersReachable d items = true := by
    rw [all_eq_true]
    exact forall₂_congr fun d _ => by rw [editorOthersReachable_eq]
  rw [← hreach]
  unfold guestFreeCellKey fallbackKey
  dsimp only
  constructor
  · intro h
    split at h
    · cases h
    rename_i hdims
    split at h
    · cases h
    rename_i hcharges
    split at h
    · cases h
    rename_i hall
    split at h
    · rename_i hfree
      obtain rfl := Option.some.inj h
      exact ⟨by simpa using hdims, by simpa using hcharges, rfl, beq_iff_eq.mp hfree, by simpa using hall⟩
    · cases h
  · rintro ⟨hdims, hcharges, rfl, hfree, hall⟩
    rw [if_neg (by simpa using hdims), if_neg (by simp [hcharges]), if_neg (by simp [hall]),
      if_pos (beq_iff_eq.mpr hfree)]

theorem editor_agrees (hne : ∀ d ∈ matrix.dimensions, ∀ id ∈ d.bucketIds, id ≠ "") (key : String) :
    guestFreeCellKey (some matrix) items = some key ↔ key ∈ freeFallbackCells (some matrix) items := by
  rw [guestFreeCellKey_eq_some, mem_freeFallbackCells hne]

end

/-! ## A guest's price -/

def QuestionType.name : QuestionType → String
  | .shortText => "short_text"
  | .longText => "long_text"
  | .singleChoice => "single_choice"
  | .multipleChoice => "multiple_choice"
  | .dropdown => "dropdown"
  | .linearScale => "linear_scale"
  | .matrixSingle => "matrix_single"
  | .matrixMultiple => "matrix_multiple"
  | .file => "file"
  | .single => "single"
  | .productGrid _ => "product_grid"

def AudienceCondition.keys (c : AudienceCondition) : List String :=
  (c.cotisation.map fun _ => "cotisation").toList ++ (c.notCotisation.map fun _ => "notCotisation").toList ++
    (c.promo.map fun _ => "promo").toList ++
    (c.formation.map fun _ => "formation").toList ++ (c.answer.map fun _ => "answer").toList

def FormItem.seat (item : FormItem) : SeatItem :=
  ⟨item.id, item.type.name, item.required, item.options.map (·.id), item.dependsOn,
    item.showIf.map AudienceCondition.keys⟩

def guest : Profile := ⟨none, none, []⟩

section

variable {form : Form} {item : FormItem}

theorem keys_eq_nil {c : AudienceCondition} : c.keys = [] ↔ c = {} := by
  obtain ⟨cotisation, notCotisation, promo, formation, answer⟩ := c
  unfold AudienceCondition.keys
  cases cotisation <;> cases notCotisation <;> cases promo <;> cases formation <;> cases answer <;> simp

theorem normaliseCondition_of_seat (h : (mergedKeys item.seat).isEmpty = true) : normaliseCondition item = none := by
  have hplain : item.seat.dependsOnQuestion = false ∧ ∀ c ∈ item.showIf, c = {} := by
    have hnone := (conditional_eq item.seat).symm
    rw [h, Bool.not_true, Bool.or_eq_false_iff] at hnone
    refine ⟨hnone.1, fun c hc => (keys_eq_nil).mp ?_⟩
    have hkeys := hnone.2
    rw [show item.seat.showIf = some c.keys from congrArg (Option.map _) hc] at hkeys
    simpa using hkeys
  have hlegacy : item.legacyTest = none := by
    have hdepends := hplain.1
    unfold SeatItem.dependsOnQuestion at hdepends
    unfold FormItem.legacyTest
    split
    · rename_i q hq
      rw [show item.seat.dependsOn = some q from hq] at hdepends
      exact if_pos (by simpa using hdepends)
    · rfl
  have hshow : item.showIf.getD {} = {} := by
    cases hs : item.showIf with
    | none => rfl
    | some c => exact hplain.2 c hs
  unfold normaliseCondition
  have hanswer : (item.showIf.bind (·.answer)).or item.legacyTest = none := by
    rw [hlegacy]
    cases hs : item.showIf with
    | none => rfl
    | some c => rw [hplain.2 c hs]; rfl
  rw [hanswer, hshow]
  rfl

/-- A fallback out of reach: the question is required, always shown, a choice, and each of its options
    sits in a group. -/
theorem othersReachable_eq_false {d : Dimension} {items : List FormItem}
    (h : othersReachable d (items.map FormItem.seat) = false) :
    ∃ id item buckets, item ∈ items ∧ d = .answer id item.id buckets ∧ item.required = true ∧
      normaliseCondition item = none ∧
      isChoiceType item.type.name = true ∧ ∀ option ∈ declaredOptions item, ∃ b ∈ buckets, option ∈ b.accepts := by
  unfold othersReachable othersReachableBy at h
  split at h
  swap
  · cases h
  rename_i id questionId buckets
  split at h
  · cases h
  rename_i seat hseat
  split at h
  · cases h
  rename_i hshown
  split at h
  · cases h
  rename_i htype
  obtain ⟨item, hitem, rfl⟩ := mem_map.mp (mem_of_find?_eq_some hseat)
  have hid : item.id = questionId := by
    have hfound := find?_some hseat
    exact beq_iff_eq.mp hfound
  subst hid
  simp only [Bool.or_eq_true, Bool.not_eq_true', not_or, Bool.not_eq_false] at hshown
  refine ⟨id, item, buckets, hitem, rfl, hshown.1, normaliseCondition_of_seat hshown.2, by
    simpa [FormItem.seat] using htype, fun option hoption => ?_⟩
  obtain ⟨hmem, hne⟩ := mem_filter.mp hoption
  have hgrouped := any_eq_false.mp h option hmem
  simp only [Bool.or_eq_true, decide_eq_true_eq, Bool.not_eq_true', not_or, Bool.not_eq_false, contains_iff_mem,
    mem_flatMap] at hgrouped
  exact hgrouped.2

/-- The options a required, shown and accepted choice names: one at least, each declared. -/
theorem chosen_of_accepted {gridQuestions : List String} {value : Option Value}
    (hchoice : isChoiceType item.type.name = true)
    (hpriced : gridQuestions.contains item.id = true) (hanswered : isQuestionAnswered item value = true)
    (haccepted : declaredAnswer gridQuestions item value = true) :
    ∃ option ∈ declaredOptions item, ∃ v, value = some v ∧ option ∈ v.ids := by
  have hmatrix : isMatrix item = false := by
    unfold isMatrix
    cases htype : item.type <;> simp [htype, QuestionType.name, isChoiceType] at hchoice ⊢
  have hvalue : hasValue value = true := by
    unfold isQuestionAnswered at hanswered
    rwa [hmatrix] at hanswered
  have hempty : isEmptyChoice value = false := by
    cases value with
    | none => cases hvalue
    | some v => cases v <;> simp_all [hasValue, isEmptyChoice]
  have hdecides : decidesPrice item gridQuestions = true := by
    unfold decidesPrice
    rw [hpriced, Bool.true_or]
  unfold declaredAnswer at haccepted
  rw [hdecides, hempty, Bool.not_true, Bool.false_or, Bool.false_or, Option.any_eq_true] at haccepted
  obtain ⟨chosen, hchosen, hdeclared⟩ := haccepted
  simp only [Bool.and_eq_true, all_eq_true, contains_iff_mem] at hdeclared
  unfold chosenOptions at hchosen
  split at hchosen
  · obtain rfl := Option.some.inj hchosen
    exact ⟨_, hdeclared.2 _ mem_cons_self, _, rfl, mem_cons_self⟩
  · obtain rfl := Option.some.inj hchosen
    exact ⟨_, hdeclared.2 _ mem_cons_self, _, rfl, mem_cons_self⟩
  · rename_i ids _
    obtain rfl := Option.some.inj hchosen
    cases ids with
    | nil => cases hvalue
    | cons option rest => exact ⟨option, hdeclared.2 _ mem_cons_self, _, rfl, mem_cons_self⟩
  · cases hchosen

/-- An option of a group is not "everyone else"'s. -/
theorem bucketFor_ne_others {facts : PricingFacts} {id questionId option : String}
    {buckets : List (Bucket (List String))} {selected : List String}
    (hreserved : ∀ b ∈ buckets, b.id ≠ OTHERS_BUCKET_ID) (hselected : facts.answers questionId = some selected)
    (hoption : option ∈ selected)
    (hgrouped : ∃ b ∈ buckets, option ∈ b.accepts) :
    bucketFor facts (.answer id questionId buckets) ≠ OTHERS_BUCKET_ID := by
  obtain ⟨b, hb, hin⟩ := hgrouped
  have hclaims : matchesAnswer questionId b.accepts facts = true := by
    unfold matchesAnswer
    rw [hselected]
    exact List.any_eq_true.mpr ⟨option, hoption, contains_iff_mem.mpr hin⟩
  rw [bucketFor, firstBucket]
  split
  · rename_i found hfound
    exact hreserved found (mem_of_find?_eq_some hfound)
  · rename_i hnone
    exact absurd hclaims (find?_eq_none.mp hnone b hb)

def guestFacts (items : List FormItem) (answers : Answers) : PricingFacts :=
  let facts : PricingFacts := ⟨guest, answerSelections items answers⟩
  ⟨guest, fun q => if (visibleItemIds items facts).contains q then facts.answers q else none⟩

/-- The answers `submit` takes of a guest: the priced ones declared, the required ones given. -/
structure GuestAccepted (form : Form) (matrix : PriceMatrix) (answers : Answers) : Prop where
  declared : assertDeclaredOptionAnswers form.items answers
    (visibleItemIds form.items ⟨guest, answerSelections form.items answers⟩)
    (pricedQuestionIds (some matrix)) = none
  required : ∀ item ∈ form.items, item.id ∈ visibleItemIds form.items ⟨guest, answerSelections form.items answers⟩ →
    item.required = true →
    isProductGrid item = false → isQuestionAnswered item (answers.lookup item.id) = true

theorem bucketFor_guest {matrix : PriceMatrix} {answers : Answers} (hm : form.priceMatrix = some matrix)
    (haccepted : GuestAccepted form matrix answers)
    {d : Dimension} (hd : d ∈ matrix.dimensions) (hreach : othersReachable d (form.items.map FormItem.seat) = false) :
    bucketFor (guestFacts form.items answers) d ≠ OTHERS_BUCKET_ID := by
  obtain ⟨id, item, buckets, hitem, rfl, hrequired, hshown, hchoice, hgrouped⟩ := othersReachable_eq_false hreach
  have hvisible : item.id ∈ visibleItemIds form.items ⟨guest, answerSelections form.items answers⟩ := by
    refine visibleItemIds_iff.mpr (.intro (byId_eq form.unique hitem) (fun c hc => ?_) fun c a hc => ?_)
    · rw [hshown] at hc
      cases hc
    · rw [hshown] at hc
      cases hc
  have hpriced : (pricedQuestionIds (some matrix)).contains item.id = true :=
    contains_iff_mem.mpr (mem_filterMap.mpr ⟨_, hd, rfl⟩)
  have hgrid : isProductGrid item = false := by
    unfold isProductGrid
    cases htype : item.type <;> simp [htype, QuestionType.name, isChoiceType] at hchoice ⊢
  have hdeclared : declaredAnswer (pricedQuestionIds (some matrix)) item (answers.lookup item.id) = true := by
    have hnone := find?_eq_none.mp (Option.map_eq_none_iff.mp haccepted.declared) item hitem
    rw [contains_iff_mem.mpr hvisible] at hnone
    simpa using hnone
  obtain ⟨option, hoption, v, hv, hin⟩ :=
    chosen_of_accepted hchoice hpriced (haccepted.required item hitem hvisible hrequired hgrid) hdeclared
  refine bucketFor_ne_others (fun b hb => ?_) ?_ hin (hgrouped option hoption)
  · exact (accepted_dimension (form.accepted matrix hm) hd).2.2 b.id (mem_map_of_mem hb)
  · have hdeclaredItem : (form.items.any fun other => other.id == item.id) = true :=
      List.any_eq_true.mpr ⟨item, hitem, beq_self_eq_true _⟩
    simp only [guestFacts, contains_iff_mem.mpr hvisible, if_true, answerSelections, hdeclaredItem, hv, Option.map_some]

/-- On a form the save accepts no guest gets the fallback cell for free. -/
theorem fallback_is_paid {matrix : PriceMatrix} (hm : form.priceMatrix = some matrix) (hcharges : charges matrix = true)
    (hsaved : freeFallbackCells (some matrix) (form.items.map FormItem.seat) = []) {answers : Answers}
    (haccepted : GuestAccepted form matrix answers)
    (hothers : ∀ d ∈ matrix.dimensions, bucketFor (guestFacts form.items answers) d = OTHERS_BUCKET_ID) :
    resolveCellPrice matrix (guestFacts form.items answers) ≠ some (some 0) := by
  intro hfree
  have hkey : cellKeyFor matrix (guestFacts form.items answers) = fallbackKey matrix.dimensions :=
    congrArg cellKey (map_congr_left hothers)
  unfold resolveCellPrice at hfree
  rw [hkey] at hfree
  have hreach : ∀ d ∈ matrix.dimensions, othersReachable d (form.items.map FormItem.seat) = true := by
    intro d hd
    by_contra hno
    exact bucketFor_guest hm haccepted hd (by simpa using hno) (hothers d hd)
  have hmem := mem_freeFallbackCells_of (accepted_of_valid (form.accepted matrix hm)).nonempty hcharges hfree hreach
  rw [hsaved] at hmem
  cases hmem

theorem guestFreeCellKey_isSome_iff {m : Option PriceMatrix} {items : List SeatItem}
    (hne : ∀ g ∈ m, ∀ d ∈ g.dimensions, ∀ id ∈ d.bucketIds, id ≠ "") :
    (guestFreeCellKey m items).isSome = true ↔ freeFallbackCells m items ≠ [] := by
  cases m with
  | none => simp [guestFreeCellKey, freeFallbackCells]
  | some m =>
    rw [Option.isSome_iff_exists]
    constructor
    · rintro ⟨key, hkey⟩
      exact ne_nil_of_mem ((editor_agrees (hne m rfl) key).mp hkey)
    · intro h
      obtain ⟨key, hkey⟩ := exists_mem_of_ne_nil _ h
      exact ⟨key, (editor_agrees (hne m rfl) key).mpr hkey⟩

/-- On a form the save accepts a guest never gets the fallback cell for free; and, of any grid, the
    editor flags a cell exactly when the save refuses one. -/
theorem guests_pay_iff_flagged :
    (∀ (form : Form) (matrix : PriceMatrix), form.priceMatrix = some matrix → charges matrix = true →
      freeFallbackCells (some matrix) (form.items.map FormItem.seat) = [] → ∀ answers, GuestAccepted form matrix answers →
      (∀ d ∈ matrix.dimensions, bucketFor (guestFacts form.items answers) d = OTHERS_BUCKET_ID) →
      resolveCellPrice matrix (guestFacts form.items answers) ≠ some (some 0)) ∧
    ∀ (m : Option PriceMatrix) (items : List SeatItem), (∀ g ∈ m, ∀ d ∈ g.dimensions, ∀ id ∈ d.bucketIds, id ≠ "") →
      ((guestFreeCellKey m items).isSome = true ↔ freeFallbackCells m items ≠ []) :=
  ⟨fun _ _ hm hcharges hsaved _ haccepted => fallback_is_paid hm hcharges hsaved haccepted,
    fun _ _ => guestFreeCellKey_isSome_iff⟩

end

/-! ## A meal -/

def mealGrid (fallback : Int) : PriceMatrix where
  dimensions := [.promo "d1" [⟨"p", "2020", [2020]⟩],
    .answer "d2" "meal" [⟨"no", "Without", ["none"]⟩, ⟨"yes", "Menu", ["menu"]⟩]]
  cells := [("p|no", some 0), ("p|yes", some 500), ("p|_others", some 0), ("_others|no", some 0),
    ("_others|yes", some 1000), ("_others|_others", some fallback)]

theorem free_nonneg : (0 : Int) ≤ 0 := by decide

def mealQuestion (required : Bool) : FormItem :=
  { id := "meal", type := .singleChoice, required, options := [⟨"none", 0, free_nonneg⟩, ⟨"menu", 0, free_nonneg⟩] }

def mealForm : Form where
  items := [mealQuestion true]
  basePrice := 0
  priceMatrix := some (mealGrid 0)
  submitCondition := none
  unique := by decide
  baseNonneg := free_nonneg
  accepted := by rintro m hm; cases hm; decide

def optionalMealForm : Form where
  items := [mealQuestion false]
  basePrice := 0
  priceMatrix := some (mealGrid 800)
  submitCondition := none
  unique := by decide
  baseNonneg := free_nonneg
  accepted := by rintro m hm; cases hm; decide

def emptyIdGrid : PriceMatrix where
  dimensions := [.answer "d1" "q1" [⟨"", "A", ["a"]⟩], .answer "d2" "q2" [⟨"x", "B", ["b"]⟩]]
  cells := [("x", some 100), ("_others", some 0), ("_others|x", some 100), ("_others|_others", some 100)]

/-- The save accepts the form, and a guest who goes without a meal pays 0 in a cell with no group of the
    person's; so does, before the required questions are looked at, one who left the question empty.
    With an empty group id the editor flags nothing where the save refuses. -/
theorem a_free_choice_is_free :
    charges (mealGrid 0) = true ∧ freeFallbackCells (some (mealGrid 0)) (mealForm.items.map FormItem.seat) = [] ∧
    GuestAccepted mealForm (mealGrid 0) [("meal", .text "none")] ∧ isGuestCell (mealGrid 0) "_others|no" = true ∧
    cellKeyFor (mealGrid 0) (guestFacts mealForm.items [("meal", .text "none")]) = "_others|no" ∧
    resolveCellPrice (mealGrid 0) (guestFacts mealForm.items [("meal", .text "none")]) = some (some 0) ∧
    assertDeclaredOptionAnswers mealForm.items [] (visibleItemIds mealForm.items ⟨guest, fun _ => none⟩)
      (pricedQuestionIds (some (mealGrid 0))) = none ∧
    resolveCellPrice (mealGrid 0) (guestFacts mealForm.items []) = some (some 0) ∧
    guestFreeCellKey (some emptyIdGrid) [] = none ∧ freeFallbackCells (some emptyIdGrid) [] = ["_others"] := by
  refine ⟨by decide, by decide, ⟨by decide, ?_⟩, by decide, by decide, by decide, by decide,
    by decide, by decide, by decide⟩
  intro item hitem _ _ _
  obtain rfl := mem_singleton.mp hitem
  decide

/-- A guest who skips the question pays the fallback price. -/
theorem skipped_meal_is_paid : cellKeyFor (mealGrid 800) (guestFacts optionalMealForm.items []) = "_others|_others" ∧
    resolveCellPrice (mealGrid 800) (guestFacts optionalMealForm.items []) ≠ some (some 0) := by
  have haccepted : GuestAccepted optionalMealForm (mealGrid 800) [] := by
    refine ⟨by decide, fun item hitem _ hrequired _ => ?_⟩
    obtain rfl := mem_singleton.mp hitem
    cases hrequired
  refine ⟨by decide, guests_pay_iff_flagged.1 optionalMealForm (mealGrid 800) rfl (by decide) (by decide) [] haccepted ?_⟩
  intro d hd
  simp only [mealGrid, mem_cons, not_mem_nil, or_false] at hd
  rcases hd with rfl | rfl <;> decide

end Canari.Forms.Fill
