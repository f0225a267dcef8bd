/-
  Canari.Forms.CellKeys — the key of a price: the ids of its groups joined with `|`
  (social-service pricing/price-matrix.ts: `cellKey`, `allCellKeys`, `expectedCellCount`, and the
  editor's copy of them, frontend lib/pricing/priceMatrix.ts).

  The save accepts any group id that is a text, not blank and not `_others`. An id that holds the
  separator makes its keys ambiguous: with groups `a`, `a|b` in one criterion and `b|c`, `c` in
  the next, `a` with `b|c` and `a|b` with `c` are one cell, and the price of one is charged for the
  other (`a_price_for_two_combinations`). Without it the codec is faithful, and with it it never
  is: `faithful_iff`. The slice sent to the page joins the groups of the answer criteria alone, so
  two combinations may share a key there and not in the grid: the page reads the price the server
  charges just when the last of them has it (`slice_reads_own_cell_iff`).
-/

import Canari.Forms.Criteria
import Canari.Forms.OneBucket
import Canari.Lib.JsText

namespace Canari.Forms.Fill

open Lib.JsText (not_mem_of_mem_splitOn)
open List

def IsVector (dimensions : List Dimension)
    (v : List String) : Prop := List.Forall₂ (fun id d => id ∈ d.groups) v dimensions

/-- `key.split('|')`. -/
def splitKey (key : String) : List String := (key.toList.splitOn '|').map String.ofList

def PriceMatrix.setPrice (matrix : PriceMatrix) (v : List String) (value : CellValue) : PriceMatrix :=
  { matrix with cells := (cellKey v, value) :: matrix.cells }

structure Faithful (matrix : PriceMatrix) : Prop where
  injective : ∀ v w, IsVector matrix.dimensions v → IsVector matrix.dimensions w → cellKey v = cellKey w → v = w
  count : (allCellKeys matrix.dimensions).Nodup ∧
    (allCellKeys matrix.dimensions).length = expectedCellCount matrix.dimensions
  split : ∀ v, IsVector matrix.dimensions v → splitKey (cellKey v) = v
  charged : ∀ v value facts, IsVector matrix.dimensions v → matrix.dimensions.map (bucketFor facts) ≠ v →
    resolveCellPrice (matrix.setPrice v value) facts = resolveCellPrice matrix facts

/-! ## Splitting a key -/

variable {dimensions : List Dimension} {v w : List String}

theorem splitKey_cellKey (hne : v ≠ []) (h : ∀ id ∈ v, '|' ∉ id.toList) : splitKey (cellKey v) = v := by
  have hlist : (cellKey v).toList = ['|'].intercalate (v.map String.toList) := String.toList_intercalate
  have hparts : ∀ part ∈ v.map String.toList, '|' ∉ part := by
    intro part hpart
    obtain ⟨id, hid, rfl⟩ := mem_map.mp hpart
    exact h id hid
  rw [splitKey, hlist, splitOn_intercalate '|' hparts (by simpa using hne), map_map]
  exact (map_congr_left fun id _ => String.ofList_toList).trans (map_id v)

theorem no_bar_of_mem_splitKey {key part : String} (h : part ∈ splitKey key) : '|' ∉ part.toList := by
  obtain ⟨cs, hcs, rfl⟩ := mem_map.mp h
  rw [String.toList_ofList]
  exact not_mem_of_mem_splitOn hcs

theorem IsVector.length (h : IsVector dimensions v) : v.length = dimensions.length := List.Forall₂.length_eq h

theorem isVector_bucketFor (facts : PricingFacts)
    (dimensions : List Dimension) : IsVector dimensions (dimensions.map (bucketFor facts)) := by
  unfold IsVector
  rw [List.forall₂_map_left_iff, List.forall₂_same]
  exact fun d _ => bucketFor_mem facts d

theorem IsVector.exists_dimension (h : IsVector dimensions v) {id : String}
    (hid : id ∈ v) : ∃ d ∈ dimensions, id ∈ d.groups := by
  obtain ⟨d, hd, hg⟩ := exists_of_forall₂ (List.Forall₂.flip h) hid
  exact ⟨d, hd, hg⟩

/-! ## The keys of a complete grid -/

def vectors (dimensions : List Dimension) : List (List String) :=
  dimensions.foldl (fun acc d => acc.flatMap fun start => d.groups.map fun id => start ++ [id]) [[]]

theorem mem_vectors : v ∈ vectors dimensions ↔ IsVector dimensions v := by
  rw [vectors, mem_foldl_groups Dimension.groups]
  simp [IsVector]

theorem cellKey_ne_empty {v : List String} (hne : v ≠ []) (h : ∀ id ∈ v, id ≠ "") : cellKey v ≠ "" := by
  cases v with
  | nil => exact absurd rfl hne
  | cons first rest =>
    have hfirst := h first mem_cons_self
    rw [cellKey]
    cases rest with
    | nil => simpa using hfirst
    | cons second rest =>
      simp [hfirst]

theorem cellKey_concat {start : List String} (hne : ∀ id ∈ start, id ≠ "") (id : String) :
    (if cellKey start = "" then id else cellKey start ++ "|" ++ id) = cellKey (start ++ [id]) := by
  cases start with
  | nil => simp [cellKey]
  | cons first rest =>
    rw [if_neg (cellKey_ne_empty (by simp) hne), cellKey, cellKey,
      String.intercalate_append_of_ne_nil (by simp) (by simp), String.intercalate_singleton]

theorem allCellKeys_eq (hne : ∀ d ∈ dimensions, ∀ id ∈ d.groups, id ≠ "") :
    allCellKeys dimensions = (vectors dimensions).map cellKey := by
  have hfold : ∀ (dims : List Dimension) (acc : List (List String)), (∀ d ∈ dims, ∀ id ∈ d.groups, id ≠ "") →
    (∀ start ∈ acc, ∀ id ∈ start, id ≠ "") →
      dims.foldl (fun keys d => keys.flatMap fun key => d.groups.map fun id => if key = "" then id else
        key ++ "|" ++ id) (acc.map cellKey) =
        (dims.foldl (fun acc d => acc.flatMap fun start => d.groups.map fun id => start ++ [id]) acc).map cellKey := by
    intro dims
    induction dims with
    | nil => exact fun _ _ _ => rfl
    | cons d rest ih =>
      intro acc hd hacc
      have hstep : (acc.map cellKey).flatMap
        (fun key => d.groups.map fun id => if key = "" then id else key ++ "|" ++ id) =
          (acc.flatMap fun start => d.groups.map fun id => start ++ [id]).map cellKey := by
        rw [flatMap_map, map_flatMap]
        refine flatMap_congr fun start hstart => ?_
        rw [map_map]
        exact map_congr_left fun id _ => cellKey_concat (hacc start hstart) id
      rw [foldl_cons, hstep]
      refine ih _ (fun e he => hd e (mem_cons_of_mem _ he)) fun start hstart id hid => ?_
      obtain ⟨before, hbefore, hmap⟩ := mem_flatMap.mp hstart
      obtain ⟨last, hlast, rfl⟩ := mem_map.mp hmap
      rcases mem_append.mp hid with hid | hid
      · exact hacc before hbefore id hid
      · exact mem_singleton.mp hid ▸ hd d mem_cons_self last hlast
  exact hfold dimensions [[]] hne (by simp)

theorem length_allCellKeys (dimensions : List Dimension) :
    (allCellKeys dimensions).length = expectedCellCount dimensions := by
  have hfold : ∀ (dims : List Dimension) (keys : List String),
      (dims.foldl (fun keys d => keys.flatMap fun key => d.groups.map fun id => if key = "" then id else
        key ++ "|" ++ id) keys).length =
        dims.foldl (fun n d => n * (d.bucketIds.length + 1)) keys.length := by
    intro dims
    induction dims with
    | nil => exact fun _ => rfl
    | cons d rest ih =>
      intro keys
      have hstep : (keys.flatMap fun key => d.groups.map fun id => if key = "" then id else key ++ "|" ++ id).length =
          keys.length * (d.bucketIds.length + 1) := by
        simp [length_flatMap, Dimension.groups]
      rw [foldl_cons, foldl_cons, ih, hstep]
  exact hfold dimensions [""]

theorem nodup_vectors (h : ∀ d ∈ dimensions, d.groups.Nodup) : (vectors dimensions).Nodup := by
  have hfold : ∀ (dims : List Dimension) (acc : List (List String)), (∀ d ∈ dims, d.groups.Nodup) → acc.Nodup →
      (dims.foldl (fun acc d => acc.flatMap fun start => d.groups.map fun id => start ++ [id]) acc).Nodup := by
    intro dims
    induction dims with
    | nil => exact fun _ _ hacc => hacc
    | cons d rest ih =>
      intro acc hd hacc
      refine ih _ (fun e he => hd e (mem_cons_of_mem _ he)) ?_
      refine nodup_flatMap.mpr ⟨fun start _ => ?_, hacc.imp fun {a b} hab => ?_⟩
      · exact (hd d mem_cons_self).map fun x y hxy => singleton_inj.mp (append_cancel_left hxy)
      · intro v hva hvb
        obtain ⟨x, -, rfl⟩ := mem_map.mp hva
        obtain ⟨y, -, hxy⟩ := mem_map.mp hvb
        exact hab (append_inj_left' hxy rfl).symm
  exact hfold dimensions [[]] h (nodup_singleton _)

/-! ## What the save accepts -/

section

variable {raw : Document} {ctx : CriteriaContext} {subject : PricedSubject} {matrix : PriceMatrix}

theorem accepted_groups (h : parsePriceMatrix raw ctx subject = .ok matrix) :
    ∀ d ∈ matrix.dimensions, d.groups.Nodup ∧ ∀ id ∈ d.groups, id ≠ "" := by
  obtain ⟨haccepted, hids⟩ := parsePriceMatrix_accepted h
  intro d hd
  constructor
  · have hnodup := (accepted_dimension haccepted hd).1
    refine nodup_append.mpr ⟨hnodup, nodup_singleton _, ?_⟩
    rintro a ha b hb rfl
    exact (hids d hd a ha).2 (mem_singleton.mp hb)
  · intro id hid
    rcases mem_append.mp hid with hid | hid
    · rintro rfl
      exact (hids d hd "" hid).1 rfl
    · rw [mem_singleton.mp hid]
      decide

theorem accepted_cell (h : parsePriceMatrix raw ctx subject = .ok matrix) (hv : IsVector matrix.dimensions v) :
    ∃ value, matrix.cells.lookup (cellKey v) = some value := by
  refine (accepted_of_valid (parsePriceMatrix_accepted h).1).complete _ ?_
  rw [allCellKeys_eq fun d hd => (accepted_groups h d hd).2]
  exact mem_map_of_mem ((mem_vectors).mpr hv)

/-- The codec of an accepted grid is faithful just when no group id holds the separator. -/
theorem faithful_iff (raw : Document) (ctx : CriteriaContext) (subject : PricedSubject) (matrix : PriceMatrix)
    (h : parsePriceMatrix raw ctx subject = .ok matrix) :
    Faithful matrix ↔ ∀ d ∈ matrix.dimensions, ∀ id ∈ d.bucketIds, '|' ∉ id.toList := by
  have hgroups := accepted_groups h
  constructor
  · -- the combination with this group and "everyone else" for the others does not split back
    intro hf d hd id hid
    have hvector : IsVector matrix.dimensions
      (matrix.dimensions.map fun e => if e = d then id else OTHERS_BUCKET_ID) := by
      unfold IsVector
      rw [List.forall₂_map_left_iff, List.forall₂_same]
      intro e _
      split
      · rename_i e
        exact e ▸ mem_append_left _ hid
      · exact mem_append_right _ (mem_singleton_self _)
    have hmem : id ∈ matrix.dimensions.map fun e => if e = d then id else OTHERS_BUCKET_ID :=
      mem_map.mpr ⟨d, hd, if_pos rfl⟩
    rw [← hf.split _ hvector] at hmem
    exact no_bar_of_mem_splitKey hmem
  · intro hbar
    have hvector : ∀ v, IsVector matrix.dimensions v → splitKey (cellKey v) = v := by
      intro v hv
      refine splitKey_cellKey ?_ fun id hid => ?_
      · rintro rfl
        exact (accepted_of_valid (parsePriceMatrix_accepted h).1).nonempty (length_eq_zero_iff.mp hv.length.symm)
      · obtain ⟨d, hd, hg⟩ := hv.exists_dimension hid
        rcases mem_append.mp hg with hg | hg
        · exact hbar d hd id hg
        · rw [mem_singleton.mp hg]
          decide
    have hinj : ∀ v w, IsVector matrix.dimensions v → IsVector matrix.dimensions w → cellKey v = cellKey w → v = w := by
      intro v w hv hw hkey
      rw [← hvector v hv, ← hvector w hw, hkey]
    refine ⟨hinj, ⟨?_, length_allCellKeys _⟩, hvector, fun v value facts hv hne => ?_⟩
    · rw [allCellKeys_eq fun d hd => (hgroups d hd).2]
      refine List.Nodup.map_on (fun v hv w hw => ?_) (nodup_vectors fun d hd => (hgroups d hd).1)
      exact hinj v w ((mem_vectors).mp hv) ((mem_vectors).mp hw)
    · have hkey : cellKeyFor matrix facts ≠ cellKey v := fun e => hne (hinj _ v (isVector_bucketFor facts _) hv e)
      show ((cellKey v, value) :: matrix.cells).lookup (cellKeyFor matrix facts) = _
      rw [lookup_cons, beq_false_of_ne hkey]
      rfl

/-! ## The slice the page reads -/

/-- What the page holds for a question, and the option ids the server reads of it. -/
inductive Given : Option Value → Option (List String) → Prop
  | unanswered : Given none none
  | one (id : String) (h : id ≠ "") : Given (some (.text id)) (some [id])
  | many (ids : List String) : Given (some (.list ids)) (some ids)

theorem bucketIdOf_given {questionId : String} {answers : String → Option (List String)} {selection : Option Value}
    (profile : Profile)
    (h : Given selection (answers questionId)) (id : String) (buckets : List (Bucket (List String))) :
    bucketIdOf ⟨id, questionId, buckets⟩ selection = bucketFor ⟨profile, answers⟩ (.answer id questionId buckets) := by
  have hclaims : ∀ chosen : List String, answers questionId = some chosen →
      bucketFor ⟨profile, answers⟩ (.answer id questionId buckets) = firstBucket buckets fun values =>
        chosen.any values.contains := by
    intro chosen hchosen
    simp only [bucketFor, matchesAnswer, hchosen]
  generalize hanswer : answers questionId = answer at h
  cases h with
  | unanswered => simp [bucketIdOf, bucketFor, matchesAnswer, hanswer]
  | one s hs =>
    rw [hclaims _ hanswer]
    simp [bucketIdOf, Value.truthy, Value.string, hs]
  | many ids => rw [hclaims _ hanswer, bucketIdOf]

def answerGroups (matrix : PriceMatrix) (facts : PricingFacts) : List String :=
  (openCriteria matrix facts.toProfile).map fun d => bucketFor facts (.answer d.id d.questionId d.buckets)

/-- Of the combinations with the key of these answers the last has their price; under `__proto__` no
    price can be sent. -/
def OwnCell (matrix : PriceMatrix) (facts : PricingFacts) : Prop :=
  if cellKey (answerGroups matrix facts) = "__proto__" then
    gridPrice matrix facts.toProfile (answerGroups matrix facts) = none
  else ∀ last ∈ (combinations (openCriteria matrix facts.toProfile)).reverse.find?
    (fun c => cellKey c = cellKey (answerGroups matrix facts)),
    gridPrice matrix facts.toProfile last = gridPrice matrix facts.toProfile (answerGroups matrix facts)

/-- No group holds the separator, and none is the key that cannot be written. -/
def PlainGroups (views : List AnswerDimensionView) : Prop :=
  ∀ view ∈ views, ∀ id ∈ view.groups, '|' ∉ id.toList ∧ id ≠ "__proto__"

section Plain

variable {views : List AnswerDimensionView} (hplain : PlainGroups views)

include hplain

theorem plain_of_mem {c : List String} (hc : c ∈ combinations views) : ∀ id ∈ c, '|' ∉ id.toList ∧ id ≠ "__proto__" := by
  intro id hid
  obtain ⟨view, hview, hmem⟩ := exists_of_forall₂ (List.Forall₂.flip (mem_combinations_iff.mp hc)) hid
  exact hplain view hview id hmem

theorem plain_inj {c c' : List String} (hc : c ∈ combinations views) (hc' : c' ∈ combinations views)
    (h : cellKey c = cellKey c') : c = c' := by
  have hlen := (mem_combinations_iff.mp hc).length_eq
  have hlen' := (mem_combinations_iff.mp hc').length_eq
  cases hv : views with
  | nil =>
    rw [hv] at hlen hlen'
    rw [length_eq_zero_iff.mp hlen, length_eq_zero_iff.mp hlen']
  | cons view rest =>
    have hne : ∀ {d : List String}, d.length = views.length → d ≠ [] := by
      rintro d hd rfl
      rw [hv] at hd
      cases hd
    rw [← splitKey_cellKey (hne hlen) fun id hid => (plain_of_mem hplain hc id hid).1, h,
      splitKey_cellKey (hne hlen') fun id hid => (plain_of_mem hplain hc' id hid).1]

theorem plain_ne_proto {c : List String} (hc : c ∈ combinations views) : cellKey c ≠ "__proto__" := by
  intro h
  cases c with
  | nil => exact absurd h (by decide)
  | cons id rest =>
    have hsplit := splitKey_cellKey (cons_ne_nil id rest) fun id' hid => (plain_of_mem hplain hc id' hid).1
    rw [h] at hsplit
    obtain ⟨rfl, -⟩ := cons.inj hsplit
    exact (plain_of_mem hplain hc _ mem_cons_self).2 rfl

theorem find_plain {c : List String} (hc : c ∈ combinations views) :
    ((combinations views).reverse.find? fun c' => cellKey c' = cellKey c) = some c := by
  cases hfind : (combinations views).reverse.find? fun c' => cellKey c' = cellKey c with
  | none => exact absurd (decide_eq_true rfl) (find?_eq_none.mp hfind c (mem_reverse.mpr hc))
  | some c' =>
    have hkey : cellKey c' = cellKey c := by simpa using find?_some hfind
    rw [plain_inj hplain (mem_reverse.mp (mem_of_find?_eq_some hfind)) hc hkey]

end Plain

theorem answerGroups_mem (matrix : PriceMatrix) (facts : PricingFacts) :
    answerGroups matrix facts ∈ combinations (openCriteria matrix facts.toProfile) :=
  mem_combinations _ _ fun view _ => bucketFor_mem facts (.answer view.id view.questionId view.buckets)

theorem ownCell_of_plain (facts : PricingFacts) (h : PlainGroups (openCriteria matrix facts.toProfile)) : OwnCell matrix facts := by
  have hmem := answerGroups_mem matrix facts
  rw [OwnCell, if_neg (plain_ne_proto h hmem), find_plain h hmem]
  rintro last ⟨⟩
  rfl

/-- An accepted grid charges everyone a price or a refusal, and the page reads that very value just when
    the last combination with the key of its answers has their price. -/
theorem slice_reads_own_cell_iff (raw : Document) (ctx : CriteriaContext) (subject : PricedSubject)
    (matrix : PriceMatrix)
    (h : parsePriceMatrix raw ctx subject = .ok matrix) (profile : Profile) (selections : Selections)
    (answers : String → Option (List String))
    (hgiven : ∀ q ∈ pricedQuestionIds (some matrix), Given (selections q) (answers q)) :
    ∃ value, resolveCellPrice matrix ⟨profile, answers⟩ = some value ∧ (∀ cents, value = some cents → 0 ≤ cents) ∧
      (sliceCell matrix profile selections = value ↔ OwnCell matrix ⟨profile, answers⟩) := by
  obtain ⟨value, hvalue⟩ := accepted_cell h (isVector_bucketFor ⟨profile, answers⟩ matrix.dimensions)
  refine ⟨value, hvalue, ?_, ?_⟩
  · rintro cents rfl
    exact accepted_nonneg (parsePriceMatrix_accepted h).1 hvalue
  · have hgroups : ∀ id q b, .answer id q b ∈ matrix.dimensions →
      bucketIdOf ⟨id, q, b⟩ (selections q) = bucketFor ⟨profile, answers⟩ (.answer id q b) := by
      intro id q b hmem
      exact bucketIdOf_given profile (hgiven q (mem_filterMap.mpr ⟨_, hmem, rfl⟩)) id b
    have hown : (openCriteria matrix profile).map
      (fun d => bucketIdOf d (selections d.questionId)) = answerGroups matrix ⟨profile, answers⟩ :=
      map_congr_left fun d hd => hgroups _ _ _ (mem_openCriteria hd)
    have hprice : gridPrice matrix profile (answerGroups matrix ⟨profile, answers⟩) = value := by
      rw [← hown, gridPrice_eq (fun d => bucketIdOf d (selections d.questionId)) rfl hgroups]
      exact congrArg (fun found : Option CellValue => found.getD none) hvalue
    have hmem := answerGroups_mem matrix ⟨profile, answers⟩
    rw [sliceCell_last hown]
    unfold OwnCell
    rw [hprice]
    split
    · exact eq_comm
    · cases hfind : (combinations (openCriteria matrix profile)).reverse.find? fun c =>
        cellKey c = cellKey (answerGroups matrix ⟨profile, answers⟩) with
      | none => exact absurd (decide_eq_true rfl) (find?_eq_none.mp hfind _ (mem_reverse.mpr hmem))
      | some last => simp

end

/-! ## Two combinations, one price -/

deriving instance DecidableEq for PriceMatrix

def formationGroup (id formation : String) : Document :=
  .object [("id", .text id), ("label", .text formation), ("values", .list [.text formation])]

def formationCriterion (id : String) (groups : List (String × String)) : Document :=
  .object [("id", .text id), ("kind", .text "formation"),
    ("buckets", .list (groups.map fun g => formationGroup g.1 g.2))]

def cents (n : Int) : Document := .number ⟨some n, toString n⟩

def noAssociation : CriteriaContext := ⟨[], fun _ => none, 2026⟩

def barredGrid : Document :=
  .object
    [ ("dimensions", .list [formationCriterion "d1" [("a", "ICM"), ("a|b", "ISMIN")],
      formationCriterion "d2" [("b|c", "ICM"), ("c", "ISMIN")]])
    , ("cells", .object
        [ ("a|b|c", cents 100), ("a|c", cents 200), ("a|_others", cents 300), ("a|b|b|c", cents 400),
          ("a|b|_others", cents 500)
        , ("_others|b|c", cents 600), ("_others|c", cents 700), ("_others|_others", cents 800) ]) ]

def formationOf (formation : String) : PricingFacts := ⟨⟨none, some formation, []⟩, fun _ => none⟩

def barredMatrix : PriceMatrix where
  dimensions :=
    [ .formation "d1" [⟨"a", "ICM", ["ICM"]⟩, ⟨"a|b", "ISMIN", ["ISMIN"]⟩]
    , .formation "d2" [⟨"b|c", "ICM", ["ICM"]⟩, ⟨"c", "ISMIN", ["ISMIN"]⟩] ]
  cells :=
    [ ("a|b|c", some 100), ("a|c", some 200), ("a|_others", some 300), ("a|b|b|c", some 400), ("a|b|_others", some 500)
    , ("_others|b|c", some 600), ("_others|c", some 700), ("_others|_others", some 800) ]

/-- The grid is accepted; `a` with `b|c` and `a|b` with `c` are one cell, so the price set for the first
    is charged for the second. -/
theorem a_price_for_two_combinations :
    parsePriceMatrix barredGrid noAssociation .form = .ok barredMatrix ∧ ¬ Faithful barredMatrix ∧
    IsVector barredMatrix.dimensions ["a", "b|c"] ∧
      barredMatrix.dimensions.map (bucketFor (formationOf "ISMIN")) = ["a|b", "c"] ∧
    resolveCellPrice barredMatrix (formationOf "ISMIN") = some (some 100) ∧
    resolveCellPrice (barredMatrix.setPrice ["a", "b|c"] (some 50)) (formationOf "ISMIN") = some (some 50) := by
  have hfirst : IsVector barredMatrix.dimensions ["a", "b|c"] := .cons (by decide) (.cons (by decide) .nil)
  have hsecond : IsVector barredMatrix.dimensions ["a|b", "c"] := .cons (by decide) (.cons (by decide) .nil)
  refine ⟨by decide, fun hf => ?_, hfirst, by decide, by decide, by decide⟩
  exact absurd (hf.injective _ _ hfirst hsecond (by decide)) (by decide)

def plainGrid : Document :=
  .object [("dimensions", .list [formationCriterion "d1" [("a", "ICM")]]),
    ("cells", .object [("a", cents 100), ("_others", .null)])]

def plainMatrix : PriceMatrix := ⟨[.formation "d1" [⟨"a", "ICM", ["ICM"]⟩]], [("a", some 100), ("_others", none)]⟩

theorem plainGrid_faithful : parsePriceMatrix plainGrid noAssociation .form = .ok plainMatrix ∧
    Faithful plainMatrix := by
  have h : parsePriceMatrix plainGrid noAssociation .form = .ok plainMatrix := by decide
  refine ⟨h, (faithful_iff plainGrid noAssociation .form plainMatrix h).mpr fun d hd id hid => ?_⟩
  obtain rfl := mem_singleton.mp hd
  obtain rfl := mem_singleton.mp hid
  decide

/-! ## Two combinations, one key of the slice -/

def answerCriterion (id questionId : String) (groups : List (String × String)) : Document :=
  .object [("id", .text id), ("kind", .text "answer"), ("questionId", .text questionId),
    ("buckets", .list (groups.map fun g => formationGroup g.1 g.2))]

def slicedMatrix : PriceMatrix where
  dimensions :=
    [ .answer "d1" "colour" [⟨"a", "x", ["x"]⟩, ⟨"a|b", "y", ["y"]⟩], .formation "d2" [⟨"p", "ICM", ["ICM"]⟩]
    , .answer "d3" "size" [⟨"c", "u", ["u"]⟩, ⟨"b|c", "v", ["v"]⟩] ]
  cells :=
    [ ("a|p|c", some 0), ("a|p|b|c", some 0), ("a|p|_others", some 0), ("a|_others|c", some 0),
      ("a|_others|b|c", some 100), ("a|_others|_others", some 0)
    , ("a|b|p|c", some 0), ("a|b|p|b|c", some 0), ("a|b|p|_others", some 0), ("a|b|_others|c", some 50),
      ("a|b|_others|b|c", some 0)
    , ("a|b|_others|_others", some 0), ("_others|p|c", some 0), ("_others|p|b|c", some 0),
      ("_others|p|_others", some 0), ("_others|_others|c", some 0)
    , ("_others|_others|b|c", some 0), ("_others|_others|_others", some 0) ]

def slicedGrid : Document :=
  .object
    [ ("dimensions", .list [answerCriterion "d1" "colour" [("a", "x"), ("a|b", "y")],
      formationCriterion "d2" [("p", "ICM")],
        answerCriterion "d3" "size" [("c", "u"), ("b|c", "v")]])
    , ("cells", .object (slicedMatrix.cells.map fun cell => (cell.1, (cell.2.map cents).getD .null))) ]

def twoQuestions : CriteriaContext :=
  ⟨[], fun q => if q = "colour" then some ["x", "y"] else if q = "size" then some ["u", "v"] else none, 2026⟩

def nobody : Profile := ⟨none, none, []⟩

def chosen (colour size : String) : Selections :=
  fun q => if q = "colour" then some (.text colour) else if q = "size" then some (.text size) else none

def sent (colour size : String) : String → Option (List String) :=
  fun q => if q = "colour" then some [colour] else if q = "size" then some [size] else none

theorem given_chosen {colour size : String} (hc : colour ≠ "") (hs : size ≠ "") :
    ∀ q ∈ pricedQuestionIds (some slicedMatrix), Given (chosen colour size q) (sent colour size q) := by
  intro q hq
  obtain rfl | rfl : q = "colour" ∨ q = "size" := by simpa [pricedQuestionIds, slicedMatrix] using hq
  · exact .one colour hc
  · exact .one size hs

/-- The grid is accepted; on `a` with `b|c` the server charges 1 euro and the page reads the 50 cents of
    `a|b` with `c`. -/
theorem the_page_reads_another_combination :
    parsePriceMatrix slicedGrid twoQuestions .form = .ok slicedMatrix ∧
    (∀ q ∈ pricedQuestionIds (some slicedMatrix), Given (chosen "x" "v" q) (sent "x" "v" q)) ∧
    resolveCellPrice slicedMatrix ⟨nobody, sent "x" "v"⟩ = some (some 100) ∧
      sliceCell slicedMatrix nobody (chosen "x" "v") = some 50 :=
  ⟨by decide, given_chosen (by decide) (by decide), by decide, by decide⟩

/-- On `a|b` with `c`, the last of the two, they agree. -/
theorem the_page_reads_its_own : resolveCellPrice slicedMatrix ⟨nobody, sent "y" "u"⟩ = some (some 50) ∧
    sliceCell slicedMatrix nobody (chosen "y" "u") = some 50 := by
  obtain ⟨value, hvalue, -, hslice⟩ :=
    slice_reads_own_cell_iff slicedGrid twoQuestions .form slicedMatrix (by decide) nobody
    (chosen "y" "u") (sent "y" "u") (given_chosen (by decide) (by decide))
  have hcharged : resolveCellPrice slicedMatrix ⟨nobody, sent "y" "u"⟩ = some (some 50) := by decide
  obtain rfl := Option.some.inj (hvalue.symm.trans hcharged)
  exact ⟨hcharged, hslice.mpr (by unfold OwnCell; decide)⟩

end Canari.Forms.Fill
