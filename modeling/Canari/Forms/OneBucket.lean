/-
  Canari.Forms.OneBucket — which groups of a criterion claim one person
  (social-service pricing/audience.ts, pricing/price-matrix.ts).

  `findOverlappingBuckets` compares the definitions of two groups, `bucketFor` reads a person's
  facts. A promo and a formation are one value, so groups without a common value never both claim
  a person. A person may hold several tiers and select several options, and two groups without a
  common one then both claim them: the grid is accepted and the price follows the stored order.
  - `one_bucket_iff`: an accepted grid gives a person one group at most in every criterion, and
    one price in every order of the groups, exactly when no two of their tiers, and no two of
    their options, are listed in two groups of one criterion.
-/

import Canari.Forms.PriceMatrix

namespace Canari.Forms.Fill

open List

def matchingIds (facts : PricingFacts) : Dimension → List String
  | .cotisation _ buckets => (buckets.filter fun b => matchesCotisation b.accepts facts.toProfile).map (·.id)
  | .promo _ buckets => (buckets.filter fun b => matchesPromo b.accepts facts.toProfile).map (·.id)
  | .formation _ buckets => (buckets.filter fun b => matchesFormation b.accepts facts.toProfile).map (·.id)
  | .answer _ questionId buckets => (buckets.filter fun b => matchesAnswer questionId b.accepts facts).map (·.id)

inductive Reordered : Dimension → Dimension → Prop
  | cotisation (id : String) {a b : List (Bucket CotisationTest)} (h : a.Perm b) : Reordered (.cotisation id a)
      (.cotisation id b)
  | promo (id : String) {a b : List (Bucket (List Int))} (h : a.Perm b) : Reordered (.promo id a) (.promo id b)
  | formation (id : String) {a b : List (Bucket (List String))} (h : a.Perm b) : Reordered (.formation id a)
      (.formation id b)
  | answer (id questionId : String) {a b : List (Bucket (List String))} (h : a.Perm b) :
      Reordered (.answer id questionId a) (.answer id questionId b)

def Together {α β : Type} (listed : α → List β) (facts : List β) (buckets : List (Bucket α)) : Prop :=
  ∀ a ∈ buckets, ∀ b ∈ buckets, ∀ x ∈ facts, ∀ y ∈ facts, x ∈ listed a.accepts → y ∈ listed b.accepts → a.id = b.id

def NoSplit (facts : PricingFacts) : Dimension → Prop
  | .cotisation _ buckets => Together CotisationTest.variantKeys facts.cotisationTiers buckets
  | .promo _ _ => True
  | .formation _ _ => True
  | .answer _ questionId buckets => Together id ((facts.answers questionId).getD []) buckets

/-! ## What the save checked -/

theorem bucketsRefusal_none {dimensionId : String} {seen ids : List String}
    (h : bucketsRefusal dimensionId seen ids = none) :
    ids.Nodup ∧ ∀ id ∈ ids, id ∉ seen ∧ id ≠ OTHERS_BUCKET_ID := by
  induction ids generalizing seen with
  | nil => exact ⟨nodup_nil, fun _ h => by cases h⟩
  | cons i rest ih =>
    unfold bucketsRefusal at h
    split at h
    · cases h
    · rename_i hreserved
      split at h
      · cases h
      · rename_i hs
        obtain ⟨hn, hnot⟩ := ih h
        refine ⟨nodup_cons.mpr ⟨fun hm => (hnot i hm).1 mem_cons_self, hn⟩, fun j hj => ?_⟩
        rcases mem_cons.mp hj with rfl | hj
        · exact ⟨by simpa using hs, hreserved⟩
        · exact ⟨fun hm => (hnot j hj).1 (mem_cons_of_mem i hm), (hnot j hj).2⟩

theorem dimensionsRefusal_none {seen : List String} {dimensions : List Dimension}
    (h : dimensionsRefusal seen dimensions = none)
    {d : Dimension} (hd : d ∈ dimensions) : d.bucketIds.Nodup ∧ findOverlappingBuckets d = [] ∧ ∀ id ∈ d.bucketIds,
    id ≠ OTHERS_BUCKET_ID := by
  induction dimensions generalizing seen with
  | nil => cases hd
  | cons e rest ih =>
    unfold dimensionsRefusal at h
    split at h
    · cases h
    · split at h
      · cases h
      · split at h
        · cases h
        · cases h
        · rename_i hb hc
          rcases mem_cons.mp hd with rfl | hd
          · exact ⟨(bucketsRefusal_none hb).1, hc, fun id hid => ((bucketsRefusal_none hb).2 id hid).2⟩
          · exact ih h hd

theorem accepted_dimension {matrix : PriceMatrix} {maxCells : Nat} (h : assertMatrixValid matrix maxCells = none)
    {d : Dimension}
    (hd : d ∈ matrix.dimensions) : d.bucketIds.Nodup ∧ findOverlappingBuckets d = [] ∧ ∀ id ∈ d.bucketIds,
    id ≠ OTHERS_BUCKET_ID :=
  dimensionsRefusal_none (accepted_of_valid h).criteria hd

theorem mem_pairsOf {α : Type} {l : List α} {a b : α} (ha : a ∈ l) (hb : b ∈ l)
    (hne : a ≠ b) : (a, b) ∈ pairsOf l ∨ (b, a) ∈ pairsOf l := by
  induction l with
  | nil => cases ha
  | cons c rest ih =>
    rw [pairsOf, mem_append, mem_append]
    rcases mem_cons.mp ha with hac | har
    · rcases mem_cons.mp hb with hbc | hbr
      · exact absurd (hac.trans hbc.symm) hne
      · exact .inl (.inl (hac ▸ mem_map_of_mem hbr))
    · rcases mem_cons.mp hb with hbc | hbr
      · exact .inr (.inl (hbc ▸ mem_map_of_mem har))
      · exact (ih har hbr).imp .inr .inr

theorem eq_of_overlap {α : Type} {buckets : List (Bucket α)} {overlaps : α → α → Bool}
    (hsymm : ∀ x y, overlaps x y = overlaps y x)
    (h : clashesOf buckets overlaps = []) {a b : Bucket α} (ha : a ∈ buckets) (hb : b ∈ buckets)
    (ho : overlaps a.accepts b.accepts = true) :
    a = b := by
  by_contra hne
  rw [clashesOf, filterMap_eq_nil_iff] at h
  rcases mem_pairsOf ha hb hne with hp | hp
  · have := h _ hp
    simp [ho] at this
  · have := h _ hp
    simp [hsymm b.accepts, ho] at this

theorem any_contains_comm {β : Type} [BEq β] [LawfulBEq β] (x y : List β) : x.any y.contains = y.any x.contains := by
  rw [Bool.eq_iff_iff, List.any_eq_true, List.any_eq_true]
  simp only [contains_iff_mem]
  exact ⟨fun ⟨v, hx, hy⟩ => ⟨v, hy, hx⟩, fun ⟨v, hy, hx⟩ => ⟨v, hx, hy⟩⟩

/-! ## One group at most -/

section Groups

variable {α : Type} {buckets : List (Bucket α)}

theorem filter_length_le_one (claims : α → Bool) (hn : (buckets.map (·.id)).Nodup) :
    (buckets.filter fun b => claims b.accepts).length ≤ 1 ↔
      ∀ a ∈ buckets, ∀ b ∈ buckets, claims a.accepts = true → claims b.accepts = true → a.id = b.id := by
  have hf : ((buckets.filter fun b => claims b.accepts).map (·.id)).Nodup := hn.sublist (filter_sublist.map _)
  constructor
  · intro hle a ha b hb hca hcb
    have hma : a ∈ buckets.filter fun b => claims b.accepts := mem_filter.mpr ⟨ha, hca⟩
    have hmb : b ∈ buckets.filter fun b => claims b.accepts := mem_filter.mpr ⟨hb, hcb⟩
    generalize buckets.filter (fun b => claims b.accepts) = l at hle hma hmb
    match l, hle with
    | [c], _ => rw [mem_singleton.mp hma, mem_singleton.mp hmb]
  · intro h
    by_contra hgt
    match hl : buckets.filter fun b => claims b.accepts with
    | [] => rw [hl] at hgt; simp at hgt
    | [c] => rw [hl] at hgt; simp at hgt
    | c :: d :: rest =>
      have hc := mem_filter.mp (hl ▸ mem_cons_self : c ∈ buckets.filter fun b => claims b.accepts)
      have hd := mem_filter.mp (hl ▸ mem_cons_of_mem c mem_cons_self : d ∈ buckets.filter fun b => claims b.accepts)
      rw [hl, map_cons, nodup_cons] at hf
      exact hf.1 (mem_cons.mpr (.inl (h c hc.1 d hd.1 hc.2 hd.2)))

theorem firstBucket_perm (claims : α → Bool) {buckets' : List (Bucket α)} (hp : buckets.Perm buckets')
    (h : ∀ a ∈ buckets, ∀ b ∈ buckets, claims a.accepts = true → claims b.accepts = true → a.id = b.id) :
    firstBucket buckets' claims = firstBucket buckets claims := by
  unfold firstBucket
  cases hb : buckets.find? fun b => claims b.accepts with
  | none =>
    have hnone : buckets'.find? (fun b => claims b.accepts) = none :=
      find?_eq_none.mpr fun b hm => find?_eq_none.mp hb b (hp.mem_iff.mpr hm)
    rw [hnone]
  | some a =>
    have ha := mem_of_find?_eq_some hb
    have hca : claims a.accepts = true := by simpa using find?_some hb
    obtain ⟨c, hc⟩ : ∃ c, buckets'.find? (fun b => claims b.accepts) = some c := by
      rw [← Option.isSome_iff_exists, find?_isSome]
      exact ⟨a, hp.mem_iff.mp ha, hca⟩
    have hcc : claims c.accepts = true := by simpa using find?_some hc
    rw [hc]
    exact h c (hp.mem_iff.mpr (mem_of_find?_eq_some hc)) a ha hcc hca

end Groups

section Person

variable {facts : PricingFacts}

theorem matchesCotisation_of_mem {test : CotisationTest} {x : Option String} (hx : x ∈ facts.cotisationTiers)
    (hk : x ∈ test.variantKeys) :
    matchesCotisation test facts.toProfile = true := by
  unfold matchesCotisation
  rw [if_neg (by simpa using ne_nil_of_mem hx)]
  split
  · rfl
  · exact List.any_eq_true.mpr ⟨x, hx, by simpa using hk⟩

theorem matchesCotisation_iff {test : CotisationTest} (h : matchesCotisation test facts.toProfile = true) :
    test.anyTier = true ∨ ∃ x ∈ facts.cotisationTiers, x ∈ test.variantKeys := by
  unfold matchesCotisation at h
  split at h
  · cases h
  · split at h
    · exact .inl (by assumption)
    · obtain ⟨x, hx, hk⟩ := List.any_eq_true.mp h
      exact .inr ⟨x, hx, by simpa using hk⟩

theorem matchesAnswer_iff {questionId : String} {optionIds : List String} :
    matchesAnswer questionId optionIds facts = true ↔ ∃ x ∈ (facts.answers questionId).getD [], x ∈ optionIds := by
  unfold matchesAnswer
  cases facts.answers questionId with
  | none => simp
  | some selected => simp

theorem eq_of_common {β : Type} [BEq β] [LawfulBEq β] {buckets : List (Bucket (List β))}
    (h : clashesOf buckets (fun a b => a.any b.contains) = []) {a b : Bucket (List β)} (ha : a ∈ buckets)
    (hb : b ∈ buckets) {x : β}
    (hxa : x ∈ a.accepts) (hxb : x ∈ b.accepts) : a = b := by
  refine eq_of_overlap any_contains_comm h ha hb ?_
  exact List.any_eq_true.mpr ⟨x, hxa, by simpa using hxb⟩

/-- In an accepted criterion, one group at most claims the person exactly when no two facts are split. -/
theorem matchingIds_le_one_iff {d : Dimension} (hn : d.bucketIds.Nodup) (ho : findOverlappingBuckets d = []) :
    (matchingIds facts d).length ≤ 1 ↔ NoSplit facts d := by
  cases d with
  | cotisation id buckets =>
    rw [matchingIds, length_map, filter_length_le_one (fun t => matchesCotisation t facts.toProfile) hn]
    constructor
    · intro h a ha b hb x hx y hy hxa hyb
      exact h a ha b hb (matchesCotisation_of_mem hx hxa) (matchesCotisation_of_mem hy hyb)
    · intro h a ha b hb hca hcb
      have hsymm : ∀ x y : CotisationTest, (x.anyTier || y.anyTier || x.variantKeys.any y.variantKeys.contains) =
          (y.anyTier || x.anyTier || y.variantKeys.any x.variantKeys.contains) := fun x y => by
        rw [any_contains_comm, Bool.or_comm x.anyTier]
      rcases matchesCotisation_iff hca with hany | ⟨x, hx, hxa⟩
      · rw [eq_of_overlap hsymm ho ha hb (by simp [hany])]
      · rcases matchesCotisation_iff hcb with hany | ⟨y, hy, hyb⟩
        · rw [eq_of_overlap hsymm ho ha hb (by simp [hany])]
        · exact h a ha b hb x hx y hy hxa hyb
  | promo id buckets =>
    rw [matchingIds, length_map, filter_length_le_one (fun t => matchesPromo t facts.toProfile) hn]
    refine ⟨fun _ => trivial, fun _ a ha b hb hca hcb => ?_⟩
    obtain ⟨p, hp, hpa⟩ := (Option.any_eq_true _ _).mp hca
    obtain ⟨q, hq, hqb⟩ := (Option.any_eq_true _ _).mp hcb
    obtain rfl : p = q := Option.some.inj (hp.symm.trans hq)
    rw [eq_of_common ho ha hb (by simpa using hpa) (by simpa using hqb)]
  | formation id buckets =>
    rw [matchingIds, length_map, filter_length_le_one (fun t => matchesFormation t facts.toProfile) hn]
    refine ⟨fun _ => trivial, fun _ a ha b hb hca hcb => ?_⟩
    obtain ⟨p, hp, hpa⟩ := (Option.any_eq_true _ _).mp hca
    obtain ⟨q, hq, hqb⟩ := (Option.any_eq_true _ _).mp hcb
    obtain rfl : p = q := Option.some.inj (hp.symm.trans hq)
    rw [eq_of_common ho ha hb (by simpa using hpa) (by simpa using hqb)]
  | answer id questionId buckets =>
    rw [matchingIds, length_map, filter_length_le_one (fun t => matchesAnswer questionId t facts) hn]
    constructor
    · intro h a ha b hb x hx y hy hxa hyb
      exact h a ha b hb ((matchesAnswer_iff).mpr ⟨x, hx, hxa⟩) ((matchesAnswer_iff).mpr ⟨y, hy, hyb⟩)
    · intro h a ha b hb hca hcb
      obtain ⟨x, hx, hxa⟩ := (matchesAnswer_iff).mp hca
      obtain ⟨y, hy, hyb⟩ := (matchesAnswer_iff).mp hcb
      exact h a ha b hb x hx y hy hxa hyb

theorem bucketFor_reordered {d d' : Dimension} (hr : Reordered d d') (hn : d.bucketIds.Nodup)
    (h : (matchingIds facts d).length ≤ 1) :
    bucketFor facts d' = bucketFor facts d := by
  cases hr with
  | cotisation id hp =>
    rw [matchingIds, length_map] at h
    exact firstBucket_perm (fun t => matchesCotisation t facts.toProfile) hp
      ((filter_length_le_one (fun t => matchesCotisation t facts.toProfile) hn).mp h)
  | promo id hp =>
    rw [matchingIds, length_map] at h
    exact firstBucket_perm (fun t => matchesPromo t facts.toProfile) hp
      ((filter_length_le_one (fun t => matchesPromo t facts.toProfile) hn).mp h)
  | formation id hp =>
    rw [matchingIds, length_map] at h
    exact firstBucket_perm (fun t => matchesFormation t facts.toProfile) hp
      ((filter_length_le_one (fun t => matchesFormation t facts.toProfile) hn).mp h)
  | answer id questionId hp =>
    rw [matchingIds, length_map] at h
    exact firstBucket_perm (fun t => matchesAnswer questionId t facts) hp
      ((filter_length_le_one (fun t => matchesAnswer questionId t facts) hn).mp h)

theorem map_bucketFor_reordered {dimensions dimensions' : List Dimension}
    (hr : List.Forall₂ Reordered dimensions dimensions')
    (h : ∀ d ∈ dimensions, d.bucketIds.Nodup ∧ (matchingIds facts d).length ≤ 1) :
    dimensions'.map (bucketFor facts) = dimensions.map (bucketFor facts) := by
  induction hr with
  | nil => rfl
  | cons hd _ ih =>
    obtain ⟨hn, hle⟩ := h _ mem_cons_self
    rw [map_cons, map_cons, bucketFor_reordered hd hn hle, ih fun e he => h e (mem_cons_of_mem _ he)]

/-- The groups of every criterion claim the person at most once, and the price follows no order of theirs. -/
def PricedOnce (matrix : PriceMatrix) (facts : PricingFacts) : Prop :=
  (∀ d ∈ matrix.dimensions, (matchingIds facts d).length ≤ 1) ∧
    ∀ dimensions', List.Forall₂ Reordered matrix.dimensions dimensions' →
      resolveCellPrice { matrix with dimensions := dimensions' } facts = resolveCellPrice matrix facts

/-- A person falls in one group of each criterion, in any order, exactly when none of them is split. -/
theorem one_bucket_iff {matrix : PriceMatrix} {maxCells : Nat} (h : assertMatrixValid matrix maxCells = none)
    (facts : PricingFacts) :
    PricedOnce matrix facts ↔ ∀ d ∈ matrix.dimensions, NoSplit facts d := by
  constructor
  · intro hp d hd
    obtain ⟨hn, ho, -⟩ := accepted_dimension h hd
    exact (matchingIds_le_one_iff hn ho).mp (hp.1 d hd)
  · intro hs
    have hle : ∀ d ∈ matrix.dimensions, d.bucketIds.Nodup ∧ (matchingIds facts d).length ≤ 1 := fun d hd => by
      obtain ⟨hn, ho, -⟩ := accepted_dimension h hd
      exact ⟨hn, (matchingIds_le_one_iff hn ho).mpr (hs d hd)⟩
    refine ⟨fun d hd => (hle d hd).2, fun dimensions' hr => ?_⟩
    rw [resolveCellPrice, resolveCellPrice, cellKeyFor, cellKeyFor, map_bucketFor_reordered hr hle]

end Person

/-! ## A person two groups claim -/

def dishes : Dimension := .answer "menu" "q1" [⟨"a", "Plat", ["plat"]⟩, ⟨"b", "Dessert", ["dessert"]⟩]
def dishesSwapped : Dimension := .answer "menu" "q1" [⟨"b", "Dessert", ["dessert"]⟩, ⟨"a", "Plat", ["plat"]⟩]

def dishesGrid : PriceMatrix := ⟨[dishes], [("a", some 1000), ("b", some 500), ("_others", some 0)]⟩

def selects (options : List String) : PricingFacts :=
    ⟨⟨none, none, []⟩, fun q => if q = "q1" then some options else none⟩

/-- One option selected: one group, in any order. -/
theorem one_dish_selected : assertMatrixValid dishesGrid MAX_CELLS = none ∧
    PricedOnce dishesGrid (selects ["plat"]) := by
  have hv : assertMatrixValid dishesGrid MAX_CELLS = none := by decide
  refine ⟨hv, (one_bucket_iff hv _).mpr fun d hd => ?_⟩
  obtain rfl := mem_singleton.mp hd
  intro a ha b hb x hx y hy hxa hyb
  have hx' : x = "plat" := by simpa [selects] using hx
  have hy' : y = "plat" := by simpa [selects] using hy
  subst hx' hy'
  simp only [mem_cons, not_mem_nil, or_false] at ha hb
  rcases ha with rfl | rfl <;> rcases hb with rfl | rfl
  · rfl
  · exact absurd hyb (by decide)
  · exact absurd hxa (by decide)
  · rfl

/-- Both options selected: both groups claim the person, and the price is the first one's. -/
theorem two_dishes_selected :
    assertMatrixValid dishesGrid MAX_CELLS = none ∧ Reordered dishes dishesSwapped ∧
    matchingIds (selects ["plat", "dessert"]) dishes = ["a", "b"] ∧
    resolveCellPrice dishesGrid (selects ["plat", "dessert"]) = some (some 1000) ∧
    resolveCellPrice { dishesGrid with dimensions := [dishesSwapped] } (selects ["plat", "dessert"]) = some (some 500) ∧
    ¬ PricedOnce dishesGrid (selects ["plat", "dessert"]) := by
  have hr : Reordered dishes dishesSwapped := .answer _ _ (List.Perm.swap _ _ _)
  refine ⟨by decide, hr, by decide, by decide, by decide, fun h => ?_⟩
  exact absurd (h.1 dishes (mem_singleton_self _)) (by decide)

end Canari.Forms.Fill
