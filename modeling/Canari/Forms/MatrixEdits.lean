/-
  Canari.Forms.MatrixEdits — the price grid in the editor (frontend lib/pricing/priceMatrix.ts).

  The editor keeps the grid complete while criteria and groups come and go: an added criterion or
  group changes nobody's price, a removed criterion leaves everyone the price of its "everyone
  else" column, and removing what was added gives the grid back. Each edit is a table over the
  combinations of groups it moves (`addDimension_eq`, `removeDimension_eq`, `addBucket_eq`). The
  cells are written to a plain object: in a grid of one criterion the group's id is the key, and
  under `__proto__` there is no field to write. The edits are what they are to be exactly when they
  write no such cell (`edit_meets_iff`).
-/

import Canari.Forms.CellKeys

namespace Canari.Forms.Fill

open List

/-! ## The editor -/

/-- A group as the editor holds it, whatever the criterion: each kind reads its own fields. -/
structure EditorBucket where
  id : String
  label : String
  anyTier : Bool := false
  variantKeys : List (Option String) := []
  values : List (Int ⊕ String) := []

def Dimension.push (bucket : EditorBucket) : Dimension → Dimension
  | .cotisation id buckets =>
      .cotisation id (buckets ++ [⟨bucket.id, bucket.label, ⟨bucket.anyTier, bucket.variantKeys⟩⟩])
  | .promo id buckets => .promo id (buckets ++ [⟨bucket.id, bucket.label, bucket.values.filterMap Sum.getLeft?⟩])
  | .formation id buckets =>
      .formation id (buckets ++ [⟨bucket.id, bucket.label, bucket.values.filterMap Sum.getRight?⟩])
  | .answer id questionId buckets =>
      .answer id questionId (buckets ++ [⟨bucket.id, bucket.label, bucket.values.filterMap Sum.getRight?⟩])

def Dimension.without (bucketId : String) : Dimension → Dimension
  | .cotisation id buckets => .cotisation id (buckets.filter fun b => b.id ≠ bucketId)
  | .promo id buckets => .promo id (buckets.filter fun b => b.id ≠ bucketId)
  | .formation id buckets => .formation id (buckets.filter fun b => b.id ≠ bucketId)
  | .answer id questionId buckets => .answer id questionId (buckets.filter fun b => b.id ≠ bucketId)

def valueAt (cells : List (String × CellValue)) (key : String) : CellValue := (cells.lookup key).getD (some 0)

def addDimension (matrix : PriceMatrix) (dimension : Dimension) : PriceMatrix :=
  let previous := if matrix.dimensions.length = 0 then [""] else allCellKeys matrix.dimensions
  let cells := previous.foldl (fun cells start =>
    dimension.groups.foldl (fun cells id => writeCell cells (if start = "" then id else start ++ "|" ++ id)
      (valueAt matrix.cells start)) cells) []
  ⟨matrix.dimensions ++ [dimension], cells⟩

def removeDimension (matrix : PriceMatrix) (dimensionId : String) : PriceMatrix :=
  match matrix.dimensions.findIdx? fun d => d.id == dimensionId with
  | none => matrix
  | some index =>
    let dimensions := matrix.dimensions.filter fun d => d.id ≠ dimensionId
    let cells := (allCellKeys dimensions).foldl (fun cells key =>
      let parts := if key = "" then [] else splitKey key
      writeCell cells key (valueAt matrix.cells (cellKey (parts.take index ++ OTHERS_BUCKET_ID :: parts.drop index))))
        []
    ⟨dimensions, cells⟩

def addBucket (matrix : PriceMatrix) (dimensionId : String) (bucket : EditorBucket) : PriceMatrix :=
  match matrix.dimensions.findIdx? fun d => d.id == dimensionId with
  | none => matrix
  | some index =>
    let dimensions := matrix.dimensions.map fun d => if d.id = dimensionId then d.push bucket else d
    let cells := (allCellKeys dimensions).foldl (fun cells key =>
      if (cells.lookup key).isSome then cells
      else if (splitKey key)[index]? ≠ some bucket.id then cells
      else writeCell cells key (valueAt matrix.cells
        (cellKey ((splitKey key).set index OTHERS_BUCKET_ID)))) matrix.cells
    ⟨dimensions, cells⟩

def removeBucket (matrix : PriceMatrix) (dimensionId bucketId : String) : PriceMatrix :=
  let dimensions := matrix.dimensions.map fun d => if d.id = dimensionId then d.without bucketId else d
  ⟨dimensions, (allCellKeys dimensions).eraseDups.foldl
    (fun cells key => writeCell cells key (valueAt matrix.cells key)) []⟩

/-! ## Grids and their combinations -/

/-- Ids that are distinct, not empty and without the separator. -/
structure Clean (dimensions : List Dimension) : Prop where
  ids : (dimensions.map Dimension.id).Nodup
  groups : ∀ d ∈ dimensions, d.groups.Nodup
  named : ∀ d ∈ dimensions, ∀ id ∈ d.groups, id ≠ "" ∧ '|' ∉ id.toList

def Complete (matrix : PriceMatrix) : Prop := ∀ key, (matrix.cells.lookup key).isSome = true ↔
    key ∈ allCellKeys matrix.dimensions

def Same (a b : PriceMatrix) : Prop := a.dimensions = b.dimensions ∧ ∀ key, a.cells.lookup key = b.cells.lookup key

/-- The one criterion of the grid has a group named `__proto__`. -/
def NamesProto (dimensions : List Dimension) : Prop := ∃ d, dimensions = [d] ∧ "__proto__" ∈ d.groups

variable {dimensions : List Dimension} {matrix : PriceMatrix} {v w : List String}

theorem Clean.parts (h : Clean dimensions) (hv : IsVector dimensions v) : ∀ id ∈ v, id ≠ "" ∧ '|' ∉ id.toList := by
  intro id hid
  obtain ⟨d, hd, hg⟩ := hv.exists_dimension hid
  exact h.named d hd id hg

theorem mem_allCellKeys (h : Clean dimensions)
    {key : String} : key ∈ allCellKeys dimensions ↔ ∃ v, IsVector dimensions v ∧ cellKey v = key := by
  rw [allCellKeys_eq fun d hd id hid => (h.named d hd id hid).1, mem_map]
  exact exists_congr fun v => and_congr_left fun _ => mem_vectors

theorem parts_cellKey (h : ∀ id ∈ v, id ≠ "" ∧ '|' ∉ id.toList) :
    (if cellKey v = "" then [] else splitKey (cellKey v)) = v := by
  by_cases hv : v = []
  · subst hv
    rfl
  · rw [if_neg (cellKey_ne_empty hv fun id hid => (h id hid).1), splitKey_cellKey hv fun id hid => (h id hid).2]

theorem cellKey_vector_inj (hv : ∀ id ∈ v, id ≠ "" ∧ '|' ∉ id.toList) (hw : ∀ id ∈ w, id ≠ "" ∧ '|' ∉ id.toList)
    (h : cellKey v = cellKey w) : v = w := by
  rw [← parts_cellKey hv, h, parts_cellKey hw]

theorem cellKey_eq_proto (hv : ∀ id ∈ v, id ≠ "" ∧ '|' ∉ id.toList) : cellKey v = "__proto__" ↔ v = ["__proto__"] := by
  have hproto : cellKey ["__proto__"] = "__proto__" := by decide
  constructor
  · intro h
    refine cellKey_vector_inj hv ?_ (h.trans hproto.symm)
    intro id hid
    rw [mem_singleton.mp hid]
    decide
  · rintro rfl
    exact hproto

theorem proto_mem_iff (h : Clean dimensions) : "__proto__" ∈ allCellKeys dimensions ↔ NamesProto dimensions := by
  rw [mem_allCellKeys h]
  constructor
  · rintro ⟨v, hv, hkey⟩
    rw [cellKey_eq_proto (h.parts hv)] at hkey
    subst hkey
    cases hv with
    | @cons _ d _ rest hg hrest =>
      cases hrest
      exact ⟨d, rfl, hg⟩
  · rintro ⟨d, rfl, hg⟩
    exact ⟨["__proto__"], .cons hg .nil, by decide⟩

theorem Complete.lookup (h : Complete matrix) (hclean : Clean matrix.dimensions) (hv : IsVector matrix.dimensions v) :
    matrix.cells.lookup (cellKey v) = some (valueAt matrix.cells (cellKey v)) := by
  obtain ⟨value, hvalue⟩ :=
    Option.isSome_iff_exists.mp ((h (cellKey v)).mpr ((mem_allCellKeys hclean).mpr ⟨v, hv, rfl⟩))
  rw [valueAt, hvalue]
  rfl

/-! ## Writing cells -/

theorem lookup_writes_of_not_mem {α : Type} {key : α → String} {value : α → CellValue} (l : List α)
    (init : List (String × CellValue)) {k : String}
    (h : k = "__proto__" ∨ ∀ b ∈ l, key b ≠ k) :
    (l.foldl (fun cells b => writeCell cells (key b) (value b)) init).lookup k = init.lookup k := by
  induction l generalizing init with
  | nil => rfl
  | cons b rest ih =>
    rw [foldl_cons, ih _ (h.imp_right fun hno c hc => hno c (mem_cons_of_mem _ hc)), writeCell]
    split_ifs with hb
    · rfl
    · have hne : k ≠ key b := by
        rcases h with rfl | hno
        · exact Ne.symm hb
        · exact Ne.symm (hno b mem_cons_self)
      rw [lookup_cons, beq_false_of_ne hne]

/-- Under a key all of whose writes have one value, it leaves that value. -/
theorem lookup_writes {α : Type} {key : α → String} {value : α → CellValue} (l : List α)
    (init : List (String × CellValue)) {k : String} {x : CellValue}
    (hproto : k ≠ "__proto__") (hex : ∃ b ∈ l, key b = k) (hsame : ∀ b ∈ l, key b = k → value b = x) :
    (l.foldl (fun cells b => writeCell cells (key b) (value b)) init).lookup k = some x := by
  induction l generalizing init with
  | nil =>
    obtain ⟨b, hb, -⟩ := hex
    cases hb
  | cons b rest ih =>
    rw [foldl_cons]
    by_cases hrest : ∃ c ∈ rest, key c = k
    · exact ih _ hrest fun c hc => hsame c (mem_cons_of_mem _ hc)
    · obtain ⟨c, hc, hkey⟩ := hex
      rcases mem_cons.mp hc with rfl | hc
      · rw [lookup_writes_of_not_mem rest _ (.inr fun d hd hdk => hrest ⟨d, hd, hdk⟩), writeCell,
          if_neg (hkey ▸ hproto), hkey, lookup_cons_self,
          hsame c mem_cons_self hkey]
      · exact absurd ⟨c, hc, hkey⟩ hrest

/-! ## Tables over the combinations of a grid -/

section Table

variable {keys : List String} (value : String → CellValue)

def table (keys : List String)
    (value : String → CellValue) : List (String × CellValue) :=
    keys.foldl (fun cells key => writeCell cells key (value key)) []

theorem lookup_table_proto (keys : List String) : (table keys value).lookup "__proto__" = none :=
    lookup_writes_of_not_mem _ [] (.inl rfl)

theorem lookup_table_of_not_mem {key : String} (h : key ∉ keys) : (table keys value).lookup key = none :=
  lookup_writes_of_not_mem _ [] (.inr fun _ hb hbk => h (hbk ▸ hb))

theorem lookup_table (hclean : Clean dimensions) (hkeys : ∀ key, key ∈ keys ↔ key ∈ allCellKeys dimensions)
    (hproto : ¬ NamesProto dimensions)
    (hv : IsVector dimensions v) : (table keys value).lookup (cellKey v) = some (value (cellKey v)) := by
  have hmem := (mem_allCellKeys hclean).mpr ⟨v, hv, rfl⟩
  refine lookup_writes _ _ (fun he => hproto ((proto_mem_iff hclean).mp (he ▸ hmem))) ⟨_, (hkeys _).mpr hmem, rfl⟩
    fun key _ hkey => ?_
  rw [hkey]

theorem complete_table (hclean : Clean dimensions) (hkeys : ∀ key, key ∈ keys ↔ key ∈ allCellKeys dimensions) :
    Complete ⟨dimensions, table keys value⟩ ↔ ¬ NamesProto dimensions := by
  constructor
  · intro h hproto
    have hsome := (h "__proto__").mpr ((proto_mem_iff hclean).mpr hproto)
    rw [lookup_table_proto] at hsome
    cases hsome
  · intro hproto key
    constructor
    · intro hsome
      by_contra hno
      rw [lookup_table_of_not_mem value fun h => hno ((hkeys key).mp h)] at hsome
      cases hsome
    · intro hmem
      obtain ⟨v, hv, rfl⟩ := (mem_allCellKeys hclean).mp hmem
      rw [lookup_table value hclean hkeys hproto hv]
      rfl

/-- A table with the values of a complete grid is that grid's, exactly when it writes no `__proto__`. -/
theorem same_table (hclean : Clean matrix.dimensions) (hcomplete : Complete matrix)
    (hkeys : ∀ key, key ∈ keys ↔ key ∈ allCellKeys matrix.dimensions)
    (hvalue : ¬ NamesProto matrix.dimensions → ∀ v, IsVector matrix.dimensions v →
    value (cellKey v) = valueAt matrix.cells (cellKey v)) :
    Same ⟨matrix.dimensions, table keys value⟩ matrix ↔ ¬ NamesProto matrix.dimensions := by
  constructor
  · rintro ⟨-, hsame⟩ hproto
    have hsome := (hcomplete "__proto__").mpr ((proto_mem_iff hclean).mpr hproto)
    rw [← hsame, lookup_table_proto] at hsome
    cases hsome
  · refine fun hproto => ⟨rfl, fun key => ?_⟩
    by_cases hmem : key ∈ allCellKeys matrix.dimensions
    · obtain ⟨v, hv, rfl⟩ := (mem_allCellKeys hclean).mp hmem
      rw [lookup_table value hclean hkeys hproto hv, hcomplete.lookup hclean hv, hvalue hproto v hv]
    · have hnone : matrix.cells.lookup key = none := by
        rw [← Option.not_isSome_iff_eq_none]
        exact fun h => hmem ((hcomplete key).mp h)
      rw [hnone]
      exact lookup_table_of_not_mem value fun h => hmem ((hkeys key).mp h)

end Table

/-! ## A criterion more -/

def inherited (matrix : PriceMatrix)
    (key : String) : CellValue := valueAt matrix.cells (cellKey (splitKey key).dropLast)

variable {d : Dimension} {facts : PricingFacts}

theorem isVector_append {a b : List Dimension} {v : List String} :
    IsVector (a ++ b) v ↔ ∃ x y, v = x ++ y ∧ IsVector a x ∧ IsVector b y := by
  constructor
  · intro h
    exact ⟨v.take a.length, v.drop a.length, (take_append_drop _ v).symm, List.forall₂_take_append v a b h,
      List.forall₂_drop_append v a b h⟩
  · rintro ⟨x, y, rfl, hx, hy⟩
    exact rel_append hx hy

theorem isVector_singleton {y : List String} : IsVector [d] y ↔ ∃ id ∈ d.groups, y = [id] := by
  constructor
  · intro h
    cases h with
    | @cons id _ _ _ hid hrest =>
      cases hrest
      exact ⟨id, hid, rfl⟩
  · rintro ⟨id, hid, rfl⟩
    exact .cons hid .nil

theorem inherited_cellKey {u : List String} {id : String} (h : ∀ part ∈ u ++ [id], '|' ∉ part.toList) :
    inherited matrix (cellKey (u ++ [id])) = valueAt matrix.cells (cellKey u) := by
  rw [inherited, splitKey_cellKey (by simp) h, dropLast_concat]

theorem addDimension_eq (hclean : Clean (matrix.dimensions ++ [d])) :
    addDimension matrix d = ⟨matrix.dimensions ++ [d],
      table (allCellKeys (matrix.dimensions ++ [d])) (inherited matrix)⟩ := by
  have hnamed : ∀ e ∈ matrix.dimensions, ∀ id ∈ e.groups, id ≠ "" :=
    fun e he id hid => (hclean.named e (mem_append_left _ he) id hid).1
  have hprevious : (if matrix.dimensions.length = 0 then [""] else allCellKeys matrix.dimensions) =
    allCellKeys matrix.dimensions := by
    split_ifs with h
    · rw [length_eq_zero_iff.mp h]
      rfl
    · rfl
  rw [addDimension, hprevious, table]
  congr 1
  conv_rhs => rw [allCellKeys, foldl_append, foldl_cons, foldl_nil, foldl_flatMap]
  refine foldl_ext _ _ _ fun cells start hstart => ?_
  rw [foldl_map]
  refine foldl_ext _ _ _ fun cells id hid => ?_
  -- The start is the key of a combination of the criteria there were.
  rw [allCellKeys_eq hnamed] at hstart
  obtain ⟨u, hu, rfl⟩ := mem_map.mp hstart
  have hparts : ∀ part ∈ u ++ [id], part ≠ "" ∧ '|' ∉ part.toList :=
    hclean.parts ((isVector_append).mpr ⟨u, [id], rfl, mem_vectors.mp hu, (isVector_singleton).mpr ⟨id, hid, rfl⟩⟩)
  rw [cellKey_concat (fun part hpart => (hparts part (mem_append_left _ hpart)).1),
    inherited_cellKey fun part hpart => (hparts part hpart).2]

theorem resolve_addDimension (hclean : Clean (matrix.dimensions ++ [d])) (hold : Clean matrix.dimensions)
    (hcomplete : Complete matrix)
    (hproto : ¬ NamesProto (matrix.dimensions ++ [d])) :
    resolveCellPrice (addDimension matrix d) facts = resolveCellPrice matrix facts := by
  have hv := isVector_bucketFor facts (matrix.dimensions ++ [d])
  rw [addDimension_eq hclean, resolveCellPrice, cellKeyFor, lookup_table _ hclean (fun _ => Iff.rfl) hproto hv]
  rw [map_append, map_singleton] at hv ⊢
  rw [inherited_cellKey fun part hpart => (hclean.parts hv part hpart).2, resolveCellPrice, cellKeyFor,
    hcomplete.lookup hold (isVector_bucketFor facts _)]

/-! ## A criterion less -/

/-- The value kept when the criterion at `index` is removed: that of its "everyone else". -/
def fallback (matrix : PriceMatrix) (index : Nat) (key : String) : CellValue :=
  let parts := if key = "" then [] else splitKey key
  valueAt matrix.cells (cellKey (parts.take index ++ OTHERS_BUCKET_ID :: parts.drop index))

variable {before after : List Dimension}

/-- A complete grid with the criteria around one of them. -/
structure GridAt (matrix : PriceMatrix) (before : List Dimension) (d : Dimension) (after : List Dimension) : Prop where
  clean : Clean matrix.dimensions
  complete : Complete matrix
  split : matrix.dimensions = before ++ d :: after
  before_ne : ∀ e ∈ before, e.id ≠ d.id
  after_ne : ∀ e ∈ after, e.id ≠ d.id

theorem exists_gridAt (hclean : Clean matrix.dimensions) (hcomplete : Complete matrix) (h : d ∈ matrix.dimensions) :
    ∃ before after, GridAt matrix before d after := by
  obtain ⟨before, after, hsplit⟩ := append_of_mem h
  have hids := hclean.ids
  rw [hsplit, map_append, map_cons, nodup_append, nodup_cons] at hids
  obtain ⟨-, ⟨hafter, -⟩, hbefore⟩ := hids
  refine ⟨before, after, hclean, hcomplete, hsplit, fun e he heq => ?_, fun e he heq => ?_⟩
  · exact hbefore _ (mem_map_of_mem he) _ mem_cons_self heq
  · exact hafter (heq ▸ mem_map_of_mem he)

theorem findIdx_split (hbefore : ∀ e ∈ before, e.id ≠ d.id) :
    (before ++ d :: after).findIdx? (fun e => e.id == d.id) = some before.length := by
  have hnone : before.findIdx? (fun e => e.id == d.id) = none := by
    rw [findIdx?_eq_none_iff]
    exact fun e he => beq_false_of_ne (hbefore e he)
  rw [findIdx?_append, hnone, findIdx?_cons]
  simp

theorem removeDimension_eq (hsplit : matrix.dimensions = before ++ d :: after) (hbefore : ∀ e ∈ before, e.id ≠ d.id)
    (hafter : ∀ e ∈ after, e.id ≠ d.id) :
    removeDimension matrix d.id = ⟨before ++ after,
      table (allCellKeys (before ++ after)) (fallback matrix before.length)⟩ := by
  have hfilter : (before ++ d :: after).filter (fun e => e.id ≠ d.id) = before ++ after := by
    rw [filter_append, filter_cons_of_neg (by simp), filter_eq_self.mpr, filter_eq_self.mpr]
    · exact fun e he => decide_eq_true (hafter e he)
    · exact fun e he => decide_eq_true (hbefore e he)
  rw [removeDimension, hsplit, findIdx_split hbefore]
  rw [hfilter]
  rfl

theorem Clean.removed (h : Clean (before ++ d :: after)) : Clean (before ++ after) := by
  have hsub : (before ++ after).Sublist (before ++ d :: after) :=
    List.Sublist.append_left (sublist_cons_self d after) before
  exact ⟨h.ids.sublist (hsub.map _), fun e he => h.groups e (hsub.subset he), fun e he => h.named e (hsub.subset he)⟩

theorem fallback_cellKey (matrix : PriceMatrix) (x y : List String)
    (hparts : ∀ id ∈ x ++ y, id ≠ "" ∧ '|' ∉ id.toList) :
    fallback matrix x.length (cellKey (x ++ y)) = valueAt matrix.cells (cellKey (x ++ OTHERS_BUCKET_ID :: y)) := by
  rw [fallback, parts_cellKey hparts, take_left, drop_left]

theorem others_mem_groups (d : Dimension) : OTHERS_BUCKET_ID ∈ d.groups := mem_append_right _ (mem_singleton.mpr rfl)

theorem resolve_removeDimension (hat : GridAt matrix before d after) (hproto : ¬ NamesProto (before ++ after)) :
    resolveCellPrice (removeDimension matrix d.id) facts =
      matrix.cells.lookup (cellKey (matrix.dimensions.map fun e => if e.id = d.id then OTHERS_BUCKET_ID else
        bucketFor facts e)) := by
  have hleft : Clean (before ++ after) := (hat.split ▸ hat.clean).removed
  have hv := isVector_bucketFor facts (before ++ after)
  have hmap : matrix.dimensions.map (fun e => if e.id = d.id then OTHERS_BUCKET_ID else bucketFor facts e) =
      before.map (bucketFor facts) ++ OTHERS_BUCKET_ID :: after.map (bucketFor facts) := by
    rw [hat.split, map_append, map_cons, if_pos rfl]
    congr 1
    · exact map_congr_left fun e he => if_neg (hat.before_ne e he)
    · rw [map_congr_left fun e he => if_neg (hat.after_ne e he)]
  have hfull : IsVector matrix.dimensions
    (before.map (bucketFor facts) ++ OTHERS_BUCKET_ID :: after.map (bucketFor facts)) := by
    rw [hat.split]
    exact (isVector_append).mpr ⟨_, _, rfl, isVector_bucketFor facts before,
      .cons (others_mem_groups d) (isVector_bucketFor facts after)⟩
  rw [removeDimension_eq hat.split hat.before_ne hat.after_ne, resolveCellPrice, cellKeyFor,
    lookup_table _ hleft (fun _ => Iff.rfl) hproto hv, hmap,
    hat.complete.lookup hat.clean hfull]
  rw [map_append] at hv ⊢
  have hfallback := fallback_cellKey matrix _ _ (hleft.parts hv)
  rw [length_map] at hfallback
  rw [hfallback]

theorem same_removeDimension_addDimension (hclean : Clean (matrix.dimensions ++ [d])) (hold : Clean matrix.dimensions)
    (hcomplete : Complete matrix)
    (hproto : ¬ NamesProto (matrix.dimensions ++ [d])) :
    Same (removeDimension (addDimension matrix d) d.id) matrix ↔ ¬ NamesProto matrix.dimensions := by
  have hbefore : ∀ e ∈ matrix.dimensions, e.id ≠ d.id := by
    intro e he heq
    have hids := hclean.ids
    rw [map_append, nodup_append] at hids
    exact hids.2.2 _ (mem_map_of_mem he) _ (mem_map_of_mem mem_cons_self) heq
  have hdims : (addDimension matrix d).dimensions = matrix.dimensions ++ d :: [] := rfl
  rw [removeDimension_eq hdims hbefore (fun e he => (not_mem_nil he).elim), append_nil]
  refine same_table _ hold hcomplete (fun _ => Iff.rfl) fun _ v hv => ?_
  have hparts := hold.parts hv
  have hadded : IsVector (matrix.dimensions ++ [d]) (v ++ [OTHERS_BUCKET_ID]) :=
    (isVector_append).mpr ⟨v, _, rfl, hv, (isVector_singleton).mpr ⟨_, others_mem_groups d, rfl⟩⟩
  have hfallback := fallback_cellKey (addDimension matrix d) v [] (by rwa [append_nil])
  rw [append_nil, hv.length] at hfallback
  rw [hfallback, valueAt, addDimension_eq hclean, lookup_table _ hclean (fun _ => Iff.rfl) hproto hadded,
    Option.getD_some,
    inherited_cellKey fun part hpart => (hclean.parts hadded part hpart).2]

/-! ## A group more, a group less -/

variable {bucket : EditorBucket}

theorem push_id (d : Dimension) (bucket : EditorBucket) : (d.push bucket).id = d.id := by
  cases d <;> rfl

theorem push_groups (d : Dimension)
    (bucket : EditorBucket) : (d.push bucket).groups = d.bucketIds ++ [bucket.id, OTHERS_BUCKET_ID] := by
  cases d <;> simp [Dimension.push, Dimension.groups, Dimension.bucketIds]

theorem mem_push_groups {id : String} : id ∈ (d.push bucket).groups ↔ id ∈ d.groups ∨ id = bucket.id := by
  rw [push_groups, Dimension.groups]
  simp only [mem_append, mem_cons, not_mem_nil, or_false]
  tauto

theorem without_id (d : Dimension) (bucketId : String) : (d.without bucketId).id = d.id := by
  cases d <;> rfl

theorem without_groups (d : Dimension)
    (bucketId : String) : (d.without bucketId).groups = (d.bucketIds.filter fun id => id ≠ bucketId) ++
    [OTHERS_BUCKET_ID] := by
  cases d <;> simp [Dimension.without, Dimension.groups, Dimension.bucketIds, filter_map, Function.comp_def]

theorem without_push (h : bucket.id ∉ d.bucketIds) : (d.push bucket).without bucket.id = d := by
  have hkeep : ∀ {α : Type} (buckets : List (Bucket α)) (new : Bucket α), bucket.id ∉ buckets.map (·.id) →
    new.id = bucket.id →
      (buckets ++ [new]).filter (fun b => b.id ≠ bucket.id) = buckets := by
    intro α buckets new hbuckets hnew
    rw [filter_append, filter_eq_self.mpr, filter_cons_of_neg (by simpa using hnew), filter_nil, append_nil]
    exact fun b hb => decide_eq_true fun he => hbuckets (he ▸ mem_map_of_mem hb)
  cases d with
  | cotisation id buckets => exact congrArg _ (hkeep buckets _ h rfl)
  | promo id buckets => exact congrArg _ (hkeep buckets _ h rfl)
  | formation id buckets => exact congrArg _ (hkeep buckets _ h rfl)
  | answer id questionId buckets => exact congrArg _ (hkeep buckets _ h rfl)

theorem bucketFor_push (d : Dimension) (bucket : EditorBucket) (facts : PricingFacts) :
    bucketFor facts (d.push bucket) = bucketFor facts d ∨ bucketFor facts d = OTHERS_BUCKET_ID ∧
      bucketFor facts (d.push bucket) = bucket.id := by
  have hfirst : ∀ {α : Type} (buckets : List (Bucket α)) (new : Bucket α) (claims : α → Bool),
    firstBucket (buckets ++ [new]) claims = firstBucket buckets claims ∨
      firstBucket buckets claims = OTHERS_BUCKET_ID ∧ firstBucket (buckets ++ [new]) claims = new.id := by
    intro α buckets new claims
    unfold firstBucket
    rw [find?_append]
    cases buckets.find? fun b => claims b.accepts with
    | some b => exact .inl rfl
    | none =>
      cases hnew : claims new.accepts with
      | true => exact .inr ⟨rfl, by simp [hnew]⟩
      | false => exact .inl (by simp [hnew])
  cases d with
  | cotisation id buckets =>
      exact hfirst buckets ⟨bucket.id, bucket.label, _⟩ fun test => matchesCotisation test facts.toProfile
  | promo id buckets => exact hfirst buckets ⟨bucket.id, bucket.label, _⟩ fun values => matchesPromo values facts.toProfile
  | formation id buckets =>
      exact hfirst buckets ⟨bucket.id, bucket.label, _⟩ fun values => matchesFormation values facts.toProfile
  | answer id questionId buckets =>
      exact hfirst buckets ⟨bucket.id, bucket.label, _⟩ fun values => matchesAnswer questionId values facts

variable (d before after) in
theorem map_split (f : Dimension → Dimension) (hbefore : ∀ e ∈ before, e.id ≠ d.id)
    (hafter : ∀ e ∈ after, e.id ≠ d.id) :
    (before ++ d :: after).map (fun e => if e.id = d.id then f e else e) = before ++ f d :: after := by
  rw [map_append, map_cons, if_pos rfl]
  congr 1
  · exact (map_congr_left fun e he => if_neg (hbefore e he)).trans (map_id before)
  · congr 1
    exact (map_congr_left fun e he => if_neg (hafter e he)).trans (map_id after)

def fillMissing (pick : String → Prop) [DecidablePred pick] (value : String → CellValue) (keys : List String)
    (init : List (String × CellValue)) :
    List (String × CellValue) :=
  keys.foldl (fun cells key => if (cells.lookup key).isSome then cells else if ¬ pick key then cells else
    writeCell cells key (value key)) init

theorem lookup_fillMissing (pick : String → Prop) [DecidablePred pick] (value : String → CellValue)
    (keys : List String) (init : List (String × CellValue))
    (k : String) : (fillMissing pick value keys init).lookup k =
      if (init.lookup k).isSome then init.lookup k else if k ∈ keys ∧ pick k ∧
        k ≠ "__proto__" then some (value k) else none := by
  induction keys generalizing init with
  | nil =>
    cases h : init.lookup k with
    | none => simp [fillMissing, h]
    | some x => simp [fillMissing, h]
  | cons key rest ih =>
    rw [fillMissing, foldl_cons, ← fillMissing, ih]
    by_cases hkey : k = key
    · subst hkey
      by_cases hsome : (init.lookup k).isSome = true
      · simp only [if_pos hsome]
      rw [if_neg hsome]
      by_cases hpick : pick k
      · rw [if_neg (not_not.mpr hpick), writeCell]
        by_cases hproto : k = "__proto__"
        · rw [if_pos hproto]
          simp [hproto]
        · simp [lookup_cons_self, hpick, hproto, hsome]
      · simp [hpick, hsome]
    · -- Another key changes nothing of this one.
      have hother : ∀ x, (writeCell init key x).lookup k = init.lookup k := by
        intro x
        rw [writeCell]
        split_ifs
        · rfl
        · rw [lookup_cons, beq_false_of_ne hkey]
      have hstep : (if (init.lookup key).isSome then init else if ¬ pick key then init else
        writeCell init key (value key)).lookup k = init.lookup k := by
        split_ifs
        · rfl
        · exact hother _
        · rfl
      rw [hstep]
      simp [hkey]

def fromOthers (matrix : PriceMatrix) (index : Nat)
    (key : String) : CellValue := valueAt matrix.cells (cellKey ((splitKey key).set index OTHERS_BUCKET_ID))

theorem addBucket_eq (hsplit : matrix.dimensions = before ++ d :: after) (hbefore : ∀ e ∈ before, e.id ≠ d.id)
    (hafter : ∀ e ∈ after, e.id ≠ d.id) :
    addBucket matrix d.id bucket = ⟨before ++ d.push bucket :: after,
      fillMissing (fun key => (splitKey key)[before.length]? = some bucket.id)
      (fromOthers matrix before.length) (allCellKeys (before ++ d.push bucket :: after)) matrix.cells⟩ := by
  rw [addBucket, hsplit, findIdx_split hbefore]
  rw [map_split d before after (fun e => e.push bucket) hbefore hafter]
  rfl

/-- A new group of a criterion: its id is not one of the groups, not empty, and without the separator. -/
structure Fresh (d : Dimension) (bucket : EditorBucket) : Prop where
  new : bucket.id ∉ d.groups
  named : bucket.id ≠ "" ∧ '|' ∉ bucket.id.toList

theorem Fresh.clean (hfresh : Fresh d bucket)
    (h : Clean (before ++ d :: after)) : Clean (before ++ d.push bucket :: after) := by
  have hmem : ∀ e ∈ before ++ d.push bucket :: after, e ∈ before ++ d :: after ∨ e = d.push bucket := by
    intro e he
    simp only [mem_append, mem_cons] at he ⊢
    tauto
  have hd : d ∈ before ++ d :: after := mem_append_right _ mem_cons_self
  refine ⟨?_, fun e he => ?_, fun e he => ?_⟩
  · have hids := h.ids
    rw [map_append, map_cons] at hids ⊢
    rwa [push_id]
  · rcases hmem e he with he | rfl
    · exact h.groups e he
    · have hnodup := h.groups d hd
      rw [Dimension.groups] at hnodup
      rw [push_groups]
      have hnew := hfresh.new
      rw [Dimension.groups, mem_append, mem_singleton, not_or] at hnew
      rw [nodup_append] at hnodup ⊢
      refine ⟨hnodup.1, ?_, fun a ha b hb hab => ?_⟩
      · rw [nodup_cons, mem_singleton]
        exact ⟨hnew.2, hnodup.2.1⟩
      · rcases mem_cons.mp hb with rfl | hb
        · exact hnew.1 (hab ▸ ha)
        · exact hnodup.2.2 a ha b hb hab
  · rcases hmem e he with he | rfl
    · exact h.named e he
    · intro id hid
      rcases (mem_push_groups).mp hid with hid | rfl
      · exact h.named d hd id hid
      · exact hfresh.named

theorem isVector_split {v : List String} : IsVector (before ++ d :: after) v ↔
    ∃ x g y, v = x ++ g :: y ∧ IsVector before x ∧ g ∈ d.groups ∧ IsVector after y := by
  rw [isVector_append]
  constructor
  · rintro ⟨x, z, rfl, hx, hz⟩
    cases hz with
    | @cons g _ y _ hg hy => exact ⟨x, g, y, rfl, hx, hg, hy⟩
  · rintro ⟨x, g, y, rfl, hx, hg, hy⟩
    exact ⟨x, g :: y, rfl, hx, .cons hg hy⟩

theorem GridAt.dimensions_addBucket (hat : GridAt matrix before d after) (bucket : EditorBucket) :
    (addBucket matrix d.id bucket).dimensions = before ++ d.push bucket :: after := by
  rw [addBucket_eq hat.split hat.before_ne hat.after_ne]

theorem lookup_addBucket_kept (hat : GridAt matrix before d after) {v : List String}
    (hv : IsVector matrix.dimensions v) :
    (addBucket matrix d.id bucket).cells.lookup (cellKey v) = matrix.cells.lookup (cellKey v) := by
  have hsome : (matrix.cells.lookup (cellKey v)).isSome = true := by
    rw [hat.complete.lookup hat.clean hv]
    rfl
  rw [addBucket_eq hat.split hat.before_ne hat.after_ne]
  rw [lookup_fillMissing, if_pos hsome]

variable {x y : List String}

theorem isVector_new_group (hx : IsVector before x)
    (hy : IsVector after y) : IsVector (before ++ d.push bucket :: after) (x ++ bucket.id :: y) :=
  (isVector_split).mpr ⟨x, bucket.id, y, rfl, hx, (mem_push_groups).mpr (.inr rfl), hy⟩

theorem lookup_new_group (hat : GridAt matrix before d after) (hfresh : Fresh d bucket) (hx : IsVector before x)
    (hy : IsVector after y) :
    matrix.cells.lookup (cellKey (x ++ bucket.id :: y)) = none := by
  have hparts := (hfresh.clean (hat.split ▸ hat.clean)).parts (isVector_new_group hx hy)
  rw [← Option.not_isSome_iff_eq_none, hat.complete, mem_allCellKeys hat.clean]
  rintro ⟨w, hw, hkey⟩
  rw [cellKey_vector_inj (hat.clean.parts hw) hparts hkey, hat.split, isVector_split] at hw
  obtain ⟨x', g, y', heq, hx', hg, -⟩ := hw
  have hrest := (append_inj heq (hx.length.trans hx'.length.symm)).2
  exact hfresh.new ((List.cons.inj hrest).1 ▸ hg)

/-- The new group's cells are those of "everyone else". -/
theorem lookup_addBucket_new (hat : GridAt matrix before d after) (hfresh : Fresh d bucket) (hx : IsVector before x)
    (hy : IsVector after y)
    (hproto : cellKey (x ++ bucket.id :: y) ≠ "__proto__") :
    (addBucket matrix d.id bucket).cells.lookup (cellKey (x ++ bucket.id :: y)) = some
      (valueAt matrix.cells (cellKey (x ++ OTHERS_BUCKET_ID :: y))) := by
  have hvector : IsVector (before ++ d.push bucket :: after) (x ++ bucket.id :: y) := isVector_new_group hx hy
  have hclean := hfresh.clean (hat.split ▸ hat.clean)
  have hparts : splitKey (cellKey (x ++ bucket.id :: y)) = x ++ bucket.id :: y :=
    splitKey_cellKey (by simp) fun part hpart => (hclean.parts hvector part hpart).2
  rw [addBucket_eq hat.split hat.before_ne hat.after_ne]
  rw [lookup_fillMissing, lookup_new_group hat hfresh hx hy, if_neg (by simp), if_pos, fromOthers, hparts, ← hx.length,
    set_append_right _ _ le_rfl, Nat.sub_self, set_cons_zero]
  refine ⟨(mem_allCellKeys hclean).mpr ⟨_, hvector, rfl⟩, ?_, hproto⟩
  rw [hparts, ← hx.length, getElem?_append_right le_rfl, Nat.sub_self, getElem?_cons_zero]

theorem complete_addBucket (hat : GridAt matrix before d after) (hfresh : Fresh d bucket)
    (hproto : ¬ NamesProto (before ++ d.push bucket :: after)) :
    Complete (addBucket matrix d.id bucket) := by
  have hclean := hfresh.clean (hat.split ▸ hat.clean)
  have hdims := hat.dimensions_addBucket bucket
  intro key
  rw [hdims]
  constructor
  · intro hsome
    by_contra hno
    have hold : matrix.cells.lookup key = none := by
      rw [← Option.not_isSome_iff_eq_none, hat.complete, mem_allCellKeys hat.clean, hat.split]
      rintro ⟨w, hw, rfl⟩
      obtain ⟨x, g, y, rfl, hx, hg, hy⟩ := (isVector_split).mp hw
      exact hno ((mem_allCellKeys hclean).mpr ⟨_,
        (isVector_split).mpr ⟨x, g, y, rfl, hx, (mem_push_groups).mpr (.inl hg), hy⟩, rfl⟩)
    rw [addBucket_eq hat.split hat.before_ne hat.after_ne] at hsome
    rw [lookup_fillMissing, hold, if_neg (by simp), if_neg fun h => hno h.1] at hsome
    cases hsome
  · intro hmem
    obtain ⟨v, hv, rfl⟩ := (mem_allCellKeys hclean).mp hmem
    obtain ⟨x, g, y, rfl, hx, hg, hy⟩ := (isVector_split).mp hv
    rcases (mem_push_groups).mp hg with hg | rfl
    · rw [lookup_addBucket_kept hat (by rw [hat.split]; exact (isVector_split).mpr ⟨x, g, y, rfl, hx, hg, hy⟩),
        hat.complete, mem_allCellKeys hat.clean]
      exact ⟨_, by rw [hat.split]; exact (isVector_split).mpr ⟨x, g, y, rfl, hx, hg, hy⟩, rfl⟩
    · rw [lookup_addBucket_new hat hfresh hx hy fun he => hproto ((proto_mem_iff hclean).mp (he ▸ hmem))]
      rfl

theorem resolve_addBucket (hat : GridAt matrix before d after) (hfresh : Fresh d bucket)
    (hproto : ¬ NamesProto (before ++ d.push bucket :: after)) :
    resolveCellPrice (addBucket matrix d.id bucket) facts = resolveCellPrice matrix facts := by
  have hclean := hfresh.clean (hat.split ▸ hat.clean)
  have hx := isVector_bucketFor facts before
  have hy := isVector_bucketFor facts after
  have hdims := hat.dimensions_addBucket bucket
  have hold := isVector_bucketFor facts matrix.dimensions
  have hmap : matrix.dimensions.map (bucketFor facts) = before.map (bucketFor facts) ++ bucketFor facts d ::
    after.map (bucketFor facts) := by
    rw [hat.split, map_append, map_cons]
  rw [resolveCellPrice, cellKeyFor, resolveCellPrice, cellKeyFor, hdims, map_append, map_cons]
  rcases bucketFor_push d bucket facts with heq | ⟨hothers, hnew⟩
  · rw [heq, ← hmap]
    exact lookup_addBucket_kept hat hold
  · rw [hnew, lookup_addBucket_new hat hfresh hx hy, ← hothers, ← hmap, hat.complete.lookup hat.clean hold]
    intro he
    exact hproto ((proto_mem_iff hclean).mp ((mem_allCellKeys hclean).mpr ⟨_, isVector_new_group hx hy, he⟩))

theorem Clean.map_without (h : Clean dimensions) (dimensionId bucketId : String) :
    Clean (dimensions.map fun d => if d.id = dimensionId then d.without bucketId else d) := by
  have hid : ∀ d : Dimension, (if d.id = dimensionId then d.without bucketId else d).id = d.id := by
    intro d
    split_ifs
    · exact without_id d bucketId
    · rfl
  have hgroups : ∀ d : Dimension, (if d.id = dimensionId then d.without bucketId else d).groups.Sublist d.groups := by
    intro d
    split_ifs
    · rw [without_groups]
      exact filter_sublist.append_right _
    · exact List.Sublist.refl _
  refine ⟨?_, fun e he => ?_, fun e he => ?_⟩
  · have hids : (dimensions.map fun d => if d.id = dimensionId then d.without bucketId else d).map Dimension.id =
      dimensions.map Dimension.id := by
      rw [map_map]
      exact map_congr_left fun d _ => hid d
    rw [hids]
    exact h.ids
  · obtain ⟨d, hd, rfl⟩ := mem_map.mp he
    exact (h.groups d hd).sublist (hgroups d)
  · obtain ⟨d, hd, rfl⟩ := mem_map.mp he
    exact fun id hid => h.named d hd id ((hgroups d).subset hid)

theorem complete_removeBucket (hclean : Clean matrix.dimensions) (dimensionId bucketId : String) :
    Complete (removeBucket matrix dimensionId bucketId) ↔
      ¬ NamesProto (matrix.dimensions.map fun d => if d.id = dimensionId then d.without bucketId else d) :=
  complete_table (valueAt matrix.cells) (hclean.map_without dimensionId bucketId) fun _ => mem_eraseDups

theorem same_removeBucket_addBucket (hat : GridAt matrix before d after) (hfresh : Fresh d bucket) :
    Same (removeBucket (addBucket matrix d.id bucket) d.id bucket.id) matrix ↔ ¬ NamesProto matrix.dimensions := by
  have hnew : bucket.id ∉ d.bucketIds := fun h => hfresh.new (mem_append_left _ h)
  have hdims := hat.dimensions_addBucket bucket
  have hback : (addBucket matrix d.id bucket).dimensions.map
    (fun e => if e.id = d.id then e.without bucket.id else e) = matrix.dimensions := by
    have hmap := map_split (d.push bucket) before after (fun e => e.without bucket.id) (by
      rw [push_id]; exact hat.before_ne)
      (by rw [push_id]; exact hat.after_ne)
    rw [push_id] at hmap
    rw [hdims, hmap, without_push hnew, hat.split]
  rw [removeBucket, hback]
  refine same_table _ hat.clean hat.complete (fun _ => mem_eraseDups) fun _ v hv => ?_
  rw [valueAt, lookup_addBucket_kept hat hv]
  rfl

/-! ## The edits -/

inductive Edit
  | addDimension (dimension : Dimension)
  | removeDimension (dimensionId : String)
  | addBucket (dimensionId : String) (bucket : EditorBucket)
  | removeBucket (dimensionId bucketId : String)

/-- What is added has ids that are distinct, not empty and without the separator; a group is added to a
    criterion there is. -/
def Edit.Fits (dimensions : List Dimension) : Edit → Prop
  | .addDimension dimension => Clean (dimensions ++ [dimension])
  | .addBucket dimensionId bucket => ∃ d ∈ dimensions, d.id = dimensionId ∧ Fresh d bucket
  | .removeDimension _ | .removeBucket _ _ => True

def Edit.Meets (matrix : PriceMatrix) : Edit → Prop
  | .addDimension dimension => Complete (Fill.addDimension matrix dimension) ∧
      (∀ facts, resolveCellPrice (Fill.addDimension matrix dimension) facts = resolveCellPrice matrix facts) ∧
      Same (Fill.removeDimension (Fill.addDimension matrix dimension) dimension.id) matrix
  | .removeDimension dimensionId => Complete (Fill.removeDimension matrix dimensionId) ∧
      ∀ facts, resolveCellPrice (Fill.removeDimension matrix dimensionId) facts =
        matrix.cells.lookup (cellKey (matrix.dimensions.map fun d => if d.id = dimensionId then OTHERS_BUCKET_ID else
          bucketFor facts d))
  | .addBucket dimensionId bucket => Complete (Fill.addBucket matrix dimensionId bucket) ∧
      (∀ facts, resolveCellPrice (Fill.addBucket matrix dimensionId bucket) facts = resolveCellPrice matrix facts) ∧
      Same (Fill.removeBucket (Fill.addBucket matrix dimensionId bucket) dimensionId bucket.id) matrix
  | .removeBucket dimensionId bucketId => Complete (Fill.removeBucket matrix dimensionId bucketId)

/-- No cell the edit writes, or writes back, is `__proto__`: no grid of a single criterion with a group
    of that name is written. -/
def Edit.Plain (dimensions : List Dimension) : Edit → Prop
  | .addDimension dimension => ¬ NamesProto dimensions ∧ ¬ NamesProto (dimensions ++ [dimension])
  | .removeDimension dimensionId =>
      dimensionId ∈ dimensions.map Dimension.id → ¬ NamesProto (dimensions.filter fun d => d.id ≠ dimensionId)
  | .addBucket dimensionId bucket =>
      ¬ NamesProto (dimensions.map fun d => if d.id = dimensionId then d.push bucket else d)
  | .removeBucket dimensionId bucketId =>
      ¬ NamesProto (dimensions.map fun d => if d.id = dimensionId then d.without bucketId else d)

theorem addDimension_meets_iff (hclean : Clean matrix.dimensions) (hcomplete : Complete matrix)
    (hfits : Clean (matrix.dimensions ++ [d])) :
    (Edit.addDimension d).Meets matrix ↔ (Edit.addDimension d).Plain matrix.dimensions := by
  have htable : Complete (addDimension matrix d) ↔ ¬ NamesProto (matrix.dimensions ++ [d]) := by
    rw [addDimension_eq hfits]
    exact complete_table _ hfits fun _ => Iff.rfl
  constructor
  · rintro ⟨hadded, -, hundo⟩
    have hnew := htable.mp hadded
    exact ⟨(same_removeDimension_addDimension hfits hclean hcomplete hnew).mp hundo, hnew⟩
  · rintro ⟨hold, hnew⟩
    exact ⟨htable.mpr hnew, fun facts => resolve_addDimension hfits hclean hcomplete hnew,
      (same_removeDimension_addDimension hfits hclean hcomplete hnew).mpr hold⟩

theorem removeDimension_meets_iff (hclean : Clean matrix.dimensions) (hcomplete : Complete matrix)
    (dimensionId : String) :
    (Edit.removeDimension dimensionId).Meets matrix ↔ (Edit.removeDimension dimensionId).Plain matrix.dimensions := by
  by_cases hmem : dimensionId ∈ matrix.dimensions.map Dimension.id
  · obtain ⟨d, hd, rfl⟩ := mem_map.mp hmem
    obtain ⟨before, after, hat⟩ := exists_gridAt hclean hcomplete hd
    have heq := removeDimension_eq hat.split hat.before_ne hat.after_ne
    have hfilter : (removeDimension matrix d.id).dimensions = matrix.dimensions.filter fun e => e.id ≠ d.id := by
      rw [removeDimension, hat.split, findIdx_split hat.before_ne]
    have hleft : matrix.dimensions.filter (fun e => e.id ≠ d.id) = before ++ after := by rw [← hfilter, heq]
    have htable : Complete (removeDimension matrix d.id) ↔ ¬ NamesProto (before ++ after) := by
      rw [heq]
      exact complete_table _ (hat.split ▸ hat.clean).removed fun _ => Iff.rfl
    have hplain : (Edit.removeDimension d.id).Plain matrix.dimensions ↔ ¬ NamesProto (before ++ after) := by
      rw [Edit.Plain, hleft]
      exact ⟨fun h => h hmem, fun h _ => h⟩
    rw [hplain]
    constructor
    · rintro ⟨hremoved, -⟩
      exact htable.mp hremoved
    · intro hproto
      exact ⟨htable.mpr hproto, fun facts => resolve_removeDimension hat hproto⟩
  · -- No such criterion: the grid is as it was.
    have hne : ∀ d ∈ matrix.dimensions, d.id ≠ dimensionId := fun d hd he => hmem (he ▸ mem_map_of_mem hd)
    have hsame : removeDimension matrix dimensionId = matrix := by
      have hnone : matrix.dimensions.findIdx? (fun d => d.id == dimensionId) = none := by
        rw [findIdx?_eq_none_iff]
        exact fun d hd => beq_false_of_ne (hne d hd)
      rw [removeDimension, hnone]
    have hmap : ∀ facts, matrix.dimensions.map
      (fun d => if d.id = dimensionId then OTHERS_BUCKET_ID else bucketFor facts d) =
        matrix.dimensions.map (bucketFor facts) := fun facts => map_congr_left fun d hd => if_neg (hne d hd)
    refine iff_of_true ?_ fun h => absurd h hmem
    rw [Edit.Meets, hsame]
    exact ⟨hcomplete, fun facts => by rw [hmap, resolveCellPrice, cellKeyFor]⟩

theorem split_singleton {α : Type} {a b : List α} {x y : α} (h : a ++ x :: b = [y]) : a = [] ∧ b = [] ∧ x = y := by
  obtain ⟨rfl, hcons⟩ | ⟨-, hcons⟩ := append_eq_singleton_iff.mp h
  · obtain ⟨rfl, rfl⟩ := List.cons.inj hcons
    exact ⟨rfl, rfl, rfl⟩
  · cases hcons

theorem addBucket_meets_iff (hat : GridAt matrix before d after) (hfresh : Fresh d bucket) :
    (Edit.addBucket d.id bucket).Meets matrix ↔ (Edit.addBucket d.id bucket).Plain matrix.dimensions := by
  have hclean := hfresh.clean (hat.split ▸ hat.clean)
  have hplain : (Edit.addBucket d.id bucket).Plain matrix.dimensions ↔
    ¬ NamesProto (before ++ d.push bucket :: after) := by
    rw [Edit.Plain, hat.split, map_split d before after (fun e => e.push bucket) hat.before_ne hat.after_ne]
  rw [hplain]
  constructor
  · rintro ⟨hadded, -, hundo⟩ ⟨only, honly, hproto⟩
    have hold := (same_removeBucket_addBucket hat hfresh).mp hundo
    -- The only criterion is this one: its name is an old group's, or the new one's.
    obtain ⟨rfl, rfl, rfl⟩ := split_singleton honly
    rcases mem_push_groups.mp hproto with hproto | hproto
    · exact hold ⟨d, hat.split, hproto⟩
    · have hkey : cellKey ([] ++ bucket.id :: []) = "__proto__" := by rw [← hproto]; decide
      have hsome : ((addBucket matrix d.id bucket).cells.lookup "__proto__").isSome = true := by
        rw [hadded, addBucket_eq hat.split hat.before_ne hat.after_ne, mem_allCellKeys hclean]
        exact ⟨_, isVector_new_group .nil .nil, hkey⟩
      have hnone := lookup_new_group hat hfresh .nil .nil
      rw [hkey] at hnone
      rw [addBucket_eq hat.split hat.before_ne hat.after_ne] at hsome
      rw [lookup_fillMissing, hnone, if_neg (by simp), if_neg (by simp)] at hsome
      cases hsome
  · intro hproto
    refine ⟨complete_addBucket hat hfresh hproto, fun facts => resolve_addBucket hat hfresh hproto,
      (same_removeBucket_addBucket hat hfresh).mpr ?_⟩
    -- A group named so before would be there after.
    rintro ⟨only, honly, hold⟩
    rw [hat.split] at honly
    obtain ⟨rfl, rfl, rfl⟩ := split_singleton honly
    exact hproto ⟨d.push bucket, rfl, mem_push_groups.mpr (.inl hold)⟩

/-- Every edit of a complete grid does what it is to do exactly when it writes no cell under `__proto__`. -/
theorem edit_meets_iff (matrix : PriceMatrix) (hclean : Clean matrix.dimensions)
    (hcomplete : Complete matrix) (edit : Edit)
    (hfits : edit.Fits matrix.dimensions) : edit.Meets matrix ↔ edit.Plain matrix.dimensions := by
  cases edit with
  | addDimension d => exact addDimension_meets_iff hclean hcomplete hfits
  | removeDimension dimensionId => exact removeDimension_meets_iff hclean hcomplete dimensionId
  | addBucket dimensionId bucket =>
    obtain ⟨d, hd, rfl, hfresh⟩ := hfits
    obtain ⟨before, after, hat⟩ := exists_gridAt hclean hcomplete hd
    exact addBucket_meets_iff hat hfresh
  | removeBucket dimensionId bucketId => exact complete_removeBucket hclean dimensionId bucketId

/-! ## Two grids -/

theorem complete_of_keys (h : matrix.cells.map (·.1) = allCellKeys matrix.dimensions) : Complete matrix := by
  intro key
  rw [← h, Option.isSome_iff_exists]
  exact (Canari.Lib.JsMap.mem_keys (m := ⟨matrix.cells⟩)).symm

/-- A criterion on the formation and one on the year, the first with a group of the name given. -/
def cohorts (group : String) : PriceMatrix where
  dimensions := [.formation "d1" [⟨group, "ICM", ["ICM"]⟩], .promo "d2" [⟨"x", "2026", [2026]⟩]]
  cells := [(group ++ "|x", some 300), (group ++ "|_others", some 500), ("_others|x", some 700),
    ("_others|_others", some 900)]

/-- Removing the year leaves an engineer the five euros of any year. -/
theorem cohorts_without_year : (Edit.removeDimension "d2").Meets (cohorts "icm") :=
  (edit_meets_iff (cohorts "icm") ⟨by
    decide, by decide, by decide⟩ (complete_of_keys (by decide)) (.removeDimension "d2")
    trivial).mpr fun _ ⟨d, hd, hg⟩ => by
      cases hd
      exact absurd hg (by decide)

/-- With a group named `__proto__` the same edit leaves no price for an engineer. -/
theorem proto_without_year :
    Clean (cohorts "__proto__").dimensions ∧ Complete (cohorts "__proto__") ∧
      resolveCellPrice (removeDimension (cohorts "__proto__") "d2") ⟨⟨none, some "ICM", []⟩, fun _ => none⟩ = none ∧
      (cohorts "__proto__").cells.lookup "__proto__|_others" = some (some 500) :=
  ⟨⟨by decide, by decide, by decide⟩, complete_of_keys (by decide), by decide, by decide⟩

end Canari.Forms.Fill
