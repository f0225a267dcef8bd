/-
  Canari.Forms.GridTotals — the totals of a priced grid over stored answers
  (social-service product-grid-contract.ts: `axisWithPast`, `productGridTotals`).

  A line stores what was charged, under the ids and labels of the grid as it was; the grid may have
  lost or renamed a row since. The axes are the grid's as it stands and then what only the lines
  name, so every line finds its row and its column, and each line is added once to a cell, a row, a
  column and the total: all four come to the sum of the lines (`productGridTotals_balance`). The
  records are plain objects, where `__proto__` is no field; no id that was ever stored is.
-/

import Canari.Forms.GridDefinition

namespace Canari.Forms.Fill

open Lib (JsMap)
open List

/-! ## The totals -/

structure ProductGridSum where
  units : Int
  cents : Int
  deriving DecidableEq

structure ProductGridTotals where
  rows : List ProductGridAxisEntry
  columns : List ProductGridAxisEntry
  cells : JsMap String ProductGridSum
  rowTotals : JsMap String ProductGridSum
  columnTotals : JsMap String ProductGridSum
  total : ProductGridSum

def axisWithPast (current : List ProductGridAxisEntry) (lines : List ProductGridLine)
    (pick : ProductGridLine → ProductGridAxisEntry) :
    List ProductGridAxisEntry :=
  lines.foldl (fun axis line => if (axis.map (·.id)).contains (pick line).id then axis else axis ++ [pick line]) current

def pickRow (line : ProductGridLine) : ProductGridAxisEntry := ⟨line.rowId, line.rowLabel⟩

def pickColumn (line : ProductGridLine) : ProductGridAxisEntry := ⟨line.colId, line.colLabel⟩

def ProductGridSum.zero : ProductGridSum := ⟨0, 0⟩

def ProductGridSum.add (sum : ProductGridSum)
    (line : ProductGridLine) : ProductGridSum := ⟨sum.units + line.quantity, sum.cents + line.lineCents⟩

/-- `sums[key] = zero()` on a plain object; the order of its fields is not read. -/
def writeZero (sums : JsMap String ProductGridSum) (key : String) : JsMap String ProductGridSum :=
  if key = "__proto__" then sums else sums.set key .zero

/-- Adds a line to `sums[key]`, the TypeError of a missing one being `none`; a sum written under
    `__proto__` is added to, and is no field. -/
def addTo (sums : JsMap String ProductGridSum) (key : String)
    (line : ProductGridLine) : Option (JsMap String ProductGridSum) :=
  match sums.get key with
  | some sum => some (sums.set key (sum.add line))
  | none => if key = "__proto__" then some sums else none

def addLine (totals : ProductGridTotals) (line : ProductGridLine) : Option ProductGridTotals := do
  let key := productGridCellKey line.rowId line.colId
  let cells ← addTo (if totals.cells.has key then totals.cells else writeZero totals.cells key) key line
  let rowTotals ← addTo totals.rowTotals line.rowId line
  let columnTotals ← addTo totals.columnTotals line.colId line
  some { totals with cells, rowTotals, columnTotals, total := totals.total.add line }

def productGridTotals (itemId : String) (grid : ProductGrid)
    (lines : List ProductGridLine) : Option ProductGridTotals :=
  let ownLines := lines.filter fun line => line.itemId == itemId
  let rows := axisWithPast grid.rows ownLines pickRow
  let columns := axisWithPast grid.columns ownLines pickColumn
  ownLines.foldlM addLine
    { rows, columns, cells := .empty, rowTotals := (rows.map (·.id)).foldl writeZero .empty,
      columnTotals := (columns.map (·.id)).foldl writeZero .empty, total := .zero }

/-! ## The axes -/

theorem axisWithPast_spec (current : List ProductGridAxisEntry) (lines : List ProductGridLine)
    (pick : ProductGridLine → ProductGridAxisEntry)
    (hcurrent : (current.map (·.id)).Nodup) :
    ((axisWithPast current lines pick).map (·.id)).Nodup ∧
      ∀ id, id ∈ (axisWithPast current lines pick).map (·.id) ↔
        id ∈ current.map (·.id) ∨ ∃ line ∈ lines, (pick line).id = id := by
  induction lines generalizing current with
  | nil => exact ⟨hcurrent, fun id => ⟨.inl, fun h => h.elim (fun h => h) fun ⟨line, hline, _⟩ => (not_mem_nil hline).elim⟩⟩
  | cons line lines ih =>
    rw [axisWithPast, foldl_cons]
    by_cases hknown : (pick line).id ∈ current.map (·.id)
    · rw [if_pos (contains_iff_mem.mpr hknown)]
      obtain ⟨hnodup, hmem⟩ := ih current hcurrent
      refine ⟨hnodup, fun id => (hmem id).trans ?_⟩
      constructor
      · rintro (h | ⟨other, hother, rfl⟩)
        · exact .inl h
        · exact .inr ⟨other, mem_cons_of_mem _ hother, rfl⟩
      · rintro (h | ⟨other, hother, rfl⟩)
        · exact .inl h
        · rcases mem_cons.mp hother with rfl | hother
          · exact .inl hknown
          · exact .inr ⟨other, hother, rfl⟩
    · rw [if_neg fun h => hknown (contains_iff_mem.mp h)]
      have hnew : ((current ++ [pick line]).map (·.id)).Nodup := by
        rw [map_append, nodup_append]
        refine ⟨hcurrent, by simp, fun a ha b hb hab => hknown ?_⟩
        rw [map_singleton, mem_singleton] at hb
        rwa [← hb, ← hab]
      obtain ⟨hnodup, hmem⟩ := ih (current ++ [pick line]) hnew
      refine ⟨hnodup, fun id => (hmem id).trans ?_⟩
      rw [map_append, mem_append, map_singleton, mem_singleton]
      constructor
      · rintro ((h | rfl) | ⟨other, hother, rfl⟩)
        · exact .inl h
        · exact .inr ⟨line, mem_cons_self, rfl⟩
        · exact .inr ⟨other, mem_cons_of_mem _ hother, rfl⟩
      · rintro (h | ⟨other, hother, rfl⟩)
        · exact .inl (.inl h)
        · rcases mem_cons.mp hother with rfl | hother
          · exact .inl (.inr rfl)
          · exact .inr ⟨other, hother, rfl⟩

/-! ## The sums -/

/-- `f` of a sum grows by `g` of each line: units by quantities, cents by line cents. -/
structure Counts (f : ProductGridSum → Int) (g : ProductGridLine → Int) : Prop where
  zero : f .zero = 0
  add : ∀ sum line, f (ProductGridSum.add sum line) = f sum + g line

theorem counts_units : Counts (·.units) (·.quantity) := ⟨rfl, fun _ _ => rfl⟩

theorem counts_cents : Counts (·.cents) (·.lineCents) := ⟨rfl, fun _ _ => rfl⟩

def sumOf (f : ProductGridSum → Int) (sums : JsMap String ProductGridSum) : Int := (sums.values.map f).sum

theorem writeZero_spec {sums : JsMap String ProductGridSum} {key : String} (hkey : key ≠ "__proto__")
    (hnew : key ∉ sums.keys) :
    (writeZero sums key).keys = sums.keys ++ [key] ∧ ∀ f g, Counts f g →
      sumOf f (writeZero sums key) = sumOf f sums := by
  have hnone : sums.get key = none := by
    cases h : sums.get key with
    | none => rfl
    | some sum => exact absurd (JsMap.mem_keys.mpr ⟨sum, h⟩) hnew
  rw [writeZero, if_neg hkey]
  constructor
  · rw [JsMap.keys_set, if_neg (by rw [JsMap.has, hnone]; simp)]
  · intro f g hcounts
    rw [sumOf, JsMap.values_set_new hnone, map_append, sum_append, map_singleton, sum_singleton,
      hcounts.zero, Int.add_zero]
    rfl

theorem writeZeros_spec (ids : List String) (hproto : ∀ id ∈ ids, id ≠ "__proto__")
    (sums : JsMap String ProductGridSum) (hnodup : (sums.keys ++ ids).Nodup) :
    (ids.foldl writeZero sums).keys = sums.keys ++ ids ∧ ∀ f g, Counts f g →
      sumOf f (ids.foldl writeZero sums) = sumOf f sums := by
  induction ids generalizing sums with
  | nil => exact ⟨(append_nil _).symm, fun _ _ _ => rfl⟩
  | cons id ids ih =>
    have hnew : id ∉ sums.keys := fun h => (nodup_append.mp hnodup).2.2 id h id mem_cons_self rfl
    obtain ⟨hkeys, hsum⟩ := writeZero_spec (hproto id mem_cons_self) hnew
    obtain ⟨hkeys', hsum'⟩ := ih (fun id hid => hproto id (mem_cons_of_mem _ hid)) (writeZero sums id)
      (by rw [hkeys, append_assoc]; exact hnodup)
    refine ⟨?_, fun f g hcounts => ?_⟩
    · rw [foldl_cons, hkeys', hkeys, append_assoc]
      rfl
    · rw [foldl_cons, hsum' f g hcounts, hsum f g hcounts]

theorem addTo_spec {sums : JsMap String ProductGridSum} (hnodup : sums.keys.Nodup) {key : String}
    (hkey : key ∈ sums.keys) (line : ProductGridLine) :
    ∃ sums', addTo sums key line = some sums' ∧ sums'.keys = sums.keys ∧ ∀ f g, Counts f g →
      sumOf f sums' = sumOf f sums + g line := by
  obtain ⟨sum, hsum⟩ := JsMap.mem_keys.mp hkey
  refine ⟨sums.set key (sum.add line), by rw [addTo, hsum], ?_, fun f g hcounts => ?_⟩
  · rw [JsMap.keys_set, if_pos (by rw [JsMap.has, hsum]; rfl)]
  · have hset := JsMap.sum_values_set f hnodup hsum (sum.add line)
    rw [hcounts.add] at hset
    rw [sumOf, sumOf]
    omega

theorem cellKey_ne_proto (rowId colId : String) : productGridCellKey rowId colId ≠ "__proto__" := by
  intro h
  have hmem : ':' ∈ (productGridCellKey rowId colId).toList := by simp [productGridCellKey]
  rw [h] at hmem
  exact absurd hmem (by decide)

/-- Every line finds its row and its column, and no key is held twice. -/
structure Ready (totals : ProductGridTotals) (lines : List ProductGridLine) : Prop where
  cells : totals.cells.keys.Nodup
  rowTotals : totals.rowTotals.keys.Nodup
  columnTotals : totals.columnTotals.keys.Nodup
  row : ∀ line ∈ lines, line.rowId ∈ totals.rowTotals.keys
  column : ∀ line ∈ lines, line.colId ∈ totals.columnTotals.keys

/-- From `start` to `totals` each of the four sums has grown by the lines, and the axes are as they were. -/
structure Grown (start totals : ProductGridTotals) (lines : List ProductGridLine) : Prop where
  axes : totals.rows = start.rows ∧ totals.columns = start.columns
  keys : totals.rowTotals.keys = start.rowTotals.keys ∧ totals.columnTotals.keys = start.columnTotals.keys
  cells : ∀ f g, Counts f g → sumOf f totals.cells = sumOf f start.cells + (lines.map g).sum
  rowTotals : ∀ f g, Counts f g → sumOf f totals.rowTotals = sumOf f start.rowTotals + (lines.map g).sum
  columnTotals : ∀ f g, Counts f g → sumOf f totals.columnTotals = sumOf f start.columnTotals + (lines.map g).sum
  total : ∀ f g, Counts f g → f totals.total = f start.total + (lines.map g).sum

/-- The cell a line goes to, a new one at zero if need be. -/
theorem cellFor_spec {cells : JsMap String ProductGridSum} (hnodup : cells.keys.Nodup) {key : String}
    (hkey : key ≠ "__proto__") :
    (if cells.has key then cells else writeZero cells key).keys.Nodup ∧
      key ∈ (if cells.has key then cells else writeZero cells key).keys ∧
      ∀ f g, Counts f g → sumOf f (if cells.has key then cells else writeZero cells key) = sumOf f cells := by
  by_cases hhas : cells.has key = true
  · rw [if_pos hhas]
    obtain ⟨sum, hsum⟩ := Option.isSome_iff_exists.mp hhas
    exact ⟨hnodup, JsMap.mem_keys.mpr ⟨sum, hsum⟩, fun _ _ _ => rfl⟩
  · rw [if_neg hhas]
    have hnew : key ∉ cells.keys := by
      intro hmem
      obtain ⟨sum, hsum⟩ := JsMap.mem_keys.mp hmem
      exact hhas (by rw [JsMap.has, hsum]; rfl)
    obtain ⟨hkeys, hsum⟩ := writeZero_spec hkey hnew
    refine ⟨?_, ?_, hsum⟩
    · rw [hkeys, nodup_append]
      refine ⟨hnodup, by simp, fun a ha b hb hab => hnew ?_⟩
      rwa [← mem_singleton.mp hb, ← hab]
    · rw [hkeys]
      exact mem_append_right _ (mem_singleton.mpr rfl)

variable {line : ProductGridLine}

theorem addLine_spec {totals : ProductGridTotals} {rest : List ProductGridLine} (h : Ready totals (line :: rest)) :
    ∃ totals', addLine totals line = some totals' ∧ Ready totals' rest ∧ Grown totals totals' [line] := by
  obtain ⟨hcellNodup, hcellMem, hcellSum⟩ := cellFor_spec h.cells (cellKey_ne_proto line.rowId line.colId)
  obtain ⟨cells, hcells, hcellKeys, hcellAdd⟩ := addTo_spec hcellNodup hcellMem line
  obtain ⟨rows, hrows, hrowKeys, hrowAdd⟩ := addTo_spec h.rowTotals (h.row line mem_cons_self) line
  obtain ⟨columns, hcolumns, hcolumnKeys, hcolumnAdd⟩ := addTo_spec h.columnTotals (h.column line mem_cons_self) line
  refine ⟨{ totals with cells := cells, rowTotals := rows, columnTotals := columns, total := totals.total.add line }, ?_, ?_, ?_⟩
  · rw [addLine]
    simp [hcells, hrows, hcolumns]
  · refine ⟨?_, ?_, ?_, fun l hl => ?_, fun l hl => ?_⟩
    · rw [hcellKeys]
      exact hcellNodup
    · rw [hrowKeys]
      exact h.rowTotals
    · rw [hcolumnKeys]
      exact h.columnTotals
    · rw [hrowKeys]
      exact h.row l (mem_cons_of_mem _ hl)
    · rw [hcolumnKeys]
      exact h.column l (mem_cons_of_mem _ hl)
  · refine ⟨⟨rfl, rfl⟩, ⟨hrowKeys, hcolumnKeys⟩, fun f g hc => ?_, fun f g hc => ?_, fun f g hc => ?_, fun f g hc => ?_⟩
    · rw [hcellAdd f g hc, hcellSum f g hc, map_singleton, sum_singleton]
    · rw [hrowAdd f g hc, map_singleton, sum_singleton]
    · rw [hcolumnAdd f g hc, map_singleton, sum_singleton]
    · rw [hc.add, map_singleton, sum_singleton]

theorem Grown.trans {a b c : ProductGridTotals} {l l' : List ProductGridLine} (h : Grown a b l)
    (h' : Grown b c l') : Grown a c (l ++ l') := by
  refine ⟨⟨h'.axes.1.trans h.axes.1, h'.axes.2.trans h.axes.2⟩, ⟨h'.keys.1.trans h.keys.1, h'.keys.2.trans h.keys.2⟩,
    ?_, ?_, ?_, ?_⟩
  · intro f g hc
    rw [h'.cells f g hc, h.cells f g hc, map_append, sum_append, Int.add_assoc]
  · intro f g hc
    rw [h'.rowTotals f g hc, h.rowTotals f g hc, map_append, sum_append, Int.add_assoc]
  · intro f g hc
    rw [h'.columnTotals f g hc, h.columnTotals f g hc, map_append, sum_append, Int.add_assoc]
  · intro f g hc
    rw [h'.total f g hc, h.total f g hc, map_append, sum_append, Int.add_assoc]

theorem addLines_spec {totals : ProductGridTotals} {lines : List ProductGridLine} (h : Ready totals lines) :
    ∃ totals', lines.foldlM addLine totals = some totals' ∧ Grown totals totals' lines := by
  induction lines generalizing totals with
  | nil =>
    refine ⟨totals, rfl, ⟨rfl, rfl⟩, ⟨rfl, rfl⟩, ?_, ?_, ?_, ?_⟩
    · simp
    · simp
    · simp
    · simp
  | cons line rest ih =>
    obtain ⟨next, hnext, hready, hgrown⟩ := addLine_spec h
    obtain ⟨totals', hrun, hrest⟩ := ih hready
    refine ⟨totals', ?_, hgrown.trans hrest⟩
    rw [foldlM_cons, hnext]
    exact hrun

/-! ## Stored lines -/

/-- A line of a stored answer: one the answer was charged for, on a grid as it was stored then. -/
def StoredLine (line : ProductGridLine) : Prop :=
  ∃ itemId itemLabel grid answer viewer lines, ProductGrid.WellFormed grid ∧
    productGridLines itemId itemLabel grid answer viewer = .ok lines ∧ line ∈ lines

theorem mem_linesOf {itemId itemLabel : String} {grid : ProductGrid} {answer : List (String × Int)}
    {viewer : ProductGridViewerPrices}
    {cells : List (ProductGridAxisEntry × ProductGridAxisEntry)} {lines : List ProductGridLine}
    (h : linesOf itemId itemLabel grid answer viewer cells = .ok lines)
    (hline : line ∈ lines) : ∃ cell ∈ cells, line.rowId = cell.1.id ∧ line.colId = cell.2.id := by
  induction cells generalizing lines with
  | nil =>
    cases h
    cases hline
  | cons cell rest ih =>
    obtain ⟨row, col⟩ := cell
    rw [linesOf] at h
    cases hfirst : lineOf itemId itemLabel grid answer viewer row col with
    | error key =>
      rw [hfirst] at h
      cases h
    | ok first =>
      cases hrest : linesOf itemId itemLabel grid answer viewer rest with
      | error key =>
        rw [hfirst, hrest] at h
        cases h
      | ok more =>
        rw [hfirst, hrest] at h
        cases h
        rcases mem_append.mp hline with hline | hline
        · refine ⟨(row, col), mem_cons_self, ?_⟩
          rw [Option.mem_toList] at hline
          cases hline
          rw [lineOf] at hfirst
          split_ifs at hfirst
          · cases hfirst
          · split at hfirst
            · cases hfirst
            · cases hfirst
              exact ⟨rfl, rfl⟩
        · obtain ⟨cell, hcell, hids⟩ := ih hrest hline
          exact ⟨cell, mem_cons_of_mem _ hcell, hids⟩

theorem ne_proto_of_pattern {id : String} (h : PRODUCT_GRID_ID_PATTERN id = true) : id ≠ "__proto__" := by
  rintro rfl
  exact absurd h (by decide)

theorem StoredLine.ne_proto (h : StoredLine line) : line.rowId ≠ "__proto__" ∧ line.colId ≠ "__proto__" := by
  obtain ⟨itemId, itemLabel, grid, answer, viewer, lines, hgrid, hlines, hmem⟩ := h
  obtain ⟨⟨row, col⟩, hcell, hrow, hcol⟩ := mem_linesOf hlines hmem
  rw [ProductGrid.cells, mem_flatMap] at hcell
  obtain ⟨r, hr, hcell⟩ := hcell
  obtain ⟨c, hc, hcell⟩ := mem_map.mp hcell
  cases hcell
  rw [hrow, hcol]
  exact ⟨ne_proto_of_pattern (hgrid.rowIds.2 _ hr), ne_proto_of_pattern (hgrid.columnIds.2 _ hc)⟩

/-- The four sums of the totals are that of the lines. -/
structure Balances (f : ProductGridSum → Int) (g : ProductGridLine → Int) (totals : ProductGridTotals)
    (lines : List ProductGridLine) : Prop where
  cells : sumOf f totals.cells = (lines.map g).sum
  rowTotals : sumOf f totals.rowTotals = (lines.map g).sum
  columnTotals : sumOf f totals.columnTotals = (lines.map g).sum
  total : f totals.total = (lines.map g).sum

/-- Over any stored lines a grid's totals come out, with a total for each row and column listed, and the
    sums of cells, rows, columns and all are those of its own lines, in units and in cents. -/
theorem productGridTotals_balance (itemId : String) (grid : ProductGrid) (hgrid : grid.WellFormed)
    (lines : List ProductGridLine)
    (hlines : ∀ line ∈ lines, StoredLine line) :
    ∃ totals, productGridTotals itemId grid lines = some totals ∧
      Balances (·.units) (·.quantity) totals (lines.filter fun line => line.itemId == itemId) ∧
      Balances (·.cents) (·.lineCents) totals (lines.filter fun line => line.itemId == itemId) ∧
      totals.rowTotals.keys = totals.rows.map (·.id) ∧ totals.columnTotals.keys = totals.columns.map (·.id) := by
  rw [productGridTotals]
  have hown : ∀ line ∈ lines.filter fun line => line.itemId == itemId, StoredLine line :=
    fun line hline => hlines line (mem_filter.mp hline).1
  generalize lines.filter (fun line => line.itemId == itemId) = own at *
  obtain ⟨hrowNodup, hrowMem⟩ := axisWithPast_spec grid.rows own pickRow hgrid.rowIds.1
  obtain ⟨hcolumnNodup, hcolumnMem⟩ := axisWithPast_spec grid.columns own pickColumn hgrid.columnIds.1
  have hrowProto : ∀ id ∈ (axisWithPast grid.rows own pickRow).map (·.id), id ≠ "__proto__" := by
    intro id hid
    rcases (hrowMem id).mp hid with hid | ⟨line, hline, rfl⟩
    · obtain ⟨row, hrow, rfl⟩ := mem_map.mp hid
      exact ne_proto_of_pattern (hgrid.rowIds.2 row hrow)
    · exact (hown line hline).ne_proto.1
  have hcolumnProto : ∀ id ∈ (axisWithPast grid.columns own pickColumn).map (·.id), id ≠ "__proto__" := by
    intro id hid
    rcases (hcolumnMem id).mp hid with hid | ⟨line, hline, rfl⟩
    · obtain ⟨column, hcolumn, rfl⟩ := mem_map.mp hid
      exact ne_proto_of_pattern (hgrid.columnIds.2 column hcolumn)
    · exact (hown line hline).ne_proto.2
  obtain ⟨hrowKeys, hrowZero⟩ := writeZeros_spec _ hrowProto .empty hrowNodup
  obtain ⟨hcolumnKeys, hcolumnZero⟩ := writeZeros_spec _ hcolumnProto .empty hcolumnNodup
  -- Each line's row and column are listed, so the loop finds them.
  have hready : Ready ⟨axisWithPast grid.rows own pickRow, axisWithPast grid.columns own pickColumn, .empty,
      ((axisWithPast grid.rows own pickRow).map (·.id)).foldl writeZero .empty,
      ((axisWithPast grid.columns own pickColumn).map (·.id)).foldl writeZero .empty, .zero⟩ own := by
    refine ⟨nodup_nil, ?_, ?_, fun line hline => ?_, fun line hline => ?_⟩
    · rw [hrowKeys]
      exact hrowNodup
    · rw [hcolumnKeys]
      exact hcolumnNodup
    · rw [hrowKeys]
      exact (hrowMem line.rowId).mpr (.inr ⟨line, hline, rfl⟩)
    · rw [hcolumnKeys]
      exact (hcolumnMem line.colId).mpr (.inr ⟨line, hline, rfl⟩)
  obtain ⟨totals, hrun, hgrown⟩ := addLines_spec hready
  have hbalances : ∀ f g, Counts f g → Balances f g totals own := by
    intro f g hc
    have hempty : sumOf f .empty = 0 := rfl
    refine ⟨?_, ?_, ?_, ?_⟩
    · rw [hgrown.cells f g hc, hempty, Int.zero_add]
    · rw [hgrown.rowTotals f g hc, hrowZero f g hc, hempty, Int.zero_add]
    · rw [hgrown.columnTotals f g hc, hcolumnZero f g hc, hempty, Int.zero_add]
    · rw [hgrown.total f g hc, hc.zero, Int.zero_add]
  refine ⟨totals, hrun, hbalances _ _ counts_units, hbalances _ _ counts_cents, ?_, ?_⟩
  · rw [hgrown.keys.1, hgrown.axes.1, hrowKeys]
    rfl
  · rw [hgrown.keys.2, hgrown.axes.2, hcolumnKeys]
    rfl

def tees (colours : List ProductGridAxisEntry) : ProductGrid where
  rows := colours
  columns := [⟨"m", "M"⟩]
  maxPerCell := 3
  closedCells := []
  mode := .single
  tiers := none
  prices := [("_all", [("*", 1000)])]
  profileTiers := by rintro d hd; cases hd
  complete := by decide
  nonneg := by decide

def greenLine : ProductGridLine := ⟨"q", "Tees", "green", "Vert", "m", "M", 2, 1000, 2000, "_all", none⟩

/-- Green shirts are no longer sold: the two ordered are still in the totals, under their own row. -/
theorem green_shirts_are_counted :
    ∃ totals, productGridTotals "q" (tees [⟨"blue", "Bleu"⟩]) [greenLine] = some totals ∧ totals.total = ⟨2, 2000⟩ ∧
      totals.rows.map (·.id) = ["blue", "green"] ∧ sumOf (·.units) totals.rowTotals = 2 ∧
        sumOf (·.cents) totals.rowTotals = 2000 := by
  have hblue : (tees [⟨"blue", "Bleu"⟩]).WellFormed :=
    ⟨by decide, by decide, by decide, by decide, by decide, by decide, by decide⟩
  have hgreen : (tees [⟨"green", "Vert"⟩]).WellFormed :=
    ⟨by decide, by decide, by decide, by decide, by decide, by decide, by decide⟩
  have hline : StoredLine greenLine :=
    ⟨"q", "Tees", tees [⟨"green", "Vert"⟩], [("green:m", 2)], ⟨"_all", none, [("*", 1000)]⟩, [greenLine],
    hgreen, rfl, mem_cons_self⟩
  obtain ⟨totals, htotals, hunits, hcents, -, -⟩ :=
    productGridTotals_balance "q" (tees [⟨"blue", "Bleu"⟩]) hblue [greenLine]
    (fun line h => mem_singleton.mp h ▸ hline)
  refine ⟨totals, htotals, ?_, ?_, hunits.rowTotals, hcents.rowTotals⟩
  · have htotal : (productGridTotals "q" (tees [⟨"blue", "Bleu"⟩]) [greenLine]).map (·.total) = some ⟨2, 2000⟩ := by
      decide
    rw [htotals] at htotal
    exact Option.some.inj htotal
  · have hrows : (productGridTotals "q" (tees [⟨"blue", "Bleu"⟩]) [greenLine]).map (·.rows.map (·.id)) = some ["blue",
      "green"] := by decide
    rw [htotals] at hrows
    exact Option.some.inj hrows

end Canari.Forms.Fill
