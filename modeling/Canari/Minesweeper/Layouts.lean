/-
  Canari.Minesweeper.Layouts — what drawing a layout and moving its mines keep.

  Every layout has as many mines as the board says, or as there are cells outside the free ones if
  these are fewer, none on the free ones, and on each cell that is no mine the number of mines
  beside it (`Laid`). Drawing one makes it so (`redone_placeMinesRandom`). `tathamPerturb` swaps as
  many mines out of a set as into it. `perturbUnknownMines` draws again as many as are not
  known, so what it is given as known must be different cells, and no mine a free one.
-/

import Canari.Minesweeper.Acts
import Canari.Minesweeper.Generation
import Mathlib.Data.List.Perm.Basic

namespace Canari.Minesweeper

open Lib Lib.Counting Lib.Draws List Function

/-! ## Laying mines changes nothing else -/

/-- The same board but for its mines and its numbers. -/
structure Relaid (b c : Board) : Prop where
  width : c.width = b.width
  height : c.height = b.height
  mineCount : c.mineCount = b.mineCount
  status : c.status = b.status
  minesPlaced : c.minesPlaced = b.minesPlaced
  revealedCount : c.revealedCount = b.revealedCount
  flagCount : c.flagCount = b.flagCount
  length : c.cells.length = b.cells.length
  state : ∀ i, c.state i = b.state i

namespace Relaid

variable {b c d : Board} {i : Nat}

theorem refl (b : Board) : Relaid b b := ⟨rfl, rfl, rfl, rfl, rfl, rfl, rfl, rfl, fun _ => rfl⟩

theorem trans (h : Relaid b c) (h' : Relaid c d) : Relaid b d where
  width := h'.width.trans h.width
  height := h'.height.trans h.height
  mineCount := h'.mineCount.trans h.mineCount
  status := h'.status.trans h.status
  minesPlaced := h'.minesPlaced.trans h.minesPlaced
  revealedCount := h'.revealedCount.trans h.revealedCount
  flagCount := h'.flagCount.trans h.flagCount
  length := h'.length.trans h.length
  state i := (h'.state i).trans (h.state i)

theorem neighbors (h : Relaid b c) (i : Nat) : c.neighbors i = b.neighbors i := by
  rw [Board.neighbors, Board.neighbors, h.width, h.height]

theorem indices (h : Relaid b c) : c.indices = b.indices := by
  rw [Board.indices, Board.indices, h.length]

theorem safeZone (h : Relaid b c) (i : Nat) : c.safeZone i = b.safeZone i := by
  rw [Board.safeZone, Board.safeZone, h.neighbors]

theorem outside (h : Relaid b c) (i : Nat) : c.outside i = b.outside i := by
  rw [Board.outside, Board.outside, h.indices, h.safeZone]

theorem setMine (b : Board) (i : Nat) (mine : Bool) : Relaid b (b.setMine i mine) := by
  refine ⟨rfl, rfl, rfl, rfl, rfl, rfl, rfl, by simp [Board.setMine], ?_⟩
  intro j
  simp only [Board.state, Board.cell, Board.setMine, getD_eq_getElem?_getD, getElem?_modify]
  by_cases h : i = j
  · subst h
    cases b.cells[i]? <;> simp
  · simp [h]

theorem computeAdjacents (b : Board) : Relaid b b.computeAdjacents := by
  refine ⟨rfl, rfl, rfl, rfl, rfl, rfl, rfl, by simp [Board.computeAdjacents], ?_⟩
  intro j
  simp only [Board.state, Board.cell, Board.computeAdjacents, getD_eq_getElem?_getD, getElem?_mapIdx]
  cases b.cells[j]? <;> simp

theorem clearMineLayout (b : Board) : Relaid b b.clearMineLayout := by
  refine ⟨rfl, rfl, rfl, rfl, rfl, rfl, rfl, by simp [Board.clearMineLayout], ?_⟩
  intro j
  simp only [Board.state, Board.cell, Board.clearMineLayout, getD_eq_getElem?_getD, getElem?_map]
  cases b.cells[j]? <;> simp

theorem foldl {α : Type} (l : List α) (index : α → Nat) (mine : α → Bool) (b : Board) :
    Relaid b (l.foldl (fun b a => b.setMine (index a) (mine a)) b) := by
  refine List.foldlRecOn (motive := Relaid b) l _ (refl b) ?_
  intro c hc a _
  exact hc.trans (setMine c _ _)

end Relaid

section Mines

variable {b : Board} {i j : Nat}

theorem mine_setMine (hi : i < b.cells.length)
    (mine : Bool) : (b.setMine i mine).mine j = if j = i then mine else b.mine j := by
  simp only [Board.mine, Board.cell, Board.setMine, getD_eq_getElem?_getD, getElem?_modify]
  by_cases h : i = j
  · subst h
    simp [hi]
  · simp [h, Ne.symm h]

theorem mine_foldl_setMine (l : List Nat) (mine : Bool) : ∀ b : Board, (∀ i ∈ l, i < b.cells.length) → ∀ j,
    (l.foldl (fun b i => b.setMine i mine) b).mine j = if j ∈ l then mine else b.mine j := by
  induction l with
  | nil => intro b _ j; simp
  | cons i rest ih =>
    intro b hlt j
    have hi := hlt i mem_cons_self
    rw [foldl_cons, ih _ fun n hn => (Relaid.setMine b i mine).length ▸ hlt n (mem_cons_of_mem _ hn), mine_setMine hi]
    by_cases hj : j ∈ rest
    · simp [hj]
    · by_cases hji : j = i <;> simp [hj, hji]

theorem mine_computeAdjacents (b : Board) (j : Nat) : b.computeAdjacents.mine j = b.mine j := by
  simp only [Board.mine, Board.cell, Board.computeAdjacents, getD_eq_getElem?_getD, getElem?_mapIdx]
  cases b.cells[j]? <;> simp

theorem mine_clearMineLayout (b : Board) (j : Nat) : b.clearMineLayout.mine j = false := by
  simp only [Board.mine, Board.cell, Board.clearMineLayout, getD_eq_getElem?_getD, getElem?_map]
  cases b.cells[j]? <;> simp

theorem adjacent_computeAdjacents (hj : j < b.cells.length) :
    b.computeAdjacents.adjacent j = if b.mine j then 0 else (b.neighbors j).countP b.mine := by
  simp only [Board.adjacent, Board.mine, Board.cell, Board.computeAdjacents, getD_eq_getElem?_getD, getElem?_mapIdx,
    getElem?_eq_getElem hj]
  rfl

/-- Cells that each change, as many of them to a mine as from one: the mines stay as many. -/
theorem countP_changes (cs : List (Nat × Bool)) : ∀ b : Board, (cs.map Prod.fst).Nodup →
    (∀ c ∈ cs, c.1 < b.cells.length ∧ b.mine c.1 ≠ c.2) →
    b.indices.countP (cs.foldl (fun b c => b.setMine c.1 c.2) b).mine + cs.countP (fun c => !c.2) =
      b.indices.countP b.mine + cs.countP Prod.snd := by
  induction cs with
  | nil => intro b _ _; simp
  | cons c rest ih =>
    intro b hn hc
    obtain ⟨i, v⟩ := c
    obtain ⟨hi, hv⟩ := hc (i, v) mem_cons_self
    rw [map_cons, nodup_cons] at hn
    have hrelaid := Relaid.setMine b i v
    have hrest := ih (b.setMine i v) hn.2 (by
      intro d hd
      have hmem : d.1 ∈ rest.map Prod.fst := mem_map_of_mem hd
      have hne : d.1 ≠ i := fun he => hn.1 (he ▸ hmem)
      rw [hrelaid.length, mine_setMine hi, if_neg hne]
      exact hc d (mem_cons_of_mem _ hd))
    rw [hrelaid.indices] at hrest
    have hflip : ∀ x ∈ b.indices, x ≠ i → (b.setMine i v).mine x = b.mine x := fun x _ hx => by
      rw [mine_setMine hi, if_neg hx]
    simp only [foldl_cons, countP_cons]
    cases v with
    | true =>
      have hone : b.indices.countP (b.setMine i true).mine = b.indices.countP b.mine + 1 :=
        countP_one_more nodup_range (mem_indices.mpr hi) (by rw [mine_setMine hi, if_pos rfl]) (by simpa using hv) hflip
      simp only [Bool.not_true, Bool.false_eq_true, if_false, if_true] at hrest ⊢
      omega
    | false =>
      have hone : b.indices.countP b.mine = b.indices.countP (b.setMine i false).mine + 1 :=
        countP_one_more nodup_range (mem_indices.mpr hi) (by simpa using hv) (by rw [mine_setMine hi, if_pos rfl])
          fun x hx hne => (hflip x hx hne).symm
      simp only [Bool.not_false, Bool.false_eq_true, if_false, if_true] at hrest ⊢
      omega

theorem mine_changes (cs : List (Nat × Bool)) : ∀ b : Board, (∀ c ∈ cs, c.1 < b.cells.length) → ∀ j ∉ cs.map Prod.fst,
    (cs.foldl (fun b c => b.setMine c.1 c.2) b).mine j = b.mine j := by
  induction cs with
  | nil => intro b _ j _; rfl
  | cons c rest ih =>
    intro b hlt j hj
    rw [map_cons, mem_cons, not_or] at hj
    rw [foldl_cons, ih _ (fun d hd => (Relaid.setMine b c.1 c.2).length ▸ hlt d (mem_cons_of_mem _ hd)) j hj.2,
      mine_setMine (hlt c mem_cons_self), if_neg hj.1]

end Mines

/-! ## Laid boards -/

/-- As many mines as the board says or as there is room for, none on the first cell or beside it, and
    on every cell that is no mine the number of mines beside it. -/
structure Laid (b : Board) (safeIndex : Nat) : Prop where
  size : b.cells.length = b.width * b.height
  first : safeIndex < b.cells.length
  count : b.indices.countP b.mine = min b.mineCount (b.outside safeIndex).length
  zone : ∀ i ∈ b.safeZone safeIndex, b.mine i = false
  numbers : ∀ i < b.cells.length, b.adjacent i = if b.mine i then 0 else (b.neighbors i).countP b.mine

section Laid

variable {b c d : Board} {safeIndex i : Nat}

theorem Laid.ruled (h : Laid b safeIndex) : Ruled b where
  size := h.size
  numbers i hi hm := by rw [h.numbers i hi, hm]; rfl

theorem mem_outside : i ∈ b.outside safeIndex ↔ i < b.cells.length ∧ i ∉ b.safeZone safeIndex := by
  rw [Board.outside, mem_filter, mem_indices, decide_eq_true_eq]

/-- The mines are laid anew, and the rest of the board is as it was. -/
structure Redone (safeIndex : Nat) (b c : Board) : Prop where
  relaid : Relaid b c
  laid : Laid c safeIndex

theorem Redone.after (h' : Redone safeIndex c d) (h : Relaid b c) : Redone safeIndex b d := ⟨h.trans h'.relaid, h'.laid⟩

theorem redone_computeAdjacents (hr : Relaid b c) (hsize : b.cells.length = b.width * b.height)
    (hfirst : safeIndex < b.cells.length)
    (hcount : b.indices.countP c.mine = min b.mineCount (b.outside safeIndex).length)
    (hzone : ∀ i ∈ b.safeZone safeIndex, c.mine i = false) :
    Redone safeIndex b c.computeAdjacents := by
  have hr' := hr.trans (Relaid.computeAdjacents c)
  have hmine : c.computeAdjacents.mine = c.mine := funext (mine_computeAdjacents c)
  refine ⟨hr', ?_, ?_, ?_, ?_, ?_⟩
  · rw [hr'.length, hr'.width, hr'.height]
    exact hsize
  · rw [hr'.length]
    exact hfirst
  · rw [hr'.indices, hmine, hr'.mineCount, hr'.outside]
    exact hcount
  · rw [hr'.safeZone, hmine]
    exact hzone
  · intro i hi
    rw [(Relaid.computeAdjacents c).length] at hi
    rw [hmine, (Relaid.computeAdjacents c).neighbors, adjacent_computeAdjacents hi]

theorem countP_le_outside (hzone : ∀ i ∈ b.safeZone safeIndex, b.mine i = false) :
    b.indices.countP b.mine ≤ (b.outside safeIndex).length := by
  rw [Board.outside, ← countP_eq_length_filter]
  refine countP_mono_left ?_
  intro i _ hm
  rw [decide_eq_true_eq]
  intro hmem
  rw [hzone i hmem] at hm
  cases hm

/-! ### The layout drawn -/

theorem layMines_spec (draws : Generator) (m : Nat) : ∀ (candidates : List Nat) (b : Board)
    (next : Nat), candidates.Nodup →
    (∀ i ∈ candidates, i < b.cells.length ∧ b.mine i = false) →
    let laid := (layMines draws m candidates b next).1
    Relaid b laid ∧ b.indices.countP laid.mine = b.indices.countP b.mine + min m candidates.length ∧
      ∀ i, i ∉ candidates → laid.mine i = b.mine i := by
  induction m with
  | zero => intro candidates b next _ _; exact ⟨Relaid.refl b, by simp [layMines], fun _ _ => rfl⟩
  | succ m ih =>
    intro candidates b next hn hc
    rw [layMines]
    split
    · rename_i h0
      exact ⟨Relaid.refl b, by simp [h0], fun _ _ => rfl⟩
    · rename_i h0
      have hp : pick (draws next) candidates.length < candidates.length := pick_lt _ (Nat.pos_of_ne_zero h0)
      generalize pick (draws next) candidates.length = p at hp ⊢
      have hget : candidates.getD p 0 = candidates[p] := by simp [hp]
      have hperm : (candidates[p] :: candidates.eraseIdx p).Perm candidates := getElem_cons_eraseIdx_perm hp
      have hcons : (candidates[p] :: candidates.eraseIdx p).Nodup := hperm.symm.nodup hn
      rw [nodup_cons] at hcons
      obtain ⟨hlt, hfree⟩ := hc candidates[p] (getElem_mem hp)
      have hset := Relaid.setMine b candidates[p] true
      have hrest : ∀ i ∈ candidates.eraseIdx p, i < (b.setMine candidates[p] true).cells.length ∧
        (b.setMine candidates[p] true).mine i = false := by
        intro i hi
        have hne : i ≠ candidates[p] := fun he => hcons.1 (he ▸ hi)
        rw [hset.length, mine_setMine hlt, if_neg hne]
        exact hc i (hperm.subset (mem_cons_of_mem _ hi))
      obtain ⟨hrelaid, hcount, hother⟩ :=
        ih (candidates.eraseIdx p) (b.setMine candidates[p] true) (next + 1) hcons.2 hrest
      have hone : b.indices.countP (b.setMine candidates[p] true).mine = b.indices.countP b.mine + 1 := by
        refine countP_one_more nodup_range (mem_indices.mpr hlt) ?_ hfree ?_
        · rw [mine_setMine hlt, if_pos rfl]
        · intro x _ hx
          rw [mine_setMine hlt, if_neg hx]
      simp only [hget]
      refine ⟨hset.trans hrelaid, ?_, ?_⟩
      · rw [hset.indices] at hcount
        rw [hcount, length_eraseIdx_of_lt hp]
        omega
      · intro i hi
        have hne : i ≠ candidates[p] := fun he => hi (he ▸ getElem_mem hp)
        rw [hother i fun hmem => hi (hperm.subset (mem_cons_of_mem _ hmem)), mine_setMine hlt, if_neg hne]

theorem redone_placeMinesRandom (draws : Generator) (next : Nat) (hsize : b.cells.length = b.width * b.height)
    (hfirst : safeIndex < b.cells.length) :
    Redone safeIndex b (placeMinesRandom draws b safeIndex next).1 := by
  have hclear := Relaid.clearMineLayout b
  have hnone : ∀ i, b.clearMineLayout.mine i = false := mine_clearMineLayout b
  have hcandidates : ∀ i ∈ b.clearMineLayout.outside safeIndex, i < b.clearMineLayout.cells.length ∧
    b.clearMineLayout.mine i = false :=
    fun i hi => ⟨((mem_outside).mp hi).1, hnone i⟩
  obtain ⟨hrelaid, hcount, hother⟩ :=
    layMines_spec draws b.clearMineLayout.mineCount (b.clearMineLayout.outside safeIndex)
    b.clearMineLayout next (nodup_range.filter _) hcandidates
  have hzero : b.clearMineLayout.indices.countP b.clearMineLayout.mine = 0 := by
    rw [countP_eq_zero]
    intro i _
    simp [hnone]
  refine redone_computeAdjacents (hclear.trans hrelaid) hsize hfirst ?_ ?_
  · rw [hzero, Nat.zero_add] at hcount
    exact hclear.indices ▸ hclear.outside safeIndex ▸ hcount
  · intro i hi
    rw [hother i fun hmem => ((mem_outside).mp hmem).2 hi]
    exact hnone i

/-! ### A set filled or emptied -/

theorem gather_sublist (nfull nempty : Nat) (cands : List Cand) : ∀ tofill toempty : List Nat,
    (gather b nfull nempty cands tofill toempty).1.Sublist
      (tofill ++ (cands.map Cand.index).filter fun i => !b.mine i) ∧
      (gather b nfull nempty cands tofill toempty).2.Sublist (toempty ++ (cands.map Cand.index).filter b.mine) := by
  induction cands with
  | nil => intro tofill toempty; simp [gather]
  | cons c rest ih =>
    intro tofill toempty
    obtain ⟨hfill, hempty⟩ :=
      ih (if b.mine c.index then tofill else tofill ++ [c.index])
      (if b.mine c.index then toempty ++ [c.index] else toempty)
    rw [gather]
    cases hm : b.mine c.index with
    | true =>
      simp only [hm, if_true] at hfill hempty ⊢
      rw [append_assoc] at hempty
      split
      · simp [hm]
      · simpa [hm] using ⟨hfill, hempty⟩
    | false =>
      simp only [hm, Bool.false_eq_true, if_false] at hfill hempty ⊢
      rw [append_assoc] at hfill
      split
      · simp [hm]
      · simpa [hm] using ⟨hfill, hempty⟩

theorem perm_pairs (xs : List Nat) : ∀ ys : List Nat, xs.length ≤ ys.length →
    (((xs.zip ys).flatMap fun p => [(p.1, false), (p.2, true)]).map Prod.fst).Perm (xs ++ ys.take xs.length) := by
  induction xs with
  | nil => intro ys _; simp
  | cons x xs ih =>
    intro ys hlen
    cases ys with
    | nil => simp at hlen
    | cons y ys =>
      have hrest := ih ys (by simpa using hlen)
      exact ((hrest.cons y).trans perm_middle.symm).cons x

theorem countP_pairs (ps : List (Nat × Nat)) :
    (ps.flatMap fun p => [(p.1, false), (p.2, true)]).countP Prod.snd =
      (ps.flatMap fun p => [(p.1, false), (p.2, true)]).countP fun c => !c.2 := by
  induction ps with
  | nil => rfl
  | cons p rest ih => simp [ih]

theorem countP_marked (l : List Nat) (v : Bool) : (l.map (·, v)).countP Prod.snd = (if v then l.length else 0) ∧
    ((l.map (·, v)).countP fun c => !c.2) = if v then 0 else l.length := by
  cases v <;> simp [countP_map, comp_def]

/-- The cells that change are different ones, of the set or of those it is swapped with, and as many
    become mines as stop being one. -/
theorem changesOf_spec {draws : Generator} {setCells tofill toempty : List Nat} {next : Nat} (hset : setCells.Nodup)
    (hfill : tofill.Nodup) (hempty : toempty.Nodup) (hfo : ∀ i ∈ tofill, i ∉ setCells)
    (heo : ∀ i ∈ toempty, i ∉ setCells)
    {cs : List (Nat × Bool)}
    (h : (changesOf draws b setCells tofill toempty (setCells.countP b.mine)
    (setCells.countP fun i => !b.mine i) next).1 = some cs) :
    (cs.map Prod.fst).Nodup ∧ (∀ i ∈ cs.map Prod.fst, i ∈ setCells ∨ i ∈ tofill ∨ i ∈ toempty) ∧
      cs.countP Prod.snd = cs.countP fun c => !c.2 := by
  have disjoint : ∀ {p : Nat → Bool} {others : List Nat}, others.Nodup → (∀ i ∈ others, i ∉ setCells) →
    (others ++ setCells.filter p).Nodup := by
    intro p others hn ho
    refine nodup_append.mpr ⟨hn, hset.filter p, ?_⟩
    intro x hx y hy hxy
    exact ho x hx (hxy ▸ mem_of_mem_filter hy)
  unfold changesOf at h
  split at h
  · rename_i hlen
    cases h
    refine ⟨?_, ?_, ?_⟩
    · simpa [map_append, comp_def] using disjoint hfill hfo
    · intro i hi
      simp only [map_append, map_map, comp_def, map_id', mem_append] at hi
      rcases hi with hi | hi
      · exact Or.inr (Or.inl hi)
      · exact Or.inl (mem_of_mem_filter hi)
    · rw [countP_append, countP_append, (countP_marked _ _).1, (countP_marked _ _).1, (countP_marked _ _).2,
        (countP_marked _ _).2,
        hlen.1, countP_eq_length_filter]
      simp
  · split at h
    · rename_i hlen
      cases h
      refine ⟨?_, ?_, ?_⟩
      · simpa [map_append, comp_def] using disjoint hempty heo
      · intro i hi
        simp only [map_append, map_map, comp_def, map_id', mem_append] at hi
        rcases hi with hi | hi
        · exact Or.inr (Or.inr hi)
        · exact Or.inl (mem_of_mem_filter hi)
      · rw [countP_append, countP_append, (countP_marked _ _).1, (countP_marked _ _).1, (countP_marked _ _).2,
          (countP_marked _ _).2,
          hlen.1, countP_eq_length_filter]
        simp
    · split at h
      · cases h
        have hshuffled := shuffleInPlace_perm draws (setCells.filter fun i => !b.mine i) next
        have hle : toempty.length ≤ (shuffleInPlace draws (setCells.filter fun i => !b.mine i) next).1.length := by
          rw [hshuffled.length_eq, ← countP_eq_length_filter]
          omega
        have hperm := perm_pairs toempty _ hle
        have hmem : ∀ i ∈ (shuffleInPlace draws (setCells.filter fun i => !b.mine i) next).1, i ∈ setCells :=
          fun i hi => mem_of_mem_filter (hshuffled.subset hi)
        refine ⟨hperm.symm.nodup ?_, ?_, countP_pairs _⟩
        · refine nodup_append.mpr ⟨hempty, (hshuffled.symm.nodup (hset.filter _)).sublist (take_sublist _ _), ?_⟩
          intro x hx y hy hxy
          exact heo x hx (hxy ▸ hmem y (mem_of_mem_take hy))
        · intro i hi
          rcases mem_append.mp (hperm.subset hi) with hi | hi
          · exact Or.inr (Or.inr hi)
          · exact Or.inl (hmem i (mem_of_mem_take hi))
      · cases h

theorem setCellsOf_spec {known : List Nat} {target : Option (List Nat)}
    (ht : ∀ set ∈ target, set.Nodup ∧ ∀ i ∈ set, i < b.cells.length) :
    (setCellsOf b safeIndex known target).Nodup ∧
      ∀ i ∈ setCellsOf b safeIndex known target, i < b.cells.length ∧ i ∉ b.safeZone safeIndex := by
  unfold setCellsOf
  split
  · rename_i v vs
    obtain ⟨hn, hlt⟩ := ht (v :: vs) rfl
    refine ⟨hn.filter _, ?_⟩
    intro i hi
    obtain ⟨hi, hz⟩ := mem_filter.mp hi
    exact ⟨hlt i hi, by simpa using hz⟩
  · refine ⟨nodup_range.filter _, ?_⟩
    intro i hi
    obtain ⟨hi, hz⟩ := mem_filter.mp hi
    rw [decide_eq_true_eq] at hz
    exact ⟨mem_indices.mp hi, hz.1⟩

theorem candidatesOf_spec (draws : Generator) (known setCells : List Nat) (next : Nat) :
    let sorted := (candidatesOf draws b safeIndex known setCells next).insertionSort fun c d => c.le d = true
    (sorted.map Cand.index).Nodup ∧
      ∀ i ∈ sorted.map Cand.index, i < b.cells.length ∧ i ∉ b.safeZone safeIndex ∧ i ∉ setCells := by
  have hindex : (candidatesOf draws b safeIndex known setCells next).map Cand.index =
      b.indices.filter fun i => i ∉ b.safeZone safeIndex ∧ i ∉ setCells := by
    apply ext_getElem?
    intro k
    simp only [candidatesOf, getElem?_map, getElem?_mapIdx, Option.map_map]
    cases (b.indices.filter fun i => decide (i ∉ b.safeZone safeIndex ∧ i ∉ setCells))[k]? <;> rfl
  have hperm := (perm_insertionSort (fun c d : Cand => c.le d = true)
    (candidatesOf draws b safeIndex known setCells next)).map Cand.index
  rw [hindex] at hperm
  refine ⟨hperm.symm.nodup (nodup_range.filter _), ?_⟩
  intro i hi
  obtain ⟨hi, hz⟩ := mem_filter.mp (hperm.subset hi)
  rw [decide_eq_true_eq] at hz
  exact ⟨mem_indices.mp hi, hz.1, hz.2⟩

/-- Different cells outside the first ones change, as many to a mine as from one. -/
theorem redone_changes (h : Laid b safeIndex) {cs : List (Nat × Bool)} (hn : (cs.map Prod.fst).Nodup)
    (hc : ∀ i ∈ cs.map Prod.fst, i < b.cells.length ∧ i ∉ b.safeZone safeIndex) (hm : ∀ c ∈ cs, b.mine c.1 ≠ c.2)
    (hcount : cs.countP Prod.snd = cs.countP fun c => !c.2) :
    Redone safeIndex b (cs.foldl (fun b c => b.setMine c.1 c.2) b).computeAdjacents := by
  have hlt : ∀ c ∈ cs, c.1 < b.cells.length := fun c hmem => (hc c.1 (mem_map_of_mem hmem)).1
  have hsame := countP_changes cs b hn fun c hmem => ⟨hlt c hmem, hm c hmem⟩
  refine redone_computeAdjacents (Relaid.foldl cs Prod.fst Prod.snd b) h.size h.first ?_ ?_
  · rw [← h.count]
    omega
  · intro i hi
    rw [mine_changes cs b hlt i fun hmem => (hc i hmem).2 hi]
    exact h.zone i hi

theorem redone_tathamPerturb (draws : Generator) (h : Laid b safeIndex) {knownEmpty knownMines : List Nat}
    {target : Option (List Nat)}
    (ht : ∀ set ∈ target, set.Nodup ∧ ∀ i ∈ set, i < b.cells.length) {next : Nat}
    (hc : (tathamPerturb draws b safeIndex knownEmpty knownMines target next).1 = some c) : Redone safeIndex b c := by
  unfold tathamPerturb at hc
  dsimp only at hc
  have ⟨hset, hsetIn⟩ : (setCellsOf b safeIndex (knownEmpty ++ knownMines) target).Nodup ∧ _ := setCellsOf_spec ht
  generalize setCellsOf b safeIndex (knownEmpty ++ knownMines) target = setCells at hc hset hsetIn
  obtain ⟨hcand, hcandIn⟩ := @candidatesOf_spec b safeIndex draws (knownEmpty ++ knownMines) setCells next
  generalize (candidatesOf draws b safeIndex (knownEmpty ++ knownMines) setCells next) = cands at hc hcand hcandIn
  obtain ⟨hfill, hempty⟩ := gather_sublist (b := b) (setCells.countP b.mine) (setCells.countP fun i => !b.mine i)
    (cands.insertionSort fun c d => c.le d = true) [] []
  split at hc
  · cases hc
  · split at hc
    · cases hc
    · split at hc
      · cases hc
      · rename_i cs hcs
        split at hc
        · cases hc
        · rename_i hvalid
          cases hc
          rw [not_or, List.any_eq_true] at hvalid
          obtain ⟨hnodup, hwhere, hcount⟩ :=
            changesOf_spec hset ((hcand.filter _).sublist hfill) ((hcand.filter _).sublist hempty)
            (fun i hi => (hcandIn i (mem_of_mem_filter (hfill.subset hi))).2.2)
            (fun i hi => (hcandIn i (mem_of_mem_filter (hempty.subset hi))).2.2) hcs
          refine redone_changes h hnodup ?_ ?_ hcount
          · intro i hi
            rcases hwhere i hi with hi | hi | hi
            · exact hsetIn i hi
            · have hi' := hcandIn i (mem_of_mem_filter (hfill.subset hi))
              exact ⟨hi'.1, hi'.2.1⟩
            · have hi' := hcandIn i (mem_of_mem_filter (hempty.subset hi))
              exact ⟨hi'.1, hi'.2.1⟩
          · intro c hmem heq
            exact hvalid.2 ⟨c, hmem, by simpa using heq⟩

/-! ### The undecided mines drawn again -/

theorem countP_mem_eq_length {l all : List Nat} (hl : l.Nodup) (ha : all.Nodup) (h : ∀ x ∈ l, x ∈ all) :
    (all.countP fun x => decide (x ∈ l)) = l.length := by
  rw [countP_eq_length_filter]
  refine List.Perm.length_eq ((perm_ext_iff_of_nodup (ha.filter _) hl).mpr fun x => ?_)
  rw [mem_filter, decide_eq_true_eq]
  exact ⟨fun hx => hx.2, fun hx => ⟨h x hx, hx⟩⟩

theorem Laid.zone_lt (h : Laid b safeIndex) (hi : i ∈ b.safeZone safeIndex) : i < b.cells.length := by
  rcases mem_cons.mp hi with hi | hi
  · exact hi ▸ h.first
  · exact h.ruled.neighbor_lt hi

theorem relaid_redraw (b : Board) (flexible lockedMine lockedEmpty drawn : List Nat) :
    Relaid b (redraw b flexible lockedMine lockedEmpty drawn) :=
  (((Relaid.foldl flexible id (fun _ => false) b).trans (Relaid.foldl lockedMine id (fun _ => true) _)).trans
    (Relaid.foldl lockedEmpty id (fun _ => false) _)).trans (Relaid.foldl drawn id (fun _ => true) _)

variable {flexible lockedMine lockedEmpty drawn : List Nat}

theorem mine_redraw (hf : ∀ i ∈ flexible, i < b.cells.length)
    (hm : ∀ i ∈ lockedMine, i < b.cells.length) (he : ∀ i ∈ lockedEmpty, i < b.cells.length)
    (hd : ∀ i ∈ drawn, i ∈ flexible) (j : Nat) :
    (redraw b flexible lockedMine lockedEmpty drawn).mine j =
      if j ∈ drawn then true else if j ∈ lockedEmpty then false else if j ∈ lockedMine then true else
        if j ∈ flexible then false else b.mine j := by
  have h1 := Relaid.foldl flexible id (fun _ => false) b
  have h2 := h1.trans (Relaid.foldl lockedMine id (fun _ => true) _)
  have h3 := h2.trans (Relaid.foldl lockedEmpty id (fun _ => false) _)
  unfold redraw
  rw [mine_foldl_setMine drawn true _ fun i hi => h3.length ▸ hf i (hd i hi),
    mine_foldl_setMine lockedEmpty false _ fun i hi => h2.length ▸ he i hi,
    mine_foldl_setMine lockedMine true _ fun i hi => h1.length ▸ hm i hi, mine_foldl_setMine flexible false b hf]

/-- Where every cell is flexible or locked one way, the mines are those drawn and those locked. -/
theorem countP_redraw
    (hf : ∀ i, i ∈ flexible ↔ i < b.cells.length ∧ i ∉ lockedEmpty ∧ i ∉ lockedMine)
    (hm : ∀ i ∈ lockedMine, i < b.cells.length)
    (he : ∀ i ∈ lockedEmpty, i < b.cells.length ∧ i ∉ lockedMine) (hd : ∀ i ∈ drawn, i ∈ flexible) (hdn : drawn.Nodup)
    (hmn : lockedMine.Nodup) :
    b.indices.countP (redraw b flexible lockedMine lockedEmpty drawn).mine = drawn.length + lockedMine.length ∧
      ∀ i ∈ lockedEmpty, (redraw b flexible lockedMine lockedEmpty drawn).mine i = false := by
  have hmine := mine_redraw (fun i hi => ((hf i).mp hi).1) hm (fun i hi => (he i hi).1) hd
  have hfree : ∀ i ∈ drawn, i ∉ lockedEmpty ∧ i ∉ lockedMine := fun i hi => ((hf i).mp (hd i hi)).2
  refine ⟨?_, ?_⟩
  · rw [← countP_mem_eq_length hdn nodup_range fun i hi => mem_indices.mpr ((hf i).mp (hd i hi)).1,
      ← countP_mem_eq_length hmn nodup_range fun i hi => mem_indices.mpr (hm i hi)]
    refine countP_split fun i hi => ?_
    rw [hmine]
    by_cases hdi : i ∈ drawn
    · simp [hdi, (hfree i hdi).2]
    · by_cases hl : i ∈ lockedEmpty
      · rw [if_pos hl]
        simp [hdi, (he i hl).2]
      · rw [if_neg hl]
        by_cases hmi : i ∈ lockedMine
        · simp [hdi, hmi]
        · rw [if_pos ((hf i).mpr ⟨mem_indices.mp hi, hl, hmi⟩)]
          simp [hdi, hmi]
  · intro i hi
    rw [hmine, if_neg fun hdi => (hfree i hdi).1 hi, if_pos hi]

theorem redone_perturbUnknownMines (draws : Generator) (h : Laid b safeIndex) {knownEmpty knownMines : List Nat}
    (hempty : ∀ i ∈ knownEmpty, i < b.cells.length)
    (hmines : ∀ i ∈ knownMines, i < b.cells.length ∧ i ∉ b.safeZone safeIndex ∧ i ∉ knownEmpty) {next : Nat}
    (hc : (perturbUnknownMines draws b safeIndex knownEmpty knownMines next).1 = some c) : Redone safeIndex b c := by
  unfold perturbUnknownMines at hc
  dsimp only at hc
  split at hc
  · cases hc
  rename_i hneeded
  have hflex : ∀ i, i ∈ b.indices.filter (fun i => i ∉ b.safeZone safeIndex ++ knownEmpty ∧ i ∉ knownMines.dedup) ↔
      i < b.cells.length ∧ i ∉ b.safeZone safeIndex ++ knownEmpty ∧ i ∉ knownMines.dedup := by
    intro i
    rw [mem_filter, mem_indices, decide_eq_true_eq]
  have hflexNodup : (b.indices.filter (fun i => i ∉ b.safeZone safeIndex ++ knownEmpty ∧ i ∉ knownMines.dedup)).Nodup :=
    nodup_range.filter _
  generalize b.indices.filter (fun i => i ∉ b.safeZone safeIndex ++ knownEmpty ∧ i ∉ knownMines.dedup) = flexible
    at hneeded hflex hflexNodup hc
  have hshuffled := shuffleInPlace_perm draws flexible next
  generalize shuffleInPlace draws flexible next = shuffled at hshuffled hc
  cases hc
  have hlocked : ∀ i ∈ b.safeZone safeIndex ++ knownEmpty, i < b.cells.length ∧ i ∉ knownMines.dedup := by
    intro i hi
    rw [mem_dedup]
    rcases mem_append.mp hi with hi | hi
    · exact ⟨h.zone_lt hi, fun hm => (hmines i hm).2.1 hi⟩
    · exact ⟨hempty i hi, fun hm => (hmines i hm).2.2 hi⟩
  have hr := relaid_redraw b flexible knownMines.dedup (b.safeZone safeIndex ++ knownEmpty)
    (shuffled.1.take (b.mineCount - knownMines.dedup.length : Int).toNat)
  have hdrawn : ∀ i ∈ shuffled.1.take (b.mineCount - knownMines.dedup.length : Int).toNat, i ∈ flexible :=
    fun i hi => hshuffled.subset (mem_of_mem_take hi)
  obtain ⟨hcount, hfree⟩ := countP_redraw hflex (fun i hi => (hmines i (mem_dedup.mp hi)).1) hlocked hdrawn
    ((hshuffled.symm.nodup hflexNodup).sublist (take_sublist _ _)) knownMines.nodup_dedup
  have hall : b.indices.countP (redraw b flexible knownMines.dedup (b.safeZone safeIndex ++ knownEmpty)
      (shuffled.1.take (b.mineCount - knownMines.dedup.length : Int).toNat)).mine = b.mineCount := by
    rw [hcount, length_take, hshuffled.length_eq]
    omega
  have hzone := fun i hi => hfree i (mem_append_left knownEmpty hi)
  refine redone_computeAdjacents hr h.size h.first ?_ hzone
  have hle : _ ≤ (Board.outside _ safeIndex).length := countP_le_outside (by rw [hr.safeZone]; exact hzone)
  rw [hr.indices, hr.outside] at hle
  omega

end Laid

end Canari.Minesweeper
