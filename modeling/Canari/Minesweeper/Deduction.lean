/-
  Canari.Minesweeper.Deduction — what may be concluded from what a board shows.

  A layout says where the mines are. It agrees with a board when it has as many mines as the board
  says, when the cells flagged at the start are mines in it, and when every revealed cell is none and
  shows its number of neighbours that are. A deduction (`Deduces`) flags and reveals hidden cells, each
  of them a cell with the same content in every layout that agrees with the board at that moment.

  A deduction never goes wrong: the real layout agrees with what it starts from, so it agrees
  with every board on the way (`Known.trans`), a cell that is flagged is a mine in every layout that
  agrees with the end (`Known.flags`), and the game is not lost (`Grows.status`).
-/

import Canari.Minesweeper.Board

namespace Canari.Minesweeper

open Lib.Counting Lib.CountSearch List

namespace Board

variable {b : Board} {i j : Nat} {s : CellState}

theorem cell_setState (hi : i < b.cells.length) :
    (b.setState i s).cell j = if j = i then { b.cell i with state := s } else b.cell j := by
  simp only [setState, cell, getD_eq_getElem?_getD, getElem?_modify]
  by_cases h : i = j
  · subst h
    simp [hi]
  · simp [h, Ne.symm h]

theorem mine_setState : (b.setState i s).mine j = b.mine j := by
  by_cases hi : i < b.cells.length
  · rw [mine, cell_setState hi]
    split_ifs with h <;> simp [mine, h]
  · rw [mine, mine, setState, cell, cell, modify_eq_self (by omega)]

theorem adjacent_setState : (b.setState i s).adjacent j = b.adjacent j := by
  by_cases hi : i < b.cells.length
  · rw [adjacent, cell_setState hi]
    split_ifs with h <;> simp [adjacent, h]
  · rw [adjacent, adjacent, setState, cell, cell, modify_eq_self (by omega)]

theorem state_setState (hi : i < b.cells.length) : (b.setState i s).state j = if j = i then s else b.state j := by
  rw [state, cell_setState hi]
  split_ifs with h <;> simp [state]

theorem length_setState : (b.setState i s).cells.length = b.cells.length := by simp [setState]

end Board

/-! ## Layouts -/

/-- The layout is one the board may have, as far as it shows. -/
structure Agrees (start b : Board) (L : Nat → Bool) : Prop where
  mines : b.indices.countP L = b.mineCount
  flags : ∀ i < b.cells.length, start.state i = .flagged → L i = true
  shown : ∀ i < b.cells.length, b.state i = .revealed → L i = false ∧ (b.neighbors i).countP L = b.adjacent i

/-- Flags and reveals of cells that every layout agreeing with the board decides alike. -/
inductive Deduces (start b : Board) : Board → Prop
  | refl : Deduces start b b
  | flag {c : Board} {i : Nat} : Deduces start b c → i < c.cells.length → c.state i = .hidden →
      (∀ L, Agrees start c L → L i = true) → Deduces start b (c.flag i)
  | reveal {c : Board} {i : Nat} : Deduces start b c → i < c.cells.length → c.state i = .hidden →
      (∀ L, Agrees start c L → L i = false) → Deduces start b (c.reveal i)
  /-- The game is ended as won. -/
  | win {c : Board} : Deduces start b c → Deduces start b { c with status := .won }

variable {start b c d : Board} {L : Nat → Bool} {i j : Nat}

theorem Deduces.trans (h : Deduces start b c) (h' : Deduces start c d) : Deduces start b d := by
  induction h' with
  | refl => exact h
  | flag _ hi hh hf ih => exact .flag ih hi hh hf
  | reveal _ hi hh hf ih => exact .reveal ih hi hh hf
  | win _ ih => exact .win ih

/-- The board is the same but for cells that are not hidden any more. -/
structure Grows (b c : Board) : Prop where
  width : c.width = b.width
  height : c.height = b.height
  mineCount : c.mineCount = b.mineCount
  minesPlaced : c.minesPlaced = b.minesPlaced
  length : c.cells.length = b.cells.length
  mine : ∀ i, c.mine i = b.mine i
  adjacent : ∀ i, c.adjacent i = b.adjacent i
  kept : ∀ i, b.state i ≠ .hidden → c.state i = b.state i
  status : c.status = .lost → b.status = .lost

theorem Grows.refl (b : Board) : Grows b b := ⟨rfl, rfl, rfl, rfl, rfl, fun _ => rfl, fun _ => rfl, fun _ _ => rfl, id⟩

theorem Grows.trans (h : Grows b c) (h' : Grows c d) : Grows b d where
  width := h'.width.trans h.width
  height := h'.height.trans h.height
  mineCount := h'.mineCount.trans h.mineCount
  minesPlaced := h'.minesPlaced.trans h.minesPlaced
  length := h'.length.trans h.length
  mine i := (h'.mine i).trans (h.mine i)
  adjacent i := (h'.adjacent i).trans (h.adjacent i)
  kept i hi := by
    have hc := h.kept i hi
    exact (h'.kept i (hc ▸ hi)).trans hc
  status hl := h.status (h'.status hl)

theorem Grows.neighbors (h : Grows b c) (i : Nat) : c.neighbors i = b.neighbors i := by
  rw [Board.neighbors, Board.neighbors, h.width, h.height]

theorem Grows.indices (h : Grows b c) : c.indices = b.indices := by
  rw [Board.indices, Board.indices, h.length]

theorem grows_setState {s : CellState} (hi : i < b.cells.length)
    (hh : b.state i = .hidden) : Grows b (b.setState i s) where
  width := rfl
  height := rfl
  mineCount := rfl
  minesPlaced := rfl
  length := Board.length_setState
  mine _ := Board.mine_setState
  adjacent _ := Board.adjacent_setState
  kept j hj := by
    rw [Board.state_setState hi, if_neg]
    rintro rfl
    exact hj hh
  status h := h

theorem grows_flag (hi : i < b.cells.length) (hh : b.state i = .hidden) : Grows b (b.flag i) :=
  let h := grows_setState (s := .flagged) hi hh
  ⟨h.width, h.height, h.mineCount, h.minesPlaced, h.length, h.mine, h.adjacent, h.kept, h.status⟩

theorem grows_reveal (hi : i < b.cells.length) (hh : b.state i = .hidden) : Grows b (b.reveal i) :=
  let h := grows_setState (s := .revealed) hi hh
  ⟨h.width, h.height, h.mineCount, h.minesPlaced, h.length, h.mine, h.adjacent, h.kept, h.status⟩

theorem Deduces.grows (h : Deduces start b c) : Grows b c := by
  induction h with
  | refl => exact Grows.refl b
  | flag _ hi hh _ ih => exact ih.trans (grows_flag hi hh)
  | reveal _ hi hh _ ih => exact ih.trans (grows_reveal hi hh)
  | win _ ih => exact ⟨ih.width, ih.height, ih.mineCount, ih.minesPlaced, ih.length, ih.mine, ih.adjacent, ih.kept, nofun⟩

theorem Agrees.mono (h : Grows b c) (hL : Agrees start c L) : Agrees start b L where
  mines := by rw [← h.indices, ← h.mineCount]; exact hL.mines
  flags i hi := hL.flags i (h.length ▸ hi)
  shown i hi hr := by
    have hshown := hL.shown i (h.length ▸ hi) ((h.kept i (by rw [hr]; decide)).trans hr)
    rwa [h.neighbors, h.adjacent] at hshown

/-! ## What stays known -/

/-- The numbers are the board's own, its mines are as many as it says and its flags as many as it has; the
    real layout agrees with what it shows, and its flags are mines in every layout that does. -/
structure Known (start b : Board) : Prop where
  size : b.cells.length = b.width * b.height
  numbers : ∀ i < b.cells.length, b.mine i = false → b.adjacent i = (b.neighbors i).countP b.mine
  counted : b.flagCount = b.indices.countP fun i => b.state i = .flagged
  truth : Agrees start b b.mine
  flags : ∀ i < b.cells.length, b.state i = .flagged → ∀ L, Agrees start b L → L i = true

theorem mem_indices : i ∈ b.indices ↔ i < b.cells.length := mem_range

theorem Board.state_flag (hi : i < b.cells.length) : (b.flag i).state j = if j = i then .flagged else b.state j :=
  Board.state_setState hi

theorem Board.state_reveal (hi : i < b.cells.length) : (b.reveal i).state j = if j = i then .revealed else b.state j :=
  Board.state_setState hi

theorem Board.countP_setState {s t : CellState} (hi : i < b.cells.length) (hne : b.state i ≠ t) :
    (b.indices.countP fun j => (b.setState i s).state j = t) = (b.indices.countP fun j => b.state j = t) + if s = t
      then 1 else 0 := by
  split_ifs with hst
  · refine countP_one_more nodup_range ((mem_indices).mpr hi) ?_ ?_ fun j _ hj => ?_
    · simp [Board.state_setState hi, hst]
    · simp [hne]
    · simp [Board.state_setState hi, hj]
  · refine countP_congr fun j _ => ?_
    rw [Board.state_setState hi]
    split_ifs with hj
    · simp [hj, hne, hst]
    · rfl

theorem Board.countP_hidden_reveal (hi : i < b.cells.length) (hh : b.state i = .hidden) :
    (b.indices.countP fun j => b.state j = .hidden) =
      ((b.reveal i).indices.countP fun j => (b.reveal i).state j = .hidden) + 1 := by
  rw [(grows_reveal hi hh).indices]
  refine countP_one_more nodup_range ((mem_indices).mpr hi) ?_ ?_ fun j _ hj => ?_
  · simp [hh]
  · simp [Board.state_reveal hi]
  · simp [Board.state_reveal hi, hj]

/-- A flag shows nothing new. -/
theorem Agrees.flag (hL : Agrees start b L) (hi : i < b.cells.length)
    (hh : b.state i = .hidden) : Agrees start (b.flag i) L := by
  have hg := grows_flag hi hh
  refine ⟨by rw [hg.indices]; exact hL.mines, fun j hj => hL.flags j (hg.length ▸ hj), fun j hj hr => ?_⟩
  rw [Board.state_flag hi] at hr
  split_ifs at hr
  rw [hg.adjacent]
  exact hL.shown j (hg.length ▸ hj) hr

theorem Known.of_grows (h : Known start b) (hg : Grows b c) (htruth : Agrees start c b.mine)
    (hcounted : c.flagCount = c.indices.countP fun i => c.state i = .flagged)
    (hflags : ∀ i < b.cells.length, c.state i = .flagged → ∀ L, Agrees start b L → L i = true) : Known start c where
  size := by rw [hg.length, hg.width, hg.height]; exact h.size
  numbers i hi hm := by
    rw [hg.adjacent, hg.neighbors, show c.mine = b.mine from funext hg.mine]
    exact h.numbers i (hg.length ▸ hi) (hg.mine i ▸ hm)
  counted := hcounted
  truth := by rw [show c.mine = b.mine from funext hg.mine]; exact htruth
  flags i hi hf L hL := hflags i (hg.length ▸ hi) hf L (hL.mono hg)

theorem Known.flag (h : Known start b) (hi : i < b.cells.length) (hh : b.state i = .hidden)
    (hf : ∀ L, Agrees start b L → L i = true) :
    Known start (b.flag i) := by
  have hg := grows_flag hi hh
  refine h.of_grows hg (h.truth.flag hi hh) ?_ fun j hj hjf L hL => ?_
  · have hmore := Board.countP_setState hi (show b.state i ≠ .flagged by rw [hh]; decide) (s := .flagged)
    rw [← h.counted] at hmore
    rw [hg.indices]
    exact hmore.symm
  · rw [Board.state_flag hi] at hjf
    split_ifs at hjf with hji
    · exact hji ▸ hf L hL
    · exact h.flags j hj hjf L hL

theorem Known.reveal (h : Known start b) (hi : i < b.cells.length) (hh : b.state i = .hidden)
    (hf : ∀ L, Agrees start b L → L i = false) :
    Known start (b.reveal i) := by
  have hg := grows_reveal hi hh
  have hsafe : b.mine i = false := hf b.mine h.truth
  have hsame : ∀ j, (b.reveal i).state j = .flagged ↔ b.state j = .flagged := by
    intro j
    rw [Board.state_reveal hi]
    split_ifs with hj
    · simp [hj, hh]
    · rfl
  refine h.of_grows hg ?_ ?_ fun j hj hjf L hL => h.flags j hj ((hsame j).mp hjf) L hL
  · refine ⟨by rw [hg.indices]; exact h.truth.mines, fun j hj => h.truth.flags j (hg.length ▸ hj), fun j hj hr => ?_⟩
    rw [hg.adjacent]
    rw [Board.state_reveal hi] at hr
    split_ifs at hr with hji
    · subst hji
      exact ⟨hsafe, (h.numbers j hi hsafe).symm⟩
    · exact h.truth.shown j (hg.length ▸ hj) hr
  · rw [hg.indices]
    simp only [hsame]
    exact h.counted

theorem Known.win (h : Known start b) : Known start { b with status := .won } :=
  ⟨h.size, h.numbers, h.counted, ⟨h.truth.mines, h.truth.flags, h.truth.shown⟩,
    fun i hi hf L hL => h.flags i hi hf L ⟨hL.mines, hL.flags, hL.shown⟩⟩

theorem Known.trans (h : Known start b) (hd : Deduces start b c) : Known start c := by
  induction hd with
  | refl => exact h
  | flag _ hi hh hf ih => exact ih.flag hi hh hf
  | reveal _ hi hh hf ih => exact ih.reveal hi hh hf
  | win _ ih => exact ih.win

theorem Known.countP_mines (h : Known start b) (hL : Agrees start b L) {ns : List Nat}
    (hns : ∀ n ∈ ns, n < b.cells.length) :
    ns.countP L = (ns.countP fun n => b.state n = .flagged) + (ns.filter fun n => b.state n = .hidden).countP L := by
  rw [countP_filter]
  refine countP_split fun n hn => ?_
  cases hs : b.state n with
  | hidden => simp
  | revealed => simp [(hL.shown n (hns n hn) hs).1]
  | flagged => simp [h.flags n (hns n hn) hs L hL]

end Canari.Minesweeper
