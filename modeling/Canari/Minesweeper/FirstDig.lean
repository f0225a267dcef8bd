/-
  Canari.Minesweeper.FirstDig — the first dig lays the mines.

  The solver starts from the first cell. Nothing is beside it, so the first move opens it and all its
  neighbours (`Laid.opened`): what the solver flags is never a free cell, and what it
  gives to move mines by is fit for it (`Laid.decided`). So every turn of the loop ends with a
  board that is laid, and so does the loop.

  A game begins with a board without mines, on which only flags can change; after its first dig
  the moves act on what was laid (`Acts`). In every game the counters are those of the cells,
  and no revealed cell is a mine unless the game is lost (`sound_of_reach`).

  Proved: `the_first_dig_lays_the_mines`. A mine shows no number, whatever is beside it:
  `a_mine_counts_no_neighbour`.
-/

import Canari.Minesweeper.Layouts
import Canari.Minesweeper.Moves

namespace Canari.Minesweeper

open Lib Lib.Counting Lib.Draws List

variable {b c d : Board} {safeIndex i : Nat}

/-! ## What the solver has decided -/

theorem flood_not_flagged (fuel : Nat) {stack : List Nat} (hr : Ruled b)
    (hstack : ∀ n ∈ stack, n < b.cells.length) {n : Nat}
    (hn : b.state n ≠ .flagged) : (Board.flood fuel stack b).state n ≠ .flagged := by
  induction fuel generalizing b stack with
  | zero => exact hn
  | succ fuel ih =>
    cases stack with
    | nil => exact hn
    | cons i stack =>
      have hi := hstack i mem_cons_self
      have hrest : ∀ n ∈ stack, n < b.cells.length := fun n hn => hstack n (mem_cons_of_mem i hn)
      rw [Board.flood]
      split_ifs with hh
      · exact ih hr hrest hn
      · have hk := (grows_reveal hi (not_not.mp hh)).keeps
        have hn' : (b.reveal i).state n ≠ .flagged := by
          rw [Board.state_reveal hi]
          split_ifs
          · decide
          · exact hn
        dsimp only
        split_ifs
        · refine ih (hr.keeps hk) (fun m hm => ?_) hn'
          rcases mem_append.mp hm with hm | hm
          · exact (hr.keeps hk).neighbor_lt (mem_of_mem_filter (mem_reverse.mp hm))
          · exact hk.length ▸ hrest m hm
        · exact ih (hr.keeps hk) (fun m hm => hk.length ▸ hrest m hm) hn'

/-- With fuel for it, a flood leaves no cell of its stack hidden. -/
theorem flood_decides {fuel : Nat} {stack : List Nat} (hr : Ruled b)
    (hsafe : ∀ n ∈ stack, n < b.cells.length ∧ b.mine n = false)
    (hfuel : 9 * (b.indices.countP fun i => b.state i = .hidden) + stack.length ≤ fuel) :
    ∀ n ∈ stack, (Board.flood fuel stack b).state n ≠ .hidden := by
  induction fuel generalizing b stack with
  | zero =>
    intro n hn
    have := length_pos_of_mem hn
    omega
  | succ fuel ih =>
    cases stack with
    | nil => intro n hn; cases hn
    | cons i stack =>
      rw [length_cons] at hfuel
      obtain ⟨hi, hm⟩ := hsafe i mem_cons_self
      have hrest : ∀ n ∈ stack, n < b.cells.length ∧ b.mine n = false := fun n hn => hsafe n (mem_cons_of_mem i hn)
      -- What a flood starts from stays decided.
      have stays : ∀ {c : Board} {st : List Nat} (f : Nat), Ruled c →
        (∀ n ∈ st, n < c.cells.length ∧ c.mine n = false) →
          c.state i ≠ .hidden → (Board.flood f st c).state i ≠ .hidden := by
        intro c st f hc hst hne
        rw [(acts_flood f hc hst).keeps.kept i hne]
        exact hne
      intro n hn
      rw [Board.flood]
      split_ifs with hh
      · rcases mem_cons.mp hn with rfl | hn
        · exact stays fuel hr hrest hh
        · exact ih hr hrest (by omega) n hn
      · have hhid : b.state i = .hidden := not_not.mp hh
        have hk := (grows_reveal hi hhid).keeps
        have hr' := hr.keeps hk
        have hdone : (b.reveal i).state i ≠ .hidden := by rw [Board.state_reveal hi, if_pos rfl]; decide
        have hfewer := Board.countP_hidden_reveal hi hhid
        have hrest' : ∀ n ∈ stack, n < (b.reveal i).cells.length ∧ (b.reveal i).mine n = false := by
          intro m hm
          rw [hk.length, hk.mine]
          exact hrest m hm
        dsimp only
        split_ifs with hz
        · have hpushed : ((b.reveal i).hiddenAround i).length ≤ 8 :=
            (length_filter_le _ _).trans (length_neighborTable_le _ _ _)
          have hstack : ∀ m ∈ ((b.reveal i).hiddenAround i).reverse ++ stack, m < (b.reveal i).cells.length ∧
            (b.reveal i).mine m = false := by
            intro m hmem
            rcases mem_append.mp hmem with hmem | hmem
            · have hm' := mem_of_mem_filter (mem_reverse.mp hmem)
              exact ⟨hr'.neighbor_lt hm', hr'.safe_of_zero (hk.length ▸ hi) hz.2 hz.1 hm'⟩
            · exact hrest' m hmem
          rcases mem_cons.mp hn with rfl | hn
          · exact stays fuel hr' hstack hdone
          · refine ih hr' hstack ?_ n (mem_append_right _ hn)
            rw [length_append, length_reverse]
            omega
        · rcases mem_cons.mp hn with rfl | hn
          · exact stays fuel hr' hrest' hdone
          · exact ih hr' hrest' (by omega) n hn

theorem mine_cloneSolveState (b : Board) (i : Nat) : (cloneSolveState b).mine i = b.mine i := by
  simp only [Board.mine, Board.cell, cloneSolveState, getD_eq_getElem?_getD, getElem?_map]
  cases b.cells[i]? <;> rfl

theorem adjacent_cloneSolveState (b : Board) (i : Nat) : (cloneSolveState b).adjacent i = b.adjacent i := by
  simp only [Board.adjacent, Board.cell, cloneSolveState, getD_eq_getElem?_getD, getElem?_map]
  cases b.cells[i]? <;> rfl

theorem state_cloneSolveState (b : Board) (i : Nat) : (cloneSolveState b).state i = .hidden := by
  simp only [Board.state, Board.cell, cloneSolveState, getD_eq_getElem?_getD, getElem?_map]
  cases b.cells[i]? <;> rfl

theorem length_cloneSolveState (b : Board) : (cloneSolveState b).cells.length = b.cells.length := by
  simp [cloneSolveState]

theorem Laid.clone (h : Laid b safeIndex) : Laid (cloneSolveState b) safeIndex := by
  have hmine : (cloneSolveState b).mine = b.mine := funext (mine_cloneSolveState b)
  have hlen := length_cloneSolveState b
  refine ⟨hlen.trans h.size, hlen.symm ▸ h.first, ?_, ?_, ?_⟩
  · rw [hmine, Board.outside, Board.indices, hlen]
    exact h.count
  · rw [hmine]
    exact h.zone
  · intro i hi
    rw [adjacent_cloneSolveState, hmine]
    exact h.numbers i (hlen ▸ hi)

theorem Laid.adjacent_first (h : Laid b safeIndex) : b.adjacent safeIndex = 0 := by
  rw [h.numbers safeIndex h.first, h.zone safeIndex mem_cons_self, if_neg (by decide), countP_eq_zero]
  intro n hn
  simp [h.zone n (mem_cons_of_mem _ hn)]

/-- Where they are hidden, a dig opens the first cell and all its neighbours. -/
theorem Laid.opened (h : Laid b safeIndex) (hhidden : ∀ n ∈ b.safeZone safeIndex, b.state n = .hidden)
    (hi : i ∈ b.safeZone safeIndex) :
    (b.revealFlood safeIndex).state i = .revealed := by
  have hfirst := h.first
  have hh := hhidden safeIndex mem_cons_self
  have hflagged : (b.revealFlood safeIndex).state i ≠ .flagged := by
    refine flood_not_flagged _ h.ruled (fun n hn => ?_) ?_
    · rw [mem_singleton.mp hn]
      exact hfirst
    · rw [hhidden i hi]
      decide
  have hopen : (b.revealFlood safeIndex).state i ≠ .hidden := by
    have hk := (grows_reveal hfirst hh).keeps
    have hr := h.ruled.keeps hk
    have hz : (b.reveal safeIndex).adjacent safeIndex = 0 ∧ (b.reveal safeIndex).mine safeIndex = false := by
      rw [hk.adjacent, hk.mine]
      exact ⟨h.adjacent_first, h.zone _ mem_cons_self⟩
    have hsafe : ∀ n ∈ ((b.reveal safeIndex).hiddenAround safeIndex).reverse ++ [],
        n < (b.reveal safeIndex).cells.length ∧ (b.reveal safeIndex).mine n = false := by
      intro n hn
      rw [append_nil, mem_reverse] at hn
      have hn' := mem_of_mem_filter hn
      exact ⟨hr.neighbor_lt hn', hr.safe_of_zero (hk.length ▸ hfirst) hz.2 hz.1 hn'⟩
    rw [Board.revealFlood, Board.flood, if_neg (not_not.mpr hh)]
    rw [if_pos hz]
    by_cases hi' : (b.reveal safeIndex).state i = .hidden
    · -- a neighbour, which the first cell pushes
      have hne : i ≠ safeIndex := by
        intro he
        rw [he, Board.state_reveal hfirst, if_pos rfl] at hi'
        cases hi'
      have hn : i ∈ b.neighbors safeIndex := (mem_cons.mp hi).resolve_left hne
      refine flood_decides hr hsafe ?_ i ?_
      · have hle : (b.indices.countP fun j => b.state j = .hidden) ≤ b.cells.length := by
          refine countP_le_length.trans ?_
          rw [Board.indices, length_range]
        have hfewer := Board.countP_hidden_reveal hfirst hh
        have hpushed : ((b.reveal safeIndex).hiddenAround safeIndex).length ≤ 8 :=
          (length_filter_le _ _).trans (length_neighborTable_le _ _ _)
        rw [length_append, length_reverse, length_nil]
        omega
      · rw [append_nil, mem_reverse]
        exact mem_hiddenAround.mpr ⟨hn, hi'⟩
    · rw [(acts_flood _ hr hsafe).keeps.kept i hi']
      exact hi'
  cases hs : (b.revealFlood safeIndex).state i with
  | hidden => exact absurd hs hopen
  | revealed => rfl
  | flagged => exact absurd hs hflagged

/-- What the solver has to say of a laid board: cells of the board, the flagged ones neither free nor
    revealed, and sets of different cells. -/
structure Decided (b : Board) (safeIndex : Nat) (progress : SolveProgress) : Prop where
  empty : ∀ i ∈ progress.knownEmpty, i < b.cells.length
  mines : ∀ i ∈ progress.knownMines, i < b.cells.length ∧ i ∉ b.safeZone safeIndex ∧ i ∉ progress.knownEmpty
  sets : ∀ set ∈ progress.stuckSets, set.Nodup ∧ ∀ i ∈ set, i < b.cells.length

theorem mem_stuckSetsOf {sim : Board} {set : List Nat}
    (h : set ∈ stuckSetsOf b sim) : ∃ i, set = sim.hiddenAround i := by
  have hset : set ∈ (collectConstraints sim).constraints.map Constraint.vars := by
    unfold stuckSetsOf at h
    dsimp only at h
    split at h <;> exact mem_of_mem_filter h
  obtain ⟨k, hk, rfl⟩ := mem_map.mp hset
  obtain ⟨i, _, hi⟩ := mem_filterMap.mp hk
  unfold constraintOf at hi
  dsimp only at hi
  split_ifs at hi
  cases hi
  exact ⟨i, rfl⟩

theorem Laid.decided (h : Laid b safeIndex)
    (maxCspVars : Int) : Decided b safeIndex (solveUntilStuck b safeIndex maxCspVars) := by
  have hclone := h.clone
  have hm := hclone.zone safeIndex mem_cons_self
  have hopened : ∀ i ∈ b.safeZone safeIndex, ((cloneSolveState b).revealFlood safeIndex).state i = .revealed :=
    fun i hi => hclone.opened (fun n _ => state_cloneSolveState b n) hi
  have hflood := acts_revealFlood hclone.ruled hclone.first hm
  have hassists := acts_runAutoAssists maxCspVars (hclone.ruled.keeps hflood.keeps)
  have hk := hflood.keeps.trans hassists.keeps
  have hlen : (runAutoAssists ((cloneSolveState b).revealFlood safeIndex) maxCspVars).cells.length =
    b.cells.length := by
    rw [hk.length, length_cloneSolveState]
  have hzone : ∀ i ∈ b.safeZone safeIndex,
    (runAutoAssists ((cloneSolveState b).revealFlood safeIndex) maxCspVars).state i = .revealed := by
    intro i hi
    rw [hassists.keeps.kept i (by rw [hopened i hi]; decide)]
    exact hopened i hi
  unfold solveUntilStuck
  rw [if_neg (by rw [hm]; decide)]
  have hruled := hclone.ruled.keeps hk
  refine ⟨?_, ?_, ?_⟩
  · intro i hi
    exact hlen ▸ mem_indices.mp (mem_of_mem_filter hi)
  · intro i hi
    obtain ⟨hlt, hf⟩ := mem_filter.mp hi
    rw [decide_eq_true_eq] at hf
    refine ⟨hlen ▸ mem_indices.mp hlt, fun hmem => ?_, fun hmem => ?_⟩
    · have hz := hzone i hmem
      rw [hf] at hz
      cases hz
    · have he := (mem_filter.mp hmem).2
      rw [hf] at he
      cases he
  · intro set hset
    dsimp only at hset
    split_ifs at hset
    · obtain ⟨i, rfl⟩ := mem_stuckSetsOf hset
      refine ⟨(nodup_neighborTable _ _ _).filter _, fun n hn => ?_⟩
      exact hlen ▸ hruled.neighbor_lt (mem_of_mem_filter hn)
    · cases hset

/-! ## The loop -/

theorem redone_perturb (draws : Generator) (h : Laid b safeIndex) (maxCspVars : Int) {allowBig : Bool} {next : Nat}
    (hc : (perturb draws b safeIndex (solveUntilStuck b safeIndex maxCspVars) allowBig next).1 = some c) :
    Redone safeIndex b c := by
  have hd := h.decided maxCspVars
  generalize solveUntilStuck b safeIndex maxCspVars = progress at hd hc
  have hunknown : ∀ {next : Nat},
    (perturbUnknownMines draws b safeIndex progress.knownEmpty progress.knownMines next).1 = some c →
      Redone safeIndex b c := fun hc => redone_perturbUnknownMines draws h hd.empty hd.mines hc
  have hbig : ∀ {next : Nat},
    (tathamPerturb draws b safeIndex progress.knownEmpty progress.knownMines none next).1 = some c →
      Redone safeIndex b c := fun hc => redone_tathamPerturb draws h (by simp) hc
  have hsmall : (if progress.stuckSets.length > 0 then
      tathamPerturb draws b safeIndex progress.knownEmpty progress.knownMines
        (some (progress.stuckSets.getD (pick (draws next) progress.stuckSets.length) [])) (next + 1)
      else (none, next)).1 = some c → Redone safeIndex b c := by
    intro hc
    split at hc
    · rename_i hpos
      refine redone_tathamPerturb draws h (fun set hset => ?_) hc
      cases hset
      have hp := pick_lt (draws next) hpos
      apply hd.sets
      rw [getD_eq_getElem?_getD, getElem?_eq_getElem hp]
      exact getElem_mem hp
    · cases hc
  unfold perturb at hc
  dsimp only at hc
  generalize (if progress.stuckSets.length > 0 then
    tathamPerturb draws b safeIndex progress.knownEmpty progress.knownMines
      (some (progress.stuckSets.getD (pick (draws next) progress.stuckSets.length) [])) (next + 1)
    else (none, next)) = small at hsmall hc
  split at hc
  · exact hsmall hc
  · split at hc
    · exact hbig hc
    · exact hunknown hc

theorem redone_stepLoop (draws : Generator) (restart left : Nat) : ∀ {b : Board}
    (next localFails bestRevealed stagnant : Nat), Laid b safeIndex →
    Redone safeIndex b (stepLoop draws safeIndex restart left b next localFails bestRevealed stagnant).board := by
  induction left with
  | zero => intro b _ _ _ _ h; exact ⟨Relaid.refl b, h⟩
  | succ left ih =>
    intro b next localFails bestRevealed stagnant h
    have hstay : Redone safeIndex b b := ⟨Relaid.refl b, h⟩
    rw [stepLoop]
    dsimp only
    generalize (if (solveUntilStuck b safeIndex GENERATION_CSP_VARS).revealedCount > bestRevealed then 0 else
      stagnant + 1) = stagnant'
    split
    · exact hstay
    · split
      · exact hstay
      · split
        · exact hstay
        · split
          · rename_i c hc
            have hmoved := redone_perturb draws h GENERATION_CSP_VARS hc
            exact (ih _ 0 _ _ hmoved.laid).after hmoved.relaid
          · split
            · exact hstay
            · exact ih _ _ _ _ h

theorem redone_restartLoop (draws : Generator) (left : Nat) : ∀ {b : Board}
    (next : Nat), b.cells.length = b.width * b.height →
    safeIndex < b.cells.length → Redone safeIndex b (restartLoop draws safeIndex left b next).1 := by
  induction left with
  | zero => intro b next hsize hfirst; exact redone_placeMinesRandom draws next hsize hfirst
  | succ left ih =>
    intro b next hsize hfirst
    have hdrawn := redone_placeMinesRandom draws next hsize hfirst
    have hsteps := redone_stepLoop draws (MAX_GENERATION_RESTARTS - (left + 1)) MAX_PERTURBATIONS
      (placeMinesRandom draws b safeIndex next).2 0 0 0 hdrawn.laid
    have hall := hdrawn.relaid.trans hsteps.relaid
    rw [restartLoop]
    split
    · exact ⟨hall, hsteps.laid⟩
    · exact (ih _ hsteps.laid.size hsteps.laid.first).after hall

theorem Laid.keeps (h : Laid b safeIndex) (hk : Keeps b c) : Laid c safeIndex := by
  have hmine : c.mine = b.mine := funext hk.mine
  have hzone : c.safeZone safeIndex = b.safeZone safeIndex := by rw [Board.safeZone, Board.safeZone, hk.neighbors]
  refine ⟨?_, ?_, ?_, ?_, ?_⟩
  · rw [hk.length, hk.width, hk.height]
    exact h.size
  · rw [hk.length]
    exact h.first
  · rw [hmine, hk.mineCount, Board.outside, hk.indices, hzone]
    exact h.count
  · rw [hzone, hmine]
    exact h.zone
  · intro i hi
    rw [hmine, hk.adjacent, hk.neighbors]
    exact h.numbers i (hk.length ▸ hi)

/-! ## The moves act -/

/-- A game that is lost stays lost. -/
theorem Acts.lost (ha : Acts b c) (hl : b.status = .lost) : c.status = .lost := by
  induction ha with
  | refl => exact hl
  | flag _ _ _ ih => exact ih
  | reveal _ _ _ _ ih => exact ih
  | dig => rfl
  | lose => rfl
  | win _ hp _ ih => rw [ih] at hp; cases hp

theorem Board.setState_self {s : CellState} (h : b.state i = s) : b.setState i s = b := by
  have hcells : b.cells.modify i (fun c => { c with state := s }) = b.cells := by
    apply ext_getElem?
    intro j
    rw [getElem?_modify]
    by_cases hij : i = j
    · subst hij
      rw [Board.state, Board.cell, getD_eq_getElem?_getD] at h
      cases hc : b.cells[i]? with
      | none => rfl
      | some c =>
        rw [hc] at h
        simp [← h]
    · simp [hij]
  rw [Board.setState, hcells]

theorem acts_revealAllMines (hl : b.status = .lost) : Acts b b.revealAllMines := by
  refine acts_foldl id fun c i hi hs => ?_
  have hlost := hs.lost hl
  split_ifs with hm hh
  · rw [Bool.and_eq_true] at hm
    have hdig : Acts c { c.reveal i with status := .lost } := .dig .refl (hs.keeps.length ▸ mem_indices.mp hi) hh hm.1
    rwa [← hlost] at hdig
  · rw [Bool.and_eq_true, decide_eq_true_eq] at hm
    have hr : c.state i = .revealed := by
      cases hst : c.state i with
      | hidden => exact absurd hst hh
      | revealed => rfl
      | flagged => exact absurd hst hm.2
    rw [Board.setState_self hr]
    exact .refl
  · exact .refl

theorem status_flood (fuel : Nat) (stack : List Nat) (b : Board) : (Board.flood fuel stack b).status = b.status := by
  induction fuel generalizing b stack with
  | zero => rfl
  | succ fuel ih =>
    cases stack with
    | nil => rfl
    | cons i stack =>
      rw [Board.flood]
      split_ifs
      · exact ih stack b
      · dsimp only
        split_ifs
        · exact ih _ _
        · exact ih _ _

theorem status_openAll (ns : List Nat) {s : Pass} {status : GameStatus}
    (hs : s.board.status = if s.stop then .lost else status) :
    (ns.foldl (Pass.openSafe true) s).board.status = if (ns.foldl (Pass.openSafe true) s).stop then
      .lost else status := by
  refine List.foldlRecOn (motive := fun s : Pass => s.board.status = if s.stop then .lost else status) ns _ hs ?_
  intro s' hs' n _
  unfold Pass.openSafe
  by_cases hstop : s'.stop = true
  · rw [if_pos hstop]
    exact hs'
  · rw [if_neg hstop] at hs' ⊢
    split
    · exact hs'
    · split
      · rfl
      · rw [Board.revealFlood, status_flood]
        exact hs'

theorem chordCell_cases (b : Board) (x y : Int) :
    b.chordCell x y = b ∨
      b.inBounds x y = true ∧ b.numbered (b.idx x y) = true ∧
        (b.chordCell x y = ((b.hiddenAround (b.idx x y)).foldl Pass.flagHidden ⟨b, false, false⟩).board ∨
          b.flaggedAround (b.idx x y) = b.adjacent (b.idx x y) ∧
            let pass := (b.hiddenAround (b.idx x y)).foldl (Pass.openSafe true) ⟨b, false, false⟩
            (pass.stop = true ∧ pass.board.status = .lost ∧ b.chordCell x y = pass.board.revealAllMines) ∨
              (pass.board.status = .playing ∧ b.chordCell x y = pass.board.checkWin)) := by
  have hstatus := @status_openAll (b.hiddenAround (b.idx x y)) ⟨b, false, false⟩ b.status rfl
  rw [Board.chordCell]
  split_ifs with hguard
  · exact .inl rfl
  · rw [Bool.or_eq_true, not_or, Bool.not_eq_true', Bool.not_eq_false, decide_eq_true_eq, not_not] at hguard
    dsimp only
    split_ifs with hnum hflag hmatch hstop hc
    · exact .inl rfl
    · exact .inr ⟨hguard.2, by simpa using hnum, .inl rfl⟩
    · exact .inl rfl
    · rw [not_or, not_not] at hmatch
      exact .inr ⟨hguard.2, by simpa using hnum, .inr ⟨hmatch.1, .inl ⟨hstop, hstatus.trans (if_pos hstop), rfl⟩⟩⟩
    · rw [not_or, not_not] at hmatch
      exact .inr ⟨hguard.2, by simpa using hnum, .inr ⟨hmatch.1, .inr ⟨hc, rfl⟩⟩⟩
    · exact absurd (hstatus.trans ((if_neg hstop).trans hguard.1)) hc

theorem Ruled.hiddenAround_lt (hr : Ruled b) {n : Nat} (hn : n ∈ b.hiddenAround i) : n < b.cells.length :=
  hr.neighbor_lt (mem_of_mem_filter hn)

theorem acts_chordCell (hr : Ruled b) (x y : Int) : Acts b (b.chordCell x y) := by
  have hlt : ∀ n ∈ b.hiddenAround (b.idx x y), n < b.cells.length := fun n hn => hr.hiddenAround_lt hn
  have hopen := acts_openAll true (s := ⟨b, false, false⟩) hr hlt
  obtain heq | ⟨-, -, heq | ⟨-, ⟨-, hl, heq⟩ | ⟨hp, heq⟩⟩⟩ := chordCell_cases b x y
  · rw [heq]
    exact .refl
  · rw [heq]
    exact acts_flagAll (s := ⟨b, false, false⟩) hlt
  · rw [heq]
    exact hopen.trans (acts_revealAllMines hl)
  · rw [heq]
    exact hopen.trans (acts_checkWin hp)

theorem acts_dig (hr : Ruled b) (hp : b.status = .playing) (hi : i < b.cells.length)
    (hh : b.state i = .hidden) : Acts b (b.dig i) := by
  rw [Board.dig]
  split_ifs with hm
  · exact (Acts.dig .refl hi hh hm).trans (acts_revealAllMines rfl)
  · exact (acts_revealFlood hr hi (by simpa using hm)).trans (acts_checkWin ((status_flood _ _ _).trans hp))

/-! ## Games -/

/-- A board before its first dig: no mine, and nothing revealed. -/
structure Fresh (config : MinesweeperConfig) (b : Board) : Prop where
  width : b.width = config.width
  height : b.height = config.height
  mineCount : b.mineCount = (createBoard config).mineCount
  size : b.cells.length = b.width * b.height
  status : b.status = .playing
  minesPlaced : b.minesPlaced = some false
  mine : ∀ i, b.mine i = false
  unrevealed : ∀ i, b.state i ≠ .revealed

theorem cell_createBoard (config : MinesweeperConfig)
    (i : Nat) : (createBoard config).cell i = ⟨false, 0, .hidden⟩ := by
  simp only [Board.cell, createBoard, getD_eq_getElem?_getD, getElem?_replicate]
  split_ifs <;> rfl

theorem fresh_createBoard (config : MinesweeperConfig) : Fresh config (createBoard config) := by
  refine ⟨rfl, rfl, rfl, by simp [createBoard], rfl, rfl, ?_, ?_⟩
  · intro i
    rw [Board.mine, cell_createBoard]
  · intro i
    rw [Board.state, cell_createBoard]
    decide

theorem Board.idx_lt {x y : Int} (hsize : b.cells.length = b.width * b.height)
    (h : b.inBounds x y = true) : b.idx x y < b.cells.length := by
  simp only [Board.inBounds, Bool.and_eq_true, decide_eq_true_eq] at h
  obtain ⟨⟨⟨hx, hy⟩, hxw⟩, hyh⟩ := h
  have hrow : (y + 1) * b.width ≤ b.height * b.width := Int.mul_le_mul_of_nonneg_right (by omega) (by omega)
  rw [Int.add_mul] at hrow
  have hpos : 0 ≤ y * b.width := Int.mul_nonneg hy (by omega)
  have hlt : ((b.idx x y : Nat) : Int) < (b.height * b.width : Nat) := by
    rw [Board.idx]
    omega
  rw [hsize, Nat.mul_comm]
  exact_mod_cast hlt

theorem Tallied.relaid (h : Tallied b) (hr : Relaid b c) : Tallied c := by
  refine ⟨?_, ?_⟩
  · rw [hr.revealedCount, hr.indices]
    simp only [hr.state]
    exact h.revealed
  · rw [hr.flagCount, hr.indices]
    simp only [hr.state]
    exact h.flagged

theorem Tallied.unflag (h : Tallied b) (hi : i < b.cells.length) (hf : b.state i = .flagged) :
    Tallied { b.setState i .hidden with flagCount := b.flagCount - 1 } := by
  have hindices : (b.setState i .hidden).indices = b.indices := congrArg List.range Board.length_setState
  have hrevealed := Board.countP_setState hi (show b.state i ≠ .revealed by rw [hf]; decide) (s := .hidden)
  have hflagged : (b.indices.countP fun j => b.state j = .flagged) =
    (b.indices.countP fun j => (b.setState i .hidden).state j = .flagged) + 1 := by
    refine countP_one_more nodup_range (mem_indices.mpr hi) ?_ ?_ fun j _ hj => ?_
    · simp [hf]
    · simp [Board.state_setState hi]
    · simp [Board.state_setState hi, hj]
  rw [← h.revealed, ← hindices] at hrevealed
  rw [← h.flagged, ← hindices] at hflagged
  refine ⟨hrevealed.symm, ?_⟩
  show b.flagCount - 1 = (b.setState i .hidden).indices.countP fun j => (b.setState i .hidden).state j = .flagged
  rw [hflagged, Nat.add_sub_cancel]

theorem toggleFlag_cases (hsize : b.cells.length = b.width * b.height) (x y : Int) :
    b.toggleFlag x y = b ∨
      ∃ i < b.cells.length, (b.state i = .hidden ∧ b.toggleFlag x y = b.flag i) ∨
        (b.state i = .flagged ∧ b.toggleFlag x y = { b.setState i .hidden with flagCount := b.flagCount - 1 }) := by
  rw [Board.toggleFlag]
  split_ifs with hguard
  · exact .inl rfl
  · rw [Bool.or_eq_true, not_or, Bool.not_eq_true', Bool.not_eq_false] at hguard
    have hi := Board.idx_lt hsize hguard.2
    dsimp only
    split
    · exact .inl rfl
    · rename_i hf
      exact .inr ⟨_, hi, .inr ⟨hf, rfl⟩⟩
    · rename_i hh
      exact .inr ⟨_, hi, .inl ⟨hh, rfl⟩⟩

/-- A dig in a game in play, on a hidden cell: the mines are laid if they are not. -/
theorem revealCell_cases (draws : Generator) (b : Board) (x y : Int) (next : Nat) :
    (revealCell draws b x y next).1 = b ∨ (revealCell draws b x y next).1 = b.chordCell x y ∨
      (b.status = .playing ∧ b.inBounds x y = true ∧ b.state (b.idx x y) = .hidden ∧
        (revealCell draws b x y next).1 =
          (if b.minesPlaced = some true then b else (placeMines draws b (b.idx x y) next).1).dig (b.idx x y)) := by
  rw [revealCell]
  split
  · exact .inl rfl
  · rename_i hguard
    rw [Bool.or_eq_true, not_or, Bool.not_eq_true', Bool.not_eq_false, decide_eq_true_eq, not_not] at hguard
    dsimp only
    split
    · exact .inl rfl
    · exact .inr (.inl rfl)
    · rename_i hh
      refine .inr (.inr ⟨hguard.1, hguard.2, hh, ?_⟩)
      split_ifs <;> rfl

structure Placed (b : Board) : Prop where
  minesPlaced : b.minesPlaced = some true
  ruled : Ruled b

/-- The counters are those of the cells, no mine is revealed in play, and the mines are laid or nothing is
    revealed. -/
structure Sound (config : MinesweeperConfig) (b : Board) : Prop where
  length : b.cells.length = config.width * config.height
  tallied : Tallied b
  unharmed : Unharmed b
  phase : Fresh config b ∨ Placed b

theorem Sound.size {config : MinesweeperConfig} (h : Sound config b) : b.cells.length = b.width * b.height := by
  rcases h.phase with h | h
  · exact h.size
  · exact h.ruled.size

theorem Placed.keeps (h : Placed b)
    (hk : Keeps b c) : Placed c := ⟨hk.minesPlaced.trans h.minesPlaced, h.ruled.keeps hk⟩

theorem Sound.acts {config : MinesweeperConfig} (h : Sound config b) (hp : Placed b) (ha : Acts b c) : Sound config c :=
  ⟨ha.keeps.length.trans h.length, h.tallied.acts ha, h.unharmed.acts ha, .inr (hp.keeps ha.keeps)⟩

theorem Fresh.chordCell {config : MinesweeperConfig} (h : Fresh config b) (x y : Int) : b.chordCell x y = b := by
  have hn : b.numbered (b.idx x y) = false := by simp [Board.numbered, h.unrevealed]
  rw [Board.chordCell]
  split_ifs
  · rfl
  · dsimp only
    rw [hn, if_pos (by decide)]

theorem Fresh.runAutoAssists {config : MinesweeperConfig} (h : Fresh config b)
    (maxCspVars : Int) : runAutoAssists b maxCspVars = b := by
  rw [Minesweeper.runAutoAssists, if_neg (by simp [h.status]), if_pos h.minesPlaced]

theorem Fresh.placeMines {config : MinesweeperConfig} (h : Fresh config b) (draws : Generator) (next : Nat)
    (hi : i < b.cells.length) :
    Relaid { b with minesPlaced := some true } (placeMines draws b i next).1 ∧
      Laid (placeMines draws b i next).1 i := by
  obtain ⟨hr, hl⟩ := redone_restartLoop draws MAX_GENERATION_RESTARTS next h.size hi
  refine ⟨⟨hr.width, hr.height, hr.mineCount, hr.status, rfl, hr.revealedCount, hr.flagCount, hr.length, hr.state⟩, ?_⟩
  exact ⟨hl.size, hl.first, hl.count, hl.zone, hl.numbers⟩

theorem Fresh.length {config : MinesweeperConfig}
    (h : Fresh config b) : b.cells.length = config.width * config.height := by
  rw [h.size, h.width, h.height]

theorem Fresh.sound_placeMines {config : MinesweeperConfig} (h : Fresh config b) (ht : Tallied b)
    (draws : Generator) (next : Nat)
    (hi : i < b.cells.length) : Sound config (Minesweeper.placeMines draws b i next).1 ∧
    Placed (Minesweeper.placeMines draws b i next).1 := by
  obtain ⟨hr, hl⟩ := h.placeMines draws next hi
  have hplaced : Placed (Minesweeper.placeMines draws b i next).1 := ⟨hr.minesPlaced, hl.ruled⟩
  have ht' : Tallied { b with minesPlaced := some true } := ⟨ht.revealed, ht.flagged⟩
  refine ⟨⟨hr.length.trans h.length, ht'.relaid hr, ?_, .inr hplaced⟩, hplaced⟩
  intro _ j _ hrev
  rw [hr.state] at hrev
  exact absurd hrev (h.unrevealed j)

structure Reflagged (b c : Board) : Prop where
  width : c.width = b.width
  height : c.height = b.height
  mineCount : c.mineCount = b.mineCount
  status : c.status = b.status
  minesPlaced : c.minesPlaced = b.minesPlaced
  revealedCount : c.revealedCount = b.revealedCount
  length : c.cells.length = b.cells.length
  mine : ∀ i, c.mine i = b.mine i
  adjacent : ∀ i, c.adjacent i = b.adjacent i
  revealed : ∀ i, c.state i = .revealed ↔ b.state i = .revealed

theorem reflagged_setState {s : CellState} {flags : Nat} (hi : i < b.cells.length) (hb : b.state i ≠ .revealed)
    (hs : s ≠ .revealed) :
    Reflagged b { b.setState i s with flagCount := flags } where
  width := rfl
  height := rfl
  mineCount := rfl
  status := rfl
  minesPlaced := rfl
  revealedCount := rfl
  length := Board.length_setState
  mine _ := Board.mine_setState
  adjacent _ := Board.adjacent_setState
  revealed j := by
    have hstate : ({ b.setState i s with flagCount := flags } : Board).state j = if j = i then s else b.state j :=
      Board.state_setState hi
    rw [hstate]
    split_ifs with hj
    · rw [hj]
      exact iff_of_false hs hb
    · rfl

theorem reflagged_toggleFlag (hsize : b.cells.length = b.width * b.height)
    (x y : Int) : Reflagged b (b.toggleFlag x y) := by
  obtain heq | ⟨i, hi, ⟨hs, heq⟩ | ⟨hs, heq⟩⟩ := toggleFlag_cases hsize x y
  · rw [heq]
    exact ⟨rfl, rfl, rfl, rfl, rfl, rfl, rfl, fun _ => rfl, fun _ => rfl, fun _ => Iff.rfl⟩
  · rw [heq]
    exact reflagged_setState hi (by rw [hs]; decide) (by decide)
  · rw [heq]
    exact reflagged_setState hi (by rw [hs]; decide) (by decide)

theorem Tallied.toggleFlag (h : Tallied b) (hsize : b.cells.length = b.width * b.height)
    (x y : Int) : Tallied (b.toggleFlag x y) := by
  obtain heq | ⟨i, hi, ⟨hs, heq⟩ | ⟨hs, heq⟩⟩ := toggleFlag_cases hsize x y
  · rw [heq]
    exact h
  · rw [heq]
    exact h.flag hi hs
  · rw [heq]
    exact h.unflag hi hs

theorem Unharmed.reflagged (h : Unharmed b) (hr : Reflagged b c) : Unharmed c := by
  intro hs i hi hrev
  rw [hr.mine]
  exact h (hr.status ▸ hs) i (hr.length ▸ hi) ((hr.revealed i).mp hrev)

theorem Placed.reflagged (h : Placed b) (hr : Reflagged b c) : Placed c :=
  ⟨hr.minesPlaced.trans h.minesPlaced, h.ruled.congr hr.width hr.height hr.length hr.mine hr.adjacent⟩

theorem Fresh.reflagged {config : MinesweeperConfig} (h : Fresh config b) (hr : Reflagged b c) : Fresh config c where
  width := hr.width.trans h.width
  height := hr.height.trans h.height
  mineCount := hr.mineCount.trans h.mineCount
  size := by rw [hr.length, hr.width, hr.height]; exact h.size
  status := hr.status.trans h.status
  minesPlaced := hr.minesPlaced.trans h.minesPlaced
  mine i := (hr.mine i).trans (h.mine i)
  unrevealed i hi := h.unrevealed i ((hr.revealed i).mp hi)

section Steps

variable {config : MinesweeperConfig} {draws : Generator} {g g' : Game}

theorem Sound.reveal (h : Sound config b) (x y : Int) (next : Nat) : Sound config (revealCell draws b x y next).1 := by
  obtain heq | heq | ⟨hp, hin, hh, heq⟩ := revealCell_cases draws b x y next
  · rw [heq]
    exact h
  · rw [heq]
    rcases h.phase with hf | hpl
    · rw [hf.chordCell]
      exact h
    · exact h.acts hpl (acts_chordCell hpl.ruled x y)
  · have hi := Board.idx_lt h.size hin
    rw [heq]
    rcases h.phase with hf | hpl
    · obtain ⟨hs, hpl⟩ := hf.sound_placeMines h.tallied draws next hi
      obtain ⟨hr, -⟩ := hf.placeMines draws next hi
      rw [hf.minesPlaced]
      exact hs.acts hpl (acts_dig hpl.ruled (hr.status.trans hp) (hr.length ▸ hi) ((hr.state _).trans hh))
    · rw [if_pos hpl.minesPlaced]
      exact h.acts hpl (acts_dig hpl.ruled hp hi hh)

theorem Sound.toggleFlag (h : Sound config b) (x y : Int) : Sound config (b.toggleFlag x y) := by
  have hr := reflagged_toggleFlag h.size x y
  refine ⟨hr.length.trans h.length, h.tallied.toggleFlag h.size x y, h.unharmed.reflagged hr, ?_⟩
  rcases h.phase with hf | hpl
  · exact .inl (hf.reflagged hr)
  · exact .inr (hpl.reflagged hr)

theorem Sound.play (h : Sound config g.board) (m : Move) : Sound config (g.play draws m).board := by
  cases m with
  | reveal x y => exact h.reveal x y g.next
  | flag x y => exact h.toggleFlag x y
  | chord x y =>
    rcases h.phase with hf | hpl
    · show Sound config (g.board.chordCell x y)
      rw [hf.chordCell]
      exact h
    · exact h.acts hpl (acts_chordCell hpl.ruled x y)
  | assists maxCspVars =>
    rcases h.phase with hf | hpl
    · show Sound config (runAutoAssists g.board maxCspVars)
      rw [hf.runAutoAssists]
      exact h
    · exact h.acts hpl (acts_runAutoAssists maxCspVars hpl.ruled)

theorem sound_start (config : MinesweeperConfig) : Sound config (Game.start config).board := by
  have hf := fresh_createBoard config
  have hnone : ∀ s : CellState, s ≠ .hidden →
    (createBoard config).indices.countP (fun i => (createBoard config).state i = s) = 0 := by
    intro s hs
    rw [countP_eq_zero]
    intro i _
    rw [Board.state, cell_createBoard, decide_eq_true_eq]
    exact hs.symm
  exact ⟨hf.length, ⟨(hnone .revealed (by decide)).symm, (hnone .flagged (by decide)).symm⟩,
    fun _ i _ hr => absurd hr (hf.unrevealed i), .inl hf⟩

theorem sound_of_reach (h : (games draws config).Reach g) : Sound config g.board := by
  refine Machine.Reach.invariant (I := fun g => Sound config g.board) ?_ ?_ h
  · intro s hs
    rw [hs]
    exact sound_start config
  · intro s m s' hs hstep
    cases hstep
    exact hs.play m

end Steps

/-! ## The first dig -/

/-- As many mines as the board says, none on the first cell or beside it, and on every cell that is no mine
    the number of mines beside it. -/
structure Mined (b : Board) (safeIndex : Nat) : Prop where
  mines : b.indices.countP b.mine = b.mineCount
  zone : ∀ i ∈ b.safeZone safeIndex, b.mine i = false
  numbers : ∀ i < b.cells.length, b.adjacent i = if b.mine i then 0 else (b.neighbors i).countP b.mine

theorem Mined.laid (h : Mined b safeIndex) (hsize : b.cells.length = b.width * b.height)
    (hfirst : safeIndex < b.cells.length) :
    Laid b safeIndex := by
  refine ⟨hsize, hfirst, ?_, h.zone, h.numbers⟩
  have hle := countP_le_outside h.zone
  rw [h.mines] at hle
  rw [h.mines, Nat.min_eq_left hle]

theorem Laid.mined (h : Laid b safeIndex) (hroom : b.mineCount ≤ (b.outside safeIndex).length) : Mined b safeIndex :=
  ⟨h.count.trans (Nat.min_eq_left hroom), h.zone, h.numbers⟩

theorem Redone.mined (hb : Mined b safeIndex) (h : Redone safeIndex b c) : Relaid b c ∧ Mined c safeIndex := by
  have hle := countP_le_outside hb.zone
  refine ⟨h.relaid, h.laid.mined ?_⟩
  rw [h.relaid.mineCount, h.relaid.outside, ← hb.mines]
  exact hle

theorem laid_first_dig {config : MinesweeperConfig} {draws : Generator} {g : Game} {x y : Int}
    (h : (games draws config).Reach g)
    (hp : g.board.minesPlaced = some false) (hin : g.board.inBounds x y = true)
    (hh : g.board.state (g.board.idx x y) = .hidden) :
    (g.play draws (.reveal x y)).board.minesPlaced = some true ∧
      (g.play draws (.reveal x y)).board.mineCount = (createBoard config).mineCount ∧
      Laid (g.play draws (.reveal x y)).board (g.board.idx x y) := by
  have hs := sound_of_reach h
  have hf : Fresh config g.board := by
    rcases hs.phase with hf | hpl
    · exact hf
    · rw [hpl.minesPlaced] at hp
      cases hp
  have hi := Board.idx_lt hf.size hin
  obtain ⟨hr, hl⟩ := hf.placeMines draws g.next hi
  have hdug : (g.play draws (.reveal x y)).board = (placeMines draws g.board (g.board.idx x y) g.next).1.dig
    (g.board.idx x y) := by
    simp only [Game.play, revealCell, hf.status, hin, hh, hp]
    rfl
  have ha := acts_dig hl.ruled (hr.status.trans hf.status) (hr.length ▸ hi) ((hr.state _).trans hh)
  rw [hdug]
  exact ⟨ha.keeps.minesPlaced.trans hr.minesPlaced, ha.keeps.mineCount.trans (hr.mineCount.trans hf.mineCount),
    hl.keeps ha.keeps⟩

/-- In every game, whatever is drawn, the first dig leaves no mine on its cell or beside it and on every cell that is no
    mine the number of mines beside it, and, where the cells outside are enough, as many mines as the
    board says. Moving mines by what the solver has decided keeps all of it. -/
theorem the_first_dig_lays_the_mines (config : MinesweeperConfig) (draws : Generator) :
    (∀ g, (games draws config).Reach g → ∀ x y, g.board.minesPlaced = some false → g.board.inBounds x y = true →
      g.board.state (g.board.idx x y) = .hidden →
      let i := g.board.idx x y
      let c := (g.play draws (.reveal x y)).board
      c.minesPlaced = some true ∧ c.mineCount = (createBoard config).mineCount ∧
        (∀ n ∈ c.safeZone i, c.mine n = false) ∧
        (∀ n < c.cells.length, c.adjacent n = if c.mine n then 0 else (c.neighbors n).countP c.mine) ∧
        (c.mineCount ≤ (c.outside i).length → c.indices.countP c.mine = c.mineCount)) ∧
    ∀ b i, b.cells.length = b.width * b.height → i < b.cells.length → Mined b i → ∀ next maxCspVars,
      let progress := solveUntilStuck b i maxCspVars
      (∀ target c, (∀ set ∈ target, set ∈ progress.stuckSets) →
        (tathamPerturb draws b i progress.knownEmpty progress.knownMines target next).1 = some c →
          Relaid b c ∧ Mined c i) ∧
      ∀ c, (perturbUnknownMines draws b i progress.knownEmpty progress.knownMines next).1 = some c → Relaid b c ∧
        Mined c i := by
  refine ⟨?_, ?_⟩
  · intro g hg x y hp hin hh
    obtain ⟨hplaced, hcount, hl⟩ := laid_first_dig hg hp hin hh
    exact ⟨hplaced, hcount, hl.zone, hl.numbers, fun hroom => (hl.mined hroom).mines⟩
  · intro b i hsize hi hm next maxCspVars
    have hl := hm.laid hsize hi
    have hd := hl.decided maxCspVars
    refine ⟨?_, ?_⟩
    · intro target c ht hc
      exact (redone_tathamPerturb draws hl (fun set hset => hd.sets set (ht set hset)) hc).mined hm
    · intro c hc
      exact (redone_perturbUnknownMines draws hl hd.empty hd.mines hc).mined hm

def zeros : Generator := fun _ => ⟨0, 0, by decide, by decide⟩

theorem a_first_dig_lays_two_mines :
    let c := ((Game.start ⟨4, 1, 2⟩).play zeros (.reveal 0 0)).board
    (∀ n ∈ c.safeZone 0, c.mine n = false) ∧ c.indices.countP c.mine = 2 := by
  have h := (the_first_dig_lays_the_mines ⟨4, 1, 2⟩ zeros).1 _ (.init rfl) 0 0 (by decide) (by decide) (by decide)
  exact ⟨h.2.2.1, h.2.2.2.2 (by decide)⟩

/-- Four cells in a row, two of them mines, and a dig at one end: the mines are the other two, beside each other. -/
theorem a_mine_counts_no_neighbour :
    ¬ ∀ config draws g, (games draws config).Reach g → ∀ x y, g.board.minesPlaced = some false →
      g.board.inBounds x y = true →
      g.board.state (g.board.idx x y) = .hidden → ∀ n < (g.play draws (.reveal x y)).board.cells.length,
        (g.play draws (.reveal x y)).board.adjacent n =
          ((g.play draws (.reveal x y)).board.neighbors n).countP (g.play draws (.reveal x y)).board.mine := by
  intro h
  have hcount := h ⟨4, 1, 2⟩ zeros _ (.init rfl) 0 0 (by decide) (by decide) (by decide) 2 (by decide)
  exact absurd hcount (by decide)

end Canari.Minesweeper
