/-
  Canari.Minesweeper.Acts — what the solver may do to any board, whatever its flags.

  On a board that was dealt the solver deduces (`Soundness`). A player's flags may be wrong, and
  then it may dig a mine. What it does is still one act after another (`Acts`): it flags a hidden
  cell, reveals a hidden cell that is no mine, digs a mine, or ends the game. So whatever was
  decided stays, the mines and the numbers stay, and the counters follow the cells.
-/

import Canari.Minesweeper.Soundness

namespace Canari.Minesweeper

open Lib Lib.Counting List

variable {b c d : Board} {i j n : Nat}

/-! ## Boards that differ in what was decided -/

/-- The board is the same but for its status, its counters and cells that are not hidden any more. -/
structure Keeps (b c : Board) : Prop where
  width : c.width = b.width
  height : c.height = b.height
  mineCount : c.mineCount = b.mineCount
  minesPlaced : c.minesPlaced = b.minesPlaced
  length : c.cells.length = b.cells.length
  mine : ∀ i, c.mine i = b.mine i
  adjacent : ∀ i, c.adjacent i = b.adjacent i
  kept : ∀ i, b.state i ≠ .hidden → c.state i = b.state i

theorem Grows.keeps (h : Grows b c) : Keeps b c :=
  ⟨h.width, h.height, h.mineCount, h.minesPlaced, h.length, h.mine, h.adjacent, h.kept⟩

theorem Keeps.refl (b : Board) : Keeps b b := (Grows.refl b).keeps

theorem Keeps.trans (h : Keeps b c) (h' : Keeps c d) : Keeps b d where
  width := h'.width.trans h.width
  height := h'.height.trans h.height
  mineCount := h'.mineCount.trans h.mineCount
  minesPlaced := h'.minesPlaced.trans h.minesPlaced
  length := h'.length.trans h.length
  mine i := (h'.mine i).trans (h.mine i)
  adjacent i := (h'.adjacent i).trans (h.adjacent i)
  kept i hi := by
    have hc := h.kept i hi
    exact (h'.kept i (hc ▸ hi)).trans hc

theorem Keeps.status (h : Keeps b c) (s : GameStatus) : Keeps b { c with status := s } :=
  ⟨h.width, h.height, h.mineCount, h.minesPlaced, h.length, h.mine, h.adjacent, h.kept⟩

theorem Keeps.neighbors (h : Keeps b c) (i : Nat) : c.neighbors i = b.neighbors i := by
  rw [Board.neighbors, Board.neighbors, h.width, h.height]

theorem Keeps.indices (h : Keeps b c) : c.indices = b.indices := by
  rw [Board.indices, Board.indices, h.length]

/-- A board of its shape whose safe cells show how many mines are beside them. -/
structure Ruled (b : Board) : Prop where
  size : b.cells.length = b.width * b.height
  numbers : ∀ i < b.cells.length, b.mine i = false → b.adjacent i = (b.neighbors i).countP b.mine

theorem Ruled.congr (hr : Ruled b) (hw : c.width = b.width) (hh : c.height = b.height)
    (hl : c.cells.length = b.cells.length)
    (hm : ∀ i, c.mine i = b.mine i) (ha : ∀ i, c.adjacent i = b.adjacent i) : Ruled c where
  size := by rw [hl, hw, hh]; exact hr.size
  numbers i hi hsafe := by
    rw [ha, Board.neighbors, hw, hh, show c.mine = b.mine from funext hm]
    exact hr.numbers i (hl ▸ hi) (hm i ▸ hsafe)

theorem Ruled.keeps (hr : Ruled b) (h : Keeps b c) : Ruled c := hr.congr h.width h.height h.length h.mine h.adjacent

theorem Ruled.neighbor_lt (hr : Ruled b) (hn : n ∈ b.neighbors i) : n < b.cells.length := by
  rw [hr.size]
  exact lt_of_mem_neighborTable hn

theorem Ruled.safe_of_zero (hr : Ruled b) (hi : i < b.cells.length) (hm : b.mine i = false) (hz : b.adjacent i = 0)
    (hn : n ∈ b.neighbors i) : b.mine n = false := by
  have hcount := hr.numbers i hi hm
  rw [hz] at hcount
  simpa using countP_eq_zero.mp hcount.symm n hn

/-! ## Acts -/

inductive Acts (b : Board) : Board → Prop
  | refl : Acts b b
  | flag {c : Board} {i : Nat} : Acts b c → i < c.cells.length → c.state i = .hidden → Acts b (c.flag i)
  | reveal {c : Board} {i : Nat} : Acts b c → i < c.cells.length → c.state i = .hidden → c.mine i = false →
      Acts b (c.reveal i)
  | dig {c : Board} {i : Nat} : Acts b c → i < c.cells.length → c.state i = .hidden → c.mine i = true →
      Acts b { c.reveal i with status := .lost }
  | lose {c : Board} : Acts b c → Acts b { c with status := .lost }
  | win {c : Board} : Acts b c → c.status = .playing → c.isWon = true → Acts b { c with status := .won }

theorem Acts.trans (h : Acts b c) (h' : Acts c d) : Acts b d := by
  induction h' with
  | refl => exact h
  | flag _ hi hh ih => exact .flag ih hi hh
  | reveal _ hi hh hm ih => exact .reveal ih hi hh hm
  | dig _ hi hh hm ih => exact .dig ih hi hh hm
  | lose _ ih => exact .lose ih
  | win _ hp hw ih => exact .win ih hp hw

theorem Acts.keeps (h : Acts b c) : Keeps b c := by
  induction h with
  | refl => exact Keeps.refl b
  | flag _ hi hh ih => exact ih.trans (grows_flag hi hh).keeps
  | reveal _ hi hh _ ih => exact ih.trans (grows_reveal hi hh).keeps
  | dig _ hi hh _ ih => exact (ih.trans (grows_reveal hi hh).keeps).status .lost
  | lose _ ih => exact ih.status .lost
  | win _ _ _ ih => exact ih.status .won

structure Tallied (b : Board) : Prop where
  revealed : b.revealedCount = b.indices.countP fun i => b.state i = .revealed
  flagged : b.flagCount = b.indices.countP fun i => b.state i = .flagged

theorem Tallied.setState {s : CellState} (h : Tallied b) (hi : i < b.cells.length) (hh : b.state i = .hidden) :
    Tallied { b.setState i s with
      revealedCount := b.revealedCount + (if s = .revealed then 1 else 0)
      flagCount := b.flagCount + (if s = .flagged then 1 else 0) } := by
  have hindices := (grows_setState (s := s) hi hh).indices
  have hrevealed := Board.countP_setState hi (show b.state i ≠ .revealed by rw [hh]; decide) (s := s)
  have hflagged := Board.countP_setState hi (show b.state i ≠ .flagged by rw [hh]; decide) (s := s)
  rw [← h.revealed, ← hindices] at hrevealed
  rw [← h.flagged, ← hindices] at hflagged
  exact ⟨hrevealed.symm, hflagged.symm⟩

theorem Tallied.flag (h : Tallied b) (hi : i < b.cells.length)
    (hh : b.state i = .hidden) : Tallied (b.flag i) := h.setState (s := .flagged) hi hh

theorem Tallied.reveal (h : Tallied b) (hi : i < b.cells.length)
    (hh : b.state i = .hidden) : Tallied (b.reveal i) := h.setState (s := .revealed) hi hh

theorem Tallied.status (h : Tallied b) (s : GameStatus) : Tallied { b with status := s } := ⟨h.revealed, h.flagged⟩

theorem Tallied.acts (h : Tallied b) (ha : Acts b c) : Tallied c := by
  induction ha with
  | refl => exact h
  | flag _ hi hh ih => exact ih.flag hi hh
  | reveal _ hi hh _ ih => exact ih.reveal hi hh
  | dig _ hi hh _ ih => exact (ih.reveal hi hh).status .lost
  | lose _ ih => exact ih.status .lost
  | win _ _ _ ih => exact ih.status .won

/-- Unless the game is lost, no revealed cell is a mine. -/
def Unharmed (b : Board) : Prop := b.status ≠ .lost → ∀ i < b.cells.length, b.state i = .revealed → b.mine i = false

theorem Unharmed.acts (h : Unharmed b) (ha : Acts b c) : Unharmed c := by
  induction ha with
  | refl => exact h
  | flag _ hi hh ih =>
    have hg := grows_flag hi hh
    intro hs j hj hr
    rw [Board.state_flag hi] at hr
    split_ifs at hr
    rw [hg.mine]
    exact ih hs j (hg.length ▸ hj) hr
  | reveal _ hi hh hm ih =>
    have hg := grows_reveal hi hh
    intro hs j hj hr
    rw [hg.mine]
    rw [Board.state_reveal hi] at hr
    split_ifs at hr with hji
    · exact hji ▸ hm
    · exact ih hs j (hg.length ▸ hj) hr
  | dig => intro hs; exact absurd rfl hs
  | lose => intro hs; exact absurd rfl hs
  | win _ hp _ ih =>
    intro _ j hj hr
    exact ih (by rw [hp]; decide) j hj hr

def Cleared (b : Board) : Prop := ∀ i < b.cells.length, b.mine i = false → b.state i = .revealed

theorem Cleared.keeps (h : Cleared b) (hk : Keeps b c) : Cleared c := by
  intro i hi hm
  have hr := h i (hk.length ▸ hi) (hk.mine i ▸ hm)
  exact (hk.kept i (by rw [hr]; decide)).trans hr

theorem cleared_of_won (ht : Tallied b) (hu : ∀ i < b.cells.length, b.state i = .revealed → b.mine i = false)
    (hcount : b.mineCount ≤ b.indices.countP b.mine) (hwon : b.isWon = true) : Cleared b := by
  intro i hi hm
  refine (mine_or_revealed_of_won ht.revealed hwon hcount hu hi).resolve_left ?_
  rw [hm]
  decide

theorem Acts.cleared (ht : Tallied b) (hu : Unharmed b) (hcount : b.mineCount ≤ b.indices.countP b.mine)
    (hb : b.status = .won → Cleared b) (ha : Acts b c) : c.status = .won → Cleared c := by
  induction ha with
  | refl => exact hb
  | flag _ hi hh ih => intro hs; exact (ih hs).keeps (grows_flag hi hh).keeps
  | reveal _ hi hh _ ih => intro hs; exact (ih hs).keeps (grows_reveal hi hh).keeps
  | dig => intro hs; cases hs
  | lose => intro hs; cases hs
  | @win c ha hp hw ih =>
    intro _
    have hk := ha.keeps
    have hcount' : c.mineCount ≤ c.indices.countP c.mine := by
      rw [hk.mineCount, hk.indices, show c.mine = b.mine from funext hk.mine]
      exact hcount
    exact (cleared_of_won (ht.acts ha) ((hu.acts ha) (by rw [hp]; decide)) hcount' hw).keeps
      ((Keeps.refl c).status .won)

/-! ## The solver acts -/

theorem acts_foldl {σ α : Type} (board : σ → Board) {f : σ → α → σ} {l : List α} {s : σ}
    (hf : ∀ s' a, a ∈ l → Acts (board s) (board s') → Acts (board s') (board (f s' a))) : Acts (board s)
    (board (l.foldl f s)) := by
  refine List.foldlRecOn (motive := fun s' => Acts (board s) (board s')) l f .refl ?_
  intro s' hs a ha
  exact hs.trans (hf s' a ha hs)

theorem acts_flood (fuel : Nat) {stack : List Nat} (hr : Ruled b)
    (hsafe : ∀ n ∈ stack, n < b.cells.length ∧ b.mine n = false) :
    Acts b (Board.flood fuel stack b) := by
  induction fuel generalizing b stack with
  | zero => exact .refl
  | succ fuel ih =>
    cases stack with
    | nil => exact .refl
    | cons i stack =>
      have hrest : ∀ n ∈ stack, n < b.cells.length ∧ b.mine n = false := fun n hn => hsafe n (mem_cons_of_mem i hn)
      rw [Board.flood]
      split_ifs with hh
      · exact ih hr hrest
      · obtain ⟨hi, hm⟩ := hsafe i mem_cons_self
        have hhid : b.state i = .hidden := not_not.mp hh
        have hstep : Acts b (b.reveal i) := .reveal .refl hi hhid hm
        have hk := hstep.keeps
        have hr' := hr.keeps hk
        have hrest' : ∀ n ∈ stack, n < (b.reveal i).cells.length ∧ (b.reveal i).mine n = false := by
          intro n hn
          rw [hk.length, hk.mine]
          exact hrest n hn
        dsimp only
        split_ifs with hz
        · refine hstep.trans (ih hr' fun n hn => ?_)
          rcases mem_append.mp hn with hn | hn
          · have hn' := mem_of_mem_filter (mem_reverse.mp hn)
            exact ⟨hr'.neighbor_lt hn', hr'.safe_of_zero (hk.length ▸ hi) hz.2 hz.1 hn'⟩
          · exact hrest' n hn
        · exact hstep.trans (ih hr' hrest')

theorem acts_revealFlood (hr : Ruled b) (hi : i < b.cells.length) (hm : b.mine i = false) : Acts b (b.revealFlood i) :=
  acts_flood _ hr fun n hn => by
    rw [mem_singleton.mp hn]
    exact ⟨hi, hm⟩

variable {s : Pass}

theorem acts_flagHidden (hn : n < s.board.cells.length) : Acts s.board (s.flagHidden n).board := by
  rw [Pass.flagHidden]
  split_ifs with hh
  · exact .refl
  · exact .flag .refl hn (not_not.mp hh)

theorem acts_openSafe (shown : Bool) (hr : Ruled s.board) (hn : n < s.board.cells.length) :
    Acts s.board (s.openSafe shown n).board := by
  rw [Pass.openSafe]
  split_ifs with hstop hh hm hshown
  · exact .refl
  · exact .refl
  · exact .dig .refl hn (not_not.mp hh) hm
  · exact .lose .refl
  · exact acts_revealFlood hr hn (by simpa using hm)

theorem acts_flagAll {ns : List Nat} (hlt : ∀ n ∈ ns, n < s.board.cells.length) :
    Acts s.board (ns.foldl Pass.flagHidden s).board :=
  acts_foldl Pass.board fun _ n hn hs => acts_flagHidden (hs.keeps.length ▸ hlt n hn)

theorem acts_openAll (shown : Bool) {ns : List Nat} (hr : Ruled s.board) (hlt : ∀ n ∈ ns, n < s.board.cells.length) :
    Acts s.board (ns.foldl (Pass.openSafe shown) s).board :=
  acts_foldl Pass.board fun _ n hn hs => acts_openSafe shown (hr.keeps hs.keeps) (hs.keeps.length ▸ hlt n hn)

theorem acts_flagAround (hr : Ruled s.board) (i : Nat) : Acts s.board (s.flagAround i).board := by
  rw [Pass.flagAround]
  split_ifs
  · exact .refl
  · dsimp only
    split_ifs
    · exact .refl
    · exact acts_flagAll fun n hn => hr.neighbor_lt hn

theorem acts_openAround (hr : Ruled s.board) (i : Nat) : Acts s.board (s.openAround i).board := by
  rw [Pass.openAround]
  split_ifs
  · exact .refl
  · exact .refl
  · exact .refl
  · exact acts_openAll true hr fun n hn => hr.neighbor_lt hn

theorem acts_autoFlagLoop (guard : Nat) (any : Bool) (hr : Ruled b) : Acts b (autoFlagLoop guard b any).1 := by
  induction guard generalizing b any with
  | zero => exact .refl
  | succ guard ih =>
    have hpass : Acts b (b.indices.foldl Pass.flagAround ⟨b, false, false⟩).board :=
      acts_foldl Pass.board (s := ⟨b, false, false⟩) fun s' i _ hs => acts_flagAround (hr.keeps hs.keeps) i
    rw [autoFlagLoop]
    split_ifs
    · exact hpass.trans (ih true (hr.keeps hpass.keeps))
    · exact hpass

theorem acts_applyBasicAssists (hr : Ruled b) : Acts b (applyBasicAssists b).1 := by
  have hflags : Acts b (applyAutoFlags b).1 := acts_autoFlagLoop 200 false hr
  refine hflags.trans ?_
  exact acts_foldl Pass.board (s := ⟨(applyAutoFlags b).1, (applyAutoFlags b).2, false⟩) fun s' i _ hs =>
    acts_openAround ((hr.keeps hflags.keeps).keeps hs.keeps) i

theorem acts_applyForced {forced : List Nat × List Nat} (hr : Ruled b) (hmines : ∀ n ∈ forced.1, n < b.cells.length)
    (hsafe : ∀ n ∈ forced.2, n < b.cells.length) : Acts b (applyForced b forced).board := by
  have hflags : Acts b (forced.1.foldl Pass.flagHidden ⟨b, false, false⟩).board :=
    acts_flagAll (s := ⟨b, false, false⟩) hmines
  have hk := hflags.keeps
  exact hflags.trans (acts_openAll false (hr.keeps hk) fun n hn => hk.length ▸ hsafe n hn)

theorem acts_applyCspAssists (maxVars : Int) (hr : Ruled b) : Acts b (applyCspAssists b maxVars).1 := by
  have hsea : ∀ n ∈ (collectConstraints b).sea, n < b.cells.length := fun n hn => mem_indices.mp (mem_of_mem_filter hn)
  rw [applyCspAssists]
  dsimp only
  split_ifs
  · exact .refl
  · exact acts_openAll false (s := ⟨b, false, false⟩) hr hsea
  · exact acts_flagAll (s := ⟨b, false, false⟩) hsea
  · exact .refl
  · refine acts_foldl Pass.board (s := ⟨b, false, false⟩) fun s' component hc hs => ?_
    have hlt : ∀ n ∈ component, n < s'.board.cells.length := by
      intro n hn
      obtain ⟨i, hi⟩ := mem_frontier ((sublist_of_component hc).subset hn)
      rw [hs.keeps.length]
      exact hr.neighbor_lt (mem_of_mem_filter hi)
    rw [applyComponent]
    split_ifs
    · exact .refl
    · exact .refl
    · exact acts_applyForced (hr.keeps hs.keeps) (fun n hn => hlt n (mem_vars_of_forced (.inl hn))) fun n hn =>
        hlt n (mem_vars_of_forced (.inr hn))

theorem acts_assistLoop (maxCspVars : Int) (guard : Nat) (hr : Ruled b) : Acts b (assistLoop maxCspVars guard b) := by
  induction guard generalizing b with
  | zero => exact .refl
  | succ guard ih =>
    have hbasic := acts_applyBasicAssists hr
    have hcsp := hbasic.trans (acts_applyCspAssists maxCspVars (hr.keeps hbasic.keeps))
    rw [assistLoop]
    split_ifs
    · exact .refl
    · dsimp only
      split_ifs
      · exact hbasic
      · exact hcsp.trans (ih (hr.keeps hcsp.keeps))
      · exact hcsp

theorem acts_checkWin (hp : b.status = .playing) : Acts b b.checkWin := by
  rw [Board.checkWin]
  split_ifs with hwon
  · exact .refl
  · refine (Acts.win .refl hp (by simpa using hwon)).trans (acts_foldl id fun c i hi hs => ?_)
    split_ifs with hflag
    · rw [Bool.and_eq_true, decide_eq_true_eq] at hflag
      exact .flag .refl (hs.keeps.length ▸ mem_indices.mp hi) hflag.2
    · exact .refl

theorem acts_runAutoAssists (maxCspVars : Int) (hr : Ruled b) : Acts b (runAutoAssists b maxCspVars) := by
  have hloop := acts_assistLoop maxCspVars 400 hr
  rw [runAutoAssists]
  split_ifs
  · exact .refl
  · exact .refl
  · dsimp only
    split_ifs with hend
    · exact hloop.trans (acts_checkWin hend.2)
    · exact hloop

end Canari.Minesweeper
