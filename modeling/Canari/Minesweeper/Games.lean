/-
  Canari.Minesweeper.Games — when a game is won, and what the replay accepts.

  A game is won when as many cells are revealed as the board has without `mineCount`. That is every
  cell that is no mine as long as there are `mineCount` of them. `createBoard` keeps
  `mineCount` below the number of cells only, and where fewer cells than that lie outside the first
  one and its neighbours, fewer mines are laid: then a flag on a neighbour is enough for a game
  that is won with a safe cell unopened, and the replay accepts it
  (`an_unopened_cell_is_accepted`).

  Where the mines have room, or the first dig opens all there is (`Fits`), a game in play has
  cells to open and all its mines (`Settled`), so it is won exactly when it is cleared
  (`games_are_won_when_cleared`). A game is lost with something left to open: a dig is in a game that is not
  won, and a number that opens a mine has a flag on a safe cell beside it, as does a board
  the solver loses.
-/

import Canari.Minesweeper.FirstDig

namespace Canari.Minesweeper

open Lib Lib.Counting Lib.Draws

variable {b c : Board} {i n : Nat} {config : MinesweeperConfig} {draws : Generator} {g : Game}

/-! ## The end of a game -/

theorem status_checkWin (b : Board) : b.checkWin.status = if b.isWon then .won else b.status := by
  unfold Board.checkWin
  cases hw : b.isWon with
  | false => rfl
  | true =>
    refine List.foldlRecOn (motive := fun c : Board => c.status = .won) _ _ rfl ?_
    intro c hc j _
    split
    · exact hc
    · exact hc

theorem checkWin_of_playing (h : b.checkWin.status = .playing) : b.checkWin.isWon = false := by
  rw [status_checkWin] at h
  cases hw : b.isWon with
  | false =>
    have heq : b.checkWin = b := by simp [Board.checkWin, hw]
    rw [heq]
    exact hw
  | true =>
    rw [hw] at h
    cases h

theorem not_lost_checkWin {P : Prop} (hp : b.status = .playing) (hl : b.checkWin.status = .lost) : P := by
  rw [status_checkWin, hp] at hl
  split_ifs at hl

theorem won_of_cleared (ht : Tallied b) (hcount : b.indices.countP b.mine ≤ b.mineCount)
    (h : Cleared b) : b.isWon = true := by
  have hsafe : (b.indices.countP fun j => !b.mine j) ≤ b.indices.countP fun j => b.state j = .revealed := by
    refine List.countP_mono_left fun j hj hm => ?_
    rw [decide_eq_true_eq]
    exact h j (mem_indices.mp hj) (by simpa using hm)
  have hall : b.cells.length = b.indices.countP b.mine + b.indices.countP fun j => !b.mine j := by
    have hlen := List.length_eq_countP_add_countP b.mine (l := b.indices)
    simpa [Board.indices] using hlen
  rw [Board.isWon, decide_eq_true_eq, ht.revealed]
  omega

theorem not_cleared_of_wrong_flag (hk : Keeps b c) (hn : n < b.cells.length) (hm : b.mine n = false)
    (hf : b.state n = .flagged) : ¬ Cleared c := by
  intro h
  have hr := h n (hk.length ▸ hn) ((hk.mine n).trans hm)
  rw [hk.kept n (by rw [hf]; decide), hf] at hr
  cases hr

/-- After the first dig: a game that is won is cleared, one that is lost is not, and one in play has all its
    mines and cells to open. -/
structure Settled (b : Board) : Prop where
  won : b.status = .won → Cleared b
  lost : b.status = .lost → ¬ Cleared b
  playing : b.status = .playing → b.indices.countP b.mine = b.mineCount ∧ b.isWon = false

theorem settled_of_acts (ht : Tallied b) (hu : Unharmed b) (hcount : b.indices.countP b.mine = b.mineCount)
    (hp : b.status = .playing) (ha : Acts b c)
    (hl : c.status = .lost → ¬ Cleared c) (hw : c.status = .playing → c.isWon = false) : Settled c where
  won := ha.cleared ht hu (le_of_eq hcount.symm) fun hs => by rw [hp] at hs; cases hs
  lost := hl
  playing hs := by
    refine ⟨?_, hw hs⟩
    rw [ha.keeps.indices, show c.mine = b.mine from funext ha.keeps.mine, ha.keeps.mineCount]
    exact hcount

/-! ## The moves settle -/

theorem state_revealAllMines (b : Board) (hm : b.mine n = false) : b.revealAllMines.state n = b.state n := by
  have hfold : (∀ j, b.revealAllMines.mine j = b.mine j) ∧ b.revealAllMines.cells.length = b.cells.length ∧
    b.revealAllMines.state n = b.state n := by
    refine List.foldlRecOn (motive := fun c : Board => (∀ j, c.mine j = b.mine j) ∧ c.cells.length = b.cells.length ∧
      c.state n = b.state n)
      b.indices _ ⟨fun _ => rfl, rfl, rfl⟩ ?_
    intro c hc j hj
    have hjlt : j < c.cells.length := hc.2.1 ▸ mem_indices.mp hj
    split
    · rename_i hmine
      rw [Bool.and_eq_true] at hmine
      have hne : n ≠ j := by
        intro he
        rw [hc.1, ← he, hm] at hmine
        cases hmine.1
      split
      · exact ⟨fun k => Board.mine_setState.trans (hc.1 k), Board.length_setState.trans hc.2.1,
          (Board.state_setState hjlt).trans ((if_neg hne).trans hc.2.2)⟩
      · exact ⟨fun k => Board.mine_setState.trans (hc.1 k), Board.length_setState.trans hc.2.1,
          (Board.state_setState hjlt).trans ((if_neg hne).trans hc.2.2)⟩
    · exact hc
  exact hfold.2.2

theorem exists_wrong_flag {ns : List Nat} (heq : (ns.countP fun n => b.state n = .flagged) = ns.countP b.mine)
    (hn : n ∈ ns) (hm : b.mine n = true)
    (hf : b.state n ≠ .flagged) : ∃ k ∈ ns, b.mine k = false ∧ b.state k = .flagged := by
  by_contra hnone
  push Not at hnone
  have hsplit : ns.countP b.mine = (ns.countP fun n => b.state n = .flagged) + ns.countP fun n =>
    b.mine n && b.state n ≠ .flagged := by
    refine countP_split fun k hk => ?_
    by_cases hs : b.state k = .flagged
    · cases hmk : b.mine k with
      | false => exact absurd hs (hnone k hk hmk)
      | true => simp [hs]
    · simp [hs]
  have hpos : 0 < ns.countP fun n => b.mine n && b.state n ≠ .flagged :=
    List.countP_pos_iff.mpr ⟨n, hn, by simp [hm, hf]⟩
  omega

theorem stop_openAll {ns : List Nat} {s : Pass} (hr : Ruled s.board) (hs : s.stop = false)
    (hlt : ∀ n ∈ ns, n < s.board.cells.length)
    (hsafe : ∀ n ∈ ns, s.board.mine n = false) : (ns.foldl (Pass.openSafe true) s).stop = false := by
  have hfold : (ns.foldl (Pass.openSafe true) s).stop = false ∧
    Acts s.board (ns.foldl (Pass.openSafe true) s).board := by
    refine List.foldlRecOn (motive := fun s' : Pass => s'.stop = false ∧ Acts s.board s'.board) ns _ ⟨hs, .refl⟩ ?_
    intro s' hs' n hn
    have hk := hs'.2.keeps
    refine ⟨?_, hs'.2.trans (acts_openSafe true (hr.keeps hk) (hk.length ▸ hlt n hn))⟩
    unfold Pass.openSafe
    rw [hs'.1, hk.mine, hsafe n hn, if_neg (show ¬ false = true by decide)]
    split
    · exact hs'.1
    · rfl
  exact hfold.1

theorem counts_flagAll (ns : List Nat) (s : Pass) :
    (ns.foldl Pass.flagHidden s).board.status = s.board.status ∧
      (ns.foldl Pass.flagHidden s).board.revealedCount = s.board.revealedCount := by
  refine List.foldlRecOn (motive :=
    fun s' : Pass => s'.board.status = s.board.status ∧
    s'.board.revealedCount = s.board.revealedCount) ns _ ⟨rfl, rfl⟩ ?_
  intro s' hs' n _
  rw [Pass.flagHidden]
  split
  · exact hs'
  · exact hs'

theorem wrong_flag_of_stop (hr : Ruled b) (hi : i < b.cells.length) (hm : b.mine i = false)
    (heq : b.flaggedAround i = b.adjacent i)
    (hstop : ((b.hiddenAround i).foldl (Pass.openSafe true) ⟨b, false, false⟩).stop = true) :
    ∃ k < b.cells.length, b.mine k = false ∧ b.state k = .flagged := by
  have hlt : ∀ n ∈ b.hiddenAround i, n < b.cells.length := fun n hn => hr.hiddenAround_lt hn
  have hmine : ∃ n ∈ b.hiddenAround i, b.mine n = true := by
    by_contra hnone
    push Not at hnone
    have hsafe : ∀ n ∈ b.hiddenAround i, b.mine n = false := fun n hn => by simpa using hnone n hn
    rw [stop_openAll (s := ⟨b, false, false⟩) hr rfl hlt hsafe] at hstop
    cases hstop
  obtain ⟨n, hn, hmn⟩ := hmine
  obtain ⟨hn, hhid⟩ := mem_hiddenAround.mp hn
  have hcount : ((b.neighbors i).countP fun n => b.state n = .flagged) = (b.neighbors i).countP b.mine :=
    heq.trans (hr.numbers i hi hm)
  obtain ⟨k, hk, hkm, hkf⟩ := exists_wrong_flag hcount hn hmn (by rw [hhid]; decide)
  exact ⟨k, hr.neighbor_lt hk, hkm, hkf⟩

theorem isWon_congr (hr : c.revealedCount = b.revealedCount) (hl : c.cells.length = b.cells.length)
    (hm : c.mineCount = b.mineCount) :
    c.isWon = b.isWon := by
  rw [Board.isWon, Board.isWon, hr, hl, hm]

structure InPlay (b : Board) : Prop where
  placed : Placed b
  tallied : Tallied b
  unharmed : Unharmed b
  status : b.status = .playing
  count : b.indices.countP b.mine = b.mineCount
  left : b.isWon = false

namespace InPlay

theorem not_cleared (h : InPlay b) : ¬ Cleared b := by
  intro hc
  have hwon := h.left
  rw [won_of_cleared h.tallied (le_of_eq h.count) hc] at hwon
  cases hwon

theorem settled (h : InPlay b) : Settled b where
  won hs := by rw [h.status] at hs; cases hs
  lost hs := by rw [h.status] at hs; cases hs
  playing _ := ⟨h.count, h.left⟩

theorem settles (h : InPlay b) (ha : Acts b c) (hl : c.status = .lost → ¬ Cleared c)
    (hw : c.status = .playing → c.isWon = false) : Settled c :=
  settled_of_acts h.tallied h.unharmed h.count h.status ha hl hw

theorem settled_chordCell (h : InPlay b) (x y : Int) : Settled (b.chordCell x y) := by
  have hr := h.placed.ruled
  have hlt : ∀ n ∈ b.hiddenAround (b.idx x y), n < b.cells.length := fun n hn => hr.hiddenAround_lt hn
  have hopen := acts_openAll true (s := ⟨b, false, false⟩) hr hlt
  have ha := acts_chordCell hr x y
  obtain heq | ⟨hin, hnum, heq | ⟨hmatch, ⟨hstop, hlost, heq⟩ | ⟨hp, heq⟩⟩⟩ := chordCell_cases b x y
  · rw [heq]
    exact h.settled
  · obtain ⟨hstatus, hrevealed⟩ := counts_flagAll (b.hiddenAround (b.idx x y)) ⟨b, false, false⟩
    rw [heq] at ha ⊢
    refine h.settles ha ?_ ?_
    · intro hl
      rw [hstatus, h.status] at hl
      cases hl
    · intro _
      rw [isWon_congr hrevealed ha.keeps.length ha.keeps.mineCount]
      exact h.left
  · have hi := Board.idx_lt hr.size hin
    have hm := h.unharmed (by rw [h.status]; decide) _ hi (numbered_revealed hnum)
    obtain ⟨k, hk, hkm, hkf⟩ := wrong_flag_of_stop hr hi hm hmatch hstop
    refine h.settles ha (fun _ => not_cleared_of_wrong_flag ha.keeps hk hkm hkf) ?_
    intro hplay
    rw [heq, (acts_revealAllMines hlost).lost hlost] at hplay
    cases hplay
  · rw [heq]
    exact h.settles (hopen.trans (acts_checkWin hp)) (not_lost_checkWin hp) checkWin_of_playing

theorem settled_dig (h : InPlay b) (hi : i < b.cells.length) (hh : b.state i = .hidden) : Settled (b.dig i) := by
  have ha := acts_dig h.placed.ruled h.status hi hh
  rw [Board.dig] at ha ⊢
  split_ifs at ha ⊢ with hm
  · refine h.settles ha ?_ ?_
    · -- what is shown are mines, so a cell that was left is left
      intro _ hc
      refine h.not_cleared fun n hn hsafe => ?_
      have hne : n ≠ i := by
        intro he
        rw [he, hm] at hsafe
        cases hsafe
      have hrev := hc n (ha.keeps.length ▸ hn) ((ha.keeps.mine n).trans hsafe)
      have hsafe' : ({ b.reveal i with status := .lost } : Board).mine n = false := Board.mine_setState.trans hsafe
      rw [state_revealAllMines _ hsafe'] at hrev
      exact (if_neg hne).symm.trans ((Board.state_reveal hi).symm.trans hrev)
    · intro hplay
      have hlost : (Board.revealAllMines { b.reveal i with status := .lost }).status = .lost :=
        (acts_revealAllMines rfl).lost rfl
      rw [hlost] at hplay
      cases hplay
  · exact h.settles ha (not_lost_checkWin ((status_flood _ _ _).trans h.status)) checkWin_of_playing

theorem settled_runAutoAssists (h : InPlay b) (maxCspVars : Int) : Settled (runAutoAssists b maxCspVars) := by
  have ha := acts_runAutoAssists maxCspVars h.placed.ruled
  refine h.settles ha ?_ ?_
  · -- a board with flags on mines only is not lost by the solver
    intro hl
    by_cases hflags : ∀ i < b.cells.length, b.state i = .flagged → b.mine i = true
    · have hdealt : Dealt b :=
        ⟨h.placed.ruled.size, h.placed.ruled.numbers, h.count, h.tallied.flagged, hflags,
          h.unharmed (by rw [h.status]; decide)⟩
      have hlost := hdealt.not_lost maxCspVars hl
      rw [h.status] at hlost
      cases hlost
    · push Not at hflags
      obtain ⟨k, hk, hkf, hkm⟩ := hflags
      exact not_cleared_of_wrong_flag ha.keeps hk (by simpa using hkm) hkf
  · rw [runAutoAssists, if_neg (by simp [h.status]), if_neg (by simp [h.placed.minesPlaced])]
    dsimp only
    split_ifs with hend
    · exact checkWin_of_playing
    · intro hplay
      exact absurd ⟨by simp [h.placed.minesPlaced], hplay⟩ hend

end InPlay

theorem Settled.reflagged (hs : Settled b) (h : Reflagged b c) : Settled c := by
  have hcleared : Cleared c ↔ Cleared b := by
    unfold Cleared
    simp only [h.length, h.mine, h.revealed]
  refine ⟨?_, ?_, ?_⟩
  · rw [h.status, hcleared]
    exact hs.won
  · rw [h.status, hcleared]
    exact hs.lost
  · rw [h.status, isWon_congr h.revealedCount h.length h.mineCount, Board.indices, h.length,
      show c.mine = b.mine from funext h.mine, h.mineCount]
    exact hs.playing

/-! ## The first dig -/

theorem Laid.mem_zone {safeIndex : Nat} (h : Laid b safeIndex) (hfull : (b.outside safeIndex).length ≤ b.mineCount)
    (hi : i < b.cells.length)
    (hm : b.mine i = false) : i ∈ b.safeZone safeIndex := by
  by_contra hz
  have hcount := h.count
  rw [Nat.min_eq_right hfull, Board.outside, ← List.countP_eq_length_filter] at hcount
  have hsplit : (b.indices.countP fun j => j ∉ b.safeZone safeIndex) =
      b.indices.countP b.mine + b.indices.countP fun j => decide (j ∉ b.safeZone safeIndex) && !b.mine j := by
    refine countP_split fun j _ => ?_
    cases hj : b.mine j with
    | false => simp
    | true =>
      have hout : j ∉ b.safeZone safeIndex := by
        intro hmem
        rw [h.zone j hmem] at hj
        cases hj
      simp [hout]
  have hpos : 0 < b.indices.countP fun j => decide (j ∉ b.safeZone safeIndex) && !b.mine j :=
    List.countP_pos_iff.mpr ⟨i, mem_indices.mpr hi, by simp [hz, hm]⟩
  omega

/-- The mines have room outside the first cell and its neighbours, or no neighbour is flagged. -/
def Roomy (b : Board) (i : Nat) : Prop := b.mineCount ≤ (b.outside i).length ∨ ∀ n ∈ b.neighbors i, b.state n ≠ .flagged

theorem Fresh.settled_dig (h : Fresh config b) (ht : Tallied b) (next : Nat) (hi : i < b.cells.length)
    (hh : b.state i = .hidden) (hroomy : Roomy b i) :
    Settled ((Minesweeper.placeMines draws b i next).1.dig i) := by
  obtain ⟨hr, hl⟩ := h.placeMines draws next hi
  obtain ⟨hs, hpl⟩ := h.sound_placeMines ht draws next hi
  generalize (Minesweeper.placeMines draws b i next).1 = p at hr hl hs hpl
  have hm := hl.zone i List.mem_cons_self
  have hp : p.status = .playing := hr.status.trans h.status
  have hflood := acts_revealFlood hl.ruled hl.first hm
  have hfp : (p.revealFlood i).status = .playing := (status_flood _ _ _).trans hp
  have hdig : p.dig i = (p.revealFlood i).checkWin := by rw [Board.dig, hm, if_neg (by decide)]
  rw [hdig]
  by_cases hroom : p.mineCount ≤ (p.outside i).length
  · exact settled_of_acts hs.tallied hs.unharmed (hl.mined hroom).mines hp (hflood.trans (acts_checkWin hfp))
      (not_lost_checkWin hfp) checkWin_of_playing
  · -- all that is safe is opened at once
    have hnoflag : ∀ n ∈ b.neighbors i, b.state n ≠ .flagged := by
      refine hroomy.resolve_left fun hle => hroom ?_
      rw [hr.mineCount, hr.outside]
      exact hle
    have hzone : ∀ n ∈ p.safeZone i, p.state n = .hidden := by
      intro n hn
      rw [hr.safeZone] at hn
      rw [hr.state]
      rcases List.mem_cons.mp hn with hn | hn
      · exact hn ▸ hh
      · show b.state n = .hidden
        cases hst : b.state n with
        | hidden => rfl
        | revealed => exact absurd hst (h.unrevealed n)
        | flagged => exact absurd hst (hnoflag n hn)
    have hcleared : Cleared (p.revealFlood i) := by
      intro n hn hsafe
      rw [hflood.keeps.length] at hn
      rw [hflood.keeps.mine] at hsafe
      exact hl.opened hzone (hl.mem_zone (Nat.le_of_not_le hroom) hn hsafe)
    have hfew : (p.revealFlood i).indices.countP (p.revealFlood i).mine ≤ (p.revealFlood i).mineCount := by
      rw [hflood.keeps.indices, show (p.revealFlood i).mine = p.mine from funext hflood.keeps.mine,
        hflood.keeps.mineCount, hl.count]
      exact Nat.min_le_left _ _
    have hwon : (p.revealFlood i).checkWin.status = .won := by
      rw [status_checkWin, won_of_cleared (hs.tallied.acts hflood) hfew hcleared, if_pos rfl]
    refine ⟨fun _ => hcleared.keeps (acts_checkWin hfp).keeps, ?_, ?_⟩
    · intro hs
      rw [hwon] at hs
      cases hs
    · intro hs
      rw [hwon] at hs
      cases hs

/-! ## Games -/

def Fits (g : Game) : Move → Prop
  | .reveal x y =>
    g.board.minesPlaced = some false → g.board.inBounds x y = true → g.board.state (g.board.idx x y) = .hidden →
      Roomy g.board (g.board.idx x y)
  | _ => True

/-- What holds along the games whose moves all fit. -/
structure Fair (config : MinesweeperConfig) (b : Board) : Prop where
  sound : Sound config b
  settled : b.minesPlaced = some true → Settled b

theorem Fresh.fair (h : Fresh config b) (hs : Sound config b) : Fair config b := by
  refine ⟨hs, fun hp => ?_⟩
  rw [h.minesPlaced] at hp
  cases hp

theorem Fair.inPlay (h : Fair config b) (hpl : Placed b) (hp : b.status = .playing) : InPlay b := by
  obtain ⟨hcount, hleft⟩ := (h.settled hpl.minesPlaced).playing hp
  exact ⟨hpl, h.sound.tallied, h.sound.unharmed, hp, hcount, hleft⟩

theorem play_over (h : g.board.status ≠ .playing) (m : Move) : (g.play draws m).board = g.board := by
  cases m with
  | reveal x y => simp [Game.play, revealCell, h]
  | chord x y => simp [Game.play, Board.chordCell, h]
  | flag x y => simp [Game.play, Board.toggleFlag, h]
  | assists maxCspVars => simp [Game.play, runAutoAssists, h]

theorem Fair.reveal (h : Fair config b) (hp : b.status = .playing) (x y : Int) (next : Nat)
    (hfits : b.minesPlaced = some false → b.inBounds x y = true → b.state (b.idx x y) = .hidden → Roomy b (b.idx x y)) :
    Fair config (revealCell draws b x y next).1 := by
  have hs := @Sound.reveal _ _ draws h.sound x y next
  obtain heq | heq | ⟨-, hin, hh, heq⟩ := revealCell_cases draws b x y next
  · rw [heq]
    exact h
  · rcases h.sound.phase with hf | hpl
    · rw [heq, hf.chordCell]
      exact h
    · refine ⟨hs, fun _ => ?_⟩
      rw [heq]
      exact (h.inPlay hpl hp).settled_chordCell x y
  · have hi := Board.idx_lt h.sound.size hin
    refine ⟨hs, fun _ => ?_⟩
    rw [heq]
    rcases h.sound.phase with hf | hpl
    · rw [hf.minesPlaced]
      exact hf.settled_dig h.sound.tallied next hi hh (hfits hf.minesPlaced hin hh)
    · rw [if_pos hpl.minesPlaced]
      exact (h.inPlay hpl hp).settled_dig hi hh

theorem Fair.toggleFlag (h : Fair config b) (x y : Int) : Fair config (b.toggleFlag x y) := by
  have hr := reflagged_toggleFlag h.sound.size x y
  refine ⟨h.sound.toggleFlag x y, fun hp => ?_⟩
  exact (h.settled (hr.minesPlaced.symm.trans hp)).reflagged hr

theorem Fair.play (h : Fair config g.board) {m : Move} (hfits : Fits g m) : Fair config (g.play draws m).board := by
  by_cases hp : g.board.status = .playing
  · have hs := @Sound.play _ draws g h.sound m
    cases m with
    | reveal x y => exact h.reveal hp x y g.next hfits
    | flag x y => exact h.toggleFlag x y
    | chord x y =>
      rcases h.sound.phase with hf | hpl
      · show Fair config (g.board.chordCell x y)
        rw [hf.chordCell]
        exact h
      · exact ⟨hs, fun _ => (h.inPlay hpl hp).settled_chordCell x y⟩
    | assists maxCspVars =>
      rcases h.sound.phase with hf | hpl
      · show Fair config (runAutoAssists g.board maxCspVars)
        rw [hf.runAutoAssists]
        exact h
      · exact ⟨hs, fun _ => (h.inPlay hpl hp).settled_runAutoAssists maxCspVars⟩
  · rw [play_over hp]
    exact h

theorem fair_start (config : MinesweeperConfig) : Fair config (Game.start config).board :=
  (fresh_createBoard config).fair (sound_start config)

theorem fair_of_reachBy (h : (games draws config).ReachBy Fits g) : Fair config g.board := by
  refine Machine.ReachBy.invariant (I := fun g => Fair config g.board) ?_ ?_ h
  · intro s hs
    rw [hs]
    exact fair_start config
  · intro s m s' hs hfits hstep
    cases hstep
    exact hs.play hfits

theorem Fair.won_iff (h : Fair config b) (hcell : 0 < b.cells.length) : b.status = .won ↔ Cleared b := by
  rcases h.sound.phase with hf | hpl
  · refine iff_of_false ?_ ?_
    · rw [hf.status]
      decide
    · intro hc
      exact hf.unrevealed 0 (hc 0 hcell (hf.mine 0))
  · have hset := h.settled hpl.minesPlaced
    refine ⟨hset.won, fun hc => ?_⟩
    cases hs : b.status with
    | won => rfl
    | lost => exact absurd hc (hset.lost hs)
    | playing => exact absurd hc (h.inPlay hpl hs).not_cleared

/-! ## The replay -/

def Fitting (draws : Generator) : List MinesweeperMove → Game → Prop
  | [], _ => True
  | move :: rest, g =>
    g.board.status = .playing → ∀ x y, move.x = some x → move.y = some y →
      (move.type = .reveal → Fits g (.reveal x y) ∧ Fitting draws rest (g.play draws (.reveal x y))) ∧
      (move.type = .flag → Fitting draws rest (g.play draws (.flag x y)))

theorem fair_replay (moves : List MinesweeperMove) : ∀ {g g' : Game}, Fair config g.board → Fitting draws moves g →
    replay draws moves g = .ok g' → Fair config g'.board := by
  induction moves with
  | nil =>
    intro g g' h _ hr
    cases hr
    exact h
  | cons move rest ih =>
    intro g g' h hfit hr
    rw [replay] at hr
    split at hr
    · cases hr
      exact h
    · rename_i hp
      rw [not_not] at hp
      split at hr
      · rename_i x y hx hy
        obtain ⟨hreveal, hflag⟩ := hfit hp x y hx hy
        split at hr
        · rename_i htype
          exact ih (h.play (hreveal htype).1) (hreveal htype).2 hr
        · rename_i htype
          exact ih (@Fair.play _ draws g h (.flag x y) trivial) (hflag htype) hr
        · cases hr
      · cases hr

theorem verdictOf_ok (h : (verdictOf g).ok = true) : g.board.status = .won := by
  unfold verdictOf at h
  split at h
  · assumption
  · cases h
  · cases h

theorem replay_error (moves : List MinesweeperMove) : ∀ {g : Game}
    {v : Verdict}, replay draws moves g = .error v → v.ok = false := by
  induction moves with
  | nil =>
    intro g v h
    cases h
  | cons move rest ih =>
    intro g v h
    rw [replay] at h
    split at h
    · cases h
    · split at h
      · split at h
        · exact ih h
        · exact ih h
        · cases h
          rfl
      · cases h
        rfl

theorem replay_of_ok {random : Generator} {seed : Utf16.JsString} {moves : List MinesweeperMove}
    (h : (verifySolve random seed moves config).ok = true) :
    ∃ g, replay (rngOf random seed) moves (Game.start config) = .ok g ∧ g.board.status = .won := by
  unfold verifySolve at h
  split at h
  · cases h
  · split_ifs at h
    split at h
    · rename_i v hr
      rw [replay_error _ hr] at h
      cases h
    · rename_i g hr
      exact ⟨g, hr, verdictOf_ok h⟩

/-- In every game the counters are those of the cells, no cell is revealed and flagged, and no revealed
    cell is a mine in play. In every game whose moves fit, on a board with a cell, it is won exactly
    when every cell that is no mine is revealed; and what the replay accepts, when the moves it plays
    fit, reveals every cell that is no mine and no other. -/
theorem games_are_won_when_cleared (config : MinesweeperConfig) :
    (∀ draws g, (games draws config).Reach g →
      g.board.revealedCount = (g.board.indices.countP fun i => g.board.state i = .revealed) ∧
      g.board.flagCount = (g.board.indices.countP fun i => g.board.state i = .flagged) ∧
      (∀ i, ¬ (g.board.state i = .revealed ∧ g.board.state i = .flagged)) ∧
      (g.board.status = .playing → ∀ i < g.board.cells.length, g.board.state i = .revealed → g.board.mine i = false)) ∧
    (0 < config.width * config.height → ∀ draws g, (games draws config).ReachBy Fits g →
      (g.board.status = .won ↔ Cleared g.board)) ∧
    ∀ random seed moves, Fitting (rngOf random seed) moves (Game.start config) →
      (verifySolve random seed moves config).ok = true →
      ∃ g, replay (rngOf random seed) moves (Game.start config) = .ok g ∧ Cleared g.board ∧
        ∀ i < g.board.cells.length, g.board.state i = .revealed → g.board.mine i = false := by
  refine ⟨?_, ?_, ?_⟩
  · intro draws g hg
    have hs := sound_of_reach hg
    refine ⟨hs.tallied.revealed, hs.tallied.flagged, ?_, ?_⟩
    · intro i hi
      rw [hi.1] at hi
      cases hi.2
    · intro hp
      exact hs.unharmed (by rw [hp]; decide)
  · intro hcell draws g hg
    have hf := fair_of_reachBy hg
    exact hf.won_iff (hf.sound.length.symm ▸ hcell)
  · intro random seed moves hfit hok
    obtain ⟨g, hr, hwon⟩ := replay_of_ok hok
    have hf := fair_replay moves (fair_start config) hfit hr
    have hun := hf.sound.unharmed (by rw [hwon]; decide)
    rcases hf.sound.phase with hfresh | hpl
    · rw [hfresh.status] at hwon
      cases hwon
    · exact ⟨g, hr, (hf.settled hpl.minesPlaced).won hwon, hun⟩

/-- Four cells in a row with two mines, dug at the other end. -/
theorem a_cleared_row_is_accepted :
    (verifySolve zeros [0x61] [⟨.reveal, some 0, some 0⟩] ⟨4, 1, 2⟩).ok = true ∧
    ∃ g, replay (rngOf zeros [0x61]) [⟨.reveal, some 0, some 0⟩] (Game.start ⟨4, 1, 2⟩) = .ok g ∧ Cleared g.board := by
  have hfit : Fitting (rngOf zeros [0x61]) [⟨.reveal, some 0, some 0⟩] (Game.start ⟨4, 1, 2⟩) := by
    intro _ x y hx hy
    cases hx
    cases hy
    exact ⟨fun _ => ⟨fun _ _ _ => .inl (by decide), trivial⟩, fun h => by cases h⟩
  have hok : (verifySolve zeros [0x61] [⟨.reveal, some 0, some 0⟩] ⟨4, 1, 2⟩).ok = true := by decide +kernel
  obtain ⟨g, hr, hc, -⟩ := (games_are_won_when_cleared ⟨4, 1, 2⟩).2.2 zeros [0x61] _ hfit hok
  exact ⟨hok, g, hr, hc⟩

def cornerFlagged : List MinesweeperMove :=
    [⟨.reveal, some 63, some 63⟩, ⟨.flag, some 0, some 0⟩, ⟨.reveal, some 1, some 1⟩]

/-- Nine cells with two mines, for which there is no room around the middle: eight cells are opened, and
    seven are enough. -/
theorem an_unopened_cell_is_accepted :
    (verifySolve zeros [0x61] cornerFlagged ⟨3, 3, 2⟩).ok = true ∧
    ∃ g, replay (rngOf zeros [0x61]) cornerFlagged (Game.start ⟨3, 3, 2⟩) = .ok g ∧
      (games (rngOf zeros [0x61]) ⟨3, 3, 2⟩).Reach g ∧
      g.board.status = .won ∧ g.board.mine 0 = false ∧ g.board.state 0 = .flagged ∧ ¬ Cleared g.board := by
  have hcorner : ∀ g : Game, 0 < g.board.cells.length ∧ g.board.mine 0 = false ∧ g.board.state 0 = .flagged →
    ¬ Cleared g.board := by
    intro g hg hc
    have hr := hc 0 hg.1 hg.2.1
    rw [hg.2.2] at hr
    cases hr
  refine ⟨by decide +kernel, _, by rfl, Machine.reach_of_run [Move.reveal 63 63, Move.flag 0 0, Move.reveal 1 1] rfl rfl, ?_, ?_, ?_, hcorner _ ?_⟩
  · decide +kernel
  · decide +kernel
  · decide +kernel
  · decide +kernel

end Canari.Minesweeper
