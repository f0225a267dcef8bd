/-
  Canari.Minesweeper.Board — the board and the solver that clears it without guessing.

  The solver is what a layout must pass to be dealt: single numbers first (`applyBasicAssists`: all
  the hidden neighbours of a number are mines, or none is), then the numbers together
  (`applyCspAssists`: the hidden cells beside the numbers, split into components, and every way to
  place mines on a component searched), until nothing changes. It reads where the mines are only to
  end the game when it opens one.
-/

import Canari.Lib.CountSearch
import Canari.Lib.JsMap
import Mathlib.Logic.Function.Basic

namespace Canari.Minesweeper

open Lib Lib.CountSearch

inductive CellState
  | hidden
  | revealed
  | flagged
  deriving DecidableEq

structure Cell where
  mine : Bool
  adjacent : Nat
  state : CellState

inductive GameStatus
  | playing
  | won
  | lost
  deriving DecidableEq

/-- A board as it is played, or a `SolveState`, which has no `minesPlaced`. -/
structure Board where
  width : Nat
  height : Nat
  mineCount : Nat
  cells : List Cell
  status : GameStatus
  minesPlaced : Option Bool
  revealedCount : Nat
  flagCount : Nat

def NEIGHBOR_DELTAS : List (Int × Int) := [(-1, -1), (-1, 0), (-1, 1), (0, -1), (0, 1), (1, -1), (1, 0), (1, 1)]

/-- `neighborTable(board)[i]`: the neighbours of a cell that are on the board, in the order of the deltas. -/
def neighborTable (width height i : Nat) : List Nat :=
  NEIGHBOR_DELTAS.filterMap fun (dy, dx) =>
    let nx : Int := (i % width : Nat) + dx
    let ny : Int := (i / width : Nat) + dy
    if 0 ≤ nx ∧ 0 ≤ ny ∧ nx < width ∧ ny < height then some (ny * width + nx).toNat else none

namespace Board

variable (b : Board) (i : Nat)

def neighbors : List Nat := neighborTable b.width b.height i

def cell : Cell := b.cells.getD i ⟨false, 0, .hidden⟩

def state : CellState := (b.cell i).state

def mine : Bool := (b.cell i).mine

def adjacent : Nat := (b.cell i).adjacent

def indices : List Nat := List.range b.cells.length

def setState (s : CellState) : Board :=
  { b with cells := b.cells.modify i fun c => { c with state := s } }

/-- `cell.state = 'flagged'; board.flagCount++` -/
def flag : Board := { b.setState i .flagged with flagCount := b.flagCount + 1 }

/-- `cell.state = 'revealed'; board.revealedCount++` -/
def reveal : Board := { b.setState i .revealed with revealedCount := b.revealedCount + 1 }

def numbered : Bool := b.state i = .revealed && b.adjacent i ≠ 0

def flaggedAround : Nat := (b.neighbors i).countP fun n => b.state n = .flagged

def hiddenAround : List Nat := (b.neighbors i).filter fun n => b.state n = .hidden

/-- The loop of `revealFlood`, with the top of the stack first. A cell is known by its index, which
    its two coordinates give back. -/
def flood : Nat → List Nat → Board → Board
  | 0, _, b => b
  | _, [], b => b
  | fuel + 1, i :: stack, b =>
    if b.state i ≠ .hidden then flood fuel stack b
    else
      let b' := b.reveal i
      if b'.adjacent i = 0 ∧ b'.mine i = false then flood fuel ((b'.hiddenAround i).reverse ++ stack) b'
      else flood fuel stack b'

/-- A cell is pushed at most once for each cell revealed beside it, and there are at most eight. -/
def revealFlood : Board := flood (9 * b.cells.length + 1) [i] b

def isWon : Bool := b.revealedCount ≥ b.cells.length - b.mineCount

def checkWin : Board :=
  if !b.isWon then b
  else b.indices.foldl (fun b i => if b.mine i && b.state i = .hidden then b.flag i else b) { b with status := .won }

end Board

/-! ## One number at a time -/

/-- A loop over the board: the board, whether it changed, and whether the loop has returned. -/
structure Pass where
  board : Board
  changed : Bool
  stop : Bool

namespace Pass

def flagHidden (s : Pass) (n : Nat) : Pass :=
  if s.board.state n ≠ .hidden then s else { s with board := s.board.flag n, changed := true }

/-- Opening a cell the solver takes for safe; a mine ends the game, shown or not. -/
def openSafe (shown : Bool) (s : Pass) (n : Nat) : Pass :=
  if s.stop then s
  else if s.board.state n ≠ .hidden then s
  else if s.board.mine n then
    ⟨{ (if shown then s.board.reveal n else s.board) with status := .lost }, true, true⟩
  else { s with board := s.board.revealFlood n, changed := true }

def flagAround (s : Pass) (i : Nat) : Pass :=
  if !s.board.numbered i then s
  else
    let remaining : Int := s.board.adjacent i - s.board.flaggedAround i
    if remaining ≤ 0 ∨ remaining ≠ (s.board.hiddenAround i).length then s
    else (s.board.neighbors i).foldl flagHidden s

def openAround (s : Pass) (i : Nat) : Pass :=
  if s.stop then s
  else if !s.board.numbered i then s
  else if s.board.flaggedAround i ≠ s.board.adjacent i ∨ (s.board.hiddenAround i).length = 0 then s
  else (s.board.neighbors i).foldl (openSafe true) s

end Pass

/-- `while (changed && guard < 200)` -/
def autoFlagLoop : Nat → Board → Bool → Board × Bool
  | 0, b, any => (b, any)
  | guard + 1, b, any =>
    let pass := b.indices.foldl Pass.flagAround ⟨b, false, false⟩
    if pass.changed then autoFlagLoop guard pass.board true else (pass.board, any)

def applyAutoFlags (b : Board) : Board × Bool := autoFlagLoop 200 b false

def applyBasicAssists (b : Board) : Board × Bool :=
  let flags := applyAutoFlags b
  let pass := flags.1.indices.foldl Pass.openAround ⟨flags.1, flags.2, false⟩
  (pass.board, pass.changed)

/-! ## The numbers together -/

structure Constraint where
  vars : List Nat
  count : Int

structure Collected where
  constraints : List Constraint
  frontier : List Nat
  sea : List Nat

def constraintOf (b : Board) (i : Nat) : Option Constraint :=
  let vars := b.hiddenAround i
  let count : Int := b.adjacent i - b.flaggedAround i
  if vars.length = 0 then none
  else if count < 0 ∨ count > vars.length then none
  else some ⟨vars, count⟩

def collectConstraints (b : Board) : Collected :=
  let numbers := b.indices.filter b.numbered
  let frontier := (numbers.flatMap b.hiddenAround).eraseDups
  ⟨numbers.filterMap (constraintOf b), frontier, b.indices.filter fun i => b.state i = .hidden && i ∉ frontier⟩

/-- `while (p !== parent.get(p)) p = parent.get(p)` -/
def climb : Nat → (Nat → Nat) → Nat → Nat
  | 0, _, p => p
  | fuel + 1, parent, p => if p ≠ parent p then climb fuel parent (parent p) else p

def find (fuel : Nat) (parent : Nat → Nat) (a : Nat) : Nat × (Nat → Nat) :=
  let p := climb fuel parent (parent a)
  (p, Function.update parent a p)

def union (fuel : Nat) (parent : Nat → Nat) (a b : Nat) : Nat → Nat :=
  let ra := find fuel parent a
  let rb := find fuel ra.2 b
  if ra.1 ≠ rb.1 then Function.update rb.2 ra.1 rb.1 else rb.2

def joinConstraint (fuel : Nat) (parent : Nat → Nat) (c : Constraint) : Nat → Nat :=
  match c.vars with
  | [] => parent
  | first :: rest => rest.foldl (fun parent v => union fuel parent first v) parent

def addToGroup (fuel : Nat) (s : (Nat → Nat) × JsMap Nat (List Nat)) (v : Nat) : (Nat → Nat) × JsMap Nat (List Nat) :=
  let root := find fuel s.1 v
  (root.2, s.2.set root.1 ((s.2.get root.1).getD [] ++ [v]))

/-- The frontier split into components linked by shared constraints. A chain of parents is no longer than
    the frontier. -/
def frontierComponents (constraints : List Constraint) (frontier : List Nat) : List (List Nat) :=
  let parent := constraints.foldl (joinConstraint frontier.length) id
  (frontier.foldl (addToGroup frontier.length) (parent, JsMap.empty)).2.values

def MAX_CSP_VARS : Nat := 16

def exactConstraints (vars : List Nat) (constraints : List Constraint) : List Constraint :=
  constraints.filter fun c => c.vars.all fun v => v ∈ vars

/-- The placements of mines on `vars` that the search finds, as one mark for each of them. An equation is
    looked at each time it names the cell; the last look is the strictest, and is the one kept here. -/
def placements (vars : List Nat) (exact : List Constraint) (remainingMinesAfterFlags : Int) (seaSize : Nat)
    (useGlobalMineBounds : Bool) :
    List (List Bool) :=
  let maxMines : Int := if useGlobalMineBounds then min vars.length remainingMinesAfterFlags else vars.length
  let minMines : Int := if useGlobalMineBounds then max 0 (remainingMinesAfterFlags - seaSize) else 0
  search minMines maxMines vars (exact.map fun c => ⟨c.vars, c.count, 0, c.vars.length⟩) 0 []

def seenMine (found : List (List Bool)) (k : Nat) : Bool := found.any fun assignment => assignment.getD k false

def seenSafe (found : List (List Bool)) (k : Nat) : Bool := found.any fun assignment => !assignment.getD k true

/-- What all the placements found agree on: the forced mines and the forced safe cells. -/
def deduceForced (vars : List Nat) (constraints : List Constraint) (remainingMinesAfterFlags : Int) (seaSize : Nat)
    (useGlobalMineBounds : Bool) :
    List Nat × List Nat :=
  let exact := exactConstraints vars constraints
  if vars.length = 0 ∨ vars.length > MAX_CSP_VARS then ([], [])
  else if !useGlobalMineBounds && exact.length = 0 then ([], [])
  else
    let found := placements vars exact remainingMinesAfterFlags seaSize useGlobalMineBounds
    if found = [] then ([], [])
    else
      ((vars.zipIdx.filter fun v => !seenSafe found v.2).map Prod.fst,
        (vars.zipIdx.filter fun v => seenSafe found v.2 && !seenMine found v.2).map Prod.fst)

/-- `applyForced`, which starts with `local = false`. -/
def applyForced (b : Board) (forced : List Nat × List Nat) : Pass :=
  forced.2.foldl (Pass.openSafe false) (forced.1.foldl Pass.flagHidden ⟨b, false, false⟩)

def applyComponent (collected : Collected) (remaining maxVars : Int) (s : Pass) (component : List Nat) : Pass :=
  if s.stop then s
  else if component.length > maxVars then s
  else
    let forced := deduceForced component collected.constraints remaining collected.sea.length
      (component.length = collected.frontier.length)
    let pass := applyForced s.board forced
    ⟨pass.board, s.changed || pass.changed, pass.board.status = .lost⟩

def applyCspAssists (b : Board) (maxVars : Int) : Board × Bool :=
  let collected := collectConstraints b
  if collected.frontier.length = 0 ∧ collected.sea.length = 0 then (b, false)
  else
    let remaining : Int := b.mineCount - b.flagCount
    let pass : Pass :=
      -- Sea-only certainty when nothing remains on the numbered frontier.
      if collected.frontier.length = 0 then
        if remaining = 0 then collected.sea.foldl (Pass.openSafe false) ⟨b, false, false⟩
        else if remaining = collected.sea.length ∧
          collected.sea.length > 0 then collected.sea.foldl Pass.flagHidden ⟨b, false, false⟩
        else ⟨b, false, false⟩
      else (frontierComponents collected.constraints collected.frontier).foldl
        (applyComponent collected remaining maxVars) ⟨b, false, false⟩
    (pass.board, pass.changed || pass.stop)

/-- `while (changed && board.status === 'playing' && guard < 400)` -/
def assistLoop (maxCspVars : Int) : Nat → Board → Board
  | 0, b => b
  | guard + 1, b =>
    if b.status ≠ .playing then b
    else
      let basic := applyBasicAssists b
      if basic.1.status ≠ .playing then basic.1
      else
        let csp := applyCspAssists basic.1 maxCspVars
        if basic.2 || csp.2 then assistLoop maxCspVars guard csp.1 else csp.1

def runAutoAssists (b : Board) (maxCspVars : Int) : Board :=
  if b.status ≠ .playing then b
  else if b.minesPlaced = some false then b
  else
    let done := assistLoop maxCspVars 400 b
    if b.minesPlaced.isSome ∧ done.status = .playing then done.checkWin else done

end Canari.Minesweeper
