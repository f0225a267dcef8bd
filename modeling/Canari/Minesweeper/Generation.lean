/-
  Canari.Minesweeper.Generation — how the mines are laid at the first dig
  (`placeMines` in `social-service/src/minesweeper/engine/game.ts`).

  A layout is drawn with the first cell and its neighbours kept free. The solver plays it from
  there; where it is stuck, mines are moved: a set of cells beside a number is filled or emptied by
  swaps with cells outside it (`tathamPerturb`), or the mines of every cell the solver has not
  decided are drawn again (`perturbUnknownMines`). After too little progress a new layout is
  drawn, and after eighty of them the next one is taken as it is.

  The draws are a stream. What takes any of them says which one is next.
-/

import Canari.Lib.Draws
import Canari.Minesweeper.Board
import Mathlib.Data.List.Dedup
import Mathlib.Data.List.Sort

namespace Canari.Minesweeper

open Lib.Draws

structure MinesweeperConfig where
  width : Nat
  height : Nat
  mineCount : Int

def createBoard (config : MinesweeperConfig) : Board where
  width := config.width
  height := config.height
  mineCount := (max 1 (min config.mineCount ((config.width * config.height : Nat) - 1))).toNat
  cells := List.replicate (config.width * config.height) ⟨false, 0, .hidden⟩
  status := .playing
  minesPlaced := some false
  revealedCount := 0
  flagCount := 0

namespace Board

def safeZone (b : Board) (safeIndex : Nat) : List Nat := safeIndex :: b.neighbors safeIndex

def outside (b : Board) (safeIndex : Nat) : List Nat := b.indices.filter fun i => i ∉ b.safeZone safeIndex

def setMine (b : Board) (i : Nat) (mine : Bool) : Board :=
  { b with cells := b.cells.modify i fun c => { c with mine := mine } }

def clearMineLayout (b : Board) : Board :=
    { b with cells := b.cells.map fun c => { c with mine := false, adjacent := 0 } }

def computeAdjacents (b : Board) : Board :=
  { b with cells := b.cells.mapIdx fun i c => { c with adjacent := if c.mine then 0 else (b.neighbors i).countP b.mine } }

end Board

/-! ## A layout drawn at random -/

section Drawn

variable (draws : Generator)

/-- `for (let m = 0; m < board.mineCount && candidates.length > 0; m++)`; `next` is the next draw. -/
def layMines : Nat → List Nat → Board → Nat → Board × Nat
  | 0, _, b, next => (b, next)
  | m + 1, candidates, b, next =>
    if candidates.length = 0 then (b, next)
    else
      let p := pick (draws next) candidates.length
      layMines m (candidates.eraseIdx p) (b.setMine (candidates.getD p 0) true) (next + 1)

def placeMinesRandom (b : Board) (safeIndex next : Nat) : Board × Nat :=
  let b := b.clearMineLayout
  let laid := layMines draws b.mineCount (b.outside safeIndex) b next
  (laid.1.computeAdjacents, laid.2)

end Drawn

/-! ## How far the solver gets -/

def cloneSolveState (b : Board) : Board :=
  { b with
    cells := b.cells.map fun c => { c with state := .hidden }
    status := .playing
    minesPlaced := none
    revealedCount := 0
    flagCount := 0 }

structure SolveProgress where
  won : Bool
  lost : Bool
  revealedCount : Nat
  knownEmpty : List Nat
  knownMines : List Nat
  stuckSets : List (List Nat)

def stuckSetsOf (b sim : Board) : List (List Nat) :=
  let sets := (collectConstraints sim).constraints.map Constraint.vars
  let mixed := sets.filter fun vars => vars.countP b.mine > 0 && decide (vars.countP b.mine < vars.length)
  if mixed.length = 0 then sets.filter fun vars => decide (vars.length > 0) else mixed

def solveUntilStuck (b : Board) (startIndex : Nat) (maxCspVars : Int) : SolveProgress :=
  let sim := cloneSolveState b
  if sim.mine startIndex then ⟨false, true, 0, [], [], []⟩
  else
    let sim := runAutoAssists (sim.revealFlood startIndex) maxCspVars
    let won := sim.status ≠ .lost && sim.isWon
    let lost := sim.status = .lost
    { won := won
      lost := lost
      revealedCount := sim.revealedCount
      knownEmpty := sim.indices.filter fun i => sim.state i = .revealed
      knownMines := sim.indices.filter fun i => sim.state i = .flagged
      stuckSets := if !won && !lost then stuckSetsOf b sim else [] }

/-! ## Moving mines -/

structure Cand where
  index : Nat
  type : Nat
  rand : Draw

def Cand.le (a b : Cand) : Bool := a.type < b.type || (a.type = b.type && a.rand.le b.rand)

/-- The cells outside the set to swap with, taken until either kind is as many as it is needed. -/
def gather (b : Board) (nfull nempty : Nat) : List Cand → List Nat → List Nat → List Nat × List Nat
  | [], tofill, toempty => (tofill, toempty)
  | c :: rest, tofill, toempty =>
    let tofill := if b.mine c.index then tofill else tofill ++ [c.index]
    let toempty := if b.mine c.index then toempty ++ [c.index] else toempty
    if tofill.length = nfull ∨
      toempty.length = nempty then (tofill, toempty) else gather b nfull nempty rest tofill toempty

section Perturb

variable (draws : Generator)

/-- The cells whose content changes, with what they become: `delta > 0` is a mine. -/
def changesOf (b : Board) (setCells tofill toempty : List Nat)
    (nfull nempty next : Nat) : Option (List (Nat × Bool)) × Nat :=
  if tofill.length = nfull ∧ nfull > 0 then
    (some (tofill.map (·, true) ++ (setCells.filter b.mine).map (·, false)), next)
  else if toempty.length = nempty ∧ nempty > 0 then
    (some (toempty.map (·, false) ++ (setCells.filter fun i => !b.mine i).map (·, true)), next)
  else if toempty.length > 0 ∧ nempty > toempty.length then
    let empties := shuffleInPlace draws (setCells.filter fun i => !b.mine i) next
    (some ((toempty.zip empties.1).flatMap fun p => [(p.1, false), (p.2, true)]), empties.2)
  else (none, next)

/-- The cells to fill or to empty: `targetSet` for those beside a number, none for all the solver has
    not decided. -/
def setCellsOf (b : Board) (safeIndex : Nat) (known : List Nat) : Option (List Nat) → List Nat
  | some (v :: vs) => (v :: vs).filter fun i => i ∉ b.safeZone safeIndex
  | _ => b.indices.filter fun i => i ∉ b.safeZone safeIndex ∧ i ∉ known

/-- The cells to swap with, each with a draw of its own: those beside a decided cell first, those
    already decided last. -/
def candidatesOf (b : Board) (safeIndex : Nat) (known setCells : List Nat) (next : Nat) : List Cand :=
  (b.indices.filter fun i => i ∉ b.safeZone safeIndex ∧ i ∉ setCells).mapIdx fun k i =>
    ⟨i, if i ∈ known then 3 else if (b.neighbors i).any fun n => decide (n ∈ known) then 1 else 2, draws (next + k)⟩

def tathamPerturb (b : Board) (safeIndex : Nat) (knownEmpty knownMines : List Nat) (targetSet : Option (List Nat))
    (next : Nat) :
    Option Board × Nat :=
  let known := knownEmpty ++ knownMines
  let setCells := setCellsOf b safeIndex known targetSet
  if setCells.length = 0 then (none, next)
  else
    let nfull := setCells.countP b.mine
    let nempty := setCells.countP fun i => !b.mine i
    if nfull = 0 ∧ nempty = 0 then (none, next)
    else
      let candidates := candidatesOf draws b safeIndex known setCells next
      let swaps := gather b nfull nempty (candidates.insertionSort fun c d => c.le d = true) [] []
      let changes := changesOf draws b setCells swaps.1 swaps.2 nfull nempty (next + candidates.length)
      match changes.1 with
      | none => (none, changes.2)
      | some cs =>
        -- The whole plan is checked before anything is moved.
        if cs.length = 0 ∨ cs.any fun c => b.mine c.1 == c.2 then (none, changes.2)
        else (some (cs.foldl (fun b c => b.setMine c.1 c.2) b).computeAdjacents, changes.2)

/-- The undecided cells emptied, the others set as they are known to be, and the mines drawn laid. -/
def redraw (b : Board) (flexible lockedMine lockedEmpty drawn : List Nat) : Board :=
  let b := flexible.foldl (fun b i => b.setMine i false) b
  let b := lockedMine.foldl (fun b i => b.setMine i true) b
  let b := lockedEmpty.foldl (fun b i => b.setMine i false) b
  drawn.foldl (fun b i => b.setMine i true) b

def perturbUnknownMines (b : Board) (safeIndex : Nat) (knownEmpty knownMines : List Nat)
    (next : Nat) : Option Board × Nat :=
  let lockedEmpty := b.safeZone safeIndex ++ knownEmpty
  let lockedMine := knownMines.dedup
  let flexible := b.indices.filter fun i => i ∉ lockedEmpty ∧ i ∉ lockedMine
  let minesNeeded : Int := b.mineCount - lockedMine.length
  if minesNeeded < 0 ∨ minesNeeded > flexible.length then (none, next)
  else
    let shuffled := shuffleInPlace draws flexible next
    (some (redraw b flexible lockedMine lockedEmpty (shuffled.1.take minesNeeded.toNat)).computeAdjacents, shuffled.2)

end Perturb

/-! ## The loop -/

def MAX_GENERATION_RESTARTS : Nat := 80
def MAX_PERTURBATIONS : Nat := 200
def BIG_PERTURB_AFTER : Nat := 40
def GENERATION_CSP_VARS : Int := 12

section Loop

variable (draws : Generator)

/-- One attempt to move mines: a set the solver is stuck on, then, where that is allowed, all it has
    not decided. -/
def perturb (b : Board) (safeIndex : Nat) (progress : SolveProgress) (allowBig : Bool)
    (next : Nat) : Option Board × Nat :=
  let small : Option Board × Nat :=
    if progress.stuckSets.length > 0 then
      let set := progress.stuckSets.getD (pick (draws next) progress.stuckSets.length) []
      tathamPerturb draws b safeIndex progress.knownEmpty progress.knownMines (some set) (next + 1)
    else (none, next)
  if small.1.isSome ∨ ¬ allowBig then small
  else
    let big := tathamPerturb draws b safeIndex progress.knownEmpty progress.knownMines none small.2
    if big.1.isSome then big else perturbUnknownMines draws b safeIndex progress.knownEmpty progress.knownMines big.2

structure Steps where
  board : Board
  next : Nat
  solved : Bool

/-- `for (let step = 0; step < MAX_PERTURBATIONS; step++)`, with the steps that are left. -/
def stepLoop (safeIndex restart : Nat) : Nat → Board → Nat → (localFails bestRevealed stagnant : Nat) → Steps
  | 0, b, next, _, _, _ => ⟨b, next, false⟩
  | left + 1, b, next, localFails, bestRevealed, stagnant =>
    let step := MAX_PERTURBATIONS - (left + 1)
    let progress := solveUntilStuck b safeIndex GENERATION_CSP_VARS
    if progress.won && (solveUntilStuck b safeIndex MAX_CSP_VARS).won then ⟨b, next, true⟩
    else if progress.lost then ⟨b, next, false⟩
    else
      let better := progress.revealedCount > bestRevealed
      let bestRevealed := if better then progress.revealedCount else bestRevealed
      let stagnant := if better then 0 else stagnant + 1
      if stagnant ≥ 24 then ⟨b, next, false⟩
      else
        let allowBig := restart ≥ 2 || localFails ≥ BIG_PERTURB_AFTER || step ≥ BIG_PERTURB_AFTER
        let moved := perturb draws b safeIndex progress allowBig next
        match moved.1 with
        | some b => stepLoop safeIndex restart left b moved.2 0 bestRevealed stagnant
        | none =>
          if localFails + 1 > 8 then ⟨b, moved.2, false⟩
          else stepLoop safeIndex restart left b moved.2 (localFails + 1) bestRevealed stagnant

/-- `for (let restart = 0; restart < MAX_GENERATION_RESTARTS; restart++)`, with the restarts that are left. -/
def restartLoop (safeIndex : Nat) : Nat → Board → Nat → Board × Nat
  | 0, b, next => placeMinesRandom draws b safeIndex next
  | left + 1, b, next =>
    let drawn := placeMinesRandom draws b safeIndex next
    let steps := stepLoop draws safeIndex (MAX_GENERATION_RESTARTS - (left + 1)) MAX_PERTURBATIONS drawn.1 drawn.2 0 0 0
    if steps.solved then (steps.board, steps.next) else restartLoop safeIndex left steps.board steps.next

def placeMines (b : Board) (safeIndex next : Nat) : Board × Nat :=
  let laid := restartLoop draws safeIndex MAX_GENERATION_RESTARTS b next
  ({ laid.1 with minesPlaced := some true }, laid.2)

end Loop

end Canari.Minesweeper
