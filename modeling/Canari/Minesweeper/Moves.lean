/-
  Canari.Minesweeper.Moves — what a player does to a board (`revealCell`, `chordCell`, `toggleFlag` in
  `social-service/src/minesweeper/engine/game.ts`), and the replay that a ranked game is
  accepted by (`verifySolve`).

  A game is a board and the next draw; it takes draws only when mines are laid, at its first dig.
  The draws are `Math.random`, or those of `mulberry32` from the seed the server gave out.
-/

import Canari.Lib.Machine
import Canari.Lib.Utf16
import Canari.Minesweeper.Generation

namespace Canari.Minesweeper

open Lib Lib.Draws Lib.Utf16

namespace Board

def inBounds (b : Board) (x y : Int) : Bool :=
    decide (0 ≤ x) && decide (0 ≤ y) && decide (x < b.width) && decide (y < b.height)

def idx (b : Board) (x y : Int) : Nat := (y * b.width + x).toNat

def revealAllMines (b : Board) : Board :=
  b.indices.foldl (fun b i =>
    if b.mine i && b.state i ≠ .flagged then
      if b.state i = .hidden then b.reveal i else b.setState i .revealed
    else b) b

/-- A number whose remaining mines are all its hidden neighbours flags them; one that has its flags opens
    them. A mine it opens ends the loop. -/
def chordCell (b : Board) (x y : Int) : Board :=
  if b.status ≠ .playing || !b.inBounds x y then b
  else
    let i := b.idx x y
    if !b.numbered i then b
    else
      let hiddenCoords := b.hiddenAround i
      let remaining : Int := b.adjacent i - b.flaggedAround i
      if remaining > 0 ∧ remaining = hiddenCoords.length then
        (hiddenCoords.foldl Pass.flagHidden ⟨b, false, false⟩).board
      else if b.flaggedAround i ≠ b.adjacent i ∨ hiddenCoords.length = 0 then b
      else
        let pass := hiddenCoords.foldl (Pass.openSafe true) ⟨b, false, false⟩
        if pass.stop then pass.board.revealAllMines
        else if pass.board.status = .playing then pass.board.checkWin
        else pass.board

def toggleFlag (b : Board) (x y : Int) : Board :=
  if b.status ≠ .playing || !b.inBounds x y then b
  else
    let i := b.idx x y
    match b.state i with
    | .revealed => b
    | .flagged => { b.setState i .hidden with flagCount := b.flagCount - 1 }
    | .hidden => b.flag i

/-- The end of `revealCell`, on a board with its mines. -/
def dig (b : Board) (i : Nat) : Board :=
  if b.mine i then revealAllMines { b.reveal i with status := .lost } else (b.revealFlood i).checkWin

end Board

def revealCell (draws : Generator) (b : Board) (x y : Int) (next : Nat) : Board × Nat :=
  if b.status ≠ .playing || !b.inBounds x y then (b, next)
  else
    let i := b.idx x y
    match b.state i with
    | .flagged => (b, next)
    | .revealed => (b.chordCell x y, next)
    | .hidden =>
      let placed := if b.minesPlaced = some true then (b, next) else placeMines draws b i next
      (placed.1.dig i, placed.2)

/-! ## Games -/

structure Game where
  board : Board
  next : Nat

inductive Move
  | reveal (x y : Int)
  | chord (x y : Int)
  | flag (x y : Int)
  | assists (maxCspVars : Int)

namespace Game

def start (config : MinesweeperConfig) : Game := ⟨createBoard config, 0⟩

def play (draws : Generator) (g : Game) : Move → Game
  | .reveal x y =>
    let dug := revealCell draws g.board x y g.next
    ⟨dug.1, dug.2⟩
  | .chord x y => { g with board := g.board.chordCell x y }
  | .flag x y => { g with board := g.board.toggleFlag x y }
  | .assists maxCspVars => { g with board := runAutoAssists g.board maxCspVars }

end Game

def games (draws : Generator) (config : MinesweeperConfig) : Machine Game Move where
  init g := g = Game.start config
  step g m := some (g.play draws m)

/-! ## The replay -/

def hashSeedToU32 (seed : JsString) : UInt32 := seed.foldl (fun h c => (h ^^^ c.toUInt32) * 16777619) 2166136261

def mulberry32 (seed : UInt32) : Generator := fun n =>
  let t := seed + UInt32.ofNat (n + 1) * 0x6d2b79f5
  let t := (t ^^^ (t >>> 15)) * (t ||| 1)
  let t := t ^^^ (t + (t ^^^ (t >>> 7)) * (t ||| 61))
  let u := t ^^^ (t >>> 14)
  ⟨u.toNat, 32, Nat.lt_trans u.toNat_lt (by decide), u.toNat_lt⟩

/-- `Math.random` where there is no seed. -/
def rngOf (random : Generator)
    (seed : JsString) : Generator := if seed = [] then random else mulberry32 (hashSeedToU32 seed)

inductive MoveType
  | reveal
  | flag
  | other
  deriving DecidableEq

structure MinesweeperMove where
  type : MoveType
  x : Option Int
  y : Option Int

structure Verdict where
  ok : Bool
  status : GameStatus
  reason : Option String

/-- The loop of `verifySolve`: the game it ends with, or the verdict it returns. -/
def replay (draws : Generator) : List MinesweeperMove → Game → Except Verdict Game
  | [], g => .ok g
  | move :: rest, g =>
    if g.board.status ≠ .playing then .ok g
    else
      match move.x, move.y with
      | some x, some y =>
        match move.type with
        | .reveal => replay draws rest (g.play draws (.reveal x y))
        | .flag => replay draws rest (g.play draws (.flag x y))
        | .other => .error ⟨false, g.board.status, some "invalid_move"⟩
      | _, _ => .error ⟨false, g.board.status, some "invalid_coord"⟩

def verdictOf (g : Game) : Verdict :=
  match g.board.status with
  | .won => ⟨true, .won, none⟩
  | .lost => ⟨false, .lost, some "hit_mine"⟩
  | .playing => ⟨false, .playing, some "not_cleared"⟩

def verifySolve (random : Generator) (seed : JsString) (moves : List MinesweeperMove)
    (config : MinesweeperConfig) : Verdict :=
  match moves with
  | [] => ⟨false, .playing, some "no_moves"⟩
  | first :: _ =>
    if first.type ≠ .reveal then ⟨false, .playing, some "first_must_reveal"⟩
    else
      match replay (rngOf random seed) moves (Game.start config) with
      | .error verdict => verdict
      | .ok g => verdictOf g

end Canari.Minesweeper
