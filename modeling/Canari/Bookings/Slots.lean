/-
  Canari.Bookings.Slots — the slots of a resource, computed from its availability lines.

  Each line gives, on every local date it applies to and no exception removes, a piece in UTC. In a
  step space the pieces of one date are united and cut into steps; in a slots space each distinct
  piece is a slot. A window that ends at 24:00 takes in the next date's tail, one that starts at
  00:00 and ends before 24:00, so it crosses at most one midnight and belongs to the date it starts
  on. `checkRangeShape` says whether a range is a bookable shape of the windows it is given, and
  `datesAround` for which local dates these have to be built.
-/

import Canari.Bookings.ZonedTime
import Mathlib.Data.List.Basic

namespace Canari.Bookings.Slots

open Bookings.ZonedTime

def MINUTE_MS : Int := 60000

inductive BookingSlotMode
  | step
  | slots
  deriving DecidableEq

structure SlotConfig where
  slotMode : BookingSlotMode
  stepMinutes : Option Int
  maxSteps : Option Int

/-- An availability line as stored, its times in seconds: 86400 is `24:00`. -/
structure AvailabilityLine where
  weekday : Option Int
  onDate : Option Int
  startTime : Int
  endTime : Int

structure AvailabilityException where
  fromDate : Int
  toDate : Int

structure Range where
  startMs : Int
  endMs : Int
  deriving DecidableEq

structure Window extends Range where
  date : Int
  deriving DecidableEq

structure Piece extends Window where
  startTime : Int
  endTime : Int
  deriving DecidableEq

/-- `sort((x, y) => x.startMs - y.startMs || x.endMs - y.endMs)` -/
def sooner (x y : Range) : Prop := x.startMs < y.startMs ∨ x.startMs = y.startMs ∧ x.endMs ≤ y.endMs

instance : DecidableRel sooner := fun x y =>
  inferInstanceAs (Decidable (x.startMs < y.startMs ∨ x.startMs = y.startMs ∧ x.endMs ≤ y.endMs))

def isMidnightEnd (time : Int) : Bool := time = 86400

def isMidnightStart (time : Int) : Bool := time = 0

def excluded (date : Int) (exceptions : List AvailabilityException) : Bool :=
  exceptions.any fun e => e.fromDate ≤ date && date ≤ e.toDate

/-- The ISO weekday of a date: day 0, the first of January 1970, was a Thursday. -/
def isoWeekday (date : Int) : Int := (date + 3) % 7 + 1

def AvailabilityLine.appliesOn (line : AvailabilityLine) (date : Int) : Bool :=
  match line.onDate with
  | some onDate => onDate = date
  | none => line.weekday = some (isoWeekday date)

section

variable (z : Zone) (config : SlotConfig) (lines : List AvailabilityLine) (exceptions : List AvailabilityException)

def pieceOn (date : Int) (line : AvailabilityLine) : Option Piece :=
  let startMs := z.zonedToUtcMs date line.startTime
  let endMs := z.zonedToUtcMs date line.endTime
  -- A line inside a spring-forward gap can collapse to nothing: no piece, rather than a reversed one.
  if endMs ≤ startMs then none
  else some ⟨⟨⟨startMs, endMs⟩, date⟩, line.startTime, line.endTime⟩

def piecesOn (date : Int) : List Piece :=
  if excluded date exceptions then []
  else ((lines.filter fun line => line.appliesOn date).filterMap (pieceOn z date)).insertionSort fun x y =>
    sooner x.toRange y.toRange

/-- One turn of the loop over the pieces of a date: `out` with its last window first, and the keys `seen`. -/
def addPiece (s : List Piece × List Range) (p : Piece) : List Piece × List Range :=
  let push := if p.toRange ∈ s.2 then s else (p :: s.1, p.toRange :: s.2)
  match s.1 with
  | last :: rest =>
    if config.slotMode = .step ∧ p.startMs ≤ last.endMs then
      if p.endMs > last.endMs then ({ last with endMs := p.endMs, endTime := p.endTime } :: rest, s.2) else s
    else push
  | [] => push

def dayWindows (date : Int) : List Piece :=
  ((piecesOn z lines exceptions date).foldl (addPiece config) ([], [])).1.reverse

def isTail (w : Piece) : Bool := isMidnightStart w.startTime && !isMidnightEnd w.endTime

/-- The first window of `day` ending at 24:00 and the first tail of `next` starting at that instant. -/
def midnightJoin (day next : List Piece) : Option (Piece × Piece) :=
  day.findSome? fun head =>
    if isMidnightEnd head.endTime then (next.find? fun n => isTail n && n.startMs = head.endMs).map fun tail =>
      (head, tail) else none

/-- The windows that belong to one date, decided from itself and its two neighbours. -/
def windowsOn (date : Int) : List Window :=
  let windowsOf := dayWindows z config lines exceptions
  let swallowed := (midnightJoin (windowsOf (date - 1)) (windowsOf date)).map Prod.snd
  let extended := midnightJoin (windowsOf date) (windowsOf (date + 1))
  (windowsOf date).filterMap fun w =>
    if some w = swallowed then none
    else some ⟨⟨w.startMs, match extended with
      | some (head, tail) => if head = w then tail.endMs else w.endMs
      | none => w.endMs⟩, date⟩

/-- Every date from `from` to `to`, both included. -/
def datesBetween (lo hi : Int) : List Int := (List.range (hi - lo + 1).toNat).map fun k : ℕ => lo + k

/-- The windows, or slots, of one resource whose local start date is between two dates. -/
def availabilityWindows (lo hi : Int) : List Window :=
  ((datesBetween lo hi).flatMap (windowsOn z config lines exceptions)).insertionSort fun x y =>
    sooner x.toRange y.toRange

end

/-! ## Units and ranges -/

variable (config : SlotConfig)

def SlotConfig.stepMs : Int := config.stepMinutes.getD 0 * MINUTE_MS

def stepsOf (step : Int) (w : Window) : List Window :=
  (List.range ((w.endMs - w.startMs) / step).toNat).map fun k : ℕ =>
    ⟨⟨w.startMs + k * step, w.startMs + k * step + step⟩, w.date⟩

/-- The bookable units of the windows: the steps of a step space, or the slots themselves. -/
def slotUnits (windows : List Window) : List Window :=
  match config.slotMode with
  | .slots => windows
  | .step => if config.stepMs ≤ 0 then [] else windows.flatMap (stepsOf config.stepMs)

inductive RangeRefusal
  | outsideAvailability
  | misaligned
  | tooManySteps
  deriving DecidableEq

/-- The loop of `insideOneOpening` over the sorted windows, `reach` being how far the opening goes. -/
def reaches (range : Range) : Option Int → List Range → Bool
  | _, [] => false
  | reach, w :: rest =>
    let reach := match reach with
      | none => if w.startMs ≤ range.startMs ∧ range.startMs < w.endMs then some w.endMs else none
      | some r => if w.startMs ≤ r ∧ w.endMs > r then some w.endMs else some r
    match reach with
    | some r => if range.endMs ≤ r then true else reaches range (some r) rest
    | none => reaches range none rest

/-- The range lies inside one run of windows, each starting no later than where the one before ends. -/
def insideOneOpening (windows : List Window) (range : Range) : Bool :=
  reaches range none ((windows.map Window.toRange).insertionSort sooner)

def LONGEST_SLOT_MS : Int := 49 * 60 * MINUTE_MS

def rangeLengthRefusal (range : Range) : Option RangeRefusal :=
  let length := range.endMs - range.startMs
  if ¬ length > 0 then some .misaligned
  else match config.slotMode with
    | .slots => if length > LONGEST_SLOT_MS then some .outsideAvailability else none
    | .step =>
      if config.stepMs ≤ 0 then some .misaligned
      else if length > config.maxSteps.getD 1 * config.stepMs then some .tooManySteps else none

def aligned (step : Int) (starts : List Int) (range : Range) : Bool :=
  (range.endMs - range.startMs) % step = 0 &&
    (List.range ((range.endMs - range.startMs) / step).toNat).all fun k : ℕ => range.startMs + k * step ∈ starts

/-- Whether a range is a bookable shape: one slot exactly, or consecutive steps. -/
def checkRangeShape (windows : List Window) (range : Range) : Option RangeRefusal :=
  match rangeLengthRefusal config range with
  | some refusal => some refusal
  | none =>
    match config.slotMode with
    | .slots => if windows.any fun w => w.startMs = range.startMs && w.endMs = range.endMs then none else some .outsideAvailability
    | .step =>
      if !insideOneOpening windows range then some .outsideAvailability
      else if config.stepMs ≤ 0 then some .misaligned
      else if !aligned config.stepMs ((slotUnits config windows).map fun u => u.startMs) range then some .misaligned
      else none

/-- The local dates whose windows a range may need: from the day before it starts to the day it ends. -/
def datesAround (z : Zone) (range : Range) : Int × Int := (z.localDate range.startMs - 1, z.localDate range.endMs)

end Canari.Bookings.Slots
