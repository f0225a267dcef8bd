/-
  Canari.Bookings.ZonedTime — local wall time in a zone, and UTC instants.

  A zone is read through `Intl`, which shows the wall clock of an instant to the second: that is the
  one parameter here. What is asked of it: its offset is under a day, a change moves it by at most
  a day, and there is at most one change in any three days. A local date is the number of its day,
  a wall time the second of its day, `24:00` being 86400, and both together a wall: the milliseconds
  they would be in UTC.

  Around a change at `T` from `o₁` to `o₂` a wall `w` is `w - o₁` before the change and in the gap,
  and `w - o₂` after it; one shown twice is the earlier (`utcOf_eq`).
-/

import Mathlib.Data.List.Sort
import Mathlib.Data.List.Dedup
import Mathlib.Data.Int.Order.Basic

namespace Canari.Bookings.ZonedTime

def DAY_MS : Int := 86400000

/-- `instantMs` without its milliseconds. -/
def whole (instantMs : Int) : Int := instantMs - instantMs % 1000

/-- The zone's offset between two instants: `o₁` before `T` and `o₂` from it on. -/
structure Changes (offset : Int → Int) (lo hi T o₁ o₂ : Int) : Prop where
  before : -DAY_MS < o₁ ∧ o₁ < DAY_MS
  after : -DAY_MS < o₂ ∧ o₂ < DAY_MS
  size : o₁ - o₂ ≤ DAY_MS ∧ o₂ - o₁ ≤ DAY_MS
  offset : ∀ x, lo ≤ x → x ≤ hi → offset x = if x < T then o₁ else o₂

variable (wallClockMs : Int → Int)

def offsetMs (instantMs : Int) : Int := wallClockMs (whole instantMs) - whole instantMs

/-- The UTC instant of a wall, as `Temporal`'s `compatible` disambiguation has it. -/
def utcOf (wall : Int) : Int :=
  let before := offsetMs wallClockMs (wall - DAY_MS)
  let after := offsetMs wallClockMs (wall + DAY_MS)
  let candidates := ([wall - before, wall - after].dedup.filter
    fun c => c + offsetMs wallClockMs c = wall).insertionSort (· ≤ ·)
  match candidates with
  | c :: _ => c
  | [] => wall - before

def zonedToUtcMs (date time : Int) : Int := utcOf wallClockMs (date * DAY_MS + time * 1000)

/-! ## The instant of a wall -/

section

variable {clock : Int → Int} {lo hi T o₁ o₂ wall : Int}

theorem first_candidate (x y : Int) (p : Int → Bool) :
    (match ([x, y].dedup.filter p).insertionSort (· ≤ ·) with
      | c :: _ => c
      | [] => x) = if p x then (if p y then min x y else x) else if p y then y else x := by
  by_cases hxy : x = y
  · subst hxy
    cases hx : p x <;> simp [hx]
  · cases hx : p x <;> cases hy : p y <;> simp [hxy, hx, hy]
    by_cases hle : x ≤ y
    · simp [hle]
    · simp [hle, le_of_not_ge hle]

theorem utcOf_eq (h : Changes (offsetMs clock) lo hi T o₁ o₂) (hlo : lo ≤ wall - DAY_MS) (hhi : wall + DAY_MS ≤ hi) :
    utcOf clock wall = if wall - o₁ < T then wall - o₁ else if T ≤ wall - o₂ then wall - o₂ else wall - o₁ := by
  obtain ⟨hb1, hb2⟩ := h.before
  obtain ⟨ha1, ha2⟩ := h.after
  have hbefore := h.offset (wall - DAY_MS) hlo (by simp only [DAY_MS] at *; omega)
  have hafter := h.offset (wall + DAY_MS) (by simp only [DAY_MS] at *; omega) hhi
  have hold := h.offset (wall - o₁) (by omega) (by omega)
  have hnew := h.offset (wall - o₂) (by omega) (by omega)
  rw [utcOf, first_candidate, hbefore, hafter]
  rcases lt_or_ge (wall - DAY_MS) T with h1 | h1
  · rcases lt_or_ge (wall + DAY_MS) T with h2 | h2
    · -- The change is still to come.
      have hlt : wall - o₁ < T := by omega
      simp [h1, h2, hlt, hold]
    · -- The change is around the wall.
      simp only [decide_eq_true_eq]
      split_ifs at hold hnew ⊢ <;> omega
  · -- The change has been.
    have hge : ¬ wall + DAY_MS < T := by simp only [DAY_MS] at *; omega
    have hlt : ¬ wall - o₁ < T := by omega
    have hlt' : ¬ wall - o₂ < T := by omega
    simp [not_lt.mpr h1, hge, hlt, not_lt.mp hlt', hnew]

end

/-! ## Zones -/

structure Zone where
  wallClockMs : Int → Int
  resolution : ∀ t, wallClockMs t = wallClockMs (whole t)
  seconds : ∀ t, wallClockMs t % 1000 = 0
  /-- At most one change of the offset in any three days. -/
  oneChange : ∀ t, ∃ T o₁ o₂, Changes (fun x => wallClockMs (whole x) - whole x) t (t + 3 * DAY_MS) T o₁ o₂

namespace Zone

def offsetMs (z : Zone) (instantMs : Int) : Int := ZonedTime.offsetMs z.wallClockMs instantMs

def localDate (z : Zone) (instantMs : Int) : Int := z.wallClockMs instantMs / DAY_MS

def utcOf (z : Zone) (wall : Int) : Int := ZonedTime.utcOf z.wallClockMs wall

def zonedToUtcMs (z : Zone) (date time : Int) : Int := z.utcOf (date * DAY_MS + time * 1000)

variable (z : Zone)

theorem localDate_eq (t : Int) : z.localDate t = (t + z.offsetMs t) / DAY_MS := by
  have hs := z.seconds (whole t)
  rw [localDate, offsetMs, ZonedTime.offsetMs, z.resolution t]
  simp only [whole, DAY_MS] at *
  omega

theorem changes (t : Int) : ∃ T o₁ o₂, Changes z.offsetMs t (t + 3 * DAY_MS) T o₁ o₂ := z.oneChange t

theorem utcOf_eq {lo hi T o₁ o₂ wall : Int} (h : Changes z.offsetMs lo hi T o₁ o₂) (hlo : lo ≤ wall - DAY_MS)
    (hhi : wall + DAY_MS ≤ hi) :
    z.utcOf wall = if wall - o₁ < T then wall - o₁ else if T ≤ wall - o₂ then wall - o₂ else wall - o₁ :=
  ZonedTime.utcOf_eq h hlo hhi

end Zone

end Canari.Bookings.ZonedTime
