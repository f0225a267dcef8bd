/-
  Canari.Bookings.WallTimes — what `zonedToUtcMs` answers, for any clock around one change.

  The two offsets a day before and a day after the wall are every offset it can have, so the first
  candidate that stands is the first instant the clock shows it, and where neither stands the wall
  is in the gap of the change: read with the offset before it, it lands as far past the change as
  the clock was moved (`zonedToUtcMs_spec`).
-/

import Canari.Bookings.ClockChanges
import Mathlib.Order.Bounds.Defs

namespace Canari.Bookings.ZonedTime

/-- A wall clock as `Intl` shows it: to the second, and less than a day away from UTC. -/
structure Clock where
  wallClockMs : Int → Int
  resolution : ∀ t, wallClockMs t = wallClockMs (whole t)
  seconds : ∀ t, wallClockMs t % 1000 = 0
  bounded : ∀ t, -DAY_MS < offsetMs wallClockMs t ∧ offsetMs wallClockMs t < DAY_MS

namespace Clock

variable (c : Clock)

def ofZone (z : Zone) : Clock := ⟨z.wallClockMs, z.resolution, z.seconds, z.offset_lt⟩

def OneChange (wall : Int) : Prop := ∃ T o₁ o₂, Changes (offsetMs c.wallClockMs) (wall - DAY_MS) (wall + DAY_MS) T o₁ o₂

/-- The clock skips the wall at `T`. -/
structure Skips (wall T : Int) : Prop where
  near : wall - DAY_MS < T ∧ T < wall + DAY_MS
  before : T + offsetMs c.wallClockMs (T - 1) ≤ wall
  after : wall < T + offsetMs c.wallClockMs T

variable {c} {t T o₁ o₂ wall : Int}

theorem shows_iff : c.wallClockMs t = wall ↔ whole t + offsetMs c.wallClockMs (whole t) = wall := by
  have hwhole : whole (whole t) = whole t := by simp only [whole]; omega
  rw [offsetMs, hwhole, ← c.resolution t]
  constructor <;> omega

theorem offset_seconds (t : Int) : offsetMs c.wallClockMs t % 1000 = 0 := by
  have hs := c.seconds (whole t)
  simp only [offsetMs, whole] at hs ⊢
  omega

theorem shown_by (h : Changes (offsetMs c.wallClockMs) (wall - DAY_MS) (wall + DAY_MS) T o₁ o₂)
    (ht : c.wallClockMs t = wall) :
    whole t < T ∧ whole t = wall - o₁ ∨ T ≤ whole t ∧ whole t = wall - o₂ := by
  rw [shows_iff] at ht
  have hb := c.bounded (whole t)
  have hoff := h.offset (whole t) (by omega) (by omega)
  split_ifs at hoff <;> omega

theorem whole_le (t : Int) : whole t ≤ t := by
  simp only [whole]
  omega

theorem shows_of_seconds (hwall : wall % 1000 = 0) {o : Int}
    (ho : offsetMs c.wallClockMs (wall - o) = o) : c.wallClockMs (wall - o) = wall := by
  have hs := c.offset_seconds (wall - o)
  have hwhole : whole (wall - o) = wall - o := by simp only [whole]; omega
  rw [shows_iff, hwhole]
  omega

end Clock

/-- The earliest instant that shows the wall time, or, where none does, as far past the gap as the wall is into it. -/
theorem zonedToUtcMs_spec (c : Clock) (date time : Int) (h : c.OneChange (date * DAY_MS + time * 1000)) :
    ((∃ t, c.wallClockMs t = date * DAY_MS + time * 1000) →
      IsLeast {t | c.wallClockMs t = date * DAY_MS + time * 1000} (zonedToUtcMs c.wallClockMs date time)) ∧
    ((∀ t, c.wallClockMs t ≠ date * DAY_MS + time * 1000) → ∃ T, c.Skips (date * DAY_MS + time * 1000) T ∧
      c.wallClockMs (zonedToUtcMs c.wallClockMs date time) =
        date * DAY_MS + time * 1000 + (offsetMs c.wallClockMs T - offsetMs c.wallClockMs (T - 1))) := by
  rw [zonedToUtcMs]
  have hwall : (date * DAY_MS + time * 1000) % 1000 = 0 := by simp only [DAY_MS]; omega
  generalize date * DAY_MS + time * 1000 = wall at h hwall ⊢
  obtain ⟨T, o₁, o₂, h⟩ := h
  have hu := utcOf_eq h le_rfl le_rfl
  obtain ⟨hb1, hb2⟩ := h.before
  obtain ⟨ha1, ha2⟩ := h.after
  rcases lt_or_ge (wall - o₁) T with h1 | h1
  · -- The wall comes before the change.
    rw [if_pos h1] at hu
    have hoff := h.offset (wall - o₁) (by omega) (by omega)
    rw [if_pos h1] at hoff
    have hshown := Clock.shows_of_seconds hwall hoff
    rw [hu]
    refine ⟨fun _ => ⟨hshown, fun t ht => ?_⟩, fun hnone => absurd hshown (hnone _)⟩
    have hle := Clock.whole_le t
    rcases Clock.shown_by h ht with ⟨_, he⟩ | ⟨hT, _⟩ <;> omega
  · rw [if_neg (not_lt.mpr h1)] at hu
    rcases le_or_gt T (wall - o₂) with h2 | h2
    · -- It comes after it.
      rw [if_pos h2] at hu
      have hoff := h.offset (wall - o₂) (by omega) (by omega)
      rw [if_neg (not_lt.mpr h2)] at hoff
      have hshown := Clock.shows_of_seconds hwall hoff
      rw [hu]
      refine ⟨fun _ => ⟨hshown, fun t ht => ?_⟩, fun hnone => absurd hshown (hnone _)⟩
      have hle := Clock.whole_le t
      rcases Clock.shown_by h ht with ⟨hT, he⟩ | ⟨_, he⟩ <;> omega
    · -- The change skips it.
      rw [if_neg (not_le.mpr h2)] at hu
      have hbefore := h.offset (T - 1) (by omega) (by omega)
      have hafter := h.offset T (by omega) (by omega)
      constructor
      · rintro ⟨t, ht⟩
        rcases Clock.shown_by h ht with ⟨hT, he⟩ | ⟨hT, he⟩ <;> omega
      · intro _
        refine ⟨T, ⟨⟨by omega, by omega⟩, by omega, by omega⟩, ?_⟩
        have hs := c.offset_seconds (T - 1)
        have hwhole : whole (wall - o₁) = wall - o₁ := by simp only [whole]; omega
        have hlater := h.offset (wall - o₁) (by omega) (by omega)
        rw [hu, Clock.shows_iff, hwhole, hbefore, hafter]
        omega

theorem paris_one_change (wall : Int) : (Clock.ofZone Zone.paris).OneChange wall := by
  refine ⟨1774746000000, 3600000, 7200000, by decide, by decide, by decide, fun x _ _ => ?_⟩
  simp only [offsetMs, Clock.ofZone, Zone.paris, Zone.turning, whole]
  split_ifs <;> omega

/-- Paris skips 02:30 on March the 29th, 2026: it is read as 03:30. -/
theorem half_past_two_is_moved :
    (∀ t, (Clock.ofZone Zone.paris).wallClockMs t ≠ 20541 * DAY_MS + 9000 * 1000) ∧
      ∃ T, (Clock.ofZone Zone.paris).Skips (20541 * DAY_MS + 9000 * 1000) T ∧
        (Clock.ofZone Zone.paris).wallClockMs (zonedToUtcMs (Clock.ofZone Zone.paris).wallClockMs 20541 9000) =
          20541 * DAY_MS + 9000 * 1000 +
            (offsetMs (Clock.ofZone Zone.paris).wallClockMs T - offsetMs (Clock.ofZone Zone.paris).wallClockMs
              (T - 1)) := by
  have hskipped : ∀ t, (Clock.ofZone Zone.paris).wallClockMs t ≠ 20541 * DAY_MS + 9000 * 1000 := by
    intro t
    simp only [Clock.ofZone, Zone.paris, Zone.turning, whole, DAY_MS]
    split_ifs <;> omega
  exact ⟨hskipped, (zonedToUtcMs_spec _ 20541 9000 (paris_one_change _)).2 hskipped⟩

example : zonedToUtcMs Zone.paris.wallClockMs 20541 9000 = 1774747800000 := by decide

end Canari.Bookings.ZonedTime
