/-
  Canari.Bookings.ClockChanges — what a change of the clock does to the walls and dates of a zone.

  Two changes are more than three days less a millisecond apart, so around one the offset is the one
  before it and the one after it (`changes_of_turn`). An instant has the wall it was made from, and
  no earlier one does, or its wall is in the gap of a change and it is that far past the change
  (`utcOf_cases`).

  `Orderly` is what the dates of a zone need to follow its instants: no date starts strictly inside
  a repeated hour, none inside a skipped one or as far after it, and the clock is never set back by
  more than the hour that the longest slot allows for. `MidnightsInOrder` is what its
  midnights need: instants follow walls but from inside a gap (`utcOf_mono_or_gap`), and none is there.
-/

import Canari.Bookings.ZonedTime

namespace Canari.Bookings.ZonedTime.Zone

variable {z : Zone} {T x y wall : Int}

/-! ## Turns of the clock -/

variable (z) in
theorem offset_lt (x : Int) : -DAY_MS < z.offsetMs x ∧ z.offsetMs x < DAY_MS := by
  obtain ⟨T, o₁, o₂, h⟩ := z.changes x
  rw [h.offset x le_rfl (by simp only [DAY_MS]; omega)]
  split_ifs
  · exact h.before
  · exact h.after

variable (z) in
theorem offset_seconds (x : Int) : z.offsetMs x % 1000 = 0 := by
  have h := z.seconds (whole x)
  simp only [offsetMs, ZonedTime.offsetMs, whole] at h ⊢
  omega

theorem turn_seconds (h : z.offsetMs (T - 1) ≠ z.offsetMs T) : T % 1000 = 0 ∧ z.offsetMs (T - 1) % 1000 = 0 ∧
    z.offsetMs T % 1000 = 0 := by
  refine ⟨?_, z.offset_seconds (T - 1), z.offset_seconds T⟩
  by_contra hT
  have hwhole : whole (T - 1) = whole T := by simp only [whole]; omega
  exact h (by rw [offsetMs, offsetMs, ZonedTime.offsetMs, ZonedTime.offsetMs, hwhole])

theorem turn_between (hxy : x < y) (hy : y ≤ x + 3 * DAY_MS) (hne : z.offsetMs x ≠ z.offsetMs y) :
    ∃ T, x < T ∧ T ≤ y ∧ z.offsetMs (T - 1) = z.offsetMs x ∧ z.offsetMs T = z.offsetMs y := by
  obtain ⟨T, o₁, o₂, h⟩ := z.changes x
  have hx' := h.offset x le_rfl (by omega)
  have hy' := h.offset y hxy.le hy
  have hT : x < T ∧ T ≤ y := by
    split_ifs at hx' hy' <;> omega
  have hbefore := h.offset (T - 1) (by omega) (by omega)
  have hafter := h.offset T (by omega) (by omega)
  rw [if_pos (by omega)] at hx' hbefore
  rw [if_neg (by omega)] at hy' hafter
  exact ⟨T, hT.1, hT.2, by rw [hbefore, hx'], by rw [hafter, hy']⟩

theorem changes_of_turn (hne : z.offsetMs (T - 1) ≠ z.offsetMs T) :
    Changes z.offsetMs (T - 3 * DAY_MS) (T - 1 + 3 * DAY_MS) T (z.offsetMs (T - 1)) (z.offsetMs T) := by
  -- The change of any three days that hold the turn is the turn.
  have key : ∀ t, t < T → T ≤ t + 3 * DAY_MS → ∀ x, t ≤ x → x ≤ t + 3 * DAY_MS →
      z.offsetMs x = if x < T then z.offsetMs (T - 1) else z.offsetMs T := by
    intro t h1 h2 x hx1 hx2
    obtain ⟨T', o₁, o₂, h⟩ := z.changes t
    have hbefore := h.offset (T - 1) (by omega) (by omega)
    have hafter := h.offset T (by omega) h2
    have hT : T' = T := by
      split_ifs at hbefore hafter <;> omega
    subst hT
    rw [if_pos (by omega)] at hbefore
    rw [if_neg (by omega)] at hafter
    rw [h.offset x hx1 hx2, hbefore, hafter]
  refine ⟨z.offset_lt _, z.offset_lt _, ?_, fun x hx1 hx2 => ?_⟩
  · obtain ⟨T', o₁, o₂, h⟩ := z.changes (T - 1)
    have hbefore := h.offset (T - 1) le_rfl (by simp only [DAY_MS]; omega)
    have hafter := h.offset T (by omega) (by simp only [DAY_MS]; omega)
    have hsize := h.size
    split_ifs at hbefore hafter <;> omega
  · rcases lt_or_ge x T with hx | hx
    · exact key (T - 3 * DAY_MS) (by simp only [DAY_MS]; omega) (by omega) x hx1 (by omega)
    · exact key (T - 1) (by omega) (by simp only [DAY_MS]; omega) x (by omega) hx2

theorem turn_unique {T' : Int} (hne : z.offsetMs (T - 1) ≠ z.offsetMs T) (hne' : z.offsetMs (T' - 1) ≠ z.offsetMs T')
    (hlo : T - 3 * DAY_MS < T')
    (hhi : T' < T + 3 * DAY_MS) : T' = T := by
  by_contra hneT
  have h3 := (changes_of_turn hne).offset (T' - 1) (by simp only [DAY_MS] at *; omega) (by
    simp only [DAY_MS] at *; omega)
  have h4 := (changes_of_turn hne).offset T' (by simp only [DAY_MS] at *; omega) (by simp only [DAY_MS] at *; omega)
  split_ifs at h3 h4 <;> omega

theorem offset_after_turn (hne : z.offsetMs (T - 1) ≠ z.offsetMs T) (hx : T ≤ x) (hx' : x ≤ T - 1 + 3 * DAY_MS) :
    z.offsetMs x = z.offsetMs T := by
  have h := (changes_of_turn hne).offset x (by simp only [DAY_MS]; omega) hx'
  rwa [if_neg (not_lt.mpr hx)] at h

theorem offset_before_turn (hne : z.offsetMs (T - 1) ≠ z.offsetMs T) (hx : T - 3 * DAY_MS ≤ x) (hx' : x < T) :
    z.offsetMs x = z.offsetMs (T - 1) := by
  have h := (changes_of_turn hne).offset x hx (by simp only [DAY_MS]; omega)
  rwa [if_pos hx'] at h

variable (z wall) in
/-- An instant shows the wall it was made from and no earlier one does, or the wall is in a gap. -/
theorem utcOf_cases :
    (z.utcOf wall + z.offsetMs (z.utcOf wall) = wall ∧ ∀ c < z.utcOf wall, c + z.offsetMs c < wall) ∨
    ∃ T, T + z.offsetMs (T - 1) ≤ wall ∧ wall < T + z.offsetMs T ∧ z.utcOf wall = wall - z.offsetMs (T - 1) := by
  obtain ⟨T, o₁, o₂, h⟩ := z.changes (wall - DAY_MS - 43200000)
  obtain ⟨hb1, hb2⟩ := h.before
  obtain ⟨ha1, ha2⟩ := h.after
  have hu := z.utcOf_eq h (show _ ≤ wall - DAY_MS by omega) (by simp only [DAY_MS]; omega)
  -- Before the three days every wall is an earlier one.
  have hfar : ∀ c, c < wall - DAY_MS - 43200000 → c + z.offsetMs c < wall := by
    intro c hc
    have := (z.offset_lt c).2
    omega
  simp only [DAY_MS] at *
  rcases lt_or_ge (wall - o₁) T with h1 | h1
  · rw [if_pos h1] at hu
    have hat := h.offset (wall - o₁) (by omega) (by omega)
    refine .inl ⟨by rw [hu]; omega, fun c hc => ?_⟩
    by_cases hlo : c < wall - 86400000 - 43200000
    · exact hfar c hlo
    · have hoff := h.offset c (by omega) (by omega)
      omega
  · rw [if_neg (not_lt.mpr h1)] at hu
    rcases le_or_gt T (wall - o₂) with h2 | h2
    · rw [if_pos h2] at hu
      have hat := h.offset (wall - o₂) (by omega) (by omega)
      refine .inl ⟨by rw [hu]; omega, fun c hc => ?_⟩
      by_cases hlo : c < wall - 86400000 - 43200000
      · exact hfar c hlo
      · have hoff := h.offset c (by omega) (by omega)
        split_ifs at hoff <;> omega
    · have hbefore := h.offset (T - 1) (by omega) (by omega)
      have hafter := h.offset T (by omega) (by omega)
      exact .inr ⟨T, by omega, by omega, by omega⟩

theorem utcOf_around (hne : z.offsetMs (T - 1) ≠ z.offsetMs T) (hlo : T - 2 * DAY_MS ≤ wall)
    (hhi : wall ≤ T - 1 + 2 * DAY_MS) :
    z.utcOf wall = if wall - z.offsetMs (T - 1) < T then wall - z.offsetMs (T - 1)
      else if T ≤ wall - z.offsetMs T then wall - z.offsetMs T else wall - z.offsetMs (T - 1) :=
  z.utcOf_eq (changes_of_turn hne) (by omega) (by omega)

/-- Past both walls of a turn a time is read with the new offset. -/
theorem zonedToUtcMs_after (hne : z.offsetMs (T - 1) ≠ z.offsetMs T) (date time : Int)
    (hold : T + z.offsetMs (T - 1) ≤ date * 86400000 + time * 1000)
    (hnew : T + z.offsetMs T ≤ date * 86400000 + time * 1000)
    (hhi : date * 86400000 + time * 1000 ≤ T - 1 + 172800000) :
    z.zonedToUtcMs date time = date * 86400000 + time * 1000 - z.offsetMs T := by
  have hb := z.offset_lt T
  simp only [DAY_MS] at hb
  rw [zonedToUtcMs, DAY_MS, utcOf_around hne (by simp only [DAY_MS]; omega) (by simp only [DAY_MS]; omega),
    if_neg (by omega), if_pos (by omega)]

/-- Before the later of the two it is read with the old one: the gap of a turn forward is, too. -/
theorem zonedToUtcMs_before (hne : z.offsetMs (T - 1) ≠ z.offsetMs T) (date time : Int)
    (hlo : T - 172800000 ≤ date * 86400000 + time * 1000)
    (h : date * 86400000 + time * 1000 < T + z.offsetMs (T - 1) ∨ date * 86400000 + time * 1000 < T + z.offsetMs T) :
    z.zonedToUtcMs date time = date * 86400000 + time * 1000 - z.offsetMs (T - 1) := by
  have hb := z.offset_lt T
  have hb' := z.offset_lt (T - 1)
  simp only [DAY_MS] at hb hb'
  rw [zonedToUtcMs, DAY_MS, utcOf_around hne (by simp only [DAY_MS]; omega) (by simp only [DAY_MS]; omega)]
  split_ifs <;> omega

theorem utcOf_settled (hne : z.offsetMs (T - 1) ≠ z.offsetMs T) (hlo : T ≤ wall - DAY_MS)
    (hhi : wall - z.offsetMs T ≤ T - 1 + 3 * DAY_MS) :
    z.utcOf wall = wall - z.offsetMs T := by
  have hb := z.offset_lt T
  have hb' := z.offset_lt (wall + DAY_MS)
  have hbefore := offset_after_turn hne hlo (by omega)
  have hat := offset_after_turn hne (show T ≤ wall - z.offsetMs T by omega) hhi
  have hfold : ∀ x, ZonedTime.offsetMs z.wallClockMs x = z.offsetMs x := fun _ => rfl
  rw [utcOf, ZonedTime.utcOf, first_candidate]
  simp only [hfold, hbefore, decide_eq_true_eq]
  rw [if_pos (by rw [hat]; omega)]
  split_ifs with hlater
  · -- An earlier candidate would be read with the new offset too.
    refine min_eq_left ?_
    by_contra hlt
    have hoff := offset_after_turn hne (show T ≤ wall - z.offsetMs (wall + DAY_MS) by omega) (by omega)
    omega
  · rfl

/-! ## Orderly zones -/

/-- Whatever the clock does at `T`, dates follow instants. -/
structure Orderly (z : Zone) : Prop where
  /-- The clock goes back by no more than the hour the longest slot allows for. -/
  back : ∀ T, z.offsetMs (T - 1) - z.offsetMs T ≤ 3601000
  /-- No date starts strictly inside what is shown twice. -/
  repeated : ∀ T date, ¬ (T + z.offsetMs T < date * DAY_MS ∧ date * DAY_MS < T + z.offsetMs (T - 1))
  /-- None starts inside what is skipped, nor as far after it. -/
  skipped : ∀ T date, ¬ (T + z.offsetMs (T - 1) + 1000 < date * DAY_MS ∧
    date * DAY_MS < T + 2 * z.offsetMs T - z.offsetMs (T - 1) - 1000)

variable {t w₁ w₂ : Int}

theorem Orderly.date_le (h : z.Orderly) (hlt : z.utcOf wall < t) : wall / DAY_MS ≤ z.localDate t := by
  rw [z.localDate_eq]
  have hbt := z.offset_lt t
  rcases z.utcOf_cases wall with ⟨hu, -⟩ | ⟨T, h1, h2, hu⟩
  · have hbu := z.offset_lt (z.utcOf wall)
    by_cases hfar : z.utcOf wall + 2 * DAY_MS < t
    · exact Int.ediv_le_ediv (by decide) (by omega)
    · by_cases hoff : z.offsetMs (z.utcOf wall) = z.offsetMs t
      · exact Int.ediv_le_ediv (by decide) (by omega)
      · -- The date of the wall starts before what is repeated, so no later than its second showing.
        obtain ⟨T, hT1, hT2, hbefore, hafter⟩ := turn_between hlt (by simp only [DAY_MS] at *; omega) hoff
        have hmid := h.repeated T (wall / DAY_MS)
        simp only [DAY_MS] at *
        omega
  · have hne : z.offsetMs (T - 1) ≠ z.offsetMs T := by omega
    have hsize := (changes_of_turn hne).size
    have hbT := z.offset_lt (T - 1)
    by_cases hfar : z.utcOf wall + 2 * DAY_MS ≤ t
    · exact Int.ediv_le_ediv (by decide) (by omega)
    · have hoff := offset_after_turn hne (show T ≤ t by omega) (by omega)
      exact Int.ediv_le_ediv (by decide) (by omega)

theorem Orderly.le_date (h : z.Orderly) (hwall : wall % 1000 = 0)
    (hlt : t < z.utcOf wall) : z.localDate t ≤ wall / DAY_MS := by
  rw [z.localDate_eq]
  rcases z.utcOf_cases wall with ⟨-, hearlier⟩ | ⟨T, h1, h2, hu⟩
  · exact Int.ediv_le_ediv (by decide) (hearlier t hlt).le
  · have hne : z.offsetMs (T - 1) ≠ z.offsetMs T := by omega
    have hsize := (changes_of_turn hne).size
    have hbt := z.offset_lt t
    have hbT := z.offset_lt (T - 1)
    by_cases hfar : t < T - 3 * DAY_MS
    · exact Int.ediv_le_ediv (by decide) (by simp only [DAY_MS] at *; omega)
    · rcases lt_or_ge t T with ht | ht
      · have hoff := offset_before_turn hne (not_lt.mp hfar) ht
        exact Int.ediv_le_ediv (by decide) (by omega)
      · -- Past the gap the clock is ahead of the wall: the next date must not start in between.
        have hoff := offset_after_turn hne ht (by simp only [DAY_MS] at *; omega)
        have hmid := h.skipped T (wall / DAY_MS + 1)
        have hseconds := turn_seconds hne
        simp only [DAY_MS] at *
        omega

theorem Orderly.drop_le (h : z.Orderly) (hxy : x ≤ y)
    (hy : y ≤ x + 3 * DAY_MS) : z.offsetMs x - z.offsetMs y ≤ 3601000 := by
  by_cases hoff : z.offsetMs x = z.offsetMs y
  · omega
  · have hlt : x < y := lt_of_le_of_ne hxy fun e => hoff (by rw [e])
    obtain ⟨T, -, -, hbefore, hafter⟩ := turn_between hlt hy hoff
    have hback := h.back T
    omega

theorem offset_of_later (hle : z.utcOf w₁ ≤ z.utcOf w₂) (hw : w₁ ≤ w₂) :
    (∃ x, z.utcOf w₁ ≤ x ∧ x ≤ z.utcOf w₂ ∧ w₂ - z.utcOf w₂ = z.offsetMs x) ∨ w₁ - z.utcOf w₁ ≤ w₂ - z.utcOf w₂ := by
  rcases z.utcOf_cases w₂ with ⟨hu, -⟩ | ⟨T, h1, h2, hu⟩
  · exact .inl ⟨z.utcOf w₂, hle, le_rfl, by omega⟩
  · rcases le_or_gt (z.utcOf w₁) (T - 1) with hT | hT
    · exact .inl ⟨T - 1, hT, by omega, by omega⟩
    · -- Both are past the same change: the earlier wall is in its gap too.
      right
      have hne : z.offsetMs (T - 1) ≠ z.offsetMs T := by omega
      have hsize := (changes_of_turn hne).size
      rcases z.utcOf_cases w₁ with ⟨hu', -⟩ | ⟨T', h1', h2', hu'⟩
      · have hoff := offset_after_turn hne (show T ≤ z.utcOf w₁ by omega) (by simp only [DAY_MS] at *; omega)
        omega
      · have hne' : z.offsetMs (T' - 1) ≠ z.offsetMs T' := by omega
        have hsize' := (changes_of_turn hne').size
        have hsame : T' = T := turn_unique hne hne' (by simp only [DAY_MS] at *; omega) (by
          simp only [DAY_MS] at *; omega)
        subst hsame
        omega

theorem Orderly.length_le (h : z.Orderly) (hw : w₁ ≤ w₂) (hdays : w₂ ≤ w₁ + 2 * DAY_MS) :
    z.utcOf w₂ - z.utcOf w₁ ≤ w₂ - w₁ + 3601000 := by
  rcases lt_or_ge (z.utcOf w₂) (z.utcOf w₁) with hlt | hle
  · omega
  -- In a gap the wall was read with less than what the clock shows.
  have hfirst : w₁ - z.utcOf w₁ ≤ z.offsetMs (z.utcOf w₁) := by
    rcases z.utcOf_cases w₁ with ⟨hu, -⟩ | ⟨T, h1, h2, hu⟩
    · omega
    · have hne : z.offsetMs (T - 1) ≠ z.offsetMs T := by omega
      have hsize := (changes_of_turn hne).size
      have hoff := offset_after_turn hne (show T ≤ z.utcOf w₁ by omega) (by simp only [DAY_MS] at *; omega)
      omega
  rcases offset_of_later hle hw with ⟨x, hx1, hx2, hx⟩ | hno
  · have hb1 := z.offset_lt (z.utcOf w₁)
    have hb2 := z.offset_lt x
    -- Two bounded offsets put the instants within six days, two drops then within three.
    have htwo : z.offsetMs (z.utcOf w₁) - z.offsetMs x ≤ 7202000 := by
      rcases le_or_gt x (z.utcOf w₁ + 3 * DAY_MS) with hnear | hfar
      · have := h.drop_le hx1 hnear
        omega
      · have hd1 := h.drop_le (show z.utcOf w₁ ≤ z.utcOf w₁ + 3 * DAY_MS by simp only [DAY_MS]; omega) le_rfl
        have hd2 := h.drop_le hfar.le (by simp only [DAY_MS] at *; omega)
        omega
    have hone := h.drop_le hx1 (by simp only [DAY_MS] at *; omega)
    omega
  · omega

/-! ## Midnights -/

/-- Instants follow walls, except from inside a gap to as far after it as the gap is long. -/
theorem utcOf_mono_or_gap (hw : w₁ ≤ w₂) :
    z.utcOf w₁ ≤ z.utcOf w₂ ∨
      ∃ T, T + z.offsetMs (T - 1) ≤ w₁ ∧ w₁ < T + z.offsetMs T ∧ T + z.offsetMs T ≤ w₂ ∧
        w₂ < w₁ + (z.offsetMs T - z.offsetMs (T - 1)) := by
  by_cases hle : z.utcOf w₁ ≤ z.utcOf w₂
  · exact .inl hle
  right
  rw [not_le] at hle
  rcases z.utcOf_cases w₁ with ⟨-, hearlier⟩ | ⟨T, h1, h2, hu⟩
  · -- The first instant to show `w₁` is not after one that shows as much.
    exfalso
    have hshown := hearlier _ hle
    rcases z.utcOf_cases w₂ with ⟨hu', -⟩ | ⟨T, h1, h2, hu'⟩
    · omega
    · have hne : z.offsetMs (T - 1) ≠ z.offsetMs T := by omega
      have hsize := (changes_of_turn hne).size
      have hoff := offset_after_turn hne (show T ≤ z.utcOf w₂ by omega) (by simp only [DAY_MS] at *; omega)
      omega
  · have hne : z.offsetMs (T - 1) ≠ z.offsetMs T := by omega
    have hbT := z.offset_lt T
    have hbT' := z.offset_lt (T - 1)
    rcases z.utcOf_cases w₂ with ⟨hu', -⟩ | ⟨T', h1', h2', hu'⟩
    · refine ⟨T, h1, h2, ?_⟩
      have hb := z.offset_lt (z.utcOf w₂)
      have hT : T ≤ z.utcOf w₂ := by
        by_contra hbefore
        have hoff := offset_before_turn hne (show T - 3 * DAY_MS ≤ z.utcOf w₂ by simp only [DAY_MS] at *; omega) (by
          omega)
        omega
      have hoff := offset_after_turn hne hT (by simp only [DAY_MS] at *; omega)
      omega
    · exfalso
      have hne' : z.offsetMs (T' - 1) ≠ z.offsetMs T' := by omega
      have hsize' := (changes_of_turn hne').size
      have hb' := z.offset_lt (T' - 1)
      have hb'' := z.offset_lt T'
      have hsame : T' = T := turn_unique hne hne' (by simp only [DAY_MS] at *; omega) (by
        simp only [DAY_MS] at *; omega)
      subst hsame
      omega

/-- No date starts inside what is skipped, but for its first instant, nor as far after it: midnights
    stay in order with the walls. -/
def MidnightsInOrder (z : Zone) : Prop :=
  ∀ T date, ¬ (T + z.offsetMs (T - 1) < date * DAY_MS ∧
    date * DAY_MS < T + 2 * z.offsetMs T - z.offsetMs (T - 1) - 1000)

variable {date : Int}

theorem MidnightsInOrder.le_utcOf (h : z.MidnightsInOrder) (hw : date * DAY_MS ≤ wall) (hwall : wall % 1000 = 0) :
    z.utcOf (date * DAY_MS) ≤ z.utcOf wall := by
  rcases utcOf_mono_or_gap (z := z) hw with hle | ⟨T, h1, h2, h3, h4⟩
  · exact hle
  · -- The midnight is the first wall of the gap, and the instant of the turn.
    have hne : z.offsetMs (T - 1) ≠ z.offsetMs T := by omega
    have hkept := h T date
    simp only [DAY_MS] at *
    omega

theorem MidnightsInOrder.utcOf_le (h : z.MidnightsInOrder) (hw : wall ≤ date * DAY_MS) (hwall : wall % 1000 = 0) :
    z.utcOf wall ≤ z.utcOf (date * DAY_MS) := by
  rcases utcOf_mono_or_gap (z := z) hw with hle | ⟨T, h1, h2, h3, h4⟩
  · exact hle
  · have hne : z.offsetMs (T - 1) ≠ z.offsetMs T := by omega
    have hseconds := turn_seconds hne
    have hkept := h T date
    omega

/-! ## A zone whose clock turns once -/

section Turning

variable {o₁ o₂ : Int} (hT : T % 1000 = 0) (ho₁ : o₁ % 1000 = 0) (ho₂ : o₂ % 1000 = 0) (t : Int)

include hT ho₁ ho₂ in
theorem turning_resolution : (whole t + if t < T then o₁ else o₂) = whole (whole t) + if whole t < T then
    o₁ else o₂ := by
  simp only [whole]; split_ifs <;> omega

include ho₁ ho₂ in
theorem turning_seconds : (whole t + if t < T then o₁ else o₂) % 1000 = 0 := by
  simp only [whole]; split_ifs <;> omega

include hT ho₁ ho₂ in
theorem turning_oneChange (hbefore : -DAY_MS < o₁ ∧ o₁ < DAY_MS) (hafter : -DAY_MS < o₂ ∧ o₂ < DAY_MS)
    (hsize : o₁ - o₂ ≤ DAY_MS ∧ o₂ - o₁ ≤ DAY_MS) : ∃ T' o o',
    Changes (fun x => (whole (whole x) + if whole x < T then o₁ else o₂) - whole x)
      t (t + 3 * DAY_MS) T' o o' := by
  refine ⟨T, o₁, o₂, hbefore, hafter, hsize, fun x _ _ => ?_⟩
  simp only [whole]
  split_ifs <;> omega

end Turning

/-- The clock goes from `o₁` to `o₂` at `T`, and has no other change. -/
def turning (T o₁ o₂ : Int) (hT : T % 1000 = 0) (ho₁ : o₁ % 1000 = 0) (ho₂ : o₂ % 1000 = 0)
    (hbefore : -DAY_MS < o₁ ∧ o₁ < DAY_MS)
    (hafter : -DAY_MS < o₂ ∧ o₂ < DAY_MS) (hsize : o₁ - o₂ ≤ DAY_MS ∧ o₂ - o₁ ≤ DAY_MS) : Zone where
  wallClockMs t := whole t + if t < T then o₁ else o₂
  resolution t := turning_resolution hT ho₁ ho₂ t
  seconds t := turning_seconds ho₁ ho₂ t
  oneChange t := turning_oneChange hT ho₁ ho₂ t hbefore hafter hsize

theorem oneHour_whole : (3600000 : Int) % 1000 = 0 := by decide
theorem twoHours_whole : (7200000 : Int) % 1000 = 0 := by decide
theorem oneHour_lt : -DAY_MS < (3600000 : Int) ∧ (3600000 : Int) < DAY_MS := by decide
theorem twoHours_lt : -DAY_MS < (7200000 : Int) ∧ (7200000 : Int) < DAY_MS := by decide

def paris : Zone := turning 1774746000000 3600000 7200000 (by
    decide) oneHour_whole twoHours_whole oneHour_lt twoHours_lt (by decide)

/-- Nuuk changes at the same instant: 23:00 on the Saturday is 00:00 on the Sunday. -/
def nuuk : Zone := turning 1774746000000 (-7200000) (-3600000) (by decide) (by decide) (by decide) (by decide)
    (by decide) (by decide)

theorem orderly_paris : paris.Orderly := by
  refine ⟨fun T => ?_, fun T date => ?_, fun T date => ?_⟩
  all_goals
    simp only [offsetMs, ZonedTime.offsetMs, paris, turning, whole, DAY_MS]
    split_ifs <;> omega

end Canari.Bookings.ZonedTime.Zone
