/-
  Canari.Bookings.DatesAround — what the grid offers can be booked.

  The grid lists the units of the dates it shows; a booking is checked against the windows of the
  dates around its range only. A window starts at a wall of its date and ends at one of that date or
  of the next (`spans_of_window`), so where dates follow instants every window that overlaps the
  range is of a date around it (`around_of_overlaps`), and windows that do not overlap it decide
  nothing: the verdict is that of any wider dates (`settled_of_orderly`), and a listed unit is
  accepted (`offered_of_orderly`).

  `offered_and_settled_iff`: that is so exactly in an orderly zone. Where a date starts inside a
  repeated hour, or in a skipped one or as far after it, some window that holds an instant is built
  for none of the dates around it; where the clock goes back by more than an hour, a night is a slot
  longer than the longest. `nuuk_refuses_what_it_offers`: Nuuk skips the last hour of a Saturday.
-/

import Canari.Bookings.ClockChanges
import Canari.Bookings.Openings

namespace Canari.Bookings.Slots

open Bookings.ZonedTime List

/-! ## What a window is made of -/

/-- A line as the table holds it: two times of a day, the start before the end. -/
structure AvailabilityLine.Valid (line : AvailabilityLine) : Prop where
  start : 0 ≤ line.startTime
  order : line.startTime < line.endTime
  stop : line.endTime ≤ 86400

variable {z : Zone} {config : SlotConfig} {lines : List AvailabilityLine} {exceptions : List AvailabilityException}
    {date : Int} {p : Piece} {w : Window}

/-- A window of one date: two wall times of it, as instants. -/
structure OfDate (z : Zone) (config : SlotConfig) (date : Int) (p : Piece) : Prop where
  startMs : p.startMs = z.zonedToUtcMs date p.startTime
  endMs : p.endMs = z.zonedToUtcMs date p.endTime
  start : 0 ≤ p.startTime ∧ p.startTime < 86400
  stop : 0 < p.endTime ∧ p.endTime ≤ 86400
  pos : p.startMs < p.endMs
  order : config.slotMode = .slots → p.startTime < p.endTime

theorem ofDate_of_piece (hlines : ∀ line ∈ lines, line.Valid)
    (h : p ∈ piecesOn z lines exceptions date) : OfDate z config date p := by
  rw [piecesOn] at h
  split_ifs at h
  · cases h
  · rw [mem_insertionSort, mem_filterMap] at h
    obtain ⟨line, hline, hp⟩ := h
    have hv := hlines line (mem_of_mem_filter hline)
    rw [pieceOn] at hp
    split_ifs at hp with hpos
    cases hp
    have h1 := hv.start
    have h2 := hv.order
    have h3 := hv.stop
    exact ⟨rfl, rfl, ⟨h1, by dsimp only; omega⟩, ⟨by dsimp only; omega, h3⟩, not_le.mp hpos, fun _ => h2⟩

theorem ofDate_addPiece {s : List Piece × List Range} (hs : ∀ q ∈ s.1, OfDate z config date q)
    (hp : OfDate z config date p) :
    ∀ q ∈ (addPiece config s p).1, OfDate z config date q := by
  have hpush : ∀ q ∈ (if p.toRange ∈ s.2 then s else (p :: s.1, p.toRange :: s.2)).1, OfDate z config date q := by
    intro q hq
    split_ifs at hq
    · exact hs q hq
    · rcases mem_cons.mp hq with rfl | hq
      · exact hp
      · exact hs q hq
  rw [addPiece]
  split
  · rename_i last rest hlast
    by_cases hstep : config.slotMode = .step ∧ p.startMs ≤ last.endMs
    · rw [if_pos hstep]
      by_cases hlonger : p.endMs > last.endMs
      · -- The last window takes the end of the piece that goes further.
        rw [if_pos hlonger]
        rw [hlast] at hs
        intro q hq
        have hl := hs last mem_cons_self
        rcases mem_cons.mp hq with rfl | hq
        · refine ⟨hl.startMs, hp.endMs, hl.start, hp.stop, hl.pos.trans hlonger, fun hslots => ?_⟩
          rw [hstep.1] at hslots
          cases hslots
        · exact hs q (mem_cons_of_mem last hq)
      · rwa [if_neg hlonger]
    · rw [if_neg hstep]
      exact hpush
  · exact hpush

theorem ofDate_of_dayWindow (hlines : ∀ line ∈ lines, line.Valid)
    (h : p ∈ dayWindows z config lines exceptions date) : OfDate z config date p := by
  rw [dayWindows, mem_reverse] at h
  have hfold : ∀ q ∈ ((piecesOn z lines exceptions date).foldl (addPiece config) ([], [])).1,
    OfDate z config date q := by
    refine List.foldlRecOn (motive := fun s : List Piece × List Range => ∀ q ∈ s.1, OfDate z config date q) _ _
      (fun q hq => (not_mem_nil hq).elim) fun s hs q hq => ?_
    exact ofDate_addPiece hs (ofDate_of_piece hlines hq)
  exact hfold p h

theorem midnightJoin_some {day next : List Piece} {head tail : Piece} (h : midnightJoin day next = some (head, tail)) :
    head ∈ day ∧ tail ∈ next ∧ head.endTime = 86400 ∧ tail.endTime ≠ 86400 ∧ tail.startMs = head.endMs := by
  obtain ⟨p, hp, hsome⟩ := exists_of_findSome?_eq_some h
  split_ifs at hsome with hend
  obtain ⟨q, hq, hpair⟩ := Option.map_eq_some_iff.mp hsome
  obtain ⟨rfl, rfl⟩ := Prod.mk.inj hpair
  have htail := find?_some hq
  simp only [isTail, isMidnightEnd, isMidnightStart, Bool.and_eq_true, Bool.not_eq_true', decide_eq_true_eq,
    decide_eq_false_iff_not] at htail hend
  exact ⟨hp, mem_of_find?_eq_some hq, hend, htail.1.2, htail.2⟩

theorem zonedToUtcMs_next (date e : Int) : z.zonedToUtcMs (date + 1) e = z.zonedToUtcMs date (86400 + e) := by
  have hwall : (date + 1) * DAY_MS + e * 1000 = date * DAY_MS + (86400 + e) * 1000 := by
    simp only [DAY_MS]
    omega
  rw [Zone.zonedToUtcMs, Zone.zonedToUtcMs, hwall]

/-- A window that belongs to a date: from a time of it to one of it or of the next date. -/
structure Spans (z : Zone) (config : SlotConfig) (date : Int) (w : Window) (s e : Int) : Prop where
  start : 0 ≤ s ∧ s < 86400
  stop : 0 < e ∧ e < 172800
  startMs : w.startMs = z.zonedToUtcMs date s
  endMs : w.endMs = z.zonedToUtcMs date e
  pos : w.startMs < w.endMs
  order : config.slotMode = .slots → s < e

theorem spans_of_window (hlines : ∀ line ∈ lines, line.Valid) (h : w ∈ windowsOn z config lines exceptions date) :
    ∃ s e, Spans z config date w s e := by
  rw [windowsOn] at h
  obtain ⟨p, hp, hw⟩ := mem_filterMap.mp h
  have hday := ofDate_of_dayWindow hlines hp
  obtain ⟨h0, h1⟩ := hday.start
  obtain ⟨h2, h3⟩ := hday.stop
  have hplain : Spans z config date ⟨⟨p.startMs, p.endMs⟩, date⟩ p.startTime p.endTime :=
    ⟨hday.start, ⟨h2, by omega⟩, hday.startMs, hday.endMs, hday.pos, hday.order⟩
  split_ifs at hw with hswallowed
  cases hw
  cases hext : midnightJoin (dayWindows z config lines exceptions date)
    (dayWindows z config lines exceptions (date + 1)) with
  | none => exact ⟨_, _, hplain⟩
  | some j =>
    obtain ⟨head, tail⟩ := j
    dsimp only
    split_ifs with hhead
    · -- The head takes in the next date's tail.
      subst hhead
      obtain ⟨-, htail, hend, hbefore, hjoin⟩ := midnightJoin_some hext
      have hnext := ofDate_of_dayWindow hlines htail
      obtain ⟨h4, h5⟩ := hnext.stop
      refine ⟨head.startTime, 86400 + tail.endTime, hday.start, ⟨by omega, by omega⟩, hday.startMs, ?_, ?_,
        fun _ => by omega⟩
      · rw [← zonedToUtcMs_next]
        exact hnext.endMs
      · exact hday.pos.trans (hjoin ▸ hnext.pos)
    · exact ⟨_, _, hplain⟩

/-! ## The dates around a range -/

theorem mem_datesBetween {lo hi d : Int} : d ∈ datesBetween lo hi ↔ lo ≤ d ∧ d ≤ hi := by
  simp only [datesBetween, mem_map, mem_range]
  constructor
  · rintro ⟨k, hk, rfl⟩
    omega
  · rintro ⟨h1, h2⟩
    exact ⟨(d - lo).toNat, by omega, by omega⟩

theorem mem_availabilityWindows {lo hi : Int} :
    w ∈ availabilityWindows z config lines exceptions lo hi ↔
      ∃ d, (lo ≤ d ∧ d ≤ hi) ∧ w ∈ windowsOn z config lines exceptions d := by
  simp [availabilityWindows, mem_datesBetween]

variable {range : Range}

theorem around_of_overlaps (hz : z.Orderly) (hlines : ∀ line ∈ lines, line.Valid)
    (hw : w ∈ windowsOn z config lines exceptions date)
    (h : overlaps w.toRange range) : (datesAround z range).1 ≤ date ∧ date ≤ (datesAround z range).2 := by
  obtain ⟨s, e, hspans⟩ := spans_of_window hlines hw
  obtain ⟨hstart, hstop⟩ := h
  rw [hspans.startMs] at hstart
  rw [hspans.endMs] at hstop
  obtain ⟨h1, h2⟩ := hspans.start
  obtain ⟨h3, h4⟩ := hspans.stop
  have hlast := hz.date_le hstart
  have hfirst := hz.le_date (by simp only [DAY_MS]; omega) hstop
  simp only [datesAround]
  simp only [DAY_MS] at hlast hfirst
  omega

/-- The settings of a space as the table checks them. -/
def SlotConfig.Valid (config : SlotConfig) : Prop :=
  config.slotMode = .step ∧ config.stepMinutes.getD 0 > 0 ∧ config.maxSteps.getD 0 ≥ 1 ∨
    config.slotMode = .slots ∧ config.stepMinutes = none ∧ config.maxSteps = none

def verdictAround (z : Zone) (config : SlotConfig) (lines : List AvailabilityLine)
    (exceptions : List AvailabilityException) (range : Range) : Option RangeRefusal :=
  checkRangeShape config (availabilityWindows z config lines exceptions (datesAround z range).1
    (datesAround z range).2) range

/-- Every verdict is the one any wider range of dates gives. -/
def Settled (z : Zone) : Prop :=
  ∀ config lines exceptions, config.Valid → (∀ line ∈ lines, line.Valid) →
    ∀ range lo hi, lo ≤ (datesAround z range).1 → (datesAround z range).2 ≤ hi →
      checkRangeShape config (availabilityWindows z config lines exceptions lo hi) range =
        verdictAround z config lines exceptions range

def Offered (z : Zone) : Prop :=
  ∀ config lines exceptions, config.Valid → (∀ line ∈ lines, line.Valid) →
    ∀ lo hi, ∀ u ∈ slotUnits config (availabilityWindows z config lines exceptions lo hi),
      verdictAround z config lines exceptions u.toRange = none

theorem settled_of_orderly (hz : z.Orderly) : Settled z := by
  intro config lines exceptions _ hlines range lo hi hlo hhi
  refine checkRangeShape_congr fun w hover => ?_
  rw [mem_availabilityWindows, mem_availabilityWindows]
  refine exists_congr fun d => and_congr_left fun hw => ?_
  have haround := around_of_overlaps hz hlines hw hover
  exact iff_of_true ⟨by omega, by omega⟩ haround

variable {s e : Int}

theorem slot_length_le (hz : z.Orderly) (hmode : config.slotMode = .slots)
    (h : Spans z config date w s e) : w.endMs - w.startMs ≤ LONGEST_SLOT_MS := by
  have hlt := h.order hmode
  obtain ⟨h1, h2⟩ := h.start
  obtain ⟨h3, h4⟩ := h.stop
  have hlen := hz.length_le (show date * DAY_MS + s * 1000 ≤ date * DAY_MS + e * 1000 by omega) (by
    simp only [DAY_MS]; omega)
  rw [h.startMs, h.endMs, Zone.zonedToUtcMs, Zone.zonedToUtcMs]
  simp only [LONGEST_SLOT_MS, MINUTE_MS]
  omega

theorem step_accepted {windows : List Window} {u : Window} (hmode : config.slotMode = .step)
    (hstep : 0 < config.stepMs) (hmax : 1 ≤ config.maxSteps.getD 1)
    (hw : w ∈ windows) (hu : u ∈ stepsOf config.stepMs w) : checkRangeShape config windows u.toRange = none := by
  obtain ⟨k, rfl, hk⟩ := (mem_stepsOf hstep).mp hu
  have hnn : 0 ≤ (k : Int) * config.stepMs := Int.mul_nonneg (Int.natCast_nonneg k) hstep.le
  have hlen : rangeLengthRefusal config ⟨w.startMs + k * config.stepMs,
    w.startMs + k * config.stepMs + config.stepMs⟩ = none := by
    have hone := Int.mul_le_mul_of_nonneg_right hmax hstep.le
    rw [rangeLengthRefusal, hmode]
    dsimp only
    rw [if_neg (by omega), if_neg (by omega), if_neg (by omega)]
  have hopen : insideOneOpening windows ⟨w.startMs + k * config.stepMs,
    w.startMs + k * config.stepMs + config.stepMs⟩ = true := by
    refine (insideOneOpening_iff (by dsimp only; omega)).mpr fun x hx hx' => ⟨w, hw, ?_, ?_⟩
    · dsimp only at hx
      omega
    · dsimp only at hx'
      omega
  have haligned : aligned config.stepMs ((slotUnits config windows).map fun u => u.startMs)
      ⟨w.startMs + k * config.stepMs, w.startMs + k * config.stepMs + config.stepMs⟩ = true := by
    have hdiff : w.startMs + k * config.stepMs + config.stepMs - (w.startMs + k * config.stepMs) = config.stepMs := by
      omega
    have hmem : w.startMs + k * config.stepMs ∈ (slotUnits config windows).map fun u => u.startMs :=
      (mem_starts hmode hstep).mpr ⟨w, hw, _, hu, rfl⟩
    rw [aligned]
    dsimp only
    rw [hdiff, Int.ediv_self hstep.ne']
    simpa using hmem
  rw [checkRangeShape, hlen, hmode]
  simp [hopen, haligned, not_le.mpr hstep]

theorem offered_of_orderly (hz : z.Orderly) : Offered z := by
  intro config lines exceptions hconfig hlines lo hi u hu
  rw [verdictAround]
  rcases hconfig with ⟨hmode, hpos, hmax⟩ | ⟨hmode, -, -⟩
  · have hstep : 0 < config.stepMs := by simp only [SlotConfig.stepMs, MINUTE_MS]; omega
    rw [slotUnits, hmode] at hu
    dsimp only at hu
    rw [if_neg (not_le.mpr hstep)] at hu
    obtain ⟨w, hw, hu⟩ := mem_flatMap.mp hu
    obtain ⟨d, -, hwd⟩ := (mem_availabilityWindows).mp hw
    have hover : overlaps w.toRange u.toRange := by
      obtain ⟨k, rfl, hk⟩ := (mem_stepsOf hstep).mp hu
      exact overlaps_of_step hstep hu rfl le_rfl (by dsimp only; omega)
    refine step_accepted hmode hstep ?_
      ((mem_availabilityWindows).mpr ⟨d, around_of_overlaps hz hlines hwd hover, hwd⟩) hu
    cases hmaxSteps : config.maxSteps with
    | none => exact le_rfl
    | some n => simpa [hmaxSteps] using hmax
  · rw [slotUnits, hmode] at hu
    obtain ⟨d, -, hud⟩ := (mem_availabilityWindows).mp hu
    obtain ⟨s, e, hspans⟩ := spans_of_window hlines hud
    have hlength := slot_length_le hz hmode hspans
    have hpos := hspans.pos
    have hnear := around_of_overlaps hz hlines hud (show overlaps u.toRange u.toRange from ⟨hpos, hpos⟩)
    have hlen : rangeLengthRefusal config u.toRange = none := by
      rw [rangeLengthRefusal, hmode]
      dsimp only
      rw [if_neg (by omega), if_neg (by omega)]
    rw [checkRangeShape, hlen, hmode]
    dsimp only
    rw [if_pos]
    exact List.any_eq_true.mpr ⟨u, (mem_availabilityWindows).mpr ⟨d, hnear, hud⟩, by simp⟩

/-! ## Nights that are not orderly -/

def dated (date startTime endTime : Int) : AvailabilityLine := ⟨none, some date, startTime, endTime⟩

/-- One window written as two lines, over the midnight after `date`. -/
def night (date startTime endTime : Int) : List AvailabilityLine :=
    [dated date startTime 86400, dated (date + 1) 0 endTime]

/-- A line alone on its date is its window. -/
theorem dayWindows_single (line : AvailabilityLine) (hline : lines.filter (fun line => line.appliesOn date) = [line])
    (hpos : z.zonedToUtcMs date line.startTime < z.zonedToUtcMs date line.endTime) :
    dayWindows z config lines [] date =
      [⟨⟨⟨z.zonedToUtcMs date line.startTime, z.zonedToUtcMs date line.endTime⟩, date⟩, line.startTime,
        line.endTime⟩] := by
  have hpiece : pieceOn z date line = some
    ⟨⟨⟨z.zonedToUtcMs date line.startTime, z.zonedToUtcMs date line.endTime⟩, date⟩, line.startTime,
    line.endTime⟩ := by
    rw [pieceOn]
    exact if_neg (not_le.mpr hpos)
  rw [dayWindows, piecesOn, hline]
  simp [excluded, hpiece, addPiece]

theorem dayWindows_empty (hline : lines.filter (fun line => line.appliesOn date) = []) :
    dayWindows z config lines [] date = [] := by
  rw [dayWindows, piecesOn, hline]
  simp

theorem windowsOn_empty (h : dayWindows z config lines [] date = []) : windowsOn z config lines [] date = [] := by
  rw [windowsOn, h]
  rfl

@[simp] theorem appliesOn_dated (date s e d : Int) : (dated date s e).appliesOn d = decide (date = d) := rfl

theorem windowsOn_dated_other {s e d : Int} (hd : date ≠ d) : windowsOn z config [dated date s e] [] d = [] :=
  windowsOn_empty (dayWindows_empty (by simp [hd]))

theorem windowsOn_dated (hpos : z.zonedToUtcMs date s < z.zonedToUtcMs date e) :
    windowsOn z config [dated date s e] [] date = [⟨⟨z.zonedToUtcMs date s, z.zonedToUtcMs date e⟩, date⟩] := by
  have hday : dayWindows z config [dated date s e]
    [] date = [⟨⟨⟨z.zonedToUtcMs date s, z.zonedToUtcMs date e⟩, date⟩, s, e⟩] :=
    dayWindows_single (dated date s e) (by simp) hpos
  have hne1 : date ≠ date - 1 := by omega
  have hne2 : date ≠ date + 1 := by omega
  have hbefore : dayWindows z config [dated date s e] [] (date - 1) = [] := dayWindows_empty (by simp [hne1])
  have hafter : dayWindows z config [dated date s e] [] (date + 1) = [] := dayWindows_empty (by simp [hne2])
  rw [windowsOn, hday, hbefore, hafter]
  simp [midnightJoin]

theorem windowsOn_night_other {s e d : Int} (hd : date ≠ d)
    (hd' : date + 1 ≠ d) : windowsOn z config (night date s e) [] d = [] :=
  windowsOn_empty (dayWindows_empty (by simp [night, hd, hd']))

variable (config) in
/-- The night is one window of its first date, and its tail none of the second. -/
theorem windowsOn_night (he : e < 86400) (hhead : z.zonedToUtcMs date s < z.zonedToUtcMs date 86400)
    (htail : z.zonedToUtcMs (date + 1) 0 < z.zonedToUtcMs (date + 1) e) :
    windowsOn z config (night date s e) [] date = [⟨⟨z.zonedToUtcMs date s, z.zonedToUtcMs (date + 1) e⟩, date⟩] ∧
      windowsOn z config (night date s e) [] (date + 1) = [] := by
  have hne1 : date + 1 ≠ date := by omega
  have hne2 : date ≠ date + 1 := by omega
  have hday : dayWindows z config (night date s e)
    [] date = [⟨⟨⟨z.zonedToUtcMs date s, z.zonedToUtcMs date 86400⟩, date⟩, s, 86400⟩] :=
    dayWindows_single (dated date s 86400) (by simp [night, hne1]) hhead
  have hnext : dayWindows z config (night date s e) [] (date + 1) =
      [⟨⟨⟨z.zonedToUtcMs (date + 1) 0, z.zonedToUtcMs (date + 1) e⟩, date + 1⟩, 0, e⟩] :=
    dayWindows_single (dated (date + 1) 0 e) (by simp [night, hne2]) htail
  have hne3 : date ≠ date - 1 := by omega
  have hne4 : date + 1 ≠ date - 1 := by omega
  have hbefore : dayWindows z config (night date s e) [] (date - 1) = [] :=
    dayWindows_empty (by simp [night, hne3, hne4])
  have hjoin : z.zonedToUtcMs (date + 1) 0 = z.zonedToUtcMs date 86400 := zonedToUtcMs_next date 0
  have hne : e ≠ 86400 := by omega
  constructor
  · rw [windowsOn, hday, hnext, hbefore]
    simp [midnightJoin, isMidnightEnd, isTail, isMidnightStart, hne, hjoin]
  · have hdate : date + 1 - 1 = date := by omega
    rw [windowsOn, hdate, hday, hnext]
    simp [midnightJoin, isMidnightEnd, isTail, isMidnightStart, hne, hjoin]

def minutes : SlotConfig := ⟨.step, some 1, some 1⟩

theorem checkRangeShape_millisecond (windows : List Window) (t : Int) :
    checkRangeShape minutes windows ⟨t, t + 1⟩ =
      if insideOneOpening windows ⟨t, t + 1⟩ then some .misaligned else some .outsideAvailability := by
  have hlen : t + 1 - t = 1 := by omega
  have hrefusal : rangeLengthRefusal minutes ⟨t, t + 1⟩ = none := by
    simp only [rangeLengthRefusal, hlen]
    decide
  have haligned : ∀ starts, aligned minutes.stepMs starts ⟨t, t + 1⟩ = false := by
    intro starts
    simp only [aligned, hlen]
    rfl
  have hmode : minutes.slotMode = .step := rfl
  have hstep : ¬ minutes.stepMs ≤ 0 := by decide
  rw [checkRangeShape, hrefusal]
  simp only [hmode, hstep, haligned]
  cases insideOneOpening windows ⟨t, t + 1⟩ <;> simp

/-- Where every verdict is settled, an instant in a window has a window on a date around it. -/
theorem Settled.window_around (h : Settled z) (hlines : ∀ line ∈ lines, line.Valid) {t : Int}
    (hw : w ∈ windowsOn z minutes lines exceptions date)
    (h1 : w.startMs ≤ t) (h2 : t < w.endMs) :
    ∃ d, ((datesAround z ⟨t, t + 1⟩).1 ≤ d ∧ d ≤ (datesAround z ⟨t, t + 1⟩).2) ∧
      windowsOn z minutes lines exceptions d ≠ [] := by
  have hpos : (⟨t, t + 1⟩ : Range).startMs < (⟨t, t + 1⟩ : Range).endMs := by dsimp only; omega
  have hsame := h minutes lines exceptions (.inl (by decide)) hlines ⟨t, t + 1⟩
    (min date (datesAround z ⟨t, t + 1⟩).1) (max date (datesAround z ⟨t, t + 1⟩).2)
    (min_le_right _ _) (le_max_right _ _)
  have hwide : insideOneOpening
    (availabilityWindows z minutes lines exceptions (min date (datesAround z ⟨t, t + 1⟩).1)
    (max date (datesAround z ⟨t, t + 1⟩).2)) ⟨t, t + 1⟩ = true := by
    refine (insideOneOpening_iff hpos).mpr fun x hx hx' =>
      ⟨w, (mem_availabilityWindows).mpr ⟨date, ⟨min_le_left _ _, le_max_left _ _⟩, hw⟩, ?_⟩
    dsimp only at hx hx'
    omega
  rw [verdictAround, checkRangeShape_millisecond, checkRangeShape_millisecond, hwide, if_pos rfl] at hsame
  split_ifs at hsame with hnear
  · obtain ⟨w', hw', -⟩ := (insideOneOpening_iff hpos).mp hnear t le_rfl (by dsimp only; omega)
    obtain ⟨d, hd, hwd⟩ := (mem_availabilityWindows).mp hw'
    exact ⟨d, hd, ne_nil_of_mem hwd⟩
  · cases hsame

theorem valid_dated (h1 : 0 ≤ s) (h2 : s < e) (h3 : e ≤ 86400) : (dated date s e).Valid := ⟨h1, h2, h3⟩

theorem valid_night (h1 : 0 ≤ s) (h2 : s < 86400) (h3 : 0 < e)
    (h4 : e < 86400) : ∀ line ∈ night date s e, line.Valid := by
  intro line hline
  simp only [night, mem_cons, not_mem_nil, or_false] at hline
  rcases hline with rfl | rfl
  · exact valid_dated h1 h2 le_rfl
  · exact valid_dated le_rfl h3 h4.le

/-- A date that starts inside a repeated stretch is over again at the change: its window is not among those built. -/
theorem Settled.repeated (h : Settled z)
    (T date : Int) : ¬ (T + z.offsetMs T < date * DAY_MS ∧ date * DAY_MS < T + z.offsetMs (T - 1)) := by
  intro ⟨h1, h2⟩
  have hne : z.offsetMs (T - 1) ≠ z.offsetMs T := by omega
  obtain ⟨hb', hb, hsize, -⟩ := Zone.changes_of_turn hne
  have hseconds := Zone.turn_seconds hne
  simp only [DAY_MS] at h1 h2 hb hb' hsize
  have hstart := Zone.zonedToUtcMs_before hne date 0 (by omega) (.inl (by omega))
  have hstop := Zone.zonedToUtcMs_after hne date 86400 (by omega) (by omega) (by omega)
  have hmem : (⟨⟨z.zonedToUtcMs date 0, z.zonedToUtcMs date 86400⟩, date⟩ : Window) ∈ windowsOn z minutes
    [dated date 0 86400] [] date := by
    rw [windowsOn_dated (by omega)]
    exact mem_singleton_self _
  have hvalid : ∀ line ∈ [dated date 0 86400], line.Valid := by
    intro line hline
    rw [mem_singleton.mp hline]
    exact valid_dated le_rfl (by decide) le_rfl
  obtain ⟨d, ⟨-, hd⟩, hnonempty⟩ := h.window_around hvalid hmem (show z.zonedToUtcMs date 0 ≤ T - 1 by omega)
    (show T - 1 < z.zonedToUtcMs date 86400 by omega)
  refine hnonempty (windowsOn_dated_other ?_)
  have hbefore : d ≤ (T + z.offsetMs T) / DAY_MS := by
    rw [← z.localDate_eq]
    simpa [datesAround] using hd
  rw [DAY_MS] at hbefore
  omega

/-- Past a gap the clock may be a date ahead of the wall: the window that ends there is not built either. -/
theorem Settled.skipped (h : Settled z) (T date : Int) :
    ¬ (T + z.offsetMs (T - 1) + 1000 < date * DAY_MS ∧
      date * DAY_MS < T + 2 * z.offsetMs T - z.offsetMs (T - 1) - 1000) := by
  intro ⟨h1, h2⟩
  have hne : z.offsetMs (T - 1) ≠ z.offsetMs T := by omega
  obtain ⟨hb', hb, hsize, -⟩ := Zone.changes_of_turn hne
  have hseconds := Zone.turn_seconds hne
  simp only [DAY_MS] at h1 h2 hb hb' hsize
  -- The last second of the gap, or the one before the date if that comes first.
  obtain ⟨wall, hsecond, hlo, hhi, hpast, hgap, hnext⟩ : ∃ wall, wall % 1000 = 0 ∧ (date - 1) * 86400000 < wall ∧
    wall < date * 86400000 ∧
      T + z.offsetMs (T - 1) < wall ∧ wall < T + z.offsetMs T ∧
        date * 86400000 < wall - z.offsetMs (T - 1) + z.offsetMs T :=
    ⟨min (date * 86400000 - 1000) (T + z.offsetMs T - 1000), by omega, by omega, by omega, by omega, by omega, by omega⟩
  obtain ⟨e, he⟩ : ∃ e, e = (wall - (date - 1) * 86400000) / 1000 := ⟨_, rfl⟩
  have hcast : (date - 1) * 86400000 + e * 1000 = wall := by omega
  have he1 : 0 < e := by omega
  have he2 : e < 86400 := by omega
  have hhead := Zone.zonedToUtcMs_before hne (date - 2) 86399 (by omega) (.inr (by omega))
  have hmid := Zone.zonedToUtcMs_before hne (date - 2) 86400 (by omega) (.inr (by omega))
  have hmid' := Zone.zonedToUtcMs_before hne (date - 2 + 1) 0 (by omega) (.inr (by omega))
  have htail := Zone.zonedToUtcMs_before hne (date - 2 + 1) e (by omega) (.inr (by omega))
  have hnight := windowsOn_night minutes he2
    (show z.zonedToUtcMs (date - 2) 86399 < z.zonedToUtcMs (date - 2) 86400 by omega) (by omega)
  have hmem := hnight.1 ▸ mem_singleton_self _
  obtain ⟨d, ⟨hd, -⟩, hnonempty⟩ := h.window_around (valid_night (by decide) (by decide) he1 he2) hmem
    (show z.zonedToUtcMs (date - 2) 86399 ≤ wall - z.offsetMs (T - 1) - 1 by
      omega) (show wall - z.offsetMs (T - 1) - 1 < z.zonedToUtcMs (date - 2 + 1) e by omega)
  have hahead : z.localDate (wall - z.offsetMs (T - 1) - 1) ≤ d + 1 := by
    simp only [datesAround] at hd
    omega
  have hoff := Zone.offset_after_turn hne (show T ≤ wall - z.offsetMs (T - 1) - 1 by omega) (by
    simp only [DAY_MS]; omega)
  rw [z.localDate_eq, DAY_MS] at hahead
  have hd' : date ≤ d + 1 := by omega
  by_cases hlast : date - 2 + 1 = d
  · exact hnonempty (hlast ▸ hnight.2)
  · exact hnonempty (windowsOn_night_other (by omega) hlast)

def predefined : SlotConfig := ⟨.slots, none, none⟩

/-- A night over a larger step back is a slot longer than the longest. -/
theorem Offered.back (h : Offered z) (T : Int) : z.offsetMs (T - 1) - z.offsetMs T ≤ 3601000 := by
  by_contra hback
  have hne : z.offsetMs (T - 1) ≠ z.offsetMs T := by omega
  obtain ⟨hb', hb, hsize, -⟩ := Zone.changes_of_turn hne
  have hseconds := Zone.turn_seconds hne
  obtain ⟨D, hD⟩ : ∃ D, D = (T + z.offsetMs (T - 1) - 1000) / DAY_MS := ⟨_, rfl⟩
  simp only [DAY_MS] at hsize hb hb' hD
  have hstart := Zone.zonedToUtcMs_before hne D 0 (by omega) (.inl (by omega))
  have hmid := Zone.zonedToUtcMs_after hne (D + 1) 0 (by omega) (by omega) (by omega)
  have hstop : z.zonedToUtcMs (D + 1) 86399 = (D + 1) * 86400000 + 86399000 - z.offsetMs T := by
    rw [Zone.zonedToUtcMs]
    by_cases hnear : (D + 1) * DAY_MS + 86399 * 1000 ≤ T - 1 + 2 * DAY_MS
    · rw [Zone.utcOf_around hne (by simp only [DAY_MS]; omega) hnear, DAY_MS]
      omega
    · simp only [DAY_MS] at hnear
      rw [Zone.utcOf_settled hne (by simp only [DAY_MS]; omega) (by simp only [DAY_MS]; omega), DAY_MS]
      omega
  have hmid' : z.zonedToUtcMs D 86400 = z.zonedToUtcMs (D + 1) 0 := (zonedToUtcMs_next D 0).symm
  have hnight := windowsOn_night predefined (by decide) (show z.zonedToUtcMs D 0 < z.zonedToUtcMs D 86400 by omega)
    (show z.zonedToUtcMs (D + 1) 0 < z.zonedToUtcMs (D + 1) 86399 by omega)
  have hmem := hnight.1 ▸ mem_singleton_self _
  have hunit := h predefined (night D 0 86399) [] (.inr ⟨rfl, rfl, rfl⟩)
    (valid_night le_rfl (by decide) (by decide) (by decide)) D D
    ⟨⟨z.zonedToUtcMs D 0, z.zonedToUtcMs (D + 1) 86399⟩, D⟩ (mem_availabilityWindows.mpr ⟨D, ⟨le_rfl, le_rfl⟩, hmem⟩)
  have hlen : rangeLengthRefusal predefined ⟨z.zonedToUtcMs D 0,
    z.zonedToUtcMs (D + 1) 86399⟩ = some .outsideAvailability := by
    have hlonger : z.zonedToUtcMs (D + 1) 86399 - z.zonedToUtcMs D 0 > LONGEST_SLOT_MS := by
      simp only [LONGEST_SLOT_MS, MINUTE_MS]
      omega
    rw [rangeLengthRefusal]
    dsimp only [predefined]
    rw [if_neg (by omega), if_pos hlonger]
  rw [verdictAround, checkRangeShape, hlen] at hunit
  cases hunit

/-- What the grid offers can be booked, and the dates around a range are enough for its verdict, exactly
    in an orderly zone. -/
theorem offered_and_settled_iff (z : Zone) : Offered z ∧ Settled z ↔ z.Orderly := by
  constructor
  · rintro ⟨hoffered, hsettled⟩
    exact ⟨hoffered.back, hsettled.repeated, hsettled.skipped⟩
  · intro hz
    exact ⟨offered_of_orderly hz, settled_of_orderly hz⟩

/-- In Paris everything the grid lists can be booked, over the night of the change as well. -/
theorem paris_books_what_it_offers : Offered Zone.paris ∧ Settled Zone.paris :=
    (offered_and_settled_iff Zone.paris).mpr Zone.orderly_paris

def halfHours : SlotConfig := ⟨.step, some 30, some 4⟩

/-- From Friday, March the 27th, 20:00, to Saturday 23:30, written as two lines. -/
def weekendNight : List AvailabilityLine := [dated 20539 72000 86400, dated 20540 0 84600]

/-- In Nuuk Saturday 23:30 is skipped, and past the change: the last half hour, from 01:00 UTC on the
    Sunday, is listed with the Friday and refused, since the dates around it start with the Saturday. -/
theorem nuuk_refuses_what_it_offers :
    ⟨⟨1774746000000, 1774747800000⟩, 20539⟩ ∈ slotUnits halfHours
      (availabilityWindows Zone.nuuk halfHours weekendNight [] 20539 20540) ∧
      datesAround Zone.nuuk ⟨1774746000000, 1774747800000⟩ = (20540, 20541) ∧
      verdictAround Zone.nuuk halfHours weekendNight [] ⟨1774746000000, 1774747800000⟩ = some .outsideAvailability ∧
      ¬ (Offered Zone.nuuk ∧ Settled Zone.nuuk) := by
  have hlisted : ⟨⟨1774746000000, 1774747800000⟩, 20539⟩ ∈ slotUnits halfHours
    (availabilityWindows Zone.nuuk halfHours weekendNight [] 20539 20540) := by
    decide
  have hrefused : verdictAround Zone.nuuk halfHours weekendNight [] ⟨1774746000000,
    1774747800000⟩ = some .outsideAvailability := by
    decide
  refine ⟨hlisted, by decide, hrefused, fun h => ?_⟩
  have hvalid : ∀ line ∈ weekendNight, line.Valid := by
    intro line hline
    simp only [weekendNight, mem_cons, not_mem_nil, or_false] at hline
    rcases hline with rfl | rfl
    · exact valid_dated (by decide) (by decide) (by decide)
    · exact valid_dated (by decide) (by decide) (by decide)
  have haccepted := h.1 halfHours weekendNight [] (.inl (by decide)) hvalid _ _ _ hlisted
  rw [hrefused] at haccepted
  cases haccepted

end Canari.Bookings.Slots
