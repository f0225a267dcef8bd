/-
  Canari.Bookings.MidnightJoins — windows over midnight (slots.ts, availabilityWindows).

  A date's window that ends at 24:00 takes in the next date's tail, and that tail is no window of the
  next date. Both dates ask the same `midnightJoin`, so what the one gains the other loses: of the
  instants covered, the windows of a date and the tail it lost count as many as its day windows and
  the tail it gained (`countP_windowsOn`). Over a run of dates only the two ends are left, and they
  are far from any one instant (`covered_once`).

  The windows of a date are decided from it and its neighbours, so a range of dates has for each
  those it has alone (`filter_availabilityWindows`).

  A window starts on its date and ends by the next midnight but one, so it crosses the midnight
  between: only that one when instants follow walls around midnights (`crosses_next`). Where a date
  starts in a skipped hour, or less than that long after it, the walls of the gap are read as
  instants past the midnight (`windowsLocal_iff`); in Nuuk a Friday night that ends on the Saturday
  at 23:30 ends on the Sunday (`friday_night_crosses_two_midnights`).
-/

import Canari.Bookings.DayParts
import Canari.Lib.Counting
import Mathlib.Data.Set.Card

namespace Canari.Bookings.Slots

open Bookings.ZonedTime Lib.Counting List

variable {z : Zone} {config : SlotConfig} {lines : List AvailabilityLine} {exceptions : List AvailabilityException}
    {date lo hi t : Int}
variable {w : Window} {p : Piece}

/-! ## The windows of each date -/

theorem date_of_window (h : w ∈ windowsOn z config lines exceptions date) : w.date = date := by
  obtain ⟨p, -, hw⟩ := mem_filterMap.mp h
  split_ifs at hw
  cases hw
  rfl

theorem nodup_datesBetween (lo hi : Int) : (datesBetween lo hi).Nodup := by
  refine List.Nodup.map ?_ nodup_range
  intro a b hab
  simpa using hab

theorem flatMap_at {α β : Type} [DecidableEq α] {l : List α} (hl : l.Nodup) {a : α} (ha : a ∈ l) (out : List β) :
    (l.flatMap fun x => if x = a then out else []) = out := by
  obtain ⟨before, after, rfl⟩ := append_of_mem ha
  obtain ⟨-, hafter, hbefore⟩ := nodup_append.mp hl
  have hnone : ∀ l' : List α, a ∉ l' → (l'.flatMap fun x => if x = a then out else []) = [] := by
    intro l' ha'
    refine flatMap_eq_nil_iff.mpr fun x hx => if_neg ?_
    intro heq
    exact ha' (heq ▸ hx)
  rw [flatMap_append, flatMap_cons, hnone before fun h => hbefore a h a mem_cons_self rfl,
    hnone after (nodup_cons.mp hafter).1]
  simp

/-- Of a range of dates, the windows of one are what it has alone. -/
theorem filter_availabilityWindows (z : Zone) (config : SlotConfig) (lines : List AvailabilityLine)
    (exceptions : List AvailabilityException)
    {lo d hi : Int} (h1 : lo ≤ d) (h2 : d ≤ hi) :
    (availabilityWindows z config lines exceptions lo hi).filter
      (fun w => w.date = d) = availabilityWindows z config lines exceptions d d := by
  -- Windows of one date differ in their range only, and that is what they are sorted by.
  have hsorted := (pairwise_sort (fun w : Window => w.toRange)
    ((datesBetween lo hi).flatMap (windowsOn z config lines exceptions))).filter (fun w => w.date = d)
  have hsorted' := pairwise_sort (fun w : Window => w.toRange)
    ((datesBetween d d).flatMap (windowsOn z config lines exceptions))
  refine List.Perm.eq_of_pairwise ?_ hsorted hsorted' ?_
  · intro a b ha hb hab hba
    have hda : a.date = d := of_decide_eq_true (mem_filter.mp ha).2
    have hdb : b.date = d := by
      obtain ⟨d', hd', hwd⟩ := mem_availabilityWindows.mp hb
      rw [date_of_window hwd]
      omega
    obtain ⟨⟨s, e⟩, da⟩ := a
    obtain ⟨⟨s', e'⟩, db⟩ := b
    simp only [sooner, Window.mk.injEq, Range.mk.injEq] at *
    omega
  · have hone : ∀ date, (windowsOn z config lines exceptions date).filter (fun w => w.date = d) = if date = d then
      windowsOn z config lines exceptions d else [] := by
      intro date
      split_ifs with hd
      · subst hd
        exact filter_eq_self.mpr fun w hw => decide_eq_true (date_of_window hw)
      · exact filter_eq_nil_iff.mpr fun w hw hw' => hd ((date_of_window hw).symm.trans (of_decide_eq_true hw'))
    have hmem : d ∈ datesBetween lo hi := mem_datesBetween.mpr ⟨h1, h2⟩
    refine ((perm_insertionSort _ _).filter _).trans (List.Perm.trans ?_ (perm_insertionSort _ _).symm)
    rw [filter_flatMap]
    simp only [hone]
    rw [flatMap_at (nodup_datesBetween lo hi) hmem, show datesBetween d d = [d] by
      simp [datesBetween], flatMap_singleton]

/-! ## What a join moves -/

variable (z config lines exceptions) in
def joinedTail (date : Int) : Option Piece :=
  (midnightJoin (dayWindows z config lines exceptions date)
    (dayWindows z config lines exceptions (date + 1))).map Prod.snd

def tailCount (t : Int) (tail : Option Piece) : ℕ := (tail.map fun p => (covers t p.toRange).toNat).getD 0

theorem dayWindow_pos (h : p ∈ dayWindows z config lines exceptions date) : p.startMs < p.endMs := by
  have howed := (mem_dayWindows z config lines exceptions date p.toRange).mp (mem_map_of_mem h)
  rw [Owed] at howed
  cases hmode : config.slotMode with
  | slots =>
    rw [hmode] at howed
    obtain ⟨q, hq, heq⟩ := mem_map.mp howed
    have hpos := piece_pos hq
    rw [← heq]
    exact hpos
  | step =>
    rw [hmode] at howed
    exact howed.pos

theorem covers_join {r q : Range} (hr : r.startMs < r.endMs) (hjoin : q.startMs = r.endMs) (hq : q.startMs < q.endMs) :
    (covers t ⟨r.startMs, q.endMs⟩).toNat = (covers t r).toNat + (covers t q).toNat := by
  have hone : covers t r = true → covers t q = false := by
    intro h
    rw [Bool.eq_false_iff, ne_eq, covers_iff]
    rw [covers_iff] at h
    omega
  have hboth : covers t ⟨r.startMs, q.endMs⟩ = (covers t r || covers t q) := by
    rw [Bool.eq_iff_iff, Bool.or_eq_true, covers_iff, covers_iff, covers_iff]
    dsimp only
    omega
  rw [hboth]
  cases h : covers t r with
  | true => rw [hone h]; rfl
  | false => simp

def endMsOf (extended : Option (Piece × Piece)) (w : Piece) : Int :=
  match extended with
  | some (head, tail) => if head = w then tail.endMs else w.endMs
  | none => w.endMs

def gained (t : Int) (extended : Option (Piece × Piece)) (w : Piece) : Bool :=
  match extended with
  | some (head, tail) => decide (w = head) && covers t tail.toRange
  | none => false

/-- A day's windows with one swallowed and one extended by a tail at its end. -/
theorem countP_joined {day : List Piece} (hnodup : day.Nodup) (hpos : ∀ p ∈ day, p.startMs < p.endMs)
    {swallowed : Option Piece}
    {extended : Option (Piece × Piece)} (hswallowed : ∀ tail, swallowed = some tail → tail ∈ day ∧ tail.endTime ≠ 86400)
    (hextended : ∀ head tail, extended = some (head, tail) →
      head ∈ day ∧ head.endTime = 86400 ∧ tail.startMs = head.endMs ∧ tail.startMs < tail.endMs) :
    (day.filterMap fun w => if some w = swallowed then none
      else some (⟨⟨w.startMs, endMsOf extended w⟩, date⟩ : Window)).countP (fun w =>
        covers t w.toRange) + tailCount t swallowed =
      day.countP (fun p => covers t p.toRange) + tailCount t (extended.map Prod.snd) := by
  have hlost : (day.countP fun w => decide (some w = swallowed) && covers t w.toRange) = tailCount t swallowed := by
    cases swallowed with
    | none => simp [tailCount]
    | some tail =>
      refine Eq.trans (countP_congr fun w _ => ?_)
        (countP_eq_and hnodup (hswallowed tail rfl).1 (covers t tail.toRange))
      by_cases hw : w = tail
      · rw [hw]
        simp
      · simp [hw]
  have hgained : day.countP (gained t extended) = tailCount t (extended.map Prod.snd) := by
    cases extended with
    | none => exact countP_eq_zero.mpr fun _ _ => Bool.false_ne_true
    | some join => exact countP_eq_and hnodup (hextended join.1 join.2 rfl).1 _
  rw [countP_filterMap, ← hlost, ← hgained]
  refine countP_balance fun w hw => ?_
  by_cases hlose : some w = swallowed
  · -- The swallowed window ends before midnight, so it is not the one extended.
    have hkept : gained t extended w = false := by
      cases extended with
      | none => rfl
      | some join =>
        have hne : w ≠ join.1 := by
          intro heq
          apply (hswallowed w hlose.symm).2
          rw [heq]
          exact (hextended join.1 join.2 rfl).2.1
        simp [gained, hne]
    simp [hlose, hkept]
  · simp only [hlose, if_false, Option.map_some, Option.getD_some]
    cases extended with
    | none => simp [endMsOf, gained]
    | some join =>
      obtain ⟨head, tail⟩ := join
      obtain ⟨-, -, hstart, hlt⟩ := hextended head tail rfl
      by_cases heq : w = head
      · subst heq
        simp only [endMsOf, gained, if_true]
        exact covers_join (hpos w hw) hstart hlt
      · simp [endMsOf, gained, heq, Ne.symm heq]

variable (z config lines exceptions) in
/-- The tail lost at the midnight before a date and the one gained at the midnight after it are all that
    its windows and its day windows differ in. -/
theorem countP_windowsOn (t date : Int) :
    (windowsOn z config lines exceptions date).countP (fun w => covers t w.toRange) + tailCount t
      (joinedTail z config lines exceptions (date - 1)) =
      (dayWindows z config lines exceptions date).countP (fun p => covers t p.toRange) + tailCount t
        (joinedTail z config lines exceptions date) := by
  have hprev : date - 1 + 1 = date := by omega
  rw [joinedTail, hprev]
  refine countP_joined ((nodup_dayWindows z config lines exceptions date).of_map _) (fun p hp => dayWindow_pos hp) ?_ ?_
  · intro tail htail
    obtain ⟨join, hjoin, rfl⟩ := Option.map_eq_some_iff.mp htail
    obtain ⟨-, hmem, -, hend, -⟩ := midnightJoin_some hjoin
    exact ⟨hmem, hend⟩
  · intro head tail hjoin
    obtain ⟨hhead, htail, hend, -, hstart⟩ := midnightJoin_some hjoin
    exact ⟨hhead, hend, hstart, dayWindow_pos htail⟩

/-! ## Over a run of dates -/

variable (z config lines exceptions) in
/-- What the joins between the dates move stays between them. -/
theorem sum_windows (t lo : Int) (n : ℕ) :
    ((List.range n).map fun k : ℕ => (windowsOn z config lines exceptions (lo + k)).countP
      fun w => covers t w.toRange).sum +
        tailCount t (joinedTail z config lines exceptions (lo - 1)) =
      ((List.range n).map fun k : ℕ => (dayWindows z config lines exceptions (lo + k)).countP
        fun p => covers t p.toRange).sum +
        tailCount t (joinedTail z config lines exceptions (lo + n - 1)) := by
  induction n with
  | zero => simp
  | succ n ih =>
    have hdate := countP_windowsOn z config lines exceptions t (lo + n)
    have hlast : lo + ((n + 1 : ℕ) : Int) - 1 = lo + n := by omega
    rw [range_succ, map_append, map_append, sum_append, sum_append, hlast]
    simp only [map_cons, map_nil, sum_cons, sum_nil]
    omega

variable (z config lines exceptions) in
theorem countP_availabilityWindows (t lo hi : Int) :
    (availabilityWindows z config lines exceptions lo hi).countP (fun w => covers t w.toRange) =
      ((datesBetween lo hi).map fun d => (windowsOn z config lines exceptions d).countP
        fun w => covers t w.toRange).sum := by
  rw [availabilityWindows, (perm_insertionSort _ _).countP_eq, countP_flatMap]
  rfl

variable (z config lines exceptions) in
theorem countP_dayWindows (t date : Int) :
    (dayWindows z config lines exceptions date).countP (fun p => covers t p.toRange) =
      Set.ncard {r | Owed config (piecesOn z lines exceptions date) r ∧ covers t r} := by
  have hset : {r | Owed config (piecesOn z lines exceptions date) r ∧ covers t r} =
      ((((dayWindows z config lines exceptions date).map fun p => p.toRange).filter (covers t)).toFinset :
        Set Range) := by
    ext r
    simp [mem_dayWindows]
  rw [hset, Set.ncard_coe_finset, toFinset_card_of_nodup ((nodup_dayWindows z config lines exceptions date).filter _),
    ← countP_eq_length_filter, countP_map]
  rfl

theorem near_utcOf (z : Zone) (wall : Int) : wall - DAY_MS < z.utcOf wall ∧ z.utcOf wall < wall + DAY_MS := by
  rcases z.utcOf_cases wall with ⟨hu, -⟩ | ⟨T, -, -, hu⟩
  · have := z.offset_lt (z.utcOf wall)
    omega
  · have := z.offset_lt (T - 1)
    omega

theorem OfDate.near (h : OfDate z config date p)
    (hcovers : covers t p.toRange) : date - 2 ≤ z.localDate t ∧ z.localDate t ≤ date + 2 := by
  obtain ⟨h1, h2⟩ := covers_iff.mp hcovers
  have hstart := near_utcOf z (date * DAY_MS + p.startTime * 1000)
  have hstop := near_utcOf z (date * DAY_MS + p.endTime * 1000)
  have hs := h.start
  have he := h.stop
  have hoff := z.offset_lt t
  rw [h.startMs, Zone.zonedToUtcMs] at h1
  rw [h.endMs, Zone.zonedToUtcMs] at h2
  rw [z.localDate_eq]
  simp only [DAY_MS] at *
  omega

theorem tailCount_far (hlines : ∀ line ∈ lines, line.Valid)
    (hfar : ¬ (date + 1 - 2 ≤ z.localDate t ∧ z.localDate t ≤ date + 1 + 2)) :
    tailCount t (joinedTail z config lines exceptions date) = 0 := by
  cases htail : joinedTail z config lines exceptions date with
  | none => rfl
  | some tail =>
    obtain ⟨join, hjoin, rfl⟩ := Option.map_eq_some_iff.mp htail
    obtain ⟨-, hmem, -⟩ := midnightJoin_some hjoin
    have hnot : covers t join.2.toRange = false := by
      rw [Bool.eq_false_iff]
      intro hcovers
      exact hfar ((ofDate_of_dayWindow hlines hmem).near hcovers)
    simp [tailCount, hnot]

/-- The windows of all dates around an instant cover it as often as the dates' pieces owe. -/
theorem covered_once (hlines : ∀ line ∈ lines, line.Valid) (hlo : lo + 3 ≤ z.localDate t)
    (hhi : z.localDate t + 2 ≤ hi) :
    (availabilityWindows z config lines exceptions lo hi).countP (fun w => covers t w.toRange) =
      ((datesBetween lo hi).map fun d => Set.ncard {r | Owed config (piecesOn z lines exceptions d) r ∧
        covers t r}).sum := by
  have hsum := sum_windows z config lines exceptions t lo (hi - lo + 1).toNat
  have hlast : lo + ((hi - lo + 1).toNat : Int) - 1 = hi := by omega
  rw [tailCount_far hlines (by omega), tailCount_far hlines (by omega)] at hsum
  rw [countP_availabilityWindows, datesBetween, map_map, map_map]
  simp only [Function.comp_def, ← countP_dayWindows]
  exact hsum

/-! ## The midnights a window crosses -/

/-- The midnight a date starts with is inside the window. -/
def Crosses (z : Zone) (w : Window)
    (date : Int) : Prop := w.startMs < z.zonedToUtcMs date 0 ∧ z.zonedToUtcMs date 0 < w.endMs

theorem zonedToUtcMs_midnight (z : Zone) (date : Int) : z.zonedToUtcMs date 0 = z.utcOf (date * DAY_MS) := by
  rw [Zone.zonedToUtcMs, zero_mul, add_zero]

theorem crosses_next (hz : z.MidnightsInOrder) {s e k : Int} (h : Spans z config date w s e)
    (hcross : Crosses z w k) : k = date + 1 := by
  obtain ⟨hafter, hbefore⟩ := hcross
  obtain ⟨h1, h2⟩ := h.start
  obtain ⟨h3, h4⟩ := h.stop
  rw [zonedToUtcMs_midnight] at hafter hbefore
  rw [h.startMs, Zone.zonedToUtcMs] at hafter
  rw [h.endMs, Zone.zonedToUtcMs] at hbefore
  have hlow : ¬ k ≤ date := by
    intro hk
    have hle := hz.le_utcOf (show k * DAY_MS ≤ date * DAY_MS + s * 1000 by simp only [DAY_MS]; omega) (by
      simp only [DAY_MS]; omega)
    omega
  have hhigh : ¬ date + 2 ≤ k := by
    intro hk
    have hle := hz.utcOf_le (show date * DAY_MS + e * 1000 ≤ k * DAY_MS by simp only [DAY_MS]; omega) (by
      simp only [DAY_MS]; omega)
    omega
  omega

def OneMidnight (z : Zone) : Prop :=
  ∀ config lines exceptions, (∀ line ∈ lines, line.Valid) → ∀ lo hi,
    ∀ w ∈ availabilityWindows z config lines exceptions lo hi,
    ∀ d₁ d₂, Crosses z w d₁ → Crosses z w d₂ → d₁ = d₂

theorem oneMidnight_of_inOrder (hz : z.MidnightsInOrder) : OneMidnight z := by
  intro config lines exceptions hlines lo hi w hw d₁ d₂ h₁ h₂
  obtain ⟨date, -, hwd⟩ := mem_availabilityWindows.mp hw
  obtain ⟨s, e, hspans⟩ := spans_of_window hlines hwd
  rw [crosses_next hz hspans h₁, crosses_next hz hspans h₂]

/-- A night is one window, so it crosses one midnight at most. -/
theorem OneMidnight.night (h : OneMidnight z) (date s e : Int) {d₁ d₂ : Int} (hs : 0 ≤ s) (hs' : s < 86400)
    (he : 0 < e) (he' : e < 86400)
    (hhead : z.zonedToUtcMs date s < z.zonedToUtcMs date 86400)
    (htail : z.zonedToUtcMs (date + 1) 0 < z.zonedToUtcMs (date + 1) e)
    (h₁ : Crosses z ⟨⟨z.zonedToUtcMs date s, z.zonedToUtcMs (date + 1) e⟩, date⟩ d₁)
    (h₂ : Crosses z ⟨⟨z.zonedToUtcMs date s, z.zonedToUtcMs (date + 1) e⟩, date⟩ d₂) : d₁ = d₂ := by
  have hmem := (windowsOn_night minutes he' hhead htail).1 ▸ mem_singleton_self _
  exact h minutes (Slots.night date s e) [] (valid_night hs hs' he he') date date _
    (mem_availabilityWindows.mpr ⟨date, ⟨le_rfl, le_rfl⟩, hmem⟩) d₁ d₂ h₁ h₂

theorem OneMidnight.not_inside (h : OneMidnight z)
    (T date : Int) : ¬ (T + z.offsetMs (T - 1) < date * DAY_MS ∧ date * DAY_MS < T + z.offsetMs T) := by
  intro ⟨h1, h2⟩
  have hne : z.offsetMs (T - 1) ≠ z.offsetMs T := by omega
  obtain ⟨hb', hb, hsize, -⟩ := Zone.changes_of_turn hne
  have hseconds := Zone.turn_seconds hne
  obtain ⟨s, hs⟩ : ∃ s, s = (T + z.offsetMs T - date * DAY_MS) / 1000 := ⟨_, rfl⟩
  simp only [DAY_MS] at h1 h2 hb hb' hsize hs
  have hmid := Zone.zonedToUtcMs_before hne date 0 (by omega) (.inr (by omega))
  have hstart := Zone.zonedToUtcMs_after hne date s (by omega) (by omega) (by omega)
  have hnext := Zone.zonedToUtcMs_after hne (date + 1) 0 (by omega) (by omega) (by omega)
  have hstop := Zone.zonedToUtcMs_after hne (date + 1) 1 (by omega) (by omega) (by omega)
  have hjoin : z.zonedToUtcMs date 86400 = z.zonedToUtcMs (date + 1) 0 := (zonedToUtcMs_next date 0).symm
  have hsame : date = date + 1 := h.night date s 1 (by omega) (by omega) (by decide) (by decide) (by omega) (by omega)
    ⟨by dsimp only; omega, by dsimp only; omega⟩ ⟨by dsimp only; omega, by dsimp only; omega⟩
  omega

theorem OneMidnight.not_after (h : OneMidnight z) (T date : Int) :
    ¬ (T + z.offsetMs T ≤ date * DAY_MS ∧ date * DAY_MS < T + 2 * z.offsetMs T - z.offsetMs (T - 1) - 1000) := by
  intro ⟨h1, h2⟩
  have hne : z.offsetMs (T - 1) ≠ z.offsetMs T := by omega
  obtain ⟨hb', hb, hsize, -⟩ := Zone.changes_of_turn hne
  have hseconds := Zone.turn_seconds hne
  obtain ⟨e, he⟩ : ∃ e, e = (T + z.offsetMs T - 1000 - (date - 1) * DAY_MS) / 1000 := ⟨_, rfl⟩
  simp only [DAY_MS] at h1 h2 hb hb' hsize he
  have hlast := Zone.zonedToUtcMs_after hne date 0 (by omega) (by omega) (by omega)
  have hhead := Zone.zonedToUtcMs_before hne (date - 2) 86399 (by omega) (.inr (by omega))
  have hmid := Zone.zonedToUtcMs_before hne (date - 2 + 1) 0 (by omega) (.inr (by omega))
  have hstop := Zone.zonedToUtcMs_before hne (date - 2 + 1) e (by omega) (.inr (by omega))
  have hjoin : z.zonedToUtcMs (date - 2) 86400 = z.zonedToUtcMs (date - 2 + 1) 0 :=
    (zonedToUtcMs_next (date - 2) 0).symm
  have hsame : date - 2 + 1 = date :=
    h.night (date - 2) 86399 e (by decide) (by decide) (by omega) (by omega) (by omega) (by omega)
    ⟨by dsimp only; omega, by dsimp only; omega⟩ ⟨by dsimp only; omega, by dsimp only; omega⟩
  omega

/-- Each date has its windows whatever the range asked for, they cover every instant as often as the
    pieces around it owe, and each crosses one midnight at most. -/
structure WindowsLocal (z : Zone) : Prop where
  ofDate : ∀ config lines exceptions lo d hi, lo ≤ d → d ≤ hi →
    (availabilityWindows z config lines exceptions lo hi).filter
      (fun w => w.date = d) = availabilityWindows z config lines exceptions d d
  covered : ∀ config lines exceptions, (∀ line ∈ lines, line.Valid) → ∀ t lo hi, lo + 3 ≤ z.localDate t →
    z.localDate t + 2 ≤ hi →
    (availabilityWindows z config lines exceptions lo hi).countP (fun w => covers t w.toRange) =
      ((datesBetween lo hi).map fun d => Set.ncard {r | Owed config (piecesOn z lines exceptions d) r ∧ covers t r}).sum
  oneMidnight : OneMidnight z

/-- The windows are local exactly where no date starts in a gap, past its first wall, or less than its
    length after it. -/
theorem windowsLocal_iff (z : Zone) : WindowsLocal z ↔ z.MidnightsInOrder := by
  constructor
  · intro hlocal T date ⟨h1, h2⟩
    rcases lt_or_ge (date * DAY_MS) (T + z.offsetMs T) with hinside | hafter
    · exact hlocal.oneMidnight.not_inside T date ⟨h1, hinside⟩
    · exact hlocal.oneMidnight.not_after T date ⟨hafter, h2⟩
  · intro hz
    refine ⟨?_, ?_, oneMidnight_of_inOrder hz⟩
    · intro config lines exceptions lo d hi h1 h2
      exact filter_availabilityWindows z config lines exceptions h1 h2
    · intro config lines exceptions hlines t lo hi hlo hhi
      exact covered_once hlines hlo hhi

theorem inOrder_paris : Zone.paris.MidnightsInOrder := by
  intro T date
  simp only [Zone.offsetMs, ZonedTime.offsetMs, Zone.paris, Zone.turning, whole, DAY_MS]
  split_ifs <;> omega

/-- In Paris the windows are local, over the night of the change as well. -/
theorem paris_windows_are_local : WindowsLocal Zone.paris := (windowsLocal_iff Zone.paris).mpr inOrder_paris

/-- In Nuuk the Friday night until Saturday 23:30, which is skipped, crosses the midnights of the
    Saturday and of the Sunday. -/
theorem friday_night_crosses_two_midnights :
    availabilityWindows Zone.nuuk halfHours weekendNight [] 20539 20539 = [⟨⟨1774648800000, 1774747800000⟩, 20539⟩] ∧
      Crosses Zone.nuuk ⟨⟨1774648800000, 1774747800000⟩, 20539⟩ 20540 ∧
        Crosses Zone.nuuk ⟨⟨1774648800000, 1774747800000⟩, 20539⟩ 20541 ∧
      ¬ WindowsLocal Zone.nuuk := by
  have hwindow : availabilityWindows Zone.nuuk halfHours weekendNight
    [] 20539 20539 = [⟨⟨1774648800000, 1774747800000⟩, 20539⟩] := by
    decide
  have hsaturday : Crosses Zone.nuuk ⟨⟨1774648800000, 1774747800000⟩, 20539⟩ 20540 := ⟨by decide, by decide⟩
  have hsunday : Crosses Zone.nuuk ⟨⟨1774648800000, 1774747800000⟩, 20539⟩ 20541 := ⟨by decide, by decide⟩
  refine ⟨hwindow, hsaturday, hsunday, fun hlocal => ?_⟩
  have hsame := hlocal.oneMidnight halfHours weekendNight []
    (valid_night (by decide) (by decide) (by decide) (by decide)) 20539 20539 _
    (hwindow ▸ mem_singleton_self _) 20540 20541 hsaturday hsunday
  cases hsame

end Canari.Bookings.Slots
