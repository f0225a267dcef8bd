/-
  Canari.Bookings.Openings — what the verdict on a range reads of the windows it is given.

  The sweep of `insideOneOpening` finds the range inside one opening exactly when every instant of
  it is in a window (`insideOneOpening_iff`), whatever the order of the windows. So a window that
  does not overlap the range decides nothing: two lists with the same overlapping windows get the
  same verdict (`checkRangeShape_congr`).
-/

import Canari.Bookings.Slots

namespace Canari.Bookings.Slots

open Bookings.ZonedTime List

variable {config : SlotConfig} {windows windows' : List Window} {range : Range}

/-! ## The sweep -/

instance : Std.Total sooner := ⟨fun x y => by simp only [sooner]; omega⟩

instance : IsTrans Range sooner := ⟨fun x y w h h' => by simp only [sooner] at *; omega⟩

theorem reaches_none (hpos : range.startMs < range.endMs)
    (l : List Range) : reaches range none l = reaches range (some range.startMs) l := by
  induction l with
  | nil => rfl
  | cons w rest ih =>
    simp only [reaches]
    by_cases h : w.startMs ≤ range.startMs ∧ range.startMs < w.endMs
    · rw [if_pos h, if_pos h]
    · rw [if_neg h, if_neg h]
      dsimp only
      rw [if_neg (not_le.mpr hpos), ih]

/-- From `m` on, the sweep reaches the end of the range when the windows still to come hold every instant up to it. -/
theorem reaches_iff {l : List Range} (hl : l.Pairwise sooner) :
    ∀ m, m < range.endMs → (reaches range (some m) l = true ↔
      ∀ x, m ≤ x → x < range.endMs → ∃ w ∈ l, w.startMs ≤ x ∧ x < w.endMs) := by
  induction l with
  | nil =>
    intro m hm
    simp only [reaches, not_mem_nil, false_and, exists_false, Bool.false_eq_true, false_iff]
    exact fun h => h m le_rfl hm
  | cons w rest ih =>
    intro m hm
    obtain ⟨hw, hrest⟩ := pairwise_cons.mp hl
    simp only [reaches]
    by_cases h : w.startMs ≤ m ∧ w.endMs > m
    · rw [if_pos h]
      dsimp only
      split_ifs with hend
      · exact iff_of_true rfl fun x hx hx' => ⟨w, mem_cons_self, by omega, by omega⟩
      · rw [ih hrest w.endMs (not_le.mp hend)]
        constructor
        · intro hcover x hx hx'
          rcases lt_or_ge x w.endMs with hlt | hge
          · exact ⟨w, mem_cons_self, by omega, hlt⟩
          · obtain ⟨w', hw', hin⟩ := hcover x hge hx'
            exact ⟨w', mem_cons_of_mem w hw', hin⟩
        · intro hcover x hx hx'
          obtain ⟨w', hw', hin⟩ := hcover x (by omega) hx'
          rcases mem_cons.mp hw' with rfl | hw'
          · omega
          · exact ⟨w', hw', hin⟩
    · rw [if_neg h]
      dsimp only
      rw [if_neg (not_le.mpr hm), ih hrest m hm]
      constructor
      · intro hcover x hx hx'
        obtain ⟨w', hw', hin⟩ := hcover x hx hx'
        exact ⟨w', mem_cons_of_mem w hw', hin⟩
      · intro hcover
        -- The window that holds `m` is still to come, so this one starts no later: it ends before `m`.
        obtain ⟨w₀, hw₀, hin₀⟩ := hcover m le_rfl hm
        have hle : w.startMs ≤ m := by
          rcases mem_cons.mp hw₀ with rfl | hw₀
          · exact hin₀.1
          · have := hw w₀ hw₀
            simp only [sooner] at this
            omega
        intro x hx hx'
        obtain ⟨w', hw', hin⟩ := hcover x hx hx'
        rcases mem_cons.mp hw' with rfl | hw'
        · omega
        · exact ⟨w', hw', hin⟩

theorem insideOneOpening_iff (hpos : range.startMs < range.endMs) :
    insideOneOpening windows range = true ↔ ∀ x, range.startMs ≤ x → x < range.endMs → ∃ w ∈ windows, w.startMs ≤ x ∧
      x < w.endMs := by
  rw [insideOneOpening, reaches_none hpos, reaches_iff (pairwise_insertionSort sooner _) _ hpos]
  simp

/-! ## Windows that overlap the range -/

def overlaps (a b : Range) : Prop := a.startMs < b.endMs ∧ b.startMs < a.endMs

theorem mem_stepsOf {step : Int} (hstep : 0 < step) {w u : Window} :
    u ∈ stepsOf step w ↔ ∃ k : ℕ, u = ⟨⟨w.startMs + k * step, w.startMs + k * step + step⟩, w.date⟩ ∧
      w.startMs + k * step + step ≤ w.endMs := by
  have hbound : ∀ k : ℕ, k < ((w.endMs - w.startMs) / step).toNat ↔ w.startMs + k * step + step ≤ w.endMs := by
    intro k
    have h := Int.le_ediv_iff_mul_le (a := (k : Int) + 1) (b := w.endMs - w.startMs) hstep
    rw [Int.add_mul] at h
    omega
  simp only [stepsOf, mem_map, mem_range]
  constructor
  · rintro ⟨k, hk, rfl⟩
    exact ⟨k, rfl, (hbound k).mp hk⟩
  · rintro ⟨k, rfl, hk⟩
    exact ⟨k, (hbound k).mpr hk, rfl⟩

theorem overlaps_of_step {step s : Int} (hstep : 0 < step) {w u : Window} (hu : u ∈ stepsOf step w) (hs : u.startMs = s)
    (h1 : range.startMs ≤ s) (h2 : s < range.endMs) : overlaps w.toRange range := by
  obtain ⟨k, rfl, hk⟩ := (mem_stepsOf hstep).mp hu
  have hpos : 0 ≤ (k : Int) * step := Int.mul_nonneg (Int.natCast_nonneg k) hstep.le
  dsimp only at hs
  exact ⟨by omega, by omega⟩

theorem mem_starts (hmode : config.slotMode = .step) (hstep : 0 < config.stepMs) {s : Int} :
    (s ∈ (slotUnits config windows).map fun u => u.startMs) ↔
      ∃ w ∈ windows, ∃ u ∈ stepsOf config.stepMs w, u.startMs = s := by
  rw [slotUnits, hmode]
  rw [if_neg (not_le.mpr hstep)]
  simp only [mem_map, mem_flatMap]
  constructor
  · rintro ⟨u, ⟨w, hw, hu⟩, hs⟩
    exact ⟨w, hw, u, hu, hs⟩
  · rintro ⟨w, hw, u, hu, hs⟩
    exact ⟨u, ⟨w, hw, hu⟩, hs⟩

theorem step_inside {step : Int} (hstep : 0 < step) {k : ℕ} (hk : k < ((range.endMs - range.startMs) / step).toNat) :
    range.startMs ≤ range.startMs + k * step ∧ range.startMs + k * step < range.endMs := by
  have h := (Int.le_ediv_iff_mul_le hstep).mp (show (k : Int) + 1 ≤ (range.endMs - range.startMs) / step by omega)
  have hpos : 0 ≤ (k : Int) * step := Int.mul_nonneg (Int.natCast_nonneg k) hstep.le
  rw [Int.add_mul] at h
  exact ⟨by omega, by omega⟩

theorem aligned_congr {step : Int} (hstep : 0 < step) {starts starts' : List Int}
    (h : ∀ s, range.startMs ≤ s → s < range.endMs → (s ∈ starts ↔ s ∈ starts')) :
    aligned step starts range = aligned step starts' range := by
  rw [aligned]
  congr 1
  rw [Bool.eq_iff_iff]
  simp only [all_eq_true, mem_range, decide_eq_true_eq]
  refine forall_congr' fun k => imp_congr_right fun hk => ?_
  obtain ⟨h1, h2⟩ := step_inside hstep hk
  exact h _ h1 h2

/-- Only the windows that overlap the range decide its verdict. -/
theorem checkRangeShape_congr (h : ∀ w : Window, overlaps w.toRange range → (w ∈ windows ↔ w ∈ windows')) :
    checkRangeShape config windows range = checkRangeShape config windows' range := by
  rw [checkRangeShape, checkRangeShape]
  cases hlen : rangeLengthRefusal config range with
  | some refusal => rfl
  | none =>
    have hpos : range.startMs < range.endMs := by
      rw [rangeLengthRefusal] at hlen
      by_contra hneg
      simp only [show ¬ range.endMs - range.startMs > 0 by omega, not_false_eq_true, if_true] at hlen
      cases hlen
    cases hmode : config.slotMode with
    | slots =>
      have hany : (windows.any fun w => w.startMs = range.startMs && w.endMs = range.endMs) =
          windows'.any fun w => w.startMs = range.startMs && w.endMs = range.endMs := by
        rw [Bool.eq_iff_iff]
        simp only [List.any_eq_true, Bool.and_eq_true, decide_eq_true_eq]
        refine exists_congr fun w => and_congr_left fun hw => h w ⟨by omega, by omega⟩
      simp only [hany]
    | step =>
      have hopen : insideOneOpening windows range = insideOneOpening windows' range := by
        rw [Bool.eq_iff_iff, insideOneOpening_iff hpos, insideOneOpening_iff hpos]
        refine forall_congr' fun x => imp_congr_right fun hx => imp_congr_right fun hx' => exists_congr fun w => ?_
        exact and_congr_left fun hw => h w ⟨by omega, by omega⟩
      by_cases hstep : config.stepMs ≤ 0
      · simp [hopen, hstep]
      · have haligned : aligned config.stepMs ((slotUnits config windows).map fun u => u.startMs) range =
            aligned config.stepMs ((slotUnits config windows').map fun u => u.startMs) range := by
          refine aligned_congr (not_le.mp hstep) fun s h1 h2 => ?_
          rw [mem_starts hmode (not_le.mp hstep), mem_starts hmode (not_le.mp hstep)]
          refine exists_congr fun w => and_congr_left ?_
          rintro ⟨u, hu, hs⟩
          exact h w (overlaps_of_step (not_le.mp hstep) hu hs h1 h2)
        simp only [hopen, haligned]

end Canari.Bookings.Slots
