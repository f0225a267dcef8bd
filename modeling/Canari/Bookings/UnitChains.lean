/-
  Canari.Bookings.UnitChains — in a step space, the ranges taken are the runs of units.

  `checkRangeShape` tests three things: every instant is in an opening, the range starts where a unit
  does, and so does every step of it. A unit is a step long, so a start at each step is a unit at each
  step, and the windows these units are cut from hold the whole range: the three tests together say
  that the range is units one after the other, as many as one booking may cover
  (`checkRangeShape_iff_chain`).
-/

import Canari.Bookings.Openings

namespace Canari.Bookings.Slots

open List

/-- Units one after the other from `start` to `stop`. -/
def Chained : Int → Int → List Window → Prop
  | start, stop, [] => start = stop
  | start, stop, u :: rest => u.startMs = start ∧ Chained u.endMs stop rest

variable {config : SlotConfig} {windows : List Window} {range : Range} {step start stop : Int} {units : List Window}

theorem mem_slotUnits (hmode : config.slotMode = .step) (hstep : 0 < config.stepMs) {u : Window} :
    u ∈ slotUnits config windows ↔ ∃ w ∈ windows, u ∈ stepsOf config.stepMs w := by
  rw [slotUnits, hmode]
  rw [if_neg (not_le.mpr hstep), mem_flatMap]

theorem length_of_step (hstep : 0 < step) {w u : Window}
    (hu : u ∈ stepsOf step w) : u.endMs = u.startMs + step ∧ w.startMs ≤ u.startMs ∧ u.endMs ≤ w.endMs := by
  obtain ⟨k, rfl, hk⟩ := (mem_stepsOf hstep).mp hu
  have hnn : 0 ≤ (k : Int) * step := Int.mul_nonneg (Int.natCast_nonneg k) hstep.le
  exact ⟨rfl, by dsimp only; omega, hk⟩

theorem succ_steps (k : ℕ) (step : Int) : ((k + 1 : ℕ) : Int) * step = k * step + step := by
  rw [Int.natCast_add, Int.natCast_one, Int.add_mul, Int.one_mul]

theorem Chained.stop_eq (h : Chained start stop units)
    (hlen : ∀ u ∈ units, u.endMs = u.startMs + step) : stop = start + units.length * step := by
  induction units generalizing start with
  | nil =>
    cases h
    simp
  | cons u rest ih =>
    obtain ⟨hu, hrest⟩ := h
    have hstop := ih hrest fun v hv => hlen v (mem_cons_of_mem u hv)
    have huend := hlen u mem_cons_self
    rw [hstop, huend, length_cons, succ_steps]
    omega

theorem Chained.start_of (h : Chained start stop units) (hlen : ∀ u ∈ units, u.endMs = u.startMs + step) {k : ℕ}
    (hk : k < units.length) :
    ∃ u ∈ units, u.startMs = start + k * step := by
  induction units generalizing start k with
  | nil => cases hk
  | cons u rest ih =>
    obtain ⟨hu, hrest⟩ := h
    cases k with
    | zero => exact ⟨u, mem_cons_self, by rw [hu]; simp⟩
    | succ k =>
      obtain ⟨v, hv, hvs⟩ := ih hrest (fun v hv => hlen v (mem_cons_of_mem u hv)) (Nat.lt_of_succ_lt_succ hk)
      have huend := hlen u mem_cons_self
      refine ⟨v, mem_cons_of_mem u hv, ?_⟩
      rw [hvs, huend, succ_steps]
      omega

/-- Every instant of a chain is in one of its units. -/
theorem Chained.holds (h : Chained start stop units) {x : Int} (h1 : start ≤ x)
    (h2 : x < stop) : ∃ u ∈ units, u.startMs ≤ x ∧ x < u.endMs := by
  induction units generalizing start with
  | nil =>
    cases h
    omega
  | cons u rest ih =>
    obtain ⟨hu, hrest⟩ := h
    rcases lt_or_ge x u.endMs with hx | hx
    · exact ⟨u, mem_cons_self, by omega, hx⟩
    · obtain ⟨v, hv, hin⟩ := ih hrest hx
      exact ⟨v, mem_cons_of_mem u hv, hin⟩

/-- A start at each step is a chain of units. -/
theorem chained_of_starts (hmode : config.slotMode = .step) (hstep : 0 < config.stepMs) (n : ℕ)
    (h : ∀ k : ℕ, k < n → start + k * config.stepMs ∈ (slotUnits config windows).map fun u => u.startMs) :
    ∃ units, (∀ u ∈ units, u ∈ slotUnits config windows) ∧ units.length = n ∧
      Chained start (start + n * config.stepMs) units := by
  induction n generalizing start with
  | zero => exact ⟨[], by simp, rfl, by simp [Chained]⟩
  | succ n ih =>
    have hfirst := h 0 (Nat.succ_pos n)
    obtain ⟨u, hu, hus⟩ := mem_map.mp hfirst
    obtain ⟨w, -, huw⟩ := (mem_slotUnits hmode hstep).mp hu
    have huend := (length_of_step hstep huw).1
    obtain ⟨units, hunits, hlen, hchain⟩ := @ih (start + config.stepMs) fun k hk => by
      have hk' := h (k + 1) (Nat.succ_lt_succ hk)
      rw [succ_steps] at hk'
      rwa [Int.add_assoc, Int.add_comm config.stepMs]
    refine ⟨u :: units, ?_, by rw [length_cons, hlen], by rw [hus]; simp, ?_⟩
    · intro v hv
      rcases mem_cons.mp hv with rfl | hv
      · exact hu
      · exact hunits v hv
    · have hstart : u.endMs = start + config.stepMs := by
        rw [huend, hus]
        simp
      have hstop : start + (n + 1 : ℕ) * config.stepMs = start + config.stepMs + n * config.stepMs := by
        rw [succ_steps]
        omega
      rw [hstart, hstop]
      exact hchain

/-- Units one after the other, as many as one booking may cover, are taken. -/
theorem accepted_of_chain (hmode : config.slotMode = .step) (hunits : ∀ u ∈ units, u ∈ slotUnits config windows)
    (hone : 1 ≤ units.length)
    (hmax : (units.length : Int) ≤ config.maxSteps.getD 1) (hchain : Chained range.startMs range.endMs units) :
    checkRangeShape config windows range = none := by
  -- A unit of a step space has a step.
  have hstep : 0 < config.stepMs := by
    by_contra hneg
    obtain ⟨u, hu⟩ := exists_mem_of_length_pos hone
    have hu := hunits u hu
    rw [slotUnits, hmode] at hu
    rw [if_pos (not_lt.mp hneg)] at hu
    cases hu
  have hlen : ∀ u ∈ units, u.endMs = u.startMs + config.stepMs := by
    intro u hu
    obtain ⟨w, -, huw⟩ := (mem_slotUnits hmode hstep).mp (hunits u hu)
    exact (length_of_step hstep huw).1
  have hstop := hchain.stop_eq hlen
  have hlength : range.endMs - range.startMs = units.length * config.stepMs := by omega
  have hpos : 1 * config.stepMs ≤ units.length * config.stepMs := Int.mul_le_mul_of_nonneg_right (by omega) hstep.le
  have hbound := Int.mul_le_mul_of_nonneg_right hmax hstep.le
  have hrefusal : rangeLengthRefusal config range = none := by
    rw [rangeLengthRefusal, hmode]
    dsimp only
    rw [if_neg (by omega), if_neg (by omega), if_neg (by omega)]
  have hopen : insideOneOpening windows range = true := by
    refine (insideOneOpening_iff (by omega)).mpr fun x hx hx' => ?_
    obtain ⟨u, hu, hin⟩ := hchain.holds hx hx'
    obtain ⟨w, hw, huw⟩ := (mem_slotUnits hmode hstep).mp (hunits u hu)
    obtain ⟨-, h1, h2⟩ := length_of_step hstep huw
    exact ⟨w, hw, by omega, by omega⟩
  have haligned : aligned config.stepMs ((slotUnits config windows).map fun u => u.startMs) range = true := by
    rw [aligned, hlength, Int.mul_emod_left, Int.mul_ediv_cancel _ hstep.ne']
    simp only [decide_true, Bool.true_and, all_eq_true, mem_range, decide_eq_true_eq, Int.toNat_natCast]
    intro k hk
    obtain ⟨u, hu, hus⟩ := hchain.start_of hlen hk
    exact mem_map.mpr ⟨u, hunits u hu, hus⟩
  rw [checkRangeShape, hrefusal, hmode]
  simp [hopen, haligned, not_le.mpr hstep]

/-- What is taken is units one after the other. -/
theorem chain_of_accepted (hmode : config.slotMode = .step) (h : checkRangeShape config windows range = none) :
    ∃ units, (∀ u ∈ units, u ∈ slotUnits config windows) ∧ 1 ≤ units.length ∧
      (units.length : Int) ≤ config.maxSteps.getD 1 ∧
      Chained range.startMs range.endMs units := by
  rw [checkRangeShape] at h
  cases hrefusal : rangeLengthRefusal config range with
  | some refusal =>
    rw [hrefusal] at h
    cases h
  | none =>
    rw [hrefusal, hmode] at h
    dsimp only at h
    split_ifs at h with hopen hneg haligned
    have hstep : 0 < config.stepMs := not_le.mp hneg
    rw [Bool.not_eq_true', Bool.not_eq_false, aligned, Bool.and_eq_true, decide_eq_true_eq, all_eq_true] at haligned
    obtain ⟨hmod, hstarts⟩ := haligned
    rw [rangeLengthRefusal, hmode] at hrefusal
    dsimp only at hrefusal
    split_ifs at hrefusal with hpos hlong
    have hlength := Int.ediv_mul_cancel_of_emod_eq_zero hmod
    obtain ⟨n, hn⟩ := Int.eq_ofNat_of_zero_le (Int.ediv_nonneg (by omega : 0 ≤ range.endMs - range.startMs) hstep.le)
    rw [hn] at hlength
    obtain ⟨units, hunits, hcount, hchain⟩ := chained_of_starts hmode hstep n fun k hk => by
      have hk' := hstarts k (mem_range.mpr (by omega))
      exact of_decide_eq_true hk'
    refine ⟨units, hunits, ?_, ?_, ?_⟩
    · rw [hcount]
      by_contra hzero
      rw [Nat.lt_one_iff.mp (Nat.lt_of_not_le hzero)] at hlength
      omega
    · rw [hcount]
      refine Int.le_of_mul_le_mul_right ?_ hstep
      omega
    · have hstop : range.startMs + n * config.stepMs = range.endMs := by omega
      rw [hstop] at hchain
      exact hchain

/-- In a step space the ranges taken are the units one after the other, from one to as many as a booking may cover. -/
theorem checkRangeShape_iff_chain (config : SlotConfig) (hmode : config.slotMode = .step) (windows : List Window)
    (range : Range) :
    checkRangeShape config windows range = none ↔
      ∃ units, (∀ u ∈ units, u ∈ slotUnits config windows) ∧ 1 ≤ units.length ∧
      (units.length : Int) ≤ config.maxSteps.getD 1 ∧ Chained range.startMs range.endMs units := by
  constructor
  · exact chain_of_accepted hmode
  · rintro ⟨units, hunits, hone, hmax, hchain⟩
    exact accepted_of_chain hmode hunits hone hmax hchain

/-- Half hours of an hour and a quarter: the first two are a booking, the last quarter is no unit. -/
theorem two_half_hours_are_taken :
    checkRangeShape ⟨.step, some 30, some 4⟩ [⟨⟨0, 4500000⟩, 0⟩] ⟨0, 3600000⟩ = none :=
  (checkRangeShape_iff_chain ⟨.step, some 30, some 4⟩ rfl _ _).mpr
    ⟨[⟨⟨0, 1800000⟩, 0⟩, ⟨⟨1800000, 3600000⟩, 0⟩], by decide, by decide, by decide, rfl, rfl, rfl⟩

end Canari.Bookings.Slots
