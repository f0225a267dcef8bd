/-
  Canari.Bookings.DayLanes — where the units of one day are drawn (frontend lib/bookings/grid.ts, placeDay).

  A unit sits at the wall minute of its start and is as tall as it lasts. Units that overlap on that
  axis share the width in lanes: one sweep in time order puts each unit in the first lane that has
  ended, and closes the cluster when all of them have, every unit of it then being as wide as the
  cluster has lanes.

  A closed cluster is never opened again. So long as no unit reaches back over one, units that
  overlap are side by side (`drawn_of_noReachBack`). Minutes are read off the wall clock, and on a
  date where they rise and then fall a later unit does reach back: it is drawn over a unit that was
  given the whole width (`second_two_o_clock_covers_the_first`).
-/

import Canari.Bookings.ClockChanges
import Canari.Bookings.Selection
import Mathlib.Algebra.Order.Field.Rat
import Mathlib.Tactic.Linarith
import Mathlib.Data.List.Pairwise
import Mathlib.Data.List.Sort
import Mathlib.Logic.Relation

namespace Canari.Bookings.Grid

open Bookings.Slots Bookings.ZonedTime List

variable (wallClockMs : Int → Int)

def wallMinutes (instantMs : Int) : Int := wallClockMs instantMs % DAY_MS / 60000

def unitDay (unit : SlotUnit) : Int := wallClockMs unit.startMs / DAY_MS

structure PlacedUnit where
  unit : SlotUnit
  topMin : ℚ
  heightMin : ℚ
  lane : ℕ
  lanes : ℕ
  deriving DecidableEq

def PlacedUnit.endMin (p : PlacedUnit) : ℚ := p.topMin + p.heightMin

def bar (unit : SlotUnit) : PlacedUnit :=
  ⟨unit, wallMinutes wallClockMs unit.startMs, ((unit.endMs - unit.startMs : Int) : ℚ) / 60000, 0, 1⟩

/-- What the loop of `placeDay` holds: the units of the closed clusters, the open cluster and where its lanes end. -/
structure Sweep where
  done : List PlacedUnit
  cluster : List PlacedUnit
  laneEnds : List ℚ

def closeCluster (s : Sweep) : Sweep := ⟨s.done ++ s.cluster.map fun p => { p with lanes := s.laneEnds.length }, [], []⟩

def putInLane (s : Sweep) (p : PlacedUnit) : Sweep :=
  let lane := s.laneEnds.findIdx (· ≤ p.topMin)
  let laneEnds := if lane < s.laneEnds.length then s.laneEnds else s.laneEnds ++ [0]
  ⟨s.done, s.cluster ++ [{ p with lane := lane }], laneEnds.set lane p.endMin⟩

def sweepUnit (s : Sweep) (p : PlacedUnit) : Sweep :=
  if s.laneEnds.length > 0 ∧ s.laneEnds.all (· ≤ p.topMin) then putInLane (closeCluster s) p else putInLane s p

def placeDay (units : List SlotUnit) : List PlacedUnit :=
  (closeCluster ((units.map (bar wallClockMs)).foldl sweepUnit ⟨[], [], []⟩)).done

/-- The units of one date, in time order: what `weekLayout` gives `placeDay`. -/
def cellsOn (units : List SlotUnit) (date : Int) : List SlotUnit :=
  (units.insertionSort fun a b => a.startMs ≤ b.startMs).filter fun u => unitDay wallClockMs u = date

/-! ## What a drawn day has to be -/

def Overlaps (p q : PlacedUnit) : Prop := p.topMin < q.endMin ∧ q.topMin < p.endMin

instance : DecidableRel Overlaps := fun p q => inferInstanceAs (Decidable (p.topMin < q.endMin ∧ q.topMin < p.endMin))

def PlacedUnit.left (p : PlacedUnit) : ℚ := p.lane / p.lanes

def PlacedUnit.right (p : PlacedUnit) : ℚ := (p.lane + 1) / p.lanes

def Covers (p q : PlacedUnit) : Prop := Overlaps p q ∧ p.left < q.right ∧ q.left < p.right

def Clustered (placed : List PlacedUnit) : PlacedUnit → PlacedUnit → Prop :=
  Relation.ReflTransGen fun p q => q ∈ placed ∧ Overlaps p q

structure Drawn (placed : List PlacedUnit) : Prop where
  apart : placed.Pairwise fun p q => Overlaps p q → p.lane ≠ q.lane
  shared : ∀ p ∈ placed, ∀ q, Clustered placed p q → p.lanes = q.lanes
  below : ∀ p ∈ placed, p.lane < p.lanes
  uncovered : placed.Pairwise fun p q => ¬ Covers p q

/-- A unit that starts when all before it have ended parts them from every later one. -/
def NoReachBack (bars : List PlacedUnit) : Prop :=
  ∀ before p after, bars = before ++ p :: after → (∀ x ∈ before, x.endMin ≤ p.topMin) →
    ∀ x ∈ before, ∀ y ∈ after, ¬ Overlaps x y

/-- On the date the minutes never fall after they have risen. -/
def NoTurn (date : Int) : Prop :=
  ∀ s₁ s₂ s₃, s₁ ≤ s₂ → s₂ ≤ s₃ → (∀ s ∈ [s₁, s₂, s₃], wallClockMs s / DAY_MS = date) →
    wallMinutes wallClockMs s₁ < wallMinutes wallClockMs s₂ → wallMinutes wallClockMs s₂ ≤ wallMinutes wallClockMs s₃

/-! ## The sweep -/

/-- Two units that overlap are in different lanes of as many. -/
def Fits (p q : PlacedUnit) : Prop := Overlaps p q → p.lane ≠ q.lane ∧ p.lanes = q.lanes

/-- The open cluster: every unit ends within its lane, and the units of a lane follow one another. -/
structure Laned (cluster : List PlacedUnit) (laneEnds : List ℚ) : Prop where
  held : ∀ p ∈ cluster, ∃ stop, laneEnds[p.lane]? = some stop ∧ p.endMin ≤ stop
  inTurn : cluster.Pairwise fun p q => p.lane = q.lane → p.endMin ≤ q.topMin

def PlacedUnit.bare (p : PlacedUnit) : PlacedUnit := { p with lane := 0, lanes := 1 }

variable {p q x y : PlacedUnit} {s : Sweep} {seen rest : List PlacedUnit} {cluster : List PlacedUnit}
    {laneEnds : List ℚ}

theorem overlaps_symm (h : Overlaps p q) : Overlaps q p := ⟨h.2, h.1⟩

theorem fits_symm (h : Fits p q) : Fits q p := by
  intro hover
  obtain ⟨hlane, hlanes⟩ := h (overlaps_symm hover)
  exact ⟨hlane.symm, hlanes.symm⟩

instance : Std.Symm Fits := ⟨fun _ _ => fits_symm⟩

theorem not_overlaps_of_end (h : p.endMin ≤ q.topMin) : ¬ Overlaps p q := fun hover => absurd hover.2 (not_lt.mpr h)

/-- A lane ended by the top of a unit, or a new one, takes it in its turn. -/
theorem Laned.put (h : Laned s.cluster s.laneEnds) (hp : p.topMin ≤ p.endMin) :
    Laned (putInLane s p).cluster (putInLane s p).laneEnds := by
  unfold putInLane
  by_cases hlt : s.laneEnds.findIdx (· ≤ p.topMin) < s.laneEnds.length
  · -- The lane has ended: what stands in it ends by `p.topMin`.
    have hended : s.laneEnds[s.laneEnds.findIdx (· ≤ p.topMin)] ≤ p.topMin := by
      simpa using findIdx_getElem (w := hlt)
    have hin : ∀ m ∈ s.cluster, m.lane = s.laneEnds.findIdx (· ≤ p.topMin) → m.endMin ≤ p.topMin := by
      intro m hm hlane
      obtain ⟨stop, hstop, hle⟩ := h.held m hm
      rw [hlane, getElem?_eq_getElem hlt, Option.some.injEq] at hstop
      rw [← hstop] at hle
      exact le_trans hle hended
    refine ⟨?_, ?_⟩
    · intro m hm
      simp only [if_pos hlt]
      rcases mem_append.mp hm with hm | hm
      · by_cases hlane : m.lane = s.laneEnds.findIdx (· ≤ p.topMin)
        · exact ⟨p.endMin, by rw [hlane, getElem?_set_self hlt], le_trans (hin m hm hlane) hp⟩
        · rw [getElem?_set_ne (Ne.symm hlane)]
          exact h.held m hm
      · rw [mem_singleton.mp hm]
        exact ⟨p.endMin, getElem?_set_self hlt, le_refl _⟩
    · refine pairwise_append.mpr ⟨h.inTurn, pairwise_singleton _ _, ?_⟩
      intro m hm n hn hlane
      rw [mem_singleton.mp hn] at hlane ⊢
      exact hin m hm hlane
  · -- No lane has: the unit opens one, and no unit stands there.
    have hlen : s.laneEnds.findIdx (· ≤ p.topMin) = s.laneEnds.length :=
      le_antisymm findIdx_le_length (not_lt.mp hlt)
    have hin : ∀ m ∈ s.cluster, m.lane < s.laneEnds.length := by
      intro m hm
      obtain ⟨stop, hstop, -⟩ := h.held m hm
      exact (List.getElem?_eq_some_iff.mp hstop).1
    simp only [hlen, lt_irrefl, if_false]
    refine ⟨?_, ?_⟩
    · intro m hm
      rcases mem_append.mp hm with hm | hm
      · rw [getElem?_set_ne (hin m hm).ne', getElem?_append_left (hin m hm)]
        exact h.held m hm
      · rw [mem_singleton.mp hm]
        exact ⟨p.endMin, getElem?_set_self (by simp), le_refl _⟩
    · refine pairwise_append.mpr ⟨h.inTurn, pairwise_singleton _ _, ?_⟩
      intro m hm n hn hlane
      rw [mem_singleton.mp hn] at hlane
      exact absurd hlane (hin m hm).ne

/-- A sweep that has seen `seen` and has `rest` to come: what is done fits, and nothing from the open
    cluster on overlaps it. -/
structure Swept (seen rest : List PlacedUnit) (s : Sweep) : Prop where
  units : (s.done ++ s.cluster).map PlacedUnit.bare = seen
  laned : Laned s.cluster s.laneEnds
  fits : s.done.Pairwise Fits
  below : ∀ p ∈ s.done, p.lane < p.lanes
  passed : ∀ x ∈ s.done, ∃ u ∈ s.cluster, x.endMin ≤ u.topMin
  clear : ∀ x ∈ s.done, ∀ y ∈ s.cluster.map PlacedUnit.bare ++ rest, ¬ Overlaps x y

/-- The units of a cluster fit once it is closed, and no unit of an earlier one overlaps them. -/
theorem Swept.close (h : Swept seen rest s) : (closeCluster s).done.Pairwise Fits ∧ ∀ p ∈ (closeCluster s).done,
    p.lane < p.lanes := by
  have hfits : (s.cluster.map fun p => { p with lanes := s.laneEnds.length }).Pairwise Fits := by
    rw [pairwise_map]
    apply h.laned.inTurn.imp
    intro p q hturn hover
    refine ⟨fun hlane => ?_, rfl⟩
    exact not_overlaps_of_end (hturn hlane) hover
  refine ⟨pairwise_append.mpr ⟨h.fits, hfits, ?_⟩, ?_⟩
  · intro x hx q hq hover
    obtain ⟨m, hm, rfl⟩ := mem_map.mp hq
    have hbare : m.bare ∈ s.cluster.map PlacedUnit.bare ++ rest := mem_append_left _ (mem_map_of_mem hm)
    exact absurd hover (h.clear x hx m.bare hbare)
  · intro q hq
    rcases mem_append.mp hq with hq | hq
    · exact h.below q hq
    · obtain ⟨m, hm, rfl⟩ := mem_map.mp hq
      obtain ⟨stop, hstop, -⟩ := h.laned.held m hm
      exact (List.getElem?_eq_some_iff.mp hstop).1

/-- When every lane has ended, so has every unit seen. -/
theorem Swept.ended (h : Swept seen rest s) (hpos : ∀ x ∈ seen, x.topMin ≤ x.endMin) {top : ℚ}
    (hall : ∀ stop ∈ s.laneEnds, stop ≤ top) : ∀ x ∈ s.done ++ s.cluster, x.endMin ≤ top := by
  have hopen : ∀ u ∈ s.cluster, u.endMin ≤ top := by
    intro u hu
    obtain ⟨stop, hstop, hle⟩ := h.laned.held u hu
    exact le_trans hle (hall stop (mem_of_getElem? hstop))
  intro x hx
  rcases mem_append.mp hx with hx | hx
  · obtain ⟨u, hu, hle⟩ := h.passed x hx
    have hbare : u.bare ∈ seen := by
      rw [← h.units]
      exact mem_map_of_mem (mem_append_right _ hu)
    calc x.endMin ≤ u.topMin := hle
      _ ≤ u.endMin := hpos u.bare hbare
      _ ≤ top := hopen u hu
  · exact hopen x hx

/-- A unit that joins the open cluster. -/
theorem Swept.put (h : Swept seen (p :: rest) s) (hp : p.topMin ≤ p.endMin)
    (hbare : p.bare = p) : Swept (seen ++ [p]) rest (putInLane s p) := by
  refine ⟨?_, h.laned.put hp, h.fits, h.below, ?_, ?_⟩
  · rw [← h.units]
    simp only [putInLane, map_append, map_cons, map_nil, append_assoc]
    congr 3
  · intro x hx
    obtain ⟨u, hu, hle⟩ := h.passed x hx
    exact ⟨u, mem_append_left _ hu, hle⟩
  · intro x hx y hy
    apply h.clear x hx
    simp only [putInLane, map_append, map_cons, map_nil, append_assoc, singleton_append] at hy
    rw [← hbare]
    exact hy

theorem closeCluster_bare (s : Sweep) :
    (closeCluster s).done.map PlacedUnit.bare = (s.done ++ s.cluster).map PlacedUnit.bare := by
  simp only [closeCluster, map_append, map_map]
  rfl

theorem Swept.putClosed (h : Swept seen (p :: rest) s) (hp : p.topMin ≤ p.endMin) (hbare : p.bare = p)
    (hpos : ∀ x ∈ seen, x.topMin ≤ x.endMin) (hreach : NoReachBack (seen ++ p :: rest))
    (hall : ∀ stop ∈ s.laneEnds, stop ≤ p.topMin) :
    Swept (seen ++ [p]) rest (putInLane (closeCluster s) p) := by
  obtain ⟨hfits, hbelow⟩ := h.close
  have hunits : (closeCluster s).done.map PlacedUnit.bare = seen := (closeCluster_bare s).trans h.units
  have hseen : ∀ x ∈ seen, x.endMin ≤ p.topMin := by
    intro x hx
    rw [← h.units] at hx
    obtain ⟨m, hm, rfl⟩ := mem_map.mp hx
    exact h.ended hpos hall m hm
  have hended : ∀ x ∈ (closeCluster s).done, x.bare ∈ seen ∧ x.endMin ≤ p.topMin := by
    intro x hx
    have hbare : x.bare ∈ seen := hunits ▸ mem_map_of_mem hx
    exact ⟨hbare, hseen x.bare hbare⟩
  have hempty : Laned (closeCluster s).cluster (closeCluster s).laneEnds := ⟨by simp [closeCluster], List.Pairwise.nil⟩
  refine ⟨?_, hempty.put hp, hfits, hbelow, ?_, ?_⟩
  · simp only [putInLane, map_append]
    congr 1
    simp only [closeCluster, nil_append, map_cons, map_nil]
    exact congrArg (fun b => [b]) hbare
  · intro x hx
    exact ⟨_, mem_append_right _ (mem_singleton_self _), (hended x hx).2⟩
  · intro x hx y hy
    simp only [putInLane, closeCluster, nil_append, map_cons, map_nil, singleton_append] at hy
    rcases mem_cons.mp hy with rfl | hy
    · exact not_overlaps_of_end (hended x hx).2
    · exact hreach seen p rest rfl hseen x.bare (hended x hx).1 y hy

/-- One turn of the loop. -/
theorem Swept.step (h : Swept seen (p :: rest) s) (hpos : ∀ x ∈ seen ++ p :: rest, x.topMin ≤ x.endMin)
    (hbare : p.bare = p)
    (hreach : NoReachBack (seen ++ p :: rest)) : Swept (seen ++ [p]) rest (sweepUnit s p) := by
  have hp : p.topMin ≤ p.endMin := hpos p (by simp)
  unfold sweepUnit
  split
  · rename_i hclose
    refine h.putClosed hp hbare (fun x hx => hpos x (mem_append_left _ hx)) hreach ?_
    simpa using hclose.2
  · exact h.put hp hbare

/-- The whole loop. -/
theorem Swept.run (hpos : ∀ x ∈ seen ++ rest, x.topMin ≤ x.endMin) (hbare : ∀ x ∈ rest, x.bare = x)
    (hreach : NoReachBack (seen ++ rest)) (h : Swept seen rest s) : Swept (seen ++ rest) []
    (rest.foldl sweepUnit s) := by
  induction rest generalizing seen s with
  | nil => simpa using h
  | cons p rest ih =>
    have hstep := h.step hpos (hbare p mem_cons_self) hreach
    rw [append_cons] at hpos hreach ⊢
    exact ih hpos (fun x hx => hbare x (mem_cons_of_mem p hx)) hreach hstep

/-! ## Every day without a turn -/

theorem not_covers_of_fits (h : Fits p q) : ¬ Covers p q := by
  intro ⟨hover, hleft, hright⟩
  obtain ⟨hlane, hlanes⟩ := h hover
  unfold PlacedUnit.left PlacedUnit.right at hleft hright
  rw [hlanes] at hleft hright
  rcases Nat.eq_zero_or_pos q.lanes with h0 | h0
  · simp [h0] at hleft
  · have hpos : (0 : ℚ) < q.lanes := by exact_mod_cast h0
    rw [div_lt_div_iff_of_pos_right hpos] at hleft hright
    norm_cast at hleft hright
    omega

theorem drawn_of_fits {placed : List PlacedUnit} (hfits : placed.Pairwise Fits)
    (hbelow : ∀ p ∈ placed, p.lane < p.lanes) :
    Drawn placed := by
  refine ⟨?_, ?_, hbelow, hfits.imp not_covers_of_fits⟩
  · apply hfits.imp
    intro p q h hover
    exact (h hover).1
  · intro p hp q hq
    have hmem : q ∈ placed ∧ p.lanes = q.lanes := by
      induction hq with
      | refl => exact ⟨hp, rfl⟩
      | @tail m n _ hstep ih =>
        refine ⟨hstep.1, ih.2.trans ?_⟩
        by_cases heq : m = n
        · rw [heq]
        · exact (hfits.forall ih.1 hstep.1 heq hstep.2).2
    exact hmem.2

variable {clock : Int → Int} {units : List SlotUnit}

theorem bar_top_lt_end {u : SlotUnit} (h : u.startMs < u.endMs) : (bar clock u).topMin < (bar clock u).endMin := by
  have hms : (0 : ℚ) < ((u.endMs - u.startMs : Int) : ℚ) := by exact_mod_cast sub_pos.mpr h
  show ((wallMinutes clock u.startMs : Int) : ℚ) < (wallMinutes clock u.startMs : Int) +
    ((u.endMs - u.startMs : Int) : ℚ) / 60000
  have : 0 < ((u.endMs - u.startMs : Int) : ℚ) / 60000 := div_pos hms (by norm_num)
  linarith

theorem drawn_of_noReachBack (hlen : ∀ u ∈ units, u.startMs < u.endMs) (hreach : NoReachBack (units.map (bar clock))) :
    Drawn (placeDay clock units) := by
  have hpos : ∀ x ∈ [] ++ units.map (bar clock), x.topMin ≤ x.endMin := by
    intro x hx
    obtain ⟨u, hu, rfl⟩ := mem_map.mp hx
    exact le_of_lt (bar_top_lt_end (hlen u hu))
  have hbare : ∀ x ∈ units.map (bar clock), x.bare = x := by
    intro x hx
    obtain ⟨u, -, rfl⟩ := mem_map.mp hx
    rfl
  have hinit : Swept [] (units.map (bar clock)) ⟨[], [], []⟩ := by
    constructor <;> simp
    exact ⟨by simp, List.Pairwise.nil⟩
  obtain ⟨hfits, hbelow⟩ := (hinit.run hpos hbare hreach).close
  exact drawn_of_fits hfits hbelow

structure OnDate (clock : Int → Int) (date : Int) (units : List SlotUnit) : Prop where
  length : ∀ u ∈ units, u.startMs < u.endMs
  inOrder : units.Pairwise fun u v => u.startMs ≤ v.startMs
  date : ∀ u ∈ units, unitDay clock u = date

theorem noReachBack_of_noTurn {date : Int} (hturn : NoTurn clock date) (h : OnDate clock date units) :
    NoReachBack (units.map (bar clock)) := by
  intro before p after hsplit hended x hx y hy hover
  obtain ⟨b, rest, rfl, rfl, hrest⟩ := map_eq_append_iff.mp hsplit
  obtain ⟨u, a, rfl, rfl, rfl⟩ := map_eq_cons_iff.mp hrest
  obtain ⟨v, hv, rfl⟩ := mem_map.mp hx
  obtain ⟨w, hw, rfl⟩ := mem_map.mp hy
  have hvu : v.startMs ≤ u.startMs := (pairwise_append.mp h.inOrder).2.2 v hv u mem_cons_self
  have huw : u.startMs ≤ w.startMs := (pairwise_cons.mp (pairwise_append.mp h.inOrder).2.1).1 w hw
  have hdates : ∀ s ∈ [v.startMs, u.startMs, w.startMs], clock s / DAY_MS = date := by
    intro s hs
    simp only [mem_cons, not_mem_nil, or_false] at hs
    rcases hs with rfl | rfl | rfl
    · exact h.date v (by simp [hv])
    · exact h.date u (by simp)
    · exact h.date w (by simp [hw])
  have hend : (bar clock v).endMin ≤ (bar clock u).topMin := hended _ hx
  have hrise : wallMinutes clock v.startMs < wallMinutes clock u.startMs := by
    have hlt : ((wallMinutes clock v.startMs : Int) : ℚ) < (wallMinutes clock u.startMs : Int) :=
      lt_of_lt_of_le (bar_top_lt_end (h.length v (by simp [hv]))) hend
    exact_mod_cast hlt
  have hfall : (bar clock u).topMin ≤ (bar clock w).topMin := by
    show ((wallMinutes clock u.startMs : Int) : ℚ) ≤ (wallMinutes clock w.startMs : Int)
    exact_mod_cast hturn _ _ _ hvu huw hdates hrise
  exact not_overlaps_of_end (le_trans hend hfall) hover

/-! ## A day with one -/

theorem placeDay_three {u v w : SlotUnit} (huv : (bar clock u).endMin ≤ (bar clock v).topMin)
    (hvw : (bar clock w).topMin < (bar clock v).endMin) :
    placeDay clock [u, v, w] = [bar clock u, { bar clock v with lanes := 2 },
      { bar clock w with lane := 1, lanes := 2 }] := by
  have hbusy : ¬ (bar clock v).endMin ≤ (bar clock w).topMin := not_le.mpr hvw
  have hfirst : sweepUnit ⟨[], [], []⟩ (bar clock u) = ⟨[], [bar clock u], [(bar clock u).endMin]⟩ := rfl
  have hsecond : sweepUnit ⟨[], [bar clock u], [(bar clock u).endMin]⟩ (bar clock v) =
      ⟨[bar clock u], [bar clock v], [(bar clock v).endMin]⟩ := by
    rw [sweepUnit, if_pos ⟨by simp, by simpa using huv⟩]
    rfl
  have hthird : sweepUnit ⟨[bar clock u], [bar clock v], [(bar clock v).endMin]⟩ (bar clock w) =
      ⟨[bar clock u], [bar clock v, { bar clock w with lane := 1 }], [(bar clock v).endMin, (bar clock w).endMin]⟩ := by
    rw [sweepUnit]
    simp [putInLane, findIdx_cons, hbusy]
  simp only [placeDay, map_cons, map_nil, foldl_cons, foldl_nil, hfirst, hsecond, hthird]
  rfl

/-- A unit until the minute that closes its cluster, one at that minute, and one that starts below it
    and lasts a day. -/
theorem not_drawn_of_turn {date s₁ s₂ s₃ : Int} (h₁₂ : s₁ ≤ s₂) (h₂₃ : s₂ ≤ s₃)
    (hdate : ∀ s ∈ [s₁, s₂, s₃], clock s / DAY_MS = date) (hrise : wallMinutes clock s₁ < wallMinutes clock s₂)
    (hfall : wallMinutes clock s₃ < wallMinutes clock s₂) : ∃ units, OnDate clock date units ∧
    ¬ Drawn (placeDay clock units) := by
  have hlow : 0 ≤ wallMinutes clock s₃ := Int.ediv_nonneg (Int.emod_nonneg _ (by decide)) (by decide)
  have hhigh : wallMinutes clock s₁ < 1440 := by
    have := Int.emod_lt_of_pos (clock s₁) (show 0 < DAY_MS by decide)
    unfold wallMinutes
    rw [DAY_MS] at *
    omega
  let u : SlotUnit := ⟨⟨⟨s₁, s₁ + (wallMinutes clock s₂ - wallMinutes clock s₁) * 60000⟩, date⟩, .free⟩
  let v : SlotUnit := ⟨⟨⟨s₂, s₂ + 60000⟩, date⟩, .free⟩
  let w : SlotUnit := ⟨⟨⟨s₃, s₃ + DAY_MS⟩, date⟩, .free⟩
  have huend : (bar clock u).endMin = wallMinutes clock s₂ := by
    simp [bar, PlacedUnit.endMin, u]
  have hvend : (bar clock v).endMin = wallMinutes clock s₂ + 1 := by
    simp [bar, PlacedUnit.endMin, v]
  have hwend : (bar clock w).endMin = wallMinutes clock s₃ + 1440 := by
    simp [bar, PlacedUnit.endMin, w, DAY_MS]
    norm_num
  have hplaced : placeDay clock [u, v, w] = _ := placeDay_three (le_of_eq huend) (by
    rw [hvend]
    show ((wallMinutes clock s₃ : Int) : ℚ) < _
    exact_mod_cast (by omega : wallMinutes clock s₃ < wallMinutes clock s₂ + 1))
  refine ⟨[u, v, w], ⟨?_, ?_, ?_⟩, ?_⟩
  · intro x hx
    simp only [mem_cons, not_mem_nil, or_false] at hx
    rcases hx with rfl | rfl | rfl
    · show s₁ < s₁ + (wallMinutes clock s₂ - wallMinutes clock s₁) * 60000
      omega
    · show s₂ < s₂ + 60000
      omega
    · show s₃ < s₃ + 86400000
      omega
  · simp [u, v, w, h₁₂, h₂₃, le_trans h₁₂ h₂₃]
  · intro x hx
    simp only [mem_cons, not_mem_nil, or_false] at hx
    rcases hx with rfl | rfl | rfl
    · exact hdate s₁ (by simp)
    · exact hdate s₂ (by simp)
    · exact hdate s₃ (by simp)
  · intro hdrawn
    have hover : Overlaps (bar clock u) { bar clock w with lane := 1, lanes := 2 } := by
      constructor
      · show ((wallMinutes clock s₁ : Int) : ℚ) < (bar clock w).endMin
        rw [hwend]
        exact_mod_cast (by omega : wallMinutes clock s₁ < wallMinutes clock s₃ + 1440)
      · show ((wallMinutes clock s₃ : Int) : ℚ) < (bar clock u).endMin
        rw [huend]
        exact_mod_cast hfall
    rw [hplaced] at hdrawn
    have hlanes := hdrawn.shared (bar clock u) (by simp) _ (Relation.ReflTransGen.single ⟨by simp, hover⟩)
    exact absurd hlanes (by simp [bar])

/-- The units of a date are drawn side by side, whatever they are, exactly when its minutes do not fall
    after they have risen. -/
theorem placeDay_drawn_iff (clock : Int → Int) :
    (∀ units, (∀ u ∈ units, u.startMs < u.endMs) → NoReachBack (units.map (bar clock)) → Drawn (placeDay clock units)) ∧
      ∀ date, (∀ units, OnDate clock date units → Drawn (placeDay clock units)) ↔ NoTurn clock date := by
  refine ⟨fun units => drawn_of_noReachBack, fun date => ⟨?_, ?_⟩⟩
  · intro hdrawn s₁ s₂ s₃ h₁₂ h₂₃ hdate hrise
    by_contra hfall
    obtain ⟨units, hunits, hnot⟩ := not_drawn_of_turn h₁₂ h₂₃ hdate hrise (not_le.mp hfall)
    exact hnot (hdrawn units hunits)
  · intro hturn units hunits
    exact drawn_of_noReachBack hunits.length (noReachBack_of_noTurn hturn hunits)

theorem noTurn_paris (date : Int) : NoTurn Zone.paris.wallClockMs date := by
  intro s₁ s₂ s₃ _ h₂₃ hdate _
  have h₂ := hdate s₂ (by simp)
  have h₃ := hdate s₃ (by simp)
  simp only [wallMinutes, Zone.paris, Zone.turning, whole, DAY_MS] at *
  split_ifs at * <;> omega

def twoSlots : List SlotUnit :=
    [⟨⟨⟨1774857600000, 1774864800000⟩, 20542⟩, .free⟩, ⟨⟨⟨1774861200000, 1774868400000⟩, 20542⟩, .free⟩]

theorem two_slots_are_side_by_side :
    OnDate Zone.paris.wallClockMs 20542 twoSlots ∧ Drawn (placeDay Zone.paris.wallClockMs twoSlots) := by
  have hunits : OnDate Zone.paris.wallClockMs 20542 twoSlots := ⟨by decide +kernel, by decide, by decide⟩
  exact ⟨hunits, ((placeDay_drawn_iff Zone.paris.wallClockMs).2 20542).mpr (noTurn_paris 20542) twoSlots hunits⟩

/-- Paris in the autumn of 2026: 03:00 on Sunday, October the 25th, is 02:00 again. -/
def autumn : Zone := Zone.turning 1792890000000 7200000 3600000 (by
    decide) Zone.twoHours_whole Zone.oneHour_whole Zone.twoHours_lt Zone.oneHour_lt (by decide)

def doubledHour : List SlotUnit :=
  [1792886400000, 1792888200000, 1792890000000, 1792891800000].map fun s => ⟨⟨⟨s, s + 1800000⟩, 20751⟩, .free⟩

/-- The first 02:00 has the whole width, and the second is drawn over its right half. -/
theorem second_two_o_clock_covers_the_first :
    OnDate autumn.wallClockMs 20751 doubledHour ∧
      (placeDay autumn.wallClockMs doubledHour).map (fun p => (p.topMin, p.lane, p.lanes)) =
        [(120, 0, 1), (150, 0, 2), (120, 1, 2), (150, 1, 2)] ∧
      ¬ Drawn (placeDay autumn.wallClockMs doubledHour) := by
  refine ⟨⟨by decide, by decide, by decide⟩, by decide +kernel, fun hdrawn => ?_⟩
  have hpair := hdrawn.shared ((placeDay autumn.wallClockMs doubledHour).get ⟨0, by decide +kernel⟩) (get_mem _ _)
    ((placeDay autumn.wallClockMs doubledHour).get ⟨2, by decide +kernel⟩)
    (Relation.ReflTransGen.single ⟨get_mem _ _, by decide +kernel⟩)
  exact absurd hpair (by decide +kernel)

end Canari.Bookings.Grid
