/-
  Canari.Bookings.Selection — what a booker selects on the grid (frontend lib/bookings/grid.ts).

  `freeRunFrom` walks the units from the one pressed, `dragRange` the rows of a column from the
  anchor toward the pointer, up or down. Both stop at the first row that is not a free unit touching
  the one before, or at the limit: what is selected is the longest such run there is
  (`freeRunFrom_greatest`, `dragRange_greatest`). In a step space its units follow one another, so
  the server takes the range when the limit is one a booking may have (`selection_is_taken`); an
  organiser's block may be longer than any booking, and is not checked as one.
-/

import Canari.Bookings.UnitChains
import Mathlib.Order.Bounds.Defs

namespace Canari.Bookings.Grid

open Bookings.Slots List

inductive UnitState
  | free
  | booked
  | blocked
  deriving DecidableEq

structure SlotUnit extends Window where
  state : UnitState
  deriving DecidableEq

def bookingUnitLimit (config : SlotConfig) : Int :=
  match config.slotMode with
  | .slots => 1
  | .step => max 1 (config.maxSteps.getD 1)

def BLOCK_LENGTH_CHOICES : Int := 48

/-- How many units one drag may select: a block's on the organiser's dashboard, else a booking's. -/
def gridUnitLimit (config : SlotConfig)
    (blockMode : Bool) : Int := if blockMode then BLOCK_LENGTH_CHOICES else bookingUnitLimit config

/-- The loop of `freeRunFrom` over the units after `last`, the run having `n` of them. -/
def extendRun (limit : Int) : SlotUnit → ℕ → List SlotUnit → List SlotUnit
  | _, _, [] => []
  | last, n, unit :: rest =>
    if ¬ (n : Int) < limit then []
    else if unit.state ≠ .free ∨ unit.startMs ≠ last.endMs then []
    else unit :: extendRun limit unit (n + 1) rest

/-- `findIndex` of the unit pressed. -/
def startIndex (units : List SlotUnit)
    (first : Range) : ℕ := units.findIdx fun u => u.startMs = first.startMs && u.endMs = first.endMs

/-- The free units a range starting at `first` may cover. -/
def freeRunFrom (units : List SlotUnit) (first : Range) (limit : Int) : List SlotUnit :=
  match units.drop (startIndex units first) with
  | [] => []
  | unit :: rest => if unit.state ≠ .free then [] else unit :: extendRun limit unit 1 rest

/-- `cells[i]`: no unit outside the column or where the row has none. -/
def cellAt (cells : List (Option SlotUnit)) (i : Int) : Option SlotUnit := if 0 ≤ i then cells[i.toNat]?.join else none

def touching (direction : Int) (previous unit : SlotUnit) : Bool :=
  if direction = 1 then unit.startMs = previous.endMs else unit.endMs = previous.startMs

/-- The loop of `dragRange`, at row `i` with the selection up to `last`. -/
def dragLoop (cells : List (Option SlotUnit)) (anchor current limit direction : Int) : ℕ → Int → Int → Int
  | 0, _, last => last
  | fuel + 1, i, last =>
    if ¬ (0 ≤ i ∧ i < cells.length) then last
    else if (if direction = 1 then i > current else i < current) then last
    else if ((i - anchor).natAbs : Int) + 1 > limit then last
    else
      match cellAt cells i, cellAt cells last with
      | some unit, some previous =>
        if unit.state ≠ .free then last
        else if !touching direction previous unit then last
        else dragLoop cells anchor current limit direction fuel (i + direction) i
      | _, _ => last

def dragRange (cells : List (Option SlotUnit)) (anchor current limit : Int) : Int × Int :=
  match cellAt cells anchor with
  | none => (anchor, 0)
  | some start =>
    if start.state ≠ .free ∨ limit < 1 then (anchor, 0)
    else
      let direction := if current ≥ anchor then 1 else -1
      let last := dragLoop cells anchor current limit direction cells.length (anchor + direction) anchor
      (min anchor last, ((last - anchor).natAbs : Int) + 1)

/-! ## The longest run -/

/-- The first `n` rows of a walk are free units, each touching the one before. -/
def Selectable (row : ℕ → Option SlotUnit) (touches : SlotUnit → SlotUnit → Prop) (n : ℕ) : Prop :=
  (∀ k < n, ∃ u, row k = some u ∧ u.state = .free) ∧ ∀ k, k + 1 < n → ∀ u v, row k = some u →
    row (k + 1) = some v → touches u v

def Follows (u v : SlotUnit) : Prop := v.startMs = u.endMs

variable {row : ℕ → Option SlotUnit} {touches : SlotUnit → SlotUnit → Prop} {n : ℕ}

theorem Selectable.mono (h : Selectable row touches n) {m : ℕ} (hm : m ≤ n) : Selectable row touches m :=
  ⟨fun k hk => h.1 k (by omega), fun k hk => h.2 k (by omega)⟩

theorem Selectable.succ (h : Selectable row touches (n + 1)) {u v : SlotUnit} (hu : row n = some u)
    (hv : row (n + 1) = some v)
    (hfree : v.state = .free) (htouch : touches u v) : Selectable row touches (n + 2) := by
  constructor
  · intro k hk
    rcases Nat.lt_succ_iff_lt_or_eq.mp hk with hk | rfl
    · exact h.1 k hk
    · exact ⟨v, hv, hfree⟩
  · intro k hk x y hx hy
    rcases Nat.lt_succ_iff_lt_or_eq.mp hk with hk | he
    · exact h.2 k hk x y hx hy
    · obtain rfl : k = n := by omega
      rw [hu] at hx
      rw [hv] at hy
      cases hx
      cases hy
      exact htouch

/-- A run that cannot be one longer is the longest. -/
theorem isGreatest_of_stop {P : ℕ → Prop} (hdown : ∀ m k, k ≤ m → P m → P k) (h : P n)
    (hstop : ¬ P (n + 1)) : IsGreatest {k | P k} n := by
  refine ⟨h, fun m hm => ?_⟩
  by_contra hlt
  exact hstop (hdown m (n + 1) (by omega) hm)

theorem selectable_succ : Selectable row touches (n + 2) ↔ (∃ u, row 0 = some u ∧ u.state = .free) ∧
    (∀ u v, row 0 = some u → row 1 = some v → touches u v) ∧ Selectable (fun k => row (k + 1)) touches (n + 1) := by
  constructor
  · intro h
    exact ⟨h.1 0 (by omega), h.2 0 (by omega), fun k hk => h.1 (k + 1) (by omega), fun k hk => h.2 (k + 1) (by omega)⟩
  · rintro ⟨hfirst, htouch, hfree, hchain⟩
    constructor
    · intro k hk
      cases k with
      | zero => exact hfirst
      | succ k => exact hfree k (by omega)
    · intro k hk
      cases k with
      | zero => exact htouch
      | succ k => exact hchain k (by omega)

/-- A run of `n` units, the last of them first in `l`, may take `m` more. -/
def Extends (limit : Int) (n : ℕ) (l : List SlotUnit) (m : ℕ) : Prop :=
  (n + m : Int) ≤ max (n : Int) limit ∧ Selectable (fun k => l[k]?) Follows (m + 1)

variable {limit : Int} {last unit : SlotUnit} {l rest : List SlotUnit}

theorem Extends.mono {a b : ℕ} (hab : b ≤ a)
    (h : Extends limit n l a) : Extends limit n l b := ⟨by have := h.1; omega, h.2.mono (by omega)⟩

theorem extends_zero (hfree : last.state = .free) : Extends limit n (last :: rest) 0 := by
  refine ⟨by omega, fun k hk => ?_, fun k hk => by omega⟩
  obtain rfl : k = 0 := by omega
  exact ⟨last, rfl, hfree⟩

theorem extends_succ (hfree : last.state = .free) {m : ℕ} : Extends limit n (last :: unit :: rest) (m + 1) ↔
    (n : Int) < limit ∧ unit.startMs = last.endMs ∧ Extends limit (n + 1) (unit :: rest) m := by
  rw [Extends, selectable_succ]
  constructor
  · rintro ⟨hle, -, htouch, hrest⟩
    exact ⟨by omega, htouch last unit rfl rfl, by omega, hrest⟩
  · rintro ⟨hlt, htouch, hle, hrest⟩
    refine ⟨by omega, ⟨last, rfl, hfree⟩, fun u v hu hv => ?_, hrest⟩
    cases hu
    cases hv
    exact htouch

variable (limit) in
theorem extendRun_greatest (hfree : last.state = .free) (rest : List SlotUnit) (n : ℕ) :
    ∃ m, extendRun limit last n rest = rest.take m ∧ IsGreatest {m | Extends limit n (last :: rest) m} m := by
  induction rest generalizing last n with
  | nil =>
    refine ⟨0, rfl, isGreatest_of_stop (fun _ _ => Extends.mono) (extends_zero hfree) fun h => ?_⟩
    obtain ⟨u, hu, -⟩ := h.2.1 1 (by omega)
    cases hu
  | cons unit rest ih =>
    rw [extendRun]
    by_cases hlimit : (n : Int) < limit
    · split_ifs with hstop
      · refine ⟨0, rfl, isGreatest_of_stop (fun _ _ => Extends.mono) (extends_zero hfree) fun h => ?_⟩
        obtain ⟨-, htouch, hunit⟩ := (extends_succ hfree).mp h
        obtain ⟨u, hu, hufree⟩ := hunit.2.1 0 (by omega)
        cases hu
        rcases hstop with hstop | hstop
        · exact hstop hufree
        · exact hstop htouch
      · obtain ⟨hunit, htouch⟩ : unit.state = .free ∧ unit.startMs = last.endMs := by simpa using hstop
        obtain ⟨m, htake, hm⟩ := ih hunit (n + 1)
        refine ⟨m + 1, by rw [htake, take_succ_cons], (extends_succ hfree).mpr ⟨hlimit, htouch, hm.1⟩, fun k hk => ?_⟩
        cases k with
        | zero => exact Nat.zero_le _
        | succ k => exact Nat.succ_le_succ (hm.2 ((extends_succ hfree).mp hk).2.2)
    · rw [if_pos hlimit]
      refine ⟨0, rfl, isGreatest_of_stop (fun _ _ => Extends.mono) (extends_zero hfree) fun h => ?_⟩
      exact hlimit ((extends_succ hfree).mp h).1

theorem freeRunFrom_greatest (units : List SlotUnit) (first : Range) (limit : Int) :
    ∃ n, freeRunFrom units first limit = (units.drop (startIndex units first)).take n ∧
      IsGreatest {n : ℕ | (n : Int) ≤ max 1 limit ∧
        Selectable (fun k => (units.drop (startIndex units first))[k]?) Follows n} n := by
  rw [freeRunFrom]
  have hdown : ∀ (l : List SlotUnit) (a b : ℕ), b ≤ a →
    ((a : Int) ≤ max 1 limit ∧ Selectable (fun k => l[k]?) Follows a) →
      (b : Int) ≤ max 1 limit ∧ Selectable (fun k => l[k]?) Follows b := fun l a b hab h => ⟨by omega, h.2.mono hab⟩
  have hnone : ∀ l : List SlotUnit, ((0 : ℕ) : Int) ≤ max 1 limit ∧ Selectable (fun k => l[k]?) Follows 0 :=
    fun l => ⟨by omega, fun k hk => by omega, fun k hk => by omega⟩
  cases hdrop : units.drop (startIndex units first) with
  | nil =>
    refine ⟨0, rfl, isGreatest_of_stop (hdown []) (hnone []) fun h => ?_⟩
    obtain ⟨u, hu, -⟩ := h.2.1 0 (by omega)
    cases hu
  | cons unit rest =>
    dsimp only
    split_ifs with hbusy
    · refine ⟨0, rfl, isGreatest_of_stop (hdown _) (hnone _) fun h => ?_⟩
      obtain ⟨u, hu, hufree⟩ := h.2.1 0 (by omega)
      cases hu
      exact hbusy hufree
    · obtain ⟨m, htake, hm⟩ := extendRun_greatest limit (not_not.mp hbusy) rest 1
      refine ⟨m + 1, by rw [htake, take_succ_cons], ⟨?_, hm.1.2⟩, fun k hk => ?_⟩
      · have hle := hm.1.1
        omega
      · cases k with
        | zero => exact Nat.zero_le _
        | succ k => exact Nat.succ_le_succ (hm.2 ⟨by have := hk.1; omega, hk.2⟩)

/-! ## Drags -/

/-- The drag may select the first `n` rows from the anchor toward the pointer. -/
def Drags (cells : List (Option SlotUnit)) (anchor current limit direction : Int) (n : ℕ) : Prop :=
  (n : Int) ≤ limit ∧ (n : Int) ≤ (current - anchor).natAbs + 1 ∧
    Selectable (fun k => cellAt cells (anchor + direction * k)) (fun u v => touching direction u v = true) n

def Toward (anchor current direction : Int) : Prop :=
    direction = 1 ∧ anchor ≤ current ∨ direction = -1 ∧ current < anchor

variable {cells : List (Option SlotUnit)} {anchor current direction : Int}

theorem Drags.mono {a b : ℕ} (hab : b ≤ a)
    (h : Drags cells anchor current limit direction a) : Drags cells anchor current limit direction b :=
  ⟨by have := h.1; omega, by have := h.2.1; omega, h.2.2.mono hab⟩

theorem cellAt_bounds {i : Int} {u : SlotUnit} (h : cellAt cells i = some u) : 0 ≤ i ∧ i < cells.length := by
  rw [cellAt] at h
  split_ifs at h with hi
  have hlt := (List.getElem?_eq_some_iff.mp (Option.join_eq_some_iff.mp h)).1
  omega

theorem not_drags_past {k : ℕ} (h : ¬ (0 ≤ anchor + direction * k ∧ anchor + direction * k < cells.length)) :
    ¬ Drags cells anchor current limit direction (k + 1) := by
  intro hd
  obtain ⟨u, hu, -⟩ := hd.2.2.1 k (Nat.lt_succ_self k)
  exact h (cellAt_bounds hu)

theorem dragLoop_greatest (hto : Toward anchor current direction) (fuel k : ℕ) (hfuel : fuel + k = cells.length)
    (hk : Drags cells anchor current limit direction (k + 1)) :
    ∃ m : ℕ, dragLoop cells anchor current limit direction fuel (anchor + direction * (k + 1 : ℕ))
      (anchor + direction * k) = anchor + direction * m ∧
      IsGreatest {n | Drags cells anchor current limit direction n} (m + 1) := by
  obtain ⟨start, hstart, -⟩ := hk.2.2.1 0 (Nat.succ_pos k)
  obtain ⟨hlo, hhi⟩ := cellAt_bounds hstart
  induction fuel generalizing k with
  | zero =>
    refine ⟨k, rfl, isGreatest_of_stop (fun _ _ => Drags.mono) hk (not_drags_past ?_)⟩
    rcases hto with ⟨rfl, -⟩ | ⟨rfl, -⟩ <;> push_cast <;> omega
  | succ fuel ih =>
    -- The loop ends here: the selection is the longest.
    have hends : ¬ Drags cells anchor current limit direction (k + 2) → ∃ m : ℕ,
      anchor + direction * k = anchor + direction * m ∧
        IsGreatest {n | Drags cells anchor current limit direction n} (m + 1) :=
      fun hstop => ⟨k, rfl, isGreatest_of_stop (fun _ _ => Drags.mono) hk hstop⟩
    have hrow : anchor + direction * (k + 1 : ℕ) - anchor = direction * (k + 1 : ℕ) := by omega
    have habs : (direction * (k + 1 : ℕ)).natAbs = k + 1 := by
      rcases hto with ⟨rfl, -⟩ | ⟨rfl, -⟩ <;> omega
    have hbeyond : (if direction = 1 then anchor + direction * (k + 1 : ℕ) > current else
      anchor + direction * (k + 1 : ℕ) < current) ↔
        (current - anchor).natAbs < k + 1 := by
      rcases hto with ⟨rfl, hto⟩ | ⟨rfl, hto⟩
      · rw [if_pos rfl]
        omega
      · rw [if_neg (by decide)]
        omega
    have hlast : ∃ previous, cellAt cells (anchor + direction * k) = some previous ∧ previous.state = .free :=
      hk.2.2.1 k (Nat.lt_succ_self k)
    obtain ⟨previous, hprevious, -⟩ := hlast
    have hnext : Drags cells anchor current limit direction (k + 2) →
        ∃ u, cellAt cells (anchor + direction * (k + 1 : ℕ)) = some u ∧ u.state = .free :=
          fun hd => hd.2.2.1 (k + 1) (Nat.lt_succ_self _)
    rw [dragLoop]
    by_cases hin : 0 ≤ anchor + direction * (k + 1 : ℕ) ∧ anchor + direction * (k + 1 : ℕ) < cells.length
    swap
    · rw [if_pos hin]
      exact hends (not_drags_past hin)
    rw [if_neg (not_not.mpr hin), if_congr hbeyond rfl rfl]
    by_cases hpast : (current - anchor).natAbs < k + 1
    · rw [if_pos hpast]
      refine hends fun hd => ?_
      have hle := hd.2.1
      omega
    rw [if_neg hpast, hrow, habs]
    by_cases hlimit : ((k + 1 : ℕ) : Int) + 1 > limit
    · rw [if_pos hlimit]
      refine hends fun hd => ?_
      have hle := hd.1
      omega
    rw [if_neg hlimit, hprevious]
    cases hunit : cellAt cells (anchor + direction * (k + 1 : ℕ)) with
    | none =>
      refine hends fun hd => ?_
      obtain ⟨u, hu, -⟩ := hnext hd
      rw [hunit] at hu
      cases hu
    | some unit =>
      dsimp only
      by_cases hbusy : unit.state ≠ .free
      · rw [if_pos hbusy]
        refine hends fun hd => ?_
        obtain ⟨u, hu, hufree⟩ := hnext hd
        rw [hunit] at hu
        cases hu
        exact hbusy hufree
      rw [if_neg hbusy]
      by_cases htouch : touching direction previous unit = true
      · rw [htouch]
        have hk' : Drags cells anchor current limit direction (k + 1 + 1) :=
          ⟨by omega, by omega, hk.2.2.succ hprevious hunit (not_not.mp hbusy) htouch⟩
        have hstep : anchor + direction * (k + 1 : ℕ) + direction = anchor + direction * (k + 1 + 1 : ℕ) := by
          rw [Int.natCast_add (k + 1) 1, Int.mul_add]
          omega
        rw [hstep]
        exact ih (k + 1) (by omega) hk'
      · rw [Bool.not_eq_true] at htouch
        rw [htouch]
        refine hends fun hd => ?_
        have ht : touching direction previous unit = true :=
          hd.2.2.2 k (Nat.lt_succ_self _) previous unit hprevious hunit
        rw [ht] at htouch
        cases htouch

def wayOf (anchor current : Int) : Int := if current ≥ anchor then 1 else -1

theorem toward_wayOf (anchor current : Int) : Toward anchor current (wayOf anchor current) := by
  rw [wayOf]
  by_cases h : current ≥ anchor
  · rw [if_pos h]
    exact Or.inl ⟨rfl, h⟩
  · rw [if_neg h]
    exact Or.inr ⟨rfl, by omega⟩

/-- The first row of a selection of `n` rows from the anchor. -/
def firstRow (anchor direction : Int) : ℕ → Int
  | 0 => anchor
  | n + 1 => min anchor (anchor + direction * n)

variable (cells anchor current) in
/-- What a drag selects is the longest run from the anchor toward the pointer, under the limit. -/
theorem dragRange_greatest (hlimit : 1 ≤ limit) :
    ∃ n : ℕ, dragRange cells anchor current limit = (firstRow anchor (wayOf anchor current) n, (n : Int)) ∧
      IsGreatest {n | Drags cells anchor current limit (wayOf anchor current) n} n := by
  have hnone : Drags cells anchor current limit (wayOf anchor current) 0 :=
    ⟨by omega, by omega, fun k hk => by omega, fun k hk => by omega⟩
  have hfirst : Drags cells anchor current limit (wayOf anchor current) 1 → ∃ u, cellAt cells anchor = some u ∧
    u.state = .free := by
    intro hd
    have h0 : ∃ u, cellAt cells (anchor + wayOf anchor current * (0 : ℕ)) = some u ∧ u.state = .free :=
      hd.2.2.1 0 (by omega)
    simpa using h0
  rw [dragRange]
  cases hstart : cellAt cells anchor with
  | none =>
    refine ⟨0, rfl, isGreatest_of_stop (fun _ _ => Drags.mono) hnone fun hd => ?_⟩
    obtain ⟨u, hu, -⟩ := hfirst hd
    rw [hstart] at hu
    cases hu
  | some start =>
    dsimp only
    by_cases hbusy : start.state ≠ .free
    · rw [if_pos (Or.inl hbusy)]
      refine ⟨0, rfl, isGreatest_of_stop (fun _ _ => Drags.mono) hnone fun hd => ?_⟩
      obtain ⟨u, hu, hufree⟩ := hfirst hd
      rw [hstart] at hu
      cases hu
      exact hbusy hufree
    · rw [if_neg (by push Not; exact ⟨not_not.mp hbusy, hlimit⟩)]
      have hone : Drags cells anchor current limit (wayOf anchor current) (0 + 1) := by
        refine ⟨by omega, by omega, fun k hk => ?_, fun k hk => by omega⟩
        obtain rfl : k = 0 := by omega
        exact ⟨start, by simpa using hstart, not_not.mp hbusy⟩
      obtain ⟨m, hloop, hm⟩ := dragLoop_greatest (toward_wayOf anchor current) cells.length 0 (by omega) hone
      have hrow : ∀ direction : Int, anchor + direction * (0 + 1 : ℕ) = anchor + direction ∧
        anchor + direction * (0 : ℕ) = anchor := by
        intro direction
        constructor <;> simp
      rw [(hrow _).1, (hrow _).2] at hloop
      refine ⟨m + 1, ?_, hm⟩
      rw [show (if current ≥ anchor then (1 : Int) else -1) = wayOf anchor current from rfl, hloop]
      have habs : (anchor + wayOf anchor current * m - anchor).natAbs = m := by
        rcases toward_wayOf anchor current with ⟨hw, -⟩ | ⟨hw, -⟩ <;> rw [hw] <;> omega
      rw [habs]
      rfl

/-! ## The range asked for -/

def rangeOf (run : List SlotUnit) : Option Range :=
  match run.head?, run.getLast? with
  | some first, some last => some ⟨first.startMs, last.endMs⟩
  | _, _ => none

def unitsOf (cells : List (Option SlotUnit)) (selection : Int × Int) : List SlotUnit :=
  (List.range selection.2.toNat).filterMap fun k : ℕ => cellAt cells (selection.1 + k)

variable {run : List SlotUnit}

theorem chained_of_follows (hchain : run.IsChain Follows) {range : Range} (hrange : rangeOf run = some range) :
    Chained range.startMs range.endMs (run.map SlotUnit.toWindow) := by
  induction run generalizing range with
  | nil => cases hrange
  | cons u rest ih =>
    cases rest with
    | nil =>
      cases hrange
      exact ⟨rfl, rfl⟩
    | cons v rest =>
      obtain ⟨hfollows, hrest⟩ := isChain_cons_cons.mp hchain
      rw [rangeOf, getLast?_cons_cons] at hrange
      cases hlast : (v :: rest).getLast? with
      | none =>
        rw [hlast] at hrange
        cases hrange
      | some last =>
        rw [hlast] at hrange
        cases hrange
        have hrest' : rangeOf (v :: rest) = some ⟨v.startMs, last.endMs⟩ := by
          rw [rangeOf, hlast]
          rfl
        have hv := ih hrest hrest'
        rw [show v.startMs = u.endMs from hfollows] at hv
        exact ⟨rfl, hv⟩

theorem filterMap_rows (h : ∀ k < n, ∃ u, row k = some u) :
    ((List.range n).filterMap row).length = n ∧ ∀ k < n, ((List.range n).filterMap row)[k]? = row k := by
  induction n with
  | zero => exact ⟨rfl, fun k hk => by omega⟩
  | succ n ih =>
    obtain ⟨hlen, hget⟩ := ih fun k hk => h k (by omega)
    obtain ⟨u, hu⟩ := h n (Nat.lt_succ_self n)
    have hsplit : (List.range (n + 1)).filterMap row = (List.range n).filterMap row ++ [u] := by
      rw [range_succ, filterMap_append, filterMap_cons_some hu, filterMap_nil]
    rw [hsplit]
    refine ⟨by rw [length_append, hlen, length_singleton], fun k hk => ?_⟩
    rcases Nat.lt_succ_iff_lt_or_eq.mp hk with hk | rfl
    · rw [getElem?_append_left (by omega), hget k hk]
    · rw [getElem?_append_right (by omega), hlen, Nat.sub_self, hu]
      rfl

theorem isChain_of_selectable (hlen : run.length ≤ n) (hrow : ∀ k < run.length, run[k]? = row k)
    (h : Selectable row Follows n) : run.IsChain Follows := by
  refine isChain_iff_getElem.mpr fun k hk => ?_
  refine h.2 k (by omega) _ _ ?_ ?_
  · rw [← hrow k (by omega), getElem?_eq_getElem]
  · rw [← hrow (k + 1) hk, getElem?_eq_getElem]

theorem selectable_rows (hto : Toward anchor current direction) (h : Drags cells anchor current limit direction n) :
    Selectable (fun k => cellAt cells (firstRow anchor direction n + k)) Follows n := by
  obtain ⟨-, -, hfree, htouch⟩ := h
  cases n with
  | zero => exact ⟨fun k hk => by omega, fun k hk => by omega⟩
  | succ n =>
    rcases hto with ⟨rfl, -⟩ | ⟨rfl, -⟩
    · have hrow : ∀ k : ℕ, firstRow anchor 1 (n + 1) + k = anchor + 1 * k := fun k => by
        rw [firstRow]
        omega
      refine ⟨fun k hk => ?_, fun k hk u v hu hv => ?_⟩
      · dsimp only
        rw [hrow]
        exact hfree k hk
      · dsimp only at hu hv
        rw [hrow] at hu hv
        have ht := htouch k hk u v hu hv
        simpa [touching, Follows] using ht
    · have hrow : ∀ k j : ℕ, k + j = n → firstRow anchor (-1) (n + 1) + k = anchor + -1 * j := fun k j hj => by
        rw [firstRow]
        omega
      refine ⟨fun k hk => ?_, fun k hk u v hu hv => ?_⟩
      · dsimp only
        rw [hrow k (n - k) (by omega)]
        exact hfree (n - k) (by omega)
      · dsimp only at hu hv
        rw [hrow k (n - k - 1 + 1) (by omega)] at hu
        rw [hrow (k + 1) (n - k - 1) (by omega)] at hv
        have ht := htouch (n - k - 1) (by omega) v u hv hu
        simpa [touching, Follows, eq_comm] using ht

/-- A run of units of the space, no longer than a booking may be, is a range the server takes. -/
theorem taken_of_run {config : SlotConfig} {windows : List Window} (hmode : config.slotMode = .step)
    (hunits : ∀ u ∈ run, u.toWindow ∈ slotUnits config windows) (hmax : (run.length : Int) ≤ config.maxSteps.getD 1)
    (hchain : run.IsChain Follows) {range : Range}
    (hrange : rangeOf run = some range) : checkRangeShape config windows range = none := by
  have hne : 1 ≤ run.length := by
    cases run with
    | nil => cases hrange
    | cons u rest => simp
  refine accepted_of_chain hmode ?_ ?_ ?_ (chained_of_follows hchain hrange)
  · intro w hw
    obtain ⟨u, hu, rfl⟩ := mem_map.mp hw
    exact hunits u hu
  · rwa [length_map]
  · rwa [length_map]

variable {config : SlotConfig} {windows : List Window} {range : Range}

theorem freeRunFrom_taken (hmode : config.slotMode = .step) (hlimit : 1 ≤ limit)
    (hmax : limit ≤ config.maxSteps.getD 1) {units : List SlotUnit}
    (hunits : ∀ u ∈ units, u.toWindow ∈ slotUnits config windows) (first : Range)
    (hrange : rangeOf (freeRunFrom units first limit) = some range) :
    checkRangeShape config windows range = none := by
  obtain ⟨n, hrun, ⟨hn, hselectable⟩, -⟩ := freeRunFrom_greatest units first limit
  rw [hrun] at hrange
  have hlen : ((units.drop (startIndex units first)).take n).length ≤ n := length_take_le _ _
  refine taken_of_run hmode ?_ (by omega) (isChain_of_selectable hlen ?_ hselectable) hrange
  · intro u hu
    exact hunits u (mem_of_mem_drop (mem_of_mem_take hu))
  · intro k hk
    exact getElem?_take_of_lt (lt_of_lt_of_le hk hlen)

theorem dragRange_taken (hmode : config.slotMode = .step) (hlimit : 1 ≤ limit) (hmax : limit ≤ config.maxSteps.getD 1)
    (hunits : ∀ u, some u ∈ cells → u.toWindow ∈ slotUnits config windows)
    (hrange : rangeOf (unitsOf cells (dragRange cells anchor current limit)) = some range) :
    checkRangeShape config windows range = none := by
  obtain ⟨n, hdrag, hn, -⟩ := dragRange_greatest cells anchor current hlimit
  have hrows := selectable_rows (toward_wayOf anchor current) hn
  obtain ⟨hlen, hget⟩ := filterMap_rows fun k hk => (hrows.1 k hk).imp fun u hu => hu.1
  rw [hdrag] at hrange
  have hbound := hn.1
  refine taken_of_run hmode ?_ (by omega) (isChain_of_selectable hlen.le ?_ hrows) hrange
  · intro u hu
    obtain ⟨k, -, hk⟩ := mem_filterMap.mp hu
    refine hunits u ?_
    rw [cellAt] at hk
    split_ifs at hk
    exact mem_of_getElem? (Option.join_eq_some_iff.mp hk)
  · intro k hk
    exact hget k (hlen ▸ hk)

/-- The two selections are the longest runs of free touching units under the limit, from the unit
    pressed and toward the pointer; in a step space, when a booking may be that long, the server takes
    the range. -/
theorem selection_is_taken (limit : Int) (hlimit : 1 ≤ limit) :
    (∀ units first, ∃ n : ℕ, freeRunFrom units first limit = (units.drop (startIndex units first)).take n ∧
      IsGreatest {n : ℕ | (n : Int) ≤ limit ∧
        Selectable (fun k => (units.drop (startIndex units first))[k]?) Follows n} n) ∧
    (∀ cells anchor current, ∃ n : ℕ,
      dragRange cells anchor current limit = (firstRow anchor (wayOf anchor current) n, (n : Int)) ∧
      IsGreatest {n | Drags cells anchor current limit (wayOf anchor current) n} n) ∧
    ∀ config windows, config.slotMode = .step → limit ≤ config.maxSteps.getD 1 →
      (∀ units first range, (∀ u ∈ units, SlotUnit.toWindow u ∈ slotUnits config windows) →
        rangeOf (freeRunFrom units first limit) = some range → checkRangeShape config windows range = none) ∧
      ∀ cells anchor current range, (∀ u : SlotUnit, some u ∈ cells → u.toWindow ∈ slotUnits config windows) →
        rangeOf (unitsOf cells (dragRange cells anchor current limit)) = some range →
          checkRangeShape config windows range = none := by
  refine ⟨fun units first => ?_, fun cells anchor current => dragRange_greatest cells anchor current hlimit, fun config windows hmode hmax => ⟨?_, ?_⟩⟩
  · have h := freeRunFrom_greatest units first limit
    rwa [max_eq_right hlimit] at h
  · intro units first range hunits hrange
    exact freeRunFrom_taken hmode hlimit hmax hunits first hrange
  · intro cells anchor current range hunits hrange
    exact dragRange_taken hmode hlimit hmax hunits hrange

def morning : List SlotUnit := (slotUnits ⟨.step, some 30, some 4⟩ [⟨⟨0, 10800000⟩, 0⟩]).map fun u => ⟨u, .free⟩

/-- A booker's drag up the morning is four half hours, and is taken. -/
theorem four_half_hours_are_taken :
    dragRange (morning.map some) 4 0 (gridUnitLimit ⟨.step, some 30, some 4⟩ false) = (1, 4) ∧
      checkRangeShape ⟨.step, some 30, some 4⟩ [⟨⟨0, 10800000⟩, 0⟩] ⟨1800000, 9000000⟩ = none :=
  ⟨by decide, ((selection_is_taken 4 (by decide)).2.2 ⟨.step, some 30, some 4⟩ [⟨⟨0, 10800000⟩, 0⟩] rfl (by decide)).2
    (morning.map some) 4 0 ⟨1800000, 9000000⟩ (by simp [morning]) (by decide)⟩

/-- An organiser's block is all six, more than a booking may be; with no unit to select, one is. -/
theorem six_half_hours_are_no_booking :
    (∀ u ∈ morning, u.toWindow ∈ slotUnits ⟨.step, some 30, some 4⟩ [⟨⟨0, 10800000⟩, 0⟩]) ∧
      rangeOf (freeRunFrom morning ⟨0, 1800000⟩ (gridUnitLimit ⟨.step, some 30, some 4⟩ true)) = some ⟨0, 10800000⟩ ∧
      checkRangeShape ⟨.step, some 30, some 4⟩ [⟨⟨0, 10800000⟩, 0⟩] ⟨0, 10800000⟩ = some .tooManySteps ∧
      (freeRunFrom morning ⟨0, 1800000⟩ 0).length = 1 := by
  decide

end Canari.Bookings.Grid
