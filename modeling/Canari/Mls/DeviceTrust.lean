/-
  Canari.Mls.DeviceTrust — the departures the MLS layer records
  (`frontend/mls-core/src/device_trust.rs`).

  A merged commit records every device whose leaf it removed, with whether it was its
  user's last leaf, and a user whose leaves name no device by itself. At most
  `MAX_RECORDED_DEPARTURES` are kept: a push past the bound drops the oldest, and a load
  past it drops those of groups no longer held. `removalEpochs` reads one group's.
-/

import Mathlib.Data.List.Sort
import Mathlib.Data.List.Dedup
import Mathlib.Data.String.Basic
import Canari.Mls.Identity

namespace Canari.Mls.DeviceTrust

open Mls.Identity

structure LeafKey where
  index : Nat
  identity : String
  key : List UInt8
  deriving DecidableEq

structure Departure where
  groupId : String
  userId : String
  /-- The first epoch the user is no longer in. -/
  epoch : Nat
  deviceId : Option String
  userLeft : Bool
  deriving DecidableEq

def MAX_RECORDED_DEPARTURES : Nat := 8192

def Departure.leavesTree (d : Departure) : Bool := d.deviceId.isNone || d.userLeft

def sameIdentity (a b : String) : Bool := (canonicalIdentity a).isSome && canonicalIdentity a == canonicalIdentity b

/-- `Vec::dedup`: one of each run of equal neighbours. -/
def dedupNeighbours : List Nat → List Nat
  | a :: b :: rest => if a = b then dedupNeighbours (b :: rest) else a :: dedupNeighbours (b :: rest)
  | short => short

variable (departures : List Departure)

def removalEpochs (groupId userId : String) : List Nat :=
  dedupNeighbours ((departures.filter fun d => d.groupId == groupId && d.userId == toAsciiLowercase userId &&
    d.leavesTree).map (·.epoch))

def pushDeparture (d : Departure) : List Departure :=
  (if departures.length ≥ MAX_RECORDED_DEPARTURES then departures.tail else departures) ++ [d]

def usersGone (before after : List LeafKey) : List String :=
  let remaining := after.filterMap fun l => canonicalUserOf l.identity
  (((before.filterMap fun l => canonicalUserOf l.identity).filter fun u => !remaining.contains u).insertionSort
    (· ≤ ·)).dedup

def devicesGone (before after : List LeafKey) : List (String × String) :=
  ((((before.filter fun l => !after.any fun a => sameIdentity a.identity l.identity).filterMap
    fun l => canonicalIdentity l.identity).filterMap
    splitOnce).insertionSort fun a b => a.1 < b.1 ∨ a.1 = b.1 ∧ a.2 ≤ b.2).dedup

def departuresOf (groupId : String) (epoch : Nat) (before after : List LeafKey) : List Departure :=
  let gone := usersGone before after
  let devices := devicesGone before after
  (devices.map fun (u, d) => ⟨groupId, u, epoch, some d, gone.contains u⟩) ++
    (gone.filter fun u => !devices.any (·.1 == u)).map fun u => ⟨groupId, u, epoch, none, false⟩

def recordDepartures (groupId : String) (epoch : Nat) (before after : List LeafKey) : List Departure :=
  (departuresOf groupId epoch before after).foldl pushDeparture departures

def pruneDepartures (heldGroups : List String) : List Departure :=
  if departures.length ≤ MAX_RECORDED_DEPARTURES then departures
  else departures.filter fun d => heldGroups.contains d.groupId

theorem mem_dedupNeighbours (l : List Nat) (n : Nat) : n ∈ dedupNeighbours l ↔ n ∈ l := by
  induction l using dedupNeighbours.induct with
  | case1 a rest ih => simp only [dedupNeighbours, if_true, ih, List.mem_cons, or_self_left]
  | case2 a b rest hne ih => simp only [dedupNeighbours, if_neg hne, List.mem_cons, ih]
  | case3 short h =>
    cases short with
    | nil => rfl
    | cons a rest =>
      cases rest with
      | nil => rfl
      | cons b rest => exact absurd rfl (h a b rest)

theorem mem_removalEpochs {departures : List Departure} {groupId userId : String} {n : Nat} :
    n ∈ removalEpochs departures groupId userId ↔
      ∃ d ∈ departures, d.groupId = groupId ∧ d.userId = toAsciiLowercase userId ∧ d.leavesTree = true ∧
        d.epoch = n := by
  rw [removalEpochs, mem_dedupNeighbours]
  simp only [List.mem_map, List.mem_filter, Bool.and_eq_true, beq_iff_eq]
  constructor
  · rintro ⟨d, ⟨hd, ⟨hg, hu⟩, hl⟩, he⟩
    exact ⟨d, hd, hg, hu, hl, he⟩
  · rintro ⟨d, hd, hg, hu, hl, he⟩
    exact ⟨d, ⟨hd, ⟨hg, hu⟩, hl⟩, he⟩

end Canari.Mls.DeviceTrust
