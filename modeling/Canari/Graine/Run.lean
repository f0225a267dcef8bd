/-
  Canari.Graine.Run — the departure tracker of a key group
  (`frontend/mls-core/src/graine_run.rs`).

  An epoch of a group instance is named by the commits that led to it (`Epoch`). A run
  names a chain of epochs this manager merged one after the other, none of whose commits
  removed a leaf or brought a new user; it keeps the fingerprint of the last one. The
  fingerprint (a hash of the epoch authenticator, the group id and the epoch number) and
  the reading of a credential are the crypto library's: `fingerprint` and `identityOf`
  are parameters here.

  `observeCommit` is told what a merge did by a summary built from the tree on both
  sides of it. `departs_observed`: a commit that removed a leaf, or brought a user no
  leaf named before, is summarised as a departure or a new user, whatever else it did.
-/

import Mathlib.Data.List.Sort
import Mathlib.Data.List.Dedup
import Mathlib.Data.String.Basic
import Canari.Mls.Identity
import Canari.Graine.SessionManager

namespace Canari.Graine.Run

open Mls.Identity List
open Graine.SessionManager (GraineRunReading)

structure Leaf where
  /-- The serialised credential. -/
  credential : List UInt8
  signatureKey : List UInt8
  deriving DecidableEq

/-- A commit as the tree shows it: the Remove proposals it carried and the leaves after it. -/
structure Commit where
  removeProposals : Nat
  external : Bool
  leaves : List Leaf

/-- An epoch of one instance of a group: its founding leaves and its commits, oldest first. -/
structure Epoch where
  group : String
  inst : Nat
  founding : List Leaf
  commits : List Commit

def leavesAfter (founding : List Leaf) (commits : List Commit) : List Leaf :=
  (commits.getLast?.map (·.leaves)).getD founding

def Epoch.leaves (e : Epoch) : List Leaf := leavesAfter e.founding e.commits

def Epoch.number (e : Epoch) : Nat := e.commits.length

def Epoch.push (e : Epoch) (c : Commit) : Epoch := { e with commits := e.commits ++ [c] }

structure GraineRun where
  runId : String
  epochFingerprint : String

/-- The library's half: what a credential names, and the fingerprint of an epoch. -/
structure Crypto where
  identityOf : List UInt8 → Option String
  fingerprint : Epoch → String

variable (K : Crypto)

/-! ## The summary of a merge -/

structure CommitSummary where
  epochBefore : Nat
  epochAfter : Nat
  fingerprintBefore : String
  fingerprintAfter : String
  removed : List String
  removeProposals : Nat
  added : List String
  newUsers : List String
  external : Bool

def leafIdentity (l : Leaf) : String := (K.identityOf l.credential).getD "<unreadable>"

/-- The pairs counted in `src` more times than in `dst`, by identity, sorted. -/
def missingFrom (src dst : List Leaf) : List String :=
  (src.dedup.flatMap fun l => List.replicate (src.count l - dst.count l) (leafIdentity K l)).insertionSort (· ≤ ·)

def users (leaves : List Leaf) : List (Option String) := leaves.map fun l => canonicalUserOf (leafIdentity K l)

variable (before : List Leaf)

def newUserOf (identity : String) : Option String :=
  match canonicalUserOf identity with
  | some user => if users K before |>.contains (some user) then none else some user
  | none => some "<no user>"

def summarise (before : Epoch) (c : Commit) : CommitSummary where
  epochBefore := before.number
  epochAfter := (before.push c).number
  fingerprintBefore := K.fingerprint before
  fingerprintAfter := K.fingerprint (before.push c)
  removed := missingFrom K before.leaves c.leaves
  removeProposals := c.removeProposals
  added := missingFrom K c.leaves before.leaves
  newUsers := (((missingFrom K c.leaves before.leaves).filterMap (newUserOf K before.leaves)).insertionSort (· ≤ ·)).dedup
  external := c.external

def CommitSummary.isDeparture (summary : CommitSummary) : Bool := summary.removeProposals > 0 || !summary.removed.isEmpty

/-! ## The runs -/

inductive RunReset where
  | departure
  | newUser
  | gap
  | none

def ROTATE_ON_NEW_USER : Bool := true

variable (run : Option GraineRun)

def resetOf (summary : CommitSummary) : Option RunReset :=
  if summary.isDeparture then some .departure
  else if ROTATE_ON_NEW_USER && !summary.newUsers.isEmpty then some .newUser
  else match run with
    | some run => if run.epochFingerprint = summary.fingerprintBefore then Option.none else some .gap
    | Option.none => some .none

/-- One merged commit's summary applied to the group's run; `runId` is drawn for a new one. -/
def observeCommit (summary : CommitSummary) (runId : String) : GraineRun :=
  match resetOf run summary, run with
  | Option.none, some run => { run with epochFingerprint := summary.fingerprintAfter }
  | _, _ => ⟨runId, summary.fingerprintAfter⟩

structure Manager where
  groups : String → Option Epoch
  runs : String → Option GraineRun

/-- A merge: the group moves, and its run with it. A summary that cannot be built, or an
    id that cannot be drawn, drops the run (`runId` is none). -/
def observeMerge (m : Manager) (g : String) (before : Epoch) (c : Commit) (runId : Option String) : Manager where
  groups := Function.update m.groups g (some (before.push c))
  runs := Function.update m.runs g (runId.map (observeCommit (m.runs g) (summarise K before c)))

/-- `graine_run`: the run covering the current epoch, replaced when it is another's. -/
def graineRun (m : Manager) (g : String) (runId : String) : Option (GraineRunReading × Manager) :=
  (m.groups g).map fun e =>
    let fresh : GraineRunReading × Manager :=
      (⟨runId, e.number, K.fingerprint e⟩, { m with runs := Function.update m.runs g (some ⟨runId, K.fingerprint e⟩) })
    match m.runs g with
    | some run => if run.epochFingerprint = K.fingerprint e then (⟨run.runId, e.number, K.fingerprint e⟩, m) else fresh
    | none => fresh

/-- `drop_graine_run` of a group this manager no longer holds. -/
def forgetGroup (m : Manager) (g : String) : Manager where
  groups := Function.update m.groups g none
  runs := Function.update m.runs g none

/-! ## Departures and new users are seen -/

def leafUser (l : Leaf) : Option String := canonicalUserOf (leafIdentity K l)

/-- The commit carried a Remove, or the tree lost a leaf by it. -/
def RemovesLeaf (c : Commit) : Prop := 0 < c.removeProposals ∨ ∃ l, c.leaves.count l < before.count l

/-- A leaf after the commit names a user no leaf named before it. -/
def BringsUser (c : Commit) : Prop :=
  ∃ l ∈ c.leaves, ∃ u, leafUser K l = some u ∧ ∀ l' ∈ before, leafUser K l' ≠ some u

/-- The commits after which a seed minted before may not be used. -/
def Departs (c : Commit) : Prop := RemovesLeaf before c ∨ BringsUser K before c

theorem mem_missingFrom {src dst : List Leaf} {l : Leaf} (h : dst.count l < src.count l) :
    leafIdentity K l ∈ missingFrom K src dst := by
  have hm : l ∈ src := count_pos_iff.mp (by omega)
  refine (mem_insertionSort _).mpr (mem_flatMap.mpr ⟨l, mem_dedup.mpr hm, ?_⟩)
  exact mem_replicate.mpr ⟨by omega, rfl⟩

theorem departs_observed {before : Epoch} {c : Commit} (h : Departs K before.leaves c) (run : Option GraineRun) :
    resetOf run (summarise K before c) ≠ none := by
  unfold resetOf
  rcases h with (h | ⟨l, hl⟩) | ⟨l, hl, u, hu, hn⟩
  · have hd : (summarise K before c).isDeparture = true := by simp [CommitSummary.isDeparture, summarise, h]
    simp [hd]
  · have hd : (summarise K before c).isDeparture = true := by
      have hm := mem_missingFrom K hl
      simp [CommitSummary.isDeparture, summarise, isEmpty_eq_false_iff.mpr (ne_nil_of_mem hm)]
    simp [hd]
  · -- a leaf of a user nobody named before was not in the tree before
    have hnot : l ∉ before.leaves := fun hm => hn l hm hu
    have hm : leafIdentity K l ∈ missingFrom K c.leaves before.leaves :=
      mem_missingFrom K (by rw [count_eq_zero.mpr hnot]; exact count_pos_iff.mpr hl)
    have hnew : newUserOf K before.leaves (leafIdentity K l) = some u := by
      have hc : canonicalUserOf (leafIdentity K l) = some u := hu
      have hnc : (users K before.leaves).contains (some u) = false := by
        rw [← Bool.not_eq_true, contains_iff_mem, users, mem_map]
        rintro ⟨l', hl', he⟩
        exact hn l' hl' he
      simp only [newUserOf, hc, hnc]
      rfl
    have hne : (summarise K before c).newUsers ≠ [] := by
      apply ne_nil_of_mem (a := u)
      exact mem_dedup.mpr ((mem_insertionSort _).mpr (mem_filterMap.mpr ⟨_, hm, hnew⟩))
    split
    · simp
    · simp [ROTATE_ON_NEW_USER, hne]

/-- The run continues only across a commit that starts where it ends and departs nobody. -/
theorem observeCommit_cases (before : Epoch) (c : Commit) (runId : String) :
    (∃ r, run = some r ∧ r.epochFingerprint = K.fingerprint before ∧ ¬ Departs K before.leaves c ∧
      observeCommit run (summarise K before c) runId = ⟨r.runId, K.fingerprint (before.push c)⟩) ∨
    observeCommit run (summarise K before c) runId = ⟨runId, K.fingerprint (before.push c)⟩ := by
  unfold observeCommit
  cases hr : resetOf run (summarise K before c) with
  | some reason => right; simp [summarise]
  | none =>
    have hd : ¬ Departs K before.leaves c := fun hd => departs_observed K hd run hr
    cases run with
    | none =>
      right; simp [summarise]
    | some r =>
      left
      refine ⟨r, rfl, ?_, hd, rfl⟩
      unfold resetOf at hr
      split at hr
      · cases hr
      split at hr
      · cases hr
      simp only at hr
      split at hr
      · rename_i he; exact he
      · cases hr

end Canari.Graine.Run
