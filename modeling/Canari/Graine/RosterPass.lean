/-
  Canari.Graine.RosterPass — one roster pass over a key group
  (`frontend/src/lib/utils/graine/rosterReconcile.ts`: `diffRosterAgainstTree`, `reconcileOnce`,
  `revokedLeafCandidates`, `askRevokedLeaves`, `removeRevokedLeaves`, `reportRefusedRemoval`;
  `mls-core/src/members.rs`: `remove_members_for_users`, `remove_members_for_devices`).

  A pass reads the tree and the roster, removes the users the roster no longer names in one
  commit, then the leaves of revoked devices in another. What it awaits is the world's: what the
  reads answer, the tree the group has when a commit is staged (others commit too), and what
  becomes of the commit. The log lines are left out, and `malformedChanged` with them, which only
  chooses one.
  - `strays_exact_and_removed`: the names the diff reports, the empty one aside, are exactly the
    users named by a leaf that are neither this user nor on the roster; and a pass whose tree has
    such a user, or only leaves that name users, removes the departed and the revoked when its
    commits land.
  - `a_malformed_leaf_stops_the_pass`: a leaf that names nobody is reported as the user "", whom no
    leaf carries, and the pass ends at that refusal.
-/

import Canari.Graine.DepartureCommitter

namespace Canari.Graine.RosterPass

open Lib List
open Lib.Utf16 (JsString)
open Lib.JsText (text sort)
open Graine.DepartureCommitter

/-! ## The diff -/

structure RosterDiff where
  strayUserIds : List JsString
  keptLeafCount : Nat
  deriving DecidableEq

/-- `Set.add`: a member keeps its place. -/
def addTo (set : List JsString) (x : JsString) : List JsString := if x ∈ set then set else set ++ [x]

def visitLeaf (roster : List JsString) (self : JsString) (diff : RosterDiff) (identity : JsString) : RosterDiff :=
  let userId := userIdOfLeaf identity
  if userId = self ∨ userId ∈ roster then { diff with keptLeafCount := diff.keptLeafCount + 1 }
  else { diff with strayUserIds := addTo diff.strayUserIds userId }

variable (leafIdentities rosterUserIds : List JsString)

def diffRosterAgainstTree (selfUserId : JsString) : RosterDiff :=
  leafIdentities.foldl (visitLeaf (rosterUserIds.map canonicalUserId) (canonicalUserId selfUserId)) ⟨[], 0⟩

def leafUsers (leafIdentities : List JsString) : List JsString :=
  ((leafIdentities.map userIdOfLeaf).filter (· ≠ [])).foldl addTo []

/-! ## Revoked devices -/

/-- A unit of `[a-zA-Z0-9_.:@-]`. -/
def isAddressableUnit (u : UInt16) : Bool :=
  let n := u.toNat
  decide (0x61 ≤ n ∧ n ≤ 0x7a ∨ 0x41 ≤ n ∧ n ≤ 0x5a ∨ 0x30 ≤ n ∧ n ≤ 0x39) || (text "_.:@-").contains u

def addressableHalf (half : JsString) : Bool :=
    decide (1 ≤ half.length ∧ half.length ≤ 128) && half.all isAddressableUnit

def isAddressableLeafIdentity (identity : JsString) : Bool :=
  match identity.idxOf? colon with
  | none => false
  | some i => !isMalformed identity && addressableHalf (identity.take i) && addressableHalf (identity.drop (i + 1))

structure RevokedCandidates where
  candidates : List JsString
  malformed : List JsString

def revokedLeafCandidates (leafIdentities strayUserIds : List JsString)
    (selfUserId selfDeviceId : JsString) : RevokedCandidates :=
  leafIdentities.foldl (fun out identity =>
    if colon ∉ identity then out
    else if !isAddressableLeafIdentity identity then { out with malformed := addTo out.malformed identity }
    else
      let user := userIdOfLeaf identity
      if user = [] ∨ user ∈ strayUserIds then out
      else if user = canonicalUserId selfUserId ∧ identity.drop (identity.idxOf colon + 1) = selfDeviceId then out
      else { out with candidates := addTo out.candidates identity }) ⟨[], []⟩

structure RevokedLeafAnswer where
  asked : List JsString
  revoked : List JsString

/-! ## Commits that remove -/

/-- What becomes of a commit that was staged; `unpublished` is thrown before anything is. -/
inductive CommitFate where
  | lands
  | unpublished
  | unanswered
  | notMerged
  | refused (message : String)
  deriving DecidableEq

inductive RemovalError where
  | unpublishedBranch
  | commitOutcomeUnknown
  | acceptedCommitNotMerged
  | noSuchMember (wanted : List JsString)
  | other (message : String)

/-- One commit that takes out the leaves `names` picks, on the tree the group has when it is staged. -/
def commitRemoval (tree wanted : List JsString) (names : JsString → Bool)
    (fate : CommitFate) : Except RemovalError (List JsString) :=
  if fate = .unpublished then .error .unpublishedBranch
  else if (tree.filter names).isEmpty then .error (.noSuchMember wanted)
  else match fate with
    | .lands => .ok (tree.filter fun leaf => !names leaf)
    | .unpublished => .error .unpublishedBranch
    | .unanswered => .error .commitOutcomeUnknown
    | .notMerged => .error .acceptedCommitNotMerged
    | .refused message => .error (.other message)

/-- `remove_members_for_users`: the leaves of the users named. -/
def removeDepartedMembers (tree userIds : List JsString) (fate : CommitFate) : Except RemovalError (List JsString) :=
  commitRemoval tree userIds
    (fun leaf => (canonicalUserOf leaf).any fun user => (userIds.map canonicalUserId).contains user) fate

/-- `identity_names` -/
def sameDeviceIdentity (a b : JsString) : Bool :=
    (canonicalIdentity a).isSome && canonicalIdentity a == canonicalIdentity b

/-- `remove_members_for_devices`: the leaves of the devices named. -/
def removeMemberDevice (tree deviceIdentities : List JsString)
    (fate : CommitFate) : Except RemovalError (List JsString) :=
  commitRemoval tree deviceIdentities (fun leaf => deviceIdentities.any (sameDeviceIdentity leaf)) fate

/-! ## The pass -/

structure RosterPassReport where
  removedUserIds : List JsString
  heldUserIds : Option (List JsString)

structure World where
  isGraineReady : Bool
  groupId : Option String
  holdsGroupState : Bool
  userId : JsString
  deviceId : JsString
  leafIdentities : Except String (List JsString)
  rosterUserIds : Except String (List JsString)
  lastAnswer : Option RevokedLeafAnswer
  getRevokedLeaves : List JsString → Except String (List JsString)
  /-- The tree the departures are staged on, and what becomes of their commit. -/
  stagedOn : List JsString
  departures : CommitFate
  /-- The tree read again after a refusal. -/
  readAgain : Except String (List JsString)
  persisted : Except String Unit
  /-- From the tree a pass left to the one it reads again: what others committed meanwhile. -/
  meanwhile : List JsString → Except String (List JsString)
  revocations : CommitFate

structure PassResult where
  afterDepartures : Option (List JsString)
  afterRevocations : Option (List JsString)
  report : Except String RosterPassReport

def askRevokedLeaves (w : World) (candidates : List JsString) : Except String (List JsString) :=
  if candidates.isEmpty then .ok []
  else match w.lastAnswer with
    | some last => if last.asked = sort candidates then .ok last.revoked else w.getRevokedLeaves candidates
    | none => w.getRevokedLeaves candidates

/-- Decided on a fresh tree; `left` is the tree the pass has left so far. -/
def removeRevokedLeaves (w : World) (left revokedLeaves : List JsString) : Option (List JsString) :=
  if revokedLeaves.isEmpty then none
  else match w.meanwhile left with
    | .error _ => none
    | .ok tree =>
      let present := revokedLeaves.filter tree.contains
      if present.isEmpty then none
      else match removeMemberDevice tree present w.revocations with
        | .error _ => none
        | .ok tree => some tree

def reportRefusedRemoval (w : World) : RemovalError → Option (List JsString)
  | .commitOutcomeUnknown => none
  | .acceptedCommitNotMerged => none
  | _ =>
    match w.readAgain with
    | .ok tree => some (leafUsers tree)
    | .error _ => none

def reconcileOnce (w : World) : PassResult :=
  if w.isGraineReady = false ∨ w.groupId = none ∨ w.holdsGroupState = false then ⟨none, none, .ok ⟨[], none⟩⟩
  else match w.leafIdentities with
  | .error _ => ⟨none, none, .ok ⟨[], none⟩⟩
  | .ok tree =>
    match w.rosterUserIds with
    | .error _ => ⟨none, none, .ok ⟨[], some (leafUsers tree)⟩⟩
    | .ok rosterUserIds =>
      let diff := diffRosterAgainstTree tree rosterUserIds w.userId
      let candidates := (revokedLeafCandidates tree diff.strayUserIds w.userId w.deviceId).candidates
      -- an unanswered question removes nobody by device
      let revokedLeaves := match askRevokedLeaves w candidates with
        | .ok revoked => revoked
        | .error _ => []
      if diff.strayUserIds.isEmpty then
        ⟨none, removeRevokedLeaves w tree revokedLeaves, .ok ⟨[], some (leafUsers tree)⟩⟩
      else match removeDepartedMembers w.stagedOn diff.strayUserIds w.departures with
        | .error .unpublishedBranch => ⟨none, none, .ok ⟨[], some (leafUsers tree)⟩⟩
        | .error e => ⟨none, none, .ok ⟨[], reportRefusedRemoval w e⟩⟩
        | .ok left =>
          match w.persisted with
          | .error e => ⟨some left, none, .error e⟩
          | .ok () =>
            ⟨some left, removeRevokedLeaves w left revokedLeaves,
              .ok ⟨diff.strayUserIds, some ((leafUsers tree).filter fun u => !diff.strayUserIds.contains u)⟩⟩

/-! ## What the diff reports -/

section Diff

variable (roster : List JsString) (self : JsString)

def Keeps (identity : JsString) : Prop := userIdOfLeaf identity = self ∨ userIdOfLeaf identity ∈ roster

instance (identity : JsString) : Decidable (Keeps roster self identity) := inferInstanceAs (Decidable (_ ∨ _))

theorem mem_addTo {set : List JsString} {x y : JsString} : y ∈ addTo set x ↔ y ∈ set ∨ y = x := by
  unfold addTo
  split
  · rename_i h
    constructor
    · exact .inl
    · intro hy
      rcases hy with hy | rfl
      · exact hy
      · exact h
  · simp

theorem nodup_addTo {set : List JsString} (x : JsString) (h : set.Nodup) : (addTo set x).Nodup := by
  unfold addTo
  split
  · exact h
  · rename_i hx
    rw [nodup_append]
    refine ⟨h, by simp, ?_⟩
    intro a ha b hb e
    rw [mem_singleton] at hb
    exact hx (hb ▸ e ▸ ha)

/-- By induction on the leaves visited, from any diff. -/
theorem foldl_visitLeaf (leaves : List JsString) : ∀ diff : RosterDiff, diff.strayUserIds.Nodup →
    (leaves.foldl (visitLeaf roster self) diff).strayUserIds.Nodup ∧
    (∀ u, u ∈ (leaves.foldl (visitLeaf roster self) diff).strayUserIds ↔
      u ∈ diff.strayUserIds ∨ ∃ leaf ∈ leaves, userIdOfLeaf leaf = u ∧ ¬ Keeps roster self leaf) ∧
    (leaves.foldl (visitLeaf roster self) diff).keptLeafCount =
      diff.keptLeafCount + leaves.countP (fun leaf => decide (Keeps roster self leaf)) := by
  induction leaves with
  | nil =>
    intro diff h
    simp [h]
  | cons leaf leaves ih =>
    intro diff h
    rw [foldl_cons]
    by_cases hk : Keeps roster self leaf
    · have hv : visitLeaf roster self diff leaf = { diff with keptLeafCount := diff.keptLeafCount + 1 } := if_pos hk
      rw [hv]
      obtain ⟨hn, hm, hc⟩ := ih { diff with keptLeafCount := diff.keptLeafCount + 1 } h
      refine ⟨hn, ?_, ?_⟩
      · intro u
        simp [hm, hk]
      · rw [hc, countP_cons_of_pos (by simpa using hk)]
        dsimp only
        omega
    · have hv : visitLeaf roster self diff leaf = { diff with strayUserIds := addTo diff.strayUserIds (userIdOfLeaf leaf) } := if_neg hk
      rw [hv]
      obtain ⟨hn, hm, hc⟩ := ih { diff with strayUserIds := addTo diff.strayUserIds (userIdOfLeaf leaf) } (nodup_addTo _ h)
      refine ⟨hn, ?_, ?_⟩
      · intro u
        rw [hm]
        simp only [mem_addTo, mem_cons, exists_eq_or_imp]
        constructor
        · intro hu
          rcases hu with (hu | rfl) | hu
          · exact .inl hu
          · exact .inr (.inl ⟨rfl, hk⟩)
          · exact .inr (.inr hu)
        · intro hu
          rcases hu with hu | ⟨hu, -⟩ | hu
          · exact .inl (.inl hu)
          · exact .inl (.inr hu.symm)
          · exact .inr hu
      · rw [hc, countP_cons_of_neg (by simpa using hk)]

end Diff

variable {leaf u : JsString}

theorem canonicalUserOf_ne_nil (h : canonicalUserOf leaf = some u) : u ≠ [] := by
  unfold canonicalUserOf at h
  split at h
  · rename_i hb
    cases h
    simpa [canonicalUserId] using hb.1
  · obtain ⟨key, hkey, rfl⟩ := Option.map_eq_some_iff.mp h
    obtain ⟨user, device, hh, rfl, rfl⟩ := canonicalIdentity_eq_some_iff.mp hkey
    rw [idxOf_append_of_notMem hh.canonical.userColon]
    simpa using hh.canonical.userNe

theorem userIdOfLeaf_eq_iff (hu : u ≠ []) : userIdOfLeaf leaf = u ↔ canonicalUserOf leaf = some u := by
  unfold userIdOfLeaf
  cases h : canonicalUserOf leaf with
  | none => simpa using Ne.symm hu
  | some v => simp

/-- A user named by a leaf who is neither this user nor on the roster. -/
def Departed (selfUserId u : JsString) : Prop :=
  (∃ leaf ∈ leafIdentities, canonicalUserOf leaf = some u) ∧ u ≠ canonicalUserId selfUserId ∧
    u ∉ rosterUserIds.map canonicalUserId

/-- The strays are the departed, each once; the leaves kept are this user's and the roster's. -/
structure StraysExact (leafIdentities rosterUserIds : List JsString) (selfUserId : JsString)
    (diff : RosterDiff) : Prop where
  once : diff.strayUserIds.Nodup
  strays : ∀ u, u ≠ [] → (u ∈ diff.strayUserIds ↔ Departed leafIdentities rosterUserIds selfUserId u)
  kept : diff.keptLeafCount =
    leafIdentities.countP fun leaf =>
      decide (Keeps (rosterUserIds.map canonicalUserId) (canonicalUserId selfUserId) leaf)

theorem straysExact (selfUserId : JsString) :
    StraysExact leafIdentities rosterUserIds selfUserId
      (diffRosterAgainstTree leafIdentities rosterUserIds selfUserId) := by
  obtain ⟨hn, hm, hc⟩ := foldl_visitLeaf (rosterUserIds.map canonicalUserId)
    (canonicalUserId selfUserId) leafIdentities ⟨[], 0⟩ (by simp)
  refine ⟨hn, ?_, by simpa [diffRosterAgainstTree] using hc⟩
  intro u hu
  unfold diffRosterAgainstTree
  rw [hm]
  constructor
  · intro h
    rcases h with h | ⟨leaf, hl, rfl, hk⟩
    · cases h
    · rw [Keeps, not_or] at hk
      exact ⟨⟨leaf, hl, (userIdOfLeaf_eq_iff hu).mp rfl⟩, hk⟩
  · intro h
    obtain ⟨⟨leaf, hl, hn⟩, hself, hroster⟩ := h
    have hid : userIdOfLeaf leaf = u := (userIdOfLeaf_eq_iff hu).mpr hn
    refine .inr ⟨leaf, hl, hid, ?_⟩
    rw [Keeps, not_or, hid]
    exact ⟨hself, hroster⟩

theorem departed_of_stray {leafIdentities rosterUserIds : List JsString} {selfUserId : JsString}
    (hall : ∀ leaf ∈ leafIdentities, canonicalUserOf leaf ≠ none) {u : JsString}
    (h : u ∈ (diffRosterAgainstTree leafIdentities rosterUserIds selfUserId).strayUserIds) :
    Departed leafIdentities rosterUserIds selfUserId u := by
  have hne : u ≠ [] := by
    obtain ⟨-, hm, -⟩ := foldl_visitLeaf (rosterUserIds.map canonicalUserId)
      (canonicalUserId selfUserId) leafIdentities ⟨[], 0⟩ (by simp)
    unfold diffRosterAgainstTree at h
    rw [hm] at h
    rcases h with h | ⟨leaf, hl, rfl, -⟩
    · cases h
    · obtain ⟨v, hv⟩ := Option.ne_none_iff_exists'.mp (hall leaf hl)
      rw [userIdOfLeaf, hv]
      exact canonicalUserOf_ne_nil hv
  exact ((straysExact leafIdentities rosterUserIds selfUserId).strays u hne).mp h

/-! ## What a commit leaves -/

theorem commitRemoval_lands {tree wanted : List JsString} {names : JsString → Bool} {leaf : JsString}
    (hl : leaf ∈ tree) (hn : names leaf = true) :
    commitRemoval tree wanted names .lands = .ok (tree.filter fun leaf => !names leaf) := by
  have hne : (tree.filter names).isEmpty = false := by
    rw [isEmpty_eq_false_iff_exists_mem]
    exact ⟨leaf, mem_filter.mpr ⟨hl, hn⟩⟩
  simp [commitRemoval, hne]

theorem canonicalUserId_of_leaf (h : canonicalUserOf leaf = some u) : canonicalUserId u = u := by
  unfold canonicalUserOf at h
  split at h
  · cases h
    exact canonicalUserId_idem leaf
  · obtain ⟨key, hkey, rfl⟩ := Option.map_eq_some_iff.mp h
    obtain ⟨user, device, hh, rfl, rfl⟩ := canonicalIdentity_eq_some_iff.mp hkey
    rw [idxOf_append_of_notMem hh.canonical.userColon]
    simpa using canonicalUserId_idem user

theorem removeDepartedMembers_lands {tree userIds : List JsString} (hl : leaf ∈ tree) (hu : u ∈ userIds)
    (hn : canonicalUserOf leaf = some u) :
    ∃ left, removeDepartedMembers tree userIds .lands = .ok left ∧ ∀ leaf ∈ left, ∀ u ∈ userIds,
      canonicalUserOf leaf ≠ some u := by
  have hnames : ∀ {leaf u : JsString}, u ∈ userIds → canonicalUserOf leaf = some u →
      ((canonicalUserOf leaf).any fun user => (userIds.map canonicalUserId).contains user) = true := by
    intro leaf u hu hn
    rw [hn]
    simp only [Option.any_some, contains_eq_mem, decide_eq_true_eq, mem_map]
    exact ⟨u, hu, canonicalUserId_of_leaf hn⟩
  refine ⟨_, commitRemoval_lands hl (hnames hu hn), ?_⟩
  intro other ho v hv hn'
  have := (mem_filter.mp ho).2
  rw [hnames hv hn'] at this
  cases this

theorem removeMemberDevice_lands {tree present : List JsString} {identity : JsString} (hl : identity ∈ tree)
    (hp : identity ∈ present)
    (hc : canonicalIdentity identity ≠ none) :
    ∃ left, removeMemberDevice tree present .lands = .ok left ∧ ∀ leaf ∈ left, canonicalIdentity leaf ≠ none →
      leaf ∉ present := by
  have hnames : ∀ {leaf : JsString}, leaf ∈ present → canonicalIdentity leaf ≠ none →
    present.any (sameDeviceIdentity leaf) = true := by
    intro leaf hp hc
    rw [List.any_eq_true]
    refine ⟨leaf, hp, ?_⟩
    simpa [sameDeviceIdentity, Option.isSome_iff_ne_none] using hc
  refine ⟨_, commitRemoval_lands hl (hnames hp hc), ?_⟩
  intro leaf ho hcl hpl
  have := (mem_filter.mp ho).2
  rw [hnames hpl hcl] at this
  cases this

/-! ## What a pass removes -/

/-- A pass whose reads are answered and whose commits land: the departures, when there are any, find a
    leaf to remove on the tree they are staged on. -/
structure World.Goes (w : World) (tree roster revoked : List JsString) : Prop where
  ready : w.isGraineReady = true ∧ w.groupId ≠ none ∧ w.holdsGroupState = true
  leaves : w.leafIdentities = .ok tree
  rosterRead : w.rosterUserIds = .ok roster
  answered : askRevokedLeaves w
    (revokedLeafCandidates tree
      (diffRosterAgainstTree tree roster w.userId).strayUserIds w.userId w.deviceId).candidates = .ok revoked
  found : (∃ u, Departed tree roster w.userId u) → ∃ u, Departed tree roster w.userId u ∧
    ∃ leaf ∈ w.stagedOn, canonicalUserOf leaf = some u
  departures : w.departures = .lands
  persisted : w.persisted = .ok ()
  revocations : w.revocations = .lands

/-- The departed hold no leaf once their commit landed, and a device the server called revoked that the
    tree read after it still holds is gone from the tree the pass leaves. -/
structure Removed (w : World) (tree roster revoked : List JsString) (result : PassResult) : Prop where
  departed : (∃ u, Departed tree roster w.userId u) → ∃ left, result.afterDepartures = some left ∧
    ∀ leaf ∈ left, ∀ u, Departed tree roster w.userId u → canonicalUserOf leaf ≠ some u
  devices : ∀ fresh, w.meanwhile (result.afterDepartures.getD tree) = .ok fresh → ∀ identity ∈ revoked,
    identity ∈ fresh →
    canonicalIdentity identity ≠ none → ∃ left, result.afterRevocations = some left ∧ identity ∉ left

theorem removeRevokedLeaves_spec {w : World} {left revoked fresh : List JsString} (hfate : w.revocations = .lands)
    (hf : w.meanwhile left = .ok fresh) {identity : JsString} (hr : identity ∈ revoked) (hm : identity ∈ fresh)
    (hc : canonicalIdentity identity ≠ none) : ∃ t, removeRevokedLeaves w left revoked = some t ∧ identity ∉ t := by
  have hpresent : identity ∈ revoked.filter fresh.contains := mem_filter.mpr ⟨hr, by simpa using hm⟩
  obtain ⟨t, ht, hgone⟩ := removeMemberDevice_lands hm hpresent hc
  have hr' : revoked.isEmpty = false := isEmpty_eq_false_iff_exists_mem.mpr ⟨identity, hr⟩
  have hp' : (revoked.filter fresh.contains).isEmpty = false := isEmpty_eq_false_iff_exists_mem.mpr ⟨identity, hpresent⟩
  refine ⟨t, ?_, fun hin => hgone identity hin hc hpresent⟩
  simp only [removeRevokedLeaves, hr', hf, hp', hfate, ht]
  rfl

theorem reconcileOnce_removes {w : World} {tree roster revoked : List JsString} (hg : w.Goes tree roster revoked)
    (hall : (∃ u, Departed tree roster w.userId u) ∨ ∀ leaf ∈ tree, canonicalUserOf leaf ≠ none) :
    Removed w tree roster revoked (reconcileOnce w) := by
  have hex := straysExact tree roster w.userId
  have hready : ¬ (w.isGraineReady = false ∨ w.groupId = none ∨ w.holdsGroupState = false) := by
    obtain ⟨h1, h2, h3⟩ := hg.ready
    simp [h1, h2, h3]
  by_cases hd : ∃ u, Departed tree roster w.userId u
  · obtain ⟨u, hu, leaf, hl, hn⟩ := hg.found hd
    have hmem : ∀ v, Departed tree roster w.userId v →
      v ∈ (diffRosterAgainstTree tree roster w.userId).strayUserIds := by
      intro v hv
      obtain ⟨leaf, -, hleaf⟩ := hv.1
      exact (hex.strays v (canonicalUserOf_ne_nil hleaf)).mpr hv
    obtain ⟨left, hleft, hgone⟩ := removeDepartedMembers_lands hl (hmem u hu) hn
    have hne : (diffRosterAgainstTree tree roster w.userId).strayUserIds.isEmpty = false :=
      isEmpty_eq_false_iff_exists_mem.mpr ⟨u, hmem u hu⟩
    have hrun : (reconcileOnce w).afterDepartures = some left ∧
      (reconcileOnce w).afterRevocations = removeRevokedLeaves w left revoked := by
      unfold reconcileOnce
      rw [if_neg hready, hg.leaves]
      rw [hg.rosterRead]
      dsimp only
      rw [hg.answered, hne, hg.departures, hleft, hg.persisted]
      exact ⟨rfl, rfl⟩
    refine ⟨fun _ => ⟨left, hrun.1, fun leaf hl v hv => hgone leaf hl v (hmem v hv)⟩, ?_⟩
    intro fresh hf identity hr hm hc
    rw [hrun.1] at hf
    rw [hrun.2]
    exact removeRevokedLeaves_spec hg.revocations hf hr hm hc
  · -- nobody departed, and a stray of such a tree would have
    have hnone : (diffRosterAgainstTree tree roster w.userId).strayUserIds.isEmpty = true := by
      rw [List.isEmpty_iff, eq_nil_iff_forall_not_mem]
      intro u hu
      exact hd ⟨u, departed_of_stray (hall.resolve_left hd) hu⟩
    have hrun : (reconcileOnce w).afterDepartures = none ∧
      (reconcileOnce w).afterRevocations = removeRevokedLeaves w tree revoked := by
      unfold reconcileOnce
      rw [if_neg hready, hg.leaves]
      rw [hg.rosterRead]
      dsimp only
      rw [hg.answered, hnone]
      exact ⟨rfl, rfl⟩
    refine ⟨fun h => absurd h hd, ?_⟩
    intro fresh hf identity hr hm hc
    rw [hrun.1] at hf
    rw [hrun.2]
    exact removeRevokedLeaves_spec hg.revocations hf hr hm hc

/-- The names the diff reports are the users named by a leaf who are neither this user nor on the
    roster, each once, but for the empty name; and a pass that goes through removes them, and the
    revoked devices, from a tree that has one of them or whose leaves all name users. -/
theorem strays_exact_and_removed (tree roster revoked : List JsString) (self : JsString) (w : World) :
    StraysExact tree roster self (diffRosterAgainstTree tree roster self) ∧
      (w.Goes tree roster revoked →
        ((∃ u, Departed tree roster w.userId u) ∨ ∀ leaf ∈ tree, canonicalUserOf leaf ≠ none) →
        Removed w tree roster revoked (reconcileOnce w)) :=
  ⟨straysExact tree roster self, reconcileOnce_removes⟩

/-! ## A leaf that names nobody -/

/-- Bob's device is revoked and everything the pass asks goes well; the third leaf has two colons. -/
def malformedWorld (leaves roster : List String) : World where
  isGraineReady := true
  groupId := some "g"
  holdsGroupState := true
  userId := text "me"
  deviceId := text "d"
  leafIdentities := .ok (leaves.map text)
  rosterUserIds := .ok (roster.map text)
  lastAnswer := none
  getRevokedLeaves := fun _ => .ok [text "bob:e"]
  stagedOn := leaves.map text
  departures := .lands
  readAgain := .ok (leaves.map text)
  persisted := .ok ()
  meanwhile := .ok
  revocations := .lands

/-- The leaf is reported as a stray of the empty name, and its pass removes nobody, where the pass on
    the tree without that leaf removes the revoked device; and a member of the roster without a leaf
    changes nothing the diff reports. -/
theorem a_malformed_leaf_stops_the_pass :
    (diffRosterAgainstTree (["me:d", "bob:e", "x:y:z"].map text) (["me", "bob"].map text)
      (text "me")).strayUserIds = [[]] ∧
    diffRosterAgainstTree (["me:d", "bob:e", "x:y:z"].map text) (["me", "bob", "carol"].map text) (text "me") =
      diffRosterAgainstTree (["me:d", "bob:e", "x:y:z"].map text) (["me", "bob"].map text) (text "me") ∧
    (reconcileOnce (malformedWorld ["me:d", "bob:e", "x:y:z"] ["me", "bob"])).afterRevocations = none ∧
    (reconcileOnce (malformedWorld ["me:d", "bob:e"] ["me", "bob"])).afterRevocations = some [text "me:d"] := by
  decide

def mixedLeaves : List String := ["me:d", "bob:e", "carol:f", "x:y:z"]

def mixedWorld : World := malformedWorld mixedLeaves ["me", "bob"]

/-- Carol departed, bob's device is revoked, and the last leaf names nobody: the pass removes the first two. -/
theorem a_departure_and_a_revoked_device_go :
    Removed mixedWorld (mixedLeaves.map text) (["me", "bob"].map text) [text "bob:e"] (reconcileOnce mixedWorld) ∧
    Departed (mixedLeaves.map text) (["me", "bob"].map text) (text "me") (text "carol") ∧
    (reconcileOnce mixedWorld).afterRevocations = some (["me:d", "x:y:z"].map text) := by
  have hd : Departed (mixedLeaves.map text) (["me", "bob"].map text) (text "me") (text "carol") :=
    ⟨⟨text "carol:f", by decide, by decide⟩, by decide, by decide⟩
  refine ⟨?_, hd, by decide⟩
  refine (strays_exact_and_removed _ _ _ (text "me") _).2 ?_ (.inl ⟨text "carol", hd⟩)
  exact ⟨⟨rfl, by decide, rfl⟩, rfl, rfl, by
    decide, fun _ => ⟨text "carol", hd, text "carol:f", by decide, by decide⟩, rfl, rfl, rfl⟩

end Canari.Graine.RosterPass
