/-
  Canari.Mls.PendingSubmission — the submission recorded beside a staged commit
  (`frontend/mls-core/src/pending_submission.rs`, `members.rs`, `self_update.rs`).

  OpenMLS stages a commit inside the group; what it is to be submitted with is kept beside it, by
  the call that staged it, and dropped by every new stage, by the merge, by the clear and by a
  forget. Another member's commit also ends the one staged here and leaves the record, which is
  not served while nothing is staged.

  So a record left over must be dropped by the stage that follows, and the stages do not drop it
  at the same place. The refresh and the removals drop it as soon as OpenMLS has staged;
  `stage_add` first serialises the commit, the Welcome and the base, and `replace_device_with_base`
  first looks for a Welcome. A stage that returns in between leaves its commit staged beside a
  record of another (`Canari.Mls.SubmissionRuns`).
-/

import Canari.Mls.Manager
import Canari.Mls.DevicePins

namespace Canari.Mls.Submission

open Lib Mls.DeviceTrust Mls.Identity Mls.State

abbrev Key := DevicePins.Key

/-! ## The record -/

structure PendingSubmission where
  intent : Bytes
  baseEpoch : Nat
  commit : Bytes
  groupInfo : Bytes
  welcome : Bytes
  addedIndices : List Nat
  deriving DecidableEq

inductive PendingSubmissionRead where
  | none
  | unreadable
  | recorded (record : PendingSubmission)
  deriving DecidableEq

/-- `into_writer` and `from_reader` on a record: what is written reads back. -/
structure Format where
  intoWriter : PendingSubmission → Except String Bytes
  fromReader : Bytes → Except String PendingSubmission
  reads : ∀ record bytes, intoWriter record = .ok bytes → fromReader bytes = .ok record

def pendingSubmission (F : Format) (s : MlsManager) (g : String) : PendingSubmissionRead :=
  match s.hasPendingCommit g with
  | .ok true =>
    match s.pendingSubmissions g with
    | none => .none
    | some bytes =>
      match F.fromReader bytes with
      | .ok record => .recorded record
      | .error _ => .unreadable
  | _ => .none

/-! ## Calls to OpenMLS on a group's staged commit -/

/-- How a call rewrites a group, in memory or in its row; `n` numbers the commit it may stage. -/
structure Rewrite (stages : Bool) where
  run : Nat → MlsGroup → MlsGroup
  groupId : ∀ n x, (run n x).groupId = x.groupId
  pending : ∀ n x m, (run n x).pendingCommit = some m → x.pendingCommit = some m ∨ (stages = true ∧ m = n)

structure Call where
  error : Option String
  /-- The call leaves its commit staged; one that fails may have come that far. -/
  stages : Bool
  memory : Rewrite stages
  row : Rewrite stages

structure Staging extends Call where
  staged : error = none → ∀ n x, (memory.run n x).pendingCommit = some n ∧ (row.run n x).pendingCommit = some n
  commit : Except String Bytes
  welcome : Option (Except String Bytes)
  groupInfo : Option (Except String Bytes)

structure Ending extends Call where
  stagesNone : stages = false
  ended : error = none → ∀ n x, (memory.run n x).pendingCommit = none ∧ (row.run n x).pendingCommit = none

def Call.on (c : Call) (n : Nat) (s : MlsManager) (g : String) (x : MlsGroup) : MlsManager :=
  { s with
    groups := Function.update s.groups g (some (c.memory.run n x))
    storage := Function.update s.storage x.groupId ((s.storage x.groupId).map (c.row.run n)) }

/-! ## Stages -/

inductive SkippedKeyPackageReason where
  | undecodable | expired | notYetValid | missingLifetime | invalidSignature | unsupportedProtocolVersion
      | malformed | internal
  | identityMismatch | signatureKeyChanged

def SkippedKeyPackageReason.asStr : SkippedKeyPackageReason → String
  | .undecodable => "undecodable"
  | .expired => "expired"
  | .notYetValid => "not-yet-valid"
  | .missingLifetime => "missing-lifetime"
  | .invalidSignature => "invalid-signature"
  | .unsupportedProtocolVersion => "unsupported-protocol-version"
  | .malformed => "malformed"
  | .internal => "internal"
  | .identityMismatch => "identity-mismatch"
  | .signatureKeyChanged => "signature-key-changed"

abbrev Skipped := List (Nat × SkippedKeyPackageReason)

/-- What a plain stage hands back; only an Add has positions added or skipped. -/
structure Staged where
  commit : Bytes
  groupInfo : Bytes
  welcome : Option Bytes
  addedIndices : List Nat
  skipped : Skipped

def serialized {α : Type} : Except String α → Except MlsError α
  | .ok a => .ok a
  | .error e => .error (.openMls e)

def successorBase (g : String) : Option (Except String Bytes) → Except MlsError Bytes
  | none => .error (.openMls ("no GroupInfo for the staged commit on " ++ g ++ ": ratchet-tree extension not set"))
  | some groupInfo => serialized groupInfo

def commitAndBase (c : Staging) (g : String) : Except MlsError Staged := do
  let commit ← serialized c.commit
  let groupInfo ← successorBase g c.groupInfo
  return ⟨commit, groupInfo, none, [], []⟩

def dropped (s : MlsManager) (g : String) : MlsManager := (s.dropPendingSubmission g).markStateDirty

def stageSelfUpdate (c : Staging) (n : Nat) (s : MlsManager) (g : String) : Except MlsError Staged × MlsManager :=
  match s.groups g with
  | none => (.error (.groupNotFound g), s)
  | some x =>
    if x.pendingCommit.isSome then
      (.error (.openMls ("self-update refused on " ++ g ++ ": a commit is already pending")), s)
    else match c.error with
      | some e => (.error (.openMls e), c.on n s g x)
      | none => (commitAndBase c g, dropped (c.on n s g x) g)

/-- `leafIndices`: the leaves to take out, or the error of a leaf that could not be read. -/
def stageRemoval (c : Staging) (n : Nat) (s : MlsManager) (g : String) (x : MlsGroup)
    (leafIndices : Except MlsError (List Nat))
    (named : String) : Except MlsError Staged × MlsManager :=
  match leafIndices with
  | .error e => (.error e, s)
  | .ok [] => (.error (.noSuchMember named), s)
  | .ok _ =>
    match c.error with
    | some e => (.error (.openMls ("RemoveMembers error: " ++ e)), c.on n s g x)
    | none => (commitAndBase c g, dropped (c.on n s g x) g)

/-- The leaves whose identity matches; `unreadable` is the error of a leaf without a readable one. -/
def leafIndicesWhere (unreadable : Option MlsError) (tree : List LeafKey)
    (matching : String → Bool) : Except MlsError (List Nat) :=
  match unreadable with
  | some e => .error e
  | none => .ok ((tree.filter fun leaf => matching leaf.identity).map (·.index))

def removeMembersForUsers (c : Staging) (unreadable : Option MlsError) (n : Nat) (s : MlsManager) (g : String)
    (userIds : List String) :
    Except MlsError Staged × MlsManager :=
  match s.groups g with
  | none => (.error (.groupNotFound g), s)
  | some x =>
    let wanted := userIds.map canonicalUserId
    stageRemoval c n s g x (leafIndicesWhere unreadable x.tree
      fun identity => (canonicalUserOf identity).any wanted.contains)
      ("no leaf carries any of the identities " ++ toString userIds)

def removeMembersForDevices (c : Staging) (unreadable : Option MlsError) (n : Nat) (s : MlsManager) (g : String)
    (deviceIdentities : List String) :
    Except MlsError Staged × MlsManager :=
  match s.groups g with
  | none => (.error (.groupNotFound g), s)
  | some x =>
    stageRemoval c n s g x (leafIndicesWhere unreadable x.tree
      fun identity => deviceIdentities.any (sameIdentity identity))
      ("no leaf carries any of the identities " ++ toString deviceIdentities)

/-! ### Key packages -/

/-- A validated key package: the identity its credential carries, if it reads, and its signature key. -/
structure KeyPackage where
  identity : Option String
  key : Key

abbrev KeyPackageRead := Except SkippedKeyPackageReason KeyPackage

def vetValidated (trust : DevicePins.Trust) (kp : KeyPackage)
    (expected : Option String) : Except SkippedKeyPackageReason DevicePins.LeafTrust :=
  match kp.identity with
  | none => .error .identityMismatch
  | some identity =>
    let bound := match expected with
      | some expected => sameIdentity identity expected
      | none => isWellFormedIdentity identity
    if !bound then .error .identityMismatch
    else match trust.verdict identity kp.key with
      | .keyChanged => .error .signatureKeyChanged
      | other => .ok other

structure Vetting where
  known : List String
  addedIndices : List Nat
  skipped : Skipped
  anyAlreadyMember : Bool

/-- One key package of an Add: kept, skipped with its reason, or already a member. -/
def vetOne (trust : DevicePins.Trust) (expectedIdentities : Option (List String)) (v : Vetting)
    (entry : KeyPackageRead × Nat) : Vetting :=
  let (read, idx) := entry
  let skip := fun reason => { v with skipped := v.skipped ++ [(idx, reason)] }
  match read with
  | .error reason => skip reason
  | .ok kp =>
    match vetValidated trust kp (expectedIdentities.map fun e => e[idx]?.getD "") with
    | .error reason => skip reason
    | .ok _ =>
      match kp.identity.bind canonicalIdentity with
      | none => { v with addedIndices := v.addedIndices ++ [idx] }
      | some identity =>
        if v.known.contains identity then { v with anyAlreadyMember := true }
        else { v with known := v.known ++ [identity], addedIndices := v.addedIndices ++ [idx] }

def vetAll (trust : DevicePins.Trust) (tree : List LeafKey) (packages : List KeyPackageRead)
    (expectedIdentities : Option (List String)) : Vetting :=
  packages.zipIdx.foldl (vetOne trust expectedIdentities) ⟨tree.filterMap fun leaf => canonicalIdentity leaf.identity,
    [], [], false⟩

/-- Serialises what OpenMLS handed over before it drops the record of an earlier commit. -/
def addedMessages (c : Staging) (g : String) (v : Vetting) : Except MlsError Staged := do
  let commit ← serialized c.commit
  let welcome ← serialized (c.welcome.getD (.error "no Welcome"))
  let base ← successorBase g c.groupInfo
  return ⟨commit, base, some welcome, v.addedIndices, v.skipped⟩

def stageAdd (c : Staging) (trust : DevicePins.Trust) (n : Nat) (s : MlsManager) (g : String)
    (packages : List KeyPackageRead)
    (expectedIdentities : Option (List String)) : Except MlsError Staged × MlsManager :=
  match s.groups g with
  | none => (.error (.groupNotFound g), s)
  | some x =>
    let v := vetAll trust x.tree packages expectedIdentities
    if v.addedIndices.isEmpty then
      if v.anyAlreadyMember then (.error (.alreadyMember "All KeyPackages already belong to existing group members"), s)
      else
        let reasons := v.skipped.map fun (idx, reason) => toString idx ++ "=" ++ reason.asStr
        (.error (.openMls ("No valid KeyPackages to add (skipped: " ++ ", ".intercalate reasons ++ ")")), s)
    else match c.error with
      | some e => (.error (.openMls ("AddMembers error: " ++ e)), c.on n s g x)
      | none =>
        match addedMessages c g v with
        | .error e => (.error e, c.on n s g x)
        | .ok staged => (.ok staged, dropped (c.on n s g x) g)

def addMembersBulkWithBase (c : Staging) (trust : DevicePins.Trust) (n : Nat) (s : MlsManager) (g : String)
    (packages : List KeyPackageRead)
    (expectedIdentities : List String) : Except MlsError Staged × MlsManager :=
  if expectedIdentities.length ≠ packages.length then
    (.error (.openMls ("add_members_bulk_with_base: " ++ toString packages.length ++ " key package(s) for " ++
      toString expectedIdentities.length ++ " expected identit(ies)")), s)
  else stageAdd c trust n s g packages (some expectedIdentities)

/-- The messages of a replacement, serialised once the record of an earlier commit is dropped. -/
def replacedMessages (c : Staging) (g : String) (welcome : Except String Bytes) : Except MlsError Staged := do
  let commit ← serialized c.commit
  let welcome ← serialized welcome
  match c.groupInfo with
  | none => throw (.openMls ("no GroupInfo for the staged commit on " ++ g))
  | some base => return ⟨commit, ← serialized base, some welcome, [], []⟩

def replaceDeviceWithBase (c : Staging) (trust : DevicePins.Trust) (unreadable : Option MlsError) (n : Nat)
    (s : MlsManager) (g identity : String)
    (package : Except String KeyPackage) : Except MlsError Staged × MlsManager :=
  match package with
  | .error e => (.error (.openMls ("replace_device: " ++ e)), s)
  | .ok kp =>
    match vetValidated trust kp (some identity) with
    | .error reason => (.error (.openMls ("replace_device: the KeyPackage for " ++ identity ++ " was refused (" ++ reason.asStr ++ ")")), s)
    | .ok _ =>
      match s.groups g with
      | none => (.error (.groupNotFound g), s)
      | some x =>
        match leafIndicesWhere unreadable x.tree fun found => sameIdentity found identity with
        | .error e => (.error e, s)
        | .ok [] => (.error (.noSuchMember ("no leaf carries " ++ identity ++ " - nothing to replace")), s)
        | .ok leafIndices =>
          if (x.tree.filter fun leaf => leafIndices.contains leaf.index).any fun leaf => leaf.key != kp.key then
            (.error (.openMls ("replace_device: the KeyPackage for " ++ identity ++
              " does not carry the key of its leaf")), s)
          else match c.error with
            | some e => (.error (.openMls ("replace_device " ++ e)), c.on n s g x)
            | none =>
              match c.welcome with
              | none => (.error (.openMls ("replace_device: no Welcome for " ++ identity)), c.on n s g x)
              | some welcome => (replacedMessages c g welcome, dropped (c.on n s g x) g)

/-! ## Merging, clearing, and other members' commits -/

def clearPendingCommitFor (O : OpenMls) (c : Ending) (n : Nat) (s : MlsManager)
    (g : String) : Except MlsError Unit × MlsManager :=
  if s.pendingExternalJoins g then
    let s := { s with pendingExternalJoins := Function.update s.pendingExternalJoins g false }
    (.ok (), s.forgetGroup O g 0)
  else match s.groups g with
    | none => (.error (.groupNotFound g), s)
    | some x =>
      match c.error with
      | some e => (.error (.openMls ("Clear pending commit error: " ++ e)), c.on n s g x)
      | none => (.ok (), dropped (c.on n s g x) g)

def mergePendingCommitFor (c : Ending) (n : Nat) (s : MlsManager) (g : String) : Except MlsError Unit × MlsManager :=
  match s.groups g with
  | none => (.error (.groupNotFound g), s)
  | some x =>
    match c.error with
    | some e => (.error (.openMls ("Merge pending commit error: " ++ e)), c.on n s g x)
    | none =>
      let s := c.on n s g x
      (.ok (), dropped { s with pendingExternalJoins := Function.update s.pendingExternalJoins g false } g)

/-- Another member's commit, merged: the record of the one staged here is left. -/
def mergeStagedCommit (c : Ending) (n : Nat) (s : MlsManager) (g : String) : Except MlsError Unit × MlsManager :=
  match s.groups g with
  | none => (.error (.groupNotFound g), s)
  | some x =>
    match c.error with
    | some e => (.error (.openMls ("Merge commit error: " ++ e)), c.on n s g x)
    | none => (.ok (), (c.on n s g x).markStateDirty)

/-! ## Stages that record -/

def getEpoch (s : MlsManager) (g : String) : Except MlsError Nat :=
  match s.groups g with
  | none => .error (.openMls ("Group " ++ g ++ " not found"))
  | some x => .ok x.epoch

/-- Writes the record of the commit just staged; one that does not encode clears the commit. -/
def recordStaged (F : Format) (O : OpenMls) (clear : Ending) (n : Nat) (s : MlsManager) (g : String) (intent : Bytes)
    (baseEpoch : Nat)
    (staged : Staged) : Except MlsError (PendingSubmission × Skipped) × MlsManager :=
  let record : PendingSubmission :=
    ⟨intent, baseEpoch, staged.commit, staged.groupInfo, staged.welcome.getD [], staged.addedIndices⟩
  match F.intoWriter record with
  | .error e =>
    match clearPendingCommitFor O clear n s g with
    | (.error e', s) => (.error e', s)
    | (.ok (), s) => (.error (.serialization ("pending submission: " ++ e)), s)
  | .ok bytes => (.ok (record, staged.skipped), { s with pendingSubmissions := Function.update s.pendingSubmissions g (some bytes) }.markStateDirty)

/-- A stage and its record in one call; the skipped key packages come back beside the record. -/
def recorded (F : Format) (O : OpenMls) (clear : Ending) (n : Nat) (s : MlsManager) (g : String) (intent : Bytes)
    (stage : MlsManager → Except MlsError Staged × MlsManager) :
    Except MlsError (PendingSubmission × Skipped) × MlsManager :=
  match getEpoch s g with
  | .error e => (.error e, s)
  | .ok baseEpoch =>
    match stage s with
    | (.error e, s) => (.error e, s)
    | (.ok staged, s) => recordStaged F O clear n s g intent baseEpoch staged

section Recorded

variable (F : Format) (O : OpenMls) (clear : Ending) (c : Staging) (trust : DevicePins.Trust)
    (unreadable : Option MlsError) (n : Nat)

def stageSelfUpdateRecorded (s : MlsManager) (g : String)
    (intent : Bytes) : Except MlsError (PendingSubmission × Skipped) × MlsManager :=
  recorded F O clear n s g intent fun s => stageSelfUpdate c n s g

def removeMembersForUsersRecorded (s : MlsManager) (g : String) (userIds : List String) (intent : Bytes) :
    Except MlsError (PendingSubmission × Skipped) × MlsManager :=
  recorded F O clear n s g intent fun s => removeMembersForUsers c unreadable n s g userIds

def removeMembersForDevicesRecorded (s : MlsManager) (g : String) (deviceIdentities : List String) (intent : Bytes) :
    Except MlsError (PendingSubmission × Skipped) × MlsManager :=
  recorded F O clear n s g intent fun s => removeMembersForDevices c unreadable n s g deviceIdentities

def addMembersRecorded (s : MlsManager) (g : String) (packages : List KeyPackageRead)
    (expectedIdentities : List String) (intent : Bytes) :
    Except MlsError (PendingSubmission × Skipped) × MlsManager :=
  recorded F O clear n s g intent fun s => addMembersBulkWithBase c trust n s g packages expectedIdentities

def replaceDeviceRecorded (s : MlsManager) (g identity : String) (package : Except String KeyPackage) (intent : Bytes) :
    Except MlsError (PendingSubmission × Skipped) × MlsManager :=
  recorded F O clear n s g intent fun s => replaceDeviceWithBase c trust unreadable n s g identity package

end Recorded

end Canari.Mls.Submission
