/-
  Canari.Mls.Manager — the groups one device holds, and the state it saves
  (`frontend/mls-core/src/state.rs`, `group.rs`, `welcome.rs`).

  The manager keeps each group twice: in memory (`groups`, by the text of its id) and in the
  storage OpenMLS writes (`storage`, by the bytes of its id). A save takes the storage and the
  ids of the groups held in memory; a load reads each of these ids back from the storage. A
  save of a state nothing marked dirty answers the snapshot built last.

  OpenMLS is not part of the source: `OpenMls` is what it answers during one call, a fresh one
  for every call, so each answer may fail or differ from the one before. The two facts taken of
  it are that a call writes the row of the group it is called on and no other, and that only
  staging a commit leaves a commit staged.
-/

import Canari.Lib.Machine
import Canari.Lib.Wire
import Canari.Mls.DeviceTrust
import Mathlib.Data.List.Infix

namespace Canari.Mls.State

open Lib Mls.DeviceTrust

inductive MlsError where
  | openMls (text : String)
  | serialization (text : String)
  | groupNotFound (groupId : String)
  | groupAlreadyHeld (groupId : String)
  | alreadyMember (text : String)
  | noSuchMember (text : String)
  | evicted (groupId : String)
  | invalidData

/-! ## Group ids as bytes and as text -/

def asBytes (s : String) : Bytes := s.toByteArray.data.toList

def isContinuation (b : UInt8) : Bool := b.toNat / 64 == 2

/-- The second byte of a sequence of three or four, which the first one narrows. -/
def secondInRange (b0 b1 : UInt8) : Bool :=
  let low := if b0 = 0xE0 then 0xA0 else if b0 = 0xF0 then 0x90 else 0x80
  let high := if b0 = 0xED then 0x9F else if b0 = 0xF4 then 0x8F else 0xBF
  low ≤ b1 && b1 ≤ high

/-- Reads text out of any bytes: what is no character becomes one U+FFFD, together with the
    longest start of a character it holds. -/
def lossyChars : Bytes → List Char
  | [] => []
  | b0 :: r0 =>
    if b0 < 0x80 then Char.ofNat b0.toNat :: lossyChars r0
    else match r0 with
      | [] => ['\uFFFD']
      | b1 :: r1 =>
        if 0xC2 ≤ b0 ∧ b0 < 0xE0 then
          if isContinuation b1 then Char.ofNat ((b0.toNat % 32) * 64 + b1.toNat % 64) :: lossyChars r1
          else '\uFFFD' :: lossyChars (b1 :: r1)
        else if ¬ (0xE0 ≤ b0 ∧ b0 < 0xF5 ∧ secondInRange b0 b1) then '\uFFFD' :: lossyChars (b1 :: r1)
        else match r1 with
          | [] => ['\uFFFD']
          | b2 :: r2 =>
            if ¬ isContinuation b2 then '\uFFFD' :: lossyChars (b2 :: r2)
            else if b0 < 0xF0 then
              Char.ofNat ((b0.toNat % 16) * 4096 + (b1.toNat % 64) * 64 + b2.toNat % 64) :: lossyChars r2
            else match r2 with
              | [] => ['\uFFFD']
              | b3 :: r3 =>
                if isContinuation b3 then
                  Char.ofNat ((b0.toNat % 8) * 262144 + (b1.toNat % 64) * 4096 +
                    (b2.toNat % 64) * 64 + b3.toNat % 64) :: lossyChars r3
                else '\uFFFD' :: lossyChars (b3 :: r3)

/-- `String::from_utf8_lossy`: bytes that are UTF-8 are the text they encode. -/
def fromUtf8Lossy (bytes : Bytes) : String := (String.fromUTF8? ⟨bytes.toArray⟩).getD (String.ofList (lossyChars bytes))

theorem fromUtf8Lossy_asBytes (s : String) : fromUtf8Lossy (asBytes s) = s := by
  have h : (⟨(asBytes s).toArray⟩ : ByteArray) = s.toByteArray := by simp [asBytes]
  rw [fromUtf8Lossy, h, String.fromUTF8?, dif_pos s.isValidUTF8]
  rfl

/-! ## The state -/

structure MlsGroup where
  groupId : Bytes
  epoch : Nat
  tree : List LeafKey
  /-- The commit staged in it and not merged or cleared, by the number of its stage. -/
  pendingCommit : Option Nat

abbrev Storage := Bytes → Option MlsGroup

/-- What a save writes and a load reads, as far as groups and their staged commits go. -/
structure PersistedState where
  storageValues : Storage
  groupIds : String → Bool
  forgottenGroupMinEpochs : String → Option Nat
  pendingSubmissions : String → Option Bytes
  pendingExternalJoins : String → Bool

structure StateSnapshotCache where
  dirty : Bool
  cachedCbor : Option PersistedState

structure MlsManager where
  storage : Storage
  groups : String → Option MlsGroup
  forgottenGroupMinEpochs : String → Option Nat
  pendingSubmissions : String → Option Bytes
  pendingExternalJoins : String → Bool
  stateSnapshot : StateSnapshotCache

variable (s : MlsManager) (g : String)

def MlsManager.held : Option (Nat × List LeafKey) := (s.groups g).map fun x => (x.epoch, x.tree)

def MlsManager.markStateDirty : MlsManager := { s with stateSnapshot := { s.stateSnapshot with dirty := true } }

/-! ## OpenMLS, during one call -/

structure Welcome where
  body : Bytes
  secrets : Nat

inductive MlsMessageBodyIn where
  | welcome (w : Welcome)
  | groupInfo (body : Bytes)
  | other

structure StagedWelcome where
  groupId : Bytes
  epoch : Nat
  tree : List LeafKey

/-- A call on the group `id` that stages nothing: the other rows stay, its own is of that group, and no commit is
    staged in it that was not. -/
structure Frame (id : Bytes) (before after : Storage) : Prop where
  other : ∀ i, i ≠ id → after i = before i
  groupId : ∀ x, after id = some x → x.groupId = id ∨ before id = some x
  pending : ∀ x n, after id = some x → x.pendingCommit = some n → ∃ y, before id = some y ∧ y.pendingCommit = some n

/-- A group OpenMLS has just made of a Welcome, a GroupInfo or nothing: stored as it is returned, with
    no commit staged. -/
structure Fresh (id : Bytes) (x : MlsGroup) (after : Storage) : Prop where
  groupId : x.groupId = id
  pending : x.pendingCommit = none
  stored : after id = some x

structure Making (id : Bytes) (before : Storage) where
  result : Except String MlsGroup
  after : Storage
  frame : Frame id before after
  fresh : ∀ x, result = .ok x → Fresh id x after

structure OpenMls where
  mlsMessageIn : Bytes → Option MlsMessageBodyIn
  welcomeIn : Bytes → Option Welcome
  ratchetTreeIn : Bytes → Option (List LeafKey)
  buildFromWelcome : Storage → Welcome → Except String Unit
  build : Storage → Welcome → Option (List LeafKey) → Except String StagedWelcome
  intoGroup : (st : Storage) → (w : StagedWelcome) → Making w.groupId st
  newWithGroupId : (st : Storage) → (id : Bytes) → Making id st
  /-- The id an unverified GroupInfo names. -/
  groupInfoId : Bytes → Bytes
  externalCommit : (st : Storage) → (info : Bytes) → Making (groupInfoId info) st
  /-- The commit of an external join, once serialised. -/
  joinCommit : Bytes → Option Bytes
  /-- The storage `MlsGroup::delete` leaves: best effort. -/
  delete : (st : Storage) → (id : Bytes) → { after : Storage // Frame id st after }

/-! ## Saving and loading -/

def MlsManager.hasPendingCommit : Except MlsError Bool :=
  match s.groups g with
  | none => .error (.groupNotFound g)
  | some x => .ok x.pendingCommit.isSome

/-- Only the submissions whose group still holds the staged commit are worth persisting. -/
def MlsManager.livePendingSubmissions : Option Bytes :=
  match s.hasPendingCommit g with
  | .ok true => s.pendingSubmissions g
  | _ => none

def MlsManager.serializeState : PersistedState where
  storageValues := s.storage
  groupIds := fun g => (s.groups g).isSome
  forgottenGroupMinEpochs := s.forgottenGroupMinEpochs
  pendingSubmissions := s.livePendingSubmissions
  pendingExternalJoins := s.pendingExternalJoins

/-- `StateSnapshotCache::get_or_build`. -/
def StateSnapshotCache.getOrBuild (c : StateSnapshotCache)
    (build : Option PersistedState) : Option PersistedState × StateSnapshotCache :=
  match c.dirty, c.cachedCbor with
  | false, some cached => (some cached, c)
  | _, _ =>
    match build with
    | none => (none, c)
    | some bytes => (some bytes, ⟨false, some bytes⟩)

/-- `serializes`: whether every part of the state encodes. -/
def MlsManager.saveState (serializes : Bool) : Option PersistedState × MlsManager :=
  let (bytes, cache) := s.stateSnapshot.getOrBuild (if serializes then some s.serializeState else none)
  (bytes, { s with stateSnapshot := cache })

/-- `load_or_create` on bytes this device saved: each group id is read back from the storage. -/
def load (p : PersistedState) : MlsManager where
  storage := p.storageValues
  groups := fun g => if p.groupIds g then p.storageValues (asBytes g) else none
  forgottenGroupMinEpochs := p.forgottenGroupMinEpochs
  pendingSubmissions := p.pendingSubmissions
  pendingExternalJoins := p.pendingExternalJoins
  stateSnapshot := ⟨true, none⟩

/-! ## Creating, forgetting and joining -/

def MlsManager.dropPendingSubmission : MlsManager :=
  if (s.pendingSubmissions g).isSome then
    { s with pendingSubmissions := Function.update s.pendingSubmissions g none }.markStateDirty
  else s

variable (O : OpenMls)

def MlsManager.deleteGroupFromStorage (s : MlsManager) (g : String) : MlsManager :=
  match s.storage (asBytes g) with
  | none => s
  | some _ => { s with storage := (O.delete s.storage (asBytes g)).1 }

def MlsManager.forgetGroup (s : MlsManager) (g : String) (minEpoch : Nat) : MlsManager :=
  let s := { s with groups := Function.update s.groups g none }.dropPendingSubmission g
  let s := { s with pendingExternalJoins := Function.update s.pendingExternalJoins g false }
  let s := if 0 < minEpoch then
    { s with forgottenGroupMinEpochs := Function.update s.forgottenGroupMinEpochs g (some minEpoch) } else s
  (s.deleteGroupFromStorage O g).markStateDirty

/-- A group whose rows are still stored is put back in memory, and the call fails all the same. -/
def MlsManager.createGroup (s : MlsManager) (g : String) : Except MlsError Unit × MlsManager :=
  let m := O.newWithGroupId s.storage (asBytes g)
  let s := { s with storage := m.after }
  match m.result with
  | .ok x => (.ok (), { s with groups := Function.update s.groups g (some x) }.markStateDirty)
  | .error e =>
    let error : MlsError := .openMls ("Creation error: " ++ e)
    if "GroupAlreadyExists".toList <:+: e.toList then
      match s.storage (asBytes g) with
      | some recovered => (.error error, { s with groups := Function.update s.groups g (some recovered) }.markStateDirty)
      | none => (.error error, s)
    else (.error error, s)

def MlsManager.joinByExternalCommit (s : MlsManager)
    (groupInfoBytes : Bytes) : Except MlsError (String × Bytes) × MlsManager :=
  match O.mlsMessageIn groupInfoBytes with
  | some (.groupInfo info) =>
    let targetId := fromUtf8Lossy (O.groupInfoId info)
    if (s.groups targetId).isSome then (.error (.groupAlreadyHeld targetId), s)
    else
      let m := O.externalCommit s.storage info
      let s := { s with storage := m.after }
      match m.result with
      | .error e => (.error (.openMls ("join_by_external_commit: " ++ e)), s)
      | .ok x =>
        let g := fromUtf8Lossy x.groupId
        match O.joinCommit info with
        | none => (.error (.openMls "tls_serialize_detached"), s)
        | some commit =>
          let s := { s with pendingExternalJoins := Function.update s.pendingExternalJoins g true }
          (.ok (g, commit), { s with groups := Function.update s.groups g (some x) }.markStateDirty)
  | _ => (.error .invalidData, s)

/-! ## Welcomes -/

def parseWelcome (welcomeBytes : Bytes) : Except MlsError Welcome :=
  match O.mlsMessageIn welcomeBytes with
  | some (.welcome w) => .ok w
  | some _ => .error .invalidData
  | none =>
    match O.welcomeIn welcomeBytes with
    | some w => .ok w
    | none => .error .invalidData

def parseRatchetTree : Option Bytes → Except MlsError (Option (List LeafKey))
  | none => .ok none
  | some bytes =>
    match O.ratchetTreeIn bytes with
    | some tree => .ok (some tree)
    | none => .error .invalidData

/-- Everything `process_welcome` does before its guards; nothing is written. -/
def stageWelcome (st : Storage) (welcomeBytes : Bytes)
    (ratchetTreeBytes : Option Bytes) : Except MlsError StagedWelcome := do
  let welcome ← parseWelcome O welcomeBytes
  let tree ← parseRatchetTree O ratchetTreeBytes
  let secrets := " [n_secrets=" ++ toString welcome.secrets ++ "]"
  match O.buildFromWelcome st welcome with
  | .error e => .error (.openMls ("Join error (welcome): " ++ e ++ secrets))
  | .ok () =>
    match O.build st welcome tree with
    | .error e => .error (.openMls ("Join error (staged): " ++ e ++ secrets))
    | .ok staged => .ok staged

inductive Guarded where
  /-- The group is active: the Welcome is ignored. -/
  | ignored
  | stale (minEpoch : Nat)
  /-- The group may be stored; the minimum epoch, if there was one, is lifted. -/
  | passed (s : MlsManager)

def MlsManager.minEpochGuard (welcomeEpoch : Nat) : Guarded :=
  let lifted := { s with forgottenGroupMinEpochs := Function.update s.forgottenGroupMinEpochs g none }
  match s.forgottenGroupMinEpochs g with
  | none => .passed s
  | some minEp =>
    if welcomeEpoch = 0 then .passed lifted
    else if welcomeEpoch < minEp then .stale minEp
    else .passed lifted

/-- Guard 1: a group active in memory is only replaced by one its sender created anew. -/
def MlsManager.welcomeGuards (welcomeEpoch : Nat) : Guarded :=
  match s.groups g with
  | none => s.minEpochGuard g welcomeEpoch
  | some existing =>
    if welcomeEpoch = 0 ∧ 0 < existing.epoch then
      { s with forgottenGroupMinEpochs :=
        Function.update s.forgottenGroupMinEpochs g none }.minEpochGuard g welcomeEpoch
    else .ignored

def MlsManager.processWelcome (s : MlsManager) (welcomeBytes : Bytes) (ratchetTreeBytes : Option Bytes) :
    Except MlsError String × MlsManager :=
  match stageWelcome O s.storage welcomeBytes ratchetTreeBytes with
  | .error e => (.error e, s)
  | .ok w =>
    let g := fromUtf8Lossy w.groupId
    match s.welcomeGuards g w.epoch with
    | .ignored => (.ok g, s)
    | .stale minEp =>
      (.error (.openMls ("Welcome stale: epoch " ++ toString w.epoch ++ " < min_epoch " ++ toString minEp)), s)
    | .passed s =>
      let m := O.intoGroup s.storage w
      let s := { s with storage := m.after }
      match m.result with
      | .error e => (.error (.openMls ("Join error (into_group): " ++ e)), s)
      | .ok x => (.ok g, { s with groups := Function.update s.groups g (some x) }.markStateDirty)

end Canari.Mls.State
