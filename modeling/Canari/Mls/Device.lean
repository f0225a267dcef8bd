/-
  Canari.Mls.Device — all that one device saves, and every call that changes it
  (`frontend/mls-core/src/state.rs`, `messaging.rs`, `members.rs`, `group.rs`, `welcome.rs`,
  `graine_run.rs`, `admission.rs`, `owed_welcome.rs`).

  Beside the groups of `Manager` and the owed Welcomes a save writes the identity, the rows of the
  storage that are no group's own (key packages, message secrets, queued proposals), the device
  record, the Graine runs and the admission policies. A save answers the bytes built last while
  nothing marked the state dirty: the cache here is of the whole state, and the parts of it the
  layers below keep are not read.

  A call on OpenMLS may have written rows by the time it fails. So each event of a run says what
  every call on OpenMLS answers and what it wrote (`Answer`, `writes`), and a call the code refuses
  before it reaches OpenMLS writes nothing.
-/

import Canari.Graine.Run
import Canari.Mls.OwedWelcome

namespace Canari.Mls.Snapshot

open Lib Mls.State Mls.Submission Mls.Owed Mls.DevicePins Mls.DeviceTrust
open Graine.Run (GraineRun CommitSummary observeCommit)

abbrev Rows := JsMap Bytes Bytes

inductive AdmissionPolicy where
  | closed
  | opened
  deriving DecidableEq

structure Identity where
  keypair : Bytes
  signatureKey : DevicePins.Key
  identity : String

/-- What a save writes: `state` has the groups, their staged commits and the minimum epochs. -/
structure Persisted where
  identityBundle : Identity
  state : PersistedState
  storageRows : Rows
  owedWelcomes : JsMap Bytes Bytes
  devicePins : List PersistedPin
  deviceEvents : List DeviceEvent
  deviceDepartures : List Departure
  devicePinsPruned : List String
  graineRuns : String → Option GraineRun
  admission : String → Option AdmissionPolicy

structure Device extends Owing where
  own : Identity
  rows : Rows
  trust : Trust
  graineRuns : String → Option GraineRun
  admission : String → Option AdmissionPolicy
  cachedCbor : Option Persisted

def Device.dirty (d : Device) : Bool := d.mls.stateSnapshot.dirty

/-- `mark_state_dirty`, and `mark_ratchet_advanced` as far as a save goes. -/
def Device.marked (d : Device) : Device := { d with mls := d.mls.markStateDirty }

def Device.serializeState (d : Device) : Persisted where
  identityBundle := d.own
  state := d.mls.serializeState
  storageRows := d.rows
  owedWelcomes := serializeOwed d.owedWelcomes
  devicePins := d.trust.persistedPins
  deviceEvents := d.trust.events
  deviceDepartures := d.trust.departures
  devicePinsPruned := d.trust.pruned
  graineRuns := d.graineRuns
  admission := d.admission

/-- `serializes`: whether every part of the state encodes. -/
def Device.saveState (d : Device) (serializes : Bool) : Option Persisted × Device :=
  match d.dirty, d.cachedCbor with
  | false, some cached => (some cached, d)
  | _, _ =>
    if serializes then
      let mls := { d.mls with stateSnapshot := { d.mls.stateSnapshot with dirty := false } }
      (some d.serializeState, { d with mls, cachedCbor := some d.serializeState })
    else (none, d)

/-! ## Key packages -/

structure Answer where
  error : Option String
  writes : Rows → Rows

def Device.answered (d : Device) (a : Answer) : Device := { d with rows := a.writes d.rows }

structure Minting where
  building : Answer
  hashRef : Except String Bytes
  storing : Answer
  packed : Except String Bytes
  notAfter : Nat

def buildKeyPackage (m : Minting) (d : Device) : Except MlsError (Bytes × Nat) × Device :=
  let d := d.answered m.building
  match m.building.error, m.hashRef with
  | some e, _ => (.error (.openMls ("KeyPackage creation error: " ++ e)), d)
  | none, .error e => (.error (.openMls ("HashRef error: " ++ e)), d)
  | none, .ok _ =>
    let d := d.answered m.storing
    match m.storing.error with
    | some e => (.error (.openMls ("Storage error: " ++ e)), d)
    | none => ((serialized m.packed).map (·, m.notAfter), d.marked)

/-- `expired`: the row is a key package its own key names, past its lifetime. -/
def pruneKeyPackagesExpiredAt (expired : Bytes × Bytes → Bool) (d : Device) : Nat × Device :=
  let doomed := d.rows.entries.filter expired
  let d := { d with rows := ⟨d.rows.entries.filter fun row => !expired row⟩ }
  (doomed.length, if doomed.isEmpty then d else d.marked)

/-- A payload that reads: the row its bundle is kept in, and how reading and deleting that row fail. -/
structure PublicKeyPackage where
  row : Bytes
  readError : Option String
  deleteError : Option String

structure ForgetOutcome where
  forgotten : Nat
  notHeld : Nat
  unreadable : Nat

def forgetEach (outcome : ForgetOutcome) (rows : Rows) :
    List (Option PublicKeyPackage) → Except MlsError ForgetOutcome × Rows
  | [] => (.ok outcome, rows)
  | none :: rest => forgetEach { outcome with unreadable := outcome.unreadable + 1 } rows rest
  | some p :: rest =>
    match p.readError with
    | some e => (.error (.openMls ("Storage read error: " ++ e)), rows)
    | none =>
      if rows.has p.row then
        match p.deleteError with
        | some e => (.error (.openMls ("Storage delete error: " ++ e)), rows)
        | none => forgetEach { outcome with forgotten := outcome.forgotten + 1 } (rows.delete p.row) rest
      else forgetEach { outcome with notHeld := outcome.notHeld + 1 } rows rest

def forgetKeyPackages (publics : List (Option PublicKeyPackage)) (d : Device) :
    Except MlsError ForgetOutcome × Device :=
  match forgetEach ⟨0, 0, 0⟩ d.rows publics with
  | (.error e, rows) => (.error e, { d with rows })
  | (.ok outcome, rows) =>
    let d := { d with rows }
    (.ok outcome, if 0 < outcome.forgotten then d.marked else d)

/-! ## Messages -/

/-- `claim`: the fork claim signed, or the error of signing it. -/
def sendMessage (claim : Except MlsError Unit) (evicted : Bool) (a : Answer) (frame : Except String Bytes)
    (g : String) (d : Device) : Except MlsError Bytes × Device :=
  match d.mls.groups g, claim with
  | none, _ => (.error (.groupNotFound g), d)
  | some _, .error e => (.error e, d)
  | some _, .ok () =>
    let d := d.answered a
    match a.error with
    | some e => (.error (if evicted then .evicted g else .openMls ("Encrypt error: " ++ e)), d)
    | none => (frame.mapError .serialization, d.marked)

/-- The frames built and dropped, and where one could not be built. -/
def burn (burnt : Nat) (d : Device) : List Answer → Option (Nat × String) × Device
  | [] => (none, d)
  | a :: rest =>
    match a.error with
    | some e => (some (burnt, e), d.answered a)
    | none => burn (burnt + 1) (d.answered a) rest

def skipSendGenerations (frames : List Answer) (g : String) (d : Device) : Except MlsError Nat × Device :=
  if frames.isEmpty then (.ok 0, d)
  else match d.mls.groups g with
    | none => (.error (.groupNotFound g), d)
    | some _ =>
      match burn 0 d frames with
      | (some (burnt, e), d) =>
        (.error (.openMls ("Burn error after " ++ toString burnt ++ "/" ++ toString frames.length ++
          " generation(s): " ++ e)),
          d.marked)
      | (none, d) => (.ok frames.length, d.marked)

/-- A merge as the observers are shown it; without a summary, or an id for a new run, the run is dropped. -/
abbrev Summarised := Option (CommitSummary × String)

def Device.runAfter (d : Device) (g : String) (summary : Summarised) : String → Option GraineRun :=
  Function.update d.graineRuns g (summary.map fun s => observeCommit (d.graineRuns g) s.1 s.2)

variable (fingerprint : DevicePins.Key → String)

def Device.trustAfter (d : Device) (m : Trust.Merged) : Trust :=
  (d.trust.observeMergedCommit fingerprint m (d.trust.freshOf m.before).entries).1

inductive ProcessedMessage where
  /-- OpenMLS refuses the frame; a handshake of a past epoch is then answered as nothing. -/
  | refused (e : Option MlsError)
  | application
  /-- `foreign`: an external commit that removes another's leaf. -/
  | commit (sender : Option String) (foreign : Option MlsError) (c : Ending) (merges : Rows → Rows)
      (summary : Summarised)
  | proposal
  | ownPendingCommit
  | ownPrivateMessage (e : MlsError)

/-- `epoch`: of a frame that is not too long and decodes. -/
structure Incoming where
  epoch : Option Nat
  active : Bool
  writes : Rows → Rows
  content : ProcessedMessage

def mergeIncoming (sender : Option String) (c : Ending) (merges : Rows → Rows) (summary : Summarised)
    (n : Nat) (g : String)
    (x : MlsGroup) (d : Device) : Except MlsError Unit × Device :=
  let (result, mls) := mergeStagedCommit c n d.mls g
  let after := c.memory.run n x
  let d' := { d with mls, rows := merges d.rows }
  match c.error with
  | some _ => (result, d')
  | none =>
    let trust := d.trustAfter fingerprint ⟨g, after.epoch, x.tree, after.tree, sender, d.own.identity,
      d.own.signatureKey⟩
    (result, { d' with trust, graineRuns := d.runAfter g summary })

def processIncoming (f : Incoming) (n : Nat) (g : String) (d : Device) : Except MlsError Unit × Device :=
  match d.mls.groups g, f.epoch with
  | none, _ => (.error (.groupNotFound g), d)
  | some _, none => (.error .invalidData, d)
  | some x, some epoch =>
    if !f.active then (.error (.evicted g), d)
    else if x.epoch < epoch then
      (.error (.openMls ("Process error: epoch gap [msg_epoch=" ++ toString epoch ++ ", group_epoch=" ++
        toString x.epoch ++ "]")), d)
    else
      let d := { d with rows := f.writes d.rows }
      match f.content with
      | .refused none | .ownPendingCommit => (.ok (), d)
      | .refused (some e) | .ownPrivateMessage e => (.error e, d)
      | .application | .proposal => (.ok (), d.marked)
      | .commit sender foreign c merges summary =>
        match foreign with
        | some e => (.error e, d)
        | none => mergeIncoming fingerprint sender c merges summary n g x d

/-! ## Staged commits -/

/-- An Add and a replacement are vetted against the pins this device holds. -/
def vettedBy (trust : Trust) : How → How
  | .addBulk _ packages => .addBulk trust packages
  | .add _ packages expectedIdentities => .add trust packages expectedIdentities
  | .replace _ unreadable identity package => .replace trust unreadable identity package
  | how => how

def namesLeaf : Except MlsError (List Nat) → Bool
  | .ok (_ :: _) => true
  | _ => false

/-- The stage reaches OpenMLS. -/
def reaches (s : MlsManager) (g : String) (how : How) : Bool :=
  match s.groups g with
  | none => false
  | some x =>
    match how with
    | .selfUpdate => x.pendingCommit.isNone
    | .removeUsers unreadable userIds =>
      namesLeaf (leafIndicesWhere unreadable x.tree
        fun i => (Identity.canonicalUserOf i).any (userIds.map Identity.canonicalUserId).contains)
    | .removeDevices unreadable identities =>
        namesLeaf (leafIndicesWhere unreadable x.tree fun i => identities.any (sameIdentity i))
    | .addBulk trust packages => !(vetAll trust x.tree packages none).addedIndices.isEmpty
    | .add trust packages expected =>
      expected.length == packages.length && !(vetAll trust x.tree packages (some expected)).addedIndices.isEmpty
    | .replace trust unreadable identity package =>
      match package with
      | .error _ => false
      | .ok kp =>
        (vetValidated trust kp (some identity)).isOk &&
        match leafIndicesWhere unreadable x.tree fun found => sameIdentity found identity with
        | .ok (i :: rest) => !((x.tree.filter fun leaf => (i :: rest).contains leaf.index).any fun leaf => leaf.key != kp.key)
        | _ => false

def Device.rowsAfter (d : Device) (reached : Bool)
    (writes : Rows → Rows) : Rows := if reached then writes d.rows else d.rows

def stage (how : How) (c : Staging) (writes : Rows → Rows) (n : Nat) (g : String) (d : Device) : Device :=
  let how := vettedBy d.trust how
  { d with mls := (how.stage c n d.mls g).2, rows := d.rowsAfter (reaches d.mls g how) writes }

/-- `writes`: of the stage, and of the clear when the record does not encode. -/
def record (F : Submission.Format) (how : How) (O : OpenMls) (clear : Ending) (c : Staging) (writes : Rows → Rows)
    (intent : Bytes)
    (n : Nat) (g : String) (d : Device) : Option Device :=
  let how := vettedBy d.trust how
  (how.record F O clear c n d.mls g intent).map fun out =>
    { d with mls := out.2, rows := d.rowsAfter (reaches d.mls g how) writes }

def mergePendingCommit (c : Ending) (writes : Rows → Rows) (summary : Summarised) (n : Nat) (g : String) (d : Device) :
    Except MlsError Unit × Device :=
  let (result, mls) := mergePendingCommitFor c n d.mls g
  match d.mls.groups g with
  | none => (result, d)
  | some x =>
    let d' := { d with mls, rows := writes d.rows }
    match c.error with
    | some _ => (result, d')
    | none =>
      let after := c.memory.run n x
      let trust :=
        if d.mls.pendingExternalJoins g then (d.trust.observeJoinedTree fingerprint g after.epoch after.tree).1
        else if x.pendingCommit.isSome then
          d.trustAfter fingerprint ⟨g, after.epoch, x.tree, after.tree, some d.own.identity, d.own.identity,
            d.own.signatureKey⟩
        else d.trust
      (result, { d' with trust, graineRuns := if x.pendingCommit.isSome then d.runAfter g summary else d.graineRuns })

def mergePendingCommitOwing (W : Owed.Format) (F : Submission.Format) (c : Ending) (writes : Rows → Rows)
    (summary : Summarised)
    (exported : Except MlsError Bytes) (recipients : List String) (n : Nat) (g : String) (d : Device) : Device :=
  match pendingSubmission F d.mls g with
  | .recorded r =>
    if r.welcome.isEmpty then d
    else
      { (mergePendingCommit fingerprint c writes summary n g d).2 with
        toOwing := (mergePendingCommitOwingWelcome W F c exported n d.toOwing g recipients).2 }
  | _ => d

def forgetGroup (O : OpenMls) (writes : Rows → Rows) (minEpoch : Nat) (g : String) (d : Device) : Device :=
  { d with
    toOwing := Owed.forgetGroup O d.toOwing g minEpoch
    rows := d.rowsAfter (d.mls.storage (asBytes g)).isSome writes
    trust := { d.trust with unseeded := d.trust.unseeded.filter (· != g) }
    graineRuns := Function.update d.graineRuns g none
    admission := Function.update d.admission g none }

/-- A group the load left unseeded is seeded from the tree it falls back to. -/
def Device.reseeded (d : Device) (g : String) (tree : List LeafKey) : Trust :=
  if d.trust.unseeded.contains g then
    let trust := { d.trust with unseeded := d.trust.unseeded.filter (· != g) }
    (trust.seedFromTree (trust.freshOf tree).entries).1
  else d.trust

def clearPendingCommit (O : OpenMls) (c : Ending) (writes : Rows → Rows) (n : Nat) (g : String) (d : Device) : Device :=
  if d.mls.pendingExternalJoins g then
    { forgetGroup O writes 0 g d with toOwing := Owed.clearPendingCommit O c n d.toOwing g }
  else match d.mls.groups g with
    | none => d
    | some x =>
      let d' := { d with toOwing := Owed.clearPendingCommit O c n d.toOwing g, rows := writes d.rows }
      if c.error.isSome then d' else { d' with trust := d.reseeded g (c.memory.run n x).tree }

/-! ## Entering groups -/

def createGroup (O : OpenMls) (writes : Rows → Rows) (g : String) (d : Device) : Device :=
  { d with mls := (d.mls.createGroup O g).2, rows := writes d.rows }

def joinByExternalCommit (O : OpenMls) (writes : Rows → Rows) (groupInfoBytes : Bytes) (d : Device) : Device :=
  let reached := match O.mlsMessageIn groupInfoBytes with
    | some (.groupInfo info) => !(d.mls.groups (fromUtf8Lossy (O.groupInfoId info))).isSome
    | _ => false
  { d with mls := (d.mls.joinByExternalCommit O groupInfoBytes).2, rows := d.rowsAfter reached writes }

def processWelcome (O : OpenMls) (writes : Rows → Rows) (welcomeBytes : Bytes) (ratchetTreeBytes : Option Bytes)
    (d : Device) : Device :=
  match stageWelcome O d.mls.storage welcomeBytes ratchetTreeBytes with
  | .error _ => d
  | .ok w =>
    match d.mls.welcomeGuards (fromUtf8Lossy w.groupId) w.epoch with
    | .passed _ =>
      let (result, mls) := d.mls.processWelcome O welcomeBytes ratchetTreeBytes
      let d' := { d with mls, rows := writes d.rows }
      match result with
      | .error _ => d'
      | .ok g =>
        let tree := ((mls.groups g).map (·.tree)).getD []
        { d' with trust := (d.trust.observeJoinedTree fingerprint g w.epoch tree).1 }
    | _ => d

/-! ## Runs, policies and events -/

def graineRun (epochFingerprint runId : Except MlsError String) (g : String)
    (d : Device) : Except MlsError GraineRun × Device :=
  match d.mls.groups g, epochFingerprint with
  | none, _ => (.error (.groupNotFound g), d)
  | some _, .error e => (.error e, d)
  | some _, .ok current =>
    match (d.graineRuns g).filter (·.epochFingerprint = current), runId with
    | some run, _ => (.ok run, d)
    | none, .error e => (.error e, d)
    | none, .ok id => (.ok ⟨id, current⟩, { d with graineRuns := Function.update d.graineRuns g (some ⟨id, current⟩) }.marked)

def setAdmissionPolicy (g : String) (policy : AdmissionPolicy) (d : Device) : Device :=
  let d' := { d with admission := Function.update d.admission g (some policy) }
  if d.admission g = some policy then d' else d'.marked

def takeDeviceEvents (d : Device) : List DeviceEvent × Device :=
  let d' := { d with trust := { d.trust with events := [], fullReported := false } }
  (d.trust.events, if d.trust.events.isEmpty then d' else d'.marked)

/-! ## Loading -/

/-- The trees of the groups held, each unless a commit is staged in it, after this device's own leaf. -/
def seeded (own : Identity) (mls : MlsManager) (held : List String) (trust : Trust) : Trust :=
  let ownLeaf : LeafKey := ⟨0, own.identity, own.signatureKey⟩
  held.foldl (fun trust g =>
    match mls.groups g with
    | none => trust
    | some x =>
      if mls.pendingExternalJoins g || x.pendingCommit.isSome then { trust with unseeded := g :: trust.unseeded }
      else (trust.seedFromTree (trust.freshOf x.tree).entries).1)
    (trust.seedFromTree (trust.freshOf [ownLeaf]).entries).1

/-- `load_or_create` on a saved state; `held` lists the groups in the order they are read. -/
def loadOrCreate (held : List String) (expired : Bytes × Bytes → Bool) (p : Persisted) : Device :=
  let mls := load p.state
  let trust := seeded p.identityBundle mls held
    (.fromPersisted p.devicePins p.devicePinsPruned p.deviceEvents p.deviceDepartures)
  let leaves := held.flatMap fun g => ((mls.groups g).map (·.tree)).getD []
  let trust := trust.pruneAbsent (p.identityBundle.identity :: leaves.map (·.identity))
  (pruneKeyPackagesExpiredAt expired
    { mls, owedWelcomes := loadOwed p.owedWelcomes, cachedOwed := JsMap.empty
      own := p.identityBundle
      rows := p.storageRows
      trust := { trust with departures := pruneDepartures trust.departures held }
      graineRuns := p.graineRuns
      admission := fun g => (p.admission g).filter (· ≠ .closed)
      cachedCbor := none }).2

end Canari.Mls.Snapshot
