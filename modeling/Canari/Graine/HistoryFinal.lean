/-
  Canari.Graine.HistoryFinal — when a community's history is declared final
  (`frontend/src/lib/utils/graine/repair.ts`: `treeDevicesOn`, `heldNothingView`, `electionRoster`,
  `requestCommunityHistory` from its version to its decision, `noteHistoryHeldNothing`;
  `historyAnswered.ts`).

  A call fixes the key group and the epoch it asks at, and reads which devices answered "I hold
  nothing" there; then it awaits the roster, then the tree, then decides: it asks the next member,
  waits, or marks the record final. Between two awaits the epoch may move, devices may answer, the
  record may be forgotten, the app may restart, other calls run. `trees` is the leaves of each key
  group at each epoch; `toLowerCase` may do anything to a letter that is not ASCII.
  - `final_only_on_a_full_answer`: in every run in which a call that finds every device answered
    has read the tree of its version, each leaf of which is this device's or a device of a member
    of the roster it read, and in which what it read of the record is still recorded, a final
    record has every leaf but this device's own.
  - `a_leaf_off_the_roster_is_not_asked`: the check walks the roster, so a leaf of a user who left
    it is neither asked nor missed.
-/

import Canari.Graine.DepartureCommitter
import Canari.Lib.Machine

namespace Canari.Graine.HistoryFinal

open Lib
open Lib.Utf16 (JsString)
open Lib.JsText (text sort)
open Graine.DepartureCommitter

/-! ## The record -/

structure HistoryAskVersion where
  groupId : JsString
  epoch : Nat
  deriving DecidableEq

structure HistoryHeldNothing where
  version : HistoryAskVersion
  devices : List JsString
  final : Bool
  deriving DecidableEq

/-- What a device is made of beside its state: who it is, and how `toLowerCase` spells. -/
structure Device where
  userId : JsString
  deviceId : JsString
  toLowerCase : JsString → JsString
  trees : JsString → Nat → List JsString

variable (D : Device)

def answeredDevice (user device : JsString) : JsString := D.toLowerCase user ++ colon :: device

abbrev Records := JsString → Option HistoryHeldNothing

variable (records : Records)

def historyHeldNothingDevices (w : JsString) (version : HistoryAskVersion) : List JsString :=
  match records w with
  | some record => if record.version = version then record.devices else []
  | none => []

def recordHistoryHeldNothing (w : JsString) (version : HistoryAskVersion)
    (answerer device : JsString) : Records × Bool :=
  let devices := historyHeldNothingDevices records w version
  let named := answeredDevice D answerer device
  if named ∈ devices then (records, false)
  else (Function.update records w (some ⟨version, sort (devices ++ [named]), false⟩), true)

def historyHeldNothingFinalAt (w : JsString) (version : HistoryAskVersion) : Bool :=
  (records w).any fun record => record.version = version && record.final

def markHistoryHeldNothingFinal (w : JsString) (version : HistoryAskVersion) : Records :=
  match records w with
  | some record => if record.version = version then Function.update records w (some { record with final := true }) else records
  | none => records

/-! ## The tree and the roster -/

/-- `Set.add` -/
def addTo (set : List JsString) (x : JsString) : List JsString := if x ∈ set then set else set ++ [x]

abbrev TreeDevices := JsMap JsString (List JsString)

def visitLeaf (tree : TreeDevices) (leaf : JsString) : TreeDevices :=
  let device := deviceIdOfLeaf leaf
  if device = D.deviceId then tree
  else
    let user := userIdOfLeaf leaf
    let devices := (tree.get user).getD []
    -- a leaf naming no device still puts its member on the tree
    tree.set user (if device ≠ [] then addTo devices device else devices)

def treeDevicesOn (leaves : List JsString) : TreeDevices := leaves.foldl (visitLeaf D) JsMap.empty

structure ChannelMemberDto where
  userId : JsString
  online : Option Bool
  onlineDevices : Option (List JsString)

structure ElectionRoster where
  roster : List JsString
  online : List JsString
  devices : Option (JsMap JsString (List JsString))

def visitRow (read : ElectionRoster) (row : ChannelMemberDto) : ElectionRoster :=
  let id := D.toLowerCase row.userId
  { roster := addTo read.roster id
    online := if row.online ≠ some false then addTo read.online id else read.online
    devices := match row.onlineDevices with
      | none => none
      | some devices => if devices ≠ [] then read.devices.map (·.set id devices) else read.devices }

def electionRoster (rows : List ChannelMemberDto) : ElectionRoster := rows.foldl (visitRow D) ⟨[], [], some JsMap.empty⟩

/-- The devices online of each member that are leaves of the tree; none without presence or without a tree. -/
def answeringDevicesIn (tree : Option TreeDevices) (onlineDevices : Option (JsMap JsString (List JsString))) :
    Option (JsMap JsString (List JsString)) :=
  match onlineDevices, tree with
  | some online, some tree =>
    some (online.entries.foldl (fun answering entry =>
      let usable := sort (entry.2.filter fun d => ((tree.get entry.1).getD []).contains d)
      if usable = [] then answering else answering.set entry.1 usable) JsMap.empty)
  | _, _ => none

def reachableThroughDevices (online : List JsString) (answering : JsMap JsString (List JsString)) : List JsString :=
  online.filter answering.has

def MAX_NAMED_ANSWERERS : Nat := 16

/-- What `heldNothingView` closes over. -/
structure HeldView where
  roster : List JsString
  tree : Option TreeDevices
  recorded : List JsString
  answering : Option (JsMap JsString (List JsString))

namespace HeldView

variable (v : HeldView)

variable (id : JsString)

def unansweredOf (devices : List JsString) : List JsString :=
  devices.filter fun d => !v.recorded.contains (answeredDevice D id d)

def exhausted : Bool :=
  match v.tree.bind (·.get id) with
  | some devices => devices ≠ [] && v.unansweredOf D id devices = []
  | none => false

def unansweredOnline : List JsString :=
  (v.unansweredOf D id ((v.answering.bind (·.get (D.toLowerCase id))).getD [])).take MAX_NAMED_ANSWERERS

def leafless : Bool :=
  match v.tree with
  | some tree => !tree.has id
  | none => false

def done : Bool := v.exhausted D id || v.leafless id

def spent : Bool :=
  match v.answering with
  | some answering =>
    let devices := (answering.get id).getD []
    devices ≠ [] && v.unansweredOf D id devices = []
  | none => false

def unansweredOnTree : Option (List JsString) :=
  v.tree.map fun tree => v.unansweredOf D id ((tree.get (canonicalUserId id)).getD [])

def skipped : List JsString := v.roster.filter fun id => v.done D id || v.spent D id

def everyDeviceAnswered (self : JsString) : Bool :=
  match v.tree with
  | some tree => (v.roster.filter (· ≠ self)).all (v.done D) && ((tree.get self).getD [] = [] || v.exhausted D self)
  | none => false

end HeldView

def lowestOtherMember (roster : List JsString) (self : JsString) (tried online : List JsString) : Option JsString :=
  (sort (roster.filter fun id => id ≠ self && !tried.contains id && online.contains id)).head?

/-! ## The decision -/

inductive Decision where
  | parked (offline : List JsString)
  | waitsForDevice
  | ownDevicesOffline
  | final (version : HistoryAskVersion)
  | nobody
  | ask (answerer : JsString) (devices : List JsString) (unanswered : Option (List JsString))

structure Reading where
  workspaceId : JsString
  groupId : JsString
  version : Option HistoryAskVersion
  recorded : List JsString
  roster : ElectionRoster
  leaves : Option (List JsString)

def Reading.tree (r : Reading) : Option TreeDevices := r.leaves.map (treeDevicesOn D)

def Reading.view (r : Reading) : HeldView :=
  ⟨r.roster.roster, r.tree D, r.recorded, answeringDevicesIn (r.tree D) r.roster.devices⟩

/-- The members online: where presence names devices, those with a device that can answer. -/
def Reading.online (r : Reading) : List JsString :=
  match (r.view D).answering with
  | some answering => reachableThroughDevices r.roster.online answering
  | none => r.roster.online

/-- `ownDevices` is what `ownDevicesOnTheGroup` answers, if it is asked. -/
def Reading.decision (r : Reading) (ownDevices : Bool) : Decision :=
  let v := r.view D
  let online := r.online D
  let other := lowestOtherMember v.roster D.userId (v.skipped D) online
  let ownOnGroup := other.isNone && !v.exhausted D D.userId && ownDevices
  let ownOnline := v.answering.isNone || v.unansweredOnline D D.userId ≠ []
  match other.or (if ownOnGroup && ownOnline then some D.userId else none) with
  | some answerer => .ask answerer (v.unansweredOnline D answerer) (v.unansweredOnTree D answerer)
  | none =>
    let offline := sort (v.roster.filter fun id => id ≠ D.userId && !online.contains id && !v.done D id)
    if offline ≠ [] then .parked offline
    else if (v.roster.filter fun id => id ≠ D.userId && online.contains id && !v.done D id) ≠ [] then .waitsForDevice
    else if ownOnGroup then .ownDevicesOffline
    else match r.version with
      | some version => if r.recorded ≠ [] ∧ v.everyDeviceAnswered D D.userId = true then .final version else .nobody
      | none => .nobody

/-! ## The machine -/

structure HistoryRequest where
  requestId : JsString
  answerer : JsString
  pending : Option (List JsString)
  unanswered : Option (List JsString)
  heldNothing : List JsString
  groupId : JsString
  epoch : Option Nat

inductive Call where
  | asking (workspaceId groupId : JsString) (version : Option HistoryAskVersion) (recorded : List JsString)
  | rostered (workspaceId groupId : JsString) (version : Option HistoryAskVersion) (recorded : List JsString)
      (roster : ElectionRoster)
  | treed (reading : Reading)
  | ended

structure St where
  records : Records
  /-- The epoch of each key group this device holds. -/
  epoch : JsString → Option Nat
  historyRequest : JsString → Option HistoryRequest
  historyUnanswerableAt : JsString → Option Nat
  calls : List Call

inductive Ev where
  /-- `ridable`: the epoch can be read, see `distributionEpochFor`. -/
  | begin (workspaceId groupId : JsString) (ridable : Bool)
  | roster (k : Nat) (rows : List ChannelMemberDto)
  | tree (k : Nat) (readable : Bool)
  | decide (k : Nat) (ownDevices : Bool) (requestId : JsString)
  | sendFailed (workspaceId : JsString)
  | sent (workspaceId : JsString)
  | answer (workspaceId answerer requestId answererDevice : JsString)
  | forget (workspaceId : JsString)
  | commit (groupId : JsString) (epoch : Option Nat)
  | restart

/-- The stretch before the roster read; a question already answered is not asked. -/
def St.begun (s : St) (w g : JsString) (ridable : Bool) : St :=
  let epoch := if ridable then s.epoch g else none
  let version := epoch.map (⟨g, ·⟩)
  if epoch.isSome && s.historyUnanswerableAt w = epoch then s
  else if version.any (historyHeldNothingFinalAt s.records w) then s
  else { s with calls := s.calls ++
    [.asking w g version ((version.map (historyHeldNothingDevices s.records w)).getD [])] }

def St.unanswerable (s : St) (w : JsString) (version : Option HistoryAskVersion) : St :=
  match version with
  | some v => { s with historyUnanswerableAt := Function.update s.historyUnanswerableAt w (some v.epoch) }
  | none => s

def St.decided (s : St) (r : Reading) (requestId : JsString) : Decision → St
  | .parked _ => s
  | .waitsForDevice => s.unanswerable r.workspaceId r.version
  | .ownDevicesOffline => s.unanswerable r.workspaceId r.version
  | .final version =>
    { s with records := markHistoryHeldNothingFinal s.records r.workspaceId version }.unanswerable
      r.workspaceId r.version
  | .nobody => s.unanswerable r.workspaceId r.version
  | .ask answerer devices unanswered =>
    let pending := if devices ≠ [] then some devices else none
    let request : HistoryRequest :=
      ⟨requestId, D.toLowerCase answerer, pending, unanswered, [], r.groupId, r.version.map (·.epoch)⟩
    { s with historyRequest := Function.update s.historyRequest r.workspaceId (some request) }

/-- `noteHistoryHeldNothing`; the call it starts for the next member is an event of its own. -/
def noteHistoryHeldNothing (s : St) (w answerer requestId answererDevice : JsString) : St :=
  match s.historyRequest w with
  | none => s
  | some inFlight =>
    if inFlight.requestId ≠ requestId ∨ inFlight.answerer ≠ D.toLowerCase answerer then s
    else
      let expected := inFlight.pending.or inFlight.unanswered
      if answererDevice = [] ∨ expected.any (fun devices => !devices.contains answererDevice) then s
      else match inFlight.epoch with
        | none => { s with historyRequest := Function.update s.historyRequest w none }
        | some epoch =>
          let (records, isNew) := recordHistoryHeldNothing D s.records w ⟨inFlight.groupId,
            epoch⟩ inFlight.answerer answererDevice
          let inFlight := { inFlight with
            pending := inFlight.pending.map (·.filter (· ≠ answererDevice))
            unanswered := inFlight.unanswered.map (·.filter (· ≠ answererDevice)) }
          if !isNew then { s with records := records, historyRequest := Function.update s.historyRequest w (some inFlight) }
          else
            let inFlight := { inFlight with heldNothing := inFlight.heldNothing ++ [answererDevice] }
            let memberDone := inFlight.unanswered = some []
            let namedDone := inFlight.pending = some []
            { s with
              records := records
              historyRequest := Function.update s.historyRequest w (if memberDone ∨ namedDone then none else some inFlight) }

def step (s : St) : Ev → Option St
  | .begin w g ridable => some (s.begun w g ridable)
  | .roster k rows =>
    match s.calls[k]? with
    | some (.asking w g version recorded) =>
      some { s with calls := s.calls.set k (.rostered w g version recorded (electionRoster D rows)) }
    | _ => none
  | .tree k readable =>
    match s.calls[k]? with
    | some (.rostered w g version recorded roster) =>
      let leaves := if readable then (s.epoch g).map (D.trees g) else none
      some { s with calls := s.calls.set k (.treed ⟨w, g, version, recorded, roster, leaves⟩) }
    | _ => none
  | .decide k ownDevices requestId =>
    match s.calls[k]? with
    | some (.treed r) => some { s.decided D r requestId (r.decision D ownDevices) with calls := s.calls.set k .ended }
    | _ => none
  | .sendFailed w => some { s with historyRequest := Function.update s.historyRequest w none }
  | .sent w => some { s with historyUnanswerableAt := Function.update s.historyUnanswerableAt w none }
  | .answer w answerer requestId answererDevice => some (noteHistoryHeldNothing D s w answerer requestId answererDevice)
  | .forget w =>
    some { s with
      records := Function.update s.records w none
      historyUnanswerableAt := Function.update s.historyUnanswerableAt w none }
  | .commit g epoch => some { s with epoch := Function.update s.epoch g epoch }
  | .restart => some { s with historyRequest := fun _ => none, historyUnanswerableAt := fun _ => none, calls := [] }

def histories : Machine St Ev :=
  ⟨fun s => s.records = (fun _ => none) ∧ s.historyRequest = (fun _ => none) ∧
    s.historyUnanswerableAt = (fun _ => none) ∧ s.calls = [], step D⟩

/-! ## A full answer -/

def Own (leaf : JsString) : Prop := userIdOfLeaf leaf = canonicalUserId D.userId ∧ deviceIdOfLeaf leaf = D.deviceId

def Answered (devices : List JsString) (leaf : JsString) : Prop :=
  canonicalIdentity leaf ≠ none ∧ answeredDevice D (userIdOfLeaf leaf) (deviceIdOfLeaf leaf) ∈ devices

/-- A final record has every leaf of the tree of its version but this device's own. -/
def FullyAnswered (s : St) : Prop :=
  ∀ w record, s.records w = some record → record.final = true →
    ∀ leaf ∈ D.trees record.version.groupId record.version.epoch,
    ¬ Own D leaf → Answered D record.devices leaf

/-- The tree read is that of the version, each of its leaves is this device's own or a device of a
    member read, and what the call read of the record is still there. -/
structure Covers (s : St) (r : Reading) (version : HistoryAskVersion) (leaves : List JsString) : Prop where
  sameTree : leaves = D.trees version.groupId version.epoch
  named : ∀ leaf ∈ leaves, Own D leaf ∨
    canonicalIdentity leaf ≠ none ∧ deviceIdOfLeaf leaf ≠ D.deviceId ∧
      (userIdOfLeaf leaf ∈ r.roster.roster ∨ userIdOfLeaf leaf = D.userId)
  kept : ∀ record ∈ s.records r.workspaceId, record.version = version → ∀ d ∈ r.recorded, d ∈ record.devices

def CallCovered (s : St) : Call → Prop
  | .treed r => ∀ version ∈ r.version, ∀ leaves ∈ r.leaves, (r.view D).everyDeviceAnswered D D.userId = true → Covers D s r version leaves
  | _ => True

def Covered (s : St) : Ev → Prop
  | .decide k _ _ => ∀ call ∈ s.calls[k]?, CallCovered D s call
  | _ => True

instance (leaf : JsString) : Decidable (Own D leaf) := inferInstanceAs (Decidable (_ ∧ _))

instance (s : St) (r : Reading) (version : HistoryAskVersion)
    (leaves : List JsString) : Decidable (Covers D s r version leaves) :=
  decidable_of_iff (leaves = D.trees version.groupId version.epoch ∧ (∀ leaf ∈ leaves, Own D leaf ∨
      canonicalIdentity leaf ≠ none ∧ deviceIdOfLeaf leaf ≠ D.deviceId ∧
        (userIdOfLeaf leaf ∈ r.roster.roster ∨ userIdOfLeaf leaf = D.userId)) ∧
      ∀ record ∈ s.records r.workspaceId, record.version = version → ∀ d ∈ r.recorded, d ∈ record.devices)
    ⟨fun h => ⟨h.1, h.2.1, h.2.2⟩, fun h => ⟨h.sameTree, h.named, h.kept⟩⟩

instance (s : St) (call : Call) : Decidable (CallCovered D s call) :=
  match call with
  | .treed r => inferInstanceAs (Decidable (∀ version ∈ r.version, ∀ leaves ∈ r.leaves, _ → Covers D s r version leaves))
  | .asking .. | .rostered .. | .ended => inferInstanceAs (Decidable True)

instance (s : St) (e : Ev) : Decidable (Covered D s e) :=
  match e with
  | .decide k _ _ => inferInstanceAs (Decidable (∀ call ∈ s.calls[k]?, CallCovered D s call))
  | .begin .. | .roster .. | .tree .. | .sendFailed _ | .sent _ | .answer .. | .forget _ | .commit .. | .restart =>
      inferInstanceAs (Decidable True)

section Tree

variable {D} {leaves : List JsString} {leaf : JsString}

theorem mem_addTo {set : List JsString} {x y : JsString} : y ∈ addTo set x ↔ y ∈ set ∨ y = x := by
  unfold addTo
  split
  · rename_i h
    constructor
    · exact .inl
    · intro hy
      rcases hy with hy | rfl
      · exact hy
      · exact h
  · simp

theorem kept_visit {tree : TreeDevices} {user device : JsString} {devices : List JsString}
    (hg : tree.get user = some devices)
    (hd : device ∈ devices) (leaf : JsString) : ∃ devices', (visitLeaf D tree leaf).get user = some devices' ∧
    device ∈ devices' := by
  unfold visitLeaf
  dsimp only
  split
  · exact ⟨devices, hg, hd⟩
  · rw [JsMap.get_set]
    split
    · rename_i hu
      rw [← hu, hg]
      refine ⟨_, rfl, ?_⟩
      split
      · exact (mem_addTo).mpr (.inl hd)
      · exact hd
    · exact ⟨devices, hg, hd⟩

theorem kept_visits (leaves : List JsString) : ∀ {tree : TreeDevices} {user device : JsString}
    {devices : List JsString},
    tree.get user = some devices → device ∈ devices →
    ∃ devices', (leaves.foldl (visitLeaf D) tree).get user = some devices' ∧ device ∈ devices' := by
  induction leaves with
  | nil => exact fun hg hd => ⟨_, hg, hd⟩
  | cons leaf leaves ih =>
    intro tree user device devices hg hd
    obtain ⟨devices', hg', hd'⟩ := kept_visit hg hd leaf
    exact ih hg' hd'

theorem mem_treeDevicesOn (hl : leaf ∈ leaves) (hme : deviceIdOfLeaf leaf ≠ D.deviceId)
    (hd : deviceIdOfLeaf leaf ≠ []) :
    ∃ devices, (treeDevicesOn D leaves).get (userIdOfLeaf leaf) = some devices ∧ deviceIdOfLeaf leaf ∈ devices := by
  obtain ⟨before, behind, rfl⟩ := List.append_of_mem hl
  unfold treeDevicesOn
  rw [List.foldl_append]
  have hvisit : ∃ devices, (visitLeaf D (before.foldl (visitLeaf D) JsMap.empty) leaf).get
    (userIdOfLeaf leaf) = some devices ∧
      deviceIdOfLeaf leaf ∈ devices := by
    unfold visitLeaf
    rw [if_neg hme, JsMap.get_set_self, if_pos hd]
    exact ⟨_, rfl, (mem_addTo).mpr (.inr rfl)⟩
  obtain ⟨devices, hg, hmem⟩ := hvisit
  exact kept_visits behind hg hmem

theorem deviceIdOfLeaf_ne_nil (h : canonicalIdentity leaf ≠ none) : deviceIdOfLeaf leaf ≠ [] := by
  obtain ⟨key, hkey⟩ := Option.ne_none_iff_exists'.mp h
  obtain ⟨user, device, hh, rfl, -⟩ := canonicalIdentity_eq_some_iff.mp hkey
  rw [hh.read.2]
  exact hh.deviceNe

end Tree

section View

variable {D} {v : HeldView} {tree : TreeDevices}

theorem recorded_of_exhausted {id device : JsString} {devices : List JsString} (ht : v.tree = some tree)
    (hg : tree.get id = some devices)
    (hd : device ∈ devices) (h : v.exhausted D id = true) : answeredDevice D id device ∈ v.recorded := by
  unfold HeldView.exhausted at h
  rw [ht, Option.bind_some, hg] at h
  simp only [Bool.and_eq_true, decide_eq_true_eq] at h
  have hnil := List.filter_eq_nil_iff.mp h.2 device hd
  simpa using hnil

theorem recorded_of_everyDeviceAnswered {id device : JsString} {devices : List JsString} (ht : v.tree = some tree)
    (hg : tree.get id = some devices) (hd : device ∈ devices) (hid : id ∈ v.roster ∨ id = D.userId)
    (h : v.everyDeviceAnswered D D.userId = true) : answeredDevice D id device ∈ v.recorded := by
  unfold HeldView.everyDeviceAnswered at h
  rw [ht] at h
  simp only [Bool.and_eq_true, Bool.or_eq_true, decide_eq_true_eq, List.all_eq_true, List.mem_filter] at h
  by_cases hself : id = D.userId
  · subst hself
    rcases h.2 with hnone | hex
    · rw [hg] at hnone
      have hnil : devices = [] := hnone
      rw [hnil] at hd
      cases hd
    · exact recorded_of_exhausted ht hg hd hex
  · have hdone := h.1 id ⟨hid.resolve_right hself, by simpa using hself⟩
    unfold HeldView.done at hdone
    rw [Bool.or_eq_true] at hdone
    rcases hdone with hex | hleafless
    · exact recorded_of_exhausted ht hg hd hex
    · -- the tree has a leaf of the member
      unfold HeldView.leafless at hleafless
      rw [ht] at hleafless
      simp [JsMap.has, hg] at hleafless

end View

/-! ## Runs -/

variable {D} {s s' : St}

variable {version : HistoryAskVersion}

theorem final_of_decision {r : Reading} {own : Bool} (h : r.decision D own = .final version) :
    r.version = some version ∧ (r.view D).everyDeviceAnswered D D.userId = true := by
  unfold Reading.decision at h
  dsimp only at h
  split at h
  · cases h
  · by_cases hoffline : sort ((r.view D).roster.filter fun id => id ≠ D.userId && !(r.online D).contains id &&
      !(r.view D).done D id) ≠ []
    · rw [if_pos hoffline] at h
      cases h
    · rw [if_neg hoffline] at h
      split at h
      · cases h
      · split at h
        · cases h
        · cases hv : r.version with
          | none =>
            rw [hv] at h
            cases h
          | some v =>
            rw [hv] at h
            dsimp only at h
            split at h
            · rename_i hcond
              cases h
              exact ⟨rfl, hcond.2⟩
            · cases h

theorem fully_answered_mark {r : Reading} {leaves : List JsString} (h : FullyAnswered D s)
    (hl : r.leaves = some leaves) (hall : (r.view D).everyDeviceAnswered D D.userId = true)
    (hc : Covers D s r version leaves) :
    FullyAnswered D { s with records := markHistoryHeldNothingFinal s.records r.workspaceId version } := by
  intro w record hr hf
  unfold markHistoryHeldNothingFinal at hr
  cases hold : s.records r.workspaceId with
  | none =>
    simp only [hold] at hr
    exact h w record hr hf
  | some old =>
    simp only [hold] at hr
    split at hr
    · rename_i hversion
      rcases update_eq_some_iff.mp hr with ⟨rfl, rfl⟩ | ⟨-, hr'⟩
      · intro leaf hleaf hown
        rw [hversion, ← hc.sameTree] at hleaf
        obtain ⟨hid, hme, huser⟩ := (hc.named leaf hleaf).resolve_left hown
        obtain ⟨devices, hg, hd⟩ := mem_treeDevicesOn hleaf hme (deviceIdOfLeaf_ne_nil hid)
        have htree : (r.view D).tree = some (treeDevicesOn D leaves) := by
          simp [Reading.view, Reading.tree, hl]
        have hrec := recorded_of_everyDeviceAnswered htree hg hd huser hall
        exact ⟨hid, hc.kept old hold hversion _ hrec⟩
      · exact h w record hr' hf
    · exact h w record hr hf

theorem fully_answered_recorded {records : Records} {w answerer device : JsString}
    (h : ∀ w record, records w = some record → record.final = true →
    ∀ leaf ∈ D.trees record.version.groupId record.version.epoch,
      ¬ Own D leaf → Answered D record.devices leaf) :
    ∀ w' record, (recordHistoryHeldNothing D records w version answerer device).1 w' = some record → record.final = true →
      ∀ leaf ∈ D.trees record.version.groupId record.version.epoch, ¬ Own D leaf → Answered D record.devices leaf := by
  intro w' record hr hf
  unfold recordHistoryHeldNothing at hr
  dsimp only at hr
  split at hr
  · exact h w' record hr hf
  · rcases update_eq_some_iff.mp hr with ⟨rfl, rfl⟩ | ⟨-, hr'⟩
    · cases hf
    · exact h w' record hr' hf

theorem fully_answered_answer (h : FullyAnswered D s) (w answerer requestId device : JsString) :
    FullyAnswered D (noteHistoryHeldNothing D s w answerer requestId device) := by
  unfold noteHistoryHeldNothing
  split
  · exact h
  · split
    · exact h
    · dsimp only
      split
      · exact h
      · split
        · exact h
        · split
          · exact fully_answered_recorded h
          · exact fully_answered_recorded h

theorem fully_answered_of_same (h : FullyAnswered D s) (hr : s'.records = s.records) : FullyAnswered D s' := by
  unfold FullyAnswered
  rw [hr]
  exact h

theorem records_unanswerable (s : St) (w : JsString)
    (version : Option HistoryAskVersion) : (s.unanswerable w version).records = s.records := by
  unfold St.unanswerable
  split <;> rfl

theorem records_begun (s : St) (w g : JsString) (ridable : Bool) : (s.begun w g ridable).records = s.records := by
  unfold St.begun
  generalize (if ridable = true then s.epoch g else none) = epoch
  dsimp only
  split
  · rfl
  · split <;> rfl

theorem fully_answered_decided {k : Nat} {own : Bool} {requestId : JsString} {r : Reading} (h : FullyAnswered D s)
    (hc : Covered D s (.decide k own requestId)) (hk : s.calls[k]? = some (.treed r)) :
    FullyAnswered D (s.decided D r requestId (r.decision D own)) := by
  cases hd : r.decision D own with
  | parked offline => exact h
  | waitsForDevice => exact fully_answered_of_same h (records_unanswerable s _ _)
  | ownDevicesOffline => exact fully_answered_of_same h (records_unanswerable s _ _)
  | nobody => exact fully_answered_of_same h (records_unanswerable s _ _)
  | ask answerer devices unanswered => exact h
  | final version =>
    obtain ⟨hv, hall⟩ := final_of_decision hd
    cases hl : r.leaves with
    | none => simp [HeldView.everyDeviceAnswered, Reading.view, Reading.tree, hl] at hall
    | some leaves =>
      have hcall : CallCovered D s (.treed r) := hc _ hk
      have hmark := fully_answered_mark h hl hall (hcall version hv leaves hl hall)
      exact fully_answered_of_same hmark (records_unanswerable _ _ _)

theorem fully_answered_step {e : Ev} (h : FullyAnswered D s) (hc : Covered D s e)
    (hs : step D s e = some s') : FullyAnswered D s' := by
  cases e with
  | begin w g ridable =>
    cases hs
    exact fully_answered_of_same h (records_begun s w g ridable)
  | roster k rows =>
    simp only [step] at hs
    split at hs
    · cases hs
      exact h
    · cases hs
  | tree k readable =>
    simp only [step] at hs
    split at hs
    · cases hs
      exact h
    · cases hs
  | decide k own requestId =>
    simp only [step] at hs
    split at hs
    · rename_i r hk
      cases hs
      exact fully_answered_of_same (fully_answered_decided h hc hk) rfl
    · cases hs
  | sendFailed w =>
    cases hs
    exact h
  | sent w =>
    cases hs
    exact h
  | answer w answerer requestId device =>
    cases hs
    exact fully_answered_answer h w answerer requestId device
  | forget w =>
    cases hs
    intro w' record hr hf
    exact h w' record (update_none_eq_some_iff.mp hr).2 hf
  | commit g epoch =>
    cases hs
    exact h
  | restart =>
    cases hs
    exact h

/-- In every run in which every call that finds every device answered has read what covers its version,
    a record is final only when every leaf of the tree of its version but this device's own is a device
    recorded in it. -/
theorem final_only_on_a_full_answer (D : Device) (s : St)
    (h : (histories D).ReachBy (Covered D) s) : FullyAnswered D s := by
  refine Machine.ReachBy.invariant ?_ (fun s e s' hi ho hs => @fully_answered_step D s s' e hi ho hs) h
  intro s hs w record hr
  rw [hs.1] at hr
  cases hr

/-! ## A roster that misses a leaf -/

/-- Device `d` of `me`, on one tree whose leaves are given. -/
def meWith (leaves : List JsString) : Device := ⟨text "me", text "d", canonicalUserId, fun _ _ => leaves⟩

/-- A session on key group `g` at epoch 5. -/
def atFive : St := ⟨fun _ => none, fun _ => some 5, fun _ => none, fun _ => none, []⟩

def bobOnline : List ChannelMemberDto :=
  [⟨text "me", some true, some [text "d"]⟩, ⟨text "bob", some true, some [text "e"]⟩]

/-- Bob's device is asked, and answers that it holds nothing; then everything is read again. -/
def asksBob : List Ev :=
  [.begin (text "w") (text "g") true, .roster 0 bobOnline, .tree 0 true, .decide 0 false (text "r"),
    .answer (text "w") (text "bob") (text "r") (text "e"),
    .begin (text "w") (text "g") true, .roster 1 bobOnline, .tree 1 true, .decide 1 false (text "q")]

def recordOf (s : St) : Option (List JsString × Bool) :=
    (s.records (text "w")).map fun record => (record.devices, record.final)

/-- Two leaves, both of members of the roster: the record is final, and has the other one. -/
theorem final_once_bob_answered : ∃ s,
    (histories (meWith [text "me:d", text "bob:e"])).ReachBy (Covered (meWith [text "me:d", text "bob:e"])) s ∧
    recordOf s = some ([text "bob:e"], true) ∧ FullyAnswered (meWith [text "me:d", text "bob:e"]) s := by
  let D := meWith [text "me:d", text "bob:e"]
  have hrun : ((histories D).runBy (fun s e => decide (Covered D s e)) atFive asksBob).map recordOf = some (some ([text "bob:e"], true)) := by
    decide
  obtain ⟨s, hs, hr⟩ := Option.map_eq_some_iff.mp hrun
  have hreach : (histories D).ReachBy (Covered D) s := by
    simpa only [decide_eq_true_eq]
      using Machine.reachBy_of_run asksBob (show (histories D).init atFive from ⟨rfl, rfl, rfl, rfl⟩) hs
  exact ⟨s, hreach, hr, final_only_on_a_full_answer D s hreach⟩

/-- Eve has left the roster and is still a leaf: the record is final without her device. -/
theorem a_leaf_off_the_roster_is_not_asked : ∃ s,
    (histories (meWith [text "me:d", text "bob:e", text "eve:f"])).Reach s ∧
    recordOf s = some ([text "bob:e"], true) ∧ ¬ FullyAnswered (meWith [text "me:d", text "bob:e", text "eve:f"]) s := by
  have hrun : ∃ s, (histories (meWith [text "me:d", text "bob:e", text "eve:f"])).Reach s ∧
      s.records (text "w") = some ⟨⟨text "g", 5⟩, [text "bob:e"], true⟩ :=
    ⟨_, Machine.reach_of_run (s := atFive) asksBob ⟨rfl, rfl, rfl, rfl⟩ rfl, by decide⟩
  obtain ⟨s, hs, hr⟩ := hrun
  refine ⟨s, hs, by simp [recordOf, hr], ?_⟩
  intro h
  have heve := h (text "w") _ hr rfl (text "eve:f") (by decide) (by unfold Own; decide)
  exact absurd heve.2 (by decide)

end Canari.Graine.HistoryFinal
