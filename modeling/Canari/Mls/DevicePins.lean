/-
  Canari.Mls.DevicePins — the signature keys pinned for each device
  (`frontend/mls-core/src/device_trust.rs`).

  A pin is written once, when an identity is first seen in a tree this device accepted, under
  its canonical form; a later tree with another key for it records an event and moves nothing.
  Persisting keeps every pin, since a canonical form is its own (`canonicalIdentity_canonical`)
  and a record under any other key is dropped. Pruning drops pins of identities no held tree
  contains, past a bound, and remembers them.

  `step_keeps_pin`: no step but the prune that drops an identity changes its keys, so along any
  run they stay the ones first written (`pinned_keys_are_the_first`).
-/

import Canari.Lib.Machine
import Canari.Mls.DeviceTrust
import Mathlib.Data.List.AList

namespace Canari.Mls.DevicePins

open Lib Mls.Identity Mls.DeviceTrust List Option

abbrev Key := List UInt8

def MAX_PENDING_DEVICE_EVENTS : Nat := 512
def MAX_PINNED_IDENTITIES : Nat := 8192
def MAX_REMEMBERED_PRUNED : Nat := 8192

inductive LeafTrust where
  | firstSight | pinned | keyChanged
  deriving DecidableEq

structure Pin where
  keys : List Key
  /-- False when written after the identity's previous pin was pruned. -/
  anchored : Bool
  reaffirmations : Nat

structure PersistedPin where
  identity : String
  keys : List Key
  anchored : Bool
  reaffirmations : Nat

structure DeviceEvent where
  groupId : String
  epoch : Nat
  identity : String
  keyFingerprint : String
  trust : LeafTrust
  addedBy : Option String
  firstInGroup : Bool
  memberAlreadyPresent : Bool
  addedByUnvouched : Bool
  eventsDropped : Bool

/-- The pins and the pending events, with the departures of `DeviceTrust`. -/
structure Trust where
  pins : AList fun _ : String => Pin
  pruned : List String
  events : List DeviceEvent
  fullReported : Bool
  departures : List Departure
  /-- Groups the load did not seed because a commit was staged in them. -/
  unseeded : List String

namespace Trust

def pinOf (s : Trust) (identity : String) : Option Pin := (canonicalIdentity identity).bind fun c => s.pins.lookup c

def pinnedKeys (s : Trust) (identity : String) : Option (List Key) := (s.pinOf identity).map (·.keys)

def verdict (s : Trust) (identity : String) (key : Key) : LeafTrust :=
  match s.pinOf identity with
  | none => .firstSight
  | some pin => if pin.keys.any (· == key) then .pinned else .keyChanged

def insertPin (s : Trust) (identity : String) (keys : List Key) : Trust :=
  match canonicalIdentity identity with
  | none => s
  | some c => { s with pins := s.pins.insert c ⟨keys, !s.pruned.contains c, 0⟩, pruned := s.pruned.erase c }

def reaffirm (s : Trust) (identity : String) (key : Key) : Trust × Bool :=
  match canonicalIdentity identity with
  | none => (s, false)
  | some c =>
    match s.pins.lookup c with
    | some pin =>
      if pin.keys.any (· == key) then
        ({ s with pins := s.pins.insert c { pin with reaffirmations := pin.reaffirmations + 1 } }, true)
      else (s, false)
    | none => (s, false)

def observe (s : Trust) (identity : String) (key : Key) : LeafTrust × Bool × Trust :=
  let trust := s.verdict identity key
  if trust = .firstSight then (trust, true, s.insertPin identity [key]) else (trust, false, s)

def droppedMarker (dropped : DeviceEvent) : DeviceEvent :=
  ⟨dropped.groupId, dropped.epoch, "", "", .firstSight, none, false, false, false, true⟩

/-- Past the bound the oldest stay and the group of the dropped one is marked once. -/
def pushEvent (s : Trust) (event : DeviceEvent) : Trust × Bool :=
  if (s.events.filter fun e => !e.eventsDropped).length < MAX_PENDING_DEVICE_EVENTS then
    ({ s with events := s.events ++ [event] }, false)
  else
    let events := if s.events.any fun e => e.eventsDropped && e.groupId == event.groupId then s.events
      else s.events ++ [droppedMarker event]
    ({ s with events, fullReported := true }, !s.fullReported)

/-- Drops the pins of identities no held tree contains, when there are more than the bound. -/
def pruneAbsent (s : Trust) (held : List String) : Trust :=
  if s.pins.keys.length ≤ MAX_PINNED_IDENTITIES then s
  else
    let kept := held.filterMap canonicalIdentity
    let gone := (s.pins.keys.filter fun c => !kept.contains c).insertionSort (· ≤ ·)
    let pruned := s.pruned ++ gone
    { s with pins := gone.foldl (fun pins c => pins.erase c) s.pins, pruned :=
      pruned.drop (pruned.length - MAX_REMEMBERED_PRUNED) }

def addFresh (s : Trust) (fresh : AList fun _ : String => List Key)
    (leaf : LeafKey) : AList fun _ : String => List Key :=
  match canonicalIdentity leaf.identity with
  | none => fresh
  | some c =>
    if (s.pins.lookup c).isSome then fresh
    else
      let keys := (fresh.lookup c).getD []
      fresh.insert c (if keys.any (· == leaf.key) then keys else keys ++ [leaf.key])

/-- The identities of a tree without a pin, each with every key the tree holds for it. -/
def freshOf (s : Trust) (leaves : List LeafKey) : AList fun _ : String => List Key := leaves.foldl s.addFresh ∅

/-- Pins every leaf of a tree whose identity has no pin yet; the map is written in any order. -/
def seedFromTree (s : Trust) (order : List (Sigma fun _ : String => List Key)) : Trust × Bool :=
  (order.foldl (fun s entry => s.insertPin entry.1 entry.2) s, !order.isEmpty)

def observeJoinedTree (fingerprint : Key → String) (s : Trust) (groupId : String) (epoch : Nat)
    (leaves : List LeafKey) : Trust × Bool :=
  leaves.foldl (fun (s, wrote) leaf =>
      let (trust, pinned, s) := s.observe leaf.identity leaf.key
      if trust = .keyChanged then
        ((s.pushEvent ⟨groupId, epoch, leaf.identity, fingerprint leaf.key, trust, none, false, false, false,
          false⟩).1, true)
      else (s, wrote || pinned))
    ({ s with unseeded := s.unseeded.filter (· != groupId) }, false)

/-- `same_user`: the user half, ignoring ASCII case. -/
def sameUser (a b : String) : Bool :=
  let user := fun s => ((splitOnce s).map (·.1)).getD s
  toAsciiLowercase (user a) == toAsciiLowercase (user b)

def deviceLeftGroup (s : Trust) (groupId identity : String) : Bool :=
  match (canonicalIdentity identity).bind splitOnce with
  | none => false
  | some (user, device) => s.departures.any fun d => d.groupId == groupId && d.userId == user && d.deviceId == some device

structure Merged where
  groupId : String
  epoch : Nat
  before : List LeafKey
  after : List LeafKey
  addedBy : Option String
  ownIdentity : String
  ownKey : Key

def observeLeaf (fingerprint : Key → String) (m : Merged) (out : Trust × Bool) (leaf : LeafKey) : Trust × Bool :=
  let (s, wrote) := out
  if m.before.any fun l => sameIdentity l.identity leaf.identity && l.key == leaf.key then (s, wrote)
  else
    let firstInGroup := !(m.before.any fun l => sameIdentity l.identity leaf.identity) &&
      !s.deviceLeftGroup m.groupId leaf.identity
    let (trust, pinned, s) := s.observe leaf.identity leaf.key
    if sameIdentity leaf.identity m.ownIdentity && leaf.key == m.ownKey then (s, wrote || pinned)
    else if trust = .pinned && !(firstInGroup && m.addedBy.any (fun c => sameIdentity c leaf.identity) &&
        m.before.any fun l => sameUser l.identity leaf.identity) then
      let (s, counted) := s.reaffirm leaf.identity leaf.key
      (s, wrote || pinned || counted)
    else
      ((s.pushEvent ⟨m.groupId, m.epoch, leaf.identity, fingerprint leaf.key, trust, m.addedBy, firstInGroup,
        m.before.any (fun l => sameUser l.identity leaf.identity), false, false⟩).1, true)

def reaffirmCommitter (s : Trust) (m : Merged) : Trust × Bool :=
  match m.addedBy with
  | none => (s, false)
  | some committer =>
    match m.after.find? fun l => sameIdentity l.identity committer with
    | none => (s, false)
    | some leaf => s.reaffirm committer leaf.key

/-- A commit this device merged. A group the load left unseeded is seeded from the tree it was built on. -/
def observeMergedCommit (fingerprint : Key → String) (s : Trust) (m : Merged)
    (order : List (Sigma fun _ : String => List Key)) : Trust × Bool :=
  let (s, wrote) :=
    if s.unseeded.contains m.groupId then
      ({ s with unseeded := s.unseeded.filter (· != m.groupId) } : Trust).seedFromTree order
    else (s, false)
  let departed := departuresOf m.groupId m.epoch m.before m.after
  let s := { s with departures := recordDepartures s.departures m.groupId m.epoch m.before m.after }
  let (s, counted) := s.reaffirmCommitter m
  m.after.foldl (observeLeaf fingerprint m) (s, wrote || !departed.isEmpty || counted)

def persistedPins (s : Trust) : List PersistedPin :=
  (s.pins.entries.map fun e => ⟨e.1, e.2.keys, e.2.anchored, e.2.reaffirmations⟩).insertionSort fun a b =>
    a.identity ≤ b.identity

def isCanonical (identity : String) : Bool := canonicalIdentity identity == some identity

def fromPersisted (pins : List PersistedPin) (pruned : List String) (events : List DeviceEvent)
    (departures : List Departure) : Trust where
  pins := pins.foldl (fun pins p => if isCanonical p.identity then
    pins.insert p.identity ⟨p.keys, p.anchored, p.reaffirmations⟩ else pins) ∅
  pruned := pruned.filter isCanonical
  events := events
  fullReported := false
  departures := departures
  unseeded := []

end Trust

/-! ## The machine -/

inductive Event where
  | seed (leaves : List LeafKey) (order : List (Sigma fun _ : String => List Key))
  | joined (groupId : String) (epoch : Nat) (leaves : List LeafKey)
  | merged (m : Trust.Merged) (order : List (Sigma fun _ : String => List Key))
  | reload
  | prune (held : List String)
  | pruneDepartures (heldGroups : List String)
  | markUnseeded (groupId : String)
  | forgetUnseeded (groupId : String)
  | takeEvents

def step (fingerprint : Key → String) (s : Trust) : Event → Option Trust
  | .seed leaves order => if order.isPerm (s.freshOf leaves).entries then some (s.seedFromTree order).1 else none
  | .joined groupId epoch leaves => some (s.observeJoinedTree fingerprint groupId epoch leaves).1
  | .merged m order => if order.isPerm (s.freshOf m.before).entries then some (s.observeMergedCommit fingerprint m order).1 else none
  | .reload => some (.fromPersisted s.persistedPins s.pruned s.events s.departures)
  | .prune held => some (s.pruneAbsent held)
  | .pruneDepartures heldGroups => some { s with departures := DeviceTrust.pruneDepartures s.departures heldGroups }
  | .markUnseeded groupId => some { s with unseeded := groupId :: s.unseeded }
  | .forgetUnseeded groupId => some { s with unseeded := s.unseeded.filter (· != groupId) }
  | .takeEvents => some { s with events := [], fullReported := false }

def machine (fingerprint : Key → String) : Machine Trust Event where
  init s := ∃ pins pruned events departures, s = .fromPersisted pins pruned events departures
  step := step fingerprint

/-! ## What every write keeps -/

/-- A relation between two stores that each single write keeps. -/
structure Writes (R : Trust → Trust → Prop) : Prop where
  trans : ∀ {s s' s'' : Trust}, R s s' → R s' s'' → R s s''
  same : ∀ {s s' : Trust}, s'.pins = s.pins → s'.pruned = s.pruned → R s s'
  insertPin : ∀ {s : Trust} {identity : String} {keys : List Key},
    (∀ c, canonicalIdentity identity = some c → s.pins.lookup c = none) →
    R s (s.insertPin identity keys)
  reaffirm : ∀ (s : Trust) (identity : String) (key : Key), R s (s.reaffirm identity key).1

namespace Writes

variable {R : Trust → Trust → Prop} (hR : Writes R) (fingerprint : Key → String)

include hR

theorem refl (s : Trust) : R s s := hR.same rfl rfl

theorem foldl {α β : Type} (trust : β → Trust) (f : β → α → β) (hf : ∀ b a, R (trust b) (trust (f b a)))
    (l : List α) (b : β) :
    R (trust b) (trust (l.foldl f b)) := by
  induction l generalizing b with
  | nil => exact hR.refl _
  | cons a l ih => exact hR.trans (hf b a) (ih (f b a))

theorem observe (s : Trust) (identity : String) (key : Key) : R s (s.observe identity key).2.2 := by
  unfold Trust.observe
  dsimp only
  split
  · next hfirst =>
    refine hR.insertPin fun c hc => ?_
    unfold Trust.verdict Trust.pinOf at hfirst
    rw [hc] at hfirst
    cases hp : s.pins.lookup c with
    | none => rfl
    | some pin =>
      rw [bind_some, hp] at hfirst
      dsimp only at hfirst
      split at hfirst <;> cases hfirst
  · exact hR.refl s

theorem pushEvent (s : Trust) (event : DeviceEvent) : R s (s.pushEvent event).1 := by
  unfold Trust.pushEvent
  split
  · exact hR.same rfl rfl
  · exact hR.same rfl rfl

theorem joined (s : Trust) (groupId : String) (epoch : Nat)
    (leaves : List LeafKey) : R s (s.observeJoinedTree fingerprint groupId epoch leaves).1 := by
  refine hR.trans ?_ (hR.foldl (fun out : Trust × Bool => out.1) _ (fun out leaf => ?_) leaves _)
  · exact hR.same rfl rfl
  · obtain ⟨s, wrote⟩ := out
    dsimp only
    split
    · exact hR.trans (hR.observe s leaf.identity leaf.key) (hR.pushEvent _ _)
    · exact hR.observe s leaf.identity leaf.key

theorem observeLeaf (m : Trust.Merged) (out : Trust × Bool)
    (leaf : LeafKey) : R out.1 (Trust.observeLeaf fingerprint m out leaf).1 := by
  obtain ⟨s, wrote⟩ := out
  have hobserve := hR.observe s leaf.identity leaf.key
  unfold Trust.observeLeaf
  dsimp only
  split
  · exact hR.refl s
  · split
    · exact hobserve
    · split
      · exact hR.trans hobserve (hR.reaffirm _ _ _)
      · exact hR.trans hobserve (hR.pushEvent _ _)

theorem reaffirmCommitter (s : Trust) (m : Trust.Merged) : R s (s.reaffirmCommitter m).1 := by
  unfold Trust.reaffirmCommitter
  split
  · exact hR.refl s
  · split
    · exact hR.refl s
    · exact hR.reaffirm _ _ _

end Writes

/-! ### Seeding -/

def Unpinned (s : Trust) (c : String) : Prop := canonicalIdentity c = some c ∧ s.pins.lookup c = none

theorem freshOf_unpinned (s : Trust) (leaves : List LeafKey) : ∀ c ∈ s.freshOf leaves, Unpinned s c := by
  have hstep : ∀ (leaves : List LeafKey) (fresh : AList fun _ : String => List Key), (∀ c ∈ fresh, Unpinned s c) →
      ∀ c ∈ leaves.foldl s.addFresh fresh, Unpinned s c := by
    intro leaves
    induction leaves with
    | nil => exact fun fresh h => h
    | cons leaf rest ih =>
      intro fresh h
      refine ih _ fun c hc => ?_
      unfold Trust.addFresh at hc
      cases hid : canonicalIdentity leaf.identity with
      | none => rw [hid] at hc; exact h c hc
      | some d =>
        rw [hid] at hc
        dsimp only at hc
        split at hc
        · exact h c hc
        · next hnone =>
          rcases (AList.mem_insert _).mp hc with rfl | hc
          · exact ⟨canonicalIdentity_canonical hid, by simpa using hnone⟩
          · exact h c hc
  exact hstep leaves ∅ fun c hc => absurd hc (AList.notMem_empty c)

namespace Writes

variable {R : Trust → Trust → Prop} (hR : Writes R)

include hR

variable {order : List (Sigma fun _ : String => List Key)}

theorem seed {s : Trust} (hnodup : (order.map (·.1)).Nodup)
    (h : ∀ entry ∈ order, Unpinned s entry.1) : R s (s.seedFromTree order).1 := by
  unfold Trust.seedFromTree
  induction order generalizing s with
  | nil => exact hR.refl s
  | cons entry rest ih =>
    obtain ⟨hentry, hrest⟩ := nodup_cons.mp (map_cons ▸ hnodup)
    obtain ⟨hcanonical, hnone⟩ := h entry mem_cons_self
    have hfirst : R s (s.insertPin entry.1 entry.2) := by
      refine hR.insertPin fun c hc => ?_
      obtain rfl : entry.1 = c := some.inj (hcanonical.symm.trans hc)
      exact hnone
    refine hR.trans hfirst (ih hrest fun other hother => ?_)
    obtain ⟨hother1, hother2⟩ := h other (mem_cons_of_mem _ hother)
    refine ⟨hother1, ?_⟩
    unfold Trust.insertPin
    rw [hcanonical]
    have hne : other.1 ≠ entry.1 := fun e => hentry (e ▸ List.mem_map_of_mem hother)
    exact (AList.lookup_insert_ne hne).trans hother2

theorem seed_of_perm {s t : Trust} {leaves : List LeafKey} (hpins : t.pins = s.pins)
    (h : order.isPerm (s.freshOf leaves).entries = true) : R t (t.seedFromTree order).1 := by
  have hperm : order.Perm (s.freshOf leaves).entries := isPerm_iff.mp h
  have hkeys : (order.map (·.1)).Nodup := (hperm.map _).nodup_iff.mpr (s.freshOf leaves).keys_nodup
  refine hR.seed hkeys fun entry hentry => ?_
  have hmem : entry.1 ∈ s.freshOf leaves := AList.mem_keys.mpr (List.mem_map_of_mem (hperm.mem_iff.mp hentry))
  obtain ⟨h1, h2⟩ := freshOf_unpinned s leaves entry.1 hmem
  exact ⟨h1, by rw [hpins]; exact h2⟩

theorem merged (fingerprint : Key → String) (s : Trust) (m : Trust.Merged)
    (h : order.isPerm (s.freshOf m.before).entries = true) : R s (s.observeMergedCommit fingerprint m order).1 := by
  unfold Trust.observeMergedCommit
  dsimp only
  refine hR.trans ?_ (hR.foldl (fun out : Trust × Bool => out.1) _ (hR.observeLeaf fingerprint m) m.after _)
  refine hR.trans ?_ (hR.reaffirmCommitter _ m)
  split
  · have hclear : R s { s with unseeded := s.unseeded.filter (· != m.groupId) } := hR.same rfl rfl
    exact hR.trans (hR.trans hclear (hR.seed_of_perm rfl h)) (hR.same rfl rfl)
  · exact hR.same rfl rfl

end Writes

def writes : Event → Bool
  | .reload => false
  | .prune _ => false
  | _ => true

theorem Writes.step {R : Trust → Trust → Prop} (hR : Writes R) {fingerprint : Key → String} {s s' : Trust} {e : Event}
    (h : DevicePins.step fingerprint s e = some s') (he : writes e = true) : R s s' := by
  cases e with
  | seed leaves order =>
    obtain ⟨hperm, hs'⟩ := ite_none_right_eq_some.mp h
    cases hs'
    exact hR.seed_of_perm rfl hperm
  | joined groupId epoch leaves => cases h; exact hR.joined fingerprint s groupId epoch leaves
  | merged m order =>
    obtain ⟨hperm, hs'⟩ := ite_none_right_eq_some.mp h
    cases hs'
    exact hR.merged fingerprint s m hperm
  | reload => cases he
  | prune held => cases he
  | pruneDepartures heldGroups => cases h; exact hR.same rfl rfl
  | markUnseeded groupId => cases h; exact hR.same rfl rfl
  | forgetUnseeded groupId => cases h; exact hR.same rfl rfl
  | takeEvents => cases h; exact hR.same rfl rfl

/-! ## What a step keeps -/

def Wf (s : Trust) : Prop := ∀ c ∈ s.pins, canonicalIdentity c = some c

/-- No pin of `s` is lost or moved in `s'`. -/
structure Kept (s s' : Trust) : Prop where
  wf : Wf s → Wf s'
  keys : ∀ c pin, s.pins.lookup c = some pin → ∃ pin', s'.pins.lookup c = some pin' ∧ pin'.keys = pin.keys

section Kept

variable {s s' s'' : Trust} {identity : String} {key : Key} {keys : List Key}

theorem Kept.of_pins (h : s'.pins = s.pins) : Kept s s' := by
  refine ⟨fun hw c hc => hw c (h ▸ hc), fun c pin hp => ⟨pin, ?_, rfl⟩⟩
  rw [h]
  exact hp

theorem Kept.refl (s : Trust) : Kept s s := .of_pins rfl

theorem Kept.trans (h : Kept s s') (h' : Kept s' s'') : Kept s s'' := by
  refine ⟨fun hw => h'.wf (h.wf hw), fun c pin hp => ?_⟩
  obtain ⟨pin', hp', hk'⟩ := h.keys c pin hp
  obtain ⟨pin'', hp'', hk''⟩ := h'.keys c pin' hp'
  exact ⟨pin'', hp'', hk''.trans hk'⟩

theorem kept_insertPin (h : ∀ c, canonicalIdentity identity = some c → s.pins.lookup c = none) :
    Kept s (s.insertPin identity keys) := by
  unfold Trust.insertPin
  cases hc : canonicalIdentity identity with
  | none => exact .refl s
  | some c =>
    have hnone := h c hc
    constructor
    · intro hw x hx
      rcases (AList.mem_insert _).mp hx with rfl | hx
      · exact canonicalIdentity_canonical hc
      · exact hw x hx
    · intro x pin hp
      have hne : x ≠ c := by
        intro e
        rw [e, hnone] at hp
        cases hp
      exact ⟨pin, (AList.lookup_insert_ne hne).trans hp, rfl⟩

theorem kept_reaffirm (s : Trust) (identity : String) (key : Key) : Kept s (s.reaffirm identity key).1 := by
  unfold Trust.reaffirm
  cases hc : canonicalIdentity identity with
  | none => exact .refl s
  | some c =>
    dsimp only
    cases hp : s.pins.lookup c with
    | none => exact .refl s
    | some pin =>
      dsimp only
      split
      · constructor
        · intro hw x hx
          rcases (AList.mem_insert _).mp hx with rfl | hx
          · exact canonicalIdentity_canonical hc
          · exact hw x hx
        · intro x pin' hx
          by_cases e : x = c
          · subst e
            rw [hp] at hx
            cases hx
            exact ⟨_, AList.lookup_insert _, rfl⟩
          · exact ⟨pin', (AList.lookup_insert_ne e).trans hx, rfl⟩
      · exact .refl s

theorem kept_writes : Writes Kept where
  trans := .trans
  same hpins _ := .of_pins hpins
  insertPin := kept_insertPin
  reaffirm := kept_reaffirm

/-! ### What pinning leaves alone -/

structure Frame (s s' : Trust) : Prop where
  events : s'.events = s.events
  departures : s'.departures = s.departures

theorem Frame.refl (s : Trust) : Frame s s := ⟨rfl, rfl⟩

theorem Frame.trans (h : Frame s s')
    (h' : Frame s' s'') : Frame s s'' := ⟨h'.events.trans h.events, h'.departures.trans h.departures⟩

theorem frame_insertPin (s : Trust) (identity : String) (keys : List Key) : Frame s (s.insertPin identity keys) := by
  unfold Trust.insertPin
  split
  · exact .refl s
  · exact ⟨rfl, rfl⟩

theorem frame_reaffirm (s : Trust) (identity : String) (key : Key) : Frame s (s.reaffirm identity key).1 := by
  unfold Trust.reaffirm
  split
  · exact .refl s
  · split
    · split
      · exact ⟨rfl, rfl⟩
      · exact .refl s
    · exact .refl s

theorem frame_observe (s : Trust) (identity : String) (key : Key) : Frame s (s.observe identity key).2.2 := by
  unfold Trust.observe
  dsimp only
  split
  · exact frame_insertPin s identity [key]
  · exact .refl s

theorem frame_reaffirmCommitter (s : Trust) (m : Trust.Merged) : Frame s (s.reaffirmCommitter m).1 := by
  unfold Trust.reaffirmCommitter
  split
  · exact .refl s
  · split
    · exact .refl s
    · exact frame_reaffirm _ _ _

theorem frame_seedFromTree (s : Trust)
    (order : List (Sigma fun _ : String => List Key)) : Frame s (s.seedFromTree order).1 := by
  unfold Trust.seedFromTree
  induction order generalizing s with
  | nil => exact .refl s
  | cons entry rest ih => exact (frame_insertPin s entry.1 entry.2).trans (ih _)

/-! ### Reloading and pruning -/

theorem fromPersisted_wf (pins : List PersistedPin) (pruned : List String) (events : List DeviceEvent)
    (departures : List Departure) :
    Wf (.fromPersisted pins pruned events departures) := by
  have hstep : ∀ (pins : List PersistedPin) (loaded : AList fun _ : String => Pin),
    (∀ c ∈ loaded, canonicalIdentity c = some c) →
      ∀ c ∈ pins.foldl (fun loaded p =>
        if Trust.isCanonical p.identity then loaded.insert p.identity ⟨p.keys, p.anchored, p.reaffirmations⟩ else
          loaded) loaded,
      canonicalIdentity c = some c := by
    intro pins
    induction pins with
    | nil => exact fun loaded h => h
    | cons p rest ih =>
      intro loaded h
      refine ih _ fun c hc => ?_
      dsimp only at hc
      split at hc
      · next hp =>
        rcases (AList.mem_insert _).mp hc with rfl | hc
        · exact beq_iff_eq.mp hp
        · exact h c hc
      · exact h c hc
  exact hstep pins ∅ fun c hc => absurd hc (AList.notMem_empty c)

def load (loaded : AList fun _ : String => Pin) (p : PersistedPin) : AList fun _ : String => Pin :=
  if Trust.isCanonical p.identity then loaded.insert p.identity ⟨p.keys, p.anchored, p.reaffirmations⟩ else loaded

theorem lookup_load_of_not_mem {l : List PersistedPin} {c : String} (hc : c ∉ l.map (·.identity))
    (loaded : AList fun _ : String => Pin) :
    (l.foldl load loaded).lookup c = loaded.lookup c := by
  induction l generalizing loaded with
  | nil => rfl
  | cons q rest ih =>
    rw [foldl_cons, ih fun hmem => hc (mem_cons_of_mem _ hmem), load]
    split
    · exact AList.lookup_insert_ne fun e => hc (by rw [e]; exact mem_cons_self)
    · rfl

theorem lookup_load {l : List PersistedPin} (hnodup : (l.map (·.identity)).Nodup)
    (hcanonical : ∀ p ∈ l, Trust.isCanonical p.identity = true)
    {p : PersistedPin} (hp : p ∈ l) (loaded : AList fun _ : String => Pin) :
    (l.foldl load loaded).lookup p.identity = some ⟨p.keys, p.anchored, p.reaffirmations⟩ := by
  induction l generalizing loaded with
  | nil => cases hp
  | cons q rest ih =>
    obtain ⟨hq, hrest⟩ := nodup_cons.mp (map_cons ▸ hnodup)
    rw [foldl_cons]
    rcases mem_cons.mp hp with rfl | hmem
    · rw [lookup_load_of_not_mem hq, load, if_pos (hcanonical p mem_cons_self)]
      exact AList.lookup_insert _
    · exact ih hrest (fun x hx => hcanonical x (mem_cons_of_mem _ hx)) hmem _

theorem lookup_reload (hw : Wf s) (pruned : List String) (events : List DeviceEvent) (departures : List Departure)
    (c : String) :
    (Trust.fromPersisted s.persistedPins pruned events departures).pins.lookup c = s.pins.lookup c := by
  have hperm : s.persistedPins.Perm (s.pins.entries.map fun e => ⟨e.1, e.2.keys, e.2.anchored, e.2.reaffirmations⟩) :=
    perm_insertionSort _ _
  have hids : (s.persistedPins.map (·.identity)).Perm s.pins.keys := by
    refine (hperm.map (·.identity)).trans ?_
    rw [List.map_map]
    exact .refl _
  have hcanonical : ∀ p ∈ s.persistedPins, Trust.isCanonical p.identity = true := by
    intro p hmem
    obtain ⟨e, he, rfl⟩ := List.mem_map.mp (hperm.mem_iff.mp hmem)
    exact beq_iff_eq.mpr (hw e.1 (AList.mem_keys.mpr (List.mem_map_of_mem he)))
  cases hc : s.pins.lookup c with
  | none =>
    refine lookup_load_of_not_mem (fun hmem => ?_) ∅
    exact AList.lookup_eq_none.mp hc (AList.mem_keys.mpr (hids.mem_iff.mp hmem))
  | some pin =>
    have hmem : (⟨c, pin.keys, pin.anchored, pin.reaffirmations⟩ : PersistedPin) ∈ s.persistedPins :=
      hperm.mem_iff.mpr (List.mem_map.mpr ⟨⟨c, pin⟩, AList.mem_lookup_iff.mp hc, rfl⟩)
    exact lookup_load (hids.nodup_iff.mpr s.pins.keys_nodup) hcanonical hmem ∅

theorem kept_reload (hw : Wf s) (pruned : List String) (events : List DeviceEvent) (departures : List Departure) :
    Kept s (.fromPersisted s.persistedPins pruned events departures) :=
  ⟨fun _ => fromPersisted_wf _ _ _ _,
    fun c pin hp => ⟨pin, (lookup_reload hw pruned events departures c).trans hp, rfl⟩⟩

theorem lookup_erase_all (gone : List String) (pins : AList fun _ : String => Pin) {c : String} (hc : c ∉ gone) :
    (gone.foldl (fun pins c => pins.erase c) pins).lookup c = pins.lookup c := by
  induction gone generalizing pins with
  | nil => rfl
  | cons d rest ih =>
    rw [foldl_cons, ih _ fun h => hc (mem_cons_of_mem _ h)]
    exact AList.lookup_erase_ne fun e => hc (e ▸ mem_cons_self)

theorem lookup_erase_all_none (gone : List String) (pins : AList fun _ : String => Pin) {c : String}
    (hc : c ∈ gone ∨ pins.lookup c = none) :
    (gone.foldl (fun pins c => pins.erase c) pins).lookup c = none := by
  induction gone generalizing pins with
  | nil => exact hc.resolve_left not_mem_nil
  | cons d rest ih =>
    refine ih _ ?_
    by_cases e : c = d
    · exact .inr (e ▸ AList.lookup_erase d pins)
    · rcases hc with hc | hc
      · exact .inl ((mem_cons.mp hc).resolve_left e)
      · exact .inr ((AList.lookup_erase_ne e).trans hc)

theorem prune_cases (s : Trust) (held : List String) (c : String) :
    (s.pruneAbsent held).pins.lookup c = none ∨ (s.pruneAbsent held).pins.lookup c = s.pins.lookup c := by
  unfold Trust.pruneAbsent
  split
  · exact .inr rfl
  · by_cases hc : c ∈ (s.pins.keys.filter fun c => !(held.filterMap canonicalIdentity).contains c).insertionSort (· ≤ ·)
    · exact .inl (lookup_erase_all_none _ _ (.inl hc))
    · exact .inr (lookup_erase_all _ _ hc)

end Kept

/-! ## Along a run -/

def prunes (identity : String) (s : Trust) : Event → Bool
  | .prune held => (s.pinOf identity).isSome && ((s.pruneAbsent held).pinOf identity).isNone
  | _ => false

section Run

variable {fingerprint : Key → String} {s s' : Trust} {e : Event} {identity : String} {keys : List Key}

theorem step_wf (hw : Wf s) (h : step fingerprint s e = some s') : Wf s' := by
  cases e with
  | reload => cases h; exact fromPersisted_wf _ _ _ _
  | prune held =>
    cases h
    intro c hc
    have hsome := AList.lookup_isSome.mpr hc
    rcases prune_cases s held c with hnone | hsame
    · rw [hnone] at hsome; cases hsome
    · exact hw c (AList.lookup_isSome.mp (hsame ▸ hsome))
  | _ => exact (kept_writes.step h rfl).wf hw

theorem step_keeps_pin (hw : Wf s) (h : step fingerprint s e = some s') (hkept : prunes identity s e = false)
    (hpin : s.pinnedKeys identity = some keys) : s'.pinnedKeys identity = some keys := by
  obtain ⟨pin, hpinOf, rfl⟩ := map_eq_some_iff.mp hpin
  obtain ⟨c, hc, hlookup⟩ := bind_eq_some_iff.mp hpinOf
  have hread : ∀ t : Trust, t.pinOf identity = t.pins.lookup c := by
    intro t
    unfold Trust.pinOf
    rw [hc, bind_some]
  have hof : Kept s s' → s'.pinnedKeys identity = some pin.keys := by
    intro hk
    obtain ⟨pin', hpin', hkeys⟩ := hk.keys c pin hlookup
    unfold Trust.pinnedKeys
    rw [hread, hpin', map_some, hkeys]
  cases e with
  | reload => cases h; exact hof (kept_reload hw _ _ _)
  | prune held =>
    cases h
    have hstill : (s.pruneAbsent held).pinOf identity ≠ none := by
      intro hnone
      simp [prunes, hpinOf, hnone] at hkept
    rcases prune_cases s held c with hnone | hsame
    · exact absurd ((hread _).trans hnone) hstill
    · unfold Trust.pinnedKeys
      rw [hread, hsame, hlookup, map_some]
  | _ => exact hof (kept_writes.step h rfl)

theorem reach_wf (h : (machine fingerprint).Reach s) : Wf s := by
  refine h.invariant (I := Wf) (fun s h0 => ?_) fun s e s' hw he => step_wf hw he
  obtain ⟨pins, pruned, events, departures, rfl⟩ := h0
  exact fromPersisted_wf pins pruned events departures

theorem run_keeps_pin {es : List Event} (hw : Wf s) (hpin : s.pinnedKeys identity = some keys)
    (hrun : (machine fingerprint).runBy (fun t e => !prunes identity t e) s es = some s') :
    s'.pinnedKeys identity = some keys := by
  induction es generalizing s with
  | nil => cases hrun; exact hpin
  | cons e es ih =>
    obtain ⟨hkept, hrun⟩ := ite_none_right_eq_some.mp hrun
    obtain ⟨t, ht, hrun⟩ := bind_eq_some_iff.mp hrun
    exact ih (step_wf hw ht) (step_keeps_pin hw ht (by simpa using hkept) hpin) hrun

theorem pinnedKeys_spelling {spelling : String} (h : canonicalIdentity spelling = canonicalIdentity identity) :
    s.pinnedKeys spelling = s.pinnedKeys identity := by
  unfold Trust.pinnedKeys Trust.pinOf
  rw [h]

theorem verdict_pinned_iff (h : s.pinnedKeys identity = some keys)
    (key : Key) : s.verdict identity key = .pinned ↔ key ∈ keys := by
  obtain ⟨pin, hpin, rfl⟩ := map_eq_some_iff.mp h
  unfold Trust.verdict
  rw [hpin]
  dsimp only
  by_cases hk : key ∈ pin.keys
  · have hany : (pin.keys.any (· == key)) = true := List.any_eq_true.mpr ⟨key, hk, beq_self_eq_true _⟩
    rw [if_pos hany]
    exact ⟨fun _ => hk, fun _ => rfl⟩
  · have hany : ¬ (pin.keys.any (· == key)) = true := by
      intro hany
      obtain ⟨k, hmem, e⟩ := List.any_eq_true.mp hany
      exact hk (beq_iff_eq.mp e ▸ hmem)
    rw [if_neg hany]
    exact ⟨fun e => (nomatch e), fun e => absurd e hk⟩

/-- From any moment an identity is pinned and until it is pruned, every spelling of it reads the same keys. -/
theorem pinned_keys_are_the_first {es : List Event} {spelling : String} (hs : (machine fingerprint).Reach s)
    (hpin : s.pinnedKeys identity = some keys)
    (hrun : (machine fingerprint).runBy (fun t e => !prunes identity t e) s es = some s')
    (hspelling : canonicalIdentity spelling = canonicalIdentity identity) :
    s'.pinnedKeys spelling = some keys ∧ ∀ key, s'.verdict spelling key = .pinned ↔ key ∈ keys := by
  have hkeys : s'.pinnedKeys spelling = some keys :=
    (pinnedKeys_spelling hspelling).trans (run_keeps_pin (reach_wf hs) hpin hrun)
  exact ⟨hkeys, verdict_pinned_iff hkeys⟩

end Run

/-! ## A run -/

def shown (key : Key) : String := toString key

def phoneJoined : List Event := [.joined "salon" 3 [⟨0, "Alice:phone", [1]⟩]]

/-- Bob adds the phone under another key and another spelling, and the app restarts. -/
def phoneReadded : List Event :=
  [.merged ⟨"salon", 4, [⟨0, "Alice:phone", [1]⟩], [⟨0, "ALICE:phone", [2]⟩, ⟨1, "bob:web", [7]⟩], some "bob:web",
    "carol:web", [9]⟩ [],
    .reload, .prune ["bob:web"]]

theorem phone_keeps_its_first_key : ∃ s s',
    (machine shown).run (.fromPersisted [] [] [] []) phoneJoined = some s ∧
    (machine shown).runBy (fun t e => !prunes "Alice:phone" t e) s phoneReadded = some s' ∧
    s'.pinnedKeys "aLICE:phone" = some [[1]] ∧ ∀ key, s'.verdict "aLICE:phone" key = .pinned ↔ key ∈ [[1]] := by
  have hr : (((machine shown).run (.fromPersisted [] [] [] []) phoneJoined).bind fun s =>
      ((machine shown).runBy (fun t e => !prunes "Alice:phone" t e) s phoneReadded).map fun _ =>
        s.pinnedKeys "Alice:phone") =
      some (some [[1]]) := by decide
  obtain ⟨s, hs, hr⟩ := bind_eq_some_iff.mp hr
  obtain ⟨s', hs', hpin⟩ := map_eq_some_iff.mp hr
  have hreach : (machine shown).Reach s := Machine.reach_of_run phoneJoined ⟨[], [], [], [], rfl⟩ hs
  exact ⟨s, s', hs, hs', pinned_keys_are_the_first hreach hpin hs' (by decide)⟩

end Canari.Mls.DevicePins
