/-
  Canari.Mls.Welcome — Welcomes that fail, and Welcomes for a group this device forgot
  (`frontend/mls-core/src/welcome.rs`: `process_welcome`; `group.rs`: `forget_group`).

  `Processed` says everything a Welcome can do. Four of its five outcomes write nothing; the
  fifth comes from the order of the code: the guard lifts the group's minimum epoch before
  `into_group` stores the group, and `into_group` may fail. The minimum is then gone though no
  Welcome was accepted.

  - `welcome_error_atomic_iff`: a failed call leaves the held groups, the minimum epochs and
    what a save gives back as they were, except in that outcome with a minimum recorded, or with
    the rows of a held group rewritten.
  - `stale_welcomes_stay_out`: after `forget_group(g, N)`, no Welcome below `N` installs the group
    until one was accepted, along every run where storing an admitted Welcome does not fail and
    no later forget names a lower minimum.
  - `a_lower_forget_lets_a_stale_welcome_in`, `a_failed_store_lets_a_stale_welcome_in`: the two
    runs that break it.
-/

import Canari.Mls.Manager

namespace Canari.Mls.Welcome

open Lib Mls.DeviceTrust Mls.State Option Function

variable {O : OpenMls} {s t : MlsManager} {g : String} {e : Nat} {welcomeBytes : Bytes}
    {ratchetTreeBytes : Option Bytes} {w : StagedWelcome}

/-! ## What a Welcome does -/

/-- Both guards let a Welcome of this epoch through. -/
def Passes (s : MlsManager) (g : String) (epoch : Nat) : Prop :=
  match s.groups g with
  | some existing => epoch = 0 ∧ 0 < existing.epoch
  | none => ∀ m ∈ s.forgottenGroupMinEpochs g, epoch = 0 ∨ m ≤ epoch

instance (s : MlsManager) (g : String) (epoch : Nat) : Decidable (Passes s g epoch) := by
  unfold Passes; split <;> infer_instance

def liftMinEpoch (s : MlsManager) (g : String) : MlsManager :=
  { s with forgottenGroupMinEpochs := Function.update s.forgottenGroupMinEpochs g none }

theorem liftMinEpoch_of_none (h : s.forgottenGroupMinEpochs g = none) : liftMinEpoch s g = s := by
  have : Function.update s.forgottenGroupMinEpochs g none = s.forgottenGroupMinEpochs := update_eq_self_iff.mpr h.symm
  rw [liftMinEpoch, this]

theorem minEpochGuard_cases (s : MlsManager) (g : String) (e : Nat) :
    ((∀ m ∈ s.forgottenGroupMinEpochs g, e = 0 ∨ m ≤ e) ∧ s.minEpochGuard g e = .passed (liftMinEpoch s g)) ∨
    (¬ (∀ m ∈ s.forgottenGroupMinEpochs g, e = 0 ∨ m ≤ e) ∧ ∃ m, s.minEpochGuard g e = .stale m) := by
  unfold MlsManager.minEpochGuard
  cases hm : s.forgottenGroupMinEpochs g with
  | none => left; exact ⟨nofun, by rw [liftMinEpoch_of_none hm]⟩
  | some m =>
    by_cases he : e = 0
    · left; exact ⟨fun _ _ => .inl he, if_pos he⟩
    · by_cases hlt : e < m
      · right
        refine ⟨fun hall => ?_, m, by simp [he, hlt]⟩
        rcases hall m rfl with h | h <;> omega
      · left
        refine ⟨fun k hk => ?_, by simp [he, hlt, liftMinEpoch]⟩
        obtain rfl : m = k := some.inj hk
        right; omega

theorem welcomeGuards_cases (s : MlsManager) (g : String) (e : Nat) :
    (Passes s g e ∧ s.welcomeGuards g e = .passed (liftMinEpoch s g)) ∨
    (¬ Passes s g e ∧ (s.welcomeGuards g e = .ignored ∨ ∃ m, s.welcomeGuards g e = .stale m)) := by
  unfold MlsManager.welcomeGuards Passes
  cases hg : s.groups g with
  | none =>
    rcases minEpochGuard_cases s g e with ⟨h, hp⟩ | ⟨h, hp⟩
    · exact .inl ⟨h, hp⟩
    · exact .inr ⟨h, .inr hp⟩
  | some existing =>
    by_cases h : e = 0 ∧ 0 < existing.epoch
    · left
      refine ⟨h, ?_⟩
      have hlifted : (liftMinEpoch s g).forgottenGroupMinEpochs g = none := update_self ..
      have : (liftMinEpoch s g).minEpochGuard g e = .passed (liftMinEpoch s g) := by
        rw [MlsManager.minEpochGuard, hlifted]
      simpa [h, liftMinEpoch] using this
    · exact .inr ⟨h, .inl (if_neg h)⟩

/-- Everything `process_welcome` can do. -/
inductive Processed (O : OpenMls) (s : MlsManager) (welcomeBytes : Bytes) (ratchetTreeBytes : Option Bytes) :
    Except MlsError String × MlsManager → Prop
  | refused (e : MlsError) : stageWelcome O s.storage welcomeBytes ratchetTreeBytes = .error e →
      Processed O s welcomeBytes ratchetTreeBytes (.error e, s)
  | kept (w : StagedWelcome)
      (r : Except MlsError String) : stageWelcome O s.storage welcomeBytes ratchetTreeBytes = .ok w →
      ¬ Passes s (fromUtf8Lossy w.groupId) w.epoch → Processed O s welcomeBytes ratchetTreeBytes (r, s)
  | failed (w : StagedWelcome) (text : String) : stageWelcome O s.storage welcomeBytes ratchetTreeBytes = .ok w →
      Passes s (fromUtf8Lossy w.groupId) w.epoch → (O.intoGroup s.storage w).result = .error text →
      Processed O s welcomeBytes ratchetTreeBytes
        (.error (.openMls ("Join error (into_group): " ++ text)),
          { liftMinEpoch s (fromUtf8Lossy w.groupId) with storage := (O.intoGroup s.storage w).after })
  | joined (w : StagedWelcome) (x : MlsGroup) : stageWelcome O s.storage welcomeBytes ratchetTreeBytes = .ok w →
      Passes s (fromUtf8Lossy w.groupId) w.epoch → (O.intoGroup s.storage w).result = .ok x →
      Processed O s welcomeBytes ratchetTreeBytes
        (.ok (fromUtf8Lossy w.groupId),
          { liftMinEpoch s (fromUtf8Lossy w.groupId) with
            storage := (O.intoGroup s.storage w).after
            groups := Function.update s.groups (fromUtf8Lossy w.groupId) (some x) }.markStateDirty)

theorem processed (O : OpenMls) (s : MlsManager) (welcomeBytes : Bytes) (ratchetTreeBytes : Option Bytes) :
    Processed O s welcomeBytes ratchetTreeBytes (s.processWelcome O welcomeBytes ratchetTreeBytes) := by
  unfold MlsManager.processWelcome
  cases hw : stageWelcome O s.storage welcomeBytes ratchetTreeBytes with
  | error e => exact .refused e hw
  | ok w =>
    dsimp only
    rcases welcomeGuards_cases s (fromUtf8Lossy w.groupId) w.epoch with ⟨hp, hg⟩ | ⟨hp, hg | ⟨m, hg⟩⟩
    · rw [hg]
      dsimp only
      cases hr : (O.intoGroup s.storage w).result with
      | error text =>
        have : (O.intoGroup (liftMinEpoch s (fromUtf8Lossy w.groupId)).storage w).result = .error text := hr
        rw [this]
        exact .failed w text hw hp hr
      | ok x =>
        have : (O.intoGroup (liftMinEpoch s (fromUtf8Lossy w.groupId)).storage w).result = .ok x := hr
        rw [this]
        exact .joined w x hw hp hr
    · rw [hg]; exact .kept w _ hw hp
    · rw [hg]; exact .kept w _ hw hp

/-! ## A call that fails -/

/-- A save of this state, loaded, gives back the groups it holds. -/
def GivesBack (s : MlsManager) : Prop := ∀ serializes p t, s.saveState serializes = (some p, t) → (load p).held = s.held

def Rebuilds (s : MlsManager) : Prop := s.stateSnapshot.dirty = true ∨ s.stateSnapshot.cachedCbor = none

def rowOf (st : Storage) (g : String) : Option (Nat × List LeafKey) := (st (asBytes g)).map fun x => (x.epoch, x.tree)

theorem givesBack_of_rebuilds (h : Rebuilds s) : GivesBack s ↔
    ∀ g, (s.groups g).isSome → rowOf s.storage g = s.held g := by
  have hbuild : ∀ b, s.stateSnapshot.getOrBuild b = (b, b.elim s.stateSnapshot fun p => ⟨false, some p⟩) := by
    intro b
    unfold StateSnapshotCache.getOrBuild
    rcases h with h | h <;> rw [h] <;> cases b <;> grind
  have hsave : GivesBack s ↔ (load s.serializeState).held = s.held := by
    constructor
    · intro hg
      exact hg true _ _ (by simp only [MlsManager.saveState, hbuild, if_true]; rfl)
    · intro hg serializes p t hs
      simp only [MlsManager.saveState, hbuild] at hs
      cases serializes with
      | false => cases hs
      | true => cases hs; exact hg
  rw [hsave, funext_iff]
  refine forall_congr' fun g => ?_
  rcases hx : s.groups g with _ | x <;> simp [load, MlsManager.serializeState, MlsManager.held, rowOf, hx]

theorem givesBack_of_cached {p : PersistedState} (hd : s.stateSnapshot.dirty = false)
    (hc : s.stateSnapshot.cachedCbor = some p) :
    GivesBack s ↔ (load p).held = s.held := by
  have hbuild : ∀ b, s.stateSnapshot.getOrBuild b = (some p, s.stateSnapshot) := by
    intro b
    simp only [StateSnapshotCache.getOrBuild, hd, hc]
  constructor
  · intro hg
    exact hg true _ _ (by simp only [MlsManager.saveState, hbuild]; rfl)
  · intro hg serializes q t hs
    simp only [MlsManager.saveState, hbuild] at hs
    cases hs
    exact hg

theorem cached_of_not_rebuilds (h : ¬ Rebuilds s) : ∃ p, s.stateSnapshot.dirty = false ∧
    s.stateSnapshot.cachedCbor = some p := by
  obtain ⟨hd, hc⟩ := not_or.mp h
  obtain ⟨p, hp⟩ := ne_none_iff_exists'.mp hc
  exact ⟨p, Bool.eq_false_iff.mpr hd, hp⟩

/-- Storing the group of a Welcome the guards let through fails only where it loses nothing: no minimum was
    recorded, and the rows of the held groups still read as they did, if the next save reads them. -/
def FailsHarmlessly (O : OpenMls) (s : MlsManager) (welcomeBytes : Bytes) (ratchetTreeBytes : Option Bytes) : Prop :=
  ∀ w, stageWelcome O s.storage welcomeBytes ratchetTreeBytes = .ok w → Passes s (fromUtf8Lossy w.groupId) w.epoch →
    (∃ text, (O.intoGroup s.storage w).result = .error text) →
    s.forgottenGroupMinEpochs (fromUtf8Lossy w.groupId) = none ∧
      (Rebuilds s → ∀ g, (s.groups g).isSome → rowOf (O.intoGroup s.storage w).after g = rowOf s.storage g)

theorem liftMinEpoch_eq_iff : (liftMinEpoch s g).forgottenGroupMinEpochs = s.forgottenGroupMinEpochs ↔
    s.forgottenGroupMinEpochs g = none := by
  rw [liftMinEpoch, update_eq_self_iff, eq_comm]

theorem givesBack_storage_iff (hs : GivesBack s) (st : Storage) :
    GivesBack { liftMinEpoch s g with storage := st } ↔
      (Rebuilds s → ∀ g, (s.groups g).isSome → rowOf st g = rowOf s.storage g) := by
  by_cases hr : Rebuilds s
  · have hrows := (givesBack_of_rebuilds hr).mp hs
    rw [givesBack_of_rebuilds (s := { liftMinEpoch s g with storage := st }) hr]
    constructor
    · intro h _ g' hg
      exact (h g' hg).trans (hrows g' hg).symm
    · intro h g' hg
      exact (h hr g' hg).trans (hrows g' hg)
  · obtain ⟨p, hd, hp⟩ := cached_of_not_rebuilds hr
    refine iff_of_true ?_ fun h => absurd h hr
    exact (givesBack_of_cached (s := { liftMinEpoch s g with storage := st }) hd hp).mpr
      ((givesBack_of_cached hd hp).mp hs)

/-- What a failed Welcome owes its caller: the groups, the minimum epochs and the saved groups are as before. -/
theorem welcome_error_atomic_iff (O : OpenMls) (s : MlsManager) (welcomeBytes : Bytes)
    (ratchetTreeBytes : Option Bytes) (error : MlsError)
    (hs : GivesBack s) (herr : (s.processWelcome O welcomeBytes ratchetTreeBytes).1 = .error error) :
    ((s.processWelcome O welcomeBytes ratchetTreeBytes).2.held = s.held ∧
      (s.processWelcome O welcomeBytes ratchetTreeBytes).2.forgottenGroupMinEpochs = s.forgottenGroupMinEpochs ∧
      GivesBack (s.processWelcome O welcomeBytes ratchetTreeBytes).2) ↔
    FailsHarmlessly O s welcomeBytes ratchetTreeBytes := by
  have hp := processed O s welcomeBytes ratchetTreeBytes
  generalize s.processWelcome O welcomeBytes ratchetTreeBytes = r at hp herr ⊢
  cases hp with
  | refused e hw =>
    refine iff_of_true ⟨rfl, rfl, hs⟩ fun w hw' => ?_
    rw [hw] at hw'
    cases hw'
  | kept w _ hw hn =>
    refine iff_of_true ⟨rfl, rfl, hs⟩ fun w' hw' hp => ?_
    obtain rfl : w = w' := Except.ok.inj (hw.symm.trans hw')
    exact absurd hp hn
  | joined => cases herr
  | failed w text hw hpass hr =>
    have hgives := givesBack_storage_iff (g := fromUtf8Lossy w.groupId) hs (O.intoGroup s.storage w).after
    constructor
    · rintro ⟨-, hmin, hback⟩ w' hw' - -
      obtain rfl : w = w' := Except.ok.inj (hw.symm.trans hw')
      exact ⟨(liftMinEpoch_eq_iff).mp hmin, hgives.mp hback⟩
    · intro h
      obtain ⟨hnone, hrows⟩ := h w hw hpass ⟨text, hr⟩
      exact ⟨rfl, (liftMinEpoch_eq_iff).mpr hnone, hgives.mpr hrows⟩

/-! ## Runs of one device -/

/-- A device: its manager, the states it saved since the run began, and whether a Welcome was accepted
    for the group the run watches. -/
structure Device where
  manager : MlsManager
  saves : List PersistedState
  accepted : Bool

inductive Ev where
  | processWelcome (O : OpenMls) (welcomeBytes : Bytes) (ratchetTreeBytes : Option Bytes)
  | forgetGroup (O : OpenMls) (g : String) (minEpoch : Nat)
  | createGroup (O : OpenMls) (g : String)
  | joinByExternalCommit (O : OpenMls) (groupInfoBytes : Bytes)
  | save (serializes : Bool)
  /-- The manager is rebuilt from one of the states saved. -/
  | load (i : Nat)

def isOk {α : Type} : Except String α → Bool
  | .ok _ => true
  | .error _ => false

/-- The Welcome is for `g`, at epoch 0 or at least the minimum recorded, and the call installs it. -/
def accepts (O : OpenMls) (s : MlsManager) (welcomeBytes : Bytes) (ratchetTreeBytes : Option Bytes)
    (g : String) : Bool :=
  match stageWelcome O s.storage welcomeBytes ratchetTreeBytes with
  | .error _ => false
  | .ok w => fromUtf8Lossy w.groupId == g && (w.epoch == 0 || (s.forgottenGroupMinEpochs g).getD 0 ≤ w.epoch) &&
      decide (Passes s g w.epoch) && isOk (O.intoGroup s.storage w).result

def step (g : String) (d : Device) : Ev → Option Device
  | .processWelcome O welcomeBytes ratchetTreeBytes =>
    some { d with
      manager := (d.manager.processWelcome O welcomeBytes ratchetTreeBytes).2
      accepted := d.accepted || accepts O d.manager welcomeBytes ratchetTreeBytes g }
  | .forgetGroup O g' minEpoch => some { d with manager := d.manager.forgetGroup O g' minEpoch }
  | .createGroup O g' => some { d with manager := (d.manager.createGroup O g').2 }
  | .joinByExternalCommit O groupInfoBytes =>
      some { d with manager := (d.manager.joinByExternalCommit O groupInfoBytes).2 }
  | .save serializes =>
    some { d with
      manager := (d.manager.saveState serializes).2
      saves := d.saves ++ (d.manager.saveState serializes).1.toList }
  | .load i => d.saves[i]?.map fun p => { d with manager := load p }

/-- The runs that begin right after `forget_group(g, N)`. -/
def afterForget (g : String) (N : Nat) : Machine Device Ev where
  init := fun d => (∃ O m, d.manager = MlsManager.forgetGroup O m g N) ∧ d.saves = [] ∧ d.accepted = false
  step := step g

/-- What the code needs of a step to keep a group forgotten: a later forget names no lower minimum, and storing
    a Welcome the guards let through does not fail while a minimum is recorded. -/
def keepsForgotten (g : String) (d : Device) : Ev → Bool
  | .forgetGroup _ g' minEpoch => g' != g || minEpoch == 0 || (d.manager.forgottenGroupMinEpochs g).getD 0 ≤ minEpoch
  | .processWelcome O welcomeBytes ratchetTreeBytes =>
    match stageWelcome O d.manager.storage welcomeBytes ratchetTreeBytes with
    | .error _ => true
    | .ok w => fromUtf8Lossy w.groupId != g || (d.manager.forgottenGroupMinEpochs g).isNone ||
        !decide (Passes d.manager g w.epoch) || isOk (O.intoGroup d.manager.storage w).result
  | _ => true

/-! ## What each operation does to the minimum epochs and to the snapshot -/

@[simp] theorem forgotten_markStateDirty (s : MlsManager) :
    s.markStateDirty.forgottenGroupMinEpochs = s.forgottenGroupMinEpochs := rfl
@[simp] theorem dirty_markStateDirty (s : MlsManager) : s.markStateDirty.stateSnapshot.dirty = true := rfl

@[simp] theorem forgotten_dropPendingSubmission (s : MlsManager) (g : String) :
    (s.dropPendingSubmission g).forgottenGroupMinEpochs = s.forgottenGroupMinEpochs := by
  unfold MlsManager.dropPendingSubmission; split <;> rfl

@[simp] theorem forgotten_deleteGroupFromStorage (O : OpenMls) (s : MlsManager) (g : String) :
    (s.deleteGroupFromStorage O g).forgottenGroupMinEpochs = s.forgottenGroupMinEpochs := by
  unfold MlsManager.deleteGroupFromStorage; split <;> rfl

theorem forgotten_forgetGroup (O : OpenMls) (s : MlsManager) (g : String) (minEpoch : Nat) :
    (s.forgetGroup O g minEpoch).forgottenGroupMinEpochs =
      if 0 < minEpoch then Function.update s.forgottenGroupMinEpochs g (some minEpoch) else
        s.forgottenGroupMinEpochs := by
  unfold MlsManager.forgetGroup
  by_cases h : 0 < minEpoch <;> simp [h]

theorem forgetGroup_keeps_min_iff (O : OpenMls) (s : MlsManager) (g : String) (minEpoch : Nat) :
    (s.forgottenGroupMinEpochs g).getD 0 ≤ ((s.forgetGroup O g minEpoch).forgottenGroupMinEpochs g).getD 0 ↔
      minEpoch = 0 ∨ (s.forgottenGroupMinEpochs g).getD 0 ≤ minEpoch := by
  rw [forgotten_forgetGroup]
  by_cases h : 0 < minEpoch
  · simp only [h, if_true, update_self, getD_some]
    constructor
    · exact .inr
    · rintro (h0 | hle)
      · omega
      · exact hle
  · obtain rfl : minEpoch = 0 := by omega
    simp

theorem forgotten_createGroup (O : OpenMls) (s : MlsManager) (g : String) :
    (s.createGroup O g).2.forgottenGroupMinEpochs = s.forgottenGroupMinEpochs := by
  unfold MlsManager.createGroup
  dsimp only
  split
  · rfl
  · split
    · split <;> rfl
    · rfl

theorem forgotten_joinByExternalCommit (O : OpenMls) (s : MlsManager) (info : Bytes) :
    (s.joinByExternalCommit O info).2.forgottenGroupMinEpochs = s.forgottenGroupMinEpochs := by
  unfold MlsManager.joinByExternalCommit
  dsimp only
  split
  · split
    · rfl
    · split
      · rfl
      · split <;> rfl
  · rfl

/-- The snapshot stays, or the next save builds a new one. -/
def SnapshotKept (s t : MlsManager) : Prop := t.stateSnapshot.dirty = true ∨ t.stateSnapshot = s.stateSnapshot

theorem snapshot_createGroup (O : OpenMls) (s : MlsManager) (g : String) : SnapshotKept s (s.createGroup O g).2 := by
  unfold MlsManager.createGroup
  dsimp only
  split
  · exact .inl rfl
  · split
    · split
      · exact .inl rfl
      · exact .inr rfl
    · exact .inr rfl

theorem snapshot_joinByExternalCommit (O : OpenMls) (s : MlsManager)
    (info : Bytes) : SnapshotKept s (s.joinByExternalCommit O info).2 := by
  unfold MlsManager.joinByExternalCommit
  dsimp only
  split
  · split
    · exact .inr rfl
    · split
      · exact .inr rfl
      · split
        · exact .inr rfl
        · exact .inl rfl
  · exact .inr rfl

theorem saveState_cases (s : MlsManager) (serializes : Bool) :
    (s.saveState serializes = (none, s)) ∨
    (∃ p, s.stateSnapshot.dirty = false ∧ s.stateSnapshot.cachedCbor = some p ∧ s.saveState serializes = (some p, s)) ∨
    s.saveState serializes = (some s.serializeState, { s with stateSnapshot := ⟨false, some s.serializeState⟩ }) := by
  obtain ⟨storage, groups, mins, submissions, joins, ⟨dirty, cached⟩⟩ := s
  cases dirty <;> cases cached <;> cases serializes <;> simp [MlsManager.saveState, StateSnapshotCache.getOrBuild]

/-! ## A forgotten group -/

/-- A minimum of at least `N` is recorded. -/
def AtLeast (N : Nat) (m : Option Nat) : Prop := ∃ k, m = some k ∧ N ≤ k

structure Guards (g : String) (N : Nat) (d : Device) : Prop where
  now : AtLeast N (d.manager.forgottenGroupMinEpochs g)
  saved : ∀ p ∈ d.saves, AtLeast N (p.forgottenGroupMinEpochs g)
  cached : d.manager.stateSnapshot.dirty = false → ∀ p, d.manager.stateSnapshot.cachedCbor = some p →
    AtLeast N (p.forgottenGroupMinEpochs g)

variable {N : Nat} {d d' : Device}

theorem guards_of_manager {m : MlsManager} (h : Guards g N d) (hmin : AtLeast N (m.forgottenGroupMinEpochs g))
    (hk : SnapshotKept d.manager m)
    (b : Bool) : Guards g N { d with manager := m, accepted := b } := by
  refine ⟨hmin, h.saved, fun hd p hp => ?_⟩
  rcases hk with hk | hk
  · rw [hk] at hd; cases hd
  · rw [hk] at hd hp
    exact h.cached hd p hp

theorem guards_processWelcome (h : Guards g N d)
    (hk : keepsForgotten g d (.processWelcome O welcomeBytes ratchetTreeBytes) = true)
    (ha : accepts O d.manager welcomeBytes ratchetTreeBytes g = false) (b : Bool) :
    Guards g N { d with manager := (d.manager.processWelcome O welcomeBytes ratchetTreeBytes).2, accepted := b } := by
  have hp := processed O d.manager welcomeBytes ratchetTreeBytes
  generalize d.manager.processWelcome O welcomeBytes ratchetTreeBytes = r at hp ⊢
  obtain ⟨k, hk', hN⟩ := h.now
  cases hp with
  | refused | kept => exact guards_of_manager h h.now (.inr rfl) b
  | failed w text hw hpass hr =>
    by_cases e : fromUtf8Lossy w.groupId = g
    · simp [keepsForgotten, hw, e, hk', hr, isOk, e ▸ hpass] at hk
    · refine guards_of_manager h ⟨k, ?_, hN⟩ (.inr ?_) b
      · rw [← hk']
        exact update_of_ne (Ne.symm e) ..
      · rfl
  | joined w x hw hpass hr =>
    by_cases e : fromUtf8Lossy w.groupId = g
    · -- what the guards let through under a recorded minimum is accepted
      have hepoch : w.epoch = 0 ∨ k ≤ w.epoch := by
        rw [e] at hpass
        unfold Passes at hpass
        split at hpass
        · exact .inl hpass.1
        · exact hpass k hk'
      simp [accepts, hw, e, hk', hr, isOk, e ▸ hpass] at ha
      omega
    · refine guards_of_manager h ⟨k, ?_, hN⟩ (.inl rfl) b
      rw [← hk']
      exact update_of_ne (Ne.symm e) ..

theorem guards_forgetGroup (h : Guards g N d) {g' : String} {minEpoch : Nat}
    (hk : keepsForgotten g d (.forgetGroup O g' minEpoch) = true) :
    Guards g N { d with manager := d.manager.forgetGroup O g' minEpoch } := by
  refine guards_of_manager h ?_ (.inl rfl) d.accepted
  obtain ⟨k, hk', hN⟩ := h.now
  rw [forgotten_forgetGroup]
  by_cases hpos : 0 < minEpoch
  · rw [if_pos hpos]
    by_cases e : g' = g
    · subst e
      refine ⟨minEpoch, update_self .., ?_⟩
      simp [keepsForgotten, hk'] at hk
      omega
    · exact ⟨k, (update_of_ne (Ne.symm e) ..).trans hk', hN⟩
  · rw [if_neg hpos]; exact h.now

theorem guards_save (h : Guards g N d) (serializes : Bool) :
    Guards g N { d with manager := (d.manager.saveState serializes).2, saves :=
      d.saves ++ (d.manager.saveState serializes).1.toList } := by
  rcases saveState_cases d.manager serializes with hs | ⟨p, hd, hc, hs⟩ | hs
  · rw [hs]
    exact ⟨h.now, by simpa using h.saved, h.cached⟩
  · rw [hs]
    refine ⟨h.now, fun q hq => ?_, h.cached⟩
    rcases List.mem_append.mp hq with hq | hq
    · exact h.saved q hq
    · obtain rfl : q = p := by simpa using hq
      exact h.cached hd q hc
  · rw [hs]
    refine ⟨h.now, fun q hq => ?_, fun _ q hq => ?_⟩
    · rcases List.mem_append.mp hq with hq | hq
      · exact h.saved q hq
      · obtain rfl : q = d.manager.serializeState := by simpa using hq
        exact h.now
    · obtain rfl : d.manager.serializeState = q := some.inj hq
      exact h.now

theorem reachBy_guards (hN : 0 < N) (h : (afterForget g N).ReachBy (fun d e => keepsForgotten g d e = true) d) :
    d.accepted = false → Guards g N d := by
  refine Machine.ReachBy.invariant (I := fun d => d.accepted = false → Guards g N d) ?_ ?_ h
  · rintro d ⟨⟨O, m, hm⟩, hsaves, -⟩ -
    refine ⟨⟨N, ?_, le_rfl⟩, by simp [hsaves], fun hd => ?_⟩
    · rw [hm, forgotten_forgetGroup, if_pos hN, update_self]
    · rw [hm] at hd; cases hd
  · intro d ev d' ih hk hstep ha
    cases ev with
    | processWelcome O welcomeBytes ratchetTreeBytes =>
      cases hstep
      obtain ⟨ha, hacc⟩ := Bool.or_eq_false_iff.mp ha
      exact guards_processWelcome (ih ha) hk hacc _
    | forgetGroup O g' minEpoch => cases hstep; exact guards_forgetGroup (ih ha) hk
    | createGroup O g' =>
      cases hstep
      exact guards_of_manager (ih ha) (by rw [forgotten_createGroup]; exact (ih ha).now) (snapshot_createGroup ..) _
    | joinByExternalCommit O info =>
      cases hstep
      exact guards_of_manager (ih ha) (by
        rw [forgotten_joinByExternalCommit]; exact (ih ha).now) (snapshot_joinByExternalCommit ..) _
    | save serializes => cases hstep; exact guards_save (ih ha) serializes
    | load i =>
      obtain ⟨p, hp, hd⟩ := map_eq_some_iff.mp hstep
      cases hd
      exact ⟨(ih ha).saved p (List.mem_of_getElem? hp), (ih ha).saved, nofun⟩

theorem processWelcome_below_min (hmin : AtLeast N (s.forgottenGroupMinEpochs g))
    (hw : stageWelcome O s.storage welcomeBytes ratchetTreeBytes = .ok w)
    (hg : fromUtf8Lossy w.groupId = g) (h0 : 0 < w.epoch)
    (hlt : w.epoch < N) : (s.processWelcome O welcomeBytes ratchetTreeBytes).2 = s := by
  have hnot : ¬ Passes s (fromUtf8Lossy w.groupId) w.epoch := by
    obtain ⟨k, hk, hN⟩ := hmin
    rw [hg]
    unfold Passes
    split
    · omega
    · intro hall
      rcases hall k hk with h | h <;> omega
  have hp := processed O s welcomeBytes ratchetTreeBytes
  generalize s.processWelcome O welcomeBytes ratchetTreeBytes = r at hp ⊢
  cases hp with
  | refused | kept => rfl
  | failed w' _ hw' hpass | joined w' _ hw' hpass =>
    obtain rfl : w = w' := Except.ok.inj (hw.symm.trans hw')
    exact absurd hpass hnot

/-- After `forget_group(g, N)`: until a Welcome is accepted for the group, one below `N` installs nothing; and
    no forget lowers the minimum. -/
theorem stale_welcomes_stay_out (g : String) (N : Nat) (hN : 0 < N) (d : Device)
    (h : (afterForget g N).ReachBy (fun d e => keepsForgotten g d e = true) d) :
    (d.accepted = false → ∀ (O : OpenMls) (welcomeBytes : Bytes) (ratchetTreeBytes : Option Bytes) (w : StagedWelcome),
      stageWelcome O d.manager.storage welcomeBytes ratchetTreeBytes = .ok w → fromUtf8Lossy w.groupId = g →
        0 < w.epoch → w.epoch < N →
      (d.manager.processWelcome O welcomeBytes ratchetTreeBytes).2.groups g = d.manager.groups g) ∧
    ∀ (O : OpenMls) (minEpoch : Nat), keepsForgotten g d (.forgetGroup O g minEpoch) = true →
      (d.manager.forgottenGroupMinEpochs g).getD 0 ≤
        ((d.manager.forgetGroup O g minEpoch).forgottenGroupMinEpochs g).getD 0 := by
  constructor
  · intro ha O welcomeBytes ratchetTreeBytes w hw hg h0 hlt
    rw [processWelcome_below_min (reachBy_guards hN h ha).now hw hg h0 hlt]
  · intro O minEpoch hk
    refine (forgetGroup_keeps_min_iff O d.manager g minEpoch).mpr ?_
    simpa [keepsForgotten] using hk

/-! ## What a save gives back, along a run -/

/-- The storage holds every group held in memory, and a snapshot still served gives them back. -/
structure Mirrored (s : MlsManager) : Prop where
  rows : ∀ g, (s.groups g).isSome → rowOf s.storage g = s.held g
  cached : s.stateSnapshot.dirty = false → ∀ p, s.stateSnapshot.cachedCbor = some p → (load p).held = s.held

theorem Mirrored.givesBack (h : Mirrored s) : GivesBack s := by
  by_cases hr : Rebuilds s
  · exact (givesBack_of_rebuilds hr).mpr h.rows
  · obtain ⟨p, hd, hp⟩ := cached_of_not_rebuilds hr
    exact (givesBack_of_cached hd hp).mpr (h.cached hd p hp)

theorem rowOf_frame {id : Bytes} {before after : Storage} (hf : Frame id before after)
    (hg : fromUtf8Lossy id ≠ g) : rowOf after g = rowOf before g := by
  have hne : asBytes g ≠ id := fun e => hg (by rw [← e, fromUtf8Lossy_asBytes])
  rw [rowOf, rowOf, hf.other _ hne]

theorem Mirrored.of_rows (h : Mirrored s) (hg : t.groups = s.groups) (hk : SnapshotKept s t)
    (hrow : ∀ g, (s.groups g).isSome → rowOf t.storage g = rowOf s.storage g) : Mirrored t := by
  have hheld : t.held = s.held := by
    funext g
    rw [MlsManager.held, MlsManager.held, hg]
  refine ⟨fun g hs => ?_, fun hd p hp => ?_⟩
  · rw [hg] at hs
    rw [hrow g hs, h.rows g hs, hheld]
  · rcases hk with hk | hk
    · rw [hk] at hd; cases hd
    · rw [hk] at hd hp
      rw [h.cached hd p hp, hheld]

/-- One group replaced or removed, in memory and in its row. -/
theorem Mirrored.update (h : Mirrored s) {v : Option MlsGroup} (hd : t.stateSnapshot.dirty = true)
    (hg : t.groups = Function.update s.groups g v)
    (hv : v.isSome → t.storage (asBytes g) = v)
    (hrow : ∀ g', g' ≠ g → rowOf t.storage g' = rowOf s.storage g') : Mirrored t := by
  refine ⟨fun g' hs => ?_, fun hd' => by rw [hd] at hd'; cases hd'⟩
  by_cases e : g' = g
  · subst e
    rw [hg, update_self] at hs
    rw [rowOf, MlsManager.held, hg, update_self, hv hs]
  · rw [hg, update_of_ne e] at hs
    rw [hrow g' e, h.rows g' hs, MlsManager.held, MlsManager.held, hg, update_of_ne e]

/-- What OpenMLS has to do for a step to be mirrored: an id it installs a group under is the UTF-8 text it reads
    as, and a call that fails leaves the row of a held group readable as it was. -/
def StoresWhole (s : MlsManager) : Ev → Prop
  | .processWelcome O welcomeBytes ratchetTreeBytes =>
    ∀ w, stageWelcome O s.storage welcomeBytes ratchetTreeBytes = .ok w →
      ((∃ x, (O.intoGroup s.storage w).result = .ok x) → w.groupId = asBytes (fromUtf8Lossy w.groupId)) ∧
      ((∃ text, (O.intoGroup s.storage w).result = .error text) → (s.groups (fromUtf8Lossy w.groupId)).isSome →
        rowOf (O.intoGroup s.storage w).after (fromUtf8Lossy w.groupId) = rowOf s.storage (fromUtf8Lossy w.groupId))
  | .createGroup O g =>
    (∃ text, (O.newWithGroupId s.storage (asBytes g)).result = .error text) → (s.groups g).isSome →
      rowOf (O.newWithGroupId s.storage (asBytes g)).after g = rowOf s.storage g
  | .joinByExternalCommit O groupInfoBytes =>
    ∀ info, O.mlsMessageIn groupInfoBytes = some (.groupInfo info) →
      O.groupInfoId info = asBytes (fromUtf8Lossy (O.groupInfoId info))
  | _ => True

theorem mirrored_processWelcome (h : Mirrored s)
    (hk : StoresWhole s (.processWelcome O welcomeBytes ratchetTreeBytes)) :
    Mirrored (s.processWelcome O welcomeBytes ratchetTreeBytes).2 := by
  have hp := processed O s welcomeBytes ratchetTreeBytes
  generalize s.processWelcome O welcomeBytes ratchetTreeBytes = r at hp ⊢
  cases hp with
  | refused | kept => exact h
  | failed w text hw _ hr =>
    refine h.of_rows rfl (.inr rfl) fun g hg => ?_
    by_cases e : fromUtf8Lossy w.groupId = g
    · exact e ▸ (hk w hw).2 ⟨text, hr⟩ (e ▸ hg)
    · exact rowOf_frame (O.intoGroup s.storage w).frame e
  | joined w x hw _ hr =>
    have hid := (hk w hw).1 ⟨x, hr⟩
    have hstored : (O.intoGroup s.storage w).after (asBytes (fromUtf8Lossy w.groupId)) = some x := by
      rw [← hid]
      exact ((O.intoGroup s.storage w).fresh x hr).stored
    exact h.update rfl rfl (fun _ => hstored) fun g' e => rowOf_frame (O.intoGroup s.storage w).frame (Ne.symm e)

@[simp] theorem groups_dropPendingSubmission (s : MlsManager)
    (g : String) : (s.dropPendingSubmission g).groups = s.groups := by
  unfold MlsManager.dropPendingSubmission; split <;> rfl

@[simp] theorem storage_dropPendingSubmission (s : MlsManager)
    (g : String) : (s.dropPendingSubmission g).storage = s.storage := by
  unfold MlsManager.dropPendingSubmission; split <;> rfl

@[simp] theorem groups_deleteGroupFromStorage (O : OpenMls) (s : MlsManager)
    (g : String) : (s.deleteGroupFromStorage O g).groups = s.groups := by
  unfold MlsManager.deleteGroupFromStorage; split <;> rfl

theorem groups_forgetGroup (O : OpenMls) (s : MlsManager) (g : String) (minEpoch : Nat) :
    (s.forgetGroup O g minEpoch).groups = Function.update s.groups g none := by
  unfold MlsManager.forgetGroup
  by_cases h : 0 < minEpoch <;> simp [h, MlsManager.markStateDirty]

theorem rowOf_deleteGroupFromStorage (O : OpenMls) (s : MlsManager) {g' : String} (hne : g' ≠ g) :
    rowOf (s.deleteGroupFromStorage O g).storage g' = rowOf s.storage g' := by
  unfold MlsManager.deleteGroupFromStorage
  split
  · rfl
  · exact rowOf_frame (O.delete s.storage (asBytes g)).2 (by rw [fromUtf8Lossy_asBytes]; exact Ne.symm hne)

theorem rowOf_forgetGroup (O : OpenMls) (s : MlsManager) (minEpoch : Nat) {g' : String} (hne : g' ≠ g) :
    rowOf (s.forgetGroup O g minEpoch).storage g' = rowOf s.storage g' := by
  unfold MlsManager.forgetGroup
  by_cases h : 0 < minEpoch <;> simp [h, MlsManager.markStateDirty, rowOf_deleteGroupFromStorage O _ hne]

theorem mirrored_createGroup (h : Mirrored s)
    (hk : StoresWhole s (.createGroup O g)) : Mirrored (s.createGroup O g).2 := by
  have hrow : ∀ g', g' ≠ g → rowOf (O.newWithGroupId s.storage (asBytes g)).after g' = rowOf s.storage g' := fun g' e =>
    rowOf_frame (O.newWithGroupId s.storage (asBytes g)).frame (by rw [fromUtf8Lossy_asBytes]; exact Ne.symm e)
  unfold MlsManager.createGroup
  dsimp only
  split
  · rename_i x hr
    exact h.update rfl rfl (fun _ => ((O.newWithGroupId s.storage (asBytes g)).fresh x hr).stored) hrow
  · rename_i text hr
    have hkept : Mirrored { s with storage := (O.newWithGroupId s.storage (asBytes g)).after } := by
      refine h.of_rows rfl (.inr rfl) fun g' hg => ?_
      by_cases e : g' = g
      · subst e; exact hk ⟨text, hr⟩ hg
      · exact hrow g' e
    split
    · split
      · rename_i recovered hstored
        exact h.update rfl rfl (fun _ => hstored) hrow
      · exact hkept
    · exact hkept

theorem mirrored_joinByExternalCommit {bytes : Bytes} (h : Mirrored s)
    (hk : StoresWhole s (.joinByExternalCommit O bytes)) :
    Mirrored (s.joinByExternalCommit O bytes).2 := by
  unfold MlsManager.joinByExternalCommit
  dsimp only
  split
  · rename_i info hinfo
    split
    · exact h
    · rename_i hnot
      have hid := hk info hinfo
      have hrow : ∀ g', g' ≠ fromUtf8Lossy (O.groupInfoId info) →
        rowOf (O.externalCommit s.storage info).after g' = rowOf s.storage g' :=
        fun g' e => rowOf_frame (O.externalCommit s.storage info).frame (Ne.symm e)
      -- the group named is not held, so no held row can be the one the join writes
      have hkept : Mirrored { s with storage := (O.externalCommit s.storage info).after } :=
        h.of_rows rfl (.inr rfl) fun g' hg => hrow g' fun e => hnot (e ▸ hg)
      split
      · exact hkept
      · rename_i x hr
        obtain ⟨hgid, -, hstored⟩ := (O.externalCommit s.storage info).fresh x hr
        split
        · exact hkept
        · rw [hgid]
          exact h.update rfl rfl (fun _ => (congrArg _ hid.symm).trans hstored) hrow
  · exact h

def deviceRuns (g : String) : Machine Device Ev where
  init := fun d => d.manager = ⟨fun _ => none, fun _ => none, fun _ => none, fun _ => none, fun _ => false,
    ⟨true, none⟩⟩ ∧ d.saves = []
  step := step g

/-- Along every run whose steps store what they say, a save gives back the groups held. -/
theorem reachBy_givesBack (h : (deviceRuns g).ReachBy (fun d e => StoresWhole d.manager e) d) :
    GivesBack d.manager := by
  refine Mirrored.givesBack (Machine.ReachBy.invariant (I := fun d => Mirrored d.manager) ?_ ?_ h)
  · rintro d ⟨hm, -⟩
    rw [hm]
    exact ⟨nofun, nofun⟩
  · intro d ev d' ih hk hstep
    cases ev with
    | processWelcome O welcomeBytes ratchetTreeBytes => cases hstep; exact mirrored_processWelcome ih hk
    | forgetGroup O g' minEpoch =>
      cases hstep
      exact ih.update rfl (groups_forgetGroup ..) nofun fun _ e => rowOf_forgetGroup O _ minEpoch e
    | createGroup O g' => cases hstep; exact mirrored_createGroup ih hk
    | joinByExternalCommit O info => cases hstep; exact mirrored_joinByExternalCommit ih hk
    | save serializes =>
      cases hstep
      rcases saveState_cases d.manager serializes with hs | ⟨p, -, -, hs⟩ | hs
      · rw [hs]; exact ih
      · rw [hs]; exact ih
      · rw [hs]
        refine ⟨ih.rows, fun _ p hp => ?_⟩
        obtain rfl : d.manager.serializeState = p := some.inj hp
        exact (givesBack_of_rebuilds (s :=
          { d.manager with stateSnapshot := ⟨true, none⟩ }) (.inl rfl)).mpr ih.rows true _ _ rfl
    | load i =>
      obtain ⟨p, hp, hd⟩ := map_eq_some_iff.mp hstep
      cases hd
      refine ⟨fun g' hg => ?_, nofun⟩
      simp only [load] at hg
      by_cases hheld : p.groupIds g' = true
      · simp [rowOf, MlsManager.held, load, hheld]
      · simp [hheld] at hg

/-! ## Concrete calls -/

def storing (id : Bytes) (st : Storage) (epoch : Nat) (tree : List LeafKey) : Making id st where
  result := .ok ⟨id, epoch, tree, none⟩
  after := Function.update st id (some ⟨id, epoch, tree, none⟩)
  frame := by
    refine ⟨fun _ h => update_of_ne h .., fun x hx => ?_, fun x n hx hn => ?_⟩
    · obtain rfl := some.inj ((update_self id _ st).symm.trans hx)
      exact .inl rfl
    · obtain rfl := some.inj ((update_self id _ st).symm.trans hx)
      cases hn
  fresh := fun x hx => by cases hx; exact ⟨rfl, rfl, update_self ..⟩

def failing (id : Bytes) (st : Storage) (text : String) : Making id st where
  result := .error text
  after := st
  frame := ⟨fun _ _ => rfl, fun _ hx => .inr hx, fun x _ hx hn => ⟨x, hx, hn⟩⟩
  fresh := nofun

def deleted (st : Storage) (id : Bytes) : { after : Storage // Frame id st after } where
  val := Function.update st id none
  property := by
    refine ⟨fun _ h => update_of_ne h .., fun x hx => ?_, fun x _ hx => ?_⟩ <;>
    · rw [update_self] at hx
      cases hx

/-- OpenMLS as it answers Welcomes of the group `g` whose first byte is their epoch; `stores` says whether the
    storage takes the group of a Welcome. -/
def library (stores : Bool) : OpenMls where
  mlsMessageIn := fun bytes => some (.welcome ⟨bytes, 1⟩)
  welcomeIn := fun _ => none
  ratchetTreeIn := fun _ => none
  buildFromWelcome := fun _ _ => .ok ()
  build := fun _ welcome _ => .ok ⟨asBytes "g", (welcome.body.head?.getD 0).toNat, []⟩
  intoGroup := fun st w => if stores then storing w.groupId st w.epoch w.tree else failing w.groupId st "StorageError"
  newWithGroupId := fun st id => storing id st 0 []
  groupInfoId := id
  externalCommit := fun st info => failing info st "GroupInfo"
  joinCommit := fun _ => none
  delete := deleted

def created : Device := ⟨⟨fun _ => none, fun _ => none, fun _ => none, fun _ => none, fun _ => false,
    ⟨true, none⟩⟩, [], false⟩

/-- Holds the group `h` and has forgotten `g` up to epoch 5. -/
def forgotten : MlsManager := ((created.manager.createGroup (library true) "h").2).forgetGroup (library true) "g" 5

theorem forgotten_givesBack : GivesBack forgotten := by
  refine reachBy_givesBack (g := "g") (d := ⟨forgotten, [], false⟩) ?_
  refine .step (.forgetGroup (library true) "g" 5)
    (.step (.createGroup (library true) "h") (.init (s := created) ⟨rfl, rfl⟩) ?_ rfl) trivial rfl
  intro h
  obtain ⟨_, h⟩ := h
  cases h

theorem a_stale_welcome_changes_nothing :
    (forgotten.processWelcome (library true) [3] none).1 = .error (.openMls "Welcome stale: epoch 3 < min_epoch 5") ∧
    (forgotten.processWelcome (library true) [3] none).2.held = forgotten.held ∧
    (forgotten.processWelcome (library true) [3] none).2.forgottenGroupMinEpochs = forgotten.forgottenGroupMinEpochs ∧
    GivesBack (forgotten.processWelcome (library true) [3] none).2 := by
  have herr : (forgotten.processWelcome (library true) [3] none).1 = .error
    (.openMls "Welcome stale: epoch 3 < min_epoch 5") := by rfl
  refine ⟨herr, (welcome_error_atomic_iff (library true) forgotten [3] none _ forgotten_givesBack herr).mpr ?_⟩
  rintro w hw - ⟨text, hr⟩
  cases hw
  cases hr

theorem a_failed_store_loses_the_minimum :
    GivesBack forgotten ∧
    (forgotten.processWelcome (library false) [6] none).1 = .error (.openMls "Join error (into_group): StorageError") ∧
    forgotten.forgottenGroupMinEpochs "g" = some 5 ∧
    (forgotten.processWelcome (library false) [6] none).2.forgottenGroupMinEpochs "g" = none :=
  ⟨forgotten_givesBack, by rfl, by decide, by decide⟩

def justForgotten : Device := ⟨forgotten, [], false⟩

theorem justForgotten_init : (afterForget "g" 5).init justForgotten := ⟨⟨_, _, rfl⟩, rfl, rfl⟩

/-- A second forget asks for epoch 3 only: a Welcome of epoch 4 is let in. -/
theorem a_lower_forget_lets_a_stale_welcome_in :
    ∃ d, (afterForget "g" 5).Reach d ∧ d.accepted = false ∧ d.manager.groups "g" = none ∧
      (d.manager.forgottenGroupMinEpochs "g").getD 0 < 5 ∧
      stageWelcome (library true) d.manager.storage [4] none = .ok ⟨asBytes "g", 4, []⟩ ∧
      ((d.manager.processWelcome (library true) [4] none).2.groups "g").map (·.epoch) = some 4 :=
  ⟨_, Machine.reach_of_run [.forgetGroup (library true) "g" 3] justForgotten_init rfl,
    rfl, by decide, by decide, by rfl, by decide⟩

/-- A Welcome of epoch 6 could not be stored: the one of epoch 4 behind it is let in. -/
theorem a_failed_store_lets_a_stale_welcome_in :
    ∃ d, (afterForget "g" 5).Reach d ∧ d.accepted = false ∧ d.manager.groups "g" = none ∧
      stageWelcome (library true) d.manager.storage [4] none = .ok ⟨asBytes "g", 4, []⟩ ∧
      ((d.manager.processWelcome (library true) [4] none).2.groups "g").map (·.epoch) = some 4 :=
  ⟨_, Machine.reach_of_run [.processWelcome (library false) [6] none] justForgotten_init rfl,
    by decide, by decide, by rfl, by decide⟩

/-- A save, a second forget at epoch 7, a Welcome of epoch 6 and a reload of what was saved. -/
def reload : List Ev := [.save true, .forgetGroup (library true) "g" 7, .processWelcome (library true)
    [6] none, .load 0]

def reloaded : Device := ((afterForget "g" 5).runBy (keepsForgotten "g") justForgotten reload).getD justForgotten

theorem forgotten_through_a_reload :
    (afterForget "g" 5).ReachBy (fun d e => keepsForgotten "g" d e = true) reloaded ∧ reloaded.accepted = false ∧
    (reloaded.manager.processWelcome (library true) [4] none).2.groups "g" = reloaded.manager.groups "g" := by
  obtain ⟨d, hd⟩ := isSome_iff_exists.mp
    (show ((afterForget "g" 5).runBy (keepsForgotten "g") justForgotten reload).isSome by decide)
  have hreach : (afterForget "g" 5).ReachBy (fun d e => keepsForgotten "g" d e = true) reloaded := by
    rw [reloaded, hd]
    exact Machine.reachBy_of_run reload justForgotten_init hd
  have hopen : reloaded.accepted = false := by decide
  exact ⟨hreach, hopen, (stale_welcomes_stay_out "g" 5 (by decide) reloaded hreach).1 hopen (library true) [4] none
    ⟨asBytes "g", 4, []⟩ rfl (fromUtf8Lossy_asBytes "g") (by decide) (by decide)⟩

end Canari.Mls.Welcome
