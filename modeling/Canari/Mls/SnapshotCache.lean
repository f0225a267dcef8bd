/-
  Canari.Mls.SnapshotCache — what a save returns, along every run
  (`frontend/mls-core/src/state.rs`, `mark_state_dirty`, `save_state`).

  A save answers the snapshot built last as long as nothing marked the state dirty, so every call
  that changes any part of the device a save writes has to mark it. Each does when it succeeds. A
  call that fails returns unmarked, after OpenMLS wrote, after the minimum epoch of a Welcome was
  lifted, or after key packages were deleted: `FailsQuietly` says what such a call may have done.

  - `saves_tell_the_state`: along every run whose steps fail quietly, or find the state marked already.
  - `a_lifted_minimum_is_saved`, `a_deleted_package_is_saved`: runs that break it.
-/

import Canari.Mls.Device

namespace Canari.Mls.Snapshot

open Lib Mls.State Mls.Submission Mls.Owed Mls.Welcome Mls.DevicePins Mls.DeviceTrust List Option

/-! ## Runs -/

structure Run where
  device : Device
  saves : List Persisted
  /-- The number of the next call, and of the commit it may stage. -/
  next : Nat

inductive Ev where
  | stage (how : How) (c : Staging) (writes : Rows → Rows) (g : String)
  | record (how : How) (O : OpenMls) (clear : Ending) (c : Staging) (writes : Rows → Rows) (g : String) (intent : Bytes)
  | clear (O : OpenMls) (c : Ending) (writes : Rows → Rows) (g : String)
  | merge (c : Ending) (writes : Rows → Rows) (summary : Summarised) (g : String)
  | mergeOwing (c : Ending) (writes : Rows → Rows) (summary : Summarised) (exported : Except MlsError Bytes)
      (recipients : List String) (g : String)
  | incoming (f : Incoming) (g : String)
  | processWelcome (O : OpenMls) (writes : Rows → Rows) (welcomeBytes : Bytes) (ratchetTreeBytes : Option Bytes)
  | forgetGroup (O : OpenMls) (writes : Rows → Rows) (g : String) (minEpoch : Nat)
  | createGroup (O : OpenMls) (writes : Rows → Rows) (g : String)
  | joinByExternalCommit (O : OpenMls) (writes : Rows → Rows) (groupInfoBytes : Bytes)
  | sendMessage (claim : Except MlsError Unit) (evicted : Bool) (a : Answer) (frame : Except String Bytes) (g : String)
  | skipSendGenerations (frames : List Answer) (g : String)
  | buildKeyPackage (m : Minting)
  | pruneKeyPackages (expired : Bytes × Bytes → Bool)
  | forgetKeyPackages (publics : List (Option PublicKeyPackage))
  | graineRun (epochFingerprint runId : Except MlsError String) (g : String)
  | setAdmissionPolicy (g : String) (policy : AdmissionPolicy)
  | takeDeviceEvents
  | welcomeDelivered (g recipient : String) (welcome : Bytes)
  | invalidatePersistedSnapshot
  | save (serializes : Bool)
  | load (i : Nat) (held : List String) (expired : Bytes × Bytes → Bool)

variable (fingerprint : DevicePins.Key → String) (W : Owed.Format) (F : Submission.Format)

/-- Every call but a save and a load. -/
def Device.after (d : Device) (n : Nat) : Ev → Option Device
  | .stage how c writes g => some (stage how c writes n g d)
  | .record how O clear c writes g intent => record F how O clear c writes intent n g d
  | .clear O c writes g => some (clearPendingCommit O c writes n g d)
  | .merge c writes summary g => some (mergePendingCommit fingerprint c writes summary n g d).2
  | .mergeOwing c writes summary exported recipients g =>
    some (mergePendingCommitOwing fingerprint W F c writes summary exported recipients n g d)
  | .incoming f g => some (processIncoming fingerprint f n g d).2
  | .processWelcome O writes welcomeBytes ratchetTreeBytes =>
      some (processWelcome fingerprint O writes welcomeBytes ratchetTreeBytes d)
  | .forgetGroup O writes g minEpoch => some (forgetGroup O writes minEpoch g d)
  | .createGroup O writes g => some (createGroup O writes g d)
  | .joinByExternalCommit O writes groupInfoBytes => some (joinByExternalCommit O writes groupInfoBytes d)
  | .sendMessage claim evicted a frame g => some (sendMessage claim evicted a frame g d).2
  | .skipSendGenerations frames g => some (skipSendGenerations frames g d).2
  | .buildKeyPackage m => some (buildKeyPackage m d).2
  | .pruneKeyPackages expired => some (pruneKeyPackagesExpiredAt expired d).2
  | .forgetKeyPackages publics => some (forgetKeyPackages publics d).2
  | .graineRun epochFingerprint runId g => some (graineRun epochFingerprint runId g d).2
  | .setAdmissionPolicy g policy => some (setAdmissionPolicy g policy d)
  | .takeDeviceEvents => some (takeDeviceEvents d).2
  | .welcomeDelivered g recipient welcome => some { d with toOwing := welcomeDelivered W d.toOwing g recipient welcome }
  | .invalidatePersistedSnapshot => some d.marked
  | .save _ | .load .. => none

def step (r : Run) : Ev → Option Run
  | .save serializes =>
    some { r with
      device := (r.device.saveState serializes).2
      saves := r.saves ++ (r.device.saveState serializes).1.toList }
  | .load i held expired => r.saves[i]?.map fun p => { r with device := loadOrCreate held expired p }
  | e => (r.device.after fingerprint W F r.next e).map fun device => { r with device, next := r.next + 1 }

/-- `load_or_create` without a saved state; `rows` holds the signature key. -/
def created (own : Identity) (rows : Rows) : Device where
  mls := ⟨fun _ => none, fun _ => none, fun _ => none, fun _ => none, fun _ => false, ⟨true, none⟩⟩
  owedWelcomes := JsMap.empty
  cachedOwed := JsMap.empty
  own := own
  rows := rows
  trust := (noPins.seedFromTree (noPins.freshOf [⟨0, own.identity, own.signatureKey⟩]).entries).1
  graineRuns := fun _ => none
  admission := fun _ => none
  cachedCbor := none

def machine : Machine Run Ev where
  init := fun r => (∃ own rows, r.device = created own rows) ∧ r.saves = []
  step := step fingerprint W F

/-! ## Calls that fail -/

/-- The call wrote nothing a save reads: no row, and no staged commit gone or come beside a record. -/
def Silent (c : Call) (writes : Rows → Rows) (n : Nat) (d : Device) (g : String) : Prop :=
  ∀ x, d.mls.groups g = some x →
    writes d.rows = d.rows ∧
    (∀ y, d.mls.storage x.groupId = some y → c.row.run n y = y) ∧
    ((d.mls.pendingSubmissions g).isSome → (c.memory.run n x).pendingCommit.isSome = x.pendingCommit.isSome)

/-- Reading this package, or deleting it where it is held, fails. -/
def PublicKeyPackage.fails (p : PublicKeyPackage)
    (rows : Rows) : Bool := p.readError.isSome || rows.has p.row && p.deleteError.isSome

def NoneFails (rows : Rows) : List (Option PublicKeyPackage) → Prop
  | [] => True
  | none :: rest => NoneFails rows rest
  | some p :: rest => p.fails rows = false ∧ NoneFails (rows.delete p.row) rest

/-- No package is deleted before one that fails. -/
def FailsFirst (rows : Rows) : List (Option PublicKeyPackage) → Prop
  | [] => True
  | none :: rest => FailsFirst rows rest
  | some p :: rest => p.fails rows = true ∨ if rows.has p.row then NoneFails (rows.delete p.row) rest else FailsFirst rows rest

/-- A frame that reached OpenMLS wrote no row, where nothing marks the state for it. -/
def Incoming.Quiet (f : Incoming) (n : Nat) (g : String) (d : Device) : Prop :=
  match f.content with
  | .application | .proposal => True
  | .commit _ none c merges _ => c.error.isSome → Silent c.toCall (merges ∘ f.writes) n d g
  | _ => f.writes d.rows = d.rows

/-- A call that fails where nothing marks the state wrote nothing, lifted no minimum and deleted no key package. -/
def FailsQuietly (n : Nat) (d : Device) : Ev → Prop
  | .stage how c writes g | .record how _ _ c writes g _ =>
    reaches d.mls g (vettedBy d.trust how) = true → c.error.isSome ∨ how.returnsBeforeDrop c = true →
      Silent c.toCall writes n d g
  | .clear _ c writes g => d.mls.pendingExternalJoins g = false → c.error.isSome → Silent c.toCall writes n d g
  | .merge c writes _ g => c.error.isSome → Silent c.toCall writes n d g
  | .mergeOwing c writes _ _ _ g =>
    ∀ r, pendingSubmission F d.mls g = .recorded r → r.welcome ≠ [] → c.error.isSome → Silent c.toCall writes n d g
  | .incoming f g =>
    ∀ x epoch, d.mls.groups g = some x → f.epoch = some epoch → f.active = true → epoch ≤ x.epoch → f.Quiet n g d
  | .processWelcome O writes welcomeBytes ratchetTreeBytes =>
    ∀ w, stageWelcome O d.mls.storage welcomeBytes ratchetTreeBytes = .ok w →
      Passes d.mls (fromUtf8Lossy w.groupId) w.epoch →
      (∃ text, (O.intoGroup d.mls.storage w).result = .error text) →
      d.mls.forgottenGroupMinEpochs (fromUtf8Lossy w.groupId) = none ∧
        (O.intoGroup d.mls.storage w).after = d.mls.storage ∧
        writes d.rows = d.rows
  | .createGroup O writes g =>
    ∀ e, (O.newWithGroupId d.mls.storage (asBytes g)).result = .error e →
      (O.newWithGroupId d.mls.storage (asBytes g)).after = d.mls.storage ∧ writes d.rows = d.rows ∨
        "GroupAlreadyExists".toList <:+: e.toList ∧
          ((O.newWithGroupId d.mls.storage (asBytes g)).after (asBytes g)).isSome
  | .joinByExternalCommit O writes bytes =>
    ∀ info, O.mlsMessageIn bytes = some (.groupInfo info) →
      (d.mls.groups (fromUtf8Lossy (O.groupInfoId info))).isSome = false →
      (∃ e, (O.externalCommit d.mls.storage info).result = .error e) ∨ O.joinCommit info = none →
      (O.externalCommit d.mls.storage info).after = d.mls.storage ∧ writes d.rows = d.rows
  | .sendMessage claim _ a _ g =>
      (d.mls.groups g).isSome → claim.isOk = true → a.error.isSome → a.writes d.rows = d.rows
  | .buildKeyPackage m =>
    if m.building.error.isSome || !m.hashRef.isOk then m.building.writes d.rows = d.rows
    else m.storing.error.isSome → m.storing.writes (m.building.writes d.rows) = d.rows
  | .forgetKeyPackages publics => FailsFirst d.rows publics
  | _ => True

/-! ## What a call does to the snapshot -/

def Coherent (d : Device) : Prop := d.dirty = false → ∀ p, d.cachedCbor = some p → p = d.serializeState

/-- The state is marked, or the snapshot is the one before and so is what a save writes if `quiet`. -/
def Told (quiet : Prop) (d d' : Device) : Prop :=
  d'.dirty = true ∨ d'.dirty = d.dirty ∧ d'.cachedCbor = d.cachedCbor ∧ (quiet → d'.serializeState = d.serializeState)

variable {fingerprint : DevicePins.Key → String} {W : Owed.Format} {F : Submission.Format}
variable {O : OpenMls} {how : How} {c : Staging} {e : Ending} {n : Nat} {s : MlsManager} {d d' : Device} {g : String}
variable {writes : Rows → Rows} {x : MlsGroup} {quiet : Prop}

theorem Told.same : Told quiet d d := .inr ⟨rfl, rfl, fun _ => rfl⟩

theorem Told.coherent (h : Told quiet d d') (hquiet : d.dirty = true ∨ quiet) (hd : Coherent d) : Coherent d' := by
  intro hclean p hp
  rcases h with h | ⟨hdirty, hcached, htold⟩
  · rw [h] at hclean
    cases hclean
  · rw [hdirty] at hclean
    rw [hcached] at hp
    rcases hquiet with hmarked | hquiet
    · rw [hmarked] at hclean
      cases hclean
    · rw [htold hquiet]
      exact hd hclean p hp

theorem told_rows (writes : Rows → Rows) (hquiet : quiet → writes d.rows = d.rows) :
    Told quiet d { d with rows := writes d.rows } :=
  .inr ⟨rfl, rfl, fun h => by simp only [Device.serializeState, hquiet h]⟩

theorem serializeState_on {call : Call} (hx : s.groups g = some x)
    (hrow : ∀ y, s.storage x.groupId = some y → call.row.run n y = y)
    (hpending : (s.pendingSubmissions g).isSome → (call.memory.run n x).pendingCommit.isSome = x.pendingCommit.isSome) :
    (call.on n s g x).serializeState = s.serializeState := by
  have hstorage : Function.update s.storage x.groupId ((s.storage x.groupId).map (call.row.run n)) = s.storage := by
    refine Function.update_eq_self_iff.mpr ?_
    cases hy : s.storage x.groupId with
    | none => rfl
    | some y => rw [map_some, hrow y hy]
  have hgroups : ∀ h, (Function.update s.groups g (some (call.memory.run n x)) h).isSome = (s.groups h).isSome := by
    intro h
    by_cases he : h = g
    · rw [he, Function.update_self, hx]
      rfl
    · rw [Function.update_of_ne he]
  have hlive : (call.on n s g x).livePendingSubmissions = s.livePendingSubmissions := by
    funext h
    unfold MlsManager.livePendingSubmissions MlsManager.hasPendingCommit Call.on
    by_cases he : h = g
    · subst he
      dsimp only
      rw [Function.update_self, hx]
      dsimp only
      cases hr : s.pendingSubmissions h with
      | none => cases (call.memory.run n x).pendingCommit.isSome <;> cases x.pendingCommit.isSome <;> rfl
      | some r => rw [hpending (by rw [hr]; rfl)]
    · dsimp only
      rw [Function.update_of_ne he]
  unfold MlsManager.serializeState
  rw [hlive]
  simp only [Call.on, hstorage, hgroups]

theorem told_on {call : Call} (hx : d.mls.groups g = some x) (hquiet : quiet → Silent call writes n d g) :
    Told quiet d { d with mls := call.on n d.mls g x, rows := writes d.rows } := by
  refine .inr ⟨rfl, rfl, fun h => ?_⟩
  obtain ⟨hrows, hrow, hpending⟩ := hquiet h x hx
  have hmls : (call.on n d.mls g x).serializeState = d.mls.serializeState := serializeState_on hx hrow hpending
  simp only [Device.serializeState, hrows, hmls]

/-! ## Staged commits -/

/-- A stage OpenMLS is not asked for changes nothing; one that is asked for, and does not return before its
    drop, marks the state. -/
def Marks (how : How) (c : Staging) (s : MlsManager) (reached : Bool) (t : MlsManager) : Prop :=
  if reached then c.error = none → how.returnsBeforeDrop c = false → t.stateSnapshot.dirty = true else t = s

theorem marks_removal {leafIndices : Except MlsError (List Nat)} {named : String} :
    Marks how c s (namesLeaf leafIndices) (stageRemoval c n s g x leafIndices named).2 := by
  unfold stageRemoval
  rcases leafIndices with _ | (_ | _)
  · rfl
  · rfl
  · intro he _
    rw [he]
    rfl

theorem marks_stageAdd {trust : Trust} {packages : List KeyPackageRead} {expected : Option (List String)}
    (hx : s.groups g = some x)
    (hlate : how.returnsBeforeDrop c = (failed (some c.commit) || failed c.welcome || failed c.groupInfo)) :
    Marks how c s (!(vetAll trust x.tree packages expected).addedIndices.isEmpty)
      (stageAdd c trust n s g packages expected).2 := by
  unfold stageAdd
  rw [hx]
  dsimp only
  cases (vetAll trust x.tree packages expected).addedIndices.isEmpty with
  | true =>
    rw [if_pos rfl]
    split <;> rfl
  | false =>
    rw [if_neg Bool.false_ne_true]
    intro he hdrops
    rw [he]
    dsimp only
    split
    · next hm =>
      rw [hlate, addedMessages_error hm] at hdrops
      cases hdrops
    · rfl

theorem marks_stage (how : How) (c : Staging) (n : Nat) (s : MlsManager) (g : String) :
    Marks how c s (reaches s g how) (how.stage c n s g).2 := by
  cases hx : s.groups g with
  | none =>
    have hunreached : reaches s g how = false := by simp only [reaches, hx]
    rw [hunreached]
    cases how with
    | selfUpdate => simp only [How.stage, stageSelfUpdate, hx]; rfl
    | removeUsers => simp only [How.stage, removeMembersForUsers, hx]; rfl
    | removeDevices => simp only [How.stage, removeMembersForDevices, hx]; rfl
    | addBulk => simp only [How.stage, stageAdd, hx]; rfl
    | add =>
      simp only [How.stage, addMembersBulkWithBase, stageAdd, hx]
      split <;> rfl
    | replace =>
      simp only [How.stage, replaceDeviceWithBase, hx]
      split
      · rfl
      · split <;> rfl
  | some x =>
    simp only [reaches, hx]
    cases how with
    | selfUpdate =>
      simp only [How.stage, stageSelfUpdate, hx]
      cases x.pendingCommit with
      | none =>
        intro he _
        rw [he]
        rfl
      | some m => rfl
    | removeUsers =>
      simp only [How.stage, removeMembersForUsers, hx]
      exact marks_removal
    | removeDevices =>
      simp only [How.stage, removeMembersForDevices, hx]
      exact marks_removal
    | addBulk => exact marks_stageAdd hx rfl
    | add trust packages expected =>
      simp only [How.stage, addMembersBulkWithBase]
      by_cases hlength : expected.length = packages.length
      · rw [if_neg (not_not.mpr hlength), beq_iff_eq.mpr hlength]
        exact marks_stageAdd hx rfl
      · rw [if_pos hlength, beq_false_of_ne hlength]
        rfl
    | replace trust unreadable identity package =>
      simp only [How.stage, replaceDeviceWithBase, hx]
      cases package with
      | error => rfl
      | ok kp =>
        dsimp only
        cases vetValidated trust kp (some identity) with
        | error => rfl
        | ok =>
          dsimp only
          generalize leafIndicesWhere unreadable x.tree (fun found => sameIdentity found identity) = found
          rcases found with _ | (_ | ⟨i, rest⟩)
          · rfl
          · rfl
          · dsimp
            cases ((x.tree.filter fun leaf => (i :: rest).contains leaf.index).any fun leaf => leaf.key != kp.key) with
            | true => rfl
            | false =>
              intro he hdrops
              rw [he]
              cases hw : c.welcome with
              | none => simp [How.returnsBeforeDrop, hw] at hdrops
              | some welcome => rfl

theorem returnsBeforeDrop_vettedBy (trust : Trust) :
    (vettedBy trust how).returnsBeforeDrop c = how.returnsBeforeDrop c := by
  cases how <;> rfl

theorem held_of_reaches (h : reaches s g how = true) : ∃ x, s.groups g = some x := by
  unfold reaches at h
  cases hx : s.groups g with
  | none =>
    rw [hx] at h
    cases h
  | some x => exact ⟨x, rfl⟩

theorem told_stage : Told (FailsQuietly F n d (.stage how c writes g)) d (stage how c writes n g d) := by
  have hmarks := marks_stage (vettedBy d.trust how) c n d.mls g
  unfold stage Device.rowsAfter
  dsimp only
  cases hreach : reaches d.mls g (vettedBy d.trust how) with
  | false =>
    rw [hreach] at hmarks
    have hsame : ((vettedBy d.trust how).stage c n d.mls g).2 = d.mls := hmarks
    rw [hsame]
    exact .same
  | true =>
    rw [hreach] at hmarks
    rw [if_pos rfl]
    by_cases hreturns : c.error.isSome ∨ how.returnsBeforeDrop c = true
    · have hsilent : FailsQuietly F n d (.stage how c writes g) → Silent c.toCall writes n d g :=
        fun h => h hreach hreturns
      have houtcome := stage_outcome (vettedBy d.trust how) c n d.mls g
      generalize (vettedBy d.trust how).stage c n d.mls g = r at houtcome
      cases houtcome with
      | untouched =>
        obtain ⟨x, hx⟩ := held_of_reaches hreach
        exact told_rows _ fun h => (hsilent h x hx).1
      | early e x hx => exact told_on hx hsilent
      | dropped => exact .inl rfl
    · obtain ⟨herror, hdrops⟩ := not_or.mp hreturns
      refine .inl (hmarks (by simpa using herror) ?_)
      rw [returnsBeforeDrop_vettedBy]
      exact Bool.eq_false_iff.mpr hdrops

theorem clear_stays_dirty (h : s.stateSnapshot.dirty = true) :
    (clearPendingCommitFor O e n s g).2.stateSnapshot.dirty = true := by
  unfold clearPendingCommitFor
  split
  · rfl
  · split
    · exact h
    · split
      · exact h
      · rfl

theorem recorded_snapshot (how : How) (clear : Ending) (intent : Bytes) :
    (recorded F O clear n s g intent fun s => how.stage c n s g).2 = (how.stage c n s g).2 ∨
      (recorded F O clear n s g intent fun s => how.stage c n s g).2.stateSnapshot.dirty = true := by
  unfold recorded getEpoch
  cases hx : s.groups g with
  | none =>
    have hmarks := marks_stage how c n s g
    have hunreached : reaches s g how = false := by simp only [reaches, hx]
    rw [hunreached] at hmarks
    exact .inl (Eq.symm hmarks)
  | some x =>
    have houtcome := stage_outcome how c n s g
    dsimp only
    generalize how.stage c n s g = r at houtcome
    cases houtcome with
    | untouched | early => exact .inl rfl
    | dropped r x =>
      cases r with
      | error => exact .inl rfl
      | ok staged =>
        right
        dsimp only
        unfold recordStaged
        dsimp only
        split
        · have hdirty := clear_stays_dirty (O := O) (e := clear) (n := n) (s := dropped (c.on n s g x) g) (g := g) rfl
          split <;> next hr =>
            rw [hr] at hdirty
            exact hdirty
        · rfl

theorem told_record {clear : Ending} {intent : Bytes} (h : record F how O clear c writes intent n g d = some d') :
    Told (FailsQuietly F n d (.stage how c writes g)) d d' := by
  obtain ⟨out, hout, rfl⟩ := map_eq_some_iff.mp h
  obtain rfl := record_eq hout
  rcases recorded_snapshot (F := F) (O := O) (c := c) (n := n) (s := d.mls) (g := g)
    (vettedBy d.trust how) clear intent with hsame | hdirty
  · rw [hsame]
    exact told_stage
  · exact .inl hdirty

theorem told_clear : Told (FailsQuietly F n d (.clear O e writes g)) d (clearPendingCommit O e writes n g d) := by
  unfold clearPendingCommit
  split
  · next hjoin =>
    refine .inl ?_
    simp only [Device.dirty, Owed.clearPendingCommit, hjoin, clearPendingCommitFor]
    rfl
  · next hjoin =>
    have hplain : d.mls.pendingExternalJoins g = false := Bool.eq_false_iff.mpr hjoin
    split
    · exact .same
    · next x hx =>
      simp only [Owed.clearPendingCommit, clearPendingCommitFor, hplain, hx]
      cases herror : e.error with
      | some text => exact told_on hx fun hquiet => hquiet hplain (by rw [herror]; rfl)
      | none => exact .inl rfl

theorem told_merge {summary : Summarised} :
    Told (FailsQuietly F n d (.merge e writes summary g)) d
      (mergePendingCommit fingerprint e writes summary n g d).2 := by
  unfold mergePendingCommit mergePendingCommitFor
  cases hx : d.mls.groups g with
  | none => exact .same
  | some x =>
    cases herror : e.error with
    | some text => exact told_on hx fun hquiet => hquiet (by rw [herror]; rfl)
    | none => exact .inl rfl

/-! ## Owed Welcomes -/

variable {owing : Owing}

theorem dropOwedWelcome_same_or_dirty : dropOwedWelcome owing g = owing ∨
    (dropOwedWelcome owing g).mls.stateSnapshot.dirty = true := by
  unfold dropOwedWelcome
  split
  · exact .inr rfl
  · exact .inl rfl

theorem storeOwedEntries_same_or_dirty (owing : Owing) (entries : List OwedWelcome) :
    storeOwedEntries W owing g entries = owing ∨
      (storeOwedEntries W owing g entries).mls.stateSnapshot.dirty = true := by
  unfold storeOwedEntries
  split
  · exact dropOwedWelcome_same_or_dirty
  · split
    · exact .inl rfl
    · exact .inr rfl

theorem storeOwedEntries_dirty {entries : List OwedWelcome} (h : owing.mls.stateSnapshot.dirty = true) :
    (storeOwedEntries W owing g entries).mls.stateSnapshot.dirty = true := by
  rcases storeOwedEntries_same_or_dirty (W := W) (g := g) owing entries with hsame | hdirty
  · rw [hsame]
    exact h
  · exact hdirty

theorem told_welcomeDelivered {recipient : String} {welcome : Bytes} :
    Told quiet d { d with toOwing := welcomeDelivered W d.toOwing g recipient welcome } := by
  unfold welcomeDelivered
  split
  · exact .same
  · next entries _ =>
    rcases storeOwedEntries_same_or_dirty (W := W) (g := g) d.toOwing
      (entries.filter fun w => !w.recipients.isEmpty) with h | h
    · rw [h]
      exact .same
    · exact .inl h

theorem told_mergeOwing {summary : Summarised} {exported : Except MlsError Bytes} {recipients : List String} :
    Told (FailsQuietly F n d (.mergeOwing e writes summary exported recipients g)) d
      (mergePendingCommitOwing fingerprint W F e writes summary exported recipients n g d) := by
  unfold mergePendingCommitOwing
  split
  · next r hr =>
    split
    · exact .same
    · next hwelcome =>
      have hnonempty : r.welcome ≠ [] := by simpa using hwelcome
      unfold mergePendingCommit mergePendingCommitOwingWelcome mergePendingCommitFor
      simp only [hr, hwelcome]
      cases hx : d.mls.groups g with
      | none => exact .same
      | some x =>
        cases herror : e.error with
        | some text => exact told_on hx fun hquiet => hquiet r hr hnonempty (by rw [herror]; rfl)
        | none =>
          -- the merge marks the state, and storing what is owed takes no mark away
          exact .inl (storeOwedEntries_dirty rfl)
  · exact .same

/-! ## Messages -/

theorem told_incoming {f : Incoming} :
    Told (FailsQuietly F n d (.incoming f g)) d (processIncoming fingerprint f n g d).2 := by
  unfold processIncoming
  split
  · exact .same
  · exact .same
  · next x epoch hx hepoch =>
    split
    · exact .same
    · next hactive =>
      split
      · exact .same
      · next hle =>
        have hquiet : FailsQuietly F n d (.incoming f g) → f.Quiet n g d :=
          fun h => h x epoch hx hepoch (by simpa using hactive) (not_lt.mp hle)
        unfold Incoming.Quiet at hquiet
        dsimp only
        split
        case h_1 hcontent | h_2 hcontent | h_3 hcontent | h_4 hcontent =>
          rw [hcontent] at hquiet
          exact told_rows _ hquiet
        case h_5 | h_6 => exact .inl rfl
        case h_7 sender foreign c merges summary hcontent =>
          rw [hcontent] at hquiet
          cases foreign with
          | some e => exact told_rows _ hquiet
          | none =>
            unfold mergeIncoming mergeStagedCommit
            simp only [hx]
            cases herror : c.error with
            | some text => exact told_on hx fun h => hquiet h (by rw [herror]; rfl)
            | none => exact .inl rfl

theorem told_sendMessage {claim : Except MlsError Unit} {evicted : Bool} {a : Answer} {frame : Except String Bytes} :
    Told (FailsQuietly F n d (.sendMessage claim evicted a frame g)) d (sendMessage claim evicted a frame g d).2 := by
  unfold sendMessage
  cases hx : d.mls.groups g with
  | none => exact .same
  | some x =>
    cases claim with
    | error => exact .same
    | ok =>
      dsimp only
      cases herror : a.error with
      | some text => exact told_rows _ fun hquiet => hquiet (by rw [hx]; rfl) rfl (by rw [herror]; rfl)
      | none => exact .inl rfl

theorem told_skipSendGenerations {frames : List Answer} : Told quiet d (skipSendGenerations frames g d).2 := by
  unfold skipSendGenerations
  split
  · exact .same
  · split
    · exact .same
    · split <;> exact .inl rfl

/-! ## Key packages -/

theorem told_buildKeyPackage {m : Minting} :
    Told (FailsQuietly F n d (.buildKeyPackage m)) d (buildKeyPackage m d).2 := by
  unfold buildKeyPackage Device.answered FailsQuietly
  cases hbuilding : m.building.error with
  | some => exact told_rows _ fun hquiet => by simpa [hbuilding] using hquiet
  | none =>
    cases hhash : m.hashRef with
    | error => exact told_rows _ fun hquiet => by simpa [hhash, Except.isOk, Except.toBool] using hquiet
    | ok =>
      dsimp only
      cases hstoring : m.storing.error with
      | some text =>
        refine told_rows (m.storing.writes ∘ m.building.writes) fun hquiet => ?_
        simpa [hbuilding, hhash, hstoring, Except.isOk, Except.toBool] using hquiet
      | none => exact .inl rfl

theorem told_pruneKeyPackages {expired : Bytes × Bytes → Bool} :
    Told quiet d (pruneKeyPackagesExpiredAt expired d).2 := by
  unfold pruneKeyPackagesExpiredAt
  dsimp only
  split
  · next hnone =>
    have hkept : d.rows.entries.filter (fun row => !expired row) = d.rows.entries := by
      refine filter_eq_self.mpr fun row hrow => ?_
      simpa using filter_eq_nil_iff.mp (isEmpty_iff.mp hnone) row hrow
    rw [hkept]
    exact .same
  · exact .inl rfl

variable {rows : Rows} {publics : List (Option PublicKeyPackage)}

theorem delete_of_not_has {row : Bytes} (h : rows.has row = false) : rows.delete row = rows :=
  JsMap.delete_of_get_none (Option.isNone_iff_eq_none.mp (by simpa [JsMap.has] using h))

theorem forgetEach_of_noneFails (outcome : ForgetOutcome) (h : NoneFails rows publics) :
    ∃ after, (forgetEach outcome rows publics).1 = .ok after ∧ outcome.forgotten ≤ after.forgotten := by
  induction publics generalizing outcome rows with
  | nil => exact ⟨outcome, rfl, le_rfl⟩
  | cons p rest ih =>
    cases p with
    | none => exact ih _ h
    | some p =>
      obtain ⟨hfine, hrest⟩ := h
      obtain ⟨hread, hdelete⟩ := Bool.or_eq_false_iff.mp hfine
      have hread : p.readError = none := by simpa using hread
      rw [forgetEach, hread]
      cases hheld : rows.has p.row with
      | false =>
        rw [delete_of_not_has hheld] at hrest
        exact ih _ hrest
      | true =>
        have hdelete : p.deleteError = none := by simpa [hheld] using hdelete
        rw [hdelete]
        obtain ⟨after, hok, hle⟩ := ih { outcome with forgotten := outcome.forgotten + 1 } hrest
        exact ⟨after, hok, (Nat.le_succ _).trans hle⟩

theorem forgetEach_of_failsFirst (outcome : ForgetOutcome) (h : FailsFirst rows publics) :
    (forgetEach outcome rows publics).2 = rows ∨
      ∃ after, (forgetEach outcome rows publics).1 = .ok after ∧ outcome.forgotten < after.forgotten := by
  induction publics generalizing outcome with
  | nil => exact .inl rfl
  | cons p rest ih =>
    cases p with
    | none => exact ih _ h
    | some p =>
      rw [forgetEach]
      cases hread : p.readError with
      | some => exact .inl rfl
      | none =>
        cases hheld : rows.has p.row with
        | false =>
          refine ih _ ?_
          simpa [FailsFirst, PublicKeyPackage.fails, hread, hheld] using h
        | true =>
          cases hdelete : p.deleteError with
          | some => exact .inl rfl
          | none =>
            right
            refine forgetEach_of_noneFails _ ?_
            simpa [FailsFirst, PublicKeyPackage.fails, hread, hheld, hdelete] using h

theorem told_forgetKeyPackages :
    Told (FailsQuietly F n d (.forgetKeyPackages publics)) d (forgetKeyPackages publics d).2 := by
  have hforget : FailsFirst d.rows publics → _ := forgetEach_of_failsFirst ⟨0, 0, 0⟩
  unfold forgetKeyPackages
  generalize forgetEach ⟨0, 0, 0⟩ d.rows publics = r at hforget
  obtain ⟨_ | outcome, rows⟩ := r
  · refine told_rows (fun _ => rows) fun hquiet => ?_
    rcases hforget hquiet with hsame | ⟨_, hok, -⟩
    · exact hsame
    · cases hok
  · dsimp only
    split
    · exact .inl rfl
    · next hnone =>
      refine told_rows (fun _ => rows) fun hquiet => ?_
      rcases hforget hquiet with hsame | ⟨_, hok, hlt⟩
      · exact hsame
      · cases hok
        exact absurd hlt hnone

/-! ## Groups -/

theorem told_processWelcome {welcomeBytes : Bytes} {ratchetTreeBytes : Option Bytes} :
    Told (FailsQuietly F n d (.processWelcome O writes welcomeBytes ratchetTreeBytes)) d
      (processWelcome fingerprint O writes welcomeBytes ratchetTreeBytes d) := by
  unfold processWelcome
  cases hw : stageWelcome O d.mls.storage welcomeBytes ratchetTreeBytes with
  | error => exact .same
  | ok w =>
    dsimp only
    rcases welcomeGuards_cases d.mls (fromUtf8Lossy w.groupId) w.epoch
      with ⟨hpasses, hguards⟩ | ⟨-, hguards | ⟨m, hguards⟩⟩
    · have hprocessed := processed O d.mls welcomeBytes ratchetTreeBytes
      rw [hguards]
      dsimp only
      generalize d.mls.processWelcome O welcomeBytes ratchetTreeBytes = r at hprocessed
      cases hprocessed with
      | refused e hrefused =>
        rw [hw] at hrefused
        cases hrefused
      | kept v _ hv hnot =>
        obtain rfl : w = v := Except.ok.inj (hw.symm.trans hv)
        exact absurd hpasses hnot
      | failed v text hv _ hresult =>
        refine .inr ⟨rfl, rfl, fun hquiet => ?_⟩
        obtain ⟨hnone, hafter, hrows⟩ := hquiet v hv (by rwa [← Except.ok.inj (hw.symm.trans hv)]) ⟨text, hresult⟩
        have hmin := liftMinEpoch_eq_iff.mpr hnone
        simp only [Device.serializeState, MlsManager.serializeState, hafter, hmin, hrows]
        rfl
      | joined => exact .inl rfl
    · rw [hguards]
      exact .same
    · rw [hguards]
      exact .same

theorem told_createGroup : Told (FailsQuietly F n d (.createGroup O writes g)) d (createGroup O writes g d) := by
  unfold createGroup MlsManager.createGroup FailsQuietly
  dsimp only
  cases hresult : (O.newWithGroupId d.mls.storage (asBytes g)).result with
  | ok x => exact .inl rfl
  | error e =>
    dsimp only
    split
    · split
      · exact .inl rfl
      · next hrow =>
        refine .inr ⟨rfl, rfl, fun hquiet => ?_⟩
        rcases hquiet e rfl with ⟨hafter, hrows⟩ | ⟨-, hsome⟩
        · simp [hafter, hrows]
        · rw [hrow] at hsome
          cases hsome
    · next hother =>
      refine .inr ⟨rfl, rfl, fun hquiet => ?_⟩
      rcases hquiet e rfl with ⟨hafter, hrows⟩ | ⟨hexists, -⟩
      · simp [hafter, hrows]
      · exact absurd hexists hother

theorem told_joinByExternalCommit {bytes : Bytes} :
    Told (FailsQuietly F n d (.joinByExternalCommit O writes bytes)) d (joinByExternalCommit O writes bytes d) := by
  unfold joinByExternalCommit MlsManager.joinByExternalCommit Device.rowsAfter
  cases hmessage : O.mlsMessageIn bytes with
  | none => exact .same
  | some message =>
    cases message with
    | welcome | other => exact .same
    | groupInfo info =>
      dsimp only
      cases hheld : (d.mls.groups (fromUtf8Lossy (O.groupInfoId info))).isSome with
      | true => exact .same
      | false =>
        have hfails : (∃ e, (O.externalCommit d.mls.storage info).result = .error e) ∨ O.joinCommit info = none →
            Told (FailsQuietly F n d (.joinByExternalCommit O writes bytes)) d
              { d with mls := { d.mls with storage := (O.externalCommit d.mls.storage info).after }, rows := writes d.rows } := by
          intro hfailed
          refine .inr ⟨rfl, rfl, fun hquiet => ?_⟩
          obtain ⟨hafter, hrows⟩ := hquiet info hmessage hheld hfailed
          simp [hafter, hrows]
        cases hresult : (O.externalCommit d.mls.storage info).result with
        | error e => exact hfails (.inl ⟨e, hresult⟩)
        | ok x =>
          cases hcommit : O.joinCommit info with
          | none => exact hfails (.inr hcommit)
          | some commit => exact .inl rfl

/-! ## Runs, policies and events -/

theorem told_graineRun {epochFingerprint runId : Except MlsError String} :
    Told quiet d (graineRun epochFingerprint runId g d).2 := by
  unfold graineRun
  split
  · exact .same
  · exact .same
  · split
    · exact .same
    · exact .same
    · exact .inl rfl

theorem told_setAdmissionPolicy {policy : AdmissionPolicy} : Told quiet d (setAdmissionPolicy g policy d) := by
  unfold setAdmissionPolicy
  dsimp only
  split
  · next hsame =>
    rw [Function.update_eq_self_iff.mpr hsame.symm]
    exact .same
  · exact .inl rfl

theorem told_takeDeviceEvents : Told quiet d (takeDeviceEvents d).2 := by
  unfold takeDeviceEvents
  dsimp only
  split
  · next hnone =>
    refine .inr ⟨rfl, rfl, fun _ => ?_⟩
    unfold Device.serializeState
    rw [isEmpty_iff.mp hnone]
    rfl
  · exact .inl rfl

/-! ## Along a run -/

theorem coherent_saveState (hd : Coherent d) (serializes : Bool) :
    Coherent (d.saveState serializes).2 ∧ ∀ p, (d.saveState serializes).1 = some p → p = d.serializeState := by
  unfold Device.saveState
  split
  · next cached hclean hcached => exact ⟨hd, fun p hp => hd hclean p (hcached.trans hp)⟩
  · split
    · exact ⟨fun _ p hp => (some.inj hp).symm, fun p hp => (some.inj hp).symm⟩
    · exact ⟨hd, nofun⟩

theorem dirty_loadOrCreate (held : List String) (expired : Bytes × Bytes → Bool)
    (p : Persisted) : (loadOrCreate held expired p).dirty = true := by
  unfold loadOrCreate pruneKeyPackagesExpiredAt
  dsimp only
  split <;> rfl

theorem told_after {ev : Ev} (h : d.after fingerprint W F n ev = some d') : Told (FailsQuietly F n d ev) d d' := by
  cases ev with
  | record how O clear c writes g intent => exact told_record h
  | save | load => cases h
  | stage => cases h; exact told_stage
  | clear => cases h; exact told_clear
  | merge => cases h; exact told_merge
  | mergeOwing => cases h; exact told_mergeOwing
  | incoming => cases h; exact told_incoming
  | processWelcome => cases h; exact told_processWelcome
  | forgetGroup => cases h; exact .inl rfl
  | createGroup => cases h; exact told_createGroup
  | joinByExternalCommit => cases h; exact told_joinByExternalCommit
  | sendMessage => cases h; exact told_sendMessage
  | skipSendGenerations => cases h; exact told_skipSendGenerations
  | buildKeyPackage => cases h; exact told_buildKeyPackage
  | pruneKeyPackages => cases h; exact told_pruneKeyPackages
  | forgetKeyPackages => cases h; exact told_forgetKeyPackages
  | graineRun => cases h; exact told_graineRun
  | setAdmissionPolicy => cases h; exact told_setAdmissionPolicy
  | takeDeviceEvents => cases h; exact told_takeDeviceEvents
  | welcomeDelivered => cases h; exact told_welcomeDelivered
  | invalidatePersistedSnapshot => cases h; exact .inl rfl

theorem coherent_step {r r' : Run} {ev : Ev} (hr : Coherent r.device)
    (hquiet : r.device.dirty = true ∨ FailsQuietly F r.next r.device ev)
    (hstep : step fingerprint W F r ev = some r') : Coherent r'.device := by
  unfold step at hstep
  split at hstep
  · cases hstep
    exact (coherent_saveState hr _).1
  · obtain ⟨p, -, rfl⟩ := map_eq_some_iff.mp hstep
    intro hclean
    rw [dirty_loadOrCreate] at hclean
    cases hclean
  · obtain ⟨d, hafter, rfl⟩ := map_eq_some_iff.mp hstep
    exact (told_after hafter).coherent hquiet hr

/-- Where every call that fails unmarked wrote nothing, lifted no minimum and deleted no key package, or finds the state
    marked, what a save returns is the serialisation of the device, from the snapshot or built anew. -/
theorem saves_tell_the_state {r : Run} {p : Persisted}
    (h : (machine fingerprint W F).ReachBy (fun r ev => r.device.dirty = true ∨ FailsQuietly F r.next r.device ev) r)
    (serializes : Bool)
    (hsave : (r.device.saveState serializes).1 = some p) : p = r.device.serializeState := by
  have hcoherent : Coherent r.device := by
    refine h.invariant (fun r hr => ?_) fun _ _ _ hr hquiet hstep => coherent_step hr hquiet hstep
    obtain ⟨⟨own, rows, hdevice⟩, -⟩ := hr
    rw [hdevice]
    exact nofun
  exact (coherent_saveState hcoherent serializes).2 p hsave

/-! ## Concrete runs -/

def newDevice : Run := ⟨created ⟨[1], [2], "ada:web"⟩ ⟨[([0], [1])]⟩, [], 0⟩

def minted (row : Bytes) : Minting := ⟨⟨none, id⟩, .ok row, ⟨none, fun rows => rows.set row [1]⟩, .ok [1], 0⟩

/-- The rows of two key packages are minted and `g` forgotten up to epoch 5; after a save, two packages
    are to be forgotten, where reading the row of the first or of the second fails, and a Welcome of
    epoch 6 is or is not stored. -/
def forgottenAfterSave (first second : Option String) (stores : Bool) : List Ev :=
  [ .buildKeyPackage (minted [8]), .buildKeyPackage (minted [9]), .forgetGroup (library true) id "g" 5, .save true
  , .forgetKeyPackages [some ⟨[8], first, none⟩, some ⟨[9], second, none⟩],
    .processWelcome (library stores) id [6] none ]

abbrev concrete : Machine Run Ev := machine (fun _ => "") cborFormat cbor

def ends (first second : Option String)
    (stores : Bool) : Run := (concrete.run newDevice (forgottenAfterSave first second stores)).getD newDevice

theorem newDevice_init : concrete.init newDevice := ⟨⟨_, _, rfl⟩, rfl⟩

theorem reach_ends (first second : Option String) (stores : Bool) : concrete.Reach (ends first second stores) := by
  obtain ⟨r, hr⟩ := isSome_iff_exists.mp
    (show (concrete.run newDevice (forgottenAfterSave first second stores)).isSome from rfl)
  rw [ends, hr]
  exact Machine.reach_of_run _ newDevice_init hr

theorem a_stored_group_is_saved :
    ((ends (some "locked") none true).device.saveState true).1.map (·.storageRows.keys) = some [[0], [8], [9]] ∧
    ∀ p, ((ends (some "locked") none true).device.saveState true).1 = some p →
      p = (ends (some "locked") none true).device.serializeState := by
  refine ⟨by decide, ?_⟩
  have hsaved : concrete.ReachBy (fun r ev => r.device.dirty = true ∨ FailsQuietly cbor r.next r.device ev)
      ((concrete.run newDevice ((forgottenAfterSave (some "locked") none true).take 4)).getD newDevice) :=
    .step (.save true) (.step (.forgetGroup (library true) id "g" 5) (.step (.buildKeyPackage (minted [9]))
      (.step (.buildKeyPackage (minted [8])) (.init newDevice_init) (.inl rfl) rfl) (.inl rfl) rfl) (.inl rfl) rfl)
        (.inl rfl) rfl
  have hreach : concrete.ReachBy (fun r ev => r.device.dirty = true ∨ FailsQuietly cbor r.next r.device ev)
    (ends (some "locked") none true) := by
    refine .step (.processWelcome (library true) id [6] none)
      (.step (.forgetKeyPackages [some ⟨[8], some "locked", none⟩, some ⟨[9], none, none⟩]) hsaved
        (.inr (.inl rfl)) rfl) (.inr ?_) rfl
    rintro w - - ⟨text, htext⟩
    cases htext
  exact fun p => saves_tell_the_state hreach true

/-- The Welcome that could not be stored lifted the minimum, and the save still tells it. -/
theorem a_lifted_minimum_is_saved : ∃ r p, concrete.Reach r ∧ (r.device.saveState true).1 = some p ∧
    p.state.forgottenGroupMinEpochs "g" = some 5 ∧
      r.device.serializeState.state.forgottenGroupMinEpochs "g" = none := by
  have hmin : ((ends (some "locked") none false).device.saveState true).1.map
    (·.state.forgottenGroupMinEpochs "g") = some (some 5) := by decide
  obtain ⟨p, hp, hmin⟩ := map_eq_some_iff.mp hmin
  exact ⟨_, p, reach_ends .., hp, hmin, by decide⟩

/-- The first package is deleted, the second cannot be read, and the save still tells both. -/
theorem a_deleted_package_is_saved : ∃ r p, concrete.Reach r ∧ (r.device.saveState true).1 = some p ∧
    p.storageRows.has [8] = true ∧ r.device.serializeState.storageRows.has [8] = false := by
  have hheld : ((ends none (some "locked") false).device.saveState true).1.map
    (·.storageRows.has [8]) = some true := by decide
  obtain ⟨p, hp, hheld⟩ := map_eq_some_iff.mp hheld
  exact ⟨_, p, reach_ends .., hp, hheld, by decide⟩

end Canari.Mls.Snapshot
