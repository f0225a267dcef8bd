/-
  Canari.Mls.SubmissionRuns — which commit a recorded submission is of, along every run
  (`frontend/mls-core/src/pending_submission.rs`).

  A run is any sequence of stages, plain or recorded and failing at any step, of merges, clears,
  other members' commits, Welcomes, joins, forgets, saves and loads, on any groups. Every stage
  is numbered, and `written` remembers the record each stage wrote. `Pairs` is the invariant: a
  record beside a staged commit, in memory, in the storage or in a saved state, is the one that
  stage wrote.

  - `submission_of_staged_commit`: along every run whose steps keep it, the record reported is the
    one the commit staged now wrote.
  - `an_add_reports_an_earlier_submission`: the run that breaks it.
-/

import Canari.Lib.Cbor
import Canari.Mls.Welcome
import Canari.Mls.PendingSubmission

namespace Canari.Mls.Submission

open Lib Mls.DeviceTrust Mls.State Mls.Welcome List Option

/-! ## Stages of every kind -/

inductive How where
  | selfUpdate
  | removeUsers (unreadable : Option MlsError) (userIds : List String)
  | removeDevices (unreadable : Option MlsError) (deviceIdentities : List String)
  | addBulk (trust : DevicePins.Trust) (packages : List KeyPackageRead)
  | add (trust : DevicePins.Trust) (packages : List KeyPackageRead) (expectedIdentities : List String)
  | replace (trust : DevicePins.Trust) (unreadable : Option MlsError) (identity : String)
      (package : Except String KeyPackage)

def How.stage (how : How) (c : Staging) (n : Nat) (s : MlsManager) (g : String) : Except MlsError Staged × MlsManager :=
  match how with
  | .selfUpdate => stageSelfUpdate c n s g
  | .removeUsers unreadable userIds => removeMembersForUsers c unreadable n s g userIds
  | .removeDevices unreadable deviceIdentities => removeMembersForDevices c unreadable n s g deviceIdentities
  | .addBulk trust packages => stageAdd c trust n s g packages none
  | .add trust packages expectedIdentities => addMembersBulkWithBase c trust n s g packages expectedIdentities
  | .replace trust unreadable identity package => replaceDeviceWithBase c trust unreadable n s g identity package

/-- The recorded form of a stage; a bulk Add without expected identities has none. -/
def How.record (how : How) (F : Format) (O : OpenMls) (clear : Ending) (c : Staging) (n : Nat) (s : MlsManager)
    (g : String) (intent : Bytes) :
    Option (Except MlsError (PendingSubmission × Skipped) × MlsManager) :=
  match how with
  | .selfUpdate => some (stageSelfUpdateRecorded F O clear c n s g intent)
  | .removeUsers unreadable userIds => some (removeMembersForUsersRecorded F O clear c unreadable n s g userIds intent)
  | .removeDevices unreadable deviceIdentities =>
      some (removeMembersForDevicesRecorded F O clear c unreadable n s g deviceIdentities intent)
  | .addBulk .. => none
  | .add trust packages expectedIdentities =>
      some (addMembersRecorded F O clear c trust n s g packages expectedIdentities intent)
  | .replace trust unreadable identity package =>
      some (replaceDeviceRecorded F O clear c trust unreadable n s g identity package intent)

variable {intent : Bytes}

theorem record_eq {how : How} {F : Format} {O : OpenMls} {clear : Ending} {c : Staging} {n : Nat}
    {s : MlsManager} {g : String}
    {r : Except MlsError (PendingSubmission × Skipped) × MlsManager}
    (h : how.record F O clear c n s g intent = some r) :
    r = recorded F O clear n s g intent fun s => how.stage c n s g := by
  cases how <;> cases h <;> rfl

def failed {α : Type} : Option (Except String α) → Bool
  | some (.ok _) => false
  | _ => true

/-- OpenMLS has staged, and the stage still returns before it drops the record left over. -/
def How.returnsBeforeDrop (how : How) (c : Staging) : Bool :=
  match how with
  | .addBulk .. | .add .. => failed (some c.commit) || failed c.welcome || failed c.groupInfo
  | .replace .. => c.welcome.isNone
  | _ => false

def How.leavesRecord (how : How) (c : Staging) : Bool := if c.error.isSome then c.stages else how.returnsBeforeDrop c

inductive StageOutcome (how : How) (c : Staging) (n : Nat) (s : MlsManager)
    (g : String) : Except MlsError Staged × MlsManager → Prop
  | untouched (e : MlsError) : StageOutcome how c n s g (.error e, s)
  | early (e : MlsError) (x : MlsGroup) : s.groups g = some x → (c.error = none → how.returnsBeforeDrop c = true) →
      StageOutcome how c n s g (.error e, c.on n s g x)
  | dropped (r : Except MlsError Staged) (x : MlsGroup) : s.groups g = some x → c.error = none →
      StageOutcome how c n s g (r, dropped (c.on n s g x) g)

variable {F : Format} {O : OpenMls} {how : How} {c : Staging} {d : Ending} {n : Nat} {s t : MlsManager} {g : String}
    {x : MlsGroup}

theorem outcome_stageRemoval {leafIndices : Except MlsError (List Nat)} {named : String} (hx : s.groups g = some x) :
    StageOutcome how c n s g (stageRemoval c n s g x leafIndices named) := by
  unfold stageRemoval
  split
  · exact .untouched _
  · exact .untouched _
  · cases he : c.error with
    | some e => exact .early _ x hx (by rw [he]; nofun)
    | none => exact .dropped _ x hx he

theorem addedMessages_error {v : Vetting} {e : MlsError} (h : addedMessages c g v = .error e) :
    (failed (some c.commit) || failed c.welcome || failed c.groupInfo) = true := by
  unfold addedMessages at h
  cases hc : c.commit with
  | error => rfl
  | ok commit =>
    cases hw : c.welcome with
    | none => rfl
    | some welcome =>
      cases welcome with
      | error => rfl
      | ok welcome =>
        cases hi : c.groupInfo with
        | none => rfl
        | some info =>
          cases info with
          | error => rfl
          | ok info => rw [hc, hw, hi] at h; cases h

theorem outcome_stageAdd {trust : DevicePins.Trust} {packages : List KeyPackageRead} {expected : Option (List String)}
    (hlate : how.returnsBeforeDrop c = (failed (some c.commit) || failed c.welcome || failed c.groupInfo)) :
    StageOutcome how c n s g (stageAdd c trust n s g packages expected) := by
  unfold stageAdd
  cases hx : s.groups g with
  | none => exact .untouched _
  | some x =>
    dsimp only
    split
    · split <;> exact .untouched _
    · cases he : c.error with
      | some e => exact .early _ x hx (by rw [he]; nofun)
      | none =>
        cases hm : addedMessages c g (vetAll trust x.tree packages expected) with
        | error e => exact .early _ x hx fun _ => hlate.trans (addedMessages_error hm)
        | ok staged => exact .dropped _ x hx he

theorem stage_outcome (how : How) (c : Staging) (n : Nat) (s : MlsManager)
    (g : String) : StageOutcome how c n s g (how.stage c n s g) := by
  cases how with
  | selfUpdate =>
    simp only [How.stage, stageSelfUpdate]
    cases hx : s.groups g with
    | none => exact .untouched _
    | some x =>
      dsimp only
      split
      · exact .untouched _
      · cases he : c.error with
        | some e => exact .early _ x hx (by rw [he]; nofun)
        | none => exact .dropped _ x hx he
  | removeUsers unreadable userIds =>
    simp only [How.stage, removeMembersForUsers]
    cases hx : s.groups g with
    | none => exact .untouched _
    | some x => exact outcome_stageRemoval hx
  | removeDevices unreadable deviceIdentities =>
    simp only [How.stage, removeMembersForDevices]
    cases hx : s.groups g with
    | none => exact .untouched _
    | some x => exact outcome_stageRemoval hx
  | addBulk trust packages => exact outcome_stageAdd rfl
  | add trust packages expectedIdentities =>
    simp only [How.stage, addMembersBulkWithBase]
    split
    · exact .untouched _
    · exact outcome_stageAdd rfl
  | replace trust unreadable identity package =>
    simp only [How.stage, replaceDeviceWithBase]
    split
    · exact .untouched _
    · split
      · exact .untouched _
      · cases hx : s.groups g with
        | none => exact .untouched _
        | some x =>
          dsimp only
          split
          · exact .untouched _
          · exact .untouched _
          · split
            · exact .untouched _
            · cases he : c.error with
              | some e => exact .early _ x hx (by rw [he]; nofun)
              | none =>
                cases hw : c.welcome with
                | none => exact .early _ x hx fun _ => by simp [How.returnsBeforeDrop, hw]
                | some welcome => exact .dropped _ x hx he

/-! ## The record beside a staged commit -/

/-- What a saved state says of staged commits and records, with `wrote n b`: stage `n` wrote the record `b`. -/
structure SavedPairs (wrote : Nat → Bytes → Prop) (p : PersistedState) : Prop where
  rowKeyed : ∀ g x, p.storageValues (asBytes g) = some x → x.groupId = asBytes g
  rows : ∀ g b x n, p.pendingSubmissions g = some b → p.storageValues (asBytes g) = some x →
    x.pendingCommit = some n → wrote n b

/-- A record beside a staged commit is the one that stage wrote. -/
structure Pairs (wrote : Nat → Bytes → Prop) (s : MlsManager) : Prop where
  keyed : ∀ g x, s.groups g = some x → x.groupId = asBytes g
  rowKeyed : ∀ g x, s.storage (asBytes g) = some x → x.groupId = asBytes g
  memory : ∀ g b x n, s.pendingSubmissions g = some b → s.groups g = some x → x.pendingCommit = some n → wrote n b
  rows : ∀ g b x n, s.pendingSubmissions g = some b → s.storage (asBytes g) = some x →
    x.pendingCommit = some n → wrote n b
  cached : s.stateSnapshot.dirty = false → ∀ p, s.stateSnapshot.cachedCbor = some p → SavedPairs wrote p

variable {wrote wrote' : Nat → Bytes → Prop}

theorem SavedPairs.mono {p : PersistedState} (h : SavedPairs wrote p)
    (hw : ∀ n b, wrote n b → wrote' n b) : SavedPairs wrote' p :=
  ⟨h.rowKeyed, fun g b x n hb hx hn => hw n b (h.rows g b x n hb hx hn)⟩

theorem Pairs.mono (h : Pairs wrote s) (hw : ∀ n b, wrote n b → wrote' n b) : Pairs wrote' s :=
  ⟨h.keyed, h.rowKeyed, fun g b x n hb hx hn => hw n b (h.memory g b x n hb hx hn),
    fun g b x n hb hx hn => hw n b (h.rows g b x n hb hx hn), fun hd p hp => (h.cached hd p hp).mono hw⟩

theorem asBytes_inj {a b : String} (h : asBytes a = asBytes b) : a = b := by
  rw [← fromUtf8Lossy_asBytes a, h, fromUtf8Lossy_asBytes]

theorem Pairs.congr (h : Pairs wrote s) (hg : t.groups = s.groups) (hs : t.storage = s.storage)
    (hr : t.pendingSubmissions = s.pendingSubmissions) (hk : SnapshotKept s t) : Pairs wrote t := by
  refine ⟨hg ▸ h.keyed, hs ▸ h.rowKeyed, by
    rw [hr, hg]; exact h.memory, by rw [hr, hs]; exact h.rows, fun hd p hp => ?_⟩
  rcases hk with hk | hk
  · rw [hk] at hd; cases hd
  · rw [hk] at hd hp
    exact h.cached hd p hp

theorem Pairs.dirty (h : Pairs wrote s) : Pairs wrote s.markStateDirty := h.congr rfl rfl rfl (.inl rfl)

theorem Pairs.unmark (h : Pairs wrote s) (g : String) :
    Pairs wrote { s with pendingExternalJoins := Function.update s.pendingExternalJoins g false } :=
      h.congr rfl rfl rfl (.inr rfl)

theorem Pairs.frame (h : Pairs wrote s) {id : Bytes} {st : Storage}
    (hf : Frame id s.storage st) : Pairs wrote { s with storage := st } := by
  refine ⟨h.keyed, fun g x hx => ?_, h.memory, fun g b x n hb hx hn => ?_, h.cached⟩
  · by_cases e : asBytes g = id
    · rcases hf.groupId x (e ▸ hx) with hid | hbefore
      · exact hid.trans e.symm
      · exact h.rowKeyed g x (e ▸ hbefore)
    · exact h.rowKeyed g x ((hf.other _ e).symm.trans hx)
  · by_cases e : asBytes g = id
    · obtain ⟨y, hy, hyn⟩ := hf.pending x n (e ▸ hx) hn
      exact h.rows g b y n hb (e ▸ hy) hyn
    · exact h.rows g b x n hb ((hf.other _ e).symm.trans hx) hn

theorem Pairs.withGroup (h : Pairs wrote s) {v : Option MlsGroup} (hid : ∀ x, v = some x → x.groupId = asBytes g)
    (hv : ∀ b x n, s.pendingSubmissions g = some b → v = some x → x.pendingCommit = some n → wrote n b) :
    Pairs wrote { s with groups := Function.update s.groups g v } := by
  refine ⟨fun g' x hx => ?_, h.rowKeyed, fun g' b x n hb hx hn => ?_, h.rows, h.cached⟩
  · by_cases e : g' = g
    · subst e
      exact hid x ((Function.update_self g' v s.groups).symm.trans hx)
    · exact h.keyed g' x ((Function.update_of_ne e v s.groups).symm.trans hx)
  · by_cases e : g' = g
    · subst e
      exact hv b x n hb ((Function.update_self g' v s.groups).symm.trans hx) hn
    · exact h.memory g' b x n hb ((Function.update_of_ne e v s.groups).symm.trans hx) hn

theorem Pairs.drop (h : Pairs wrote s) (g : String) : Pairs wrote (s.dropPendingSubmission g) := by
  unfold MlsManager.dropPendingSubmission
  split
  · refine Pairs.dirty ⟨h.keyed, h.rowKeyed, fun g' b x n hb => ?_, fun g' b x n hb => ?_, h.cached⟩
    · exact h.memory g' b x n (update_none_eq_some_iff.mp hb).2
    · exact h.rows g' b x n (update_none_eq_some_iff.mp hb).2
  · exact h

theorem submissions_drop (s : MlsManager) (g : String) : (s.dropPendingSubmission g).pendingSubmissions g = none := by
  unfold MlsManager.dropPendingSubmission
  split
  · exact Function.update_self ..
  · rename_i h
    simpa using h

/-- A call that leaves no new commit staged, or finds no record left over. -/
theorem Pairs.call (h : Pairs wrote s) {c : Call} (hx : s.groups g = some x)
    (hok : c.stages = false ∨ s.pendingSubmissions g = none) :
    Pairs wrote (c.on n s g x) := by
  have hid : x.groupId = asBytes g := h.keyed g x hx
  -- a commit staged after the call was staged before it, wherever a record is left
  have hkept : ∀ (r : Rewrite c.stages) b y m, s.pendingSubmissions g = some b → (r.run n y).pendingCommit = some m →
    y.pendingCommit = some m := by
    intro r b y m hb hm
    rcases r.pending n y m hm with hy | ⟨hst, -⟩
    · exact hy
    · rcases hok with hno | hno
      · rw [hno] at hst; cases hst
      · rw [hno] at hb; cases hb
  have hmemory : Pairs wrote { s with groups := Function.update s.groups g (some (c.memory.run n x)) } := by
    refine h.withGroup (fun y hy => ?_) fun b y m hb hy hm => ?_
    · cases hy
      exact (c.memory.groupId n x).trans hid
    · cases hy
      exact h.memory g b x m hb hx (hkept c.memory b x m hb hm)
  have hrow : ∀ g' y, Function.update s.storage x.groupId ((s.storage x.groupId).map (c.row.run n))
    (asBytes g') = some y →
      s.storage (asBytes g') = some y ∨ (g' = g ∧ ∃ z, s.storage (asBytes g) = some z ∧ c.row.run n z = y) := by
    intro g' y hy
    by_cases e : asBytes g' = x.groupId
    · obtain rfl := asBytes_inj (e.trans hid)
      rw [e, Function.update_self] at hy
      obtain ⟨z, hz, rfl⟩ := map_eq_some_iff.mp hy
      exact .inr ⟨rfl, z, e ▸ hz, rfl⟩
    · exact .inl ((Function.update_of_ne e ..).symm.trans hy)
  refine ⟨hmemory.keyed, fun g' y hy => ?_, hmemory.memory, fun g' b y m hb hy hm => ?_, h.cached⟩
  · rcases hrow g' y hy with hy | ⟨rfl, z, hz, rfl⟩
    · exact h.rowKeyed g' y hy
    · exact (c.row.groupId n z).trans (h.rowKeyed g' z hz)
  · rcases hrow g' y hy with hy | ⟨rfl, z, hz, rfl⟩
    · exact h.rows g' b y m hb hy hm
    · exact h.rows g' b z m hb hz (hkept c.row b z m hb hm)

theorem dropped_on {c : Call} : dropped (c.on n s g x) g = (c.on n (s.dropPendingSubmission g) g x).markStateDirty := by
  unfold dropped MlsManager.dropPendingSubmission Call.on
  split <;> rfl

theorem Pairs.dropped (h : Pairs wrote s) {c : Call}
    (hx : s.groups g = some x) : Pairs wrote (dropped (c.on n s g x) g) := by
  rw [dropped_on]
  refine ((h.drop g).call (x := x) ?_ (.inr (submissions_drop s g))).dirty
  rw [groups_dropPendingSubmission]
  exact hx

theorem Pairs.forget (h : Pairs wrote s) (O : OpenMls) (g : String) (minEpoch : Nat) : Pairs wrote (s.forgetGroup O g minEpoch) := by
  have hgone := (h.withGroup (g := g) (v := none) nofun nofun).drop g
  have hminimum : ∀ m : MlsManager, Pairs wrote m → Pairs wrote
      (if 0 < minEpoch then { m with forgottenGroupMinEpochs := Function.update m.forgottenGroupMinEpochs g (some minEpoch) } else m) := by
    intro m hm
    split
    · exact hm.congr rfl rfl rfl (.inr rfl)
    · exact hm
  have hdelete : ∀ m : MlsManager, Pairs wrote m → Pairs wrote (m.deleteGroupFromStorage O g) := by
    intro m hm
    unfold MlsManager.deleteGroupFromStorage
    split
    · exact hm
    · exact hm.frame (O.delete m.storage (asBytes g)).2
  exact (hdelete _ (hminimum _ (hgone.unmark g))).dirty

/-! ## What each operation keeps -/

theorem pairs_clear (h : Pairs wrote s) : Pairs wrote (clearPendingCommitFor O d n s g).2 := by
  unfold clearPendingCommitFor
  split
  · exact (h.unmark g).forget O g 0
  · split
    · exact h
    · rename_i x hx
      split
      · exact h.call hx (.inl d.stagesNone)
      · exact h.dropped hx

theorem pairs_merge (h : Pairs wrote s) : Pairs wrote (mergePendingCommitFor d n s g).2 := by
  unfold mergePendingCommitFor
  split
  · exact h
  · rename_i x hx
    have hcall := h.call (n := n) hx (.inl d.stagesNone)
    split
    · exact hcall
    · exact ((hcall.unmark g).drop g).dirty

theorem pairs_incoming (h : Pairs wrote s) : Pairs wrote (mergeStagedCommit d n s g).2 := by
  unfold mergeStagedCommit
  split
  · exact h
  · rename_i x hx
    have hcall := h.call (n := n) hx (.inl d.stagesNone)
    split
    · exact hcall
    · exact hcall.dirty

theorem pairs_stage (h : Pairs wrote s) (hok : how.leavesRecord c = false ∨ s.pendingSubmissions g = none) :
    Pairs wrote (how.stage c n s g).2 := by
  have hout := stage_outcome how c n s g
  generalize how.stage c n s g = r at hout ⊢
  cases hout with
  | untouched => exact h
  | early e x hx hlate =>
    refine h.call hx (hok.imp_left fun hno => ?_)
    unfold How.leavesRecord at hno
    split at hno
    · exact hno
    · rename_i hnone
      rw [hlate (by simpa using hnone)] at hno
      cases hno
  | dropped r x hx he => exact h.dropped hx

/-- A record is written beside the commit its call staged, in memory and in the row. -/
theorem pairs_recordStaged (h : Pairs wrote s) (hmemory : ∀ y, s.groups g = some y → y.pendingCommit = some n)
    (hrow : ∀ y, s.storage (asBytes g) = some y → y.pendingCommit = some n) {baseEpoch : Nat} {staged : Staged}
    (hmono : ∀ n b, wrote n b → wrote' n b)
    (hnew : ∀ record skipped b, (recordStaged F O d n s g intent baseEpoch staged).1 = .ok (record, skipped) →
      F.intoWriter record = .ok b → wrote' n b) :
    Pairs wrote' (recordStaged F O d n s g intent baseEpoch staged).2 := by
  unfold recordStaged at hnew ⊢
  dsimp only at hnew ⊢
  split
  · have hclear := (pairs_clear (O := O) (d := d) (n := n) (g := g) h).mono hmono
    split
    · rename_i hc; rw [hc] at hclear; exact hclear
    · rename_i hc; rw [hc] at hclear; exact hclear
  · rename_i bytes hb
    rw [hb] at hnew
    have hwrote : wrote' n bytes := hnew _ _ bytes rfl hb
    have hm := h.mono hmono
    refine Pairs.dirty ⟨hm.keyed, hm.rowKeyed, fun g' b y m hb' hy hn => ?_, fun g' b y m hb' hy hn => ?_, hm.cached⟩
    · rcases update_eq_some_iff.mp hb' with ⟨rfl, rfl⟩ | ⟨_, hb'⟩
      · obtain rfl : n = m := some.inj ((hmemory y hy).symm.trans hn)
        exact hwrote
      · exact hm.memory g' b y m hb' hy hn
    · rcases update_eq_some_iff.mp hb' with ⟨rfl, rfl⟩ | ⟨_, hb'⟩
      · obtain rfl : n = m := some.inj ((hrow y hy).symm.trans hn)
        exact hwrote
      · exact hm.rows g' b y m hb' hy hn

theorem recorded_cases (F : Format) (O : OpenMls) (d : Ending) (n : Nat) (s : MlsManager) (g : String) (intent : Bytes)
    (stage : MlsManager → Except MlsError Staged × MlsManager) :
    (∃ e, recorded F O d n s g intent stage = (.error e, s)) ∨
    (∃ e, (stage s).1 = .error e ∧ recorded F O d n s g intent stage = (.error e, (stage s).2)) ∨
    ∃ baseEpoch staged, (stage s).1 = .ok staged ∧
      recorded F O d n s g intent stage = recordStaged F O d n (stage s).2 g intent baseEpoch staged := by
  unfold recorded
  cases getEpoch s g with
  | error e => exact .inl ⟨e, rfl⟩
  | ok baseEpoch =>
    rcases stage s with ⟨r, t⟩
    cases r with
    | error e => exact .inr (.inl ⟨e, rfl, rfl⟩)
    | ok staged => exact .inr (.inr ⟨baseEpoch, staged, rfl, rfl⟩)

theorem groups_on {c : Call} : (c.on n s g x).markStateDirty.groups g = some (c.memory.run n x) :=
    Function.update_self ..

theorem storage_on {c : Call} : (c.on n s g x).markStateDirty.storage x.groupId = (s.storage x.groupId).map
    (c.row.run n) :=
  Function.update_self ..

theorem stage_pending (h : Pairs wrote s) {staged : Staged} (hres : (how.stage c n s g).1 = .ok staged) :
    (∀ y, (how.stage c n s g).2.groups g = some y → y.pendingCommit = some n) ∧
    ∀ y, (how.stage c n s g).2.storage (asBytes g) = some y → y.pendingCommit = some n := by
  have hout := stage_outcome how c n s g
  generalize how.stage c n s g = r at hout hres ⊢
  cases hout with
  | untouched | early => cases hres
  | dropped r x hx he =>
    rw [dropped_on]
    refine ⟨fun y hy => ?_, fun y hy => ?_⟩
    · obtain rfl := some.inj ((groups_on).symm.trans hy)
      exact (c.staged he n x).1
    · rw [← h.keyed g x hx, storage_on] at hy
      obtain ⟨z, -, rfl⟩ := map_eq_some_iff.mp hy
      exact (c.staged he n z).2

theorem pairs_recorded (h : Pairs wrote s) (hok : how.leavesRecord c = false ∨ s.pendingSubmissions g = none)
    (hmono : ∀ n b, wrote n b → wrote' n b)
    (hnew : ∀ record skipped b, (recorded F O d n s g intent fun s => how.stage c n s g).1 = .ok (record, skipped) →
      F.intoWriter record = .ok b → wrote' n b) :
    Pairs wrote' (recorded F O d n s g intent fun s => how.stage c n s g).2 := by
  have hstage := pairs_stage (n := n) h hok
  rcases recorded_cases F O d n s g intent fun s =>
    how.stage c n s g with ⟨e, hr⟩ | ⟨e, -, hr⟩ | ⟨baseEpoch, staged, hres, hr⟩
  · rw [hr]; exact h.mono hmono
  · rw [hr]; exact hstage.mono hmono
  · obtain ⟨hmemory, hrow⟩ := stage_pending h hres
    rw [hr] at hnew ⊢
    exact pairs_recordStaged hstage hmemory hrow hmono hnew

theorem pairs_processWelcome {welcomeBytes : Bytes} {ratchetTreeBytes : Option Bytes} (h : Pairs wrote s)
    (hid : ∀ w, stageWelcome O s.storage welcomeBytes ratchetTreeBytes = .ok w →
    w.groupId = asBytes (fromUtf8Lossy w.groupId)) :
    Pairs wrote (s.processWelcome O welcomeBytes ratchetTreeBytes).2 := by
  have hp := processed O s welcomeBytes ratchetTreeBytes
  generalize s.processWelcome O welcomeBytes ratchetTreeBytes = r at hp ⊢
  cases hp with
  | refused | kept => exact h
  | failed w text _ _ _ => exact (h.frame (O.intoGroup s.storage w).frame).congr rfl rfl rfl (.inr rfl)
  | joined w x hw _ hr =>
    have hfresh := (O.intoGroup s.storage w).fresh x hr
    refine Pairs.congr ((h.frame (O.intoGroup s.storage w).frame).withGroup (g := fromUtf8Lossy w.groupId) (v :=
      some x) ?_ ?_) rfl rfl rfl (.inl rfl)
    · rintro y ⟨⟩
      exact hfresh.groupId.trans (hid w hw)
    · rintro b y n - ⟨⟩ hn
      rw [hfresh.pending] at hn
      cases hn

theorem pairs_createGroup (h : Pairs wrote s) : Pairs wrote (s.createGroup O g).2 := by
  have hframe := h.frame (O.newWithGroupId s.storage (asBytes g)).frame
  unfold MlsManager.createGroup
  dsimp only
  split
  · rename_i x hr
    have hfresh := (O.newWithGroupId s.storage (asBytes g)).fresh x hr
    refine (hframe.withGroup (g := g) (v := some x) ?_ ?_).dirty
    · rintro y ⟨⟩
      exact hfresh.groupId
    · rintro b y n - ⟨⟩ hn
      rw [hfresh.pending] at hn
      cases hn
  · split
    · split
      · rename_i recovered hrow
        -- what is put back in memory is the row, with the commit staged in it
        refine (hframe.withGroup (g := g) (v := some recovered) ?_ ?_).dirty
        · rintro y ⟨⟩
          exact hframe.rowKeyed g _ hrow
        · rintro b y n hb ⟨⟩ hn
          exact hframe.rows g b _ n hb hrow hn
      · exact hframe
    · exact hframe

theorem pairs_joinByExternalCommit {bytes : Bytes} (h : Pairs wrote s)
    (hid : ∀ info, O.mlsMessageIn bytes = some (.groupInfo info) →
    O.groupInfoId info = asBytes (fromUtf8Lossy (O.groupInfoId info))) :
    Pairs wrote (s.joinByExternalCommit O bytes).2 := by
  unfold MlsManager.joinByExternalCommit
  dsimp only
  split
  · rename_i info hinfo
    have hframe := h.frame (O.externalCommit s.storage info).frame
    split
    · exact h
    · split
      · exact hframe
      · rename_i x hr
        have hfresh := (O.externalCommit s.storage info).fresh x hr
        split
        · exact hframe
        · refine Pairs.congr (hframe.withGroup (g := fromUtf8Lossy x.groupId) (v :=
            some x) ?_ ?_) rfl rfl rfl (.inl rfl)
          · rintro y ⟨⟩
            rw [hfresh.groupId]
            exact hid info hinfo
          · rintro b y n - ⟨⟩ hn
            rw [hfresh.pending] at hn
            cases hn
  · exact h

theorem savedPairs_serializeState (h : Pairs wrote s) : SavedPairs wrote s.serializeState := by
  refine ⟨h.rowKeyed, fun g b x n hb hx hn => h.rows g b x n ?_ hx hn⟩
  simp only [MlsManager.serializeState, MlsManager.livePendingSubmissions] at hb
  split at hb
  · exact hb
  · cases hb

theorem pairs_load {p : PersistedState} (h : SavedPairs wrote p) : Pairs wrote (load p) := by
  have hrow : ∀ g x, (load p).groups g = some x → p.storageValues (asBytes g) = some x := by
    intro g x hx
    simp only [load] at hx
    split at hx
    · exact hx
    · cases hx
  exact ⟨fun g x hx => h.rowKeyed g x (hrow g x hx), h.rowKeyed, fun g b x n hb hx => h.rows g b x n hb (hrow g x hx),
    h.rows, fun h => by cases h⟩

/-! ## Runs -/

structure Run where
  manager : MlsManager
  saves : List PersistedState
  next : Nat
  written : Nat → Option PendingSubmission

inductive Ev where
  | stage (how : How) (c : Staging) (g : String)
  | record (how : How) (O : OpenMls) (clear : Ending) (c : Staging) (g : String) (intent : Bytes)
  | clear (O : OpenMls) (c : Ending) (g : String)
  | merge (c : Ending) (g : String)
  | incoming (c : Ending) (g : String)
  | processWelcome (O : OpenMls) (welcomeBytes : Bytes) (ratchetTreeBytes : Option Bytes)
  | forgetGroup (O : OpenMls) (g : String) (minEpoch : Nat)
  | createGroup (O : OpenMls) (g : String)
  | joinByExternalCommit (O : OpenMls) (groupInfoBytes : Bytes)
  | save (serializes : Bool)
  | load (i : Nat)

def Run.wroteBy (r : Run) : Except MlsError (PendingSubmission × Skipped) → Nat → Option PendingSubmission
  | .ok (record, _) => Function.update r.written r.next (some record)
  | .error _ => r.written

def step (F : Format) (r : Run) : Ev → Option Run
  | .stage how c g => some { r with manager := (how.stage c r.next r.manager g).2, next := r.next + 1 }
  | .record how O clear c g intent =>
    (how.record F O clear c r.next r.manager g intent).map fun out =>
      { r with manager := out.2, next := r.next + 1, written := r.wroteBy out.1 }
  | .clear O c g => some { r with manager := (clearPendingCommitFor O c r.next r.manager g).2 }
  | .merge c g => some { r with manager := (mergePendingCommitFor c r.next r.manager g).2 }
  | .incoming c g => some { r with manager := (mergeStagedCommit c r.next r.manager g).2 }
  | .processWelcome O welcomeBytes ratchetTreeBytes =>
      some { r with manager := (r.manager.processWelcome O welcomeBytes ratchetTreeBytes).2 }
  | .forgetGroup O g minEpoch => some { r with manager := r.manager.forgetGroup O g minEpoch }
  | .createGroup O g => some { r with manager := (r.manager.createGroup O g).2 }
  | .joinByExternalCommit O groupInfoBytes =>
      some { r with manager := (r.manager.joinByExternalCommit O groupInfoBytes).2 }
  | .save serializes =>
    some { r with
      manager := (r.manager.saveState serializes).2
      saves := r.saves ++ (r.manager.saveState serializes).1.toList }
  | .load i => r.saves[i]?.map fun p => { r with manager := load p }

def machine (F : Format) : Machine Run Ev where
  init := fun r => r.manager = ⟨fun _ => none, fun _ => none, fun _ => none, fun _ => none, fun _ => false,
    ⟨true, none⟩⟩ ∧
    r.saves = [] ∧ r.written = fun _ => none
  step := step F

/-- What the code needs of a step: a stage that leaves its commit staged before its drop finds no record left
    over, and a group is installed under an id that is the UTF-8 text it reads as. -/
def Paired (r : Run) : Ev → Prop
  | .stage how c g | .record how _ _ c g _ => how.leavesRecord c = false ∨ r.manager.pendingSubmissions g = none
  | .processWelcome O welcomeBytes ratchetTreeBytes =>
    ∀ w, stageWelcome O r.manager.storage welcomeBytes ratchetTreeBytes = .ok w →
      w.groupId = asBytes (fromUtf8Lossy w.groupId)
  | .joinByExternalCommit O bytes =>
    ∀ info, O.mlsMessageIn bytes = some (.groupInfo info) →
      O.groupInfoId info = asBytes (fromUtf8Lossy (O.groupInfoId info))
  | _ => True

/-- Stage `n` wrote the record these bytes encode. -/
def Wrote (F : Format) (r : Run) (n : Nat)
    (bytes : Bytes) : Prop := ∃ record, r.written n = some record ∧ F.intoWriter record = .ok bytes

structure Inv (F : Format) (r : Run) : Prop where
  pairs : Pairs (Wrote F r) r.manager
  saved : ∀ p ∈ r.saves, SavedPairs (Wrote F r) p
  fresh : ∀ n record, r.written n = some record → n < r.next

variable {r r' : Run}

/-- A step that writes no record. -/
theorem Inv.manager (h : Inv F r) {m : MlsManager} (hm : Pairs (Wrote F r) m) {next : Nat} (hn : r.next ≤ next) :
    Inv F { r with manager := m, next := next } :=
  ⟨hm, h.saved, fun n record hw => (h.fresh n record hw).trans_le hn⟩

theorem wroteBy_some {out : Except MlsError (PendingSubmission × Skipped)} {record : PendingSubmission}
    (h : r.wroteBy out n = some record) : n = r.next ∨ r.written n = some record := by
  rcases out with _ | ⟨_, _⟩
  · exact .inr h
  · rcases update_eq_some_iff.mp h with ⟨rfl, -⟩ | ⟨-, hw⟩
    · exact .inl rfl
    · exact .inr hw

theorem Inv.record (h : Inv F r) {clear : Ending} {out : Except MlsError (PendingSubmission × Skipped) × MlsManager}
    (hout : how.record F O clear c r.next r.manager g intent = some out)
    (hok : how.leavesRecord c = false ∨ r.manager.pendingSubmissions g = none) :
    Inv F { r with manager := out.2, next := r.next + 1, written := r.wroteBy out.1 } := by
  have hmono : ∀ n b, Wrote F r n b →
    Wrote F { r with manager := out.2, next := r.next + 1, written := r.wroteBy out.1 } n b := by
    rintro n b ⟨record, hw, hb⟩
    refine ⟨record, ?_, hb⟩
    have hne : n ≠ r.next := (h.fresh n record hw).ne
    rcases out with ⟨_ | ⟨_, _⟩, _⟩
    · exact hw
    · exact (Function.update_of_ne hne ..).trans hw
  obtain rfl := record_eq hout
  refine ⟨pairs_recorded h.pairs hok hmono fun record skipped b hr hb => ?_, fun p hp => (h.saved p hp).mono hmono,
    fun n record hw => ?_⟩
  · refine ⟨record, ?_, hb⟩
    rw [hr]
    exact Function.update_self ..
  · rcases wroteBy_some hw with rfl | hw
    · exact Nat.lt_succ_self _
    · exact (h.fresh n record hw).trans (Nat.lt_succ_self _)

theorem inv_save (h : Inv F r) (serializes : Bool) :
    Inv F { r with manager := (r.manager.saveState serializes).2, saves :=
      r.saves ++ (r.manager.saveState serializes).1.toList } := by
  rcases saveState_cases r.manager serializes with hs | ⟨p, hd, hc, hs⟩ | hs
  · rw [hs]
    exact ⟨h.pairs, by simpa using h.saved, h.fresh⟩
  · rw [hs]
    refine ⟨h.pairs, fun q hq => ?_, h.fresh⟩
    rcases mem_append.mp hq with hq | hq
    · exact h.saved q hq
    · obtain rfl : q = p := by simpa using hq
      exact h.pairs.cached hd q hc
  · rw [hs]
    have hnow := savedPairs_serializeState h.pairs
    refine ⟨⟨h.pairs.keyed, h.pairs.rowKeyed, h.pairs.memory, h.pairs.rows, fun _ q hq => ?_⟩, fun q hq => ?_, h.fresh⟩
    · obtain rfl : r.manager.serializeState = q := some.inj hq
      exact hnow
    · rcases mem_append.mp hq with hq | hq
      · exact h.saved q hq
      · obtain rfl : q = r.manager.serializeState := by simpa using hq
        exact hnow

theorem inv_step {ev : Ev} (h : Inv F r) (hk : Paired r ev) (hstep : step F r ev = some r') : Inv F r' := by
  cases ev with
  | stage how c g => cases hstep; exact h.manager (pairs_stage h.pairs hk) (Nat.le_succ _)
  | record how O clear c g intent =>
    obtain ⟨out, hout, hr⟩ := map_eq_some_iff.mp hstep
    cases hr
    exact h.record hout hk
  | clear O c g => cases hstep; exact h.manager (pairs_clear h.pairs) le_rfl
  | merge c g => cases hstep; exact h.manager (pairs_merge h.pairs) le_rfl
  | incoming c g => cases hstep; exact h.manager (pairs_incoming h.pairs) le_rfl
  | processWelcome O welcomeBytes ratchetTreeBytes =>
      cases hstep; exact h.manager (pairs_processWelcome h.pairs hk) le_rfl
  | forgetGroup O g minEpoch => cases hstep; exact h.manager (h.pairs.forget O g minEpoch) le_rfl
  | createGroup O g => cases hstep; exact h.manager (pairs_createGroup h.pairs) le_rfl
  | joinByExternalCommit O bytes => cases hstep; exact h.manager (pairs_joinByExternalCommit h.pairs hk) le_rfl
  | save serializes => cases hstep; exact inv_save h serializes
  | load i =>
    obtain ⟨p, hp, hr⟩ := map_eq_some_iff.mp hstep
    cases hr
    exact h.manager (pairs_load (h.saved p (mem_of_getElem? hp))) le_rfl

theorem reachBy_inv (h : (machine F).ReachBy Paired r) : Inv F r := by
  refine Machine.ReachBy.invariant (I := Inv F) ?_ (fun _ _ _ hi hk hs => inv_step hi hk hs) h
  rintro r ⟨hm, hsaves, hw⟩
  refine ⟨?_, by simp [hsaves], fun n record hn => ?_⟩
  · rw [hm]
    exact ⟨nofun, nofun, nofun, nofun, nofun⟩
  · rw [hw] at hn
    cases hn

/-- The submission reported for a group is the one the commit staged in it now wrote. -/
theorem submission_of_staged_commit (F : Format) (r : Run) (h : (machine F).ReachBy Paired r) (g : String)
    (record : PendingSubmission)
    (hread : pendingSubmission F r.manager g = .recorded record) :
    ∃ x n, r.manager.groups g = some x ∧ x.pendingCommit = some n ∧ r.written n = some record := by
  unfold pendingSubmission MlsManager.hasPendingCommit at hread
  cases hx : r.manager.groups g with
  | none => rw [hx] at hread; cases hread
  | some x =>
    rw [hx] at hread
    cases hn : x.pendingCommit with
    | none => simp [hn] at hread
    | some n =>
      simp only [hn, isSome_some] at hread
      split at hread
      · cases hread
      · rename_i bytes hb
        obtain ⟨written, hw, hbytes⟩ := (reachBy_inv h).pairs.memory g bytes x n hb hx hn
        rw [F.reads written bytes hbytes] at hread
        cases hread
        exact ⟨x, n, rfl, hn, hw⟩

/-! ## The record as CBOR -/

def fieldName (name : String) : Bytes := Cbor.textString (asBytes name)

def encodeRecord (r : PendingSubmission) : Bytes :=
  Cbor.head 5 6 ++
  (fieldName "intent" ++ (Cbor.byteString r.intent ++
  (fieldName "base_epoch" ++ (Cbor.uint r.baseEpoch ++
  (fieldName "commit" ++ (Cbor.byteString r.commit ++
  (fieldName "group_info" ++ (Cbor.byteString r.groupInfo ++
  (fieldName "welcome" ++ (Cbor.byteString r.welcome ++
  (fieldName "added_indices" ++ (Cbor.uintArray r.addedIndices ++ []))))))))))))

def decodeRecord (bytes : Bytes) : Option PendingSubmission := do
  let bytes ← Cbor.expect (Cbor.head 5 6) bytes
  let (intent, bytes) ← (Cbor.expect (fieldName "intent") bytes).bind Cbor.readByteString
  let (baseEpoch, bytes) ← (Cbor.expect (fieldName "base_epoch") bytes).bind Cbor.readUint
  let (commit, bytes) ← (Cbor.expect (fieldName "commit") bytes).bind Cbor.readByteString
  let (groupInfo, bytes) ← (Cbor.expect (fieldName "group_info") bytes).bind Cbor.readByteString
  let (welcome, bytes) ← (Cbor.expect (fieldName "welcome") bytes).bind Cbor.readByteString
  let (addedIndices, _) ← (Cbor.expect (fieldName "added_indices") bytes).bind Cbor.readUintArray
  return ⟨intent, baseEpoch, commit, groupInfo, welcome, addedIndices⟩

def fits (r : PendingSubmission) : Bool :=
  [r.intent.length, r.baseEpoch, r.commit.length, r.groupInfo.length, r.welcome.length, r.addedIndices.length].all
    (· < 2 ^ 64) &&
    r.addedIndices.all (· < 2 ^ 64)

theorem decodeRecord_encodeRecord {r : PendingSubmission}
    (h : fits r = true) : decodeRecord (encodeRecord r) = some r := by
  simp only [fits, all_cons, all_nil, Bool.and_eq_true, decide_eq_true_eq, List.all_eq_true] at h
  obtain ⟨⟨hi, he, hc, hg, hw, hl, -⟩, ha⟩ := h
  simp only [decodeRecord, encodeRecord, Cbor.expect_append, Cbor.readByteString_byteString hi, Cbor.readUint_uint he,
    Cbor.readByteString_byteString hc, Cbor.readByteString_byteString hg, Cbor.readByteString_byteString hw,
    Cbor.readUintArray_uintArray hl ha, bind_some, bind, pure]

def cbor : Format where
  intoWriter := fun r => if fits r then .ok (encodeRecord r) else .error "out of range"
  fromReader := fun bytes => (decodeRecord bytes).elim (.error "invalid record") .ok
  reads := by
    intro record bytes h
    split at h
    · rename_i hf
      cases h
      rw [decodeRecord_encodeRecord hf]
      rfl
    · cases h

/-! ## Concrete runs -/

/-- The group with its commit of number `n` staged, or with none. -/
def withPending (pending : Nat → Option Nat) (stages : Bool)
    (h : ∀ n m, pending n = some m → stages = true ∧ m = n) : Rewrite stages where
  run := fun n x => { x with pendingCommit := pending n }
  groupId := fun _ _ => rfl
  pending := fun n _ m hm => .inr (h n m hm)

/-- OpenMLS stages the commit; `groupInfo` is the base it built with it. -/
def staging (commit : Bytes) (welcome : Option (Except String Bytes))
    (groupInfo : Option (Except String Bytes)) : Staging where
  error := none
  stages := true
  memory := withPending some true fun _ _ h => ⟨rfl, (some.inj h).symm⟩
  row := withPending some true fun _ _ h => ⟨rfl, (some.inj h).symm⟩
  staged := fun _ _ _ => ⟨rfl, rfl⟩
  commit := .ok commit
  welcome := welcome
  groupInfo := groupInfo

def ending : Ending where
  error := none
  stages := false
  memory := withPending (fun _ => none) false nofun
  row := withPending (fun _ => none) false nofun
  stagesNone := rfl
  ended := fun _ _ _ => ⟨rfl, rfl⟩

def noPins : DevicePins.Trust := ⟨∅, [], [], false, [], []⟩

def device : Run := ⟨created.manager, [], 0, fun _ => none⟩

theorem device_init : (machine cbor).init device := ⟨rfl, rfl, rfl⟩

/-- A refresh is staged and recorded, another member's commit wins, and this device adds somebody. -/
def refreshOvertaken (groupInfo : Option (Except String Bytes)) : List Ev :=
  [ .createGroup (library true) "g"
  , .record .selfUpdate (library true) ending (staging [1] none (some (.ok [2]))) "g" [3]
  , .incoming ending "g"
  , .record (.add noPins [.ok ⟨some "ada:phone", [7]⟩] ["ada:phone"]) (library true) ending
    (staging [4] (some (.ok [5])) groupInfo) "g" [6] ]

def overtaken (groupInfo : Option (Except String Bytes)) : Run :=
    ((machine cbor).run device (refreshOvertaken groupInfo)).getD device

/-- OpenMLS builds no base for the Add: it returns with its commit staged, and the refresh is reported for it. -/
theorem an_add_reports_an_earlier_submission :
    (machine cbor).Reach (overtaken none) ∧
    ((overtaken none).manager.groups "g").bind (·.pendingCommit) = some 1 ∧
    (overtaken none).written 1 = none ∧
    pendingSubmission cbor (overtaken none).manager "g" = .recorded ⟨[3], 0, [1], [2], [], []⟩ := by
  obtain ⟨r, hr⟩ := isSome_iff_exists.mp (show ((machine cbor).run device (refreshOvertaken none)).isSome by decide)
  refine ⟨?_, by decide, by decide, by decide⟩
  rw [overtaken, hr]
  exact Machine.reach_of_run (refreshOvertaken none) device_init hr

/-- With its base the Add drops that record and reports its own. -/
theorem an_add_reports_its_own_submission :
    (machine cbor).ReachBy Paired (overtaken (some (.ok [8]))) ∧
    pendingSubmission cbor (overtaken (some (.ok [8]))).manager "g" = .recorded ⟨[6], 0, [4], [8], [5], [0]⟩ ∧
    ∃ x n, (overtaken (some (.ok [8]))).manager.groups "g" = some x ∧ x.pendingCommit = some n ∧
      (overtaken (some (.ok [8]))).written n = some ⟨[6], 0, [4], [8], [5], [0]⟩ := by
  have hread : pendingSubmission cbor (overtaken (some (.ok [8]))).manager "g" = .recorded ⟨[6], 0, [4], [8], [5],
    [0]⟩ := by decide
  have hpaired : ∀ e ∈ refreshOvertaken (some (.ok [8])), ∀ r, Paired r e := by
    intro e he r
    simp only [refreshOvertaken, mem_cons, not_mem_nil, or_false] at he
    rcases he with rfl | rfl | rfl | rfl
    · trivial
    · exact .inl rfl
    · trivial
    · exact .inl rfl
  obtain ⟨r, hr⟩ := isSome_iff_exists.mp
    (show ((machine cbor).run device (refreshOvertaken (some (.ok [8])))).isSome by decide)
  have hreach : (machine cbor).ReachBy Paired (overtaken (some (.ok [8]))) := by
    rw [overtaken, hr]
    exact Machine.reachBy_of_all _ hpaired (.init device_init) hr
  exact ⟨hreach, hread, submission_of_staged_commit cbor _ hreach "g" _ hread⟩

end Canari.Mls.Submission
