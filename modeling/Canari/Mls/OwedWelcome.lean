/-
  Canari.Mls.OwedWelcome — the Welcome an Add still owes to the devices it admits
  (`frontend/mls-core/src/owed_welcome.rs`; `group.rs`: `forget_group`; `state.rs`: the
  owed Welcomes in what a save writes).

  A group's record is a list of entries, one for each Add, each with the devices not yet sent
  its Welcome. The merge of an Add takes the devices it admits out of every earlier entry and
  appends its own; a reported delivery takes one device out of the entry that carries those
  very bytes; an entry without recipients is dropped, and a record without entries too.

  Over an entry list `Owes` says what a log of merges, deliveries and forgets leaves owed: an
  Add admitted the device, and nothing ended that since. Every run keeps the two equal
  (`owed_welcomes_of_run`), through the encoded records, the snapshot cache and restarts.
-/

import Canari.Mls.SubmissionRuns
import Canari.Lib.JsMap
import Mathlib.Logic.Equiv.List

namespace Canari.Mls.Owed

open Lib Mls.State Mls.Submission List

/-! ## The record -/

structure OwedWelcome where
  groupId : String
  welcome : Bytes
  ratchetTree : Bytes
  recipients : List String
  deriving DecidableEq

/-- `#[serde(skip)]`: the group id is the key of the record, not part of it. -/
def OwedWelcome.named (g : String) (w : OwedWelcome) : OwedWelcome := { w with groupId := g }

/-- `into_writer` and `from_reader` on a record: every list is written, and what was written reads back. -/
structure Format where
  intoWriter : List OwedWelcome → Except String Bytes
  fromReader : Bytes → Except String (List OwedWelcome)
  fromReaderOne : Bytes → Except String OwedWelcome
  writes : ∀ entries, ∃ bytes, intoWriter entries = .ok bytes
  reads : ∀ entries bytes, intoWriter entries = .ok bytes → fromReader bytes = .ok (entries.map (·.named ""))

def decodeEntries (F : Format) (g : String) (bytes : Bytes) : Except String (List OwedWelcome) :=
  match F.fromReader bytes with
  | .ok list => .ok (list.map (·.named g))
  | .error listErr =>
    match F.fromReaderOne bytes with
    | .ok one => .ok [one.named g]
    | .error e => .error (listErr ++ " / " ++ e)

structure Owing where
  mls : MlsManager
  owedWelcomes : JsMap String Bytes
  /-- The owed Welcomes in the cached snapshot. -/
  cachedOwed : JsMap Bytes Bytes

def Owing.markStateDirty (s : Owing) : Owing := { s with mls := s.mls.markStateDirty }

def owedEntries (F : Format) (s : Owing) (g : String) : List OwedWelcome :=
  match s.owedWelcomes.get g with
  | none => []
  | some bytes =>
    match decodeEntries F g bytes with
    | .ok entries => entries
    | .error _ => []

def dropOwedWelcome (s : Owing) (g : String) : Owing :=
  if s.owedWelcomes.has g then { s with owedWelcomes := s.owedWelcomes.delete g }.markStateDirty else s

def storeOwedEntries (F : Format) (s : Owing) (g : String) (entries : List OwedWelcome) : Owing :=
  if entries.isEmpty then dropOwedWelcome s g
  else match F.intoWriter entries with
    | .error _ => s
    | .ok bytes => { s with owedWelcomes := s.owedWelcomes.set g bytes }.markStateDirty

def owedWelcomes (F : Format) (s : Owing) : List OwedWelcome :=
  (s.owedWelcomes.keys.mergeSort (fun a b => decide (a ≤ b))).flatMap (owedEntries F s)

/-! ## Merges, deliveries and forgets -/

def superseded (recipients : List String) (entries : List OwedWelcome) : List OwedWelcome :=
  (entries.map fun w => { w with recipients := w.recipients.filter fun r => !recipients.contains r }).filter fun w =>
    !w.recipients.isEmpty

def mergePendingCommitOwingWelcome (F : Format) (P : Submission.Format) (c : Ending)
    (exported : Except MlsError Bytes) (n : Nat) (s : Owing)
    (g : String) (recipients : List String) : Except MlsError Unit × Owing :=
  match pendingSubmission P s.mls g with
  | .recorded r =>
    if r.welcome.isEmpty then (.error .invalidData, s)
    else
      match mergePendingCommitFor c n s.mls g with
      | (.error e, mls) => (.error e, { s with mls })
      | (.ok (), mls) =>
        let s := { s with mls }
        let ratchetTree := match exported with
          | .ok tree => tree
          | .error _ => []
        let entries := superseded recipients (owedEntries F s g) ++ [⟨g, r.welcome, ratchetTree, recipients⟩]
        (.ok (), storeOwedEntries F s g entries)
  | _ => (.error .invalidData, s)

def clearFirst (recipient : String) (welcome : Bytes) : List OwedWelcome → Option (List OwedWelcome)
  | [] => none
  | w :: ws =>
    if w.welcome = welcome ∧ recipient ∈ w.recipients then
      some ({ w with recipients := w.recipients.filter (· ≠ recipient) } :: ws)
    else (clearFirst recipient welcome ws).map (w :: ·)

def welcomeDelivered (F : Format) (s : Owing) (g recipient : String) (welcome : Bytes) : Owing :=
  match clearFirst recipient welcome (owedEntries F s g) with
  | none => s
  | some entries => storeOwedEntries F s g (entries.filter fun w => !w.recipients.isEmpty)

def forgetGroup (O : OpenMls) (s : Owing) (g : String) (minEpoch : Nat) : Owing :=
  let s := dropOwedWelcome s g
  { s with mls := s.mls.forgetGroup O g minEpoch }

def clearPendingCommit (O : OpenMls) (c : Ending) (n : Nat) (s : Owing) (g : String) : Owing :=
  let cleared := (clearPendingCommitFor O c n s.mls g).2
  if s.mls.pendingExternalJoins g then { dropOwedWelcome s g with mls := cleared } else { s with mls := cleared }

/-! ## Saving and loading -/

/-- The owed Welcomes as a save writes them: keyed by the bytes of the group id. -/
def serializeOwed (m : JsMap String Bytes) : JsMap Bytes Bytes := ⟨m.entries.map fun e => (asBytes e.1, e.2)⟩

def loadOwed (m : JsMap Bytes Bytes) : JsMap String Bytes :=
  m.entries.foldl (fun owed e => owed.set (fromUtf8Lossy e.1) e.2) JsMap.empty

def saveState (s : Owing) (serializes : Bool) : Option (PersistedState × JsMap Bytes Bytes) × Owing :=
  let owed := match s.mls.stateSnapshot.dirty, s.mls.stateSnapshot.cachedCbor with
    | false, some _ => s.cachedOwed
    | _, _ => if serializes then serializeOwed s.owedWelcomes else s.cachedOwed
  let (bytes, mls) := s.mls.saveState serializes
  (bytes.map (·, owed), { s with mls, cachedOwed := owed })

def loadOrCreate (p : PersistedState × JsMap Bytes Bytes) : Owing := ⟨State.load p.1, loadOwed p.2, JsMap.empty⟩

def restart (s : Owing) (serializes : Bool) : Owing :=
  match saveState s serializes with
  | (some p, _) => loadOrCreate p
  | (none, s) => s

/-! ## What an entry list owes -/

def Names (entries : List OwedWelcome) (device : String) (welcome : Bytes) : Prop :=
  ∃ w ∈ entries, device ∈ w.recipients ∧ w.welcome = welcome

/-- Every entry has recipients, each once, and no device is in two entries. -/
structure Tidy (entries : List OwedWelcome) : Prop where
  recipients : ∀ w ∈ entries, w.recipients ≠ [] ∧ w.recipients.Nodup
  apart : entries.Pairwise fun a b => a.recipients.Disjoint b.recipients

variable {entries : List OwedWelcome} {recipients : List String} {device : String} {welcome : Bytes}

theorem names_named {g : String} : Names (entries.map (·.named g)) device welcome ↔ Names entries device welcome := by
  simp [Names, OwedWelcome.named]

theorem tidy_named {g : String} (h : Tidy entries) : Tidy (entries.map (·.named g)) := by
  refine ⟨fun w hw => ?_, pairwise_map.mpr h.apart⟩
  obtain ⟨v, hv, rfl⟩ := mem_map.mp hw
  exact h.recipients v hv

theorem Tidy.owed_once (h : Tidy entries)
    (device : String) : (entries.filter fun w => device ∈ w.recipients).length ≤ 1 := by
  have hp : (entries.filter fun w => device ∈ w.recipients).Pairwise fun a b => a.recipients.Disjoint b.recipients :=
    h.apart.sublist filter_sublist
  have hall : ∀ w ∈ entries.filter fun w => device ∈ w.recipients, device ∈ w.recipients := by
    intro w hw
    simpa using (mem_filter.mp hw).2
  generalize entries.filter (fun w => device ∈ w.recipients) = owing at hp hall ⊢
  match owing with
  | [] => exact Nat.zero_le _
  | [_] => exact le_rfl
  | a :: b :: rest =>
    have hd := (pairwise_cons.mp hp).1 b (by simp)
    exact absurd (hall b (by simp)) (hd (hall a (by simp)))

variable {w : OwedWelcome}

theorem mem_superseded : w ∈ superseded recipients entries ↔
    ∃ v ∈ entries, { v with recipients := v.recipients.filter fun r => !recipients.contains r } = w ∧
      w.recipients ≠ [] := by
  simp only [superseded, mem_filter, mem_map, Bool.not_eq_eq_eq_not, Bool.not_true, isEmpty_eq_false_iff]
  constructor
  · rintro ⟨⟨v, hv, he⟩, hne⟩
    exact ⟨v, hv, he, hne⟩
  · rintro ⟨v, hv, he, hne⟩
    exact ⟨⟨v, hv, he⟩, hne⟩

theorem names_superseded : Names (superseded recipients entries) device welcome ↔
    Names entries device welcome ∧ device ∉ recipients := by
  constructor
  · rintro ⟨w, hw, hd, rfl⟩
    obtain ⟨v, hv, rfl, -⟩ := (mem_superseded).mp hw
    obtain ⟨hd, hn⟩ := mem_filter.mp hd
    exact ⟨⟨v, hv, hd, rfl⟩, by simpa using hn⟩
  · rintro ⟨⟨v, hv, hd, rfl⟩, hn⟩
    have hkept : device ∈ v.recipients.filter fun r => !recipients.contains r := mem_filter.mpr ⟨hd, by simpa using hn⟩
    exact ⟨_, (mem_superseded).mpr ⟨v, hv, rfl, ne_nil_of_mem hkept⟩, hkept, rfl⟩

theorem tidy_superseded (h : Tidy entries) : Tidy (superseded recipients entries) := by
  refine ⟨fun w hw => ?_, ?_⟩
  · obtain ⟨v, hv, rfl, hne⟩ := (mem_superseded).mp hw
    exact ⟨hne, (h.recipients v hv).2.filter _⟩
  · refine List.Pairwise.filter _ (pairwise_map.mpr (h.apart.imp fun hd d ha hb => ?_))
    exact hd (mem_of_mem_filter ha) (mem_of_mem_filter hb)

theorem tidy_admitted (h : Tidy entries) (w : OwedWelcome) (hne : w.recipients ≠ []) (hnd : w.recipients.Nodup) :
    Tidy (superseded w.recipients entries ++ [w]) := by
  have hs : Tidy (superseded w.recipients entries) := tidy_superseded h
  refine ⟨fun v hv => ?_, ?_⟩
  · rcases mem_append.mp hv with hv | hv
    · exact hs.recipients v hv
    · obtain rfl := mem_singleton.mp hv
      exact ⟨hne, hnd⟩
  · refine pairwise_append.mpr ⟨hs.apart, pairwise_singleton .., fun a ha b hb d hda hdb => ?_⟩
    obtain rfl := mem_singleton.mp hb
    exact ((names_superseded).mp ⟨a, ha, hda, rfl⟩).2 hdb

theorem names_admitted (w : OwedWelcome) :
    Names (superseded w.recipients entries ++ [w]) device welcome ↔
      (device ∈ w.recipients ∧ w.welcome = welcome) ∨ (Names entries device welcome ∧ device ∉ w.recipients) := by
  rw [← names_superseded]
  simp only [Names, mem_append, mem_singleton]
  constructor
  · rintro ⟨v, hv | rfl, h⟩
    · exact .inr ⟨v, hv, h⟩
    · exact .inl h
  · rintro (h | ⟨v, hv, h⟩)
    · exact ⟨w, .inr rfl, h⟩
    · exact ⟨v, .inl hv, h⟩

variable {recipient : String}

theorem clearFirst_none (h : clearFirst recipient welcome entries = none) : ¬ Names entries recipient welcome := by
  induction entries with
  | nil => simp [Names]
  | cons w ws ih =>
    rw [clearFirst] at h
    split at h
    · cases h
    · rename_i hw
      rintro ⟨v, hv, hr, he⟩
      rcases mem_cons.mp hv with rfl | hv
      · exact hw ⟨he, hr⟩
      · exact ih (by simpa using h) ⟨v, hv, hr, he⟩

variable {cleared : List OwedWelcome}

theorem clearFirst_some (h : clearFirst recipient welcome entries = some cleared) :
    ∃ before w after, entries = before ++ w :: after ∧ w.welcome = welcome ∧ recipient ∈ w.recipients ∧
      cleared = before ++ { w with recipients := w.recipients.filter (· ≠ recipient) } :: after := by
  induction entries generalizing cleared with
  | nil => cases h
  | cons w ws ih =>
    rw [clearFirst] at h
    split at h
    · rename_i hw
      cases h
      exact ⟨[], w, ws, rfl, hw.1, hw.2, rfl⟩
    · obtain ⟨rest, hrest, rfl⟩ := Option.map_eq_some_iff.mp h
      obtain ⟨before, v, after, rfl, hwel, hr, rfl⟩ := ih hrest
      exact ⟨w :: before, v, after, rfl, hwel, hr, rfl⟩

theorem names_dropEmpty : Names (entries.filter fun w => !w.recipients.isEmpty) device welcome ↔
    Names entries device welcome := by
  constructor
  · rintro ⟨w, hw, h⟩
    exact ⟨w, mem_of_mem_filter hw, h⟩
  · rintro ⟨w, hw, hd, h⟩
    refine ⟨w, mem_filter.mpr ⟨hw, ?_⟩, hd, h⟩
    simpa using ne_nil_of_mem hd

theorem names_cleared {delivered : Bytes} (ht : Tidy entries)
    (h : clearFirst recipient delivered entries = some cleared) :
    Names cleared device welcome ↔ Names entries device welcome ∧ ¬ (device = recipient ∧ welcome = delivered) := by
  obtain ⟨before, w, after, rfl, rfl, hr, rfl⟩ := clearFirst_some h
  -- the device is in no other entry, so what is cleared is all it was owed
  have hother : ∀ v, v ∈ before ∨ v ∈ after → recipient ∉ v.recipients := by
    obtain ⟨-, hcons, hbefore⟩ := pairwise_append.mp ht.apart
    rintro v (hv | hv) hmem
    · exact hbefore v hv w (by simp) hmem hr
    · exact (pairwise_cons.mp hcons).1 v hv hr hmem
  simp only [Names, mem_append, mem_cons]
  constructor
  · rintro ⟨v, hv, hd, rfl⟩
    rcases or_left_comm.mp hv with rfl | hv
    · obtain ⟨hd, hne⟩ := mem_filter.mp hd
      exact ⟨⟨w, .inr (.inl rfl), hd, rfl⟩, fun e => absurd e.1 (by simpa using hne)⟩
    · refine ⟨⟨v, hv.imp_right .inr, hd, rfl⟩, fun e => hother v hv (e.1 ▸ hd)⟩
  · rintro ⟨⟨v, hv, hd, rfl⟩, hn⟩
    rcases or_left_comm.mp hv with rfl | hv
    · refine ⟨_, .inr (.inl rfl), mem_filter.mpr ⟨hd, ?_⟩, rfl⟩
      simpa using fun e => hn ⟨e, rfl⟩
    · exact ⟨v, hv.imp_right .inr, hd, rfl⟩

theorem tidy_cleared (ht : Tidy entries)
    (h : clearFirst recipient welcome entries = some cleared) :
    Tidy (cleared.filter fun w => !w.recipients.isEmpty) := by
  obtain ⟨before, w, after, rfl, rfl, hr, rfl⟩ := clearFirst_some h
  obtain ⟨hb, hcons, hbefore⟩ := pairwise_append.mp ht.apart
  obtain ⟨hw, hafter⟩ := pairwise_cons.mp hcons
  refine ⟨fun v hv => ?_, List.Pairwise.filter _ ?_⟩
  · obtain ⟨hv, hne⟩ := mem_filter.mp hv
    refine ⟨by simpa using hne, ?_⟩
    rcases mem_append.mp hv with hv | hv
    · exact (ht.recipients v (by simp [hv])).2
    · rcases mem_cons.mp hv with rfl | hv
      · exact (ht.recipients w (by simp)).2.filter _
      · exact (ht.recipients v (by simp [hv])).2
  · refine pairwise_append.mpr ⟨hb, pairwise_cons.mpr ⟨fun v hv d hd => ?_, hafter⟩, fun v hv u hu d hd hdu => ?_⟩
    · exact hw v hv (mem_of_mem_filter hd)
    · rcases mem_cons.mp hu with rfl | hu
      · exact hbefore v hv w (by simp) hd (mem_of_mem_filter hdu)
      · exact hbefore v hv u (by simp [hu]) hd hdu

/-! ## What a store keeps -/

variable {F : Format} {s : Owing} {g j : String}

theorem owedEntries_dropOwedWelcome : owedEntries F (dropOwedWelcome s g) j = if j = g then [] else
    owedEntries F s j := by
  have hget : (dropOwedWelcome s g).owedWelcomes.get j = if j = g then none else s.owedWelcomes.get j := by
    unfold dropOwedWelcome
    split
    · exact JsMap.get_delete ..
    · rename_i hk
      by_cases e : j = g
      · subst e
        simpa [JsMap.has] using hk
      · rw [if_neg e]
  by_cases e : j = g
  · subst e
    simp [owedEntries, hget]
  · simp [owedEntries, hget, e]

theorem named_named (g h : String) (w : OwedWelcome) : (w.named h).named g = w.named g := rfl

theorem decodeEntries_written {bytes : Bytes} (h : F.intoWriter entries = .ok bytes) :
    decodeEntries F g bytes = .ok (entries.map (·.named g)) := by
  unfold decodeEntries
  rw [F.reads entries bytes h]
  simp [named_named]

theorem owedEntries_store :
    owedEntries F (storeOwedEntries F s g entries) j = if j = g then entries.map (·.named g) else
      owedEntries F s j := by
  unfold storeOwedEntries
  split
  · rename_i he
    rw [owedEntries_dropOwedWelcome, List.isEmpty_iff.mp he, map_nil]
  · obtain ⟨bytes, hb⟩ := F.writes entries
    rw [hb]
    unfold owedEntries
    rw [show Owing.owedWelcomes (Owing.markStateDirty _) = s.owedWelcomes.set g bytes from rfl]
    by_cases e : j = g
    · subst e
      simp [decodeEntries_written hb]
    · simp [e]

def Readable (F : Format) (m : JsMap String Bytes) : Prop :=
  ∀ g bytes, m.get g = some bytes → ∃ entries, entries ≠ [] ∧ decodeEntries F g bytes = .ok entries

theorem readable_dropOwedWelcome (h : Readable F s.owedWelcomes) : Readable F (dropOwedWelcome s g).owedWelcomes := by
  unfold dropOwedWelcome
  split
  · intro j bytes hj
    have hj' : (s.owedWelcomes.delete g).get j = some bytes := hj
    rw [JsMap.get_delete] at hj'
    split at hj'
    · cases hj'
    · exact h j bytes hj'
  · exact h

theorem readable_store (h : Readable F s.owedWelcomes) : Readable F (storeOwedEntries F s g entries).owedWelcomes := by
  unfold storeOwedEntries
  split
  · exact readable_dropOwedWelcome h
  · rename_i hne
    obtain ⟨bytes, hb⟩ := F.writes entries
    rw [hb]
    intro j b hj
    have hj' : (s.owedWelcomes.set g bytes).get j = some b := hj
    rw [JsMap.get_set] at hj'
    split at hj'
    · cases hj'
      exact ⟨_, by simpa using hne, decodeEntries_written hb⟩
    · exact h j b hj'

theorem nodup_keys_dropOwedWelcome (h : s.owedWelcomes.keys.Nodup) : (dropOwedWelcome s g).owedWelcomes.keys.Nodup := by
  unfold dropOwedWelcome
  split
  · exact h.sublist (filter_sublist.map _)
  · exact h

theorem nodup_keys_store (h : s.owedWelcomes.keys.Nodup) :
    (storeOwedEntries F s g entries).owedWelcomes.keys.Nodup := by
  unfold storeOwedEntries
  split
  · exact nodup_keys_dropOwedWelcome h
  · split
    · exact h
    · exact JsMap.nodup_keys_set h ..

/-- A snapshot that is not stale holds the owed Welcomes there are. -/
def Fresh (s : Owing) : Prop :=
  s.mls.stateSnapshot.dirty = false → s.mls.stateSnapshot.cachedCbor.isSome →
    s.cachedOwed = serializeOwed s.owedWelcomes

theorem fresh_of_dirty (h : s.mls.stateSnapshot.dirty = true) : Fresh s := fun hd => absurd (h.symm.trans hd) nofun

theorem fresh_dropOwedWelcome (h : Fresh s) : Fresh (dropOwedWelcome s g) := by
  unfold dropOwedWelcome
  split
  · exact fresh_of_dirty rfl
  · exact h

theorem fresh_store (h : Fresh s) : Fresh (storeOwedEntries F s g entries) := by
  unfold storeOwedEntries
  split
  · exact fresh_dropOwedWelcome h
  · split
    · exact h
    · exact fresh_of_dirty rfl

/-! ## What a restart keeps -/

theorem loadOwed_serializeOwed {m : JsMap String Bytes} (h : m.keys.Nodup)
    (g : String) : (loadOwed (serializeOwed m)).get g = m.get g := by
  have hfold : loadOwed (serializeOwed m) = m.entries.foldl (fun owed e => owed.set e.1 e.2) JsMap.empty := by
    simp [loadOwed, serializeOwed, foldl_map, fromUtf8Lossy_asBytes]
  rw [hfold]
  cases hg : m.get g with
  | none =>
    have hk : g ∉ m.entries.map Prod.fst := by
      intro hmem
      obtain ⟨v, hv⟩ := JsMap.mem_keys.mp hmem
      rw [hg] at hv
      cases hv
    exact JsMap.get_setAll_of_not_mem Prod.fst Prod.snd hk JsMap.empty
  | some bytes =>
    have hmem : (g, bytes) ∈ m.entries := by
      obtain ⟨l₁, l₂, hl, -⟩ := lookup_eq_some_iff.mp hg
      simp [hl]
    exact JsMap.get_setAll_of_mem Prod.fst Prod.snd h hmem JsMap.empty

theorem nodup_keys_loadOwed (m : JsMap Bytes Bytes) : (loadOwed m).keys.Nodup :=
  JsMap.nodup_keys_setAll (fun e : Bytes × Bytes => fromUtf8Lossy e.1) (fun e => e.2) m.entries nodup_nil

theorem saveState_spec (h : Fresh s) (serializes : Bool) :
    (∀ p s', saveState s serializes = (some p, s') → p.2 = serializeOwed s.owedWelcomes) ∧
    (saveState s serializes).2.owedWelcomes = s.owedWelcomes ∧ Fresh (saveState s serializes).2 := by
  obtain ⟨⟨storage, groups, mins, submissions, joins, dirty, cached⟩, owed, cachedOwed⟩ := s
  cases dirty <;> cases cached <;> cases serializes <;>
    simp_all [saveState, Fresh, MlsManager.saveState, StateSnapshotCache.getOrBuild]

/-! ## Runs -/

/-- A call of the manager that leaves the owed Welcomes alone; it may make the snapshot stale. -/
structure Work where
  run : MlsManager → MlsManager
  snapshot : ∀ m, (run m).stateSnapshot = m.stateSnapshot ∨
    (run m).stateSnapshot = { m.stateSnapshot with dirty := true }

abbrev Admits := { recipients : List String // recipients ≠ [] ∧ recipients.Nodup }

inductive Ev where
  | merge (c : Ending) (exported : Except MlsError Bytes) (n : Nat) (g : String) (recipients : Admits)
  | delivered (g recipient : String) (welcome : Bytes)
  | forget (O : OpenMls) (g : String) (minEpoch : Nat)
  | clear (O : OpenMls) (c : Ending) (n : Nat) (g : String)
  | work (call : Work)
  | save (serializes : Bool)
  | restart (serializes : Bool)

inductive Happened where
  | admitted (g : String) (welcome : Bytes) (recipients : List String)
  | delivered (g recipient : String) (welcome : Bytes)
  | forgotten (g : String)
  deriving DecidableEq

structure Run where
  state : Owing
  log : List Happened

/-- A merge that went through admitted its devices with the Welcome recorded beside the commit. -/
def admission (P : Submission.Format) (s : Owing) (g : String)
    (recipients : List String) : Except MlsError Unit → List Happened
  | .error _ => []
  | .ok () =>
    match pendingSubmission P s.mls g with
    | .recorded r => [.admitted g r.welcome recipients]
    | _ => []

def step (F : Format) (P : Submission.Format) (r : Run) : Ev → Run
  | .merge c exported n g recipients =>
    let out := mergePendingCommitOwingWelcome F P c exported n r.state g recipients
    ⟨out.2, r.log ++ admission P r.state g recipients out.1⟩
  | .delivered g recipient welcome =>
      ⟨welcomeDelivered F r.state g recipient welcome, r.log ++ [.delivered g recipient welcome]⟩
  | .forget O g minEpoch => ⟨forgetGroup O r.state g minEpoch, r.log ++ [.forgotten g]⟩
  | .clear O c n g =>
    ⟨clearPendingCommit O c n r.state g, if r.state.mls.pendingExternalJoins g then r.log ++ [.forgotten g] else r.log⟩
  | .work call => { r with state := { r.state with mls := call.run r.state.mls } }
  | .save serializes => { r with state := (saveState r.state serializes).2 }
  | .restart serializes => { r with state := restart r.state serializes }

def start : Run := ⟨⟨⟨fun _ => none, fun _ => none, fun _ => none, fun _ => none, fun _ => false, ⟨true, none⟩⟩,
    JsMap.empty, JsMap.empty⟩, []⟩

def run (F : Format) (P : Submission.Format) (events : List Ev) : Run := events.foldl (step F P) start

def Admitted (g device : String) (welcome : Bytes) : Happened → Prop
  | .admitted g' w recipients => g' = g ∧ w = welcome ∧ device ∈ recipients
  | _ => False

/-- What ends the owing: an Add that admits the device, a delivery of those bytes to it, or a forget. -/
def Ends (g device : String) (welcome : Bytes) : Happened → Prop
  | .admitted g' _ recipients => g' = g ∧ device ∈ recipients
  | .delivered g' recipient w => g' = g ∧ recipient = device ∧ w = welcome
  | .forgotten g' => g' = g

def Owes (log : List Happened) (g device : String) (welcome : Bytes) : Prop := Since (Admitted g device welcome)
    (Ends g device welcome) log

structure Inv (F : Format) (r : Run) : Prop where
  readable : Readable F r.state.owedWelcomes
  keys : r.state.owedWelcomes.keys.Nodup
  fresh : Fresh r.state
  tidy : ∀ g, Tidy (owedEntries F r.state g)
  owes : ∀ g device welcome, Names (owedEntries F r.state g) device welcome ↔ Owes r.log g device welcome

/-! ## One lemma for each step -/

variable {P : Submission.Format} {r : Run}

variable {log : List Happened}

theorem owes_admitted {g' device : String} {w : Bytes} :
    Owes (log ++ [Happened.admitted g welcome recipients]) g' device w ↔
      (g = g' ∧ welcome = w ∧ device ∈ recipients) ∨
        (Owes log g' device w ∧ ¬ (g = g' ∧ device ∈ recipients)) := since_concat

theorem owes_delivered {g' device : String} {w : Bytes} :
    Owes (log ++ [Happened.delivered g recipient welcome]) g' device w ↔
      Owes log g' device w ∧ ¬ (g = g' ∧ recipient = device ∧ welcome = w) :=
        since_concat.trans (iff_of_eq (false_or _))

theorem owes_forgotten {g' device : String} {w : Bytes} :
    Owes (log ++ [Happened.forgotten g]) g' device w ↔ Owes log g' device w ∧ g ≠ g' :=
      since_concat.trans (iff_of_eq (false_or _))

/-- Only what the records read matters to the invariant, and that the snapshot is not behind them. -/
theorem Inv.same (h : Inv F r) {s : Owing} (hget : ∀ g, s.owedWelcomes.get g = r.state.owedWelcomes.get g)
    (hk : s.owedWelcomes.keys.Nodup) (hf : Fresh s) : Inv F { r with state := s } := by
  have hentries : ∀ g, owedEntries F s g = owedEntries F r.state g := fun g => by rw [owedEntries, owedEntries, hget]
  refine ⟨fun g bytes hg => h.readable g bytes (hget g ▸ hg), hk, hf, fun g => ?_, fun g device w => ?_⟩
  · exact hentries g ▸ h.tidy g
  · rw [hentries]
    exact h.owes g device w

theorem Inv.mls (h : Inv F r) {m : MlsManager}
    (hm : Fresh { r.state with mls := m }) : Inv F { r with state := { r.state with mls := m } } :=
  h.same (fun _ => rfl) h.keys hm

theorem fresh_of_snapshot {m : MlsManager} (h : Fresh s)
    (hm : m.stateSnapshot = s.mls.stateSnapshot ∨ m.stateSnapshot = { s.mls.stateSnapshot with dirty := true }) :
    Fresh { s with mls := m } := by
  rcases hm with hm | hm
  · intro hd hc
    rw [hm] at hd hc
    exact h hd hc
  · exact fresh_of_dirty (by rw [hm])

/-- An Add is merged: its devices are owed its Welcome, and no earlier one. -/
theorem Inv.admitting (h : Inv F r) (w : OwedWelcome) (hw : w.groupId = g) (hne : w.recipients ≠ [])
    (hnd : w.recipients.Nodup) :
    Inv F ⟨storeOwedEntries F r.state g (superseded w.recipients (owedEntries F r.state g) ++ [w]),
      r.log ++ [Happened.admitted g w.welcome w.recipients]⟩ := by
  refine ⟨readable_store h.readable, nodup_keys_store h.keys, fresh_store h.fresh, fun j => ?_,
    fun j device welcome => ?_⟩
  · rw [owedEntries_store]
    split
    · exact tidy_named (tidy_admitted (h.tidy g) w hne hnd)
    · exact h.tidy j
  · rw [owedEntries_store, owes_admitted, ← h.owes]
    split
    · rename_i e
      subst e
      rw [names_named, names_admitted]
      simp [and_comm]
    · rename_i e
      simp [Ne.symm e]

theorem dropped_snapshot (m : MlsManager)
    (g : String) : (dropped m g).stateSnapshot = { m.stateSnapshot with dirty := true } := by
  unfold dropped MlsManager.dropPendingSubmission
  split <;> rfl

theorem mergePendingCommitFor_snapshot (c : Ending) (n : Nat) (m : MlsManager) (g : String) :
    (mergePendingCommitFor c n m g).2.stateSnapshot = m.stateSnapshot ∨
    (mergePendingCommitFor c n m g).2.stateSnapshot = { m.stateSnapshot with dirty := true } := by
  unfold mergePendingCommitFor
  split
  · exact .inl rfl
  · split
    · exact .inl rfl
    · exact .inr (dropped_snapshot ..)

theorem forgetGroup_snapshot (O : OpenMls) (m : MlsManager) (g : String) (minEpoch : Nat) :
    (m.forgetGroup O g minEpoch).stateSnapshot.dirty = true := rfl

theorem Inv.merge (h : Inv F r) (c : Ending) (exported : Except MlsError Bytes) (n : Nat) (g : String)
    (recipients : Admits) :
    Inv F (step F P r (.merge c exported n g recipients)) := by
  have hmls := h.mls (fresh_of_snapshot h.fresh (mergePendingCommitFor_snapshot c n r.state.mls g))
  simp only [step, mergePendingCommitOwingWelcome, admission]
  split
  · rename_i record hrecord
    split
    · rw [append_nil]
      exact h
    · split
      · rename_i e mls hm
        rw [hm] at hmls
        rw [append_nil]
        exact hmls
      · rename_i mls hm
        rw [hm] at hmls
        exact hmls.admitting ⟨g, record.welcome, _, recipients⟩ rfl recipients.2.1 recipients.2.2
  · rw [append_nil]
    exact h

theorem Inv.delivered (h : Inv F r) (g recipient : String)
    (welcome : Bytes) : Inv F (step F P r (.delivered g recipient welcome)) := by
  simp only [step, welcomeDelivered]
  split
  · rename_i hnone
    refine ⟨h.readable, h.keys, h.fresh, h.tidy, fun j device w => ?_⟩
    rw [owes_delivered, ← h.owes]
    refine ⟨fun hn => ⟨hn, ?_⟩, And.left⟩
    rintro ⟨rfl, rfl, rfl⟩
    exact clearFirst_none hnone hn
  · rename_i entries hsome
    refine ⟨readable_store h.readable, nodup_keys_store h.keys, fresh_store h.fresh, fun j => ?_, fun j device w => ?_⟩
    · rw [owedEntries_store]
      split
      · exact tidy_named (tidy_cleared (h.tidy g) hsome)
      · exact h.tidy j
    · rw [owedEntries_store, owes_delivered, ← h.owes]
      split
      · rename_i e
        subst e
        rw [names_named, names_dropEmpty, names_cleared (h.tidy j) hsome]
        simp [eq_comm]
      · rename_i e
        simp [Ne.symm e]

/-- A forget, alone or at the end of a clear. -/
theorem Inv.forget (h : Inv F r) (g : String) {m : MlsManager} (hm : m.stateSnapshot.dirty = true) :
    Inv F ⟨{ dropOwedWelcome r.state g with mls := m }, r.log ++ [Happened.forgotten g]⟩ := by
  refine ⟨readable_dropOwedWelcome h.readable, nodup_keys_dropOwedWelcome h.keys, fresh_of_dirty hm, fun j => ?_,
    fun j device w => ?_⟩
  · show Tidy (owedEntries F (dropOwedWelcome r.state g) j)
    rw [owedEntries_dropOwedWelcome]
    split
    · exact ⟨nofun, List.Pairwise.nil⟩
    · exact h.tidy j
  · show Names (owedEntries F (dropOwedWelcome r.state g) j) device w ↔ _
    rw [owedEntries_dropOwedWelcome, owes_forgotten, ← h.owes]
    split
    · rename_i e
      simp [Names, e]
    · rename_i e
      simp [Ne.symm e]

theorem Inv.clear (h : Inv F r) (O : OpenMls) (c : Ending) (n : Nat)
    (g : String) : Inv F (step F P r (.clear O c n g)) := by
  simp only [step, clearPendingCommit, clearPendingCommitFor]
  split
  · exact h.forget g (forgetGroup_snapshot ..)
  · refine h.mls (fresh_of_snapshot h.fresh ?_)
    split
    · exact .inl rfl
    · split
      · exact .inl rfl
      · exact .inr (dropped_snapshot ..)

theorem Inv.save (h : Inv F r) (serializes : Bool) : Inv F { r with state := (saveState r.state serializes).2 } := by
  obtain ⟨-, howed, hfresh⟩ := saveState_spec h.fresh serializes
  exact h.same (fun g => by rw [howed]) (howed ▸ h.keys) hfresh

theorem Inv.restart (h : Inv F r) (serializes : Bool) : Inv F (step F P r (.restart serializes)) := by
  simp only [step, Owed.restart]
  split
  · rename_i p s' hp
    refine h.same (fun g => ?_) (nodup_keys_loadOwed _) (fresh_of_dirty rfl)
    rw [loadOrCreate, (saveState_spec h.fresh serializes).1 p s' hp]
    exact loadOwed_serializeOwed h.keys g
  · rename_i s' hs
    have hsaved := h.save serializes
    rw [hs] at hsaved
    exact hsaved

theorem inv_step (h : Inv F r) (ev : Ev) : Inv F (step F P r ev) := by
  cases ev with
  | merge c exported n g recipients => exact h.merge c exported n g recipients
  | delivered g recipient welcome => exact h.delivered g recipient welcome
  | forget O g minEpoch => exact h.forget g (forgetGroup_snapshot ..)
  | clear O c n g => exact h.clear O c n g
  | work call => exact h.mls (fresh_of_snapshot h.fresh (call.snapshot _))
  | save serializes => exact h.save serializes
  | restart serializes => exact h.restart serializes

theorem inv_start (F : Format) : Inv F start :=
  ⟨nofun, nodup_nil, fresh_of_dirty rfl, fun _ => ⟨nofun, List.Pairwise.nil⟩,
    fun _ _ _ => ⟨nofun, fun h => absurd h not_since_nil⟩⟩

theorem inv_run (F : Format) (P : Submission.Format) (events : List Ev) : Inv F (run F P events) := by
  have hfold : ∀ (es : List Ev) (r : Run), Inv F r → Inv F (es.foldl (step F P) r) := by
    intro es
    induction es with
    | nil => exact fun _ h => h
    | cons e es ih => exact fun r h => ih _ (inv_step h e)
  exact hfold events start (inv_start F)

/-! ## What is owed after a run -/

theorem groupId_of_mem (h : w ∈ owedEntries F s g) : w.groupId = g := by
  unfold owedEntries decodeEntries at h
  split at h
  · cases h
  · split at h
    · rename_i entries hd
      split at hd
      · cases hd
        obtain ⟨v, -, rfl⟩ := mem_map.mp h
        rfl
      · split at hd
        · cases hd
          obtain rfl := mem_singleton.mp h
          rfl
        · cases hd
    · cases h

theorem filter_flatMap_owedEntries (g : String) {groups : List String} (h : groups.Nodup) :
    (groups.flatMap (owedEntries F s)).filter (fun w => w.groupId = g) = if g ∈ groups then
      owedEntries F s g else [] := by
  induction groups with
  | nil => rfl
  | cons k groups ih =>
    obtain ⟨hk, hn⟩ := nodup_cons.mp h
    rw [flatMap_cons, filter_append, ih hn]
    by_cases e : k = g
    · subst e
      have hall : (owedEntries F s k).filter (fun w => w.groupId = k) = owedEntries F s k :=
        filter_eq_self.mpr fun w hw => by simpa using groupId_of_mem hw
      simp [hall, hk]
    · have hnone : (owedEntries F s k).filter (fun w => w.groupId = g) = [] :=
        filter_eq_nil_iff.mpr fun w hw => by simpa [groupId_of_mem hw] using e
      simp [hnone, Ne.symm e]

theorem filter_owedWelcomes (hk : s.owedWelcomes.keys.Nodup) (g : String) :
    (owedWelcomes F s).filter (fun w => w.groupId = g) = owedEntries F s g := by
  have hperm := mergeSort_perm s.owedWelcomes.keys (fun a b => decide (a ≤ b))
  rw [owedWelcomes, filter_flatMap_owedEntries g (hperm.nodup_iff.mpr hk)]
  split
  · rfl
  · rename_i hg
    rw [hperm.mem_iff, JsMap.mem_keys] at hg
    unfold owedEntries
    split
    · rfl
    · rename_i bytes hb
      exact absurd ⟨bytes, hb⟩ hg

theorem mem_owedWelcomes (hk : s.owedWelcomes.keys.Nodup) :
    w ∈ owedWelcomes F s ∧ w.groupId = g ↔ w ∈ owedEntries F s g := by
  rw [← filter_owedWelcomes hk g]
  simp

/-- Whatever is merged, delivered, forgotten, saved and loaded: every record reads as entries with recipients, a device
    is in at most one entry of a group, and it is owed the Welcome of the last Add that admitted it, until a delivery of
    those bytes to it, another Add that admits it, or a forget. -/
theorem owed_welcomes_of_run (F : Format) (P : Submission.Format) (events : List Ev) :
    (∀ g bytes, (run F P events).state.owedWelcomes.get g = some bytes → ∃ entries, entries ≠ [] ∧
      decodeEntries F g bytes = .ok entries ∧
      ∀ w ∈ entries, w.recipients ≠ []) ∧
    (∀ g device, ((owedWelcomes F (run F P events).state).filter fun w => w.groupId = g ∧
      device ∈ w.recipients).length ≤ 1) ∧
    (∀ w ∈ owedWelcomes F (run F P events).state, w.recipients.Nodup) ∧
    ∀ g device welcome, (∃ w ∈ owedWelcomes F (run F P events).state, w.groupId = g ∧ device ∈ w.recipients ∧
      w.welcome = welcome) ↔
      Owes (run F P events).log g device welcome := by
  have h := inv_run F P events
  refine ⟨fun g bytes hg => ?_, fun g device => ?_, fun w hw => ?_, fun g device welcome => ?_⟩
  · obtain ⟨entries, hne, hd⟩ := h.readable g bytes hg
    refine ⟨entries, hne, hd, fun w hw => ((h.tidy g).recipients w ?_).1⟩
    rw [owedEntries, hg]
    simpa [hd] using hw
  · have hsplit : (owedWelcomes F (run F P events).state).filter
      (fun w => decide (w.groupId = g ∧ device ∈ w.recipients)) =
        (owedEntries F (run F P events).state g).filter fun w => device ∈ w.recipients := by
      rw [← filter_owedWelcomes h.keys g, filter_filter]
      refine filter_congr fun w _ => ?_
      rw [Bool.decide_and, Bool.and_comm]
    rw [hsplit]
    exact (h.tidy g).owed_once device
  · exact ((h.tidy w.groupId).recipients w ((mem_owedWelcomes h.keys).mp ⟨hw, rfl⟩)).2
  · rw [← h.owes]
    constructor
    · rintro ⟨w, hw, hg, hd⟩
      exact ⟨w, (mem_owedWelcomes h.keys).mp ⟨hw, hg⟩, hd⟩
    · rintro ⟨w, hw, hd⟩
      obtain ⟨hw, hg⟩ := (mem_owedWelcomes h.keys).mpr hw
      exact ⟨w, hw, hg, hd⟩

/-! ## The record as CBOR -/

def encodeEntry (w : OwedWelcome) : Bytes :=
  Cbor.head 5 3 ++
  (fieldName "welcome" ++ (Cbor.byteString w.welcome ++
  (fieldName "ratchet_tree" ++ (Cbor.byteString w.ratchetTree ++
  (fieldName "recipients" ++ Cbor.array Cbor.text w.recipients)))))

def decodeEntry (bytes : Bytes) : Option (OwedWelcome × Bytes) := do
  let bytes ← Cbor.expect (Cbor.head 5 3) bytes
  let (welcome, bytes) ← (Cbor.expect (fieldName "welcome") bytes).bind Cbor.readByteString
  let (ratchetTree, bytes) ← (Cbor.expect (fieldName "ratchet_tree") bytes).bind Cbor.readByteString
  let (recipients, bytes) ← (Cbor.expect (fieldName "recipients") bytes).bind (Cbor.readArray Cbor.readText)
  return (⟨"", welcome, ratchetTree, recipients⟩, bytes)

def OwedWelcome.fits (w : OwedWelcome) : Bool :=
  [w.welcome.length, w.ratchetTree.length, w.recipients.length].all (· < 2 ^ 64) &&
    w.recipients.all fun r => r.toByteArray.data.toList.length < 2 ^ 64

theorem decodeEntry_encodeEntry (h : w.fits = true)
    (rest : Bytes) : decodeEntry (encodeEntry w ++ rest) = some (w.named "", rest) := by
  simp only [OwedWelcome.fits, all_cons, all_nil, Bool.and_eq_true, decide_eq_true_eq, List.all_eq_true] at h
  obtain ⟨⟨hw, ht, hl, -⟩, hr⟩ := h
  have hrecipients := fun rest =>
    Cbor.readArray_array (f := id) hl (fun r hr' rest => Cbor.readText_text (hr r hr') rest) rest
  simp only [decodeEntry, encodeEntry, append_assoc, Cbor.expect_append, Cbor.readByteString_byteString hw,
    Cbor.readByteString_byteString ht, hrecipients, map_id, Option.bind_some, bind, pure, OwedWelcome.named]

abbrev Numbers := List (List Nat × List Nat × List (List Nat))

def numbered (entries : List OwedWelcome) : Numbers :=
  entries.map fun w => (w.welcome.map UInt8.toNat, w.ratchetTree.map UInt8.toNat,
    w.recipients.map fun r => r.toList.map Char.toNat)

def ofNumbered (entries : Numbers) : List OwedWelcome :=
  entries.map fun w => ⟨"", w.1.map UInt8.ofNat, w.2.1.map UInt8.ofNat,
    w.2.2.map fun r => String.ofList (r.map Char.ofNat)⟩

theorem ofNumbered_numbered (entries : List OwedWelcome) :
    ofNumbered (numbered entries) = entries.map (·.named "") := by
  have hbytes : ∀ b : Bytes, (b.map UInt8.toNat).map UInt8.ofNat = b := fun b => by simp [Function.comp_def]
  have htexts : ∀ r : String, String.ofList ((r.toList.map Char.toNat).map Char.ofNat) = r := fun r => by
    simp [Function.comp_def]
  simp only [ofNumbered, numbered, map_map]
  refine map_congr_left fun w _ => ?_
  simp only [Function.comp_apply, hbytes, OwedWelcome.named, map_map]
  congr 1
  exact (map_congr_left fun r _ => htexts r).trans (map_id _)

/-- A list a CBOR head cannot count is more than a memory holds: it is written in unary, with a byte no
    item opens with. -/
def encodeEntries (entries : List OwedWelcome) : Bytes :=
  if entries.length < 2 ^ 64 ∧ entries.all OwedWelcome.fits then Cbor.array encodeEntry entries
  else 0xff :: replicate (Encodable.encode (numbered entries)) 0xff

def decodeList (bytes : Bytes) : Option (List OwedWelcome) :=
  match Cbor.readArray decodeEntry bytes with
  | some (entries, _) => some entries
  | none => (Encodable.decode (bytes.length - 1)).map ofNumbered

theorem decodeList_encodeEntries (entries : List OwedWelcome) :
    decodeList (encodeEntries entries) = some (entries.map (·.named "")) := by
  unfold decodeList encodeEntries
  split_ifs with h
  · have hread := Cbor.readArray_array h.1
      (fun w hw rest => decodeEntry_encodeEntry (List.all_eq_true.mp h.2 w hw) rest) []
    rw [append_nil] at hread
    rw [hread]
  · have hunread : Cbor.readArray decodeEntry
      (0xff :: replicate (Encodable.encode (numbered entries)) 0xff) = none := rfl
    rw [hunread]
    simp [ofNumbered_numbered]

def cborFormat : Format where
  intoWriter := fun entries => .ok (encodeEntries entries)
  fromReader := fun bytes => (decodeList bytes).elim (.error "invalid list") .ok
  fromReaderOne := fun bytes => (decodeEntry bytes).elim (.error "invalid entry") fun read => .ok read.1
  writes := fun _ => ⟨_, rfl⟩
  reads := by
    intro entries bytes h
    cases h
    rw [decodeList_encodeEntries]
    rfl

/-! ## A run -/

def admits : Admits := ⟨["bob:web", "carol:web"], by decide, by decide⟩

/-- What a recorded Add with the Welcome `[5]` leaves in `g`. -/
def stagedAdd : Work where
  run := fun m =>
    { m with
      groups := Function.update m.groups "g" (some ⟨asBytes "g", 0, [], some 0⟩)
      pendingSubmissions := Function.update m.pendingSubmissions "g"
        (some (encodeRecord ⟨[6], 0, [4], [8], [5], [0, 1]⟩)) }.markStateDirty
  snapshot := fun _ => .inr rfl

/-- An Add admits two devices, one is sent its Welcome, and the device restarts. -/
def oneDelivered : List Ev :=
  [.work stagedAdd, .merge ending (.ok [7]) 0 "g" admits, .delivered "g" "bob:web" [5], .restart true]

theorem the_other_device_is_owed :
    (∃ w ∈ owedWelcomes cborFormat (run cborFormat cbor oneDelivered).state, w.groupId = "g" ∧
      "carol:web" ∈ w.recipients ∧ w.welcome = [5]) ∧
    ¬ ∃ w ∈ owedWelcomes cborFormat (run cborFormat cbor oneDelivered).state, w.groupId = "g" ∧
      "bob:web" ∈ w.recipients ∧ w.welcome = [5] := by
  obtain ⟨-, -, -, howes⟩ := owed_welcomes_of_run cborFormat cbor oneDelivered
  have hlog : (run cborFormat cbor oneDelivered).log = [] ++ [.admitted "g" [5] admits.1] ++
    [.delivered "g" "bob:web" [5]] := by decide
  rw [howes, howes, hlog]
  simp only [Owes, since_concat, not_since_nil, Admitted, Ends]
  decide

end Canari.Mls.Owed
