/-
  Canari.Mls.SchedulerProgress — a drain runs exactly while a frame may be picked
  (see `Canari.Mls.PerGroupScheduler`).

  `getRunnableCount` goes through the bucket map and all three tiers; `pickNext` walks the keys
  of the rotation and the tiers of its mode. They agree because every bucket has its key in the
  rotation and no frame waits in a tier that the mode does not pick (`Rotated`). A bucket comes with
  its key, a pruned key goes with its bucket, and a frame put back goes where it was picked.
  - `runnable_iff_picks`: in every reachable state, whatever commit holds the mutex. So a drain
    that starts has a frame to take, and one that stops leaves none it may take.
-/

import Canari.Mls.SchedulerConservation

namespace Canari.Mls.Scheduler

open Lib List Option

variable {β : Type} {mode : MlsPerGroupQueueMode}

namespace Queues

def hasRunnableWork (lock : Lock) (q : Queues β) : Bool := 0 < q.getRunnableCount lock

/-- Every bucket is in the rotation, and frames wait only in the tiers a mode picks from. -/
structure Rotated (mode : MlsPerGroupQueueMode) (q : Queues β) : Prop where
  listed : ∀ key, q.buckets.has key = true → key ∈ q.rrKeys
  picked : ∀ t, t ∉ tiers mode → ∀ key, (q.bucketAt key).tier t = []

/-- A frame of this bucket and tier may be picked now. -/
def Ready (lock : Lock) (key : String) (b : GroupBuckets β)
    (t : Tier) : Prop := b.tier t ≠ [] ∧ isHeldBackByCommit lock key b t = false

/-! ## The count -/

section Count

variable {q : Queues β} {lock : Lock}

theorem ready_of_free {key : String} {b : GroupBuckets β} {t : Tier}
    (h : lock.committingGroup = none) : Ready lock key b t ↔ b.tier t ≠ [] := by
  simp [Ready, isHeldBackByCommit, h]

theorem size_pos_iff {b : GroupBuckets β} : 0 < b.size ↔ ∃ t, b.tier t ≠ [] := by
  constructor
  · intro h
    by_contra hnone
    have hempty : ∀ t, b.tier t = [] := by simpa using hnone
    have hsize : b.size = 0 := by
      have hc : b.control = [] := hempty .control
      have hw : b.welcome = [] := hempty .welcome
      have hm : b.messages = [] := hempty .messages
      simp [GroupBuckets.size, hc, hw, hm]
    omega
  · intro h
    obtain ⟨t, ht⟩ := h
    have hpos := length_pos_iff.mpr ht
    cases t with
    | control => exact Nat.add_pos_left (Nat.add_pos_left hpos _) _
    | welcome => exact Nat.add_pos_left (Nat.add_pos_right _ hpos) _
    | messages => exact Nat.add_pos_right _ hpos

theorem exists_entry_iff (hk : q.Keyed) {P : String → GroupBuckets β → Prop} :
    (∃ e ∈ q.buckets.entries, P e.1 e.2) ↔ ∃ key b, q.buckets.get key = some b ∧ P key b := by
  constructor
  · intro h
    obtain ⟨⟨key, b⟩, he, hp⟩ := h
    exact ⟨key, b, JsMap.lookup_of_mem hk.buckets he, hp⟩
  · intro h
    obtain ⟨key, b, hg, hp⟩ := h
    exact ⟨(key, b), JsMap.mem_entries_of_get hg, hp⟩

theorem sum_map_pos_iff {α : Type} {f : α → Nat} {l : List α} : 0 < (l.map f).sum ↔ ∃ a ∈ l, 0 < f a := by
  rw [List.sum_pos_iff_exists_pos_nat]
  simp

theorem getPendingCount_pos_iff (hk : q.Keyed) : 0 < q.getPendingCount ↔
    ∃ key b, q.buckets.get key = some b ∧ ∃ t, b.tier t ≠ [] := by
  rw [← exists_entry_iff hk (P := fun _ b => ∃ t, b.tier t ≠ []), getPendingCount, JsMap.values, List.map_map,
    sum_map_pos_iff]
  simp [← size_pos_iff]

theorem hasRunnableWork_iff (hk : q.Keyed) : q.hasRunnableWork lock = true ↔
    ∃ key b, q.buckets.get key = some b ∧ ∃ t, Ready lock key b t := by
  rw [hasRunnableWork, decide_eq_true_eq, getRunnableCount]
  split
  · rename_i hfree
    rw [getPendingCount_pos_iff hk]
    simp only [ready_of_free hfree]
  · rw [← exists_entry_iff hk (P := fun key b => ∃ t, Ready lock key b t), sum_map_pos_iff]
    refine exists_congr fun e => and_congr_right fun _ => ?_
    rw [sum_map_pos_iff]
    constructor
    · intro h
      obtain ⟨t, -, hpos⟩ := h
      refine ⟨t, ?_⟩
      split at hpos
      · cases hpos
      · rename_i hheld
        exact ⟨length_pos_iff.mp hpos, Bool.eq_false_iff.mpr hheld⟩
    · intro h
      obtain ⟨t, hne, hheld⟩ := h
      refine ⟨t, by cases t <;> simp, ?_⟩
      rw [hheld]
      exact length_pos_iff.mpr hne

end Count

/-! ## The pick -/

section Pick

variable {q : Queues β} {lock : Lock}

theorem findInTier_isSome {t : Tier} : (q.findInTier lock t).isSome = true ↔
    ∃ key ∈ q.rrKeys, ∃ b, q.buckets.get key = some b ∧ Ready lock key b t := by
  rw [findInTier, find?_isSome]
  simp only [List.mem_map, mem_range]
  constructor
  · intro h
    obtain ⟨idx, -, hp⟩ := h
    cases hkey : q.rrKeys[idx]? with
    | none => simp [hkey] at hp
    | some key =>
      rw [hkey] at hp
      obtain ⟨b, hb, hready⟩ := (Option.any_eq_true _ _).mp hp
      refine ⟨key, mem_of_getElem? hkey, b, hb, ?_⟩
      simpa [Ready] using hready
  · intro h
    obtain ⟨key, hmem, b, hb, hne, hheld⟩ := h
    obtain ⟨idx, hidx, rfl⟩ := getElem_of_mem hmem
    refine ⟨idx, ⟨(idx + q.rrKeys.length - q.rrIndex % q.rrKeys.length) % q.rrKeys.length,
      Nat.mod_lt _ (by omega), ?_⟩, ?_⟩
    · have hlt := Nat.mod_lt q.rrIndex (show 0 < q.rrKeys.length by omega)
      rw [Nat.add_mod_mod, ← Nat.mod_add_mod,
        show q.rrIndex % q.rrKeys.length + (idx + q.rrKeys.length - q.rrIndex % q.rrKeys.length) =
        idx + q.rrKeys.length by omega, Nat.add_mod_right, Nat.mod_eq_of_lt hidx]
    · simp [hidx, hb, hne, hheld]

theorem pickFromTier_isSome {t : Tier} : (q.pickFromTier lock t).isSome = (q.findInTier lock t).isSome := by
  rw [pickFromTier]
  cases hf : q.findInTier lock t with
  | none => rfl
  | some idx =>
    have hp := find?_some hf
    rw [bind_some]
    cases hkey : q.rrKeys[idx]? with
    | none => simp [hkey] at hp
    | some key =>
      rw [hkey] at hp
      obtain ⟨b, hb, hready⟩ := (Option.any_eq_true _ _).mp hp
      rw [bind_some, hb, bind_some]
      cases ht : b.tier t with
      | nil => simp [ht] at hready
      | cons m rest => rfl

theorem pickNext_isSome : (q.pickNext mode lock).1.isSome = true ↔
    ∃ t ∈ tiers mode, ∃ key ∈ q.rrKeys, ∃ b, q.buckets.get key = some b ∧ Ready lock key b t := by
  have hsome : ((tiers mode).findSome? (q.pickFromTier lock)).isSome = true ↔
      ∃ t ∈ tiers mode, ∃ key ∈ q.rrKeys, ∃ b, q.buckets.get key = some b ∧ Ready lock key b t := by
    rw [findSome?_isSome_iff]
    refine exists_congr fun t => and_congr_right fun _ => ?_
    rw [pickFromTier_isSome, findInTier_isSome]
  rw [← hsome, pickNext]
  split
  · rename_i hnil
    rw [hsome]
    simp [hnil]
  · cases (tiers mode).findSome? (q.pickFromTier lock) <;> rfl

theorem hasRunnableWork_iff_picks (hk : q.Keyed)
    (hr : q.Rotated mode) : q.hasRunnableWork lock = (q.pickNext mode lock).1.isSome := by
  rw [Bool.eq_iff_iff, hasRunnableWork_iff hk, pickNext_isSome]
  constructor
  · intro h
    obtain ⟨key, b, hb, t, hready⟩ := h
    have hat : q.bucketAt key = b := by
      rw [bucketAt, hb]
      rfl
    have ht : t ∈ tiers mode := by
      by_contra hnot
      exact hready.1 (hat ▸ hr.picked t hnot key)
    exact ⟨t, ht, key, hr.listed key (by simp [JsMap.has, hb]), b, hb, hready⟩
  · intro h
    obtain ⟨t, -, key, -, b, hb, hready⟩ := h
    exact ⟨key, b, hb, t, hready⟩

end Pick

/-! ## What keeps the two together -/

section Kept

variable {q : Queues β}

theorem has_set {ν : Type} (m : JsMap String ν) (k j : String)
    (v : ν) : (m.set k v).has j = (decide (j = k) || m.has j) := by
  rw [JsMap.has, JsMap.has]
  by_cases h : j = k <;> simp [h]

theorem Rotated.updateBucket (h : q.Rotated mode) (key : String) {f : GroupBuckets β → GroupBuckets β}
    (hf : ∀ t, t ∉ tiers mode → (f (q.bucketAt key)).tier t = []) : (q.updateBucket key f).Rotated mode where
  listed := by
    intro j hj
    have hj' : (decide (j = key) || q.buckets.has j) = true := by
      rw [← has_set]
      exact hj
    show j ∈ if q.buckets.has key || q.rrKeys.contains key then q.rrKeys else q.rrKeys ++ [key]
    rcases Bool.or_eq_true _ _ ▸ hj' with hj | hj
    · obtain rfl := of_decide_eq_true hj
      split
      · rename_i hhas
        rcases Bool.or_eq_true _ _ ▸ hhas with hhas | hhas
        · exact h.listed j hhas
        · exact contains_iff_mem.mp hhas
      · exact mem_append_right _ (mem_singleton_self _)
    · split
      · exact h.listed j hj
      · exact mem_append_left _ (h.listed j hj)
  picked := by
    intro t ht j
    rw [bucketAt_updateBucket]
    split
    · exact hf t ht
    · exact h.picked t ht j

theorem Rotated.push (h : q.Rotated mode) (key : String) {t : Tier} (ht : t ∈ tiers mode) (m : MlsQueuedMessage β) :
    (q.updateBucket key (·.push t m)).Rotated mode := by
  refine h.updateBucket key fun t' ht' => ?_
  rw [GroupBuckets.push, tier_setTier, if_neg (ne_of_mem_of_not_mem ht ht').symm]
  exact h.picked t' ht' key

theorem Rotated.unshift (h : q.Rotated mode) (key : String) {t : Tier} (ht : t ∈ tiers mode) (m : MlsQueuedMessage β) :
    (q.updateBucket key (·.unshift t m)).Rotated mode := by
  refine h.updateBucket key fun t' ht' => ?_
  rw [GroupBuckets.unshift, tier_setTier, if_neg (ne_of_mem_of_not_mem ht ht').symm]
  exact h.picked t' ht' key

theorem messages_mem_tiers : Tier.messages ∈ tiers mode := by cases mode <;> simp [tiers]

theorem Rotated.windows (h : q.Rotated mode) (pendingWelcomeGroups : JsMap String (List (MlsQueuedMessage β))) :
    { q with pendingWelcomeGroups }.Rotated mode := ⟨h.listed, h.picked⟩

theorem Rotated.openWindow (h : q.Rotated mode) (groupId : Option String) : (q.openWindow groupId).Rotated mode := by
  unfold Queues.openWindow
  cases groupId with
  | none => exact h
  | some g =>
    dsimp only
    split
    · exact h
    · exact h.windows _

theorem Rotated.enqueue (h : q.Rotated mode) (m : MlsQueuedMessage β) : (q.enqueue mode m).Rotated mode := by
  unfold Queues.enqueue
  split
  · rename_i hc
    have hmode : mode = .tauri := (of_decide_eq_true hc).2
    exact h.push _ (by rw [hmode]; simp [tiers]) m
  cases m.isWelcome with
  | true =>
    cases mode with
    | tauri => exact (h.openWindow _).push _ (by simp [tiers]) m
    | web => exact (h.openWindow _).unshift _ (by simp [tiers]) m
  | false =>
    cases q.window m.groupId with
    | some w => exact h.windows _
    | none => exact h.push _ messages_mem_tiers m

theorem Rotated.release (h : q.Rotated mode) (g : String) : (q.releaseWelcomeBuffer g).Rotated mode := by
  unfold Queues.releaseWelcomeBuffer
  split
  · exact h.windows _
  · exact h.windows _
  · refine (h.windows _).updateBucket _ fun t ht => ?_
    rw [tier_unshift_all, if_neg (ne_of_mem_of_not_mem messages_mem_tiers ht).symm]
    exact h.picked t ht _

theorem Rotated.releaseAll (ks : List String)
    (h : q.Rotated mode) : (ks.foldl Queues.releaseWelcomeBuffer q).Rotated mode := by
  induction ks generalizing q with
  | nil => exact h
  | cons g ks ih => exact ih (h.release g)

theorem Rotated.stranded (h : q.Rotated mode) : q.releaseStrandedWelcomeBuffers.Rotated mode := by
  unfold Queues.releaseStrandedWelcomeBuffers
  split
  · exact h
  · exact h.releaseAll _

theorem Rotated.prune (h : q.Rotated mode) : q.pruneEmptyKeys.Rotated mode where
  listed := by
    intro key hkey
    have hget : ((q.rrKeys.filter fun key => decide ((q.bucketAt key).size = 0)).foldl JsMap.delete q.buckets).has key
      = true := hkey
    rw [JsMap.has, get_deleteAll] at hget
    split at hget
    · cases hget
    · rename_i hnot
      have hold := h.listed key hget
      refine mem_filter.mpr ⟨hold, ?_⟩
      rw [Bool.not_eq_true', Bool.eq_false_iff]
      exact fun hempty => hnot (mem_filter.mpr ⟨hold, hempty⟩)
  picked := by
    intro t ht key
    rw [bucketAt_pruneEmptyKeys]
    exact h.picked t ht key

theorem Rotated.pickFromTier {lock : Lock} {q' : Queues β} {t : Tier} {p : PickedFrame β} (h : q.Rotated mode)
    (hp : q.pickFromTier lock t = some (p, q')) : q'.Rotated mode ∧ p.tier = t := by
  obtain ⟨idx, -, hp⟩ := bind_eq_some_iff.mp hp
  obtain ⟨key, -, hp⟩ := bind_eq_some_iff.mp hp
  obtain ⟨b, hb, hp⟩ := bind_eq_some_iff.mp hp
  have hat : q.bucketAt key = b := by
    rw [bucketAt, hb]
    rfl
  cases ht : b.tier t with
  | nil => simp [ht] at hp
  | cons m rest =>
    simp only [ht] at hp
    cases hp
    refine ⟨⟨fun j hj => ?_, fun t' ht' j => ?_⟩, rfl⟩
    · have hj' : (decide (j = key) || q.buckets.has j) = true := by
        rw [← has_set]
        exact hj
      rcases Bool.or_eq_true _ _ ▸ hj' with hj | hj
      · exact h.listed j (by rw [of_decide_eq_true hj, JsMap.has, hb]; rfl)
      · exact h.listed j hj
    · show ((q.buckets.set key (b.setTier rest t)).get j |>.getD .empty).tier t' = []
      rw [JsMap.get_set]
      split
      · rw [getD_some, tier_setTier]
        split
        · rename_i e
          have hnone := h.picked t' ht' key
          rw [hat, e, ht] at hnone
          cases hnone
        · exact hat ▸ h.picked t' ht' key
      · exact h.picked t' ht' j

theorem Rotated.pickNext {lock : Lock} {q' : Queues β} {p : Option (PickedFrame β)} (h : q.Rotated mode)
    (hp : q.pickNext mode lock = (p, q')) :
    q'.Rotated mode ∧ ∀ picked, p = some picked → picked.tier ∈ tiers mode := by
  unfold Queues.pickNext at hp
  split at hp
  · cases hp
    exact ⟨h, fun _ hn => nomatch hn⟩
  · split at hp
    · rename_i picked q₁ hpick
      cases hp
      obtain ⟨t, ht, hfrom⟩ := exists_of_findSome?_eq_some hpick
      obtain ⟨hrot, htier⟩ := h.pickFromTier hfrom
      refine ⟨hrot.prune, fun _ he => ?_⟩
      cases he
      exact htier ▸ ht
    · cases hp
      exact ⟨h.prune, fun _ hn => nomatch hn⟩

end Kept

end Queues

/-! ## Runs -/

/-- The queues are rotated, and the frame in the drain's hand may be put back. -/
def InRotation (mode : MlsPerGroupQueueMode) (f : Frames β) : Prop :=
  f.queues.Rotated mode ∧ ∀ picked, f.hand = some picked → picked.tier ∈ Queues.tiers mode

theorem inRotation_move : Unmoved (β := β) mode (InRotation mode) := by
  intro f f' hmove h
  cases hmove with
  | enqueue msg => exact ⟨h.1.enqueue msg, h.2⟩
  | pick hand hp => exact h.1.pickNext hp
  | putBack hand => exact ⟨h.1.unshift _ (h.2 _ hand) _, fun _ hn => nomatch hn⟩
  | handOver hand => exact ⟨h.1, fun _ hn => nomatch hn⟩
  | stranded => exact ⟨h.1.stranded, h.2⟩

theorem inRotation_of_reach {s : St β} (h : (scheduler β mode).Reach s) : InRotation mode s.frames := by
  refine h.invariant (I := fun s => InRotation mode s.frames) ?_ ?_
  · intro s hs
    obtain rfl := hs
    exact ⟨⟨(fun key hkey => nomatch hkey), fun t _ key => by cases t <;> rfl⟩, fun _ hn => nomatch hn⟩
  · intro s e s' hi hs
    exact step_frames inRotation_move (fun g _ => ⟨hi.1.release g, hi.2⟩) hi hs

/-- In every reachable state and under any commit, there is runnable work exactly when the next pick
    finds a frame; so the drain's loop stops exactly when there is none. -/
theorem runnable_iff_picks (mode : MlsPerGroupQueueMode) (s : St β) (h : (scheduler β mode).Reach s) :
    (∀ lock, s.queues.hasRunnableWork lock = (s.queues.pickNext mode lock).1.isSome) ∧
      ((loop mode s).phase = .flushing ↔ s.queues.hasRunnableWork s.lock = false) := by
  have hk : s.queues.Keyed := (kept_of_reach h).1.keyed
  have hpicks : ∀ lock, s.queues.hasRunnableWork lock = (s.queues.pickNext mode lock).1.isSome :=
    fun lock => Queues.hasRunnableWork_iff_picks hk (inRotation_of_reach h).1
  refine ⟨hpicks, ?_⟩
  rw [loop]
  split
  · refine iff_of_true rfl (Bool.eq_false_iff.mpr fun hwork => ?_)
    obtain ⟨key, b, hb, t, hready⟩ := (Queues.hasRunnableWork_iff hk).mp hwork
    have hpos := (Queues.getPendingCount_pos_iff hk).mpr ⟨key, b, hb, t, hready.1⟩
    omega
  · rw [hpicks]
    split
    · rename_i hp
      rw [hp]
      simp
    · rename_i picked queues hp
      rw [hp]
      split
      · simp [handOver]
      · simp

/-- A commit of group `g` is granted while frames of `g` and `h` wait. -/
def heldBackRun : List (Event Nat) :=
    [.enqueue early, .enqueue ⟨some "h", false, none, 3⟩, .acquireExclusive 1 (some "g")]

/-- Only the frame of the other group is runnable, and it is the one picked. -/
theorem heldBackRun_picks_the_other : ∃ s : St Nat, (scheduler Nat .tauri).Reach s ∧
    s.queues.hasRunnableWork s.lock = true ∧
    s.queues.getRunnableCount s.lock = 1 ∧ (s.queues.pickNext .tauri s.lock).1.isSome = true := by
  have hrun : ((scheduler Nat .tauri).run start heldBackRun).map
    (fun s => (s.queues.hasRunnableWork s.lock, s.queues.getRunnableCount s.lock)) =
      some (true, 1) := by decide
  obtain ⟨s, hs, hends⟩ := map_eq_some_iff.mp hrun
  obtain ⟨hwork, hcount⟩ := Prod.mk.inj hends
  have hreach := Machine.reach_of_run (M := scheduler Nat .tauri) heldBackRun rfl hs
  exact ⟨s, hreach, hwork, hcount, ((runnable_iff_picks .tauri s hreach).1 s.lock).symm.trans hwork⟩

end Canari.Mls.Scheduler
