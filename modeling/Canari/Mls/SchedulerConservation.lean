/-
  Canari.Mls.SchedulerConservation — no frame is lost and none is handed over twice
  (see `Canari.Mls.PerGroupScheduler`).

  A frame is in a tier of a bucket, in the buffer of a window, in the drain's hand, or was
  handed to `processMessage`. `Kept` says that what was enqueued is what is in these places, up
  to the order; each stretch of the code moves frames from one to another. Two frames are told
  apart by what they carry, which is any type.
  - `frames_conserved`: in every reachable state, for any order of events. A window that no
    bucket's frame can close any more does not outlive the drain (`NoStrandedWindow`).
-/

import Canari.Mls.SchedulerOrder

namespace Canari.Mls.Scheduler

open Lib List Option

variable {β : Type} {mode : MlsPerGroupQueueMode}

/-! ## Places -/

inductive Place where
  | bucket (key : String) (tier : Tier)
  | buffer (groupId : String)
  | hand
  | processMessage

def St.framesAt (s : St β) : Place → List (MlsQueuedMessage β)
  | .bucket key tier => (s.queues.bucketAt key).tier tier
  | .buffer groupId => s.queues.bufferOf (some groupId)
  | .hand => s.phase.inHand
  | .processMessage => s.handed

def GroupBuckets.all (b : GroupBuckets β) : List (MlsQueuedMessage β) := b.control ++ b.welcome ++ b.messages

namespace Queues

def bucketed (q : Queues β) : List (MlsQueuedMessage β) := q.buckets.values.flatMap GroupBuckets.all

def buffered (q : Queues β) : List (MlsQueuedMessage β) := q.pendingWelcomeGroups.values.flatMap id

structure Keyed (q : Queues β) : Prop where
  buckets : q.buckets.keys.Nodup
  windows : q.pendingWelcomeGroups.keys.Nodup

end Queues

structure Kept (f : Frames β) : Prop where
  keyed : f.queues.Keyed
  frames : f.enqueued.Perm (f.handed ++ (f.hand.map (·.msg)).toList ++ (f.queues.bucketed ++ f.queues.buffered))

/-- Between two drains, a window is open only while some bucket has a frame. -/
def NoStrandedWindow (s : St β) : Prop :=
    s.phase = .idle → s.queues.bucketed = [] → s.queues.pendingWelcomeGroups = .empty

/-! ## Buckets -/

theorem all_push (b : GroupBuckets β) (t : Tier) (m : MlsQueuedMessage β) : (b.push t m).all.Perm (m :: b.all) := by
  obtain ⟨control, welcome, messages⟩ := b
  cases t with
  | control =>
    show ((control ++ [m]) ++ welcome ++ messages).Perm _
    rw [append_assoc, append_assoc]
    refine perm_middle.trans ?_
    simp [GroupBuckets.all]
  | welcome =>
    show (control ++ (welcome ++ [m]) ++ messages).Perm _
    rw [← append_assoc, append_assoc]
    exact perm_middle
  | messages =>
    show (control ++ welcome ++ (messages ++ [m])).Perm _
    rw [← append_assoc]
    exact perm_append_singleton _ _

theorem all_unshift (b : GroupBuckets β) (t : Tier)
    (m : MlsQueuedMessage β) : (b.unshift t m).all.Perm (m :: b.all) := by
  obtain ⟨control, welcome, messages⟩ := b
  cases t with
  | control => exact .refl _
  | welcome =>
    show (control ++ (m :: welcome) ++ messages).Perm _
    rw [append_assoc]
    refine perm_middle.trans ?_
    simp [GroupBuckets.all]
  | messages => exact perm_middle

theorem all_unshift_all (l : List (MlsQueuedMessage β)) (b : GroupBuckets β) :
    (l.foldr (fun m b => b.unshift .messages m) b).all.Perm (l ++ b.all) := by
  induction l with
  | nil => exact .refl _
  | cons m l ih => exact (all_unshift _ .messages m).trans (ih.cons m)

namespace Queues

variable {q q' : Queues β}

theorem bucketed_at (h : q.Keyed) (key : String) :
    q.bucketed.Perm ((q.bucketAt key).all ++ (q.buckets.delete key).values.flatMap GroupBuckets.all) :=
  JsMap.perm_values_at rfl h.buckets key

theorem bucketed_updateBucket (h : q.Keyed) {key : String} {f : GroupBuckets β → GroupBuckets β}
    {l : List (MlsQueuedMessage β)}
    (hf : (f (q.bucketAt key)).all.Perm (l ++ (q.bucketAt key).all)) :
    (q.updateBucket key f).bucketed.Perm (l ++ q.bucketed) := by
  have hset := JsMap.perm_values_set GroupBuckets.all h.buckets key (f (q.bucketAt key))
  have hold := (bucketed_at h key).append_left l
  rw [← append_assoc] at hold
  exact (hset.trans (hf.append_right _)).trans hold.symm

theorem keyed_updateBucket (h : q.Keyed) (key : String)
    (f : GroupBuckets β → GroupBuckets β) : (q.updateBucket key f).Keyed :=
  ⟨JsMap.nodup_keys_set h.buckets key _, h.windows⟩

theorem buffered_at (h : q.Keyed) (g : String) :
    q.buffered.Perm (q.bufferOf (some g) ++ (q.pendingWelcomeGroups.delete g).values.flatMap id) :=
  JsMap.perm_values_at (d := []) rfl h.windows g

/-! ## Enqueue, release -/

theorem buffered_openWindow (q : Queues β)
    (groupId : Option String) : (q.openWindow groupId).buffered = q.buffered := by
  unfold openWindow
  cases groupId with
  | none => rfl
  | some g =>
    dsimp only
    split
    · rfl
    · rename_i hg
      have hnone : q.pendingWelcomeGroups.get g = none := by
        by_contra hne
        exact hg (.inr (isSome_iff_ne_none.mpr hne))
      show (q.pendingWelcomeGroups.set g []).values.flatMap id = _
      rw [JsMap.values_set_new hnone]
      simp [buffered]

theorem keyed_openWindow (h : q.Keyed) (groupId : Option String) : (q.openWindow groupId).Keyed := by
  unfold openWindow
  cases groupId with
  | none => exact h
  | some g =>
    dsimp only
    split
    · exact h
    · exact ⟨h.buckets, JsMap.nodup_keys_set h.windows g []⟩

theorem bucketed_openWindow (q : Queues β)
    (groupId : Option String) : (q.openWindow groupId).bucketed = q.bucketed := by
  unfold openWindow
  cases groupId with
  | none => rfl
  | some g =>
    dsimp only
    split <;> rfl

/-- An enqueued frame is in a bucket, or behind a window that is open. -/
theorem enqueue_kept (h : q.Keyed) (m : MlsQueuedMessage β) : (q.enqueue mode m).Keyed ∧
    ((q.enqueue mode m).bucketed.Perm (m :: q.bucketed) ∧ (q.enqueue mode m).buffered = q.buffered ∨
      (q.enqueue mode m).bucketed = q.bucketed ∧ (q.enqueue mode m).buffered.Perm (m :: q.buffered) ∧
        q.pendingWelcomeGroups ≠ .empty) := by
  have hpush : ∀ (q : Queues β), q.Keyed → ∀ key t, (q.updateBucket key (·.push t m)).bucketed.Perm (m :: q.bucketed) :=
    fun q h key t => bucketed_updateBucket (l := [m]) h (all_push (q.bucketAt key) t m)
  have hunshift : ∀ (q : Queues β), q.Keyed → ∀ key t,
    (q.updateBucket key (·.unshift t m)).bucketed.Perm (m :: q.bucketed) :=
    fun q h key t => bucketed_updateBucket (l := [m]) h (all_unshift (q.bucketAt key) t m)
  have hopen := keyed_openWindow h m.groupId
  unfold enqueue
  split
  · exact ⟨keyed_updateBucket h _ _, .inl ⟨hpush q h _ _, rfl⟩⟩
  cases hw : m.isWelcome with
  | true =>
    cases mode with
    | tauri =>
      have hb := hpush _ hopen (queueKey m.groupId) .welcome
      rw [bucketed_openWindow] at hb
      exact ⟨keyed_updateBucket hopen _ _, .inl ⟨hb, buffered_openWindow q m.groupId⟩⟩
    | web =>
      have hb := hunshift _ hopen (queueKey m.groupId) .messages
      rw [bucketed_openWindow] at hb
      exact ⟨keyed_updateBucket hopen _ _, .inl ⟨hb, buffered_openWindow q m.groupId⟩⟩
  | false =>
    cases hwin : q.window m.groupId with
    | none => exact ⟨keyed_updateBucket h _ _, .inl ⟨hpush q h _ _, rfl⟩⟩
    | some w =>
      obtain ⟨g, held⟩ := w
      obtain ⟨-, -, hget⟩ := window_eq_some hwin
      refine ⟨⟨h.buckets, JsMap.nodup_keys_set h.windows g _⟩, .inr ⟨rfl, ?_, ?_⟩⟩
      · have hset := JsMap.perm_values_set id h.windows g (held ++ [m])
        have hold := buffered_at h g
        have hbuf : q.bufferOf (some g) = held := by simp [bufferOf, hget]
        rw [hbuf] at hold
        refine hset.trans ?_
        show ((held ++ [m]) ++ _).Perm _
        rw [append_assoc]
        exact perm_middle.trans (hold.symm.cons m)
      · intro he
        rw [he] at hget
        cases hget

theorem keyed_release (h : q.Keyed) (g : String) : (q.releaseWelcomeBuffer g).Keyed := by
  have hclosed : { q with pendingWelcomeGroups := q.pendingWelcomeGroups.delete g }.Keyed :=
    ⟨h.buckets, JsMap.nodup_keys_delete h.windows g⟩
  unfold releaseWelcomeBuffer
  split
  · exact hclosed
  · exact hclosed
  · exact keyed_updateBucket hclosed _ _

theorem release_kept (h : q.Keyed)
    (g : String) : (q.releaseWelcomeBuffer g).bucketed.Perm (q.bufferOf (some g) ++ q.bucketed) ∧
    q.buffered.Perm (q.bufferOf (some g) ++ (q.releaseWelcomeBuffer g).buffered) := by
  have hclosed : { q with pendingWelcomeGroups := q.pendingWelcomeGroups.delete g }.Keyed :=
    ⟨h.buckets, JsMap.nodup_keys_delete h.windows g⟩
  have hwindows : (q.releaseWelcomeBuffer g).pendingWelcomeGroups = q.pendingWelcomeGroups.delete g := by
    unfold releaseWelcomeBuffer
    split <;> rfl
  refine ⟨?_, ?_⟩
  · have hbuf : q.bufferOf (some g) = (q.pendingWelcomeGroups.get g).getD [] := rfl
    rw [hbuf]
    unfold releaseWelcomeBuffer
    cases hg : q.pendingWelcomeGroups.get g with
    | none => exact .refl _
    | some held =>
      cases held with
      | nil => exact .refl _
      | cons m held => exact bucketed_updateBucket hclosed (all_unshift_all (m :: held) _)
  · unfold buffered
    rw [hwindows]
    exact buffered_at h g

theorem release_frames (h : q.Keyed) (g : String) :
    (q.bucketed ++ q.buffered).Perm ((q.releaseWelcomeBuffer g).bucketed ++ (q.releaseWelcomeBuffer g).buffered) := by
  obtain ⟨hb, hw⟩ := release_kept h g
  refine (hw.append_left q.bucketed).trans ?_
  rw [← append_assoc]
  exact (perm_append_comm.trans hb.symm).append_right _

theorem bucketed_release_ne_nil (h : q.Keyed) (hne : q.bucketed ≠ [])
    (g : String) : (q.releaseWelcomeBuffer g).bucketed ≠ [] := by
  intro he
  have hperm := (release_kept h g).1
  rw [he] at hperm
  exact hne (append_eq_nil_iff.mp hperm.nil_eq.symm).2

theorem releaseAll_frames (ks : List String) : ∀ {q : Queues β}, q.Keyed →
    (ks.foldl releaseWelcomeBuffer q).Keyed ∧
      (q.bucketed ++ q.buffered).Perm
        ((ks.foldl releaseWelcomeBuffer q).bucketed ++ (ks.foldl releaseWelcomeBuffer q).buffered) := by
  induction ks with
  | nil => exact fun h => ⟨h, .refl _⟩
  | cons k ks ih =>
    intro q h
    obtain ⟨hk, hp⟩ := ih (keyed_release h k)
    exact ⟨hk, (release_frames h k).trans hp⟩

theorem get_releaseAll (ks : List String) (j : String) : ∀ {q : Queues β},
    (ks.foldl releaseWelcomeBuffer q).pendingWelcomeGroups.get j = if j ∈ ks then none else
      q.pendingWelcomeGroups.get j := by
  induction ks with
  | nil => simp
  | cons k ks ih =>
    intro q
    rw [foldl_cons, ih, get_release]
    by_cases hj : j ∈ ks
    · simp [hj]
    · by_cases hk : j = k <;> simp [hj, hk]

theorem eq_empty_of_get {m : JsMap String (List (MlsQueuedMessage β))} (h : ∀ j, m.get j = none) : m = .empty := by
  obtain ⟨entries⟩ := m
  cases entries with
  | nil => rfl
  | cons e l =>
    have he := h e.1
    rw [JsMap.get_cons_self] at he
    cases he

theorem getPendingCount_eq (q : Queues β) : q.getPendingCount = q.bucketed.length := by
  unfold getPendingCount bucketed
  rw [length_flatMap]
  congr 1
  refine map_congr_left fun b _ => ?_
  simp [GroupBuckets.size, GroupBuckets.all, Nat.add_assoc]

theorem stranded_kept (h : q.Keyed) : q.releaseStrandedWelcomeBuffers.Keyed ∧
    (q.bucketed ++ q.buffered).Perm
      (q.releaseStrandedWelcomeBuffers.bucketed ++ q.releaseStrandedWelcomeBuffers.buffered) ∧
    (q.releaseStrandedWelcomeBuffers.bucketed = [] →
      q.releaseStrandedWelcomeBuffers.pendingWelcomeGroups = .empty) := by
  unfold releaseStrandedWelcomeBuffers
  split
  · rename_i hp
    refine ⟨h, .refl _, fun he => ?_⟩
    rw [getPendingCount_eq, he] at hp
    exact absurd hp (Nat.lt_irrefl 0)
  · obtain ⟨hk, hf⟩ := releaseAll_frames q.pendingWelcomeGroups.keys h
    refine ⟨hk, hf, fun _ => eq_empty_of_get fun j => ?_⟩
    rw [get_releaseAll]
    by_cases hj : j ∈ q.pendingWelcomeGroups.keys
    · rw [if_pos hj]
    · rw [if_neg hj]
      cases hg : q.pendingWelcomeGroups.get j with
      | none => rfl
      | some held => exact absurd (JsMap.mem_keys.mpr ⟨held, hg⟩) hj

/-! ## Pick, put back -/

theorem prune_frames (ks : List String) : ∀ {m : JsMap String (GroupBuckets β)}, m.keys.Nodup →
    (∀ k ∈ ks, ((m.get k).getD .empty).size = 0) →
    (ks.foldl JsMap.delete m).keys.Nodup ∧
      ((ks.foldl JsMap.delete m).values.flatMap GroupBuckets.all).Perm (m.values.flatMap GroupBuckets.all) := by
  induction ks with
  | nil => exact fun hm _ => ⟨hm, .refl _⟩
  | cons k ks ih =>
    intro m hm hz
    have hdel : (m.values.flatMap GroupBuckets.all).Perm ((m.delete k).values.flatMap GroupBuckets.all) := by
      have hat := JsMap.perm_values_at (f := GroupBuckets.all) (d := .empty) rfl hm k
      rw [eq_empty_of_size (hz k mem_cons_self)] at hat
      exact hat
    have hz' : ∀ j ∈ ks, (((m.delete k).get j).getD .empty).size = 0 := by
      intro j hj
      rw [JsMap.get_delete]
      split
      · rfl
      · exact hz j (mem_cons_of_mem k hj)
    obtain ⟨hn, hp⟩ := ih (JsMap.nodup_keys_delete hm k) hz'
    exact ⟨hn, hp.trans hdel.symm⟩

theorem pruneEmptyKeys_kept (h : q.Keyed) : q.pruneEmptyKeys.Keyed ∧ q.pruneEmptyKeys.bucketed.Perm q.bucketed := by
  have hz : ∀ k ∈ q.rrKeys.filter fun key => decide ((q.bucketAt key).size = 0),
    ((q.buckets.get k).getD .empty).size = 0 := by
    intro k hk
    exact of_decide_eq_true (mem_filter.mp hk).2
  obtain ⟨hn, hp⟩ := prune_frames _ h.buckets hz
  exact ⟨⟨hn, h.windows⟩, hp⟩

theorem setTier_all {b : GroupBuckets β} {t : Tier} {m : MlsQueuedMessage β} {rest : List (MlsQueuedMessage β)}
    (h : b.tier t = m :: rest) :
    b.all.Perm (m :: (b.setTier rest t).all) := by
  have hu := all_unshift (b.setTier rest t) t m
  rwa [unshift_setTier h] at hu

theorem pickFromTier_kept {lock : Lock} {t : Tier} {p : PickedFrame β} (h : q.Keyed)
    (hp : q.pickFromTier lock t = some (p, q')) :
    q'.Keyed ∧ q.bucketed.Perm (p.msg :: q'.bucketed) ∧ q'.buffered = q.buffered := by
  obtain ⟨idx, -, hp⟩ := bind_eq_some_iff.mp hp
  obtain ⟨key, -, hp⟩ := bind_eq_some_iff.mp hp
  obtain ⟨b, hb, hp⟩ := bind_eq_some_iff.mp hp
  cases ht : b.tier t with
  | nil => simp [ht] at hp
  | cons m rest =>
    simp only [ht] at hp
    cases hp
    refine ⟨⟨JsMap.nodup_keys_set h.buckets key _, h.windows⟩, ?_, rfl⟩
    have hold := JsMap.perm_values_of_get GroupBuckets.all h.buckets hb
    have hset := JsMap.perm_values_set GroupBuckets.all h.buckets key (b.setTier rest t)
    exact (hold.trans ((setTier_all ht).append_right _)).trans (hset.symm.cons m)

theorem pickNext_kept {lock : Lock} {p : Option (PickedFrame β)} (h : q.Keyed) (hp : q.pickNext mode lock = (p, q')) :
    q'.Keyed ∧ q.bucketed.Perm ((p.map (·.msg)).toList ++ q'.bucketed) ∧ q'.buffered = q.buffered := by
  unfold pickNext at hp
  split at hp
  · cases hp
    exact ⟨h, .refl _, rfl⟩
  · split at hp
    · rename_i picked q₁ hpick
      cases hp
      obtain ⟨t, -, ht⟩ := exists_of_findSome?_eq_some hpick
      obtain ⟨hk, hb, hw⟩ := pickFromTier_kept h ht
      obtain ⟨hk', hb'⟩ := pruneEmptyKeys_kept hk
      exact ⟨hk', hb.trans (hb'.symm.cons picked.msg), hw⟩
    · cases hp
      obtain ⟨hk', hb'⟩ := pruneEmptyKeys_kept h
      exact ⟨hk', hb'.symm, rfl⟩

theorem putBack_kept (h : q.Keyed) (p : PickedFrame β) :
    (q.putBack p).Keyed ∧ (q.putBack p).bucketed.Perm (p.msg :: q.bucketed) ∧ (q.putBack p).buffered = q.buffered :=
  ⟨keyed_updateBucket h _ _, bucketed_updateBucket (l := [p.msg]) h (all_unshift _ p.tier p.msg), rfl⟩

end Queues

/-! ## Runs -/

theorem kept_move : Unmoved (β := β) mode Kept := by
  intro f f' hmove h
  cases hmove with
  | enqueue msg =>
    obtain ⟨hk, hcase⟩ := @Queues.enqueue_kept β mode f.queues h.keyed msg
    refine ⟨hk, ?_⟩
    have hnew : ((f.queues.enqueue mode msg).bucketed ++ (f.queues.enqueue mode msg).buffered).Perm
        (msg :: (f.queues.bucketed ++ f.queues.buffered)) := by
      rcases hcase with ⟨hb, hw⟩ | ⟨hb, hw, -⟩
      · rw [hw]
        exact hb.append_right _
      · rw [hb]
        exact (hw.append_left _).trans perm_middle
    refine (perm_append_singleton msg _).trans ((h.frames.cons msg).trans ?_)
    exact perm_middle.symm.trans (hnew.symm.append_left _)
  | @pick lock picked queues hand hp =>
    obtain ⟨hk, hb, hw⟩ := Queues.pickNext_kept h.keyed hp
    refine ⟨hk, h.frames.trans ?_⟩
    rw [hand, hw]
    simp only [map_none, toList_none, append_nil, append_assoc]
    have hmoved := (hb.append_right f.queues.buffered).append_left f.handed
    rwa [append_assoc] at hmoved
  | @putBack p hand =>
    obtain ⟨hk, hb, hw⟩ := Queues.putBack_kept h.keyed p
    refine ⟨hk, h.frames.trans ?_⟩
    rw [hand, hw]
    have hmoved := (hb.append_right f.queues.buffered).append_left f.handed
    simpa using hmoved.symm
  | @handOver p hand =>
    refine ⟨h.keyed, ?_⟩
    have hframes := h.frames
    rw [hand] at hframes
    simpa using hframes
  | stranded =>
    obtain ⟨hk, hf, -⟩ := Queues.stranded_kept h.keyed
    exact ⟨hk, h.frames.trans (hf.append_left _)⟩

theorem kept_step {s s' : St β} {e : Event β} (h : Kept s.frames) (hs : step mode s e = some s') : Kept s'.frames := by
  refine step_frames kept_move ?_ h hs
  intro g _
  have hk : s.queues.Keyed := h.keyed
  exact ⟨Queues.keyed_release hk g, h.frames.trans ((Queues.release_frames hk g).append_left _)⟩

theorem loop_not_idle (s : St β) : (loop mode s).phase ≠ .idle := by
  unfold loop handOver
  split
  · exact nofun
  · split
    · exact nofun
    · split
      · exact nofun
      · exact nofun

theorem afterFrame_not_idle (s : St β) : (afterFrame mode s).phase ≠ .idle := by
  unfold afterFrame
  split
  · exact nofun
  · exact loop_not_idle s

theorem noStrandedWindow_step {s s' : St β} {e : Event β} (hk : s.queues.Keyed) (h : NoStrandedWindow s)
    (hs : step mode s e = some s') :
    NoStrandedWindow s' := by
  cases e with
  | enqueue msg =>
    cases hs
    intro hidle hnone
    rcases (@Queues.enqueue_kept β mode s.queues hk msg).2 with ⟨hb, -⟩ | ⟨hb, -, hopen⟩
    · rw [show (s.queues.enqueue mode msg).bucketed = [] from hnone] at hb
      exact absurd hb.nil_eq (by simp)
    · exact absurd (h hidle (hb.symm.trans hnone)) hopen
  | releaseWelcomeBuffer g =>
    cases hs
    intro hidle hnone
    have hempty : s.queues.bucketed = [] := by
      by_contra hne
      exact Queues.bucketed_release_ne_nil hk hne g hnone
    refine Queues.eq_empty_of_get fun j => ?_
    rw [Queues.get_release, h hidle hempty]
    split <;> rfl
  | drain =>
    simp only [step] at hs
    split at hs
    · cases hs
      split
      · exact h
      · exact fun hidle => by cases hidle
    · cases hs
      exact h
  | drainStarted threw =>
    simp only [step] at hs
    split at hs
    · cases hs
      split
      · exact fun hidle => by cases hidle
      · exact fun hidle => absurd hidle (loop_not_idle s)
    · cases hs
  | lockSettled =>
    simp only [step] at hs
    split at hs
    · split at hs
      · cases hs
      · cases hs
        exact fun hidle => absurd hidle (loop_not_idle _)
      · cases hs
        exact fun hidle => by cases hidle
      · cases hs
        exact fun hidle => by cases hidle
    · cases hs
  | processed threw =>
    simp only [step] at hs
    split at hs
    · cases hs
      split
      · exact fun hidle => by cases hidle
      · exact fun hidle => absurd hidle (afterFrame_not_idle _)
    · cases hs
  | yielded =>
    simp only [step] at hs
    split at hs
    · cases hs
      exact fun hidle => absurd hidle (loop_not_idle s)
    · cases hs
  | drainEnded =>
    simp only [step] at hs
    split at hs
    · cases hs
      exact fun _ => (Queues.stranded_kept hk).2.2
    · cases hs
  | acquireExclusive task commitGroup =>
    cases hs
    exact h
  | release =>
    simp only [step] at hs
    split at hs
    · cases hs
      exact h
    · cases hs
  | lend groupId =>
    obtain ⟨l, -, rfl⟩ := map_eq_some_iff.mp hs
    exact h
  | answered =>
    obtain ⟨l, -, rfl⟩ := map_eq_some_iff.mp hs
    exact h
  | reclaimed =>
    obtain ⟨l, -, rfl⟩ := map_eq_some_iff.mp hs
    exact h

theorem kept_of_reach {s : St β} (h : (scheduler β mode).Reach s) : Kept s.frames ∧ NoStrandedWindow s := by
  refine h.invariant (I := fun s => Kept s.frames ∧ NoStrandedWindow s) ?_ ?_
  · intro s hs
    rw [show s = start from hs]
    exact ⟨⟨⟨nodup_nil, nodup_nil⟩, .refl _⟩, fun _ _ => rfl⟩
  · intro s e s' hi hs
    exact ⟨kept_step hi.1 hs, noStrandedWindow_step hi.1.keyed hi.2 hs⟩

/-! ## One place -/

section Places

variable {s : St β} {m : MlsQueuedMessage β}

variable {b : GroupBuckets β}

theorem mem_all_iff : m ∈ b.all ↔ ∃ t, m ∈ b.tier t := by
  unfold GroupBuckets.all
  rw [mem_append, mem_append]
  constructor
  · intro h
    rcases h with (h | h) | h
    · exact ⟨.control, h⟩
    · exact ⟨.welcome, h⟩
    · exact ⟨.messages, h⟩
  · intro h
    obtain ⟨t, ht⟩ := h
    cases t with
    | control => exact .inl (.inl ht)
    | welcome => exact .inl (.inr ht)
    | messages => exact .inr ht

theorem mem_bucketed_iff {q : Queues β} (h : q.Keyed) : m ∈ q.bucketed ↔ ∃ key t, m ∈ (q.bucketAt key).tier t := by
  constructor
  · intro hm
    obtain ⟨b, hb, hmb⟩ := mem_flatMap.mp hm
    obtain ⟨e, he, rfl⟩ := mem_map.mp hb
    have hget : q.buckets.get e.1 = some e.2 := JsMap.lookup_of_mem h.buckets he
    obtain ⟨t, ht⟩ := (mem_all_iff).mp hmb
    refine ⟨e.1, t, ?_⟩
    rw [Queues.bucketAt, hget]
    exact ht
  · intro hm
    obtain ⟨key, t, ht⟩ := hm
    exact (Queues.bucketed_at h key).mem_iff.mpr (mem_append_left _ ((mem_all_iff).mpr ⟨t, ht⟩))

theorem mem_buffered_iff {q : Queues β} (h : q.Keyed) : m ∈ q.buffered ↔ ∃ g, m ∈ q.bufferOf (some g) := by
  constructor
  · intro hm
    obtain ⟨held, hb, hmb⟩ := mem_flatMap.mp hm
    obtain ⟨e, he, rfl⟩ := mem_map.mp hb
    have hget : q.pendingWelcomeGroups.get e.1 = some e.2 := JsMap.lookup_of_mem h.windows he
    refine ⟨e.1, ?_⟩
    show m ∈ (q.pendingWelcomeGroups.get e.1).getD []
    rw [hget]
    exact hmb
  · intro hm
    obtain ⟨g, hg⟩ := hm
    exact (Queues.buffered_at h g).mem_iff.mpr (mem_append_left _ hg)

theorem tier_unique (hn : b.all.Nodup) {t t' : Tier} (h : m ∈ b.tier t) (h' : m ∈ b.tier t') : t = t' := by
  unfold GroupBuckets.all at hn
  rw [nodup_append, nodup_append] at hn
  obtain ⟨⟨-, -, hcw⟩, -, hm⟩ := hn
  have hwelcome : m ∈ b.control → m ∉ b.welcome := fun h h' => hcw m h m h' rfl
  have hmessages : m ∈ b.control ++ b.welcome → m ∉ b.messages := fun h h' => hm m h m h' rfl
  cases t <;> cases t' <;> simp_all [GroupBuckets.tier]

theorem nodup_tier (hn : b.all.Nodup) (t : Tier) : (b.tier t).Nodup := by
  unfold GroupBuckets.all at hn
  rw [nodup_append, nodup_append] at hn
  obtain ⟨⟨hcontrol, hwelcome, -⟩, hmessages, -⟩ := hn
  cases t with
  | control => exact hcontrol
  | welcome => exact hwelcome
  | messages => exact hmessages

theorem bucket_unique {q : Queues β} (hk : q.Keyed) (hn : q.bucketed.Nodup) {key key' : String} {t t' : Tier}
    (h : m ∈ (q.bucketAt key).tier t) (h' : m ∈ (q.bucketAt key').tier t') : key = key' ∧ t = t' := by
  have hsplit := (Queues.bucketed_at hk key).nodup_iff.mp hn
  rw [nodup_append] at hsplit
  obtain ⟨hall, -, hdisjoint⟩ := hsplit
  by_cases hkey : key = key'
  · subst hkey
    exact ⟨rfl, tier_unique hall h h'⟩
  · -- the rest of the buckets still has the other one
    have hrest : ({ q with buckets := q.buckets.delete key } : Queues β).Keyed :=
      ⟨JsMap.nodup_keys_delete hk.buckets key, hk.windows⟩
    have hother : m ∈ ({ q with buckets := q.buckets.delete key } : Queues β).bucketed := by
      refine (mem_bucketed_iff hrest).mpr ⟨key', t', ?_⟩
      show m ∈ (((q.buckets.delete key).get key').getD .empty).tier t'
      rw [JsMap.get_delete, if_neg (Ne.symm hkey)]
      exact h'
    exact absurd rfl (hdisjoint m ((mem_all_iff).mpr ⟨t, h⟩) m hother)

theorem buffer_unique {q : Queues β} (hk : q.Keyed) (hn : q.buffered.Nodup) {g g' : String}
    (h : m ∈ q.bufferOf (some g))
    (h' : m ∈ q.bufferOf (some g')) : g = g' := by
  have hsplit := (Queues.buffered_at hk g).nodup_iff.mp hn
  rw [nodup_append] at hsplit
  obtain ⟨-, -, hdisjoint⟩ := hsplit
  by_contra hg
  have hrest : ({ q with pendingWelcomeGroups := q.pendingWelcomeGroups.delete g } : Queues β).Keyed :=
    ⟨hk.buckets, JsMap.nodup_keys_delete hk.windows g⟩
  have hother : m ∈ ({ q with pendingWelcomeGroups := q.pendingWelcomeGroups.delete g } : Queues β).buffered := by
    refine (mem_buffered_iff hrest).mpr ⟨g', ?_⟩
    show m ∈ ((q.pendingWelcomeGroups.delete g).get g').getD []
    rw [JsMap.get_delete, if_neg (Ne.symm hg)]
    exact h'
  exact absurd rfl (hdisjoint m h m hother)

def St.heldIn (s : St β) : Place → List (MlsQueuedMessage β)
  | .bucket .. => s.queues.bucketed
  | .buffer _ => s.queues.buffered
  | .hand => s.phase.inHand
  | .processMessage => s.handed

theorem heldIn_of_framesAt (hk : s.queues.Keyed) {p : Place} (h : m ∈ s.framesAt p) : m ∈ s.heldIn p := by
  cases p with
  | bucket key t => exact (mem_bucketed_iff hk).mpr ⟨key, t, h⟩
  | buffer g => exact (mem_buffered_iff hk).mpr ⟨g, h⟩
  | hand => exact h
  | processMessage => exact h

theorem place_unique (hk : s.queues.Keyed)
    (hn : (s.handed ++ s.phase.inHand ++ (s.queues.bucketed ++ s.queues.buffered)).Nodup)
    {p p' : Place} (h : m ∈ s.framesAt p) (h' : m ∈ s.framesAt p') : p = p' := by
  rw [nodup_append, nodup_append, nodup_append] at hn
  obtain ⟨⟨-, -, hhand⟩, ⟨hbuckets, hbuffers, hbuffer⟩, hqueued⟩ := hn
  have h1 : m ∈ s.handed → m ∉ s.phase.inHand := fun a b => hhand m a m b rfl
  have h2 : m ∈ s.queues.bucketed → m ∉ s.queues.buffered := fun a b => hbuffer m a m b rfl
  have h3 : m ∈ s.handed ++ s.phase.inHand → m ∉ s.queues.bucketed ++ s.queues.buffered :=
    fun a b => hqueued m a m b rfl
  have hp := heldIn_of_framesAt hk h
  have hp' := heldIn_of_framesAt hk h'
  cases p with
  | bucket key t =>
    cases p' with
    | bucket key' t' =>
      obtain ⟨rfl, rfl⟩ := bucket_unique hk hbuckets h h'
      rfl
    | _ => simp_all [St.heldIn]
  | buffer g =>
    cases p' with
    | buffer g' => rw [buffer_unique hk hbuffers h h']
    | _ => simp_all [St.heldIn]
  | hand => cases p' <;> simp_all [St.heldIn]
  | processMessage => cases p' <;> simp_all [St.heldIn]

end Places

/-- In every reachable state what was enqueued is, up to order, what was handed over, the hand, the
    buckets and the windows. So a frame unlike the others is in one place, once, and handed over at most
    once. And between two drains no window has a frame while every bucket is empty. -/
theorem frames_conserved (mode : MlsPerGroupQueueMode) (s : St β) (h : (scheduler β mode).Reach s) :
    s.enqueued.Perm (s.handed ++ s.phase.inHand ++ (s.queues.bucketed ++ s.queues.buffered)) ∧
      (s.enqueued.Nodup → (∀ m ∈ s.enqueued, ∃! p, m ∈ s.framesAt p) ∧ ∀ p, (s.framesAt p).Nodup) ∧
      (s.phase = .idle → (∀ key tier, s.framesAt (.bucket key tier) = []) → ∀ g, s.framesAt (.buffer g) = []) := by
  obtain ⟨hkept, hwindow⟩ := kept_of_reach h
  have hk : s.queues.Keyed := hkept.keyed
  have hhand : (s.frames.hand.map (·.msg)).toList = s.phase.inHand := by
    rw [St.frames]
    cases s.phase <;> rfl
  have hperm : s.enqueued.Perm (s.handed ++ s.phase.inHand ++ (s.queues.bucketed ++ s.queues.buffered)) := by
    rw [← hhand]
    exact hkept.frames
  refine ⟨hperm, fun hnodup => ?_, fun hidle hbuckets g => ?_⟩
  · have hn := hperm.nodup_iff.mp hnodup
    refine ⟨fun m hm => ?_, fun p => ?_⟩
    · have hsome : ∃ p, m ∈ s.framesAt p := by
        have hmem := hperm.mem_iff.mp hm
        simp only [mem_append] at hmem
        rcases hmem with (hm | hm) | hm | hm
        · exact ⟨.processMessage, hm⟩
        · exact ⟨.hand, hm⟩
        · obtain ⟨key, t, ht⟩ := (mem_bucketed_iff hk).mp hm
          exact ⟨.bucket key t, ht⟩
        · obtain ⟨g, hg⟩ := (mem_buffered_iff hk).mp hm
          exact ⟨.buffer g, hg⟩
      obtain ⟨p, hp⟩ := hsome
      exact ⟨p, hp, fun p' hp' => place_unique hk hn hp' hp⟩
    · rw [nodup_append, nodup_append, nodup_append] at hn
      obtain ⟨⟨hdone, hinHand, -⟩, ⟨hbuckets, hbuffers, -⟩, -⟩ := hn
      cases p with
      | bucket key t => exact nodup_tier (nodup_append.mp ((Queues.bucketed_at hk key).nodup_iff.mp hbuckets)).1 t
      | buffer g => exact (nodup_append.mp ((Queues.buffered_at hk g).nodup_iff.mp hbuffers)).1
      | hand => exact hinHand
      | processMessage => exact hdone
  · have hempty : s.queues.bucketed = [] := by
      refine eq_nil_iff_forall_not_mem.mpr fun m hm => ?_
      obtain ⟨key, t, ht⟩ := (mem_bucketed_iff hk).mp hm
      have hnone : (s.queues.bucketAt key).tier t = [] := hbuckets key t
      rw [hnone] at ht
      cases ht
    show (s.queues.pendingWelcomeGroups.get g).getD [] = []
    rw [hwindow hidle hempty]
    rfl

/-- A frame bounced and put back, a Welcome and a frame behind it: each is handed over once. -/
theorem bouncedRun_conserved : ∃ s : St Nat, (scheduler Nat .web).Reach s ∧ s.handed = [early, invitation, late] ∧
    s.enqueued.Nodup ∧
    (∀ m ∈ s.enqueued, ∃! p, m ∈ s.framesAt p) ∧ ∀ p, (s.framesAt p).Nodup := by
  have hrun : ((scheduler Nat .web).run start bouncedRun).map (fun s => (s.handed, s.enqueued)) =
      some ([early, invitation, late], [early, invitation, late]) := by decide
  obtain ⟨s, hs, hends⟩ := map_eq_some_iff.mp hrun
  obtain ⟨hhanded, henqueued⟩ := Prod.mk.inj hends
  have hreach := Machine.reach_of_run (M := scheduler Nat .web) bouncedRun rfl hs
  have hnodup : s.enqueued.Nodup := by
    rw [henqueued]
    decide
  exact ⟨s, hreach, hhanded, hnodup, (frames_conserved .web s hreach).2.1 hnodup⟩

end Canari.Mls.Scheduler
