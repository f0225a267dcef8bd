/-
  Canari.Mls.SchedulerOrder — the order in which one group's frames are handed over
  (see `Canari.Mls.PerGroupScheduler`).

  A frame that is no Welcome and no control frame is in one of three places until
  `processMessage` gets it: the drain's hand, its group's `messages` tier, or the
  buffer of its group's window. `InOrder` says that the three, in that order, are the
  frames that were enqueued and not handed over yet. Every operation keeps it but one:
  a release puts the buffer in front of the tier, so it keeps the order only when the
  tier holds no frame of the group or the buffer none (`releasesInOrder`). A frame that
  was queued when the Welcome arrived is overtaken by one that came after it
  (`frame_overtaken_at_release`).

  Along every run whose releases meet that condition, what `processMessage` was called
  with, frame for frame, begins the list of what was enqueued, in each group and both
  modes (`group_frames_handed_in_order`): nothing is overtaken, dropped or repeated.
-/

import Canari.Mls.SchedulerMoves

namespace Canari.Mls.Scheduler

open Lib List Option

variable {β : Type} {mode : MlsPerGroupQueueMode}

/-! ## The frames of a group -/

def ordinary (mode : MlsPerGroupQueueMode) (m : MlsQueuedMessage β) : Bool :=
  !m.isWelcome && !Queues.isControl mode m

def framesOf (mode : MlsPerGroupQueueMode) (g : Option String)
    (l : List (MlsQueuedMessage β)) : List (MlsQueuedMessage β) :=
  l.filter fun m => decide (m.groupId = g) && ordinary mode m

@[simp] theorem framesOf_nil (g : Option String) : framesOf mode g ([] : List (MlsQueuedMessage β)) = [] := rfl

@[simp] theorem framesOf_append (g : Option String) (l k : List (MlsQueuedMessage β)) :
    framesOf mode g (l ++ k) = framesOf mode g l ++ framesOf mode g k :=
  filter_append l k

theorem framesOf_cons (g : Option String) (m : MlsQueuedMessage β) (l : List (MlsQueuedMessage β)) :
    framesOf mode g (m :: l) = framesOf mode g [m] ++ framesOf mode g l :=
  framesOf_append g [m] l

variable {m : MlsQueuedMessage β}

theorem framesOf_other {g : Option String} (h : m.groupId ≠ g) : framesOf mode g [m] = [] := by
  simp [framesOf, h]

theorem framesOf_special {g : Option String} (h : ordinary mode m = false) :
    framesOf mode g [m] = [] := by
  simp [framesOf, h]

theorem ordinary_welcome (h : m.isWelcome = true) : ordinary mode m = false := by
  simp [ordinary, h]

theorem ordinary_control (h : Queues.isControl mode m = true) : ordinary mode m = false := by
  simp [ordinary, h]

/-! ## Where frames wait -/

namespace Queues

def bufferOf (q : Queues β) : Option String → List (MlsQueuedMessage β)
  | none => []
  | some g => (q.pendingWelcomeGroups.get g).getD []

/-- The frames of a group that wait, first the ones that will be picked first. -/
def waiting (mode : MlsPerGroupQueueMode) (q : Queues β) (g : Option String) : List (MlsQueuedMessage β) :=
  framesOf mode g (q.bucketAt (queueKey g)).messages ++ framesOf mode g (q.bufferOf g)

/-- Every frame is where its group and its kind put it. -/
structure WellPlaced (mode : MlsPerGroupQueueMode) (q : Queues β) : Prop where
  key : ∀ key tier, ∀ m ∈ (q.bucketAt key).tier tier, queueKey m.groupId = key
  special : ∀ key tier, tier ≠ .messages → ∀ m ∈ (q.bucketAt key).tier tier, ordinary mode m = false
  buffer : ∀ g, ∀ m ∈ q.bufferOf g, m.groupId = g
  unnamed : q.pendingWelcomeGroups.get "" = none

theorem bucketAt_updateBucket (q : Queues β) (key : String) (f : GroupBuckets β → GroupBuckets β) (j : String) :
    (q.updateBucket key f).bucketAt j = if j = key then f (q.bucketAt key) else q.bucketAt j := by
  unfold updateBucket bucketAt
  rw [JsMap.get_set]
  split <;> rfl

@[simp] theorem bufferOf_updateBucket (q : Queues β) (key : String) (f : GroupBuckets β → GroupBuckets β) :
    (q.updateBucket key f).bufferOf = q.bufferOf := rfl

theorem tier_setTier (b : GroupBuckets β) (l : List (MlsQueuedMessage β)) (t t' : Tier) :
    (b.setTier l t).tier t' = if t' = t then l else b.tier t' := by
  cases t <;> cases t' <;> rfl

theorem messages_setTier (b : GroupBuckets β) (l : List (MlsQueuedMessage β)) (t : Tier) :
    (b.setTier l t).messages = if t = .messages then l else b.messages := by
  cases t <;> rfl

variable {q : Queues β}

theorem WellPlaced.updateBucket (h : WellPlaced mode q) (key : String) (f : GroupBuckets β → GroupBuckets β)
    (hf : ∀ t, ∀ m ∈ (f (q.bucketAt key)).tier t, m ∈ (q.bucketAt key).tier t ∨
      queueKey m.groupId = key ∧ (t ≠ .messages → ordinary mode m = false)) :
    WellPlaced mode (q.updateBucket key f) := by
  refine ⟨?_, ?_, h.buffer, h.unnamed⟩
  · intro j t m hm
    rw [bucketAt_updateBucket] at hm
    split at hm
    · rename_i hj
      subst hj
      rcases hf t m hm with hm | hm
      · exact h.key _ t m hm
      · exact hm.1
    · exact h.key j t m hm
  · intro j t ht m hm
    rw [bucketAt_updateBucket] at hm
    split at hm
    · rcases hf t m hm with hm | hm
      · exact h.special _ t ht m hm
      · exact hm.2 ht
    · exact h.special j t ht m hm

theorem waiting_updateBucket (q : Queues β) (key : String) (f : GroupBuckets β → GroupBuckets β) (g : Option String) :
    (q.updateBucket key f).waiting mode g =
      framesOf mode g (if queueKey g = key then f (q.bucketAt key) else q.bucketAt (queueKey g)).messages ++
        framesOf mode g (q.bufferOf g) := by
  unfold waiting
  rw [bucketAt_updateBucket, bufferOf_updateBucket]

variable {t : Tier}

theorem waiting_unshift (q : Queues β) (ht : t ≠ .messages → ordinary mode m = false)
    (g : Option String) :
    (q.updateBucket (queueKey m.groupId) (·.unshift t m)).waiting mode g = framesOf mode g [m] ++ q.waiting mode g := by
  rw [waiting_updateBucket]
  unfold waiting GroupBuckets.unshift
  by_cases hk : queueKey g = queueKey m.groupId
  · rw [if_pos hk, messages_setTier]
    by_cases hm : t = .messages
    · subst hm
      rw [if_pos rfl, GroupBuckets.tier, framesOf_cons, hk, append_assoc]
    · rw [if_neg hm, framesOf_special (ht hm), hk, nil_append]
  · have hg : m.groupId ≠ g := fun e => hk (by rw [e])
    rw [if_neg hk, framesOf_other hg, nil_append]

theorem messages_push (b : GroupBuckets β) (t : Tier) (m : MlsQueuedMessage β) :
    (b.push t m).messages = if t = .messages then b.messages ++ [m] else b.messages := by
  cases t <;> rfl

theorem WellPlaced.push (h : WellPlaced mode q)
    (ht : t ≠ .messages → ordinary mode m = false) :
    WellPlaced mode (q.updateBucket (queueKey m.groupId) (·.push t m)) := by
  apply h.updateBucket
  intro t' x hx
  rw [GroupBuckets.push, tier_setTier] at hx
  split at hx
  · rename_i e
    subst e
    rcases mem_append.mp hx with hx | hx
    · exact .inl hx
    · obtain rfl := mem_singleton.mp hx
      exact .inr ⟨rfl, ht⟩
  · exact .inl hx

theorem WellPlaced.unshift (h : WellPlaced mode q)
    (ht : t ≠ .messages → ordinary mode m = false) :
    WellPlaced mode (q.updateBucket (queueKey m.groupId) (·.unshift t m)) := by
  apply h.updateBucket
  intro t' x hx
  rw [GroupBuckets.unshift, tier_setTier] at hx
  split at hx
  · rename_i e
    subst e
    rcases mem_cons.mp hx with rfl | hx
    · exact .inr ⟨rfl, ht⟩
    · exact .inl hx
  · exact .inl hx

/-! ## Enqueue -/

theorem bufferOf_openWindow (q : Queues β)
    (groupId g : Option String) : (q.openWindow groupId).bufferOf g = q.bufferOf g := by
  unfold openWindow
  cases groupId with
  | none => rfl
  | some w =>
    dsimp only
    split
    · rfl
    · rename_i hw
      cases g with
      | none => rfl
      | some g =>
        by_cases e : g = w
        · subst e
          have hn : q.pendingWelcomeGroups.get g = none := by
            cases hg : q.pendingWelcomeGroups.get g with
            | none => rfl
            | some l => exact absurd (.inr (by simp [JsMap.has, hg])) hw
          simp [bufferOf, hn]
        · simp [bufferOf, e]

@[simp] theorem bucketAt_openWindow (q : Queues β)
    (groupId : Option String) : (q.openWindow groupId).bucketAt = q.bucketAt := by
  unfold openWindow
  cases groupId with
  | none => rfl
  | some w => dsimp only; split <;> rfl

theorem WellPlaced.openWindow (h : WellPlaced mode q) (groupId : Option String) :
    WellPlaced mode (q.openWindow groupId) := by
  refine ⟨by rw [bucketAt_openWindow]; exact h.key, by rw [bucketAt_openWindow]; exact h.special, ?_, ?_⟩
  · intro g m hm
    rw [bufferOf_openWindow] at hm
    exact h.buffer g m hm
  · unfold Queues.openWindow
    cases groupId with
    | none => exact h.unnamed
    | some w =>
      dsimp only
      split
      · exact h.unnamed
      · rename_i hw
        have hne : "" ≠ w := fun e => hw (.inl e.symm)
        rw [JsMap.get_set_ne _ _ hne]
        exact h.unnamed

theorem waiting_openWindow (q : Queues β) (groupId g : Option String) :
    (q.openWindow groupId).waiting mode g = q.waiting mode g := by
  unfold waiting
  rw [bucketAt_openWindow, bufferOf_openWindow]

theorem bufferOf_of_window_none (h : WellPlaced mode q) {groupId : Option String} (hw : q.window groupId = none) :
    q.bufferOf groupId = [] := by
  cases groupId with
  | none => rfl
  | some g =>
    have hn : q.pendingWelcomeGroups.get g = none := by
      by_cases e : g = ""
      · rw [e]; exact h.unnamed
      · simpa [window, e] using hw
    simp [bufferOf, hn]

variable {g : String}

theorem window_eq_some {groupId : Option String} {held : List (MlsQueuedMessage β)}
    (h : q.window groupId = some (g, held)) : groupId = some g ∧ g ≠ "" ∧ q.pendingWelcomeGroups.get g = some held := by
  cases groupId with
  | none => cases h
  | some w =>
    simp only [window] at h
    split at h
    · cases h
    · rename_i hne
      obtain ⟨x, hx, he⟩ := map_eq_some_iff.mp h
      cases he
      exact ⟨rfl, hne, hx⟩

theorem waiting_push_special (q : Queues β) (ht : t ≠ .messages) (g : Option String) :
    (q.updateBucket (queueKey m.groupId) (·.push t m)).waiting mode g = q.waiting mode g := by
  rw [waiting_updateBucket]
  unfold waiting
  split
  · rename_i hk
    rw [messages_push, if_neg ht, hk]
  · rfl

theorem waiting_push_message (q : Queues β) (hb : q.bufferOf m.groupId = []) (g : Option String) :
    (q.updateBucket (queueKey m.groupId) (·.push .messages m)).waiting mode g = q.waiting mode g ++
      framesOf mode g [m] := by
  rw [waiting_updateBucket]
  unfold waiting
  by_cases hg : m.groupId = g
  · subst hg
    rw [if_pos rfl, messages_push, hb]
    simp
  · rw [framesOf_other hg, append_nil]
    split
    · rename_i hk
      rw [messages_push, if_pos rfl, framesOf_append, framesOf_other hg, append_nil, hk]
    · rfl

/-- A frame held behind its group's Welcome. -/
theorem hold_spec (h : WellPlaced mode q) {held : List (MlsQueuedMessage β)}
    (hw : q.window m.groupId = some (g, held)) :
    WellPlaced mode { q with pendingWelcomeGroups := q.pendingWelcomeGroups.set g (held ++ [m]) } ∧
    ∀ j, { q with pendingWelcomeGroups := q.pendingWelcomeGroups.set g (held ++ [m]) }.waiting mode j =
      q.waiting mode j ++ framesOf mode j [m] := by
  obtain ⟨hg, hne, hget⟩ := window_eq_some hw
  have hbuf : ∀ j, { q with pendingWelcomeGroups := q.pendingWelcomeGroups.set g (held ++ [m]) }.bufferOf j =
      if j = some g then q.bufferOf j ++ [m] else q.bufferOf j := by
    intro j
    cases j with
    | none => rfl
    | some j =>
      by_cases e : j = g
      · subst e; simp [bufferOf, hget]
      · simp [bufferOf, e]
  refine ⟨⟨h.key, h.special, ?_, ?_⟩, ?_⟩
  · intro j x hx
    rw [hbuf] at hx
    split at hx
    · rename_i e
      rcases mem_append.mp hx with hx | hx
      · exact h.buffer j x hx
      · obtain rfl := mem_singleton.mp hx
        rw [hg, e]
    · exact h.buffer j x hx
  · rw [JsMap.get_set_ne _ _ (Ne.symm hne)]
    exact h.unnamed
  · intro j
    unfold waiting
    rw [hbuf]
    show framesOf mode j (q.bucketAt (queueKey j)).messages ++ _ = _
    by_cases e : j = some g
    · rw [if_pos e, framesOf_append, append_assoc]
    · rw [if_neg e, framesOf_other (g := j) (by rw [hg]; exact Ne.symm e), append_nil]

theorem enqueue_spec (h : WellPlaced mode q) (m : MlsQueuedMessage β) :
    WellPlaced mode (q.enqueue mode m) ∧ ∀ g,
      (q.enqueue mode m).waiting mode g = q.waiting mode g ++ framesOf mode g [m] := by
  unfold enqueue
  split
  · rename_i hc
    have hs := ordinary_control hc
    refine ⟨h.push fun _ => hs, fun g => ?_⟩
    rw [waiting_push_special q (by decide), framesOf_special hs, append_nil]
  cases hw : m.isWelcome with
  | true =>
    have hs : ordinary mode m = false := ordinary_welcome hw
    cases mode with
    | tauri =>
      refine ⟨(h.openWindow _).push fun _ => hs, fun g => ?_⟩
      rw [waiting_push_special _ (by decide), framesOf_special hs, append_nil, waiting_openWindow]
    | web =>
      refine ⟨(h.openWindow _).unshift fun _ => hs, fun g => ?_⟩
      rw [waiting_unshift _ (fun _ => hs), framesOf_special hs, append_nil, nil_append, waiting_openWindow]
  | false =>
    cases hwin : q.window m.groupId with
    | some w => exact hold_spec h hwin
    | none => exact ⟨h.push fun ht => absurd rfl ht, waiting_push_message q (bufferOf_of_window_none h hwin)⟩

/-! ## Release -/

@[simp] theorem queueKey_some (g : String) : queueKey (some g) = g := rfl

theorem tier_unshift_all (l : List (MlsQueuedMessage β)) (b : GroupBuckets β) (t : Tier) :
    (l.foldr (fun m b => b.unshift .messages m) b).tier t = if t = .messages then l ++ b.messages else b.tier t := by
  induction l with
  | nil => cases t <;> rfl
  | cons m l ih =>
    rw [foldr_cons, GroupBuckets.unshift, tier_setTier]
    by_cases ht : t = .messages
    · subst ht
      rw [if_pos rfl, if_pos rfl, ih, if_pos rfl, cons_append]
    · rw [if_neg ht, if_neg ht, ih, if_neg ht]

theorem tier_release (q : Queues β) (g j : String) (t : Tier) :
    ((q.releaseWelcomeBuffer g).bucketAt j).tier t =
      if j = g ∧ t = .messages then q.bufferOf (some g) ++ (q.bucketAt j).messages else (q.bucketAt j).tier t := by
  have hnone : q.bufferOf (some g) = [] → (q.bucketAt j).tier t =
      if j = g ∧ t = .messages then q.bufferOf (some g) ++ (q.bucketAt j).messages else (q.bucketAt j).tier t := by
    intro he
    rw [he]
    split
    · rename_i h
      rw [h.2]
      rfl
    · rfl
  unfold releaseWelcomeBuffer
  cases hg : q.pendingWelcomeGroups.get g with
  | none => exact hnone (by simp [bufferOf, hg])
  | some l =>
    cases l with
    | nil => exact hnone (by simp [bufferOf, hg])
    | cons m l =>
      rw [bucketAt_updateBucket, queueKey_some]
      by_cases hj : j = g
      · subst hj
        rw [if_pos rfl, tier_unshift_all]
        by_cases ht : t = .messages
        · simp [bufferOf, hg, bucketAt]
        · rw [if_neg ht, if_neg fun h => ht h.2]
          rfl
      · rw [if_neg hj, if_neg fun h => hj h.1]
        rfl

theorem get_release (q : Queues β) (g j : String) :
    (q.releaseWelcomeBuffer g).pendingWelcomeGroups.get j = if j = g then none else q.pendingWelcomeGroups.get j := by
  have h : (q.releaseWelcomeBuffer g).pendingWelcomeGroups = q.pendingWelcomeGroups.delete g := by
    unfold releaseWelcomeBuffer
    split <;> rfl
  rw [h, JsMap.get_delete]

theorem bufferOf_release (q : Queues β) (g : String) (j : Option String) :
    (q.releaseWelcomeBuffer g).bufferOf j = if j = some g then [] else q.bufferOf j := by
  cases j with
  | none => rfl
  | some j =>
    unfold bufferOf
    dsimp only
    rw [get_release]
    by_cases e : j = g <;> simp [e]

theorem WellPlaced.release (h : WellPlaced mode q) (g : String) : WellPlaced mode (q.releaseWelcomeBuffer g) := by
  refine ⟨?_, ?_, ?_, ?_⟩
  · intro j t m hm
    rw [tier_release] at hm
    split at hm
    · rename_i e
      rcases mem_append.mp hm with hm | hm
      · rw [h.buffer (some g) m hm, e.1]
        rfl
      · exact h.key j .messages m hm
    · exact h.key j t m hm
  · intro j t ht m hm
    rw [tier_release, if_neg fun e => ht e.2] at hm
    exact h.special j t ht m hm
  · intro j m hm
    rw [bufferOf_release] at hm
    split at hm
    · cases hm
    · exact h.buffer j m hm
  · rw [get_release]
    split
    · rfl
    · exact h.unnamed

theorem framesOf_eq_nil {g : Option String} {l : List (MlsQueuedMessage β)}
    (h : ∀ m ∈ l, m.groupId ≠ g) : framesOf mode g l = [] := by
  unfold framesOf
  rw [filter_eq_nil_iff]
  intro m hm
  simp [h m hm]

/-- A release moves the buffer ahead of the tier, for its own group. -/
theorem waiting_release (h : WellPlaced mode q) (g : String) (j : Option String) :
    (q.releaseWelcomeBuffer g).waiting mode j =
      if j = some g then framesOf mode j (q.bufferOf j) ++ framesOf mode j (q.bucketAt (queueKey j)).messages else
        q.waiting mode j := by
  have ht := tier_release q g (queueKey j) .messages
  simp only [GroupBuckets.tier] at ht
  unfold waiting
  rw [ht, bufferOf_release]
  by_cases hj : j = some g
  · subst hj
    simp
  · split
    · have hother : framesOf mode j (q.bufferOf (some g)) = [] :=
        framesOf_eq_nil fun m hm => by rw [h.buffer (some g) m hm]; exact Ne.symm hj
      rw [framesOf_append, hother, nil_append]
    · rfl

/-- A release of `g` overtakes nothing: the buffer or the tier holds no frame of `g`. -/
def releasable (mode : MlsPerGroupQueueMode) (q : Queues β) (g : String) : Bool :=
  (framesOf mode (some g) (q.bufferOf (some g))).isEmpty ||
    (framesOf mode (some g) (q.bucketAt (queueKey (some g))).messages).isEmpty

theorem waiting_release_of_releasable (h : WellPlaced mode q) (hr : releasable mode q g = true)
    (j : Option String) : (q.releaseWelcomeBuffer g).waiting mode j = q.waiting mode j := by
  rw [waiting_release h]
  split
  · rename_i e
    subst e
    unfold waiting
    rcases Bool.or_eq_true_iff.mp hr with hr | hr
    · rw [List.isEmpty_iff.mp hr, nil_append, append_nil]
    · rw [List.isEmpty_iff.mp hr, nil_append, append_nil]
  · rfl

theorem releasable_release {j : String} (h : releasable mode q j = true) :
    releasable mode (q.releaseWelcomeBuffer g) j = true := by
  unfold releasable
  rw [bufferOf_release]
  by_cases e : j = g
  · simp [e]
  · have ht := tier_release q g (queueKey (some j)) .messages
    simp only [GroupBuckets.tier] at ht
    rw [if_neg (by simpa using e), ht, if_neg fun h => e h.1]
    exact h

theorem releaseAll_spec (ks : List String) (h : WellPlaced mode q) (hr : ∀ g, releasable mode q g = true) :
    WellPlaced mode (ks.foldl releaseWelcomeBuffer q) ∧ ∀ g,
      (ks.foldl releaseWelcomeBuffer q).waiting mode g = q.waiting mode g := by
  induction ks generalizing q with
  | nil => exact ⟨h, fun _ => rfl⟩
  | cons k ks ih =>
    obtain ⟨hw, hk⟩ := ih (h.release k) fun g => releasable_release (hr g)
    refine ⟨hw, fun g => ?_⟩
    rw [foldl_cons, hk, waiting_release_of_releasable h (hr k)]

theorem bucketAt_of_none_pending (h : q.getPendingCount = 0) (key : String) : (q.bucketAt key).messages = [] := by
  unfold bucketAt
  cases hk : q.buckets.get key with
  | none => rfl
  | some b =>
    have hm : b.size ∈ q.buckets.values.map GroupBuckets.size := mem_map_of_mem (JsMap.mem_values hk)
    have hz : b.size = 0 := List.sum_eq_zero_iff_forall_eq_nat.mp h _ hm
    have : b.messages.length = 0 := by
      unfold GroupBuckets.size at hz
      omega
    exact length_eq_zero_iff.mp this

theorem stranded_spec (h : WellPlaced mode q) :
    WellPlaced mode q.releaseStrandedWelcomeBuffers ∧ ∀ g,
      q.releaseStrandedWelcomeBuffers.waiting mode g = q.waiting mode g := by
  unfold releaseStrandedWelcomeBuffers
  split
  · exact ⟨h, fun _ => rfl⟩
  · apply releaseAll_spec _ h
    intro g
    unfold releasable
    rw [bucketAt_of_none_pending (by omega)]
    simp

/-! ## Pick and put back -/

/-- The picked frame is what its key and its tier say. -/
def Placed (mode : MlsPerGroupQueueMode) (p : PickedFrame β) : Prop :=
  queueKey p.msg.groupId = p.key ∧ (p.tier ≠ .messages → ordinary mode p.msg = false)

/-- `q'` is `q` without the first frame of a tier, which is the picked one. -/
def Took (q q' : Queues β) (p : PickedFrame β) : Prop :=
  ∃ rest, (q.bucketAt p.key).tier p.tier = p.msg :: rest ∧
    (∀ j, q'.bucketAt j = if j = p.key then (q.bucketAt p.key).setTier rest p.tier else q.bucketAt j) ∧
    q'.pendingWelcomeGroups = q.pendingWelcomeGroups

variable {q' : Queues β} {p : PickedFrame β}

theorem pickFromTier_took {lock : Lock}
    (h : q.pickFromTier lock t = some (p, q')) : Took q q' p := by
  obtain ⟨idx, -, h⟩ := bind_eq_some_iff.mp h
  obtain ⟨key, -, h⟩ := bind_eq_some_iff.mp h
  obtain ⟨b, hb, h⟩ := bind_eq_some_iff.mp h
  have hat : q.bucketAt key = b := by rw [bucketAt, hb]; rfl
  cases ht : b.tier t with
  | nil => simp [ht] at h
  | cons m rest =>
    simp only [ht] at h
    cases h
    refine ⟨rest, by rw [hat]; exact ht, fun j => ?_, rfl⟩
    show ((q.buckets.set key (b.setTier rest t)).get j).getD .empty = _
    rw [JsMap.get_set, hat]
    split <;> rfl

theorem get_deleteAll (ks : List String) (m : JsMap String (GroupBuckets β)) (j : String) :
    (ks.foldl JsMap.delete m).get j = if j ∈ ks then none else m.get j := by
  induction ks generalizing m with
  | nil => simp
  | cons k ks ih =>
    rw [foldl_cons, ih, JsMap.get_delete]
    by_cases hj : j ∈ ks
    · simp [hj]
    · by_cases hk : j = k <;> simp [hj, hk]

theorem eq_empty_of_size {b : GroupBuckets β} (h : b.size = 0) : b = .empty := by
  obtain ⟨control, welcome, messages⟩ := b
  simp only [GroupBuckets.size] at h
  have h1 : control = [] := length_eq_zero_iff.mp (by omega)
  have h2 : welcome = [] := length_eq_zero_iff.mp (by omega)
  have h3 : messages = [] := length_eq_zero_iff.mp (by omega)
  rw [h1, h2, h3]
  rfl

@[simp] theorem bucketAt_pruneEmptyKeys (q : Queues β) (j : String) : q.pruneEmptyKeys.bucketAt j = q.bucketAt j := by
  show (((q.rrKeys.filter fun key => decide ((q.bucketAt key).size = 0)).foldl JsMap.delete q.buckets).get
    j).getD .empty = _
  rw [get_deleteAll]
  split
  · rename_i hj
    have hz : (q.bucketAt j).size = 0 := of_decide_eq_true (mem_filter.mp hj).2
    rw [eq_empty_of_size hz]
    rfl
  · rfl

theorem pickNext_took {lock : Lock} (h : q.pickNext mode lock = (some p, q')) :
    Took q q' p := by
  unfold pickNext at h
  split at h
  · cases h
  · split at h
    · rename_i p' q₁ hp
      cases h
      obtain ⟨t, -, ht⟩ := exists_of_findSome?_eq_some hp
      obtain ⟨rest, hh, hb, hw⟩ := pickFromTier_took ht
      exact ⟨rest, hh, fun j => by rw [bucketAt_pruneEmptyKeys, hb], hw⟩
    · cases h

theorem pickNext_none {lock : Lock} (h : q.pickNext mode lock = (none, q')) :
    (∀ j, q'.bucketAt j = q.bucketAt j) ∧ q'.pendingWelcomeGroups = q.pendingWelcomeGroups := by
  unfold pickNext at h
  split at h
  · cases h
    exact ⟨fun _ => rfl, rfl⟩
  · split at h
    · cases h
    · cases h
      exact ⟨bucketAt_pruneEmptyKeys q, rfl⟩

theorem bufferOf_same (hw : q'.pendingWelcomeGroups = q.pendingWelcomeGroups) : q'.bufferOf = q.bufferOf := by
  funext g
  cases g with
  | none => rfl
  | some g => simp [bufferOf, hw]

theorem WellPlaced.of_same (h : WellPlaced mode q) (hb : ∀ j, q'.bucketAt j = q.bucketAt j)
    (hw : q'.pendingWelcomeGroups = q.pendingWelcomeGroups) : WellPlaced mode q' := by
  have hbuf := bufferOf_same hw
  refine ⟨?_, ?_, by rw [hbuf]; exact h.buffer, by rw [hw]; exact h.unnamed⟩
  · intro j t m hm
    exact h.key j t m (by rwa [hb] at hm)
  · intro j t ht m hm
    exact h.special j t ht m (by rwa [hb] at hm)

theorem waiting_same (hb : ∀ j, q'.bucketAt j = q.bucketAt j)
    (hw : q'.pendingWelcomeGroups = q.pendingWelcomeGroups)
    (g : Option String) : q'.waiting mode g = q.waiting mode g := by
  unfold waiting
  rw [hb, bufferOf_same hw]

theorem unshift_setTier {b : GroupBuckets β} {rest : List (MlsQueuedMessage β)}
    (h : b.tier t = m :: rest) : (b.setTier rest t).unshift t m = b := by
  obtain ⟨control, welcome, messages⟩ := b
  cases t <;> cases h <;> rfl

/-- Taking a frame is undone by putting it back at the front. -/
theorem Took.undo (h : Took q q' p) :
    (∀ j, (q'.putBack p).bucketAt j = q.bucketAt j) ∧ (q'.putBack p).pendingWelcomeGroups = q.pendingWelcomeGroups := by
  obtain ⟨rest, hh, hb, hw⟩ := h
  refine ⟨fun j => ?_, hw⟩
  unfold putBack
  rw [bucketAt_updateBucket]
  split
  · rename_i hj
    subst hj
    rw [hb, if_pos rfl, unshift_setTier hh]
  · rename_i hj
    rw [hb, if_neg hj]

theorem Took.placed (h : Took q q' p) (hq : WellPlaced mode q) : Placed mode p := by
  obtain ⟨rest, hh, -, -⟩ := h
  have hm : p.msg ∈ (q.bucketAt p.key).tier p.tier := by rw [hh]; exact mem_cons_self
  exact ⟨hq.key _ _ _ hm, fun ht => hq.special _ _ ht _ hm⟩

theorem Took.wellPlaced (h : Took q q' p) (hq : WellPlaced mode q) : WellPlaced mode q' := by
  obtain ⟨rest, hh, hb, hw⟩ := h
  have hsub : ∀ j t m, m ∈ (q'.bucketAt j).tier t → m ∈ (q.bucketAt j).tier t := by
    intro j t m hm
    rw [hb] at hm
    split at hm
    · rename_i hj
      subst hj
      rw [tier_setTier] at hm
      split at hm
      · rename_i ht
        rw [ht, hh]
        exact mem_cons_of_mem _ hm
      · exact hm
    · exact hm
  have hbuf := bufferOf_same hw
  exact ⟨fun j t m hm => hq.key j t m (hsub j t m hm), fun j t ht m hm => hq.special j t ht m (hsub j t m hm),
    by rw [hbuf]; exact hq.buffer, by rw [hw]; exact hq.unnamed⟩

theorem putBack_spec (h : WellPlaced mode q) (hp : Placed mode p) :
    WellPlaced mode (q.putBack p) ∧ ∀ g,
      (q.putBack p).waiting mode g = framesOf mode g [p.msg] ++ q.waiting mode g := by
  unfold putBack
  rw [← hp.1]
  exact ⟨h.unshift hp.2, waiting_unshift q hp.2⟩

/-- The picked frame is the first of its group that waits. -/
theorem Took.waiting (h : Took q q' p) (hq : WellPlaced mode q) (g : Option String) :
    q.waiting mode g = framesOf mode g [p.msg] ++ q'.waiting mode g := by
  obtain ⟨hb, hw⟩ := h.undo
  rw [← (putBack_spec (h.wellPlaced hq) (h.placed hq)).2, waiting_same hb hw]

end Queues

/-! ## Runs -/

def Phase.inHand : Phase β → List (MlsQueuedMessage β)
  | .locking picked => [picked.msg]
  | _ => []

/-- What was enqueued is what was handed over, then the hand, then what waits. -/
structure InOrder (mode : MlsPerGroupQueueMode) (s : St β) (hand : List (MlsQueuedMessage β)) : Prop where
  placed : s.queues.WellPlaced mode
  order : ∀ g, framesOf mode g s.enqueued =
    framesOf mode g s.handed ++ framesOf mode g hand ++ s.queues.waiting mode g

def Inv (mode : MlsPerGroupQueueMode) (s : St β) : Prop :=
  InOrder mode s s.phase.inHand ∧ ∀ p, s.phase = .locking p → Queues.Placed mode p

structure Ordered (mode : MlsPerGroupQueueMode) (f : Frames β) : Prop where
  wellPlaced : f.queues.WellPlaced mode
  order : ∀ g, framesOf mode g f.enqueued =
    framesOf mode g f.handed ++ framesOf mode g (f.hand.map (·.msg)).toList ++ f.queues.waiting mode g
  hand : ∀ p, f.hand = some p → Queues.Placed mode p

theorem inv_iff_ordered {s : St β} : Inv mode s ↔ Ordered mode s.frames := by
  have hhand : (s.frames.hand.map (·.msg)).toList = s.phase.inHand := by
    rw [St.frames]
    cases s.phase <;> rfl
  have hpicked : ∀ p, s.frames.hand = some p ↔ s.phase = .locking p := by
    intro p
    rw [St.frames]
    cases s.phase <;> simp [Phase.hand]
  constructor
  · intro h
    refine ⟨h.1.placed, ?_, fun p hp => h.2 p ((hpicked p).mp hp)⟩
    rw [hhand]
    exact h.1.order
  · intro h
    refine ⟨⟨h.wellPlaced, ?_⟩, fun p hp => h.hand p ((hpicked p).mpr hp)⟩
    rw [← hhand]
    exact h.order

theorem ordered_move : Unmoved (β := β) mode (Ordered mode) := by
  intro f f' hmove h
  cases hmove with
  | enqueue msg =>
    obtain ⟨hq, hw⟩ := Queues.enqueue_spec h.wellPlaced msg
    refine ⟨hq, fun g => ?_, h.hand⟩
    rw [framesOf_append, h.order g, hw g, append_assoc _ _ (framesOf mode g [msg])]
  | @pick lock picked queues hand hp =>
    cases picked with
    | none =>
      obtain ⟨hb, hw⟩ := Queues.pickNext_none hp
      refine ⟨h.wellPlaced.of_same hb hw, fun g => ?_, fun p hp => by cases hp⟩
      rw [h.order g, hand, Queues.waiting_same hb hw]
    | some p =>
      have ht := Queues.pickNext_took hp
      refine ⟨ht.wellPlaced h.wellPlaced, fun g => ?_, ?_⟩
      · have horder := h.order g
        rw [hand, ht.waiting h.wellPlaced] at horder
        simpa using horder
      · intro p' hp'
        cases hp'
        exact ht.placed h.wellPlaced
  | @putBack p hand =>
    obtain ⟨hq, hw⟩ := Queues.putBack_spec h.wellPlaced (h.hand p hand)
    refine ⟨hq, fun g => ?_, fun p hp => by cases hp⟩
    have horder := h.order g
    rw [hand] at horder
    rw [horder, hw]
    simp
  | @handOver p hand =>
    refine ⟨h.wellPlaced, fun g => ?_, fun p hp => by cases hp⟩
    have horder := h.order g
    rw [hand] at horder
    simpa using horder
  | stranded =>
    obtain ⟨hq, hw⟩ := Queues.stranded_spec h.wellPlaced
    refine ⟨hq, fun g => ?_, h.hand⟩
    rw [hw]
    exact h.order g

def releasesInOrder (mode : MlsPerGroupQueueMode) (s : St β) : Event β → Bool
  | .releaseWelcomeBuffer groupId => s.queues.releasable mode groupId
  | _ => true

theorem inv_step {s s' : St β} {e : Event β} (h : Inv mode s) (hok : releasesInOrder mode s e = true)
    (hs : step mode s e = some s') :
    Inv mode s' := by
  rw [inv_iff_ordered] at h ⊢
  refine step_frames ordered_move ?_ h hs
  intro g hg
  subst hg
  have hplaced : s.queues.WellPlaced mode := h.wellPlaced
  refine ⟨hplaced.release g, fun j => ?_, h.hand⟩
  rw [Queues.waiting_release_of_releasable hplaced hok]
  exact h.order j

theorem inv_start : Inv mode (start : St β) := by
  refine ⟨⟨⟨?_, ?_, ?_, rfl⟩, fun g => ?_⟩, by intro p hp; cases hp⟩
  · intro key t m hm
    cases t <;> cases hm
  · intro key t _ m hm
    cases t <;> cases hm
  · intro g m hm
    cases g <;> cases hm
  · cases g <;> rfl

theorem reachBy_inv {s : St β}
    (h : (scheduler β mode).ReachBy (fun s e => releasesInOrder mode s e = true) s) : Inv mode s :=
  h.invariant (I := Inv mode) (fun s hs => by rw [show s = start from hs]; exact inv_start) fun _ _ _ hi ho hs =>
    inv_step hi ho hs

/-- Along every run whose releases overtake nothing, the frames of a group handed to
    `processMessage` are the first ones enqueued for it, in that order. -/
theorem group_frames_handed_in_order {s : St β}
    (h : (scheduler β mode).ReachBy (fun s e => releasesInOrder mode s e = true) s)
    (g : Option String) : framesOf mode g s.handed <+: framesOf mode g s.enqueued := by
  rw [(reachBy_inv h).1.order g, append_assoc]
  exact prefix_append _ _

/-! ## Two runs -/

def early : MlsQueuedMessage Nat := ⟨some "g", false, none, 1⟩
def late : MlsQueuedMessage Nat := ⟨some "g", false, none, 2⟩
def invitation : MlsQueuedMessage Nat := ⟨some "g", true, none, 0⟩

/-- A frame is picked, bounced by the commit of its group and put back; a Welcome and a
    frame behind it arrive meanwhile. -/
def bouncedRun : List (Event Nat) :=
  [.acquireExclusive 0 none, .acquireExclusive 1 (some "g"), .enqueue early, .drain, .drainStarted false,
    .enqueue invitation,
    .enqueue late, .release, .lockSettled, .drainEnded, .release, .drain, .drainStarted false, .lockSettled,
      .processed false,
    .yielded, .releaseWelcomeBuffer "g", .processed false, .yielded, .lockSettled]

def overtakenRun : List (Event Nat) :=
  [.enqueue early, .enqueue invitation, .enqueue late, .drain, .drainStarted false, .releaseWelcomeBuffer "g",
    .processed false,
    .yielded, .lockSettled, .processed false, .yielded, .lockSettled]

theorem bouncedRun_in_order : ∃ s : St Nat,
    (scheduler Nat .web).ReachBy (fun s e => releasesInOrder .web s e = true) s ∧
    framesOf .web (some "g") s.handed = [early, late] ∧ framesOf .web (some "g") s.handed <+:
      framesOf .web (some "g") s.enqueued := by
  obtain ⟨s, hs⟩ := isSome_iff_exists.mp
    (show ((scheduler Nat .web).runBy (releasesInOrder .web) start bouncedRun).isSome by decide)
  have hr := Machine.reachBy_of_run bouncedRun rfl hs
  have hh : ((scheduler Nat .web).runBy (releasesInOrder .web) start bouncedRun).map
    (fun s => framesOf .web (some "g") s.handed) =
      some [early, late] := by decide
  rw [hs] at hh
  exact ⟨s, hr, some.inj hh, group_frames_handed_in_order hr (some "g")⟩

theorem overtakenRun_order (mode : MlsPerGroupQueueMode) : ∃ s : St Nat, (scheduler Nat mode).Reach s ∧
    framesOf mode (some "g") s.enqueued = [early, late] ∧ framesOf mode (some "g") s.handed = [late, early] := by
  obtain ⟨s, hs⟩ := isSome_iff_exists.mp
    (show ((scheduler Nat mode).run start overtakenRun).isSome by cases mode <;> decide)
  have hh : ((scheduler Nat mode).run start overtakenRun).map (fun s =>
      (framesOf mode (some "g") s.enqueued, framesOf mode (some "g") s.handed)) = some ([early, late],
        [late, early]) := by
    cases mode <;> decide
  rw [hs] at hh
  have hp := some.inj hh
  exact ⟨s, Machine.reach_of_run overtakenRun rfl hs, congrArg Prod.fst hp, congrArg Prod.snd hp⟩

/-- In both modes the released buffer overtakes the frame that was queued before the Welcome. -/
theorem frame_overtaken_at_release :
    (∃ s : St Nat, (scheduler Nat .web).Reach s ∧
      framesOf .web (some "g") s.enqueued = [early, late] ∧ framesOf .web (some "g") s.handed = [late, early]) ∧
    (∃ s : St Nat, (scheduler Nat .tauri).Reach s ∧
      framesOf .tauri (some "g") s.enqueued = [early, late] ∧ framesOf .tauri (some "g") s.handed = [late, early]) :=
  ⟨overtakenRun_order .web, overtakenRun_order .tauri⟩

end Canari.Mls.Scheduler
