/-
  Canari.Mls.CommitEvents — which leaves of a merged commit are reported as new
  (`frontend/mls-core/src/device_trust.rs`).

  `observe_merged_commit` walks the tree after the commit and hands an event to the queue for a leaf
  that entered with it. Whether a leaf was there before is asked of the canonical forms of two
  identities, and an identity that names no device (a bare user id, a second separator, an empty half)
  has none: it equals nothing, itself included. Such a leaf has no pin either, so every commit that
  keeps it reports it again.

  `news_only_of_new_leaves_iff`: the events are of new leaves alone exactly when every leaf the commit
  keeps has a well-formed identity. The trace that breaks it: `a_kept_bare_leaf_is_reported`.
-/

import Canari.Mls.DevicePins

namespace Canari.Mls.CommitEvents

open Mls.Identity Mls.DeviceTrust Mls.DevicePins List Option

variable (fingerprint : Key → String) {m : Trust.Merged} {s t : Trust} {leaf : LeafKey}

/-! ## What one leaf hands over -/

def existed (m : Trust.Merged) (leaf : LeafKey) : Bool :=
  m.before.any fun l => sameIdentity l.identity leaf.identity && l.key == leaf.key

/-- The event a leaf's turn hands to `push_event`, if any. -/
def newsOf (m : Trust.Merged) (s : Trust) (leaf : LeafKey) : Option DeviceEvent :=
  let firstInGroup := !(m.before.any fun l => sameIdentity l.identity leaf.identity) &&
    !s.deviceLeftGroup m.groupId leaf.identity
  let trust := s.verdict leaf.identity leaf.key
  if existed m leaf then none
  else if sameIdentity leaf.identity m.ownIdentity && leaf.key == m.ownKey then none
  else if trust = .pinned && !(firstInGroup && m.addedBy.any (fun c => sameIdentity c leaf.identity) &&
      m.before.any fun l => Trust.sameUser l.identity leaf.identity) then none
  else some ⟨m.groupId, m.epoch, leaf.identity, fingerprint leaf.key, trust, m.addedBy, firstInGroup,
    m.before.any (fun l => Trust.sameUser l.identity leaf.identity), false, false⟩

def newsFrom (m : Trust.Merged) : Trust × Bool → List LeafKey → List (LeafKey × DeviceEvent)
  | _, [] => []
  | out, leaf :: rest =>
    (newsOf fingerprint m out.1 leaf).toList.map (leaf, ·) ++ newsFrom m (Trust.observeLeaf fingerprint m out leaf) rest

/-- The state a walk starts from: the group seeded if the load left it, the departures recorded, the
    committer reaffirmed. -/
def walked (s : Trust) (m : Trust.Merged) (order : List (Sigma fun _ : String => List Key)) : Trust × Bool :=
  let seeded : Trust × Bool :=
    if s.unseeded.contains m.groupId then
      ({ s with unseeded := s.unseeded.filter (· != m.groupId) } : Trust).seedFromTree order else (s, false)
  let departed := { seeded.1 with departures := recordDepartures seeded.1.departures m.groupId m.epoch m.before m.after }
  let counted := departed.reaffirmCommitter m
  (counted.1, seeded.2 || !(departuresOf m.groupId m.epoch m.before m.after).isEmpty || counted.2)

def newsOfCommit (s : Trust) (m : Trust.Merged) (order : List (Sigma fun _ : String => List Key)) :
    List (LeafKey × DeviceEvent) :=
  newsFrom fingerprint m (walked s m order) m.after

theorem observeMergedCommit_eq (s : Trust) (m : Trust.Merged) (order : List (Sigma fun _ : String => List Key)) :
    s.observeMergedCommit fingerprint m order = m.after.foldl (Trust.observeLeaf fingerprint m) (walked s m order) := by
  rfl

/-! ## The queue holds what was handed over -/

def pushAll (s : Trust) (events : List DeviceEvent) : Trust := events.foldl (fun s e => (s.pushEvent e).1) s

theorem events_pushEvent (h : s.events = t.events)
    (e : DeviceEvent) : (s.pushEvent e).1.events = (t.pushEvent e).1.events := by
  unfold Trust.pushEvent
  rw [h]
  split
  · rfl
  · rfl

theorem events_pushAll (h : s.events = t.events)
    (events : List DeviceEvent) : (pushAll s events).events = (pushAll t events).events := by
  induction events generalizing s t with
  | nil => exact h
  | cons e events ih => exact ih (events_pushEvent h e)

theorem observe_verdict (s : Trust) (identity : String)
    (key : Key) : (s.observe identity key).1 = s.verdict identity key := by
  unfold Trust.observe
  dsimp only
  split
  · rfl
  · rfl

theorem events_observeLeaf (out : Trust × Bool) (leaf : LeafKey) :
    (Trust.observeLeaf fingerprint m out leaf).1.events =
      (pushAll out.1 (newsOf fingerprint m out.1 leaf).toList).events := by
  obtain ⟨s, wrote⟩ := out
  have htrust := observe_verdict s leaf.identity leaf.key
  have hevents := (frame_observe s leaf.identity leaf.key).events
  unfold Trust.observeLeaf newsOf existed
  dsimp only
  rw [← htrust]
  split
  · rfl
  · split
    · exact hevents
    · split
      · exact (frame_reaffirm _ _ _).events.trans hevents
      · exact events_pushEvent hevents _

theorem events_walk (out : Trust × Bool) (leaves : List LeafKey) :
    (leaves.foldl (Trust.observeLeaf fingerprint m) out).1.events =
      (pushAll out.1 ((newsFrom fingerprint m out leaves).map Prod.snd)).events := by
  induction leaves generalizing out with
  | nil => rfl
  | cons leaf rest ih =>
    have hmap : ((newsOf fingerprint m out.1 leaf).toList.map (leaf, ·)).map Prod.snd =
      (newsOf fingerprint m out.1 leaf).toList := by
      rw [List.map_map]
      exact List.map_id _
    rw [foldl_cons, ih, newsFrom, map_append, hmap, pushAll, pushAll, foldl_append]
    exact events_pushAll (events_observeLeaf fingerprint out leaf) _

theorem events_walked (s : Trust) (m : Trust.Merged)
    (order : List (Sigma fun _ : String => List Key)) : (walked s m order).1.events = s.events := by
  unfold walked
  rw [(frame_reaffirmCommitter _ m).events]
  split
  · exact (frame_seedFromTree _ order).events
  · rfl

/-! ## An identity that names no device -/

theorem canonicalIdentity_isSome (identity : String) :
    (canonicalIdentity identity).isSome = isWellFormedIdentity identity := by
  unfold canonicalIdentity
  split
  · next hwell =>
    rw [hwell]
    unfold isWellFormedIdentity at hwell
    split at hwell
    · next user device hparts => simp [splitOnce, hparts]
    · cases hwell
  · next hwell => simpa using hwell

theorem sameIdentity_self (identity : String) : sameIdentity identity identity = isWellFormedIdentity identity := by
  rw [sameIdentity, BEq.rfl, Bool.and_true, canonicalIdentity_isSome]

theorem sameIdentity_malformed {a b : String}
    (h : isWellFormedIdentity a = false) : sameIdentity a b = false ∧ sameIdentity b a = false := by
  have hnone : canonicalIdentity a = none := by
    rw [← isNone_iff_eq_none, ← not_isSome, canonicalIdentity_isSome, h]
    rfl
  unfold sameIdentity
  rw [hnone]
  refine ⟨rfl, ?_⟩
  cases hb : canonicalIdentity b with
  | none => rfl
  | some c => rfl

theorem newsOf_malformed (s : Trust)
    (h : isWellFormedIdentity leaf.identity = false) : (newsOf fingerprint m s leaf).isSome = true := by
  have hnone : canonicalIdentity leaf.identity = none := by
    rw [← isNone_iff_eq_none, ← not_isSome, canonicalIdentity_isSome, h]
    rfl
  have hverdict : s.verdict leaf.identity leaf.key = .firstSight := by
    unfold Trust.verdict Trust.pinOf
    rw [hnone]
    rfl
  have hexisted : existed m leaf = false := by
    unfold existed
    rw [List.any_eq_false]
    intro l _
    rw [(sameIdentity_malformed h).2]
    exact Bool.false_ne_true
  unfold newsOf
  rw [hexisted, (sameIdentity_malformed h).1, hverdict]
  rfl

theorem newsOf_kept (s : Trust) (h : isWellFormedIdentity leaf.identity = true) {l : LeafKey} (hl : l ∈ m.before)
    (hid : l.identity = leaf.identity) (hkey : l.key = leaf.key) : newsOf fingerprint m s leaf = none := by
  have hexisted : existed m leaf = true := by
    unfold existed
    rw [List.any_eq_true]
    refine ⟨l, hl, ?_⟩
    rw [hid, hkey, sameIdentity_self, h, BEq.rfl, Bool.and_self]
  unfold newsOf
  rw [if_pos hexisted]

theorem mem_newsFrom {out : Trust × Bool} {leaves : List LeafKey} {r : LeafKey × DeviceEvent}
    (h : r ∈ newsFrom fingerprint m out leaves) :
    r.1 ∈ leaves ∧ ∃ s, newsOf fingerprint m s r.1 = some r.2 := by
  induction leaves generalizing out with
  | nil => cases h
  | cons leaf rest ih =>
    rcases mem_append.mp h with h | h
    · obtain ⟨e, he, rfl⟩ := List.mem_map.mp h
      exact ⟨mem_cons_self, out.1, mem_toList.mp he⟩
    · obtain ⟨hmem, hnews⟩ := ih h
      exact ⟨mem_cons_of_mem leaf hmem, hnews⟩

theorem mem_newsFrom_of_always (out : Trust × Bool) {leaves : List LeafKey} (hmem : leaf ∈ leaves)
    (h : ∀ s, (newsOf fingerprint m s leaf).isSome = true) : ∃ e, (leaf, e) ∈ newsFrom fingerprint m out leaves := by
  induction leaves generalizing out with
  | nil => cases hmem
  | cons other rest ih =>
    rcases mem_cons.mp hmem with rfl | hmem
    · obtain ⟨e, he⟩ := isSome_iff_exists.mp (h out.1)
      exact ⟨e, mem_append_left _ (List.mem_map.mpr ⟨e, mem_toList.mpr he, rfl⟩)⟩
    · obtain ⟨e, he⟩ := ih (Trust.observeLeaf fingerprint m out other) hmem
      exact ⟨e, mem_append_right _ he⟩

/-! ## Only what is new is reported -/

/-- The leaf's identity and key were in the tree the commit was built on. -/
def PairBefore (m : Trust.Merged)
    (leaf : LeafKey) : Prop := ∃ l ∈ m.before, l.identity = leaf.identity ∧ l.key = leaf.key

/-- Every event handed over is of a leaf whose identity and key were not in the tree before. -/
def NewsOnlyOfNewLeaves (s : Trust) (m : Trust.Merged) (order : List (Sigma fun _ : String => List Key)) : Prop :=
  ∀ r ∈ newsOfCommit fingerprint s m order, ¬ PairBefore m r.1

/-- Every leaf the commit keeps, with its key, names a device. -/
def KeptAreWellFormed (m : Trust.Merged) : Prop :=
    ∀ leaf ∈ m.after, PairBefore m leaf → isWellFormedIdentity leaf.identity = true

theorem newsOnlyOfNewLeaves_iff (s : Trust) (m : Trust.Merged) (order : List (Sigma fun _ : String => List Key)) :
    NewsOnlyOfNewLeaves fingerprint s m order ↔ KeptAreWellFormed m := by
  constructor
  · intro h leaf hmem hbefore
    by_contra hmalformed
    have halways : ∀ t, (newsOf fingerprint m t leaf).isSome = true :=
      fun t => newsOf_malformed fingerprint t (by simpa using hmalformed)
    obtain ⟨e, he⟩ := mem_newsFrom_of_always fingerprint (walked s m order) hmem halways
    exact h (leaf, e) he hbefore
  · intro h r hr hbefore
    obtain ⟨hmem, t, hnews⟩ := mem_newsFrom fingerprint hr
    obtain ⟨l, hl, hid, hkey⟩ := hbefore
    rw [newsOf_kept fingerprint t (h r.1 hmem ⟨l, hl, hid, hkey⟩) hl hid hkey] at hnews
    cases hnews

/-- The queue is the old one with the commit's events pushed on it, each naming its own leaf; they are
    of new leaves alone exactly when every leaf the commit keeps names a device. So a commit that
    changes no leaf reports nothing exactly when all of them do. -/
theorem news_only_of_new_leaves_iff (s : Trust) (m : Trust.Merged) (order : List (Sigma fun _ : String => List Key)) :
    (s.observeMergedCommit fingerprint m order).1.events =
      (pushAll s ((newsOfCommit fingerprint s m order).map Prod.snd)).events ∧
    (∀ r ∈ newsOfCommit fingerprint s m order, r.1 ∈ m.after ∧ r.2.identity = r.1.identity ∧
      r.2.keyFingerprint = fingerprint r.1.key) ∧
    (NewsOnlyOfNewLeaves fingerprint s m order ↔ KeptAreWellFormed m) ∧
    (m.after = m.before → (newsOfCommit fingerprint s m order = [] ↔
      ∀ leaf ∈ m.before, isWellFormedIdentity leaf.identity = true)) := by
  have hiff := newsOnlyOfNewLeaves_iff fingerprint s m order
  refine ⟨?_, ?_, hiff, ?_⟩
  · rw [observeMergedCommit_eq, events_walk]
    exact events_pushAll (events_walked s m order) _
  · intro r hr
    obtain ⟨hmem, t, hnews⟩ := mem_newsFrom fingerprint hr
    unfold newsOf at hnews
    dsimp only at hnews
    split_ifs at hnews
    rw [← some.inj hnews]
    exact ⟨hmem, rfl, rfl⟩
  · intro hsame
    constructor
    · intro hnone leaf hmem
      refine hiff.mp (fun r hr => ?_) leaf (hsame ▸ hmem) ⟨leaf, hmem, rfl, rfl⟩
      rw [hnone] at hr
      cases hr
    · intro hwell
      refine eq_nil_iff_forall_not_mem.mpr fun r hr => ?_
      have hmem := (mem_newsFrom fingerprint hr).1
      exact hiff.mpr (fun leaf hleaf _ => hwell leaf (hsame ▸ hleaf)) r hr ⟨r.1, hsame ▸ hmem, rfl, rfl⟩

/-! ## A bare leaf -/

def bareTree : List LeafKey := [⟨0, "alice:phone-1", [1]⟩, ⟨1, "bob", [2]⟩]

def bareCommit : Trust.Merged := ⟨"g", 5, bareTree, bareTree, some "alice:phone-1", "alice:phone-1", [1]⟩

/-- A commit that changes no leaf reports the bare one, which it kept with its key. -/
theorem a_kept_bare_leaf_is_reported :
    let s := (Trust.fromPersisted [] [] [] [])
    bareCommit.after = bareCommit.before ∧
    ((s.observeMergedCommit (fun _ => "") bareCommit []).1.events.map fun e => (e.identity, e.trust)) =
      [("bob", .firstSight)] ∧
    ¬ NewsOnlyOfNewLeaves (fun _ => "") s bareCommit [] := by
  refine ⟨rfl, by decide, fun h => ?_⟩
  have hkept := (newsOnlyOfNewLeaves_iff _ _ _ _).mp h ⟨1, "bob", [2]⟩ (by decide) ⟨⟨1, "bob", [2]⟩, by
    decide, rfl, rfl⟩
  exact absurd hkept (by decide)

end Canari.Mls.CommitEvents
