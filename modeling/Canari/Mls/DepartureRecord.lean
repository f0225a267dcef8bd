/-
  Canari.Mls.DepartureRecord — what the recorded departures say of a whole history
  (`frontend/mls-core/src/device_trust.rs`).

  Users and devices leave a tree in one flat record: a device with whether its user went with it, and
  a user whose leaves name no device by itself. A user's removals are read off both kinds, adjacent
  equal epochs once; a device's off the first.

  While the record is below its bound nothing is dropped, so it is what every merged commit recorded,
  in order (`departures_run`). A commit has a record that its user left exactly when it removed the
  user's last leaf (`leavesTree_iff`), and one of a device exactly when it removed the device's last
  (`mem_devicesGone`); the epochs of one group grow, so equal ones are neighbours. `departures_are_exact`.
-/

import Canari.Mls.DevicePins

namespace Canari.Mls.DepartureRecord

open Lib Mls.Identity Mls.DeviceTrust Mls.DevicePins List Option

/-! ## What a commit removes -/

def ofUser (userId : String) (leaf : LeafKey) : Bool := canonicalUserOf leaf.identity == some (toAsciiLowercase userId)

def ofDevice (identity : String) (leaf : LeafKey) : Bool := sameIdentity leaf.identity identity

/-- The commit removed the last leaf that meets `p`. -/
def removesLast (p : LeafKey → Bool) (m : Trust.Merged) : Bool := m.before.any p && !m.after.any p

theorem removesLast_iff {p : LeafKey → Bool} {m : Trust.Merged} :
    removesLast p m = true ↔ (∃ l ∈ m.before, p l = true) ∧ ∀ l ∈ m.after, p l = false := by
  rw [removesLast, Bool.and_eq_true, Bool.not_eq_true', List.any_eq_false]
  simp

section Commit

variable {m : Trust.Merged} {userId identity : String}

theorem mem_usersGone : toAsciiLowercase userId ∈ usersGone m.before m.after ↔
    removesLast (ofUser userId) m = true := by
  rw [removesLast_iff, usersGone, mem_dedup, mem_insertionSort, mem_filter]
  simp only [ofUser, beq_iff_eq, beq_eq_false_iff_ne, Bool.not_eq_true', contains_eq_mem, decide_eq_false_iff_not,
    mem_filterMap, not_exists, not_and]

theorem eq_of_splitOnce {s user device : String}
    (h : splitOnce s = some (user, device)) : s = user ++ ":" ++ device := by
  unfold splitOnce at h
  split at h
  · next u rest parts hparts =>
    cases h
    have hjoin : [':'].intercalate (s.toList.splitOn ':') = s.toList := intercalate_splitOn ':'
    rw [hparts] at hjoin
    refine String.toList_inj.mp ?_
    rw [← hjoin]
    simp [List.intercalate]
  · cases h

theorem splitOnce_canonical {c : String}
    (h : canonicalIdentity identity = some c) : ∃ user device, splitOnce c = some (user, device) := by
  have hc := canonicalIdentity_canonical h
  unfold canonicalIdentity at hc
  split at hc
  · obtain ⟨⟨user, device⟩, hsplit, -⟩ := map_eq_some_iff.mp hc
    exact ⟨user, device, hsplit⟩
  · cases hc

theorem sameIdentity_iff {a b : String} : sameIdentity a b = true ↔
    ∃ c, canonicalIdentity a = some c ∧ canonicalIdentity b = some c := by
  unfold sameIdentity
  rw [Bool.and_eq_true, beq_iff_eq, isSome_iff_exists]
  constructor
  · intro h
    obtain ⟨⟨c, hc⟩, heq⟩ := h
    exact ⟨c, hc, heq ▸ hc⟩
  · intro h
    obtain ⟨c, ha, hb⟩ := h
    exact ⟨⟨c, ha⟩, ha.trans hb.symm⟩

theorem mem_devicesGone {user device c : String} (hid : canonicalIdentity identity = some c)
    (hsplit : splitOnce c = some (user, device)) :
    (user, device) ∈ devicesGone m.before m.after ↔ removesLast (ofDevice identity) m = true := by
  have hsame : ∀ l : LeafKey, canonicalIdentity l.identity = some c ↔ sameIdentity l.identity identity = true := by
    intro l
    rw [sameIdentity_iff]
    constructor
    · intro h
      exact ⟨c, h, hid⟩
    · intro h
      obtain ⟨d, hl, hd⟩ := h
      rw [hid, ← hl] at hd
      exact hd.symm
  have hcongr : ∀ {l : LeafKey} {a : LeafKey}, canonicalIdentity l.identity = some c →
      sameIdentity a.identity l.identity = sameIdentity a.identity identity := by
    intro l a hl
    unfold sameIdentity
    rw [hl, hid]
  rw [removesLast_iff, devicesGone, mem_dedup, mem_insertionSort]
  simp only [mem_filterMap, mem_filter, Bool.not_eq_true', List.any_eq_false, Bool.not_eq_true, ofDevice]
  constructor
  · intro h
    obtain ⟨d, ⟨l, ⟨hl, hgone⟩, hcanon⟩, hd⟩ := h
    obtain rfl : d = c := (eq_of_splitOnce hd).trans (eq_of_splitOnce hsplit).symm
    exact ⟨⟨l, hl, (hsame l).mp hcanon⟩, fun a ha => (hcongr hcanon).symm.trans (hgone a ha)⟩
  · intro h
    obtain ⟨⟨l, hl, hl'⟩, hgone⟩ := h
    have hcanon := (hsame l).mpr hl'
    exact ⟨c, ⟨l, ⟨hl, fun a ha => (hcongr hcanon).trans (hgone a ha)⟩, hcanon⟩, hsplit⟩

variable {before after : List LeafKey}

/-- A record of a commit: a device that went, or a user none of whose leaves named one. -/
theorem mem_departuresOf {g : String} {epoch : Nat} {d : Departure} :
    d ∈ departuresOf g epoch before after ↔
      (∃ user device, (user, device) ∈ devicesGone before after ∧
        d = ⟨g, user, epoch, some device, (usersGone before after).contains user⟩) ∨
      ∃ user ∈ usersGone before after, (∀ device, (user, device) ∉ devicesGone before after) ∧
        d = ⟨g, user, epoch, none, false⟩ := by
  unfold departuresOf
  rw [mem_append, List.mem_map, List.mem_map]
  refine or_congr ?_ ?_
  · constructor
    · intro h
      obtain ⟨⟨user, device⟩, hmem, rfl⟩ := h
      exact ⟨user, device, hmem, rfl⟩
    · intro h
      obtain ⟨user, device, hmem, rfl⟩ := h
      exact ⟨(user, device), hmem, rfl⟩
  · have hnone : ∀ user, (!(devicesGone before after).any (·.1 == user)) = true ↔
      ∀ device, (user, device) ∉ devicesGone before after := by
      intro user
      rw [Bool.not_eq_true', List.any_eq_false]
      constructor
      · intro h device hmem
        exact h (user, device) hmem (by simp)
      · intro h p hp heq
        obtain ⟨u, device⟩ := p
        obtain rfl : u = user := by simpa using heq
        exact h device hp
    constructor
    · intro h
      obtain ⟨user, hmem, rfl⟩ := h
      obtain ⟨hgone, hno⟩ := mem_filter.mp hmem
      exact ⟨user, hgone, (hnone user).mp hno, rfl⟩
    · intro h
      obtain ⟨user, hgone, hno, rfl⟩ := h
      exact ⟨user, mem_filter.mpr ⟨hgone, (hnone user).mpr hno⟩, rfl⟩

theorem leavesTree_iff {g user : String} {epoch : Nat} :
    (∃ d ∈ departuresOf g epoch before after, d.userId = user ∧ d.leavesTree = true) ↔
      user ∈ usersGone before after := by
  constructor
  · intro h
    obtain ⟨d, hd, rfl, hleaves⟩ := h
    rcases (mem_departuresOf).mp hd with ⟨u, device, -, rfl⟩ | ⟨u, hu, -, rfl⟩
    · simpa [Departure.leavesTree] using hleaves
    · exact hu
  · intro hgone
    by_cases hdevice : ∃ device, (user, device) ∈ devicesGone before after
    · obtain ⟨device, hmem⟩ := hdevice
      exact ⟨_, (mem_departuresOf).mpr (.inl ⟨user, device, hmem, rfl⟩), rfl, by simp [Departure.leavesTree, hgone]⟩
    · exact ⟨_, (mem_departuresOf).mpr (.inr ⟨user, hgone, fun device hmem => hdevice ⟨device, hmem⟩, rfl⟩), rfl, rfl⟩

theorem departuresOf_place {g : String} {epoch : Nat} {d : Departure} (h : d ∈ departuresOf g epoch before after) :
    d.groupId = g ∧ d.epoch = epoch := by
  rcases (mem_departuresOf).mp h with ⟨u, device, -, rfl⟩ | ⟨u, -, -, rfl⟩
  · exact ⟨rfl, rfl⟩
  · exact ⟨rfl, rfl⟩

end Commit

/-! ## The epochs of one group -/

theorem dedupNeighbours_replicate (a k : Nat) {l : List Nat} (h : ∀ b ∈ l.head?, b ≠ a) :
    dedupNeighbours (List.replicate (k + 1) a ++ l) = a :: dedupNeighbours l := by
  induction k with
  | zero =>
    cases l with
    | nil => rfl
    | cons b l =>
      have hne : a ≠ b := (h b (by simp)).symm
      rw [replicate_one, singleton_append, dedupNeighbours, if_neg hne]
  | succ k ih =>
    rw [replicate_succ, cons_append, replicate_succ, cons_append, dedupNeighbours, if_pos rfl, ← cons_append,
      ← replicate_succ]
    exact ih

theorem dedupNeighbours_runs {commits : List Trust.Merged} {count : Trust.Merged → Nat}
    (h : commits.Pairwise fun a b => a.epoch < b.epoch) :
    dedupNeighbours (commits.flatMap fun m => List.replicate (count m) m.epoch) =
      (commits.filter fun m => count m ≠ 0).map (·.epoch) := by
  induction commits with
  | nil => rfl
  | cons m commits ih =>
    obtain ⟨hm, hrest⟩ := pairwise_cons.mp h
    rw [flatMap_cons]
    cases hk : count m with
    | zero => rw [replicate_zero, nil_append, ih hrest, filter_cons_of_neg (by simp [hk])]
    | succ k =>
      rw [dedupNeighbours_replicate, ih hrest, filter_cons_of_pos (by simp [hk]), map_cons]
      intro b hb
      have hmem : b ∈ commits.flatMap fun m => List.replicate (count m) m.epoch := mem_of_mem_head? hb
      obtain ⟨m', hm', hb'⟩ := mem_flatMap.mp hmem
      have := hm m' hm'
      rw [(mem_replicate.mp hb').2]
      omega

def tells (g userId : String)
    (d : Departure) : Bool := d.groupId == g && d.userId == toAsciiLowercase userId && d.leavesTree

def EpochsGrow (commits : List Trust.Merged) : Prop :=
    commits.Pairwise fun a b => a.groupId = b.groupId → a.epoch < b.epoch

def recordOf (commits : List Trust.Merged) : List Departure :=
    commits.flatMap fun m => departuresOf m.groupId m.epoch m.before m.after

section Reading

variable {commits : List Trust.Merged} {s s' : Trust} (g userId identity : String)

theorem epochs_of_commit (m : Trust.Merged) :
    (((departuresOf m.groupId m.epoch m.before m.after).filter (tells g userId)).map (·.epoch)) =
      List.replicate ((departuresOf m.groupId m.epoch m.before m.after).countP (tells g userId)) m.epoch := by
  rw [eq_replicate_iff, length_map, countP_eq_length_filter]
  refine ⟨rfl, fun n hn => ?_⟩
  obtain ⟨d, hd, rfl⟩ := List.mem_map.mp hn
  exact (departuresOf_place (mem_filter.mp hd).1).2

theorem count_of_commit (m : Trust.Merged) :
    ((departuresOf m.groupId m.epoch m.before m.after).countP (tells g userId)) ≠ 0 ↔
      (m.groupId == g && removesLast (ofUser userId) m) = true := by
  rw [← Nat.pos_iff_ne_zero, countP_pos_iff, Bool.and_eq_true, ← mem_usersGone, ← leavesTree_iff]
  simp only [tells, Bool.and_eq_true, beq_iff_eq]
  constructor
  · intro h
    obtain ⟨d, hd, ⟨hg, hu⟩, hl⟩ := h
    exact ⟨(departuresOf_place hd).1.symm.trans hg, d, hd, hu, hl⟩
  · intro h
    obtain ⟨hg, d, hd, hu, hl⟩ := h
    exact ⟨d, hd, ⟨(departuresOf_place hd).1.trans hg, hu⟩, hl⟩

theorem removalEpochs_recordOf (h : EpochsGrow commits) :
    removalEpochs (recordOf commits) g userId = (commits.filter fun m => m.groupId == g &&
      removesLast (ofUser userId) m).map (·.epoch) := by
  have hother : ∀ m ∈ commits, m.groupId ≠ g →
      ((departuresOf m.groupId m.epoch m.before m.after).countP (tells g userId)) = 0 := by
    intro m _ hne
    by_contra hpos
    have := (Bool.and_eq_true _ _ ▸ (count_of_commit g userId m).mp hpos).1
    exact hne (beq_iff_eq.mp this)
  -- only the group's own commits have such records, and their epochs grow
  have hgroup : (commits.filter (·.groupId == g)).Pairwise fun a b => a.epoch < b.epoch := by
    rw [pairwise_filter]
    refine h.imp fun {a b} hab ha hb => hab ?_
    rw [beq_iff_eq.mp ha, beq_iff_eq.mp hb]
  have hsplit : ∀ {l : List Trust.Merged}, (∀ m ∈ l, m ∈ commits) →
      (l.flatMap fun m => List.replicate
        ((departuresOf m.groupId m.epoch m.before m.after).countP (tells g userId)) m.epoch) =
      (l.filter (·.groupId == g)).flatMap fun m =>
        List.replicate ((departuresOf m.groupId m.epoch m.before m.after).countP (tells g userId)) m.epoch := by
    intro l hl
    induction l with
    | nil => rfl
    | cons m l ih =>
      have htail := ih fun x hx => hl x (mem_cons_of_mem m hx)
      by_cases hm : m.groupId = g
      · rw [filter_cons_of_pos (by simp [hm]), flatMap_cons, flatMap_cons, htail]
      · rw [filter_cons_of_neg (by simp [hm]), flatMap_cons, hother m (hl m mem_cons_self) hm, replicate_zero,
          nil_append, htail]
  rw [removalEpochs, show (fun d : Departure => d.groupId == g && d.userId == toAsciiLowercase userId &&
    d.leavesTree) = tells g userId from rfl, recordOf,
    filter_flatMap, map_flatMap]
  simp only [epochs_of_commit]
  rw [hsplit fun m hm => hm, dedupNeighbours_runs hgroup, List.filter_filter]
  refine congrArg _ (filter_congr fun m _ => ?_)
  have hcount := count_of_commit g userId m
  rw [Bool.eq_iff_iff, Bool.and_eq_true, decide_eq_true_eq, hcount, Bool.and_eq_true]
  exact ⟨fun x => x.1, fun x => ⟨x, x.1⟩⟩

theorem deviceLeftGroup_recordOf (hs : s.departures = recordOf commits) :
    s.deviceLeftGroup g identity = commits.any fun m => m.groupId == g && removesLast (ofDevice identity) m := by
  unfold Trust.deviceLeftGroup
  cases hid : canonicalIdentity identity with
  | none =>
    -- an identity that names no device is the same as no leaf's
    rw [bind_none]
    symm
    rw [List.any_eq_false]
    intro m _ hm
    obtain ⟨⟨l, -, hl⟩, -⟩ := (removesLast_iff).mp (Bool.and_eq_true _ _ ▸ hm).2
    obtain ⟨c, -, hc⟩ := (sameIdentity_iff).mp hl
    rw [hid] at hc
    cases hc
  | some c =>
    rw [bind_some]
    obtain ⟨user, device, hsplit⟩ := splitOnce_canonical hid
    rw [hsplit, hs]
    rw [Bool.eq_iff_iff, List.any_eq_true, List.any_eq_true]
    simp only [Bool.and_eq_true, beq_iff_eq]
    constructor
    · intro h
      obtain ⟨d, hd, ⟨hg, hu⟩, hdev⟩ := h
      obtain ⟨m, hm, hd⟩ := mem_flatMap.mp hd
      refine ⟨m, hm, (departuresOf_place hd).1.symm.trans hg, (mem_devicesGone hid hsplit).mp ?_⟩
      rcases (mem_departuresOf).mp hd with ⟨u, dev, hgone, rfl⟩ | ⟨u, -, -, rfl⟩
      · obtain rfl : dev = device := some.inj hdev
        exact hu ▸ hgone
      · cases hdev
    · intro h
      obtain ⟨m, hm, hg, hremoved⟩ := h
      have hgone := (mem_devicesGone hid hsplit).mpr hremoved
      exact ⟨_, mem_flatMap.mpr ⟨m, hm, (mem_departuresOf).mpr (.inl ⟨user, device, hgone, rfl⟩)⟩, ⟨hg, rfl⟩, rfl⟩

end Reading

/-! ## A run -/

section Run

variable {fingerprint : Key → String} {s s' : Trust} {m : Trust.Merged}
    {order : List (Sigma fun _ : String => List Key)}

theorem foldl_pushDeparture {ds l : List Departure}
    (h : ds.length + l.length ≤ MAX_RECORDED_DEPARTURES) : l.foldl pushDeparture ds = ds ++ l := by
  induction l generalizing ds with
  | nil => rw [foldl_nil, append_nil]
  | cons d l ih =>
    rw [length_cons] at h
    rw [foldl_cons, pushDeparture, if_neg (by omega), ih (by rw [length_append, length_singleton]; omega),
      append_assoc, singleton_append]

theorem departures_observeLeaf (out : Trust × Bool)
    (leaf : LeafKey) : (Trust.observeLeaf fingerprint m out leaf).1.departures = out.1.departures := by
  obtain ⟨s, wrote⟩ := out
  have hobserve := (frame_observe s leaf.identity leaf.key).departures
  have hpush : ∀ (t : Trust) (e : DeviceEvent), (t.pushEvent e).1.departures = t.departures := by
    intro t e
    unfold Trust.pushEvent
    split
    · rfl
    · rfl
  unfold Trust.observeLeaf
  dsimp only
  split
  · rfl
  · split
    · exact hobserve
    · split
      · exact (frame_reaffirm _ _ _).departures.trans hobserve
      · exact (hpush _ _).trans hobserve

theorem departures_merged :
    (s.observeMergedCommit fingerprint m order).1.departures =
    recordDepartures s.departures m.groupId m.epoch m.before m.after := by
  have hwalk : ∀ (leaves : List LeafKey) (out : Trust × Bool),
    (leaves.foldl (Trust.observeLeaf fingerprint m) out).1.departures = out.1.departures := by
    intro leaves
    induction leaves with
    | nil => exact fun out => rfl
    | cons leaf rest ih => exact fun out => (ih _).trans (departures_observeLeaf out leaf)
  unfold Trust.observeMergedCommit
  rw [hwalk, (frame_reaffirmCommitter _ m).departures]
  split
  · exact congrArg (recordDepartures · _ _ _ _) (frame_seedFromTree _ order).departures
  · rfl

theorem departures_joined {groupId : String} {epoch : Nat} {leaves : List LeafKey} :
    (s.observeJoinedTree fingerprint groupId epoch leaves).1.departures = s.departures := by
  refine List.foldlRecOn (motive := fun out : Trust × Bool => out.1.departures = s.departures) leaves _ rfl
    fun out hout leaf _ => ?_
  obtain ⟨t, wrote⟩ := out
  dsimp only
  have hobserve := (frame_observe t leaf.identity leaf.key).departures.trans hout
  split
  · unfold Trust.pushEvent
    split
    · exact hobserve
    · exact hobserve
  · exact hobserve

def commitOf : Event → Option Trust.Merged
  | .merged m _ => some m
  | _ => none

def commitsOf (es : List Event) : List Trust.Merged := es.filterMap commitOf

/-- One event adds what its commit records, if it is one and there is room. -/
theorem departures_step {e : Event} (h : step fingerprint s e = some s')
    (hroom : s.departures.length + (recordOf (commitOf e).toList).length ≤ MAX_RECORDED_DEPARTURES) :
    s'.departures = s.departures ++ recordOf (commitOf e).toList := by
  cases e with
  | merged m order =>
    rw [step] at h
    split at h
    swap
    · cases h
    cases h
    have hone : recordOf (commitOf (.merged m order)).toList = departuresOf m.groupId m.epoch m.before m.after := by
      simp [recordOf, commitOf]
    rw [hone] at hroom ⊢
    rw [departures_merged, recordDepartures, foldl_pushDeparture hroom]
  | pruneDepartures heldGroups =>
    cases h
    have hroom' : s.departures.length ≤ MAX_RECORDED_DEPARTURES := by omega
    simp [DeviceTrust.pruneDepartures, hroom', recordOf, commitOf]
  | seed leaves order =>
    rw [step] at h
    split at h
    swap
    · cases h
    cases h
    simpa [recordOf, commitOf] using (frame_seedFromTree s order).departures
  | joined groupId epoch leaves =>
    cases h
    simpa [recordOf, commitOf] using departures_joined
  | reload =>
    cases h
    simp [recordOf, commitOf, Trust.fromPersisted]
  | prune held =>
    cases h
    unfold Trust.pruneAbsent
    split
    · simp [recordOf, commitOf]
    · simp [recordOf, commitOf]
  | markUnseeded groupId =>
    cases h
    simp [recordOf, commitOf]
  | forgetUnseeded groupId =>
    cases h
    simp [recordOf, commitOf]
  | takeEvents =>
    cases h
    simp [recordOf, commitOf]

theorem departures_run {es : List Event} (hrun : (machine fingerprint).run s es = some s')
    (hroom : s.departures.length + (recordOf (commitsOf es)).length ≤ MAX_RECORDED_DEPARTURES) :
    s'.departures = s.departures ++ recordOf (commitsOf es) := by
  induction es generalizing s with
  | nil =>
    cases hrun
    simp [recordOf, commitsOf]
  | cons e es ih =>
    obtain ⟨t, ht, hrun⟩ := bind_eq_some_iff.mp hrun
    have hcons : recordOf (commitsOf (e :: es)) = recordOf (commitOf e).toList ++ recordOf (commitsOf es) := by
      unfold recordOf commitsOf
      rw [← flatMap_append]
      cases hc : commitOf e with
      | none => rw [filterMap_cons_none hc]; rfl
      | some m => rw [filterMap_cons_some hc]; rfl
    rw [hcons, length_append] at hroom
    have hstep := departures_step ht (by omega)
    rw [hcons, ih hrun (by rw [hstep, length_append]; omega), hstep, append_assoc]

end Run

/-! ## Persistence -/

inductive FieldValue where
  | text (s : String)
  | number (n : Nat)
  | flag (b : Bool)

/-- A departure as it is serialised: no field for a device that is none, none for a user that stays. -/
def toFields (d : Departure) : List (String × FieldValue) :=
  [("groupId", .text d.groupId), ("userId", .text d.userId), ("epoch", .number d.epoch)] ++
    (d.deviceId.toList.map fun id => ("deviceId", .text id)) ++ if d.userLeft then [("userLeft", .flag true)] else []

def ofFields (fields : List (String × FieldValue)) : Option Departure :=
  match fields.lookup "groupId", fields.lookup "userId", fields.lookup "epoch" with
  | some (.text groupId), some (.text userId), some (.number epoch) =>
    match fields.lookup "deviceId", fields.lookup "userLeft" with
    | none, none => some ⟨groupId, userId, epoch, none, false⟩
    | none, some (.flag userLeft) => some ⟨groupId, userId, epoch, none, userLeft⟩
    | some (.text deviceId), none => some ⟨groupId, userId, epoch, some deviceId, false⟩
    | some (.text deviceId), some (.flag userLeft) => some ⟨groupId, userId, epoch, some deviceId, userLeft⟩
    | _, _ => none
  | _, _, _ => none

theorem ofFields_toFields (d : Departure) : ofFields (toFields d) = some d := by
  obtain ⟨groupId, userId, epoch, deviceId, userLeft⟩ := d
  cases deviceId with
  | none => cases userLeft <;> rfl
  | some id => cases userLeft <;> rfl

def persistedDepartures (s : Trust) : List (List (String × FieldValue)) := s.departures.map toFields

def loadDepartures (saved : List (List (String × FieldValue))) : Option (List Departure) := saved.mapM ofFields

theorem load_persisted (s : Trust) : loadDepartures (persistedDepartures s) = some s.departures := by
  unfold loadDepartures persistedDepartures
  induction s.departures with
  | nil => rfl
  | cons d ds ih =>
    rw [map_cons, mapM_cons, ofFields_toFields, ih]
    rfl

/-! ## Exactness -/

/-- While the record is below its bound, a user's removals from a group are the epochs of the group's
    commits that removed the user's last leaf, in order and each once, and a device left the group
    exactly when one of them removed its last leaf; a save and a load change neither. -/
theorem departures_are_exact {fingerprint : Key → String} {s s' : Trust} {es : List Event} (hempty : s.departures = [])
    (hrun : (machine fingerprint).run s es = some s') (hgrow : EpochsGrow (commitsOf es))
    (hroom : (recordOf (commitsOf es)).length ≤ MAX_RECORDED_DEPARTURES) (g userId identity : String) :
    removalEpochs s'.departures g userId = ((commitsOf es).filter fun m => m.groupId == g &&
      removesLast (ofUser userId) m).map (·.epoch) ∧
    (removalEpochs s'.departures g userId).Pairwise (· < ·) ∧
    (s'.deviceLeftGroup g identity = true ↔
      ∃ m ∈ commitsOf es, m.groupId = g ∧ removesLast (ofDevice identity) m = true) ∧
    ∃ ds, loadDepartures (persistedDepartures s') = some ds ∧
      removalEpochs ds g userId = removalEpochs s'.departures g userId ∧
      (Trust.fromPersisted s'.persistedPins s'.pruned s'.events ds).deviceLeftGroup g identity =
        s'.deviceLeftGroup g identity := by
  have hrecord : s'.departures = recordOf (commitsOf es) := by
    rw [departures_run hrun (by rw [hempty, length_nil]; omega), hempty, nil_append]
  have hepochs := removalEpochs_recordOf g userId hgrow
  refine ⟨hrecord ▸ hepochs, ?_, ?_, s'.departures, load_persisted s', rfl, rfl⟩
  · rw [hrecord, hepochs, pairwise_map, pairwise_filter]
    refine hgrow.imp fun {a b} hab ha hb => hab ?_
    rw [Bool.and_eq_true, beq_iff_eq] at ha hb
    rw [ha.1, hb.1]
  · rw [deviceLeftGroup_recordOf g identity hrecord]
    simp

/-- Two groups: a user leaves one with two devices, comes back and leaves again, and a bare user leaves the other. -/
def leavingRun : List Event :=
  let tree : List LeafKey :=
    [⟨0, "alice:phone-1", [1]⟩, ⟨1, "Bob:web-1", [2]⟩, ⟨2, "bob:web-2", [3]⟩, ⟨3, "carol", [4]⟩]
  let without : List LeafKey := [⟨0, "alice:phone-1", [1]⟩, ⟨3, "carol", [4]⟩]
  let commit (g : String) (epoch : Nat) (before after : List LeafKey) :=
    Event.merged ⟨g, epoch, before, after, none, "alice:phone-1", [1]⟩ []
  [Event.seed tree [⟨"alice:phone-1", [[1]]⟩, ⟨"bob:web-1", [[2]]⟩, ⟨"bob:web-2", [[3]]⟩], commit "g" 3 tree without,
    commit "h" 1 tree (tree.take 3),
    Event.reload, commit "g" 4 without tree, commit "g" 7 tree without]

theorem leavingRun_is_exact :
    ∃ s', (machine fun _ => "").run (.fromPersisted [] [] [] []) leavingRun = some s' ∧
      removalEpochs s'.departures "g" "BOB" = [3, 7] ∧ removalEpochs s'.departures "h" "carol" = [1] ∧
        s'.deviceLeftGroup "g" "BOB:web-2" = true := by
  have hgrow : EpochsGrow (commitsOf leavingRun) := by
    unfold EpochsGrow
    decide
  have hroom : (recordOf (commitsOf leavingRun)).length ≤ MAX_RECORDED_DEPARTURES := by decide +kernel
  have hsome : ((machine fun _ => "").run (.fromPersisted [] [] [] []) leavingRun).isSome = true := by decide +kernel
  obtain ⟨s', hrun⟩ := isSome_iff_exists.mp hsome
  have hg := departures_are_exact rfl hrun hgrow hroom "g" "BOB" "BOB:web-2"
  have hh := departures_are_exact rfl hrun hgrow hroom "h" "carol" "carol"
  refine ⟨s', hrun, hg.1.trans (by decide +kernel), hh.1.trans (by decide +kernel), hg.2.2.1.mpr ?_⟩
  decide +kernel

end Canari.Mls.DepartureRecord
