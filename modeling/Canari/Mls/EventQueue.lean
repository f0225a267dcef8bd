/-
  Canari.Mls.EventQueue — what waits in the queue of device events
  (`frontend/mls-core/src/device_trust.rs`).

  `push_event` keeps the oldest: past the bound an event is dropped and its group is marked, once. The
  marks stand in the queue with the events and do not count for the bound. So between two takes the queue
  is the first events pushed, in order, and behind them one mark for each group that lost one
  (`queueOf`, `push_queueOf`). A save writes every field of a mark that is not its default, and the load
  reads the same queue (`load_persistedEvents`).

  `queue_between_takes` says it of any pushes, takes and reloads, and of every run of the store: the
  events a merged commit hands over, those of a joined tree, and nothing else.
-/

import Canari.Mls.CommitEvents
import Mathlib.Data.List.Induction

namespace Canari.Mls.EventQueue

open Lib Mls.DeviceTrust Mls.DevicePins Mls.CommitEvents List

/-! ## The queue of a list of events -/

/-- An event that is no mark: what the store pushes. -/
def Announced (e : DeviceEvent) : Prop := e.eventsDropped = false

def addMark (marks : List DeviceEvent) (dropped : DeviceEvent) : List DeviceEvent :=
  if marks.any fun e => e.groupId == dropped.groupId then marks else marks ++ [Trust.droppedMarker dropped]

def marksOf (dropped : List DeviceEvent) : List DeviceEvent := dropped.foldl addMark []

def queueOf (pushed : List DeviceEvent) : List DeviceEvent :=
  pushed.take MAX_PENDING_DEVICE_EVENTS ++ marksOf (pushed.drop MAX_PENDING_DEVICE_EVENTS)

/-- The queue holds the first events pushed, in order, one mark for each group that lost one and no other mark. -/
structure Holds (pushed queue : List DeviceEvent) : Prop where
  events : (queue.filter fun e => !e.eventsDropped) = pushed.take MAX_PENDING_DEVICE_EVENTS
  marks : ∀ groupId, (queue.countP fun e => e.eventsDropped && e.groupId == groupId) =
    if (pushed.drop MAX_PENDING_DEVICE_EVENTS).any (fun e => e.groupId == groupId) then 1 else 0

variable {s s' : Trust} {e : DeviceEvent} {pushed dropped marks : List DeviceEvent}

theorem marksOf_concat (dropped : List DeviceEvent)
    (e : DeviceEvent) : marksOf (dropped ++ [e]) = addMark (marksOf dropped) e := by
  rw [marksOf, foldl_append]
  rfl

theorem mem_addMark {m : DeviceEvent} (h : m ∈ addMark marks e) : m ∈ marks ∨ m = Trust.droppedMarker e := by
  rw [addMark] at h
  split at h
  · exact .inl h
  · exact (mem_append.mp h).imp_right mem_singleton.mp

theorem marksOf_dropped (dropped : List DeviceEvent) : ∀ m ∈ marksOf dropped, m.eventsDropped = true := by
  induction dropped using List.reverseRecOn with
  | nil => simp [marksOf]
  | append_singleton dropped e ih =>
    intro m hm
    rw [marksOf_concat] at hm
    rcases mem_addMark hm with hm | rfl
    · exact ih m hm
    · rfl

theorem any_addMark (marks : List DeviceEvent) (e : DeviceEvent) (groupId : String) :
    ((addMark marks e).any fun m => m.groupId == groupId) =
      ((marks.any fun m => m.groupId == groupId) || e.groupId == groupId) := by
  rw [addMark]
  split
  · next hany =>
    by_cases hg : e.groupId = groupId
    · subst hg
      rw [hany]
      rfl
    · simp [hg]
  · rw [any_append, any_cons, any_nil, Bool.or_false]
    rfl

theorem any_marksOf (dropped : List DeviceEvent) (groupId : String) :
    ((marksOf dropped).any fun m => m.groupId == groupId) = dropped.any fun e => e.groupId == groupId := by
  induction dropped using List.reverseRecOn with
  | nil => rfl
  | append_singleton dropped e ih =>
    rw [marksOf_concat, any_addMark, ih, any_append, any_cons, any_nil, Bool.or_false]

theorem nodup_marksOf (dropped : List DeviceEvent) : ((marksOf dropped).map (·.groupId)).Nodup := by
  induction dropped using List.reverseRecOn with
  | nil => exact nodup_nil
  | append_singleton dropped e ih =>
    rw [marksOf_concat, addMark]
    split
    · exact ih
    · next hany =>
      rw [map_append, nodup_append]
      refine ⟨ih, nodup_singleton _, fun g hg g' hg' heq => hany ?_⟩
      obtain ⟨m, hm, rfl⟩ := mem_map.mp hg
      rw [mem_singleton.mp hg'] at heq
      exact List.any_eq_true.mpr ⟨m, hm, beq_iff_eq.mpr heq⟩

theorem countP_marksOf (dropped : List DeviceEvent) (groupId : String) :
    ((marksOf dropped).countP fun m => m.eventsDropped && m.groupId == groupId) = if dropped.any
      (fun e => e.groupId == groupId) then 1 else 0 := by
  have hcount : ((marksOf dropped).countP fun m => m.eventsDropped && m.groupId == groupId) =
    ((marksOf dropped).map (·.groupId)).count groupId := by
    rw [List.count, countP_map]
    refine countP_congr fun m hm => ?_
    rw [marksOf_dropped dropped m hm]
    rfl
  rw [hcount, ← any_marksOf]
  by_cases hg : groupId ∈ (marksOf dropped).map (·.groupId)
  · obtain ⟨m, hm, heq⟩ := mem_map.mp hg
    have hany : ((marksOf dropped).any fun m => m.groupId == groupId) = true :=
      List.any_eq_true.mpr ⟨m, hm, beq_iff_eq.mpr heq⟩
    rw [count_eq_one_of_mem (nodup_marksOf dropped) hg, if_pos hany]
  · rw [count_eq_zero.mpr hg, if_neg]
    intro hany
    obtain ⟨m, hm, heq⟩ := List.any_eq_true.mp hany
    exact hg (mem_map.mpr ⟨m, hm, beq_iff_eq.mp heq⟩)

theorem filter_queueOf (h : ∀ e ∈ pushed, Announced e) :
    ((queueOf pushed).filter fun e => !e.eventsDropped) = pushed.take MAX_PENDING_DEVICE_EVENTS := by
  have htake : ∀ e ∈ pushed.take MAX_PENDING_DEVICE_EVENTS, (!e.eventsDropped) = true := by
    intro e he
    rw [h e (mem_of_mem_take he)]
    rfl
  have hmarks : ∀ e ∈ marksOf (pushed.drop MAX_PENDING_DEVICE_EVENTS), ¬ (!e.eventsDropped) = true := by
    intro e he
    rw [marksOf_dropped _ e he]
    decide
  rw [queueOf, filter_append, filter_eq_self.mpr htake, filter_eq_nil_iff.mpr hmarks, append_nil]

theorem holds_queueOf (h : ∀ e ∈ pushed, Announced e) : Holds pushed (queueOf pushed) := by
  refine ⟨filter_queueOf h, fun groupId => ?_⟩
  have htake : ((pushed.take MAX_PENDING_DEVICE_EVENTS).countP fun e => e.eventsDropped &&
    e.groupId == groupId) = 0 := by
    refine countP_eq_zero.mpr fun e he => ?_
    rw [h e (mem_of_mem_take he)]
    exact Bool.false_ne_true
  rw [queueOf, countP_append, htake, Nat.zero_add, countP_marksOf]

theorem any_queueOf (h : ∀ e ∈ pushed, Announced e) (groupId : String) :
    ((queueOf pushed).any fun m => m.eventsDropped && m.groupId == groupId) =
      (marksOf (pushed.drop MAX_PENDING_DEVICE_EVENTS)).any fun m => m.groupId == groupId := by
  rw [Bool.eq_iff_iff, List.any_eq_true, List.any_eq_true]
  constructor
  · intro hany
    obtain ⟨m, hm, hmark⟩ := hany
    rw [Bool.and_eq_true] at hmark
    rcases mem_append.mp hm with hm | hm
    · rw [h m (mem_of_mem_take hm)] at hmark
      cases hmark.1
    · exact ⟨m, hm, hmark.2⟩
  · intro hany
    obtain ⟨m, hm, hmark⟩ := hany
    refine ⟨m, mem_append_right _ hm, ?_⟩
    rw [marksOf_dropped _ m hm, hmark]
    rfl

theorem push_queueOf (h : ∀ e ∈ pushed, Announced e)
    (hs : s.events = queueOf pushed) : (s.pushEvent e).1.events = queueOf (pushed ++ [e]) := by
  unfold Trust.pushEvent
  rw [hs, filter_queueOf h]
  split
  · next hroom =>
    rw [length_take] at hroom
    have hlen : (pushed ++ [e]).length ≤ MAX_PENDING_DEVICE_EVENTS := by
      rw [length_append, length_singleton]
      omega
    have hlen' : pushed.length ≤ MAX_PENDING_DEVICE_EVENTS := by omega
    rw [queueOf, queueOf, take_of_length_le hlen, drop_of_length_le hlen, take_of_length_le hlen',
      drop_of_length_le hlen']
    simp [marksOf]
  · next hfull =>
    rw [length_take] at hfull
    have hlen : MAX_PENDING_DEVICE_EVENTS ≤ pushed.length := by omega
    rw [any_queueOf h, queueOf, queueOf, take_append_of_le_length hlen, drop_append_of_le_length hlen,
      marksOf_concat, addMark]
    split
    · rfl
    · rw [append_assoc]

/-! ## Persistence -/

inductive EventField where
  | text (s : String)
  | number (n : Nat)
  | flag (b : Bool)
  | null

def trustName : LeafTrust → String
  | .firstSight => "first-sight"
  | .pinned => "pinned"
  | .keyChanged => "key-changed"

def trustNamed : String → Option LeafTrust
  | "first-sight" => some .firstSight
  | "pinned" => some .pinned
  | "key-changed" => some .keyChanged
  | _ => none

/-- An event as it is serialised: the last two flags are written only when they are set. -/
def toFields (e : DeviceEvent) : List (String × EventField) :=
  [("groupId", .text e.groupId), ("epoch", .number e.epoch), ("identity", .text e.identity),
    ("keyFingerprint", .text e.keyFingerprint),
    ("trust", .text (trustName e.trust)), ("addedBy", e.addedBy.elim .null .text),
      ("firstInGroup", .flag e.firstInGroup),
    ("memberAlreadyPresent", .flag e.memberAlreadyPresent)] ++
  (if e.addedByUnvouched then [("addedByUnvouched", .flag true)] else []) ++
  (if e.eventsDropped then [("eventsDropped", .flag true)] else [])

variable (fields : List (String × EventField))

def textField (name : String) : Option String :=
  match fields.lookup name with
  | some (.text s) => some s
  | _ => none

def numberField (name : String) : Option Nat :=
  match fields.lookup name with
  | some (.number n) => some n
  | _ => none

def flagField (name : String) : Option Bool :=
  match fields.lookup name with
  | none => some false
  | some (.flag b) => some b
  | _ => none

def optionField (name : String) : Option (Option String) :=
  match fields.lookup name with
  | none => some none
  | some .null => some none
  | some (.text s) => some (some s)
  | _ => none

def ofFields : Option DeviceEvent := do
  let groupId ← textField fields "groupId"
  let epoch ← numberField fields "epoch"
  let identity ← textField fields "identity"
  let keyFingerprint ← textField fields "keyFingerprint"
  let trust ← (textField fields "trust").bind trustNamed
  let addedBy ← optionField fields "addedBy"
  let firstInGroup ← flagField fields "firstInGroup"
  let memberAlreadyPresent ← flagField fields "memberAlreadyPresent"
  let addedByUnvouched ← flagField fields "addedByUnvouched"
  let eventsDropped ← flagField fields "eventsDropped"
  return ⟨groupId, epoch, identity, keyFingerprint, trust, addedBy, firstInGroup, memberAlreadyPresent,
    addedByUnvouched, eventsDropped⟩

theorem ofFields_toFields (e : DeviceEvent) : ofFields (toFields e) = some e := by
  obtain ⟨groupId, epoch, identity, keyFingerprint, trust, addedBy, firstInGroup, memberAlreadyPresent,
    addedByUnvouched, eventsDropped⟩ := e
  cases trust <;> cases addedBy <;> cases addedByUnvouched <;> cases eventsDropped <;> rfl

def persistedEvents (s : Trust) : List (List (String × EventField)) := s.events.map toFields

def loadEvents (saved : List (List (String × EventField))) : Option (List DeviceEvent) := saved.mapM ofFields

theorem load_persistedEvents (s : Trust) : loadEvents (persistedEvents s) = some s.events := by
  unfold loadEvents persistedEvents
  induction s.events with
  | nil => rfl
  | cons e events ih =>
    rw [map_cons, mapM_cons, ofFields_toFields, ih]
    rfl

/-! ## Pushes, takes and reloads -/

inductive Op where
  | push (e : { e : DeviceEvent // Announced e })
  | take
  | reload

def queue : Machine Trust Op where
  init s := s.events = []
  step s
    | .push e => some (s.pushEvent e.1).1
    | .take => some { s with events := [], fullReported := false }
    | .reload => (loadEvents (persistedEvents s)).map fun events => .fromPersisted s.persistedPins s.pruned events s.departures

/-- The events pushed since the last take, after some that were pushed before. -/
def pushedSince (pushed : List DeviceEvent) : List Op → List DeviceEvent
  | [] => pushed
  | .push e :: ops => pushedSince (pushed ++ [e.1]) ops
  | .take :: ops => pushedSince [] ops
  | .reload :: ops => pushedSince pushed ops

theorem announced_concat {pushed : List DeviceEvent} (h : ∀ e ∈ pushed, Announced e)
    (he : Announced e) : ∀ e' ∈ pushed ++ [e], Announced e' := by
  intro e' he'
  rcases mem_append.mp he' with he' | he'
  · exact h e' he'
  · rw [mem_singleton.mp he']
    exact he

theorem queue_run (ops : List Op) (h : ∀ e ∈ pushed, Announced e) (hs : s.events = queueOf pushed) :
    ∃ s', queue.run s ops = some s' ∧ s'.events = queueOf (pushedSince pushed ops) ∧ ∀ e ∈ pushedSince pushed ops,
      Announced e := by
  induction ops generalizing s pushed with
  | nil => exact ⟨s, rfl, hs, h⟩
  | cons op ops ih =>
    cases op with
    | push e => exact ih (announced_concat h e.2) (push_queueOf h hs)
    | take => exact @ih { s with events := [], fullReported := false } [] (fun e he => absurd he not_mem_nil) rfl
    | reload =>
      obtain ⟨s', hrun, hrest⟩ := @ih (.fromPersisted s.persistedPins s.pruned s.events s.departures) pushed h hs
      refine ⟨s', ?_, hrest⟩
      show (queue.step s .reload).bind _ = _
      rw [show queue.step s .reload = some (.fromPersisted s.persistedPins s.pruned s.events s.departures) by
        show (loadEvents (persistedEvents s)).map _ = _
        rw [load_persistedEvents]
        rfl]
      exact hrun

/-! ## The store -/

variable (fingerprint : Key → String)

def joinLeaf (groupId : String) (epoch : Nat) (out : Trust × Bool) (leaf : LeafKey) : Trust × Bool :=
  let observed := out.1.observe leaf.identity leaf.key
  if observed.1 = .keyChanged then
    ((observed.2.2.pushEvent ⟨groupId, epoch, leaf.identity, fingerprint leaf.key, observed.1, none, false, false,
      false, false⟩).1, true)
  else (observed.2.2, out.2 || observed.2.1)

theorem observeJoinedTree_eq (s : Trust) (groupId : String) (epoch : Nat) (leaves : List LeafKey) :
    s.observeJoinedTree fingerprint groupId epoch leaves =
      leaves.foldl (joinLeaf fingerprint groupId epoch)
        ({ s with unseeded := s.unseeded.filter (· != groupId) }, false) := rfl

def joinedNews (groupId : String) (epoch : Nat) : Trust × Bool → List LeafKey → List DeviceEvent
  | _, [] => []
  | out, leaf :: rest =>
    (if out.1.verdict leaf.identity leaf.key = .keyChanged then
      [⟨groupId, epoch, leaf.identity, fingerprint leaf.key, .keyChanged, none, false, false, false, false⟩] else []) ++
    joinedNews groupId epoch (joinLeaf fingerprint groupId epoch out leaf) rest

def handed (s : Trust) : Event → List DeviceEvent
  | .joined groupId epoch leaves =>
      joinedNews fingerprint groupId epoch ({ s with unseeded := s.unseeded.filter (· != groupId) }, false) leaves
  | .merged m order => (newsOfCommit fingerprint s m order).map Prod.snd
  | _ => []

/-- The events pushed since the last take along a run, after some that were pushed before. -/
def handedSince (pushed : List DeviceEvent) (s : Trust) : List Event → List DeviceEvent
  | [] => pushed
  | e :: es =>
    match step fingerprint s e with
    | none => pushed
    | some s' =>
      match e with
      | .takeEvents => handedSince [] s' es
      | e => handedSince (pushed ++ handed fingerprint s e) s' es

theorem events_joinLeaf (groupId : String) (epoch : Nat) (out : Trust × Bool) (leaf : LeafKey) :
    (joinLeaf fingerprint groupId epoch out leaf).1.events =
      (pushAll out.1 (if out.1.verdict leaf.identity leaf.key = .keyChanged then
        [⟨groupId, epoch, leaf.identity, fingerprint leaf.key, .keyChanged, none, false, false, false, false⟩] else
          [])).events := by
  have hevents := (frame_observe out.1 leaf.identity leaf.key).events
  rw [joinLeaf, ← observe_verdict]
  split
  · next hchanged =>
    rw [hchanged]
    exact events_pushEvent hevents _
  · exact hevents

theorem events_joined (groupId : String) (epoch : Nat) (out : Trust × Bool) (leaves : List LeafKey) :
    (leaves.foldl (joinLeaf fingerprint groupId epoch) out).1.events =
      (pushAll out.1 (joinedNews fingerprint groupId epoch out leaves)).events := by
  induction leaves generalizing out with
  | nil => rfl
  | cons leaf rest ih =>
    rw [foldl_cons, ih, joinedNews, pushAll, pushAll, foldl_append]
    exact events_pushAll (events_joinLeaf fingerprint groupId epoch out leaf) _

theorem announced_joinedNews (groupId : String) (epoch : Nat) (out : Trust × Bool) (leaves : List LeafKey) :
    ∀ e ∈ joinedNews fingerprint groupId epoch out leaves, Announced e := by
  induction leaves generalizing out with
  | nil => exact fun e he => absurd he not_mem_nil
  | cons leaf rest ih =>
    intro e he
    rcases mem_append.mp he with he | he
    · split at he
      · rw [mem_singleton.mp he]
        rfl
      · cases he
    · exact ih _ e he

theorem announced_newsOf {m : Trust.Merged} {leaf : LeafKey}
    (h : newsOf fingerprint m s leaf = some e) : Announced e := by
  unfold newsOf at h
  dsimp only at h
  split at h
  · cases h
  · split at h
    · cases h
    · split at h
      · cases h
      · cases h
        rfl

theorem announced_handed (s : Trust) (event : Event) : ∀ e ∈ handed fingerprint s event, Announced e := by
  intro e he
  cases event with
  | joined groupId epoch leaves => exact announced_joinedNews fingerprint groupId epoch _ leaves e he
  | merged m order =>
    obtain ⟨r, hr, rfl⟩ := mem_map.mp he
    obtain ⟨t, ht⟩ := (mem_newsFrom fingerprint hr).2
    exact announced_newsOf fingerprint ht
  | seed => cases he
  | reload => cases he
  | prune => cases he
  | pruneDepartures => cases he
  | markUnseeded => cases he
  | forgetUnseeded => cases he
  | takeEvents => cases he

theorem pushAll_queueOf {events : List DeviceEvent} (h : ∀ e ∈ pushed, Announced e) (he : ∀ e ∈ events, Announced e)
    (hs : s.events = queueOf pushed) :
    (pushAll s events).events = queueOf (pushed ++ events) := by
  induction events generalizing s pushed with
  | nil => simpa [pushAll] using hs
  | cons e events ih =>
    rw [show pushed ++ e :: events = (pushed ++ [e]) ++ events by simp]
    exact ih (announced_concat h (he e mem_cons_self)) (fun e' he' => he e' (mem_cons_of_mem e he')) (push_queueOf h hs)

/-- A step of the store that is no take pushes what it hands over, and does nothing else to the queue. -/
theorem events_step {event : Event} (hstep : step fingerprint s event = some s') (htake : event ≠ .takeEvents)
    (h : ∀ e ∈ pushed, Announced e)
    (hs : s.events = queueOf pushed) : s'.events = queueOf (pushed ++ handed fingerprint s event) := by
  have hpush : ∀ t : Trust, t.events = s.events → s'.events = (pushAll t (handed fingerprint s event)).events →
      s'.events = queueOf (pushed ++ handed fingerprint s event) := by
    intro t ht hs'
    rw [hs', pushAll_queueOf h (announced_handed fingerprint s event) (ht.trans hs)]
  cases event with
  | seed leaves order =>
    obtain ⟨-, hs'⟩ := Option.ite_none_right_eq_some.mp hstep
    cases hs'
    exact hpush s rfl (frame_seedFromTree s order).events
  | joined groupId epoch leaves =>
    cases hstep
    refine hpush { s with unseeded := s.unseeded.filter (· != groupId) } rfl ?_
    exact events_joined fingerprint groupId epoch _ leaves
  | merged m order =>
    obtain ⟨-, hs'⟩ := Option.ite_none_right_eq_some.mp hstep
    cases hs'
    refine hpush (walked s m order).1 (events_walked s m order) ?_
    exact events_walk fingerprint _ _
  | reload =>
    cases hstep
    exact hpush s rfl rfl
  | prune held =>
    cases hstep
    refine hpush s rfl ?_
    unfold Trust.pruneAbsent
    split
    · rfl
    · rfl
  | pruneDepartures heldGroups =>
    cases hstep
    exact hpush s rfl rfl
  | markUnseeded groupId =>
    cases hstep
    exact hpush s rfl rfl
  | forgetUnseeded groupId =>
    cases hstep
    exact hpush s rfl rfl
  | takeEvents => exact absurd rfl htake

theorem handedSince_cons {event : Event} (es : List Event) (hstep : step fingerprint s event = some s')
    (htake : event ≠ .takeEvents) :
    handedSince fingerprint pushed s (event :: es) = handedSince fingerprint
      (pushed ++ handed fingerprint s event) s' es := by
  rw [handedSince, hstep]
  cases event with
  | takeEvents => exact absurd rfl htake
  | _ => rfl

theorem events_run {es : List Event} (h : ∀ e ∈ pushed, Announced e) (hs : s.events = queueOf pushed)
    (hrun : (machine fingerprint).run s es = some s') :
    s'.events = queueOf (handedSince fingerprint pushed s es) ∧ ∀ e ∈ handedSince fingerprint pushed s es,
      Announced e := by
  induction es generalizing s pushed with
  | nil =>
    cases hrun
    exact ⟨hs, h⟩
  | cons event es ih =>
    obtain ⟨t, ht, hrun⟩ := Option.bind_eq_some_iff.mp hrun
    by_cases htake : event = .takeEvents
    · subst htake
      cases ht
      exact @ih _ [] (fun e he => absurd he not_mem_nil) rfl hrun
    · rw [handedSince_cons fingerprint es ht htake]
      refine ih (fun e he => ?_) (events_step fingerprint ht htake h hs) hrun
      rcases mem_append.mp he with he | he
      · exact h e he
      · exact announced_handed fingerprint s event e he

/-- Since the last take, or since a queue that was empty: whatever was pushed, and in every run of the store. -/
theorem queue_between_takes :
    (∀ (ops : List Op) (s : Trust), s.events = [] → ∃ s', queue.run s ops = some s' ∧
      Holds (pushedSince [] ops) s'.events) ∧
    ∀ (fingerprint : Key → String) (es : List Event) (s s' : Trust), s.events = [] →
      (machine fingerprint).run s es = some s' →
      Holds (handedSince fingerprint [] s es) s'.events := by
  have hnone : ∀ e ∈ ([] : List DeviceEvent), Announced e := fun e he => absurd he not_mem_nil
  constructor
  · intro ops s hs
    obtain ⟨s', hrun, hevents, hannounced⟩ := queue_run ops hnone hs
    exact ⟨s', hrun, hevents ▸ holds_queueOf hannounced⟩
  · intro fingerprint es s s' hs hrun
    obtain ⟨hevents, hannounced⟩ := events_run fingerprint hnone hs hrun
    exact hevents ▸ holds_queueOf hannounced

/-! ## A run -/

def entered (groupId : String) : { e : DeviceEvent // Announced e } :=
  ⟨⟨groupId, 1, "bob:web", "", .firstSight, some "bob:web", true, true, false, false⟩, rfl⟩

/-- A queue filled by one group, then two other groups, with a reload between. -/
def fullQueue : List Op :=
  List.replicate MAX_PENDING_DEVICE_EVENTS (.push (entered "salon")) ++
    [.push (entered "atelier"), .reload, .push (entered "atelier"), .push (entered "bureau")]

theorem each_group_is_marked_once : ∃ s', queue.run (.fromPersisted [] [] [] []) fullQueue = some s' ∧
    (s'.events.countP fun e => e.eventsDropped && e.groupId == "atelier") = 1 ∧
    (s'.events.countP fun e => e.eventsDropped && e.groupId == "salon") = 0 ∧
    (s'.events.filter fun e => !e.eventsDropped).length = MAX_PENDING_DEVICE_EVENTS := by
  obtain ⟨s', hrun, hholds⟩ := (queue_between_takes).1 fullQueue (.fromPersisted [] [] [] []) rfl
  refine ⟨s', hrun, ?_, ?_, ?_⟩
  · rw [hholds.marks]
    decide +kernel
  · rw [hholds.marks]
    decide +kernel
  · rw [hholds.events]
    decide +kernel

end Canari.Mls.EventQueue
