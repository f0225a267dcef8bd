/-
  Canari.Chat.HistoryExchange — two devices pool the history of a conversation
  (`frontend/src/lib/utils/chat/historyDiffAnswer.ts`: `answerHistoryDigest`, `pullWhatWeLack`;
  `groupActions.ts`: `sendHistoryBundleForIds`, `sendHistoryPull`;
  `messagePipeline/systemMessageHandler.ts`: `history_pull`).

  The asker describes its store by a digest. The responder diffs it against its own, sends what
  the asker lacks and asks for what it lacks itself; the asker serves the pull. Every answer is
  clipped to the window of the device it goes to, and the answer to a digest carries tombstones
  whether the asker holds them or not.
  - `history_exchange_converges`: after one exchange each store holds what it held and what the
    other holds in its window; where the windows leave nothing out both hold the union, and a new
    exchange finds no difference.
  - `window_and_tombstones_break_the_union`: what the windows leave out is not sent, and a
    tombstone both hold is.
-/

import Canari.Chat.HistoryManifest
import Canari.Chat.HistoryStateKey

namespace Canari.Chat.HistoryExchange

open Lib Lib.JsText List
open Lib.Utf16 (JsString utf8Of scalars)
open Chat.HistoryManifest
open Chat.HistoryStateKey (StoredMessage isWithinHistoryRange readHistoryMessages)

/-! ## The code -/

def readHistoryEntries (messages : List StoredMessage) : List HistoryEntry := messages.map fun m => ⟨m.id, m.timestamp⟩

def HISTORY_TOMBSTONES_PER_ANSWER : Nat := 1000

def withinTombstoneCeiling (selected : List StoredMessage) (wanted : List JsString) : List StoredMessage :=
  let extra := selected.filter (·.id ∉ wanted)
  if extra.length ≤ HISTORY_TOMBSTONES_PER_ANSWER then selected
  else
    let kept := ((extra.mergeSort fun a b => b.timestamp ≤ a.timestamp).take HISTORY_TOMBSTONES_PER_ANSWER).map (·.id)
    selected.filter fun m => m.id ∈ wanted ∨ m.id ∈ kept

def sendHistoryBundleForIds (messages : List StoredMessage) (ids : List JsString) (since : Int)
    (withTombstones : Bool) : List StoredMessage :=
  if ids = [] ∧ withTombstones = false then []
  else
    let held := readHistoryMessages messages since
    let matching := held.filter fun m => m.id ∈ ids ∨ (withTombstones = true ∧ m.isDeleted = true)
    let inWindow := matching.filter fun m => isWithinHistoryRange m.timestamp since
    withinTombstoneCeiling inWindow ids

def MAX_IDS_PER_PULL : Nat := 500

def chunkLoop : Nat → List JsString → List (List JsString)
  | 0, _ => []
  | _ + 1, [] => []
  | fuel + 1, id :: rest => (id :: rest).take MAX_IDS_PER_PULL :: chunkLoop fuel ((id :: rest).drop MAX_IDS_PER_PULL)

def chunkIds (ids : List JsString) : List (List JsString) := chunkLoop ids.length ids

/-- A `history_pull`: ids by name, or slices at a depth. -/
inductive HistoryPull where
  | ids (ids : List JsString) (since : Nat)
  | slices (prefixes : List JsString) (depth since : Nat)

def sendHistoryPull (ids prefixes : List JsString) (depth : Option Nat) (since : Nat) : List HistoryPull :=
  if ids ≠ [] then (chunkIds ids).map fun batch => .ids batch since
  else
    match depth with
    | some depth => if prefixes ≠ [] ∧ depth ≠ 0 then [.slices prefixes depth since] else []
    | none => []

def pullWhatWeLack (digest : HistoryDigest) (diff : HistoryDiff) (since : Nat) : List HistoryPull :=
  match digest with
  | .ids _ => sendHistoryPull diff.missingLocally diff.pullPrefixes none since
  | .range depth _ => sendHistoryPull [] diff.pullPrefixes (some depth) since

def idsToSend (entries : List HistoryEntry) (digest : HistoryDigest) (diff : HistoryDiff) : List JsString :=
  match digest with
  | .ids _ => diff.missingOnPeer
  | .range depth _ => selectEntryIdsForPrefixes entries diff.pushPrefixes depth

/-- The bundle and the pulls; `since` is the asker's window, `ownSince` the responder's. -/
def answerHistoryDigest (C : WebCrypto) (messages : List StoredMessage) (digest : HistoryDigest)
    (since ownSince : Nat) :
    List StoredMessage × List HistoryPull :=
  let entries := readHistoryEntries messages
  let diff := diffHistoryDigest C entries digest
  (sendHistoryBundleForIds messages (idsToSend entries digest diff) since true, pullWhatWeLack digest diff ownSince)

def serveHistoryPull (messages : List StoredMessage) : HistoryPull → List StoredMessage
  | .ids ids since => sendHistoryBundleForIds messages (ids.filter fun id => trim id ≠ []) since false
  | .slices prefixes depth since =>
    let prefixes := if 1 ≤ depth then prefixes.filter fun p => p.length = depth ∧ isHex p else []
    sendHistoryBundleForIds messages
      (selectEntryIdsForPrefixes (readHistoryEntries messages) prefixes depth) since false

def receive (messages bundle : List StoredMessage) : List StoredMessage :=
  bundle.foldl (fun held m => if m.id ∈ held.map (·.id) then held else held ++ [m]) messages

/-! ## Stores and exchanges -/

def Trimmed (messages : List StoredMessage) : Prop := ∀ m ∈ messages, trim m.id = m.id ∧ m.id ≠ []

instance (messages : List StoredMessage) : Decidable (Trimmed messages) :=
  inferInstanceAs (Decidable (∀ m ∈ messages, trim m.id = m.id ∧ m.id ≠ []))

structure Store where
  messages : List StoredMessage
  trimmed : Trimmed messages

def Holds (messages : List StoredMessage) (id : JsString) : Prop := ∃ m ∈ messages, m.id = id

instance (messages : List StoredMessage)
    (id : JsString) : Decidable (Holds messages id) := inferInstanceAs (Decidable (∃ m ∈ messages, m.id = id))

def HoldsSince (messages : List StoredMessage) (since : Nat) (id : JsString) : Prop :=
  ∃ m ∈ messages, m.id = id ∧ isWithinHistoryRange m.timestamp since = true

structure Exchange where
  /-- What the responder sends and asks for. -/
  bundle : List StoredMessage
  pulls : List HistoryPull
  /-- What the asker serves. -/
  served : List StoredMessage
  asker : List StoredMessage
  responder : List StoredMessage

def exchange (C : WebCrypto) (A B : Store) (since ownSince : Nat) (late : Bool) : Exchange :=
  let digest := buildHistoryDigest C (readHistoryEntries A.messages) DIGEST_ID_MODE_MAX
  let answer := answerHistoryDigest C B.messages digest since ownSince
  let asker := receive A.messages answer.1
  let served := answer.2.flatMap (serveHistoryPull (if late then asker else A.messages))
  ⟨answer.1, answer.2, served, asker, receive B.messages served⟩

/-! ## What is sent -/

section Sending

variable {messages : List StoredMessage} {ids : List JsString} {since : Int} {withTombstones : Bool} {m : StoredMessage}

theorem mem_readHistoryMessages (h : isWithinHistoryRange m.timestamp since = true) :
    m ∈ readHistoryMessages messages since ↔ m ∈ messages := by
  unfold readHistoryMessages
  split
  · simp [h]
  · rfl

theorem mem_of_mem_readHistoryMessages (h : m ∈ readHistoryMessages messages since) : m ∈ messages := by
  unfold readHistoryMessages at h
  split at h
  · exact (mem_filter.mp h).1
  · exact h

theorem withinTombstoneCeiling_subset {selected : List StoredMessage} {wanted : List JsString}
    (h : m ∈ withinTombstoneCeiling selected wanted) :
    m ∈ selected := by
  unfold withinTombstoneCeiling at h
  simp only at h
  split at h
  · exact h
  · exact (mem_filter.mp h).1

theorem mem_withinTombstoneCeiling {selected : List StoredMessage} {wanted : List JsString} (h : m ∈ selected)
    (hw : m.id ∈ wanted) :
    m ∈ withinTombstoneCeiling selected wanted := by
  unfold withinTombstoneCeiling
  simp only
  split
  · exact h
  · exact mem_filter.mpr ⟨h, by simp [hw]⟩

theorem mem_of_mem_bundle (h : m ∈ sendHistoryBundleForIds messages ids since withTombstones) :
    m ∈ messages ∧ isWithinHistoryRange m.timestamp since = true ∧
      (m.id ∈ ids ∨ (withTombstones = true ∧ m.isDeleted = true)) := by
  unfold sendHistoryBundleForIds at h
  split at h
  · cases h
  · obtain ⟨hm, hw⟩ := mem_filter.mp (withinTombstoneCeiling_subset h)
    obtain ⟨hh, hi⟩ := mem_filter.mp hm
    exact ⟨mem_of_mem_readHistoryMessages hh, hw, decide_eq_true_eq.mp hi⟩

theorem mem_bundle (hm : m ∈ messages) (hw : isWithinHistoryRange m.timestamp since = true) (hi : m.id ∈ ids) :
    m ∈ sendHistoryBundleForIds messages ids since withTombstones := by
  unfold sendHistoryBundleForIds
  rw [if_neg fun h => ne_nil_of_mem hi h.1]
  refine mem_withinTombstoneCeiling (mem_filter.mpr ⟨mem_filter.mpr ⟨(mem_readHistoryMessages hw).mpr hm, ?_⟩, hw⟩) hi
  simp [hi]

variable {bundle : List StoredMessage}

theorem mem_receive (h : m ∈ receive messages bundle) : m ∈ messages ∨ m ∈ bundle := by
  unfold receive at h
  induction bundle generalizing messages with
  | nil => exact .inl h
  | cons x bundle ih =>
    rw [foldl_cons] at h
    rcases ih h with h | h
    · split at h
      · exact .inl h
      · rcases mem_append.mp h with h | h
        · exact .inl h
        · exact .inr (mem_singleton.mp h ▸ mem_cons_self)
    · exact .inr (mem_cons_of_mem x h)

theorem subset_receive (h : m ∈ messages) : m ∈ receive messages bundle := by
  unfold receive
  induction bundle generalizing messages with
  | nil => exact h
  | cons x bundle ih =>
    rw [foldl_cons]
    refine ih ?_
    split
    · exact h
    · exact mem_append_left _ h

theorem holds_receive {id : JsString} : Holds (receive messages bundle) id ↔ Holds messages id ∨ Holds bundle id := by
  constructor
  · rintro ⟨m, hm, rfl⟩
    rcases mem_receive hm with h | h
    · exact .inl ⟨m, h, rfl⟩
    · exact .inr ⟨m, h, rfl⟩
  · rintro (⟨m, hm, rfl⟩ | ⟨m, hm, rfl⟩)
    · exact ⟨m, subset_receive hm, rfl⟩
    · unfold receive
      induction bundle generalizing messages with
      | nil => cases hm
      | cons x bundle ih =>
        rw [foldl_cons]
        rcases mem_cons.mp hm with rfl | hm
        · split
          · rename_i h
            obtain ⟨y, hy, he⟩ := mem_map.mp h
            exact ⟨y, subset_receive hy, he⟩
          · exact ⟨m, subset_receive (mem_append_right _ (mem_singleton.mpr rfl)), rfl⟩
        · exact ih hm

theorem mem_chunkLoop {fuel : Nat} {id : JsString} (hf : ids.length ≤ fuel)
    (h : id ∈ ids) : ∃ batch ∈ chunkLoop fuel ids, id ∈ batch := by
  induction fuel generalizing ids with
  | zero =>
    have := length_pos_of_mem h
    omega
  | succ fuel ih =>
    cases ids with
    | nil => cases h
    | cons x rest =>
      rw [chunkLoop]
      have hsplit : id ∈ (x :: rest).take MAX_IDS_PER_PULL ++ (x :: rest).drop MAX_IDS_PER_PULL := by
        rw [take_append_drop]; exact h
      rcases mem_append.mp hsplit with h | h
      · exact ⟨_, mem_cons_self, h⟩
      · have hl : ((x :: rest).drop MAX_IDS_PER_PULL).length ≤ fuel := by
          rw [length_drop]
          unfold MAX_IDS_PER_PULL
          omega
        obtain ⟨batch, hb, hid⟩ := ih hl h
        exact ⟨batch, mem_cons_of_mem _ hb, hid⟩

theorem subset_of_mem_chunkLoop {fuel : Nat} {batch : List JsString} {id : JsString} (hb : batch ∈ chunkLoop fuel ids)
    (h : id ∈ batch) : id ∈ ids := by
  induction fuel generalizing ids with
  | zero => cases hb
  | succ fuel ih =>
    cases ids with
    | nil => cases hb
    | cons x rest =>
      rw [chunkLoop] at hb
      rcases mem_cons.mp hb with rfl | hb
      · exact mem_of_mem_take h
      · exact mem_of_mem_drop (ih hb)

end Sending

/-! ## What is selected -/

theorem mem_selectEntryIdsForPrefixes {entries : List HistoryEntry} {prefixes : List JsString} {depth : Nat}
    {id : JsString} :
    id ∈ selectEntryIdsForPrefixes entries prefixes depth ↔
      id ∈ uniqueSortedIds entries ∧ historyRangeOf id depth ∈ prefixes := by
  unfold selectEntryIdsForPrefixes
  split
  · rename_i h
    simp [h]
  · simp

theorem mem_ids_iff {messages : List StoredMessage} (ht : Trimmed messages) {id : JsString} :
    id ∈ uniqueSortedIds (readHistoryEntries messages) ↔ Holds messages id := by
  rw [mem_uniqueSortedIds]
  constructor
  · rintro ⟨-, e, he, rfl⟩
    obtain ⟨m, hm, rfl⟩ := mem_map.mp he
    exact ⟨m, hm, (ht m hm).1.symm⟩
  · rintro ⟨m, hm, rfl⟩
    exact ⟨(ht m hm).2, _, mem_map_of_mem hm, (ht m hm).1⟩

section Exchanges

variable {C : WebCrypto} {A B : Store} {since ownSince : Nat} {late : Bool} {id : JsString}

def digestOf (C : WebCrypto)
    (A : Store) : HistoryDigest := buildHistoryDigest C (readHistoryEntries A.messages) DIGEST_ID_MODE_MAX

def diffOf (C : WebCrypto) (A B : Store) : HistoryDiff := diffHistoryDigest C (readHistoryEntries B.messages)
    (digestOf C A)

def IdMode (A : Store) : Prop := ((uniqueSortedIds (readHistoryEntries A.messages)).length : Int) ≤ DIGEST_ID_MODE_MAX

theorem digestOf_ids (hi : IdMode A) : digestOf C A = .ids (uniqueSortedIds (readHistoryEntries A.messages)) :=
    buildHistoryDigest_ids hi

theorem digestOf_range (hr : ¬ IdMode A) : ∃ ranges,
    digestOf C A = .range (depthOf (readHistoryEntries A.messages)) ranges :=
  ⟨_, buildHistoryDigest_range hr⟩

theorem sameSlice_of_mem_iff (h : sameSlice (readHistoryEntries A.messages) (readHistoryEntries B.messages)
      (historyRangeOf id (depthOf (readHistoryEntries A.messages)))) : Holds A.messages id ↔ Holds B.messages id := by
  have hmem : id ∈ sliceOf (uniqueSortedIds (readHistoryEntries A.messages)) (depthOf (readHistoryEntries A.messages))
        (historyRangeOf id (depthOf (readHistoryEntries A.messages))) ↔
      id ∈ sliceOf (uniqueSortedIds (readHistoryEntries B.messages)) (depthOf (readHistoryEntries A.messages))
        (historyRangeOf id (depthOf (readHistoryEntries A.messages))) := by rw [h]
  rw [mem_sliceOf, mem_sliceOf, mem_ids_iff A.trimmed, mem_ids_iff B.trimmed] at hmem
  simpa using hmem

variable (hd : Distinguishes C (readHistoryEntries A.messages) (readHistoryEntries B.messages))
include hd

theorem mem_idsToSend :
    (id ∈ idsToSend (readHistoryEntries B.messages) (digestOf C A) (diffOf C A B) → Holds B.messages id) ∧
      (Holds B.messages id → ¬ Holds A.messages id →
        id ∈ idsToSend (readHistoryEntries B.messages) (digestOf C A) (diffOf C A B)) := by
  by_cases hi : IdMode A
  · have hmem : id ∈ (diffOf C A B).missingOnPeer ↔ Holds B.messages id ∧ ¬ Holds A.messages id := by
      rw [diffOf, digestOf, mem_missingOnPeer hi, mem_ids_iff A.trimmed, mem_ids_iff B.trimmed]
    rw [digestOf_ids hi]
    exact ⟨fun h => (hmem.mp h).1, fun hb ha => hmem.mpr ⟨hb, ha⟩⟩
  · obtain ⟨ranges, hranges⟩ := digestOf_range (C := C) hi
    rw [hranges, idsToSend, mem_selectEntryIdsForPrefixes, mem_ids_iff B.trimmed]
    refine ⟨fun h => h.1, fun hb ha => ⟨hb, ?_⟩⟩
    rw [diffOf, digestOf, mem_pushPrefixes hi hd]
    refine ⟨ne_nil_of_mem (mem_sliceOf.mpr ⟨(mem_ids_iff B.trimmed).mpr hb, rfl⟩), fun hs => ?_⟩
    exact ha ((sameSlice_of_mem_iff hs).mpr hb)

theorem holds_asker : Holds (exchange C A B since ownSince late).asker id ↔
    Holds A.messages id ∨ HoldsSince B.messages since id := by
  rw [show (exchange C A B since ownSince late).asker = receive A.messages (exchange C A B since ownSince late).bundle
    from rfl, holds_receive]
  constructor
  · rintro (h | ⟨m, hm, rfl⟩)
    · exact .inl h
    · obtain ⟨hb, hw, -⟩ := mem_of_mem_bundle hm
      exact .inr ⟨m, hb, rfl, hw⟩
  · rintro (h | ⟨m, hm, rfl, hw⟩)
    · exact .inl h
    · by_cases ha : Holds A.messages m.id
      · exact .inl ha
      · exact .inr ⟨m, mem_bundle hm hw ((mem_idsToSend hd).2 ⟨m, hm, rfl⟩ ha), rfl⟩

omit hd

def pullsOf (C : WebCrypto) (A B : Store) (ownSince : Nat) : List HistoryPull := pullWhatWeLack (digestOf C A)
    (diffOf C A B) ownSince

theorem pulls_ids (hi : IdMode A) : pullsOf C A B ownSince = (chunkIds (diffOf C A B).missingLocally).map fun batch =>
    .ids batch ownSince := by
  rw [pullsOf, digestOf_ids hi, pullWhatWeLack, sendHistoryPull]
  by_cases h : (diffOf C A B).missingLocally = []
  · rw [h]
    rfl
  · rw [if_pos h]

theorem pulls_range (hr : ¬ IdMode A) : pullsOf C A B ownSince =
    if (diffOf C A B).pullPrefixes ≠ [] then
      [.slices (diffOf C A B).pullPrefixes (depthOf (readHistoryEntries A.messages)) ownSince] else [] := by
  have hdepth : depthOf (readHistoryEntries A.messages) ≠ 0 := by
    have := (rangeDepthFor_bounds (uniqueSortedIds (readHistoryEntries A.messages)).length).1
    unfold depthOf
    omega
  obtain ⟨ranges, hranges⟩ := digestOf_range (C := C) hr
  rw [pullsOf, hranges, pullWhatWeLack, sendHistoryPull]
  simp [hdepth]

theorem mem_of_mem_serve {messages : List StoredMessage} {pull : HistoryPull} {m : StoredMessage}
    (hp : pull ∈ pullsOf C A B ownSince)
    (h : m ∈ serveHistoryPull messages pull) : m ∈ messages ∧ isWithinHistoryRange m.timestamp ownSince = true := by
  have hbundle : ∀ {ids : List JsString}, m ∈ sendHistoryBundleForIds messages ids ownSince false →
      m ∈ messages ∧ isWithinHistoryRange m.timestamp ownSince = true :=
        fun h => ⟨(mem_of_mem_bundle h).1, (mem_of_mem_bundle h).2.1⟩
  by_cases hi : IdMode A
  · rw [pulls_ids hi] at hp
    obtain ⟨batch, -, rfl⟩ := mem_map.mp hp
    exact hbundle h
  · rw [pulls_range hi] at hp
    split at hp
    · rw [mem_singleton.mp hp] at h
      exact hbundle h
    · cases hp

theorem mem_of_mem_served {m : StoredMessage} (h : m ∈ (exchange C A B since ownSince late).served) :
    (m ∈ A.messages ∨ m ∈ B.messages) ∧ isWithinHistoryRange m.timestamp ownSince = true := by
  obtain ⟨pull, hp, hm⟩ := mem_flatMap.mp h
  obtain ⟨hsource, hw⟩ := mem_of_mem_serve (show pull ∈ pullsOf C A B ownSince from hp) hm
  refine ⟨?_, hw⟩
  cases late with
  | false => exact .inl hsource
  | true =>
    rcases mem_receive hsource with h | h
    · exact .inl h
    · exact .inr (mem_of_mem_bundle h).1

/-- All the responder lacks is asked for, and served from any store that has it in its window. -/
theorem mem_serve (hd : Distinguishes C (readHistoryEntries A.messages) (readHistoryEntries B.messages))
    {messages : List StoredMessage}
    (ht : Trimmed messages) {m : StoredMessage} (hm : m ∈ messages) (ha : Holds A.messages m.id)
    (hw : isWithinHistoryRange m.timestamp ownSince = true) (hb : ¬ Holds B.messages m.id) :
    ∃ pull ∈ pullsOf C A B ownSince, m ∈ serveHistoryPull messages pull := by
  have hid : m.id ∈ uniqueSortedIds (readHistoryEntries A.messages) := (mem_ids_iff A.trimmed).mpr ha
  by_cases hi : IdMode A
  · have hmiss : m.id ∈ (diffOf C A B).missingLocally := by
      rw [diffOf, digestOf, mem_missingLocally hi, mem_ids_iff B.trimmed]
      exact ⟨hid, hb⟩
    obtain ⟨batch, hbatch, hin⟩ := mem_chunkLoop (Nat.le_refl _) hmiss
    refine ⟨.ids batch ownSince, ?_, ?_⟩
    · rw [pulls_ids hi]
      exact mem_map_of_mem hbatch
    · exact mem_bundle hm hw (mem_filter.mpr ⟨hin, by simpa using trim_ne_nil_of_mem hid⟩)
  · have hpull : historyRangeOf m.id (depthOf (readHistoryEntries A.messages)) ∈ (diffOf C A B).pullPrefixes := by
      rw [diffOf, digestOf, mem_pullPrefixes hi hd]
      exact ⟨ne_nil_of_mem (mem_sliceOf.mpr ⟨hid, rfl⟩), fun hs => hb ((sameSlice_of_mem_iff hs).mp ha)⟩
    obtain ⟨h1, h3⟩ : 1 ≤ depthOf (readHistoryEntries A.messages) ∧ depthOf (readHistoryEntries A.messages) ≤ 3 :=
      rangeDepthFor_bounds _
    obtain ⟨hlen, hhex⟩ := historyRangeOf_spec m.id h3
    refine ⟨.slices (diffOf C A B).pullPrefixes (depthOf (readHistoryEntries A.messages)) ownSince, ?_, ?_⟩
    · rw [pulls_range hi, if_pos (ne_nil_of_mem hpull)]
      exact mem_singleton.mpr rfl
    · refine mem_bundle hm hw ((mem_selectEntryIdsForPrefixes).mpr ⟨(mem_ids_iff ht).mpr ⟨m, hm, rfl⟩, ?_⟩)
      rw [if_pos h1, mem_filter, decide_eq_true_eq]
      exact ⟨hpull, hlen, isHex_of_length hlen h1 hhex⟩

theorem trimmed_asker : Trimmed (exchange C A B since ownSince late).asker := by
  intro m hm
  rcases mem_receive hm with h | h
  · exact A.trimmed m h
  · exact B.trimmed m (mem_of_mem_bundle h).1

theorem trimmed_responder : Trimmed (exchange C A B since ownSince late).responder := by
  intro m hm
  rcases mem_receive hm with h | h
  · exact B.trimmed m h
  · rcases (mem_of_mem_served h).1 with h | h
    · exact A.trimmed m h
    · exact B.trimmed m h

theorem holds_responder (hd : Distinguishes C (readHistoryEntries A.messages) (readHistoryEntries B.messages)) :
    Holds (exchange C A B since ownSince late).responder id ↔
      Holds B.messages id ∨ HoldsSince A.messages ownSince id := by
  rw [show (exchange C A B since ownSince late).responder = receive B.messages
    (exchange C A B since ownSince late).served from rfl, holds_receive]
  constructor
  · rintro (h | ⟨m, hm, rfl⟩)
    · exact .inl h
    · obtain ⟨ha | hb, hw⟩ := mem_of_mem_served hm
      · exact .inr ⟨m, ha, rfl, hw⟩
      · exact .inl ⟨m, hb, rfl⟩
  · rintro (h | ⟨m, hm, rfl, hw⟩)
    · exact .inl h
    · by_cases hb : Holds B.messages m.id
      · exact .inl hb
      · have hserve : ∃ pull ∈ pullsOf C A B ownSince,
            m ∈ serveHistoryPull (if late then (exchange C A B since ownSince late).asker else A.messages) pull := by
          cases late with
          | false => exact mem_serve hd A.trimmed hm ⟨m, hm, rfl⟩ hw hb
          | true => exact mem_serve hd trimmed_asker (subset_receive hm) ⟨m, hm, rfl⟩ hw hb
        exact .inr ⟨m, mem_flatMap.mpr hserve, rfl⟩

theorem sent_once (hi : IdMode A) :
    (∀ m ∈ (exchange C A B since ownSince late).bundle, ¬ Holds A.messages m.id ∨ m.isDeleted = true) ∧
      ∀ m ∈ (exchange C A B since ownSince late).served, ¬ Holds B.messages m.id := by
  constructor
  · intro m hm
    obtain ⟨-, -, hsel | hdel⟩ := mem_of_mem_bundle (show m ∈ sendHistoryBundleForIds B.messages
      (idsToSend (readHistoryEntries B.messages) (digestOf C A) (diffOf C A B)) since true from hm)
    · rw [digestOf_ids hi, idsToSend, diffOf, digestOf, mem_missingOnPeer hi, mem_ids_iff A.trimmed] at hsel
      exact .inl hsel.2
    · exact .inr hdel.2
  · intro m hm
    obtain ⟨pull, hp, hserve⟩ := mem_flatMap.mp hm
    have hp' : pull ∈ pullsOf C A B ownSince := hp
    rw [pulls_ids hi] at hp'
    obtain ⟨batch, hbatch, rfl⟩ := mem_map.mp hp'
    obtain ⟨-, -, hin | hdel⟩ := mem_of_mem_bundle hserve
    · have hmiss := subset_of_mem_chunkLoop hbatch (mem_filter.mp hin).1
      rw [diffOf, digestOf, mem_missingLocally hi, mem_ids_iff B.trimmed] at hmiss
      exact hmiss.2
    · cases hdel.1

end Exchanges

/-- Nothing one of them lacks is outside its window. -/
def WindowsCover (A B : Store) (since ownSince : Nat) : Prop :=
  (∀ m ∈ B.messages, ¬ Holds A.messages m.id → isWithinHistoryRange m.timestamp since = true) ∧
    ∀ m ∈ A.messages, ¬ Holds B.messages m.id → isWithinHistoryRange m.timestamp ownSince = true

instance (A B : Store) (since ownSince : Nat) : Decidable (WindowsCover A B since ownSince) :=
  inferInstanceAs (Decidable
    ((∀ m ∈ B.messages, ¬ Holds A.messages m.id → isWithinHistoryRange m.timestamp since = true) ∧
    ∀ m ∈ A.messages, ¬ Holds B.messages m.id → isWithinHistoryRange m.timestamp ownSince = true))

theorem holds_or_since {A B : Store} {since : Nat}
    (h : ∀ m ∈ B.messages, ¬ Holds A.messages m.id → isWithinHistoryRange m.timestamp since = true)
    (id : JsString) : Holds A.messages id ∨ HoldsSince B.messages since id ↔
    Holds A.messages id ∨ Holds B.messages id := by
  constructor
  · rintro (h | ⟨m, hm, he, -⟩)
    · exact .inl h
    · exact .inr ⟨m, hm, he⟩
  · rintro (ha | ⟨m, hm, rfl⟩)
    · exact .inl ha
    · by_cases ha : Holds A.messages m.id
      · exact .inl ha
      · exact .inr ⟨m, hm, rfl, h m hm ha⟩

theorem isEmpty_of_same (C : WebCrypto) {x y : List StoredMessage} (hx : Trimmed x) (hy : Trimmed y)
    (h : ∀ id, Holds x id ↔ Holds y id) (idModeMax : Int) :
    isEmptyHistoryDiff (diffHistoryDigest C (readHistoryEntries y)
      (buildHistoryDigest C (readHistoryEntries x) idModeMax)) = true := by
  have hids : ∀ id, id ∈ uniqueSortedIds (readHistoryEntries x) ↔ id ∈ uniqueSortedIds (readHistoryEntries y) := by
    intro id
    rw [mem_ids_iff hx, mem_ids_iff hy]
    exact h id
  exact (isEmptyHistoryDiff_iff (distinguishes_of_eq (uniqueSortedIds_congr hids)) idModeMax).mpr hids

/-- One exchange: the diff is empty exactly when the stores hold the same ids; each store ends
    with what it held and what the other holds in its window; where the windows leave nothing out
    both hold the union and a new exchange is empty; in id mode only tombstones are sent again;
    and a digest is read as it was built. -/
theorem history_exchange_converges (C : WebCrypto) (A B : Store) (since ownSince : Nat) (late : Bool)
    (hd : Distinguishes C (readHistoryEntries A.messages) (readHistoryEntries B.messages)) :
    (isEmptyHistoryDiff (diffOf C A B) = true ↔ ∀ id, Holds A.messages id ↔ Holds B.messages id) ∧
      (∀ id, Holds (exchange C A B since ownSince late).asker id ↔
        Holds A.messages id ∨ HoldsSince B.messages since id) ∧
      (∀ id, Holds (exchange C A B since ownSince late).responder id ↔
        Holds B.messages id ∨ HoldsSince A.messages ownSince id) ∧
      (WindowsCover A B since ownSince →
        (∀ id, (Holds (exchange C A B since ownSince late).asker id ↔ Holds A.messages id ∨ Holds B.messages id) ∧
          (Holds (exchange C A B since ownSince late).responder id ↔ Holds A.messages id ∨ Holds B.messages id)) ∧
        isEmptyHistoryDiff (diffHistoryDigest C (readHistoryEntries (exchange C A B since ownSince late).responder)
          (buildHistoryDigest C (readHistoryEntries (exchange C A B since ownSince late).asker) DIGEST_ID_MODE_MAX)) =
            true ∧
        isEmptyHistoryDiff (diffHistoryDigest C (readHistoryEntries (exchange C A B since ownSince late).asker)
          (buildHistoryDigest C (readHistoryEntries
            (exchange C A B since ownSince late).responder) DIGEST_ID_MODE_MAX)) = true) ∧
      (IdMode A → (∀ m ∈ (exchange C A B since ownSince late).bundle, ¬ Holds A.messages m.id ∨ m.isDeleted = true) ∧
        ∀ m ∈ (exchange C A B since ownSince late).served, ¬ Holds B.messages m.id) ∧
      ∀ (entries : List HistoryEntry) (idModeMax : Int), idModeMax ≤ MAX_DIGEST_ENTRIES →
        parseHistoryDigest (buildHistoryDigest C entries idModeMax).toValue = some
          (buildHistoryDigest C entries idModeMax) := by
  refine ⟨?_, fun id => holds_asker hd, fun id => holds_responder hd, fun hcover => ?_, sent_once,
    fun entries _ h => parseHistoryDigest_build C entries h⟩
  · rw [diffOf, digestOf, isEmptyHistoryDiff_iff hd]
    simp only [mem_ids_iff A.trimmed, mem_ids_iff B.trimmed]
  · have hunion : ∀ id, (Holds (exchange C A B since ownSince late).asker id ↔
      Holds A.messages id ∨ Holds B.messages id) ∧
        (Holds (exchange C A B since ownSince late).responder id ↔ Holds A.messages id ∨ Holds B.messages id) := by
      intro id
      rw [holds_asker hd, holds_responder hd, holds_or_since hcover.1, holds_or_since hcover.2]
      exact ⟨Iff.rfl, or_comm⟩
    have hsame : ∀ id, Holds (exchange C A B since ownSince late).asker id ↔
      Holds (exchange C A B since ownSince late).responder id :=
      fun id => (hunion id).1.trans (hunion id).2.symm
    exact ⟨hunion, isEmpty_of_same C trimmed_asker trimmed_responder hsame _,
      isEmpty_of_same C trimmed_responder trimmed_asker (fun id => (hsame id).symm) _⟩

/-! ## Runs -/

def row (id : JsString) (timestamp : Int)
    (isDeleted : Bool) : StoredMessage := ⟨id, timestamp, [], isDeleted, false, none⟩

def padded : WebCrypto := ⟨fun bytes => (bytes ++ List.replicate 32 0).take 32, fun bytes => by simp⟩

def storeA : Store := ⟨[row [0x61] 20 false], by decide⟩

def storeB : Store := ⟨[row [0x62] 20 false], by decide⟩

theorem distinguishes_storeA_storeB : Distinguishes padded (readHistoryEntries storeA.messages)
    (readHistoryEntries storeB.messages) := by
  have hA : uniqueSortedIds (readHistoryEntries storeA.messages) = [[0x61]] := by decide
  have hB : uniqueSortedIds (readHistoryEntries storeB.messages) = [[0x62]] := by decide
  have h1 : hashIdList padded [[0x61]] ≠ hashIdList padded [[0x62]] := by decide
  have h2 : hashIdList padded [[0x61]] ≠ hashIdList padded [] := by decide
  have h3 : hashIdList padded [] ≠ hashIdList padded [[0x62]] := by decide
  intro p h
  unfold sameSlice
  rw [hA, hB, sliceOf, sliceOf, filter_singleton, filter_singleton] at h ⊢
  generalize decide (historyRangeOf [0x61] (depthOf (readHistoryEntries storeA.messages)) = p) = inA at h ⊢
  generalize decide (historyRangeOf [0x62] (depthOf (readHistoryEntries storeA.messages)) = p) = inB at h ⊢
  cases inA <;> cases inB
  · rfl
  · exact absurd h h3
  · exact absurd h h2
  · exact absurd h h1

def emptyStore : Store := ⟨[], by decide⟩

/-- A hash that tells no bytes from some. -/
def telling : WebCrypto := ⟨fun bytes => replicate 32 (if bytes = [] then 0 else 1), fun _ => length_replicate⟩

def longId (k : Nat) : JsString := [0x61, UInt16.ofNat k, 0x61]

def longStore (n : Nat) : Store where
  messages := (range n).map fun k => row (longId k) 20 false
  trimmed := by
    intro m hm
    obtain ⟨k, -, rfl⟩ := mem_map.mp hm
    exact ⟨rfl, cons_ne_nil _ _⟩

variable {n : Nat}

theorem holds_longStore {id : JsString} : Holds (longStore n).messages id ↔ id ∈ (range n).map longId := by
  simp [Holds, longStore, row]

theorem holdsSince_longStore {k : Nat} (h : k < n) : HoldsSince (longStore n).messages 10 (longId k) :=
  ⟨_, mem_map_of_mem (mem_range.mpr h), rfl, rfl⟩

theorem longStore_not_idMode (h : 1000 < n) (hn : n ≤ 65536) : ¬ IdMode (longStore n) := by
  have hnodup : ((range n).map longId).Nodup := by
    refine nodup_range.map_on fun i hi j hj h => ?_
    have hij := congrArg UInt16.toNat (cons.inj (cons.inj h).2).1
    rw [mem_range] at hi hj
    rw [UInt16.toNat_ofNat', UInt16.toNat_ofNat'] at hij
    omega
  have hsub : (range n).map longId ⊆ uniqueSortedIds (readHistoryEntries (longStore n).messages) :=
    fun id hid => (mem_ids_iff (longStore n).trimmed).mpr (holds_longStore.mpr hid)
  have hle := (subperm_of_subset hnodup hsub).length_le
  rw [length_map, length_range] at hle
  unfold IdMode DIGEST_ID_MODE_MAX
  omega

theorem distinguishes_longStore :
    Distinguishes telling (readHistoryEntries (longStore n).messages) (readHistoryEntries emptyStore.messages) := by
  intro p h
  have hempty : uniqueSortedIds (readHistoryEntries emptyStore.messages) = [] := by decide
  rw [sameSlice, hempty]
  rw [hempty] at h
  cases hl : sliceOf (uniqueSortedIds (readHistoryEntries (longStore n).messages))
    (depthOf (readHistoryEntries (longStore n).messages)) p with
  | nil => rfl
  | cons id rest =>
    rw [hl] at h
    have hid := (mem_ids_iff (longStore n).trimmed).mp (mem_sliceOf.mp (hl ▸ mem_cons_self)).1
    obtain ⟨k, -, rfl⟩ := mem_map.mp (holds_longStore.mp hid)
    have hscalars : scalars (join (text "\n") (longId k :: rest)) ≠ scalars [] := by
      cases rest <;> exact cons_ne_nil _ _
    have hbytes : utf8Of (join (text "\n") (longId k :: rest)) ≠ [] := fun hb => hscalars (Utf16.utf8Of_inj.mp hb)
    have hsome : hashIdList telling (longId k :: rest) = text "0101010101010101" := by
      rw [hashIdList, telling]
      dsimp only
      rw [if_neg hbytes]
      decide
    exact absurd (hsome.symm.trans h : _ = hashIdList telling []) (by decide)

/-- Two stores of one message each hold both after the exchange, and a store told by slices, being too long to be
    named, is served to one that holds nothing. -/
theorem two_stores_converge :
    (Distinguishes padded (readHistoryEntries storeA.messages) (readHistoryEntries storeB.messages) ∧
      WindowsCover storeA storeB 10 10 ∧
      Holds (exchange padded storeA storeB 10 10 true).asker [0x62] ∧
        Holds (exchange padded storeA storeB 10 10 true).responder [0x61]) ∧
    ¬ IdMode (longStore 1001) ∧
      ∀ k < 1001, Holds (exchange telling (longStore 1001) emptyStore 10 10 true).responder (longId k) := by
  have hcover : WindowsCover storeA storeB 10 10 := by decide
  have hunion := ((history_exchange_converges padded storeA storeB 10 10 true
    distinguishes_storeA_storeB).2.2.2.1 hcover).1
  refine ⟨⟨distinguishes_storeA_storeB, hcover, (hunion [0x62]).1.mpr (.inr (by decide)),
    (hunion [0x61]).2.mpr (.inl (by decide))⟩, longStore_not_idMode (by decide) (by decide), fun k hk => ?_⟩
  have hlong := history_exchange_converges telling (longStore 1001) emptyStore 10 10 true distinguishes_longStore
  exact (hlong.2.2.1 _).mpr (.inr (holdsSince_longStore hk))

def oldStore : Store := ⟨[row [0x61] 5 false], by decide⟩

def tombstoneStore : Store := ⟨[row [0x61] 20 true], by decide⟩

/-- The asker never gets the old message; a tombstone both hold is sent. -/
theorem window_and_tombstones_break_the_union :
    Holds oldStore.messages [0x61] ∧ ¬ Holds (exchange padded emptyStore oldStore 10 10 true).asker [0x61] ∧
      (exchange padded tombstoneStore tombstoneStore 10 10 true).bundle = tombstoneStore.messages := by
  decide

end Canari.Chat.HistoryExchange
