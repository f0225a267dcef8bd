/-
  Canari.Chat.HistoryStateKey — the state key of a conversation and its cache
  (`frontend/src/lib/utils/chat/historyStateKey.ts`, `readHistoryMessages` of `groupActions.ts`).

  A key is a fold over the rows of the window. `cachedHistoryStateKey` looks the conversation up,
  and on a miss reads the store, waits for the digests and stores the key; a store write drops
  the entry of its conversation. The read and the store of one call are two steps, and writes and
  other calls come between.

  A call that read before a write stores its key after the invalidation of that write, and every
  later call is answered from it (`stale_key_returned`).
  - `state_keys_coherent`: where no write of the conversation is invalidated between a call's read
    and its `cache.set`, every key returned is the key of a content held since the last
    invalidation; a run that stores any other key goes on to return it.
-/

import Canari.Lib.JsMap
import Canari.Lib.JsText
import Canari.Lib.Machine

namespace Canari.Chat.HistoryStateKey

open Lib Lib.JsText List Option Function
open Lib.Utf16 (JsString utf8Of)

/-! ## The key -/

def STATE_KEY_HEX_CHARS : Nat := 16

structure MessageReaction where
  userId : Option JsString
  emoji : Option JsString
  at? : Option Int
  removed : Bool
  deriving DecidableEq

structure StoredMessage where
  id : JsString
  timestamp : Int
  reactions : List MessageReaction
  isDeleted : Bool
  isEdited : Bool
  editedAt : Option Int
  deriving DecidableEq

def isWithinHistoryRange (timestamp since : Int) : Bool := since ≤ timestamp

structure Platform where
  toLowerCase : JsString → JsString
  sha256 : Bytes → Bytes

section Key

variable (P : Platform)

def canonicalReaction (r : MessageReaction) : JsString :=
  join (text "\x01")
    [(r.userId.map P.toLowerCase).getD [], r.emoji.getD [], decimal (r.at?.getD 0),
      text (if r.removed then "1" else "0")]

def canonicalMessageState (m : StoredMessage) : JsString :=
  join (text "\x03")
    [m.id, text (if m.isDeleted then "1" else "0"), decimal (if m.isEdited then m.editedAt.getD 1 else 0),
      join (text "\x02") (sort (m.reactions.map (canonicalReaction P)))]

def xorInto (acc digest : Bytes) : Bytes := List.zipWith (· ^^^ ·) acc digest

/-- One turn of the loop, on `acc` and `seen`. -/
def foldMessage (since : Int) (acc : Bytes × List JsString) (m : StoredMessage) : Bytes × List JsString :=
  let id := trim m.id
  if id = [] || acc.2.contains id then acc
  else if !isWithinHistoryRange m.timestamp since then acc
  else (xorInto acc.1 ((P.sha256 (utf8Of (canonicalMessageState P m))).take acc.1.length), id :: acc.2)

def historyStateKey (messages : List StoredMessage) (since : Int) : JsString :=
  (messages.foldl (foldMessage P since) (List.replicate (STATE_KEY_HEX_CHARS / 2) 0, [])).1.flatMap fun b =>
    hexOf 2 b.toNat

end Key

def readHistoryMessages (content : List StoredMessage) (since : Int) : List StoredMessage :=
  if 0 < since then content.filter fun m => isWithinHistoryRange m.timestamp since else content

/-! ## The cache -/

structure CachedKey where
  since : Int
  key : JsString

inductive Phase where
  | loading
  /-- `version` counts the contents before the one it read. -/
  | computing (messages : List StoredMessage) (version : Nat)
  | returned (key : Option JsString)
  deriving DecidableEq

/-- One call. `need` is the content current at the last invalidation before it began. -/
structure Call where
  groupId : String
  since : Int
  need : Nat
  phase : Phase
  deriving DecidableEq

structure State where
  /-- The contents a conversation had, in order; the store holds the last. -/
  contents : String → List (List StoredMessage)
  /-- The content current at its last invalidation. -/
  invalidated : String → Nat
  cache : JsMap String CachedKey
  calls : List Call

inductive Event where
  | write (groupId : String) (content : List StoredMessage)
  | invalidateHistoryStateKey (groupId : String)
  | invalidateAllHistoryStateKeys
  | call (groupId : String) (since : Int)
  /-- `loadMessages` of call `i` answers; it may not be able to read. -/
  | load (i : Nat) (readable : Bool)
  /-- The digests of call `i` are in. -/
  | finish (i : Nat)

section Cache

variable (P : Platform)

/-- `cachedHistoryStateKey` up to its first await. -/
def begin? (s : State) (groupId : String) (since : Int) : Phase :=
  match s.cache.get groupId with
  | some hit => if hit.since = since then .returned (some hit.key) else .loading
  | none => .loading

def current (s : State) (groupId : String) : Nat := (s.contents groupId).length - 1

def step (s : State) : Event → Option State
  | .write groupId content =>
      some { s with contents := Function.update s.contents groupId (s.contents groupId ++ [content]) }
  | .invalidateHistoryStateKey groupId =>
    some { s with
      cache := s.cache.delete groupId
      invalidated := Function.update s.invalidated groupId (current s groupId) }
  | .invalidateAllHistoryStateKeys => some { s with cache := .empty, invalidated := current s }
  | .call groupId since =>
    some { s with calls := s.calls ++ [⟨groupId, since, s.invalidated groupId, begin? s groupId since⟩] }
  | .load i readable =>
    match s.calls[i]? with
    | some ⟨groupId, since, need, .loading⟩ =>
      let phase :=
        if readable then
          .computing (readHistoryMessages ((s.contents groupId).getLastD []) since) (current s groupId)
        else .returned none
      some { s with calls := s.calls.set i ⟨groupId, since, need, phase⟩ }
    | _ => none
  | .finish i =>
    match s.calls[i]? with
    | some ⟨groupId, since, need, .computing messages _⟩ =>
      let key := historyStateKey P messages since
      some { s with
        cache := s.cache.set groupId ⟨since, key⟩
        calls := s.calls.set i ⟨groupId, since, need, .returned (some key)⟩ }
    | _ => none

def machine : Machine State Event where
  init s := ∃ store : String → List StoredMessage, s = ⟨fun g => [store g], fun _ => 0, .empty, []⟩
  step := step P

/-! ## What a key must stand for -/

/-- `key` is the key of a content the conversation had from its `n`th on. -/
def KeySince (s : State) (groupId : String) (n : Nat) (since : Int) (key : JsString) : Prop :=
  ∃ content ∈ (s.contents groupId).drop n, key = historyStateKey P content since

/-- Every key returned is the key of a content that existed at or after the last invalidation
    before its call. -/
def Coherent (s : State) : Prop :=
  ∀ c ∈ s.calls, ∀ key, c.phase = .returned (some key) → KeySince P s c.groupId c.need c.since key

/-- Between the read of a call and its `cache.set`, no write of its conversation was invalidated. -/
def readStands (s : State) : Event → Bool
  | .finish i =>
    match s.calls[i]? with
    | some ⟨groupId, _, _, .computing _ version⟩ => s.invalidated groupId ≤ version
    | _ => true
  | _ => true

structure Inv (s : State) : Prop where
  held : ∀ g, s.invalidated g < (s.contents g).length
  cached : ∀ g e, s.cache.get g = some e → KeySince P s g (s.invalidated g) e.since e.key
  need : ∀ c ∈ s.calls, c.need ≤ s.invalidated c.groupId
  computing : ∀ c ∈ s.calls, ∀ messages version, c.phase = .computing messages version →
    c.need ≤ version ∧ KeySince P s c.groupId version c.since (historyStateKey P messages c.since)
  returned : Coherent P s

end Cache

/-! ## The steps -/

section Proofs

variable {P : Platform} {s s' : State}

theorem historyStateKey_read (content : List StoredMessage) (since : Int) :
    historyStateKey P (readHistoryMessages content since) since = historyStateKey P content since := by
  unfold readHistoryMessages
  split
  · unfold historyStateKey
    rw [foldl_filter]
    congr 3
    funext acc m
    unfold foldMessage
    by_cases h : isWithinHistoryRange m.timestamp since = true
    · simp [h]
    · simp [h]
  · rfl

variable {g : String}

theorem KeySince.mono {n m : Nat} {since : Int} {key : JsString} (h : KeySince P s g n since key) (hm : m ≤ n) :
    KeySince P s g m since key := by
  obtain ⟨content, hc, hk⟩ := h
  exact ⟨content, (drop_sublist_drop_left _ hm).subset hc, hk⟩

/-- A write adds a content and takes none away. -/
theorem KeySince.write {g g' : String} {n : Nat} {since : Int} {key : JsString} {content : List StoredMessage}
    (h : KeySince P s g n since key) :
    KeySince P { s with contents := Function.update s.contents g' (s.contents g' ++ [content]) } g n since key := by
  obtain ⟨held, hc, hk⟩ := h
  refine ⟨held, ?_, hk⟩
  by_cases hg : g = g'
  · subst hg
    simp only [update_self, drop_append]
    exact mem_append_left _ hc
  · simpa only [update_of_ne hg] using hc

theorem keySince_last {n : Nat} (h : n < (s.contents g).length) (since : Int) :
    KeySince P s g n since (historyStateKey P (readHistoryMessages ((s.contents g).getLastD []) since) since) := by
  have hne : (s.contents g).drop n ≠ [] := by simpa using h
  refine ⟨(s.contents g).getLastD [], ?_, historyStateKey_read _ _⟩
  have hl : ((s.contents g).drop n).getLast hne = (s.contents g).getLastD [] := by
    rw [getLast_drop, getLastD_eq_getLast?, getLast?_eq_some_getLast, getD_some]
  exact hl ▸ getLast_mem hne

theorem current_lt (hi : Inv P s) : current s g < (s.contents g).length := by
  have := hi.held g
  unfold current
  omega

theorem le_current (hi : Inv P s) : s.invalidated g ≤ current s g := by
  have := hi.held g
  unfold current
  omega

theorem inv_write (hi : Inv P s) (g : String) (content : List StoredMessage) :
    Inv P { s with contents := Function.update s.contents g (s.contents g ++ [content]) } where
  held := fun g' => by
    have := hi.held g'
    by_cases hg : g' = g
    · subst hg
      simp only [update_self, length_append]
      omega
    · simpa [update_of_ne hg] using this
  cached := fun g' e he => (hi.cached g' e he).write
  need := hi.need
  computing := fun c hc m v hm => (hi.computing c hc m v hm).imp_right KeySince.write
  returned := fun c hc k hk => (hi.returned c hc k hk).write

theorem inv_drop (hi : Inv P s) {cache : JsMap String CachedKey} {marks : String → Nat}
    (hle : ∀ g, s.invalidated g ≤ marks g)
    (hlt : ∀ g, marks g < (s.contents g).length)
    (hc : ∀ g e, cache.get g = some e → s.cache.get g = some e ∧ marks g = s.invalidated g) :
    Inv P { s with cache := cache, invalidated := marks } where
  held := hlt
  cached := fun g e he => by
    obtain ⟨hs, hm⟩ := hc g e he
    obtain ⟨content, hin, hk⟩ := hi.cached g e hs
    exact ⟨content, by simpa only [hm] using hin, hk⟩
  need := fun c h => (hi.need c h).trans (hle _)
  computing := hi.computing
  returned := hi.returned

theorem inv_call (hi : Inv P s) (g : String) (since : Int) :
    Inv P { s with calls := s.calls ++ [⟨g, since, s.invalidated g, begin? s g since⟩] } where
  held := hi.held
  cached := hi.cached
  need := fun c hc => by
    rcases mem_append.mp hc with hc | hc
    · exact hi.need c hc
    · rw [mem_singleton.mp hc]
  computing := fun c hc messages version hm => by
    rcases mem_append.mp hc with hc | hc
    · exact hi.computing c hc messages version hm
    · rw [mem_singleton.mp hc] at hm
      unfold begin? at hm
      split at hm
      · split at hm <;> cases hm
      · cases hm
  returned := fun c hc key hk => by
    rcases mem_append.mp hc with hc | hc
    · exact hi.returned c hc key hk
    · rw [mem_singleton.mp hc] at hk ⊢
      unfold begin? at hk
      split at hk
      · rename_i hit hget
        split at hk
        · rename_i hsince
          cases hk
          exact hsince ▸ hi.cached g hit hget
        · cases hk
      · cases hk

/-- A call moves on, and the cache may be given its key. -/
theorem inv_advance (hi : Inv P s) {i : Nat} {c : Call} (hc : s.calls[i]? = some c) {phase : Phase}
    {cache : JsMap String CachedKey}
    (hcached : ∀ g e, cache.get g = some e → KeySince P s g (s.invalidated g) e.since e.key)
    (hcomp : ∀ messages version, phase = .computing messages version →
      c.need ≤ version ∧ KeySince P s c.groupId version c.since (historyStateKey P messages c.since))
    (hret : ∀ key, phase = .returned (some key) → KeySince P s c.groupId c.need c.since key) :
    Inv P { s with cache := cache, calls := s.calls.set i { c with phase := phase } } where
  held := hi.held
  cached := hcached
  need := fun d hd => by
    rcases mem_or_eq_of_mem_set hd with hd | rfl
    · exact hi.need d hd
    · exact hi.need c (mem_of_getElem? hc)
  computing := fun d hd messages version hm => by
    rcases mem_or_eq_of_mem_set hd with hd | rfl
    · exact hi.computing d hd messages version hm
    · exact hcomp messages version hm
  returned := fun d hd key hk => by
    rcases mem_or_eq_of_mem_set hd with hd | rfl
    · exact hi.returned d hd key hk
    · exact hret key hk

theorem inv_step (hi : Inv P s) (e : Event) (hok : readStands s e = true) (h : step P s e = some s') : Inv P s' := by
  cases e with
  | write g content =>
    cases h
    exact inv_write hi g content
  | invalidateHistoryStateKey g =>
    cases h
    refine inv_drop hi (fun g' => ?_) (fun g' => ?_) (fun g' e he => ?_)
    · by_cases hg : g' = g
      · subst hg; simpa using le_current hi
      · simp [update_of_ne hg]
    · by_cases hg : g' = g
      · subst hg; simpa using current_lt hi
      · simpa [update_of_ne hg] using hi.held g'
    · by_cases hg : g' = g
      · simp [JsMap.get_delete, hg] at he
      · rw [JsMap.get_delete, if_neg hg] at he
        exact ⟨he, update_of_ne hg _ _⟩
  | invalidateAllHistoryStateKeys =>
    cases h
    exact inv_drop hi (fun g => le_current hi) (fun g => current_lt hi) fun g e he => by simp at he
  | call g since =>
    cases h
    exact inv_call hi g since
  | load i readable =>
    simp only [step] at h
    split at h
    · rename_i g since need hc
      cases h
      refine inv_advance hi hc hi.cached (fun messages version hm => ?_) fun key hk => ?_
      · split at hm
        · cases hm
          exact ⟨(hi.need _ (mem_of_getElem? hc)).trans (le_current hi), keySince_last (current_lt hi) since⟩
        · cases hm
      · split at hk <;> cases hk
    · cases h
  | finish i =>
    simp only [step] at h
    split at h
    · rename_i g since need messages version hc
      cases h
      obtain ⟨hneed, hread⟩ := hi.computing _ (mem_of_getElem? hc) messages version rfl
      have hstands : s.invalidated g ≤ version := by simpa [readStands, hc] using hok
      refine inv_advance hi hc (fun g' e he => ?_) (fun _ _ hm => by cases hm) fun key hk => ?_
      · rw [JsMap.get_set] at he
        split at he
        · rename_i hg
          cases he
          exact hg ▸ hread.mono hstands
        · exact hi.cached g' e he
      · cases hk
        exact hread.mono hneed
    · cases h

theorem inv_init (h : (machine P).init s) : Inv P s := by
  obtain ⟨store, rfl⟩ := h
  refine ⟨fun g => by simp, fun g e he => by simp at he, ?_, ?_, ?_⟩
  · intro c hc
    cases hc
  · intro c hc
    cases hc
  · intro c hc
    cases hc

/-- A key stored that no content since the last invalidation has is returned to the next call. -/
theorem stale_stored {i need version : Nat} {since : Int} {messages : List StoredMessage}
    (hc : s.calls[i]? = some ⟨g, since, need, .computing messages version⟩)
    (hno : ¬ KeySince P s g (s.invalidated g) since (historyStateKey P messages since))
    (h : step P s (.finish i) = some s') : ∃ t, step P s' (.call g since) = some t ∧ ¬ Coherent P t := by
  simp only [step, hc] at h
  cases h
  refine ⟨_, rfl, fun hcoh => hno ?_⟩
  exact hcoh ⟨g, since, s.invalidated g, .returned (some (historyStateKey P messages since))⟩
    (mem_append_right _ (by simp [begin?])) _ rfl

/-- Where no write and its invalidation come between a read and its `cache.set`, keys are of contents held
    since; a key of none of these, once stored, is returned. -/
theorem state_keys_coherent (h : (machine P).ReachBy (fun s e => readStands s e = true) s) :
    Coherent P s ∧
    ∀ i g since need messages version s', s.calls[i]? = some ⟨g, since, need, .computing messages version⟩ →
      (∀ content ∈ (s.contents g).drop (s.invalidated g),
        historyStateKey P messages since ≠ historyStateKey P content since) →
      (machine P).step s (.finish i) = some s' →
      ∃ t, (machine P).step s' (.call g since) = some t ∧ ¬ Coherent P t := by
  refine ⟨?_, fun i g since need messages version s' hc hno hs => stale_stored hc ?_ hs⟩
  · exact (Machine.ReachBy.invariant (I := Inv P) (fun s hs => inv_init hs)
      (fun s e s' hi hok hs => inv_step hi e hok hs) h).returned
  · rintro ⟨content, hcontent, hk⟩
    exact hno content hcontent hk

end Proofs

/-! ## A key stored after the invalidation -/

def plainRow (id : String) (timestamp : Int) : StoredMessage := ⟨text id, timestamp, [], false, false, none⟩

/-- The digest SHA-256 gives for the state of `m1`. -/
def digestOfFirst : Bytes :=
  [190, 197, 243, 62, 29, 74, 49, 103, 130, 16, 180, 97, 104, 220, 106, 144, 191, 199, 79, 70, 255, 165, 55, 29, 195,
    136, 167, 254,
    154, 108, 244, 158]

def firstPlatform : Platform := ⟨id, fun _ => digestOfFirst⟩

def emptyStore : State := ⟨fun _ => [[]], fun _ => 0, .empty, []⟩

theorem emptyStore_init : (machine firstPlatform).init emptyStore := ⟨fun _ => [], rfl⟩

/-- A call reads the empty store and finishes; a message comes in; the next call reads it. -/
def freshRun : List Event :=
  [.call "g" 0, .load 0 true, .finish 0, .write "g" [plainRow "m1" 5], .invalidateHistoryStateKey "g",
    .call "g" 0, .load 1 true,
    .finish 1]

/-- The same with the message written and invalidated before the first call finishes. -/
def staleRun : List Event :=
  [.call "g" 0, .load 0 true, .write "g" [plainRow "m1" 5], .invalidateHistoryStateKey "g", .finish 0, .call "g" 0]

def keysOf (s : State) : List (Option JsString) :=
  s.calls.map fun c => match c.phase with | .returned key => key | _ => none

/-- The key of the empty store, then the key of the message. -/
theorem fresh_keys_returned :
    ∃ s, (machine firstPlatform).ReachBy (fun s e => readStands s e = true) s ∧ Coherent firstPlatform s ∧
      keysOf s = [some (text "0000000000000000"), some (text "bec5f33e1d4a3167")] := by
  have hk : ((machine firstPlatform).runBy readStands emptyStore freshRun).map keysOf =
      some [some (text "0000000000000000"), some (text "bec5f33e1d4a3167")] := by decide
  obtain ⟨s, hs, hk⟩ := map_eq_some_iff.mp hk
  have hr := Machine.reachBy_of_run freshRun emptyStore_init hs
  exact ⟨s, hr, (state_keys_coherent hr).1, hk⟩

/-- The second call began after the invalidation and is given the key of the empty store. -/
theorem stale_key_returned :
    ∃ s, (machine firstPlatform).Reach s ∧ keysOf s = [some (text "0000000000000000"), some (text "0000000000000000")] ∧
      (s.contents "g").drop 1 = [[plainRow "m1" 5]] ∧
      historyStateKey firstPlatform [plainRow "m1" 5] 0 = text "bec5f33e1d4a3167" ∧ ¬ Coherent firstPlatform s := by
  have hv : ((machine firstPlatform).run emptyStore staleRun).map (fun s => (s.calls, s.contents "g")) =
      some ([⟨"g", 0, 0, .returned (some (text "0000000000000000"))⟩,
        ⟨"g", 0, 1, .returned (some (text "0000000000000000"))⟩],
        [[], [plainRow "m1" 5]]) := by decide
  obtain ⟨s, hs, hv⟩ := map_eq_some_iff.mp hv
  obtain ⟨hcalls, hcontents⟩ := Prod.mk.inj hv
  have hkey : historyStateKey firstPlatform [plainRow "m1" 5] 0 = text "bec5f33e1d4a3167" := by decide
  refine ⟨s, Machine.reach_of_run staleRun emptyStore_init hs, ?_, ?_, hkey, fun hcoh => ?_⟩
  · rw [keysOf, hcalls]
    rfl
  · rw [hcontents]
    rfl
  · obtain ⟨content, hc, hk⟩ :=
      hcoh ⟨"g", 0, 1, .returned (some (text "0000000000000000"))⟩ (by rw [hcalls]; simp) _ rfl
    rw [hcontents] at hc
    obtain rfl := mem_singleton.mp hc
    exact absurd hk (by decide)

end Canari.Chat.HistoryStateKey
