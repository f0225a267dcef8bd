/-
  Canari.Gateway.Sessions — which sessions a device has, kept in the shared store
  (`apps/chat-gateway/src/addressing.rs`).

  One device has four keys: its presence, its sessions hash, the join-ask twin of that hash, and the hash
  of the sessions that left. Two scripts write them, each atomic; every field has its own expiry, and a
  read does not see what has expired. `World` adds the clock and, for the proofs, who left when and who
  was recorded. A session sends no refresh once it left, and a refresh arrives less than one ttl after
  it was sent: those are the only guards of `step`.

  `sessions_stay_consistent`: what holds of the four keys in every reachable state.
-/

import Mathlib.Data.List.AList
import Canari.Lib.Machine

namespace Canari.Gateway.Sessions

open Canari.Lib List

def ADDRESSED_HISTORY_CAPABILITY : String := "addressed-history-1"

def JOIN_ASK_CAPABILITY : String := "join-ask-1"

def UNDECLARED : String := "-"

def PRESENCE_SESSIONS : String := "sessions-1"

def PRESENCE_OLDER_GATEWAY : String := "true"

structure SessionCaps where
  addressedHistory : Bool
  joinAsk : Bool
deriving DecidableEq

def SessionCaps.holds (caps : SessionCaps) (capability : String) : Bool :=
  if capability = ADDRESSED_HISTORY_CAPABILITY then caps.addressedHistory
  else if capability = JOIN_ASK_CAPABILITY then caps.joinAsk
  else false

def SessionCaps.valueFor (caps : SessionCaps) (capability : String) : String :=
  if caps.holds capability then capability else UNDECLARED

/-! ## The store -/

structure Entry where
  value : String
  expiry : Nat
deriving DecidableEq

abbrev Hash := AList fun _ : String => Entry

structure Store where
  presence : Option Entry
  sessions : Hash
  left : Hash
  joinAsk : Hash

def live (now : Nat) (e : Option Entry) : Option Entry := e.filter fun e => now < e.expiry

def hget (now : Nat) (hash : Hash) (field : String) : Option Entry := live now (hash.lookup field)

def hexists (now : Nat) (hash : Hash) (field : String) : Bool := (hget now hash field).isSome

def hkeys (now : Nat) (hash : Hash) : List String := hash.keys.filter (hexists now hash)

def older (now : Nat) (s : Store) : Prop := (live now s.presence).map Entry.value = some PRESENCE_OLDER_GATEWAY

instance (now : Nat) (s : Store) : Decidable (older now s) := inferInstanceAs (Decidable (_ = _))

/-- `WRITE_SESSION`; the ttl is in seconds, the clock in milliseconds. -/
def writeScript (now ttl : Nat) (field history joinAsk : String) (s : Store) : Except String (Store × Nat) :=
  if field = "" ∨ ttl < 1 then .error "ERR addressing: a session needs a name and a whole positive ttl"
  else if history ≠ ADDRESSED_HISTORY_CAPABILITY ∧ history ≠ UNDECLARED then
    .error "ERR addressing: a session declares the capability or nothing"
  else if joinAsk ≠ JOIN_ASK_CAPABILITY ∧ joinAsk ≠ UNDECLARED then
    .error "ERR addressing: a session declares the capability or nothing"
  else if hexists now s.left field then .ok (s, 0)
  else
    let expiry := now + ttl * 1000
    .ok ({ s with
      sessions := s.sessions.insert field ⟨history, expiry⟩
      joinAsk := s.joinAsk.insert field ⟨joinAsk, expiry⟩
      presence := if older now s then s.presence else some ⟨PRESENCE_SESSIONS, expiry⟩ }, 1)

def writeSession (now ttl : Nat) (field : String) (declared : SessionCaps) (s : Store) : Except String (Store × Bool) :=
  (writeScript now ttl field (declared.valueFor ADDRESSED_HISTORY_CAPABILITY)
    (declared.valueFor JOIN_ASK_CAPABILITY) s).map
    fun r => (r.1, r.2 == 1)

def retire (now ttl : Nat) (field : String) (s : Store) : Store :=
  if field = "" then s
  else { s with left := s.left.insert field ⟨"1", now + ttl * 1000⟩, sessions := s.sessions.erase field, joinAsk :=
    s.joinAsk.erase field }

/-- `LEAVE_SESSION`. -/
def leaveScript (now ttl : Nat) (field : String) (s : Store) : Except String Store :=
  if ttl < 1 then .error "ERR addressing: a whole positive ttl is required"
  else
    let s := retire now ttl field s
    .ok (if (hkeys now s.sessions).length = 0 ∧ ¬ older now s then { s with presence := none } else s)

/-- `none` retires nobody and only asks for the presence again. -/
def leaveSession (now ttl : Nat) (field : Option String)
    (s : Store) : Except String Store := leaveScript now ttl (field.getD "") s

/-! ## Runs -/

structure World where
  now : Nat
  store : Store
  /-- Which session left, and when. -/
  leaves : List (String × Nat)
  /-- The sessions that were recorded. -/
  recorded : List String

inductive Event where
  | wait (ms : Nat)
  | write (field : String) (declared : SessionCaps) (sent : Nat)
  | leave (field : Option String)

/-- A refresh on its way: sent before its session left, less than one ttl ago. -/
def inFlight (ttl : Nat) (w : World) (field : String) (sent : Nat) : Prop :=
  sent ≤ w.now ∧ w.now < sent + ttl * 1000 ∧ ∀ l ∈ w.leaves, l.1 = field → sent ≤ l.2

instance (ttl : Nat) (w : World) (field : String) (sent : Nat) : Decidable (inFlight ttl w field sent) :=
  inferInstanceAs (Decidable (_ ∧ _ ∧ _))

def step (ttl : Nat) (w : World) : Event → Option World
  | .wait ms => some { w with now := w.now + ms }
  | .write field declared sent =>
    if inFlight ttl w field sent then
      match writeSession w.now ttl field declared w.store with
      | .error _ => some w
      | .ok (store, wrote) => some { w with store, recorded := if wrote then field :: w.recorded else w.recorded }
    else none
  | .leave field =>
    match leaveSession w.now ttl field w.store with
    | .error _ => some w
    | .ok store => some { w with store, leaves := if field.getD "" = "" then w.leaves else (field.getD "", w.now) :: w.leaves }

def start : World := ⟨0, ⟨none, ∅, ∅, ∅⟩, [], []⟩

def machine (ttl : Nat) : Machine World Event where
  init w := w = start
  step := step ttl

variable {now ttl : Nat} {s s' : Store} {w w' : World} {f field : String} {e : Entry}

/-! ## The scripts -/

theorem live_eq_some_iff {o : Option Entry} : live now o = some e ↔ o = some e ∧ now < e.expiry := by
  rw [live, Option.filter_eq_some_iff, decide_eq_true_iff]

theorem hkeys_eq_nil_iff {hash : Hash} : (hkeys now hash).length = 0 ↔ ∀ f, hget now hash f = none := by
  rw [length_eq_zero_iff, hkeys, filter_eq_nil_iff]
  refine ⟨fun h f => ?_, fun h f _ => ?_⟩
  · by_cases hf : f ∈ hash.keys
    · simpa [hexists] using h f hf
    · rw [hget, AList.lookup_eq_none.mpr hf]
      rfl
  · simp [hexists, h f]

theorem writeSession_ok {declared : SessionCaps} {wrote : Bool}
    (h : writeSession now ttl field declared s = .ok (s', wrote)) :
    (wrote = false ∧ s' = s ∧ hexists now s.left field = true) ∨
    (wrote = true ∧ hexists now s.left field = false ∧ ∃ history joinAsk, s' = { s with
      sessions := s.sessions.insert field ⟨history, now + ttl * 1000⟩
      joinAsk := s.joinAsk.insert field ⟨joinAsk, now + ttl * 1000⟩
      presence := if older now s then s.presence else some ⟨PRESENCE_SESSIONS, now + ttl * 1000⟩ }) := by
  unfold writeSession writeScript at h
  split at h
  · cases h
  split at h
  · cases h
  split at h
  · cases h
  split at h
  · next hleft =>
    cases h
    exact .inl ⟨rfl, rfl, hleft⟩
  · next hleft =>
    cases h
    exact .inr ⟨rfl, Bool.eq_false_iff.mpr hleft, _, _, rfl⟩

theorem leaveScript_ok (h : leaveScript now ttl field s = .ok s') :
    s' = { retire now ttl field s with presence := s'.presence } ∧
    (s'.presence = s.presence ∧ ((∀ f, hget now s'.sessions f = none) → older now s) ∨
      s'.presence = none ∧ ∀ f, hget now s'.sessions f = none) := by
  have hpresence : (retire now ttl field s).presence = s.presence := by
    unfold retire
    split <;> rfl
  unfold leaveScript at h
  split at h
  · cases h
  dsimp only at h
  split at h
  · next hgone =>
    cases h
    exact ⟨rfl, .inr ⟨rfl, (hkeys_eq_nil_iff).mp hgone.1⟩⟩
  · next hstays =>
    cases h
    refine ⟨rfl, .inl ⟨hpresence, fun hnone => ?_⟩⟩
    rw [older, ← hpresence]
    exact not_not.mp fun ho => hstays ⟨(hkeys_eq_nil_iff).mpr hnone, ho⟩

theorem lookup_retire :
    ((retire now ttl field s).sessions.lookup f = if field ≠ "" ∧ f = field then none else s.sessions.lookup f) ∧
    ((retire now ttl field s).joinAsk.lookup f = if field ≠ "" ∧ f = field then none else s.joinAsk.lookup f) ∧
    (retire now ttl field s).left.lookup f = if field ≠ "" ∧
      f = field then some ⟨"1", now + ttl * 1000⟩ else s.left.lookup f := by
  unfold retire
  by_cases hfield : field = ""
  · simp [hfield]
  · by_cases hf : f = field
    · subst hf
      simp [hfield]
    · simp [hfield, hf, AList.lookup_insert_ne]

/-! ## The invariant -/

structure Consistent (ttl : Nat) (w : World) : Prop where
  /-- A session that left is in neither hash, and is remembered for one ttl at least. -/
  gone : ∀ l ∈ w.leaves, l.2 ≤ w.now ∧ w.store.sessions.lookup l.1 = none ∧ w.store.joinAsk.lookup l.1 = none ∧
    ∃ e, w.store.left.lookup l.1 = some e ∧ l.2 + ttl * 1000 ≤ e.expiry
  twin : ∀ f, (w.store.sessions.lookup f).map Entry.expiry = (w.store.joinAsk.lookup f).map Entry.expiry
  field : ∀ f e, w.store.sessions.lookup f = some e → f ∈ w.recorded ∧ e.expiry ≤ w.now + ttl * 1000
  /-- A live field has a presence that outlives it. -/
  covered : ∀ f e, hget w.now w.store.sessions f = some e → ∃ p, w.store.presence = some p ∧ e.expiry ≤ p.expiry
  marker : ∀ p, w.store.presence = some p → p.value = PRESENCE_SESSIONS
  last : (∀ f ∈ w.recorded, ∃ l ∈ w.leaves, l.1 = f) → w.store.presence = none

theorem Consistent.not_older (h : Consistent ttl w) : ¬ older w.now w.store := by
  intro ho
  obtain ⟨p, hp, hvalue⟩ := Option.map_eq_some_iff.mp ho
  have hmarker := h.marker p ((live_eq_some_iff).mp hp).1
  rw [hvalue] at hmarker
  revert hmarker
  decide

theorem Consistent.hexists_left {sent : Nat} (h : Consistent ttl w) (hsent : inFlight ttl w field sent)
    {l : String × Nat} (hl : l ∈ w.leaves)
    (hf : l.1 = field) : hexists w.now w.store.left field = true := by
  obtain ⟨-, -, -, e, he, hexpiry⟩ := h.gone l hl
  have hbefore := hsent.2.2 l hl hf
  have hlate := hsent.2.1
  rw [hexists, hget, ← hf, (live_eq_some_iff).mpr ⟨he, by omega⟩]
  rfl

theorem consistent_wait (h : Consistent ttl w) (ms : Nat) : Consistent ttl { w with now := w.now + ms } where
  gone l hl := ⟨Nat.le_add_right_of_le (h.gone l hl).1, (h.gone l hl).2⟩
  twin := h.twin
  field f e he := ⟨(h.field f e he).1, by have := (h.field f e he).2; dsimp only; omega⟩
  covered f e he := by
    obtain ⟨he, hlive⟩ := (live_eq_some_iff).mp he
    exact h.covered f e ((live_eq_some_iff).mpr ⟨he, Nat.lt_of_le_of_lt (Nat.le_add_right _ _) hlive⟩)
  marker := h.marker
  last := h.last

theorem consistent_write {sent : Nat} {declared : SessionCaps} {wrote : Bool} (h : Consistent ttl w)
    (hsent : inFlight ttl w field sent)
    (hok : writeSession w.now ttl field declared w.store = .ok (s, wrote)) :
    Consistent ttl { w with store := s, recorded := if wrote then field :: w.recorded else w.recorded } := by
  rcases writeSession_ok hok with ⟨rfl, rfl, -⟩ | ⟨rfl, hleft, history, joinAsk, rfl⟩
  · exact h
  have hstays : ∀ l ∈ w.leaves, l.1 ≠ field := by
    intro l hl hf
    rw [h.hexists_left hsent hl hf] at hleft
    cases hleft
  rw [if_neg h.not_older]
  refine ⟨fun l hl => ?_, fun f => ?_, fun f e he => ?_, fun f e he => ?_, fun p hp => ?_, fun hall => ?_⟩
  · obtain ⟨hpast, hsessions, hjoin, hmemory⟩ := h.gone l hl
    exact ⟨hpast, (AList.lookup_insert_ne (hstays l hl)).trans hsessions,
      (AList.lookup_insert_ne (hstays l hl)).trans hjoin, hmemory⟩
  · by_cases hf : f = field
    · subst hf
      rw [AList.lookup_insert, AList.lookup_insert]
      rfl
    · rw [AList.lookup_insert_ne hf, AList.lookup_insert_ne hf]
      exact h.twin f
  · by_cases hf : f = field
    · subst hf
      rw [AList.lookup_insert] at he
      cases he
      exact ⟨mem_cons_self, Nat.le_refl _⟩
    · rw [AList.lookup_insert_ne hf] at he
      exact ⟨mem_cons_of_mem _ (h.field f e he).1, (h.field f e he).2⟩
  · refine ⟨_, rfl, ?_⟩
    obtain ⟨he, -⟩ := (live_eq_some_iff).mp he
    by_cases hf : f = field
    · subst hf
      rw [AList.lookup_insert] at he
      cases he
      exact Nat.le_refl _
    · rw [AList.lookup_insert_ne hf] at he
      exact (h.field f e he).2
  · cases hp
    rfl
  · obtain ⟨l, hl, hf⟩ := hall field mem_cons_self
    exact absurd hf (hstays l hl)

theorem consistent_leave (h : Consistent ttl w) (hok : leaveScript w.now ttl field w.store = .ok s) :
    Consistent ttl { w with store := s, leaves := if field = "" then w.leaves else (field, w.now) :: w.leaves } := by
  obtain ⟨hs, hpresence⟩ := leaveScript_ok hok
  have hlookup : ∀ f, (s.sessions.lookup f = if field ≠ "" ∧ f = field then none else w.store.sessions.lookup f) ∧
      (s.joinAsk.lookup f = if field ≠ "" ∧ f = field then none else w.store.joinAsk.lookup f) ∧
      s.left.lookup f = if field ≠ "" ∧ f = field then some ⟨"1", w.now + ttl * 1000⟩ else w.store.left.lookup f := by
    intro f
    rw [hs]
    exact lookup_retire
  have hold : ∀ {f e}, s.sessions.lookup f = some e → w.store.sessions.lookup f = some e := by
    intro f e he
    rw [(hlookup f).1] at he
    split at he
    · cases he
    · exact he
  have hgone : ∀ l ∈ if field = "" then w.leaves else (field, w.now) :: w.leaves,
      l.2 ≤ w.now ∧ s.sessions.lookup l.1 = none ∧ s.joinAsk.lookup l.1 = none ∧ ∃ e, s.left.lookup l.1 = some e ∧
        l.2 + ttl * 1000 ≤ e.expiry := by
    intro l hl
    have hcases : l ∈ w.leaves ∨ field ≠ "" ∧ l = (field, w.now) := by
      split at hl
      · exact .inl hl
      · next hne => exact (mem_cons.mp hl).elim (fun e => .inr ⟨hne, e⟩) .inl
    have hpast : l.2 ≤ w.now := hcases.elim (fun hl => (h.gone l hl).1) fun hl => by rw [hl.2]
    rw [(hlookup l.1).1, (hlookup l.1).2.1, (hlookup l.1).2.2]
    by_cases hnow : field ≠ "" ∧ l.1 = field
    · rw [if_pos hnow, if_pos hnow, if_pos hnow]
      exact ⟨hpast, rfl, rfl, _, rfl, Nat.add_le_add_right hpast _⟩
    · rw [if_neg hnow, if_neg hnow, if_neg hnow]
      exact h.gone l (hcases.resolve_right fun hl => hnow ⟨hl.1, by rw [hl.2]⟩)
  refine ⟨hgone, fun f => ?_, fun f e he => h.field f e (hold he), fun f e he => ?_, fun p hp => ?_, fun hall => ?_⟩
  · rw [(hlookup f).1, (hlookup f).2.1]
    split
    · rfl
    · exact h.twin f
  · rcases hpresence with ⟨hkept, -⟩ | ⟨-, hnone⟩
    · obtain ⟨he, hlive⟩ := (live_eq_some_iff).mp he
      rw [hkept]
      exact h.covered f e ((live_eq_some_iff).mpr ⟨hold he, hlive⟩)
    · rw [hnone f] at he
      cases he
  · rcases hpresence with ⟨hkept, -⟩ | ⟨hdel, -⟩
    · exact h.marker p (hkept ▸ hp)
    · rw [hdel] at hp
      cases hp
  · -- Every recorded session left, so no field is there and the presence was deleted.
    rcases hpresence with ⟨-, hstays⟩ | ⟨hdel, -⟩
    · refine absurd (hstays fun f => ?_) h.not_older
      cases hf : s.sessions.lookup f with
      | none => rw [hget, hf]; rfl
      | some e =>
        obtain ⟨l, hl, rfl⟩ := hall f (h.field f e (hold hf)).1
        rw [(hgone l hl).2.1] at hf
        cases hf
    · exact hdel

theorem consistent_step {ev : Event} (h : Consistent ttl w) (hstep : step ttl w ev = some w') : Consistent ttl w' := by
  cases ev with
  | wait ms =>
    cases hstep
    exact consistent_wait h ms
  | write field declared sent =>
    rw [step] at hstep
    split at hstep
    · next hsent =>
      split at hstep
      · cases hstep
        exact h
      · next hok =>
        cases hstep
        exact consistent_write h hsent hok
    · cases hstep
  | leave field =>
    rw [step] at hstep
    split at hstep
    · cases hstep
      exact h
    · next hok =>
      cases hstep
      exact consistent_leave h hok

theorem consistent_of_reach (h : (machine ttl).Reach w) : Consistent ttl w := by
  refine h.invariant (fun w hw => ?_) fun _ _ _ => consistent_step
  subst hw
  exact ⟨fun _ hl => absurd hl not_mem_nil, fun _ => rfl, fun _ _ => nofun, fun _ _ => nofun,
    fun _ => nofun, fun _ => rfl⟩

/-- Whatever the interleaving: a session that left is in neither hash; the two hashes hold the same live fields with the
    same expiry; a live field has a live presence that expires no earlier; the presence is gone once every recorded
    session left, and after a leave that leaves no live field. -/
theorem sessions_stay_consistent (h : (machine ttl).Reach w) :
    (∀ l ∈ w.leaves, w.store.sessions.lookup l.1 = none ∧ w.store.joinAsk.lookup l.1 = none) ∧
    (∀ f, (hget w.now w.store.sessions f).map Entry.expiry = (hget w.now w.store.joinAsk f).map Entry.expiry) ∧
    (∀ f e, hget w.now w.store.sessions f = some e → ∃ p, live w.now w.store.presence = some p ∧ e.expiry ≤ p.expiry) ∧
    ((∀ f ∈ w.recorded, ∃ l ∈ w.leaves, l.1 = f) → w.store.presence = none) ∧
    ∀ field s, leaveSession w.now ttl field w.store = .ok s → (∀ f, hget w.now s.sessions f = none) →
      s.presence = none := by
  have hw := consistent_of_reach h
  refine ⟨fun l hl => ⟨(hw.gone l hl).2.1, (hw.gone l hl).2.2.1⟩, fun f => ?_, fun f e he => ?_, hw.last,
    fun field s hok hnone => ?_⟩
  · have htwin := hw.twin f
    unfold hget
    cases hs : w.store.sessions.lookup f <;> cases hj : w.store.joinAsk.lookup f <;> simp_all [live, Option.filter]
  · obtain ⟨p, hp, hle⟩ := hw.covered f e he
    exact ⟨p, (live_eq_some_iff).mpr ⟨hp, Nat.lt_of_lt_of_le ((live_eq_some_iff).mp he).2 hle⟩, hle⟩
  · rcases (leaveScript_ok hok).2 with ⟨-, hstays⟩ | ⟨hdel, -⟩
    · exact absurd (hstays hnone) hw.not_older
    · exact hdel

def twoTabs : List Event :=
  [.write "p:1" ⟨true, true⟩ 0, .write "q:1" ⟨false, false⟩ 0, .wait 1000, .leave (some "p:1"), .wait 80000,
    .write "p:1" ⟨true, true⟩ 900, .leave (some "q:1")]

/-- After the first tab left the other is live, under a presence that lasts as long; after the second there is none. -/
theorem two_tabs_leave :
    (∃ w p, (machine 90).run start (twoTabs.take 4) = some w ∧ hget w.now w.store.sessions "p:1" = none ∧
      (hget w.now w.store.sessions "q:1").map Entry.expiry = some 90000 ∧ live w.now w.store.presence = some p ∧
      90000 ≤ p.expiry) ∧
    ∃ w, (machine 90).run start twoTabs = some w ∧ w.recorded = ["q:1", "p:1"] ∧ w.store.presence = none := by
  constructor
  · have hrun : (((machine 90).run start (twoTabs.take 4)).map fun w => (hget w.now w.store.sessions "p:1",
      (hget w.now w.store.sessions "q:1").map Entry.expiry)) = some (none, some 90000) := by
      decide
    obtain ⟨w, hw, hfields⟩ := Option.map_eq_some_iff.mp hrun
    obtain ⟨hgone, hlive⟩ := Prod.mk.inj hfields
    obtain ⟨e, he, hexpiry⟩ := Option.map_eq_some_iff.mp hlive
    obtain ⟨p, hp, hle⟩ := (sessions_stay_consistent (Machine.reach_of_run _ rfl hw)).2.2.1 _ _ he
    exact ⟨w, p, hw, hgone, hlive, hp, hexpiry ▸ hle⟩
  · have hrun : (((machine 90).run start twoTabs).map fun w => (w.recorded, w.leaves)) = some (["q:1", "p:1"],
      [("q:1", 81000), ("p:1", 1000)]) := by
      decide
    obtain ⟨w, hw, hlog⟩ := Option.map_eq_some_iff.mp hrun
    obtain ⟨hrecorded, hleaves⟩ := Prod.mk.inj hlog
    refine ⟨w, hw, hrecorded, (sessions_stay_consistent (Machine.reach_of_run twoTabs rfl hw)).2.2.2.1 ?_⟩
    rw [hrecorded, hleaves]
    decide

end Canari.Gateway.Sessions
