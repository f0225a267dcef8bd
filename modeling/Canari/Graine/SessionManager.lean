/-
  Canari.Graine.SessionManager — the outbound half of Graine: which session this device
  seals its next channel message under, and at which index
  (`frontend/src/lib/utils/graine/sessionManager.ts`).

  `reserveOutboundSlot` lower-cases the sender and chains the body on the last call of
  the same channel and sender (`serialize`, here `Lib.Chain`). The body reads the clock,
  then awaits the stored sessions, the key group's run, and, by the verdict, the
  endorsement and the distribution of a new session or the re-distribution of the one
  in hand, and last the save. Each await is a step of its own and may fail instead
  (`failed`); a save that fails writes nothing. Steps of different calls interleave in
  any order. The clock, the run and the outcome of every await are the environment's.

  A page reload (`reload`) loses the chains and every call in flight and keeps the store.

  What the machine remembers beside the code's own state: every save that landed
  (`saved`), every frame that went out (`sent`, with whether it carried the seed of a
  session already in hand), every session id drawn with the run reading it was drawn
  under (`mints`), and every slot handed out with the reading it was reserved under
  (`slots`).

  Proved: `no_seal_key_twice`. A session handed over again by a call whose save then
  fails stays stored as never re-distributed, and keeps the wider cap
  (`a_lost_save_keeps_the_wider_cap`).
-/

import Mathlib.Data.List.Sort
import Canari.Lib.Chain

namespace Canari.Graine.SessionManager

open Lib List Option

/-! ## The stored session -/

structure GraineRunReading where
  runId : String
  epoch : Nat
  epochFingerprint : String
  deriving DecidableEq

structure GraineRotationAnchor where
  runId : String
  epochFingerprint : String
  redistributed : Bool

structure GraineDistributionFrame where
  groupId : String
  protoB64 : String

structure StoredGraineV2 where
  minterDeviceId : String
  signingPublicKeyB64 : String
  endorsementB64 : String
  signingSecretKeyB64 : Option String

structure StoredGraineSession where
  workspaceId : String
  channelId : String
  sessionId : String
  senderId : String
  seedB64 : String
  firstIndex : Nat
  createdAt : Int
  /-- Absent on a session this device did not mint. -/
  sentCount : Option Nat
  distributionEpoch : Option Nat
  rotationAnchor : Option GraineRotationAnchor
  distributionFrame : Option GraineDistributionFrame
  v2 : Option StoredGraineV2

structure GraineOutboundScope where
  workspaceId : String
  channelId : String
  senderId : String

structure GraineOutboundSlot where
  session : StoredGraineSession
  index : Nat
  minted : Bool
  redistributed : Bool

/-! ## The verdict -/

def GRAINE_ROTATE_AFTER_MESSAGES : Nat := 100
def GRAINE_ROTATE_AFTER_MS : Int := 7 * 24 * 60 * 60 * 1000
def GRAINE_REUSED_ROTATE_AFTER_MESSAGES : Nat := 50
def GRAINE_REUSED_ROTATE_AFTER_MS : Int := 24 * 60 * 60 * 1000

inductive GraineOutboundVerdict where
  | reuse
  | redistribute
  | rotate

def capMessages (redistributed : Bool) : Nat :=
  if redistributed then GRAINE_REUSED_ROTATE_AFTER_MESSAGES else GRAINE_ROTATE_AFTER_MESSAGES

def capMs (redistributed : Bool) : Int :=
  if redistributed then GRAINE_REUSED_ROTATE_AFTER_MS else GRAINE_ROTATE_AFTER_MS

/-- `!session.v2?.signingSecretKeyB64`: no v2 half, no secret in it, or an empty one. -/
def lacksSecret (session : StoredGraineSession) : Bool :=
  match session.v2.bind (·.signingSecretKeyB64) with
  | some key => key == ""
  | none => true

def graineOutboundVerdict (session : Option StoredGraineSession) (run : GraineRunReading)
    (now : Int) : GraineOutboundVerdict :=
  match session with
  | none => .rotate
  | some session =>
    match session.rotationAnchor with
    | none => .rotate
    | some anchor =>
      if session.distributionFrame.isNone || lacksSecret session
          || session.sentCount.getD 0 ≥ capMessages anchor.redistributed
          || now - session.createdAt ≥ capMs anchor.redistributed then .rotate
      else if anchor.epochFingerprint = run.epochFingerprint then .reuse
      else if anchor.runId ≠ run.runId then .rotate
      else if session.sentCount.getD 0 ≥ GRAINE_REUSED_ROTATE_AFTER_MESSAGES
          || now - session.createdAt ≥ GRAINE_REUSED_ROTATE_AFTER_MS then .rotate
      else .redistribute

/-! ## The store -/

/-- What the platform decides: the case mapping of a user id and the order of two session ids. -/
structure Platform where
  toLowerCase : String → String
  localeCompare : String → String → Int

variable (P : Platform)

def byNewestSession (a b : StoredGraineSession) : Bool :=
  b.createdAt < a.createdAt || (a.createdAt == b.createdAt && P.localeCompare a.sessionId b.sessionId ≤ 0)

def getGraineSessions (store : List StoredGraineSession) (channelId : String) (unreadable : List String) :
    List StoredGraineSession :=
  (store.filter fun x => x.channelId == channelId && !unreadable.contains x.sessionId).insertionSort
    fun a b => byNewestSession P a b = true

def saveGraineSession (store : List StoredGraineSession) (x : StoredGraineSession) : List StoredGraineSession :=
  store.filter (·.sessionId ≠ x.sessionId) ++ [x]

/-! ## Reserving a slot -/

/-- Where a call's body stands; `run` is the reading its verdict was given with. -/
inductive Phase where
  | queued
  | loading (now : Int)
  | judging (now : Int) (current : Option StoredGraineSession)
  | endorsing (draft : StoredGraineSession) (run : GraineRunReading)
  | distributing (minted : StoredGraineSession) (run : GraineRunReading)
  | redistributing (current : StoredGraineSession) (anchor : GraineRotationAnchor) (run : GraineRunReading)
  | saving (slot : GraineOutboundSlot) (run : GraineRunReading)
  | written (slot : GraineOutboundSlot) (run : GraineRunReading)
  | over

structure Call where
  scope : GraineOutboundScope
  phase : Phase

structure St where
  chain : Chain.St String
  calls : Nat → Option Call
  store : List StoredGraineSession
  saved : List StoredGraineSession
  sent : List (String × Bool)
  mints : List (String × GraineRunReading)
  slots : List (GraineOutboundSlot × GraineRunReading)

inductive Ev where
  | call (scope : GraineOutboundScope) (distributionEpoch : Int)
  | start (i : Nat) (now : Int)
  | loaded (i : Nat) (unreadable : List String)
  | ran (i : Nat) (run : GraineRunReading) (sessionId seedB64 : String)
  | endorsed (i : Nat) (v2 : StoredGraineV2)
  | distributed (i : Nat) (frame : GraineDistributionFrame)
  | written (i : Nat)
  | returned (i : Nat)
  | failed (i : Nat)
  | cleaned (i : Nat)
  | reload

def chainKey (scope : GraineOutboundScope) : String := scope.channelId ++ "|" ++ scope.senderId

def setCall (s : St) (i : Nat) (scope : GraineOutboundScope) (phase : Phase) : St :=
  { s with calls := Function.update s.calls i (some ⟨scope, phase⟩) }

def currentSession (s : St) (scope : GraineOutboundScope) (unreadable : List String) :
    Option StoredGraineSession :=
  (getGraineSessions P s.store scope.channelId unreadable).find? fun x =>
    x.senderId == scope.senderId && x.sentCount.isSome

def draftOf (scope : GraineOutboundScope) (run : GraineRunReading) (now : Int) (sessionId seedB64 : String) :
    StoredGraineSession where
  workspaceId := scope.workspaceId
  channelId := scope.channelId
  senderId := scope.senderId
  sessionId := sessionId
  seedB64 := seedB64
  firstIndex := 0
  createdAt := now
  sentCount := some 0
  distributionEpoch := some run.epoch
  rotationAnchor := some ⟨run.runId, run.epochFingerprint, false⟩
  distributionFrame := none
  v2 := none

def reusedSlot (current : StoredGraineSession) : GraineOutboundSlot :=
  ⟨{ current with sentCount := some (current.sentCount.getD 0 + 1) },
    current.firstIndex + current.sentCount.getD 0, false, false⟩

def redistributedSlot (current : StoredGraineSession) (anchor : GraineRotationAnchor) (run : GraineRunReading)
    (frame : GraineDistributionFrame) : GraineOutboundSlot :=
  ⟨{ current with
      sentCount := some (current.sentCount.getD 0 + 1)
      distributionEpoch := some run.epoch
      distributionFrame := some frame
      rotationAnchor := some { anchor with epochFingerprint := run.epochFingerprint, redistributed := true } },
    current.firstIndex + current.sentCount.getD 0, false, true⟩

def mintedSlot (minted : StoredGraineSession) (frame : GraineDistributionFrame) : GraineOutboundSlot :=
  ⟨{ minted with sentCount := some 1, distributionFrame := some frame }, 0, true, false⟩

def freshId (s : St) (sessionId : String) : Bool :=
  !(s.mints.any (·.1 == sessionId)) && !(s.store.any (·.sessionId == sessionId))

def judge (s : St) (i : Nat) (scope : GraineOutboundScope) (now : Int) (current : Option StoredGraineSession)
    (run : GraineRunReading) (sessionId seedB64 : String) : Option St :=
  let mint : Option St :=
    if freshId s sessionId then
      some { setCall s i scope (.endorsing (draftOf scope run now sessionId seedB64) run) with
        mints := s.mints ++ [(sessionId, run)] }
    else none
  match graineOutboundVerdict current run now, current with
  | .reuse, some current => some (setCall s i scope (.saving (reusedSlot current) run))
  | .redistribute, some current =>
    match current.rotationAnchor with
    | some anchor => some (setCall s i scope (.redistributing current anchor run))
    | none => mint
  | _, _ => mint

def step (s : St) : Ev → Option St
  | .call scope distributionEpoch =>
    -- refused before anything is chained
    if distributionEpoch < 0 then some s
    else
      let scope := { scope with senderId := P.toLowerCase scope.senderId }
      some { setCall s s.chain.next scope .queued with chain := Chain.push s.chain (chainKey scope) }
  | .start i now =>
    match s.calls i with
    | some ⟨scope, .queued⟩ => (Chain.start s.chain i).map fun c => { setCall s i scope (.loading now) with chain := c }
    | _ => none
  | .loaded i unreadable =>
    match s.calls i with
    | some ⟨scope, .loading now⟩ => some (setCall s i scope (.judging now (currentSession P s scope unreadable)))
    | _ => none
  | .ran i run sessionId seedB64 =>
    match s.calls i with
    | some ⟨scope, .judging now current⟩ => judge s i scope now current run sessionId seedB64
    | _ => none
  | .endorsed i v2 =>
    match s.calls i with
    | some ⟨scope, .endorsing draft run⟩ => some (setCall s i scope (.distributing { draft with v2 := some v2 } run))
    | _ => none
  | .distributed i frame =>
    match s.calls i with
    | some ⟨scope, .distributing minted run⟩ =>
      some { setCall s i scope (.saving (mintedSlot minted frame) run) with sent :=
        s.sent ++ [(minted.sessionId, false)] }
    | some ⟨scope, .redistributing current anchor run⟩ =>
      some { setCall s i scope (.saving (redistributedSlot current anchor run frame) run) with
        sent := s.sent ++ [(current.sessionId, true)] }
    | _ => none
  | .written i =>
    match s.calls i with
    | some ⟨scope, .saving slot run⟩ =>
      some { setCall s i scope (.written slot run) with
        store := saveGraineSession s.store slot.session, saved := s.saved ++ [slot.session] }
    | _ => none
  | .returned i =>
    match s.calls i with
    | some ⟨scope, .written slot run⟩ =>
      (Chain.settle s.chain i).map fun c =>
        { setCall s i scope .over with chain := c, slots := s.slots ++ [(slot, run)] }
    | _ => none
  | .failed i =>
    match s.calls i with
    | some ⟨scope, .loading _⟩ | some ⟨scope, .judging _ _⟩ | some ⟨scope, .endorsing _ _⟩ | some ⟨scope,
        .distributing _ _⟩
    | some ⟨scope, .redistributing _ _ _⟩ | some ⟨scope, .saving _ _⟩ =>
      (Chain.settle s.chain i).map fun c => { setCall s i scope .over with chain := c }
    | _ => none
  | .cleaned i => (Chain.clean s.chain i).map fun c => { s with chain := c }
  | .reload =>
    some { s with chain := Chain.reset s.chain, calls := fun i => (s.calls i).map fun c => { c with phase := .over } }

/-- Nothing reserved yet; the store may hold other devices' and other people's sessions. -/
def Init (s : St) : Prop :=
  s.chain = Chain.init ∧ s.calls = (fun _ => none) ∧ s.saved = [] ∧ s.sent = [] ∧ s.mints = [] ∧ s.slots = [] ∧
    (s.store.map (·.sessionId)).Nodup ∧ ∀ x ∈ s.store, x.sentCount = none

def machine : Machine St Ev := ⟨Init, step P⟩

/-! ## What every call knows -/

def Redistributed (x : StoredGraineSession) : Prop := ∃ a, x.rotationAnchor = some a ∧ a.redistributed = true

def Live (p : Phase) : Prop := p ≠ .queued ∧ p ≠ .over

def Of (scope : GraineOutboundScope) (x : StoredGraineSession) : Prop :=
  x.channelId = scope.channelId ∧ x.senderId = scope.senderId

def Held (s : St) (scope : GraineOutboundScope) (x : StoredGraineSession) : Prop :=
  x ∈ s.store ∧ Of scope x ∧ x.sentCount.isSome

def Unstored (s : St) (id : String) : Prop := (∃ r, (id, r) ∈ s.mints) ∧ ∀ x ∈ s.store, x.sessionId ≠ id

def Drawn (s : St) (scope : GraineOutboundScope) (x : StoredGraineSession) : Prop :=
  Of scope x ∧ x.firstIndex = 0 ∧ ¬ Redistributed x ∧ Unstored s x.sessionId

def WasSent (s : St) (id : String) : Prop := ∃ again, (id, again) ∈ s.sent

/-- A slot about to be saved: the next index of the stored session, or index 0 of a new one. -/
structure Ready (s : St) (scope : GraineOutboundScope) (slot : GraineOutboundSlot) : Prop where
  ofScope : Of scope slot.session
  zero : slot.session.firstIndex = 0
  count : slot.session.sentCount = some (slot.index + 1)
  cap : slot.index + 1 ≤ GRAINE_ROTATE_AFTER_MESSAGES
  reusedCap : Redistributed slot.session → slot.index + 1 ≤ GRAINE_REUSED_ROTATE_AFTER_MESSAGES
  sent : WasSent s slot.session.sessionId
  next : slot.minted = false → ∃ x, Held s scope x ∧ x.sessionId = slot.session.sessionId ∧ x.sentCount = some slot.index ∧
    (Redistributed x → Redistributed slot.session)
  new : slot.minted = true → slot.index = 0 ∧ Unstored s slot.session.sessionId

/-- A slot saved and not handed out yet: later than every one handed out of its session. -/
def Landed (s : St) (scope : GraineOutboundScope) (slot : GraineOutboundSlot) : Prop :=
  slot.session ∈ s.store ∧ Of scope slot.session ∧ slot.session.sentCount = some (slot.index + 1) ∧
    ∀ p ∈ s.slots, p.1.session.sessionId = slot.session.sessionId → p.1.index < slot.index

def PhaseOk (s : St) (c : Call) : Prop :=
  match c.phase with
  | .judging _ current => ∀ x, current = some x → Held s c.scope x
  | .redistributing x a _ => Held s c.scope x ∧ x.rotationAnchor = some a ∧
      x.sentCount.getD 0 < GRAINE_REUSED_ROTATE_AFTER_MESSAGES
  | .endorsing x _ => Drawn s c.scope x
  | .distributing x _ => Drawn s c.scope x
  | .saving slot _ => Ready s c.scope slot
  | .written slot _ => Landed s c.scope slot
  | _ => True

def drawnId : Phase → Option String
  | .endorsing x _ | .distributing x _ => some x.sessionId
  | .saving slot _ => if slot.minted then some slot.session.sessionId else none
  | _ => none

/-- The link of a call is queued or running as its body is. -/
def Linked (s : St) (i : Nat) (c : Call) : Prop :=
  ∃ l, s.chain.links i = some l ∧ l.key = chainKey c.scope ∧ (Live c.phase → l.phase = .running)

structure Inv (s : St) : Prop where
  chain : Chain.Inv s.chain
  linked : ∀ i c, s.calls i = some c → Linked s i c
  ids : ∀ x ∈ s.store, ∀ y ∈ s.store, x.sessionId = y.sessionId → x = y
  own : ∀ x ∈ s.store, ∀ n, x.sentCount = some n → x.firstIndex = 0 ∧ n ≤ GRAINE_ROTATE_AFTER_MESSAGES ∧
    (Redistributed x → n ≤ GRAINE_REUSED_ROTATE_AFTER_MESSAGES) ∧ WasSent s x.sessionId
  phase : ∀ i c, s.calls i = some c → PhaseOk s c
  draws : ∀ i j c d id, s.calls i = some c → s.calls j = some d → drawnId c.phase = some id →
    drawnId d.phase = some id → i = j
  counted : ∀ p ∈ s.slots, ∃ x ∈ s.store, x.sessionId = p.1.session.sessionId ∧ ∃ n,
    x.sentCount = some n ∧ p.1.index < n
  increasing : s.slots.Pairwise fun p q => p.1.session.sessionId = q.1.session.sessionId → p.1.index < q.1.index
  savedSent : ∀ x ∈ s.saved, WasSent s x.sessionId
  savedKept : ∀ x ∈ s.saved, ∃ y ∈ s.store, y.sessionId = x.sessionId ∧ (Redistributed x → Redistributed y)

variable {s : St}

theorem inv_init (h : Init s) : Inv s := by
  obtain ⟨hch, hca, hsv, hse, hmi, hsl, hnd, hno⟩ := h
  refine ⟨hch ▸ Chain.inv_init, ?_, ?_, ?_, ?_, ?_, ?_, ?_, ?_, ?_⟩
  · simp [hca]
  · exact fun x hx y hy he => inj_on_of_nodup_map hnd hx hy he
  · intro x hx n hn
    rw [hno x hx] at hn; cases hn
  · simp [hca]
  · simp [hca]
  · simp [hsl]
  · simp [hsl]
  · simp [hsv]
  · simp [hsv]

/-! ## Two calls of one session are one call -/

variable {scope : GraineOutboundScope} {x : StoredGraineSession}

theorem key_of {scope' : GraineOutboundScope} (h : Of scope x) (h' : Of scope' x) :
    chainKey scope = chainKey scope' := by
  unfold chainKey
  rw [← h.1, ← h.2, ← h'.1, ← h'.2]

variable {i j : Nat} {c : Call}

theorem one_call (h : Inv s) {d : Call} (hi : s.calls i = some c) (hj : s.calls j = some d)
    (hc : Live c.phase) (hd : Live d.phase) (hx : Of c.scope x) (hx' : Of d.scope x) : i = j := by
  obtain ⟨l, hl, hlk, hlr⟩ := h.linked i c hi
  obtain ⟨m, hm, hmk, hmr⟩ := h.linked j d hj
  exact Chain.exclusive h.chain hl hm (by rw [hlk, hmk, key_of hx hx']) (hlr hc) (hmr hd)

variable {slot : GraineOutboundSlot} {run : GraineRunReading}

theorem save_apart (h : Inv s) {d : Call}
    (hi : s.calls i = some c) (hp : c.phase = .saving slot run) (hj : s.calls j = some d)
    (hd : Live d.phase) (hne : j ≠ i)
    (hx : x ∈ s.store) (ho : Of d.scope x) : x.sessionId ≠ slot.session.sessionId := by
  intro he
  have hr : Ready s c.scope slot := by have := h.phase i c hi; rwa [PhaseOk, hp] at this
  cases hm : slot.minted with
  | true => exact (hr.new hm).2.2 x hx he
  | false =>
    obtain ⟨y, ⟨hy, hyo, _⟩, hye, _⟩ := hr.next hm
    have hxy : x = y := h.ids x hx y hy (he.trans hye.symm)
    subst hxy
    exact hne (one_call h hj hi hd (by simp [Live, hp]) ho hyo)

variable {id : String}

theorem draw_apart (h : Inv s) {d : Call}
    (hi : s.calls i = some c) (hp : c.phase = .saving slot run) (hj : s.calls j = some d) (hne : j ≠ i)
    (hd : drawnId d.phase = some id) (hu : Unstored s id) : id ≠ slot.session.sessionId := by
  rintro rfl
  have hr : Ready s c.scope slot := by have := h.phase i c hi; rwa [PhaseOk, hp] at this
  cases hm : slot.minted with
  | true => exact hne (h.draws j i d c _ hj hi hd (by simp [drawnId, hp, hm]))
  | false =>
    obtain ⟨y, ⟨hy, _⟩, hye, _⟩ := hr.next hm
    exact hu.2 y hy hye

/-! ## Steps that leave the store alone -/

variable {s' : St}

theorem unstored_mono (hs : s'.store = s.store) (hm : ∀ p ∈ s.mints, p ∈ s'.mints)
    (h : Unstored s id) : Unstored s' id := by
  obtain ⟨⟨r, hr⟩, hn⟩ := h
  exact ⟨⟨r, hm _ hr⟩, by rw [hs]; exact hn⟩

theorem held_mono (hs : s'.store = s.store)
    (h : Held s scope x) : Held s' scope x := by
  unfold Held; rw [hs]; exact h

theorem drawn_mono (hs : s'.store = s.store) (hm : ∀ p ∈ s.mints, p ∈ s'.mints)
    (h : Drawn s scope x) : Drawn s' scope x :=
  ⟨h.1, h.2.1, h.2.2.1, unstored_mono hs hm h.2.2.2⟩

theorem wasSent_mono (hse : ∀ p ∈ s.sent, p ∈ s'.sent) (h : WasSent s id) : WasSent s' id := by
  obtain ⟨b, hb⟩ := h
  exact ⟨b, hse _ hb⟩

theorem ready_mono (hs : s'.store = s.store) (hm : ∀ p ∈ s.mints, p ∈ s'.mints) (hse : ∀ p ∈ s.sent, p ∈ s'.sent)
    (h : Ready s scope slot) : Ready s' scope slot := by
  refine ⟨h.ofScope, h.zero, h.count, h.cap, h.reusedCap, wasSent_mono hse h.sent, fun hn => ?_, fun hn => ?_⟩
  · obtain ⟨x, hx, hr⟩ := h.next hn
    exact ⟨x, held_mono hs hx, hr⟩
  · exact ⟨(h.new hn).1, unstored_mono hs hm (h.new hn).2⟩

theorem phase_mono (hs : s'.store = s.store) (hm : ∀ p ∈ s.mints, p ∈ s'.mints) (hse : ∀ p ∈ s.sent, p ∈ s'.sent)
    (hsl : s'.slots = s.slots) (h : PhaseOk s c) : PhaseOk s' c := by
  obtain ⟨scope, p⟩ := c
  cases p with
  | judging now current => exact fun x hx => held_mono hs (h x hx)
  | redistributing x a run => exact ⟨held_mono hs h.1, h.2⟩
  | endorsing x run => exact drawn_mono hs hm h
  | distributing x run => exact drawn_mono hs hm h
  | saving slot run => exact ready_mono hs hm hse h
  | written slot run =>
    refine ⟨?_, h.2.1, h.2.2.1, ?_⟩
    · rw [hs]; exact h.1
    · rw [hsl]; exact h.2.2.2
  | _ => trivial

variable {p : Phase}

/-- A step of one call that writes nothing to the store. -/
theorem inv_local (h : Inv s) {p' : Phase}
    (hi : s.calls i = some ⟨scope, p⟩) (hc : s'.calls = Function.update s.calls i (some ⟨scope, p'⟩))
    (hch : Chain.Inv s'.chain) (hlinks : ∀ j, j ≠ i → s'.chain.links j = s.chain.links j)
    (hlink : Linked s' i ⟨scope, p'⟩)
    (hs : s'.store = s.store) (hsv : s'.saved = s.saved) (hsl : s'.slots = s.slots) (hse : ∀ q ∈ s.sent, q ∈ s'.sent)
    (hm : ∀ q ∈ s.mints, q ∈ s'.mints) (hok : PhaseOk s' ⟨scope, p'⟩)
    (hd : ∀ id, drawnId p' = some id → drawnId p = some id ∨ ∀ j c, s.calls j = some c → drawnId c.phase ≠ some id) :
    Inv s' := by
  have call : ∀ j c, s'.calls j = some c ↔ (j = i ∧ ⟨scope, p'⟩ = c) ∨ (j ≠ i ∧ s.calls j = some c) :=
    fun j c => by rw [hc]; exact update_eq_some_iff
  -- an id drawn by the call that moved is drawn by no other
  have apart : ∀ j c id, j ≠ i → s.calls j = some c → drawnId c.phase = some id → drawnId p' ≠ some id := by
    intro j c id hne hj hdc hdp
    rcases hd id hdp with h1 | h1
    · exact hne (h.draws j i c _ id hj hi hdc h1)
    · exact h1 j c hj hdc
  refine ⟨hch, fun j c hj => ?_, by
    rw [hs]; exact h.ids, fun x hx n hn => ?_, fun j c hj => ?_, fun j k c d id hj hk hjd hkd => ?_,
    by rw [hs, hsl]; exact h.counted, by rw [hsl]; exact h.increasing, fun x hx => ?_, by rw [hsv, hs]; exact h.savedKept⟩
  · rcases (call j c).mp hj with ⟨rfl, rfl⟩ | ⟨hne, hj⟩
    · exact hlink
    · obtain ⟨l, hl, hr⟩ := h.linked j c hj
      exact ⟨l, by rw [hlinks j hne]; exact hl, hr⟩
  · obtain ⟨h1, h2, h3, h4⟩ := h.own x (hs ▸ hx) n hn
    exact ⟨h1, h2, h3, wasSent_mono hse h4⟩
  · rcases (call j c).mp hj with ⟨rfl, rfl⟩ | ⟨hne, hj⟩
    · exact hok
    · exact phase_mono hs hm hse hsl (h.phase j c hj)
  · rcases (call j c).mp hj with ⟨rfl, rfl⟩ | ⟨hne, hj⟩
    · rcases (call k d).mp hk with ⟨rfl, rfl⟩ | ⟨hne', hk⟩
      · rfl
      · exact absurd hjd (apart k d id hne' hk hkd)
    · rcases (call k d).mp hk with ⟨rfl, rfl⟩ | ⟨hne', hk⟩
      · exact absurd hkd (apart j c id hne hj hjd)
      · exact h.draws j k c d id hj hk hjd hkd
  · exact wasSent_mono hse (h.savedSent x (hsv ▸ hx))

/-- A body going on to another await. -/
theorem inv_body (h : Inv s) {p' : Phase}
    (hi : s.calls i = some ⟨scope, p⟩) (hp : Live p) (hc : s'.calls = Function.update s.calls i (some ⟨scope, p'⟩))
    (hch : s'.chain = s.chain) (hs : s'.store = s.store) (hsv : s'.saved = s.saved) (hsl : s'.slots = s.slots)
    (hse : ∀ q ∈ s.sent, q ∈ s'.sent) (hm : ∀ q ∈ s.mints, q ∈ s'.mints) (hok : PhaseOk s' ⟨scope, p'⟩)
    (hd : ∀ id, drawnId p' = some id → drawnId p = some id ∨ ∀ j c, s.calls j = some c → drawnId c.phase ≠ some id) :
    Inv s' := by
  refine inv_local h hi hc (hch ▸ h.chain) (fun j _ => by rw [hch]) ?_ hs hsv hsl hse hm hok hd
  obtain ⟨l, hl, hk, hr⟩ := h.linked i _ hi
  exact ⟨l, by rw [hch]; exact hl, hk, fun _ => hr hp⟩

/-! ## The verdict's branches -/

variable {now : Int}

theorem verdict_within_cap
    (h : graineOutboundVerdict (some x) run now ≠ .rotate) :
    ∃ a, x.rotationAnchor = some a ∧ x.sentCount.getD 0 < capMessages a.redistributed := by
  unfold graineOutboundVerdict at h
  cases ha : x.rotationAnchor with
  | none => simp [ha] at h
  | some a =>
    refine ⟨a, rfl, ?_⟩
    simp only [ha] at h
    split at h
    · exact absurd rfl h
    · rename_i hn
      simp only [ge_iff_le, Bool.or_eq_true, decide_eq_true_eq, not_or, not_le] at hn
      exact hn.1.2

theorem verdict_redistribute
    (h : graineOutboundVerdict (some x) run now = .redistribute) :
    x.sentCount.getD 0 < GRAINE_REUSED_ROTATE_AFTER_MESSAGES := by
  unfold graineOutboundVerdict at h
  cases ha : x.rotationAnchor with
  | none => simp [ha] at h
  | some a =>
    simp only [ha] at h
    split at h
    · cases h
    split at h
    · cases h
    split at h
    · cases h
    split at h
    · cases h
    · rename_i hn
      simp only [ge_iff_le, Bool.or_eq_true, decide_eq_true_eq, not_or, not_le] at hn
      exact hn.1

theorem capMessages_le (b : Bool) : capMessages b ≤ GRAINE_ROTATE_AFTER_MESSAGES := by
  cases b <;> decide

/-- What `judge` can do: reuse the session in hand, start re-distributing it, or draw a new id. -/
theorem judge_cases {current : Option StoredGraineSession}
    {seed : String} (h : judge s i scope now current run id seed = some s') :
    (∃ x, current = some x ∧ graineOutboundVerdict (some x) run now = .reuse ∧
      s' = setCall s i scope (.saving (reusedSlot x) run)) ∨
    (∃ x a, current = some x ∧ graineOutboundVerdict (some x) run now = .redistribute ∧ x.rotationAnchor = some a ∧
      s' = setCall s i scope (.redistributing x a run)) ∨
    (freshId s id = true ∧ s' = { setCall s i scope (.endorsing (draftOf scope run now id seed) run) with
      mints := s.mints ++ [(id, run)] }) := by
  have mint : ∀ {t : Option St}, t = some s' → t = (if freshId s id then
      some { setCall s i scope (.endorsing (draftOf scope run now id seed) run) with mints := s.mints ++ [(id, run)] }
      else none) → freshId s id = true ∧ s' = { setCall s i scope (.endorsing (draftOf scope run now id seed) run) with
        mints := s.mints ++ [(id, run)] } := by
    intro t ht he
    rw [he] at ht
    split at ht
    · rename_i hf; cases ht
      exact ⟨hf, rfl⟩
    · cases ht
  unfold judge at h
  simp only at h
  split at h
  · rename_i x hv
    exact Or.inl ⟨x, rfl, hv, (some.inj h).symm⟩
  · rename_i x hv
    split at h
    · rename_i a ha
      exact Or.inr (Or.inl ⟨x, a, rfl, hv, ha, (some.inj h).symm⟩)
    · exact Or.inr (Or.inr (mint h rfl))
  · exact Or.inr (Or.inr (mint h rfl))

theorem freshId_spec (h : freshId s id = true) :
    (∀ p ∈ s.mints, p.1 ≠ id) ∧ ∀ x ∈ s.store, x.sessionId ≠ id := by
  simp only [freshId, Bool.and_eq_true, Bool.not_eq_true', List.any_eq_false, beq_iff_eq] at h
  exact ⟨h.1, h.2⟩

theorem drawn_in_mints (h : Inv s) (hj : s.calls j = some c)
    (hd : drawnId c.phase = some id) : ∃ r, (id, r) ∈ s.mints := by
  have hp := h.phase j c hj
  obtain ⟨scope, p⟩ := c
  cases p with
  | endorsing x run => cases hd; exact hp.2.2.2.1
  | distributing x run => cases hd; exact hp.2.2.2.1
  | saving slot run =>
    simp only [drawnId] at hd
    split at hd
    · rename_i hm; cases hd
      exact (hp.new hm).2.1
    · cases hd
  | _ => cases hd

theorem ready_reused (h : Inv s) (hx : Held s scope x)
    (hv : graineOutboundVerdict (some x) run now = .reuse) :
    Ready s scope (reusedSlot x) := by
  obtain ⟨n, hn⟩ := isSome_iff_exists.mp hx.2.2
  obtain ⟨hz, _, _, hsent⟩ := h.own x hx.1 n hn
  have hnr : graineOutboundVerdict (some x) run now ≠ .rotate := by simp [hv]
  obtain ⟨a, ha, hcap⟩ := verdict_within_cap hnr
  simp only [hn, getD_some] at hcap
  have hle := capMessages_le a.redistributed
  refine ⟨hx.2.1, hz, by simp [reusedSlot, hz, hn], ?_, ?_, hsent, fun _ => ⟨x, hx, rfl, ?_, id⟩, fun hm => by cases hm⟩
  · simp only [reusedSlot, hz, hn, getD_some]; omega
  · rintro ⟨b, hb, hr⟩
    have hab : a = b := some.inj (ha.symm.trans hb)
    subst hab
    simp only [hr, capMessages, if_true] at hcap
    simp only [reusedSlot, hz, hn, getD_some]; omega
  · simp [reusedSlot, hz, hn]

theorem ready_redistributed (h : Inv s)
    {a : GraineRotationAnchor} (hx : Held s scope x) (hcap : x.sentCount.getD 0 < GRAINE_REUSED_ROTATE_AFTER_MESSAGES)
    (run : GraineRunReading) (frame : GraineDistributionFrame) : Ready s scope (redistributedSlot x a run frame) := by
  obtain ⟨n, hn⟩ := isSome_iff_exists.mp hx.2.2
  obtain ⟨hz, _, _, hsent⟩ := h.own x hx.1 n hn
  simp only [hn, getD_some] at hcap
  have hle : GRAINE_REUSED_ROTATE_AFTER_MESSAGES ≤ GRAINE_ROTATE_AFTER_MESSAGES := by decide
  have hidx : (redistributedSlot x a run frame).index = n := by simp [redistributedSlot, hz, hn]
  refine ⟨hx.2.1, hz, by rw [hidx]; simp [redistributedSlot, hn], by omega, fun _ => by omega, hsent,
    fun _ => ⟨x, hx, rfl, by rw [hidx]; exact hn, fun _ => ⟨_, rfl, rfl⟩⟩, fun hm => by cases hm⟩

theorem mem_getGraineSessions {P : Platform} {store : List StoredGraineSession} {channelId : String}
    {unreadable : List String}
    (h : x ∈ getGraineSessions P store channelId unreadable) : x ∈ store ∧ x.channelId = channelId := by
  have h' := (mem_insertionSort _).mp h
  simp only [mem_filter, Bool.and_eq_true, beq_iff_eq] at h'
  exact ⟨h'.1, h'.2.1⟩

theorem currentSession_held {P : Platform} {unreadable : List String}
    (h : currentSession P s scope unreadable = some x) : Held s scope x := by
  obtain ⟨hm, hc⟩ := mem_getGraineSessions (mem_of_find?_eq_some h)
  have hp := find?_some h
  simp only [Bool.and_eq_true, beq_iff_eq] at hp
  exact ⟨hm, ⟨hc, hp.1⟩, hp.2⟩

/-! ## The steps -/

theorem live_of (h1 : p ≠ .queued) (h2 : p ≠ .over) : Live p := ⟨h1, h2⟩

theorem step_ran (h : Inv s)
    {current : Option StoredGraineSession} {seed : String}
    (hi : s.calls i = some ⟨scope, .judging now current⟩) (hs : judge s i scope now current run id seed = some s') :
    Inv s' := by
  have hk : ∀ x, current = some x → Held s scope x := h.phase i _ hi
  have hl : Live (.judging now current) := live_of (by simp) (by simp)
  rcases judge_cases hs with ⟨x, hc, hv, rfl⟩ | ⟨x, a, hc, hv, ha, rfl⟩ | ⟨hf, rfl⟩
  · refine inv_body h hi hl rfl rfl rfl rfl rfl (fun _ hq => hq) (fun _ hq => hq) ?_ (by simp [drawnId, reusedSlot])
    exact ready_mono (s := s) (by rfl) (by exact fun _ hq => hq) (by exact fun _ hq => hq) (ready_reused h (hk x hc) hv)
  · refine inv_body h hi hl rfl rfl rfl rfl rfl (fun _ hq => hq) (fun _ hq => hq) ?_ (by simp [drawnId])
    exact ⟨hk x hc, ha, verdict_redistribute hv⟩
  · obtain ⟨hm, hst⟩ := freshId_spec hf
    refine inv_body h hi hl rfl rfl rfl rfl rfl (fun _ hq => hq) (fun _ hq => mem_append_left _ hq) ?_ ?_
    · refine ⟨⟨rfl, rfl⟩, rfl, ?_, ⟨run, mem_append_right _ (by simp [draftOf])⟩, hst⟩
      rintro ⟨b, hb, hr⟩
      cases hb; cases hr
    · intro id' hd
      cases hd
      right
      intro j c hj hd
      obtain ⟨r, hr⟩ := drawn_in_mints h hj hd
      exact hm _ hr rfl

theorem step_distributed_new (h : Inv s)
    (frame : GraineDistributionFrame) (hi : s.calls i = some ⟨scope, .distributing x run⟩) :
    Inv { setCall s i scope (.saving (mintedSlot x frame) run) with sent := s.sent ++ [(x.sessionId, false)] } := by
  obtain ⟨ho, hz, hnr, hu⟩ : Drawn s scope x := h.phase i _ hi
  refine inv_body h hi (live_of (by simp) (by simp)) rfl rfl rfl rfl rfl (fun _ hq => mem_append_left _ hq)
    (fun _ hq => hq) ?_ ?_
  · refine ⟨ho, hz, rfl, ?_, fun hr => absurd hr hnr, ⟨false, mem_append_right _ (by simp [mintedSlot])⟩,
      fun hm => (by cases hm), fun _ => ⟨rfl, hu⟩⟩
    show 1 ≤ GRAINE_ROTATE_AFTER_MESSAGES
    decide
  · intro id hd
    exact Or.inl hd

theorem step_distributed_again (h : Inv s)
    {a : GraineRotationAnchor} (frame : GraineDistributionFrame)
    (hi : s.calls i = some ⟨scope, .redistributing x a run⟩) :
    Inv { setCall s i scope (.saving (redistributedSlot x a run frame) run) with sent :=
      s.sent ++ [(x.sessionId, true)] } := by
  obtain ⟨hx, _, hcap⟩ : Held s scope x ∧ _ := h.phase i _ hi
  refine inv_body h hi (live_of (by simp) (by simp)) rfl rfl rfl rfl rfl (fun _ hq => mem_append_left _ hq)
    (fun _ hq => hq) ?_
    (by simp [drawnId, redistributedSlot])
  exact ready_mono (s := s) (by rfl) (by exact fun _ hq => hq) (by exact fun _ hq => mem_append_left _ hq)
    (ready_redistributed h hx hcap run frame)

theorem step_over (h : Inv s) {c : Chain.St String}
    (hi : s.calls i = some ⟨scope, p⟩) (hc : Chain.settle s.chain i = some c) :
    Inv { setCall s i scope .over with chain := c } := by
  have hch := Chain.inv_settle h.chain hc
  obtain ⟨k, prev, hl, rfl⟩ := Chain.settle_cases hc
  obtain ⟨l, hl', hk, _⟩ := h.linked i _ hi
  rw [hl] at hl'; cases hl'
  exact inv_local h hi rfl hch (fun j hj => by simp [hj]) ⟨⟨k, prev, .settled⟩, by
    simp, hk, fun hlv => absurd rfl hlv.2⟩
    rfl rfl rfl (fun _ hq => hq) (fun _ hq => hq) trivial (by simp [drawnId])

theorem step_start (h : Inv s) {c : Chain.St String}
    (hi : s.calls i = some ⟨scope, .queued⟩) (hc : Chain.start s.chain i = some c) :
    Inv { setCall s i scope (.loading now) with chain := c } := by
  have hch := Chain.inv_start h.chain hc
  obtain ⟨k, prev, hl, _, rfl⟩ := Chain.start_cases hc
  obtain ⟨l, hl', hk, _⟩ := h.linked i _ hi
  rw [hl] at hl'; cases hl'
  exact inv_local h hi rfl hch (fun j hj => by simp [hj]) ⟨⟨k, prev, .running⟩, by simp, hk, fun _ => rfl⟩
    rfl rfl rfl (fun _ hq => hq) (fun _ hq => hq) trivial (by simp [drawnId])

theorem step_call (h : Inv s) (scope : GraineOutboundScope) :
    Inv { setCall s s.chain.next scope .queued with chain := Chain.push s.chain (chainKey scope) } := by
  have call : ∀ j c, Function.update s.calls s.chain.next (some ⟨scope, .queued⟩) j = some c ↔
      (j = s.chain.next ∧ ⟨scope, .queued⟩ = c) ∨ (j ≠ s.chain.next ∧ s.calls j = some c) :=
        fun j c => update_eq_some_iff
  refine ⟨Chain.inv_push h.chain _, fun j c hj => ?_, h.ids, h.own, fun j c hj => ?_,
    fun j k c d id hj hk hjd hkd => ?_,
    h.counted, h.increasing, h.savedSent, h.savedKept⟩
  · rcases (call j c).mp hj with ⟨rfl, rfl⟩ | ⟨hne, hj⟩
    · exact ⟨⟨chainKey scope, s.chain.tail (chainKey scope), .queued⟩, by
        simp [Chain.push], rfl, fun hl => absurd rfl hl.1⟩
    · obtain ⟨l, hl, hr⟩ := h.linked j c hj
      exact ⟨l, by simpa [Chain.push, hne] using hl, hr⟩
  · rcases (call j c).mp hj with ⟨rfl, rfl⟩ | ⟨hne, hj⟩
    · trivial
    · exact phase_mono (s := s) (by rfl) (by exact fun _ hq => hq) (by exact fun _ hq => hq) (by rfl) (h.phase j c hj)
  · rcases (call j c).mp hj with ⟨_, rfl⟩ | ⟨_, hj⟩
    · cases hjd
    · rcases (call k d).mp hk with ⟨_, rfl⟩ | ⟨_, hk⟩
      · cases hkd
      · exact h.draws j k c d id hj hk hjd hkd

theorem step_cleaned (h : Inv s) {c : Chain.St String} (hc : Chain.clean s.chain i = some c) :
    Inv { s with chain := c } := by
  have hch := Chain.inv_clean h.chain hc
  obtain ⟨k, prev, _, rfl⟩ := Chain.clean_cases hc
  exact ⟨hch, h.linked, h.ids, h.own, fun j c hj => phase_mono (s := s) (by rfl) (by exact fun _ hq => hq) (by
    exact fun _ hq => hq) (by rfl) (h.phase j c hj),
    h.draws, h.counted, h.increasing, h.savedSent, h.savedKept⟩

theorem step_reload (h : Inv s) :
    Inv { s with chain := Chain.reset s.chain, calls :=
      fun i => (s.calls i).map fun c => { c with phase := .over } } := by
  have back : ∀ j c, ((s.calls j).map fun c => { c with phase := Phase.over }) = some c →
      ∃ d, s.calls j = some d ∧ c = { d with phase := .over } := by
    intro j c hj
    obtain ⟨d, hd, rfl⟩ := map_eq_some_iff.mp hj
    exact ⟨d, hd, rfl⟩
  refine ⟨Chain.inv_reset h.chain, fun j c hj => ?_, h.ids, h.own, fun j c hj => ?_, fun j k c d id hj hk hjd hkd => ?_,
    h.counted, h.increasing, h.savedSent, h.savedKept⟩
  · obtain ⟨d, hd, rfl⟩ := back j c hj
    obtain ⟨l, hl, hk, _⟩ := h.linked j d hd
    exact ⟨{ l with phase := .settled }, by simp [Chain.reset, hl], hk, fun hl => absurd rfl hl.2⟩
  · obtain ⟨d, _, rfl⟩ := back j c hj
    trivial
  · obtain ⟨e, _, rfl⟩ := back j c hj
    cases hjd

/-! ## The save and the return -/

theorem mem_saveGraineSession {store : List StoredGraineSession} {y : StoredGraineSession} :
    y ∈ saveGraineSession store x ↔ (y ∈ store ∧ y.sessionId ≠ x.sessionId) ∨ y = x := by
  simp [saveGraineSession]

/-- What another call knows survives a save that is not of its session. -/
theorem phase_saved (hs : s'.store = saveGraineSession s.store x) (hm : s'.mints = s.mints)
    (hse : s'.sent = s.sent) (hsl : s'.slots = s.slots) (h : PhaseOk s c)
    (hst : Live c.phase → ∀ y ∈ s.store, Of c.scope y → y.sessionId ≠ x.sessionId)
    (hdr : ∀ id, drawnId c.phase = some id → Unstored s id → id ≠ x.sessionId) : PhaseOk s' c := by
  have held : ∀ {y}, Live c.phase → Held s c.scope y → Held s' c.scope y := by
    intro y hl hy
    refine ⟨?_, hy.2⟩
    rw [hs, mem_saveGraineSession]
    exact Or.inl ⟨hy.1, hst hl y hy.1 hy.2.1⟩
  have unstored : ∀ {id}, drawnId c.phase = some id → Unstored s id → Unstored s' id := by
    intro id hd hu
    refine ⟨by rw [hm]; exact hu.1, fun y hy he => ?_⟩
    rw [hs, mem_saveGraineSession] at hy
    rcases hy with ⟨hy, _⟩ | rfl
    · exact hu.2 y hy he
    · exact hdr id hd hu he.symm
  obtain ⟨scope, p⟩ := c
  cases p with
  | judging now current => exact fun y hy => held (live_of (by simp) (by simp)) (h y hy)
  | redistributing y a run => exact ⟨held (live_of (by simp) (by simp)) h.1, h.2⟩
  | endorsing y run => exact ⟨h.1, h.2.1, h.2.2.1, unstored rfl h.2.2.2⟩
  | distributing y run => exact ⟨h.1, h.2.1, h.2.2.1, unstored rfl h.2.2.2⟩
  | saving slot run =>
    refine ⟨h.ofScope, h.zero, h.count, h.cap, h.reusedCap, by
      unfold WasSent; rw [hse]; exact h.sent, fun hn => ?_, fun hn => ?_⟩
    · obtain ⟨y, hy, hr⟩ := h.next hn
      exact ⟨y, held (live_of (by simp) (by simp)) hy, hr⟩
    · exact ⟨(h.new hn).1, unstored (by simp [drawnId, hn]) (h.new hn).2⟩
  | written slot run =>
    refine ⟨?_, h.2.1, h.2.2.1, by rw [hsl]; exact h.2.2.2⟩
    rw [hs, mem_saveGraineSession]
    exact Or.inl ⟨h.1, hst (live_of (by simp) (by simp)) _ h.1 h.2.1⟩
  | _ => trivial

theorem step_written (h : Inv s)
    (hi : s.calls i = some ⟨scope, .saving slot run⟩) :
    Inv { setCall s i scope (.written slot run) with
      store := saveGraineSession s.store slot.session, saved := s.saved ++ [slot.session] } := by
  have hr : Ready s scope slot := h.phase i _ hi
  -- the session stored before under this id, if any, had one fewer
  have before : ∀ x ∈ s.store, x.sessionId = slot.session.sessionId →
      x.sentCount = some slot.index ∧ (Redistributed x → Redistributed slot.session) := by
    intro x hx he
    cases hm : slot.minted with
    | true => exact absurd he ((hr.new hm).2.2 x hx)
    | false =>
      obtain ⟨y, hy, hye, hyc, hyr⟩ := hr.next hm
      have hxy : x = y := h.ids x hx y hy.1 (he.trans hye.symm)
      subst hxy
      exact ⟨hyc, hyr⟩
  have call : ∀ j c, Function.update s.calls i (some ⟨scope, .written slot run⟩) j = some c ↔
      (j = i ∧ ⟨scope, .written slot run⟩ = c) ∨ (j ≠ i ∧ s.calls j = some c) := fun j c => update_eq_some_iff
  refine ⟨h.chain, fun j c hj => ?_, fun x hx y hy he => ?_, fun x hx n hn => ?_, fun j c hj => ?_,
    fun j k c d id hj hk hjd hkd => ?_, fun p hp => ?_, h.increasing, fun x hx => ?_, fun x hx => ?_⟩
  · rcases (call j c).mp hj with ⟨rfl, rfl⟩ | ⟨_, hj⟩
    · obtain ⟨l, hl, hk, hlr⟩ := h.linked j _ hi
      exact ⟨l, hl, hk, fun _ => hlr (live_of (by simp) (by simp))⟩
    · exact h.linked j c hj
  · rcases (mem_saveGraineSession).mp hx with ⟨hx, hxn⟩ | rfl
    · rcases (mem_saveGraineSession).mp hy with ⟨hy, _⟩ | rfl
      · exact h.ids x hx y hy he
      · exact absurd he hxn
    · rcases (mem_saveGraineSession).mp hy with ⟨hy, hyn⟩ | rfl
      · exact absurd he.symm hyn
      · rfl
  · rcases (mem_saveGraineSession).mp hx with ⟨hx, _⟩ | rfl
    · exact h.own x hx n hn
    · have hn' : slot.index + 1 = n := some.inj (hr.count.symm.trans hn)
      subst hn'
      exact ⟨hr.zero, hr.cap, hr.reusedCap, hr.sent⟩
  · rcases (call j c).mp hj with ⟨rfl, rfl⟩ | ⟨hne, hj⟩
    · refine ⟨(mem_saveGraineSession).mpr (Or.inr rfl), hr.ofScope, hr.count, fun p hp he => ?_⟩
      obtain ⟨x, hx, hxe, n, hn, hlt⟩ := h.counted p hp
      rw [(before x hx (hxe.trans he)).1] at hn
      cases hn
      exact hlt
    · exact phase_saved (s := s) (by rfl) (by rfl) (by rfl) (by
        rfl) (h.phase j c hj) (fun hl y hy ho => save_apart h hi rfl hj hl hne hy ho)
        fun id hd hu => draw_apart h hi rfl hj hne hd hu
  · rcases (call j c).mp hj with ⟨_, rfl⟩ | ⟨_, hj⟩
    · cases hjd
    · rcases (call k d).mp hk with ⟨_, rfl⟩ | ⟨_, hk⟩
      · cases hkd
      · exact h.draws j k c d id hj hk hjd hkd
  · obtain ⟨x, hx, hxe, n, hn, hlt⟩ := h.counted p hp
    by_cases e : x.sessionId = slot.session.sessionId
    · rw [(before x hx e).1] at hn
      cases hn
      exact ⟨slot.session, (mem_saveGraineSession).mpr (Or.inr rfl), e.symm.trans hxe, slot.index + 1, hr.count, by
        omega⟩
    · exact ⟨x, (mem_saveGraineSession).mpr (Or.inl ⟨hx, e⟩), hxe, n, hn, hlt⟩
  · rcases mem_append.mp hx with hx | hx
    · exact h.savedSent x hx
    · rw [mem_singleton.mp hx]; exact hr.sent
  · rcases mem_append.mp hx with hx | hx
    · obtain ⟨y, hy, hye, hyr⟩ := h.savedKept x hx
      by_cases e : y.sessionId = slot.session.sessionId
      · exact ⟨slot.session, (mem_saveGraineSession).mpr (Or.inr rfl), e.symm.trans hye,
          fun hxr => (before y hy e).2 (hyr hxr)⟩
      · exact ⟨y, (mem_saveGraineSession).mpr (Or.inl ⟨hy, e⟩), hye, hyr⟩
    · rw [mem_singleton.mp hx]
      exact ⟨slot.session, (mem_saveGraineSession).mpr (Or.inr rfl), rfl, id⟩

theorem step_returned (h : Inv s)
    {c : Chain.St String} (hi : s.calls i = some ⟨scope, .written slot run⟩)
    (hc : Chain.settle s.chain i = some c) :
    Inv { setCall s i scope .over with chain := c, slots := s.slots ++ [(slot, run)] } := by
  obtain ⟨hst, hof, hct, hlast⟩ : Landed s scope slot := h.phase i _ hi
  have ho := step_over h hi hc
  have call : ∀ j d, Function.update s.calls i (some ⟨scope, .over⟩) j = some d ↔
      (j = i ∧ ⟨scope, .over⟩ = d) ∨ (j ≠ i ∧ s.calls j = some d) := fun j d => update_eq_some_iff
  refine ⟨ho.chain, ho.linked, ho.ids, ho.own, fun j d hj => ?_, ho.draws, fun p hp => ?_, ?_,
    ho.savedSent, ho.savedKept⟩
  · have hold := ho.phase j d hj
    rcases (call j d).mp hj with ⟨_, rfl⟩ | ⟨hne, hj⟩
    · trivial
    · obtain ⟨scope', p⟩ := d
      cases p with
      | written slot' run' =>
        obtain ⟨h1, h2, h3, h4⟩ : Landed s scope' slot' := h.phase j _ hj
        refine ⟨h1, h2, h3, fun q hq he => ?_⟩
        rcases mem_append.mp hq with hq | hq
        · exact h4 q hq he
        · -- two calls with a saved slot of one session are one call
          rw [mem_singleton.mp hq] at he
          have hxy : slot.session = slot'.session := h.ids _ hst _ h1 he
          rw [← hxy] at h2
          exact absurd (one_call h hj hi (live_of (by simp) (by simp)) (live_of (by simp) (by simp)) h2 hof) hne
      | saving slot' run' =>
        exact ready_mono (s := s) (by rfl) (by exact fun _ hq => hq) (by exact fun _ hq => hq) (h.phase j _ hj)
      | _ => exact hold
  · rcases mem_append.mp hp with hp | hp
    · exact h.counted p hp
    · rw [mem_singleton.mp hp]
      exact ⟨slot.session, hst, rfl, slot.index + 1, hct, by simp⟩
  · rw [pairwise_append]
    refine ⟨h.increasing, by simp, fun p hp q hq he => ?_⟩
    rw [mem_singleton.mp hq] at he ⊢
    exact hlast p hp he

theorem inv_step (s : St) (e : Ev) (s' : St) (h : Inv s) (hs : step P s e = some s') : Inv s' := by
  cases e with
  | call scope epoch =>
    simp only [step] at hs
    split at hs
    · cases hs; exact h
    · cases hs; exact step_call h _
  | start i now =>
    simp only [step] at hs
    split at hs
    · rename_i scope hi
      obtain ⟨c, hc, rfl⟩ := map_eq_some_iff.mp hs
      exact step_start h hi hc
    · cases hs
  | loaded i unreadable =>
    simp only [step] at hs
    split at hs
    · rename_i scope now hi; cases hs
      exact inv_body h hi (live_of (by simp) (by simp)) rfl rfl rfl rfl rfl (fun _ hq => hq) (fun _ hq => hq)
        (fun x hx => currentSession_held hx) (by simp [drawnId])
    · cases hs
  | ran i run id seed =>
    simp only [step] at hs
    split at hs
    · rename_i scope now current hi
      exact step_ran h hi hs
    · cases hs
  | endorsed i v2 =>
    simp only [step] at hs
    split at hs
    · rename_i scope draft run hi; cases hs
      obtain ⟨ho, hz, hnr, hu⟩ : Drawn s scope draft := h.phase i _ hi
      exact inv_body h hi (live_of (by simp) (by simp)) rfl rfl rfl rfl rfl (fun _ hq => hq) (fun _ hq => hq)
        ⟨ho, hz, hnr, hu⟩ (fun id hd => Or.inl hd)
    · cases hs
  | distributed i frame =>
    simp only [step] at hs
    split at hs
    · rename_i scope x run hi; cases hs
      exact step_distributed_new h frame hi
    · rename_i scope x a run hi; cases hs
      exact step_distributed_again h frame hi
    · cases hs
  | written i =>
    simp only [step] at hs
    split at hs
    · rename_i scope slot run hi; cases hs
      exact step_written h hi
    · cases hs
  | returned i =>
    simp only [step] at hs
    split at hs
    · rename_i scope slot run hi
      obtain ⟨c, hc, rfl⟩ := map_eq_some_iff.mp hs
      exact step_returned h hi hc
    · cases hs
  | failed i =>
    simp only [step] at hs
    split at hs
    all_goals first
      | (rename_i hi
         obtain ⟨c, hc, rfl⟩ := map_eq_some_iff.mp hs
         exact step_over h hi hc)
      | cases hs
  | cleaned i =>
    obtain ⟨c, hc, rfl⟩ := map_eq_some_iff.mp hs
    exact step_cleaned h hc
  | reload => cases hs; exact step_reload h

theorem inv {P : Platform} (h : (machine P).Reach s) : Inv s :=
  Machine.Reach.invariant (I := Inv) (fun _ h0 => inv_init h0) (inv_step P) h

/-! ## No seal key twice -/

def slotsOf (s : St) (id : String) : List GraineOutboundSlot := (s.slots.map (·.1)).filter (·.session.sessionId == id)

structure SealsOnce (s : St) : Prop where
  distinct : (s.slots.map fun p => (p.1.session.sessionId, p.1.index)).Nodup
  increasing : ∀ id, (slotsOf s id).Pairwise fun a b => a.index < b.index
  below : ∀ p ∈ s.slots, p.1.index < 100
  /-- A session ever saved as re-distributed gives at most 50 slots. -/
  reused : ∀ x ∈ s.saved, Redistributed x → (slotsOf s x.sessionId).length ≤ 50
  /-- Whatever was saved had gone out: a save follows every frame in `sent`. -/
  distributed : ∀ x ∈ s.saved, WasSent s x.sessionId

theorem length_le_of_increasing {l : List Nat} {n : Nat} (hi : l.Pairwise (· < ·))
    (hb : ∀ i ∈ l, i < n) : l.length ≤ n := by
  have hs : l ⊆ List.range n := fun i h => mem_range.mpr (hb i h)
  have hn : l.Nodup := hi.imp fun h => Nat.ne_of_lt h
  simpa using hn.length_le_of_subset hs

theorem slotsOf_increasing (h : Inv s) (id : String) : (slotsOf s id).Pairwise fun a b => a.index < b.index := by
  unfold slotsOf
  rw [pairwise_filter, pairwise_map]
  refine h.increasing.imp fun {p q} hpq hp hq => hpq ?_
  rw [beq_iff_eq] at hp hq
  rw [hp, hq]

/-- Over any interleaving of calls, awaits that fail and reloads, a seal key is handed
    out once: indices of a session increase and stay below 100, a session saved as
    re-distributed gives at most 50, and nothing is saved that did not go out. -/
theorem no_seal_key_twice {P : Platform} {s : St} (h : (machine P).Reach s) : SealsOnce s := by
  have hI := inv h
  refine ⟨?_, slotsOf_increasing hI, fun p hp => ?_, fun x hx hr => ?_, hI.savedSent⟩
  · rw [List.Nodup, pairwise_map]
    refine hI.increasing.imp fun {p q} hpq he => ?_
    have hlt := hpq (congrArg Prod.fst he)
    have heq : p.1.index = q.1.index := congrArg Prod.snd he
    omega
  · obtain ⟨x, hx, _, n, hn, hlt⟩ := hI.counted p hp
    have hcap : n ≤ 100 := (hI.own x hx n hn).2.1
    omega
  · obtain ⟨y, hy, hye, hyr⟩ := hI.savedKept x hx
    -- every slot of the session lies below the count its stored row keeps, which is at most 50
    have hbound : ∀ i ∈ (slotsOf s x.sessionId).map (·.index), i < 50 := by
      intro i hi
      obtain ⟨slot, hslot, rfl⟩ := List.mem_map.mp hi
      obtain ⟨hm, hid⟩ := mem_filter.mp hslot
      obtain ⟨p, hp, rfl⟩ := List.mem_map.mp hm
      obtain ⟨z, hz, hze, n, hn, hlt⟩ := hI.counted p hp
      have hzy : z = y := hI.ids z hz y hy (by rw [hze, hye]; exact beq_iff_eq.mp hid)
      subst hzy
      have hcap : n ≤ 50 := (hI.own z hz n hn).2.2.1 (hyr hr)
      omega
    have hinc : ((slotsOf s x.sessionId).map (·.index)).Pairwise (· < ·) :=
      pairwise_map.mpr (slotsOf_increasing hI x.sessionId)
    simpa using length_le_of_increasing hinc hbound

/-! ## Runs -/

def plain : Platform := ⟨fun x => x, fun _ _ => 0⟩

def nothing : St := ⟨Chain.init, fun _ => none, [], [], [], [], []⟩

def epochOne : GraineRunReading := ⟨"run", 1, "one"⟩
def epochTwo : GraineRunReading := ⟨"run", 2, "two"⟩

def callUnder (i : Nat) (run : GraineRunReading) : List Ev :=
  [.call ⟨"w", "c", "alice"⟩ 0, .start i 0, .loaded i [], .ran i run "id" "seed"]

def mintRun : List Ev :=
  callUnder 0 epochOne ++ [Ev.endorsed 0 ⟨"d", "p", "e", some "k"⟩, .distributed 0 ⟨"g", "x"⟩, .written 0, .returned 0]

/-- The epoch moves inside the run: the second message re-distributes the same session. -/
def redistributeRun : List Ev :=
    mintRun ++ callUnder 1 epochTwo ++ [Ev.distributed 1 ⟨"g", "y"⟩, .written 1, .returned 1]

theorem redistributeRun_seals_once : ∃ s, (machine plain).run nothing redistributeRun = some s ∧
    s.slots.map (fun p => (p.1.session.sessionId, p.1.index, p.1.redistributed)) = [("id", 0, false), ("id", 1, true)] ∧
    SealsOnce s := by
  have hr : ((machine plain).run nothing redistributeRun).map
      (fun s => s.slots.map fun p => (p.1.session.sessionId, p.1.index, p.1.redistributed)) =
      some [("id", 0, false), ("id", 1, true)] := by decide
  obtain ⟨s, hs, hslots⟩ := map_eq_some_iff.mp hr
  have hI : (machine plain).init nothing := ⟨rfl, rfl, rfl, rfl, rfl, rfl, nodup_nil, by simp [nothing]⟩
  exact ⟨s, hs, hslots, no_seal_key_twice (Machine.reach_of_run _ hI hs)⟩

/-- The second message's save is lost after its frame went out, and the next fifty
    readings are of epoch one again. -/
def lostSaveRun : List Ev :=
  mintRun ++ callUnder 1 epochTwo ++ [Ev.distributed 1 ⟨"g", "y"⟩, .failed 1] ++
    (List.range 50).flatMap fun k => callUnder (k + 2) epochOne ++ [Ev.written (k + 2), .returned (k + 2)]

/-- A re-distribution whose save is lost leaves the session stored as never
    re-distributed: it went out twice and gives more than 50 slots. -/
theorem a_lost_save_keeps_the_wider_cap :
    ¬ ∀ s, (machine plain).Reach s → ∀ id, (id, true) ∈ s.sent → (slotsOf s id).length ≤ 50 := by
  intro h
  have hr : ((machine plain).run nothing lostSaveRun).map (fun s => (s.sent, (slotsOf s "id").length)) =
      some ([("id", false), ("id", true)], 51) := by decide +kernel
  obtain ⟨s, hs, he⟩ := map_eq_some_iff.mp hr
  obtain ⟨hsent, hlen⟩ := Prod.mk.inj he
  have hI : (machine plain).init nothing := ⟨rfl, rfl, rfl, rfl, rfl, rfl, nodup_nil, by simp [nothing]⟩
  have hb := h s (Machine.reach_of_run _ hI hs) "id" (by rw [hsent]; simp)
  omega

end Canari.Graine.SessionManager
