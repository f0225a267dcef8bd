/-
  Canari.Graine.IncomingSeeds — storing the seeds that arrive on a distribution group
  (`frontend/src/lib/utils/graine/frameHandler.ts`: `storeIncomingSeed`, `admitNewSession`,
  `seedConflict`, `seedOutsideScope`; `runtime.ts`: the seed cache, the seeds that wait for a
  salon's listing).

  A call reads the held session, from the cache or else from the store, and decides on that
  reading; the endorsement and the save are awaited. Every `await` is an event here, and calls
  run side by side: the drain hands over one frame at a time, but a registration starts every
  seed that waited for its salon without waiting for the one before.

  A copy of a held session may only lower its floor. That holds while no two calls of one session
  overlap (`held_session_kept`); two copies that waited for one listing both read nothing held,
  and the second save replaces the first (`a_second_copy_raises_the_floor`). A call that answers
  a refusal never writes, whatever overlaps.
-/

import Canari.Lib.Machine
import Canari.Lib.Wire
import Canari.Graine.SessionManager

namespace Canari.Graine.IncomingSeeds

open Lib Graine.SessionManager List Option Function

/-! ## The frame -/

structure IncomingSeedV2 where
  minterUserId : String
  minterDeviceId : String
  signingPublicKey : Bytes
  endorsement : Bytes

structure IncomingSeed where
  channelId : String
  sessionId : String
  seed : Bytes
  firstIndex : Nat
  createdAt : Nat
  v2 : Option IncomingSeedV2

inductive DistributionScope where
  | workspace (workspaceId : String)
  | channel (workspaceId channelId : String)
  deriving DecidableEq

def scopeKey : DistributionScope → String
  | .workspace workspaceId => "w:" ++ workspaceId
  | .channel _ channelId => "c:" ++ channelId

def sameScope (a b : DistributionScope) : Bool := scopeKey a == scopeKey b

structure Frame where
  workspaceId : String
  senderId : String
  seed : IncomingSeed
  keyGroupId : String
  scope : DistributionScope

/-! ## Base64 -/

def base64Char (n : Nat) : Char :=
  if n < 26 then Char.ofNat (65 + n)
  else if n < 52 then Char.ofNat (97 + (n - 26))
  else if n < 62 then Char.ofNat (48 + (n - 52))
  else if n = 62 then '+' else '/'

def base64Chars : Bytes → List Char
  | a :: b :: c :: rest =>
    let n := a.toNat * 65536 + b.toNat * 256 + c.toNat
    base64Char (n / 262144) :: base64Char (n / 4096 % 64) :: base64Char (n / 64 % 64) :: base64Char (n % 64) ::
      base64Chars rest
  | [a, b] =>
    let n := a.toNat * 65536 + b.toNat * 256
    [base64Char (n / 262144), base64Char (n / 4096 % 64), base64Char (n / 64 % 64), '=']
  | [a] =>
    let n := a.toNat * 65536
    [base64Char (n / 262144), base64Char (n / 4096 % 64), '=', '=']
  | [] => []

def toBase64 (bytes : Bytes) : String := String.ofList (base64Chars bytes)

/-! ## What a frame contradicts -/

def storedV2From (v2 : IncomingSeedV2) : StoredGraineV2 :=
    ⟨v2.minterDeviceId, toBase64 v2.signingPublicKey, toBase64 v2.endorsement, none⟩

def storedV2Of (seed : IncomingSeed) : Option StoredGraineV2 := seed.v2.map storedV2From

inductive Conflict where
  | community | salon | seed | endorsement

def seedConflict (held : StoredGraineSession) (workspaceId : String) (incoming : IncomingSeed) : Option Conflict :=
  let incomingV2 := storedV2Of incoming
  if held.workspaceId ≠ workspaceId then some .community
  else if held.channelId ≠ incoming.channelId then some .salon
  else if held.seedB64 ≠ toBase64 incoming.seed then some .seed
  else if held.v2.map (·.endorsementB64) ≠ incomingV2.map (·.endorsementB64)
      || held.v2.map (·.signingPublicKeyB64) ≠ incomingV2.map (·.signingPublicKeyB64)
      || held.v2.map (·.minterDeviceId) ≠ incomingV2.map (·.minterDeviceId)
      || incoming.v2.any (fun v2 => held.senderId ≠ v2.minterUserId) then some .endorsement
  else none

inductive Outside where
  | otherSalonGroup | privateSalon | unlisted | notListedYet
  deriving DecidableEq

/-- Strips the `channel_` prefix. -/
def rawChannelId (channelId : String) : String :=
  if "channel_".toList.isPrefixOf channelId.toList then String.ofList (channelId.toList.drop 8) else channelId

inductive EndorsementSource where
  | tree | server
  deriving DecidableEq

inductive EndorsementVerdict where
  | valid (source : EndorsementSource)
  | refused (why : String)
  | unanswered (why : String)

/-- A seed without its minter, key or endorsement is refused before any key is asked; `answer` is
    what the tree or the published keys say of the others. -/
def checkSeedEndorsement (v2 : IncomingSeedV2) (answer : EndorsementVerdict) : EndorsementVerdict :=
  if v2.minterUserId = "" || v2.minterDeviceId = "" || v2.signingPublicKey.isEmpty || v2.endorsement.isEmpty then
    .refused "a v2 seed without its minter, key or endorsement"
  else answer

inductive Outcome where
  | stored (endorsedBy : Option EndorsementSource)
  | alreadyHeld
  | declined
  | v1Refused
  | outOfScope (why : Outside)
  | awaitingListing
  deriving DecidableEq

def Outcome.refused : Outcome → Bool
  | .stored _ | .alreadyHeld => false
  | _ => true

def MAX_SEEDS_AWAITING_LISTING : Nat := 256

/-! ## The machine -/

/-- Where a call stands: at which `await`. -/
inductive Phase where
  | reading
  | endorsing (v2 : IncomingSeedV2)
  | saving (session : StoredGraineSession) (endorsedBy : Option EndorsementSource)
  | written (session : StoredGraineSession) (endorsedBy : Option EndorsementSource)

structure Call where
  frame : Frame
  phase : Phase

structure St where
  store : String → Option StoredGraineSession
  cache : String → Option StoredGraineSession
  scopeByChannel : String → Option DistributionScope
  listedCommunities : List String
  /-- Frames held until their salon is registered, oldest first. -/
  seedsAwaitingListing : List Frame
  calls : Nat → Option Call
  next : Nat
  /-- What each finished call answered. -/
  outcomes : List (Nat × Outcome)
  /-- The rows written, with the call each was written for. -/
  writes : List (Nat × StoredGraineSession)

def seedOutsideScope (s : St) (channelId : String) : DistributionScope → Option Outside
  | .channel _ salon => if rawChannelId channelId = salon then none else some .otherSalonGroup
  | .workspace workspaceId =>
    match s.scopeByChannel (rawChannelId channelId) with
    | none => if s.listedCommunities.contains workspaceId then some .unlisted else some .notListedYet
    | some known => if sameScope known (.workspace workspaceId) then none else some .privateSalon

def answer (s : St) (i : Nat) (o : Outcome) : St :=
  { s with calls := Function.update s.calls i none, outcomes := s.outcomes ++ [(i, o)] }

def await (s : St) (i : Nat) (f : Frame)
    (phase : Phase) : St := { s with calls := Function.update s.calls i (some ⟨f, phase⟩) }

/-- From the reading of what is held to the next `await`. -/
def decideOn (s : St) (i : Nat) (f : Frame) : Option StoredGraineSession → St
  | some existing =>
    if (seedConflict existing f.workspaceId f.seed).isSome then answer s i .declined
    -- our own session, coming back
    else if existing.sentCount.isSome then answer s i .alreadyHeld
    else if existing.firstIndex ≤ f.seed.firstIndex then answer s i .alreadyHeld
    else await s i f (.saving { existing with firstIndex := f.seed.firstIndex } none)
  | none =>
    match seedOutsideScope s f.seed.channelId f.scope with
    | some .otherSalonGroup => answer s i (.outOfScope .otherSalonGroup)
    | some .privateSalon => answer s i (.outOfScope .privateSalon)
    | some .unlisted =>
      if s.seedsAwaitingListing.length ≥ MAX_SEEDS_AWAITING_LISTING then answer s i .declined
      else answer { s with seedsAwaitingListing := s.seedsAwaitingListing ++ [f] } i .awaitingListing
    | some .notListedYet | none =>
      match f.seed.v2 with
      | none => answer s i .v1Refused
      | some v2 => await s i f (.endorsing v2)

def malformed (seed : IncomingSeed) : Bool := seed.sessionId = "" || seed.seed.isEmpty || seed.channelId = ""

/-- A call, up to its first `await`. -/
def storeIncomingSeed (s : St) (f : Frame) : St :=
  let i := s.next
  let s := { s with next := s.next + 1 }
  if malformed f.seed then answer s i .declined
  else
    match s.cache f.seed.sessionId with
    | some existing => decideOn s i f (some existing)
    | none => await s i f .reading

/-- The session of a seed nobody holds yet, recorded under the minter its endorsement names. -/
def newSession (f : Frame) (v2 : IncomingSeedV2) (now : Int) : StoredGraineSession where
  workspaceId := f.workspaceId
  channelId := f.seed.channelId
  sessionId := f.seed.sessionId
  senderId := v2.minterUserId
  seedB64 := toBase64 f.seed.seed
  firstIndex := f.seed.firstIndex
  createdAt := if f.seed.createdAt = 0 then now else f.seed.createdAt
  sentCount := none
  distributionEpoch := none
  rotationAnchor := none
  distributionFrame := none
  v2 := some (storedV2From v2)

def waitingFor (s : St) (channel : String) : List Frame :=
    s.seedsAwaitingListing.filter fun f => rawChannelId f.seed.channelId = channel

def releaseSeedsAwaitingListing (s : St) (channel : String) (isPrivate : Bool) : St :=
  let waiting := waitingFor s channel
  let s := { s with seedsAwaitingListing :=
    s.seedsAwaitingListing.filter fun f => rawChannelId f.seed.channelId ≠ channel }
  if isPrivate then s else waiting.foldl storeIncomingSeed s

def registerChannelWorkspace (s : St) (channelId workspaceId : String) (isPrivate : Bool) : St :=
  let channel := rawChannelId channelId
  let scope := if isPrivate then .channel workspaceId channel else .workspace workspaceId
  releaseSeedsAwaitingListing { s with scopeByChannel := Function.update s.scopeByChannel channel (some scope) } channel isPrivate

inductive Ev where
  | arrive (f : Frame)
  /-- The store answers a call's read. -/
  | read (i : Nat)
  | verdict (i : Nat) (v : EndorsementVerdict) (now : Int)
  /-- The row of a call's save is written. -/
  | write (i : Nat)
  /-- The save returns: the session is cached, the call answers. -/
  | saved (i : Nat)
  /-- What a call awaits throws; a save that throws has written nothing. -/
  | fail (i : Nat)
  | register (channelId workspaceId : String) (isPrivate : Bool)
  | markCommunityListed (workspaceId : String)

def step (s : St) : Ev → Option St
  | .arrive f => some (storeIncomingSeed s f)
  | .read i =>
    match s.calls i with
    | some ⟨f, .reading⟩ =>
      let existing := s.store f.seed.sessionId
      let s := match existing with
        | some x => { s with cache := Function.update s.cache x.sessionId (some x) }
        | none => s
      some (decideOn s i f existing)
    | _ => none
  | .verdict i v now =>
    match s.calls i with
    | some ⟨f, .endorsing v2⟩ =>
      match checkSeedEndorsement v2 v with
      | .valid source => some (await s i f (.saving (newSession f v2 now) (some source)))
      | _ => some (answer s i .declined)
    | _ => none
  | .write i =>
    match s.calls i with
    | some ⟨f, .saving session endorsedBy⟩ =>
      some { await s i f (.written session endorsedBy) with
        store := Function.update s.store session.sessionId (some session), writes := s.writes ++ [(i, session)] }
    | _ => none
  | .saved i =>
    match s.calls i with
    | some ⟨_, .written session endorsedBy⟩ =>
      some (answer { s with cache := Function.update s.cache session.sessionId (some session) } i (.stored endorsedBy))
    | _ => none
  | .fail i =>
    match s.calls i with
    | some ⟨_, .reading⟩ | some ⟨_, .endorsing _⟩ | some ⟨_, .saving _ _⟩ =>
        some { s with calls := Function.update s.calls i none }
    | _ => none
  | .register channelId workspaceId isPrivate => some (registerChannelWorkspace s channelId workspaceId isPrivate)
  | .markCommunityListed workspaceId => some { s with listedCommunities := workspaceId :: s.listedCommunities }

/-- A session newly wired: nothing cached, nothing waiting; the store holds whatever it holds. -/
def Init (s : St) : Prop :=
  s.cache = (fun _ => none) ∧ s.seedsAwaitingListing = [] ∧ s.calls = (fun _ => none) ∧ s.next = 0 ∧ s.outcomes = [] ∧
    s.writes = [] ∧
    ∀ id x, s.store id = some x → x.sessionId = id

def machine : Machine St Ev := ⟨Init, step⟩

def inFlight (s : St) (id : String) : Bool :=
    (List.range s.next).any fun i => (s.calls i).any fun c => c.frame.seed.sessionId == id

def apart (s : St) : Ev → Bool
  | .arrive f => !inFlight s f.seed.sessionId
  | .register channelId _ isPrivate =>
    let ids := (waitingFor s (rawChannelId channelId)).map (·.seed.sessionId)
    isPrivate || (ids.Nodup && ids.all fun id => !inFlight s id)
  | _ => true

/-! ## What a step does -/

section Calls

variable {s : St} {i j : Nat} {f : Frame} {p : Phase} {o : Outcome}

@[simp] theorem answer_self : (answer s i o).calls i = none := update_self _ _ _

theorem answer_ne (h : j ≠ i) : (answer s i o).calls j = s.calls j := update_of_ne h _ _

@[simp] theorem await_self : (await s i f p).calls i = some ⟨f, p⟩ := update_self _ _ _

theorem await_ne (h : j ≠ i) : (await s i f p).calls j = s.calls j := update_of_ne h _ _

end Calls

theorem decideOn_cases (s : St) (i : Nat) (f : Frame) (existing : Option StoredGraineSession) :
    (∃ waiting o, decideOn s i f existing = answer { s with seedsAwaitingListing := waiting } i o) ∨ ∃ p,
      decideOn s i f existing = await s i f p := by
  cases existing with
  | some existing =>
    unfold decideOn
    dsimp only
    split
    · exact .inl ⟨_, _, rfl⟩
    · split
      · exact .inl ⟨_, _, rfl⟩
      · split
        · exact .inl ⟨_, _, rfl⟩
        · exact .inr ⟨_, rfl⟩
  | none =>
    unfold decideOn
    dsimp only
    split
    · exact .inl ⟨_, _, rfl⟩
    · exact .inl ⟨_, _, rfl⟩
    · split
      · exact .inl ⟨_, _, rfl⟩
      · exact .inl ⟨_, _, rfl⟩
    · split
      · exact .inl ⟨_, _, rfl⟩
      · exact .inr ⟨_, rfl⟩
    · split
      · exact .inl ⟨_, _, rfl⟩
      · exact .inr ⟨_, rfl⟩

theorem storeIncomingSeed_cases (s : St) (f : Frame) :
    (∃ waiting o, storeIncomingSeed s f = answer
      { s with next := s.next + 1, seedsAwaitingListing := waiting } s.next o) ∨
      ∃ p, storeIncomingSeed s f = await { s with next := s.next + 1 } s.next f p := by
  unfold storeIncomingSeed
  dsimp only
  split
  · exact .inl ⟨_, _, rfl⟩
  · split
    · exact decideOn_cases _ _ _ _
    · exact .inr ⟨_, rfl⟩

/-! ## A refusal writes nothing -/

def Unwritten (c : Call) : Prop := ∀ session b, c.phase ≠ .written session b

structure Books (s : St) : Prop where
  fresh : ∀ i, s.next ≤ i → s.calls i = none ∧ ∀ y, (i, y) ∉ s.writes
  answered : ∀ i o, (i, o) ∈ s.outcomes → i < s.next ∧ s.calls i = none
  unwritten : ∀ i c, s.calls i = some c → Unwritten c → ∀ y, (i, y) ∉ s.writes
  refused : ∀ i o, (i, o) ∈ s.outcomes → o.refused = true → ∀ y, (i, y) ∉ s.writes

section Books

variable {s s' : St} {i : Nat} {f : Frame} {phase : Phase} {o : Outcome} {e : Ev}

/-- A call that has written nothing answers anything, one that has only what is no refusal. -/
theorem Books.answer (h : Books s) (hi : i < s.next)
    (ho : o.refused = true → ∀ y, (i, y) ∉ s.writes) : Books (answer s i o) := by
  refine ⟨fun j hj => ?_, fun j o' hj => ?_, fun j c hj hu => ?_, fun j o' hj hr => ?_⟩
  · obtain ⟨h1, h2⟩ := h.fresh j hj
    have hne : j ≠ i := by
      have hj' : s.next ≤ j := hj
      omega
    exact ⟨(update_of_ne hne _ _).trans h1, h2⟩
  · rcases mem_append.mp hj with hj | hj
    · obtain ⟨h1, h2⟩ := h.answered j o' hj
      refine ⟨h1, ?_⟩
      by_cases e : j = i
      · subst e; exact update_self _ _ _
      · exact (update_of_ne e _ _).trans h2
    · cases mem_singleton.mp hj
      exact ⟨hi, update_self _ _ _⟩
  · by_cases e : j = i
    · subst e
      rw [answer_self] at hj
      cases hj
    · exact h.unwritten j c ((update_of_ne e _ _).symm.trans hj) hu
  · rcases mem_append.mp hj with hj | hj
    · exact h.refused j o' hj hr
    · cases mem_singleton.mp hj
      exact ho hr

theorem Books.await (h : Books s) (hi : i < s.next) (hfree : ∀ o, (i, o) ∉ s.outcomes) (hw : ∀ y, (i, y) ∉ s.writes) :
    Books (await s i f phase) := by
  refine ⟨fun j hj => ?_, fun j o' hj => ?_, fun j c hj hu => ?_, fun j o' hj hr => h.refused j o' hj hr⟩
  · obtain ⟨h1, h2⟩ := h.fresh j hj
    have hne : j ≠ i := by
      have hj' : s.next ≤ j := hj
      omega
    exact ⟨(update_of_ne hne _ _).trans h1, h2⟩
  · have hne : j ≠ i := by
      rintro rfl
      exact hfree o' hj
    obtain ⟨h1, h2⟩ := h.answered j o' hj
    exact ⟨h1, (update_of_ne hne _ _).trans h2⟩
  · by_cases e : j = i
    · subst e; exact hw
    · exact h.unwritten j c ((update_of_ne e _ _).symm.trans hj) hu

theorem Books.of_eq (h : Books s) (hc : s'.calls = s.calls) (hn : s'.next = s.next) (ho : s'.outcomes = s.outcomes)
    (hw : s'.writes = s.writes) :
    Books s' := by
  refine ⟨?_, ?_, ?_, ?_⟩
  · rw [hc, hn, hw]; exact h.fresh
  · rw [hc, hn, ho]; exact h.answered
  · rw [hc, hw]; exact h.unwritten
  · rw [ho, hw]; exact h.refused

theorem Books.decideOn (h : Books s) (hi : i < s.next) (hfree : ∀ o, (i, o) ∉ s.outcomes) (hw : ∀ y, (i, y) ∉ s.writes)
    (existing : Option StoredGraineSession) : Books (decideOn s i f existing) := by
  cases existing with
  | some existing =>
    unfold IncomingSeeds.decideOn
    dsimp only
    split
    · exact h.answer hi fun _ => hw
    · split
      · exact h.answer hi fun _ => hw
      · split
        · exact h.answer hi fun _ => hw
        · exact h.await hi hfree hw
  | none =>
    unfold IncomingSeeds.decideOn
    dsimp only
    split
    · exact h.answer hi fun _ => hw
    · exact h.answer hi fun _ => hw
    · split
      · exact h.answer hi fun _ => hw
      · have hpush : Books { s with seedsAwaitingListing := s.seedsAwaitingListing ++ [f] } := h.of_eq rfl rfl rfl rfl
        exact hpush.answer hi fun _ => hw
    · split
      · exact h.answer hi fun _ => hw
      · exact h.await hi hfree hw
    · split
      · exact h.answer hi fun _ => hw
      · exact h.await hi hfree hw

theorem Books.storeIncomingSeed (h : Books s) (f : Frame) : Books (storeIncomingSeed s f) := by
  have hnew : Books { s with next := s.next + 1 } := by
    refine ⟨fun j hj => h.fresh j (Nat.le_of_succ_le hj), fun j o hj => ?_, h.unwritten, h.refused⟩
    obtain ⟨h1, h2⟩ := h.answered j o hj
    exact ⟨Nat.lt_succ_of_lt h1, h2⟩
  have hfree : ∀ o, (s.next, o) ∉ s.outcomes := fun o ho => absurd (h.answered _ o ho).1 (Nat.lt_irrefl _)
  have hw := (h.fresh s.next (Nat.le_refl _)).2
  have hi : s.next < s.next + 1 := Nat.lt_succ_self _
  unfold IncomingSeeds.storeIncomingSeed
  dsimp only
  split
  · exact hnew.answer hi fun _ => hw
  · split
    · exact hnew.decideOn hi hfree hw _
    · exact hnew.await hi hfree hw

theorem Books.foldl (h : Books s) (frames : List Frame) : Books (frames.foldl IncomingSeeds.storeIncomingSeed s) := by
  induction frames generalizing s with
  | nil => exact h
  | cons f rest ih => exact ih (h.storeIncomingSeed f)

theorem Books.register (h : Books s) (channelId workspaceId : String) (isPrivate : Bool) :
    Books (registerChannelWorkspace s channelId workspaceId isPrivate) := by
  unfold registerChannelWorkspace releaseSeedsAwaitingListing
  split
  · exact h.of_eq rfl rfl rfl rfl
  · refine Books.foldl ?_ _
    exact h.of_eq rfl rfl rfl rfl

/-- A call that awaits something has a number, has not answered, and writes once. -/
theorem Books.call (h : Books s) {c : Call} (hc : s.calls i = some c) : i < s.next ∧ ∀ o, (i, o) ∉ s.outcomes := by
  constructor
  · by_contra hn
    rw [(h.fresh i (Nat.le_of_not_lt hn)).1] at hc
    cases hc
  · intro o ho
    rw [(h.answered i o ho).2] at hc
    cases hc

theorem Books.write (h : Books s) {session : StoredGraineSession} {b : Option EndorsementSource}
    (hc : s.calls i = some ⟨f, .saving session b⟩)
    (store : String → Option StoredGraineSession) :
    Books { IncomingSeeds.await s i f (.written session b) with store := store, writes :=
      s.writes ++ [(i, session)] } := by
  obtain ⟨hi, hfree⟩ := h.call hc
  refine ⟨fun j hj => ?_, fun j o hj => ?_, fun j c hj hu y hy => ?_, fun j o hj hr y hy => ?_⟩
  · have hne : j ≠ i := by
      have hj' : s.next ≤ j := hj
      omega
    obtain ⟨h1, h2⟩ := h.fresh j hj
    refine ⟨(update_of_ne hne _ _).trans h1, fun y hy => ?_⟩
    rcases mem_append.mp hy with hy | hy
    · exact h2 y hy
    · cases mem_singleton.mp hy
      exact hne rfl
  · have hne : j ≠ i := by
      rintro rfl
      exact hfree o hj
    obtain ⟨h1, h2⟩ := h.answered j o hj
    exact ⟨h1, (update_of_ne hne _ _).trans h2⟩
  · by_cases e : j = i
    · subst e
      cases (await_self).symm.trans hj
      exact hu session b rfl
    · rcases mem_append.mp hy with hy | hy
      · exact h.unwritten j c ((update_of_ne e _ _).symm.trans hj) hu y hy
      · cases mem_singleton.mp hy
        exact e rfl
  · have hne : j ≠ i := by
      rintro rfl
      exact hfree o hj
    rcases mem_append.mp hy with hy | hy
    · exact h.refused j o hj hr y hy
    · cases mem_singleton.mp hy
      exact hne rfl

theorem Books.fail (h : Books s) (i : Nat) : Books { s with calls := Function.update s.calls i none } := by
  refine ⟨fun j hj => ?_, fun j o hj => ?_, fun j c hj hu => ?_, h.refused⟩
  · obtain ⟨h1, h2⟩ := h.fresh j hj
    refine ⟨?_, h2⟩
    by_cases e : j = i
    · subst e; exact update_self _ _ _
    · exact (update_of_ne e _ _).trans h1
  · obtain ⟨h1, h2⟩ := h.answered j o hj
    refine ⟨h1, ?_⟩
    by_cases e : j = i
    · subst e; exact update_self _ _ _
    · exact (update_of_ne e _ _).trans h2
  · by_cases e : j = i
    · subst e
      cases (show ({ s with calls := Function.update s.calls j none } : St).calls j = none
        from update_self _ _ _).symm.trans hj
    · exact h.unwritten j c ((update_of_ne e _ _).symm.trans hj) hu

end Books

/-- What an event does, by the call it is about. -/
theorem step_cases {s s' : St} {e : Ev} (h : step s e = some s') :
    (∃ f, e = .arrive f ∧ s' = storeIncomingSeed s f) ∨
    (∃ i f, e = .read i ∧ s.calls i = some ⟨f, .reading⟩ ∧
      ((s.store f.seed.sessionId = none ∧ s' = decideOn s i f none) ∨
        ∃ x, s.store f.seed.sessionId = some x ∧
          s' = decideOn { s with cache := Function.update s.cache x.sessionId (some x) } i f (some x))) ∨
    (∃ i v now f v2, e = .verdict i v now ∧ s.calls i = some ⟨f, .endorsing v2⟩ ∧
      ((∃ source, s' = await s i f (.saving (newSession f v2 now) (some source))) ∨ s' = answer s i .declined)) ∨
    (∃ i f session b, e = .write i ∧ s.calls i = some ⟨f, .saving session b⟩ ∧
      s' = { await s i f (.written session b) with
        store := Function.update s.store session.sessionId (some session), writes := s.writes ++ [(i, session)] }) ∨
    (∃ i f session b, e = .saved i ∧ s.calls i = some ⟨f, .written session b⟩ ∧
      s' = answer { s with cache := Function.update s.cache session.sessionId (some session) } i (.stored b)) ∨
    (∃ i c, e = .fail i ∧ s.calls i = some c ∧ Unwritten c ∧ s' = { s with calls := Function.update s.calls i none }) ∨
    (∃ channelId workspaceId isPrivate, e = .register channelId workspaceId isPrivate ∧
      s' = registerChannelWorkspace s channelId workspaceId isPrivate) ∨
    (∃ workspaceId, e = .markCommunityListed workspaceId ∧
      s' = { s with listedCommunities := workspaceId :: s.listedCommunities }) := by
  cases e with
  | arrive f => cases h; exact .inl ⟨f, rfl, rfl⟩
  | read i =>
    refine .inr (.inl ?_)
    dsimp only [step] at h
    split at h
    · next f hc =>
      cases hx : s.store f.seed.sessionId with
      | none => rw [hx] at h; cases h; exact ⟨i, f, rfl, hc, .inl ⟨hx, rfl⟩⟩
      | some x => rw [hx] at h; cases h; exact ⟨i, f, rfl, hc, .inr ⟨x, hx, rfl⟩⟩
    · cases h
  | verdict i v now =>
    refine .inr (.inr (.inl ?_))
    dsimp only [step] at h
    split at h
    · next f v2 hc =>
      refine ⟨i, v, now, f, v2, rfl, hc, ?_⟩
      split at h
      · next source _ => cases h; exact .inl ⟨source, rfl⟩
      · cases h; exact .inr rfl
    · cases h
  | write i =>
    refine .inr (.inr (.inr (.inl ?_)))
    dsimp only [step] at h
    split at h
    · next f session b hc => cases h; exact ⟨i, f, session, b, rfl, hc, rfl⟩
    · cases h
  | saved i =>
    refine .inr (.inr (.inr (.inr (.inl ?_))))
    dsimp only [step] at h
    split at h
    · next f session b hc => cases h; exact ⟨i, f, session, b, rfl, hc, rfl⟩
    · cases h
  | fail i =>
    refine .inr (.inr (.inr (.inr (.inr (.inl ?_)))))
    dsimp only [step] at h
    split at h
    · next f hc => cases h; exact ⟨i, _, rfl, hc, fun _ _ => nofun, rfl⟩
    · next f v2 hc => cases h; exact ⟨i, _, rfl, hc, fun _ _ => nofun, rfl⟩
    · next f session b hc => cases h; exact ⟨i, _, rfl, hc, fun _ _ => nofun, rfl⟩
    · cases h
  | register channelId workspaceId isPrivate =>
    cases h
    exact .inr (.inr (.inr (.inr (.inr (.inr (.inl ⟨channelId, workspaceId, isPrivate, rfl, rfl⟩))))))
  | markCommunityListed workspaceId =>
    cases h
    exact .inr (.inr (.inr (.inr (.inr (.inr (.inr ⟨workspaceId, rfl, rfl⟩))))))

theorem step_books {s s' : St} {e : Ev} (hb : Books s) (h : step s e = some s') : Books s' := by
  rcases step_cases h with ⟨f, -, rfl⟩ | ⟨i, f, -, hc, hread⟩ | ⟨i, v, now, f, v2, -, hc, hv⟩ | ⟨i, f, session,
    b, -, hc, rfl⟩ |
    ⟨i, f, session, b, -, hc, rfl⟩ | ⟨i, c, -, -, -, rfl⟩ | ⟨channelId, workspaceId, isPrivate, -,
      rfl⟩ | ⟨workspaceId, -, rfl⟩
  · exact hb.storeIncomingSeed f
  · obtain ⟨hi, hfree⟩ := hb.call hc
    have hw := hb.unwritten i _ hc fun _ _ => nofun
    rcases hread with ⟨-, rfl⟩ | ⟨x, -, rfl⟩
    · exact hb.decideOn hi hfree hw none
    · have hcache : Books { s with cache := Function.update s.cache x.sessionId (some x) } := hb.of_eq rfl rfl rfl rfl
      exact hcache.decideOn hi hfree hw (some x)
  · obtain ⟨hi, hfree⟩ := hb.call hc
    have hw := hb.unwritten i _ hc fun _ _ => nofun
    rcases hv with ⟨source, rfl⟩ | rfl
    · exact hb.await hi hfree hw
    · exact hb.answer hi fun _ => hw
  · exact hb.write hc _
  · have hcache : Books { s with cache := Function.update s.cache session.sessionId (some session) } :=
      hb.of_eq rfl rfl rfl rfl
    exact hcache.answer (hb.call hc).1 nofun
  · exact hb.fail i
  · exact hb.register channelId workspaceId isPrivate
  · exact hb.of_eq rfl rfl rfl rfl

/-! ## What a call knows of the session it is about -/

/-- `y` is `x` at the same floor or a lower one. -/
structure Lowers (x y : StoredGraineSession) : Prop where
  same : y = { x with firstIndex := y.firstIndex }
  floor : y.firstIndex ≤ x.firstIndex

theorem Lowers.refl (x : StoredGraineSession) : Lowers x x := ⟨rfl, Nat.le_refl _⟩

theorem Lowers.trans {x y z : StoredGraineSession} (h : Lowers x y) (h' : Lowers y z) : Lowers x z := by
  refine ⟨?_, Nat.le_trans h'.floor h.floor⟩
  have hz := h'.same
  rw [h.same] at hz
  exact hz

def PhaseOk (s : St) (f : Frame) : Phase → Prop
  | .reading => True
  | .endorsing _ => s.store f.seed.sessionId = none
  | .saving session _ => session.sessionId = f.seed.sessionId ∧ ∀ x, s.store f.seed.sessionId = some x → Lowers x session
  | .written session _ => session.sessionId = f.seed.sessionId ∧ s.store f.seed.sessionId = some session

theorem PhaseOk.congr {s s' : St} {f : Frame} {p : Phase} (h : PhaseOk s f p)
    (hst : s'.store f.seed.sessionId = s.store f.seed.sessionId) :
    PhaseOk s' f p := by
  cases p with
  | reading => trivial
  | endorsing v2 => exact hst.trans h
  | saving session b => exact ⟨h.1, fun x hx => h.2 x (hst.symm.trans hx)⟩
  | written session b => exact ⟨h.1, hst.trans h.2⟩

/-- One call per session, and what it has read is still so. -/
structure Inv (s : St) : Prop where
  fresh : ∀ i, s.next ≤ i → s.calls i = none
  one : ∀ i j c d, s.calls i = some c → s.calls j = some d → c.frame.seed.sessionId = d.frame.seed.sessionId → i = j
  keyed : ∀ id x, s.store id = some x → x.sessionId = id
  /-- The cache is the store, but for a session whose save has not returned. -/
  cached : ∀ id x, s.cache id = some x → s.store id = some x ∨
    ∃ i f session b, s.calls i = some ⟨f, .written session b⟩ ∧ f.seed.sessionId = id
  phase : ∀ i f p, s.calls i = some ⟨f, p⟩ → PhaseOk s f p

section Inv

variable {s s' : St} {i : Nat} {f : Frame} {p : Phase} {o : Outcome} {e : Ev}

theorem inFlight_eq_false (h : Inv s) {id : String} (hf : inFlight s id = false) {j : Nat} {c : Call}
    (hc : s.calls j = some c) :
    c.frame.seed.sessionId ≠ id := by
  intro hid
  have hj : j < s.next := by
    by_contra hn
    rw [h.fresh j (Nat.le_of_not_lt hn)] at hc
    cases hc
  have hany : inFlight s id = true := by
    refine List.any_eq_true.mpr ⟨j, mem_range.mpr hj, ?_⟩
    rw [hc]
    exact beq_iff_eq.mpr hid
  rw [hf] at hany
  cases hany

/-- A call answers: the others stand where they stood. -/
theorem Inv.answer (h : Inv s) (hi : ∀ f session b, s.calls i = some ⟨f, .written session b⟩ →
    ∀ x, s.cache f.seed.sessionId = some x → s.store f.seed.sessionId = some x) : Inv (answer s i o) := by
  have hcalls : ∀ {j : Nat} {c : Call}, (IncomingSeeds.answer s i o).calls j = some c → j ≠ i ∧ s.calls j = some c := by
    intro j c hj
    by_cases e : j = i
    · subst e
      rw [answer_self] at hj
      cases hj
    · exact ⟨e, (update_of_ne e _ _).symm.trans hj⟩
  refine ⟨fun j hj => ?_, fun j k c d hj hk => h.one j k c d (hcalls hj).2 (hcalls hk).2, h.keyed, fun id x hx => ?_,
    fun j g q hj => h.phase j g q (hcalls hj).2⟩
  · by_cases e : j = i
    · subst e; exact update_self _ _ _
    · exact (update_of_ne e _ _).trans (h.fresh j hj)
  · rcases h.cached id x hx with hs | ⟨j, g, session, b, hj, rfl⟩
    · exact .inl hs
    · by_cases e : j = i
      · subst e
        exact .inl (hi g session b hj x hx)
      · exact .inr ⟨j, g, session, b, (update_of_ne e _ _).trans hj, rfl⟩

/-- A call comes to its next `await`, the only call of its session. -/
theorem Inv.await (h : Inv s) (hi : i < s.next)
    (halone : ∀ j c, s.calls j = some c → c.frame.seed.sessionId = f.seed.sessionId → j = i)
    (hp : PhaseOk s f p) (hunwritten : ∀ g session b, s.calls i ≠ some ⟨g, .written session b⟩) :
    Inv (await s i f p) := by
  have hcalls : ∀ {j : Nat} {c : Call}, (IncomingSeeds.await s i f p).calls j = some c → (j = i ∧ c = ⟨f, p⟩) ∨
    (j ≠ i ∧ s.calls j = some c) := by
    intro j c hj
    by_cases e : j = i
    · subst e
      cases await_self.symm.trans hj
      exact .inl ⟨rfl, rfl⟩
    · exact .inr ⟨e, (update_of_ne e _ _).symm.trans hj⟩
  refine ⟨fun j hj => ?_, fun j k c d hj hk hid => ?_, h.keyed, fun id x hx => ?_, fun j g q hj => ?_⟩
  · have hne : j ≠ i := by
      have hj' : s.next ≤ j := hj
      omega
    exact (update_of_ne hne _ _).trans (h.fresh j hj)
  · rcases hcalls hj with ⟨hji, hc⟩ | ⟨-, hj'⟩
    · rcases hcalls hk with ⟨hki, -⟩ | ⟨-, hk'⟩
      · rw [hji, hki]
      · rw [hc] at hid
        rw [hji, halone k d hk' hid.symm]
    · rcases hcalls hk with ⟨hki, hd⟩ | ⟨-, hk'⟩
      · rw [hd] at hid
        rw [hki, halone j c hj' hid]
      · exact h.one j k c d hj' hk' hid
  · rcases h.cached id x hx with hs | ⟨j, g, session, b, hj, rfl⟩
    · exact .inl hs
    · have hne : j ≠ i := by
        rintro rfl
        exact hunwritten g session b hj
      exact .inr ⟨j, g, session, b, (update_of_ne hne _ _).trans hj, rfl⟩
  · rcases hcalls hj with ⟨-, e⟩ | ⟨-, hj⟩
    · cases e; exact hp
    · exact h.phase j g q hj

theorem Inv.of_eq (h : Inv s) (hst : s'.store = s.store) (hca : s'.cache = s.cache) (hc : s'.calls = s.calls)
    (hn : s'.next = s.next) : Inv s' := by
  refine ⟨?_, ?_, ?_, ?_, ?_⟩
  · rw [hc, hn]; exact h.fresh
  · rw [hc]; exact h.one
  · rw [hst]; exact h.keyed
  · rw [hst, hca, hc]; exact h.cached
  · intro i f p hp
    rw [hc] at hp
    exact (h.phase i f p hp).congr (by rw [hst])

/-- A call decides on what the store holds of its session. -/
theorem Inv.decideOn (h : Inv s) (hi : i < s.next)
    (halone : ∀ j c, s.calls j = some c → c.frame.seed.sessionId = f.seed.sessionId → j = i)
    (hunwritten : ∀ g session b, s.calls i ≠ some ⟨g, .written session b⟩) :
    Inv (decideOn s i f (s.store f.seed.sessionId)) := by
  have hanswer : ∀ o, Inv (IncomingSeeds.answer s i o) :=
    fun o => h.answer fun g session b hc => absurd hc (hunwritten g session b)
  cases hx : s.store f.seed.sessionId with
  | some existing =>
    unfold IncomingSeeds.decideOn
    dsimp only
    split
    · exact hanswer _
    · split
      · exact hanswer _
      · split
        · exact hanswer _
        · next hfloor =>
          refine h.await hi halone ⟨h.keyed _ existing hx, fun x hx' => ?_⟩ hunwritten
          cases hx.symm.trans hx'
          exact ⟨rfl, Nat.le_of_lt (Nat.lt_of_not_le hfloor)⟩
  | none =>
    have hpush : Inv { s with seedsAwaitingListing := s.seedsAwaitingListing ++ [f] } := h.of_eq rfl rfl rfl rfl
    unfold IncomingSeeds.decideOn
    dsimp only
    split
    · exact hanswer _
    · exact hanswer _
    · split
      · exact hanswer _
      · exact hpush.answer fun g session b hc => absurd hc (hunwritten g session b)
    · split
      · exact hanswer _
      · exact h.await hi halone hx hunwritten
    · split
      · exact hanswer _
      · exact h.await hi halone hx hunwritten

theorem Inv.storeIncomingSeed (h : Inv s) (hf : inFlight s f.seed.sessionId = false) : Inv (storeIncomingSeed s f) := by
  have hnew : Inv { s with next := s.next + 1 } :=
    ⟨fun j hj => h.fresh j (Nat.le_of_succ_le hj), h.one, h.keyed, h.cached, h.phase⟩
  have hfree : s.calls s.next = none := h.fresh _ (Nat.le_refl _)
  have halone : ∀ j c, s.calls j = some c → c.frame.seed.sessionId = f.seed.sessionId → j = s.next :=
    fun j c hc hid => absurd hid (inFlight_eq_false h hf hc)
  have hunwritten : ∀ g session b, s.calls s.next ≠ some ⟨g, .written session b⟩ := by
    intro g session b hc
    rw [hfree] at hc
    cases hc
  unfold IncomingSeeds.storeIncomingSeed
  dsimp only
  split
  · exact hnew.answer fun g session b hc => absurd hc (hunwritten g session b)
  · split
    · next existing hcache =>
      have hstore : s.store f.seed.sessionId = some existing := by
        rcases h.cached _ _ hcache with hs | ⟨j, g, session, b, hj, hid⟩
        · exact hs
        · exact absurd hid (inFlight_eq_false h hf hj)
      have hdecide : Inv (IncomingSeeds.decideOn { s with next := s.next + 1 } s.next f (s.store f.seed.sessionId)) :=
        hnew.decideOn (Nat.lt_succ_self _) halone hunwritten
      rw [hstore] at hdecide
      exact hdecide
    · exact hnew.await (Nat.lt_succ_self _) halone trivial hunwritten

theorem inFlight_storeIncomingSeed {id : String} (hid : id ≠ f.seed.sessionId) (h : Inv s)
    (hf : inFlight s id = false) :
    inFlight (storeIncomingSeed s f) id = false := by
  have hcalls : ∀ j c, (IncomingSeeds.storeIncomingSeed s f).calls j = some c → c.frame = f ∨ s.calls j = some c := by
    intro j c hj
    by_cases e : j = s.next
    · subst e
      rcases storeIncomingSeed_cases s f with ⟨waiting, o, hs⟩ | ⟨p, hs⟩
      · rw [hs, answer_self] at hj
        cases hj
      · rw [hs, await_self] at hj
        cases hj
        exact .inl rfl
    · rcases storeIncomingSeed_cases s f with ⟨waiting, o, hs⟩ | ⟨p, hs⟩
      · rw [hs, answer_ne e] at hj
        exact .inr hj
      · rw [hs, await_ne e] at hj
        exact .inr hj
  rw [Bool.eq_false_iff]
  intro hany
  obtain ⟨j, -, hj⟩ := List.any_eq_true.mp hany
  obtain ⟨c, hc, hcid⟩ := (Option.any_eq_true _ _).mp hj
  rcases hcalls j c hc with hframe | hold
  · rw [hframe] at hcid
    exact hid (beq_iff_eq.mp hcid).symm
  · exact inFlight_eq_false h hf hold (beq_iff_eq.mp hcid)

theorem Inv.foldl (h : Inv s) {frames : List Frame} (hnodup : (frames.map (·.seed.sessionId)).Nodup)
    (hfree : ∀ g ∈ frames, inFlight s g.seed.sessionId = false) :
    Inv (frames.foldl IncomingSeeds.storeIncomingSeed s) := by
  induction frames generalizing s with
  | nil => exact h
  | cons g rest ih =>
    obtain ⟨hg, hrest⟩ := nodup_cons.mp (map_cons ▸ hnodup)
    have hfirst := hfree g mem_cons_self
    refine ih (h.storeIncomingSeed hfirst) hrest fun k hk => ?_
    refine inFlight_storeIncomingSeed ?_ h (hfree k (mem_cons_of_mem _ hk))
    intro e
    exact hg (e ▸ mem_map_of_mem hk)

theorem Inv.register (h : Inv s) {channelId workspaceId : String} {isPrivate : Bool}
    (ha : apart s (.register channelId workspaceId isPrivate) = true) :
    Inv (registerChannelWorkspace s channelId workspaceId isPrivate) := by
  unfold registerChannelWorkspace releaseSeedsAwaitingListing
  split
  · exact h.of_eq rfl rfl rfl rfl
  · next hpublic =>
    have hids : ((waitingFor s (rawChannelId channelId)).map (·.seed.sessionId)).Nodup ∧
        ∀ g ∈ waitingFor s (rawChannelId channelId), inFlight s g.seed.sessionId = false := by
      simpa [apart, hpublic] using ha
    refine Inv.foldl ?_ hids.1 hids.2
    exact h.of_eq rfl rfl rfl rfl

/-- The row of a save lands: the other calls are of other sessions. -/
theorem Inv.write (h : Inv s) {session : StoredGraineSession} {b : Option EndorsementSource}
    (hc : s.calls i = some ⟨f, .saving session b⟩) :
    Inv { IncomingSeeds.await s i f (.written session b) with
      store := Function.update s.store session.sessionId (some session), writes := s.writes ++ [(i, session)] } := by
  obtain ⟨hid, -⟩ := h.phase i f _ hc
  have hother : ∀ {j : Nat} {c : Call}, j ≠ i → s.calls j = some c → c.frame.seed.sessionId ≠ session.sessionId := by
    intro j c hne hj e
    exact hne (h.one j i c _ hj hc (e.trans hid))
  refine ⟨fun j hj => ?_, fun j k c d hj hk he => ?_, fun id x hx => ?_, fun id x hx => ?_, fun j g q hj => ?_⟩
  · have hne : j ≠ i := by
      rintro rfl
      rw [h.fresh j hj] at hc
      cases hc
    exact (await_ne hne).trans (h.fresh j hj)
  · by_cases ej : j = i
    · by_cases ek : k = i
      · rw [ej, ek]
      · subst ej
        cases await_self.symm.trans hj
        exact absurd (he.symm.trans hid.symm) (hother ek ((await_ne ek).symm.trans hk))
    · by_cases ek : k = i
      · subst ek
        cases await_self.symm.trans hk
        exact absurd (he.trans hid.symm) (hother ej ((await_ne ej).symm.trans hj))
      · exact h.one j k c d ((await_ne ej).symm.trans hj) ((await_ne ek).symm.trans hk) he
  · by_cases e : id = session.sessionId
    · subst e
      cases (update_self session.sessionId (some session) s.store).symm.trans hx
      rfl
    · exact h.keyed id x ((update_of_ne e _ _).symm.trans hx)
  · by_cases e : id = session.sessionId
    · exact .inr ⟨i, f, session, b, await_self, (e.trans hid).symm⟩
    · rcases h.cached id x hx with hs | ⟨j, g, y, b', hj, hjid⟩
      · exact .inl ((update_of_ne e _ _).trans hs)
      · have hne : j ≠ i := by
          rintro rfl
          cases hc.symm.trans hj
        exact .inr ⟨j, g, y, b', (await_ne hne).trans hj, hjid⟩
  · by_cases e : j = i
    · subst e
      cases await_self.symm.trans hj
      exact ⟨hid, by rw [← hid]; exact update_self _ _ _⟩
    · have hj' := (await_ne e).symm.trans hj
      exact (h.phase j g q hj').congr (update_of_ne (hother e hj') _ _)

theorem step_inv (h : Inv s) (ha : apart s e = true) (hs : step s e = some s') : Inv s' := by
  have hcall : ∀ {i : Nat} {c : Call}, s.calls i = some c →
      i < s.next ∧ ∀ j d, s.calls j = some d → d.frame.seed.sessionId = c.frame.seed.sessionId → j = i := by
    intro i c hc
    refine ⟨?_, fun j d hj hid => h.one j i d c hj hc hid⟩
    by_contra hn
    rw [h.fresh i (Nat.le_of_not_lt hn)] at hc
    cases hc
  rcases step_cases hs with ⟨f, rfl, rfl⟩ | ⟨i, f, rfl, hc, hread⟩ | ⟨i, v, now, f, v2, rfl, hc, hv⟩ | ⟨i, f, session,
    b, rfl, hc, rfl⟩ |
    ⟨i, f, session, b, rfl, hc, rfl⟩ | ⟨i, c, rfl, hc, hu, rfl⟩ | ⟨channelId, workspaceId, isPrivate, rfl,
      rfl⟩ | ⟨workspaceId, rfl, rfl⟩
  · exact h.storeIncomingSeed (by simpa [apart] using ha)
  · obtain ⟨hi, halone⟩ := hcall hc
    have hunwritten : ∀ g session b, s.calls i ≠ some ⟨g, .written session b⟩ :=
      fun g session b hw => nomatch hc.symm.trans hw
    rcases hread with ⟨hx, rfl⟩ | ⟨x, hx, rfl⟩
    · have hdecide := h.decideOn hi halone hunwritten
      rw [hx] at hdecide
      exact hdecide
    · have hcache : Inv { s with cache := Function.update s.cache x.sessionId (some x) } := by
        refine ⟨h.fresh, h.one, h.keyed, fun id y hy => ?_, h.phase⟩
        by_cases e : id = x.sessionId
        · subst e
          cases (update_self x.sessionId (some x) s.cache).symm.trans hy
          exact .inl (by rw [h.keyed _ x hx]; exact hx)
        · exact h.cached id y ((update_of_ne e _ _).symm.trans hy)
      have hdecide := hcache.decideOn hi halone hunwritten
      rw [show ({ s with cache := Function.update s.cache x.sessionId (some x) } : St).store f.seed.sessionId = some x
        from hx] at hdecide
      exact hdecide
  · obtain ⟨hi, halone⟩ := hcall hc
    have hunwritten : ∀ g session b, s.calls i ≠ some ⟨g, .written session b⟩ :=
      fun g session b hw => nomatch hc.symm.trans hw
    rcases hv with ⟨source, rfl⟩ | rfl
    · have hnone : s.store f.seed.sessionId = none := h.phase i f _ hc
      refine h.await hi halone ⟨rfl, fun x hx => ?_⟩ hunwritten
      rw [hnone] at hx
      cases hx
    · exact h.answer fun g session b hw => absurd hw (hunwritten g session b)
  · exact h.write hc
  · obtain ⟨hid, hstore⟩ := h.phase i f _ hc
    have hcache : Inv { s with cache := Function.update s.cache session.sessionId (some session) } := by
      refine ⟨h.fresh, h.one, h.keyed, fun id y hy => ?_, h.phase⟩
      by_cases e : id = session.sessionId
      · exact .inr ⟨i, f, session, b, hc, (e.trans hid).symm⟩
      · exact h.cached id y ((update_of_ne e _ _).symm.trans hy)
    refine hcache.answer fun g y b' hw x hx => ?_
    cases hc.symm.trans hw
    rw [← hid] at hx
    cases (update_self session.sessionId (some session) s.cache).symm.trans hx
    exact hstore
  · have hanswer : Inv (answer s i .declined) := by
      refine h.answer fun g session b hw => ?_
      cases hc.symm.trans hw
      exact absurd rfl (hu session b)
    exact hanswer.of_eq rfl rfl rfl rfl
  · exact h.register ha
  · exact h.of_eq rfl rfl rfl rfl

end Inv

/-! ## What the store keeps -/

section Kept

variable {s s' : St} {e : Ev} {id : String} {x : StoredGraineSession}

theorem storeIncomingSeed_store (s : St) (f : Frame) : (storeIncomingSeed s f).store = s.store := by
  rcases storeIncomingSeed_cases s f with ⟨waiting, o, hs⟩ | ⟨p, hs⟩ <;> rw [hs] <;> rfl

theorem step_store (h : step s e = some s') : s'.store = s.store ∨
    ∃ i f session b, s.calls i = some ⟨f, .saving session b⟩ ∧
      s'.store = Function.update s.store session.sessionId (some session) ∧
      s'.writes = s.writes ++ [(i, session)] := by
  have hdecide : ∀ (t : St) i f existing, (decideOn t i f existing).store = t.store := by
    intro t i f existing
    rcases decideOn_cases t i f existing with ⟨waiting, o, ht⟩ | ⟨p, ht⟩ <;> rw [ht] <;> rfl
  have hfold : ∀ (frames : List Frame) (t : St), (frames.foldl storeIncomingSeed t).store = t.store := by
    intro frames
    induction frames with
    | nil => exact fun t => rfl
    | cons f rest ih => exact fun t => (ih _).trans (storeIncomingSeed_store t f)
  rcases step_cases h with ⟨f, rfl, rfl⟩ | ⟨i, f, rfl, hc, ⟨-, rfl⟩ | ⟨x, -, rfl⟩⟩ | ⟨i, v, now, f, v2, rfl, hc,
    ⟨source, rfl⟩ | rfl⟩ |
    ⟨i, f, session, b, rfl, hc, rfl⟩ | ⟨i, f, session, b, rfl, hc, rfl⟩ | ⟨i, c, rfl, hc, hu, rfl⟩ |
    ⟨channelId, workspaceId, isPrivate, rfl, rfl⟩ | ⟨workspaceId, rfl, rfl⟩
  · exact .inl (storeIncomingSeed_store s f)
  · exact .inl (hdecide _ _ _ _)
  · exact .inl (hdecide _ _ _ _)
  · exact .inl rfl
  · exact .inl rfl
  · exact .inr ⟨i, f, session, b, hc, rfl, rfl⟩
  · exact .inl rfl
  · exact .inl rfl
  · left
    unfold registerChannelWorkspace releaseSeedsAwaitingListing
    split
    · rfl
    · rw [hfold]
  · exact .inl rfl

theorem step_kept (hinv : Inv s) (h : step s e = some s')
    (hx : s.store id = some x) : ∃ y, s'.store id = some y ∧ Lowers x y := by
  rcases step_store h with hsame | ⟨i, f, session, b, hc, hstore, -⟩
  · exact ⟨x, by rw [hsame]; exact hx, .refl x⟩
  · by_cases e : id = session.sessionId
    · subst e
      obtain ⟨hid, hlowers⟩ := hinv.phase i f _ hc
      exact ⟨session, by rw [hstore]; exact update_self _ _ _, hlowers x (by rw [← hid]; exact hx)⟩
    · exact ⟨x, by rw [hstore]; exact (update_of_ne e _ _).trans hx, .refl x⟩

theorem run_kept {es : List Ev} (hinv : Inv s) (hrun : machine.runBy apart s es = some s') (hx : s.store id = some x) :
    ∃ y, s'.store id = some y ∧ Lowers x y := by
  induction es generalizing s x with
  | nil => cases hrun; exact ⟨x, hx, .refl x⟩
  | cons e es ih =>
    obtain ⟨ha, hrun⟩ := ite_none_right_eq_some.mp hrun
    obtain ⟨t, ht, hrest⟩ := bind_eq_some_iff.mp hrun
    obtain ⟨y, hy, hlowers⟩ := step_kept hinv ht hx
    obtain ⟨z, hz, hlowers'⟩ := ih (step_inv hinv ha ht) hrest hy
    exact ⟨z, hz, hlowers.trans hlowers'⟩

theorem reachBy_inv (h : machine.ReachBy (fun s e => apart s e = true) s) : Inv s := by
  refine h.invariant (I := Inv) (fun s h0 => ?_) fun s e s' hi ha he => step_inv hi ha he
  obtain ⟨hcache, -, hcalls, -, -, -, hkeyed⟩ := h0
  refine ⟨?_, ?_, hkeyed, ?_, ?_⟩ <;> simp [hcache, hcalls]

end Kept

theorem reach_books {s : St} (h : machine.Reach s) : Books s := by
  refine h.invariant (I := Books) (fun s h0 => ?_) fun s e s' hb he => step_books hb he
  obtain ⟨-, -, hcalls, -, houtcomes, hwrites, -⟩ := h0
  refine ⟨?_, ?_, ?_, ?_⟩ <;> simp [hcalls, houtcomes, hwrites]

/-- While no two calls of one session overlap, a held session stays as it is but for a floor that only
    goes down, and no call that answers a refusal has written a row. -/
theorem held_session_kept {s s' : St} {es : List Ev} (hs : machine.ReachBy (fun s e => apart s e = true) s)
    (hrun : machine.runBy apart s es = some s') :
    (∀ id x, s.store id = some x → ∃ y, s'.store id = some y ∧ Lowers x y) ∧
    (∀ i o, (i, o) ∈ s'.outcomes → o.refused = true → ∀ y, (i, y) ∉ s'.writes) ∧
    ∀ e t, step s' e = some t → t.writes = s'.writes → t.store = s'.store := by
  refine ⟨fun id x hx => run_kept (reachBy_inv hs) hrun hx, ?_, fun e t ht hw => ?_⟩
  · exact (reach_books (Machine.reachBy_runBy es hs hrun).reach).refused
  · rcases step_store ht with hsame | ⟨i, f, session, b, -, -, hwrites⟩
    · exact hsame
    · rw [hw] at hwrites
      exact absurd (congrArg List.length hwrites) (by simp)

/-! ## Runs -/

def newDevice : St := ⟨fun _ => none, fun _ => none, fun _ => none, [], [], fun _ => none, 0, [], []⟩

theorem newDevice_init : machine.init newDevice := ⟨rfl, rfl, rfl, rfl, rfl, rfl, fun _ _ h => nomatch h⟩

/-- Ada's session `s1` of salon `general`, from some index on. -/
def copyFrom (firstIndex : Nat) (seed : Bytes) : Frame :=
  ⟨"club", "bob", ⟨"general", "s1", seed, firstIndex, 1730000000000, some ⟨"ada", "phone", [1], [2]⟩⟩, "keys",
    .workspace "club"⟩

/-- One after the other: a copy from index 5, one from the start, and one with other bytes. -/
def firstCopy : List Ev := [.arrive (copyFrom 5 [7]), .read 0, .verdict 0 (.valid .tree) 0, .write 0, .saved 0]
def laterCopies : List Ev := [.arrive (copyFrom 0 [7]), .write 1, .saved 1, .arrive (copyFrom 0 [8])]

theorem later_copies_lower_the_floor : ∃ s s', machine.runBy apart newDevice firstCopy = some s ∧
    machine.runBy apart s laterCopies = some s' ∧
    (s'.store "s1").map (fun x => (x.seedB64, x.firstIndex)) = some ("Bw==", 0) ∧
      s'.outcomes = [(0, .stored (some .tree)), (1, .stored none), (2, .declined)] ∧
    (∀ id x, s.store id = some x → ∃ y, s'.store id = some y ∧ Lowers x y) ∧
    (∀ i o, (i, o) ∈ s'.outcomes → o.refused = true → ∀ y, (i, y) ∉ s'.writes) := by
  have hr : ((machine.runBy apart newDevice firstCopy).bind fun s => (machine.runBy apart s laterCopies).map fun s' =>
      ((s'.store "s1").map (fun x => (x.seedB64, x.firstIndex)), s'.outcomes)) =
      some (some ("Bw==", 0), [(0, .stored (some .tree)), (1, .stored none), (2, .declined)]) := by decide
  obtain ⟨s, hs, hr⟩ := bind_eq_some_iff.mp hr
  obtain ⟨s', hs', he⟩ := map_eq_some_iff.mp hr
  obtain ⟨hrow, houtcomes⟩ := Prod.mk.inj he
  have hkept := held_session_kept (Machine.reachBy_of_run _ newDevice_init hs) hs'
  exact ⟨s, s', hs, hs', hrow, houtcomes, hkept.1, hkept.2.1⟩

/-- Two copies wait for the listing of their salon, and its registration starts both. -/
def waitingCopies : List Ev :=
  [.markCommunityListed "club", .arrive (copyFrom 0 [7]), .read 0, .arrive (copyFrom 5 [7]), .read 1, .register "general" "club" false,
    .read 2, .read 3, .verdict 2 (.valid .tree) 0, .verdict 3 (.valid .tree) 0, .write 2]

theorem a_second_copy_raises_the_floor : ¬ ∀ s s' es, machine.Reach s → machine.run s es = some s' →
    ∀ id x, s.store id = some x → ∃ y, s'.store id = some y ∧ Lowers x y := by
  intro h
  have hr : ((machine.run newDevice waitingCopies).bind fun s => (machine.run s [.write 3]).map fun s' =>
      ((s.store "s1").map (·.firstIndex), (s'.store "s1").map (·.firstIndex))) = some (some 0, some 5) := by decide
  obtain ⟨s, hs, hr⟩ := bind_eq_some_iff.mp hr
  obtain ⟨s', hs', he⟩ := map_eq_some_iff.mp hr
  obtain ⟨hbefore, hafter⟩ := Prod.mk.inj he
  obtain ⟨x, hx, hx0⟩ := map_eq_some_iff.mp hbefore
  obtain ⟨y, hy, hlowers⟩ := h s s' _ (Machine.reach_of_run _ newDevice_init hs) hs' "s1" x hx
  rw [hy] at hafter
  have hy5 : y.firstIndex = 5 := some.inj hafter
  have := hlowers.floor
  omega

end Canari.Graine.IncomingSeeds
