/-
  Canari.Graine.AdmissionGate — who may be handed a community's past
  (`frontend/src/lib/utils/graine/admissionGate.ts`).

  A device keeps, for one community, the roots it recorded at its first sync, where and
  when it first saw each voucher of the roster, and the admissions it verified. A verdict
  fixes the key group it is asked with, reads the roster, then, alone on the ledger,
  records roots and observations, verifies the vouchers chain by chain, and judges its
  subject. For every user it needs it asks the MLS layer once for that user's removals
  (`lookup`), in the key group of the verdict. The roster, the tree, the clock, the drain
  and the signatures are the environment's, and so is how a stored voucher decodes.

  The MLS layer merges commits and records departures in every group, drops them past its
  bound, and goes back to a saved state at a load; the server may name a new key group at
  any time (`register`). What the machine remembers beside: every departure ever recorded
  (`recorded`), every group that was the community's (`keyGroups`), and every verdict with
  the departures recorded when it was asked.

  Proved: `proven_only_after_every_removal`, along the runs in which every removal of a
  user looked up is of the verdict's own key group and still kept. A rebuilt key group
  loses the others: `rebuilt_group_forgets_a_removal`.
-/

import Canari.Lib.Machine
import Canari.Mls.DeviceTrust

namespace Canari.Graine.AdmissionGate

open Lib List
open Mls.Identity
open Mls.DeviceTrust

/-! ## The ledger -/

structure AdmissionPlace where
  keyGroupId : String
  epoch : Nat
  deriving DecidableEq

inductive VoucherKind where
  | direct
  | link (expiresAt : Int)
  deriving DecidableEq

structure AdmissionSigner where
  userId : String
  deviceId : String
  deriving DecidableEq

structure AdmissionVoucher where
  kind : VoucherKind
  workspaceId : String
  subjectUserId : String
  signer : AdmissionSigner
  place : AdmissionPlace
  deriving DecidableEq

structure Observation where
  place : AdmissionPlace
  seenAt : Int
  deriving DecidableEq

structure CommunityAdmissions where
  roots : String → Option Int
  admissions : String → List AdmissionPlace
  observed : String → Option Observation

/-- One roster row as the server answers it; `joinedAt` is what `Date.parse` reads, if finite. -/
structure ChannelMemberDto where
  userId : String
  joinedAt : Option Int
  isCreator : Bool
  admissionVoucher : Option String

structure RosterRow where
  joinedAt : Int
  isCreator : Bool
  voucher : Option String

abbrev Roster := List (String × RosterRow)

inductive AdmissionVerdict where
  | proven
  | unproven
  | unobserved
  deriving DecidableEq

def ADMISSION_PROOF_SINCE : Int := 1793059200000

/-- `Map.set`: an existing key keeps its position. -/
def setRow (roster : Roster) (user : String) (row : RosterRow) : Roster :=
  if roster.any (·.1 == user) then roster.map fun p =>
    if p.1 == user then (user, row) else p else roster ++ [(user, row)]

def rosterByUser (rows : List ChannelMemberDto) : Roster :=
  rows.foldl (fun out row =>
    let user := canonicalUserId row.userId
    match row.joinedAt with
    | some joinedAt => if user.isEmpty then out else setRow out user ⟨joinedAt, row.isCreator, row.admissionVoucher⟩
    | none => out) []

def Roster.get (roster : Roster) (user : String) : Option RosterRow := (roster.find? (·.1 == user)).map (·.2)

def userIdOfLeaf (identity : String) : String := (canonicalUserOf identity).getD ""

/-- The members present in the tree who arrived before the proof existed or created the community. -/
def rootsOf (identities : List String) (roster : Roster) (user : String) : Option Int :=
  (roster.get user).bind fun row =>
    if (row.joinedAt < ADMISSION_PROOF_SINCE || row.isCreator) && (identities.map userIdOfLeaf).contains user then
      some row.joinedAt
    else none

def recordRoots (ledger : Option CommunityAdmissions) (identities : List String)
    (roster : Roster) : CommunityAdmissions :=
  ledger.getD ⟨rootsOf identities roster, fun _ => [], fun _ => none⟩

structure Sight where
  keyGroupId : String
  drained : Bool
  epoch : Nat
  now : Int

variable (community : CommunityAdmissions)

/-- Each voucher of the roster not seen yet is seen now, on a drained group; the others are forgotten. -/
def recordObservations (sight : Sight) (roster : Roster) : CommunityAdmissions :=
  { community with observed := fun voucher =>
      if roster.any (fun p => p.2.voucher == some voucher && !voucher.isEmpty) then
        (community.observed voucher).orElse fun _ =>
          if sight.drained then some ⟨⟨sight.keyGroupId, sight.epoch⟩, sight.now⟩ else none
      else none }

def deferred (sight : Sight) (roster : Roster) : Nat :=
  (roster.filter fun p => match p.2.voucher with
    | some voucher => !voucher.isEmpty && (community.observed voucher).isNone && !sight.drained
    | none => false).length

/-! ## Who is admitted -/

inductive Start where
  | root
  | place (p : AdmissionPlace)

inductive Judged where
  | now
  | place (p : AdmissionPlace)

def starts (user : String) (rootHolds : Bool) : List Start :=
  (if (community.roots user).isSome && rootHolds then [.root] else []) ++ (community.admissions user).map .place

def startsBy : Start → Judged → Bool
  | .place start, .place judged => start.keyGroupId = judged.keyGroupId && start.epoch ≤ judged.epoch
  | _, _ => true

/-- `afterStart`: places of two key groups are read as a removal that follows. -/
def afterStart (removal : AdmissionPlace) : Start → Bool
  | .root => true
  | .place start => removal.keyGroupId ≠ start.keyGroupId || removal.epoch > start.epoch

def notAfter (removal : AdmissionPlace) : Judged → Bool
  | .now => true
  | .place judged => removal.keyGroupId ≠ judged.keyGroupId || removal.epoch ≤ judged.epoch

def admittedAt (removals : List AdmissionPlace) (user : String) (judged : Judged) (rootHolds : Bool) : Bool :=
  (starts community user rootHolds).any fun start =>
    startsBy start judged && !removals.any fun removal => afterStart removal start && notAfter removal judged

/-! ## The vouchers of the roster -/

/-- `decode` is `decodeAdmissionVoucher`; none for a voucher that does not read. -/
structure Device where
  self : String
  workspaceId : String
  decode : String → Option AdmissionVoucher

def readVoucher (D : Device) (user : String) (encoded : String) : Option AdmissionVoucher :=
  (D.decode encoded).filter fun voucher =>
    voucher.workspaceId == D.workspaceId && canonicalUserId voucher.subjectUserId == user &&
      canonicalUserId voucher.signer.userId != user

def holdsAdmission (user : String) (place : AdmissionPlace) : Bool :=
  (community.admissions user).any (· == place)

def observationRefuses (voucher : AdmissionVoucher) (observed : Observation) : Bool :=
  (voucher.place.keyGroupId == observed.place.keyGroupId && voucher.place.epoch > observed.place.epoch) ||
    match voucher.kind with
    | .link expiresAt => observed.seenAt > expiresAt
    | .direct => false

structure Pending where
  user : String
  voucher : AdmissionVoucher
  encoded : String
  observed : Observation
  deriving DecidableEq

def Pending.signer (p : Pending) : String := canonicalUserId p.voucher.signer.userId

def pendingOf (D : Device) (community : CommunityAdmissions) (roster : Roster) : List Pending :=
  roster.filterMap fun (user, row) => do
    let encoded ← row.voucher
    if encoded.isEmpty then none
    else
      let voucher ← readVoucher D user encoded
      if holdsAdmission community user voucher.place then none
      else
        let observed ← community.observed encoded
        if observationRefuses voucher observed then none else some ⟨user, voucher, encoded, observed⟩

structure Sweep where
  community : CommunityAdmissions
  left : List Pending
  moved : Bool

/-- One pending voucher: left for a later pass until its signer counts where it was first seen. -/
def visit (D : Device) (removals : String → List AdmissionPlace) (holds : Pending → Bool) (w : Sweep)
    (p : Pending) : Sweep :=
  if p.signer != canonicalUserId D.self &&
    !admittedAt w.community (removals p.signer) p.signer (.place p.observed.place) true then
    { w with left := w.left ++ [p] }
  else if !holds p then w
  else
    { w with
      community := { w.community with
        admissions := Function.update w.community.admissions p.user
          (w.community.admissions p.user ++ [p.voucher.place]) }
      moved := true }

def pass (D : Device) (removals : String → List AdmissionPlace) (holds : Pending → Bool)
    (community : CommunityAdmissions)
    (pending : List Pending) : Sweep :=
  pending.foldl (visit D removals holds) ⟨community, [], false⟩

def passes (D : Device) (removals : String → List AdmissionPlace) (holds : Pending → Bool) :
    Nat → CommunityAdmissions → List Pending → CommunityAdmissions × List Pending
  | 0, community, pending => (community, pending)
  | fuel + 1, community, pending =>
    let w := pass D removals holds community pending
    if w.moved && !w.left.isEmpty then passes D removals holds fuel w.community w.left else (w.community, w.left)

def verifyRosterVouchers (D : Device) (removals : String → List AdmissionPlace) (holds : Pending → Bool)
    (community : CommunityAdmissions) (roster : Roster) : CommunityAdmissions × List Pending :=
  let pending := pendingOf D community roster
  passes D removals holds pending.length community pending

/-! ## Verdicts over a whole history -/

inductive Phase where
  | asked
  /-- Alone on the ledger, which it works on a copy of. -/
  | body (community : CommunityAdmissions) (waiting : Nat) (cache : String → Option (List AdmissionPlace))

structure Call where
  keyGroupId : String
  who : String
  roster : Roster
  /-- The departures from the community's key groups recorded when it was asked. -/
  since : List Departure
  phase : Phase

/-- A verdict given, with the ledger it was given on and the vouchers whose signer counted. -/
structure Answer where
  who : String
  verdict : AdmissionVerdict
  since : List Departure
  community : CommunityAdmissions
  counted : List Pending

structure St where
  departures : List Departure
  saved : List (List Departure)
  recorded : List Departure
  current : Option String
  keyGroups : List String
  ledger : Option CommunityAdmissions
  calls : Nat → Option Call
  busy : Bool
  answers : List Answer

inductive Ev where
  | merge (g : String) (epoch : Nat) (before after : List LeafKey)
  | checkpoint
  | load (k : Nat) (heldGroups : List String)
  | register (g : String)
  | observe (rows : List ChannelMemberDto) (identities : List String) (sight : Sight) (written : Bool)
  | ask (i : Nat) (subject : String) (rows : List ChannelMemberDto)
  | enter (i : Nat) (identities : List String) (sight : Sight)
  | lookup (i : Nat) (user : String)
  | answer (i : Nat) (holds : Pending → Bool) (written : Bool)
  | failed (i : Nat)
  | ledgerLost

/-- The recorded departures of users from the trees of the community's key groups. -/
def leftCommunity (s : St) : List Departure := s.recorded.filter fun d => s.keyGroups.contains d.groupId && d.leavesTree

def setCall (s : St) (i : Nat) (c : Option Call) : St := { s with calls := Function.update s.calls i c }

def nothingRecorded : CommunityAdmissions := ⟨fun _ => none, fun _ => [], fun _ => none⟩

def removalsIn (cache : String → Option (List AdmissionPlace))
    (user : String) : List AdmissionPlace := (cache user).getD []

def needs (D : Device) (who : String) (pending : List Pending) : List String :=
  who :: (pending.map Pending.signer).filter (· != canonicalUserId D.self)

def step (D : Device) (s : St) : Ev → Option St
  | .merge g epoch before after =>
    some { s with
      departures := recordDepartures s.departures g epoch before after
      recorded := s.recorded ++ departuresOf g epoch before after }
  | .checkpoint => some { s with saved := s.saved ++ [s.departures] }
  | .load k held => s.saved[k]?.map fun ds => { s with departures := pruneDepartures ds held }
  | .register g => some { s with current := some g, keyGroups := g :: s.keyGroups }
  | .observe rows identities sight written =>
    if s.busy then none
    else
      let roster := rosterByUser rows
      let community := recordObservations (recordRoots s.ledger identities roster) sight roster
      some { s with ledger := if written then some community else s.ledger }
  | .ask i subject rows =>
    match s.calls i, s.current with
    | none, some g =>
      let who := canonicalUserId subject
      let roster := rosterByUser rows
      let answered (v : AdmissionVerdict) : St :=
        { s with answers := s.answers ++ [⟨who, v, leftCommunity s, s.ledger.getD nothingRecorded, []⟩] }
      if who = canonicalUserId D.self then some (answered .proven)
      else if (roster.get who).isNone then some (answered .unproven)
      else some (setCall s i (some ⟨g, who, roster, leftCommunity s, .asked⟩))
    | _, _ => none
  | .enter i identities sight =>
    match s.calls i with
    | some ⟨g, who, roster, since, .asked⟩ =>
      if s.busy || sight.keyGroupId != g then none
      else
        let rooted := recordRoots s.ledger identities roster
        let phase := .body (recordObservations rooted sight roster) (deferred rooted sight roster) fun _ => none
        some { setCall s i (some ⟨g, who, roster, since, phase⟩) with busy := true }
    | _ => none
  | .lookup i user =>
    match s.calls i with
    | some ⟨g, who, roster, since, .body community waiting cache⟩ =>
      if (cache user).isNone && (needs D who (pendingOf D community roster)).contains user then
        let found := (removalEpochs s.departures g user).map fun epoch => ⟨g, epoch⟩
        some (setCall s i (some ⟨g, who, roster, since,
          .body community waiting (Function.update cache user (some found))⟩))
      else none
    | _ => none
  | .answer i holds written =>
    match s.calls i with
    | some ⟨_, who, roster, since, .body community waiting cache⟩ =>
      let pending := pendingOf D community roster
      if (needs D who pending).all fun u => (cache u).isSome then
        let (community', left) := verifyRosterVouchers D (removalsIn cache) holds community roster
        let rootHolds := community'.roots who == (roster.get who).map (·.joinedAt)
        let verdict := if admittedAt community' (removalsIn cache who) who .now rootHolds then .proven
          else if waiting > 0 then .unobserved else .unproven
        some { setCall s i none with
          busy := false
          ledger := if written then some community' else s.ledger
          answers := s.answers ++ [⟨who, verdict, since, community', pending.filter fun p => !left.contains p⟩] }
      else none
    | _ => none
  | .failed i =>
    match s.calls i with
    | some ⟨_, _, _, _, .asked⟩ => some (setCall s i none)
    | some ⟨_, _, _, _, .body _ _ _⟩ => some { setCall s i none with busy := false }
    | none => none
  | .ledgerLost => some { s with ledger := none }

def Init (s : St) : Prop := s.calls = (fun _ => none) ∧ s.busy = false ∧ s.answers = []

def machine (D : Device) : Machine St Ev := ⟨Init, step D⟩

/-! ## What a verdict rests on -/

def removalsOf (since : List Departure) (user : String) : List AdmissionPlace :=
  (since.filter fun d => d.userId == user).map fun d => ⟨d.groupId, d.epoch⟩

/-- Every one of these removals comes before one and the same admission, in its own key group. -/
def AdmittedAfter (user : String) (removals : List AdmissionPlace) : Prop :=
  removals = [] ∨ ∃ a ∈ community.admissions user, ∀ r ∈ removals, r.keyGroupId = a.keyGroupId ∧ r.epoch ≤ a.epoch

/-- A user other than this device's own is proven through an admission after every removal
    recorded when the verdict was asked, and counts as the signer of a voucher through one
    after every such removal not after the place this device first saw the voucher at. -/
structure Sound (D : Device) (ans : Answer) : Prop where
  subject : ans.verdict = .proven → ans.who ≠ canonicalUserId D.self →
    AdmittedAfter ans.community ans.who (removalsOf ans.since ans.who)
  signers : ∀ p ∈ ans.counted, p.signer ≠ canonicalUserId D.self →
    AdmittedAfter ans.community p.signer
      ((removalsOf ans.since p.signer).filter fun r => notAfter r (.place p.observed.place))

/-- Every removal of the user ever recorded in the community's key groups is of this group, and still kept. -/
def covered (s : St) (g user : String) : Bool :=
  (leftCommunity s).all fun d => d.userId != user || (d.groupId == g && s.departures.contains d)

def lookupCovered (s : St) : Ev → Bool
  | .lookup i user => match s.calls i with
    | some c => covered s c.keyGroupId user
    | none => true
  | _ => true

variable {user : String}

theorem admittedAt_after {community : CommunityAdmissions} {removals rs : List AdmissionPlace} {judged : Judged}
    {rootHolds : Bool} (h : admittedAt community removals user judged rootHolds = true) (hr : ∀ r ∈ rs, r ∈ removals)
    (hn : ∀ r ∈ rs, notAfter r judged = true) : AdmittedAfter community user rs := by
  obtain ⟨start, hs, hst⟩ := List.any_eq_true.mp h
  obtain ⟨_, hno⟩ := Bool.and_eq_true_iff.mp hst
  rw [Bool.not_eq_true', any_eq_false] at hno
  cases rs with
  | nil => exact Or.inl rfl
  | cons r rest =>
    right
    -- a removal exists, so the start is no root
    have none_after : ∀ r' ∈ r :: rest, afterStart r' start = false := by
      intro r' hr'
      have h1 := hno r' (hr r' hr')
      rw [hn r' hr'] at h1
      simpa using h1
    cases start with
    | root =>
      have h1 := none_after r (by simp)
      cases h1
    | place a =>
      refine ⟨a, ?_, fun r' hr' => ?_⟩
      · rcases mem_append.mp hs with hs | hs
        · split at hs
          · cases mem_singleton.mp hs
          · cases hs
        · obtain ⟨b, hb, he⟩ := mem_map.mp hs
          cases he
          exact hb
      · have h1 := none_after r' hr'
        simp only [afterStart, Bool.or_eq_false_iff, decide_eq_false_iff_not, not_not, gt_iff_lt, not_lt] at h1
        exact h1

theorem admittedAfter_mono {c c' : CommunityAdmissions} (hc : ∀ u, ∀ a ∈ c.admissions u, a ∈ c'.admissions u)
    {rs : List AdmissionPlace} (h : AdmittedAfter c user rs) : AdmittedAfter c' user rs := by
  rcases h with h | ⟨a, ha, hr⟩
  · exact Or.inl h
  · exact Or.inr ⟨a, hc user a ha, hr⟩

/-! ## The passes -/

/-- The signer counted, on what the ledger held by then. -/
def Counted (D : Device) (removals : String → List AdmissionPlace) (c : CommunityAdmissions) (p : Pending) : Prop :=
  p.signer = canonicalUserId D.self ∨
    ∃ c', (∀ u, ∀ a ∈ c'.admissions u, a ∈ c.admissions u) ∧
      admittedAt c' (removals p.signer) p.signer (.place p.observed.place) true = true

variable {D : Device}

theorem counted_mono {removals : String → List AdmissionPlace} {c c' : CommunityAdmissions}
    (hc : ∀ u, ∀ a ∈ c.admissions u, a ∈ c'.admissions u) {p : Pending}
    (h : Counted D removals c p) : Counted D removals c' p := by
  rcases h with h | ⟨d, hd, h⟩
  · exact Or.inl h
  · exact Or.inr ⟨d, fun u a ha => hc u a (hd u a ha), h⟩

/-- What a step of a pass does: the ledger grows, and a voucher is left or its signer counted. -/
theorem visit_spec (D : Device) (removals : String → List AdmissionPlace) (holds : Pending → Bool) (w : Sweep)
    (p : Pending) :
    (∀ u, ∀ a ∈ w.community.admissions u, a ∈ (visit D removals holds w p).community.admissions u) ∧
    (∀ q ∈ w.left, q ∈ (visit D removals holds w p).left) ∧
    (p ∈ (visit D removals holds w p).left ∨ Counted D removals w.community p) := by
  unfold visit
  split
  · exact ⟨fun _ _ ha => ha, fun q hq => mem_append_left _ hq, Or.inl (by simp)⟩
  · rename_i hno
    have hcount : Counted D removals w.community p := by
      by_cases hself : p.signer = canonicalUserId D.self
      · exact Or.inl hself
      · right
        refine ⟨w.community, fun _ _ ha => ha, ?_⟩
        simpa [hself] using hno
    split
    · exact ⟨fun _ _ ha => ha, fun _ hq => hq, Or.inr hcount⟩
    · refine ⟨fun u a ha => ?_, fun _ hq => hq, Or.inr hcount⟩
      by_cases hu : u = p.user
      · subst hu
        simp only [Function.update_self]
        exact mem_append_left _ ha
      · simp only [Function.update_of_ne hu]
        exact ha

theorem fold_spec (D : Device) (removals : String → List AdmissionPlace) (holds : Pending → Bool)
    (pending : List Pending) :
    ∀ w : Sweep, (∀ u, ∀ a ∈ w.community.admissions u,
      a ∈ (pending.foldl (visit D removals holds) w).community.admissions u) ∧
      (∀ q ∈ w.left, q ∈ (pending.foldl (visit D removals holds) w).left) ∧
      ∀ p ∈ pending, p ∈ (pending.foldl (visit D removals holds) w).left ∨
        Counted D removals (pending.foldl (visit D removals holds) w).community p := by
  induction pending with
  | nil => intro w; exact ⟨fun _ _ ha => ha, fun _ hq => hq, by simp⟩
  | cons p pending ih =>
    intro w
    obtain ⟨hg, hl, hp⟩ := visit_spec D removals holds w p
    obtain ⟨ihg, ihl, ihp⟩ := ih (visit D removals holds w p)
    refine ⟨fun u a ha => ihg u a (hg u a ha), fun q hq => ihl q (hl q hq), fun q hq => ?_⟩
    rcases mem_cons.mp hq with rfl | hq
    · rcases hp with hp | hp
      · exact Or.inl (ihl _ hp)
      · exact Or.inr (counted_mono (fun u a ha => ihg u a (hg u a ha)) hp)
    · exact ihp q hq

theorem passes_spec (D : Device) (removals : String → List AdmissionPlace) (holds : Pending → Bool) (fuel : Nat) :
    ∀ (c : CommunityAdmissions) (pending : List Pending),
      (∀ u, ∀ a ∈ c.admissions u, a ∈ (passes D removals holds fuel c pending).1.admissions u) ∧
      ∀ p ∈ pending, p ∈ (passes D removals holds fuel c pending).2 ∨
        Counted D removals (passes D removals holds fuel c pending).1 p := by
  induction fuel with
  | zero => intro c pending; exact ⟨fun _ _ ha => ha, fun p hp => Or.inl hp⟩
  | succ fuel ih =>
    intro c pending
    obtain ⟨hg, _, hp⟩ := fold_spec D removals holds pending ⟨c, [], false⟩
    unfold passes
    simp only
    split
    · obtain ⟨ihg, ihp⟩ := ih (pass D removals holds c pending).community (pass D removals holds c pending).left
      refine ⟨fun u a ha => ihg u a (hg u a ha), fun p hp' => ?_⟩
      rcases hp p hp' with h | h
      · exact ihp p h
      · exact Or.inr (counted_mono ihg h)
    · exact ⟨hg, hp⟩

/-! ## The invariant -/

structure CallOk (s : St) (c : Call) : Prop where
  canonical : toAsciiLowercase c.who = c.who
  since : ∀ d ∈ c.since, d ∈ leftCommunity s
  /-- What was looked up holds every removal recorded when the verdict was asked. -/
  cache : ∀ community waiting cache, c.phase = .body community waiting cache → ∀ user found, cache user = some found →
    ∀ r ∈ removalsOf c.since user, r ∈ found

structure Inv (D : Device) (s : St) : Prop where
  calls : ∀ i c, s.calls i = some c → CallOk s c
  answers : ∀ ans ∈ s.answers, Sound D ans

variable {s : St}

theorem inv_init (h : Init s) : Inv D s := by
  obtain ⟨hc, _, ha⟩ := h
  exact ⟨by simp [hc], by simp [ha]⟩

variable {s' : St}

theorem callOk_mono (h : ∀ d ∈ leftCommunity s, d ∈ leftCommunity s') {c : Call} (hc : CallOk s c) : CallOk s' c :=
  ⟨hc.canonical, fun d hd => h d (hc.since d hd), hc.cache⟩

theorem inv_local (h : Inv D s) (hl : ∀ d ∈ leftCommunity s, d ∈ leftCommunity s')
    (hc : ∀ j c, s'.calls j = some c → s.calls j = some c ∨ CallOk s' c)
    (ha : ∀ ans ∈ s'.answers, ans ∈ s.answers ∨ Sound D ans) : Inv D s' := by
  refine ⟨fun j c hj => ?_, fun ans hans => ?_⟩
  · rcases hc j c hj with hj | hok
    · exact callOk_mono hl (h.calls j c hj)
    · exact hok
  · rcases ha ans hans with hans | hok
    · exact h.answers ans hans
    · exact hok

theorem inv_quiet (h : Inv D s) (hl : ∀ d ∈ leftCommunity s, d ∈ leftCommunity s') (hc : s'.calls = s.calls)
    (ha : s'.answers = s.answers) : Inv D s' :=
  inv_local h hl (fun _ _ hj => Or.inl (hc ▸ hj)) fun _ hans => Or.inl (ha ▸ hans)

theorem inv_call {i : Nat} {v : Option Call} (h : Inv D s) (hl : ∀ d ∈ leftCommunity s, d ∈ leftCommunity s')
    (hc : s'.calls = Function.update s.calls i v) (hv : ∀ c, v = some c → CallOk s' c)
    (ha : s'.answers = s.answers) : Inv D s' := by
  refine inv_local h hl ?_ fun _ hans => Or.inl (ha ▸ hans)
  rw [hc]
  exact update_cases hv

theorem inv_answered {ans : Answer} (h : Inv D s) (hl : ∀ d ∈ leftCommunity s, d ∈ leftCommunity s')
    (hc : ∀ j c, s'.calls j = some c → s.calls j = some c) (ha : s'.answers = s.answers ++ [ans])
    (hs : Sound D ans) : Inv D s' := by
  refine inv_local h hl (fun j c hj => Or.inl (hc j c hj)) fun a hans => ?_
  rw [ha] at hans
  rcases mem_append.mp hans with hans | hans
  · exact Or.inl hans
  · rw [mem_singleton.mp hans]
    exact Or.inr hs

theorem mem_leftCommunity_mono (hr : ∀ d ∈ s.recorded, d ∈ s'.recorded) (hk : ∀ g ∈ s.keyGroups, g ∈ s'.keyGroups) :
    ∀ d ∈ leftCommunity s, d ∈ leftCommunity s' := by
  intro d hd
  simp only [leftCommunity, mem_filter, Bool.and_eq_true, contains_iff_mem] at hd ⊢
  exact ⟨hr d hd.1, hk _ hd.2.1, hd.2.2⟩

theorem needs_canonical {who : String} (hw : toAsciiLowercase who = who) {pending : List Pending}
    (h : user ∈ needs D who pending) : toAsciiLowercase user = user := by
  rcases mem_cons.mp h with rfl | h
  · exact hw
  · obtain ⟨p, _, rfl⟩ := mem_map.mp (mem_filter.mp h).1
    exact toAsciiLowercase_idem _

theorem lookup_finds {g : String} (hcov : covered s g user = true) (hu : toAsciiLowercase user = user)
    {since : List Departure} (hs : ∀ d ∈ since, d ∈ leftCommunity s) :
    ∀ r ∈ removalsOf since user, r ∈ (removalEpochs s.departures g user).map fun epoch =>
      (⟨g, epoch⟩ : AdmissionPlace) := by
  intro r hr
  obtain ⟨d, hd, rfl⟩ := mem_map.mp hr
  obtain ⟨hd, hdu⟩ := mem_filter.mp hd
  have hdu : d.userId = user := beq_iff_eq.mp hdu
  have hleft := hs d hd
  have hc := all_eq_true.mp hcov d hleft
  simp only [hdu, bne_self_eq_false, Bool.false_or, Bool.and_eq_true, beq_iff_eq, contains_iff_mem] at hc
  obtain ⟨hg, hkept⟩ := hc
  have htree : d.leavesTree = true := (Bool.and_eq_true_iff.mp (mem_filter.mp hleft).2).2
  rw [mem_map]
  exact ⟨d.epoch, mem_removalEpochs.mpr ⟨d, hkept, hg, by rw [hu, hdu], htree, rfl⟩, by rw [hg]⟩

theorem sound_of_checks {who : String} {roster : Roster} {since : List Departure} {community : CommunityAdmissions}
    {cache : String → Option (List AdmissionPlace)} {holds : Pending → Bool} {verdict : AdmissionVerdict}
    (hcache : ∀ user found, cache user = some found → ∀ r ∈ removalsOf since user, r ∈ found)
    (hneeds : (needs D who (pendingOf D community roster)).all (fun u => (cache u).isSome) = true)
    (hverdict : verdict = .proven → ∃ rootHolds,
    admittedAt (verifyRosterVouchers D (removalsIn cache) holds community roster).1
      (removalsIn cache who) who .now rootHolds = true) :
    Sound D ⟨who, verdict, since, (verifyRosterVouchers D (removalsIn cache) holds community roster).1,
      (pendingOf D community roster).filter fun p =>
        !(verifyRosterVouchers D (removalsIn cache) holds community roster).2.contains p⟩ := by
  have found : ∀ u ∈ needs D who (pendingOf D community roster), ∀ r ∈ removalsOf since u, r ∈ removalsIn cache u := by
    intro u hu r hr
    obtain ⟨l, hl⟩ := Option.isSome_iff_exists.mp (all_eq_true.mp hneeds u hu)
    rw [removalsIn, hl]
    exact hcache u l hl r hr
  obtain ⟨_, hp⟩ := passes_spec D (removalsIn cache) holds (pendingOf D community roster).length community
    (pendingOf D community roster)
  refine ⟨fun hv _ => ?_, fun p hmem hself => ?_⟩
  · obtain ⟨rootHolds, had⟩ := hverdict hv
    exact admittedAt_after had (found who (by simp [needs])) (fun _ _ => rfl)
  · obtain ⟨hmem, hleft⟩ := mem_filter.mp hmem
    have hsigner : p.signer ∈ needs D who (pendingOf D community roster) := by
      refine mem_cons_of_mem _ (mem_filter.mpr ⟨mem_map_of_mem hmem, ?_⟩)
      simpa using hself
    rcases hp p hmem with hl | hcount
    · simp [verifyRosterVouchers, hl] at hleft
    · rcases hcount with hs | ⟨c, hc, had⟩
      · exact absurd hs hself
      · refine admittedAfter_mono hc (admittedAt_after had (fun r hr => ?_) (fun r hr => (mem_filter.mp hr).2))
        exact found p.signer hsigner r (mem_filter.mp hr).1

theorem inv_lookup {i : Nat} (h : Inv D s) (hok : lookupCovered s (.lookup i user) = true)
    (hs : step D s (.lookup i user) = some s') : Inv D s' := by
  simp only [step] at hs
  split at hs
  · rename_i g who roster since community waiting cache hi
    split at hs
    · rename_i hcond
      cases hs
      have hold := h.calls i _ hi
      simp only [Bool.and_eq_true, contains_iff_mem] at hcond
      have hcov : covered s g user = true := by simpa [lookupCovered, hi] using hok
      have hfinds := lookup_finds hcov (needs_canonical hold.canonical hcond.2) hold.since
      refine inv_call h (fun _ hd => hd) rfl (fun c hc => ?_) rfl
      cases hc
      refine ⟨hold.canonical, hold.since, fun _ _ cache' hp u found hf => ?_⟩
      cases hp
      by_cases e : u = user
      · subst e
        rw [Function.update_self] at hf
        cases hf
        exact hfinds
      · rw [Function.update_of_ne e] at hf
        exact hold.cache _ _ _ rfl u found hf
    · cases hs
  · cases hs

theorem inv_answer {i : Nat} {holds : Pending → Bool} {written : Bool} (h : Inv D s)
    (hs : step D s (.answer i holds written) = some s') : Inv D s' := by
  simp only [step] at hs
  split at hs
  · rename_i g who roster since community waiting cache hi
    split at hs
    · rename_i hneeds
      cases hs
      have hold := h.calls i _ hi
      refine inv_answered h (fun _ hd => hd) (fun j c hj => ?_) rfl
        (sound_of_checks (hold.cache _ _ _ rfl) hneeds fun hv => ?_)
      · exact (update_none_eq_some_iff.mp hj).2
      · split at hv
        · rename_i had; exact ⟨_, had⟩
        · split at hv <;> cases hv
    · cases hs
  · cases hs

theorem inv_step (s : St) (e : Ev) (s' : St) (h : Inv D s) (hok : lookupCovered s e = true)
    (hs : step D s e = some s') : Inv D s' := by
  have same : ∀ d ∈ leftCommunity s, d ∈ leftCommunity s := fun _ hd => hd
  cases e with
  | merge g epoch before after =>
    cases hs
    exact inv_quiet h (mem_leftCommunity_mono (fun d hd => mem_append_left _ hd) (fun _ hg => hg)) rfl rfl
  | checkpoint => cases hs; exact inv_quiet h same rfl rfl
  | load k held =>
    obtain ⟨ds, _, rfl⟩ := Option.map_eq_some_iff.mp hs
    exact inv_quiet h same rfl rfl
  | register g =>
    cases hs
    exact inv_quiet h (mem_leftCommunity_mono (fun _ hd => hd) (fun _ hg => mem_cons_of_mem _ hg)) rfl rfl
  | observe rows identities sight written =>
    simp only [step] at hs
    split at hs
    · cases hs
    · cases hs; exact inv_quiet h same rfl rfl
  | ask i subject rows =>
    simp only [step] at hs
    split at hs
    · split at hs
      · rename_i hself
        cases hs
        exact inv_answered h same (fun _ _ hj => hj) rfl ⟨fun _ hne => absurd hself hne, by simp⟩
      split at hs
      · cases hs
        exact inv_answered h same (fun _ _ hj => hj) rfl ⟨fun hv => (by cases hv), by simp⟩
      · cases hs
        refine inv_call h same rfl (fun c hc => ?_) rfl
        cases hc
        exact ⟨toAsciiLowercase_idem _, fun d hd => hd, fun _ _ _ hp => by cases hp⟩
    · cases hs
  | enter i identities sight =>
    simp only [step] at hs
    split at hs
    · rename_i g who roster since hi
      split at hs
      · cases hs
      · cases hs
        have hold := h.calls i _ hi
        refine inv_call h same rfl (fun c hc => ?_) rfl
        cases hc
        refine ⟨hold.canonical, hold.since, fun _ _ cache hp user found hf => ?_⟩
        cases hp
        cases hf
    · cases hs
  | lookup i user => exact inv_lookup h hok hs
  | answer i holds written => exact inv_answer h hs
  | failed i =>
    simp only [step] at hs
    split at hs
    · cases hs; exact inv_call h same rfl (fun c hc => by cases hc) rfl
    · cases hs; exact inv_call h same rfl (fun c hc => by cases hc) rfl
    · cases hs
  | ledgerLost => cases hs; exact inv_quiet h same rfl rfl

/-- Along every run whose lookups are covered, every verdict rests on admissions that come
    after the removals recorded when it was asked. -/
theorem proven_only_after_every_removal {D : Device} {s : St}
    (h : (machine D).ReachBy (fun s e => lookupCovered s e = true) s) : ∀ ans ∈ s.answers, Sound D ans :=
  (Machine.ReachBy.invariant (I := Inv D) (fun _ h0 => inv_init h0) inv_step h).answers

/-! ## Runs -/

def leaf (identity : String) : LeafKey := ⟨0, identity, []⟩

def newDevice : St := ⟨[], [], [], none, [], none, fun _ => none, false, []⟩

def bobsVoucher : AdmissionVoucher := ⟨.direct, "w", "alice", ⟨"bob", "1"⟩, ⟨"g1", 3⟩⟩

def device : Device := ⟨"me", "w", fun encoded => if encoded = "voucher" then some bobsVoucher else none⟩

/-- Alice and Bob are roots; a merged commit then removes Alice from the key group. -/
def aliceRemoved : List Ev :=
  [.register "g1",
   .observe [⟨"alice", some 0, false, none⟩, ⟨"bob", some 0, false, none⟩] ["alice:1", "bob:1", "me:1"] ⟨"g1",
     true, 1, 0⟩ true,
   .merge "g1" 2 [leaf "alice:1", leaf "bob:1", leaf "me:1"] [leaf "bob:1", leaf "me:1"]]

def readmittedRun : List Ev :=
  aliceRemoved ++ [Ev.ask 0 "Alice" [⟨"alice", some 5, false, some "voucher"⟩, ⟨"bob", some 0, false, none⟩],
    .enter 0 ["bob:1", "me:1"] ⟨"g1", true, 3, 9⟩, .lookup 0 "bob", .lookup 0 "alice", .answer 0 (fun _ => true) true]

theorem readmittedRun_proven : ∃ s, (machine device).runBy lookupCovered newDevice readmittedRun = some s ∧
    s.answers.map (fun a => (a.who, a.verdict, a.since.length, a.counted.map Pending.signer)) =
      [("alice", .proven, 1, ["bob"])] ∧
    ∀ ans ∈ s.answers, Sound device ans := by
  have hr : ((machine device).runBy lookupCovered newDevice readmittedRun).map
      (fun s => s.answers.map fun a => (a.who, a.verdict, a.since.length, a.counted.map Pending.signer)) =
      some [("alice", .proven, 1, ["bob"])] := by decide
  obtain ⟨s, hs, ha⟩ := Option.map_eq_some_iff.mp hr
  exact ⟨s, hs, ha, proven_only_after_every_removal (Machine.reachBy_of_run _ ⟨rfl, rfl, rfl⟩ hs)⟩

/-- The community's key group is rebuilt, and the server still shows the row Alice was rooted with. -/
def rebuiltRun : List Ev :=
  aliceRemoved ++ [Ev.register "g2", .ask 0 "alice" [⟨"alice", some 0, false, none⟩],
    .enter 0 ["alice:1", "me:1"] ⟨"g2", true, 1, 9⟩, .lookup 0 "alice", .answer 0 (fun _ => true) true]

/-- The verdict asks for removals in the key group of today alone: a removal recorded in the
    group before it no longer ends a root. -/
theorem rebuilt_group_forgets_a_removal : ¬ ∀ s, (machine device).Reach s → ∀ ans ∈ s.answers, Sound device ans := by
  intro h
  have hr : ((machine device).run newDevice rebuiltRun).map
      (fun s => s.answers.map fun a => (a.who, a.verdict, removalsOf a.since a.who, a.community.admissions a.who)) =
      some [("alice", .proven, [⟨"g1", 2⟩], [])] := by decide
  obtain ⟨s, hs, ha⟩ := Option.map_eq_some_iff.mp hr
  obtain ⟨ans, hans, he⟩ : ∃ ans ∈ s.answers,
      (ans.who, ans.verdict, removalsOf ans.since ans.who, ans.community.admissions ans.who) = ("alice", .proven,
        [⟨"g1", 2⟩], []) :=
    mem_map.mp (by rw [ha]; simp)
  simp only [Prod.mk.injEq] at he
  obtain ⟨hwho, hv, hrem, hadm⟩ := he
  have hself : ans.who ≠ canonicalUserId device.self := by rw [hwho]; decide
  rcases (h s (Machine.reach_of_run _ ⟨rfl, rfl, rfl⟩ hs) ans hans).subject hv hself with h0 | ⟨a, hmem, _⟩
  · rw [hrem] at h0
    cases h0
  · rw [hadm] at hmem
    cases hmem

end Canari.Graine.AdmissionGate
