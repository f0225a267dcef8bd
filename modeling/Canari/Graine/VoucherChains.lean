/-
  Canari.Graine.VoucherChains — whom the vouchers of a roster admit, chain by chain
  (`verifyRosterVouchers` in `frontend/src/lib/utils/graine/admissionGate.ts`).

  A voucher admits its subject when its signatures hold and its signer is this device's user
  or is admitted where this device first saw it: by a root, by an admission recorded before,
  or by another voucher of the roster. What the passes are for is the least set of admissions
  closed under that rule (`vouching`), whatever the order of the roster.

  The ledger is read through plain objects, `community.roots[user]` and
  `community.admissions[user]`, and a plain object answers to names it was never given. A user
  of such a name has no array of admissions there, and reading one throws: the whole check
  ends, with nothing recorded. `AdmissionGate` has the passes on a ledger that answers to its
  own names alone; here they are as the source has them, and the two agree on plain names.

  Proved: `chains_are_least_iff_names_are_plain`.
-/

import Canari.Lib.Worklist
import Canari.Graine.AdmissionGate

namespace Canari.Graine.VoucherChains

open Lib List
open Mls.Identity
open Graine.AdmissionGate
  (AdmissionPlace AdmissionVoucher ChannelMemberDto CommunityAdmissions Device Judged Observation
  Pending Roster RosterRow Start Sweep afterStart notAfter observationRefuses readVoucher rosterByUser rootsOf
    setRow startsBy)

/-! ## The ledger's objects -/

/-- The names of `Object.prototype`, which `{}` answers to as well. -/
def inheritedNames : List String :=
  ["constructor", "__proto__", "__defineGetter__", "__defineSetter__", "__lookupGetter__", "__lookupSetter__",
    "hasOwnProperty",
   "isPrototypeOf", "propertyIsEnumerable", "toLocaleString", "toString", "valueOf"]

inductive Thrown where
  | typeError

/-- `community.roots[user] !== undefined`. -/
def rooted (community : CommunityAdmissions) (user : String) : Bool :=
  (community.roots user).isSome || inheritedNames.contains user

/-- The array at `community.admissions[user] ?? []`. An inherited name reads a function or the
    prototype itself, which is no array: spreading it, `.some` and `.push` all throw. -/
def admissionsAt (community : CommunityAdmissions) (user : String) : Except Thrown (List AdmissionPlace) :=
  if (community.admissions user).isEmpty && inheritedNames.contains user then .error .typeError
  else .ok (community.admissions user)

/-! ## The check as the source has it -/

def holdsAdmission (community : CommunityAdmissions) (user : String) (place : AdmissionPlace) : Except Thrown Bool := do
  let places ← admissionsAt community user
  pure (places.any (· == place))

def admittedAt (community : CommunityAdmissions) (removals : List AdmissionPlace) (user : String) (judged : Judged)
    (rootHolds : Bool) : Except Thrown Bool := do
  let places ← admissionsAt community user
  let starts := (if rooted community user && rootHolds then [Start.root] else []) ++ places.map Start.place
  pure (starts.any fun start =>
    startsBy start judged && !removals.any fun removal => afterStart removal start && notAfter removal judged)

/-- What one row of the roster adds to the vouchers to be judged. No voucher that decodes is
    spelled like an inherited name, so `community.observed` is read by its own names. -/
def pendingRow (D : Device) (community : CommunityAdmissions) (user : String)
    (row : RosterRow) : Except Thrown (Option Pending) :=
  match row.voucher with
  | none => pure none
  | some encoded =>
    if encoded.isEmpty then pure none
    else
      match readVoucher D user encoded with
      | none => pure none
      | some voucher => do
        if ← holdsAdmission community user voucher.place then pure none
        else
          match community.observed encoded with
          | none => pure none
          | some observed =>
            if observationRefuses voucher observed then pure none else pure (some ⟨user, voucher, encoded, observed⟩)

def pendingOf (D : Device) (community : CommunityAdmissions) : Roster → Except Thrown (List Pending)
  | [] => pure []
  | (user, row) :: rest => do
    let here ← pendingRow D community user row
    let others ← pendingOf D community rest
    pure (here.toList ++ others)

/-- `(community.admissions[user] ??= []).push(place)`. -/
def push (community : CommunityAdmissions) (user : String)
    (place : AdmissionPlace) : Except Thrown CommunityAdmissions := do
  let places ← admissionsAt community user
  pure { community with admissions := Function.update community.admissions user (places ++ [place]) }

def visit (D : Device) (removals : String → List AdmissionPlace) (holds : Pending → Bool) (w : Sweep) (p : Pending) :
    Except Thrown Sweep := do
  let counts ← if p.signer == canonicalUserId D.self then pure true
    else admittedAt w.community (removals p.signer) p.signer (.place p.observed.place) true
  if !counts then pure { w with left := w.left ++ [p] }
  else if !holds p then pure w
  else do
    let community ← push w.community p.user p.voucher.place
    pure { w with community := community, moved := true }

def pass (D : Device) (removals : String → List AdmissionPlace) (holds : Pending → Bool)
    (community : CommunityAdmissions)
    (pending : List Pending) : Except Thrown Sweep :=
  pending.foldlM (visit D removals holds) ⟨community, [], false⟩

def passes (D : Device) (removals : String → List AdmissionPlace) (holds : Pending → Bool) :
    Nat → CommunityAdmissions → List Pending → Except Thrown (CommunityAdmissions × List Pending)
  | 0, community, pending => pure (community, pending)
  | fuel + 1, community, pending => do
    let w ← pass D removals holds community pending
    if w.moved && !w.left.isEmpty then passes D removals holds fuel w.community w.left else pure (w.community, w.left)

/-- The ledger with the admissions verified, and the vouchers whose signer was not admitted. -/
def verifyRosterVouchers (D : Device) (removals : String → List AdmissionPlace) (holds : Pending → Bool)
    (community : CommunityAdmissions) (roster : Roster) : Except Thrown (CommunityAdmissions × List Pending) := do
  let pending ← pendingOf D community roster
  passes D removals holds pending.length community pending

/-! ## Ledgers and rosters the code can hold -/

def Own (community : CommunityAdmissions) : Prop := ∀ name ∈ inheritedNames, community.admissions name = []

/-- A community's ledger. Nothing writes an admission under an inherited name: the write itself
    throws there. -/
structure Ledger where
  community : CommunityAdmissions
  own : Own community

/-- A roster is a `Map`: one row a user. -/
structure Members where
  rows : Roster
  distinct : (rows.map Prod.fst).Nodup

/-! ## What the vouchers are for -/

/-- A voucher of the roster, read, about its member, seen by this device and not refused for it. -/
structure Standing (D : Device) (community : CommunityAdmissions) (roster : Roster) (p : Pending) : Prop where
  row : ∃ row, (p.user, row) ∈ roster ∧ row.voucher = some p.encoded
  written : p.encoded ≠ ""
  reads : readVoucher D p.user p.encoded = some p.voucher
  seen : community.observed p.encoded = some p.observed
  unrefused : observationRefuses p.voucher p.observed = false

def Recorded (community : CommunityAdmissions) : Set (String × AdmissionPlace) := { f | f.2 ∈ community.admissions f.1 }

/-- The start lies at or before the place, with no removal of the user in between. -/
def Reaches (removals : List AdmissionPlace) (start : Start) (place : AdmissionPlace) : Prop :=
  startsBy start (.place place) = true ∧
    ∀ removal ∈ removals, ¬ (afterStart removal start = true ∧ notAfter removal (.place place) = true)

def AdmittedIn (roots : String → Option Int) (removals : String → List AdmissionPlace)
    (admissions : Set (String × AdmissionPlace))
    (user : String) (place : AdmissionPlace) : Prop :=
  ((roots user).isSome = true ∧ Reaches (removals user) .root place) ∨
    ∃ a, (user, a) ∈ admissions ∧ Reaches (removals user) (.place a) place

variable {place : AdmissionPlace}

theorem AdmittedIn.mono {roots : String → Option Int} {removals : String → List AdmissionPlace}
    {S T : Set (String × AdmissionPlace)}
    (h : S ⊆ T) {user : String} (ha : AdmittedIn roots removals S user place) :
    AdmittedIn roots removals T user place := by
  rcases ha with ha | ⟨a, hmem, hr⟩
  · exact Or.inl ha
  · exact Or.inr ⟨a, h hmem, hr⟩

/-- The signer of a voucher is this device's user, or admitted where this device first saw it. -/
def SignerCounts (D : Device) (community : CommunityAdmissions) (removals : String → List AdmissionPlace)
    (admissions : Set (String × AdmissionPlace)) (p : Pending) : Prop :=
  p.signer = canonicalUserId D.self ∨ AdmittedIn community.roots removals admissions p.signer p.observed.place

/-- A voucher whose signer counts admits its subject; what was recorded before stays. -/
def vouching (D : Device) (removals : String → List AdmissionPlace) (holds : Pending → Bool)
    (community : CommunityAdmissions)
    (roster : Roster) : Set (String × AdmissionPlace) →o Set (String × AdmissionPlace) where
  toFun S := Recorded community ∪
    { f | ∃ p, Standing D community roster p ∧ holds p = true ∧ SignerCounts D community removals S p ∧
      f = (p.user, p.voucher.place) }
  monotone' := by
    intro S T h f hf
    rcases hf with hf | ⟨p, hs, hh, hc, rfl⟩
    · exact Or.inl hf
    · exact Or.inr ⟨p, hs, hh, hc.imp id (AdmittedIn.mono h), rfl⟩

/-- The subject of one voucher signed the next, and is admitted by the first where the next was seen. -/
def Links (removals : String → List AdmissionPlace) (q p : Pending) : Prop :=
  q.user = p.signer ∧ Reaches (removals p.signer) (.place q.voucher.place) p.observed.place

structure LeastChains (D : Device) (removals : String → List AdmissionPlace) (holds : Pending → Bool) (before : Ledger)
    (roster : Members) (after : Ledger) : Prop where
  /-- It returns the same ledger for every order of the roster, its roots and observations untouched. -/
  order : ∀ other : Members, other.rows.Perm roster.rows →
    ∃ left, verifyRosterVouchers D removals holds before.community other.rows = .ok (after.community, left)
  kept : after.community.roots = before.community.roots ∧ after.community.observed = before.community.observed
  least : Recorded after.community = (vouching D removals holds before.community roster.rows).lfp
  /-- A new admission ends a finite chain of vouchers that starts at this device, a root or an earlier admission. -/
  chain : ∀ user place, (user, place) ∈ Recorded after.community → (user, place) ∉ Recorded before.community →
    ∃ vouchers : List Pending, (∃ last, vouchers.getLast? = some last ∧ last.user = user ∧ last.voucher.place = place) ∧
      (∀ p ∈ vouchers, Standing D before.community roster.rows p ∧ holds p = true) ∧ vouchers.IsChain (Links removals) ∧
      ∀ p ∈ vouchers.head?, SignerCounts D before.community removals (Recorded before.community) p
  /-- Users who only vouch for each other admit nobody. -/
  cycle : ∀ ring : Set String,
    (∀ p, Standing D before.community roster.rows p → p.user ∈ ring → p.signer ∈ ring ∧
      p.signer ≠ canonicalUserId D.self) →
    (∀ user ∈ ring, before.community.roots user = none ∧ before.community.admissions user = []) →
    ∀ user ∈ ring, after.community.admissions user = []

/-- No voucher that reads is of a member of an inherited name, and none still to be judged is
    signed by one other than this device's user. -/
def PlainNames (D : Device) (ledger : Ledger) (roster : Members) : Prop :=
  (∀ user row encoded voucher, (user, row) ∈ roster.rows → row.voucher = some encoded → encoded ≠ "" →
    readVoucher D user encoded = some voucher → user ∉ inheritedNames) ∧
  ∀ p, Standing D ledger.community roster.rows p → p.voucher.place ∉ ledger.community.admissions p.user →
    p.signer = canonicalUserId D.self ∨ p.signer ∉ inheritedNames

/-! ## On plain names the objects answer like the ledger -/

section Plain

variable {D : Device} {community : CommunityAdmissions} {user : String}

theorem admissionsAt_plain (h : user ∉ inheritedNames) :
    admissionsAt community user = .ok (community.admissions user) := by
  simp [admissionsAt, h]

theorem admissionsAt_inherited (h : user ∈ inheritedNames) (hown : community.admissions user = []) :
    admissionsAt community user = .error .typeError := by
  simp [admissionsAt, h, hown]

theorem holdsAdmission_plain (h : user ∉ inheritedNames) (place : AdmissionPlace) :
    holdsAdmission community user place = .ok (AdmissionGate.holdsAdmission community user place) := by
  simp [holdsAdmission, admissionsAt_plain h, AdmissionGate.holdsAdmission, bind, Except.bind, pure, Except.pure]

theorem admittedAt_plain (h : user ∉ inheritedNames) (removals : List AdmissionPlace) (judged : Judged)
    (rootHolds : Bool) :
    admittedAt community removals user judged rootHolds = .ok
      (AdmissionGate.admittedAt community removals user judged rootHolds) := by
  have hr : rooted community user = (community.roots user).isSome := by simp [rooted, h]
  simp [admittedAt, admissionsAt_plain h, AdmissionGate.admittedAt, AdmissionGate.starts, hr, bind, Except.bind,
    pure, Except.pure]

theorem push_plain (h : user ∉ inheritedNames) (place : AdmissionPlace) : push community user place =
    .ok { community with admissions := Function.update community.admissions user (community.admissions user ++ [place]) } := by
  simp [push, admissionsAt_plain h, bind, Except.bind, pure, Except.pure]

def gateRow (D : Device) (community : CommunityAdmissions) (user : String) (row : RosterRow) : Option Pending :=
  (AdmissionGate.pendingOf D community [(user, row)]).head?

theorem gate_pendingOf_cons (user : String) (row : RosterRow) (rest : Roster) :
    AdmissionGate.pendingOf D community ((user, row) :: rest) =
      (gateRow D community user row).toList ++ AdmissionGate.pendingOf D community rest := by
  unfold gateRow AdmissionGate.pendingOf
  rw [filterMap_cons]
  split <;> simp_all

theorem pendingRow_plain {row : RosterRow}
    (h : ∀ encoded voucher, row.voucher = some encoded → encoded ≠ "" → readVoucher D user encoded = some voucher →
      user ∉ inheritedNames) : pendingRow D community user row = .ok (gateRow D community user row) := by
  unfold pendingRow gateRow AdmissionGate.pendingOf
  cases hv : row.voucher with
  | none => simp [hv, pure, Except.pure]
  | some encoded =>
    by_cases he : encoded = ""
    · simp [hv, he, pure, Except.pure]
    · cases hr : readVoucher D user encoded with
      | none => simp [hv, he, hr, pure, Except.pure]
      | some voucher =>
        have hplain := h encoded voucher hv he hr
        cases hh : AdmissionGate.holdsAdmission community user voucher.place with
        | true => simp [hv, he, hr, hh, holdsAdmission_plain hplain, bind, Except.bind, pure, Except.pure]
        | false =>
          cases ho : community.observed encoded with
          | none => simp [hv, he, hr, hh, ho, holdsAdmission_plain hplain, bind, Except.bind, pure, Except.pure]
          | some observed =>
            cases hf : observationRefuses voucher observed <;>
              simp [hv, he, hr, hh, ho, hf, holdsAdmission_plain hplain, bind, Except.bind, pure, Except.pure]

theorem pendingOf_plain {roster : Roster}
    (h : ∀ user row encoded voucher, (user, row) ∈ roster → row.voucher = some encoded → encoded ≠ "" →
      readVoucher D user encoded = some voucher → user ∉ inheritedNames) :
    pendingOf D community roster = .ok (AdmissionGate.pendingOf D community roster) := by
  induction roster with
  | nil => rfl
  | cons member rest ih =>
    obtain ⟨user, row⟩ := member
    have hrow : pendingRow D community user row = _ := pendingRow_plain (h user row · · mem_cons_self)
    have hrest := ih fun user row encoded voucher hm => h user row encoded voucher (mem_cons_of_mem _ hm)
    rw [gate_pendingOf_cons, pendingOf, hrow, hrest]
    rfl

/-- A voucher whose two names read the ledger's own entries, or none. -/
def PlainVoucher (D : Device) (p : Pending) : Prop :=
  p.user ∉ inheritedNames ∧ (p.signer = canonicalUserId D.self ∨ p.signer ∉ inheritedNames)

variable {removals : String → List AdmissionPlace} {holds : Pending → Bool}

variable {p : Pending}

theorem visit_plain (h : PlainVoucher D p) (w : Sweep) :
    visit D removals holds w p = .ok (AdmissionGate.visit D removals holds w p) := by
  obtain ⟨hu, hs⟩ := h
  unfold visit AdmissionGate.visit
  rw [push_plain hu]
  by_cases hself : p.signer = canonicalUserId D.self
  · cases holds p <;> simp [hself, bind, Except.bind, pure, Except.pure]
  · have hplain : p.signer ∉ inheritedNames := hs.resolve_left hself
    rw [admittedAt_plain hplain]
    cases AdmissionGate.admittedAt w.community (removals p.signer) p.signer (.place p.observed.place) true
    · simp [hself, bind, Except.bind, pure, Except.pure]
    · cases holds p <;> simp [hself, bind, Except.bind, pure, Except.pure]

theorem foldlM_plain {pending : List Pending} (h : ∀ p ∈ pending, PlainVoucher D p) : ∀ w : Sweep,
    pending.foldlM (visit D removals holds) w = .ok (pending.foldl (AdmissionGate.visit D removals holds) w) := by
  induction pending with
  | nil => intro w; rfl
  | cons p rest ih =>
    intro w
    rw [foldlM_cons, visit_plain (h p mem_cons_self)]
    exact ih (fun q hq => h q (mem_cons_of_mem _ hq)) _

theorem mem_left_foldl {pending : List Pending} : ∀ w : Sweep,
    ∀ q ∈ (pending.foldl (AdmissionGate.visit D removals holds) w).left,
    q ∈ w.left ∨ q ∈ pending := by
  induction pending with
  | nil => intro w q hq; exact Or.inl hq
  | cons p rest ih =>
    intro w q hq
    rcases ih _ q hq with hq | hq
    · unfold AdmissionGate.visit at hq
      split at hq
      · rcases mem_append.mp hq with hq | hq
        · exact Or.inl hq
        · exact Or.inr (mem_cons.mpr (Or.inl (mem_singleton.mp hq)))
      · split at hq <;> exact Or.inl hq
    · exact Or.inr (mem_cons_of_mem _ hq)

theorem passes_plain (fuel : Nat) : ∀ (community : CommunityAdmissions)
    (pending : List Pending), (∀ p ∈ pending, PlainVoucher D p) →
    passes D removals holds fuel community pending = .ok
      (AdmissionGate.passes D removals holds fuel community pending) := by
  induction fuel with
  | zero => intro community pending _; rfl
  | succ fuel ih =>
    intro community pending h
    have hpass : pass D removals holds community pending = .ok
      (AdmissionGate.pass D removals holds community pending) :=
      foldlM_plain h _
    have hleft : ∀ q ∈ (AdmissionGate.pass D removals holds community pending).left, PlainVoucher D q := by
      intro q hq
      rcases mem_left_foldl _ q hq with hq | hq
      · cases hq
      · exact h q hq
    unfold passes AdmissionGate.passes
    rw [hpass]
    simp only [bind, Except.bind]
    split
    · exact ih _ _ hleft
    · rfl

theorem gate_holdsAdmission_iff :
    AdmissionGate.holdsAdmission community user place = true ↔ place ∈ community.admissions user := by
  simp [AdmissionGate.holdsAdmission]

theorem mem_gate_pendingOf {roster : Roster} : p ∈ AdmissionGate.pendingOf D community roster ↔
    Standing D community roster p ∧ p.voucher.place ∉ community.admissions p.user := by
  unfold AdmissionGate.pendingOf
  rw [mem_filterMap]
  constructor
  · intro h
    obtain ⟨⟨user, row⟩, hmem, hp⟩ := h
    simp only [Option.bind_eq_bind, Option.bind_eq_some_iff] at hp
    obtain ⟨encoded, hv, hp⟩ := hp
    split at hp
    · cases hp
    · rename_i he
      obtain ⟨voucher, hr, hp⟩ := Option.bind_eq_some_iff.mp hp
      split at hp
      · cases hp
      · rename_i hh
        obtain ⟨observed, ho, hp⟩ := Option.bind_eq_some_iff.mp hp
        split at hp
        · cases hp
        · rename_i hf
          cases hp
          exact ⟨⟨⟨row, hmem, hv⟩, by simpa using he, hr, ho, by simpa using hf⟩, mt (gate_holdsAdmission_iff).mpr hh⟩
  · intro ⟨hs, hnot⟩
    obtain ⟨row, hmem, hv⟩ := hs.row
    have hh : AdmissionGate.holdsAdmission community p.user p.voucher.place = false :=
      Bool.eq_false_iff.mpr (mt (gate_holdsAdmission_iff).mp hnot)
    refine ⟨(p.user, row), hmem, ?_⟩
    simp [hv, hs.written, hs.reads, hh, hs.seen, hs.unrefused]

variable {ledger : Ledger}

theorem verify_plain {roster : Members} (h : PlainNames D ledger roster) :
    verifyRosterVouchers D removals holds ledger.community roster.rows =
      .ok (AdmissionGate.verifyRosterVouchers D removals holds ledger.community roster.rows) := by
  unfold verifyRosterVouchers AdmissionGate.verifyRosterVouchers
  rw [pendingOf_plain h.1]
  refine passes_plain _ _ _ ?_
  intro p hp
  obtain ⟨hs, hnot⟩ := (mem_gate_pendingOf).mp hp
  obtain ⟨row, hrow, hv⟩ := hs.row
  exact ⟨h.1 p.user row p.encoded p.voucher hrow hv hs.written hs.reads, h.2 p hs hnot⟩

end Plain

/-! ## Any other name ends the check -/

section Inherited

variable {D : Device} {removals : String → List AdmissionPlace} {holds : Pending → Bool}

theorem pendingRow_throws {community : CommunityAdmissions} (hown : Own community) {user : String} {row : RosterRow}
    {encoded : String}
    {voucher : AdmissionVoucher} (hv : row.voucher = some encoded) (he : encoded ≠ "")
    (hr : readVoucher D user encoded = some voucher)
    (hu : user ∈ inheritedNames) : pendingRow D community user row = .error .typeError := by
  have hholds : holdsAdmission community user voucher.place = .error .typeError := by
    simp [holdsAdmission, admissionsAt_inherited hu (hown user hu), bind, Except.bind]
  simp [pendingRow, hv, he, hr, hholds, bind, Except.bind]

theorem pendingOf_throws {community : CommunityAdmissions} (hown : Own community) {roster : Roster} {user : String}
    {row : RosterRow}
    {encoded : String} {voucher : AdmissionVoucher} (hmem : (user, row) ∈ roster) (hv : row.voucher = some encoded)
    (he : encoded ≠ "")
    (hr : readVoucher D user encoded = some voucher)
    (hu : user ∈ inheritedNames) : ∃ e, pendingOf D community roster = .error e := by
  induction roster with
  | nil => cases hmem
  | cons member rest ih =>
    obtain ⟨u, r⟩ := member
    rcases mem_cons.mp hmem with heq | hmem
    · cases heq
      exact ⟨.typeError, by simp [pendingOf, pendingRow_throws hown hv he hr hu, bind, Except.bind]⟩
    · obtain ⟨e, hrest⟩ := ih hmem
      cases hrow : pendingRow D community u r with
      | error e' => exact ⟨e', by simp [pendingOf, hrow, bind, Except.bind]⟩
      | ok here => exact ⟨e, by simp [pendingOf, hrow, hrest, bind, Except.bind]⟩

theorem visit_throws {w : Sweep} (hown : Own w.community) (hself : p.signer ≠ canonicalUserId D.self)
    (hs : p.signer ∈ inheritedNames) : visit D removals holds w p = .error .typeError := by
  have had : admittedAt w.community (removals p.signer) p.signer
    (.place p.observed.place) true = .error .typeError := by
    simp [admittedAt, admissionsAt_inherited hs (hown p.signer hs), bind, Except.bind]
  simp [visit, hself, had, bind, Except.bind]

theorem own_visit {w : Sweep} (hown : Own w.community) (hu : p.user ∉ inheritedNames) :
    Own (AdmissionGate.visit D removals holds w p).community := by
  intro name hname
  have hne : name ≠ p.user := by
    intro heq
    exact hu (heq ▸ hname)
  unfold AdmissionGate.visit
  split
  · exact hown name hname
  · split
    · exact hown name hname
    · simp only [Function.update_of_ne hne]
      exact hown name hname

theorem foldlM_throws {pending : List Pending} (hu : ∀ p ∈ pending, p.user ∉ inheritedNames) (hp : p ∈ pending)
    (hself : p.signer ≠ canonicalUserId D.self) (hs : p.signer ∈ inheritedNames) : ∀ w : Sweep, Own w.community →
    pending.foldlM (visit D removals holds) w = .error .typeError := by
  induction pending with
  | nil => cases hp
  | cons q rest ih =>
    intro w hown
    rw [foldlM_cons]
    by_cases hq : PlainVoucher D q
    · rw [visit_plain hq]
      have hrest : p ∈ rest := by
        rcases mem_cons.mp hp with heq | hrest
        · subst heq
          exact absurd hs (hq.2.resolve_left hself)
        · exact hrest
      exact ih (fun r hr => hu r (mem_cons_of_mem _ hr)) hrest _ (own_visit hown hq.1)
    · have hqu := hu q mem_cons_self
      unfold PlainVoucher at hq
      push Not at hq
      obtain ⟨hqs, hqi⟩ := hq hqu
      rw [visit_throws hown hqs hqi]
      rfl

theorem verify_throws {roster : Members} (h : ¬ PlainNames D ledger roster) :
    ∃ e, verifyRosterVouchers D removals holds ledger.community roster.rows = .error e := by
  unfold verifyRosterVouchers
  by_cases hrows : ∀ user row encoded voucher, (user, row) ∈ roster.rows → row.voucher = some encoded → encoded ≠ "" →
      readVoucher D user encoded = some voucher → user ∉ inheritedNames
  · unfold PlainNames at h
    push Not at h
    obtain ⟨p, hstand, hnot, hself, hinh⟩ := h hrows
    have hp : p ∈ AdmissionGate.pendingOf D ledger.community roster.rows := (mem_gate_pendingOf).mpr ⟨hstand, hnot⟩
    have husers : ∀ q ∈ AdmissionGate.pendingOf D ledger.community roster.rows, q.user ∉ inheritedNames := by
      intro q hq
      have hs := ((mem_gate_pendingOf).mp hq).1
      obtain ⟨row, hrow, hv⟩ := hs.row
      exact hrows q.user row q.encoded q.voucher hrow hv hs.written hs.reads
    have hpass : pass D removals holds ledger.community
      (AdmissionGate.pendingOf D ledger.community roster.rows) = .error .typeError :=
      foldlM_throws husers hp hself hinh _ ledger.own
    obtain ⟨n, hn⟩ : ∃ n, (AdmissionGate.pendingOf D ledger.community roster.rows).length = n + 1 :=
      Nat.exists_eq_succ_of_ne_zero (Nat.ne_of_gt (length_pos_of_mem hp))
    rw [pendingOf_plain hrows]
    refine ⟨.typeError, ?_⟩
    simp only [bind, Except.bind]
    rw [hn, passes, hpass]
    rfl
  · push Not at hrows
    obtain ⟨user, row, encoded, voucher, hmem, hv, he, hr, hu⟩ := hrows
    obtain ⟨e, hthrow⟩ := pendingOf_throws ledger.own hmem hv he hr hu
    exact ⟨e, by rw [hthrow]; rfl⟩

end Inherited

/-! ## The passes as a worklist -/

section Passes

variable {D : Device} {removals : String → List AdmissionPlace} {holds : Pending → Bool}
    {community : CommunityAdmissions}

def grown (community : CommunityAdmissions) (taken : List Pending) : CommunityAdmissions :=
  { community with admissions := fun user =>
      community.admissions user ++ (taken.filter (·.user == user)).map (·.voucher.place) }

theorem grown_nil : grown community [] = community := by
  simp [grown]

theorem grown_concat (taken : List Pending) (p : Pending) : grown community (taken ++ [p]) =
    { grown community taken with
      admissions := Function.update (grown community taken).admissions p.user
        ((grown community taken).admissions p.user ++ [p.voucher.place]) } := by
  unfold grown
  congr 1
  funext user
  by_cases hu : user = p.user
  · subst hu
    simp
  · have hne : ¬ p.user = user := fun h => hu h.symm
    simp [Function.update_of_ne hu, hne]

def facts (S : Set Pending) : Set (String × AdmissionPlace) := { f | ∃ p ∈ S, f = (p.user, p.voucher.place) }

theorem recorded_grown (taken : List Pending) : Recorded (grown community taken) = Recorded community ∪ facts
    { p | p ∈ taken } := by
  ext ⟨user, place⟩
  simp only [Recorded, grown, facts, Set.mem_ofPred_eq, Set.mem_union, mem_append, mem_map, mem_filter, beq_iff_eq,
    Prod.mk.injEq]
  constructor
  · intro h
    rcases h with h | ⟨p, ⟨hp, hu⟩, hpl⟩
    · exact Or.inl h
    · exact Or.inr ⟨p, hp, hu.symm, hpl.symm⟩
  · intro h
    rcases h with h | ⟨p, hp, hu, hpl⟩
    · exact Or.inl h
    · exact Or.inr ⟨p, ⟨hp, hu.symm⟩, hpl.symm⟩

def enabled (D : Device) (removals : String → List AdmissionPlace)
    (community : CommunityAdmissions) : Set Pending →o Set Pending where
  toFun S := { p | SignerCounts D community removals (Recorded community ∪ facts S) p }
  monotone' := by
    intro S T h p hp
    refine hp.imp id (AdmittedIn.mono (Set.union_subset_union_right _ ?_))
    intro f hf
    obtain ⟨q, hq, hfq⟩ := hf
    exact ⟨q, h hq, hfq⟩

def ready (D : Device) (removals : String → List AdmissionPlace) (community : CommunityAdmissions)
    (taken : List Pending) (p : Pending) : Bool :=
  p.signer == canonicalUserId D.self ||
    AdmissionGate.admittedAt (grown community taken) (removals p.signer) p.signer (.place p.observed.place) true

theorem gate_admittedAt_iff {user : String} :
    AdmissionGate.admittedAt community (removals user) user (.place place) true = true ↔
      AdmittedIn community.roots removals (Recorded community) user place := by
  unfold AdmissionGate.admittedAt AdmissionGate.starts AdmittedIn Reaches Recorded
  cases hroot : (community.roots user).isSome <;> simp

theorem ready_iff (taken : List Pending) (p : Pending) :
    ready D removals community taken p = true ↔ p ∈ enabled D removals community { x | x ∈ taken } := by
  unfold ready
  rw [Bool.or_eq_true, beq_iff_eq, gate_admittedAt_iff, recorded_grown]
  rfl

theorem gate_visit (taken left : List Pending) (moved : Bool) (p : Pending) :
    AdmissionGate.visit D removals holds ⟨grown community taken, left, moved⟩ p =
      let w := Worklist.visit (ready D removals community) holds ⟨taken, left, moved⟩ p
      ⟨grown community w.taken, w.left, w.moved⟩ := by
  have hcond : (p.signer != canonicalUserId D.self &&
      !AdmissionGate.admittedAt (grown community taken) (removals p.signer) p.signer (.place p.observed.place) true) =
      !ready D removals community taken p := by
    simp [ready, bne]
  unfold AdmissionGate.visit Worklist.visit
  simp only [hcond]
  cases ready D removals community taken p
  · rfl
  · cases holds p
    · rfl
    · simp [grown_concat]

theorem gate_foldl (pending : List Pending) : ∀ (taken left : List Pending) (moved : Bool),
    pending.foldl (AdmissionGate.visit D removals holds) ⟨grown community taken, left, moved⟩ =
      let w := pending.foldl (Worklist.visit (ready D removals community) holds) ⟨taken, left, moved⟩
      ⟨grown community w.taken, w.left, w.moved⟩ := by
  induction pending with
  | nil => intro taken left moved; rfl
  | cons p rest ih =>
    intro taken left moved
    rw [foldl_cons, gate_visit]
    exact ih _ _ _

theorem gate_passes (fuel : Nat) : ∀ taken pending : List Pending,
    AdmissionGate.passes D removals holds fuel (grown community taken) pending =
      let r := Worklist.passes (ready D removals community) holds fuel taken pending
      (grown community r.1, r.2) := by
  induction fuel with
  | zero => intro taken pending; rfl
  | succ fuel ih =>
    intro taken pending
    have hpass : AdmissionGate.pass D removals holds (grown community taken) pending = _ :=
      gate_foldl pending taken [] false
    unfold AdmissionGate.passes Worklist.passes
    rw [hpass]
    simp only
    unfold Worklist.pass
    split
    · exact ih _ _
    · rfl

def takenOf (D : Device) (removals : String → List AdmissionPlace) (holds : Pending → Bool)
    (community : CommunityAdmissions)
    (roster : Roster) : List Pending :=
  (Worklist.run (ready D removals community) holds (AdmissionGate.pendingOf D community roster)).1

theorem gate_verify (D : Device) (removals : String → List AdmissionPlace) (holds : Pending → Bool)
    (community : CommunityAdmissions)
    (roster : Roster) : (AdmissionGate.verifyRosterVouchers D removals holds community roster).1 =
      grown community (takenOf D removals holds community roster) := by
  have h : AdmissionGate.passes D removals holds (AdmissionGate.pendingOf D community roster).length
    (grown community [])
      (AdmissionGate.pendingOf D community roster) = _ := gate_passes _ _ _
  rw [grown_nil] at h
  unfold AdmissionGate.verifyRosterVouchers
  rw [h]
  rfl

theorem users_sublist (roster : Roster) :
    ((AdmissionGate.pendingOf D community roster).map (·.user)).Sublist (roster.map Prod.fst) := by
  induction roster with
  | nil => exact List.Sublist.slnil
  | cons member rest ih =>
    obtain ⟨user, row⟩ := member
    rw [gate_pendingOf_cons]
    cases hrow : gateRow D community user row with
    | none => exact ih.cons user
    | some p =>
      have hp : p ∈ AdmissionGate.pendingOf D community [(user, row)] := mem_of_mem_head? hrow
      obtain ⟨row', hmem, -⟩ := ((mem_gate_pendingOf).mp hp).1.row
      have hu : p.user = user := congrArg Prod.fst (mem_singleton.mp hmem)
      show (p.user :: _).Sublist (user :: _)
      rw [hu]
      exact ih.cons_cons user

variable (roster : Members)

theorem nodup_users : ((AdmissionGate.pendingOf D community roster.rows).map (·.user)).Nodup :=
  roster.distinct.sublist (users_sublist roster.rows)

theorem nodup_pending : (AdmissionGate.pendingOf D community roster.rows).Nodup :=
    List.Nodup.of_map _ (nodup_users roster)

theorem taken_eq_lfp : { p | p ∈ takenOf D removals holds community roster.rows } =
    (Worklist.operator (enabled D removals community) holds (AdmissionGate.pendingOf D community roster.rows)).lfp :=
  Worklist.taken_eq_lfp ready_iff (nodup_pending roster)

theorem mem_taken (hp : p ∈ takenOf D removals holds community roster.rows) :
    p ∈ AdmissionGate.pendingOf D community roster.rows ∧ holds p = true ∧
      SignerCounts D community removals
        (Recorded (grown community (takenOf D removals holds community roster.rows))) p := by
  have h : p ∈ (Worklist.operator (enabled D removals community) holds
    (AdmissionGate.pendingOf D community roster.rows)).lfp := by
    rw [← taken_eq_lfp]
    exact hp
  rw [← OrderHom.map_lfp, ← taken_eq_lfp] at h
  obtain ⟨hmem, hh, hen⟩ := Worklist.mem_operator.mp h
  refine ⟨hmem, hh, ?_⟩
  rw [recorded_grown]
  exact hen

theorem grown_perm {taken taken' : List Pending} (h : taken.Perm taken')
    (hu : ∀ p ∈ taken, ∀ q ∈ taken, p.user = q.user → p = q) : grown community taken = grown community taken' := by
  have hfilter : ∀ user, taken.filter (·.user == user) = taken'.filter (·.user == user) := by
    intro user
    have hle : ∀ l : List Pending, l.Pairwise fun _ _ => True := fun _ => pairwise_of_forall fun _ _ => trivial
    refine List.Perm.eq_of_pairwise ?_ (hle _) (hle _) (h.filter _)
    intro p q hp hq _ _
    simp only [mem_filter, beq_iff_eq] at hp hq
    exact hu p hp.1 q (h.mem_iff.mpr hq.1) (hp.2.trans hq.2.symm)
  unfold grown
  simp only [hfilter]

theorem grown_taken_perm (other : Members) (h : other.rows.Perm roster.rows) :
    grown community (takenOf D removals holds community other.rows) = grown community
      (takenOf D removals holds community roster.rows) := by
  have hpending : (AdmissionGate.pendingOf D community other.rows).Perm
    (AdmissionGate.pendingOf D community roster.rows) :=
    h.filterMap _
  refine grown_perm (Worklist.taken_perm ready_iff (nodup_pending other) hpending) ?_
  intro p hp q hq heq
  exact inj_on_of_nodup_map (nodup_users other) (mem_taken other hp).1 (mem_taken other hq).1 heq

/-! ## The least set of admissions -/

theorem recorded_eq_lfp : Recorded (grown community (takenOf D removals holds community roster.rows)) =
    (vouching D removals holds community roster.rows).lfp := by
  apply le_antisymm
  · -- what the passes took is taken by the rule as well
    have htaken : { p | p ∈ takenOf D removals holds community roster.rows } ≤
        { p | (p.user, p.voucher.place) ∈ (vouching D removals holds community roster.rows).lfp } := by
      rw [taken_eq_lfp]
      apply OrderHom.lfp_le
      intro p hp
      obtain ⟨hmem, hh, hen⟩ := Worklist.mem_operator.mp hp
      rw [← OrderHom.map_lfp]
      refine Or.inr ⟨p, (mem_gate_pendingOf.mp hmem).1, hh, hen.imp id (AdmittedIn.mono ?_), rfl⟩
      intro f hf
      rcases hf with hf | ⟨q, hq, rfl⟩
      · rw [← OrderHom.map_lfp]
        exact Or.inl hf
      · exact hq
    intro f hf
    rw [recorded_grown] at hf
    rcases hf with hf | ⟨p, hp, rfl⟩
    · rw [← OrderHom.map_lfp]
      exact Or.inl hf
    · exact htaken hp
  · -- and the ledger they leave is closed under the rule
    apply OrderHom.lfp_le
    intro f hf
    rw [recorded_grown]
    rcases hf with hf | ⟨p, hs, hh, hc, rfl⟩
    · exact Or.inl hf
    · by_cases hheld : p.voucher.place ∈ community.admissions p.user
      · exact Or.inl hheld
      · refine Or.inr ⟨p, ?_, rfl⟩
        rw [taken_eq_lfp, ← OrderHom.map_lfp, ← taken_eq_lfp]
        rw [recorded_grown] at hc
        exact Worklist.mem_operator.mpr ⟨mem_gate_pendingOf.mpr ⟨hs, hheld⟩, hh, hc⟩

theorem enabled_cases (S : Set Pending) (p : Pending) (h : p ∈ enabled D removals community S) :
    SignerCounts D community removals (Recorded community) p ∨ ∃ q ∈ S, Links removals q p := by
  rcases h with h | h | ⟨a, ha, hr⟩
  · exact Or.inl (Or.inl h)
  · exact Or.inl (Or.inr (Or.inl h))
  · rcases ha with ha | ⟨q, hq, heq⟩
    · exact Or.inl (Or.inr (Or.inr ⟨a, ha, hr⟩))
    · obtain ⟨hu, hpl⟩ := Prod.mk.inj heq
      subst hpl
      exact Or.inr ⟨q, hq, hu.symm, hr⟩

theorem chain_of_taken (hp : p ∈ takenOf D removals holds community roster.rows) :
    ∃ vouchers : List Pending, vouchers.getLast? = some p ∧
      (∀ q ∈ vouchers, Standing D community roster.rows q ∧ holds q = true) ∧
      vouchers.IsChain (Links removals) ∧ ∀ q ∈ vouchers.head?,
        SignerCounts D community removals (Recorded community) q := by
  have hl : p ∈ (Worklist.operator (enabled D removals community) holds
    (AdmissionGate.pendingOf D community roster.rows)).lfp := by
    rw [← taken_eq_lfp]
    exact hp
  obtain ⟨vouchers, hc, hlast, hall, hhead⟩ := Worklist.exists_chain enabled_cases hl
  exact ⟨vouchers, hlast, fun q hq => ⟨(mem_gate_pendingOf.mp (hall q hq).1).1, (hall q hq).2⟩, hc, hhead⟩

/-- A ring that no root, no earlier admission and not this device vouches into stays out. -/
theorem ring_stays_out {ring : Set String}
    (hv : ∀ p, Standing D community roster.rows p → p.user ∈ ring → p.signer ∈ ring ∧ p.signer ≠ canonicalUserId D.self)
    (hr : ∀ user ∈ ring, community.roots user = none ∧ community.admissions user = []) :
    (vouching D removals holds community roster.rows).lfp ≤ { f | f.1 ∉ ring } := by
  apply OrderHom.lfp_le
  intro f hf hring
  rcases hf with hf | ⟨p, hs, -, hc, rfl⟩
  · have hnil := (hr f.1 hring).2
    unfold Recorded at hf
    rw [Set.mem_ofPred_eq, hnil] at hf
    cases hf
  · obtain ⟨hsigner, hself⟩ := hv p hs hring
    rcases hc with hc | ⟨hroot, -⟩ | ⟨a, ha, -⟩
    · exact hself hc
    · rw [(hr p.signer hsigner).1] at hroot
      cases hroot
    · exact ha hsigner

end Passes

/-! ## When the check does what it is for -/

theorem own_grown {D : Device} {removals : String → List AdmissionPlace} {holds : Pending → Bool} {roster : Members}
    (h : PlainNames D ledger roster) :
    Own (grown ledger.community (takenOf D removals holds ledger.community roster.rows)) := by
  intro name hname
  have hnone : (takenOf D removals holds ledger.community roster.rows).filter (·.user == name) = [] := by
    rw [filter_eq_nil_iff]
    intro p hp
    have hs := (mem_gate_pendingOf.mp (mem_taken roster hp).1).1
    obtain ⟨row, hrow, hv⟩ := hs.row
    have hplain := h.1 p.user row p.encoded p.voucher hrow hv hs.written hs.reads
    have hne : p.user ≠ name := by
      intro heq
      exact hplain (heq ▸ hname)
    simpa using hne
  simp [grown, ledger.own name hname, hnone]

theorem plainNames_perm {D : Device} {roster other : Members} (hp : other.rows.Perm roster.rows)
    (h : PlainNames D ledger roster) : PlainNames D ledger other := by
  refine ⟨fun user row encoded voucher hmem => h.1 user row encoded voucher (hp.mem_iff.mp hmem), ?_⟩
  intro p hs
  obtain ⟨row, hmem, hv⟩ := hs.row
  exact h.2 p ⟨⟨row, hp.mem_iff.mp hmem, hv⟩, hs.written, hs.reads, hs.seen, hs.unrefused⟩

/-- The check records the least set of admissions its vouchers give, each with a chain behind it,
    exactly when no name it looks up is one a plain object inherits. -/
theorem chains_are_least_iff_names_are_plain (D : Device) (removals : String → List AdmissionPlace)
    (holds : Pending → Bool)
    (ledger : Ledger) (roster : Members) :
    (∃ after, LeastChains D removals holds ledger roster after) ↔ PlainNames D ledger roster := by
  constructor
  · intro ⟨after, h⟩
    by_contra hplain
    obtain ⟨left, hok⟩ := h.order roster (List.Perm.refl _)
    obtain ⟨e, herr⟩ : ∃ e, verifyRosterVouchers D removals holds ledger.community roster.rows = .error e :=
      verify_throws hplain
    rw [hok] at herr
    cases herr
  · intro h
    refine ⟨⟨grown ledger.community (takenOf D removals holds ledger.community roster.rows), own_grown h⟩,
      ?_, ⟨rfl, rfl⟩,
      recorded_eq_lfp roster, ?_, ?_⟩
    · intro other hp
      refine ⟨(AdmissionGate.verifyRosterVouchers D removals holds ledger.community other.rows).2, ?_⟩
      show _ = Except.ok (grown ledger.community (takenOf D removals holds ledger.community roster.rows), _)
      rw [verify_plain (plainNames_perm hp h), ← grown_taken_perm roster other hp, ← gate_verify]
    · intro user place hafter hbefore
      rw [recorded_grown] at hafter
      rcases hafter with hafter | ⟨p, hp, heq⟩
      · exact absurd hafter hbefore
      · obtain ⟨hu, hpl⟩ := Prod.mk.inj heq
        obtain ⟨vouchers, hlast, hrest⟩ := chain_of_taken roster hp
        exact ⟨vouchers, ⟨p, hlast, hu.symm, hpl.symm⟩, hrest⟩
    · intro ring hv hr user huser
      rw [eq_nil_iff_forall_not_mem]
      intro place hplace
      have hmem : (user, place) ∈ (vouching D removals holds ledger.community roster.rows).lfp := by
        rw [← recorded_eq_lfp]
        exact hplace
      exact ring_stays_out roster hv hr hmem huser

/-! ## Where rosters and ledgers come from -/

theorem keys_setRow (roster : Roster) (user : String) (row : RosterRow) (h : (roster.map Prod.fst).Nodup) :
    ((setRow roster user row).map Prod.fst).Nodup := by
  unfold setRow
  split
  · have hkeys : (roster.map fun p => if p.1 == user then (user, row) else p).map Prod.fst = roster.map Prod.fst := by
      rw [map_map]
      refine map_congr_left ?_
      intro p _
      by_cases hp : p.1 = user <;> simp [hp]
    rw [hkeys]
    exact h
  · rename_i hnew
    have hfresh : user ∉ roster.map Prod.fst := by
      intro hmem
      obtain ⟨p, hp, rfl⟩ := mem_map.mp hmem
      exact hnew (List.any_eq_true.mpr ⟨p, hp, by simp⟩)
    rw [map_append, nodup_append]
    refine ⟨h, by simp, ?_⟩
    intro a ha b hb
    rw [mem_singleton.mp hb]
    intro (heq : a = user)
    exact hfresh (heq ▸ ha)

theorem keys_rosterByUser (rows : List ChannelMemberDto) : ((rosterByUser rows).map Prod.fst).Nodup := by
  refine List.foldlRecOn (motive := fun (out : Roster) => (out.map Prod.fst).Nodup) rows _ nodup_nil ?_
  intro out h row _
  simp only
  split
  · split
    · exact h
    · exact keys_setRow out _ _ h
  · exact h

def membersOf (rows : List ChannelMemberDto) : Members := ⟨rosterByUser rows, keys_rosterByUser rows⟩

def newLedger (identities : List String) (roster : Roster) (observed : String → Option Observation) : Ledger where
  community := ⟨rootsOf identities roster, fun _ => [], observed⟩
  own := fun _ _ => rfl

/-! ## Runs -/

/-- Ada signs for Ben and this device for Ada; Cy and Dan sign for each other, and Eve says that
    `constructor` signed for her. -/
def vouchers (encoded : String) : Option AdmissionVoucher :=
  match encoded with
  | "ben" => some ⟨.direct, "w", "ben", ⟨"ada", "1"⟩, ⟨"g", 2⟩⟩
  | "ada" => some ⟨.direct, "w", "ada", ⟨"me", "1"⟩, ⟨"g", 1⟩⟩
  | "cy" => some ⟨.direct, "w", "cy", ⟨"dan", "1"⟩, ⟨"g", 1⟩⟩
  | "dan" => some ⟨.direct, "w", "dan", ⟨"cy", "1"⟩, ⟨"g", 1⟩⟩
  | "eve" => some ⟨.direct, "w", "eve", ⟨"constructor", "1"⟩, ⟨"g", 1⟩⟩
  | _ => none

def phone : Device := ⟨"me", "w", vouchers⟩

def seen : Ledger := newLedger [] [] fun _ => some ⟨⟨"g", 3⟩, 0⟩

def rosterOf (users : List String) : Members :=
    membersOf (users.map fun user => ⟨user, some 1800000000000, false, some user⟩)

/-- A voucher that names `constructor` as its signer takes every other admission down with it. -/
theorem an_inherited_signer_ends_the_check : ¬ ∀ D removals holds ledger roster, ∃ after,
    LeastChains D removals holds ledger roster after := by
  intro h
  obtain ⟨after, hleast⟩ := h phone (fun _ => []) (fun _ => true) seen (rosterOf ["ada", "eve"])
  obtain ⟨left, hok⟩ := hleast.order _ (List.Perm.refl _)
  have herr : (verifyRosterVouchers phone (fun _ => []) (fun _ => true) seen.community
    (rosterOf ["ada", "eve"]).rows).toOption.isNone = true := by
    decide
  rw [hok] at herr
  cases herr

end Canari.Graine.VoucherChains
