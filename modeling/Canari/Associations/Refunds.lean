/-
  Canari.Associations.Refunds — refunds of one payment
  (`apps/social-service/src/associations/refunds/refunds.service.ts`).

  A refund is a `lydia_refunds` row written `pending` before core asks Lydia. The steps
  of `refund` are the statements of its one connection: the claim (one transaction under
  the payment's row lock, which also takes the row's call lock), the `calledAt` stamp,
  the call, Lydia's answer, `settle` and, when a confirmed answer could not be recorded,
  `markUnrecorded`. Every statement may fail, every commit may lose its acknowledgement
  with its connection, the connection may be lost while the process lives, and the
  process may die between any two steps. The call lock is held exactly while the request's
  connection lives and has not released it.

  `resolve` reads the row, then settles it in a transaction of its own: two steps.
  `sweepAbandoned` marks one row a transaction.

  The clock is the database's, in milliseconds. What the service relies on of the
  provider is in `step`: a confirmation is answered only of a refund given, a refusal only
  of a call that ended without giving, and no call runs `REFUND_CALL_BOUND_MS` after its
  stamp. An answer can be lost at any time.

  The payer's identity, the tier tags and the seats that a withdrawal touches are left
  out, but for whether a tag was revoked, which the side effect names.
-/

import Mathlib.Algebra.Ring.Int.Defs
import Canari.Lib.Machine
import Canari.Lib.Table

namespace Canari.Associations.Refunds

open Lib

/-! ## The row -/

inductive RefundKind where
  | total
  | partial_
  deriving DecidableEq

inductive RefundStatus where
  | pending
  | confirmed
  | refused
  deriving DecidableEq

inductive Outcome where
  | refunded
  | refusal (code : String)
  | noAnswer
  | notSent
  | declaredRefunded
  | declaredNotRefunded
  | refundedUnrecorded
  deriving DecidableEq

inductive RefundWithdrawal where
  | membership
  | form
  | formMembership
  | shop
  | topup
  | unidentified

inductive RefundSideEffect where
  | cotisationRevoked
  | cotisationNotHeld
  | seatFreed
  | seatFreedCotisationRevoked
  | seatFreedCotisationNotHeld
  | purchaseRefunded
  | topupBalanceUnchanged
  | notAppliedUnidentified
  | notAppliedAlreadyWithdrawn

/-- A `lydia_refunds` row of the payment; its id is its key in the table. -/
structure LydiaRefund where
  associationId : String
  vendorToken : String
  orderRef : String
  kind : RefundKind
  amountCents : Nat
  reason : String
  idempotencyKey : String
  status : RefundStatus
  /-- None while the call is running. -/
  outcome : Option Outcome
  lateOutcome : Option Outcome
  /-- None when nothing was sent. -/
  calledAt : Option Int
  sideEffect : Option RefundSideEffect
  requestedByUserId : String
  requestedAt : Int
  answeredAt : Option Int
  resolvedByUserId : Option String
  resolvedAt : Option Int

def REFUND_CALL_BOUND_MS : Int := 90000

def REFUND_REASON_MAX_LENGTH : Nat := 500

/-- `CALL_OVER_SQL`: the call never started, or its start is past the bound. -/
def callOver (now : Int) (row : LydiaRefund) : Bool :=
  match row.calledAt with
  | none => true
  | some t => t < now - REFUND_CALL_BOUND_MS

variable (row : LydiaRefund)

/-- The row as the claim wrote it: Lydia is being asked. -/
def LydiaRefund.asked : Prop := row.status = .pending ∧ row.outcome = none

instance (row : LydiaRefund) : Decidable row.asked := inferInstanceAs (Decidable (_ ∧ _))

/-- What the sum cap counts of a row: `status IN ('pending', 'confirmed')`. -/
def liveCents : Nat := if row.status = .refused then 0 else row.amountCents

/-! ## The view -/

inductive RefundViewState where
  | refunded
  | refused
  | inProgress
  | unconfirmed
  | unrecorded
  deriving DecidableEq

inductive LateAnswer where
  | refunded
  | refused
  deriving DecidableEq

structure RefundView where
  id : Nat
  kind : RefundKind
  amountCents : Nat
  reason : String
  state : RefundViewState
  refusal : Option Outcome
  lateAnswer : Option LateAnswer
  sideEffect : Option RefundSideEffect
  requestedAt : Int
  answeredAt : Option Int
  resolvedAt : Option Int

def viewStateOf : RefundViewState :=
  match row.status with
  | .confirmed => .refunded
  | .refused => .refused
  | .pending =>
    match row.outcome with
    | some .refundedUnrecorded => .unrecorded
    | none => .inProgress
    | some _ => .unconfirmed

def lateAnswerOf : Option LateAnswer :=
  match row.lateOutcome with
  | none => none
  | some o =>
    let late : LateAnswer := if o = .refunded then .refunded else .refused
    if decide (late = .refunded) = decide (row.status = .confirmed) then none else some late

def toView (id : Nat) (row : LydiaRefund) : RefundView where
  id
  kind := row.kind
  amountCents := row.amountCents
  reason := row.reason
  state := viewStateOf row
  refusal := if row.status = .refused then row.outcome else none
  lateAnswer := lateAnswerOf row
  sideEffect := row.sideEffect
  requestedAt := row.requestedAt
  answeredAt := row.answeredAt
  resolvedAt := row.resolvedAt

/-- What `refund` answers: the view, or a typed refusal that carries it. -/
inductive Answer where
  | view (v : RefundView)
  | gatewayTimeout (v : RefundView)
  | notReady (v : RefundView)
  | conflict (code : Option Outcome) (v : RefundView)

def Answer.refund : Answer → RefundView
  | .view v | .gatewayTimeout v | .notReady v | .conflict _ v => v

def answerOf (id : Nat) (settled : LydiaRefund) : Answer :=
  if settled.status = .pending ∧ settled.outcome ≠ some .refundedUnrecorded then .gatewayTimeout (toView id settled)
  else if settled.status = .refused ∧ settled.outcome = some .notSent then .notReady (toView id settled)
  else if settled.status = .refused then .conflict settled.outcome (toView id settled)
  else .view (toView id settled)

@[simp] theorem answerOf_refund (id : Nat) (row : LydiaRefund) : (answerOf id row).refund = toView id row := by
  unfold answerOf
  split
  · rfl
  · split
    · rfl
    · split <;> rfl

theorem toView_calledAt (id : Nat) (row : LydiaRefund) (t : Option Int) :
    toView id { row with calledAt := t } = toView id row := rfl

/-! ## The payment -/

inductive PurchaseStatus where
  | paid
  | paidNotGranted
  | pendingCash
  | cancelled
  | expired
  | refunded

def PurchaseStatus.received : PurchaseStatus → Bool
  | .paid | .paidNotGranted => true
  | _ => false

inductive NotRefundableReason where
  | notOnline
  | notReceived
  | untraceable
  | otherBusiness

/-- The Lydia transaction a settled checkout or an answer names, and what it bought. -/
structure Trace where
  orderRef : String
  vendorToken : String
  withdrawal : RefundWithdrawal

/-- The purchase record, with what `product_checkouts` or `submissions` hold of it. -/
structure PurchaseRecord where
  associationId : String
  amountCents : Nat
  online : Bool
  status : PurchaseStatus
  trace : Option Trace

variable (record : PurchaseRecord)

def targetOf : Except NotRefundableReason Trace :=
  if !record.online then .error .notOnline
  else if !record.status.received then .error .notReceived
  else
    match record.trace with
    | some t => .ok t
    | none => .error .untraceable

/-- Why the association holding `business` may not refund the payment, or none when it may. -/
def refusalOf (target : Except NotRefundableReason Trace) (business : Option String) : Option NotRefundableReason :=
  match target with
  | .error reason => some reason
  | .ok t => if some t.vendorToken = business then none else some .otherBusiness

/-! ## The request -/

/-- What JavaScript's `trim` drops. -/
def whiteSpace (c : Char) : Bool :=
  let n := c.toNat
  (9 ≤ n && n ≤ 13) || n = 0x20 || n = 0xa0 || n = 0x1680 || (0x2000 ≤ n && n ≤ 0x200a) || n = 0x2028 || n = 0x2029 ||
    n = 0x202f || n = 0x205f || n = 0x3000 || n = 0xfeff

def trim (cs : List Char) : List Char := ((cs.dropWhile whiteSpace).reverse.dropWhile whiteSpace).reverse

def utf16Length (cs : List Char) : Nat := (cs.map fun c => if c.toNat < 0x10000 then 1 else 2).sum

def hexDigit (c : Char) : Bool := c.isDigit || ('a' ≤ c && c ≤ 'f') || ('A' ≤ c && c ≤ 'F')

def UUID_RE (cs : List Char) : Bool :=
  cs.length = 36 &&
    (cs.zipIdx).all fun (c, i) => if i = 8 || i = 13 || i = 18 || i = 23 then c = '-' else hexDigit c

structure RefundInput where
  kind : RefundKind
  amountCents : Option Int
  reason : String
  idempotencyKey : String

def MAX_SAFE_INTEGER : Int := 2 ^ 53 - 1

def RefundInput.valid (input : RefundInput) : Bool :=
  let reason := trim input.reason.toList
  !reason.isEmpty && utf16Length reason ≤ REFUND_REASON_MAX_LENGTH && UUID_RE input.idempotencyKey.toList &&
    match input.kind with
    | .total => true
    | .partial_ =>
      match input.amountCents with
      | some a => 0 < a && a ≤ MAX_SAFE_INTEGER
      | none => false

/-- The key as its `uuid` column holds it. -/
def RefundInput.key (input : RefundInput) : String := String.ofList (input.idempotencyKey.toList.map Char.toLower)

inductive Refusal where
  | invalid
  | notFound
  | inFlight
  | notRefundable (reason : NotRefundableReason)
  | exceedsPaid (remainingCents : Nat)
  | notPending

inductive Claim where
  | replay (id : Nat) (own : LydiaRefund)
  | row (row : LydiaRefund)

structure Asker where
  associationId : String
  /-- The Lydia Business the association holds now. -/
  business : Option String
  actorId : String

def ownRow (rows : Table LydiaRefund) (key : String) : Option (Nat × LydiaRefund) :=
  (List.range rows.next).findSome? fun i => ((rows.rows i).filter fun r => r.idempotencyKey == key).map fun r => (i, r)

def tookIt (target : Except NotRefundableReason Trace) (business : Option String) : Bool :=
  match target with
  | .ok t => business == some t.vendorToken
  | .error _ => false

def amountAsked (input : RefundInput) : Nat :=
  match input.kind with
  | .total => record.amountCents
  | .partial_ => (input.amountCents.getD 0).toNat

def pendingRow (target : Trace) (now : Int) (asker : Asker) (input : RefundInput)
    (amountCents : Nat) : LydiaRefund where
  associationId := asker.associationId
  vendorToken := target.vendorToken
  orderRef := target.orderRef
  kind := input.kind
  amountCents
  reason := String.ofList (trim input.reason.toList)
  idempotencyKey := input.key
  status := .pending
  outcome := none
  lateOutcome := none
  calledAt := none
  sideEffect := none
  requestedByUserId := asker.actorId
  requestedAt := now
  answeredAt := none
  resolvedByUserId := none
  resolvedAt := none

/-- `claim`, inside its transaction. -/
def claim (rows : Table LydiaRefund) (now : Int) (asker : Asker) (input : RefundInput) :
    Except Refusal Claim :=
  if record.associationId ≠ asker.associationId ∧ tookIt (targetOf record) asker.business = false then .error .notFound
  else
    match ownRow rows input.key with
    | some (i, own) => .ok (.replay i own)
    | none =>
      if rows.any fun _ r => r.status = .pending then .error .inFlight
      else
        match targetOf record, refusalOf (targetOf record) asker.business with
        | .error reason, _ => .error (.notRefundable reason)
        | .ok _, some reason => .error (.notRefundable reason)
        | .ok target, none =>
          -- a total refund is refused once anything was refunded
          if (input.kind = .total ∧ rows.sum liveCents > 0) ∨
              rows.sum liveCents + amountAsked record input > record.amountCents then
            .error (.exceedsPaid (record.amountCents - rows.sum liveCents))
          else .ok (.row (pendingRow target now asker input (amountAsked record input)))

/-! ## Core's answer -/

/-- What social reads of core's answer: nothing, or a status, its typed code and `ok`. -/
inductive CoreAnswer where
  | noResponse
  | response (status : Nat) (code : Option String) (ok : Bool)

inductive CallOutcome where
  | confirmed
  | refused (outcome : Outcome)
  | noAnswer
  deriving DecidableEq

/-- `askLydia`: a 409 is a refusal Lydia answered, a 400, 403 or typed 503 means core sent nothing. -/
def askLydia : CoreAnswer → CallOutcome
  | .noResponse => .noAnswer
  | .response status code ok =>
    if 200 ≤ status ∧ status < 300 then if ok then .confirmed else .noAnswer
    else if status = 409 then
      match code with
      | some c => .refused (.refusal (if c = "" then "LYDIA_REFUND_REJECTED" else c))
      | none => .refused (.refusal "LYDIA_REFUND_REJECTED")
    else if status = 400 ∨ status = 403 ∨ (status = 503 ∧ code = some "PAYMENT_SERVICE_NOT_READY") then
      .refused .notSent
    else .noAnswer

/-! ## `settle` and `withdraw` -/

/-- `withdraw`: the side effect, and whether the record became `refunded`. -/
def withdraw (revoked : Bool) : RefundSideEffect × Bool :=
  if !record.status.received then (.notAppliedAlreadyWithdrawn, false)
  else
    match targetOf record with
    | .error _ => (.notAppliedUnidentified, true)
    | .ok t =>
      (match t.withdrawal with
        | .unidentified => .notAppliedUnidentified
        | .topup => .topupBalanceUnchanged
        | .shop => .purchaseRefunded
        | .membership => if revoked then .cotisationRevoked else .cotisationNotHeld
        | .form => .seatFreed
        | .formMembership => if revoked then .seatFreedCotisationRevoked else .seatFreedCotisationNotHeld, true)

structure Settled where
  row : LydiaRefund
  changed : Bool
  /-- The record became `refunded`. -/
  withdrew : Bool

def settledOutcome (confirmed : Bool) (answered : Outcome) (resolvedBy : Option String) : Outcome :=
  match resolvedBy with
  | none => answered
  | some _ =>
    if row.outcome = some .refundedUnrecorded then .refunded
    else if confirmed then .declaredRefunded
    else .declaredNotRefunded

def settledRow (now : Int) (status : RefundStatus) (answered : Outcome) (resolvedBy : Option String) :
    LydiaRefund :=
  let written := { row with status, outcome := some (settledOutcome row (status == RefundStatus.confirmed) answered resolvedBy) }
  match resolvedBy with
  | some by_ => { written with resolvedByUserId := some by_, resolvedAt := some now }
  | none => { written with answeredAt := some now }

/-- `settle`'s transaction, on the row under its lock. -/
def settle (row : LydiaRefund) (now : Int) (outcome : CallOutcome) (resolvedBy : Option String)
    (revoked : Bool) : Settled :=
  if row.status ≠ .pending then
    -- a late answer is kept beside the first, never over it
    match resolvedBy, outcome with
    | none, .confirmed => ⟨{ row with lateOutcome := some .refunded }, false, false⟩
    | none, .refused o => ⟨{ row with lateOutcome := some o }, false, false⟩
    | _, _ => ⟨row, false, false⟩
  else
    match outcome with
    | .noAnswer => ⟨{ row with outcome := some .noAnswer }, false, false⟩
    | .refused o => ⟨settledRow row now .refused o resolvedBy, true, false⟩
    | .confirmed =>
      let written := settledRow row now .confirmed .refunded resolvedBy
      match row.kind with
      | .partial_ => ⟨written, true, false⟩
      | .total =>
        let w := withdraw record revoked
        ⟨{ written with sideEffect := some w.1 }, true, w.2⟩

/-- `resolve`'s checks of the row it read. -/
def resolvable (refunded : Bool) : Except Refusal Unit :=
  if row.status ≠ .pending then .error .notPending
  else if row.outcome = none then .error .inFlight
  else if row.outcome = some .refundedUnrecorded ∧ ¬ refunded then .error .notPending
  else .ok ()

/-- The declaration as `settle` takes it. -/
def declared (refunded : Bool) : CallOutcome := if refunded then .confirmed else .refused .declaredNotRefunded

/-- `markUnrecorded`'s update, `WHERE status = 'pending'`. -/
def marked (now : Int) : LydiaRefund :=
  if row.status = .pending then { row with outcome := some .refundedUnrecorded, answeredAt := some now } else row

/-! ## The system -/

inductive CallState where
  | running
  | gave
  | refused
  deriving DecidableEq

structure Call where
  calledAt : Int
  amountCents : Nat
  state : CallState

def Call.given (c : Call) : Nat := if c.state = .gave then c.amountCents else 0

/-- Where a `refund` stands after its claim. -/
inductive Phase where
  | claimed
  | stamped
  | calling
  | answered (outcome : CallOutcome)
  /-- A confirmed answer whose recording threw. -/
  | marking
  /-- It answered or threw; `finally` runs. -/
  | over
  deriving DecidableEq

structure Request where
  id : Nat
  /-- The entity the claim saved. -/
  row : LydiaRefund
  phase : Phase
  /-- Its connection lives and holds the row's call lock. -/
  holds : Bool

/-- A `resolve` past its checks. -/
structure Declaration where
  id : Nat
  actorId : String
  refunded : Bool

structure State where
  now : Int
  record : PurchaseRecord
  rows : Table LydiaRefund
  requests : Table Request
  declarations : Table Declaration
  /-- The provider's calls, by the row they were made for. -/
  calls : Nat → List Call
  /-- The rows whose total refund withdrew what the payment bought. -/
  withdrawals : List Nat
  /-- Each refund view answered, beside the view of the stored row at that instant. -/
  shown : List (RefundView × Option RefundView)
  /-- Every declaration so far said what the provider had done. -/
  truthful : Bool

/-- What follows a commit: the work after it, a failed read in that work, or the loss of the connection. -/
inductive After where
  | answered
  | nameReadFails
  | lost
  deriving DecidableEq

inductive Event where
  | tick (ms : Nat)
  /-- Another writer: a grant made good, a product deleted, an attempt traced. -/
  | regrant (status : PurchaseStatus)
  | retrace (trace : Option Trace)
  | refund (asker : Asker) (input : RefundInput) (acked : Bool)
  | stamp (p : Nat) (acked : Bool)
  | send (p : Nat)
  | finish (i k : Nat) (gave : Bool)
  | answer (p : Nat) (a : CoreAnswer)
  | settle (p : Nat) (revoked : Bool) (after : After)
  | mark (p : Nat) (acked : Bool)
  /-- The statement the request is at fails. -/
  | fails (p : Nat)
  | loseConnection (p : Nat)
  | crash (p : Nat)
  | unlock (p : Nat)
  | sweep (i : Nat)
  | resolve (i : Nat) (associationId actorId : String) (refunded : Bool)
  | declare (d : Nat) (revoked : Bool) (after : After)

namespace State

variable (s : State) (i : Nat)

def lockFree : Bool := !s.requests.any fun _ q => q.id == i && q.holds

def callsEndBy (now : Int) : Bool :=
  (List.range s.rows.next).all fun i =>
    (s.calls i).all fun c => c.state ≠ .running || now ≤ c.calledAt + REFUND_CALL_BOUND_MS

/-- The provider gave the refund of row `i` back. -/
def gave : Bool := (s.calls i).any fun c => c.state == .gave

def given : Nat := ((List.range s.rows.next).map fun i => ((s.calls i).map Call.given).sum).sum

def setRequest (p : Nat) (q : Request) : State := { s with requests := s.requests.set p q }

def setRow (row : LydiaRefund) : State := { s with rows := s.rows.set i row }

def setCalls (calls : List Call) : State := { s with calls := Function.update s.calls i calls }

/-- A view answered for row `i`. -/
def show_ (v : RefundView) : State :=
  { s with shown := s.shown ++ [(v, (s.rows.rows i).map (toView i))] }

/-- `settle` committed: the row, and the record if it withdrew. -/
def commit (r : Settled) : State :=
  { s with
    rows := s.rows.set i r.row
    record := if r.withdrew then { s.record with status := .refunded } else s.record
    withdrawals := if r.withdrew then s.withdrawals ++ [i] else s.withdrawals }

end State

/-- Where a statement that throws leaves the request: `record` marks a confirmed answer it could not write. -/
def thrown : Phase → Option Phase
  | .claimed => some .over
  | .answered .confirmed => some .marking
  | .answered _ => some .over
  | .marking => some .over
  | _ => none

def saidBy (outcome : CallOutcome) (calls : List Call) : Bool :=
  match outcome with
  | .confirmed => calls.any fun c => c.state == .gave
  | .refused _ => calls.any fun c => c.state == .refused
  | .noAnswer => true

/-- A settle that wrote a new status reads the association's name once it has committed. -/
def namesPayer (r : Settled) : Bool := r.changed && r.row.status == .confirmed

/-- Where a committed `settle` leaves the request, and whether it answers its view. -/
def settledPhase (q : Request) (r : Settled) : After → Request × Bool
  | .answered => ({ q with phase := .over }, true)
  | .nameReadFails => if namesPayer r then ({ q with phase := .marking }, false) else ({ q with phase := .over }, true)
  | .lost => ({ q with phase := .over, holds := false }, false)

def step (s : State) : Event → Option State
  | .tick ms => if s.callsEndBy (s.now + ms) then some { s with now := s.now + ms } else none
  | .regrant status =>
    if s.record.status.received ∧ status.received then some { s with record := { s.record with status } } else none
  | .retrace trace => some { s with record := { s.record with trace } }
  | .refund asker input acked =>
    if !input.valid then some s
    else
      match claim s.record s.rows s.now asker input with
      | .error _ => some s
      | .ok (.replay i own) => some (s.show_ i (toView i own))
      | .ok (.row row) =>
        let q : Request := ⟨s.rows.next, row, if acked then .claimed else .over, acked⟩
        some { s with rows := s.rows.insert row, requests := s.requests.insert q }
  | .stamp p acked =>
    match s.requests.rows p with
    | some q =>
      if q.phase = .claimed ∧ q.holds then
        match s.rows.rows q.id with
        | some row =>
          some ((s.setRow q.id { row with calledAt := some s.now }).setRequest p
            { q with phase := if acked then .stamped else .over, holds := acked })
        | none => none
      else none
    | none => none
  | .send p =>
    match s.requests.rows p with
    | some q =>
      if q.phase = .stamped then
        match (s.rows.rows q.id).bind LydiaRefund.calledAt with
        | some t =>
          if s.now ≤ t + REFUND_CALL_BOUND_MS then
            some ((s.setRequest p { q with phase := .calling }).setCalls q.id
              (s.calls q.id ++ [⟨t, q.row.amountCents, .running⟩]))
          else none
        | none => none
      else none
    | none => none
  | .finish i k gave =>
    match (s.calls i)[k]? with
    | some c =>
      if c.state = .running then
        some (s.setCalls i ((s.calls i).set k { c with state := if gave then .gave else .refused }))
      else none
    | none => none
  | .answer p a =>
    match s.requests.rows p with
    | some q =>
      if q.phase = .calling ∧ saidBy (askLydia a) (s.calls q.id) then
        some (s.setRequest p { q with phase := .answered (askLydia a) })
      else none
    | none => none
  | .settle p revoked after =>
    match s.requests.rows p with
    | some q =>
      match q.phase, q.holds, s.rows.rows q.id with
      | .answered o, true, some row =>
        let r := settle s.record row s.now o none revoked
        let t := (s.setRequest p (settledPhase q r after).1).commit q.id r
        some (if (settledPhase q r after).2 then t.show_ q.id (answerOf q.id r.row).refund else t)
      | _, _, _ => none
    | none => none
  | .mark p acked =>
    match s.requests.rows p with
    | some q =>
      match s.rows.rows q.id with
      | some row =>
        if q.phase = .marking ∧ q.holds then
          let t := (s.setRequest p { q with phase := .over, holds := acked }).setRow q.id (marked row s.now)
          let returned := { q.row with outcome := some .refundedUnrecorded, answeredAt := some s.now }
          some (if acked then t.show_ q.id (answerOf q.id returned).refund else t)
        else none
      | none => none
    | none => none
  | .fails p =>
    match s.requests.rows p with
    | some q => (thrown q.phase).map fun phase => s.setRequest p { q with phase }
    | none => none
  | .loseConnection p => (s.requests.rows p).map fun q => s.setRequest p { q with holds := false }
  | .crash p => (s.requests.rows p).map fun q => s.setRequest p { q with phase := .over, holds := false }
  | .unlock p =>
    match s.requests.rows p with
    | some q => if q.phase = .over then some (s.setRequest p { q with holds := false }) else none
    | none => none
  | .sweep i =>
    match s.rows.rows i with
    | some row =>
      if row.asked ∧ callOver s.now row ∧ s.lockFree i then some (s.setRow i { row with outcome := some .noAnswer })
      else some s
    | none => some s
  | .resolve i associationId actorId refunded =>
    match s.rows.rows i with
    | some row =>
      if row.associationId ≠ associationId then some s
      else
        match resolvable row refunded with
        | .ok _ =>
          some { s with
            declarations := s.declarations.insert ⟨i, actorId, refunded⟩
            truthful := s.truthful && refunded == s.gave i }
        | .error _ => some s
    | none => some s
  | .declare d revoked after =>
    match s.declarations.rows d with
    | some x =>
      match s.rows.rows x.id with
      | some row =>
        let r := settle s.record row s.now (declared x.refunded) (some x.actorId) revoked
        let t := ({ s with declarations := s.declarations.delete d } : State).commit x.id r
        -- a failed read or a lost connection after the commit throws: no view is answered
        some (if after = .answered ∨
          (after = .nameReadFails ∧ ¬ namesPayer r) then t.show_ x.id (toView x.id r.row) else t)
      | none => none
    | none => none

def start (s : State) : Prop :=
  s.rows = .empty ∧ s.requests = .empty ∧ s.declarations = .empty ∧ s.calls = (fun _ => []) ∧ s.withdrawals = [] ∧
    s.shown = [] ∧ s.truthful = true

def machine : Machine State Event := ⟨start, step⟩

end Canari.Associations.Refunds
