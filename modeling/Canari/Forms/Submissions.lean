/-
  Canari.Forms.Submissions — the submissions of one form under every interleaving of the
  calls that write them (`apps/social-service/src/forms/forms.service.ts`).

  `submit` reads the live row it may reuse, refuses a second answer, settles the request
  that row waits on at the provider, runs its transaction, then either makes the cash
  update or issues a payment request and writes its ids, each a step of its own.
  `markPaid` (for any row and any id, in any order) and `cancelSubmission` are calls too;
  the sweeps, the cash validation, the refund and the deletion are single statements. A
  transaction begins, then commits once it has the form's lock: `begun` keeps the instant
  it began. A call that refuses, fails or crashes ends (`ended`), at any point.

  The provider creates requests with fresh ids, answers their true state, and a request
  once paid, declined or closed never becomes payable again. A call to it may be lost on
  the way there (nothing happened) or on the way back (it did).
-/

import Canari.Lib.Machine
import Canari.Forms.SeatHold

namespace Canari.Forms.Submissions

open Lib
open Forms.SeatHold

inductive RequestState where
  | open
  | paid
  | declined
  | closed
  deriving DecidableEq

structure Request where
  submissionId : Nat
  requestId : String
  requestUuid : String
  state : RequestState

inductive SubmitPhase where
  | called
  | found (previous : Option (Nat × Submission))
  /-- In `settleOpenRequest`; `reading` once the cancel answered that the request is settled. -/
  | settling (previous : Nat × Submission) (reading : Bool)
  | ready (previous : Option (Nat × Submission))
  | begun (previous : Option (Nat × Submission)) (start : Int)
  | saved (id : Nat)
  | issued (id : Nat) (paymentRequestId stripeSessionId : Option String)
  | releasing (id : Nat)

inductive Proc where
  | submit (call : SubmitCall) (phase : SubmitPhase)
  /-- `cancelSubmission`, past its read of the row. -/
  | cancelling (row : Nat × Submission) (reading : Bool)
  | cancelReady (row : Nat × Submission)
  | marking (id : Nat) (sessionId : Option String) (onlyIfRowNames : Bool) (start : Int)
  | fulfilling (id : Nat)

structure St where
  now : Int
  rows : Table Submission
  respondents : List String
  requests : Table Request
  procs : Nat → Option Proc

/-- What comes back of an issuing call: an answer with a URL and some of the ids, or none. -/
structure Reply where
  withRequestId : Bool
  withUuid : Bool

inductive Ev where
  | tick (seconds : Nat)
  | submit (i : Nat) (call : SubmitCall)
  | findPrevious (i : Nat)
  | checkAnswer (i : Nat)
  /-- The cancel call of a settle, and the read of the state that may follow it. -/
  | cancelRequest (i : Nat)
  | readState (i k : Nat)
  | beginSubmit (i : Nat)
  | commitSubmit (i : Nat)
  | cash (i : Nat) (serviceNow : Int)
  /-- The issuing call: `created` when the provider made a request. -/
  | issue (i : Nat) (created : Option (String × String)) (reply : Option Reply)
  | writeIds (i : Nat)
  | release (i : Nat)
  | markPaid (i : Nat) (id : Nat) (sessionId : Option String) (onlyIfRowNames : Bool)
  | commitPaid (i : Nat)
  | fulfil (i : Nat) (cotisation purchase organiser : Bool)
  | cancelSubmission (i : Nat) (id : Nat)
  | applyCancel (i : Nat)
  | ended (i : Nat)
  /-- A callback or a return that read the row's request declined or closed. -/
  | releaseRefused (id : Nat) (sessionId : String)
  | expirePending (cutoff : Int)
  | expireCash
  | validateCash (id : Nat)
  | cancelCash (id : Nat)
  | refund (id : Nat)
  | delete (id : Nat)
  /-- The payer or the provider moves an open request. -/
  | provider (a : Nat) (state : RequestState)

variable (s : St)

def setProc (i : Nat) (p : Option Proc) : St := { s with procs := Function.update s.procs i p }

def setRow (id : Nat) (row : Submission) : St := { s with rows := s.rows.set id row }

def requestBy (p : Request → Bool) : Option (Nat × Request) :=
  ((List.range s.requests.next).filterMap fun a => (s.requests.rows a).map fun q => (a, q)).find? fun x => p x.2

def namesNoRequest (row : Submission) : Bool := row.paymentRequestId.isNone && row.stripeSessionId.isNone

/-- `moveLockedSubmission`: one row, under its lock, only from the state it must be in. -/
def moveLocked (id : Nat) (source target : PaymentStatus) (named : Submission → Bool) : St :=
  match s.rows.rows id with
  | some row => if row.paymentStatus == source && named row then setRow s id { row with paymentStatus := target } else s
  | none => s

/-- The cancel call of `settleOpenRequest`: an open request is closed, a settled one says so. -/
def cancelAtProvider (row : Submission) : Option (St × Bool) :=
  match row.paymentRequestId with
  | some requestId =>
    match requestBy s (·.requestId == requestId) with
    | some (a, q) =>
      if q.state == .open then some ({ s with requests := s.requests.set a { q with state := .closed } }, true) else
        some (s, false)
    | none => none
  | none => none

def stateOf (row : Submission) : Option RequestState :=
  row.stripeSessionId.bind fun uuid => (requestBy s (·.requestUuid == uuid)).map (·.2.state)

def freshIds (requestId requestUuid : String) : Bool :=
  (requestBy s fun q => q.requestId == requestId || q.requestUuid == requestUuid).isNone

def expireRow (cutoff : Int) (row : Submission) : Submission :=
  if row.paymentStatus == .pending && row.paymentRequestedAt ≤ cutoff then
    { row with paymentStatus := .expired } else row

def expireCashRow (now : Int) (row : Submission) : Submission :=
  if row.paymentStatus == .pendingCash && row.cashExpiresAt.any (· < now) then
    { row with paymentStatus := .expired } else row

def stepSubmit (F : Form) (s : St) : Ev → Option St
  | .submit i call => if (s.procs i).isNone then some (setProc s i (some (.submit call .called))) else none
  | .findPrevious i =>
    match s.procs i with
    | some (.submit call .called) =>
      some (setProc s i (some (.submit call
        (.found (if reuses F call then liveRow s.rows s.now call.userId else none)))))
    | _ => none
  | .checkAnswer i =>
    match s.procs i with
    | some (.submit call (.found previous)) =>
      if oneAnswer F call && otherAnswer s.rows s.now call.userId (previous.map (·.1)) then none
      else
        match previous with
        | none => some (setProc s i (some (.submit call (.ready none))))
        | some p => if namesNoRequest p.2 then none else some (setProc s i (some (.submit call (.settling p false))))
    | _ => none
  | .beginSubmit i =>
    match s.procs i with
    | some (.submit call (.ready previous)) => some (setProc s i (some (.submit call (.begun previous s.now))))
    | _ => none
  | .commitSubmit i =>
    match s.procs i with
    | some (.submit call (.begun previous start)) =>
      (submitTx F s.rows s.respondents start call previous).map fun c =>
        { setProc s i (if call.totalCents > 0 then some (.submit call (.saved c.saved)) else none) with
          rows := c.rows, respondents := c.respondents }
    | _ => none
  | .cash i serviceNow =>
    match s.procs i with
    | some (.submit call (.saved id)) =>
      if F.allowCashPayment && call.cash then
        match s.rows.rows id with
        | some row => some (setProc (setRow s id (cashUpdate F row serviceNow)) i none)
        | none => some (setProc s i none)
      else none
    | _ => none
  | .issue i created reply =>
    match s.procs i with
    | some (.submit call (.saved id)) =>
      if F.allowCashPayment && call.cash then none
      else
        match created, reply with
        | some (requestId, uuid), some r =>
          if freshIds s requestId uuid then
            let s := { s with requests := s.requests.insert ⟨id, requestId, uuid, .open⟩ }
            if r.withRequestId || r.withUuid then
              some (setProc s i (some (.submit call (.issued id (if r.withRequestId then some requestId else none)
                (if r.withUuid then some uuid else none)))))
            else some (setProc s i none)
          else none
        | some (requestId, uuid), none =>
          if freshIds s requestId uuid then
            some (setProc { s with requests := s.requests.insert ⟨id, requestId, uuid, .open⟩ } i (some (.submit call (.releasing id))))
          else none
        | none, none => some (setProc s i (some (.submit call (.releasing id))))
        | none, some _ => none
    | _ => none
  | .writeIds i =>
    match s.procs i with
    | some (.submit _ (.issued id requestId uuid)) =>
      match s.rows.rows id with
      | some row => some (setProc (setRow s id { row with paymentRequestId := requestId, stripeSessionId := uuid }) i none)
      | none => some (setProc s i none)
    | _ => none
  | .release i =>
    match s.procs i with
    | some (.submit _ (.releasing id)) => some (setProc (moveLocked s id .pending .cancelled namesNoRequest) i none)
    | _ => none
  | _ => none

/-- The settle shared by a retry and a cancel: `next` goes on once nothing is payable. -/
def settleStep (i : Nat) (row : Nat × Submission) (read : Bool) (next reading : Proc) : Ev → Option St
  | .cancelRequest _ =>
    if read then none
    else if row.2.paymentRequestId.isNone then some (setProc s i (some reading))
    else (cancelAtProvider s row.2).map fun (s', cancelled) => setProc s' i (some (if cancelled then next else reading))
  | .readState _ k =>
    if !read then none
    else
      match stateOf s row.2 with
      | some .declined | some .closed => some (setProc s i (some next))
      | some .paid =>
        -- recorded as the callback would record it, and nothing else is issued
        if (s.procs k).isNone && (s.rows.rows row.1).isSome then
          some (setProc (setProc s i none) k
            (some (.marking row.1 (row.2.paymentRequestId <|> row.2.stripeSessionId) false s.now)))
        else none
      | _ => none
  | _ => none

def step (F : Form) (s : St) (e : Ev) : Option St :=
  match e with
  | .tick seconds => some { s with now := s.now + seconds }
  | .cancelRequest i | .readState i _ =>
    match s.procs i with
    | some (.submit call (.settling p read)) =>
      settleStep s i p read (.submit call (.ready (some p))) (.submit call (.settling p true)) e
    | some (.cancelling p read) => settleStep s i p read (.cancelReady p) (.cancelling p true) e
    | _ => none
  | .markPaid i id sessionId onlyIfRowNames =>
    if (s.procs i).isNone && (s.rows.rows id).isSome then
      some (setProc s i (some (.marking id sessionId onlyIfRowNames s.now))) else none
  | .commitPaid i =>
    match s.procs i with
    | some (.marking id sessionId onlyIfRowNames start) =>
      match s.rows.rows id with
      | some row =>
        some (setProc (setRow s id (markPaidTx F s.rows start id sessionId onlyIfRowNames row)) i
          (some (.fulfilling id)))
      | none => some (setProc s i none)
    | _ => none
  | .fulfil i cotisation purchase organiser =>
    match s.procs i with
    | some (.fulfilling id) =>
      match s.rows.rows id with
      | some row => some (setProc (setRow s id { row with
          cotisationGranted := cotisation, purchaseRecorded := purchase, organiserNotified := organiser }) i none)
      | none => some (setProc s i none)
    | _ => none
  | .cancelSubmission i id =>
    match s.procs i, s.rows.rows id with
    | none, some row =>
      if row.paymentStatus == .pending then
        if !namesNoRequest row then some (setProc s i (some (.cancelling (id, row) false)))
        else if livePending s.now row then none
        else some (setProc s i (some (.cancelReady (id, row))))
      else some (setProc s i (some (.cancelReady (id, row))))
    | _, _ => none
  | .applyCancel i =>
    match s.procs i with
    | some (.cancelReady (id, row)) => some (setProc (moveLocked s id .pending .cancelled (sameRequest row)) i none)
    | _ => none
  | .ended i => some (setProc s i none)
  | .releaseRefused id sessionId =>
    match requestBy s (·.requestUuid == sessionId) with
    | some (_, q) =>
      if q.state == .declined || q.state == .closed then
        some (moveLocked s id .pending .cancelled fun row => row.stripeSessionId == some sessionId)
      else none
    | none => none
  | .expirePending cutoff =>
    if cutoff ≤ s.now - PENDING_PAYMENT_HOLD_SECONDS then
      some { s with rows := s.rows.updateAll (expireRow cutoff) } else none
  | .expireCash => some { s with rows := s.rows.updateAll (expireCashRow s.now) }
  | .validateCash id => some (moveLocked s id .pendingCash .paid fun _ => true)
  | .cancelCash id => some (moveLocked s id .pendingCash .cancelled fun _ => true)
  | .refund id =>
    some (moveLocked (moveLocked s id .paid .refunded fun _ => true) id .paidOverCapacity .refunded fun _ => true)
  | .delete id => some { s with rows := s.rows.delete id }
  | .provider a state =>
    match s.requests.rows a with
    | some q => if q.state == .open then some { s with requests := s.requests.set a { q with state := state } } else none
    | none => none
  | _ => stepSubmit F s e

/-- A cancel or a read is of a request that a submission settles or that a cancellation waits for. -/
theorem settleStep_of_step {F : Form} {s s' : St} {e : Ev} {i : Nat}
    (he : e = .cancelRequest i ∨ ∃ k, e = .readState i k)
    (hs : step F s e = some s') :
    (∃ call p read, s.procs i = some (.submit call (.settling p read)) ∧
      settleStep s i p read (.submit call (.ready (some p))) (.submit call (.settling p true)) e = some s') ∨
    ∃ p read, s.procs i = some (.cancelling p read) ∧
      settleStep s i p read (.cancelReady p) (.cancelling p true) e = some s' := by
  rcases he with rfl | ⟨k, rfl⟩
  all_goals
    simp only [step] at hs
    split at hs
    · exact .inl ⟨_, _, _, ‹_›, hs⟩
    · exact .inr ⟨_, _, ‹_›, hs⟩
    · cases hs

def Init : Prop := s.rows = Table.empty ∧ s.requests = Table.empty ∧ s.procs = fun _ => none

def machine (F : Form) : Machine St Ev := ⟨Init, step F⟩

end Canari.Forms.Submissions
