/-
  Canari.Associations.ProductCheckout — one buyer's attempts at one boutique product
  (`apps/social-service/src/associations/products.service.ts`, `product-checkout.ts`; core's
  `create-checkout-session` in `apps/core-service/src/payment/payment.controller.ts`).

  An attempt is a `product_checkouts` row, opened before its Lydia request is issued and
  settled from Lydia's own answer. Four callers settle an attempt, each from a snapshot of the
  row it read and did not lock: the buyer's next opening (`settlePreviousOpenAttempt`), the
  payer's return (`confirmCheckout`), the confirm callback (`handlePurchaseCompleted`) and the
  reconciliation sweep. A task is one such call between two of its awaits; an opening is
  `createCheckoutSession` past that point. Every write may commit and lose its
  acknowledgement, every statement may fail and every process may die between two steps.

  What is relied on of Lydia is in `step`: it answers a read with the state of the request,
  an ended or expired request is never payable again, ids are unique, and an issuing call
  takes effect within `CHECKOUT_ISSUE_WINDOW_MS` of the row's `createdAt` or never.

  The clock is one, in milliseconds. Prices, tiers and routing are decided before the row is
  written; whether a membership's tier is granted is read at settlement (`mayGrant`). The
  buyer's account may be erased with all its attempts, and opens none after that.
-/

import Canari.Lib.Machine
import Canari.Lib.Table

namespace Canari.Associations.ProductCheckout

open Lib

/-! ## The attempt -/

inductive CheckoutStatus where
  | open_
  | paid
  | declined
  | expired
  | cancelled
  deriving DecidableEq

/-- The statuses `closeCheckout` writes: neither `open` nor `paid`. -/
inductive ClosedStatus where
  | declined
  | expired
  | cancelled
  deriving DecidableEq

def ClosedStatus.status : ClosedStatus → CheckoutStatus
  | .declined => .declined
  | .expired => .expired
  | .cancelled => .cancelled

structure Checkout where
  vendorToken : String
  amountCents : Nat
  requestUuid : Option String
  requestId : Option String
  status : CheckoutStatus
  expiresAt : Int
  createdAt : Int
  purchaseRecordId : Option Nat

def PRODUCT_REQUEST_LIFETIME_MS : Int := 30 * 60 * 1000

def CHECKOUT_ISSUE_WINDOW_MS : Int := 3 * 60000

def CHECKOUT_EXPIRY_MARGIN_MS : Int := 5 * 60000

def truthy (o : Option String) : Bool := o.any (· ≠ "")

def LYDIA_REQUEST_UUID_RE (s : String) : Bool :=
  s.toList.length = 32 && s.toList.all fun c => c.isDigit || ('a' ≤ c && c ≤ 'f') || ('A' ≤ c && c ≤ 'F')

variable (row : Checkout)

/-- `productCheckoutLookup` names the request by its order_ref, not by a uuid. -/
def byOrderRef : Bool := !row.requestUuid.any LYDIA_REQUEST_UUID_RE

def isBeingIssued (now : Int) : Bool :=
  !truthy row.requestUuid && !truthy row.requestId && now < row.createdAt + CHECKOUT_ISSUE_WINDOW_MS

/-- Past its `expire_time` and the margin. -/
def pastMargin (now : Int) : Bool := now ≥ row.expiresAt + CHECKOUT_EXPIRY_MARGIN_MS

/-! ## The purchase -/

inductive ProductType where
  | membership
  | balanceTopup
  | other
  deriving DecidableEq

structure Product where
  type : ProductType
  deleted : Bool
  /-- `webhookUrl` and `webhookSecret` are set. -/
  webhook : Bool

structure PurchaseRecord where
  checkoutId : Nat
  amountCents : Nat
  /-- Written `paid`, not `paid_not_granted`. -/
  granted : Bool
  paymentIntentId : Option String

variable (product : Product)

/-- What a settlement grants: nothing to an erased buyer or for a product gone, a tier only if it may. -/
def grants (erased mayGrant : Bool) : Bool :=
  if erased then false
  else if product.deleted then false
  else if product.type = .membership then mayGrant
  else true

/-- `dispatchTopUp` sends a top-up of a product with a webhook, and nothing else. -/
def dispatches : Bool := product.type == .balanceTopup && product.webhook

/-- `row.requestId ?? row.requestUuid`. -/
def paymentIntentOf : Option String := row.requestId.or row.requestUuid

def recordOf (erased : Bool) (id : Nat) (row : Checkout) (mayGrant : Bool) : PurchaseRecord where
  checkoutId := id
  amountCents := row.amountCents
  granted := grants product erased mayGrant
  paymentIntentId := paymentIntentOf row

/-- The payment id a settlement dispatches its top-up under, if it dispatches one. -/
def dispatchOf (record : PurchaseRecord) : Option String :=
  if record.granted && !product.deleted && dispatches product then record.paymentIntentId.filter (· ≠ "") else none

/-- `storeCallbackRequestId`: the snapshot and the row after it, or none when the attempt carries another request. -/
def storeCallbackRequestId (snapshot row : Checkout) (requestId : String) : Option (Checkout × Checkout) :=
  if snapshot.requestId = some requestId then some (snapshot, row)
  else if truthy snapshot.requestId then none
  else if row.requestId = none then
    some ({ snapshot with requestId := some requestId }, { row with requestId := some requestId })
  else if row.requestId = some requestId then some ({ snapshot with requestId := row.requestId }, row)
  else none

/-! ## Lydia and core -/

inductive RequestState where
  | open_
  | paid
  | declined
  /-- Cancelled or expired: one state of Lydia's. -/
  | ended
  deriving DecidableEq

structure Request where
  requestId : String
  uuid : String
  issuedAt : Int
  state : RequestState

inductive WireState where
  | open_
  | paid
  | declined
  | cancelledOrExpired
  | notFound
  | unknown
  deriving DecidableEq

def wireOf : Option Request → WireState
  | none => .notFound
  | some r =>
    match r.state with
    | .open_ => .open_
    | .paid => .paid
    | .declined => .declined
    | .ended => .cancelledOrExpired

/-- What core gets from Lydia's `request/do`. -/
inductive DoAnswer where
  | created
  | refused
  /-- A timeout, a reset, a 5xx: the request may exist all the same. -/
  | none

inductive CoreStatus where
  | ok
  | badRequest
  | serverError

/-- Core's `create-checkout-session`: an error that is no HTTP exception becomes a 400 `Payment error`. -/
def createCheckout : DoAnswer → CoreStatus
  | .created => .ok
  | .refused => .badRequest
  | .none => .badRequest

/-- `coreRefusedRequest`: any 4xx. -/
def coreRefusedRequest : CoreStatus → Bool
  | .badRequest => true
  | _ => false

/-! ## Settling an attempt -/

inductive Caller where
  | opening
  | payerReturn
  | callback (requestId : String)
  | sweep
  deriving DecidableEq

inductive Phase where
  | storing
  | cancelling
  | reading
  /-- The sweep's second read, after a cancel answered "already processed". -/
  | rereading
  | settling
  | closing (status : ClosedStatus)
  /-- `expireUnprovenCheckout`. -/
  | expiring
  | dispatching (paymentIntentId : String) (completed : Bool)
  | completing
  | answering (status : CheckoutStatus)
  deriving DecidableEq

structure Task where
  caller : Caller
  id : Nat
  /-- The row as the caller read it. -/
  row : Checkout
  phase : Phase

/-- `createCheckoutSession` once the previous attempt is settled. -/
inductive Opening where
  | deciding
  | issuing (id : Nat)
  | writing (id : Nat) (uuid : String) (requestId : Option String)
  | releasing (id : Nat)

inductive Next where
  | move (phase : Phase)
  /-- The opening goes on to its own attempt. -/
  | opens
  | stop

/-- The attempt's status is established: an opening goes on, a callback completes a paid one, the others answer it. -/
def established (t : Task) (status : CheckoutStatus) : Next :=
  match t.caller with
  | .opening => .opens
  | .callback _ => if status = .paid then .move .completing else .move (.answering status)
  | .payerReturn | .sweep => .move (.answering status)

/-- An opening refuses while the fate of the previous attempt is unproven, until the margin has passed. -/
def unproven (t : Task) (now : Int) : Next := if pastMargin t.row now then .move .expiring else .stop

def unchanged (t : Task) (now : Int) (state : WireState) : Next :=
  match t.caller with
  | .opening => unproven t now
  | .payerReturn | .callback _ => .move (.answering t.row.status)
  | .sweep =>
    if state = .open_ ∧ t.phase = .reading ∧ truthy t.row.requestId = true then .move .cancelling else .move .expiring

def applyRequestState (t : Task) (now : Int) (state : WireState) : Next :=
  if state = .notFound ∧ byOrderRef t.row = true then .move (.closing .cancelled)
  else
    match state with
    | .paid => .move .settling
    | .declined => .move (.closing .declined)
    | .cancelledOrExpired => .move (.closing (if now ≥ t.row.expiresAt then .expired else .cancelled))
    | .open_ | .unknown | .notFound => unchanged t now state

def failed (t : Task) (now : Int) : Next :=
  match t.caller with
  | .opening => if t.phase = .expiring then .stop else unproven t now
  | .payerReturn => .move (.answering t.row.status)
  | .callback _ | .sweep => .stop

def Phase.canFail : Phase → Bool
  | .dispatching _ _ | .answering _ => false
  | _ => true

def Phase.closes : Phase → Option ClosedStatus
  | .closing status => some status
  | .expiring => some .expired
  | _ => none

/-! ## The system -/

structure State where
  now : Int
  product : Product
  /-- The buyer's account, and every attempt's buyer, was erased. -/
  erased : Bool
  rows : Table Checkout
  records : Table PurchaseRecord
  tasks : Table Task
  openings : Table Opening
  /-- Lydia's request for an attempt. -/
  requests : Nat → Option Request
  /-- The attempt's `request/do` may still take effect. -/
  issuing : Nat → Bool
  /-- The top-ups dispatched: the attempt and the payment id. -/
  dispatched : List (Nat × String)
  /-- The statuses answered to callers. -/
  answers : List (Nat × CheckoutStatus)

inductive CancelOutcome where
  | cancelled
  | alreadySettled

inductive CancelResult where
  /-- Lydia's answer; `foreign` is what it says of a request that is none of this buyer's. -/
  | answered (foreign : CancelOutcome)
  | lost (reached : Bool)

inductive ReadResult where
  | answered
  | unknown
  | lost

inductive IssueResult where
  /-- Core answered; a created request may come without its numeric id. -/
  | core (a : DoAnswer) (numeric : Bool)
  /-- No answer from core, a 5xx, or a 2xx without a url or a uuid. -/
  | lost

inductive Event where
  | tick (ms : Nat)
  | erase
  | deleteProduct
  | configure (webhook : Bool)
  | beginOpening
  | beginReturn (i : Nat)
  | beginCallback (i : Nat) (requestId vendorToken : String)
  | beginSweep (i : Nat)
  | store (p : Nat) (acked : Bool)
  | cancel (p : Nat) (r : CancelResult)
  | read (p : Nat) (r : ReadResult)
  | close (p : Nat) (acked : Bool)
  | settle (p : Nat) (mayGrant acked : Bool)
  | complete (p : Nat) (acked : Bool)
  | dispatch (p : Nat)
  | answer (p : Nat)
  | fails (p : Nat)
  | crash (p : Nat)
  | insert (o : Nat) (vendorToken : String) (amountCents waited : Nat) (acked : Bool)
  /-- `request/do` takes effect at Lydia. -/
  | request (i : Nat) (requestId uuid : String)
  /-- It never will. -/
  | drop (i : Nat)
  | issued (o : Nat) (r : IssueResult)
  | write (o : Nat)
  | release (o : Nat)
  | crashOpening (o : Nat)
  | pay (i : Nat)
  | decline (i : Nat)
  /-- The payer cancels, or Lydia's sweep expires it. -/
  | end_ (i : Nat)

namespace State

variable (s : State)

def payable (i : Nat) : Bool :=
  match s.requests i with
  | some r => r.state = .open_ && s.now < r.issuedAt + PRODUCT_REQUEST_LIFETIME_MS
  | none => false

def live (i : Nat) : Bool :=
  match s.requests i with
  | some r => r.state = .open_ && s.now < r.issuedAt + PRODUCT_REQUEST_LIFETIME_MS
  | none => s.issuing i && (s.rows.rows i).any fun row => s.now < row.createdAt + CHECKOUT_ISSUE_WINDOW_MS

def byRequestId (requestId : String) : Option Nat :=
  (List.range s.rows.next).find? fun i => (s.requests i).any fun r => r.requestId == requestId

def openAttempt : Option (Nat × Checkout) :=
  (List.range s.rows.next).findSome? fun i =>
    ((s.rows.rows i).filter fun row => row.status == .open_).map fun row => (i, row)

def setTask (p : Nat) (t : Task) : State := { s with tasks := s.tasks.set p t }

def endTask (p : Nat) : State := { s with tasks := s.tasks.delete p }

def go (p : Nat) (t : Task) : Next → State
  | .move phase => s.setTask p { t with phase }
  | .opens => { s.endTask p with openings := s.openings.insert .deciding }
  | .stop => s.endTask p

def setRow (i : Nat) (row : Checkout) : State := { s with rows := s.rows.set i row }

def setRequest (i : Nat) (r : Request) : State := { s with requests := Function.update s.requests i (some r) }

def endRequest (i : Nat) : State :=
  match s.requests i with
  | some r => if r.state = .open_ then s.setRequest i { r with state := .ended } else s
  | none => s

def start_ (t : Task) : State := { s with tasks := s.tasks.insert t }

end State

/-- `closeCheckout`'s update, `WHERE status = 'open'`. -/
def closed (c : ClosedStatus) : Checkout :=
  if row.status = .open_ then { row with status := c.status } else row

def newRow (now : Int) (waited : Nat) (vendorToken : String) (amountCents : Nat) : Checkout where
  vendorToken
  amountCents
  requestUuid := none
  requestId := none
  status := .open_
  expiresAt := now + PRODUCT_REQUEST_LIFETIME_MS
  -- the transaction began before it waited for the buyer's lock
  createdAt := now - waited
  purchaseRecordId := none

namespace State

/-! ### The callers -/

def beginOpening (s : State) : State :=
  match s.openAttempt with
  | none => { s with openings := s.openings.insert .deciding }
  | some (i, row) =>
    if isBeingIssued row s.now then s
    else s.start_ ⟨.opening, i, row, if truthy row.requestId then .cancelling else .reading⟩

def beginReturn (s : State) (i : Nat) : State :=
  match s.rows.rows i with
  | some row =>
    if row.status ≠ .open_ ∨ isBeingIssued row s.now = true then s.start_ ⟨.payerReturn, i, row, .answering row.status⟩
    else s.start_ ⟨.payerReturn, i, row, .reading⟩
  | none => s

def beginCallback (s : State) (i : Nat) (requestId vendorToken : String) : State :=
  match s.rows.rows i with
  | some row => if row.vendorToken = vendorToken then s.start_ ⟨.callback requestId, i, row, .storing⟩ else s
  | none => s

def beginSweep (s : State) (i : Nat) : State :=
  match s.rows.rows i with
  | some row => if row.status = .open_ ∧ pastMargin row s.now = true then s.start_ ⟨.sweep, i, row, .reading⟩ else s
  | none => s

/-! ### Settling -/

def store (s : State) (p : Nat) (acked : Bool) : Option State :=
  (s.tasks.rows p).bind fun t =>
    match t.phase, t.caller, s.rows.rows t.id with
    | .storing, .callback requestId, some row =>
      match storeCallbackRequestId t.row row requestId with
      | some (snapshot, row') =>
        some ((s.setRow t.id row').go p { t with row := snapshot }
          (if acked then .move (if t.row.status = .paid then .completing else .reading) else .stop))
      | none => some (s.endTask p)
    | _, _, _ => none

def cancelOutcome (s : State) (requestId : String) (foreign : CancelOutcome) : CancelOutcome :=
  match s.byRequestId requestId with
  | some j => if (s.requests j).any fun r => r.state == .open_ then .cancelled else .alreadySettled
  | none => foreign

def cancelled (s : State) (requestId : String) : State :=
  match s.byRequestId requestId with
  | some j => s.endRequest j
  | none => s

def cancel (s : State) (p : Nat) (r : CancelResult) : Option State :=
  (s.tasks.rows p).bind fun t =>
    match t.phase, t.row.requestId with
    | .cancelling, some requestId =>
      match r with
      | .answered foreign =>
        match s.cancelOutcome requestId foreign with
        | .cancelled => some ((s.cancelled requestId).go p t (.move (.closing .cancelled)))
        | .alreadySettled =>
          some ((s.cancelled requestId).go p t (.move (if t.caller = Caller.sweep then .rereading else .reading)))
      | .lost reached => some ((if reached then s.cancelled requestId else s).go p t (failed t s.now))
    | _, _ => none

def read (s : State) (p : Nat) (r : ReadResult) : Option State :=
  (s.tasks.rows p).bind fun t =>
    if t.phase = .reading ∨ t.phase = .rereading then
      match r with
      | .answered => some (s.go p t (applyRequestState t s.now (wireOf (s.requests t.id))))
      | .unknown => some (s.go p t (applyRequestState t s.now .unknown))
      | .lost => some (s.go p t (failed t s.now))
    else none

def close (s : State) (p : Nat) (acked : Bool) : Option State :=
  (s.tasks.rows p).bind fun t =>
    match t.phase.closes, s.rows.rows t.id with
    | some status, some row =>
      some ((s.setRow t.id (closed row status)).go p t
        (if acked then established t (closed row status).status else failed t s.now))
    | _, _ => none

/-- `settlePaidCheckout`'s transaction on a row not yet paid. -/
def settled (s : State) (i : Nat) (row : Checkout) (record : PurchaseRecord) : State :=
  { s with
    records := s.records.insert record
    rows := s.rows.set i { row with status := .paid, purchaseRecordId := some s.records.next } }

def settle (s : State) (p : Nat) (mayGrant acked : Bool) : Option State :=
  (s.tasks.rows p).bind fun t =>
    match t.phase, s.rows.rows t.id with
    | .settling, some row =>
      if row.status = .paid then some (s.go p t (if acked then established t .paid else failed t s.now))
      else
        some ((s.settled t.id row (recordOf s.product s.erased t.id row mayGrant)).go p t
          (if acked then
            -- the top-up goes out after the commit, by the settlement that wrote the record
            match dispatchOf s.product (recordOf s.product s.erased t.id row mayGrant) with
            | some pid => .move (.dispatching pid false)
            | none => established t .paid
          else failed t s.now))
    | _, _ => none

def recordOfRow (s : State) (row : Checkout) : Option (Nat × PurchaseRecord) :=
  row.purchaseRecordId.bind fun k => (s.records.rows k).map fun r => (k, r)

def completed (s : State) (k : Nat) (record : PurchaseRecord) (requestId : String) : State :=
  { s with records := s.records.set k { record with paymentIntentId := some requestId } }

/-- `completePaidWithoutRequestId`. -/
def complete (s : State) (p : Nat) (acked : Bool) : Option State :=
  (s.tasks.rows p).bind fun t =>
    match t.phase, t.caller, s.rows.rows t.id with
    | .completing, .callback requestId, some row =>
      match s.recordOfRow row with
      | some (k, record) =>
        if record.paymentIntentId = none then
          some ((s.completed k record requestId).go p t
            (if acked then
              .move (if !s.erased && !s.product.deleted && dispatches s.product then .dispatching requestId true
                else .answering .paid)
            else .stop))
        else some (s.go p t (.move (.answering .paid)))
      | none => some (s.go p t (.move (.answering .paid)))
    | _, _, _ => none

def dispatch (s : State) (p : Nat) : Option State :=
  (s.tasks.rows p).bind fun t =>
    match t.phase with
    | .dispatching pid completed =>
      some (({ s with dispatched := s.dispatched ++ [(t.id, pid)] } : State).go p t
        (if completed then .move (.answering .paid) else established t .paid))
    | _ => none

def answer (s : State) (p : Nat) : Option State :=
  (s.tasks.rows p).bind fun t =>
    match t.phase with
    | .answering status => some { s.endTask p with answers := s.answers ++ [(t.id, status)] }
    | _ => none

def fails (s : State) (p : Nat) : Option State :=
  (s.tasks.rows p).bind fun t => if t.phase.canFail then some (s.go p t (failed t s.now)) else none

/-! ### Opening -/

def insert (s : State) (o : Nat) (vendorToken : String) (amountCents waited : Nat) (acked : Bool) : Option State :=
  match s.openings.rows o with
  | some .deciding =>
    if s.erased ∨ s.product.deleted then none
    -- `product_checkouts_one_open`
    else if s.rows.any fun _ row => row.status == .open_ then some { s with openings := s.openings.delete o }
    else if acked then
      some { s with
        rows := s.rows.insert (newRow s.now waited vendorToken amountCents)
        openings := s.openings.set o (.issuing s.rows.next)
        issuing := Function.update s.issuing s.rows.next true }
    else
      some { s with
        rows := s.rows.insert (newRow s.now waited vendorToken amountCents)
        openings := s.openings.delete o }
  | _ => none

/-- What social-service does with core's answer about a call Lydia did not answer with a request. -/
def notCreated (s : State) (o i : Nat) (a : DoAnswer) : State :=
  if coreRefusedRequest (createCheckout a) then { s with openings := s.openings.set o (.releasing i) }
  else { s with openings := s.openings.delete o }

def issued (s : State) (o : Nat) (r : IssueResult) : Option State :=
  match s.openings.rows o with
  | some (.issuing i) =>
    match r with
    | .lost => some { s with openings := s.openings.delete o }
    | .core .created numeric =>
      (s.requests i).map fun req =>
        { s with openings := s.openings.set o (.writing i req.uuid (if numeric then some req.requestId else none)) }
    | .core .refused _ =>
      -- Lydia refuses a call that took no effect and takes none
      if s.requests i = none ∧ s.issuing i = false then some (s.notCreated o i .refused) else none
    | .core .none _ => some (s.notCreated o i .none)
  | _ => none

def write (s : State) (o : Nat) : Option State :=
  match s.openings.rows o with
  | some (.writing i uuid requestId) =>
    (s.rows.rows i).map fun row =>
      { s.setRow i { row with requestUuid := some uuid, requestId } with openings := s.openings.delete o }
  | _ => none

/-- `releaseUnissuedCheckout`. -/
def release (s : State) (o : Nat) : Option State :=
  match s.openings.rows o with
  | some (.releasing i) =>
    (s.rows.rows i).map fun row => { s.setRow i (closed row .cancelled) with openings := s.openings.delete o }
  | _ => none

/-! ### Lydia -/

def request (s : State) (i : Nat) (requestId uuid : String) : Option State :=
  match s.requests i, s.rows.rows i with
  | none, some row =>
    if s.issuing i ∧ s.now < row.createdAt + CHECKOUT_ISSUE_WINDOW_MS ∧ s.byRequestId requestId = none then
      some (({ s with issuing := Function.update s.issuing i false } : State).setRequest i ⟨requestId, uuid,
        s.now, .open_⟩)
    else none
  | _, _ => none

def pay (s : State) (i : Nat) : Option State :=
  (s.requests i).bind fun r => if s.payable i then some (s.setRequest i { r with state := .paid }) else none

def decline (s : State) (i : Nat) : Option State :=
  (s.requests i).bind fun r => if r.state = .open_ then some (s.setRequest i { r with state := .declined }) else none

end State

def step (s : State) : Event → Option State
  | .tick ms => some { s with now := s.now + ms }
  | .erase => some { s with erased := true }
  | .deleteProduct => some { s with product := { s.product with deleted := true } }
  | .configure webhook => some { s with product := { s.product with webhook } }
  | .beginOpening => some s.beginOpening
  | .beginReturn i => some (s.beginReturn i)
  | .beginCallback i requestId vendorToken => some (s.beginCallback i requestId vendorToken)
  | .beginSweep i => some (s.beginSweep i)
  | .store p acked => s.store p acked
  | .cancel p r => s.cancel p r
  | .read p r => s.read p r
  | .close p acked => s.close p acked
  | .settle p mayGrant acked => s.settle p mayGrant acked
  | .complete p acked => s.complete p acked
  | .dispatch p => s.dispatch p
  | .answer p => s.answer p
  | .fails p => s.fails p
  | .crash p => (s.tasks.rows p).map fun _ => s.endTask p
  | .insert o vendorToken amountCents waited acked => s.insert o vendorToken amountCents waited acked
  | .request i requestId uuid => s.request i requestId uuid
  | .drop i => some { s with issuing := Function.update s.issuing i false }
  | .issued o r => s.issued o r
  | .write o => s.write o
  | .release o => s.release o
  | .crashOpening o => (s.openings.rows o).map fun _ => { s with openings := s.openings.delete o }
  | .pay i => s.pay i
  | .decline i => s.decline i
  | .end_ i => some (s.endRequest i)

def start (s : State) : Prop :=
  s.rows = .empty ∧ s.records = .empty ∧ s.tasks = .empty ∧ s.openings = .empty ∧ s.requests = (fun _ => none) ∧
    s.dispatched = [] ∧ s.answers = []

def machine : Machine State Event := ⟨start, step⟩

end Canari.Associations.ProductCheckout
