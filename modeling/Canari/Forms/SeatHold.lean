/-
  Canari.Forms.SeatHold — which submissions hold a seat on a form, and the two
  transactions that decide it under the form's row lock
  (`apps/social-service/src/forms/seat-hold.ts`, `submit` and `markPaid` in
  `forms.service.ts`).

  A `pending` answer holds its seat for `PENDING_PAYMENT_HOLD_SECONDS` after its payment
  request was issued; `paid`, `free` and `pending_cash` answers hold one without a clock.
  Both transactions read the hold on the database clock, which inside a transaction is
  the instant the transaction began (`start`), however long it waited for the lock.

  The rows are those of one form; prices, answers and files are decided before the
  transaction and only their outcome, the total, is read here.
-/

import Canari.Lib.Table

namespace Canari.Forms.SeatHold

open Lib Option

inductive PaymentStatus where
  | free
  | pending
  | pendingCash
  | paid
  | paidOverCapacity
  | refunded
  | cancelled
  | expired
  deriving DecidableEq

structure Submission where
  /-- None for a guest and on an anonymous form. -/
  userId : Option String
  totalPaid : Nat
  paymentStatus : PaymentStatus
  paymentMethodCash : Bool
  stripeSessionId : Option String
  paymentRequestId : Option String
  paymentSettledBy : Option String
  cashExpiresAt : Option Int
  paymentRequestedAt : Int
  createdAt : Int
  guestVisitorKey : Option String
  /-- The effects of a payment already run: the cotisation, the purchase record, the organisers' alert. -/
  cotisationGranted : Bool
  purchaseRecorded : Bool
  organiserNotified : Bool

structure Form where
  anonymous : Bool
  /-- No limit when none or 0. -/
  maxSubmissions : Option Nat
  allowMultipleSubmissions : Bool
  allowCashPayment : Bool
  cashPaymentExpiryDays : Option Nat

def PENDING_PAYMENT_HOLD_SECONDS : Int := 30 * 60

def GUEST_PENDING_CEILING : Nat := 3

/-! ## Who holds a seat -/

def livePending (now : Int) (row : Submission) : Bool :=
  row.paymentStatus == .pending && row.paymentRequestedAt > now - PENDING_PAYMENT_HOLD_SECONDS

def seatHolding (now : Int) (row : Submission) : Bool :=
  row.paymentStatus == .paid || row.paymentStatus == .free || livePending now row || row.paymentStatus == .pendingCash

def answerHolding (now : Int) (row : Submission) : Bool := seatHolding now row || row.paymentStatus == .paidOverCapacity

def settledPayment : PaymentStatus → Bool
  | .paid | .paidOverCapacity | .refunded => true
  | _ => false

variable (F : Form)

def Form.cap : Option Nat := F.maxSubmissions.filter (· ≠ 0)

variable (rows : Table Submission)

def Form.full (now : Int) : Bool :=
  match F.cap with
  | some m => rows.count (seatHolding now) ≥ m
  | none => false

/-! ## `submit` -/

inductive Origin where
  | member (userId : String)
  | guest (visitorKey : String)

structure SubmitCall where
  origin : Origin
  totalCents : Nat
  cash : Bool

variable (c : SubmitCall)

def SubmitCall.userId : Option String :=
  match c.origin with
  | .member u => some u
  | .guest _ => none

def SubmitCall.visitorKey : Option String :=
  match c.origin with
  | .guest k => if c.totalCents > 0 then some k else none
  | .member _ => none

def reuses : Bool :=
  !F.anonymous && c.userId.isSome && c.totalCents > 0 && !F.allowMultipleSubmissions

def oneAnswer : Bool := !F.anonymous && c.userId.isSome && !F.allowMultipleSubmissions

/-- `liveRow`: the newest live pending row of this person. -/
def liveRow (now : Int) (userId : Option String) : Option (Nat × Submission) :=
  (List.range rows.next).foldl (fun best i =>
    match rows.rows i with
    | some row =>
      if livePending now row && row.userId == userId then
        match best with
        | some (_, b) => if row.createdAt ≥ b.createdAt then some (i, row) else best
        | none => some (i, row)
      else best
    | none => best) none

/-- `assertNoOtherAnswer`: another row of this person counts as an answer. -/
def otherAnswer (now : Int) (userId : Option String) (excludeId : Option Nat) : Bool :=
  rows.any fun i row => row.userId == userId && answerHolding now row && some i != excludeId

def newRow (start : Int) : Submission where
  userId := if F.anonymous then none else c.userId
  totalPaid := c.totalCents
  paymentStatus := if c.totalCents > 0 then .pending else .free
  paymentMethodCash := false
  stripeSessionId := none
  paymentRequestId := none
  paymentSettledBy := none
  cashExpiresAt := none
  paymentRequestedAt := start
  createdAt := start
  guestVisitorKey := c.visitorKey
  cotisationGranted := false
  purchaseRecorded := false
  organiserNotified := false

/-- The row a retry reuses: it names no request until the next one is issued, and its hold restarts. -/
def reusedRow (row : Submission) (c : SubmitCall) (start : Int) : Submission :=
  { row with
    totalPaid := c.totalCents
    paymentRequestId := none
    stripeSessionId := none
    paymentStatus := .pending
    paymentRequestedAt := start }

def sameRequest (a b : Submission) : Bool :=
    a.paymentRequestId == b.paymentRequestId && a.stripeSessionId == b.stripeSessionId

def existingPending (previous : Nat × Submission) : Option Submission :=
  (rows.rows previous.1).filter fun row =>
    [PaymentStatus.pending, .cancelled, .expired].contains row.paymentStatus && sameRequest row previous.2

structure Committed where
  rows : Table Submission
  /-- `form_respondents`, the members who answered an anonymous form. -/
  respondents : List String
  saved : Nat

def submitWrite (respondents : List String) (start : Int) (c : SubmitCall)
    (existing : Option (Nat × Submission)) : Option Committed :=
  if F.anonymous || (c.userId.isNone && c.totalCents == 0) then
    if c.totalCents > 0 then none
    else
      match c.userId with
      | some u =>
        if F.allowMultipleSubmissions then some ⟨rows.insert (newRow F c start), respondents, rows.next⟩
        else if respondents.contains u then none
        else some ⟨rows.insert (newRow F c start), u :: respondents, rows.next⟩
      | none => some ⟨rows.insert (newRow F c start), respondents, rows.next⟩
  else
    match existing with
    | some (id, row) => some ⟨rows.set id (reusedRow row c start), respondents, id⟩
    | none => some ⟨rows.insert (newRow F c start), respondents, rows.next⟩

/-- The row the transaction reuses, if any; none when the row it settled changed, or another submit holds one. -/
def existingRow (start : Int) (c : SubmitCall) (previous : Option (Nat × Submission)) :
    Option (Option (Nat × Submission)) :=
  match previous with
  | some p => (existingPending rows p).map fun row => some (p.1, row)
  | none => if reuses F c && (liveRow rows start c.userId).isSome then none else some none

/-- `submit`'s transaction, under the form lock; none when it refuses. -/
def submitTx (respondents : List String) (start : Int) (c : SubmitCall)
    (previous : Option (Nat × Submission)) : Option Committed :=
  (existingRow F rows start c previous).bind fun existing =>
    if oneAnswer F c && otherAnswer rows start c.userId (existing.map (·.1)) then none
    else if F.full rows start && !(existing.any fun p => livePending start p.2) then none
    else if c.visitorKey.any fun k => rows.count (fun row => row.guestVisitorKey == some k &&
        (livePending start row || row.paymentStatus == .pendingCash)) ≥ GUEST_PENDING_CEILING then none
    else submitWrite F rows respondents start c existing

/-- The cash step, after the transaction: an update by id alone. The deadline is on the service's clock. -/
def cashUpdate (row : Submission) (serviceNow : Int) : Submission :=
  { row with
    paymentStatus := .pendingCash
    paymentMethodCash := true
    cashExpiresAt := F.cashPaymentExpiryDays.map fun days => serviceNow + days * 24 * 60 * 60 }

/-! ## `markPaid` -/

def lateStatus (start : Int) (id : Nat) (row : Submission) : PaymentStatus :=
  if F.full rows start then .paidOverCapacity
  else if !F.allowMultipleSubmissions && row.userId.isSome && otherAnswer rows start row.userId (some id) then
    .paidOverCapacity
  else .paid

/-- `markPaid`'s transaction on one row, under the form lock and the row lock. -/
def markPaidTx (start : Int) (id : Nat) (sessionId : Option String) (onlyIfRowNames : Bool)
    (row : Submission) : Submission :=
  if onlyIfRowNames && row.stripeSessionId != sessionId then row
  else if settledPayment row.paymentStatus then row
  else
    { row with
      paymentStatus := if seatHolding start row then .paid else lateStatus F rows start id row
      paymentSettledBy := sessionId }

/-! ## What a committed submit did -/

theorem liveRow_spec {rows : Table Submission} {now : Int} {userId : Option String} {p : Nat × Submission}
    (h : liveRow rows now userId = some p) : rows.rows p.1 = some p.2 ∧ livePending now p.2 = true ∧
    p.2.userId = userId := by
  refine List.foldlRecOn (motive := fun best : Option (Nat × Submission) => ∀ b, best = some b →
    rows.rows b.1 = some b.2 ∧ livePending now b.2 = true ∧ b.2.userId = userId) _ _ ?_ ?_ p h
  · intro b hb
    cases hb
  · intro best ih i _ b he
    split at he
    · rename_i row hrow
      split at he
      · rename_i hc
        simp only [Bool.and_eq_true, beq_iff_eq] at hc
        split at he
        · split at he
          · cases he; exact ⟨hrow, hc⟩
          · exact ih b he
        · cases he; exact ⟨hrow, hc⟩
      · exact ih b he
    · exact ih b he

variable {previous : Option (Nat × Submission)}

theorem existingRow_some {F : Form} {rows : Table Submission} {start : Int} {c : SubmitCall}
    {id : Nat} {row : Submission} (h : existingRow F rows start c previous = some (some (id, row))) :
    ∃ q, previous = some (id, q) ∧ rows.rows id = some row ∧ sameRequest row q = true := by
  unfold existingRow at h
  cases previous with
  | none =>
    simp only at h
    split at h <;> cases h
  | some q =>
    obtain ⟨row', hr, he⟩ := map_eq_some_iff.mp h
    cases he
    obtain ⟨hrow, hcond⟩ := filter_eq_some_iff.mp hr
    exact ⟨q.2, rfl, hrow, (Bool.and_eq_true_iff.mp hcond).2⟩

/-- Either a row is inserted, with the form not full, or the row settled before is reused,
    its request still the one settled; no other row of the person counts as an answer. -/
theorem submitTx_cases {F : Form} {rows : Table Submission} {respondents : List String} {start : Int} {c : SubmitCall}
    {out : Committed} (hprev : previous.isSome → reuses F c = true)
    (h : submitTx F rows respondents start c previous = some out) :
    (F.full rows start = false ∧ out.rows = rows.insert (newRow F c start) ∧ out.saved = rows.next ∧
      (oneAnswer F c = true → otherAnswer rows start c.userId none = false)) ∨
    ∃ id q row, previous = some (id, q) ∧ rows.rows id = some row ∧ sameRequest row q = true ∧
      (livePending start row = true ∨ F.full rows start = false) ∧ out.rows = rows.set id (reusedRow row c start) ∧
      out.saved = id ∧ (oneAnswer F c = true → otherAnswer rows start c.userId (some id) = false) := by
  obtain ⟨existing, hex, h⟩ := bind_eq_some_iff.mp h
  split at h
  · cases h
  rename_i hother
  split at h
  · cases h
  rename_i hfull
  split at h
  · cases h
  have alone : oneAnswer F c = true → otherAnswer rows start c.userId (existing.map (·.1)) = false := by
    intro ho
    simpa [ho] using hother
  unfold submitWrite at h
  cases existing with
  | none =>
    have hf : F.full rows start = false := by simpa using hfull
    have inserted : ∀ rs, out = ⟨rows.insert (newRow F c start), rs, rows.next⟩ → (F.full rows start = false ∧
        out.rows = rows.insert (newRow F c start) ∧ out.saved = rows.next ∧
        (oneAnswer F c = true → otherAnswer rows start c.userId none = false)) := by
      intro rs he
      rw [he]
      exact ⟨hf, rfl, rfl, alone⟩
    left
    split at h
    · split at h
      · cases h
      split at h
      · split at h
        · exact inserted _ (some.inj h).symm
        split at h
        · cases h
        · exact inserted _ (some.inj h).symm
      · exact inserted _ (some.inj h).symm
    · exact inserted _ (some.inj h).symm
  | some e =>
    obtain ⟨id, row⟩ := e
    right
    obtain ⟨q, hq, hrow, hsame⟩ := existingRow_some hex
    have hre := hprev (by rw [hq]; rfl)
    -- a form on which a row is reused is not anonymous, and the person is a member
    have hnot : (F.anonymous || (c.userId.isNone && c.totalCents == 0)) = false := by
      simp only [reuses, Bool.and_eq_true, Bool.not_eq_true', decide_eq_true_eq] at hre
      obtain ⟨⟨⟨ha, hu⟩, _⟩, _⟩ := hre
      rw [ha]
      simp [isSome_iff_ne_none.mp hu]
    rw [if_neg (by rw [hnot]; simp)] at h
    have hlive : livePending start row = true ∨ F.full rows start = false := by
      cases hl : livePending start row with
      | true => exact Or.inl rfl
      | false => right; simpa [hl] using hfull
    have he := some.inj h
    subst he
    exact ⟨id, q, row, hq, hrow, hsame, hlive, rfl, rfl, alone⟩

end Canari.Forms.SeatHold
