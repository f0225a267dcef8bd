/-
  Canari.Forms.OneAnswer — one answer per person on a form that takes one.

  `one_answer_one_payable_request`, on such a form:
  - two rows of one person that both count as an answer are the same row, or one of them
    is a payment that landed `paid_over_capacity`: its money arrived once another answer
    of that person stood, and is owed back. This along the runs in which the holds the
    steps rely on have not ended (`holdLasts`);
  - no answer has two requests that can still be paid;
  - a further `markPaid` leaves a settled row as it is, but for the flags of the effects
    it finishes.
  `a_late_payment_is_a_second_answer`: the `paid_over_capacity` case does happen.
-/

import Canari.Forms.PayableRequest

namespace Canari.Forms.OneAnswer

open Lib
open Forms.SeatHold
open Forms.Submissions
open Forms.Capacity
open Forms.PayableRequest

/-! ## The statements -/

/-- Two answers of one person are one, but for a payment that landed over capacity. -/
def OnlyAnswer (s : St) : Prop := ∀ i j a b, s.rows.rows i = some a → s.rows.rows j = some b → a.userId.isSome →
    a.userId = b.userId →
  answerHolding s.now a = true → answerHolding s.now b = true →
  i = j ∨ a.paymentStatus = .paidOverCapacity ∨ b.paymentStatus = .paidOverCapacity

def OnePayable (s : St) : Prop := ∀ a b q r, s.requests.rows a = some q → s.requests.rows b = some r →
  q.submissionId = r.submissionId → q.state = .open → r.state = .open → a = b

/-- The steps of `markPaid`, its transaction and the effects it then runs. -/
def ofMarkPaid : Ev → Bool
  | .markPaid _ _ _ _ | .commitPaid _ | .fulfil _ _ _ _ => true
  | _ => false

def ReplayKeeps (F : Form) (s : St) : Prop := ∀ e s', ofMarkPaid e = true → step F s e = some s' →
  ∀ id row, s.rows.rows id = some row → settledPayment row.paymentStatus = true →
    ∃ cotisation purchase organiser, s'.rows.rows id = some { row with
      cotisationGranted := cotisation, purchaseRecorded := purchase, organiserNotified := organiser }

/-! ## One seat -/

def OneSeat (s : St) : Prop := ∀ i j a b, s.rows.rows i = some a → s.rows.rows j = some b → a.userId.isSome →
    a.userId = b.userId →
  seatHolding s.now a = true → seatHolding s.now b = true → i = j

variable {s s' : St}

theorem oneSeat_kept (h : OneSeat s) (hk : SeatsKept s s') : OneSeat s' := by
  intro i j a b ha hb hu he hsa hsb
  obtain ⟨x, hx, hxu, hxs⟩ := hk i a ha hsa
  obtain ⟨y, hy, hyu, hys⟩ := hk j b hb hsb
  rw [hxu] at hu he
  exact h i j x y hx hy hu (he.trans hyu) hxs hys

theorem oneSeat_write {id : Nat} {y : Submission} (h : OneSeat s) (hn : s'.now = s.now)
    (hr : s'.rows.rows = Function.update s.rows.rows id (some y))
    (halone : ∀ j z, j ≠ id → s.rows.rows j = some z → y.userId.isSome → z.userId = y.userId →
    seatHolding s.now z = false) : OneSeat s' := by
  intro i j a b ha hb hu he hsa hsb
  rw [hr] at ha hb
  rw [hn] at hsa hsb
  rcases update_eq_some_iff.mp ha with ⟨hi, rfl⟩ | ⟨hi, ha⟩ <;> rcases update_eq_some_iff.mp hb
    with ⟨hj, rfl⟩ | ⟨hj, hb⟩
  · exact hi.trans hj.symm
  · rw [halone j b hj hb hu he.symm] at hsb
    cases hsb
  · rw [halone i a hi ha (he ▸ hu) he] at hsa
    cases hsa
  · exact h i j a b ha hb hu he hsa hsb

variable {start : Int}

/-- What `assertNoOtherAnswer` read at `start` is still so. -/
theorem alone_of_otherAnswer {rows : Table Submission} (hw : rows.Wf) {now : Int} (hs : start ≤ now)
    {userId : Option String}
    {excludeId : Option Nat} (h : otherAnswer rows start userId excludeId = false) {j : Nat} {z : Submission}
    (hz : rows.rows j = some z)
    (hu : z.userId = userId) (hj : some j ≠ excludeId) : seatHolding now z = false := by
  by_contra hh
  have hstart := seatHolding_earlier hs (by simpa using hh)
  have : otherAnswer rows start userId excludeId = true := by
    refine (Table.any_eq_true hw).mpr ⟨j, z, hz, ?_⟩
    simp [hu, answerHolding, hstart, hj]
  rw [h] at this
  cases this

variable {F : Form}

theorem oneSeat_committed (ha : F.anonymous = false) (hm : F.allowMultipleSubmissions = false) (hp : Pay F s)
    (h : OneSeat s) {i : Nat} {call : SubmitCall} {previous : Option (Nat × Submission)} {out : Committed}
    (hi : s.procs i = some (.submit call (.begun previous start)))
    (hout : submitTx F s.rows s.respondents start call previous = some out) (hn : s'.now = s.now)
    (hr : s'.rows = out.rows) :
    OneSeat s' := by
  obtain ⟨hstart, hprev⟩ := hp.procs i _ hi
  have hre : previous.isSome → reuses F call = true := fun hs => by
    obtain ⟨p, hs⟩ := Option.isSome_iff_exists.mp hs
    exact (hprev p hs).1.1
  have hone : call.userId.isSome → oneAnswer F call = true := fun hu => by simp [oneAnswer, ha, hm, hu]
  rcases submitTx_cases hre hout with ⟨_, hrows, _, halone⟩ | ⟨id, q, row, hq, hrow, _, _, hrows, _, halone⟩
  · have hnew : (newRow F call start).userId = call.userId := by simp [newRow, ha]
    refine oneSeat_write h hn (by rw [hr, hrows]; rfl) fun j z _ hz hu hzu => ?_
    rw [hnew] at hu hzu
    exact alone_of_otherAnswer hp.rowsWf hstart (halone (hone hu)) hz hzu (by simp)
  · have huser : row.userId = call.userId := (hprev (id, q) hq).1.2.2 row hrow
    refine oneSeat_write h hn (by rw [hr, hrows]; rfl) fun j z hj hz hu hzu => ?_
    have hcall : (reusedRow row call start).userId = call.userId := huser
    rw [hcall] at hu hzu
    exact alone_of_otherAnswer hp.rowsWf hstart (halone (hone hu)) hz hzu (by simpa using hj)

/-- A payment keeps the seat its row held, finds no other answer of the person, or takes no seat. -/
theorem oneSeat_paid (hm : F.allowMultipleSubmissions = false) (hp : Pay F s) (h : OneSeat s) {id : Nat}
    {sessionId : Option String} {onlyIf : Bool} {row : Submission} (hstart : start ≤ s.now)
    (hrow : s.rows.rows id = some row)
    (hold : seatHolding start row = true → seatHolding s.now row = true) (hn : s'.now = s.now)
    (hr : s'.rows = s.rows.set id (markPaidTx F s.rows start id sessionId onlyIf row)) : OneSeat s' := by
  have kept : ∀ y : Submission, s'.rows = s.rows.set id y → y.userId = row.userId →
      (seatHolding s.now y = true → seatHolding s.now row = true) → OneSeat s' := by
    intro y hy hu hs
    refine oneSeat_kept h ((seatsKept_set hrow hu hs).trans (seatsKept_same ?_ ?_))
    · exact hy
    · exact hn
  unfold markPaidTx at hr
  split at hr
  · exact kept row hr rfl fun hs => hs
  split at hr
  · exact kept row hr rfl fun hs => hs
  by_cases hh : seatHolding start row = true
  · exact kept _ hr rfl fun _ => hold hh
  rw [if_neg hh] at hr
  by_cases hl : lateStatus F s.rows start id row = .paidOverCapacity
  · rw [hl] at hr
    exact kept _ hr rfl fun hs => by cases hs
  · -- the row was not counted, and no other row of the person is an answer
    refine oneSeat_write h hn (by rw [hr]; rfl) fun j z hj hz hu hzu => ?_
    have hother : otherAnswer s.rows start row.userId (some id) = false := by
      unfold lateStatus at hl
      split at hl
      · exact absurd rfl hl
      split at hl
      · exact absurd rfl hl
      · rename_i hno
        simpa [hm, hu] using hno
    exact alone_of_otherAnswer hp.rowsWf hstart hother hz hzu (by simpa using hj)

theorem oneSeat_step (ha : F.anonymous = false) (hm : F.allowMultipleSubmissions = false) (s : St) (e : Ev) (s' : St)
    (h : Pay F s ∧ OneSeat s) (hok : holdLasts s e = true) (hs : step F s e = some s') : Pay F s' ∧ OneSeat s' := by
  refine ⟨pay_step s e s' h.1 hs, ?_⟩
  cases step_shape h.1 hs with
  | quiet _ hk => exact oneSeat_kept h.2 hk
  | @cash i id call row serviceNow _ hi hrow _ hn hr =>
    have hheld : seatHolding s.now row = true := by simpa [holdLasts, hi, hrow] using hok
    refine oneSeat_kept h.2 ((seatsKept_set hrow (y := cashUpdate F row serviceNow) rfl fun _ => hheld).trans
      (seatsKept_same hr hn))
  | @paid i id sessionId onlyIf start row _ hi hrow _ hn hr =>
    have hstart : start ≤ s.now := h.1.procs i _ hi
    refine oneSeat_paid hm h.1 h.2 hstart hrow (fun hh => ?_) hn hr
    simpa [holdLasts, hi, hrow, hh] using hok
  | committed hi hout => exact oneSeat_committed ha hm h.1 h.2 hi hout rfl rfl
  | created hi _ _ => exact oneSeat_kept h.2 (seatsKept_same rfl rfl)
  | @wrote i id call requestId uuid row hi hrow =>
    have hkept : SeatsKept s (setRow s id { row with paymentRequestId := requestId, stripeSessionId := uuid }) :=
      seatsKept_set hrow rfl fun hr => hr
    exact oneSeat_kept h.2 (hkept.trans (seatsKept_same rfl rfl))

/-! ## A replay -/

theorem settled_markPaidTx {rows : Table Submission} {id : Nat} {sessionId : Option String} {onlyIf : Bool}
    {row : Submission} (h : settledPayment row.paymentStatus = true) :
    markPaidTx F rows start id sessionId onlyIf row = row := by
  unfold markPaidTx
  split <;> rfl

theorem replay_keeps (F : Form) (s : St) : ReplayKeeps F s := by
  intro e s' he hs id row hrow hset
  have same : ∀ y, y = some row → ∃ cotisation purchase organiser, y = some { row with
      cotisationGranted := cotisation, purchaseRecorded := purchase, organiserNotified := organiser } :=
    fun y hy => ⟨row.cotisationGranted, row.purchaseRecorded, row.organiserNotified, hy⟩
  cases e with
  | markPaid i k sessionId onlyIf =>
    simp only [step] at hs
    split at hs
    · cases hs; exact same _ hrow
    · cases hs
  | commitPaid i =>
    simp only [step] at hs
    split at hs
    · rename_i k sessionId onlyIf start hi
      split at hs
      · rename_i x hx
        cases hs
        refine same _ ?_
        show Function.update s.rows.rows k _ id = some row
        by_cases e : id = k
        · subst e
          rw [hrow] at hx
          cases hx
          rw [settled_markPaidTx hset, Function.update_self]
        · rw [Function.update_of_ne e]
          exact hrow
      · cases hs; exact same _ hrow
    · cases hs
  | fulfil i cotisation purchase organiser =>
    simp only [step] at hs
    split at hs
    · rename_i k hi
      split at hs
      · rename_i x hx
        cases hs
        by_cases e : id = k
        · subst e
          rw [hrow] at hx
          cases hx
          exact ⟨cotisation, purchase, organiser, Function.update_self _ _ _⟩
        · refine same _ ?_
          show Function.update s.rows.rows k _ id = some row
          rw [Function.update_of_ne e]
          exact hrow
      · cases hs; exact same _ hrow
    · cases hs
  | _ => cases he

/-! ## The theorem -/

theorem onlyAnswer_of_oneSeat (h : OneSeat s) : OnlyAnswer s := by
  intro i j a b ha hb hu he hsa hsb
  unfold answerHolding at hsa hsb
  simp only [Bool.or_eq_true, beq_iff_eq] at hsa hsb
  rcases hsa with hsa | hsa
  · rcases hsb with hsb | hsb
    · exact Or.inl (h i j a b ha hb hu he hsa hsb)
    · exact Or.inr (Or.inr hsb)
  · exact Or.inr (Or.inl hsa)

theorem oneSeat (ha : F.anonymous = false) (hm : F.allowMultipleSubmissions = false)
    (h : (machine F).ReachBy (fun s e => holdLasts s e = true) s) : OneSeat s := by
  refine (Machine.ReachBy.invariant (I := fun s => Pay F s ∧ OneSeat s) (fun s h0 => ⟨pay_init h0, ?_⟩)
    (oneSeat_step ha hm) h).2
  intro i j a b hi
  rw [h0.1] at hi
  cases hi

/-- On a form that takes one answer: a second row of a person that counts as an answer is a
    payment that landed over capacity; no answer has two payable requests; and a further
    `markPaid` changes of a settled row only the flags of its effects. -/
theorem one_answer_one_payable_request {F : Form} {s : St} (ha : F.anonymous = false)
    (hm : F.allowMultipleSubmissions = false)
    (h : (machine F).Reach s) :
    ((machine F).ReachBy (fun s e => holdLasts s e = true) s → OnlyAnswer s) ∧ OnePayable s ∧ ReplayKeeps F s :=
  ⟨fun hb => onlyAnswer_of_oneSeat (oneSeat ha hm hb), (pay h).payable, replay_keeps F s⟩

/-! ## Runs -/

def oneEach : Form := ⟨false, none, false, false, none⟩

/-- Alice tries again while her request is open: it is cancelled, her row is reused, and the
    request issued next is the one she pays. -/
def retryRun : List Ev :=
  submitted 0 (online "alice") ++ [Ev.issue 0 (some ("1", "u1")) (some ⟨true, true⟩), .writeIds 0, .tick 60,
    .submit 1 (online "alice"),
    .findPrevious 1, .checkAnswer 1, .cancelRequest 1, .beginSubmit 1, .commitSubmit 1,
      .issue 1 (some ("2", "u2")) (some ⟨true, true⟩),
    .writeIds 1, .provider 1 .paid, .markPaid 2 0 (some "u2") true, .commitPaid 2, .fulfil 2 true true true,
    .markPaid 3 0 (some "2") false, .commitPaid 3]

theorem retryRun_one_answer : ∃ s, (machine oneEach).runBy holdLasts empty retryRun = some s ∧
    (s.requests.rows 0).map (·.state) = some .closed ∧ (s.rows.rows 0).map (·.paymentStatus) = some .paid ∧
    OnlyAnswer s ∧ OnePayable s ∧ ReplayKeeps oneEach s := by
  have hr : ((machine oneEach).runBy holdLasts empty retryRun).map
      (fun s => ((s.requests.rows 0).map (·.state), (s.rows.rows 0).map (·.paymentStatus))) = some (some .closed,
        some .paid) := by
    decide
  obtain ⟨s, hs, he⟩ := Option.map_eq_some_iff.mp hr
  have hby := Machine.reachBy_of_run (M := machine oneEach) _ ⟨rfl, rfl, rfl⟩ hs
  obtain ⟨h1, h2, h3⟩ := one_answer_one_payable_request (F := oneEach) rfl rfl hby.reach
  exact ⟨s, hs, congrArg Prod.fst he, congrArg Prod.snd he, h1 hby, h2, h3⟩

def secondAnswerRun : List Ev :=
  submitted 0 (online "alice") ++ [Ev.issue 0 (some ("1", "u1")) (some ⟨true, true⟩), .writeIds 0, .tick 1799,
    .provider 0 .paid, .tick 1] ++
    submitted 1 (online "alice") ++ [Ev.markPaid 2 0 (some "u1") true, .commitPaid 2]

theorem a_late_payment_is_a_second_answer : ¬ ∀ (F : Form)
    (s : St), F.anonymous = false → F.allowMultipleSubmissions = false →
    (machine F).Reach s → ∀ i j a b, s.rows.rows i = some a → s.rows.rows j = some b → a.userId.isSome →
      a.userId = b.userId →
      answerHolding s.now a = true → answerHolding s.now b = true → i = j := by
  intro h
  have hr : ((machine oneEach).run empty secondAnswerRun).map
    (fun s => ((s.rows.rows 0).map (fun a => (a.userId, answerHolding s.now a)),
      (s.rows.rows 1).map fun b => (b.userId, answerHolding s.now b))) =
      some (some (some "alice", true), some (some "alice", true)) := by decide
  obtain ⟨s, hs, he⟩ := Option.map_eq_some_iff.mp hr
  obtain ⟨a, ha, hae⟩ := Option.map_eq_some_iff.mp (congrArg Prod.fst he)
  obtain ⟨b, hb, hbe⟩ := Option.map_eq_some_iff.mp (congrArg Prod.snd he)
  obtain ⟨hau, hah⟩ := Prod.mk.inj hae
  obtain ⟨hbu, hbh⟩ := Prod.mk.inj hbe
  have h01 := h oneEach s rfl rfl (Machine.reach_of_run _ ⟨rfl, rfl, rfl⟩ hs) 0 1 a b ha hb (by
    rw [hau]; rfl) (hau.trans hbu.symm) hah hbh
  cases h01

end Canari.Forms.OneAnswer
