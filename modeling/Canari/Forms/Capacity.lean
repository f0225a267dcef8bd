/-
  Canari.Forms.Capacity — a form never gives more seats than it has.

  Count and write are one transaction under the form's lock, so no two calls take the
  last seat. Two steps rely on a hold they read earlier: a retry or a payment that finds
  its row's hold still running does not count, and finds it so on the clock its
  transaction began with; and the cash update comes after the transaction and looks at
  nothing. `seats_within_capacity`: along the runs in which those holds have not ended by
  the time of the step, the seats held never exceed the form's limit. When one has, two
  answers hold the last seat (`a_late_cash_update_takes_a_second_seat`,
  `a_payment_that_waited_takes_a_second_seat`).
-/

import Canari.Forms.Submissions

namespace Canari.Forms.Capacity

open Lib Option
open Forms.SeatHold
open Forms.Submissions

def holdLasts (s : St) : Ev → Bool
  | .commitSubmit i =>
    match s.procs i with
    | some (.submit _ (.begun (some p) start)) =>
        (s.rows.rows p.1).all fun row => !livePending start row || livePending s.now row
    | _ => true
  | .commitPaid i =>
    match s.procs i with
    | some (.marking id _ _ start) => (s.rows.rows id).all fun row => !seatHolding start row || seatHolding s.now row
    | _ => true
  | .cash i _ =>
    match s.procs i with
    | some (.submit _ (.saved id)) => (s.rows.rows id).all (seatHolding s.now)
    | _ => true
  | _ => true

/-! ## The hold and the clock -/

variable {now t : Int} {row : Submission}

theorem livePending_earlier (h : t ≤ now) (hl : livePending now row = true) : livePending t row = true := by
  unfold livePending at hl ⊢
  simp only [Bool.and_eq_true, beq_iff_eq, gt_iff_lt, decide_eq_true_eq] at hl ⊢
  exact ⟨hl.1, by omega⟩

theorem seatHolding_earlier (h : t ≤ now) (hs : seatHolding now row = true) : seatHolding t row = true := by
  unfold seatHolding at hs ⊢
  simp only [Bool.or_eq_true, beq_iff_eq] at hs ⊢
  rcases hs with ((hs | hs) | hs) | hs
  · exact Or.inl (Or.inl (Or.inl hs))
  · exact Or.inl (Or.inl (Or.inr hs))
  · exact Or.inl (Or.inr (livePending_earlier h hs))
  · exact Or.inr hs

theorem count_earlier (h : t ≤ now)
    (rows : Table Submission) : rows.count (seatHolding now) ≤ rows.count (seatHolding t) :=
  Table.count_mono fun _ hs => seatHolding_earlier h hs

theorem livePending_seat (h : livePending now row = true) : seatHolding now row = true := by
  unfold seatHolding
  rw [h]
  simp

/-! ## What each write does to the count -/

variable {rows : Table Submission} {id : Nat}

theorem count_set_kept {x : Submission} (hx : rows.rows id = some x)
    (h : seatHolding now row = true → seatHolding now x = true) :
    (rows.set id row).count (seatHolding now) ≤ rows.count (seatHolding now) :=
  Table.count_set_le fun hr => ⟨x, hx, h hr⟩

variable {s : St} {target : PaymentStatus}

theorem count_moveLocked {source : PaymentStatus} {named : Submission → Bool}
    (h : ∀ row : Submission, row.paymentStatus = source → seatHolding now { row with paymentStatus := target } = true →
      seatHolding now row = true) :
    (moveLocked s id source target named).rows.count (seatHolding now) ≤ s.rows.count (seatHolding now) := by
  unfold moveLocked
  split
  · rename_i row hrow
    split
    · rename_i hc
      simp only [Bool.and_eq_true, beq_iff_eq] at hc
      exact count_set_kept hrow (h row hc.1)
    · exact Nat.le_refl _
  · exact Nat.le_refl _

theorem released (ht : target = .cancelled ∨ target = .refunded ∨ target = .expired) :
    seatHolding now { row with paymentStatus := target } = false := by
  rcases ht with rfl | rfl | rfl <;> rfl

variable {F : Form}

theorem count_room {m : Nat} (hm : F.cap = some m) (ht : t ≤ now)
    (h : F.full rows t = false) : rows.count (seatHolding now) < m := by
  unfold Form.full at h
  rw [hm] at h
  simp only [ge_iff_le, decide_eq_false_iff_not, not_le] at h
  have := count_earlier ht rows
  omega

/-- A committed submit leaves at most the form's limit, when the hold it reused lasts. -/
theorem count_submitTx {respondents : List String} {start : Int} {c : SubmitCall}
    {previous : Option (Nat × Submission)} {out : Committed} {m : Nat} (hm : F.cap = some m) (hs : start ≤ now)
    (hcap : rows.count (seatHolding now) ≤ m) (hprev : previous.isSome → reuses F c = true)
    (hold : ∀ p, previous = some p →
    (rows.rows p.1).all (fun row => !livePending start row || livePending now row) = true)
    (h : submitTx F rows respondents start c previous = some out) : out.rows.count (seatHolding now) ≤ m := by
  rcases submitTx_cases hprev h with ⟨hf, hrows, _, _⟩ | ⟨id, q, row, hq, hrow, _, hor, hrows, _, _⟩
  · rw [hrows]
    have h1 := Table.count_insert_le_succ (t := rows) (newRow F c start) (seatHolding now)
    have h2 := count_room hm hs hf
    omega
  · rw [hrows]
    by_cases hlive : livePending start row = true
    · -- the hold the retry relies on still runs, so the row held its seat already
      have hl := hold _ hq
      rw [hrow] at hl
      simp only [all_some, hlive, Bool.not_true, Bool.false_or] at hl
      exact Nat.le_trans (count_set_kept hrow fun _ => livePending_seat hl) hcap
    · have hf : F.full rows start = false := hor.resolve_left hlive
      have h1 := Table.count_set_le_succ rows id (reusedRow row c start) (seatHolding now)
      have h2 := count_room hm hs hf
      omega

theorem full_of_lateStatus {start : Int}
    (h : lateStatus F rows start id row ≠ .paidOverCapacity) : F.full rows start = false := by
  unfold lateStatus at h
  split at h
  · exact absurd rfl h
  · rename_i hf; simpa using hf

/-- So does a payment: the row held its seat, or there was room, or it lands over capacity. -/
theorem count_markPaidTx {start : Int} {sessionId : Option String}
    {onlyIf : Bool} {m : Nat} (hm : F.cap = some m) (hs : start ≤ now)
    (hcap : rows.count (seatHolding now) ≤ m) (hrow : rows.rows id = some row)
    (hold : seatHolding start row = true → seatHolding now row = true) :
    (rows.set id (markPaidTx F rows start id sessionId onlyIf row)).count (seatHolding now) ≤ m := by
  have same : (rows.set id row).count (seatHolding now) ≤ m := Nat.le_trans (count_set_kept hrow fun hr => hr) hcap
  unfold markPaidTx
  split
  · exact same
  split
  · exact same
  by_cases hh : seatHolding start row = true
  · exact Nat.le_trans (count_set_kept hrow fun _ => hold hh) hcap
  · by_cases hl : lateStatus F rows start id row = .paidOverCapacity
    · refine Nat.le_trans (count_set_kept hrow fun hn => ?_) hcap
      rw [if_neg hh, hl] at hn
      cases hn
    · have h1 := Table.count_set_le_succ rows id
        { row with paymentStatus := if seatHolding start row = true then .paid else lateStatus F rows start id row,
                   paymentSettledBy := sessionId } (seatHolding now)
      have h2 := count_room hm hs (full_of_lateStatus hl)
      omega

/-! ## The invariant -/

/-- A transaction under way began no later than now, and only a reusable row is reused. -/
def ProcOk (F : Form) (now : Int) : Proc → Prop
  | .submit call (.found previous) => previous.isSome → reuses F call = true
  | .submit call (.settling _ _) => reuses F call = true
  | .submit call (.ready previous) => previous.isSome → reuses F call = true
  | .submit call (.begun previous start) => start ≤ now ∧ (previous.isSome → reuses F call = true)
  | .marking _ _ _ start => start ≤ now
  | _ => True

structure Inv (F : Form) (s : St) : Prop where
  cap : ∀ m, F.cap = some m → s.rows.count (seatHolding s.now) ≤ m
  procs : ∀ i p, s.procs i = some p → ProcOk F s.now p

theorem procOk_later (h : t ≤ now) {p : Proc} (hp : ProcOk F t p) : ProcOk F now p := by
  cases p with
  | submit call phase =>
    cases phase with
    | begun previous start => exact ⟨Int.le_trans hp.1 h, hp.2⟩
    | _ => exact hp
  | marking id sessionId onlyIf start => exact Int.le_trans hp h
  | _ => trivial

variable {s' : St}

theorem inv_of (h : Inv F s) (hn : s.now ≤ s'.now)
    (hc : ∀ m, F.cap = some m → s.rows.count (seatHolding s.now) ≤ m → s'.rows.count (seatHolding s'.now) ≤ m)
    (hp : ∀ j p, s'.procs j = some p → s.procs j = some p ∨ ProcOk F s'.now p) : Inv F s' := by
  refine ⟨fun m hm => hc m hm (h.cap m hm), fun j p hj => ?_⟩
  rcases hp j p hj with hj | hok
  · exact procOk_later hn (h.procs j p hj)
  · exact hok

theorem inv_proc (h : Inv F s) (i : Nat) (v : Option Proc) (hv : ∀ p, v = some p → ProcOk F s.now p) :
    Inv F (setProc s i v) :=
  inv_of h (Int.le_refl _) (fun _ _ hc => hc) (update_cases hv)

theorem inv_ended (h : Inv F s) (i : Nat) : Inv F (setProc s i none) := inv_proc h i none fun _ hp => by cases hp

theorem inv_rows (h : Inv F s) (hn : s'.now = s.now) (hp : s'.procs = s.procs)
    (hc : s'.rows.count (seatHolding s.now) ≤ s.rows.count (seatHolding s.now)) : Inv F s' := by
  refine inv_of h (Int.le_of_eq hn.symm) (fun m _ hm => ?_) (fun j p hj => Or.inl (hp ▸ hj))
  rw [hn]
  exact Nat.le_trans hc hm

theorem inv_setRow (h : Inv F s) {x : Submission} (hrow : s.rows.rows id = some x)
    (hk : seatHolding s.now row = true → seatHolding s.now x = true) : Inv F (setRow s id row) :=
  inv_rows h rfl rfl (count_set_kept hrow hk)

theorem moveLocked_now (s : St) (id : Nat) (source target : PaymentStatus) (named : Submission → Bool) :
    (moveLocked s id source target named).now = s.now ∧ (moveLocked s id source target named).procs = s.procs := by
  unfold moveLocked
  split
  · split <;> exact ⟨rfl, rfl⟩
  · exact ⟨rfl, rfl⟩

theorem inv_moveLocked (h : Inv F s) (id : Nat) {source : PaymentStatus} (named : Submission → Bool)
    (hk : ∀ row : Submission, row.paymentStatus = source →
    seatHolding s.now { row with paymentStatus := target } = true →
      seatHolding s.now row = true) : Inv F (moveLocked s id source target named) :=
  inv_rows h (moveLocked_now s id source target named).1 (moveLocked_now s id source target named).2
    (count_moveLocked hk)

theorem inv_release (h : Inv F s) (id : Nat) (source : PaymentStatus) (named : Submission → Bool)
    (ht : target = .cancelled ∨ target = .refunded ∨ target = .expired) :
    Inv F (moveLocked s id source target named) := by
  refine inv_moveLocked h id named fun row _ hr => ?_
  rw [released ht] at hr
  cases hr

/-! ## The steps -/

theorem inv_init (h : Init s) : Inv F s := by
  obtain ⟨hr, _, hp⟩ := h
  refine ⟨fun m _ => ?_, by simp [hp]⟩
  rw [hr]
  exact Nat.zero_le m

theorem inv_settle {e : Ev} {i : Nat} {row : Nat × Submission} {read : Bool} {next reading : Proc} (h : Inv F s)
    (hnext : ProcOk F s.now next) (hreading : ProcOk F s.now reading)
    (hs : settleStep s i row read next reading e = some s') :
    Inv F s' := by
  cases e with
  | cancelRequest j =>
    simp only [settleStep] at hs
    split at hs
    · cases hs
    split at hs
    · cases hs
      exact inv_proc h i _ (fun p hp => by cases hp; exact hreading)
    · obtain ⟨⟨t, cancelled⟩, ht, rfl⟩ := map_eq_some_iff.mp hs
      have hpick : ProcOk F s.now (if cancelled then next else reading) := by
        cases cancelled
        · exact hreading
        · exact hnext
      have htrows : t.now = s.now ∧ t.procs = s.procs ∧ t.rows = s.rows := by
        unfold cancelAtProvider at ht
        repeat' split at ht
        all_goals first
          | (cases ht; exact ⟨rfl, rfl, rfl⟩)
          | cases ht
      have hInv : Inv F t := inv_rows h htrows.1 htrows.2.1 (by rw [htrows.2.2])
      exact inv_proc hInv i _ (fun p hp => by cases hp; rw [htrows.1]; exact hpick)
  | readState j k =>
    simp only [settleStep] at hs
    split at hs
    · cases hs
    split at hs
    · cases hs; exact inv_proc h i _ (fun p hp => by cases hp; exact hnext)
    · cases hs; exact inv_proc h i _ (fun p hp => by cases hp; exact hnext)
    · split at hs
      · cases hs
        refine inv_proc (inv_ended h i) k _ (fun p hp => ?_)
        cases hp
        exact Int.le_refl s.now
      · cases hs
    · cases hs
  | _ => cases hs

theorem inv_stepSubmit {e : Ev} (h : Inv F s) (hok : holdLasts s e = true) (hs : stepSubmit F s e = some s') :
    Inv F s' := by
  cases e with
  | submit i call =>
    simp only [stepSubmit] at hs
    split at hs
    · cases hs; exact inv_proc h i _ (fun p hp => by cases hp; trivial)
    · cases hs
  | findPrevious i =>
    simp only [stepSubmit] at hs
    split at hs
    · cases hs
      refine inv_proc h i _ (fun p hp => ?_)
      cases hp
      intro hsome
      split at hsome
      · assumption
      · cases hsome
    · cases hs
  | checkAnswer i =>
    simp only [stepSubmit] at hs
    split at hs
    · rename_i call previous hi
      have hp := h.procs i _ hi
      split at hs
      · cases hs
      split at hs
      · cases hs; exact inv_proc h i _ (fun p hp => by cases hp; exact fun hn => by cases hn)
      · split at hs
        · cases hs
        · cases hs; exact inv_proc h i _ (fun p hp' => by cases hp'; exact hp rfl)
    · cases hs
  | beginSubmit i =>
    simp only [stepSubmit] at hs
    split at hs
    · rename_i call previous hi
      have hp := h.procs i _ hi
      cases hs
      exact inv_proc h i _ (fun p hp' => by cases hp'; exact ⟨Int.le_refl _, hp⟩)
    · cases hs
  | commitSubmit i =>
    simp only [stepSubmit] at hs
    split at hs
    · rename_i call previous start hi
      obtain ⟨out, hout, rfl⟩ := map_eq_some_iff.mp hs
      obtain ⟨hstart, hprev⟩ : start ≤ s.now ∧ (previous.isSome → reuses F call = true) := h.procs i _ hi
      have hold : ∀ p, previous = some p →
          (s.rows.rows p.1).all (fun row => !livePending start row || livePending s.now row) = true := by
        intro p hp
        subst hp
        simpa [holdLasts, hi] using hok
      refine inv_of h (Int.le_refl _) (fun m hm hc => count_submitTx hm hstart hc hprev hold hout)
        (update_cases fun p hp => ?_)
      split at hp
      · cases hp; trivial
      · cases hp
    · cases hs
  | cash i serviceNow =>
    simp only [stepSubmit] at hs
    split at hs
    · rename_i call id hi
      split at hs
      · split at hs
        · rename_i row hrow
          cases hs
          have hheld : seatHolding s.now row = true := by simpa [holdLasts, hi, hrow] using hok
          exact inv_ended (inv_setRow h hrow fun _ => hheld) i
        · cases hs; exact inv_ended h i
      · cases hs
    · cases hs
  | issue i created reply =>
    have asked : ∀ q p, (∀ p', p = some p' → ProcOk F s.now p') → Inv F (setProc { s with requests := q } i p) :=
      fun q p hp => inv_proc (s := { s with requests := q }) (inv_rows h rfl rfl (Nat.le_refl _)) i p hp
    simp only [stepSubmit] at hs
    split at hs
    · split at hs
      · cases hs
      split at hs
      · split at hs
        · split at hs
          · cases hs; exact asked _ _ (fun p hp => by cases hp; trivial)
          · cases hs; exact asked _ _ (fun p hp => by cases hp)
        · cases hs
      · split at hs
        · cases hs; exact asked _ _ (fun p hp => by cases hp; trivial)
        · cases hs
      · cases hs; exact inv_proc h i _ (fun p hp => by cases hp; trivial)
      · cases hs
    · cases hs
  | writeIds i =>
    simp only [stepSubmit] at hs
    split at hs
    · split at hs
      · rename_i row hrow
        cases hs
        refine inv_ended (inv_setRow h hrow ?_) i
        exact fun hr => hr
      · cases hs; exact inv_ended h i
    · cases hs
  | release i =>
    simp only [stepSubmit] at hs
    split at hs
    · cases hs; exact inv_ended (inv_release h _ _ _ (Or.inl rfl)) i
    · cases hs
  | _ => cases hs

theorem inv_settling {e : Ev} {i : Nat} (h : Inv F s) (he : e = .cancelRequest i ∨ ∃ k, e = .readState i k)
    (hs : step F s e = some s') : Inv F s' := by
  rcases settleStep_of_step he hs with ⟨call, p, read, hi, hsettle⟩ | ⟨p, read, hi, hsettle⟩
  · have hp : reuses F call = true := h.procs i _ hi
    refine inv_settle h ?_ ?_ hsettle
    · exact fun _ => hp
    · exact hp
  · refine inv_settle h ?_ ?_ hsettle
    · trivial
    · trivial

theorem inv_step (s : St) (e : Ev) (s' : St) (h : Inv F s) (hok : holdLasts s e = true) (hs : step F s e = some s') :
    Inv F s' := by
  cases e with
  | tick d =>
    cases hs
    have hle : s.now ≤ s.now + d := by omega
    exact inv_of h hle (fun m _ hc => Nat.le_trans (count_earlier hle s.rows) hc) (fun j p hj => Or.inl hj)
  | cancelRequest i => exact inv_settling h (.inl rfl) hs
  | readState i k => exact inv_settling h (.inr ⟨k, rfl⟩) hs
  | markPaid i id sessionId onlyIf =>
    simp only [step] at hs
    split at hs
    · cases hs; exact inv_proc h i _ (fun p hp => by cases hp; exact Int.le_refl s.now)
    · cases hs
  | commitPaid i =>
    simp only [step] at hs
    split at hs
    · rename_i id sessionId onlyIf start hi
      have hstart : start ≤ s.now := h.procs i _ hi
      split at hs
      · rename_i row hrow
        cases hs
        have hold : seatHolding start row = true → seatHolding s.now row = true := by
          intro hh
          simpa [holdLasts, hi, hrow, hh] using hok
        refine inv_of h (Int.le_refl _) (fun m hm hc => count_markPaidTx hm hstart hc hrow hold)
          (update_cases fun p hp => ?_)
        cases hp
        trivial
      · cases hs; exact inv_ended h i
    · cases hs
  | fulfil i cotisation purchase organiser =>
    simp only [step] at hs
    split at hs
    · split at hs
      · rename_i row hrow
        cases hs
        refine inv_ended (inv_setRow h hrow ?_) i
        exact fun hr => hr
      · cases hs; exact inv_ended h i
    · cases hs
  | cancelSubmission i id =>
    simp only [step] at hs
    split at hs
    · split at hs
      · split at hs
        · cases hs; exact inv_proc h i _ (fun p hp => by cases hp; trivial)
        split at hs
        · cases hs
        · cases hs; exact inv_proc h i _ (fun p hp => by cases hp; trivial)
      · cases hs; exact inv_proc h i _ (fun p hp => by cases hp; trivial)
    · cases hs
  | applyCancel i =>
    simp only [step] at hs
    split at hs
    · cases hs; exact inv_ended (inv_release h _ _ _ (Or.inl rfl)) i
    · cases hs
  | ended i => cases hs; exact inv_ended h i
  | releaseRefused id sessionId =>
    simp only [step] at hs
    split at hs
    · split at hs
      · cases hs; exact inv_release h _ _ _ (Or.inl rfl)
      · cases hs
    · cases hs
  | expirePending cutoff =>
    simp only [step] at hs
    split at hs
    · cases hs
      refine inv_rows h rfl rfl (Table.count_updateAll_le fun row hr => ?_)
      unfold expireRow at hr
      split at hr
      · cases hr
      · exact hr
    · cases hs
  | expireCash =>
    cases hs
    refine inv_rows h rfl rfl (Table.count_updateAll_le fun row hr => ?_)
    unfold expireCashRow at hr
    split at hr
    · cases hr
    · exact hr
  | validateCash id =>
    cases hs
    refine inv_moveLocked h id _ fun row hrow _ => ?_
    simp [seatHolding, hrow]
  | cancelCash id => cases hs; exact inv_release h _ _ _ (Or.inl rfl)
  | refund id => cases hs; exact inv_release (inv_release h _ _ _ (Or.inr (Or.inl rfl))) _ _ _ (Or.inr (Or.inl rfl))
  | delete id => cases hs; exact inv_rows h rfl rfl (Table.count_delete_le _ _ _)
  | provider a state =>
    simp only [step] at hs
    split at hs
    · split at hs
      · cases hs; exact inv_rows h rfl rfl (Nat.le_refl _)
      · cases hs
    · cases hs
  | _ => exact inv_stepSubmit h hok hs

/-- Along every run in which the holds the steps rely on have not ended, the seats held
    never exceed the form's limit. -/
theorem seats_within_capacity {F : Form} {s : St} {m : Nat} (hm : F.cap = some m)
    (h : (machine F).ReachBy (fun s e => holdLasts s e = true) s) : s.rows.count (seatHolding s.now) ≤ m :=
  (Machine.ReachBy.invariant (I := Inv F) (fun _ h0 => inv_init h0) inv_step h).cap m hm

/-! ## Runs -/

def empty : St := ⟨0, Table.empty, [], Table.empty, fun _ => none⟩

def oneSeat : Form := ⟨false, some 1, false, true, none⟩

def submitted (i : Nat) (call : SubmitCall) : List Ev :=
  [.submit i call, .findPrevious i, .checkAnswer i, .beginSubmit i, .commitSubmit i]

def online (user : String) : SubmitCall := ⟨.member user, 500, false⟩

def paidRun : List Ev :=
  submitted 0 (online "alice") ++ [Ev.issue 0 (some ("1", "u1")) (some ⟨true, true⟩), .writeIds 0, .tick 60,
    .provider 0 .paid,
    .markPaid 1 0 (some "u1") true, .commitPaid 1, .submit 2 (online "bob"), .findPrevious 2, .checkAnswer 2,
      .beginSubmit 2]

theorem paidRun_within_capacity : ∃ s, (machine oneSeat).runBy holdLasts empty paidRun = some s ∧
    step oneSeat s (.commitSubmit 2) = none ∧ s.rows.count (seatHolding s.now) ≤ 1 := by
  have hr : ((machine oneSeat).runBy holdLasts empty paidRun).map
    (fun s => (step oneSeat s (.commitSubmit 2)).isNone) = some true := by
    decide
  obtain ⟨s, hs, hn⟩ := map_eq_some_iff.mp hr
  exact ⟨s, hs, isNone_iff_eq_none.mp hn, seats_within_capacity rfl (Machine.reachBy_of_run _ ⟨rfl, rfl, rfl⟩ hs)⟩

/-- Alice chose cash; her hold ends between her transaction and the cash update, and Bob
    takes the seat meanwhile. -/
def lateCashRun : List Ev :=
    submitted 0 ⟨.member "alice", 500, true⟩ ++ [Ev.tick 1800] ++ submitted 1 (online "bob") ++ [Ev.cash 0 0]

theorem a_late_cash_update_takes_a_second_seat :
    ¬ ∀ s, (machine oneSeat).Reach s → s.rows.count (seatHolding s.now) ≤ 1 := by
  intro h
  have hr : ((machine oneSeat).run empty lateCashRun).map (fun s => s.rows.count (seatHolding s.now)) = some 2 := by
    decide
  obtain ⟨s, hs, hc⟩ := map_eq_some_iff.mp hr
  have hle := h s (Machine.reach_of_run _ ⟨rfl, rfl, rfl⟩ hs)
  omega

/-- Alice's payment is recorded by a transaction that began before her hold ended and had
    the lock after Bob, who counted once it had. -/
def waitedRun : List Ev :=
  submitted 0 (online "alice") ++ [Ev.issue 0 (some ("1", "u1")) (some ⟨true, true⟩), .writeIds 0, .tick 1799,
    .markPaid 1 0 (some "u1") true, .tick 1] ++ submitted 2 (online "bob") ++ [Ev.commitPaid 1]

theorem a_payment_that_waited_takes_a_second_seat :
    ∃ s, (machine oneSeat).Reach s ∧ s.rows.count (seatHolding s.now) = 2 := by
  have hr : ((machine oneSeat).run empty waitedRun).map (fun s => s.rows.count (seatHolding s.now)) = some 2 := by
    decide
  obtain ⟨s, hs, hc⟩ := map_eq_some_iff.mp hr
  exact ⟨s, Machine.reach_of_run _ ⟨rfl, rfl, rfl⟩ hs, hc⟩

end Canari.Forms.Capacity
