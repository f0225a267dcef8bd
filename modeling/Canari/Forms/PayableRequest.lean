/-
  Canari.Forms.PayableRequest — no answer ever has two requests that can still be paid.

  A row that names a request names the only one that may still be open for it (`Sole`);
  a row with a request being issued names none, and has one issuer. A retry that reaches
  its transaction has seen the request its row named settled at the provider (`Settled`),
  and the transaction goes on only if the row still names that one: so nothing is payable
  for a row a request is about to be issued for (`Unpayable`).

  `step_shape` says once what each step does to the rows, the requests and the calls;
  `pay` is the invariant every run keeps.
-/

import Canari.Forms.Capacity

namespace Canari.Forms.PayableRequest

open Lib Option
open Forms.SeatHold
open Forms.Submissions
open Forms.Capacity

/-! ## Requests and the rows that name them -/

/-- The ids, as far as they are known, are those of the request. -/
def Fits (requestId uuid : Option String) (q : Request) : Prop :=
  (∀ x, requestId = some x → q.requestId = x) ∧ ∀ x, uuid = some x → q.requestUuid = x

/-- A request of the submission has these ids, and none of its others is payable. -/
def Sole (t : Table Request) (id : Nat) (requestId uuid : Option String) : Prop :=
  ∃ a q, t.rows a = some q ∧ q.submissionId = id ∧ Fits requestId uuid q ∧
    ∀ b r, t.rows b = some r → r.submissionId = id → r.state = .open → b = a

def Known (t : Table Request) (row : Submission) : Prop :=
  namesNoRequest row = false ∧ ∃ a q, t.rows a = some q ∧ Fits row.paymentRequestId row.stripeSessionId q

/-- The request the row names can no longer be paid. -/
def Settled (t : Table Request) (row : Submission) : Prop :=
  namesNoRequest row = false ∧ ∃ a q, t.rows a = some q ∧ Fits row.paymentRequestId row.stripeSessionId q ∧
    q.state ≠ .open

def Unpayable (t : Table Request) (id : Nat) : Prop := ∀ b r, t.rows b = some r → r.submissionId = id → r.state ≠ .open

def Distinct (t : Table Request) : Prop :=
  ∀ a b q r, t.rows a = some q → t.rows b = some r → q.requestId = r.requestId ∨ q.requestUuid = r.requestUuid → a = b

/-- Requests moved on: none was created, and none became payable. -/
structure Moved (t u : Table Request) : Prop where
  next : u.next = t.next
  back : ∀ a r, u.rows a = some r → ∃ q, t.rows a = some q ∧ r.submissionId = q.submissionId ∧
    r.requestId = q.requestId ∧
    r.requestUuid = q.requestUuid ∧ (r.state = .open → q.state = .open)
  forth : ∀ a q, t.rows a = some q → ∃ r, u.rows a = some r ∧ r.submissionId = q.submissionId ∧
    r.requestId = q.requestId ∧
    r.requestUuid = q.requestUuid ∧ (r.state = .open → q.state = .open)

theorem moved_refl (t : Table Request) : Moved t t :=
  ⟨rfl, fun _ q hq => ⟨q, hq, rfl, rfl, rfl, fun h => h⟩, fun _ q hq => ⟨q, hq, rfl, rfl, rfl, fun h => h⟩⟩

variable {t : Table Request} {a : Nat} {q : Request}

theorem moved_set (hq : t.rows a = some q) (ho : q.state = .open) (state : RequestState) :
    Moved t (t.set a { q with state := state }) := by
  refine ⟨rfl, fun b r hr => ?_, fun b r hr => ?_⟩
  · rcases update_eq_some_iff.mp hr with ⟨rfl, rfl⟩ | ⟨_, hr⟩
    · exact ⟨q, hq, rfl, rfl, rfl, fun _ => ho⟩
    · exact ⟨r, hr, rfl, rfl, rfl, fun h => h⟩
  · by_cases e : b = a
    · subst e
      rw [hq] at hr
      cases hr
      exact ⟨_, update_eq_some_iff.mpr (Or.inl ⟨rfl, rfl⟩), rfl, rfl, rfl, fun _ => ho⟩
    · exact ⟨r, update_eq_some_iff.mpr (Or.inr ⟨e, hr⟩), rfl, rfl, rfl, fun h => h⟩

variable {requestId uuid : Option String}

theorem fits_moved {r : Request} (h : Fits requestId uuid q) (hi : r.requestId = q.requestId)
    (hu : r.requestUuid = q.requestUuid) : Fits requestId uuid r := by
  unfold Fits at h ⊢
  rw [hi, hu]
  exact h

variable {u : Table Request} {id : Nat}

theorem Sole.moved (hm : Moved t u) (h : Sole t id requestId uuid) :
    Sole u id requestId uuid := by
  obtain ⟨a, q, hq, hid, hf, ho⟩ := h
  obtain ⟨r, hr, h1, h2, h3, _⟩ := hm.forth a q hq
  refine ⟨a, r, hr, h1.trans hid, fits_moved hf h2 h3, fun b x hx hxid hxo => ?_⟩
  obtain ⟨y, hy, h1, _, _, hop⟩ := hm.back b x hx
  exact ho b y hy (h1 ▸ hxid) (hop hxo)

variable {row : Submission}

theorem Known.moved (hm : Moved t u) (h : Known t row) : Known u row := by
  obtain ⟨hn, a, q, hq, hf⟩ := h
  obtain ⟨r, hr, _, h2, h3, _⟩ := hm.forth a q hq
  exact ⟨hn, a, r, hr, fits_moved hf h2 h3⟩

theorem Settled.moved (hm : Moved t u) (h : Settled t row) : Settled u row := by
  obtain ⟨hn, a, q, hq, hf, hc⟩ := h
  obtain ⟨r, hr, _, h2, h3, hop⟩ := hm.forth a q hq
  exact ⟨hn, a, r, hr, fits_moved hf h2 h3, fun ho => hc (hop ho)⟩

theorem Unpayable.moved (hm : Moved t u) (h : Unpayable t id) : Unpayable u id := by
  intro b r hr hid ho
  obtain ⟨q, hq, h1, _, _, hop⟩ := hm.back b r hr
  exact h b q hq (h1 ▸ hid) (hop ho)

theorem Distinct.moved (hm : Moved t u) (h : Distinct t) : Distinct u := by
  intro a b q r hq hr hor
  obtain ⟨x, hx, _, hx2, hx3, _⟩ := hm.back a q hq
  obtain ⟨y, hy, _, hy2, hy3, _⟩ := hm.back b r hr
  refine h a b x y hx hy ?_
  rw [← hx2, ← hx3, ← hy2, ← hy3]
  exact hor

theorem Sole.insert (hw : t.Wf) (h : Sole t id requestId uuid)
    (hq : q.submissionId ≠ id) : Sole (t.insert q) id requestId uuid := by
  obtain ⟨a, r, hr, hid, hf, ho⟩ := h
  have ha : a ≠ t.next := Nat.ne_of_lt (hw a r hr)
  refine ⟨a, r, update_eq_some_iff.mpr (Or.inr ⟨ha, hr⟩), hid, hf, fun b x hx hxid hxo => ?_⟩
  rcases update_eq_some_iff.mp hx with ⟨_, rfl⟩ | ⟨_, hx⟩
  · exact absurd hxid hq
  · exact ho b x hx hxid hxo

theorem Known.insert (hw : t.Wf) (h : Known t row) (q : Request) : Known (t.insert q) row := by
  obtain ⟨hn, a, r, hr, hf⟩ := h
  exact ⟨hn, a, r, update_eq_some_iff.mpr (Or.inr ⟨Nat.ne_of_lt (hw a r hr), hr⟩), hf⟩

theorem Settled.insert (hw : t.Wf) (h : Settled t row) (q : Request) : Settled (t.insert q) row := by
  obtain ⟨hn, a, r, hr, hf, hc⟩ := h
  exact ⟨hn, a, r, update_eq_some_iff.mpr (Or.inr ⟨Nat.ne_of_lt (hw a r hr), hr⟩), hf, hc⟩

theorem Unpayable.insert (h : Unpayable t id) (hq : q.submissionId ≠ id) :
    Unpayable (t.insert q) id := by
  intro b r hr hid
  rcases update_eq_some_iff.mp hr with ⟨_, rfl⟩ | ⟨_, hr⟩
  · exact absurd hid hq
  · exact h b r hr hid

theorem fits_same (h : Distinct t) (hn : namesNoRequest row = false) {b : Nat} {r : Request}
    (hq : t.rows a = some q) (hr : t.rows b = some r) (hfq : Fits row.paymentRequestId row.stripeSessionId q)
    (hfr : Fits row.paymentRequestId row.stripeSessionId r) : a = b := by
  refine h a b q r hq hr ?_
  cases hi : row.paymentRequestId with
  | some x => exact Or.inl ((hfq.1 x hi).trans (hfr.1 x hi).symm)
  | none =>
    cases hu : row.stripeSessionId with
    | some x => exact Or.inr ((hfq.2 x hu).trans (hfr.2 x hu).symm)
    | none => simp [namesNoRequest, hi, hu] at hn

/-- A row whose request is settled, and that names the only one that could be open, has none. -/
theorem Sole.unpayable (h : Distinct t) {p : Submission}
    (hs : Sole t id row.paymentRequestId row.stripeSessionId) (hp : Settled t p)
    (hsame : sameRequest row p = true) : Unpayable t id := by
  obtain ⟨a, q, hq, _, hf, ho⟩ := hs
  obtain ⟨hn, b, r, hr, hfr, hc⟩ := hp
  simp only [sameRequest, Bool.and_eq_true, beq_iff_eq] at hsame
  rw [hsame.1, hsame.2] at hf
  have hab : a = b := fits_same h hn hq hr hf hfr
  intro c x hx hxid hxo
  have hcb : c = b := (ho c x hx hxid hxo).trans hab
  subst hcb
  rw [hr] at hx
  cases hx
  exact hc hxo

/-! ## The provider's answers -/

variable {s : St}

theorem requestBy_some {p : Request → Bool} (h : requestBy s p = some (a, q)) :
    s.requests.rows a = some q ∧ p q = true := by
  have hm := List.mem_of_find?_eq_some h
  have hp := List.find?_some h
  obtain ⟨b, _, hb⟩ := List.mem_filterMap.mp hm
  obtain ⟨r, hr, he⟩ := map_eq_some_iff.mp hb
  cases he
  exact ⟨hr, hp⟩

theorem requestBy_none (hw : s.requests.Wf) {p : Request → Bool} (h : requestBy s p = none)
    (hq : s.requests.rows a = some q) : p q = false := by
  have hall := List.find?_eq_none.mp h (a, q) (List.mem_filterMap.mpr ⟨a, List.mem_range.mpr (hw a q hq), by
    rw [hq]; rfl⟩)
  simpa using hall

theorem distinct_insert (hw : s.requests.Wf) (h : Distinct s.requests)
    (hf : freshIds s q.requestId q.requestUuid = true) : Distinct (s.requests.insert q) := by
  have hnew : ∀ b r, s.requests.rows b = some r → ¬(r.requestId = q.requestId ∨ r.requestUuid = q.requestUuid) := by
    intro b r hr
    have := requestBy_none hw (isNone_iff_eq_none.mp hf) hr
    simpa using this
  intro a b x y hx hy hor
  rcases update_eq_some_iff.mp hx with ⟨ha, rfl⟩ | ⟨_, hx⟩ <;> rcases update_eq_some_iff.mp hy with ⟨hb, rfl⟩ | ⟨_, hy⟩
  · exact ha.trans hb.symm
  · exact absurd (hor.imp Eq.symm Eq.symm) (hnew b y hy)
  · exact absurd hor (hnew a x hx)
  · exact h a b x y hx hy hor

theorem cancelAtProvider_some {t : St} {cancelled : Bool} (h : cancelAtProvider s row = some (t, cancelled)) :
    t = { s with requests := t.requests } ∧ Moved s.requests t.requests ∧
    (cancelled = true → Distinct s.requests → Known s.requests row → Settled t.requests row) := by
  unfold cancelAtProvider at h
  split at h
  · rename_i requestId hid
    split at h
    · rename_i a q hq
      obtain ⟨hq, hp⟩ := requestBy_some hq
      simp only [beq_iff_eq] at hp
      split at h
      · rename_i ho
        simp only [beq_iff_eq] at ho
        cases h
        refine ⟨rfl, moved_set hq ho .closed, fun _ hd hk => ?_⟩
        obtain ⟨hn, b, r, hr, hf⟩ := hk
        have hba : b = a := hd b a r q hr hq (Or.inl ((hf.1 _ hid).trans hp.symm))
        subst hba
        rw [hq] at hr
        cases hr
        exact ⟨hn, b, _, update_eq_some_iff.mpr (Or.inl ⟨rfl, rfl⟩), hf, fun hc => by cases hc⟩
      · cases h
        exact ⟨rfl, moved_refl _, fun hc => by cases hc⟩
    · cases h
  · cases h

theorem stateOf_settled {state : RequestState} (h : stateOf s row = some state) (hs : state ≠ .open)
    (hd : Distinct s.requests) (hk : Known s.requests row) : Settled s.requests row := by
  obtain ⟨uuid, hu, h⟩ := bind_eq_some_iff.mp h
  obtain ⟨⟨a, q⟩, hq, hst⟩ := map_eq_some_iff.mp h
  obtain ⟨hq, hp⟩ := requestBy_some hq
  simp only [beq_iff_eq] at hp
  obtain ⟨hn, b, r, hr, hf⟩ := hk
  have hba : b = a := hd b a r q hr hq (Or.inr ((hf.2 _ hu).trans hp.symm))
  subst hba
  rw [hq] at hr
  cases hr
  exact ⟨hn, b, q, hq, hf, by rw [show q.state = state from hst]; exact hs⟩

/-! ## The invariant -/

def issuing : Proc → Option Nat
  | .submit _ (.saved id) | .submit _ (.issued id _ _) | .submit _ (.releasing id) => some id
  | _ => none

/-- The row a retry reuses is one of the same person. -/
def Reused (F : Form) (rows : Table Submission) (call : SubmitCall) (p : Nat × Submission) : Prop :=
  reuses F call = true ∧ p.1 < rows.next ∧ ∀ row, rows.rows p.1 = some row → row.userId = call.userId

def ProcOk (F : Form) (s : St) : Proc → Prop
  | .submit call (.found previous) => ∀ p, previous = some p →
      Reused F s.rows call p ∧ (namesNoRequest p.2 = false → Known s.requests p.2)
  | .submit call (.settling p _) => Reused F s.rows call p ∧ Known s.requests p.2
  | .submit call (.ready previous) => ∀ p, previous = some p → Reused F s.rows call p ∧ Settled s.requests p.2
  | .submit call (.begun previous start) => start ≤ s.now ∧
      ∀ p, previous = some p → Reused F s.rows call p ∧ Settled s.requests p.2
  | .submit _ (.saved id) => Unpayable s.requests id
  | .submit _ (.issued id requestId uuid) => Sole s.requests id requestId uuid
  | .cancelling p _ => Known s.requests p.2
  | .marking _ _ _ start => start ≤ s.now
  | _ => True

structure Pay (F : Form) (s : St) : Prop where
  rowsWf : s.rows.Wf
  requestsWf : s.requests.Wf
  distinct : Distinct s.requests
  owner : ∀ a q, s.requests.rows a = some q → q.submissionId < s.rows.next
  payable : ∀ a b q r, s.requests.rows a = some q → s.requests.rows b = some r → q.submissionId = r.submissionId →
    q.state = .open → r.state = .open → a = b
  named : ∀ id row, s.rows.rows id = some row → namesNoRequest row = false →
    Sole s.requests id row.paymentRequestId row.stripeSessionId
  procs : ∀ i p, s.procs i = some p → ProcOk F s p
  issuer : ∀ i p id, s.procs i = some p → issuing p = some id → id < s.rows.next ∧
    (∀ row, s.rows.rows id = some row → namesNoRequest row = true) ∧
    ∀ j p', s.procs j = some p' → issuing p' = some id → j = i

/-! ## What a step does -/

/-- The rows stay those of the same people, naming the same requests. -/
structure RowsKept (t u : Table Submission) : Prop where
  next : u.next = t.next
  row : ∀ id y, u.rows id = some y → ∃ x, t.rows id = some x ∧ y.userId = x.userId ∧
    y.paymentRequestId = x.paymentRequestId ∧ y.stripeSessionId = x.stripeSessionId

def SeatsKept (s s' : St) : Prop := ∀ id y, s'.rows.rows id = some y → seatHolding s'.now y = true →
  ∃ x, s.rows.rows id = some x ∧ y.userId = x.userId ∧ seatHolding s.now x = true

/-- No request is created and no row names another one; a call that moved on issues for the row it issued for. -/
structure Kept (F : Form) (s s' : St) : Prop where
  now : s.now ≤ s'.now
  rows : RowsKept s.rows s'.rows
  requests : Moved s.requests s'.requests
  procs : ∀ j p, s'.procs j = some p → s.procs j = some p ∨
    (ProcOk F s' p ∧ ∀ id, issuing p = some id → ∃ p', s.procs j = some p' ∧ issuing p' = some id)

inductive Shape (F : Form) (s : St) : Ev → St → Prop
  | quiet {e : Ev} {s' : St} : Kept F s s' → SeatsKept s s' → Shape F s e s'
  | cash {i id : Nat} {call : SubmitCall} {row : Submission} {serviceNow : Int} {s' : St} :
      s.procs i = some (.submit call (.saved id)) → s.rows.rows id = some row → Kept F s s' → s'.now = s.now →
      s'.rows = s.rows.set id (cashUpdate F row serviceNow) → Shape F s (.cash i serviceNow) s'
  | paid {i id : Nat} {sessionId : Option String} {onlyIf : Bool} {start : Int} {row : Submission} {s' : St} :
      s.procs i = some (.marking id sessionId onlyIf start) → s.rows.rows id = some row → Kept F s s' → s'.now = s.now →
      s'.rows = s.rows.set id (markPaidTx F s.rows start id sessionId onlyIf row) → Shape F s (.commitPaid i) s'
  | committed {i : Nat} {call : SubmitCall} {previous : Option (Nat × Submission)} {start : Int} {out : Committed} :
      s.procs i = some (.submit call (.begun previous start)) →
        submitTx F s.rows s.respondents start call previous = some out →
      Shape F s (.commitSubmit i)
        { setProc s i (if call.totalCents > 0 then some (.submit call (.saved out.saved)) else none) with
        rows := out.rows, respondents := out.respondents }
  | created {i id : Nat} {call : SubmitCall} {requestId uuid : String} {created : Option (String × String)}
      {reply : Option Reply}
      {next : Option Proc} :
      s.procs i = some (.submit call (.saved id)) → freshIds s requestId uuid = true →
      (∀ p, next = some p → issuing p = some id ∧ ∀ t : St, Sole t.requests id (some requestId) (some uuid) → ProcOk F t p) →
      Shape F s (.issue i created reply)
        (setProc { s with requests := s.requests.insert ⟨id, requestId, uuid, .open⟩ } i next)
  | wrote {i id : Nat} {call : SubmitCall} {requestId uuid : Option String} {row : Submission} :
      s.procs i = some (.submit call (.issued id requestId uuid)) → s.rows.rows id = some row →
      Shape F s (.writeIds i) (setProc
        (setRow s id { row with paymentRequestId := requestId, stripeSessionId := uuid }) i none)

/-! ## Frames -/

variable {F : Form} {s' : St}

theorem procOk_of {p : Proc} (h : ProcOk F s p) (hn : s.now ≤ s'.now)
    (hr : ∀ call q, Reused F s.rows call q → Reused F s'.rows call q)
    (hk : ∀ row, Known s.requests row → Known s'.requests row)
    (hs : ∀ row, Settled s.requests row → Settled s'.requests row)
    (hi : ∀ id, issuing p = some id → (Unpayable s.requests id → Unpayable s'.requests id) ∧
      ∀ requestId uuid, Sole s.requests id requestId uuid → Sole s'.requests id requestId uuid) : ProcOk F s' p := by
  cases p with
  | submit call phase =>
    cases phase with
    | called => trivial
    | found previous => exact fun p hp => ⟨hr _ _ (h p hp).1, fun hne => hk _ ((h p hp).2 hne)⟩
    | settling p reading => exact ⟨hr _ _ h.1, hk _ h.2⟩
    | ready previous => exact fun p hp => ⟨hr _ _ (h p hp).1, hs _ (h p hp).2⟩
    | begun previous start => exact ⟨Int.le_trans h.1 hn, fun p hp => ⟨hr _ _ (h.2 p hp).1, hs _ (h.2 p hp).2⟩⟩
    | saved id => exact (hi id rfl).1 h
    | issued id requestId uuid => exact (hi id rfl).2 _ _ h
    | releasing id => trivial
  | cancelling row reading => exact hk _ h
  | cancelReady row => trivial
  | marking id sessionId onlyIf start => exact Int.le_trans h hn
  | fulfilling id => trivial

theorem rowsKept_refl (t : Table Submission) : RowsKept t t := ⟨rfl, fun _ y hy => ⟨y, hy, rfl, rfl, rfl⟩⟩

theorem RowsKept.trans {t u v : Table Submission} (h : RowsKept t u) (h' : RowsKept u v) : RowsKept t v := by
  refine ⟨h'.next.trans h.next, fun id z hz => ?_⟩
  obtain ⟨y, hy, h1, h2, h3⟩ := h'.row id z hz
  obtain ⟨x, hx, g1, g2, g3⟩ := h.row id y hy
  exact ⟨x, hx, h1.trans g1, h2.trans g2, h3.trans g3⟩

theorem rowsKept_set {t : Table Submission} {x y : Submission} (hx : t.rows id = some x) (hu : y.userId = x.userId)
    (hi : y.paymentRequestId = x.paymentRequestId)
    (hs : y.stripeSessionId = x.stripeSessionId) : RowsKept t (t.set id y) := by
  refine ⟨rfl, fun j z hz => ?_⟩
  rcases update_eq_some_iff.mp hz with ⟨rfl, rfl⟩ | ⟨_, hz⟩
  · exact ⟨x, hx, hu, hi, hs⟩
  · exact ⟨z, hz, rfl, rfl, rfl⟩

theorem rowsKept_updateAll {t : Table Submission} {f : Submission → Submission} (hf : ∀ x, (f x).userId = x.userId ∧
    (f x).paymentRequestId = x.paymentRequestId ∧ (f x).stripeSessionId = x.stripeSessionId) : RowsKept t
      (t.updateAll f) := by
  refine ⟨rfl, fun j z hz => ?_⟩
  obtain ⟨x, hx, rfl⟩ := map_eq_some_iff.mp hz
  exact ⟨x, hx, hf x⟩

theorem rowsKept_delete (t : Table Submission) (id : Nat) : RowsKept t (t.delete id) :=
  ⟨rfl, fun _ z hz => ⟨z, (update_none_eq_some_iff.mp hz).2, rfl, rfl, rfl⟩⟩

theorem moveLocked_cases (s : St) (id : Nat) (source target : PaymentStatus) (named : Submission → Bool) :
    moveLocked s id source target named = s ∨ ∃ row, s.rows.rows id = some row ∧ row.paymentStatus = source ∧
      moveLocked s id source target named = setRow s id { row with paymentStatus := target } := by
  unfold moveLocked
  split
  · rename_i row hrow
    split
    · rename_i hc
      simp only [Bool.and_eq_true, beq_iff_eq] at hc
      exact Or.inr ⟨row, hrow, hc.1, rfl⟩
    · exact Or.inl rfl
  · exact Or.inl rfl

theorem rowsKept_moveLocked (s : St) (id : Nat) (source target : PaymentStatus) (named : Submission → Bool) :
    RowsKept s.rows (moveLocked s id source target named).rows := by
  rcases moveLocked_cases s id source target named with h | ⟨row, hrow, _, h⟩
  · rw [h]; exact rowsKept_refl _
  · rw [h]; exact rowsKept_set hrow rfl rfl rfl

theorem moveLocked_requests (s : St) (id : Nat) (source target : PaymentStatus) (named : Submission → Bool) :
    (moveLocked s id source target named).requests = s.requests := by
  rcases moveLocked_cases s id source target named with h | ⟨row, _, _, h⟩
  · rw [h]
  · rw [h]; rfl

theorem seatsKept_set {x y : Submission} (hx : s.rows.rows id = some x) (hu : y.userId = x.userId)
    (hs : seatHolding s.now y = true → seatHolding s.now x = true) : SeatsKept s (setRow s id y) := by
  intro j z hz hh
  rcases update_eq_some_iff.mp hz with ⟨rfl, rfl⟩ | ⟨_, hz⟩
  · exact ⟨x, hx, hu, hs hh⟩
  · exact ⟨z, hz, rfl, hh⟩

theorem SeatsKept.trans {s'' : St} (h : SeatsKept s s') (h' : SeatsKept s' s'') : SeatsKept s s'' := by
  intro id z hz hh
  obtain ⟨y, hy, h1, h2⟩ := h' id z hz hh
  obtain ⟨x, hx, g1, g2⟩ := h id y hy h2
  exact ⟨x, hx, h1.trans g1, g2⟩

theorem seatsKept_same (hr : s'.rows = s.rows) (hn : s'.now = s.now) : SeatsKept s s' := by
  intro id y hy hh
  rw [hr] at hy
  rw [hn] at hh
  exact ⟨y, hy, rfl, hh⟩

theorem seatsKept_updateAll {f : Submission → Submission} (hf : ∀ x, (f x).userId = x.userId ∧
    (seatHolding s.now (f x) = true → seatHolding s.now x = true)) : SeatsKept s { s with rows := s.rows.updateAll f } := by
  intro id y hy hh
  obtain ⟨x, hx, rfl⟩ := map_eq_some_iff.mp hy
  exact ⟨x, hx, (hf x).1, (hf x).2 hh⟩

theorem seatsKept_moveLocked (id : Nat) {source target : PaymentStatus} (named : Submission → Bool)
    (hk : ∀ row : Submission, row.paymentStatus = source →
    seatHolding s.now { row with paymentStatus := target } = true →
      seatHolding s.now row = true) : SeatsKept s (moveLocked s id source target named) := by
  rcases moveLocked_cases s id source target named with h | ⟨row, hrow, hsrc, h⟩
  · rw [h]; exact seatsKept_same rfl rfl
  · rw [h]; exact seatsKept_set hrow rfl (hk row hsrc)

theorem seatsKept_release (id : Nat) (source : PaymentStatus) {target : PaymentStatus} (named : Submission → Bool)
    (ht : target = .cancelled ∨ target = .refunded ∨ target = .expired) :
    SeatsKept s (moveLocked s id source target named) := by
  refine seatsKept_moveLocked id named fun row _ hr => ?_
  rw [released ht] at hr
  cases hr

theorem reused_kept {t u : Table Submission} (h : RowsKept t u) (call : SubmitCall) (p : Nat × Submission)
    (hp : Reused F t call p) : Reused F u call p := by
  refine ⟨hp.1, h.next ▸ hp.2.1, fun y hy => ?_⟩
  obtain ⟨x, hx, hu, _⟩ := h.row _ y hy
  exact hu.trans (hp.2.2 x hx)

theorem procOk_kept (hn : s.now ≤ s'.now) (hr : RowsKept s.rows s'.rows) (hq : Moved s.requests s'.requests)
    {p : Proc} (h : ProcOk F s p) : ProcOk F s' p :=
  procOk_of h hn (reused_kept hr) (fun _ hk => hk.moved hq) (fun _ hs => hs.moved hq)
    fun _ _ => ⟨fun hu => hu.moved hq, fun _ _ hs => hs.moved hq⟩

variable {i : Nat}

theorem kept_of {v : Option Proc} (hn : s.now ≤ s'.now) (hr : RowsKept s.rows s'.rows)
    (hq : Moved s.requests s'.requests) (hp : s'.procs = Function.update s.procs i v)
    (hv : ∀ p, v = some p → ProcOk F s' p ∧ ∀ id, issuing p = some id → ∃ p', s.procs i = some p' ∧
    issuing p' = some id) :
    Kept F s s' := by
  refine ⟨hn, hr, hq, fun j p hj => ?_⟩
  rw [hp] at hj
  by_cases e : j = i
  · subst e
    rw [Function.update_self] at hj
    exact Or.inr (hv p hj)
  · rw [Function.update_of_ne e] at hj
    exact Or.inl hj

theorem kept_proc {v : Option Proc}
    (hv : ∀ p, v = some p → ProcOk F s p ∧ ∀ id, issuing p = some id → ∃ p', s.procs i = some p' ∧
    issuing p' = some id) :
    Kept F s (setProc s i v) :=
  kept_of (Int.le_refl _) (rowsKept_refl _) (moved_refl _) rfl fun p hp =>
    ⟨procOk_kept (Int.le_refl _) (rowsKept_refl _) (moved_refl _) (hv p hp).1, (hv p hp).2⟩

theorem kept_rows (hn : s.now ≤ s'.now) (hr : RowsKept s.rows s'.rows) (hq : Moved s.requests s'.requests)
    (hp : s'.procs = s.procs) : Kept F s s' :=
  ⟨hn, hr, hq, fun _ _ hj => Or.inl (hp ▸ hj)⟩

/-! ## Every step has a shape -/

variable {e : Ev}

theorem shape_proc (i : Nat) (v : Option Proc)
    (hv : ∀ p, v = some p → ProcOk F s p ∧ issuing p = none) : Shape F s e (setProc s i v) := by
  refine .quiet (kept_proc fun p hp => ?_) (seatsKept_same rfl rfl)
  refine ⟨(hv p hp).1, fun id hid => ?_⟩
  rw [(hv p hp).2] at hid
  cases hid

theorem shape_next (i : Nat) {next : Proc} (hok : ProcOk F s next) (hin : issuing next = none) :
    Shape F s e (setProc s i (some next)) :=
  shape_proc i _ fun p hp => by
    cases hp
    exact ⟨hok, hin⟩

theorem shape_ended (i : Nat) : Shape F s e (setProc s i none) :=
  shape_proc i none fun p hp => by cases hp

theorem shape_end (i : Nat) (hn : s'.now = s.now) (hr : RowsKept s.rows s'.rows)
    (hq : s'.requests = s.requests) (hp : s'.procs = s.procs)
    (hs : SeatsKept s s') : Shape F s e (setProc s' i none) := by
  refine .quiet (kept_of (Int.le_of_eq hn.symm) hr ?_ (v := none) (i := i) (by rw [← hp]; rfl) fun p h => by cases h) ?_
  · show Moved s.requests s'.requests
    rw [hq]
    exact moved_refl _
  · exact hs.trans (seatsKept_same rfl rfl)

theorem shape_moveLocked (i id : Nat) {source target : PaymentStatus} (named : Submission → Bool)
    (ht : target = .cancelled ∨ target = .refunded ∨ target = .expired) :
    Shape F s e (setProc (moveLocked s id source target named) i none) :=
  shape_end i (moveLocked_now s id source target named).1 (rowsKept_moveLocked s id source target named)
    (moveLocked_requests s id source target named) (moveLocked_now s id source target named).2
      (seatsKept_release id source named ht)

theorem kept_moveLocked (s : St) (id : Nat) (source target : PaymentStatus) (named : Submission → Bool) :
    Kept F s (moveLocked s id source target named) := by
  refine kept_rows (Int.le_of_eq (moveLocked_now s id source target named).1.symm)
    (rowsKept_moveLocked s id source target named) ?_
    (moveLocked_now s id source target named).2
  rw [moveLocked_requests]
  exact moved_refl _

theorem shape_settle {row : Nat × Submission} {read : Bool} {next reading : Proc} (h : Pay F s)
    (hs : settleStep s i row read next reading e = some s') (hk : Known s.requests row.2)
    (hreading : ProcOk F s reading ∧ issuing reading = none) (hin : issuing next = none)
    (hnext : ∀ t : St, t.rows = s.rows → Settled t.requests row.2 → ProcOk F t next) : Shape F s e s' := by
  cases e with
  | cancelRequest j =>
    simp only [settleStep] at hs
    split at hs
    · cases hs
    split at hs
    · cases hs; exact shape_next i hreading.1 hreading.2
    · obtain ⟨⟨t, cancelled⟩, ht, rfl⟩ := map_eq_some_iff.mp hs
      obtain ⟨he, hm, hset⟩ := cancelAtProvider_some ht
      have hn : t.now = s.now := by rw [he]
      have hrows : t.rows = s.rows := by rw [he]
      refine .quiet (kept_of (i := i) (v :=
        some (if cancelled then next else reading)) (Int.le_of_eq hn.symm) ?_ hm ?_ fun p hp => ?_)
        (seatsKept_same hrows hn)
      · show RowsKept s.rows t.rows
        rw [hrows]
        exact rowsKept_refl _
      · show Function.update t.procs i _ = _
        rw [he]
      · cases hp
        cases hc : cancelled with
        | true =>
          exact ⟨hnext _ hrows (hset hc h.distinct hk), fun id hid => by simp [hin] at hid⟩
        | false =>
          refine ⟨procOk_kept (Int.le_of_eq hn.symm) ?_ hm hreading.1, fun id hid => by simp [hreading.2] at hid⟩
          rw [hrows]
          exact rowsKept_refl _
  | readState j k =>
    simp only [settleStep] at hs
    split at hs
    · cases hs
    split at hs
    · rename_i hst
      cases hs
      exact shape_next i (hnext s rfl (stateOf_settled hst (by decide) h.distinct hk)) hin
    · rename_i hst
      cases hs
      exact shape_next i (hnext s rfl (stateOf_settled hst (by decide) h.distinct hk)) hin
    · split at hs
      · cases hs
        refine .quiet ⟨Int.le_refl _, rowsKept_refl _, moved_refl _, fun j p hj => ?_⟩ (seatsKept_same rfl rfl)
        rcases update_cases (P := fun p => ProcOk F s p ∧ issuing p = none)
          (fun p hp => by cases hp; exact ⟨Int.le_refl s.now, rfl⟩) j p hj with hj | hp
        · exact Or.inl (update_none_eq_some_iff.mp hj).2
        · exact Or.inr ⟨procOk_kept (Int.le_refl _) (rowsKept_refl _) (moved_refl _) hp.1, fun id hid => by
            simp [hp.2] at hid⟩
      · cases hs
    · cases hs
  | _ => cases hs

theorem shape_findPrevious (h : Pay F s) (hs : stepSubmit F s (.findPrevious i) = some s') :
    Shape F s (.findPrevious i) s' := by
  simp only [stepSubmit] at hs
  split at hs
  · cases hs
    refine shape_proc i _ fun p hp => ?_
    cases hp
    refine ⟨fun p hp => ?_, rfl⟩
    split at hp
    · rename_i hre
      obtain ⟨hrow, _, huser⟩ := liveRow_spec hp
      refine ⟨⟨hre, h.rowsWf _ _ hrow, fun row hr => ?_⟩, fun hne => ?_⟩
      · rw [hrow] at hr
        cases hr
        exact huser
      · obtain ⟨a, q, hq, _, hf, _⟩ := h.named _ _ hrow hne
        exact ⟨hne, a, q, hq, hf⟩
    · cases hp
  · cases hs

theorem shape_issue {created : Option (String × String)} {reply : Option Reply}
    (hs : stepSubmit F s (.issue i created reply) = some s') :
    Shape F s (.issue i created reply) s' := by
  simp only [stepSubmit] at hs
  split at hs
  · rename_i call id hi
    split at hs
    · cases hs
    split at hs
    · split at hs
      · rename_i hf
        split at hs
        · cases hs
          refine .created hi hf fun p hp => ?_
          cases hp
          refine ⟨rfl, fun t ht => ?_⟩
          obtain ⟨a, q, hq, hid, hfit, ho⟩ := ht
          refine ⟨a, q, hq, hid, ⟨fun x hx => hfit.1 x ?_, fun x hx => hfit.2 x ?_⟩, ho⟩
          · split at hx
            · exact hx
            · cases hx
          · split at hx
            · exact hx
            · cases hx
        · cases hs; exact .created hi hf fun p hp => by cases hp
      · cases hs
    · split at hs
      · rename_i hf
        cases hs
        exact .created hi hf fun p hp => by cases hp; exact ⟨rfl, fun _ _ => trivial⟩
      · cases hs
    · cases hs
      refine .quiet (kept_proc fun p hp => ?_) (seatsKept_same rfl rfl)
      cases hp
      exact ⟨trivial, fun id' hid => ⟨_, hi, hid⟩⟩
    · cases hs
  · cases hs

theorem shape_stepSubmit (h : Pay F s) (hs : stepSubmit F s e = some s') : Shape F s e s' := by
  cases e with
  | submit i call =>
    simp only [stepSubmit] at hs
    split at hs
    · cases hs; exact shape_next i trivial rfl
    · cases hs
  | findPrevious i => exact shape_findPrevious h hs
  | checkAnswer i =>
    simp only [stepSubmit] at hs
    split at hs
    · rename_i call previous hi
      have hp := h.procs i _ hi
      split at hs
      · cases hs
      split at hs
      · cases hs; exact shape_next i (fun p hp => by cases hp) rfl
      · rename_i p _
        split at hs
        · cases hs
        · rename_i hne
          cases hs
          have hne : namesNoRequest p.2 = false := by simpa using hne
          exact shape_next i ⟨(hp p rfl).1, (hp p rfl).2 hne⟩ rfl
    · cases hs
  | beginSubmit i =>
    simp only [stepSubmit] at hs
    split at hs
    · rename_i call previous hi
      have hp := h.procs i _ hi
      cases hs
      exact shape_next i ⟨Int.le_refl _, hp⟩ rfl
    · cases hs
  | commitSubmit i =>
    simp only [stepSubmit] at hs
    split at hs
    · rename_i call previous start hi
      obtain ⟨out, hout, rfl⟩ := map_eq_some_iff.mp hs
      exact .committed hi hout
    · cases hs
  | cash i serviceNow =>
    simp only [stepSubmit] at hs
    split at hs
    · rename_i call id hi
      split at hs
      · split at hs
        · rename_i row hrow
          cases hs
          refine .cash hi hrow ?_ rfl rfl
          exact kept_of (Int.le_refl _) (rowsKept_set hrow rfl rfl rfl) (moved_refl _) rfl fun p hp => by cases hp
        · cases hs; exact shape_ended i
      · cases hs
    · cases hs
  | issue i created reply => exact shape_issue hs
  | writeIds i =>
    simp only [stepSubmit] at hs
    split at hs
    · rename_i call id requestId uuid hi
      split at hs
      · rename_i row hrow
        cases hs
        exact .wrote hi hrow
      · cases hs; exact shape_ended i
    · cases hs
  | release i =>
    simp only [stepSubmit] at hs
    split at hs
    · cases hs; exact shape_moveLocked i _ _ (Or.inl rfl)
    · cases hs
  | _ => cases hs

theorem shape_expire (expires : Submission → Bool) :
    Shape F s e { s with rows := s.rows.updateAll fun row => if expires row then { row with paymentStatus := .expired } else row } := by
  refine .quiet (kept_rows (Int.le_refl _) (rowsKept_updateAll fun x => ?_) (moved_refl _) rfl) (seatsKept_updateAll fun x => ?_)
  · split <;> exact ⟨rfl, rfl, rfl⟩
  · split
    · exact ⟨rfl, fun hr => by cases hr⟩
    · exact ⟨rfl, fun hr => hr⟩

theorem markPaidTx_kept (F : Form) (rows : Table Submission) (start : Int) (id : Nat) (sessionId : Option String)
    (onlyIf : Bool) (row : Submission) :
    (markPaidTx F rows start id sessionId onlyIf row).userId = row.userId ∧
      (markPaidTx F rows start id sessionId onlyIf row).paymentRequestId = row.paymentRequestId ∧
      (markPaidTx F rows start id sessionId onlyIf row).stripeSessionId = row.stripeSessionId := by
  unfold markPaidTx
  split
  · exact ⟨rfl, rfl, rfl⟩
  split <;> exact ⟨rfl, rfl, rfl⟩

theorem shape_settling (h : Pay F s) (he : e = .cancelRequest i ∨ ∃ k, e = .readState i k)
    (hs : step F s e = some s') : Shape F s e s' := by
  rcases settleStep_of_step he hs with ⟨call, p, read, hi, hsettle⟩ | ⟨p, read, hi, hsettle⟩
  · obtain ⟨hre, hk⟩ : Reused F s.rows call p ∧ Known s.requests p.2 := h.procs i _ hi
    refine shape_settle h hsettle hk ⟨⟨hre, hk⟩, rfl⟩ rfl fun t ht hset q hq => ?_
    cases hq
    exact ⟨ht ▸ hre, hset⟩
  · have hk : Known s.requests p.2 := h.procs i _ hi
    exact shape_settle h hsettle hk ⟨hk, rfl⟩ rfl fun t _ _ => trivial

theorem step_shape (h : Pay F s) (hs : step F s e = some s') : Shape F s e s' := by
  cases e with
  | tick d =>
    cases hs
    have hle : s.now ≤ s.now + d := by omega
    exact .quiet (kept_rows hle (rowsKept_refl _) (moved_refl _) rfl) fun id y hy hh =>
      ⟨y, hy, rfl, seatHolding_earlier hle hh⟩
  | cancelRequest i => exact shape_settling h (.inl rfl) hs
  | readState i k => exact shape_settling h (.inr ⟨k, rfl⟩) hs
  | markPaid i id sessionId onlyIf =>
    simp only [step] at hs
    split at hs
    · cases hs; exact shape_next i (Int.le_refl s.now) rfl
    · cases hs
  | commitPaid i =>
    simp only [step] at hs
    split at hs
    · rename_i id sessionId onlyIf start hi
      split at hs
      · rename_i row hrow
        cases hs
        refine .paid hi hrow ?_ rfl rfl
        have hsame := markPaidTx_kept F s.rows start id sessionId onlyIf row
        refine kept_of (Int.le_refl _) (rowsKept_set hrow hsame.1 hsame.2.1 hsame.2.2) (moved_refl _) rfl fun p hp => ?_
        cases hp
        exact ⟨trivial, fun id' hid => by cases hid⟩
      · cases hs; exact shape_ended i
    · cases hs
  | fulfil i cotisation purchase organiser =>
    simp only [step] at hs
    split at hs
    · split at hs
      · rename_i row hrow
        cases hs
        exact shape_end i rfl (rowsKept_set hrow rfl rfl rfl) rfl rfl (seatsKept_set hrow rfl fun hr => hr)
      · cases hs; exact shape_ended i
    · cases hs
  | cancelSubmission i id =>
    simp only [step] at hs
    split at hs
    · rename_i row hi hrow
      split at hs
      · split at hs
        · rename_i hne
          cases hs
          have hne : namesNoRequest row = false := by simpa using hne
          obtain ⟨a, q, hq, _, hf, _⟩ := h.named _ _ hrow hne
          exact shape_next i ⟨hne, a, q, hq, hf⟩ rfl
        split at hs
        · cases hs
        · cases hs; exact shape_next i trivial rfl
      · cases hs; exact shape_next i trivial rfl
    · cases hs
  | applyCancel i =>
    simp only [step] at hs
    split at hs
    · cases hs; exact shape_moveLocked i _ _ (Or.inl rfl)
    · cases hs
  | ended i => cases hs; exact shape_ended i
  | releaseRefused id sessionId =>
    simp only [step] at hs
    split at hs
    · split at hs
      · cases hs; exact .quiet (kept_moveLocked s _ _ _ _) (seatsKept_release _ _ _ (Or.inl rfl))
      · cases hs
    · cases hs
  | expirePending cutoff =>
    simp only [step] at hs
    split at hs
    · cases hs
      exact shape_expire fun row => row.paymentStatus == .pending && row.paymentRequestedAt ≤ cutoff
    · cases hs
  | expireCash =>
    cases hs
    exact shape_expire fun row => row.paymentStatus == .pendingCash && row.cashExpiresAt.any (· < s.now)
  | validateCash id =>
    cases hs
    refine .quiet (kept_moveLocked s _ _ _ _) (seatsKept_moveLocked id _ fun row hrow _ => ?_)
    simp [seatHolding, hrow]
  | cancelCash id => cases hs; exact .quiet (kept_moveLocked s _ _ _ _) (seatsKept_release _ _ _ (Or.inl rfl))
  | refund id =>
    cases hs
    have hn := moveLocked_now s id .paid .refunded fun _ => true
    have hn' := moveLocked_now
      (moveLocked s id .paid .refunded fun _ => true) id .paidOverCapacity .refunded fun _ => true
    refine .quiet (kept_rows ?_ ?_ ?_ ?_) ?_
    · exact Int.le_of_eq (hn'.1.trans hn.1).symm
    · exact (rowsKept_moveLocked s id _ _ _).trans (rowsKept_moveLocked _ id _ _ _)
    · rw [moveLocked_requests, moveLocked_requests]
      exact moved_refl _
    · rw [hn'.2, hn.2]
    · exact (seatsKept_release id _ _ (Or.inr (Or.inl rfl))).trans (seatsKept_release id _ _ (Or.inr (Or.inl rfl)))
  | delete id =>
    cases hs
    refine .quiet (kept_rows (Int.le_refl _) (rowsKept_delete _ _) (moved_refl _) rfl) fun j y hy hh => ?_
    exact ⟨y, (update_none_eq_some_iff.mp hy).2, rfl, hh⟩
  | provider a state =>
    simp only [step] at hs
    split at hs
    · rename_i q hq
      split at hs
      · rename_i ho
        cases hs
        simp only [beq_iff_eq] at ho
        exact .quiet (kept_rows (Int.le_refl _) (rowsKept_refl _) (moved_set hq ho state) rfl) (seatsKept_same rfl rfl)
      · cases hs
    · cases hs
  | _ => exact shape_stepSubmit h hs

/-! ## One payable request -/

theorem pay_init (h : Init s) : Pay F s := by
  obtain ⟨hr, hq, hp⟩ := h
  constructor <;> simp [hr, hq, hp, Table.Wf, Table.empty, Distinct]

theorem namesNoRequest_congr {x y : Submission} (hi : y.paymentRequestId = x.paymentRequestId)
    (hs : y.stripeSessionId = x.stripeSessionId) :
    namesNoRequest y = namesNoRequest x := by
  unfold namesNoRequest
  rw [hi, hs]

theorem pay_kept (h : Pay F s) (hk : Kept F s s') : Pay F s' where
  rowsWf := fun id y hy => by
    obtain ⟨x, hx, _⟩ := hk.rows.row id y hy
    rw [hk.rows.next]
    exact h.rowsWf id x hx
  requestsWf := fun a r hr => by
    obtain ⟨q, hq, _⟩ := hk.requests.back a r hr
    rw [hk.requests.next]
    exact h.requestsWf a q hq
  distinct := h.distinct.moved hk.requests
  owner := fun a r hr => by
    obtain ⟨q, hq, hid, _⟩ := hk.requests.back a r hr
    rw [hk.rows.next, hid]
    exact h.owner a q hq
  payable := fun a b q r hq hr hid hqo hro => by
    obtain ⟨x, hx, hx1, _, _, hxo⟩ := hk.requests.back a q hq
    obtain ⟨y, hy, hy1, _, _, hyo⟩ := hk.requests.back b r hr
    exact h.payable a b x y hx hy (by rw [← hx1, ← hy1]; exact hid) (hxo hqo) (hyo hro)
  named := fun id y hy hn => by
    obtain ⟨x, hx, _, hi, hu⟩ := hk.rows.row id y hy
    rw [namesNoRequest_congr hi hu] at hn
    rw [hi, hu]
    exact (h.named id x hx hn).moved hk.requests
  procs := fun j p hj => by
    rcases hk.procs j p hj with hj | ⟨hp, _⟩
    · exact procOk_kept hk.now hk.rows hk.requests (h.procs j p hj)
    · exact hp
  issuer := fun j p id hj hid => by
    have before : ∀ j p, s'.procs j = some p → issuing p = some id → ∃ p', s.procs j = some p' ∧
      issuing p' = some id := by
      intro j p hj hid
      rcases hk.procs j p hj with hj | ⟨_, hp⟩
      · exact ⟨p, hj, hid⟩
      · exact hp id hid
    obtain ⟨p', hj', hid'⟩ := before j p hj hid
    obtain ⟨hlt, hn, huniq⟩ := h.issuer j p' id hj' hid'
    refine ⟨hk.rows.next ▸ hlt, fun y hy => ?_, fun k q hkq hkid => ?_⟩
    · obtain ⟨x, hx, _, hi, hu⟩ := hk.rows.row id y hy
      rw [namesNoRequest_congr hi hu]
      exact hn x hx
    · obtain ⟨q', hq', hqid⟩ := before k q hkq hkid
      exact huniq k q' hq' hqid

theorem issuing_other (h : Pay F s) {j : Nat} {p p' : Proc} (hi : s.procs i = some p) (hid : issuing p = some id)
    (hj : s.procs j = some p') (hne : j ≠ i) : issuing p' ≠ some id :=
  fun hid' => hne ((h.issuer i p id hi hid).2.2 j p' hj hid')

variable {call : SubmitCall}

theorem pay_created (h : Pay F s) {requestId uuid : String} {next : Option Proc}
    (hi : s.procs i = some (.submit call (.saved id))) (hf : freshIds s requestId uuid = true)
    (hn : ∀ p, next = some p → issuing p = some id ∧
      ∀ t : St, Sole t.requests id (some requestId) (some uuid) → ProcOk F t p) :
    Pay F (setProc { s with requests := s.requests.insert ⟨id, requestId, uuid, .open⟩ } i next) := by
  obtain ⟨hlt, hno, huniq⟩ := h.issuer i _ id hi rfl
  have hfree : Unpayable s.requests id := h.procs i _ hi
  have hsole : Sole (s.requests.insert ⟨id, requestId, uuid, .open⟩) id (some requestId) (some uuid) := by
    refine ⟨s.requests.next, _, update_eq_some_iff.mpr (Or.inl ⟨rfl, rfl⟩), rfl,
      ⟨fun x hx => by cases hx; rfl, fun x hx => by cases hx; rfl⟩, ?_⟩
    intro b r hr hid ho
    rcases update_eq_some_iff.mp hr with ⟨hb, _⟩ | ⟨_, hr⟩
    · exact hb
    · exact absurd ho (hfree b r hr hid)
  have hother : ∀ j p, s.procs j = some p → j ≠ i → issuing p ≠ some id :=
    fun j p hj hne => issuing_other h hi rfl hj hne
  refine ⟨h.rowsWf, Table.wf_insert h.requestsWf _, distinct_insert h.requestsWf h.distinct hf, ?_, ?_, ?_, ?_, ?_⟩
  · intro a q hq
    rcases update_eq_some_iff.mp hq with ⟨_, rfl⟩ | ⟨_, hq⟩
    · exact hlt
    · exact h.owner a q hq
  · intro a b q r hq hr hid hqo hro
    rcases update_eq_some_iff.mp hq with ⟨ha, rfl⟩ | ⟨_, hq⟩ <;> rcases update_eq_some_iff.mp hr with ⟨hb, rfl⟩ | ⟨_, hr⟩
    · exact ha.trans hb.symm
    · exact absurd hro (hfree b r hr hid.symm)
    · exact absurd hqo (hfree a q hq hid)
    · exact h.payable a b q r hq hr hid hqo hro
  · intro id' row hrow hne
    have : id ≠ id' := by
      intro e
      subst e
      rw [hno row hrow] at hne
      cases hne
    exact (h.named id' row hrow hne).insert h.requestsWf this
  · intro j p hj
    by_cases e : j = i
    · subst e
      exact (hn p (by simpa [setProc] using hj)).2 _ hsole
    · have hj' : s.procs j = some p := by simpa [setProc, e] using hj
      refine procOk_of (h.procs j p hj') (Int.le_refl _) (fun _ _ hr => hr) (fun _ hk => hk.insert h.requestsWf _)
        (fun _ hs => hs.insert h.requestsWf _) fun id' hid' => ?_
      have hne : id ≠ id' := fun e' => hother j p hj' e (e' ▸ hid')
      exact ⟨fun hu => hu.insert hne, fun _ _ hs => hs.insert h.requestsWf hne⟩
  · intro j p id' hj hid'
    -- the call at `i` still issues for the row it issued for
    have before : ∀ j p, (setProc { s with requests := s.requests.insert ⟨id, requestId, uuid, .open⟩ } i next).procs j = some p →
        issuing p = some id' → ∃ p', s.procs j = some p' ∧ issuing p' = some id' := by
      intro j p hj hid'
      by_cases e : j = i
      · subst e
        have := (hn p (by simpa [setProc] using hj)).1
        rw [hid'] at this
        cases this
        exact ⟨_, hi, rfl⟩
      · exact ⟨p, by simpa [setProc, e] using hj, hid'⟩
    obtain ⟨p', hj', hp'⟩ := before j p hj hid'
    obtain ⟨h1, h2, h3⟩ := h.issuer j p' id' hj' hp'
    refine ⟨h1, h2, fun k q hk hq => ?_⟩
    obtain ⟨q', hk', hq'⟩ := before k q hk hq
    exact h3 k q' hk' hq'

theorem pay_wrote (h : Pay F s)
    (hi : s.procs i = some (.submit call (.issued id requestId uuid))) (hrow : s.rows.rows id = some row) :
    Pay F (setProc (setRow s id { row with paymentRequestId := requestId, stripeSessionId := uuid }) i none) := by
  have hsole : Sole s.requests id requestId uuid := h.procs i _ hi
  have hrest : ∀ j p, (setProc
    (setRow s id { row with paymentRequestId := requestId, stripeSessionId := uuid }) i none).procs j = some p →
      j ≠ i ∧ s.procs j = some p := fun j p hj => update_none_eq_some_iff.mp hj
  refine ⟨Table.wf_set h.rowsWf hrow _, h.requestsWf, h.distinct, h.owner, h.payable, ?_, ?_, ?_⟩
  · intro id' y hy hne
    rcases update_eq_some_iff.mp hy with ⟨rfl, rfl⟩ | ⟨_, hy⟩
    · exact hsole
    · exact h.named id' y hy hne
  · intro j p hj
    refine procOk_of (h.procs j p (hrest j p hj).2) (Int.le_refl _) (fun c q hq => ?_) (fun _ hk => hk) (fun _ hs => hs)
      fun _ _ => ⟨fun hu => hu, fun _ _ hs => hs⟩
    refine ⟨hq.1, hq.2.1, fun y hy => ?_⟩
    rcases update_eq_some_iff.mp hy with ⟨he, rfl⟩ | ⟨_, hy⟩
    · exact hq.2.2 row (he ▸ hrow)
    · exact hq.2.2 y hy
  · intro j p id' hj hid'
    obtain ⟨hji, hjp⟩ := hrest j p hj
    obtain ⟨h1, h2, h3⟩ := h.issuer j p id' hjp hid'
    refine ⟨h1, fun y hy => ?_, fun k q hk hq => h3 k q (hrest k q hk).2 hq⟩
    rcases update_eq_some_iff.mp hy with ⟨rfl, rfl⟩ | ⟨_, hy⟩
    · exact absurd hid' (issuing_other h hi rfl hjp hji)
    · exact h2 y hy

variable {previous : Option (Nat × Submission)}

/-- The submission a committed submit saved: nothing is payable for it, it names no request, and no
    other call issues for it. -/
theorem saved_spec (h : Pay F s) {start : Int}
    {out : Committed} (hi : s.procs i = some (.submit call (.begun previous start)))
    (hout : submitTx F s.rows s.respondents start call previous = some out) :
    Unpayable s.requests out.saved ∧ (∀ j p, s.procs j = some p → issuing p ≠ some out.saved) ∧
    ∃ y, namesNoRequest y = true ∧ s.rows.next ≤ out.rows.next ∧ out.saved < out.rows.next ∧ out.rows.Wf ∧
      out.rows.rows = Function.update s.rows.rows out.saved (some y) ∧
      (out.saved < s.rows.next → ∃ x, s.rows.rows out.saved = some x ∧ y.userId = x.userId) := by
  obtain ⟨_, hprev⟩ := h.procs i _ hi
  have hre : previous.isSome → reuses F call = true := fun hp => by
    obtain ⟨p, hp⟩ := isSome_iff_exists.mp hp
    exact (hprev p hp).1.1
  rcases submitTx_cases hre hout with ⟨_, hrows, hsaved, _⟩ | ⟨id, q, row, hq, hrow, hsame, _, hrows, hsaved, _⟩
  · rw [hsaved, hrows]
    refine ⟨fun b r hr hid => ?_, fun j p hj hid => ?_, newRow F call start, rfl, Nat.le_succ _, Nat.lt_succ_self _,
      Table.wf_insert h.rowsWf _, rfl, fun hlt => absurd hlt (Nat.lt_irrefl _)⟩
    · have := h.owner b r hr
      omega
    · have := (h.issuer j p _ hj hid).1
      omega
  · obtain ⟨_, hset⟩ := hprev (id, q) hq
    -- the row still names the request that was settled
    have hne : namesNoRequest row = false := by
      simp only [sameRequest, Bool.and_eq_true, beq_iff_eq] at hsame
      rw [namesNoRequest_congr hsame.1 hsame.2]
      exact hset.1
    rw [hsaved, hrows]
    refine ⟨(h.named id row hrow hne).unpayable h.distinct hset hsame, fun j p hj hid => ?_, reusedRow row call start,
      rfl, Nat.le_refl _,
      h.rowsWf id row hrow, Table.wf_set h.rowsWf hrow _, rfl, fun _ => ⟨row, hrow, rfl⟩⟩
    have := (h.issuer j p id hj hid).2.1 row hrow
    rw [hne] at this
    cases this

theorem pay_committed (h : Pay F s) {start : Int}
    {out : Committed} (hi : s.procs i = some (.submit call (.begun previous start)))
    (hout : submitTx F s.rows s.respondents start call previous = some out) :
    Pay F { setProc s i (if call.totalCents > 0 then some (.submit call (.saved out.saved)) else none) with
      rows := out.rows, respondents := out.respondents } := by
  obtain ⟨hfree, halone, y, hy, hnext, hlt, hwf, hrows, hsame⟩ := saved_spec h hi hout
  have hcase : ∀ j p, Function.update s.procs i
    (if call.totalCents > 0 then some (.submit call (.saved out.saved)) else none) j = some p →
      s.procs j = some p ∨ (j = i ∧ p = .submit call (.saved out.saved)) := by
    intro j p hj
    by_cases e : j = i
    · subst e
      rw [Function.update_self] at hj
      split at hj
      · cases hj; exact Or.inr ⟨rfl, rfl⟩
      · cases hj
    · rw [Function.update_of_ne e] at hj
      exact Or.inl hj
  have hrow : ∀ id z, out.rows.rows id = some z → (id = out.saved ∧ y = z) ∨
    (id ≠ out.saved ∧ s.rows.rows id = some z) := by
    intro id z hz
    rw [hrows] at hz
    exact update_eq_some_iff.mp hz
  refine ⟨hwf, h.requestsWf, h.distinct, fun a q hq => Nat.lt_of_lt_of_le (h.owner a q hq) hnext, h.payable, ?_, ?_, ?_⟩
  · intro id z hz hne
    rcases hrow id z hz with ⟨_, rfl⟩ | ⟨_, hz⟩
    · rw [hy] at hne
      cases hne
    · exact h.named id z hz hne
  · intro j p hj
    rcases hcase j p hj with hj | ⟨_, rfl⟩
    · refine procOk_of (h.procs j p hj) (Int.le_refl _) (fun c q hq => ?_) (fun _ hk => hk) (fun _ hs => hs)
        fun _ _ => ⟨fun hu => hu, fun _ _ hs => hs⟩
      refine ⟨hq.1, Nat.lt_of_lt_of_le hq.2.1 hnext, fun z hz => ?_⟩
      rcases hrow _ z hz with ⟨he, rfl⟩ | ⟨_, hz⟩
      · obtain ⟨x, hx, hxu⟩ := hsame (he ▸ hq.2.1)
        exact hxu.trans (hq.2.2 x (he ▸ hx))
      · exact hq.2.2 z hz
    · exact hfree
  · intro j p id hj hid
    rcases hcase j p hj with hj | ⟨rfl, rfl⟩
    · obtain ⟨h1, h2, h3⟩ := h.issuer j p id hj hid
      refine ⟨Nat.lt_of_lt_of_le h1 hnext, fun z hz => ?_, fun k q hk hq => ?_⟩
      · rcases hrow id z hz with ⟨_, rfl⟩ | ⟨_, hz⟩
        · exact hy
        · exact h2 z hz
      · rcases hcase k q hk with hk | ⟨_, rfl⟩
        · exact h3 k q hk hq
        · cases hq
          exact absurd hid (halone j p hj)
    · cases hid
      refine ⟨hlt, fun z hz => ?_, fun k q hk hq => ?_⟩
      · rcases hrow _ z hz with ⟨_, rfl⟩ | ⟨hne, _⟩
        · exact hy
        · exact absurd rfl hne
      · rcases hcase k q hk with hk | ⟨hkj, _⟩
        · exact absurd hq (halone k q hk)
        · exact hkj

theorem pay_step (s : St) (e : Ev) (s' : St) (h : Pay F s) (hs : step F s e = some s') : Pay F s' := by
  cases step_shape h hs with
  | quiet hk _ => exact pay_kept h hk
  | cash _ _ hk _ _ => exact pay_kept h hk
  | paid _ _ hk _ _ => exact pay_kept h hk
  | committed hi hout => exact pay_committed h hi hout
  | created hi hf hn => exact pay_created h hi hf hn
  | wrote hi hrow => exact pay_wrote h hi hrow

theorem pay (h : (machine F).Reach s) : Pay F s :=
  Machine.Reach.invariant (I := Pay F) (fun _ h0 => pay_init h0) pay_step h

end Canari.Forms.PayableRequest
