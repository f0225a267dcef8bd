/-
  Canari.Associations.CheckoutBooks — the books of product checkouts, on every run.

  An attempt has one purchase record, a paid attempt stays paid, `paid` is answered once its
  record is there, and at most one top-up goes out, for a record written as granted and under
  the payment id the record carries (`Books`). `Later` is what no step takes back; `Accounts`
  ties the rows to the records, `Work` the tasks to both.
-/

import Canari.Associations.ProductCheckout

namespace Canari.Associations.ProductCheckout

open Lib List Option Function

/-! ## What never goes back -/

def PaidRow (s : State) (i : Nat) : Prop := ∃ row, s.rows.rows i = some row ∧ row.status = .paid

/-- The attempt's record was written as granted and carries this payment id. -/
def Carried (s : State) (i : Nat) (pid : String) : Prop :=
  ∃ k r, s.records.rows k = some r ∧ r.checkoutId = i ∧ r.granted = true ∧ r.paymentIntentId = some pid

def Own (s : State) (i : Nat) (requestId : String) : Prop := ∃ r, s.requests i = some r ∧ r.requestId = requestId

structure SameTimes (row row' : Checkout) : Prop where
  createdAt : row'.createdAt = row.createdAt
  expiresAt : row'.expiresAt = row.expiresAt

structure Later (s s' : State) : Prop where
  now : s.now ≤ s'.now
  row : ∀ i row, s.rows.rows i = some row →
    ∃ row', s'.rows.rows i = some row' ∧ SameTimes row row' ∧ (row.status = .paid → row'.status = .paid)
  request : ∀ i requestId, Own s i requestId → Own s' i requestId
  live : ∀ i row, s.rows.rows i = some row → s'.live i = true → s.live i = true
  carried : ∀ i pid, Carried s i pid → Carried s' i pid

section Later

variable {s s' s'' : State} {i : Nat}

theorem Later.refl (s : State) : Later s s :=
  ⟨Int.le_refl _, fun _ row h => ⟨row, h, ⟨rfl, rfl⟩, id⟩, fun _ _ h => h, fun _ _ _ h => h, fun _ _ h => h⟩

theorem Later.trans (h : Later s s') (h' : Later s' s'') : Later s s'' where
  now := Int.le_trans h.now h'.now
  row i row hr := by
    obtain ⟨r', hr', ht, hp⟩ := h.row i row hr
    obtain ⟨r'', hr'', ht', hp'⟩ := h'.row i r' hr'
    exact ⟨r'', hr'', ⟨ht'.createdAt.trans ht.createdAt, ht'.expiresAt.trans ht.expiresAt⟩, fun e => hp' (hp e)⟩
  request i x ho := h'.request i x (h.request i x ho)
  live i row hr hl := by
    obtain ⟨r', hr', _, _⟩ := h.row i row hr
    exact h.live i row hr (h'.live i r' hr' hl)
  carried i pid hc := h'.carried i pid (h.carried i pid hc)

theorem Later.paidRow (h : Later s s') (hp : PaidRow s i) : PaidRow s' i := by
  obtain ⟨row, hr, hs⟩ := hp
  obtain ⟨row', hr', _, hpaid⟩ := h.row i row hr
  exact ⟨row', hr', hpaid hs⟩

variable {row : Checkout}

theorem Later.dead (h : Later s s') (hr : s.rows.rows i = some row) (hd : s.live i = false) :
    s'.live i = false := by
  cases hl : s'.live i with
  | false => rfl
  | true =>
    rw [h.live i row hr hl] at hd
    cases hd

variable {row' : Checkout}

theorem live_of_live (s' : State) (hreq : s'.requests i = s.requests i)
    (hiss : s'.issuing i = true → s.issuing i = true)
    (hnow : s.now ≤ s'.now) (hr : s.rows.rows i = some row) (hr' : s'.rows.rows i = some row')
    (ht : SameTimes row row') (hl : s'.live i = true) : s.live i = true := by
  unfold State.live at hl ⊢
  rw [hreq] at hl
  cases hq : s.requests i with
  | some r =>
    simp only [hq, Bool.and_eq_true, decide_eq_true_eq] at hl ⊢
    exact ⟨hl.1, by omega⟩
  | none =>
    have hc := ht.createdAt
    simp only [hq, hr, hr', any_some, Bool.and_eq_true, decide_eq_true_eq] at hl ⊢
    exact ⟨hiss hl.1, by omega⟩

theorem Later.of_same (hrows : s'.rows = s.rows) (hreq : s'.requests = s.requests) (hrec : s'.records = s.records)
    (hiss : ∀ i, s'.issuing i = true → s.issuing i = true) (hnow : s.now ≤ s'.now) : Later s s' where
  now := hnow
  row i row hr := ⟨row, hrows ▸ hr, ⟨rfl, rfl⟩, id⟩
  request i x ho := by unfold Own; rw [hreq]; exact ho
  live i row hr hl := live_of_live s' (by rw [hreq]) (hiss i) hnow hr (hrows ▸ hr) ⟨rfl, rfl⟩ hl
  carried i pid hc := by unfold Carried; rw [hrec]; exact hc

theorem Later.go (s : State) (p : Nat) (t : Task) (next : Next) : Later s (s.go p t next) := by
  cases next with
  | move phase => exact .of_same rfl rfl rfl (fun _ h => h) (Int.le_refl _)
  | opens => exact .of_same rfl rfl rfl (fun _ h => h) (Int.le_refl _)
  | stop => exact .of_same rfl rfl rfl (fun _ h => h) (Int.le_refl _)

theorem later_setRow (hr : s.rows.rows i = some row) (ht : SameTimes row row')
    (hp : row.status = .paid → row'.status = .paid) : Later s (s.setRow i row') := by
  have hother : ∀ j, j ≠ i → (s.setRow i row').rows.rows j = s.rows.rows j := fun j e => by
    simp [State.setRow, Table.set, e]
  have hown : (s.setRow i row').rows.rows i = some row' := by simp [State.setRow, Table.set]
  have hrow : ∀ j x, s.rows.rows j = some x →
      ∃ y, (s.setRow i row').rows.rows j = some y ∧ SameTimes x y ∧ (x.status = .paid → y.status = .paid) := by
    intro j x hx
    by_cases e : j = i
    · subst e
      rw [hr] at hx
      cases hx
      exact ⟨row', hown, ht, hp⟩
    · exact ⟨x, (hother j e).trans hx, ⟨rfl, rfl⟩, id⟩
  refine ⟨Int.le_refl _, hrow, fun _ _ h => h, fun j x hx hl => ?_, fun _ _ h => h⟩
  obtain ⟨y, hy, hty, _⟩ := hrow j x hx
  exact live_of_live (s.setRow i row') rfl id (Int.le_refl _) hx hy hty hl

theorem later_setRequest {r r' : Request} (hr : s.requests i = some r) (hid : r'.requestId = r.requestId)
    (hs : r'.state = .open_ → r.state = .open_ ∧ r'.issuedAt = r.issuedAt) : Later s (s.setRequest i r') where
  now := Int.le_refl _
  row j row hj := ⟨row, hj, ⟨rfl, rfl⟩, id⟩
  request j x ho := by
    obtain ⟨q, hq, hx⟩ := ho
    by_cases e : j = i
    · subst e
      rw [hr] at hq
      cases hq
      exact ⟨r', by simp [State.setRequest], hid.trans hx⟩
    · exact ⟨q, by simpa [State.setRequest, e] using hq, hx⟩
  live j row hj hl := by
    by_cases e : j = i
    · subst e
      have hown : (s.setRequest j r').requests j = some r' := by simp [State.setRequest]
      simp only [State.live, hown, Bool.and_eq_true, decide_eq_true_eq] at hl
      obtain ⟨hstate, hat⟩ := hs hl.1
      simp only [State.live, hr, Bool.and_eq_true, decide_eq_true_eq]
      have hnow : s.now < r'.issuedAt + PRODUCT_REQUEST_LIFETIME_MS := hl.2
      exact ⟨hstate, by omega⟩
    · exact live_of_live (s.setRequest i r') (by simp [State.setRequest, e]) id (Int.le_refl _) hj hj ⟨rfl, rfl⟩ hl
  carried _ _ h := h

theorem later_endRequest (s : State) (i : Nat) : Later s (s.endRequest i) := by
  unfold State.endRequest
  split
  · rename_i r hr
    split
    · exact later_setRequest hr rfl nofun
    · exact .refl s
  · exact .refl s

theorem later_cancelled (s : State) (requestId : String) : Later s (s.cancelled requestId) := by
  unfold State.cancelled
  split
  · exact later_endRequest s _
  · exact .refl s

theorem closed_times (row : Checkout) (c : ClosedStatus) : SameTimes row (closed row c) := by
  unfold closed
  split
  · exact ⟨rfl, rfl⟩
  · exact ⟨rfl, rfl⟩

theorem closed_paid (row : Checkout) (c : ClosedStatus) : (closed row c).status = .paid ↔ row.status = .paid := by
  unfold closed
  split
  · rename_i ho
    cases c <;> simp [ho, ClosedStatus.status]
  · exact Iff.rfl

theorem closed_not_open (row : Checkout) (c : ClosedStatus) : (closed row c).status ≠ .open_ := by
  unfold closed
  split
  · cases c <;> exact nofun
  · assumption

end Later

/-! ## The accounts -/

structure Accounts (s : State) : Prop where
  rowsWf : s.rows.Wf
  recordsWf : s.records.Wf
  oneOpen : ∀ i j ri rj, s.rows.rows i = some ri → s.rows.rows j = some rj → ri.status = .open_ →
    rj.status = .open_ → i = j
  hasRecord : ∀ i row, s.rows.rows i = some row → row.status = .paid →
    ∃ k r, row.purchaseRecordId = some k ∧ s.records.rows k = some r ∧ r.checkoutId = i
  ofRow : ∀ k r, s.records.rows k = some r →
    ∃ row, s.rows.rows r.checkoutId = some row ∧ row.status = .paid ∧ row.purchaseRecordId = some k
  /-- A top-up is withheld from a buyer erased or for a product gone, both for good. -/
  withheld : ∀ k r, s.records.rows k = some r → s.product.type = .balanceTopup → r.granted = false →
    s.erased = true ∨ s.product.deleted = true

section Accounts

variable {s s' : State} {i : Nat}

variable {k : Nat}

/-- An attempt has one record. -/
theorem Accounts.one (h : Accounts s) {k' : Nat} {r r' : PurchaseRecord} (hk : s.records.rows k = some r)
    (hk' : s.records.rows k' = some r') (e : r.checkoutId = r'.checkoutId) : k = k' := by
  obtain ⟨row, hrow, _, hname⟩ := h.ofRow k r hk
  obtain ⟨row', hrow', _, hname'⟩ := h.ofRow k' r' hk'
  rw [e, hrow'] at hrow
  cases hrow
  rw [hname'] at hname
  exact (some.inj hname).symm

theorem Accounts.of_same (h : Accounts s) (hrows : s'.rows = s.rows) (hrec : s'.records = s.records)
    (htype : s'.product.type = s.product.type) (her : s.erased = true → s'.erased = true)
    (hdel : s.product.deleted = true → s'.product.deleted = true) : Accounts s' where
  rowsWf := hrows ▸ h.rowsWf
  recordsWf := hrec ▸ h.recordsWf
  oneOpen := hrows ▸ h.oneOpen
  hasRecord := by rw [hrows, hrec]; exact h.hasRecord
  ofRow := by rw [hrows, hrec]; exact h.ofRow
  withheld k r hk hty hg := (h.withheld k r (hrec ▸ hk) (htype ▸ hty) hg).imp her hdel

theorem Accounts.go (h : Accounts s) (p : Nat) (t : Task) (next : Next) : Accounts (s.go p t next) := by
  cases next with
  | move phase => exact h.of_same rfl rfl rfl id id
  | opens => exact h.of_same rfl rfl rfl id id
  | stop => exact h.of_same rfl rfl rfl id id

theorem Accounts.setRow (h : Accounts s) (hr : s.rows.rows i = some row)
    (hp : row'.status = .paid ↔ row.status = .paid) (hname : row'.purchaseRecordId = row.purchaseRecordId)
    (ho : row'.status = .open_ → row.status = .open_) : Accounts (s.setRow i row') where
  rowsWf := Table.wf_set h.rowsWf hr row'
  recordsWf := h.recordsWf
  oneOpen j k rj rk hj hk pj pk := by
    rcases update_eq_some_iff.mp hj with ⟨rfl, rfl⟩ | ⟨_, oj⟩
    · rcases update_eq_some_iff.mp hk with ⟨rfl, _⟩ | ⟨_, ok⟩
      · rfl
      · exact h.oneOpen _ _ _ _ hr ok (ho pj) pk
    · rcases update_eq_some_iff.mp hk with ⟨rfl, rfl⟩ | ⟨_, ok⟩
      · exact h.oneOpen _ _ _ _ oj hr pj (ho pk)
      · exact h.oneOpen _ _ _ _ oj ok pj pk
  hasRecord j x hj hpaid := by
    rcases update_eq_some_iff.mp hj with ⟨rfl, rfl⟩ | ⟨_, oj⟩
    · rw [hname]
      exact h.hasRecord j row hr (hp.mp hpaid)
    · exact h.hasRecord j x oj hpaid
  ofRow k r hk := by
    obtain ⟨x, hx, hpaid, hxk⟩ := h.ofRow k r hk
    by_cases e : r.checkoutId = i
    · rw [e, hr] at hx
      cases hx
      exact ⟨row', by simp [State.setRow, Table.set, e], hp.mpr hpaid, hname.trans hxk⟩
    · exact ⟨x, by simpa [State.setRow, Table.set, e] using hx, hpaid, hxk⟩
  withheld := h.withheld

theorem Accounts.insert (h : Accounts s) (hnew : row.status = .open_)
    (hnone : ∀ i r, s.rows.rows i = some r → r.status ≠ .open_) (hrows : s'.rows = s.rows.insert row)
    (hrec : s'.records = s.records) (hprod : s'.product = s.product) (her : s'.erased = s.erased) : Accounts s' where
  rowsWf := hrows ▸ Table.wf_insert h.rowsWf row
  recordsWf := hrec ▸ h.recordsWf
  oneOpen i j ri rj hi hj pi pj := by
    rw [hrows] at hi hj
    rcases update_eq_some_iff.mp hi with ⟨ei, _⟩ | ⟨_, oi⟩
    · rcases update_eq_some_iff.mp hj with ⟨ej, _⟩ | ⟨_, oj⟩
      · omega
      · exact absurd pj (hnone j rj oj)
    · exact absurd pi (hnone i ri oi)
  hasRecord i x hi hpaid := by
    rw [hrows] at hi
    rw [hrec]
    rcases update_eq_some_iff.mp hi with ⟨_, rfl⟩ | ⟨_, oi⟩
    · rw [hnew] at hpaid
      cases hpaid
    · exact h.hasRecord i x oi hpaid
  ofRow k r hk := by
    obtain ⟨x, hx, hrest⟩ := h.ofRow k r (hrec ▸ hk)
    have hne : r.checkoutId ≠ s.rows.next := Nat.ne_of_lt (h.rowsWf _ x hx)
    exact ⟨x, by rw [hrows]; simpa [Table.insert, hne] using hx, hrest⟩
  withheld k r hk hty hg := by
    rw [hprod] at hty ⊢
    rw [her]
    exact h.withheld k r (hrec ▸ hk) hty hg

/-- A settlement of a row not yet paid. -/
theorem Accounts.settled (h : Accounts s) (mayGrant : Bool) (hr : s.rows.rows i = some row)
    (hn : row.status ≠ .paid) : Accounts (s.settled i row (recordOf s.product s.erased i row mayGrant)) where
  rowsWf := Table.wf_set h.rowsWf hr _
  recordsWf := Table.wf_insert h.recordsWf _
  oneOpen j k rj rk hj hk pj pk := by
    rcases update_eq_some_iff.mp hj with ⟨_, rfl⟩ | ⟨_, oj⟩
    · cases pj
    · rcases update_eq_some_iff.mp hk with ⟨_, rfl⟩ | ⟨_, ok⟩
      · cases pk
      · exact h.oneOpen _ _ _ _ oj ok pj pk
  hasRecord j x hj hpaid := by
    rcases update_eq_some_iff.mp hj with ⟨rfl, rfl⟩ | ⟨_, oj⟩
    · exact ⟨s.records.next, recordOf s.product s.erased j row mayGrant, rfl, update_self .., rfl⟩
    · obtain ⟨k, r, hk, hrec, hid⟩ := h.hasRecord j x oj hpaid
      have hne : k ≠ s.records.next := Nat.ne_of_lt (h.recordsWf k r hrec)
      exact ⟨k, r, hk, by simpa [State.settled, Table.insert, hne] using hrec, hid⟩
  ofRow k r hk := by
    rcases update_eq_some_iff.mp hk with ⟨rfl, rfl⟩ | ⟨_, ok⟩
    · exact ⟨{ row with status := .paid, purchaseRecordId := some s.records.next }, update_self .., rfl, rfl⟩
    · obtain ⟨x, hx, hpaid, hxk⟩ := h.ofRow k r ok
      have hne : r.checkoutId ≠ i := fun e => by
        rw [e, hr] at hx
        cases hx
        exact hn hpaid
      exact ⟨x, by simpa [State.settled, Table.set, hne] using hx, hpaid, hxk⟩
  withheld k r hk hty hg := by
    rcases update_eq_some_iff.mp hk with ⟨_, rfl⟩ | ⟨_, ok⟩
    · have hty' : s.product.type = .balanceTopup := hty
      have hg' : grants s.product s.erased mayGrant = false := hg
      unfold grants at hg'
      split at hg'
      · exact .inl ‹_›
      · split at hg'
        · exact .inr ‹_›
        · rw [hty'] at hg'
          cases hg'
    · exact h.withheld k r ok hty hg

variable {record : PurchaseRecord}

/-- A record completed with the callback's payment id. -/
theorem Accounts.completed (h : Accounts s) (hk : s.records.rows k = some record)
    (requestId : String) : Accounts (s.completed k record requestId) where
  rowsWf := h.rowsWf
  recordsWf := Table.wf_set h.recordsWf hk _
  oneOpen := h.oneOpen
  hasRecord j x hj hpaid := by
    obtain ⟨k', r, hname, hrec, hid⟩ := h.hasRecord j x hj hpaid
    by_cases e : k' = k
    · subst e
      rw [hk] at hrec
      cases hrec
      exact ⟨k', { record with paymentIntentId := some requestId }, hname, update_self .., hid⟩
    · exact ⟨k', r, hname, by simpa [State.completed, Table.set, e] using hrec, hid⟩
  ofRow k' r hr := by
    rcases update_eq_some_iff.mp hr with ⟨rfl, rfl⟩ | ⟨_, or⟩
    · exact h.ofRow k' record hk
    · exact h.ofRow k' r or
  withheld k' r hr hty hg := by
    rcases update_eq_some_iff.mp hr with ⟨rfl, rfl⟩ | ⟨_, or⟩
    · exact h.withheld k' record hk hty hg
    · exact h.withheld k' r or hty hg

theorem later_settled (h : Accounts s) (hr : s.rows.rows i = some row) :
    Later s (s.settled i row record) := by
  have hrow : Later s (s.setRow i { row with status := .paid, purchaseRecordId := some s.records.next }) :=
    later_setRow hr ⟨rfl, rfl⟩ fun _ => rfl
  refine ⟨hrow.now, hrow.row, hrow.request, hrow.live, fun j pid hc => ?_⟩
  obtain ⟨k, r, hk, hrest⟩ := hc
  have hne : k ≠ s.records.next := Nat.ne_of_lt (h.recordsWf k r hk)
  exact ⟨k, r, by simpa [State.settled, Table.insert, hne] using hk, hrest⟩

theorem later_completed (hk : s.records.rows k = some record)
    (hn : record.paymentIntentId = none) (requestId : String) : Later s (s.completed k record requestId) := by
  refine ⟨Int.le_refl _, (Later.refl s).row, fun _ _ h => h, fun j row hj hl => ?_, fun j pid hc => ?_⟩
  · exact live_of_live (s.completed k record requestId) rfl id (Int.le_refl _) hj hj ⟨rfl, rfl⟩ hl
  · obtain ⟨k', r, hk', hid, hg, hpid⟩ := hc
    have hne : k' ≠ k := fun e => by
      rw [e, hk] at hk'
      cases hk'
      rw [hn] at hpid
      cases hpid
    exact ⟨k', r, by simpa [State.completed, Table.set, hne] using hk', hid, hg, hpid⟩

end Accounts

/-! ## The tasks -/

def Phase.saysPaid : Phase → Bool
  | .dispatching _ _ | .completing => true
  | .answering status => status == .paid
  | _ => false

def Phase.sends : Phase → Option String
  | .dispatching pid _ => some pid
  | _ => none

structure TaskBooks (s : State) (t : Task) : Prop where
  stored : ∃ row, s.rows.rows t.id = some row
  paid : t.row.status = .paid ∨ t.phase.saysPaid = true → PaidRow s t.id

structure Work (s : State) : Prop where
  tasks : ∀ p t, s.tasks.rows p = some t → TaskBooks s t
  sending : ∀ p t pid, s.tasks.rows p = some t → t.phase.sends = some pid →
    Carried s t.id pid ∧ ∀ x, (t.id, x) ∉ s.dispatched
  oneSender : ∀ p p' t t' a b, s.tasks.rows p = some t → s.tasks.rows p' = some t' →
    t.phase.sends = some a → t'.phase.sends = some b → t.id = t'.id → p = p'
  sent : ∀ i pid, (i, pid) ∈ s.dispatched → Carried s i pid
  sentOnce : (s.dispatched.map Prod.fst).Nodup
  answered : ∀ i, (i, CheckoutStatus.paid) ∈ s.answers → PaidRow s i

/-- What a move to `next` must bring. -/
def NextBooks (s : State) (t : Task) : Next → Prop
  | .move phase => TaskBooks s { t with phase } ∧ phase.sends = none
  | _ => True

section Work

variable {s s' : State} {p i : Nat} {t : Task}

theorem TaskBooks.later (h : TaskBooks s t) (hl : Later s s') : TaskBooks s' t := by
  obtain ⟨row, hr⟩ := h.stored
  obtain ⟨row', hr', _⟩ := hl.row _ _ hr
  exact ⟨⟨row', hr'⟩, fun e => hl.paidRow (h.paid e)⟩

theorem Work.later (h : Work s) (hl : Later s s') (ht : s'.tasks = s.tasks) (hd : s'.dispatched = s.dispatched)
    (ha : s'.answers = s.answers) : Work s' where
  tasks p t hp := (h.tasks p t (ht ▸ hp)).later hl
  sending p t pid hp hs := by
    obtain ⟨hc, hn⟩ := h.sending p t pid (ht ▸ hp) hs
    exact ⟨hl.carried _ _ hc, hd ▸ hn⟩
  oneSender := ht ▸ h.oneSender
  sent i pid hm := hl.carried _ _ (h.sent i pid (hd ▸ hm))
  sentOnce := hd ▸ h.sentOnce
  answered i hm := hl.paidRow (h.answered i (ha ▸ hm))

theorem Work.withTasks (h : Work s) (tasks : Table Task) (openings : Table Opening)
    (ht : ∀ k x, tasks.rows k = some x → TaskBooks s x)
    (hs : ∀ k x pid, tasks.rows k = some x → x.phase.sends = some pid → s.tasks.rows k = some x) :
    Work { s with tasks, openings } where
  tasks k x hk := (ht k x hk).later (.of_same rfl rfl rfl (fun _ e => e) (Int.le_refl _))
  sending k x pid hk hx := h.sending k x pid (hs k x pid hk hx) hx
  oneSender k k' x x' a b hk hk' hx hx' := h.oneSender k k' x x' a b (hs k x a hk hx) (hs k' x' b hk' hx') hx hx'
  sent := h.sent
  sentOnce := h.sentOnce
  answered := h.answered

theorem Work.setTask (h : Work s) {t' : Task} (hb : TaskBooks s t')
    (hs : t'.phase.sends = none) : Work (s.setTask p t') := by
  refine h.withTasks _ s.openings (fun k x hk => ?_) fun k x pid hk hx => ?_
  · rcases update_eq_some_iff.mp hk with ⟨_, rfl⟩ | ⟨_, ok⟩
    · exact hb
    · exact h.tasks k x ok
  · rcases update_eq_some_iff.mp hk with ⟨_, rfl⟩ | ⟨_, ok⟩
    · rw [hs] at hx
      cases hx
    · exact ok

theorem Work.drop (h : Work s) (openings : Table Opening) : Work { s with tasks := s.tasks.delete p, openings } :=
  h.withTasks _ openings (fun k x hk => h.tasks k x (update_none_eq_some_iff.mp hk).2)
    fun _ _ _ hk _ => (update_none_eq_some_iff.mp hk).2

theorem Work.go (h : Work s) {next : Next} (hn : NextBooks s t next) : Work (s.go p t next) := by
  cases next with
  | move phase => exact h.setTask hn.1 hn.2
  | opens => exact h.drop _
  | stop => exact h.drop s.openings

theorem Work.begin (h : Work s) (hb : TaskBooks s t) (hs : t.phase.sends = none) : Work (s.start_ t) := by
  refine h.withTasks _ s.openings (fun k x hk => ?_) fun k x pid hk hx => ?_
  · rcases update_eq_some_iff.mp hk with ⟨_, rfl⟩ | ⟨_, ok⟩
    · exact hb
    · exact h.tasks k x ok
  · rcases update_eq_some_iff.mp hk with ⟨_, rfl⟩ | ⟨_, ok⟩
    · rw [hs] at hx
      cases hx
    · exact ok

theorem Work.owe (h : Work s) (hw : Work s') {pid : String} {done : Bool} (hb : TaskBooks s' t)
    (ht : s'.tasks = s.tasks)
    (hd : s'.dispatched = s.dispatched) (hnone : ∀ x, ¬ Carried s t.id x) (hc : Carried s' t.id pid)
    (hpaid : PaidRow s' t.id) :
    Work (s'.setTask p { t with phase := .dispatching pid done }) := by
  have hfree : ∀ k x a, s'.tasks.rows k = some x → x.phase.sends = some a → x.id ≠ t.id := by
    intro k x a hk hx e
    exact hnone a (e ▸ (h.sending k x a (ht ▸ hk) hx).1)
  have hquiet : ∀ x, (t.id, x) ∉ s'.dispatched := fun x hm => hnone x (h.sent t.id x (hd ▸ hm))
  have hlater : Later s' (s'.setTask p { t with phase := .dispatching pid done }) :=
    .of_same rfl rfl rfl (fun _ e => e) (Int.le_refl _)
  refine ⟨fun k x hk => ?_, fun k x a hk hx => ?_, fun k k' x x' a b hk hk' hx hx' e => ?_, hw.sent,
    hw.sentOnce, hw.answered⟩
  · rcases update_eq_some_iff.mp hk with ⟨_, rfl⟩ | ⟨_, ok⟩
    · exact TaskBooks.later ⟨hb.stored, fun _ => hpaid⟩ hlater
    · exact (hw.tasks k x ok).later hlater
  · rcases update_eq_some_iff.mp hk with ⟨_, rfl⟩ | ⟨_, ok⟩
    · cases hx
      exact ⟨hc, hquiet⟩
    · exact hw.sending k x a ok hx
  · rcases update_eq_some_iff.mp hk with ⟨rfl, rfl⟩ | ⟨_, ok⟩
    · rcases update_eq_some_iff.mp hk' with ⟨rfl, _⟩ | ⟨_, ok'⟩
      · rfl
      · exact absurd e.symm (hfree k' x' b ok' hx')
    · rcases update_eq_some_iff.mp hk' with ⟨_, rfl⟩ | ⟨_, ok'⟩
      · exact absurd e (hfree k x a ok hx)
      · exact hw.oneSender k k' x x' a b ok ok' hx hx' e

/-- The top-up goes out and its task moves on. -/
theorem Work.dispatch (h : Work s) (hp : s.tasks.rows p = some t) {pid : String}
    (hs : t.phase.sends = some pid) {next : Next}
    (hn : NextBooks s t next) :
    Work (({ s with dispatched := s.dispatched ++ [(t.id, pid)] } : State).go p t next) := by
  obtain ⟨hc, hquiet⟩ := h.sending p t pid hp hs
  -- move the task first: no other task sends for this attempt
  have hmoved : Work (s.go p t next) := h.go hn
  have hother : ∀ k x a, (s.go p t next).tasks.rows k = some x → x.phase.sends = some a → x.id ≠ t.id := by
    intro k x a hk hx e
    have hold : k ≠ p ∧ s.tasks.rows k = some x := by
      cases next with
      | move phase =>
        rcases update_eq_some_iff.mp hk with ⟨_, rfl⟩ | ho
        · rw [show phase.sends = none from hn.2] at hx
          cases hx
        · exact ho
      | opens => exact update_none_eq_some_iff.mp hk
      | stop => exact update_none_eq_some_iff.mp hk
    exact hold.1 (h.oneSender k p x t a pid hold.2 hp hx hs e)
  have hgo : ({ s with dispatched := s.dispatched ++ [(t.id, pid)] } : State).go p t next =
      { s.go p t next with dispatched := s.dispatched ++ [(t.id, pid)] } := by cases next <;> rfl
  have hlater : Later (s.go p t next) { s.go p t next with dispatched := s.dispatched ++ [(t.id, pid)] } :=
    .of_same rfl rfl rfl (fun _ e => e) (Int.le_refl _)
  have hsame : (s.go p t next).dispatched = s.dispatched := by cases next <;> rfl
  have hrec : (s.go p t next).records = s.records := by cases next <;> rfl
  rw [hgo]
  refine ⟨fun k x hk => (hmoved.tasks k x hk).later hlater, fun k x a hk hx => ?_, hmoved.oneSender,
    fun i a hm => ?_, ?_,
    hmoved.answered⟩
  · obtain ⟨hcx, hq⟩ := hmoved.sending k x a hk hx
    refine ⟨hcx, fun y hm => ?_⟩
    rcases mem_append.mp hm with hold | hnew
    · exact hq y (hsame ▸ hold)
    · exact hother k x a hk hx (Prod.mk.inj (mem_singleton.mp hnew)).1
  · unfold Carried
    rw [hrec]
    rcases mem_append.mp hm with hold | hnew
    · exact h.sent i a hold
    · obtain ⟨rfl, rfl⟩ := Prod.mk.inj (mem_singleton.mp hnew)
      exact hc
  · rw [map_append]
    refine nodup_append.mpr ⟨h.sentOnce, nodup_cons.mpr ⟨not_mem_nil, nodup_nil⟩, ?_⟩
    intro x hx y hy e
    obtain rfl := mem_singleton.mp hy
    obtain ⟨⟨a, b⟩, hm, ea⟩ := mem_map.mp hx
    have hid : a = t.id := ea.trans e
    exact hquiet b (hid ▸ hm)

/-! ### Where a task may go -/

theorem failed_books (h : TaskBooks s t) (now : Int) : NextBooks s t (failed t now) := by
  have hexp : NextBooks s t (unproven t now) := by
    unfold unproven
    split
    · exact ⟨⟨h.stored, fun e => h.paid (.inl (e.resolve_right fun x => (nomatch x)))⟩, rfl⟩
    · trivial
  unfold failed
  split
  · split
    · trivial
    · exact hexp
  · exact ⟨⟨h.stored, fun e => h.paid (.inl (e.elim id fun x => by simpa [Phase.saysPaid] using x))⟩, rfl⟩
  · trivial
  · trivial

theorem established_books (h : TaskBooks s t) {status : CheckoutStatus} (hp : status = .paid → PaidRow s t.id) :
    NextBooks s t (established t status) := by
  have hanswer : NextBooks s t (.move (.answering status)) :=
    ⟨⟨h.stored, fun e => e.elim (fun x => h.paid (.inl x)) fun x => hp (by simpa [Phase.saysPaid] using x)⟩, rfl⟩
  unfold established
  split
  · trivial
  · split
    · rename_i hs
      exact ⟨⟨h.stored, fun _ => hp hs⟩, rfl⟩
    · exact hanswer
  · exact hanswer
  · exact hanswer

theorem TaskBooks.quiet (h : TaskBooks s t) {phase : Phase} (hq : phase.saysPaid = false) (hs : phase.sends = none) :
    NextBooks s t (.move phase) :=
  ⟨⟨h.stored, fun e => e.elim (fun x => h.paid (.inl x)) fun x => by
    have x' : phase.saysPaid = true := x
    rw [hq] at x'
    cases x'⟩, hs⟩

theorem apply_books (h : TaskBooks s t) (now : Int) (w : WireState) : NextBooks s t (applyRequestState t now w) := by
  have hunchanged : NextBooks s t (unchanged t now w) := by
    unfold unchanged
    split
    · unfold unproven
      split
      · exact h.quiet rfl rfl
      · trivial
    · exact ⟨⟨h.stored, fun e => h.paid (.inl (e.elim id fun x => by simpa [Phase.saysPaid] using x))⟩, rfl⟩
    · exact ⟨⟨h.stored, fun e => h.paid (.inl (e.elim id fun x => by simpa [Phase.saysPaid] using x))⟩, rfl⟩
    · split
      · exact h.quiet rfl rfl
      · exact h.quiet rfl rfl
  unfold applyRequestState
  split
  · exact h.quiet rfl rfl
  · split
    · exact h.quiet rfl rfl
    · exact h.quiet rfl rfl
    · exact h.quiet rfl rfl
    · exact hunchanged
    · exact hunchanged
    · exact hunchanged

end Work

/-! ## What each step does -/

section Step

variable {s s' : State} {p o i : Nat} {acked : Bool}

/-- What a callback leaves of the snapshot and of the row. -/
structure Stored (snapshot row snapshot' row' : Checkout) (requestId : String) : Prop where
  takes : snapshot'.requestId = some requestId
  status : snapshot'.status = snapshot.status
  times : SameTimes snapshot snapshot'
  row : (row' = row ∧ (snapshot.requestId = some requestId ∨ row.requestId = some requestId)) ∨
    (row.requestId = none ∧ truthy snapshot.requestId = false ∧ snapshot.requestId ≠ some requestId ∧
      row' = { row with requestId := some requestId })

theorem stored_spec {snapshot snapshot' : Checkout} {requestId : String}
    (h : storeCallbackRequestId snapshot row requestId = some (snapshot', row')) :
    Stored snapshot row snapshot' row' requestId := by
  unfold storeCallbackRequestId at h
  split at h
  · rename_i hs
    cases h
    exact ⟨hs, rfl, ⟨rfl, rfl⟩, .inl ⟨rfl, .inl hs⟩⟩
  · rename_i hne
    split at h
    · cases h
    · rename_i hfalse
      split at h
      · rename_i hr
        cases h
        exact ⟨rfl, rfl, ⟨rfl, rfl⟩, .inr ⟨hr, by simpa using hfalse, hne, rfl⟩⟩
      · split at h
        · rename_i hr
          cases h
          exact ⟨hr, rfl, ⟨rfl, rfl⟩, .inl ⟨rfl, .inr hr⟩⟩
        · cases h

theorem step_store (h : s.store p acked = some s') :
    ∃ t requestId row, s.tasks.rows p = some t ∧ t.phase = .storing ∧ t.caller = .callback requestId ∧
      s.rows.rows t.id = some row ∧ (s' = s.endTask p ∨ ∃ snapshot row', Stored t.row row snapshot row' requestId ∧
        s' = (s.setRow t.id row').go p { t with row := snapshot }
          (if acked then .move (if t.row.status = .paid then .completing else .reading) else .stop)) := by
  obtain ⟨t, ht, h⟩ := bind_eq_some_iff.mp h
  split at h
  · rename_i requestId row hphase hcaller hrow
    refine ⟨t, requestId, row, ht, hphase, hcaller, hrow, ?_⟩
    split at h
    · rename_i snapshot row' hstore
      cases h
      exact .inr ⟨snapshot, row', stored_spec hstore, rfl⟩
    · cases h
      exact .inl rfl
  · cases h

theorem step_cancel {r : CancelResult} (h : s.cancel p r = some s') :
    ∃ t requestId, s.tasks.rows p = some t ∧ t.phase = .cancelling ∧ t.row.requestId = some requestId ∧
      ((∃ foreign, s.cancelOutcome requestId foreign = .cancelled ∧
          s' = (s.cancelled requestId).go p t (.move (.closing .cancelled))) ∨
        (∃ phase, (phase = .rereading ∨ phase = .reading) ∧ s' = (s.cancelled requestId).go p t (.move phase)) ∨
        ∃ s₁, (s₁ = s.cancelled requestId ∨ s₁ = s) ∧ s' = s₁.go p t (failed t s.now)) := by
  obtain ⟨t, ht, h⟩ := bind_eq_some_iff.mp h
  split at h
  · rename_i requestId hphase hid
    refine ⟨t, requestId, ht, hphase, hid, ?_⟩
    cases r with
    | answered foreign =>
      simp only at h
      split at h
      · rename_i hout
        cases h
        exact .inl ⟨foreign, hout, rfl⟩
      · cases h
        refine .inr (.inl ⟨_, ?_, rfl⟩)
        split
        · exact .inl rfl
        · exact .inr rfl
    | lost reached =>
      cases h
      cases reached with
      | true => exact .inr (.inr ⟨_, .inl rfl, rfl⟩)
      | false => exact .inr (.inr ⟨_, .inr rfl, rfl⟩)
  · cases h

theorem step_read {r : ReadResult} (h : s.read p r = some s') :
    ∃ t, s.tasks.rows p = some t ∧ (t.phase = .reading ∨ t.phase = .rereading) ∧
      ((∃ w, (w = wireOf (s.requests t.id) ∨ w = .unknown) ∧ s' = s.go p t (applyRequestState t s.now w)) ∨
        s' = s.go p t (failed t s.now)) := by
  obtain ⟨t, ht, h⟩ := bind_eq_some_iff.mp h
  split at h
  · rename_i hphase
    refine ⟨t, ht, hphase, ?_⟩
    cases r with
    | answered => cases h; exact .inl ⟨_, .inl rfl, rfl⟩
    | unknown => cases h; exact .inl ⟨_, .inr rfl, rfl⟩
    | lost => cases h; exact .inr rfl
  · cases h

theorem step_close (h : s.close p acked = some s') :
    ∃ t c row, s.tasks.rows p = some t ∧ t.phase.closes = some c ∧ s.rows.rows t.id = some row ∧
      s' = (s.setRow t.id (closed row c)).go p t
        (if acked then established t (closed row c).status else failed t s.now) := by
  obtain ⟨t, ht, h⟩ := bind_eq_some_iff.mp h
  split at h
  · rename_i c row hc hrow
    cases h
    exact ⟨t, c, row, ht, hc, hrow, rfl⟩
  · cases h

theorem step_settle {mayGrant : Bool} (h : s.settle p mayGrant acked = some s') :
    ∃ t row, s.tasks.rows p = some t ∧ t.phase = .settling ∧ s.rows.rows t.id = some row ∧
      ((row.status = .paid ∧ s' = s.go p t (if acked then established t .paid else failed t s.now)) ∨
        (row.status ≠ .paid ∧ ∃ record, record = recordOf s.product s.erased t.id row mayGrant ∧
          ((∃ pid, dispatchOf s.product record = some pid ∧
              s' = (s.settled t.id row record).setTask p { t with phase := .dispatching pid false }) ∨
            ∃ next, (next = established t .paid ∨ next = failed t s.now) ∧ s' = (s.settled t.id row record).go p t next))) := by
  obtain ⟨t, ht, h⟩ := bind_eq_some_iff.mp h
  split at h
  · rename_i row hphase hrow
    refine ⟨t, row, ht, hphase, hrow, ?_⟩
    split at h
    · rename_i hpaid
      cases h
      exact .inl ⟨hpaid, rfl⟩
    · rename_i hn
      refine .inr ⟨hn, _, rfl, ?_⟩
      cases acked with
      | false => cases h; exact .inr ⟨_, .inr rfl, rfl⟩
      | true =>
        cases hd : dispatchOf s.product (recordOf s.product s.erased t.id row mayGrant) with
        | none =>
          rw [hd] at h
          cases h
          exact .inr ⟨_, .inl rfl, rfl⟩
        | some pid =>
          rw [hd] at h
          cases h
          exact .inl ⟨pid, rfl, rfl⟩
  · cases h

theorem step_complete (h : s.complete p acked = some s') :
    ∃ t requestId row, s.tasks.rows p = some t ∧ t.phase = .completing ∧ s.rows.rows t.id = some row ∧
      (s' = s.go p t (.move (.answering .paid)) ∨
        ∃ k record, s.recordOfRow row = some (k, record) ∧ record.paymentIntentId = none ∧
          ((s.erased = false ∧ s.product.deleted = false ∧ dispatches s.product = true ∧
              s' = (s.completed k record requestId).setTask p { t with phase := .dispatching requestId true }) ∨
            ∃ next, (next = .move (.answering .paid) ∨ next = .stop) ∧ s' = (s.completed k record requestId).go p t next)) := by
  obtain ⟨t, ht, h⟩ := bind_eq_some_iff.mp h
  split at h
  · rename_i requestId row hphase _ hrow
    refine ⟨t, requestId, row, ht, hphase, hrow, ?_⟩
    split at h
    · rename_i k record hrec
      split at h
      · rename_i hnone
        refine .inr ⟨k, record, hrec, hnone, ?_⟩
        cases acked with
        | false => cases h; exact .inr ⟨_, .inr rfl, rfl⟩
        | true =>
          cases hd : (!s.erased && !s.product.deleted && dispatches s.product) with
          | false =>
            simp only [hd] at h
            cases h
            exact .inr ⟨_, .inl rfl, rfl⟩
          | true =>
            simp only [hd] at h
            cases h
            simp only [Bool.and_eq_true, Bool.not_eq_eq_eq_not, Bool.not_true] at hd
            exact .inl ⟨hd.1.1, hd.1.2, hd.2, rfl⟩
      · cases h; exact .inl rfl
    · cases h; exact .inl rfl
  · cases h

theorem step_dispatch (h : s.dispatch p = some s') :
    ∃ t pid done, s.tasks.rows p = some t ∧ t.phase = .dispatching pid done ∧
      s' = ({ s with dispatched := s.dispatched ++ [(t.id, pid)] } : State).go p t
        (if done then .move (.answering .paid) else established t .paid) := by
  obtain ⟨t, ht, h⟩ := bind_eq_some_iff.mp h
  split at h
  · rename_i pid done hphase
    cases h
    exact ⟨t, pid, done, ht, hphase, rfl⟩
  · cases h

theorem step_answer (h : s.answer p = some s') :
    ∃ t status, s.tasks.rows p = some t ∧ t.phase = .answering status ∧
      s' = { s.endTask p with answers := s.answers ++ [(t.id, status)] } := by
  obtain ⟨t, ht, h⟩ := bind_eq_some_iff.mp h
  split at h
  · rename_i status hphase
    cases h
    exact ⟨t, status, ht, hphase, rfl⟩
  · cases h

theorem step_fails (h : s.fails p = some s') : ∃ t, s.tasks.rows p = some t ∧ s' = s.go p t (failed t s.now) := by
  obtain ⟨t, ht, h⟩ := bind_eq_some_iff.mp h
  split at h
  · cases h; exact ⟨t, ht, rfl⟩
  · cases h

theorem step_insert {vendorToken : String} {amountCents waited : Nat}
    (h : s.insert o vendorToken amountCents waited acked = some s') :
    s' = { s with openings := s.openings.delete o } ∨
      ((s.rows.any fun _ row => row.status == .open_) = false ∧
        ∃ openings issuing, (openings = s.openings.set o (.issuing s.rows.next) ∧
          issuing = Function.update s.issuing s.rows.next true ∧
              (∃ x, s.openings.rows o = some x) ∨ openings = s.openings.delete o ∧ issuing = s.issuing) ∧
          s' = { s with rows := s.rows.insert (newRow s.now waited vendorToken amountCents), openings, issuing }) := by
  unfold State.insert at h
  split at h
  · rename_i ho
    split at h
    · cases h
    · split at h
      · cases h; exact .inl rfl
      · rename_i hnone
        refine .inr ⟨by simpa using hnone, ?_⟩
        split at h
        · cases h
          exact ⟨_, _, .inl ⟨rfl, rfl, _, ho⟩, rfl⟩
        · cases h
          exact ⟨_, s.issuing, .inr ⟨rfl, rfl⟩, rfl⟩
  · cases h

theorem step_issued {r : IssueResult} (h : s.issued o r = some s') :
    ∃ i, s.openings.rows o = some (.issuing i) ∧
      ((∃ req requestId, s.requests i = some req ∧ (requestId = some req.requestId ∨ requestId = none) ∧
          s' = { s with openings := s.openings.set o (.writing i req.uuid requestId) }) ∨
        (s.requests i = none ∧ s.issuing i = false ∧ s' = { s with openings := s.openings.set o (.releasing i) }) ∨
        ((∃ numeric, r = .core .none numeric) ∧ s' = { s with openings := s.openings.set o (.releasing i) }) ∨
        s' = { s with openings := s.openings.delete o }) := by
  unfold State.issued at h
  split at h
  · rename_i i ho
    refine ⟨i, ho, ?_⟩
    split at h
    · cases h; exact .inr (.inr (.inr rfl))
    · rename_i numeric
      obtain ⟨req, hreq, rfl⟩ := map_eq_some_iff.mp h
      refine .inl ⟨req, _, hreq, ?_, rfl⟩
      cases numeric with
      | true => exact .inl rfl
      | false => exact .inr rfl
    · split at h
      · rename_i hc
        cases h; exact .inr (.inl ⟨hc.1, hc.2, rfl⟩)
      · cases h
    · rename_i numeric
      cases h; exact .inr (.inr (.inl ⟨⟨numeric, rfl⟩, rfl⟩))
  · cases h

theorem step_write (h : s.write o = some s') :
    ∃ i uuid requestId row, s.openings.rows o = some (.writing i uuid requestId) ∧ s.rows.rows i = some row ∧
      s' = { s.setRow i { row with requestUuid := some uuid, requestId } with openings := s.openings.delete o } := by
  unfold State.write at h
  split at h
  · rename_i i uuid requestId ho
    obtain ⟨row, hrow, rfl⟩ := map_eq_some_iff.mp h
    exact ⟨i, uuid, requestId, row, ho, hrow, rfl⟩
  · cases h

theorem step_release (h : s.release o = some s') :
    ∃ i row, s.openings.rows o = some (.releasing i) ∧ s.rows.rows i = some row ∧
      s' = { s.setRow i (closed row .cancelled) with openings := s.openings.delete o } := by
  unfold State.release at h
  split at h
  · rename_i i ho
    obtain ⟨row, hrow, rfl⟩ := map_eq_some_iff.mp h
    exact ⟨i, row, ho, hrow, rfl⟩
  · cases h

theorem step_request {requestId uuid : String} (h : s.request i requestId uuid = some s') :
    ∃ row, s.requests i = none ∧ s.rows.rows i = some row ∧ s.issuing i = true ∧
      s.now < row.createdAt + CHECKOUT_ISSUE_WINDOW_MS ∧ s.byRequestId requestId = none ∧
      s' = ({ s with issuing := Function.update s.issuing i false } : State).setRequest i ⟨requestId, uuid,
        s.now, .open_⟩ := by
  unfold State.request at h
  split at h
  · rename_i row hreq hrow
    split at h
    · rename_i hc
      cases h
      exact ⟨row, hreq, hrow, hc.1, hc.2.1, hc.2.2, rfl⟩
    · cases h
  · cases h

/-- What a caller starts: nothing, its own attempt, or a task on the row it read. -/
theorem begin_cases {e : Event} {s' : State} (he : e = .beginOpening ∨ (∃ i, e = .beginReturn i) ∨
      (∃ i a b, e = .beginCallback i a b) ∨ ∃ i, e = .beginSweep i) (h : step s e = some s') :
    s' = s ∨ s' = { s with openings := s.openings.insert .deciding } ∨
      ∃ caller i row phase, s.rows.rows i = some row ∧ s' = s.start_ ⟨caller, i, row, phase⟩ ∧
        (caller = .sweep → pastMargin row s.now = true) ∧
        ((phase = .answering row.status) ∨ phase = .storing ∨
          ((phase = .cancelling ∧ truthy row.requestId = true ∨ phase = .reading) ∧
            (isBeingIssued row s.now = false ∨ pastMargin row s.now = true))) := by
  rcases he with rfl | ⟨i, rfl⟩ | ⟨i, a, b, rfl⟩ | ⟨i, rfl⟩
  · cases h
    unfold State.beginOpening
    split
    · exact .inr (.inl rfl)
    · rename_i i row hopen
      split
      · exact .inl rfl
      · rename_i hbeing
        obtain ⟨j, _, hj⟩ := exists_of_findSome?_eq_some hopen
        obtain ⟨r, hr, e⟩ := map_eq_some_iff.mp hj
        obtain ⟨hr, _⟩ := filter_eq_some_iff.mp hr
        cases e
        refine .inr (.inr ⟨_, i, row, _, hr, rfl, nofun, .inr (.inr ⟨?_, .inl (by simpa using hbeing)⟩)⟩)
        split
        · exact .inl ⟨rfl, ‹_›⟩
        · exact .inr rfl
  · cases h
    unfold State.beginReturn
    split
    · rename_i row hrow
      split
      · exact .inr (.inr ⟨_, i, row, _, hrow, rfl, nofun, .inl rfl⟩)
      · rename_i hc
        exact .inr (.inr ⟨_, i, row, _, hrow, rfl, nofun,
          .inr (.inr ⟨.inr rfl, .inl (by simpa using fun e => hc (.inr e))⟩)⟩)
    · exact .inl rfl
  · cases h
    unfold State.beginCallback
    split
    · rename_i row hrow
      split
      · exact .inr (.inr ⟨_, i, row, _, hrow, rfl, nofun, .inr (.inl rfl)⟩)
      · exact .inl rfl
    · exact .inl rfl
  · cases h
    unfold State.beginSweep
    split
    · rename_i row hrow
      split
      · rename_i hc
        exact .inr (.inr ⟨_, i, row, _, hrow, rfl, fun _ => hc.2, .inr (.inr ⟨.inr rfl, .inr hc.2⟩)⟩)
      · exact .inl rfl
    · exact .inl rfl

end Step

/-! ## The books along a run -/

structure Books (s : State) : Prop where
  accounts : Accounts s
  work : Work s

section BooksStep

variable {s s' : State} {p o i : Nat} {acked : Bool}

theorem Books.go (h : Books s) {t : Task} {next : Next} (hn : NextBooks s t next) : Books (s.go p t next) :=
  ⟨h.accounts.go p t next, h.work.go hn⟩

/-- A change that leaves the rows, the records and the tasks. -/
theorem Books.of_same (h : Books s) (hl : Later s s') (hrows : s'.rows = s.rows) (hrec : s'.records = s.records)
    (ht : s'.tasks = s.tasks) (hd : s'.dispatched = s.dispatched) (ha : s'.answers = s.answers)
    (htype : s'.product.type = s.product.type) (her : s.erased = true → s'.erased = true)
    (hdel : s.product.deleted = true → s'.product.deleted = true) : Books s' :=
  ⟨h.accounts.of_same hrows hrec htype her hdel, h.work.later hl ht hd ha⟩

theorem Books.setRow (h : Books s) (hr : s.rows.rows i = some row) (row' : Checkout) (ht : SameTimes row row')
    (hp : row'.status = .paid ↔ row.status = .paid) (hname : row'.purchaseRecordId = row.purchaseRecordId)
    (ho : row'.status = .open_ → row.status = .open_) : Later s (s.setRow i row') ∧ Books (s.setRow i row') :=
  have hl := later_setRow hr ht hp.mpr
  ⟨hl, h.accounts.setRow hr hp hname ho, h.work.later hl rfl rfl rfl⟩

theorem books_close_row (h : Books s) (hr : s.rows.rows i = some row) (c : ClosedStatus) :
    Later s (s.setRow i (closed row c)) ∧ Books (s.setRow i (closed row c)) := by
  refine h.setRow hr (closed row c) (closed_times row c) (closed_paid row c) ?_ fun e =>
    absurd e (closed_not_open row c)
  unfold closed
  split <;> rfl

theorem books_begin {t : Task} (h : Books s) (hb : TaskBooks s t) (hs : t.phase.sends = none) :
    Later s (s.start_ t) ∧ Books (s.start_ t) :=
  ⟨.of_same rfl rfl rfl (fun _ e => e) (Int.le_refl _), h.accounts.of_same rfl rfl rfl id id, h.work.begin hb hs⟩

theorem books_caller {e : Event} (he : e = .beginOpening ∨ (∃ i, e = .beginReturn i) ∨
      (∃ i a b, e = .beginCallback i a b) ∨ ∃ i, e = .beginSweep i) (h : Books s) (hs : step s e = some s') :
    Later s s' ∧ Books s' := by
  rcases begin_cases he hs with rfl | rfl | ⟨caller, i, row, phase, hrow, rfl, _, hphase⟩
  · exact ⟨.refl s', h⟩
  · have hl : Later s { s with openings := s.openings.insert .deciding } :=
      .of_same rfl rfl rfl (fun _ e => e) (Int.le_refl _)
    exact ⟨hl, h.of_same hl rfl rfl rfl rfl rfl rfl id id⟩
  · have hpaid : row.status = .paid → PaidRow s i := fun e => ⟨row, hrow, e⟩
    refine books_begin h ⟨⟨row, hrow⟩, fun e => hpaid (e.elim id fun x => ?_)⟩ ?_
    · rcases hphase with rfl | rfl | ⟨⟨rfl, _⟩ | rfl, _⟩
      · simpa [Phase.saysPaid] using x
      · cases x
      · cases x
      · cases x
    · rcases hphase with rfl | rfl | ⟨⟨rfl, _⟩ | rfl, _⟩ <;> rfl

theorem books_store (h : Books s) (he : s.store p acked = some s') : Later s s' ∧ Books s' := by
  obtain ⟨t, requestId, row, ht, _, _, hrow, rfl | ⟨snapshot, row', hst, rfl⟩⟩ := step_store he
  · exact ⟨.of_same rfl rfl rfl (fun _ e => e) (Int.le_refl _), h.accounts.of_same rfl rfl rfl id id,
      h.work.drop s.openings⟩
  · have hwrite : Later s (s.setRow t.id row') ∧ Books (s.setRow t.id row') := by
      rcases hst.row with ⟨rfl, _⟩ | ⟨_, _, _, rfl⟩
      · exact h.setRow hrow _ ⟨rfl, rfl⟩ Iff.rfl rfl id
      · exact h.setRow hrow _ ⟨rfl, rfl⟩ Iff.rfl rfl id
    have hb := (h.work.tasks p t ht).later hwrite.1
    refine ⟨hwrite.1.trans (.go ..), hwrite.2.go ?_⟩
    have hkeep : TaskBooks (s.setRow t.id row') { t with row := snapshot } :=
      ⟨hb.stored, fun e => hb.paid (e.imp_left fun x => hst.status ▸ x)⟩
    cases acked with
    | false => trivial
    | true =>
      by_cases hpaid : t.row.status = .paid
      · rw [if_pos hpaid]
        exact ⟨⟨hb.stored, fun _ => hb.paid (.inl hpaid)⟩, rfl⟩
      · rw [if_neg hpaid]
        exact hkeep.quiet rfl rfl

theorem books_cancelled (h : Books s) (requestId : String) : Books (s.cancelled requestId) := by
  have hl := later_cancelled s requestId
  have hdb : (s.cancelled requestId).rows = s.rows ∧ (s.cancelled requestId).records = s.records ∧
      (s.cancelled requestId).tasks = s.tasks ∧ (s.cancelled requestId).dispatched = s.dispatched ∧
      (s.cancelled requestId).answers = s.answers ∧ (s.cancelled requestId).product = s.product ∧
      (s.cancelled requestId).erased = s.erased := by
    unfold State.cancelled State.endRequest
    repeat' split
    all_goals exact ⟨rfl, rfl, rfl, rfl, rfl, rfl, rfl⟩
  obtain ⟨hrows, hrec, htasks, hd, ha, hprod, her⟩ := hdb
  exact h.of_same hl hrows hrec htasks hd ha (by rw [hprod]) (fun e => her ▸ e) (fun e => by rw [hprod]; exact e)

theorem books_cancel {r : CancelResult} (h : Books s) (he : s.cancel p r = some s') : Later s s' ∧ Books s' := by
  obtain ⟨t, requestId, ht, _, _, hcases⟩ := step_cancel he
  have hl := later_cancelled s requestId
  have hb := h.work.tasks p t ht
  have hc := books_cancelled h requestId
  rcases hcases with ⟨_, _, rfl⟩ | ⟨phase, hphase, rfl⟩ | ⟨s₁, rfl | rfl, rfl⟩
  · exact ⟨hl.trans (.go ..), hc.go ((hb.later hl).quiet rfl rfl)⟩
  · refine ⟨hl.trans (.go ..), hc.go ?_⟩
    rcases hphase with rfl | rfl
    · exact (hb.later hl).quiet rfl rfl
    · exact (hb.later hl).quiet rfl rfl
  · exact ⟨hl.trans (.go ..), hc.go (failed_books (hb.later hl) _)⟩
  · exact ⟨.go .., h.go (failed_books hb _)⟩

theorem books_read {r : ReadResult} (h : Books s) (he : s.read p r = some s') : Later s s' ∧ Books s' := by
  obtain ⟨t, ht, _, ⟨w, _, rfl⟩ | rfl⟩ := step_read he
  · exact ⟨.go .., h.go (apply_books (h.work.tasks p t ht) _ w)⟩
  · exact ⟨.go .., h.go (failed_books (h.work.tasks p t ht) _)⟩

theorem books_close (h : Books s) (he : s.close p acked = some s') : Later s s' ∧ Books s' := by
  obtain ⟨t, c, row, ht, _, hrow, rfl⟩ := step_close he
  obtain ⟨hl, hb⟩ := books_close_row h hrow c
  have htask := (h.work.tasks p t ht).later hl
  refine ⟨hl.trans (.go ..), hb.go ?_⟩
  cases acked with
  | false => exact failed_books htask _
  | true => exact established_books htask fun e => ⟨closed row c, by simp [State.setRow, Table.set], e⟩

theorem dispatchOf_spec {product : Product} {pid : String} (h : dispatchOf product record = some pid) :
    record.granted = true ∧ record.paymentIntentId = some pid := by
  unfold dispatchOf at h
  split at h
  · rename_i hc
    simp only [Bool.and_eq_true] at hc
    exact ⟨hc.1.1, (filter_eq_some_iff.mp h).1⟩
  · cases h

theorem books_settle {mayGrant : Bool} (h : Books s)
    (he : s.settle p mayGrant acked = some s') : Later s s' ∧ Books s' := by
  obtain ⟨t, row, ht, _, hrow, ⟨hpaid, rfl⟩ | ⟨hn, record, rfl, hcases⟩⟩ := step_settle he
  · have hb := h.work.tasks p t ht
    refine ⟨.go .., h.go ?_⟩
    cases acked with
    | false => exact failed_books hb _
    | true => exact established_books hb fun _ => ⟨row, hrow, hpaid⟩
  · have hl : Later s (s.settled t.id row (recordOf s.product s.erased t.id row mayGrant)) :=
      later_settled h.accounts hrow
    have hacc := h.accounts.settled mayGrant hrow hn
    have hwork : Work (s.settled t.id row (recordOf s.product s.erased t.id row mayGrant)) :=
      h.work.later hl rfl rfl rfl
    have hb := (h.work.tasks p t ht).later hl
    have hnow : PaidRow (s.settled t.id row (recordOf s.product s.erased t.id row mayGrant)) t.id :=
      ⟨{ row with status := .paid, purchaseRecordId := some s.records.next }, update_self .., rfl⟩
    rcases hcases with ⟨pid, hd, rfl⟩ | ⟨next, hnext, rfl⟩
    · refine ⟨hl.trans (.go _ p t (.move (.dispatching pid false))), hacc.go p t (.move (.dispatching pid false)), ?_⟩
      obtain ⟨hg, hpid⟩ := dispatchOf_spec hd
      refine h.work.owe hwork hb rfl rfl (fun x hx => ?_) ?_ hnow
      · -- a row not paid had no record
        obtain ⟨k, r, hk, hid, _⟩ := hx
        obtain ⟨row', hrow', hpaid', _⟩ := h.accounts.ofRow k r hk
        rw [hid, hrow] at hrow'
        cases hrow'
        exact hn hpaid'
      · exact ⟨s.records.next, recordOf s.product s.erased t.id row mayGrant, update_self .., rfl, hg, hpid⟩
    · refine ⟨hl.trans (.go ..), hacc.go .., hwork.go ?_⟩
      rcases hnext with rfl | rfl
      · exact established_books hb fun _ => hnow
      · exact failed_books hb _

theorem recordOfRow_spec (h : s.recordOfRow row = some (k, record)) :
    row.purchaseRecordId = some k ∧ s.records.rows k = some record := by
  obtain ⟨k', hk', h⟩ := bind_eq_some_iff.mp h
  obtain ⟨r, hr, e⟩ := map_eq_some_iff.mp h
  cases e
  exact ⟨hk', hr⟩

theorem granted_of_dispatches (h : Accounts s) (hk : s.records.rows k = some record)
    (her : s.erased = false) (hdel : s.product.deleted = false)
    (hd : dispatches s.product = true) : record.granted = true := by
  have hty : s.product.type = .balanceTopup := by
    simp only [dispatches, Bool.and_eq_true, beq_iff_eq] at hd
    exact hd.1
  cases hg : record.granted with
  | true => rfl
  | false =>
    rcases h.withheld k record hk hty hg with e | e
    · rw [her] at e
      cases e
    · rw [hdel] at e
      cases e

theorem books_complete (h : Books s) (he : s.complete p acked = some s') : Later s s' ∧ Books s' := by
  obtain ⟨t, requestId, row, ht, hphase, hrow, hcases⟩ := step_complete he
  have hb := h.work.tasks p t ht
  have hpaid : PaidRow s t.id := hb.paid (.inr (by rw [hphase]; rfl))
  have hpaidRow : row.status = .paid := by
    obtain ⟨x, hx, hxp⟩ := hpaid
    rw [hrow] at hx
    cases hx
    exact hxp
  have hanswer : ∀ {u : State}, Later s u → NextBooks u t (.move (.answering .paid)) := fun hl =>
    ⟨⟨(hb.later hl).stored, fun _ => hl.paidRow hpaid⟩, rfl⟩
  rcases hcases with rfl | ⟨k, record, hrec, hnone, hcases⟩
  · exact ⟨.go .., h.go (hanswer (.refl s))⟩
  · obtain ⟨hname, hk⟩ := recordOfRow_spec hrec
    have hl := later_completed hk hnone requestId
    have hacc := h.accounts.completed hk requestId
    have hwork : Work (s.completed k record requestId) := h.work.later hl rfl rfl rfl
    obtain ⟨k', r, hname', hk', hid⟩ := h.accounts.hasRecord t.id row hrow hpaidRow
    rw [hname] at hname'
    cases hname'
    rw [hk] at hk'
    obtain rfl := some.inj hk'
    rcases hcases with ⟨her, hdel, hd, rfl⟩ | ⟨next, hnext, rfl⟩
    · refine ⟨hl.trans (.go _ p t (.move (.dispatching requestId true))),
        hacc.go p t (.move (.dispatching requestId true)), ?_⟩
      refine h.work.owe hwork (hb.later hl) rfl rfl (fun x hx => ?_) ?_ (hl.paidRow hpaid)
      · -- the attempt's one record carried no id
        obtain ⟨k', r, hk', hid', _, hpid⟩ := hx
        obtain rfl := h.accounts.one hk' hk (hid'.trans hid.symm)
        rw [hk] at hk'
        cases hk'
        rw [hnone] at hpid
        cases hpid
      · have hg := granted_of_dispatches h.accounts hk her hdel hd
        exact ⟨k, { record with paymentIntentId := some requestId }, update_self .., hid, hg, rfl⟩
    · refine ⟨hl.trans (.go ..), hacc.go .., hwork.go ?_⟩
      rcases hnext with rfl | rfl
      · exact hanswer hl
      · trivial

theorem books_dispatch (h : Books s) (he : s.dispatch p = some s') : Later s s' ∧ Books s' := by
  obtain ⟨t, pid, done, ht, hphase, rfl⟩ := step_dispatch he
  have hb := h.work.tasks p t ht
  have hpaid : PaidRow s t.id := hb.paid (.inr (by rw [hphase]; rfl))
  have hl : Later s { s with dispatched := s.dispatched ++ [(t.id, pid)] } :=
    .of_same rfl rfl rfl (fun _ e => e) (Int.le_refl _)
  have hnext : NextBooks s t (if done then .move (.answering .paid) else established t .paid) := by
    cases done with
    | true => exact ⟨⟨hb.stored, fun _ => hpaid⟩, rfl⟩
    | false => exact established_books hb fun _ => hpaid
  have hacc : Accounts { s with dispatched := s.dispatched ++ [(t.id, pid)] } := h.accounts.of_same rfl rfl rfl id id
  exact ⟨hl.trans (.go ..), hacc.go .., h.work.dispatch ht (by rw [hphase]; rfl) hnext⟩

theorem books_answer (h : Books s) (he : s.answer p = some s') : Later s s' ∧ Books s' := by
  obtain ⟨t, status, ht, hphase, rfl⟩ := step_answer he
  have hb := h.work.tasks p t ht
  have hw := h.work.drop (p := p) s.openings
  refine ⟨.of_same rfl rfl rfl (fun _ e => e) (Int.le_refl _), h.accounts.of_same rfl rfl rfl id id, ?_⟩
  refine ⟨fun k x hk => ?_, hw.sending, hw.oneSender, hw.sent, hw.sentOnce, fun i hm => ?_⟩
  · exact (hw.tasks k x hk).later (.of_same rfl rfl rfl (fun _ e => e) (Int.le_refl _))
  rcases mem_append.mp hm with hold | hnew
  · exact h.work.answered i hold
  · obtain ⟨rfl, rfl⟩ := Prod.mk.inj (mem_singleton.mp hnew)
    exact hb.paid (.inr (by rw [hphase]; rfl))

theorem books_insert {vendorToken : String} {amountCents waited : Nat} (h : Books s)
    (he : s.insert o vendorToken amountCents waited acked = some s') : Later s s' ∧ Books s' := by
  rcases step_insert he with rfl | ⟨hnone, openings, issuing, hiss, rfl⟩
  · have hl : Later s { s with openings := s.openings.delete o } := .of_same rfl rfl rfl (fun _ e => e) (Int.le_refl _)
    exact ⟨hl, h.of_same hl rfl rfl rfl rfl rfl rfl id id⟩
  · have hother : ∀ i r, s.rows.rows i = some r → i ≠ s.rows.next := fun i r hr => Nat.ne_of_lt (h.accounts.rowsWf i r hr)
    have hkeep : ∀ i r, s.rows.rows i = some r → (s.rows.insert (newRow s.now waited vendorToken amountCents)).rows i = some r := by
      intro i r hr
      simpa [Table.insert, hother i r hr] using hr
    have hl : Later s { s with rows := s.rows.insert (newRow s.now waited vendorToken amountCents), openings, issuing } := by
      refine ⟨Int.le_refl _, fun i r hr => ⟨r, hkeep i r hr, ⟨rfl, rfl⟩, id⟩, fun _ _ e => e, fun i r hr hlive => ?_, fun _ _ e => e⟩
      refine live_of_live { s with rows := s.rows.insert (newRow s.now waited vendorToken amountCents), openings, issuing }
        rfl (fun e => ?_) (Int.le_refl _) hr (hkeep i r hr) ⟨rfl, rfl⟩ hlive
      rcases hiss with ⟨_, rfl, _⟩ | ⟨_, rfl⟩
      · simpa [hother i r hr] using e
      · exact e
    refine ⟨hl, h.accounts.insert rfl (fun i r hr e => ?_) rfl rfl rfl rfl, h.work.later hl rfl rfl rfl⟩
    have hany : (s.rows.any fun _ row => row.status == .open_) = true :=
      (Table.any_eq_true h.accounts.rowsWf).mpr ⟨i, r, hr, by simpa using e⟩
    rw [hany] at hnone
    cases hnone

theorem books_openings (h : Books s)
    (openings : Table Opening) : Later s { s with openings } ∧ Books { s with openings } := by
  have hl : Later s { s with openings } := .of_same rfl rfl rfl (fun _ e => e) (Int.le_refl _)
  exact ⟨hl, h.of_same hl rfl rfl rfl rfl rfl rfl id id⟩

theorem books_issued {r : IssueResult} (h : Books s) (he : s.issued o r = some s') : Later s s' ∧ Books s' := by
  obtain ⟨i, _, ⟨_, _, _, _, rfl⟩ | ⟨_, _, rfl⟩ | ⟨_, rfl⟩ | rfl⟩ := step_issued he
  all_goals exact books_openings h _

theorem books_write (h : Books s) (he : s.write o = some s') : Later s s' ∧ Books s' := by
  obtain ⟨i, uuid, requestId, row, _, hrow, rfl⟩ := step_write he
  obtain ⟨hl, hb⟩ := h.setRow hrow { row with requestUuid := some uuid, requestId } ⟨rfl, rfl⟩ Iff.rfl rfl id
  obtain ⟨hl', hb'⟩ := books_openings hb (s.openings.delete o)
  exact ⟨hl.trans hl', hb'⟩

theorem books_release (h : Books s) (he : s.release o = some s') : Later s s' ∧ Books s' := by
  obtain ⟨i, row, _, hrow, rfl⟩ := step_release he
  obtain ⟨hl, hb⟩ := books_close_row h hrow .cancelled
  obtain ⟨hl', hb'⟩ := books_openings hb (s.openings.delete o)
  exact ⟨hl.trans hl', hb'⟩

theorem books_request {requestId uuid : String} (h : Books s) (he : s.request i requestId uuid = some s') :
    Later s s' ∧ Books s' := by
  obtain ⟨row, hnone, hrow, hiss, hin, _, rfl⟩ := step_request he
  have hl : Later s (({ s with issuing := Function.update s.issuing i false } : State).setRequest i
      ⟨requestId, uuid, s.now, .open_⟩) := by
    refine ⟨Int.le_refl _, fun j r hr => ⟨r, hr, ⟨rfl, rfl⟩, id⟩, fun j x ho => ?_, fun j r hr hlive => ?_,
      fun _ _ e => e⟩
    · obtain ⟨q, hq, hx⟩ := ho
      have hne : j ≠ i := fun e => by rw [e, hnone] at hq; cases hq
      exact ⟨q, by simpa [State.setRequest, hne] using hq, hx⟩
    · by_cases e : j = i
      · -- the call was still to take effect
        subst e
        simp only [State.live, hnone, hiss, hrow, any_some, Bool.true_and, decide_eq_true_eq]
        exact hin
      · refine live_of_live (({ s with issuing := Function.update s.issuing i false } : State).setRequest i _) ?_ ?_
          (Int.le_refl _) hr hr ⟨rfl, rfl⟩ hlive
        · simp [State.setRequest, e]
        · simp [State.setRequest, e]
  exact ⟨hl, h.of_same hl rfl rfl rfl rfl rfl rfl id id⟩

theorem books_endRequest (h : Books s) : Later s (s.endRequest i) ∧ Books (s.endRequest i) := by
  have hl := later_endRequest s i
  refine ⟨hl, ?_⟩
  unfold State.endRequest at hl ⊢
  split
  · rename_i r hr
    split
    · exact h.of_same (later_setRequest hr rfl nofun) rfl rfl rfl rfl rfl rfl id id
    · exact h
  · exact h

theorem books_ended {r r' : Request} (h : Books s) (hr : s.requests i = some r) (hid : r'.requestId = r.requestId)
    (hs : r'.state ≠ .open_) : Later s (s.setRequest i r') ∧ Books (s.setRequest i r') := by
  have hl : Later s (s.setRequest i r') := later_setRequest hr hid fun e => absurd e hs
  exact ⟨hl, h.of_same hl rfl rfl rfl rfl rfl rfl id id⟩

theorem books_step {e : Event} (h : Books s) (he : step s e = some s') : Later s s' ∧ Books s' := by
  cases e with
  | tick ms =>
    cases he
    have hl : Later s { s with now := s.now + ms } :=
      .of_same rfl rfl rfl (fun _ e => e) (show s.now ≤ s.now + ms by omega)
    exact ⟨hl, h.of_same hl rfl rfl rfl rfl rfl rfl id id⟩
  | erase =>
    cases he
    have hl : Later s { s with erased := true } := .of_same rfl rfl rfl (fun _ e => e) (Int.le_refl _)
    exact ⟨hl, h.of_same hl rfl rfl rfl rfl rfl rfl (fun _ => rfl) id⟩
  | deleteProduct =>
    cases he
    have hl : Later s { s with product := { s.product with deleted := true } } :=
      .of_same rfl rfl rfl (fun _ e => e) (Int.le_refl _)
    exact ⟨hl, h.of_same hl rfl rfl rfl rfl rfl rfl id (fun _ => rfl)⟩
  | configure webhook =>
    cases he
    have hl : Later s { s with product := { s.product with webhook } } :=
      .of_same rfl rfl rfl (fun _ e => e) (Int.le_refl _)
    exact ⟨hl, h.of_same hl rfl rfl rfl rfl rfl rfl id id⟩
  | beginOpening => exact books_caller (.inl rfl) h he
  | beginReturn i => exact books_caller (.inr (.inl ⟨i, rfl⟩)) h he
  | beginCallback i a b => exact books_caller (.inr (.inr (.inl ⟨i, a, b, rfl⟩))) h he
  | beginSweep i => exact books_caller (.inr (.inr (.inr ⟨i, rfl⟩))) h he
  | store p acked => exact books_store h he
  | cancel p r => exact books_cancel h he
  | read p r => exact books_read h he
  | close p acked => exact books_close h he
  | settle p mayGrant acked => exact books_settle h he
  | complete p acked => exact books_complete h he
  | dispatch p => exact books_dispatch h he
  | answer p => exact books_answer h he
  | fails p =>
    obtain ⟨t, ht, rfl⟩ := step_fails he
    exact ⟨.go .., h.go (failed_books (h.work.tasks p t ht) _)⟩
  | crash p =>
    obtain ⟨t, _, rfl⟩ := map_eq_some_iff.mp he
    exact ⟨.go s p t .stop, h.accounts.go p t .stop, h.work.drop s.openings⟩
  | insert o vendorToken amountCents waited acked => exact books_insert h he
  | request i requestId uuid => exact books_request h he
  | drop i =>
    cases he
    have hl : Later s { s with issuing := Function.update s.issuing i false } := by
      refine .of_same rfl rfl rfl (fun j e => ?_) (Int.le_refl _)
      by_cases hj : j = i
      · subst hj
        simp at e
      · simpa [hj] using e
    exact ⟨hl, h.of_same hl rfl rfl rfl rfl rfl rfl id id⟩
  | issued o r => exact books_issued h he
  | write o => exact books_write h he
  | release o => exact books_release h he
  | crashOpening o =>
    obtain ⟨_, _, rfl⟩ := map_eq_some_iff.mp he
    exact books_openings h _
  | pay i =>
    obtain ⟨r, hr, he⟩ := bind_eq_some_iff.mp he
    split at he
    · cases he; exact books_ended h hr rfl nofun
    · cases he
  | decline i =>
    obtain ⟨r, hr, he⟩ := bind_eq_some_iff.mp he
    split at he
    · cases he; exact books_ended h hr rfl nofun
    · cases he
  | end_ i => cases he; exact books_endRequest h

theorem books_start (h : start s) : Books s := by
  obtain ⟨hrows, hrec, htasks, _, _, hd, ha⟩ := h
  refine ⟨⟨?_, ?_, ?_, ?_, ?_, ?_⟩, ⟨?_, ?_, ?_, ?_, ?_, ?_⟩⟩
  · rw [hrows]; intro i r hr; cases hr
  · rw [hrec]; intro i r hr; cases hr
  · rw [hrows]; intro i j ri rj hi; cases hi
  · rw [hrows]; intro i r hr; cases hr
  · rw [hrec]; intro k r hr; cases hr
  · rw [hrec]; intro k r hr; cases hr
  · rw [htasks]; intro p t ht; cases ht
  · rw [htasks]; intro p t pid ht; cases ht
  · rw [htasks]; intro p p' t t' a b ht; cases ht
  · rw [hd]; intro i pid hm; cases hm
  · rw [hd]; exact nodup_nil
  · rw [ha]; intro i hm; cases hm

/-- The books hold on every run. -/
theorem books (h : machine.Reach s) : Books s :=
  h.invariant (I := Books) (fun _ h0 => books_start h0) fun _ _ _ hb he => (books_step hb he).2

end BooksStep

end Canari.Associations.ProductCheckout
