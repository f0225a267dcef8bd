/-
  Canari.Associations.RefundOnce — a payment is never refunded past its amount.

  What every run keeps (`Ledger`): one pending row, the live amounts within the amount
  paid, one call per row, one withdrawal; a request that holds its call lock and still asks
  Lydia stands on the row its claim wrote, and a declaration past its checks on a row whose
  call is over on paper.

  The rest needs the call to be over in fact. `sweepAbandoned` waits for the bound, but
  `askLydia` writes `no-answer` the moment the answer is lost: a connection reset while
  Lydia still works makes the row checkable, a manager truthfully declares nothing
  refunded, and the next refund overtakes the first
  (`a_reset_answer_refunds_twice`). And `record` takes a failed read of the association's
  name, made after the refund was committed, for a failed recording
  (`a_recorded_refund_reads_unrecorded`). Without these two steps (`Ok`) the payment is safe on every
  run (`refunds_stay_within_the_payment`).
-/

import Canari.Associations.Refunds

namespace Canari.Associations.Refunds

open Lib List Option

/-! ## What every run keeps -/

def Phase.asking : Phase → Bool
  | .claimed | .stamped | .calling | .answered _ => true
  | _ => false

def Phase.unsent : Phase → Bool
  | .claimed | .stamped => true
  | _ => false

/-- The stored row is the one the claim wrote, stamped since or not, and Lydia is being asked. -/
def Held (s : State) (q : Request) : Prop :=
  ∃ r, s.rows.rows q.id = some r ∧ r.asked ∧ { q.row with calledAt := r.calledAt } = r

structure Asking (s : State) (q : Request) : Prop where
  stored : ∃ r, s.rows.rows q.id = some r ∧ r.amountCents = q.row.amountCents
  held : q.holds = true → q.phase.asking = true → Held s q
  unsent : q.phase.unsent = true → s.calls q.id = []
  -- a stamped row can lose its question to a sweep only past the bound
  stamped : q.phase = .stamped →
    ∃ r t, s.rows.rows q.id = some r ∧ r.calledAt = some t ∧ (r.asked ∨ t + REFUND_CALL_BOUND_MS < s.now)

structure Ledger (s : State) : Prop where
  rowsWf : s.rows.Wf
  requestsWf : s.requests.Wf
  onePending : ∀ i j ri rj, s.rows.rows i = some ri → s.rows.rows j = some rj →
    ri.status = .pending → rj.status = .pending → i = j
  fits : s.rows.sum liveCents ≤ s.record.amountCents
  called : ∀ i, s.calls i = [] ∨ ∃ c r, s.calls i = [c] ∧ s.rows.rows i = some r ∧ r.amountCents = c.amountCents
  withdrawn : s.withdrawals = [] ∨ (∃ i, s.withdrawals = [i]) ∧ s.record.status = .refunded
  asking : ∀ p q, s.requests.rows p = some q → Asking s q
  soleAsker : ∀ p p' q q', s.requests.rows p = some q → s.requests.rows p' = some q' → q.id = q'.id → p = p'
  checked : ∀ d x, s.declarations.rows d = some x → ∃ r, s.rows.rows x.id = some r ∧ ¬ r.asked

/-- How a write may change a row: its amount stays, and nothing brings its question or its share back. -/
structure Written (r r' : LydiaRefund) : Prop where
  amount : r'.amountCents = r.amountCents
  live : liveCents r' ≤ liveCents r
  pending : r'.status = .pending → r.status = .pending
  asked : r'.asked → r.asked

section Ledger

variable {s : State}

theorem Asking.mono {s' : State} {q : Request} (h : Asking s q) (hr : s'.rows.rows q.id = s.rows.rows q.id)
    (hc : s'.calls q.id = s.calls q.id) (hn : s.now ≤ s'.now) : Asking s' q where
  stored := by rw [hr]; exact h.stored
  held hh hp := by
    obtain ⟨r, hrow, hrest⟩ := h.held hh hp
    exact ⟨r, hr.trans hrow, hrest⟩
  unsent hp := hc.trans (h.unsent hp)
  stamped hp := by
    obtain ⟨r, t, hrow, ht, ha⟩ := h.stamped hp
    refine ⟨r, t, hr.trans hrow, ht, ha.imp_right fun hb => ?_⟩
    omega

/-- A request that no longer asks claims nothing of the row but its amount. -/
theorem Asking.rest {q q' : Request} (h : Asking s q) (hid : q'.id = q.id) (hrow : q'.row = q.row)
    (hp : q'.phase.asking = false) : Asking s q' where
  stored := by rw [hid, hrow]; exact h.stored
  held _ ha := by rw [hp] at ha; cases ha
  unsent hu := by cases e : q'.phase <;> rw [e] at hp hu <;> cases hp <;> cases hu
  stamped e := by rw [e] at hp; cases hp

theorem Ledger.setRequest (h : Ledger s) {p : Nat} {q q' : Request} (hq : s.requests.rows p = some q)
    (hid : q'.id = q.id)
    (ha : Asking s q') : Ledger (s.setRequest p q') where
  rowsWf := h.rowsWf
  requestsWf := Table.wf_set h.requestsWf hq q'
  onePending := h.onePending
  fits := h.fits
  called := h.called
  withdrawn := h.withdrawn
  asking k x hk := by
    rcases update_eq_some_iff.mp hk with ⟨_, rfl⟩ | ⟨_, hx⟩
    · exact ha.mono rfl rfl (Int.le_refl _)
    · exact (h.asking k x hx).mono rfl rfl (Int.le_refl _)
  soleAsker k k' x x' hk hk' e := by
    rcases update_eq_some_iff.mp hk with ⟨rfl, rfl⟩ | ⟨_, hx⟩
    · rcases update_eq_some_iff.mp hk' with ⟨rfl, _⟩ | ⟨_, hx'⟩
      · rfl
      · exact h.soleAsker _ _ _ _ hq hx' (hid.symm.trans e)
    · rcases update_eq_some_iff.mp hk' with ⟨rfl, rfl⟩ | ⟨_, hx'⟩
      · exact h.soleAsker _ _ _ _ hx hq (e.trans hid)
      · exact h.soleAsker _ _ _ _ hx hx' e
  checked := h.checked

theorem Ledger.setRow (h : Ledger s) {i : Nat} {r r' : LydiaRefund} (hr : s.rows.rows i = some r) (hw : Written r r')
    (ha : ∀ p q, s.requests.rows p = some q → q.id = i → Asking (s.setRow i r') q) : Ledger (s.setRow i r') where
  rowsWf := Table.wf_set h.rowsWf hr r'
  requestsWf := h.requestsWf
  onePending j k rj rk hj hk pj pk := by
    rcases update_eq_some_iff.mp hj with ⟨rfl, rfl⟩ | ⟨_, oj⟩
    · rcases update_eq_some_iff.mp hk with ⟨rfl, _⟩ | ⟨_, ok⟩
      · rfl
      · exact h.onePending _ _ _ _ hr ok (hw.pending pj) pk
    · rcases update_eq_some_iff.mp hk with ⟨rfl, rfl⟩ | ⟨_, ok⟩
      · exact h.onePending _ _ _ _ oj hr pj (hw.pending pk)
      · exact h.onePending _ _ _ _ oj ok pj pk
  fits := Nat.le_trans (Table.sum_set_le hr hw.live) h.fits
  called j := by
    rcases h.called j with hc | ⟨c, x, hc, hx, hamount⟩
    · exact .inl hc
    · by_cases e : j = i
      · subst e
        rw [hr] at hx
        cases hx
        exact .inr ⟨c, r', hc, by simp [State.setRow, Table.set], hw.amount.trans hamount⟩
      · exact .inr ⟨c, x, hc, by simpa [State.setRow, Table.set, e] using hx, hamount⟩
  withdrawn := h.withdrawn
  asking p q hq := by
    by_cases e : q.id = i
    · exact ha p q hq e
    · exact (h.asking p q hq).mono (by simp [State.setRow, Table.set, e]) rfl (Int.le_refl _)
  soleAsker := h.soleAsker
  checked d x hx := by
    obtain ⟨y, hy, hn⟩ := h.checked d x hx
    by_cases e : x.id = i
    · rw [e, hr] at hy
      cases hy
      exact ⟨r', by simp [State.setRow, Table.set, e], fun ha => hn (hw.asked ha)⟩
    · exact ⟨y, by simpa [State.setRow, Table.set, e] using hy, hn⟩

/-- A row no request still asks about may be written. -/
theorem Ledger.setRow_over (h : Ledger s) {i : Nat} {r r' : LydiaRefund} (hr : s.rows.rows i = some r)
    (hw : Written r r')
    (ht : r'.calledAt = r.calledAt)
    (ho : ∀ p q, s.requests.rows p = some q → q.id = i → q.holds = true → q.phase.asking = false)
    (hs : ∀ p q, s.requests.rows p = some q → q.id = i → q.phase = .stamped → callOver s.now r = true) :
    Ledger (s.setRow i r') := by
  refine h.setRow hr hw fun p q hq hid => ?_
  have hrow : (s.setRow i r').rows.rows q.id = some r' := by simp [State.setRow, Table.set, hid]
  have ha := h.asking p q hq
  refine ⟨?_, ?_, ha.unsent, ?_⟩
  · obtain ⟨x, hx, hamount⟩ := ha.stored
    rw [hid, hr] at hx
    cases hx
    exact ⟨r', hrow, hw.amount.trans hamount⟩
  · intro hh hp
    rw [ho p q hq hid hh] at hp
    cases hp
  · intro hp
    obtain ⟨x, t, hx, hxt, _⟩ := ha.stamped hp
    rw [hid, hr] at hx
    cases hx
    refine ⟨r', t, hrow, ht.trans hxt, .inr ?_⟩
    have hover := hs p q hq hid hp
    simp only [callOver, hxt, decide_eq_true_eq] at hover
    show t + REFUND_CALL_BOUND_MS < s.now
    omega

theorem Ledger.congr {s' : State} (h : Ledger s) (hrows : s'.rows = s.rows) (hreq : s'.requests = s.requests)
    (hcalls : s'.calls = s.calls) (hnow : s.now ≤ s'.now) (hpaid : s'.record.amountCents = s.record.amountCents)
    (hw : s'.withdrawals = [] ∨ (∃ i, s'.withdrawals = [i]) ∧ s'.record.status = .refunded)
    (hdecl : ∀ d x, s'.declarations.rows d = some x → ∃ r, s.rows.rows x.id = some r ∧ ¬ r.asked) : Ledger s' where
  rowsWf := hrows ▸ h.rowsWf
  requestsWf := hreq ▸ h.requestsWf
  onePending := hrows ▸ h.onePending
  fits := by rw [hrows, hpaid]; exact h.fits
  called := by rw [hrows, hcalls]; exact h.called
  withdrawn := hw
  asking p q hq := (h.asking p q (hreq ▸ hq)).mono (by rw [hrows]) (by rw [hcalls]) hnow
  soleAsker := hreq ▸ h.soleAsker
  checked := by rw [hrows]; exact hdecl

theorem Ledger.setCalls (h : Ledger s) {i : Nat} {c : Call} {r : LydiaRefund} (hr : s.rows.rows i = some r)
    (hamount : r.amountCents = c.amountCents)
    (hu : ∀ p q, s.requests.rows p = some q → q.id = i → q.phase.unsent = false) : Ledger (s.setCalls i [c]) where
  rowsWf := h.rowsWf
  requestsWf := h.requestsWf
  onePending := h.onePending
  fits := h.fits
  called j := by
    by_cases e : j = i
    · subst e
      exact .inr ⟨c, r, by simp [State.setCalls], hr, hamount⟩
    · have hj : (s.setCalls i [c]).calls j = s.calls j := by simp [State.setCalls, e]
      rw [hj]
      exact h.called j
  withdrawn := h.withdrawn
  asking p q hq := by
    have ha := h.asking p q hq
    refine ⟨ha.stored, ha.held, fun hp => ?_, ha.stamped⟩
    by_cases e : q.id = i
    · rw [hu p q hq e] at hp
      cases hp
    · have hj : (s.setCalls i [c]).calls q.id = s.calls q.id := by simp [State.setCalls, e]
      rw [hj]
      exact ha.unsent hp
  soleAsker := h.soleAsker
  checked := h.checked

/-- Past the serial there is no row, and so no call. -/
theorem Ledger.fresh (h : Ledger s) : s.rows.rows s.rows.next = none ∧ s.calls s.rows.next = [] := by
  have hnone : s.rows.rows s.rows.next = none := by
    cases e : s.rows.rows s.rows.next with
    | none => rfl
    | some r => exact absurd (h.rowsWf _ r e) (Nat.lt_irrefl _)
  refine ⟨hnone, ?_⟩
  rcases h.called s.rows.next with hc | ⟨c, r, _, hr, _⟩
  · exact hc
  · rw [hnone] at hr
    cases hr

/-- The claim: a pending row where none was pending, within what is left of the payment. -/
theorem Ledger.claim (h : Ledger s) {row : LydiaRefund} {phase : Phase} {holds : Bool} (hp : row.asked)
    (hphase : phase = .claimed ∨ phase = .over) (hnone : ∀ i r, s.rows.rows i = some r → r.status ≠ .pending)
    (hfits : s.rows.sum liveCents + row.amountCents ≤ s.record.amountCents) :
    Ledger { s with rows := s.rows.insert row, requests := s.requests.insert ⟨s.rows.next, row, phase, holds⟩ } where
  rowsWf := Table.wf_insert h.rowsWf row
  requestsWf := Table.wf_insert h.requestsWf _
  onePending i j ri rj hi hj pi pj := by
    rcases update_eq_some_iff.mp hi with ⟨ei, _⟩ | ⟨_, oi⟩
    · rcases update_eq_some_iff.mp hj with ⟨ej, _⟩ | ⟨_, oj⟩
      · omega
      · exact absurd pj (hnone j rj oj)
    · exact absurd pi (hnone i ri oi)
  fits := by
    have hlive : liveCents row = row.amountCents := by simp [liveCents, hp.1]
    show (s.rows.insert row).sum liveCents ≤ s.record.amountCents
    rw [Table.sum_insert, hlive]
    exact hfits
  called i := by
    rcases h.called i with hc | ⟨c, r, hc, hr, hamount⟩
    · exact .inl hc
    · have hne : i ≠ s.rows.next := Nat.ne_of_lt (h.rowsWf i r hr)
      exact .inr ⟨c, r, hc, by simpa [Table.insert, hne] using hr, hamount⟩
  withdrawn := h.withdrawn
  asking p q hq := by
    rcases update_eq_some_iff.mp hq with ⟨_, rfl⟩ | ⟨_, hold⟩
    · have hrow : (s.rows.insert row).rows s.rows.next = some row := by simp [Table.insert]
      refine ⟨⟨row, hrow, rfl⟩, fun _ _ => ⟨row, hrow, hp, rfl⟩, fun _ => h.fresh.2, fun e => ?_⟩
      rcases hphase with e' | e' <;> rw [e'] at e <;> cases e
    · have ha := h.asking p q hold
      obtain ⟨r, hr, _⟩ := ha.stored
      have hne : q.id ≠ s.rows.next := Nat.ne_of_lt (h.rowsWf _ r hr)
      exact ha.mono (by simp [Table.insert, hne]) rfl (Int.le_refl _)
  soleAsker p p' q q' hq hq' e := by
    have hid : ∀ k x, s.requests.rows k = some x → x.id ≠ s.rows.next := fun k x hk => by
      obtain ⟨r, hr, _⟩ := (h.asking k x hk).stored
      exact Nat.ne_of_lt (h.rowsWf _ r hr)
    rcases update_eq_some_iff.mp hq with ⟨ep, rfl⟩ | ⟨_, hold⟩
    · rcases update_eq_some_iff.mp hq' with ⟨ep', _⟩ | ⟨_, hold'⟩
      · exact ep.trans ep'.symm
      · exact absurd e.symm (hid p' q' hold')
    · rcases update_eq_some_iff.mp hq' with ⟨_, rfl⟩ | ⟨_, hold'⟩
      · exact absurd e (hid p q hold)
      · exact h.soleAsker _ _ _ _ hold hold' e
  checked d x hx := by
    obtain ⟨r, hr, hn⟩ := h.checked d x hx
    have hne : x.id ≠ s.rows.next := Nat.ne_of_lt (h.rowsWf _ r hr)
    exact ⟨r, by simpa [Table.insert, hne] using hr, hn⟩

end Ledger

/-! ## What each function writes -/

variable {rows : Table LydiaRefund}

theorem ownRow_spec {key : String} {i : Nat} {own : LydiaRefund}
    (h : ownRow rows key = some (i, own)) : rows.rows i = some own := by
  obtain ⟨j, _, hj⟩ := exists_of_findSome?_eq_some h
  obtain ⟨r, hr, e⟩ := map_eq_some_iff.mp hj
  obtain ⟨hr, _⟩ := filter_eq_some_iff.mp hr
  cases e
  exact hr

variable {input : RefundInput} {record : PurchaseRecord} {asker : Asker} {now : Int}

theorem claim_replay
    {i : Nat} {own : LydiaRefund} (h : claim record rows now asker input = .ok (.replay i own)) :
    rows.rows i = some own := by
  unfold claim at h
  split at h
  · cases h
  · split at h
    · rename_i j x hown
      cases h
      exact ownRow_spec hown
    · split at h
      · cases h
      · split at h
        · cases h
        · cases h
        · split at h <;> cases h

variable {row : LydiaRefund}

theorem claim_row (hwf : rows.Wf) (h : claim record rows now asker input = .ok (.row row)) :
    row.asked ∧ (∀ i r, rows.rows i = some r → r.status ≠ .pending) ∧
      rows.sum liveCents + row.amountCents ≤ record.amountCents := by
  unfold claim at h
  split at h
  · cases h
  · split at h
    · cases h
    · split at h
      · cases h
      · rename_i hpending
        split at h
        · cases h
        · cases h
        · split at h
          · cases h
          · rename_i hcap
            cases h
            refine ⟨⟨rfl, rfl⟩, fun i r hr hp => hpending ?_, ?_⟩
            · exact (Table.any_eq_true hwf).mpr ⟨i, r, hr, by simpa using hp⟩
            · have hle := fun hgt => hcap (.inr hgt)
              exact Nat.le_of_not_lt hle

/-- What `settle` leaves of a row it read: nothing asks, and only a refusal lowers its share. -/
theorem settle_written (record : PurchaseRecord) (row : LydiaRefund) (now : Int) (o : CallOutcome) (by_ : Option String)
    (revoked : Bool) : Written row (settle record row now o by_ revoked).row ∧
      (settle record row now o by_ revoked).row.calledAt = row.calledAt ∧
      ¬ (settle record row now o by_ revoked).row.asked := by
  unfold settle
  split
  · rename_i hstatus
    -- a settled row only takes a late outcome
    split
    · exact ⟨⟨rfl, Nat.le_refl _, id, fun h => absurd h.1 hstatus⟩, rfl, fun h => hstatus h.1⟩
    · exact ⟨⟨rfl, Nat.le_refl _, id, fun h => absurd h.1 hstatus⟩, rfl, fun h => hstatus h.1⟩
    · exact ⟨⟨rfl, Nat.le_refl _, id, id⟩, rfl, fun h => hstatus h.1⟩
  · rename_i hstatus
    have hpending : row.status = .pending := not_not.mp hstatus
    have hlive : liveCents row = row.amountCents := by simp [liveCents, hpending]
    cases o with
    | noAnswer => exact ⟨⟨rfl, Nat.le_refl _, id, fun h => (nomatch h.2)⟩, rfl, fun h => (nomatch h.2)⟩
    | refused o =>
      cases by_ with
      | none => exact ⟨⟨rfl, Nat.zero_le _, fun _ => hpending, fun h => (nomatch h.1)⟩, rfl, fun h => (nomatch h.1)⟩
      | some b => exact ⟨⟨rfl, Nat.zero_le _, fun _ => hpending, fun h => (nomatch h.1)⟩, rfl, fun h => (nomatch h.1)⟩
    | confirmed =>
      cases hk : row.kind with
      | partial_ =>
        cases by_ with
        | none =>
          exact ⟨⟨rfl, Nat.le_of_eq hlive.symm, fun _ => hpending, fun h => (nomatch h.1)⟩, rfl, fun h => (nomatch h.1)⟩
        | some b =>
          exact ⟨⟨rfl, Nat.le_of_eq hlive.symm, fun _ => hpending, fun h => (nomatch h.1)⟩, rfl, fun h => (nomatch h.1)⟩
      | total =>
        cases by_ with
        | none =>
          exact ⟨⟨rfl, Nat.le_of_eq hlive.symm, fun _ => hpending, fun h => (nomatch h.1)⟩, rfl, fun h => (nomatch h.1)⟩
        | some b =>
          exact ⟨⟨rfl, Nat.le_of_eq hlive.symm, fun _ => hpending, fun h => (nomatch h.1)⟩, rfl, fun h => (nomatch h.1)⟩

variable {revoked : Bool}

theorem settle_withdrew {o : CallOutcome} {by_ : Option String}
    (h : (settle record row now o by_ revoked).withdrew = true) : record.status.received = true := by
  unfold settle at h
  split at h
  · split at h <;> cases h
  · cases o with
    | noAnswer => cases h
    | refused o => cases h
    | confirmed =>
      cases hk : row.kind with
      | partial_ => simp [hk] at h
      | total =>
        cases hrec : record.status.received with
        | true => rfl
        | false => simp [hk, withdraw, hrec] at h

theorem settle_refused {o : CallOutcome} {by_ : Option String}
    (h : (settle record row now o by_ revoked).row.status = .refused) :
    row.status = .refused ∨ ∃ a, o = .refused a := by
  unfold settle at h
  split at h
  · split at h <;> exact .inl h
  · rename_i hstatus
    have hpending : row.status = .pending := not_not.mp hstatus
    cases o with
    | noAnswer =>
      have h' : row.status = .refused := h
      rw [hpending] at h'
      cases h'
    | refused a => exact .inr ⟨a, rfl⟩
    | confirmed => cases hk : row.kind <;> cases by_ <;> simp [hk, settledRow] at h

/-! ## What each step does -/

section Step

variable {s s' : State} {p i k d : Nat}

theorem step_stamp {acked : Bool} (h : step s (.stamp p acked) = some s') :
    ∃ q row, s.requests.rows p = some q ∧ q.phase = .claimed ∧ q.holds = true ∧ s.rows.rows q.id = some row ∧
      s' = (s.setRow q.id { row with calledAt := some s.now }).setRequest p
        { q with phase := if acked then .stamped else .over, holds := acked } := by
  simp only [step] at h
  split at h
  · rename_i q hq
    split at h
    · rename_i hc
      split at h
      · rename_i row hrow
        cases h
        exact ⟨q, row, hq, hc.1, hc.2, hrow, rfl⟩
      · cases h
    · cases h
  · cases h

theorem step_send (h : step s (.send p) = some s') :
    ∃ q row t, s.requests.rows p = some q ∧ q.phase = .stamped ∧ s.rows.rows q.id = some row ∧ row.calledAt = some t ∧
      s.now ≤ t + REFUND_CALL_BOUND_MS ∧
      s' = (s.setRequest p { q with phase := .calling }).setCalls q.id
        (s.calls q.id ++ [⟨t, q.row.amountCents, .running⟩]) := by
  simp only [step] at h
  split at h
  · rename_i q hq
    split at h
    · rename_i hp
      split at h
      · rename_i t ht
        obtain ⟨row, hrow, hcalled⟩ := bind_eq_some_iff.mp ht
        split at h
        · rename_i hb
          cases h
          exact ⟨q, row, t, hq, hp, hrow, hcalled, hb, rfl⟩
        · cases h
      · cases h
    · cases h
  · cases h

theorem step_finish {gave : Bool} (h : step s (.finish i k gave) = some s') :
    ∃ c, (s.calls i)[k]? = some c ∧ c.state = .running ∧
      s' = s.setCalls i ((s.calls i).set k { c with state := if gave then .gave else .refused }) := by
  simp only [step] at h
  split at h
  · rename_i c hc
    split at h
    · rename_i hrun
      cases h
      exact ⟨c, hc, hrun, rfl⟩
    · cases h
  · cases h

theorem step_answer {a : CoreAnswer} (h : step s (.answer p a) = some s') :
    ∃ q, s.requests.rows p = some q ∧ q.phase = .calling ∧ saidBy (askLydia a) (s.calls q.id) = true ∧
      s' = s.setRequest p { q with phase := .answered (askLydia a) } := by
  simp only [step] at h
  split at h
  · rename_i q hq
    split at h
    · rename_i hc
      cases h
      exact ⟨q, hq, hc.1, hc.2, rfl⟩
    · cases h
  · cases h

theorem step_settle {after : After} (h : step s (.settle p revoked after) = some s') :
    ∃ q o row r b, s.requests.rows p = some q ∧ q.phase = .answered o ∧ q.holds = true ∧ s.rows.rows q.id = some row ∧
      r = settle s.record row s.now o none revoked ∧
      s' = bif b then ((s.setRequest p (settledPhase q r after).1).commit q.id r).show_ q.id (toView q.id r.row)
        else (s.setRequest p (settledPhase q r after).1).commit q.id r := by
  simp only [step] at h
  split at h
  · rename_i q hq
    split at h
    · rename_i o row hphase hholds hrow
      refine ⟨q, o, row, _, (settledPhase q (settle s.record row s.now o none revoked) after).2, hq, hphase, hholds,
        hrow, rfl, ?_⟩
      rw [answerOf_refund] at h
      rw [← some.inj h]
      cases (settledPhase q (settle s.record row s.now o none revoked) after).2 <;> rfl
    · cases h
  · cases h

theorem step_mark {acked : Bool} (h : step s (.mark p acked) = some s') :
    ∃ q row, s.requests.rows p = some q ∧ s.rows.rows q.id = some row ∧ q.phase = .marking ∧ q.holds = true ∧
      s' = bif acked then ((s.setRequest p { q with phase := .over, holds := acked }).setRow q.id
        (marked row s.now)).show_ q.id
          (toView q.id { q.row with outcome := some .refundedUnrecorded, answeredAt := some s.now })
        else (s.setRequest p { q with phase := .over, holds := acked }).setRow q.id (marked row s.now) := by
  simp only [step] at h
  split at h
  · rename_i q hq
    split at h
    · rename_i row hrow
      split at h
      · rename_i hc
        refine ⟨q, row, hq, hrow, hc.1, hc.2, ?_⟩
        rw [answerOf_refund] at h
        rw [← some.inj h]
        cases acked <;> rfl
      · cases h
    · cases h
  · cases h

/-- The steps that move a request and nothing else: towards its end, or off its lock. -/
theorem step_request {e : Event} (he : e = .fails p ∨ e = .loseConnection p ∨ e = .crash p ∨ e = .unlock p)
    (h : step s e = some s') :
    ∃ q q', s.requests.rows p = some q ∧ s' = s.setRequest p q' ∧ q'.id = q.id ∧ q'.row = q.row ∧
      (q'.holds = true → q.holds = true) ∧
      (q'.phase = q.phase ∨ q'.phase = .over ∨ (q'.phase = .marking ∧ q.phase = .answered .confirmed)) := by
  rcases he with rfl | rfl | rfl | rfl
  · simp only [step] at h
    split at h
    · rename_i q hq
      obtain ⟨phase, hphase, rfl⟩ := map_eq_some_iff.mp h
      refine ⟨q, _, hq, rfl, rfl, rfl, id, .inr ?_⟩
      unfold thrown at hphase
      split at hphase
      · cases hphase; exact .inl rfl
      · rename_i hp
        cases hphase; exact .inr ⟨rfl, hp⟩
      · cases hphase; exact .inl rfl
      · cases hphase; exact .inl rfl
      · cases hphase
    · cases h
  · obtain ⟨q, hq, rfl⟩ := map_eq_some_iff.mp h
    exact ⟨q, _, hq, rfl, rfl, rfl, fun hh => (nomatch hh), .inl rfl⟩
  · obtain ⟨q, hq, rfl⟩ := map_eq_some_iff.mp h
    exact ⟨q, _, hq, rfl, rfl, rfl, fun hh => (nomatch hh), .inr (.inl rfl)⟩
  · simp only [step] at h
    split at h
    · rename_i q hq
      split at h
      · cases h
        exact ⟨q, _, hq, rfl, rfl, rfl, fun hh => (nomatch hh), .inl rfl⟩
      · cases h
    · cases h

theorem step_sweep (h : step s (.sweep i) = some s') :
    s' = s ∨ ∃ row, s.rows.rows i = some row ∧ row.asked ∧ callOver s.now row = true ∧ s.lockFree i = true ∧
      s' = s.setRow i { row with outcome := some .noAnswer } := by
  simp only [step] at h
  split at h
  · rename_i row hrow
    split at h
    · rename_i hc
      cases h
      exact .inr ⟨row, hrow, hc.1, hc.2.1, hc.2.2, rfl⟩
    · cases h; exact .inl rfl
  · cases h; exact .inl rfl

theorem step_resolve {a actor : String} {refunded : Bool} (h : step s (.resolve i a actor refunded) = some s') :
    s' = s ∨ ∃ row, s.rows.rows i = some row ∧ ¬ row.asked ∧
      s' = { s with
        declarations := s.declarations.insert ⟨i, actor, refunded⟩
        truthful := s.truthful && refunded == s.gave i } := by
  simp only [step] at h
  split at h
  · rename_i row hrow
    split at h
    · cases h; exact .inl rfl
    · split at h
      · rename_i hres
        cases h
        refine .inr ⟨row, hrow, fun ha => ?_, rfl⟩
        simp [resolvable, ha.1, ha.2] at hres
      · cases h; exact .inl rfl
  · cases h; exact .inl rfl

theorem step_declare {after : After} (h : step s (.declare d revoked after) = some s') :
    ∃ x row r b, s.declarations.rows d = some x ∧ s.rows.rows x.id = some row ∧
      r = settle s.record row s.now (declared x.refunded) (some x.actorId) revoked ∧
      s' = bif b then (({ s with declarations := s.declarations.delete d } : State).commit x.id r).show_ x.id
        (toView x.id r.row)
        else ({ s with declarations := s.declarations.delete d } : State).commit x.id r := by
  simp only [step] at h
  split at h
  · rename_i x hx
    split at h
    · rename_i row hrow
      refine ⟨x, row, _, decide (after = .answered ∨ (after = .nameReadFails ∧
        ¬ namesPayer (settle s.record row s.now (declared x.refunded) (some x.actorId) revoked) = true)), hx,
          hrow, rfl, ?_⟩
      rw [← some.inj h, Bool.cond_decide]
    · cases h
  · cases h

theorem step_refund {acked : Bool} (h : step s (.refund asker input acked) = some s') :
    s' = s ∨ (∃ i own, s.rows.rows i = some own ∧ s' = s.show_ i (toView i own)) ∨
      ∃ row, claim s.record s.rows s.now asker input = .ok (.row row) ∧
        s' = { s with
          rows := s.rows.insert row
          requests := s.requests.insert ⟨s.rows.next, row, if acked then .claimed else .over, acked⟩ } := by
  simp only [step] at h
  split at h
  · cases h; exact .inl rfl
  · split at h
    · cases h; exact .inl rfl
    · rename_i i own hc
      cases h
      exact .inr (.inl ⟨i, own, claim_replay hc, rfl⟩)
    · rename_i row hc
      cases h
      exact .inr (.inr ⟨row, hc, rfl⟩)

end Step

/-! ## The ledger along a run -/

section LedgerStep

variable {s s' : State} {p i k d : Nat}

theorem ledger_show {v : RefundView} (h : Ledger s) : Ledger (s.show_ i v) :=
  h.congr rfl rfl rfl (Int.le_refl _) rfl h.withdrawn h.checked

theorem ledger_show_if {b : Bool} {v : RefundView} (h : Ledger s) : Ledger (bif b then s.show_ i v else s) := by
  cases b with
  | true => exact ledger_show h
  | false => exact h

theorem ledger_commit {r : Settled} (h : Ledger (s.setRow i r.row))
    (hw : r.withdrew = true → s.record.status.received = true) : Ledger (s.commit i r) := by
  refine h.congr rfl rfl rfl (Int.le_refl _) ?_ ?_ h.checked
  · show (if r.withdrew then { s.record with status := .refunded } else s.record).amountCents = _
    split <;> rfl
  · cases hr : r.withdrew with
    | false =>
      have hold : s.withdrawals = [] ∨ (∃ i, s.withdrawals = [i]) ∧ s.record.status = .refunded := h.withdrawn
      simpa [State.commit, hr] using hold
    | true =>
      -- a record still held has seen no withdrawal
      rcases h.withdrawn with hnil | ⟨_, hrefunded⟩
      · exact .inr ⟨⟨i, by simpa [State.commit, State.setRow, hr] using hnil⟩, by simp [State.commit, hr]⟩
      · have hrec := hw hr
        rw [show s.record.status = .refunded from hrefunded] at hrec
        cases hrec

theorem ledger_tick {ms : Nat} (h : Ledger s) : Ledger { s with now := s.now + ms } :=
  h.congr rfl rfl rfl (show s.now ≤ s.now + ms by omega) rfl h.withdrawn h.checked

theorem ledger_regrant {status : PurchaseStatus} (h : Ledger s) (hr : s.record.status.received = true) :
    Ledger { s with record := { s.record with status } } := by
  refine h.congr rfl rfl rfl (Int.le_refl _) rfl ?_ h.checked
  rcases h.withdrawn with hnil | ⟨_, hrefunded⟩
  · exact .inl hnil
  · rw [hrefunded] at hr
    cases hr

theorem ledger_refund {acked : Bool} (h : Ledger s)
    (he : step s (.refund asker input acked) = some s') : Ledger s' := by
  rcases step_refund he with rfl | ⟨i, own, _, rfl⟩ | ⟨row, hc, rfl⟩
  · exact h
  · exact ledger_show h
  · obtain ⟨hasked, hnone, hfits⟩ := claim_row h.rowsWf hc
    exact h.claim hasked (by cases acked <;> simp) hnone hfits

theorem ledger_stamp {acked : Bool} (h : Ledger s) (he : step s (.stamp p acked) = some s') : Ledger s' := by
  obtain ⟨q, row, hq, hp, hh, hrow, rfl⟩ := step_stamp he
  have ha := h.asking p q hq
  obtain ⟨r, hr, hasked, hlike⟩ := ha.held hh (by rw [hp]; rfl)
  rw [hrow] at hr
  cases hr
  have hnew : (s.setRow q.id { row with calledAt := some s.now }).rows.rows q.id = some { row with calledAt := some s.now } := by
    simp [State.setRow, Table.set]
  have hheld : Held (s.setRow q.id { row with calledAt := some s.now }) q :=
    ⟨_, hnew, hasked, by rw [← hlike]⟩
  have hstored : ∃ r, (s.setRow q.id { row with calledAt := some s.now }).rows.rows q.id = some r ∧
      r.amountCents = q.row.amountCents := ⟨_, hnew, by rw [← hlike]⟩
  have hwrite : Ledger (s.setRow q.id { row with calledAt := some s.now }) := by
    refine h.setRow hrow ⟨rfl, Nat.le_refl _, id, id⟩ fun k x hk hid => ?_
    -- the row's only request is the one that stamps it
    obtain rfl := h.soleAsker k p x q hk hq hid
    rw [hq] at hk
    cases hk
    exact ⟨hstored, fun _ _ => hheld, ha.unsent, fun e => by rw [hp] at e; cases e⟩
  refine hwrite.setRequest hq rfl ?_
  cases acked with
  | false => exact (hwrite.asking p q hq).rest rfl rfl rfl
  | true =>
    exact ⟨hstored, fun _ _ => hheld, fun _ => ha.unsent (by rw [hp]; rfl), fun _ => ⟨_, s.now, hnew, rfl, .inl hasked⟩⟩

theorem ledger_send (h : Ledger s) (he : step s (.send p) = some s') : Ledger s' := by
  obtain ⟨q, row, t, hq, hp, hrow, ht, _, rfl⟩ := step_send he
  have ha := h.asking p q hq
  have hcalls : s.calls q.id = [] := ha.unsent (by rw [hp]; rfl)
  have hmoved : Ledger (s.setRequest p { q with phase := .calling }) :=
    h.setRequest hq rfl ⟨ha.stored, fun hh _ => ha.held hh (by rw [hp]; rfl), nofun, nofun⟩
  obtain ⟨r, hr, hamount⟩ := ha.stored
  rw [hcalls]
  refine hmoved.setCalls hr hamount fun k x hk hid => ?_
  rcases update_eq_some_iff.mp hk with ⟨_, rfl⟩ | ⟨hne, hx⟩
  · rfl
  · exact absurd (h.soleAsker k p x q hx hq hid) hne

theorem Ledger.call_eq (h : Ledger s) {c : Call} (hc : (s.calls i)[k]? = some c) :
    k = 0 ∧ s.calls i = [c] ∧ (∃ r, s.rows.rows i = some r ∧ r.amountCents = c.amountCents) ∧
      ∀ p q, s.requests.rows p = some q → q.id = i → q.phase.unsent = false := by
  rcases h.called i with hnil | ⟨c', r, hone, hr, hamount⟩
  · rw [hnil] at hc
    cases hc
  · rw [hone] at hc
    obtain ⟨hk, rfl⟩ : k = 0 ∧ c' = c := by
      cases k with
      | zero => exact ⟨rfl, some.inj hc⟩
      | succ n => cases hc
    refine ⟨hk, hone, ⟨r, hr, hamount⟩, fun p q hq hid => ?_⟩
    cases hu : q.phase.unsent with
    | false => rfl
    | true =>
      have hnil := (h.asking p q hq).unsent hu
      rw [hid, hone] at hnil
      cases hnil

theorem ledger_finish {gave : Bool} (h : Ledger s) (he : step s (.finish i k gave) = some s') : Ledger s' := by
  obtain ⟨c, hc, _, rfl⟩ := step_finish he
  obtain ⟨rfl, hone, ⟨r, hr, hamount⟩, hsent⟩ := h.call_eq hc
  rw [hone]
  exact h.setCalls hr hamount hsent

theorem ledger_answer {a : CoreAnswer} (h : Ledger s) (he : step s (.answer p a) = some s') : Ledger s' := by
  obtain ⟨q, hq, hp, _, rfl⟩ := step_answer he
  have ha := h.asking p q hq
  exact h.setRequest hq rfl ⟨ha.stored, fun hh _ => ha.held hh (by rw [hp]; rfl), nofun, nofun⟩

theorem ledger_request {e : Event} (h : Ledger s)
    (hk : e = .fails p ∨ e = .loseConnection p ∨ e = .crash p ∨ e = .unlock p)
    (he : step s e = some s') : Ledger s' := by
  obtain ⟨q, q', hq, rfl, hid, hrow, hholds, hphase⟩ := step_request hk he
  have ha := h.asking p q hq
  refine h.setRequest hq hid ?_
  rcases hphase with hphase | hphase | ⟨hphase, _⟩
  · refine ⟨by rw [hid, hrow]; exact ha.stored, fun hh hp => ?_, fun hu => ?_, fun hs => ?_⟩
    · have hheld := ha.held (hholds hh) (hphase ▸ hp)
      unfold Held
      rw [hid, hrow]
      exact hheld
    · rw [hid]; exact ha.unsent (hphase ▸ hu)
    · rw [hid]; exact ha.stamped (hphase ▸ hs)
  · exact ha.rest hid hrow (by rw [hphase]; rfl)
  · exact ha.rest hid hrow (by rw [hphase]; rfl)

theorem settledPhase_spec (q : Request) (r : Settled) (after : After) :
    (settledPhase q r after).1.id = q.id ∧ (settledPhase q r after).1.row = q.row ∧
      (settledPhase q r after).1.phase.asking = false := by
  cases after with
  | answered => exact ⟨rfl, rfl, rfl⟩
  | lost => exact ⟨rfl, rfl, rfl⟩
  | nameReadFails =>
    unfold settledPhase
    cases namesPayer r with
    | true => exact ⟨rfl, rfl, rfl⟩
    | false => exact ⟨rfl, rfl, rfl⟩

theorem ledger_ownRow {q q' : Request} {row r' : LydiaRefund} (h : Ledger s) (hq : s.requests.rows p = some q)
    (hid : q'.id = q.id) (hsame : q'.row = q.row) (hover : q'.phase.asking = false) (hrow : s.rows.rows q.id = some row)
    (hw : Written row r') (ht : r'.calledAt = row.calledAt) : Ledger ((s.setRequest p q').setRow q.id r') := by
  have hmoved : Ledger (s.setRequest p q') := h.setRequest hq hid ((h.asking p q hq).rest hid hsame hover)
  have hown : ∀ k x, (s.setRequest p q').requests.rows k = some x → x.id = q.id → x.phase.asking = false := by
    intro k x hk hx
    rcases update_eq_some_iff.mp hk with ⟨_, rfl⟩ | ⟨hne, hold⟩
    · exact hover
    · exact absurd (h.soleAsker k p x q hold hq hx) hne
  refine hmoved.setRow_over hrow hw ht (fun k x hk hx _ => hown k x hk hx) fun k x hk hx hs => ?_
  have hno := hown k x hk hx
  rw [hs] at hno
  cases hno

theorem ledger_settle {after : After} (h : Ledger s) (he : step s (.settle p revoked after) = some s') :
    Ledger s' := by
  obtain ⟨q, o, row, r, b, hq, hp, hh, hrow, rfl, rfl⟩ := step_settle he
  obtain ⟨hid, hsame, hover⟩ := settledPhase_spec q (settle s.record row s.now o none revoked) after
  obtain ⟨hw, ht, _⟩ := settle_written s.record row s.now o none revoked
  exact ledger_show_if (ledger_commit (ledger_ownRow h hq hid hsame hover hrow hw ht) settle_withdrew)

theorem marked_written (row : LydiaRefund)
    (now : Int) : Written row (marked row now) ∧ (marked row now).calledAt = row.calledAt := by
  unfold marked
  split
  · exact ⟨⟨rfl, Nat.le_refl _, id, fun h => (nomatch h.2)⟩, rfl⟩
  · exact ⟨⟨rfl, Nat.le_refl _, id, id⟩, rfl⟩

theorem ledger_mark {acked : Bool} (h : Ledger s) (he : step s (.mark p acked) = some s') : Ledger s' := by
  obtain ⟨q, row, hq, hrow, _, _, rfl⟩ := step_mark he
  obtain ⟨hw, ht⟩ := marked_written row s.now
  exact ledger_show_if (ledger_ownRow h hq rfl rfl rfl hrow hw ht)

theorem lockFree_spec (h : s.requests.Wf) (hf : s.lockFree i = true) {q : Request} (hq : s.requests.rows p = some q)
    (hid : q.id = i) : q.holds = false := by
  cases hh : q.holds with
  | false => rfl
  | true =>
    have hany : (s.requests.any fun _ q => q.id == i && q.holds) = true :=
      (Table.any_eq_true h).mpr ⟨p, q, hq, by simp [hid, hh]⟩
    simp [State.lockFree, hany] at hf

theorem ledger_sweep (h : Ledger s) (he : step s (.sweep i) = some s') : Ledger s' := by
  rcases step_sweep he with rfl | ⟨row, hrow, hasked, hover, hfree, rfl⟩
  · exact h
  · refine h.setRow_over hrow ⟨rfl, Nat.le_refl _, id, fun e => (nomatch e.2)⟩ rfl (fun k x hk hx hh => ?_)
      fun _ _ _ _ _ => hover
    rw [lockFree_spec h.requestsWf hfree hk hx] at hh
    cases hh

theorem ledger_resolve {a actor : String} {refunded : Bool} (h : Ledger s)
    (he : step s (.resolve i a actor refunded) = some s') : Ledger s' := by
  rcases step_resolve he with rfl | ⟨row, hrow, hn, rfl⟩
  · exact h
  · refine h.congr rfl rfl rfl (Int.le_refl _) rfl h.withdrawn fun d x hd => ?_
    rcases update_eq_some_iff.mp hd with ⟨_, rfl⟩ | ⟨_, hx⟩
    · exact ⟨row, hrow, hn⟩
    · exact h.checked d x hx

theorem Ledger.over_of_not_asked (h : Ledger s) (hrow : s.rows.rows i = some row) (hn : ¬ row.asked)
    {q : Request} (hq : s.requests.rows p = some q) (hid : q.id = i)
    (hh : q.holds = true) : q.phase.asking = false := by
  cases hp : q.phase.asking with
  | false => rfl
  | true =>
    obtain ⟨r, hr, hasked, _⟩ := (h.asking p q hq).held hh hp
    rw [hid, hrow] at hr
    cases hr
    exact absurd hasked hn

theorem ledger_declare {after : After} (h : Ledger s) (he : step s (.declare d revoked after) = some s') :
    Ledger s' := by
  obtain ⟨x, row, r, b, hx, hrow, rfl, rfl⟩ := step_declare he
  have hdropped : Ledger { s with declarations := s.declarations.delete d } := by
    refine h.congr rfl rfl rfl (Int.le_refl _) rfl h.withdrawn fun k y hk => ?_
    exact h.checked k y (update_none_eq_some_iff.mp hk).2
  obtain ⟨y, hy, hn⟩ := h.checked d x hx
  rw [hrow] at hy
  obtain rfl := some.inj hy
  obtain ⟨hw, ht, _⟩ := settle_written s.record row s.now (declared x.refunded) (some x.actorId) revoked
  refine ledger_show_if (ledger_commit (hdropped.setRow_over hrow hw ht ?_ ?_) settle_withdrew)
  · intro k q hq hid hh
    exact h.over_of_not_asked hrow hn hq hid hh
  · intro k q hq hid hs
    -- a stamped row stopped asking only past the bound
    obtain ⟨y, t, hy, hyt, ha⟩ := (h.asking k q hq).stamped hs
    rw [hid, hrow] at hy
    cases hy
    have hpast := ha.resolve_left hn
    simp only [callOver, hyt, decide_eq_true_eq]
    show t < s.now - REFUND_CALL_BOUND_MS
    omega

theorem ledger_step {e : Event} (h : Ledger s) (he : step s e = some s') : Ledger s' := by
  cases e with
  | tick ms =>
    simp only [step] at he
    split at he
    · cases he; exact ledger_tick h
    · cases he
  | regrant status =>
    simp only [step] at he
    split at he
    · rename_i hr
      cases he; exact ledger_regrant h hr.1
    · cases he
  | retrace trace => cases he; exact h.congr rfl rfl rfl (Int.le_refl _) rfl h.withdrawn h.checked
  | refund asker input acked => exact ledger_refund h he
  | stamp p acked => exact ledger_stamp h he
  | send p => exact ledger_send h he
  | finish i k gave => exact ledger_finish h he
  | answer p a => exact ledger_answer h he
  | settle p revoked after => exact ledger_settle h he
  | mark p acked => exact ledger_mark h he
  | fails p => exact ledger_request h (.inl rfl) he
  | loseConnection p => exact ledger_request h (.inr (.inl rfl)) he
  | crash p => exact ledger_request h (.inr (.inr (.inl rfl))) he
  | unlock p => exact ledger_request h (.inr (.inr (.inr rfl))) he
  | sweep i => exact ledger_sweep h he
  | resolve i a actor refunded => exact ledger_resolve h he
  | declare d revoked after => exact ledger_declare h he

theorem ledger_start (h : start s) : Ledger s := by
  obtain ⟨hrows, hreq, hdecl, hcalls, hw, _, _⟩ := h
  constructor
  case rowsWf => rw [hrows]; intro i r hr; cases hr
  case requestsWf => rw [hreq]; intro i r hr; cases hr
  case onePending => rw [hrows]; intro i j ri rj hi; cases hi
  case fits => rw [hrows]; exact Nat.zero_le _
  case called => rw [hcalls]; exact fun i => .inl rfl
  case withdrawn => exact .inl hw
  case asking => rw [hreq]; intro p q hq; cases hq
  case soleAsker => rw [hreq]; intro p p' q q' hq; cases hq
  case checked => rw [hdecl]; intro d x hx; cases hx

/-- The ledger holds on every run, the two defective steps included. -/
theorem ledger (h : machine.Reach s) : Ledger s :=
  h.invariant (I := Ledger) (fun _ h0 => ledger_start h0) fun _ _ _ hl he => ledger_step hl he

end LedgerStep

/-! ## What holds while an answer given up is a call over -/

/-- What a request past its call may say: an answer of a call that is over. -/
structure Spoken (s : State) (q : Request) : Prop where
  answered : ∀ o, q.phase = .answered o → (∀ c ∈ s.calls q.id, c.state ≠ .running) ∧ saidBy o (s.calls q.id) = true
  marking : q.phase = .marking → s.gave q.id = true ∧ (q.holds = true → Held s q)

/-- An answer is given up only once the call is over at the provider, and the name read after a commit succeeds. -/
def Ok (s : State) : Event → Bool
  | .answer p a =>
    askLydia a ≠ .noAnswer ||
      match s.requests.rows p with
      | some q => (s.calls q.id).all fun c => c.state ≠ .running
      | none => true
  | .settle _ _ after => after ≠ .nameReadFails
  | _ => true

structure Timely (s : State) : Prop where
  running : ∀ i c, c ∈ s.calls i → c.state = .running →
    ∃ r, s.rows.rows i = some r ∧ r.asked ∧ r.calledAt = some c.calledAt ∧ s.now ≤ c.calledAt + REFUND_CALL_BOUND_MS
  spoken : ∀ p q, s.requests.rows p = some q → Spoken s q
  kept : s.truthful = true → ∀ i r, s.rows.rows i = some r → s.gave i = true → r.status ≠ .refused
  notGiven : s.truthful = true → ∀ d x, s.declarations.rows d = some x → x.refunded = false → s.gave x.id = false
  shown : ∀ v w, (v, w) ∈ s.shown → w = some v

section Timely

variable {s s' : State} {p i k d : Nat}

theorem Spoken.mono {q : Request} (h : Spoken s q) (hr : s'.rows.rows q.id = s.rows.rows q.id)
    (hc : s'.calls q.id = s.calls q.id) : Spoken s' q where
  answered o ho := by rw [hc]; exact h.answered o ho
  marking hm := by
    obtain ⟨hgave, hheld⟩ := h.marking hm
    refine ⟨by unfold State.gave; rw [hc]; exact hgave, fun hh => ?_⟩
    obtain ⟨r, hrow, hrest⟩ := hheld hh
    exact ⟨r, hr.trans hrow, hrest⟩

/-- A request that has said nothing, or is done. -/
theorem Spoken.silent {q : Request} (hp : ∀ o, q.phase ≠ .answered o) (hm : q.phase ≠ .marking) : Spoken s q :=
  ⟨fun o ho => absurd ho (hp o), fun e => absurd e hm⟩

theorem Timely.setRequest (h : Timely s) {q' : Request} (hs : Spoken s q') : Timely (s.setRequest p q') where
  running := h.running
  spoken k x hk := by
    rcases update_eq_some_iff.mp hk with ⟨_, rfl⟩ | ⟨_, hx⟩
    · exact hs.mono rfl rfl
    · exact (h.spoken k x hx).mono rfl rfl
  kept := h.kept
  notGiven := h.notGiven
  shown := h.shown

theorem Timely.setRow (h : Timely s) {r' : LydiaRefund} (hquiet : ∀ c ∈ s.calls i, c.state ≠ .running)
    (hkept : s.truthful = true → s.gave i = true → r'.status ≠ .refused)
    (hs : ∀ p q, s.requests.rows p = some q → q.id = i → Spoken (s.setRow i r') q) : Timely (s.setRow i r') where
  running j c hc hrun := by
    by_cases e : j = i
    · subst e
      exact absurd hrun (hquiet c hc)
    · obtain ⟨r, hr, hrest⟩ := h.running j c hc hrun
      exact ⟨r, by simpa [State.setRow, Table.set, e] using hr, hrest⟩
  spoken k q hq := by
    by_cases e : q.id = i
    · exact hs k q hq e
    · exact (h.spoken k q hq).mono (by simp [State.setRow, Table.set, e]) rfl
  kept ht j r hj hg := by
    rcases update_eq_some_iff.mp hj with ⟨rfl, rfl⟩ | ⟨_, hold⟩
    · exact hkept ht hg
    · exact h.kept ht j r hold hg
  notGiven := h.notGiven
  shown := h.shown

theorem Timely.congr (h : Timely s) (hrows : s'.rows = s.rows) (hreq : s'.requests = s.requests)
    (hcalls : s'.calls = s.calls)
    (hnow : s'.now = s.now) (htrue : s'.truthful = true → s.truthful = true)
    (hdecl : s'.truthful = true → ∀ d x, s'.declarations.rows d = some x → x.refunded = false → s.gave x.id = false)
    (hshown : ∀ v w, (v, w) ∈ s'.shown → w = some v) : Timely s' where
  running := by rw [hrows, hcalls, hnow]; exact h.running
  spoken k q hq := (h.spoken k q (hreq ▸ hq)).mono (by rw [hrows]) (by rw [hcalls])
  kept ht i r hi hg := h.kept (htrue ht) i r (hrows ▸ hi) (by unfold State.gave at hg ⊢; rw [hcalls] at hg; exact hg)
  notGiven ht d x hd hx := by
    unfold State.gave
    rw [hcalls]
    exact hdecl ht d x hd hx
  shown := hshown

theorem timely_show {v : RefundView} (h : Timely s)
    (hv : (s.rows.rows i).map (toView i) = some v) : Timely (s.show_ i v) := by
  refine h.congr rfl rfl rfl rfl id h.notGiven fun a w hm => ?_
  rcases mem_append.mp hm with hold | hnew
  · exact h.shown a w hold
  · cases mem_singleton.mp hnew
    exact hv

theorem timely_commit {r : Settled} (h : Timely (s.setRow i r.row)) : Timely (s.commit i r) :=
  h.congr rfl rfl rfl rfl id h.notGiven h.shown

theorem timely_commit_show {r : Settled} {b : Bool} (h : Timely (s.setRow i r.row)) :
    Timely (bif b then (s.commit i r).show_ i (toView i r.row) else s.commit i r) := by
  cases b with
  | false => exact timely_commit h
  | true =>
    refine timely_show (timely_commit h) ?_
    simp [State.commit, Table.set]

theorem timely_tick {ms : Nat} (hl : Ledger s) (h : Timely s) (hb : s.callsEndBy (s.now + ms) = true) :
    Timely { s with now := s.now + ms } where
  running i c hc hrun := by
    obtain ⟨r, hr, hasked, ht, _⟩ := h.running i c hc hrun
    refine ⟨r, hr, hasked, ht, ?_⟩
    have hi := all_eq_true.mp hb i (mem_range.mpr (hl.rowsWf i r hr))
    have hend := all_eq_true.mp hi c hc
    simpa [hrun] using hend
  spoken p q hq := (h.spoken p q hq).mono rfl rfl
  kept := h.kept
  notGiven := h.notGiven
  shown := h.shown

theorem timely_refund {acked : Bool} (hl : Ledger s) (h : Timely s)
    (he : step s (.refund asker input acked) = some s') : Timely s' := by
  rcases step_refund he with rfl | ⟨i, own, hown, rfl⟩ | ⟨row, _, rfl⟩
  · exact h
  · exact timely_show h (by rw [hown]; rfl)
  · have hold : ∀ j r, s.rows.rows j = some r → (s.rows.insert row).rows j = some r := by
      intro j r hj
      have hne : j ≠ s.rows.next := Nat.ne_of_lt (hl.rowsWf j r hj)
      simpa [Table.insert, hne] using hj
    refine ⟨fun i c hc hrun => ?_, fun p q hq => ?_, fun ht i r hi hg => ?_, h.notGiven, h.shown⟩
    · obtain ⟨r, hr, hrest⟩ := h.running i c hc hrun
      exact ⟨r, hold i r hr, hrest⟩
    · rcases update_eq_some_iff.mp hq with ⟨_, rfl⟩ | ⟨_, hx⟩
      · exact .silent (by cases acked <;> simp) (by cases acked <;> simp)
      · obtain ⟨r, hr, _⟩ := (hl.asking p q hx).stored
        exact (h.spoken p q hx).mono (by rw [hr]; exact hold _ r hr) rfl
    · rcases update_eq_some_iff.mp hi with ⟨rfl, _⟩ | ⟨_, hr⟩
      · -- no call was made for a row that did not exist
        have hfresh : s.gave s.rows.next = false := by simp [State.gave, hl.fresh.2]
        have hg' : s.gave s.rows.next = true := hg
        rw [hfresh] at hg'
        cases hg'
      · exact h.kept ht i r hr hg

theorem timely_stamp {acked : Bool} (hl : Ledger s) (h : Timely s)
    (he : step s (.stamp p acked) = some s') : Timely s' := by
  obtain ⟨q, row, hq, hp, _, _, rfl⟩ := step_stamp he
  have hcalls : s.calls q.id = [] := (hl.asking p q hq).unsent (by rw [hp]; rfl)
  refine Timely.setRequest (h.setRow ?_ ?_ ?_) (.silent ?_ ?_)
  · intro c hc
    rw [hcalls] at hc
    cases hc
  · intro _ hg
    simp [State.gave, hcalls] at hg
  · intro k x hk hid
    obtain rfl := hl.soleAsker k p x q hk hq hid
    rw [hq] at hk
    cases hk
    exact .silent (by simp [hp]) (by simp [hp])
  · cases acked <;> simp
  · cases acked <;> simp

/-- A call of row `i` starts or ends. -/
theorem Timely.setCalls (h : Timely s) {c : Call}
    (hrun : c.state = .running →
      ∃ r, s.rows.rows i = some r ∧ r.asked ∧ r.calledAt = some c.calledAt ∧ s.now ≤ c.calledAt + REFUND_CALL_BOUND_MS)
    (hs : ∀ p q, s.requests.rows p = some q → q.id = i → (∀ o, q.phase ≠ .answered o) ∧ q.phase ≠ .marking)
    (hk : c.state = .gave → ∀ r, s.rows.rows i = some r → r.status ≠ .refused)
    (hd : c.state = .gave → ∀ d x, s.declarations.rows d = some x → x.id ≠ i) : Timely (s.setCalls i [c]) := by
  have hother : ∀ j, j ≠ i → (s.setCalls i [c]).calls j = s.calls j := fun j e => by simp [State.setCalls, e]
  have hown : (s.setCalls i [c]).calls i = [c] := by simp [State.setCalls]
  have hgave : ∀ j, (s.setCalls i [c]).gave j = true → s.gave j = true ∨ (j = i ∧ c.state = .gave) := by
    intro j hg
    unfold State.gave at hg
    by_cases e : j = i
    · subst e
      rw [hown] at hg
      exact .inr ⟨rfl, by simpa using hg⟩
    · rw [hother j e] at hg
      exact .inl hg
  refine ⟨fun j x hx hxrun => ?_, fun k q hq => ?_, fun ht j r hj hg => ?_, fun ht d x hx hf => ?_, h.shown⟩
  · by_cases e : j = i
    · subst e
      rw [hown] at hx
      cases mem_singleton.mp hx
      exact hrun hxrun
    · rw [hother j e] at hx
      exact h.running j x hx hxrun
  · by_cases e : q.id = i
    · obtain ⟨hno, hm⟩ := hs k q hq e
      exact .silent hno hm
    · exact (h.spoken k q hq).mono rfl (hother _ e)
  · rcases hgave j hg with hold | ⟨rfl, hc⟩
    · exact h.kept ht j r hj hold
    · exact hk hc r hj
  · cases hg : (s.setCalls i [c]).gave x.id with
    | false => rfl
    | true =>
      rcases hgave x.id hg with hold | ⟨hid, hc⟩
      · rw [h.notGiven ht d x hx hf] at hold
        cases hold
      · exact absurd hid (hd hc d x hx)

theorem timely_send (hl : Ledger s) (h : Timely s) (he : step s (.send p) = some s') : Timely s' := by
  obtain ⟨q, row, t, hq, hp, hrow, ht, hb, rfl⟩ := step_send he
  have ha := hl.asking p q hq
  have hcalls : s.calls q.id = [] := ha.unsent (by rw [hp]; rfl)
  -- within the bound no sweep has touched the row
  have hasked : row.asked := by
    obtain ⟨r, t', hr, hrt, hor⟩ := ha.stamped hp
    rw [hrow] at hr
    cases hr
    rw [ht] at hrt
    cases hrt
    rcases hor with hasked | hpast
    · exact hasked
    · omega
  rw [hcalls]
  refine (h.setRequest (.silent (by simp) (by simp))).setCalls ?_ ?_ nofun nofun
  · exact fun _ => ⟨row, hrow, hasked, ht, hb⟩
  · intro k x hk hid
    rcases update_eq_some_iff.mp hk with ⟨_, rfl⟩ | ⟨hne, hx⟩
    · exact ⟨by simp, by simp⟩
    · exact absurd (hl.soleAsker k p x q hx hq hid) hne

theorem Ledger.call_state (h : Ledger s) {a b : CallState}
    (ha : ((s.calls i).any fun c => c.state == a) = true) {c : Call}
    (hc : c ∈ s.calls i) (hb : c.state = b) : a = b := by
  rcases h.called i with hnil | ⟨c', r, hone, _, _⟩
  · rw [hnil] at hc
    cases hc
  · rw [hone] at ha hc
    cases mem_singleton.mp hc
    rw [← hb]
    simpa using Eq.symm (by simpa using ha)

theorem timely_finish {gave : Bool} (hl : Ledger s) (h : Timely s)
    (he : step s (.finish i k gave) = some s') : Timely s' := by
  obtain ⟨c, hc, hrun, rfl⟩ := step_finish he
  obtain ⟨rfl, hone, _, _⟩ := hl.call_eq hc
  have hmem : c ∈ s.calls i := by rw [hone]; exact mem_singleton.mpr rfl
  obtain ⟨r, hr, hasked, _, _⟩ := h.running i c hmem hrun
  rw [hone]
  refine h.setCalls ?_ ?_ ?_ ?_
  · cases gave <;> exact nofun
  · intro p q hq hid
    have hs := h.spoken p q hq
    refine ⟨fun o ho => (hs.answered o ho).1 c (hid ▸ hmem) hrun, fun hm => ?_⟩
    have hg := (hs.marking hm).1
    rw [hid] at hg
    cases hl.call_state hg hmem hrun
  · intro _ x hx e
    rw [hr] at hx
    cases hx
    rw [hasked.1] at e
    cases e
  · intro _ d x hx hid
    -- a declaration stands on a row whose question is closed
    obtain ⟨y, hy, hn⟩ := hl.checked d x hx
    rw [hid, hr] at hy
    cases hy
    exact hn hasked

theorem timely_answer {a : CoreAnswer} (hl : Ledger s) (h : Timely s) (hok : Ok s (.answer p a) = true)
    (he : step s (.answer p a) = some s') : Timely s' := by
  obtain ⟨q, hq, _, hsaid, rfl⟩ := step_answer he
  refine h.setRequest ⟨fun o ho => ?_, nofun⟩
  obtain rfl : askLydia a = o := by simpa using ho
  refine ⟨fun c hc hrun => ?_, hsaid⟩
  cases hout : askLydia a with
  | confirmed =>
    rw [hout] at hsaid
    cases hl.call_state hsaid hc hrun
  | refused x =>
    rw [hout] at hsaid
    cases hl.call_state hsaid hc hrun
  | noAnswer =>
    have hover : ((s.calls q.id).all fun c => c.state ≠ .running) = true := by simpa [Ok, hout, hq] using hok
    have hc' := all_eq_true.mp hover c hc
    simp [hrun] at hc'

theorem timely_request {e : Event} (hl : Ledger s) (h : Timely s)
    (hk : e = .fails p ∨ e = .loseConnection p ∨ e = .crash p ∨ e = .unlock p)
    (he : step s e = some s') : Timely s' := by
  obtain ⟨q, q', hq, rfl, hid, hrow, hholds, hphase⟩ := step_request hk he
  have hs := h.spoken p q hq
  refine h.setRequest ?_
  have hheld : Held s q → Held s q' := by
    unfold Held
    rw [hid, hrow]
    exact id
  rcases hphase with hphase | hphase | ⟨hphase, hconf⟩
  · refine ⟨fun o ho => ?_, fun hm => ?_⟩
    · rw [hid]; exact hs.answered o (hphase ▸ ho)
    · obtain ⟨hg, hh⟩ := hs.marking (hphase ▸ hm)
      exact ⟨by rw [hid]; exact hg, fun hq' => hheld (hh (hholds hq'))⟩
  · exact .silent (by simp [hphase]) (by simp [hphase])
  · refine ⟨fun o ho => (by rw [hphase] at ho; cases ho), fun _ => ⟨?_, fun hq' => ?_⟩⟩
    · rw [hid]; exact (hs.answered _ hconf).2
    · exact hheld ((hl.asking p q hq).held (hholds hq') (by rw [hconf]; rfl))

theorem timely_ownRow {q q' : Request} {r' : LydiaRefund} (hl : Ledger s) (h : Timely s)
    (hq : s.requests.rows p = some q)
    (hover : q'.phase = .over) (hquiet : ∀ c ∈ s.calls q.id, c.state ≠ .running)
    (hkept : s.truthful = true → s.gave q.id = true → r'.status ≠ .refused) :
    Timely ((s.setRequest p q').setRow q.id r') := by
  refine (h.setRequest (.silent ?_ ?_)).setRow hquiet hkept ?_
  · simp [hover]
  · simp [hover]
  · intro k x hk hid
    rcases update_eq_some_iff.mp hk with ⟨_, rfl⟩ | ⟨hne, hx⟩
    · exact .silent (by simp [hover]) (by simp [hover])
    · exact absurd (hl.soleAsker k p x q hx hq hid) hne

theorem timely_settle {after : After} (hl : Ledger s) (h : Timely s)
    (hok : Ok s (.settle p revoked after) = true) (he : step s (.settle p revoked after) = some s') : Timely s' := by
  obtain ⟨q, o, row, r, b, hq, hp, hh, hrow, rfl, rfl⟩ := step_settle he
  obtain ⟨hquiet, hsaid⟩ := (h.spoken p q hq).answered o hp
  obtain ⟨x, hx, hasked, _⟩ := (hl.asking p q hq).held hh (by rw [hp]; rfl)
  rw [hrow] at hx
  cases hx
  have hover : (settledPhase q (settle s.record row s.now o none revoked) after).1.phase = .over := by
    cases after with
    | answered => rfl
    | lost => rfl
    | nameReadFails => cases hok
  refine timely_commit_show (timely_ownRow hl h hq hover hquiet fun _ hg hrefused => ?_)
  rcases settle_refused hrefused with e | ⟨a, rfl⟩
  · rw [hasked.1] at e
    cases e
  · obtain ⟨c, hc, hstate⟩ := List.any_eq_true.mp hsaid
    cases hl.call_state hg hc (by simpa using hstate)

theorem toView_marked {q : Request} (hasked : row.asked)
    (hlike : { q.row with calledAt := row.calledAt } = row) :
    toView q.id (marked row now) = toView q.id { q.row with outcome := some .refundedUnrecorded, answeredAt := some now } := by
  have hmarked : marked row now = { row with outcome := some .refundedUnrecorded, answeredAt := some now } := by
    simp [marked, hasked.1]
  rw [hmarked, ← hlike]
  exact toView_calledAt q.id { q.row with outcome := some .refundedUnrecorded, answeredAt := some now } row.calledAt

theorem timely_mark {acked : Bool} (hl : Ledger s) (h : Timely s)
    (he : step s (.mark p acked) = some s') : Timely s' := by
  obtain ⟨q, row, hq, hrow, hp, hh, rfl⟩ := step_mark he
  obtain ⟨hg, hheld⟩ := (h.spoken p q hq).marking hp
  obtain ⟨x, hx, hasked, hlike⟩ := hheld hh
  rw [hrow] at hx
  cases hx
  have hwritten : Timely ((s.setRequest p { q with phase := .over, holds := acked }).setRow q.id
    (marked row s.now)) := by
    refine timely_ownRow hl h hq rfl (fun c hc hrun => ?_) fun _ _ e => ?_
    · cases hl.call_state hg hc hrun
    · simp [marked, hasked.1] at e
  cases acked with
  | false => exact hwritten
  | true =>
    refine timely_show hwritten ?_
    simp only [State.setRow, Table.set, Function.update_self, map_some, some.injEq]
    exact toView_marked hasked hlike

theorem timely_closedRow {r' : LydiaRefund} (h : Timely s) (hquiet : ∀ c ∈ s.calls i, c.state ≠ .running)
    (hkept : s.truthful = true → s.gave i = true → r'.status ≠ .refused)
    (hm : ∀ p q, s.requests.rows p = some q → q.id = i → q.phase = .marking → q.holds = false) :
    Timely (s.setRow i r') := by
  refine h.setRow hquiet hkept fun p q hq hid => ?_
  have hs := h.spoken p q hq
  refine ⟨hs.answered, fun e => ⟨(hs.marking e).1, fun hh => ?_⟩⟩
  rw [hm p q hq hid e] at hh
  cases hh

theorem timely_sweep (hl : Ledger s) (h : Timely s) (he : step s (.sweep i) = some s') : Timely s' := by
  rcases step_sweep he with rfl | ⟨row, hrow, hasked, hover, hfree, rfl⟩
  · exact h
  · refine timely_closedRow h (fun c hc hrun => ?_) (fun _ _ e => ?_) fun p q hq hid _ => ?_
    · -- a call still running is within its bound
      obtain ⟨r, hr, _, ht, hb⟩ := h.running i c hc hrun
      rw [hrow] at hr
      cases hr
      simp only [callOver, ht, decide_eq_true_eq] at hover
      omega
    · have e' : row.status = .refused := e
      rw [hasked.1] at e'
      cases e'
    · exact lockFree_spec hl.requestsWf hfree hq hid

theorem timely_resolve {a actor : String} {refunded : Bool} (h : Timely s)
    (he : step s (.resolve i a actor refunded) = some s') : Timely s' := by
  rcases step_resolve he with rfl | ⟨row, hrow, hn, rfl⟩
  · exact h
  · refine h.congr rfl rfl rfl rfl (fun ht => (Bool.and_eq_true_iff.mp ht).1) (fun ht d x hd hf => ?_) h.shown
    obtain ⟨htrue, hsays⟩ := Bool.and_eq_true_iff.mp ht
    rcases update_eq_some_iff.mp hd with ⟨_, rfl⟩ | ⟨_, hx⟩
    · have hf' : refunded = false := hf
      rw [hf'] at hsays
      exact Eq.symm (by simpa using hsays)
    · exact h.notGiven htrue d x hx hf

theorem timely_declare {after : After} (hl : Ledger s) (h : Timely s)
    (he : step s (.declare d revoked after) = some s') : Timely s' := by
  obtain ⟨x, row, r, b, hx, hrow, rfl, rfl⟩ := step_declare he
  obtain ⟨y, hy, hn⟩ := hl.checked d x hx
  rw [hrow] at hy
  cases hy
  have hdropped : Timely { s with declarations := s.declarations.delete d } := by
    refine h.congr rfl rfl rfl rfl id (fun ht k y hk hf => ?_) h.shown
    exact h.notGiven ht k y (update_none_eq_some_iff.mp hk).2 hf
  refine timely_commit_show (timely_closedRow hdropped (fun c hc hrun => ?_) (fun ht hg hrefused => ?_)
    fun p q hq hid hm => ?_)
  · obtain ⟨r, hr, hasked, _⟩ := h.running x.id c hc hrun
    rw [hrow] at hr
    cases hr
    exact hn hasked
  · rcases settle_refused hrefused with e | ⟨a, hdeclared⟩
    · exact h.kept ht x.id row hrow hg e
    · -- a truthful declaration refuses only what was not given
      have hf : x.refunded = false := by
        cases hf : x.refunded with
        | false => rfl
        | true => simp [declared, hf] at hdeclared
      have hg' : s.gave x.id = true := hg
      rw [h.notGiven ht d x hx hf] at hg'
      cases hg'
  · cases hh : q.holds with
    | false => rfl
    | true =>
      obtain ⟨r, hr, hasked, _⟩ := ((h.spoken p q hq).marking hm).2 hh
      rw [hid, hrow] at hr
      cases hr
      exact absurd hasked hn

theorem timely_step {e : Event} (hl : Ledger s) (h : Timely s) (hok : Ok s e = true)
    (he : step s e = some s') : Timely s' := by
  cases e with
  | tick ms =>
    simp only [step] at he
    split at he
    · rename_i hb
      cases he; exact timely_tick hl h hb
    · cases he
  | regrant status =>
    simp only [step] at he
    split at he
    · cases he; exact h.congr rfl rfl rfl rfl id h.notGiven h.shown
    · cases he
  | retrace trace => cases he; exact h.congr rfl rfl rfl rfl id h.notGiven h.shown
  | refund asker input acked => exact timely_refund hl h he
  | stamp p acked => exact timely_stamp hl h he
  | send p => exact timely_send hl h he
  | finish i k gave => exact timely_finish hl h he
  | answer p a => exact timely_answer hl h hok he
  | settle p revoked after => exact timely_settle hl h hok he
  | mark p acked => exact timely_mark hl h he
  | fails p => exact timely_request hl h (.inl rfl) he
  | loseConnection p => exact timely_request hl h (.inr (.inl rfl)) he
  | crash p => exact timely_request hl h (.inr (.inr (.inl rfl))) he
  | unlock p => exact timely_request hl h (.inr (.inr (.inr rfl))) he
  | sweep i => exact timely_sweep hl h he
  | resolve i a actor refunded => exact timely_resolve h he
  | declare d revoked after => exact timely_declare hl h he

theorem timely_start (h : start s) : Timely s := by
  obtain ⟨hrows, hreq, hdecl, hcalls, _, hshown, _⟩ := h
  refine ⟨?_, ?_, ?_, ?_, ?_⟩
  · rw [hcalls]; intro i c hc; cases hc
  · rw [hreq]; intro p q hq; cases hq
  · rw [hrows]; intro _ i r hr; cases hr
  · rw [hdecl]; intro _ d x hx; cases hx
  · rw [hshown]; intro v w hm; cases hm

end Timely

/-! ## The payment is safe -/

structure Safe (s : State) : Prop where
  onePending : ∀ i j ri rj, s.rows.rows i = some ri → s.rows.rows j = some rj →
    ri.status = .pending → rj.status = .pending → i = j
  withinPaid : s.rows.sum liveCents ≤ s.record.amountCents
  oneCallPerRow : ∀ i, (s.calls i).length ≤ 1
  /-- No call starts beside another that runs. -/
  oneRunning : ∀ i j ci cj, ci ∈ s.calls i → cj ∈ s.calls j → ci.state = .running → cj.state = .running → i = j
  oneWithdrawal : s.withdrawals.length ≤ 1
  givenWithinPaid : s.truthful = true → s.given ≤ s.record.amountCents
  viewsTrue : ∀ v w, (v, w) ∈ s.shown → w = some v

section Safe

variable {s : State}

theorem Ledger.oneCallPerRow (h : Ledger s) (i : Nat) : (s.calls i).length ≤ 1 := by
  rcases h.called i with hnil | ⟨c, _, hone, _, _⟩
  · rw [hnil]; exact Nat.zero_le _
  · rw [hone]; exact Nat.le_refl _

theorem Ledger.oneWithdrawal (h : Ledger s) : s.withdrawals.length ≤ 1 := by
  rcases h.withdrawn with hnil | ⟨⟨i, hone⟩, _⟩
  · rw [hnil]; exact Nat.zero_le _
  · rw [hone]; exact Nat.le_refl _

theorem given_le_live (hl : Ledger s) (h : Timely s) (ht : s.truthful = true) (i : Nat) :
    ((s.calls i).map Call.given).sum ≤ ((s.rows.rows i).map liveCents).getD 0 := by
  rcases hl.called i with hnil | ⟨c, r, hone, hr, hamount⟩
  · rw [hnil]; exact Nat.zero_le _
  · rw [hone, hr]
    show c.given + 0 ≤ liveCents r
    unfold Call.given
    split
    · rename_i hc
      have hg : s.gave i = true := by simp [State.gave, hone, hc]
      have hlive : liveCents r = r.amountCents := by simp [liveCents, h.kept ht i r hr hg]
      omega
    · exact Nat.zero_le _

theorem safe_of_timely (hl : Ledger s) (h : Timely s) : Safe s where
  onePending := hl.onePending
  withinPaid := hl.fits
  oneCallPerRow := hl.oneCallPerRow
  oneRunning i j ci cj hi hj ri rj := by
    obtain ⟨x, hx, hax, _⟩ := h.running i ci hi ri
    obtain ⟨y, hy, hay, _⟩ := h.running j cj hj rj
    exact hl.onePending i j x y hx hy hax.1 hay.1
  oneWithdrawal := hl.oneWithdrawal
  givenWithinPaid ht := Nat.le_trans (Table.sum_map_le fun i _ => given_le_live hl h ht i) hl.fits
  viewsTrue := h.shown

/-- On every run whose lost answers are of calls that are over, and whose name reads succeed. -/
theorem refunds_stay_within_the_payment (h : machine.ReachBy (fun s e => Ok s e = true) s) : Safe s := by
  have hinv : Ledger s ∧ Timely s := by
    refine Machine.ReachBy.invariant (I := fun s => Ledger s ∧ Timely s) (fun s h0 => ?_) (fun s e s' hs hok he => ?_) h
    · exact ⟨ledger_start h0, timely_start h0⟩
    · exact ⟨ledger_step hs.1 he, timely_step hs.1 hs.2 hok he⟩
  exact safe_of_timely hinv.1 hinv.2

/-- Whatever is answered, reset or lost: one row waits, the shares not refused are within the payment, a row is asked of
    Lydia once and for its own amount, and one withdrawal is made, of a payment marked refunded. -/
theorem ledger_holds_through_resets (h : machine.Reach s) :
    (∀ i j ri rj, s.rows.rows i = some ri → s.rows.rows j = some rj → ri.status = .pending →
      rj.status = .pending → i = j) ∧
    s.rows.sum liveCents ≤ s.record.amountCents ∧
    (∀ i, s.calls i = [] ∨ ∃ c r, s.calls i = [c] ∧ s.rows.rows i = some r ∧ r.amountCents = c.amountCents) ∧
    (s.withdrawals = [] ∨ (∃ i, s.withdrawals = [i]) ∧ s.record.status = .refunded) :=
  ⟨(ledger h).onePending, (ledger h).fits, (ledger h).called, (ledger h).withdrawn⟩

end Safe

/-! ## Runs -/

def bde : Asker := ⟨"bde", some "vendor", "manager"⟩

def totalRefund (key : String) : RefundInput := ⟨.total, none, "event cancelled", key⟩

def firstKey : String := "00000000-0000-4000-8000-000000000001"

def secondKey : String := "00000000-0000-4000-8000-000000000002"

def paidOnline : State where
  now := 0
  record := ⟨"bde", 1000, true, .paid, some ⟨"order", "vendor", .shop⟩⟩
  rows := .empty
  requests := .empty
  declarations := .empty
  calls := fun _ => []
  withdrawals := []
  shown := []
  truthful := true

theorem paidOnline_start : start paidOnline := ⟨rfl, rfl, rfl, rfl, rfl, rfl, rfl⟩

/-- Ten euros paid; the answer to a total refund is lost after the call failed, a manager says so, a
    second one goes through. -/
def checkedRun : List Event :=
  [.refund bde (totalRefund firstKey) true, .stamp 0 true, .send 0, .finish 0 0 false, .answer 0 .noResponse,
    .settle 0 false .answered, .unlock 0, .resolve 0 "bde" "manager" false, .declare 0 false .answered,
    .refund bde (totalRefund secondKey) true, .stamp 1 true, .send 1, .finish 1 0 true,
    .answer 1 (.response 200 none true), .settle 1 false .answered]

theorem checkedRun_stays_within_the_payment : ∃ s, machine.runBy Ok paidOnline checkedRun = some s ∧
    s.given = 1000 ∧ Safe s := by
  have hrun : (machine.runBy Ok paidOnline checkedRun).map State.given = some 1000 := by decide
  obtain ⟨s, hs, hgiven⟩ := map_eq_some_iff.mp hrun
  exact ⟨s, hs, hgiven, refunds_stay_within_the_payment (Machine.reachBy_of_run checkedRun paidOnline_start hs)⟩

/-- The connection to core is reset while Lydia still works: the first refund is declared not made and then made. -/
def resetRun : List Event :=
  [.refund bde (totalRefund firstKey) true, .stamp 0 true, .send 0, .answer 0 .noResponse, .settle 0 false .answered,
    .unlock 0, .resolve 0 "bde" "manager" false, .declare 0 false .answered,
    .refund bde (totalRefund secondKey) true, .stamp 1 true, .send 1]

def nameRun : List Event :=
  [.refund bde (totalRefund firstKey) true, .stamp 0 true, .send 0, .finish 0 0 true,
    .answer 0 (.response 200 none true), .settle 0 false .nameReadFails, .mark 0 true]

def twoRunning (s : State) : Bool :=
  (s.calls 0).any (fun c => c.state == .running) && (s.calls 1).any fun c => c.state == .running

theorem reset_runs_two_calls : ∃ s, machine.run paidOnline resetRun = some s ∧ twoRunning s = true := by
  have hrun : (machine.run paidOnline resetRun).map twoRunning = some true := by decide
  exact map_eq_some_iff.mp hrun

theorem reset_stays_in_the_ledger : ∃ s, machine.run paidOnline resetRun = some s ∧ twoRunning s = true ∧
    s.rows.sum liveCents ≤ s.record.amountCents := by
  obtain ⟨s, hs, htwo⟩ := reset_runs_two_calls
  exact ⟨s, hs, htwo, (ledger_holds_through_resets (Machine.reach_of_run _ paidOnline_start hs)).2.1⟩

theorem a_reset_answer_refunds_twice : ∃ s, machine.Reach s ∧ s.truthful = true ∧ s.record.amountCents < s.given := by
  have hrun : (machine.run paidOnline (resetRun ++ [Event.finish 0 0 true, .finish 1 0 true])).map
      (fun s => s.truthful && decide (s.record.amountCents < s.given)) = some true := by decide
  obtain ⟨s, hs, hbad⟩ := map_eq_some_iff.mp hrun
  obtain ⟨htrue, hover⟩ := Bool.and_eq_true_iff.mp hbad
  exact ⟨s, Machine.reach_of_run _ paidOnline_start hs, htrue, of_decide_eq_true hover⟩

theorem a_recorded_refund_reads_unrecorded : ∃ s v w, machine.Reach s ∧ (v, w) ∈ s.shown ∧
    v.state = .unrecorded ∧ w.map RefundView.state = some .refunded := by
  have hrun : (machine.run paidOnline nameRun).bind
    (fun s => s.shown.head?.map fun x => (x.1.state, x.2.map RefundView.state)) =
      some (.unrecorded, some .refunded) := by decide
  obtain ⟨s, hs, hshown⟩ := bind_eq_some_iff.mp hrun
  obtain ⟨⟨v, w⟩, hmem, hviews⟩ := map_eq_some_iff.mp hshown
  obtain ⟨hv, hw⟩ := Prod.mk.inj hviews
  exact ⟨s, v, w, Machine.reach_of_run _ paidOnline_start hs, mem_of_head? hmem, hv, hw⟩

/-- A payment refunded twice over by two calls at once, every declaration true; and a view that is not the row's. -/
theorem refunds_exceed_the_payment :
    (∃ s, machine.Reach s ∧ twoRunning s = true) ∧
    (∃ s, machine.Reach s ∧ s.truthful = true ∧ s.record.amountCents < s.given) ∧
    (∃ s v w, machine.Reach s ∧ (v, w) ∈ s.shown ∧ w ≠ some v) := by
  refine ⟨?_, a_reset_answer_refunds_twice, ?_⟩
  · obtain ⟨s, hs, htwo⟩ := reset_runs_two_calls
    exact ⟨s, Machine.reach_of_run _ paidOnline_start hs, htwo⟩
  · obtain ⟨s, v, w, hr, hmem, hv, hw⟩ := a_recorded_refund_reads_unrecorded
    refine ⟨s, v, w, hr, hmem, fun e => ?_⟩
    rw [e] at hw
    have hstate : v.state = .refunded := some.inj hw
    rw [hv] at hstate
    cases hstate

end Canari.Associations.Refunds
