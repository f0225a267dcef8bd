/-
  Canari.Associations.OnePurchase — one payment, one purchase.

  That the buyer never has two payable requests rests on one fact (`Bound.liveOpen`): an
  attempt whose request is payable, or may yet become so, is still open; the unique index
  on open attempts does the rest. Every task that will close an attempt knows its request is over
  (`TaskFaith.ended`). Two steps break it:
  - core answers an issuing call that Lydia left unanswered with a 400, which social-service
    reads as a refusal: the attempt is released and its request stays payable (`lostRun`);
  - an attempt that stored no request id takes the one a callback carries unread, so the next
    opening cancels another request and closes this one (`foreignRun`).
  Without them (`Ok`) the whole holds (`one_payment_one_purchase`).
-/

import Canari.Associations.CheckoutBooks

namespace Canari.Associations.ProductCheckout

open Lib Option

/-! ## One payable request -/

/-- A callback's id is taken only of the attempt's own request, and a call lost at core has made none
    that can be paid. -/
def Ok (s : State) : Event → Bool
  | .store p _ =>
    match s.tasks.rows p with
    | some t =>
      match t.caller, s.rows.rows t.id with
      | .callback requestId, some row =>
        truthy t.row.requestId || row.requestId.isSome || (s.requests t.id).any fun r => r.requestId == requestId
      | _, _ => true
    | none => true
  | .issued o (.core .none _) =>
    match s.openings.rows o with
    | some (.issuing i) => !s.live i
    | _ => true
  | _ => true

def Phase.asks : Phase → Bool
  | .reading | .rereading | .cancelling => true
  | _ => false

structure TaskFaith (s : State) (t : Task) : Prop where
  times : ∃ row, s.rows.rows t.id = some row ∧ SameTimes t.row row
  owns : ∀ x, t.row.requestId = some x → Own s t.id x
  ended : t.phase.closes.isSome = true ∨ t.phase = .settling → s.live t.id = false
  asks : t.phase.asks = true → (∃ x, Own s t.id x) ∨ t.row.createdAt + CHECKOUT_ISSUE_WINDOW_MS ≤ s.now
  due : t.caller = .sweep → pastMargin t.row s.now = true

def OpeningFaith (s : State) : Opening → Prop
  | .deciding => True
  | .issuing i => ∃ row, s.rows.rows i = some row
  | .writing i _ requestId => (∃ row, s.rows.rows i = some row) ∧ (∃ x, Own s i x) ∧ ∀ x, requestId = some x → Own s i x
  | .releasing i => (∃ row, s.rows.rows i = some row) ∧ s.live i = false

structure Bound (s : State) : Prop where
  ids : ∀ i j x, Own s i x → Own s j x → i = j
  issuedIn : ∀ i r, s.requests i = some r →
    ∃ row, s.rows.rows i = some row ∧ r.issuedAt < row.createdAt + CHECKOUT_ISSUE_WINDOW_MS
  lives : ∀ i row, s.rows.rows i = some row → row.createdAt + PRODUCT_REQUEST_LIFETIME_MS ≤ row.expiresAt
  owns : ∀ i row x, s.rows.rows i = some row → row.requestId = some x → Own s i x
  named : ∀ i row, s.rows.rows i = some row → row.requestUuid.isSome = true → ∃ x, Own s i x
  liveOpen : ∀ i row, s.rows.rows i = some row → s.live i = true → row.status = .open_

structure Faith (s : State) : Prop where
  bound : Bound s
  tasks : ∀ p t, s.tasks.rows p = some t → TaskFaith s t
  openings : ∀ o x, s.openings.rows o = some x → OpeningFaith s x

def NextFaith (s : State) (t : Task) : Next → Prop
  | .move phase => TaskFaith s { t with phase }
  | _ => True

section Faith

variable {s s' : State} {p o i : Nat} {t : Task} {acked : Bool}

variable {row : Checkout}

theorem pastMargin_mono {a b : Int} (hab : a ≤ b) (h : pastMargin row a = true) : pastMargin row b = true := by
  simp only [pastMargin, decide_eq_true_eq] at h ⊢
  omega

theorem TaskFaith.later (h : TaskFaith s t) (hl : Later s s') : TaskFaith s' t := by
  obtain ⟨row, hr, ht⟩ := h.times
  obtain ⟨row', hr', ht', _⟩ := hl.row _ _ hr
  refine ⟨⟨row', hr', ht'.createdAt.trans ht.createdAt, ht'.expiresAt.trans ht.expiresAt⟩,
    fun x hx => hl.request _ _ (h.owns x hx),
    fun e => hl.dead hr (h.ended e), fun e => ?_, fun e => pastMargin_mono hl.now (h.due e)⟩
  rcases h.asks e with ⟨x, hx⟩ | hpast
  · exact .inl ⟨x, hl.request _ _ hx⟩
  · exact .inr (Int.le_trans hpast hl.now)

theorem OpeningFaith.later {x : Opening} (h : OpeningFaith s x) (hl : Later s s') : OpeningFaith s' x := by
  have hrow : ∀ i, (∃ row, s.rows.rows i = some row) → ∃ row, s'.rows.rows i = some row := by
    intro i ⟨row, hr⟩
    obtain ⟨row', hr', _⟩ := hl.row i row hr
    exact ⟨row', hr'⟩
  cases x with
  | deciding => trivial
  | issuing i => exact hrow i h
  | writing i uuid requestId =>
    obtain ⟨hr, ⟨x, hx⟩, ho⟩ := h
    exact ⟨hrow i hr, ⟨x, hl.request _ _ hx⟩, fun y hy => hl.request _ _ (ho y hy)⟩
  | releasing i =>
    obtain ⟨⟨row, hr⟩, hd⟩ := h
    exact ⟨hrow i ⟨row, hr⟩, hl.dead hr hd⟩

/-- A later state with the same tasks and openings. -/
theorem Faith.later (h : Faith s) (hl : Later s s') (hb : Bound s') (ht : s'.tasks = s.tasks)
    (ho : s'.openings = s.openings) :
    Faith s' where
  bound := hb
  tasks p t hp := (h.tasks p t (ht ▸ hp)).later hl
  openings o x hx := (h.openings o x (ho ▸ hx)).later hl

theorem Bound.of_same (h : Bound s) (hl : Later s s') (hrows : s'.rows = s.rows)
    (hreq : s'.requests = s.requests) : Bound s' where
  ids := by unfold Own; rw [hreq]; exact h.ids
  issuedIn := by rw [hrows, hreq]; exact h.issuedIn
  lives := hrows ▸ h.lives
  owns i row x hr hx := hl.request _ _ (h.owns i row x (hrows ▸ hr) hx)
  named i row hr hx := by
    obtain ⟨x, ho⟩ := h.named i row (hrows ▸ hr) hx
    exact ⟨x, hl.request _ _ ho⟩
  liveOpen i row hr hlive := by
    rw [hrows] at hr
    exact h.liveOpen i row hr (hl.live i row hr hlive)

theorem Faith.same (h : Faith s) (hl : Later s s') (hrows : s'.rows = s.rows) (hreq : s'.requests = s.requests)
    (ht : s'.tasks = s.tasks) (ho : s'.openings = s.openings) : Faith s' :=
  h.later hl (h.bound.of_same hl hrows hreq) ht ho

theorem Faith.setTask (h : Faith s) {t' : Task} (hf : TaskFaith s t') : Faith (s.setTask p t') := by
  have hl : Later s (s.setTask p t') := .of_same rfl rfl rfl (fun _ e => e) (Int.le_refl _)
  refine ⟨h.bound.of_same hl rfl rfl, fun k x hk => ?_, fun o x hx => (h.openings o x hx).later hl⟩
  rcases update_eq_some_iff.mp hk with ⟨_, rfl⟩ | ⟨_, ok⟩
  · exact hf.later hl
  · exact (h.tasks k x ok).later hl

theorem Faith.begin (h : Faith s) (hf : TaskFaith s t) : Faith (s.start_ t) := by
  have hl : Later s (s.start_ t) := .of_same rfl rfl rfl (fun _ e => e) (Int.le_refl _)
  refine ⟨h.bound.of_same hl rfl rfl, fun k x hk => ?_, fun o x hx => (h.openings o x hx).later hl⟩
  rcases update_eq_some_iff.mp hk with ⟨_, rfl⟩ | ⟨_, ok⟩
  · exact hf.later hl
  · exact (h.tasks k x ok).later hl

theorem Faith.withOpenings (h : Faith s) (tasks : Table Task) (openings : Table Opening)
    (ht : ∀ k x, tasks.rows k = some x → s.tasks.rows k = some x)
    (ho : ∀ k x, openings.rows k = some x → OpeningFaith s x) : Faith { s with tasks, openings } := by
  have hl : Later s { s with tasks, openings } := .of_same rfl rfl rfl (fun _ e => e) (Int.le_refl _)
  exact ⟨h.bound.of_same hl rfl rfl, fun k x hk => (h.tasks k x (ht k x hk)).later hl,
    fun k x hk => (ho k x hk).later hl⟩

theorem Faith.go (h : Faith s) {next : Next} (hn : NextFaith s t next) : Faith (s.go p t next) := by
  cases next with
  | move phase => exact h.setTask hn
  | opens =>
    refine h.withOpenings _ _ (fun k x hk => (update_none_eq_some_iff.mp hk).2) fun k x hk => ?_
    rcases update_eq_some_iff.mp hk with ⟨_, rfl⟩ | ⟨_, ok⟩
    · trivial
    · exact h.openings k x ok
  | stop => exact h.withOpenings _ s.openings (fun k x hk => (update_none_eq_some_iff.mp hk).2) h.openings

/-! ### Where a task may go -/

/-- A phase that asks nothing and closes nothing. -/
theorem TaskFaith.rest (h : TaskFaith s t) {phase : Phase} (hc : phase.closes = none) (hs : phase ≠ .settling)
    (ha : phase.asks = false) : NextFaith s t (.move phase) := by
  refine ⟨h.times, h.owns, fun e => ?_, fun e => ?_, h.due⟩
  · rcases e with e | e
    · rw [show ({ t with phase } : Task).phase.closes = none from hc] at e
      cases e
    · exact absurd e hs
  · rw [show ({ t with phase } : Task).phase.asks = false from ha] at e
    cases e

theorem TaskFaith.closing (h : TaskFaith s t) {phase : Phase} (ha : phase.asks = false) (hd : s.live t.id = false) :
    NextFaith s t (.move phase) := by
  refine ⟨h.times, h.owns, fun _ => hd, fun e => ?_, h.due⟩
  rw [show ({ t with phase } : Task).phase.asks = false from ha] at e
  cases e

theorem TaskFaith.asking (h : TaskFaith s t) {phase : Phase} (hc : phase.closes = none) (hs : phase ≠ .settling)
    (ha : (∃ x, Own s t.id x) ∨ t.row.createdAt + CHECKOUT_ISSUE_WINDOW_MS ≤ s.now) : NextFaith s t (.move phase) := by
  refine ⟨h.times, h.owns, fun e => ?_, fun _ => ha, h.due⟩
  rcases e with e | e
  · rw [show ({ t with phase } : Task).phase.closes = none from hc] at e
    cases e
  · exact absurd e hs

theorem Bound.dead_past_margin (h : Bound s) {row snapshot : Checkout} (hr : s.rows.rows i = some row)
    (ht : SameTimes snapshot row) (hp : pastMargin snapshot s.now = true) : s.live i = false := by
  have hlife := h.lives i row hr
  have hexp := ht.expiresAt
  simp only [pastMargin, decide_eq_true_eq] at hp
  unfold State.live
  cases hq : s.requests i with
  | some r =>
    obtain ⟨x, hx, hin⟩ := h.issuedIn i r hq
    rw [hr] at hx
    cases hx
    simp only [Bool.and_eq_false_iff, decide_eq_false_iff_not]
    right
    simp only [CHECKOUT_EXPIRY_MARGIN_MS, CHECKOUT_ISSUE_WINDOW_MS, PRODUCT_REQUEST_LIFETIME_MS] at *
    omega
  | none =>
    simp only [hr, any_some, Bool.and_eq_false_iff, decide_eq_false_iff_not]
    right
    simp only [CHECKOUT_EXPIRY_MARGIN_MS, CHECKOUT_ISSUE_WINDOW_MS, PRODUCT_REQUEST_LIFETIME_MS] at *
    omega

theorem unproven_faith (hb : Bound s) (h : TaskFaith s t) : NextFaith s t (unproven t s.now) := by
  unfold unproven
  split
  · rename_i hp
    obtain ⟨row, hr, ht⟩ := h.times
    exact h.closing rfl (hb.dead_past_margin hr ht hp)
  · trivial

theorem failed_faith (hb : Bound s) (h : TaskFaith s t) : NextFaith s t (failed t s.now) := by
  unfold failed
  split
  · split
    · trivial
    · exact unproven_faith hb h
  · exact h.rest rfl nofun rfl
  · trivial
  · trivial

theorem established_faith (h : TaskFaith s t) (status : CheckoutStatus) : NextFaith s t (established t status) := by
  unfold established
  split
  · trivial
  · split
    · exact h.rest rfl nofun rfl
    · exact h.rest rfl nofun rfl
  · exact h.rest rfl nofun rfl
  · exact h.rest rfl nofun rfl

/-- Lydia's answer is true of the request, and a request it does not hold is one that was never issued. -/
theorem apply_faith (hb : Bound s) (h : TaskFaith s t) (ha : t.phase.asks = true) {w : WireState}
    (hw : w = wireOf (s.requests t.id) ∨ w = .unknown) : NextFaith s t (applyRequestState t s.now w) := by
  have hasks := h.asks ha
  obtain ⟨row, hr, ht⟩ := h.times
  have hunchanged : NextFaith s t (unchanged t s.now w) := by
    unfold unchanged
    split
    · exact unproven_faith hb h
    · exact h.rest rfl (fun e => by cases e) rfl
    · exact h.rest rfl (fun e => by cases e) rfl
    · rename_i hsweep
      split
      · exact h.asking rfl (fun e => by cases e) hasks
      · exact h.closing rfl (hb.dead_past_margin hr ht (h.due hsweep))
  have hstate : ∀ r, s.requests t.id = some r → r.state ≠ .open_ → s.live t.id = false := by
    intro r hq hne
    simp [State.live, hq, hne]
  rcases hw with rfl | rfl
  · unfold applyRequestState
    cases hq : s.requests t.id with
    | none =>
      have hpast : t.row.createdAt + CHECKOUT_ISSUE_WINDOW_MS ≤ s.now := by
        rcases hasks with ⟨x, r, hx, _⟩ | hpast
        · rw [hq] at hx
          cases hx
        · exact hpast
      have hdead : s.live t.id = false := by
        have hc := ht.createdAt
        simp only [State.live, hq, hr, any_some, Bool.and_eq_false_iff, decide_eq_false_iff_not]
        right
        omega
      rw [hq] at hunchanged
      split
      · exact h.closing rfl hdead
      · exact hunchanged
    | some r =>
      have hdead := hstate r hq
      rw [hq] at hunchanged
      have hfound : wireOf (some r) ≠ .notFound := by
        unfold wireOf
        cases hs : r.state <;> simp [hs]
      cases hs : r.state with
      | open_ =>
        have hwire : wireOf (some r) = .open_ := by simp [wireOf, hs]
        rw [hwire] at hunchanged ⊢
        exact hunchanged
      | paid =>
        have hwire : wireOf (some r) = .paid := by simp [wireOf, hs]
        rw [hwire]
        exact h.closing rfl (hdead (by rw [hs]; exact fun e => by cases e))
      | declined =>
        have hwire : wireOf (some r) = .declined := by simp [wireOf, hs]
        rw [hwire]
        exact h.closing rfl (hdead (by rw [hs]; exact fun e => by cases e))
      | ended =>
        have hwire : wireOf (some r) = .cancelledOrExpired := by simp [wireOf, hs]
        rw [hwire]
        exact h.closing rfl (hdead (by rw [hs]; exact fun e => by cases e))
  · exact hunchanged

/-! ### The steps -/

theorem byRequestId_some {x : String} (h : s.byRequestId x = some i) : Own s i x := by
  have hfound := List.find?_some h
  obtain ⟨r, hr, he⟩ := (Option.any_eq_true _ _).mp hfound
  exact ⟨r, hr, by simpa using he⟩

theorem byRequestId_none {x : String} (h : s.byRequestId x = none) (hi : i < s.rows.next) : ¬ Own s i x := by
  intro ⟨r, hr, he⟩
  have hno := List.find?_eq_none.mp h i (List.mem_range.mpr hi)
  simp [hr, he] at hno

/-- The rows after a write of one that keeps its times. -/
theorem Bound.setRow (h : Bound s) {row row' : Checkout} (hr : s.rows.rows i = some row) (ht : SameTimes row row')
    (hl : Later s (s.setRow i row')) (hx : ∀ x, row'.requestId = some x → Own s i x)
    (hu : row'.requestUuid.isSome = true → ∃ x, Own s i x) (ho : s.live i = true → row'.status = .open_) :
    Bound (s.setRow i row') where
  ids := h.ids
  issuedIn j r hj := by
    obtain ⟨x, hx, hin⟩ := h.issuedIn j r hj
    obtain ⟨y, hy, hty, _⟩ := hl.row j x hx
    exact ⟨y, hy, by rw [hty.createdAt]; exact hin⟩
  lives j x hj := by
    rcases update_eq_some_iff.mp hj with ⟨rfl, rfl⟩ | ⟨_, oj⟩
    · rw [ht.createdAt, ht.expiresAt]
      exact h.lives j row hr
    · exact h.lives j x oj
  owns j x y hj hy := by
    rcases update_eq_some_iff.mp hj with ⟨rfl, rfl⟩ | ⟨_, oj⟩
    · exact hx y hy
    · exact h.owns j x y oj hy
  named j x hj hy := by
    rcases update_eq_some_iff.mp hj with ⟨rfl, rfl⟩ | ⟨_, oj⟩
    · exact hu hy
    · exact h.named j x oj hy
  liveOpen j x hj hlive := by
    rcases update_eq_some_iff.mp hj with ⟨rfl, rfl⟩ | ⟨_, oj⟩
    · exact ho (hl.live j row hr hlive)
    · exact h.liveOpen j x oj (hl.live j x oj hlive)

theorem Faith.setRow (h : Faith s) {row row' : Checkout} (hr : s.rows.rows i = some row) (ht : SameTimes row row')
    (hp : row.status = .paid → row'.status = .paid) (hx : ∀ x, row'.requestId = some x → Own s i x)
    (hu : row'.requestUuid.isSome = true → ∃ x, Own s i x) (ho : s.live i = true → row'.status = .open_) :
    Faith (s.setRow i row') :=
  have hl := later_setRow hr ht hp
  h.later hl (h.bound.setRow hr ht hl hx hu ho) rfl rfl

theorem Faith.closeRow (h : Faith s) (hr : s.rows.rows i = some row) (hd : s.live i = false) (c : ClosedStatus) :
    Faith (s.setRow i (closed row c)) := by
  have hkeep : (closed row c).requestId = row.requestId ∧ (closed row c).requestUuid = row.requestUuid := by
    unfold closed
    split
    · exact ⟨rfl, rfl⟩
    · exact ⟨rfl, rfl⟩
  refine h.setRow hr (closed_times row c) (closed_paid row c).mpr (fun x hx => ?_) (fun hu => ?_) fun hlive => ?_
  · exact h.bound.owns i row x hr (hkeep.1 ▸ hx)
  · exact h.bound.named i row hr (hkeep.2 ▸ hu)
  · rw [hd] at hlive
    cases hlive

theorem asks_of_begin (h : Bound s) (hr : s.rows.rows i = some row)
    (hc : isBeingIssued row s.now = false ∨ pastMargin row s.now = true) :
    (∃ x, Own s i x) ∨ row.createdAt + CHECKOUT_ISSUE_WINDOW_MS ≤ s.now := by
  rcases hc with hc | hc
  · simp only [isBeingIssued, Bool.and_eq_false_iff, Bool.not_eq_eq_eq_not, Bool.not_false,
      decide_eq_false_iff_not] at hc
    rcases hc with (hu | hid) | hwait
    · obtain ⟨u, hu', _⟩ := (Option.any_eq_true _ _).mp hu
      exact .inl (h.named i row hr (by rw [hu']; rfl))
    · obtain ⟨x, hx, _⟩ := (Option.any_eq_true _ _).mp hid
      exact .inl ⟨x, h.owns i row x hr hx⟩
    · exact .inr (by omega)
  · right
    have hlife := h.lives i row hr
    simp only [pastMargin, decide_eq_true_eq] at hc
    simp only [CHECKOUT_EXPIRY_MARGIN_MS, CHECKOUT_ISSUE_WINDOW_MS, PRODUCT_REQUEST_LIFETIME_MS] at *
    omega

theorem faith_caller {e : Event} (he : e = .beginOpening ∨ (∃ i, e = .beginReturn i) ∨
      (∃ i a b, e = .beginCallback i a b) ∨ ∃ i, e = .beginSweep i) (h : Faith s) (hs :
        step s e = some s') : Faith s' := by
  rcases begin_cases he hs with rfl | rfl | ⟨caller, i, row, phase, hrow, rfl, hdue, hphase⟩
  · exact h
  · refine h.withOpenings s.tasks _ (fun _ _ hk => hk) fun k x hk => ?_
    rcases update_eq_some_iff.mp hk with ⟨_, rfl⟩ | ⟨_, ok⟩
    · trivial
    · exact h.openings k x ok
  · have hf : TaskFaith s ⟨caller, i, row, .storing⟩ :=
      ⟨⟨row, hrow, rfl, rfl⟩, fun x hx => h.bound.owns i row x hrow hx, nofun, nofun, hdue⟩
    refine h.begin ?_
    rcases hphase with rfl | rfl | ⟨hphase, hwait⟩
    · exact hf.rest rfl nofun rfl
    · exact hf
    · have hasks := asks_of_begin h.bound hrow hwait
      rcases hphase with ⟨rfl, _⟩ | rfl
      · exact hf.asking rfl nofun hasks
      · exact hf.asking rfl nofun hasks

theorem faith_store (h : Faith s) (hok : Ok s (.store p acked) = true) (he : s.store p acked = some s') : Faith s' := by
  obtain ⟨t, requestId, row, ht, _, hcaller, hrow, rfl | ⟨snapshot, row', hst, rfl⟩⟩ := step_store he
  · exact h.withOpenings _ s.openings (fun k x hk => (update_none_eq_some_iff.mp hk).2) h.openings
  · have hf := h.tasks p t ht
    have hown : Own s t.id requestId := by
      rcases hst.row with ⟨_, hsnap | hkept⟩ | ⟨hnone, hfalse, _, _⟩
      · exact hf.owns _ hsnap
      · exact h.bound.owns _ _ _ hrow hkept
      · -- the id is taken of a request Lydia holds for this attempt
        simp only [Ok, ht, hcaller, hrow, hfalse, hnone, isSome_none, Bool.false_or] at hok
        obtain ⟨r, hr, he⟩ := (Option.any_eq_true _ _).mp hok
        exact ⟨r, hr, by simpa using he⟩
    have hwrite : Faith (s.setRow t.id row') ∧ Later s (s.setRow t.id row') := by
      rcases hst.row with ⟨rfl, _⟩ | ⟨_, _, _, rfl⟩
      · exact ⟨h.setRow hrow ⟨rfl, rfl⟩ id (fun x hx => h.bound.owns _ _ x hrow hx)
          (fun hu => h.bound.named _ _ hrow hu)
          (fun hlive => h.bound.liveOpen _ _ hrow hlive), later_setRow hrow ⟨rfl, rfl⟩ id⟩
      · have hopen := h.bound.liveOpen t.id row hrow
        refine ⟨h.setRow hrow ⟨rfl, rfl⟩ id (fun x hx => ?_) (fun hu => h.bound.named _ _ hrow hu) hopen,
          later_setRow hrow ⟨rfl, rfl⟩ id⟩
        cases hx
        exact hown
    have hlf := hf.later hwrite.2
    have hown' := hwrite.2.request _ _ hown
    have hsnap : TaskFaith (s.setRow t.id row') { t with row := snapshot, phase := .storing } := by
      obtain ⟨x, hx, htx⟩ := hlf.times
      refine ⟨⟨x, hx, ?_⟩, fun y hy => ?_, fun e => ?_, nofun, fun e => ?_⟩
      · exact ⟨htx.createdAt.trans hst.times.createdAt.symm, htx.expiresAt.trans hst.times.expiresAt.symm⟩
      · rw [hst.takes] at hy
        cases hy
        exact hown'
      · rcases e with e | e <;> cases e
      · rw [hcaller] at e
        cases e
    refine hwrite.1.go ?_
    cases acked with
    | false => trivial
    | true =>
      by_cases hpaid : t.row.status = .paid
      · rw [if_pos hpaid]
        exact hsnap.rest rfl nofun rfl
      · rw [if_neg hpaid]
        exact hsnap.asking rfl nofun (.inl ⟨requestId, hown'⟩)

/-- A request Lydia ends, or that is paid or declined. -/
theorem Bound.ended (h : Bound s) {r r' : Request} (hr : s.requests i = some r) (hid : r'.requestId = r.requestId)
    (hat : r'.issuedAt = r.issuedAt) (hs : r'.state ≠ .open_) : Bound (s.setRequest i r') := by
  have hl : Later s (s.setRequest i r') := later_setRequest hr hid fun e => absurd e hs
  have hback : ∀ j x, Own (s.setRequest i r') j x → Own s j x := by
    intro j x ⟨q, hq, hx⟩
    rcases update_eq_some_iff.mp hq with ⟨rfl, rfl⟩ | ⟨_, oq⟩
    · exact ⟨r, hr, hid.symm.trans hx⟩
    · exact ⟨q, oq, hx⟩
  refine ⟨fun j k x hj hk => h.ids j k x (hback j x hj) (hback k x hk), fun j q hq => ?_, h.lives,
    fun j row x hj hx => hl.request _ _ (h.owns j row x hj hx), fun j row hj hu => ?_,
    fun j row hj hlive => h.liveOpen j row hj (hl.live j row hj hlive)⟩
  · rcases update_eq_some_iff.mp hq with ⟨rfl, rfl⟩ | ⟨_, oq⟩
    · rw [hat]
      exact h.issuedIn j r hr
    · exact h.issuedIn j q oq
  · obtain ⟨x, hx⟩ := h.named j row hj hu
    exact ⟨x, hl.request _ _ hx⟩

theorem Bound.endRequest (h : Bound s) (i : Nat) : Bound (s.endRequest i) := by
  unfold State.endRequest
  split
  · rename_i r hr
    split
    · exact h.ended hr rfl rfl nofun
    · exact h
  · exact h

theorem Faith.endRequest (h : Faith s) (i : Nat) : Faith (s.endRequest i) := by
  have hsame : (s.endRequest i).tasks = s.tasks ∧ (s.endRequest i).openings = s.openings := by
    unfold State.endRequest
    repeat' split
    all_goals exact ⟨rfl, rfl⟩
  exact h.later (later_endRequest s i) (h.bound.endRequest i) hsame.1 hsame.2

theorem Faith.cancelled (h : Faith s) (requestId : String) : Faith (s.cancelled requestId) := by
  unfold State.cancelled
  split
  · exact h.endRequest _
  · exact h

theorem dead_of_cancelled (h : Faith s) {x : String} (hrows : s.rows.Wf) (hrow : s.rows.rows i = some row)
    (hown : Own s i x) {foreign : CancelOutcome}
    (hc : s.cancelOutcome x foreign = .cancelled) : (s.cancelled x).live i = false := by
  unfold State.cancelOutcome at hc
  cases hby : s.byRequestId x with
  | none => exact absurd hown (byRequestId_none hby (hrows i row hrow))
  | some j =>
    obtain rfl := h.bound.ids i j x hown (byRequestId_some hby)
    obtain ⟨r, hr, _⟩ := hown
    simp only [hby, hr, any_some] at hc
    have hopen : r.state = .open_ := by
      by_cases e : r.state = .open_
      · exact e
      · simp [e] at hc
    simp [State.cancelled, hby, State.endRequest, hr, hopen, State.live, State.setRequest]

theorem faith_cancel {r : CancelResult} (hb : Books s) (h : Faith s) (he : s.cancel p r = some s') : Faith s' := by
  obtain ⟨t, requestId, ht, _, hid, hcases⟩ := step_cancel he
  have hf := h.tasks p t ht
  have hown := hf.owns requestId hid
  have hl := later_cancelled s requestId
  have hlf := hf.later hl
  rcases hcases with ⟨foreign, hout, rfl⟩ | ⟨phase, hphase, rfl⟩ | ⟨s₁, rfl | rfl, rfl⟩
  · obtain ⟨row, hrow, _⟩ := hf.times
    have hdead := dead_of_cancelled h hb.accounts.rowsWf hrow hown hout
    exact (h.cancelled requestId).go (hlf.closing rfl hdead)
  · refine (h.cancelled requestId).go ?_
    rcases hphase with rfl | rfl
    · exact hlf.asking rfl nofun (.inl ⟨requestId, hl.request _ _ hown⟩)
    · exact hlf.asking rfl nofun (.inl ⟨requestId, hl.request _ _ hown⟩)
  · have hnow : (s.cancelled requestId).now = s.now := by
      unfold State.cancelled State.endRequest
      repeat' split
      all_goals rfl
    have hfail := failed_faith (h.cancelled requestId).bound hlf
    rw [hnow] at hfail
    exact (h.cancelled requestId).go hfail
  · exact h.go (failed_faith h.bound hf)

theorem faith_read {r : ReadResult} (h : Faith s) (he : s.read p r = some s') : Faith s' := by
  obtain ⟨t, ht, hphase, ⟨w, hw, rfl⟩ | rfl⟩ := step_read he
  · have hasks : t.phase.asks = true := by
      rcases hphase with e | e
      · rw [e]; rfl
      · rw [e]; rfl
    exact h.go (apply_faith h.bound (h.tasks p t ht) hasks hw)
  · exact h.go (failed_faith h.bound (h.tasks p t ht))

theorem faith_close (h : Faith s) (he : s.close p acked = some s') : Faith s' := by
  obtain ⟨t, c, row, ht, hc, hrow, rfl⟩ := step_close he
  have hf := h.tasks p t ht
  have hdead := hf.ended (.inl (by rw [hc]; rfl))
  have hclosed := h.closeRow hrow hdead c
  have hlf := hf.later (later_setRow hrow (closed_times row c) (closed_paid row c).mpr)
  refine hclosed.go ?_
  cases acked with
  | false => exact failed_faith hclosed.bound hlf
  | true => exact established_faith hlf _

/-- The attempt whose request was paid is settled. -/
theorem Faith.settled (hb : Books s) (h : Faith s) (record : PurchaseRecord) (hrow : s.rows.rows i = some row)
    (hd : s.live i = false) : Faith (s.settled i row record) := by
  have hset : Faith (s.setRow i { row with status := .paid, purchaseRecordId := some s.records.next }) := by
    refine h.setRow hrow ⟨rfl, rfl⟩ (fun _ => rfl) (fun x hx => h.bound.owns _ _ x hrow hx)
      (fun hu => h.bound.named _ _ hrow hu) fun hlive => ?_
    rw [hd] at hlive
    cases hlive
  have hl : Later s (s.settled i row record) := later_settled hb.accounts hrow
  exact h.later hl ⟨hset.bound.ids, hset.bound.issuedIn, hset.bound.lives, hset.bound.owns, hset.bound.named,
    hset.bound.liveOpen⟩ rfl rfl

theorem faith_settle {mayGrant : Bool} (hb : Books s) (h : Faith s)
    (he : s.settle p mayGrant acked = some s') : Faith s' := by
  obtain ⟨t, row, ht, hphase, hrow, ⟨_, rfl⟩ | ⟨_, record, rfl, hcases⟩⟩ := step_settle he
  · have hf := h.tasks p t ht
    refine h.go ?_
    cases acked with
    | false => exact failed_faith h.bound hf
    | true => exact established_faith hf _
  · have hf := h.tasks p t ht
    have hset := Faith.settled hb h (recordOf s.product s.erased t.id row mayGrant) hrow (hf.ended (.inr hphase))
    have hl : Later s (s.settled t.id row (recordOf s.product s.erased t.id row mayGrant)) :=
      later_settled hb.accounts hrow
    have hlf := hf.later hl
    rcases hcases with ⟨pid, _, rfl⟩ | ⟨next, hnext, rfl⟩
    · exact hset.setTask (hlf.rest rfl nofun rfl)
    · refine hset.go ?_
      rcases hnext with rfl | rfl
      · exact established_faith hlf _
      · exact failed_faith hset.bound hlf

theorem faith_complete (h : Faith s) (he : s.complete p acked = some s') : Faith s' := by
  obtain ⟨t, requestId, row, ht, _, _, hcases⟩ := step_complete he
  have hf := h.tasks p t ht
  rcases hcases with rfl | ⟨k, record, hrec, hnone, hcases⟩
  · exact h.go (hf.rest rfl nofun rfl)
  · have hl := later_completed (recordOfRow_spec hrec).2 hnone requestId
    have hdone : Faith (s.completed k record requestId) := h.same hl rfl rfl rfl rfl
    have hlf := hf.later hl
    rcases hcases with ⟨_, _, _, rfl⟩ | ⟨next, hnext, rfl⟩
    · exact hdone.setTask (hlf.rest rfl nofun rfl)
    · refine hdone.go ?_
      rcases hnext with rfl | rfl
      · exact hlf.rest rfl nofun rfl
      · trivial

theorem faith_dispatch (h : Faith s) (he : s.dispatch p = some s') : Faith s' := by
  obtain ⟨t, pid, done, ht, _, rfl⟩ := step_dispatch he
  have hl : Later s { s with dispatched := s.dispatched ++ [(t.id, pid)] } :=
    .of_same rfl rfl rfl (fun _ e => e) (Int.le_refl _)
  have hlf := (h.tasks p t ht).later hl
  have hsent : Faith { s with dispatched := s.dispatched ++ [(t.id, pid)] } := h.same hl rfl rfl rfl rfl
  refine hsent.go ?_
  cases done with
  | true => exact hlf.rest rfl nofun rfl
  | false => exact established_faith hlf _

theorem faith_answer (h : Faith s) (he : s.answer p = some s') : Faith s' := by
  obtain ⟨t, status, _, _, rfl⟩ := step_answer he
  have hdropped : Faith (s.endTask p) :=
    h.withOpenings _ s.openings (fun k x hk => (update_none_eq_some_iff.mp hk).2) h.openings
  exact hdropped.same (.of_same rfl rfl rfl (fun _ e => e) (Int.le_refl _)) rfl rfl rfl rfl

theorem Faith.deleteOpening (h : Faith s) (o : Nat) : Faith { s with openings := s.openings.delete o } :=
  h.withOpenings s.tasks _ (fun _ _ hk => hk) fun k x hk => h.openings k x (update_none_eq_some_iff.mp hk).2

theorem Faith.setOpening (h : Faith s) (o : Nat) {x : Opening} (hx : OpeningFaith s x) :
    Faith { s with openings := s.openings.set o x } := by
  refine h.withOpenings s.tasks _ (fun _ _ hk => hk) fun k y hk => ?_
  rcases update_eq_some_iff.mp hk with ⟨_, rfl⟩ | ⟨_, ok⟩
  · exact hx
  · exact h.openings k y ok

theorem faith_insert {vendorToken : String} {amountCents waited : Nat} (hb : Books s) (h : Faith s)
    (he : s.insert o vendorToken amountCents waited acked = some s') : Faith s' := by
  have hl := (books_insert hb he).1
  rcases step_insert he with rfl | ⟨_, openings, issuing, hiss, rfl⟩
  · exact h.deleteOpening o
  · have hnew : (s.rows.insert (newRow s.now waited vendorToken amountCents)).rows s.rows.next =
        some (newRow s.now waited vendorToken amountCents) := by simp [Table.insert]
    refine ⟨⟨h.bound.ids, fun i r hr => ?_, fun i row hi => ?_, fun i row x hi hx => ?_, fun i row hi hu => ?_,
      fun i row hi hlive => ?_⟩,
      fun p t ht => (h.tasks p t ht).later hl, fun k x hk => ?_⟩
    · obtain ⟨row, hrow, hin⟩ := h.bound.issuedIn i r hr
      have hne : i ≠ s.rows.next := Nat.ne_of_lt (hb.accounts.rowsWf i row hrow)
      exact ⟨row, by simpa [Table.insert, hne] using hrow, hin⟩
    · rcases update_eq_some_iff.mp hi with ⟨_, rfl⟩ | ⟨_, oi⟩
      · simp only [newRow, PRODUCT_REQUEST_LIFETIME_MS]
        omega
      · exact h.bound.lives i row oi
    · rcases update_eq_some_iff.mp hi with ⟨_, rfl⟩ | ⟨_, oi⟩
      · cases hx
      · exact h.bound.owns i row x oi hx
    · rcases update_eq_some_iff.mp hi with ⟨_, rfl⟩ | ⟨_, oi⟩
      · cases hu
      · exact h.bound.named i row oi hu
    · rcases update_eq_some_iff.mp hi with ⟨_, rfl⟩ | ⟨_, oi⟩
      · rfl
      · exact h.bound.liveOpen i row oi (hl.live i row oi hlive)
    · rcases hiss with ⟨rfl, _, _⟩ | ⟨rfl, _⟩
      · rcases update_eq_some_iff.mp hk with ⟨_, rfl⟩ | ⟨_, ok⟩
        · exact ⟨_, hnew⟩
        · exact (h.openings k x ok).later hl
      · exact (h.openings k x (update_none_eq_some_iff.mp hk).2).later hl

theorem faith_issued {r : IssueResult} (h : Faith s) (hok : Ok s (.issued o r) = true)
    (he : s.issued o r = some s') : Faith s' := by
  obtain ⟨i, ho, hcases⟩ := step_issued he
  have hrow : ∃ row, s.rows.rows i = some row := h.openings o _ ho
  rcases hcases with ⟨req, requestId, hreq, hid, rfl⟩ | ⟨hnone, hiss, rfl⟩ | ⟨⟨numeric, rfl⟩, rfl⟩ | rfl
  · refine h.setOpening o ⟨hrow, ⟨req.requestId, req, hreq, rfl⟩, fun x hx => ⟨req, hreq, ?_⟩⟩
    rcases hid with rfl | rfl
    · exact some.inj hx
    · cases hx
  · refine h.setOpening o ⟨hrow, ?_⟩
    simp [State.live, hnone, hiss]
  · refine h.setOpening o ⟨hrow, ?_⟩
    simpa [Ok, ho] using hok
  · exact h.deleteOpening o

theorem faith_write (h : Faith s) (he : s.write o = some s') : Faith s' := by
  obtain ⟨i, uuid, requestId, row, ho, hrow, rfl⟩ := step_write he
  obtain ⟨_, hown, hids⟩ := h.openings o _ ho
  have hset : Faith (s.setRow i { row with requestUuid := some uuid, requestId }) :=
    h.setRow hrow ⟨rfl, rfl⟩ id hids (fun _ => hown) fun hlive => h.bound.liveOpen i row hrow hlive
  exact hset.deleteOpening o

theorem faith_release (h : Faith s) (he : s.release o = some s') : Faith s' := by
  obtain ⟨i, row, ho, hrow, rfl⟩ := step_release he
  obtain ⟨_, hdead⟩ := h.openings o _ ho
  exact (h.closeRow hrow hdead .cancelled).deleteOpening o

theorem faith_request {requestId uuid : String} (hb : Books s) (h : Faith s)
    (he : s.request i requestId uuid = some s') : Faith s' := by
  have hl := (books_request hb he).1
  obtain ⟨row, hnone, hrow, _, hin, hfree, rfl⟩ := step_request he
  refine h.later hl ⟨fun j k x hj hk => ?_, fun j r hr => ?_, h.bound.lives,
    fun j x y hj hy => hl.request _ _ (h.bound.owns j x y hj hy),
    fun j x hj hu => ?_, fun j x hj hlive => h.bound.liveOpen j x hj (hl.live j x hj hlive)⟩ rfl rfl
  · -- the new id is none of the others'
    have hfresh : ∀ j x, Own s j x → x ≠ requestId := by
      intro j x ⟨r, hr, hx⟩ e
      obtain ⟨y, hy, _⟩ := h.bound.issuedIn j r hr
      exact byRequestId_none hfree (hb.accounts.rowsWf j y hy) ⟨r, hr, hx.trans e⟩
    obtain ⟨r, hr, hx⟩ := hj
    obtain ⟨r', hr', hx'⟩ := hk
    rcases update_eq_some_iff.mp hr with ⟨ej, rfl⟩ | ⟨_, or⟩
    · rcases update_eq_some_iff.mp hr' with ⟨ek, _⟩ | ⟨_, or'⟩
      · omega
      · exact absurd hx.symm (hfresh k x ⟨r', or', hx'⟩)
    · rcases update_eq_some_iff.mp hr' with ⟨_, rfl⟩ | ⟨_, or'⟩
      · exact absurd hx'.symm (hfresh j x ⟨r, or, hx⟩)
      · exact h.bound.ids j k x ⟨r, or, hx⟩ ⟨r', or', hx'⟩
  · rcases update_eq_some_iff.mp hr with ⟨rfl, rfl⟩ | ⟨_, or⟩
    · exact ⟨row, hrow, hin⟩
    · exact h.bound.issuedIn j r or
  · obtain ⟨y, hy⟩ := h.bound.named j x hj hu
    exact ⟨y, hl.request _ _ hy⟩

theorem Faith.ended (hb : Books s) (h : Faith s) {r r' : Request} (hr : s.requests i = some r)
    (hid : r'.requestId = r.requestId)
    (hat : r'.issuedAt = r.issuedAt) (hs : r'.state ≠ .open_) : Faith (s.setRequest i r') :=
  h.later (books_ended hb hr hid hs).1 (h.bound.ended hr hid hat hs) rfl rfl

theorem faith_step {e : Event} (hb : Books s) (h : Faith s) (hok : Ok s e = true)
    (he : step s e = some s') : Faith s' := by
  have hl := (books_step hb he).1
  cases e with
  | tick ms => cases he; exact h.same hl rfl rfl rfl rfl
  | erase => cases he; exact h.same hl rfl rfl rfl rfl
  | deleteProduct => cases he; exact h.same hl rfl rfl rfl rfl
  | configure webhook => cases he; exact h.same hl rfl rfl rfl rfl
  | beginOpening => exact faith_caller (.inl rfl) h he
  | beginReturn i => exact faith_caller (.inr (.inl ⟨i, rfl⟩)) h he
  | beginCallback i a b => exact faith_caller (.inr (.inr (.inl ⟨i, a, b, rfl⟩))) h he
  | beginSweep i => exact faith_caller (.inr (.inr (.inr ⟨i, rfl⟩))) h he
  | store p acked => exact faith_store h hok he
  | cancel p r => exact faith_cancel hb h he
  | read p r => exact faith_read h he
  | close p acked => exact faith_close h he
  | settle p mayGrant acked => exact faith_settle hb h he
  | complete p acked => exact faith_complete h he
  | dispatch p => exact faith_dispatch h he
  | answer p => exact faith_answer h he
  | fails p =>
    obtain ⟨t, ht, rfl⟩ := step_fails he
    exact h.go (failed_faith h.bound (h.tasks p t ht))
  | crash p =>
    obtain ⟨t, _, rfl⟩ := map_eq_some_iff.mp he
    exact h.withOpenings _ s.openings (fun k x hk => (update_none_eq_some_iff.mp hk).2) h.openings
  | insert o vendorToken amountCents waited acked => exact faith_insert hb h he
  | request i requestId uuid => exact faith_request hb h he
  | drop i => cases he; exact h.same hl rfl rfl rfl rfl
  | issued o r => exact faith_issued h hok he
  | write o => exact faith_write h he
  | release o => exact faith_release h he
  | crashOpening o =>
    obtain ⟨_, _, rfl⟩ := map_eq_some_iff.mp he
    exact h.deleteOpening o
  | pay i =>
    obtain ⟨r, hr, he⟩ := bind_eq_some_iff.mp he
    split at he
    · cases he; exact Faith.ended hb h hr rfl rfl nofun
    · cases he
  | decline i =>
    obtain ⟨r, hr, he⟩ := bind_eq_some_iff.mp he
    split at he
    · cases he; exact Faith.ended hb h hr rfl rfl nofun
    · cases he
  | end_ i => cases he; exact h.endRequest i

theorem faith_start (h : start s) : Faith s := by
  obtain ⟨hrows, _, htasks, hopen, hreq, _, _⟩ := h
  have hno : ∀ i x, ¬ Own s i x := by
    intro i x ⟨r, hr, _⟩
    rw [hreq] at hr
    cases hr
  refine ⟨⟨fun i _ x hi => absurd hi (hno i x), ?_, ?_, ?_, ?_, ?_⟩, ?_, ?_⟩
  · rw [hreq]; intro i r hr; cases hr
  · rw [hrows]; intro i r hr; cases hr
  · rw [hrows]; intro i r x hr; cases hr
  · rw [hrows]; intro i r hr; cases hr
  · rw [hrows]; intro i r hr; cases hr
  · rw [htasks]; intro p t ht; cases ht
  · rw [hopen]; intro o x hx; cases hx

end Faith

/-! ## One payment, one purchase -/

structure Safe (s : State) : Prop where
  oneRecord : ∀ k k' r r', s.records.rows k = some r → s.records.rows k' = some r' →
    r.checkoutId = r'.checkoutId → k = k'
  paidStays : ∀ e s', step s e = some s' → ∀ i, PaidRow s i → PaidRow s' i
  /-- `paid` was answered of attempts that have their record. -/
  answersPaid : ∀ i, (i, CheckoutStatus.paid) ∈ s.answers → ∃ k r, s.records.rows k = some r ∧ r.checkoutId = i
  oneTopUp : (s.dispatched.map Prod.fst).Nodup
  topUpCarried : ∀ i pid, (i, pid) ∈ s.dispatched →
    ∃ k r, s.records.rows k = some r ∧ r.checkoutId = i ∧ r.granted = true ∧ r.paymentIntentId = some pid
  onePayable : ∀ i j, s.payable i = true → s.payable j = true → i = j

section Safe

variable {s : State} {i : Nat}

theorem Accounts.paid_recorded (h : Accounts s)
    (hp : PaidRow s i) : ∃ k r, s.records.rows k = some r ∧ r.checkoutId = i := by
  obtain ⟨row, hr, hpaid⟩ := hp
  obtain ⟨k, r, _, hk, hid⟩ := h.hasRecord i row hr hpaid
  exact ⟨k, r, hk, hid⟩

theorem open_of_payable (h : Faith s)
    (hp : s.payable i = true) : ∃ row, s.rows.rows i = some row ∧ row.status = .open_ := by
  unfold State.payable at hp
  cases hq : s.requests i with
  | none => simp [hq] at hp
  | some r =>
    obtain ⟨row, hr, _⟩ := h.bound.issuedIn i r hq
    have hlive : s.live i = true := by simpa [State.live, hq] using hp
    exact ⟨row, hr, h.bound.liveOpen i row hr hlive⟩

theorem safe_of_faith (hb : Books s) (h : Faith s) : Safe s where
  oneRecord k k' r r' hk hk' e := hb.accounts.one hk hk' e
  paidStays e s' he i hp := (books_step hb he).1.paidRow hp
  answersPaid i hm := hb.accounts.paid_recorded (hb.work.answered i hm)
  oneTopUp := hb.work.sentOnce
  topUpCarried := hb.work.sent
  onePayable i j hi hj := by
    obtain ⟨ri, hri, hoi⟩ := open_of_payable h hi
    obtain ⟨rj, hrj, hoj⟩ := open_of_payable h hj
    exact hb.accounts.oneOpen i j ri rj hri hrj hoi hoj

/-- On every run whose callbacks carry their attempt's own request and whose calls lost at core made none. -/
theorem one_payment_one_purchase (h : machine.ReachBy (fun s e => Ok s e = true) s) : Safe s := by
  have hinv : Books s ∧ Faith s := by
    refine Machine.ReachBy.invariant (I := fun s => Books s ∧ Faith s) (fun s h0 => ?_) (fun s e s' hs hok he => ?_) h
    · exact ⟨books_start h0, faith_start h0⟩
    · exact ⟨(books_step hs.1 he).2, faith_step hs.1 hs.2 hok he⟩
  exact safe_of_faith hinv.1 hinv.2

theorem paidRow_run {s' : State} {es : List Event} (h : Books s) (hrun : machine.run s es = some s')
    (hp : PaidRow s i) :
    PaidRow s' i := by
  induction es generalizing s with
  | nil => cases hrun; exact hp
  | cons e es ih =>
    obtain ⟨t, ht, hrest⟩ := bind_eq_some_iff.mp hrun
    obtain ⟨hl, hb⟩ := books_step h ht
    exact ih hb hrest (hl.paidRow hp)

/-- Whatever is lost, replayed or foreign: the paid attempts and the purchase records name each other
    one to one, and stay; one attempt is open; a top-up is sent once an attempt, as its record carries
    it, and withheld only from a buyer erased or for a product deleted. -/
theorem books_balance_on_every_run (h : machine.Reach s) :
    (∀ i row, s.rows.rows i = some row →
      (row.status = .paid ↔ ∃ k r, row.purchaseRecordId = some k ∧ s.records.rows k = some r ∧ r.checkoutId = i)) ∧
    (∀ k r, s.records.rows k = some r → ∃ row, s.rows.rows r.checkoutId = some row ∧ row.purchaseRecordId = some k) ∧
    (∀ es s', machine.run s es = some s' → ∀ i, PaidRow s i → PaidRow s' i) ∧
    (∀ i j ri rj, s.rows.rows i = some ri → s.rows.rows j = some rj → ri.status = .open_ → rj.status = .open_ → i = j) ∧
    (s.dispatched.map Prod.fst).Nodup ∧ (∀ i pid, (i, pid) ∈ s.dispatched → Carried s i pid) ∧
    ∀ k r, s.records.rows k = some r → s.product.type = .balanceTopup → r.granted = false → s.erased = true ∨
      s.product.deleted = true := by
  have hb := books h
  refine ⟨fun i row hi => ⟨hb.accounts.hasRecord i row hi, ?_⟩, fun k r hk => ?_,
    fun es s' hrun i hp => paidRow_run hb hrun hp,
    hb.accounts.oneOpen, hb.work.sentOnce, hb.work.sent, hb.accounts.withheld⟩
  · intro hex
    obtain ⟨k, r, _, hk, rfl⟩ := hex
    obtain ⟨row', hrow, hpaid, _⟩ := hb.accounts.ofRow k r hk
    rw [hi] at hrow
    cases hrow
    exact hpaid
  · obtain ⟨row, hrow, _, hname⟩ := hb.accounts.ofRow k r hk
    exact ⟨row, hrow, hname⟩

end Safe

/-! ## Runs -/

def shop : State where
  now := 0
  product := ⟨.balanceTopup, false, true⟩
  erased := false
  rows := .empty
  records := .empty
  tasks := .empty
  openings := .empty
  requests := fun _ => none
  issuing := fun _ => false
  dispatched := []
  answers := []

theorem shop_start : start shop := ⟨rfl, rfl, rfl, rfl, rfl, rfl, rfl⟩

/-- A top-up whose issuing call was lost: paid, recorded without an id on the payer's return, completed
    by the callback; a second one opens. -/
def lateIdRun : List Event :=
  [.beginOpening, .insert 0 "vendor" 500 0 true, .request 0 "101" "a", .issued 0 .lost, .tick 180000, .pay 0,
    .beginReturn 0,
    .read 0 .answered, .settle 0 true true, .answer 0, .beginCallback 0 "101" "vendor", .store 1 true, .complete 1 true,
    .dispatch 1, .answer 1, .beginOpening, .insert 1 "vendor" 500 0 true, .request 1 "102" "b"]

theorem lateIdRun_one_purchase : ∃ s, machine.runBy Ok shop lateIdRun = some s ∧
    (s.dispatched = [(0, "101")] ∧ s.payable 1 = true) ∧ Safe s := by
  have hrun : (machine.runBy Ok shop lateIdRun).map (fun s => (s.dispatched, s.payable 1)) = some
    ([(0, "101")], true) := by
    decide
  obtain ⟨s, hs, hend⟩ := map_eq_some_iff.mp hrun
  exact ⟨s, hs, Prod.mk.inj hend, one_payment_one_purchase (Machine.reachBy_of_run lateIdRun shop_start hs)⟩

theorem lateIdRun_balances : ∃ s, machine.run shop lateIdRun = some s ∧ s.dispatched = [(0, "101")] ∧
    Carried s 0 "101" := by
  have hrun : (machine.run shop lateIdRun).map State.dispatched = some [(0, "101")] := by decide
  obtain ⟨s, hs, hsent⟩ := map_eq_some_iff.mp hrun
  have hbooks := books_balance_on_every_run (Machine.reach_of_run lateIdRun shop_start hs)
  exact ⟨s, hs, hsent, hbooks.2.2.2.2.2.1 0 "101" (by simp [hsent])⟩

/-- Lydia creates the request and core gets no answer: core says 400, the attempt is released, the next one opens. -/
def lostRun : List Event :=
  [.beginOpening, .insert 0 "vendor" 500 0 true, .request 0 "101" "a", .issued 0 (.core .none false), .release 0,
    .beginOpening, .insert 1 "vendor" 500 0 true, .request 1 "102" "b"]

/-- The issuing call is lost on the way back; a callback names another request, which the next opening cancels. -/
def foreignRun : List Event :=
  [.beginOpening, .insert 0 "vendor" 500 0 true, .request 0 "101" "a", .issued 0 .lost, .beginCallback 0 "900" "vendor",
    .store 0 true, .read 0 .answered, .answer 0, .beginOpening, .cancel 1 (.answered .cancelled), .close 1 true,
    .insert 1 "vendor" 500 0 true, .request 1 "102" "b"]

def twoPayable (s : State) : Bool := s.payable 0 && s.payable 1

theorem two_payable_of_run (es : List Event) (h : (machine.run shop es).map twoPayable = some true) :
    ∃ s, machine.Reach s ∧ s.payable 0 = true ∧ s.payable 1 = true := by
  obtain ⟨s, hs, htwo⟩ := map_eq_some_iff.mp h
  exact ⟨s, Machine.reach_of_run es shop_start hs, Bool.and_eq_true_iff.mp htwo⟩

theorem a_lost_request_stays_payable : ∃ s, machine.Reach s ∧ s.payable 0 = true ∧ s.payable 1 = true :=
  two_payable_of_run lostRun (by decide)

theorem a_foreign_id_cancels_another_request : ∃ s, machine.Reach s ∧ s.payable 0 = true ∧ s.payable 1 = true :=
  two_payable_of_run foreignRun (by decide)

theorem the_buyer_has_two_payable_requests : ¬ ∀ s, machine.Reach s → Safe s := by
  intro hsafe
  obtain ⟨s, hs, h0, h1⟩ := a_lost_request_stays_payable
  exact absurd ((hsafe s hs).onePayable 0 1 h0 h1) (by decide)

end Canari.Associations.ProductCheckout
