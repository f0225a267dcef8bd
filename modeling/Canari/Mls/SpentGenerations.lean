/-
  Canari.Mls.SpentGenerations — no frame re-uses a spent generation.

  The ledger counts frames, the ratchet counts generations; `slack` is how far the second
  is ahead at the epoch the session was restored at (`floor`), and it is 0 at every later
  epoch. Frames are handed over in the order they were sealed, so a frame handed over at an
  epoch lies below `emitted + slack` there, and the stored checkpoint, with what it was not
  told, restores at least that (`Inv`).

  `no_spent_generation_reused`: along the runs in which every advance of the ratchet is
  one the ledger or a whole burn accounts for (`countsEveryAdvance`), and in which no debt
  exceeds the burn's bound, the frames handed over are pairwise different. Two of the ways
  the code leaves those runs are then shown to re-use a generation: a burn that fails at
  the load is only logged (`a_failed_burn_at_load_reuses_a_generation`), and a frame sealed
  at an epoch that still owes a burn is dropped but not counted
  (`a_dropped_frame_reuses_a_generation`).
-/

import Mathlib.Algebra.BigOperators.Group.List.Basic
import Mathlib.Data.List.Nodup
import Canari.Mls.SendRatchet
import Canari.Lib.JsMap

namespace Canari.Mls.SpentGenerations

open Lib List Option
open Mls.SendRatchet

def burnRan (answers : List Answer) (epoch : Nat) : Bool :=
  answers.any fun a =>
    match a with
    | .burnt _ e done => e == epoch && done
    | .sealed _ _ _ => false

/-- The ratchet only moves where a frame is handed over for it or a whole burn repairs it. -/
def countsEveryAdvance (s : St) : Ev → Bool
  -- no frame is sealed at an epoch whose owed burn has not run: it would be dropped
  | .encrypt _ => (owedAt s s.live.epoch).isNone || burnRan s.answers s.live.epoch
  -- a burn on arrival runs at the epoch it is owed to, and either ends or moves nothing
  | .burn result => settleEpoch s == some s.live.epoch &&
      (result == .done || (owedAt s s.live.epoch).all fun count => result.moved count == 0)
  -- the restored epoch is read, and what is owed there is burnt
  | .reload epochRead burns => epochRead &&
      match debtOf s.ledger (some s.disk.ratchet.epoch) s.disk.ratchet.epoch with
      | .burnNow _ _ => burns s.disk.ratchet.epoch == .done
      | _ => true
  | _ => true

/-- No debt exceeds `MAX_BURN_GENERATIONS`. -/
def debtsWithinBound (s : St) : Ev → Bool
  | .reload epochRead _ => s.ledger.keys.all fun epoch =>
      match debtOf s.ledger (if epochRead then some s.disk.ratchet.epoch else none) epoch with
      | .burnNow _ clamped | .onArrival _ clamped => !clamped
      | _ => true
  | _ => true

/-! ## The answers on the way -/

/-- The generations of the frames sealed at an epoch whose answer is on the way, in order. -/
def pending (answers : List Answer) (epoch : Nat) : List Nat :=
  answers.filterMap fun a =>
    match a with
    | .sealed _ e generation => if e = epoch then some generation else none
    | .burnt _ _ _ => none

def InOrder (owes : Nat → Bool) : List Answer → Prop
  | [] => True
  | .sealed _ epoch _ :: rest => owes epoch = false ∧ InOrder owes rest
  | .burnt _ epoch done :: rest => InOrder (fun e => owes e && !(done && e == epoch)) rest

def isBurnt : Answer → Bool
  | .burnt _ _ _ => true
  | .sealed _ _ _ => false

variable {answers : List Answer}

theorem InOrder.mono {owes owes' : Nat → Bool} (h : ∀ e, owes' e = true → owes e = true)
    (ho : InOrder owes answers) : InOrder owes' answers := by
  induction answers generalizing owes owes' with
  | nil => trivial
  | cons a rest ih =>
    cases a with
    | sealed i epoch generation =>
      refine ⟨?_, ih h ho.2⟩
      by_contra hc
      have := h epoch (by simpa using hc)
      rw [ho.1] at this
      cases this
    | burnt i epoch done =>
      refine ih (fun e he => ?_) ho
      simp only [Bool.and_eq_true] at he ⊢
      exact ⟨h e he.1, he.2⟩

theorem InOrder.append {owes : Nat → Bool} (ho : InOrder owes answers) (i generation : Nat) {epoch : Nat}
    (h : owes epoch = false ∨ burnRan answers epoch = true) :
    InOrder owes (answers ++ [Answer.sealed i epoch generation]) := by
  induction answers generalizing owes with
  | nil =>
    refine ⟨h.resolve_right ?_, trivial⟩
    simp [burnRan]
  | cons a rest ih =>
    cases a with
    | sealed j e k =>
      refine ⟨ho.1, ih ho.2 (h.imp (fun hr => hr) fun hb => ?_)⟩
      simpa [burnRan] using hb
    | burnt j e done =>
      refine ih ho ?_
      by_cases hd : (done && epoch == e) = true
      · left
        simp [hd]
      · rcases h with h | h
        · left
          simp [h]
        · right
          simp only [burnRan, any_cons, Bool.or_eq_true] at h
          refine h.resolve_left fun hb => hd ?_
          simp only [Bool.and_eq_true, beq_iff_eq] at hb ⊢
          exact ⟨hb.2, hb.1.symm⟩

theorem InOrder.append_burnt {owes : Nat → Bool} (ho : InOrder owes answers) (i epoch : Nat) (done : Bool) :
    InOrder owes (answers ++ [Answer.burnt i epoch done]) := by
  induction answers generalizing owes with
  | nil => trivial
  | cons a rest ih =>
    cases a with
    | sealed j e k => exact ⟨ho.1, ih ho.2⟩
    | burnt j e d => exact ih ho

/-! ## Lookups -/

def arrivalDebt : SendRatchetDebt → Option Nat
  | .onArrival count _ => some count
  | _ => none

theorem lookup_owedAtLoad (l : Ledger) (restored : Option Nat) (epoch : Nat) :
    (owedAtLoad l restored).lookup epoch = if epoch ∈ l.keys then arrivalDebt (debtOf l restored epoch) else none := by
  unfold owedAtLoad
  induction l.keys with
  | nil => simp
  | cons k keys ih =>
    rw [filterMap_cons]
    by_cases e : epoch = k
    · subst e
      cases hd : debtOf l restored epoch with
      | onArrival count clamped => simp [arrivalDebt]
      | _ => simp [ih, hd, arrivalDebt]
    · cases hd : debtOf l restored k with
      | onArrival count clamped => simp [lookup_cons, e, ih, beq_false_of_ne]
      | _ => simp [e, ih]

theorem sum_map_single {l : List Nat} (hl : l.Nodup) {f : Nat → Nat} {a : Nat} (h : ∀ x, x ≠ a → f x = 0) :
    (l.map f).sum = if a ∈ l then f a else 0 := by
  rw [sum_map_eq_nsmul_single a f fun x hx _ => h x hx, hl.count]
  split <;> simp

/-! ## The invariant -/

def Le (a b : Ratchet) : Prop := a.epoch < b.epoch ∨ a.epoch = b.epoch ∧ a.generation ≤ b.generation

theorem Le.trans {a b c : Ratchet} (h : Le a b) (h' : Le b c) : Le a c := by
  unfold Le at *
  omega

theorem Le.epoch {a b : Ratchet} (h : Le a b) : a.epoch ≤ b.epoch := by
  unfold Le at h
  omega

def gap (floor slack epoch : Nat) : Nat := if epoch = floor then slack else 0

/-- What a captured checkpoint holds of the ratchets it declares durable. -/
structure Captured (floor slack : Nat) (s : St) (snapshot : Nat → Nat) (d : Stored) : Prop where
  floorLe : floor ≤ d.ratchet.epoch
  liveLe : Le d.ratchet s.live
  version : d.version ≤ s.captures
  reached : ∀ epoch, 0 < snapshot epoch → epoch ≤ d.ratchet.epoch
  holds : snapshot d.ratchet.epoch + gap floor slack d.ratchet.epoch ≤ d.ratchet.generation
  older : d.version ≤ s.disk.version → Le d.ratchet s.disk.ratchet
  newer : s.disk.version ≤ d.version → Le s.disk.ratchet d.ratchet

structure CheckpointOk (floor slack : Nat) (s : St) (c : Checkpoint) : Prop where
  counted : ∀ epoch, c.snapshot epoch ≤ s.ledger.emitted epoch
  free : ∀ epoch, 0 < c.snapshot epoch → owedAt s epoch = none
  reached : ∀ epoch, 0 < c.snapshot epoch → epoch ≤ s.live.epoch
  captured : ∀ d, c.captured = some d → Captured floor slack s c.snapshot d
  landed : c.landed = true → ∃ d, c.captured = some d ∧ Le d.ratchet s.disk.ratchet

def isBurning : SettlePhase → Bool
  | .burning _ => true
  | _ => false

structure Inv (floor slack : Nat) (s : St) : Prop where
  fresh : s.handed.Nodup
  below : ∀ f ∈ s.handed, floor ≤ f.1 → f.2 < s.ledger.emitted f.1 + gap floor slack f.1
  floorLe : floor ≤ s.disk.ratchet.epoch
  diskLe : Le s.disk.ratchet s.live
  diskVersion : s.disk.version ≤ s.captures
  /-- The frames on the way are the next ones, in order. -/
  inFlight : ∀ epoch, pending s.answers epoch =
    List.range' (s.ledger.emitted epoch + gap floor slack epoch) (pending s.answers epoch).length
  between : ∀ i epoch generation, .sealed i epoch generation ∈ s.answers → floor ≤ epoch ∧ epoch ≤ s.live.epoch
  order : InOrder (fun epoch => (owedAt s epoch).isSome) s.answers
  owedAll : ∀ epoch count, owedAt s epoch = some count → count = s.ledger.emitted epoch ∧ floor < epoch
  unburnt : ∀ epoch, (owedAt s epoch).isSome → burnRan s.answers epoch = false → pending s.answers epoch = []
  burntAt : ∀ i epoch done, .burnt i epoch done ∈ s.answers → epoch ≤ s.live.epoch
  liveOwed : (owedAt s s.live.epoch).isSome → burnRan s.answers s.live.epoch = false → s.live.generation = 0
  liveFree : owedAt s s.live.epoch = none ∨ burnRan s.answers s.live.epoch = true → s.live.generation =
    s.ledger.emitted s.live.epoch + gap floor slack s.live.epoch + (pending s.answers s.live.epoch).length
  ahead : ∀ epoch, s.live.epoch < epoch → 0 < s.ledger.emitted epoch → (owedAt s epoch).isSome
  persisted : ∀ epoch, s.ledger.persisted epoch ≤ s.ledger.emitted epoch
  stored : ∀ epoch, 0 < s.ledger.persisted epoch → epoch ≤ s.disk.ratchet.epoch
  /-- The stored state and what it was not told are past every frame handed over. -/
  restores : s.ledger.persisted s.disk.ratchet.epoch + gap floor slack s.disk.ratchet.epoch ≤ s.disk.ratchet.generation
  keys : ∀ epoch, 0 < s.ledger.emitted epoch → epoch ∈ s.ledger.keys
  keysNodup : s.ledger.keys.Nodup
  oneBurn : s.answers.countP isBurnt ≤ if isBurning s.settle then 1 else 0
  settles : ∀ x ∈ s.settles, x.2 = none
  readLe : ∀ epoch, s.settle = .read epoch → epoch ≤ s.live.epoch
  checkpoints : ∀ c k, s.checkpoints c = some k → CheckpointOk floor slack s k
  captured : ∀ c c' k k' d d', s.checkpoints c = some k → s.checkpoints c' = some k' → k.captured = some d →
    k'.captured = some d' →
    d.version ≤ d'.version → Le d.ratchet d'.ratchet

variable {floor slack : Nat}

theorem gap_later {epoch : Nat} (h : floor < epoch) : gap floor slack epoch = 0 := by
  unfold gap
  rw [if_neg]
  omega

theorem not_burnRan (h : answers.countP isBurnt = 0) (epoch : Nat) : burnRan answers epoch = false := by
  rw [countP_eq_zero] at h
  rw [burnRan, List.any_eq_false]
  intro a ha
  cases a with
  | sealed i e k => simp
  | burnt i e done => exact absurd rfl (h _ ha)

theorem pending_append_sealed (answers : List Answer) (i epoch generation e : Nat) :
    pending (answers ++ [Answer.sealed i epoch generation]) e = if epoch = e then
      pending answers e ++ [generation] else pending answers e := by
  unfold pending
  by_cases h : epoch = e
  · simp [h]
  · simp [h]

theorem pending_append_burnt (answers : List Answer) (i epoch : Nat) (done : Bool) (e : Nat) :
    pending (answers ++ [Answer.burnt i epoch done]) e = pending answers e := by
  simp [pending]

theorem burnRan_append_sealed (answers : List Answer) (i epoch generation e : Nat) :
    burnRan (answers ++ [Answer.sealed i epoch generation]) e = burnRan answers e := by
  simp [burnRan]

theorem burnRan_append_burnt (answers : List Answer) (i epoch : Nat) (done : Bool) (e : Nat) :
    burnRan (answers ++ [Answer.burnt i epoch done]) e = (burnRan answers e || (epoch == e && done)) := by
  simp [burnRan]

/-! ## The steps that only move the calls -/

variable {s : St}

/-- The calls move on, and what is owed to epochs gone past is dropped. -/
theorem inv_calls (h : Inv floor slack s) {sends : Nat → Option SendPhase} {settles : List (Nat × Option Nat)}
    {settle : SettlePhase} {owed : List (Nat × Nat)}
    (ho : ∀ epoch, owed.lookup epoch = s.owed.lookup epoch ∨ owed.lookup epoch = none ∧ epoch < s.live.epoch)
    (hone : s.answers.countP isBurnt ≤ if isBurning settle then 1 else 0) (hset : ∀ x ∈ settles, x.2 = none)
    (hread : ∀ epoch, settle = .read epoch → epoch ≤ s.live.epoch) :
    Inv floor slack { s with sends := sends, settles := settles, settle := settle, owed := owed } := by
  have hshrink : ∀ epoch count, owed.lookup epoch = some count → s.owed.lookup epoch = some count := by
    intro epoch count hc
    rcases ho epoch with he | ⟨he, _⟩
    · exact he ▸ hc
    · rw [he] at hc; cases hc
  have hshrink' : ∀ epoch, (owed.lookup epoch).isSome → (s.owed.lookup epoch).isSome := by
    intro epoch hs
    obtain ⟨count, hc⟩ := isSome_iff_exists.mp hs
    rw [hshrink epoch count hc]
    rfl
  have hnow : owed.lookup s.live.epoch = s.owed.lookup s.live.epoch :=
    (ho s.live.epoch).resolve_right fun hr => Nat.lt_irrefl _ hr.2
  refine { h with
    order := h.order.mono hshrink'
    owedAll := fun epoch count hc => h.owedAll epoch count (hshrink epoch count hc)
    unburnt := fun epoch hs => h.unburnt epoch (hshrink' epoch hs)
    liveOwed := fun hs => h.liveOwed (hshrink' _ hs)
    liveFree := fun hs => h.liveFree (hs.imp (fun hn => hnow.symm.trans hn) fun hb => hb)
    ahead := fun epoch hlt hpos => ?_
    oneBurn := hone
    settles := hset
    readLe := hread
    checkpoints := fun c k hk => ?_ }
  · show (owed.lookup epoch).isSome
    rw [(ho epoch).resolve_right fun hr => Nat.lt_asymm hlt hr.2]
    exact h.ahead epoch hlt hpos
  · have hc := h.checkpoints c k hk
    refine { hc with free := fun epoch hpos => ?_, captured := fun d hd => { hc.captured d hd with } }
    show owed.lookup epoch = none
    rcases ho epoch with he | ⟨he, _⟩
    · rw [he]
      exact hc.free epoch hpos
    · exact he

theorem inv_sends (h : Inv floor slack s) (i : Nat) (p : Option SendPhase) : Inv floor slack (setSend s i p) :=
  inv_calls h (fun _ => Or.inl rfl) h.oneBurn h.settles h.readLe

theorem inv_settled (h : Inv floor slack s) {owed : List (Nat × Nat)} (hb : s.answers.countP isBurnt = 0)
    (ho : ∀ epoch, owed.lookup epoch = s.owed.lookup epoch ∨ owed.lookup epoch = none ∧ epoch < s.live.epoch) :
    Inv floor slack (settled { s with owed := owed }) := by
  unfold settled
  split
  · rename_i i sealedAt rest hs
    refine inv_calls h ho (by rw [hb]; exact Nat.zero_le _) (fun x hx => ?_) (fun epoch he => by cases he)
    exact h.settles x (hs ▸ mem_cons_of_mem _ hx)
  · exact inv_calls h ho (by rw [hb]; exact Nat.zero_le _) h.settles h.readLe

theorem lookup_dropPassed (s : St) (epoch e : Nat) :
    (dropPassed s epoch).owed.lookup e = if e < epoch then none else s.owed.lookup e := by
  have h := JsMap.lookup_filter_key (p := fun e => !decide (e < epoch)) s.owed e
  show (s.owed.filter fun o => !decide (o.1 < epoch)).lookup e = _
  rw [h]
  by_cases hlt : e < epoch
  · simp [hlt]
  · simp [hlt]

theorem dropPassed_keeps {epoch : Nat} (hle : epoch ≤ s.live.epoch) (e : Nat) :
    (dropPassed s epoch).owed.lookup e = s.owed.lookup e ∨ (dropPassed s epoch).owed.lookup e = none ∧
      e < s.live.epoch := by
  rw [lookup_dropPassed]
  by_cases hlt : e < epoch
  · right
    rw [if_pos hlt]
    exact ⟨rfl, by omega⟩
  · left
    rw [if_neg hlt]

theorem settleEpoch_spec (h : Inv floor slack s) {epoch : Nat} (he : settleEpoch s = some epoch) :
    epoch ≤ s.live.epoch ∧ s.answers.countP isBurnt = 0 := by
  have hone := h.oneBurn
  unfold settleEpoch at he
  split at he
  · rename_i hs _
    have := h.settles _ (hs ▸ mem_cons_self)
    cases this
  · rename_i e _ hs
    cases he
    rw [hs] at hone
    exact ⟨h.readLe epoch hs, Nat.le_zero.mp hone⟩
  · cases he

/-! ## The steps that move the ratchet -/

theorem Le.more {r a : Ratchet} (h : Le r a) (n : Nat) : Le r { a with generation := a.generation + n } := by
  rcases h with h | ⟨h, hg⟩
  · exact Or.inl h
  · exact Or.inr ⟨h, Nat.le_trans hg (Nat.le_add_right _ _)⟩

theorem checkpoints_more (h : Inv floor slack s) (n : Nat) (answers : List Answer) :
    ∀ c k, s.checkpoints c = some k →
      CheckpointOk floor slack { s with live := { s.live with generation := s.live.generation + n }, answers :=
        answers } k := by
  intro c k hk
  have hc := h.checkpoints c k hk
  exact { hc with captured := fun d hd => { hc.captured d hd with liveLe := (hc.captured d hd).liveLe.more n } }

variable {count i : Nat}

/-- The burn owed to the epoch the group is at: all of it, or none. -/
theorem inv_burnt (h : Inv floor slack s) {moved : Nat} {done : Bool} (hb : isBurning s.settle = true)
    (hnone : s.answers.countP isBurnt = 0) (howed : owedAt s s.live.epoch = some count)
    (hm : moved = if done then count else 0) :
    Inv floor slack { s with
      live := { s.live with generation := s.live.generation + moved }
      answers := s.answers ++ [Answer.burnt i s.live.epoch done] } := by
  obtain ⟨hval, hfloor⟩ := h.owedAll _ _ howed
  have hidle := not_burnRan hnone
  have hsome : (owedAt s s.live.epoch).isSome := by rw [howed]; rfl
  have hpend := h.unburnt s.live.epoch hsome (hidle _)
  have hgen := h.liveOwed hsome (hidle _)
  have hran : ∀ e, burnRan (s.answers ++ [Answer.burnt i s.live.epoch done]) e = (s.live.epoch == e && done) := by
    intro e
    rw [burnRan_append_burnt, hidle e, Bool.false_or]
  refine { h with
    diskLe := h.diskLe.more moved
    inFlight := fun e => by rw [pending_append_burnt]; exact h.inFlight e
    between := fun j e k hj => h.between j e k (by simpa using hj)
    order := h.order.append_burnt _ _ _
    unburnt := fun e hs _ => by rw [pending_append_burnt]; exact h.unburnt e hs (hidle e)
    burntAt := fun j e d hj => ?_
    liveOwed := fun _ hr => ?_
    liveFree := fun hs => ?_
    oneBurn := ?_
    checkpoints := checkpoints_more h moved _ }
  · rcases mem_append.mp hj with hj | hj
    · exact h.burntAt j e d hj
    · cases mem_singleton.mp hj
      exact Nat.le_refl _
  · have hd : done = false := by simpa using (hran s.live.epoch).symm.trans hr
    rw [hgen, hm, hd]
    rfl
  · have hd : done = true := by
      rcases hs with hs | hs
      · have hs : owedAt s s.live.epoch = none := hs
        rw [howed] at hs
        cases hs
      · simpa using (hran s.live.epoch).symm.trans hs
    rw [pending_append_burnt, hpend, gap_later hfloor, hgen, hm, hd, ← hval]
    simp
  · rw [countP_append, hnone, hb]
    exact Nat.le_refl _

variable {s' : St}

theorem inv_burn {result : Burn} (h : Inv floor slack s) (hok : countsEveryAdvance s (.burn result) = true)
    (hs : step s (.burn result) = some s') : Inv floor slack s' := by
  simp only [countsEveryAdvance, Bool.and_eq_true, beq_iff_eq] at hok
  obtain ⟨he, hmoved⟩ := hok
  obtain ⟨_, hnone⟩ := settleEpoch_spec h he
  simp only [step, he] at hs
  split at hs
  · rename_i epoch i sealedAt rest hepoch hsettles
    cases hepoch
    split at hs
    · rename_i count hcount
      cases hs
      have howed : owedAt s s.live.epoch = some count := by
        have := lookup_dropPassed s s.live.epoch s.live.epoch
        rw [if_neg (Nat.lt_irrefl _)] at this
        exact this.symm.trans hcount
      have hcalls : Inv floor slack { s with owed := (dropPassed s s.live.epoch).owed, settle := .burning s.live.epoch } :=
        inv_calls h (dropPassed_keeps (Nat.le_refl _)) (by rw [hnone]; exact Nat.zero_le _) h.settles (fun epoch hr => by cases hr)
      refine inv_burnt hcalls rfl hnone hcount ?_
      by_cases hd : result = .done
      · rw [hd]
        rfl
      · rw [howed] at hmoved
        simpa [hd] using hmoved
    · cases hs
  · cases hs

theorem inv_encrypt (h : Inv floor slack s) (hok : countsEveryAdvance s (.encrypt i) = true)
    (hs : step s (.encrypt i) = some s') : Inv floor slack s' := by
  simp only [step] at hs
  split at hs
  · cases hs
    have hfree : owedAt s s.live.epoch = none ∨ burnRan s.answers s.live.epoch = true := by
      simpa [countsEveryAdvance, isNone_iff_eq_none] using hok
    have hgen := h.liveFree hfree
    have hnot : (owedAt s s.live.epoch).isSome → burnRan s.answers s.live.epoch ≠ false := by
      intro hs hb
      rcases hfree with hn | hr
      · rw [hn] at hs
        cases hs
      · rw [hr] at hb
        cases hb
    refine inv_sends (s := { s with
      live := { s.live with generation := s.live.generation + 1 }
      answers := s.answers ++ [Answer.sealed i s.live.epoch s.live.generation] }) ?_ i _
    refine { h with
      diskLe := h.diskLe.more 1
      inFlight := fun e => ?_
      between := fun j e k hm => ?_
      order := h.order.append i _ (hfree.imp (fun hn => by rw [hn]; rfl) fun hb => hb)
      unburnt := fun e hs hb => ?_
      burntAt := fun j e d hm => h.burntAt j e d (by simpa using hm)
      liveOwed := fun hs hb => ?_
      liveFree := fun _ => ?_
      oneBurn := by simpa [isBurnt] using h.oneBurn
      checkpoints := checkpoints_more h 1 _ }
    · rw [pending_append_sealed]
      by_cases he : s.live.epoch = e
      · subst he
        rw [if_pos rfl, length_append, length_singleton, range'_1_concat, ← hgen, ← h.inFlight]
      · rw [if_neg he]
        exact h.inFlight e
    · rcases mem_append.mp hm with hm | hm
      · exact h.between j e k hm
      · cases mem_singleton.mp hm
        exact ⟨Nat.le_trans h.floorLe h.diskLe.epoch, Nat.le_refl _⟩
    · rw [burnRan_append_sealed] at hb
      have he : s.live.epoch ≠ e := by
        intro he
        subst he
        exact hnot hs hb
      rw [pending_append_sealed, if_neg he]
      exact h.unburnt e hs hb
    · rw [burnRan_append_sealed] at hb
      exact absurd hb (hnot hs)
    · show s.live.generation + 1 = s.ledger.emitted s.live.epoch + gap floor slack s.live.epoch +
        (pending (s.answers ++ [Answer.sealed i s.live.epoch s.live.generation]) s.live.epoch).length
      rw [pending_append_sealed, if_pos rfl, length_append, length_singleton]
      omega
  · cases hs

theorem inv_merge (h : Inv floor slack s) :
    Inv floor slack { s with live := ⟨s.live.epoch + 1, 0⟩ } := by
  have hfloor : floor < s.live.epoch + 1 := Nat.lt_succ_of_le (Nat.le_trans h.floorLe h.diskLe.epoch)
  have hran : burnRan s.answers (s.live.epoch + 1) = false := by
    rw [burnRan, List.any_eq_false]
    intro a ha hb
    cases a with
    | sealed i e k => cases hb
    | burnt i e done =>
      simp only [Bool.and_eq_true, beq_iff_eq] at hb
      have := h.burntAt i e done ha
      omega
  have hpend : pending s.answers (s.live.epoch + 1) = [] := by
    rw [pending, filterMap_eq_nil_iff]
    intro a ha
    cases a with
    | sealed i e k =>
      have := (h.between i e k ha).2
      exact if_neg (by omega)
    | burnt i e done => rfl
  have le_merge : ∀ r, Le r s.live → Le r ⟨s.live.epoch + 1, 0⟩ := by
    intro r hr
    have := hr.epoch
    exact Or.inl (by show r.epoch < s.live.epoch + 1; omega)
  refine { h with
    diskLe := le_merge _ h.diskLe
    between := fun i e k hm => ⟨(h.between i e k hm).1, Nat.le_succ_of_le (h.between i e k hm).2⟩
    burntAt := fun i e d hm => Nat.le_succ_of_le (h.burntAt i e d hm)
    liveOwed := fun _ _ => rfl
    liveFree := fun hf => ?_
    ahead := fun e hlt hpos => h.ahead e (Nat.lt_of_succ_lt hlt) hpos
    readLe := fun e he => Nat.le_succ_of_le (h.readLe e he)
    checkpoints := fun c k hk => ?_ }
  · -- nothing was counted at an epoch reached for the first time
    have hn : owedAt s (s.live.epoch + 1) = none := hf.resolve_right fun hb => by
      rw [hran] at hb
      cases hb
    have hzero : s.ledger.emitted (s.live.epoch + 1) = 0 := by
      by_contra hne
      have := h.ahead (s.live.epoch + 1) (Nat.lt_succ_self _) (Nat.pos_of_ne_zero hne)
      rw [hn] at this
      cases this
    rw [hzero, gap_later hfloor, hpend]
    rfl
  · have hc := h.checkpoints c k hk
    exact { hc with
      reached := fun e hpos => Nat.le_succ_of_le (hc.reached e hpos)
      captured := fun d hd => { hc.captured d hd with liveLe := le_merge _ (hc.captured d hd).liveLe } }

/-! ## The answers -/

theorem emitted_note (l : Ledger) (epoch e : Nat) :
    (noteFrameEmitted l epoch).emitted e = if e = epoch then l.emitted epoch + 1 else l.emitted e := by
  unfold noteFrameEmitted
  by_cases h : e = epoch
  · subst h
    simp
  · simp [h]

theorem emitted_note_le (l : Ledger) (epoch e : Nat) : l.emitted e ≤ (noteFrameEmitted l epoch).emitted e := by
  rw [emitted_note]
  split
  · rename_i h
    rw [h]
    omega
  · omega

variable {l : Ledger} {e : Nat}

theorem mem_keys_note (hkeys : ∀ e, 0 < l.emitted e → e ∈ l.keys) {epoch : Nat}
    (hpos : 0 < (noteFrameEmitted l epoch).emitted e) :
    e ∈ (noteFrameEmitted l epoch).keys := by
  show e ∈ if l.keys.contains epoch then l.keys else l.keys ++ [epoch]
  rw [emitted_note] at hpos
  by_cases he : e = epoch
  · subst he
    split
    · rename_i hc
      simpa using hc
    · simp
  · rw [if_neg he] at hpos
    have := hkeys e hpos
    split
    · exact this
    · exact mem_append_left _ this

theorem nodup_keys_note (h : l.keys.Nodup) (epoch : Nat) : (noteFrameEmitted l epoch).keys.Nodup := by
  show (if l.keys.contains epoch then l.keys else l.keys ++ [epoch]).Nodup
  split
  · exact h
  · rename_i hc
    rw [nodup_append]
    refine ⟨h, nodup_singleton _, fun x hx y hy hxy => hc ?_⟩
    rw [mem_singleton] at hy
    simpa [← hy, ← hxy] using hx

/-- The next frame sealed at its epoch is handed over and counted. -/
theorem inv_sealed {epoch generation : Nat} {rest : List Answer} (h : Inv floor slack s)
    (ha : s.answers = .sealed i epoch generation :: rest) :
    Inv floor slack { s with
      answers := rest, ledger := noteFrameEmitted s.ledger epoch, handed := s.handed ++ [(epoch, generation)] } := by
  obtain ⟨hfree, horder⟩ : (owedAt s epoch).isSome = false ∧ InOrder (fun epoch => (owedAt s epoch).isSome) rest := by
    have := h.order
    rwa [ha] at this
  obtain ⟨hfloor, hlive⟩ := h.between i epoch generation (ha ▸ mem_cons_self)
  have hmem : ∀ a, a ∈ rest → a ∈ s.answers := fun a hm => ha ▸ mem_cons_of_mem _ hm
  have hran : ∀ e, burnRan s.answers e = burnRan rest e := by
    intro e
    rw [ha]
    simp [burnRan]
  have hpend : ∀ e, pending s.answers e = if epoch = e then generation :: pending rest e else pending rest e := by
    intro e
    rw [ha]
    by_cases he : epoch = e
    · simp [pending, he]
    · simp [pending, he]
  -- the head of the frames on the way is the next one
  have hhead : generation = s.ledger.emitted epoch + gap floor slack epoch ∧
      pending rest epoch = List.range' (generation + 1) (pending rest epoch).length := by
    have := h.inFlight epoch
    rw [hpend, if_pos rfl] at this
    obtain ⟨h1, h2⟩ := List.cons.inj this
    exact ⟨h1, h1 ▸ h2⟩
  have hne : ∀ e, (owedAt s e).isSome → e ≠ epoch := by
    intro e hs he
    rw [he, hfree] at hs
    cases hs
  refine { h with
    fresh := ?_
    below := fun f hf hle => ?_
    inFlight := fun e => ?_
    between := fun j e k hm => h.between j e k (hmem _ hm)
    order := horder
    owedAll := fun e c hc => ?_
    unburnt := fun e hs hb => ?_
    burntAt := fun j e d hm => h.burntAt j e d (hmem _ hm)
    liveOwed := fun hs hb => h.liveOwed hs ((hran _).trans hb)
    liveFree := fun hs => ?_
    ahead := fun e hlt hpos => ?_
    persisted := fun e => Nat.le_trans (h.persisted e) (emitted_note_le _ _ _)
    keys := fun e => mem_keys_note h.keys
    keysNodup := nodup_keys_note h.keysNodup epoch
    oneBurn := ?_
    checkpoints := fun c k hk => ?_ }
  · rw [nodup_append]
    refine ⟨h.fresh, nodup_singleton _, fun x hx y hy hxy => ?_⟩
    rw [mem_singleton] at hy
    subst hy
    subst hxy
    have := h.below _ hx hfloor
    simp only at this
    omega
  · show f.2 < (noteFrameEmitted s.ledger epoch).emitted f.1 + gap floor slack f.1
    rcases mem_append.mp hf with hf | hf
    · have h1 := h.below f hf hle
      have h2 := emitted_note_le s.ledger epoch f.1
      omega
    · cases mem_singleton.mp hf
      rw [emitted_note, if_pos rfl]
      show generation < s.ledger.emitted epoch + 1 + gap floor slack epoch
      omega
  · show pending rest e = List.range' ((noteFrameEmitted s.ledger epoch).emitted e + gap floor slack e)
      (pending rest e).length
    rw [emitted_note]
    by_cases he : e = epoch
    · subst he
      rw [if_pos rfl, hhead.2, length_range']
      congr 1
      omega
    · rw [if_neg he]
      have := h.inFlight e
      rwa [hpend, if_neg fun hr => he hr.symm] at this
  · rw [emitted_note, if_neg (hne e (by rw [show owedAt s e = some c from hc]; rfl))]
    exact h.owedAll e c hc
  · have := h.unburnt e hs ((hran e).trans hb)
    rwa [hpend, if_neg fun hr => hne e hs hr.symm] at this
  · have hg := h.liveFree (hs.imp (fun hn => hn) fun hb => (hran _).trans hb)
    show s.live.generation = (noteFrameEmitted s.ledger epoch).emitted s.live.epoch + gap floor slack s.live.epoch +
      (pending rest s.live.epoch).length
    rw [emitted_note]
    rw [hpend] at hg
    by_cases he : s.live.epoch = epoch
    · rw [if_pos he.symm, length_cons] at hg
      rw [if_pos he, hg, he]
      omega
    · rw [if_neg fun hr => he hr.symm] at hg
      rw [if_neg he, hg]
  · refine h.ahead e hlt ?_
    have hlt : s.live.epoch < e := hlt
    rwa [emitted_note, if_neg (by omega)] at hpos
  · have := h.oneBurn
    rw [ha] at this
    simpa [isBurnt] using this
  · have hc := h.checkpoints c k hk
    exact { hc with
      counted := fun e => Nat.le_trans (hc.counted e) (emitted_note_le _ _ _)
      captured := fun d hd => { hc.captured d hd with } }

/-- A burn that ended: its epoch owes nothing any more. -/
theorem inv_burnt_answer {epoch : Nat} {done : Bool} {rest : List Answer}
    (h : Inv floor slack s) (ha : s.answers = .burnt i epoch done :: rest) (owed : List (Nat × Nat))
    (ho : ∀ e, owed.lookup e = if done && e == epoch then none else s.owed.lookup e) :
    Inv floor slack { s with answers := rest, owed := owed } ∧ rest.countP isBurnt = 0 := by
  have hmem : ∀ a, a ∈ rest → a ∈ s.answers := fun a hm => ha ▸ mem_cons_of_mem _ hm
  have hpend : ∀ e, pending s.answers e = pending rest e := by
    intro e
    rw [ha]
    simp [pending]
  have hcount : rest.countP isBurnt = 0 := by
    have := h.oneBurn
    rw [ha, countP_cons] at this
    simp only [isBurnt, if_true] at this
    split at this <;> omega
  have hidle := not_burnRan hcount
  have hran : ∀ e, burnRan s.answers e = (epoch == e && done) := by
    intro e
    have := hidle e
    rw [ha]
    unfold burnRan at this ⊢
    rw [any_cons, this, Bool.or_false]
  have hsome : ∀ e, (owed.lookup e).isSome → (s.owed.lookup e).isSome ∧ (done && e == epoch) = false := by
    intro e hs
    rw [ho] at hs
    split at hs
    · cases hs
    · rename_i hc
      exact ⟨hs, by simpa using hc⟩
  have hunran : ∀ e, (owed.lookup e).isSome → burnRan s.answers e = false := by
    intro e hs
    have := (hsome e hs).2
    rw [hran]
    rw [Bool.and_comm, Bool.beq_comm]
    exact this
  have horder : InOrder (fun e => (s.owed.lookup e).isSome && !(done && e == epoch)) rest := by
    have := h.order
    rw [ha] at this
    exact this
  refine ⟨{ h with
    inFlight := fun e => hpend e ▸ h.inFlight e
    between := fun j e k hm => h.between j e k (hmem _ hm)
    order := horder.mono fun e he => ?_
    owedAll := fun e c hc => ?_
    unburnt := fun e hs _ => (hpend e).symm.trans (h.unburnt e (hsome e hs).1 (hunran e hs))
    burntAt := fun j e d hm => h.burntAt j e d (hmem _ hm)
    liveOwed := fun hs _ => h.liveOwed (hsome _ hs).1 (hunran _ hs)
    liveFree := fun hs => ?_
    ahead := fun e hlt hpos => ?_
    oneBurn := ?_
    checkpoints := fun c k hk => ?_ }, hcount⟩
  · have := hsome e he
    simp [this.1, this.2]
  · refine h.owedAll e c ?_
    have hc : owed.lookup e = some c := hc
    rw [ho] at hc
    split at hc
    · cases hc
    · exact hc
  · have hg : owedAt s s.live.epoch = none ∨ burnRan s.answers s.live.epoch = true := by
      rcases hs with hs | hs
      · have hs : owed.lookup s.live.epoch = none := hs
        rw [ho] at hs
        split at hs
        · rename_i hc
          right
          rw [hran, Bool.and_comm, Bool.beq_comm]
          exact hc
        · exact Or.inl hs
      · rw [hidle] at hs
        cases hs
    have := h.liveFree hg
    rwa [hpend] at this
  · show (owed.lookup e).isSome
    have hlt : s.live.epoch < e := hlt
    have hle := h.burntAt i epoch done (ha ▸ mem_cons_self)
    rw [ho, if_neg]
    · exact h.ahead e hlt hpos
    · simp only [Bool.and_eq_true, beq_iff_eq, not_and]
      intro _
      omega
  · rw [hcount]
    exact Nat.zero_le _
  · have hc := h.checkpoints c k hk
    refine { hc with free := fun e hpos => ?_, captured := fun d hd => { hc.captured d hd with } }
    show owed.lookup e = none
    rw [ho]
    split
    · rfl
    · exact hc.free e hpos

theorem inv_answer (h : Inv floor slack s) (hs : step s .answer = some s') : Inv floor slack s' := by
  simp only [step] at hs
  split at hs
  · rename_i a rest ha
    cases hs
    cases a with
    | sealed i epoch generation =>
      have hfree : ¬ (owedAt { s with answers := rest } epoch).isSome := by
        have := h.order
        rw [ha] at this
        exact Bool.eq_false_iff.mp this.1
      simp only [answered]
      rw [if_neg hfree]
      exact inv_sends (inv_sealed h ha) i none
    | burnt i epoch done =>
      cases done with
      | true =>
        obtain ⟨hinv, hcount⟩ := inv_burnt_answer h ha (s.owed.filter fun o => o.1 != epoch) fun e => by
          have := JsMap.lookup_filter_key (p := fun e => e != epoch) s.owed e
          rw [this]
          by_cases he : e = epoch
          · simp [he]
          · simp [he]
        exact inv_settled hinv hcount fun e => Or.inl rfl
      | false =>
        obtain ⟨hinv, hcount⟩ := inv_burnt_answer h ha s.owed fun e => by simp
        refine inv_calls hinv (fun e => Or.inl rfl) ?_ (fun x hx => h.settles x (mem_of_mem_tail hx)) (fun e he => by
          cases he)
        rw [hcount]
        exact Nat.zero_le _
  · cases hs

/-! ## The checkpoints -/

/-- One checkpoint changes, the others stay. -/
theorem inv_checkpoint (h : Inv floor slack s) (c : Nat) {v : Option Checkpoint}
    (hv : ∀ k, v = some k → CheckpointOk floor slack s k)
    (hcap : ∀ k d, v = some k → k.captured = some d → ∀ c' k' d', c' ≠ c → s.checkpoints c' = some k' →
    k'.captured = some d' →
      (d.version ≤ d'.version → Le d.ratchet d'.ratchet) ∧ (d'.version ≤ d.version → Le d'.ratchet d.ratchet)) :
    Inv floor slack { s with checkpoints := Function.update s.checkpoints c v } := by
  have hcase : ∀ c' k, Function.update s.checkpoints c v c' = some k → (c' = c ∧ v = some k) ∨
    (c' ≠ c ∧ s.checkpoints c' = some k) := by
    intro c' k hk
    by_cases e : c' = c
    · subst e
      rw [Function.update_self] at hk
      exact Or.inl ⟨rfl, hk⟩
    · rw [Function.update_of_ne e] at hk
      exact Or.inr ⟨e, hk⟩
  refine { h with checkpoints := fun c' k hk => ?_, captured := fun a b k k' d d' hk hk' hd hd' hle => ?_ }
  · have hc : CheckpointOk floor slack s k := by
      rcases hcase c' k hk with ⟨_, hv'⟩ | ⟨_, hk⟩
      · exact hv k hv'
      · exact h.checkpoints c' k hk
    exact { hc with captured := fun d hd => { hc.captured d hd with } }
  · rcases hcase a k hk with ⟨ha, hka⟩ | ⟨ha, hka⟩ <;> rcases hcase b k' hk' with ⟨hb, hkb⟩ | ⟨hb, hkb⟩
    · rw [hka] at hkb
      cases hkb
      rw [hd] at hd'
      cases hd'
      exact Or.inr ⟨rfl, Nat.le_refl _⟩
    · exact (hcap k d hka hd b k' d' hb hkb hd').1 hle
    · exact (hcap k' d' hkb hd' a k d ha hka hd).2 hle
    · exact h.captured a b k k' d d' hka hkb hd hd' hle

variable {c : Nat}

theorem inv_persistCheckpoint (h : Inv floor slack s)
    (hs : step s (.persistCheckpoint c) = some s') : Inv floor slack s' := by
  simp only [step] at hs
  split at hs
  · cases hs
    refine inv_checkpoint h c (fun k hk => ?_) fun k d hk hd => by cases hk; cases hd
    cases hk
    -- a ratchet that is owed a burn is left out
    have hin : ∀ e, 0 < (if (sendRatchetsNotDurable s).contains e then 0 else s.ledger.emitted e) →
        owedAt s e = none ∧ 0 < s.ledger.emitted e := by
      intro e hpos
      split at hpos
      · omega
      · rename_i hnot
        refine ⟨?_, hpos⟩
        by_contra hne
        obtain ⟨count, hc⟩ := ne_none_iff_exists'.mp hne
        refine hnot ?_
        have hmem := lookup_eq_some_iff.mp hc
        simp only [contains_iff_mem, sendRatchetsNotDurable, mem_append, List.mem_map]
        obtain ⟨l₁, l₂, heq, _⟩ := hmem
        exact Or.inr ⟨(e, count), by rw [heq]; simp, rfl⟩
    refine ⟨fun e => ?_, fun e hpos => (hin e hpos).1, fun e hpos => ?_, fun d hd => (by cases hd),
      fun hl => (by cases hl)⟩
    · show (if _ then 0 else _) ≤ _
      split
      · exact Nat.zero_le _
      · exact Nat.le_refl _
    · by_contra hlt
      have := h.ahead e (by omega) (hin e hpos).2
      rw [(hin e hpos).1] at this
      cases this
  · cases hs

theorem inv_capture (h : Inv floor slack s) (hs : step s (.capture c) = some s') :
    Inv floor slack s' := by
  simp only [step] at hs
  split at hs
  · rename_i snapshot _ hk
    cases hs
    have hc := h.checkpoints c _ hk
    have hmore : Inv floor slack { s with captures := s.captures + 1 } := by
      refine { h with diskVersion := Nat.le_succ_of_le h.diskVersion, checkpoints := fun c' k' hk' => ?_ }
      have hc' := h.checkpoints c' k' hk'
      exact { hc' with captured :=
        fun d hd => { hc'.captured d hd with version := Nat.le_succ_of_le (hc'.captured d hd).version } }
    refine inv_checkpoint (s := { s with captures := s.captures + 1 }) hmore c (fun k hk' => ?_)
      fun k d hk' hd c' k' d' hne hk'' hd' => ?_
    · cases hk'
      refine ⟨hc.counted, hc.free, hc.reached, fun d hd => ?_, fun hl => by cases hl⟩
      cases hd
      refine ⟨Nat.le_trans h.floorLe h.diskLe.epoch, Or.inr ⟨rfl, Nat.le_refl _⟩, Nat.le_refl _, hc.reached, ?_,
        fun hv => ?_, fun _ => h.diskLe⟩
      · show snapshot s.live.epoch + gap floor slack s.live.epoch ≤ s.live.generation
        have hcount := hc.counted s.live.epoch
        simp only at hcount
        by_cases hfree : owedAt s s.live.epoch = none ∨ burnRan s.answers s.live.epoch = true
        · rw [h.liveFree hfree]
          omega
        · rw [not_or] at hfree
          obtain ⟨count, hcnt⟩ := ne_none_iff_exists'.mp hfree.1
          rw [gap_later (h.owedAll _ _ hcnt).2]
          have : ¬ 0 < snapshot s.live.epoch := fun hpos => hfree.1 (hc.free _ hpos)
          omega
      · have hv : s.captures + 1 ≤ s.disk.version := hv
        have := h.diskVersion
        omega
    · cases hk'
      cases hd
      have hd'' := (h.checkpoints c' k' hk'').captured d' hd'
      refine ⟨fun hle => ?_, fun _ => hd''.liveLe⟩
      have hle : s.captures + 1 ≤ d'.version := hle
      have := hd''.version
      omega
  · cases hs

theorem inv_land (h : Inv floor slack s) (hs : step s (.land c) = some s') :
    Inv floor slack s' := by
  simp only [step] at hs
  split at hs
  · rename_i snapshot stored hk
    cases hs
    have hc := h.checkpoints c _ hk
    have hd := hc.captured stored rfl
    -- the same checkpoint, marked as landed, once the store holds it or a later one
    have mark : ∀ t : St, t.checkpoints = s.checkpoints → Inv floor slack t → Le stored.ratchet t.disk.ratchet →
        Inv floor slack { t with checkpoints := Function.update t.checkpoints c (some ⟨snapshot, some stored, true⟩) } := by
      intro t ht hinv hle
      have hkt : t.checkpoints c = some ⟨snapshot, some stored, false⟩ := ht ▸ hk
      have hct := hinv.checkpoints c _ hkt
      refine inv_checkpoint hinv c (fun k hk' => ?_) fun k d hk' hd' c' k' d' _ hk'' hd'' => ?_
      · cases hk'
        exact ⟨hct.counted, hct.free, hct.reached, hct.captured, fun _ => ⟨stored, rfl, hle⟩⟩
      · cases hk'
        cases hd'
        exact ⟨hinv.captured c c' _ k' stored d' hkt hk'' rfl hd'', hinv.captured c' c k' _ d' stored hk'' hkt hd'' rfl⟩
    by_cases hv : stored.version > s.disk.version
    · rw [if_pos hv]
      have hle := hd.newer (Nat.le_of_lt hv)
      refine mark { s with disk := stored } rfl ?_ (Or.inr ⟨rfl, Nat.le_refl _⟩)
      refine { h with
        floorLe := hd.floorLe
        diskLe := hd.liveLe
        diskVersion := hd.version
        stored := fun e hpos => Nat.le_trans (h.stored e hpos) hle.epoch
        restores := ?_
        checkpoints := fun c' k' hk' => ?_ }
      · show s.ledger.persisted stored.ratchet.epoch + gap floor slack stored.ratchet.epoch ≤ stored.ratchet.generation
        have hr := h.restores
        rcases hle with hlt | ⟨he, hg⟩
        · have hp : ¬ 0 < s.ledger.persisted stored.ratchet.epoch := fun hpos => by
            have := h.stored _ hpos
            omega
          rw [gap_later (Nat.lt_of_le_of_lt h.floorLe hlt)]
          omega
        · rw [he] at hr
          omega
      · have hc' := h.checkpoints c' k' hk'
        refine { hc' with
          captured := fun d hd' => { hc'.captured d hd' with older := ?_, newer := ?_ }
          landed := fun hl => ?_ }
        · exact h.captured c' c k' _ d stored hk' hk hd' rfl
        · exact h.captured c c' _ k' stored d hk hk' rfl hd'
        · obtain ⟨d, hd', hdl⟩ := hc'.landed hl
          exact ⟨d, hd', hdl.trans hle⟩
    · rw [if_neg hv]
      exact mark s rfl h (hd.older (Nat.le_of_not_lt hv))
  · cases hs

theorem inv_commit (h : Inv floor slack s) (hs : step s (.commit c) = some s') :
    Inv floor slack s' := by
  simp only [step] at hs
  split at hs
  · rename_i snapshot captured hk
    cases hs
    have hc := h.checkpoints c _ hk
    obtain ⟨d, hd, hle⟩ := hc.landed rfl
    have hcap := hc.captured d hd
    have hlate : ∀ e, 0 < snapshot e → e ≤ s.disk.ratchet.epoch :=
      fun e hpos => Nat.le_trans (hcap.reached e hpos) hle.epoch
    have hledger : Inv floor slack { s with ledger := commitPersisted s.ledger snapshot } := by
      refine { h with
        persisted := fun e => Nat.max_le.mpr ⟨h.persisted e, hc.counted e⟩
        stored := fun e hpos => ?_
        restores := ?_
        checkpoints := fun c' k' hk' => ?_ }
      · have hpos : 0 < max (s.ledger.persisted e) (snapshot e) := hpos
        have hor : 0 < s.ledger.persisted e ∨ 0 < snapshot e := by omega
        rcases hor with hp | hn
        · exact h.stored e hp
        · exact hlate e hn
      · show max (s.ledger.persisted s.disk.ratchet.epoch)
          (snapshot s.disk.ratchet.epoch) + gap floor slack s.disk.ratchet.epoch ≤
          s.disk.ratchet.generation
        have hr := h.restores
        have hn : snapshot s.disk.ratchet.epoch + gap floor slack s.disk.ratchet.epoch ≤ s.disk.ratchet.generation ∨
            snapshot s.disk.ratchet.epoch = 0 := by
          rcases hle with hlt | ⟨he, hg⟩
          · right
            by_contra hne
            have := hcap.reached _ (Nat.pos_of_ne_zero hne)
            omega
          · left
            have := hcap.holds
            simp only [he] at this
            omega
        omega
      · have hc' := h.checkpoints c' k' hk'
        exact { hc' with captured := fun d hd => { hc'.captured d hd with } }
    exact inv_checkpoint hledger c (fun k hk' => by cases hk') fun k d hk' => by cases hk'
  · cases hs

/-! ## The load -/

variable {r : Nat}

theorem debt_spent (h : debtOf l (some r) e = .spent) : e < r := by
  by_contra hge
  have hany : ¬ (e < r) := hge
  simp only [debtOf, sendRatchetDebt, sendRatchetEntry, any_some, decide_eq_true_eq, hany, if_false] at h
  repeat' split at h
  all_goals cases h

theorem debt_at (hle : l.persisted r ≤ l.emitted r) :
    (l.emitted r = l.persisted r ∧ debtOf l (some r) r = .settled) ∨
    ∃ clamped, debtOf l (some r) r = .burnNow (min (l.emitted r - l.persisted r) MAX_BURN_GENERATIONS) clamped ∧
      (clamped = false → l.emitted r - l.persisted r ≤ MAX_BURN_GENERATIONS) := by
  simp only [debtOf, sendRatchetDebt, sendRatchetEntry, any_some, gt_iff_lt, Nat.lt_irrefl, decide_false,
    Bool.false_eq_true, if_false]
  split
  · left
    exact ⟨by omega, rfl⟩
  · right
    refine ⟨decide ((MAX_BURN_GENERATIONS : Int) < (l.emitted r : Int) - (l.persisted r : Int)), ?_, fun hc => ?_⟩
    · congr 2
      omega
    · simp only [decide_eq_false_iff_not] at hc
      omega

theorem debt_ahead (hlt : r < e) (hpos : 0 < l.emitted e) :
    ∃ clamped, debtOf l (some r) e = .onArrival (min (l.emitted e) MAX_BURN_GENERATIONS) clamped ∧
      (clamped = false → l.emitted e ≤ MAX_BURN_GENERATIONS) := by
  have hnot : ¬ e < r := by omega
  have hraw : ¬ ((l.emitted e : Int) ≤ 0) := by omega
  simp only [debtOf, sendRatchetDebt, sendRatchetEntry, any_some, hnot, decide_false, Bool.false_eq_true, if_false,
    gt_iff_lt, hlt,
    decide_true, if_true, hraw]
  refine ⟨_, rfl, fun hc => ?_⟩
  simp only [decide_eq_false_iff_not] at hc
  omega

theorem debt_not_now {clamped : Bool} (h : debtOf l (some r) e = .burnNow count clamped) : e = r := by
  by_contra hne
  rcases Nat.lt_or_gt_of_ne hne with hlt | hgt
  · simp [debtOf, sendRatchetDebt, sendRatchetEntry, hlt] at h
  · have hnot : ¬ e < r := by omega
    simp only [debtOf, sendRatchetDebt, sendRatchetEntry, any_some, hnot, decide_false, Bool.false_eq_true, if_false,
      gt_iff_lt, hgt,
      decide_true, if_true] at h
    split at h <;> cases h

theorem arrival_later (h : arrivalDebt (debtOf l (some r) e) = some count) : r < e ∧ 0 < l.emitted e := by
  unfold arrivalDebt at h
  split at h
  · rename_i clamped hd
    by_cases hlt : r < e
    · refine ⟨hlt, ?_⟩
      by_contra hpos
      have hz : l.emitted e = 0 := by omega
      have hnot : ¬ e < r := by omega
      simp [debtOf, sendRatchetDebt, sendRatchetEntry, hlt, hnot, hz] at hd
    · exfalso
      by_cases hs : e < r
      · simp [debtOf, sendRatchetDebt, sendRatchetEntry, hs] at hd
      · have he : e = r := by omega
        subst he
        simp only [debtOf, sendRatchetDebt, sendRatchetEntry, any_some, gt_iff_lt, Nat.lt_irrefl, decide_false,
          Bool.false_eq_true,
          if_false] at hd
        split at hd <;> cases hd
  · cases h

/-- At the load the ratchet is moved by what the stored state was not told. -/
theorem burntAtLoad_eq {burns : Nat → Burn} (hn : l.keys.Nodup) (hkeys : 0 < l.emitted r → r ∈ l.keys)
    (hle : l.persisted r ≤ l.emitted r)
    (hdone : ∀ count clamped, debtOf l (some r) r = .burnNow count clamped → burns r = .done)
    (hbound : ∀ count clamped, debtOf l (some r) r = .burnNow count clamped → clamped = false) :
    burntAtLoad l (some r) burns = l.emitted r - l.persisted r := by
  unfold burntAtLoad
  rw [sum_map_single hn (a := r) fun e hne => ?_]
  · rcases debt_at hle with ⟨heq, hd⟩ | ⟨clamped, hd, hc⟩
    · rw [hd]
      simp only [ite_self]
      omega
    · have hmax := hc (hbound _ _ hd)
      have hz : r ∉ l.keys → l.emitted r = 0 := fun hk => by
        by_contra hpos
        exact hk (hkeys (Nat.pos_of_ne_zero hpos))
      rw [hd]
      simp only [hdone _ _ hd, Burn.moved]
      split
      · omega
      · rename_i hk
        have := hz hk
        omega
  · cases hd : debtOf l (some r) e with
    | burnNow count clamped => exact absurd (debt_not_now hd) hne
    | _ => rfl

/-! ### What a load keeps and what it owes -/

theorem forgotten_past (h : (forgottenAtLoad l (some r)).contains e = true) : e < r := by
  simp only [forgottenAtLoad, contains_iff_mem, mem_filter, beq_iff_eq] at h
  exact debt_spent h.2

theorem forget_keeps (hle : r ≤ e) :
    (forgetSendRatchetEntries l (forgottenAtLoad l (some r))).emitted e = l.emitted e ∧
      (forgetSendRatchetEntries l (forgottenAtLoad l (some r))).persisted e = l.persisted e := by
  have hkept : ¬ (forgottenAtLoad l (some r)).contains e = true :=
    fun hc => absurd (forgotten_past hc) (Nat.not_lt.mpr hle)
  simp only [forgetSendRatchetEntries, if_neg hkept, and_self]

theorem forget_le (l : Ledger) (gone : List Nat) (e : Nat) :
    (forgetSendRatchetEntries l gone).emitted e ≤ l.emitted e ∧
      (forgetSendRatchetEntries l gone).persisted e ≤ l.persisted e := by
  simp only [forgetSendRatchetEntries]
  split <;> omega

theorem forget_persisted (h : ∀ e, l.persisted e ≤ l.emitted e) (gone : List Nat) (e : Nat) :
    (forgetSendRatchetEntries l gone).persisted e ≤ (forgetSendRatchetEntries l gone).emitted e := by
  have := h e
  simp only [forgetSendRatchetEntries]
  split <;> omega

theorem mem_keys_forget (hkeys : ∀ e, 0 < l.emitted e → e ∈ l.keys) {gone : List Nat}
    (hpos : 0 < (forgetSendRatchetEntries l gone).emitted e) : e ∈ (forgetSendRatchetEntries l gone).keys := by
  refine mem_filter.mpr ⟨hkeys e (Nat.lt_of_lt_of_le hpos (forget_le l gone e).1), ?_⟩
  by_contra hc
  have hc : gone.contains e = true := by simpa using hc
  simp only [forgetSendRatchetEntries, if_pos hc] at hpos
  exact Nat.lt_irrefl _ hpos

def Within (l : Ledger) (r : Nat) : Prop :=
  ∀ e ∈ l.keys, ∀ count clamped,
    (debtOf l (some r) e = .burnNow count clamped ∨ debtOf l (some r) e = .onArrival count clamped) → clamped = false

theorem lookup_owed_ahead (hw : Within l r) (hkeys : ∀ e, 0 < l.emitted e → e ∈ l.keys) (hlt : r < e)
    (hpos : 0 < l.emitted e) :
    (owedAtLoad l (some r)).lookup e = some (l.emitted e) := by
  have hk := hkeys e hpos
  obtain ⟨clamped, hd, hc⟩ := debt_ahead hlt hpos
  have hmax := hc (hw e hk _ _ (Or.inr hd))
  rw [lookup_owedAtLoad, if_pos hk, hd]
  simp only [arrivalDebt, some.injEq]
  omega

theorem of_lookup_owed (hw : Within l r) (hkeys : ∀ e, 0 < l.emitted e → e ∈ l.keys)
    (hc : (owedAtLoad l (some r)).lookup e = some count) : count = l.emitted e ∧ r < e := by
  have hc' := hc
  rw [lookup_owedAtLoad] at hc
  split at hc
  · obtain ⟨hlt, hpos⟩ := arrival_later hc
    rw [lookup_owed_ahead hw hkeys hlt hpos] at hc'
    exact ⟨(some.inj hc').symm, hlt⟩
  · cases hc

theorem burnt_of_within {burns : Nat → Burn} (hw : Within l r) (hn : l.keys.Nodup)
    (hkeys : ∀ e, 0 < l.emitted e → e ∈ l.keys)
    (hp : l.persisted r ≤ l.emitted r)
    (hdone : ∀ count clamped, debtOf l (some r) r = .burnNow count clamped → burns r = .done) :
    burntAtLoad l (some r) burns = l.emitted r - l.persisted r := by
  refine burntAtLoad_eq hn (hkeys _) hp hdone fun count clamped hd => ?_
  by_cases hk : r ∈ l.keys
  · exact hw _ hk _ _ (Or.inl hd)
  · -- an epoch without an entry owes nothing
    exfalso
    have hz : l.emitted r = 0 := by
      by_contra hpos
      exact hk (hkeys _ (Nat.pos_of_ne_zero hpos))
    rcases debt_at hp with ⟨_, hset⟩ | ⟨_, hnow, _⟩
    · rw [hset] at hd
      cases hd
    · simp [debtOf, sendRatchetDebt, sendRatchetEntry, hz] at hnow

theorem inv_reload {epochRead : Bool} {burns : Nat → Burn} (h : Inv floor slack s)
    (hok : countsEveryAdvance s (.reload epochRead burns) = true)
    (hbound : debtsWithinBound s (.reload epochRead burns) = true)
    (hs : step s (.reload epochRead burns) = some s') : ∃ floor' slack', Inv floor' slack' s' := by
  simp only [countsEveryAdvance, Bool.and_eq_true] at hok
  obtain ⟨hread, hdone⟩ := hok
  subst hread
  simp only [step, if_true] at hs
  cases hs
  have hwithin : Within s.ledger s.disk.ratchet.epoch := by
    intro e he count clamped hd
    simp only [debtsWithinBound, if_true, List.all_eq_true] at hbound
    have := hbound e he
    rcases hd with hd | hd
    · rw [hd] at this
      simpa using this
    · rw [hd] at this
      simpa using this
  have hburnt : burntAtLoad s.ledger (some s.disk.ratchet.epoch) burns =
      s.ledger.emitted s.disk.ratchet.epoch - s.ledger.persisted s.disk.ratchet.epoch := by
    refine burnt_of_within hwithin h.keysNodup h.keys (h.persisted _) fun count clamped hd => ?_
    rw [hd] at hdone
    simpa using hdone
  have hrest := h.restores
  have hpers := h.persisted s.disk.ratchet.epoch
  refine ⟨s.disk.ratchet.epoch, s.disk.ratchet.generation - s.ledger.persisted s.disk.ratchet.epoch, ?_⟩
  have hgap : gap s.disk.ratchet.epoch
    (s.disk.ratchet.generation - s.ledger.persisted s.disk.ratchet.epoch) s.disk.ratchet.epoch =
      s.disk.ratchet.generation - s.ledger.persisted s.disk.ratchet.epoch := if_pos rfl
  refine {
    fresh := h.fresh
    below := fun f hf hle => ?_
    floorLe := Nat.le_refl _
    diskLe := Or.inr ⟨rfl, Nat.le_add_right _ _⟩
    diskVersion := h.diskVersion
    inFlight := fun e => rfl
    between := fun i e k hm => by cases hm
    order := trivial
    owedAll := fun e count hc => ?_
    unburnt := fun e _ _ => rfl
    burntAt := fun i e d hm => by cases hm
    liveOwed := fun hsome _ => ?_
    liveFree := fun _ => ?_
    ahead := fun e hlt hpos => ?_
    persisted := forget_persisted h.persisted _
    stored := fun e hpos => h.stored e (Nat.lt_of_lt_of_le hpos (forget_le _ _ e).2)
    restores := ?_
    keys := fun e => mem_keys_forget h.keys
    keysNodup := h.keysNodup.filter _
    oneBurn := Nat.zero_le _
    settles := fun x hx => by cases hx
    readLe := fun e he => by cases he
    checkpoints := fun c k hk => by cases hk
    captured := fun c c' k k' d d' hk => by cases hk }
  · have hf' := h.below f hf (Nat.le_trans h.floorLe hle)
    rw [(forget_keeps hle).1]
    by_cases he : f.1 = s.disk.ratchet.epoch
    · rw [he] at hf' ⊢
      omega
    · have hlt : s.disk.ratchet.epoch < f.1 := by omega
      rw [gap_later (Nat.lt_of_le_of_lt h.floorLe hlt)] at hf'
      rw [gap_later hlt]
      exact hf'
  · obtain ⟨h1, h2⟩ := of_lookup_owed hwithin h.keys hc
    exact ⟨h1.trans (forget_keeps (Nat.le_of_lt h2)).1.symm, h2⟩
  · exfalso
    obtain ⟨count, hc⟩ := isSome_iff_exists.mp hsome
    exact Nat.lt_irrefl _ (of_lookup_owed hwithin h.keys hc).2
  · show s.disk.ratchet.generation + burntAtLoad s.ledger
      (some s.disk.ratchet.epoch) burns = _ + gap _ _ s.disk.ratchet.epoch + 0
    rw [(forget_keeps (Nat.le_refl _)).1]
    omega
  · show ((owedAtLoad s.ledger (some s.disk.ratchet.epoch)).lookup e).isSome
    rw [lookup_owed_ahead hwithin h.keys hlt (Nat.lt_of_lt_of_le hpos (forget_le _ _ e).1)]
    rfl
  · show (forgetSendRatchetEntries s.ledger (forgottenAtLoad s.ledger (some s.disk.ratchet.epoch))).persisted
      s.disk.ratchet.epoch +
      gap s.disk.ratchet.epoch (s.disk.ratchet.generation - s.ledger.persisted s.disk.ratchet.epoch)
        s.disk.ratchet.epoch ≤ s.disk.ratchet.generation
    rw [(forget_keeps (Nat.le_refl _)).2]
    omega

/-! ## Every run -/

theorem inv_init (h0 : Init s) : Inv s.live.epoch s.live.generation s := by
  obtain ⟨hdisk, hledger, howed, _, _, hsettles, hsettle, hanswers, hcheck, hhanded⟩ := h0
  constructor <;> simp [hdisk, hledger, howed, hsettles, hsettle, hanswers, hcheck, hhanded, Ledger.empty, Le,
    pending, owedAt, burnRan,
    gap, InOrder]

theorem inv_step (s : St) (e : Ev) (s' : St) (h : ∃ floor slack, Inv floor slack s)
    (hok : countsEveryAdvance s e = true ∧ debtsWithinBound s e = true)
    (hs : step s e = some s') : ∃ floor slack, Inv floor slack s' := by
  obtain ⟨floor, slack, h⟩ := h
  cases e with
  | send i =>
    simp only [step] at hs
    split at hs
    · cases hs; exact ⟨floor, slack, inv_sends h i _⟩
    · cases hs
  | check i =>
    simp only [step] at hs
    split at hs
    · split at hs
      · cases hs
        refine ⟨floor, slack, inv_calls h (fun _ => Or.inl rfl) h.oneBurn (fun x hx => ?_) h.readLe⟩
        rcases mem_append.mp hx with hx | hx
        · exact h.settles x hx
        · rw [mem_singleton.mp hx]
      · cases hs; exact ⟨floor, slack, inv_sends h i _⟩
    · cases hs
  | readEpoch epoch =>
    simp only [step] at hs
    split at hs
    · rename_i hsettles hsettle
      split at hs
      · rename_i hc
        cases hs
        simp only [Bool.and_eq_true, decide_eq_true_eq] at hc
        refine ⟨floor, slack, inv_calls h (fun _ => Or.inl rfl) ?_ h.settles fun e he => by cases he; exact hc.2⟩
        have := h.oneBurn
        rwa [hsettle] at this
      · cases hs
    · cases hs
  | skipBurn =>
    simp only [step] at hs
    split at hs
    · cases hs
    split at hs
    · rename_i hc
      cases hs
      simp only [Bool.and_eq_true, beq_iff_eq] at hc
      have hnone : s.answers.countP isBurnt = 0 := by
        have := h.oneBurn
        rw [hc.2] at this
        exact Nat.le_zero.mp this
      exact ⟨floor, slack, inv_settled h hnone fun _ => Or.inl rfl⟩
    · split at hs
      · rename_i epoch he
        obtain ⟨hle, hnone⟩ := settleEpoch_spec h he
        split at hs
        · cases hs; exact ⟨floor, slack, inv_settled h hnone (dropPassed_keeps hle)⟩
        · cases hs
      · cases hs
  | burn result => exact ⟨floor, slack, inv_burn h hok.1 hs⟩
  | encrypt i => exact ⟨floor, slack, inv_encrypt h hok.1 hs⟩
  | encryptFails i =>
    simp only [step] at hs
    split at hs
    · cases hs; exact ⟨floor, slack, inv_sends h i none⟩
    · cases hs
  | answer => exact ⟨floor, slack, inv_answer h hs⟩
  | merge => cases hs; exact ⟨floor, slack, inv_merge h⟩
  | persistCheckpoint c => exact ⟨floor, slack, inv_persistCheckpoint h hs⟩
  | capture c => exact ⟨floor, slack, inv_capture h hs⟩
  | land c => exact ⟨floor, slack, inv_land h hs⟩
  | commit c => exact ⟨floor, slack, inv_commit h hs⟩
  | checkpointFails c =>
    cases hs
    exact ⟨floor, slack, inv_checkpoint h c (fun k hk => by cases hk) fun k d hk => by cases hk⟩
  | reload epochRead burns => exact inv_reload h hok.1 hok.2 hs

/-- Along every run whose advances of the ratchet are all accounted for, with no debt past
    the bound, no two frames handed over have the same epoch and generation. -/
theorem no_spent_generation_reused {s : St}
    (h : machine.ReachBy (fun s e => (countsEveryAdvance s e && debtsWithinBound s e) = true) s) : s.handed.Nodup := by
  obtain ⟨floor, slack, hinv⟩ := Machine.ReachBy.invariant (I := fun s => ∃ floor slack, Inv floor slack s)
    (fun s h0 => ⟨s.live.epoch, s.live.generation, inv_init h0⟩)
    (fun s e s' hi ho => inv_step s e s' hi (Bool.and_eq_true_iff.mp ho)) h
  exact hinv.fresh

/-! ## Runs -/

def joined : St where
  live := ⟨4, 0⟩
  disk := ⟨⟨4, 0⟩, 0⟩
  ledger := Ledger.empty
  owed := []
  unproven := []
  sends := fun _ => none
  settles := []
  settle := .waiting
  answers := []
  checkpoints := fun _ => none
  captures := 0
  handed := []

theorem joined_init : Init joined := ⟨rfl, rfl, rfl, rfl, rfl, rfl, rfl, rfl, rfl, rfl⟩

def sent (i : Nat) : List Ev := [.send i, .check i, .encrypt i, .answer]

def sentPastBurn (i epoch : Nat) : List Ev :=
    [.send i, .check i, .readEpoch epoch, .burn .done, .answer, .encrypt i, .answer]

/-- A checkpoint overtaken by a send, a merge, two sends and a crash: the second epoch's
    frames are burnt when the group gets there again. -/
def repairedRun : List Ev :=
  sent 0 ++ [Ev.persistCheckpoint 0, .capture 0] ++ sent 0 ++ [Ev.land 0, .commit 0, .merge] ++ sent 0 ++ sent 1 ++
    [Ev.reload true fun _ => .done, .send 0, .check 0, .readEpoch 4, .skipBurn, .encrypt 0, .answer, .merge] ++
      sentPastBurn 2 5

theorem repairedRun_reuses_nothing : ∃ s,
    machine.runBy (fun s e => countsEveryAdvance s e && debtsWithinBound s e) joined repairedRun = some s ∧
    s.handed = [(4, 0), (4, 1), (5, 0), (5, 1), (4, 2), (5, 2)] ∧ s.handed.Nodup := by
  have hr : (machine.runBy (fun s e => countsEveryAdvance s e &&
    debtsWithinBound s e) joined repairedRun).map (·.handed) =
      some [(4, 0), (4, 1), (5, 0), (5, 1), (4, 2), (5, 2)] := by decide
  obtain ⟨s, hs, hh⟩ := map_eq_some_iff.mp hr
  exact ⟨s, hs, hh, no_spent_generation_reused (Machine.reachBy_of_run _ joined_init hs)⟩

/-- The burn at the load fails and is only logged; the next frame is sealed where the first was. -/
def failedBurnRun : List Ev := sent 0 ++ [Ev.reload true fun _ => .failed 0] ++ sent 0

theorem a_failed_burn_at_load_reuses_a_generation :
    ¬ ∀ s, machine.ReachBy (fun s e => debtsWithinBound s e = true) s → s.handed.Nodup := by
  intro h
  have hr : (machine.runBy debtsWithinBound joined failedBurnRun).map (·.handed) = some [(4, 0), (4, 0)] := by decide
  obtain ⟨s, hs, hh⟩ := map_eq_some_iff.mp hr
  have hn := h s (Machine.reachBy_of_run _ joined_init hs)
  rw [hh] at hn
  revert hn
  decide

/-- A commit arrives between the settle and the seal: the frame is dropped, its generation is
    spent and not counted, and after a crash the burn falls one short. No burn fails. -/
def droppedRun : List Ev :=
  [Ev.merge] ++ sent 0 ++ [Ev.reload true fun _ => .done, .send 0, .check 0, .readEpoch 4, .skipBurn, .merge,
    .encrypt 0, .answer,
    .burn .done, .answer, .check 0, .encrypt 0, .answer, .reload true fun _ => .done, .merge] ++ sentPastBurn 1 5

theorem a_dropped_frame_reuses_a_generation : ∃ s, machine.ReachBy (fun s e => debtsWithinBound s e = true) s ∧
    s.handed = [(5, 0), (5, 2), (5, 2)] := by
  have hr : (machine.runBy debtsWithinBound joined droppedRun).map (·.handed) = some [(5, 0), (5, 2), (5, 2)] := by
    decide
  obtain ⟨s, hs, hh⟩ := map_eq_some_iff.mp hr
  exact ⟨s, Machine.reachBy_of_run _ joined_init hs, hh⟩

end Canari.Mls.SpentGenerations
