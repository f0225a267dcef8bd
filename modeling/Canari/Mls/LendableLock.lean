/-
  Canari.Mls.LendableLock — the client mutex with any number of acquirers
  (`frontend/src/lib/mls-client/mlsPerGroupScheduler.ts`: `acquireExclusive`, `enqueueWaiter`,
  `grantMain`, `lendMlsLockWhile`, `mayBorrow`, `grantBorrow`, `offerLoan`).

  `Mls.PerGroupScheduler` has the mutex as the one drain uses it. Here every acquisition is a
  waiter of its own: exclusive, of a commit, or of one frame. A waiter granted the mutex holds
  it; a commit that holds it may lend it while its request is on the network, to one frame at a
  time. A loan is an object the borrower's release keeps: `loans` has all that were made.

  An event is a stretch of code between two awaits. A commit releases when its body has settled
  (`runCommitUnderMlsLock`), and the body awaits `lendMlsLockWhile`, so it does not release from
  inside its loan; a release called again does nothing.
  - `lock_safe`: in every run, at most one party is active, a borrower is a frame of another
    group, a loan returns with no borrower left, and a free mutex has nobody waiting.
-/

import Canari.Lib.Machine
import Canari.Mls.PerGroupScheduler

namespace Canari.Mls.LendableLock

open Lib List Option
open Mls.Scheduler (mlsQueueOrphanKey)

/-- An acquisition; `id` tells those that ask for the same apart. -/
inductive MlsLockWaiter where
  | frame (id : Nat) (frameKey : String)
  | exclusive (id : Nat) (commitGroup : Option String)
  deriving DecidableEq

def MlsLockWaiter.frameKey : MlsLockWaiter → Option String
  | .frame _ frameKey => some frameKey
  | .exclusive .. => none

def MlsLockWaiter.commitGroup : MlsLockWaiter → Option String
  | .frame .. => none
  | .exclusive _ commitGroup => commitGroup

/-- The `reclaim` callback of a loan: not set, set, called. -/
inductive Reclaim where
  | null
  | pending
  | resolved
  deriving DecidableEq

structure MlsLockLoan where
  groupId : String
  borrowed : Bool
  closing : Bool
  reclaim : Reclaim

/-- Where an acquisition is. `holding` and `borrowing` may use the client; a holder that lends, and
    one that waits for its last borrower, is suspended in `lendMlsLockWhile`. -/
inductive Phase where
  | idle
  | waiting
  | bounced
  | holding
  | lending (loan : Nat)
  | reclaiming (loan : Nat)
  | borrowing (loan : Nat)
  | released
  deriving DecidableEq

structure Lock where
  lockHeld : Bool
  committingGroup : Option String
  lockWaiters : List MlsLockWaiter
  loan : Option Nat
  loans : List MlsLockLoan
  phase : MlsLockWaiter → Phase

namespace Lock

def setPhase (l : Lock) (w : MlsLockWaiter) (p : Phase) : Lock := { l with phase := Function.update l.phase w p }

def isFrameHeldBack (l : Lock) (frameKey : String) : Bool :=
  match l.committingGroup with
  | none => false
  | some committing => decide (frameKey = committing ∨ frameKey = mlsQueueOrphanKey)

/-- The test of `enqueueWaiter` and of the loop of `grantMain`. -/
def bounces (l : Lock) (w : MlsLockWaiter) : Bool := w.frameKey.any l.isFrameHeldBack

/-- The loop of `grantMain`: the frames the commit holds back leave the line. -/
def bounceQueued (l : Lock) : Lock :=
  { l with
    lockWaiters := l.lockWaiters.filter fun queued => !l.bounces queued
    phase := fun v => if v ∈ l.lockWaiters ∧ l.bounces v = true then .bounced else l.phase v }

def grantMain (l : Lock) (w : MlsLockWaiter) : Lock :=
  ({ l with lockHeld := true, committingGroup := w.commitGroup }.bounceQueued).setPhase w .holding

def dequeue (l : Lock) (w : MlsLockWaiter) : Lock := { l.setPhase w .idle with lockWaiters := l.lockWaiters.erase w }

def mayBorrow (l : Lock) (w : MlsLockWaiter) : Bool :=
  match l.loan.bind (l.loans[·]?) with
  | none => false
  | some loan => !loan.borrowed && !loan.closing && w.frameKey.isSome

def grantBorrow (l : Lock) (w : MlsLockWaiter) : Lock :=
  match l.loan with
  | none => l
  | some i => { l with loans := l.loans.modify i ({ · with borrowed := true }) }.setPhase w (.borrowing i)

def offerLoan (l : Lock) : Lock :=
  match l.lockWaiters.find? l.mayBorrow with
  | none => l
  | some w => (l.dequeue w).grantBorrow w

def enqueueWaiter (l : Lock) (w : MlsLockWaiter) : Lock :=
  if l.bounces w then l.setPhase w .bounced
  else if l.lockHeld = false ∧ l.lockWaiters = [] then l.grantMain w
  else if l.mayBorrow w then l.grantBorrow w
  else { l.setPhase w .waiting with lockWaiters := l.lockWaiters ++ [w] }

/-- The release `grantMain` hands out, called for the first time. -/
def releaseMain (l : Lock) (w : MlsLockWaiter) : Lock :=
  let l := { l.setPhase w .released with committingGroup := none, lockHeld := false }
  match l.lockWaiters with
  | [] => l
  | next :: _ => (l.dequeue next).grantMain next

/-- The release `grantBorrow` hands out, called for the first time. -/
def releaseBorrow (l : Lock) (w : MlsLockWaiter) (i : Nat) : Lock :=
  let l := { l with loans := l.loans.modify i ({ · with borrowed := false }) }.setPhase w .released
  if (l.loans[i]?).any (·.closing) then
    { l with loans := l.loans.modify i fun loan => if loan.reclaim = .pending then
      { loan with reclaim := .resolved } else loan }
  else l.offerLoan

/-- `lendMlsLockWhile` up to its request; refused, it throws and changes nothing. -/
def lendMlsLockWhile (l : Lock) (w : MlsLockWaiter) (groupId : String) : Lock :=
  if l.lockHeld = false ∨ l.committingGroup ≠ some groupId ∨ l.loan ≠ none then l
  else
    let loan : MlsLockLoan := ⟨groupId, false, false, .null⟩
    ({ l with loan := some l.loans.length, loans := l.loans ++ [loan] }.setPhase w (.lending l.loans.length)).offerLoan

/-- `work` has settled: the loan closes, and ends here when nobody borrows. -/
def closeLoan (l : Lock) (w : MlsLockWaiter) (i : Nat) : Lock :=
  if (l.loans[i]?).any (·.borrowed) then
    { l with loans := l.loans.modify i ({ · with closing := true, reclaim := .pending }) }.setPhase w (.reclaiming i)
  else { l with loan := none, loans := l.loans.modify i ({ · with closing := true }) }.setPhase w .holding

end Lock

inductive Event where
  | acquire (w : MlsLockWaiter)
  | release (w : MlsLockWaiter)
  | lend (w : MlsLockWaiter) (groupId : String)
  /-- The request of the lender settled. -/
  | settle (w : MlsLockWaiter)
  /-- `lendMlsLockWhile` resumes after its reclaim. -/
  | resume (w : MlsLockWaiter)

def step (l : Lock) : Event → Option Lock
  | .acquire w => if l.phase w = .idle then some (l.enqueueWaiter w) else none
  | .release w =>
    match l.phase w with
    | .holding => some (l.releaseMain w)
    | .borrowing i => some (l.releaseBorrow w i)
    | .released => some l
    | _ => none
  | .lend w groupId => if l.phase w = .holding then some (l.lendMlsLockWhile w groupId) else none
  | .settle w =>
    match l.phase w with
    | .lending i => some (l.closeLoan w i)
    | _ => none
  | .resume w =>
    match l.phase w with
    | .reclaiming i =>
      if (l.loans[i]?).any (·.reclaim = .resolved) then some ({ l with loan := none }.setPhase w .holding) else none
    | _ => none

def free : Lock := ⟨false, none, [], none, [], fun _ => .idle⟩

def machine : Machine Lock Event where
  init l := l = free
  step := step

/-! ## The situations of the mutex -/

def Phase.quiet : Phase → Bool
  | .idle | .waiting | .bounced | .released => true
  | _ => false

structure Lent (l : Lock) (w : MlsLockWaiter) (i : Nat) (loan : MlsLockLoan) : Prop where
  held : l.lockHeld = true
  group : l.committingGroup = some loan.groupId
  committer : w.commitGroup = some loan.groupId
  current : l.loan = some i
  object : l.loans[i]? = some loan

structure Borrows (l : Lock) (v : MlsLockWaiter) (i : Nat) : Prop where
  phase : l.phase v = .borrowing i
  frame : v.frameKey.isSome = true
  allowed : l.bounces v = false

/-- Who has the mutex and who has it on loan; every other party is quiet. -/
inductive Situation (l : Lock) : Prop
  | free (held : l.lockHeld = false) (group : l.committingGroup = none) (loan : l.loan = none)
      (rest : ∀ u, (l.phase u).quiet = true)
  | held (w : MlsLockWaiter) (hw : l.phase w = .holding) (held : l.lockHeld = true)
      (group : l.committingGroup = w.commitGroup)
      (loan : l.loan = none) (rest : ∀ u, u ≠ w → (l.phase u).quiet = true)
  | lent (w : MlsLockWaiter) (i : Nat) (g : String) (hw : l.phase w = .lending i)
      (hl : Lent l w i ⟨g, false, false, .null⟩)
      (rest : ∀ u, u ≠ w → (l.phase u).quiet = true)
  | borrowed (w v : MlsLockWaiter) (i : Nat) (g : String) (hw : l.phase w = .lending i)
      (hl : Lent l w i ⟨g, true, false, .null⟩)
      (hv : Borrows l v i) (rest : ∀ u, u ≠ w → u ≠ v → (l.phase u).quiet = true)
  | closing (w v : MlsLockWaiter) (i : Nat) (g : String) (hw : l.phase w = .reclaiming i)
      (hl : Lent l w i ⟨g, true, true, .pending⟩)
      (hv : Borrows l v i) (rest : ∀ u, u ≠ w → u ≠ v → (l.phase u).quiet = true)
  | closed (w : MlsLockWaiter) (i : Nat) (g : String) (hw : l.phase w = .reclaiming i)
      (hl : Lent l w i ⟨g, false, true, .resolved⟩)
      (rest : ∀ u, u ≠ w → (l.phase u).quiet = true)

/-- The line: who waits, none of them held back by the commit. -/
structure Line (l : Lock) : Prop where
  waiting : ∀ w, l.phase w = .waiting ↔ w ∈ l.lockWaiters
  nodup : l.lockWaiters.Nodup
  kept : ∀ w ∈ l.lockWaiters, l.bounces w = false

structure Inv (l : Lock) : Prop where
  situation : Situation l
  line : Line l
  nobodyWaits : l.lockHeld = false → l.lockWaiters = []

section Steps

variable {l l' : Lock} {w v : MlsLockWaiter} {i : Nat} {p : Phase}

@[simp] theorem phase_setPhase (l : Lock) (w : MlsLockWaiter) (p : Phase) (v : MlsLockWaiter) :
    (l.setPhase w p).phase v = if v = w then p else l.phase v := by
  simp [Lock.setPhase, Function.update_apply]

theorem bounces_congr (h : l'.committingGroup = l.committingGroup)
    (w : MlsLockWaiter) : l'.bounces w = l.bounces w := by
  unfold Lock.bounces
  congr 1
  funext key
  unfold Lock.isFrameHeldBack
  rw [h]

theorem quiet_of_setPhase (hp : p.quiet = true) {u : MlsLockWaiter} (hu : (l.phase u).quiet = true) :
    ((l.setPhase w p).phase u).quiet = true := by
  rw [phase_setPhase]
  split
  · exact hp
  · exact hu

/-! ## The line -/

theorem Line.of_same (h : Line l) (hl : l'.lockWaiters = l.lockWaiters) (hc : l'.committingGroup = l.committingGroup)
    (hp : ∀ v, l'.phase v = .waiting ↔ l.phase v = .waiting) : Line l' where
  waiting := fun v => by rw [hp v, hl]; exact h.waiting v
  nodup := hl ▸ h.nodup
  kept := fun v hv => by
    rw [bounces_congr hc]
    exact h.kept v (hl ▸ hv)

theorem waiting_setPhase (hw : l.phase w ≠ .waiting) (hp : p ≠ .waiting) (v : MlsLockWaiter) :
    (l.setPhase w p).phase v = .waiting ↔ l.phase v = .waiting := by
  rw [phase_setPhase]
  split
  · rename_i hv
    exact ⟨fun h => absurd h hp, fun h => absurd (hv ▸ h) hw⟩
  · rfl

/-- A waiter joins the line. -/
theorem Line.push (h : Line l) (hw : l.phase w ≠ .waiting) (hk : l.bounces w = false) :
    Line { l.setPhase w .waiting with lockWaiters := l.lockWaiters ++ [w] } where
  waiting := fun v => by
    show (l.setPhase w .waiting).phase v = .waiting ↔ v ∈ l.lockWaiters ++ [w]
    rw [phase_setPhase, mem_append, mem_singleton]
    by_cases hv : v = w
    · simp [hv]
    · simp [hv, h.waiting v]
  nodup := by
    have hnot : w ∉ l.lockWaiters := fun hm => hw ((h.waiting w).mpr hm)
    refine nodup_append.mpr ⟨h.nodup, by simp, fun a ha c hc => ?_⟩
    rw [mem_singleton.mp hc]
    exact fun e => hnot (e ▸ ha)
  kept := fun v hv => by
    rcases mem_append.mp hv with hv | hv
    · exact h.kept v hv
    · exact mem_singleton.mp hv ▸ hk

theorem Line.dequeue (h : Line l) (w : MlsLockWaiter) : Line (l.dequeue w) where
  waiting := fun v => by
    show (l.setPhase w .idle).phase v = .waiting ↔ v ∈ l.lockWaiters.erase w
    rw [phase_setPhase, h.nodup.mem_erase_iff]
    by_cases hv : v = w
    · simp [hv]
    · simp [hv, h.waiting v]
  nodup := h.nodup.erase w
  kept := fun v hv => h.kept v (mem_of_mem_erase hv)

theorem Line.grantMain (h : Line l) (hw : l.phase w ≠ .waiting) : Line (l.grantMain w) := by
  have hnot : w ∉ l.lockWaiters := fun hm => hw ((h.waiting w).mpr hm)
  constructor
  · intro v
    unfold Lock.grantMain
    rw [phase_setPhase]
    by_cases hv : v = w
    · subst hv
      simp [Lock.setPhase, Lock.bounceQueued, hnot]
    · simp only [Lock.setPhase, Lock.bounceQueued, mem_filter]
      have := h.waiting v
      grind
  · exact h.nodup.filter _
  · intro v hv
    have hk := (mem_filter.mp hv).2
    rw [Bool.not_eq_true'] at hk
    rw [← hk]
    exact bounces_congr rfl v

/-! ## The mutex changes hands -/

theorem Situation.of_quiet (h : Situation l) (hh : l'.lockHeld = l.lockHeld)
    (hc : l'.committingGroup = l.committingGroup)
    (hl : l'.loan = l.loan) (hls : l'.loans = l.loans)
    (hp : ∀ u, l'.phase u = l.phase u ∨ ((l.phase u).quiet = true ∧ (l'.phase u).quiet = true)) : Situation l' := by
  have hloud : ∀ u q, q.quiet = false → l.phase u = q → l'.phase u = q := fun u q hq hu => by
    rcases hp u with he | ⟨hq', -⟩
    · exact he.trans hu
    · rw [hu, hq] at hq'
      cases hq'
  have hquiet : ∀ u, (l.phase u).quiet = true → (l'.phase u).quiet = true := fun u hu => by
    rcases hp u with he | ⟨-, hq'⟩
    · rw [he]
      exact hu
    · exact hq'
  have hlent : ∀ {w i loan}, Lent l w i loan → Lent l' w i loan := fun h =>
    ⟨hh.trans h.held, hc.trans h.group, h.committer, hl.trans h.current, hls ▸ h.object⟩
  have hborrows : ∀ {v i}, Borrows l v i → Borrows l' v i := fun h =>
    ⟨hloud _ _ rfl h.phase, h.frame, (bounces_congr hc _).trans h.allowed⟩
  cases h with
  | free held group loan rest => exact .free (hh.trans held) (hc.trans group) (hl.trans loan) fun u => hquiet u (rest u)
  | held w hw held group loan rest =>
    exact .held w (hloud w _ rfl hw) (hh.trans held) (hc.trans group) (hl.trans loan) fun u hu => hquiet u (rest u hu)
  | lent w i g hw h rest => exact .lent w i g (hloud w _ rfl hw) (hlent h) fun u hu => hquiet u (rest u hu)
  | borrowed w v i g hw h hv rest =>
    exact .borrowed w v i g (hloud w _ rfl hw) (hlent h) (hborrows hv) fun u hu hu' => hquiet u (rest u hu hu')
  | closing w v i g hw h hv rest =>
    exact .closing w v i g (hloud w _ rfl hw) (hlent h) (hborrows hv) fun u hu hu' => hquiet u (rest u hu hu')
  | closed w i g hw h rest => exact .closed w i g (hloud w _ rfl hw) (hlent h) fun u hu => hquiet u (rest u hu)

theorem quiet_setPhase (hw : (l.phase w).quiet = true) (hp : p.quiet = true) (u : MlsLockWaiter) :
    (l.setPhase w p).phase u = l.phase u ∨ ((l.phase u).quiet = true ∧ ((l.setPhase w p).phase u).quiet = true) := by
  rw [phase_setPhase]
  split
  · rename_i hu
    exact .inr ⟨hu ▸ hw, hp⟩
  · exact .inl rfl

theorem Situation.of_free (h : Situation l)
    (hf : l.lockHeld = false) : l.loan = none ∧ ∀ u, (l.phase u).quiet = true := by
  cases h with
  | free _ _ loan rest => exact ⟨loan, rest⟩
  | held _ _ held _ _ _ => exact absurd (hf.symm.trans held) Bool.false_ne_true
  | lent _ _ _ _ hl _ => exact absurd (hf.symm.trans hl.held) Bool.false_ne_true
  | borrowed _ _ _ _ _ hl _ _ => exact absurd (hf.symm.trans hl.held) Bool.false_ne_true
  | closing _ _ _ _ _ hl _ _ => exact absurd (hf.symm.trans hl.held) Bool.false_ne_true
  | closed _ _ _ _ hl _ => exact absurd (hf.symm.trans hl.held) Bool.false_ne_true

inductive Role (l : Lock) (w : MlsLockWaiter) : Phase → Prop
  | holding (held : l.lockHeld = true) (group : l.committingGroup = w.commitGroup) (loan : l.loan = none)
      (rest : ∀ u, u ≠ w → (l.phase u).quiet = true) : Role l w .holding
  | lending {i : Nat} (g : String) (hl : Lent l w i ⟨g, false, false, .null⟩)
      (rest : ∀ u, u ≠ w → (l.phase u).quiet = true) :
      Role l w (.lending i)
  | lendingTo {i : Nat} (v : MlsLockWaiter) (g : String) (hl : Lent l w i ⟨g, true, false, .null⟩) (hv : Borrows l v i)
      (rest : ∀ u, u ≠ w → u ≠ v → (l.phase u).quiet = true) : Role l w (.lending i)
  | closingOn {i : Nat} (v : MlsLockWaiter) (g : String) (hl : Lent l w i ⟨g, true, true, .pending⟩)
      (hv : Borrows l v i)
      (rest : ∀ u, u ≠ w → u ≠ v → (l.phase u).quiet = true) : Role l w (.reclaiming i)
  | closed {i : Nat} (g : String) (hl : Lent l w i ⟨g, false, true, .resolved⟩)
      (rest : ∀ u, u ≠ w → (l.phase u).quiet = true) :
      Role l w (.reclaiming i)
  | borrowing {i : Nat} (v : MlsLockWaiter) (g : String) (hw : Borrows l w i) (hv : l.phase v = .lending i)
      (hl : Lent l v i ⟨g, true, false, .null⟩)
      (rest : ∀ u, u ≠ v → u ≠ w → (l.phase u).quiet = true) : Role l w (.borrowing i)
  | borrowingLast {i : Nat} (v : MlsLockWaiter) (g : String) (hw : Borrows l w i) (hv : l.phase v = .reclaiming i)
      (hl : Lent l v i ⟨g, true, true, .pending⟩)
      (rest : ∀ u, u ≠ v → u ≠ w → (l.phase u).quiet = true) : Role l w (.borrowing i)

theorem Situation.role (h : Situation l) (hw : l.phase w = p) (hp : p.quiet = false) : Role l w p := by
  have hloud : (l.phase w).quiet ≠ true := by rw [hw, hp]; exact Bool.false_ne_true
  subst hw
  cases h with
  | free _ _ _ rest => exact absurd (rest w) hloud
  | held v hv held group loan rest =>
    obtain rfl : w = v := not_imp_comm.mp (rest w) hloud
    exact hv ▸ .holding held group loan rest
  | lent v i g hv hl rest =>
    obtain rfl : w = v := not_imp_comm.mp (rest w) hloud
    exact hv ▸ .lending g hl rest
  | borrowed v u i g hv hl hu rest =>
    by_cases hwv : w = v
    · subst hwv
      exact hv ▸ .lendingTo u g hl hu rest
    · obtain rfl : w = u := not_imp_comm.mp (rest w hwv) hloud
      exact hu.phase ▸ .borrowing v g hu hv hl rest
  | closing v u i g hv hl hu rest =>
    by_cases hwv : w = v
    · subst hwv
      exact hv ▸ .closingOn u g hl hu rest
    · obtain rfl : w = u := not_imp_comm.mp (rest w hwv) hloud
      exact hu.phase ▸ .borrowingLast v g hu hv hl rest
  | closed v i g hv hl rest =>
    obtain rfl : w = v := not_imp_comm.mp (rest w) hloud
    exact hv ▸ .closed g hl rest

/-! ## One lemma a transition -/

theorem inv_quiet (hi : Inv l) (hw : (l.phase w).quiet = true) (hnw : l.phase w ≠ .waiting) (hp : p.quiet = true)
    (hnp : p ≠ .waiting) :
    Inv (l.setPhase w p) where
  situation := hi.situation.of_quiet rfl rfl rfl rfl (quiet_setPhase hw hp)
  line := hi.line.of_same rfl rfl (waiting_setPhase hnw hnp)
  nobodyWaits := hi.nobodyWaits

theorem inv_push (hi : Inv l) (hw : l.phase w = .idle) (hk : l.bounces w = false) (hh : l.lockHeld = true) :
    Inv { l.setPhase w .waiting with lockWaiters := l.lockWaiters ++ [w] } where
  situation := hi.situation.of_quiet rfl rfl rfl rfl (quiet_setPhase (by rw [hw]; rfl) rfl)
  line := hi.line.push (by rw [hw]; exact nofun) hk
  nobodyWaits := fun h => absurd (h.symm.trans hh) Bool.false_ne_true

theorem situation_dequeue (h : Situation l) (hw : (l.phase w).quiet = true) : Situation (l.dequeue w) :=
  h.of_quiet rfl rfl rfl rfl (quiet_setPhase hw rfl)

theorem inv_grantMain (hs : Situation l) (hl : Line l) (hf : l.lockHeld = false)
    (hw : l.phase w = .idle) : Inv (l.grantMain w) := by
  obtain ⟨hloan, hquiet⟩ := hs.of_free hf
  refine ⟨.held w ?_ rfl rfl hloan fun u hu => ?_, hl.grantMain (by rw [hw]; exact nofun), nofun⟩
  · simp [Lock.grantMain]
  · unfold Lock.grantMain
    rw [phase_setPhase, if_neg hu]
    simp only [Lock.bounceQueued]
    split
    · rfl
    · exact hquiet u

theorem inv_grantBorrow {g : String} (hi : Inv l) (hw : l.phase w = .lending i)
    (hl : Lent l w i ⟨g, false, false, .null⟩)
    (rest : ∀ u, u ≠ w → (l.phase u).quiet = true) (hv : l.phase v = .idle) (hf : v.frameKey.isSome = true)
    (hk : l.bounces v = false) :
    Inv (l.grantBorrow v) := by
  have hne : w ≠ v := fun e => by rw [e, hv] at hw; cases hw
  unfold Lock.grantBorrow
  rw [hl.current]
  refine ⟨.borrowed w v i g ?_ ⟨hl.held, hl.group, hl.committer, rfl, ?_⟩ ⟨?_, hf, hk⟩ fun u hu hu' => ?_, ?_, ?_⟩
  · simp [hne, hw]
  · simp [Lock.setPhase, hl.object]
  · simp
  · simpa [hu'] using rest u hu
  · exact hi.line.of_same rfl rfl (waiting_setPhase (by rw [hv]; exact nofun) nofun)
  · exact hi.nobodyWaits

theorem mayBorrow_lent (h : Situation l) (hm : l.mayBorrow v = true) :
    v.frameKey.isSome = true ∧
      ∃ w i g, l.phase w = .lending i ∧ Lent l w i ⟨g, false, false, .null⟩ ∧ ∀ u, u ≠ w →
        (l.phase u).quiet = true := by
  unfold Lock.mayBorrow at hm
  split at hm
  · cases hm
  · rename_i loan hloan
    simp only [Bool.and_eq_true, Bool.not_eq_true'] at hm
    obtain ⟨⟨hb, hc⟩, hf⟩ := hm
    refine ⟨hf, ?_⟩
    cases h with
    | free _ _ none _ => rw [none] at hloan; cases hloan
    | held _ _ _ _ none _ => rw [none] at hloan; cases hloan
    | lent w i g hw hl rest => exact ⟨w, i, g, hw, hl, rest⟩
    | borrowed w u i g hw hl hu rest =>
      rw [hl.current, bind_some, hl.object] at hloan
      cases hloan
      cases hb
    | closing w u i g hw hl hu rest =>
      rw [hl.current, bind_some, hl.object] at hloan
      cases hloan
      cases hb
    | closed w i g hw hl rest =>
      rw [hl.current, bind_some, hl.object] at hloan
      cases hloan
      cases hc

theorem inv_offerLoan (hi : Inv l) : Inv l.offerLoan := by
  unfold Lock.offerLoan
  split
  · exact hi
  · rename_i v hv
    have hin := mem_of_find?_eq_some hv
    obtain ⟨hf, w, i, g, hw, hl, rest⟩ := mayBorrow_lent hi.situation (find?_some hv)
    have hwait := (hi.line.waiting v).mpr hin
    have hne : w ≠ v := fun e => by rw [e, hwait] at hw; cases hw
    have hd : Inv (l.dequeue v) :=
      ⟨situation_dequeue hi.situation (by rw [hwait]; rfl), hi.line.dequeue v,
        fun h => absurd (h.symm.trans hl.held) Bool.false_ne_true⟩
    refine inv_grantBorrow hd (w := w) ?_ ⟨hl.held, hl.group, hl.committer, hl.current, hl.object⟩
      (fun u hu => ?_) ?_ hf ?_
    · simp [Lock.dequeue, hne, hw]
    · exact quiet_of_setPhase rfl (rest u hu)
    · simp [Lock.dequeue]
    · exact hi.line.kept v hin

theorem inv_acquire (hi : Inv l) (hw : l.phase w = .idle) : Inv (l.enqueueWaiter w) := by
  unfold Lock.enqueueWaiter
  split
  · exact inv_quiet hi (by rw [hw]; rfl) (by rw [hw]; exact nofun) rfl nofun
  · rename_i hk
    rw [Bool.not_eq_true] at hk
    split
    · rename_i hf
      exact inv_grantMain hi.situation hi.line hf.1 hw
    · rename_i hnf
      split
      · rename_i hm
        obtain ⟨hf, w', i, g, hw', hl, rest⟩ := mayBorrow_lent hi.situation hm
        exact inv_grantBorrow hi hw' hl rest hw hf hk
      · refine inv_push hi hw hk ?_
        rw [← Bool.not_eq_false]
        exact fun hf => hnf ⟨hf, hi.nobodyWaits hf⟩

theorem inv_releaseMain (hi : Inv l) (hw : l.phase w = .holding) : Inv (l.releaseMain w) := by
  obtain ⟨-, -, hloan, rest⟩ := hi.situation.role hw rfl
  have hs : Situation { l.setPhase w .released with committingGroup := none, lockHeld := false } := by
    refine .free rfl rfl hloan fun u => ?_
    rw [phase_setPhase]
    split
    · rfl
    · rename_i hu
      exact rest u hu
  have hl : Line { l.setPhase w .released with committingGroup := none, lockHeld := false } := by
    refine ⟨fun v => ?_, hi.line.nodup, fun v _ => ?_⟩
    · have hnw : l.phase w ≠ .waiting := by rw [hw]; exact nofun
      exact (waiting_setPhase (p := .released) hnw nofun v).trans (hi.line.waiting v)
    · cases v <;> rfl
  unfold Lock.releaseMain
  simp only
  split
  · rename_i hnil
    exact ⟨hs, hl, fun _ => hnil⟩
  · rename_i next rest' hcons
    have hwait := (hl.waiting next).mpr (by rw [hcons]; exact mem_cons_self)
    exact inv_grantMain (situation_dequeue hs (by rw [hwait]; rfl)) (hl.dequeue next) rfl (by simp [Lock.dequeue])

theorem inv_releaseBorrow (hi : Inv l) (hv : l.phase v = .borrowing i) : Inv (l.releaseBorrow v i) := by
  have hline : ∀ loans, Line ({ l with loans := loans }.setPhase v .released) := fun loans =>
    hi.line.of_same rfl rfl (waiting_setPhase (l := { l with loans := loans }) (by rw [hv]; exact nofun) nofun)
  unfold Lock.releaseBorrow
  cases hi.situation.role hv rfl with
  | borrowing w g hb hw hl rest =>
    have hne : w ≠ v := fun e => by rw [e, hv] at hw; cases hw
    rw [if_neg (by simp [Lock.setPhase, hl.object])]
    refine inv_offerLoan ⟨.lent w i g ?_ ⟨hl.held, hl.group, hl.committer, hl.current, ?_⟩ fun u hu => ?_, hline _,
      hi.nobodyWaits⟩
    · simp [hne, hw]
    · simp [Lock.setPhase, hl.object]
    · rw [phase_setPhase]
      split
      · rfl
      · rename_i huv
        exact rest u hu huv
  | borrowingLast w g hb hw hl rest =>
    have hne : w ≠ v := fun e => by rw [e, hv] at hw; cases hw
    rw [if_pos (by simp [Lock.setPhase, hl.object])]
    refine ⟨.closed w i g ?_ ⟨hl.held, hl.group, hl.committer, hl.current, ?_⟩ fun u hu => ?_, hline _, hi.nobodyWaits⟩
    · simp [Lock.setPhase, hne, hw]
    · simp [Lock.setPhase, hl.object]
    · rw [phase_setPhase]
      split
      · rfl
      · rename_i huv
        exact rest u hu huv

theorem inv_lend (hi : Inv l) (hw : l.phase w = .holding) (groupId : String) : Inv (l.lendMlsLockWhile w groupId) := by
  unfold Lock.lendMlsLockWhile
  split
  · exact hi
  · rename_i hok
    rw [not_or, not_or, not_not] at hok
    obtain ⟨hheld, hgroup, hloan⟩ := hok
    obtain ⟨-, hc, -, rest⟩ := hi.situation.role hw rfl
    have hnw : l.phase w ≠ .waiting := by rw [hw]; exact nofun
    refine inv_offerLoan ⟨.lent w l.loans.length groupId ?_ ⟨?_, hgroup, hc ▸ hgroup, rfl, ?_⟩ fun u hu => ?_, ?_,
      hi.nobodyWaits⟩
    · simp
    · exact Bool.not_eq_false _ |>.mp hheld
    · simp [Lock.setPhase]
    · simpa [hu] using rest u hu
    · exact hi.line.of_same rfl rfl (waiting_setPhase hnw nofun)

theorem inv_closeLoan (hi : Inv l) (hw : l.phase w = .lending i) : Inv (l.closeLoan w i) := by
  have hnw : l.phase w ≠ .waiting := by rw [hw]; exact nofun
  unfold Lock.closeLoan
  cases hi.situation.role hw rfl with
  | lending g hl rest =>
    rw [if_neg (by simp [hl.object])]
    refine ⟨.held w (by simp) hl.held (hl.group.trans hl.committer.symm) rfl fun u hu => ?_, ?_, hi.nobodyWaits⟩
    · simpa [hu] using rest u hu
    · exact hi.line.of_same rfl rfl (waiting_setPhase hnw nofun)
  | lendingTo v g hl hv rest =>
    have hne : v ≠ w := fun e => by rw [← e, hv.phase] at hw; cases hw
    rw [if_pos (by simp [hl.object])]
    refine ⟨.closing w v i g (by simp) ⟨hl.held, hl.group, hl.committer, hl.current, ?_⟩ ⟨?_, hv.frame, hv.allowed⟩
      fun u hu hu' => ?_, ?_,
      hi.nobodyWaits⟩
    · simp [Lock.setPhase, hl.object]
    · simp [hne, hv.phase]
    · simpa [hu] using rest u hu hu'
    · exact hi.line.of_same rfl rfl (waiting_setPhase hnw nofun)

theorem inv_resume (hi : Inv l) (hw : l.phase w = .reclaiming i)
    (hr : (l.loans[i]?).any (·.reclaim = .resolved) = true) :
    Inv ({ l with loan := none }.setPhase w .holding) := by
  have hnw : l.phase w ≠ .waiting := by rw [hw]; exact nofun
  cases hi.situation.role hw rfl with
  | closingOn v g hl hv rest => simp [hl.object] at hr
  | closed g hl rest =>
    refine ⟨.held w (by simp) hl.held (hl.group.trans hl.committer.symm) rfl fun u hu => ?_, ?_, hi.nobodyWaits⟩
    · simpa [hu] using rest u hu
    · exact hi.line.of_same rfl rfl (waiting_setPhase hnw nofun)

theorem inv_step (hi : Inv l) (e : Event) (h : step l e = some l') : Inv l' := by
  cases e with
  | acquire w =>
    simp only [step] at h
    split at h
    · rename_i hw
      exact some.inj h ▸ inv_acquire hi hw
    · cases h
  | release w =>
    simp only [step] at h
    split at h
    · rename_i hw
      exact some.inj h ▸ inv_releaseMain hi hw
    · rename_i i hw
      exact some.inj h ▸ inv_releaseBorrow hi hw
    · exact some.inj h ▸ hi
    · cases h
  | lend w groupId =>
    simp only [step] at h
    split at h
    · rename_i hw
      exact some.inj h ▸ inv_lend hi hw groupId
    · cases h
  | settle w =>
    simp only [step] at h
    split at h
    · rename_i i hw
      exact some.inj h ▸ inv_closeLoan hi hw
    · cases h
  | resume w =>
    simp only [step] at h
    split at h
    · rename_i i hw
      split at h
      · rename_i hr
        exact some.inj h ▸ inv_resume hi hw hr
      · cases h
    · cases h

theorem inv_free : Inv free := by
  refine ⟨.free rfl rfl rfl fun _ => rfl, ⟨fun w => ?_, nodup_nil, nofun⟩, fun _ => rfl⟩
  exact ⟨nofun, nofun⟩

theorem inv_reach (h : machine.Reach l) : Inv l :=
  Machine.Reach.invariant (I := Inv) (fun l hs => by
    rw [show l = free from hs]; exact inv_free) (fun _ e _ hi hs => inv_step hi e hs) h

/-! ## The mutex is safe -/

/-- May use the client: the holder outside `lendMlsLockWhile`, or a borrower. -/
def Active (l : Lock) (w : MlsLockWaiter) : Prop := l.phase w = .holding ∨ ∃ i, l.phase w = .borrowing i

/-- `lendMlsLockWhile` of `w` returns in this step. -/
def Returns (l l' : Lock)
    (w : MlsLockWaiter) : Prop := (∃ i, l.phase w = .lending i ∨ l.phase w = .reclaiming i) ∧ l'.phase w = .holding

theorem Active.not_quiet (h : Active l w) (hq : (l.phase w).quiet = true) : False := by
  rcases h with h | ⟨i, h⟩
  · rw [h] at hq; cases hq
  · rw [h] at hq; cases hq

theorem Active.not_lends (h : Active l w) (hw : l.phase w = .lending i ∨ l.phase w = .reclaiming i) : False := by
  rcases h with h | ⟨j, h⟩
  · rw [h] at hw; rcases hw with hw | hw <;> cases hw
  · rw [h] at hw; rcases hw with hw | hw <;> cases hw

theorem active_unique (hi : Inv l) (hv : Active l v) (hw : Active l w) : v = w := by
  by_contra hne
  rcases hw with hw | ⟨i, hw⟩
  · obtain ⟨-, -, -, rest⟩ := hi.situation.role hw rfl
    exact hv.not_quiet (rest v hne)
  · cases hi.situation.role hw rfl with
    | borrowing u g _ hu _ rest =>
      by_cases hvu : v = u
      · exact (hvu ▸ hv).not_lends (.inl hu)
      · exact hv.not_quiet (rest v hvu hne)
    | borrowingLast u g _ hu _ rest =>
      by_cases hvu : v = u
      · exact (hvu ▸ hv).not_lends (.inr hu)
      · exact hv.not_quiet (rest v hvu hne)

theorem borrower_other (hi : Inv l) (hw : l.phase w = .borrowing i) :
    ∃ key group, w.frameKey = some key ∧ l.committingGroup = some group ∧ key ≠ group ∧ key ≠ mlsQueueOrphanKey := by
  have hb : ∃ g, Borrows l w i ∧ l.committingGroup = some g := by
    cases hi.situation.role hw rfl with
    | borrowing u g hb _ hl _ => exact ⟨g, hb, hl.group⟩
    | borrowingLast u g hb _ hl _ => exact ⟨g, hb, hl.group⟩
  obtain ⟨g, hb, hg⟩ := hb
  obtain ⟨key, hkey⟩ := isSome_iff_exists.mp hb.frame
  have hk := hb.allowed
  simp only [Lock.bounces, hkey, any_some, Lock.isFrameHeldBack, hg, decide_eq_false_iff_not, not_or] at hk
  exact ⟨key, g, hkey, hg, hk⟩

/-- One party at a time, loans to other groups only, none when a loan ends, and nobody waits on a free lock. -/
theorem lock_safe (h : machine.Reach l) :
    (∀ v w, Active l v → Active l w → v = w) ∧
    (∀ w i, l.phase w = .borrowing i →
      ∃ key group, w.frameKey = some key ∧ l.committingGroup = some group ∧ key ≠ group ∧ key ≠ mlsQueueOrphanKey) ∧
    (∀ e l' w, machine.step l e = some l' → Returns l l' w → ∀ v i, l'.phase v ≠ .borrowing i) ∧
    (l.lockHeld = false → ∀ w, l.phase w ≠ .waiting) := by
  have hi := inv_reach h
  refine ⟨fun v w => active_unique hi, fun w i => borrower_other hi, fun e l' w hs hr v i hv => ?_, fun hf w hw => ?_⟩
  · have hi' := inv_step hi e hs
    obtain rfl := active_unique hi' (.inr ⟨i, hv⟩) (.inl hr.2)
    cases hv.symm.trans hr.2
  · have hin := (hi.line.waiting w).mp hw
    rw [hi.nobodyWaits hf] at hin
    cases hin

end Steps

/-! ## A loan, from the grant to the reclaim -/

def commit : MlsLockWaiter := .exclusive 0 (some "g")
def other : MlsLockWaiter := .exclusive 1 none
def ownFrame : MlsLockWaiter := .frame 2 "g"
def firstFrame : MlsLockWaiter := .frame 3 "h"
def secondFrame : MlsLockWaiter := .frame 4 "h"

/-- Two frames of another group borrow in turn; the request settles while the second is applied. -/
def loanRun : List Event :=
  [.acquire commit, .acquire other, .acquire firstFrame, .acquire ownFrame, .lend commit "g", .acquire secondFrame,
    .release firstFrame,
    .release firstFrame, .settle commit]

theorem loan_run_safe :
    ∃ l, machine.Reach l ∧ (l.phase commit = .reclaiming 0 ∧ l.phase other = .waiting ∧ l.phase ownFrame = .bounced ∧
        l.phase firstFrame = .released ∧ l.phase secondFrame = .borrowing 0) ∧
      (∀ v w, Active l v → Active l w → v = w) ∧
      ∀ l', machine.step l (.release secondFrame) = some l' →
        ∀ l'', machine.step l' (.resume commit) = some l'' → Returns l' l'' commit → ∀ v i,
          l''.phase v ≠ .borrowing i := by
  have hv : (machine.run free loanRun).map (fun l =>
      [l.phase commit, l.phase other, l.phase ownFrame, l.phase firstFrame, l.phase secondFrame]) =
      some [.reclaiming 0, .waiting, .bounced, .released, .borrowing 0] := by decide
  obtain ⟨l, hl, hv⟩ := map_eq_some_iff.mp hv
  simp only [List.cons.injEq, and_true] at hv
  have hr : machine.Reach l := Machine.reach_of_run loanRun rfl hl
  exact ⟨l, hr, hv, (lock_safe hr).1, fun l' hs l'' hs' => (lock_safe (.step _ hr hs)).2.2.1 _ l'' commit hs'⟩

end Canari.Mls.LendableLock
