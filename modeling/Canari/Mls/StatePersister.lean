/-
  Canari.Mls.StatePersister — the coalesced writer of the MLS state and the commits that wait for
  it (`frontend/src/lib/mls-client/mlsStatePersister.ts`, `mlsBulkIngest.ts`).

  A change marks the state dirty. A checkpoint takes every mark made so far; a caller that asks
  for durability while one runs waits for the next, which all such callers share. A checkpoint is
  `runSaveEncrypted`, then the handlers of its promise: `catch` on a failure, then `finally`, each
  a step of its own, and a caller resumes in a step after that. `marks` and `covers` count the
  marks: those made so far, and those made before a checkpoint started.

  A bulk ingest (`withMlsBulkIngest`) marks the state once its body has resolved, closes its
  window and commits when a flush has resolved. Windows of a drain open and close around it.
  - `flush_durable`: in every run, a flush that resolved was called after marks that a checkpoint
    started after them has written, one checkpoint is in flight at most, a checkpoint that failed
    leaves the state dirty, and a commit ran after a checkpoint started after its body.
-/

import Canari.Lib.Machine
import Mathlib.Order.Nat

namespace Canari.Mls.StatePersister

open Lib List Option

/-! ## The persister -/

/-- Where the promise of a checkpoint is: the save runs, it ended, its handlers ran. -/
inductive Save where
  | running
  | saved
  | failed
  /-- The `catch` handler ran. -/
  | caught
  | resolved
  | rejected
  deriving DecidableEq

def Save.succeeded : Save → Bool
  | .saved | .resolved => true
  | _ => false

/-- `finally` ran. -/
def Save.settled : Save → Bool
  | .resolved | .rejected => true
  | _ => false

structure Flight where
  save : Save
  covers : Nat
  urgentAtStart : Bool
  framesAtStart : Nat

/-- The promise `startFlight` returns. -/
inductive Started where
  | nothing
  | flight (k : Nat)
  deriving DecidableEq

/-- A `queuedEncrypted`: the checkpoint it is chained on, and what it returned when it ran. -/
structure Queued where
  behind : Nat
  follows : Option Started

inductive Awaited where
  | started (s : Started)
  | queue (q : Nat)
  deriving DecidableEq

/-- `inFlightEncrypted` and `queuedEncrypted` name a promise of `flights` and of `queues`. -/
structure Persister where
  dirtyEncrypted : Bool
  immediateFlushQueued : Bool
  inFlightEncrypted : Option Nat
  queuedEncrypted : Option Nat
  bulkIngestDepth : Nat
  urgentSinceCheckpoint : Bool
  framesSinceCheckpoint : Nat
  inFlightUrgent : Bool
  flights : List Flight
  queues : List Queued
  marks : Nat

namespace Persister

def create : Persister := ⟨false, false, none, none, 0, false, 0, false, [], [], 0⟩

/-- `dirtyEncrypted = true` by a caller. -/
def mark (p : Persister) : Persister := { p with dirtyEncrypted := true, marks := p.marks + 1 }

def startFlight (p : Persister) : Persister × Started :=
  if p.dirtyEncrypted then
    ({ p with
        dirtyEncrypted := false
        urgentSinceCheckpoint := false
        framesSinceCheckpoint := 0
        inFlightUrgent := p.urgentSinceCheckpoint
        inFlightEncrypted := some p.flights.length
        flights := p.flights ++ [⟨.running, p.marks, p.urgentSinceCheckpoint, p.framesSinceCheckpoint⟩] },
      .flight p.flights.length)
  else (p, .nothing)

def flushEncryptedInternal (p : Persister) : Persister × Awaited :=
  match p.queuedEncrypted with
  | some q => (p, .queue q)
  | none =>
    match p.inFlightEncrypted with
    | some k =>
      if p.dirtyEncrypted then
        ({ p with queuedEncrypted := some p.queues.length, queues := p.queues ++ [⟨k, none⟩] }, .queue p.queues.length)
      else (p, .started (.flight k))
    | none => (p.startFlight.1, .started p.startFlight.2)

def scheduleDeferred (p : Persister) : Persister := { p.mark with framesSinceCheckpoint := p.framesSinceCheckpoint + 1 }

def markStructural (p : Persister) : Persister := { p with urgentSinceCheckpoint := true }

def noteReceivedFrame (p : Persister) (structural : Bool) : Persister :=
  if structural then p.markStructural else { p with framesSinceCheckpoint := p.framesSinceCheckpoint + 1 }

def persistNow (p : Persister) : Persister :=
  let p := { p.mark with urgentSinceCheckpoint := true }
  if 0 < p.bulkIngestDepth then p else { p with immediateFlushQueued := true }

/-- The microtask `persistNow` queued. -/
def immediateFlush (p : Persister) : Persister :=
    ({ p with immediateFlushQueued := false } : Persister).flushEncryptedInternal.1

def onBulkIngestStart (p : Persister) : Persister := { p with bulkIngestDepth := p.bulkIngestDepth + 1 }

/-- The first lines of `onBulkIngestEnd`: a window that is no live drain makes the close checkpoint. -/
def leaveWindow (p : Persister) (receiveSkipBudget : Nat) (bufferUi : Bool) : Persister :=
  let p := if 0 < receiveSkipBudget && !bufferUi then p.markStructural else p
  { p with bulkIngestDepth := p.bulkIngestDepth - 1 }

def skipsCheckpoint (p : Persister) (receiveSkipBudget : Nat) : Bool :=
  0 < receiveSkipBudget && !p.urgentSinceCheckpoint && !(p.inFlightEncrypted.isSome && p.inFlightUrgent) &&
    p.framesSinceCheckpoint < receiveSkipBudget

/-- `bufferUi` is the phase's. -/
def onBulkIngestEnd (p : Persister) (receiveSkipBudget : Nat) (bufferUi : Bool) : Persister :=
  let p := p.leaveWindow receiveSkipBudget bufferUi
  if 0 < p.bulkIngestDepth then p
  else if p.skipsCheckpoint receiveSkipBudget then p.mark
  else p.mark.flushEncryptedInternal.1

def setSave (p : Persister) (k : Nat)
    (save : Save) : Persister := { p with flights := p.flights.modify k ({ · with save }) }

/-- The `catch` handler of checkpoint `k`. -/
def catchSave (p : Persister) (k : Nat) (f : Flight) : Persister :=
  { p.setSave k .caught with
    urgentSinceCheckpoint := p.urgentSinceCheckpoint || f.urgentAtStart
    framesSinceCheckpoint := p.framesSinceCheckpoint + f.framesAtStart
    dirtyEncrypted := true }

/-- Its `finally` handler, after which its promise settles. -/
def finallySave (p : Persister) (k : Nat) (f : Flight) : Persister :=
  { p.setSave k (if f.save = .caught then .rejected else .resolved) with inFlightEncrypted := none, inFlightUrgent := false }

def runQueued (p : Persister) (q : Nat) : Persister :=
  let p := { p with queuedEncrypted := none }
  { p.startFlight.1 with queues := p.queues.modify q ({ · with follows := some p.startFlight.2 }) }

def startedResolved (p : Persister) : Started → Bool
  | .nothing => true
  | .flight k => (p.flights[k]?).any (·.save = .resolved)

def awaitedResolved (p : Persister) : Awaited → Bool
  | .started s => p.startedResolved s
  | .queue q => ((p.queues[q]?).bind (·.follows)).any p.startedResolved

end Persister

/-! ## Its callers -/

/-- A call of `flush`; `needs` counts the marks made before it. -/
structure FlushCall where
  needs : Nat
  awaited : Awaited
  resolved : Bool
  deriving DecidableEq

/-- Where a `withMlsBulkIngest` is. `since` counts the checkpoints started when its body resolved,
    `at?` the marks once it made its own. -/
inductive WindowPhase where
  | running
  | threw
  | resolvedUndefined
  | resolved (since : Nat)
  | marked (since at? : Nat)
  | closed (since at? : Nat)
  | flushing (since at? call : Nat)
  | committed (since : Nat)
  | ended
  deriving DecidableEq

structure Window where
  /-- Whether a persister was registered when it opened. -/
  persister : Bool
  phase : WindowPhase
  deriving DecidableEq

structure State where
  p : Persister
  calls : List FlushCall
  windows : List Window

inductive Event where
  | scheduleDeferred
  | persistNow
  | immediateFlush
  | markStructural
  | noteReceivedFrame (structural : Bool)
  | flush
  /-- A caller of `flush` resumes. -/
  | resolve (i : Nat)
  /-- The save of a checkpoint ends. -/
  | saveEnds (k : Nat) (ok : Bool)
  | catchRuns (k : Nat)
  | finallyRuns (k : Nat)
  | queuedRuns (q : Nat)
  /-- The window of a drain. -/
  | ingestStart
  | ingestEnd (bufferUi : Bool)
  /-- The steps of a `withMlsBulkIngest`. -/
  | withBegins (persister : Bool)
  | bodyResolves (w : Nat) (isUndefined : Bool)
  | bodyThrows (w : Nat)
  | withMarks (w : Nat)
  | withCloses (w : Nat)
  | withFlushes (w : Nat)
  | withCommits (w : Nat)

def setWindow (s : State) (w : Nat)
    (phase : WindowPhase) : State := { s with windows := s.windows.modify w ({ · with phase }) }

def flush (s : State) : State :=
  { s with
    p := s.p.flushEncryptedInternal.1
    calls := s.calls ++ [⟨s.p.marks, s.p.flushEncryptedInternal.2, false⟩] }

def step (receiveSkipBudget : Nat) (s : State) : Event → Option State
  | .scheduleDeferred => some { s with p := s.p.scheduleDeferred }
  | .persistNow => some { s with p := s.p.persistNow }
  | .immediateFlush => if s.p.immediateFlushQueued then some { s with p := s.p.immediateFlush } else none
  | .markStructural => some { s with p := s.p.markStructural }
  | .noteReceivedFrame structural => some { s with p := s.p.noteReceivedFrame structural }
  | .flush => some (flush s)
  | .resolve i =>
    match s.calls[i]? with
    | some call => if s.p.awaitedResolved call.awaited then some { s with calls := s.calls.set i { call with resolved := true } } else none
    | none => none
  | .saveEnds k ok =>
    match s.p.flights[k]? with
    | some f => if f.save = .running then some { s with p := s.p.setSave k (if ok then .saved else .failed) } else none
    | none => none
  | .catchRuns k =>
    match s.p.flights[k]? with
    | some f => if f.save = .failed then some { s with p := s.p.catchSave k f } else none
    | none => none
  | .finallyRuns k =>
    match s.p.flights[k]? with
    | some f => if f.save = .saved ∨ f.save = .caught then some { s with p := s.p.finallySave k f } else none
    | none => none
  | .queuedRuns q =>
    match s.p.queues[q]? with
    | some queued =>
      if queued.follows = none ∧
        (s.p.flights[queued.behind]?).any (·.save.settled) then some { s with p := s.p.runQueued q } else none
    | none => none
  | .ingestStart => some { s with p := s.p.onBulkIngestStart }
  | .ingestEnd bufferUi => some { s with p := s.p.onBulkIngestEnd receiveSkipBudget bufferUi }
  | .withBegins persister => some { s with p := s.p.onBulkIngestStart, windows := s.windows ++ [⟨persister, .running⟩] }
  | .bodyResolves w isUndefined =>
    match s.windows[w]? with
    | some ⟨_, .running⟩ => some (setWindow s w (if isUndefined then .resolvedUndefined else .resolved s.p.flights.length))
    | _ => none
  | .bodyThrows w =>
    match s.windows[w]? with
    | some ⟨_, .running⟩ => some (setWindow s w .threw)
    | _ => none
  | .withMarks w =>
    match s.windows[w]? with
    | some ⟨true, .resolved since⟩ =>
        some { setWindow s w (.marked since s.p.scheduleDeferred.marks) with p := s.p.scheduleDeferred }
    | _ => none
  | .withCloses w =>
    match s.windows[w]? with
    | some ⟨_, .marked since at?⟩ =>
        some { setWindow s w (.closed since at?) with p := s.p.onBulkIngestEnd receiveSkipBudget false }
    | some ⟨false, .resolved _⟩ => some { setWindow s w .ended with p := s.p.onBulkIngestEnd receiveSkipBudget false }
    | some ⟨_, .resolvedUndefined⟩ =>
        some { setWindow s w .ended with p := s.p.onBulkIngestEnd receiveSkipBudget false }
    | some ⟨_, .threw⟩ => some { setWindow s w .ended with p := s.p.onBulkIngestEnd receiveSkipBudget false }
    | _ => none
  | .withFlushes w =>
    match s.windows[w]? with
    | some ⟨_, .closed since at?⟩ => some (setWindow (flush s) w (.flushing since at? s.calls.length))
    | _ => none
  | .withCommits w =>
    match s.windows[w]? with
    | some ⟨_, .flushing since _ i⟩ =>
        if (s.calls[i]?).any (·.resolved) then some (setWindow s w (.committed since)) else none
    | _ => none

example : step 0 ⟨.create, [], []⟩ .immediateFlush = none := by
  simp only [step]
  rfl

def machine (receiveSkipBudget : Nat) : Machine State Event where
  init s := s = ⟨.create, [], []⟩
  step := step receiveSkipBudget

/-! ## What a promise stands for -/

/-- A checkpoint that started after the first `n` marks has succeeded. -/
def Durable (p : Persister) (n : Nat) : Prop := n = 0 ∨ ∃ f ∈ p.flights, f.save.succeeded = true ∧ n ≤ f.covers

def StartedCovers (p : Persister) (n : Nat) : Started → Prop
  | .nothing => Durable p n
  | .flight k => ∃ f, p.flights[k]? = some f ∧ n ≤ f.covers

/-- If the promise resolves, the first `n` marks are durable. -/
def AwaitedCovers (p : Persister) (n : Nat) : Awaited → Prop
  | .started s => StartedCovers p n s
  | .queue q => ∃ x, p.queues[q]? = some x ∧ (x.follows = none → n ≤ p.marks) ∧ ∀ s, x.follows = some s → StartedCovers p n s

/-- What every step keeps of the marks, the checkpoints and the queued promises. -/
structure Later (p p' : Persister) : Prop where
  marks : p.marks ≤ p'.marks
  flights : ∀ (k : Nat) (f : Flight), p.flights[k]? = some f →
    ∃ f' : Flight, p'.flights[k]? = some f' ∧ f'.covers = f.covers ∧
      (f.save.succeeded = true → f'.save.succeeded = true)
  queues : ∀ (q : Nat) (x : Queued), p.queues[q]? = some x → ∃ x' : Queued, p'.queues[q]? = some x' ∧
    (x'.follows = x.follows ∨ (x.follows = none ∧ ∃ s, x'.follows = some s ∧ StartedCovers p' p.marks s))

/-- One checkpoint at a time, and what the flags say of it. -/
structure PInv (p : Persister) : Prop where
  covers : ∀ f ∈ p.flights, f.covers ≤ p.marks
  busy : ∀ (k : Nat) (f : Flight), p.flights[k]? = some f → f.save.settled = false → p.inFlightEncrypted = some k
  inFlight : ∀ k, p.inFlightEncrypted = some k → ∃ f, p.flights[k]? = some f ∧ f.save.settled = false ∧
    (p.dirtyEncrypted = false → f.covers = p.marks) ∧ (f.save = .caught → p.dirtyEncrypted = true)
  idle : p.inFlightEncrypted = none → p.dirtyEncrypted = false → Durable p p.marks
  queued : ∀ q, p.queuedEncrypted = some q → p.dirtyEncrypted = true ∧
    ∃ k, p.queues[q]? = some ⟨k, none⟩ ∧ ∀ j, p.inFlightEncrypted = some j → j = k
  pending : ∀ (q : Nat) (x : Queued), p.queues[q]? = some x → x.follows = none → p.queuedEncrypted = some q
  failed : ∀ (k : Nat) (f : Flight), p.flights[k]? = some f → k + 1 = p.flights.length → f.save = .caught ∨
    f.save = .rejected →
    p.dirtyEncrypted = true

section Promises

variable {p p' p'' : Persister} {n m k q : Nat} {s : Started} {a : Awaited}

theorem Durable.mono (h : Durable p n) (hm : m ≤ n) : Durable p m := by
  rcases h with h | ⟨f, hf, hs, hn⟩
  · exact .inl (by omega)
  · exact .inr ⟨f, hf, hs, hm.trans hn⟩

theorem StartedCovers.mono (h : StartedCovers p n s) (hm : m ≤ n) : StartedCovers p m s := by
  cases s with
  | nothing => exact Durable.mono h hm
  | flight k =>
    obtain ⟨f, hf, hn⟩ := h
    exact ⟨f, hf, hm.trans hn⟩

theorem Durable.later (h : Durable p n) (hl : Later p p') : Durable p' n := by
  rcases h with h | ⟨f, hf, hs, hn⟩
  · exact .inl h
  · obtain ⟨k, hk⟩ := getElem?_of_mem hf
    obtain ⟨f', hf', hc, hs'⟩ := hl.flights k f hk
    exact .inr ⟨f', mem_of_getElem? hf', hs' hs, hc ▸ hn⟩

theorem StartedCovers.later (h : StartedCovers p n s) (hl : Later p p') : StartedCovers p' n s := by
  cases s with
  | nothing => exact Durable.later h hl
  | flight k =>
    obtain ⟨f, hf, hn⟩ := h
    obtain ⟨f', hf', hc, -⟩ := hl.flights k f hf
    exact ⟨f', hf', hc ▸ hn⟩

theorem AwaitedCovers.later (h : AwaitedCovers p n a) (hl : Later p p') : AwaitedCovers p' n a := by
  cases a with
  | started s => exact StartedCovers.later h hl
  | queue q =>
    obtain ⟨x, hx, hpend, hran⟩ := h
    obtain ⟨x', hx', he | ⟨hnone, s, hs, hcov⟩⟩ := hl.queues q x hx
    · refine ⟨x', hx', fun hn => (hpend (he ▸ hn)).trans hl.marks, fun s hs => ?_⟩
      exact (hran s (he ▸ hs)).later hl
    · refine ⟨x', hx', fun hn => ?_, fun t ht => ?_⟩
      · cases hs.symm.trans hn
      · cases hs.symm.trans ht
        exact hcov.mono (hpend hnone)

theorem Later.refl (p : Persister) : Later p p :=
  ⟨le_rfl, fun _ f h => ⟨f, h, rfl, id⟩, fun _ x h => ⟨x, h, .inl rfl⟩⟩

theorem Later.trans (h : Later p p') (h' : Later p' p'') : Later p p'' where
  marks := h.marks.trans h'.marks
  flights := fun k f hf => by
    obtain ⟨f', hf', hc, hs⟩ := h.flights k f hf
    obtain ⟨f'', hf'', hc', hs'⟩ := h'.flights k f' hf'
    exact ⟨f'', hf'', hc'.trans hc, hs' ∘ hs⟩
  queues := fun q x hx => by
    obtain ⟨x', hx', hq⟩ := h.queues q x hx
    obtain ⟨x'', hx'', hq'⟩ := h'.queues q x' hx'
    refine ⟨x'', hx'', ?_⟩
    rcases hq with he | ⟨hn, s, hs, hc⟩
    · rcases hq' with he' | ⟨hn', s, hs, hc⟩
      · exact .inl (he'.trans he)
      · exact .inr ⟨he ▸ hn', s, hs, hc.mono h.marks⟩
    · rcases hq' with he' | ⟨hn', _⟩
      · exact .inr ⟨hn, s, he' ▸ hs, hc.later h'⟩
      · cases hs.symm.trans hn'

theorem durable_of_startedResolved (h : StartedCovers p n s) (hr : p.startedResolved s = true) : Durable p n := by
  cases s with
  | nothing => exact h
  | flight k =>
    obtain ⟨f, hf, hn⟩ := h
    have hs : f.save = .resolved := by simpa [Persister.startedResolved, hf] using hr
    exact .inr ⟨f, mem_of_getElem? hf, by rw [hs]; rfl, hn⟩

theorem durable_of_awaitedResolved (h : AwaitedCovers p n a) (hr : p.awaitedResolved a = true) : Durable p n := by
  cases a with
  | started s => exact durable_of_startedResolved h hr
  | queue q =>
    obtain ⟨x, hx, -, hran⟩ := h
    simp only [Persister.awaitedResolved, hx, bind_some] at hr
    obtain ⟨s, hs, hr⟩ := (Option.any_eq_true _ _).mp hr
    exact durable_of_startedResolved (hran s hs) hr

/-! ## The persister keeps its invariant -/

/-- The fields the invariant reads are the same, with a mark or without. -/
theorem pinv_of_same (hi : PInv p) (hf : p'.flights = p.flights) (hq : p'.queues = p.queues)
    (hfl : p'.inFlightEncrypted = p.inFlightEncrypted) (hqu : p'.queuedEncrypted = p.queuedEncrypted)
    (hm : (p'.dirtyEncrypted = p.dirtyEncrypted ∧ p'.marks = p.marks) ∨
    (p'.dirtyEncrypted = true ∧ p.marks ≤ p'.marks)) :
    PInv p' ∧ Later p p' := by
  have hmarks : p.marks ≤ p'.marks := by rcases hm with h | h <;> omega
  have hclean : p'.dirtyEncrypted = false → p.dirtyEncrypted = false ∧ p'.marks = p.marks := fun hd => by
    rcases hm with ⟨h, h'⟩ | ⟨h, -⟩
    · exact ⟨h ▸ hd, h'⟩
    · cases h.symm.trans hd
  have hdirty : p.dirtyEncrypted = true → p'.dirtyEncrypted = true := fun hd => by
    rcases hm with ⟨h, -⟩ | ⟨h, -⟩
    · exact h ▸ hd
    · exact h
  refine ⟨⟨?_, ?_, ?_, ?_, ?_, ?_, ?_⟩, hmarks, fun k f h => ⟨f, hf ▸ h, rfl, id⟩, fun q x h => ⟨x, hq ▸ h, .inl rfl⟩⟩
  · exact fun f h => (hi.covers f (hf ▸ h)).trans hmarks
  · exact fun k f h hs => hfl ▸ hi.busy k f (hf ▸ h) hs
  · intro k hk
    obtain ⟨f, h, hs, hc, hcaught⟩ := hi.inFlight k (hfl ▸ hk)
    refine ⟨f, hf ▸ h, hs, fun hd => ?_, fun h => hdirty (hcaught h)⟩
    obtain ⟨hd, hm⟩ := hclean hd
    rw [hm]
    exact hc hd
  · intro hn hd
    obtain ⟨hd, hm⟩ := hclean hd
    rw [hm]
    rcases hi.idle (hfl ▸ hn) hd with h | ⟨f, h, hs⟩
    · exact .inl h
    · exact .inr ⟨f, hf ▸ h, hs⟩
  · intro q h
    obtain ⟨hd, k, hk, hj⟩ := hi.queued q (hqu ▸ h)
    exact ⟨hdirty hd, k, hq ▸ hk, fun j h => hj j (hfl ▸ h)⟩
  · exact fun q x h hn => hqu ▸ hi.pending q x (hq ▸ h) hn
  · exact fun k f h hlast hs => hdirty (hi.failed k f (hf ▸ h) (hf ▸ hlast) hs)

theorem pinv_mark (hi : PInv p) : PInv p.mark ∧ Later p p.mark := by
  refine pinv_of_same hi rfl rfl rfl rfl (.inr ⟨rfl, ?_⟩)
  show p.marks ≤ p.marks + 1
  omega

theorem getElem?_concat_cases {α : Type} {l : List α} {x y : α} {j : Nat} (h : (l ++ [x])[j]? = some y) :
    l[j]? = some y ∨ (j = l.length ∧ y = x) := by
  rw [getElem?_append] at h
  split at h
  · exact .inl h
  · rw [getElem?_singleton] at h
    split at h
    · exact .inr ⟨by omega, (some.inj h).symm⟩
    · cases h

/-- What `startFlight` needs of its callers: none in flight, none queued. -/
theorem pinv_startFlight (hi : PInv p) (hn : p.inFlightEncrypted = none) (hq : p.queuedEncrypted = none) :
    PInv p.startFlight.1 ∧ Later p p.startFlight.1 ∧ StartedCovers p.startFlight.1 p.marks p.startFlight.2 := by
  unfold Persister.startFlight
  split
  · have hold : ∀ (k : Nat) (f : Flight), p.flights[k]? = some f → f.save.settled = true := fun k f hf => by
      rw [← Bool.not_eq_false]
      intro hs
      cases hn.symm.trans (hi.busy k f hf hs)
    refine ⟨⟨?_, ?_, ?_, nofun, ?_, ?_, ?_⟩, ⟨le_rfl, ?_, fun q x h => ⟨x, h, .inl rfl⟩⟩,
      ⟨_, getElem?_concat_length, le_rfl⟩⟩
    · intro f hf
      rcases mem_append.mp hf with hf | hf
      · exact hi.covers f hf
      · rw [mem_singleton.mp hf]
    · intro k f hf hs
      rcases getElem?_concat_cases hf with hf | ⟨rfl, -⟩
      · cases (hold k f hf).symm.trans hs
      · rfl
    · intro k hk
      cases hk
      exact ⟨_, getElem?_concat_length, rfl, fun _ => rfl, nofun⟩
    · intro q h
      cases hq.symm.trans h
    · intro q x h hnone
      cases hq.symm.trans (hi.pending q x h hnone)
    · intro k f hf hlast hs
      rcases getElem?_concat_cases hf with hf | ⟨-, rfl⟩
      · have hlt := (List.getElem?_eq_some_iff.mp hf).1
        rw [length_append, length_singleton] at hlast
        omega
      · rcases hs with hs | hs <;> cases hs
    · intro k f hf
      exact ⟨f, getElem?_append_left (List.getElem?_eq_some_iff.mp hf).1 ▸ hf, rfl, id⟩
  · rename_i hd
    rw [Bool.not_eq_true] at hd
    exact ⟨hi, .refl p, hi.idle hn hd⟩

theorem pinv_flush (hi : PInv p) :
    PInv p.flushEncryptedInternal.1 ∧ Later p p.flushEncryptedInternal.1 ∧
      AwaitedCovers p.flushEncryptedInternal.1 p.marks p.flushEncryptedInternal.2 := by
  unfold Persister.flushEncryptedInternal
  split
  · rename_i q hq
    obtain ⟨-, k, hk, -⟩ := hi.queued q hq
    exact ⟨hi, .refl p, ⟨k, none⟩, hk, fun _ => le_rfl, nofun⟩
  · rename_i hq
    split
    · rename_i k hk
      obtain ⟨f, hf, hs, hc, hcaught⟩ := hi.inFlight k hk
      split
      · rename_i hd
        refine ⟨⟨hi.covers, hi.busy, hi.inFlight, hi.idle, ?_, ?_, hi.failed⟩,
          ⟨le_rfl, fun _ f h => ⟨f, h, rfl, id⟩, ?_⟩, ?_⟩
        · intro q h
          cases h
          exact ⟨hd, k, getElem?_concat_length, fun j hj => some.inj (hj.symm.trans hk)⟩
        · intro q x h hnone
          rcases getElem?_concat_cases h with h | ⟨rfl, -⟩
          · cases hq.symm.trans (hi.pending q x h hnone)
          · rfl
        · intro q x h
          exact ⟨x, getElem?_append_left (List.getElem?_eq_some_iff.mp h).1 ▸ h, .inl rfl⟩
        · exact ⟨⟨k, none⟩, getElem?_concat_length, fun _ => le_rfl, nofun⟩
      · rename_i hd
        rw [Bool.not_eq_true] at hd
        exact ⟨hi, .refl p, f, hf, (hc hd).ge⟩
    · rename_i hn
      exact pinv_startFlight hi hn hq

variable {f : Flight}

theorem flights_setSave {g : Flight} {save : Save} {j : Nat} (hf : p.flights[k]? = some f)
    (h : (p.setSave k save).flights[j]? = some g) : (j = k ∧ g = { f with save }) ∨
    (j ≠ k ∧ p.flights[j]? = some g) := by
  rw [Persister.setSave, getElem?_modify] at h
  by_cases hj : k = j
  · subst hj
    simp only [hf, Option.map_eq_map, map_some, if_pos, some.injEq] at h
    exact .inl ⟨rfl, h.symm⟩
  · simp only [if_neg hj, id_map'] at h
    exact .inr ⟨Ne.symm hj, h⟩

theorem setSave_self (hf : p.flights[k]? = some f)
    (save : Save) : (p.setSave k save).flights[k]? = some { f with save } := by
  simp [Persister.setSave, hf]

theorem setSave_ne {g : Flight} {j : Nat} (hg : p.flights[j]? = some g) (hj : j ≠ k) (save : Save) :
    (p.setSave k save).flights[j]? = some g := by
  simp [Persister.setSave, Ne.symm hj, hg]

theorem later_setSave {save : Save} (hf : p.flights[k]? = some f) (hs : f.save.succeeded = true → save.succeeded = true)
    (hl : p'.flights = (p.setSave k save).flights) (hq : p'.queues = p.queues)
    (hm : p'.marks = p.marks) : Later p p' := by
  refine ⟨hm.ge, fun j g hg => ?_, fun q x h => ⟨x, hq ▸ h, .inl rfl⟩⟩
  rw [hl]
  by_cases hj : j = k
  · subst hj
    cases hf.symm.trans hg
    exact ⟨_, setSave_self hf save, rfl, hs⟩
  · exact ⟨g, setSave_ne hg hj save, rfl, id⟩

/-- The checkpoint in flight moves on without settling. -/
theorem pinv_moves {save : Save} (hi : PInv p) (hf : p.flights[k]? = some f) (hk : f.save.settled = false)
    (hs : save.settled = false) (hm : f.save.succeeded = true → save.succeeded = true)
    (hl : p'.flights = (p.setSave k save).flights)
    (hq : p'.queues = p.queues) (hfl : p'.inFlightEncrypted = p.inFlightEncrypted)
    (hqu : p'.queuedEncrypted = p.queuedEncrypted)
    (hmk : p'.marks = p.marks)
    (hd : p'.dirtyEncrypted = true ∨ (p'.dirtyEncrypted = p.dirtyEncrypted ∧ save ≠ .caught)) :
    PInv p' ∧ Later p p' := by
  have hlater := later_setSave hf hm hl hq hmk
  have hcur := hi.busy k f hf hk
  have hdirty : p.dirtyEncrypted = true → p'.dirtyEncrypted = true := fun h => by
    rcases hd with h' | ⟨h', -⟩
    · exact h'
    · exact h'.trans h
  refine ⟨⟨?_, ?_, ?_, ?_, ?_, ?_, ?_⟩, hlater⟩
  · intro g hg
    obtain ⟨j, hj⟩ := getElem?_of_mem hg
    rw [hmk]
    rcases flights_setSave hf (hl ▸ hj) with ⟨-, rfl⟩ | ⟨-, hg⟩
    · exact hi.covers f (mem_of_getElem? hf)
    · exact hi.covers g (mem_of_getElem? hg)
  · intro j g hj hsg
    rw [hfl]
    rcases flights_setSave hf (hl ▸ hj) with ⟨rfl, -⟩ | ⟨-, hg⟩
    · exact hcur
    · exact hi.busy j g hg hsg
  · intro j hj
    obtain rfl : j = k := some.inj ((hfl ▸ hj).symm.trans hcur)
    obtain ⟨f', hf', -, hc, -⟩ := hi.inFlight j hcur
    cases hf.symm.trans hf'
    refine ⟨_, hl ▸ setSave_self hf save, hs, fun hcl => ?_, fun hcaught => ?_⟩
    · rw [hmk]
      rcases hd with h | ⟨h, -⟩
      · cases h.symm.trans hcl
      · exact hc (h.symm.trans hcl)
    · rcases hd with h | ⟨-, h⟩
      · exact h
      · exact absurd hcaught h
  · intro hn
    cases (hfl ▸ hn).symm.trans hcur
  · intro q h
    obtain ⟨hd, b, hb, hj⟩ := hi.queued q (hqu ▸ h)
    exact ⟨hdirty hd, b, hq ▸ hb, fun j h => hj j (hfl ▸ h)⟩
  · exact fun q x h hn => hqu ▸ hi.pending q x (hq ▸ h) hn
  · intro j g hj hlast hsg
    rcases flights_setSave hf (hl ▸ hj) with ⟨-, rfl⟩ | ⟨-, hg⟩
    · rcases hd with h | ⟨-, h⟩
      · exact h
      · rcases hsg with hsg | hsg
        · exact absurd hsg h
        · rw [show save = .rejected from hsg] at hs
          cases hs
    · refine hdirty (hi.failed j g hg ?_ hsg)
      rw [hlast, hl]
      simp [Persister.setSave]

theorem pinv_finally (hi : PInv p) (hf : p.flights[k]? = some f) (hk : f.save = .saved ∨ f.save = .caught) :
    PInv (p.finallySave k f) ∧ Later p (p.finallySave k f) := by
  have hun : f.save.settled = false := by rcases hk with h | h <;> rw [h] <;> rfl
  have hcur := hi.busy k f hf hun
  obtain ⟨f', hf', -, hc, hcaught⟩ := hi.inFlight k hcur
  cases hf.symm.trans hf'
  have hlater : Later p (p.finallySave k f) := by
    refine later_setSave hf (fun hs => ?_) rfl rfl rfl
    rcases hk with h | h
    · rw [h]; rfl
    · rw [h] at hs; cases hs
  refine ⟨⟨?_, ?_, nofun, ?_, ?_, ?_, ?_⟩, hlater⟩
  · intro g hg
    obtain ⟨j, hj⟩ := getElem?_of_mem hg
    rcases flights_setSave hf hj with ⟨-, rfl⟩ | ⟨-, hg⟩
    · exact hi.covers f (mem_of_getElem? hf)
    · exact hi.covers g (mem_of_getElem? hg)
  · intro j g hj hsg
    rcases flights_setSave hf hj with ⟨-, rfl⟩ | ⟨hne, hg⟩
    · split at hsg <;> cases hsg
    · exact absurd (some.inj ((hi.busy j g hg hsg).symm.trans hcur)) hne
  · intro _ hd
    have hns : f.save ≠ .caught := fun h => by cases (hcaught h).symm.trans hd
    refine .inr ⟨_, mem_of_getElem? (setSave_self hf _), ?_, (hc hd).ge⟩
    rw [if_neg hns]
    rfl
  · intro q h
    obtain ⟨hd, b, hb, -⟩ := hi.queued q h
    exact ⟨hd, b, hb, nofun⟩
  · exact hi.pending
  · intro j g hj hlast hsg
    rcases flights_setSave hf hj with ⟨-, rfl⟩ | ⟨-, hg⟩
    · rcases hk with h | h
      · simp [h] at hsg
      · exact hcaught h
    · refine hi.failed j g hg ?_ hsg
      rw [hlast]
      simp [Persister.finallySave, Persister.setSave]

theorem startFlight_queues (p : Persister) : p.startFlight.1.queues = p.queues := by
  unfold Persister.startFlight
  split <;> rfl

theorem runQueued_eq (p : Persister) (q : Nat) :
    p.runQueued q = ({ p with
      queuedEncrypted := none
      queues := p.queues.modify q ({ · with follows := some p.startFlight.2 }) } : Persister).startFlight.1 ∧
    p.startFlight.2 = ({ p with
      queuedEncrypted := none
      queues := p.queues.modify q ({ · with follows := some p.startFlight.2 }) } : Persister).startFlight.2 := by
  cases hd : p.dirtyEncrypted <;> simp [Persister.runQueued, Persister.startFlight, hd]

theorem pinv_runQueued {x : Queued} (hi : PInv p) (hx : p.queues[q]? = some x) (hn : x.follows = none)
    (hb : (p.flights[x.behind]?).any (·.save.settled) = true) : PInv (p.runQueued q) ∧ Later p (p.runQueued q) := by
  have hqu := hi.pending q x hx hn
  obtain ⟨-, b, hqb, hj⟩ := hi.queued q hqu
  have hidle : p.inFlightEncrypted = none := by
    cases hfl : p.inFlightEncrypted with
    | none => rfl
    | some j =>
      obtain ⟨f, hf, hs, -⟩ := hi.inFlight j hfl
      cases hx.symm.trans hqb
      rw [← hj j hfl, hf] at hb
      simp [hs] at hb
  obtain ⟨heq, hst⟩ := runQueued_eq p q
  rw [heq]
  generalize hp1 : ({ p with
      queuedEncrypted := none
      queues := p.queues.modify q ({ · with follows := some p.startFlight.2 }) } : Persister) = p1 at hst
  have hi1 : PInv p1 := by
    subst hp1
    refine ⟨hi.covers, hi.busy, hi.inFlight, hi.idle, nofun, fun r y hy hnone => ?_, hi.failed⟩
    rw [getElem?_modify] at hy
    by_cases hr : q = r
    · subst hr
      simp only [hx, if_pos, Option.map_eq_map, map_some, some.injEq] at hy
      rw [← hy] at hnone
      cases hnone
    · simp only [if_neg hr, id_map'] at hy
      exact absurd (some.inj (hqu.symm.trans (hi.pending r y hy hnone))) hr
  obtain ⟨h1, h2, h3⟩ := pinv_startFlight hi1 (by subst hp1; exact hidle) (by subst hp1; rfl)
  have hmarks : p1.marks = p.marks := by subst hp1; rfl
  have hflights : p1.flights = p.flights := by subst hp1; rfl
  refine ⟨h1, hmarks ▸ h2.marks, fun k f hf => h2.flights k f (hflights ▸ hf), fun r y hy => ?_⟩
  rw [startFlight_queues]
  by_cases hr : r = q
  · subst hr
    cases hx.symm.trans hy
    refine ⟨{ x with follows := some p.startFlight.2 }, by subst hp1; simp [hx], .inr ⟨hn, _, rfl, ?_⟩⟩
    rw [hst, ← hmarks]
    exact h3
  · exact ⟨y, by subst hp1; simp [Ne.symm hr, hy], .inl rfl⟩

theorem pinv_flags (hi : PInv p) (p' : Persister) (hf : p'.flights = p.flights) (hq : p'.queues = p.queues)
    (hfl : p'.inFlightEncrypted = p.inFlightEncrypted) (hqu : p'.queuedEncrypted = p.queuedEncrypted)
    (hd : p'.dirtyEncrypted = p.dirtyEncrypted) (hm : p'.marks = p.marks) : PInv p' ∧ Later p p' :=
  pinv_of_same hi hf hq hfl hqu (.inl ⟨hd, hm⟩)

theorem pinv_ingestEnd (hi : PInv p) (receiveSkipBudget : Nat) (bufferUi : Bool) :
    PInv (p.onBulkIngestEnd receiveSkipBudget bufferUi) ∧ Later p (p.onBulkIngestEnd receiveSkipBudget bufferUi) := by
  obtain ⟨hi1, hl1⟩ : PInv (p.leaveWindow receiveSkipBudget bufferUi) ∧
    Later p (p.leaveWindow receiveSkipBudget bufferUi) := by
    unfold Persister.leaveWindow
    split
    · exact pinv_flags hi _ rfl rfl rfl rfl rfl rfl
    · exact pinv_flags hi _ rfl rfl rfl rfl rfl rfl
  obtain ⟨hi2, hl2⟩ := pinv_mark hi1
  unfold Persister.onBulkIngestEnd
  simp only
  split
  · exact ⟨hi1, hl1⟩
  · split
    · exact ⟨hi2, hl1.trans hl2⟩
    · obtain ⟨hi3, hl3, -⟩ := pinv_flush hi2
      exact ⟨hi3, (hl1.trans hl2).trans hl3⟩

theorem pinv_scheduleDeferred (hi : PInv p) : PInv p.scheduleDeferred ∧ Later p p.scheduleDeferred := by
  obtain ⟨hi1, hl1⟩ := pinv_mark hi
  obtain ⟨hi2, hl2⟩ := pinv_flags hi1 p.scheduleDeferred rfl rfl rfl rfl rfl rfl
  exact ⟨hi2, hl1.trans hl2⟩

theorem pinv_persistNow (hi : PInv p) : PInv p.persistNow ∧ Later p p.persistNow := by
  obtain ⟨hi1, hl1⟩ := pinv_mark hi
  obtain ⟨hi2, hl2⟩ : PInv p.persistNow ∧ Later p.mark p.persistNow := by
    unfold Persister.persistNow
    simp only
    split
    · exact pinv_flags hi1 _ rfl rfl rfl rfl rfl rfl
    · exact pinv_flags hi1 _ rfl rfl rfl rfl rfl rfl
  exact ⟨hi2, hl1.trans hl2⟩

theorem pinv_create : PInv .create :=
  ⟨nofun, nofun, nofun, fun _ _ => .inl rfl, nofun, nofun, nofun⟩

end Promises

/-! ## The callers -/

/-- The first `since` checkpoints started before mark `n`. -/
structure After (p : Persister) (since n : Nat) : Prop where
  pos : 0 < n
  made : n ≤ p.marks
  started : since ≤ p.flights.length
  before : ∀ (k : Nat) (f : Flight), k < since → p.flights[k]? = some f → f.covers < n

def WindowOk (s : State) : WindowPhase → Prop
  | .resolved since => since ≤ s.p.flights.length
  | .marked since n | .closed since n => After s.p since n
  | .flushing since n i => After s.p since n ∧ ∃ call, s.calls[i]? = some call ∧ n ≤ call.needs
  | .committed since => ∃ k f, since ≤ k ∧ s.p.flights[k]? = some f ∧ f.save.succeeded = true
  | _ => True

structure Inv (s : State) : Prop where
  persister : PInv s.p
  calls : ∀ (i : Nat) (call : FlushCall), s.calls[i]? = some call →
    AwaitedCovers s.p call.needs call.awaited ∧ (call.resolved = true → Durable s.p call.needs)
  windows : ∀ w ∈ s.windows, WindowOk s w.phase

section Steps

variable {s s' : State} {p p' : Persister}

theorem Later.length_le (h : Later p p') : p.flights.length ≤ p'.flights.length := by
  by_contra hlt
  rw [not_le] at hlt
  obtain ⟨f', hf', -⟩ := h.flights p'.flights.length _ (getElem?_eq_getElem hlt)
  rw [getElem?_eq_none le_rfl] at hf'
  cases hf'

theorem After.later {since n : Nat} (h : After p since n) (hl : Later p p') : After p' since n where
  pos := h.pos
  made := h.made.trans hl.marks
  started := h.started.trans hl.length_le
  before := fun k f' hk hf' => by
    obtain ⟨f, hf⟩ : ∃ f, p.flights[k]? = some f := ⟨_, getElem?_eq_getElem (hk.trans_le h.started)⟩
    obtain ⟨g, hg, hc, -⟩ := hl.flights k f hf
    cases hf'.symm.trans hg
    rw [hc]
    exact h.before k f hk hf

/-- A window sees the persister move on and calls being added or resolved. -/
theorem WindowOk.later {phase : WindowPhase} (h : WindowOk s phase) (hl : Later s.p s'.p)
    (hc : ∀ (i : Nat) (call : FlushCall), s.calls[i]? = some call → ∃ call', s'.calls[i]? = some call' ∧
    call'.needs = call.needs) :
    WindowOk s' phase := by
  cases phase with
  | resolved since => exact Nat.le_trans h hl.length_le
  | marked since n => exact After.later h hl
  | closed since n => exact After.later h hl
  | flushing since n i =>
    obtain ⟨ha, call, hcall, hn⟩ := h
    obtain ⟨call', hcall', he⟩ := hc i call hcall
    exact ⟨ha.later hl, call', hcall', he ▸ hn⟩
  | committed since =>
    obtain ⟨k, f, hk, hf, hs⟩ := h
    obtain ⟨f', hf', -, hs'⟩ := hl.flights k f hf
    exact ⟨k, f', hk, hf', hs' hs⟩
  | running => trivial
  | threw => trivial
  | resolvedUndefined => trivial
  | ended => trivial

theorem inv_persister (hi : Inv s) (h : PInv p' ∧ Later s.p p') : Inv { s with p := p' } where
  persister := h.1
  calls := fun i call hc => by
    obtain ⟨ha, hd⟩ := hi.calls i call hc
    exact ⟨ha.later h.2, fun hr => (hd hr).later h.2⟩
  windows := fun w hw => (hi.windows w hw).later h.2 fun i call hc => ⟨call, hc, rfl⟩

variable {i : Nat}

theorem inv_setWindow (hi : Inv s) {phase : WindowPhase} (h : WindowOk s phase) : Inv (setWindow s i phase) where
  persister := hi.persister
  calls := hi.calls
  windows := fun w hw => by
    suffices WindowOk s w.phase from this.later (.refl _) fun i call hc => ⟨call, hc, rfl⟩
    obtain ⟨j, hj⟩ := getElem?_of_mem hw
    rw [setWindow, getElem?_modify] at hj
    by_cases hij : i = j
    · obtain ⟨v, -, rfl⟩ := map_eq_some_iff.mp hj
      rw [if_pos hij]
      exact h
    · simp only [if_neg hij, id_map'] at hj
      exact hi.windows w (mem_of_getElem? hj)

theorem inv_flush (hi : Inv s) : Inv (flush s) := by
  obtain ⟨hp, hl, hcov⟩ := pinv_flush hi.persister
  refine ⟨hp, fun i call hc => ?_, fun w hw => (hi.windows w hw).later hl fun i call hc => ?_⟩
  · rcases getElem?_concat_cases hc with hc | ⟨-, rfl⟩
    · obtain ⟨ha, hd⟩ := hi.calls i call hc
      exact ⟨ha.later hl, fun hr => (hd hr).later hl⟩
    · exact ⟨hcov, nofun⟩
  · exact ⟨call, getElem?_append_left (List.getElem?_eq_some_iff.mp hc).1 ▸ hc, rfl⟩

theorem inv_resolve (hi : Inv s) {call : FlushCall} (hc : s.calls[i]? = some call)
    (hr : s.p.awaitedResolved call.awaited = true) :
    Inv { s with calls := s.calls.set i { call with resolved := true } } := by
  obtain ⟨ha, hd⟩ := hi.calls i call hc
  have hlt := (List.getElem?_eq_some_iff.mp hc).1
  refine ⟨hi.persister, fun j c hj => ?_, fun w hw => (hi.windows w hw).later (.refl _) fun j c hj => ?_⟩
  · rw [getElem?_set] at hj
    split at hj
    · cases hj
      exact ⟨ha, fun _ => durable_of_awaitedResolved ha hr⟩
    · exact hi.calls j c hj
  · by_cases hij : i = j
    · subst hij
      cases hc.symm.trans hj
      exact ⟨_, getElem?_set_self hlt, rfl⟩
    · exact ⟨c, by simpa [hij] using hj, rfl⟩

theorem after_mark (hi : PInv p) {since : Nat}
    (h : since ≤ p.flights.length) : After p.scheduleDeferred since p.scheduleDeferred.marks where
  pos := Nat.succ_pos _
  made := le_rfl
  started := h
  before := fun _ f _ hf => Nat.lt_succ_of_le (hi.covers f (mem_of_getElem? hf))

theorem committed_of_resolved (hi : Inv s) {since n : Nat} (h : WindowOk s (.flushing since n i))
    (hr : (s.calls[i]?).any (·.resolved) = true) : WindowOk s (.committed since) := by
  obtain ⟨ha, call, hc, hn⟩ := h
  rw [hc] at hr
  obtain hzero | ⟨f, hf, hs, hcov⟩ := (hi.calls i call hc).2 hr
  · have := ha.pos
    omega
  · obtain ⟨k, hk⟩ := getElem?_of_mem hf
    refine ⟨k, f, ?_, hk, hs⟩
    by_contra hlt
    rw [not_le] at hlt
    have := ha.before k f hlt hk
    omega

variable {receiveSkipBudget : Nat}

theorem step_immediateFlush (hi : Inv s) (h : step receiveSkipBudget s .immediateFlush = some s') : Inv s' := by
  simp only [step] at h
  split at h
  · cases h
    obtain ⟨hi1, hl1⟩ := pinv_flags hi.persister { s.p with immediateFlushQueued := false } rfl rfl rfl rfl rfl rfl
    obtain ⟨hi2, hl2, -⟩ := pinv_flush hi1
    exact inv_persister hi ⟨hi2, hl1.trans hl2⟩
  · cases h

theorem step_resolve (hi : Inv s) (h : step receiveSkipBudget s (.resolve i) = some s') : Inv s' := by
  simp only [step] at h
  split at h
  · rename_i call hc
    split at h
    · rename_i hr
      cases h
      exact inv_resolve hi hc hr
    · cases h
  · cases h

theorem step_saveEnds {k : Nat} {ok : Bool} (hi : Inv s)
    (h : step receiveSkipBudget s (.saveEnds k ok) = some s') : Inv s' := by
  simp only [step] at h
  split at h
  · rename_i f hf
    split at h
    · rename_i hs
      cases h
      have hrun : f.save.succeeded = false ∧ f.save.settled = false := by rw [hs]; exact ⟨rfl, rfl⟩
      refine inv_persister hi (pinv_moves hi.persister hf hrun.2 ?_ ?_ rfl rfl rfl rfl rfl (.inr ⟨rfl, ?_⟩))
      · cases ok <;> rfl
      · rw [hrun.1]
        exact nofun
      · cases ok <;> exact nofun
    · cases h
  · cases h

theorem step_catchRuns {k : Nat} (hi : Inv s) (h : step receiveSkipBudget s (.catchRuns k) = some s') : Inv s' := by
  simp only [step] at h
  split at h
  · rename_i f hf
    split at h
    · rename_i hs
      cases h
      refine inv_persister hi (pinv_moves hi.persister hf ?_
        (rfl : Save.caught.settled = false) ?_ rfl rfl rfl rfl rfl (.inl rfl))
      · rw [hs]; rfl
      · rw [hs]; exact nofun
    · cases h
  · cases h

theorem step_finallyRuns {k : Nat} (hi : Inv s) (h : step receiveSkipBudget s (.finallyRuns k) = some s') : Inv s' := by
  simp only [step] at h
  split at h
  · rename_i f hf
    split at h
    · rename_i hs
      cases h
      exact inv_persister hi (pinv_finally hi.persister hf hs)
    · cases h
  · cases h

theorem step_queuedRuns {q : Nat} (hi : Inv s) (h : step receiveSkipBudget s (.queuedRuns q) = some s') : Inv s' := by
  simp only [step] at h
  split at h
  · rename_i x hx
    split at h
    · rename_i hq
      cases h
      exact inv_persister hi (pinv_runQueued hi.persister hx hq.1 hq.2)
    · cases h
  · cases h

theorem step_withBegins {persister : Bool} (hi : Inv s)
    (h : step receiveSkipBudget s (.withBegins persister) = some s') : Inv s' := by
  cases h
  have hi1 := inv_persister hi (pinv_flags hi.persister s.p.onBulkIngestStart rfl rfl rfl rfl rfl rfl)
  refine ⟨hi1.persister, hi1.calls, fun w hw => ?_⟩
  rcases mem_append.mp hw with hw | hw
  · exact (hi1.windows w hw).later (.refl _) fun i call hc => ⟨call, hc, rfl⟩
  · rw [mem_singleton.mp hw]
    trivial

variable {w : Nat}

theorem step_bodyResolves {isUndefined : Bool} (hi : Inv s)
    (h : step receiveSkipBudget s (.bodyResolves w isUndefined) = some s') : Inv s' := by
  simp only [step] at h
  split at h
  · cases h
    refine inv_setWindow hi ?_
    split
    · trivial
    · exact le_rfl
  · cases h

theorem step_bodyThrows (hi : Inv s) (h : step receiveSkipBudget s (.bodyThrows w) = some s') : Inv s' := by
  simp only [step] at h
  split at h
  · cases h
    exact inv_setWindow hi trivial
  · cases h

theorem step_withMarks (hi : Inv s) (h : step receiveSkipBudget s (.withMarks w) = some s') : Inv s' := by
  simp only [step] at h
  split at h
  · rename_i since hw
    cases h
    have hres : since ≤ s.p.flights.length := hi.windows _ (mem_of_getElem? hw)
    exact inv_setWindow (inv_persister hi (pinv_scheduleDeferred hi.persister)) (after_mark hi.persister hres)
  · cases h

theorem step_withCloses (hi : Inv s) (h : step receiveSkipBudget s (.withCloses w) = some s') : Inv s' := by
  have hend := inv_persister hi (pinv_ingestEnd hi.persister receiveSkipBudget false)
  simp only [step] at h
  split at h
  · rename_i since n hw
    cases h
    have hmk : After s.p since n := hi.windows _ (mem_of_getElem? hw)
    exact inv_setWindow hend (hmk.later (pinv_ingestEnd hi.persister receiveSkipBudget false).2)
  · cases h
    exact inv_setWindow hend trivial
  · cases h
    exact inv_setWindow hend trivial
  · cases h
    exact inv_setWindow hend trivial
  · cases h

theorem step_withFlushes (hi : Inv s) (h : step receiveSkipBudget s (.withFlushes w) = some s') : Inv s' := by
  simp only [step] at h
  split at h
  · rename_i since n hw
    cases h
    have hcl : After s.p since n := hi.windows _ (mem_of_getElem? hw)
    refine inv_setWindow (inv_flush hi) ⟨hcl.later (pinv_flush hi.persister).2.1, _, getElem?_concat_length, hcl.made⟩
  · cases h

theorem step_withCommits (hi : Inv s) (h : step receiveSkipBudget s (.withCommits w) = some s') : Inv s' := by
  simp only [step] at h
  split at h
  · rename_i since n i hw
    split at h
    · rename_i hr
      cases h
      exact inv_setWindow hi (committed_of_resolved hi (hi.windows _ (mem_of_getElem? hw)) hr)
    · cases h
  · cases h

theorem inv_step (hi : Inv s) (e : Event) (h : step receiveSkipBudget s e = some s') : Inv s' := by
  cases e with
  | scheduleDeferred =>
    cases h
    exact inv_persister hi (pinv_scheduleDeferred hi.persister)
  | persistNow =>
    cases h
    exact inv_persister hi (pinv_persistNow hi.persister)
  | immediateFlush => exact step_immediateFlush hi h
  | markStructural =>
    cases h
    exact inv_persister hi (pinv_flags hi.persister _ rfl rfl rfl rfl rfl rfl)
  | noteReceivedFrame structural =>
    cases h
    cases structural
    · exact inv_persister hi (pinv_flags hi.persister _ rfl rfl rfl rfl rfl rfl)
    · exact inv_persister hi (pinv_flags hi.persister _ rfl rfl rfl rfl rfl rfl)
  | flush =>
    cases h
    exact inv_flush hi
  | resolve i => exact step_resolve hi h
  | saveEnds k ok => exact step_saveEnds hi h
  | catchRuns k => exact step_catchRuns hi h
  | finallyRuns k => exact step_finallyRuns hi h
  | queuedRuns q => exact step_queuedRuns hi h
  | ingestStart =>
    cases h
    exact inv_persister hi (pinv_flags hi.persister _ rfl rfl rfl rfl rfl rfl)
  | ingestEnd bufferUi =>
    cases h
    exact inv_persister hi (pinv_ingestEnd hi.persister _ _)
  | withBegins persister => exact step_withBegins hi h
  | bodyResolves w isUndefined => exact step_bodyResolves hi h
  | bodyThrows w => exact step_bodyThrows hi h
  | withMarks w => exact step_withMarks hi h
  | withCloses w => exact step_withCloses hi h
  | withFlushes w => exact step_withFlushes hi h
  | withCommits w => exact step_withCommits hi h

theorem inv_init : Inv ⟨.create, [], []⟩ := ⟨pinv_create, nofun, nofun⟩

/-- The promises of the persister, in every state of every run. -/
theorem flush_durable {receiveSkipBudget : Nat} (h : (machine receiveSkipBudget).Reach s) :
    (∀ call ∈ s.calls, call.resolved = true → 0 < call.needs →
      ∃ f ∈ s.p.flights, f.save.succeeded = true ∧ call.needs ≤ f.covers) ∧
    (∀ (j k : Nat) (f g : Flight), s.p.flights[j]? = some f → s.p.flights[k]? = some g → f.save.settled = false →
      g.save.settled = false →
      j = k) ∧
    (∀ (k : Nat) (f : Flight), s.p.flights[k]? = some f → k + 1 = s.p.flights.length → f.save = .caught ∨
      f.save = .rejected →
      s.p.dirtyEncrypted = true) ∧
    ∀ w ∈ s.windows, ∀ since, w.phase = .committed since →
      ∃ k f, since ≤ k ∧ s.p.flights[k]? = some f ∧ f.save.succeeded = true := by
  have hi : Inv s := Machine.Reach.invariant (I := Inv) (fun s hs => by rw [show s = _ from hs]; exact inv_init)
      (fun _ e _ hi hs => inv_step hi e hs) h
  refine ⟨fun call hc hr hpos => ?_, fun j k f g hj hk hf hg => ?_, hi.persister.failed, fun w hw since hp => ?_⟩
  · obtain ⟨i, hc⟩ := getElem?_of_mem hc
    rcases (hi.calls i call hc).2 hr with hz | hd
    · omega
    · exact hd
  · exact some.inj ((hi.persister.busy j f hj hf).symm.trans (hi.persister.busy k g hk hg))
  · have hok := hi.windows w hw
    rw [hp] at hok
    exact hok

end Steps

/-! ## A commit after a failed checkpoint -/

/-- A checkpoint fails; the replay that resolves meanwhile commits after the next one. -/
def replayRun : List Event :=
  [.persistNow, .immediateFlush, .saveEnds 0 false, .catchRuns 0, .withBegins true, .bodyResolves 0 false,
    .withMarks 0, .finallyRuns 0,
    .withCloses 0, .withFlushes 0, .saveEnds 1 true, .finallyRuns 1, .resolve 0, .withCommits 0]

theorem replay_commits :
    ∃ s, (machine 0).Reach s ∧ s.windows = [⟨true, .committed 1⟩] ∧ s.calls = [⟨3, .started (.flight 1), true⟩] ∧
      (∃ f ∈ s.p.flights, f.save.succeeded = true ∧ 3 ≤ f.covers) ∧
      ∃ k f, 1 ≤ k ∧ s.p.flights[k]? = some f ∧ f.save.succeeded = true := by
  have hv : ((machine 0).run ⟨.create, [], []⟩ replayRun).map (fun s => (s.windows, s.calls)) =
      some ([⟨true, .committed 1⟩], [⟨3, .started (.flight 1), true⟩]) := by decide
  obtain ⟨s, hs, hv⟩ := map_eq_some_iff.mp hv
  obtain ⟨hw, hc⟩ := Prod.mk.inj hv
  have hr : (machine 0).Reach s := Machine.reach_of_run replayRun rfl hs
  obtain ⟨hcalls, -, -, hwin⟩ := flush_durable hr
  refine ⟨s, hr, hw, hc, hcalls ⟨3, .started (.flight 1), true⟩ ?_ rfl (by decide), hwin ⟨true, .committed 1⟩ ?_ 1 rfl⟩
  · rw [hc]
    exact mem_singleton_self _
  · rw [hw]
    exact mem_singleton_self _

end Canari.Mls.StatePersister
