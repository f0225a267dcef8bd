/-
  Canari.Mls.PerGroupScheduler — the inbound queues and the client mutex
  (`frontend/src/lib/mls-client/mlsPerGroupScheduler.ts`).

  Frames wait in one bucket a group, or in a window's buffer while a Welcome of their
  group is on its way. One drain at a time takes them out in round robin, under a
  mutex that a commit may hold, and lend while its request is on the network.

  `Queues` holds what the class keeps of frames, `Lock` what it keeps of the mutex; the
  functions carry the source's names. Code runs without interruption between two
  awaits, so an event is one such stretch: of `drain`, of a caller of the mutex, or a
  call from outside (`enqueue`, `releaseWelcomeBuffer`). `Phase` is where the drain is
  suspended. A caller of the mutex that is no frame is named by a number.

  Left out: the idle waiters and `currentGroupKey`, which only they read, the log lines
  and the watchdog of `guarded`, which reports and never cancels. `rrKeySet` mirrors
  `rrKeys`. What a frame carries besides the fields read here is its `payload`.
-/

import Mathlib.Algebra.GroupWithZero.Nat
import Canari.Lib.JsMap
import Canari.Lib.Machine

namespace Canari.Mls.Scheduler

open Lib

/-- The bucket key of messages without a `groupId`. -/
def mlsQueueOrphanKey : String := "__no_group__"

structure MlsQueuedMessage (β : Type) where
  groupId : Option String
  isWelcome : Bool
  type : Option String
  payload : β
  deriving DecidableEq

inductive MlsPerGroupQueueMode where
  | web
  | tauri
  deriving DecidableEq

inductive Tier where
  | control
  | welcome
  | messages
  deriving DecidableEq

structure GroupBuckets (β : Type) where
  control : List (MlsQueuedMessage β)
  welcome : List (MlsQueuedMessage β)
  messages : List (MlsQueuedMessage β)

structure PickedFrame (β : Type) where
  key : String
  tier : Tier
  msg : MlsQueuedMessage β

variable {β : Type}

namespace GroupBuckets

def empty : GroupBuckets β := ⟨[], [], []⟩

variable (b : GroupBuckets β)

def tier : Tier → List (MlsQueuedMessage β)
  | .control => b.control
  | .welcome => b.welcome
  | .messages => b.messages

def setTier (l : List (MlsQueuedMessage β)) : Tier → GroupBuckets β
  | .control => { b with control := l }
  | .welcome => { b with welcome := l }
  | .messages => { b with messages := l }

def push (t : Tier) (m : MlsQueuedMessage β) : GroupBuckets β := b.setTier (b.tier t ++ [m]) t

def unshift (t : Tier) (m : MlsQueuedMessage β) : GroupBuckets β := b.setTier (m :: b.tier t) t

def size : Nat := b.control.length + b.welcome.length + b.messages.length

end GroupBuckets

/-! ## The mutex -/

/-- An acquirer: the drain, for one frame of a bucket, or any other, exclusive of everything. -/
inductive MlsLockWaiter where
  | frame (frameKey : String)
  | exclusive (task : Nat) (commitGroup : Option String)
  deriving DecidableEq

def MlsLockWaiter.commitGroup : MlsLockWaiter → Option String
  | .frame _ => none
  | .exclusive _ commitGroup => commitGroup

/-- `reclaim` is left out: it is set when a loan closes on a borrower and called by that borrower's release. -/
structure MlsLockLoan where
  groupId : String
  borrowed : Bool
  closing : Bool

/-- The promise of `acquireMlsLockForFrame`: unsettled, settled with the mutex, with a loan of it, or with `null`. -/
inductive Acquisition where
  | waiting
  | main
  | borrowed
  | bounced

/-- `lockHeld` is `holder.isSome`. -/
structure Lock where
  holder : Option MlsLockWaiter
  lockWaiters : List MlsLockWaiter
  committingGroup : Option String
  loan : Option MlsLockLoan
  acquisition : Acquisition

namespace Lock

variable (l : Lock)

def isFrameHeldBack (frameKey : String) : Bool :=
  match l.committingGroup with
  | none => false
  | some committing => decide (frameKey = committing ∨ frameKey = mlsQueueOrphanKey)

/-- Whether the commit that holds the mutex sends this waiter back to its bucket. -/
def bounces : MlsLockWaiter → Bool
  | .frame frameKey => l.isFrameHeldBack frameKey
  | .exclusive .. => false

def bounceFrame : Lock := { l with acquisition := .bounced }

variable (w : MlsLockWaiter)

def grant (how : Acquisition) : Lock :=
  match w with
  | .frame _ => { l with acquisition := how }
  | .exclusive .. => l

/-- Names the commit and grants the mutex in one stretch; the frames it holds back leave the line. -/
def grantMain : Lock :=
  let l := { l with holder := some w, committingGroup := w.commitGroup }
  let l := if l.lockWaiters.any l.bounces then
      { l.bounceFrame with lockWaiters := l.lockWaiters.filter fun queued => !l.bounces queued }
    else l
  l.grant w .main

def mayBorrow : MlsLockWaiter → Bool
  | .frame _ => l.loan.any fun loan => !loan.borrowed && !loan.closing
  | .exclusive .. => false

def grantBorrow : Lock :=
  let loan := l.loan.map fun loan => { loan with borrowed := true }
  { l with loan }.grant w .borrowed

def offerLoan : Lock :=
  match l.lockWaiters.find? l.mayBorrow with
  | none => l
  | some w => { l with lockWaiters := l.lockWaiters.erase w }.grantBorrow w

def enqueueWaiter : Lock :=
  if l.bounces w then l.bounceFrame
  else if l.holder = none ∧ l.lockWaiters = [] then l.grantMain w
  else if l.mayBorrow w then l.grantBorrow w
  else { l with lockWaiters := l.lockWaiters ++ [w] }

def acquireMlsLockForFrame (frameKey : String) : Lock :=
  { l with acquisition := .waiting }.enqueueWaiter (.frame frameKey)

def acquireExclusive (task : Nat) (commitGroup : Option String) : Lock :=
  l.enqueueWaiter (.exclusive task commitGroup)

/-- The release `grantMain` hands out. -/
def releaseMain : Lock :=
  let l := { l with committingGroup := none, holder := none }
  match l.lockWaiters with
  | [] => l
  | next :: rest => { l with lockWaiters := rest }.grantMain next

/-- The release `grantBorrow` hands out. -/
def releaseBorrow : Lock :=
  match l.loan with
  | none => l
  | some loan =>
    let l := { l with loan := some { loan with borrowed := false } }
    if loan.closing then l else l.offerLoan

/-- What the drain's `release()` does, by what it acquired. -/
def releaseFrame : Lock :=
  match l.acquisition with
  | .main => l.releaseMain
  | .borrowed => l.releaseBorrow
  | .waiting | .bounced => l

/-- `lendMlsLockWhile` up to its request; `none` when it is refused. -/
def lendMlsLockWhile (groupId : String) : Option Lock :=
  if l.holder = none ∨ l.committingGroup ≠ some groupId ∨ l.loan ≠ none then none
  else some { l with loan := some ⟨groupId, false, false⟩ }.offerLoan

/-- The request settled: the loan closes, at once unless a frame is being applied under it. -/
def closeLoan : Option Lock :=
  match l.loan with
  | none => none
  | some loan =>
    if loan.closing then none
    else if loan.borrowed then some { l with loan := some { loan with closing := true } }
    else some { l with loan := none }

def reclaim : Option Lock :=
  if l.loan.any fun loan => loan.closing && !loan.borrowed then some { l with loan := none } else none

end Lock

/-! ## The queues -/

structure Queues (β : Type) where
  buckets : JsMap String (GroupBuckets β)
  rrKeys : List String
  rrIndex : Nat
  pendingWelcomeGroups : JsMap String (List (MlsQueuedMessage β))

def queueKey (groupId : Option String) : String := groupId.getD mlsQueueOrphanKey

namespace Queues

variable (q : Queues β)

def bucketAt (key : String) : GroupBuckets β := (q.buckets.get key).getD .empty

/-- `getBucket(key)` and a change of the bucket: one is created, its key last in the rotation, when there is none. -/
def updateBucket (key : String) (f : GroupBuckets β → GroupBuckets β) : Queues β :=
  { q with
    buckets := q.buckets.set key (f (q.bucketAt key))
    rrKeys := if q.buckets.has key || q.rrKeys.contains key then q.rrKeys else q.rrKeys ++ [key] }

def getPendingCount : Nat := (q.buckets.values.map GroupBuckets.size).sum

/-- `groupId && pendingWelcomeGroups.get(groupId)`, with the group. -/
def window (groupId : Option String) : Option (String × List (MlsQueuedMessage β)) :=
  match groupId with
  | none => none
  | some g => if g = "" then none else (q.pendingWelcomeGroups.get g).map fun held => (g, held)

def openWindow (groupId : Option String) : Queues β :=
  match groupId with
  | none => q
  | some g =>
    if g = "" ∨ q.pendingWelcomeGroups.has g then q
    else { q with pendingWelcomeGroups := q.pendingWelcomeGroups.set g [] }

variable (mode : MlsPerGroupQueueMode)

/-- Tauri keeps `group_reset` frames in a tier of their own. -/
def isControl (msg : MlsQueuedMessage β) : Bool :=
  decide (msg.type = some "group_reset" ∧ mode = .tauri)

def enqueue (q : Queues β) (msg : MlsQueuedMessage β) : Queues β :=
  let key := queueKey msg.groupId
  if isControl mode msg then q.updateBucket key (·.push .control msg)
  else match msg.isWelcome, q.window msg.groupId with
    | false, some (g, held) => { q with pendingWelcomeGroups := q.pendingWelcomeGroups.set g (held ++ [msg]) }
    | true, _ =>
      let q := q.openWindow msg.groupId
      match mode with
      | .tauri => q.updateBucket key (·.push .welcome msg)
      | .web => q.updateBucket key (·.unshift .messages msg)
    | false, none => q.updateBucket key (·.push .messages msg)

/-- Ends the window; what it held goes to the front of the group's queue, last frame first. -/
def releaseWelcomeBuffer (groupId : String) : Queues β :=
  let closed := { q with pendingWelcomeGroups := q.pendingWelcomeGroups.delete groupId }
  match q.pendingWelcomeGroups.get groupId with
  | none => closed
  | some [] => closed
  | some buffered =>
    closed.updateBucket (queueKey (some groupId)) fun b => buffered.foldr (fun m b => b.unshift .messages m) b

def releaseStrandedWelcomeBuffers : Queues β :=
  if q.getPendingCount > 0 then q else q.pendingWelcomeGroups.keys.foldl releaseWelcomeBuffer q

variable (lock : Lock)

def isHeldBackByCommit (key : String) (b : GroupBuckets β) (tier : Tier) : Bool :=
  if lock.committingGroup = none then false
  else if lock.isFrameHeldBack key then true
  else match tier with
    | .welcome => true
    | .messages => !b.welcome.isEmpty || b.messages.head?.any (·.isWelcome)
    | .control => false

def getRunnableCount (q : Queues β) : Nat :=
  if lock.committingGroup = none then q.getPendingCount
  else (q.buckets.entries.map fun e => ([.control, .welcome, .messages].map fun tier =>
    if isHeldBackByCommit lock e.1 e.2 tier then 0 else (e.2.tier tier).length).sum).sum

def findInTier (q : Queues β) (tier : Tier) : Option Nat :=
  let n := q.rrKeys.length
  ((List.range n).map fun offset => (q.rrIndex + offset) % n).find? fun idx =>
    match q.rrKeys[idx]? with
    | none => false
    | some key => (q.buckets.get key).any fun b => !(b.tier tier).isEmpty && !isHeldBackByCommit lock key b tier

def pickFromTier (q : Queues β) (tier : Tier) : Option (PickedFrame β × Queues β) :=
  (q.findInTier lock tier).bind fun idx => q.rrKeys[idx]?.bind fun key => (q.buckets.get key).bind fun b =>
    match b.tier tier with
    | [] => none
    | msg :: rest => some (⟨key, tier, msg⟩,
      { q with buckets := q.buckets.set key (b.setTier rest tier), rrIndex := (idx + 1) % q.rrKeys.length })

def pruneEmptyKeys : Queues β :=
  let isEmpty := fun key => decide ((q.bucketAt key).size = 0)
  let rrKeys := q.rrKeys.filter fun key => !isEmpty key
  { q with
    rrKeys
    buckets := (q.rrKeys.filter isEmpty).foldl JsMap.delete q.buckets
    rrIndex := if q.rrIndex ≥ rrKeys.length then 0 else q.rrIndex }

def tiers : MlsPerGroupQueueMode → List Tier
  | .tauri => [.control, .welcome, .messages]
  | .web => [.messages]

def pickNext (q : Queues β) : Option (PickedFrame β) × Queues β :=
  if q.rrKeys = [] then (none, q)
  else match (tiers mode).findSome? (q.pickFromTier lock) with
    | some (picked, q) => (some picked, q.pruneEmptyKeys)
    | none => (none, q.pruneEmptyKeys)

def putBack (picked : PickedFrame β) : Queues β :=
  q.updateBucket picked.key (·.unshift picked.tier picked.msg)

end Queues

/-! ## The drain -/

inductive Phase (β : Type) where
  /-- No drain runs: `isDraining` is false. -/
  | idle
  /-- In `onDrainStart`. -/
  | started
  /-- On the mutex, for the frame it picked. -/
  | locking (picked : PickedFrame β)
  /-- In `processMessage`. -/
  | processing (picked : PickedFrame β)
  /-- In `yieldToMainThread`. -/
  | yielding
  /-- In `onDrainEnd`. -/
  | flushing

/-- `enqueued` and `handed` are what `enqueue` and `processMessage` were called with, first call first. -/
structure St (β : Type) where
  queues : Queues β
  lock : Lock
  phase : Phase β
  enqueued : List (MlsQueuedMessage β)
  handed : List (MlsQueuedMessage β)

def start : St β := ⟨⟨.empty, [], 0, .empty⟩, ⟨none, [], none, none, .waiting⟩, .idle, [], []⟩

/-- Calls `processMessage` with the picked frame. -/
def handOver (s : St β) (picked : PickedFrame β) : St β :=
  { s with handed := s.handed ++ [picked.msg], phase := .processing picked }

/-- `drain` from the head of its loop to its next await. -/
def loop (mode : MlsPerGroupQueueMode) (s : St β) : St β :=
  if s.queues.getPendingCount = 0 then { s with phase := .flushing }
  else match s.queues.pickNext mode s.lock with
    | (none, queues) => { s with queues, phase := .flushing }
    | (some picked, queues) =>
      if picked.msg.isWelcome then handOver { s with queues } picked
      else { s with queues, lock := s.lock.acquireMlsLockForFrame picked.key, phase := .locking picked }

inductive Event (β : Type) where
  | enqueue (msg : MlsQueuedMessage β)
  | releaseWelcomeBuffer (groupId : String)
  | drain
  /-- `onDrainStart` returns, or throws. -/
  | drainStarted (threw : Bool)
  /-- The acquisition settled and the drain goes on. -/
  | lockSettled
  /-- `processMessage` settles. -/
  | processed (threw : Bool)
  | yielded
  | drainEnded
  | acquireExclusive (task : Nat) (commitGroup : Option String)
  /-- The exclusive holder releases. -/
  | release
  | lend (groupId : String)
  /-- The request under the loan settles. -/
  | answered
  | reclaimed

/-- What follows a frame: on to the next one, behind a yield when some are left. -/
def afterFrame (mode : MlsPerGroupQueueMode) (s : St β) : St β :=
  if s.queues.getPendingCount > 0 then { s with phase := .yielding } else loop mode s

def step (mode : MlsPerGroupQueueMode) (s : St β) : Event β → Option (St β)
  | .enqueue msg => some { s with queues := s.queues.enqueue mode msg, enqueued := s.enqueued ++ [msg] }
  | .releaseWelcomeBuffer groupId => some { s with queues := s.queues.releaseWelcomeBuffer groupId }
  | .drain =>
    match s.phase with
    | .idle => some (if s.queues.getRunnableCount s.lock = 0 then s else { s with phase := .started })
    | _ => some s
  | .drainStarted threw =>
    match s.phase with
    | .started => some (if threw then { s with phase := .flushing } else loop mode s)
    | _ => none
  | .lockSettled =>
    match s.phase with
    | .locking picked =>
      match s.lock.acquisition with
      | .waiting => none
      | .bounced => some (loop mode { s with queues := s.queues.putBack picked })
      | .main | .borrowed => some (handOver s picked)
    | _ => none
  | .processed threw =>
    match s.phase with
    | .processing picked =>
      let s := if picked.msg.isWelcome then s else { s with lock := s.lock.releaseFrame }
      some (if threw then { s with phase := .flushing } else afterFrame mode s)
    | _ => none
  | .yielded =>
    match s.phase with
    | .yielding => some (loop mode s)
    | _ => none
  | .drainEnded =>
    match s.phase with
    | .flushing => some { s with queues := s.queues.releaseStrandedWelcomeBuffers, phase := .idle }
    | _ => none
  | .acquireExclusive task commitGroup => some { s with lock := s.lock.acquireExclusive task commitGroup }
  | .release =>
    match s.lock.holder with
    | some (.exclusive ..) => some { s with lock := s.lock.releaseMain }
    | _ => none
  | .lend groupId => (s.lock.lendMlsLockWhile groupId).map fun lock => { s with lock }
  | .answered => s.lock.closeLoan.map fun lock => { s with lock }
  | .reclaimed => s.lock.reclaim.map fun lock => { s with lock }

def scheduler (β : Type) (mode : MlsPerGroupQueueMode) : Machine (St β) (Event β) :=
  ⟨fun s => s = start, step mode⟩

end Canari.Mls.Scheduler
