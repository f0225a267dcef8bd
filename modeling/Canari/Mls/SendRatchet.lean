/-
  Canari.Mls.SendRatchet — the send ratchet of one group on one device, its durable frame
  counter and the repair a reload makes from it
  (`frontend/src/lib/mls-client/sendRatchetLedger.ts`, `BaseMlsService`:
  `persistCheckpoint`, `reconcileSendRatchets`, `settleOwedBurns`, `sealPastOwedBurns`,
  `emitFrame`).

  Sealing spends the epoch's next generation; a merge starts the next epoch at 0. The
  ledger counts the frames handed to the delivery service per epoch, and what a checkpoint
  made durable of them; it is written synchronously and survives a crash. A reload starts
  from the last written checkpoint: what was counted at its epoch and is not in it is
  burnt at once, what was counted at later epochs is owed there and burnt on arrival.

  A call to the platform (seal, burn) moves the ratchet at once; its answer comes back
  later, in the order of the calls (`answers`). A burn may fail after it moved the ratchet
  part of the way. A checkpoint reads the counts, captures the state, lands (unless a
  later capture of this run is stored already) and commits the counts, each a step of its
  own, and may stop anywhere. Every other group has its own keys in the same ledger.
-/

import Mathlib.Algebra.GroupWithZero.Nat
import Mathlib.Logic.Function.Basic
import Canari.Lib.Machine

namespace Canari.Mls.SendRatchet

open Lib

/-! ## The ledger -/

def MAX_BURN_GENERATIONS : Nat := 2000

structure Ledger where
  emitted : Nat → Nat
  persisted : Nat → Nat
  /-- The epochs the ledger has an entry for. -/
  keys : List Nat

def Ledger.empty : Ledger := ⟨fun _ => 0, fun _ => 0, []⟩

variable (l : Ledger)

def noteFrameEmitted (epoch : Nat) : Ledger :=
  { l with
    emitted := Function.update l.emitted epoch (l.emitted epoch + 1)
    keys := if l.keys.contains epoch then l.keys else l.keys ++ [epoch] }

/-- Never backwards: a checkpoint that lands out of order un-declares nothing. -/
def commitPersisted (snapshot : Nat → Nat) : Ledger :=
  { l with persisted := fun epoch => max (l.persisted epoch) (snapshot epoch) }

def forgetSendRatchetEntries (keys : List Nat) : Ledger where
  emitted := fun epoch => if keys.contains epoch then 0 else l.emitted epoch
  persisted := fun epoch => if keys.contains epoch then 0 else l.persisted epoch
  keys := l.keys.filter fun epoch => !keys.contains epoch

structure SendRatchetEntry where
  /-- None for an entry whose epoch is not known. -/
  epoch : Option Nat
  emitted : Nat
  persisted : Nat

def sendRatchetEntry (epoch : Nat) : SendRatchetEntry := ⟨some epoch, l.emitted epoch, l.persisted epoch⟩

inductive SendRatchetDebt where
  | burnNow (count : Nat) (clamped : Bool)
  | onArrival (count : Nat) (clamped : Bool)
  | spent
  | settled
  deriving DecidableEq

def sendRatchetDebt (entry : SendRatchetEntry) (restoredEpoch : Nat) : SendRatchetDebt :=
  if entry.epoch.any (· < restoredEpoch) then .spent
  else
    let ahead := entry.epoch.any (· > restoredEpoch)
    let raw : Int := if ahead then entry.emitted else entry.emitted - entry.persisted
    if raw ≤ 0 then .settled
    else if ahead then .onArrival (min raw.toNat MAX_BURN_GENERATIONS) (raw > MAX_BURN_GENERATIONS)
    else .burnNow (min raw.toNat MAX_BURN_GENERATIONS) (raw > MAX_BURN_GENERATIONS)

/-! ## The load -/

inductive Burn where
  | done
  | failed (burnt : Nat)
  deriving DecidableEq

/-- How far a burn moves the ratchet; an error comes before the last generation. -/
def Burn.moved (b : Burn) (count : Nat) : Nat :=
  match b with
  | .done => count
  | .failed burnt => min burnt (count - 1)

variable (restored : Option Nat)

/-- What an entry owes the restored state; none for its epoch when that cannot be read. -/
def debtOf (epoch : Nat) : SendRatchetDebt :=
  match restored with
  | some r => sendRatchetDebt (sendRatchetEntry l epoch) r
  | none => sendRatchetDebt { sendRatchetEntry l epoch with epoch := none } 0

/-- `reconcileSendRatchets`: what is burnt where the state is. A failed burn is only logged. -/
def burntAtLoad (burns : Nat → Burn) : Nat :=
  (l.keys.map fun epoch =>
    match debtOf l restored epoch with
    | .burnNow count _ => (burns epoch).moved count
    | _ => 0).sum

def owedAtLoad : List (Nat × Nat) :=
  l.keys.filterMap fun epoch =>
    match debtOf l restored epoch with
    | .onArrival count _ => some (epoch, count)
    | _ => none

def forgottenAtLoad : List Nat :=
  l.keys.filter fun epoch => debtOf l restored epoch == .spent

/-! ## The device -/

structure Ratchet where
  epoch : Nat
  generation : Nat

structure Stored where
  ratchet : Ratchet
  version : Nat

inductive SendPhase where
  | start
  /-- In `settleOwedBurns`; `sealedAt` is the epoch of the frame it dropped. -/
  | settling (sealedAt : Option Nat)
  | ready
  | sealing

inductive SettlePhase where
  | waiting
  | read (epoch : Nat)
  | burning (epoch : Nat)
  deriving DecidableEq

inductive Answer where
  | sealed (i : Nat) (epoch generation : Nat)
  | burnt (i : Nat) (epoch : Nat) (done : Bool)

structure Checkpoint where
  /-- The counts read before the write; 0 for a ratchet left out. -/
  snapshot : Nat → Nat
  captured : Option Stored
  landed : Bool

structure St where
  live : Ratchet
  disk : Stored
  ledger : Ledger
  /-- `owedSendBurns`: what is owed to epochs not reached yet. -/
  owed : List (Nat × Nat)
  /-- `unprovenSendRatchets`: burnt blind this session. -/
  unproven : List Nat
  sends : Nat → Option SendPhase
  /-- `owedBurnInFlight`: one settle at a time, with the epoch of a dropped frame. -/
  settles : List (Nat × Option Nat)
  settle : SettlePhase
  answers : List Answer
  checkpoints : Nat → Option Checkpoint
  captures : Nat
  /-- The frames handed to the delivery service, by epoch and generation. -/
  handed : List (Nat × Nat)

inductive Ev where
  | send (i : Nat)
  | check (i : Nat)
  /-- The settle at the head of the queue reads the epoch, or the last one cached. -/
  | readEpoch (epoch : Nat)
  /-- It has nothing to burn, or calls the burn. -/
  | skipBurn
  | burn (result : Burn)
  | encrypt (i : Nat)
  | encryptFails (i : Nat)
  | answer
  /-- An own commit or a received one merges. -/
  | merge
  | persistCheckpoint (c : Nat)
  | capture (c : Nat)
  | land (c : Nat)
  | commit (c : Nat)
  | checkpointFails (c : Nat)
  /-- A crash and the load after it, with how each burn ends; `epochRead` when the restored epoch can be read. -/
  | reload (epochRead : Bool) (burns : Nat → Burn)

variable (s : St)

def setSend (i : Nat) (p : Option SendPhase) : St := { s with sends := Function.update s.sends i p }

def owedAt (epoch : Nat) : Option Nat := s.owed.lookup epoch

def sendRatchetsNotDurable : List Nat := s.unproven ++ s.owed.map (·.1)

def settleEpoch : Option Nat :=
  match s.settles, s.settle with
  | (_, some epoch) :: _, .waiting => some epoch
  | _ :: _, .read epoch => some epoch
  | _, _ => none

/-- The head of the queue is done; its send goes on, to the seal or around the loop. -/
def settled : St :=
  match s.settles with
  | (i, sealedAt) :: rest =>
    setSend { s with settles := rest, settle := .waiting } i (some (if sealedAt.isSome then .start else .ready))
  | [] => s

def dropPassed (epoch : Nat) : St := { s with owed := s.owed.filter fun o => !(o.1 < epoch) }

def answered : Answer → St
  | .sealed i epoch generation =>
    if (owedAt s epoch).isSome then
      -- the frame is dropped unsent, the burn spent, and a frame sealed again
      setSend { s with settles := s.settles ++ [(i, some epoch)] } i (some (.settling (some epoch)))
    else
      setSend { s with ledger := noteFrameEmitted s.ledger epoch, handed := s.handed ++ [(epoch, generation)] } i none
  | .burnt i epoch done =>
    if done then settled { s with owed := s.owed.filter fun o => o.1 != epoch }
    else setSend { s with settles := s.settles.tail, settle := .waiting } i none

def step : Ev → Option St
  | .send i => if (s.sends i).isNone then some (setSend s i (some .start)) else none
  | .check i =>
    match s.sends i with
    | some .start =>
      if !s.owed.isEmpty || !s.settles.isEmpty then
        some (setSend { s with settles := s.settles ++ [(i, none)] } i (some (.settling none)))
      else some (setSend s i (some .ready))
    | _ => none
  | .readEpoch epoch =>
    match s.settles, s.settle with
    | (_, none) :: _, .waiting =>
        if !s.owed.isEmpty && epoch ≤ s.live.epoch then some { s with settle := .read epoch } else none
    | _, _ => none
  | .skipBurn =>
    if s.settles.isEmpty then none
    else if s.owed.isEmpty && s.settle == .waiting then some (settled s)
    else
      match settleEpoch s with
      | some epoch =>
        let s := dropPassed s epoch
        if (owedAt s epoch).isNone then some (settled s) else none
      | none => none
  | .burn result =>
    match settleEpoch s, s.settles with
    | some epoch, (i, _) :: _ =>
      let s := dropPassed s epoch
      match owedAt s epoch with
      | some count =>
        some { s with
          live := { s.live with generation := s.live.generation + result.moved count }
          settle := .burning epoch
          answers := s.answers ++ [.burnt i epoch (result == .done)] }
      | none => none
    | _, _ => none
  | .encrypt i =>
    match s.sends i with
    | some .ready =>
      some (setSend { s with
        live := { s.live with generation := s.live.generation + 1 }
        answers := s.answers ++ [.sealed i s.live.epoch s.live.generation] } i (some .sealing))
    | _ => none
  | .encryptFails i =>
    match s.sends i with
    | some .ready => some (setSend s i none)
    | _ => none
  | .answer =>
    match s.answers with
    | a :: rest => some (answered { s with answers := rest } a)
    | [] => none
  | .merge => some { s with live := ⟨s.live.epoch + 1, 0⟩ }
  | .persistCheckpoint c =>
    match s.checkpoints c with
    | none =>
      let snapshot := fun epoch => if (sendRatchetsNotDurable s).contains epoch then 0 else s.ledger.emitted epoch
      some { s with checkpoints := Function.update s.checkpoints c (some ⟨snapshot, none, false⟩) }
    | some _ => none
  | .capture c =>
    match s.checkpoints c with
    | some ⟨snapshot, none, _⟩ =>
      some { s with
        checkpoints := Function.update s.checkpoints c (some ⟨snapshot, some ⟨s.live, s.captures + 1⟩, false⟩)
        captures := s.captures + 1 }
    | _ => none
  | .land c =>
    match s.checkpoints c with
    | some ⟨snapshot, some stored, false⟩ =>
      some { s with
        disk := if stored.version > s.disk.version then stored else s.disk
        checkpoints := Function.update s.checkpoints c (some ⟨snapshot, some stored, true⟩) }
    | _ => none
  | .commit c =>
    match s.checkpoints c with
    | some ⟨snapshot, _, true⟩ =>
      some { s with ledger := commitPersisted s.ledger snapshot, checkpoints := Function.update s.checkpoints c none }
    | _ => none
  | .checkpointFails c => some { s with checkpoints := Function.update s.checkpoints c none }
  | .reload epochRead burns =>
    let restored := if epochRead then some s.disk.ratchet.epoch else none
    some {
      live := ⟨s.disk.ratchet.epoch, s.disk.ratchet.generation + burntAtLoad s.ledger restored burns⟩
      disk := s.disk
      ledger := forgetSendRatchetEntries s.ledger (forgottenAtLoad s.ledger restored)
      owed := owedAtLoad s.ledger restored
      unproven := if epochRead then [] else s.ledger.keys
      sends := fun _ => none
      settles := []
      settle := .waiting
      answers := []
      checkpoints := fun _ => none
      captures := s.captures
      handed := s.handed }

/-- The group as a checkpoint first holds it: nothing sent yet. -/
def Init : Prop :=
  s.disk = ⟨s.live, s.captures⟩ ∧ s.ledger = Ledger.empty ∧ s.owed = [] ∧ s.unproven = [] ∧ (s.sends = fun _ => none) ∧
    s.settles = [] ∧ s.settle = .waiting ∧ s.answers = [] ∧ (s.checkpoints = fun _ => none) ∧ s.handed = []

def machine : Machine St Ev := ⟨Init, step⟩

end Canari.Mls.SendRatchet
