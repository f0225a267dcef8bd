/-
  Canari.Chat.EpochSendBarrier — application sends against local epoch advances
  (`frontend/src/lib/utils/chat/epochSendBarrier.ts`).

  Code runs without interruption between two awaits, so a step below is one such
  stretch of `runAsEpochSend` or `runAsEpochAdvance`, or a body settling on its own.
  A call is named by a number. The promise `barriers` holds for a group is named by
  the advance that raised it, and is resolved once that advance is over. The Set
  objects `inFlight` points at are shared by reference: a send keeps the one it
  registered in, and drops the map's entry when that object is empty, whatever the
  map holds by then. A Set object is named by the send that created it; a frame by
  its send, since each body makes its own promise.

  A body, once called, suspends, comes back with a settled promise, or throws before
  its first suspension (`Start`).

  The environment holds the MLS mutex: an advance of a group is called only while no
  other advance of that group is active (`mutex`). Nothing else is assumed about
  which call runs next: a step may be taken as soon as what it awaits has settled,
  in any order, which covers every order the microtask queue can give.

  Proved, over every reachable state (`sends_and_advances_never_overlap`):
  - the span of a send's body and the span of an advance's body of the same group are
    disjoint in the log of starts and settlements, at every prefix of it;
  - a call that waits waits for a call of its own group, and can go on as soon as that
    one lets it;
  - every entry of the two maps belongs to calls that are not over.
-/

import Mathlib.Logic.Relation
import Canari.Lib.Machine

namespace Canari.Chat.EpochSendBarrier

open Lib List

set_option linter.unusedSectionVars false

inductive Kind where
  | send
  | advance

inductive Phase where
  /-- A send suspended on the barrier promise of advance `b`. -/
  | waiting (b : Nat)
  /-- A send's body is running, its frame registered in Set object `k`. -/
  | sending (k : Nat)
  /-- The body settled; the `finally` block has not run yet. -/
  | sent (k : Nat)
  /-- An advance suspended on `Promise.allSettled` of the frames `fs`. -/
  | draining (fs : List Nat)
  | advancing
  | advanced
  | done
  deriving DecidableEq

inductive Start where
  | suspends
  | settles
  | throws
  deriving DecidableEq

structure Call (G : Type) where
  kind : Kind
  group : G
  phase : Phase

inductive Mark where
  | begins (i : Nat)
  | ends (i : Nat)

structure St (G : Type) where
  calls : Nat → Option (Call G)
  barriers : G → Option Nat
  inFlight : G → Option Nat
  /-- The Set objects, by name. -/
  sets : Nat → List Nat
  /-- The advance each group's mutex is held for. -/
  mutex : G → Option Nat
  log : List Mark

inductive Ev (G : Type) where
  | send (i : Nat) (g : G) (o : Start)
  | wake (i : Nat) (o : Start)
  | landSend (i : Nat)
  | endSend (i : Nat)
  | advance (i : Nat) (g : G) (o : Start)
  | drained (i : Nat) (o : Start)
  | landAdvance (i : Nat)
  | endAdvance (i : Nat)

variable {G : Type} [DecidableEq G]

def init : St G := ⟨fun _ => none, fun _ => none, fun _ => none, fun _ => [], fun _ => none, []⟩

/-- A body settling: its call goes on to `c`. -/
def settle (s : St G) (i : Nat) (c : Call G) : St G :=
  { s with calls := Function.update s.calls i (some c), log := s.log ++ [.ends i] }

/-- `const frame = fn()` and the registration, in one stretch. A body that throws at
    once leaves no frame to register. -/
def startSend (s : St G) (i : Nat) (g : G) : Start → St G
  | .throws =>
    { s with calls := Function.update s.calls i (some ⟨.send, g, .done⟩), log := s.log ++ [.begins i, .ends i] }
  | o =>
    let k := (s.inFlight g).getD i
    let frames := match s.inFlight g with
      | some k => s.sets k
      | none => []
    { s with
      calls := Function.update s.calls i (some ⟨.send, g, if o = .settles then .sent k else .sending k⟩)
      inFlight := Function.update s.inFlight g (some k)
      sets := Function.update s.sets k (frames ++ [i])
      log := s.log ++ if o = .settles then [.begins i, .ends i] else [.begins i] }

/-- The loop of `runAsEpochSend`: wait for the barrier the group has now, or start. -/
def checkBarrier (s : St G) (i : Nat) (g : G) (o : Start) : St G :=
  match s.barriers g with
  | some b => { s with calls := Function.update s.calls i (some ⟨.send, g, .waiting b⟩) }
  | none => startSend s i g o

/-- The `finally` block of `runAsEpochSend`. The map's entry goes when the Set object the
    send holds is empty, whatever the map holds. -/
def dropFrame (s : St G) (i : Nat) (g : G) (k : Nat) : St G :=
  let frames := (s.sets k).filter (· ≠ i)
  { s with
    calls := Function.update s.calls i (some ⟨.send, g, .done⟩)
    sets := Function.update s.sets k frames
    inFlight := if frames = [] then Function.update s.inFlight g none else s.inFlight }

/-- The `finally` block of `runAsEpochAdvance`; the caller then gives the mutex back. -/
def release (s : St G) (i : Nat) (g : G) : St G :=
  { s with
    calls := Function.update s.calls i (some ⟨.advance, g, .done⟩)
    barriers := Function.update s.barriers g none
    mutex := Function.update s.mutex g none }

/-- `return await fn()` of `runAsEpochAdvance`. -/
def startAdvance (s : St G) (i : Nat) (g : G) : Start → St G
  | .throws => release { s with log := s.log ++ [.begins i, .ends i] } i g
  | .settles =>
    { s with
      calls := Function.update s.calls i (some ⟨.advance, g, .advanced⟩)
      log := s.log ++ [.begins i, .ends i] }
  | .suspends =>
    { s with
      calls := Function.update s.calls i (some ⟨.advance, g, .advancing⟩)
      log := s.log ++ [.begins i] }

/-- The frames an advance of `g` has to wait for. -/
def framesOf (s : St G) (g : G) : List Nat :=
  match s.inFlight g with
  | some k => s.sets k
  | none => []

/-- `barriers.set` of `runAsEpochAdvance`, called under the mutex, with its frames read. -/
def raise (s : St G) (i : Nat) (g : G) : St G :=
  { s with
    calls := Function.update s.calls i (some ⟨.advance, g, .draining (framesOf s g)⟩)
    barriers := Function.update s.barriers g (some i)
    mutex := Function.update s.mutex g (some i) }

def settledFrame (s : St G) (f : Nat) : Bool :=
  match s.calls f with
  | some c => match c.phase with
    | .sent _ | .done => true
    | _ => false
  | none => false

def released (s : St G) (b : Nat) : Bool :=
  match s.calls b with
  | some c => c.phase == .done
  | none => false

def step (s : St G) : Ev G → Option (St G)
  | .send i g o => if s.calls i = none then some (checkBarrier s i g o) else none
  | .wake i o =>
    match s.calls i with
    | some ⟨.send, g, .waiting b⟩ => if released s b then some (checkBarrier s i g o) else none
    | _ => none
  | .landSend i =>
    match s.calls i with
    | some ⟨.send, g, .sending k⟩ => some (settle s i ⟨.send, g, .sent k⟩)
    | _ => none
  | .endSend i =>
    match s.calls i with
    | some ⟨.send, g, .sent k⟩ => some (dropFrame s i g k)
    | _ => none
  | .advance i g o =>
    if s.calls i = none ∧ s.mutex g = none then
      -- with no frame in the set there is no await before `fn`
      if framesOf s g = [] then some (startAdvance (raise s i g) i g o) else some (raise s i g)
    else none
  | .drained i o =>
    match s.calls i with
    | some ⟨.advance, g, .draining fs⟩ => if fs.all (settledFrame s) then some (startAdvance s i g o) else none
    | _ => none
  | .landAdvance i =>
    match s.calls i with
    | some ⟨.advance, g, .advancing⟩ => some (settle s i ⟨.advance, g, .advanced⟩)
    | _ => none
  | .endAdvance i =>
    match s.calls i with
    | some ⟨.advance, g, .advanced⟩ => some (release s i g)
    | _ => none

def machine (G : Type) [DecidableEq G] : Machine (St G) (Ev G) := ⟨(· = init), step⟩

/-! ## Moves

  Each step is one to three of these, every one of which starts or settles at most
  one body (a send that throws at once does both). -/

/-- A send about to read the barrier: just called, or woken. -/
def AtBarrier (s : St G) (i : Nat) (g : G) : Prop :=
  s.calls i = none ∨ ∃ b, s.calls i = some ⟨.send, g, .waiting b⟩

inductive Move : St G → St G → Prop
  | hold (s : St G) (i : Nat) (g : G) (b : Nat) : AtBarrier s i g → s.barriers g = some b →
      Move s { s with calls := Function.update s.calls i (some ⟨.send, g, .waiting b⟩) }
  | threw (s : St G) (i : Nat) (g : G) : AtBarrier s i g → s.barriers g = none → Move s (startSend s i g .throws)
  | begins (s : St G) (i : Nat) (g : G) : AtBarrier s i g → s.barriers g = none → Move s (startSend s i g .suspends)
  | land (s : St G) (i : Nat) (g : G) (k : Nat) : s.calls i = some ⟨.send, g, .sending k⟩ →
      Move s (settle s i ⟨.send, g, .sent k⟩)
  | finish (s : St G) (i : Nat) (g : G) (k : Nat) : s.calls i = some ⟨.send, g, .sent k⟩ →
      Move s (dropFrame s i g k)
  | raise (s : St G) (i : Nat) (g : G) : s.calls i = none → s.mutex g = none → Move s (raise s i g)
  | enter (s : St G) (i : Nat) (g : G) (fs : List Nat) : s.calls i = some ⟨.advance, g, .draining fs⟩ →
      (∀ f ∈ fs, settledFrame s f = true) → Move s (startAdvance s i g .suspends)
  | landAdvance (s : St G) (i : Nat) (g : G) : s.calls i = some ⟨.advance, g, .advancing⟩ →
      Move s (settle s i ⟨.advance, g, .advanced⟩)
  | release (s : St G) (i : Nat) (g : G) : s.calls i = some ⟨.advance, g, .advanced⟩ → Move s (release s i g)

theorem checkBarrier_moves (s : St G) (i : Nat) (g : G) (o : Start) (h : AtBarrier s i g) :
    Relation.ReflTransGen Move s (checkBarrier s i g o) := by
  unfold checkBarrier
  split
  · rename_i b hb
    exact .single (.hold s i g b h hb)
  · rename_i hb
    cases o with
    | suspends => exact .single (.begins s i g h hb)
    | throws => exact .single (.threw s i g h hb)
    | settles =>
      have hl := Move.land (startSend s i g .suspends) i g ((s.inFlight g).getD i) (by simp [startSend])
      refine .tail (.single (.begins s i g h hb)) ?_
      simpa [startSend, settle] using hl

theorem startAdvance_moves (s : St G) (i : Nat) (g : G) (fs : List Nat) (o : Start)
    (h : s.calls i = some ⟨.advance, g, .draining fs⟩) (hf : ∀ f ∈ fs, settledFrame s f = true) :
    Relation.ReflTransGen Move s (startAdvance s i g o) := by
  have h1 := Move.enter s i g fs h hf
  have h2 : Move (startAdvance s i g .suspends) (startAdvance s i g .settles) := by
    have := Move.landAdvance (startAdvance s i g .suspends) i g (by simp [startAdvance])
    simpa [startAdvance, settle] using this
  have h3 : Move (startAdvance s i g .settles) (startAdvance s i g .throws) := by
    have := Move.release (startAdvance s i g .settles) i g (by simp [startAdvance])
    simpa [startAdvance, release] using this
  cases o with
  | suspends => exact .single h1
  | settles => exact .tail (.single h1) h2
  | throws => exact .tail (.tail (.single h1) h2) h3

theorem step_moves (s s' : St G) (e : Ev G) (h : step s e = some s') : Relation.ReflTransGen Move s s' := by
  cases e with
  | send i g o =>
    simp only [step] at h
    split at h
    · rename_i hi; cases h
      exact checkBarrier_moves s i g o (Or.inl hi)
    · cases h
  | wake i o =>
    simp only [step] at h
    split at h
    · rename_i g b hi
      split at h
      · cases h
        exact checkBarrier_moves s i g o (Or.inr ⟨b, hi⟩)
      · cases h
    · cases h
  | landSend i =>
    simp only [step] at h
    split at h
    · rename_i g k hi; cases h
      exact .single (.land s i g k hi)
    · cases h
  | endSend i =>
    simp only [step] at h
    split at h
    · rename_i g k hi; cases h
      exact .single (.finish s i g k hi)
    · cases h
  | advance i g o =>
    simp only [step] at h
    split at h
    · rename_i hc
      have hr := Move.raise s i g hc.1 hc.2
      split at h
      · rename_i hf; cases h
        have hd : (raise s i g).calls i = some ⟨.advance, g, .draining []⟩ := by simp [raise, hf]
        exact .trans (.single hr) (startAdvance_moves (raise s i g) i g [] o hd (by simp))
      · cases h
        exact .single hr
    · cases h
  | drained i o =>
    simp only [step] at h
    split at h
    · rename_i g fs hi
      split at h
      · rename_i hf; cases h
        exact startAdvance_moves s i g fs o hi (all_eq_true.mp hf)
      · cases h
    · cases h
  | landAdvance i =>
    simp only [step] at h
    split at h
    · rename_i g hi; cases h
      exact .single (.landAdvance s i g hi)
    · cases h
  | endAdvance i =>
    simp only [step] at h
    split at h
    · rename_i g hi; cases h
      exact .single (.release s i g hi)
    · cases h

/-! ## The barrier is the active advance's -/

structure Barred (s : St G) : Prop where
  held : s.mutex = s.barriers
  raised : ∀ g b, s.barriers g = some b → ∃ p, s.calls b = some ⟨.advance, g, p⟩ ∧ p ≠ .done
  active : ∀ i g p, s.calls i = some ⟨.advance, g, p⟩ → p = .done ∨ s.barriers g = some i
  waits : ∀ i g b, s.calls i = some ⟨.send, g, .waiting b⟩ → ∃ p, s.calls b = some ⟨.advance, g, p⟩

/-- A call that is not an advance: it has not been made yet, or it is a send. -/
def NoAdvance (s : St G) (i : Nat) : Prop := ∀ g p, s.calls i ≠ some ⟨.advance, g, p⟩

variable {g : G}

theorem AtBarrier.noAdvance {s : St G} {i : Nat} (h : AtBarrier s i g) : NoAdvance s i := by
  intro g' p hc
  rcases h with h | ⟨b, h⟩ <;> rw [h] at hc <;> cases hc

theorem barred_send {s s' : St G} (h : Barred s) {i : Nat} {p : Phase} (hi : NoAdvance s i)
    (hc : s'.calls = Function.update s.calls i (some ⟨.send, g, p⟩)) (hb : s'.barriers = s.barriers)
    (hm : s'.mutex = s.mutex) (hw : ∀ b, p = .waiting b → s.barriers g = some b) : Barred s' := by
  have adv : ∀ j g' p', s'.calls j = some ⟨.advance, g', p'⟩ ↔ s.calls j = some ⟨.advance, g', p'⟩ := by
    intro j g' p'
    rw [hc, update_eq_some_iff]
    constructor
    · rintro (⟨_, hk⟩ | ⟨_, hk⟩)
      · cases hk
      · exact hk
    · intro hk
      exact Or.inr ⟨fun e => hi g' p' (e ▸ hk), hk⟩
  refine ⟨by rw [hb, hm, h.held], fun g' b hg => ?_, fun j g' p' hj => ?_, fun j g' b hj => ?_⟩
  · rw [hb] at hg
    obtain ⟨p', hp, hd⟩ := h.raised g' b hg
    exact ⟨p', (adv b g' p').mpr hp, hd⟩
  · rw [hb]; exact h.active j g' p' ((adv j g' p').mp hj)
  · rw [hc, update_eq_some_iff] at hj
    rcases hj with ⟨_, hk⟩ | ⟨_, hk⟩
    · cases hk
      obtain ⟨p', hp, _⟩ := h.raised g b (hw b rfl)
      exact ⟨p', (adv b g p').mpr hp⟩
    · obtain ⟨p', hp⟩ := h.waits j g' b hk
      exact ⟨p', (adv b g' p').mpr hp⟩

theorem barred_phase {s s' : St G} (h : Barred s) {i : Nat} {p q : Phase}
    (hi : s.calls i = some ⟨.advance, g, p⟩) (hp : p ≠ .done) (hq : q ≠ .done)
    (hc : s'.calls = Function.update s.calls i (some ⟨.advance, g, q⟩)) (hb : s'.barriers = s.barriers)
    (hm : s'.mutex = s.mutex) : Barred s' := by
  refine ⟨by rw [hb, hm, h.held], fun g' b hg => ?_, fun j g' p' hj => ?_, fun j g' b hj => ?_⟩
  · rw [hb] at hg
    obtain ⟨p', hp', hd⟩ := h.raised g' b hg
    rw [hc]
    by_cases e : b = i
    · subst e
      rw [hi] at hp'; cases hp'
      exact ⟨q, by simp, hq⟩
    · exact ⟨p', by simpa [e] using hp', hd⟩
  · rw [hb]
    rw [hc, update_eq_some_iff] at hj
    rcases hj with ⟨rfl, hk⟩ | ⟨_, hk⟩
    · cases hk
      exact Or.inr ((h.active j g p hi).resolve_left hp)
    · exact h.active j g' p' hk
  · rw [hc, update_eq_some_iff] at hj
    rcases hj with ⟨_, hk⟩ | ⟨_, hk⟩
    · cases hk
    · obtain ⟨p', hp'⟩ := h.waits j g' b hk
      rw [hc]
      by_cases e : b = i
      · subst e
        rw [hi] at hp'; cases hp'
        exact ⟨q, by simp⟩
      · exact ⟨p', by simpa [e] using hp'⟩

theorem barred_raise {s : St G} (h : Barred s) {i : Nat} (hi : s.calls i = none) (hg : s.mutex g = none) :
    Barred (raise s i g) := by
  have hn : s.barriers g = none := by rw [← h.held]; exact hg
  refine ⟨by simp [raise, h.held], fun g' b hb => ?_, fun j g' p' hj => ?_, fun j g' b hj => ?_⟩
  · simp only [raise, update_eq_some_iff] at hb
    rcases hb with ⟨rfl, rfl⟩ | ⟨hne, hb⟩
    · exact ⟨.draining (framesOf s g'), by simp [raise], by simp⟩
    · obtain ⟨p, hp, hd⟩ := h.raised g' b hb
      have e : b ≠ i := fun e => by rw [e, hi] at hp; cases hp
      exact ⟨p, by simpa [raise, e] using hp, hd⟩
  · simp only [raise, update_eq_some_iff] at hj
    rcases hj with ⟨rfl, hk⟩ | ⟨hne, hk⟩
    · cases hk; exact Or.inr (by simp [raise])
    · rcases h.active j g' p' hk with hd | hb
      · exact Or.inl hd
      · have e : g' ≠ g := fun e => by rw [e, hn] at hb; cases hb
        exact Or.inr (by simpa [raise, e] using hb)
  · simp only [raise, update_eq_some_iff] at hj
    rcases hj with ⟨_, hk⟩ | ⟨_, hk⟩
    · cases hk
    · obtain ⟨p, hp⟩ := h.waits j g' b hk
      have e : b ≠ i := fun e => by rw [e, hi] at hp; cases hp
      exact ⟨p, by simpa [raise, e] using hp⟩

theorem barred_release {s : St G} (h : Barred s) {i : Nat} (hi : s.calls i = some ⟨.advance, g, .advanced⟩) :
    Barred (release s i g) := by
  have hbi : s.barriers g = some i := (h.active i g _ hi).resolve_left (by simp)
  refine ⟨by simp [release, h.held], fun g' b hb => ?_, fun j g' p' hj => ?_, fun j g' b hj => ?_⟩
  · simp only [release, update_none_eq_some_iff] at hb
    obtain ⟨p, hp, hd⟩ := h.raised g' b hb.2
    have e : b ≠ i := fun e => by
      rw [e, hi] at hp; cases hp
      exact hb.1 rfl
    exact ⟨p, by simpa [release, e] using hp, hd⟩
  · simp only [release, update_eq_some_iff] at hj
    rcases hj with ⟨rfl, hk⟩ | ⟨hne, hk⟩
    · cases hk; exact Or.inl rfl
    · rcases h.active j g' p' hk with hd | hb
      · exact Or.inl hd
      · have e : g' ≠ g := fun e => by
          rw [e, hbi] at hb; cases hb
          exact hne rfl
        exact Or.inr (by simpa [release, e] using hb)
  · simp only [release, update_eq_some_iff] at hj
    rcases hj with ⟨_, hk⟩ | ⟨_, hk⟩
    · cases hk
    · obtain ⟨p, hp⟩ := h.waits j g' b hk
      by_cases e : b = i
      · subst e
        rw [hi] at hp; cases hp
        exact ⟨.done, by simp [release]⟩
      · exact ⟨p, by simpa [release, e] using hp⟩

theorem barred_move {s s' : St G} (h : Barred s) (hm : Move s s') : Barred s' := by
  cases hm with
  | hold i g b hi hb => exact barred_send h hi.noAdvance rfl rfl rfl (by rintro b' ⟨⟩; exact hb)
  | threw i g hi hb => exact barred_send h hi.noAdvance rfl rfl rfl (by simp)
  | begins i g hi hb => exact barred_send h hi.noAdvance rfl rfl rfl (by simp)
  | land i g k hi => exact barred_send h (fun _ _ e => by simp [hi] at e) rfl rfl rfl (by simp)
  | finish i g k hi => exact barred_send h (fun _ _ e => by simp [hi] at e) rfl rfl rfl (by simp)
  | raise i g hi hg => exact barred_raise h hi hg
  | enter i g fs hi hf => exact barred_phase h hi (by simp) (by simp) rfl rfl rfl
  | landAdvance i g hi => exact barred_phase h hi (by simp) (by simp) rfl rfl rfl
  | release i g hi => exact barred_release h hi

/-! ## The registry holds the frames that are not over -/

/-- A send whose frame is registered in Set object `k`. -/
def Registered (s : St G) (i : Nat) (g : G) (k : Nat) : Prop :=
  s.calls i = some ⟨.send, g, .sending k⟩ ∨ s.calls i = some ⟨.send, g, .sent k⟩

structure Booked (s : St G) : Prop where
  booked : ∀ i g k, Registered s i g k → s.inFlight g = some k ∧ i ∈ s.sets k
  entry : ∀ g k, s.inFlight g = some k → s.sets k ≠ [] ∧ ∀ i ∈ s.sets k, Registered s i g k
  /-- A Set object is named by a send of its own group. -/
  named : ∀ g k, s.inFlight g = some k → ∃ p, s.calls k = some ⟨.send, g, p⟩

theorem booked_frame {s s' : St G} (h : Booked s) (hr : ∀ i g k, Registered s' i g k ↔ Registered s i g k)
    (hf : s'.inFlight = s.inFlight) (hs : s'.sets = s.sets)
    (hn : ∀ i g p, s.calls i = some ⟨.send, g, p⟩ → ∃ q, s'.calls i = some ⟨.send, g, q⟩) : Booked s' := by
  refine ⟨fun i g k hi => ?_, fun g k hk => ?_, fun g k hk => ?_⟩
  · rw [hf, hs]; exact h.booked i g k ((hr i g k).mp hi)
  · rw [hf] at hk; rw [hs]
    exact ⟨(h.entry g k hk).1, fun i hi => (hr i g k).mpr ((h.entry g k hk).2 i hi)⟩
  · rw [hf] at hk
    obtain ⟨p, hp⟩ := h.named g k hk
    exact hn k g p hp

theorem registered_update {s s' : St G} {i : Nat} {c : Call G} (hc : s'.calls = Function.update s.calls i (some c))
    (hold : ∀ g k, ¬ Registered s i g k) (hnew : ∀ g k, c ≠ ⟨.send, g, .sending k⟩ ∧ c ≠ ⟨.send, g, .sent k⟩)
    (j : Nat) (g : G) (k : Nat) : Registered s' j g k ↔ Registered s j g k := by
  simp only [Registered, hc]
  by_cases e : j = i
  · subst e
    have ho : ¬ (s.calls j = some ⟨.send, g, .sending k⟩ ∨ s.calls j = some ⟨.send, g, .sent k⟩) := hold g k
    simp only [Function.update_self, Option.some.injEq, (hnew g k).1, (hnew g k).2, or_self, false_iff]
    exact ho
  · simp [e]

/-- An advance's move, or a send's that starts no body. -/
theorem booked_idle {s s' : St G} (h : Booked s) {i : Nat} {c : Call G}
    (hc : s'.calls = Function.update s.calls i (some c)) (hold : ∀ g k, ¬ Registered s i g k)
    (hnew : ∀ g k, c ≠ ⟨.send, g, .sending k⟩ ∧ c ≠ ⟨.send, g, .sent k⟩)
    (hk : ∀ g p, s.calls i = some ⟨.send, g, p⟩ → c.kind = .send ∧ c.group = g)
    (hf : s'.inFlight = s.inFlight) (hs : s'.sets = s.sets) : Booked s' := by
  refine booked_frame h (registered_update hc hold hnew) hf hs fun j g p hj => ?_
  by_cases e : j = i
  · subst e
    obtain ⟨h1, h2⟩ := hk g p hj
    refine ⟨c.phase, ?_⟩
    rw [hc, Function.update_self, ← h1, ← h2]
  · exact ⟨p, by simpa [hc, e] using hj⟩

theorem AtBarrier.notRegistered {s : St G} {i : Nat} (h : AtBarrier s i g) (g' : G) (k : Nat) :
    ¬ Registered s i g' k := by
  rintro (hc | hc) <;> rcases h with h | ⟨b, h⟩ <;> rw [h] at hc <;> cases hc

theorem AtBarrier.group {s : St G} {i : Nat} (h : AtBarrier s i g) (g' : G) (p : Phase)
    (hc : s.calls i = some ⟨.send, g', p⟩) : g = g' := by
  rcases h with h | ⟨b, h⟩ <;> rw [h] at hc <;> cases hc
  rfl

theorem booked_begins {s : St G} (h : Booked s) {i : Nat} (hi : AtBarrier s i g) :
    Booked (startSend s i g .suspends) := by
  -- the Set object the frame joins is named by a send of this group: an older one, or `i`
  have hk : ∀ g' k', s.inFlight g' = some k' → (s.inFlight g).getD i = k' → g' = g := by
    intro g' k' hg' hk
    obtain ⟨p, hp⟩ := h.named g' k' hg'
    cases hg : s.inFlight g with
    | none =>
      rw [hg] at hk
      subst hk
      exact (hi.group g' p hp).symm
    | some k =>
      rw [hg] at hk
      subst hk
      obtain ⟨q, hq⟩ := h.named g k hg
      simp only [Option.getD_some] at hp
      rw [hp] at hq; cases hq
      rfl
  have reg : ∀ j g' k', Registered (startSend s i g .suspends) j g' k' ↔
      (j = i ∧ g' = g ∧ k' = (s.inFlight g).getD i) ∨ Registered s j g' k' := by
    intro j g' k'
    by_cases e : j = i
    · subst e
      have hn := hi.notRegistered g' k'
      simp [Registered, startSend] at hn ⊢
      simp only [hn.1, hn.2, or_self, or_false]
      exact ⟨fun h => ⟨h.1.symm, h.2.symm⟩, fun h => ⟨h.1.symm, h.2.symm⟩⟩
    · simp [Registered, startSend, e]
  have own : ∀ k', k' = (s.inFlight g).getD i → (startSend s i g .suspends).sets k' = framesOf s g ++ [i] := by
    rintro k' rfl
    simp [startSend, framesOf]
  have old : ∀ k', k' ≠ (s.inFlight g).getD i → (startSend s i g .suspends).sets k' = s.sets k' := by
    intro k' hne
    simp [startSend, hne]
  have flight : ∀ g' k', (startSend s i g .suspends).inFlight g' = some k' ↔
      (g' = g ∧ (s.inFlight g).getD i = k') ∨ (g' ≠ g ∧ s.inFlight g' = some k') :=
    fun g' k' => update_eq_some_iff
  refine ⟨fun j g' k' hj => ?_, fun g' k' hg' => ?_, fun g' k' hg' => ?_⟩
  · rcases (reg j g' k').mp hj with ⟨rfl, rfl, rfl⟩ | hj
    · exact ⟨(flight g' _).mpr (Or.inl ⟨rfl, rfl⟩), by rw [own _ rfl]; simp⟩
    · obtain ⟨hf, hm⟩ := h.booked j g' k' hj
      by_cases e : g' = g
      · subst e
        have hd : (s.inFlight g').getD i = k' := by rw [hf]; rfl
        refine ⟨(flight g' k').mpr (Or.inl ⟨rfl, hd⟩), ?_⟩
        rw [own k' hd.symm]
        exact mem_append_left _ (by simpa [framesOf, hf] using hm)
      · refine ⟨(flight g' k').mpr (Or.inr ⟨e, hf⟩), ?_⟩
        rw [old k' fun hd => e (hk g' k' hf hd.symm)]
        exact hm
  · rcases (flight g' k').mp hg' with ⟨rfl, hd⟩ | ⟨hne, hf⟩
    · rw [own k' hd.symm]
      refine ⟨by simp, fun j hj => (reg j g' k').mpr ?_⟩
      rcases mem_append.mp hj with hj | hj
      · cases hf : s.inFlight g' with
        | none => simp [framesOf, hf] at hj
        | some k =>
          simp only [hf, Option.getD_some] at hd
          subst hd
          simp only [framesOf, hf] at hj
          exact Or.inr ((h.entry g' k hf).2 j hj)
      · exact Or.inl ⟨mem_singleton.mp hj, rfl, hd.symm⟩
    · rw [old k' fun hd => hne (hk g' k' hf hd.symm)]
      exact ⟨(h.entry g' k' hf).1, fun j hj => (reg j g' k').mpr (Or.inr ((h.entry g' k' hf).2 j hj))⟩
  · have keep : ∀ j g'' p, s.calls j = some ⟨.send, g'', p⟩ →
        ∃ q, (startSend s i g .suspends).calls j = some ⟨.send, g'', q⟩ := by
      intro j g'' p hj
      by_cases e : j = i
      · subst e
        obtain rfl := hi.group g'' p hj
        exact ⟨.sending ((s.inFlight g).getD j), by simp [startSend]⟩
      · exact ⟨p, by simpa [startSend, e] using hj⟩
    rcases (flight g' k').mp hg' with ⟨rfl, hd⟩ | ⟨hne, hf⟩
    · cases hf : s.inFlight g' with
      | none =>
        subst hd
        exact ⟨.sending i, by simp [startSend, hf]⟩
      | some k =>
        simp only [hf, Option.getD_some] at hd
        subst hd
        obtain ⟨p, hp⟩ := h.named g' k hf
        exact keep k g' p hp
    · obtain ⟨p, hp⟩ := h.named g' k' hf
      exact keep k' g' p hp

theorem booked_land {s : St G} (h : Booked s) {i : Nat} {k : Nat} (hi : s.calls i = some ⟨.send, g, .sending k⟩) :
    Booked (settle s i ⟨.send, g, .sent k⟩) := by
  refine booked_frame h (fun j g' k' => ?_) rfl rfl fun j g' p hj => ?_
  · by_cases e : j = i
    · subst e; simp [Registered, settle, hi]
    · simp [Registered, settle, e]
  · by_cases e : j = i
    · subst e
      rw [hi] at hj; cases hj
      exact ⟨.sent k, by simp [settle]⟩
    · exact ⟨p, by simpa [settle, e] using hj⟩

theorem booked_finish {s : St G} (h : Booked s) {i : Nat} {k : Nat} (hi : s.calls i = some ⟨.send, g, .sent k⟩) :
    Booked (dropFrame s i g k) := by
  obtain ⟨hk, -⟩ := h.booked i g k (Or.inr hi)
  have reg : ∀ j g' k', Registered (dropFrame s i g k) j g' k' ↔ j ≠ i ∧ Registered s j g' k' := by
    intro j g' k'
    by_cases e : j = i
    · subst e; simp [Registered, dropFrame]
    · simp [Registered, dropFrame, e]
  -- the map still points at a Set object exactly when it did and the object is not empty
  have flight : ∀ g' k', (dropFrame s i g k).inFlight g' = some k' ↔
    s.inFlight g' = some k' ∧ (g' = g → (dropFrame s i g k).sets k ≠ []) := by
    intro g' k'
    simp only [dropFrame, Function.update_self]
    split
    · rename_i he
      rw [update_none_eq_some_iff]
      exact ⟨fun hx => ⟨hx.2, fun e => absurd e hx.1⟩, fun hx => ⟨fun e => hx.2 e he, hx.1⟩⟩
    · rename_i he
      exact ⟨fun hx => ⟨hx, fun _ => he⟩, fun hx => hx.1⟩
  -- no other group's entry is this object
  have other : ∀ g' k', s.inFlight g' = some k' → g' ≠ g → k' ≠ k := by
    rintro g' k' hg' hne rfl
    obtain ⟨p, hp⟩ := h.named g' k' hg'
    obtain ⟨q, hq⟩ := h.named g k' hk
    rw [hp] at hq; cases hq
    exact hne rfl
  have own : (dropFrame s i g k).sets k = (s.sets k).filter (· ≠ i) := by simp [dropFrame]
  have old : ∀ k', k' ≠ k → (dropFrame s i g k).sets k' = s.sets k' := fun k' hne => by simp [dropFrame, hne]
  refine ⟨fun j g' k' hj => ?_, fun g' k' hg' => ?_, fun g' k' hg' => ?_⟩
  · obtain ⟨hne, hj⟩ := (reg j g' k').mp hj
    obtain ⟨hf, hm⟩ := h.booked j g' k' hj
    by_cases e : g' = g
    · subst e
      rw [hk] at hf; cases hf
      have hm' : j ∈ (dropFrame s i g' k).sets k := by rw [own]; simpa using ⟨hm, hne⟩
      exact ⟨(flight g' k).mpr ⟨hk, fun _ => ne_nil_of_mem hm'⟩, hm'⟩
    · refine ⟨(flight g' k').mpr ⟨hf, fun e' => absurd e' e⟩, ?_⟩
      rw [old k' (other g' k' hf e)]; exact hm
  · obtain ⟨hf, hne⟩ := (flight g' k').mp hg'
    by_cases e : g' = g
    · subst e
      rw [hk] at hf; cases hf
      refine ⟨hne rfl, fun j hj => ?_⟩
      rw [own] at hj
      simp only [ne_eq, mem_filter, decide_eq_true_eq] at hj
      exact (reg j g' k).mpr ⟨hj.2, (h.entry g' k hk).2 j hj.1⟩
    · rw [old k' (other g' k' hf e)]
      refine ⟨(h.entry g' k' hf).1, fun j hj => ?_⟩
      have hr := (h.entry g' k' hf).2 j hj
      refine (reg j g' k').mpr ⟨?_, hr⟩
      rintro rfl
      rcases hr with hr | hr <;> rw [hi] at hr <;> cases hr
      exact e rfl
  · obtain ⟨p, hp⟩ := h.named g' k' ((flight g' k').mp hg').1
    by_cases e : k' = i
    · subst e
      rw [hi] at hp; cases hp
      exact ⟨.done, by simp [dropFrame]⟩
    · exact ⟨p, by simpa [dropFrame, e] using hp⟩

theorem booked_move {s s' : St G} (h : Booked s) (hm : Move s s') : Booked s' := by
  cases hm with
  | hold i g b hi hb =>
    exact booked_idle h rfl hi.notRegistered (by simp) (fun g' p hc => ⟨rfl, hi.group g' p hc⟩) rfl rfl
  | threw i g hi hb =>
    exact booked_idle h rfl hi.notRegistered (by simp) (fun g' p hc => ⟨rfl, hi.group g' p hc⟩) rfl rfl
  | begins i g hi hb => exact booked_begins h hi
  | land i g k hi => exact booked_land h hi
  | finish i g k hi => exact booked_finish h hi
  | raise i g hi hg => exact booked_idle h rfl (by simp [Registered, hi]) (by simp) (by simp [hi]) rfl rfl
  | enter i g fs hi hf => exact booked_idle h rfl (by simp [Registered, hi]) (by simp) (by simp [hi]) rfl rfl
  | landAdvance i g hi => exact booked_idle h rfl (by simp [Registered, hi]) (by simp) (by simp [hi]) rfl rfl
  | release i g hi => exact booked_idle h rfl (by simp [Registered, hi]) (by simp) (by simp [hi]) rfl rfl

/-! ## No frame is out while an advance runs -/

structure Excluded (s : St G) : Prop where
  drained : ∀ j g fs, s.calls j = some ⟨.advance, g, .draining fs⟩ →
    (∀ i k, s.calls i = some ⟨.send, g, .sending k⟩ → i ∈ fs) ∧ ∀ f ∈ fs, ∃ p, s.calls f = some ⟨.send, g, p⟩
  quiet : ∀ j g, s.calls j = some ⟨.advance, g, .advancing⟩ ∨ s.calls j = some ⟨.advance, g, .advanced⟩ →
    ∀ i k, s.calls i ≠ some ⟨.send, g, .sending k⟩

theorem excluded_send {s s' : St G} (h : Excluded s) {i : Nat} {p : Phase} (hi : NoAdvance s i)
    (hg : ∀ g' q, s.calls i = some ⟨.send, g', q⟩ → g = g') (hp : ∀ k, p ≠ .sending k)
    (hc : s'.calls = Function.update s.calls i (some ⟨.send, g, p⟩)) : Excluded s' := by
  have adv : ∀ j g' q, s'.calls j = some ⟨.advance, g', q⟩ → s.calls j = some ⟨.advance, g', q⟩ := by
    intro j g' q hj
    rw [hc, update_eq_some_iff] at hj
    rcases hj with ⟨_, hk⟩ | ⟨_, hk⟩
    · cases hk
    · exact hk
  have out : ∀ j g' k, s'.calls j = some ⟨.send, g', .sending k⟩ → s.calls j = some ⟨.send, g', .sending k⟩ := by
    intro j g' k hj
    rw [hc, update_eq_some_iff] at hj
    rcases hj with ⟨_, hk⟩ | ⟨_, hk⟩
    · cases hk; exact absurd rfl (hp k)
    · exact hk
  refine ⟨fun j g' fs hj => ?_, fun j g' hj j' k hj' => ?_⟩
  · obtain ⟨h1, h2⟩ := h.drained j g' fs (adv j g' _ hj)
    refine ⟨fun j' k hj' => h1 j' k (out j' g' k hj'), fun f hf => ?_⟩
    obtain ⟨q, hq⟩ := h2 f hf
    rw [hc]
    by_cases e : f = i
    · subst e
      obtain rfl := hg g' q hq
      exact ⟨p, by simp⟩
    · exact ⟨q, by simpa [e] using hq⟩
  · exact h.quiet j g' (hj.imp (adv j g' _) (adv j g' _)) j' k (out j' g' k hj')

/-- A send's body starts only on a group no advance holds. -/
theorem excluded_begins {s : St G} (h : Excluded s) (hB : Barred s) {i : Nat} (hi : AtBarrier s i g)
    (hb : s.barriers g = none) : Excluded (startSend s i g .suspends) := by
  have adv : ∀ j g' q, (startSend s i g .suspends).calls j = some ⟨.advance, g', q⟩ →
    s.calls j = some ⟨.advance, g', q⟩ := by
    intro j g' q hj
    simp only [startSend, update_eq_some_iff] at hj
    rcases hj with ⟨_, hk⟩ | ⟨_, hk⟩
    · cases hk
    · exact hk
  have free : ∀ j q, s.calls j = some ⟨.advance, g, q⟩ → q = .done := by
    intro j q hj
    rcases hB.active j g q hj with hd | ha
    · exact hd
    · rw [hb] at ha; cases ha
  have out : ∀ j g' k, g' ≠ g → (startSend s i g .suspends).calls j = some ⟨.send, g', .sending k⟩ →
      s.calls j = some ⟨.send, g', .sending k⟩ := by
    intro j g' k hne hj
    simp only [startSend, update_eq_some_iff] at hj
    rcases hj with ⟨_, hk⟩ | ⟨_, hk⟩
    · cases hk; exact absurd rfl hne
    · exact hk
  refine ⟨fun j g' fs hj => ?_, fun j g' hj j' k hj' => ?_⟩
  · have ha := adv j g' _ hj
    have hne : g' ≠ g := by
      rintro rfl
      cases free j _ ha
    obtain ⟨h1, h2⟩ := h.drained j g' fs ha
    refine ⟨fun j' k hj' => h1 j' k (out j' g' k hne hj'), fun f hf => ?_⟩
    obtain ⟨q, hq⟩ := h2 f hf
    have e : f ≠ i := by
      rintro rfl
      exact hne (hi.group g' q hq).symm
    exact ⟨q, by simpa [startSend, e] using hq⟩
  · have ha := hj.imp (adv j g' _) (adv j g' _)
    have hne : g' ≠ g := by
      rintro rfl
      rcases ha with ha | ha <;> cases free j _ ha
    exact h.quiet j g' ha j' k (out j' g' k hne hj')

/-- An advance going on to phase `q`. -/
theorem excluded_advance {s s' : St G} (h : Excluded s) {i : Nat} {q : Phase}
    (hi : ∀ g' p, s.calls i ≠ some ⟨.send, g', p⟩) (hc : s'.calls = Function.update s.calls i (some ⟨.advance, g, q⟩))
    (hd : ∀ fs, q = .draining fs → (∀ j k, s.calls j = some ⟨.send, g, .sending k⟩ → j ∈ fs) ∧
      ∀ f ∈ fs, ∃ p, s.calls f = some ⟨.send, g, p⟩)
    (hq : q = .advancing ∨ q = .advanced → ∀ j k, s.calls j ≠ some ⟨.send, g, .sending k⟩) : Excluded s' := by
  have snd : ∀ j g' p, s'.calls j = some ⟨.send, g', p⟩ ↔ s.calls j = some ⟨.send, g', p⟩ := by
    intro j g' p
    rw [hc, update_eq_some_iff]
    constructor
    · rintro (⟨_, hk⟩ | ⟨_, hk⟩)
      · cases hk
      · exact hk
    · intro hk
      exact Or.inr ⟨fun e => hi g' p (e ▸ hk), hk⟩
  refine ⟨fun j g' fs hj => ?_, fun j g' hj j' k hj' => ?_⟩
  · simp only [snd]
    rw [hc, update_eq_some_iff] at hj
    rcases hj with ⟨_, hk⟩ | ⟨_, hk⟩
    · cases hk; exact hd fs rfl
    · exact h.drained j g' fs hk
  · rw [snd] at hj'
    rw [hc, update_eq_some_iff, update_eq_some_iff] at hj
    rcases hj with (⟨_, hk⟩ | ⟨_, hk⟩) | (⟨_, hk⟩ | ⟨_, hk⟩)
    · cases hk; exact hq (Or.inl rfl) j' k hj'
    · exact h.quiet j g' (Or.inl hk) j' k hj'
    · cases hk; exact hq (Or.inr rfl) j' k hj'
    · exact h.quiet j g' (Or.inr hk) j' k hj'

theorem framesOf_registered {s : St G} (hK : Booked s) (g : G) (f : Nat) :
    f ∈ framesOf s g ↔ ∃ k, Registered s f g k := by
  unfold framesOf
  constructor
  · intro hf
    split at hf
    · rename_i k hk; exact ⟨k, (hK.entry g k hk).2 f hf⟩
    · cases hf
  · rintro ⟨k, hr⟩
    obtain ⟨hk, hm⟩ := hK.booked f g k hr
    rw [hk]; exact hm

theorem excluded_move {s s' : St G} (h : Excluded s) (hB : Barred s) (hK : Booked s)
    (hm : Move s s') : Excluded s' := by
  cases hm with
  | hold i g b hi hb => exact excluded_send h hi.noAdvance hi.group (by simp) rfl
  | threw i g hi hb => exact excluded_send h hi.noAdvance hi.group (by simp) rfl
  | begins i g hi hb => exact excluded_begins h hB hi hb
  | land i g k hi =>
    exact excluded_send h (fun _ _ e => by simp [hi] at e) (fun g' q e => by rw [hi] at e; cases e; rfl) (by simp) rfl
  | finish i g k hi =>
    exact excluded_send h (fun _ _ e => by simp [hi] at e) (fun g' q e => by rw [hi] at e; cases e; rfl) (by simp) rfl
  | raise i g hi hg =>
    refine excluded_advance h (by simp [hi]) rfl ?_ (by simp)
    rintro fs ⟨⟩
    refine ⟨fun j k hj => (framesOf_registered hK g j).mpr ⟨k, Or.inl hj⟩, fun f hf => ?_⟩
    obtain ⟨k, hr⟩ := (framesOf_registered hK g f).mp hf
    exact hr.elim (fun hr => ⟨_, hr⟩) (fun hr => ⟨_, hr⟩)
  | enter i g fs hi hf =>
    refine excluded_advance h (by simp [hi]) rfl (by simp) fun _ j k hj => ?_
    -- a frame still out is one of those the advance has just seen settle
    have := hf j ((h.drained i g fs hi).1 j k hj)
    simp [settledFrame, hj] at this
  | landAdvance i g hi =>
    exact excluded_advance h (by simp [hi]) rfl (by simp) fun _ => h.quiet i g (Or.inl hi)
  | release i g hi => exact excluded_advance h (by simp [hi]) rfl (by simp) (by simp)

/-! ## The spans in the log -/

/-- A body that has started and not settled, as the log has it. -/
def Open (log : List Mark) (i : Nat) : Prop := Mark.begins i ∈ log ∧ Mark.ends i ∉ log

def Idle (c : Call G) : Prop := (∃ b, c.phase = .waiting b) ∨ ∃ fs, c.phase = .draining fs

def Running (c : Call G) : Prop :=
    (c.kind = .send ∧ ∃ k, c.phase = .sending k) ∨ (c.kind = .advance ∧ c.phase = .advancing)

/-- What a move does to the call it is about: `c0` before it, `c` after it. -/
inductive Effect (s : St G) (i : Nat) (c : Call G) : List Mark → Prop
  | none : (∀ c0, s.calls i = some c0 → ¬ Running c0) → (Idle c → ∀ c0, s.calls i = some c0 → Idle c0) → ¬ Running c →
      Effect s i c []
  | begins : (∀ c0, s.calls i = some c0 → Idle c0) → Running c → Effect s i c [.begins i]
  | ends : (∃ c0, s.calls i = some c0 ∧ Running c0) → ¬ Idle c → ¬ Running c → Effect s i c [.ends i]
  | threw : (∀ c0, s.calls i = some c0 → Idle c0) → c.kind = .send → s.barriers c.group = none →
      ¬ Idle c → ¬ Running c →
      Effect s i c [.begins i, .ends i]

/-- Every move is about one call, whose kind and group it keeps. -/
theorem move_effect {s s' : St G} (hm : Move s s') : ∃ i c ms, s'.calls = Function.update s.calls i (some c) ∧
    (∀ c0, s.calls i = some c0 → c.kind = c0.kind ∧ c.group = c0.group) ∧ s'.log = s.log ++ ms ∧ Effect s i c ms := by
  have bar : ∀ {i g}, AtBarrier s i g → ∀ c0 : Call G, s.calls i = some c0 → c0.kind = .send ∧
    c0.group = g ∧ Idle c0 := by
    rintro i g (hi | ⟨b, hi⟩) c0 hc <;> rw [hi] at hc <;> cases hc
    exact ⟨rfl, rfl, Or.inl ⟨b, rfl⟩⟩
  cases hm with
  | hold i g b hi hb =>
    refine ⟨i, _, [], rfl, fun c0 hc => ?_, by simp, .none (fun c0 hc hr => ?_) (fun _ c0 hc => (bar hi c0 hc).2.2) ?_⟩
    · exact ⟨(bar hi c0 hc).1.symm, (bar hi c0 hc).2.1.symm⟩
    · obtain ⟨_, _, hI⟩ := bar hi c0 hc
      rcases hr with ⟨_, k, hk⟩ | ⟨_, hk⟩ <;> rcases hI with ⟨b, h⟩ | ⟨fs, h⟩ <;> simp [hk] at h
    · simp [Running]
  | threw i g hi hb =>
    refine ⟨i, _, _, rfl, fun c0 hc => ?_, rfl, .threw (fun c0 hc => (bar hi c0 hc).2.2) rfl hb ?_ ?_⟩
    · exact ⟨(bar hi c0 hc).1.symm, (bar hi c0 hc).2.1.symm⟩
    · simp [Idle]
    · simp [Running]
  | begins i g hi hb =>
    refine ⟨i, _, _, rfl, fun c0 hc => ?_, rfl, .begins (fun c0 hc => (bar hi c0 hc).2.2) ?_⟩
    · exact ⟨(bar hi c0 hc).1.symm, (bar hi c0 hc).2.1.symm⟩
    · exact Or.inl ⟨rfl, _, rfl⟩
  | land i g k hi =>
    refine ⟨i, _, _, rfl, fun c0 hc => ?_, rfl,
      .ends ⟨_, hi, Or.inl ⟨rfl, k, rfl⟩⟩ (by simp [Idle]) (by simp [Running])⟩
    rw [hi] at hc; cases hc; exact ⟨rfl, rfl⟩
  | finish i g k hi =>
    refine ⟨i, _, [], rfl, fun c0 hc => ?_, by simp [dropFrame], .none ?_ (by simp [Idle]) (by simp [Running])⟩
    · rw [hi] at hc; cases hc; exact ⟨rfl, rfl⟩
    · simp [hi, Running]
  | raise i g hi hg =>
    exact ⟨i, _, [], rfl, by simp [hi], by simp [raise], .none (by simp [hi]) (by simp [hi]) (by simp [Running])⟩
  | enter i g fs hi hf =>
    refine ⟨i, _, _, rfl, fun c0 hc => ?_, rfl, .begins (fun c0 hc => ?_) (Or.inr ⟨rfl, rfl⟩)⟩
    · rw [hi] at hc; cases hc; exact ⟨rfl, rfl⟩
    · rw [hi] at hc; cases hc; exact Or.inr ⟨fs, rfl⟩
  | landAdvance i g hi =>
    refine ⟨i, _, _, rfl, fun c0 hc => ?_, rfl, .ends ⟨_, hi, Or.inr ⟨rfl, rfl⟩⟩ (by simp [Idle]) (by simp [Running])⟩
    rw [hi] at hc; cases hc; exact ⟨rfl, rfl⟩
  | release i g hi =>
    refine ⟨i, _, [], rfl, fun c0 hc => ?_, by simp [release], .none ?_ (by simp [Idle]) (by simp [Running])⟩
    · rw [hi] at hc; cases hc; exact ⟨rfl, rfl⟩
    · simp [hi, Running]

/-- The spans of a send and of an advance of one group, in a log. -/
def Disjoint (s : St G) (log : List Mark) : Prop :=
  ∀ i j ci cj, s.calls i = some ci → s.calls j = some cj → ci.kind = .send → cj.kind = .advance →
    ci.group = cj.group → ¬ (Open log i ∧ Open log j)

structure Logged (s : St G) : Prop where
  marked : ∀ i, Mark.begins i ∈ s.log ∨ Mark.ends i ∈ s.log → ∃ c, s.calls i = some c ∧ ¬ Idle c
  running : ∀ i, Open s.log i → ∃ c, s.calls i = some c ∧ Running c
  disjoint : ∀ log, log <+: s.log → Disjoint s log

theorem disjoint_of_running {s : St G} (hX : Excluded s)
    (hr : ∀ i, Open s.log i → ∃ c, s.calls i = some c ∧ Running c) :
    Disjoint s s.log := by
  rintro i j ci cj hi hj ki kj hg ⟨oi, oj⟩
  obtain ⟨c, hc, ri⟩ := hr i oi
  obtain ⟨d, hd, rj⟩ := hr j oj
  rw [hi] at hc; cases hc
  rw [hj] at hd; cases hd
  rcases ri with ⟨_, k, hk⟩ | ⟨hk, _⟩
  · rcases rj with ⟨hk', _⟩ | ⟨_, hk'⟩
    · rw [kj] at hk'; cases hk'
    · obtain ⟨_, g, _⟩ := ci
      obtain ⟨_, g', _⟩ := cj
      subst ki kj hg hk hk'
      exact hX.quiet j g (Or.inl hj) i k hi
  · rw [ki] at hk; cases hk

theorem running_not_idle {c : Call G} (hr : Running c) : ¬ Idle c := by
  rintro (⟨b, h⟩ | ⟨fs, h⟩) <;> rcases hr with ⟨_, k, hk⟩ | ⟨_, hk⟩ <;> simp [hk] at h

section Moved

variable {s s' : St G} {i : Nat} {c : Call G} (h : Logged s) (hc : s'.calls = Function.update s.calls i (some c))

include hc in
theorem calls_other {j : Nat} (hj : j ≠ i) : s'.calls j = s.calls j := by simp [hc, hj]

include hc in
theorem calls_self : s'.calls i = some c := by simp [hc]

include h hc

theorem disjoint_before (hkeep : ∀ c0, s.calls i = some c0 → c.kind = c0.kind ∧ c.group = c0.group) {log : List Mark}
    (hp : log <+: s.log) :
    Disjoint s' log := by
  have stays : ∀ j c0, s.calls j = some c0 → ∃ c1, s'.calls j = some c1 ∧ c1.kind = c0.kind ∧ c1.group = c0.group := by
    intro j c0 hj
    by_cases hji : j = i
    · subst hji
      exact ⟨c, calls_self hc, hkeep c0 hj⟩
    · exact ⟨c0, (calls_other hc hji).trans hj, rfl, rfl⟩
  rintro j j' cj cj' hj hj' kj kj' hg ⟨oj, oj'⟩
  obtain ⟨d, hd, _⟩ := h.marked j (Or.inl (hp.subset oj.1))
  obtain ⟨d', hd', _⟩ := h.marked j' (Or.inl (hp.subset oj'.1))
  obtain ⟨e, he, k1, g1⟩ := stays j d hd
  obtain ⟨e', he', k2, g2⟩ := stays j' d' hd'
  rw [hj] at he; cases he
  rw [hj'] at he'; cases he'
  exact h.disjoint log hp j j' d d' hd hd' (by rw [← k1, kj]) (by rw [← k2, kj']) (by rw [← g1, ← g2, hg]) ⟨oj, oj'⟩

theorem marked_after (hI : ¬ Idle c)
    (hl : ∀ j, j ≠ i → (Mark.begins j ∈ s'.log ∨ Mark.ends j ∈ s'.log ↔ Mark.begins j ∈ s.log ∨ Mark.ends j ∈ s.log))
    (j : Nat)
    (hj : Mark.begins j ∈ s'.log ∨ Mark.ends j ∈ s'.log) : ∃ d, s'.calls j = some d ∧ ¬ Idle d := by
  by_cases hji : j = i
  · subst hji
    exact ⟨c, calls_self hc, hI⟩
  · obtain ⟨d, hd, hd'⟩ := h.marked j ((hl j hji).mp hj)
    exact ⟨d, (calls_other hc hji).trans hd, hd'⟩

theorem running_other {j : Nat} (hji : j ≠ i) (hj : Open s.log j) : ∃ d, s'.calls j = some d ∧ Running d := by
  obtain ⟨d, hd, hd'⟩ := h.running j hj
  exact ⟨d, (calls_other hc hji).trans hd, hd'⟩

theorem disjoint_started (hB : Barred s) (hkeep : ∀ c0, s.calls i = some c0 → c.kind = c0.kind ∧ c.group = c0.group)
    (hk : c.kind = .send)
    (hb : s.barriers c.group = none) : Disjoint s' (s.log ++ [Mark.begins i]) := by
  rintro j j' cj cj' hj hj' kj kj' hg ⟨oj, oj'⟩
  have hne : j' ≠ i := by
    rintro rfl
    rw [calls_self hc] at hj'
    cases hj'
    rw [hk] at kj'
    cases kj'
  have hopen : Open s.log j' := by simpa [Open, hne] using oj'
  by_cases hji : j = i
  · subst hji
    rw [calls_self hc] at hj; cases hj
    obtain ⟨d, hd, hr⟩ := h.running j' hopen
    rw [calls_other hc hne, hd] at hj'; cases hj'
    rcases hr with ⟨hk', _⟩ | ⟨_, hp'⟩
    · rw [kj'] at hk'; cases hk'
    · obtain ⟨_, g', p'⟩ := cj'
      simp only at kj' hg hp'
      subst kj' hp'
      rcases hB.active j' g' _ hd with hx | hx
      · cases hx
      · rw [← hg, hb] at hx; cases hx
  · have hopen' : Open s.log j := by simpa [Open, hji] using oj
    exact disjoint_before h hc hkeep (prefix_refl _) j j' cj cj' hj hj' kj kj' hg ⟨hopen', hopen⟩

end Moved

theorem logged_move {s s' : St G} (h : Logged s) (hB : Barred s) (hX' : Excluded s') (hm : Move s s') : Logged s' := by
  obtain ⟨i, c, ms, hc, hkeep, hlog, he⟩ := move_effect hm
  cases he with
  | none hr hi hn =>
    simp only [append_nil] at hlog
    refine ⟨fun j hj => ?_, fun j hj => ?_, fun log hp => disjoint_before h hc hkeep (hlog ▸ hp)⟩
    · rw [hlog] at hj
      obtain ⟨d, hd, hd'⟩ := h.marked j hj
      by_cases hji : j = i
      · subst hji
        exact ⟨c, calls_self hc, fun hI => hd' (hi hI d hd)⟩
      · exact ⟨d, (calls_other hc hji).trans hd, hd'⟩
    · rw [hlog] at hj
      refine running_other h hc ?_ hj
      rintro rfl
      obtain ⟨d, hd, hd'⟩ := h.running j hj
      exact hr d hd hd'
  | begins hi hR =>
    have hrun : ∀ j, Open s'.log j → ∃ d, s'.calls j = some d ∧ Running d := by
      intro j hj
      by_cases hji : j = i
      · subst hji
        exact ⟨c, calls_self hc, hR⟩
      · simp only [hlog, Open, mem_append, mem_singleton, Mark.begins.injEq, hji, or_false, not_or] at hj
        exact running_other h hc hji ⟨hj.1, hj.2.1⟩
    refine ⟨marked_after h hc (running_not_idle hR) (fun j hji => by simp [hlog, hji]), hrun, fun log hp => ?_⟩
    rw [hlog, prefix_concat_iff] at hp
    rcases hp with rfl | hp
    · rw [← hlog]
      exact disjoint_of_running hX' hrun
    · exact disjoint_before h hc hkeep hp
  | ends hi hI hR =>
    have hrun : ∀ j, Open s'.log j → ∃ d, s'.calls j = some d ∧ Running d := by
      intro j hj
      simp only [hlog, Open, mem_append, mem_singleton, reduceCtorEq, or_false, not_or, Mark.ends.injEq] at hj
      exact running_other h hc hj.2.2 ⟨hj.1, hj.2.1⟩
    refine ⟨marked_after h hc hI (fun j hji => by simp [hlog, hji]), hrun, fun log hp => ?_⟩
    rw [hlog, prefix_concat_iff] at hp
    rcases hp with rfl | hp
    · rw [← hlog]
      exact disjoint_of_running hX' hrun
    · exact disjoint_before h hc hkeep hp
  | threw hi hk hb hI hR =>
    have hlog' : s'.log = (s.log ++ [Mark.begins i]) ++ [Mark.ends i] := by rw [hlog]; simp
    have hrun : ∀ j, Open s'.log j → ∃ d, s'.calls j = some d ∧ Running d := by
      intro j hj
      simp only [hlog', Open, mem_append, mem_singleton, reduceCtorEq, or_false, not_or, Mark.ends.injEq,
        Mark.begins.injEq] at hj
      exact running_other h hc hj.2.2 ⟨hj.1.resolve_right hj.2.2, hj.2.1⟩
    refine ⟨marked_after h hc hI (fun j hji => by simp [hlog, hji]), hrun, fun log hp => ?_⟩
    rw [hlog', prefix_concat_iff, prefix_concat_iff] at hp
    rcases hp with rfl | rfl | hp
    · rw [← hlog']
      exact disjoint_of_running hX' hrun
    · exact disjoint_started h hc hB hkeep hk hb
    · exact disjoint_before h hc hkeep hp

/-! ## Every reachable state -/

structure Inv (s : St G) : Prop where
  barred : Barred s
  booked : Booked s
  excluded : Excluded s
  logged : Logged s

theorem inv_init : Inv (init : St G) where
  barred := ⟨rfl, by simp [init], by simp [init], by simp [init]⟩
  booked := ⟨by simp [init, Registered], by simp [init], by simp [init]⟩
  excluded := ⟨by simp [init], by simp [init]⟩
  logged := ⟨by simp [init], by simp [init, Open], fun log hp i j ci cj hi => by simp [init] at hi⟩

theorem inv_move {s s' : St G} (h : Inv s) (hm : Move s s') : Inv s' := by
  have hX := excluded_move h.excluded h.barred h.booked hm
  exact ⟨barred_move h.barred hm, booked_move h.booked hm, hX, logged_move h.logged h.barred hX hm⟩

theorem inv_step (s : St G) (e : Ev G) (s' : St G) (h : Inv s) (hs : step s e = some s') : Inv s' := by
  have hm := step_moves s s' e hs
  clear hs
  induction hm with
  | refl => exact h
  | tail _ hm ih => exact inv_move ih hm

theorem inv {s : St G} (h : (machine G).Reach s) : Inv s :=
  h.invariant (fun _ h0 => h0 ▸ inv_init) inv_step

/-- At no point of the log is a send's body and an advance's body of one group open. -/
def SpansDisjoint (s : St G) : Prop := ∀ log, log <+: s.log → Disjoint s log

/-- What a call waits for is of its own group, and a call waits for nothing else. -/
structure OwnGroupOnly (s : St G) : Prop where
  /-- A waiting send waits for an advance of its group and goes on once that one is over. -/
  send : ∀ i g b, s.calls i = some ⟨.send, g, .waiting b⟩ → ∃ p, s.calls b = some ⟨.advance, g, p⟩ ∧
    (p = .done → ∀ o, (step s (.wake i o)).isSome)
  /-- A draining advance waits for sends of its group and goes on once they settled. -/
  advance : ∀ i g fs, s.calls i = some ⟨.advance, g, .draining fs⟩ → (∀ f ∈ fs, ∃ p, s.calls f = some ⟨.send, g, p⟩) ∧
    ((∀ f ∈ fs, settledFrame s f = true) → ∀ o, (step s (.drained i o)).isSome)
  /-- A send just called waits exactly when an advance of its group is active. -/
  newSend : ∀ i g o s', step s (.send i g o) = some s' →
    ((∃ b, s'.calls i = some ⟨.send, g, .waiting b⟩) ↔ ∃ j p, s.calls j = some ⟨.advance, g, p⟩ ∧ p ≠ .done)
  /-- An advance just called waits exactly when a frame of its group is registered. -/
  newAdvance : ∀ i g o s', step s (.advance i g o) = some s' →
    ((∃ fs, s'.calls i = some ⟨.advance, g, .draining fs⟩) ↔ ∃ f k, Registered s f g k)

/-- Every entry of `barriers` and `inFlight` is some unfinished call's of its group. -/
structure NoLeftover (s : St G) : Prop where
  barriers : ∀ g b, s.barriers g = some b → ∃ p, s.calls b = some ⟨.advance, g, p⟩ ∧ p ≠ .done
  inFlight : ∀ g k, s.inFlight g = some k → s.sets k ≠ [] ∧ ∀ i ∈ s.sets k, ∃ p,
    s.calls i = some ⟨.send, g, p⟩ ∧ p ≠ .done

theorem ownGroupOnly {s : St G} (h : Inv s) : OwnGroupOnly s := by
  refine ⟨fun i g b hi => ?_, fun i g fs hi => ?_, fun i g o s' hs => ?_, fun i g o s' hs => ?_⟩
  · obtain ⟨p, hp⟩ := h.barred.waits i g b hi
    refine ⟨p, hp, ?_⟩
    rintro rfl o
    simp [step, hi, released, hp]
  · refine ⟨(h.excluded.drained i g fs hi).2, fun hf o => ?_⟩
    simp [step, hi, all_eq_true.mpr hf]
  · have hbar : (∃ j p, s.calls j = some ⟨.advance, g, p⟩ ∧ p ≠ .done) ↔ ∃ b, s.barriers g = some b := by
      constructor
      · rintro ⟨j, p, hj, hp⟩
        exact ⟨j, (h.barred.active j g p hj).resolve_left hp⟩
      · rintro ⟨b, hb⟩
        obtain ⟨p, hp, hd⟩ := h.barred.raised g b hb
        exact ⟨b, p, hp, hd⟩
    rw [hbar]
    simp only [step] at hs
    split at hs
    · cases hs
      cases hb : s.barriers g with
      | none => cases o <;> simp [checkBarrier, hb, startSend]
      | some b => simp [checkBarrier, hb]
    · cases hs
  · have hreg : (∃ f k, Registered s f g k) ↔ framesOf s g ≠ [] := by
      constructor
      · rintro ⟨f, k, hr⟩
        exact ne_nil_of_mem ((framesOf_registered h.booked g f).mpr ⟨k, hr⟩)
      · intro hne
        obtain ⟨f, hf⟩ := exists_mem_of_ne_nil _ hne
        exact ⟨f, (framesOf_registered h.booked g f).mp hf⟩
    rw [hreg]
    simp only [step] at hs
    split at hs
    · split at hs
      · rename_i hf; cases hs
        cases o <;> simp [startAdvance, release, hf]
      · rename_i hf; cases hs
        simp [raise, hf]
    · cases hs

theorem noLeftover {s : St G} (h : Inv s) : NoLeftover s := by
  refine ⟨h.barred.raised, fun g k hk => ⟨(h.booked.entry g k hk).1, fun i hi => ?_⟩⟩
  rcases (h.booked.entry g k hk).2 i hi with hr | hr
  · exact ⟨_, hr, by simp⟩
  · exact ⟨_, hr, by simp⟩

/-- Sends and local commits of one group never overlap, no call waits for another
    group's, and the two maps hold nothing of a call that is over. -/
theorem sends_and_advances_never_overlap {s : St G} (h : (machine G).Reach s) :
    SpansDisjoint s ∧ OwnGroupOnly s ∧ NoLeftover s :=
  ⟨(inv h).logged.disjoint, ownGroupOnly (inv h), noLeftover (inv h)⟩

/-! ## No group is stuck -/

/-- A send whose body was called: it never waits again. -/
def Begun (s : St G) (g : G) (f : Nat) : Prop := (∃ k, Registered s f g k) ∨ s.calls f = some ⟨.send, g, .done⟩

/-- The phase of a call is one of its kind, and the frames an advance drains have begun. -/
inductive Staged (s : St G) (g : G) : Kind → Phase → Prop
  | waiting (b : Nat) : Staged s g .send (.waiting b)
  | sending (k : Nat) : Staged s g .send (.sending k)
  | sent (k : Nat) : Staged s g .send (.sent k)
  | draining {fs : List Nat} : (∀ f ∈ fs, Begun s g f) → Staged s g .advance (.draining fs)
  | advancing : Staged s g .advance .advancing
  | advanced : Staged s g .advance .advanced
  | done (kind : Kind) : Staged s g kind .done

def AllStaged (s : St G) : Prop := ∀ i c, s.calls i = some c → Staged s c.group c.kind c.phase

theorem begun_move {s s' : St G} (hm : Move s s') {f : Nat} (h : Begun s g f) : Begun s' g f := by
  cases hm <;>
    simp only [Begun, Registered, AtBarrier, startSend, settle, dropFrame, raise, startAdvance, release,
      Function.update_apply] at * <;>
    grind

theorem Staged.move {s s' : St G} (hm : Move s s') {kind : Kind} {p : Phase}
    (h : Staged s g kind p) : Staged s' g kind p := by
  cases h with
  | draining hf => exact .draining fun f hmem => begun_move hm (hf f hmem)
  | _ => constructor

theorem staged_move {s s' : St G} (h : AllStaged s) (hB : Booked s) (hm : Move s s') : AllStaged s' := by
  -- a move writes one call, and the others stay staged
  have put : ∀ {j d}, s'.calls = Function.update s.calls j (some d) → Staged s' d.group d.kind d.phase →
    AllStaged s' := by
    intro j d hcalls hd i c hc
    rw [hcalls, update_eq_some_iff] at hc
    rcases hc with ⟨_, hnew⟩ | ⟨_, hold⟩
    · cases hnew
      exact hd
    · exact (h i c hold).move hm
  have hbegun : ∀ g f, Begun s g f → Begun s' g f := fun g f => begun_move hm
  cases hm with
  | hold j g b => exact put rfl (.waiting b)
  | threw j g => exact put rfl (.done _)
  | begins j g => exact put rfl (.sending _)
  | land j g k => exact put rfl (.sent k)
  | finish j g k => exact put rfl (.done _)
  | raise j g => exact put rfl (.draining fun f hf => hbegun g f (.inl ((framesOf_registered hB g f).mp hf)))
  | enter j g => exact put rfl .advancing
  | landAdvance j g => exact put rfl .advanced
  | release j g => exact put rfl (.done _)

theorem allStaged {s : St G} (h : (machine G).Reach s) : AllStaged s := by
  refine (h.invariant (I := fun s => Inv s ∧ AllStaged s) (fun s h0 => ?_) fun s e s' hs he => ?_).2
  · rw [show s = init from h0]
    exact ⟨inv_init, by simp [AllStaged, init]⟩
  · have hm := step_moves s s' e he
    clear he
    induction hm with
    | refl => exact hs
    | tail _ hm ih => exact ⟨inv_move ih.1 hm, staged_move ih.2 ih.1.booked hm⟩

def Ev.goesOn : Ev G → Option Nat
  | .wake i _ | .landSend i | .endSend i | .drained i _ | .landAdvance i | .endAdvance i => some i
  | .send .. | .advance .. => none

def GoesOn (s : St G) (g : G) : Prop := ∃ i c e, s.calls i = some c ∧ c.group = g ∧ Ev.goesOn e = some i ∧
    (step s e).isSome

theorem goesOn_advance {s : St G} (h : AllStaged s) {j : Nat} {p : Phase} (hj : s.calls j = some ⟨.advance, g, p⟩)
    (hp : p ≠ .done) :
    GoesOn s g := by
  cases h j _ hj with
  | draining hf =>
    rename_i fs
    by_cases hall : ∀ f ∈ fs, settledFrame s f = true
    · exact ⟨j, _, .drained j .suspends, hj, rfl, rfl, by simp [step, hj, all_eq_true.mpr hall]⟩
    · simp only [Classical.not_forall] at hall
      obtain ⟨f, hmem, hopen⟩ := hall
      rcases hf f hmem with ⟨k, hk | hk⟩ | hk
      · exact ⟨f, _, .landSend f, hk, rfl, rfl, by simp [step, hk]⟩
      · simp [settledFrame, hk] at hopen
      · simp [settledFrame, hk] at hopen
  | advancing => exact ⟨j, _, .landAdvance j, hj, rfl, rfl, by simp [step, hj]⟩
  | advanced => exact ⟨j, _, .endAdvance j, hj, rfl, rfl, by simp [step, hj]⟩
  | done => exact absurd rfl hp

/-- As long as a call is not over, some call of its group can go on: only a body that never settles holds a group up. -/
theorem no_group_is_stuck {s : St G} (h : (machine G).Reach s) (i : Nat) (c : Call G) (hi : s.calls i = some c)
    (hc : c.phase ≠ .done) :
    GoesOn s c.group := by
  have hs := allStaged h
  obtain ⟨kind, g, p⟩ := c
  cases kind with
  | advance => exact goesOn_advance hs hi hc
  | send =>
    cases hs i _ hi with
    | waiting b =>
      obtain ⟨q, hq⟩ := (inv h).barred.waits i g b hi
      by_cases hd : q = .done
      · exact ⟨i, _, .wake i .suspends, hi, rfl, rfl, by simp [step, hi, released, hq, hd]⟩
      · exact goesOn_advance hs hq hd
    | sending k => exact ⟨i, _, .landSend i, hi, rfl, rfl, by simp [step, hi]⟩
    | sent k => exact ⟨i, _, .endSend i, hi, rfl, rfl, by simp [step, hi]⟩
    | done => exact absurd rfl hc

/-- A send is out when an advance of its group is called; a second send then waits for
    that advance, whose body starts once the first frame has landed. -/
def contendedRun : List (Ev Nat) :=
  [.send 0 7 .suspends, .advance 1 7 .suspends, .send 2 7 .suspends, .landSend 0, .drained 1 .suspends]

theorem contendedRun_never_overlaps : ∃ s, (machine Nat).run init contendedRun = some s ∧
    s.calls 1 = some ⟨.advance, 7, .advancing⟩ ∧ s.calls 2 = some ⟨.send, 7, .waiting 1⟩ ∧
    s.log = [.begins 0, .ends 0, .begins 1] ∧ (SpansDisjoint s ∧ OwnGroupOnly s ∧ NoLeftover s) :=
  ⟨_, rfl, rfl, rfl, rfl, sends_and_advances_never_overlap (Machine.reach_of_run contendedRun rfl rfl)⟩

theorem contendedRun_goes_on : ∃ s, (machine Nat).run init contendedRun = some s ∧
    s.calls 2 = some ⟨.send, 7, .waiting 1⟩ ∧ GoesOn s 7 :=
  ⟨_, rfl, rfl, no_group_is_stuck (Machine.reach_of_run contendedRun rfl rfl) 2 _ rfl (by decide)⟩

end Canari.Chat.EpochSendBarrier
