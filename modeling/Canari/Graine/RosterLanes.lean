/-
  Canari.Graine.RosterLanes — the roster passes of every scope, one lane each
  (`frontend/src/lib/utils/graine/rosterReconcile.ts`: `reconcileDistributionGroupRosterReported`,
  `reconcileDistributionGroupRoster`, `passes`, `removedByPass`).

  A call on a scope whose lane has a pass that has not started shares that pass; any other call
  makes one, chained on the lane's tail. The promise of a pass settles in steps of their own: its
  reaction on the tail runs and `reconcileOnce` starts, `reconcileOnce` ends, the pass takes over
  its outcome, the tail made of the pass settles, and the tail's own reaction lets the lane go if
  no pass was chained on it meanwhile. These are the events beside the calls, in any order.
  Lanes and passes are objects: `lanes` and `made` have all that were made, by number.
  - `passes_exclusive_and_fresh`: in every run two passes of a scope never read at once, one
    waits at most, and a call is given a pass that starts after it; in every fair course the
    promise of each call settles, as its pass did.
-/

import Canari.Graine.IncomingSeeds
import Canari.Lib.Fairness

namespace Canari.Graine.RosterLanes

open Lib List Option
open Graine.IncomingSeeds (DistributionScope scopeKey sameScope)

/-! ## Lanes, passes and calls -/

structure RosterPassReport where
  removedUserIds : List String
  heldUserIds : Option (List String)
  deriving DecidableEq

abbrev Outcome (α : Type) := Except String α

inductive Progress where
  | waiting
  | reading
  /-- `reconcileOnce` ended; the promise of the pass has not taken its outcome over yet. -/
  | ended (r : Outcome RosterPassReport)
  | settled (r : Outcome RosterPassReport)
  deriving DecidableEq

/-- A pass, with the tail made of it and its entry in `removedByPass`. `behind` is the tail the pass
    is chained on, by its pass; none is `Promise.resolve()`. -/
structure Pass where
  scope : DistributionScope
  lane : Nat
  behind : Option Nat
  logs : List Nat
  promise : Progress
  tailSettled : Bool
  released : Bool
  removed : Option (Option (Outcome (List String)))
  startedAt : Option Nat
  deriving DecidableEq

structure Lane where
  tail : Option Nat
  waiting : Option Nat
  deriving DecidableEq

/-- A call: the pass it was given, and whether the promise it got is the pass's own or the view of
    the users it removed. -/
structure Call where
  scope : DistributionScope
  reported : Bool
  log : Nat
  pass : Nat
  calledAt : Nat
  deriving DecidableEq

structure St where
  passes : String → Option Nat
  lanes : Nat → Lane
  nextLane : Nat
  made : List Pass
  calls : List Call
  clock : Nat

def St.laneOf (s : St) (key : String) : Nat := (s.passes key).getD s.nextLane

def reconcileDistributionGroupRosterReported (s : St) (scope : DistributionScope) (log : Nat) : St × Nat :=
  let key := scopeKey scope
  let ℓ := s.laneOf key
  match (s.lanes ℓ).waiting with
  | some p => ({ s with made := s.made.modify p fun pass => { pass with logs := pass.logs ++ [log] } }, p)
  | none =>
    let p := s.made.length
    ({ s with
        made := s.made ++ [⟨scope, ℓ, (s.lanes ℓ).tail, [log], .waiting, false, false, none, none⟩]
        lanes := Function.update s.lanes ℓ ⟨some p, some p⟩
        nextLane := max s.nextLane (ℓ + 1)
        passes := Function.update s.passes key (some ℓ) }, p)

def Pass.view (pass : Pass) : Pass := { pass with removed := some (pass.removed.getD none) }

def reconcileDistributionGroupRoster (s : St) (scope : DistributionScope) (log : Nat) : St × Nat :=
  let (s, p) := reconcileDistributionGroupRosterReported s scope log
  ({ s with made := s.made.modify p Pass.view }, p)

/-! ## The machine -/

inductive Ev where
  | call (scope : DistributionScope) (reported : Bool) (log : Nat)
  | start (p : Nat)
  | finish (p : Nat) (r : Outcome RosterPassReport)
  | adopt (p : Nat)
  | settleTail (p : Nat)
  | release (p : Nat)
  | derive (p : Nat)
  deriving DecidableEq

def St.tailReached (s : St) : Option Nat → Bool
  | none => true
  | some q => (s.made[q]?).any (·.tailSettled)

/-- `lane.waiting = null` at the start of the pass that waits. -/
def Lane.started (lane : Lane) (p : Nat) : Lane := if lane.waiting = some p then { lane with waiting := none } else lane

def Pass.react (s : St) (pass : Pass) : Ev → Option Pass
  | .call .. => none
  | .start _ =>
    if pass.promise = .waiting ∧
      s.tailReached pass.behind then some { pass with promise := .reading, startedAt := some s.clock }
    else none
  | .finish _ r => if pass.promise = .reading then some { pass with promise := .ended r } else none
  | .adopt _ =>
    match pass.promise with
    | .ended r => some { pass with promise := .settled r }
    | _ => none
  | .settleTail _ =>
    match pass.promise with
    | .settled _ => if pass.tailSettled then none else some { pass with tailSettled := true }
    | _ => none
  | .release _ => if pass.tailSettled ∧ pass.released = false then some { pass with released := true } else none
  | .derive _ =>
    match pass.promise, pass.removed with
    | .settled r, some none => some { pass with removed := some (some (r.map (·.removedUserIds))) }
    | _, _ => none

def Ev.pass : Ev → Nat
  | .call .. => 0
  | .start p | .finish p _ | .adopt p | .settleTail p | .release p | .derive p => p

/-- What a reaction does beside: the start clears `waiting`, the last reaction lets the lane go. -/
def St.after (s : St) (p : Nat) (pass : Pass) : Ev → St
  | .start _ => { s with lanes := Function.update s.lanes pass.lane ((s.lanes pass.lane).started p) }
  | .release _ =>
    if s.passes (scopeKey pass.scope) = some pass.lane ∧ (s.lanes pass.lane).tail = some p then
      { s with passes := Function.update s.passes (scopeKey pass.scope) none }
    else s
  | _ => s

def St.called (s : St) (scope : DistributionScope) (reported : Bool) (log : Nat) : St :=
  let (s', p) :=
    if reported then reconcileDistributionGroupRosterReported s scope log else
      reconcileDistributionGroupRoster s scope log
  { s' with calls := s.calls ++ [⟨scope, reported, log, p, s.clock⟩], clock := s.clock + 1 }

def step (s : St) : Ev → Option St
  | .call scope reported log => some (s.called scope reported log)
  | e =>
    (s.made[e.pass]?).bind fun pass => (pass.react s e).map fun pass' =>
      { s.after e.pass pass e with made := s.made.set e.pass pass', clock := s.clock + 1 }

def init : St := ⟨fun _ => none, fun _ => ⟨none, none⟩, 0, [], [], 0⟩

def rosterLanes : Machine St Ev := ⟨(· = init), step⟩

/-! ## What a step does to the passes -/

structure Older (a b : Pass) : Prop where
  scope : b.scope = a.scope
  lane : b.lane = a.lane
  behind : b.behind = a.behind
  tail : a.tailSettled = true → b.tailSettled = true
  waiting : b.promise = .waiting → a.promise = .waiting
  ended : ∀ r, a.promise = .ended r → b.promise = .ended r ∨ b.promise = .settled r
  settled : ∀ r, a.promise = .settled r → b.promise = .settled r
  startedAt : ∀ t, a.startedAt = some t → b.startedAt = some t
  asked : a.removed ≠ none → b.removed ≠ none
  viewed : ∀ r, a.removed = some (some r) → b.removed = some (some r)
  logs : ∀ log ∈ a.logs, log ∈ b.logs

theorem Older.refl (a : Pass) : Older a a :=
  ⟨rfl, rfl, rfl, id, id, fun _ h => .inl h, fun _ h => h, fun _ h => h, id, fun _ h => h, fun _ h => h⟩

theorem Older.trans {a b c : Pass} (h : Older a b) (h' : Older b c) : Older a c := by
  refine ⟨h'.scope.trans h.scope, h'.lane.trans h.lane, h'.behind.trans h.behind, fun ht => h'.tail (h.tail ht),
    fun hw => h.waiting (h'.waiting hw), ?_, fun r hr => h'.settled r (h.settled r hr), fun t ht =>
      h'.startedAt t (h.startedAt t ht),
    fun hr => h'.asked (h.asked hr), fun r hr => h'.viewed r (h.viewed r hr), fun log hl => h'.logs log (h.logs log hl)⟩
  intro r hr
  rcases h.ended r hr with hb | hb
  · exact h'.ended r hb
  · exact .inr (h'.settled r hb)

theorem older_log (a : Pass) (log : Nat) : Older a { a with logs := a.logs ++ [log] } :=
  ⟨rfl, rfl, rfl, id, id, fun _ h => .inl h, fun _ h => h, fun _ h => h, id, fun _ h => h,
    fun _ h => mem_append_left _ h⟩

theorem older_view (a : Pass) : Older a a.view := by
  refine ⟨rfl, rfl, rfl, id, id, fun _ h => .inl h, fun _ h => h, fun _ h => h, fun _ => by
    simp [Pass.view], ?_, fun _ h => h⟩
  intro r h
  simp [Pass.view, h]

inductive Moved (s : St) (a : Pass) : Ev → Pass → Prop
  | start (p : Nat) : a.promise = .waiting → s.tailReached a.behind = true →
      Moved s a (.start p) { a with promise := .reading, startedAt := some s.clock }
  | finish (p : Nat) (r : Outcome RosterPassReport) : a.promise = .reading → Moved s a (.finish p r)
      { a with promise := .ended r }
  | adopt (p : Nat) (r : Outcome RosterPassReport) : a.promise = .ended r → Moved s a (.adopt p)
      { a with promise := .settled r }
  | settleTail (p : Nat) (r : Outcome RosterPassReport) : a.promise = .settled r → a.tailSettled = false →
      Moved s a (.settleTail p) { a with tailSettled := true }
  | release (p : Nat) : a.tailSettled = true → Moved s a (.release p) { a with released := true }
  | derive (p : Nat) (r : Outcome RosterPassReport) : a.promise = .settled r → a.removed = some none →
      Moved s a (.derive p) { a with removed := some (some (r.map (·.removedUserIds))) }

theorem moved_of_react {s : St} {a b : Pass} {e : Ev} (h : a.react s e = some b) : Moved s a e b := by
  cases e with
  | call => simp [Pass.react] at h
  | start p =>
    simp only [Pass.react, ite_none_right_eq_some, some.injEq] at h
    obtain ⟨⟨hw, ht⟩, rfl⟩ := h
    exact .start p hw ht
  | finish p r =>
    simp only [Pass.react, ite_none_right_eq_some, some.injEq] at h
    obtain ⟨hw, rfl⟩ := h
    exact .finish p r hw
  | adopt p =>
    simp only [Pass.react] at h
    split at h
    · rename_i r hw
      cases h
      exact .adopt p r hw
    · cases h
  | settleTail p =>
    simp only [Pass.react] at h
    split at h
    · rename_i r hw
      split at h
      · cases h
      · rename_i ht
        cases h
        exact .settleTail p r hw (by simpa using ht)
    · cases h
  | release p =>
    simp only [Pass.react, ite_none_right_eq_some, some.injEq] at h
    obtain ⟨⟨ht, -⟩, rfl⟩ := h
    exact .release p ht
  | derive p =>
    simp only [Pass.react] at h
    split at h
    · rename_i r hw hv
      cases h
      exact .derive p r hw hv
    · cases h

theorem Moved.older {s : St} {a b : Pass} {e : Ev} (hi : a.promise = .waiting → a.startedAt = none)
    (h : Moved s a e b) : Older a b := by
  cases h with
  | start p hw ht =>
    refine ⟨rfl, rfl, rfl, id, by simp, ?_, ?_, ?_, id, fun _ h => h, fun _ h => h⟩
    · intro r hr; rw [hw] at hr; cases hr
    · intro r hr; rw [hw] at hr; cases hr
    · intro t ht; rw [hi hw] at ht; cases ht
  | finish p r hw =>
    refine ⟨rfl, rfl, rfl, id, by simp, ?_, ?_, fun _ h => h, id, fun _ h => h, fun _ h => h⟩
    · intro r hr; rw [hw] at hr; cases hr
    · intro r hr; rw [hw] at hr; cases hr
  | adopt p r hw =>
    refine ⟨rfl, rfl, rfl, id, by simp, ?_, ?_, fun _ h => h, id, fun _ h => h, fun _ h => h⟩
    · intro r' hr; rw [hw] at hr; cases hr; exact .inr rfl
    · intro r' hr; rw [hw] at hr; cases hr
  | settleTail p r hw _ =>
    exact ⟨rfl, rfl, rfl, fun _ => rfl, id, fun _ h => .inl h, fun _ h => h, fun _ h => h, id,
      fun _ h => h, fun _ h => h⟩
  | release p ht =>
    exact ⟨rfl, rfl, rfl, id, id, fun _ h => .inl h, fun _ h => h, fun _ h => h, id, fun _ h => h, fun _ h => h⟩
  | derive p r hw hv =>
    refine ⟨rfl, rfl, rfl, id, id, fun _ h => .inl h, fun _ h => h, fun _ h => h, by simp, ?_, fun _ h => h⟩
    intro r' hr
    rw [hv] at hr
    cases hr

/-- Every pass of `made` is still there, older. -/
def Grown (made made' : List Pass) : Prop := ∀ (p : Nat) a, made[p]? = some a → ∃ b, made'[p]? = some b ∧ Older a b

/-- Every pass of `made'` was there, younger. -/
def Known (made made' : List Pass) : Prop := ∀ (p : Nat) b, made'[p]? = some b → ∃ a, made[p]? = some a ∧ Older a b

theorem getElem?_set_cases {made : List Pass} {p q : Nat} {x b : Pass} (h : (made.set p x)[q]? = some b) :
    (q = p ∧ b = x) ∨ (q ≠ p ∧ made[q]? = some b) := by
  by_cases e : q = p
  · subst e
    rw [getElem?_set] at h
    simp only [ite_true, ite_none_right_eq_some, some.injEq] at h
    exact .inl ⟨rfl, h.2.symm⟩
  · rw [getElem?_set_ne (Ne.symm e)] at h
    exact .inr ⟨e, h⟩

theorem known_set {made : List Pass} {p : Nat} {a b : Pass} (ha : made[p]? = some a)
    (ho : Older a b) : Known made (made.set p b) := by
  intro q c hc
  rcases getElem?_set_cases hc with ⟨rfl, rfl⟩ | ⟨-, hq⟩
  · exact ⟨a, ha, ho⟩
  · exact ⟨c, hq, .refl c⟩

theorem grown_set {made : List Pass} {p : Nat} {a b : Pass} (ha : made[p]? = some a)
    (ho : Older a b) : Grown made (made.set p b) := by
  intro q c hc
  by_cases e : q = p
  · subst e
    rw [ha] at hc
    cases hc
    exact ⟨b, by rw [getElem?_set_self (List.getElem?_eq_some_iff.mp ha).1], ho⟩
  · exact ⟨c, by rw [getElem?_set_ne (Ne.symm e)]; exact hc, .refl c⟩

/-! ## The invariant -/

def Pass.key (pass : Pass) : String := scopeKey pass.scope

theorem Older.key {a b : Pass} (h : Older a b) : b.key = a.key := congrArg scopeKey h.scope

/-- A pass in itself: its tail settles after it, it starts once, and its view settles as it did. -/
structure Fine (clock : Nat) (a : Pass) : Prop where
  tailed : a.tailSettled = true → ∃ r, a.promise = .settled r
  unstarted : a.promise = .waiting → a.startedAt = none
  started : a.promise ≠ .waiting → ∃ t, a.startedAt = some t ∧ t < clock
  viewed : ∀ r, a.removed = some (some r) → ∃ r', a.promise = .settled r' ∧ r = r'.map (·.removedUserIds)

/-- The passes of a key start one behind the other: each is chained on the one made before it, unless
    the tails of all of them had settled, and starts when that one's tail has. -/
structure Lined (made : List Pass) (clock : Nat) : Prop where
  behind : ∀ {p q : Nat} {a b : Pass}, made[p]? = some a → made[q]? = some b → a.key = b.key → p < q →
    a.tailSettled = true ∨ ∃ t, b.behind = some t ∧ p ≤ t
  chained : ∀ {q t : Nat} {b : Pass}, made[q]? = some b → b.behind = some t → t < q ∧ ∃ a,
    made[t]? = some a ∧ a.key = b.key
  ordered : ∀ {p q : Nat} {a b : Pass}, made[p]? = some a → made[q]? = some b → a.key = b.key → p < q →
    b.promise ≠ .waiting → a.tailSettled = true
  fine : ∀ {p : Nat} {a : Pass}, made[p]? = some a → Fine clock a

/-- A lane in `passes` ends in the last pass of its key; a key without one has nothing to wait for;
    and what waits is what its lane says waits. -/
structure Kept (s : St) : Prop where
  last : ∀ {key : String} {ℓ : Nat}, s.passes key = some ℓ → ∃ p a, (s.lanes ℓ).tail = some p ∧
    s.made[p]? = some a ∧ a.key = key ∧
    ∀ (q : Nat) b, s.made[q]? = some b → b.key = key → q ≤ p
  inj : ∀ {key key' : String} {ℓ : Nat}, s.passes key = some ℓ → s.passes key' = some ℓ → key = key'
  lt : ∀ {key : String} {ℓ : Nat}, s.passes key = some ℓ → ℓ < s.nextLane
  fresh : ∀ {ℓ : Nat}, s.nextLane ≤ ℓ → s.lanes ℓ = ⟨none, none⟩
  free : ∀ {key : String} {p : Nat} {a : Pass}, s.passes key = none → s.made[p]? = some a → a.key = key →
    a.tailSettled = true
  waits : ∀ {p : Nat} {a : Pass}, s.made[p]? = some a → a.promise = .waiting →
    s.passes a.key = some a.lane ∧ (s.lanes a.lane).waiting = some p
  shared : ∀ {key : String} {ℓ p : Nat}, s.passes key = some ℓ → (s.lanes ℓ).waiting = some p →
    ∃ a, s.made[p]? = some a ∧ a.key = key ∧ a.promise = .waiting

/-- What a call holds: a pass of its scope that had not started. -/
structure Given (made : List Pass) (clock : Nat) (c : Call) : Prop where
  past : c.calledAt < clock
  pass : ∃ a, made[c.pass]? = some a ∧ a.key = scopeKey c.scope ∧ c.log ∈ a.logs ∧
    (∀ t, a.startedAt = some t → c.calledAt < t) ∧
    (c.reported = false → a.removed ≠ none)

structure Inv (s : St) : Prop where
  lined : Lined s.made s.clock
  kept : Kept s
  given : ∀ c ∈ s.calls, Given s.made s.clock c

theorem inv_init : Inv init := by
  refine ⟨⟨?_, ?_, ?_, ?_⟩, ⟨?_, ?_, ?_, ?_, ?_, ?_, ?_⟩, ?_⟩ <;> simp [init]

/-! ## One lemma per kind of step -/

variable {clock clock' : Nat}

theorem Fine.later {a : Pass} (h : Fine clock a) (hle : clock ≤ clock') : Fine clock' a := by
  refine ⟨h.tailed, h.unstarted, ?_, h.viewed⟩
  intro hw
  obtain ⟨t, ht, hlt⟩ := h.started hw
  exact ⟨t, ht, by omega⟩

/-- The passes stay in line when each gets older, and those that start had nothing left to wait for. -/
theorem Lined.grow {made made' : List Pass} (h : Lined made clock) (hk : Known made made')
    (hg : Grown made made') (hf : ∀ {p : Nat} {b : Pass}, made'[p]? = some b → Fine clock' b)
    (hs : ∀ {p : Nat} {a b : Pass}, made[p]? = some a → made'[p]? = some b → a.promise = .waiting →
    b.promise ≠ .waiting →
      ∀ t, a.behind = some t → ∃ c, made[t]? = some c ∧ c.tailSettled = true) : Lined made' clock' := by
  refine ⟨?_, ?_, ?_, hf⟩
  · intro p q a' b' ha' hb' hkey hlt
    obtain ⟨a, ha, hoa⟩ := hk p a' ha'
    obtain ⟨b, hb, hob⟩ := hk q b' hb'
    rcases h.behind ha hb (by rw [← hoa.key, ← hob.key]; exact hkey) hlt with ht | ⟨t, ht, hle⟩
    · exact .inl (hoa.tail ht)
    · exact .inr ⟨t, hob.behind.trans ht, hle⟩
  · intro q t b' hb' ht
    obtain ⟨b, hb, hob⟩ := hk q b' hb'
    obtain ⟨hlt, c, hc, hkey⟩ := h.chained hb (hob.behind.symm.trans ht)
    obtain ⟨c', hc', hoc⟩ := hg t c hc
    exact ⟨hlt, c', hc', by rw [hoc.key, hob.key]; exact hkey⟩
  · intro p q a' b' ha' hb' hkey hlt hw
    obtain ⟨a, ha, hoa⟩ := hk p a' ha'
    obtain ⟨b, hb, hob⟩ := hk q b' hb'
    have hkey' : a.key = b.key := by rw [← hoa.key, ← hob.key]; exact hkey
    apply hoa.tail
    by_cases hwb : b.promise = .waiting
    · -- the pass starts in this step: what it is chained on has settled, and so had all before that
      rcases h.behind ha hb hkey' hlt with ht | ⟨t, ht, hle⟩
      · exact ht
      · obtain ⟨c, hc, hct⟩ := hs hb hb' hwb hw t ht
        obtain ⟨-, c', hc', hkc⟩ := h.chained hb ht
        rw [hc] at hc'
        cases hc'
        rcases Nat.eq_or_lt_of_le hle with rfl | hlt'
        · rw [ha] at hc
          cases hc
          exact hct
        · obtain ⟨r, hr⟩ := (h.fine hc).tailed hct
          exact h.ordered ha hc (hkey'.trans hkc.symm) hlt' (by rw [hr]; simp)
    · exact h.ordered ha hb hkey' hlt hwb

/-- Lanes that do not move keep what they say of passes that get older, if what waits still does. -/
theorem Kept.grow {s s' : St} (h : Kept s) (hp : s'.passes = s.passes) (hl : s'.lanes = s.lanes)
    (hn : s'.nextLane = s.nextLane)
    (hk : Known s.made s'.made) (hg : Grown s.made s'.made)
    (hw : ∀ {p : Nat} {a b : Pass}, s.made[p]? = some a → s'.made[p]? = some b → a.promise = .waiting →
    b.promise = .waiting) :
    Kept s' := by
  refine ⟨?_, ?_, ?_, ?_, ?_, ?_, ?_⟩
  · intro key ℓ hℓ
    rw [hp] at hℓ
    obtain ⟨p, a, ht, ha, hkey, hle⟩ := h.last hℓ
    obtain ⟨a', ha', ho⟩ := hg p a ha
    refine ⟨p, a', by rw [hl]; exact ht, ha', ho.key.trans hkey, ?_⟩
    intro q b' hb' hkb
    obtain ⟨b, hb, hob⟩ := hk q b' hb'
    exact hle q b hb (hob.key.symm.trans hkb)
  · intro key key' ℓ h1 h2
    rw [hp] at h1 h2
    exact h.inj h1 h2
  · intro key ℓ h1
    rw [hp] at h1
    rw [hn]
    exact h.lt h1
  · intro ℓ hle
    rw [hn] at hle
    rw [hl]
    exact h.fresh hle
  · intro key p a' hnone ha' hkey
    rw [hp] at hnone
    obtain ⟨a, ha, ho⟩ := hk p a' ha'
    exact ho.tail (h.free hnone ha (ho.key.symm.trans hkey))
  · intro p a' ha' hw'
    obtain ⟨a, ha, ho⟩ := hk p a' ha'
    rw [hp, hl, ho.key, ho.lane]
    exact h.waits ha (ho.waiting hw')
  · intro key ℓ p hℓ hwait
    rw [hp] at hℓ
    rw [hl] at hwait
    obtain ⟨a, ha, hkey, hpa⟩ := h.shared hℓ hwait
    obtain ⟨a', ha', ho⟩ := hg p a ha
    exact ⟨a', ha', ho.key.trans hkey, hw ha ha' hpa⟩

theorem Given.grow {made made' : List Pass} {c : Call} (h : Given made clock c) (hle : clock ≤ clock')
    (hg : Grown made made')
    (hs : ∀ {p : Nat} {a b : Pass}
    {t : Nat}, made[p]? = some a → made'[p]? = some b → b.startedAt = some t → a.startedAt = some t ∨ t = clock) :
    Given made' clock' c := by
  obtain ⟨a, ha, hkey, hlog, hfresh, hview⟩ := h.pass
  obtain ⟨b, hb, ho⟩ := hg _ a ha
  refine ⟨by have := h.past; omega, b, hb, ho.key.trans hkey, ho.logs _ hlog, ?_, fun hr => ho.asked (hview hr)⟩
  intro t ht
  rcases hs ha hb ht with ht' | rfl
  · exact hfresh t ht'
  · exact h.past

theorem moved_of_step {s s' : St} {e : Ev} (he : ∀ scope reported log, e ≠ .call scope reported log)
    (h : step s e = some s') :
    ∃ a b, s.made[e.pass]? = some a ∧ Moved s a e b ∧
      s' = { s.after e.pass a e with made := s.made.set e.pass b, clock := s.clock + 1 } := by
  have hs : (s.made[e.pass]?).bind (fun pass => (pass.react s e).map fun pass' =>
      { s.after e.pass pass e with made := s.made.set e.pass pass', clock := s.clock + 1 }) = some s' := by
    cases e with
    | call scope reported log => exact absurd rfl (he scope reported log)
    | _ => exact h
  obtain ⟨a, ha, hs⟩ := bind_eq_some_iff.mp hs
  obtain ⟨b, hb, rfl⟩ := map_eq_some_iff.mp hs
  exact ⟨a, b, ha, moved_of_react hb, rfl⟩

theorem Moved.fine {s : St} {a b : Pass} {e : Ev} (h : Fine s.clock a) (hm : Moved s a e b) : Fine (s.clock + 1) b := by
  have hnot : ∀ {x : Progress}, (∀ r, x ≠ .settled r) → a.promise = x → a.tailSettled = false ∧ ∀ r,
    a.removed ≠ some (some r) := by
    intro x hx hp
    constructor
    · by_contra ht
      obtain ⟨r, hr⟩ := h.tailed (by simpa using ht)
      exact hx r (hp.symm.trans hr)
    · intro r hv
      obtain ⟨r', hr, -⟩ := h.viewed r hv
      exact hx r' (hp.symm.trans hr)
  cases hm with
  | start p hw ht =>
    obtain ⟨hn, hv⟩ := hnot (by simp) hw
    exact ⟨by simp [hn], by simp, fun _ => ⟨s.clock, rfl, by omega⟩, fun r hr => absurd hr (hv r)⟩
  | finish p r hw =>
    obtain ⟨hn, hv⟩ := hnot (by simp) hw
    exact ⟨by simp [hn], by simp, fun _ => (h.later (Nat.le_succ _)).started (by rw [hw]; simp), fun r hr => absurd hr (hv r)⟩
  | adopt p r hw =>
    obtain ⟨hn, hv⟩ := hnot (by simp) hw
    exact ⟨fun _ => ⟨r, rfl⟩, by
      simp, fun _ => (h.later (Nat.le_succ _)).started (by rw [hw]; simp), fun r hr => absurd hr (hv r)⟩
  | settleTail p r hw _ => exact ⟨fun _ => ⟨r, hw⟩, h.unstarted, (h.later (Nat.le_succ _)).started, h.viewed⟩
  | release p ht => exact ⟨h.tailed, h.unstarted, (h.later (Nat.le_succ _)).started, h.viewed⟩
  | derive p r hw hv =>
    refine ⟨h.tailed, h.unstarted, (h.later (Nat.le_succ _)).started, ?_⟩
    intro r' hr
    cases hr
    exact ⟨r, hw, rfl⟩

/-- Only the start of a pass ends its wait, and dates it; it needs the tail the pass is chained on. -/
theorem Moved.waiting {s : St} {a b : Pass} {e : Ev} (hm : Moved s a e b) :
    (∃ p, e = .start p ∧ s.tailReached a.behind = true ∧ b.startedAt = some s.clock) ∨
      (b.startedAt = a.startedAt ∧ (a.promise = .waiting → b.promise = .waiting)) := by
  cases hm with
  | start p hw ht => exact .inl ⟨p, rfl, ht, rfl⟩
  | finish p r hw => exact .inr ⟨rfl, fun h => by rw [hw] at h; cases h⟩
  | adopt p r hw => exact .inr ⟨rfl, fun h => by rw [hw] at h; cases h⟩
  | settleTail p r hw _ => exact .inr ⟨rfl, id⟩
  | release p ht => exact .inr ⟨rfl, id⟩
  | derive p r hw hv => exact .inr ⟨rfl, id⟩

section Reaction

variable {s : St} {a b : Pass} {e : Ev} {p : Nat}

theorem Moved.lined (h : Lined s.made s.clock) (ha : s.made[p]? = some a) (hm : Moved s a e b) :
    Lined (s.made.set p b) (s.clock + 1) := by
  have ho : Older a b := hm.older (h.fine ha).unstarted
  refine h.grow (known_set ha ho) (grown_set ha ho) ?_ ?_
  · intro q c hc
    rcases getElem?_set_cases hc with ⟨rfl, rfl⟩ | ⟨-, hq⟩
    · exact hm.fine (h.fine ha)
    · exact (h.fine hq).later (Nat.le_succ _)
  · intro q a' b' ha' hb' hw hnw t ht
    rcases getElem?_set_cases hb' with ⟨rfl, rfl⟩ | ⟨-, hq⟩
    · rw [ha] at ha'
      cases ha'
      rcases hm.waiting with ⟨-, -, hreach, -⟩ | ⟨-, hkeep⟩
      · rw [ht] at hreach
        exact (Option.any_eq_true _ _).mp hreach
      · exact absurd (hkeep hw) hnw
    · rw [ha'] at hq
      cases hq
      exact absurd hw hnw

theorem Moved.given (h : Lined s.made s.clock) (ha : s.made[p]? = some a) (hm : Moved s a e b) {c : Call}
    (hc : Given s.made s.clock c) :
    Given (s.made.set p b) (s.clock + 1) c := by
  have ho : Older a b := hm.older (h.fine ha).unstarted
  refine hc.grow (Nat.le_succ _) (grown_set ha ho) ?_
  intro q a' b' t ha' hb' ht
  rcases getElem?_set_cases hb' with ⟨rfl, rfl⟩ | ⟨-, hq⟩
  · rw [ha] at ha'
    cases ha'
    rcases hm.waiting with ⟨-, -, -, hat⟩ | ⟨hat, -⟩
    · rw [hat] at ht
      cases ht
      exact .inr rfl
    · exact .inl (hat.symm.trans ht)
  · rw [ha'] at hq
    cases hq
    exact .inl ht

/-- The lane of the pass that starts waits for nothing any more; the others are as they were. -/
theorem kept_start (h : Kept s) (ha : s.made[p]? = some a) (hw : a.promise = .waiting)
    (hb : b.promise = .reading) (ho : Older a b) :
    Kept { s.after p a (.start p) with made := s.made.set p b, clock := s.clock + 1 } := by
  obtain ⟨hpa, hla⟩ := h.waits ha hw
  have hlanes : ∀ ℓ, ((s.after p a (.start p)).lanes ℓ).tail = (s.lanes ℓ).tail := by
    intro ℓ
    by_cases e : ℓ = a.lane
    · subst e; simp [St.after, Lane.started, hla]
    · simp [St.after, e]
  have hk := known_set ha ho
  have hg := grown_set ha ho
  refine ⟨?_, h.inj, h.lt, ?_, ?_, ?_, ?_⟩
  · intro key ℓ hℓ
    obtain ⟨q, c, ht, hc, hkey, hle⟩ := h.last hℓ
    obtain ⟨c', hc', hoc⟩ := hg q c hc
    refine ⟨q, c', (hlanes ℓ).trans ht, hc', hoc.key.trans hkey, ?_⟩
    intro q' d hd hkd
    obtain ⟨d', hd', hod⟩ := hk q' d hd
    exact hle q' d' hd' (hod.key.symm.trans hkd)
  · intro ℓ hle
    have : ℓ ≠ a.lane := by have := h.lt hpa; dsimp only [St.after] at hle; omega
    simpa [St.after, this] using h.fresh hle
  · intro key q c hnone hc hkey
    obtain ⟨d, hd, hod⟩ := hk q c hc
    exact hod.tail (h.free hnone hd (hod.key.symm.trans hkey))
  · intro q c hc hcw
    rcases getElem?_set_cases hc with ⟨rfl, rfl⟩ | ⟨hne, hq⟩
    · rw [hb] at hcw
      cases hcw
    · obtain ⟨hp', hl'⟩ := h.waits hq hcw
      refine ⟨hp', ?_⟩
      have hne' : c.lane ≠ a.lane := by
        intro e
        rw [e] at hl'
        exact hne (some.inj (hl'.symm.trans hla))
      simpa [St.after, hne'] using hl'
  · intro key ℓ q hℓ hwq
    by_cases e : ℓ = a.lane
    · subst e
      simp [St.after, Lane.started, hla] at hwq
    · have hwq' : (s.lanes ℓ).waiting = some q := by simpa [St.after, e] using hwq
      obtain ⟨c, hc, hkey, hcw⟩ := h.shared hℓ hwq'
      have hne : p ≠ q := by
        rintro rfl
        rw [ha] at hc
        cases hc
        rw [hkey] at hpa
        have hℓ' : s.passes key = some ℓ := hℓ
        exact e (some.inj (hℓ'.symm.trans hpa))
      exact ⟨c, by rw [getElem?_set_ne hne]; exact hc, hkey, hcw⟩

/-- A lane is let go when the tail of its last pass has settled: then nothing of its key is left. -/
theorem kept_release (h : Kept s) (hl : Lined s.made s.clock) (ha : s.made[p]? = some a) (ht : a.tailSettled = true) :
    Kept (s.after p a (.release p)) := by
  unfold St.after
  dsimp only
  split
  · rename_i hcond
    obtain ⟨hpa, hta⟩ := hcond
    obtain ⟨q, c, htq, hc, hkey, hle⟩ := h.last hpa
    obtain rfl : q = p := some.inj (htq.symm.trans hta)
    have hdone : ∀ (q' : Nat) d, s.made[q']? = some d → d.key = a.key → d.tailSettled = true := by
      intro q' d hd hkd
      rcases Nat.eq_or_lt_of_le (hle q' d hd hkd) with rfl | hlt
      · rw [ha] at hd
        cases hd
        exact ht
      · obtain ⟨r, hr⟩ := (hl.fine ha).tailed ht
        exact hl.ordered hd ha hkd hlt (by rw [hr]; simp)
    refine ⟨?_, ?_, ?_, h.fresh, ?_, ?_, ?_⟩
    · intro key ℓ hℓ
      exact h.last (update_none_eq_some_iff.mp hℓ).2
    · intro key key' ℓ h1 h2
      exact h.inj (update_none_eq_some_iff.mp h1).2 (update_none_eq_some_iff.mp h2).2
    · intro key ℓ hℓ
      exact h.lt (update_none_eq_some_iff.mp hℓ).2
    · intro key q' d hnone hd hkd
      by_cases e : key = a.key
      · exact hdone q' d hd (hkd.trans e)
      · refine h.free ?_ hd hkd
        simpa [Function.update_of_ne (show key ≠ scopeKey a.scope from e)] using hnone
    · intro q' d hd hdw
      obtain ⟨hp', hw'⟩ := h.waits hd hdw
      refine ⟨?_, hw'⟩
      have hne : d.key ≠ scopeKey a.scope := by
        intro e
        obtain ⟨r, hr⟩ := (hl.fine hd).tailed (hdone q' d hd e)
        rw [hdw] at hr
        cases hr
      simpa [Function.update_of_ne hne] using hp'
    · intro key ℓ q' hℓ hw'
      exact h.shared (update_none_eq_some_iff.mp hℓ).2 hw'
  · exact h

end Reaction

theorem inv_react {s s' : St} {e : Ev} (he : ∀ scope reported log, e ≠ .call scope reported log) (h : Inv s)
    (hs : step s e = some s') : Inv s' := by
  obtain ⟨a, b, ha, hm, rfl⟩ := moved_of_step he hs
  have ho : Older a b := hm.older (h.lined.fine ha).unstarted
  have hk := known_set ha ho
  have hg := grown_set ha ho
  have hcalls : (s.after e.pass a e).calls = s.calls := by
    cases e with
    | release p => dsimp only [St.after]; split <;> rfl
    | _ => rfl
  refine ⟨hm.lined h.lined ha, ?_, ?_⟩
  · -- the lanes move at a start and at a release only
    have hquiet : ∀ t : St, t.made = s.made → Kept t → (a.promise = .waiting → b.promise = .waiting) →
        Kept { t with made := s.made.set e.pass b, clock := s.clock + 1 } := by
      intro t hmade hkt hw
      refine hkt.grow rfl rfl rfl (by rw [hmade]; exact hk) (by rw [hmade]; exact hg) ?_
      intro q c d hc hd hcw
      rw [hmade] at hc
      rcases getElem?_set_cases hd with ⟨rfl, rfl⟩ | ⟨-, hq⟩
      · rw [ha] at hc
        cases hc
        exact hw hcw
      · rw [hc] at hq
        cases hq
        exact hcw
    cases hm with
    | start p hw ht => exact kept_start h.kept ha hw rfl ho
    | finish p r hw => exact hquiet s rfl h.kept (fun h => by rw [hw] at h; cases h)
    | adopt p r hw => exact hquiet s rfl h.kept (fun h => by rw [hw] at h; cases h)
    | settleTail p r hw _ => exact hquiet s rfl h.kept id
    | derive p r hw hv => exact hquiet s rfl h.kept id
    | release p ht =>
      refine hquiet (s.after p a (.release p)) ?_ (kept_release h.kept h.lined ha ht) id
      dsimp only [St.after]
      split <;> rfl
  · intro c hc
    exact hm.given h.lined ha (h.given c (by rw [← hcalls]; exact hc))

/-! ## A call -/

section Modify

variable {made : List Pass} {p : Nat} {f : Pass → Pass}

theorem getElem?_modify_cases {q : Nat} {b : Pass} (h : (made.modify p f)[q]? = some b) :
    ∃ a, made[q]? = some a ∧ ((q = p ∧ b = f a) ∨ (q ≠ p ∧ b = a)) := by
  rw [getElem?_modify] at h
  obtain ⟨a, ha, h⟩ := map_eq_some_iff.mp h
  refine ⟨a, ha, ?_⟩
  by_cases e : p = q
  · exact .inl ⟨e.symm, by simpa [e] using h.symm⟩
  · exact .inr ⟨Ne.symm e, by simpa [e] using h.symm⟩

theorem known_modify (ho : ∀ a, Older a (f a)) : Known made (made.modify p f) := by
  intro q b hb
  obtain ⟨a, ha, ⟨-, rfl⟩ | ⟨-, rfl⟩⟩ := getElem?_modify_cases hb
  · exact ⟨a, ha, ho a⟩
  · exact ⟨b, ha, .refl b⟩

theorem grown_modify (ho : ∀ a, Older a (f a)) : Grown made (made.modify p f) := by
  intro q a ha
  rw [getElem?_modify, ha]
  by_cases e : p = q
  · exact ⟨f a, by simp [e], ho a⟩
  · exact ⟨a, by simp [e], .refl a⟩

end Modify

/-- An edit of a pass that leaves its promise and its start alone. -/
structure Mild (f : Pass → Pass) : Prop where
  older : ∀ a, Older a (f a)
  promise : ∀ a, (f a).promise = a.promise
  startedAt : ∀ a, (f a).startedAt = a.startedAt
  tailSettled : ∀ a, (f a).tailSettled = a.tailSettled
  viewed : ∀ a r, (f a).removed = some (some r) → a.removed = some (some r)

theorem mild_log (log : Nat) : Mild fun a => { a with logs := a.logs ++ [log] } :=
  ⟨fun a => older_log a log, fun _ => rfl, fun _ => rfl, fun _ => rfl, fun _ _ h => h⟩

theorem mild_view : Mild Pass.view := by
  refine ⟨older_view, fun _ => rfl, fun _ => rfl, fun _ => rfl, ?_⟩
  intro a r h
  cases hr : a.removed with
  | none => simp [Pass.view, hr] at h
  | some v => simpa [Pass.view, hr] using h

theorem inv_mild {s : St} {f : Pass → Pass} (hf : Mild f) (p : Nat)
    (h : Inv s) : Inv { s with made := s.made.modify p f } := by
  have hk : Known s.made (s.made.modify p f) := known_modify hf.older
  have hg : Grown s.made (s.made.modify p f) := grown_modify hf.older
  refine ⟨h.lined.grow hk hg ?_ ?_, h.kept.grow rfl rfl rfl hk hg ?_, ?_⟩
  · intro q b hb
    obtain ⟨a, ha, ⟨-, rfl⟩ | ⟨-, rfl⟩⟩ := getElem?_modify_cases hb
    · have hfine := h.lined.fine ha
      refine ⟨?_, ?_, ?_, ?_⟩
      · rw [hf.tailSettled, hf.promise]; exact hfine.tailed
      · rw [hf.startedAt, hf.promise]; exact hfine.unstarted
      · rw [hf.startedAt, hf.promise]; exact hfine.started
      · intro r hr
        rw [hf.promise]
        exact hfine.viewed r (hf.viewed a r hr)
    · exact h.lined.fine ha
  · intro q a b ha hb hw hnw
    obtain ⟨a', ha', ⟨-, rfl⟩ | ⟨-, rfl⟩⟩ := getElem?_modify_cases hb
    · rw [ha] at ha'
      cases ha'
      exact absurd ((hf.promise a).trans hw) hnw
    · rw [ha] at ha'
      cases ha'
      exact absurd hw hnw
  · intro q a b ha hb hw
    obtain ⟨a', ha', ⟨-, rfl⟩ | ⟨-, rfl⟩⟩ := getElem?_modify_cases hb
    · rw [ha] at ha'
      cases ha'
      exact (hf.promise a).trans hw
    · rw [ha] at ha'
      cases ha'
      exact hw
  · intro c hc
    refine (h.given c hc).grow le_rfl hg ?_
    intro q a b t ha hb ht
    obtain ⟨a', ha', ⟨-, rfl⟩ | ⟨-, rfl⟩⟩ := getElem?_modify_cases hb
    · rw [ha] at ha'
      cases ha'
      exact .inl ((hf.startedAt a).symm.trans ht)
    · rw [ha] at ha'
      cases ha'
      exact .inl ht

def St.fresh (s : St) (scope : DistributionScope) (log : Nat) : Pass :=
  ⟨scope, s.laneOf (scopeKey scope), (s.lanes (s.laneOf (scopeKey scope))).tail, [log], .waiting, false,
    false, none, none⟩

def St.make (s : St) (scope : DistributionScope) (log : Nat) : St :=
  { s with
    made := s.made ++ [s.fresh scope log]
    lanes := Function.update s.lanes (s.laneOf (scopeKey scope)) ⟨some s.made.length, some s.made.length⟩
    nextLane := max s.nextLane (s.laneOf (scopeKey scope) + 1)
    passes := Function.update s.passes (scopeKey scope) (some (s.laneOf (scopeKey scope))) }

theorem getElem?_concat_cases {made : List Pass} {x b : Pass} {q : Nat} (h : (made ++ [x])[q]? = some b) :
    (q < made.length ∧ made[q]? = some b) ∨ (q = made.length ∧ b = x) := by
  rcases Nat.lt_trichotomy q made.length with hlt | rfl | hgt
  · exact .inl ⟨hlt, by rw [getElem?_append_left hlt] at h; exact h⟩
  · exact .inr ⟨rfl, by simpa using h.symm⟩
  · rw [getElem?_eq_none (by simp; omega)] at h
    cases h

theorem lt_of_getElem? {made : List Pass} {q : Nat} {a : Pass} (h : made[q]? = some a) : q < made.length :=
  (List.getElem?_eq_some_iff.mp h).1

theorem getElem?_concat_of {made : List Pass} {x a : Pass} {q : Nat}
    (h : made[q]? = some a) : (made ++ [x])[q]? = some a := by
  rw [getElem?_append_left (lt_of_getElem? h)]
  exact h

section Make

variable {s : St} {scope : DistributionScope} {log : Nat}

theorem laneOf_cases (h : Kept s) (key : String) :
    (∃ ℓ, s.passes key = some ℓ ∧ s.laneOf key = ℓ) ∨
      (s.passes key = none ∧ s.laneOf key = s.nextLane ∧ s.lanes s.nextLane = ⟨none, none⟩) := by
  cases hp : s.passes key with
  | some ℓ => exact .inl ⟨ℓ, rfl, by simp [St.laneOf, hp]⟩
  | none => exact .inr ⟨rfl, by simp [St.laneOf, hp], h.fresh le_rfl⟩

theorem lined_make (h : Inv s) : Lined (s.made ++ [s.fresh scope log]) s.clock := by
  refine ⟨?_, ?_, ?_, ?_⟩
  · intro p q a b ha hb hkey hlt
    rcases getElem?_concat_cases hb with ⟨hq, hb'⟩ | ⟨rfl, rfl⟩
    · rw [getElem?_append_left (by omega)] at ha
      exact h.lined.behind ha hb' hkey hlt
    · rw [getElem?_append_left hlt] at ha
      rcases laneOf_cases h.kept (scopeKey scope) with ⟨ℓ, hℓ, hof⟩ | ⟨hnone, -, -⟩
      · obtain ⟨t, c, ht, hc, -, hle⟩ := h.kept.last hℓ
        exact .inr ⟨t, by simp [St.fresh, hof, ht], hle p a ha hkey⟩
      · exact .inl (h.kept.free hnone ha hkey)
  · intro q t b hb ht
    rcases getElem?_concat_cases hb with ⟨hq, hb'⟩ | ⟨rfl, rfl⟩
    · obtain ⟨hlt, a, ha, hkey⟩ := h.lined.chained hb' ht
      exact ⟨hlt, a, getElem?_concat_of ha, hkey⟩
    · rcases laneOf_cases h.kept (scopeKey scope) with ⟨ℓ, hℓ, hof⟩ | ⟨-, hof, hlane⟩
      · obtain ⟨t', c, ht', hc, hkey, -⟩ := h.kept.last hℓ
        have : t = t' := by simpa [St.fresh, hof, ht'] using ht.symm
        subst this
        exact ⟨lt_of_getElem? hc, c, getElem?_concat_of hc, hkey⟩
      · simp [St.fresh, hof, hlane] at ht
  · intro p q a b ha hb hkey hlt hw
    rcases getElem?_concat_cases hb with ⟨hq, hb'⟩ | ⟨rfl, rfl⟩
    · rw [getElem?_append_left (by omega)] at ha
      exact h.lined.ordered ha hb' hkey hlt hw
    · exact absurd rfl hw
  · intro p a ha
    rcases getElem?_concat_cases ha with ⟨-, ha'⟩ | ⟨-, rfl⟩
    · exact h.lined.fine ha'
    · exact ⟨by simp [St.fresh], by simp [St.fresh], by simp [St.fresh], by simp [St.fresh]⟩

theorem kept_make (h : Inv s)
    (hw : (s.lanes (s.laneOf (scopeKey scope))).waiting = none) : Kept (s.make scope log) := by
  have hlane := laneOf_cases h.kept (scopeKey scope)
  -- the lane of the new pass is nobody else's
  have hne : ∀ {key ℓ}, key ≠ scopeKey scope → s.passes key = some ℓ → ℓ ≠ s.laneOf (scopeKey scope) := by
    intro key ℓ hk hℓ e
    rcases hlane with ⟨ℓ', hℓ', hof⟩ | ⟨-, hof, -⟩
    · exact hk (h.kept.inj hℓ (by rw [e, hof]; exact hℓ'))
    · have := h.kept.lt hℓ
      omega
  have hle : s.nextLane ≤ (s.make scope log).nextLane := Nat.le_max_left _ _
  refine ⟨?_, ?_, ?_, ?_, ?_, ?_, ?_⟩
  · intro key ℓ hℓ
    rcases update_eq_some_iff.mp hℓ with ⟨rfl, rfl⟩ | ⟨hk, hℓ'⟩
    · refine ⟨s.made.length, s.fresh scope log, by simp [St.make], by simp [St.make], rfl, ?_⟩
      intro q b hb hkey
      rcases getElem?_concat_cases hb with ⟨hq, -⟩ | ⟨rfl, -⟩ <;> omega
    · obtain ⟨p, a, ht, ha, hkey, hle⟩ := h.kept.last hℓ'
      refine ⟨p, a, by simpa [St.make, hne hk hℓ'] using ht, getElem?_concat_of ha, hkey, ?_⟩
      intro q b hb hkb
      rcases getElem?_concat_cases hb with ⟨-, hb'⟩ | ⟨-, rfl⟩
      · exact hle q b hb' hkb
      · exact absurd hkb.symm hk
  · intro key key' ℓ h1 h2
    rcases update_eq_some_iff.mp h1 with ⟨rfl, rfl⟩ | ⟨hk1, h1'⟩ <;>
      rcases update_eq_some_iff.mp h2 with ⟨rfl, e2⟩ | ⟨hk2, h2'⟩
    · rfl
    · exact absurd rfl (hne hk2 h2')
    · exact absurd e2.symm (hne hk1 h1')
    · exact h.kept.inj h1' h2'
  · intro key ℓ hℓ
    rcases update_eq_some_iff.mp hℓ with ⟨rfl, rfl⟩ | ⟨hk, hℓ'⟩
    · exact lt_of_lt_of_le (Nat.lt_succ_self _) (Nat.le_max_right _ _)
    · exact lt_of_lt_of_le (h.kept.lt hℓ') hle
  · intro ℓ hℓ
    have hx : s.laneOf (scopeKey scope) + 1 ≤ ℓ := le_trans (Nat.le_max_right _ _) hℓ
    simp only [St.make]
    rw [Function.update_of_ne (by omega)]
    exact h.kept.fresh (hle.trans hℓ)
  · intro key p a hnone ha hkey
    have hk : key ≠ scopeKey scope := by
      rintro rfl
      simp [St.make] at hnone
    have hnone' : s.passes key = none := by simpa [St.make, hk] using hnone
    rcases getElem?_concat_cases ha with ⟨-, ha'⟩ | ⟨-, rfl⟩
    · exact h.kept.free hnone' ha' hkey
    · exact absurd hkey.symm hk
  · intro p a ha haw
    rcases getElem?_concat_cases ha with ⟨-, ha'⟩ | ⟨rfl, rfl⟩
    · obtain ⟨hp, hwp⟩ := h.kept.waits ha' haw
      have hk : a.key ≠ scopeKey scope := by
        intro e
        rw [e] at hp
        have hof : s.laneOf (scopeKey scope) = a.lane := by simp [St.laneOf, hp]
        rw [hof, hwp] at hw
        cases hw
      refine ⟨by simpa [St.make, hk] using hp, ?_⟩
      simpa [St.make, hne hk hp] using hwp
    · exact ⟨by simp [St.make, St.fresh, Pass.key], by simp [St.make, St.fresh]⟩
  · intro key ℓ p hℓ hwp
    rcases update_eq_some_iff.mp hℓ with ⟨rfl, rfl⟩ | ⟨hk, hℓ'⟩
    · have : p = s.made.length := by simpa [St.make] using hwp.symm
      subst this
      exact ⟨s.fresh scope log, by simp [St.make], rfl, rfl⟩
    · have hwp' : (s.lanes ℓ).waiting = some p := by simpa [St.make, hne hk hℓ'] using hwp
      obtain ⟨a, ha, hkey, haw⟩ := h.kept.shared hℓ' hwp'
      exact ⟨a, getElem?_concat_of ha, hkey, haw⟩

theorem inv_make (h : Inv s) (hw : (s.lanes (s.laneOf (scopeKey scope))).waiting = none) : Inv (s.make scope log) := by
  refine ⟨lined_make h, kept_make h hw, ?_⟩
  intro c hc
  obtain ⟨hpast, a, ha, hrest⟩ := h.given c hc
  exact ⟨hpast, a, getElem?_concat_of ha, hrest⟩

/-- What a call is given: a pass of its scope that waits, with the call's log on it. -/
theorem reported_spec (h : Inv s) :
    Inv (reconcileDistributionGroupRosterReported s scope log).1 ∧
      (reconcileDistributionGroupRosterReported s scope log).1.calls = s.calls ∧
      (reconcileDistributionGroupRosterReported s scope log).1.clock = s.clock ∧
      ∃ a, (reconcileDistributionGroupRosterReported s scope
        log).1.made[(reconcileDistributionGroupRosterReported s scope log).2]? = some a ∧
        a.key = scopeKey scope ∧ log ∈ a.logs ∧ a.promise = .waiting := by
  unfold reconcileDistributionGroupRosterReported
  dsimp only
  cases hw : (s.lanes (s.laneOf (scopeKey scope))).waiting with
  | none =>
    refine ⟨inv_make h hw, rfl, rfl, s.fresh scope log, by simp [St.fresh], rfl, by simp [St.fresh], rfl⟩
  | some p =>
    refine ⟨inv_mild (mild_log log) p h, rfl, rfl, ?_⟩
    rcases laneOf_cases h.kept (scopeKey scope) with ⟨ℓ, hℓ, hof⟩ | ⟨-, hof, hlane⟩
    · rw [hof] at hw
      obtain ⟨a, ha, hkey, haw⟩ := h.kept.shared hℓ hw
      exact ⟨{ a with logs := a.logs ++ [log] }, by simp [ha], hkey, by simp, haw⟩
    · rw [hof, hlane] at hw
      cases hw

theorem inv_called (h : Inv s) (reported : Bool) : Inv (s.called scope reported log) := by
  obtain ⟨hinv, hcalls, hclock, a, ha, hkey, hlog, haw⟩ := @reported_spec s scope log h
  generalize hr : reconcileDistributionGroupRosterReported s scope log = r at *
  obtain ⟨s₁, p⟩ := r
  -- a later clock, and one call more
  have hadd : ∀ t : St, Inv t → t.calls = s.calls → t.clock = s.clock → ∀ b, t.made[p]? = some b →
    b.key = scopeKey scope → log ∈ b.logs →
      b.promise = .waiting → (reported = false → b.removed ≠ none) →
      Inv { t with calls := s.calls ++ [⟨scope, reported, log, p, s.clock⟩], clock := s.clock + 1 } := by
    intro t ht htc htk b hb hkb hlb hbw hview
    refine ⟨⟨ht.lined.behind, ht.lined.chained, ht.lined.ordered,
      fun hq => (ht.lined.fine hq).later (by dsimp only; omega)⟩,
      ⟨ht.kept.last, ht.kept.inj, ht.kept.lt, ht.kept.fresh, ht.kept.free, ht.kept.waits, ht.kept.shared⟩, ?_⟩
    intro c hc
    rcases mem_append.mp hc with hc | hc
    · have hg := ht.given c (by rw [htc]; exact hc)
      exact ⟨by have := hg.past; dsimp only; omega, hg.pass⟩
    · obtain rfl := mem_singleton.mp hc
      refine ⟨by dsimp only; omega, b, hb, hkb, hlb, ?_, hview⟩
      intro t' ht'
      rw [(ht.lined.fine hb).unstarted hbw] at ht'
      cases ht'
  unfold St.called
  cases reported with
  | true =>
    rw [hr]
    exact hadd s₁ hinv hcalls hclock a ha hkey hlog haw (by simp)
  | false =>
    rw [reconcileDistributionGroupRoster, hr]
    refine hadd { s₁ with made := s₁.made.modify p Pass.view } (inv_mild mild_view p hinv) hcalls hclock a.view ?_ hkey hlog haw ?_
    · simp [ha]
    · simp [Pass.view]

end Make

theorem inv_step {s s' : St} {e : Ev} (h : Inv s) (hs : step s e = some s') : Inv s' := by
  cases e with
  | call scope reported log =>
    cases hs
    exact inv_called h reported
  | _ => exact inv_react (by simp) h hs

theorem inv_of_reach {s : St} (h : rosterLanes.Reach s) : Inv s := by
  refine Machine.Reach.invariant ?_ (fun s e s' hi hs => @inv_step s s' e hi hs) h
  intro s hs
  subst hs
  exact inv_init

/-! ## Every call settles -/

inductive Job where
  | start (p : Nat)
  | finish (p : Nat)
  | adopt (p : Nat)
  | settleTail (p : Nat)
  | derive (p : Nat)

def Job.doneBy : Job → Ev → Prop
  | .start p, e => e = .start p
  | .finish p, e => ∃ r, e = .finish p r
  | .adopt p, e => e = .adopt p
  | .settleTail p, e => e = .settleTail p
  | .derive p, e => e = .derive p

/-- Each reaction that can run does, and each pass that reads ends. -/
def Fair (c : rosterLanes.Course) : Prop := c.Fair Job.doneBy

def Call.settled (s : St) (c : Call) : Prop :=
  ∃ a, s.made[c.pass]? = some a ∧ if c.reported then ∃ r, a.promise = .settled r else ∃ r, a.removed = some (some r)

/-- The pass `p` is there and meets `P`. -/
def Has (p : Nat) (P : Pass → Prop) (s : St) : Prop := ∃ a, s.made[p]? = some a ∧ P a

theorem grown_step {s s' : St} {e : Ev} (h : Inv s) (hs : step s e = some s') : Grown s.made s'.made := by
  cases e with
  | call scope reported log =>
    cases hs
    have hgrow : Grown s.made (reconcileDistributionGroupRosterReported s scope log).1.made := by
      unfold reconcileDistributionGroupRosterReported
      dsimp only
      split
      · exact grown_modify (fun a => older_log a log)
      · exact fun q a ha => ⟨a, getElem?_concat_of ha, .refl a⟩
    unfold St.called
    cases reported with
    | true => exact hgrow
    | false =>
      intro q a ha
      obtain ⟨b, hb, ho⟩ := hgrow q a ha
      rw [if_neg (by simp)]
      simp only [reconcileDistributionGroupRoster, getElem?_modify]
      split
      · exact ⟨b.view, by rw [hb]; rfl, ho.trans (older_view b)⟩
      · exact ⟨b, by rw [hb]; rfl, ho⟩
  | _ =>
    obtain ⟨a, b, ha, hm, rfl⟩ := moved_of_step (by simp) hs
    exact grown_set ha (hm.older (h.lined.fine ha).unstarted)

theorem stable_has {p : Nat} {P : Pass → Prop} (hP : ∀ a b, Older a b → P a → P b) : rosterLanes.Stable (Has p P) := by
  intro s e s' hr h hs
  obtain ⟨a, ha, hp⟩ := h
  obtain ⟨b, hb, ho⟩ := grown_step (inv_of_reach hr) hs p a ha
  exact ⟨b, hb, hP a b ho hp⟩

theorem unless_has {p : Nat} {P Q : Pass → Prop} (hP : ∀ a b, Older a b → P a → P b ∨ Q b) :
    rosterLanes.Unless (Has p P) (Has p Q) := by
  intro s e s' hr h hs
  obtain ⟨a, ha, hp⟩ := h
  obtain ⟨b, hb, ho⟩ := grown_step (inv_of_reach hr) hs p a ha
  rcases hP a b ho hp with h | h
  · exact .inl ⟨b, hb, h⟩
  · exact .inr ⟨b, hb, h⟩

theorem stable_tailReached (b : Option Nat) : rosterLanes.Stable (fun s => s.tailReached b = true) := by
  intro s e s' hr h hs
  cases b with
  | none => rfl
  | some q =>
    have hq : Has q (·.tailSettled = true) s := by simpa [St.tailReached, Has, Option.any_eq_true] using h
    obtain ⟨a, ha, ht⟩ := stable_has (fun _ _ ho ht => ho.tail ht) s e s' hr hq hs
    simp [St.tailReached, ha, ht]

theorem enabled_of_react {s : St} {e : Ev} {job : Job} {a b : Pass} (hj : job.doneBy e)
    (ha : s.made[e.pass]? = some a) (hb : a.react s e = some b) : rosterLanes.Enabled Job.doneBy job s := by
  refine ⟨e, { s.after e.pass a e with made := s.made.set e.pass b, clock := s.clock + 1 }, hj, ?_⟩
  cases e with
  | call => cases hb
  | _ => simp [rosterLanes, step, ha, hb]

theorem has_of_step {s s' : St} {e : Ev} {P : Pass → Prop} (he : ∀ scope reported log, e ≠ .call scope reported log)
    (hs : rosterLanes.step s e = some s') (hP : ∀ a b, Moved s a e b → P b) : Has e.pass P s' := by
  obtain ⟨a, b, ha, hm, rfl⟩ := @moved_of_step s s' e he hs
  exact ⟨b, getElem?_set_self (lt_of_getElem? ha), hP a b hm⟩

section Progress

variable {c : rosterLanes.Course} (hf : Fair c) (p : Nat)

include hf

theorem reading_leads :
    c.Leads (Has p (·.promise = .reading)) (Has p fun a => a.promise ≠ .waiting ∧ a.promise ≠ .reading) := by
  refine Machine.Course.leads_of_job hf (.finish p) (unless_has ?_) ?_ ?_
  · intro a b ho ha
    by_cases hb : b.promise = .reading
    · exact .inl hb
    · refine .inr ⟨fun hw => ?_, hb⟩
      rw [ho.waiting hw] at ha
      cases ha
  · intro s _ h
    obtain ⟨a, ha, hr⟩ := h
    exact enabled_of_react (e := .finish p (.error "lost")) ⟨_, rfl⟩ ha (if_pos hr)
  · intro s e s' _ hd hs
    obtain ⟨r, rfl⟩ := hd
    refine has_of_step (by simp) hs ?_
    intro a b hm
    cases hm
    simp

theorem ended_leads : c.Leads (Has p fun a => ∃ r, a.promise = .ended r)
    (Has p fun a => ∃ r, a.promise = .settled r) := by
  refine Machine.Course.leads_of_job hf (.adopt p) (unless_has ?_) ?_ ?_
  · intro a b ho ha
    obtain ⟨r, hr⟩ := ha
    exact (ho.ended r hr).imp (fun h => ⟨r, h⟩) (fun h => ⟨r, h⟩)
  · intro s _ h
    obtain ⟨a, ha, r, hr⟩ := h
    exact enabled_of_react (e := .adopt p) rfl ha (by simp only [Pass.react, hr]; rfl)
  · intro s e s' _ hd hs
    obtain rfl := hd
    refine has_of_step (by simp) hs ?_
    intro a b hm
    cases hm with
    | adopt _ r _ => exact ⟨r, rfl⟩

theorem settled_leads : c.Leads (Has p fun a => ∃ r, a.promise = .settled r) (Has p (·.tailSettled = true)) := by
  have hjob : c.Leads (Has p fun a => (∃ r, a.promise = .settled r) ∧ a.tailSettled = false)
      (Has p (·.tailSettled = true)) := by
    refine Machine.Course.leads_of_job hf (.settleTail p) (unless_has ?_) ?_ ?_
    · intro a b ho ha
      obtain ⟨⟨r, hr⟩, -⟩ := ha
      cases hb : b.tailSettled with
      | true => exact .inr rfl
      | false => exact .inl ⟨⟨r, ho.settled r hr⟩, rfl⟩
    · intro s _ h
      obtain ⟨a, ha, ⟨r, hr⟩, ht⟩ := h
      exact enabled_of_react (e := .settleTail p) rfl ha (by simp only [Pass.react, hr, ht]; rfl)
    · intro s e s' _ hd hs
      obtain rfl := hd
      refine has_of_step (by simp) hs ?_
      intro a b hm
      cases hm
      rfl
  intro t h
  obtain ⟨a, ha, hr⟩ := h
  cases ht : a.tailSettled with
  | true => exact ⟨t, le_rfl, a, ha, ht⟩
  | false => exact hjob t ⟨a, ha, hr, ht⟩

theorem reached_leads : c.Leads (Has p fun a => a.promise ≠ .waiting) (Has p fun a => ∃ r, a.promise = .settled r) := by
  have hended : c.Leads (Has p fun a => a.promise ≠ .waiting ∧ a.promise ≠ .reading)
      (Has p fun a => ∃ r, a.promise = .settled r) := by
    intro t h
    obtain ⟨a, ha, hw, hrd⟩ := h
    cases hp : a.promise with
    | waiting => exact absurd hp hw
    | reading => exact absurd hp hrd
    | ended r => exact ended_leads hf p t ⟨a, ha, r, hp⟩
    | settled r => exact ⟨t, le_rfl, a, ha, r, hp⟩
  intro t h
  obtain ⟨a, ha, hw⟩ := h
  by_cases hp : a.promise = .reading
  · exact ((reading_leads hf p).trans hended) t ⟨a, ha, hp⟩
  · exact hended t ⟨a, ha, hw, hp⟩

theorem ready_leads (b : Option Nat) :
    c.Leads (fun s => Has p (fun a => a.promise = .waiting ∧ a.behind = b) s ∧ s.tailReached b = true)
      (Has p fun a => a.promise ≠ .waiting) := by
  refine Machine.Course.leads_of_job hf (.start p) ?_ ?_ ?_
  · intro s e s' hr h hs
    have hw : rosterLanes.Unless (Has p fun a => a.promise = .waiting ∧ a.behind = b)
      (Has p fun a => a.promise ≠ .waiting) := by
      refine unless_has ?_
      intro x y ho hx
      by_cases hy : y.promise = .waiting
      · exact .inl ⟨hy, ho.behind.trans hx.2⟩
      · exact .inr hy
    rcases hw s e s' hr h.1 hs with h' | h'
    · exact .inl ⟨h', stable_tailReached b s e s' hr h.2 hs⟩
    · exact .inr h'
  · intro s _ h
    obtain ⟨⟨a, ha, hw, hb⟩, ht⟩ := h
    exact enabled_of_react (e := .start p) rfl ha (if_pos ⟨hw, by rw [hb]; exact ht⟩)
  · intro s e s' _ hd hs
    obtain rfl := hd
    refine has_of_step (by simp) hs ?_
    intro x y hm
    cases hm
    simp

/-- By induction on the pass: the one it is chained on was made before it. -/
theorem made_leads : c.Leads (Has p fun _ => True) (Has p fun a => ∃ r, a.promise = .settled r) := by
  induction p using Nat.strong_induction_on with
  | _ p ih =>
    have hstart : c.Leads (Has p fun _ => True) (Has p fun a => a.promise ≠ .waiting) := by
      intro t h
      obtain ⟨a, ha, -⟩ := h
      -- the tail the pass is chained on settles
      have hready : ∃ u, t ≤ u ∧ (c.state u).tailReached a.behind = true := by
        cases hb : a.behind with
        | none => exact ⟨t, le_rfl, rfl⟩
        | some q =>
          obtain ⟨hlt, b, hq, -⟩ := (inv_of_reach (c.reach t)).lined.chained ha hb
          obtain ⟨u, hu, b', hb', ht'⟩ := ((ih q hlt).trans (settled_leads hf q)) t ⟨b, hq, trivial⟩
          exact ⟨u, hu, by simp [St.tailReached, hb', ht']⟩
      obtain ⟨u, hu, hr⟩ := hready
      obtain ⟨b, hb, hbe⟩ :=
        Machine.Course.stable (stable_has (fun x y ho (hx : x.behind = a.behind) => ho.behind.trans hx)) hu ⟨a, ha, rfl⟩
      by_cases hw : b.promise = .waiting
      · obtain ⟨v, hv, hdone⟩ := ready_leads hf p a.behind u ⟨⟨b, hb, hw, hbe⟩, hr⟩
        exact ⟨v, hu.trans hv, hdone⟩
      · exact ⟨u, hu, b, hb, hw⟩
    exact hstart.trans (reached_leads hf p)

theorem view_leads :
    c.Leads (Has p fun a => (∃ r, a.promise = .settled r) ∧ a.removed ≠ none)
      (Has p fun a => ∃ r, a.removed = some (some r)) := by
  have hjob : c.Leads (Has p fun a => (∃ r, a.promise = .settled r) ∧ a.removed = some none)
      (Has p fun a => ∃ r, a.removed = some (some r)) := by
    refine Machine.Course.leads_of_job hf (.derive p) (unless_has ?_) ?_ ?_
    · intro a b ho ha
      obtain ⟨⟨r, hr⟩, hv⟩ := ha
      match hb : b.removed with
      | none => exact absurd hb (ho.asked (by rw [hv]; simp))
      | some none => exact .inl ⟨⟨r, ho.settled r hr⟩, rfl⟩
      | some (some r') => exact .inr ⟨r', rfl⟩
    · intro s _ h
      obtain ⟨a, ha, ⟨r, hr⟩, hv⟩ := h
      exact enabled_of_react (e := .derive p) rfl ha (by simp only [Pass.react, hr, hv]; rfl)
    · intro s e s' _ hd hs
      obtain rfl := hd
      refine has_of_step (by simp) hs ?_
      intro a b hm
      cases hm
      exact ⟨_, rfl⟩
  intro t h
  obtain ⟨a, ha, hr, hv⟩ := h
  cases hx : a.removed with
  | none => exact absurd hx hv
  | some v =>
    cases v with
    | none => exact hjob t ⟨a, ha, hr, hx⟩
    | some r => exact ⟨t, le_rfl, a, ha, r, hx⟩

end Progress

theorem call_settles {c : rosterLanes.Course} (hf : Fair c) {t : Nat} {call : Call} (hc : call ∈ (c.state t).calls) :
    ∃ t', t ≤ t' ∧ call.settled (c.state t') := by
  obtain ⟨-, a, ha, -, -, -, hview⟩ := (inv_of_reach (c.reach t)).given call hc
  cases hr : call.reported with
  | true =>
    obtain ⟨u, hu, b, hb, hs⟩ := made_leads hf call.pass t ⟨a, ha, trivial⟩
    exact ⟨u, hu, b, hb, by simpa [hr] using hs⟩
  | false =>
    have hasked : rosterLanes.Stable (Has call.pass (·.removed ≠ none)) := stable_has (fun x y ho hx => ho.asked hx)
    have hkeep := (made_leads hf call.pass).keep hasked
    obtain ⟨u, hu, ⟨b, hb, hs⟩, b', hb', hv⟩ := hkeep t ⟨⟨a, ha, trivial⟩, a, ha, hview hr⟩
    rw [hb] at hb'
    cases hb'
    obtain ⟨v, hv', d, hd, hdr⟩ := view_leads hf call.pass u ⟨b, hb, hs, hv⟩
    exact ⟨v, hu.trans hv', d, hd, by simpa [hr] using hdr⟩

/-! ## Exclusive, and fresh -/

/-- Two passes of one scope never read at once, and one waits at most. A call has a pass of its scope,
    which starts after the call, and the promise it was handed settles as that pass did. -/
structure Orderly (s : St) : Prop where
  exclusive : ∀ (p q : Nat) a b, s.made[p]? = some a → s.made[q]? = some b → sameScope a.scope b.scope = true →
    a.promise = .reading →
    b.promise = .reading → p = q
  oneWaits : ∀ (p q : Nat) a b, s.made[p]? = some a → s.made[q]? = some b → sameScope a.scope b.scope = true →
    a.promise = .waiting →
    b.promise = .waiting → p = q
  served : ∀ call ∈ s.calls, ∃ a, s.made[call.pass]? = some a ∧ sameScope a.scope call.scope = true ∧
    (∀ t, a.startedAt = some t → call.calledAt < t) ∧ (a.promise ≠ .waiting → a.startedAt ≠ none) ∧
    ∀ r, a.removed = some (some r) → ∃ r', a.promise = .settled r' ∧ r = r'.map (·.removedUserIds)

theorem Inv.orderly {s : St} (h : Inv s) : Orderly s := by
  refine ⟨?_, ?_, ?_⟩
  · intro p q a b ha hb hsame hpa hpb
    have hkey : a.key = b.key := by simpa [sameScope, Pass.key] using hsame
    -- the earlier of the two would have settled when the later one started
    have hno : ∀ {p q : Nat} {a b : Pass}, s.made[p]? = some a → s.made[q]? = some b → a.key = b.key →
      a.promise = .reading →
        b.promise = .reading → ¬ p < q := by
      intro p q a b ha hb hkey hpa hpb hlt
      obtain ⟨r, hr⟩ := (h.lined.fine ha).tailed (h.lined.ordered ha hb hkey hlt (by rw [hpb]; simp))
      rw [hpa] at hr
      cases hr
    have h1 := hno ha hb hkey hpa hpb
    have h2 := hno hb ha hkey.symm hpb hpa
    omega
  · intro p q a b ha hb hsame hpa hpb
    have hkey : a.key = b.key := by simpa [sameScope, Pass.key] using hsame
    obtain ⟨hla, hwa⟩ := h.kept.waits ha hpa
    obtain ⟨hlb, hwb⟩ := h.kept.waits hb hpb
    have hlane : b.lane = a.lane := some.inj (hlb.symm.trans (hkey ▸ hla))
    rw [hlane] at hwb
    exact some.inj (hwa.symm.trans hwb)
  · intro call hc
    obtain ⟨-, a, ha, hkey, -, hfresh, -⟩ := h.given call hc
    have hfine := h.lined.fine ha
    refine ⟨a, ha, by simpa [sameScope, Pass.key] using hkey, hfresh, ?_, hfine.viewed⟩
    intro hw
    obtain ⟨t, ht, -⟩ := hfine.started hw
    rw [ht]
    simp

/-- Whatever calls come when, and whatever passes fail: passes of a scope read one at a time with one
    waiting at most, every call is answered by a pass that started after it, and in every fair course
    each of them is answered. -/
theorem passes_exclusive_and_fresh :
    (∀ s, rosterLanes.Reach s → Orderly s) ∧
      ∀ c : rosterLanes.Course, Fair c → ∀ t, ∀ call ∈ (c.state t).calls, ∃ t', t ≤ t' ∧ call.settled (c.state t') :=
  ⟨fun _ h => (inv_of_reach h).orderly, fun _ hf _ _ hc => call_settles hf hc⟩

/-- Two calls come while the first pass of the scope reads, and share the pass behind it; the first fails. -/
def sharedPass : List Ev :=
  [.call (.workspace "w") true 0, .start 0, .call (.workspace "w") false 1, .call (.workspace "w") true 2,
    .finish 0 (.error "offline"), .adopt 0, .settleTail 0, .release 0,
    .start 1, .finish 1 (.ok ⟨["bob"], some ["ann"]⟩), .adopt 1, .settleTail 1, .release 1, .derive 1]

/-- The passes as `sharedPass` leaves them. -/
def settledPasses : List Pass :=
  [⟨.workspace "w", 0, none, [0], .settled (.error "offline"), true, true, none, some 1⟩,
    ⟨.workspace "w", 0, some 0, [1, 2], .settled (.ok ⟨["bob"], some ["ann"]⟩), true, true,
      some (some (.ok ["bob"])), some 8⟩]

theorem sharedPass_runs : ∃ s, rosterLanes.run init sharedPass = some s ∧ s.made = settledPasses := by
  have h : (rosterLanes.run init sharedPass).map (·.made) = some settledPasses := by decide +kernel
  exact map_eq_some_iff.mp h

theorem not_enabled_of_settled {s : St}
    (h : ∀ a ∈ s.made, (∃ r, a.promise = .settled r) ∧ a.tailSettled = true ∧ a.removed ≠ some none)
    (job : Job) : ¬ rosterLanes.Enabled Job.doneBy job s := by
  rintro ⟨e, s', hd, hs⟩
  have hcall : ∀ scope reported log, e ≠ .call scope reported log := by
    rintro scope reported log rfl
    cases job <;> simp [Job.doneBy] at hd
  obtain ⟨a, b, ha, hm, -⟩ := moved_of_step hcall hs
  obtain ⟨⟨r, hr⟩, ht, hv⟩ := h a (mem_of_getElem? ha)
  cases hm with
  | start p hw _ => rw [hr] at hw; cases hw
  | finish p r' hw => rw [hr] at hw; cases hw
  | adopt p r' hw => rw [hr] at hw; cases hw
  | settleTail p r' _ ht' => rw [ht] at ht'; cases ht'
  | release p _ => cases job <;> simp [Job.doneBy] at hd
  | derive p r' _ hv' => exact hv hv'

theorem three_calls_settle :
    ∃ c : rosterLanes.Course, Fair c ∧ ∃ t, (c.state t).calls.map (·.pass) = [0, 1, 1] ∧
      ∀ call ∈ (c.state t).calls, ∃ t', t ≤ t' ∧ call.settled (c.state t') := by
  obtain ⟨s, hs, hmade⟩ := sharedPass_runs
  have hdone : ∀ a ∈ s.made, (∃ r, a.promise = .settled r) ∧ a.tailSettled = true ∧ a.removed ≠ some none := by
    rw [hmade]
    simp [settledPasses]
  refine ⟨.ofRun rfl hs, Machine.Course.fair_ofRun rfl hs (not_enabled_of_settled hdone), 4, ?_, ?_⟩
  · show ((rosterLanes.run init (sharedPass.take 4)).getD init).calls.map (·.pass) = [0, 1, 1]
    decide +kernel
  · exact passes_exclusive_and_fresh.2 _ (Machine.Course.fair_ofRun rfl hs (not_enabled_of_settled hdone)) 4

end Canari.Graine.RosterLanes
