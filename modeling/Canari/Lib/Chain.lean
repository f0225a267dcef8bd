/-
  Canari.Lib.Chain — one promise chain per key: `previous.then(fn, fn)` on the key's
  last promise, which becomes the last one, and a clean-up that drops the key's entry
  only when it is still its own.

  Links are numbered in the order they are pushed. A link may start once the link it
  was chained on has settled, or at once when the key had no entry; it is chained on
  settlement, so a failed link lets the next one start like any other. `reset` is the
  loss of the whole realm: nothing that was running or waiting goes on.

  `exclusive`: at most one link of a key is running.
-/

import Canari.Lib.Machine

namespace Canari.Lib.Chain

inductive Phase where
  | queued
  | running
  | settled
  deriving DecidableEq

structure Link (K : Type) where
  key : K
  prev : Option Nat
  phase : Phase

structure St (K : Type) where
  tail : K → Option Nat
  links : Nat → Option (Link K)
  next : Nat

set_option linter.unusedSectionVars false

variable {K : Type} [DecidableEq K]

def init : St K := ⟨fun _ => none, fun _ => none, 0⟩

def settledAt (c : St K) (i : Nat) : Bool := (c.links i).any (·.phase == .settled)

def push (c : St K) (k : K) : St K :=
  { tail := Function.update c.tail k (some c.next)
    links := Function.update c.links c.next (some ⟨k, c.tail k, .queued⟩)
    next := c.next + 1 }

def start (c : St K) (i : Nat) : Option (St K) :=
  match c.links i with
  | some ⟨k, prev, .queued⟩ =>
    if prev.all (settledAt c) then
      some { c with links := Function.update c.links i (some ⟨k, prev, .running⟩) } else none
  | _ => none

def settle (c : St K) (i : Nat) : Option (St K) :=
  match c.links i with
  | some ⟨k, prev, .running⟩ => some { c with links := Function.update c.links i (some ⟨k, prev, .settled⟩) }
  | _ => none

/-- The clean-up after link `i` settled: only the tail may drop the entry. -/
def clean (c : St K) (i : Nat) : Option (St K) :=
  match c.links i with
  | some ⟨k, _, .settled⟩ => some { c with tail := if c.tail k = some i then Function.update c.tail k none else c.tail }
  | _ => none

def reset (c : St K) : St K :=
  { c with tail := fun _ => none, links := fun i => (c.links i).map fun l => { l with phase := .settled } }

variable {c c' : St K} {i : Nat}

theorem start_cases (h : start c i = some c') : ∃ k prev, c.links i = some ⟨k, prev, .queued⟩ ∧
    prev.all (settledAt c) = true ∧ c' = { c with links := Function.update c.links i (some ⟨k, prev, .running⟩) } := by
  unfold start at h
  split at h
  · rename_i k prev hi
    split at h
    · rename_i hp; cases h
      exact ⟨k, prev, hi, hp, rfl⟩
    · cases h
  · cases h

theorem settle_cases (h : settle c i = some c') : ∃ k prev, c.links i = some ⟨k, prev, .running⟩ ∧
    c' = { c with links := Function.update c.links i (some ⟨k, prev, .settled⟩) } := by
  unfold settle at h
  split at h
  · rename_i k prev hi; cases h
    exact ⟨k, prev, hi, rfl⟩
  · cases h

theorem clean_cases (h : clean c i = some c') : ∃ k prev, c.links i = some ⟨k, prev, .settled⟩ ∧
    c' = { c with tail := if c.tail k = some i then Function.update c.tail k none else c.tail } := by
  unfold clean at h
  split at h
  · rename_i k prev hi; cases h
    exact ⟨k, prev, hi, rfl⟩
  · cases h

/-- Every earlier link of `i`'s key has settled. -/
def First (c : St K) (k : K) (i : Nat) : Prop := ∀ j l, c.links j = some l → l.key = k → j < i → l.phase = .settled

structure Inv (c : St K) : Prop where
  below : ∀ i l, c.links i = some l → i < c.next
  begun : ∀ i l, c.links i = some l → l.phase ≠ .queued → First c l.key i
  /-- What a link is chained on: the last link of its key, or every earlier one settled. -/
  chained : ∀ i l, c.links i = some l → match l.prev with
    | some p => p < i ∧ (∃ m, c.links p = some m ∧ m.key = l.key) ∧ ∀ j m, c.links j = some m → m.key = l.key → j < i → j ≤ p
    | none => First c l.key i
  last : ∀ k t, c.tail k = some t → (∃ l, c.links t = some l ∧ l.key = k) ∧ ∀ j l, c.links j = some l →
    l.key = k → j ≤ t
  empty : ∀ k, c.tail k = none → ∀ j l, c.links j = some l → l.key = k → l.phase = .settled

theorem inv_init : Inv (init : St K) := by
  refine ⟨?_, ?_, ?_, ?_, ?_⟩ <;> simp [init]

theorem inv_push (h : Inv c) (k : K) : Inv (push c k) := by
  have link : ∀ i l, (push c k).links i = some l ↔
    (i = c.next ∧ ⟨k, c.tail k, .queued⟩ = l) ∨ (i ≠ c.next ∧ c.links i = some l) :=
    fun i l => update_eq_some_iff
  have old : ∀ i l, c.links i = some l → i ≠ c.next := by
    intro i l hl
    have := h.below i l hl
    omega
  have first : ∀ k' i, i ≤ c.next → First c k' i → First (push c k) k' i := by
    intro k' i hi hf j l hj hk hlt
    rcases (link j l).mp hj with ⟨rfl, _⟩ | ⟨_, hj⟩
    · omega
    · exact hf j l hj hk hlt
  refine ⟨fun i l hl => ?_, fun i l hl hp => ?_, fun i l hl => ?_, fun k' t ht => ?_, fun k' ht => ?_⟩
  · show i < c.next + 1
    rcases (link i l).mp hl with ⟨rfl, _⟩ | ⟨_, hl⟩
    · omega
    · have := h.below i l hl; omega
  · rcases (link i l).mp hl with ⟨_, rfl⟩ | ⟨_, hl⟩
    · exact absurd rfl hp
    · exact first l.key i (Nat.le_of_lt (h.below i l hl)) (h.begun i l hl hp)
  · rcases (link i l).mp hl with ⟨rfl, rfl⟩ | ⟨hne, hl⟩
    · cases ht : c.tail k with
      | none =>
        refine first k c.next (Nat.le_refl _) fun j m hj hk _ => ?_
        exact h.empty k ht j m hj hk
      | some t =>
        obtain ⟨⟨m, hm, hk⟩, hmax⟩ := h.last k t ht
        refine ⟨h.below t m hm, ⟨m, (link t m).mpr (Or.inr ⟨old t m hm, hm⟩), hk⟩, fun j m' hj hk' hlt => ?_⟩
        rcases (link j m').mp hj with ⟨rfl, _⟩ | ⟨_, hj⟩
        · omega
        · exact hmax j m' hj hk'
    · have hlt := h.below i l hl
      have hch := h.chained i l hl
      cases hp : l.prev with
      | none =>
        rw [hp] at hch
        exact first l.key i (Nat.le_of_lt hlt) hch
      | some p =>
        rw [hp] at hch
        obtain ⟨hpi, ⟨m, hm, hk⟩, hmax⟩ := hch
        refine ⟨hpi, ⟨m, (link p m).mpr (Or.inr ⟨old p m hm, hm⟩), hk⟩, fun j m' hj hk' hji => ?_⟩
        rcases (link j m').mp hj with ⟨rfl, _⟩ | ⟨_, hj⟩
        · omega
        · exact hmax j m' hj hk' hji
  · have ht' := (update_eq_some_iff (f := c.tail)).mp ht
    rcases ht' with ⟨rfl, rfl⟩ | ⟨hne, ht'⟩
    · refine ⟨⟨_, (link _ _).mpr (Or.inl ⟨rfl, rfl⟩), rfl⟩, fun j l hj _ => ?_⟩
      rcases (link j l).mp hj with ⟨rfl, _⟩ | ⟨_, hj⟩
      · exact Nat.le_refl _
      · exact Nat.le_of_lt (h.below j l hj)
    · obtain ⟨⟨m, hm, hk⟩, hmax⟩ := h.last k' t ht'
      refine ⟨⟨m, (link t m).mpr (Or.inr ⟨old t m hm, hm⟩), hk⟩, fun j l hj hkj => ?_⟩
      rcases (link j l).mp hj with ⟨_, rfl⟩ | ⟨_, hj⟩
      · exact absurd hkj.symm hne
      · exact hmax j l hj hkj
  · intro j l hj hk
    by_cases e : k' = k
    · subst e; simp [push] at ht
    · have ht' : c.tail k' = none := by simpa [push, e] using ht
      rcases (link j l).mp hj with ⟨_, rfl⟩ | ⟨_, hj⟩
      · exact absurd hk.symm e
      · exact h.empty k' ht' j l hj hk

/-- A link going from `p` to `q` without unsettling. -/
theorem inv_phase (h : Inv c) {k : K} {prev : Option Nat} {p q : Phase}
    (hi : c.links i = some ⟨k, prev, p⟩) (hp : p ≠ .settled) (hq : q ≠ .queued) (hf : First c k i) :
    Inv { c with links := Function.update c.links i (some ⟨k, prev, q⟩) } := by
  have back : ∀ j l, Function.update c.links i (some ⟨k, prev, q⟩) j = some l →
      ∃ m, c.links j = some m ∧ m.key = l.key ∧ m.prev = l.prev ∧ (m.phase = .settled → l.phase = .settled) ∧
        (l.phase = .queued → m.phase = .queued) ∧ (j ≠ i → m = l) := by
    intro j l hj
    rcases update_eq_some_iff.mp hj with ⟨rfl, rfl⟩ | ⟨hne, hj⟩
    · exact ⟨_, hi, rfl, rfl, fun e => absurd e hp, fun e => absurd e hq, fun e => absurd rfl e⟩
    · exact ⟨l, hj, rfl, rfl, id, id, fun _ => rfl⟩
  have keep : ∀ j m, c.links j = some m → ∃ l, Function.update c.links i (some ⟨k, prev, q⟩) j = some l ∧
    l.key = m.key := by
    intro j m hj
    by_cases e : j = i
    · subst e
      rw [hi] at hj; cases hj
      exact ⟨_, Function.update_self .., rfl⟩
    · exact ⟨m, by simpa [e] using hj, rfl⟩
  have first : ∀ k' j, First c k' j → First { c with links := Function.update c.links i (some ⟨k, prev, q⟩) } k' j := by
    intro k' j hf j' l hj' hk hlt
    obtain ⟨m, hm, hmk, _, hs, _⟩ := back j' l hj'
    exact hs (hf j' m hm (hmk.trans hk) hlt)
  refine ⟨fun j l hj => ?_, fun j l hj hn => ?_, fun j l hj => ?_, fun k' t ht => ?_, fun k' ht j l hj hk => ?_⟩
  · obtain ⟨m, hm, _⟩ := back j l hj
    exact h.below j m hm
  · obtain ⟨m, hm, hmk, _, _, _, heq⟩ := back j l hj
    rw [← hmk]
    apply first
    by_cases e : j = i
    · subst e
      rw [hi] at hm; cases hm
      exact hf
    · rw [← heq e] at hn
      exact h.begun j m hm hn
  · obtain ⟨m, hm, hmk, hmp, _⟩ := back j l hj
    have hch := h.chained j m hm
    rw [hmp, hmk] at hch
    cases hpr : l.prev with
    | none => rw [hpr] at hch; exact first _ _ hch
    | some pr =>
      rw [hpr] at hch
      obtain ⟨hlt, ⟨m', hm', hk'⟩, hmax⟩ := hch
      obtain ⟨l', hl', hlk⟩ := keep pr m' hm'
      refine ⟨hlt, ⟨l', hl', hlk.trans hk'⟩, fun j' l'' hj' hk'' hlt' => ?_⟩
      obtain ⟨m'', hm'', hk3, _⟩ := back j' l'' hj'
      exact hmax j' m'' hm'' (hk3.trans hk'') hlt'
  · obtain ⟨⟨m, hm, hk⟩, hmax⟩ := h.last k' t ht
    obtain ⟨l, hl, hlk⟩ := keep t m hm
    refine ⟨⟨l, hl, hlk.trans hk⟩, fun j l' hj hk' => ?_⟩
    obtain ⟨m', hm', hk3, _⟩ := back j l' hj
    exact hmax j m' hm' (hk3.trans hk')
  · obtain ⟨m, hm, hmk, _, hs, _⟩ := back j l hj
    exact hs (h.empty k' ht j m hm (hmk.trans hk))

theorem first_of_prev (h : Inv c) {k : K} {prev : Option Nat} {p : Phase}
    (hi : c.links i = some ⟨k, prev, p⟩) (hs : prev.all (settledAt c) = true) : First c k i := by
  have hch := h.chained i _ hi
  cases prev with
  | none => exact hch
  | some pr =>
    obtain ⟨_, ⟨m, hm, hk⟩, hmax⟩ := hch
    have hset : m.phase = .settled := by simpa [settledAt, hm] using hs
    intro j l hj hkj hlt
    rcases Nat.lt_or_eq_of_le (hmax j l hj hkj hlt) with hjp | rfl
    · exact h.begun pr m hm (by simp [hset]) j l hj (hkj.trans hk.symm) hjp
    · rw [hm] at hj; cases hj
      exact hset

theorem inv_start (h : Inv c) (hs : start c i = some c') : Inv c' := by
  obtain ⟨k, prev, hi, hp, rfl⟩ := start_cases hs
  exact inv_phase h hi (by simp) (by simp) (first_of_prev h hi hp)

theorem inv_settle (h : Inv c) (hs : settle c i = some c') : Inv c' := by
  obtain ⟨k, prev, hi, rfl⟩ := settle_cases hs
  exact inv_phase h hi (by simp) (by simp) (h.begun i _ hi (by simp))

theorem inv_clean (h : Inv c) (hs : clean c i = some c') : Inv c' := by
  obtain ⟨k, prev, hi, rfl⟩ := clean_cases hs
  have hsub : ∀ k' t, (if c.tail k = some i then Function.update c.tail k none else c.tail) k' = some t →
    c.tail k' = some t := by
    intro k' t ht
    split at ht
    · exact (update_none_eq_some_iff.mp ht).2
    · exact ht
  refine ⟨h.below, h.begun, h.chained, fun k' t ht => h.last k' t (hsub k' t ht), fun k' ht j l hj hk => ?_⟩
  split at ht
  · rename_i htail
    by_cases e : k' = k
    · subst e
      -- the tail has settled, so everything pushed before it has
      rcases Nat.lt_or_eq_of_le ((h.last k' i htail).2 j l hj hk) with hlt | rfl
      · exact h.begun i _ hi (by simp) j l hj hk hlt
      · rw [hi] at hj; cases hj
        rfl
    · exact h.empty k' (by simpa [e] using ht) j l hj hk
  · exact h.empty k' ht j l hj hk

theorem inv_reset (h : Inv c) : Inv (reset c) := by
  have back : ∀ j l, (reset c).links j = some l → ∃ m, c.links j = some m ∧ m.key = l.key ∧ m.prev = l.prev ∧
    l.phase = .settled := by
    intro j l hj
    obtain ⟨m, hm, rfl⟩ := Option.map_eq_some_iff.mp hj
    exact ⟨m, hm, rfl, rfl, rfl⟩
  have first : ∀ k j, First (reset c) k j := by
    intro k j j' l hj' _ _
    obtain ⟨_, _, _, _, hs⟩ := back j' l hj'
    exact hs
  refine ⟨fun j l hj => ?_, fun j l _ _ => first l.key j, fun j l hj => ?_, fun k t ht => (by cases ht),
    fun k _ j l hj _ => ?_⟩
  · obtain ⟨m, hm, _⟩ := back j l hj
    exact h.below j m hm
  · obtain ⟨m, hm, hmk, hmp, _⟩ := back j l hj
    have hch := h.chained j m hm
    rw [hmp, hmk] at hch
    cases hpr : l.prev with
    | none => exact first _ _
    | some pr =>
      rw [hpr] at hch
      obtain ⟨hlt, ⟨m', hm', hk'⟩, hmax⟩ := hch
      refine ⟨hlt, ⟨{ m' with phase := .settled }, by simp [reset, hm'], hk'⟩, fun j' l'' hj' hk'' hlt' => ?_⟩
      obtain ⟨m'', hm'', hk3, _⟩ := back j' l'' hj'
      exact hmax j' m'' hm'' (hk3.trans hk'') hlt'
  · obtain ⟨_, _, _, _, hs⟩ := back j l hj
    exact hs

theorem exclusive (h : Inv c) {j : Nat} {l m : Link K} (hi : c.links i = some l) (hj : c.links j = some m)
    (hk : l.key = m.key) (hli : l.phase = .running) (hmj : m.phase = .running) : i = j := by
  rcases Nat.lt_trichotomy i j with hlt | heq | hlt
  · have := h.begun j m hj (by simp [hmj]) i l hi hk hlt
    rw [hli] at this; cases this
  · exact heq
  · have := h.begun i l hi (by simp [hli]) j m hj hk.symm hlt
    rw [hmj] at this; cases this

end Canari.Lib.Chain
