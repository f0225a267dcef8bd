/-
  Canari.Lib.Machine — runs of a state machine whose steps are partial.

  A machine has a set of initial states and a step function on events; `none` says
  the event cannot happen in that state. `Reach` is every state some run ends in;
  `ReachBy ok` keeps the runs whose every step meets `ok`, a condition on the state
  before the step and the event. An invariant is proved once per step and holds on
  every run (`Reach.invariant`, `ReachBy.invariant`); `reach_of_run` and
  `reachBy_of_run` turn a list of events that evaluates into a reachable state.
  `Since P Q` is about a log: `P` happened, and nothing that meets `Q` did after it.
-/

import Mathlib.Logic.Function.Basic

namespace Canari.Lib

structure Machine (σ ε : Type) where
  init : σ → Prop
  step : σ → ε → Option σ

namespace Machine

variable {σ ε : Type} (M : Machine σ ε)

inductive Reach : σ → Prop
  | init {s : σ} : M.init s → Reach s
  | step {s s' : σ} (e : ε) : Reach s → M.step s e = some s' → Reach s'

/-- The states of the runs whose steps all meet `ok`. -/
inductive ReachBy (ok : σ → ε → Prop) : σ → Prop
  | init {s : σ} : M.init s → ReachBy ok s
  | step {s s' : σ} (e : ε) : ReachBy ok s → ok s e → M.step s e = some s' → ReachBy ok s'

def run (s : σ) : List ε → Option σ
  | [] => some s
  | e :: es => (M.step s e).bind fun s' => run s' es

def runBy (ok : σ → ε → Bool) (s : σ) : List ε → Option σ
  | [] => some s
  | e :: es => if ok s e then (M.step s e).bind fun s' => runBy ok s' es else none

variable {M}

/-- What holds at the start and survives every step holds in every reachable state. -/
theorem Reach.invariant {I : σ → Prop} (h0 : ∀ s, M.init s → I s)
    (hs : ∀ s e s', I s → M.step s e = some s' → I s') {s : σ} (h : M.Reach s) : I s := by
  induction h with
  | init hi => exact h0 _ hi
  | step e _ he ih => exact hs _ e _ ih he

variable {ok : σ → ε → Prop}

/-- The same along the runs whose steps all meet `ok`. -/
theorem ReachBy.invariant {I : σ → Prop} (h0 : ∀ s, M.init s → I s)
    (hs : ∀ s e s', I s → ok s e → M.step s e = some s' → I s') {s : σ} (h : M.ReachBy ok s) : I s := by
  induction h with
  | init hi => exact h0 _ hi
  | step e _ ho he ih => exact hs _ e _ ih ho he

theorem ReachBy.reach {s : σ} (h : M.ReachBy ok s) : M.Reach s := by
  induction h with
  | init hi => exact .init hi
  | step e _ _ he ih => exact .step e ih he

variable (es : List ε)

variable {s s' : σ}

theorem reach_run (h : M.Reach s) (hr : M.run s es = some s') : M.Reach s' := by
  induction es generalizing s with
  | nil => cases hr; exact h
  | cons e es ih =>
    obtain ⟨t, ht, hr⟩ := Option.bind_eq_some_iff.mp hr
    exact ih (.step e h ht) hr

theorem reach_of_run (h0 : M.init s) (hr : M.run s es = some s') : M.Reach s' :=
  reach_run es (.init h0) hr

theorem reachBy_runBy {ok : σ → ε → Bool} (h : M.ReachBy (fun s e => ok s e = true) s)
    (hr : M.runBy ok s es = some s') : M.ReachBy (fun s e => ok s e = true) s' := by
  induction es generalizing s with
  | nil => cases hr; exact h
  | cons e es ih =>
    rw [runBy] at hr
    split at hr
    · rename_i ho
      obtain ⟨t, ht, hr⟩ := Option.bind_eq_some_iff.mp hr
      exact ih (.step e h ho ht) hr
    · cases hr

theorem reachBy_of_run {ok : σ → ε → Bool} (h0 : M.init s) (hr : M.runBy ok s es = some s') :
    M.ReachBy (fun s e => ok s e = true) s' :=
  reachBy_runBy es (.init h0) hr

theorem reachBy_of_all (hall : ∀ e ∈ es, ∀ s, ok s e) (h : M.ReachBy ok s)
    (hr : M.run s es = some s') : M.ReachBy ok s' := by
  induction es generalizing s with
  | nil => cases hr; exact h
  | cons e es ih =>
    obtain ⟨t, ht, hr⟩ := Option.bind_eq_some_iff.mp hr
    exact ih (fun e' he => hall e' (List.mem_cons_of_mem e he)) (.step e h (hall e List.mem_cons_self s) ht) hr

end Machine

/-! ## What a log says happened last -/

/-- Some entry meets `P`, and none behind it meets `Q`. -/
def Since {α : Type} (P Q : α → Prop) (log : List α) : Prop :=
  ∃ before a after, log = before ++ a :: after ∧ P a ∧ ∀ b ∈ after, ¬ Q b

theorem not_since_nil {α : Type} {P Q : α → Prop} : ¬ Since P Q [] := by
  rintro ⟨before, a, after, h, -⟩
  simp at h

theorem since_concat {α : Type} {P Q : α → Prop} {log : List α} {a : α} :
    Since P Q (log ++ [a]) ↔ P a ∨ (Since P Q log ∧ ¬ Q a) := by
  constructor
  · rintro ⟨before, x, after, h, hp, hq⟩
    rcases List.eq_nil_or_concat after with rfl | ⟨rest, y, rfl⟩
    · obtain ⟨-, rfl⟩ := List.append_singleton_inj.mp h
      exact .inl hp
    · have h' : log ++ [a] = (before ++ x :: rest) ++ [y] := by simpa using h
      obtain ⟨rfl, rfl⟩ := List.append_singleton_inj.mp h'
      right
      exact ⟨⟨before, x, rest, rfl, hp, fun b hb => hq b (by simp [hb])⟩, hq a (by simp)⟩
  · rintro (hp | ⟨⟨before, x, after, rfl, hp, hq⟩, ha⟩)
    · exact ⟨log, a, [], rfl, hp, by simp⟩
    · refine ⟨before, x, after ++ [a], by simp, hp, fun b hb => ?_⟩
      rcases List.mem_append.mp hb with hb | hb
      · exact hq b hb
      · obtain rfl := List.mem_singleton.mp hb
        exact ha

/-! ## Updating one key of a map -/

section Update

variable {α β : Type} [DecidableEq α]

variable {f : α → Option β}

theorem update_eq_some_iff {a b : α} {v w : β} :
    Function.update f a (some v) b = some w ↔ (b = a ∧ v = w) ∨ (b ≠ a ∧ f b = some w) := by
  by_cases e : b = a
  · subst e; simp
  · simp [e]

theorem update_none_eq_some_iff {a b : α} {w : β} :
    Function.update f a none b = some w ↔ b ≠ a ∧ f b = some w := by
  by_cases e : b = a
  · subst e; simp
  · simp [e]

theorem update_cases {a : α} {v : Option β} {P : β → Prop} (hv : ∀ w, v = some w → P w) :
    ∀ b w, Function.update f a v b = some w → f b = some w ∨ P w := by
  intro b w h
  by_cases e : b = a
  · subst e
    rw [Function.update_self] at h
    exact .inr (hv w h)
  · rw [Function.update_of_ne e] at h
    exact .inl h

end Update

end Canari.Lib
