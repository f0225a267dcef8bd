/-
  Canari.Lib.Fairness — courses of a state machine that go on for ever.

  A course is a state and at most one event at every instant. A job is enabled where the machine
  can take an event that does it; a course is fair to its jobs when none of them is enabled from
  some instant on for ever without being done. `Leads P Q` says that `P` at some instant is
  followed by `Q`; a job that is enabled while `P` holds, where `P` stays until `Q` does, and that
  brings `Q` about leads from `P` to `Q` (`leads_of_job`), and leads compose. A run that ends
  where no job is enabled is a fair course (`ofRun`, `fair_ofRun`).
-/

import Canari.Lib.Machine
import Mathlib.Order.Nat

namespace Canari.Lib.Machine

variable {σ ε ι : Type} (M : Machine σ ε)

structure Course where
  state : Nat → σ
  event : Nat → Option ε
  start : M.init (state 0)
  next : ∀ t, match event t with
    | none => state (t + 1) = state t
    | some e => M.step (state t) e = some (state (t + 1))

def Stable (P : σ → Prop) : Prop := ∀ s e s', M.Reach s → P s → M.step s e = some s' → P s'

def Unless (P Q : σ → Prop) : Prop := ∀ s e s', M.Reach s → P s → M.step s e = some s' → P s' ∨ Q s'

/-- The machine can take an event that does the job. -/
def Enabled (does : ι → ε → Prop) (j : ι) (s : σ) : Prop := ∃ e s', does j e ∧ M.step s e = some s'

variable {M}

namespace Course

/-- A job that is enabled from some instant on is done at one of these instants. -/
def Fair (c : M.Course) (does : ι → ε → Prop) : Prop :=
  ∀ t j, (∀ u, t ≤ u → M.Enabled does j (c.state u)) → ∃ u e, t ≤ u ∧ c.event u = some e ∧ does j e

def Leads (c : M.Course) (P Q : σ → Prop) : Prop := ∀ t, P (c.state t) → ∃ t', t ≤ t' ∧ Q (c.state t')

variable {c : M.Course} {P Q R : σ → Prop}

theorem step_of_event {t : Nat} {e : ε} (h : c.event t = some e) : M.step (c.state t) e = some (c.state (t + 1)) := by
  have hn := c.next t
  rw [h] at hn
  exact hn

theorem reach (c : M.Course) (t : Nat) : M.Reach (c.state t) := by
  induction t with
  | zero => exact .init c.start
  | succ t ih =>
    have hn := c.next t
    cases he : c.event t with
    | none => rw [he] at hn; rw [hn]; exact ih
    | some e => exact .step e ih (step_of_event he)

theorem stable (h : M.Stable P) {t t' : Nat} (hle : t ≤ t') (hp : P (c.state t)) : P (c.state t') := by
  induction t', hle using Nat.le_induction with
  | base => exact hp
  | succ t' _ ih =>
    have hn := c.next t'
    cases he : c.event t' with
    | none => rw [he] at hn; rw [hn]; exact ih
    | some e => exact h _ e _ (c.reach t') ih (step_of_event he)

theorem Leads.trans (h : c.Leads P Q) (h' : c.Leads Q R) : c.Leads P R := by
  intro t hp
  obtain ⟨u, hu, hq⟩ := h t hp
  obtain ⟨v, hv, hr⟩ := h' u hq
  exact ⟨v, hu.trans hv, hr⟩

/-- What stays true meanwhile may be kept. -/
theorem Leads.keep (h : c.Leads P Q) (hs : M.Stable R) : c.Leads (fun s => P s ∧ R s) (fun s => Q s ∧ R s) := by
  intro t hp
  obtain ⟨u, hu, hq⟩ := h t hp.1
  exact ⟨u, hu, hq, stable hs hu hp.2⟩

theorem leads_of_job {does : ι → ε → Prop} (hf : c.Fair does) (j : ι) (hu : M.Unless P Q)
    (hd : ∀ s, M.Reach s → P s → M.Enabled does j s)
    (hq : ∀ s e s', M.Reach s → does j e → M.step s e = some s' → Q s') : c.Leads P Q := by
  intro t hp
  by_contra hno
  -- without `Q`, `P` holds from then on and the job stays enabled
  have hkeep : ∀ u, t ≤ u → P (c.state u) := by
    intro u hle
    induction u, hle using Nat.le_induction with
    | base => exact hp
    | succ u hle ih =>
      have hn := c.next u
      cases he : c.event u with
      | none => rw [he] at hn; rw [hn]; exact ih
      | some e =>
        rcases hu _ e _ (c.reach u) ih (step_of_event he) with h | h
        · exact h
        · exact absurd ⟨u + 1, by omega, h⟩ hno
  obtain ⟨u, e, hle, he, hj⟩ := hf t j fun u hle => hd _ (c.reach u) (hkeep u hle)
  exact hno ⟨u + 1, by omega, hq _ e _ (c.reach u) hj (step_of_event he)⟩

/-! ## A run as a course -/

section OfRun

variable {s s' : σ} {es : List ε} (h0 : M.init s) (hr : M.run s es = some s')

theorem run_concat (es : List ε) (e : ε) (s : σ) : M.run s (es ++ [e]) = (M.run s es).bind (M.step · e) := by
  induction es generalizing s with
  | nil => simp [run]
  | cons e' es ih => simp [run, ih, Option.bind_assoc]

theorem run_take (hr : M.run s es = some s') (t : Nat) : ∃ u, M.run s (es.take t) = some u := by
  induction es generalizing s t with
  | nil => exact ⟨s, by simp [run]⟩
  | cons e es ih =>
    cases t with
    | zero => exact ⟨s, by simp [run]⟩
    | succ t =>
      obtain ⟨s₁, h₁, hr₁⟩ := Option.bind_eq_some_iff.mp hr
      obtain ⟨u, hu⟩ := ih hr₁ t
      exact ⟨u, by simp [run, h₁, hu]⟩

/-- The run, and nothing after it. -/
def ofRun : M.Course where
  state t := (M.run s (es.take t)).getD s
  event t := es[t]?
  start := by simpa [run] using h0
  next := by
    intro t
    cases he : es[t]? with
    | none =>
      have hlen : es.length ≤ t := List.getElem?_eq_none_iff.mp he
      simp [List.take_of_length_le hlen, List.take_of_length_le (Nat.le_succ_of_le hlen)]
    | some e =>
      obtain ⟨u, hu⟩ := run_take hr t
      obtain ⟨v, hv⟩ := run_take hr (t + 1)
      have htake : es.take (t + 1) = es.take t ++ [e] := by rw [List.take_add_one, he]; rfl
      have hstep : M.step u e = some v := by
        rw [htake, run_concat, hu] at hv
        exact hv
      simp only [hu, hv, Option.getD_some, hstep]

theorem ofRun_end {t : Nat} (h : es.length ≤ t) : (ofRun h0 hr).state t = s' := by
  simp [ofRun, List.take_of_length_le h, hr]

theorem fair_ofRun {does : ι → ε → Prop} (h : ∀ j, ¬ M.Enabled does j s') : (ofRun h0 hr).Fair does := by
  intro t j hen
  have hlast := hen (max t es.length) (le_max_left _ _)
  rw [ofRun_end h0 hr (le_max_right _ _)] at hlast
  exact absurd hlast (h j)

end OfRun

end Course

end Canari.Lib.Machine
