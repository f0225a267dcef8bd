/-
  Canari.Lib.Calls — code that does nothing but call operations and decide on their answers.

  `Calls` is such code with its calls left open. When each operation is known to come back under
  a condition, with an answer that is known too, the code comes back exactly when the conditions
  of the calls it makes hold: `safe_run_iff`.
-/

import Canari.Lib.Usize

namespace Canari.Lib.Usize

/-- The code returns, with no panic and no overflow. -/
def Safe {α : Type} (run : Nat → Run α) : Prop := ∃ fuel r, run fuel = pure r

inductive Calls (Op : Type) (Answer : Op → Type) (α : Type) where
  | ret (a : α)
  | call (op : Op) (next : Answer op → Calls Op Answer α)

namespace Calls

variable {Op : Type} {Answer : Op → Type} {α β : Type}

def bind (p : Calls Op Answer α) (f : α → Calls Op Answer β) : Calls Op Answer β :=
  match p with
  | .ret a => f a
  | .call op next => .call op fun answer => (next answer).bind f

instance : Monad (Calls Op Answer) where
  pure := .ret
  bind := bind

def perform (op : Op) : Calls Op Answer (Answer op) := .call op .ret

def run (exec : (op : Op) → Nat → Run (Answer op)) (fuel : Nat) : Calls Op Answer α → Run α
  | .ret a => pure a
  | .call op next => exec op fuel >>= fun answer => (next answer).run exec fuel

theorem run_bind (exec : (op : Op) → Nat → Run (Answer op)) (fuel : Nat) (p : Calls Op Answer α)
    (f : α → Calls Op Answer β) :
    (p >>= f).run exec fuel = p.run exec fuel >>= fun a => (f a).run exec fuel := by
  induction p with
  | ret a => rfl
  | call op next ih =>
    have hnext : ∀ answer, ((next answer).bind f).run exec fuel = (next answer).run exec fuel >>= fun a =>
      (f a).run exec fuel := ih
    show (exec op fuel >>= fun answer => ((next answer).bind f).run exec fuel) =
      (exec op fuel >>= fun answer => (next answer).run exec fuel) >>= _
    rw [Run.bind_assoc]
    simp only [hnext]

def AllGood (good : Op → Prop) (answer : (op : Op) → Answer op) : Calls Op Answer α → Prop
  | .ret _ => True
  | .call op next => good op ∧ (next (answer op)).AllGood good answer

structure Known (exec : (op : Op) → Nat → Run (Answer op)) (good : Op → Prop)
    (answer : (op : Op) → Answer op) : Prop where
  returned : ∀ {op fuel r}, exec op fuel = pure r → good op ∧ r = answer op
  returns : ∀ {op}, good op → ∃ enough, ∀ fuel, enough ≤ fuel → exec op fuel = pure (answer op)

variable {exec : (op : Op) → Nat → Run (Answer op)} {good : Op → Prop} {answer : (op : Op) → Answer op}

theorem allGood_of_run (hk : Known exec good answer) {p : Calls Op Answer α} {fuel : Nat} {r : α}
    (h : p.run exec fuel = pure r) :
    p.AllGood good answer := by
  induction p with
  | ret a => exact trivial
  | call op next ih =>
    obtain ⟨a, ha, hr⟩ := Run.bind_eq_pure.mp h
    obtain ⟨hg, rfl⟩ := hk.returned ha
    exact ⟨hg, ih _ hr⟩

theorem run_of_allGood (hk : Known exec good answer) {p : Calls Op Answer α} (h : p.AllGood good answer) :
    ∃ enough r, ∀ fuel, enough ≤ fuel → p.run exec fuel = pure r := by
  induction p with
  | ret a => exact ⟨0, a, fun _ _ => rfl⟩
  | call op next ih =>
    obtain ⟨n, hn⟩ := hk.returns h.1
    obtain ⟨m, r, hm⟩ := ih _ h.2
    refine ⟨max n m, r, fun fuel hf => ?_⟩
    rw [run, hn fuel (by omega)]
    exact hm fuel (by omega)

theorem safe_run_iff (hk : Known exec good answer) (p : Calls Op Answer α) : Safe (fun fuel => p.run exec fuel) ↔
    p.AllGood good answer := by
  constructor
  · rintro ⟨fuel, r, h⟩
    exact allGood_of_run hk h
  · intro h
    obtain ⟨n, r, hn⟩ := run_of_allGood hk h
    exact ⟨n, r, hn n (Nat.le_refl n)⟩

end Calls

end Canari.Lib.Usize
