/-
  Canari.Lib.Draws — numbers drawn at random from [0, 1), and what is made of them: an index
  below a bound, `Math.floor(rng() * n)`, and a shuffled list.

  A draw is a double, `mant / 2 ^ exp` with at most 53 bits in `mant`. The product is rounded to
  53 bits, half to even, before it is floored. The rounding never reaches the bound (`pick_lt`):
  it adds at most half a unit in the last place, and the product is further than that below it.

  A generator is the stream of its draws; what uses it says how many it took.
-/

import Mathlib.Algebra.Order.Ring.Nat
import Mathlib.Data.List.Basic
import Mathlib.Data.Nat.Log

namespace Canari.Lib.Draws

structure Draw where
  mant : Nat
  exp : Nat
  bits : mant < 2 ^ 53
  below : mant < 2 ^ exp

abbrev Generator := Nat → Draw

def Draw.le (a b : Draw) : Bool := a.mant * 2 ^ b.exp ≤ b.mant * 2 ^ a.exp

/-! ## An index below a bound -/

def round53 (x : Nat) : Nat :=
  let k := Nat.log2 x - 52
  let q := x / 2 ^ k
  let r := x % 2 ^ k
  if 2 * r > 2 ^ k ∨ (2 * r = 2 ^ k ∧ q % 2 = 1) then (q + 1) * 2 ^ k else q * 2 ^ k

/-- `Math.floor(rng() * n)`. -/
def pick (d : Draw) (n : Nat) : Nat := round53 (d.mant * n) / 2 ^ d.exp

theorem round53_le (x : Nat) : 2 * round53 x ≤ 2 * x + 2 ^ (Nat.log2 x - 52) := by
  have hx := Nat.div_add_mod x (2 ^ (Nat.log2 x - 52))
  unfold round53
  dsimp only
  generalize hP : 2 ^ (Nat.log2 x - 52) = P at hx ⊢
  generalize x / P = q at hx ⊢
  split
  · rw [Nat.add_mul, Nat.mul_comm q P]
    omega
  · rw [Nat.mul_comm q P]
    omega

theorem round53_of_small {x : Nat} (h : Nat.log2 x ≤ 52) : round53 x = x := by
  have hk : Nat.log2 x - 52 = 0 := by omega
  simp [round53, hk, Nat.mod_one]

theorem pick_lt (d : Draw) {n : Nat} (hn : 0 < n) : pick d n < n := by
  rw [pick, Nat.div_lt_iff_lt_mul (Nat.two_pow_pos _)]
  have hbelow : d.mant * n + n ≤ n * 2 ^ d.exp := by
    calc d.mant * n + n = (d.mant + 1) * n := (Nat.succ_mul _ _).symm
      _ ≤ 2 ^ d.exp * n := Nat.mul_le_mul_right n d.below
      _ = n * 2 ^ d.exp := Nat.mul_comm _ _
  by_cases hsmall : Nat.log2 (d.mant * n) ≤ 52
  · rw [round53_of_small hsmall]
    omega
  · -- the product has more than 53 bits, so `n` is more than half a unit in its last place
    have hne : d.mant * n ≠ 0 := by
      intro h0
      rw [h0] at hsmall
      exact hsmall (by decide)
    have hlow : 2 ^ Nat.log2 (d.mant * n) ≤ d.mant * n := Nat.log2_self_le hne
    have hpow : 2 ^ Nat.log2 (d.mant * n) = 2 ^ 52 * 2 ^ (Nat.log2 (d.mant * n) - 52) := by
      rw [← pow_add]
      congr 1
      omega
    have hround := round53_le (d.mant * n)
    have hlt : d.mant * n < 2 ^ 53 * n := (Nat.mul_lt_mul_right hn).mpr d.bits
    omega

/-! ## Shuffles -/

variable {α : Type}

/-- `tmp = arr[i]; arr[i] = arr[j]; arr[j] = tmp` -/
def swap (l : List α) (i j : Nat) : List α :=
  match l[i]?, l[j]? with
  | some a, some b => (l.set i b).set j a
  | _, _ => l

/-- The loop of `shuffleInPlace`, from index `i` down; `next` is the next draw. -/
def shuffleLoop (draws : Generator) : Nat → List α → Nat → List α × Nat
  | 0, l, next => (l, next)
  | i + 1, l, next => shuffleLoop draws i (swap l (i + 1) (pick (draws next) (i + 2))) (next + 1)

def shuffleInPlace (draws : Generator) (l : List α)
    (next : Nat) : List α × Nat := shuffleLoop draws (l.length - 1) l next

theorem swap_perm (l : List α) (i j : Nat) : (swap l i j).Perm l := by
  unfold swap
  split
  · rename_i a b ha hb
    obtain ⟨hi, rfl⟩ := List.getElem?_eq_some_iff.mp ha
    obtain ⟨hj, rfl⟩ := List.getElem?_eq_some_iff.mp hb
    exact List.set_set_perm hi hj
  · exact List.Perm.refl l

theorem shuffleLoop_perm (draws : Generator) (i : Nat) : ∀ (l : List α)
    (next : Nat), (shuffleLoop draws i l next).1.Perm l := by
  induction i with
  | zero => intro l next; exact List.Perm.refl l
  | succ i ih => intro l next; exact (ih _ _).trans (swap_perm l _ _)

theorem shuffleInPlace_perm (draws : Generator) (l : List α) (next : Nat) : (shuffleInPlace draws l next).1.Perm l :=
  shuffleLoop_perm draws _ l next

end Canari.Lib.Draws
