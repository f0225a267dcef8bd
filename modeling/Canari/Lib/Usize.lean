/-
  Canari.Lib.Usize — code that computes positions of a byte slice in machine words.

  A target has 32-bit or 64-bit positions, and checks additions or lets them wrap. A run of code
  returns, panics (an index out of bounds, a checked addition that overflows) or is still going
  when its fuel is out, and remembers whether an addition overflowed. `pure` is a run that
  returned with no overflow; `bind_eq_pure` takes such a run apart.
-/

import Canari.Lib.Wire

namespace Canari.Lib.Usize

inductive Width where
  | bits32
  | bits64

structure Target where
  width : Width
  /-- Overflow checks are on. -/
  checked : Bool

def Target.limit (t : Target) : Nat :=
  match t.width with
  | .bits32 => 2 ^ 32
  | .bits64 => 2 ^ 64

/-- `len as usize`. -/
def Target.usizeOf (t : Target) (n : UInt64) : Nat := n.toNat % t.limit

inductive Out (α : Type) where
  | returned (a : α)
  | panicked
  | outOfFuel
  deriving DecidableEq

structure Run (α : Type) where
  out : Out α
  overflowed : Bool

namespace Run

variable {α β : Type}

def panic : Run α := ⟨.panicked, false⟩

def exhausted : Run α := ⟨.outOfFuel, false⟩

def bind (x : Run α) (f : α → Run β) : Run β :=
  match x.out with
  | .returned a => ⟨(f a).out, x.overflowed || (f a).overflowed⟩
  | .panicked => ⟨.panicked, x.overflowed⟩
  | .outOfFuel => ⟨.outOfFuel, x.overflowed⟩

instance : Monad Run where
  pure a := ⟨.returned a, false⟩
  bind := bind

theorem pure_def (a : α) : (pure a : Run α) = ⟨.returned a, false⟩ := rfl

@[simp] theorem pure_bind (a : α) (f : α → Run β) : (pure a >>= f) = f a := rfl

theorem bind_assoc {γ : Type} (x : Run α) (f : α → Run β)
    (g : β → Run γ) : (x >>= f) >>= g = x >>= fun a => f a >>= g := by
  obtain ⟨out, overflowed⟩ := x
  cases out with
  | panicked => rfl
  | outOfFuel => rfl
  | returned a =>
    show Run.bind ⟨(f a).out, overflowed || (f a).overflowed⟩ g = Run.mk (Run.bind (f a) g).out
      (overflowed || (Run.bind (f a) g).overflowed)
    cases hf : (f a).out <;> simp [Run.bind, hf, Bool.or_assoc]

theorem bind_eq_pure {x : Run α} {f : α → Run β} {b : β} : (x >>= f) = pure b ↔ ∃ a, x = pure a ∧ f a = pure b := by
  constructor
  · intro h
    obtain ⟨out, overflowed⟩ := x
    cases out with
    | returned a =>
      obtain ⟨h1, h2⟩ := Run.mk.inj h
      simp only [Bool.or_eq_false_iff] at h2
      obtain ⟨rfl, h3⟩ := h2
      refine ⟨a, rfl, ?_⟩
      cases hf : f a with
      | mk out' overflowed' =>
        rw [hf] at h1 h3
        rw [pure_def, ← h1, ← h3]
    | panicked => cases h
    | outOfFuel => cases h
  · rintro ⟨a, rfl, h⟩
    exact h

theorem pure_inj {a b : α} (h : (pure a : Run α) = pure b) : a = b := Out.returned.inj (Run.mk.inj h).1

end Run

def Target.add (t : Target) (x y : Nat) : Run Nat :=
  if x + y < t.limit then pure (x + y) else if t.checked then ⟨.panicked, true⟩ else
    ⟨.returned ((x + y) % t.limit), true⟩

theorem Target.add_of_lt {t : Target} {x y : Nat} (h : x + y < t.limit) : t.add x y = pure (x + y) := if_pos h

theorem Target.add_eq_pure {t : Target} {x y z : Nat} : t.add x y = pure z ↔ x + y < t.limit ∧ z = x + y := by
  unfold Target.add
  split
  · rename_i h
    exact ⟨fun e => ⟨h, (Run.pure_inj e).symm⟩, fun e => by rw [e.2]⟩
  · rename_i h
    refine ⟨fun e => ?_, fun e => absurd e.1 h⟩
    split at e
    · cases e
    · cases e

structure Slice (t : Target) where
  bytes : Bytes
  fits : bytes.length < t.limit / 2
  deriving DecidableEq

namespace Slice

variable {t : Target}

variable (s : Slice t)

def length : Nat := s.bytes.length

/-- `bytes[i]`. -/
def index (i : Nat) : Run UInt8 :=
  match s.bytes[i]? with
  | some b => pure b
  | none => .panic

/-- The bytes from `i` up to `j`. -/
def part (i j : Nat) : Slice t where
  bytes := (s.bytes.drop i).take (j - i)
  fits := by
    have := s.fits
    rw [List.length_take, List.length_drop]
    omega

/-- `bytes[i..j]`. -/
def range (i j : Nat) : Run (Slice t) := if i ≤ j ∧ j ≤ s.length then pure (s.part i j) else .panic

theorem index_eq {i : Nat} {b : UInt8} (h : s.bytes[i]? = some b) : s.index i = pure b := by
  unfold index
  rw [h]

theorem add_lt {i k : Nat} (hi : i ≤ s.length) (hk : k ≤ 8) : i + k < t.limit := by
  have := s.fits
  have h : 2 ^ 32 ≤ t.limit := by
    unfold Target.limit
    split <;> decide
  unfold length at hi
  omega

end Slice

end Canari.Lib.Usize
