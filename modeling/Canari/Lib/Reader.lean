/-
  Canari.Lib.Reader — readers that take a value off the front of their input, or throw.

  A grammar gives a value the bytes it is written as. `Reads r G` says that `r` follows `G` both ways: it
  takes off exactly such bytes, whatever stands behind them, and nothing else is accepted. `Throws P r`
  says which errors come out. Both pass through `bind`, so a reader made of fields is described by the
  description of each.
-/

import Canari.Lib.Wire

namespace Canari.Lib

variable {ε α β : Type}

def Reader (ε α : Type) : Type := Bytes → Except ε (α × Bytes)

namespace Reader

def fail (e : ε) : Reader ε α := fun _ => .error e

instance : Monad (Reader ε) where
  pure a := fun bytes => .ok (a, bytes)
  bind r f := fun bytes => match r bytes with
    | .ok (a, rest) => f a rest
    | .error e => .error e

/-- The reader takes off exactly the bytes a value is written as. -/
def Reads (r : Reader ε α) (G : Bytes → α → Prop) : Prop :=
  ∀ bytes a rest, r bytes = .ok (a, rest) ↔ ∃ w, G w a ∧ bytes = w ++ rest

def Then (G : Bytes → α → Prop) (H : α → Bytes → β → Prop) (w : Bytes)
    (b : β) : Prop := ∃ a u v, G u a ∧ H a v b ∧ w = u ++ v

def Throws (P : ε → Prop) (r : Reader ε α) : Prop := ∀ bytes e, r bytes = .error e → P e

variable {r : Reader ε α} {f : α → Reader ε β} {G G' : Bytes → α → Prop} {H : α → Bytes → β → Prop} {P : ε → Prop}

theorem bind_of_ok {bytes mid : Bytes} {a : α} (h : r bytes = .ok (a, mid)) : (r >>= f) bytes = f a mid := by
  show (match r bytes with | .ok (a, rest) => f a rest | .error e => .error e) = _
  rw [h]

theorem bind_of_error {bytes : Bytes} {e : ε} (h : r bytes = .error e) : (r >>= f) bytes = .error e := by
  show (match r bytes with | .ok (a, rest) => f a rest | .error e => .error e) = _
  rw [h]

theorem bind_eq_ok {bytes rest : Bytes}
    {b : β} : (r >>= f) bytes = .ok (b, rest) ↔ ∃ a mid, r bytes = .ok (a, mid) ∧ f a mid = .ok (b, rest) := by
  cases h : r bytes with
  | error e => simp [bind_of_error h]
  | ok p => simp [bind_of_ok h, Prod.ext_iff, eq_comm]

theorem bind_eq_error {bytes : Bytes} {e : ε} :
    (r >>= f) bytes = .error e ↔ r bytes = .error e ∨ ∃ a mid, r bytes = .ok (a, mid) ∧ f a mid = .error e := by
  cases h : r bytes with
  | error e' => simp [bind_of_error h]
  | ok p => simp [bind_of_ok h, Prod.ext_iff, eq_comm]

theorem Reads.bind (hr : Reads r G) (hf : ∀ a, Reads (f a) (H a)) : Reads (r >>= f) (Then G H) := by
  intro bytes b rest
  rw [bind_eq_ok]
  constructor
  · intro ⟨a, mid, hra, hfb⟩
    obtain ⟨u, hu, hbytes⟩ := (hr _ _ _).mp hra
    obtain ⟨v, hv, hmid⟩ := (hf a _ _ _).mp hfb
    exact ⟨u ++ v, ⟨a, u, v, hu, hv, rfl⟩, by rw [hbytes, hmid, List.append_assoc]⟩
  · intro ⟨w, ⟨a, u, v, hu, hv, hw⟩, hbytes⟩
    rw [hw, List.append_assoc] at hbytes
    exact ⟨a, v ++ rest, (hr _ _ _).mpr ⟨u, hu, hbytes⟩, (hf a _ _ _).mpr ⟨v, hv, rfl⟩⟩

theorem Reads.pure (a : α) : Reads (pure a : Reader ε α) fun w b => w = [] ∧ b = a := by
  intro bytes b rest
  show Except.ok (a, bytes) = .ok (b, rest) ↔ _
  simp [eq_comm]

theorem Reads.fail (e : ε) : Reads (fail e : Reader ε α) fun _ _ => False := by
  intro bytes a rest
  simp [Reader.fail]

/-- A check that throws. -/
theorem Reads.refuse {c : Prop} [Decidable c] (e : ε)
    (hr : Reads r G) : Reads (if c then Reader.fail e else r) fun w a => ¬ c ∧ G w a := by
  intro bytes a rest
  by_cases h : c
  · simp [h, Reader.fail]
  · simp only [h, if_false, not_false_eq_true, true_and]
    exact hr bytes a rest

theorem Reads.congr (hr : Reads r G) (h : ∀ w a, G w a ↔ G' w a) : Reads r G' := by
  intro bytes a rest
  rw [hr bytes a rest]
  simp only [h]

theorem Throws.bind (hr : Throws P r) (hf : ∀ a, Throws P (f a)) : Throws P (r >>= f) := by
  intro bytes e h
  rcases (bind_eq_error).mp h with h | ⟨a, mid, -, h⟩
  · exact hr _ _ h
  · exact hf a _ _ h

theorem Throws.pure (a : α) : Throws P (pure a : Reader ε α) := by
  intro bytes e h
  cases h

theorem Throws.fail {e : ε} (h : P e) : Throws P (fail e : Reader ε α) := by
  intro bytes e' he
  cases he
  exact h

theorem Throws.ite {c : Prop} [Decidable c] {r' : Reader ε α} (h : Throws P r)
    (h' : Throws P r') : Throws P (if c then r else r') := by
  split
  · exact h
  · exact h'

end Reader

end Canari.Lib
