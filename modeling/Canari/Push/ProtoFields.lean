/-
  Canari.Push.ProtoFields — the protobuf scanners of the push service
  (`frontend/src-tauri/src/mobile/proto_fields.rs`: `read_varint`,
  `find_length_delimited_field`, `find_repeated_length_delimited_field`, `find_varint_field`).

  The three scanners are one walk over the records of a message: they differ in the record they
  look for, in whether they return with it, and in what they return. `Visitor` has the difference
  and `scanLoop` the walk, in the positions of the target. `visitLoop` is the same walk with
  positions that do not overflow.

  The end of a length-delimited record is its start plus a length of 64 bits the sender chose:
  the test `end > bytes.len()` comes after the sum. A length that carries the sum past the
  positions of the target panics where additions are checked; where they wrap, the end comes
  before the start, and the slice panics or the walk goes back.
  - `scan_clean`, `clean_scan`: a scan returns, with no panic and no overflow, exactly when the
    records it reaches have no such length, and then it returns what `visitLoop` does.
  - `exec_known`: so for the code that calls the scanners and decides on what they find.
-/

import Canari.Lib.Calls

namespace Canari.Push

open Lib Lib.Usize

variable {t : Target} {α : Type}

/-! ## Varints -/

/-- The loop of `read_varint`; `shift` stops it after ten bytes. -/
def readVarintLoop (s : Slice t) : Nat → UInt64 → Nat → Nat → Run (Option (UInt64 × Nat))
  | 0, _, _, _ => .exhausted
  | fuel + 1, result, shift, cur =>
    if s.length ≤ cur ∨ 64 ≤ shift then pure none
    else do
      let byte ← s.index cur
      let result := result ||| ((byte.toUInt64 &&& 0x7f) <<< UInt64.ofNat shift)
      let cur ← t.add cur 1
      if byte.toUInt64 &&& 0x80 = 0 then pure (some (result, cur)) else readVarintLoop s fuel result (shift + 7) cur

def readVarint (s : Slice t) (pos : Nat) : Run (Option (UInt64 × Nat)) := readVarintLoop s 11 0 0 pos

def varintLoop (bytes : Bytes) : Nat → UInt64 → Nat → Nat → Option (UInt64 × Nat)
  | 0, _, _, _ => none
  | fuel + 1, result, shift, cur =>
    if 64 ≤ shift then none
    else
      match bytes[cur]? with
      | none => none
      | some byte =>
        let result := result ||| ((byte.toUInt64 &&& 0x7f) <<< UInt64.ofNat shift)
        if byte.toUInt64 &&& 0x80 = 0 then some (result, cur + 1) else
          varintLoop bytes fuel result (shift + 7) (cur + 1)

def varintAt (bytes : Bytes) (pos : Nat) : Option (UInt64 × Nat) := varintLoop bytes 11 0 0 pos

/-! ## The walk -/

/-- What a scanner looks for: it may return with the value of a varint; it takes the bytes of the
    fields it wants, and may return with the first of them. -/
structure Visitor (t : Target) (α : Type) where
  start : α
  varint : UInt32 → UInt64 → Option α
  wants : UInt32 → Bool
  take : α → Slice t → α
  returns : Bool

def fieldOf (tag : UInt64) : UInt32 := (tag >>> 3).toUInt32

def wireTypeOf (tag : UInt64) : Nat := (tag &&& 7).toNat

/-- The `while` loop of the scanners; a record that cannot be read ends it. -/
def scanLoop (s : Slice t) (v : Visitor t α) : Nat → Nat → α → Run α
  | 0, _, _ => .exhausted
  | fuel + 1, pos, acc =>
    if s.length ≤ pos then pure acc
    else do
      match ← readVarint s pos with
      | none => pure acc
      | some (tag, pos) =>
        match wireTypeOf tag with
        | 0 =>
          match ← readVarint s pos with
          | none => pure acc
          | some (value, next) =>
            match v.varint (fieldOf tag) value with
            | some result => pure result
            | none => scanLoop s v fuel next acc
        | 1 =>
          if s.length < (← t.add pos 8) then pure acc else scanLoop s v fuel (← t.add pos 8) acc
        | 2 =>
          match ← readVarint s pos with
          | none => pure acc
          | some (len, pos) =>
            let stop ← t.add pos (t.usizeOf len)
            if s.length < stop then pure acc
            else if v.wants (fieldOf tag) then do
              let part ← s.range pos stop
              if v.returns then pure (v.take acc part) else scanLoop s v fuel stop (v.take acc part)
            else scanLoop s v fuel stop acc
        | 5 =>
          if s.length < (← t.add pos 4) then pure acc else scanLoop s v fuel (← t.add pos 4) acc
        | _ => pure acc

def scan (s : Slice t) (v : Visitor t α) (fuel : Nat) : Run α := scanLoop s v fuel 0 v.start

def firstField (fieldNum : UInt32) : Visitor t (Option (Slice t)) :=
    ⟨none, fun _ _ => none, (· = fieldNum), fun _ part => some part, true⟩

def everyField (fieldNum : UInt32) : Visitor t (List (Slice t)) :=
  ⟨[], fun _ _ => none, (· = fieldNum), fun found part => found ++ [part], false⟩

def firstVarint (fieldNum : UInt32) : Visitor t (Option UInt64) :=
  ⟨none, fun field value => if field = fieldNum then some (some value) else none, fun _ => false,
    fun acc _ => acc, true⟩

def findLengthDelimitedField (s : Slice t) (fieldNum : UInt32)
    (fuel : Nat) : Run (Option (Slice t)) := scan s (firstField fieldNum) fuel

def findRepeatedLengthDelimitedField (s : Slice t) (fieldNum : UInt32) (fuel : Nat) : Run (List (Slice t)) :=
  scan s (everyField fieldNum) fuel

def findVarintField (s : Slice t) (fieldNum : UInt32)
    (fuel : Nat) : Run (Option UInt64) := scan s (firstVarint fieldNum) fuel

/-! ## The records it reaches -/

inductive Record where
  | varint (field : UInt32) (value : UInt64) (next : Nat)
  | fixed (next : Nat)
  | delimited (field : UInt32) (start len : Nat)
  deriving DecidableEq

/-- The record at a position, when it can be read; its length is as the target casts it. -/
def recordAt (t : Target) (bytes : Bytes) (pos : Nat) : Option Record :=
  match varintAt bytes pos with
  | none => none
  | some (tag, pos) =>
    match wireTypeOf tag with
    | 0 => (varintAt bytes pos).map fun (value, next) => .varint (fieldOf tag) value next
    | 1 => if bytes.length < pos + 8 then none else some (.fixed (pos + 8))
    | 2 => (varintAt bytes pos).map fun (len, start) => .delimited (fieldOf tag) start (t.usizeOf len)
    | 5 => if bytes.length < pos + 4 then none else some (.fixed (pos + 4))
    | _ => none

inductive Turn (α : Type) where
  | done (result : α)
  | go (pos : Nat) (acc : α)

def turn (s : Slice t) (v : Visitor t α) (pos : Nat) (acc : α) : Turn α :=
  if s.length ≤ pos then .done acc
  else
    match recordAt t s.bytes pos with
    | none => .done acc
    | some (.varint field value next) =>
      match v.varint field value with
      | some result => .done result
      | none => .go next acc
    | some (.fixed next) => .go next acc
    | some (.delimited field start len) =>
      if s.length < start + len then .done acc
      else if v.wants field then
        if v.returns then .done (v.take acc (s.part start (start + len))) else
          .go (start + len) (v.take acc (s.part start (start + len)))
      else .go (start + len) acc

def visitLoop (s : Slice t) (v : Visitor t α) : Nat → Nat → α → α
  | 0, _, acc => acc
  | fuel + 1, pos, acc =>
    match turn s v pos acc with
    | .done result => result
    | .go pos acc => visitLoop s v fuel pos acc

def visit (s : Slice t) (v : Visitor t α) : α := visitLoop s v (s.length + 1) 0 v.start

/-- The record here has a start and a length that add up past the last position. -/
def Hostile (s : Slice t) (pos : Nat) : Prop :=
  pos < s.length ∧ ∃ field start len, recordAt t s.bytes pos = some (.delimited field start len) ∧ t.limit ≤ start + len

inductive Overruns (s : Slice t) (v : Visitor t α) : Nat → α → Prop
  | here {pos : Nat} {acc : α} (h : Hostile s pos) : Overruns s v pos acc
  | later {pos next : Nat} {acc acc' : α} (h : turn s v pos acc = .go next acc')
      (ho : Overruns s v next acc') : Overruns s v pos acc

/-! ## Reading a varint -/

theorem varintLoop_bounds {bytes : Bytes} {fuel : Nat} {result value : UInt64} {shift cur next : Nat}
    (h : varintLoop bytes fuel result shift cur = some (value, next)) : cur < next ∧ next ≤ bytes.length := by
  induction fuel generalizing result shift cur with
  | zero => cases h
  | succ fuel ih =>
    unfold varintLoop at h
    split at h
    · cases h
    · split at h
      · cases h
      · rename_i byte hb
        have hlt := (List.getElem?_eq_some_iff.mp hb).1
        split at h
        · cases h
          omega
        · have := ih h
          omega

theorem readVarintLoop_eq (s : Slice t) {fuel : Nat} {result : UInt64} {shift cur : Nat} (hf : 64 ≤ shift + 7 * fuel) :
    readVarintLoop s (fuel + 1) result shift cur = pure (varintLoop s.bytes (fuel + 1) result shift cur) := by
  induction fuel generalizing result shift cur with
  | zero =>
    have h64 : 64 ≤ shift := by omega
    rw [readVarintLoop, varintLoop, if_pos (.inr h64), if_pos h64]
  | succ fuel ih =>
    rw [readVarintLoop, varintLoop]
    by_cases h64 : 64 ≤ shift
    · rw [if_pos (.inr h64), if_pos h64]
    · rw [if_neg h64]
      by_cases hc : s.length ≤ cur
      · rw [if_pos (.inl hc), List.getElem?_eq_none hc]
      · obtain ⟨byte, hb⟩ : ∃ byte, s.bytes[cur]? = some byte := ⟨_, List.getElem?_eq_getElem (not_le.mp hc)⟩
        rw [if_neg (not_or.mpr ⟨hc, h64⟩), hb, s.index_eq hb, Run.pure_bind,
          Target.add_of_lt (s.add_lt (by omega) (by omega)), Run.pure_bind]
        simp only
        by_cases hm : byte.toUInt64 &&& 0x80 = 0
        · rw [if_pos hm, if_pos hm]
        · rw [if_neg hm, if_neg hm]
          exact ih (by omega)

theorem readVarint_eq (s : Slice t) (pos : Nat) : readVarint s pos = pure (varintAt s.bytes pos) :=
    readVarintLoop_eq s (by omega)

theorem recordAt_bounds {bytes : Bytes} {pos : Nat} {r : Record} (h : recordAt t bytes pos = some r) :
    match r with
    | .varint _ _ next => pos < next ∧ next ≤ bytes.length
    | .fixed next => pos < next ∧ next ≤ bytes.length
    | .delimited _ start _ => pos < start ∧ start ≤ bytes.length := by
  unfold recordAt at h
  split at h
  · cases h
  · rename_i tag after htag
    have hb := varintLoop_bounds htag
    split at h
    · obtain ⟨⟨value, next⟩, hv, rfl⟩ := Option.map_eq_some_iff.mp h
      have := varintLoop_bounds hv
      omega
    · split at h
      · cases h
      · cases h
        omega
    · obtain ⟨⟨len, start⟩, hv, rfl⟩ := Option.map_eq_some_iff.mp h
      have := varintLoop_bounds hv
      omega
    · split at h
      · cases h
      · cases h
        omega
    · cases h

/-! ## One turn of the walk -/

section Walk

variable {s : Slice t} {v : Visitor t α} {fuel fuel' pos next : Nat} {acc acc' r : α}

/-- The turn, by the record it meets: only the end of a length-delimited one can overflow. -/
theorem scanLoop_succ (hpos : pos < s.length) :
    scanLoop s v (fuel + 1) pos acc =
      match recordAt t s.bytes pos with
      | none => pure acc
      | some (.varint field value next) =>
        match v.varint field value with
        | some result => pure result
        | none => scanLoop s v fuel next acc
      | some (.fixed next) => scanLoop s v fuel next acc
      | some (.delimited field start len) =>
        t.add start len >>= fun stop =>
          if s.length < stop then pure acc
          else if v.wants field then
            s.range start stop >>= fun part =>
              if v.returns then pure (v.take acc part) else scanLoop s v fuel stop (v.take acc part)
          else scanLoop s v fuel stop acc := by
  have hfix : ∀ {after k : Nat}, after ≤ s.length → k ≤ 8 → t.add after k = pure (after + k) :=
    fun h hk => Target.add_of_lt (s.add_lt h hk)
  rw [scanLoop, if_neg (by omega), readVarint_eq, Run.pure_bind, recordAt]
  cases htag : varintAt s.bytes pos with
  | none => rfl
  | some r =>
    obtain ⟨tag, after⟩ := r
    have hb : after ≤ s.length := (varintLoop_bounds htag).2
    simp only [readVarint_eq, Run.pure_bind, hfix hb (by omega : 8 ≤ 8), hfix hb (by omega : 4 ≤ 8)]
    split
    · cases varintAt s.bytes after <;> rfl
    · by_cases h : s.length < after + 8
      · rw [if_pos h, if_pos (show s.bytes.length < after + 8 from h)]
      · rw [if_neg h, if_neg (show ¬ s.bytes.length < after + 8 from h)]
    · cases varintAt s.bytes after <;> rfl
    · by_cases h : s.length < after + 4
      · rw [if_pos h, if_pos (show s.bytes.length < after + 4 from h)]
      · rw [if_neg h, if_neg (show ¬ s.bytes.length < after + 4 from h)]
    · rfl

theorem scanLoop_hostile (h : Hostile s pos) : scanLoop s v (fuel + 1) pos acc ≠ pure r := by
  obtain ⟨hpos, field, start, len, hr, hl⟩ := h
  intro he
  rw [scanLoop_succ hpos, hr] at he
  obtain ⟨stop, hs, -⟩ := Run.bind_eq_pure.mp he
  have := (Target.add_eq_pure.mp hs).1
  omega

theorem scanLoop_turn (h : ¬ Hostile s pos) :
    scanLoop s v (fuel + 1) pos acc =
      match turn s v pos acc with
      | .done result => pure result
      | .go pos acc => scanLoop s v fuel pos acc := by
  unfold turn
  by_cases hpos : s.length ≤ pos
  · rw [if_pos hpos, scanLoop, if_pos hpos]
  · rw [if_neg hpos, scanLoop_succ (not_le.mp hpos)]
    cases hr : recordAt t s.bytes pos with
    | none => rfl
    | some x =>
      cases x with
      | varint field value next =>
        simp only
        cases v.varint field value <;> rfl
      | fixed next => rfl
      | delimited field start len =>
        have hlt : start + len < t.limit := not_le.mp fun hl => h ⟨not_le.mp hpos, field, start, len, hr, hl⟩
        simp only [Target.add_of_lt hlt, Run.pure_bind]
        by_cases hend : s.length < start + len
        · rw [if_pos hend, if_pos hend]
        · have hrange : s.range start (start + len) = pure (s.part start (start + len)) := if_pos ⟨by omega, by omega⟩
          rw [if_neg hend, if_neg hend, hrange, Run.pure_bind]
          cases v.wants field with
          | false => rfl
          | true => cases v.returns <;> rfl

theorem turn_go (h : turn s v pos acc = .go next acc') : pos < next ∧ next ≤ s.length := by
  unfold turn at h
  split at h
  · cases h
  · split at h
    · cases h
    · rename_i hr
      have hb := recordAt_bounds hr
      split at h
      · cases h
      · cases h
        exact hb
    · rename_i hr
      have hb := recordAt_bounds hr
      cases h
      exact hb
    · rename_i start len hr
      have hb : pos < start ∧ start ≤ s.length := recordAt_bounds hr
      split at h
      · cases h
      · split at h
        · split at h
          · cases h
          · cases h
            omega
        · cases h
          omega

/-- A scan with no fault meets no hostile record and reads what the walk without overflow does. -/
theorem clean_scan (hf : s.length < pos + fuel') (h : scanLoop s v fuel pos acc = pure r) :
    ¬ Overruns s v pos acc ∧ r = visitLoop s v fuel' pos acc := by
  induction fuel generalizing pos acc fuel' with
  | zero => cases h
  | succ fuel ih =>
    have hno : ¬ Hostile s pos := fun hh => scanLoop_hostile hh h
    rw [scanLoop_turn hno] at h
    cases ht : turn s v pos acc with
    | done result =>
      rw [ht] at h
      refine ⟨fun ho => ?_, ?_⟩
      · cases ho with
        | here hh => exact hno hh
        | later hg _ => cases ht.symm.trans hg
      · cases fuel' with
        | zero =>
          have hend : s.length ≤ pos := by omega
          rw [turn, if_pos hend] at ht
          cases ht
          exact (Run.pure_inj h).symm
        | succ g =>
          rw [visitLoop, ht]
          exact (Run.pure_inj h).symm
    | go next acc' =>
      rw [ht] at h
      have hmove := turn_go ht
      obtain ⟨g, rfl⟩ : ∃ g, fuel' = g + 1 := ⟨fuel' - 1, by omega⟩
      obtain ⟨hno', hr⟩ := ih (by omega : s.length < next + g) h
      refine ⟨fun ho => ?_, ?_⟩
      · cases ho with
        | here hh => exact hno hh
        | later hg ho =>
          cases ht.symm.trans hg
          exact hno' ho
      · rw [visitLoop, ht]
        exact hr

theorem scan_clean (hno : ¬ Overruns s v pos acc) (hpos : pos ≤ s.length) (hf : s.length < pos + fuel) :
    ∃ r, scanLoop s v fuel pos acc = pure r := by
  induction fuel generalizing pos acc with
  | zero => omega
  | succ fuel ih =>
    rw [scanLoop_turn fun hh => hno (.here hh)]
    cases ht : turn s v pos acc with
    | done result => exact ⟨result, rfl⟩
    | go next acc' =>
      have hmove := turn_go ht
      exact ih (fun ho => hno (.later ht ho)) hmove.2 (by omega)

end Walk

/-! ## Calls of the scanners -/

/-- A scan of this message meets no hostile record before it returns. -/
def Tame (s : Slice t) (v : Visitor t α) : Prop := ¬ Overruns s v 0 v.start

theorem scan_returned {s : Slice t} {v : Visitor t α} {fuel : Nat} {r : α}
    (h : scan s v fuel = pure r) : Tame s v ∧ r = visit s v :=
  clean_scan (by omega) h

theorem scan_returns {s : Slice t} {v : Visitor t α} (h : Tame s v) {fuel : Nat}
    (hf : s.length + 1 ≤ fuel) : scan s v fuel = pure (visit s v) := by
  obtain ⟨r, hr⟩ := scan_clean h (Nat.zero_le _) (by omega : s.length < 0 + fuel)
  have hv : r = visit s v := (scan_returned hr).2
  rw [← hv]
  exact hr

theorem scan_safe_iff (s : Slice t) (v : Visitor t α) : Safe (scan s v) ↔ Tame s v := by
  constructor
  · rintro ⟨fuel, r, h⟩
    exact (scan_returned h).1
  · intro h
    exact ⟨_, _, scan_returns h (Nat.le_refl _)⟩

inductive ScanCall (t : Target) where
  | field (s : Slice t) (fieldNum : UInt32)
  | repeated (s : Slice t) (fieldNum : UInt32)
  | varint (s : Slice t) (fieldNum : UInt32)

def Found : ScanCall t → Type
  | .field _ _ => Option (Slice t)
  | .repeated _ _ => List (Slice t)
  | .varint _ _ => Option UInt64

def exec : (call : ScanCall t) → Nat → Run (Found call)
  | .field s n => findLengthDelimitedField s n
  | .repeated s n => findRepeatedLengthDelimitedField s n
  | .varint s n => findVarintField s n

def TameCall : ScanCall t → Prop
  | .field s n => Tame s (firstField n)
  | .repeated s n => Tame s (everyField n)
  | .varint s n => Tame s (firstVarint n)

def found : (call : ScanCall t) → Found call
  | .field s n => visit s (firstField n)
  | .repeated s n => visit s (everyField n)
  | .varint s n => visit s (firstVarint n)

theorem exec_known : Calls.Known (exec (t := t)) TameCall found where
  returned {call _ _} h := by
    cases call with
    | field s n => exact scan_returned h
    | repeated s n => exact scan_returned h
    | varint s n => exact scan_returned h
  returns {call} h := by
    cases call with
    | field s n => exact ⟨_, fun _ hf => scan_returns h hf⟩
    | repeated s n => exact ⟨_, fun _ hf => scan_returns h hf⟩
    | varint s n => exact ⟨_, fun _ hf => scan_returns h hf⟩

end Canari.Push
