/-
  Canari.Bookings.Availability — the availability editor's lines and the stored ones.

  The server stores a line on one weekday or one date, its start before its end. An organiser thinks
  of "Friday 22:00 to 02:00" as one line: `toStoredLines` writes it as two, an evening up to 24:00
  and a morning from 00:00 on the next day, and `fromStoredLines` reads such a pair back as one.

  Storing what was read gives the same stored lines again, in another order
  (`perm_stored_of_read`). What is read can be saved except in one case: an evening folded with a
  morning that ends at the very minute the evening starts is a line from `s` to `s`, which
  `lineProblem` refuses as an empty one (`lineProblem_night`).
-/

import Canari.Lib.Runs
import Mathlib.Data.Fin.Basic
import Mathlib.Data.Fintype.Basic
import Mathlib.Data.List.Perm.Lattice

namespace Canari.Bookings

open List

/-! ## Wall times -/

/-- `String(n).padStart(2, '0')`. -/
def pad2 (n : Nat) : List Char := (Nat.toDigits 10 n).leftpad 2 '0'

/-- Minutes from midnight as a stored time: `1440` is `24:00`. -/
def timeOfMinutes (min : Nat) : String := String.ofList (pad2 (min / 60) ++ ':' :: pad2 (min % 60))

def isDigit (c : Char) : Bool := '0' ≤ c && c ≤ '9'

/-- `[01]\d|2[0-3]` -/
def hourShape (h h' : Char) : Bool := (h == '0' || h == '1') && isDigit h' || h == '2' && ('0' ≤ h' && h' ≤ '3')

/-- `[0-5]\d` -/
def minuteShape (m m' : Char) : Bool := ('0' ≤ m && m ≤ '5') && isDigit m'

/-- `/^([01]\d|2[0-3]):[0-5]\d$/.test(time)` -/
def TIME (time : String) : Bool :=
  match time.toList with
  | [h, h', colon, m, m'] => hourShape h h' && colon == ':' && minuteShape m m'
  | _ => false

/-- `Number` of a text of decimal digits, the only ones it is asked about here. -/
def number (digits : List Char) : Nat := digits.foldl (fun n c => 10 * n + (c.toNat - '0'.toNat)) 0

/-- `HH:MM[:SS]` to minutes since midnight; `24:00` is 1440. -/
def minutesOf (time : String) : Nat :=
  match time.toList.splitOn ':' with
  | h :: m :: _ => number h * 60 + number m
  | _ => 0

/-- The stored `HH:MM:SS` as the editor shows it. -/
def short (time : String) : String := String.ofList (time.toList.take 5)

/-! ### What the clock shows -/

theorem two_digits : ∀ a b : Fin 10, pad2 (10 * a + b) = [Nat.digitChar a, Nat.digitChar b] ∧
    number [Nat.digitChar a, Nat.digitChar b] = 10 * a + b ∧ Nat.digitChar a ≠ ':' ∧
    (hourShape (Nat.digitChar a) (Nat.digitChar b) = true ↔ 10 * (a : Nat) + b < 24) ∧
    (minuteShape (Nat.digitChar a) (Nat.digitChar b) = true ↔ 10 * (a : Nat) + b < 60) := by
  decide

theorem exists_digit {c : Char} (h : isDigit c = true) : ∃ a : Fin 10, c = Nat.digitChar a := by
  rw [isDigit, Bool.and_eq_true, decide_eq_true_iff, decide_eq_true_iff] at h
  have hlo : 48 ≤ c.toNat := h.1
  have hhi : c.toNat ≤ 57 := h.2
  have hdigit : ∀ a : Fin 10, Char.ofNat (48 + a) = Nat.digitChar a := by decide
  refine ⟨⟨c.toNat - 48, by omega⟩, ?_⟩
  rw [← hdigit, show 48 + (c.toNat - 48) = c.toNat by omega, Char.ofNat_toNat]

theorem isDigit_of_hourShape {h h' : Char} (hs : hourShape h h' = true) : isDigit h = true ∧ isDigit h' = true := by
  simp only [hourShape, isDigit, Bool.or_eq_true, Bool.and_eq_true, beq_iff_eq, decide_eq_true_eq] at hs ⊢
  rcases hs with ⟨rfl | rfl, hs⟩ | ⟨rfl, hs⟩
  · exact ⟨by decide, hs⟩
  · exact ⟨by decide, hs⟩
  · exact ⟨by decide, hs.1, Char.le_trans hs.2 (show '3' ≤ '9' by decide)⟩

theorem isDigit_of_minuteShape {m m' : Char} (hs : minuteShape m m' = true) : isDigit m = true ∧ isDigit m' = true := by
  simp only [minuteShape, isDigit, Bool.and_eq_true, decide_eq_true_eq] at hs ⊢
  exact ⟨⟨hs.1.1, Char.le_trans hs.1.2 (show '5' ≤ '9' by decide)⟩, hs.2⟩

variable {m m' : Nat} {time : String}

theorem toList_timeOfMinutes (hm : m ≤ 1440) : ∃ a b c d : Fin 10, m / 60 = 10 * a + b ∧ m % 60 = 10 * c + d ∧
    (timeOfMinutes m).toList = [Nat.digitChar a, Nat.digitChar b, ':', Nat.digitChar c, Nat.digitChar d] := by
  refine ⟨⟨m / 60 / 10, by omega⟩, ⟨m / 60 % 10, by omega⟩, ⟨m % 60 / 10, by omega⟩, ⟨m % 60 % 10, by omega⟩,
    (Nat.div_add_mod _ _).symm, (Nat.div_add_mod _ _).symm, ?_⟩
  have hh := (two_digits ⟨m / 60 / 10, by omega⟩ ⟨m / 60 % 10, by omega⟩).1
  have hmin := (two_digits ⟨m % 60 / 10, by omega⟩ ⟨m % 60 % 10, by omega⟩).1
  simp only [Nat.div_add_mod] at hh hmin
  rw [timeOfMinutes, String.toList_ofList, hh, hmin]
  rfl

theorem minutesOf_timeOfMinutes (hm : m ≤ 1440) : minutesOf (timeOfMinutes m) = m := by
  obtain ⟨a, b, c, d, hh, hmin, hl⟩ := toList_timeOfMinutes hm
  have hsplit : (timeOfMinutes m).toList.splitOn ':' = [[Nat.digitChar a, Nat.digitChar b],
    [Nat.digitChar c, Nat.digitChar d]] := by
    have hne : ∀ a : Fin 10, Nat.digitChar a ≠ ':' := fun a => (two_digits a a).2.2.1
    simp [hl, List.splitOn, splitOnP_cons_eq_if_splitOnPPrepend, splitOnPPrepend_cons_eq_if, hne]
  rw [minutesOf, hsplit]
  simp only [(two_digits a b).2.1, (two_digits c d).2.1]
  omega

theorem TIME_timeOfMinutes (hm : m ≤ 1440) : TIME (timeOfMinutes m) = true ↔ m < 1440 := by
  obtain ⟨a, b, c, d, hh, hmin, hl⟩ := toList_timeOfMinutes hm
  simp only [TIME, hl, Bool.and_eq_true, (two_digits a b).2.2.2.1, (two_digits c d).2.2.2.2, beq_self_eq_true, and_true]
  omega

theorem short_timeOfMinutes (hm : m ≤ 1440) : short (timeOfMinutes m) = timeOfMinutes m := by
  obtain ⟨a, b, c, d, -, -, hl⟩ := toList_timeOfMinutes hm
  rw [short, take_of_length_le (by rw [hl]; rfl), String.ofList_toList]

theorem timeOfMinutes_inj (hm : m ≤ 1440) (hm' : m' ≤ 1440) : timeOfMinutes m = timeOfMinutes m' ↔ m = m' := by
  refine ⟨fun h => ?_, fun h => h ▸ rfl⟩
  rw [← minutesOf_timeOfMinutes hm, h, minutesOf_timeOfMinutes hm']

theorem timeOfMinutes_zero : timeOfMinutes 0 = "00:00" := by decide

theorem timeOfMinutes_last : timeOfMinutes 1440 = "24:00" := by decide

theorem exists_minutes (h : TIME time = true) : ∃ m, m < 1440 ∧ time = timeOfMinutes m := by
  rw [TIME] at h
  split at h
  · rename_i h1 h2 colon m1 m2 hl
    rw [Bool.and_eq_true, Bool.and_eq_true, beq_iff_eq] at h
    obtain ⟨⟨hhour, rfl⟩, hmin⟩ := h
    obtain ⟨a, rfl⟩ := exists_digit (isDigit_of_hourShape hhour).1
    obtain ⟨b, rfl⟩ := exists_digit (isDigit_of_hourShape hhour).2
    obtain ⟨c, rfl⟩ := exists_digit (isDigit_of_minuteShape hmin).1
    obtain ⟨d, rfl⟩ := exists_digit (isDigit_of_minuteShape hmin).2
    have h24 := (two_digits a b).2.2.2.1.mp hhour
    have h60 := (two_digits c d).2.2.2.2.mp hmin
    refine ⟨(10 * a + b) * 60 + (10 * c + d), by omega, ?_⟩
    rw [← String.ofList_toList (s := time), hl, timeOfMinutes,
      show ((10 * a + b) * 60 + (10 * c + d) : Nat) / 60 = 10 * a + b by omega,
      show ((10 * a + b) * 60 + (10 * c + d) : Nat) % 60 = 10 * c + d by omega, (two_digits a b).1, (two_digits c d).1]
    rfl
  · cases h

/-! ## Lines -/

/-- What a line is on: a weekday (0 is Monday, the index of the painter's week) or a date. -/
inductive LineDay
  | weekly (weekday : Fin 7)
  | dated (date : String)
  deriving DecidableEq

/-- One line as the organiser edits it: an end at or before its start is on the next day. -/
structure EditorLine where
  day : LineDay
  start : String
  stop : String
  deriving DecidableEq

structure StoredLine where
  day : LineDay
  startTime : String
  endTime : String
  deriving DecidableEq

inductive LineProblem
  | time
  | empty
  | date

/-- `/^\d{4}-\d{2}-\d{2}$/` -/
def dateShape (date : String) : Bool :=
  match date.toList with
  | [y1, y2, y3, y4, d1, m1, m2, d2, t1, t2] => [y1, y2, y3, y4, m1, m2, t1, t2].all isDigit && d1 == '-' && d2 == '-'
  | _ => false

def crossesMidnight (line : EditorLine) : Bool := line.stop ≠ "24:00" && minutesOf line.stop ≤ minutesOf line.start

/-- Why a line cannot be saved: an unreadable time or date, or a line of zero length. -/
def lineProblem (line : EditorLine) : Option LineProblem :=
  if !TIME line.start || !(TIME line.stop || line.stop = "24:00") then some .time
  else if (match line.day with | .dated date => !dateShape date | .weekly _ => false) then some .date
  else if line.start = line.stop then some .empty
  else if line.start = "00:00" ∧ line.stop = "00:00" then some .empty
  else none

-- The calendar date after a date. Nothing below depends on which one that is.
variable (nextDate : String → String)

-- `weekday + 1` in `LineDay.next` is read in `Fin 7` through this instance.
instance weekdays_ne_zero : @NeZero Nat Zero.ofOfNat0 7 := ⟨by decide⟩

def LineDay.next : LineDay → LineDay
  | .weekly weekday => .weekly (weekday + 1)
  | .dated date => .dated (nextDate date)

/-- The stored lines of one editor line: one, or two when it crosses midnight. -/
def stored (line : EditorLine) : List StoredLine :=
  if !crossesMidnight line then [⟨line.day, line.start, line.stop⟩]
  else
    -- An end of exactly 00:00 is the end of the first day: nothing spills into the next one.
    ⟨line.day, line.start, "24:00"⟩ ::
      if line.stop ≠ "00:00" then [⟨line.day.next nextDate, "00:00", line.stop⟩] else []

def toStoredLines (lines : List EditorLine) : List StoredLine := lines.flatMap (stored nextDate)

def StoredLine.short (l : StoredLine) : StoredLine := ⟨l.day, Bookings.short l.startTime, Bookings.short l.endTime⟩

/-- A line that looks for a morning: it ends with its day and does not start with it. -/
def evening (l : StoredLine) : Bool := l.endTime = "24:00" && l.startTime ≠ "00:00"

/-- What `findIndex` asks of an unused row `t` for the evening `l`. -/
def isTail (l t : StoredLine) : Bool :=
  t.day = l.day.next nextDate && t.startTime = "00:00" && t.endTime ≠ "24:00" &&
    minutesOf t.endTime ≤ minutesOf l.startTime

/-- `forEach` over the rows not `used` yet: each one with the morning it takes, if it takes one. The
    rows before it are all used, so the search is among those that are left after it. -/
def claims : Nat → List StoredLine → List (StoredLine × Option StoredLine)
  | 0, _ => []
  | _, [] => []
  | fuel + 1, l :: rest =>
    match if evening l then rest.find? (isTail nextDate l) else none with
    | some t => (l, some t) :: claims fuel (rest.eraseP (isTail nextDate l))
    | none => (l, none) :: claims fuel rest

def editorLine : StoredLine × Option StoredLine → EditorLine
  | (l, some t) => ⟨l.day, l.startTime, t.endTime⟩
  | (l, none) => ⟨l.day, l.startTime, l.endTime⟩

def fromStoredLines (lines : List StoredLine) : List EditorLine :=
  (claims nextDate lines.length (lines.map StoredLine.short)).map editorLine

/-! ## Which mornings are folded -/

variable {nextDate} {fuel : Nat} {rows : List StoredLine} {l t : StoredLine}

theorem perm_eraseP_of_find {p : StoredLine → Bool} (h : rows.find? p = some t) : (t :: rows.eraseP p).Perm rows := by
  obtain ⟨hp, as, bs, rfl, hno⟩ := find?_eq_some_iff_append.mp h
  have hnot : ∀ a ∈ as, ¬ p a = true := fun a ha => by simpa using hno a ha
  rw [eraseP_append_right _ hnot, eraseP_cons_of_pos hp]
  exact perm_middle.symm

variable (nextDate) in
theorem perm_claims (hfuel : rows.length ≤ fuel) :
    ((claims nextDate fuel rows).flatMap fun p => p.1 :: p.2.toList).Perm rows := by
  induction fuel generalizing rows with
  | zero => rw [eq_nil_of_length_eq_zero (Nat.le_zero.mp hfuel)]; exact .nil
  | succ fuel ih =>
    cases rows with
    | nil => exact .nil
    | cons l rest =>
      rw [length_cons] at hfuel
      rw [claims]
      split
      · rename_i t ht
        have hfind : rest.find? (isTail nextDate l) = some t := by
          split_ifs at ht with he
          exact ht
        have hperm := perm_eraseP_of_find hfind
        have hlen := hperm.length_eq
        rw [length_cons] at hlen
        exact ((ih (by omega)).cons t |>.trans hperm).cons l
      · exact (ih (by omega)).cons l

theorem mem_claims {o : Option StoredLine} (h : (l, o) ∈ claims nextDate fuel rows) :
    l ∈ rows ∧ ∀ t, o = some t → evening l = true ∧ isTail nextDate l t = true ∧ [l, t].Sublist rows := by
  induction fuel generalizing rows with
  | zero => simp [claims] at h
  | succ fuel ih =>
    cases rows with
    | nil => simp [claims] at h
    | cons r rest =>
      rw [claims] at h
      split at h
      · rename_i t' ht
        split_ifs at ht with he
        rcases mem_cons.mp h with heq | h
        · obtain ⟨rfl, rfl⟩ := Prod.mk.inj heq
          refine ⟨mem_cons_self, fun t hot => ?_⟩
          cases hot
          exact ⟨he, find?_some ht, .cons_cons _ (singleton_sublist.mpr (mem_of_find?_eq_some ht))⟩
        · obtain ⟨hl, hrest⟩ := ih h
          have hsub : (rest.eraseP (isTail nextDate r)).Sublist (r :: rest) :=
            eraseP_sublist.trans (sublist_cons_self r rest)
          refine ⟨hsub.subset hl, fun t hot => ?_⟩
          obtain ⟨h1, h2, h3⟩ := hrest t hot
          exact ⟨h1, h2, h3.trans hsub⟩
      · rcases mem_cons.mp h with heq | h
        · obtain ⟨rfl, rfl⟩ := Prod.mk.inj heq
          exact ⟨mem_cons_self, nofun⟩
        · obtain ⟨hl, hrest⟩ := ih h
          refine ⟨mem_cons_of_mem r hl, fun t hot => ?_⟩
          obtain ⟨h1, h2, h3⟩ := hrest t hot
          exact ⟨h1, h2, h3.trans (sublist_cons_self r rest)⟩

/-- A morning that only one evening can take, and that evening no other, is folded into it when it
    comes later in the list. -/
theorem claims_of_only (hfuel : rows.length ≤ fuel) (hsub : [l, t].Sublist rows) (hl : evening l = true)
    (ht : isTail nextDate l t = true) (honly : ∀ t' ∈ rows, isTail nextDate l t' = true → t' = t)
    (halone : ∀ l' ∈ rows, isTail nextDate l' t = true → evening l' = true → l' = l) :
    (l, some t) ∈ claims nextDate fuel rows := by
  induction fuel generalizing rows with
  | zero =>
    have := hsub.length_le
    simp only [length_cons, length_nil] at this
    omega
  | succ fuel ih =>
    cases rows with
    | nil => cases hsub
    | cons r rest =>
      rw [length_cons] at hfuel
      have honly' : ∀ t' ∈ rest, isTail nextDate l t' = true → t' = t := fun t' ht' => honly t' (mem_cons_of_mem r ht')
      have halone' : ∀ l' ∈ rest, isTail nextDate l' t = true → evening l' = true → l' = l :=
        fun l' hl' => halone l' (mem_cons_of_mem r hl')
      rw [claims]
      by_cases hr : r = l
      · subst hr
        have htrest : t ∈ rest := by
          cases hsub with
          | cons _ h => exact (singleton_sublist.mp ((sublist_cons_self r [t]).trans h))
          | cons_cons _ h => exact singleton_sublist.mp h
        obtain ⟨t', ht'⟩ := Option.isSome_iff_exists.mp (find?_isSome.mpr ⟨t, htrest, ht⟩)
        have heq : t' = t := honly' t' (mem_of_find?_eq_some ht') (find?_some ht')
        rw [if_pos hl, ht', heq]
        exact mem_cons_self
      · have hsub' : [l, t].Sublist rest := by
          cases hsub with
          | cons _ h => exact h
          | cons_cons _ h => exact absurd rfl hr
        split
        · rename_i t' ht'
          split_ifs at ht' with he
          -- An evening that is not `l` takes neither `t` nor `l`, which starts after midnight.
          have hnl : isTail nextDate r l = false := by
            rw [evening, Bool.and_eq_true, decide_eq_true_eq, decide_eq_true_eq] at hl
            simp [isTail, hl.2]
          have hnt : isTail nextDate r t = false := by
            by_contra h
            exact hr (halone r mem_cons_self (by simpa using h) he)
          have hkeep : [l, t].eraseP (isTail nextDate r) = [l, t] := by simp [hnl, hnt]
          have hsub'' : [l, t].Sublist (rest.eraseP (isTail nextDate r)) := hkeep ▸ hsub'.eraseP
          have hmem := (eraseP_sublist (p := isTail nextDate r) (l := rest)).subset
          refine mem_cons_of_mem _ (ih ?_ hsub'' (fun t' ht' => honly' t' (hmem ht'))
            fun l' hl' => halone' l' (hmem hl'))
          have := eraseP_sublist (p := isTail nextDate r) (l := rest) |>.length_le
          omega
        · exact mem_cons_of_mem _ (ih (by omega) hsub' honly' halone')

/-! ## Sound lines, stored and read back -/

def LineDay.Readable : LineDay → Prop
  | .weekly _ => True
  | .dated date => dateShape date = true

/-- A stored line without a problem: its times are read, and it is a line of one day, the start before
    the end (`booking_availability_rules_order`). -/
structure Sound (l : StoredLine) : Prop where
  noProblem : lineProblem (editorLine (l, none)) = none
  ordered : minutesOf l.startTime < minutesOf l.endTime

variable {s e : Nat} {day : LineDay}

variable {line : EditorLine}

theorem lineProblem_eq_none_iff : lineProblem line = none ↔
    TIME line.start = true ∧ (TIME line.stop = true ∨ line.stop = "24:00") ∧ line.day.Readable ∧
      line.start ≠ line.stop := by
  obtain ⟨day, start, stop⟩ := line
  by_cases hstart : TIME start = true <;> by_cases hstop : TIME stop = true ∨ stop = "24:00" <;> cases day <;>
    simp [lineProblem, LineDay.Readable, hstart, hstop] <;> grind

theorem lineProblem_times (hs : s ≤ 1440) (he : e ≤ 1440) :
    lineProblem ⟨day, timeOfMinutes s, timeOfMinutes e⟩ = none ↔ s < 1440 ∧ day.Readable ∧ s ≠ e := by
  rw [lineProblem_eq_none_iff, TIME_timeOfMinutes hs, TIME_timeOfMinutes he, ← timeOfMinutes_last,
    timeOfMinutes_inj he le_rfl,
    Ne, timeOfMinutes_inj hs he]
  have : e < 1440 ∨ e = 1440 := by omega
  simp [this]

theorem exists_times (h : lineProblem line = none) :
    ∃ s e, s < 1440 ∧ e ≤ 1440 ∧ s ≠ e ∧ line.day.Readable ∧ line = ⟨line.day, timeOfMinutes s, timeOfMinutes e⟩ := by
  obtain ⟨day, start, stop⟩ := line
  obtain ⟨hstart, hstop, hday, hne⟩ := (lineProblem_eq_none_iff).mp h
  dsimp only at hstart hstop hday hne
  obtain ⟨s, hs, rfl⟩ := exists_minutes hstart
  have hread : ∃ e, e ≤ 1440 ∧ stop = timeOfMinutes e := by
    rcases hstop with hstop | rfl
    · obtain ⟨e, he, rfl⟩ := exists_minutes hstop
      exact ⟨e, he.le, rfl⟩
    · exact ⟨1440, le_rfl, (timeOfMinutes_last).symm⟩
  obtain ⟨e, he, rfl⟩ := hread
  exact ⟨s, e, hs, he, fun heq => hne (heq ▸ rfl), hday, rfl⟩

theorem Sound.times (h : Sound l) : ∃ s e, s < e ∧ e ≤ 1440 ∧ l.day.Readable ∧
    l = ⟨l.day, timeOfMinutes s, timeOfMinutes e⟩ := by
  obtain ⟨day, startTime, endTime⟩ := l
  obtain ⟨s, e, hs, he, -, hday, heq⟩ := exists_times h.noProblem
  obtain ⟨-, rfl, rfl⟩ := EditorLine.mk.inj heq
  have horder := h.ordered
  dsimp only at horder
  rw [minutesOf_timeOfMinutes hs.le, minutesOf_timeOfMinutes he] at horder
  exact ⟨s, e, horder, he, hday, rfl⟩

theorem sound_times (hday : day.Readable) (hlt : s < e)
    (he : e ≤ 1440) : Sound ⟨day, timeOfMinutes s, timeOfMinutes e⟩ := by
  refine ⟨(lineProblem_times (by omega) he).mpr ⟨by omega, hday, by omega⟩, ?_⟩
  rwa [minutesOf_timeOfMinutes (by omega), minutesOf_timeOfMinutes he]

theorem evening_times (hs : s ≤ 1440) (he : e ≤ 1440) :
    evening ⟨day, timeOfMinutes s, timeOfMinutes e⟩ = true ↔ e = 1440 ∧ 0 < s := by
  rw [evening, Bool.and_eq_true, decide_eq_true_eq, decide_eq_true_eq, ← timeOfMinutes_last, ← timeOfMinutes_zero,
    timeOfMinutes_inj he le_rfl, Ne, timeOfMinutes_inj hs (by omega)]
  omega

theorem isTail_times {day' : LineDay} {s' e' : Nat} (hs : s ≤ 1440) (hs' : s' ≤ 1440) (he' : e' ≤ 1440) :
    isTail nextDate ⟨day, timeOfMinutes s, timeOfMinutes e⟩ ⟨day', timeOfMinutes s', timeOfMinutes e'⟩ = true ↔
      day' = day.next nextDate ∧ s' = 0 ∧ e' ≠ 1440 ∧ e' ≤ s := by
  simp only [isTail, Bool.and_eq_true, decide_eq_true_eq, and_assoc, minutesOf_timeOfMinutes he',
    minutesOf_timeOfMinutes hs]
  rw [← timeOfMinutes_last, ← timeOfMinutes_zero, timeOfMinutes_inj hs' (by omega), Ne, timeOfMinutes_inj he' le_rfl]

theorem crossesMidnight_times (hs : s ≤ 1440) (he : e ≤ 1440) :
    crossesMidnight ⟨day, timeOfMinutes s, timeOfMinutes e⟩ = true ↔ e ≠ 1440 ∧ e ≤ s := by
  simp only [crossesMidnight, Bool.and_eq_true, decide_eq_true_eq, minutesOf_timeOfMinutes he,
    minutesOf_timeOfMinutes hs]
  rw [← timeOfMinutes_last, Ne, timeOfMinutes_inj he le_rfl]

theorem stored_alone (h : Sound l) : stored nextDate (editorLine (l, none)) = [l] := by
  have hcross : crossesMidnight ⟨l.day, l.startTime, l.endTime⟩ = false := by
    rw [crossesMidnight, Bool.and_eq_false_iff, decide_eq_false_iff_not (p := _ ≤ _)]
    exact .inr (not_le.mpr h.ordered)
  rw [editorLine, stored, hcross]
  rfl

theorem stored_night (hl : Sound l) (ht : Sound t) (he : evening l = true) (htail : isTail nextDate l t = true) :
    stored nextDate (editorLine (l, some t)) = [l, t] := by
  obtain ⟨s, e, hlt, hle, -, heq⟩ := hl.times
  obtain ⟨s', e', hlt', hle', -, heq'⟩ := ht.times
  rw [heq, evening_times (by omega) hle] at he
  rw [heq, heq', isTail_times (by omega) (by omega) hle'] at htail
  obtain ⟨hday, rfl, hne, hles⟩ := htail
  obtain ⟨rfl, hpos⟩ := he
  have hstop' : timeOfMinutes e' ≠ "00:00" := by
    rw [← timeOfMinutes_zero, Ne, timeOfMinutes_inj hle' (by omega)]
    omega
  have hcross : crossesMidnight ⟨l.day, timeOfMinutes s, timeOfMinutes e'⟩ = true :=
    (crossesMidnight_times (by omega) hle').mpr ⟨hne, hles⟩
  rw [heq, heq', editorLine, stored, hcross]
  simp [hstop', hday, timeOfMinutes_last, timeOfMinutes_zero]

theorem range_of_stored (h : lineProblem line = none) (hl : l ∈ stored nextDate line) :
    minutesOf l.startTime < minutesOf l.endTime ∧ minutesOf l.endTime ≤ 1440 := by
  obtain ⟨s, e, hs, he, hne, -, heq⟩ := exists_times h
  have hmid : minutesOf "24:00" = 1440 := timeOfMinutes_last ▸ minutesOf_timeOfMinutes le_rfl
  have hzero : minutesOf "00:00" = 0 := timeOfMinutes_zero ▸ minutesOf_timeOfMinutes (by omega)
  have hms := minutesOf_timeOfMinutes hs.le
  have hme := minutesOf_timeOfMinutes he
  rw [heq, stored] at hl
  cases hcross : crossesMidnight ⟨line.day, timeOfMinutes s, timeOfMinutes e⟩ with
  | false =>
    have hnot : ¬ (e ≠ 1440 ∧ e ≤ s) := fun h' => by
      rw [(crossesMidnight_times hs.le he).mpr h'] at hcross
      cases hcross
    rw [hcross, if_pos (by decide), mem_singleton] at hl
    subst hl
    dsimp only
    omega
  | true =>
    rw [hcross, if_neg (by decide), mem_cons] at hl
    rcases hl with rfl | hl
    · dsimp only
      omega
    · split_ifs at hl with hstop
      · rw [mem_singleton] at hl
        subst hl
        have hpos : e ≠ 0 := fun h0 => hstop (by rw [h0, timeOfMinutes_zero])
        dsimp only
        omega
      · cases hl

theorem lineProblem_night (hl : Sound l) (ht : Sound t) : lineProblem (editorLine (l, some t)) = none ↔
    t.endTime ≠ l.startTime := by
  obtain ⟨s, e, hlt, hle, hday, heq⟩ := hl.times
  obtain ⟨s', e', hlt', hle', -, heq'⟩ := ht.times
  have hinj : timeOfMinutes e' = timeOfMinutes s ↔ e' = s := timeOfMinutes_inj hle' (by omega)
  rw [heq, heq', editorLine, lineProblem_times (by omega) hle']
  have hs : s < 1440 := by omega
  simp [hday, hs, hinj, eq_comm]

def OpenAt (lines : List StoredLine) (day : LineDay) (m : Nat) : Prop :=
  ∃ l ∈ lines, l.day = day ∧ minutesOf (short l.startTime) ≤ m ∧ m < minutesOf (short l.endTime)

theorem short_short (time : String) : short (short time) = short time := by
  rw [short, short, String.toList_ofList, take_take]
  rfl

variable {lines : List StoredLine}

theorem openAt_map_short : OpenAt (lines.map StoredLine.short) day m ↔ OpenAt lines day m := by
  simp [OpenAt, StoredLine.short, short_short]

theorem openAt_perm {lines lines' : List StoredLine}
    (h : lines.Perm lines') : OpenAt lines day m ↔ OpenAt lines' day m := by
  simp only [OpenAt, h.mem_iff]

theorem stored_of_claims (hsound : ∀ l ∈ rows, Sound l) {p : StoredLine × Option StoredLine}
    (hp : p ∈ claims nextDate fuel rows) :
    stored nextDate (editorLine p) = p.1 :: p.2.toList := by
  obtain ⟨l, o⟩ := p
  obtain ⟨hl, ho⟩ := mem_claims hp
  cases o with
  | none => exact stored_alone (hsound l hl)
  | some t =>
    obtain ⟨he, ht, hsub⟩ := ho t rfl
    exact stored_night (hsound l hl) (hsound t (hsub.subset (by simp))) he ht

theorem lineProblem_claims (hsound : ∀ l ∈ rows, Sound l) {o : Option StoredLine}
    (hp : (l, o) ∈ claims nextDate fuel rows) :
    lineProblem (editorLine (l, o)) = none ↔ ∀ t, o = some t → t.endTime ≠ l.startTime := by
  obtain ⟨hl, ht⟩ := mem_claims hp
  cases o with
  | none => simp [(hsound l hl).noProblem]
  | some t =>
    have htmem := (ht t rfl).2.2.subset (mem_cons_of_mem _ (mem_singleton_self t))
    simp [lineProblem_night (hsound l hl) (hsound t htmem)]

theorem sound_map_short (hsound : ∀ l ∈ lines, Sound l.short) : ∀ l ∈ lines.map StoredLine.short, Sound l := by
  intro l hl
  obtain ⟨l', hl', rfl⟩ := mem_map.mp hl
  exact hsound l' hl'

variable (nextDate) in
theorem perm_stored_of_read (hsound : ∀ l ∈ lines, Sound l.short) :
    (toStoredLines nextDate (fromStoredLines nextDate lines)).Perm (lines.map StoredLine.short) := by
  rw [toStoredLines, fromStoredLines, flatMap_map,
    flatMap_congr fun p hp => stored_of_claims (sound_map_short hsound) hp]
  exact perm_claims nextDate (by rw [length_map])

variable (nextDate) in
/-- No evening is listed before a morning of the next day that ends at the minute it starts. -/
def NoFullNight (rows : List StoredLine) : Prop :=
  ∀ l t, [l, t].Sublist rows → l.endTime = "24:00" → t.day = l.day.next nextDate → t.startTime = "00:00" →
    t.endTime ≠ l.startTime

variable (nextDate) in
/-- No evening fits two mornings of the list, and no morning two evenings. -/
def Alone (rows : List StoredLine) : Prop :=
  ∀ l ∈ rows, ∀ t ∈ rows, evening l = true → isTail nextDate l t = true →
    (∀ t' ∈ rows, isTail nextDate l t' = true → t' = t) ∧
      ∀ l' ∈ rows, isTail nextDate l' t = true → evening l' = true → l' = l

theorem read_saved (hsound : ∀ l ∈ lines, Sound l.short) (hno : NoFullNight nextDate (lines.map StoredLine.short)) :
    ∀ row ∈ fromStoredLines nextDate lines, lineProblem row = none := by
  intro row hrow
  obtain ⟨⟨l, o⟩, hclaim, rfl⟩ := mem_map.mp hrow
  refine (lineProblem_claims (sound_map_short hsound) hclaim).mpr fun t ho => ?_
  obtain ⟨he, htail, hsub⟩ := (mem_claims hclaim).2 t ho
  simp only [evening, Bool.and_eq_true, decide_eq_true_eq] at he
  simp only [isTail, Bool.and_eq_true, decide_eq_true_eq] at htail
  exact hno l t hsub he.1 htail.1.1.1 htail.1.1.2

theorem tail_of_full (hl : Sound l) (ht : Sound t) (hend : l.endTime = "24:00") (hday : t.day = l.day.next nextDate)
    (hstart : t.startTime = "00:00") (heq : t.endTime = l.startTime) :
    evening l = true ∧ isTail nextDate l t = true := by
  have hpos : l.startTime ≠ "00:00" := by
    intro h
    have := ht.ordered
    rw [hstart, heq, h] at this
    exact lt_irrefl _ this
  have hlast : l.startTime ≠ "24:00" := by
    intro h
    have := hl.ordered
    rw [hend, h] at this
    exact lt_irrefl _ this
  simp [evening, isTail, hend, hpos, hday, hstart, hlast, heq]

theorem no_full_night (hsound : ∀ l ∈ lines, Sound l.short) (halone : Alone nextDate (lines.map StoredLine.short))
    (hsaved : ∀ row ∈ fromStoredLines nextDate lines, lineProblem row = none) :
    NoFullNight nextDate (lines.map StoredLine.short) := by
  intro l t hsub hend hday hstart heq
  have hrows := sound_map_short hsound
  have hl : l ∈ lines.map StoredLine.short := hsub.subset mem_cons_self
  have ht : t ∈ lines.map StoredLine.short := hsub.subset (mem_cons_of_mem _ (mem_singleton_self t))
  obtain ⟨he, htail⟩ := tail_of_full (hrows l hl) (hrows t ht) hend hday hstart heq
  obtain ⟨honly, hone⟩ := halone l hl t ht he htail
  have hclaim := claims_of_only (Nat.le_of_eq (length_map _)) hsub he htail honly hone
  exact (lineProblem_claims hrows hclaim).mp (hsaved _ (mem_map_of_mem hclaim)) t rfl heq

end Canari.Bookings
