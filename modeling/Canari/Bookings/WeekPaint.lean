/-
  Canari.Bookings.WeekPaint — the typical week an organiser paints on a grid.

  The painter's model is the week as runs: per weekday, the merged ranges of minutes that are open.
  `weekRunsOf` reads the editor's weekly lines as runs, a gesture changes the runs of the days it
  covers, and `rowsOfWeek` writes the week back as lines through `fromStoredLines`, which folds an
  evening and the next morning into one line.

  The week that is written is the one that is read again, but for one shape (`reads_back_iff`): an
  opening from a minute `s` of Tuesday..Sunday to midnight and on to the same minute of the next
  day. Its two halves become a line from `s` to `s`, which `lineProblem` takes for an empty one, so
  the whole night is gone. Monday's night is never folded: Tuesday's morning is written before it.
-/

import Canari.Bookings.Availability
import Mathlib.Data.Fintype.Pi
import Mathlib.Tactic.FinCases

namespace Canari.Bookings

open Lib.Runs List

abbrev WeekRuns := Fin 7 → List (Nat × Nat)

inductive PaintMode
  | opens
  | closes

def GRAIN_MIN : Nat := 30

def DAY_SLOTS : Nat := 24 * 60 / GRAIN_MIN

def DAY_MIN : Nat := 24 * 60

def EditorLine.isWeekly (r : EditorLine) : Bool :=
  match r.day with
  | .weekly _ => true
  | .dated _ => false

def dayRuns (lines : List StoredLine) (day : Fin 7) : List (Nat × Nat) :=
  (lines.filter fun l => l.day = .weekly day).map fun l => (minutesOf l.startTime, minutesOf l.endTime)

def weekLine (day : Fin 7) (run : Nat × Nat) : StoredLine := ⟨.weekly day, timeOfMinutes run.1, timeOfMinutes run.2⟩

/-- The stored lines of a week. Monday comes last, for its morning is the tail of Sunday's night. -/
def linesOfWeek (week : WeekRuns) : List StoredLine :=
  [1, 2, 3, 4, 5, 6, 0].flatMap fun day : Fin 7 => (week day).map (weekLine day)

variable (nextDate : String → String)

/-- The weekly lines of the editor as the week's open runs; a line with a problem is not one. -/
def weekRunsOf (rows : List EditorLine) : WeekRuns := fun day =>
  merge (dayRuns (toStoredLines nextDate (rows.filter fun r => r.isWeekly && lineProblem r = none)) day)

/-- The week's runs as editor lines, then what is no run: the dated lines and those with a problem. -/
def rowsOfWeek (week : WeekRuns) (rows : List EditorLine) : List EditorLine :=
  fromStoredLines nextDate (linesOfWeek week) ++ rows.filter fun r => !r.isWeekly || lineProblem r ≠ none

/-- What the functions below do with the changed week: the same rows when nothing changed. -/
def writeWeek (rows : List EditorLine) (after : WeekRuns) : List EditorLine :=
  if weekRunsOf nextDate rows = after then rows else rowsOfWeek nextDate after rows

def paintDay (mode : PaintMode) (runs : List (Nat × Nat)) (lo hi : Nat) : List (Nat × Nat) :=
  match mode with
  | .opens => merge (runs ++ [(lo, hi)])
  | .closes => subtract runs lo hi

/-- The week after a rectangle is painted, in either direction, both ends included. -/
def paintWeek (before : WeekRuns) (dayA dayB slotA slotB : Nat) (mode : PaintMode) : WeekRuns := fun day =>
  let lo := max 0 (min slotA slotB) * GRAIN_MIN
  let hi := min DAY_MIN ((max slotA slotB + 1) * GRAIN_MIN)
  if (day : Nat) < min dayA dayB ∨ (day : Nat) > max dayA dayB then before day else paintDay mode (before day) lo hi

def paintRows (rows : List EditorLine) (dayA dayB slotA slotB : Nat) (mode : PaintMode) : List EditorLine :=
  writeWeek nextDate rows (paintWeek (weekRunsOf nextDate rows) dayA dayB slotA slotB mode)

/-! ## The week that is read -/

variable {nextDate} {rows : List EditorLine} {w : WeekRuns} {d day : Fin 7} {m : Nat} {l t : StoredLine}

/-- Every day of the week is merged runs of that day. -/
structure Week (w : WeekRuns) : Prop where
  merged : ∀ d, Merged (w d)
  bounded : ∀ d, ∀ r ∈ w d, r.2 ≤ DAY_MIN

variable (nextDate rows) in
theorem week_weekRunsOf : Week (weekRunsOf nextDate rows) := by
  have hrange : ∀ d, ∀ r ∈ dayRuns
    (toStoredLines nextDate (rows.filter fun r => r.isWeekly && lineProblem r = none)) d, r.1 < r.2 ∧
    r.2 ≤ DAY_MIN := by
    intro d r hr
    obtain ⟨l, hl, rfl⟩ := mem_map.mp hr
    obtain ⟨row, hrow, hl⟩ := mem_flatMap.mp (mem_of_mem_filter hl)
    have hok := of_mem_filter hrow
    rw [Bool.and_eq_true, decide_eq_true_eq] at hok
    exact range_of_stored hok.2 hl
  refine ⟨fun d => merged_merge fun r hr => (hrange d r hr).1, fun d r hr => ?_⟩
  refine (merged_merge fun r hr => (hrange d r hr).1).le_of_covers (fun m hm => ?_) hr
  exact covers_lt (fun r hr => (hrange d r hr).2) (covers_merge.mp hm)

theorem covers_weekRunsOf : Covers (weekRunsOf nextDate rows d) m ↔
    ∃ row ∈ rows, row.isWeekly = true ∧ lineProblem row = none ∧
      ∃ l ∈ stored nextDate row, l.day = .weekly d ∧ minutesOf l.startTime ≤ m ∧ m < minutesOf l.endTime := by
  rw [weekRunsOf, covers_merge]
  simp only [Covers, dayRuns, toStoredLines, mem_map, mem_filter, mem_flatMap, decide_eq_true_eq, Bool.and_eq_true]
  constructor
  · rintro ⟨r, ⟨l, ⟨⟨row, ⟨hrow, hw, hok⟩, hl⟩, hd⟩, rfl⟩, hm⟩
    exact ⟨row, hrow, hw, hok, l, hl, hd, hm⟩
  · rintro ⟨row, hrow, hw, hok, l, hl, hd, hm⟩
    exact ⟨_, ⟨l, ⟨⟨row, ⟨hrow, hw, hok⟩, hl⟩, hd⟩, rfl⟩, hm⟩

/-! ## The week that is written -/

theorem mem_linesOfWeek : l ∈ linesOfWeek w ↔ ∃ d, ∃ r ∈ w d, l = weekLine d r := by
  have hall : ∀ d : Fin 7, d ∈ [1, 2, 3, 4, 5, 6, 0] := by decide
  simp only [linesOfWeek, mem_flatMap, mem_map, hall, true_and, eq_comm]

theorem Week.lt (hw : Week w) {r : Nat × Nat} (hr : r ∈ w d) : r.1 < r.2 ∧ r.2 ≤ 1440 :=
  ⟨(hw.merged d).ranges r hr, hw.bounded d r hr⟩

theorem sound_of_mem (hw : Week w) (hl : l ∈ linesOfWeek w) : Sound l := by
  obtain ⟨d, r, hr, rfl⟩ := (mem_linesOfWeek).mp hl
  exact sound_times (show (LineDay.weekly d).Readable from trivial) (hw.lt hr).1 (hw.lt hr).2

theorem short_of_mem (hw : Week w) (hl : l ∈ linesOfWeek w) : l.short = l := by
  obtain ⟨d, r, hr, rfl⟩ := (mem_linesOfWeek).mp hl
  have hlt := hw.lt hr
  rw [StoredLine.short, weekLine, short_timeOfMinutes (by omega), short_timeOfMinutes hlt.2]

theorem map_short_linesOfWeek (hw : Week w) : (linesOfWeek w).map StoredLine.short = linesOfWeek w :=
  (map_congr_left fun _ hl => short_of_mem hw hl).trans (map_id _)

theorem dayRuns_linesOfWeek (hw : Week w) : dayRuns (linesOfWeek w) d = w d := by
  have hday : ∀ day : Fin 7,
    (((w day).map (weekLine day)).filter fun l => l.day = .weekly d).map
    (fun l => (minutesOf l.startTime, minutesOf l.endTime)) = if day = d then w d else [] := by
    intro day
    split_ifs with h
    · subst h
      rw [filter_eq_self.mpr fun l hl => by obtain ⟨r, -, rfl⟩ := mem_map.mp hl; exact decide_eq_true rfl, map_map]
      refine (map_congr_left fun r hr => ?_).trans (map_id _)
      have hlt := hw.lt hr
      simp [weekLine, minutesOf_timeOfMinutes hlt.2, minutesOf_timeOfMinutes (show r.1 ≤ 1440 by omega)]
    · rw [filter_eq_nil_iff.mpr fun l hl => by obtain ⟨r, -, rfl⟩ := mem_map.mp hl; simpa [weekLine] using h, map_nil]
  rw [dayRuns, linesOfWeek, filter_flatMap, map_flatMap]
  simp only [hday]
  fin_cases d <;> simp

def rank : LineDay → Nat
  | .weekly d => (d + 6 : Fin 7)
  | .dated _ => 0

theorem rank_next : ∀ d : Fin 7, d ≠ 0 ↔ rank (.weekly d) ≤ rank (.weekly (d + 1)) := by
  decide

theorem next_inj : ∀ d d' : Fin 7, d + 1 = d' + 1 → d = d' := by
  decide

theorem rank_ne : ∀ d : Fin 7, rank (.weekly d) ≠ rank (.weekly (d + 1)) := by
  decide

theorem rank_linesOfWeek : (linesOfWeek w).Pairwise fun a b => rank a.day ≤ rank b.day := by
  refine pairwise_flatMap.mpr ⟨fun d _ => ?_, ?_⟩
  · exact pairwise_map.mpr (pairwise_of_forall fun _ _ => le_rfl)
  · have horder : [1, 2, 3, 4, 5, 6, 0].Pairwise fun a b : Fin 7 => rank (.weekly a) ≤ rank (.weekly b) := by decide
    refine horder.imp fun hab x hx y hy => ?_
    obtain ⟨_, -, rfl⟩ := mem_map.mp hx
    obtain ⟨_, -, rfl⟩ := mem_map.mp hy
    exact hab

theorem nodup_linesOfWeek (hw : Week w) : (linesOfWeek w).Nodup := by
  refine nodup_flatMap.mpr ⟨fun d _ => ?_, ?_⟩
  · refine (hw.merged d).nodup.map_on fun a ha b hb hab => ?_
    obtain ⟨-, h1, h2⟩ := StoredLine.mk.inj hab
    have hla := hw.lt ha
    have hlb := hw.lt hb
    rw [timeOfMinutes_inj (by omega) (by omega)] at h1 h2
    exact Prod.ext h1 h2
  · have horder : [1, 2, 3, 4, 5, 6, 0].Pairwise fun a b : Fin 7 => a ≠ b := by decide
    refine horder.imp fun {a b} hab x hx hy => ?_
    obtain ⟨_, -, rfl⟩ := mem_map.mp hx
    obtain ⟨_, -, heq⟩ := mem_map.mp hy
    exact hab (LineDay.weekly.inj (StoredLine.mk.inj heq).1).symm

theorem sublist_of_rank (hl : l ∈ linesOfWeek w) (ht : t ∈ linesOfWeek w)
    (hlt : rank l.day < rank t.day) : [l, t].Sublist (linesOfWeek w) := by
  have horder := rank_linesOfWeek (w := w)
  obtain ⟨as, bs, heq⟩ := append_of_mem hl
  rw [heq] at ht horder ⊢
  rw [pairwise_append] at horder
  have htb : t ∈ bs := by
    rcases mem_append.mp ht with hta | htb
    · have := horder.2.2 t hta l mem_cons_self
      omega
    · rcases mem_cons.mp htb with rfl | htb
      · omega
      · exact htb
  exact (List.Sublist.cons_cons l (singleton_sublist.mpr htb)).trans (sublist_append_right as _)

/-! ## The night that is lost -/

/-- Open from a minute of Tuesday..Sunday to midnight, and on to the same minute of the next day. -/
def DayLongNight (T : Fin 7 → Nat → Prop) : Prop := ∃ d s, d ≠ 0 ∧ Stretch (T d) s DAY_MIN ∧ Stretch (T (d + 1)) 0 s

variable (nextDate) in
theorem night_claimed (hw : Week w) {s : Nat} (hd : d ≠ 0) (hnight : Stretch (Covers (w d)) s DAY_MIN)
    (hmorning : Stretch (Covers (w (d + 1))) 0 s) :
    (weekLine d (s, 1440), some (weekLine (d + 1) (0, s))) ∈ claims nextDate (linesOfWeek w).length
      (linesOfWeek w) := by
  have hr : (s, 1440) ∈ w d := (mem_iff_stretch (hw.merged d)).mpr hnight
  have hr' : (0, s) ∈ w (d + 1) := (mem_iff_stretch (hw.merged _)).mpr hmorning
  have hlt : s < 1440 := hnight.range
  have hpos : 0 < s := hmorning.range
  have hl := (mem_linesOfWeek).mpr ⟨d, _, hr, rfl⟩
  have ht := (mem_linesOfWeek).mpr ⟨d + 1, _, hr', rfl⟩
  have hrank := lt_of_le_of_ne ((rank_next d).mp hd) (rank_ne d)
  refine claims_of_only le_rfl (sublist_of_rank hl ht hrank) ?_ ?_ (fun t' ht' htail => ?_) (fun l' hl' htail hev => ?_)
  · exact (evening_times hlt.le le_rfl).mpr ⟨rfl, hpos⟩
  · exact (isTail_times hlt.le (by omega) hlt.le).mpr ⟨rfl, rfl, hlt.ne, le_rfl⟩
  · -- The next day has one run from midnight.
    obtain ⟨d', r, hr'', rfl⟩ := (mem_linesOfWeek).mp ht'
    have hlt'' := hw.lt hr''
    rw [weekLine, weekLine, isTail_times hlt.le (by omega) hlt''.2] at htail
    obtain rfl : d' = d + 1 := LineDay.weekly.inj htail.1
    rw [(hw.merged _).eq_of_common (m := 0) hr'' hr' (by omega) (by omega)]
  · -- The day has one run up to midnight.
    obtain ⟨d', r, hr'', rfl⟩ := (mem_linesOfWeek).mp hl'
    have hlt'' := hw.lt hr''
    rw [weekLine, evening_times (by omega) hlt''.2] at hev
    rw [weekLine, weekLine, isTail_times (by omega) (by omega) hlt.le] at htail
    obtain rfl : d = d' := next_inj _ _ (LineDay.weekly.inj htail.1)
    rw [(hw.merged _).eq_of_common (m := 1439) hr'' hr (by omega) (by omega)]

theorem night_of_empty_claim (hw : Week w) {n : Nat} (hclaim : (l, some t) ∈ claims nextDate n (linesOfWeek w))
    (heq : t.endTime = l.startTime) :
    DayLongNight fun d => Covers (w d) := by
  obtain ⟨hl, ht⟩ := mem_claims hclaim
  obtain ⟨hev, htail, hsub⟩ := ht t rfl
  have hrank : rank l.day ≤ rank t.day := by simpa using rank_linesOfWeek.sublist hsub
  obtain ⟨d, ⟨s, e⟩, hr, rfl⟩ := (mem_linesOfWeek).mp hl
  obtain ⟨d', ⟨s', e'⟩, hr', rfl⟩ := (mem_linesOfWeek).mp (hsub.subset (mem_cons_of_mem _ (mem_singleton_self t)))
  have hlt := hw.lt hr
  have hlt' := hw.lt hr'
  dsimp only [weekLine] at hlt hlt' hrank heq hev htail
  rw [evening_times (by omega) hlt.2] at hev
  rw [isTail_times (by omega) (by omega) hlt'.2] at htail
  rw [timeOfMinutes_inj hlt'.2 (by omega)] at heq
  obtain ⟨hday, rfl, -, -⟩ := htail
  obtain rfl : d' = d + 1 := LineDay.weekly.inj hday
  obtain ⟨rfl, -⟩ := hev
  subst heq
  exact ⟨d, e', (rank_next d).mpr hrank, (mem_iff_stretch (hw.merged d)).mp hr, (mem_iff_stretch (hw.merged _)).mp hr'⟩

theorem weekRunsOf_append_kept {written : List EditorLine} :
    weekRunsOf nextDate (written ++ rows.filter fun r => !r.isWeekly || lineProblem r ≠ none) =
      weekRunsOf nextDate written := by
  have hkept : ((rows.filter fun r => !r.isWeekly || lineProblem r ≠ none).filter fun r => r.isWeekly &&
    lineProblem r = none) = [] := by
    refine filter_eq_nil_iff.mpr fun r hr => ?_
    have := of_mem_filter hr
    grind
  unfold weekRunsOf
  rw [filter_append, hkept, append_nil]

theorem isWeekly_of_claims {p : StoredLine × Option StoredLine} {n : Nat} (hp : p ∈ claims nextDate n (linesOfWeek w)) :
    (editorLine p).isWeekly = true := by
  obtain ⟨l, o⟩ := p
  obtain ⟨d, r, -, rfl⟩ := (mem_linesOfWeek).mp (mem_claims hp).1
  cases o <;> rfl

theorem reads_back_of_none (hw : Week w) (hnone : ¬ DayLongNight fun d => Covers (w d)) :
    weekRunsOf nextDate (fromStoredLines nextDate (linesOfWeek w)) = w := by
  have hall : (fromStoredLines nextDate (linesOfWeek w)).filter
    (fun r => r.isWeekly && lineProblem r = none) = fromStoredLines nextDate (linesOfWeek w) := by
    refine filter_eq_self.mpr fun r hr => ?_
    rw [fromStoredLines, map_short_linesOfWeek hw] at hr
    obtain ⟨⟨l, o⟩, hp, rfl⟩ := mem_map.mp hr
    rw [Bool.and_eq_true, decide_eq_true_eq, lineProblem_claims (fun l hl => sound_of_mem hw hl) hp]
    refine ⟨isWeekly_of_claims hp, fun t ho heq => ?_⟩
    subst ho
    exact hnone (night_of_empty_claim hw hp heq)
  have hsound : ∀ l ∈ linesOfWeek w, Sound l.short := fun l hl => (short_of_mem hw hl).symm ▸ sound_of_mem hw hl
  funext d
  rw [weekRunsOf, hall]
  refine merge_of_perm (hw.merged d) ?_
  rw [← dayRuns_linesOfWeek hw (d := d)]
  have hperm := perm_stored_of_read nextDate hsound
  rw [map_short_linesOfWeek hw] at hperm
  exact (hperm.filter _).map _

theorem claims_unique (hw : Week w) {p q : StoredLine × Option StoredLine}
    (hp : p ∈ claims nextDate (linesOfWeek w).length (linesOfWeek w))
    (hq : q ∈ claims nextDate (linesOfWeek w).length (linesOfWeek w)) (hlp : l ∈ p.1 :: p.2.toList)
    (hlq : l ∈ q.1 :: q.2.toList) : p = q := by
  have hnodup := (perm_claims nextDate (le_refl (linesOfWeek w).length)).nodup_iff.mpr (nodup_linesOfWeek hw)
  have hdisj := (nodup_flatMap.mp hnodup).2
  by_contra hne
  have : Std.Symm (Function.onFun List.Disjoint fun p : StoredLine × Option StoredLine => p.1 :: p.2.toList) :=
    ⟨fun _ _ h _ hb ha => h ha hb⟩
  exact hdisj.forall hp hq hne hlp hlq

variable (nextDate) in
theorem night_lost (hw : Week w) {s : Nat} (hd : d ≠ 0) (hnight : Stretch (Covers (w d)) s DAY_MIN)
    (hmorning : Stretch (Covers (w (d + 1))) 0 s) :
    ¬ Covers (weekRunsOf nextDate (fromStoredLines nextDate (linesOfWeek w)) d) 1439 := by
  intro hc
  obtain ⟨row, hrow, -, hok, l, hl, hday, hm⟩ := (covers_weekRunsOf).mp hc
  rw [fromStoredLines, map_short_linesOfWeek hw] at hrow
  obtain ⟨p, hp, rfl⟩ := mem_map.mp hrow
  rw [stored_of_claims (fun l hl => sound_of_mem hw hl) hp] at hl
  -- A line of that day with the minute before midnight is the evening itself, and its row the refused one.
  have hmem : l ∈ linesOfWeek w := (perm_claims nextDate le_rfl).subset (mem_flatMap.mpr ⟨p, hp, hl⟩)
  have heve : l = weekLine d (s, 1440) := by
    obtain ⟨d', r, hr, rfl⟩ := (mem_linesOfWeek).mp hmem
    obtain rfl : d' = d := LineDay.weekly.inj hday
    have hlt := hw.lt hr
    dsimp only [weekLine] at hm
    rw [minutesOf_timeOfMinutes (by omega), minutesOf_timeOfMinutes hlt.2] at hm
    have hs : s < 1440 := hnight.range
    rw [(hw.merged d').eq_of_common hr ((mem_iff_stretch (hw.merged d')).mpr hnight) hm (by
      dsimp only [DAY_MIN]; omega)]
    rfl
  have hclaim := night_claimed nextDate hw hd hnight hmorning
  have heq := claims_unique hw hp hclaim hl (heve ▸ mem_cons_self)
  subst heq
  exact (lineProblem_claims (fun l hl => sound_of_mem hw hl) hclaim).mp hok _ rfl rfl

variable (nextDate rows) in
theorem reads_back_iff (hw : Week w) : weekRunsOf nextDate (rowsOfWeek nextDate w rows) = w ↔
    ¬ DayLongNight fun d => Covers (w d) := by
  rw [rowsOfWeek, weekRunsOf_append_kept]
  refine ⟨fun heq => ?_, reads_back_of_none hw⟩
  rintro ⟨d, s, hd, hnight, hmorning⟩
  have hlt : s < 1440 := hnight.range
  apply night_lost nextDate hw hd hnight hmorning
  rw [heq]
  exact hnight.inside 1439 (by omega) (by decide)

/-! ## Painting -/

theorem week_ext {w' : WeekRuns} (hw : Week w) (hw' : Week w')
    (hc : ∀ d m, Covers (w d) m ↔ Covers (w' d) m) : w = w' :=
  funext fun d => eq_of_covers (hw.merged d) (hw'.merged d) (hc d)

theorem writeWeek_iff {after : WeekRuns} {T : Fin 7 → Nat → Prop} (hafter : Week after)
    (hT : ∀ d m, Covers (after d) m ↔ T d m) :
    (∀ d m, Covers (weekRunsOf nextDate (writeWeek nextDate rows after) d) m ↔ T d m) ↔
      (∀ d m, T d m ↔ Covers (weekRunsOf nextDate rows d) m) ∨ ¬ DayLongNight T := by
  obtain rfl : (fun d => Covers (after d)) = T := funext fun d => funext fun m => propext (hT d m)
  rw [writeWeek]
  split_ifs with hsame
  · simp [hsame]
  · have hdiff : ¬ ∀ d m, Covers (after d) m ↔ Covers (weekRunsOf nextDate rows d) m :=
      fun h => hsame (week_ext hafter (week_weekRunsOf nextDate rows) h).symm
    rw [or_iff_right hdiff, ← reads_back_iff nextDate rows hafter]
    exact ⟨fun h => week_ext (week_weekRunsOf nextDate _) hafter h, fun h => by simp [h]⟩

/-- A minute of the week in the rectangle of a gesture. -/
def InRectangle (dayA dayB slotA slotB : Nat) (d : Fin 7) (m : Nat) : Prop :=
  (min dayA dayB ≤ d ∧ d ≤ max dayA dayB) ∧ min slotA slotB * GRAIN_MIN ≤ m ∧ m < (max slotA slotB + 1) * GRAIN_MIN

/-- The minutes open after a gesture: the old ones with the rectangle opened, or closed. -/
def Painted (nextDate : String → String) (rows : List EditorLine) (dayA dayB slotA slotB : Nat) (mode : PaintMode)
    (d : Fin 7) (m : Nat) : Prop :=
  match mode with
  | .opens => Covers (weekRunsOf nextDate rows d) m ∨ InRectangle dayA dayB slotA slotB d m
  | .closes => Covers (weekRunsOf nextDate rows d) m ∧ ¬ InRectangle dayA dayB slotA slotB d m

theorem merged_paintDay {mode : PaintMode} {runs : List (Nat × Nat)} {lo hi : Nat} (h : Merged runs) (hlt : lo < hi) :
    Merged (paintDay mode runs lo hi) := by
  cases mode with
  | opens =>
    refine merged_merge fun r hr => ?_
    rcases mem_append.mp hr with hr | hr
    · exact h.ranges r hr
    · rw [mem_singleton.mp hr]
      exact hlt
  | closes => exact merged_subtract h hlt

theorem covers_paintDay {mode : PaintMode} {runs : List (Nat × Nat)}
    {lo hi : Nat} : Covers (paintDay mode runs lo hi) m ↔
    match mode with
    | .opens => Covers runs m ∨ (lo ≤ m ∧ m < hi)
    | .closes => Covers runs m ∧ ¬ (lo ≤ m ∧ m < hi) := by
  cases mode with
  | opens => rw [paintDay, covers_merge, covers_append, covers_cons, or_iff_left not_covers_nil]
  | closes => exact covers_subtract

section

variable {dayA dayB slotA slotB : Nat} {mode : PaintMode}

theorem covers_paintWeek (hA : slotA < DAY_SLOTS) (hB : slotB < DAY_SLOTS) :
    Covers (paintWeek (weekRunsOf nextDate rows) dayA dayB slotA slotB mode d) m ↔
      Painted nextDate rows dayA dayB slotA slotB mode d m := by
  simp only [DAY_SLOTS, GRAIN_MIN] at hA hB
  dsimp only [paintWeek]
  split_ifs with hday
  · have hnot : ¬ InRectangle dayA dayB slotA slotB d m := fun h => by
      have := h.1
      omega
    cases mode <;> simp [Painted, hnot]
  · have hin : InRectangle dayA dayB slotA slotB d m ↔
      max 0 (min slotA slotB) * GRAIN_MIN ≤ m ∧ m < min DAY_MIN ((max slotA slotB + 1) * GRAIN_MIN) := by
      simp only [InRectangle, GRAIN_MIN, DAY_MIN]
      omega
    rw [covers_paintDay]
    cases mode <;> simp only [Painted, hin]

theorem merged_paintWeek (hA : slotA < DAY_SLOTS) (hB : slotB < DAY_SLOTS)
    (hw : Week w) : Merged (paintWeek w dayA dayB slotA slotB mode d) := by
  simp only [DAY_SLOTS, GRAIN_MIN] at hA hB
  dsimp only [paintWeek]
  split_ifs
  · exact hw.merged d
  · refine merged_paintDay (hw.merged d) ?_
    simp only [GRAIN_MIN, DAY_MIN]
    omega

theorem InRectangle.lt (hA : slotA < DAY_SLOTS) (hB : slotB < DAY_SLOTS)
    (h : InRectangle dayA dayB slotA slotB d m) : m < DAY_MIN := by
  obtain ⟨-, -, hlt⟩ := h
  have hslots : DAY_SLOTS = 48 := rfl
  have hday : DAY_MIN = 1440 := rfl
  rw [show GRAIN_MIN = 30 from rfl] at hlt
  omega

theorem painted_lt (hA : slotA < DAY_SLOTS) (hB : slotB < DAY_SLOTS)
    (hm : Painted nextDate rows dayA dayB slotA slotB mode d m) : m < DAY_MIN := by
  have hold : Covers (weekRunsOf nextDate rows d) m → m < DAY_MIN :=
    fun hc => covers_lt ((week_weekRunsOf nextDate rows).bounded d) hc
  cases mode with
  | opens =>
    rcases hm with hm | hm
    · exact hold hm
    · exact hm.lt hA hB
  | closes => exact hold hm.1

theorem week_paintWeek (hA : slotA < DAY_SLOTS)
    (hB : slotB < DAY_SLOTS) : Week (paintWeek (weekRunsOf nextDate rows) dayA dayB slotA slotB mode) := by
  have hmerged : ∀ d, Merged (paintWeek (weekRunsOf nextDate rows) dayA dayB slotA slotB mode d) :=
    fun d => merged_paintWeek hA hB (week_weekRunsOf nextDate rows)
  refine ⟨hmerged, fun d r hr => (hmerged d).le_of_covers (fun m hm => ?_) hr⟩
  exact painted_lt hA hB ((covers_paintWeek hA hB).mp hm)

/-- Painting is exact unless the painted week is a change and has such a night. -/
theorem paintRows_iff (hA : slotA < DAY_SLOTS) (hB : slotB < DAY_SLOTS) :
    (∀ d m, Covers (weekRunsOf nextDate (paintRows nextDate rows dayA dayB slotA slotB mode) d) m ↔
      Painted nextDate rows dayA dayB slotA slotB mode d m) ↔
      (∀ d m, Painted nextDate rows dayA dayB slotA slotB mode d m ↔ Covers (weekRunsOf nextDate rows d) m) ∨
        ¬ DayLongNight (Painted nextDate rows dayA dayB slotA slotB mode) :=
  writeWeek_iff (week_paintWeek hA hB) fun _ _ => covers_paintWeek hA hB

end

/-! ## A week that is painted, read and stored -/

/-- A gesture changes the open minutes of the week by its rectangle, the reading of stored lines keeps
    their minutes and gives lines that can be saved, and a week of merged runs that is written is
    read again: each exactly when no evening is followed by a morning that ends at the minute the
    evening starts. Of lines that compete for one another the first to come is folded, which may
    spare such a night. -/
theorem painting_is_exact_iff (nextDate : String → String) :
    (∀ rows dayA dayB slotA slotB mode, slotA < DAY_SLOTS → slotB < DAY_SLOTS →
      ((∀ d m, Covers (weekRunsOf nextDate (paintRows nextDate rows dayA dayB slotA slotB mode) d) m ↔
          Painted nextDate rows dayA dayB slotA slotB mode d m) ↔
        (∀ d m, Painted nextDate rows dayA dayB slotA slotB mode d m ↔ Covers (weekRunsOf nextDate rows d) m) ∨
          ¬ DayLongNight (Painted nextDate rows dayA dayB slotA slotB mode))) ∧
    (∀ lines : List StoredLine, (∀ l ∈ lines, Sound l.short) →
      (∀ day m, OpenAt (toStoredLines nextDate (fromStoredLines nextDate lines)) day m ↔ OpenAt lines day m) ∧
        (NoFullNight nextDate (lines.map StoredLine.short) →
          ∀ row ∈ fromStoredLines nextDate lines, lineProblem row = none) ∧
        (Alone nextDate (lines.map StoredLine.short) →
          ((∀ row ∈ fromStoredLines nextDate lines, lineProblem row = none) ↔
            NoFullNight nextDate (lines.map StoredLine.short)))) ∧
    (∀ w rows, Week w → (weekRunsOf nextDate (rowsOfWeek nextDate w rows) = w ↔
      ¬ DayLongNight fun d => Covers (w d))) := by
  refine ⟨fun _ _ _ _ _ _ hA hB => paintRows_iff hA hB, fun lines hsound => ⟨fun day m => ?_, read_saved hsound,
    fun halone => ⟨no_full_night hsound halone, read_saved hsound⟩⟩, fun _ _ hw => reads_back_iff nextDate _ hw⟩
  rw [openAt_perm (perm_stored_of_read nextDate hsound), openAt_map_short]

/-- Noon to two o'clock on Monday, painted on an empty week; a Friday night read as one line. -/
theorem a_monday_is_painted :
    (∀ d m, Covers (weekRunsOf id (paintRows id [] 0 0 24 27 .opens) d) m ↔ Painted id [] 0 0 24 27 .opens d m) ∧
      fromStoredLines id [⟨.weekly 4, "22:00:00", "24:00:00"⟩,
        ⟨.weekly 5, "00:00:00", "02:00:00"⟩] = [⟨.weekly 4, "22:00", "02:00"⟩] ∧
      (∀ row ∈ fromStoredLines id [⟨.weekly 4, "22:00:00", "24:00:00"⟩, ⟨.weekly 5, "00:00:00", "02:00:00"⟩],
        lineProblem row = none) := by
  refine ⟨((painting_is_exact_iff id).1 [] 0 0 24 27 .opens (by decide) (by decide)).mpr (.inr ?_), by decide, ?_⟩
  · rintro ⟨d, s, hd, hnight, -⟩
    rcases hnight.inside s le_rfl hnight.range with hold | hrect
    · exact not_covers_nil hold
    · have hday := hrect.1.2
      exact hd (Fin.ext (by omega))
  · have hsound : ∀ l ∈ [(⟨.weekly 4, "22:00:00", "24:00:00"⟩ : StoredLine), ⟨.weekly 5, "00:00:00", "02:00:00"⟩],
      Sound l.short := by
      intro l hl
      simp only [mem_cons, not_mem_nil, or_false] at hl
      rcases hl with rfl | rfl
      · exact ⟨by decide, by decide⟩
      · exact ⟨by decide, by decide⟩
    refine ((painting_is_exact_iff id).2.1 _ hsound).2.1 fun l t hsub _ _ _ => ?_
    have hboth := hsub.eq_of_length rfl
    simp only [map_cons, map_nil, cons.injEq, and_true] at hboth
    obtain ⟨rfl, rfl⟩ := hboth
    decide

/-- Friday is open from 22:00 to midnight; painting Saturday open up to 22:00 closes both. -/
theorem a_painted_saturday_closes_friday :
    (∀ row ∈ [(⟨.weekly 4, "22:00", "24:00"⟩ : EditorLine)], lineProblem row = none) ∧
      paintRows id [⟨.weekly 4, "22:00", "24:00"⟩] 5 5 0 43 .opens = [⟨.weekly 4, "22:00", "22:00"⟩] ∧
      weekRunsOf id [⟨.weekly 4, "22:00", "24:00"⟩] 4 = [(1320, 1440)] ∧
      weekRunsOf id (paintRows id [⟨.weekly 4, "22:00", "24:00"⟩] 5 5 0 43 .opens) 4 = [] ∧
      ¬ (∀ d m, Covers (weekRunsOf id (paintRows id [⟨.weekly 4, "22:00", "24:00"⟩] 5 5 0 43 .opens) d) m ↔
        Painted id [⟨.weekly 4, "22:00", "24:00"⟩] 5 5 0 43 .opens d m) := by
  have hfriday : weekRunsOf id [⟨.weekly 4, "22:00", "24:00"⟩] 4 = [(1320, 1440)] := by decide
  have hgone : weekRunsOf id (paintRows id [⟨.weekly 4, "22:00", "24:00"⟩] 5 5 0 43 .opens) 4 = [] := by decide
  refine ⟨by decide, by decide, hfriday, hgone, fun hexact => ?_⟩
  have hopen : Covers (weekRunsOf id [⟨.weekly 4, "22:00", "24:00"⟩] 4) 1380 := by
    rw [hfriday]
    decide
  have hclosed := (hexact 4 1380).mpr (.inl hopen)
  rw [hgone] at hclosed
  exact not_covers_nil hclosed

end Canari.Bookings
