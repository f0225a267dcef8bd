/-
  Canari.Bookings.DayParts — what the windows of one date are, before any midnight join.

  The pieces of a date come sorted by start, and one loop makes the date's windows of them. In a slots
  space a piece is skipped when its key was seen, so the windows are the distinct pieces. In a step
  space a piece that starts no later than the last window ends is taken into it, so the windows are
  the connected parts of the date: all of a part is covered, and neither the instant before it nor
  the one it ends at is (`Part`). A key seen in a step space is of a window that starts earlier, so
  it never drops a piece.

  `mem_dayWindows`: both at once, each range once (`nodup_dayWindows`).
-/

import Canari.Bookings.DatesAround
import Mathlib.Data.List.Induction

namespace Canari.Bookings.Slots

open Bookings.ZonedTime List

def covers (t : Int) (r : Range) : Bool := r.startMs ≤ t && t < r.endMs

@[simp] theorem covers_iff {t : Int} {r : Range} : covers t r = true ↔ r.startMs ≤ t ∧ t < r.endMs := by
  simp [covers]

structure Part (ranges : List Range) (r : Range) : Prop where
  pos : r.startMs < r.endMs
  inside : ∀ x, covers x r → ∃ q ∈ ranges, covers x q
  before : ∀ q ∈ ranges, ¬ covers (r.startMs - 1) q
  after : ∀ q ∈ ranges, ¬ covers r.endMs q

/-- What a date's pieces owe: each distinct one in a slots space, each connected part in a step space. -/
def Owed (config : SlotConfig) (pieces : List Piece) (r : Range) : Prop :=
  match config.slotMode with
  | .slots => r ∈ pieces.map fun p => p.toRange
  | .step => Part (pieces.map fun p => p.toRange) r

/-! ## Separated ranges -/

/-- Ranges with an instant between any two, the later ones first. -/
def Separated (ranges : List Range) : Prop := ranges.Pairwise fun later earlier => earlier.endMs < later.startMs

variable {ranges union : List Range} {r q : Range}

theorem Separated.apart (h : Separated union) (hr : r ∈ union) (hq : q ∈ union)
    (hne : r ≠ q) : r.endMs < q.startMs ∨ q.endMs < r.startMs := by
  induction h with
  | nil => cases hr
  | @cons x l hx _ ih =>
    rcases mem_cons.mp hr with rfl | hr'
    · rcases mem_cons.mp hq with rfl | hq'
      · exact absurd rfl hne
      · exact .inr (hx q hq')
    · rcases mem_cons.mp hq with rfl | hq'
      · exact .inl (hx r hr')
      · exact ih hr' hq'

/-- Separated ranges that cover what `ranges` do are its parts. -/
theorem Separated.mem_iff_part (h : Separated union) (hpos : ∀ w ∈ union, w.startMs < w.endMs)
    (hsame : ∀ x, (∃ w ∈ union, covers x w) ↔ ∃ p ∈ ranges, covers x p) : r ∈ union ↔ Part ranges r := by
  simp only [covers_iff] at hsame
  constructor
  · intro hr
    have hlt := hpos r hr
    refine ⟨hlt, ?_, ?_, ?_⟩
    · intro x hx
      simp only [covers_iff] at hx ⊢
      exact (hsame x).mp ⟨r, hr, hx⟩
    · intro p hp hcovers
      obtain ⟨w, hw, h1, h2⟩ := (hsame _).mpr ⟨p, hp, (covers_iff).mp hcovers⟩
      have hne : r ≠ w := fun heq => by subst heq; omega
      have := h.apart hr hw hne
      omega
    · intro p hp hcovers
      obtain ⟨w, hw, h1, h2⟩ := (hsame _).mpr ⟨p, hp, (covers_iff).mp hcovers⟩
      have hne : r ≠ w := fun heq => by subst heq; omega
      have := h.apart hr hw hne
      omega
  · intro hpart
    have hlt := hpart.pos
    -- The window at the start of the part is the part.
    obtain ⟨w, hw, h1, h2⟩ := (hsame r.startMs).mpr (by simpa using hpart.inside r.startMs (by simp [hlt]))
    have huncovered : ∀ x, (∀ p ∈ ranges, ¬ covers x p) → ¬ (w.startMs ≤ x ∧ x < w.endMs) := by
      intro x hx hcovered
      obtain ⟨p, hp, hcovers⟩ := (hsame x).mp ⟨w, hw, hcovered⟩
      exact hx p hp ((covers_iff).mpr hcovers)
    have hstart := huncovered _ hpart.before
    have hstop := huncovered _ hpart.after
    have hreach : ¬ w.endMs < r.endMs := by
      intro hshort
      obtain ⟨v, hv, h3, h4⟩ := (hsame w.endMs).mpr (by simpa using hpart.inside w.endMs ((covers_iff).mpr (by omega)))
      have hne : w ≠ v := fun heq => by subst heq; omega
      have := h.apart hw hv hne
      omega
    have heq : r = w := by
      cases r
      cases w
      simp only [Range.mk.injEq]
      dsimp only at *
      omega
    rw [heq]
    exact hw

/-! ## The loop over the pieces -/

variable {z : Zone} {config : SlotConfig} {lines : List AvailabilityLine}
    {exceptions : List AvailabilityException} {date : Int}
variable {pieces : List Piece} {p : Piece} {s : List Piece × List Range}

theorem piece_pos (h : p ∈ piecesOn z lines exceptions date) : p.startMs < p.endMs := by
  rw [piecesOn] at h
  split_ifs at h
  · cases h
  · rw [mem_insertionSort, mem_filterMap] at h
    obtain ⟨line, -, hp⟩ := h
    rw [pieceOn] at hp
    split_ifs at hp with hpos
    cases hp
    exact not_le.mp hpos

/-- The loop of a slots space: its windows are the distinct pieces read. -/
structure Distinct (pieces : List Piece) (s : List Piece × List Range) : Prop where
  seen : s.2 = s.1.map fun p => p.toRange
  once : s.2.Nodup
  same : ∀ r, r ∈ s.2 ↔ r ∈ pieces.map fun p => p.toRange

theorem Distinct.add (hmode : config.slotMode = .slots) (h : Distinct pieces s) : Distinct (pieces ++ [p])
    (addPiece config s p) := by
  have hpush : addPiece config s p = if p.toRange ∈ s.2 then s else (p :: s.1, p.toRange :: s.2) := by
    rw [addPiece]
    split
    · exact if_neg (by simp [hmode])
    · rfl
  rw [hpush]
  by_cases hin : p.toRange ∈ s.2
  · rw [if_pos hin]
    refine ⟨h.seen, h.once, fun r => ?_⟩
    rw [map_append, mem_append, ← h.same r]
    refine ⟨Or.inl, fun hr => hr.elim id fun hr => ?_⟩
    rw [mem_singleton.mp hr]
    exact hin
  · rw [if_neg hin]
    refine ⟨?_, nodup_cons.mpr ⟨hin, h.once⟩, fun r => ?_⟩
    · rw [map_cons, h.seen]
    · rw [map_append, mem_append, ← h.same r, mem_cons, map_singleton, mem_singleton]
      exact or_comm

/-- The loop of a step space: its windows are separated, cover what the pieces read do and start where
    some of them do. -/
structure United (pieces : List Piece) (s : List Piece × List Range) : Prop where
  pos : ∀ w ∈ s.1, w.startMs < w.endMs
  separated : Separated (s.1.map fun p => p.toRange)
  same : ∀ x, (∃ w ∈ s.1, covers x w.toRange) ↔ ∃ p ∈ pieces, covers x p.toRange
  starts : ∀ w ∈ s.1, ∃ p ∈ pieces, p.startMs = w.startMs
  seen : ∀ r ∈ s.2, ∃ w ∈ s.1, w.startMs = r.startMs

theorem covered_cons {w : Piece} {l : List Piece} {x : Int} :
    (∃ q ∈ w :: l, covers x q.toRange) ↔ covers x w.toRange ∨ ∃ q ∈ l, covers x q.toRange := by
  simp

theorem covered_concat {l : List Piece} {x : Int} :
    (∃ q ∈ l ++ [p], covers x q.toRange) ↔ (∃ q ∈ l, covers x q.toRange) ∨ covers x p.toRange := by
  simp only [mem_append, mem_singleton]
  constructor
  · intro ⟨q, hq, hx⟩
    rcases hq with hq | rfl
    · exact .inl ⟨q, hq, hx⟩
    · exact .inr hx
  · intro h
    rcases h with ⟨q, hq, hx⟩ | hx
    · exact ⟨q, .inl hq, hx⟩
    · exact ⟨p, .inr rfl, hx⟩

/-- A piece apart from every window is a window of its own. -/
theorem United.push (h : United pieces s) (hp : p.startMs < p.endMs) (happart : ∀ w ∈ s.1, w.endMs < p.startMs) :
    United (pieces ++ [p]) (if p.toRange ∈ s.2 then s else (p :: s.1, p.toRange :: s.2)) := by
  have hunseen : p.toRange ∉ s.2 := by
    intro hin
    obtain ⟨w, hw, hstart⟩ := h.seen _ hin
    have h1 := h.pos w hw
    have h2 := happart w hw
    omega
  rw [if_neg hunseen]
  refine ⟨?_, ?_, ?_, ?_, ?_⟩
  · intro w hw
    rcases mem_cons.mp hw with rfl | hw'
    · exact hp
    · exact h.pos w hw'
  · refine List.Pairwise.cons ?_ h.separated
    intro r hr
    obtain ⟨w, hw, rfl⟩ := mem_map.mp hr
    exact happart w hw
  · intro x
    rw [covered_concat, ← h.same x, covered_cons]
    exact or_comm
  · intro w hw
    rcases mem_cons.mp hw with rfl | hw'
    · exact ⟨w, by simp, rfl⟩
    · obtain ⟨q, hq, hstart⟩ := h.starts w hw'
      exact ⟨q, mem_append_left _ hq, hstart⟩
  · intro r hr
    rcases mem_cons.mp hr with rfl | hr'
    · exact ⟨p, mem_cons_self, rfl⟩
    · obtain ⟨w, hw, hstart⟩ := h.seen r hr'
      exact ⟨w, mem_cons_of_mem p hw, hstart⟩

/-- A piece that starts inside the last window, or where it ends, makes it as long as the longer of the two. -/
theorem United.extend {last : Piece} {rest : List Piece} (h : United pieces s) (hlast : s.1 = last :: rest)
    (hstart : last.startMs ≤ p.startMs) (htouch : p.startMs ≤ last.endMs) :
    United (pieces ++ [p]) (if p.endMs > last.endMs then
      ({ last with endMs := p.endMs, endTime := p.endTime } :: rest, s.2) else s) := by
  obtain ⟨hpos, hsep, hsame, hstarts, hseen⟩ := h
  have hkept : ∀ w ∈ s.1, ∃ q ∈ pieces ++ [p], q.startMs = w.startMs := by
    intro w hw
    obtain ⟨q, hq, hqw⟩ := hstarts w hw
    exact ⟨q, mem_append_left _ hq, hqw⟩
  split
  · rw [hlast] at hpos hsep hsame hkept hseen
    obtain ⟨hbefore, hrest⟩ := pairwise_cons.mp hsep
    refine ⟨?_, pairwise_cons.mpr ⟨hbefore, hrest⟩, ?_, ?_, ?_⟩
    · intro w hw
      rcases mem_cons.mp hw with rfl | hw'
      · show last.startMs < p.endMs
        omega
      · exact hpos w (mem_cons_of_mem last hw')
    · intro x
      rw [covered_concat, ← hsame x, covered_cons, covered_cons, or_right_comm]
      refine or_congr_left ?_
      simp only [covers_iff]
      omega
    · intro w hw
      rcases mem_cons.mp hw with rfl | hw'
      · exact hkept last mem_cons_self
      · exact hkept w (mem_cons_of_mem last hw')
    · intro r hr
      obtain ⟨w, hw, hwr⟩ := hseen r hr
      rcases mem_cons.mp hw with rfl | hw'
      · exact ⟨_, mem_cons_self, hwr⟩
      · exact ⟨w, mem_cons_of_mem _ hw', hwr⟩
  · refine ⟨hpos, hsep, ?_, hkept, hseen⟩
    intro x
    rw [covered_concat, ← hsame x, hlast, covered_cons, or_right_comm]
    refine or_congr_left (or_iff_left_of_imp ?_).symm
    simp only [covers_iff]
    omega

theorem United.add (hmode : config.slotMode = .step) (h : United pieces s) (hp : p.startMs < p.endMs)
    (hsorted : ∀ q ∈ pieces, q.startMs ≤ p.startMs) : United (pieces ++ [p]) (addPiece config s p) := by
  rw [addPiece]
  split
  · rename_i last rest hlast
    by_cases htouch : p.startMs ≤ last.endMs
    · rw [if_pos ⟨hmode, htouch⟩]
      obtain ⟨q, hq, hstart⟩ := h.starts last (by simp [hlast])
      exact h.extend hlast (hstart ▸ hsorted q hq) htouch
    · -- Every earlier window ends before the last one starts.
      rw [if_neg fun hstep => htouch hstep.2]
      refine h.push hp fun w hw => ?_
      have hsep := h.separated
      have hlt := h.pos last (by simp [hlast])
      rw [hlast] at hw hsep
      rcases mem_cons.mp hw with rfl | hw'
      · omega
      · have hbefore : w.endMs < last.startMs := (pairwise_cons.mp hsep).1 w.toRange (mem_map_of_mem hw')
        omega
  · rename_i hnone
    exact h.push hp fun w hw => by rw [hnone] at hw; cases hw

theorem run_addPiece (config : SlotConfig) (hpos : ∀ p ∈ pieces, p.startMs < p.endMs)
    (hsorted : pieces.Pairwise fun p q => p.startMs ≤ q.startMs) :
    (config.slotMode = .slots → Distinct pieces (pieces.foldl (addPiece config) ([], []))) ∧
      (config.slotMode = .step → United pieces (pieces.foldl (addPiece config) ([], []))) := by
  induction pieces using List.reverseRecOn with
  | nil =>
    constructor
    · intro _
      exact ⟨rfl, nodup_nil, fun r => Iff.rfl⟩
    · intro _
      constructor <;> simp [Separated]
  | append_singleton pieces p ih =>
    obtain ⟨hbefore, -, hlast⟩ := pairwise_append.mp hsorted
    have hrun := ih (fun q hq => hpos q (mem_append_left _ hq)) hbefore
    rw [foldl_append]
    constructor
    · intro hmode
      exact (hrun.1 hmode).add hmode
    · intro hmode
      exact (hrun.2 hmode).add hmode (hpos p (by simp)) fun q hq => hlast q hq p (mem_singleton_self p)

/-! ## The windows of a date -/

theorem pairwise_sort {α : Type} (f : α → Range) (l : List α) :
    (l.insertionSort fun x y => sooner (f x) (f y)).Pairwise fun x y => sooner (f x) (f y) := by
  exact pairwise_insertionSort (fun x y => sooner (f x) (f y)) l

theorem sorted_piecesOn : (piecesOn z lines exceptions date).Pairwise fun p q => p.startMs ≤ q.startMs := by
  rw [piecesOn]
  split
  · exact List.Pairwise.nil
  · apply (pairwise_sort (fun p : Piece => p.toRange) _).imp
    intro p q hsooner
    simp only [sooner] at hsooner
    omega

variable (z config lines exceptions date)

theorem run_piecesOn :
    (config.slotMode = .slots →
      Distinct (piecesOn z lines exceptions date)
      ((piecesOn z lines exceptions date).foldl (addPiece config) ([], []))) ∧
      (config.slotMode = .step →
        United (piecesOn z lines exceptions date)
        ((piecesOn z lines exceptions date).foldl (addPiece config) ([], []))) :=
  run_addPiece config (fun _ hp => piece_pos hp) sorted_piecesOn

theorem nodup_dayWindows : ((dayWindows z config lines exceptions date).map fun p => p.toRange).Nodup := by
  have hrun := run_piecesOn z config lines exceptions date
  rw [dayWindows, map_reverse, nodup_reverse]
  cases hmode : config.slotMode with
  | slots =>
    have hdistinct := hrun.1 hmode
    rw [← hdistinct.seen]
    exact hdistinct.once
  | step =>
    have hunited := hrun.2 hmode
    refine List.Pairwise.imp_of_mem ?_ hunited.separated
    intro r q hr _ hbefore heq
    obtain ⟨w, hw, rfl⟩ := mem_map.mp hr
    have hlt := hunited.pos w hw
    rw [← heq] at hbefore
    omega

theorem mem_dayWindows (r : Range) :
    r ∈ (dayWindows z config lines exceptions date).map (fun p => p.toRange) ↔
      Owed config (piecesOn z lines exceptions date) r := by
  have hrun := run_piecesOn z config lines exceptions date
  rw [dayWindows, map_reverse, mem_reverse, Owed]
  cases hmode : config.slotMode with
  | slots =>
    have hdistinct := hrun.1 hmode
    rw [← hdistinct.seen]
    exact hdistinct.same r
  | step =>
    have hunited := hrun.2 hmode
    refine hunited.separated.mem_iff_part ?_ ?_
    · intro w hw
      obtain ⟨p, hp, rfl⟩ := mem_map.mp hw
      exact hunited.pos p hp
    · intro x
      simpa using hunited.same x

end Canari.Bookings.Slots
