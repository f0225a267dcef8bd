/-
  Canari.Lib.CountSearch — a depth-first search for the ways to choose some of a list of variables.

  An equation says how many of its variables are chosen. The search decides the variables in order
  and keeps, for every equation, how many of its decided variables are chosen and how many are
  still open; a branch dies when an equation can no longer be met, or when the number chosen can no
  longer come between two bounds. It finds exactly the choices between the two bounds that meet every
  equation that has a variable (`mem_search_iff`): an equation is looked at when one of its variables
  is decided, so one without variables never is.
-/

import Canari.Lib.Counting
import Mathlib.Logic.Function.Basic

namespace Canari.Lib.CountSearch

open Lib.Counting List

variable {α : Type} [DecidableEq α]

/-- `count` of the variables are chosen: `placed` of those decided are, `stillOpen` are not decided yet. -/
structure Equation (α : Type) where
  vars : List α
  count : Int
  placed : Int
  stillOpen : Int

def Equation.place (v : α) (chosen : Bool) (eq : Equation α) : Equation α :=
  { eq with placed := eq.placed + (if chosen then eq.vars.count v else 0), stillOpen := eq.stillOpen - eq.vars.count v }

def feasible (v : α) (eqs : List (Equation α)) : Bool :=
  eqs.all fun eq => v ∉ eq.vars || !(eq.placed > eq.count || eq.placed + eq.stillOpen < eq.count)

/-- The choices found, `done` being the variables decided so far. -/
def search (lo hi : Int) : List α → List (Equation α) → Int → List Bool → List (List Bool)
  | vars, eqs, chosen, done =>
    if chosen > hi ∨ chosen + vars.length < lo then []
    else match vars with
      | [] => [done]
      | v :: rest => [false, true].flatMap fun pick =>
        if feasible v (eqs.map (Equation.place v pick)) then
          search lo hi rest (eqs.map (Equation.place v pick)) (if pick then chosen + 1 else chosen) (done ++ [pick])
        else []

variable {f g : α → Bool} {done : List α} {eq : Equation α} {v : α}

/-! ## What an equation keeps of a choice -/

/-- The two numbers of an equation whose variables are decided up to here. -/
structure Equation.Tracks (f : α → Bool) (done : List α) (eq : Equation α) : Prop where
  placed : eq.placed = eq.vars.countP fun v => v ∈ done && f v
  stillOpen : eq.stillOpen = eq.vars.countP fun v => v ∉ done

def Equation.Meetable (eq : Equation α) : Prop := eq.placed ≤ eq.count ∧ eq.count ≤ eq.placed + eq.stillOpen

theorem countP_and_eq (l : List α) (v : α)
    (b : Bool) : (l.countP fun x => decide (x = v) && b) = if b then l.count v else 0 := by
  cases b with
  | true =>
    exact countP_congr fun x _ => by simp
  | false => simp

theorem Equation.Tracks.congr (h : eq.Tracks f done) (hfg : ∀ v ∈ done, f v = g v) : eq.Tracks g done := by
  refine ⟨h.placed.trans (congrArg _ (countP_congr fun x _ => ?_)), h.stillOpen⟩
  by_cases hx : x ∈ done
  · simp [hx, hfg x hx]
  · simp [hx]

theorem Equation.Tracks.place (h : eq.Tracks f done) (hv : v ∉ done) : (eq.place v (f v)).Tracks f (done ++ [v]) := by
  constructor
  · have hsplit : (eq.vars.countP fun x => x ∈ done ++ [v] && f x) =
        (eq.vars.countP fun x => x ∈ done && f x) + eq.vars.countP fun x => x = v && f v := by
      refine countP_split fun x _ => ?_
      by_cases hx : x = v
      · subst hx
        simp [hv]
      · simp [hx]
    rw [countP_and_eq] at hsplit
    show eq.placed + _ = _
    rw [h.placed, show (eq.place v (f v)).vars = eq.vars from rfl, hsplit]
    split_ifs <;> push_cast <;> rfl
  · have hsplit : (eq.vars.countP fun x => x ∉ done) = (eq.vars.countP fun x => x ∉ done ++ [v]) + eq.vars.countP
      fun x => x = v && true := by
      refine countP_split fun x _ => ?_
      by_cases hx : x = v
      · subst hx
        simp [hv]
      · simp [hx]
    rw [countP_and_eq, if_pos rfl] at hsplit
    show eq.stillOpen - _ = _
    rw [h.stillOpen, show (eq.place v (f v)).vars = eq.vars from rfl]
    omega

theorem Equation.Tracks.meetable (h : eq.Tracks f done) (hmet : eq.vars.countP f = eq.count) : eq.Meetable := by
  have hle : (eq.vars.countP fun v => v ∈ done && f v) ≤ eq.vars.countP f :=
    countP_mono_left fun x _ hx => by simp_all
  have hge : eq.vars.countP f ≤ (eq.vars.countP fun v => v ∈ done && f v) + eq.vars.countP fun v => v ∉ done :=
    countP_le_split fun x _ hx => by by_cases hd : x ∈ done <;> simp [hd, hx]
  rw [Equation.Meetable, h.placed, h.stillOpen]
  omega

theorem Equation.Tracks.met (h : eq.Tracks f done) (hdone : ∀ v ∈ eq.vars, v ∈ done)
    (hm : eq.Meetable) : eq.vars.countP f = eq.count := by
  have hopen : (eq.vars.countP fun v => v ∉ done) = 0 := countP_eq_zero.mpr fun v hv => by simp [hdone v hv]
  have hplaced : (eq.vars.countP fun v => v ∈ done && f v) = eq.vars.countP f :=
    countP_congr fun v hv => by simp [hdone v hv]
  rw [Equation.Meetable, h.placed, h.stillOpen, hplaced] at hm
  omega

theorem feasible_iff {eqs : List (Equation α)} : feasible v eqs = true ↔ ∀ eq ∈ eqs, v ∈ eq.vars → eq.Meetable := by
  rw [feasible, all_eq_true]
  refine forall₂_congr fun eq _ => ?_
  simp only [Equation.Meetable, Bool.or_eq_true, decide_eq_true_eq, Bool.not_eq_true', Bool.or_eq_false_iff,
    decide_eq_false_iff_not,
    Int.not_lt, gt_iff_lt, imp_iff_not_or]

/-! ## The search -/

variable {lo hi : Int} {vars : List α} {eqs : List (Equation α)}

/-- A choice that meets the equations and the bounds is found. -/
theorem mem_search (hn : (done ++ vars).Nodup) (htrack : ∀ eq ∈ eqs, eq.Tracks f done)
    (hmet : ∀ eq ∈ eqs, eq.vars ≠ [] → eq.vars.countP f = eq.count)
    (hlo : lo ≤ (done ++ vars).countP f) (hhi : (done ++ vars).countP f ≤ hi) :
    (done ++ vars).map f ∈ search lo hi vars eqs (done.countP f) (done.map f) := by
  induction vars generalizing done eqs with
  | nil =>
    rw [append_nil] at hlo hhi ⊢
    have hbounds : ¬ ((done.countP f : Int) > hi ∨ (done.countP f : Int) + ([] : List α).length < lo) := by
      omega
    rw [search, if_neg hbounds]
    exact mem_singleton_self _
  | cons v rest ih =>
    have hle : (v :: rest).countP f ≤ (v :: rest).length := countP_le_length
    have hbounds : ¬ ((done.countP f : Int) > hi ∨ (done.countP f : Int) + (v :: rest).length < lo) := by
      rw [countP_append] at hlo hhi
      omega
    have happ : done ++ v :: rest = (done ++ [v]) ++ rest := by simp
    have hv : v ∉ done := fun hd => (nodup_append.mp hn).2.2 v hd v mem_cons_self rfl
    have htrack' : ∀ eq ∈ eqs.map (Equation.place v (f v)), eq.Tracks f (done ++ [v]) := by
      intro eq heq
      obtain ⟨eq', heq', rfl⟩ := mem_map.mp heq
      exact (htrack eq' heq').place hv
    have hmet' : ∀ eq ∈ eqs.map (Equation.place v (f v)), eq.vars ≠ [] → eq.vars.countP f = eq.count := by
      intro eq heq
      obtain ⟨eq', heq', rfl⟩ := mem_map.mp heq
      exact hmet eq' heq'
    have hfeasible : feasible v (eqs.map (Equation.place v (f v))) = true :=
      (feasible_iff).mpr fun eq heq hmem => (htrack' eq heq).meetable (hmet' eq heq (ne_nil_of_mem hmem))
    have hrest := ih (happ ▸ hn) htrack' hmet' (happ ▸ hlo) (happ ▸ hhi)
    rw [← happ] at hrest
    rw [search, if_neg hbounds]
    refine mem_flatMap.mpr ⟨f v, by cases f v <;> simp, ?_⟩
    rw [if_pos hfeasible]
    have hcount : ((done ++ [v]).countP f : Int) = if f v then (done.countP f : Int) + 1 else done.countP f := by
      cases hf : f v <;> simp [hf]
    have hdone : (done ++ [v]).map f = done.map f ++ [f v] := by simp
    rw [hcount, hdone] at hrest
    exact hrest

/-- What is found is a choice that meets the bounds, and every equation with a variable: the last one
    decided looked at it. -/
theorem exists_of_mem_search {marks : List Bool} (hn : (done ++ vars).Nodup) (htrack : ∀ eq ∈ eqs, eq.Tracks f done)
    (hchecked : ∀ eq ∈ eqs, ∀ v ∈ eq.vars, v ∈ done → eq.Meetable) (hsub : ∀ eq ∈ eqs, ∀ v ∈ eq.vars, v ∈ done ++ vars)
    (h : marks ∈ search lo hi vars eqs (done.countP f) (done.map f)) :
    ∃ g, marks = (done ++ vars).map g ∧ lo ≤ (done ++ vars).countP g ∧ (done ++ vars).countP g ≤ hi ∧
      ∀ eq ∈ eqs, eq.vars ≠ [] → eq.vars.countP g = eq.count := by
  induction vars generalizing done eqs f with
  | nil =>
    rw [search] at h
    split_ifs at h with hbounds
    · cases h
    rw [append_nil] at hsub ⊢
    rw [length_nil] at hbounds
    refine ⟨f, mem_singleton.mp h, by omega, by omega, fun eq heq hne => ?_⟩
    obtain ⟨v, hv⟩ := exists_mem_of_ne_nil _ hne
    exact (htrack eq heq).met (hsub eq heq) (hchecked eq heq v hv (hsub eq heq v hv))
  | cons v rest ih =>
    have happ : done ++ v :: rest = (done ++ [v]) ++ rest := by simp
    have hv : v ∉ done := fun hd => (nodup_append.mp hn).2.2 v hd v mem_cons_self rfl
    rw [search] at h
    split_ifs at h with hbounds
    · cases h
    obtain ⟨pick, -, h⟩ := mem_flatMap.mp h
    have hfeasible : feasible v (eqs.map (Equation.place v pick)) = true := by
      by_contra hno
      rw [if_neg hno] at h
      cases h
    rw [if_pos hfeasible] at h
    rw [feasible_iff] at hfeasible
    -- The choice so far, with this variable decided as the branch decides it.
    have hagree : ∀ x ∈ done, f x = Function.update f v pick x := by
      intro x hx
      rw [Function.update_of_ne fun (he : x = v) => hv (he ▸ hx)]
    have hat : Function.update f v pick v = pick := Function.update_self v pick f
    have htrack' : ∀ eq ∈ eqs.map (Equation.place v pick), eq.Tracks (Function.update f v pick) (done ++ [v]) := by
      intro eq heq
      obtain ⟨eq', heq', rfl⟩ := mem_map.mp heq
      have hplace := ((htrack eq' heq').congr hagree).place hv
      rwa [hat] at hplace
    have hchecked' : ∀ eq ∈ eqs.map (Equation.place v pick), ∀ x ∈ eq.vars, x ∈ done ++ [v] → eq.Meetable := by
      intro eq heq x hx hxdone
      by_cases hmem : v ∈ eq.vars
      · exact hfeasible eq heq hmem
      · obtain ⟨eq', heq', rfl⟩ := mem_map.mp heq
        have hcount : eq'.vars.count v = 0 := count_eq_zero.mpr hmem
        have hxold : x ∈ done := by
          rcases mem_append.mp hxdone with hxold | hxv
          · exact hxold
          · exact absurd (mem_singleton.mp hxv ▸ hx) hmem
        have hold := hchecked eq' heq' x hx hxold
        simpa [Equation.Meetable, Equation.place, hcount] using hold
    have hsub' : ∀ eq ∈ eqs.map (Equation.place v pick), ∀ x ∈ eq.vars, x ∈ (done ++ [v]) ++ rest := by
      intro eq heq
      obtain ⟨eq', heq', rfl⟩ := mem_map.mp heq
      exact happ ▸ hsub eq' heq'
    have hmap : (done ++ [v]).map (Function.update f v pick) = done.map f ++ [pick] := by
      rw [map_append, map_singleton, hat, map_congr_left hagree]
    have hcount : ((done ++ [v]).countP (Function.update f v pick) : Int) = if pick then
      (done.countP f : Int) + 1 else done.countP f := by
      rw [countP_append, countP_congr fun x hx => by rw [← hagree x hx]]
      cases pick <;> simp
    rw [← hcount, ← hmap] at h
    obtain ⟨g, hmarks, hlo, hhi, hmet⟩ := ih (happ ▸ hn) htrack' hchecked' hsub' h
    rw [← happ] at hmarks hlo hhi
    exact ⟨g, hmarks, hlo, hhi, fun eq heq => hmet (eq.place v pick) (mem_map_of_mem heq)⟩

theorem mem_search_iff {marks : List Bool} (hn : vars.Nodup)
    (hfresh : ∀ eq ∈ eqs, eq.placed = 0 ∧ eq.stillOpen = eq.vars.length)
    (hsub : ∀ eq ∈ eqs, ∀ v ∈ eq.vars, v ∈ vars) :
    marks ∈ search lo hi vars eqs 0 [] ↔
      ∃ f, marks = vars.map f ∧ lo ≤ vars.countP f ∧ vars.countP f ≤ hi ∧ ∀ eq ∈ eqs, eq.vars ≠ [] →
        eq.vars.countP f = eq.count := by
  have htrack : ∀ f, ∀ eq ∈ eqs, eq.Tracks f [] :=
    fun f eq heq => ⟨by simp [(hfresh eq heq).1], by simp [(hfresh eq heq).2]⟩
  constructor
  · intro h
    exact @exists_of_mem_search _ _ (fun _ => false) [] lo hi vars eqs marks hn (htrack _)
      (fun _ _ _ _ hv => absurd hv not_mem_nil) hsub h
  · intro h
    obtain ⟨f, rfl, hlo, hhi, hmet⟩ := h
    exact @mem_search _ _ f [] lo hi vars eqs hn (htrack f) hmet hlo hhi

end Canari.Lib.CountSearch
