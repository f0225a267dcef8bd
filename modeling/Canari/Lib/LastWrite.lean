/-
  Canari.Lib.LastWrite — last-write-wins registers, one for each key.

  A list holds at most one entry of each key; `write` keeps the entry with the larger
  stamp, and the one that is there when the stamps are equal. `Latest` says what a list
  is after it was given the entries of a set, in any order and any number of times: one
  entry of that set for each of its keys, with no larger stamp in the set. Which entry
  that is depends on the order only between entries of one key with the largest stamp
  (`Latest.top`).
-/

import Mathlib.Data.List.Find
import Mathlib.Data.List.Nodup
import Mathlib.Data.Set.Insert
import Mathlib.Order.Defs.LinearOrder

namespace Canari.Lib.LastWrite

open List

variable {α κ τ : Type} [LinearOrder τ] (key : α → κ) (stamp : α → τ)

structure Latest (l : List α) (seen : Set α) : Prop where
  nodup : (l.map key).Nodup
  sub : ∀ r ∈ l, r ∈ seen
  covers : ∀ f ∈ seen, ∃ r ∈ l, key r = key f ∧ stamp f ≤ stamp r

variable {key stamp} {l : List α} {f : α} {seen : Set α}

theorem latest_nil : Latest key stamp [] ∅ := ⟨nodup_nil, by simp, by simp⟩

/-- An entry held has the largest stamp seen for its key. -/
theorem Latest.top (h : Latest key stamp l seen) {r g : α} (hr : r ∈ l) (hg : g ∈ seen)
    (hk : key g = key r) : stamp g ≤ stamp r := by
  obtain ⟨q, hq, hqk, hs⟩ := h.covers g hg
  have hqr : q = r := inj_on_of_nodup_map h.nodup hq hr (hqk.trans hk)
  exact hqr ▸ hs

variable [DecidableEq κ]

variable (key) in
/-- `f` in the place of the entry of its key. -/
def replace (l : List α) (f : α) : List α := l.map fun r => if key r = key f then f else r

variable (key stamp) in
def write (l : List α) (f : α) : List α :=
  match l.find? fun r => key r = key f with
  | none => l ++ [f]
  | some r => if stamp f ≤ stamp r then l else replace key l f

theorem map_key_replace : (replace key l f).map key = l.map key := by
  rw [replace, map_map]
  refine map_congr_left fun r _ => ?_
  rw [Function.comp_apply]
  split
  · rename_i h
    exact h.symm
  · rfl

variable {r : α}

theorem mem_replace (h : r ∈ replace key l f) : r = f ∨ (r ∈ l ∧ key r ≠ key f) := by
  obtain ⟨q, hq, rfl⟩ := mem_map.mp h
  split
  · exact .inl rfl
  · rename_i hne
    exact .inr ⟨hq, hne⟩

theorem mem_replace_of_ne (h : r ∈ l) (hne : key r ≠ key f) : r ∈ replace key l f :=
  mem_map.mpr ⟨r, h, if_neg hne⟩

theorem write_of_new (h : ∀ r ∈ l, key r ≠ key f) : write key stamp l f = l ++ [f] := by
  have hn : l.find? (fun r => key r = key f) = none := find?_eq_none.mpr fun r hr => by simpa using h r hr
  rw [write, hn]

theorem write_of_mem (hn : (l.map key).Nodup) (hr : r ∈ l) (hk : key r = key f) :
    write key stamp l f = if stamp f ≤ stamp r then l else replace key l f := by
  obtain ⟨q, hq⟩ : ∃ q, l.find? (fun r => key r = key f) = some q := by
    rw [← Option.isSome_iff_exists, find?_isSome]
    exact ⟨r, hr, by simpa using hk⟩
  have hqk : key q = key f := by simpa using find?_some hq
  have hqr : q = r := inj_on_of_nodup_map hn (mem_of_find?_eq_some hq) hr (hqk.trans hk.symm)
  rw [write, hq, hqr]

theorem write_congr_key {key' : α → κ}
    (h : ∀ r ∈ f :: l, key r = key' r) : write key stamp l f = write key' stamp l f := by
  have hf : key f = key' f := h f mem_cons_self
  have hl : ∀ r ∈ l, (key r = key f) = (key' r = key' f) := fun r hr => by rw [h r (mem_cons_of_mem f hr), hf]
  have hfind : (l.find? fun r => key r = key f) = l.find? fun r => key' r = key' f := find?_congr fun r hr => by
    simp only [hl r hr]
  have hreplace : replace key l f = replace key' l f := map_congr_left fun r hr => by simp only [hl r hr]
  rw [write, write, hfind, hreplace]

theorem Latest.write (h : Latest key stamp l seen) (f : α) : Latest key stamp (write key stamp l f)
    (insert f seen) := by
  unfold LastWrite.write
  split
  · rename_i hn
    have hnew : key f ∉ l.map key := fun hm => by
      obtain ⟨r, hr, hk⟩ := mem_map.mp hm
      exact find?_eq_none.mp hn r hr (by simpa using hk)
    refine ⟨?_, fun r hr => ?_, fun g hg => ?_⟩
    · rw [map_append, map_singleton]
      exact h.nodup.append (nodup_singleton _) (by simpa using hnew)
    · rcases mem_append.mp hr with hr | hr
      · exact .inr (h.sub r hr)
      · exact .inl (mem_singleton.mp hr)
    · rcases hg with rfl | hg
      · exact ⟨g, mem_append_right _ (mem_singleton_self g), rfl, le_rfl⟩
      · obtain ⟨r, hr, hk, hs⟩ := h.covers g hg
        exact ⟨r, mem_append_left _ hr, hk, hs⟩
  · rename_i q hq
    have hqm := mem_of_find?_eq_some hq
    have hqk : key q = key f := by simpa using find?_some hq
    split
    · rename_i hle
      refine ⟨h.nodup, fun r hr => .inr (h.sub r hr), fun g hg => ?_⟩
      rcases hg with rfl | hg
      · exact ⟨q, hqm, hqk, hle⟩
      · exact h.covers g hg
    · rename_i hlt
      have hfm : f ∈ replace key l f := mem_map.mpr ⟨q, hqm, if_pos hqk⟩
      refine ⟨by rw [map_key_replace]; exact h.nodup, fun r hr => ?_, fun g hg => ?_⟩
      · rcases mem_replace hr with rfl | ⟨hr, -⟩
        · exact .inl rfl
        · exact .inr (h.sub r hr)
      · rcases hg with rfl | hg
        · exact ⟨g, hfm, rfl, le_rfl⟩
        · obtain ⟨r, hr, hk, hs⟩ := h.covers g hg
          by_cases hrf : key r = key f
          · -- the entry that covered `g` is the one replaced
            have hrq : r = q := inj_on_of_nodup_map h.nodup hr hqm (hrf.trans hqk.symm)
            rw [hrq] at hs hk
            exact ⟨f, hfm, hqk.symm.trans hk, hs.trans (le_of_lt (not_le.mp hlt))⟩
          · exact ⟨r, mem_replace_of_ne hr hrf, hk, hs⟩

theorem Latest.foldl_write (h : Latest key stamp l seen) (fs : List α) :
    Latest key stamp (fs.foldl (LastWrite.write key stamp) l) ({f | f ∈ fs} ∪ seen) := by
  induction fs generalizing l seen with
  | nil => simpa using h
  | cons f fs ih =>
    have hf := ih (h.write f)
    have hset : ({g | g ∈ fs} ∪ insert f seen : Set α) = {g | g ∈ f :: fs} ∪ seen := by
      ext g
      simp only [Set.mem_union, Set.mem_insert_iff, Set.mem_ofPred_eq, mem_cons]
      tauto
    rw [hset] at hf
    exact hf

theorem set_eq_replace {i : Nat} (hn : (l.map key).Nodup) (hi : i < l.length)
    (hk : key l[i] = key f) : l.set i f = replace key l f := by
  induction l generalizing i with
  | nil => cases hi
  | cons r l ih =>
    rw [map_cons, nodup_cons] at hn
    cases i with
    | zero =>
      have hr : key r = key f := hk
      have hrest : replace key l f = l := by
        refine (map_congr_left fun q hq => if_neg fun e => hn.1 ?_).trans (map_id l)
        exact mem_map.mpr ⟨q, hq, e.trans hr.symm⟩
      rw [replace, map_cons, if_pos hr]
      exact congrArg (f :: ·) hrest.symm
    | succ i =>
      have hi' : i < l.length := Nat.lt_of_succ_lt_succ hi
      have hk' : key l[i] = key f := hk
      have hr : key r ≠ key f := fun e => hn.1 (mem_map.mpr ⟨l[i], getElem_mem hi', hk'.trans e.symm⟩)
      rw [set_cons_succ, ih hn.2 hi' hk', replace, replace, map_cons, if_neg hr]

theorem write_of_top (hr : r ∈ l) (hn : (l.map key).Nodup)
    (hf : key f = key r → stamp f ≤ stamp r) : r ∈ write key stamp l f := by
  unfold write
  split
  · exact mem_append_left _ hr
  · rename_i q hq
    have hqk : key q = key f := by simpa using find?_some hq
    split
    · exact hr
    · rename_i hlt
      refine mem_replace_of_ne hr fun hk => hlt ?_
      have hqr : q = r := inj_on_of_nodup_map hn (mem_of_find?_eq_some hq) hr (hqk.trans hk.symm)
      rw [hqr]
      exact hf hk.symm

theorem nodup_write (hn : (l.map key).Nodup) (f : α) : ((write key stamp l f).map key).Nodup := by
  have hl : Latest key stamp l {r | r ∈ l} := ⟨hn, fun _ hr => hr, fun r hr => ⟨r, hr, rfl, le_rfl⟩⟩
  exact (hl.write f).nodup

theorem exists_good_foldl_write {good : α → Prop} (hr : r ∈ l) (hg : good r) (hn : (l.map key).Nodup) {fs : List α}
    (hf : ∀ f ∈ fs, key f = key r → good f ∨ stamp f ≤ stamp r) : ∃ q ∈ fs.foldl (write key stamp) l,
    key q = key r ∧ good q := by
  induction fs generalizing l r with
  | nil => exact ⟨r, hr, rfl, hg⟩
  | cons f fs ih =>
    have hrest : ∀ g ∈ fs, key g = key r → good g ∨ stamp g ≤ stamp r := fun g hgm => hf g (mem_cons_of_mem f hgm)
    by_cases hout : key f = key r ∧ stamp r < stamp f
    · -- `f` takes the place of `r`
      obtain ⟨hk, hlt⟩ := hout
      have hfm : f ∈ write key stamp l f := by
        rw [write_of_mem hn hr hk.symm, if_neg (not_le.mpr hlt)]
        exact mem_map.mpr ⟨r, hr, if_pos hk.symm⟩
      have hgf : good f := (hf f mem_cons_self hk).resolve_right (not_le.mpr hlt)
      obtain ⟨q, hq, hqk, hqg⟩ :=
        ih hfm hgf (nodup_write hn f) fun g hgm hgk => (hrest g hgm (hgk.trans hk)).imp_right fun h => h.trans hlt.le
      exact ⟨q, hq, hqk.trans hk, hqg⟩
    · have hkeep : r ∈ write key stamp l f := write_of_top hr hn fun hk => not_lt.mp fun hlt => hout ⟨hk, hlt⟩
      exact ih hkeep hg (nodup_write hn f) hrest

theorem mem_foldl_write_of_top (hr : r ∈ l) (hn : (l.map key).Nodup) {fs : List α}
    (hf : ∀ f ∈ fs, key f = key r → stamp f ≤ stamp r) : r ∈ fs.foldl (write key stamp) l := by
  obtain ⟨q, hq, -, rfl⟩ := exists_good_foldl_write hr (show (· = r) r from rfl) hn fun f hfm hk => .inr (hf f hfm hk)
  exact hq

end Canari.Lib.LastWrite
