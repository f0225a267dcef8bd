/-
  Canari.Lib.JsMap — a `Map`: entries in insertion order.

  `set` keeps the place of a key that is there and appends a new one; `delete` drops
  the key, so setting it again puts it last. Proofs read a map through `get` alone.
-/

import Mathlib.Algebra.Ring.Int.Defs
import Mathlib.Data.List.Basic
import Mathlib.Data.List.Nodup

namespace Canari.Lib

open List

structure JsMap (κ ν : Type) where
  entries : List (κ × ν)

namespace JsMap

variable {κ ν : Type} [DecidableEq κ]

def empty : JsMap κ ν := ⟨[]⟩

def get (m : JsMap κ ν) (k : κ) : Option ν := m.entries.lookup k

def has (m : JsMap κ ν) (k : κ) : Bool := (m.get k).isSome

def set (m : JsMap κ ν) (k : κ) (v : ν) : JsMap κ ν :=
  if m.has k then ⟨m.entries.map fun e => if e.1 = k then (k, v) else e⟩ else ⟨m.entries ++ [(k, v)]⟩

def delete (m : JsMap κ ν) (k : κ) : JsMap κ ν := ⟨m.entries.filter fun e => e.1 ≠ k⟩

def keys (m : JsMap κ ν) : List κ := m.entries.map Prod.fst

def values (m : JsMap κ ν) : List ν := m.entries.map Prod.snd

@[simp] theorem get_empty (k : κ) : (empty : JsMap κ ν).get k = none := rfl

theorem get_cons_self (e : κ × ν) (l : List (κ × ν)) : (⟨e :: l⟩ : JsMap κ ν).get e.1 = some e.2 := lookup_cons_self

variable {k : κ}

theorem get_cons_ne {e : κ × ν} (h : k ≠ e.1)
    (l : List (κ × ν)) : (⟨e :: l⟩ : JsMap κ ν).get k = (⟨l⟩ : JsMap κ ν).get k := by
  rw [get, lookup_cons, beq_false_of_ne h, get]

variable {m : JsMap κ ν} {v : ν}

theorem mem_values (h : m.get k = some v) : v ∈ m.values := by
  obtain ⟨l₁, l₂, hl, _⟩ := lookup_eq_some_iff.mp h
  simp [values, hl]

theorem mem_entries_of_get (h : m.get k = some v) : (k, v) ∈ m.entries := by
  obtain ⟨l₁, l₂, hl, _⟩ := lookup_eq_some_iff.mp h
  simp [hl]

theorem mem_entries_set {e : κ × ν} (h : e ∈ (m.set k v).entries) : e = (k, v) ∨ e ∈ m.entries := by
  rw [set] at h
  split_ifs at h
  · obtain ⟨e', he', rfl⟩ := mem_map.mp h
    split_ifs
    · exact .inl rfl
    · exact .inr he'
  · rcases mem_append.mp h with h | h
    · exact .inr h
    · exact .inl (mem_singleton.mp h)

theorem lookup_replace (l : List (κ × ν)) (k : κ) (v : ν) (j : κ) :
    (l.map fun e => if e.1 = k then (k, v) else e).lookup j = if j = k then (l.lookup k).map fun _ =>
      v else l.lookup j := by
  induction l with
  | nil => simp
  | cons e l ih =>
    rw [map_cons, lookup_cons, lookup_cons, lookup_cons, ih]
    by_cases he : e.1 = k
    · by_cases hj : j = k
      · simp [he, hj]
      · simp [he, hj, beq_false_of_ne]
    · by_cases hj : j = k
      · have hne : (k == e.1) = false := beq_false_of_ne (Ne.symm he)
        simp [he, hj, hne]
      · simp [he, hj]

@[simp] theorem get_set_self (m : JsMap κ ν) (k : κ) (v : ν) : (m.set k v).get k = some v := by
  unfold set has
  cases hk : m.get k with
  | none =>
    rw [if_neg (by simp), get, lookup_append]
    have : m.entries.lookup k = none := hk
    simp [this]
  | some w =>
    rw [if_pos (by simp), get, lookup_replace]
    have : m.entries.lookup k = some w := hk
    simp [this]

@[simp] theorem get_set_ne (m : JsMap κ ν) {j : κ} (v : ν) (h : j ≠ k) : (m.set k v).get j = m.get j := by
  unfold set
  split
  · rw [get, lookup_replace, if_neg h, get]
  · rw [get, lookup_append, get]
    simp [lookup_cons, beq_false_of_ne h]

theorem get_set (m : JsMap κ ν) (j k : κ) (v : ν) : (m.set k v).get j = if j = k then some v else m.get j := by
  by_cases h : j = k
  · rw [h, get_set_self, if_pos rfl]
  · rw [get_set_ne m v h, if_neg h]

theorem lookup_filter_key {p : κ → Bool} (l : List (κ × ν)) (k : κ) :
    (l.filter fun e => p e.1).lookup k = if p k then l.lookup k else none := by
  induction l with
  | nil => simp
  | cons e l ih =>
    by_cases he : p e.1
    · rw [filter_cons, if_pos he, lookup_cons, lookup_cons, ih]
      by_cases hk : k = e.1
      · simp [hk, he]
      · simp [beq_false_of_ne hk]
    · rw [filter_cons, if_neg he, lookup_cons, ih]
      by_cases hk : k = e.1
      · simp [hk, he]
      · simp [beq_false_of_ne hk]

theorem get_delete (m : JsMap κ ν) (j k : κ) : (m.delete k).get j = if j = k then none else m.get j := by
  have h := lookup_filter_key (p := fun a => decide (a ≠ k)) m.entries j
  unfold delete get
  rw [h]
  by_cases hj : j = k <;> simp [hj]

def mapValues {μ : Type} (f : ν → μ) (m : JsMap κ ν) : JsMap κ μ := ⟨m.entries.map fun e => (e.1, f e.2)⟩

theorem get_mapValues {μ : Type} (f : ν → μ) (m : JsMap κ ν) (k : κ) : (m.mapValues f).get k = (m.get k).map f := by
  obtain ⟨l⟩ := m
  unfold mapValues get
  induction l with
  | nil => rfl
  | cons e l ih =>
    rw [map_cons, lookup_cons, lookup_cons, ih]
    cases k == e.1 <;> rfl

omit [DecidableEq κ] in
theorem keys_mapValues {μ : Type} (f : ν → μ) (m : JsMap κ ν) : (m.mapValues f).keys = m.keys := by
  simp [mapValues, keys]

theorem mem_keys : k ∈ m.keys ↔ ∃ v, m.get k = some v := by
  rw [keys, mem_map]
  constructor
  · rintro ⟨e, he, rfl⟩
    cases hl : m.get e.1 with
    | some v => exact ⟨v, rfl⟩
    | none => exact absurd (lookup_eq_none_iff.mp hl e he) (by simp)
  · rintro ⟨v, hv⟩
    obtain ⟨l₁, l₂, hl, _⟩ := lookup_eq_some_iff.mp hv
    exact ⟨(k, v), by simp [hl], rfl⟩

theorem keys_set (m : JsMap κ ν) (k : κ) (v : ν) : (m.set k v).keys = if m.has k then m.keys else m.keys ++ [k] := by
  unfold set
  split_ifs
  · rw [keys, map_map]
    refine map_congr_left fun e _ => ?_
    by_cases h : e.1 = k <;> simp [h]
  · rw [keys, map_append]
    rfl

theorem nodup_keys_set (hm : m.keys.Nodup) (k : κ) (v : ν) : (m.set k v).keys.Nodup := by
  rw [keys_set]
  split_ifs with hk
  · exact hm
  · rw [nodup_append]
    refine ⟨hm, by simp, ?_⟩
    rintro a ha b hb rfl
    obtain ⟨w, hw⟩ := (mem_keys).mp ha
    rw [mem_singleton] at hb
    rw [hb] at hw
    exact hk (by rw [has, hw]; rfl)

theorem values_set_new (h : m.get k = none) (v : ν) : (m.set k v).values = m.values ++ [v] := by
  rw [set, if_neg (by rw [has, h]; simp), values, map_append]
  rfl

theorem sum_values_set (f : ν → Int) (hm : m.keys.Nodup) {w : ν} (h : m.get k = some w) (v : ν) :
    ((m.set k v).values.map f).sum + f w = (m.values.map f).sum + f v := by
  rw [set, if_pos (by rw [has, h]; rfl)]
  obtain ⟨entries⟩ := m
  unfold values keys get at *
  dsimp only at *
  induction entries with
  | nil => cases h
  | cons e l ih =>
    rw [map_cons, nodup_cons] at hm
    rw [lookup_cons] at h
    by_cases he : e.1 = k
    · -- No other entry has the key.
      rw [he, beq_self_eq_true] at h
      cases h
      have hrest : (l.map fun e => if e.1 = k then (k, v) else e) = l := by
        refine (map_congr_left fun d hd => if_neg fun hk => hm.1 ?_).trans (map_id l)
        rw [he, ← hk]
        exact mem_map_of_mem hd
      rw [map_cons, if_pos he, hrest]
      simp only [map_cons, sum_cons]
      omega
    · rw [beq_false_of_ne (Ne.symm he)] at h
      have hsum := ih hm.2 h
      rw [map_cons, if_neg he]
      simp only [map_cons, sum_cons]
      omega

/-! ## What the values hold -/

theorem delete_of_get_none (h : m.get k = none) : m.delete k = m := by
  have hne : ∀ e ∈ m.entries, decide (e.1 ≠ k) = true := by
    intro e he
    have hk : k ≠ e.1 := by simpa using lookup_eq_none_iff.mp h e he
    exact decide_eq_true hk.symm
  rw [delete, filter_eq_self.mpr hne]

theorem delete_set (m : JsMap κ ν) (k : κ) (v : ν) : (m.set k v).delete k = m.delete k := by
  unfold set delete
  split_ifs
  · congr 1
    induction m.entries with
    | nil => rfl
    | cons e l ih =>
      by_cases he : e.1 = k
      · simpa [he] using ih
      · simpa [he] using ih
  · simp

omit [DecidableEq κ] in
theorem nodup_keys_filter (hm : m.keys.Nodup) (p : κ × ν → Bool) : (⟨m.entries.filter p⟩ : JsMap κ ν).keys.Nodup :=
  hm.sublist (filter_sublist.map Prod.fst)

theorem nodup_keys_delete (hm : m.keys.Nodup) (k : κ) : (m.delete k).keys.Nodup := nodup_keys_filter hm _

theorem perm_values_of_get {α : Type} (f : ν → List α) (hm : m.keys.Nodup) {w : ν} (h : m.get k = some w) :
    (m.values.flatMap f).Perm (f w ++ (m.delete k).values.flatMap f) := by
  obtain ⟨entries⟩ := m
  unfold values keys get delete at *
  dsimp only at *
  induction entries with
  | nil => cases h
  | cons e l ih =>
    rw [map_cons, nodup_cons] at hm
    rw [lookup_cons] at h
    by_cases he : e.1 = k
    · -- No other entry has the key.
      rw [he, beq_self_eq_true] at h
      cases h
      have hrest : l.filter (fun e => decide (e.1 ≠ k)) = l := by
        refine filter_eq_self.mpr fun d hd => ?_
        have hdk : d.1 ≠ k := fun hk => hm.1 (by rw [he, ← hk]; exact mem_map_of_mem hd)
        simpa using hdk
      rw [filter_cons, if_neg (by simpa using he), hrest, map_cons, flatMap_cons]
    · rw [beq_false_of_ne (Ne.symm he)] at h
      rw [filter_cons, if_pos (by simpa using he), map_cons, flatMap_cons]
      have hswap := (@perm_append_comm _ (f e.2) (f w)).append_right
        ((l.filter fun e => decide (e.1 ≠ k)).map Prod.snd |>.flatMap f)
      rw [append_assoc, append_assoc] at hswap
      exact ((ih hm.2 h).append_left (f e.2)).trans hswap

theorem perm_values_at {α : Type} {f : ν → List α} {d : ν} (hd : f d = []) (hm : m.keys.Nodup) (k : κ) :
    (m.values.flatMap f).Perm (f ((m.get k).getD d) ++ (m.delete k).values.flatMap f) := by
  cases h : m.get k with
  | some w => exact perm_values_of_get f hm h
  | none =>
    rw [delete_of_get_none h, Option.getD_none, hd]
    exact .refl _

theorem perm_values_set {α : Type} (f : ν → List α) (hm : m.keys.Nodup) (k : κ) (v : ν) :
    ((m.set k v).values.flatMap f).Perm (f v ++ (m.delete k).values.flatMap f) := by
  have h := perm_values_of_get f (nodup_keys_set hm k v) (get_set_self m k v)
  rwa [delete_set] at h

/-! ## Setting one key after another -/

variable {α : Type}

variable (key : α → κ) (val : α → ν)

theorem nodup_keys_setAll (l : List α) (hm : m.keys.Nodup) :
    (l.foldl (fun m a => m.set (key a) (val a)) m).keys.Nodup := by
  induction l generalizing m with
  | nil => exact hm
  | cons a l ih => exact ih (nodup_keys_set hm (key a) (val a))

variable {l : List α}

theorem get_setAll_of_not_mem (h : k ∉ l.map key) (m : JsMap κ ν) :
    (l.foldl (fun m a => m.set (key a) (val a)) m).get k = m.get k := by
  induction l generalizing m with
  | nil => rfl
  | cons a l ih =>
    rw [map_cons, mem_cons, not_or] at h
    rw [foldl_cons, ih h.2, get_set_ne m _ h.1]

theorem get_setAll_of_mem (hl : (l.map key).Nodup) {a : α} (ha : a ∈ l) (m : JsMap κ ν) :
    (l.foldl (fun m a => m.set (key a) (val a)) m).get (key a) = some (val a) := by
  induction l generalizing m with
  | nil => cases ha
  | cons b l ih =>
    rw [map_cons, nodup_cons] at hl
    rw [foldl_cons]
    rcases mem_cons.mp ha with rfl | ha
    · rw [get_setAll_of_not_mem key val hl.1, get_set_self]
    · exact ih hl.2 ha _

theorem entries_setAll (hl : (l.map key).Nodup) (hm : ∀ a ∈ l, m.get (key a) = none) :
    (l.foldl (fun m a => m.set (key a) (val a)) m).entries = m.entries ++ l.map fun a => (key a, val a) := by
  induction l generalizing m with
  | nil => exact (append_nil _).symm
  | cons a l ih =>
    rw [map_cons, nodup_cons] at hl
    have hset : (m.set (key a) (val a)).entries = m.entries ++ [(key a, val a)] := by
      rw [set, has, hm a mem_cons_self, Option.isSome_none, if_neg Bool.false_ne_true]
    have hnew : ∀ b ∈ l, (m.set (key a) (val a)).get (key b) = none := fun b hb => by
      have hne : key b ≠ key a := fun e => hl.1 (e ▸ mem_map_of_mem hb)
      rw [get_set_ne m (val a) hne]
      exact hm b (mem_cons_of_mem a hb)
    rw [foldl_cons, ih hl.2 hnew, hset, append_assoc]
    rfl

theorem lookup_map_key (l : List α) (k : κ) : (l.map fun a => (key a, a)).lookup k = l.find? fun a => key a = k := by
  induction l with
  | nil => rfl
  | cons a l ih =>
    rw [map_cons, lookup_cons, find?_cons]
    by_cases hk : key a = k
    · simp [hk]
    · have hne : (k == key a) = false := beq_false_of_ne (Ne.symm hk)
      simp only [hne, hk, decide_false]
      exact ih

theorem find?_key_eq_some {key : α → κ} (hl : (l.map key).Nodup) {a : α} :
    (l.find? fun a => key a = k) = some a ↔ a ∈ l ∧ key a = k := by
  refine ⟨fun h => ⟨mem_of_find?_eq_some h, by simpa using find?_some h⟩, fun h => ?_⟩
  obtain ⟨b, hb⟩ : ∃ b, (l.find? fun a => key a = k) = some b :=
    Option.isSome_iff_exists.mp (find?_isSome.mpr ⟨a, h.1, by simpa using h.2⟩)
  have hbk : key b = k := by simpa using find?_some hb
  rw [hb, inj_on_of_nodup_map hl (mem_of_find?_eq_some hb) h.1 (hbk.trans h.2.symm)]

/-! ## Entries with distinct keys -/

theorem lookup_of_mem {l : List (κ × ν)} (hl : (l.map Prod.fst).Nodup) (h : (k, v) ∈ l) : l.lookup k = some v := by
  induction l with
  | nil => cases h
  | cons e l ih =>
    rw [map_cons, nodup_cons] at hl
    rcases mem_cons.mp h with rfl | h
    · exact lookup_cons_self
    · have hne : k ≠ e.1 := fun he => hl.1 (he ▸ mem_map_of_mem h)
      rw [lookup_cons, beq_false_of_ne hne]
      exact ih hl.2 h

theorem lookup_eq_none_of_not_mem {l : List (κ × ν)} (h : k ∉ l.map Prod.fst) : l.lookup k = none := by
  rw [lookup_eq_none_iff]
  intro e he
  have hne : k ≠ e.1 := fun hk => h (hk ▸ mem_map_of_mem he)
  simpa using hne

theorem lookup_filterMap {μ : Type} {l : List (κ × ν)} (hl : (l.map Prod.fst).Nodup) (f : ν → Option μ) (k : κ) :
    (l.filterMap fun e => (f e.2).map fun v => (e.1, v)).lookup k = (l.lookup k).bind f := by
  induction l with
  | nil => rfl
  | cons e l ih =>
    rw [map_cons, nodup_cons] at hl
    rw [filterMap_cons, lookup_cons]
    by_cases hk : k = e.1
    · subst hk
      rw [beq_self_eq_true]
      cases hf : f e.2 with
      | none =>
        rw [Option.map_none, ih hl.2, lookup_eq_none_of_not_mem hl.1]
        exact hf.symm
      | some v =>
        rw [Option.map_some, lookup_cons_self]
        exact hf.symm
    · rw [beq_false_of_ne hk]
      cases hf : f e.2 with
      | none => exact ih hl.2
      | some v =>
        rw [Option.map_some, lookup_cons, beq_false_of_ne hk]
        exact ih hl.2

/-! ## The values of a `Set` -/

theorem nodup_eraseDups {α : Type} [BEq α] [LawfulBEq α] (l : List α) : l.eraseDups.Nodup := by
  match l with
  | [] => exact nodup_nil
  | a :: as =>
    rw [eraseDups_cons, nodup_cons]
    have hlt : (as.filter fun b => !b == a).length < (a :: as).length :=
      Nat.lt_succ_of_le (length_filter_le _ _)
    refine ⟨fun hm => ?_, nodup_eraseDups _⟩
    rw [mem_eraseDups] at hm
    simp at hm
termination_by l.length
decreasing_by exact hlt

end JsMap

end Canari.Lib
