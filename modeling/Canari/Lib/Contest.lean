/-
  Canari.Lib.Contest — one place, given candidates one after the other.

  The first candidate takes the place and a later one takes it when it `beats` the one there.
  Nothing is asked of `beats`. Whoever holds the place after all of a set came, in any order and
  any number of times, is the same exactly when one of them beats every other and is beaten by
  none (`holder_unique_iff`).

  Where somebody holds the place from the start and each candidate comes once, the orders agree
  exactly when nobody beats that holder, or one candidate beats everyone it can find on the place and
  is beaten by none of the others (`challenger_unique_iff`).
-/

import Mathlib.Data.Finset.Dedup
import Mathlib.Data.Finset.Basic
import Mathlib.Data.List.Chain
import Mathlib.Order.Defs.PartialOrder

namespace Canari.Lib.Contest

open List Option

variable {α : Type} (beats : α → α → Bool)

def take : Option α → α → Option α
  | none, e => some e
  | some h, e => if beats e h then some e else some h

def holder (es : List α) : Option α := es.foldl (take beats) none

/-- A list gives every candidate of a set, at least once, and nothing else. -/
def Covers (es : List α) (entrants : Finset α) : Prop := ∀ e, e ∈ es ↔ e ∈ entrants

/-- One that beats every other and is beaten by none. -/
def Champion (entrants : Finset α)
    (f : α) : Prop := f ∈ entrants ∧ ∀ h ∈ entrants, h ≠ f → beats f h = true ∧ beats h f = false

variable {beats} {es : List α} {entrants : Finset α} {f h : α}

variable (beats) in
theorem take_eq_some (s : Option α) (e : α) : ∃ w, take beats s e = some w ∧ (w = e ∨ s = some w) := by
  cases s with
  | none => exact ⟨e, rfl, .inl rfl⟩
  | some h =>
    rw [take]
    split
    · exact ⟨e, rfl, .inl rfl⟩
    · exact ⟨h, rfl, .inr rfl⟩

theorem mem_of_foldl {w : α} {s : Option α} (hw : es.foldl (take beats) s = some w) : w ∈ es ∨ s = some w := by
  induction es generalizing s with
  | nil => exact .inr hw
  | cons e es ih =>
    rcases ih hw with hm | hs
    · exact .inl (mem_cons_of_mem e hm)
    · obtain ⟨x, hx, hor⟩ := take_eq_some beats s e
      rw [hx] at hs
      cases hs
      rcases hor with rfl | hor
      · exact .inl mem_cons_self
      · exact .inr hor

theorem mem_of_holder {w : α} (hw : holder beats es = some w) : w ∈ es := by
  rcases mem_of_foldl hw with h | h
  · exact h
  · cases h

theorem Covers.eq_nil (hc : Covers es ∅) : es = [] :=
  eq_nil_iff_forall_not_mem.mpr fun e he => Finset.notMem_empty e ((hc e).mp he)

theorem isSome_foldl (s : α) (es : List α) : ∃ w, es.foldl (take beats) (some s) = some w := by
  induction es generalizing s with
  | nil => exact ⟨s, rfl⟩
  | cons e es ih =>
    obtain ⟨w, hw, -⟩ := take_eq_some beats (some s) e
    rw [foldl_cons, hw]
    exact ih w

variable (beats) in
theorem holder_of_ne_nil (hne : es ≠ []) : ∃ w, holder beats es = some w := by
  cases es with
  | nil => exact absurd rfl hne
  | cons e es => exact isSome_foldl e es

/-! ## A champion holds the place -/

theorem take_champion_keeps (hf : Champion beats entrants f) (hh : h ∈ entrants) : take beats (some f) h = some f := by
  rw [take]
  by_cases hhf : h = f
  · rw [hhf, ite_self]
  · rw [(hf.2 h hh hhf).2, if_neg Bool.false_ne_true]

theorem take_champion (hf : Champion beats entrants f) {s : Option α}
    (hs : ∀ h ∈ s, h ∈ entrants) : take beats s f = some f := by
  cases s with
  | none => rfl
  | some h =>
    rw [take]
    by_cases hhf : h = f
    · rw [hhf, ite_self]
    · rw [(hf.2 h (hs h rfl) hhf).1, if_pos rfl]

theorem foldl_champion (hf : Champion beats entrants f) (hsub : ∀ e ∈ es, e ∈ entrants) : es.foldl (take beats)
    (some f) = some f := by
  induction es with
  | nil => rfl
  | cons e es ih =>
    rw [foldl_cons, take_champion_keeps hf (hsub e mem_cons_self)]
    exact ih fun d hd => hsub d (mem_cons_of_mem e hd)

theorem holder_champion (hf : Champion beats entrants f) (hc : Covers es entrants) : holder beats es = some f := by
  obtain ⟨front, back, rfl⟩ := append_of_mem ((hc f).mpr hf.1)
  have hfront : ∀ h ∈ holder beats front, h ∈ entrants := fun h hh => (hc h).mp (mem_append_left _ (mem_of_holder hh))
  rw [holder, foldl_append]
  change back.foldl (take beats) (take beats (holder beats front) f) = some f
  rw [take_champion hf hfront]
  exact foldl_champion hf fun e he => (hc e).mp (mem_append_right _ (mem_cons_of_mem f he))

/-! ## A rank that no change lowers -/

theorem rank_le_of_foldl {τ : Type} [Preorder τ] (rank : α → τ) (hup : ∀ e h, beats e h = true → rank h ≤ rank e)
    (hstay : ∀ e h, beats e h = false → rank e ≤ rank h) {s w : α} (hw : es.foldl (take beats) (some s) = some w) :
    rank s ≤ rank w ∧ ∀ e ∈ es, rank e ≤ rank w := by
  induction es generalizing s with
  | nil =>
    cases hw
    exact ⟨le_refl _, by simp⟩
  | cons d es ih =>
    rw [foldl_cons, take] at hw
    split at hw
    · rename_i hb
      obtain ⟨hd, hes⟩ := ih hw
      exact ⟨(hup d s hb).trans hd, forall_mem_cons.mpr ⟨hd, hes⟩⟩
    · rename_i hb
      obtain ⟨hs, hes⟩ := ih hw
      exact ⟨hs, forall_mem_cons.mpr ⟨(hstay d s (Bool.eq_false_iff.mpr hb)).trans hs, hes⟩⟩

theorem rank_le_of_holder {τ : Type} [Preorder τ] (rank : α → τ) (hup : ∀ e h, beats e h = true → rank h ≤ rank e)
    (hstay : ∀ e h, beats e h = false → rank e ≤ rank h) {w : α}
    (hw : holder beats es = some w) : ∀ e ∈ es, rank e ≤ rank w := by
  cases es with
  | nil => cases hw
  | cons d es => exact forall_mem_cons.mpr (rank_le_of_foldl rank hup hstay hw)

/-! ## A place held from the start -/

section Held

variable {s w g : α}

variable (beats) in
/-- One challenge; `s` holds the place as long as nobody took it. -/
def challenge (s : α) (taker : Option α) (e : α) : Option α := if beats e (taker.getD s) then some e else taker

variable (beats) in
/-- Who took the place last, `none` when nobody did. -/
def challenger (s : α) (es : List α) : Option α := es.foldl (challenge beats s) none

variable (beats) in
/-- Whom `w` can find on the place: `s`, and each of the others that beats one of these. -/
inductive Met (s : α) (es : List α) (w : α) : α → Prop
  | start : Met s es w s
  | step {g h : α} : Met s es w g → h ∈ es → h ≠ w → beats h g = true → Met s es w h

variable (beats) in
/-- Beats everyone it can find on the place, and is beaten by none of the others. -/
structure Prevails (s : α) (es : List α) (w : α) : Prop where
  mem : w ∈ es
  stays : ∀ h ∈ es, h ≠ w → beats h w = false
  takes : ∀ g, Met beats s es w g → beats w g = true

theorem challenger_eq_none (h : ∀ e ∈ es, beats e s = false) : challenger beats s es = none := by
  induction es with
  | nil => rfl
  | cons e es ih =>
    have hstep : challenge beats s none e = none := by
      rw [challenge, getD_none, h e mem_cons_self, if_neg Bool.false_ne_true]
    rw [challenger, foldl_cons, hstep]
    exact ih fun d hd => h d (mem_cons_of_mem e hd)

variable {taker : Option α}

theorem met_foldl {front : List α} (hfront : ∀ e ∈ front, e ∈ es ∧ e ≠ w) (ht : Met beats s es w (taker.getD s)) :
    Met beats s es w ((front.foldl (challenge beats s) taker).getD s) := by
  induction front generalizing taker with
  | nil => exact ht
  | cons e front ih =>
    have he := hfront e mem_cons_self
    refine ih (fun d hd => hfront d (mem_cons_of_mem e hd)) ?_
    rw [challenge]
    split
    · rename_i hb
      exact ht.step he.1 he.2 hb
    · exact ht

theorem foldl_challenge_stays (h : ∀ e ∈ es, e ≠ w → beats e w = false) : es.foldl (challenge beats s)
    (some w) = some w := by
  induction es with
  | nil => rfl
  | cons e es ih =>
    have hstep : challenge beats s (some w) e = some w := by
      rw [challenge, getD_some]
      by_cases hew : e = w
      · rw [hew, ite_self]
      · rw [h e mem_cons_self hew, if_neg Bool.false_ne_true]
    rw [foldl_cons, hstep]
    exact ih fun d hd => h d (mem_cons_of_mem e hd)

theorem challenger_eq_some [DecidableEq α] {es' : List α} (hw : Prevails beats s es w) (hsame : ∀ e, e ∈ es' ↔ e ∈ es) :
    challenger beats s es' = some w := by
  obtain ⟨front, back, rfl, hnot⟩ := eq_append_cons_of_mem ((hsame w).mpr hw.mem)
  have hfront : ∀ e ∈ front, e ∈ es ∧ e ≠ w := fun e he =>
    ⟨(hsame e).mp (mem_append_left _ he), fun hew => hnot (hew ▸ he)⟩
  have htake : challenge beats s (front.foldl (challenge beats s) none) w = some w := by
    rw [challenge, hw.takes _ (met_foldl hfront Met.start), if_pos rfl]
  rw [challenger, foldl_append, foldl_cons, htake]
  exact foldl_challenge_stays fun e he => hw.stays e ((hsame e).mp (mem_append_right _ (mem_cons_of_mem w he)))

/-! ### Where the order does not matter one prevails -/

theorem foldl_challenge_ne (hw : w ∉ es) (ht : taker ≠ some w) : es.foldl (challenge beats s) taker ≠ some w := by
  induction es generalizing taker with
  | nil => exact ht
  | cons e es ih =>
    refine ih (fun hm => hw (mem_cons_of_mem e hm)) ?_
    rw [challenge]
    split
    · exact fun he => hw (some.inj he ▸ mem_cons_self)
    · exact ht

theorem foldl_challenge_isSome (e : α) (es : List α) : ∃ w, es.foldl (challenge beats s) (some e) = some w := by
  induction es generalizing e with
  | nil => exact ⟨e, rfl⟩
  | cons d es ih =>
    rw [foldl_cons, challenge]
    split
    · exact ih d
    · exact ih e

theorem foldl_challenge_chain {l : List α} (hchain : (g :: l).IsChain fun a b => beats b a = true)
    (hg : taker.getD s = g) :
    (l.foldl (challenge beats s) taker).getD s = (g :: l).getLast (cons_ne_nil g l) := by
  induction l generalizing g taker with
  | nil => exact hg
  | cons e l ih =>
    obtain ⟨hb, hrest⟩ := isChain_cons_cons.mp hchain
    have hstep : challenge beats s taker e = some e := by rw [challenge, hg, if_pos hb]
    rw [foldl_cons, hstep]
    exact ih hrest rfl

theorem exists_front [DecidableEq α]
    (h : Met beats s es w g) : ∃ front : List α, front.Nodup ∧ (∀ e ∈ front, e ∈ es ∧ e ≠ w) ∧
    (s :: front).IsChain (fun a b => beats b a = true) ∧ (s :: front).getLast (cons_ne_nil s front) = g := by
  induction h with
  | start => exact ⟨[], nodup_nil, by simp, isChain_singleton s, rfl⟩
  | @step g h _ hh hne hb ih =>
    obtain ⟨front, hnodup, hmem, hchain, hlast⟩ := ih
    by_cases hin : h ∈ front
    · -- cut the chain where `h` stands
      obtain ⟨a, b, rfl⟩ := append_of_mem hin
      have hpre : (a ++ [h]) <+: (a ++ h :: b) := ⟨b, by simp⟩
      have hchain' : (s :: (a ++ [h])).IsChain fun a b => beats b a = true := by
        rw [show s :: (a ++ h :: b) = s :: (a ++ [h]) ++ b by simp] at hchain
        exact hchain.left_of_append
      exact ⟨a ++ [h], hnodup.sublist hpre.sublist, fun e he => hmem e (hpre.subset he), hchain', by simp⟩
    · refine ⟨front ++ [h], ?_, fun e he => ?_, ?_, by simp⟩
      · exact nodup_append.mpr ⟨hnodup, nodup_singleton h, fun x hx y hy hxy => hin (mem_singleton.mp hy ▸ hxy ▸ hx)⟩
      · rcases mem_append.mp he with he | he
        · exact hmem e he
        · obtain rfl := mem_singleton.mp he
          exact ⟨hh, hne⟩
      · refine List.IsChain.append hchain (isChain_singleton h) fun x hx y hy => ?_
        rw [getLast?_eq_getLast_of_ne_nil (cons_ne_nil s front), mem_some_iff, hlast] at hx
        obtain rfl : h = y := by simpa using hy
        exact hx ▸ hb

theorem foldl_challenge_copies {n : Nat} (h : beats w (taker.getD s) = false) :
    (List.replicate n w).foldl (challenge beats s) taker = taker := by
  induction n with
  | zero => rfl
  | succ n ih =>
    have hstep : challenge beats s taker w = taker := by rw [challenge, h, if_neg Bool.false_ne_true]
    rw [replicate_succ, foldl_cons, hstep]
    exact ih

section Orders

variable [DecidableEq α]

theorem perm_copies (w : α) (es : List α) : (List.replicate (es.count w) w ++ es.filter (· ≠ w)).Perm es := by
  have hperm := filter_append_perm (· == w) es
  rw [filter_beq] at hperm
  refine (List.Perm.of_eq ?_).trans hperm
  congr 1
  refine filter_congr fun e _ => ?_
  by_cases he : e = w
  · simp [he]
  · simp [he]

theorem takes_of_unique (hu : ∀ es', es'.Perm es → challenger beats s es' = some w)
    (hg : Met beats s es w g) : beats w g = true := by
  obtain ⟨front, hnodup, hmem, hchain, hlast⟩ := exists_front hg
  have hsub : front.Subperm (es.filter (· ≠ w)) :=
    hnodup.subperm fun e he => mem_filter.mpr ⟨(hmem e he).1, by simpa using (hmem e he).2⟩
  obtain ⟨rest, hrest⟩ : ∃ rest, (es.filter (· ≠ w)).Perm (front ++ rest) := by
    obtain ⟨l, hl, hlsub⟩ := hsub
    obtain ⟨rest, hrest⟩ := hlsub.exists_perm_append
    exact ⟨rest, hrest.trans (hl.append_right rest)⟩
  have hwrest : w ∉ rest := fun hw => by
    have hmemw := hrest.mem_iff.mpr (mem_append_right front hw)
    simpa using (mem_filter.mp hmemw).2
  -- the others up to `g`, then every copy of `w`, then the rest
  have hperm : (front ++ (List.replicate (es.count w) w ++ rest)).Perm es := by
    refine List.Perm.trans ?_ (perm_copies w es)
    rw [← append_assoc]
    exact (perm_append_comm.append_right rest).trans (by rw [append_assoc]; exact hrest.symm.append_left _)
  have hrun := hu _ hperm
  by_contra hb
  have hholder : (front.foldl (challenge beats s) none).getD s = g := (foldl_challenge_chain hchain rfl).trans hlast
  rw [challenger, foldl_append, foldl_append,
    foldl_challenge_copies (by rw [hholder]; exact Bool.eq_false_iff.mpr hb)] at hrun
  exact foldl_challenge_ne hwrest (foldl_challenge_ne (fun hw => (hmem w hw).2 rfl) (by simp)) hrun

theorem stays_of_unique (hu : ∀ es', es'.Perm es → challenger beats s es' = some w) (hw : w ∈ es) (hh : h ∈ es)
    (hne : h ≠ w) :
    beats h w = false := by
  obtain ⟨rest, hrest⟩ : ∃ rest, (es.filter (· ≠ w)).Perm (h :: rest) :=
    ⟨_, perm_cons_erase (mem_filter.mpr ⟨hh, by simpa using hne⟩)⟩
  have hwrest : w ∉ rest := fun hw => by
    have hmemw := hrest.mem_iff.mpr (mem_cons_of_mem h hw)
    simpa using (mem_filter.mp hmemw).2
  -- every copy of `w`, then `h`, then the rest
  have hperm : (List.replicate (es.count w) w ++ h :: rest).Perm es :=
    (hrest.symm.append_left _).trans (perm_copies w es)
  have hrun := hu _ hperm
  by_contra hb
  rw [Bool.not_eq_false] at hb
  obtain ⟨n, hn⟩ : ∃ n, es.count w = n + 1 := ⟨_, (Nat.succ_pred_eq_of_pos (count_pos_iff.mpr hw)).symm⟩
  have hfirst : challenge beats s none w = some w := by
    rw [challenge, getD_none, takes_of_unique hu Met.start, if_pos rfl]
  have hcopies : (List.replicate (es.count w) w).foldl (challenge beats s) none = some w := by
    rw [hn, replicate_succ, foldl_cons, hfirst]
    exact foldl_challenge_stays fun e he hew => absurd (eq_of_mem_replicate he) hew
  have hnext : challenge beats s (some w) h = some h := by rw [challenge, getD_some, if_pos hb]
  rw [challenger, foldl_append, hcopies, foldl_cons, hnext] at hrun
  exact foldl_challenge_ne hwrest (fun he => hne (some.inj he)) hrun

theorem challenger_unique_iff : (∀ es', es'.Perm es → challenger beats s es' = challenger beats s es) ↔
    (∀ e ∈ es, beats e s = false) ∨ ∃ w, Prevails beats s es w := by
  constructor
  · intro hu
    by_cases hnone : ∀ e ∈ es, beats e s = false
    · exact .inl hnone
    · obtain ⟨e, he, hb⟩ : ∃ e ∈ es, beats e s = true := by simpa using hnone
      -- with `e` first somebody takes the place
      obtain ⟨w, hw⟩ : ∃ w, challenger beats s es = some w := by
        rw [← hu _ (perm_cons_erase he).symm, challenger, foldl_cons, challenge, getD_none, if_pos hb]
        exact foldl_challenge_isSome e _
      rw [hw] at hu
      have hmem : w ∈ es := by
        by_contra hnot
        exact foldl_challenge_ne hnot (by simp) hw
      exact .inr ⟨w, hmem, fun h hh hne => stays_of_unique hu hmem hh hne, fun g hg => takes_of_unique hu hg⟩
  · intro hor es' hperm
    rcases hor with hnone | ⟨w, hw⟩
    · rw [challenger_eq_none hnone, challenger_eq_none fun e he => hnone e (hperm.mem_iff.mp he)]
    · rw [challenger_eq_some hw fun e => hperm.mem_iff, challenger_eq_some hw fun e => Iff.rfl]

end Orders

end Held

/-! ## Where the order does not matter there is one -/

variable [DecidableEq α]

theorem covers_append_erase (front : List α) (hfront : ∀ e ∈ front, e ∈ entrants) (hmem : f ∈ front) :
    Covers (front ++ (entrants.erase f).toList) entrants := by
  intro e
  rw [mem_append, Finset.mem_toList, Finset.mem_erase]
  constructor
  · rintro (he | he)
    · exact hfront e he
    · exact he.2
  · intro he
    by_cases hef : e = f
    · exact .inl (hef ▸ hmem)
    · exact .inr ⟨hef, he⟩

theorem champion_of_unique (hne : entrants.Nonempty)
    (hu : ∀ es es', Covers es entrants → Covers es' entrants → holder beats es = holder beats es') :
    ∃ f, Champion beats entrants f := by
  have hcover : Covers entrants.toList entrants := fun e => Finset.mem_toList
  obtain ⟨e, he⟩ := hne
  obtain ⟨f, hf⟩ := holder_of_ne_nil beats (ne_nil_of_mem (Finset.mem_toList.mpr he))
  have hmem : f ∈ entrants := Finset.mem_toList.mp (mem_of_holder hf)
  refine ⟨f, hmem, fun h hh hne => ⟨?_, ?_⟩⟩
  · -- first `h`, then `f`, then all the others: `f` never comes again
    by_contra hb
    have hfirst : Covers ([h, f] ++ (entrants.erase f).toList) entrants :=
      covers_append_erase [h, f] (by simp [hh, hmem]) (by simp)
    have hrun := hu _ _ hfirst hcover
    rw [hf, holder, foldl_append, foldl_cons, foldl_cons, take, take, if_neg hb] at hrun
    rcases mem_of_foldl hrun with hm | hm
    · rw [Finset.mem_toList, Finset.mem_erase] at hm
      exact hm.1 rfl
    · exact hne (some.inj hm)
  · -- everybody, then `h` once more
    by_contra hb
    rw [Bool.not_eq_false] at hb
    have hmore : Covers (entrants.toList ++ [h]) entrants := by
      intro e
      rw [mem_append, Finset.mem_toList, mem_singleton]
      exact or_iff_left_of_imp fun e => e ▸ hh
    have hrun := hu _ _ hmore hcover
    rw [hf, holder, foldl_append] at hrun
    change take beats (holder beats entrants.toList) h = some f at hrun
    rw [hf, take, if_pos hb] at hrun
    exact hne (some.inj hrun)

theorem holder_unique_iff : (∀ es es', Covers es entrants → Covers es' entrants → holder beats es = holder beats es') ↔
    entrants = ∅ ∨ ∃ f, Champion beats entrants f := by
  constructor
  · intro hu
    rcases entrants.eq_empty_or_nonempty with rfl | hne
    · exact .inl rfl
    · exact .inr (champion_of_unique hne hu)
  · rintro (rfl | ⟨f, hf⟩) es es' hc hc'
    · rw [hc.eq_nil, hc'.eq_nil]
    · rw [holder_champion hf hc, holder_champion hf hc']

end Canari.Lib.Contest
