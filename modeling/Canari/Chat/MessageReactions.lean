/-
  Canari.Chat.MessageReactions — the reactions a message carries
  (`frontend/src/lib/utils/chat/messageReactions.ts`).

  One entry for each pair, with the instant it last changed and whether it stands; the larger
  instant wins. A device sees reaction frames two ways: one at a time (`applyReaction`) and in a
  stored list it merges (`mergeReactions`). Both are `LastWrite.write` under `pairKey`
  (`applyReaction_getD`, `mergeReactions_getD`), so a device holds the last entry of each key it
  was given (`latest_device`).

  Two devices that saw the same frames hold the same reactions exactly when no frame of the
  largest instant of its key ties with a different one, and none of these names nobody
  (`reactions_converge_iff`): equal instants keep what is held, and a frame with an empty user id
  is taken alone and skipped in a list. `pairKey` joins the two halves with a space, so a tie
  may be between two pairs.
-/

import Canari.Lib.JsMap
import Canari.Lib.LastWrite
import Canari.Mls.Identity
import Mathlib.Data.Set.Finite.List
import Mathlib.Data.Set.Finite.Lemmas

namespace Canari.Chat.MessageReactions

open Lib Lib.LastWrite
open Mls.Identity (canonicalUserId toAsciiLowercase_idem)

variable {P : Type}

/-- An entry; `P` is the type of the reactor's signed frame. -/
structure MessageReaction (P : Type) where
  emoji : String
  userId : String
  at? : Option Int
  removed : Option Bool
  proof : Option P
  deriving DecidableEq

def pairKey (r : MessageReaction P) : String := r.userId ++ " " ++ r.emoji

def normalise (r : MessageReaction P) : MessageReaction P := { r with userId := canonicalUserId r.userId }

/-- `reaction.at ?? 0`. -/
def instant (r : MessageReaction P) : Int := r.at?.getD 0

/-- `null` when the entry held is at least as recent. -/
def applyReaction (reactions : List (MessageReaction P)) (userId emoji : String) (at? : Int) (removed : Bool)
    (proof : Option P) :
    Option (List (MessageReaction P)) :=
  if emoji = "" then none
  else
    let next := normalise ⟨emoji, userId, some at?, some removed, proof⟩
    match reactions.findIdx? fun r => pairKey (normalise r) = pairKey next with
    | none => some (reactions ++ [next])
    | some index => if at? ≤ (reactions[index]?.map instant).getD 0 then none else some (reactions.set index next)

/-- One turn of the loop of `mergeReactions`, on the map and on `changed`. -/
def mergeOne (acc : JsMap String (MessageReaction P) × Bool)
    (candidate : MessageReaction P) : JsMap String (MessageReaction P) × Bool :=
  if candidate.emoji = "" || candidate.userId = "" then acc
  else
    let next := normalise candidate
    if (acc.1.get (pairKey next)).any fun current => instant next ≤ instant current then acc
    else (acc.1.set (pairKey next) next, true)

def byPair (reactions : List (MessageReaction P)) : JsMap String (MessageReaction P) :=
  reactions.foldl (fun m r => m.set (pairKey (normalise r)) (normalise r)) .empty

def mergeReactions (current incoming : List (MessageReaction P)) : Option (List (MessageReaction P)) :=
  let (m, changed) := incoming.foldl mergeOne (byPair current, false)
  if changed then some m.values else none

/-! ## Devices -/

structure Frame (P : Type) where
  userId : String
  emoji : String
  at? : Int
  removed : Bool
  proof : Option P

def Frame.entry (f : Frame P) : MessageReaction P := ⟨f.emoji, f.userId, some f.at?, some f.removed, f.proof⟩

inductive Arrival (P : Type) where
  | frame (f : Frame P)
  | stored (fs : List (Frame P))

def Arrival.frames : Arrival P → List (Frame P)
  | .frame f => [f]
  | .stored fs => fs

def receive (held : List (MessageReaction P)) : Arrival P → List (MessageReaction P)
  | .frame f => (applyReaction held f.userId f.emoji f.at? f.removed f.proof).getD held
  | .stored fs => (mergeReactions held (fs.map Frame.entry)).getD held

def device (arrivals : List (Arrival P)) : List (MessageReaction P) := arrivals.foldl receive []

/-- A reaction as a reader sees it: whose, which, since when and whether it stands. -/
def shown (r : MessageReaction P) : String × String × Int × Bool := (r.userId, r.emoji, instant r, r.removed.getD false)

def SameReactions (a b : List (MessageReaction P)) : Prop := ∀ v, v ∈ a.map shown ↔ v ∈ b.map shown

/-- The arrivals bring these frames, each once at least, in some order and some split. -/
def Brings (arrivals : List (Arrival P)) (frames : List (Frame P)) : Prop :=
  ∀ f, f ∈ arrivals.flatMap Arrival.frames ↔ f ∈ frames

/-! ## Both paths write the last entry -/

/-- A list as `device` keeps it: entries normalised, one for each key. -/
def Kept (l : List (MessageReaction P)) : Prop := (l.map pairKey).Nodup ∧ ∀ r ∈ l, normalise r = r

@[simp] theorem normalise_normalise (r : MessageReaction P) : normalise (normalise r) = normalise r := by
  simp [normalise, canonicalUserId, toAsciiLowercase_idem]

def Frame.state (f : Frame P) : MessageReaction P := normalise f.entry

theorem Frame.normalise_state (f : Frame P) : normalise f.state = f.state := normalise_normalise _

variable {l : List (MessageReaction P)} {r : MessageReaction P}

theorem Kept.write (h : Kept l) (hr : normalise r = r) :
    Kept (write pairKey instant l r) := by
  have hl : Latest pairKey instant l {q | q ∈ l} := ⟨h.1, fun _ hq => hq, fun q hq => ⟨q, hq, rfl, le_rfl⟩⟩
  refine ⟨nodup_write h.1 r, fun q hq => ?_⟩
  rcases (hl.write r).sub q hq with rfl | hq
  · exact hr
  · exact h.2 q hq

def keptUnder (r : MessageReaction P) : String := pairKey (normalise r)

def News (l : List (MessageReaction P))
    (r : MessageReaction P) : Prop := ∀ q ∈ l, keptUnder q = keptUnder r → instant q < instant r

instance (l : List (MessageReaction P)) (r : MessageReaction P) : Decidable (News l r) :=
  inferInstanceAs (Decidable (∀ q ∈ l, keptUnder q = keptUnder r → instant q < instant r))

theorem Frame.keptUnder_state (f : Frame P) : keptUnder f.state = pairKey f.state := by
  rw [keptUnder, f.normalise_state]

variable {f : Frame P}

theorem applyReaction_eq (h : (l.map keptUnder).Nodup) (he : f.emoji ≠ "") :
    applyReaction l f.userId f.emoji f.at? f.removed f.proof = if News l f.state then
      some (write keptUnder instant l f.state) else none := by
  rw [applyReaction, if_neg he]
  change (match l.findIdx? fun r => keptUnder r = pairKey f.state with
    | none => some (l ++ [f.state])
    | some index => if f.at? ≤ (l[index]?.map instant).getD 0 then none else some (l.set index f.state)) = _
  rw [← f.keptUnder_state]
  split
  · rename_i hn
    rw [List.findIdx?_eq_none_iff] at hn
    have hnew : ∀ r ∈ l, keptUnder r ≠ keptUnder f.state := fun r hr => of_decide_eq_false (hn r hr)
    have hnews : News l f.state := fun q hq hk => absurd hk (hnew q hq)
    rw [if_pos hnews, write_of_new hnew]
  · rename_i i hi
    rw [List.findIdx?_eq_some_iff_getElem] at hi
    obtain ⟨hlt, hk, -⟩ := hi
    have hm := List.getElem_mem hlt
    rw [decide_eq_true_eq] at hk
    have hnews : News l f.state ↔ instant l[i] < f.at? := by
      refine ⟨fun hn => hn _ hm hk, fun hn q hq hqk => ?_⟩
      rw [List.inj_on_of_nodup_map h hq hm (hqk.trans hk.symm)]
      exact hn
    rw [List.getElem?_eq_getElem hlt, write_of_mem h hm hk, set_eq_replace h hlt hk]
    change (if f.at? ≤ instant l[i] then none else some (replace keptUnder l f.state)) =
      if News l f.state then some (if f.at? ≤ instant l[i] then l else replace keptUnder l f.state) else none
    by_cases hle : f.at? ≤ instant l[i]
    · rw [if_pos hle, if_neg fun hn => not_lt.mpr hle (hnews.mp hn)]
    · rw [if_neg hle, if_neg hle, if_pos (hnews.mpr (not_le.mp hle))]

theorem write_of_not_news (h : (l.map keptUnder).Nodup) (hn : ¬ News l r) :
    write keptUnder instant l r = l := by
  obtain ⟨q, hq, hk, hle⟩ : ∃ q ∈ l, keptUnder q = keptUnder r ∧ instant r ≤ instant q := by
    simpa [News] using hn
  rw [write_of_mem h hq hk, if_pos hle]

theorem applyReaction_getD_write (h : (l.map keptUnder).Nodup) (he : f.emoji ≠ "") :
    (applyReaction l f.userId f.emoji f.at? f.removed f.proof).getD l = write keptUnder instant l f.state := by
  rw [applyReaction_eq h he]
  split
  · rfl
  · rename_i hn
    exact (write_of_not_news h hn).symm

theorem Kept.keptUnder_eq (h : Kept l) : ∀ r ∈ l, keptUnder r = pairKey r := fun r hr => by
  rw [keptUnder, h.2 r hr]

theorem Kept.distinct (h : Kept l) : (l.map keptUnder).Nodup := by
  rw [List.map_congr_left h.keptUnder_eq]
  exact h.1

theorem applyReaction_getD (h : Kept l) (he : f.emoji ≠ "") :
    (applyReaction l f.userId f.emoji f.at? f.removed f.proof).getD l = write pairKey instant l f.state := by
  rw [applyReaction_getD_write h.distinct he]
  exact write_congr_key (List.forall_mem_cons.mpr ⟨f.keptUnder_state, h.keptUnder_eq⟩)

/-! ## The map of a merge -/

def entriesOf (l : List (MessageReaction P)) : List (String × MessageReaction P) := l.map fun r => (pairKey r, r)

theorem lookup_entriesOf (l : List (MessageReaction P))
    (k : String) : (entriesOf l).lookup k = l.find? fun r => pairKey r = k :=
  JsMap.lookup_map_key pairKey l k

theorem values_entriesOf {m : JsMap String (MessageReaction P)} (h : m.entries = entriesOf l) : m.values = l := by
  rw [JsMap.values, h, entriesOf, List.map_map]
  exact List.map_id l

theorem set_entriesOf {m : JsMap String (MessageReaction P)} (h : m.entries = entriesOf l)
    (r : MessageReaction P) :
    (m.set (pairKey r) r).entries = entriesOf (if l.any (pairKey · = pairKey r) then replace pairKey l r else
      l ++ [r]) := by
  have hhas : m.has (pairKey r) = l.any (pairKey · = pairKey r) := by
    rw [JsMap.has, JsMap.get, h, lookup_entriesOf, Bool.eq_iff_iff, List.find?_isSome, List.any_eq_true]
  rw [JsMap.set, hhas]
  split
  · rw [h, entriesOf, entriesOf, replace, List.map_map, List.map_map]
    refine List.map_congr_left fun q _ => ?_
    simp only [Function.comp_apply]
    split <;> rfl
  · rw [h, entriesOf, entriesOf, List.map_append]
    rfl

theorem byPair_entries (h : Kept l) : (byPair l).entries = entriesOf l := by
  have hkeys : (l.map fun r => pairKey (normalise r)).Nodup := h.distinct
  rw [byPair, JsMap.entries_setAll (fun r => pairKey (normalise r)) normalise hkeys fun r _ => rfl]
  refine (List.nil_append _).trans (List.map_congr_left fun r hr => ?_)
  rw [h.2 r hr]

def named (r : MessageReaction P) : Bool := r.emoji ≠ "" && r.userId ≠ ""

theorem write_eq : write pairKey instant l r =
    if (l.find? fun q => pairKey q = pairKey r).any fun q => instant r ≤ instant q then l
    else if l.any (pairKey · = pairKey r) then replace pairKey l r else l ++ [r] := by
  unfold write
  cases hf : l.find? fun q => pairKey q = pairKey r with
  | none =>
    have hany : l.any (pairKey · = pairKey r) = false := by
      rw [List.any_eq_false]
      exact List.find?_eq_none.mp hf
    simp [hany]
  | some q =>
    have hany : l.any (pairKey · = pairKey r) = true :=
      List.any_eq_true.mpr ⟨q, List.mem_of_find?_eq_some hf, by simpa using List.find?_some hf⟩
    simp [hany]

variable {acc : JsMap String (MessageReaction P) × Bool}

theorem mergeOne_entries (h : acc.1.entries = entriesOf l)
    (c : MessageReaction P) :
    ∃ l', (mergeOne acc c).1.entries = entriesOf l' ∧
      l' = (if named c then write pairKey instant l (normalise c) else l) ∧
      ((mergeOne acc c).2 = false → acc.2 = false ∧ l' = l) := by
  by_cases hn : named c = true
  · have hc : (decide (c.emoji = "") || decide (c.userId = "")) = false := by
      simpa [named] using hn
    have hget : acc.1.get (pairKey (normalise c)) = l.find? fun q => pairKey q = pairKey (normalise c) := by
      rw [JsMap.get, h, lookup_entriesOf]
    by_cases hlate : ((l.find? fun q => pairKey q = pairKey (normalise c)).any
      fun q => instant (normalise c) ≤ instant q) = true
    · have hm : mergeOne acc c = acc := by
        simp [mergeOne, hc, hget, hlate]
      rw [hm]
      exact ⟨l, h, by rw [if_pos hn, write_eq, if_pos hlate], fun hb => ⟨hb, rfl⟩⟩
    · have hm : mergeOne acc c = (acc.1.set (pairKey (normalise c)) (normalise c), true) := by
        simp [mergeOne, hc, hget, hlate]
      rw [hm]
      exact ⟨_, set_entriesOf h _, by rw [if_pos hn, write_eq, if_neg hlate], fun hb => by cases hb⟩
  · have hc : (decide (c.emoji = "") || decide (c.userId = "")) = true := by
      by_contra hcon
      exact hn (by simpa [named] using hcon)
    have hm : mergeOne acc c = acc := by
      simp [mergeOne, hc]
    rw [hm]
    exact ⟨l, h, by rw [if_neg hn], fun hb => ⟨hb, rfl⟩⟩

theorem foldl_mergeOne (h : acc.1.entries = entriesOf l)
    (cs : List (MessageReaction P)) :
    (cs.foldl mergeOne acc).1.entries = entriesOf (((cs.filter named).map normalise).foldl (write pairKey instant) l) ∧
      ((cs.foldl mergeOne acc).2 = false → acc.2 = false ∧
        ((cs.filter named).map normalise).foldl (write pairKey instant) l = l) := by
  induction cs generalizing l acc with
  | nil => exact ⟨h, fun hb => ⟨hb, rfl⟩⟩
  | cons c cs ih =>
    obtain ⟨l', he, hl', hq⟩ := mergeOne_entries h c
    obtain ⟨hfe, hfq⟩ := ih he
    have hstep : (((c :: cs).filter named).map normalise).foldl (write pairKey instant) l =
        ((cs.filter named).map normalise).foldl (write pairKey instant) l' := by
      rw [List.filter_cons, hl']
      split <;> rfl
    rw [hstep]
    refine ⟨hfe, fun hb => ?_⟩
    obtain ⟨hb', hrest⟩ := hfq hb
    obtain ⟨hb'', hsame⟩ := hq hb'
    exact ⟨hb'', hrest.trans hsame⟩

theorem mergeReactions_getD (h : Kept l) (cs : List (MessageReaction P)) :
    (mergeReactions l cs).getD l = ((cs.filter named).map normalise).foldl (write pairKey instant) l := by
  have hstart : (byPair l, false).1.entries = entriesOf l := byPair_entries h
  obtain ⟨he, hq⟩ := foldl_mergeOne hstart cs
  unfold mergeReactions
  simp only
  split
  · rw [Option.getD_some, values_entriesOf he]
  · rename_i hc
    exact (hq (Bool.eq_false_iff.mpr hc)).2.symm

/-! ## What a device holds -/

/-- The frames an arrival takes: all that have an emoji, and from a list only those that name somebody. -/
def Arrival.taken : Arrival P → List (Frame P)
  | .frame f => if f.emoji = "" then [] else [f]
  | .stored fs => fs.filter fun f => f.emoji ≠ "" && f.userId ≠ ""

theorem receive_eq (h : Kept l) (a : Arrival P) :
    receive l a = (a.taken.map Frame.state).foldl (write pairKey instant) l := by
  cases a with
  | frame f =>
    rw [receive, Arrival.taken]
    by_cases he : f.emoji = ""
    · rw [if_pos he, applyReaction, if_pos he]
      rfl
    · rw [if_neg he]
      exact applyReaction_getD h he
  | stored fs =>
    rw [receive, mergeReactions_getD h, List.filter_map, List.map_map]
    rfl

theorem Kept.foldl_write {fs : List (MessageReaction P)} (h : Kept l) (hfs : ∀ r ∈ fs, normalise r = r) :
    Kept (fs.foldl (LastWrite.write pairKey instant) l) := by
  induction fs generalizing l with
  | nil => exact h
  | cons r fs ih => exact ih (h.write (hfs r List.mem_cons_self)) fun q hq => hfs q (List.mem_cons_of_mem r hq)

theorem foldl_receive (h : Kept l) (as : List (Arrival P)) :
    as.foldl receive l = ((as.flatMap Arrival.taken).map Frame.state).foldl (write pairKey instant) l := by
  induction as generalizing l with
  | nil => rfl
  | cons a as ih =>
    have hk : Kept (receive l a) := by
      rw [receive_eq h]
      refine h.foldl_write fun r hr => ?_
      obtain ⟨f, -, rfl⟩ := List.mem_map.mp hr
      exact f.normalise_state
    rw [List.foldl_cons, ih hk, receive_eq h, List.flatMap_cons, List.map_append, List.foldl_append]

theorem kept_nil : Kept ([] : List (MessageReaction P)) := ⟨List.nodup_nil, fun _ hr => by cases hr⟩

theorem latest_device (as : List (Arrival P)) :
    Latest pairKey instant (device as) {r | r ∈ (as.flatMap Arrival.taken).map Frame.state} := by
  have h0 : Latest pairKey instant ([] : List (MessageReaction P)) ∅ := latest_nil
  have hl := h0.foldl_write ((as.flatMap Arrival.taken).map Frame.state)
  rw [Set.union_empty] at hl
  rw [device, foldl_receive kept_nil]
  exact hl

/-! ## When devices agree -/

/-- A frame with an emoji that no other of its key is later than. -/
def IsLast (frames : List (Frame P)) (f : Frame P) : Prop :=
  f ∈ frames ∧ f.emoji ≠ "" ∧ ∀ g ∈ frames, g.emoji ≠ "" → pairKey g.state = pairKey f.state → g.at? ≤ f.at?

/-- The last frames of one key show one reaction, and each names somebody. -/
def Settled (frames : List (Frame P)) : Prop :=
  ∀ f, IsLast frames f → f.userId ≠ "" ∧ ∀ g, IsLast frames g → pairKey g.state = pairKey f.state →
    shown g.state = shown f.state

variable {frames : List (Frame P)}

variable {as : List (Arrival P)}

theorem taken_subset (hb : Brings as frames)
    (hf : f ∈ as.flatMap Arrival.taken) : f ∈ frames ∧ f.emoji ≠ "" := by
  obtain ⟨a, ha, hfa⟩ := List.mem_flatMap.mp hf
  have hmem : f ∈ a.frames ∧ f.emoji ≠ "" := by
    cases a with
    | frame g =>
      rw [Arrival.taken] at hfa
      split at hfa
      · cases hfa
      · rename_i he
        obtain rfl := List.mem_singleton.mp hfa
        exact ⟨List.mem_singleton_self f, he⟩
    | stored fs =>
      rw [Arrival.taken, List.mem_filter, Bool.and_eq_true, decide_eq_true_eq] at hfa
      exact ⟨hfa.1, hfa.2.1⟩
  exact ⟨(hb f).mp (List.mem_flatMap.mpr ⟨a, ha, hmem.1⟩), hmem.2⟩

theorem mem_taken (hb : Brings as frames) (hf : f ∈ frames)
    (he : f.emoji ≠ "") (hu : f.userId ≠ "") : f ∈ as.flatMap Arrival.taken := by
  obtain ⟨a, ha, hfa⟩ := List.mem_flatMap.mp ((hb f).mpr hf)
  refine List.mem_flatMap.mpr ⟨a, ha, ?_⟩
  cases a with
  | frame g =>
    obtain rfl := List.mem_singleton.mp hfa
    rw [Arrival.taken, if_neg he]
    exact List.mem_singleton_self f
  | stored fs => exact List.mem_filter.mpr ⟨hfa, by simp [he, hu]⟩

theorem exists_last (hf : f ∈ frames) (he : f.emoji ≠ "") :
    ∃ m, IsLast frames m ∧ pairKey m.state = pairKey f.state := by
  have hfin : {g | g ∈ frames ∧ g.emoji ≠ "" ∧ pairKey g.state = pairKey f.state}.Finite :=
    (List.finite_toSet frames).subset fun g hg => hg.1
  obtain ⟨m, ⟨hm, hme, hmk⟩, hmax⟩ := Set.exists_max_image _ Frame.at? hfin ⟨f, hf, he, rfl⟩
  exact ⟨m, ⟨hm, hme, fun g hg hge hgk => hmax g ⟨hg, hge, hgk.trans hmk⟩⟩, hmk⟩

theorem instant_state (f : Frame P) : instant f.state = f.at? := rfl

theorem mem_shown_iff (hb : Brings as frames) (hs : Settled frames)
    {v : String × String × Int × Bool} : v ∈ (device as).map shown ↔ ∃ f, IsLast frames f ∧ shown f.state = v := by
  have hl := latest_device as
  constructor
  · intro hv
    obtain ⟨r, hr, rfl⟩ := List.mem_map.mp hv
    obtain ⟨f, hf, rfl⟩ := List.mem_map.mp (hl.sub r hr)
    obtain ⟨hfm, hfe⟩ := taken_subset hb hf
    obtain ⟨m, hm, hmk⟩ := exists_last hfm hfe
    -- the last frame of the key was taken, so the one held is last too
    have hmt := mem_taken hb hm.1 hm.2.1 (hs m hm).1
    have hle := hl.top hr (List.mem_map_of_mem hmt) hmk
    rw [instant_state] at hle
    refine ⟨f, ⟨hfm, hfe, fun g hg hge hgk => (hm.2.2 g hg hge (hgk.trans hmk.symm)).trans hle⟩, rfl⟩
  · rintro ⟨f, hf, rfl⟩
    have hft := mem_taken hb hf.1 hf.2.1 (hs f hf).1
    obtain ⟨r, hr, hrk, hrs⟩ := hl.covers f.state (List.mem_map_of_mem hft)
    obtain ⟨g, hg, rfl⟩ := List.mem_map.mp (hl.sub r hr)
    obtain ⟨hgm, hge⟩ := taken_subset hb hg
    rw [instant_state] at hrs
    have hglast : IsLast frames g := ⟨hgm, hge, fun x hx hxe hxk => (hf.2.2 x hx hxe (hxk.trans hrk)).trans hrs⟩
    exact List.mem_map.mpr ⟨_, hr, ((hs g hglast).2 f hf hrk.symm).symm⟩

theorem last_first (hf : IsLast frames f) :
    f.state ∈ device ((f :: frames).map Arrival.frame) := by
  rw [device, foldl_receive kept_nil, List.map_cons, List.flatMap_cons, Arrival.taken, if_neg hf.2.1,
    List.singleton_append,
    List.map_cons, List.foldl_cons]
  have hfirst : write pairKey instant [] f.state = [f.state] := rfl
  rw [hfirst]
  refine mem_foldl_write_of_top (List.mem_singleton_self _) (List.nodup_singleton _) fun r hr hk => ?_
  obtain ⟨g, hg, rfl⟩ := List.mem_map.mp hr
  have hb : Brings (frames.map Arrival.frame) frames := fun x => by simp [Arrival.frames]
  obtain ⟨hgm, hge⟩ := taken_subset hb hg
  exact hf.2.2 g hgm hge hk

theorem brings_direct (hf : f ∈ frames) : Brings ((f :: frames).map Arrival.frame) frames := by
  intro x
  have hmem : x ∈ ((f :: frames).map Arrival.frame).flatMap Arrival.frames ↔ x ∈ f :: frames := by
    simp [List.flatMap_map, Arrival.frames]
  rw [hmem, List.mem_cons]
  constructor
  · rintro (rfl | hx)
    · exact hf
    · exact hx
  · exact .inr

theorem canonicalUserId_ne_empty {userId : String} (h : userId ≠ "") : canonicalUserId userId ≠ "" := by
  intro e
  have hl := congrArg String.toList e
  rw [canonicalUserId, Canari.Mls.Identity.toAsciiLowercase, String.toList_ofList] at hl
  have hnil : userId.toList = [] := List.map_eq_nil_iff.mp hl
  exact h (String.toList_inj.mp hnil)

theorem pairKey_of_shown {q : MessageReaction P} (h : shown r = shown q) : pairKey r = pairKey q := by
  simp only [shown, Prod.mk.injEq] at h
  rw [pairKey, pairKey, h.1, h.2.1]

/-- Devices that saw the same frames agree, in every order and split, exactly when the last ones do. -/
theorem reactions_converge_iff (frames : List (Frame P)) :
    (∀ as bs : List (Arrival P), Brings as frames → Brings bs frames → SameReactions (device as) (device bs)) ↔
      Settled frames := by
  constructor
  · intro hc f hf
    have hfd := brings_direct hf.1
    have hfm : shown f.state ∈ (device ((f :: frames).map Arrival.frame)).map shown :=
      List.mem_map_of_mem (last_first hf)
    refine ⟨fun hu => ?_, fun g hg hk => ?_⟩
    · -- alone the frame is taken, in a list it is skipped
      have hb : Brings [Arrival.stored frames] frames := fun x => by simp [Arrival.frames]
      obtain ⟨r, hr, hrs⟩ := List.mem_map.mp ((hc _ _ hfd hb _).mp hfm)
      obtain ⟨x, hx, rfl⟩ := List.mem_map.mp ((latest_device _).sub r hr)
      rw [List.flatMap_singleton, Arrival.taken, List.mem_filter, Bool.and_eq_true, decide_eq_true_eq,
        decide_eq_true_eq] at hx
      have huser : canonicalUserId x.userId = canonicalUserId f.userId := (Prod.mk.inj hrs).1
      rw [hu] at huser
      exact canonicalUserId_ne_empty hx.2.2 (huser.trans (by decide))
    · obtain ⟨r, hr, hrs⟩ := List.mem_map.mp ((hc _ _ hfd (brings_direct hg.1) _).mp hfm)
      have hrk : pairKey r = pairKey g.state := (pairKey_of_shown hrs).trans hk.symm
      rw [← hrs, List.inj_on_of_nodup_map (latest_device _).nodup hr (last_first hg) hrk]
  · intro hs as bs ha hb v
    rw [mem_shown_iff ha hs, mem_shown_iff hb hs]

/-! ## Frames that tie -/

def placed : Frame Unit := ⟨"alice", "👍", 100, false, none⟩
def takenBack : Frame Unit := ⟨"Alice", "👍", 100, true, none⟩

def spaced : Frame Unit := ⟨"bob", "x y", 7, false, none⟩
def spacedUser : Frame Unit := ⟨"bob x", "y", 7, false, none⟩

/-- Each order keeps its first frame, and a list skips a frame that names nobody. -/
theorem reactions_diverge :
    (device [.frame placed, .frame takenBack]).map shown = [("alice", "👍", 100, false)] ∧
    (device [.frame takenBack, .frame placed]).map shown = [("alice", "👍", 100, true)] ∧
    ¬ SameReactions (device [.frame placed, .frame takenBack]) (device [.frame takenBack, .frame placed]) ∧
    ¬ SameReactions (device [.frame spaced, .stored [spacedUser]]) (device [.stored [spacedUser], .frame spaced]) := by
  refine ⟨by decide, by decide, fun h => ?_, fun h => ?_⟩
  · have hm := (h ("alice", "👍", 100, false)).mp (by decide)
    exact absurd hm (by decide)
  · have hm := (h ("bob", "x y", 7, false)).mp (by decide)
    exact absurd hm (by decide)

end Canari.Chat.MessageReactions
