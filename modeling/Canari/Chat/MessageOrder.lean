/-
  Canari.Chat.MessageOrder — the list on screen kept in order
  (`frontend/src/lib/utils/chat/messageOrder.ts`: `replaceMessageOrdered`,
  `insertMessageOrdered`, `mergeMessagesInInputOrder`; the order itself is
  `compareMessageOrder` of `MessagePage`).

  A row that is patched may change its tier or its time, and with them its place.
  `replaceMessageOrdered` sorts only when the row left its neighbours, and a batch is
  sorted once. Both come to the full sort: a sorted list whose row stays between its
  neighbours is sorted (`sorted_of_neighbours`), and a stable sort of a list whose
  beginning is sorted already is the sort of the whole (`insertionSort_append`).

  So on any run the list shown is the sort of the rows received. Rows of distinct ids
  never tie, so devices with the same rows show one list.
-/

import Canari.Chat.MessagePage

namespace Canari.Chat.MessagePage

open List
open Lib.JsText (text)

/-! ## A stable sort -/

section Stable

variable {α : Type} {r : α → α → Prop} [DecidableRel r] [Std.Total r] [IsTrans α r]

theorem orderedInsert_comm {a c : α} (h : ¬ r a c) (l : List α) :
    (l.orderedInsert r c).orderedInsert r a = (l.orderedInsert r a).orderedInsert r c := by
  have hca : r c a := (Std.Total.total a c).resolve_left h
  induction l with
  | nil => simp [h, hca]
  | cons y l ih =>
    by_cases hc : r c y
    · by_cases ha : r a y <;> simp [hc, ha, h, hca]
    · have ha : ¬ r a y := fun hay => h (IsTrans.trans a y c hay ((Std.Total.total c y).resolve_left hc))
      simp [hc, ha, ih]

theorem foldr_orderedInsert (a : α) (l rest : List α) :
    (l.orderedInsert r a).foldr (orderedInsert r) rest = (l.foldr (orderedInsert r) rest).orderedInsert r a := by
  induction l with
  | nil => rfl
  | cons b l ih =>
    rw [orderedInsert_cons]
    split
    · rfl
    · rename_i hab
      rw [foldr_cons, foldr_cons, ih, orderedInsert_comm hab]

theorem insertionSort_append (l l' : List α) :
    (l.insertionSort r ++ l').insertionSort r = (l ++ l').insertionSort r := by
  unfold insertionSort
  rw [foldr_append, foldr_append]
  induction l with
  | nil => rfl
  | cons a l ih => rw [foldr_cons, foldr_orderedInsert, ih, foldr_cons]

end Stable

variable {ρ : Type}

/-! ## The operations -/

def inPlace (next : List (ChatMessage ρ)) (idx : Nat) (updated : ChatMessage ρ) : Bool :=
  let before := if 0 < idx then next[idx - 1]? else none
  let after := if idx < next.length - 1 then next[idx + 1]? else none
  before.all (compareMessageOrder · updated ≤ 0) && after.all (compareMessageOrder updated · ≤ 0)

/-- The row at `idx` replaced, and the list sorted if it left its neighbours. -/
def replaceMessageOrdered (messages : List (ChatMessage ρ)) (idx : Fin messages.length)
    (updated : ChatMessage ρ) : List (ChatMessage ρ) :=
  let next := messages.set idx updated
  if !inPlace next idx updated then sortMessages next else next

def insertMessageOrdered (messages : List (ChatMessage ρ)) (incoming : ChatMessage ρ) : List (ChatMessage ρ) :=
  sortMessages (messages ++ [incoming])

def mergeMessagesInInputOrder (existing incoming : List (ChatMessage ρ)) : List (ChatMessage ρ) :=
  if incoming.length = 0 then existing else sortMessages (existing ++ incoming)

inductive Change (ρ : Type) where
  | replace (idx : Nat) (updated : ChatMessage ρ)
  | insert (incoming : ChatMessage ρ)
  | merge (incoming : List (ChatMessage ρ))

/-- The list shown after a change; a caller that finds no row at the place changes nothing. -/
def Change.apply (messages : List (ChatMessage ρ)) : Change ρ → List (ChatMessage ρ)
  | .replace idx updated =>
      if h : idx < messages.length then replaceMessageOrdered messages ⟨idx, h⟩ updated else messages
  | .insert incoming => insertMessageOrdered messages incoming
  | .merge incoming => mergeMessagesInInputOrder messages incoming

def Change.rows (messages : List (ChatMessage ρ)) : Change ρ → List (ChatMessage ρ)
  | .replace idx updated => messages.set idx updated
  | .insert incoming => messages ++ [incoming]
  | .merge incoming => messages ++ incoming

def shownAfter (shown : List (ChatMessage ρ))
    (changes : List (Change ρ)) : List (ChatMessage ρ) := changes.foldl Change.apply shown

/-! ## One change -/

variable {l : List (ChatMessage ρ)} {u : ChatMessage ρ}

theorem sorted_of_neighbours {pre post : List (ChatMessage ρ)} (h : (pre ++ post).Pairwise Precedes)
    (hb : ∀ b ∈ pre.getLast?, Precedes b u)
    (ha : ∀ a ∈ post.head?, Precedes u a) : (pre ++ u :: post).Pairwise Precedes := by
  obtain ⟨hpre, hpost, hcross⟩ := pairwise_append.mp h
  have hbelow : ∀ m ∈ pre, Precedes m u := by
    intro m hm
    obtain ⟨front, last, rfl⟩ := (eq_nil_or_concat' pre).resolve_left (ne_nil_of_mem hm)
    have hlast := hb last (by simp)
    rcases mem_append.mp hm with hm | hm
    · exact precedes_trans ((pairwise_append.mp hpre).2.2 m hm last (mem_singleton_self _)) hlast
    · exact mem_singleton.mp hm ▸ hlast
  have habove : ∀ m ∈ post, Precedes u m := by
    intro m hm
    obtain ⟨first, tail, rfl⟩ := exists_cons_of_ne_nil (ne_nil_of_mem hm)
    have hfirst := ha first rfl
    rcases mem_cons.mp hm with rfl | hm
    · exact hfirst
    · exact precedes_trans hfirst (rel_of_pairwise_cons hpost hm)
  refine pairwise_append.mpr ⟨hpre, pairwise_cons.mpr ⟨habove, hpost⟩, fun a hm b hn => ?_⟩
  rcases mem_cons.mp hn with rfl | hn
  · exact hbelow a hm
  · exact hcross a hm b hn

theorem sorted_of_inPlace (h : l.Pairwise Precedes) {idx : Nat} (hidx : idx < l.length)
    (hplace : inPlace (l.set idx u) idx u = true) :
    (l.set idx u).Pairwise Precedes := by
  simp only [inPlace, Bool.and_eq_true, Option.all_eq_true, decide_eq_true_eq] at hplace
  obtain ⟨hbefore, hafter⟩ := hplace
  have hrest : (l.take idx ++ l.drop (idx + 1)).Sublist l := eraseIdx_eq_take_drop_succ l idx ▸ eraseIdx_sublist l idx
  rw [set_eq_take_append_cons_drop, if_pos hidx]
  refine sorted_of_neighbours (h.sublist hrest) (fun b hb => hbefore b ?_) fun a ha => hafter a ?_
  · rw [getLast?_take] at hb
    split at hb
    · cases hb
    · rename_i hzero
      have hlt : idx - 1 < l.length := by omega
      rw [getElem?_eq_getElem hlt] at hb
      rw [if_pos (Nat.pos_of_ne_zero hzero), getElem?_set_ne (by omega), getElem?_eq_getElem hlt]
      exact hb
  · rw [head?_drop] at ha
    obtain ⟨hlt, -⟩ := List.getElem?_eq_some_iff.mp ha
    rw [length_set, if_pos (by omega), getElem?_set_ne (by omega)]
    exact ha

theorem replaceMessageOrdered_eq (h : l.Pairwise Precedes) (idx : Fin l.length) (u : ChatMessage ρ) :
    replaceMessageOrdered l idx u = sortMessages (l.set idx u) := by
  rw [replaceMessageOrdered]
  cases hplace : inPlace (l.set idx u) idx u with
  | false => rfl
  | true => exact (Pairwise.insertionSort_eq (sorted_of_inPlace h idx.isLt hplace)).symm

theorem apply_eq (h : l.Pairwise Precedes) (c : Change ρ) : c.apply l = sortMessages (c.rows l) := by
  have hself : l = sortMessages l := (Pairwise.insertionSort_eq h).symm
  cases c with
  | replace idx updated =>
    rw [Change.apply, Change.rows]
    split
    · exact replaceMessageOrdered_eq h _ updated
    · rename_i hout
      rw [set_eq_of_length_le (Nat.not_lt.mp hout)]
      exact hself
  | insert incoming => rfl
  | merge incoming =>
    rw [Change.apply, Change.rows, mergeMessagesInInputOrder]
    split
    · rename_i hnone
      rw [length_eq_zero_iff.mp hnone, append_nil]
      exact hself
    · rfl

theorem merge_eq_inserts (h : l.Pairwise Precedes) (incoming : List (ChatMessage ρ)) :
    mergeMessagesInInputOrder l incoming = incoming.foldl insertMessageOrdered l := by
  refine (apply_eq h (.merge incoming)).trans ?_
  rw [Change.rows]
  induction incoming generalizing l with
  | nil => rw [append_nil]; exact Pairwise.insertionSort_eq h
  | cons m incoming ih =>
    rw [foldl_cons, insertMessageOrdered, ← ih (sortMessages_sorted _), append_cons]
    exact (insertionSort_append (r := Precedes) _ _).symm

/-! ## A run -/

section Run

variable [DecidableEq ρ]

/-- The rows received, in the order they came: a replaced row leaves, its update comes. -/
def Change.received (shown rows : List (ChatMessage ρ)) : Change ρ → List (ChatMessage ρ)
  | .replace idx updated =>
    match shown[idx]? with
    | some old => rows.erase old ++ [updated]
    | none => rows
  | .insert incoming => rows ++ [incoming]
  | .merge incoming => rows ++ incoming

def receivedAfter (shown rows : List (ChatMessage ρ)) : List (Change ρ) → List (ChatMessage ρ)
  | [] => rows
  | c :: changes => receivedAfter (c.apply shown) (c.received shown rows) changes

theorem rows_perm_received {shown rows : List (ChatMessage ρ)} (h : shown.Perm rows) (c : Change ρ) :
    (c.rows shown).Perm (c.received shown rows) := by
  cases c with
  | replace idx updated =>
    rw [Change.rows, Change.received]
    cases hold : shown[idx]? with
    | none =>
      rw [set_eq_of_length_le (getElem?_eq_none_iff.mp hold)]
      exact h
    | some old =>
      obtain ⟨hlt, rfl⟩ := List.getElem?_eq_some_iff.mp hold
      have hrest : (shown.eraseIdx idx).Perm (rows.erase shown[idx]) :=
        (cons_perm_iff_perm_erase.mp ((getElem_cons_eraseIdx_perm hlt).trans h)).2
      exact (set_perm_cons_eraseIdx hlt updated).trans
        ((hrest.cons updated).trans (perm_append_singleton updated _).symm)
  | insert incoming => exact h.append_right _
  | merge incoming => exact h.append_right _

theorem shownAfter_spec {shown rows : List (ChatMessage ρ)} (hs : shown.Pairwise Precedes) (h : shown.Perm rows)
    (changes : List (Change ρ)) :
    (shownAfter shown changes).Pairwise Precedes ∧
      (shownAfter shown changes).Perm (receivedAfter shown rows changes) := by
  induction changes generalizing shown rows with
  | nil => exact ⟨hs, h⟩
  | cons c changes ih =>
    have happly := apply_eq hs c
    refine ih (happly ▸ sortMessages_sorted _) ?_
    rw [happly]
    exact (sortMessages_perm _).trans (rows_perm_received h c)

/-- The comparison is a strict total order of rows with distinct ids; each change of a sorted list
    leaves the stable sort of its rows, a batch that of its rows one by one; and a run leaves the one
    sort of the rows received, so devices that received the same rows show one list. -/
theorem shown_list_is_the_sort_of_its_rows :
    (∀ a b c : ChatMessage ρ, ¬ compareMessageOrder a a < 0 ∧
      (compareMessageOrder a b < 0 → compareMessageOrder b c < 0 → compareMessageOrder a c < 0) ∧
      (a.id ≠ b.id → compareMessageOrder a b < 0 ∨ compareMessageOrder b a < 0)) ∧
    ∀ shown : List (ChatMessage ρ), shown.Pairwise Precedes →
      (∀ c : Change ρ, c.apply shown = sortMessages (c.rows shown)) ∧
      (∀ incoming, mergeMessagesInInputOrder shown incoming = incoming.foldl insertMessageOrdered shown) ∧
      ∀ changes, ((receivedAfter shown shown changes).map ChatMessage.id).Nodup →
        shownAfter shown changes = sortMessages (receivedAfter shown shown changes) ∧
        ∀ shown' changes', shown'.Pairwise Precedes →
          (receivedAfter shown shown changes).Perm (receivedAfter shown' shown' changes') →
          shownAfter shown changes = shownAfter shown' changes' := by
  refine ⟨fun a b c => ⟨?_, ?_, ?_⟩, fun shown hs => ⟨apply_eq hs, merge_eq_inserts hs, fun changes hid => ?_⟩⟩
  · rw [compare_neg_iff, not_not]
    exact (precedes_total a a).elim id id
  · intro hab hbc
    rw [compare_neg_iff] at hab hbc ⊢
    exact fun hca => hbc (precedes_trans hca ((precedes_total a b).resolve_right hab))
  · intro hne
    rw [compare_neg_iff, compare_neg_iff, ← not_and_or]
    exact fun h => hne (id_eq_of_precedes h.2 h.1)
  · obtain ⟨hsorted, hperm⟩ := shownAfter_spec hs (.refl shown) changes
    have hsort : shownAfter shown changes = sortMessages (receivedAfter shown shown changes) :=
      (Pairwise.insertionSort_eq hsorted).symm.trans (sortMessages_congr hid hperm.symm).symm
    refine ⟨hsort, fun shown' changes' hs' hsame => ?_⟩
    obtain ⟨hsorted', hperm'⟩ := shownAfter_spec hs' (.refl shown') changes'
    rw [hsort, sortMessages_congr hid (hsame.trans hperm'.symm)]
    exact Pairwise.insertionSort_eq hsorted'

end Run

def reply : ChatMessage Unit :=
    { body with id := text "m1", isOwn := true, serverTimestamp := none, status := some .sending }

/-- It is shown last until its send is answered; another device gets it dated, in one batch. -/
theorem a_reply_takes_its_place :
    let dated := { reply with serverTimestamp := some 7, status := some .sent }
    (Change.apply [body, reply] (.replace 1 dated)).map ChatMessage.id = [text "m1", text "m2"] ∧
      shownAfter [] [.insert reply, .insert body, .replace 1 dated] = shownAfter [] [.merge [dated, body]] := by
  refine ⟨by decide +kernel, (((shown_list_is_the_sort_of_its_rows (ρ := Unit)).2 [] .nil).2.2 _ ?_).2 _ _ .nil ?_⟩
  · decide +kernel
  · decide +kernel

end Canari.Chat.MessagePage
