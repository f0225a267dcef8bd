/-
  Canari.Chat.PendingSettlement — when a settlement does not depend on the order of the entries
  (`frontend/src/lib/utils/chat/pendingMutations.ts`).

  The first of two deletions gives its proof, edits whose texts are JSON of an envelope can each
  replace or refuse the other, and of two reactions of a key at one instant the first stays
  (`a_tied_reaction_does_not_settle`). An edit that supersedes itself is applied again, which
  rewrites a media body whose numbers are not finite (`again_of_some`).

  `settles_iff_unambiguous`: every order gives the same fields, and settling the row again changes
  nothing, exactly when the deletions carry one proof, no edit replaces the one held or one prevails
  (`Contest.challenger_unique_iff`), and the last reactions of a key are one. Reactions are compared
  as the set they are.
-/

import Canari.Chat.PendingMutations
import Mathlib.Data.Multiset.Basic

namespace Canari.Chat.PendingMutations

open Lib Lib.Json Lib.LastWrite Lib.Contest List Option
open Lib.Utf16 (JsString)
open Lib.JsText (text)
open Chat.Envelope Chat.EditPrecedence Chat.MessageReactions Chat.MessageMerge

variable {P ν : Type} [JsNumber ν] [DecidableEq P]

/-! ## Orders of the entries -/

/-- Fields as they are compared: the reactions are a set, one entry for each key. -/
def view (f : SettledFields P) : SettledFields P × Option (Multiset (MessageReaction P)) :=
  ({ f with reactions := none }, f.reactions.map Multiset.ofList)

omit [DecidableEq P] in
theorem bodyFields_reactions (deletedText : JsString) (target : SettleTarget P) (sorted : Sorted P) :
    (bodyFields ν deletedText target sorted).reactions = none := by
  unfold bodyFields
  split
  · rfl
  · split
    · rfl
    · simp only
      split
      · rfl
      · rfl

theorem view_eq_iff {b b' : SettledFields P} {r r' : Option (List (MessageReaction P))} (hb : b.reactions = none)
    (hb' : b'.reactions = none) :
    (if ({ b with reactions := r } : SettledFields P) = .empty then none else some { b with reactions := r }).map view =
        (if ({ b' with reactions := r' } : SettledFields P) = .empty then none else
          some { b' with reactions := r' }).map view ↔
      b = b' ∧ r.map Multiset.ofList = r'.map Multiset.ofList := by
  have hview : ∀ {c : SettledFields P} {q : Option (List (MessageReaction P))}, c.reactions = none →
      view { c with reactions := q } = (c, q.map Multiset.ofList) := by
    intro c q hc
    obtain ⟨_, _, _, _, _, _, _, reactions⟩ := c
    obtain rfl : reactions = none := hc
    rfl
  have hempty : ∀ {c : SettledFields P} {q : Option (List (MessageReaction P))}, c.reactions = none →
      (({ c with reactions := q } : SettledFields P) = .empty ↔ c = .empty ∧ q.map Multiset.ofList = none) := by
    intro c q hc
    obtain ⟨_, _, _, _, _, _, _, reactions⟩ := c
    obtain rfl : reactions = none := hc
    cases q <;> simp [SettledFields.empty]
  split
  · rename_i h
    rw [hempty hb] at h
    obtain ⟨rfl, hr⟩ := h
    split
    · rename_i h'
      rw [hempty hb'] at h'
      obtain ⟨rfl, hr'⟩ := h'
      simp [hr, hr']
    · rename_i h'
      rw [hempty hb'] at h'
      refine iff_of_false (by simp) fun hand => h' ⟨hand.1.symm, hand.2.symm.trans hr⟩
  · rename_i h
    rw [hempty hb] at h
    split
    · rename_i h'
      rw [hempty hb'] at h'
      exact iff_of_false (by simp) fun hand => h ⟨hand.1.trans h'.1, hand.2.trans h'.2⟩
    · rw [map_some, map_some, some_inj, hview hb, hview hb', Prod.mk.injEq]

theorem exists_perm_filterMap {α β : Type} (f : α → Option β) {l : List α} {m : List β} (h : m.Perm (l.filterMap f)) :
    ∃ l' : List α, l'.Perm l ∧ l'.filterMap f = m := by
  induction m generalizing l with
  | nil => exact ⟨l, .refl l, nil_perm.mp h⟩
  | cons b m ih =>
    obtain ⟨a, ha, hab⟩ := mem_filterMap.mp (h.mem_iff.mp mem_cons_self)
    obtain ⟨front, back, rfl⟩ := append_of_mem ha
    have hrest : m.Perm ((front ++ back).filterMap f) := by
      refine List.Perm.cons_inv (a := b) (h.trans ?_)
      rw [filterMap_append, filterMap_cons_some hab, filterMap_append]
      exact perm_middle
    obtain ⟨l', hl', hm⟩ := ih hrest
    exact ⟨a :: l', (hl'.cons a).trans perm_middle.symm, by rw [filterMap_cons_some hab, hm]⟩

omit [DecidableEq P] in
theorem offers_eq (target : SettleTarget P) (entries : List (PendingMutation P)) :
    offers target entries = entries.filterMap fun e => if authorEdits target e then offer e else none := by
  rw [offers, filterMap_filter]

omit [DecidableEq P] in
theorem perm_offers (target : SettleTarget P) {entries entries' : List (PendingMutation P)}
    (h : entries'.Perm entries) :
    (offers target entries').Perm (offers target entries) := (h.filter _).filterMap offer

omit [DecidableEq P] in
theorem editFields_inj {content : JsString}
    {o o' : Option (Offer P)} : editFields ν content o = editFields ν content o' ↔ o = o' := by
  constructor
  · intro h
    match o, o' with
    | none, none => rfl
    | none, some w => cases congrArg SettledFields.isEdited h
    | some w, none => cases congrArg SettledFields.isEdited h
    | some w, some w' =>
      have hcontent := some.inj (congrArg SettledFields.content h)
      have htext := congrArg (envelopeBodyText ν) hcontent
      rw [envelopeBodyText_applyEditToBody, envelopeBodyText_applyEditToBody] at htext
      have hrank : w.edit.editedAt = w'.edit.editedAt := some.inj (congrArg SettledFields.editedAt h)
      have hproof : w.proof = w'.proof := some.inj (congrArg SettledFields.editProof h)
      obtain ⟨⟨rank, newText⟩, proof⟩ := w
      obtain ⟨⟨rank', newText'⟩, proof'⟩ := w'
      obtain rfl : rank = rank' := hrank
      obtain rfl : newText = newText' := htext
      obtain rfl : proof = proof' := hproof
      rfl
  · exact fun h => h ▸ rfl

variable (ν) in
def OneEdit (target : SettleTarget P) (entries : List (PendingMutation P)) : Prop :=
  (∀ o ∈ offers target entries, offerBeats ν o (heldOffer ν target) = false) ∨
    ∃ w, Prevails (offerBeats ν) (heldOffer ν target) (offers target entries) w

theorem editTaken_unique_iff (target : SettleTarget P) (entries : List (PendingMutation P)) :
    (∀ entries', entries'.Perm entries → editTaken ν target entries' = editTaken ν target entries) ↔
      OneEdit ν target entries := by
  rw [OneEdit, ← challenger_unique_iff]
  constructor
  · intro h es' hperm
    rw [offers_eq] at hperm
    obtain ⟨entries', hp, rfl⟩ := exists_perm_filterMap _ hperm
    rw [← offers_eq]
    exact h entries' hp
  · exact fun h entries' hperm => h _ (perm_offers target hperm)

def OneDeletion (target : SettleTarget P) (entries : List (PendingMutation P)) : Prop :=
  ∀ d ∈ entries, ∀ d' ∈ entries, authorDeletes target d = true → authorDeletes target d' = true → d.proof = d'.proof

variable {target : SettleTarget P}

theorem deletion_unique_iff (deletedText : JsString) {entries : List (PendingMutation P)}
    (hd : truthy target.isDeleted = false)
    (hex : ∃ d ∈ entries, authorDeletes target d = true) :
    (∀ entries', entries'.Perm entries → bodyFields ν deletedText target (sortEntries target entries') =
        bodyFields ν deletedText target (sortEntries target entries)) ↔ OneDeletion target entries := by
  have hbody : ∀ {es : List (PendingMutation P)} {d : PendingMutation P}, es.find? (authorDeletes target) = some d →
      bodyFields ν deletedText target (sortEntries target es) = deletionFields deletedText d.proof := by
    intro es d hfind
    rw [bodyFields_eq, hd, if_neg Bool.false_ne_true, hfind]
  have hinj : ∀ {p q : Option P}, deletionFields deletedText p = deletionFields deletedText q → p = q :=
    fun h => congrArg SettledFields.deleteProof h
  constructor
  · intro h d hdm d' hdm' hda hda'
    -- one of the two first
    have hfirst : ∀ x ∈ entries, authorDeletes target x = true →
        bodyFields ν deletedText target (sortEntries target entries) = deletionFields deletedText x.proof := by
      intro x hx hxa
      rw [← h _ (perm_cons_erase hx).symm]
      exact hbody (find?_cons_of_pos hxa)
    exact hinj ((hfirst d hdm hda).symm.trans (hfirst d' hdm' hda'))
  · intro h entries' hperm
    obtain ⟨x, hx, hxa⟩ := hex
    obtain ⟨d, hfind⟩ : ∃ d, entries.find? (authorDeletes target) = some d :=
      isSome_iff_exists.mp (find?_isSome.mpr ⟨x, hx, hxa⟩)
    obtain ⟨d', hfind'⟩ : ∃ d, entries'.find? (authorDeletes target) = some d :=
      isSome_iff_exists.mp (find?_isSome.mpr ⟨x, hperm.mem_iff.mpr hx, hxa⟩)
    rw [hbody hfind, hbody hfind', h d (mem_of_find?_eq_some hfind) d' (hperm.mem_iff.mp (mem_of_find?_eq_some hfind'))
      (find?_some hfind) (find?_some hfind')]

/-! ## Orders of the reactions -/

/-- Placed by an entry, later than what a list holds of its key, and by no other entry of the key outdated. -/
structure Tops (l : List (MessageReaction P)) (entries : List (PendingMutation P)) (r : MessageReaction P) : Prop where
  mem : r ∈ placed entries
  news : News l r
  last : ∀ q ∈ placed entries, keptUnder q = keptUnder r → instant q ≤ instant r

/-- The last entries of one key place one reaction. -/
def OneReaction (l : List (MessageReaction P)) (entries : List (PendingMutation P)) : Prop :=
  ∀ a b, Tops l entries a → Tops l entries b → keptUnder a = keptUnder b → a = b

section Reactions

variable {l : List (MessageReaction P)} {entries entries' : List (PendingMutation P)}

omit [DecidableEq P] in
theorem perm_placed (h : entries'.Perm entries) : (placed entries').Perm (placed entries) :=
    ((h.filterMap frame).filter _).map Frame.state

omit [DecidableEq P] in
theorem latest_placed (hl : (l.map keptUnder).Nodup) (entries : List (PendingMutation P)) :
    Latest keptUnder instant ((placed entries).foldl (write keptUnder instant) l)
      ({r | r ∈ placed entries} ∪ {r | r ∈ l}) := by
  have h0 : Latest keptUnder instant l {r | r ∈ l} := ⟨hl, fun _ hr => hr, fun r hr => ⟨r, hr, rfl, le_rfl⟩⟩
  exact h0.foldl_write (placed entries)

omit [DecidableEq P] in
theorem mem_foldl_placed (hl : (l.map keptUnder).Nodup) (hone : OneReaction l entries) (r : MessageReaction P) :
    r ∈ (placed entries).foldl (write keptUnder instant) l ↔
      (r ∈ l ∧ ∀ q ∈ placed entries, keptUnder q = keptUnder r → instant q ≤ instant r) ∨ Tops l entries r := by
  have hlatest := latest_placed hl entries
  have hforward : ∀ r ∈ (placed entries).foldl (write keptUnder instant) l,
      (r ∈ l ∧ ∀ q ∈ placed entries, keptUnder q = keptUnder r → instant q ≤ instant r) ∨ Tops l entries r := by
    intro r hr
    have hlast : ∀ q ∈ placed entries, keptUnder q = keptUnder r → instant q ≤ instant r :=
      fun q hq hk => hlatest.top hr (.inl hq) hk
    by_cases hrl : r ∈ l
    · exact .inl ⟨hrl, hlast⟩
    · refine .inr ⟨(hlatest.sub r hr).resolve_right hrl,
        fun q hq hk => lt_of_le_of_ne (hlatest.top hr (.inr hq) hk) fun heq => hrl ?_, hlast⟩
      -- an entry held that is not outdated stays, and is the one of its key
      have hq' := mem_foldl_write_of_top hq hl fun f hf hfk => (hlast f hf (hfk.trans hk)).trans heq.ge
      rw [← inj_on_of_nodup_map hlatest.nodup hq' hr hk]
      exact hq
  refine ⟨hforward r, fun hor => ?_⟩
  rcases hor with ⟨hrl, hlast⟩ | htops
  · exact mem_foldl_write_of_top hrl hl hlast
  · obtain ⟨r', hr', hk, hle⟩ := hlatest.covers r (.inl htops.mem)
    rcases hforward r' hr' with ⟨hrl, -⟩ | htops'
    · exact absurd (htops.news r' hrl hk) (not_lt.mpr hle)
    · rw [hone r r' htops htops' hk.symm]
      exact hr'

omit [DecidableEq P] in
theorem nodup_foldl_placed (hl : (l.map keptUnder).Nodup) (entries : List (PendingMutation P)) :
    ((placed entries).foldl (write keptUnder instant) l).Nodup := List.Nodup.of_map _ (latest_placed hl entries).nodup

variable {r : MessageReaction P}

omit [DecidableEq P] in
theorem tops_perm (h : entries'.Perm entries) (ht : Tops l entries' r) : Tops l entries r where
  mem := (perm_placed h).mem_iff.mp ht.mem
  news := ht.news
  last q hq := ht.last q ((perm_placed h).mem_iff.mpr hq)

omit [DecidableEq P] in
theorem reactionFields_perm (hl : (l.map keptUnder).Nodup) (hone : OneReaction l entries) (h : entries'.Perm entries) :
    (reactionFields l entries').map Multiset.ofList = (reactionFields l entries).map Multiset.ofList := by
  have hany : ((placed entries').any fun r => News l r) = (placed entries).any fun r => News l r :=
    (perm_placed h).any_eq
  have hone' : OneReaction l entries' := fun a b ha hb hk => hone a b (tops_perm h ha) (tops_perm h hb) hk
  have hsame : ((placed entries').foldl (write keptUnder instant) l).Perm
    ((placed entries).foldl (write keptUnder instant) l) := by
    rw [perm_ext_iff_of_nodup (nodup_foldl_placed hl _) (nodup_foldl_placed hl _)]
    intro r
    rw [mem_foldl_placed hl hone', mem_foldl_placed hl hone]
    refine or_congr (and_congr_right fun _ => ?_) ⟨tops_perm h, tops_perm h.symm⟩
    exact ⟨fun hall q hq => hall q ((perm_placed h).mem_iff.mpr hq),
      fun hall q hq => hall q ((perm_placed h).mem_iff.mp hq)⟩
  rw [reactionFields, reactionFields, hany]
  split
  · rw [map_some, map_some, Multiset.coe_eq_coe.mpr hsame]
  · rfl

omit [DecidableEq P] in
theorem mem_placed (h : r ∈ placed entries) : ∃ e ∈ entries, placed [e] = [r] := by
  obtain ⟨f, hf, rfl⟩ := mem_map.mp h
  obtain ⟨hf, he⟩ := mem_filter.mp hf
  obtain ⟨e, hem, hef⟩ := mem_filterMap.mp hf
  refine ⟨e, hem, ?_⟩
  rw [placed, filterMap_cons_some hef, filterMap_nil, filter_singleton, he]
  rfl

omit [DecidableEq P] in
theorem placed_append (es es' : List (PendingMutation P)) : placed (es ++ es') = placed es ++ placed es' := by
  simp [placed]

theorem mem_reactionFields (hl : (l.map keptUnder).Nodup) (ht : Tops l entries r) :
    ∃ entries', entries'.Perm entries ∧ ∃ folded, reactionFields l entries' = some folded ∧ r ∈ folded := by
  obtain ⟨e, he, hplaced⟩ := mem_placed ht.mem
  have hperm := (perm_cons_erase he).symm
  have hfirst : placed (e :: entries.erase e) = r :: placed (entries.erase e) := by
    rw [← singleton_append, placed_append, hplaced, singleton_append]
  have hany : ((placed (e :: entries.erase e)).any fun r => News l r) = true := by
    rw [hfirst, any_cons, decide_eq_true ht.news, Bool.true_or]
  refine ⟨e :: entries.erase e, hperm, _, by rw [reactionFields, if_pos hany], ?_⟩
  rw [hfirst]
  have hwritten : r ∈ write keptUnder instant l r := by
    unfold write
    split
    · exact mem_append_right _ (mem_singleton_self r)
    · rename_i q hq
      have hqk : keptUnder q = keptUnder r := by simpa using find?_some hq
      have hqm := mem_of_find?_eq_some hq
      rw [if_neg (not_le.mpr (ht.news q hqm hqk))]
      exact mem_map.mpr ⟨q, hqm, if_pos hqk⟩
  refine mem_foldl_write_of_top hwritten (nodup_write hl r) fun q hq hk => ht.last q ?_ hk
  rw [← (perm_placed hperm).mem_iff, hfirst]
  exact mem_cons_of_mem r hq

theorem reactions_unique_iff (hl : (l.map keptUnder).Nodup) :
    (∀ entries', entries'.Perm entries →
      (reactionFields l entries').map Multiset.ofList = (reactionFields l entries).map Multiset.ofList) ↔
      OneReaction l entries := by
  refine ⟨fun h a b ha hb hk => ?_, fun hone entries' hperm => reactionFields_perm hl hone hperm⟩
  obtain ⟨esa, hpa, la, hla, hma⟩ := mem_reactionFields hl ha
  obtain ⟨esb, hpb, lb, hlb, hmb⟩ := mem_reactionFields hl hb
  have hsame : (la : Multiset (MessageReaction P)) = lb := by
    have hab := (h esa hpa).trans (h esb hpb).symm
    rw [hla, hlb] at hab
    exact some.inj hab
  have hmb' : b ∈ la := by
    have hmem : b ∈ (lb : Multiset (MessageReaction P)) := hmb
    rwa [← hsame] at hmem
  have hnodup : (la.map keptUnder).Nodup := by
    rw [reactionFields] at hla
    split at hla
    · cases hla
      exact (latest_placed hl esa).nodup
    · cases hla
  exact inj_on_of_nodup_map hnodup hma hmb' hk

end Reactions

/-! ## Settling twice -/

omit [DecidableEq P] in
theorem mergeStoredMessage_empty (row : StoredMessage P) :
    mergeStoredMessage row (settledStoredPatch .empty) = row := by
  obtain ⟨_, _, _, _, _, _, _, _, _, _, _, _, _, _, _, _, _, _⟩ := row
  simp [mergeStoredMessage, settledStoredPatch, SettledFields.empty]

theorem settleRow_eq (deletedText : JsString) {row : StoredMessage P} (hd : Distinct row)
    (entries : List (PendingMutation P)) :
    settleRow ν deletedText row entries =
      mergeStoredMessage row (settledStoredPatch (allFields ν deletedText (settleTarget row) entries)) := by
  have hl : (((settleTarget row).reactions.getD []).map keptUnder).Nodup := hd
  rw [settleRow, settle_fields deletedText hl]
  by_cases he : allFields ν deletedText (settleTarget row) entries = .empty
  · rw [if_pos he, he, mergeStoredMessage_empty]
  · rw [if_neg he]

def reactionsAfter (row : StoredMessage P) (entries : List (PendingMutation P)) : Option (List (MessageReaction P)) :=
  (reactionFields (row.reactions.getD []) entries).or row.reactions

omit [DecidableEq P] in
theorem distinct_reactionsAfter {row : StoredMessage P} (hd : Distinct row) (entries : List (PendingMutation P)) :
    (((reactionsAfter row entries).getD []).map keptUnder).Nodup := by
  rw [reactionsAfter, reactionFields]
  split
  · exact (latest_placed hd entries).nodup
  · exact hd

omit [DecidableEq P] in
theorem reactionFields_again {row : StoredMessage P} (hd : Distinct row) (entries : List (PendingMutation P)) :
    reactionFields ((reactionsAfter row entries).getD []) entries = none := by
  have hno : ∀ r ∈ placed entries, ¬ News ((reactionsAfter row entries).getD []) r := by
    intro r hr hn
    rw [reactionsAfter, reactionFields] at hn
    split at hn
    · obtain ⟨q, hq, hk, hle⟩ := (latest_placed hd entries).covers r (.inl hr)
      exact not_lt.mpr hle (hn q hq hk)
    · rename_i hany
      exact hany (List.any_eq_true.mpr ⟨r, hr, by simpa using hn⟩)
  rw [reactionFields, if_neg]
  intro hany
  obtain ⟨r, hr, hn⟩ := List.any_eq_true.mp hany
  exact hno r hr (of_decide_eq_true hn)

/-- A row of another body, with the same reactions and the same author, settled again. -/
theorem settleRow_settled (deletedText : JsString) {row row' : StoredMessage P} (hd : Distinct row)
    (entries : List (PendingMutation P))
    (hr : row'.reactions = reactionsAfter row entries) :
    settleRow ν deletedText row' entries =
      mergeStoredMessage row' (settledStoredPatch
        (bodyFields ν deletedText (settleTarget row') (sortEntries (settleTarget row') entries))) := by
  have hd' : Distinct row' := by
    rw [Distinct, hr]
    exact distinct_reactionsAfter hd entries
  have hnone : reactionFields ((settleTarget row').reactions.getD []) entries = none := by
    change reactionFields (row'.reactions.getD []) entries = none
    rw [hr]
    exact reactionFields_again hd entries
  have hbody := bodyFields_reactions (ν := ν) deletedText (settleTarget row') (sortEntries (settleTarget row') entries)
  rw [settleRow_eq deletedText hd', allFields, hnone, ← hbody]

theorem settleRow_reactions (deletedText : JsString) {row : StoredMessage P} (hd : Distinct row)
    (entries : List (PendingMutation P)) :
    (settleRow ν deletedText row entries).reactions = reactionsAfter row entries := by
  rw [settleRow_eq deletedText hd]
  rfl

/-- Nothing of the body is written again: nothing changes. -/
theorem settleRow_again (deletedText : JsString) {row : StoredMessage P} (hd : Distinct row)
    (entries : List (PendingMutation P))
    (hb : bodyFields ν deletedText (settleTarget (settleRow ν deletedText row entries))
      (sortEntries (settleTarget (settleRow ν deletedText row entries)) entries) = .empty) :
    settleRow ν deletedText (settleRow ν deletedText row entries) entries = settleRow ν deletedText row entries := by
  rw [settleRow_settled deletedText hd entries (settleRow_reactions deletedText hd entries), hb,
    mergeStoredMessage_empty]

omit [DecidableEq P] in
theorem bodyFields_of_deleted (deletedText : JsString) (h : truthy target.isDeleted = true)
    (entries : List (PendingMutation P)) : bodyFields ν deletedText target (sortEntries target entries) = .empty := by
  rw [bodyFields_eq, if_pos h]

/-- A row that is deleted, or that the author deletes, is settled for good. -/
theorem again_of_deletion (deletedText : JsString) {row : StoredMessage P} (hd : Distinct row)
    {entries : List (PendingMutation P)}
    (h : truthy row.isDeleted = true ∨ ∃ d ∈ entries, authorDeletes (settleTarget row) d = true) :
    settleRow ν deletedText (settleRow ν deletedText row entries) entries = settleRow ν deletedText row entries := by
  refine settleRow_again deletedText hd entries (bodyFields_of_deleted deletedText ?_ entries)
  rw [settleRow_eq deletedText hd]
  change truthy ((bodyFields ν deletedText (settleTarget row)
    (sortEntries (settleTarget row) entries)).isDeleted.or row.isDeleted) = true
  by_cases hdel : truthy row.isDeleted = true
  · rw [bodyFields_of_deleted deletedText hdel]
    exact hdel
  · obtain ⟨d, hdm, hda⟩ := h.resolve_left hdel
    obtain ⟨x, hx⟩ : ∃ x, entries.find? (authorDeletes (settleTarget row)) = some x :=
      isSome_iff_exists.mp (find?_isSome.mpr ⟨d, hdm, hda⟩)
    have hdel' : ¬ truthy (settleTarget row).isDeleted = true := hdel
    rw [bodyFields_eq, if_neg hdel', hx]
    rfl

/-- Without a deletion a settlement writes the edit that was taken. -/
theorem settleRow_of_edit (deletedText : JsString) {row : StoredMessage P} (hd : Distinct row)
    {entries : List (PendingMutation P)}
    (hdel : ¬ truthy (settleTarget row).isDeleted = true)
    (hnone : entries.find? (authorDeletes (settleTarget row)) = none) :
    settleRow ν deletedText row entries = mergeStoredMessage row (settledStoredPatch
      { editFields ν row.content (editTaken ν (settleTarget row) entries) with reactions := reactionFields (row.reactions.getD []) entries }) := by
  have hb : bodyFields ν deletedText (settleTarget row) (sortEntries (settleTarget row) entries) =
      editFields ν row.content (editTaken ν (settleTarget row) entries) := by
    rw [bodyFields_eq, if_neg hdel, hnone]
    rfl
  rw [settleRow_eq deletedText hd, allFields, hb]
  rfl

theorem challenger_again {s w : Offer P} {os : List (Offer P)} (hw : Prevails (offerBeats ν) s os w) (held : Offer P)
    (hheld : held.edit = w.edit) : challenger (offerBeats ν) held os = if offerBeats ν w w then some w else none := by
  have hsame : ∀ o, offerBeats ν o held = offerBeats ν o w := fun o => by rw [offerBeats, hheld, offerBeats]
  split
  · rename_i hself
    refine challenger_eq_some ⟨hw.mem, hw.stays, fun g hg => ?_⟩ fun o => Iff.rfl
    have hmet : g = held := by
      induction hg with
      | start => rfl
      | step _ hh hne hb ih =>
        rw [ih, hsame, hw.stays _ hh hne] at hb
        cases hb
    rw [hmet, hsame, hself]
  · rename_i hself
    refine challenger_eq_none fun o ho => ?_
    rw [hsame]
    by_cases how : o = w
    · rw [how]
      exact Bool.eq_false_iff.mpr hself
    · exact hw.stays o ho how

/-- Nothing was taken: nothing is the second time. -/
theorem again_of_none (deletedText : JsString) {row : StoredMessage P} (hd : Distinct row)
    {entries : List (PendingMutation P)}
    (hdel : ¬ truthy (settleTarget row).isDeleted = true)
    (hnone : entries.find? (authorDeletes (settleTarget row)) = none)
    (ht : editTaken ν (settleTarget row) entries = none) :
    settleRow ν deletedText (settleRow ν deletedText row entries) entries = settleRow ν deletedText row entries := by
  refine settleRow_again deletedText hd entries ?_
  rw [settleRow_of_edit deletedText hd hdel hnone, ht, bodyFields_eq]
  refine (if_neg hdel).trans ?_
  split
  · next h => cases hnone.symm.trans h
  · change editFields ν row.content (editTaken ν (settleTarget row) entries) = .empty
    rw [ht]
    rfl

/-- An edit was taken: the second time changes nothing exactly when the edit does not supersede itself
    or the body's numbers are finite. -/
theorem again_of_some (deletedText : JsString) {row : StoredMessage P} (hd : Distinct row)
    {entries : List (PendingMutation P)} {w : Offer P}
    (hdel : ¬ truthy (settleTarget row).isDeleted = true)
    (hnone : entries.find? (authorDeletes (settleTarget row)) = none)
    (hw : Prevails (offerBeats ν) (heldOffer ν (settleTarget row)) (offers (settleTarget row) entries) w) :
    settleRow ν deletedText (settleRow ν deletedText row entries) entries = settleRow ν deletedText row entries ↔
      offerBeats ν w w = false ∨ numbersFinite ν row.content = true := by
  have ht : editTaken ν (settleTarget row) entries = some w := challenger_eq_some hw fun o => Iff.rfl
  have hrow := settleRow_of_edit (ν := ν) deletedText hd hdel hnone
  rw [ht] at hrow
  have hcontent : (settleRow ν deletedText row entries).content = applyEditToBody ν row.content w.edit.content := by
    rw [hrow]
    rfl
  have htaken : editTaken ν (settleTarget (settleRow ν deletedText row entries)) entries = if offerBeats ν w w then
    some w else none := by
    rw [hrow]
    refine challenger_again hw _ ?_
    change (⟨w.edit.editedAt,
      envelopeBodyText ν (applyEditToBody ν row.content w.edit.content)⟩ : IncomingEdit) = w.edit
    rw [envelopeBodyText_applyEditToBody]
  have hbody : bodyFields ν deletedText (settleTarget (settleRow ν deletedText row entries))
      (sortEntries (settleTarget (settleRow ν deletedText row entries)) entries) =
      editFields ν (applyEditToBody ν row.content w.edit.content) (if offerBeats ν w w then some w else none) := by
    rw [bodyFields_eq, htaken, hrow]
    refine (if_neg hdel).trans ?_
    split
    · next h => cases hnone.symm.trans h
    · rfl
  rw [settleRow_settled deletedText hd entries (settleRow_reactions deletedText hd entries), hbody]
  cases hself : offerBeats ν w w with
  | false => simpa [editFields] using mergeStoredMessage_empty _
  | true =>
    rw [if_pos rfl, or_iff_right (by simp),
      ← applyEditToBody_applyEditToBody_iff ν row.content w.edit.content w.edit.content]
    constructor
    · intro h
      have hc := congrArg StoredMessage.content h
      rw [hcontent] at hc
      exact hc
    · intro h
      have hsame : editFields ν (applyEditToBody ν row.content w.edit.content) (some w) = editFields ν row.content
        (some w) := by
        rw [editFields, editFields, h]
      rw [hsame, hrow]
      rfl

/-! ## What a settlement promises -/

/-- The same fields, and the same entries refused, kept and done with. -/
structure Agrees (a b : Settlement P) : Prop where
  fields : a.fields.map view = b.fields.map view
  discarded : a.discarded.Perm b.discarded
  retained : a.retained.Perm b.retained
  consumed : a.consumed.Perm b.consumed

/-- No order of the entries matters, nobody else's deletion or edit does, each entry is done with or
    kept, and a second time changes nothing. -/
structure Settles (ν : Type) [JsNumber ν] (deletedText : JsString) (row : Row P)
    (entries : List (PendingMutation P)) : Prop where
  orders : ∀ entries', entries'.Perm entries →
    Agrees (settleAgainstPending ν deletedText (settleTarget row.message) entries')
    (settleAgainstPending ν deletedText (settleTarget row.message) entries)
  others : ∀ entries', entries'.filter (counts (settleTarget row.message)) = entries.filter
    (counts (settleTarget row.message)) →
    (settleAgainstPending ν deletedText (settleTarget row.message) entries').fields =
      (settleAgainstPending ν deletedText (settleTarget row.message) entries).fields
  disposed : ((settleAgainstPending ν deletedText (settleTarget row.message) entries).consumed ++
    (settleAgainstPending ν deletedText (settleTarget row.message) entries).retained).Perm entries
  apart : ∀ e ∈ (settleAgainstPending ν deletedText (settleTarget row.message) entries).consumed,
    e ∉ (settleAgainstPending ν deletedText (settleTarget row.message) entries).retained
  again : settleRow ν deletedText
    (settleRow ν deletedText row.message entries) entries = settleRow ν deletedText row.message entries

structure Unambiguous (ν : Type) [JsNumber ν] (row : StoredMessage P) (entries : List (PendingMutation P)) : Prop where
  deletion : truthy row.isDeleted = false → OneDeletion (settleTarget row) entries
  edit : truthy row.isDeleted = false → (∀ e ∈ entries, authorDeletes (settleTarget row) e = false) →
    (∀ o ∈ offers (settleTarget row) entries, offerBeats ν o (heldOffer ν (settleTarget row)) = false) ∨
      ∃ w, Prevails (offerBeats ν) (heldOffer ν (settleTarget row)) (offers (settleTarget row) entries) w ∧
        (offerBeats ν w w = false ∨ numbersFinite ν row.content = true)
  reactions : OneReaction (row.reactions.getD []) entries

/-- Two orders give the same fields when they give the same body and the same reactions. -/
theorem same_fields_iff (deletedText : JsString) (hl : ((target.reactions.getD []).map keptUnder).Nodup)
    (entries entries' : List (PendingMutation P)) :
    (settleAgainstPending ν deletedText target entries').fields.map view =
      (settleAgainstPending ν deletedText target entries).fields.map view ↔
      bodyFields ν deletedText target (sortEntries target entries') = bodyFields ν deletedText target
        (sortEntries target entries) ∧
      (reactionFields (target.reactions.getD []) entries').map Multiset.ofList =
        (reactionFields (target.reactions.getD []) entries).map Multiset.ofList := by
  rw [settle_fields deletedText hl, settle_fields deletedText hl]
  exact view_eq_iff (bodyFields_reactions _ _ _) (bodyFields_reactions _ _ _)

omit [DecidableEq P] in
theorem find?_authorDeletes_eq_none {entries : List (PendingMutation P)}
    (h : ∀ e ∈ entries, authorDeletes target e = false) : entries.find? (authorDeletes target) = none :=
  find?_eq_none.mpr fun e he => by simp [h e he]

/-- Without a deletion the body does not depend on the order exactly when the edit taken does not. -/
theorem edit_unique_iff (deletedText : JsString) {entries : List (PendingMutation P)}
    (hdel : truthy target.isDeleted = false)
    (hno : ∀ e ∈ entries, authorDeletes target e = false) :
    (∀ entries', entries'.Perm entries → bodyFields ν deletedText target (sortEntries target entries') =
        bodyFields ν deletedText target (sortEntries target entries)) ↔ OneEdit ν target entries := by
  have hbody : ∀ es : List (PendingMutation P), es.Perm entries →
      bodyFields ν deletedText target (sortEntries target es) = editFields ν target.content
        (editTaken ν target es) := by
    intro es hperm
    rw [bodyFields_eq, hdel, if_neg Bool.false_ne_true,
      find?_authorDeletes_eq_none fun e he => hno e (hperm.mem_iff.mp he)]
  rw [← editTaken_unique_iff]
  refine forall₂_congr fun entries' hperm => ?_
  rw [hbody entries' hperm, hbody entries (.refl _), editFields_inj]

section Main

variable {deletedText : JsString} {row : Row P} {entries entries' : List (PendingMutation P)}

omit [DecidableEq P] in
theorem nodup_settleTarget (row : Row P) :
    (((settleTarget row.message).reactions.getD []).map keptUnder).Nodup := row.distinct

theorem unambiguous_of_settles (h : Settles ν deletedText row entries) : Unambiguous ν row.message entries := by
  have hd : Distinct row.message := row.distinct
  have hsame := fun entries' hperm =>
    (same_fields_iff deletedText (nodup_settleTarget row) entries entries').mp (h.orders entries' hperm).fields
  have hbody := fun entries' hperm => (hsame entries' hperm).1
  refine ⟨fun hdel d hdm d' hdm' hda hda' => ?_, fun hdel hno => ?_,
    (reactions_unique_iff hd).mp fun entries' hperm => (hsame entries' hperm).2⟩
  · exact (deletion_unique_iff deletedText hdel ⟨d, hdm, hda⟩).mp hbody d hdm d' hdm' hda hda'
  · rcases (edit_unique_iff deletedText hdel hno).mp hbody with hnone | ⟨w, hw⟩
    · exact .inl hnone
    · have hdel' : ¬ truthy (settleTarget row.message).isDeleted = true := Bool.eq_false_iff.mp hdel
      exact .inr ⟨w, hw, (again_of_some deletedText hd hdel' (find?_authorDeletes_eq_none hno) hw).mp h.again⟩

omit [DecidableEq P] in
theorem no_deletion (h : ¬ ∃ d ∈ entries, authorDeletes target d = true) : ∀ e ∈ entries,
    authorDeletes target e = false :=
  fun e he => Bool.eq_false_iff.mpr fun ha => h ⟨e, he, ha⟩

theorem body_of_unambiguous (h : Unambiguous ν row.message entries) (hperm : entries'.Perm entries) :
    bodyFields ν deletedText (settleTarget row.message) (sortEntries (settleTarget row.message) entries') =
      bodyFields ν deletedText (settleTarget row.message) (sortEntries (settleTarget row.message) entries) := by
  by_cases hdel : truthy row.message.isDeleted = true
  · rw [bodyFields_of_deleted deletedText hdel, bodyFields_of_deleted deletedText hdel]
  · rw [Bool.not_eq_true] at hdel
    by_cases hex : ∃ d ∈ entries, authorDeletes (settleTarget row.message) d = true
    · exact (deletion_unique_iff deletedText hdel hex).mpr (h.deletion hdel) entries' hperm
    · refine (edit_unique_iff deletedText hdel (no_deletion hex)).mpr ?_ entries' hperm
      exact (h.edit hdel (no_deletion hex)).imp_right fun ⟨w, hw, _⟩ => ⟨w, hw⟩

theorem agrees_of_unambiguous (h : Unambiguous ν row.message entries) (hperm : entries'.Perm entries) :
    Agrees (settleAgainstPending ν deletedText (settleTarget row.message) entries')
      (settleAgainstPending ν deletedText (settleTarget row.message) entries) := by
  obtain ⟨hdiscarded, hretained, hconsumed⟩ := settle_lists (ν := ν) deletedText (settleTarget row.message) entries
  obtain ⟨hdiscarded', hretained', hconsumed'⟩ := settle_lists (ν := ν) deletedText (settleTarget row.message) entries'
  refine ⟨(same_fields_iff deletedText (nodup_settleTarget row) entries entries').mpr ⟨body_of_unambiguous h hperm,
    ?_⟩, ?_, ?_, ?_⟩
  · exact (reactions_unique_iff row.distinct).mpr h.reactions entries' hperm
  · rw [hdiscarded, hdiscarded']
    exact hperm.filter _
  · rw [hretained, hretained']
    exact hperm.filter _
  · rw [hconsumed, hconsumed']
    exact hperm.filter _

theorem again_of_unambiguous (h : Unambiguous ν row.message entries) :
    settleRow ν deletedText (settleRow ν deletedText row.message entries) entries =
      settleRow ν deletedText row.message entries := by
  have hd : Distinct row.message := row.distinct
  by_cases hex : truthy row.message.isDeleted = true ∨ ∃ d ∈ entries, authorDeletes (settleTarget row.message) d = true
  · exact again_of_deletion deletedText hd hex
  · rw [not_or, Bool.not_eq_true] at hex
    have hdel' : ¬ truthy (settleTarget row.message).isDeleted = true := Bool.eq_false_iff.mp hex.1
    have hfind := find?_authorDeletes_eq_none (no_deletion hex.2)
    rcases h.edit hex.1 (no_deletion hex.2) with hnone | ⟨w, hw, hself⟩
    · exact again_of_none deletedText hd hdel' hfind (challenger_eq_none hnone)
    · exact (again_of_some deletedText hd hdel' hfind hw).mpr hself

variable (ν) in
/-- The entries of a message settle whatever their order, and for good, exactly when they are not ambiguous. -/
theorem settles_iff_unambiguous (deletedText : JsString) (row : Row P) (entries : List (PendingMutation P)) :
    Settles ν deletedText row entries ↔ Unambiguous ν row.message entries := by
  refine ⟨unambiguous_of_settles, fun h => ?_⟩
  obtain ⟨hdisposed, hapart⟩ := disposed_of_settle (ν := ν) deletedText (settleTarget row.message) entries
  exact ⟨fun entries' hperm => agrees_of_unambiguous h hperm, fun entries' heq => fields_of_counts deletedText _ heq,
    hdisposed, hapart,
    again_of_unambiguous h⟩

end Main

def greeting : Row String where
  message :=
    { id := "m1", conversationId := "g1", senderId := "alice", content := text "hello", timestamp :=
      1, reactions := none
      serverTimestamp := none, isDeleted := none, isEdited := none, editedAt := none, isFcmPreview :=
        none, authorship := none
      editProof := none, deleteProof := none, restoredUnverified := none, unsentReason := none, mediaPurgedAt :=
        none, pageKey := none }
  minted := fun _ hr => absurd hr not_mem_nil
  onePerPair := List.Pairwise.nil

def waiting (sender : String) (change : Change) : PendingMutation String := ⟨"g1", "m1", sender, change, 2, none⟩

/-- Bob places a reaction and takes it back at one instant: whichever comes first stays. -/
theorem a_tied_reaction_does_not_settle : ¬ Settles Whole (text "deleted") greeting
    [waiting "bob" (.reaction "+1" 4 none), waiting "bob" (.reaction "+1" 4 (some true))] := by
  intro h
  have hfields := (h.orders _ (List.Perm.swap _ _ [])).fields
  exact absurd hfields (by decide)

def fourEntries : List (PendingMutation String) :=
  [waiting "Alice" (.edit (.finite 20) (some (text "b"))), waiting "alice" (.edit (.finite 20) (some (text "a"))),
    waiting "mallory" (.edit (.finite 30) (some (text "c"))), waiting "bob" (.reaction "+1" 4 none)]

theorem four_entries_settle : Settles Whole (text "deleted") greeting fourEntries := by
  have hoffers : offers (settleTarget greeting.message) fourEntries = [⟨⟨.finite 20, text "b"⟩, none⟩,
    ⟨⟨.finite 20, text "a"⟩, none⟩] := by
    decide
  have hplaced : placed fourEntries = [⟨"+1", "bob", some 4, some false, none⟩] := by decide
  refine (settles_iff_unambiguous Whole (text "deleted") greeting fourEntries).mpr ⟨fun _ => ?_,
    fun _ _ => .inr ⟨⟨⟨.finite 20, text "b"⟩, none⟩, ?_, ?_⟩, ?_⟩
  · unfold OneDeletion
    decide
  · refine ⟨mem_cons_self, by decide, fun g hg => ?_⟩
    cases hg with
    | start => decide
    | step _ hh hne _ =>
      rcases mem_cons.mp hh with rfl | hh
      · exact absurd rfl hne
      · obtain rfl := mem_singleton.mp hh
        decide
  · exact .inl (by decide)
  · intro a b ha hb _
    have ham := ha.mem
    have hbm := hb.mem
    rw [hplaced, mem_singleton] at ham hbm
    rw [ham, hbm]

end Canari.Chat.PendingMutations
