/-
  Canari.Forms.ConditionChains — which questions are visible, read off the chains of conditions.

  A question's answer condition names another question, whose own names a third. `visibleItemIds`
  holds a question exactly when this chain, each condition met and no question on it hidden by the
  profile, ends in a question that asks about no other, without coming back to one it left
  (`visible_iff_leads`). What the memo holds of a question met inside a cycle is "hidden", and a
  chain that comes back never ends: so the verdict depends neither on where the walk started nor on
  the order of the items.
-/

import Canari.Forms.Visibility

namespace Canari.Forms.Fill

open List

variable {items : List FormItem} {facts : PricingFacts} {id q : String} {item : FormItem}

def answerTest (item : FormItem) : Option AnswerTest := (normaliseCondition item).bind (·.answer)

/-- Question `id` is shown on an answer to `q`, and the answer given is one of those. -/
def AsksMet (items : List FormItem) (facts : PricingFacts) (id q : String) : Prop :=
  ∃ item ∈ items, item.id = id ∧ ∃ test, answerTest item = some test ∧ test.questionId = q ∧
    matchesAnswer q test.optionIds facts = true

/-- From `id` the conditions lead, each met and no question twice, to a question that asks about no
    other; none is hidden by the profile. -/
structure Leads (items : List FormItem) (facts : PricingFacts) (id : String) (path : List String) : Prop where
  starts : path.head? = some id
  once : path.Nodup
  met : path.IsChain (AsksMet items facts)
  shown : ∀ q ∈ path, q ∉ profileHiddenItemIds items facts
  ends : ∃ item ∈ items, path.getLast? = some item.id ∧ answerTest item = none

theorem leads_root (hunique : (items.map (·.id)).Nodup) (hitem : item ∈ items) (hok : profileOk item facts = true)
    (hroot : answerTest item = none) :
    Leads items facts item.id [item.id] := by
  refine ⟨rfl, nodup_cons.mpr ⟨not_mem_nil, nodup_nil⟩, isChain_singleton _, fun q hq => ?_, item, hitem, rfl, hroot⟩
  rw [mem_singleton.mp hq]
  exact (not_hidden_iff hunique hitem).mpr hok

variable {path : List String}

theorem Leads.cons (hunique : (items.map (·.id)).Nodup) (hitem : item ∈ items) (hok : profileOk item facts = true)
    (hmet : AsksMet items facts item.id q) (hnew : item.id ∉ path)
    (h : Leads items facts q path) : Leads items facts item.id (item.id :: path) := by
  refine ⟨rfl, nodup_cons.mpr ⟨hnew, h.once⟩, isChain_cons.mpr ⟨fun next hnext => ?_, h.met⟩, fun p hp => ?_, ?_⟩
  · rw [h.starts] at hnext
    cases hnext
    exact hmet
  · rcases mem_cons.mp hp with rfl | hp
    · exact (not_hidden_iff hunique hitem).mpr hok
    · exact h.shown p hp
  · obtain ⟨root, hmem, hlast, hroot⟩ := h.ends
    refine ⟨root, hmem, ?_, hroot⟩
    rw [getLast?_cons, hlast]
    rfl

theorem asks_of_test (hunique : (items.map (·.id)).Nodup) (hitem : item ∈ items) {test : AnswerTest}
    (htest : answerTest item = some test) :
    Asks items test.questionId item.id := by
  obtain ⟨c, hc, ha⟩ := Option.bind_eq_some_iff.mp htest
  exact ⟨item, c, test, byId_eq hunique hitem, hc, ha, rfl⟩

theorem leads_of_onScreen (hunique : (items.map (·.id)).Nodup) (h : OnScreen items facts id) :
    ∃ path, Leads items facts id path ∧ ∀ p ∈ path, Relation.ReflTransGen (Asks items) p id := by
  have hacc := h.acc
  induction hacc with
  | intro id _ ih =>
    obtain ⟨item, hitem, rfl⟩ := h.declared
    obtain ⟨hok, hanswer⟩ := (onScreen_iff hunique hitem).mp h
    cases htest : answerTest item with
    | none =>
      refine ⟨[item.id], leads_root hunique hitem hok htest, fun p hp => ?_⟩
      rw [mem_singleton.mp hp]
    | some test =>
      have hasks := asks_of_test hunique hitem htest
      obtain ⟨hmatch, hparent⟩ := hanswer test (by rw [pageCondition_eq]; exact htest)
      obtain ⟨path, hleads, hreach⟩ := ih test.questionId hasks hparent
      -- A chain that came back to this question would be a cycle.
      have hnew : item.id ∉ path := fun hmem => h.not_cyclic (Relation.TransGen.tail' (hreach item.id hmem) hasks)
      refine ⟨item.id :: path, hleads.cons hunique hitem hok ⟨item, hitem, rfl, test, htest, rfl, hmatch⟩ hnew,
        fun p hp => ?_⟩
      rcases mem_cons.mp hp with rfl | hp
      · exact .refl
      · exact (hreach p hp).tail hasks

theorem onScreen_of_chain (hunique : (items.map (·.id)).Nodup) (hmet : (id :: path).IsChain (AsksMet items facts))
    (hshown : ∀ p ∈ id :: path, p ∉ profileHiddenItemIds items facts)
      (hends : ∃ item ∈ items, (id :: path).getLast? = some item.id ∧ answerTest item = none) :
    OnScreen items facts id := by
  induction path generalizing id with
  | nil =>
    obtain ⟨item, hitem, hlast, hroot⟩ := hends
    obtain rfl : id = item.id := by simpa using hlast
    refine (onScreen_iff hunique hitem).mpr ⟨(not_hidden_iff hunique hitem).mp (hshown _ mem_cons_self),
      fun test htest => ?_⟩
    rw [pageCondition_eq] at htest
    exact absurd (hroot.symm.trans htest) (by simp)
  | cons q path ih =>
    obtain ⟨⟨item, hitem, rfl, test, htest, rfl, hmatch⟩, hrest⟩ := isChain_cons_cons.mp hmet
    refine (onScreen_iff hunique hitem).mpr ⟨(not_hidden_iff hunique hitem).mp (hshown _ mem_cons_self),
      fun other hother => ?_⟩
    rw [pageCondition_eq] at hother
    obtain rfl := Option.some.inj (htest.symm.trans hother)
    refine ⟨hmatch, ih hrest (fun p hp => hshown p (mem_cons_of_mem _ hp)) ?_⟩
    rwa [getLast?_cons_cons] at hends

theorem onScreen_iff_leads (hunique : (items.map (·.id)).Nodup) : OnScreen items facts id ↔
    ∃ path, Leads items facts id path := by
  constructor
  · intro h
    obtain ⟨path, hleads, -⟩ := leads_of_onScreen hunique h
    exact ⟨path, hleads⟩
  · rintro ⟨path, hleads⟩
    cases path with
    | nil => cases hleads.starts
    | cons p path =>
      obtain rfl : p = id := by simpa using hleads.starts
      exact onScreen_of_chain hunique hleads.met hleads.shown hleads.ends

theorem Leads.perm {items' : List FormItem} (hperm : items.Perm items') (h : Leads items facts id path) :
    Leads items' facts id path := by
  refine ⟨h.starts, h.once, h.met.imp ?_, fun p hp hhidden => h.shown p hp ?_, ?_⟩
  · rintro a b ⟨item, hitem, hasks⟩
    exact ⟨item, hperm.mem_iff.mp hitem, hasks⟩
  · obtain ⟨item, hitem, hid, hbad⟩ := mem_profileHidden.mp hhidden
    exact mem_profileHidden.mpr ⟨item, hperm.mem_iff.mpr hitem, hid, hbad⟩
  · obtain ⟨item, hitem, hend⟩ := h.ends
    exact ⟨item, hperm.mem_iff.mp hitem, hend⟩

/-- The visible questions are those whose conditions lead, met and unhidden, to a question that asks
    about no other; the order of the items does not matter. -/
theorem visible_iff_leads (items : List FormItem) (hunique : (items.map (·.id)).Nodup) (facts : PricingFacts) :
    (∀ id, id ∈ visibleItemIds items facts ↔ ∃ path, Leads items facts id path) ∧
      ∀ items' : List FormItem, items'.Perm items → ∀ id, id ∈ visibleItemIds items' facts ↔
        id ∈ visibleItemIds items facts := by
  have hleads : ∀ list : List FormItem, (list.map (·.id)).Nodup → ∀ id, id ∈ visibleItemIds list facts ↔
    ∃ path, Leads list facts id path := by
    intro list hlist id
    rw [visibleItemIds_iff, onScreen_iff_leads hlist]
  refine ⟨hleads items hunique, fun items' hperm id => ?_⟩
  rw [hleads items hunique, hleads items' ((hperm.map _).nodup_iff.mpr hunique)]
  constructor
  · rintro ⟨path, h⟩
    exact ⟨path, h.perm hperm⟩
  · rintro ⟨path, h⟩
    exact ⟨path, h.perm hperm.symm⟩

/-- A menu, a dessert for those who take menu B, and two questions that ask about each other. -/
def menu : List FormItem :=
  [{ id := "dessert", type := .shortText, dependsOn := some "menu", dependsValue := some "b" },
    { id := "x", type := .shortText, dependsOn := some "y" },
    { id := "menu", type := .singleChoice }, { id := "y", type := .shortText, dependsOn := some "x" }]

/-- The dessert is led to the menu; the two others to one another. -/
theorem dessert_leads_to_the_menu :
    "dessert" ∈ visibleItemIds menu ⟨⟨none, none, []⟩, fun q => if q = "menu" then some ["b"] else none⟩ :=
  ((visible_iff_leads menu (by decide) _).1 _).mpr
    ⟨["dessert", "menu"], rfl, by
      decide, isChain_cons_cons.mpr ⟨⟨_, mem_cons_self, rfl, ⟨"menu", ["b"]⟩, by decide, rfl, by decide⟩,
      isChain_singleton _⟩, by decide, { id := "menu", type := .singleChoice }, by simp [menu], rfl, rfl⟩

end Canari.Forms.Fill
