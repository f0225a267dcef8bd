/-
  Canari.Forms.Visibility — which questions are shown, on the server (social-service
  forms/visibility.ts) and on the page (frontend lib/forms/fillAnswers.ts).

  The server follows the whole chain of answer conditions, memoised, and reads a cycle as
  hidden: `visibleItemIds` is the least reading (`visibleItemIds_iff`). The page looks one
  question up: it asks whether the selection meets the condition, not whether the question
  that was asked is itself on screen. The two agree exactly when no condition is met by a
  selection left in a question that is not on screen (`shown_iff_noStale`).
-/

import Canari.Lib.Table
import Canari.Forms.ProductGrid
import Mathlib.Logic.Relation

namespace Canari.Forms.Fill

open List Option

/-! ## Items -/

structure FormOption where
  id : String
  /-- Cents; the DTO takes no negative one. -/
  priceModifier : Int
  nonneg : 0 ≤ priceModifier

/-- `single` is read but never written; a saved grid question has its grid. -/
inductive QuestionType where
  | shortText | longText | singleChoice | multipleChoice | dropdown | linearScale
  | matrixSingle | matrixMultiple | file | single
  | productGrid (grid : ProductGrid)

structure FormItem where
  id : String
  type : QuestionType
  label : String := ""
  required : Bool := false
  options : List FormOption := []
  rows : List String := []
  requireEveryRow : Bool := false
  showIf : Option AudienceCondition := none
  /-- The legacy pair. -/
  dependsOn : Option String := none
  dependsValue : Option String := none

def isProductGrid (item : FormItem) : Bool :=
  match item.type with
  | .productGrid _ => true
  | _ => false

def isMatrix (item : FormItem) : Bool :=
  match item.type with
  | .matrixSingle | .matrixMultiple => true
  | _ => false

/-- What the legacy pair states: option `dependsValue` of question `dependsOn`. -/
def FormItem.legacyTest (item : FormItem) : Option AnswerTest :=
  match item.dependsOn with
  | some questionId => if questionId = "" then none else some ⟨questionId, [item.dependsValue.getD ""]⟩
  | none => none

/-! ## The server -/

/-- The two condition shapes as one; `showIf.answer` wins over the legacy pair. -/
def normaliseCondition (item : FormItem) : Option AudienceCondition :=
  let merged := { item.showIf.getD {} with answer := (item.showIf.bind (·.answer)).or item.legacyTest }
  if merged = {} then none else some merged

/-- `new Map(items.map(..)).get(id)`: the last item of that id. -/
def byId (items : List FormItem) (id : String) : Option FormItem := (items.filter (·.id == id)).getLast?

structure Memo where
  resolved : List (String × Bool)
  inProgress : List String

/-- `isVisible`, with the memo it writes. `fuel` bounds the chain of conditions. -/
def isVisible (items : List FormItem) (facts : PricingFacts) : Nat → String → Memo → Bool × Memo
  | 0, _, m => (false, m)
  | fuel + 1, id, m =>
    match m.resolved.lookup id with
    | some cached => (cached, m)
    | none =>
      if m.inProgress.contains id then (false, m)
      else
        match byId items id with
        | none => (false, m)
        | some item =>
          match normaliseCondition item with
          | none => (true, { m with resolved := (id, true) :: m.resolved })
          | some condition =>
            let parent :=
              match condition.answer with
              | none => (true, { m with inProgress := id :: m.inProgress })
              | some a => isVisible items facts fuel a.questionId { m with inProgress := id :: m.inProgress }
            let visible := parent.1 && matchesCondition condition facts
            (visible, ⟨(id, visible) :: parent.2.resolved, parent.2.inProgress.erase id⟩)

/-- `items.filter((i) => isVisible(i.id))`, one memo for the list. -/
def visibleFrom (items : List FormItem) (facts : PricingFacts) : List FormItem → Memo → List String
  | [], _ => []
  | item :: rest, m =>
    let out := isVisible items facts (items.length + 1) item.id m
    if out.1 then item.id :: visibleFrom items facts rest out.2 else visibleFrom items facts rest out.2

def visibleItemIds (items : List FormItem)
    (facts : PricingFacts) : List String := visibleFrom items facts items ⟨[], []⟩

def Value.ids : Value → List String
  | .list ids => ids
  | v => [v.string]

abbrev Answers := List (String × Value)

def answerSelections (items : List FormItem) (answers : Answers) : String → Option (List String) :=
  fun id => if items.any (·.id == id) then (answers.lookup id).map Value.ids else none

def profileHiddenItemIds (items : List FormItem) (facts : PricingFacts) : List String :=
  (items.filter fun item =>
    match normaliseCondition item with
    | none => false
    | some condition => condition.profileOnly != {} && !matchesCondition condition.profileOnly facts).map (·.id)

/-! ## The page -/

abbrev Selections := String → Option Value

def pageCondition (item : FormItem) : Option AnswerTest :=
  match item.showIf.bind (·.answer) with
  | some a => some a
  | none => item.legacyTest

def AnswerTest.met (test : AnswerTest) (selections : Selections) : Bool :=
  match selections test.questionId with
  | none => false
  | some (.text s) => s != "" && test.optionIds.contains s
  | some (.list ids) => ids.any test.optionIds.contains
  | some v => test.optionIds.contains v.string

def pageShows (hiddenIds : List String) (selections : Selections) (item : FormItem) : Bool :=
  if hiddenIds.contains item.id then false
  else
    match pageCondition item with
    | none => true
    | some test => if hiddenIds.contains test.questionId then false else test.met selections

def visibleItems (items : List FormItem) (selections : Selections) (hiddenIds : List String) : List FormItem :=
  items.filter (pageShows hiddenIds selections)

/-- What one visible question sends: nothing unanswered, a grid its answered rows only. -/
def sentValue (item : FormItem) (value : Option Value) : Option Value :=
  if isProductGrid item then sentOrder value
  else if isMatrix item then
    match value.bind Value.entries with
    | none => none
    | some entries =>
      let rows := entries.filter fun (_, cell) => cell.hasValue
      if rows.isEmpty then none else some (.object rows)
  else if hasValue value then value
  else none

def visibleAnswers (visible : List FormItem) (selections : Selections) : Answers :=
  visible.filterMap fun item => (sentValue item (selections item.id)).map fun value => (item.id, value)

/-! ## What the server's recursion computes -/

section Server

variable {items : List FormItem} {facts : PricingFacts} {id : String}

/-- The question is declared, its condition holds, and so for the question it asks about, to the end of the chain. -/
inductive OnScreen (items : List FormItem) (facts : PricingFacts) : String → Prop
  | intro {id : String} {item : FormItem} (hid : byId items id = some item)
      (hcondition : ∀ c, normaliseCondition item = some c → matchesCondition c facts = true)
      (hparent : ∀ c a, normaliseCondition item = some c → c.answer = some a → OnScreen items facts a.questionId) :
      OnScreen items facts id

/-- `q` is the question `id`'s condition asks about. -/
def Asks (items : List FormItem) (q id : String) : Prop :=
  ∃ item c a, byId items id = some item ∧ normaliseCondition item = some c ∧ c.answer = some a ∧ a.questionId = q

theorem OnScreen.declared (h : OnScreen items facts id) : ∃ item ∈ items, item.id = id := by
  obtain ⟨hid, _, _⟩ := h
  obtain ⟨hitem, hitemId⟩ := mem_filter.mp (mem_of_getLast? hid)
  exact ⟨_, hitem, beq_iff_eq.mp hitemId⟩

theorem OnScreen.acc (h : OnScreen items facts id) : Acc (Asks items) id := by
  induction h with
  | @intro id item hid _ _ ih =>
    refine Acc.intro _ fun q ⟨item', c, a, hid', hc, ha, hq⟩ => ?_
    obtain rfl : item = item' := some.inj (hid.symm.trans hid')
    exact hq ▸ ih c a hc ha

theorem not_rel_self_of_acc {α : Type} {r : α → α → Prop} {a : α} (h : Acc r a) : ¬ r a a := by
  induction h with
  | intro x _ ih => exact fun hx => ih x hx hx

theorem OnScreen.not_cyclic (h : OnScreen items facts id) : ¬ Relation.TransGen (Asks items) id id :=
  not_rel_self_of_acc h.acc.transGen

structure MemoOk (items : List FormItem) (facts : PricingFacts) (m : Memo) : Prop where
  resolved : ∀ id v, m.resolved.lookup id = some v → (v = true ↔ OnScreen items facts id)

theorem MemoOk.cons {m : Memo} (h : MemoOk items facts m) {v : Bool} (hv : v = true ↔ OnScreen items facts id)
    (inProgress : List String) :
    MemoOk items facts ⟨(id, v) :: m.resolved, inProgress⟩ := by
  refine ⟨fun x w hx => ?_⟩
  rw [lookup_cons] at hx
  by_cases e : x = id
  · subst e
    rw [beq_self_eq_true] at hx
    cases hx
    exact hv
  · rw [beq_false_of_ne e] at hx
    exact h.resolved x w hx

def unseen (m : Memo) (item : FormItem) : Bool := !m.inProgress.contains item.id

theorem unseen_lt {m : Memo} {item : FormItem} (hid : byId items id = some item) (hnew : id ∉ m.inProgress) :
    items.countP (unseen { m with inProgress := id :: m.inProgress }) < items.countP (unseen m) := by
  have hmem : item ∈ items.filter (·.id == id) := mem_of_getLast? hid
  obtain ⟨hitem, hitemId⟩ := mem_filter.mp hmem
  refine Lib.Table.countP_lt ?_ hitem ?_ ?_
  · intro x _ hx
    simp only [unseen, contains_cons, Bool.not_or, Bool.and_eq_true] at hx ⊢
    exact hx.2
  · simpa [unseen, beq_iff_eq.mp hitemId] using hnew
  · simp [unseen, beq_iff_eq.mp hitemId]

/-- The verdict is the chain's, the memo stays right and the questions in progress are as before. -/
theorem isVisible_spec (id : String) {fuel : Nat} {m : Memo} (hfuel : items.countP (unseen m) < fuel)
    (hm : MemoOk items facts m)
    (hchain : ∀ p ∈ m.inProgress, Relation.TransGen (Asks items) id p) :
    ((isVisible items facts fuel id m).1 = true ↔ OnScreen items facts id) ∧
      MemoOk items facts (isVisible items facts fuel id m).2 ∧
        (isVisible items facts fuel id m).2.inProgress = m.inProgress := by
  induction fuel generalizing id m with
  | zero => exact absurd hfuel (Nat.not_lt_zero _)
  | succ fuel ih =>
    unfold isVisible
    cases hcached : m.resolved.lookup id with
    | some v => exact ⟨hm.resolved id v hcached, hm, rfl⟩
    | none =>
      by_cases hprogress : id ∈ m.inProgress
      · rw [if_pos (contains_iff_mem.mpr hprogress)]
        exact ⟨⟨fun e => (nomatch e), fun h => absurd (hchain id hprogress) h.not_cyclic⟩, hm, rfl⟩
      rw [if_neg (fun e => hprogress (contains_iff_mem.mp e))]
      cases hid : byId items id with
      | none =>
        refine ⟨⟨fun e => (nomatch e), fun h => ?_⟩, hm, rfl⟩
        obtain ⟨hid', _, _⟩ := h
        rw [hid] at hid'
        cases hid'
      | some item =>
        dsimp only
        cases hc : normaliseCondition item with
        | none =>
          have hon : OnScreen items facts id := by
            refine .intro hid (fun c hc' => ?_) (fun c a hc' => ?_)
            · rw [hc] at hc'; cases hc'
            · rw [hc] at hc'; cases hc'
          exact ⟨⟨fun _ => hon, fun _ => rfl⟩, hm.cons ⟨fun _ => hon, fun _ => rfl⟩ _, rfl⟩
        | some c =>
          dsimp only
          have hon : OnScreen items facts id ↔
              (∀ a, c.answer = some a → OnScreen items facts a.questionId) ∧ matchesCondition c facts = true := by
            constructor
            · rintro ⟨hid', hcond, hparent⟩
              obtain rfl := some.inj (hid.symm.trans hid')
              exact ⟨fun a ha => hparent c a hc ha, hcond c hc⟩
            · rintro ⟨hparent, hcond⟩
              refine .intro hid (fun c' hc' => ?_) (fun c' a hc' ha => ?_)
              · obtain rfl := some.inj (hc.symm.trans hc'); exact hcond
              · obtain rfl := some.inj (hc.symm.trans hc'); exact hparent a ha
          cases ha : c.answer with
          | none =>
            have hv : (true && matchesCondition c facts) = true ↔ OnScreen items facts id := by
              rw [hon]
              exact ⟨fun h => ⟨fun a ha' => absurd (ha.symm.trans ha') (fun e => nomatch e), h⟩, fun h => h.2⟩
            exact ⟨hv, hm.cons hv _, erase_cons_head ..⟩
          | some a =>
            have hlt := unseen_lt (m := m) hid hprogress
            have hasks : Asks items a.questionId id := ⟨item, c, a, hid, hc, ha, rfl⟩
            obtain ⟨hparent, hm', hprog'⟩ := ih a.questionId (m := { m with inProgress := id :: m.inProgress })
              (by omega) ⟨hm.resolved⟩ (by
                intro p hp
                rcases mem_cons.mp hp with rfl | hp
                · exact .single hasks
                · exact .head hasks (hchain p hp))
            have hv : ((isVisible items facts fuel a.questionId { m with inProgress := id :: m.inProgress }).1 &&
                matchesCondition c facts) = true ↔ OnScreen items facts id := by
              rw [hon, Bool.and_eq_true, hparent]
              refine and_congr_left fun _ => ⟨fun h a' ha' => ?_, fun h => h a ha⟩
              obtain rfl := some.inj (ha.symm.trans ha')
              exact h
            exact ⟨hv, hm'.cons hv _, by rw [hprog']; exact erase_cons_head ..⟩

theorem mem_visibleFrom {rest : List FormItem} {m : Memo} (hm : MemoOk items facts m) (hp : m.inProgress = []) :
    id ∈ visibleFrom items facts rest m ↔ (∃ item ∈ rest, item.id = id) ∧ OnScreen items facts id := by
  induction rest generalizing m with
  | nil => simp [visibleFrom]
  | cons item rest ih =>
    have hfuel : items.countP (unseen m) < items.length + 1 := Nat.lt_succ_of_le countP_le_length
    obtain ⟨hv, hm', hp'⟩ := isVisible_spec item.id hfuel hm (by rw [hp]; intro p h; cases h)
    have hrest := ih hm' (hp'.trans hp)
    unfold visibleFrom
    by_cases h : (isVisible items facts (items.length + 1) item.id m).1 = true
    · rw [if_pos h, mem_cons, hrest]
      have hon := hv.mp h
      constructor
      · rintro (rfl | ⟨⟨x, hx, rfl⟩, ho⟩)
        · exact ⟨⟨item, mem_cons_self, rfl⟩, hon⟩
        · exact ⟨⟨x, mem_cons_of_mem _ hx, rfl⟩, ho⟩
      · rintro ⟨⟨x, hx, rfl⟩, ho⟩
        rcases mem_cons.mp hx with rfl | hx
        · exact .inl rfl
        · exact .inr ⟨⟨x, hx, rfl⟩, ho⟩
    · rw [if_neg h, hrest]
      constructor
      · rintro ⟨⟨x, hx, rfl⟩, ho⟩
        exact ⟨⟨x, mem_cons_of_mem _ hx, rfl⟩, ho⟩
      · rintro ⟨⟨x, hx, rfl⟩, ho⟩
        rcases mem_cons.mp hx with rfl | hx
        · exact absurd (hv.mpr ho) h
        · exact ⟨⟨x, hx, rfl⟩, ho⟩

theorem visibleItemIds_iff : id ∈ visibleItemIds items facts ↔ OnScreen items facts id := by
  unfold visibleItemIds
  rw [mem_visibleFrom ⟨fun x v hx => by cases hx⟩ rfl]
  exact ⟨fun h => h.2, fun h => ⟨h.declared, h⟩⟩

end Server

/-! ## The page against the server -/

def allAnswers (items : List FormItem) (selections : Selections) : String → Option (List String) :=
  answerSelections items (visibleAnswers items selections)

def hiddenFor (items : List FormItem)
    (profile : Profile) : List String := profileHiddenItemIds items ⟨profile, fun _ => none⟩

/-- The facts `submit` reads of the page's answers. -/
def sentFacts (items : List FormItem) (profile : Profile) (selections : Selections) : PricingFacts :=
  ⟨profile, answerSelections items
    (visibleAnswers (visibleItems items selections (hiddenFor items profile)) selections)⟩

/-- No condition is met by a selection left in a question that is not on screen, or that is not sent. -/
def NoStale (items : List FormItem) (profile : Profile) (selections : Selections) : Prop :=
  let facts : PricingFacts := ⟨profile, allAnswers items selections⟩
  ∀ item ∈ items, item.id ∉ hiddenFor items profile → ∀ test, pageCondition item = some test →
    test.questionId ∉ hiddenFor items profile → test.met selections = true →
      OnScreen items facts test.questionId ∧ matchesAnswer test.questionId test.optionIds facts = true

/-- A survey grid's selection is never a list: what is read back is merged into the row map. -/
def PageHolds (items : List FormItem) (selections : Selections) : Prop :=
  ∀ item ∈ items, isMatrix item = true → ∀ ids, selections item.id ≠ some (.list ids)

section Page

variable {items : List FormItem} {profile : Profile} {selections : Selections} {item : FormItem}

theorem byId_eq (hunique : (items.map (·.id)).Nodup) (hitem : item ∈ items) : byId items item.id = some item := by
  have hone : items.filter (·.id == item.id) = [item] := by
    induction items with
    | nil => cases hitem
    | cons x rest ih =>
      obtain ⟨hx, hrest⟩ := nodup_cons.mp (map_cons ▸ hunique)
      rcases mem_cons.mp hitem with rfl | hmem
      · have hnone : rest.filter (·.id == item.id) = [] := by
          rw [filter_eq_nil_iff]
          intro y hy e
          exact hx (beq_iff_eq.mp e ▸ List.mem_map_of_mem hy)
        rw [filter_cons_of_pos (by simp), hnone]
      · have hne : x.id ≠ item.id := fun e => hx (e ▸ List.mem_map_of_mem hmem)
        rw [filter_cons_of_neg (by simpa using hne), ih hrest hmem]
  unfold byId
  rw [hone]
  rfl

theorem pageCondition_eq (item : FormItem) : pageCondition item = (normaliseCondition item).bind (·.answer) := by
  have hanswer : pageCondition item = (item.showIf.bind (·.answer)).or item.legacyTest := by
    unfold pageCondition
    cases item.showIf.bind (·.answer) <;> rfl
  unfold normaliseCondition
  dsimp only
  split_ifs with h
  · rw [hanswer]
    exact congrArg AudienceCondition.answer h
  · exact hanswer

def profileOk (item : FormItem) (facts : PricingFacts) : Bool :=
  (normaliseCondition item).all fun c => matchesCondition c.profileOnly facts

theorem matchesCondition_empty (facts : PricingFacts) : matchesCondition {} facts = true := rfl

theorem mem_profileHidden {facts : PricingFacts} {id : String} :
    id ∈ profileHiddenItemIds items facts ↔ ∃ item ∈ items, item.id = id ∧ profileOk item facts = false := by
  have hfilter : ∀ item : FormItem,
      (match normaliseCondition item with
        | none => false
        | some c => c.profileOnly != {} && !matchesCondition c.profileOnly facts) = !profileOk item facts := by
    intro item
    unfold profileOk
    cases normaliseCondition item with
    | none => rfl
    | some c =>
      by_cases he : c.profileOnly = {}
      · simp [he, matchesCondition_empty]
      · simp [he]
  unfold profileHiddenItemIds
  simp only [hfilter, List.mem_map, mem_filter, Bool.not_eq_true']
  constructor
  · rintro ⟨item, ⟨hmem, hok⟩, hid⟩; exact ⟨item, hmem, hid, hok⟩
  · rintro ⟨item, hmem, hid, hok⟩; exact ⟨item, ⟨hmem, hok⟩, hid⟩

theorem not_hidden_iff (hunique : (items.map (·.id)).Nodup) {facts : PricingFacts} (hitem : item ∈ items) :
    item.id ∉ profileHiddenItemIds items facts ↔ profileOk item facts = true := by
  rw [mem_profileHidden]
  constructor
  · intro h
    by_contra hok
    exact h ⟨item, hitem, rfl, Bool.eq_false_iff.mpr hok⟩
  · rintro hok ⟨other, hother, hid, hbad⟩
    have : other = item := by
      have h1 := byId_eq hunique hother
      rw [hid, byId_eq hunique hitem] at h1
      exact (some.inj h1).symm
    subst this
    rw [hok] at hbad
    cases hbad

/-- On screen, item by item: the profile half, the condition's answer, the question it asks. -/
theorem onScreen_iff (hunique : (items.map (·.id)).Nodup) {facts : PricingFacts} (hitem : item ∈ items) :
    OnScreen items facts item.id ↔ profileOk item facts = true ∧ ∀ test, pageCondition item = some test →
      matchesAnswer test.questionId test.optionIds facts = true ∧ OnScreen items facts test.questionId := by
  have hbyId := byId_eq hunique hitem
  constructor
  · rintro ⟨hid, hcond, hparent⟩
    obtain rfl := some.inj (hbyId.symm.trans hid)
    constructor
    · unfold profileOk
      cases hc : normaliseCondition item with
      | none => rfl
      | some c =>
        have hmatch := hcond c hc
        rw [matchesCondition_split, Bool.and_eq_true] at hmatch
        exact hmatch.1
    · intro test htest
      rw [pageCondition_eq] at htest
      obtain ⟨c, hc, ha⟩ := bind_eq_some_iff.mp htest
      have hmatch := hcond c hc
      rw [matchesCondition_split, Bool.and_eq_true, ha] at hmatch
      exact ⟨hmatch.2, hparent c test hc ha⟩
  · rintro ⟨hok, hanswer⟩
    refine .intro hbyId (fun c hc => ?_) (fun c a hc ha => ?_)
    · unfold profileOk at hok
      rw [hc] at hok
      rw [matchesCondition_split, Bool.and_eq_true]
      refine ⟨hok, ?_⟩
      cases ha : c.answer with
      | none => rfl
      | some a => exact (hanswer a (by rw [pageCondition_eq, hc]; exact ha)).1
    · exact (hanswer a (by rw [pageCondition_eq, hc]; exact ha)).2

theorem lookup_visibleAnswers {visible : List FormItem} (hunique : (visible.map (·.id)).Nodup)
    (hitem : item ∈ visible) :
    (visibleAnswers visible selections).lookup item.id = sentValue item (selections item.id) := by
  induction visible with
  | nil => cases hitem
  | cons x rest ih =>
    obtain ⟨hx, hrest⟩ := nodup_cons.mp (map_cons ▸ hunique)
    unfold visibleAnswers at ih ⊢
    rcases mem_cons.mp hitem with rfl | hmem
    · have hnone : (rest.filterMap fun i => (sentValue i (selections i.id)).map
        fun value => (i.id, value)).lookup item.id = none := by
        rw [lookup_eq_none_iff]
        intro p hp
        obtain ⟨y, hy, hyp⟩ := mem_filterMap.mp hp
        obtain ⟨v, _, rfl⟩ := map_eq_some_iff.mp hyp
        have hne : item.id ≠ y.id := fun e => hx (e ▸ List.mem_map_of_mem hy)
        simpa using hne
      cases hs : sentValue item (selections item.id) with
      | none => simpa only [filterMap_cons, hs, map_none] using hnone
      | some v => simp [hs]
    · have hne : item.id ≠ x.id := fun e => hx (e ▸ List.mem_map_of_mem hmem)
      cases hs : sentValue x (selections x.id) with
      | none => simpa only [filterMap_cons, hs, map_none] using ih hrest hmem
      | some v =>
        simp only [filterMap_cons, hs, map_some, lookup_cons, beq_false_of_ne hne]
        exact ih hrest hmem

theorem lookup_visibleAnswers_none {visible : List FormItem} {id : String} (h : ∀ item ∈ visible, item.id ≠ id) :
    (visibleAnswers visible selections).lookup id = none := by
  rw [lookup_eq_none_iff]
  intro p hp
  obtain ⟨y, hy, hyp⟩ := mem_filterMap.mp hp
  obtain ⟨v, _, rfl⟩ := map_eq_some_iff.mp hyp
  simpa using fun e => h y hy e.symm

theorem answerSelections_visible (selections : Selections) (hunique : (items.map (·.id)).Nodup)
    (shows : FormItem → Bool) (hitem : item ∈ items) :
    answerSelections items (visibleAnswers (items.filter shows) selections) item.id =
      if shows item then (sentValue item (selections item.id)).map Value.ids else none := by
  have hdeclared : items.any (·.id == item.id) = true := List.any_eq_true.mpr ⟨item, hitem, by simp⟩
  have hfiltered : ((items.filter shows).map (·.id)).Nodup := hunique.sublist (filter_sublist.map _)
  unfold answerSelections
  rw [if_pos hdeclared]
  by_cases hs : shows item = true
  · rw [if_pos hs, lookup_visibleAnswers hfiltered (mem_filter.mpr ⟨hitem, hs⟩)]
  · rw [if_neg hs, lookup_visibleAnswers_none, map_none]
    intro other hother e
    obtain ⟨hmem, hshows⟩ := mem_filter.mp hother
    have h1 := byId_eq hunique hmem
    rw [e, byId_eq hunique hitem] at h1
    exact hs (some.inj h1 ▸ hshows)

theorem answerSelections_undeclared {answers : Answers} {id : String} (h : ∀ item ∈ items, item.id ≠ id) :
    answerSelections items answers id = none := by
  have hno : items.any (·.id == id) = false := by
    rw [List.any_eq_false]
    intro item hitem
    simpa using h item hitem
  unfold answerSelections
  rw [hno]
  rfl

theorem allAnswers_eq (hunique : (items.map (·.id)).Nodup) (hitem : item ∈ items) :
    allAnswers items selections item.id = (sentValue item (selections item.id)).map Value.ids := by
  have h := answerSelections_visible selections hunique (fun _ => true) hitem
  rw [filter_eq_self.mpr fun _ _ => rfl] at h
  exact h

/-- Fewer questions sent, fewer conditions met. -/
theorem matchesAnswer_all (hunique : (items.map (·.id)).Nodup) (shows : FormItem → Bool) {q : String}
    {optionIds : List String}
    (h : matchesAnswer q optionIds
    ⟨profile, answerSelections items (visibleAnswers (items.filter shows) selections)⟩ = true) :
    matchesAnswer q optionIds ⟨profile, allAnswers items selections⟩ = true := by
  unfold matchesAnswer at h ⊢
  dsimp only at h ⊢
  by_cases hq : ∃ item ∈ items, item.id = q
  · obtain ⟨item, hitem, rfl⟩ := hq
    rw [answerSelections_visible selections hunique shows hitem] at h
    rw [allAnswers_eq hunique hitem]
    by_cases hs : shows item = true
    · rwa [if_pos hs] at h
    · rw [if_neg hs] at h; cases h
  · rw [answerSelections_undeclared fun item hitem e => hq ⟨item, hitem, e⟩] at h
    cases h

theorem sentValue_spec {value : Option Value} {v : Value} (h : sentValue item value = some v) :
    value = some v ∧ hasValue value = true ∨
      isMatrix item = true ∧ (∃ rows, v = .object rows) ∧ ∃ held, value = some held ∧ held.entries.isSome = true := by
  unfold sentValue at h
  by_cases hgrid : isProductGrid item = true
  · unfold sentOrder at h
    split_ifs at h with hordered
    subst h
    refine .inl ⟨rfl, ?_⟩
    cases v with
    | object fields => rfl
    | _ => cases hordered
  rw [if_neg hgrid] at h
  by_cases hmatrix : isMatrix item = true
  · rw [if_pos hmatrix] at h
    split at h
    · cases h
    · next entries hentries =>
      obtain ⟨held, hheld, he⟩ := bind_eq_some_iff.mp hentries
      dsimp only at h
      split_ifs at h
      cases h
      exact .inr ⟨hmatrix, ⟨_, rfl⟩, held, hheld, by rw [he]; rfl⟩
  · split_ifs at h with hv
    exact .inl ⟨h, hv⟩

theorem met_of_ids {test : AnswerTest} {v : Value} (hv : selections test.questionId = some v)
    (hvalue : hasValue (some v) = true)
    (h : v.ids.any test.optionIds.contains = true) : test.met selections = true := by
  unfold AnswerTest.met
  rw [hv]
  cases v with
  | text s => simpa [hasValue, Value.ids, Value.string] using And.intro (show s ≠ "" by simpa [hasValue] using hvalue) h
  | number n => simpa [Value.ids] using h
  | list ids => exact h
  | object fields => simpa [Value.ids] using h

theorem met_of_matchesAnswer (hunique : (items.map (·.id)).Nodup) (hheld : PageHolds items selections)
    {test : AnswerTest}
    (h : matchesAnswer test.questionId test.optionIds ⟨profile, allAnswers items selections⟩ = true) :
    test.met selections = true := by
  unfold matchesAnswer at h
  dsimp only at h
  by_cases hq : ∃ item ∈ items, item.id = test.questionId
  · obtain ⟨item, hitem, hid⟩ := hq
    rw [← hid, allAnswers_eq hunique hitem] at h
    cases hsent : sentValue item (selections item.id) with
    | none => rw [hsent] at h; cases h
    | some v =>
      rw [hsent] at h
      rcases sentValue_spec hsent with ⟨hvalue, hhas⟩ | ⟨hmatrix, ⟨rows, rfl⟩, held, hsel, hentries⟩
      · exact met_of_ids (hid ▸ hvalue) (hvalue ▸ hhas) h
      · -- the rows are an object on both sides, and an object's text is always the same
        cases held with
        | object fields => exact met_of_ids (v := .object fields) (hid ▸ hsel) rfl h
        | list ids => exact absurd hsel (hheld item hitem hmatrix ids)
        | text s => cases hentries
        | number n => cases hentries
  · unfold allAnswers at h
    rw [answerSelections_undeclared fun item hitem e => hq ⟨item, hitem, e⟩] at h
    cases h

theorem pageShows_iff (hunique : (items.map (·.id)).Nodup) (hitem : item ∈ items)
    (answers : String → Option (List String)) :
    pageShows (hiddenFor items profile) selections item = true ↔ profileOk item ⟨profile, answers⟩ = true ∧
      ∀ test, pageCondition item = some test → test.questionId ∉ hiddenFor items profile ∧
        test.met selections = true := by
  have hhidden : item.id ∉ hiddenFor items profile ↔ profileOk item ⟨profile, answers⟩ = true :=
    not_hidden_iff hunique hitem
  unfold pageShows
  by_cases h : item.id ∈ hiddenFor items profile
  · rw [if_pos (contains_iff_mem.mpr h)]
    exact ⟨fun e => (nomatch e), fun e => absurd h (hhidden.mpr e.1)⟩
  rw [if_neg (fun e => h (contains_iff_mem.mp e))]
  cases hc : pageCondition item with
  | none => exact ⟨fun _ => ⟨hhidden.mp h, fun test ht => (nomatch ht)⟩, fun _ => rfl⟩
  | some test =>
    dsimp only
    by_cases hq : test.questionId ∈ hiddenFor items profile
    · rw [if_pos (contains_iff_mem.mpr hq)]
      exact ⟨fun e => (nomatch e), fun e => absurd hq (e.2 test rfl).1⟩
    · rw [if_neg (fun e => hq (contains_iff_mem.mp e))]
      refine ⟨fun e => ⟨hhidden.mp h, fun t ht => ?_⟩, fun e => (e.2 test rfl).2⟩
      cases ht
      exact ⟨hq, e⟩

theorem pageShows_of_onScreen (hunique : (items.map (·.id)).Nodup) (hheld : PageHolds items selections)
    (hitem : item ∈ items)
    (h : OnScreen items ⟨profile, allAnswers items selections⟩ item.id) :
    pageShows (hiddenFor items profile) selections item = true := by
  obtain ⟨hok, hanswer⟩ := (onScreen_iff hunique hitem).mp h
  refine (pageShows_iff hunique hitem _).mpr ⟨hok, fun test ht => ?_⟩
  obtain ⟨hmatch, hparent⟩ := hanswer test ht
  refine ⟨?_, met_of_matchesAnswer hunique hheld hmatch⟩
  obtain ⟨parent, hmem, hpid⟩ := hparent.declared
  rw [← hpid] at hparent ⊢
  exact (not_hidden_iff hunique hmem).mpr ((onScreen_iff hunique hmem).mp hparent).1

theorem onScreen_all (hunique : (items.map (·.id)).Nodup) {id : String}
    (h : OnScreen items (sentFacts items profile selections) id) :
    OnScreen items ⟨profile, allAnswers items selections⟩ id := by
  induction h with
  | @intro id item hid hcond _ ih =>
    refine .intro hid (fun c hc => ?_) ih
    have hmatch := hcond c hc
    rw [matchesCondition_split, Bool.and_eq_true] at hmatch ⊢
    refine ⟨hmatch.1, ?_⟩
    cases ha : c.answer with
    | none => rfl
    | some a =>
      rw [ha] at hmatch
      exact matchesAnswer_all hunique _ hmatch.2

theorem sentFacts_answers (hunique : (items.map (·.id)).Nodup) (hheld : PageHolds items selections) {q : String}
    (h : OnScreen items ⟨profile, allAnswers items selections⟩ q) :
    (sentFacts items profile selections).answers q = allAnswers items selections q := by
  obtain ⟨item, hmem, rfl⟩ := h.declared
  rw [allAnswers_eq hunique hmem]
  exact (answerSelections_visible selections hunique _ hmem).trans (if_pos (pageShows_of_onScreen hunique hheld hmem h))

theorem onScreen_sent (hunique : (items.map (·.id)).Nodup) (hheld : PageHolds items selections) {id : String}
    (h : OnScreen items ⟨profile, allAnswers items selections⟩ id) :
    OnScreen items (sentFacts items profile selections) id := by
  induction h with
  | @intro id item hid hcond hparent ih =>
    refine .intro hid (fun c hc => ?_) ih
    have hmatch := hcond c hc
    rw [matchesCondition_split, Bool.and_eq_true] at hmatch ⊢
    refine ⟨hmatch.1, ?_⟩
    cases ha : c.answer with
    | none => rfl
    | some a =>
      rw [ha] at hmatch
      show matchesAnswer a.questionId a.optionIds (sentFacts items profile selections) = true
      unfold matchesAnswer
      rw [sentFacts_answers hunique hheld (hparent c a hc ha)]
      exact hmatch.2

theorem shown_iff_noStale (hunique : (items.map (·.id)).Nodup) (hheld : PageHolds items selections) :
    (∀ id, id ∈ (visibleItems items selections (hiddenFor items profile)).map (·.id) ↔
      id ∈ visibleItemIds items (sentFacts items profile selections)) ↔ NoStale items profile selections := by
  constructor
  · intro hsame item hitem hhidden test htest hq hmet
    have hshown : pageShows (hiddenFor items profile) selections item = true := by
      refine (pageShows_iff hunique hitem (fun _ => none)).mpr ⟨(not_hidden_iff hunique hitem).mp hhidden,
        fun t ht => ?_⟩
      obtain rfl := some.inj (htest.symm.trans ht)
      exact ⟨hq, hmet⟩
    have hserver := (hsame item.id).mp (List.mem_map_of_mem (mem_filter.mpr ⟨hitem, hshown⟩))
    have hall := onScreen_all hunique (visibleItemIds_iff.mp hserver)
    obtain ⟨hmatch, hparent⟩ := ((onScreen_iff hunique hitem).mp hall).2 test htest
    exact ⟨hparent, hmatch⟩
  · intro hstale id
    rw [visibleItemIds_iff]
    constructor
    · intro hid
      obtain ⟨item, hmem, rfl⟩ := List.mem_map.mp hid
      obtain ⟨hitem, hshown⟩ := mem_filter.mp hmem
      obtain ⟨hok, htests⟩ := (pageShows_iff hunique hitem (allAnswers items selections)).mp hshown
      refine onScreen_sent hunique hheld ((onScreen_iff hunique hitem).mpr ⟨hok, fun test ht => ?_⟩)
      obtain ⟨hq, hmet⟩ := htests test ht
      obtain ⟨hparent, hmatch⟩ := hstale item hitem ((not_hidden_iff hunique hitem).mpr hok) test ht hq hmet
      exact ⟨hmatch, hparent⟩
    · intro hon
      have hall := onScreen_all hunique hon
      obtain ⟨item, hitem, rfl⟩ := hall.declared
      exact List.mem_map_of_mem (mem_filter.mpr ⟨hitem, pageShows_of_onScreen hunique hheld hitem hall⟩)

end Page

end Canari.Forms.Fill
