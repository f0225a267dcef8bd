/-
  Canari.Associations.TierPricing — the rank of a membership tier and what rests on it
  (`apps/social-service/src/associations/tier-pricing.ts`; `tierFactsFrom`, `relationOf`,
  `assertTierIsARise` and `heldTierProductIdOf` of `products.service.ts`).

  An opening ranks the tier asked for against the one the buyer holds and freezes the held
  tier's product id; the settlement reads no price, only which tiers are held now and which one
  was frozen (`settlementVerdict`).
  - `relationOf_sold`: a tier is sold to a buyer who holds none, or over the one tier held, at a
    strictly higher price, and never while a tag of a deleted tier is held;
  - `heldTierProductIdOf_held`: what is frozen is that one tier;
  - `settlementGrants_iff`: a settlement grants when nothing is held and nothing was frozen, or
    when every tier held now is the frozen one.
-/

import Canari.Associations.CotisationTag

namespace Canari.Associations.Cotisation

open List

structure Tier where
  id : String
  variantKey : Key
  amountCents : Option Int
  /-- The stored grid, as text. -/
  priceMatrix : Option String
  allowCustomAmount : Bool
  grantedTagName : Option String
  deriving DecidableEq

inductive TierRelation where
  | none
  | held
  | higher
  | lower
  | unranked
  deriving DecidableEq

structure HeldTier where
  variantKey : Key
  product : Option Tier
  deriving DecidableEq

def rankPriceCents (t : Option Tier) : Option Int :=
  match t with
  | none => none
  | some t =>
    if t.priceMatrix.isSome || t.allowCustomAmount then none
    else match t.amountCents with
      | some cents => some cents
      | none => if t.variantKey = none then some 0 else none

/-- `compareKeys(a, b) <= 0`. -/
def keyLe : Key → Key → Bool
  | _, none => true
  | none, some _ => false
  | some a, some b => utf16Le a b

def dearer (best h : HeldTier) : HeldTier :=
  if (rankPriceCents h.product).getD 0 > (rankPriceCents best.product).getD 0 then h else best

def pickHeldTier (held : List HeldTier) : Option HeldTier :=
  let sorted := held.insertionSort fun a b => keyLe a.variantKey b.variantKey
  match sorted.find? fun h => (rankPriceCents h.product).isNone with
  | some unranked => some unranked
  | none => match sorted with
    | [] => none
    | h :: rest => some (rest.foldl dearer h)

def tierRelation (target : Tier) (held : Option HeldTier) : TierRelation :=
  match held with
  | none => .none
  | some held =>
    if target.variantKey = held.variantKey then .held
    else match rankPriceCents (some target), rankPriceCents held.product with
      | some targetPrice, some heldPrice => if targetPrice > heldPrice then .higher else .lower
      | _, _ => .unranked

instance : LawfulBEq Key := inferInstance

def tierRelationOf (target : Tier) (heldKeys : List Key) (held : Option HeldTier) : TierRelation :=
  if target.variantKey ∈ heldKeys then .held else tierRelation target held

structure TierRefusal where
  code : String
  message : String

def tierRefusal : TierRelation → Option TierRefusal
  | .none => none
  | .higher => none
  | .held => some ⟨"PRODUCT_ALREADY_PURCHASED", "You already hold this membership"⟩
  | .lower => some ⟨"TIER_NOT_A_RISE", "You already hold a membership tier worth at least this one"⟩
  | .unranked => some ⟨"TIER_NOT_RANKABLE", "Your current membership tier cannot be compared with this one"⟩

/-! ## What a viewer holds -/

structure TierFacts where
  tiers : List Tier
  heldKeys : List Key
  held : Option HeldTier

def productOf (tiers : List Tier) (key : Key) : Option Tier := tiers.find? fun t => t.variantKey = key

/-- The tiers held and the orphans, as `pickHeldTier` is given them. -/
def heldTiers (tiers : List Tier) (heldKeys : List Key) (orphans : List OrphanTierTag) : List HeldTier :=
  heldKeys.map (fun k => HeldTier.mk k (productOf tiers k)) ++ orphans.map fun o => HeldTier.mk o.variantKey none

def tierFactsFrom (tagOf : Key → String) (tiers : List Tier) (holds : String → Bool)
    (orphans : List OrphanTierTag) : TierFacts :=
  let heldKeys := (tierVariantKeys (tiers.map (·.variantKey))).filter fun k => holds (tagOf k)
  ⟨tiers, heldKeys, pickHeldTier (heldTiers tiers heldKeys orphans)⟩

def relationOf (product : Tier) (facts : TierFacts) : TierRelation :=
  let relation := tierRelationOf product facts.heldKeys facts.held
  if relation ≠ .held && facts.heldKeys.length > 1 then .unranked else relation

def heldTierProductIdOf (facts : TierFacts) : Option String :=
  match facts.held with
  | none => none
  | some held =>
    let ids := (facts.tiers.filter fun t => t.variantKey = held.variantKey).map (·.id)
    (ids.insertionSort fun a b => utf16Le a b).head?

/-! ## The settlement's verdict -/

inductive SettlementVerdict where
  | held
  | nothingHeld
  | frozenGone
  | asOpened
  | heldChanged
  deriving DecidableEq

def settlementVerdict (targetKey : Key) (heldKeys frozenKeys : List Key) (frozeATier : Bool) : SettlementVerdict :=
  if targetKey ∈ heldKeys then .held
  else if heldKeys.length = 0 then if frozeATier then .frozenGone else .nothingHeld
  else if heldKeys.all (· ∈ frozenKeys) then .asOpened
  else .heldChanged

def settlementGrants (verdict : SettlementVerdict) : Bool := verdict = .nothingHeld || verdict = .asOpened

theorem settlementGrants_iff {target : Key} {held frozen : List Key} {froze : Bool} :
    settlementGrants (settlementVerdict target held frozen froze) = true ↔
      target ∉ held ∧ (held = [] → froze = false) ∧ ∀ k ∈ held, k ∈ frozen := by
  unfold settlementVerdict
  split
  · simp [settlementGrants, *]
  · rename_i ht
    cases held with
    | nil => cases froze <;> simp [settlementGrants]
    | cons k ks =>
      rw [if_neg (by simp)]
      split
      · rename_i ha
        simp only [all_eq_true, decide_eq_true_eq] at ha
        exact ⟨fun _ => ⟨ht, fun h => (cons_ne_nil _ _ h).elim, ha⟩, fun _ => rfl⟩
      · rename_i ha
        simp only [all_eq_true, decide_eq_true_eq] at ha
        exact ⟨fun h => (Bool.false_ne_true h).elim, fun h => absurd h.2.2 ha⟩

/-! ## The tier a purchase is ranked against -/

theorem dearer_cases (best h : HeldTier) : dearer best h = h ∨ dearer best h = best := by
  unfold dearer
  split
  · exact .inl rfl
  · exact .inr rfl

theorem foldl_dearer_mem (h : HeldTier) (rest : List HeldTier) : rest.foldl dearer h ∈ h :: rest := by
  induction rest generalizing h with
  | nil => exact mem_singleton.mpr rfl
  | cons g rest ih =>
    rw [foldl_cons]
    have hm := mem_cons.mp (ih (dearer h g))
    rcases hm with he | hr
    · rw [he]
      rcases dearer_cases h g with hd | hd <;> simp [hd]
    · exact mem_cons_of_mem h (mem_cons_of_mem g hr)

variable {held : List HeldTier}

theorem pickHeldTier_mem {h : HeldTier} (hp : pickHeldTier held = some h) : h ∈ held := by
  unfold pickHeldTier at hp
  simp only at hp
  split at hp
  · rename_i u hu
    cases hp
    exact (mem_insertionSort _).mp (mem_of_find?_eq_some hu)
  · split at hp
    · cases hp
    · rename_i g rest hs
      cases hp
      have hm := foldl_dearer_mem g rest
      rw [← hs] at hm
      exact (mem_insertionSort _).mp hm

theorem pickHeldTier_eq_none : pickHeldTier held = none ↔ held = [] := by
  refine ⟨fun hp => ?_, fun h => by rw [h]; rfl⟩
  unfold pickHeldTier at hp
  simp only at hp
  split at hp
  · cases hp
  · split at hp
    · rename_i hs
      exact eq_nil_iff_forall_not_mem.mpr fun h hm => by
        have := (mem_insertionSort fun a b => keyLe a.variantKey b.variantKey).mpr hm
        rw [hs] at this
        cases this
    · cases hp

theorem pickHeldTier_unranked {g h : HeldTier} (hg : g ∈ held) (hr : rankPriceCents g.product = none)
    (hp : pickHeldTier held = some h) : rankPriceCents h.product = none := by
  unfold pickHeldTier at hp
  simp only at hp
  split at hp
  · rename_i u hu
    cases hp
    have := find?_some hu
    simpa using this
  · rename_i hn
    have := find?_eq_none.mp hn g ((mem_insertionSort _).mpr hg)
    simp [hr] at this

section Facts

variable {tagOf : Key → String} {tiers : List Tier} {holds : String → Bool} {orphans : List OrphanTierTag}

theorem mem_heldKeys {k : Key} (h : tiers ≠ []) :
    k ∈ (tierFactsFrom tagOf tiers holds orphans).heldKeys ↔
      (∃ t ∈ tiers, t.variantKey = k) ∧ holds (tagOf k) = true := by
  have hm : tiers.map (·.variantKey) ≠ [] := fun e => h (map_eq_nil_iff.mp e)
  rw [tierFactsFrom, mem_filter, mem_tierVariantKeys hm, mem_map]

theorem productOf_eq_some {k : Key} {t : Tier} (h : productOf tiers k = some t) : t ∈ tiers ∧ t.variantKey = k :=
  ⟨mem_of_find?_eq_some h, by simpa using find?_some h⟩

theorem held_eq_none : (tierFactsFrom tagOf tiers holds orphans).held = none ↔
    (tierFactsFrom tagOf tiers holds orphans).heldKeys = [] ∧ orphans = [] := by
  rw [tierFactsFrom, pickHeldTier_eq_none, heldTiers, append_eq_nil_iff, map_eq_nil_iff, map_eq_nil_iff]

theorem held_of_heldKeys_singleton {k : Key} (h : (tierFactsFrom tagOf tiers holds orphans).heldKeys = [k])
    (ho : orphans = []) :
    (tierFactsFrom tagOf tiers holds orphans).held = some ⟨k, productOf tiers k⟩ := by
  obtain ⟨g, hg⟩ : ∃ g, (tierFactsFrom tagOf tiers holds orphans).held = some g := by
    rw [← Option.ne_none_iff_exists']
    intro hn
    rw [held_eq_none, h] at hn
    cases hn.1
  have hm := pickHeldTier_mem
    (show pickHeldTier (heldTiers tiers (tierFactsFrom tagOf tiers holds orphans).heldKeys orphans) = some g from hg)
  rw [h, ho] at hm
  rw [hg, mem_singleton.mp hm]

/-- What a sale was ranked over: nothing, or one tier strictly cheaper than the target. -/
def SoldOver (target : Tier) (held : Option HeldTier) : Prop :=
  held = none ∨ ∃ t heldPrice targetPrice, held = some ⟨t.variantKey, some t⟩ ∧
    rankPriceCents (some t) = some heldPrice ∧
    rankPriceCents (some target) = some targetPrice ∧ heldPrice < targetPrice

theorem tierRefusal_eq_none {r : TierRelation} : tierRefusal r = none ↔ r = .none ∨ r = .higher := by
  cases r <;> simp [tierRefusal]

theorem tierRelation_eq_none {target : Tier} {held : Option HeldTier} : tierRelation target held = .none ↔
    held = none := by
  unfold tierRelation
  split
  · simp
  · split
    · simp
    · split
      · split <;> simp
      · simp

theorem tierRelation_higher {target : Tier} {held : Option HeldTier} (h : tierRelation target held = .higher) :
    ∃ g a b, held = some g ∧ rankPriceCents g.product = some a ∧ rankPriceCents (some target) = some b ∧ a < b := by
  unfold tierRelation at h
  split at h
  · cases h
  · rename_i g
    split at h
    · cases h
    · split at h
      · rename_i b a hb ha
        split at h
        · exact ⟨g, a, b, rfl, ha, hb, by assumption⟩
        · cases h
      · cases h

/-- A tier is sold to a holder of one tier at most, and of no tag of a deleted tier. -/
theorem relationOf_sold {target : Tier}
    (hs : tierRefusal (relationOf target (tierFactsFrom tagOf tiers holds orphans)) = none) :
    orphans = [] ∧ SoldOver target (tierFactsFrom tagOf tiers holds orphans).held := by
  generalize hf : tierFactsFrom tagOf tiers holds orphans = facts at hs
  rw [tierRefusal_eq_none, relationOf] at hs
  split at hs
  · rcases hs with hs | hs <;> cases hs
  · rename_i hlen
    by_cases ht : target.variantKey ∈ facts.heldKeys
    · rw [tierRelationOf, if_pos ht] at hs
      rcases hs with hs | hs <;> cases hs
    rw [tierRelationOf, if_neg ht] at hs hlen
    rcases hs with hn | hh
    · have hnone : (tierFactsFrom tagOf tiers holds orphans).held = none := hf ▸ (tierRelation_eq_none).mp hn
      exact ⟨((held_eq_none).mp hnone).2, .inl (hf ▸ hnone)⟩
    · obtain ⟨g, a, b, hg, ha, hb, hab⟩ := tierRelation_higher hh
      have hg' : pickHeldTier (heldTiers tiers facts.heldKeys orphans) = some g := by rw [← hf] at hg ⊢; exact hg
      -- an orphan has no product, so it would have been picked, and it has no rank
      have ho : orphans = [] := eq_nil_iff_forall_not_mem.mpr fun o hm => by
        have hu := pickHeldTier_unranked (mem_append_right _ (mem_map_of_mem hm)) rfl hg'
        rw [hu] at ha
        cases ha
      refine ⟨ho, .inr ?_⟩
      have hm := pickHeldTier_mem hg'
      rw [heldTiers, ho, map_nil, append_nil, mem_map] at hm
      obtain ⟨k, hk, rfl⟩ := hm
      cases hp : productOf tiers k with
      | none =>
        rw [hp] at ha
        cases ha
      | some t =>
        rw [hp] at ha
        have htk := (productOf_eq_some hp).2
        exact ⟨t, a, b, by rw [hg, hp, htk], ha, hb, hab⟩

theorem held_product_mem {k : Key} {t : Tier}
    (h : (tierFactsFrom tagOf tiers holds orphans).held = some ⟨k, some t⟩) : t ∈ tiers := by
  have hm := pickHeldTier_mem h
  rw [heldTiers, mem_append, mem_map, mem_map] at hm
  rcases hm with ⟨j, -, hj⟩ | ⟨o, -, ho⟩
  · exact (productOf_eq_some (HeldTier.mk.inj hj).2).1
  · cases (HeldTier.mk.inj ho).2

theorem heldTierProductIdOf_held (hd : (tiers.map (·.variantKey)).Nodup) {t : Tier}
    (h : (tierFactsFrom tagOf tiers holds orphans).held = some ⟨t.variantKey, some t⟩) :
    heldTierProductIdOf (tierFactsFrom tagOf tiers holds orphans) = some t.id := by
  have hm := held_product_mem h
  have hid : ∀ x ∈ (tiers.filter fun u => u.variantKey = t.variantKey).map (·.id), x = t.id := by
    intro x hx
    obtain ⟨u, hu, rfl⟩ := mem_map.mp hx
    rw [mem_filter, decide_eq_true_eq] at hu
    rw [inj_on_of_nodup_map hd hu.1 hm hu.2]
  have hself : t.id ∈ (tiers.filter fun u => u.variantKey = t.variantKey).map (·.id) :=
    mem_map_of_mem (mem_filter.mpr ⟨hm, by simp⟩)
  rw [heldTierProductIdOf, h]
  change (((tiers.filter fun u => u.variantKey = t.variantKey).map (·.id)).insertionSort
    fun a b => utf16Le a b).head? = some t.id
  generalize (tiers.filter fun u => u.variantKey = t.variantKey).map (·.id) = ids at hid hself
  cases hh : (ids.insertionSort fun a b => utf16Le a b).head? with
  | none =>
    rw [head?_eq_none_iff] at hh
    have := (mem_insertionSort fun a b => utf16Le a b).mpr hself
    rw [hh] at this
    cases this
  | some x => rw [hid x ((mem_insertionSort _).mp (mem_of_head? hh))]

end Facts

end Canari.Associations.Cotisation
