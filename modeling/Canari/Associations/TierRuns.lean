/-
  Canari.Associations.TierRuns — one buyer's membership tiers in one association, over every
  order of the transactions that touch them (`apps/social-service/src/associations/products.service.ts`,
  `apps/social-service/src/users/user-tag.service.ts`, `buyer-tier-lock.ts`).

  Everything that ranks, grants, swaps or revokes the buyer's tiers holds the buyer's tier lock for
  its whole transaction, and a retag, a tier's creation and its deletion hold the association's lock
  exclusively, so each of these is one event. Two paths read a product before any lock and use that
  copy later, and are two events each (`readProduct`, then the use): `update` of a product whose key
  does not change writes every column of its copy back, and a cash sale falls back on its copy when
  the product is gone. A refused request is an event that is not taken, or leaves the state as it was.
  The checks an opening makes beside the ones here (routing, sale state, audience, stock, amount) only
  refuse. Slug, mode and academic year are those of the run.

  Proved, over every run whose product copies are still true when used and whose tier keys are not empty:
  - `settlement_revokes`: an online settlement revokes no active tag but the one of the tier its
    opening froze, which the opening had ranked strictly cheaper;
  - `grant_reads_back`: after a grant whose expiry is ahead, that tier is the one tier held;
  - `oneOpen`: the open attempts are of one tier.
  The runs at the end break the first two without those conditions.
-/

import Canari.Associations.TierPricing
import Canari.Lib.Machine

namespace Canari.Associations.TierRuns

open Lib Cotisation List Option
open ProductCheckout (CheckoutStatus ClosedStatus truthy CHECKOUT_EXPIRY_MARGIN_MS PRODUCT_REQUEST_LIFETIME_MS)

/-! ## The rows -/

structure Association where
  id : String
  slug : String
  cotisationMode : CotisationMode
  year : AcademicYear

/-- A `user_tags` row of the buyer. -/
structure UserTag where
  tagName : String
  issuingAssocId : Option String
  expiresAt : Option Int
  /-- `metadata.submissionId`: the form answer this row is the delivery of. -/
  submissionId : Option String
  deriving DecidableEq

structure Opening where
  target : Tier
  held : Option HeldTier
  deriving DecidableEq

/-- A `product_checkouts` row of the buyer, of a membership product. -/
structure Attempt where
  id : Nat
  productId : String
  status : CheckoutStatus
  expiresAt : Int
  heldTierProductId : Option String
  opening : Opening
  deriving DecidableEq

structure State where
  now : Int
  tiers : List Tier
  userTags : List UserTag
  checkouts : List Attempt
  /-- The copies of products that an edit or a cash sale read and has not used yet. -/
  reads : List Tier
  erased : Bool
  deriving DecidableEq

def isActive (now : Int) (tag : UserTag) : Bool := tag.expiresAt.all (now < ·)

section Rows

variable (asso : Association)

def derive (key : Key) : CotisationTag := deriveCotisationTag asso.slug asso.cotisationMode asso.year key

def tagOf (key : Key) : String := (derive asso key).tagName

def own (tag : UserTag) : Bool := tag.issuingAssocId = some asso.id

/-! ## What the buyer holds -/

def hasActiveTag (s : State) (tagName : String) : Bool :=
  s.userTags.any fun t => t.tagName = tagName && own asso t && isActive s.now t

def heldOrphanTierTags (s : State) : List OrphanTierTag :=
  let held := s.userTags.filter fun t => own asso t && isActive s.now t && inNamespace asso.slug t.tagName
  orphanTierTags (held.map (·.tagName)) asso.slug (tierVariantKeys (s.tiers.map (·.variantKey)))

def tierFactsOf (s : State) : TierFacts :=
  tierFactsFrom (tagOf asso) s.tiers (hasActiveTag asso s) (heldOrphanTierTags asso s)

def heldVariantKeys (s : State) : List Key :=
  (s.tiers.map (·.variantKey)).filter fun k => hasActiveTag asso s (tagOf asso k)

def rankedAgainst (s : State) : Option HeldTier :=
  pickHeldTier (heldTiers s.tiers (heldVariantKeys asso s) (heldOrphanTierTags asso s))

def rankTier (s : State) (variantKey : Key) : TierRelation :=
  match productOf s.tiers variantKey with
  | some target => tierRelation target (rankedAgainst asso s)
  | none => .unranked

/-! ## Grants and revocations -/

/-- `INSERT … ON CONFLICT ("userId", "tagName") DO UPDATE`; `none` is `TagHeldByAnotherIssuerError`. -/
def grantOrRenew (tags : List UserTag) (tag : CotisationTag) (submissionId : Option String) : Option (List UserTag) :=
  match tags.find? fun t => t.tagName = tag.tagName with
  | none => some (tags ++ [⟨tag.tagName, some asso.id, tag.expiresAt, submissionId⟩])
  | some row =>
    if own asso row then
      some (tags.map fun t =>
        if t.tagName = tag.tagName then
          { t with expiresAt := tag.expiresAt, submissionId := submissionId <|> t.submissionId } else t)
    else none

def revokeByName (tags : List UserTag) (tagName : String) : List UserTag :=
  tags.filter fun t => !(t.tagName = tagName && own asso t)

/-- The tags `revokeSiblingTierTags` revokes first: none in an association of one tier. -/
def siblingTags (tiers : List Tier) (keep : Key) : List String :=
  if tiers.length ≥ 2 then (tiers.filter fun t => t.variantKey ≠ keep).map fun t => tagOf asso t.variantKey else []

def revokeSiblings (s : State) (keep : Key) : State :=
  { s with userTags := (siblingTags asso s.tiers keep).foldl (revokeByName asso) s.userTags }

def revokeSiblingTierTags (s : State) (keep : Key) : State :=
  let s1 := revokeSiblings asso s keep
  { s1 with userTags := ((heldOrphanTierTags asso s1).map (·.tagName)).foldl (revokeByName asso) s1.userTags }

/-- The tag of tier `key` written and the other tiers' revoked. -/
def grantTier (s : State) (key : Key) (expiresAt : Option Int) (submissionId : Option String) : Option State :=
  (grantOrRenew asso s.userTags ⟨tagOf asso key, expiresAt⟩ submissionId).map fun tags =>
    revokeSiblingTierTags asso { s with userTags := tags } key

/-- `none` when nothing is granted: the product resolves to no tag, or another issuer has its name. -/
def grantPurchaseTag (s : State) (product : Tier) : Option State :=
  if truthy product.grantedTagName then
    grantTier asso s product.variantKey (derive asso product.variantKey).expiresAt none
  else none

/-! ## The boutique's settlement and cash sale -/

def tierById (tiers : List Tier) (id : String) : Option Tier := tiers.find? fun t => t.id = id

def settlementMayGrant (s : State) (product : Tier) (row : Attempt) : Bool :=
  let facts := tierFactsOf asso s
  let frozen := row.heldTierProductId.bind (tierById facts.tiers)
  let frozenKeys := (frozen.map (·.variantKey)).toList
  settlementGrants (settlementVerdict product.variantKey facts.heldKeys frozenKeys row.heldTierProductId.isSome)

/-- What the settlement of `row` grants: nothing to an erased buyer, nor for a product gone. -/
def settledGrant (s : State) (row : Attempt) : Option (State × Key) :=
  if s.erased then none
  else match tierById s.tiers row.productId with
    | none => none
    | some product =>
      if settlementMayGrant asso s product row then
        (grantPurchaseTag asso s product).map (·, product.variantKey) else none

def setStatus (checkouts : List Attempt) (id : Nat) (status : CheckoutStatus) : List Attempt :=
  checkouts.map fun c => if c.id = id then { c with status := status } else c

abbrev Result := Option (State × Option Key)

def settlePaidCheckout (s : State) (id : Nat) : Result :=
  match s.checkouts.find? fun c => c.id = id with
  | none => none
  | some row =>
    if row.status = .paid then some (s, none)
    else match settledGrant asso s row with
      | some (s', key) => some ({ s' with checkouts := setStatus s'.checkouts id .paid }, some key)
      | none => some ({ s with checkouts := setStatus s.checkouts id .paid }, none)

def fulfillProductPurchase (s : State) (n : Nat) : Result :=
  match s.reads[n]? with
  | none => none
  | some product =>
    let current := (tierById s.tiers product.id).getD product
    (grantPurchaseTag asso s current).map fun s' => ({ s' with reads := s'.reads.eraseIdx n }, some current.variantKey)

/-! ## The other grants -/

inductive TierName where
  | key (variantKey : Key)
  | tag (tagName : String)

inductive GrantRule where
  | manual
  | unlessHoldingAny
  | onlyARise

structure ExcludedTiers where
  anyTier : Bool
  variantKeys : List Key

structure GrantRequest where
  tier : TierName
  rule : GrantRule
  expiresAtOverride : Option Int
  excluded : Option ExcludedTiers
  submissionId : Option String

inductive GrantRefusal where
  | tagNotIssuerTier
  | unknownTier
  | noBaseTier
  | excludedTierHeld
  | notARise (relation : TierRelation)
  | tagHeldByAnotherIssuer

def namedTier (s : State) : TierName → Except GrantRefusal Key
  | .key variantKey => .ok variantKey
  | .tag tagName =>
    match s.tiers.find? fun t => tagOf asso t.variantKey = tagName with
    | some t => .ok t.variantKey
    | none => .error .tagNotIssuerTier

/-- The key is a tier of the association, or the base tier of one without tiers. -/
def assertTier (s : State) (variantKey : Key) : Except GrantRefusal Unit :=
  if variantKey ∈ s.tiers.map (·.variantKey) then .ok ()
  else if variantKey ≠ none then .error .unknownTier
  else if s.tiers ≠ [] then .error .noBaseTier
  else .ok ()

def holdsExcludedTier (s : State) (excluded : ExcludedTiers) : Bool :=
  let held := heldVariantKeys asso s
  if excluded.anyTier then held ≠ [] || heldOrphanTierTags asso s ≠ [] else held.any (· ∈ excluded.variantKeys)

def alreadyDelivered (s : State) (variantKey : Key) (submissionId : Option String) : Bool :=
  submissionId.isSome &&
    (s.userTags.find? fun t => t.tagName = tagOf asso variantKey && own asso t).any fun t =>
      t.submissionId = submissionId

/-- Whether the rule lets the grant be written; `ok false` writes nothing and refuses nothing. -/
def judge (s : State) (r : GrantRequest) (variantKey : Key) : Except GrantRefusal Bool :=
  match r.rule with
  | .manual => .ok true
  | .unlessHoldingAny => .ok (heldVariantKeys asso s = [] && heldOrphanTierTags asso s = [])
  | .onlyARise =>
    if r.excluded.any (holdsExcludedTier asso s) then .error .excludedTierHeld
    else match rankTier asso s variantKey with
      | .held => if alreadyDelivered asso s variantKey r.submissionId then .ok false else .error (.notARise .held)
      | .lower => .error (.notARise .lower)
      | .unranked => .error (.notARise .unranked)
      | .none => .ok true
      | .higher => .ok true

def grantCotisantIn (s : State) (r : GrantRequest) : Except GrantRefusal (Option (State × Key)) :=
  match namedTier asso s r.tier with
  | .error e => .error e
  | .ok variantKey =>
    match assertTier s variantKey with
    | .error e => .error e
    | .ok () =>
      match judge asso s r variantKey with
      | .error e => .error e
      | .ok false => .ok none
      | .ok true =>
        match grantTier asso s variantKey
          (r.expiresAtOverride <|> (derive asso variantKey).expiresAt) r.submissionId with
        | some s' => .ok (some (s', variantKey))
        | none => .error .tagHeldByAnotherIssuer

/-! ## Openings -/

def siblingAttemptOpen (s : State) (productId : String) : Bool :=
  s.checkouts.any fun c => c.status = .open_ && c.productId ≠ productId && (tierById s.tiers c.productId).isSome

/-- The unique index `product_checkouts_one_open`. -/
def attemptOpen (s : State) (productId : String) : Bool :=
  s.checkouts.any fun c => c.status = .open_ && c.productId = productId

def openCheckout (s : State) (id : Nat) (productId : String) : Result :=
  match tierById s.tiers productId with
  | none => none
  | some product =>
    let facts := tierFactsOf asso s
    if !s.erased && s.checkouts.all (·.id ≠ id) && truthy product.grantedTagName &&
      (tierRefusal (relationOf product facts)).isNone &&
        !siblingAttemptOpen s productId && !attemptOpen s productId then
      some ({ s with checkouts := s.checkouts ++
        [⟨id, productId, .open_, s.now + PRODUCT_REQUEST_LIFETIME_MS, heldTierProductIdOf facts,
          ⟨product, facts.held⟩⟩] }, none)
    else none

def closeCheckout (s : State) (id : Nat) (status : ClosedStatus) : Result :=
  match s.checkouts.find? fun c => c.id = id with
  | none => none
  | some row => if row.status = .open_ then some ({ s with checkouts := setStatus s.checkouts id status.status }, none) else none

/-! ## The catalogue -/

/-- The columns of an edit that change a rank; `none` leaves one as it is. -/
structure Edit where
  amountCents : Option (Option Int)
  priceMatrix : Option (Option String)
  allowCustomAmount : Option Bool

def applyEdits (t : Tier) (dto : Edit) : Tier :=
  { t with
    amountCents := dto.amountCents.getD t.amountCents
    priceMatrix := dto.priceMatrix.getD t.priceMatrix
    allowCustomAmount := dto.allowCustomAmount.getD t.allowCustomAmount }

/-- `save`: every column of the row with this id, or a new row. -/
def saveTier (tiers : List Tier) (t : Tier) : List Tier :=
  if (tierById tiers t.id).isSome then tiers.map fun u => if u.id = t.id then t else u else tiers ++ [t]

def readProduct (s : State) (productId : String) : Result :=
  (tierById s.tiers productId).map fun t => ({ s with reads := s.reads ++ [t] }, none)

/-- An `update` that does not retag: the copy read before, edited, is saved whole. -/
def saveProduct (s : State) (n : Nat) (dto : Edit) : Result :=
  s.reads[n]?.map fun product =>
    ({ s with tiers := saveTier s.tiers (applyEdits product dto), reads := s.reads.eraseIdx n }, none)

/-- `assertVariantKeyFree`: not shaped like a year, and no other tier's. -/
def variantKeyFree (s : State) (variantKey : Key) (exceptProductId : Option String) : Bool :=
  !variantKey.any YEAR_SHAPED_VARIANT_KEY && s.tiers.all fun t =>
    some t.id = exceptProductId || t.variantKey ≠ variantKey

/-- `assertRetagNameFree` for the buyer. -/
def retagNameTaken (s : State) (oldTagName newTagName : String) : Bool :=
  s.userTags.any (fun o => own asso o && o.tagName = oldTagName) && s.userTags.any (·.tagName = newTagName)

def renameTags (tags : List UserTag) (oldTagName : String) (tag : CotisationTag) : List UserTag :=
  tags.map fun t => if own asso t && t.tagName = oldTagName then
    { t with tagName := tag.tagName, expiresAt := tag.expiresAt } else t

def retagged (current : Tier) (variantKey : Key) (dto : Edit) : Tier :=
  { applyEdits current dto with variantKey := variantKey, grantedTagName := some (tagOf asso variantKey) }

def retag (s : State) (productId : String) (variantKey : Key) (dto : Edit) : Result :=
  match tierById s.tiers productId with
  | none => none
  | some current =>
    let oldTag := tagOf asso current.variantKey
    let newTag := derive asso variantKey
    if variantKeyFree s variantKey (some productId) && !retagNameTaken asso s oldTag newTag.tagName then
      some ({ s with
        tiers := saveTier s.tiers (retagged asso current variantKey dto)
        userTags := renameTags asso s.userTags oldTag newTag }, none)
    else none

def freshId (s : State) (id : String) : Bool :=
  (tierById s.tiers id).isNone && s.checkouts.all fun c => c.productId ≠ id && c.heldTierProductId ≠ some id

def createTier (s : State) (t : Tier) : Result :=
  if freshId s t.id && variantKeyFree s t.variantKey none then
    some ({ s with tiers := s.tiers ++ [{ t with grantedTagName := some (tagOf asso t.variantKey) }] }, none)
  else none

/-- `countActiveTierHolders` for the buyer: the tier's stem, with any year or none. -/
def holdsTier (s : State) (variantKey : Key) : Bool :=
  s.userTags.any fun t => own asso t && isActive s.now t && linkedTo asso.slug variantKey t.tagName

def checkoutPayable (s : State) (productId : String) : Bool :=
  s.checkouts.any fun c => c.productId = productId && c.status = .open_ &&
    c.expiresAt > s.now - CHECKOUT_EXPIRY_MARGIN_MS

def deleteTier (s : State) (productId : String) : Result :=
  match tierById s.tiers productId with
  | none => none
  | some current =>
    if s.tiers.length > 1 && !holdsTier asso s current.variantKey && !checkoutPayable s productId then
      some ({ s with tiers := s.tiers.filter fun t => t.id ≠ productId }, none)
    else none

/-! ## The machine -/

inductive Event where
  | openCheckout (id : Nat) (productId : String)
  | closeCheckout (id : Nat) (status : ClosedStatus)
  | settlePaidCheckout (id : Nat)
  | fulfillProductPurchase (n : Nat)
  | grantCotisant (r : GrantRequest)
  /-- A revocation by name: a manager's, a refund's, the deletion of long expired rows. -/
  | revoke (tagName : String)
  /-- Another issuer writes a row of this name. -/
  | grantElsewhere (tagName : String) (issuer : Option String) (expiresAt : Option Int)
  | readProduct (productId : String)
  | saveProduct (n : Nat) (dto : Edit)
  | retag (productId : String) (variantKey : Key) (dto : Edit)
  | createTier (t : Tier)
  | deleteTier (productId : String)
  | eraseAccount
  | tick (now : Int)

def perform (s : State) : Event → Result
  | .openCheckout id productId => openCheckout asso s id productId
  | .closeCheckout id status => closeCheckout s id status
  | .settlePaidCheckout id => settlePaidCheckout asso s id
  | .fulfillProductPurchase n => fulfillProductPurchase asso s n
  | .grantCotisant r =>
    match grantCotisantIn asso s r with
    | .ok (some (s', key)) => some (s', some key)
    | .ok none => some (s, none)
    | .error _ => some (s, none)
  | .revoke tagName => some ({ s with userTags := s.userTags.filter (·.tagName ≠ tagName) }, none)
  | .grantElsewhere tagName issuer expiresAt =>
    if issuer = some asso.id || s.userTags.any (·.tagName = tagName) then none
    else some ({ s with userTags := s.userTags ++ [⟨tagName, issuer, expiresAt, none⟩] }, none)
  | .readProduct productId => readProduct s productId
  | .saveProduct n dto => saveProduct s n dto
  | .retag productId variantKey dto => retag asso s productId variantKey dto
  | .createTier t => createTier asso s t
  | .deleteTier productId => deleteTier asso s productId
  | .eraseAccount => some ({ s with userTags := [], erased := true }, none)
  | .tick now => if s.now ≤ now && now < asso.year.expiresAt then some ({ s with now := now }, none) else none

def step (s : State) (e : Event) : Option State := (perform asso s e).map (·.1)

/-- The catalogue and the buyer's tags as the writers leave them, in one academic year. -/
structure Valid (s : State) : Prop where
  tiers_ne : s.tiers ≠ []
  keys_nodup : (s.tiers.map (·.variantKey)).Nodup
  ids_nodup : (s.tiers.map (·.id)).Nodup
  keys_plain : ∀ t ∈ s.tiers, Plain t.variantKey
  in_year : s.now < asso.year.expiresAt
  one_year : ∀ t ∈ s.userTags, own asso t = true → isActive s.now t = true → inNamespace asso.slug t.tagName = true →
    ∃ k, Plain k ∧ t.tagName = tagOf asso k

/-- Any catalogue and any tags, tags of deleted tiers among them, and no attempt yet. -/
def machine : Machine State Event where
  init s := Valid asso s ∧ s.checkouts = []
  step := step asso

/-- The copy of a product is still true when it is used, and no key is the empty string. -/
def sound (s : State) : Event → Bool
  | .fulfillProductPurchase n => s.reads[n]?.all fun p => (tierById s.tiers p.id).isSome
  | .saveProduct n _ => s.reads[n]?.all fun p => (tierById s.tiers p.id).any fun t => t.variantKey = p.variantKey
  | .retag _ variantKey _ => variantKey ≠ some ""
  | .createTier t => t.variantKey ≠ some ""
  | _ => true

def expiryAhead (s : State) : Event → Bool
  | .grantCotisant r => r.expiresAtOverride.all (s.now < ·)
  | _ => true

/-! ## The buyer's rows -/

variable {asso} {s s' : State}

theorem hasActiveTag_iff {name : String} :
    hasActiveTag asso s name = true ↔
      ∃ t ∈ s.userTags, t.tagName = name ∧ own asso t = true ∧ isActive s.now t = true := by
  simp [hasActiveTag, and_assoc]

variable {r : UserTag}

theorem mem_revoked {tags : List UserTag} {names : List String} :
    r ∈ names.foldl (revokeByName asso) tags ↔ r ∈ tags ∧ (own asso r = true → r.tagName ∉ names) := by
  induction names generalizing tags with
  | nil => simp
  | cons n names ih =>
    rw [foldl_cons, ih, revokeByName, mem_filter]
    by_cases hn : r.tagName = n <;> cases ho : own asso r <;> simp [hn]

theorem tierKeys_ne (hv : s.tiers ≠ []) : s.tiers.map (·.variantKey) ≠ [] := fun e => hv (map_eq_nil_iff.mp e)

theorem mem_heldOrphanTierTags (hv : s.tiers ≠ []) {o : OrphanTierTag} (ho : o ∈ heldOrphanTierTags asso s) :
    ∃ t ∈ s.userTags, own asso t = true ∧ isActive s.now t = true ∧ inNamespace asso.slug t.tagName = true ∧
      t.tagName = o.tagName ∧
      ∀ u ∈ s.tiers, linkedTo asso.slug u.variantKey t.tagName = false := by
  rw [heldOrphanTierTags, mem_orphanTierTags, List.mem_map] at ho
  obtain ⟨⟨t, ht, hn⟩, -, hl, -⟩ := ho
  simp only [mem_filter, Bool.and_eq_true] at ht
  refine ⟨t, ht.1, ht.2.1.1, ht.2.1.2, ht.2.2, hn, fun u hu => ?_⟩
  rw [hn]
  exact hl _ ((mem_tierVariantKeys (tierKeys_ne hv)).mpr (List.mem_map_of_mem hu))

theorem orphan_of_unlinked (hv : s.tiers ≠ []) {t : UserTag} (ht : t ∈ s.userTags) (ho : own asso t = true)
    (ha : isActive s.now t = true)
    (hn : inNamespace asso.slug t.tagName = true)
      (hl : ∀ u ∈ s.tiers, linkedTo asso.slug u.variantKey t.tagName = false) :
    ⟨t.tagName, orphanKey asso.slug t.tagName⟩ ∈ heldOrphanTierTags asso s := by
  rw [heldOrphanTierTags, mem_orphanTierTags]
  refine ⟨List.mem_map_of_mem (mem_filter.mpr ⟨ht, by simp [ho, ha, hn]⟩), hn, fun k hk => ?_, rfl⟩
  obtain ⟨u, hu, rfl⟩ := List.mem_map.mp ((mem_tierVariantKeys (tierKeys_ne hv)).mp hk)
  exact hl u hu

/-- Every active tag the association gave the buyer is read as one of its tiers'. -/
def NoOrphans (asso : Association) (s : State) : Prop :=
  ∀ t ∈ s.userTags, own asso t = true → isActive s.now t = true → inNamespace asso.slug t.tagName = true →
    ∃ u ∈ s.tiers, linkedTo asso.slug u.variantKey t.tagName = true

theorem noOrphans_iff (hv : s.tiers ≠ []) : heldOrphanTierTags asso s = [] ↔ NoOrphans asso s := by
  constructor
  · intro h t ht ho ha hn
    by_contra hc
    have hm := orphan_of_unlinked hv ht ho ha hn fun u hu => Bool.eq_false_iff.mpr fun hl => hc ⟨u, hu, hl⟩
    rw [h] at hm
    cases hm
  · intro h
    refine eq_nil_iff_forall_not_mem.mpr fun o ho => ?_
    obtain ⟨t, ht, ho, ha, hn, -, hl⟩ := mem_heldOrphanTierTags hv ho
    obtain ⟨u, hu, hlu⟩ := h t ht ho ha hn
    rw [hl u hu] at hlu
    cases hlu

/-! ## One grant -/

section Grant

variable {tags tags' : List UserTag} {tag : CotisationTag} {sub : Option String}

/-- The grant leaves every other row alone, and writes one of its own name. -/
theorem grantOrRenew_spec (h : grantOrRenew asso tags tag sub = some tags') :
    (∃ r ∈ tags', own asso r = true ∧ r.tagName = tag.tagName ∧ r.expiresAt = tag.expiresAt) ∧
    (∀ r ∈ tags', r.tagName = tag.tagName ∨ r ∈ tags) ∧
    (∀ r ∈ tags, ∃ r' ∈ tags', r'.tagName = r.tagName ∧ r'.issuingAssocId = r.issuingAssocId) := by
  unfold grantOrRenew at h
  split at h
  · cases h
    refine ⟨⟨_, mem_append_right _ (mem_singleton_self _), by simp [own], rfl, rfl⟩, fun r hr => ?_, fun r hr => ?_⟩
    · rcases mem_append.mp hr with hr | hr
      · exact .inr hr
      · exact .inl (by rw [mem_singleton.mp hr])
    · exact ⟨r, mem_append_left _ hr, rfl, rfl⟩
  · rename_i row hrow
    have hname : row.tagName = tag.tagName := by simpa using find?_some hrow
    split at h
    · rename_i hown
      cases h
      refine ⟨⟨_, List.mem_map_of_mem (mem_of_find?_eq_some hrow), ?_, ?_, ?_⟩, fun r hr => ?_, fun r hr =>
        ⟨_, List.mem_map_of_mem hr, ?_, ?_⟩⟩
      · rw [if_pos hname]; exact hown
      · rw [if_pos hname]; exact hname
      · rw [if_pos hname]
      · obtain ⟨q, hq, rfl⟩ := List.mem_map.mp hr
        split
        · exact .inl (by assumption)
        · exact .inr hq
      · split <;> rfl
      · split <;> rfl
    · cases h

end Grant

theorem mem_revokeSiblingTierTags {keep : Key} :
    r ∈ (revokeSiblingTierTags asso s keep).userTags ↔
      r ∈ s.userTags ∧ (own asso r = true → r.tagName ∉ siblingTags asso s.tiers keep) ∧
      (own asso r = true → r.tagName ∉ (heldOrphanTierTags asso (revokeSiblings asso s keep)).map (·.tagName)) := by
  rw [revokeSiblingTierTags, mem_revoked, revokeSiblings, mem_revoked, and_assoc]

theorem mem_siblingTags {keep : Key} {name : String} (h : name ∈ siblingTags asso s.tiers keep) :
    ∃ t ∈ s.tiers, t.variantKey ≠ keep ∧ name = tagOf asso t.variantKey := by
  unfold siblingTags at h
  split at h
  · obtain ⟨t, ht, rfl⟩ := List.mem_map.mp h
    rw [mem_filter, decide_eq_true_eq] at ht
    exact ⟨t, ht.1, ht.2, rfl⟩
  · cases h

variable {t u : Tier}

theorem tagOf_mem_siblingTags {keep : Key} (ht : t ∈ s.tiers) (hu : u ∈ s.tiers) (hk : u.variantKey = keep)
    (hne : t.variantKey ≠ keep) : tagOf asso t.variantKey ∈ siblingTags asso s.tiers keep := by
  have hlen : s.tiers.length ≥ 2 := by
    match hs : s.tiers with
    | [] => rw [hs] at ht; cases ht
    | [a] =>
      rw [hs] at ht hu
      rw [mem_singleton.mp ht, ← mem_singleton.mp hu] at hne
      exact absurd hk hne
    | _ :: _ :: _ => simp
  rw [siblingTags, if_pos hlen]
  exact List.mem_map_of_mem (f := fun t : Tier => tagOf asso t.variantKey) (mem_filter.mpr ⟨ht, by simpa using hne⟩)

section GrantTier

variable {key : Key} {exp : Option Int} {sub : Option String}

theorem grantTier_eq_some (h : grantTier asso s key exp sub = some s') :
    ∃ tags, grantOrRenew asso s.userTags ⟨tagOf asso key, exp⟩ sub = some tags ∧
      s' = revokeSiblingTierTags asso { s with userTags := tags } key := by
  obtain ⟨tags, ht, he⟩ := map_eq_some_iff.mp h
  exact ⟨tags, ht, he.symm⟩

theorem grantTier_frame (h : grantTier asso s key exp sub = some s') : s' = { s with userTags := s'.userTags } := by
  obtain ⟨tags, -, rfl⟩ := grantTier_eq_some h
  rfl

theorem grantTier_rows (h : grantTier asso s key exp sub = some s') (hr : r ∈ s'.userTags) :
    r.tagName = tagOf asso key ∨ r ∈ s.userTags := by
  obtain ⟨tags, ht, rfl⟩ := grantTier_eq_some h
  exact (grantOrRenew_spec ht).2.1 r ((mem_revokeSiblingTierTags).mp hr).1

/-- `r` is no longer among the rows. -/
def Gone (r : UserTag) (tags : List UserTag) : Prop :=
  ¬ ∃ r' ∈ tags, r'.tagName = r.tagName ∧ r'.issuingAssocId = r.issuingAssocId

theorem grantTier_revokes (hv : s.tiers ≠ []) (ho : NoOrphans asso s) (h : grantTier asso s key exp sub = some s')
    (hr : r ∈ s.userTags) (ha : isActive s.now r = true) (hg : Gone r s'.userTags) :
    own asso r = true ∧ ∃ t ∈ s.tiers, t.variantKey ≠ key ∧ r.tagName = tagOf asso t.variantKey := by
  obtain ⟨tags, ht, rfl⟩ := grantTier_eq_some h
  obtain ⟨r', hr', hname, hissuer⟩ := (grantOrRenew_spec ht).2.2 r hr
  have hout : ¬ (r' ∈ tags ∧ _) := fun hc => hg ⟨r', (mem_revokeSiblingTierTags).mpr hc, hname, hissuer⟩
  have hown : own asso r' = true := by
    by_contra hc
    exact hout ⟨hr', fun hh => absurd hh hc, fun hh => absurd hh hc⟩
  have hownr : own asso r = true := by rw [← hown, own, own, hissuer]
  by_cases hs : r'.tagName ∈ siblingTags asso s.tiers key
  · obtain ⟨t, ht, hne, he⟩ := mem_siblingTags hs
    exact ⟨hownr, t, ht, hne, hname ▸ he⟩
  · -- revoked as an orphan: but `r` is active, so it is a tier's
    have horph : r'.tagName ∈ (heldOrphanTierTags asso (revokeSiblings asso { s with userTags := tags } key)).map
      (·.tagName) := by
      by_contra hc
      exact hout ⟨hr', fun _ => hs, fun _ => hc⟩
    obtain ⟨o, hom, hoe⟩ := List.mem_map.mp horph
    obtain ⟨q, -, -, -, hns, hqo, hl⟩ :=
      mem_heldOrphanTierTags (s := revokeSiblings asso { s with userTags := tags } key) hv hom
    have hq : q.tagName = r.tagName := hqo.trans (hoe.trans hname)
    rw [hq] at hns hl
    obtain ⟨u, hu, hlu⟩ := ho r hr hownr ha hns
    rw [hl u hu] at hlu
    cases hlu

theorem grantTier_noOrphans (hv : s.tiers ≠ [])
    (h : grantTier asso s key exp sub = some s') : heldOrphanTierTags asso s' = [] := by
  obtain ⟨tags, ht, rfl⟩ := grantTier_eq_some h
  refine eq_nil_iff_forall_not_mem.mpr fun o ho => ?_
  obtain ⟨t, htm, hown, hact, hns, -, hl⟩ :=
    mem_heldOrphanTierTags (s := revokeSiblingTierTags asso { s with userTags := tags } key) hv ho
  have hm := (mem_revokeSiblingTierTags).mp htm
  have hstill := orphan_of_unlinked (s := revokeSiblings asso { s with userTags := tags } key) hv
    ((mem_revoked).mpr ⟨hm.1, hm.2.1⟩) hown hact hns hl
  exact hm.2.2 hown (List.mem_map_of_mem hstill)

theorem grantTier_holds (hv : Valid asso s) (h : grantTier asso s key exp sub = some s') (hu : u ∈ s.tiers)
    (huk : u.variantKey = key) (hexp : exp.all (s.now < ·) = true) (ht : t ∈ s.tiers) :
    hasActiveTag asso s' (tagOf asso t.variantKey) = true ↔ t.variantKey = key := by
  obtain ⟨tags, hg, rfl⟩ := grantTier_eq_some h
  rw [hasActiveTag_iff]
  constructor
  · rintro ⟨r, hr, hname, hown, -⟩
    by_contra hne
    have hm := ((mem_revokeSiblingTierTags).mp hr).2.1 hown
    rw [hname] at hm
    exact hm (tagOf_mem_siblingTags (s := { s with userTags := tags }) ht hu huk hne)
  · rintro rfl
    obtain ⟨r, hr, hown, hname, hre⟩ := (grantOrRenew_spec hg).1
    have hnamed := (hv.keys_plain t ht).1
    refine ⟨r, (mem_revokeSiblingTierTags).mpr ⟨hr, fun _ hs => ?_, fun _ hs => ?_⟩, hname, hown, by
      rw [isActive, hre]; exact hexp⟩
    · obtain ⟨x, hx, hne, he⟩ := mem_siblingTags hs
      exact hne (tagName_inj (hv.keys_plain x hx).1 hnamed (he.symm.trans hname))
    · obtain ⟨o, hom, hoe⟩ := List.mem_map.mp hs
      obtain ⟨q, -, -, -, -, hqo, hl⟩ :=
        mem_heldOrphanTierTags (s := revokeSiblings asso { s with userTags := tags } t.variantKey) hv.tiers_ne hom
      have hlt := hl t ht
      rw [hqo.trans (hoe.trans hname)] at hlt
      exact Bool.eq_false_iff.mp hlt (linkedTo_tagName hnamed)

/-- The ranking reads exactly this tier as held, for a checkout and for a form's grant. -/
def ReadsAs (asso : Association) (s : State) (key : Key) : Prop :=
  (tierFactsOf asso s).heldKeys = [key] ∧ (tierFactsOf asso s).held = some ⟨key, productOf s.tiers key⟩ ∧
    rankedAgainst asso s = some ⟨key, productOf s.tiers key⟩

theorem length_le_one_of_nodup {α : Type} {l : List α} {a : α} (hn : l.Nodup) (h : ∀ x ∈ l, x = a) : l.length ≤ 1 := by
  rw [eq_replicate_of_mem h] at hn
  exact nodup_replicate.mp hn

theorem eq_singleton_of_mem_iff {α : Type} {l : List α} {a : α} (hn : l.Nodup) (h : ∀ x, x ∈ l ↔ x = a) : l = [a] := by
  have hle := length_le_one_of_nodup hn fun x hx => (h x).mp hx
  have hpos : 0 < l.length := length_pos_of_mem ((h a).mpr rfl)
  obtain ⟨x, hx⟩ := length_eq_one_iff.mp (show l.length = 1 by omega)
  rw [hx, (h x).mp (hx ▸ mem_singleton_self x)]

theorem grantTier_readsAs (hv : Valid asso s) (h : grantTier asso s key exp sub = some s') (hu : u ∈ s.tiers)
    (huk : u.variantKey = key) (hexp : exp.all (s.now < ·) = true) : ReadsAs asso s' key := by
  have htiers : s'.tiers = s.tiers := by rw [grantTier_frame h]
  have ho := grantTier_noOrphans hv.tiers_ne h
  have hiff : ∀ k, ((∃ t ∈ s.tiers, t.variantKey = k) ∧ hasActiveTag asso s' (tagOf asso k) = true) ↔ k = key := by
    intro k
    constructor
    · rintro ⟨⟨t, ht, rfl⟩, hk⟩
      exact (grantTier_holds hv h hu huk hexp ht).mp hk
    · rintro rfl
      exact ⟨⟨u, hu, huk⟩, huk ▸ (grantTier_holds hv h hu huk hexp hu).mpr huk⟩
  have hkeys : (tierFactsOf asso s').heldKeys = [key] := by
    refine eq_singleton_of_mem_iff ((nodup_tierVariantKeys _).filter _) fun k => ?_
    rw [← hiff k, tierFactsOf, htiers]
    exact mem_heldKeys hv.tiers_ne
  have hvkeys : heldVariantKeys asso s' = [key] := by
    rw [heldVariantKeys, htiers]
    refine eq_singleton_of_mem_iff (hv.keys_nodup.filter _) fun k => ?_
    rw [← hiff k, mem_filter, List.mem_map]
  have hheld := held_of_heldKeys_singleton hkeys ho
  refine ⟨hkeys, hheld, ?_⟩
  rw [rankedAgainst, hvkeys, ← hkeys]
  exact hheld

end GrantTier

/-! ## The events that grant -/

variable {tiers : List Tier}

theorem tierById_eq_some {id : String} (h : tierById tiers id = some t) : t ∈ tiers ∧ t.id = id :=
  ⟨mem_of_find?_eq_some h, by simpa using find?_some h⟩

theorem grantPurchaseTag_eq_some {product : Tier} (h : grantPurchaseTag asso s product = some s') :
    grantTier asso s product.variantKey (derive asso product.variantKey).expiresAt none = some s' := by
  unfold grantPurchaseTag at h
  split at h
  · exact h
  · cases h

theorem settledGrant_eq_some {row : Attempt} {key : Key} (h : settledGrant asso s row = some (s', key)) :
    ∃ product ∈ s.tiers, product.id = row.productId ∧ product.variantKey = key ∧
      settlementMayGrant asso s product row = true ∧
      grantPurchaseTag asso s product = some s' := by
  unfold settledGrant at h
  split at h
  · cases h
  · split at h
    · cases h
    · rename_i product hp
      split at h
      · rename_i hm
        obtain ⟨s1, hs1, he⟩ := map_eq_some_iff.mp h
        cases he
        exact ⟨product, (tierById_eq_some hp).1, (tierById_eq_some hp).2, rfl, hm, hs1⟩
      · cases h

theorem grantCotisantIn_eq_some {r : GrantRequest} {key : Key} (hv : s.tiers ≠ [])
    (h : grantCotisantIn asso s r = .ok (some (s', key))) :
    (∃ u ∈ s.tiers, u.variantKey = key) ∧
      grantTier asso s key (r.expiresAtOverride <|> (derive asso key).expiresAt) r.submissionId = some s' := by
  unfold grantCotisantIn at h
  split at h
  · cases h
  · split at h
    · cases h
    · rename_i ha
      split at h
      · cases h
      · cases h
      · split at h
        · rename_i s1 hs1
          cases h
          refine ⟨?_, hs1⟩
          unfold assertTier at ha
          split at ha
          · rename_i hm
            exact List.mem_map.mp hm
          · split at ha
            · cases ha
            · cases ha
        · cases h

theorem derived_ahead (hv : Valid asso s) (key : Key) : (derive asso key).expiresAt.all (s.now < ·) = true := by
  unfold derive deriveCotisationTag
  split
  · rfl
  · simpa using hv.in_year

/-! ## The events that do not -/

variable {res : State × Option Key}

variable {id : Nat} {productId : String}

theorem openCheckout_eq_some (h : openCheckout asso s id productId = some res) :
    ∃ product, tierById s.tiers productId = some product ∧ s.erased = false ∧
      tierRefusal (relationOf product (tierFactsOf asso s)) = none ∧ siblingAttemptOpen s productId = false ∧
      res = ({ s with checkouts := s.checkouts ++ [⟨id, productId, .open_, s.now + PRODUCT_REQUEST_LIFETIME_MS,
        heldTierProductIdOf (tierFactsOf asso s), ⟨product, (tierFactsOf asso s).held⟩⟩] }, none) := by
  unfold openCheckout at h
  split at h
  · cases h
  · rename_i product hp
    simp only at h
    split at h
    · rename_i hc
      simp only [Bool.and_eq_true, Bool.not_eq_true', isNone_iff_eq_none] at hc
      exact ⟨product, hp, hc.1.1.1.1.1, hc.1.1.2, hc.1.2, (some.inj h).symm⟩
    · cases h

theorem closeCheckout_eq_some {status : ClosedStatus} (h : closeCheckout s id status = some res) :
    res = ({ s with checkouts := setStatus s.checkouts id status.status }, none) := by
  unfold closeCheckout at h
  split at h
  · cases h
  · split at h
    · exact (some.inj h).symm
    · cases h

theorem retag_eq_some {variantKey : Key} {dto : Edit} (h : retag asso s productId variantKey dto = some res) :
    ∃ current, tierById s.tiers productId = some current ∧ variantKeyFree s variantKey (some productId) = true ∧
      res = ({ s with
        tiers := saveTier s.tiers (retagged asso current variantKey dto)
        userTags := renameTags asso s.userTags (tagOf asso current.variantKey) (derive asso variantKey) }, none) := by
  unfold retag at h
  split at h
  · cases h
  · rename_i current hc
    simp only at h
    split at h
    · rename_i hg
      rw [Bool.and_eq_true] at hg
      exact ⟨current, hc, hg.1, (some.inj h).symm⟩
    · cases h

theorem createTier_eq_some (h : createTier asso s t = some res) :
    freshId s t.id = true ∧ variantKeyFree s t.variantKey none = true ∧
      res = ({ s with tiers := s.tiers ++ [{ t with grantedTagName := some (tagOf asso t.variantKey) }] }, none) := by
  unfold createTier at h
  split at h
  · rename_i hg
    rw [Bool.and_eq_true] at hg
    exact ⟨hg.1, hg.2, (some.inj h).symm⟩
  · cases h

theorem deleteTier_eq_some (h : deleteTier asso s productId = some res) :
    ∃ current, tierById s.tiers productId = some current ∧ s.tiers.length > 1 ∧
      holdsTier asso s current.variantKey = false ∧
      res = ({ s with tiers := s.tiers.filter fun t => t.id ≠ productId }, none) := by
  unfold deleteTier at h
  split at h
  · cases h
  · rename_i current hc
    split at h
    · rename_i hg
      simp only [Bool.and_eq_true, Bool.not_eq_true', decide_eq_true_eq] at hg
      exact ⟨current, hc, hg.1.1, hg.1.2, (some.inj h).symm⟩
    · cases h

theorem grantElsewhere_eq_some {tagName : String} {issuer : Option String} {expiresAt : Option Int}
    (h : perform asso s (.grantElsewhere tagName issuer expiresAt) = some res) :
    issuer ≠ some asso.id ∧ res =
      ({ s with userTags := s.userTags ++ [⟨tagName, issuer, expiresAt, none⟩] }, none) := by
  unfold perform at h
  simp only at h
  split at h
  · cases h
  · rename_i hc
    simp only [Bool.or_eq_true, decide_eq_true_eq, not_or] at hc
    exact ⟨hc.1, (some.inj h).symm⟩

theorem tick_eq_some {now : Int} (h : perform asso s (.tick now) = some res) :
    s.now ≤ now ∧ now < asso.year.expiresAt ∧ res = ({ s with now := now }, none) := by
  unfold perform at h
  simp only at h
  split at h
  · rename_i hc
    simp only [Bool.and_eq_true, decide_eq_true_eq] at hc
    exact ⟨hc.1, hc.2, (some.inj h).symm⟩
  · cases h

/-! ## What an event does to the tags and the catalogue -/

/-- The rows written are named by tiers that exist; or the catalogue changes, one tier at a time. -/
inductive Effect (asso : Association) (s s' : State) : Prop
  | rows (ht : s'.tiers = s.tiers) (hn : s.now ≤ s'.now) (hy : s'.now < asso.year.expiresAt)
      (hr : ∀ r ∈ s'.userTags, own asso r = true → (∃ u ∈ s.tiers, r.tagName = tagOf asso u.variantKey) ∨
        r ∈ s.userTags)
  | edit (hk : s'.tiers.map (·.variantKey) = s.tiers.map (·.variantKey)) (hi : s'.tiers.map (·.id) = s.tiers.map (·.id))
      (hn : s'.now = s.now) (hu : s'.userTags = s.userTags)
  | create (t : Tier) (ht : s'.tiers = s.tiers ++ [t]) (hid : t.id ∉ s.tiers.map (·.id))
      (hk : t.variantKey ∉ s.tiers.map (·.variantKey))
      (hp : Plain t.variantKey) (hn : s'.now = s.now) (hu : s'.userTags = s.userTags)
  | delete (t : Tier) (hm : t ∈ s.tiers) (ht : s'.tiers = s.tiers.filter fun u => u.id ≠ t.id)
      (hlen : s.tiers.length > 1)
      (hh : holdsTier asso s t.variantKey = false) (hn : s'.now = s.now) (hu : s'.userTags = s.userTags)
  | retag (t saved : Tier) (hm : t ∈ s.tiers) (hid : saved.id = t.id)
      (ht : s'.tiers = s.tiers.map fun u => if u.id = t.id then saved else u)
      (hfree : ∀ u ∈ s.tiers, u.id ≠ t.id → u.variantKey ≠ saved.variantKey) (hp : Plain saved.variantKey)
      (hn : s'.now = s.now) (hu : s'.userTags = renameTags asso s.userTags (tagOf asso t.variantKey)
        (derive asso saved.variantKey))

theorem Effect.same (hv : Valid asso s) (ht : s'.tiers = s.tiers) (hn : s'.now = s.now)
    (hu : ∀ r ∈ s'.userTags, r ∈ s.userTags) :
    Effect asso s s' :=
  .rows ht hn.ge (hn ▸ hv.in_year) fun r hr _ => .inr (hu r hr)

theorem plain_of_free {key : Key} {except : Option String} (hf : variantKeyFree s key except = true)
    (hne : key ≠ some "") : Plain key := by
  simp only [variantKeyFree, Bool.and_eq_true, Bool.not_eq_true'] at hf
  refine ⟨hne, fun v hv => ?_⟩
  rw [hv] at hf
  simpa using hf.1

theorem key_free {key : Key} {except : Option String} (hf : variantKeyFree s key except = true) (hu : u ∈ s.tiers)
    (hne : some u.id ≠ except) : u.variantKey ≠ key := by
  simp only [variantKeyFree, Bool.and_eq_true, List.all_eq_true, Bool.or_eq_true, decide_eq_true_eq] at hf
  exact (hf.2 u hu).resolve_left hne

theorem tierById_isSome {id : String} : (tierById tiers id).isSome = true ↔ id ∈ tiers.map (·.id) := by
  simp [tierById, find?_isSome]

variable {saved : Tier}

theorem saveTier_of_mem (hm : t ∈ tiers) (hid : saved.id = t.id) :
    saveTier tiers saved = tiers.map fun u => if u.id = t.id then saved else u := by
  rw [saveTier, if_pos, hid]
  rw [tierById_isSome, hid]
  exact List.mem_map_of_mem hm

theorem map_id_replace {id : String} (hid : saved.id = id) :
    (tiers.map fun u => if u.id = id then saved else u).map (·.id) = tiers.map (·.id) := by
  rw [List.map_map]
  refine map_congr_left fun u _ => ?_
  rw [Function.comp_apply]
  split
  · rw [hid]; exact Eq.symm (by assumption)
  · rfl

/-! ## The invariant -/

theorem isActive_mono {now now' : Int} (h : now ≤ now') (ha : isActive now' r = true) : isActive now r = true := by
  cases hr : r.expiresAt with
  | none => simp [isActive, hr]
  | some x =>
    simp only [isActive, hr, all_some, decide_eq_true_eq] at ha ⊢
    omega

theorem mem_renameTags {tags : List UserTag} {old : String} {tag : CotisationTag}
    (h : r ∈ renameTags asso tags old tag) :
    r.tagName = tag.tagName ∨ (r ∈ tags ∧ (own asso r = true → r.tagName ≠ old)) := by
  obtain ⟨q, hq, rfl⟩ := List.mem_map.mp h
  split
  · exact .inl rfl
  · rename_i hc
    simp only [Bool.and_eq_true, decide_eq_true_eq, not_and] at hc
    exact .inr ⟨hq, hc⟩

theorem mem_replace {id : String} (hu : u ∈ tiers) (hne : u.id ≠ id) :
    u ∈ tiers.map fun u => if u.id = id then saved else u :=
  List.mem_map.mpr ⟨u, hu, if_neg hne⟩

theorem saved_mem_replace (ht : t ∈ tiers) :
    saved ∈ tiers.map fun u => if u.id = t.id then saved else u :=
  List.mem_map.mpr ⟨t, ht, if_pos rfl⟩

theorem keys_nodup_replace (hk : (tiers.map (·.variantKey)).Nodup) (hi : (tiers.map (·.id)).Nodup)
    (hfree : ∀ u ∈ tiers, u.id ≠ t.id → u.variantKey ≠ saved.variantKey) :
    ((tiers.map fun u => if u.id = t.id then saved else u).map (·.variantKey)).Nodup := by
  rw [List.map_map]
  refine List.Nodup.map_on (fun x hx y hy he => ?_) hi.of_map
  simp only [Function.comp_apply] at he
  split at he <;> split at he
  · rename_i hxt hyt
    exact inj_on_of_nodup_map hi hx hy (hxt.trans hyt.symm)
  · rename_i hyt
    exact absurd he.symm (hfree y hy hyt)
  · rename_i hxt hyt
    exact absurd he (hfree x hx hxt)
  · exact inj_on_of_nodup_map hk hx hy he

theorem Effect.valid (he : Effect asso s s') (hv : Valid asso s) : Valid asso s' := by
  cases he with
  | rows ht hn hy hr =>
    refine ⟨ht ▸ hv.tiers_ne, ht ▸ hv.keys_nodup, ht ▸ hv.ids_nodup, fun t h =>
      hv.keys_plain t (ht ▸ h), hy, fun r hrm ho ha hns => ?_⟩
    rcases hr r hrm ho with ⟨u, hu, hname⟩ | hold
    · exact ⟨u.variantKey, hv.keys_plain u hu, hname⟩
    · exact hv.one_year r hold ho (isActive_mono hn ha) hns
  | edit hk hi hn hu =>
    refine ⟨fun h => hv.tiers_ne ?_, hk ▸ hv.keys_nodup, hi ▸ hv.ids_nodup, fun t ht => ?_, hn ▸ hv.in_year, ?_⟩
    · rw [h] at hi
      exact map_eq_nil_iff.mp hi.symm
    · have hm : t.variantKey ∈ s.tiers.map (·.variantKey) := hk ▸ List.mem_map_of_mem ht
      obtain ⟨u, hu, huk⟩ := List.mem_map.mp hm
      exact huk ▸ hv.keys_plain u hu
    · rw [hu, hn]; exact hv.one_year
  | create t ht hid hk hp hn hu =>
    refine ⟨by simp [ht], ?_, ?_, fun u hum => ?_, hn ▸ hv.in_year, ?_⟩
    · rw [ht, map_append]
      exact hv.keys_nodup.append (nodup_singleton _) (by simpa using hk)
    · rw [ht, map_append]
      exact hv.ids_nodup.append (nodup_singleton _) (by simpa using hid)
    · rw [ht] at hum
      rcases mem_append.mp hum with hum | hum
      · exact hv.keys_plain u hum
      · rw [mem_singleton.mp hum]
        exact hp
    · rw [hu, hn]; exact hv.one_year
  | delete t hm ht hlen hh hn hu =>
    refine ⟨fun hnil => ?_, ?_, ?_, fun u hum => hv.keys_plain u ?_, hn ▸ hv.in_year, ?_⟩
    · rw [ht, filter_eq_nil_iff] at hnil
      have hle := length_le_one_of_nodup hv.ids_nodup (a := t.id) fun x hx => by
        obtain ⟨u, hu, rfl⟩ := List.mem_map.mp hx
        simpa using hnil u hu
      rw [length_map] at hle
      omega
    · rw [ht]; exact hv.keys_nodup.sublist (filter_sublist.map _)
    · rw [ht]; exact hv.ids_nodup.sublist (filter_sublist.map _)
    · rw [ht] at hum
      exact mem_of_mem_filter hum
    · rw [hu, hn]; exact hv.one_year
  | retag t saved hm hid ht hfree hp hn hu =>
    refine ⟨?_, ?_, ?_, fun u hum => ?_, hn ▸ hv.in_year, fun r hr ho ha hns => ?_⟩
    · rw [ht]; exact ne_nil_of_mem (saved_mem_replace hm)
    · rw [ht]; exact keys_nodup_replace hv.keys_nodup hv.ids_nodup hfree
    · rw [ht, map_id_replace hid]; exact hv.ids_nodup
    · rw [ht] at hum
      obtain ⟨x, hx, rfl⟩ := List.mem_map.mp hum
      split
      · exact hp
      · exact hv.keys_plain x hx
    · rw [hu] at hr
      rcases mem_renameTags hr with hname | ⟨hold, -⟩
      · exact ⟨saved.variantKey, hp, hname⟩
      · exact hv.one_year r hold ho (hn ▸ ha) hns

/-- No event makes an orphan of an active tag. -/
theorem Effect.noOrphans (he : Effect asso s s') (hv : Valid asso s) (hno : NoOrphans asso s) : NoOrphans asso s' := by
  intro r hrm ho ha hns
  cases he with
  | rows ht hn hy hr =>
    rw [ht]
    rcases hr r hrm ho with ⟨u, hu, hname⟩ | hold
    · exact ⟨u, hu, by rw [hname]; exact linkedTo_tagName (hv.keys_plain u hu).1⟩
    · exact hno r hold ho (isActive_mono hn ha) hns
  | edit hk hi hn hu =>
    obtain ⟨u, hum, hl⟩ := hno r (hu ▸ hrm) ho (hn ▸ ha) hns
    have hm : u.variantKey ∈ s'.tiers.map (·.variantKey) := hk ▸ List.mem_map_of_mem hum
    obtain ⟨x, hx, hxk⟩ := List.mem_map.mp hm
    exact ⟨x, hx, hxk ▸ hl⟩
  | create t ht hid hk hp hn hu =>
    obtain ⟨u, hum, hl⟩ := hno r (hu ▸ hrm) ho (hn ▸ ha) hns
    exact ⟨u, ht ▸ mem_append_left _ hum, hl⟩
  | delete t hm ht hlen hh hn hu =>
    obtain ⟨u, hum, hl⟩ := hno r (hu ▸ hrm) ho (hn ▸ ha) hns
    refine ⟨u, ?_, hl⟩
    rw [ht, mem_filter, decide_eq_true_eq]
    refine ⟨hum, fun hid => ?_⟩
    -- the deleted tier has no active holder
    rw [inj_on_of_nodup_map hv.ids_nodup hum hm hid] at hl
    rw [holdsTier, List.any_eq_false] at hh
    exact hh r (hu ▸ hrm) (by simp [ho, hn ▸ ha, hl])
  | retag t saved hm hid ht hfree hp hn hu =>
    rw [hu] at hrm
    rw [ht]
    rcases mem_renameTags hrm with hname | ⟨hold, hne⟩
    · exact ⟨saved, saved_mem_replace hm, by rw [hname]; exact linkedTo_tagName hp.1⟩
    · obtain ⟨u, hum, hl⟩ := hno r hold ho (hn ▸ ha) hns
      refine ⟨u, mem_replace hum fun huid => ?_, hl⟩
      -- a row of the retagged tier has its old name, so it was renamed
      obtain ⟨k, hk, hname⟩ := hv.one_year r hold ho (hn ▸ ha) hns
      rw [inj_on_of_nodup_map hv.ids_nodup hum hm huid, hname] at hl
      have hkt : t.variantKey = k := (linkedTo_tagName_iff (hv.keys_plain t hm) hk).mp hl
      exact hne ho (by rw [hname, hkt])

/-! ## The attempts -/

/-- What an attempt carries from its opening: what it was sold over, and the id of that tier. -/
def Sold (c : Attempt) : Prop :=
  SoldOver c.opening.target c.opening.held ∧ c.opening.target.id = c.productId ∧
    c.heldTierProductId = c.opening.held.bind fun h => h.product.map (·.id)

/-- The open attempts of tiers that exist are of one tier. -/
def OneOpen (s : State) : Prop :=
  ∀ c ∈ s.checkouts, ∀ d ∈ s.checkouts, c.status = .open_ → d.status = .open_ →
    c.productId ∈ s.tiers.map (·.id) → d.productId ∈ s.tiers.map (·.id) → c.productId = d.productId

/-- `c` is `c0`, perhaps closed since. -/
def Later (c0 c : Attempt) : Prop :=
  c.productId = c0.productId ∧ c.heldTierProductId = c0.heldTierProductId ∧ c.opening = c0.opening ∧
    (c.status = .open_ → c0.status = .open_)

theorem Later.refl (c : Attempt) : Later c c := ⟨rfl, rfl, rfl, id⟩

theorem later_setStatus {checkouts : List Attempt} {status : CheckoutStatus} (hne : status ≠ .open_) {c : Attempt}
    (h : c ∈ setStatus checkouts id status) : ∃ c0 ∈ checkouts, Later c0 c := by
  obtain ⟨c0, hc0, rfl⟩ := List.mem_map.mp h
  refine ⟨c0, hc0, ?_⟩
  split
  · exact ⟨rfl, rfl, rfl, fun hs => absurd hs hne⟩
  · exact .refl c0

inductive AttemptEffect (asso : Association) (s s' : State) : Prop
  | kept (hc : ∀ c ∈ s'.checkouts, ∃ c0 ∈ s.checkouts, Later c0 c)
      (ht : ∀ c ∈ s.checkouts, c.productId ∈ s'.tiers.map (·.id) → c.productId ∈ s.tiers.map (·.id))
  | opened (c : Attempt) (hc : s'.checkouts = s.checkouts ++ [c]) (ht : s'.tiers = s.tiers) (hs : Sold c)
      (ho : NoOrphans asso s) (hopen : siblingAttemptOpen s c.productId = false)

theorem AttemptEffect.same (hc : s'.checkouts = s.checkouts)
    (ht : s'.tiers.map (·.id) = s.tiers.map (·.id)) : AttemptEffect asso s s' :=
  .kept (fun c h => ⟨c, hc ▸ h, .refl c⟩) fun _ _ h => ht ▸ h

theorem grantTier_checkouts {key : Key} {exp : Option Int} {sub : Option String}
    (h : grantTier asso s key exp sub = some s') :
    s'.checkouts = s.checkouts ∧ s'.tiers = s.tiers := by
  rw [grantTier_frame h]
  exact ⟨rfl, rfl⟩

theorem sold_of_open (hv : Valid asso s) {expiresAt : Int} {product : Tier}
    (hp : tierById s.tiers productId = some product)
      (hs : tierRefusal (relationOf product (tierFactsOf asso s)) = none) :
    Sold ⟨id, productId, .open_, expiresAt, heldTierProductIdOf (tierFactsOf asso s),
      ⟨product, (tierFactsOf asso s).held⟩⟩ := by
  have hsold := (relationOf_sold hs).2
  refine ⟨hsold, (tierById_eq_some hp).2, ?_⟩
  rcases hsold with hnone | ⟨t, a, b, ht, -⟩
  · simp [tierFactsOf, heldTierProductIdOf, hnone]
  · have hheld : (tierFactsOf asso s).held = some ⟨t.variantKey, some t⟩ := ht
    rw [hheld]
    exact heldTierProductIdOf_held hv.keys_nodup ht

theorem settlePaidCheckout_eq_some {k : Option Key} (h : settlePaidCheckout asso s id = some (s', k)) :
    ∃ row ∈ s.checkouts, row.id = id ∧ (∀ c ∈ s'.checkouts, ∃ c0 ∈ s.checkouts, Later c0 c) ∧
      (k = none ∧ s' = { s with checkouts := s'.checkouts } ∨
        ∃ product ∈ s.tiers, k = some product.variantKey ∧ settlementMayGrant asso s product row = true ∧
          ∃ s1, grantPurchaseTag asso s product = some s1 ∧ s' = { s1 with checkouts := s'.checkouts }) := by
  unfold settlePaidCheckout at h
  split at h
  · cases h
  · rename_i row hrow
    refine ⟨row, mem_of_find?_eq_some hrow, by simpa using find?_some hrow, ?_⟩
    split at h
    · cases h
      exact ⟨fun c hc => ⟨c, hc, .refl c⟩, .inl ⟨rfl, rfl⟩⟩
    · split at h
      · rename_i s1 key hg
        cases h
        obtain ⟨product, hp, -, rfl, hmay, hgrant⟩ := settledGrant_eq_some hg
        have hcheck := (grantTier_checkouts (grantPurchaseTag_eq_some hgrant)).1
        exact ⟨fun c hc => later_setStatus (by decide) (hcheck ▸ hc), .inr ⟨product, hp, rfl, hmay, s1, hgrant, rfl⟩⟩
      · cases h
        exact ⟨fun c hc => later_setStatus (by decide) hc, .inl ⟨rfl, rfl⟩⟩

/-! ## What an event does -/

variable {e : Event} {k : Option Key} {key : Key}

/-- The grant of an event is the one of `grantTier`, of a tier that exists. -/
structure Grants (asso : Association) (s : State) (e : Event) (s' : State) (key : Key) (exp : Option Int)
    (sub : Option String) : Prop where
  grant : ∃ s1, grantTier asso s key exp sub = some s1 ∧ s' = { s1 with checkouts := s'.checkouts, reads := s'.reads }
  ahead : expiryAhead s e = true → exp.all (s.now < ·) = true
  tier : ∃ u ∈ s.tiers, u.variantKey = key

structure Performed (asso : Association) (s : State) (e : Event) (s' : State) (k : Option Key) : Prop where
  effect : Effect asso s s'
  attempts : AttemptEffect asso s s'
  grants : ∀ key ∈ k, ∃ exp sub, Grants asso s e s' key exp sub

theorem Performed.same (hv : Valid asso s) (ht : s'.tiers = s.tiers) (hn : s'.now = s.now)
    (hc : s'.checkouts = s.checkouts)
    (hu : ∀ r ∈ s'.userTags, r ∈ s.userTags) : Performed asso s e s' none :=
  ⟨.same hv ht hn hu, .same hc (by rw [ht]), nofun⟩

theorem Grants.performed {exp : Option Int} {sub : Option String} (h : Grants asso s e s' key exp sub)
    (hv : Valid asso s)
    (hc : ∀ c ∈ s'.checkouts, ∃ c0 ∈ s.checkouts, Later c0 c) : Performed asso s e s' (some key) := by
  obtain ⟨s1, hg, hs'⟩ := h.grant
  obtain ⟨u, hu, huk⟩ := h.tier
  have hf := grantTier_frame hg
  have ht : s'.tiers = s.tiers := by rw [hs', hf]
  have hn : s'.now = s.now := by rw [hs', hf]
  refine ⟨.rows ht hn.ge (hn ▸ hv.in_year) fun r hr _ => ?_, .kept hc fun _ _ hm => ht ▸ hm, fun _ hk =>
    some.inj hk ▸ ⟨exp, sub, h⟩⟩
  rw [hs'] at hr
  exact (grantTier_rows hg hr).imp_left fun hname => ⟨u, hu, by rw [huk]; exact hname⟩

theorem performed (hv : Valid asso s) (hs : sound s e = true)
    (h : perform asso s e = some (s', k)) : Performed asso s e s' k := by
  cases e with
  | openCheckout id productId =>
    obtain ⟨product, hp, -, hrefusal, hopen, he⟩ := openCheckout_eq_some h
    cases he
    have ho := (relationOf_sold hrefusal).1
    exact ⟨.same hv rfl rfl fun _ hr => hr,
      .opened _ rfl rfl (sold_of_open hv hp hrefusal) ((noOrphans_iff hv.tiers_ne).mp ho) hopen, nofun⟩
  | closeCheckout id status =>
    cases closeCheckout_eq_some h
    exact ⟨.same hv rfl rfl fun _ hr =>
      hr, .kept (fun c hc => later_setStatus (by cases status <;> decide) hc) fun _ _ hc => hc, nofun⟩
  | settlePaidCheckout id =>
    obtain ⟨row, -, -, hc, ⟨rfl, hs'⟩ | ⟨product, hp, rfl, -, s1, hgrant, hs'⟩⟩ := settlePaidCheckout_eq_some h
    · rw [hs']
      exact ⟨.same hv rfl rfl fun _ hr => hr, .kept hc fun _ _ hm => hm, nofun⟩
    · have hreads : s'.reads = s1.reads := by rw [hs']
      refine Grants.performed ⟨⟨s1, grantPurchaseTag_eq_some hgrant, ?_⟩, fun _ =>
        derived_ahead hv _, product, hp, rfl⟩ hv hc
      rw [hreads]
      exact hs'
  | fulfillProductPurchase n =>
    simp only [perform, fulfillProductPurchase] at h
    split at h
    · cases h
    · rename_i product hp
      obtain ⟨s1, hs1, he⟩ := map_eq_some_iff.mp h
      cases he
      simp only [sound, hp, all_some] at hs
      obtain ⟨t, ht⟩ := isSome_iff_exists.mp hs
      rw [ht] at hs1 ⊢
      have hgrant := grantPurchaseTag_eq_some hs1
      refine Grants.performed ⟨⟨s1, hgrant, rfl⟩, fun _ => derived_ahead hv _, t, (tierById_eq_some ht).1, rfl⟩ hv
        fun c hc => ?_
      exact ⟨c, (grantTier_checkouts hgrant).1 ▸ hc, .refl c⟩
  | grantCotisant r =>
    simp only [perform] at h
    split at h
    · rename_i s1 key hg
      cases h
      obtain ⟨hu, hgrant⟩ := grantCotisantIn_eq_some hv.tiers_ne hg
      refine Grants.performed ⟨⟨s', hgrant, rfl⟩, fun he => ?_, hu⟩ hv fun c hc =>
        ⟨c, (grantTier_checkouts hgrant).1 ▸ hc, .refl c⟩
      simp only [expiryAhead] at he
      cases ho : r.expiresAtOverride with
      | none => exact derived_ahead hv _
      | some x =>
        rw [ho] at he
        exact he
    · cases h
      exact .same hv rfl rfl rfl fun _ hr => hr
    · cases h
      exact .same hv rfl rfl rfl fun _ hr => hr
  | revoke tagName =>
    cases h
    exact .same hv rfl rfl rfl fun _ hr => mem_of_mem_filter hr
  | grantElsewhere tagName issuer expiresAt =>
    obtain ⟨hne, he⟩ := grantElsewhere_eq_some h
    cases he
    refine ⟨.rows rfl le_rfl hv.in_year fun r hr ho => .inr ?_, .same rfl rfl, nofun⟩
    rcases mem_append.mp hr with hr | hr
    · exact hr
    · rw [mem_singleton.mp hr, own, decide_eq_true_eq] at ho
      exact absurd ho hne
  | readProduct productId =>
    obtain ⟨t, -, he⟩ := map_eq_some_iff.mp h
    cases he
    exact .same hv rfl rfl rfl fun _ hr => hr
  | saveProduct n dto =>
    obtain ⟨product, hp, he⟩ := map_eq_some_iff.mp h
    cases he
    simp only [sound, hp, all_some, Option.any_eq_true, decide_eq_true_eq] at hs
    obtain ⟨t, ht, htk⟩ := hs
    have hm := tierById_eq_some ht
    have hid : (applyEdits product dto).id = t.id := hm.2.symm
    have hsave := saveTier_of_mem hm.1 hid
    have hids : (saveTier s.tiers (applyEdits product dto)).map (·.id) = s.tiers.map (·.id) := by
      rw [hsave, map_id_replace hid]
    refine ⟨.edit ?_ hids rfl rfl, .same rfl hids, nofun⟩
    -- the copy has the key the row has, so the keys stay
    rw [hsave, List.map_map]
    refine map_congr_left fun u hu => ?_
    rw [Function.comp_apply]
    split
    · rename_i hut
      rw [inj_on_of_nodup_map hv.ids_nodup hu hm.1 hut, htk]
      rfl
    · rfl
  | retag productId variantKey dto =>
    obtain ⟨current, hc, hfree, he⟩ := retag_eq_some h
    cases he
    have hm := tierById_eq_some hc
    have hid : (retagged asso current variantKey dto).id = current.id := rfl
    have hsave := saveTier_of_mem hm.1 hid
    simp only [sound, decide_eq_true_eq] at hs
    refine ⟨.retag current (retagged asso current variantKey dto) hm.1 hid hsave (fun u hu hne => ?_)
      (plain_of_free hfree hs) rfl rfl,
      .same rfl (by rw [hsave, map_id_replace hid]), nofun⟩
    exact key_free hfree hu fun hid => hne ((some.inj hid).trans hm.2.symm)
  | createTier t =>
    obtain ⟨hid, hfree, he⟩ := createTier_eq_some h
    cases he
    simp only [sound, decide_eq_true_eq] at hs
    simp only [freshId, Bool.and_eq_true, isNone_iff_eq_none, List.all_eq_true, decide_eq_true_eq] at hid
    refine ⟨.create _ rfl (fun hm => ?_) (fun hk => ?_) (plain_of_free hfree hs) rfl rfl,
      .kept (fun c hc => ⟨c, hc, .refl c⟩) fun c hc hm => ?_, nofun⟩
    · have hsome := tierById_isSome.mpr hm
      rw [hid.1] at hsome
      cases hsome
    · obtain ⟨u, hu, huk⟩ := List.mem_map.mp hk
      exact key_free hfree hu (some_ne_none _) huk
    · -- a new row's id is no attempt's product
      rw [map_append, mem_append] at hm
      exact hm.resolve_right fun hnew => (hid.2 c hc).1 (mem_singleton.mp hnew)
  | deleteTier productId =>
    obtain ⟨current, hc, hlen, hh, he⟩ := deleteTier_eq_some h
    cases he
    have hm := tierById_eq_some hc
    exact ⟨.delete current hm.1 (by rw [hm.2]) hlen hh rfl rfl,
      .kept (fun c hc => ⟨c, hc, .refl c⟩) fun c _ hm => (filter_sublist.map _).subset hm, nofun⟩
  | eraseAccount =>
    cases h
    exact .same hv rfl rfl rfl nofun
  | tick now =>
    obtain ⟨hle, hlt, he⟩ := tick_eq_some h
    cases he
    exact ⟨.rows rfl hle hlt fun r hr _ => .inr hr, .same rfl rfl, nofun⟩

theorem no_sibling_open (h : siblingAttemptOpen s productId = false) {d : Attempt} (hd : d ∈ s.checkouts)
    (ho : d.status = .open_) (ht : d.productId ∈ s.tiers.map (·.id)) : d.productId = productId := by
  rw [siblingAttemptOpen, List.any_eq_false] at h
  by_contra hne
  exact h d hd (by simp [ho, hne, tierById_isSome.mpr ht])

structure Inv (asso : Association) (s : State) : Prop where
  valid : Valid asso s
  orphans : s.checkouts ≠ [] → NoOrphans asso s
  sold : ∀ c ∈ s.checkouts, Sold c
  oneOpen : OneOpen s

theorem Later.sold {c0 c : Attempt} (hl : Later c0 c) (h : Sold c0) : Sold c := by
  obtain ⟨hp, hf, ho, -⟩ := hl
  rw [Sold, hp, hf, ho]
  exact h

theorem inv_step (hi : Inv asso s) (hs : sound s e = true) (h : step asso s e = some s') : Inv asso s' := by
  obtain ⟨⟨s1, k⟩, hp, rfl⟩ := map_eq_some_iff.mp h
  have hperf := performed hi.valid hs hp
  have heff := hperf.effect
  refine ⟨heff.valid hi.valid, ?_, ?_, ?_⟩
  all_goals
    cases hperf.attempts
  case refine_1.kept hc ht =>
    intro hne
    obtain ⟨c, hcm⟩ := exists_mem_of_ne_nil _ hne
    obtain ⟨c0, hc0, -⟩ := hc c hcm
    exact heff.noOrphans hi.valid (hi.orphans (ne_nil_of_mem hc0))
  case refine_1.opened c hc ht hsold ho hopen =>
    exact fun _ => heff.noOrphans hi.valid ho
  case refine_2.kept hc ht =>
    intro c hcm
    obtain ⟨c0, hc0, hl⟩ := hc c hcm
    exact hl.sold (hi.sold c0 hc0)
  case refine_2.opened c hc ht hsold ho hopen =>
    intro d hd
    rw [hc] at hd
    rcases mem_append.mp hd with hd | hd
    · exact hi.sold d hd
    · rw [mem_singleton.mp hd]
      exact hsold
  case refine_3.kept hc ht =>
    intro c hcm d hdm hco hdo hct hdt
    obtain ⟨c0, hc0, hcp, -, -, hcs⟩ := hc c hcm
    obtain ⟨d0, hd0, hdp, -, -, hds⟩ := hc d hdm
    rw [hcp] at hct ⊢
    rw [hdp] at hdt ⊢
    exact hi.oneOpen c0 hc0 d0 hd0 (hcs hco) (hds hdo) (ht c0 hc0 hct) (ht d0 hd0 hdt)
  case refine_3.opened c hc ht hsold ho hopen =>
    -- every open attempt is of the tier just opened, or none was open
    rw [OneOpen, hc, ht]
    intro x hx y hy hxo hyo hxt hyt
    rcases mem_append.mp hx with hx | hx <;> rcases mem_append.mp hy with hy | hy
    · exact hi.oneOpen x hx y hy hxo hyo hxt hyt
    · rw [mem_singleton.mp hy]
      exact no_sibling_open hopen hx hxo hxt
    · rw [mem_singleton.mp hx]
      exact (no_sibling_open hopen hy hyo hyt).symm
    · rw [mem_singleton.mp hx, mem_singleton.mp hy]

theorem inv_init (hv : Valid asso s) (hc : s.checkouts = []) : Inv asso s :=
  ⟨hv, fun hne => absurd hc hne, fun c h => by simp [hc] at h, fun c h => by simp [hc] at h⟩

theorem inv_of_reach (h : (machine asso).ReachBy (fun s e => sound s e = true) s) : Inv asso s := by
  refine h.invariant (I := Inv asso) ?_ ?_
  · intro s h0
    exact inv_init h0.1 h0.2
  · intro s e s' hi hs hstep
    exact inv_step hi hs hstep

/-! ## What a settlement may revoke -/

theorem heldKeys_of_active (hv : Valid asso s) (ht : t ∈ s.tiers) (hr : r ∈ s.userTags)
    (ho : own asso r = true) (ha : isActive s.now r = true) (hn : r.tagName = tagOf asso t.variantKey) :
    t.variantKey ∈ (tierFactsOf asso s).heldKeys :=
  (mem_heldKeys hv.tiers_ne).mpr ⟨⟨t, ht, rfl⟩, hasActiveTag_iff.mpr ⟨r, hr, hn, ho, ha⟩⟩

theorem frozen_of_mayGrant {product : Tier} {row : Attempt} (h : settlementMayGrant asso s product row = true) {k : Key}
    (hk : k ∈ (tierFactsOf asso s).heldKeys) : ∃ f ∈ s.tiers, row.heldTierProductId = some f.id ∧ f.variantKey = k := by
  rw [settlementMayGrant, settlementGrants_iff] at h
  have hf := h.2.2 k hk
  rw [mem_toList, map_eq_some_iff] at hf
  obtain ⟨f, hf, hfk⟩ := hf
  obtain ⟨id, hid, hfind⟩ := bind_eq_some_iff.mp hf
  have hm := tierById_eq_some hfind
  exact ⟨f, hm.1, by rw [hid, hm.2], hfk⟩

/-- The tier `row` was sold over, as its opening ranked it: still the frozen one, and strictly cheaper. -/
structure RankedOver (row : Attempt) (f : Tier) : Prop where
  frozen : row.heldTierProductId = some f.id
  target : row.opening.target.id = row.productId
  cheaper : ∃ t heldPrice targetPrice, row.opening.held = some ⟨t.variantKey, some t⟩ ∧ t.id = f.id ∧
    rankPriceCents (some t) = some heldPrice ∧ rankPriceCents (some row.opening.target) = some targetPrice ∧
      heldPrice < targetPrice

theorem Sold.rankedOver {row : Attempt} {f : Tier} (h : Sold row)
    (hf : row.heldTierProductId = some f.id) : RankedOver row f := by
  obtain ⟨hover, htarget, hid⟩ := h
  rw [hf] at hid
  refine ⟨hf, htarget, ?_⟩
  rcases hover with hnone | ⟨t, a, b, ht, ha, hb, hab⟩
  · rw [hnone] at hid
    cases hid
  · rw [ht] at hid
    exact ⟨t, a, b, ht, (some.inj hid).symm, ha, hb, hab⟩

theorem settlement_revokes (hi : Inv asso s) (h : perform asso s (.settlePaidCheckout id) = some (s', k))
    (hr : r ∈ s.userTags) (ha : isActive s.now r = true) (hg : Gone r s'.userTags) :
    ∃ row ∈ s.checkouts, row.id = id ∧ ∃ f ∈ s.tiers, r.tagName = tagOf asso f.variantKey ∧ RankedOver row f := by
  obtain ⟨row, hrow, hid, -, ⟨-, hs'⟩ | ⟨product, -, -, hmay, s1, hgrant, hs'⟩⟩ := settlePaidCheckout_eq_some h
  · rw [hs'] at hg
    exact absurd ⟨r, hr, rfl, rfl⟩ hg
  · rw [hs'] at hg
    obtain ⟨hown, t, ht, -, hname⟩ := grantTier_revokes hi.valid.tiers_ne (hi.orphans (ne_nil_of_mem hrow))
      (grantPurchaseTag_eq_some hgrant) hr ha hg
    have hheld := heldKeys_of_active hi.valid ht hr hown ha hname
    obtain ⟨f, hf, hfid, hfk⟩ := frozen_of_mayGrant hmay hheld
    exact ⟨row, hrow, hid, f, hf, by rw [hname, hfk], (hi.sold row hrow).rankedOver hfid⟩

theorem grant_reads_back (hi : Inv asso s) (hs : sound s e = true) (he : expiryAhead s e = true)
    (h : perform asso s e = some (s', some key)) : ReadsAs asso s' key := by
  obtain ⟨exp, sub, hg⟩ := (performed hi.valid hs h).grants key rfl
  obtain ⟨s1, hgrant, hs'⟩ := hg.grant
  obtain ⟨u, hu, huk⟩ := hg.tier
  have hreads := grantTier_readsAs hi.valid hgrant hu huk (hg.ahead he)
  rw [hs']
  exact hreads

/-- Along every run: what a settlement revokes, what a grant reads back as, and the one open tier. -/
theorem tier_replaces_only_the_ranked_one (asso : Association) {s : State}
    (h : (machine asso).ReachBy (fun s e => sound s e = true) s) :
    (∀ id s' k, perform asso s (.settlePaidCheckout id) = some (s', k) →
      ∀ r ∈ s.userTags, isActive s.now r = true → Gone r s'.userTags →
        ∃ row ∈ s.checkouts, row.id = id ∧ ∃ f ∈ s.tiers, r.tagName = tagOf asso f.variantKey ∧ RankedOver row f) ∧
    (∀ e s' key, sound s e = true → expiryAhead s e = true → perform asso s e = some (s', some key) →
      ReadsAs asso s' key) ∧
    OneOpen s := by
  have hi := inv_of_reach h
  refine ⟨fun id s' k hp r hr ha hg => settlement_revokes hi hp hr ha hg, fun e s' key hs he hp => ?_, hi.oneOpen⟩
  exact grant_reads_back hi hs he hp

end Rows

/-! ## Runs -/

def bde : Association := ⟨"bde-id", "bde", .dated, ⟨2026, 1000000000, by decide⟩⟩

def fixedTier (id : String) (key : Key) (cents : Int) : Tier := ⟨id, key, some cents, none, false, some (tagOf bde key)⟩

def start : State :=
  ⟨0, [fixedTier "base" none 1000, fixedTier "sans" (some "sans-alcool") 2000,
    fixedTier "avec" (some "avec-alcool") 3000], [], [], [], false⟩

theorem start_valid : Valid bde start where
  tiers_ne := by decide
  keys_nodup := by decide
  ids_nodup := by decide
  keys_plain := by
    intro t ht
    simp only [start, mem_cons, not_mem_nil, or_false] at ht
    rcases ht with rfl | rfl | rfl
    · exact ⟨by unfold Named; decide, fun v hv => by cases hv⟩
    · exact ⟨by unfold Named; decide, fun v hv => by cases hv; decide⟩
    · exact ⟨by unfold Named; decide, fun v hv => by cases hv; decide⟩
  in_year := by decide
  one_year := fun t ht => by cases ht

def addCotisant (key : Key) : Event := .grantCotisant ⟨.key key, .manual, none, none, none⟩

def noEdit : Edit := ⟨none, none, none⟩

/-- The base tier is added by hand, and the dearest is opened over it while its price changes. -/
def rise : List Event :=
  [addCotisant none, .openCheckout 0 "avec", .readProduct "base", .saveProduct 0 ⟨some (some 9000), none, none⟩]

def risen : State := ((machine bde).runBy sound start rise).getD start

def settled : State := ((perform bde risen (.settlePaidCheckout 0)).map (·.1)).getD start

theorem risen_reach : (machine bde).ReachBy (fun s e => sound s e = true) risen := by
  have hinit : (machine bde).init start := ⟨start_valid, rfl⟩
  exact Machine.reachBy_of_run rise hinit (by decide)

/-- The settlement takes the base tier away, ranked at 10 euros against 30 at the opening and dearer since. -/
theorem rise_replaces_base :
    settled.userTags.map (·.tagName) = ["cotisant:bde-avec-alcool-2026-2027"] ∧
      ReadsAs bde settled (some "avec-alcool") ∧
    (∃ row ∈ risen.checkouts, row.id = 0 ∧ ∃ f ∈ risen.tiers, "cotisant:bde-2026-2027" = tagOf bde f.variantKey ∧
      RankedOver row f) ∧
    OneOpen risen := by
  obtain ⟨hrevoke, hread, hone⟩ := tier_replaces_only_the_ranked_one bde risen_reach
  have hp : perform bde risen (.settlePaidCheckout 0) = some (settled, some (some "avec-alcool")) := by decide
  refine ⟨by decide, hread _ _ _ rfl rfl hp, ?_, hone⟩
  exact hrevoke 0 settled _ hp ⟨"cotisant:bde-2026-2027", some "bde-id", some 1000000000, none⟩ (by decide) (by decide)
    (by unfold Gone; decide)

/-! ## Runs outside the conditions -/

/-- The tier granted by the last event of a run, and the tiers read as held after it. -/
def grantedAndHeld (es : List Event) (e : Event) : Option (Option Key × List Key) :=
  (((machine bde).run start es).bind fun s => perform bde s e).map fun r => (r.2, (tierFactsOf bde r.1).heldKeys)

def rowsAround (es : List Event) (e : Event) : Option (List (String × Option Int) × List (String × Option Int)) :=
  ((machine bde).run start es).bind fun s =>
    (perform bde s e).map fun r =>
      (s.userTags.map fun t => (t.tagName, t.expiresAt), r.1.userTags.map fun t => (t.tagName, t.expiresAt))

def pastGrant : Event := .grantCotisant ⟨.tag "cotisant:bde-sans-alcool-2026-2027", .manual, some 0, none, none⟩

def expiredSibling : List Event :=
  [.grantCotisant ⟨.tag "cotisant:bde-sans-alcool-2026-2027", .manual, some 10, none, none⟩, .tick 20,
    .openCheckout 0 "avec"]

/-- The tier opened over is revoked, then added again, before the payment lands. -/
def obtainedAgain : List Event :=
  [addCotisant none, .openCheckout 0 "avec", .revoke "cotisant:bde-2026-2027", addCotisant none]

/-- Opened with nothing held; the middle tier is then added, and retagged while an edit has its old copy in hand. -/
def staleSave : List Event :=
  [.openCheckout 0 "avec", .readProduct "sans", addCotisant (some "sans-alcool"), .retag "sans" (some "sans") noEdit,
    .saveProduct 0 noEdit]

def emptyKey : List Event := [.createTier (fixedTier "vide" (some "") 500)]

def deletedSale : List Event := [.readProduct "sans", .deleteTier "sans"]

/-- A tier granted and not held; an expired tag, a tier obtained again and one never ranked taken away. -/
theorem tiers_replaced_or_unread :
    Valid bde start ∧ start.checkouts = [] ∧
    grantedAndHeld [] pastGrant = some (some (some "sans-alcool"), []) ∧
    rowsAround expiredSibling (.settlePaidCheckout 0) =
      some ([("cotisant:bde-sans-alcool-2026-2027", some 10)],
        [("cotisant:bde-avec-alcool-2026-2027", some 1000000000)]) ∧
    rowsAround obtainedAgain (.settlePaidCheckout 0) =
      some ([("cotisant:bde-2026-2027", some 1000000000)], [("cotisant:bde-avec-alcool-2026-2027", some 1000000000)]) ∧
    rowsAround staleSave (.settlePaidCheckout 0) =
      some ([("cotisant:bde-sans-2026-2027", some 1000000000)],
        [("cotisant:bde-avec-alcool-2026-2027", some 1000000000)]) ∧
    grantedAndHeld emptyKey (addCotisant (some "")) = some (some (some ""), []) ∧
    grantedAndHeld deletedSale (.fulfillProductPurchase 0) = some (some (some "sans-alcool"), []) := by
  refine ⟨start_valid, rfl, ?_, ?_, ?_, ?_, ?_, ?_⟩ <;> decide

end Canari.Associations.TierRuns
