/-
  Canari.Forms.Audience — who a person is, and which group of a criterion they fall in
  (social-service pricing/audience.ts).

  One predicate serves what a submitter pays, which questions they see and whether they may
  submit. A criterion is a partition: every dimension ends with the generated "everyone else"
  group, so `bucketFor` always answers.
-/

import Mathlib.Data.List.Basic

namespace Canari.Forms.Fill

def OTHERS_BUCKET_ID : String := "_others"

/-- Who the person is: what the identity provider and the association say of them. -/
structure Profile where
  promo : Option Int
  formation : Option String
  /-- The tiers held, `none` being the base one. -/
  cotisationTiers : List (Option String)

structure PricingFacts extends Profile where
  /-- The option ids selected, by question. -/
  answers : String → Option (List String)

structure CotisationTest where
  anyTier : Bool
  variantKeys : List (Option String)
  deriving DecidableEq

structure AnswerTest where
  questionId : String
  optionIds : List String
  deriving DecidableEq

structure AudienceCondition where
  cotisation : Option CotisationTest := none
  notCotisation : Option CotisationTest := none
  promo : Option (List Int) := none
  formation : Option (List String) := none
  answer : Option AnswerTest := none
  deriving DecidableEq

inductive AudienceCriterion where
  | notCotisation | cotisation | promo | formation | answer

structure Bucket (α : Type) where
  id : String
  label : String
  accepts : α
  deriving DecidableEq

inductive Dimension where
  | cotisation (id : String) (buckets : List (Bucket CotisationTest))
  | promo (id : String) (buckets : List (Bucket (List Int)))
  | formation (id : String) (buckets : List (Bucket (List String)))
  | answer (id : String) (questionId : String) (buckets : List (Bucket (List String)))
  deriving DecidableEq

def matchesCotisation (bucket : CotisationTest) (facts : Profile) : Bool :=
  if facts.cotisationTiers.isEmpty then false
  else if bucket.anyTier then true
  else facts.cotisationTiers.any fun held => bucket.variantKeys.contains held

def matchesPromo (values : List Int) (facts : Profile) : Bool := facts.promo.any values.contains

def matchesFormation (values : List String) (facts : Profile) : Bool := facts.formation.any values.contains

def matchesAnswer (questionId : String) (optionIds : List String) (facts : PricingFacts) : Bool :=
  match facts.answers questionId with
  | some selected => selected.any optionIds.contains
  | none => false

def firstBucket {α : Type} (buckets : List (Bucket α)) (claims : α → Bool) : String :=
  match buckets.find? fun b => claims b.accepts with
  | some b => b.id
  | none => OTHERS_BUCKET_ID

def bucketFor (facts : PricingFacts) : Dimension → String
  | .cotisation _ buckets => firstBucket buckets fun test => matchesCotisation test facts.toProfile
  | .promo _ buckets => firstBucket buckets fun values => matchesPromo values facts.toProfile
  | .formation _ buckets => firstBucket buckets fun values => matchesFormation values facts.toProfile
  | .answer _ questionId buckets => firstBucket buckets fun values => matchesAnswer questionId values facts

/-- The first criterion the submitter does not satisfy, `notCotisation` asked first. -/
def failedCriterion (condition : AudienceCondition) (facts : PricingFacts) : Option AudienceCriterion :=
  if condition.notCotisation.any fun test => matchesCotisation test facts.toProfile then some .notCotisation
  else if condition.cotisation.any fun test => !matchesCotisation test facts.toProfile then some .cotisation
  else if condition.promo.any fun values => !matchesPromo values facts.toProfile then some .promo
  else if condition.formation.any fun values => !matchesFormation values facts.toProfile then some .formation
  else if condition.answer.any fun a => !matchesAnswer a.questionId a.optionIds facts then some .answer
  else none

def matchesCondition (condition : AudienceCondition) (facts : PricingFacts) : Bool :=
  (failedCriterion condition facts).isNone

def Dimension.id : Dimension → String
  | .cotisation id _ | .promo id _ | .formation id _ | .answer id _ _ => id

def Dimension.bucketIds : Dimension → List String
  | .cotisation _ buckets => buckets.map (·.id)
  | .promo _ buckets => buckets.map (·.id)
  | .formation _ buckets => buckets.map (·.id)
  | .answer _ _ buckets => buckets.map (·.id)

def pairsOf {α : Type} : List α → List (α × α)
  | [] => []
  | a :: rest => rest.map (Prod.mk a) ++ pairsOf rest

def clashesOf {α : Type} (buckets : List (Bucket α)) (overlaps : α → α → Bool) : List (String × String) :=
  (pairsOf buckets).filterMap fun (a, b) => if overlaps a.accepts b.accepts then some (a.id, b.id) else none

def findOverlappingBuckets : Dimension → List (String × String)
  | .cotisation _ buckets => clashesOf buckets fun a b => a.anyTier || b.anyTier || a.variantKeys.any b.variantKeys.contains
  | .promo _ buckets => clashesOf buckets fun a b => a.any b.contains
  | .formation _ buckets => clashesOf buckets fun a b => a.any b.contains
  | .answer _ _ buckets => clashesOf buckets fun a b => a.any b.contains

/-! ## The profile half and the answer half -/

section

variable {condition : AudienceCondition} {facts : PricingFacts}

/-- The condition without its answer: what the server decides of the person alone. -/
def AudienceCondition.profileOnly (condition : AudienceCondition) : AudienceCondition := { condition with answer := none }

theorem matchesCondition_split : matchesCondition condition facts =
    (matchesCondition condition.profileOnly facts &&
      condition.answer.all fun a => matchesAnswer a.questionId a.optionIds facts) := by
  unfold matchesCondition failedCriterion AudienceCondition.profileOnly
  cases condition.answer with
  | none => simp
  | some a =>
    split_ifs <;> simp_all

theorem bucketFor_answers {d : Dimension} (hd : ∀ id q b, d ≠ .answer id q b) (answers : String → Option (List String)) :
    bucketFor { facts with answers } d = bucketFor facts d := by
  cases d with
  | cotisation id b => rfl
  | promo id b => rfl
  | formation id b => rfl
  | answer id q b => exact absurd rfl (hd id q b)

theorem firstBucket_mem {α : Type} (buckets : List (Bucket α)) (claims : α → Bool) :
    firstBucket buckets claims ∈ buckets.map (·.id) ++ [OTHERS_BUCKET_ID] := by
  unfold firstBucket
  split
  · next b hb => exact List.mem_append_left _ (List.mem_map_of_mem (List.mem_of_find?_eq_some hb))
  · exact List.mem_append_right _ (List.mem_singleton_self _)

theorem bucketFor_mem (facts : PricingFacts) (d : Dimension) : bucketFor facts d ∈ d.bucketIds ++ [OTHERS_BUCKET_ID] := by
  unfold bucketFor Dimension.bucketIds
  cases d <;> exact firstBucket_mem _ _

end

end Canari.Forms.Fill
