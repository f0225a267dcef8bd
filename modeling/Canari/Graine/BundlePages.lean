/-
  Canari.Graine.BundlePages — one answer to a seed request, cut into bundle messages under a
  byte budget (`frontend/src/lib/utils/graine/bundlePages.ts`).

  An answer that fits, or has nothing to cut, is one bundle without page numbers. Any other is
  cut into pages, the seeds by salon and then the declines, each entry to the last page that has
  room for it. What a page costs is counted, not encoded: an envelope measured once at its widest,
  and for each entry its tag, its length and its body. The message that travels is the encoding of
  the bundle inside an `AppMessage`, whose own length prefix grows with the page.

  Seeds are objects: `answer.seeds` holds references, and the `Map` the answer is added up from
  has one entry for each object, however often it is listed. `toWireSeed` makes the caller a new
  object for each seed, so none is.

  Proved: `answers_are_cut_without_loss`. An answer with no entry at all travels past a budget
  its envelope does not fit in: `an_empty_answer_is_past_a_small_budget`.
-/

import Canari.Lib.JsText
import Canari.Lib.NextFit
import Canari.Lib.ProtoWriter
import Mathlib.Data.List.Dedup

namespace Canari.Graine.BundlePages

open Lib List
open Lib.Utf16
open Lib.ProtoWriter

/-! ## The messages (`libs/proto/canari.proto`) -/

structure GraineMsg where
  channelId : Option JsString
  sessionId : Option JsString
  seed : Option Bytes
  firstIndex : Option Nat
  createdAt : Option Int
  version : Option Nat
  minterUserId : Option JsString
  minterDeviceId : Option JsString
  signingPublicKey : Option Bytes
  endorsement : Option Bytes

/-- `seeds` holds the objects by reference. -/
structure GraineBundleMsg where
  workspaceId : JsString
  requestId : JsString
  seeds : List Nat
  missingSessionIds : List JsString
  truncated : Option Bool
  holdsNothing : Option Bool
  pageIndex : Option Nat
  pageCount : Option Nat
  deriving DecidableEq

section Encode

variable (R : Runtime)

def encodeGraine (msg : GraineMsg) : Bytes :=
  stringField R 0x0A msg.channelId ++ stringField R 0x12 msg.sessionId ++ bytesField R 0x1A msg.seed ++
    uint32Field R 0x20 msg.firstIndex ++ int64Field R 0x28 msg.createdAt ++ uint32Field R 0x30 msg.version ++
    stringField R 0x3A msg.minterUserId ++ stringField R 0x42 msg.minterDeviceId ++
      bytesField R 0x4A msg.signingPublicKey ++
    bytesField R 0x52 msg.endorsement

variable (objects : Nat → GraineMsg)

def encodeBundle (bundle : GraineBundleMsg) : Bytes :=
  stringField R 0x0A (some bundle.workspaceId) ++ stringField R 0x12 (some bundle.requestId) ++
    repeatedField 0x1A (fun seed => encodeGraine R (objects seed)) bundle.seeds ++ boolField R 0x20 bundle.truncated ++
    repeatedField 0x2A R.utf8 bundle.missingSessionIds ++ boolField R 0x30 bundle.holdsNothing ++
    uint32Field R 0x38 bundle.pageIndex ++ uint32Field R 0x40 bundle.pageCount

/-- `encodeAppMessage(mkGraineBundle(bundle))`. -/
def encodeAppMessage (bundle : GraineBundleMsg) : Bytes := uint32 0x62 ++ delimited (encodeBundle R objects bundle)

end Encode

/-! ## Cutting an answer -/

structure GraineAnswer where
  objects : Nat → GraineMsg
  workspaceId : JsString
  requestId : JsString
  seeds : List Nat
  missing : List JsString
  truncated : Bool
  holdsNothing : Bool

/-- `localeCompare`, of which the language promises a consistent order. -/
structure Collation where
  localeCompare : JsString → JsString → Int
  total : ∀ a b, localeCompare a b ≤ 0 ∨ localeCompare b a ≤ 0
  trans : ∀ a b c, localeCompare a b ≤ 0 → localeCompare b c ≤ 0 → localeCompare a c ≤ 0

/-- `while (rest > 0) { bytes++; rest >>>= 7; }`, of a 32-bit number. -/
def varintLoop : Nat → Nat → Nat → Nat
  | 0, bytes, _ => bytes
  | fuel + 1, bytes, rest => if rest > 0 then varintLoop fuel (bytes + 1) (rest >>> 7) else bytes

/-- `n >>> 7` takes the low 32 bits, so the loop ends within five turns. -/
def varintBytes (n : Nat) : Nat := varintLoop 5 1 ((n % 2 ^ 32) >>> 7)

def entryBytes (bodyBytes : Nat) : Nat := 1 + varintBytes bodyBytes + bodyBytes

structure Page where
  seeds : List Nat
  missing : List JsString
  bytes : Nat

structure Pages where
  earlier : List Page
  page : Page

def Pages.all (p : Pages) : List Page := p.earlier ++ [p.page]

def place (envelope budget : Nat) (p : Pages) (bytes : Nat) : Pages :=
  let empty := p.page.seeds.isEmpty && p.page.missing.isEmpty
  let p := if !empty && decide (p.page.bytes + bytes > budget) then ⟨p.earlier ++ [p.page], ⟨[], [], envelope⟩⟩ else p
  { p with page := { p.page with bytes := p.page.bytes + bytes } }

section Cut

variable (R : Runtime) (C : Collation) (answer : GraineAnswer)

def envelopeBytes : Nat :=
  (encodeAppMessage R answer.objects
    ⟨answer.workspaceId, answer.requestId, [], [], some true, some answer.holdsNothing, some 0xffffffff,
      some 0xffffffff⟩).length + 3

def seedCost (seed : Nat) : Nat := entryBytes (encodeGraine R (answer.objects seed)).length

def missingCost (id : JsString) : Nat := entryBytes (utf8Of id).length

/-- What the whole answer costs; `seedCost` is a `Map` by object. -/
def total : Nat :=
  envelopeBytes R answer + (answer.seeds.dedup.map (seedCost R answer)).sum + (answer.missing.map missingCost).sum

def salonOf (seed : Nat) : JsString := (answer.objects seed).channelId.getD []

/-- `[...answer.seeds].sort(…)`: sorting is stable. -/
def bySalon : List Nat := answer.seeds.insertionSort fun a b => C.localeCompare (salonOf answer a)
    (salonOf answer b) ≤ 0

def placeSeed (budget : Nat) (p : Pages) (seed : Nat) : Pages :=
  let p := place (envelopeBytes R answer) budget p (seedCost R answer seed)
  { p with page := { p.page with seeds := p.page.seeds ++ [seed] } }

def placeMissing (budget : Nat) (p : Pages) (id : JsString) : Pages :=
  let p := place (envelopeBytes R answer) budget p (missingCost id)
  { p with page := { p.page with missing := p.page.missing ++ [id] } }

def cut (budget : Nat) : Pages :=
  let p := (bySalon C answer).foldl (placeSeed R answer budget) ⟨[], ⟨[], [], envelopeBytes R answer⟩⟩
  answer.missing.foldl (placeMissing R answer budget) p

def pageGraineBundle (budget : Nat) : List GraineBundleMsg :=
  if total R answer ≤ budget ∨ answer.seeds.length + answer.missing.length ≤ 1 then
    [⟨answer.workspaceId, answer.requestId, answer.seeds, answer.missing, some answer.truncated,
      if answer.holdsNothing then some true else none, none, none⟩]
  else
    let pages := (cut R C answer budget).all
    pages.mapIdx fun index page =>
      ⟨answer.workspaceId, answer.requestId, page.seeds, page.missing,
        some (answer.truncated && index == pages.length - 1), none,
        some index, some pages.length⟩

end Cut

/-! ## What a cut is to be -/

def entriesOf (page : GraineBundleMsg) : Nat := page.seeds.length + page.missingSessionIds.length

/-- Two salons `localeCompare` does not tell apart. -/
def Ties (C : Collation) (a b : JsString) : Prop := C.localeCompare a b ≤ 0 ∧ C.localeCompare b a ≤ 0

instance (C : Collation) (a b : JsString) : Decidable (Ties C a b) := inferInstanceAs (Decidable (_ ∧ _))

structure OneBundle (answer : GraineAnswer) (page : GraineBundleMsg) : Prop where
  seeds : page.seeds = answer.seeds
  missing : page.missingSessionIds = answer.missing
  unnumbered : page.pageIndex = none ∧ page.pageCount = none

structure Paged (C : Collation) (answer : GraineAnswer) (pages : List GraineBundleMsg) : Prop where
  seeds : (pages.flatMap (·.seeds)).Perm answer.seeds
  sorted : (pages.flatMap (·.seeds)).Pairwise fun a b => C.localeCompare (salonOf answer a) (salonOf answer b) ≤ 0
  stable : ∀ salon, (pages.flatMap (·.seeds)).filter (fun s => Ties C salon (salonOf answer s)) =
    answer.seeds.filter fun s => Ties C salon (salonOf answer s)
  missing : pages.flatMap (·.missingSessionIds) = answer.missing
  indices : pages.map (·.pageIndex) = (List.range pages.length).map some
  counts : ∀ page ∈ pages, page.pageCount = some pages.length
  nonempty : ∀ page ∈ pages, 1 ≤ entriesOf page

/-- Nothing lost and nothing twice, and no page of several entries past the budget. The bound of a
    single bundle is for seeds listed once. -/
structure CutWell (R : Runtime) (C : Collation) (answer : GraineAnswer) (budget : Nat)
    (pages : List GraineBundleMsg) : Prop where
  conserved : (∃ page, pages = [page] ∧ OneBundle answer page) ∨ Paged C answer pages
  ids : ∀ page ∈ pages, page.workspaceId = answer.workspaceId ∧ page.requestId = answer.requestId
  within : budget < 2 ^ 28 → ∀ page ∈ pages, 2 ≤ entriesOf page → (page.pageCount = none → answer.seeds.Nodup) →
    (encodeAppMessage R answer.objects page).length ≤ budget
  truncated : pages.map (·.truncated) = List.replicate (pages.length - 1) (some false) ++ [some answer.truncated]

/-! ## What is counted is what is written -/

theorem varintLoop_eq {extra fuel bytes n : Nat} (h : n < 128 ^ (extra + 1)) (hf : extra + 1 ≤ fuel) :
    varintLoop fuel (bytes + 1) (n >>> 7) = bytes + (varintOf extra n).length := by
  obtain ⟨fuel, rfl⟩ : ∃ f, fuel = f + 1 := ⟨fuel - 1, by omega⟩
  have hshift : n >>> 7 = n / 128 := Nat.shiftRight_eq_div_pow n 7
  induction extra generalizing fuel bytes n with
  | zero =>
    have : n / 128 = 0 := Nat.div_eq_of_lt (by simpa using h)
    simp [varintLoop, varintOf, hshift, this]
  | succ extra ih =>
    rw [varintOf, varintLoop, hshift]
    by_cases hn : n < 128
    · have : n / 128 = 0 := Nat.div_eq_of_lt hn
      simp [hn, this]
    · have hpos : n / 128 > 0 := Nat.div_pos (by omega) (by decide)
      have hdiv : n / 128 < 128 ^ (extra + 1) := by
        rw [Nat.div_lt_iff_lt_mul (by decide)]
        exact h
      obtain ⟨fuel, rfl⟩ : ∃ f, fuel = f + 1 := ⟨fuel - 1, by omega⟩
      rw [if_pos hpos, if_neg hn, ih hdiv fuel (by omega) (Nat.shiftRight_eq_div_pow _ 7)]
      simp only [length_cons]
      omega

theorem varintBytes_eq (n : Nat) : varintBytes n = (uint32 n).length := by
  have h : n % 2 ^ 32 < 128 ^ (4 + 1) := Nat.lt_of_lt_of_le (Nat.mod_lt n (by decide)) (by decide)
  simpa [varintBytes, uint32] using @varintLoop_eq 4 5 0 _ h (Nat.le_refl 5)

theorem entryBytes_eq {tag : Nat} (htag : (uint32 tag).length = 1) (body : Bytes) :
    (uint32 tag).length + (delimited body).length = entryBytes body.length := by
  rw [htag, delimited, length_append, entryBytes, varintBytes_eq, Nat.add_assoc]

section Sizes

variable (R : Runtime) (answer : GraineAnswer)

def costOf (seeds : List Nat) (missing : List JsString) : Nat :=
  (seeds.map (seedCost R answer)).sum + (missing.map missingCost).sum

theorem length_seeds (seeds : List Nat) :
    (repeatedField 0x1A (fun seed => encodeGraine R (answer.objects seed)) seeds).length =
      (seeds.map (seedCost R answer)).sum := by
  rw [length_repeatedField]
  refine congrArg List.sum (map_congr_left ?_)
  intro seed _
  rw [entryBytes_eq (by decide), seedCost]

theorem length_missing (missing : List JsString) :
    (repeatedField 0x2A R.utf8 missing).length = (missing.map missingCost).sum := by
  rw [length_repeatedField]
  refine congrArg List.sum (map_congr_left ?_)
  intro id _
  rw [entryBytes_eq (by decide), R.length_utf8, missingCost]

theorem length_boolField_le {tag : Nat} (htag : (uint32 tag).length = 1) (b : Option Bool) :
    (boolField R tag b).length ≤ (boolField R tag (some true)).length := by
  have hwide : (boolField R tag (some true)).length = 2 := by simp [boolField, field, htag]
  rw [hwide]
  cases b with
  | none => simp [boolField, field]
  | some b =>
    refine Nat.le_trans (length_field_le R tag _ _ b) ?_
    simp [htag]

theorem length_uint32Field_le {tag : Nat} (htag : (uint32 tag).length = 1) (n : Option Nat) :
    (uint32Field R tag n).length ≤ (uint32Field R tag (some 0xffffffff)).length := by
  have hfive : (uint32 0xffffffff).length = 5 := by decide
  have hwide : (uint32Field R tag (some 0xffffffff)).length = 6 := by simp [uint32Field, field, htag, hfive]
  cases n with
  | none => simp [uint32Field, field]
  | some n =>
    refine Nat.le_trans (length_field_le R tag _ _ n) ?_
    have := length_uint32_le n
    omega

def envelopeOf (answer : GraineAnswer) : GraineBundleMsg :=
  ⟨answer.workspaceId, answer.requestId, [], [], some true, some answer.holdsNothing, some 0xffffffff, some 0xffffffff⟩

theorem length_encodeBundle_le {page : GraineBundleMsg} (hw : page.workspaceId = answer.workspaceId)
    (hq : page.requestId = answer.requestId)
    (hh : page.holdsNothing = none ∨ page.holdsNothing = some answer.holdsNothing) :
    (encodeBundle R answer.objects page).length ≤
      (encodeBundle R answer.objects
        (envelopeOf answer)).length + costOf R answer page.seeds page.missingSessionIds := by
  have ht : (boolField R 0x20 page.truncated).length ≤ _ := length_boolField_le R (by decide) _
  have hi : (uint32Field R 0x38 page.pageIndex).length ≤ _ := length_uint32Field_le R (by decide) _
  have hc : (uint32Field R 0x40 page.pageCount).length ≤ _ := length_uint32Field_le R (by decide) _
  have hn : (boolField R 0x30 page.holdsNothing).length ≤ (boolField R 0x30 (some answer.holdsNothing)).length := by
    rcases hh with hh | hh <;> rw [hh]
    simp [boolField, field]
  unfold encodeBundle envelopeOf costOf
  simp only [length_append, hw, hq, length_seeds, length_missing, map_nil, sum_nil]
  omega

/-- An entry's cost is never less than what it adds, and the envelope leaves room for the length
    prefix of any page under 2²⁸ bytes. -/
theorem length_encodeAppMessage_le {page : GraineBundleMsg} (hw : page.workspaceId = answer.workspaceId)
    (hq : page.requestId = answer.requestId)
    (hh : page.holdsNothing = none ∨ page.holdsNothing = some answer.holdsNothing)
    {budget : Nat} (hb : budget < 2 ^ 28)
    (hcost : envelopeBytes R answer + costOf R answer page.seeds page.missingSessionIds ≤ budget) :
    (encodeAppMessage R answer.objects page).length ≤ budget := by
  have hbody := length_encodeBundle_le R answer hw hq hh
  have htag : (uint32 0x62).length = 1 := by decide
  have hlen : ∀ bundle, (encodeAppMessage R answer.objects bundle).length =
      1 + (uint32 (encodeBundle R answer.objects bundle).length).length +
        (encodeBundle R answer.objects bundle).length := by
    intro bundle
    rw [encodeAppMessage, length_append, htag, delimited, length_append, Nat.add_assoc]
  have henv : envelopeBytes R answer = (encodeAppMessage R answer.objects (envelopeOf answer)).length + 3 := rfl
  have hone := one_le_length_uint32 (encodeBundle R answer.objects (envelopeOf answer)).length
  rw [henv, hlen] at hcost
  have hfour : (uint32 (encodeBundle R answer.objects page).length).length ≤ 4 := length_uint32_le_four (by omega)
  rw [hlen]
  omega

end Sizes

/-! ## The pages are bins -/

abbrev Entry := Nat ⊕ JsString

section Bins

variable (R : Runtime) (answer : GraineAnswer)

def entryCost : Entry → Nat
  | .inl seed => seedCost R answer seed
  | .inr id => missingCost id

variable (bin : List Entry)

def pageOf : Page :=
  ⟨bin.filterMap Sum.getLeft?, bin.filterMap Sum.getRight?,
    NextFit.size (entryCost R answer) (envelopeBytes R answer) bin⟩

def pagesOf (b : NextFit.Bins Entry) : Pages := ⟨b.closed.map (pageOf R answer), pageOf R answer b.last⟩

theorem isEmpty_pageOf :
    ((pageOf R answer bin).seeds.isEmpty && (pageOf R answer bin).missing.isEmpty) = bin.isEmpty := by
  cases bin with
  | nil => rfl
  | cons entry rest => cases entry <;> simp [pageOf]

theorem place_pagesOf (budget : Nat) (b : NextFit.Bins Entry) (entry : Entry) :
    place (envelopeBytes R answer) budget (pagesOf R answer b) (entryCost R answer entry) =
      let put := NextFit.put (entryCost R answer) (envelopeBytes R answer) budget b entry
      ⟨put.closed.map (pageOf R answer),
        { pageOf R answer put.last.dropLast with bytes := (pageOf R answer put.last).bytes }⟩ := by
  have hempty := isEmpty_pageOf R answer b.last
  unfold place NextFit.put
  simp only [pagesOf, hempty]
  have hbytes : (pageOf R answer b.last).bytes = NextFit.size (entryCost R answer)
    (envelopeBytes R answer) b.last := rfl
  simp only [hbytes, gt_iff_lt]
  split
  · simp [pageOf, NextFit.size]
  · simp [pageOf, NextFit.size_concat]

def placeEntry (budget : Nat) (p : Pages) : Entry → Pages
  | .inl seed => placeSeed R answer budget p seed
  | .inr id => placeMissing R answer budget p id

theorem placeEntry_pagesOf (budget : Nat) (b : NextFit.Bins Entry) (entry : Entry) :
    placeEntry R answer budget (pagesOf R answer b) entry =
      pagesOf R answer (NextFit.put (entryCost R answer) (envelopeBytes R answer) budget b entry) := by
  have h := place_pagesOf R answer budget b entry
  have hput := NextFit.put_cases (entryCost R answer) (envelopeBytes R answer) budget b entry
  cases entry with
  | inl seed =>
    simp only [entryCost] at h
    rw [placeEntry, placeSeed, h]
    rcases hput with ⟨-, hput⟩ | ⟨-, hput⟩
    · simp [hput, pagesOf, pageOf]
    · simp [hput, pagesOf, pageOf]
  | inr id =>
    simp only [entryCost] at h
    rw [placeEntry, placeMissing, h]
    rcases hput with ⟨-, hput⟩ | ⟨-, hput⟩
    · simp [hput, pagesOf, pageOf]
    · simp [hput, pagesOf, pageOf]

theorem foldl_placeEntry (budget : Nat) (entries : List Entry) : ∀ b : NextFit.Bins Entry,
    entries.foldl (placeEntry R answer budget) (pagesOf R answer b) =
      pagesOf R answer (entries.foldl (NextFit.put (entryCost R answer) (envelopeBytes R answer) budget) b) := by
  induction entries with
  | nil => intro b; simp
  | cons entry rest ih =>
    intro b
    rw [foldl_cons, foldl_cons, placeEntry_pagesOf, ih]

variable (C : Collation)

def entriesInOrder : List Entry := (bySalon C answer).map .inl ++ answer.missing.map .inr

def binsOf (budget : Nat) : NextFit.Bins Entry :=
  NextFit.pack (entryCost R answer) (envelopeBytes R answer) budget (entriesInOrder answer C)

theorem cut_eq (budget : Nat) : cut R C answer budget = pagesOf R answer (binsOf R answer C budget) := by
  have hstart : (⟨[], ⟨[], [], envelopeBytes R answer⟩⟩ : Pages) = pagesOf R answer ⟨[], []⟩ := by
    simp [pagesOf, pageOf, NextFit.size]
  have hplaced : cut R C answer budget = (entriesInOrder answer C).foldl (placeEntry R answer budget) ⟨[],
    ⟨[], [], envelopeBytes R answer⟩⟩ := by
    rw [entriesInOrder, foldl_append, foldl_map, foldl_map]
    rfl
  rw [hplaced, hstart, foldl_placeEntry, binsOf, NextFit.pack]

theorem all_cut (budget : Nat) : (cut R C answer budget).all = (binsOf R answer C budget).all.map
    (pageOf R answer) := by
  rw [cut_eq]
  simp [Pages.all, pagesOf, NextFit.Bins.all]

theorem flatten_bins (budget : Nat) : (binsOf R answer C budget).all.flatten = entriesInOrder answer C :=
    NextFit.flatten_pack _

theorem length_pageOf : (pageOf R answer bin).seeds.length + (pageOf R answer bin).missing.length = bin.length := by
  induction bin with
  | nil => rfl
  | cons entry rest ih =>
    simp only [pageOf] at ih ⊢
    cases entry <;> simp only [filterMap_cons, Sum.getLeft?, Sum.getRight?, length_cons] <;> omega

theorem costOf_pageOf :
    envelopeBytes R answer + costOf R answer (pageOf R answer bin).seeds (pageOf R answer bin).missing =
      NextFit.size (entryCost R answer) (envelopeBytes R answer) bin := by
  congr 1
  induction bin with
  | nil => rfl
  | cons entry rest ih =>
    simp only [pageOf, costOf] at ih ⊢
    cases entry <;>
      simp only [filterMap_cons, Sum.getLeft?, Sum.getRight?, map_cons, sum_cons, entryCost] <;> omega

theorem filterMap_bins {β : Type} (f : Entry → Option β) (budget : Nat) :
    (binsOf R answer C budget).all.flatMap (List.filterMap f) = (entriesInOrder answer C).filterMap f := by
  rw [← flatten_bins R answer C budget, filterMap_flatten, flatMap_def]

theorem seeds_bins (budget : Nat) : (cut R C answer budget).all.flatMap (·.seeds) = bySalon C answer := by
  rw [all_cut, flatMap_map]
  refine (filterMap_bins R answer C Sum.getLeft? budget).trans ?_
  simp [entriesInOrder, filterMap_map, Function.comp_def]

theorem missing_bins (budget : Nat) : (cut R C answer budget).all.flatMap (·.missing) = answer.missing := by
  rw [all_cut, flatMap_map]
  refine (filterMap_bins R answer C Sum.getRight? budget).trans ?_
  simp [entriesInOrder, filterMap_map, Function.comp_def]

theorem page_cut {budget : Nat} {page : Page} (hpage : page ∈ (cut R C answer budget).all) :
    (2 ≤ page.seeds.length + page.missing.length →
      envelopeBytes R answer + costOf R answer page.seeds page.missing ≤ budget) ∧
    (2 ≤ answer.seeds.length + answer.missing.length → 1 ≤ page.seeds.length + page.missing.length) := by
  rw [all_cut] at hpage
  obtain ⟨bin, hbin, rfl⟩ := mem_map.mp hpage
  rw [length_pageOf, costOf_pageOf]
  refine ⟨(NextFit.fitting_pack _).fits bin hbin, ?_⟩
  intro htwo
  have hne : entriesInOrder answer C ≠ [] := by
    intro hnil
    have hlen := congrArg List.length hnil
    simp only [entriesInOrder, bySalon, length_append, length_map, length_insertionSort, length_nil] at hlen
    omega
  exact length_pos_of_ne_nil (NextFit.ne_nil_of_mem_pack hne hbin)

end Bins

/-! ## Sorting by salon -/

section Salon

variable (C : Collation) (answer : GraineAnswer)

theorem sorted_bySalon : (bySalon C answer).Pairwise fun a b => C.localeCompare (salonOf answer a)
    (salonOf answer b) ≤ 0 := by
  have total : Std.Total fun a b => C.localeCompare (salonOf answer a) (salonOf answer b) ≤ 0 :=
    ⟨fun _ _ => C.total _ _⟩
  have trans : IsTrans Nat fun a b => C.localeCompare (salonOf answer a) (salonOf answer b) ≤ 0 :=
    ⟨fun _ _ _ => C.trans _ _ _⟩
  exact pairwise_insertionSort _ _

theorem stable_bySalon (salon : JsString) : (bySalon C answer).filter (fun s => Ties C salon (salonOf answer s)) =
    answer.seeds.filter fun s => Ties C salon (salonOf answer s) := by
  have hpair : (answer.seeds.filter fun s => Ties C salon (salonOf answer s)).Pairwise
      fun a b => C.localeCompare (salonOf answer a) (salonOf answer b) ≤ 0 := by
    refine pairwise_of_forall_mem_list ?_
    intro a ha b hb
    simp only [mem_filter, decide_eq_true_eq] at ha hb
    exact C.trans _ _ _ ha.2.2 hb.2.1
  have hsub : (answer.seeds.filter fun s => Ties C salon (salonOf answer s)).Sublist (bySalon C answer) :=
    sublist_insertionSort hpair filter_sublist
  have hsub' := hsub.filter fun s => decide (Ties C salon (salonOf answer s))
  rw [filter_filter] at hsub'
  simp only [Bool.and_self] at hsub'
  refine (hsub'.eq_of_length ?_).symm
  exact ((perm_insertionSort _ answer.seeds).filter _).length_eq.symm

end Salon

/-! ## What is cut -/

section Result

variable (R : Runtime) (C : Collation) (answer : GraineAnswer)

def numbered (answer : GraineAnswer) (count index : Nat) (page : Page) : GraineBundleMsg :=
  ⟨answer.workspaceId, answer.requestId, page.seeds, page.missing, some (answer.truncated && index == count - 1), none,
    some index, some count⟩

def numberedPages (answer : GraineAnswer)
    (pages : List Page) : List GraineBundleMsg := pages.mapIdx (numbered answer pages.length)

theorem flatMap_numberedPages {β : Type} (pages : List Page) (f : GraineBundleMsg → List β) (g : Page → List β)
    (h : ∀ count index page, f (numbered answer count index page) = g page) :
    (numberedPages answer pages).flatMap f = pages.flatMap g := by
  have hmap : (numberedPages answer pages).map f = pages.map g := by
    apply ext_getElem?
    intro i
    simp only [numberedPages, getElem?_map, getElem?_mapIdx, Option.map_map]
    congr 1
    funext page
    exact h _ _ _
  rw [flatMap_def, flatMap_def, hmap]

theorem truncated_numberedPages {pages : List Page} (h : pages ≠ []) : (numberedPages answer pages).map (·.truncated) =
    List.replicate ((numberedPages answer pages).length - 1) (some false) ++ [some answer.truncated] := by
  have hpos : 0 < pages.length := length_pos_of_ne_nil h
  apply ext_getElem
  · simp [numberedPages]
    omega
  · intro i hi hi'
    simp only [numberedPages, length_map, length_mapIdx] at hi
    simp only [numberedPages, getElem_map, getElem_mapIdx, numbered, length_mapIdx]
    by_cases hlast : i = pages.length - 1
    · subst hlast
      simp
    · rw [getElem_append_left (by simp; omega)]
      simp [hlast]

theorem paged (budget : Nat) (htwo : 2 ≤ answer.seeds.length + answer.missing.length) :
    Paged C answer (numberedPages answer (cut R C answer budget).all) := by
  have hseeds : (numberedPages answer (cut R C answer budget).all).flatMap (·.seeds) = bySalon C answer :=
    (flatMap_numberedPages answer _ _ (·.seeds) fun _ _ _ => rfl).trans (seeds_bins R answer C budget)
  have hmissing : (numberedPages answer (cut R C answer budget).all).flatMap (·.missingSessionIds) = answer.missing :=
    (flatMap_numberedPages answer _ _ (·.missing) fun _ _ _ => rfl).trans (missing_bins R answer C budget)
  refine ⟨?_, ?_, ?_, hmissing, ?_, ?_, ?_⟩
  · rw [hseeds]
    exact perm_insertionSort _ _
  · rw [hseeds]
    exact sorted_bySalon C answer
  · rw [hseeds]
    exact stable_bySalon C answer
  · apply ext_getElem
    · simp [numberedPages]
    · intro i hi hi'
      simp [numberedPages, numbered]
  · intro page hpage
    obtain ⟨i, hi, rfl⟩ := mem_mapIdx.mp hpage
    simp [numberedPages, numbered]
  · intro page hpage
    obtain ⟨i, hi, rfl⟩ := mem_mapIdx.mp hpage
    exact (page_cut R answer C (getElem_mem hi)).2 htwo

/-- Whatever is asked for and whatever fits on a page, the answer is cut without loss. -/
theorem answers_are_cut_without_loss (budget : Nat) :
    CutWell R C answer budget (pageGraineBundle R C answer budget) := by
  unfold pageGraineBundle
  split
  · rename_i hone
    refine ⟨Or.inl ⟨_, rfl, rfl, rfl, rfl, rfl⟩, by simp, ?_, rfl⟩
    intro hb page hpage htwo hnodup
    rw [mem_singleton.mp hpage] at htwo hnodup ⊢
    have htotal : total R answer ≤ budget := by
      rcases hone with hone | hone
      · exact hone
      · simp only [entriesOf] at htwo
        omega
    refine length_encodeAppMessage_le R answer rfl rfl ?_ hb ?_
    · cases answer.holdsNothing <;> simp
    · rw [total, dedup_eq_self.mpr (hnodup rfl), Nat.add_assoc] at htotal
      exact htotal
  · have htwo : 2 ≤ answer.seeds.length + answer.missing.length := by omega
    have hne : (cut R C answer budget).all ≠ [] := by simp [Pages.all]
    refine ⟨Or.inr (paged R C answer budget htwo), ?_, ?_, truncated_numberedPages answer hne⟩
    · intro page hpage
      obtain ⟨i, hi, rfl⟩ := mem_mapIdx.mp hpage
      exact ⟨rfl, rfl⟩
    · intro hb page hpage hentries _
      obtain ⟨i, hi, rfl⟩ := mem_mapIdx.mp hpage
      exact length_encodeAppMessage_le R answer rfl rfl (Or.inl rfl) hb
        ((page_cut R answer C (getElem_mem hi)).1 hentries)

end Result

/-! ## Runs -/

def runtime : Runtime := ⟨utf8Of, false, fun _ => rfl⟩

def byUnits : Collation where
  localeCompare a b := if JsText.le a b then 0 else 1
  total a b := by
    rcases JsText.le_total a b with h | h <;> unfold JsText.Le at h <;> simp [h]
  trans a b c := by
    have hle : ∀ x y : JsString, (if JsText.le x y then (0 : Int) else 1) ≤ 0 ↔ JsText.Le x y := by
      intro x y
      unfold JsText.Le
      cases JsText.le x y <;> simp
    rw [hle, hle, hle]
    exact JsText.le_trans

def holdingNothing : GraineAnswer where
  objects _ := ⟨none, none, none, none, none, none, none, none, none, none⟩
  workspaceId := JsText.text "w"
  requestId := JsText.text "r"
  seeds := []
  missing := []
  truncated := false
  holdsNothing := true

/-- An answer with nothing to cut goes out whatever the budget: it is neither within it nor a single entry. -/
theorem an_empty_answer_is_past_a_small_budget : ¬ ∀ (R : Runtime) (C : Collation) (answer : GraineAnswer)
    (budget : Nat),
    budget < 2 ^ 28 → ∀ page ∈ pageGraineBundle R C answer budget,
      entriesOf page = 1 ∨ (encodeAppMessage R answer.objects page).length ≤ budget := by
  intro h
  have hpage := h runtime byUnits holdingNothing 5 (by decide)
    ⟨JsText.text "w", JsText.text "r", [], [], some false, some true, none, none⟩ (by decide)
  revert hpage
  decide

end Canari.Graine.BundlePages
