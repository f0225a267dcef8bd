/-
  Canari.Graine.DepartureCommitter — who commits a departure the actor cannot
  (`frontend/src/lib/utils/graine/departureCommitter.ts`: `windowOffset`, `electionWindow`,
  `electDepartureCommitter`; `mls-client/leafIdentity.ts`).

  Every receiver of a departure runs the election on its own: the leaves of its tree in
  canonical form, without the departed and the excluded users, sorted, rotated by a hash of the
  departure, cut to four; the first of them the roster reports online is elected. The order and
  the spelling of the leaves and the order of the rows do not enter, so the receivers agree
  (`election_agrees`). A roster with a row that carries no per-device presence elects nobody,
  even with a leaf of the window online in another row (`no_presence_elects_nobody`).

  Strings are lists of UTF-16 units: `sort` compares these, and the hash takes the first unit of
  each code point.
-/

import Canari.Lib.JsText
import Canari.Lib.JsMap
import Mathlib.Data.List.Rotate

namespace Canari.Graine.DepartureCommitter

open Lib List Option
open Lib.Utf16 (JsString isHigh isLow)
open Lib.JsText (text decimal sort)

/-! ## Leaf identities -/

/-- `:` -/
def colon : UInt16 := 0x3a

variable (identity : JsString)

def isMalformed : Bool := decide (1 < identity.count colon)

/-- `replace(/[A-Z]/g, (c) => c.toLowerCase())`, on one unit. -/
def lower (u : UInt16) : UInt16 := if 0x41 ≤ u.toNat ∧ u.toNat ≤ 0x5a then u + 0x20 else u

def canonicalUserId (userId : JsString) : JsString := userId.map lower

def canonicalIdentity : Option JsString :=
  if isMalformed identity then none
  else match identity.idxOf? colon with
    | none => none
    | some i =>
      if i = 0 ∨ i = identity.length - 1 then none
      else some (canonicalUserId (identity.take i) ++ colon :: identity.drop (i + 1))

/-- A device identity names its user, and so does the legacy credential without a colon. -/
def canonicalUserOf : Option JsString :=
  if identity ≠ [] ∧ colon ∉ identity then some (canonicalUserId identity)
  else (canonicalIdentity identity).map fun canonical => canonical.take (canonical.idxOf colon)

def userIdOfLeaf : JsString := (canonicalUserOf identity).getD []

def deviceIdOfLeaf : JsString :=
  if isMalformed identity then []
  else match identity.idxOf? colon with
    | none => []
    | some i => identity.drop (i + 1)

/-! ## The election -/

/-- The first unit of each code point: what `charCodeAt(0)` reads in a `for … of`. -/
def leads : JsString → List UInt16
  | hi :: lo :: rest => if isHigh hi && isLow lo then hi :: leads rest else hi :: leads (lo :: rest)
  | [u] => [u]
  | [] => []

def fnv (units : List UInt16) : UInt32 := units.foldl (fun hash u => (hash ^^^ u.toUInt32) * 0x01000193) 0x811c9dc5

def windowOffset (departedUserId : JsString) (epoch leafCount : Nat) : Nat :=
  if leafCount = 0 then 0
  else (fnv (leads (canonicalUserId departedUserId ++ text "|" ++ decimal epoch))).toNat % leafCount

def electionWindowSize : Nat := 4

variable (leafIdentities : List JsString)

def eligible (departedUserId : JsString) (excludedUserIds : List JsString) : List JsString :=
  let excluded := (departedUserId :: excludedUserIds).map canonicalUserId
  sort ((leafIdentities.filterMap canonicalIdentity).filter fun key => !excluded.contains (userIdOfLeaf key)).eraseDups

def electionWindow (departedUserId : JsString) (epoch : Nat) (excludedUserIds : List JsString) : List JsString :=
  let sorted := eligible leafIdentities departedUserId excludedUserIds
  let start := windowOffset departedUserId epoch sorted.length
  (sorted.drop start ++ sorted.take start).take electionWindowSize

structure PresenceRow where
  userId : JsString
  /-- Absent on a roster without per-device presence. -/
  onlineDevices : Option (List JsString)
  deriving DecidableEq

def onlineOf : List PresenceRow → JsMap JsString (List JsString) → Option (JsMap JsString (List JsString))
  | [], online => some online
  | row :: rows, online =>
    match row.onlineDevices with
    | none => none
    | some devices => onlineOf rows (online.set (canonicalUserId row.userId) devices)

def electDepartureCommitter (rosterRows : List PresenceRow) (departedUserId : JsString) (epoch : Nat)
    (excludedUserIds : List JsString) : Option JsString :=
  match onlineOf rosterRows JsMap.empty with
  | none => none
  | some online =>
    (electionWindow leafIdentities departedUserId epoch excludedUserIds).find? fun key =>
      (online.get (userIdOfLeaf key)).any fun devices => devices.contains (deviceIdOfLeaf key)

/-! ## Canonical identities -/

theorem toNat_add_of_upper {u : UInt16} (h : 0x41 ≤ u.toNat ∧ u.toNat ≤ 0x5a) : (u + 0x20).toNat = u.toNat + 0x20 := by
  have h32 : (0x20 : UInt16).toNat = 0x20 := rfl
  rw [UInt16.toNat_add]
  omega

theorem lower_lower (u : UInt16) : lower (lower u) = lower u := by
  by_cases h : 0x41 ≤ u.toNat ∧ u.toNat ≤ 0x5a
  · have hu := toNat_add_of_upper h
    rw [lower, lower, if_pos h, if_neg (by omega)]
  · rw [lower, lower, if_neg h, if_neg h]

theorem lower_eq_colon {u : UInt16} : lower u = colon ↔ u = colon := by
  by_cases h : 0x41 ≤ u.toNat ∧ u.toNat ≤ 0x5a
  · have hu := toNat_add_of_upper h
    have hc : colon.toNat = 0x3a := rfl
    rw [lower, if_pos h, ← UInt16.toNat_inj, ← UInt16.toNat_inj]
    omega
  · rw [lower, if_neg h]

theorem canonicalUserId_idem (userId : JsString) :
    canonicalUserId (canonicalUserId userId) = canonicalUserId userId := by
  simp only [canonicalUserId, List.map_map]
  exact map_congr_left fun u _ => lower_lower u

theorem colon_mem_canonicalUserId {userId : JsString} : colon ∈ canonicalUserId userId ↔ colon ∈ userId := by
  simp [canonicalUserId, lower_eq_colon]

theorem idxOf?_colon {user : JsString} (h : colon ∉ user) (device : JsString) :
    (user ++ colon :: device).idxOf? colon = some user.length := by
  induction user with
  | nil => simp [idxOf?_cons]
  | cons u user ih =>
    rw [mem_cons, not_or] at h
    simp [idxOf?_cons, ih h.2, beq_false_of_ne (Ne.symm h.1)]

theorem split_of_idxOf? {identity : JsString} {i : Nat} (h : identity.idxOf? colon = some i) :
    ∃ user device, identity = user ++ colon :: device ∧ colon ∉ user ∧ i = user.length := by
  have hmem : colon ∈ identity := by
    by_contra hn
    rw [idxOf?_eq_none_iff.mpr hn] at h
    cases h
  obtain ⟨user, device, rfl, hu⟩ := eq_append_cons_of_mem hmem
  rw [idxOf?_colon hu] at h
  exact ⟨user, device, rfl, hu, (some.inj h).symm⟩

/-- A device identity: one colon between two halves that are not empty. -/
structure Halves (user device : JsString) : Prop where
  userNe : user ≠ []
  deviceNe : device ≠ []
  userColon : colon ∉ user
  deviceColon : colon ∉ device

theorem canonicalIdentity_eq_some_iff {identity key : JsString} : canonicalIdentity identity = some key ↔
    ∃ user device, Halves user device ∧ identity = user ++ colon :: device ∧
      key = canonicalUserId user ++ colon :: device := by
  constructor
  · intro h
    unfold canonicalIdentity isMalformed at h
    split at h
    · cases h
    · rename_i hone
      split at h
      · cases h
      · rename_i i hi
        obtain ⟨user, device, rfl, hu, rfl⟩ := split_of_idxOf? hi
        split at h
        · cases h
        · rename_i hne
          have hcount : (user ++ colon :: device).count colon = user.count colon + (device.count colon + 1) := by simp
          refine ⟨user, device, ⟨?_, ?_, hu, ?_⟩, rfl, ?_⟩
          · rintro rfl
            exact hne (.inl rfl)
          · rintro rfl
            exact hne (.inr (by simp))
          · intro hd
            have := count_pos_iff.mpr hd
            simp only [decide_eq_true_eq] at hone
            omega
          · simpa using (some.inj h).symm
  · rintro ⟨user, device, ⟨hu, hd, hcu, hcd⟩, rfl, rfl⟩
    have hone : isMalformed (user ++ colon :: device) = false := by
      simp [isMalformed, count_eq_zero.mpr hcu, count_eq_zero.mpr hcd]
    have hul := length_pos_iff.mpr hu
    have hdl := length_pos_iff.mpr hd
    rw [canonicalIdentity, if_neg (by simp [hone]), idxOf?_colon hcu]
    dsimp only
    rw [if_neg (by simp only [length_append, length_cons]; omega)]
    simp

variable {user device : JsString}

theorem Halves.canonical (h : Halves user device) : Halves (canonicalUserId user) device :=
  ⟨by simpa [canonicalUserId] using h.userNe, h.deviceNe, mt (colon_mem_canonicalUserId).mp h.userColon, h.deviceColon⟩

theorem Halves.not_malformed (h : Halves user device) : isMalformed (user ++ colon :: device) = false := by
  simp [isMalformed, count_eq_zero.mpr h.userColon, count_eq_zero.mpr h.deviceColon]

/-- What is read of a leaf through its halves. -/
theorem Halves.read (h : Halves user device) :
    userIdOfLeaf (user ++ colon :: device) = canonicalUserId user ∧
      deviceIdOfLeaf (user ++ colon :: device) = device := by
  constructor
  · have hkey := (canonicalIdentity_eq_some_iff).mpr ⟨user, device, h, rfl, rfl⟩
    have hlen : (canonicalUserId user ++ colon :: device).idxOf colon = (canonicalUserId user).length := by
      rw [idxOf_append_of_notMem h.canonical.userColon]
      simp
    rw [userIdOfLeaf, canonicalUserOf, hkey]
    simp [hlen]
  · rw [deviceIdOfLeaf, if_neg (by simp [h.not_malformed]), idxOf?_colon h.userColon]
    simp

theorem readers_agree {leaf key : JsString} (h : canonicalIdentity leaf = some key) :
    userIdOfLeaf key = userIdOfLeaf leaf ∧ deviceIdOfLeaf key = deviceIdOfLeaf leaf := by
  obtain ⟨user, device, hh, rfl, rfl⟩ := (canonicalIdentity_eq_some_iff).mp h
  rw [hh.read.1, hh.read.2, hh.canonical.read.1, hh.canonical.read.2, canonicalUserId_idem]
  exact ⟨rfl, rfl⟩

/-! ## The eligible leaves -/

/-- Two lists of leaves with the same canonical identities: other orders, spellings, duplicates, and
    leaves that name no device. -/
def SameTree (leaves other : List JsString) : Prop :=
  ∀ key, (∃ leaf ∈ leaves, canonicalIdentity leaf = some key) ↔ ∃ leaf ∈ other, canonicalIdentity leaf = some key

variable {leaves other : List JsString} {departed : JsString} {excluded : List JsString} {epoch : Nat} {key : JsString}

theorem sameTree_iff : SameTree leaves other ↔
    leaves.filterMap canonicalIdentity ⊆ other.filterMap canonicalIdentity ∧
      other.filterMap canonicalIdentity ⊆ leaves.filterMap canonicalIdentity := by
  simp only [SameTree, ← mem_filterMap, subset_def]
  exact ⟨fun h => ⟨fun {_} => (h _).mp, fun {_} => (h _).mpr⟩, fun h _ => ⟨fun hk => h.1 hk, fun hk => h.2 hk⟩⟩

theorem mem_eligible : key ∈ eligible leaves departed excluded ↔
    (∃ leaf ∈ leaves, canonicalIdentity leaf = some key) ∧ ∀ user ∈ departed :: excluded,
      userIdOfLeaf key ≠ canonicalUserId user := by
  have hexcluded : (((departed :: excluded).map canonicalUserId).contains (userIdOfLeaf key) = false) ↔
      ∀ user ∈ departed :: excluded, userIdOfLeaf key ≠ canonicalUserId user := by
    rw [Bool.eq_false_iff, Ne, contains_iff_mem, List.mem_map, not_exists]
    exact forall_congr' fun user => ⟨fun h hu e => h ⟨hu, e.symm⟩, fun h hu => h hu.1 hu.2.symm⟩
  rw [eligible, JsText.mem_sort, mem_eraseDups, mem_filter, mem_filterMap, Bool.not_eq_eq_eq_not,
    Bool.not_true, hexcluded]

theorem nodup_eligible (leaves : List JsString) (departed : JsString)
    (excluded : List JsString) : (eligible leaves departed excluded).Nodup :=
  JsText.nodup_sort (JsMap.nodup_eraseDups _)

theorem eligible_congr (h : SameTree leaves other) (departed : JsString) (excluded : List JsString) :
    eligible leaves departed excluded = eligible other departed excluded := by
  refine JsText.eq_of_sorted (JsText.pairwise_sort _) (JsText.pairwise_sort _) (nodup_eligible ..)
    (nodup_eligible ..) fun key => ?_
  rw [mem_eligible, mem_eligible, h key]

def rotated (leaves : List JsString) (departed : JsString) (epoch : Nat) (excluded : List JsString) : List JsString :=
  (eligible leaves departed excluded).rotate (windowOffset departed epoch (eligible leaves departed excluded).length)

theorem windowOffset_le (departed : JsString) (epoch n : Nat) : windowOffset departed epoch n ≤ n := by
  unfold windowOffset
  split
  · exact Nat.zero_le n
  · rename_i h
    exact (Nat.mod_lt _ (Nat.pos_of_ne_zero h)).le

theorem electionWindow_eq (leaves : List JsString) (departed : JsString) (epoch : Nat) (excluded : List JsString) :
    electionWindow leaves departed epoch excluded =
      (rotated leaves departed epoch excluded).take (min 4 (eligible leaves departed excluded).length) := by
  have hrotated : rotated leaves departed epoch excluded = _ :=
    rotate_eq_drop_append_take (windowOffset_le departed epoch _)
  have hwindow : electionWindow leaves departed epoch excluded = (rotated leaves departed epoch excluded).take 4 := by
    rw [hrotated]; rfl
  have hlen : (rotated leaves departed epoch excluded).length = (eligible leaves departed excluded).length :=
    length_rotate ..
  rw [hwindow, ← hlen]
  rcases Nat.le_total 4 (rotated leaves departed epoch excluded).length with h | h
  · rw [Nat.min_eq_left h]
  · rw [Nat.min_eq_right h, take_length, take_of_length_le h]

theorem electionWindow_congr (h : SameTree leaves other) :
    electionWindow leaves departed epoch excluded = electionWindow other departed epoch excluded := by
  rw [electionWindow, electionWindow, eligible_congr h]

theorem mem_eligible_of_mem_window (h : key ∈ electionWindow leaves departed epoch excluded) :
    key ∈ eligible leaves departed excluded := by
  rw [electionWindow_eq] at h
  exact mem_rotate.mp (mem_of_mem_take h)

/-! ## Presence -/

variable {rows rows' : List PresenceRow}

/-- A row of the roster reports the leaf's device online. -/
def Online (rows : List PresenceRow) (leaf : JsString) : Prop :=
  ∃ row ∈ rows, ∃ devices, row.onlineDevices = some devices ∧ canonicalUserId row.userId = userIdOfLeaf leaf ∧
    deviceIdOfLeaf leaf ∈ devices

def Carries (rows : List PresenceRow) : Prop := ∀ row ∈ rows, row.onlineDevices.isSome

def OnePerUser (rows : List PresenceRow) : Prop := (rows.map fun row => canonicalUserId row.userId).Nodup

instance (rows : List PresenceRow) : Decidable (OnePerUser rows) := inferInstanceAs (Decidable (List.Nodup _))

theorem onlineOf_eq (rows : List PresenceRow) (online : JsMap JsString (List JsString)) :
    (Carries rows ∧ onlineOf rows online =
      some (rows.foldl (fun m row => m.set (canonicalUserId row.userId) (row.onlineDevices.getD [])) online)) ∨
    (¬ Carries rows ∧ onlineOf rows online = none) := by
  induction rows generalizing online with
  | nil => exact .inl ⟨nofun, rfl⟩
  | cons row rows ih =>
    cases hd : row.onlineDevices with
    | none =>
      right
      refine ⟨fun h => ?_, by rw [onlineOf, hd]⟩
      have := h row mem_cons_self
      rw [hd] at this
      cases this
    | some devices =>
      have hc : Carries (row :: rows) ↔ Carries rows := by simp [Carries, hd]
      rw [hc, onlineOf, foldl_cons, hd]
      exact ih _

theorem online_iff (h : OnePerUser rows) (hc : Carries rows) (leaf : JsString) :
    ((rows.foldl (fun m row => m.set (canonicalUserId row.userId) (row.onlineDevices.getD [])) JsMap.empty).get
      (userIdOfLeaf leaf)).any
      (fun devices => devices.contains (deviceIdOfLeaf leaf)) = true ↔ Online rows leaf := by
  by_cases hu : userIdOfLeaf leaf ∈ rows.map fun row => canonicalUserId row.userId
  · obtain ⟨row, hrow, huser⟩ := List.mem_map.mp hu
    rw [← huser, JsMap.get_setAll_of_mem (fun row : PresenceRow => canonicalUserId row.userId)
      (fun row => row.onlineDevices.getD []) h hrow]
    obtain ⟨devices, hd⟩ := isSome_iff_exists.mp (hc row hrow)
    rw [hd]
    simp only [getD_some, any_some, contains_iff_mem]
    constructor
    · exact fun hmem => ⟨row, hrow, devices, hd, huser, hmem⟩
    · rintro ⟨row', hrow', devices', hd', huser', hmem⟩
      obtain rfl : row' = row := inj_on_of_nodup_map h hrow' hrow (huser'.trans huser.symm)
      rw [hd] at hd'
      cases hd'
      exact hmem
  · rw [JsMap.get_setAll_of_not_mem (fun row : PresenceRow => canonicalUserId row.userId)
      (fun row => row.onlineDevices.getD []) hu]
    simp only [JsMap.get_empty, any_none, Bool.false_eq_true, false_iff]
    rintro ⟨row, hrow, -, -, huser, -⟩
    exact hu (List.mem_map.mpr ⟨row, hrow, huser⟩)

/-! ## The election -/

/-- Everything the election can do: nobody without presence, else the first leaf of the window that is online. -/
theorem elect_cases (h : OnePerUser rows) (leaves : List JsString) (departed : JsString) (epoch : Nat)
    (excluded : List JsString) :
    (¬ Carries rows ∧ electDepartureCommitter leaves rows departed epoch excluded = none) ∨
    (Carries rows ∧ ∃ online : JsString → Bool, (∀ key, online key = true ↔ Online rows key) ∧
      electDepartureCommitter leaves rows departed epoch excluded =
        (electionWindow leaves departed epoch excluded).find? online) := by
  rcases onlineOf_eq rows JsMap.empty with ⟨hc, ho⟩ | ⟨hc, ho⟩
  · right
    refine ⟨hc, _, fun key => online_iff h hc key, ?_⟩
    rw [electDepartureCommitter, ho]
  · left
    exact ⟨hc, by rw [electDepartureCommitter, ho]⟩

theorem online_perm (h : rows.Perm rows') (leaf : JsString) : Online rows leaf ↔ Online rows' leaf := by
  simp [Online, h.mem_iff]

theorem carries_perm (h : rows.Perm rows') : Carries rows ↔ Carries rows' := by simp [Carries, h.mem_iff]

theorem onePerUser_perm (h : rows.Perm rows') : OnePerUser rows ↔ OnePerUser rows' := (h.map _).nodup_iff

theorem elect_congr (ht : SameTree leaves other) (hp : rows.Perm rows') (h : OnePerUser rows) :
    electDepartureCommitter leaves rows departed epoch excluded =
      electDepartureCommitter other rows' departed epoch excluded := by
  rcases elect_cases h leaves departed epoch excluded with ⟨hc, he⟩ | ⟨hc, online, ho, he⟩ <;>
    rcases elect_cases ((onePerUser_perm hp).mp h) other departed epoch excluded
      with ⟨hc', he'⟩ | ⟨hc', online', ho', he'⟩
  · rw [he, he']
  · exact absurd ((carries_perm hp).mpr hc') hc
  · exact absurd ((carries_perm hp).mp hc) hc'
  · have hsame : online = online' :=
      funext fun key => Bool.eq_iff_iff.mpr ((ho key).trans ((online_perm hp key).trans (ho' key).symm))
    rw [he, he', electionWindow_congr ht, hsame]

theorem elect_some (h : OnePerUser rows) (he : electDepartureCommitter leaves rows departed epoch excluded = some key) :
    ∃ leaf ∈ leaves, canonicalIdentity leaf = some key ∧ Online rows leaf ∧
      ∀ user ∈ departed :: excluded, userIdOfLeaf leaf ≠ canonicalUserId user := by
  rcases elect_cases h leaves departed epoch excluded with ⟨-, hn⟩ | ⟨-, online, ho, hf⟩
  · rw [hn] at he
    cases he
  · rw [hf] at he
    obtain ⟨⟨leaf, hleaf, hkey⟩, hout⟩ := (mem_eligible).mp (mem_eligible_of_mem_window (mem_of_find?_eq_some he))
    obtain ⟨huser, hdevice⟩ := readers_agree hkey
    refine ⟨leaf, hleaf, hkey, ?_, huser ▸ hout⟩
    have hon := (ho key).mp (find?_some he)
    rwa [Online, huser, hdevice] at hon

theorem elect_eq_none_iff (h : OnePerUser rows) : electDepartureCommitter leaves rows departed epoch excluded = none ↔
    ¬ Carries rows ∨ ∀ key ∈ electionWindow leaves departed epoch excluded, ¬ Online rows key := by
  rcases elect_cases h leaves departed epoch excluded with ⟨hc, hn⟩ | ⟨hc, online, ho, hf⟩
  · simp [hn, hc]
  · simp [hf, hc, ← ho]

/-- The receivers of one departure that hold one tree and one roster elect the same leaf; it is a leaf
    of the tree, online, of no user left out; and nobody is elected just when a row carries no presence,
    or no leaf of the window is online. -/
theorem election_agrees (departed : JsString) (epoch : Nat) (excluded : List JsString) (rows : List PresenceRow)
    (h : OnePerUser rows) :
    (∀ leaves other rows', SameTree leaves other → rows.Perm rows' →
      electDepartureCommitter leaves rows departed epoch excluded =
        electDepartureCommitter other rows' departed epoch excluded) ∧
    (∀ leaves key, electDepartureCommitter leaves rows departed epoch excluded = some key →
      ∃ leaf ∈ leaves, canonicalIdentity leaf = some key ∧ Online rows leaf ∧
        ∀ user ∈ departed :: excluded, ∀ spelling, canonicalUserId spelling = canonicalUserId user →
          userIdOfLeaf leaf ≠ canonicalUserId spelling) ∧
    ∀ leaves, electDepartureCommitter leaves rows departed epoch excluded = none ↔
      ¬ Carries rows ∨ ∀ key ∈ (rotated leaves departed epoch excluded).take
        (min 4 (eligible leaves departed excluded).length),
        ¬ Online rows key := by
  refine ⟨fun leaves other rows' ht hp => elect_congr ht hp h, fun leaves key he => ?_, fun leaves => ?_⟩
  · obtain ⟨leaf, hleaf, hkey, hon, hout⟩ := elect_some h he
    exact ⟨leaf, hleaf, hkey, hon, fun user hu spelling hs => hs ▸ hout user hu⟩
  · rw [elect_eq_none_iff h, electionWindow_eq]

/-! ## Concrete elections -/

def partialRoster : List PresenceRow := [⟨text "alice", none⟩, ⟨text "Bob", some [text "phone"]⟩]

/-- Bob's phone is the only leaf, and online, and nobody is elected. -/
theorem no_presence_elects_nobody :
    OnePerUser partialRoster ∧ electDepartureCommitter [text "bob:phone"] partialRoster (text "carol") 3 [] = none ∧
    ¬ ∀ key ∈ (rotated [text "bob:phone"] (text "carol") 3 []).take
      (min 4 (eligible [text "bob:phone"] (text "carol") []).length),
      ¬ Online partialRoster key := by
  refine ⟨by decide, by decide, fun h => h (text "bob:phone") (by decide) ?_⟩
  exact ⟨⟨text "Bob", some [text "phone"]⟩, by decide, [text "phone"], rfl, by decide, by decide⟩

def roster : List PresenceRow := [⟨text "ALICE", some []⟩, ⟨text "Bob", some [text "phone"]⟩]

/-- Two receivers with other spellings, a duplicate, a bare and a malformed leaf elect Bob's phone. -/
theorem bob_is_elected :
    OnePerUser roster ∧
    electDepartureCommitter [text "bob:phone", text "alice:web", text "Carol:web"] roster (text "carol") 3 [] = some
      (text "bob:phone") ∧
    electDepartureCommitter [text "ALICE:web", text "BOB:phone", text "carol:web", text "bob:phone", text "bob",
      text "a:b:c"] roster
      (text "carol") 3 [] = some (text "bob:phone") := by
  have hone : OnePerUser roster := by decide
  have hagree := election_agrees (text "carol") 3 [] roster hone
  have hfirst : electDepartureCommitter [text "bob:phone", text "alice:web", text "Carol:web"] roster (text "carol") 3
    [] = some (text "bob:phone") := by
    decide
  refine ⟨hone, hfirst, ?_⟩
  rw [← hfirst]
  refine (hagree.1 _ _ _ ((sameTree_iff).mpr ?_) (List.Perm.refl _)).symm
  decide

end Canari.Graine.DepartureCommitter
