/-
  Canari.Mls.StagedAdd — what a staged Add holds of the key packages it was given
  (`frontend/mls-core/src/members.rs`: `vet_validated`, `stage_add`; `device_trust.rs`:
  `canonical_identity`, `verdict`).

  The delivery service chooses the packages, their order and how an identity is spelled. The
  binding to the device a package was fetched for and the dedup both compare canonical
  identities, and a package is vetted before it is looked for among the members: so a position is
  skipped exactly when it is not vetted, and a vetted one is added unless its device is in the
  tree or was added before it (`Placed`). `staged_add` is what follows for the packages added.
-/

import Canari.Mls.SubmissionRuns

namespace Canari.Mls.Submission

open Canari.Lib Canari.Mls.DeviceTrust Canari.Mls.Identity Canari.Mls.State Canari.Mls.Welcome List

def treeIdentities (tree : List LeafKey) : List String := tree.filterMap fun leaf => canonicalIdentity leaf.identity

def packageAt (packages : List KeyPackageRead) (i : Nat) : Option KeyPackage := packages[i]?.bind Except.toOption

def deviceAt (packages : List KeyPackageRead)
    (i : Nat) : Option String := (packageAt packages i).bind fun kp => kp.identity.bind canonicalIdentity

/-- The package at a position names the device it was fetched for, with no key but a pinned one. -/
def Vetted (trust : DevicePins.Trust) (expected : List String) (packages : List KeyPackageRead) (i : Nat) : Prop :=
  ∃ kp verdict, packageAt packages i = some kp ∧ vetValidated trust kp (some (expected[i]?.getD "")) = .ok verdict

/-- Vetted, and its device is in the tree or was added before it. -/
def Repeated (trust : DevicePins.Trust) (tree : List LeafKey) (expected : List String)
    (packages : List KeyPackageRead) (added : List Nat) (i : Nat) : Prop :=
  Vetted trust expected packages i ∧
    ∃ c, deviceAt packages i = some c ∧ (c ∈ treeIdentities tree ∨ ∃ j ∈ added, j < i ∧ deviceAt packages j = some c)

structure Placed (trust : DevicePins.Trust) (tree : List LeafKey) (expected : List String)
    (packages : List KeyPackageRead) (v : Vetting) : Prop where
  known : ∀ c, c ∈ v.known ↔ c ∈ treeIdentities tree ∨ ∃ i ∈ v.addedIndices, deviceAt packages i = some c
  added : ∀ i, i ∈ v.addedIndices ↔
    Vetted trust expected packages i ∧ ¬ Repeated trust tree expected packages v.addedIndices i
  skipped : ∀ i, i ∈ v.skipped.map (·.1) ↔ i < packages.length ∧ ¬ Vetted trust expected packages i
  addedOnce : v.addedIndices.Nodup
  skippedOnce : (v.skipped.map (·.1)).Nodup

section

variable {trust : DevicePins.Trust} {tree : List LeafKey} {expected : List String} {packages : List KeyPackageRead}
    {kp : KeyPackage}

/-! ## One package -/

theorem vetValidated_ok {device : String} {verdict : DevicePins.LeafTrust}
    (h : vetValidated trust kp (some device) = .ok verdict) :
    ∃ identity, kp.identity = some identity ∧ sameIdentity identity device = true ∧ ∀ pin,
      trust.pinOf identity = some pin → kp.key ∈ pin.keys := by
  unfold vetValidated at h
  split at h
  · cases h
  · rename_i identity hidentity
    dsimp only at h
    split at h
    · cases h
    · rename_i hbound
      refine ⟨identity, hidentity, by simpa using hbound, fun pin hpin => ?_⟩
      unfold DevicePins.Trust.verdict at h
      rw [hpin] at h
      dsimp only at h
      by_cases hkey : (pin.keys.any fun k => k == kp.key) = true
      · simpa using hkey
      · rw [if_neg hkey] at h
        cases h

theorem sameIdentity_iff {a b : String} : sameIdentity a b = true ↔
    ∃ c, canonicalIdentity a = some c ∧ canonicalIdentity b = some c := by
  unfold sameIdentity
  rw [Bool.and_eq_true, beq_iff_eq, Option.isSome_iff_exists]
  constructor
  · rintro ⟨⟨c, hc⟩, hab⟩
    exact ⟨c, hc, hab ▸ hc⟩
  · rintro ⟨c, ha, hb⟩
    exact ⟨⟨c, ha⟩, ha.trans hb.symm⟩

variable {i : Nat}

/-- A vetted package names a device. -/
theorem Vetted.device (h : Vetted trust expected packages i) : ∃ c, deviceAt packages i = some c ∧
    canonicalIdentity (expected[i]?.getD "") = some c := by
  obtain ⟨kp, verdict, hkp, hvet⟩ := h
  obtain ⟨identity, hidentity, hsame, -⟩ := vetValidated_ok hvet
  obtain ⟨c, hc, hexpected⟩ := (sameIdentity_iff).mp hsame
  refine ⟨c, ?_, hexpected⟩
  simp [deviceAt, hkp, hidentity, hc]

theorem packageAt_lt (h : packageAt packages i = some kp) : i < packages.length := by
  obtain ⟨read, hread, -⟩ := Option.bind_eq_some_iff.mp h
  exact (List.getElem?_eq_some_iff.mp hread).1

theorem Vetted.lt (h : Vetted trust expected packages i) : i < packages.length := by
  obtain ⟨kp, -, hkp, -⟩ := h
  exact packageAt_lt hkp

/-! ## One more package -/

theorem packageAt_concat_of_ne (read : KeyPackageRead)
    (h : i ≠ packages.length) : packageAt (packages ++ [read]) i = packageAt packages i := by
  unfold packageAt
  rcases Nat.lt_or_ge i packages.length with hlt | hge
  · rw [getElem?_append_left hlt]
  · rw [getElem?_eq_none (by rw [length_append, length_singleton]; omega), getElem?_eq_none hge]

theorem packageAt_concat (packages : List KeyPackageRead)
    (read : KeyPackageRead) : packageAt (packages ++ [read]) packages.length = read.toOption := by
  simp [packageAt]

theorem deviceAt_concat_of_ne (read : KeyPackageRead)
    (h : i ≠ packages.length) : deviceAt (packages ++ [read]) i = deviceAt packages i := by
  unfold deviceAt
  rw [packageAt_concat_of_ne read h]

theorem vetted_concat_of_ne (read : KeyPackageRead) (h : i ≠ packages.length) :
    Vetted trust expected (packages ++ [read]) i ↔ Vetted trust expected packages i := by
  unfold Vetted
  rw [packageAt_concat_of_ne read h]

theorem repeated_concat_of_ne (read : KeyPackageRead) {added added' : List Nat}
    (hsame : ∀ j < packages.length, j ∈ added' ↔ j ∈ added)
    (h : i ≠ packages.length) : Repeated trust tree expected (packages ++ [read]) added' i ↔
    Repeated trust tree expected packages added i := by
  unfold Repeated
  rw [vetted_concat_of_ne read h, deviceAt_concat_of_ne read h]
  refine and_congr_right fun hvetted => exists_congr fun c => and_congr_right fun _ =>
    or_congr_right (exists_congr fun j => ?_)
  have hlt := hvetted.lt
  constructor
  · rintro ⟨hj, hji, hdevice⟩
    rw [deviceAt_concat_of_ne read (by omega)] at hdevice
    exact ⟨(hsame j (by omega)).mp hj, hji, hdevice⟩
  · rintro ⟨hj, hji, hdevice⟩
    refine ⟨(hsame j (by omega)).mpr hj, hji, ?_⟩
    rwa [deviceAt_concat_of_ne read (by omega)]

inductive VetStep (trust : DevicePins.Trust) (expected : List String) (v : Vetting) (read : KeyPackageRead)
    (idx : Nat) : Vetting → Prop
  | skip (reason : SkippedKeyPackageReason)
      (hvet : ∀ kp verdict, read.toOption = some kp →
      vetValidated trust kp (some (expected[idx]?.getD "")) ≠ .ok verdict) :
      VetStep trust expected v read idx { v with skipped := v.skipped ++ [(idx, reason)] }
  | member {kp : KeyPackage} {verdict : DevicePins.LeafTrust} {c : String} (hkp : read.toOption = some kp)
      (hvet : vetValidated trust kp (some (expected[idx]?.getD "")) = .ok verdict)
      (hc : kp.identity.bind canonicalIdentity = some c) (hknown : c ∈ v.known) :
      VetStep trust expected v read idx { v with anyAlreadyMember := true }
  | add {kp : KeyPackage} {verdict : DevicePins.LeafTrust} {c : String} (hkp : read.toOption = some kp)
      (hvet : vetValidated trust kp (some (expected[idx]?.getD "")) = .ok verdict)
      (hc : kp.identity.bind canonicalIdentity = some c) (hknown : c ∉ v.known) :
      VetStep trust expected v read idx { v with known := v.known ++ [c], addedIndices := v.addedIndices ++ [idx] }

theorem vetOne_step (trust : DevicePins.Trust) (expected : List String) (v : Vetting)
    (read : KeyPackageRead) (idx : Nat) :
    VetStep trust expected v read idx (vetOne trust (some expected) v (read, idx)) := by
  unfold vetOne
  cases read with
  | error reason => exact .skip reason nofun
  | ok kp =>
    dsimp
    cases hvet : vetValidated trust kp (some (expected[idx]?.getD "")) with
    | error reason =>
      refine .skip reason fun kp' verdict hkp hok => ?_
      obtain rfl := Option.some.inj hkp
      rw [hvet] at hok
      cases hok
    | ok verdict =>
      obtain ⟨identity, hidentity, hsame, -⟩ := vetValidated_ok hvet
      obtain ⟨c, hc, -⟩ := (sameIdentity_iff).mp hsame
      have hdevice : kp.identity.bind canonicalIdentity = some c := by rw [hidentity]; exact hc
      rw [hdevice]
      dsimp only
      split
      · rename_i hknown
        exact .member rfl hvet hdevice (contains_iff_mem.mp hknown)
      · rename_i hknown
        exact .add rfl hvet hdevice fun hmem => hknown (contains_iff_mem.mpr hmem)

theorem vetAll_concat (trust : DevicePins.Trust) (tree : List LeafKey) (expected : List String)
    (packages : List KeyPackageRead) (read : KeyPackageRead) :
    vetAll trust tree (packages ++ [read]) (some expected) =
      vetOne trust (some expected) (vetAll trust tree packages (some expected)) (read, packages.length) := by
  unfold vetAll
  rw [zipIdx_append]
  simp

section Concat

variable {v : Vetting} {read : KeyPackageRead} (h : Placed trust tree expected packages v)

theorem deviceAt_last {c : String} (hkp : read.toOption = some kp) (hc : kp.identity.bind canonicalIdentity = some c) :
    deviceAt (packages ++ [read]) packages.length = some c := by
  unfold deviceAt
  rw [packageAt_concat, hkp]
  exact hc

include h

theorem added_lt (hi : i ∈ v.addedIndices) : i < packages.length := ((h.added i).mp hi).1.lt

theorem known_concat (read : KeyPackageRead) (c : String) :
    c ∈ v.known ↔ c ∈ treeIdentities tree ∨ ∃ i ∈ v.addedIndices, deviceAt (packages ++ [read]) i = some c := by
  rw [h.known c]
  refine or_congr_right (exists_congr fun i => and_congr_right fun hi => ?_)
  rw [deviceAt_concat_of_ne read (Nat.ne_of_lt (added_lt h hi))]

/-- The positions added, when the last one is not. -/
theorem added_concat (hlast : ¬ (Vetted trust expected (packages ++ [read]) packages.length ∧
      ¬ Repeated trust tree expected (packages ++ [read]) v.addedIndices packages.length)) (i : Nat) :
    i ∈ v.addedIndices ↔ Vetted trust expected (packages ++ [read]) i ∧
      ¬ Repeated trust tree expected (packages ++ [read]) v.addedIndices i := by
  by_cases hi : i = packages.length
  · subst hi
    exact iff_of_false (fun hmem => Nat.lt_irrefl _ (added_lt h hmem)) hlast
  · rw [vetted_concat_of_ne read hi, repeated_concat_of_ne read (fun j _ => Iff.rfl) hi]
    exact h.added i

theorem skipped_concat_of_vetted (hlast : Vetted trust expected (packages ++ [read]) packages.length) (i : Nat) :
    i ∈ v.skipped.map (·.1) ↔ i < (packages ++ [read]).length ∧ ¬ Vetted trust expected (packages ++ [read]) i := by
  rw [h.skipped i, length_append, length_singleton]
  by_cases hi : i = packages.length
  · subst hi
    exact ⟨fun hlt => absurd hlt.1 (Nat.lt_irrefl _), fun hnot => absurd hlast hnot.2⟩
  · rw [vetted_concat_of_ne read hi]
    refine and_congr_left fun _ => ?_
    omega

theorem placed_skip (reason : SkippedKeyPackageReason)
    (hnot : ¬ Vetted trust expected (packages ++ [read]) packages.length) :
    Placed trust tree expected (packages ++ [read]) { v with skipped := v.skipped ++ [(packages.length, reason)] } := by
  refine ⟨known_concat (v := v) h read, added_concat (v := v) h fun hv => hnot hv.1, fun i => ?_, h.addedOnce, ?_⟩
  · rw [map_append, mem_append, h.skipped i, length_append, length_singleton, map_singleton, mem_singleton]
    by_cases hi : i = packages.length
    · subst hi
      exact ⟨fun _ => ⟨Nat.lt_succ_self _, hnot⟩, fun _ => .inr rfl⟩
    · rw [vetted_concat_of_ne read hi]
      constructor
      · rintro (⟨hlt, hv⟩ | hlast)
        · exact ⟨by omega, hv⟩
        · exact absurd hlast hi
      · rintro ⟨hlt, hv⟩
        exact .inl ⟨by omega, hv⟩
  · rw [map_append]
    refine h.skippedOnce.append (nodup_singleton _) fun i hi hlast => ?_
    have hlt := ((h.skipped i).mp hi).1
    rw [mem_singleton.mp hlast] at hlt
    exact Nat.lt_irrefl _ hlt

theorem placed_member {c : String} (hvetted : Vetted trust expected (packages ++ [read]) packages.length)
    (hdevice : deviceAt (packages ++ [read]) packages.length = some c) (hmem : c ∈ v.known) :
    Placed trust tree expected (packages ++ [read]) { v with anyAlreadyMember := true } := by
  have hrepeated : Repeated trust tree expected (packages ++ [read]) v.addedIndices packages.length := by
    refine ⟨hvetted, c, hdevice, ((known_concat h read c).mp hmem).imp_right ?_⟩
    rintro ⟨j, hj, hjc⟩
    exact ⟨j, hj, added_lt h hj, hjc⟩
  exact ⟨known_concat (v := v) h read, added_concat (v := v) h fun hv => hv.2 hrepeated,
    skipped_concat_of_vetted (v := v) h hvetted, h.addedOnce, h.skippedOnce⟩

theorem placed_add {c : String} (hvetted : Vetted trust expected (packages ++ [read]) packages.length)
    (hdevice : deviceAt (packages ++ [read]) packages.length = some c) (hmem : c ∉ v.known) :
    Placed trust tree expected (packages ++ [read]) { v with known := v.known ++ [c], addedIndices :=
      v.addedIndices ++ [packages.length] } := by
  have hbefore : ∀ j < packages.length, j ∈ v.addedIndices ++ [packages.length] ↔ j ∈ v.addedIndices := by
    intro j hj
    rw [mem_append, mem_singleton]
    exact or_iff_left (Nat.ne_of_lt hj)
  have hnew : ¬ Repeated trust tree expected (packages ++ [read])
    (v.addedIndices ++ [packages.length]) packages.length := by
    rintro ⟨-, c', hc', hseen⟩
    obtain rfl := Option.some.inj (hc'.symm.trans hdevice)
    refine hmem ((known_concat h read c').mpr (hseen.imp_right ?_))
    rintro ⟨j, hj, hlt, hjc⟩
    exact ⟨j, (hbefore j hlt).mp hj, hjc⟩
  refine ⟨fun c' => ?_, fun i => ?_, skipped_concat_of_vetted (v := v) h hvetted, ?_, h.skippedOnce⟩
  · rw [mem_append, mem_singleton, known_concat h read c', or_assoc]
    refine or_congr_right ?_
    constructor
    · rintro (⟨i, hi, hic⟩ | rfl)
      · exact ⟨i, mem_append_left _ hi, hic⟩
      · exact ⟨packages.length, mem_append_right _ (mem_singleton_self _), hdevice⟩
    · rintro ⟨i, hi, hic⟩
      rcases mem_append.mp hi with hi | hi
      · exact .inl ⟨i, hi, hic⟩
      · rw [mem_singleton.mp hi, hdevice] at hic
        exact .inr (Option.some.inj hic).symm
  · by_cases hi : i = packages.length
    · subst hi
      exact ⟨fun _ => ⟨hvetted, hnew⟩, fun _ => mem_append_right _ (mem_singleton_self _)⟩
    · rw [vetted_concat_of_ne read hi, repeated_concat_of_ne read hbefore hi, mem_append, mem_singleton, or_iff_left hi]
      exact h.added i
  · refine h.addedOnce.append (nodup_singleton _) fun i hi hlast => ?_
    have hlt := added_lt h hi
    rw [mem_singleton.mp hlast] at hlt
    exact Nat.lt_irrefl _ hlt

theorem placed_concat {v' : Vetting} (hstep : VetStep trust expected v read packages.length v') :
    Placed trust tree expected (packages ++ [read]) v' := by
  cases hstep with
  | skip reason hvet =>
    refine placed_skip h reason ?_
    rintro ⟨kp, verdict, hkp, hok⟩
    rw [packageAt_concat] at hkp
    exact hvet kp verdict hkp hok
  | @member kp verdict c hkp hvet hc hmem =>
    exact placed_member h ⟨kp, verdict, by rw [packageAt_concat, hkp], hvet⟩ (deviceAt_last hkp hc) hmem
  | @add kp verdict c hkp hvet hc hmem =>
    exact placed_add h ⟨kp, verdict, by rw [packageAt_concat, hkp], hvet⟩ (deviceAt_last hkp hc) hmem

end Concat

theorem vetAll_placed (trust : DevicePins.Trust) (tree : List LeafKey) (expected : List String)
    (packages : List KeyPackageRead) :
    Placed trust tree expected packages (vetAll trust tree packages (some expected)) := by
  induction packages using List.reverseRecOn with
  | nil =>
    refine ⟨fun c => ?_, fun i => ⟨nofun, ?_⟩, fun i => ⟨nofun, ?_⟩, nodup_nil, nodup_nil⟩
    · exact ⟨.inl, fun h => h.resolve_right nofun⟩
    · rintro ⟨⟨kp, -, hkp, -⟩, -⟩
      cases hkp
    · rintro ⟨hlt, -⟩
      cases hlt
  | append_singleton packages read ih =>
    rw [vetAll_concat]
    exact placed_concat ih (vetOne_step trust expected _ read _)

/-! ## A successful Add -/

/-- What a staged Add says of the packages it was given. -/
structure AddedRight (trust : DevicePins.Trust) (tree : List LeafKey) (expected : List String)
    (packages : List KeyPackageRead) (staged : Staged) : Prop where
  /-- Every position is in exactly one of the three. -/
  placed : ∀ i < packages.length,
    (i ∈ staged.addedIndices ∧ i ∉ staged.skipped.map (·.1) ∧
      ¬ Repeated trust tree expected packages staged.addedIndices i) ∨
    (i ∉ staged.addedIndices ∧ i ∈ staged.skipped.map (·.1) ∧
      ¬ Repeated trust tree expected packages staged.addedIndices i) ∨
    (i ∉ staged.addedIndices ∧ i ∉ staged.skipped.map (·.1) ∧
      Repeated trust tree expected packages staged.addedIndices i)
  once : staged.addedIndices.Nodup ∧ (staged.skipped.map (·.1)).Nodup
  inBatch : ∀ i, i ∈ staged.addedIndices ∨ i ∈ staged.skipped.map (·.1) → i < packages.length
  /-- An added package names the device it was fetched for, absent from the tree, with no key but a pinned one. -/
  named : ∀ i ∈ staged.addedIndices, ∃ kp identity device, packageAt packages i = some kp ∧
    kp.identity = some identity ∧ expected[i]? = some device ∧
    sameIdentity identity device = true ∧ (∀ leaf ∈ tree, sameIdentity leaf.identity identity = false) ∧
    ∀ pin, trust.pinOf identity = some pin → kp.key ∈ pin.keys
  distinct : ∀ i ∈ staged.addedIndices, ∀ j ∈ staged.addedIndices, i ≠ j → deviceAt packages i ≠ deviceAt packages j

theorem stageAdd_ok {c : Staging} {n : Nat} {s t : MlsManager} {g : String}
    {expectedIdentities : Option (List String)} {staged : Staged}
    (h : stageAdd c trust n s g packages expectedIdentities = (.ok staged, t)) :
    ∃ x, s.groups g = some x ∧ staged.addedIndices = (vetAll trust x.tree packages expectedIdentities).addedIndices ∧
      staged.skipped = (vetAll trust x.tree packages expectedIdentities).skipped := by
  unfold stageAdd at h
  split at h
  · cases h
  rename_i x hx
  dsimp only at h
  split at h
  · split at h <;> cases h
  split at h
  · cases h
  split at h
  · cases h
  rename_i staged' hmessages
  obtain rfl : staged' = staged := Except.ok.inj (Prod.mk.inj h).1
  refine ⟨x, hx, ?_⟩
  unfold addedMessages at hmessages
  cases hcommit : serialized c.commit with
  | error e => rw [hcommit] at hmessages; cases hmessages
  | ok commit =>
    cases hwelcome : serialized (c.welcome.getD (.error "no Welcome")) with
    | error e => rw [hcommit, hwelcome] at hmessages; cases hmessages
    | ok welcome =>
      cases hbase : successorBase g c.groupInfo with
      | error e => rw [hcommit, hwelcome, hbase] at hmessages; cases hmessages
      | ok base =>
        rw [hcommit, hwelcome, hbase] at hmessages
        obtain rfl := Except.ok.inj hmessages
        exact ⟨rfl, rfl⟩

/-- Whatever the delivery service serves, a staged Add holds the devices asked for and no other. -/
theorem staged_add (c : Staging) (trust : DevicePins.Trust) (n : Nat) (s t : MlsManager) (g : String) (x : MlsGroup)
    (hx : s.groups g = some x)
    (packages : List KeyPackageRead) (expected : List String) (staged : Staged)
    (h : stageAdd c trust n s g packages (some expected) = (.ok staged, t)) :
    AddedRight trust x.tree expected packages staged := by
  obtain ⟨x', hx', hadded, hskipped⟩ := stageAdd_ok h
  obtain rfl := Option.some.inj (hx.symm.trans hx')
  have hplaced := vetAll_placed trust x.tree expected packages
  have hadds : ∀ i, i ∈ staged.addedIndices ↔
    Vetted trust expected packages i ∧ ¬ Repeated trust x.tree expected packages staged.addedIndices i := by
    rw [hadded]
    exact hplaced.added
  have hskips : ∀ i, i ∈ staged.skipped.map (·.1) ↔ i < packages.length ∧ ¬ Vetted trust expected packages i := by
    rw [hskipped]
    exact hplaced.skipped
  refine ⟨fun i hi => ?_, ?_, fun i hi => ?_, fun i hi => ?_, fun i hi j hj hij => ?_⟩
  · rw [hadds i, hskips i]
    by_cases hv : Vetted trust expected packages i
    · by_cases hr : Repeated trust x.tree expected packages staged.addedIndices i
      · exact .inr (.inr ⟨fun hnew => hnew.2 hr, fun hskip => hskip.2 hv, hr⟩)
      · exact .inl ⟨⟨hv, hr⟩, fun hskip => hskip.2 hv, hr⟩
    · exact .inr (.inl ⟨fun hnew => hv hnew.1, ⟨hi, hv⟩, fun hr => hv hr.1⟩)
  · rw [hadded, hskipped]
    exact ⟨hplaced.addedOnce, hplaced.skippedOnce⟩
  · rcases hi with hi | hi
    · exact ((hadds i).mp hi).1.lt
    · exact ((hskips i).mp hi).1
  · obtain ⟨hvetted, hnew⟩ := (hadds i).mp hi
    obtain ⟨d, hd, hexpected⟩ := hvetted.device
    have hvetted' := hvetted
    obtain ⟨kp, verdict, hkp, hvet⟩ := hvetted'
    obtain ⟨identity, hidentity, hsame, hpin⟩ := vetValidated_ok hvet
    -- a position past the devices asked for is bound to none
    cases hdevice : expected[i]? with
    | none =>
      rw [hdevice] at hexpected
      have hnone : canonicalIdentity "" = none := by decide
      cases hnone.symm.trans hexpected
    | some device =>
      rw [hdevice] at hsame
      refine ⟨kp, identity, device, hkp, hidentity, rfl, hsame, fun leaf hleaf => ?_, hpin⟩
      rw [← Bool.not_eq_true]
      intro hmember
      obtain ⟨c', hc', hcanonical⟩ := sameIdentity_iff.mp hmember
      refine hnew ⟨hvetted, c', ?_, .inl (mem_filterMap.mpr ⟨leaf, hleaf, hc'⟩)⟩
      simp [deviceAt, hkp, hidentity, hcanonical]
  · -- the later of the two would be a repetition of the earlier
    have hlater : ∀ a b, a ∈ staged.addedIndices → b ∈ staged.addedIndices → a < b →
      deviceAt packages a ≠ deviceAt packages b := by
      intro a b ha hb hlt heq
      obtain ⟨hvetted, hnew⟩ := (hadds b).mp hb
      obtain ⟨d, hd, -⟩ := hvetted.device
      exact hnew ⟨hvetted, d, hd, .inr ⟨a, ha, hlt, heq.trans hd⟩⟩
    rcases Nat.lt_or_gt_of_ne hij with hlt | hgt
    · exact hlater i j hi hj hlt
    · exact (hlater j i hj hi hgt).symm

end

/-! ## A hostile batch -/

def club : MlsGroup := ⟨[1], 3, [⟨0, "alice:phone", [1]⟩], none⟩

def clubManager : MlsManager := { created.manager with groups := fun g => if g = "club" then some club else none }

/-- Bob, then bytes that do not read, Alice who is in the tree, Bob spelled otherwise, and Mallory for Carol. -/
def served : List KeyPackageRead :=
  [.ok ⟨some "bob:laptop", [7]⟩, .error .undecodable, .ok ⟨some "Alice:phone", [1]⟩, .ok ⟨some "BOB:laptop", [8]⟩,
    .ok ⟨some "mallory:x", [9]⟩]

def fetchedFor : List String := ["BOB:laptop", "dan:phone", "alice:phone", "bob:laptop", "carol:phone"]

/-- Bob is added once; the bytes and Mallory are skipped; Alice and the second Bob are repetitions. -/
theorem hostile_batch :
    (stageAdd (staging [4] (some (.ok [5])) (some (.ok [6]))) noPins 0 clubManager "club" served (some fetchedFor)).1 =
      .ok ⟨[4], [6], some [5], [0], [(1, .undecodable), (4, .identityMismatch)]⟩ ∧
    AddedRight noPins club.tree fetchedFor served ⟨[4], [6], some [5], [0],
      [(1, .undecodable), (4, .identityMismatch)]⟩ := by
  have hstaged : (stageAdd (staging [4] (some (.ok [5])) (some (.ok [6]))) noPins 0 clubManager "club" served
    (some fetchedFor)).1 =
      .ok ⟨[4], [6], some [5], [0], [(1, .undecodable), (4, .identityMismatch)]⟩ := by rfl
  exact ⟨hstaged, staged_add
    (staging [4] (some (.ok [5])) (some (.ok [6]))) noPins 0 clubManager _ "club" club rfl served fetchedFor _
    (Prod.ext hstaged rfl)⟩

end Canari.Mls.Submission
