/-
  Canari.Mls.PinStore — the pins, and the identities remembered because their pin was pruned
  (`frontend/mls-core/src/device_trust.rs`).

  Three things move an identity between the two: a pin written for it (out of the memory, and the pin is
  unanchored), a prune (into the memory, the oldest evicted past the bound) and a reload (nothing moves).
  `Wrote` says what any number of writes do, `Sound` what holds in every state; `writtenAs` follows one
  identity along a run and keeps whether it was remembered when its pin was written.

  `pin_store_stays_sound`: every run from a new store keeps `Sound`, no prune takes an identity that a
  held tree names, and a pin is unanchored exactly when its identity was remembered then.
-/

import Canari.Mls.DevicePins

namespace Canari.Mls.PinStore

open Lib Mls.Identity Mls.DeviceTrust Mls.DevicePins List

structure Sound (s : Trust) : Prop where
  pinned : Wf s
  pruned : ∀ c ∈ s.pruned, canonicalIdentity c = some c
  /-- No identity is both pinned and remembered as pruned. -/
  apart : ∀ c ∈ s.pruned, s.pins.lookup c = none
  nodup : s.pruned.Nodup
  bound : s.pruned.length ≤ MAX_REMEMBERED_PRUNED

variable {s s' s'' : Trust} {c : String} {pin : Pin} {e : Event} {fingerprint : Key → String}

/-! ## Writing pins -/

/-- What writing pins does to the pins and to the memory. -/
structure Wrote (s s' : Trust) : Prop where
  sound : Sound s → Sound s'
  kept : ∀ c pin, s.pins.lookup c = some pin → ∃ pin', s'.pins.lookup c = some pin' ∧ pin'.anchored = pin.anchored
  written : ∀ c pin, s.pins.lookup c = none → s'.pins.lookup c = some pin → (pin.anchored = false ↔ c ∈ s.pruned)
  /-- An identity that has no pin yet is remembered or not as it was. -/
  absent : ∀ c, s'.pins.lookup c = none → (c ∈ s'.pruned ↔ c ∈ s.pruned)

theorem Wrote.same (hpins : s'.pins = s.pins) (hpruned : s'.pruned = s.pruned) : Wrote s s' := by
  obtain ⟨pins', pruned', events', full', departures', unseeded'⟩ := s'
  subst hpins hpruned
  refine ⟨fun h => ⟨h.pinned, h.pruned, h.apart, h.nodup, h.bound⟩, fun c pin h => ⟨pin, h, rfl⟩,
    fun c pin h h' => ?_, fun c _ => .rfl⟩
  rw [h] at h'
  cases h'

theorem Wrote.trans (h : Wrote s s') (h' : Wrote s' s'') : Wrote s s'' := by
  have hnone : ∀ c, s''.pins.lookup c = none → s'.pins.lookup c = none := by
    intro c hc
    cases hp : s'.pins.lookup c with
    | none => rfl
    | some pin =>
      obtain ⟨pin', hpin', -⟩ := h'.kept c pin hp
      rw [hc] at hpin'
      cases hpin'
  refine ⟨fun hs => h'.sound (h.sound hs), fun c pin hp => ?_, fun c pin hc hp => ?_, fun c hc => ?_⟩
  · obtain ⟨pin', hp', ha'⟩ := h.kept c pin hp
    obtain ⟨pin'', hp'', ha''⟩ := h'.kept c pin' hp'
    exact ⟨pin'', hp'', ha''.trans ha'⟩
  · cases hp' : s'.pins.lookup c with
    | none => rw [h'.written c pin hp' hp, h.absent c hp']
    | some pin' =>
      obtain ⟨pin'', hp'', ha⟩ := h'.kept c pin' hp'
      rw [hp] at hp''
      cases hp''
      rw [ha]
      exact h.written c pin' hc hp'
  · rw [h'.absent c hc, h.absent c (hnone c hc)]

/-- A pin written for an identity that has none takes it out of the memory. -/
theorem wrote_insertPin {identity : String} {keys : List Key}
    (h : ∀ c, canonicalIdentity identity = some c → s.pins.lookup c = none) :
    Wrote s (s.insertPin identity keys) := by
  unfold Trust.insertPin
  cases hc : canonicalIdentity identity with
  | none => exact .same rfl rfl
  | some c =>
    have hnone := h c hc
    have hcanonical := canonicalIdentity_canonical hc
    refine ⟨fun hs => ⟨fun x hx => ?_, fun x hx => hs.pruned x (mem_of_mem_erase hx), fun x hx => ?_,
      hs.nodup.erase c, ?_⟩,
      fun x pin hp => ?_, fun x pin hx hp => ?_, fun x hx => ?_⟩
    · rcases (AList.mem_insert _).mp hx with rfl | hx
      · exact hcanonical
      · exact hs.pinned x hx
    · have hne : x ≠ c := fun e => hs.nodup.not_mem_erase (e ▸ hx)
      exact (AList.lookup_insert_ne hne).trans (hs.apart x (mem_of_mem_erase hx))
    · exact Nat.le_trans length_erase_le hs.bound
    · have hne : x ≠ c := by
        intro e
        rw [e, hnone] at hp
        cases hp
      exact ⟨pin, (AList.lookup_insert_ne hne).trans hp, rfl⟩
    · by_cases hxc : x = c
      · subst hxc
        rw [AList.lookup_insert] at hp
        cases hp
        simp
      · rw [AList.lookup_insert_ne hxc, hx] at hp
        cases hp
    · have hxc : x ≠ c := by
        intro e
        rw [e, AList.lookup_insert] at hx
        cases hx
      exact mem_erase_of_ne hxc

theorem wrote_reaffirm (s : Trust) (identity : String) (key : Key) : Wrote s (s.reaffirm identity key).1 := by
  unfold Trust.reaffirm
  cases hc : canonicalIdentity identity with
  | none => exact .same rfl rfl
  | some c =>
    dsimp only
    cases hp : s.pins.lookup c with
    | none => exact .same rfl rfl
    | some pin =>
      dsimp only
      split
      · have hnone : ∀ x pin', s.pins.lookup x = none ↔ (s.pins.insert c pin').lookup x = none := by
          intro x pin'
          by_cases hxc : x = c
          · subst hxc
            rw [hp, AList.lookup_insert]
            exact iff_of_false nofun nofun
          · rw [AList.lookup_insert_ne hxc]
        refine ⟨fun hs => ⟨fun x hx => ?_, hs.pruned, fun x hx => (hnone x _).mp (hs.apart x hx), hs.nodup, hs.bound⟩,
          fun x pin' hx => ?_, fun x pin' hx hp' => ?_, fun x _ => .rfl⟩
        · rcases (AList.mem_insert _).mp hx with rfl | hx
          · exact canonicalIdentity_canonical hc
          · exact hs.pinned x hx
        · by_cases hxc : x = c
          · subst hxc
            rw [hp] at hx
            cases hx
            exact ⟨_, AList.lookup_insert _, rfl⟩
          · exact ⟨pin', (AList.lookup_insert_ne hxc).trans hx, rfl⟩
        · rw [(hnone x _).mp hx] at hp'
          cases hp'
      · exact .same rfl rfl

theorem wrote_writes : Writes Wrote where
  trans := .trans
  same := .same
  insertPin := wrote_insertPin
  reaffirm := wrote_reaffirm

/-! ## Pruning and reloading -/

def goneOf (s : Trust) (held : List String) : List String :=
  (s.pins.keys.filter fun c => !(held.filterMap canonicalIdentity).contains c).insertionSort (· ≤ ·)

variable {held : List String}

theorem mem_goneOf : c ∈ goneOf s held ↔ c ∈ s.pins ∧ c ∉ held.filterMap canonicalIdentity := by
  rw [goneOf, mem_insertionSort, mem_filter, AList.mem_keys, Bool.not_eq_true', ← Bool.not_eq_true, contains_iff_mem]

theorem lookup_pruneAbsent (s : Trust) (held : List String) (c : String) :
    (s.pruneAbsent held).pins.lookup c = if MAX_PINNED_IDENTITIES < s.pins.keys.length ∧
      c ∈ goneOf s held then none else s.pins.lookup c := by
  unfold Trust.pruneAbsent
  split
  · next hle => rw [if_neg fun h => absurd h.1 (Nat.not_lt.mpr hle)]
  · next hmany =>
    by_cases hc : c ∈ goneOf s held
    · rw [if_pos ⟨Nat.lt_of_not_le hmany, hc⟩]
      exact lookup_erase_all_none _ _ (.inl hc)
    · rw [if_neg fun h => hc h.2]
      exact lookup_erase_all _ _ hc

theorem pruneAbsent_of_le (h : s.pins.keys.length ≤ MAX_PINNED_IDENTITIES) : s.pruneAbsent held = s := if_pos h

theorem pruned_of_not_le (h : ¬ s.pins.keys.length ≤ MAX_PINNED_IDENTITIES) :
    (s.pruneAbsent held).pruned = (s.pruned ++ goneOf s held).drop
      ((s.pruned ++ goneOf s held).length - MAX_REMEMBERED_PRUNED) := by
  rw [Trust.pruneAbsent, if_neg h, goneOf]

theorem mem_pruned_pruneAbsent (h : c ∈ (s.pruneAbsent held).pruned) :
    c ∈ s.pruned ∨ MAX_PINNED_IDENTITIES < s.pins.keys.length ∧ c ∈ goneOf s held := by
  by_cases hmany : s.pins.keys.length ≤ MAX_PINNED_IDENTITIES
  · rw [pruneAbsent_of_le hmany] at h
    exact .inl h
  · rw [pruned_of_not_le hmany] at h
    rcases mem_append.mp (mem_of_mem_drop h) with hc | hc
    · exact .inl hc
    · exact .inr ⟨Nat.lt_of_not_le hmany, hc⟩

theorem sound_pruneAbsent (hs : Sound s) (held : List String) : Sound (s.pruneAbsent held) := by
  by_cases hmany : s.pins.keys.length ≤ MAX_PINNED_IDENTITIES
  · rw [pruneAbsent_of_le hmany]
    exact hs
  refine ⟨fun x hx => ?_, fun x hx => ?_, fun x hx => ?_, ?_, ?_⟩
  · refine hs.pinned x (not_not.mp fun h => AList.lookup_eq_none.mp ?_ hx)
    rw [lookup_pruneAbsent, AList.lookup_eq_none.mpr h, ite_self]
  · rcases mem_pruned_pruneAbsent hx with hx | hx
    · exact hs.pruned x hx
    · exact hs.pinned x ((mem_goneOf).mp hx.2).1
  · rw [lookup_pruneAbsent]
    rcases mem_pruned_pruneAbsent hx with hx | hx
    · rw [hs.apart x hx, ite_self]
    · rw [if_pos hx]
  · -- What is pruned was pinned, so it was not in the memory.
    have hgone : (goneOf s held).Nodup := (perm_insertionSort _ _).nodup_iff.mpr (s.pins.keys_nodup.filter _)
    have hall : (s.pruned ++ goneOf s held).Nodup := by
      refine nodup_append.mpr ⟨hs.nodup, hgone, fun x hx y hy e => ?_⟩
      exact AList.lookup_eq_none.mp (hs.apart x hx) (e ▸ ((mem_goneOf).mp hy).1)
    rw [pruned_of_not_le hmany]
    exact hall.sublist (drop_sublist _ _)
  · rw [pruned_of_not_le hmany, length_drop]
    omega

theorem held_stays {identity : String} (hheld : identity ∈ held) (hc : canonicalIdentity identity = some c) :
    (s.pruneAbsent held).pins.lookup c = s.pins.lookup c ∧ (c ∈ (s.pruneAbsent held).pruned → c ∈ s.pruned) := by
  have hkept : c ∉ goneOf s held := fun h => ((mem_goneOf).mp h).2 (mem_filterMap.mpr ⟨identity, hheld, hc⟩)
  refine ⟨?_, fun h => (mem_pruned_pruneAbsent h).resolve_right fun h => hkept h.2⟩
  rw [lookup_pruneAbsent, if_neg fun h => hkept h.2]

theorem sound_reload (hs : Sound s) : Sound (.fromPersisted s.persistedPins s.pruned s.events s.departures) := by
  have hpruned : s.pruned.filter Trust.isCanonical = s.pruned :=
    filter_eq_self.mpr fun c hc => beq_iff_eq.mpr (hs.pruned c hc)
  refine ⟨fromPersisted_wf _ _ _ _, fun c hc => hs.pruned c (mem_of_mem_filter hc), fun c hc => ?_,
    hs.nodup.filter _, ?_⟩
  · rw [lookup_reload hs.pinned]
    exact hs.apart c (mem_of_mem_filter hc)
  · show (s.pruned.filter Trust.isCanonical).length ≤ _
    rw [hpruned]
    exact hs.bound

/-! ## Along a run -/

def newStore : Trust := .fromPersisted [] [] [] []

def unanchored (s : Trust) (c : String) : Option Bool := (s.pins.lookup c).map fun pin => !pin.anchored

/-- What is known of the pin after a step: written by it, kept, or gone. A write finds the identity
    remembered or not as it was before the step (`Wrote.absent`). -/
def note (c : String) (s s' : Trust) (known : Option Bool) : Option Bool :=
  if (s'.pins.lookup c).isNone then none
  else if (s.pins.lookup c).isNone then some (s.pruned.contains c)
  else known

/-- Whether the identity was remembered as pruned when the pin it has was written. -/
def writtenAs (fingerprint : Key → String) (c : String) (known : Option Bool) (s : Trust) : List Event → Option Bool
  | [] => known
  | e :: es =>
    match step fingerprint s e with
    | none => known
    | some s' => writtenAs fingerprint c (note c s s' known) s' es

theorem note_of_wrote (h : Wrote s s') (c : String) : unanchored s' c = note c s s' (unanchored s c) := by
  unfold unanchored note
  cases hc' : s'.pins.lookup c with
  | none => rfl
  | some pin' =>
    cases hc : s.pins.lookup c with
    | none =>
      have hwritten := h.written c pin' hc hc'
      cases ha : pin'.anchored <;> simp_all
    | some pin =>
      obtain ⟨pin'', hpin'', ha⟩ := h.kept c pin hc
      rw [hc'] at hpin''
      cases hpin''
      simp [ha]

theorem note_of_lookup (h : s'.pins.lookup c = none ∨ s'.pins.lookup c = s.pins.lookup c) :
    unanchored s' c = note c s s' (unanchored s c) := by
  unfold unanchored note
  rcases h with h | h
  · rw [h]
    rfl
  · rw [h]
    cases s.pins.lookup c <;> rfl

theorem sound_step (hs : Sound s) (h : step fingerprint s e = some s') :
    Sound s' ∧ ∀ c, unanchored s' c = note c s s' (unanchored s c) := by
  cases e with
  | reload =>
    cases h
    exact ⟨sound_reload hs, fun c => note_of_lookup (.inr (lookup_reload hs.pinned _ _ _ c))⟩
  | prune held =>
    cases h
    exact ⟨sound_pruneAbsent hs held, fun c => note_of_lookup (prune_cases s held c)⟩
  | _ =>
    have hwrote := wrote_writes.step h rfl
    exact ⟨hwrote.sound hs, note_of_wrote hwrote⟩

theorem sound_run {es : List Event} (hs : Sound s) (h : (machine fingerprint).run s es = some s') :
    Sound s' ∧ ∀ c, unanchored s' c = writtenAs fingerprint c (unanchored s c) s es := by
  induction es generalizing s with
  | nil =>
    cases h
    exact ⟨hs, fun _ => rfl⟩
  | cons e es ih =>
    obtain ⟨t, ht, h⟩ := Option.bind_eq_some_iff.mp h
    obtain ⟨hst, hnote⟩ := sound_step hs ht
    obtain ⟨hs', hrest⟩ := ih hst h
    refine ⟨hs', fun c => ?_⟩
    have hstep : step fingerprint s e = some t := ht
    rw [hrest c, writtenAs, hstep, hnote c]

theorem sound_newStore : Sound newStore :=
  ⟨fromPersisted_wf _ _ _ _, fun _ h => absurd h not_mem_nil, fun _ h => absurd h not_mem_nil, nodup_nil, Nat.zero_le _⟩

/-- After every run from a new store: the store is sound, a prune spares whatever a held tree names, and a pin is
    unanchored exactly when its identity was remembered as pruned when it was written. -/
theorem pin_store_stays_sound {es : List Event} (h : (machine fingerprint).run newStore es = some s) :
    Sound s ∧
    (∀ held identity c, identity ∈ held → canonicalIdentity identity = some c →
      (s.pruneAbsent held).pins.lookup c = s.pins.lookup c ∧ (c ∈ (s.pruneAbsent held).pruned → c ∈ s.pruned)) ∧
    ∀ c, unanchored s c = writtenAs fingerprint c none newStore es := by
  obtain ⟨hs, hwritten⟩ := sound_run sound_newStore h
  exact ⟨hs, fun _ _ _ hheld hc => held_stays hheld hc, hwritten⟩

/-- A phone and a laptop seen in trees that were joined, a reload, and a prune by a device that holds neither tree any more: a
    store under its ceiling keeps both pins. -/
def twoPins : List Event :=
  phoneJoined ++ [.joined "canal" 1 [⟨0, "Bob:laptop", [2]⟩], .reload, .prune []]

theorem a_first_pin_is_anchored : ∃ s, (machine shown).run newStore twoPins = some s ∧ Sound s ∧
    unanchored s "alice:phone" = some false ∧ unanchored s "bob:laptop" = some false := by
  have hrun : ((machine shown).run newStore twoPins).isSome = true := by decide
  obtain ⟨s, hs⟩ := Option.isSome_iff_exists.mp hrun
  obtain ⟨hsound, -, hwritten⟩ := pin_store_stays_sound hs
  refine ⟨s, hs, hsound, (hwritten _).trans ?_, (hwritten _).trans ?_⟩
  · decide
  · decide

end Canari.Mls.PinStore
