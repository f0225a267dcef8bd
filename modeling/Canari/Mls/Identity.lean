/-
  Canari.Mls.Identity — what a leaf's credential names
  (`frontend/mls-core/src/device_trust.rs`).

  A device identity is `user:device`, with exactly one separator and two non-empty
  halves. A legacy credential is a bare user id with no separator. The user half is
  compared without ASCII case, the device half exactly.
-/

import Canari.Lib.JsText
import Mathlib.Data.String.Basic

namespace Canari.Mls.Identity

open Lib.JsText (not_mem_of_mem_splitOn)
open List

/-- `str::to_ascii_lowercase`. -/
def toAsciiLowercase (s : String) : String := String.ofList (s.toList.map Char.toLower)

variable (identity : String)

/-- `identity.split(':')` gives exactly two parts, neither empty. -/
def isWellFormedIdentity : Bool :=
  match identity.toList.splitOn ':' with
  | [user, device] => !user.isEmpty && !device.isEmpty
  | _ => false

/-- `identity.split_once(':')`: around the first separator. -/
def splitOnce : Option (String × String) :=
  match identity.toList.splitOn ':' with
  | user :: rest :: parts => some (String.ofList user, String.ofList ([':'].intercalate (rest :: parts)))
  | _ => none

def canonicalIdentity : Option String :=
  if isWellFormedIdentity identity then
    (splitOnce identity).map fun (user, device) => toAsciiLowercase user ++ ":" ++ device
  else none

def isLegacyBareIdentity : Bool := !identity.toList.isEmpty && !identity.toList.contains ':'

def canonicalUserId (userId : String) : String := toAsciiLowercase userId

def canonicalUserOf : Option String :=
  if isLegacyBareIdentity identity then some (canonicalUserId identity)
  else (canonicalIdentity identity).bind fun c => (splitOnce c).map (·.1)

example : canonicalUserOf "Alice:phone-1" = some "alice" := by decide

theorem toLower_toLower (c : Char) : c.toLower.toLower = c.toLower := by
  by_cases h : c.val ≥ 'A'.val ∧ c.val ≤ 'Z'.val
  · have hv : c.toLower.val = c.val + ('a'.val - 'A'.val) := by delta Char.toLower; rw [dif_pos h]
    -- a lowered letter lies past the upper-case ones
    have hn : ¬ (c.toLower.val ≥ 'A'.val ∧ c.toLower.val ≤ 'Z'.val) := by
      obtain ⟨h1, h2⟩ := h
      rw [ge_iff_le] at h1
      rw [UInt32.le_iff_toNat_le] at h2
      rw [hv, UInt32.le_iff_toNat_le, UInt32.toNat_add]
      show ¬ (65 ≤ (c.val.toNat + 32) % 2 ^ 32 ∧ (c.val.toNat + 32) % 2 ^ 32 ≤ 90)
      change 65 ≤ c.val.toNat at h1
      change c.val.toNat ≤ 90 at h2
      omega
    delta Char.toLower
    exact dif_neg hn
  · have hc : c.toLower = c := by delta Char.toLower; exact dif_neg h
    rw [hc, hc]

theorem toAsciiLowercase_idem (s : String) : toAsciiLowercase (toAsciiLowercase s) = toAsciiLowercase s := by
  simp only [toAsciiLowercase, String.toList_ofList, map_map]
  congr 1
  exact map_congr_left fun c _ => toLower_toLower c

theorem toLower_ne_colon {c : Char} (h : c ≠ ':') : c.toLower ≠ ':' := by
  intro e
  by_cases hc : c.val ≥ 'A'.val ∧ c.val ≤ 'Z'.val
  · have hv : c.toLower.val = c.val + ('a'.val - 'A'.val) := by delta Char.toLower; rw [dif_pos hc]
    rw [e] at hv
    obtain ⟨h1, h2⟩ := hc
    rw [ge_iff_le] at h1
    rw [UInt32.le_iff_toNat_le] at h2
    have hn := congrArg UInt32.toNat hv
    rw [UInt32.toNat_add] at hn
    change 58 = (c.val.toNat + 32) % 2 ^ 32 at hn
    change 65 ≤ c.val.toNat at h1
    change c.val.toNat ≤ 90 at h2
    omega
  · have hc' : c.toLower = c := by delta Char.toLower; exact dif_neg hc
    exact h (hc'.symm.trans e)

/-- The canonical form is its own canonical form. -/
theorem canonicalIdentity_canonical {identity c : String}
    (h : canonicalIdentity identity = some c) : canonicalIdentity c = some c := by
  unfold canonicalIdentity at h
  split at h
  swap
  · cases h
  next hwell =>
  unfold isWellFormedIdentity at hwell
  split at hwell
  swap
  · cases hwell
  next user device hparts =>
  rw [Bool.and_eq_true, Bool.not_eq_eq_eq_not] at hwell
  have hsplit : splitOnce identity = some (String.ofList user, String.ofList device) := by
    simp [splitOnce, hparts]
  rw [hsplit] at h
  obtain rfl : toAsciiLowercase (String.ofList user) ++ ":" ++ String.ofList device = c := Option.some.inj h
  have huser : ':' ∉ user.map Char.toLower := by
    intro hmem
    obtain ⟨x, hx, hlow⟩ := mem_map.mp hmem
    have hpart : user ∈ identity.toList.splitOn ':' := by rw [hparts]; exact mem_cons_self
    have hne : x ≠ ':' := fun e => not_mem_of_mem_splitOn hpart (e ▸ hx)
    exact toLower_ne_colon hne hlow
  have hdevice : ':' ∉ device :=
    not_mem_of_mem_splitOn (l := identity.toList) (by rw [hparts]; exact mem_cons_of_mem _ mem_cons_self)
  have hchars : (toAsciiLowercase (String.ofList user) ++ ":" ++ String.ofList device).toList.splitOn ':' =
    [user.map Char.toLower, device] := by
    have hlist : (toAsciiLowercase (String.ofList user) ++ ":" ++ String.ofList device).toList =
        [':'].intercalate [user.map Char.toLower, device] := by
      simp [toAsciiLowercase]
    rw [hlist]
    refine splitOn_intercalate ':' (fun l hl => ?_) (by simp)
    simp only [mem_cons, not_mem_nil, or_false] at hl
    rcases hl with rfl | rfl
    · exact huser
    · exact hdevice
  have hwell' : isWellFormedIdentity (toAsciiLowercase (String.ofList user) ++ ":" ++ String.ofList device) = true := by
    unfold isWellFormedIdentity
    rw [hchars]
    simpa using hwell
  have hsplit' : splitOnce (toAsciiLowercase (String.ofList user) ++ ":" ++ String.ofList device) =
      some (toAsciiLowercase (String.ofList user), String.ofList device) := by
    unfold splitOnce
    rw [hchars]
    simp [toAsciiLowercase]
  unfold canonicalIdentity
  rw [if_pos hwell', hsplit']
  simp [toAsciiLowercase_idem]

end Canari.Mls.Identity
