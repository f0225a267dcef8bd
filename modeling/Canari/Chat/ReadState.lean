/-
  Canari.Chat.ReadState — read marks, and where the heads of the readers sit
  (`frontend/src/lib/utils/chat/readState.ts`, `frontend/src/lib/utils/chat/messageTime.ts`).

  A mark is an instant per participant on one of two clocks; a row is read when either covers
  it. `seenByAnchors` places a participant by two binary searches over suffix minima and a table
  of last writers, in one pass over the list. `heads_sit_where_a_scan_ends`: it is what
  a scan of the list for each participant finds, whatever the order of the list, and no one has
  two heads.
-/

import Canari.Lib.JsMap
import Canari.Lib.JsText
import Canari.Lib.LastMatch
import Mathlib.Algebra.Order.Ring.Rat
import Mathlib.Data.List.Induction

namespace Canari.Chat.ReadState

open Canari.Lib Canari.Lib.LastMatch List
open Canari.Lib.Utf16 (JsString)
open Canari.Lib.JsText (text trim sort Le)

/-! ## Rows and marks -/

inductive Double where
  | finite (ms : ℚ)
  | infinity
  | minusInfinity
  | nan

/-- What read marks look at of a message; a flag that is absent is not set, and a date that is not one
    has the time `none`. -/
structure MessageRow where
  id : JsString
  timestamp : Option ℚ
  serverTimestamp : Option Double
  senderId : JsString
  isOwn : Bool
  isSystem : Bool
  awaitingServerId : Bool

variable (msg : MessageRow)

def stampedTime : Option ℚ := msg.timestamp

def messageTime : Option ℚ :=
  match msg.serverTimestamp with
  | some (.finite server) => if 0 < server then some server else stampedTime msg
  | _ => stampedTime msg

def readOrderKey : Option ℚ := messageTime msg

/-- `time <= mark`. -/
def atMost (mark : ℚ) (time : Option ℚ) : Bool := time.any fun t => t ≤ mark

def isCoveredBy (stamped server : ℚ) : Bool :=
    (0 < server && atMost server (readOrderKey msg)) || atMost stamped (stampedTime msg)

abbrev ReadWatermarks := JsMap JsString ℚ

def isNotice : Bool := msg.isSystem || msg.senderId = text "system"

section Lower

variable (toLowerCase : JsString → JsString)

def watermarkFor (watermarks : Option ReadWatermarks)
    (userNorm : JsString) : ℚ := (watermarks.bind (·.get (toLowerCase userNorm))).getD 0

def participantsOf (watermarks serverWatermarks : Option ReadWatermarks) : List JsString :=
  ((watermarks.map JsMap.keys).getD [] ++ (serverWatermarks.map JsMap.keys).getD []).eraseDups

/-! ## Where a head sits -/

/-- `Math.min`. -/
def minTime : Option ℚ → Option ℚ → Option ℚ
  | some a, some b => some (min a b)
  | _, _ => none

/-- `(lo + hi) >> 1` halves: a list on screen is far shorter than 2^30 rows. -/
def lastAtOrBelow (suffixMin : List (Option ℚ)) (mark : ℚ) : Int :=
  lastWhere (fun mid => suffixMin[mid]?.any (atMost mark)) suffixMin.length 0 (suffixMin.length - 1) (-1)

variable (rows : List MessageRow)

def lastWritten : JsMap JsString Nat := rows.zipIdx.foldl (fun m row => m.set (toLowerCase row.1.senderId) row.2) .empty

def found (stamped server : ℚ) (userNorm : JsString) : Int :=
  max (max (if 0 < server then lastAtOrBelow (suffixMinima minTime (rows.map readOrderKey)) server else -1)
    (lastAtOrBelow (suffixMinima minTime (rows.map stampedTime)) stamped))
      (((lastWritten toLowerCase rows).get userNorm).elim (-1) Int.ofNat)

def placeHead (watermarks serverWatermarks : Option ReadWatermarks) (viewerNorm : JsString)
    (anchors : JsMap JsString (List JsString)) (userNorm : JsString) : JsMap JsString (List JsString) :=
  if userNorm = viewerNorm then anchors
  else
    let found := found toLowerCase rows (watermarkFor toLowerCase watermarks userNorm)
      (watermarkFor toLowerCase serverWatermarks userNorm) userNorm
    if found < 0 then anchors
    else
      match rows[found.toNat]? with
      | none => anchors
      | some anchor =>
        if toLowerCase anchor.senderId = userNorm then anchors
        else
          match anchors.get anchor.id with
          | some heads => anchors.set anchor.id (heads ++ [userNorm])
          | none => anchors.set anchor.id [userNorm]

def seenByAnchors (messages : List MessageRow) (watermarks : Option ReadWatermarks) (viewerId : JsString)
    (serverWatermarks : Option ReadWatermarks) : JsMap JsString (List JsString) :=
  let rows := messages.filter fun msg => !isNotice msg
  ((participantsOf watermarks serverWatermarks).foldl
    (placeHead toLowerCase rows watermarks serverWatermarks (toLowerCase (trim viewerId)))
    .empty).mapValues sort

/-! ## A plain scan -/

def markOf (watermarks : Option ReadWatermarks) (user : JsString) : ℚ := (watermarks.bind (·.get user)).getD 0

/-- The last row that is no notice and that this participant has read, by either mark, or wrote. -/
def lastRead (messages : List MessageRow) (watermarks serverWatermarks : Option ReadWatermarks)
    (user : JsString) : Option MessageRow :=
  messages.reverse.find? fun msg =>
    !isNotice msg && (isCoveredBy msg (markOf watermarks user)
      (markOf serverWatermarks user) || toLowerCase msg.senderId = user)

/-- The message a participant's head sits on: the last row they have read, and none when they wrote it. -/
def headOf (messages : List MessageRow) (watermarks serverWatermarks : Option ReadWatermarks)
    (user : JsString) : Option JsString :=
  match lastRead toLowerCase messages watermarks serverWatermarks user with
  | some row => if toLowerCase row.senderId = user then none else some row.id
  | none => none

def headsOn (messages : List MessageRow) (watermarks : Option ReadWatermarks) (viewerId : JsString)
    (serverWatermarks : Option ReadWatermarks)
    (id : JsString) : List JsString :=
  sort ((participantsOf watermarks serverWatermarks).filter fun user =>
    user ≠ toLowerCase (trim viewerId) ∧ headOf toLowerCase messages watermarks serverWatermarks user = some id)

end Lower

variable {toLowerCase : JsString → JsString}

/-! ## The search is the scan -/

theorem least_minTime (mark : ℚ) : Least minTime (atMost mark) (fun t => t.isSome = true) where
  closed := by
    intro a b ha hb
    obtain ⟨a, rfl⟩ := Option.isSome_iff_exists.mp ha
    obtain ⟨b, rfl⟩ := Option.isSome_iff_exists.mp hb
    rfl
  below_min := by
    intro a b ha hb
    obtain ⟨a, rfl⟩ := Option.isSome_iff_exists.mp ha
    obtain ⟨b, rfl⟩ := Option.isSome_iff_exists.mp hb
    simp [minTime, atMost]

theorem isLast_lastAtOrBelow {rows : List MessageRow} {key : MessageRow → Option ℚ}
    (hk : ∀ row ∈ rows, (key row).isSome = true) (mark : ℚ) :
    IsLast (fun i => rows[i]?.any (fun row => atMost mark (key row)) = true) rows.length
      (lastAtOrBelow (suffixMinima minTime (rows.map key)) mark) := by
  have hkeys : ∀ k ∈ rows.map key, k.isSome = true := by
    intro k hk'
    obtain ⟨row, hrow, rfl⟩ := mem_map.mp hk'
    exact hk row hrow
  have hlast := isLast_suffixMinima (least_minTime mark) hkeys
  rw [lastAtOrBelow, length_suffixMinima]
  rw [length_map] at hlast ⊢
  refine hlast.congr fun i _ => ?_
  rw [getElem?_map, Option.any_map]

theorem lastWritten_concat (rows : List MessageRow) (row : MessageRow) :
    lastWritten toLowerCase (rows ++ [row]) = (lastWritten toLowerCase rows).set
      (toLowerCase row.senderId) rows.length := by
  rw [lastWritten, zipIdx_append, foldl_append, Nat.zero_add]
  rfl

variable (toLowerCase) in
theorem isLast_lastWritten (rows : List MessageRow) (user : JsString) :
    IsLast (fun i => rows[i]?.any (fun row => toLowerCase row.senderId = user) = true) rows.length
      (((lastWritten toLowerCase rows).get user).elim (-1) Int.ofNat) := by
  induction rows using List.reverseRecOn with
  | nil => exact isLast_none fun i hi => absurd hi (Nat.not_lt_zero i)
  | append_singleton rows row ih =>
    rw [lastWritten_concat, JsMap.get_set, length_append]
    have hbefore : IsLast (fun i => (rows ++ [row])[i]?.any
      (fun row => toLowerCase row.senderId = user) = true) rows.length
        (((lastWritten toLowerCase rows).get user).elim (-1) Int.ofNat) := by
      refine ih.congr fun i hi => ?_
      rw [getElem?_append_left hi]
    by_cases h : user = toLowerCase row.senderId
    · rw [if_pos h]
      exact isLast_top (by simp [h])
    · rw [if_neg h]
      exact hbefore.succ (by simp [Ne.symm h])

variable (toLowerCase) in
theorem isLast_found {rows : List MessageRow} (hrows : ∀ row ∈ rows, row.timestamp.isSome = true) (stamped server : ℚ)
    (user : JsString) :
    IsLast (fun i => rows[i]?.any (fun row => isCoveredBy row stamped server || toLowerCase row.senderId = user) =
      true) rows.length
      (found toLowerCase rows stamped server user) := by
  have hkey : ∀ row ∈ rows, (readOrderKey row).isSome = true := by
    intro row hrow
    have hstamp := hrows row hrow
    rw [readOrderKey, messageTime]
    split
    · split
      · rfl
      · exact hstamp
    · exact hstamp
  have hserver : IsLast (fun i => rows[i]?.any (fun row => decide (0 < server) && atMost server (readOrderKey row)) =
    true) rows.length
      (if 0 < server then lastAtOrBelow (suffixMinima minTime (rows.map readOrderKey)) server else -1) := by
    split
    · rename_i hpos
      refine (isLast_lastAtOrBelow hkey server).congr fun i _ => ?_
      simp [hpos]
    · rename_i hpos
      refine isLast_none fun i hi => ?_
      simp [hpos]
  have hall := (hserver.or (isLast_lastAtOrBelow hrows stamped)).or (isLast_lastWritten toLowerCase rows user)
  refine hall.congr fun i hi => ?_
  simp [hi, isCoveredBy, stampedTime, or_assoc]

theorem lastRead_eq {messages : List MessageRow} {watermarks serverWatermarks : Option ReadWatermarks} {user : JsString}
    (hrows : ∀ row ∈ messages, row.timestamp.isSome = true) (hlower : toLowerCase user = user) :
    lastRead toLowerCase messages watermarks serverWatermarks user =
      let rows := messages.filter fun msg => !isNotice msg
      let found := found toLowerCase rows (watermarkFor toLowerCase watermarks user)
        (watermarkFor toLowerCase serverWatermarks user) user
      if found < 0 then none else rows[found.toNat]? := by
  have hmark : ∀ w, watermarkFor toLowerCase w user = markOf w user := by
    intro w
    rw [watermarkFor, hlower, markOf]
  have hshown : ∀ row ∈ messages.filter (fun msg => !isNotice msg), row.timestamp.isSome = true :=
    fun row hrow => hrows row (mem_filter.mp hrow).1
  have hscan := find?_reverse_of_isLast
    (isLast_found toLowerCase hshown (markOf watermarks user) (markOf serverWatermarks user) user)
  rw [lastRead, hmark, hmark]
  rw [← hscan, ← filter_reverse, find?_filter]
  congr 1
  funext msg
  rw [Bool.decide_and, Bool.decide_eq_true, Bool.decide_eq_true]

/-! ## The loop over the participants -/

def pushHead (anchors : JsMap JsString (List JsString)) (id user : JsString) : JsMap JsString (List JsString) :=
  anchors.set id ((anchors.get id).getD [] ++ [user])

section Loop

variable {messages : List MessageRow} {watermarks serverWatermarks : Option ReadWatermarks} {viewerNorm : JsString}

theorem placeHead_eq (hrows : ∀ row ∈ messages, row.timestamp.isSome = true) {user : JsString}
    (hlower : toLowerCase user = user)
    (anchors : JsMap JsString (List JsString)) :
    placeHead toLowerCase (messages.filter
      fun msg => !isNotice msg) watermarks serverWatermarks viewerNorm anchors user =
      (if user = viewerNorm then none else headOf toLowerCase messages watermarks serverWatermarks user).elim anchors
        fun id => pushHead anchors id user := by
  rw [placeHead, headOf, lastRead_eq hrows hlower]
  by_cases hviewer : user = viewerNorm
  · rw [if_pos hviewer, if_pos hviewer]
    rfl
  · rw [if_neg hviewer]
    dsimp only
    split
    · rfl
    · cases (messages.filter fun msg => !isNotice msg)[(found toLowerCase (messages.filter fun msg => !isNotice msg)
        (watermarkFor toLowerCase watermarks user) (watermarkFor toLowerCase serverWatermarks user) user).toNat]? with
      | none => rfl
      | some anchor =>
        dsimp only
        split
        · rfl
        · rw [Option.elim_some, pushHead]
          cases anchors.get anchor.id <;> rfl

/-- The heads on a message after the loop: those it had, then those of the participants who belong there. -/
theorem get_foldl_pushHead {headAt : JsString → Option JsString} (users : List JsString)
    (anchors : JsMap JsString (List JsString)) (id : JsString) :
    (users.foldl (fun anchors user => (headAt user).elim anchors fun id => pushHead anchors id user) anchors).get id =
      if users.filter (fun user => headAt user = some id) = [] then anchors.get id
      else some ((anchors.get id).getD [] ++ users.filter fun user => headAt user = some id) := by
  induction users generalizing anchors with
  | nil => rfl
  | cons user users ih =>
    rw [foldl_cons, ih, filter_cons]
    cases hu : headAt user with
    | none => simp
    | some place =>
      rw [Option.elim_some, pushHead]
      by_cases hid : id = place
      · subst hid
        by_cases hrest : users.filter (fun user => headAt user = some id) = []
        · simp [hrest]
        · simp [hrest]
      · simp [hid, Ne.symm hid]

theorem nodup_keys_pushHead {anchors : JsMap JsString (List JsString)} (h : anchors.keys.Nodup) (id user : JsString) :
    (pushHead anchors id user).keys.Nodup := JsMap.nodup_keys_set h _ _

theorem perm_pushHead {anchors : JsMap JsString (List JsString)} (h : anchors.keys.Nodup) (id user : JsString) :
    ((pushHead anchors id user).values.flatMap sort).Perm (user :: anchors.values.flatMap sort) := by
  have hsort : (sort ((anchors.get id).getD [] ++ [user])).Perm (user :: sort ((anchors.get id).getD [])) := by
    have hperm := (perm_insertionSort Le ((anchors.get id).getD [] ++ [user])).trans perm_append_comm
    exact hperm.trans ((perm_insertionSort Le ((anchors.get id).getD [])).symm.cons user)
  have hold := JsMap.perm_values_at (f := sort) (d := []) rfl h id
  exact (JsMap.perm_values_set sort h id _).trans ((hsort.append_right _).trans (hold.symm.cons user))

theorem perm_foldl_pushHead (headAt : JsString → Option JsString) (users : List JsString)
    {anchors : JsMap JsString (List JsString)}
    (h : anchors.keys.Nodup) :
    ((users.foldl (fun anchors user => (headAt user).elim anchors
      fun id => pushHead anchors id user) anchors).values.flatMap sort).Perm
      (users.filter (fun user => (headAt user).isSome) ++ anchors.values.flatMap sort) := by
  induction users generalizing anchors with
  | nil => exact .refl _
  | cons user users ih =>
    rw [foldl_cons, filter_cons]
    cases headAt user with
    | none => exact ih h
    | some id =>
      refine (ih (nodup_keys_pushHead h id user)).trans (((perm_pushHead h id user).append_left _).trans ?_)
      exact perm_middle

end Loop

theorem sort_eq_nil {l : List JsString} : sort l = [] ↔ l = [] := by
  refine ⟨fun h => ?_, fun h => by rw [h]; rfl⟩
  exact ((perm_insertionSort Le l).symm.trans (.of_eq h)).eq_nil

variable (toLowerCase) in
/-- The heads on each message are those a scan of the conversation for each participant finds, sorted;
    no one has two heads. -/
theorem heads_sit_where_a_scan_ends (messages : List MessageRow) (watermarks : Option ReadWatermarks)
    (viewerId : JsString)
    (serverWatermarks : Option ReadWatermarks) (hdated : ∀ row ∈ messages, row.timestamp.isSome = true)
    (hlower : ∀ user ∈ participantsOf watermarks serverWatermarks, toLowerCase user = user) :
    (∀ id, (seenByAnchors toLowerCase messages watermarks viewerId serverWatermarks).get id =
        if headsOn toLowerCase messages watermarks viewerId serverWatermarks id = [] then none
        else some (headsOn toLowerCase messages watermarks viewerId serverWatermarks id)) ∧
      (seenByAnchors toLowerCase messages watermarks viewerId serverWatermarks).values.flatten.Nodup := by
  have hloop : (participantsOf watermarks serverWatermarks).foldl
      (placeHead toLowerCase (messages.filter fun msg => !isNotice msg) watermarks serverWatermarks
        (toLowerCase (trim viewerId))) .empty =
      (participantsOf watermarks serverWatermarks).foldl (fun anchors user =>
        (if user = toLowerCase (trim viewerId) then none else
          headOf toLowerCase messages watermarks serverWatermarks user).elim anchors
          fun id => pushHead anchors id user) .empty :=
    foldl_ext _ _ _ fun anchors user hu => placeHead_eq hdated (hlower user hu) anchors
  refine ⟨fun id => ?_, ?_⟩
  · have hfilter : ((participantsOf watermarks serverWatermarks).filter fun user =>
        (if user = toLowerCase (trim viewerId) then none else
          headOf toLowerCase messages watermarks serverWatermarks user) = some id) =
        (participantsOf watermarks serverWatermarks).filter fun user =>
          user ≠ toLowerCase (trim viewerId) ∧
            headOf toLowerCase messages watermarks serverWatermarks user = some id := by
      refine filter_congr fun user _ => ?_
      by_cases h : user = toLowerCase (trim viewerId) <;> simp [h]
    rw [seenByAnchors, hloop, JsMap.get_mapValues, get_foldl_pushHead, hfilter, headsOn]
    simp only [sort_eq_nil]
    split <;> rfl
  · rw [seenByAnchors, hloop, JsMap.mapValues]
    have hparticipants : (participantsOf watermarks serverWatermarks).Nodup := JsMap.nodup_eraseDups _
    have hperm := @perm_foldl_pushHead
      (fun user => if user = toLowerCase (trim viewerId) then none else
        headOf toLowerCase messages watermarks serverWatermarks user)
      (participantsOf watermarks serverWatermarks) .empty nodup_nil
    have hnodup := hperm.nodup_iff.mpr (by simpa [JsMap.values, JsMap.empty] using hparticipants.filter _)
    simpa [JsMap.values, List.flatMap, Function.comp_def] using hnodup

/-- A conversation out of order: bob's late message is stamped before alice's, and a notice ends it. -/
def conversation : List MessageRow :=
  [⟨text "m1", some 10, some (.finite 12), text "Alice", false, false, false⟩,
    ⟨text "m2", some 30, none, text "bob", true, false, false⟩,
    ⟨text "m3", some 20, some (.finite 25), text "carol", false, false, false⟩,
      ⟨text "m4", some 40, none, text "system", false, false, false⟩]

def lowerAscii (s : JsString) : JsString := s.map fun u => if 0x41 ≤ u.toNat ∧ u.toNat ≤ 0x5a then u + 0x20 else u

def stampedMarks : Option ReadWatermarks := some ⟨[(text "dave", 15), (text "carol", 5)]⟩

def serverMarks : Option ReadWatermarks := some ⟨[(text "alice", 26), (text "bob", 50)]⟩

/-- Alice has read carol's message by the server's clock, dave one message by its stamp, carol nothing
    behind her own. -/
theorem three_readers :
    (∀ id, (seenByAnchors lowerAscii conversation stampedMarks (text "Bob ") serverMarks).get id =
      if headsOn lowerAscii conversation stampedMarks (text "Bob ") serverMarks id = [] then none
      else some (headsOn lowerAscii conversation stampedMarks (text "Bob ") serverMarks id)) ∧
    (seenByAnchors lowerAscii conversation stampedMarks (text "Bob ") serverMarks).entries =
      [(text "m1", [text "dave"]), (text "m3", [text "alice"])] :=
  ⟨(heads_sit_where_a_scan_ends lowerAscii conversation stampedMarks (text "Bob ") serverMarks (by decide) (by
    decide)).1,
    by decide⟩

end Canari.Chat.ReadState
