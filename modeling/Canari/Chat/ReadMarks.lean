/-
  Canari.Chat.ReadMarks — how the marks of a DM or a group move
  (`frontend/src/lib/utils/chat/readState.ts`; the handlers of
  `frontend/src/lib/mls-client/messagePipeline/systemMessageHandler.ts` and the own read of
  `frontend/src/lib/components/MainChatPage.svelte`).

  Three ways lead into the marks of the server's clock: reading an open conversation, a read frame
  of a member, and the marks a history bundle restates. Each bounds what it takes by something the
  server said: what it was last heard to say, or its time for the frame. What an input claims
  for a reader does not depend on the marks held (`claims`), and merging takes the greater
  (`heldMark_after_le`), so the marks are the greatest of all claims whatever the order
  (`server_marks_stay_behind_the_server`).
-/

import Canari.Chat.ReadState
import Mathlib.Algebra.Order.Monoid.Unbundled.WithTop
import Mathlib.Order.WithBot

namespace Canari.Chat.ReadMarks

open Canari.Lib Canari.Chat.ReadState List
open Canari.Lib.Utf16 (JsString)
open Canari.Lib.JsText (text)

/-! ## The marks -/

inductive ReadClock where
  | server
  | stamped
  deriving DecidableEq

structure Conversation where
  messages : List MessageRow
  readWatermarks : Option ReadWatermarks
  serverReadWatermarks : Option ReadWatermarks
  unreadCount : Option Nat

section Moves

variable (toLowerCase : JsString → JsString)

def mergeReadWatermark (watermarks : Option ReadWatermarks) (userId : JsString)
    (time : Double) : Option ReadWatermarks :=
  match time with
  | .finite ms =>
    if userId = [] ∨ ms ≤ 0 then none
    else
      let userNorm := toLowerCase userId
      let current := (watermarks.bind (·.get userNorm)).getD 0
      if ms ≤ current then none else some ((watermarks.getD .empty).set userNorm ms)
  | _ => none

def mergeEntry (acc : Option ReadWatermarks × Bool) (entry : JsString × Double) : Option ReadWatermarks × Bool :=
  match mergeReadWatermark toLowerCase acc.1 entry.1 entry.2 with
  | some merged => (some merged, true)
  | none => acc

def mergeReadWatermarks (watermarks : Option ReadWatermarks)
    (incoming : Option (JsMap JsString Double)) : Option ReadWatermarks :=
  match incoming with
  | none => none
  | some incoming =>
    let merged := incoming.entries.foldl (mergeEntry toLowerCase) (watermarks, false)
    if merged.2 then merged.1 else none

def isUnreadForUser (msg : MessageRow) (watermark serverWatermark : ℚ) : Bool :=
  if msg.isOwn || isNotice msg then false else !isCoveredBy msg watermark serverWatermark

variable (msgs : List MessageRow)

def countUnreadForUser (watermark serverWatermark : ℚ) : Nat :=
  msgs.foldl (fun total msg => total + if isUnreadForUser msg watermark serverWatermark then 1 else 0) 0

variable (convo : Conversation)

def Conversation.marks : ReadClock → Option ReadWatermarks
  | .server => convo.serverReadWatermarks
  | .stamped => convo.readWatermarks

def Conversation.setMarks (clock : ReadClock) (marks : Option ReadWatermarks) : Conversation :=
  match clock with
  | .server => { convo with serverReadWatermarks := marks }
  | .stamped => { convo with readWatermarks := marks }

def Conversation.withMarks (clock : ReadClock) (merged : Option ReadWatermarks) : Conversation :=
  match merged with
  | some marks => convo.setMarks clock (some marks)
  | none => convo

def withOwnReadAdvanced (userId : JsString) (time : Double) (clock : ReadClock) : Conversation :=
  let merged := mergeReadWatermark toLowerCase (convo.marks clock) userId time
  let moved := convo.withMarks clock merged
  let held := convo.unreadCount.getD 0
  let next := min held (countUnreadForUser convo.messages (watermarkFor toLowerCase moved.readWatermarks userId)
    (watermarkFor toLowerCase moved.serverReadWatermarks userId))
  if merged = none ∧ next = held then convo else { moved with unreadCount := some next }

def withReadMark (userId : JsString) (time : Double) (clock : ReadClock) : Option Conversation :=
  (mergeReadWatermark toLowerCase (convo.marks clock) userId time).map fun merged => convo.setMarks clock (some merged)

/-! ## What reading takes -/

def watermarkAfterReading (current : ℚ) (includeSystem : Bool) : ℚ :=
  msgs.foldl (fun highest msg =>
    if !includeSystem && isNotice msg then highest
    else if msg.awaitingServerId then highest
    else
      match readOrderKey msg with
      | some key => if highest < key then key else highest
      | none => highest) current

def heldServerTime : ℚ :=
  msgs.foldl (fun held msg =>
    match msg.serverTimestamp with
    | some (.finite ms) => if held < ms then ms else held
    | _ => held) 0

def serverMarkCeiling (serverSeen : ℚ) : ℚ :=
  let held := heldServerTime msgs
  if serverSeen ≤ 0 then 0 else if held = 0 then serverSeen else min held serverSeen

def readMarkTarget (current : ℚ) (isSalon : Bool) (serverSeen : ℚ) : ℚ :=
  if isSalon then watermarkAfterReading msgs current true
  else
    let target := watermarkAfterReading (msgs.filter fun msg => !msg.isOwn) current false
    max current (min target (serverMarkCeiling msgs serverSeen))

def readOpen (me : JsString) (serverSeen : ℚ) (convo : Conversation) : Conversation :=
  let held := watermarkFor toLowerCase convo.serverReadWatermarks me
  let target := readMarkTarget convo.messages held false serverSeen
  if target ≤ held then convo else withOwnReadAdvanced toLowerCase convo me (.finite target) .server

/-! ## What a frame says -/

variable {υ : Type} (Number : υ → Double)

/-- The fields of a `read_watermark` frame, whatever they hold; a field that is absent is a value too. -/
structure FrameData (υ : Type) where
  at? : υ
  serverAt : υ

structure ReadMark where
  time : Double
  clock : ReadClock

/-- `Number.isFinite(x) && x > 0`. -/
def usable : Double → Bool
  | .finite ms => 0 < ms
  | _ => false

/-- `x > 0`. -/
def positive : Double → Bool
  | .finite ms => 0 < ms
  | .infinity => true
  | _ => false

/-- `a <= b`. -/
def notAfter : Double → Double → Bool
  | .nan, _ => false
  | _, .nan => false
  | .minusInfinity, _ => true
  | _, .infinity => true
  | .finite a, .finite b => a ≤ b
  | _, _ => false

def readWatermarkFrameMark (data : FrameData υ) : Option ReadMark :=
  let server := Number data.serverAt
  if usable server then some ⟨server, .server⟩
  else
    let stamped := Number data.at?
    if usable stamped then some ⟨stamped, .stamped⟩ else none

/-- Why a mark is refused: the frame carries no server time to bound it, or `serverAt` is after the
    server accepted the frame. -/
inductive Refused where
  | noServerTime
  | afterFrame (serverAt frameServerAt : Double)

def receivedReadWatermarkMark (data : FrameData υ) (frameServerAt : Option Double) : Option ReadMark × Option Refused :=
  match readWatermarkFrameMark Number data with
  | none => (none, none)
  | some mark =>
    if mark.clock ≠ .server then (some mark, none)
    else
      match frameServerAt with
      | none => (none, some .noServerTime)
      | some frame =>
        if !positive frame then (none, some .noServerTime)
        else if !notAfter mark.time frame then (none, some (.afterFrame mark.time frame))
        else (some mark, none)

/-- A `read_watermark` frame of a member, this account's other devices among them. -/
def receiveFrame (me sender : JsString) (data : FrameData υ) (frameServerAt : Option Double)
    (convo : Conversation) : Conversation :=
  match (receivedReadWatermarkMark Number data frameServerAt).1 with
  | none => convo
  | some mark =>
    if sender = me then withOwnReadAdvanced toLowerCase convo sender mark.time mark.clock
    else (withReadMark toLowerCase convo sender mark.time mark.clock).getD convo

/-- One turn of the loop over a bundle's marks: those kept, and how many were dropped. A field named
    `__proto__` is never kept. -/
def boundMark (frameServerAt : Option Double) (acc : JsMap JsString Double × Nat)
    (entry : JsString × Double) : JsMap JsString Double × Nat :=
  match frameServerAt with
  | some bound =>
    if positive bound && notAfter entry.2 bound then
      (if entry.1 = text "__proto__" then acc.1 else acc.1.set entry.1 entry.2, acc.2)
    else (acc.1, acc.2 + 1)
  | none => (acc.1, acc.2 + 1)

def boundedServerMarks (marks : Option (JsMap JsString Double))
    (frameServerAt : Option Double) : Option (JsMap JsString Double) × Nat :=
  match marks with
  | none => (none, 0)
  | some marks =>
    let bounded := marks.entries.foldl (boundMark frameServerAt) (.empty, 0)
    (if bounded.1.entries = [] then none else some bounded.1, bounded.2)

def receiveBundle (readWatermarks serverReadWatermarks : Option (JsMap JsString Double))
    (frameServerAt : Option Double) (convo : Conversation) :
    Conversation :=
  let merged := mergeReadWatermarks toLowerCase convo.readWatermarks readWatermarks
  let mergedServer := mergeReadWatermarks toLowerCase convo.serverReadWatermarks
    (boundedServerMarks serverReadWatermarks frameServerAt).1
  (convo.withMarks .stamped merged).withMarks .server mergedServer

/-! ## Runs -/

inductive Action (υ : Type) where
  /-- The conversation is open on these rows. -/
  | read (messages : List MessageRow)
  | frame (sender : JsString) (data : FrameData υ) (frameServerAt : Option Double)
  | bundle (readWatermarks serverReadWatermarks : Option (JsMap JsString Double)) (frameServerAt : Option Double)

def Action.frameTime : Action υ → Option Double
  | .read _ => none
  | .frame _ _ frameServerAt => frameServerAt
  | .bundle _ _ frameServerAt => frameServerAt

/-- What the server was last heard to say when an input is processed; a frame's own time was noted before. -/
structure Input (υ : Type) where
  action : Action υ
  serverSeen : ℚ
  noted : ∀ frame, action.frameTime = some frame → positive frame = true → notAfter frame (.finite serverSeen) = true

def step (me : JsString) (convo : Conversation) (input : Input υ) : Conversation :=
  match input.action with
  | .read messages => readOpen toLowerCase me input.serverSeen { convo with messages }
  | .frame sender data frameServerAt => receiveFrame toLowerCase Number me sender data frameServerAt convo
  | .bundle readWatermarks serverReadWatermarks frameServerAt =>
      receiveBundle toLowerCase readWatermarks serverReadWatermarks frameServerAt convo

def after (me : JsString) (stamped : Option ReadWatermarks) (unreadCount : Option Nat)
    (inputs : List (Input υ)) : Conversation :=
  inputs.foldl (step toLowerCase Number me) ⟨[], stamped, none, unreadCount⟩

end Moves

/-! ## One merge -/

def heldMark (watermarks : Option ReadWatermarks) (user : JsString) : WithBot ℚ :=
  match watermarks.bind (·.get user) with
  | some ms => (ms : WithBot ℚ)
  | none => ⊥

section Claims

variable {toLowerCase : JsString → JsString}

variable (toLowerCase) in
def claim (user : JsString) (entry : JsString × Double) : WithBot ℚ :=
  match entry.2 with
  | .finite ms => if entry.1 ≠ [] ∧ toLowerCase entry.1 = user ∧ 0 < ms then (ms : WithBot ℚ) else ⊥
  | _ => ⊥

theorem heldMark_set (watermarks : Option ReadWatermarks) (key user : JsString) (ms : ℚ) :
    heldMark (some ((watermarks.getD .empty).set key ms)) user = if user = key then (ms : WithBot ℚ) else
      heldMark watermarks user := by
  rw [heldMark, Option.bind_some, JsMap.get_set]
  by_cases hu : user = key
  · rw [if_pos hu, if_pos hu]
  · rw [if_neg hu, if_neg hu]
    cases watermarks <;> rfl

variable {watermarks : Option ReadWatermarks} {user : JsString}

theorem heldMark_le_of_not_le {ms : ℚ}
    (h : ¬ ms ≤ (watermarks.bind (·.get user)).getD 0) : heldMark watermarks user ≤ (ms : WithBot ℚ) := by
  rw [heldMark]
  cases hg : watermarks.bind (·.get user) with
  | none => exact bot_le
  | some held =>
    rw [hg] at h
    exact WithBot.coe_le_coe.mpr (not_le.mp h).le

theorem le_heldMark_of_le {ms : ℚ} (hpos : 0 < ms)
    (h : ms ≤ (watermarks.bind (·.get user)).getD 0) : (ms : WithBot ℚ) ≤ heldMark watermarks user := by
  rw [heldMark]
  cases hg : watermarks.bind (·.get user) with
  | none =>
    rw [hg] at h
    exact absurd h (not_le.mpr hpos)
  | some held =>
    rw [hg] at h
    exact WithBot.coe_le_coe.mpr h

theorem heldMark_merge (watermarks : Option ReadWatermarks) (entry : JsString × Double) (user : JsString) :
    heldMark ((mergeReadWatermark toLowerCase watermarks entry.1 entry.2).or watermarks) user =
      max (heldMark watermarks user) (claim toLowerCase user entry) := by
  obtain ⟨key, time⟩ := entry
  cases time with
  | infinity => exact (max_bot_right _).symm
  | minusInfinity => exact (max_bot_right _).symm
  | nan => exact (max_bot_right _).symm
  | finite ms =>
    rw [mergeReadWatermark, claim]
    dsimp only
    by_cases hbad : key = [] ∨ ms ≤ 0
    · rw [if_pos hbad, if_neg (by grind), max_bot_right]
      rfl
    · rw [if_neg hbad]
      rw [not_or, not_le] at hbad
      by_cases hle : ms ≤ (watermarks.bind (·.get (toLowerCase key))).getD 0
      · rw [if_pos hle, Option.none_or]
        split
        · rename_i hc
          rw [max_eq_left]
          exact hc.2.1 ▸ le_heldMark_of_le hbad.2 hle
        · exact (max_bot_right _).symm
      · rw [if_neg hle, Option.some_or, heldMark_set]
        by_cases hu : user = toLowerCase key
        · rw [if_pos hu, if_pos ⟨hbad.1, hu.symm, hbad.2⟩, max_eq_right]
          exact hu ▸ heldMark_le_of_not_le hle
        · rw [if_neg hu, if_neg fun hc => hu hc.2.1.symm, max_bot_right]

theorem foldl_mergeEntry (entries : List (JsString × Double)) (watermarks : Option ReadWatermarks)
    {acc : Option ReadWatermarks × Bool}
    (hacc : if acc.2 then acc.1.isSome = true else acc.1 = watermarks) :
    let merged := entries.foldl (mergeEntry toLowerCase) acc
    merged.1 = entries.foldl (fun w e => (mergeReadWatermark toLowerCase w e.1 e.2).or w) acc.1 ∧
      if merged.2 then merged.1.isSome = true else merged.1 = watermarks := by
  induction entries generalizing acc with
  | nil => exact ⟨rfl, hacc⟩
  | cons e entries ih =>
    rw [foldl_cons, foldl_cons]
    cases hm : mergeReadWatermark toLowerCase acc.1 e.1 e.2 with
    | none =>
      have hentry : mergeEntry toLowerCase acc e = acc := by rw [mergeEntry, hm]
      rw [hentry]
      exact ih hacc
    | some merged =>
      have hentry : mergeEntry toLowerCase acc e = (some merged, true) := by rw [mergeEntry, hm]
      rw [hentry]
      exact @ih (some merged, true) rfl

theorem mergeReadWatermarks_or (watermarks : Option ReadWatermarks) (incoming : Option (JsMap JsString Double)) :
    (mergeReadWatermarks toLowerCase watermarks incoming).or watermarks =
      ((incoming.map JsMap.entries).getD []).foldl
        (fun w e => (mergeReadWatermark toLowerCase w e.1 e.2).or w) watermarks := by
  cases incoming with
  | none => rfl
  | some incoming =>
    obtain ⟨hfold, hchanged⟩ := @foldl_mergeEntry toLowerCase incoming.entries watermarks (watermarks, false) rfl
    rw [mergeReadWatermarks, Option.map_some, Option.getD_some, ← hfold]
    split
    · rename_i hc
      rw [if_pos hc] at hchanged
      obtain ⟨marks, hmarks⟩ := Option.isSome_iff_exists.mp hchanged
      rw [hmarks, Option.some_or]
    · rename_i hc
      rw [if_neg hc] at hchanged
      rw [Option.none_or, hchanged]

theorem heldMark_foldl_le (entries : List (JsString × Double)) (watermarks : Option ReadWatermarks) (user : JsString)
    (b : WithBot ℚ) :
    heldMark (entries.foldl (fun w e => (mergeReadWatermark toLowerCase w e.1 e.2).or w) watermarks) user ≤ b ↔
      heldMark watermarks user ≤ b ∧ ∀ e ∈ entries, claim toLowerCase user e ≤ b := by
  induction entries generalizing watermarks with
  | nil => simp
  | cons e entries ih => rw [foldl_cons, ih, heldMark_merge, max_le_iff, forall_mem_cons, and_assoc]

/-! ## One input -/

theorem server_withMarks (convo : Conversation) (merged : Option ReadWatermarks) :
    (convo.withMarks .server merged).serverReadWatermarks = merged.or convo.serverReadWatermarks := by
  cases merged <;> rfl

theorem server_withMarks_stamped (convo : Conversation) (merged : Option ReadWatermarks) :
    (convo.withMarks .stamped merged).serverReadWatermarks = convo.serverReadWatermarks := by
  cases merged <;> rfl

theorem server_withOwnReadAdvanced (convo : Conversation) (user : JsString) (time : Double) :
    (withOwnReadAdvanced toLowerCase convo user time .server).serverReadWatermarks =
      (mergeReadWatermark toLowerCase convo.serverReadWatermarks user time).or convo.serverReadWatermarks := by
  rw [withOwnReadAdvanced]
  split
  · rename_i h
    have hnone : mergeReadWatermark toLowerCase convo.serverReadWatermarks user time = none := h.1
    rw [hnone, Option.none_or]
  · exact server_withMarks convo _

theorem server_withOwnReadAdvanced_stamped (convo : Conversation) (user : JsString) (time : Double) :
    (withOwnReadAdvanced toLowerCase convo user time .stamped).serverReadWatermarks = convo.serverReadWatermarks := by
  rw [withOwnReadAdvanced]
  split
  · rfl
  · exact server_withMarks_stamped convo _

theorem server_withReadMark (convo : Conversation) (user : JsString) (time : Double) :
    ((withReadMark toLowerCase convo user time .server).getD convo).serverReadWatermarks =
      (mergeReadWatermark toLowerCase convo.serverReadWatermarks user time).or convo.serverReadWatermarks := by
  show ((mergeReadWatermark toLowerCase convo.serverReadWatermarks user time).map _
    |>.getD convo).serverReadWatermarks = _
  cases mergeReadWatermark toLowerCase convo.serverReadWatermarks user time <;> rfl

theorem server_withReadMark_stamped (convo : Conversation) (user : JsString) (time : Double) :
    ((withReadMark toLowerCase convo user time .stamped).getD convo).serverReadWatermarks =
      convo.serverReadWatermarks := by
  rw [withReadMark]
  cases mergeReadWatermark toLowerCase (convo.marks .stamped) user time <;> rfl

/-! ## Reading -/

def counts (includeSystem : Bool) (msg : MessageRow) : Bool := (includeSystem || !isNotice msg) && !msg.awaitingServerId

theorem watermarkAfterReading_cons (msg : MessageRow) (msgs : List MessageRow) (current : ℚ) (includeSystem : Bool) :
    watermarkAfterReading (msg :: msgs) current includeSystem =
      watermarkAfterReading msgs (if counts includeSystem msg then (readOrderKey msg).elim current (max current) else
        current) includeSystem := by
  rw [watermarkAfterReading, foldl_cons]
  congr 1
  rw [counts]
  cases includeSystem <;> cases isNotice msg <;> cases msg.awaitingServerId <;> cases readOrderKey msg <;>
    simp [max_def_lt]

theorem watermarkAfterReading_le (msgs : List MessageRow) (current : ℚ) (includeSystem : Bool) (b : ℚ) :
    watermarkAfterReading msgs current includeSystem ≤ b ↔
      current ≤ b ∧ ∀ msg ∈ msgs, counts includeSystem msg = true → ∀ key, readOrderKey msg = some key → key ≤ b := by
  induction msgs generalizing current with
  | nil => simp [watermarkAfterReading]
  | cons msg msgs ih =>
    rw [watermarkAfterReading_cons, ih, forall_mem_cons, ← and_assoc]
    refine and_congr_left fun _ => ?_
    cases counts includeSystem msg with
    | false => simp
    | true => cases readOrderKey msg <;> simp

theorem watermarkAfterReading_eq (msgs : List MessageRow) {current : ℚ} (hc : 0 ≤ current) (includeSystem : Bool) :
    watermarkAfterReading msgs current includeSystem = max current (watermarkAfterReading msgs 0 includeSystem) := by
  refine eq_of_forall_ge_iff fun b => ?_
  rw [max_le_iff, watermarkAfterReading_le, watermarkAfterReading_le, ← and_assoc]
  exact and_congr_left fun _ => ⟨fun h => ⟨h, hc.trans h⟩, fun h => h.1⟩

def ownClaim (msgs : List MessageRow) (serverSeen : ℚ) : ℚ :=
  min (watermarkAfterReading (msgs.filter fun msg => !msg.isOwn) 0 false) (serverMarkCeiling msgs serverSeen)

theorem readMarkTarget_eq (msgs : List MessageRow) {current : ℚ} (hc : 0 ≤ current) (serverSeen : ℚ) :
    readMarkTarget msgs current false serverSeen = max current (ownClaim msgs serverSeen) := by
  rw [readMarkTarget, if_neg Bool.false_ne_true, watermarkAfterReading_eq _ hc, ownClaim, max_min_distrib_left,
    max_min_distrib_left, ← max_assoc,
    max_self]

theorem ownClaim_le (msgs : List MessageRow) (serverSeen : ℚ) : ownClaim msgs serverSeen ≤ max serverSeen 0 := by
  refine (min_le_right _ _).trans ?_
  rw [serverMarkCeiling]
  split
  · exact le_max_right _ _
  · split
    · exact le_max_left _ _
    · exact (min_le_right _ _).trans (le_max_left _ _)

def Positive (watermarks : Option ReadWatermarks) : Prop := ∀ user ms, watermarks.bind (·.get user) = some ms → 0 < ms

theorem heldMark_readOpen (me : JsString) (serverSeen : ℚ) (convo : Conversation)
    (hpos : Positive convo.serverReadWatermarks) (user : JsString) :
    heldMark (readOpen toLowerCase me serverSeen convo).serverReadWatermarks user =
      max (heldMark convo.serverReadWatermarks user)
        (claim toLowerCase user (me, .finite (ownClaim convo.messages serverSeen))) := by
  have hc : 0 ≤ watermarkFor toLowerCase convo.serverReadWatermarks me := by
    rw [watermarkFor]
    cases hg : convo.serverReadWatermarks.bind (·.get (toLowerCase me)) with
    | none => exact le_rfl
    | some ms => exact (hpos _ _ hg).le
  rw [readOpen, readMarkTarget_eq _ hc, ← heldMark_merge]
  split
  · -- nothing is claimed that is not held
    rename_i hle
    have hheld : ownClaim convo.messages serverSeen ≤
      (convo.serverReadWatermarks.bind (·.get (toLowerCase me))).getD 0 := (le_max_right _ _).trans hle
    rw [mergeReadWatermark]
    rw [if_pos hheld, ite_self, Option.none_or]
  · rename_i hlt
    have htarget : max (watermarkFor toLowerCase convo.serverReadWatermarks me) (ownClaim convo.messages serverSeen) =
        ownClaim convo.messages serverSeen := max_eq_right (le_of_lt (by simpa using hlt))
    rw [htarget, server_withOwnReadAdvanced]

theorem claim_cases (user : JsString)
    (entry : JsString × Double) : claim toLowerCase user entry = ⊥ ∨ 0 < claim toLowerCase user entry := by
  rw [claim]
  split
  · split
    · rename_i h
      exact .inr (WithBot.coe_pos.mpr h.2.2)
    · exact .inl rfl
  · exact .inl rfl

theorem Positive.heldMark_cases (h : Positive watermarks) (user : JsString) :
    heldMark watermarks user = ⊥ ∨ 0 < heldMark watermarks user := by
  rw [heldMark]
  cases hg : watermarks.bind (·.get user) with
  | none => exact .inl rfl
  | some ms => exact .inr (WithBot.coe_pos.mpr (h user ms hg))

theorem positive_of_heldMark (h : ∀ user, heldMark watermarks user = ⊥ ∨ 0 < heldMark watermarks user) :
    Positive watermarks := by
  intro user ms hms
  have hu := h user
  rw [heldMark, hms] at hu
  rcases hu with hu | hu
  · exact absurd hu WithBot.coe_ne_bot
  · exact WithBot.coe_pos.mp hu

end Claims

/-! ## What an input claims -/

section Inputs

variable {toLowerCase : JsString → JsString} {υ : Type} {Number : υ → Double} {me : JsString}

variable (Number me) in
def claims (input : Input υ) : List (JsString × Double) :=
  match input.action with
  | .read messages => [(me, .finite (ownClaim messages input.serverSeen))]
  | .frame sender data frameServerAt =>
    match (receivedReadWatermarkMark Number data frameServerAt).1 with
    | some ⟨time, .server⟩ => [(sender, time)]
    | _ => []
  | .bundle _ serverReadWatermarks frameServerAt =>
      ((boundedServerMarks serverReadWatermarks frameServerAt).1.map JsMap.entries).getD []

theorem heldMark_step_le (convo : Conversation) (input : Input υ) (hpos : Positive convo.serverReadWatermarks)
    (user : JsString) (b : WithBot ℚ) :
    heldMark (step toLowerCase Number me convo input).serverReadWatermarks user ≤ b ↔
      heldMark convo.serverReadWatermarks user ≤ b ∧ ∀ e ∈ claims Number me input, claim toLowerCase user e ≤ b := by
  rw [step, claims]
  cases input.action with
  | read messages =>
    rw [heldMark_readOpen me input.serverSeen { convo with messages } hpos, max_le_iff, forall_mem_singleton]
  | frame sender data frameServerAt =>
    dsimp only
    rw [receiveFrame]
    cases (receivedReadWatermarkMark Number data frameServerAt).1 with
    | none => simp
    | some mark =>
      obtain ⟨time, clock⟩ := mark
      cases clock with
      | stamped =>
        have hsame : (if sender = me then withOwnReadAdvanced toLowerCase convo sender time .stamped
            else (withReadMark toLowerCase convo sender time .stamped).getD convo).serverReadWatermarks =
              convo.serverReadWatermarks := by
          split
          · exact server_withOwnReadAdvanced_stamped convo sender time
          · exact server_withReadMark_stamped convo sender time
        simp [hsame]
      | server =>
        have hmerge : (if sender = me then withOwnReadAdvanced toLowerCase convo sender time .server
            else (withReadMark toLowerCase convo sender time .server).getD convo).serverReadWatermarks =
            (mergeReadWatermark toLowerCase convo.serverReadWatermarks sender time).or convo.serverReadWatermarks := by
          split
          · exact server_withOwnReadAdvanced convo sender time
          · exact server_withReadMark convo sender time
        rw [hmerge, heldMark_merge convo.serverReadWatermarks (sender, time), max_le_iff, forall_mem_singleton]
  | bundle readWatermarks serverReadWatermarks frameServerAt =>
    dsimp only
    rw [receiveBundle, server_withMarks, server_withMarks_stamped, mergeReadWatermarks_or, heldMark_foldl_le]

theorem heldMark_le_step (convo : Conversation) (input : Input υ) (hpos : Positive convo.serverReadWatermarks)
    (user : JsString) :
    heldMark convo.serverReadWatermarks user ≤ heldMark
      (step toLowerCase Number me convo input).serverReadWatermarks user :=
  ((heldMark_step_le convo input hpos user _).mp le_rfl).1

theorem positive_step (convo : Conversation) (input : Input υ) (hpos : Positive convo.serverReadWatermarks) :
    Positive (step toLowerCase Number me convo input).serverReadWatermarks := by
  refine positive_of_heldMark fun user => ?_
  by_cases hle : heldMark (step toLowerCase Number me convo input).serverReadWatermarks user ≤ 0
  · -- everything merged is nothing, or it would be above zero
    obtain ⟨hheld, hclaims⟩ := (heldMark_step_le convo input hpos user 0).mp hle
    refine .inl (le_bot_iff.mp ((heldMark_step_le convo input hpos user ⊥).mpr ⟨?_, fun e he => ?_⟩))
    · rcases hpos.heldMark_cases user with h | h
      · exact h.le
      · exact absurd hheld (not_le.mpr h)
    · rcases claim_cases user e with h | h
      · exact h.le
      · exact absurd (hclaims e he) (not_le.mpr h)
  · exact .inr (not_le.mp hle)

/-! ## What the server said bounds every claim -/

theorem notAfter_trans {a b c : Double} (h : notAfter a b = true) (h' : notAfter b c = true) : notAfter a c = true := by
  cases a <;> cases b <;> cases c <;> simp_all [notAfter]
  exact le_trans h h'

theorem claim_le_of_notAfter {key : JsString} {time : Double} {serverSeen : ℚ}
    (h : notAfter time (.finite serverSeen) = true) :
    claim toLowerCase user (key, time) ≤ (serverSeen : WithBot ℚ) := by
  rw [claim]
  cases time with
  | finite ms =>
    dsimp only
    split
    · exact WithBot.coe_le_coe.mpr (by simpa [notAfter] using h)
    · exact bot_le
  | _ => exact bot_le

variable {frameServerAt : Option Double} {e : JsString × Double}

theorem mem_foldl_boundMark {entries : List (JsString × Double)} {acc : JsMap JsString Double × Nat}
    (h : e ∈ (entries.foldl (boundMark frameServerAt) acc).1.entries) :
    e ∈ acc.1.entries ∨ ∃ bound, frameServerAt = some bound ∧ positive bound = true ∧ notAfter e.2 bound = true := by
  induction entries generalizing acc with
  | nil => exact .inl h
  | cons d entries ih =>
    rcases ih h with h | h
    · cases frameServerAt with
      | none => exact .inl h
      | some bound =>
        rw [boundMark] at h
        split at h
        · rename_i hb
          rw [Bool.and_eq_true] at hb
          split at h
          · exact .inl h
          · rcases JsMap.mem_entries_set h with rfl | h
            · exact .inr ⟨bound, rfl, hb⟩
            · exact .inl h
        · exact .inl h
    · exact .inr h

theorem mem_boundedServerMarks {marks : Option (JsMap JsString Double)}
    (h : e ∈ ((boundedServerMarks marks frameServerAt).1.map JsMap.entries).getD []) :
    ∃ bound, frameServerAt = some bound ∧ positive bound = true ∧ notAfter e.2 bound = true := by
  cases marks with
  | none => cases h
  | some marks =>
    rw [boundedServerMarks] at h
    split at h
    · cases h
    · rcases mem_foldl_boundMark h with h | h
      · cases h
      · exact h

theorem received_server {data : FrameData υ} {time : Double}
    (h : (receivedReadWatermarkMark Number data frameServerAt).1 = some ⟨time, .server⟩) :
    ∃ frame, frameServerAt = some frame ∧ positive frame = true ∧ notAfter time frame = true := by
  rw [receivedReadWatermarkMark] at h
  split at h
  · cases h
  · split at h
    · rename_i hclock
      obtain rfl := Option.some.inj h
      exact absurd rfl hclock
    · split at h
      · cases h
      · rename_i frame
        split at h
        · cases h
        · rename_i hpos
          split at h
          · cases h
          · rename_i hle
            obtain rfl := Option.some.inj h
            exact ⟨frame, rfl, by simpa using hpos, by simpa using hle⟩

theorem claim_le_serverSeen (input : Input υ) (he : e ∈ claims Number me input) (user : JsString) :
    claim toLowerCase user e ≤ (input.serverSeen : WithBot ℚ) := by
  obtain ⟨action, serverSeen, noted⟩ := input
  cases action with
  | read messages =>
    obtain rfl := mem_singleton.mp he
    have hle := ownClaim_le messages serverSeen
    rw [claim]
    dsimp only
    split
    · rename_i h
      rcases le_max_iff.mp hle with hle | hle
      · exact WithBot.coe_le_coe.mpr hle
      · exact absurd hle (not_le.mpr h.2.2)
    · exact bot_le
  | frame sender data frameServerAt =>
    rw [claims] at he
    dsimp only at he
    split at he
    · rename_i time hmark
      obtain rfl := mem_singleton.mp he
      obtain ⟨frame, hframe, hpos, hle⟩ := received_server hmark
      exact claim_le_of_notAfter (notAfter_trans hle (noted frame hframe hpos))
    · cases he
  | bundle readWatermarks serverReadWatermarks frameServerAt =>
    obtain ⟨bound, hframe, hpos, hle⟩ := mem_boundedServerMarks he
    exact claim_le_of_notAfter (notAfter_trans hle (noted bound hframe hpos))

/-! ## Every order -/

variable {stamped : Option ReadWatermarks} {unreadCount : Option Nat}

variable (inputs : List (Input υ))

theorem after_concat (input : Input υ) :
    after toLowerCase Number me stamped unreadCount (inputs ++ [input]) =
      step toLowerCase Number me (after toLowerCase Number me stamped unreadCount inputs) input := by
  rw [after, foldl_append]
  rfl

theorem positive_after : Positive (after toLowerCase Number me stamped unreadCount inputs).serverReadWatermarks := by
  induction inputs using List.reverseRecOn with
  | nil =>
    intro user ms h
    cases h
  | append_singleton inputs input ih =>
    rw [after_concat]
    exact positive_step _ input ih

theorem heldMark_after_le (user : JsString) (b : WithBot ℚ) :
    heldMark (after toLowerCase Number me stamped unreadCount inputs).serverReadWatermarks user ≤ b ↔
      ∀ input ∈ inputs, ∀ e ∈ claims Number me input, claim toLowerCase user e ≤ b := by
  induction inputs using List.reverseRecOn with
  | nil =>
    have hnone : heldMark (after toLowerCase Number me stamped unreadCount
      ([] : List (Input υ))).serverReadWatermarks user = ⊥ := rfl
    simp [hnone]
  | append_singleton inputs input ih =>
    rw [after_concat, heldMark_step_le _ input (positive_after inputs), ih, forall_mem_append, forall_mem_singleton]

theorem heldMark_eq_iff {w w' : Option ReadWatermarks} :
    heldMark w user = heldMark w' user ↔ w.bind (·.get user) = w'.bind (·.get user) := by
  rw [heldMark, heldMark]
  cases w.bind (·.get user) <;> cases w'.bind (·.get user) <;> simp

theorem heldMark_le_coe_iff {w : Option ReadWatermarks} {b : ℚ} :
    heldMark w user ≤ (b : WithBot ℚ) ↔ ∀ ms, w.bind (·.get user) = some ms → ms ≤ b := by
  rw [heldMark]
  cases w.bind (·.get user) <;> simp

variable (toLowerCase Number me stamped unreadCount) in
/-- In every order and with any repetition: no mark of the server's clock falls, the marks do not depend
    on the order, none is above what the server has said, and so none covers a message the server dates
    later. -/
theorem server_marks_stay_behind_the_server :
    (∀ (inputs : List (Input υ)) (input : Input υ) (user : JsString),
      heldMark (after toLowerCase Number me stamped unreadCount inputs).serverReadWatermarks user ≤
        heldMark (after toLowerCase Number me stamped unreadCount (inputs ++ [input])).serverReadWatermarks user) ∧
    (∀ inputs inputs' : List (Input υ), (∀ input, input ∈ inputs ↔ input ∈ inputs') → ∀ user,
      (after toLowerCase Number me stamped unreadCount inputs).serverReadWatermarks.bind (·.get user) =
        (after toLowerCase Number me stamped unreadCount inputs').serverReadWatermarks.bind (·.get user)) ∧
    ∀ (inputs : List (Input υ)) (said : ℚ), (∀ input ∈ inputs, input.serverSeen ≤ said) →
      (∀ user ms, (after toLowerCase Number me stamped unreadCount inputs).serverReadWatermarks.bind
        (·.get user) = some ms → ms ≤ said) ∧
      ∀ (row : MessageRow) (ms : ℚ), row.serverTimestamp = some (.finite ms) → said < ms →
        ∀ (user : JsString) (mark : ℚ),
        isCoveredBy row mark (watermarkFor toLowerCase
          (after toLowerCase Number me stamped unreadCount inputs).serverReadWatermarks user) =
          isCoveredBy row mark 0 := by
  refine ⟨fun inputs input user => ?_, fun inputs inputs' hmem user => ?_, fun inputs said hsaid => ?_⟩
  · rw [after_concat]
    exact heldMark_le_step _ input (positive_after inputs) user
  · refine (heldMark_eq_iff).mp (eq_of_forall_ge_iff fun b => ?_)
    rw [heldMark_after_le, heldMark_after_le]
    exact ⟨fun h input hi => h input ((hmem input).mpr hi), fun h input hi => h input ((hmem input).mp hi)⟩
  · have hbound : ∀ user ms, (after toLowerCase Number me stamped unreadCount inputs).serverReadWatermarks.bind
      (·.get user) = some ms → ms ≤ said := by
      intro user
      refine (heldMark_le_coe_iff).mp ((heldMark_after_le inputs user _).mpr fun input hi e he => ?_)
      exact (claim_le_serverSeen input he user).trans (WithBot.coe_le_coe.mpr (hsaid input hi))
    refine ⟨hbound, fun row ms hrow hlater user mark => ?_⟩
    rw [watermarkFor]
    cases hg : (after toLowerCase Number me stamped unreadCount inputs).serverReadWatermarks.bind
      (·.get (toLowerCase user)) with
    | none => rfl
    | some held =>
      have hle := hbound _ _ hg
      have hpos := positive_after inputs _ _ hg
      have htime : readOrderKey row = some ms := by
        rw [readOrderKey, messageTime, hrow]
        exact if_pos (hpos.trans_le (hle.trans hlater.le))
      rw [isCoveredBy, isCoveredBy, htime, atMost]
      simp [not_le.mpr (hle.trans_lt hlater)]

end Inputs

def rowAt (server : ℚ) : MessageRow :=
  ⟨text "m", some 150, some (.finite server), text "bob", false, false, false⟩

/-- Bob says he read up to 90; a bundle claims 500 for bob, which is above its frame's time, and 95 for carol; and this user
    reads a row dated 200 when the server was last heard at 100. -/
def hostileInputs : List (Input Double) :=
  [⟨.frame (text "bob") ⟨.nan, .finite 90⟩ (some (.finite 100)), 100, by decide⟩,
   ⟨.bundle none (some ⟨[(text "bob", .finite 500), (text "carol", .finite 95)]⟩) (some (.finite 100)), 100, by decide⟩,
   ⟨.read [rowAt 200], 100, by decide⟩]

def hostileMarks (inputs : List (Input Double)) : List (Option ℚ) :=
  [text "bob", text "carol", text "me"].map fun user =>
    (after id id (text "me") none none inputs).serverReadWatermarks.bind (·.get user)

/-- The marks in either order: none is above 100, and a row the server dates 150 is not covered for this user. -/
theorem hostile_marks_stay_behind : hostileMarks hostileInputs = [some 90, some 95, some 100] ∧
    hostileMarks hostileInputs.reverse = hostileMarks hostileInputs ∧
    isCoveredBy (rowAt 150) 0 (watermarkFor id (after id id (text "me") none none hostileInputs).serverReadWatermarks
      (text "me")) = false := by
  obtain ⟨-, horder, hbehind⟩ := server_marks_stay_behind_the_server id (id : Double → Double) (text "me") none none
  refine ⟨by decide, map_congr_left fun user _ => horder _ _ (fun input => mem_reverse) user, ?_⟩
  rw [(hbehind hostileInputs 100 (by decide)).2 (rowAt 150) 150 rfl (by decide) (text "me") 0]
  decide

end Canari.Chat.ReadMarks
