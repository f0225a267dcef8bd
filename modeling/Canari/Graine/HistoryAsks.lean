/-
  Canari.Graine.HistoryAsks — asks for a community's history that overlap
  (`frontend/src/lib/utils/graine/repair.ts`: `requestCommunityHistory`, from the reading of an
  incomplete answer to the send and its undo).

  A call reads whether an answer arrived in part, awaits, then in one stretch replaces the request
  in flight and the page record of `Graine.PagedHistory`, and sends. A send that fails drops the
  community's request in flight, whichever it is, and runs its undo. Calls of any community may be
  between any two of these, and an answer may close the request in flight. An ask is known by its
  number, in the order they were recorded; `alone` says that it replaced no request in flight.
  - `failed_asks_leave_no_trace`: in every run in which an ask fails only if it replaced no request
    in flight and every ask recorded after it has failed, a failed ask takes no other ask's request
    out of flight, the page record is the first one when all failed, and the re-ask is spent only
    by one that did not fail.
  - `a_failed_ask_drops_anothers_request`: without that, none of the three holds.
-/

import Canari.Graine.PagedHistory

namespace Canari.Graine.HistoryAsks

open Lib List Option Function
open Lib.Utf16 (JsString)
open Lib.JsText (text)
open Graine.PagedHistory (PageNumber PagedHistoryRecord Undo readAll noteHistoryAsked incompleteHistoryPages)

/-! ## The machine -/

structure Begun where
  workspaceId : JsString
  reask : Bool

inductive Fate where
  | pending
  | sent
  | failed
  deriving DecidableEq

structure Core where
  number : Nat
  requestId : JsString
  reask : Bool
  undo : Undo
  alone : Bool

structure Ask where
  workspaceId : JsString
  core : Core
  fate : Fate

/-- `historyRequest` has the request of an ask, by its number; `closed` has the asks whose request an answer ended. -/
structure St where
  storage : Option JsString
  historyRequest : JsString → Option Nat
  begun : List (Option Begun)
  asks : List Ask
  closed : List Nat

inductive Ev where
  | begin (workspaceId : JsString) (evenIfSeedsHeld seedsHeld : Bool)
  | record (k : Nat) (requestId : JsString)
  | sent (n : Nat)
  | failed (n : Nat)
  | answered (workspaceId : JsString)

variable (ν : Type) [PageNumber ν]

/-- `missingPages !== null && !evenIfSeedsHeld` -/
def St.reask (s : St) (w : JsString) (evenIfSeedsHeld seedsHeld : Bool) : Bool :=
  seedsHeld && (incompleteHistoryPages ν s.storage w).isSome && !evenIfSeedsHeld

def St.recorded (s : St) (w : JsString) (reask : Bool) (requestId : JsString) : St :=
  let (storage, undo) := noteHistoryAsked ν s.storage w requestId reask
  { s with
    storage := storage
    historyRequest := Function.update s.historyRequest w (some s.asks.length)
    asks := s.asks ++ [⟨w, ⟨s.asks.length, requestId, reask, undo, (s.historyRequest w).isNone⟩, .pending⟩] }

/-- The `catch` of the send. -/
def St.undone (s : St) (n : Nat) (a : Ask) : St :=
  { s with
    historyRequest := Function.update s.historyRequest a.workspaceId none
    storage := a.core.undo.run ν s.storage
    asks := s.asks.modify n ({ · with fate := .failed }) }

def step (s : St) : Ev → Option St
  | .begin w evenIfSeedsHeld seedsHeld =>
      some { s with begun := s.begun ++ [some ⟨w, s.reask ν w evenIfSeedsHeld seedsHeld⟩] }
  | .record k requestId =>
    (s.begun[k]?).join.map fun b => { s.recorded ν b.workspaceId b.reask requestId with begun := s.begun.set k none }
  | .sent n =>
    match s.asks[n]? with
    | some a => if a.fate = .pending then some { s with asks := s.asks.modify n ({ · with fate := .sent }) } else none
    | none => none
  | .failed n =>
    match s.asks[n]? with
    | some a => if a.fate = .pending then some (s.undone ν n a) else none
    | none => none
  | .answered w =>
    (s.historyRequest w).map fun n =>
      { s with historyRequest := Function.update s.historyRequest w none, closed := n :: s.closed }

def start (storage : Option JsString) : St := ⟨storage, fun _ => none, [], [], []⟩

def asks (storage : Option JsString) : Machine St Ev := ⟨(· = start storage), step ν⟩

def recordOf (s : St) (w : JsString) : Option PagedHistoryRecord := (readAll ν s.storage).get w

/-- An ask fails only if it replaced no request in flight and every ask of its community recorded after
    it has failed. -/
def LastAndAlone (s : St) : Ev → Prop
  | .failed n => ∀ a, s.asks[n]? = some a → a.core.alone = true ∧
      ∀ (m : Nat) b, n < m → s.asks[m]? = some b → b.workspaceId = a.workspaceId → b.fate = .failed
  | _ => True

/-- What a failed ask leaves of the others, for one community. -/
structure NoTrace (storage : Option JsString) (w : JsString) (s : St) : Prop where
  /-- The last ask that did not fail has its request in flight, until an answer closes it. -/
  inFlight : ∀ (n : Nat) a, s.asks[n]? = some a → a.workspaceId = w → a.fate ≠ .failed → n ∉ s.closed →
    (∀ (m : Nat) b, n < m → s.asks[m]? = some b → b.workspaceId = w → b.fate = .failed) → s.historyRequest w = some n
  record : (∀ a ∈ s.asks, a.workspaceId = w → a.fate = .failed) → recordOf ν s w = (readAll ν storage).get w
  reask : ∀ r, recordOf ν s w = some r → r.reasked = true →
    ((readAll ν storage).get w).any (·.reasked) = true ∨ ∃ a ∈ s.asks, a.workspaceId = w ∧ a.core.reask = true ∧
      a.fate ≠ .failed

/-! ## The asks that did not fail -/

def coreOf (w : JsString) (a : Ask) : Option Core := if a.workspaceId = w ∧ a.fate ≠ .failed then some a.core else none

def St.live (s : St) (w : JsString) : List Core := s.asks.filterMap (coreOf w)

def after (record : Option PagedHistoryRecord) (c : Core) : Option PagedHistoryRecord :=
  some ⟨c.requestId, none, 0, [], c.reask || record.any (·.reasked)⟩

/-- The request and the record are the last live ask's; an undo puts back what the asks before it left;
    and an ask that was alone comes behind one whose request was answered. -/
structure Inv (storage : Option JsString) (w : JsString) (s : St) : Prop where
  numbered : ∀ (n : Nat) a, s.asks[n]? = some a → a.core.number = n ∧ a.core.undo.workspaceId = a.workspaceId
  record : recordOf ν s w = (s.live w).foldl after ((readAll ν storage).get w)
  undo : ∀ before c behind, s.live w = before ++ c :: behind →
    c.undo = ⟨w, c.requestId, before.foldl after ((readAll ν storage).get w)⟩
  request : s.historyRequest w = (s.live w).getLast?.bind fun c => if c.number ∈ s.closed then none else some c.number
  alone : ∀ before c behind, s.live w = before ++ c :: behind → c.alone = true → ∀ b, before.getLast? = some b →
    b.number ∈ s.closed
  closedLt : ∀ n ∈ s.closed, n < s.asks.length

section Live

variable {ν} {s : St} {w : JsString} {storage : Option JsString}

theorem fits_after {record : Option PagedHistoryRecord} (h : ∀ r, record = some r → r.Fits) (cores : List Core) :
    ∀ r, cores.foldl after record = some r → r.Fits := by
  induction cores generalizing record with
  | nil => exact h
  | cons c cores ih =>
    refine ih ?_
    intro r hr
    cases hr
    exact ⟨Nat.zero_le _, Nat.zero_le _, by simp⟩

theorem fits_base (storage : Option JsString) (w : JsString) : ∀ r, (readAll ν storage).get w = some r → r.Fits :=
  fun _ hr => (PagedHistory.sound_readAll storage).get hr

theorem append_cons_eq_concat {α : Type} {l before behind : List α} {x c : α} (h : l ++ [x] = before ++ c :: behind) :
    (before = l ∧ c = x ∧ behind = []) ∨ ∃ rest, behind = rest ++ [x] ∧ l = before ++ c :: rest := by
  rcases eq_nil_or_concat behind with rfl | ⟨rest, y, rfl⟩
  · obtain ⟨rfl, rfl⟩ := append_singleton_inj.mp h
    exact .inl ⟨rfl, rfl, rfl⟩
  · have h' : l ++ [x] = (before ++ c :: rest) ++ [y] := by simpa using h
    obtain ⟨rfl, rfl⟩ := append_singleton_inj.mp h'
    exact .inr ⟨rest, by simp, rfl⟩

variable {n : Nat}

theorem filterMap_modify_same {α β : Type} {g : α → Option β} {f : α → α} {l : List α}
    (h : ∀ a, l[n]? = some a → g (f a) = g a) :
    (l.modify n f).filterMap g = l.filterMap g := by
  induction l generalizing n with
  | nil => simp
  | cons a l ih =>
    cases n with
    | zero => simp [filterMap_cons, h a (by simp)]
    | succ n =>
      rw [modify_succ_cons, filterMap_cons, filterMap_cons, ih fun b hb => h b (by simpa using hb)]

/-- Two states with the same live asks, record and request of a community. -/
theorem Inv.of_same {s' : St} (h : Inv ν storage w s)
    (hn : ∀ (n : Nat) a, s'.asks[n]? = some a → a.core.number = n ∧ a.core.undo.workspaceId = a.workspaceId)
    (hlive : s'.live w = s.live w) (hr : recordOf ν s' w = recordOf ν s w)
    (hq : s'.historyRequest w = s.historyRequest w)
    (hc : s'.closed = s.closed) (hlen : s.asks.length ≤ s'.asks.length) : Inv ν storage w s' := by
  refine ⟨hn, ?_, ?_, ?_, ?_, ?_⟩
  · rw [hr, hlive]
    exact h.record
  · rw [hlive]
    exact h.undo
  · rw [hq, hlive, hc]
    exact h.request
  · rw [hlive, hc]
    exact h.alone
  · rw [hc]
    exact fun n hn => (h.closedLt n hn).trans_le hlen

theorem live_recorded (s : St) (w v : JsString) (reask : Bool) (requestId : JsString) :
    (s.recorded ν v reask requestId).live w =
      s.live w ++ if v = w then
        [⟨s.asks.length, requestId, reask, (noteHistoryAsked ν s.storage v requestId reask).2,
        (s.historyRequest v).isNone⟩] else [] := by
  unfold St.recorded St.live
  by_cases hv : v = w
  · simp [coreOf, hv]
  · simp [coreOf, hv]

theorem numbered_recorded
    (h : ∀ (n : Nat) a, s.asks[n]? = some a → a.core.number = n ∧ a.core.undo.workspaceId = a.workspaceId)
    (v : JsString) (reask : Bool) (requestId : JsString) :
    ∀ (n : Nat) a, (s.recorded ν v reask requestId).asks[n]? = some a → a.core.number = n ∧
      a.core.undo.workspaceId = a.workspaceId := by
  intro n a ha
  have ha' : (s.asks ++ [_])[n]? = some a := ha
  rcases Nat.lt_or_ge n s.asks.length with hlt | hge
  · rw [getElem?_append_left hlt] at ha'
    exact h n a ha'
  · have hn : n = s.asks.length := by
      by_contra hne
      rw [getElem?_eq_none (by simp; omega)] at ha'
      cases ha'
    subst hn
    simp at ha'
    subst ha'
    exact ⟨rfl, rfl⟩

theorem inv_recorded (h : Inv ν storage w s) (v : JsString) (reask : Bool)
    (requestId : JsString) : Inv ν storage w (s.recorded ν v reask requestId) := by
  have hlen : s.asks.length ≤ (s.recorded ν v reask requestId).asks.length := by simp [St.recorded]
  by_cases hv : v = w
  · subst hv
    have hlive := @live_recorded ν _ s v v reask requestId
    rw [if_pos rfl] at hlive
    have hget : recordOf ν (s.recorded ν v reask requestId) v = some ⟨requestId, none, 0, [],
      reask || (recordOf ν s v).any (·.reasked)⟩ :=
      (PagedHistory.get_asked requestId reask).trans (if_pos rfl)
    refine ⟨numbered_recorded h.numbered v reask requestId, ?_, ?_, ?_, ?_, fun n hn => (h.closedLt n hn).trans_le hlen⟩
    · rw [hget, hlive, foldl_append, ← h.record]
      rfl
    · intro before c behind heq
      rw [hlive] at heq
      rcases append_cons_eq_concat heq with ⟨rfl, rfl, -⟩ | ⟨rest, -, hl⟩
      · rw [← h.record]
        rfl
      · exact h.undo before c rest hl
    · have hnew : s.asks.length ∉ s.closed := fun hin => lt_irrefl _ (h.closedLt _ hin)
      rw [hlive]
      have hreq : (s.recorded ν v reask requestId).historyRequest v = some s.asks.length := update_self ..
      rw [hreq]
      have hclosed : (s.recorded ν v reask requestId).closed = s.closed := rfl
      simp [hclosed, hnew]
    · intro before c behind heq halone b hb
      rw [hlive] at heq
      have hclosed : (s.recorded ν v reask requestId).closed = s.closed := rfl
      rw [hclosed]
      rcases append_cons_eq_concat heq with ⟨rfl, rfl, -⟩ | ⟨rest, -, hl⟩
      · -- nothing was in flight, so the last ask's request had been answered
        have hnone : s.historyRequest v = none := by simpa using halone
        have hreq := h.request
        rw [hnone, hb] at hreq
        by_contra hopen
        simp [hopen] at hreq
      · exact h.alone before c rest hl halone b hb
  · have hlive := @live_recorded ν _ s w v reask requestId
    rw [if_neg hv, append_nil] at hlive
    refine h.of_same (numbered_recorded h.numbered v reask requestId) hlive ?_ ?_ rfl hlen
    · exact (PagedHistory.get_asked requestId reask).trans (if_neg (Ne.symm hv))
    · exact update_of_ne (Ne.symm hv) _ _

theorem live_split {a : Ask} (ha : s.asks[n]? = some a) (hf : a.fate ≠ .failed)
    (hlast : ∀ (m : Nat) b, n < m → s.asks[m]? = some b → b.workspaceId = a.workspaceId → b.fate = .failed) :
    s.live a.workspaceId = (s.asks.take n).filterMap (coreOf a.workspaceId) ++ [a.core] ∧
      (s.asks.modify n ({ · with fate := .failed })).filterMap (coreOf a.workspaceId) = (s.asks.take n).filterMap
        (coreOf a.workspaceId) := by
  obtain ⟨hlt, hget⟩ := List.getElem?_eq_some_iff.mp ha
  have hsplit : s.asks = s.asks.take n ++ a :: s.asks.drop (n + 1) := by
    rw [← hget, getElem_cons_drop, take_append_drop]
  have hbehind : (s.asks.drop (n + 1)).filterMap (coreOf a.workspaceId) = [] := by
    rw [filterMap_eq_nil_iff]
    intro b hb
    obtain ⟨i, hi⟩ := getElem?_of_mem hb
    rw [getElem?_drop] at hi
    rw [coreOf, if_neg]
    intro hcond
    exact hcond.2 (hlast (n + 1 + i) b (by omega) hi hcond.1)
  constructor
  · unfold St.live
    conv => lhs; rw [hsplit]
    rw [filterMap_append, filterMap_cons, hbehind]
    simp [coreOf, hf]
  · have hmod : s.asks.modify n ({ · with fate := .failed }) = s.asks.take n ++ { a with fate := .failed } ::
      s.asks.drop (n + 1) := by
      rw [modify_eq_take_drop]
      have hdrop : s.asks.drop n = a :: s.asks.drop (n + 1) := by
        rw [← hget, getElem_cons_drop]
      rw [hdrop]
      rfl
    rw [hmod, filterMap_append, filterMap_cons, hbehind]
    simp [coreOf]

theorem numbered_modify (h : ∀ (n : Nat) a, s.asks[n]? = some a → a.core.number = n ∧
    a.core.undo.workspaceId = a.workspaceId) (n : Nat) (fate : Fate) :
    ∀ (m : Nat) a, (s.asks.modify n ({ · with fate := fate }))[m]? = some a → a.core.number = m ∧
      a.core.undo.workspaceId = a.workspaceId := by
  intro m a ha
  rw [getElem?_modify] at ha
  obtain ⟨b, hb, rfl⟩ := map_eq_some_iff.mp ha
  have hbn := h m b hb
  split
  · exact hbn
  · exact hbn

theorem inv_sent (h : Inv ν storage w s) {a : Ask} (ha : s.asks[n]? = some a) (hp : a.fate = .pending) :
    Inv ν storage w { s with asks := s.asks.modify n ({ · with fate := .sent }) } := by
  refine h.of_same (numbered_modify h.numbered n .sent) ?_ rfl rfl rfl (by simp)
  refine filterMap_modify_same fun b hb => ?_
  rw [ha] at hb
  cases hb
  simp [coreOf, hp]

theorem inv_failed (h : Inv ν storage w s) {a : Ask} (ha : s.asks[n]? = some a) (hp : a.fate = .pending)
    (halone : a.core.alone = true)
    (hlast : ∀ (m : Nat) b, n < m → s.asks[m]? = some b → b.workspaceId = a.workspaceId → b.fate = .failed) :
    Inv ν storage w (s.undone ν n a) := by
  have hnum := numbered_modify h.numbered n .failed
  by_cases hw : a.workspaceId = w
  · subst hw
    obtain ⟨hlive, hlive'⟩ := live_split ha (by rw [hp]; simp) hlast
    set before := (s.asks.take n).filterMap (coreOf a.workspaceId) with hbefore
    have hl' : (s.undone ν n a).live a.workspaceId = before := hlive'
    have hundo := h.undo before a.core [] hlive
    -- the ask is the recorded one, so its undo puts back what the asks before it left
    have hrec : recordOf ν s a.workspaceId = after
      (before.foldl after ((readAll ν storage).get a.workspaceId)) a.core := by
      rw [h.record, hlive, foldl_append]
      rfl
    have hput : recordOf ν (s.undone ν n a) a.workspaceId = before.foldl after
      ((readAll ν storage).get a.workspaceId) := by
      have hfits : ∀ r, a.core.undo.previous = some r → r.Fits := by
        rw [hundo]
        exact fits_after (fits_base storage a.workspaceId) before
      have hget := @PagedHistory.get_undone_recorded ν _ s.storage a.core.undo hfits _ (by rw [hundo]; exact hrec) (by
        rw [hundo])
      rw [hundo] at hget
      have hstorage : (s.undone ν n a).storage = a.core.undo.run ν s.storage := rfl
      rw [recordOf, hstorage, hundo]
      exact hget
    refine ⟨hnum, ?_, ?_, ?_, ?_, ?_⟩
    · rw [hput, hl']
    · intro pre c behind heq
      rw [hl'] at heq
      exact h.undo pre c (behind ++ [a.core]) (by rw [hlive, heq]; simp)
    · have hreq : (s.undone ν n a).historyRequest a.workspaceId = none := update_self ..
      rw [hreq, hl']
      cases hb : before.getLast? with
      | none => rfl
      | some b =>
        have hclosed : b.number ∈ (s.undone ν n a).closed := h.alone before a.core [] hlive halone b hb
        rw [bind_some, if_pos hclosed]
    · intro pre c behind heq
      rw [hl'] at heq
      exact h.alone pre c (behind ++ [a.core]) (by rw [hlive, heq]; simp)
    · intro m hm
      have := h.closedLt m hm
      simpa [St.undone] using this
  · refine h.of_same hnum ?_ ?_ ?_ rfl (by simp [St.undone])
    · refine filterMap_modify_same fun b hb => ?_
      rw [ha] at hb
      cases hb
      simp [coreOf, hw]
    · exact PagedHistory.get_undone_ne (by rw [(h.numbered n a ha).2]; exact Ne.symm hw)
    · exact update_of_ne (Ne.symm hw) _ _

theorem inv_answered (h : Inv ν storage w s) {v : JsString} (hv : s.historyRequest v = some n) (hlt : n < s.asks.length)
    (hw : v ≠ w → ∀ c ∈ s.live w, c.number ≠ n) :
    Inv ν storage w { s with historyRequest := Function.update s.historyRequest v none, closed := n :: s.closed } := by
  refine ⟨h.numbered, h.record, h.undo, ?_, ?_, ?_⟩
  · by_cases e : v = w
    · subst e
      have hreq := h.request
      rw [hv] at hreq
      dsimp only
      rw [update_self]
      cases hlast : (s.live v).getLast? with
      | none =>
        have hlast' : St.live { s with historyRequest := Function.update s.historyRequest v none, closed :=
          n :: s.closed } v = s.live v := rfl
        rw [hlast', hlast]
        rfl
      | some c =>
        rw [hlast, bind_some] at hreq
        have hc : c.number = n := by
          split at hreq
          · cases hreq
          · exact (some.inj hreq).symm
        have hlast' : St.live { s with historyRequest := Function.update s.historyRequest v none, closed :=
          n :: s.closed } v = s.live v := rfl
        rw [hlast', hlast, bind_some, if_pos (by simp [hc])]
    · dsimp only
      rw [update_of_ne (Ne.symm e), h.request]
      have hlive : St.live { s with historyRequest := Function.update s.historyRequest v none, closed :=
        n :: s.closed } w = s.live w := rfl
      rw [hlive]
      cases hlast : (s.live w).getLast? with
      | none => rfl
      | some c =>
        have hne := hw e c (mem_of_getLast? hlast)
        simp [hne]
  · intro before c behind heq halone b hb
    exact mem_cons_of_mem n (h.alone before c behind heq halone b hb)
  · intro m hm
    rcases mem_cons.mp hm with rfl | hm
    · exact hlt
    · exact h.closedLt m hm

end Live

/-! ## Runs -/

variable {ν} {storage : Option JsString} {s s' : St}

/-- An ask of one community is no ask of another. -/
theorem number_ne (h : ∀ w, Inv ν storage w s) {v w : JsString} (hvw : v ≠ w) {n : Nat}
    (hv : s.historyRequest v = some n) :
    n < s.asks.length ∧ ∀ c ∈ s.live w, c.number ≠ n := by
  have hreq := (h v).request
  rw [hv] at hreq
  obtain ⟨c, hc, hif⟩ := bind_eq_some_iff.mp hreq.symm
  have hcn : c.number = n := by
    split at hif
    · cases hif
    · exact some.inj hif
  obtain ⟨a, ha, hac⟩ := mem_filterMap.mp (mem_of_getLast? hc)
  obtain ⟨i, hi⟩ := getElem?_of_mem ha
  have hai : a.core = c ∧ a.workspaceId = v := by
    unfold coreOf at hac
    split at hac
    · rename_i hcond
      exact ⟨some.inj hac, hcond.1⟩
    · cases hac
  have hin : i = n := by
    have := ((h v).numbered i a hi).1
    rw [hai.1] at this
    omega
  subst hin
  refine ⟨(List.getElem?_eq_some_iff.mp hi).1, ?_⟩
  intro d hd hdn
  obtain ⟨b, hb, hbd⟩ := mem_filterMap.mp hd
  obtain ⟨j, hj⟩ := getElem?_of_mem hb
  have hbj : b.core = d ∧ b.workspaceId = w := by
    unfold coreOf at hbd
    split at hbd
    · rename_i hcond
      exact ⟨some.inj hbd, hcond.1⟩
    · cases hbd
  have hjn : j = i := by
    have := ((h v).numbered j b hj).1
    rw [hbj.1] at this
    omega
  subst hjn
  rw [hi] at hj
  cases hj
  exact hvw (hai.2.symm.trans hbj.2)

theorem inv_step {e : Ev} (h : ∀ w, Inv ν storage w s) (hok : LastAndAlone s e)
    (hs : step ν s e = some s') : ∀ w, Inv ν storage w s' := by
  intro w
  cases e with
  | begin v even held =>
    cases hs
    exact (h w).of_same (h w).numbered rfl rfl rfl rfl le_rfl
  | record k requestId =>
    obtain ⟨b, -, rfl⟩ := map_eq_some_iff.mp hs
    have hi := inv_recorded (h w) b.workspaceId b.reask requestId
    exact hi.of_same hi.numbered rfl rfl rfl rfl le_rfl
  | sent n =>
    simp only [step] at hs
    split at hs
    · rename_i a ha
      split at hs
      · rename_i hp
        cases hs
        exact inv_sent (h w) ha hp
      · cases hs
    · cases hs
  | failed n =>
    simp only [step] at hs
    split at hs
    · rename_i a ha
      split at hs
      · rename_i hp
        cases hs
        obtain ⟨halone, hlast⟩ := hok a ha
        exact inv_failed (h w) ha hp halone hlast
      · cases hs
    · cases hs
  | answered v =>
    obtain ⟨n, hn, rfl⟩ := map_eq_some_iff.mp hs
    have hlt : n < s.asks.length :=
      (number_ne h (show v ≠ v ++ [0] from fun e => by simpa using congrArg List.length e) hn).1
    exact inv_answered (h w) hn hlt fun hvw => (number_ne h hvw hn).2

theorem inv_of_reach (h : (asks ν storage).ReachBy LastAndAlone s) : ∀ w, Inv ν storage w s := by
  refine Machine.ReachBy.invariant ?_ (fun s e s' hi ho hs => @inv_step ν _ storage s s' e hi ho hs) h
  intro s hs w
  subst hs
  refine ⟨by simp [start], rfl, ?_, rfl, ?_, by simp [start]⟩
  · intro before c behind heq
    simp [St.live, start] at heq
  · intro before c behind heq
    simp [St.live, start] at heq

theorem reasked_after (cores : List Core) : ∀ record : Option PagedHistoryRecord,
    (cores.foldl after record).any (·.reasked) = true →
    record.any (·.reasked) = true ∨ ∃ c ∈ cores, c.reask = true := by
  induction cores with
  | nil => exact fun record h => .inl h
  | cons c cores ih =>
    intro record h
    rcases ih _ h with h | ⟨d, hd, hr⟩
    · simp only [after, any_some, Bool.or_eq_true] at h
      rcases h with h | h
      · exact .inr ⟨c, mem_cons_self, h⟩
      · exact .inl h
    · exact .inr ⟨d, mem_cons_of_mem c hd, hr⟩

theorem Inv.noTrace {w : JsString} (h : Inv ν storage w s) : NoTrace ν storage w s := by
  refine ⟨?_, ?_, ?_⟩
  · intro n a ha hw hf hopen hlast
    subst hw
    rw [h.request, (live_split ha hf hlast).1]
    have hn := (h.numbered n a ha).1
    simp [hn, hopen]
  · intro hall
    have hlive : s.live w = [] := by
      unfold St.live
      rw [filterMap_eq_nil_iff]
      intro a ha
      rw [coreOf, if_neg]
      intro hcond
      exact hcond.2 (hall a ha hcond.1)
    rw [h.record, hlive]
    rfl
  · intro r hr hre
    have hany : ((s.live w).foldl after ((readAll ν storage).get w)).any (·.reasked) = true := by
      rw [← h.record, hr]
      exact hre
    rcases reasked_after _ _ hany with hb | ⟨c, hc, hcr⟩
    · exact .inl hb
    · obtain ⟨a, ha, hac⟩ := mem_filterMap.mp hc
      unfold coreOf at hac
      split at hac
      · rename_i hcond
        cases hac
        exact .inr ⟨a, ha, hcond.1, hcr, hcond.2⟩
      · cases hac

/-- In every run in which an ask fails only if it replaced no request in flight and all asks of its
    community after it have failed, a failed ask leaves nothing of itself: not in what is in flight, not
    in the page record, and not on the re-ask. -/
theorem failed_asks_leave_no_trace (storage : Option JsString) (s : St) (h : (asks ν storage).ReachBy LastAndAlone s)
    (w : JsString) :
    NoTrace ν storage w s :=
  (inv_of_reach h w).noTrace

/-- An ask of a community is answered, another one is begun, and one of a second community is sent. -/
def askedThrice : List Ev :=
  [.begin (text "w") false false, .record 0 (text "a"), .sent 0, .answered (text "w"), .begin (text "w") true true,
    .record 1 (text "b"), .begin (text "v") false false, .record 2 (text "c"), .sent 2]

/-- The second ask fails: the third stays in flight, and the record of the first is put back. -/
theorem a_failed_ask_spares_the_others : ∃ s, (asks Json.Whole none).ReachBy LastAndAlone s ∧
    s.asks.map (·.fate) = [.sent, .failed, .sent] ∧ (recordOf Json.Whole s (text "w")).map (·.requestId) = some (text "a") ∧
    NoTrace Json.Whole none (text "w") s ∧ NoTrace Json.Whole none (text "v") s := by
  have hquiet : ∀ e ∈ askedThrice, ∀ s, LastAndAlone s e := by
    intro e he s
    simp only [askedThrice, mem_cons, not_mem_nil, or_false] at he
    rcases he with rfl | rfl | rfl | rfl | rfl | rfl | rfl | rfl | rfl <;> trivial
  have hr := Machine.reachBy_of_all askedThrice hquiet (.init (M := asks Json.Whole none) rfl) rfl
  have hfails : ∃ s, (asks Json.Whole none).ReachBy LastAndAlone s ∧ s.asks.map (·.fate) = [.sent, .failed, .sent] ∧
      (recordOf Json.Whole s (text "w")).map (·.requestId) = some (text "a") := by
    refine ⟨_, .step (Ev.failed 1) hr ?_ rfl, by decide, by decide +kernel⟩
    intro a ha
    cases ha
    refine ⟨rfl, ?_⟩
    intro m b hm hb hw
    rcases m with _ | _ | _ | m
    · cases hm
    · omega
    · cases hb
      cases hw
    · cases hb
  obtain ⟨s, hs, hf, hrec⟩ := hfails
  exact ⟨s, hs, hf, hrec, failed_asks_leave_no_trace none s hs (text "w"), failed_asks_leave_no_trace none s hs (text "v")⟩

/-! ## Asks that overlap -/

def incomplete : Option JsString :=
  PagedHistory.noteHistoryPage (noteHistoryAsked Json.Whole none (text "w") (text "r") false).1 (text "w")
    ⟨text "r", text "x", Json.Whole.of 0, Json.Whole.of 2⟩

/-- The request of an ask that was sent is gone when the next one fails; two asks that both fail, the
    first one first, leave the first one's record; and a re-ask that fails while another ask is in
    flight is spent all the same. -/
theorem a_failed_ask_drops_anothers_request :
    (∃ s, (asks Json.Whole none).Reach s ∧
      s.asks.map (fun a => (a.core.requestId, a.fate)) = [(text "a", .sent), (text "b", .failed)] ∧
      s.closed = [] ∧ s.historyRequest (text "w") = none) ∧
    (∃ s, (asks Json.Whole none).Reach s ∧ s.asks.map (·.fate) = [.failed, .failed] ∧
      (recordOf Json.Whole s (text "w")).map (·.requestId) = some (text "a") ∧
        (readAll Json.Whole none).get (text "w") = none) ∧
    (∃ s, (asks Json.Whole incomplete).Reach s ∧
      s.asks.map (fun a => (a.core.reask, a.fate)) = [(true, .failed), (false, .sent)] ∧
      (recordOf Json.Whole s (text "w")).map (·.reasked) = some true ∧
      ((readAll Json.Whole incomplete).get (text "w")).map (·.reasked) = some false) := by
  refine ⟨⟨_, Machine.reach_of_run [.begin (text "w") false false, .record 0 (text "a"), .sent 0,
    .begin (text "w") true true,
      .record 1 (text "b"), .failed 1] rfl rfl, by decide, rfl, by decide⟩, ?_, ?_⟩
  · exact ⟨_, Machine.reach_of_run [.begin (text "w") false false, .begin (text "w") true false, .record 0 (text "a"),
      .record 1 (text "b"), .failed 0, .failed 1] rfl rfl, by decide, by decide +kernel, by decide⟩
  · exact ⟨_, Machine.reach_of_run [.begin (text "w") false true, .begin (text "w") true true, .record 0 (text "a"),
      .record 1 (text "b"), .failed 0, .sent 1] rfl rfl, by decide +kernel, by decide +kernel, by decide +kernel⟩

end Canari.Graine.HistoryAsks
