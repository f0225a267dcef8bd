/-
  Canari.Graine.Departures — the run tracker and the session manager put together.

  The MLS manager merges its own and other people's commits, with or without a summary,
  is moved to another epoch by a Welcome or an external join, forgets groups, writes
  checkpoints and restores any of them (`mls.bin` holds the tree and the runs, so both go
  back together; the Graine store does not go back with them). Beside it the session
  manager reserves slots: `read` is `graineRun` answering a reading, and a call may go on
  from any reading ever taken, however late it hears of it. Run ids are fresh when drawn.

  The machine remembers the run ids with the epoch each was drawn at (`drawn`) and every
  reading with the epoch it was read at (`readings`). A reading is after a commit when the
  commit is in the history of the epoch it was read at: a restored checkpoint from before
  the commit has not merged it, and catches up on it like any other.

  Proved: `departed_never_holds_a_later_seal`. A device restored to a checkpoint from before a
  departure is before it again until it catches up: it goes on with the session it had
  (`a_restored_device_is_before_the_departure`).
-/

import Canari.Graine.Run

namespace Canari.Graine.Departures

open Lib List Option Function
open Graine.Run
open Graine.SessionManager (GraineRunReading GraineRotationAnchor GraineOutboundSlot StoredGraineSession
  GraineOutboundScope Platform Phase Call)

structure St where
  mls : Manager
  checkpoints : List Manager
  drawn : List (String × Epoch)
  readings : List (GraineRunReading × Epoch)
  sessions : SessionManager.St

inductive Ev where
  /-- A commit of ours or somebody else's is merged; no run id when it cannot be summarised. -/
  | merge (g : String) (c : Commit) (runId : Option String)
  /-- A Welcome or an external join: the group is replaced and nothing is summarised. -/
  | move (g : String) (e : Epoch)
  | forget (g : String)
  | checkpoint
  | restore (k : Nat)
  | read (g : String) (runId : String)
  | send (e : SessionManager.Ev)

def freshRun (s : St) (runId : String) : Bool := !s.drawn.any (·.1 == runId)

def readingOk (s : St) : SessionManager.Ev → Bool
  | .ran _ run _ _ => s.readings.any (·.1 == run)
  | _ => true

def step (K : Crypto) (P : Platform) (s : St) : Ev → Option St
  | .merge g c runId =>
    match s.mls.groups g, runId with
    | some before, some runId =>
      if freshRun s runId then
        some { s with mls := observeMerge K s.mls g before c (some runId), drawn :=
          s.drawn ++ [(runId, before.push c)] }
      else none
    | some before, none => some { s with mls := observeMerge K s.mls g before c none }
    | none, _ => none
  | .move g e => some { s with mls := { s.mls with groups := Function.update s.mls.groups g (some e) } }
  | .forget g => some { s with mls := forgetGroup s.mls g }
  | .checkpoint => some { s with checkpoints := s.checkpoints ++ [s.mls] }
  | .restore k => s.checkpoints[k]?.map fun m => { s with mls := m }
  | .read g runId =>
    match s.mls.groups g, graineRun K s.mls g runId with
    | some e, some (run, m) =>
      if freshRun s runId then
        some { s with mls := m, drawn := s.drawn ++ [(runId, e)], readings := s.readings ++ [(run, e)] }
      else none
    | _, _ => none
  | .send e =>
    if readingOk s e then (SessionManager.step P s.sessions e).map fun t => { s with sessions := t } else none

def Init (s : St) : Prop :=
  s.mls = ⟨fun _ => none, fun _ => none⟩ ∧ s.checkpoints = [] ∧ s.drawn = [] ∧ s.readings = [] ∧
    SessionManager.Init s.sessions

def machine (K : Crypto) (P : Platform) : Machine St Ev := ⟨Init, step K P⟩

/-! ## Clean runs -/

/-- A commit in the history of an epoch that removed a leaf or brought a user: `p` are the commits before it. -/
def DepartsAt (K : Crypto) (e : Epoch) (p : List Commit) (c : Commit) : Prop :=
  p ++ [c] <+: e.commits ∧ Departs K (leavesAfter e.founding p) c

/-- One instance of one group, at two epochs of its history. -/
structure SameInstance (m e : Epoch) : Prop where
  group : m.group = e.group
  inst : m.inst = e.inst
  founding : m.founding = e.founding

/-- From `m` on, up to `e`, nobody left and nobody new came. -/
structure Clean (K : Crypto) (m e : Epoch) : Prop extends SameInstance m e where
  earlier : m.commits <+: e.commits
  none : ∀ p c, DepartsAt K e p c → p ++ [c] <+: m.commits

theorem clean_refl (K : Crypto) (e : Epoch) : Clean K e e := by
  refine ⟨⟨rfl, rfl, rfl⟩, prefix_refl _, fun p c h => h.1⟩

variable {K : Crypto} {e : Epoch}

theorem clean_push {m : Epoch} (h : Clean K m e) {c : Commit} (hc : ¬ Departs K e.leaves c) : Clean K m (e.push c) := by
  refine ⟨⟨h.group, h.inst, h.founding⟩, h.earlier.trans (prefix_append _ _), fun p d hd => ?_⟩
  obtain ⟨hp, hdep⟩ := hd
  rcases prefix_concat_iff.mp hp with he | hp
  · -- the departing commit would be the one just merged
    obtain ⟨hpe, hdc⟩ := append_inj' he rfl
    rw [hpe, (List.cons.inj hdc).1] at hdep
    exact absurd hdep hc
  · exact h.none p d ⟨hp, hdep⟩

theorem clean_share {st m : Epoch} (hm : Clean K st m) (he : Clean K st e) :
    SameInstance m e ∧ ∀ p c, DepartsAt K e p c → p ++ [c] <+: m.commits := by
  refine ⟨⟨?_, ?_, ?_⟩, fun p c h => (he.none p c h).trans hm.earlier⟩
  · rw [← hm.group, he.group]
  · rw [← hm.inst, he.inst]
  · rw [← hm.founding, he.founding]

/-! ## The tracker -/

/-- A run id stands for the epochs reached cleanly from where it was drawn. -/
def RunAt (K : Crypto) (drawn : List (String × Epoch)) (runId : String) (e : Epoch) : Prop :=
  ∃ st, (runId, st) ∈ drawn ∧ Clean K st e

def RunsOk (K : Crypto) (drawn : List (String × Epoch)) (m : Manager) : Prop :=
  ∀ g run, m.runs g = some run → ∃ e, run.epochFingerprint = K.fingerprint e ∧ RunAt K drawn run.runId e

structure Tracks (K : Crypto) (s : St) : Prop where
  once : ∀ id e e', (id, e) ∈ s.drawn → (id, e') ∈ s.drawn → e = e'
  held : RunsOk K s.drawn s.mls
  saved : ∀ m ∈ s.checkpoints, RunsOk K s.drawn m
  readings : ∀ p ∈ s.readings, p.1.epochFingerprint = K.fingerprint p.2 ∧ RunAt K s.drawn p.1.runId p.2

variable {drawn : List (String × Epoch)} {id : String}

theorem runAt_mono {drawn' : List (String × Epoch)} (h : ∀ p ∈ drawn, p ∈ drawn')
    (hr : RunAt K drawn id e) : RunAt K drawn' id e := by
  obtain ⟨st, hst, hc⟩ := hr
  exact ⟨st, h _ hst, hc⟩

theorem runsOk_mono {drawn' : List (String × Epoch)} (h : ∀ p ∈ drawn, p ∈ drawn') {m : Manager}
    (hm : RunsOk K drawn m) : RunsOk K drawn' m := by
  intro g run hg
  obtain ⟨e, hf, hr⟩ := hm g run hg
  exact ⟨e, hf, runAt_mono h hr⟩

variable {s : St}

theorem freshRun_spec (h : freshRun s id = true) : ∀ p ∈ s.drawn, p.1 ≠ id := by
  simpa [freshRun] using h

theorem once_draw (hf : freshRun s id = true)
    (h : ∀ id e e', (id, e) ∈ s.drawn → (id, e') ∈ s.drawn → e = e') :
    ∀ id' x y, (id', x) ∈ s.drawn ++ [(id, e)] → (id', y) ∈ s.drawn ++ [(id, e)] → x = y := by
  intro id' x y hx hy
  have fresh := freshRun_spec hf
  rcases mem_append.mp hx with hx | hx
  · rcases mem_append.mp hy with hy | hy
    · exact h id' x y hx hy
    · cases mem_singleton.mp hy
      exact absurd rfl (fresh _ hx)
  · cases mem_singleton.mp hx
    rcases mem_append.mp hy with hy | hy
    · exact absurd rfl (fresh _ hy)
    · cases mem_singleton.mp hy
      rfl

theorem runsOk_merge (hK : Injective K.fingerprint) {m : Manager}
    (h : RunsOk K drawn m) (g : String) (before : Epoch) (c : Commit) (runId : String) :
    RunsOk K (drawn ++ [(runId, before.push c)]) (observeMerge K m g before c (some runId)) := by
  intro g' run hg
  rcases update_eq_some_iff.mp hg with ⟨rfl, hr⟩ | ⟨_, hg⟩
  · refine ⟨before.push c, ?_⟩
    rcases observeCommit_cases K (m.runs g') before c runId with ⟨r, hrun, hfp, hnd, he⟩ | he
    · rw [← hr, he]
      obtain ⟨e, hef, st, hst, hcl⟩ := h g' r hrun
      have hee : before = e := hK (hfp.symm.trans hef)
      subst hee
      exact ⟨rfl, st, mem_append_left _ hst, clean_push hcl hnd⟩
    · rw [← hr, he]
      exact ⟨rfl, before.push c, by simp, clean_refl K _⟩
  · exact runsOk_mono (fun p hp => mem_append_left _ hp) h g' run hg

variable {run : GraineRunReading}

theorem graineRun_spec (hK : Injective K.fingerprint) {m m' : Manager}
    (h : RunsOk K drawn m) {g runId : String} (hg : m.groups g = some e)
    (hr : graineRun K m g runId = some (run, m')) :
    run.epochFingerprint = K.fingerprint e ∧ RunAt K (drawn ++ [(runId, e)]) run.runId e ∧ RunsOk K (drawn ++ [(runId, e)]) m' := by
  have hmono : ∀ p ∈ drawn, p ∈ drawn ++ [(runId, e)] := fun p hp => mem_append_left _ hp
  have new : RunAt K (drawn ++ [(runId, e)]) runId e := ⟨e, by simp, clean_refl K e⟩
  have fresh : RunsOk K (drawn ++ [(runId, e)]) { m with runs := Function.update m.runs g (some ⟨runId, K.fingerprint e⟩) } := by
    intro g' r hg'
    rcases update_eq_some_iff.mp hg' with ⟨rfl, rfl⟩ | ⟨_, hg'⟩
    · exact ⟨e, rfl, new⟩
    · exact runsOk_mono hmono h g' r hg'
  simp only [graineRun, hg, map_some, some.injEq] at hr
  split at hr
  · rename_i r hmr
    split at hr
    · rename_i hfp
      cases hr
      obtain ⟨e', hef, hra⟩ := h g r hmr
      have hee : e = e' := hK (hfp.symm.trans hef)
      subst hee
      exact ⟨rfl, runAt_mono hmono hra, runsOk_mono hmono h⟩
    · cases hr
      exact ⟨rfl, new, fresh⟩
  · cases hr
    exact ⟨rfl, new, fresh⟩

theorem tracks_init (h : Init s) : Tracks K s := by
  obtain ⟨hm, hc, hd, hr, _⟩ := h
  refine ⟨?_, ?_, ?_, ?_⟩
  · simp [hd]
  · intro g run hg
    rw [hm] at hg
    cases hg
  · simp [hc]
  · simp [hr]

variable {s' : St}

/-- What the tracker's facts need of a step that draws at most one run id. -/
theorem tracks_drawn (h : Tracks K s) (hd : ∀ p ∈ s.drawn, p ∈ s'.drawn)
    (once : ∀ id e e', (id, e) ∈ s'.drawn → (id, e') ∈ s'.drawn → e = e') (held : RunsOk K s'.drawn s'.mls)
    (hc : s'.checkpoints = s.checkpoints)
    (hr : ∀ p ∈ s'.readings, p ∈ s.readings ∨
    (p.1.epochFingerprint = K.fingerprint p.2 ∧ RunAt K s'.drawn p.1.runId p.2)) :
    Tracks K s' := by
  refine ⟨once, held, fun m hm => runsOk_mono hd (h.saved m (hc ▸ hm)), fun p hp => ?_⟩
  rcases hr p hp with hp | hp
  · exact ⟨(h.readings p hp).1, runAt_mono hd (h.readings p hp).2⟩
  · exact hp

variable {P : Platform}

theorem tracks_step (hK : Injective K.fingerprint) {e : Ev} (h : Tracks K s)
    (hs : step K P s e = some s') : Tracks K s' := by
  cases e with
  | merge g c runId =>
    simp only [step] at hs
    split at hs
    · rename_i before id hg
      split at hs
      · rename_i hf; cases hs
        exact tracks_drawn h (fun p hp => mem_append_left _ hp) (once_draw hf h.once)
          (runsOk_merge hK h.held g before c id) rfl (fun p hp => Or.inl hp)
      · cases hs
    · rename_i before hg; cases hs
      refine tracks_drawn h (fun p hp => hp) h.once (fun g' run hg' => ?_) rfl (fun p hp => Or.inl hp)
      exact h.held g' run (update_none_eq_some_iff.mp hg').2
    · cases hs
  | move g e =>
    cases hs
    exact tracks_drawn h (fun p hp => hp) h.once h.held rfl (fun p hp => Or.inl hp)
  | forget g =>
    cases hs
    refine tracks_drawn h (fun p hp => hp) h.once (fun g' run hg' => ?_) rfl (fun p hp => Or.inl hp)
    exact h.held g' run (update_none_eq_some_iff.mp hg').2
  | checkpoint =>
    cases hs
    refine ⟨h.once, h.held, fun m hm => ?_, h.readings⟩
    rcases mem_append.mp hm with hm | hm
    · exact h.saved m hm
    · rw [mem_singleton.mp hm]; exact h.held
  | restore k =>
    obtain ⟨m, hm, rfl⟩ := map_eq_some_iff.mp hs
    exact ⟨h.once, h.saved m (mem_of_getElem? hm), h.saved, h.readings⟩
  | read g id =>
    simp only [step] at hs
    split at hs
    · rename_i e run m hg hr
      split at hs
      · rename_i hf; cases hs
        obtain ⟨hfp, hra, hok⟩ := graineRun_spec hK h.held hg hr
        refine tracks_drawn h (fun p hp => mem_append_left _ hp) (once_draw hf h.once) hok rfl (fun p hp => ?_)
        rcases mem_append.mp hp with hp | hp
        · exact Or.inl hp
        · rw [mem_singleton.mp hp]; exact Or.inr ⟨hfp, hra⟩
      · cases hs
    · cases hs
  | send ev =>
    simp only [step] at hs
    split at hs
    · obtain ⟨t, _, rfl⟩ := map_eq_some_iff.mp hs
      exact ⟨h.once, h.held, h.saved, h.readings⟩
    · cases hs

/-! ## What the session manager's anchors stand for -/

/-- An anchor of a session: minted at a reading of the anchor's run, and last handed over at
    another reading of it, whose fingerprint it keeps. -/
def Anchored (mints : List (String × GraineRunReading)) (readings : List (GraineRunReading × Epoch)) (id : String)
    (a : GraineRotationAnchor) : Prop :=
  ∃ r m r' e, (id, r) ∈ mints ∧ (r, m) ∈ readings ∧ (r', e) ∈ readings ∧ r.runId = a.runId ∧ r'.runId = a.runId ∧
    a.epochFingerprint = r'.epochFingerprint

section Sessions

variable (A : String → GraineRotationAnchor → Prop) (R : GraineRunReading → Prop)

def SessionOk (x : StoredGraineSession) : Prop := ∃ a, x.rotationAnchor = some a ∧ A x.sessionId a

/-- The session was handed over, or minted, at the reading the slot was reserved with. -/
def SlotOk (x : StoredGraineSession) (run : GraineRunReading) : Prop :=
  R run ∧ ∃ a, x.rotationAnchor = some a ∧ A x.sessionId a ∧ a.epochFingerprint = run.epochFingerprint

def PhaseOk : Phase → Prop
  | .judging _ current => ∀ x, current = some x → SessionOk A x
  | .endorsing x run | .distributing x run => SlotOk A R x run
  | .redistributing x a run => R run ∧ x.rotationAnchor = some a ∧ A x.sessionId a ∧ a.runId = run.runId
  | .saving slot run | .written slot run => SlotOk A R slot.session run
  | _ => True

structure Anchors (t : SessionManager.St) : Prop where
  store : ∀ x ∈ t.store, x.sentCount.isSome → SessionOk A x
  calls : ∀ i c, t.calls i = some c → PhaseOk A R c.phase
  slots : ∀ p ∈ t.slots, SlotOk A R p.1.session p.2

variable {A R}

variable {A' : String → GraineRotationAnchor → Prop}

theorem slotOk_mono {R' : GraineRunReading → Prop} (hA : ∀ id a, A id a → A' id a)
    (hR : ∀ r, R r → R' r) {x : StoredGraineSession} (h : SlotOk A R x run) : SlotOk A' R' x run := by
  obtain ⟨hr, a, ha, hA', hf⟩ := h
  exact ⟨hR _ hr, a, ha, hA _ _ hA', hf⟩

variable {t : SessionManager.St}

theorem anchors_mono {R' : GraineRunReading → Prop} (hA : ∀ id a, A id a → A' id a)
    (hR : ∀ r, R r → R' r) (h : Anchors A R t) : Anchors A' R' t := by
  have session : ∀ x, SessionOk A x → SessionOk A' x := by
    intro x ⟨a, ha, hx⟩
    exact ⟨a, ha, hA _ _ hx⟩
  refine ⟨fun x hx hn => session x (h.store x hx hn), fun i c hi => ?_, fun p hp => slotOk_mono hA hR (h.slots p hp)⟩
  have hp := h.calls i c hi
  cases hc : c.phase with
  | judging now current => rw [hc] at hp; exact fun x hx => session x (hp x hx)
  | endorsing x run => rw [hc] at hp; exact slotOk_mono hA hR hp
  | distributing x run => rw [hc] at hp; exact slotOk_mono hA hR hp
  | redistributing x a run =>
    rw [hc] at hp
    obtain ⟨hr, ha, hx, hid⟩ := hp
    exact ⟨hR _ hr, ha, hA _ _ hx, hid⟩
  | saving slot run => rw [hc] at hp; exact slotOk_mono hA hR hp
  | written slot run => rw [hc] at hp; exact slotOk_mono hA hR hp
  | _ => trivial

variable {t' : SessionManager.St}

theorem anchors_call (h : Anchors A R t) {i : Nat} {scope : GraineOutboundScope} {p : Phase}
    (hc : t'.calls = Function.update t.calls i (some ⟨scope, p⟩)) (hs : t'.store = t.store) (hsl : t'.slots = t.slots)
    (hp : PhaseOk A R p) : Anchors A R t' := by
  refine ⟨by rw [hs]; exact h.store, fun j c hj => ?_, by rw [hsl]; exact h.slots⟩
  rw [hc] at hj
  rcases update_eq_some_iff.mp hj with ⟨_, rfl⟩ | ⟨_, hj⟩
  · exact hp
  · exact h.calls j c hj

theorem verdict_anchor {x : StoredGraineSession} {a : GraineRotationAnchor} {now : Int}
    (ha : x.rotationAnchor = some a) :
    (SessionManager.graineOutboundVerdict (some x) run now = .reuse → a.epochFingerprint = run.epochFingerprint) ∧
    (SessionManager.graineOutboundVerdict (some x) run now = .redistribute → a.runId = run.runId) := by
  simp only [SessionManager.graineOutboundVerdict, ha]
  split
  · simp
  split
  · rename_i hf
    exact ⟨fun _ => hf, by simp⟩
  split
  · simp
  · rename_i hid
    exact ⟨by split <;> simp, fun _ => not_not.mp hid⟩

/-- The verdict on a reading: reuse keeps an anchor of the epoch read, re-distribution one of
    the run read, and a new session is anchored at the reading itself. -/
theorem anchors_ran (h : Anchors A R t) {i : Nat} {scope : GraineOutboundScope} {now : Int}
    {current : Option StoredGraineSession} {seed : String}
    (hi : t.calls i = some ⟨scope, .judging now current⟩) (hr : R run)
    (new : (id, run) ∈ t'.mints → A id ⟨run.runId, run.epochFingerprint, false⟩)
    (hs : SessionManager.judge t i scope now current run id seed = some t') : Anchors A R t' := by
  have hk : ∀ x, current = some x → SessionOk A x := h.calls i _ hi
  rcases SessionManager.judge_cases hs with ⟨x, hc, hv, rfl⟩ | ⟨x, a, hc, hv, ha, rfl⟩ | ⟨_, rfl⟩
  · obtain ⟨a, ha, hA⟩ := hk x hc
    exact anchors_call h rfl rfl rfl ⟨hr, a, ha, hA, (verdict_anchor ha).1 hv⟩
  · obtain ⟨b, hb, hA⟩ := hk x hc
    rw [ha] at hb; cases hb
    exact anchors_call h rfl rfl rfl ⟨hr, ha, hA, (verdict_anchor ha).2 hv⟩
  · exact anchors_call h rfl rfl rfl ⟨hr, _, rfl, new (by simp), rfl⟩

/-- Every other step of the session manager. -/
theorem anchors_step (redistribute : ∀ id a run, A id a → R run → a.runId = run.runId →
      A id { a with epochFingerprint := run.epochFingerprint, redistributed := true })
    {e : SessionManager.Ev} (h : Anchors A R t)
    (hr : ∀ i run id seed, e ≠ .ran i run id seed) (hs : SessionManager.step P t e = some t') : Anchors A R t' := by
  cases e with
  | call scope epoch =>
    simp only [SessionManager.step] at hs
    split at hs
    · cases hs; exact h
    · cases hs; exact anchors_call h rfl rfl rfl trivial
  | start i now =>
    simp only [SessionManager.step] at hs
    split at hs
    · obtain ⟨c, _, rfl⟩ := map_eq_some_iff.mp hs
      exact anchors_call h rfl rfl rfl trivial
    · cases hs
  | loaded i unreadable =>
    simp only [SessionManager.step] at hs
    split at hs
    · cases hs
      refine anchors_call h rfl rfl rfl (fun x hx => ?_)
      obtain ⟨hm, _, hn⟩ := SessionManager.currentSession_held hx
      exact h.store x hm hn
    · cases hs
  | ran i run id seed => exact absurd rfl (hr i run id seed)
  | endorsed i v2 =>
    simp only [SessionManager.step] at hs
    split at hs
    · rename_i scope draft run hi; cases hs
      have hp : SlotOk A R draft run := h.calls i _ hi
      exact anchors_call h rfl rfl rfl hp
    · cases hs
  | distributed i frame =>
    simp only [SessionManager.step] at hs
    split at hs
    · rename_i scope x run hi; cases hs
      have hp : SlotOk A R x run := h.calls i _ hi
      exact anchors_call h rfl rfl rfl hp
    · rename_i scope x a run hi; cases hs
      obtain ⟨hrun, ha, hA, hid⟩ : R run ∧ x.rotationAnchor = some a ∧ A x.sessionId a ∧ a.runId = run.runId :=
        h.calls i _ hi
      exact anchors_call h rfl rfl rfl ⟨hrun, _, rfl, redistribute _ a run hA hrun hid, rfl⟩
    · cases hs
  | written i =>
    simp only [SessionManager.step] at hs
    split at hs
    · rename_i scope slot run hi; cases hs
      have hp : SlotOk A R slot.session run := h.calls i _ hi
      have hc : Anchors A R (SessionManager.setCall t i scope (.written slot run)) := anchors_call h rfl rfl rfl hp
      obtain ⟨_, a, ha, hA, _⟩ := hp
      refine ⟨fun x hx hn => ?_, hc.calls, hc.slots⟩
      rcases SessionManager.mem_saveGraineSession.mp hx with ⟨hx, _⟩ | rfl
      · exact h.store x hx hn
      · exact ⟨a, ha, hA⟩
    · cases hs
  | returned i =>
    simp only [SessionManager.step] at hs
    split at hs
    · rename_i scope slot run hi
      obtain ⟨c, _, rfl⟩ := map_eq_some_iff.mp hs
      have hp : SlotOk A R slot.session run := h.calls i _ hi
      have hc : Anchors A R (SessionManager.setCall t i scope .over) := anchors_call h rfl rfl rfl trivial
      refine ⟨hc.store, hc.calls, fun p hp' => ?_⟩
      rcases mem_append.mp hp' with hp' | hp'
      · exact h.slots p hp'
      · rw [mem_singleton.mp hp']; exact hp
    · cases hs
  | failed i =>
    simp only [SessionManager.step] at hs
    split at hs
    all_goals first
      | (obtain ⟨c, _, rfl⟩ := map_eq_some_iff.mp hs
         exact anchors_call h rfl rfl rfl trivial)
      | cases hs
  | cleaned i =>
    simp only [SessionManager.step] at hs
    obtain ⟨c, _, rfl⟩ := map_eq_some_iff.mp hs
    exact ⟨h.store, h.calls, h.slots⟩
  | reload =>
    cases hs
    refine ⟨h.store, fun i c hi => ?_, h.slots⟩
    obtain ⟨d, _, rfl⟩ := map_eq_some_iff.mp hi
    trivial

end Sessions

/-! ## Every run -/

def AnchoredIn (s : St) : String → GraineRotationAnchor → Prop := Anchored s.sessions.mints s.readings

def ReadIn (s : St) (run : GraineRunReading) : Prop := ∃ e, (run, e) ∈ s.readings

structure Inv (K : Crypto) (s : St) : Prop where
  tracks : Tracks K s
  anchors : Anchors (AnchoredIn s) (ReadIn s) s.sessions

theorem anchored_mono (hm : ∀ p ∈ s.sessions.mints, p ∈ s'.sessions.mints) (hr : ∀ p ∈ s.readings, p ∈ s'.readings) :
    (∀ id a, AnchoredIn s id a → AnchoredIn s' id a) ∧ ∀ run, ReadIn s run → ReadIn s' run := by
  constructor
  · rintro id a ⟨r, m, r', e, h1, h2, h3, h4⟩
    exact ⟨r, m, r', e, hm _ h1, hr _ h2, hr _ h3, h4⟩
  · rintro run ⟨e, he⟩
    exact ⟨e, hr _ he⟩

theorem anchors_read (hs : s'.sessions = s.sessions) (hr : ∀ p ∈ s.readings, p ∈ s'.readings)
    (h : Anchors (AnchoredIn s) (ReadIn s) s.sessions) : Anchors (AnchoredIn s') (ReadIn s') s'.sessions := by
  obtain ⟨hA, hR⟩ := anchored_mono (s := s) (by rw [hs]; exact fun p hp => hp) hr
  rw [hs]
  exact anchors_mono hA hR h

theorem anchored_redistribute (id : String) (a : GraineRotationAnchor) (run : GraineRunReading)
    (h : AnchoredIn s id a) (hr : ReadIn s run) (hid : a.runId = run.runId) :
    AnchoredIn s id { a with epochFingerprint := run.epochFingerprint, redistributed := true } := by
  obtain ⟨r, m, r', e, h1, h2, _, h4, _, _⟩ := h
  obtain ⟨e', he'⟩ := hr
  exact ⟨r, m, run, e', h1, h2, he', h4, hid.symm, rfl⟩

theorem inv_init (h : Init s) : Inv K s := by
  refine ⟨tracks_init h, ?_⟩
  obtain ⟨_, _, _, _, _, hca, _, _, _, hsl, _, hno⟩ := h
  refine ⟨fun x hx hn => ?_, ?_, ?_⟩
  · rw [hno x hx] at hn
    cases hn
  · simp [hca]
  · simp [hsl]

theorem judge_mints {i : Nat} {scope : GraineOutboundScope} {now : Int}
    {current : Option StoredGraineSession} {seed : String}
    (hs : SessionManager.judge t i scope now current run id seed = some t') : ∀ p ∈ t.mints, p ∈ t'.mints := by
  intro p hp
  rcases SessionManager.judge_cases hs with ⟨_, _, _, rfl⟩ | ⟨_, _, _, _, _, rfl⟩ | ⟨_, rfl⟩
  · exact hp
  · exact hp
  · exact mem_append_left _ hp

theorem step_mints {e : SessionManager.Ev}
    (hr : ∀ i run id seed, e ≠ .ran i run id seed) (hs : SessionManager.step P t e = some t') : t'.mints = t.mints := by
  cases e with
  | ran i run id seed => exact absurd rfl (hr i run id seed)
  | reload => cases hs; rfl
  | _ =>
    simp only [SessionManager.step] at hs
    repeat' split at hs
    all_goals first
      | (cases hs <;> rfl)
      | (obtain ⟨c, _, rfl⟩ := map_eq_some_iff.mp hs
         rfl)

theorem anchors_send {e : SessionManager.Ev}
    (h : Anchors (AnchoredIn s) (ReadIn s) s.sessions) (ho : readingOk s e = true)
    (hs : SessionManager.step P s.sessions e = some t) :
    Anchors (AnchoredIn { s with sessions := t }) (ReadIn { s with sessions := t }) t := by
  by_cases hran : ∃ i run id seed, e = .ran i run id seed
  · obtain ⟨i, run, id, seed, rfl⟩ := hran
    obtain ⟨⟨r, e⟩, hre, heq⟩ := List.any_eq_true.mp ho
    cases beq_iff_eq.mp heq
    simp only [SessionManager.step] at hs
    split at hs
    · rename_i scope now current hi
      have hmono := judge_mints hs
      obtain ⟨hA, hR⟩ : (∀ id a, AnchoredIn s id a → AnchoredIn { s with sessions := t } id a) ∧
        ∀ run, ReadIn s run → ReadIn { s with sessions := t } run := anchored_mono hmono (fun p hp => hp)
      exact anchors_ran (anchors_mono hA hR h) hi ⟨e, hre⟩ (fun hm => ⟨r, e, r, e, hm, hre, hre, rfl, rfl, rfl⟩) hs
    · cases hs
  · have hne : ∀ i run id seed, e ≠ .ran i run id seed := fun i run id seed he => hran ⟨i, run, id, seed, he⟩
    have hA := anchors_step anchored_redistribute h hne hs
    unfold AnchoredIn at hA ⊢
    rw [step_mints hne hs]
    exact hA

theorem inv_step (hK : Injective K.fingerprint) (s : St) (e : Ev) (s' : St) (h : Inv K s)
    (hs : step K P s e = some s') : Inv K s' := by
  refine ⟨tracks_step hK h.tracks hs, ?_⟩
  cases e with
  | send e =>
    simp only [step] at hs
    split at hs
    · rename_i ho
      obtain ⟨t, ht, rfl⟩ := map_eq_some_iff.mp hs
      exact anchors_send h.anchors ho ht
    · cases hs
  | read g id =>
    simp only [step] at hs
    split at hs
    · split at hs
      · cases hs
        exact anchors_read (s := s) rfl (fun p hp => mem_append_left _ hp) h.anchors
      · cases hs
    · cases hs
  | restore k =>
    obtain ⟨m, _, rfl⟩ := map_eq_some_iff.mp hs
    exact h.anchors
  | merge g c runId =>
    simp only [step] at hs
    repeat' split at hs
    all_goals first
      | (cases hs; exact h.anchors)
      | cases hs
  | _ => cases hs; exact h.anchors

theorem inv (hK : Injective K.fingerprint) (h : (machine K P).Reach s) : Inv K s :=
  Machine.Reach.invariant (I := Inv K) (fun _ h0 => inv_init h0) (inv_step hK) h

/-- The session of a slot was minted, at the epoch `m`, after everything that departed from the
    group before the epoch `e` the slot's run was read at. -/
def MintedAfterDepartures (K : Crypto) (s : St) (slot : GraineOutboundSlot) (e : Epoch) : Prop :=
  ∃ r m, (slot.session.sessionId, r) ∈ s.sessions.mints ∧ (r, m) ∈ s.readings ∧ SameInstance m e ∧
    ∀ p c, DepartsAt K e p c → p ++ [c] <+: m.commits

/-- A slot reserved with a reading taken after a commit that removed a leaf or brought a user
    belongs to a session minted at a reading taken after that commit, over every run. -/
theorem departed_never_holds_a_later_seal {K : Crypto} {P : Platform} (hK : Injective K.fingerprint) {s : St}
    (h : (machine K P).Reach s) : ∀ q ∈ s.sessions.slots, ∃ e, (q.2, e) ∈ s.readings ∧
    q.2.epochFingerprint = K.fingerprint e ∧
      MintedAfterDepartures K s q.1 e := by
  have hI := inv hK h
  intro q hq
  obtain ⟨⟨e, he⟩, a, _, ⟨r, m, r', e', hmint, hm, he', hra, hra', hfa⟩, hf⟩ := hI.anchors.slots q hq
  obtain ⟨hfp, _⟩ := hI.tracks.readings _ he
  obtain ⟨hfp', st', hst', hc'⟩ := hI.tracks.readings _ he'
  obtain ⟨_, st, hst, hc⟩ := hI.tracks.readings _ hm
  -- the reading the anchor was last moved at is of the epoch of the slot's own reading
  have hee : e' = e := hK (by rw [← hfp, ← hfp', ← hfa, hf])
  subst hee
  -- and it is of the run the session was minted under, drawn once
  have hruns : r.runId = r'.runId := hra.trans hra'.symm
  have hss : st = st' := hI.tracks.once r.runId st st' hst (by rw [hruns]; exact hst')
  subst hss
  obtain ⟨hsame, hdep⟩ := clean_share hc hc'
  exact ⟨e', he, hfp, r, m, hmint, hm, hsame, hdep⟩

/-! ## A run -/

/-- Codes written one after the other can be told apart. -/
def Cancels {α : Type} (f : α → List Char) : Prop := ∀ x y s t, f x ++ s = f y ++ t → x = y ∧ s = t

def natCode (n : Nat) : List Char := List.replicate n '1' ++ ['0']

def listCode {α : Type} (f : α → List Char) (l : List α) : List Char := natCode l.length ++ l.flatMap f

theorem natCode_cancels : Cancels natCode := by
  intro n
  unfold natCode
  induction n with
  | zero =>
    intro m s t h
    cases m with
    | zero => exact ⟨rfl, by simpa using h⟩
    | succ m => simp [replicate_succ] at h
  | succ n ih =>
    intro m s t h
    cases m with
    | zero => simp [replicate_succ] at h
    | succ m =>
      simp only [replicate_succ, cons_append, List.cons.injEq, true_and] at h
      obtain ⟨hn, hs⟩ := ih m s t h
      exact ⟨by omega, hs⟩

theorem listCode_cancels {α : Type} {f : α → List Char} (hf : Cancels f) : Cancels (listCode f) := by
  intro l
  suffices h : ∀ l m : List α, ∀ s t, l.length = m.length → l.flatMap f ++ s = m.flatMap f ++ t → l = m ∧ s = t by
    intro m s t he
    unfold listCode at he
    rw [append_assoc, append_assoc] at he
    obtain ⟨hn, he⟩ := natCode_cancels _ _ _ _ he
    exact h l m s t hn he
  clear l
  intro l
  induction l with
  | nil =>
    intro m s t hn he
    cases m with
    | nil => exact ⟨rfl, he⟩
    | cons y m => cases hn
  | cons x l ih =>
    intro m s t hn he
    cases m with
    | nil => cases hn
    | cons y m =>
      rw [flatMap_cons, flatMap_cons, append_assoc, append_assoc] at he
      obtain ⟨rfl, hl⟩ := hf _ _ _ _ he
      obtain ⟨rfl, hs⟩ := ih m s t (by simpa using hn) hl
      exact ⟨rfl, hs⟩

theorem charCode_cancels {α : Type} {f : α → Char} (hf : Injective f) : Cancels fun x => [f x] := by
  intro x y s t h
  obtain ⟨hxy, hs⟩ := List.cons.inj h
  exact ⟨hf hxy, hs⟩

def bytesCode : List UInt8 → List Char := listCode fun b => [Char.ofUInt8 b]

theorem bytesCode_cancels : Cancels bytesCode :=
  listCode_cancels (charCode_cancels fun _ _ h => UInt8.toUInt32_inj.mp (congrArg Char.val h))

def leafCode (l : Leaf) : List Char := bytesCode l.credential ++ bytesCode l.signatureKey

theorem leafCode_cancels : Cancels leafCode := by
  rintro ⟨c, k⟩ ⟨c', k'⟩ s t h
  simp only [leafCode, append_assoc] at h
  obtain ⟨hc, h1⟩ := bytesCode_cancels _ _ _ _ h
  obtain ⟨hk, h2⟩ := bytesCode_cancels _ _ _ _ h1
  exact ⟨by rw [hc, hk], h2⟩

def commitCode (c : Commit) : List Char :=
    natCode c.removeProposals ++ [if c.external then '1' else '0'] ++ listCode leafCode c.leaves

theorem commitCode_cancels : Cancels commitCode := by
  rintro ⟨n, x, l⟩ ⟨n', x', l'⟩ s t h
  simp only [commitCode, append_assoc] at h
  obtain ⟨hn, h1⟩ := natCode_cancels _ _ _ _ h
  obtain ⟨hx, h2⟩ := charCode_cancels (f := fun b : Bool => if b then '1' else '0') (by
    intro a b; cases a <;> cases b <;> decide) _ _ _ _ h1
  obtain ⟨hl, h3⟩ := listCode_cancels leafCode_cancels _ _ _ _ h2
  exact ⟨by rw [hn, hx, hl], h3⟩

def epochCode (e : Epoch) : List Char :=
  listCode (fun c => [c]) e.group.toList ++ natCode e.inst ++ listCode leafCode e.founding ++
    listCode commitCode e.commits

def plainCrypto : Crypto where
  identityOf := fun bytes => some (String.ofList (bytes.map fun b => Char.ofNat b.toNat))
  fingerprint := fun e => String.ofList (epochCode e)

theorem plainCrypto_injective : Injective plainCrypto.fingerprint := by
  rintro ⟨g, i, f, c⟩ ⟨g', i', f', c'⟩ h
  have he : epochCode ⟨g, i, f, c⟩ ++ [] = epochCode ⟨g', i', f', c'⟩ ++ [] := by rw [String.ofList_injective h]
  simp only [epochCode, append_assoc] at he
  obtain ⟨hg, h1⟩ := listCode_cancels (charCode_cancels fun _ _ h => h) _ _ _ _ he
  obtain ⟨hi, h2⟩ := natCode_cancels _ _ _ _ h1
  obtain ⟨hf, h3⟩ := listCode_cancels leafCode_cancels _ _ _ _ h2
  obtain ⟨hc, _⟩ := listCode_cancels commitCode_cancels _ _ _ _ h3
  rw [String.toList_inj.mp hg, hi, hf, hc]

/-- The device `d` of the user `u`, each named by one letter. -/
def leafOf (u d : Char) : Leaf := ⟨[UInt8.ofNat u.toNat, 58, UInt8.ofNat d.toNat], [UInt8.ofNat d.toNat]⟩

def foundation : Epoch := ⟨"k", 0, [leafOf 'a' '1', leafOf 'b' '1'], []⟩

/-- A second device of `a` joins; then `b` is removed. -/
def deviceJoins : Commit := ⟨0, false, [leafOf 'a' '1', leafOf 'b' '1', leafOf 'a' '2']⟩
def userLeaves : Commit := ⟨1, false, [leafOf 'a' '1', leafOf 'a' '2']⟩

def start : St := ⟨⟨fun _ => none, fun _ => none⟩, [], [], [], SessionManager.nothing⟩

def sendAfter (i : Nat) (run : GraineRunReading) (id : String) : List Ev :=
  [.send (.call ⟨"w", "c", "alice"⟩ 0), .send (.start i 0), .send (.loaded i []), .send (.ran i run id "seed")]

def minted (i : Nat) : List Ev :=
  [.send (.endorsed i ⟨"d", "p", "e", some "k"⟩), .send (.distributed i ⟨"g", "x"⟩), .send (.written i),
    .send (.returned i)]

def atFoundation : GraineRunReading := ⟨"r1", 0, plainCrypto.fingerprint foundation⟩
def afterDevice : GraineRunReading := ⟨"r1", 1, plainCrypto.fingerprint (foundation.push deviceJoins)⟩
def afterDeparture : GraineRunReading :=
    ⟨"r5", 2, plainCrypto.fingerprint ((foundation.push deviceJoins).push userLeaves)⟩

/-- A session is minted, and handed over to the new device; a checkpoint holds the tree of both. -/
def beforeDeparture : List Ev :=
  [Ev.move "k" foundation, .read "k" "r1"] ++ sendAfter 0 atFoundation "one" ++ minted 0 ++
  [Ev.merge "k" deviceJoins (some "r2"), .checkpoint, .read "k" "r3"] ++ sendAfter 1 afterDevice "unused" ++
  [Ev.send (.distributed 1 ⟨"g", "y"⟩), .send (.written 1), .send (.returned 1)]

/-- The session is replaced once `b` is gone; the checkpoint is restored and catches up on it. -/
def departureRun : List Ev :=
  beforeDeparture ++ [Ev.merge "k" userLeaves (some "r4"), .restore 0, .merge "k" userLeaves (some "r5"),
    .read "k" "r6"] ++
  sendAfter 2 afterDeparture "two" ++ minted 2

theorem departureRun_rotates : ∃ s, (machine plainCrypto SessionManager.plain).run start departureRun = some s ∧
    s.sessions.slots.map (fun q => (q.1.session.sessionId, q.1.index, q.2.runId)) = [("one", 0, "r1"),
      ("one", 1, "r1"), ("two", 0, "r5")] ∧
    ∀ q ∈ s.sessions.slots, ∃ e, (q.2, e) ∈ s.readings ∧ q.2.epochFingerprint = plainCrypto.fingerprint e ∧
      MintedAfterDepartures plainCrypto s q.1 e := by
  have hr : ((machine plainCrypto SessionManager.plain).run start departureRun).map
      (fun s => s.sessions.slots.map fun q => (q.1.session.sessionId, q.1.index, q.2.runId)) =
      some [("one", 0, "r1"), ("one", 1, "r1"), ("two", 0, "r5")] := by decide
  obtain ⟨s, hs, hslots⟩ := map_eq_some_iff.mp hr
  have hI : (machine plainCrypto SessionManager.plain).init start :=
    ⟨rfl, rfl, rfl, rfl, rfl, rfl, rfl, rfl, rfl, rfl, nodup_nil, by simp [start, SessionManager.nothing]⟩
  exact ⟨s, hs, hslots, departed_never_holds_a_later_seal plainCrypto_injective (Machine.reach_of_run _ hI hs)⟩

/-- `b` is removed; the checkpoint is restored, the run is read and a slot is reserved with that reading. -/
def restoredRun : List Ev :=
  [Ev.merge "k" userLeaves (some "r4"), .restore 0, .read "k" "r5"] ++ sendAfter 2 afterDevice "unused" ++
  [Ev.send (.written 2), .send (.returned 2)]

/-- The commit that removed `b` is merged, the run is read after it, and the slot reserved with that
    reading is of the session minted before it. -/
theorem a_restored_device_is_before_the_departure :
    ∃ s s', (machine plainCrypto SessionManager.plain).run start beforeDeparture = some s ∧
      s.mls.groups "k" = some (foundation.push deviceJoins) ∧
      Departs plainCrypto (foundation.push deviceJoins).leaves userLeaves ∧
      s.sessions.mints.map (·.1) = ["one"] ∧ s.sessions.slots.length = 2 ∧ s.readings.length = 2 ∧
      (machine plainCrypto SessionManager.plain).run s restoredRun = some s' ∧
      s'.readings.drop 2 = [(afterDevice, foundation.push deviceJoins)] ∧ s'.sessions.mints.map (·.1) = ["one"] ∧
      (s'.sessions.slots.drop 2).map (fun q => (q.1.session.sessionId, q.2)) = [("one", afterDevice)] := by
  have hr : ((machine plainCrypto SessionManager.plain).run start beforeDeparture).map (fun s =>
      (s.mls.groups "k", s.sessions.mints.map (·.1), s.sessions.slots.length, s.readings.length,
        ((machine plainCrypto SessionManager.plain).run s restoredRun).map fun s' =>
          (s'.readings.drop 2, s'.sessions.mints.map (·.1),
            (s'.sessions.slots.drop 2).map fun q => (q.1.session.sessionId, q.2)))) =
      some (some (foundation.push deviceJoins), ["one"], 2, 2,
        some ([(afterDevice, foundation.push deviceJoins)], ["one"], [("one", afterDevice)])) := by rfl
  obtain ⟨s, hs, hv⟩ := map_eq_some_iff.mp hr
  simp only [Prod.mk.injEq] at hv
  obtain ⟨hgroup, hmints, hslots, hreadings, hrest⟩ := hv
  obtain ⟨s', hs', hv⟩ := map_eq_some_iff.mp hrest
  simp only [Prod.mk.injEq] at hv
  exact ⟨s, s', hs, hgroup, .inl (.inl (by decide)), hmints, hslots, hreadings, hs', hv⟩

end Canari.Graine.Departures
