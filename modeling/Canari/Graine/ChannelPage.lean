/-
  Canari.Graine.ChannelPage — a page of rows opens as its rows do
  (see `Canari.Graine.ChannelSeal`).

  Preparing a row touches only the seed cache and finishing it only the opened keys, so
  preparing all rows first changes nothing (`openEach_eq`). The batched calls give each row
  the verdict, or the failure, its own call would have given it (`verifyBatches_told`), so a
  page and its rows one by one leave the same outcomes and the same state
  (`openChannelMessagePage_eq`), as long as the engine answers a batch as it answers its
  checks. A row that opens holds its message key for good, so over any calls two rows that
  open under one session and index are one row (`page_opens_as_its_rows`).
-/

import Canari.Graine.ChannelSeal

namespace Canari.Graine.ChannelSeal

open Lib Lib.Utf16 Graine.Statements Graine.SignatureEngine List

variable {ε : Type}

/-! ## One by one, in two passes -/

def settle (P : Platform ε) (p : Except (OpenError ε) (PreparedChannelMessage ε)) (opened : OpenedKeys) :
    Except (OpenError ε) Bytes × OpenedKeys :=
  match p with
  | .error e => (.error e, opened)
  | .ok prepared =>
    match singleVerdict prepared with
    | .error e => (.error (.thrown e), opened)
    | .ok verdict => finishChannelMessage P prepared verdict opened

def settleAll (P : Platform ε) : List (Except (OpenError ε) (PreparedChannelMessage ε)) → OpenedKeys →
    List (Except (OpenError ε) Bytes) × OpenedKeys
  | [], opened => ([], opened)
  | p :: ps, opened =>
    let (out, opened) := settle P p opened
    let (outs, opened) := settleAll P ps opened
    (out :: outs, opened)

variable (env : Env ε) (channelId : JsString)

theorem openChannelMessageProving_eq (row : OpenableChannelMessage) (s : St) :
    ((openChannelMessageProving env channelId row s).1.map (·.bytes),
      (openChannelMessageProving env channelId row s).2) =
      ((settle env.platform (prepareChannelMessage env channelId row s.seedCache).1 s.openedKeys).1,
        ⟨(prepareChannelMessage env channelId row s.seedCache).2,
          (settle env.platform (prepareChannelMessage env channelId row s.seedCache).1 s.openedKeys).2⟩) := by
  unfold openChannelMessageProving
  rcases hp : prepareChannelMessage env channelId row s.seedCache with ⟨_ | prepared, cache⟩
  · rfl
  · rcases hv : singleVerdict prepared with e | verdict
    · simp only [settle, hv]
      rfl
    · simp only [settle, hv]
      rcases finishChannelMessage env.platform prepared verdict s.openedKeys with ⟨_ | bytes, opened⟩ <;> rfl

variable (rows : List OpenableChannelMessage)

theorem openEach_eq (s : St) :
    openEach env channelId rows s =
      ((settleAll env.platform (prepareAll env channelId rows s.seedCache).1 s.openedKeys).1,
        ⟨(prepareAll env channelId rows s.seedCache).2,
          (settleAll env.platform (prepareAll env channelId rows s.seedCache).1 s.openedKeys).2⟩) := by
  induction rows generalizing s with
  | nil => rfl
  | cons row rows ih =>
    have h := openChannelMessageProving_eq env channelId row s
    have h1 := congrArg Prod.fst h
    have h2 := congrArg Prod.snd h
    simp only at h1 h2
    simp only [openEach, prepareAll, settleAll, ih, h1, h2]

/-! ## The batched verdicts -/

variable {engine : GraineSignatureEngine ε}

/-- The maps hold for a waiting row what its own call answers. -/
def Told (engine : GraineSignatureEngine ε) (acc : Verdicts ε) (w : Waiting ε) : Prop :=
  match engine.verifySignature w.check with
  | .error e => acc.engineFailures.get w.pos = some (.thrown e)
  | .ok v => acc.engineFailures.get w.pos = none ∧ acc.verdicts.get w.pos = some v

def SameAt (acc acc' : Verdicts ε) (i : Nat) : Prop :=
  acc'.engineFailures.get i = acc.engineFailures.get i ∧ acc'.verdicts.get i = acc.verdicts.get i

variable {acc : Verdicts ε}

theorem Told.of_same {acc' : Verdicts ε} {w : Waiting ε} (h : Told engine acc w)
    (hs : SameAt acc acc' w.pos) : Told engine acc' w := by
  unfold Told at h ⊢
  rw [hs.1, hs.2]
  exact h

variable {checks : List GraineSignatureCheck}

theorem askBatch_cases (hb : engine.BatchesAs checks) {slice : List (Waiting ε)} (hne : slice ≠ [])
    (hsub : slice.map (·.check) ⊆ checks) (hmax : slice.length ≤ GRAINE_SIGNATURE_BATCH_MAX) :
    (∃ e, askBatch engine slice = .error (.thrown e) ∧ ∀ w ∈ slice, engine.verifySignature w.check = .error e) ∨
    (∃ verdict : GraineSignatureCheck → GraineSignatureVerdict,
      askBatch engine slice = .ok (slice.map fun w => verdict w.check) ∧
      ∀ w ∈ slice, engine.verifySignature w.check = .ok (verdict w.check)) := by
  rcases hb (slice.map (·.check)) (by simpa using hne) hsub (by
    simpa using hmax) with ⟨e, he, hall⟩ | ⟨verdict, hv, hall⟩
  · refine .inl ⟨e, ?_, fun w hw => hall _ (mem_map_of_mem hw)⟩
    rw [askBatch, he]
    rfl
  · refine .inr ⟨verdict, ?_, fun w hw => hall _ (mem_map_of_mem hw)⟩
    have hcodes := requireGraineVerdicts_codes (slice.map fun w => verdict w.check)
    rw [length_map, map_map] at hcodes
    rw [askBatch, hv, map_map]
    show (requireGraineVerdicts _ slice.length).mapError _ = _
    rw [show ((fun c => (verdict c).code) ∘ fun w : Waiting ε => w.check) =
      (GraineSignatureVerdict.code ∘ fun w => verdict w.check) from rfl, hcodes]
    rfl

theorem zip_map_self {α γ : Type} (l : List α) (f : α → γ) : l.zip (l.map f) = l.map fun a => (a, f a) := by
  induction l with
  | nil => rfl
  | cons a l ih => rw [map_cons, zip_cons_cons, ih, map_cons]

/-- One call tells its slice, and nothing else. -/
theorem recordBatch_told (hb : engine.BatchesAs checks) {slice : List (Waiting ε)} (hne : slice ≠ [])
    (hsub : slice.map (·.check) ⊆ checks) (hmax : slice.length ≤ GRAINE_SIGNATURE_BATCH_MAX)
    (hnodup : (slice.map (·.pos)).Nodup)
    (hfree : ∀ w ∈ slice, acc.engineFailures.get w.pos = none) :
    (∀ w ∈ slice, Told engine (recordBatch acc engine slice) w) ∧
    ∀ i, i ∉ slice.map (·.pos) → SameAt acc (recordBatch acc engine slice) i := by
  rcases askBatch_cases hb hne hsub hmax with ⟨e, he, hall⟩ | ⟨verdict, hv, hall⟩
  · rw [recordBatch, he]
    refine ⟨fun w hw => ?_, fun i hi => ⟨JsMap.get_setAll_of_not_mem _ _ hi _, rfl⟩⟩
    rw [Told, hall w hw]
    exact JsMap.get_setAll_of_mem _ (fun _ => OpenError.thrown e) hnodup hw _
  · rw [recordBatch, hv]
    simp only [zip_map_self, foldl_map]
    refine ⟨fun w hw => ?_, fun i hi => ⟨rfl, JsMap.get_setAll_of_not_mem _ _ hi _⟩⟩
    rw [Told, hall w hw]
    exact ⟨hfree w hw, JsMap.get_setAll_of_mem _ (fun w : Waiting ε => verdict w.check) hnodup hw _⟩

/-- The loop tells every waiting row, each once. -/
theorem verifyBatches_told (hb : engine.BatchesAs checks) {turns : Nat} {ws : List (Waiting ε)}
    (hturns : ws.length ≤ turns) (heng : ∀ w ∈ ws, w.engine = engine) (hsub : ws.map (·.check) ⊆ checks)
    (hnodup : (ws.map (·.pos)).Nodup) (hfree : ∀ w ∈ ws, acc.engineFailures.get w.pos = none) :
    (∀ w ∈ ws, Told engine (verifyBatches turns ws acc) w) ∧
    ∀ i, i ∉ ws.map (·.pos) → SameAt acc (verifyBatches turns ws acc) i := by
  induction turns generalizing ws acc with
  | zero =>
    obtain rfl := length_eq_zero_iff.mp (Nat.le_zero.mp hturns)
    exact ⟨fun w hw => (nomatch hw), fun i _ => ⟨rfl, rfl⟩⟩
  | succ turns ih =>
    cases ws with
    | nil => exact ⟨fun w hw => (nomatch hw), fun i _ => ⟨rfl, rfl⟩⟩
    | cons w ws =>
      rw [verifyBatches, heng w mem_cons_self]
      generalize hall : w :: ws = all at *
      have hne : all ≠ [] := by rw [← hall]; exact cons_ne_nil w ws
      -- the slice of this turn and the rows left for the next ones
      have hcut : all.map (·.pos) = (all.take GRAINE_SIGNATURE_BATCH_MAX).map (·.pos) ++
        (all.drop GRAINE_SIGNATURE_BATCH_MAX).map (·.pos) := by
        rw [← map_append, take_append_drop]
      rw [hcut, nodup_append] at hnodup
      obtain ⟨hnd1, hnd2, hapart⟩ := hnodup
      have hfirst : all.take GRAINE_SIGNATURE_BATCH_MAX ≠ [] := by simpa [GRAINE_SIGNATURE_BATCH_MAX] using hne
      have hslice := recordBatch_told hb hfirst (fun c hc => hsub ((take_sublist _ _).map _ |>.subset hc)) (by
        simp) hnd1
        (fun v hv => hfree v (mem_of_mem_take hv))
      have hfewer : (all.drop GRAINE_SIGNATURE_BATCH_MAX).length ≤ turns := by
        rw [length_drop]
        unfold GRAINE_SIGNATURE_BATCH_MAX
        omega
      have hleft : ∀ v ∈ all.drop GRAINE_SIGNATURE_BATCH_MAX,
          (recordBatch acc engine (all.take GRAINE_SIGNATURE_BATCH_MAX)).engineFailures.get v.pos = none := by
        intro v hv
        have hv' : v.pos ∉ (all.take GRAINE_SIGNATURE_BATCH_MAX).map (·.pos) :=
          fun h => hapart _ h _ (mem_map_of_mem hv) rfl
        rw [(hslice.2 _ hv').1]
        exact hfree v (mem_of_mem_drop hv)
      have hrest := ih hfewer (fun v hv => heng v (mem_of_mem_drop hv))
        (fun c hc => hsub ((drop_sublist _ _).map _ |>.subset hc)) hnd2 hleft
      refine ⟨fun v hv => ?_, fun i hi => ?_⟩
      · rw [← take_append_drop GRAINE_SIGNATURE_BATCH_MAX all, mem_append] at hv
        rcases hv with hv | hv
        · refine (hslice.1 v hv).of_same (hrest.2 _ fun h => ?_)
          exact hapart _ (mem_map_of_mem hv) _ h rfl
        · exact hrest.1 v hv
      · rw [hcut, mem_append, not_or] at hi
        have h1 := hslice.2 i hi.1
        have h2 := hrest.2 i hi.2
        exact ⟨h2.1.trans h1.1, h2.2.trans h1.2⟩

/-! ## The waiting rows of a page -/

abbrev PreparedRows (ε : Type) := List (Except (OpenError ε) (PreparedChannelMessage ε))

variable {i : Nat}

variable {ps : PreparedRows ε}

theorem pos_waitingFrom {w : Waiting ε} (h : w ∈ waitingFrom i ps) : i ≤ w.pos := by
  induction ps generalizing i with
  | nil => cases h
  | cons p ps ih =>
    have htail : w ∈ waitingFrom (i + 1) ps → i ≤ w.pos := fun h => Nat.le_of_succ_le (ih h)
    rcases p with e | ⟨row, seed, opening, engine⟩ | ⟨row, seed⟩
    · exact htail h
    · rcases mem_cons.mp h with rfl | h
      · exact Nat.le_refl _
      · exact htail h
    · exact htail h

theorem nodup_waitingFrom (i : Nat) (ps : PreparedRows ε) : ((waitingFrom i ps).map (·.pos)).Nodup := by
  induction ps generalizing i with
  | nil => exact nodup_nil
  | cons p ps ih =>
    rcases p with e | ⟨row, seed, opening, engine⟩ | ⟨row, seed⟩
    · exact ih (i + 1)
    · refine nodup_cons.mpr ⟨fun h => ?_, ih (i + 1)⟩
      obtain ⟨w, hw, hi⟩ := mem_map.mp h
      have := pos_waitingFrom hw
      have hi : w.pos = i := hi
      omega
    · exact ih (i + 1)

theorem mem_waitingFrom {w : Waiting ε} :
    w ∈ waitingFrom i ps ↔ ∃ j row seed opening engine, ps[j]? = some (.ok (.v2 row seed opening engine)) ∧
      w = ⟨i + j, opening.check, engine⟩ := by
  induction ps generalizing i with
  | nil => simp [waitingFrom]
  | cons p ps ih =>
    have hshift : (∃ j row seed opening engine, (p :: ps)[j]? = some (.ok (.v2 row seed opening engine)) ∧
      w = ⟨i + j, opening.check, engine⟩) ↔
        (∃ row seed opening engine, p = .ok (.v2 row seed opening engine) ∧ w = ⟨i, opening.check, engine⟩) ∨
          w ∈ waitingFrom (i + 1) ps := by
      rw [ih]
      constructor
      · rintro ⟨_ | j, row, seed, opening, engine, hj, rfl⟩
        · exact .inl ⟨row, seed, opening, engine, by simpa using hj, rfl⟩
        · exact .inr ⟨j, row, seed, opening, engine, by simpa using hj, by rw [show i + (j + 1) = i + 1 + j by omega]⟩
      · rintro (⟨row, seed, opening, engine, rfl, rfl⟩ | ⟨j, row, seed, opening, engine, hj, rfl⟩)
        · exact ⟨0, row, seed, opening, engine, by simp, rfl⟩
        · exact ⟨j + 1, row, seed, opening, engine, by simpa using hj, by rw [show i + (j + 1) = i + 1 + j by omega]⟩
    rw [hshift]
    rcases p with e | ⟨row, seed, opening, engine⟩ | ⟨row, seed⟩
    · simp [waitingFrom]
    · simp [waitingFrom]
    · simp [waitingFrom]

/-! ## Prepared rows -/

variable {P : Platform ε} {p : PreparedChannelMessage ε}

theorem prepareUnder_ok {engine : GraineSignatureEngine ε} {channel : JsString} {row : TypedRow}
    {session : StoredGraineSession} (h : prepareUnder P engine channel row session = .ok p) :
    p.row = row ∧ ∀ r seed opening engine', p = .v2 r seed opening engine' → engine' = engine := by
  unfold prepareUnder at h
  split at h
  · cases h
  split at h
  · obtain ⟨seed, -, h⟩ := bind_eq_ok h
    cases h
    exact ⟨rfl, fun _ _ _ _ e => nomatch e⟩
  · obtain ⟨opening, -, h⟩ := bind_eq_ok h
    obtain ⟨seed, -, h⟩ := bind_eq_ok h
    cases h
    exact ⟨rfl, fun _ _ _ _ e => by cases e; rfl⟩

variable {cache : SeedCache}

variable {row : OpenableChannelMessage}

/-- A prepared row carries the fields of the row it comes from, and a v2 one the runtime's engine. -/
theorem prepareChannelMessage_ok {env : Env ε} {channelId : JsString}
    (h : (prepareChannelMessage env channelId row cache).1 = .ok p) :
    (row.senderSessionId = some p.row.senderSessionId ∧ row.messageIndex = some p.row.messageIndex ∧
      row.id = p.row.id) ∧
    ∃ rt, env.runtime = some rt ∧ ∀ r seed opening engine, p = .v2 r seed opening engine → engine = rt.engine := by
  unfold prepareChannelMessage at h
  cases ht : typedRow row with
  | none => simp [ht] at h
  | some typed =>
    have hfields : row.senderSessionId = some typed.senderSessionId ∧ row.messageIndex = some typed.messageIndex ∧
      row.id = typed.id := by
      unfold typedRow at ht
      split at ht
      · rename_i sessionId nonce index hs hn hi
        split at ht
        · cases ht
        · cases ht
          exact ⟨hs, hi, rfl⟩
      · cases ht
    cases hrt : env.runtime with
    | none => simp [ht, hrt] at h
    | some rt =>
      simp only [ht, hrt] at h
      rcases hses : sessionOf rt cache typed.senderSessionId with ⟨_ | _ | session, cache'⟩
      · simp [hses] at h
      · simp [hses] at h
      · simp only [hses] at h
        obtain ⟨hrow, heng⟩ := prepareUnder_ok h
        rw [hrow]
        exact ⟨hfields, rt, rfl, heng⟩

theorem prepareAll_ok {env : Env ε} {channelId : JsString} {rows : List OpenableChannelMessage} {j : Nat}
    (h : (prepareAll env channelId rows cache).1[j]? = some (.ok p)) :
    ∃ row cache', rows[j]? = some row ∧ (prepareChannelMessage env channelId row cache').1 = .ok p := by
  induction rows generalizing cache j with
  | nil => simp [prepareAll] at h
  | cons row rows ih =>
    simp only [prepareAll] at h
    cases j with
    | zero => exact ⟨row, cache, rfl, by simpa using h⟩
    | succ j =>
      obtain ⟨row', cache', hr, hp⟩ := ih h
      exact ⟨row', cache', by rw [getElem?_cons_succ]; exact hr, hp⟩

/-! ## A page against its rows -/

def pageChecks (cache : SeedCache) : List GraineSignatureCheck :=
  (waitingFrom 0 (prepareAll env channelId rows cache).1).map (·.check)

theorem finishAt_v2 {row : TypedRow} {seed : Bytes} {opening : PreparedGraineV2Open}
    (h : Told engine acc ⟨i, opening.check, engine⟩) (opened : OpenedKeys) :
    finishAt P acc i (.v2 row seed opening engine) opened = settle P (.ok (.v2 row seed opening engine)) opened := by
  unfold Told at h
  cases hv : engine.verifySignature opening.check with
  | error e =>
    simp only [hv] at h
    simp only [finishAt, h, settle, singleVerdict, hv, Except.map]
  | ok v =>
    simp only [hv] at h
    simp only [finishAt, h.1, h.2, settle, singleVerdict, hv, Except.map]

theorem finishAt_v1 {row : TypedRow} {seed : Bytes}
    (h : acc.engineFailures.get i = none) (opened : OpenedKeys) :
    finishAt P acc i (.v1 row seed) opened = settle P (.ok (.v1 row seed)) opened := by
  simp only [finishAt, h, settle, singleVerdict, finishChannelMessage, decryptPrepared]

theorem finishAll_eq
    (h : ∀ j p, ps[j]? = some (.ok p) → ∀ opened, finishAt P acc (i + j) p opened = settle P (.ok p) opened)
    (opened : OpenedKeys) :
    finishAll P acc i ps opened = settleAll P ps opened := by
  induction ps generalizing i opened with
  | nil => rfl
  | cons p ps ih =>
    have htail := ih (i := i + 1) fun j p hp => by
      have := h (j + 1) p (by rw [getElem?_cons_succ]; exact hp)
      rwa [show i + (j + 1) = i + 1 + j by omega] at this
    cases p with
    | error e => simp only [finishAll, settleAll, settle, htail]
    | ok p =>
      have hhead := h 0 p rfl opened
      rw [Nat.add_zero] at hhead
      simp only [finishAll, settleAll, hhead, htail]

def pageVerdicts (ps : PreparedRows ε) : Verdicts ε := verifyBatches (waitingFrom 0 ps).length (waitingFrom 0 ps)
    ⟨.empty, .empty⟩

/-- Each prepared row of a page is finished as its own call would have it. -/
theorem finishAt_page {rows : List OpenableChannelMessage}
    (hb : ∀ rt, env.runtime = some rt → rt.engine.BatchesAs (pageChecks env channelId rows cache)) {j : Nat}
    (hp : (prepareAll env channelId rows cache).1[j]? = some (.ok p)) (opened : OpenedKeys) :
    finishAt env.platform (pageVerdicts (prepareAll env channelId rows cache).1)
      (0 + j) p opened = settle env.platform (.ok p) opened := by
  obtain ⟨row, cache', -, hprep⟩ := prepareAll_ok hp
  obtain ⟨-, rt, hrt, -⟩ := prepareChannelMessage_ok hprep
  have heng : ∀ w ∈ waitingFrom 0 (prepareAll env channelId rows cache).1, w.engine = rt.engine := by
    intro w hw
    obtain ⟨k, r, seed, opening, engine, hk, rfl⟩ := (mem_waitingFrom).mp hw
    obtain ⟨row', cache'', -, hprep'⟩ := prepareAll_ok hk
    obtain ⟨-, rt', hrt', he⟩ := prepareChannelMessage_ok hprep'
    rw [hrt] at hrt'
    cases hrt'
    exact he r seed opening engine rfl
  have hnone : ∀ w ∈ waitingFrom 0 (prepareAll env channelId rows cache).1,
      (⟨.empty, .empty⟩ : Verdicts ε).engineFailures.get w.pos = none := fun w _ => rfl
  have htold := verifyBatches_told (hb rt hrt) (Nat.le_refl _) heng (List.Subset.refl _) (nodup_waitingFrom 0 _) hnone
  cases p with
  | v1 r seed =>
    refine finishAt_v1 ?_ opened
    refine ((htold.2 _ fun h => ?_).1).trans rfl
    obtain ⟨w, hw, hpos⟩ := mem_map.mp h
    obtain ⟨k, r', seed', opening, engine, hk, rfl⟩ := (mem_waitingFrom).mp hw
    have hpos : 0 + k = 0 + j := hpos
    rw [show k = j by omega, hp] at hk
    cases hk
  | v2 r seed opening engine =>
    have hw : (⟨0 + j, opening.check, engine⟩ : Waiting ε) ∈ waitingFrom 0 (prepareAll env channelId rows cache).1 :=
      (mem_waitingFrom).mpr ⟨j, r, seed, opening, engine, hp, rfl⟩
    obtain rfl : engine = rt.engine := heng _ hw
    exact finishAt_v2 (htold.1 _ hw) opened

/-- With an engine that answers a batch as it answers its checks, a page leaves what its rows
    leave one by one: the same outcomes, the same seeds, the same claims. -/
theorem openChannelMessagePage_eq {rows : List OpenableChannelMessage} {s : St}
    (hb : ∀ rt, env.runtime = some rt → rt.engine.BatchesAs (pageChecks env channelId rows s.seedCache)) :
    openChannelMessagePage env channelId rows s = openEach env channelId rows s := by
  have h := finishAll_eq (fun j p hp => finishAt_page env channelId hb hp) s.openedKeys
  rw [openEach_eq, ← h]
  rfl

/-! ## One row for each message key -/

/-- A call of either kind; the store and the engine may differ from one to the next. -/
inductive Call (ε : Type) where
  | row (env : Env ε) (channelId : JsString) (row : OpenableChannelMessage)
  | page (env : Env ε) (channelId : JsString) (rows : List OpenableChannelMessage)

def runCall : Call ε → St → List OpenableChannelMessage × St
  | .row env channelId row, s =>
    let (out, s) := openChannelMessageProving env channelId row s
    (if out.isOk then [row] else [], s)
  | .page env channelId rows, s =>
    let (outs, s) := openChannelMessagePage env channelId rows s
    (((rows.zip outs).filter fun r => r.2.isOk).map Prod.fst, s)

def runCalls : List (Call ε) → St → List OpenableChannelMessage × St
  | [], s => ([], s)
  | call :: calls, s =>
    let (opened, s) := runCall call s
    let (rest, s) := runCalls calls s
    (opened ++ rest, s)

def Keeps (opened opened' : OpenedKeys) : Prop := ∀ k v, opened.get k = some v → opened'.get k = some v

theorem Keeps.refl (opened : OpenedKeys) : Keeps opened opened := fun _ _ h => h

theorem Keeps.trans {a b c : OpenedKeys} (h : Keeps a b) (h' : Keeps b c) : Keeps a c := fun k v hk => h' k v (h k v hk)

def Claimed (opened : OpenedKeys) (row : OpenableChannelMessage) : Prop :=
  ∃ sessionId index, row.senderSessionId = some sessionId ∧ row.messageIndex = some index ∧
    opened.get (openedKey sessionId index) = some row.id

theorem Claimed.keep {opened opened' : OpenedKeys} (h : Claimed opened row) (hk : Keeps opened opened') :
    Claimed opened' row := by
  obtain ⟨sessionId, index, hs, hi, hget⟩ := h
  exact ⟨sessionId, index, hs, hi, hk _ _ hget⟩

theorem claimOpenedKey_spec (opened : OpenedKeys) (sessionId : JsString) (index : JsNumber) (rowId : JsString) :
    Keeps opened (claimOpenedKey opened sessionId index rowId).2 ∧
    ((claimOpenedKey opened sessionId index rowId).1 = none →
      (claimOpenedKey opened sessionId index rowId).2.get (openedKey sessionId index) = some rowId) := by
  unfold claimOpenedKey
  cases hget : opened.get (openedKey sessionId index) with
  | none =>
    refine ⟨fun k v hk => ?_, fun _ => JsMap.get_set_self _ _ _⟩
    have hne : k ≠ openedKey sessionId index := by
      rintro rfl
      rw [hget] at hk
      cases hk
    simpa [hne] using hk
  | some first =>
    refine ⟨Keeps.refl _, fun h => ?_⟩
    by_cases he : first = rowId
    · rw [← he]; exact hget
    · simp [he] at h

theorem finishChannelMessage_spec (P : Platform ε) (p : PreparedChannelMessage ε)
    (verdict : Option GraineSignatureVerdict) (opened : OpenedKeys) :
    Keeps opened (finishChannelMessage P p verdict opened).2 ∧
    ((finishChannelMessage P p verdict opened).1.isOk = true →
      (finishChannelMessage P p verdict opened).2.get
        (openedKey p.row.senderSessionId p.row.messageIndex) = some p.row.id) := by
  unfold finishChannelMessage
  cases decryptPrepared P p verdict with
  | error e => exact ⟨Keeps.refl _, fun h => by cases h⟩
  | ok bytes =>
    have h := claimOpenedKey_spec opened p.row.senderSessionId p.row.messageIndex p.row.id
    rcases hc : claimOpenedKey opened p.row.senderSessionId p.row.messageIndex p.row.id with ⟨_ | first, opened'⟩
    · rw [hc] at h
      simp only [hc]
      exact ⟨h.1, fun _ => h.2 rfl⟩
    · rw [hc] at h
      simp only [hc]
      exact ⟨h.1, fun h => by cases h⟩

theorem finishAt_spec (P : Platform ε) (acc : Verdicts ε) (i : Nat) (p : PreparedChannelMessage ε)
    (opened : OpenedKeys) :
    Keeps opened (finishAt P acc i p opened).2 ∧
    ((finishAt P acc i p opened).1.isOk = true →
      (finishAt P acc i p opened).2.get (openedKey p.row.senderSessionId p.row.messageIndex) = some p.row.id) := by
  unfold finishAt
  split
  · exact ⟨Keeps.refl _, fun h => by cases h⟩
  · exact finishChannelMessage_spec P p _ opened

/-- Every position of a page that opens holds its row's key when the page is done. -/
theorem finishAll_spec (P : Platform ε) (acc : Verdicts ε) (i : Nat) (ps : PreparedRows ε) (opened : OpenedKeys) :
    Keeps opened (finishAll P acc i ps opened).2 ∧
    ∀ (j : Nat) (bytes : Bytes), (finishAll P acc i ps opened).1[j]? = some (Except.ok bytes) →
      ∃ p : PreparedChannelMessage ε, ps[j]? = some (Except.ok p) ∧
      (finishAll P acc i ps opened).2.get (openedKey p.row.senderSessionId p.row.messageIndex) = some p.row.id := by
  induction ps generalizing i opened with
  | nil => exact ⟨Keeps.refl _, fun j bytes h => by simp [finishAll] at h⟩
  | cons p ps ih =>
    cases p with
    | error e =>
      obtain ⟨hk, hj⟩ := ih (i + 1) opened
      refine ⟨hk, fun j bytes h => ?_⟩
      cases j with
      | zero => simp [finishAll] at h
      | succ j =>
        exact hj j bytes h
    | ok p =>
      obtain ⟨hhead, hclaim⟩ := finishAt_spec P acc i p opened
      obtain ⟨hk, hj⟩ := ih (i + 1) (finishAt P acc i p opened).2
      refine ⟨hhead.trans hk, fun j bytes h => ?_⟩
      cases j with
      | zero =>
        simp only [finishAll, getElem?_cons_zero, Option.some.injEq] at h
        exact ⟨p, rfl, hk _ _ (hclaim (by rw [h]; rfl))⟩
      | succ j =>
        exact hj j bytes h

theorem claimed_of_prepared {env : Env ε} {channelId : JsString}
    {opened : OpenedKeys} (hp : (prepareChannelMessage env channelId row cache).1 = .ok p)
    (h : opened.get (openedKey p.row.senderSessionId p.row.messageIndex) = some p.row.id) : Claimed opened row := by
  obtain ⟨⟨hs, hi, hid⟩, -⟩ := prepareChannelMessage_ok hp
  exact ⟨_, _, hs, hi, by rw [hid]; exact h⟩

theorem openChannelMessageProving_claims (row : OpenableChannelMessage) (s : St) :
    Keeps s.openedKeys (openChannelMessageProving env channelId row s).2.openedKeys ∧
    ((openChannelMessageProving env channelId row s).1.isOk = true →
      Claimed (openChannelMessageProving env channelId row s).2.openedKeys row) := by
  unfold openChannelMessageProving
  rcases hp : prepareChannelMessage env channelId row s.seedCache with ⟨_ | p, cache⟩
  · exact ⟨Keeps.refl _, fun h => nomatch h⟩
  · cases hv : singleVerdict p with
    | error e =>
      simp only [hv]
      exact ⟨Keeps.refl _, fun h => nomatch h⟩
    | ok verdict =>
      have h := finishChannelMessage_spec env.platform p verdict s.openedKeys
      simp only [hv]
      rcases hf : finishChannelMessage env.platform p verdict s.openedKeys with ⟨_ | bytes, opened⟩
      · rw [hf] at h
        exact ⟨h.1, fun h => nomatch h⟩
      · rw [hf] at h
        exact ⟨h.1, fun _ => claimed_of_prepared (by rw [hp]) (h.2 rfl)⟩

theorem openChannelMessagePage_claims (s : St) :
    Keeps s.openedKeys (openChannelMessagePage env channelId rows s).2.openedKeys ∧
    ∀ row out, (row, out) ∈ rows.zip (openChannelMessagePage env channelId rows s).1 → out.isOk = true →
      Claimed (openChannelMessagePage env channelId rows s).2.openedKeys row := by
  obtain ⟨hk, hj⟩ := finishAll_spec env.platform (pageVerdicts (prepareAll env channelId rows s.seedCache).1) 0
    (prepareAll env channelId rows s.seedCache).1 s.openedKeys
  refine ⟨hk, fun row out hmem hok => ?_⟩
  obtain ⟨j, hj'⟩ := getElem?_of_mem hmem
  obtain ⟨hrow, hout⟩ := getElem?_zip_eq_some.mp hj'
  cases out with
  | error e => cases hok
  | ok bytes =>
    obtain ⟨p, hp, hget⟩ := hj j bytes hout
    obtain ⟨row', cache, hr, hprep⟩ := prepareAll_ok hp
    rw [hrow] at hr
    cases hr
    exact claimed_of_prepared hprep hget

theorem runCall_claims (call : Call ε) (s : St) :
    Keeps s.openedKeys (runCall call s).2.openedKeys ∧ ∀ row ∈ (runCall call s).1,
      Claimed (runCall call s).2.openedKeys row := by
  cases call with
  | row env channelId row =>
    obtain ⟨hk, hc⟩ := openChannelMessageProving_claims env channelId row s
    refine ⟨hk, fun r hr => ?_⟩
    simp only [runCall] at hr
    split at hr
    · rename_i hok
      obtain rfl := mem_singleton.mp hr
      exact hc hok
    · cases hr
  | page env channelId rows =>
    obtain ⟨hk, hc⟩ := openChannelMessagePage_claims env channelId rows s
    refine ⟨hk, fun r hr => ?_⟩
    obtain ⟨⟨row, out⟩, hmem, rfl⟩ := mem_map.mp hr
    obtain ⟨hzip, hok⟩ := mem_filter.mp hmem
    exact hc row out hzip hok

theorem runCalls_claims (calls : List (Call ε)) (s : St) :
    Keeps s.openedKeys (runCalls calls s).2.openedKeys ∧ ∀ row ∈ (runCalls calls s).1,
      Claimed (runCalls calls s).2.openedKeys row := by
  induction calls generalizing s with
  | nil => exact ⟨Keeps.refl _, fun row h => nomatch h⟩
  | cons call calls ih =>
    obtain ⟨hk, hc⟩ := runCall_claims call s
    obtain ⟨hk', hc'⟩ := ih (runCall call s).2
    refine ⟨hk.trans hk', fun row hr => ?_⟩
    rcases mem_append.mp hr with hr | hr
    · exact (hc row hr).keep hk'
    · exact hc' row hr

/-- Opening a page is opening its rows, from any state; and over any calls, from any state,
    two rows that open under one session and index have one id. -/
theorem page_opens_as_its_rows :
    (∀ (env : Env ε) (channelId : JsString) (rows : List OpenableChannelMessage) (s : St),
      (∀ rt, env.runtime = some rt → rt.engine.BatchesAs (pageChecks env channelId rows s.seedCache)) →
      openChannelMessagePage env channelId rows s = openEach env channelId rows s) ∧
    (∀ (calls : List (Call ε)) (s : St), ∀ a ∈ (runCalls calls s).1, ∀ b ∈ (runCalls calls s).1,
      a.senderSessionId = b.senderSessionId → a.messageIndex = b.messageIndex → a.id = b.id) := by
  refine ⟨fun env channelId rows s hb => openChannelMessagePage_eq env channelId hb,
    fun calls s a ha b hb hses hidx => ?_⟩
  have hclaims := (runCalls_claims calls s).2
  obtain ⟨sid, idx, hs, hi, hget⟩ := hclaims a ha
  obtain ⟨sid', idx', hs', hi', hget'⟩ := hclaims b hb
  rw [hses, hs'] at hs
  rw [hidx, hi'] at hi
  cases hs
  cases hi
  rw [hget] at hget'
  exact Option.some.inj hget'

/-! ## The shared vector -/

/-- The session of the vectors both sides of the bridge are held to (`graineV2.test.ts`). -/
def vectorSession : StoredGraineSession :=
  ⟨units "chan-1", units "test-session", units "alice", units "AAECAwQFBgcICQoLDA0ODxAREhMUFRYXGBkaGxwdHh8=", 0,
    some (units "A6EHv/POEL4dcN0Y50vAmWfk1jCbpQ1fHdyGZBJVMbg=")⟩

def vectorKey : Bytes :=
  [0x3e, 0x7a, 0xa4, 0xda, 0x07, 0x50, 0x05, 0x14, 0x1e, 0xe2, 0x9d, 0xa1, 0x5c, 0xcf, 0xaf, 0x3c,
    0x63, 0x50, 0xc0, 0x78, 0x74, 0x52, 0x47, 0x3c, 0xb5, 0xc4, 0x53, 0x9e, 0xad, 0x5f, 0x70, 0xdc]

/-- The browser and the engine on that session: its one message derives one key and decrypts, and its
    signature verifies. -/
def vectorEnv : Env Unit where
  platform := ⟨fun text => text, fun _ _ _ => .ok vectorKey,
    fun _ _ _ _ => .ok (Canari.Mls.Authorship.utf8 "hello graine v2"), fun _ _ => false⟩
  runtime := some ⟨fun id => .ok (if id = units "test-session" then some vectorSession else none),
    graineSignatureEngine (fun _ _ _ => .ok ()) (.ok ()) fun _ => ()⟩

def vectorRow (id senderId : String) : OpenableChannelMessage where
  id := units id
  senderId := units senderId
  ciphertext := units "CCdfoCGS9kY27uJzr/2OC1Fn92Pi1uNh6VFb5tu6Pg=="
  nonce := some (units "AAECAwQFBgcICQoL")
  senderSessionId := some (units "test-session")
  messageIndex := some (.safe 7 (by decide))
  signature := some (units "Hwii/KYtoUamYQjTSfB5lolOFOdM/i4OWkozNdMjdJwDI2cIvrUQG64S3/TS23l5H9ZnsJ4KWM9Tl7+g5PenCg==")

/-- The message, the same one under another id, and the same one under another author. -/
def vectorPage : List OpenableChannelMessage :=
    [vectorRow "r1" "alice", vectorRow "r2" "alice", vectorRow "r3" "mallory"]

theorem vectorChecks_short : ∀ c ∈ pageChecks vectorEnv (units "channel_chan-1") vectorPage .empty,
    c.publicKey.length < 2 ^ 32 ∧ c.message.length < 2 ^ 32 ∧ c.signature.length < 2 ^ 32 := by
  decide +kernel

theorem vectorPage_opens :
    openChannelMessagePage vectorEnv (units "channel_chan-1") vectorPage ⟨.empty, .empty⟩ =
      openEach vectorEnv (units "channel_chan-1") vectorPage ⟨.empty, .empty⟩ ∧
    (openChannelMessagePage vectorEnv (units "channel_chan-1") vectorPage ⟨.empty, .empty⟩).1 =
      [.ok (Canari.Mls.Authorship.utf8 "hello graine v2"),
        .error (.replay (units "test-session") (.safe 7 (by decide)) (units "r1")),
        .error (.authorMismatch (units "test-session") (units "mallory") (units "alice"))] := by
  refine ⟨(page_opens_as_its_rows).1 _ _ _ _ fun rt hrt => ?_, by decide +kernel⟩
  cases hrt
  exact graineSignatureEngine_batchesAs _ _ _ vectorChecks_short

end Canari.Graine.ChannelSeal
