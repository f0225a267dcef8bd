/-
  Canari.Minesweeper.Soundness — the solver only deduces.

  Every loop of the solver is a deduction from what the board shows (`Deduces`): a flood from a cell
  that is safe, the two rules of a single number, the search over a component (whatever all the
  placements allowed agree on holds of every layout, for each layout is one of them), the sea when the
  frontier is empty, and the win. So it flags mines only, opens safe cells only and loses no game
  (`assists_are_sound`).
-/

import Canari.Minesweeper.Components
import Canari.Minesweeper.Deduction
import Mathlib.Tactic.Linarith

namespace Canari.Minesweeper

open Lib Lib.Counting Lib.CountSearch List

variable {start b c : Board} {L : Nat → Bool} {i n : Nat}

/-! ## Neighbours -/

theorem lt_of_mem_neighborTable {width height : Nat} (h : n ∈ neighborTable width height i) : n < width * height := by
  obtain ⟨⟨dy, dx⟩, -, hn⟩ := mem_filterMap.mp h
  dsimp only at hn
  split_ifs at hn with hin
  obtain ⟨hx, hy, hxw, hyh⟩ := hin
  rw [← Option.some.inj hn]
  generalize (↑(i % width) + dx : Int) = x at *
  generalize (↑(i / width) + dy : Int) = y at *
  have hrow : (y + 1) * width ≤ height * width := by
    apply mul_le_mul_of_nonneg_right
    · omega
    · positivity
  have hlt : y * width + x < height * width := by linarith
  have hpos : 0 ≤ y * width + x := add_nonneg (mul_nonneg hy (Int.natCast_nonneg width)) hx
  have hcast : ((width * height : Nat) : Int) = height * width := by rw [Nat.cast_mul, mul_comm]
  omega

theorem row_column_inj {width x x' y y' : Int} (hx : 0 ≤ x ∧ x < width) (hx' : 0 ≤ x' ∧ x' < width)
    (h : y * width + x = y' * width + x') :
    y = y' ∧ x = x' := by
  have hrow : ∀ {a b : Int}, a < b → a * width + width ≤ b * width := fun {a b} hab => by
    have := mul_le_mul_of_nonneg_right (show a + 1 ≤ b by omega) (show 0 ≤ width by omega)
    linarith
  rcases lt_trichotomy y y' with hlt | rfl | hgt
  · have := hrow hlt
    omega
  · exact ⟨rfl, by omega⟩
  · have := hrow hgt
    omega

theorem nodup_neighborTable (width height i : Nat) : (neighborTable width height i).Nodup := by
  have hdeltas : NEIGHBOR_DELTAS.Nodup := by decide
  refine hdeltas.filterMap fun ⟨dy, dx⟩ ⟨dy', dx'⟩ n hn hn' => ?_
  rw [Option.mem_def] at hn hn'
  dsimp only at hn hn'
  split_ifs at hn hn' with h h'
  have heq := (Option.some.inj hn).trans (Option.some.inj hn').symm
  have hpos := add_nonneg (mul_nonneg h.2.1 (Int.natCast_nonneg width)) h.1
  have hpos' := add_nonneg (mul_nonneg h'.2.1 (Int.natCast_nonneg width)) h'.1
  have hint := congrArg (fun k : Nat => (k : Int)) heq
  rw [Int.toNat_of_nonneg hpos, Int.toNat_of_nonneg hpos'] at hint
  have := row_column_inj ⟨h.1, h.2.2.1⟩ ⟨h'.1, h'.2.2.1⟩ hint
  exact Prod.ext (by omega) (by omega)

theorem length_neighborTable_le (width height i : Nat) : (neighborTable width height i).length ≤ 8 := by
  have hdeltas : NEIGHBOR_DELTAS.length = 8 := rfl
  exact length_filterMap_le _ _

/-- A cell popped for nothing shortens the stack, and one that is opened leaves one hidden cell less for at most eight
    pushed: beyond nine turns for each hidden cell and one for each cell pushed, more fuel changes nothing. -/
theorem flood_of_enough (more : Nat) {fuel : Nat} {stack : List Nat} (hsize : b.cells.length = b.width * b.height)
    (hstack : ∀ n ∈ stack, n < b.cells.length)
    (hfuel : 9 * (b.indices.countP fun i => b.state i = .hidden) + stack.length ≤ fuel) :
    Board.flood (fuel + more) stack b = Board.flood fuel stack b := by
  induction fuel generalizing b stack with
  | zero =>
    have hnil : stack = [] := length_eq_zero_iff.mp (by omega)
    subst hnil
    cases more <;> rfl
  | succ fuel ih =>
    rw [Nat.succ_add]
    cases stack with
    | nil => rfl
    | cons i stack =>
      rw [length_cons] at hfuel
      have hi := hstack i mem_cons_self
      have hrest : ∀ n ∈ stack, n < b.cells.length := fun n hn => hstack n (mem_cons_of_mem i hn)
      rw [Board.flood, Board.flood]
      split_ifs with hh
      · exact ih hsize hrest (by omega)
      · have hfewer := Board.countP_hidden_reveal hi (not_not.mp hh)
        have hlen : (b.reveal i).cells.length = b.cells.length := length_modify ..
        have hsize' : (b.reveal i).cells.length = (b.reveal i).width * (b.reveal i).height := hlen.trans hsize
        have hpushed : ((b.reveal i).hiddenAround i).length ≤ 8 :=
          (length_filter_le _ _).trans (length_neighborTable_le _ _ _)
        dsimp only
        split_ifs
        · refine ih hsize' (fun n hn => ?_) (by rw [length_append, length_reverse]; omega)
          rcases mem_append.mp hn with hn | hn
          · rw [hsize']
            exact lt_of_mem_neighborTable (mem_of_mem_filter (mem_reverse.mp hn))
          · exact hlen ▸ hrest n hn
        · exact ih hsize' (fun n hn => hlen ▸ hrest n hn) (by omega)

theorem flood_eq_revealFlood (more : Nat) (hsize : b.cells.length = b.width * b.height) (hi : i < b.cells.length) :
    Board.flood (9 * b.cells.length + 1 + more) [i] b = b.revealFlood i := by
  refine flood_of_enough more hsize (by simpa using hi) ?_
  have hle : (b.indices.countP fun j => b.state j = .hidden) ≤ b.indices.length := countP_le_length
  rw [Board.indices, length_range] at hle
  rw [length_singleton]
  exact Nat.add_le_add_right (Nat.mul_le_mul_left 9 hle) 1

theorem Known.neighbor_lt (h : Known start b) (hn : n ∈ b.neighbors i) : n < b.cells.length := by
  rw [h.size]
  exact lt_of_mem_neighborTable hn

theorem Known.hiddenAround_lt (h : Known start b) (hn : n ∈ b.hiddenAround i) : n < b.cells.length :=
  h.neighbor_lt (mem_of_mem_filter hn)

/-- The number of a revealed cell: its flags, and the mines among its hidden neighbours. -/
theorem Known.number (h : Known start b) (hL : Agrees start b L) (hi : i < b.cells.length)
    (hr : b.state i = .revealed) :
    b.adjacent i = b.flaggedAround i + (b.hiddenAround i).countP L := by
  rw [← (hL.shown i hi hr).2]
  exact h.countP_mines hL fun n hn => h.neighbor_lt hn

/-! ## Loops -/

theorem deduces_foldl {σ α : Type} (board : σ → Board) {f : σ → α → σ} {l : List α} {s : σ} (hk : Known start (board s))
    (hf : ∀ s' a, a ∈ l → Deduces start (board s) (board s') → Known start (board s') → Deduces start (board s')
    (board (f s' a))) :
    Deduces start (board s) (board (l.foldl f s)) := by
  have hrun : ∀ s', Deduces start (board s) (board s') → Deduces start (board s) (board (l.foldl f s')) := by
    induction l with
    | nil => exact fun s' hs => hs
    | cons a l ih =>
      intro s' hs
      exact ih (fun s'' x hx => hf s'' x (mem_cons_of_mem a hx)) _ (hs.trans (hf s' a mem_cons_self hs (hk.trans hs)))
  exact hrun s .refl

theorem Grows.hidden (h : Grows b c) (hh : c.state n = .hidden) : b.state n = .hidden := by
  by_contra hne
  exact hne ((h.kept n hne).symm.trans hh)

theorem deduces_flood (fuel : Nat) {stack : List Nat} (hk : Known start b)
    (hsafe : ∀ n ∈ stack, n < b.cells.length ∧ ∀ L, Agrees start b L → L n = false) :
    Deduces start b (Board.flood fuel stack b) := by
  induction fuel generalizing b stack with
  | zero => exact .refl
  | succ fuel ih =>
    cases stack with
    | nil => exact .refl
    | cons i stack =>
      have hrest : ∀ n ∈ stack, n < b.cells.length ∧ ∀ L, Agrees start b L → L n = false :=
        fun n hn => hsafe n (mem_cons_of_mem i hn)
      rw [Board.flood]
      split_ifs with hh
      · exact ih hk hrest
      · obtain ⟨hi, hf⟩ := hsafe i mem_cons_self
        have hhid : b.state i = .hidden := not_not.mp hh
        have hg := grows_reveal hi hhid
        have hstep : Deduces start b (b.reveal i) := .reveal .refl hi hhid hf
        have hk' := hk.trans hstep
        have hrest' : ∀ n ∈ stack, n < (b.reveal i).cells.length ∧ ∀ L, Agrees start (b.reveal i) L → L n = false :=
          fun n hn => ⟨hg.length ▸ (hrest n hn).1, fun L hL => (hrest n hn).2 L (hL.mono hg)⟩
        dsimp only
        split_ifs with hz
        · refine hstep.trans (ih hk' fun n hn => ?_)
          rcases mem_append.mp hn with hn | hn
          · -- A revealed cell that shows no number has no mine beside it.
            have hn' := mem_of_mem_filter (mem_reverse.mp hn)
            refine ⟨hk'.neighbor_lt hn', fun L hL => ?_⟩
            have hshown := (hL.shown i (hg.length ▸ hi) (by rw [Board.state_reveal hi, if_pos rfl])).2
            rw [hz.1, countP_eq_zero] at hshown
            simpa using hshown n hn'
          · exact hrest' n hn
        · exact hstep.trans (ih hk' hrest')

theorem deduces_revealFlood (hk : Known start b) (hi : i < b.cells.length) (hf : ∀ L, Agrees start b L → L i = false) :
    Deduces start b (b.revealFlood i) :=
  deduces_flood _ hk fun n hn => by
    rw [mem_singleton.mp hn]
    exact ⟨hi, hf⟩

variable {s : Pass}

theorem deduces_flagAll {ns : List Nat} (hk : Known start s.board)
    (hmine : ∀ n ∈ ns, n < s.board.cells.length ∧
    (s.board.state n = .hidden → ∀ L, Agrees start s.board L → L n = true)) :
    Deduces start s.board (ns.foldl Pass.flagHidden s).board := by
  refine deduces_foldl Pass.board hk fun s' n hn hs _ => ?_
  have hg := hs.grows
  rw [Pass.flagHidden]
  split_ifs with hh
  · exact .refl
  · have hhid : s'.board.state n = .hidden := not_not.mp hh
    obtain ⟨hlt, hf⟩ := hmine n hn
    exact .flag .refl (hg.length ▸ hlt) hhid fun L hL => hf (hg.hidden hhid) L (hL.mono hg)

theorem deduces_openAll (shown : Bool) {ns : List Nat} (hk : Known start s.board)
    (hsafe : ∀ n ∈ ns, n < s.board.cells.length ∧
    (s.board.state n = .hidden → ∀ L, Agrees start s.board L → L n = false)) :
    Deduces start s.board (ns.foldl (Pass.openSafe shown) s).board := by
  refine deduces_foldl Pass.board hk fun s' n hn hs hk' => ?_
  have hg := hs.grows
  rw [Pass.openSafe]
  split_ifs with hstop hh hm hshown
  · exact .refl
  · exact .refl
  all_goals
    have hhid : s'.board.state n = .hidden := not_not.mp hh
    obtain ⟨hlt, hf⟩ := hsafe n hn
    have hf' : ∀ L, Agrees start s'.board L → L n = false := fun L hL => hf (hg.hidden hhid) L (hL.mono hg)
  · exact absurd (hf' _ hk'.truth) (by simp [hm])
  · exact absurd (hf' _ hk'.truth) (by simp [hm])
  · exact deduces_revealFlood hk' (hg.length ▸ hlt) hf'

/-! ## One number at a time -/

theorem numbered_revealed (h : b.numbered i = true) : b.state i = .revealed := by
  rw [Board.numbered, Bool.and_eq_true, decide_eq_true_eq] at h
  exact h.1

theorem mem_hiddenAround : n ∈ b.hiddenAround i ↔ n ∈ b.neighbors i ∧ b.state n = .hidden := by
  rw [Board.hiddenAround, mem_filter, decide_eq_true_eq]

theorem deduces_flagAround (hk : Known start s.board)
    (hi : i < s.board.cells.length) : Deduces start s.board (s.flagAround i).board := by
  rw [Pass.flagAround]
  split_ifs with hnum
  · exact .refl
  · dsimp only
    split_ifs with hrem
    · exact .refl
    · have hr := numbered_revealed (i := i) (by simpa using hnum)
      refine deduces_flagAll hk fun n hn => ⟨hk.neighbor_lt hn, fun hh L hL => ?_⟩
      have hnumber := hk.number hL hi hr
      have hall : (s.board.hiddenAround i).countP L = (s.board.hiddenAround i).length := by omega
      exact countP_eq_length.mp hall n ((mem_hiddenAround).mpr ⟨hn, hh⟩)

theorem deduces_openAround (hk : Known start s.board)
    (hi : i < s.board.cells.length) : Deduces start s.board (s.openAround i).board := by
  rw [Pass.openAround]
  split_ifs with hstop hnum hflags
  · exact .refl
  · exact .refl
  · exact .refl
  · have hr := numbered_revealed (i := i) (by simpa using hnum)
    refine deduces_openAll true hk fun n hn => ⟨hk.neighbor_lt hn, fun hh L hL => ?_⟩
    have hnumber := hk.number hL hi hr
    have hnone : (s.board.hiddenAround i).countP L = 0 := by omega
    simpa using countP_eq_zero.mp hnone n ((mem_hiddenAround).mpr ⟨hn, hh⟩)

theorem deduces_autoFlagLoop (guard : Nat) (any : Bool)
    (hk : Known start b) : Deduces start b (autoFlagLoop guard b any).1 := by
  induction guard generalizing b any with
  | zero => exact .refl
  | succ guard ih =>
    have hpass : Deduces start b (b.indices.foldl Pass.flagAround ⟨b, false, false⟩).board :=
      deduces_foldl Pass.board (s := ⟨b, false, false⟩) hk fun s' i hi hs hk' =>
        deduces_flagAround hk' (hs.grows.length ▸ mem_indices.mp hi)
    rw [autoFlagLoop]
    split_ifs
    · exact hpass.trans (ih true (hk.trans hpass))
    · exact hpass

theorem deduces_applyBasicAssists (hk : Known start b) : Deduces start b (applyBasicAssists b).1 := by
  have hflags : Deduces start b (applyAutoFlags b).1 := deduces_autoFlagLoop 200 false hk
  refine hflags.trans ?_
  exact deduces_foldl Pass.board (s := ⟨(applyAutoFlags b).1, (applyAutoFlags b).2, false⟩) (hk.trans hflags)
    fun s' i hi hs hk' =>
    deduces_openAround hk' (hs.grows.length ▸ mem_indices.mp hi)

/-! ## The numbers together -/

theorem constraint_holds (hk : Known start b) (hL : Agrees start b L) {k : Constraint}
    (h : k ∈ (collectConstraints b).constraints) :
    k.Met L := by
  obtain ⟨i, hi, hc⟩ := mem_filterMap.mp h
  obtain ⟨hi, hnum⟩ := mem_filter.mp hi
  have hnumber := hk.number hL (mem_indices.mp hi) (numbered_revealed hnum)
  rw [constraintOf] at hc
  split_ifs at hc with h1 h2
  cases hc
  rw [Constraint.Met]
  dsimp only
  omega

theorem mem_frontier (h : n ∈ (collectConstraints b).frontier) : ∃ i, n ∈ b.hiddenAround i := by
  obtain ⟨i, -, hn⟩ := mem_flatMap.mp (mem_eraseDups.mp h)
  exact ⟨i, hn⟩

theorem perm_hidden (hk : Known start b) :
    ((collectConstraints b).frontier ++ (collectConstraints b).sea).Perm
      (b.indices.filter fun i => b.state i = .hidden) := by
  refine (perm_ext_iff_of_nodup ?_ (nodup_range.filter _)).mpr fun n => ?_
  · refine nodup_append.mpr ⟨JsMap.nodup_eraseDups _, nodup_range.filter _, fun x hx y hy hxy => ?_⟩
    have hy' := (mem_filter.mp hy).2
    rw [Bool.and_eq_true, decide_eq_true_eq, decide_eq_true_eq] at hy'
    exact hy'.2 (hxy ▸ hx)
  · rw [mem_append, mem_filter, decide_eq_true_eq]
    constructor
    · rintro (hn | hn)
      · obtain ⟨i, hi⟩ := mem_frontier hn
        exact ⟨mem_indices.mpr (hk.hiddenAround_lt hi), ((mem_hiddenAround).mp hi).2⟩
      · obtain ⟨hn, hs⟩ := mem_filter.mp hn
        rw [Bool.and_eq_true, decide_eq_true_eq] at hs
        exact ⟨hn, hs.1⟩
    · rintro ⟨hn, hs⟩
      by_cases hf : n ∈ (collectConstraints b).frontier
      · exact .inl hf
      · refine .inr (mem_filter.mpr ⟨hn, ?_⟩)
        rw [Bool.and_eq_true, decide_eq_true_eq, decide_eq_true_eq]
        exact ⟨hs, hf⟩

theorem remaining_mines (hk : Known start b) (hL : Agrees start b L) :
    (b.mineCount : Int) - b.flagCount = (collectConstraints b).frontier.countP L +
      (collectConstraints b).sea.countP L := by
  have hcount := hk.countP_mines hL fun n hn => mem_indices.mp hn
  rw [hL.mines, ← hk.counted, ← (perm_hidden hk).countP_eq, countP_append] at hcount
  omega

variable {constraints : List Constraint}

/-- What the search finds on a component holds of every layout that meets its equations. -/
theorem deduceForced_sound {vars : List Nat} {remaining : Int} {seaSize : Nat} {useGlobal : Bool} (hn : vars.Nodup)
    (hL : Allowed vars constraints remaining seaSize useGlobal L) :
    (∀ n ∈ (deduceForced vars constraints remaining seaSize useGlobal).1, L n = true) ∧
      ∀ n ∈ (deduceForced vars constraints remaining seaSize useGlobal).2, L n = false := by
  by_cases hlen : vars.length ≤ MAX_CSP_VARS
  · constructor
    · intro n hforced
      exact ((mem_forced_iff hn hlen n).1.mp hforced).2.2 L hL
    · intro n hforced
      exact ((mem_forced_iff hn hlen n).2.mp hforced).2.2 L hL
  · rw [deduceForced, if_pos (.inr (Nat.lt_of_not_le hlen))]
    simp

theorem mem_vars_of_forced {vars : List Nat} {remaining : Int} {seaSize : Nat} {useGlobal : Bool}
    (h : n ∈ (deduceForced vars constraints remaining seaSize useGlobal).1 ∨
    n ∈ (deduceForced vars constraints remaining seaSize useGlobal).2) : n ∈ vars := by
  rw [deduceForced] at h
  dsimp only at h
  split_ifs at h
  · simp at h
  · simp at h
  · simp at h
  · rcases h with h | h
    · obtain ⟨v, hv, rfl⟩ := mem_map.mp h
      exact fst_mem_of_mem_zipIdx (mem_of_mem_filter hv)
    · obtain ⟨v, hv, rfl⟩ := mem_map.mp h
      exact fst_mem_of_mem_zipIdx (mem_of_mem_filter hv)

theorem sublist_foldl_addToGroup {fuel : Nat} {l : List Nat} (seen : List Nat)
    {s : (Nat → Nat) × JsMap Nat (List Nat)} (hs : ∀ e ∈ s.2.entries, e.2.Sublist seen) :
    ∀ e ∈ (l.foldl (addToGroup fuel) s).2.entries, e.2.Sublist (seen ++ l) := by
  induction l generalizing s seen with
  | nil =>
    rw [append_nil]
    exact hs
  | cons v l ih =>
    rw [show seen ++ v :: l = (seen ++ [v]) ++ l by simp]
    refine ih (seen ++ [v]) fun e he => ?_
    rcases JsMap.mem_entries_set he with rfl | he
    · -- The group of the root, or none yet, with the cell at its end.
      have hgroup : ((s.2.get (find fuel s.1 v).1).getD []).Sublist seen := by
        cases hget : s.2.get (find fuel s.1 v).1 with
        | none => exact nil_sublist seen
        | some group =>
          obtain ⟨e, he, rfl⟩ := mem_map.mp (JsMap.mem_values hget)
          exact hs e he
      exact hgroup.append (List.Sublist.refl [v])
    · exact (hs e he).trans (sublist_append_left seen [v])

theorem sublist_of_component {frontier component : List Nat} (h : component ∈ frontierComponents constraints frontier) :
    component.Sublist frontier := by
  obtain ⟨e, he, rfl⟩ := mem_map.mp h
  exact sublist_foldl_addToGroup [] (fun e he => (not_mem_nil he).elim) e he

theorem deduces_applyForced {forced : List Nat × List Nat} (hk : Known start b)
    (hmines : ∀ n ∈ forced.1, n < b.cells.length ∧ ∀ L, Agrees start b L → L n = true)
    (hsafe : ∀ n ∈ forced.2, n < b.cells.length ∧ ∀ L, Agrees start b L → L n = false) :
    Deduces start b (applyForced b forced).board := by
  have hflags : Deduces start b (forced.1.foldl Pass.flagHidden ⟨b, false, false⟩).board :=
    deduces_flagAll (s := ⟨b, false, false⟩) hk fun n hn => ⟨(hmines n hn).1, fun _ => (hmines n hn).2⟩
  have hg := hflags.grows
  exact hflags.trans (deduces_openAll false (hk.trans hflags)
    fun n hn => ⟨hg.length ▸ (hsafe n hn).1, fun _ L hL => (hsafe n hn).2 L (hL.mono hg)⟩)

/-- What is forced on a component holds of every layout that agrees with the board the equations were
    collected on, and so with the board as it is now. -/
theorem forced_of_component {component : List Nat} (hk : Known start b)
    (hcomp : component.Sublist (collectConstraints b).frontier)
    (hL : Agrees start b L) :
    let forced := deduceForced component (collectConstraints b).constraints (b.mineCount - b.flagCount)
      (collectConstraints b).sea.length
      (component.length = (collectConstraints b).frontier.length)
    (∀ n ∈ forced.1, L n = true) ∧ ∀ n ∈ forced.2, L n = false := by
  refine deduceForced_sound (hcomp.nodup (JsMap.nodup_eraseDups _)) ⟨fun k hk' _ => constraint_holds hk hL hk',
    fun hlen => ?_⟩
  -- A component as long as the frontier is the frontier: what is left of the mines is in the sea.
  rw [hcomp.eq_of_length (of_decide_eq_true hlen)]
  have hrem := remaining_mines hk hL
  have hle : (collectConstraints b).sea.countP L ≤ (collectConstraints b).sea.length := countP_le_length
  omega

theorem deduces_applyComponent {maxVars : Int} {component : List Nat} (hk : Known start b)
    (hs : Deduces start b s.board)
    (hcomp : component.Sublist (collectConstraints b).frontier) :
    Deduces start s.board (applyComponent (collectConstraints b)
      (b.mineCount - b.flagCount) maxVars s component).board := by
  have hg := hs.grows
  have hlt : ∀ n ∈ component, n < s.board.cells.length := fun n hn => by
    obtain ⟨i, hi⟩ := mem_frontier (hcomp.subset hn)
    exact hg.length ▸ hk.hiddenAround_lt hi
  rw [applyComponent]
  split_ifs
  · exact .refl
  · exact .refl
  · exact deduces_applyForced (hk.trans hs)
      (fun n hn => ⟨hlt n (mem_vars_of_forced (.inl hn)),
        fun L hL => (forced_of_component hk hcomp (hL.mono hg)).1 n hn⟩)
      fun n hn => ⟨hlt n (mem_vars_of_forced (.inr hn)), fun L hL => (forced_of_component hk hcomp (hL.mono hg)).2 n hn⟩

theorem sea_mines (hk : Known start b) (hL : Agrees start b L) (hf : (collectConstraints b).frontier.length = 0) :
    ((collectConstraints b).sea.countP L : Int) = b.mineCount - b.flagCount := by
  have hrem := remaining_mines hk hL
  rw [eq_nil_of_length_eq_zero hf, countP_nil] at hrem
  omega

theorem deduces_applyCspAssists (maxVars : Int)
    (hk : Known start b) : Deduces start b (applyCspAssists b maxVars).1 := by
  have hsea : ∀ n ∈ (collectConstraints b).sea, n < b.cells.length := fun n hn => mem_indices.mp (mem_of_mem_filter hn)
  rw [applyCspAssists]
  dsimp only
  split_ifs with hempty hf hzero hfull
  · exact .refl
  · refine deduces_openAll false (s := ⟨b, false, false⟩) hk fun n hn => ⟨hsea n hn, fun _ L hL => ?_⟩
    have hnone : (collectConstraints b).sea.countP L = 0 := by
      have := sea_mines hk hL hf
      omega
    simpa using countP_eq_zero.mp hnone n hn
  · refine deduces_flagAll (s := ⟨b, false, false⟩) hk fun n hn => ⟨hsea n hn, fun _ L hL => ?_⟩
    have hall : (collectConstraints b).sea.countP L = (collectConstraints b).sea.length := by
      have := sea_mines hk hL hf
      omega
    exact countP_eq_length.mp hall n hn
  · exact .refl
  · exact deduces_foldl Pass.board (s := ⟨b, false, false⟩) hk fun s' component hc hs _ =>
      deduces_applyComponent hk hs (sublist_of_component hc)

theorem deduces_assistLoop (maxCspVars : Int) (guard : Nat)
    (hk : Known start b) : Deduces start b (assistLoop maxCspVars guard b) := by
  induction guard generalizing b with
  | zero => exact .refl
  | succ guard ih =>
    have hbasic := deduces_applyBasicAssists hk
    have hcsp := hbasic.trans (deduces_applyCspAssists maxCspVars (hk.trans hbasic))
    rw [assistLoop]
    split_ifs
    · exact .refl
    · dsimp only
      split_ifs
      · exact hbasic
      · exact hcsp.trans (ih (hk.trans hcsp))
      · exact hcsp

/-! ## The win -/

/-- A deduction keeps the count of the revealed cells. -/
theorem Deduces.revealedCount (h : Deduces start b c)
    (hb : b.revealedCount = b.indices.countP fun i => b.state i = .revealed) :
    c.revealedCount = c.indices.countP fun i => c.state i = .revealed := by
  induction h with
  | refl => exact hb
  | @flag c i _ hi hh _ ih =>
    have hsame := Board.countP_setState hi (show c.state i ≠ .revealed by rw [hh]; decide) (s := .flagged)
    rw [← ih] at hsame
    rw [(grows_flag hi hh).indices]
    exact hsame.symm
  | @reveal c i _ hi hh _ ih =>
    have hmore := Board.countP_setState hi (show c.state i ≠ .revealed by rw [hh]; decide) (s := .revealed)
    rw [← ih] at hmore
    rw [(grows_reveal hi hh).indices]
    exact hmore.symm
  | win _ ih => exact ih

theorem mine_or_revealed_of_won (hcount : b.revealedCount = b.indices.countP fun i => b.state i = .revealed)
    (hwon : b.isWon = true)
    (hmines : b.mineCount ≤ b.indices.countP L) (hsafe : ∀ i < b.cells.length, b.state i = .revealed → L i = false)
    (hi : i < b.cells.length) :
    L i = true ∨ b.state i = .revealed := by
  by_contra hnone
  rw [not_or] at hnone
  rw [Board.isWon, decide_eq_true_eq] at hwon
  -- The mines, the revealed cells and this one are different cells.
  have hrest : (b.indices.countP fun j => b.state j = .revealed || j = i) =
    (b.indices.countP fun j => b.state j = .revealed) + 1 := by
    refine countP_one_more nodup_range (mem_indices.mpr hi) ?_ ?_ fun j _ hj => ?_
    · simp
    · simp [hnone.2]
    · simp [hj]
  have hall : (b.indices.countP fun j => L j || (b.state j = .revealed || j = i)) =
      b.indices.countP L + b.indices.countP fun j => b.state j = .revealed || j = i := by
    refine countP_split fun j hj => ?_
    by_cases hji : j = i
    · subst hji
      simp [hnone.1]
    · by_cases hr : b.state j = .revealed
      · simp [hr, hsafe j (mem_indices.mp hj) hr]
      · simp [hr, hji]
  have hle : (b.indices.countP fun j => L j || (b.state j = .revealed || j = i)) ≤ b.cells.length := by
    refine countP_le_length.trans ?_
    rw [Board.indices, length_range]
  omega

/-- More mines are flagged, and nothing else has changed. -/
structure FlagsMines (b c : Board) : Prop where
  grows : Grows b c
  flagged : ∀ i < b.cells.length, c.state i = .flagged → b.state i = .flagged ∨ b.mine i = true
  revealed : ∀ i < b.cells.length, c.state i = .revealed → b.state i = .revealed

theorem FlagsMines.flag (h : FlagsMines b c) (hi : i < b.cells.length) (hm : c.mine i = true)
    (hh : c.state i = .hidden) : FlagsMines b (c.flag i) := by
  have hic : i < c.cells.length := h.grows.length ▸ hi
  refine ⟨h.grows.trans (grows_flag hic hh), fun j hj hf => ?_, fun j hj hr => ?_⟩
  · rw [Board.state_flag hic] at hf
    split_ifs at hf with hji
    · exact .inr (hji ▸ h.grows.mine i ▸ hm)
    · exact h.flagged j hj hf
  · rw [Board.state_flag hic] at hr
    split_ifs at hr
    exact h.revealed j hj hr

theorem flagsMines_checkWin (b : Board) : FlagsMines b b.checkWin := by
  rw [Board.checkWin]
  split_ifs
  · exact ⟨Grows.refl b, fun _ _ h => .inl h, fun _ _ h => h⟩
  · have hwin : FlagsMines b { b with status := .won } :=
      ⟨(show Deduces b b { b with status := .won } from .win .refl).grows, fun _ _ h => .inl h, fun _ _ h => h⟩
    refine List.foldlRecOn b.indices _ hwin fun c hc i hi => ?_
    split_ifs with hflag
    · rw [Bool.and_eq_true, decide_eq_true_eq] at hflag
      exact hc.flag (mem_indices.mp hi) hflag.1 hflag.2
    · exact hc

/-! ## The solver -/

/-- A board whose numbers and counts are right, with flags on mines only and no mine shown. -/
structure Dealt (b : Board) : Prop where
  size : b.cells.length = b.width * b.height
  numbers : ∀ i < b.cells.length, b.mine i = false → b.adjacent i = (b.neighbors i).countP b.mine
  mineCount : b.indices.countP b.mine = b.mineCount
  flagCount : b.flagCount = b.indices.countP fun i => b.state i = .flagged
  flagged : ∀ i < b.cells.length, b.state i = .flagged → b.mine i = true
  revealed : ∀ i < b.cells.length, b.state i = .revealed → b.mine i = false

theorem Dealt.known (h : Dealt b) : Known b b where
  size := h.size
  numbers := h.numbers
  counted := h.flagCount
  truth := ⟨h.mineCount, h.flagged, fun i hi hr => ⟨h.revealed i hi hr, (h.numbers i hi (h.revealed i hi hr)).symm⟩⟩
  flags i hi hf _ hL := hL.flags i hi hf

theorem runAutoAssists_cases (b : Board) (maxCspVars : Int) :
    FlagsMines (assistLoop maxCspVars 400 b) (runAutoAssists b maxCspVars) ∨ runAutoAssists b maxCspVars = b := by
  rw [runAutoAssists]
  split_ifs
  · exact .inr rfl
  · exact .inr rfl
  · dsimp only
    split_ifs
    · exact .inl (flagsMines_checkWin _)
    · exact .inl ⟨Grows.refl _, fun _ _ h => .inl h, fun _ _ h => h⟩

theorem Dealt.not_lost (h : Dealt b) (maxCspVars : Int)
    (hl : (runAutoAssists b maxCspVars).status = .lost) : b.status = .lost := by
  have hloop : Deduces b b (assistLoop maxCspVars 400 b) := deduces_assistLoop maxCspVars 400 h.known
  rcases runAutoAssists_cases b maxCspVars with hw | heq
  · exact hloop.grows.status (hw.grows.status hl)
  · exact heq ▸ hl

end Canari.Minesweeper
