/-
  Canari.Minesweeper.Components — what the solver concludes from the numbers together.

  `deduceForced` is compared with all the ways to place mines that the equations allow: it returns the
  cells that are mines in all of them, and the cells that are safe in all of them (`mem_forced_iff`).
  `frontierComponents` keeps a forest of parents, compressed only at the cell that is looked up, and is
  compared with the cells that equations link: its groups are the connected components, and every
  equation lies in one of them (`components_split`).

  An equation without cells is never looked at, whatever it asks for (`an_equation_without_cells`);
  `collectConstraints` makes none (`collected_equation`).
-/

import Canari.Lib.ParentForest
import Canari.Minesweeper.Board

namespace Canari.Minesweeper

open Lib Lib.CountSearch Lib.ParentForest List

/-! ## The ways to place mines -/

def Constraint.Met (c : Constraint) (mines : Nat → Bool) : Prop := c.vars.countP mines = c.count

/-- The equation has cells, all of them in the component. -/
def Constraint.Inside (c : Constraint) (vars : List Nat) : Prop := c.vars ≠ [] ∧ ∀ v ∈ c.vars, v ∈ vars

/-- Mines that meet the equations of a component and, when the frontier is one component, leave for the
    sea what it has room for. -/
structure Allowed (vars : List Nat) (constraints : List Constraint) (remaining : Int) (seaSize : Nat)
    (useGlobal : Bool) (mines : Nat → Bool) : Prop where
  met : ∀ c ∈ constraints, c.Inside vars → c.Met mines
  sea : useGlobal = true → 0 ≤ remaining - vars.countP mines ∧ remaining - vars.countP mines ≤ seaSize

variable {vars : List Nat} {constraints : List Constraint} {remaining : Int} {seaSize : Nat} {useGlobal : Bool}
    {mines : Nat → Bool} {v w : Nat}

theorem mem_exactConstraints {c : Constraint} : c ∈ exactConstraints vars constraints ↔
    c ∈ constraints ∧ ∀ v ∈ c.vars, v ∈ vars := by
  simp [exactConstraints, mem_filter]

/-- The search finds the placements that are allowed, and no other. -/
theorem mem_placements_iff (hn : vars.Nodup) {marks : List Bool} :
    marks ∈ placements vars (exactConstraints vars constraints) remaining seaSize useGlobal ↔
      ∃ mines, marks = vars.map mines ∧ Allowed vars constraints remaining seaSize useGlobal mines := by
  have hfresh : ∀ eq ∈ (exactConstraints vars constraints).map
    (fun c => (⟨c.vars, c.count, 0, c.vars.length⟩ : Equation Nat)),
      eq.placed = 0 ∧ eq.stillOpen = eq.vars.length := by
    intro eq heq
    obtain ⟨c, -, rfl⟩ := mem_map.mp heq
    exact ⟨rfl, rfl⟩
  have hsub : ∀ eq ∈ (exactConstraints vars constraints).map
    (fun c => (⟨c.vars, c.count, 0, c.vars.length⟩ : Equation Nat)),
      ∀ v ∈ eq.vars, v ∈ vars := by
    intro eq heq
    obtain ⟨c, hc, rfl⟩ := mem_map.mp heq
    exact ((mem_exactConstraints).mp hc).2
  rw [placements, mem_search_iff hn hfresh hsub]
  refine exists_congr fun mines => and_congr_right fun _ => ?_
  have hle : vars.countP mines ≤ vars.length := countP_le_length
  constructor
  · intro h
    obtain ⟨hlo, hhi, hmet⟩ := h
    constructor
    · intro c hc hin
      exact hmet _ (mem_map_of_mem ((mem_exactConstraints).mpr ⟨hc, hin.2⟩)) hin.1
    · intro hg
      rw [if_pos hg] at hlo hhi
      omega
  · intro h
    refine ⟨?_, ?_, ?_⟩
    · split_ifs with hg
      · have := h.sea hg
        omega
      · omega
    · split_ifs with hg
      · have := h.sea hg
        omega
      · omega
    · intro eq heq hne
      obtain ⟨c, hc, rfl⟩ := mem_map.mp heq
      obtain ⟨hc, hin⟩ := (mem_exactConstraints).mp hc
      exact h.met c hc ⟨hne, hin⟩

theorem getD_map_of_mem_zipIdx {e : Nat × Nat} (he : e ∈ vars.zipIdx) (mines : Nat → Bool)
    (d : Bool) : (vars.map mines).getD e.2 d = mines e.1 := by
  rw [mem_zipIdx_iff_getElem?] at he
  simp [getD_eq_getElem?_getD, he]

theorem seenSafe_iff (hn : vars.Nodup) {e : Nat × Nat} (he : e ∈ vars.zipIdx) :
    seenSafe (placements vars (exactConstraints vars constraints) remaining seaSize useGlobal) e.2 = true ↔
      ∃ mines, Allowed vars constraints remaining seaSize useGlobal mines ∧ mines e.1 = false := by
  rw [seenSafe, List.any_eq_true]
  constructor
  · intro h
    obtain ⟨marks, hmarks, hsafe⟩ := h
    obtain ⟨mines, rfl, hallowed⟩ := (mem_placements_iff hn).mp hmarks
    rw [getD_map_of_mem_zipIdx he] at hsafe
    exact ⟨mines, hallowed, by simpa using hsafe⟩
  · intro h
    obtain ⟨mines, hallowed, hsafe⟩ := h
    refine ⟨_, (mem_placements_iff hn).mpr ⟨mines, rfl, hallowed⟩, ?_⟩
    rw [getD_map_of_mem_zipIdx he, hsafe]
    rfl

theorem seenMine_iff (hn : vars.Nodup) {e : Nat × Nat} (he : e ∈ vars.zipIdx) :
    seenMine (placements vars (exactConstraints vars constraints) remaining seaSize useGlobal) e.2 = true ↔
      ∃ mines, Allowed vars constraints remaining seaSize useGlobal mines ∧ mines e.1 = true := by
  rw [seenMine, List.any_eq_true]
  constructor
  · intro h
    obtain ⟨marks, hmarks, hmine⟩ := h
    obtain ⟨mines, rfl, hallowed⟩ := (mem_placements_iff hn).mp hmarks
    rw [getD_map_of_mem_zipIdx he] at hmine
    exact ⟨mines, hallowed, hmine⟩
  · intro h
    obtain ⟨mines, hallowed, hmine⟩ := h
    refine ⟨_, (mem_placements_iff hn).mpr ⟨mines, rfl, hallowed⟩, ?_⟩
    rw [getD_map_of_mem_zipIdx he, hmine]

theorem placements_eq_nil_iff (hn : vars.Nodup) :
    placements vars (exactConstraints vars constraints) remaining seaSize useGlobal = [] ↔
      ¬ ∃ mines, Allowed vars constraints remaining seaSize useGlobal mines := by
  rw [eq_nil_iff_forall_not_mem]
  constructor
  · intro h hex
    obtain ⟨mines, hallowed⟩ := hex
    exact h _ ((mem_placements_iff hn).mpr ⟨mines, rfl, hallowed⟩)
  · intro h marks hmarks
    obtain ⟨mines, -, hallowed⟩ := (mem_placements_iff hn).mp hmarks
    exact h ⟨mines, hallowed⟩

/-- What is forced: the cells that are `mine` in every placement that is allowed, when there is one. -/
def Forced (vars : List Nat) (constraints : List Constraint) (remaining : Int) (seaSize : Nat) (useGlobal mine : Bool)
    (v : Nat) : Prop :=
  v ∈ vars ∧ (∃ mines, Allowed vars constraints remaining seaSize useGlobal mines) ∧
    ∀ mines, Allowed vars constraints remaining seaSize useGlobal mines → mines v = mine

theorem not_forced_of_free {mine : Bool} (hnone : ∀ c ∈ constraints, ¬ c.Inside vars) :
    ¬ Forced vars constraints remaining seaSize false mine v := by
  intro h
  have hmines := h.2.2 (fun _ => !mine) ⟨fun c hc hin => absurd hin (hnone c hc), fun hg => nomatch hg⟩
  cases mine <;> simp at hmines

theorem mem_zipIdx_iff {l : List Nat} : (∃ k, (v, k) ∈ l.zipIdx) ↔ v ∈ l := by
  rw [mem_iff_getElem?]
  exact exists_congr fun k => @mem_zipIdx_iff_getElem? _ (v, k) l

theorem mem_forcedMines (hn : vars.Nodup) (hex : ∃ mines, Allowed vars constraints remaining seaSize useGlobal mines) :
    v ∈ ((vars.zipIdx.filter fun e => !seenSafe
      (placements vars (exactConstraints vars constraints) remaining seaSize useGlobal) e.2).map Prod.fst) ↔
      Forced vars constraints remaining seaSize useGlobal true v := by
  constructor
  · intro h
    obtain ⟨e, he, rfl⟩ := mem_map.mp h
    obtain ⟨he, hsafe⟩ := mem_filter.mp he
    refine ⟨(mem_zipIdx_iff).mp ⟨e.2, he⟩, hex, fun mines hallowed => ?_⟩
    by_contra hmine
    rw [(seenSafe_iff hn he).mpr ⟨mines, hallowed, by simpa using hmine⟩] at hsafe
    cases hsafe
  · intro h
    obtain ⟨k, hk⟩ := (mem_zipIdx_iff).mpr h.1
    refine mem_map.mpr ⟨(v, k), mem_filter.mpr ⟨hk, ?_⟩, rfl⟩
    rw [Bool.not_eq_true', ← Bool.not_eq_true, seenSafe_iff hn hk]
    intro hsafe
    obtain ⟨mines, hallowed, hsafe⟩ := hsafe
    rw [h.2.2 mines hallowed] at hsafe
    cases hsafe

theorem mem_forcedSafe (hn : vars.Nodup) (hex : ∃ mines, Allowed vars constraints remaining seaSize useGlobal mines) :
    v ∈ ((vars.zipIdx.filter fun e => seenSafe
      (placements vars (exactConstraints vars constraints) remaining seaSize useGlobal) e.2 &&
        !seenMine (placements vars (exactConstraints vars constraints) remaining seaSize useGlobal) e.2).map Prod.fst) ↔
      Forced vars constraints remaining seaSize useGlobal false v := by
  constructor
  · intro h
    obtain ⟨e, he, rfl⟩ := mem_map.mp h
    obtain ⟨he, hseen⟩ := mem_filter.mp he
    rw [Bool.and_eq_true, Bool.not_eq_true', ← Bool.not_eq_true, seenMine_iff hn he] at hseen
    refine ⟨(mem_zipIdx_iff).mp ⟨e.2, he⟩, hex, fun mines hallowed => ?_⟩
    by_contra hmine
    exact hseen.2 ⟨mines, hallowed, by simpa using hmine⟩
  · intro h
    obtain ⟨k, hk⟩ := (mem_zipIdx_iff).mpr h.1
    obtain ⟨mines, hallowed⟩ := hex
    refine mem_map.mpr ⟨(v, k), mem_filter.mpr ⟨hk, ?_⟩, rfl⟩
    rw [Bool.and_eq_true, Bool.not_eq_true', ← Bool.not_eq_true, seenMine_iff hn hk, seenSafe_iff hn hk]
    refine ⟨⟨mines, hallowed, h.2.2 mines hallowed⟩, fun hmine => ?_⟩
    obtain ⟨mines', hallowed', hmine⟩ := hmine
    rw [h.2.2 mines' hallowed'] at hmine
    cases hmine

theorem mem_forced_iff (hn : vars.Nodup) (hlen : vars.length ≤ MAX_CSP_VARS) (v : Nat) :
    (v ∈ (deduceForced vars constraints remaining seaSize useGlobal).1 ↔
      Forced vars constraints remaining seaSize useGlobal true v) ∧
      (v ∈ (deduceForced vars constraints remaining seaSize useGlobal).2 ↔
        Forced vars constraints remaining seaSize useGlobal false v) := by
  rw [deduceForced]
  split_ifs with hsize hlocal
  · have hvars : vars = [] := by
      rcases hsize with hsize | hsize
      · exact length_eq_zero_iff.mp hsize
      · omega
    subst hvars
    simp [Forced]
  · rw [Bool.and_eq_true, Bool.not_eq_true', decide_eq_true_eq] at hlocal
    obtain ⟨rfl, hexact⟩ := hlocal
    have hnone : ∀ c ∈ constraints, ¬ c.Inside vars := by
      intro c hc hin
      have hmem : c ∈ exactConstraints vars constraints := (mem_exactConstraints).mpr ⟨hc, hin.2⟩
      rw [length_eq_zero_iff.mp hexact] at hmem
      cases hmem
    simp [not_forced_of_free hnone]
  · dsimp only
    split_ifs with hfound
    · have hno := (placements_eq_nil_iff hn).mp hfound
      simp [Forced, hno]
    · have hex : ∃ mines, Allowed vars constraints remaining seaSize useGlobal mines := by
        by_contra hno
        exact hfound ((placements_eq_nil_iff hn).mpr hno)
      exact ⟨mem_forcedMines hn hex, mem_forcedSafe hn hex⟩

/-! ## The forest of the frontier -/

variable {V frontier : List Nat} {parent : Nat → Nat} {R : Nat → Nat → Prop} {a b r : Nat}

theorem climb_eq {fuel n : Nat} (h : Leads parent a n r) (hfuel : n ≤ fuel) : climb fuel parent a = r := by
  induction h generalizing fuel with
  | root hr =>
    cases fuel with
    | zero => rfl
    | succ fuel => rw [climb, if_neg (not_not.mpr hr.symm)]
  | up hne _ ih =>
    cases fuel with
    | zero => omega
    | succ fuel =>
      rw [climb, if_pos hne.symm]
      exact ih (by omega)

theorem find_eq (hf : Forest V parent) (ha : a ∈ V)
    (h : Root parent a r) : find V.length parent a = (r, Function.update parent a r) := by
  have hclimb : climb V.length parent (parent a) = r := by
    obtain ⟨n, h⟩ := h
    have hn := hf.depth_lt ha h
    cases h with
    | root hr =>
      rw [hr]
      exact climb_eq (.root hr) (Nat.zero_le _)
    | up hne h => exact climb_eq h (by omega)
  rw [find, hclimb]

theorem union_stands (hf : Forest V parent) (hs : Stands parent R) (ha : a ∈ V) (hb : b ∈ V) :
    Forest V (union V.length parent a b) ∧ Stands (union V.length parent a b) fun x y => R x y ∨ x = a ∧ y = b := by
  obtain ⟨ra, hra⟩ := hf.rooted a
  obtain ⟨rb, hrb⟩ := hf.rooted b
  have hfa : Forest V (Function.update parent a ra) := hf.compress hra
  have hrb' : Root (Function.update parent a ra) b rb := root_compress hra hrb
  have hfb := hfa.compress hrb'
  have hkept : ∀ x s, Root parent x s → Root (Function.update (Function.update parent a ra) b rb) x s :=
    fun x s hx => root_compress hrb' (root_compress hra hx)
  have hsb := hs.congr hf.rooted hkept
  have hra'' := hkept a ra hra
  have hrb'' := hkept b rb hrb
  rw [union, find_eq hf ha hra]
  rw [find_eq hfa hb hrb']
  dsimp only
  split_ifs with hne
  · exact ⟨hfb.attach hra''.isRoot hrb''.isRoot (hf.root_mem hb hrb) hne, hsb.attach hfb.rooted hra'' hrb'' hne⟩
  · rw [not_not] at hne
    have hab : Relation.EqvGen R a b := (hs a b).mp ⟨ra, hra, hne ▸ hrb⟩
    exact ⟨hfb, fun x y => (hsb x y).trans (eqvGen_insert hab).symm⟩

theorem unions_stand {first : Nat} {rest : List Nat} (hf : Forest V parent) (hs : Stands parent R)
    (hfirst : first ∈ V) (hrest : ∀ v ∈ rest, v ∈ V) :
    Forest V (rest.foldl (fun parent v => union V.length parent first v) parent) ∧
      Stands (rest.foldl (fun parent v => union V.length parent first v) parent) fun x y => R x y ∨
        x = first ∧ y ∈ rest := by
  induction rest generalizing parent R with
  | nil => exact ⟨hf, by simpa using hs⟩
  | cons v rest ih =>
    obtain ⟨hf', hs'⟩ := union_stands hf hs hfirst (hrest v mem_cons_self)
    have hboth := ih hf' hs' fun w hw => hrest w (mem_cons_of_mem v hw)
    refine ⟨hboth.1, fun x y => (hboth.2 x y).trans ?_⟩
    simp only [or_assoc, ← and_or_left, mem_cons]

/-- The pairs an equation joins: its first cell and each of the others. -/
def Constraint.Joins (c : Constraint) (x y : Nat) : Prop := ∃ rest, c.vars = x :: rest ∧ y ∈ rest

theorem joinConstraint_stands {c : Constraint} (hf : Forest V parent) (hs : Stands parent R)
    (hc : ∀ v ∈ c.vars, v ∈ V) :
    Forest V (joinConstraint V.length parent c) ∧ Stands (joinConstraint V.length parent c) fun x y => R x y ∨
      c.Joins x y := by
  rw [joinConstraint]
  cases hvars : c.vars with
  | nil => exact ⟨hf, by simpa [Constraint.Joins, hvars] using hs⟩
  | cons first rest =>
    rw [hvars] at hc
    have hboth := unions_stand hf hs (hc first mem_cons_self) fun v hv => hc v (mem_cons_of_mem first hv)
    have hjoins : ∀ x y, c.Joins x y ↔ x = first ∧ y ∈ rest := by
      intro x y
      simp only [Constraint.Joins, hvars, List.cons.injEq]
      constructor
      · intro h
        obtain ⟨_, ⟨rfl, rfl⟩, hy⟩ := h
        exact ⟨rfl, hy⟩
      · intro h
        exact ⟨rest, ⟨h.1.symm, rfl⟩, h.2⟩
    simp only [hjoins]
    exact hboth

theorem joinAll_stands {cs : List Constraint} (hf : Forest V parent) (hs : Stands parent R)
    (hcs : ∀ c ∈ cs, ∀ v ∈ c.vars, v ∈ V) :
    Forest V (cs.foldl (joinConstraint V.length) parent) ∧
      Stands (cs.foldl (joinConstraint V.length) parent) fun x y => R x y ∨ ∃ c ∈ cs, c.Joins x y := by
  induction cs generalizing parent R with
  | nil => exact ⟨hf, by simpa using hs⟩
  | cons c cs ih =>
    obtain ⟨hf', hs'⟩ := joinConstraint_stands hf hs (hcs c mem_cons_self)
    have hboth := ih hf' hs' fun d hd => hcs d (mem_cons_of_mem c hd)
    refine ⟨hboth.1, fun x y => (hboth.2 x y).trans ?_⟩
    simp only [or_assoc, mem_cons, exists_eq_or_imp]

/-! ## Connected cells -/

def Linked (constraints : List Constraint) (x y : Nat) : Prop := ∃ c ∈ constraints, x ∈ c.vars ∧ y ∈ c.vars

def Connected (constraints : List Constraint) (x y : Nat) : Prop := Relation.ReflTransGen (Linked constraints) x y

theorem Linked.symm {x y : Nat}
    (h : Linked constraints x y) : Linked constraints y x := h.imp fun _ h => ⟨h.1, h.2.symm⟩

theorem Connected.symm {x y : Nat} (h : Connected constraints x y) : Connected constraints y x := by
  induction h with
  | refl => exact .refl
  | tail _ h ih => exact Relation.ReflTransGen.head h.symm ih

theorem connected_iff_joins {x y : Nat} : Connected constraints x y ↔
    Relation.EqvGen (fun x y => ∃ c ∈ constraints, c.Joins x y) x y := by
  constructor
  · intro h
    -- From one cell of an equation to another through the first.
    have hstar : ∀ c ∈ constraints, ∀ x y, x ∈ c.vars → y ∈ c.vars →
      Relation.EqvGen (fun x y => ∃ c ∈ constraints, c.Joins x y) x y := by
      intro c hc x y hx hy
      cases hvars : c.vars with
      | nil =>
        rw [hvars] at hx
        cases hx
      | cons first rest =>
        have hfirst : ∀ z ∈ c.vars, Relation.EqvGen (fun x y => ∃ c ∈ constraints, c.Joins x y) first z := by
          intro z hz
          rw [hvars] at hz
          rcases mem_cons.mp hz with rfl | hz
          · exact .refl _
          · exact .rel _ _ ⟨c, hc, rest, hvars, hz⟩
        exact .trans _ _ _ (.symm _ _ (hfirst x hx)) (hfirst y hy)
    induction h with
    | refl => exact .refl _
    | tail _ h ih =>
      obtain ⟨c, hc, hx, hy⟩ := h
      exact .trans _ _ _ ih (hstar c hc _ _ hx hy)
  · intro h
    induction h with
    | rel x y h =>
      obtain ⟨c, hc, rest, hvars, hy⟩ := h
      exact .single ⟨c, hc, by simp [hvars], by simp [hvars, hy]⟩
    | refl x => exact .refl
    | symm x y _ ih => exact Connected.symm ih
    | trans x y z _ _ ih ih' => exact ih.trans ih'

/-! ## The groups -/

/-- The groups after part of the frontier: one for each root met, with the cells that have it. -/
structure Grouped (V : List Nat) (parent : Nat → Nat) (seen : List Nat)
    (s : (Nat → Nat) × JsMap Nat (List Nat)) : Prop where
  forest : Forest V s.1
  roots : ∀ x r, Root parent x r → Root s.1 x r
  keys : s.2.keys.Nodup
  members : ∀ r group, s.2.get r = some group → group ≠ [] ∧ ∀ v ∈ group, Root parent v r
  perm : s.2.values.flatten.Perm seen

variable {seen : List Nat} {s : (Nat → Nat) × JsMap Nat (List Nat)}

theorem Grouped.addToGroup (h : Grouped V parent seen s) (hrooted : ∀ a, ∃ r, Root parent a r) (hv : v ∈ V) :
    Grouped V parent (seen ++ [v]) (addToGroup V.length s v) := by
  obtain ⟨r, hr⟩ := hrooted v
  have hr' := h.roots v r hr
  rw [Minesweeper.addToGroup, find_eq h.forest hv hr']
  dsimp only
  refine ⟨h.forest.compress hr', fun x t hx => root_compress hr' (h.roots x t hx), JsMap.nodup_keys_set h.keys _ _,
    fun t group hget => ?_, ?_⟩
  · rw [JsMap.get_set] at hget
    split_ifs at hget with ht
    · cases hget
      refine ⟨by simp, fun w hw => ?_⟩
      rcases mem_append.mp hw with hw | hw
      · cases hold : s.2.get r with
        | none =>
          rw [hold] at hw
          cases hw
        | some group =>
          rw [hold] at hw
          exact ht ▸ (h.members r group hold).2 w hw
      · rw [mem_singleton.mp hw, ht]
        exact hr
    · exact h.members t group hget
  · have hset := JsMap.perm_values_set id h.keys r ((s.2.get r).getD [] ++ [v])
    have hold : (s.2.values.flatMap id).Perm (id ((s.2.get r).getD []) ++ (s.2.delete r).values.flatMap id) :=
      JsMap.perm_values_at rfl h.keys r
    rw [flatMap_id] at hset hold
    have hmove := (@perm_append_comm _ [v] ((s.2.delete r).values.flatMap id)).append_left ((s.2.get r).getD [])
    rw [← append_assoc, ← append_assoc] at hmove
    exact (hset.trans hmove).trans ((hold.symm.trans h.perm).append_right [v])

theorem Grouped.addAll {l : List Nat} (h : Grouped V parent seen s) (hrooted : ∀ a, ∃ r, Root parent a r)
    (hl : ∀ v ∈ l, v ∈ V) :
    Grouped V parent (seen ++ l) (l.foldl (Minesweeper.addToGroup V.length) s) := by
  induction l generalizing seen s with
  | nil => simpa using h
  | cons v l ih =>
    have hv := h.addToGroup hrooted (hl v mem_cons_self)
    rw [show seen ++ v :: l = (seen ++ [v]) ++ l by simp]
    exact ih hv fun w hw => hl w (mem_cons_of_mem v hw)

/-- The forest of all the equations, and the groups read off it. -/
theorem grouped_components (hsub : ∀ c ∈ constraints, ∀ v ∈ c.vars, v ∈ frontier) :
    ∃ (parent : Nat → Nat) (groups : JsMap Nat (List Nat)), frontierComponents constraints frontier = groups.values ∧
      (∀ a, ∃ r, Root parent a r) ∧ (∀ x y, (∃ r, Root parent x r ∧ Root parent y r) ↔ Connected constraints x y) ∧
      ∃ last, Grouped frontier parent frontier (last, groups) := by
  obtain ⟨hf, hs⟩ := joinAll_stands (Forest.id frontier) Stands.id hsub
  have hstart : Grouped frontier (constraints.foldl (joinConstraint frontier.length) id) []
      (constraints.foldl (joinConstraint frontier.length) id, JsMap.empty) :=
    ⟨hf, fun _ _ h => h, nodup_nil, fun _ _ h => (nomatch h), .refl _⟩
  refine ⟨_, _, rfl, hf.rooted, fun x y => ?_, _, hstart.addAll hf.rooted fun v hv => hv⟩
  rw [hs x y, connected_iff_joins]
  simp

/-- The groups are the connected components of the frontier, and no equation is lost between them. -/
theorem components_split (hsub : ∀ c ∈ constraints, ∀ v ∈ c.vars, v ∈ frontier) :
    (frontierComponents constraints frontier).flatten.Perm frontier ∧
      (∀ component ∈ frontierComponents constraints frontier,
        component ≠ [] ∧ ∀ v ∈ component, ∀ w, w ∈ component ↔ w ∈ frontier ∧ Connected constraints v w) ∧
      ∀ c ∈ constraints, c.vars ≠ [] → ∃ component ∈ frontierComponents constraints frontier, c.Inside component := by
  obtain ⟨parent, groups, heq, hrooted, hconn, last, hg⟩ := grouped_components hsub
  rw [heq]
  have hget : ∀ component ∈ groups.values, ∃ r, groups.get r = some component := by
    intro component hc
    obtain ⟨e, he, rfl⟩ := mem_map.mp hc
    exact ⟨e.1, JsMap.lookup_of_mem hg.keys he⟩
  -- The group of a cell's root is the one the cell is in.
  have hin : ∀ {r component w}, groups.get r = some component → w ∈ frontier → Root parent w r → w ∈ component := by
    intro r component w hr hw hroot
    obtain ⟨other, hother, hwo⟩ := mem_flatten.mp (hg.perm.mem_iff.mpr hw)
    obtain ⟨t, ht⟩ := hget other hother
    rw [((hg.members t other ht).2 w hwo).unique hroot, hr] at ht
    cases ht
    exact hwo
  have hsplit : ∀ component ∈ groups.values, component ≠ [] ∧ ∀ v ∈ component, ∀ w, w ∈ component ↔
    w ∈ frontier ∧ Connected constraints v w := by
    intro component hc
    obtain ⟨r, hr⟩ := hget component hc
    obtain ⟨hne, hroots⟩ := hg.members r component hr
    refine ⟨hne, fun v hv w => ⟨fun hw => ⟨?_, ?_⟩, fun h => ?_⟩⟩
    · exact hg.perm.mem_iff.mp (mem_flatten.mpr ⟨component, hc, hw⟩)
    · exact (hconn v w).mp ⟨r, hroots v hv, hroots w hw⟩
    · obtain ⟨t, hvt, hwt⟩ := (hconn v w).mpr h.2
      exact hin hr h.1 ((hroots v hv).unique hvt ▸ hwt)
  refine ⟨hg.perm, hsplit, fun c hc hne => ?_⟩
  obtain ⟨v, hv⟩ := exists_mem_of_ne_nil _ hne
  obtain ⟨component, hcomp, hvc⟩ := mem_flatten.mp (hg.perm.mem_iff.mpr (hsub c hc v hv))
  refine ⟨component, hcomp, hne, fun w hw => ?_⟩
  exact ((hsplit component hcomp).2 v hvc w).mpr ⟨hsub c hc w hw, .single ⟨c, hc, hv, hw⟩⟩

theorem collected_equation {board : Board} {c : Constraint} (hc : c ∈ (collectConstraints board).constraints) :
    c.Inside (collectConstraints board).frontier := by
  obtain ⟨i, hi, hci⟩ := mem_filterMap.mp hc
  rw [constraintOf] at hci
  split_ifs at hci with hempty
  cases hci
  refine ⟨fun hnil => hempty (length_eq_zero_iff.mpr hnil), fun v hv => ?_⟩
  exact mem_eraseDups.mpr (mem_flatMap.mpr ⟨i, hi, hv⟩)

/-! ## The solver, cell by cell -/

/-- Whatever the equations, the remaining mines and the sea: exactly what every allowed placement agrees
    on is forced; and the components are the connected ones, each equation inside one of them. -/
theorem solver_concludes_what_is_certain :
    (∀ (vars : List Nat) (constraints : List Constraint) (remaining : Int) (seaSize : Nat) (useGlobal : Bool),
      vars.Nodup → vars.length ≤ MAX_CSP_VARS → ∀ v,
        (v ∈ (deduceForced vars constraints remaining seaSize useGlobal).1 ↔
          Forced vars constraints remaining seaSize useGlobal true v) ∧
        (v ∈ (deduceForced vars constraints remaining seaSize useGlobal).2 ↔
          Forced vars constraints remaining seaSize useGlobal false v)) ∧
    (∀ (constraints : List Constraint) (frontier : List Nat), (∀ c ∈ constraints, ∀ v ∈ c.vars, v ∈ frontier) →
      (frontierComponents constraints frontier).flatten.Perm frontier ∧
      (∀ component ∈ frontierComponents constraints frontier,
        component ≠ [] ∧ ∀ v ∈ component, ∀ w, w ∈ component ↔ w ∈ frontier ∧ Connected constraints v w) ∧
      ∀ c ∈ constraints, c.vars ≠ [] → ∃ component ∈ frontierComponents constraints frontier, c.Inside component) ∧
    ∀ board, ∀ c ∈ (collectConstraints board).constraints, c.Inside (collectConstraints board).frontier :=
  ⟨fun _ _ _ _ _ hn hlen => mem_forced_iff hn hlen, fun _ _ hsub => components_split hsub,
    fun _ _ hc => collected_equation hc⟩

/-- Two numbers that share all cells but one: the other cell is safe, and is in their component. -/
theorem the_other_cell_is_safe :
    Forced [1, 2, 3] [⟨[1, 2], 1⟩, ⟨[1, 2, 3], 1⟩] 1 0 false false 3 ∧
      ∃ component ∈ frontierComponents [⟨[1, 2], 1⟩, ⟨[1, 2, 3], 1⟩] [1, 2, 3, 8],
        (⟨[1, 2, 3], 1⟩ : Constraint).Inside component :=
  ⟨((solver_concludes_what_is_certain).1 [1, 2, 3] [⟨[1, 2], 1⟩, ⟨[1, 2, 3], 1⟩] 1 0 false (by decide) (by
    decide) 3).2.mp (by decide),
    ((solver_concludes_what_is_certain).2.1 [⟨[1, 2], 1⟩, ⟨[1, 2, 3], 1⟩] [1, 2, 3, 8] (by decide)).2.2 _ (by
      simp) (by simp)⟩

/-- One mine among no cells cannot be, but the search does not see it. -/
theorem an_equation_without_cells :
    deduceForced [0] [⟨[], 1⟩, ⟨[0], 1⟩] 0 0 false = ([0], []) ∧
      ¬ ∃ mines : Nat → Bool, ∀ c ∈ [(⟨[], 1⟩ : Constraint), ⟨[0], 1⟩], (∀ v ∈ c.vars, v ∈ [0]) → c.Met mines := by
  refine ⟨by decide, fun h => ?_⟩
  obtain ⟨mines, hmines⟩ := h
  have hempty : (0 : Int) = 1 := hmines ⟨[], 1⟩ (by simp) (by simp)
  cases hempty

end Canari.Minesweeper
