/-
  Canari.Chat.EditPrecedence — which of two edits of one message wins
  (`frontend/src/lib/utils/chat/editPrecedence.ts`).

  A row starts undated with the original body; an applier gives an edit's text to the body it holds
  when `editSupersedes` allows it. The later instant wins. At one instant the text of the edit is
  compared with the text of the body held, both read through the envelope: what the row holds gives
  back the text of the edit it took (`envelopeBodyText_applyEditToBody`), but the edit's own text is
  read as a body too, so a text that is itself the JSON of an envelope is compared by what is inside.
  Two such edits may each refuse the other, or each replace it (`tied_edits_diverge`).

  `edits_converge_iff` says when the stored body does not depend on the order: one edit is later than
  every other, or wins the tie both ways round, and a media body has no number that is not finite; or
  the one edit there is does not supersede itself. Plain texts always converge (`converges_of_plain`).
-/

import Canari.Chat.Envelope
import Canari.Lib.Contest
import Mathlib.Algebra.Order.Ring.Rat
import Mathlib.Order.WithBot

namespace Canari.Chat.EditPrecedence

open Lib Lib.Json Lib.Contest
open Lib.Utf16 (JsString)
open Lib.JsText (text)
open Chat.Envelope

inductive Instant where
  | finite (ms : ℚ)
  | notFinite
  deriving DecidableEq

structure IncomingEdit where
  editedAt : Instant
  content : JsString
  deriving DecidableEq

structure HeldEdit where
  editedAt : Option Instant
  content : JsString

def ms : Option Instant → Option ℚ
  | some (.finite n) => some n
  | _ => none

/-- `a > b`. -/
def greater (a b : JsString) : Bool := !JsText.le a b

variable (ν : Type) [JsNumber ν]

def editSupersedes (next : IncomingEdit) (held : Option HeldEdit) : Bool :=
  match held with
  | none => true
  | some held =>
    match ms held.editedAt with
    | none => true
    | some heldAt =>
      match ms (some next.editedAt) with
      | none => false
      | some nextAt =>
        if nextAt ≠ heldAt then decide (heldAt < nextAt) else
          greater (envelopeBodyText ν next.content) (envelopeBodyText ν held.content)

def applyEdit (row : HeldEdit) (e : IncomingEdit) : HeldEdit :=
  if editSupersedes ν e (some row) then ⟨some e.editedAt, applyEditToBody ν row.content e.content⟩ else row

def device (original : JsString) (es : List IncomingEdit) : HeldEdit := es.foldl (applyEdit ν) ⟨none, original⟩

/-- Every device that was given these edits ends with the same body. -/
def Converges (original : JsString) (edits : Finset IncomingEdit) : Prop :=
  ∀ es es', Covers es edits → Covers es' edits → (device ν original es).content = (device ν original es').content

/-! ## The row and the edit it took -/

variable (e h : IncomingEdit)

def beats : Bool :=
  match ms (some h.editedAt) with
  | none => true
  | some heldAt =>
    match ms (some e.editedAt) with
    | none => false
    | some nextAt => if nextAt ≠ heldAt then decide (heldAt < nextAt) else greater (envelopeBodyText ν e.content) h.content

def bodyAfter (original : JsString) (again : Bool) (t : JsString) : JsString :=
  applyEditToBody ν (if again then applyEditToBody ν original [] else original) t

def track (s : Option IncomingEdit × Bool) (e : IncomingEdit) : Option IncomingEdit × Bool :=
  (take (beats ν) s.1 e, s.1.any fun h => s.2 || beats ν e h)

def Mirrors (original : JsString) (row : HeldEdit) (s : Option IncomingEdit × Bool) : Prop :=
  row = match s.1 with
    | none => ⟨none, original⟩
    | some h => ⟨some h.editedAt, bodyAfter ν original s.2 h.content⟩

variable {ν} {original : JsString}

theorem envelopeBodyText_bodyAfter (again : Bool)
    (t : JsString) : envelopeBodyText ν (bodyAfter ν original again t) = t :=
  envelopeBodyText_applyEditToBody ν _ t

theorem editSupersedes_row (again : Bool) :
    editSupersedes ν e (some ⟨some h.editedAt, bodyAfter ν original again h.content⟩) = beats ν e h := by
  rw [editSupersedes, beats, envelopeBodyText_bodyAfter]

theorem applyEditToBody_bodyAfter (again : Bool) (t t' : JsString) :
    applyEditToBody ν (bodyAfter ν original again t) t' = bodyAfter ν original true t' := by
  cases again with
  | true => exact (applyEditToBody_applyEditToBody_iff ν _ t t').mpr (numbersFinite_applyEditToBody ν original [])
  | false => exact applyEditToBody_replaced ν original t [] t'

theorem mirrors_step {row : HeldEdit} {s : Option IncomingEdit × Bool} (hrow : Mirrors ν original row s)
    (e : IncomingEdit) :
    Mirrors ν original (applyEdit ν row e) (track ν s e) := by
  match s with
  | (none, again) =>
    obtain rfl : row = ⟨none, original⟩ := hrow
    rfl
  | (some h, again) =>
    obtain rfl : row = ⟨some h.editedAt, bodyAfter ν original again h.content⟩ := hrow
    rw [applyEdit, editSupersedes_row, applyEditToBody_bodyAfter]
    cases hb : beats ν e h with
    | true => simp [Mirrors, track, take, hb]
    | false => simp [Mirrors, track, take, hb]

theorem mirrors_foldl {row : HeldEdit} {s : Option IncomingEdit × Bool} (hrow : Mirrors ν original row s)
    (es : List IncomingEdit) :
    Mirrors ν original (es.foldl (applyEdit ν) row) (es.foldl (track ν) s) := by
  induction es generalizing row s with
  | nil => exact hrow
  | cons e es ih => exact ih (mirrors_step hrow e)

theorem fst_foldl_track (s : Option IncomingEdit × Bool)
    (es : List IncomingEdit) : (es.foldl (track ν) s).1 = es.foldl (take (beats ν)) s.1 := by
  induction es generalizing s with
  | nil => rfl
  | cons e es ih => exact ih (track ν s e)

variable (ν) in
def again (es : List IncomingEdit) : Bool := (es.foldl (track ν) (none, false)).2

theorem content_device {es : List IncomingEdit} {w : IncomingEdit} (hw : holder (beats ν) es = some w) :
    (device ν original es).content = bodyAfter ν original (again ν es) w.content := by
  have hrow := mirrors_foldl (show Mirrors ν original ⟨none, original⟩ (none, false) from rfl) es
  rw [Mirrors, fst_foldl_track, show es.foldl (take (beats ν)) none = some w from hw] at hrow
  exact congrArg HeldEdit.content hrow

/-! ## Instants -/

def rank (e : IncomingEdit) : WithBot ℚ := ms (some e.editedAt)

theorem eq_of_rank_eq {e h : IncomingEdit} (hr : rank e = rank h) (hc : e.content = h.content) : e = h := by
  obtain ⟨a, t⟩ := e
  obtain ⟨b, t'⟩ := h
  obtain rfl : t = t' := hc
  match a, b with
  | .notFinite, .notFinite => rfl
  | .finite a, .finite b =>
    obtain rfl : a = b := Option.some.inj hr
    rfl
  | .finite _, .notFinite => cases hr
  | .notFinite, .finite _ => cases hr

theorem beats_undated (e : IncomingEdit) (t : JsString) : beats ν e ⟨.notFinite, t⟩ = true := rfl

theorem undated_beats (t t' : JsString) (b : ℚ) : beats ν ⟨.notFinite, t⟩ ⟨.finite b, t'⟩ = false := rfl

theorem beats_dated (a b : ℚ) (t t' : JsString) :
    beats ν ⟨.finite a, t⟩ ⟨.finite b, t'⟩ = if a ≠ b then decide (b < a) else greater (envelopeBodyText ν t) t' := rfl

theorem rank_le_of_beats (hb : beats ν e h = true) : rank h ≤ rank e := by
  obtain ⟨a, t⟩ := e
  obtain ⟨b, t'⟩ := h
  match a, b with
  | _, .notFinite => exact bot_le
  | .notFinite, .finite _ => cases hb
  | .finite a, .finite b =>
    rw [beats_dated] at hb
    refine WithBot.coe_le_coe.mpr ?_
    split_ifs at hb with hab
    · exact le_of_lt (of_decide_eq_true hb)
    · exact le_of_eq (not_not.mp hab).symm

theorem rank_le_of_not_beats (hb : beats ν e h = false) : rank e ≤ rank h := by
  obtain ⟨a, t⟩ := e
  obtain ⟨b, t'⟩ := h
  match a, b with
  | _, .notFinite => cases hb
  | .notFinite, .finite _ => exact bot_le
  | .finite a, .finite b =>
    rw [beats_dated] at hb
    refine WithBot.coe_le_coe.mpr ?_
    split_ifs at hb with hab
    · exact not_lt.mp (of_decide_eq_false hb)
    · exact le_of_eq (not_not.mp hab)

variable (ν) in
/-- Later than the other, or at its instant the winner whichever of the two a row holds. -/
def Outranks (f h : IncomingEdit) : Prop :=
  match f.editedAt, h.editedAt with
  | .finite a, .finite b =>
    b < a ∨ (a = b ∧ greater (envelopeBodyText ν f.content) h.content = true ∧
      greater (envelopeBodyText ν h.content) f.content = false)
  | .finite _, .notFinite => True
  | .notFinite, _ => False

variable {f : IncomingEdit}

theorem outranks_iff {h : IncomingEdit} : Outranks ν f h ↔ beats ν f h = true ∧ beats ν h f = false := by
  obtain ⟨a, t⟩ := f
  obtain ⟨b, t'⟩ := h
  match a, b with
  | .notFinite, b => exact iff_of_false id fun hb => Bool.noConfusion ((beats_undated ⟨b, t'⟩ t).symm.trans hb.2)
  | .finite a, .notFinite => exact iff_of_true trivial ⟨beats_undated _ t', undated_beats t' t a⟩
  | .finite a, .finite b =>
    rw [beats_dated, beats_dated]
    by_cases hab : a = b
    · subst hab
      simp [Outranks]
    · have hba : b ≠ a := Ne.symm hab
      simp only [Outranks, hab, hba, ne_eq, not_false_eq_true, if_true, false_and, or_false, decide_eq_true_eq,
        decide_eq_false_iff_not, not_lt]
      exact ⟨fun h => ⟨h, le_of_lt h⟩, fun h => h.1⟩

theorem not_beats_self_iff :
    beats ν f f = false ↔ f.editedAt ≠ .notFinite ∧ greater (envelopeBodyText ν f.content) f.content = false := by
  obtain ⟨a, t⟩ := f
  match a with
  | .notFinite => simp [beats_undated]
  | .finite a => simp [beats_dated]

variable {edits : Finset IncomingEdit}

theorem champion_iff :
    Champion (beats ν) edits f ↔ f ∈ edits ∧ ∀ h ∈ edits, h ≠ f → Outranks ν f h := by
  simp only [Champion, outranks_iff]

/-! ## Runs that end with one body -/

theorem again_keeps {es : List IncomingEdit} {a : Bool} (h : ∀ e ∈ es, beats ν e f = false) :
    es.foldl (track ν) (some f, a) = (some f, a) := by
  induction es with
  | nil => rfl
  | cons e es ih =>
    have he := h e List.mem_cons_self
    have hstep : track ν (some f, a) e = (some f, a) := by simp [track, take, he]
    rw [List.foldl_cons, hstep]
    exact ih fun d hd => h d (List.mem_cons_of_mem e hd)

theorem bodyAfter_again_iff (t : JsString) : bodyAfter ν original true t = bodyAfter ν original false t ↔
    numbersFinite ν original = true :=
  applyEditToBody_applyEditToBody_iff ν original [] t

theorem bodyAfter_of_finite (hf : numbersFinite ν original = true) (again : Bool) (t : JsString) :
    bodyAfter ν original again t = bodyAfter ν original false t := by
  cases again with
  | true => exact (bodyAfter_again_iff t).mpr hf
  | false => rfl

theorem converges_empty : Converges ν original ∅ := by
  intro es es' hc hc'
  rw [hc.eq_nil, hc'.eq_nil]

theorem converges_of_champion (hn : numbersFinite ν original = true)
    (hf : Champion (beats ν) edits f) : Converges ν original edits := by
  intro es es' hc hc'
  rw [content_device (holder_champion hf hc), content_device (holder_champion hf hc'), bodyAfter_of_finite hn,
    bodyAfter_of_finite hn (again ν es')]

theorem converges_singleton (hf : beats ν f f = false) : Converges ν original {f} := by
  have hchampion : Champion (beats ν) {f} f :=
    ⟨Finset.mem_singleton_self f, fun h hh hne => absurd (Finset.mem_singleton.mp hh) hne⟩
  have honce : ∀ {es : List IncomingEdit}, Covers es {f} → again ν es = false := by
    intro es hc
    have hall : ∀ e ∈ es, e = f := fun e he => Finset.mem_singleton.mp ((hc e).mp he)
    cases es with
    | nil => rfl
    | cons e es =>
      obtain rfl := hall e List.mem_cons_self
      have hkeep : es.foldl (track ν) (some e, false) = (some e, false) :=
        again_keeps fun d hd => (hall d (List.mem_cons_of_mem e hd)) ▸ hf
      exact congrArg Prod.snd hkeep
  intro es es' hc hc'
  rw [content_device (holder_champion hchampion hc), content_device (holder_champion hchampion hc'),
    honce hc, honce hc']

/-! ## Texts that are no envelopes -/

theorem greater_iff {a b : JsString} : greater a b = true ↔ ¬ JsText.Le a b := by
  rw [greater, Bool.not_eq_true', JsText.Le, Bool.not_eq_true]

variable (ν) in
/-- An instant that is one, and a text that is not itself the JSON of an envelope. -/
def Plain (e : IncomingEdit) : Prop := ∃ a t, e = ⟨.finite a, t⟩ ∧ envelopeBodyText ν t = t

theorem outranks_of_plain {a b : ℚ} {t t' : JsString} (ht : envelopeBodyText ν t = t) (ht' : envelopeBodyText ν t' = t') :
    Outranks ν ⟨.finite a, t⟩ ⟨.finite b, t'⟩ ↔ b < a ∨ (a = b ∧ ¬ JsText.Le t t') := by
  simp only [Outranks, ht, ht', ← Bool.not_eq_true, greater_iff, not_not]
  refine or_congr_right (and_congr_right fun _ => ⟨fun h => h.1, fun h => ⟨h, ?_⟩⟩)
  exact (JsText.le_total t t').resolve_left h

theorem Plain.outranks_or {h : IncomingEdit} (hf : Plain ν f) (hh : Plain ν h) (hne : h ≠ f) :
    Outranks ν f h ∨ Outranks ν h f := by
  obtain ⟨a, t, rfl, ht⟩ := hf
  obtain ⟨b, t', rfl, ht'⟩ := hh
  rw [outranks_of_plain ht ht', outranks_of_plain ht' ht]
  rcases lt_trichotomy a b with hlt | rfl | hgt
  · exact .inr (.inl hlt)
  · by_cases hle : JsText.Le t t'
    · exact .inr (.inr ⟨rfl, fun hle' => hne (by rw [JsText.le_antisymm hle hle'])⟩)
    · exact .inl (.inr ⟨rfl, hle⟩)
  · exact .inl (.inl hgt)

theorem Plain.outranks_trans {e h : IncomingEdit} (he : Plain ν e) (hf : Plain ν f) (hh : Plain ν h)
    (hef : Outranks ν e f) (hfh : Outranks ν f h) : Outranks ν e h := by
  obtain ⟨a, t, rfl, ht⟩ := he
  obtain ⟨b, t', rfl, ht'⟩ := hf
  obtain ⟨c, t'', rfl, ht''⟩ := hh
  rw [outranks_of_plain ht ht'] at hef
  rw [outranks_of_plain ht' ht''] at hfh
  rw [outranks_of_plain ht ht'']
  rcases hef with hba | ⟨rfl, hle⟩
  · exact .inl (hfh.elim (fun hcb => hcb.trans hba) fun hb => hb.1 ▸ hba)
  · refine hfh.imp id fun hb => ⟨hb.1, fun hle' => hb.2 ?_⟩
    exact JsText.le_trans ((JsText.le_total t t').resolve_left hle) hle'

/-- Edits with finite instants and plain texts end with one body, whatever their order. -/
theorem converges_of_plain (hn : numbersFinite ν original = true) (hplain : ∀ e ∈ edits, Plain ν e) :
    Converges ν original edits := by
  rcases edits.eq_empty_or_nonempty with rfl | hne
  · exact converges_empty
  suffices hf : ∃ f ∈ edits, ∀ h ∈ edits, h ≠ f → Outranks ν f h by
    obtain ⟨f, hf⟩ := hf
    exact converges_of_champion hn (champion_iff.mpr hf)
  induction hne using Finset.Nonempty.cons_induction with
  | singleton e => exact ⟨e, by simp⟩
  | cons e s he hs ih =>
    obtain ⟨f, hf, hout⟩ := ih fun d hd => hplain d (Finset.mem_cons_of_mem hd)
    have hpf := hplain f (Finset.mem_cons_of_mem hf)
    have hpe := hplain e (Finset.mem_cons_self e s)
    have hne : e ≠ f := fun h => he (h ▸ hf)
    rcases hpf.outranks_or hpe hne with hfe | hef
    · refine ⟨f, Finset.mem_cons_of_mem hf, fun h hh hhf => ?_⟩
      rcases Finset.mem_cons.mp hh with rfl | hh
      · exact hfe
      · exact hout h hh hhf
    · refine ⟨e, Finset.mem_cons_self e s, fun h hh hhe => ?_⟩
      have hh := (Finset.mem_cons.mp hh).resolve_left hhe
      by_cases hhf : h = f
      · exact hhf ▸ hef
      · exact hpe.outranks_trans hpf (hplain h (Finset.mem_cons_of_mem hh)) hef (hout h hh hhf)

/-! ## What follows from one body -/

theorem holder_eq_of_converges (hc : Converges ν original edits) {es es' : List IncomingEdit}
    (h : Covers es edits) (h' : Covers es' edits) : holder (beats ν) es = holder (beats ν) es' := by
  have hsame : ∀ {l l' : List IncomingEdit}, Covers l edits → Covers l' edits → ∀ w ∈ holder (beats ν) l,
    ∀ w' ∈ holder (beats ν) l', rank w ≤ rank w' :=
    fun hl hl' w hw w' hw' =>
      rank_le_of_holder rank rank_le_of_beats rank_le_of_not_beats hw' w ((hl' w).mpr ((hl w).mp (mem_of_holder hw)))
  cases es with
  | nil =>
    have hnil : es' = [] := List.eq_nil_iff_forall_not_mem.mpr fun e he => List.not_mem_nil ((h e).mpr ((h' e).mp he))
    rw [hnil]
  | cons e es =>
    obtain ⟨w, hw⟩ := holder_of_ne_nil (beats ν) (List.cons_ne_nil e es)
    obtain ⟨w', hw'⟩ := holder_of_ne_nil (beats ν) (List.ne_nil_of_mem ((h' e).mpr ((h e).mp List.mem_cons_self)))
    have hbody := hc _ _ h h'
    rw [content_device hw, content_device hw'] at hbody
    have htext := congrArg (envelopeBodyText ν) hbody
    rw [envelopeBodyText_bodyAfter, envelopeBodyText_bodyAfter] at htext
    have hrank : rank w = rank w' := le_antisymm (hsame h h' w hw w' hw') (hsame h' h w' hw' w hw)
    rw [hw, hw', eq_of_rank_eq hrank htext]

theorem finite_of_replaced {h : IncomingEdit} (hc : Converges ν original edits)
    (hf : Champion (beats ν) edits f) (hh : h ∈ edits) (hb : beats ν f h = true) : numbersFinite ν original = true := by
  have hothers : ∀ e ∈ (edits.erase f).toList, beats ν e f = false := by
    intro e he
    rw [Finset.mem_toList, Finset.mem_erase] at he
    exact (hf.2 e he.2 he.1).2
  have honce : Covers ([f] ++ (edits.erase f).toList) edits := covers_append_erase [f] (by simp [hf.1]) (by simp)
  have htwice : Covers ([h, f] ++ (edits.erase f).toList) edits :=
    covers_append_erase [h, f] (by simp [hh, hf.1]) (by simp)
  have h1 : again ν ([f] ++ (edits.erase f).toList) = false := congrArg Prod.snd (again_keeps hothers)
  have h2 : again ν ([h, f] ++ (edits.erase f).toList) = true := by
    have hstep : track ν (some h, false) f = (some f, true) := by simp [track, take, hb]
    change ((edits.erase f).toList.foldl (track ν) (track ν (some h, false) f)).2 = true
    rw [hstep, again_keeps hothers]
  have hbody := hc _ _ htwice honce
  rw [content_device (holder_champion hf htwice), content_device (holder_champion hf honce), h1, h2] at hbody
  exact (bodyAfter_again_iff f.content).mp hbody

/-- When the stored body does not depend on the order of the edits. -/
theorem edits_converge_iff (original : JsString) (edits : Finset IncomingEdit) :
    Converges ν original edits ↔
      edits = ∅ ∨ (numbersFinite ν original = true ∧ ∃ f ∈ edits, ∀ h ∈ edits, h ≠ f → Outranks ν f h) ∨
      ∃ f, edits = {f} ∧ f.editedAt ≠ .notFinite ∧ greater (envelopeBodyText ν f.content) f.content = false := by
  constructor
  · intro hc
    rcases holder_unique_iff.mp fun _ _ => holder_eq_of_converges hc with hempty | ⟨f, hf⟩
    · exact .inl hempty
    · cases hn : numbersFinite ν original with
      | true => exact .inr (.inl ⟨rfl, f, (champion_iff).mp hf⟩)
      | false =>
        -- then nothing of the set is replaced by the champion, itself included
        have hnot : ∀ h ∈ edits, beats ν f h = false := fun h hh => by
          by_contra hb
          rw [Bool.not_eq_false] at hb
          exact Bool.noConfusion (hn.symm.trans (finite_of_replaced hc hf hh hb))
        have hsingle : edits = {f} := by
          refine Finset.eq_singleton_iff_unique_mem.mpr ⟨hf.1, fun h hh => ?_⟩
          by_contra hne
          exact Bool.noConfusion ((hnot h hh).symm.trans (hf.2 h hh hne).1)
        exact .inr (.inr ⟨f, hsingle, (not_beats_self_iff).mp (hnot f hf.1)⟩)
  · rintro (rfl | ⟨hn, f, hf, hout⟩ | ⟨f, rfl, hself⟩)
    · exact converges_empty
    · exact converges_of_champion hn ((champion_iff).mpr ⟨hf, hout⟩)
    · exact converges_singleton ((not_beats_self_iff).mpr hself)

/-- A text that is the JSON of a text envelope, and a plain one, at one instant. -/
def pastedEdit : IncomingEdit := ⟨.finite 1, text "\x7b\"kind\":\"text\",\"text\":\"a\"\x7d"⟩

def plainEdit : IncomingEdit := ⟨.finite 1, text "b"⟩

/-- Each refuses the other: `a` is not greater than `b`, and `b` is not greater than the pasted text. -/
theorem tied_edits_diverge : ¬ Converges Whole (text "hello") {pastedEdit, plainEdit} := by
  intro h
  have hbody := h [pastedEdit, plainEdit] [plainEdit, pastedEdit] (fun e => by simp) (fun e => by simp [or_comm])
  exact absurd hbody (by decide +kernel)

/-- Two plain texts at one instant. -/
theorem plain_edits_converge : Converges Whole (text "hello") {⟨.finite 1, text "a"⟩, ⟨.finite 1, text "b"⟩} := by
  refine (edits_converge_iff (ν := Whole) _ _).mpr (.inr (.inl ⟨by decide +kernel, ⟨.finite 1, text "b"⟩, by simp, ?_⟩))
  intro h hh hne
  rw [Finset.mem_insert, Finset.mem_singleton] at hh
  rcases hh with rfl | rfl
  · exact .inr ⟨rfl, by decide +kernel, by decide +kernel⟩
  · exact absurd rfl hne

end Canari.Chat.EditPrecedence
