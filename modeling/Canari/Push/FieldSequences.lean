/-
  Canari.Push.FieldSequences — the scanners of the push service on messages that are well formed,
  and the text message it writes itself (`frontend/src-tauri/src/mobile/proto_fields.rs`:
  `write_varint` to `build_text_app_message`).

  On any sequence of fields the scanners read what the fields say: the walk takes one turn a
  field, and no turn of it can overflow (`turn_field`, `tame_of_message`).
  - `scanners_read_and_text_returns`: the first payload, all of them, and the first value; and a
    text that is not empty comes back from the message built of it, with its id and its time.
    An empty text is written as no field at all, and such a message announces nothing.
-/

import Canari.Lib.Cbor
import Canari.Lib.ProtoWire
import Canari.Push.MessageInfo

namespace Canari.Push

open Lib Lib.Usize Lib.ProtoWire List

variable {t : Target} {α : Type}

/-! ## Reading a number -/

section Number

theorem toNat_or_digit {result : UInt64} {b : UInt8} {shift : Nat} (hr : result.toNat < 2 ^ shift) (hs : shift < 64) :
    (result ||| ((b.toUInt64 &&& 0x7f) <<< UInt64.ofNat shift)).toNat =
      (result.toNat + b.toNat % 128 * 2 ^ shift) % 2 ^ 64 := by
  have hlow : (b.toUInt64 &&& 0x7f).toNat = b.toNat % 128 := by
    rw [UInt64.toNat_and]
    exact Nat.and_two_pow_sub_one_eq_mod b.toNat 7
  have hshift : (UInt64.ofNat shift).toNat % 64 = shift := by
    rw [UInt64.toNat_ofNat', Nat.mod_eq_of_lt (Nat.lt_trans hs (by decide)), Nat.mod_eq_of_lt hs]
  have hor : (b.toNat % 128) <<< shift ||| result.toNat = (b.toNat % 128) <<< shift + result.toNat :=
    (Nat.shiftLeft_add_eq_or_of_lt hr _).symm
  calc (result ||| ((b.toUInt64 &&& 0x7f) <<< UInt64.ofNat shift)).toNat
      = result.toNat ||| (b.toNat % 128) <<< shift % 2 ^ 64 := by
        rw [UInt64.toNat_or, UInt64.toNat_shiftLeft, hlow, hshift]
    _ = ((b.toNat % 128) <<< shift ||| result.toNat) % 2 ^ 64 := by
        rw [Nat.or_mod_two_pow, Nat.mod_eq_of_lt result.toNat_lt, Nat.or_comm]
    _ = (result.toNat + b.toNat % 128 * 2 ^ shift) % 2 ^ 64 := by
        rw [hor, Nat.shiftLeft_eq, Nat.add_comm]

theorem high_bit_iff (b : UInt8) : b.toUInt64 &&& 0x80 = 0 ↔ b.toNat < 128 := by
  have h : ∀ n : Fin 256, n.val &&& 128 = 0 ↔ n.val < 128 := by decide +kernel
  rw [← UInt64.toNat_inj]
  exact h ⟨b.toNat, b.toNat_lt⟩

/-- The loop behind `i` digits reads the others. -/
theorem varintLoop_continued {bytes v rest : Bytes} (hc : Continued v) : ∀ {fuel i cur : Nat} {result : UInt64},
    bytes.drop cur = v ++ rest → i + v.length ≤ 10 → v.length ≤ fuel → result.toNat < 2 ^ (7 * i) →
    varintLoop bytes fuel result (7 * i) cur = some (UInt64.ofNat (result.toNat + number v * 2 ^ (7 * i)),
      cur + v.length) := by
  induction hc with
  | @last b h =>
    intro fuel i cur result hd hi hf hr
    simp only [length_singleton] at hi hf
    obtain ⟨fuel, rfl⟩ : ∃ f, fuel = f + 1 := ⟨fuel - 1, by omega⟩
    have hb : bytes[cur]? = some b := by
      rw [← head?_drop, hd]
      rfl
    rw [varintLoop, if_neg (by omega), hb]
    simp only [if_pos ((high_bit_iff b).mpr h)]
    congr 2
    rw [← UInt64.toNat_inj, toNat_or_digit hr (by omega)]
    simp [number]
  | @more b v h hv ih =>
    intro fuel i cur result hd hi hf hr
    simp only [length_cons] at hi hf
    obtain ⟨fuel, rfl⟩ : ∃ f, fuel = f + 1 := ⟨fuel - 1, by omega⟩
    have hb : bytes[cur]? = some b := by
      rw [← head?_drop, hd]
      rfl
    have hd' : bytes.drop (cur + 1) = v ++ rest := by
      rw [← drop_drop, hd]
      rfl
    have hnot : ¬ b.toUInt64 &&& 0x80 = 0 := by
      rw [high_bit_iff]
      omega
    have hpow : 2 ^ (7 * (i + 1)) = 128 * 2 ^ (7 * i) := by
      rw [Nat.mul_succ, Nat.pow_add, Nat.mul_comm]
    have hdigit : result.toNat + b.toNat % 128 * 2 ^ (7 * i) < 2 ^ (7 * (i + 1)) := by
      have hle : b.toNat % 128 * 2 ^ (7 * i) ≤ 127 * 2 ^ (7 * i) := Nat.mul_le_mul_right _ (by omega)
      omega
    have hfits : 2 ^ (7 * (i + 1)) < 2 ^ 64 := by
      have hne : v.length ≠ 0 := by
        intro h0
        rw [length_eq_zero_iff] at h0
        subst h0
        cases hv
      exact Nat.pow_lt_pow_right (by decide) (by omega)
    have hread := toNat_or_digit (b := b) hr (show 7 * i < 64 by omega)
    rw [Nat.mod_eq_of_lt (Nat.lt_trans hdigit hfits)] at hread
    rw [varintLoop, if_neg (by omega), hb]
    simp only [if_neg hnot]
    rw [show 7 * i + 7 = 7 * (i + 1) by
      omega, ih hd' (by omega) (by omega) (by rw [hread]; exact hdigit), hread, hpow, number]
    congr 2
    · congr 1
      ring
    · simp only [length_cons]
      omega

theorem varintAt_spelled {bytes v rest : Bytes} {value : UInt64} {pos : Nat} (hv : Varint value v)
    (hd : bytes.drop pos = v ++ rest) :
    varintAt bytes pos = some (value, pos + v.length) := by
  have hloop := @varintLoop_continued bytes v rest hv.continued 11 0 pos 0 hd (by
    simpa using hv.short) (Nat.le_succ_of_le hv.short) (by decide)
  rw [varintAt, hloop]
  simp [hv.spells]

end Number

/-! ## Reading a field -/

section Reading

variable {s : Slice t} {v : Visitor t α} {f : Field} {tag body rest : Bytes} {pos next : Nat} {acc acc' : α}

theorem fieldOf_tag (f : Field) : fieldOf f.tag = f.num := by
  have hn := f.num.toNat_lt
  have hw := f.wireType_lt
  rw [← UInt32.toNat_inj, fieldOf, UInt64.toNat_toUInt32, UInt64.toNat_shiftRight, f.toNat_tag,
    Nat.shiftRight_eq_div_pow]
  simp only [UInt64.reduceToNat, Nat.reduceMod, Nat.reducePow]
  omega

theorem wireTypeOf_tag (f : Field) : wireTypeOf f.tag = f.wireType := by
  have hw := f.wireType_lt
  have hand := Nat.and_two_pow_sub_one_eq_mod (8 * f.num.toNat + f.wireType) 3
  rw [wireTypeOf, UInt64.toNat_and, f.toNat_tag]
  simp only [UInt64.reduceToNat, Nat.reducePow, Nat.reduceSub] at hand ⊢
  omega

def endOf (pos : Nat) (tag body : Bytes) : Nat := pos + tag.length + body.length

theorem drop_endOf (hd : s.bytes.drop pos = tag ++ body ++ rest) : s.bytes.drop (endOf pos tag body) = rest := by
  rw [endOf, Nat.add_assoc, ← length_append, ← drop_drop, hd, drop_left]

theorem drop_tag (hd : s.bytes.drop pos = tag ++ body ++ rest) : s.bytes.drop (pos + tag.length) = body ++ rest := by
  rw [← drop_drop, hd, append_assoc, drop_left]

theorem endOf_le (hpos : pos ≤ s.length)
    (hd : s.bytes.drop pos = tag ++ body ++ rest) : endOf pos tag body ≤ s.length := by
  have hlen := congrArg List.length hd
  simp only [length_drop, length_append] at hlen
  unfold endOf Slice.length at *
  omega

def recordOf (f : Field) (next : Nat) : Record :=
  match f with
  | .varint n value => .varint n value next
  | .fixed64 .. | .fixed32 .. => .fixed next
  | .delimited n payload => .delimited n (next - payload.length) payload.length

theorem recordAt_field (ht : Varint f.tag tag) (hb : f.Body body) (hpos : pos ≤ s.length)
    (hd : s.bytes.drop pos = tag ++ body ++ rest) :
    recordAt t s.bytes pos = some (recordOf f (endOf pos tag body)) := by
  have htag : varintAt s.bytes pos = some (f.tag, pos + tag.length) := by
    rw [append_assoc] at hd
    exact varintAt_spelled ht hd
  have hbody := drop_tag hd
  have hend : endOf pos tag body ≤ s.bytes.length := endOf_le hpos hd
  unfold recordAt
  rw [htag]
  simp only [wireTypeOf_tag, fieldOf_tag]
  cases hb with
  | varint h =>
    simp only [Field.wireType, Field.num, recordOf]
    rw [varintAt_spelled h hbody]
    rfl
  | fixed64 h =>
    simp only [Field.wireType, recordOf, endOf, h] at hend ⊢
    rw [if_neg (by omega)]
  | @delimited n payload length h =>
    simp only [Field.wireType, Field.num, recordOf]
    rw [append_assoc] at hbody
    rw [varintAt_spelled h hbody]
    have hfits := s.fits
    simp only [endOf, length_append] at hend ⊢
    have hlimit : t.limit ≤ 2 ^ 64 := by
      unfold Target.limit
      split <;> decide
    have hlen : t.usizeOf (UInt64.ofNat payload.length) = payload.length := by
      rw [Target.usizeOf, UInt64.toNat_ofNat', Nat.mod_eq_of_lt (by omega : payload.length < 2 ^ 64),
        Nat.mod_eq_of_lt (by omega)]
    rw [Option.map_some]
    congr 2
    omega
  | fixed32 h =>
    simp only [Field.wireType, recordOf, endOf, h] at hend ⊢
    rw [if_neg (by omega)]

/-- What a visitor does at a field; `part` is its payload. -/
def visitField (v : Visitor t α) (part : Slice t) (next : Nat) (acc : α) : Field → Turn α
  | .varint n value =>
    match v.varint n value with
    | some result => .done result
    | none => .go next acc
  | .fixed64 .. | .fixed32 .. => .go next acc
  | .delimited n _ => if v.wants n then if v.returns then .done (v.take acc part) else .go next (v.take acc part) else .go next acc

def Holds (part : Slice t) : Field → Prop
  | .delimited _ payload => part.bytes = payload
  | _ => True

theorem tag_ne_nil {value : UInt64} (h : Varint value tag) : tag ≠ [] := by
  have hc := h.continued
  intro h0
  subst h0
  cases hc

theorem lt_length (ht : Varint f.tag tag) (hd : s.bytes.drop pos = tag ++ body ++ rest) : pos < s.length := by
  have hlen := congrArg List.length hd
  have htag := length_pos_iff.mpr (tag_ne_nil ht)
  simp only [length_drop, length_append] at hlen
  unfold Slice.length
  omega

theorem turn_field (ht : Varint f.tag tag) (hb : f.Body body) (hd : s.bytes.drop pos = tag ++ body ++ rest) :
    ∃ part, Holds part f ∧ ∀ (v : Visitor t α) acc,
      turn s v pos acc = visitField v part (endOf pos tag body) acc f := by
  have hpos := lt_length ht hd
  have hrec := recordAt_field ht hb (Nat.le_of_lt hpos) hd
  have hend := endOf_le (Nat.le_of_lt hpos) hd
  have hturn : ¬ s.length ≤ pos := Nat.not_le.mpr hpos
  cases hb with
  | varint h =>
    refine ⟨s, trivial, fun v acc => ?_⟩
    rw [turn, if_neg hturn, hrec]
    rfl
  | fixed64 h =>
    refine ⟨s, trivial, fun v acc => ?_⟩
    rw [turn, if_neg hturn, hrec]
    rfl
  | @delimited n payload length h =>
    have hstart : endOf pos tag (length ++ payload) - payload.length + payload.length = endOf pos tag
      (length ++ payload) := by
      simp only [endOf, length_append]
      omega
    refine ⟨s.part (endOf pos tag (length ++ payload) - payload.length) (endOf pos tag (length ++ payload)), ?_,
      fun v acc => ?_⟩
    · have hdrop : s.bytes.drop (endOf pos tag (length ++ payload) - payload.length) = payload ++ rest := by
        have hsame : endOf pos tag (length ++ payload) - payload.length = pos + (tag ++ length).length := by
          simp only [endOf, length_append]
          omega
        rw [hsame, ← drop_drop, hd, ← append_assoc, append_assoc (tag ++ length), drop_left]
      show (s.bytes.drop _).take _ = payload
      rw [hdrop, Nat.sub_sub_self (by simp only [endOf, length_append]; omega), take_left]
    · rw [turn, if_neg hturn, hrec]
      simp only [recordOf, visitField]
      rw [hstart, if_neg (by omega)]
  | fixed32 h =>
    refine ⟨s, trivial, fun v acc => ?_⟩
    rw [turn, if_neg hturn, hrec]
    rfl

theorem not_hostile_field (ht : Varint f.tag tag) (hb : f.Body body)
    (hd : s.bytes.drop pos = tag ++ body ++ rest) : ¬ Hostile s pos := by
  intro hh
  obtain ⟨hpos, field, start, len, hr, hl⟩ := hh
  have hend := endOf_le (Nat.le_of_lt hpos) hd
  have hfits := s.fits
  rw [recordAt_field ht hb (Nat.le_of_lt hpos) hd] at hr
  cases hb with
  | varint h => cases hr
  | fixed64 h => cases hr
  | @delimited n payload length h =>
    cases hr
    simp only [endOf, length_append] at hend hl
    unfold Slice.length at hend
    omega
  | fixed32 h => cases hr

theorem visitField_go {part : Slice t} (h : visitField v part next acc f = .go pos acc') : pos = next := by
  unfold visitField at h
  split at h
  · split at h
    · cases h
    · cases h
      rfl
  · cases h
    rfl
  · cases h
    rfl
  · split at h
    · split at h
      · cases h
      · cases h
        rfl
    · cases h
      rfl

theorem turn_end (hd : s.bytes.drop pos = []) : turn s v pos acc = .done acc := by
  have hpos : s.length ≤ pos := drop_eq_nil_iff.mp hd
  rw [turn, if_pos hpos]

theorem tame_of_message {fields : List Field} {bytes : Bytes} (hm : Message fields bytes) :
    ∀ {pos acc}, s.bytes.drop pos = bytes → ¬ Overruns s v pos acc := by
  induction hm with
  | nil =>
    intro pos acc hd ho
    cases ho with
    | here hh => exact absurd hh.1 (Nat.not_lt.mpr (drop_eq_nil_iff.mp hd))
    | later hg _ =>
      rw [turn_end hd] at hg
      cases hg
  | cons ht hb _ ih =>
    intro pos acc hd ho
    cases ho with
    | here hh => exact not_hostile_field ht hb hd hh
    | later hg ho' =>
      obtain ⟨part, -, hturn⟩ := turn_field (α := α) ht hb hd
      rw [hturn] at hg
      have hnext := visitField_go hg
      subst hnext
      exact ih (drop_endOf hd) ho'

end Reading

/-! ## Reading a message -/

section Scanners

variable {s : Slice t} {fields : List Field}

theorem visitLoop_end {v : Visitor t α} {fuel pos : Nat} {acc : α}
    (hd : s.bytes.drop pos = []) : visitLoop s v fuel pos acc = acc := by
  cases fuel with
  | zero => rfl
  | succ fuel => rw [visitLoop, turn_end hd]

/-- One turn reads one field. -/
theorem visitLoop_field {f : Field} {tag body rest : Bytes} {fuel pos : Nat} (ht : Varint f.tag tag) (hb : f.Body body)
    (hd : s.bytes.drop pos = tag ++ body ++ rest) (hf : s.length < pos + fuel) :
    ∃ part next fuel', Holds part f ∧ s.bytes.drop next = rest ∧ s.length < next + fuel' ∧ ∀ (v : Visitor t α) acc,
      visitLoop s v fuel pos acc =
        match visitField v part next acc f with
        | .done result => result
        | .go pos acc => visitLoop s v fuel' pos acc := by
  obtain ⟨part, hpart, hturn⟩ := turn_field ht hb hd
  have hpos := lt_length ht hd
  have hmove : pos < endOf pos tag body := by
    have htag := length_pos_iff.mpr (tag_ne_nil ht)
    unfold endOf
    omega
  obtain ⟨fuel, rfl⟩ : ∃ g, fuel = g + 1 := ⟨fuel - 1, by omega⟩
  refine ⟨part, endOf pos tag body, fuel, hpart, drop_endOf hd, by omega, fun v acc => ?_⟩
  rewrite [visitLoop, hturn]
  cases visitField v part (endOf pos tag body) acc f <;> rfl

/-- What holds behind no field, and of a field and what is behind it once it holds of what is behind it,
    holds of a whole message. -/
theorem visit_reads {v : Visitor t α} {Reads : α → List Field → α → Prop} (hnil : ∀ acc, Reads acc [] acc)
    (hcons : ∀ f fields part next acc, Holds part f →
      match visitField v part next acc f with
      | .done result => Reads acc (f :: fields) result
      | .go _ acc' => ∀ result, Reads acc' fields result → Reads acc (f :: fields) result)
    (hm : Message fields s.bytes) : Reads v.start fields (visit s v) := by
  have hloop : ∀ {bytes : Bytes}, Message fields bytes → ∀ {fuel pos acc}, s.bytes.drop pos = bytes →
    s.length < pos + fuel →
      Reads acc fields (visitLoop s v fuel pos acc) := by
    clear hm
    intro bytes hm
    induction hm with
    | nil =>
      intro fuel pos acc hd _
      rw [visitLoop_end hd]
      exact hnil acc
    | @cons f fields tag body rest ht hb _ ih =>
      intro fuel pos acc hd hf
      obtain ⟨part, next, fuel', hpart, hd', hf', hturn⟩ := visitLoop_field ht hb hd hf
      have hfield := hcons f fields part next acc hpart
      rw [hturn]
      cases hv : visitField v part next acc f with
      | done result =>
        rw [hv] at hfield
        exact hfield
      | go pos' acc' =>
        rw [hv] at hfield
        obtain rfl := visitField_go hv
        exact hfield _ (ih hd' hf')
  exact hloop hm rfl (by omega)

theorem visit_firstField (n : UInt32)
    (hm : Message fields s.bytes) : (visit s (firstField n)).map Slice.bytes = (payloads n fields).head? := by
  refine @visit_reads t _ s fields (firstField n) (fun acc fields r => acc = none →
    r.map Slice.bytes = (payloads n fields).head?) ?_ ?_ hm rfl
  · intro acc hacc
    rw [hacc]
    rfl
  · intro f fields part next acc hpart
    cases f with
    | varint m value => exact fun _ h => h
    | fixed64 m payload => exact fun _ h => h
    | fixed32 m payload => exact fun _ h => h
    | delimited m payload =>
      have hp : part.bytes = payload := hpart
      by_cases hmn : m = n
      · simp [visitField, firstField, hmn, payloads, Field.payloadOf, hp]
      · simp [visitField, firstField, hmn, payloads, Field.payloadOf]

theorem visit_everyField (n : UInt32)
    (hm : Message fields s.bytes) : (visit s (everyField n)).map Slice.bytes = payloads n fields := by
  refine @visit_reads t _ s fields (everyField n)
    (fun found fields r => r.map Slice.bytes = found.map Slice.bytes ++ payloads n fields) ?_ ?_ hm
  · exact fun found => (append_nil _).symm
  · intro f fields part next found hpart
    cases f with
    | varint m value => exact fun _ h => h
    | fixed64 m payload => exact fun _ h => h
    | fixed32 m payload => exact fun _ h => h
    | delimited m payload =>
      have hp : part.bytes = payload := hpart
      by_cases hmn : m = n
      · simp [visitField, everyField, hmn, payloads, Field.payloadOf, hp]
      · simp [visitField, everyField, hmn, payloads, Field.payloadOf]

theorem visit_firstVarint (n : UInt32)
    (hm : Message fields s.bytes) : visit s (firstVarint n) = (values n fields).head? := by
  refine @visit_reads t _ s fields (firstVarint n) (fun acc fields r => acc = none →
    r = (values n fields).head?) ?_ ?_ hm rfl
  · exact fun acc hacc => hacc
  · intro f fields part next acc _
    cases f with
    | varint m value =>
      by_cases hmn : m = n
      · simp [visitField, firstVarint, hmn, values, Field.valueOf]
      · simp [visitField, firstVarint, hmn, values, Field.valueOf]
    | fixed64 m payload => exact fun _ h => h
    | fixed32 m payload => exact fun _ h => h
    | delimited m payload => exact fun _ h => h

theorem scan_message (v : Visitor t α) (hm : Message fields s.bytes) {fuel : Nat}
    (hf : s.length < fuel) : scan s v fuel = pure (visit s v) :=
  scan_returns (tame_of_message hm rfl) hf

end Scanners

/-! ## Writing -/

/-- The loop of `write_varint`: the bytes it pushes. -/
def writeVarintLoop : Nat → UInt64 → Bytes
  | 0, _ => []
  | fuel + 1, value =>
    let byte := (value &&& 0x7f).toUInt8
    let value := value >>> 7
    if value = 0 then [byte] else (byte ||| 0x80) :: writeVarintLoop fuel value

def writeVarint (value : UInt64) : Bytes := writeVarintLoop 10 value

variable (fieldNum : UInt32)

def writeTag (wireType : UInt8) : Bytes := writeVarint ((fieldNum.toUInt64 <<< 3) ||| wireType.toUInt64)

def writeBytesField (bytes : Bytes) : Bytes := writeTag fieldNum 2 ++ writeVarint (UInt64.ofNat bytes.length) ++ bytes

/-- `str::as_bytes`. -/
def asBytes (s : String) : Bytes := s.toByteArray.data.toList

def writeStringField (s : String) : Bytes := if s = "" then [] else writeBytesField fieldNum (asBytes s)

/-- The kind, the id and the time; an id that is empty and a time that is zero are left out. -/
def wrapAppMessage (kindFieldNum : UInt32) (kindBytes : Bytes) (messageId : String) (sentAt : Int64) : Bytes :=
  writeBytesField kindFieldNum kindBytes ++ writeStringField 6 messageId ++
    if sentAt ≠ 0 then writeTag 8 0 ++ writeVarint sentAt.toUInt64 else []

variable (messageId : String) (sentAt : Int64) (content : String)

def buildTextAppMessage : Bytes :=
  wrapAppMessage 1 (writeStringField 1 content) messageId sentAt

theorem writeVarintLoop_spells (fuel : Nat) : ∀ {value : UInt64}, value.toNat < 2 ^ (7 * (fuel + 1)) →
    Continued (writeVarintLoop (fuel + 1) value) ∧ number (writeVarintLoop (fuel + 1) value) = value.toNat ∧
      (writeVarintLoop (fuel + 1) value).length ≤ fuel + 1 := by
  have hlow : ∀ value : UInt64, (value &&& 0x7f).toUInt8.toNat = value.toNat % 128 := by
    intro value
    have hand : value.toNat &&& 127 = value.toNat % 128 := Nat.and_two_pow_sub_one_eq_mod value.toNat 7
    rw [UInt64.toNat_toUInt8, UInt64.toNat_and]
    simp only [UInt64.reduceToNat, hand]
    omega
  have hshift : ∀ value : UInt64, (value >>> 7).toNat = value.toNat / 128 := by
    intro value
    rw [UInt64.toNat_shiftRight]
    simp [Nat.shiftRight_eq_div_pow]
  have hzero : ∀ value : UInt64, value >>> 7 = 0 ↔ value.toNat < 128 := by
    intro value
    rw [← UInt64.toNat_inj, hshift]
    simp only [UInt64.reduceToNat]
    omega
  have hmark : ∀ n : Fin 128, n.val ||| 128 = n.val + 128 := by decide
  induction fuel with
  | zero =>
    intro value hv
    have hsmall : value.toNat < 128 := by simpa using hv
    rw [writeVarintLoop]
    simp only [if_pos ((hzero value).mpr hsmall)]
    refine ⟨.last (by rw [hlow]; omega), ?_, Nat.le_refl _⟩
    simp only [number, hlow]
    omega
  | succ fuel ih =>
    intro value hv
    rw [writeVarintLoop]
    by_cases hsmall : value.toNat < 128
    · simp only [if_pos ((hzero value).mpr hsmall)]
      refine ⟨.last (by rw [hlow]; omega), ?_, by simp⟩
      simp only [number, hlow]
      omega
    · have hnz : ¬ value >>> 7 = 0 := by
        rw [hzero]
        exact hsmall
      have hdiv : (value >>> 7).toNat < 2 ^ (7 * (fuel + 1)) := by
        rw [hshift]
        have hpow : 2 ^ (7 * (fuel + 1 + 1)) = 2 ^ (7 * (fuel + 1)) * 128 := by
          rw [Nat.mul_succ 7 (fuel + 1), Nat.pow_add]
        omega
      obtain ⟨hc, hn, hl⟩ := ih hdiv
      have hbyte : ((value &&& 0x7f).toUInt8 ||| 0x80).toNat = value.toNat % 128 + 128 := by
        rw [UInt8.toNat_or, hlow]
        exact hmark ⟨value.toNat % 128, by omega⟩
      simp only [if_neg hnz]
      refine ⟨.more (by rw [hbyte]; omega) hc, ?_, ?_⟩
      · rw [number, hn, hshift]
        omega
      · simp only [length_cons]
        omega

theorem writeVarint_spells (value : UInt64) : Varint value (writeVarint value) := by
  obtain ⟨hc, hn, hl⟩ := @writeVarintLoop_spells 9 value (Nat.lt_of_lt_of_le value.toNat_lt (by decide))
  refine ⟨hc, hl, ?_⟩
  show UInt64.ofNat (number (writeVarintLoop 10 value)) = value
  rw [hn, UInt64.ofNat_toNat]

theorem writeTag_eq (wireType : UInt8) (hw : wireType.toNat < 8) :
    writeTag fieldNum wireType = writeVarint (UInt64.ofNat (8 * fieldNum.toNat + wireType.toNat)) := by
  have hn := fieldNum.toNat_lt
  have hor := Nat.two_pow_add_eq_or_of_lt (show wireType.toNat < 2 ^ 3 from hw) fieldNum.toNat
  have hshift : (fieldNum.toUInt64 <<< 3).toNat = 2 ^ 3 * fieldNum.toNat := by
    rw [UInt64.toNat_shiftLeft, Nat.shiftLeft_eq, Nat.mul_comm]
    show 2 ^ 3 * fieldNum.toNat % 2 ^ 64 = _
    rw [Nat.mod_eq_of_lt (by omega)]
  rw [writeTag]
  congr 1
  rw [← UInt64.toNat_inj, UInt64.toNat_or, hshift, UInt64.toNat_ofNat', Nat.mod_eq_of_lt (by omega)]
  exact hor.symm

theorem message_bytesField (n : UInt32) (bytes : Bytes) : Message [.delimited n bytes] (writeBytesField n bytes) := by
  have hm := Message.cons (f :=
    .delimited n bytes) (writeVarint_spells _) (.delimited (writeVarint_spells _)) Message.nil
  rw [append_nil] at hm
  rw [writeBytesField, writeTag_eq n 2 (by decide), append_assoc]
  exact hm

theorem message_stringField (n : UInt32) (s : String) :
    Message (if s = "" then [] else [.delimited n (asBytes s)]) (writeStringField n s) := by
  unfold writeStringField
  split
  · exact .nil
  · exact message_bytesField n _

theorem message_varintField (n : UInt32) (value : UInt64) : Message [.varint n value]
    (writeTag n 0 ++ writeVarint value) := by
  have hm := Message.cons (f := .varint n value) (writeVarint_spells _) (.varint (writeVarint_spells value)) Message.nil
  rw [append_nil] at hm
  rw [writeTag_eq n 0 (by decide)]
  exact hm

def textFields : List Field :=
  [.delimited 1 (writeStringField 1 content)] ++ (if messageId = "" then [] else [.delimited 6 (asBytes messageId)]) ++
    if sentAt ≠ 0 then [.varint 8 sentAt.toUInt64] else []

theorem message_text :
    Message (textFields messageId sentAt content) (buildTextAppMessage messageId sentAt content) := by
  have hkind := message_bytesField 1 (writeStringField 1 content)
  have hid := message_stringField 6 messageId
  refine Message.append (Message.append hkind hid) ?_
  split
  · exact message_varintField 8 _
  · exact .nil

/-! ## There and back -/

section RoundTrip

variable {s : Slice t} {n : UInt32} {fields : List Field} {fuel : Nat}

theorem exec_find {r : Option (Slice t)}
    (h : findLengthDelimitedField s n fuel = pure r) : (find s n).exec fuel = pure r := by
  show (findLengthDelimitedField s n fuel >>= fun a => pure a) = pure r
  rw [h]
  rfl

theorem find_of_payload {payload : Bytes} (hm : Message fields s.bytes) (hf : s.length < fuel)
    (hp : (payloads n fields).head? = some payload) :
    ∃ part : Slice t, part.bytes = payload ∧ (find s n).exec fuel = pure (some part) := by
  have hreads := visit_firstField n hm
  rw [hp] at hreads
  obtain ⟨part, hv, hpart⟩ := Option.map_eq_some_iff.mp hreads
  have hscan := scan_message (firstField n) hm hf
  exact ⟨part, hpart, exec_find (hscan.trans (congrArg pure hv))⟩

theorem find_of_none (hm : Message fields s.bytes) (hf : s.length < fuel) (hp : (payloads n fields).head? = none) :
    (find s n).exec fuel = pure none := by
  have hreads := visit_firstField n hm
  rw [hp] at hreads
  have hscan := scan_message (firstField n) hm hf
  exact exec_find (hscan.trans (congrArg pure (Option.map_eq_none_iff.mp hreads)))

theorem exec_findVarint (hm : Message fields s.bytes)
    (hf : s.length < fuel) : (findVarint s n).exec fuel = pure (values n fields).head? := by
  have hscan := scan_message (firstVarint n) hm hf
  have hreads := visit_firstVarint n hm
  show (findVarintField s n fuel >>= fun a => pure a) = pure _
  rw [findVarintField, hscan]
  exact congrArg pure hreads

theorem exec_bind {β : Type} (p : Read t α) (f : α → Read t β) (fuel : Nat) :
    Read.exec (p >>= f) fuel = Read.exec p fuel >>= fun a => (f a).exec fuel :=
  Calls.run_bind _ _ _ _

theorem exec_pure (a : α) (fuel : Nat) : Read.exec (pure a : Read t α) fuel = pure a := rfl

theorem fromUtf8_asBytes {part : Slice t} {str : String} (h : part.bytes = asBytes str) : fromUtf8 part = some str := by
  rw [fromUtf8, h]
  exact Cbor.fromUTF8?_eq_some.mpr rfl

theorem exec_findText {str : String} (hm : Message fields s.bytes) (hf : s.length < fuel)
    (hp : payloads n fields = if str = "" then [] else [asBytes str]) : (findText s n).exec fuel = pure str := by
  unfold findText
  rw [exec_bind]
  by_cases hstr : str = ""
  · rw [if_pos hstr] at hp
    rw [find_of_none hm hf (by rw [hp]; rfl), hstr]
    rfl
  · rw [if_neg hstr] at hp
    obtain ⟨part, hpart, hfind⟩ := find_of_payload hm hf (by rw [hp]; rfl)
    rw [hfind, Run.pure_bind, Option.bind_some, fromUtf8_asBytes hpart]
    rfl

theorem payloads_text (n : UInt32) :
    payloads n (textFields messageId sentAt content) =
      (if n = 1 then [writeStringField 1 content] else []) ++ if n = 6 ∧
        messageId ≠ "" then [asBytes messageId] else [] := by
  unfold textFields payloads
  rw [filterMap_append, filterMap_append]
  have hkind : [Field.delimited 1 (writeStringField 1 content)].filterMap (Field.payloadOf n) =
      if n = 1 then [writeStringField 1 content] else [] := by
    by_cases h : 1 = n
    · simp [Field.payloadOf, ← h]
    · simp [Field.payloadOf, h, Ne.symm h]
  have hid : (if messageId = "" then [] else [Field.delimited 6 (asBytes messageId)]).filterMap (Field.payloadOf n) =
      if n = 6 ∧ messageId ≠ "" then [asBytes messageId] else [] := by
    by_cases h : 6 = n
    · by_cases hm : messageId = "" <;> simp [Field.payloadOf, ← h, hm]
    · by_cases hm : messageId = "" <;> simp [Field.payloadOf, h, Ne.symm h, hm]
  have htime : (if sentAt ≠ 0 then [Field.varint 8 sentAt.toUInt64] else []).filterMap (Field.payloadOf n) = [] := by
    split <;> rfl
  rw [hkind, hid, htime, append_nil]

theorem values_text :
    values 8 (textFields messageId sentAt content) = if sentAt ≠ 0 then [sentAt.toUInt64] else [] := by
  unfold textFields values
  rw [filterMap_append, filterMap_append]
  have hid : (if messageId = "" then [] else [Field.delimited 6 (asBytes messageId)]).filterMap
    (Field.valueOf 8) = [] := by
    split <;> rfl
  rw [hid]
  split <;> rfl

theorem asI64_toUInt64 : asI64 sentAt.toUInt64 = sentAt.toInt := rfl

theorem text_returns (crates : Crates) (language : PushLanguage) (messageId : String) (sentAt : Int64)
    (content : String)
    (hs : s.bytes = buildTextAppMessage messageId sentAt content) (hf : s.length < fuel) :
    (extractFullMessageInfo crates s language).exec fuel =
      pure (if content = "" then .obj [("ok", .bool false)] else
        okMessageJson content messageId sentAt.toInt "text") := by
  have hm : Message (textFields messageId sentAt content) s.bytes := by
    rw [hs]
    exact message_text messageId sentAt content
  have h6 : (findText s 6).exec fuel = pure messageId := exec_findText hm hf (by
    rw [payloads_text]
    by_cases h : messageId = "" <;> simp [h])
  have h8 : asI64 ((values 8 (textFields messageId sentAt content)).head?.getD 0) = sentAt.toInt := by
    rw [values_text]
    by_cases h : sentAt = 0
    · subst h
      rfl
    · rw [if_pos h]
      exact asI64_toUInt64 sentAt
  obtain ⟨part, hpart, h1⟩ := @find_of_payload t s 1 _ fuel (writeStringField 1 content) hm hf (by
    rw [payloads_text]
    rfl)
  have hlen : part.length < fuel := by
    have hl := congrArg List.length hs
    unfold Slice.length at hf ⊢
    rw [hpart]
    simp only [buildTextAppMessage, wrapAppMessage, writeBytesField, length_append] at hl
    omega
  have hinner : Message (if content = "" then [] else [.delimited 1 (asBytes content)]) part.bytes := by
    rw [hpart]
    exact message_stringField 1 content
  have hnone : ∀ n, n ≠ 1 → n ≠ 6 → (find s n).exec fuel = pure none := by
    intro n h h'
    apply find_of_none hm hf
    rw [payloads_text]
    simp [h, h']
  have hseeds : (graineSeeds crates s).exec fuel = pure none := by
    unfold graineSeeds
    rw [exec_bind, hnone 10 (by decide) (by decide), Run.pure_bind, exec_bind, hnone 12 (by decide) (by decide),
      Run.pure_bind]
    rfl
  unfold extractFullMessageInfo
  rw [exec_bind, h6, Run.pure_bind, exec_bind, exec_findVarint hm hf, Run.pure_bind]
  dsimp only
  rw [h8, exec_bind, h1, Run.pure_bind]
  dsimp only
  rw [exec_bind]
  by_cases hc : content = ""
  · rw [if_pos hc] at hinner
    rw [find_of_none hinner hlen rfl, if_pos hc]
    simp only [exec_bind, hnone 2 (by decide) (by decide), hnone 3 (by decide) (by decide),
      hnone 4 (by decide) (by decide),
      hnone 5 (by decide) (by decide), hnone 9 (by decide) (by decide), hnone 11 (by decide) (by decide),
        hnone 12 (by decide) (by decide),
      hnone 7 (by decide) (by decide), hseeds, Run.pure_bind, Option.isSome_none, Bool.false_eq_true, if_false]
    rfl
  · rw [if_neg hc] at hinner
    obtain ⟨inner, hin, h11⟩ :=
      @find_of_payload t part 1 _ fuel (asBytes content) hinner hlen (by simp [payloads, Field.payloadOf])
    rw [h11, Run.pure_bind, if_neg hc]
    simp only [fromUtf8_asBytes hin]
    rw [if_pos hc]
    rfl

end RoundTrip

/-- On every message that is a sequence of fields, whatever they are, the scanners return the first
    payload of the number asked for, all of them in order, and the first value. A message built of a
    text comes back as the text, the id and the time, when the text is not empty; of an empty one
    nothing is announced. -/
theorem scanners_read_and_text_returns (t : Target) :
    (∀ (s : Slice t) (fields : List Field), Message fields s.bytes → ∀ (n : UInt32) (fuel : Nat), s.length < fuel →
      (∃ r, findLengthDelimitedField s n fuel = pure r ∧ r.map Slice.bytes = (payloads n fields).head?) ∧
        (∃ r, findRepeatedLengthDelimitedField s n fuel = pure r ∧ r.map Slice.bytes = payloads n fields) ∧
        findVarintField s n fuel = pure (values n fields).head?) ∧
      ∀ (messageId : String) (sentAt : Int64) (content : String) (s : Slice t),
        s.bytes = buildTextAppMessage messageId sentAt content →
        ∀ (crates : Crates) (language : PushLanguage) (fuel : Nat), s.length < fuel →
          (extractFullMessageInfo crates s language).exec fuel =
            pure (if content = "" then .obj [("ok", .bool false)] else
              okMessageJson content messageId sentAt.toInt "text") := by
  refine ⟨?_, ?_⟩
  · intro s fields hm n fuel hf
    refine ⟨⟨_, scan_message (firstField n) hm hf, ?_⟩, ⟨_, scan_message (everyField n) hm hf, ?_⟩, ?_⟩
    · exact visit_firstField n hm
    · exact visit_everyField n hm
    · rw [findVarintField, scan_message (firstVarint n) hm hf]
      exact congrArg pure (visit_firstVarint n hm)
  · intro messageId sentAt content s hs crates language fuel hf
    exact text_returns crates language messageId sentAt content hs hf

/-- The message of an empty text has its id and its time, and neither is returned. -/
theorem an_empty_text_announces_nothing : ∃ (s : Slice ⟨.bits64, false⟩)
    (info : Json), s.bytes = buildTextAppMessage "m" 7 "" ∧
    (extractFullMessageInfo silentCrates s .english).exec 20 = pure info ∧
    info.get "text" = none ∧ info.get "messageId" = none ∧ info.get "sentAt" = none := by
  have hlen : (buildTextAppMessage "m" 7 "").length = 7 := by decide
  let s : Slice ⟨.bits64, false⟩ := ⟨buildTextAppMessage "m" 7 "", by rw [hlen]; decide⟩
  have hs : s.length < 20 := by
    show (buildTextAppMessage "m" 7 "").length < 20
    omega
  exact ⟨s, .obj [("ok", .bool false)], rfl, text_returns silentCrates .english "m" 7 "" rfl hs, rfl, rfl, rfl⟩

end Canari.Push
