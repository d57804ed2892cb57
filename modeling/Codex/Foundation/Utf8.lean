import Codex.Foundation.Text

/-!
# Texts as bytes

A text as its UTF-8 bytes, and bytes read back as a text. Over ASCII each character is
one byte, so cutting the bytes cuts the text. Bytes are also read code point by code point,
up to where they end, inside of a code point or not, or where a byte is out of its range.
-/

namespace Foundation

open List

def utf8 (t : Text) : List UInt8 := t.flatMap String.utf8EncodeChar

def fromUtf8 (bytes : List UInt8) : Option Text := bytes.toByteArray.utf8Decode?.map Array.toList

theorem fromUtf8_utf8 (t : Text) : fromUtf8 (utf8 t) = some t := by
  have hdecode : t.utf8Encode.utf8Decode? = some t.toArray := List.utf8Decode?_utf8Encode
  unfold List.utf8Encode at hdecode
  unfold fromUtf8 utf8
  rw [hdecode, Option.map_some]

@[simp] theorem utf8_nil : utf8 [] = [] := rfl

theorem utf8_append (s t : Text) : utf8 (s ++ t) = utf8 s ++ utf8 t := flatMap_append

variable {t : Text}

theorem utf8_eq_nil : utf8 t = [] ↔ t = [] := by
  constructor
  · intro h
    have hback := fromUtf8_utf8 t
    rw [h, ← utf8_nil, fromUtf8_utf8, Option.some.injEq] at hback
    exact hback.symm
  · rintro rfl
    rfl

def Ascii (t : Text) : Prop := ∀ c ∈ t, c.toNat < 128

theorem ascii_of_all (h : (t.all fun c => decide (c.toNat < 128)) = true) : Ascii t := by
  simpa [Ascii] using h

theorem utf8_ascii (h : Ascii t) : utf8 t = t.map fun c => c.toNat.toUInt8 := by
  rw [map_eq_flatMap]
  refine flatMap_congr fun c hc => ?_
  have hle : c.val.toNat ≤ 0x7f := Nat.le_of_lt_succ (h c hc)
  rw [String.utf8EncodeChar, if_pos hle]
  rfl

theorem Ascii.append {s t : Text} (hs : Ascii s) (ht : Ascii t) : Ascii (s ++ t) := by
  intro c hc
  exact (mem_append.mp hc).elim (hs c) (ht c)

theorem Ascii.take (h : Ascii t) (n : ℕ) : Ascii (t.take n) := fun c hc => h c (mem_of_mem_take hc)

theorem Ascii.length (h : Ascii t) : (utf8 t).length = t.length := by
  rw [utf8_ascii h, length_map]

theorem Ascii.take_utf8 (h : Ascii t) (n : ℕ) : (utf8 t).take n = utf8 (t.take n) := by
  rw [utf8_ascii h, utf8_ascii (h.take n), map_take]

theorem Ascii.mem_utf8 (h : Ascii t) {c : Char} (hc : c.toNat < 128) :
    c.toNat.toUInt8 ∈ utf8 t ↔ c ∈ t := by
  rw [utf8_ascii h]
  constructor
  · intro hmem
    obtain ⟨d, hd, heq⟩ := mem_map.mp hmem
    have hlt := h d hd
    have hnat := congrArg UInt8.toNat heq
    simp only [Nat.toUInt8_eq, UInt8.toNat_ofNat'] at hnat
    rw [Nat.mod_eq_of_lt (by omega), Nat.mod_eq_of_lt (by omega)] at hnat
    rwa [Char.toNat_inj.mp hnat] at hd
  · exact fun hmem => mem_map_of_mem hmem

/-! ## Code points -/

def followRanges (a : ℕ) : Option (List (ℕ × ℕ)) :=
  if a < 0x80 then some []
  else if a < 0xC2 then none
  else if a < 0xE0 then some [(0x80, 0xBF)]
  else if a = 0xE0 then some [(0xA0, 0xBF), (0x80, 0xBF)]
  else if a = 0xED then some [(0x80, 0x9F), (0x80, 0xBF)]
  else if a < 0xF0 then some [(0x80, 0xBF), (0x80, 0xBF)]
  else if a = 0xF0 then some [(0x90, 0xBF), (0x80, 0xBF), (0x80, 0xBF)]
  else if a < 0xF4 then some [(0x80, 0xBF), (0x80, 0xBF), (0x80, 0xBF)]
  else if a = 0xF4 then some [(0x80, 0x8F), (0x80, 0xBF), (0x80, 0xBF)]
  else none

def InRange (range : ℕ × ℕ) (b : UInt8) : Prop := range.1 ≤ b.toNat ∧ b.toNat ≤ range.2

instance (range : ℕ × ℕ) (b : UInt8) : Decidable (InRange range b) :=
  inferInstanceAs (Decidable (_ ∧ _))

def codePoint : List UInt8 → ℕ
  | [a] => a.toNat
  | [a, b] => (a.toNat - 0xC0) * 64 + (b.toNat - 0x80)
  | [a, b, c] => (a.toNat - 0xE0) * 4096 + (b.toNat - 0x80) * 64 + (c.toNat - 0x80)
  | [a, b, c, d] =>
    (a.toNat - 0xF0) * 262144 + (b.toNat - 0x80) * 4096 + (c.toNat - 0x80) * 64 + (d.toNat - 0x80)
  | _ => 0

def IsSequence (bytes : List UInt8) : Prop :=
  ∃ a more ranges, bytes = a :: more ∧ followRanges a.toNat = some ranges ∧
    List.Forall₂ InRange ranges more

theorem toNat_charOfNat {n : ℕ} (h : n < 0xD800 ∨ 0xDFFF < n ∧ n < 0x110000) :
    (Char.ofNat n).val.toNat = n := by
  rw [Char.ofNat, dif_pos h]
  rfl

theorem ofNat_eq_byte {n : ℕ} {b : UInt8} (h : n = b.toNat) : UInt8.ofNat n = b := by
  rw [h]
  exact UInt8.ofNat_toNat

variable {more : List UInt8}

theorem inRange_cons {range : ℕ × ℕ} {ranges : List (ℕ × ℕ)}
    (h : List.Forall₂ InRange (range :: ranges) more) :
    ∃ b rest, more = b :: rest ∧ range.1 ≤ b.toNat ∧ b.toNat ≤ range.2 ∧
      List.Forall₂ InRange ranges rest := by
  cases h with
  | cons hb hrest => exact ⟨_, _, rfl, hb.1, hb.2, hrest⟩

section
variable {a b c d : UInt8} {n : ℕ}

theorem encode_one (h : a.toNat < 0x80) : String.utf8EncodeChar (Char.ofNat a.toNat) = [a] := by
  rw [String.utf8EncodeChar, toNat_charOfNat (by omega), if_pos (by omega), ofNat_eq_byte rfl]

theorem encode_two (hn : n = (a.toNat - 0xC0) * 64 + (b.toNat - 0x80))
    (ha : 0xC2 ≤ a.toNat ∧ a.toNat < 0xE0) (hb : 0x80 ≤ b.toNat ∧ b.toNat ≤ 0xBF) :
    String.utf8EncodeChar (Char.ofNat n) = [a, b] := by
  rw [String.utf8EncodeChar, toNat_charOfNat (by omega), if_neg (by omega), if_pos (by omega),
    ofNat_eq_byte (b := a) (by omega), ofNat_eq_byte (b := b) (by omega)]

theorem encode_three (hn : n = (a.toNat - 0xE0) * 4096 + (b.toNat - 0x80) * 64 + (c.toNat - 0x80))
    (ha : 0xE0 ≤ a.toNat ∧ a.toNat < 0xF0) (hb : 0x80 ≤ b.toNat ∧ b.toNat ≤ 0xBF)
    (hc : 0x80 ≤ c.toNat ∧ c.toNat ≤ 0xBF) (hlow : a.toNat = 0xE0 → 0xA0 ≤ b.toNat)
    (hhigh : a.toNat = 0xED → b.toNat ≤ 0x9F) :
    String.utf8EncodeChar (Char.ofNat n) = [a, b, c] := by
  rw [String.utf8EncodeChar, toNat_charOfNat (by omega), if_neg (by omega), if_neg (by omega),
    if_pos (by omega), ofNat_eq_byte (b := a) (by omega), ofNat_eq_byte (b := b) (by omega),
    ofNat_eq_byte (b := c) (by omega)]

theorem encode_four
    (hn : n = (a.toNat - 0xF0) * 262144 + (b.toNat - 0x80) * 4096 + (c.toNat - 0x80) * 64 +
      (d.toNat - 0x80))
    (ha : 0xF0 ≤ a.toNat ∧ a.toNat ≤ 0xF4) (hb : 0x80 ≤ b.toNat ∧ b.toNat ≤ 0xBF)
    (hc : 0x80 ≤ c.toNat ∧ c.toNat ≤ 0xBF) (hd : 0x80 ≤ d.toNat ∧ d.toNat ≤ 0xBF)
    (hlow : a.toNat = 0xF0 → 0x90 ≤ b.toNat) (hhigh : a.toNat = 0xF4 → b.toNat ≤ 0x8F) :
    String.utf8EncodeChar (Char.ofNat n) = [a, b, c, d] := by
  rw [String.utf8EncodeChar, toNat_charOfNat (by omega), if_neg (by omega), if_neg (by omega),
    if_neg (by omega), ofNat_eq_byte (b := a) (by omega), ofNat_eq_byte (b := b) (by omega),
    ofNat_eq_byte (b := c) (by omega), ofNat_eq_byte (b := d) (by omega)]

end

variable {a : ℕ}

theorem followRanges_eq_some {ranges : List (ℕ × ℕ)} (h : followRanges a = some ranges) :
    (a < 0x80 ∧ ranges = []) ∨
    (0xC2 ≤ a ∧ a < 0xE0 ∧ ranges = [(0x80, 0xBF)]) ∨
    (∃ low high, 0xE0 ≤ a ∧ a < 0xF0 ∧ ranges = [(low, high), (0x80, 0xBF)] ∧
      0x80 ≤ low ∧ low ≤ high ∧ high ≤ 0xBF ∧ (a = 0xE0 → 0xA0 ≤ low) ∧ (a = 0xED → high ≤ 0x9F)) ∨
    ∃ low high, 0xF0 ≤ a ∧ a ≤ 0xF4 ∧ ranges = [(low, high), (0x80, 0xBF), (0x80, 0xBF)] ∧
      0x80 ≤ low ∧ low ≤ high ∧ high ≤ 0xBF ∧ (a = 0xF0 → 0x90 ≤ low) ∧
      (a = 0xF4 → high ≤ 0x8F) := by
  unfold followRanges at h
  split at h
  · exact .inl ⟨by omega, (Option.some.inj h).symm⟩
  split at h
  · cases h
  split at h
  · exact .inr (.inl ⟨by omega, by omega, (Option.some.inj h).symm⟩)
  -- three bytes, the second of them in a range of its own behind two of the first bytes
  iterate 3
    split at h
    · exact .inr (.inr (.inl ⟨_, _, by omega, by omega, (Option.some.inj h).symm, by omega,
        by omega, by omega, by omega, by omega⟩))
  -- four bytes, likewise
  iterate 3
    split at h
    · exact .inr (.inr (.inr ⟨_, _, by omega, by omega, (Option.some.inj h).symm, by omega,
        by omega, by omega, by omega, by omega⟩))
  cases h

theorem IsSequence.encode_codePoint {bytes : List UInt8} (h : IsSequence bytes) :
    String.utf8EncodeChar (Char.ofNat (codePoint bytes)) = bytes := by
  obtain ⟨a, more, ranges, rfl, hranges, hmore⟩ := h
  obtain ⟨ha, rfl⟩ | ⟨h1, h2, rfl⟩ | ⟨low, high, h1, h2, rfl, hl, -, hh, hlow, hhigh⟩ |
      ⟨low, high, h1, h2, rfl, hl, -, hh, hlow, hhigh⟩ := followRanges_eq_some hranges
  · cases hmore
    exact encode_one ha
  · obtain ⟨b, rest, rfl, hb1, hb2, hrest⟩ := inRange_cons hmore
    cases hrest
    exact encode_two rfl ⟨h1, h2⟩ ⟨hb1, hb2⟩
  · obtain ⟨b, rest, rfl, hb1, hb2, hrest⟩ := inRange_cons hmore
    obtain ⟨c, rest, rfl, hc1, hc2, hrest⟩ := inRange_cons hrest
    cases hrest
    exact encode_three rfl ⟨h1, h2⟩ ⟨hl.trans hb1, hb2.trans hh⟩ ⟨hc1, hc2⟩
      (fun e => (hlow e).trans hb1) (fun e => hb2.trans (hhigh e))
  · obtain ⟨b, rest, rfl, hb1, hb2, hrest⟩ := inRange_cons hmore
    obtain ⟨c, rest, rfl, hc1, hc2, hrest⟩ := inRange_cons hrest
    obtain ⟨d, rest, rfl, hd1, hd2, hrest⟩ := inRange_cons hrest
    cases hrest
    exact encode_four rfl ⟨h1, h2⟩ ⟨hl.trans hb1, hb2.trans hh⟩ ⟨hc1, hc2⟩ ⟨hd1, hd2⟩
      (fun e => (hlow e).trans hb1) (fun e => hb2.trans (hhigh e))

theorem followRanges_one (h : a < 0x80) : followRanges a = some [] := by
  rw [followRanges, if_pos h]

theorem followRanges_two (h : 0xC2 ≤ a ∧ a < 0xE0) : followRanges a = some [(0x80, 0xBF)] := by
  rw [followRanges, if_neg (by omega), if_neg (by omega), if_pos (by omega)]

theorem followRanges_three (h : 0xE0 ≤ a ∧ a < 0xF0) :
    ∃ low high, followRanges a = some [(low, high), (0x80, 0xBF)] ∧
      (low = 0x80 ∨ a = 0xE0 ∧ low = 0xA0) ∧ (high = 0xBF ∨ a = 0xED ∧ high = 0x9F) := by
  unfold followRanges
  rw [if_neg (by omega), if_neg (by omega), if_neg (by omega)]
  split
  · exact ⟨_, _, rfl, by omega, by omega⟩
  split
  · exact ⟨_, _, rfl, by omega, by omega⟩
  rw [if_pos (by omega)]
  exact ⟨_, _, rfl, by omega, by omega⟩

theorem followRanges_four (h : 0xF0 ≤ a ∧ a ≤ 0xF4) :
    ∃ low high, followRanges a = some [(low, high), (0x80, 0xBF), (0x80, 0xBF)] ∧
      (low = 0x80 ∨ a = 0xF0 ∧ low = 0x90) ∧ (high = 0xBF ∨ a = 0xF4 ∧ high = 0x8F) := by
  unfold followRanges
  rw [if_neg (by omega), if_neg (by omega), if_neg (by omega), if_neg (by omega),
    if_neg (by omega), if_neg (by omega)]
  split
  · exact ⟨_, _, rfl, by omega, by omega⟩
  split
  · exact ⟨_, _, rfl, by omega, by omega⟩
  rw [if_pos (by omega)]
  exact ⟨_, _, rfl, by omega, by omega⟩

theorem toNat_byte {n : ℕ} (h : n < 256) : (UInt8.ofNat n).toNat = n := UInt8.toNat_ofNat_of_lt' h

theorem inRange_ofNat {low high n : ℕ} (h : low ≤ n ∧ n ≤ high) (hlt : n < 256) :
    InRange (low, high) (UInt8.ofNat n) := by
  rw [InRange, toNat_byte hlt]
  exact h

theorem isSequence_encode (c : Char) : IsSequence (String.utf8EncodeChar c) := by
  have hvalid : c.val.toNat < 0xD800 ∨ 0xDFFF < c.val.toNat ∧ c.val.toNat < 0x110000 := c.valid
  unfold String.utf8EncodeChar
  generalize c.val.toNat = v at hvalid
  dsimp only
  split
  case isTrue hone =>
    refine ⟨_, _, _, rfl, followRanges_one ?_, .nil⟩
    rw [toNat_byte (by omega)]
    omega
  split
  case isTrue htwo =>
    refine ⟨_, _, _, rfl, followRanges_two ?_, .cons (inRange_ofNat (by omega) (by omega)) .nil⟩
    rw [toNat_byte (by omega)]
    omega
  split
  case isTrue hthree =>
    have ha : (UInt8.ofNat (v / 4096 % 16 + 224)).toNat = v / 4096 % 16 + 224 :=
      toNat_byte (by omega)
    obtain ⟨low, high, hranges, hlow, hhigh⟩ := followRanges_three
      (a := (UInt8.ofNat (v / 4096 % 16 + 224)).toNat) (by omega)
    exact ⟨_, _, _, rfl, hranges, .cons (inRange_ofNat (by omega) (by omega))
      (.cons (inRange_ofNat (by omega) (by omega)) .nil)⟩
  case isFalse hfour =>
    have ha : (UInt8.ofNat (v / 262144 % 8 + 240)).toNat = v / 262144 % 8 + 240 :=
      toNat_byte (by omega)
    obtain ⟨low, high, hranges, hlow, hhigh⟩ := followRanges_four
      (a := (UInt8.ofNat (v / 262144 % 8 + 240)).toNat) (by omega)
    exact ⟨_, _, _, rfl, hranges, .cons (inRange_ofNat (by omega) (by omega))
      (.cons (inRange_ofNat (by omega) (by omega))
        (.cons (inRange_ofNat (by omega) (by omega)) .nil))⟩

theorem utf8_cons (c : Char) (t : Text) : utf8 (c :: t) = String.utf8EncodeChar c ++ utf8 t := rfl

theorem high_of_mem_encode {c : Char} (hc : 128 ≤ c.toNat) {b : UInt8}
    (hb : b ∈ String.utf8EncodeChar c) : 128 ≤ b.toNat := by
  have hvalid : c.val.toNat < 0xD800 ∨ 0xDFFF < c.val.toNat ∧ c.val.toNat < 0x110000 := c.valid
  have hhigh : 128 ≤ c.val.toNat := hc
  unfold String.utf8EncodeChar at hb
  generalize c.val.toNat = v at hvalid hhigh hb
  dsimp only at hb
  have hmem : ∀ {n : ℕ}, 128 ≤ n → n < 256 → b = UInt8.ofNat n → 128 ≤ b.toNat := by
    rintro n hlow hlt rfl
    rwa [toNat_byte hlt]
  split at hb
  · omega
  · split at hb
    · rcases mem_pair.mp hb with h | h
      · exact hmem (by omega) (by omega) h
      · exact hmem (by omega) (by omega) h
    · split at hb
      · simp only [mem_cons, not_mem_nil, or_false] at hb
        rcases hb with h | h | h
        · exact hmem (by omega) (by omega) h
        · exact hmem (by omega) (by omega) h
        · exact hmem (by omega) (by omega) h
      · simp only [mem_cons, not_mem_nil, or_false] at hb
        rcases hb with h | h | h | h
        · exact hmem (by omega) (by omega) h
        · exact hmem (by omega) (by omega) h
        · exact hmem (by omega) (by omega) h
        · exact hmem (by omega) (by omega) h

theorem mem_of_mem_utf8 {c : Char} (hc : c.toNat < 128) (h : c.toNat.toUInt8 ∈ utf8 t) : c ∈ t := by
  obtain ⟨d, hd, hb⟩ := mem_flatMap.mp h
  have hbyte : c.toNat.toUInt8.toNat = c.toNat := toNat_byte (by omega)
  have hlow : d.toNat < 128 := by
    by_contra hnot
    have hhigh := high_of_mem_encode (Nat.le_of_not_lt hnot) hb
    omega
  have hone : utf8 [d] = String.utf8EncodeChar d := append_nil _
  have hmem : c.toNat.toUInt8 ∈ utf8 [d] := by rwa [hone]
  have hascii : Ascii [d] := by
    intro e he
    rwa [mem_singleton.mp he]
  rwa [mem_singleton.mp ((hascii.mem_utf8 hc).mp hmem)]

theorem utf8_injective {s t : Text} (h : utf8 s = utf8 t) : s = t := by
  have hs := fromUtf8_utf8 s
  rw [h, fromUtf8_utf8] at hs
  exact (Option.some.inj hs).symm

theorem codePoint_encode (c : Char) : Char.ofNat (codePoint (String.utf8EncodeChar c)) = c := by
  have h : utf8 [Char.ofNat (codePoint (String.utf8EncodeChar c))] = utf8 [c] := by
    rw [utf8_cons, utf8_cons, (isSequence_encode c).encode_codePoint]
  exact (List.cons.inj (utf8_injective h)).1

/-! ## The code point bytes begin with -/

inductive Utf8Front
  | complete (sequence rest : List UInt8)
  | incomplete
  | invalid (errorLen : ℕ)
deriving DecidableEq

/-- Bytes read behind `read`, each in the range that is due for it. -/
def follow (read : List UInt8) : List (ℕ × ℕ) → List UInt8 → Utf8Front
  | [], bytes => .complete read bytes
  | _ :: _, [] => .incomplete
  | range :: ranges, b :: bytes =>
    if InRange range b then follow (read ++ [b]) ranges bytes else .invalid read.length

def readFront : List UInt8 → Utf8Front
  | [] => .incomplete
  | a :: bytes =>
    match followRanges a.toNat with
    | none => .invalid 1
    | some ranges => follow [a] ranges bytes

variable {read bytes rest sequence : List UInt8} {ranges : List (ℕ × ℕ)}

theorem follow_complete (h : List.Forall₂ InRange ranges bytes) :
    follow read ranges (bytes ++ rest) = .complete (read ++ bytes) rest := by
  induction h generalizing read with
  | nil => simp [follow]
  | cons hb _ ih =>
    rw [cons_append, follow, if_pos hb, ih]
    simp

theorem follow_eq_complete (h : follow read ranges bytes = .complete sequence rest) :
    ∃ more, bytes = more ++ rest ∧ sequence = read ++ more ∧ List.Forall₂ InRange ranges more := by
  induction ranges generalizing read bytes with
  | nil =>
    rw [follow] at h
    cases h
    exact ⟨[], rfl, (append_nil _).symm, .nil⟩
  | cons range ranges ih =>
    cases bytes with
    | nil => cases h
    | cons b bytes =>
      rw [follow] at h
      split at h
      · next hb =>
        obtain ⟨more, rfl, rfl, hmore⟩ := ih h
        exact ⟨b :: more, rfl, by simp, .cons hb hmore⟩
      · cases h

theorem follow_incomplete (hne : more ≠ []) (h : List.Forall₂ InRange ranges (bytes ++ more)) :
    follow read ranges bytes = .incomplete := by
  induction ranges generalizing read bytes with
  | nil =>
    generalize hall : bytes ++ more = all at h
    cases h
    exact absurd (append_eq_nil_iff.mp hall).2 hne
  | cons range ranges ih =>
    cases bytes with
    | nil => rfl
    | cons b bytes =>
      cases h with
      | cons hb hrest => rw [follow, if_pos hb, ih hrest]

theorem readFront_complete (h : IsSequence sequence) :
    readFront (sequence ++ rest) = .complete sequence rest := by
  obtain ⟨a, more, ranges, rfl, hranges, hmore⟩ := h
  rw [cons_append, readFront, hranges]
  exact follow_complete hmore

theorem readFront_eq_complete (h : readFront bytes = .complete sequence rest) :
    IsSequence sequence ∧ bytes = sequence ++ rest := by
  cases bytes with
  | nil => cases h
  | cons a bytes =>
    rw [readFront] at h
    split at h
    · cases h
    · next ranges hranges =>
      obtain ⟨more, rfl, rfl, hmore⟩ := follow_eq_complete h
      exact ⟨⟨a, more, ranges, rfl, hranges, hmore⟩, rfl⟩

theorem readFront_all (h : IsSequence bytes) : readFront bytes = .complete bytes [] := by
  have hread : readFront (bytes ++ []) = .complete bytes [] := readFront_complete h
  rwa [append_nil] at hread

theorem readFront_incomplete (hne : more ≠ []) (h : IsSequence (bytes ++ more)) :
    readFront bytes = .incomplete := by
  obtain ⟨a, due, ranges, heq, hranges, hdue⟩ := h
  cases bytes with
  | nil => rfl
  | cons b bytes =>
    obtain ⟨rfl, rfl⟩ := List.cons.inj heq
    rw [readFront, hranges]
    exact follow_incomplete hne hdue

theorem followRanges_inhabited (h : followRanges a = some ranges) :
    ∀ range ∈ ranges, ∃ b, InRange range b := by
  have hall : ∀ range ∈ ranges, range.1 ≤ range.2 ∧ range.2 < 256 := by
    obtain ⟨-, rfl⟩ | ⟨-, -, rfl⟩ | ⟨low, high, -, -, rfl, -, hle, hlt, -⟩ |
      ⟨low, high, -, -, rfl, -, hle, hlt, -⟩ := followRanges_eq_some h
    · simp
    · simp
    · simp
      omega
    · simp
      omega
  intro range hmem
  obtain ⟨hle, hlt⟩ := hall range hmem
  exact ⟨UInt8.ofNat range.1, inRange_ofNat ⟨le_refl _, hle⟩ (by omega)⟩

theorem exists_forall₂ (h : ∀ range ∈ ranges, ∃ b, InRange range b) :
    ∃ more, List.Forall₂ InRange ranges more := by
  induction ranges with
  | nil => exact ⟨[], .nil⟩
  | cons range ranges ih =>
    obtain ⟨b, hb⟩ := h range mem_cons_self
    obtain ⟨more, hmore⟩ := ih fun r hr => h r (mem_cons_of_mem _ hr)
    exact ⟨b :: more, .cons hb hmore⟩

theorem follow_eq_incomplete (hin : ∀ range ∈ ranges, ∃ b, InRange range b)
    (h : follow read ranges bytes = .incomplete) :
    ∃ more, more ≠ [] ∧ List.Forall₂ InRange ranges (bytes ++ more) := by
  induction ranges generalizing read bytes with
  | nil =>
    rw [follow] at h
    cases h
  | cons range ranges ih =>
    cases bytes with
    | nil =>
      obtain ⟨more, hmore⟩ := exists_forall₂ hin
      refine ⟨more, ?_, hmore⟩
      rintro rfl
      cases hmore
    | cons b bytes =>
      rw [follow] at h
      split at h
      · next hb =>
        obtain ⟨more, hne, hmore⟩ := ih (fun r hr => hin r (mem_cons_of_mem _ hr)) h
        exact ⟨more, hne, .cons hb hmore⟩
      · cases h

theorem readFront_eq_incomplete (h : readFront bytes = .incomplete) :
    ∃ more, more ≠ [] ∧ IsSequence (bytes ++ more) := by
  cases bytes with
  | nil => exact ⟨_, cons_ne_nil _ _, isSequence_encode 'a'⟩
  | cons a bytes =>
    rw [readFront] at h
    split at h
    · cases h
    · next ranges hranges =>
      obtain ⟨more, hne, hmore⟩ := follow_eq_incomplete (followRanges_inhabited hranges) h
      exact ⟨more, hne, a, bytes ++ more, ranges, rfl, hranges, hmore⟩

/-! ## All of the bytes -/

structure Utf8Error where
  validUpTo : ℕ
  errorLen : Option ℕ
deriving DecidableEq

def Utf8Error.shift (n : ℕ) (err : Utf8Error) : Utf8Error :=
  { err with validUpTo := n + err.validUpTo }

theorem readFront_shrinks (h : readFront bytes = .complete sequence rest) :
    rest.length < bytes.length := by
  obtain ⟨⟨a, more, ranges, rfl, -⟩, rfl⟩ := readFront_eq_complete h
  rw [cons_append, length_cons, length_append]
  omega

/-- The text of the bytes, or how far they are one and, unless they end inside of a code
point, how many bytes are in error there. -/
def strFromUtf8 (bytes : List UInt8) : Except Utf8Error Text :=
  if bytes = [] then .ok []
  else match _h : readFront bytes with
    | .complete sequence rest =>
      match strFromUtf8 rest with
      | .ok text => .ok (Char.ofNat (codePoint sequence) :: text)
      | .error err => .error (err.shift sequence.length)
    | .incomplete => .error ⟨0, none⟩
    | .invalid errorLen => .error ⟨0, some errorLen⟩
termination_by bytes.length
decreasing_by exact readFront_shrinks ‹_›

theorem strFromUtf8_nil : strFromUtf8 [] = .ok [] := by
  rw [strFromUtf8, if_pos rfl]

theorem strFromUtf8_incomplete (hne : bytes ≠ []) (h : readFront bytes = .incomplete) :
    strFromUtf8 bytes = .error ⟨0, none⟩ := by
  rw [strFromUtf8, if_neg hne]
  split <;> simp_all

theorem strFromUtf8_invalid {n : ℕ} (hne : bytes ≠ []) (h : readFront bytes = .invalid n) :
    strFromUtf8 bytes = .error ⟨0, some n⟩ := by
  rw [strFromUtf8, if_neg hne]
  split <;> simp_all

theorem strFromUtf8_append (t : Text) (rest : List UInt8) : strFromUtf8 (utf8 t ++ rest) =
      match strFromUtf8 rest with
      | .ok text => .ok (t ++ text)
      | .error err => .error (err.shift (utf8 t).length) := by
  induction t with
  | nil =>
    cases h : strFromUtf8 rest with
    | ok text => simp [h]
    | error err => simp [h, Utf8Error.shift]
  | cons c t ih =>
    have hfront : readFront (utf8 (c :: t) ++ rest) =
        .complete (String.utf8EncodeChar c) (utf8 t ++ rest) := by
      rw [utf8_cons, List.append_assoc]
      exact readFront_complete (isSequence_encode c)
    have hne : utf8 (c :: t) ++ rest ≠ [] := by
      simp [utf8_cons]
    rw [strFromUtf8, if_neg hne]
    split
    · next sequence rest' h =>
      rw [hfront] at h
      cases h
      rw [ih, codePoint_encode]
      cases strFromUtf8 rest with
      | ok text => rfl
      | error err => simp [Utf8Error.shift, utf8_cons, Nat.add_assoc]
    · next h => simp_all
    · next h => simp_all

theorem strFromUtf8_utf8 (t : Text) : strFromUtf8 (utf8 t) = .ok t := by
  have h := strFromUtf8_append t []
  simpa [strFromUtf8_nil] using h

theorem utf8_split (bytes : List UInt8) :
    ∃ t rest, bytes = utf8 t ++ rest ∧ ∀ sequence more, readFront rest ≠ .complete sequence more := by
  cases h : readFront bytes with
  | complete sequence rest =>
    obtain ⟨hseq, heq⟩ := readFront_eq_complete h
    have hshrinks := readFront_shrinks h
    obtain ⟨t, rest', hrest, hnot⟩ := utf8_split rest
    refine ⟨Char.ofNat (codePoint sequence) :: t, rest', ?_, hnot⟩
    rw [utf8_cons, hseq.encode_codePoint, List.append_assoc, ← hrest, heq]
  | incomplete | invalid n => exact ⟨[], bytes, rfl, by simp [h]⟩
termination_by bytes.length

def IsPartial (bytes : List UInt8) : Prop :=
  ∃ c more, more ≠ [] ∧ bytes ++ more = String.utf8EncodeChar c

theorem isPartial_of_incomplete (h : readFront bytes = .incomplete) : IsPartial bytes := by
  obtain ⟨more, hne, hseq⟩ := readFront_eq_incomplete h
  exact ⟨_, more, hne, hseq.encode_codePoint.symm⟩

theorem strFromUtf8_cases (bytes : List UInt8) : ∃ t rest, bytes = utf8 t ++ rest ∧
    (rest = [] ∧ strFromUtf8 bytes = .ok t ∨
      rest ≠ [] ∧ IsPartial rest ∧ strFromUtf8 bytes = .error ⟨(utf8 t).length, none⟩ ∨
      ∃ n, readFront rest = .invalid n ∧ strFromUtf8 bytes = .error ⟨(utf8 t).length, some n⟩) := by
  obtain ⟨t, rest, rfl, hnot⟩ := utf8_split bytes
  refine ⟨t, rest, rfl, ?_⟩
  by_cases hnil : rest = []
  · rw [hnil, append_nil, strFromUtf8_utf8]
    exact .inl ⟨rfl, rfl⟩
  rw [strFromUtf8_append]
  cases h : readFront rest with
  | complete sequence more => exact absurd h (hnot sequence more)
  | incomplete =>
    rw [strFromUtf8_incomplete hnil h]
    exact .inr (.inl ⟨hnil, isPartial_of_incomplete h, rfl⟩)
  | invalid n =>
    rw [strFromUtf8_invalid hnil h]
    exact .inr (.inr ⟨n, rfl, rfl⟩)

theorem utf8_of_ok (h : strFromUtf8 bytes = .ok t) : bytes = utf8 t := by
  obtain ⟨s, rest, rfl, ⟨rfl, hok⟩ | ⟨-, -, herr⟩ | ⟨n, -, herr⟩⟩ := strFromUtf8_cases bytes
  · rw [h] at hok
    cases hok
    exact append_nil _
  · rw [h] at herr
    cases herr
  · rw [h] at herr
    cases herr

theorem utf8_append_left {s t : Text} (h : utf8 s ++ rest = utf8 t) :
    ∃ u, rest = utf8 u ∧ t = s ++ u := by
  have hread := strFromUtf8_append s rest
  rw [h, strFromUtf8_utf8] at hread
  split at hread
  · next u hu =>
    cases hread
    exact ⟨u, utf8_of_ok hu, rfl⟩
  · cases hread

theorem readFront_not_invalid {later : List UInt8} (h : rest ++ later = utf8 t) (n : ℕ) :
    readFront rest ≠ .invalid n := by
  intro hinv
  cases t with
  | nil =>
    rw [utf8_nil, append_eq_nil_iff] at h
    rw [h.1] at hinv
    cases hinv
  | cons c t =>
    rw [utf8_cons] at h
    obtain ⟨more, hmore, -⟩ | ⟨more, hmore, -⟩ := append_eq_append_iff.mp h
    · have hseq : IsSequence (rest ++ more) := hmore ▸ isSequence_encode c
      by_cases hnil : more = []
      · rw [hnil, append_nil] at hseq
        rw [readFront_all hseq] at hinv
        cases hinv
      · rw [readFront_incomplete hnil hseq] at hinv
        cases hinv
    · rw [hmore, readFront_complete (isSequence_encode c)] at hinv
      cases hinv

theorem isPartial_nil : IsPartial [] := ⟨'a', _, cons_ne_nil _ _, rfl⟩

theorem IsPartial.eq_nil (h : IsPartial (utf8 t)) : t = [] := by
  obtain ⟨c, more, hne, heq⟩ := h
  cases t with
  | nil => rfl
  | cons d t =>
    have hd : readFront (String.utf8EncodeChar c) =
        .complete (String.utf8EncodeChar d) (utf8 t ++ more) := by
      rw [← heq, utf8_cons, List.append_assoc]
      exact readFront_complete (isSequence_encode d)
    rw [readFront_all (isSequence_encode c)] at hd
    have hmore : utf8 t ++ more = [] := (Utf8Front.complete.inj hd).2.symm
    exact absurd (append_eq_nil_iff.mp hmore).2 hne

end Foundation
