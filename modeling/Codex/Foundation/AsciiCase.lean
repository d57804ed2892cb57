import Codex.Foundation.Text
import Codex.Foundation.ListEnds

/-!
# Texts up to ASCII case

Lowering changes letters only, so it commutes with everything that looks at other
characters: trimming, splitting and stripping at signs.
-/

namespace Foundation

theorem toNat_toLower (c : Char) :
    c.toLower.toNat = if 65 ≤ c.toNat ∧ c.toNat ≤ 90 then c.toNat + 32 else c.toNat := by
  have hiff : (c.val ≥ 'A'.val ∧ c.val ≤ 'Z'.val) ↔ (65 ≤ c.toNat ∧ c.toNat ≤ 90) := by
    simp [UInt32.le_iff_toNat_le]
  unfold Char.toLower
  by_cases h : c.val ≥ 'A'.val ∧ c.val ≤ 'Z'.val
  · rw [dif_pos h, if_pos (hiff.mp h)]
    have hle := (hiff.mp h).2
    have hadd : (c.val + ('a'.val - 'A'.val)).toNat = (c.toNat + 32) % 2 ^ 32 :=
      UInt32.toNat_add c.val ('a'.val - 'A'.val)
    rw [← Char.toNat_val, hadd, Nat.mod_eq_of_lt]
    omega
  · rw [dif_neg h, if_neg (mt hiff.mpr h)]

theorem toLower_toLower (c : Char) : c.toLower.toLower = c.toLower := by
  apply Char.toNat_inj.mp
  rw [toNat_toLower, toNat_toLower]
  split
  · rw [if_neg]
    omega
  · rfl

def IsSign (a : Char) : Prop := a.toNat < 65 ∨ 90 < a.toNat ∧ a.toNat < 97

instance decidableIsSign (a : Char) : Decidable (IsSign a) := instDecidableOr

theorem isSign_of_all {s : Text} (h : s.all (fun a => decide (IsSign a)) = true) :
    ∀ a ∈ s, IsSign a := by
  simpa using h

theorem toLower_eq_iff {a c : Char} (ha : IsSign a) : c.toLower = a ↔ c = a := by
  unfold IsSign at ha
  rw [← Char.toNat_inj, ← Char.toNat_inj, toNat_toLower]
  split <;> omega

theorem isWhitespace_toLower (c : Char) : isWhitespace c.toLower = isWhitespace c := by
  unfold isWhitespace
  rw [toNat_toLower]
  by_cases h : 65 ≤ c.toNat ∧ c.toNat ≤ 90
  · rw [if_pos h, Bool.eq_iff_iff]
    simp
    omega
  · rw [if_neg h]

/-! ## Lowered texts -/

@[simp] theorem lower_nil : toAsciiLowercase [] = [] := rfl

@[simp] theorem lower_cons (c : Char) (s : Text) :
    toAsciiLowercase (c :: s) = c.toLower :: toAsciiLowercase s := rfl

theorem lower_lower (s : Text) : toAsciiLowercase (toAsciiLowercase s) = toAsciiLowercase s := by
  unfold toAsciiLowercase
  rw [List.map_map]
  exact List.map_congr_left fun c _ => toLower_toLower c

theorem lower_eq_self {s : Text} : toAsciiLowercase s = s ↔ ∀ c ∈ s, c.toLower = c := by
  induction s with
  | nil => simp
  | cons c s ih => simp [ih]

theorem mem_lower {s : Text} {c : Char} (h : c ∈ toAsciiLowercase s) : c.toLower = c := by
  obtain ⟨d, -, rfl⟩ := List.mem_map.mp h
  exact toLower_toLower d

section
variable {p : Char → Bool} (hp : ∀ c, p c.toLower = p c)
include hp

theorem dropWhile_lower (s : Text) :
    (toAsciiLowercase s).dropWhile p = toAsciiLowercase (s.dropWhile p) := by
  unfold toAsciiLowercase
  rw [List.dropWhile_map, show p ∘ Char.toLower = p from funext hp]

theorem takeWhile_lower (s : Text) :
    (toAsciiLowercase s).takeWhile p = toAsciiLowercase (s.takeWhile p) := by
  unfold toAsciiLowercase
  rw [List.takeWhile_map, show p ∘ Char.toLower = p from funext hp]

theorem rdropWhile_lower (s : Text) :
    (toAsciiLowercase s).rdropWhile p = toAsciiLowercase (s.rdropWhile p) := by
  unfold toAsciiLowercase
  rw [rdropWhile_map, show p ∘ Char.toLower = p from funext hp]

end

theorem trim_lower (s : Text) : trim (toAsciiLowercase s) = toAsciiLowercase (trim s) := by
  unfold trim trimStart trimEnd
  rw [dropWhile_lower isWhitespace_toLower, rdropWhile_lower isWhitespace_toLower]

theorem lower_eq_iff {s t : Text} (ht : ∀ a ∈ t, IsSign a) : toAsciiLowercase s = t ↔ s = t := by
  induction t generalizing s with
  | nil => simp [toAsciiLowercase]
  | cons a t ih =>
    cases s with
    | nil => simp
    | cons c s =>
      rw [lower_cons, List.cons.injEq, List.cons.injEq, toLower_eq_iff (ht a (by simp)),
        ih fun b hb => ht b (by simp [hb])]

theorem stripPrefix_lower {p : Text} (hp : ∀ a ∈ p, IsSign a) (s : Text) :
    stripPrefix p (toAsciiLowercase s) = (stripPrefix p s).map toAsciiLowercase := by
  induction p generalizing s with
  | nil => rfl
  | cons a p ih =>
    cases s with
    | nil => rfl
    | cons c s =>
      rw [lower_cons, stripPrefix, stripPrefix, ih fun b hb => hp b (by simp [hb])]
      have hiff := toLower_eq_iff (c := c) (hp a (by simp))
      by_cases h : a = c
      · rw [if_pos h, if_pos (hiff.mpr h.symm).symm]
      · rw [if_neg h, if_neg fun h' => h (hiff.mp h'.symm).symm]
        rfl

variable {sep : Char} (hsep : IsSign sep)
include hsep

theorem splitOnce_lower (s : Text) : splitOnce sep (toAsciiLowercase s) =
    (splitOnce sep s).map fun (a, b) => (toAsciiLowercase a, toAsciiLowercase b) := by
  induction s with
  | nil => rfl
  | cons c s ih =>
    rw [lower_cons, splitOnce, splitOnce, ih]
    by_cases h : c = sep
    · rw [if_pos h, if_pos ((toLower_eq_iff hsep).mpr h)]
      rfl
    · rw [if_neg h, if_neg (mt (toLower_eq_iff hsep).mp h)]
      cases splitOnce sep s <;> rfl

theorem count_lower (s : Text) : (toAsciiLowercase s).count sep = s.count sep := by
  induction s with
  | nil => rfl
  | cons c s ih =>
    rw [lower_cons, List.count_cons, List.count_cons, ih]
    simp [toLower_eq_iff hsep]

end Foundation
