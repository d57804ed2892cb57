import Codex.Foundation.Decimal
import Mathlib.Data.UInt

/-!
# Internet addresses in text

An address of four bytes is written as four decimal numbers without leading zeros, one of
eight words in hexadecimal with a run of zeros left out, and perhaps with the last two words
as four bytes. A text that is read as four bytes is the one they are written as
(`parseIpAddr_v4`); eight words have many texts.
-/

namespace Foundation

structure Ipv4Addr where
  a : UInt8
  b : UInt8
  c : UInt8
  d : UInt8
deriving DecidableEq

structure Ipv6Addr where
  segments : Vector UInt16 8
deriving DecidableEq

inductive IpAddr where
  | v4 (addr : Ipv4Addr)
  | v6 (addr : Ipv6Addr)
deriving DecidableEq

/-! ## Kinds of addresses -/

namespace Ipv4Addr

def isLoopback (addr : Ipv4Addr) : Bool := addr.a = 127

def isPrivate (addr : Ipv4Addr) : Bool :=
  addr.a = 10 || (addr.a = 172 && 16 ≤ addr.b && addr.b ≤ 31) || (addr.a = 192 && addr.b = 168)

def isLinkLocal (addr : Ipv4Addr) : Bool := addr.a = 169 && addr.b = 254

def isUnspecified (addr : Ipv4Addr) : Bool := addr = ⟨0, 0, 0, 0⟩

def isMulticast (addr : Ipv4Addr) : Bool := 224 ≤ addr.a && addr.a ≤ 239

def isBroadcast (addr : Ipv4Addr) : Bool := addr = ⟨255, 255, 255, 255⟩

def toU32 (addr : Ipv4Addr) : UInt32 :=
  addr.a.toUInt32 <<< 24 ||| addr.b.toUInt32 <<< 16 ||| addr.c.toUInt32 <<< 8 ||| addr.d.toUInt32

end Ipv4Addr

namespace Ipv6Addr

def isLoopback (addr : Ipv6Addr) : Bool := addr.segments.toList = [0, 0, 0, 0, 0, 0, 0, 1]

def isUnspecified (addr : Ipv6Addr) : Bool := addr.segments.toList = [0, 0, 0, 0, 0, 0, 0, 0]

def isMulticast (addr : Ipv6Addr) : Bool := addr.segments[0] &&& 0xff00 = 0xff00

def isUniqueLocal (addr : Ipv6Addr) : Bool := addr.segments[0] &&& 0xfe00 = 0xfc00

def isUnicastLinkLocal (addr : Ipv6Addr) : Bool := addr.segments[0] &&& 0xffc0 = 0xfe80

/-- The address of four bytes in a compatible or mapped one. -/
def toIpv4 (addr : Ipv6Addr) : Option Ipv4Addr :=
  match addr.segments.toList with
  | [0, 0, 0, 0, 0, kind, ab, cd] =>
    if kind = 0 ∨ kind = 0xffff then
      some ⟨(ab >>> 8).toUInt8, ab.toUInt8, (cd >>> 8).toUInt8, cd.toUInt8⟩
    else none
  | _ => none

end Ipv6Addr

def IpAddr.isLoopback : IpAddr → Bool
  | v4 addr => addr.isLoopback
  | v6 addr => addr.isLoopback

/-! ## Reading -/

def toDigit (radix : ℕ) (c : Char) : Option ℕ :=
  if c.isDigit then some (c.toNat - 48)
  else if radix = 16 ∧ 'a' ≤ c ∧ c ≤ 'f' then some (c.toNat - 87)
  else if radix = 16 ∧ 'A' ≤ c ∧ c ≤ 'F' then some (c.toNat - 55)
  else none

def readNumber (radix maxDigits : ℕ) (allowZeroPrefix : Bool) (size : ℕ) (s : Text) :
    Option (ℕ × Text) :=
  let digits := s.takeWhile fun c => (toDigit radix c).isSome
  let n := digits.foldl (fun n c => radix * n + (toDigit radix c).getD 0) 0
  if digits = [] ∨ maxDigits < digits.length then none
  else if !allowZeroPrefix && digits.head? = some '0' && 1 < digits.length then none
  else if n < size then some (n, s.dropWhile fun c => (toDigit radix c).isSome)
  else none

def readGivenChar (target : Char) : Text → Option Text
  | c :: s => if c = target then some s else none
  | [] => none

def readSeparator {α : Type} (sep : Char) (first : Bool) (inner : Text → Option (α × Text))
    (s : Text) : Option (α × Text) :=
  if first then inner s else (readGivenChar sep s).bind inner

def readOctet (first : Bool) (s : Text) : Option (UInt8 × Text) :=
  (readSeparator '.' first (readNumber 10 3 false 256) s).map fun (n, s) => (UInt8.ofNat n, s)

def readIpv4Addr (s : Text) : Option (Ipv4Addr × Text) := do
  let (a, s) ← readOctet true s
  let (b, s) ← readOctet false s
  let (c, s) ← readOctet false s
  let (d, s) ← readOctet false s
  some (⟨a, b, c, d⟩, s)

def fromBeBytes (high low : UInt8) : UInt16 := UInt16.ofNat (256 * high.toNat + low.toNat)

/-- The groups up to the first that cannot be read, into so many slots. Two slots may take an
address of four bytes, which ends the groups; the flag says that one did. -/
def readGroups : ℕ → Bool → Text → List UInt16 × Bool × Text
  | 0, _, s => ([], false, s)
  | slots + 1, first, s =>
    match if slots = 0 then none else readSeparator ':' first readIpv4Addr s with
    | some (v4, s) => ([fromBeBytes v4.a v4.b, fromBeBytes v4.c v4.d], true, s)
    | none =>
      match readSeparator ':' first (readNumber 16 4 true 65536) s with
      | some (group, s) =>
        let (groups, ipv4, s) := readGroups slots false s
        (UInt16.ofNat group :: groups, ipv4, s)
      | none => ([], false, s)

def Ipv6Addr.concat (head tail : List UInt16) : Ipv6Addr :=
  ⟨Vector.ofFn fun i : Fin 8 =>
    if i.val < 8 - tail.length then head.getD i.val 0 else tail.getD (i.val - (8 - tail.length)) 0⟩

def readIpv6Addr (s : Text) : Option (Ipv6Addr × Text) :=
  let (head, headIpv4, s) := readGroups 8 true s
  if head.length = 8 then some (.concat head [], s)
  else if headIpv4 then none
  else do
    let s ← readGivenChar ':' s
    let s ← readGivenChar ':' s
    let (tail, _, s) := readGroups (7 - head.length) true s
    some (.concat head tail, s)

def readIpAddr (s : Text) : Option (IpAddr × Text) :=
  match readIpv4Addr s with
  | some (addr, s) => some (.v4 addr, s)
  | none => (readIpv6Addr s).map fun (addr, s) => (.v6 addr, s)

def parseIpAddr (s : Text) : Option IpAddr :=
  match readIpAddr s with
  | some (addr, []) => some addr
  | _ => none

example : parseIpAddr "2001:db8::1".toList = parseIpAddr "2001:0DB8:0::0.0.0.1".toList := by
  decide +kernel

example : parseIpAddr "::ffff:10.0.0.1".toList ≠ parseIpAddr "10.0.0.1".toList ∧
    (parseIpAddr "::ffff:10.0.0.1".toList).isSome = true ∧
    parseIpAddr "10.0.0.01".toList = none ∧ parseIpAddr "localhost".toList = none := by
  decide +kernel

/-! ## What is read -/

open List Option

def isAddressChar (c : Char) : Bool := (toDigit 16 c).isSome || c = '.' || c = ':'

def ReadsTo (s rest : Text) : Prop := ∃ used, s = used ++ rest ∧ used.all isAddressChar = true

theorem ReadsTo.refl (s : Text) : ReadsTo s s := ⟨[], rfl, rfl⟩

variable {s rest : Text} {first : Bool} {radix : ℕ} {addr : Ipv4Addr}

theorem ReadsTo.trans {t u : Text} (h : ReadsTo s t) (h' : ReadsTo t u) : ReadsTo s u := by
  obtain ⟨used, rfl, hused⟩ := h
  obtain ⟨used', rfl, hused'⟩ := h'
  refine ⟨used ++ used', (List.append_assoc _ _ _).symm, ?_⟩
  rw [all_append, hused, hused', Bool.and_self]

theorem readGivenChar_eq_some {target : Char} :
    readGivenChar target s = some rest ↔ s = target :: rest := by
  cases s with
  | nil => simp [readGivenChar]
  | cons c s =>
    rw [readGivenChar, List.cons.injEq]
    split
    · rename_i h
      rw [Option.some.injEq]
      exact (and_iff_right h).symm
    · rename_i h
      exact iff_of_false (fun h' => nomatch h') (fun h' => h h'.1)

theorem readSeparator_eq_some {α : Type} {sep : Char} {inner : Text → Option (α × Text)}
    {result : α × Text} : readSeparator sep first inner s = some result ↔
      ∃ s', s = (if first then s' else sep :: s') ∧ inner s' = some result := by
  unfold readSeparator
  cases first with
  | true => simp
  | false => simp [bind_eq_some_iff, readGivenChar_eq_some]

theorem readNumber_eq_some {maxDigits size n : ℕ} {allowZeroPrefix : Bool}
    (h : readNumber radix maxDigits allowZeroPrefix size s = some (n, rest)) :
    ∃ digits : Text, s = digits ++ rest ∧ digits ≠ [] ∧
      (∀ c ∈ digits, (toDigit radix c).isSome = true) ∧
      (allowZeroPrefix = false → digits.head? = some '0' → digits.length ≤ 1) ∧
      n = digits.foldl (fun n c => radix * n + (toDigit radix c).getD 0) 0 ∧ n < size := by
  unfold readNumber at h
  simp only at h
  split at h
  · cases h
  · rename_i hlength
    split at h
    · cases h
    · rename_i hzero
      split at h
      · rename_i hsize
        cases h
        refine ⟨_, takeWhile_append_dropWhile.symm, fun hnil => hlength (.inl hnil),
          fun c hc => by simpa using mem_takeWhile_imp hc, fun hleading hhead => ?_, rfl, hsize⟩
        by_contra hlong
        refine hzero ?_
        rw [hleading, hhead]
        simpa using hlong
      · cases h

theorem toDigit_sixteen {c : Char} (h : (toDigit radix c).isSome = true) :
    isAddressChar c = true := by
  have hdigit : (toDigit 16 c).isSome = true := by
    unfold toDigit at h ⊢
    split
    · rfl
    · rename_i hnot
      rw [if_neg hnot] at h
      split at h
      · rename_i hlower
        rw [if_pos ⟨rfl, hlower.2⟩]
        rfl
      · split at h
        · rename_i hupper
          split
          · rfl
          · rw [if_pos ⟨rfl, hupper.2⟩]
            rfl
        · cases h
  unfold isAddressChar
  rw [hdigit]
  rfl

theorem readsTo_number {maxDigits size n : ℕ} {allowZeroPrefix : Bool}
    (h : readNumber radix maxDigits allowZeroPrefix size s = some (n, rest)) : ReadsTo s rest := by
  obtain ⟨digits, rfl, -, hdigits, -⟩ := readNumber_eq_some h
  exact ⟨digits, rfl, all_eq_true.mpr fun c hc => toDigit_sixteen (hdigits c hc)⟩

theorem readsTo_separator {α : Type} {sep : Char} {inner : Text → Option (α × Text)}
    (hsep : isAddressChar sep = true)
    (hinner : ∀ {s a rest}, inner s = some (a, rest) → ReadsTo s rest) {a : α}
    (h : readSeparator sep first inner s = some (a, rest)) : ReadsTo s rest := by
  obtain ⟨s', hs, h⟩ := readSeparator_eq_some.mp h
  have hrest := hinner h
  cases first with
  | true =>
    rw [hs]
    exact hrest
  | false =>
    rw [hs]
    exact ReadsTo.trans ⟨[sep], rfl, by simp [hsep]⟩ hrest

/-! ## Four bytes -/

def Ipv4Addr.text (addr : Ipv4Addr) : Text :=
  decimal addr.a.toNat ++ '.' :: (decimal addr.b.toNat ++ '.' ::
    (decimal addr.c.toNat ++ '.' :: decimal addr.d.toNat))

theorem readOctet_eq_some {octet : UInt8} (h : readOctet first s = some (octet, rest)) :
    s = if first then decimal octet.toNat ++ rest else '.' :: (decimal octet.toNat ++ rest) := by
  obtain ⟨⟨n, rest'⟩, hread, heq⟩ := map_eq_some_iff.mp h
  cases heq
  obtain ⟨s', rfl, hnumber⟩ := readSeparator_eq_some.mp hread
  obtain ⟨digits, rfl, hne, hdigits, hzero, hn, hsize⟩ := readNumber_eq_some hnumber
  have hten : ∀ c, (toDigit 10 c).isSome = c.isDigit ∧
      (c.isDigit = true → (toDigit 10 c).getD 0 = c.toNat - 48) := by
    intro c
    unfold toDigit
    cases c.isDigit with
    | true => exact ⟨rfl, fun _ => rfl⟩
    | false => exact ⟨rfl, nofun⟩
  have hdecimal : ∀ c ∈ digits, c.isDigit = true := fun c hc => (hten c).1 ▸ hdigits c hc
  have hvalue : n = Nat.ofDigitChars 10 digits 0 := by
    rw [hn, Nat.ofDigitChars_eq_foldl]
    exact foldl_ext _ _ 0 fun m c hc => congrArg (10 * m + ·) ((hten c).2 (hdecimal c hc))
  have htext : decimal n = digits := by
    rw [hvalue]
    refine decimal_ofDigitChars hdecimal hne fun hhead => ?_
    have hshort := hzero rfl hhead
    obtain ⟨tail, rfl⟩ := List.head?_eq_some_iff.mp hhead
    rw [length_cons] at hshort
    rw [length_eq_zero_iff.mp (by omega : tail.length = 0)]
  rw [UInt8.toNat_ofNat_of_lt' hsize, htext]

theorem readsTo_octet {octet : UInt8} (h : readOctet first s = some (octet, rest)) :
    ReadsTo s rest := by
  obtain ⟨⟨n, rest'⟩, h, heq⟩ := map_eq_some_iff.mp h
  cases heq
  exact readsTo_separator (by decide) readsTo_number h

section
variable (h : readIpv4Addr s = some (addr, rest))
include h

theorem readIpv4Addr_eq_some : ∃ s₁ s₂ s₃,
      readOctet true s = some (addr.a, s₁) ∧ readOctet false s₁ = some (addr.b, s₂) ∧
        readOctet false s₂ = some (addr.c, s₃) ∧ readOctet false s₃ = some (addr.d, rest) := by
  obtain ⟨⟨a, s₁⟩, ha, h⟩ := bind_eq_some_iff.mp h
  obtain ⟨⟨b, s₂⟩, hb, h⟩ := bind_eq_some_iff.mp h
  obtain ⟨⟨c, s₃⟩, hc, h⟩ := bind_eq_some_iff.mp h
  obtain ⟨⟨d, s₄⟩, hd, h⟩ := bind_eq_some_iff.mp h
  cases h
  exact ⟨s₁, s₂, s₃, ha, hb, hc, hd⟩

theorem readIpv4Addr_text : s = addr.text ++ rest := by
  obtain ⟨s₁, s₂, s₃, ha, hb, hc, hd⟩ := readIpv4Addr_eq_some h
  have htext := readOctet_eq_some ha
  rw [if_pos rfl, readOctet_eq_some hb, readOctet_eq_some hc, readOctet_eq_some hd] at htext
  rw [htext]
  simp [Ipv4Addr.text]

theorem readsTo_ipv4 : ReadsTo s rest := by
  obtain ⟨s₁, s₂, s₃, ha, hb, hc, hd⟩ := readIpv4Addr_eq_some h
  exact (readsTo_octet ha).trans ((readsTo_octet hb).trans
    ((readsTo_octet hc).trans (readsTo_octet hd)))

end

theorem readsTo_groups (slots : ℕ) (first : Bool) (s : Text) :
    ReadsTo s (readGroups slots first s).2.2 := by
  induction slots generalizing first s with
  | zero => exact ReadsTo.refl s
  | succ slots ih =>
    unfold readGroups
    split
    · rename_i v4 rest h
      split at h
      · cases h
      · exact readsTo_separator (by decide) readsTo_ipv4 h
    · split
      · rename_i group rest h
        exact (readsTo_separator (by decide) readsTo_number h).trans (ih false rest)
      · exact ReadsTo.refl s

theorem readsTo_givenChar {target : Char} (htarget : isAddressChar target = true)
    (h : readGivenChar target s = some rest) : ReadsTo s rest :=
  ⟨[target], readGivenChar_eq_some.mp h, by simp [htarget]⟩

theorem readsTo_ipv6 {addr : Ipv6Addr} (h : readIpv6Addr s = some (addr, rest)) :
    ReadsTo s rest := by
  have hhead := readsTo_groups 8 true s
  unfold readIpv6Addr at h
  simp only at h
  split at h
  · cases h
    exact hhead
  · split at h
    · cases h
    · obtain ⟨s₁, h₁, h⟩ := bind_eq_some_iff.mp h
      obtain ⟨s₂, h₂, h⟩ := bind_eq_some_iff.mp h
      cases h
      exact hhead.trans ((readsTo_givenChar (by decide) h₁).trans
        ((readsTo_givenChar (by decide) h₂).trans (readsTo_groups _ true s₂)))

theorem parseIpAddr_chars {addr : IpAddr} (h : parseIpAddr s = some addr) :
    s.all isAddressChar = true := by
  have hreads : ReadsTo s [] := by
    unfold parseIpAddr at h
    split at h
    · rename_i addr' hread
      unfold readIpAddr at hread
      split at hread
      · rename_i v4 rest hv4
        cases hread
        exact readsTo_ipv4 hv4
      · obtain ⟨⟨v6, rest⟩, hv6, heq⟩ := map_eq_some_iff.mp hread
        cases heq
        exact readsTo_ipv6 hv6
    · cases h
  obtain ⟨used, rfl, hused⟩ := hreads
  rwa [append_nil]

theorem parseIpAddr_v4 (h : parseIpAddr s = some (.v4 addr)) : s = addr.text := by
  unfold parseIpAddr at h
  split at h
  · rename_i addr' hread
    cases h
    unfold readIpAddr at hread
    split at hread
    · rename_i v4 rest hv4
      cases hread
      rw [readIpv4Addr_text hv4, append_nil]
    · obtain ⟨⟨v6, rest⟩, hv6, heq⟩ := map_eq_some_iff.mp hread
      cases heq
  · cases h

end Foundation
