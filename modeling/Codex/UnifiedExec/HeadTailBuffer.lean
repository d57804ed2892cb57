import Codex.Foundation.ListEnds

/-!
# Output with a head and a tail

The output of a process is kept up to a number of bytes, half of them from its start and
half from its end. However the output is split into chunks, its two ends are kept.
-/

namespace Codex

open Foundation List

/-- The greatest value of a counter. Sums stop there. -/
def counterMax : ℕ := UInt64.size - 1

def counterAdd (a b : ℕ) : ℕ := min (a + b) counterMax

structure HeadTailBuffer where
  maxBytes : ℕ
  headBudget : ℕ
  tailBudget : ℕ
  head : List (List UInt8)
  tail : List (List UInt8)
  headBytes : ℕ
  tailBytes : ℕ
  omittedBytes : ℕ
deriving DecidableEq

namespace HeadTailBuffer

def new (maxBytes : UInt64) : HeadTailBuffer where
  maxBytes := maxBytes.toNat
  headBudget := maxBytes.toNat / 2
  tailBudget := maxBytes.toNat - maxBytes.toNat / 2
  head := []
  tail := []
  headBytes := 0
  tailBytes := 0
  omittedBytes := 0

def retainedBytes (b : HeadTailBuffer) : ℕ := counterAdd b.headBytes b.tailBytes

/-- The loop of `trim_tail_to_budget`: the chunks left, and the counters. -/
def trimLoop : ℕ → List (List UInt8) → ℕ → ℕ → List (List UInt8) × ℕ × ℕ
  | _, [], tailBytes, omittedBytes => ([], tailBytes, omittedBytes)
  | excess, front :: rest, tailBytes, omittedBytes =>
    if excess = 0 then (front :: rest, tailBytes, omittedBytes)
    else if front.length ≤ excess then
      trimLoop (excess - front.length) rest (tailBytes - front.length)
        (counterAdd omittedBytes front.length)
    else (front.drop excess :: rest, tailBytes - excess, counterAdd omittedBytes excess)

def trimTailToBudget (b : HeadTailBuffer) : HeadTailBuffer :=
  let (tail, tailBytes, omittedBytes) :=
    trimLoop (b.tailBytes - b.tailBudget) b.tail b.tailBytes b.omittedBytes
  { b with tail, tailBytes, omittedBytes }

def pushToTail (b : HeadTailBuffer) (chunk : List UInt8) : HeadTailBuffer :=
  if b.tailBudget = 0 then
    { b with omittedBytes := counterAdd b.omittedBytes chunk.length }
  else if b.tailBudget ≤ chunk.length then
    let kept := chunk.drop (chunk.length - b.tailBudget)
    let dropped := chunk.length - kept.length
    { b with
      omittedBytes := counterAdd (counterAdd b.omittedBytes b.tailBytes) dropped
      tail := [kept]
      tailBytes := kept.length }
  else
    trimTailToBudget { b with
      tailBytes := counterAdd b.tailBytes chunk.length
      tail := b.tail ++ [chunk] }

def pushChunk (b : HeadTailBuffer) (chunk : List UInt8) : HeadTailBuffer :=
  if b.maxBytes = 0 then
    { b with omittedBytes := counterAdd b.omittedBytes chunk.length }
  else if b.headBytes < b.headBudget then
    let remainingHead := b.headBudget - b.headBytes
    if chunk.length ≤ remainingHead then
      { b with
        headBytes := counterAdd b.headBytes chunk.length
        head := b.head ++ [chunk] }
    else
      let headPart := chunk.take remainingHead
      let tailPart := chunk.drop remainingHead
      let filled :=
        if headPart = [] then b
        else { b with
          headBytes := counterAdd b.headBytes headPart.length
          head := b.head ++ [headPart] }
      filled.pushToTail tailPart
  else b.pushToTail chunk

def snapshotChunks (b : HeadTailBuffer) : List (List UInt8) := b.head ++ b.tail

def toBytes (b : HeadTailBuffer) : List UInt8 :=
  b.tail.foldl (· ++ ·) (b.head.foldl (· ++ ·) [])

def drainChunks (b : HeadTailBuffer) : List (List UInt8) × HeadTailBuffer :=
  (b.head ++ b.tail,
    { b with head := [], tail := [], headBytes := 0, tailBytes := 0, omittedBytes := 0 })

def pushChunks (b : HeadTailBuffer) (chunks : List (List UInt8)) : HeadTailBuffer :=
  chunks.foldl pushChunk b

/-! ## The tail -/

theorem counterAdd_add (a b c : ℕ) : counterAdd (counterAdd a b) c = counterAdd a (b + c) := by
  unfold counterAdd
  omega

theorem counterAdd_eq {a b : ℕ} (h : a + b ≤ counterMax) : counterAdd a b = a + b :=
  Nat.min_eq_left h

theorem trimLoop_spec (tail : List (List UInt8)) {excess omittedBytes : ℕ}
    (hexcess : excess ≤ tail.flatten.length) (homitted : omittedBytes ≤ counterMax) :
    (trimLoop excess tail tail.flatten.length omittedBytes).1.flatten = tail.flatten.drop excess ∧
      (trimLoop excess tail tail.flatten.length omittedBytes).2 =
        (tail.flatten.length - excess, counterAdd omittedBytes excess) := by
  induction tail generalizing excess omittedBytes with
  | nil =>
    have hzero : excess = 0 := Nat.le_zero.mp hexcess
    subst hzero
    simp [trimLoop, counterAdd_eq (b := 0) homitted]
  | cons front rest ih =>
    rw [flatten_cons, length_append] at hexcess ⊢
    rw [trimLoop]
    split
    · next hzero =>
      subst hzero
      simp [counterAdd_eq (b := 0) homitted]
    · split
      · next hfront =>
        have hexcess' : excess - front.length ≤ rest.flatten.length := by omega
        have hrest := ih hexcess'
          (show counterAdd omittedBytes front.length ≤ counterMax from Nat.min_le_right _ _)
        rw [counterAdd_add, Nat.add_sub_cancel' hfront] at hrest
        rw [Nat.add_sub_cancel_left, drop_append, drop_eq_nil_of_le hfront, nil_append]
        refine ⟨hrest.1, ?_⟩
        rw [hrest.2, Nat.sub_sub_right _ hfront, Nat.add_comm]
      · next hfront =>
        rw [drop_append_of_le_length (by omega)]
        exact ⟨rfl, rfl⟩

structure PushesToTail (b b' : HeadTailBuffer) (chunk : List UInt8) : Prop where
  rest : b' = { b with tail := b'.tail, tailBytes := b'.tailBytes, omittedBytes := b'.omittedBytes }
  tail : b'.tail.flatten = (b.tail.flatten ++ chunk).rtake b.tailBudget
  tailBytes : b'.tailBytes = b'.tail.flatten.length
  omitted : b'.omittedBytes = counterAdd b.omittedBytes
    (b.tail.flatten.length + chunk.length - b'.tail.flatten.length)

theorem pushToTail_spec {b : HeadTailBuffer} (hbytes : b.tailBytes = b.tail.flatten.length)
    (hbudget : b.tailBytes ≤ b.tailBudget) (hroom : 2 * b.tailBudget ≤ counterMax + 1)
    (homitted : b.omittedBytes ≤ counterMax) (chunk : List UInt8) :
    PushesToTail b (b.pushToTail chunk) chunk := by
  unfold pushToTail
  split
  · next hzero =>
    have hnil : b.tail.flatten = [] := length_eq_zero_iff.mp (by omega)
    refine ⟨rfl, ?_, hbytes, ?_⟩
    · simp [hnil, hzero, List.rtake]
    · simp [hnil]
  · split
    · next hlarge =>
      refine ⟨rfl, ?_, ?_, ?_⟩
      · rw [rtake_append_right _ hlarge]
        simp [List.rtake]
      · simp
      · dsimp only
        rw [counterAdd_add, hbytes, flatten_singleton]
        congr 1
        rw [length_drop]
        omega
    · next hsmall =>
      have hsum : counterAdd b.tailBytes chunk.length = (b.tail ++ [chunk]).flatten.length := by
        rw [counterAdd_eq (by omega), hbytes]
        simp
      obtain ⟨htail, hcounters⟩ := trimLoop_spec (b.tail ++ [chunk])
        (Nat.sub_le (b.tail ++ [chunk]).flatten.length b.tailBudget) homitted
      unfold trimTailToBudget
      rw [hsum]
      generalize trimLoop _ _ _ _ = trimmed at htail hcounters
      obtain ⟨tail, tailBytes, omittedBytes⟩ := trimmed
      obtain ⟨rfl, rfl⟩ := Prod.mk.inj hcounters
      have hlen := congrArg List.length htail
      rw [length_drop] at hlen
      refine ⟨rfl, ?_, hlen.symm, ?_⟩
      · rw [htail]
        simp [List.rtake]
      · dsimp only
        rw [hlen]
        congr 1
        rw [flatten_append, flatten_singleton, length_append]
        omega

/-! ## The ends of the stream -/

structure Keeps (maxBytes : UInt64) (b : HeadTailBuffer) (s : List UInt8) : Prop where
  max : b.maxBytes = maxBytes.toNat
  headBudget : b.headBudget = b.maxBytes / 2
  tailBudget : b.tailBudget = b.maxBytes - b.maxBytes / 2
  head : b.head.flatten = s.take b.headBudget
  tail : b.tail.flatten = (s.drop b.headBudget).rtake b.tailBudget
  headBytes : b.headBytes = b.head.flatten.length
  tailBytes : b.tailBytes = b.tail.flatten.length
  omitted : b.omittedBytes =
    min (s.length - (b.head.flatten.length + b.tail.flatten.length)) counterMax

theorem new_keeps (maxBytes : UInt64) : Keeps maxBytes (new maxBytes) [] where
  max := rfl
  headBudget := rfl
  tailBudget := rfl
  head := by simp [new]
  tail := by simp [new]
  headBytes := rfl
  tailBytes := rfl
  omitted := by simp [new]

variable {maxBytes : UInt64} {b : HeadTailBuffer} {s : List UInt8}

section
variable (h : Keeps maxBytes b s)
include h

theorem Keeps.fits : b.maxBytes ≤ counterMax :=
  h.max ▸ Nat.le_pred_of_lt maxBytes.toNat_lt_size

theorem Keeps.head_length : b.head.flatten.length = min b.headBudget s.length := by
  rw [h.head, length_take]

theorem Keeps.tail_length : b.tail.flatten.length = min b.tailBudget (s.length - b.headBudget) := by
  rw [h.tail, length_rtake, length_drop]

theorem Keeps.fill {chunk : List UInt8}
    (hroom : s.length + chunk.length ≤ b.headBudget) : Keeps maxBytes { b with
      headBytes := counterAdd b.headBytes chunk.length
      head := b.head ++ [chunk] } (s ++ chunk) := by
  have hhead : b.head.flatten = s := by rw [h.head, take_of_length_le (by omega)]
  have htail : b.tail.flatten = [] := by
    rw [h.tail, drop_eq_nil_of_le (by omega), rtake_nil]
  have hfits := h.fits
  have hbudget := h.headBudget
  have homitted := h.omitted
  refine ⟨h.max, h.headBudget, h.tailBudget, ?_, ?_, ?_, h.tailBytes, ?_⟩
  · rw [take_of_length_le (by rw [length_append]; exact hroom)]
    simp [hhead]
  · rw [drop_eq_nil_of_le (by rw [length_append]; exact hroom), rtake_nil]
    exact htail
  · rw [h.headBytes, counterAdd_eq (by rw [hhead]; omega)]
    simp
  · simp [homitted, hhead, htail]

theorem Keeps.pushToTail (hfull : b.headBudget ≤ s.length) (chunk : List UInt8) :
    Keeps maxBytes (b.pushToTail chunk) (s ++ chunk) := by
  have hfits := h.fits
  have hbudget := h.tailBudget
  have hlen := h.tail_length
  have homitted := h.omitted
  obtain ⟨hrest, htail, hbytes, homits⟩ := pushToTail_spec h.tailBytes
    (by rw [h.tailBytes]; omega) (by omega) (by omega) chunk
  generalize b.pushToTail chunk = b' at hrest htail hbytes homits
  rw [h.tail, rtake_rtake_append] at htail
  have hlen' : b'.tail.flatten.length =
      min b.tailBudget (s.length + chunk.length - b.headBudget) := by
    rw [htail, length_rtake, length_append, length_drop]
    omega
  have hhead := h.head_length
  rw [hrest]
  refine ⟨h.max, h.headBudget, h.tailBudget, ?_, ?_, h.headBytes, hbytes, ?_⟩
  · rw [h.head, take_append_of_le_length hfull]
  · rw [htail, drop_append_of_le_length hfull]
  · dsimp only
    rw [homits, counterAdd, length_append]
    omega

theorem Keeps.pushChunk (chunk : List UInt8) : Keeps maxBytes (b.pushChunk chunk) (s ++ chunk) := by
  have hhead := h.head_length
  have hbytes := h.headBytes
  unfold HeadTailBuffer.pushChunk
  split
  · next hzero =>
    have hheadBudget := h.headBudget
    have htailBudget := h.tailBudget
    have htail := h.tail_length
    have homitted := h.omitted
    rw [hzero] at hheadBudget htailBudget
    have hnoHead : b.head.flatten = [] := length_eq_zero_iff.mp (by omega)
    have hnoTail : b.tail.flatten = [] := length_eq_zero_iff.mp (by omega)
    refine ⟨h.max, h.headBudget, h.tailBudget, ?_, ?_, h.headBytes, h.tailBytes, ?_⟩
    · simp [hnoHead, hheadBudget]
    · rw [hnoTail, htailBudget]
      exact (rtake_zero _).symm
    · dsimp only
      rw [homitted, counterAdd, length_append]
      omega
  · split
    · next hroom =>
      dsimp only
      split
      · exact h.fill (by omega)
      · -- the head takes what it has room for
        next hlong =>
        have hpart : chunk.take (b.headBudget - b.headBytes) ≠ [] := fun hnil => by
          have hzero := congrArg List.length hnil
          rw [length_take, length_nil] at hzero
          omega
        have htake : (chunk.take (b.headBudget - b.headBytes)).length = b.headBudget - b.headBytes := by
          rw [length_take]
          omega
        have hfits : s.length + (chunk.take (b.headBudget - b.headBytes)).length ≤ b.headBudget := by
          omega
        have hfilled := (h.fill hfits).pushToTail (by rw [length_append]; dsimp only; omega)
          (chunk.drop (b.headBudget - b.headBytes))
        rw [List.append_assoc, take_append_drop] at hfilled
        rw [if_neg hpart]
        exact hfilled
    · exact h.pushToTail (by omega) chunk

theorem Keeps.pushChunks (chunks : List (List UInt8)) :
    Keeps maxBytes (b.pushChunks chunks) (s ++ chunks.flatten) := by
  unfold HeadTailBuffer.pushChunks
  induction chunks generalizing b s with
  | nil => simpa using h
  | cons chunk chunks ih =>
    rw [flatten_cons, ← List.append_assoc]
    exact ih (h.pushChunk chunk)

end

/-! ## What the buffer returns -/

theorem foldl_append_flatten {α : Type} (l : List (List α)) (init : List α) :
    l.foldl (· ++ ·) init = init ++ l.flatten := by
  induction l generalizing init with
  | nil => simp
  | cons a l ih => rw [foldl_cons, ih, flatten_cons, List.append_assoc]

theorem toBytes_eq (b : HeadTailBuffer) : b.toBytes = b.head.flatten ++ b.tail.flatten := by
  unfold toBytes
  rw [foldl_append_flatten, foldl_append_flatten, nil_append]

theorem snapshotChunks_flatten (b : HeadTailBuffer) : b.snapshotChunks.flatten = b.toBytes := by
  rw [toBytes_eq, snapshotChunks, flatten_append]

/-- The ends of the stream `s`. The count of the bytes between them stops at the greatest
value of a counter. -/
structure HoldsEnds (b : HeadTailBuffer) (maxBytes : UInt64) (s : List UInt8) : Prop where
  bytes : b.toBytes =
    if s.length ≤ maxBytes.toNat then s
    else s.take (maxBytes.toNat / 2) ++ s.rtake (maxBytes.toNat - maxBytes.toNat / 2)
  omitted : b.omittedBytes = min (s.length - b.toBytes.length) counterMax
  retained : b.retainedBytes = b.toBytes.length
  snapshot : b.snapshotChunks.flatten = b.toBytes

theorem Keeps.holdsEnds (h : Keeps maxBytes b s) : HoldsEnds b maxBytes s := by
  have hmax := h.max
  have hfits := h.fits
  have hhead := h.headBudget
  have htail := h.tailBudget
  have hlen : b.toBytes.length = b.head.flatten.length + b.tail.flatten.length := by
    rw [toBytes_eq, length_append]
  refine ⟨?_, ?_, ?_, snapshotChunks_flatten b⟩
  · have hsum : b.headBudget + b.tailBudget = maxBytes.toNat := by omega
    rw [toBytes_eq, h.head, h.tail, take_append_rtake_drop, keepEnds, hsum, hhead, htail, hmax]
  · rw [hlen]
    exact h.omitted
  · have hheadLength := h.head_length
    have htailLength := h.tail_length
    rw [hlen, retainedBytes, h.headBytes, h.tailBytes, counterAdd_eq (by omega)]

theorem new_holdsEnds (maxBytes : UInt64) (chunks : List (List UInt8)) :
    HoldsEnds ((new maxBytes).pushChunks chunks) maxBytes chunks.flatten :=
  ((new_keeps maxBytes).pushChunks chunks).holdsEnds

/-- The ends do not depend on the chunks. -/
theorem buffer_holds_ends (maxBytes : UInt64) (chunks : List (List UInt8)) :
    HoldsEnds ((new maxBytes).pushChunks chunks) maxBytes chunks.flatten ∧
      ∀ others : List (List UInt8), others.flatten = chunks.flatten →
        ((new maxBytes).pushChunks others).toBytes = ((new maxBytes).pushChunks chunks).toBytes ∧
        ((new maxBytes).pushChunks others).omittedBytes =
          ((new maxBytes).pushChunks chunks).omittedBytes := by
  have h := new_holdsEnds maxBytes chunks
  refine ⟨h, fun others heq => ?_⟩
  have hothers := new_holdsEnds maxBytes others
  rw [heq] at hothers
  have hbytes := hothers.bytes.trans h.bytes.symm
  exact ⟨hbytes, by rw [hothers.omitted, h.omitted, hbytes]⟩

theorem uncounted {chunks : List (List UInt8)} (hlong : counterMax < chunks.flatten.length) :
    ((new 0).pushChunks chunks).omittedBytes ≠
      chunks.flatten.length - ((new 0).pushChunks chunks).toBytes.length := by
  have h := new_holdsEnds 0 chunks
  have hzero : (0 : UInt64).toNat = 0 := rfl
  have hbytes : ((new 0).pushChunks chunks).toBytes.length = 0 := by
    rw [h.bytes, hzero, if_neg (by omega), Nat.zero_div, take_zero, nil_append,
      rtake_zero, length_nil]
  rw [h.omitted, hbytes]
  omega

def equalChunks (n : ℕ) : List (List UInt8) := List.replicate 3 (List.replicate n 0)

theorem equalChunks_length (n : ℕ) : (equalChunks n).flatten.length = 3 * n := by
  rw [equalChunks, length_flatten, map_replicate, length_replicate, sum_replicate_nat]

/-- Three chunks of the greatest length, none of which is kept. -/
theorem long_stream_uncounted :
    ((new 0).pushChunks (equalChunks 9223372036854775807)).omittedBytes ≠
      (equalChunks 9223372036854775807).flatten.length -
        ((new 0).pushChunks (equalChunks 9223372036854775807)).toBytes.length :=
  uncounted (by rw [equalChunks_length]; decide)

/-- The loop of `collect_output_until_deadline`, by the chunks that come ahead of each drain. -/
def collectOutput (b : HeadTailBuffer) (collected : List UInt8) :
    List (List (List UInt8)) → List UInt8 × HeadTailBuffer
  | [] => (collected, b)
  | burst :: bursts =>
    let drained := (b.pushChunks burst).drainChunks
    collectOutput drained.2 (drained.1.foldl (· ++ ·) collected) bursts

theorem Keeps.drainChunks (h : Keeps maxBytes b s) : b.drainChunks.1.flatten =
    keepEnds (maxBytes.toNat / 2) (maxBytes.toNat - maxBytes.toNat / 2) s ∧
      b.drainChunks.2 = new maxBytes := by
  have hhead := h.headBudget
  have htail := h.tailBudget
  rw [h.max] at hhead htail
  constructor
  · rw [← take_append_rtake_drop, ← htail, ← hhead, ← h.head, ← h.tail, ← flatten_append]
    rfl
  · simp [HeadTailBuffer.drainChunks, new, h.max, hhead, htail]

/-- A drain takes the ends of what came behind the drain before, and nothing stays. -/
theorem collectOutput_eq (maxBytes : UInt64) (bursts : List (List (List UInt8))) :
    (new maxBytes).collectOutput [] bursts = ((bursts.map fun burst => keepEnds
      (maxBytes.toNat / 2) (maxBytes.toNat - maxBytes.toNat / 2) burst.flatten).flatten,
      new maxBytes) := by
  suffices h : ∀ collected, (new maxBytes).collectOutput collected bursts = (collected ++ _, _)
    from h []
  induction bursts with
  | nil => simp [collectOutput]
  | cons burst bursts ih =>
    intro collected
    obtain ⟨hends, hnew⟩ := ((new_keeps maxBytes).pushChunks burst).drainChunks
    rw [collectOutput, hnew, foldl_append_flatten, ih, hends]
    simp

end HeadTailBuffer

end Codex
