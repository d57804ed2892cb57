import Mathlib.Data.List.Basic
import Mathlib.Tactic.Cases

/-!
# Streams of frames

A reader takes one message at a time from a stream, until it says that the stream ended
or fails. Over a stream of frames it gives back the messages (`Framed.reads_all`), and
when it refuses every broken frame, a stream cut anywhere gives the messages whose frames
are complete, and then the end or an error (`Framed.reads_take`).
-/

namespace Foundation

open List

variable {α μ ε : Type}

abbrev MessageReader (α μ ε : Type) : Type := List α → Except ε (Option μ) × List α

/-- The messages read from a stream until it ends or the reader fails. -/
inductive Reads (read : MessageReader α μ ε) : List α → List μ → Except ε Unit → Prop where
  | ended {s t : List α} (h : read s = (.ok none, t)) : Reads read s [] (.ok ())
  | failed {s t : List α} {e : ε} (h : read s = (.error e, t)) : Reads read s [] (.error e)
  | message {s t : List α} {m : μ} {ms : List μ} {r : Except ε Unit}
      (h : read s = (.ok (some m), t)) (hrest : Reads read t ms r) : Reads read s (m :: ms) r

variable {s : List α}

theorem Reads.unique {read : MessageReader α μ ε} {ms ms' : List μ} {r r' : Except ε Unit}
    (h : Reads read s ms r) (h' : Reads read s ms' r') : ms = ms' ∧ r = r' := by
  induction h generalizing ms' with
  | ended h =>
    cases h' with
    | ended h' => exact ⟨rfl, rfl⟩
    | failed h' | message h' =>
      rw [h] at h'
      cases h'
  | failed h =>
    cases h' with
    | ended h' =>
      rw [h] at h'
      cases h'
    | failed h' =>
      rw [h] at h'
      cases h'
      exact ⟨rfl, rfl⟩
    | message h' =>
      rw [h] at h'
      cases h'
  | message h _ ih =>
    cases h' with
    | ended h' | failed h' =>
      rw [h] at h'
      cases h'
    | message h' hrest' =>
      rw [h] at h'
      cases h'
      obtain ⟨rfl, rfl⟩ := ih hrest'
      exact ⟨rfl, rfl⟩

variable {ms : List μ} {r : Except ε Unit}

theorem Reads.iff {read : MessageReader α μ ε} (h : Reads read s ms r) (ms' : List μ)
    (r' : Except ε Unit) : Reads read s ms' r' ↔ ms' = ms ∧ r' = r := by
  constructor
  · exact fun h' => h'.unique h
  · rintro ⟨rfl, rfl⟩
    exact h

/-! ## Frames -/

/-- The reader takes a valid frame as a whole, and an empty stream as ended. -/
structure Framed (read : MessageReader α μ ε) (frame : μ → List α) (valid : μ → Prop) :
    Prop where
  atEnd : ∃ t, read [] = (.ok none, t)
  takes : ∀ m, valid m → ∀ rest, read (frame m ++ rest) = (.ok (some m), rest)

def RefusesParts (read : MessageReader α μ ε) (frame : μ → List α) (valid : μ → Prop) : Prop :=
  ∀ m, valid m → ∀ n, 0 < n → n < (frame m).length → ∃ e t, read ((frame m).take n) = (.error e, t)

def RefusesPartsAs (read : MessageReader α μ ε) (frame : μ → List α) (valid : μ → Prop)
    (E : ε → Prop) : Prop :=
  ∀ m, valid m → ∀ n, 0 < n → n < (frame m).length →
    ∃ e t, read ((frame m).take n) = (.error e, t) ∧ E e

section
variable (frame : μ → List α)

def complete : List μ → ℕ → List μ
  | [], _ => []
  | m :: ms, n =>
    if (frame m).length ≤ n then m :: complete ms (n - (frame m).length) else []

def OnBoundary (ms : List μ) (n : ℕ) : Prop := ((complete frame ms n).flatMap frame).length = n

theorem onBoundary_cons {m : μ} {n : ℕ} (hle : (frame m).length ≤ n) (ms : List μ) :
    OnBoundary frame (m :: ms) n ↔ OnBoundary frame ms (n - (frame m).length) := by
  unfold OnBoundary
  rw [complete, if_pos hle, flatMap_cons, length_append]
  omega

end

variable {read : MessageReader α μ ε} {frame : μ → List α} {valid : μ → Prop}

section
variable (h : Framed read frame valid)
include h

theorem Framed.reads_all (hms : ∀ m ∈ ms, valid m) : Reads read (ms.flatMap frame) ms (.ok ()) := by
  induction ms with
  | nil =>
    obtain ⟨t, ht⟩ := h.atEnd
    exact .ended ht
  | cons m ms ih =>
    rw [flatMap_cons]
    exact .message (h.takes m (hms m mem_cons_self) _)
      (ih fun m' hm' => hms m' (mem_cons_of_mem _ hm'))

theorem Framed.reads_append {ms ms' : List μ} (hms : ∀ m ∈ ms, valid m) (hs : Reads read s ms' r) :
    Reads read (ms.flatMap frame ++ s) (ms ++ ms') r := by
  induction ms with
  | nil => exact hs
  | cons m ms ih =>
    rw [flatMap_cons, List.append_assoc]
    exact .message (h.takes m (hms m mem_cons_self) _)
      (ih fun m' hm' => hms m' (mem_cons_of_mem _ hm'))

theorem Framed.reads_take_as {E : ε → Prop}
    (hparts : RefusesPartsAs read frame valid E) (hms : ∀ m ∈ ms, valid m) {n : ℕ}
    (hn : n ≤ (ms.flatMap frame).length) : (OnBoundary frame ms n →
        Reads read ((ms.flatMap frame).take n) (complete frame ms n) (.ok ())) ∧
      (¬ OnBoundary frame ms n →
        ∃ e, Reads read ((ms.flatMap frame).take n) (complete frame ms n) (.error e) ∧ E e) := by
  obtain ⟨t, hend⟩ := h.atEnd
  induction ms generalizing n with
  | nil =>
    obtain rfl : n = 0 := Nat.le_zero.mp hn
    exact ⟨fun _ => .ended hend, fun hnot => absurd rfl hnot⟩
  | cons m ms ih =>
    have hm := hms m mem_cons_self
    by_cases hle : (frame m).length ≤ n
    · -- the first frame is complete
      rw [flatMap_cons, length_append] at hn
      obtain ⟨hon, hoff⟩ := ih (fun m' hm' => hms m' (mem_cons_of_mem _ hm'))
        (n := n - (frame m).length) (by omega)
      rw [onBoundary_cons frame hle, complete, if_pos hle, flatMap_cons,
        take_append, take_of_length_le hle]
      constructor
      · exact fun hb => .message (h.takes m hm _) (hon hb)
      · intro hb
        obtain ⟨e, he, hE⟩ := hoff hb
        exact ⟨e, .message (h.takes m hm _) he, hE⟩
    · have hnone : complete frame (m :: ms) n = [] := by rw [complete, if_neg hle]
      have hcut : ((m :: ms).flatMap frame).take n = (frame m).take n := by
        rw [flatMap_cons, take_append_of_le_length (Nat.le_of_not_le hle)]
      rw [OnBoundary, hnone, hcut]
      rcases Nat.eq_zero_or_pos n with rfl | hpos
      · exact ⟨fun _ => .ended hend, fun hnot => absurd rfl hnot⟩
      · obtain ⟨e, t, he, hE⟩ := hparts m hm n hpos (Nat.lt_of_not_le hle)
        exact ⟨fun hb => absurd hb (Nat.ne_of_lt hpos), fun _ => ⟨e, .failed he, hE⟩⟩

theorem Framed.reads_take (hparts : RefusesParts read frame valid)
    (hms : ∀ m ∈ ms, valid m) {n : ℕ} (hn : n ≤ (ms.flatMap frame).length) :
    (OnBoundary frame ms n →
        Reads read ((ms.flatMap frame).take n) (complete frame ms n) (.ok ())) ∧
      (¬ OnBoundary frame ms n →
        ∃ e, Reads read ((ms.flatMap frame).take n) (complete frame ms n) (.error e)) := by
  have hparts' : RefusesPartsAs read frame valid fun _ => True := by
    intro m hm n hpos hlt
    obtain ⟨e, t, he⟩ := hparts m hm n hpos hlt
    exact ⟨e, t, he, trivial⟩
  obtain ⟨hon, hoff⟩ := h.reads_take_as hparts' hms hn
  refine ⟨hon, fun hb => ?_⟩
  obtain ⟨e, he, -⟩ := hoff hb
  exact ⟨e, he⟩

end

theorem Reads.exists (hshort : ∀ s t m, read s = (.ok (some m), t) → t.length < s.length)
    (s : List α) : ∃ ms r, Reads read s ms r := by
  cases hread : read s with
  | mk result t =>
    cases result with
    | error e => exact ⟨[], _, .failed hread⟩
    | ok found =>
      cases found with
      | none => exact ⟨[], _, .ended hread⟩
      | some m =>
        have hlt := hshort s t m hread
        obtain ⟨ms, r, hreads⟩ := Reads.exists hshort t
        exact ⟨m :: ms, r, .message hread hreads⟩
termination_by s.length

theorem Reads.frames (hexact : ∀ s t m, read s = (.ok (some m), t) → valid m ∧ s = frame m ++ t)
    (h : Reads read s ms r) : (∀ m ∈ ms, valid m) ∧ ∃ t, s = ms.flatMap frame ++ t ∧
      ∀ e, r = .error e → ∃ u, read t = (.error e, u) := by
  induction h with
  | @ended s t h =>
    refine ⟨(fun m hm => absurd hm not_mem_nil), s, rfl, ?_⟩
    intro e he
    cases he
  | @failed s t e h =>
    refine ⟨(fun m hm => absurd hm not_mem_nil), s, rfl, ?_⟩
    intro e' he'
    cases he'
    exact ⟨t, h⟩
  | @message s t m ms r h hrest ih =>
    obtain ⟨hm, rfl⟩ := hexact s t m h
    obtain ⟨hms, u, rfl, hstop⟩ := ih
    refine ⟨?_, u, by simp, hstop⟩
    intro m' hm'
    rcases mem_cons.mp hm' with rfl | hm'
    · exact hm
    · exact hms m' hm'

end Foundation
