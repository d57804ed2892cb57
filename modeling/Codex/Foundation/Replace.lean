import Codex.Foundation.Text
import Mathlib.Data.List.Infix

/-!
# Replacing a pattern in a text

`replaceAll` searches from the left and goes on behind each match. A text is often made of
pieces some of which are the pattern: where it occurs nowhere else (`occursOnlyAt`),
replacing is replacing piece by piece.
-/

namespace Foundation

open List

section
variable (pat rep : Text)

/-- `replace` with so many characters of a match still to skip. -/
def replaceFrom : ℕ → Text → Text
  | _, [] => []
  | skip + 1, _ :: s => replaceFrom skip s
  | 0, c :: s =>
    if pat <+: c :: s then rep ++ replaceFrom (pat.length - 1) s else c :: replaceFrom 0 s

def replaceAll (s : Text) : Text := replaceFrom pat rep 0 s

variable {α : Type} (text : α → Text) (mark : α → Bool)

/-- No stretch without a marked piece holds the pattern, not even with all but the end of the
marked piece behind it. `seen` is the stretch so far. -/
def occursOnlyAt : Text → List α → Bool
  | seen, [] => ¬ pat <:+: seen
  | seen, p :: ps =>
    if mark p then ¬ pat <:+: seen ++ pat.dropLast ∧ occursOnlyAt [] ps
    else occursOnlyAt (seen ++ text p) ps

end

/-! ## Piece by piece -/

variable {pat rep : Text} {α : Type} {text : α → Text} {mark : α → Bool}

theorem replaceFrom_skip (s t : Text) :
    replaceFrom pat rep s.length (s ++ t) = replaceFrom pat rep 0 t := by
  induction s with
  | nil => rfl
  | cons c s ih => rw [length_cons, cons_append, replaceFrom, ih]

theorem replaceFrom_match (hpat : pat ≠ []) (s : Text) :
    replaceFrom pat rep 0 (pat ++ s) = rep ++ replaceFrom pat rep 0 s := by
  obtain ⟨c, p, rfl⟩ := exists_cons_of_ne_nil hpat
  rw [cons_append, replaceFrom, if_pos (by simp)]
  exact congrArg (rep ++ ·) (replaceFrom_skip p s)

/-- No match starts in a stretch that does not hold the pattern, if what is behind it is cut
before a match that starts in the stretch can end. -/
theorem replaceFrom_stretch {u v t : Text} (h : ¬ pat <:+: u ++ v)
    (hlen : pat.length ≤ v.length + 1 ∨ t = []) :
    replaceFrom pat rep 0 (u ++ (v ++ t)) = u ++ replaceFrom pat rep 0 (v ++ t) := by
  induction u with
  | nil => rfl
  | cons c u ih =>
    have hno : ¬ pat <+: c :: (u ++ (v ++ t)) := by
      intro hmatch
      rcases hlen with hlen | rfl
      · have hcut : c :: (u ++ v) <+: c :: (u ++ (v ++ t)) := ⟨t, by simp⟩
        exact h (prefix_of_prefix_length_le hmatch hcut (by simp; omega)).isInfix
      · rw [append_nil] at hmatch
        exact h hmatch.isInfix
    rw [cons_append, replaceFrom, if_neg hno, ih fun hu => h (infix_cons hu), cons_append]

theorem replaceAll_pieces (hpat : pat ≠ []) {ps : List α}
    (hmark : ∀ p ∈ ps, mark p → text p = pat) (h : occursOnlyAt pat text mark [] ps) :
    replaceAll pat rep (ps.flatMap text) = ps.flatMap fun p => if mark p then rep else text p := by
  suffices go : ∀ seen, occursOnlyAt pat text mark seen ps →
      replaceFrom pat rep 0 (seen ++ ps.flatMap text) =
        seen ++ ps.flatMap fun p => if mark p then rep else text p from go [] h
  clear h
  intro seen h
  induction ps generalizing seen with
  | nil =>
    have hseen : replaceFrom pat rep 0 (seen ++ ([] ++ [])) = _ :=
      replaceFrom_stretch (by simpa [occursOnlyAt] using h) (.inr rfl)
    simpa [replaceFrom] using hseen
  | cons p ps ih =>
    obtain ⟨hp, hps⟩ := forall_mem_cons.mp hmark
    rw [flatMap_cons, flatMap_cons]
    unfold occursOnlyAt at h
    split at h
    · next hm =>
      obtain ⟨hseen, hrest⟩ := of_decide_eq_true h
      have hcut : pat ++ ps.flatMap text =
          pat.dropLast ++ (pat.getLast hpat :: ps.flatMap text) := by
        rw [← singleton_append, ← List.append_assoc, dropLast_append_getLast hpat]
      have hlen : pat.length ≤ pat.dropLast.length + 1 := by
        rw [length_dropLast]
        omega
      have hbehind : replaceFrom pat rep 0 (ps.flatMap text) =
          ps.flatMap fun p => if mark p then rep else text p := ih hps [] hrest
      rw [hp hm, hcut, replaceFrom_stretch hseen (.inl hlen), ← hcut, replaceFrom_match hpat,
        if_pos hm, hbehind]
    · next hm =>
      rw [if_neg hm, ← List.append_assoc, ih hps _ h, List.append_assoc]

variable {c : Char} {p u v : Text}

theorem infix_append_of_head (hc : c ∉ p) (h : c :: p <:+: u ++ c :: v) :
    c :: p <:+: u ∨ c :: p <:+: c :: v := by
  rcases infix_append_iff_ne_nil.mp h with h | h | ⟨l, l', hl, hl', hsplit, -, hv⟩
  · exact .inl h
  · exact .inr h
  · -- a match over the border has the first character of the pattern a second time
    obtain ⟨d, l, rfl⟩ := exists_cons_of_ne_nil hl
    obtain ⟨e, l', rfl⟩ := exists_cons_of_ne_nil hl'
    obtain ⟨t, ht⟩ := hv
    obtain ⟨rfl, -⟩ := List.cons.inj ht
    exact absurd (by rw [(List.cons.inj hsplit).2]; simp) hc

theorem infix_of_infix_append (hc : c ∉ u) (h : c :: p <:+: u ++ v) : c :: p <:+: v := by
  rcases infix_append_iff_ne_nil.mp h with h | h | ⟨l, l', hl, -, hsplit, hu, -⟩
  · exact absurd (h.subset mem_cons_self) hc
  · exact h
  · obtain ⟨d, l, rfl⟩ := exists_cons_of_ne_nil hl
    obtain ⟨rfl, -⟩ := List.cons.inj hsplit
    exact absurd (hu.subset mem_cons_self) hc

end Foundation
