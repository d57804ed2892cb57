import Mathlib.Data.List.Nodup
import Mathlib.Order.Lattice

/-!
# Reading a sequence by pages

The items of a sequence carry increasing keys. A cursor splits it into what was read and
what is beyond. A page is a prefix of what is beyond it, and a cursor on its last item stands
behind the page.

A page goes on until it shows a given number of items and more are left. The next page starts
below the key of the item that was shown last, so it passes over those items behind that one
that have the same key.
-/

namespace Foundation

open List

/-! ## Reading an increasing sequence through a cursor -/

section
variable {α : Type} (key : α → ℕ)

def Increasing (l : List α) : Prop := l.Pairwise fun a b => key a < key b

def upTo (cursor : ℕ) (l : List α) : List α := l.filter fun a => key a ≤ cursor

def beyond (cursor : ℕ) (l : List α) : List α := l.filter fun a => cursor < key a

variable {key}

variable {cursor : ℕ} {l : List α}

theorem upTo_eq_self (h : ∀ a ∈ l, key a ≤ cursor) : upTo key cursor l = l :=
  filter_eq_self.mpr fun a ha => decide_eq_true (h a ha)

theorem upTo_eq_nil (h : ∀ a ∈ l, cursor < key a) : upTo key cursor l = [] :=
  filter_eq_nil_iff.mpr fun a ha => by simpa using h a ha

theorem beyond_eq_nil (h : ∀ a ∈ l, key a ≤ cursor) : beyond key cursor l = [] :=
  filter_eq_nil_iff.mpr fun a ha => by simpa using h a ha

theorem beyond_eq_self (h : ∀ a ∈ l, cursor < key a) : beyond key cursor l = l :=
  filter_eq_self.mpr fun a ha => decide_eq_true (h a ha)

theorem upTo_append (cursor : ℕ) (l l' : List α) :
    upTo key cursor (l ++ l') = upTo key cursor l ++ upTo key cursor l' := filter_append ..

theorem beyond_append (cursor : ℕ) (l l' : List α) :
    beyond key cursor (l ++ l') = beyond key cursor l ++ beyond key cursor l' :=
  filter_append ..

theorem mem_beyond {a : α} : a ∈ beyond key cursor l ↔ a ∈ l ∧ cursor < key a := by
  simp [beyond]

theorem upTo_append_beyond (h : Increasing key l) (cursor : ℕ) :
    upTo key cursor l ++ beyond key cursor l = l := by
  induction l with
  | nil => rfl
  | cons a l ih =>
    obtain ⟨ha, hl⟩ := pairwise_cons.mp h
    by_cases hle : key a ≤ cursor
    · have hup : upTo key cursor (a :: l) = a :: upTo key cursor l := by simp [upTo, hle]
      have hbehind : beyond key cursor (a :: l) = beyond key cursor l := by
        simp [beyond, Nat.not_lt_of_le hle]
      rw [hup, hbehind, cons_append, ih hl]
    · have hall : ∀ b ∈ a :: l, cursor < key b := by
        intro b hb
        obtain rfl | hb := mem_cons.mp hb
        · exact Nat.lt_of_not_le hle
        · exact Nat.lt_trans (Nat.lt_of_not_le hle) (ha b hb)
      rw [upTo_eq_nil hall, beyond_eq_self hall, nil_append]

theorem upTo_isPrefix (h : Increasing key l) (cursor : ℕ) : upTo key cursor l <+: l := by
  have hsplit := upTo_append_beyond h cursor
  exact ⟨beyond key cursor l, hsplit⟩

theorem upTo_page (h : Increasing key l) {page : List α} (hpage : page <+: beyond key cursor l)
    {a : α} (ha : page.getLast? = some a) : upTo key (key a) l = upTo key cursor l ++ page := by
  obtain ⟨rest, hrest⟩ := hpage
  obtain ⟨init, rfl⟩ := List.getLast?_eq_some_iff.mp ha
  have hbehind : Increasing key (beyond key cursor l) := List.Pairwise.filter _ h
  rw [← hrest] at hbehind
  obtain ⟨hinit, -, hlt⟩ := pairwise_append.mp hbehind
  have hcursor : cursor < key a := by
    have hmem : a ∈ beyond key cursor l := by
      rw [← hrest]
      simp
    exact (mem_beyond.mp hmem).2
  have hsplit := upTo_append_beyond h cursor
  have hread : upTo key (key a) (upTo key cursor l) = upTo key cursor l := by
    apply upTo_eq_self
    intro b hb
    have hle : key b ≤ cursor := by simpa [upTo] using (mem_filter.mp hb).2
    exact Nat.le_of_lt (Nat.lt_of_le_of_lt hle hcursor)
  have htaken : upTo key (key a) (init ++ [a]) = init ++ [a] := by
    apply upTo_eq_self
    intro b hb
    obtain hb | hb := mem_append.mp hb
    · exact Nat.le_of_lt ((pairwise_append.mp hinit).2.2 b hb a (mem_singleton.mpr rfl))
    · exact Nat.le_of_eq (congrArg key (mem_singleton.mp hb))
  have hleft : upTo key (key a) rest = [] := upTo_eq_nil fun b hb => hlt a (by simp) b hb
  calc upTo key (key a) l
      = upTo key (key a) (upTo key cursor l ++ (init ++ [a] ++ rest)) := by rw [hrest, hsplit]
    _ = upTo key cursor l ++ (init ++ [a]) := by
      rw [upTo_append, upTo_append, hread, htaken, hleft, append_nil]

theorem beyond_beyond {cursor' : ℕ} (h : cursor ≤ cursor') (l : List α) :
    beyond key cursor' (beyond key cursor l) = beyond key cursor' l := by
  unfold beyond
  rw [filter_filter]
  refine filter_congr fun a _ => ?_
  by_cases ha : cursor' < key a
  · simp [ha, Nat.lt_of_le_of_lt h ha]
  · simp [ha]

end

/-! ## Listings -/

section
variable {π γ : Type} (next : π → Option γ) (fetch : Option γ → π)

/-- The pages that are fetched from a cursor on until a page has no cursor. -/
inductive Listing : Option γ → List π → Prop
  | last {cursor : Option γ} : next (fetch cursor) = none → Listing cursor [fetch cursor]
  | more {cursor : Option γ} {c : γ} {pages : List π} : next (fetch cursor) = some c →
      Listing (some c) pages → Listing cursor (fetch cursor :: pages)

variable {next fetch}

theorem Listing.unique {cursor : Option γ} {pages pages' : List π}
    (h : Listing next fetch cursor pages) (h' : Listing next fetch cursor pages') :
    pages = pages' := by
  induction h generalizing pages' with
  | last hnone =>
    cases h' with
    | last => rfl
    | more hsome => rw [hnone] at hsome; cases hsome
  | more hsome hrest ih =>
    cases h' with
    | last hnone => rw [hnone] at hsome; cases hsome
    | more hsome' hrest' =>
      rw [hsome] at hsome'
      cases hsome'
      rw [ih hrest']

theorem Listing.exists_cursor {cursor : Option γ} {pages : List π}
    (h : Listing next fetch cursor pages) : ∀ page ∈ pages, ∃ cursor, page = fetch cursor := by
  induction h with
  | @last cursor hnone => exact fun page hpage => ⟨cursor, mem_singleton.mp hpage⟩
  | @more cursor c pages hsome hrest ih =>
    intro page hpage
    rcases mem_cons.mp hpage with rfl | hpage
    · exact ⟨cursor, rfl⟩
    · exact ih page hpage

theorem Listing.not_of_self {c : γ} (hself : next (fetch (some c)) = some c) {pages : List π} :
    ¬ Listing next fetch (some c) pages := by
  intro h
  generalize hcursor : some c = cursor at h
  induction h with
  | last hnone =>
    subst hcursor
    rw [hself] at hnone
    cases hnone
  | more hsome hrest ih =>
    subst hcursor
    rw [hself] at hsome
    exact ih hsome

end

section
variable {π π' γ κ : Type} {next : π → Option κ} {fetch : Option κ → π} {next' : π' → Option γ}
  {fetch' : Option γ → π'} {e : γ → κ} {R : π' → π → Prop}

theorem Listing.simulates (hfetch : ∀ cursor, R (fetch' cursor) (fetch (cursor.map e)))
    (hnext : ∀ page' page, R page' page → (next' page').map e = next page) {k : Option κ}
    {pages : List π} (h : Listing next fetch k pages) {cursor : Option γ} (hk : k = cursor.map e) :
    ∃ pages', Listing next' fetch' cursor pages' ∧ List.Forall₂ R pages' pages := by
  induction h generalizing cursor with
  | last hnone =>
    subst hk
    have hnext' := hnext _ _ (hfetch cursor)
    rw [hnone] at hnext'
    exact ⟨_, .last (Option.map_eq_none_iff.mp hnext'), .cons (hfetch cursor) .nil⟩
  | more hsome hrest ih =>
    subst hk
    have hnext' := hnext _ _ (hfetch cursor)
    rw [hsome] at hnext'
    obtain ⟨c, hc, rfl⟩ := Option.map_eq_some_iff.mp hnext'
    obtain ⟨pages', hpages', hrel⟩ := @ih (some c) rfl
    exact ⟨_, .more hc hpages', .cons (hfetch cursor) hrel⟩

end

/-! ## Pages of a list -/

variable {α κ : Type} [LinearOrder κ] (key : α → κ) (p : α → Bool) (n : ℕ) (l : List α)

/-- Up to the `n`-th item that is shown, and what is left behind it. -/
def takeShown : ℕ → List α → List α × List α
  | _, [] => ([], [])
  | 0, a :: l => ([], a :: l)
  | n + 1, a :: l =>
    let (seen, rest) := takeShown (if p a then n else n + 1) l
    (a :: seen, rest)

def restBelow : Option κ → List α
  | none => l
  | some c => l.filter fun a => key a < c

structure Page (α κ : Type) where
  shown : List α
  next : Option κ

def pageBelow (cursor : Option κ) : Page α κ :=
  let (seen, rest) := takeShown p n (restBelow key l cursor)
  ⟨seen.filter p, if rest.isEmpty then none else (seen.filter p).getLast?.map key⟩

/-- An item that has the key of the last item of a page and stands behind it. -/
def PassedOver (pages : List (Page α κ)) (a : α) : Prop :=
  ∃ page ∈ pages, ∃ b, page.shown.getLast? = some b ∧ key a = key b ∧ [b, a].Sublist l

variable {key p n l}

theorem takeShown_append (n : ℕ) (l : List α) : (takeShown p n l).1 ++ (takeShown p n l).2 = l := by
  induction l generalizing n with
  | nil => rfl
  | cons a l ih =>
    cases n with
    | zero => rfl
    | succ n =>
      dsimp only [takeShown]
      rw [cons_append, ih]

theorem takeShown_length (n : ℕ) (l : List α) : ((takeShown p n l).1.filter p).length ≤ n := by
  induction l generalizing n with
  | nil => simp [takeShown]
  | cons a l ih =>
    cases n with
    | zero => simp [takeShown]
    | succ n =>
      dsimp only [takeShown]
      by_cases ha : p a = true
      · have hlen := ih n
        simp [ha]
        omega
      · have hlen := ih (n + 1)
        simp [ha]
        omega

theorem pageBelow_length (cursor : Option κ) : (pageBelow key p n l cursor).shown.length ≤ n :=
  takeShown_length n _

theorem takeShown_ends (hn : 0 < n) (hrest : (takeShown p n l).2 ≠ []) :
    ∃ init b, (takeShown p n l).1 = init ++ [b] ∧ p b = true := by
  induction l generalizing n with
  | nil => exact absurd rfl hrest
  | cons a l ih =>
    obtain ⟨n, rfl⟩ := Nat.exists_eq_succ_of_ne_zero (Nat.ne_of_gt hn)
    dsimp only [takeShown] at hrest ⊢
    by_cases ha : p a = true
    · rw [if_pos ha] at hrest ⊢
      rcases Nat.eq_zero_or_pos n with rfl | hpos
      · refine ⟨[], a, ?_, ha⟩
        cases l with
        | nil | cons b l => rfl
      · obtain ⟨init, b, hseen, hb⟩ := ih hpos hrest
        exact ⟨a :: init, b, by rw [hseen]; rfl, hb⟩
    · rw [if_neg ha] at hrest ⊢
      obtain ⟨init, b, hseen, hb⟩ := ih (Nat.succ_pos n) hrest
      exact ⟨a :: init, b, by rw [hseen]; rfl, hb⟩

variable (key) in
theorem pageBelow_cases (hn : 0 < n) (cursor : Option κ) :
    pageBelow key p n l cursor = ⟨(restBelow key l cursor).filter p, none⟩ ∨
      ∃ init b rest, restBelow key l cursor = init ++ b :: rest ∧ p b = true ∧
        pageBelow key p n l cursor = ⟨init.filter p ++ [b], some (key b)⟩ := by
  have happend := takeShown_append (p := p) n (restBelow key l cursor)
  unfold pageBelow
  dsimp only
  cases hrest : (takeShown p n (restBelow key l cursor)).2 with
  | nil =>
    rw [hrest, append_nil] at happend
    exact .inl (by simp [happend])
  | cons a rest =>
    obtain ⟨init, b, hseen, hb⟩ := takeShown_ends hn (by rw [hrest]; simp)
    rw [hseen, hrest, List.append_assoc] at happend
    exact .inr ⟨init, b, a :: rest, happend.symm, hb, by simp [hseen, hb]⟩

variable (key) in
theorem restBelow_sublist (cursor : Option κ) : (restBelow key l cursor).Sublist l := by
  cases cursor with
  | none => exact .refl l
  | some c => exact filter_sublist

theorem mem_restBelow {c : κ} {a : α} : a ∈ restBelow key l (some c) ↔ a ∈ l ∧ key a < c := by
  simp [restBelow]

theorem not_behind_and_before {a b : α} (hnodup : l.Nodup) (h : [a, b].Sublist l)
    (h' : [b, a].Sublist l) : False := by
  induction l with
  | nil => cases h
  | cons c l ih =>
    obtain ⟨hc, hl⟩ := nodup_cons.mp hnodup
    cases h with
    | cons _ h =>
      cases h' with
      | cons _ h' => exact ih hl h h'
      | cons_cons _ h' => exact hc (h.subset (by simp))
    | cons_cons _ h =>
      cases h' with
      | cons _ h' => exact hc (h'.subset (by simp))
      | cons_cons _ h' => exact hc (h.subset (by simp))

theorem not_behind {x y : List α} {a b : α} (hnodup : l.Nodup) (hsub : (x ++ b :: y).Sublist l)
    (ha : a ∈ x ++ [b]) : ¬ [b, a].Sublist l := by
  intro h
  rcases mem_append.mp ha with ha | ha
  · refine not_behind_and_before hnodup (List.Sublist.trans ?_ hsub) h
    exact (singleton_sublist.mpr ha).append (singleton_sublist.mpr (by simp))
  · obtain rfl := mem_singleton.mp ha
    exact absurd (hnodup.sublist h) (by simp)

variable (hsorted : l.Pairwise fun a b => key b ≤ key a)
include hsorted

variable {cursor : Option κ}

theorem restBelow_next {init rest : List α} {b : α}
    (hbelow : restBelow key l cursor = init ++ b :: rest) :
    restBelow key l (some (key b)) = rest.filter fun a => key a < key b := by
  have hmem : b ∈ restBelow key l cursor := by rw [hbelow]; simp
  have hsame : restBelow key l (some (key b)) =
      (restBelow key l cursor).filter fun a => key a < key b := by
    cases cursor with
    | none => rfl
    | some c =>
      have hlt := (mem_restBelow.mp hmem).2
      unfold restBelow
      rw [filter_filter]
      apply filter_congr
      intro a _
      rw [← Bool.decide_and]
      exact decide_eq_decide.mpr ⟨fun ha => ⟨ha, lt_trans ha hlt⟩, fun ha => ha.1⟩
  have hpairs := hsorted.sublist (restBelow_sublist key cursor)
  rw [hbelow] at hpairs
  have hfront : ∀ a ∈ init, key b ≤ key a := fun a ha =>
    (pairwise_append.mp hpairs).2.2 a ha b (by simp)
  have hnone : init.filter (fun a => key a < key b) = [] :=
    filter_eq_nil_iff.mpr fun a ha => by simpa using hfront a ha
  rw [hsame, hbelow, filter_append, hnone]
  simp

theorem exists_listing (hn : 0 < n) (cursor : Option κ) :
    ∃ pages, Listing Page.next (pageBelow key p n l) cursor pages := by
  induction hlen : (restBelow key l cursor).length using Nat.strongRecOn generalizing cursor with
  | ind len ih =>
    rcases pageBelow_cases (p := p) (l := l) key hn cursor with
      hpage | ⟨init, b, rest, hbelow, hb, hpage⟩
    · exact ⟨_, .last (by rw [hpage])⟩
    · have hshort : (restBelow key l (some (key b))).length < len := by
        rw [restBelow_next hsorted hbelow, ← hlen, hbelow]
        have hle := length_filter_le (fun a => decide (key a < key b)) rest
        simp
        omega
      obtain ⟨pages, hpages⟩ := ih _ hshort (some (key b)) rfl
      exact ⟨_, .more (by rw [hpage]) hpages⟩

theorem Listing.sublist (hn : 0 < n) {pages : List (Page α κ)}
    (h : Listing Page.next (pageBelow key p n l) cursor pages) :
    (pages.flatMap Page.shown).Sublist ((restBelow key l cursor).filter p) := by
  induction h with
  | @last cursor hnone =>
    rcases pageBelow_cases (p := p) (l := l) key hn cursor with
      hpage | ⟨init, b, rest, hbelow, hb, hpage⟩
    · rw [hpage]
      simp
    · rw [hpage] at hnone
      cases hnone
  | @more cursor c pages hsome hrest ih =>
    rcases pageBelow_cases (p := p) (l := l) key hn cursor with
      hpage | ⟨init, b, rest, hbelow, hb, hpage⟩
    · rw [hpage] at hsome
      cases hsome
    · rw [hpage] at hsome
      cases hsome
      rw [restBelow_next hsorted hbelow] at ih
      have hbehind := ih.trans ((filter_sublist (l := rest)).filter p)
      rw [flatMap_cons, hpage, hbelow, filter_append, filter_cons_of_pos hb]
      simpa using hbehind

theorem Listing.mem_iff (hnodup : l.Nodup) (hn : 0 < n) {pages : List (Page α κ)}
    (h : Listing Page.next (pageBelow key p n l) cursor pages) {a : α}
    (ha : a ∈ restBelow key l cursor) (hp : p a = true) :
    a ∈ pages.flatMap Page.shown ↔ ¬ PassedOver key l pages a := by
  induction h with
  | @last cursor hnone =>
    rcases pageBelow_cases (p := p) (l := l) key hn cursor with
      hpage | ⟨init, b, rest, hbelow, hb, hpage⟩
    · have hshown : a ∈ (restBelow key l cursor).filter p := mem_filter.mpr ⟨ha, hp⟩
      rw [hpage]
      refine iff_of_true (by simpa using hshown) fun ⟨page, hmem, b, hlast, hkey, hbehind⟩ => ?_
      obtain rfl := mem_singleton.mp hmem
      obtain ⟨x, hx⟩ := List.getLast?_eq_some_iff.mp hlast
      have hsub : (x ++ [b]).Sublist l := hx ▸ filter_sublist.trans (restBelow_sublist key cursor)
      exact not_behind hnodup hsub (hx ▸ hshown) hbehind
    · rw [hpage] at hnone
      cases hnone
  | @more cursor c pages hsome hrest ih =>
    rcases pageBelow_cases (p := p) (l := l) key hn cursor with
      hpage | ⟨init, b, rest, hbelow, hb, hpage⟩
    · rw [hpage] at hsome
      cases hsome
    · rw [hpage] at hsome ⊢
      cases hsome
      have hlater : ∀ x ∈ pages.flatMap Page.shown, x ∈ rest ∧ key x < key b := by
        intro x hx
        have hx' := (hrest.sublist hsorted hn).subset hx
        rw [restBelow_next hsorted hbelow] at hx'
        simpa using (mem_filter.mp hx').1
      have hsub : (init ++ b :: rest).Sublist l := hbelow ▸ restBelow_sublist key cursor
      have hpairs := pairwise_append.mp (hsorted.sublist hsub)
      have hpassed : PassedOver key l (⟨init.filter p ++ [b], some (key b)⟩ :: pages) a ↔
          (key a = key b ∧ [b, a].Sublist l) ∨ PassedOver key l pages a := by
        simp [PassedOver]
      have hlow : PassedOver key l pages a → key a < key b := by
        rintro ⟨page, hpage', b', hlast, hkey, -⟩
        rw [hkey]
        have hshown := mem_flatMap.mpr ⟨page, hpage', mem_of_getLast? hlast⟩
        exact (hlater b' hshown).2
      rw [hpassed, flatMap_cons, mem_append]
      have hfront : (a ∈ init ++ [b]) ∨ a ∈ rest := by
        rw [hbelow] at ha
        simpa [or_assoc] using ha
      rcases hfront with hfront | hrest'
      · -- what the page goes through is shown, and stands in front of its last item
        have hle : key b ≤ key a := by
          rcases mem_append.mp hfront with hinit | hself
          · exact hpairs.2.2 a hinit b (by simp)
          · rw [mem_singleton.mp hself]
        refine iff_of_true (.inl ?_) (not_or.mpr ⟨fun h => ?_, fun h => ?_⟩)
        · simpa [hp] using hfront
        · exact not_behind hnodup hsub hfront h.2
        · exact absurd (hlow h) (not_lt_of_ge hle)
      · have hbehind : [b, a].Sublist l :=
          ((singleton_sublist.mpr hrest').cons_cons b).trans
            ((sublist_append_right init _).trans hsub)
        have hnew : a ∉ init.filter p ++ [b] := by
          intro h
          refine not_behind hnodup hsub ?_ hbehind
          exact ((filter_sublist (l := init)).append (.refl [b])).subset h
        rcases lt_or_eq_of_le ((pairwise_cons.mp hpairs.2.1).1 a hrest') with hlt | heq
        · have hnext : a ∈ restBelow key l (some (key b)) := by
            rw [restBelow_next hsorted hbelow]
            simp [hrest', hlt]
          have hih := ih hnext
          simp [hnew, ne_of_lt hlt, hih]
        · have hmissing : a ∉ pages.flatMap Page.shown := fun h =>
            absurd (hlater a h).2 (by rw [heq]; exact lt_irrefl _)
          simp [hnew, hmissing, heq, hbehind]

end Foundation
