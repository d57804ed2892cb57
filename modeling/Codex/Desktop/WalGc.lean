import Codex.Foundation.Retention
import Codex.Foundation.Text
import Mathlib.Data.List.Sort
import Mathlib.Algebra.Order.Ring.Int

/-!
# Collection of completed turn logs

In each directory the files that end in `.done` are listed by age. Those older than the
cutoff are removed; then, while the sizes in the listing exceed the quota, the oldest that is
still there. The listing is not updated in between, so what the first pass removed counts
again in the second one (`gc_iff`).
-/

namespace Codex.Desktop

open Foundation List

structure LogFile where
  name : Text
  mtime : ℤ
  size : UInt64
deriving DecidableEq

/-- The files of a thread in the order they are read; a name stands for one file. -/
structure ThreadDir where
  files : List LogFile
  distinct : (files.map (·.name)).Nodup

structure WalConfig where
  retention : ℕ
  threadQuotaBytes : UInt64

/-- What stands behind the last dot of a name, unless the name begins with it. -/
def extension (name : Text) : Option Text :=
  match rsplitOnce '.' name with
  | some (stem, ext) => if stem = [] then none else some ext
  | none => none

def LogFile.isDone (f : LogFile) : Bool := extension f.name = some "done".toList

/-- The name is one that `complete` gives. -/
def LogFile.isCompleted (f : LogFile) : Bool := ".wal.done".toList.isSuffixOf f.name

def LogFile.bytes (f : LogFile) : ℕ := f.size.toNat

/-- The time in front of which a log is too old; a time that no clock shows becomes the epoch. -/
def cutoff (now : ℤ) (retention : ℕ) : ℤ :=
  if now - retention < -2 ^ 63 * 10 ^ 9 then 0 else now - retention

/-! ## Removing -/

structure GcState where
  files : List LogFile
  removed : ℕ

def GcState.removeFile (s : GcState) (name : Text) : Option GcState :=
  if s.files.any (·.name = name) then some ⟨s.files.filter (·.name ≠ name), s.removed + 1⟩ else none

def retentionPrune (cutoff : ℤ) (s : GcState) (listing : List LogFile) : GcState :=
  listing.foldl (fun s f => if f.mtime < cutoff then (s.removeFile f.name).getD s else s) s

def quotaPrune : ℕ → GcState → List LogFile → GcState
  | _, s, [] => s
  | toFree, s, f :: listing =>
    if toFree = 0 then s
    else
      match s.removeFile f.name with
      | some s => quotaPrune (toFree - f.bytes) s listing
      | none => quotaPrune toFree s listing

def sortByMtime (files : List LogFile) : List LogFile :=
  files.insertionSort fun f g => f.mtime ≤ g.mtime

def sumSizes (listing : List LogFile) : Option ℕ :=
  let total := weightOf LogFile.bytes listing
  if total < UInt64.size then some total else none

def gcThread (cfg : WalConfig) (now : ℤ) (s : GcState) : Option GcState :=
  let listing := sortByMtime (s.files.filter (·.isDone))
  let s := retentionPrune (cutoff now cfg.retention) s listing
  match sumSizes listing with
  | none => none
  | some total =>
    if cfg.threadQuotaBytes.toNat < total then
      some (quotaPrune (total - cfg.threadQuotaBytes.toNat) s listing)
    else some s

def gcThreads (cfg : WalConfig) (now : ℤ) :
    List ThreadDir → ℕ → Option (List (List LogFile) × ℕ)
  | [], removed => some ([], removed)
  | dir :: dirs, removed =>
    match gcThread cfg now ⟨dir.files, removed⟩ with
    | none => none
    | some s => (gcThreads cfg now dirs s.removed).map fun (rest, removed) => (s.files :: rest, removed)

def gc (cfg : WalConfig) (now : ℤ) (root : Option (List ThreadDir)) :
    Option (List (List LogFile) × ℕ) :=
  gcThreads cfg now (root.getD []) 0

def completedLogs (files : List LogFile) : List LogFile := files.filter (·.isCompleted)

/-- The logs that the retention rule keeps and that are at least as new as the file. -/
def atLeastAsNew (cutoff : ℤ) (files : List LogFile) (f : LogFile) : List LogFile :=
  (completedLogs files).filter fun g => cutoff ≤ g.mtime ∧ f.mtime ≤ g.mtime

structure Collected (cutoff : ℤ) (quota : ℕ) (before after : List LogFile) : Prop where
  untouched : ∀ f ∈ before, f.isCompleted = false → f ∈ after
  nothingNew : after.Sublist before
  fresh : ∀ f ∈ completedLogs after, cutoff ≤ f.mtime
  withinQuota : weightOf LogFile.bytes (completedLogs after) ≤ quota
  newest : ∃ older newer : List LogFile, (older ++ newer).Pairwise (fun f g => f.mtime ≤ g.mtime) ∧
    (older ++ newer).Perm (completedLogs before) ∧ newer.Perm (completedLogs after)
  needed : ∀ f ∈ completedLogs before, cutoff ≤ f.mtime → f ∉ after →
    quota < weightOf LogFile.bytes (atLeastAsNew cutoff before f)

def retained (cutoff : ℤ) (files : List LogFile) : List LogFile :=
  (sortByMtime (files.filter (·.isDone))).filter (cutoff ≤ ·.mtime)

def expired (cutoff : ℤ) (files : List LogFile) : List LogFile :=
  (sortByMtime (files.filter (·.isDone))).filter (·.mtime < cutoff)

/-- With all that is expired, the files of the listing from this one on fit the quota. -/
def Spared (cutoff : ℤ) (quota : ℕ) (files : List LogFile) (f : LogFile) : Prop :=
  weightOf LogFile.bytes (expired cutoff files) +
    weightOf LogFile.bytes ((retained cutoff files).dropWhile (· ≠ f)) ≤ quota

/-- The sizes can be added, files that are no logs are not in the way, and the logs that
fit the quota fit it with all that is expired. -/
structure CountedOnce (cutoff : ℤ) (quota : ℕ) (files : List LogFile) : Prop where
  noOverflow : weightOf LogFile.bytes (files.filter (·.isDone)) < UInt64.size
  strays : ∀ f ∈ files, f.isDone = true → f.isCompleted = false →
    cutoff ≤ f.mtime ∧ Spared cutoff quota files f
  logs : ∀ f ∈ completedLogs files, cutoff ≤ f.mtime →
    weightOf LogFile.bytes (atLeastAsNew cutoff files f) ≤ quota → Spared cutoff quota files f

/-! ## What a pass removes -/

def without (files gone : List LogFile) : List LogFile := files.filter (· ∉ gone)

theorem mem_without {files gone : List LogFile} {f : LogFile} :
    f ∈ without files gone ↔ f ∈ files ∧ f ∉ gone := by
  simp [without]

section
variable {files gone listing : List LogFile} {f : LogFile} {n : ℕ}
  (hfiles : (files.map (·.name)).Nodup)
include hfiles

theorem same_file {g : LogFile} (hf : f ∈ files) (hg : g ∈ files) (h : g.name = f.name) : g = f :=
  inj_on_of_nodup_map hfiles hg hf h

theorem removeFile_present (hf : f ∈ files) (hgone : f ∉ gone) :
    GcState.removeFile ⟨without files gone, n⟩ f.name =
      some ⟨without files (gone ++ [f]), n + 1⟩ := by
  have hany : (without files gone).any (·.name = f.name) = true :=
    any_eq_true.mpr ⟨f, mem_without.mpr ⟨hf, hgone⟩, decide_eq_true rfl⟩
  have hfilter : (without files gone).filter (·.name ≠ f.name) = without files (gone ++ [f]) := by
    unfold without
    rw [filter_filter]
    refine filter_congr fun g hg => ?_
    have hname : g.name = f.name ↔ g = f :=
      ⟨same_file hfiles hf hg, fun h => congrArg LogFile.name h⟩
    simp [hname, and_comm]
  unfold GcState.removeFile
  rw [if_pos hany, hfilter]

theorem removeFile_gone (hf : f ∈ files) (hgone : f ∈ gone) :
    GcState.removeFile ⟨without files gone, n⟩ f.name = none := by
  unfold GcState.removeFile
  rw [if_neg]
  intro hany
  obtain ⟨g, hg, hname⟩ := any_eq_true.mp hany
  obtain ⟨hmem, hnot⟩ := mem_without.mp hg
  rw [same_file hfiles hf hmem (of_decide_eq_true hname)] at hnot
  exact hnot hgone

theorem retentionPrune_eq (cutoff : ℤ) (hlisting : ∀ f ∈ listing, f ∈ files ∧ f ∉ gone)
    (hnodup : listing.Nodup) : retentionPrune cutoff ⟨without files gone, n⟩ listing =
      ⟨without files (gone ++ listing.filter (·.mtime < cutoff)),
        n + (listing.filter (·.mtime < cutoff)).length⟩ := by
  induction listing generalizing gone n with
  | nil => simp [retentionPrune]
  | cons f listing ih =>
    obtain ⟨hf, hgone⟩ := hlisting f mem_cons_self
    obtain ⟨hfirst, hnodup⟩ := nodup_cons.mp hnodup
    have hrest : ∀ g ∈ listing, g ∈ files ∧ g ∉ gone :=
      fun g hg => hlisting g (mem_cons_of_mem _ hg)
    unfold retentionPrune at ih ⊢
    rw [foldl_cons]
    by_cases hold : f.mtime < cutoff
    · rw [if_pos hold, removeFile_present hfiles hf hgone, Option.getD_some,
        filter_cons_of_pos (by simpa using hold), ih ?_ hnodup]
      · simp only [List.append_assoc, singleton_append, length_cons]
        rw [Nat.add_assoc n 1, Nat.add_comm 1]
      · intro g hg
        refine ⟨(hrest g hg).1, ?_⟩
        rw [mem_append, mem_singleton, not_or]
        exact ⟨(hrest g hg).2, fun h => hfirst (h ▸ hg)⟩
    · rw [if_neg hold, filter_cons_of_neg (by simpa using hold), ih hrest hnodup]

theorem quotaPrune_eq (toFree : ℕ) (hlisting : ∀ f ∈ listing, f ∈ files) (hnodup : listing.Nodup) :
    quotaPrune toFree ⟨without files gone, n⟩ listing =
      ⟨without files (gone ++ givenUp LogFile.bytes toFree (listing.filter (· ∉ gone))),
        n + (givenUp LogFile.bytes toFree (listing.filter (· ∉ gone))).length⟩ := by
  induction listing generalizing gone n toFree with
  | nil => simp [quotaPrune, givenUp]
  | cons f listing ih =>
    obtain ⟨hfirst, hnodup⟩ := nodup_cons.mp hnodup
    have hrest : ∀ g ∈ listing, g ∈ files := fun g hg => hlisting g (mem_cons_of_mem _ hg)
    have hf := hlisting f mem_cons_self
    rw [quotaPrune]
    by_cases hzero : toFree = 0
    · subst hzero
      rw [if_pos rfl, givenUp_zero]
      simp
    · rw [if_neg hzero]
      by_cases hgone : f ∈ gone
      · rw [removeFile_gone hfiles hf hgone, filter_cons_of_neg (by simpa using hgone)]
        exact ih toFree hrest hnodup
      · have hothers : listing.filter (· ∉ gone ++ [f]) = listing.filter (· ∉ gone) := by
          refine filter_congr fun g hg => ?_
          have hne : g ≠ f := fun h => hfirst (h ▸ hg)
          simp [hne]
        rw [removeFile_present hfiles hf hgone, filter_cons_of_pos (by simpa using hgone),
          givenUp, if_neg hzero]
        simp only
        rw [ih (toFree - f.bytes) hrest hnodup, hothers]
        simp only [List.append_assoc, singleton_append, length_cons]
        rw [Nat.add_assoc n 1, Nat.add_comm 1]

end

/-! ## The listing -/

def listing (files : List LogFile) : List LogFile := sortByMtime (files.filter (·.isDone))

theorem listing_perm (files : List LogFile) : (listing files).Perm (files.filter (·.isDone)) :=
  perm_insertionSort _ _

variable {files : List LogFile} {f : LogFile}

theorem mem_listing : f ∈ listing files ↔ f ∈ files ∧ f.isDone = true := by
  rw [(listing_perm files).mem_iff, mem_filter]

theorem listing_sorted (files : List LogFile) :
    (listing files).Pairwise fun f g => f.mtime ≤ g.mtime :=
  List.pairwise_insertionSort _ _

theorem expired_append_retained (cutoff : ℤ) (files : List LogFile) :
    expired cutoff files ++ retained cutoff files = listing files := by
  have hsplit : ∀ l : List LogFile, l.Pairwise (fun f g => f.mtime ≤ g.mtime) →
      l.filter (·.mtime < cutoff) ++ l.filter (cutoff ≤ ·.mtime) = l := by
    intro l hl
    induction l with
    | nil => rfl
    | cons f l ih =>
      obtain ⟨hle, hl⟩ := pairwise_cons.mp hl
      by_cases hold : f.mtime < cutoff
      · rw [filter_cons_of_pos (by simpa using hold),
          filter_cons_of_neg (by simpa using hold), cons_append, ih hl]
      · have hnone : (f :: l).filter (·.mtime < cutoff) = [] := by
          refine filter_eq_nil_iff.mpr fun g hg => ?_
          rcases mem_cons.mp hg with rfl | hg
          · simpa using hold
          · have hfg := hle g hg
            simp only [decide_eq_true_eq]
            omega
        have hall : (f :: l).filter (cutoff ≤ ·.mtime) = f :: l := by
          refine filter_eq_self.mpr fun g hg => ?_
          rcases mem_cons.mp hg with rfl | hg
          · simpa using hold
          · have hfg := hle g hg
            simp only [decide_eq_true_eq]
            omega
        rw [hnone, hall, nil_append]
  exact hsplit _ (listing_sorted files)

theorem mem_retained {cutoff : ℤ} :
    f ∈ retained cutoff files ↔ f ∈ files ∧ f.isDone = true ∧ cutoff ≤ f.mtime := by
  unfold retained
  rw [mem_filter, ← and_assoc, ← mem_listing, decide_eq_true_eq]
  rfl

theorem mem_expired {cutoff : ℤ} :
    f ∈ expired cutoff files ↔ f ∈ files ∧ f.isDone = true ∧ f.mtime < cutoff := by
  unfold expired
  rw [mem_filter, ← and_assoc, ← mem_listing, decide_eq_true_eq]
  rfl

theorem isDone_of_isCompleted (h : f.isCompleted = true) : f.isDone = true := by
  obtain ⟨stem, hstem⟩ := isSuffixOf_iff_suffix.mp h
  have hname : f.name = (stem ++ ".wal".toList) ++ '.' :: "done".toList := by
    rw [← hstem, List.append_assoc]
    rfl
  have hne : stem ++ ".wal".toList ≠ [] := by
    intro hnil
    exact absurd (append_eq_nil_iff.mp hnil).2 (by decide)
  unfold LogFile.isDone extension
  rw [hname, rsplitOnce_append (by decide)]
  simp only [if_neg hne]
  decide

/-! ## One directory -/

section
variable {cfg : WalConfig} {now : ℤ} {files : List LogFile} {n : ℕ}

def overQuota (cutoff : ℤ) (quota : ℕ) (files : List LogFile) : List LogFile :=
  givenUp LogFile.bytes
    (weightOf LogFile.bytes (expired cutoff files) +
      weightOf LogFile.bytes (retained cutoff files) - quota) (retained cutoff files)

variable (hfiles : (files.map (·.name)).Nodup)
include hfiles

theorem listing_nodup : (listing files).Nodup :=
  (listing_perm files).nodup_iff.mpr (List.Nodup.filter _ (List.Nodup.of_map _ hfiles))

theorem gcThread_eq : gcThread cfg now ⟨files, n⟩ =
      if weightOf LogFile.bytes (files.filter (·.isDone)) < UInt64.size then
        some ⟨without files (expired (cutoff now cfg.retention) files ++
            overQuota (cutoff now cfg.retention) cfg.threadQuotaBytes.toNat files),
          n + (expired (cutoff now cfg.retention) files).length +
            (overQuota (cutoff now cfg.retention) cfg.threadQuotaBytes.toNat files).length⟩
      else none := by
  have hall : without files [] = files := by simp [without]
  have hmem : ∀ f ∈ listing files, f ∈ files := fun f hf => (mem_listing.mp hf).1
  have hretention := @retentionPrune_eq files [] (listing files) n hfiles
    (cutoff now cfg.retention) (fun f hf => ⟨hmem f hf, not_mem_nil⟩) (listing_nodup hfiles)
  rw [hall, nil_append] at hretention
  have hrest : (listing files).filter (· ∉ expired (cutoff now cfg.retention) files) =
      retained (cutoff now cfg.retention) files := by
    refine filter_congr fun f hf => ?_
    obtain ⟨hfile, hdone⟩ := mem_listing.mp hf
    simp [mem_expired, hfile, hdone]
  have hquota := fun toFree => @quotaPrune_eq files (expired (cutoff now cfg.retention) files)
    (listing files) (n + (expired (cutoff now cfg.retention) files).length) hfiles toFree hmem
    (listing_nodup hfiles)
  rw [hrest] at hquota
  have htotal : weightOf LogFile.bytes (listing files) =
      weightOf LogFile.bytes (files.filter (·.isDone)) := weightOf_perm _ (listing_perm files)
  have hsplit : weightOf LogFile.bytes (listing files) =
      weightOf LogFile.bytes (expired (cutoff now cfg.retention) files) +
        weightOf LogFile.bytes (retained (cutoff now cfg.retention) files) := by
    rw [← expired_append_retained (cutoff now cfg.retention), weightOf_append]
  have hgc : gcThread cfg now ⟨files, n⟩ =
      match sumSizes (listing files) with
      | none => none
      | some total =>
        if cfg.threadQuotaBytes.toNat < total then
          some (quotaPrune (total - cfg.threadQuotaBytes.toNat)
            (retentionPrune (cutoff now cfg.retention) ⟨files, n⟩ (listing files)) (listing files))
        else some (retentionPrune (cutoff now cfg.retention) ⟨files, n⟩ (listing files)) := rfl
  rw [hgc, hretention, ← htotal]
  unfold sumSizes
  by_cases hfits : weightOf LogFile.bytes (listing files) < UInt64.size
  · rw [if_pos hfits, if_pos hfits]
    simp only
    by_cases hover : cfg.threadQuotaBytes.toNat < weightOf LogFile.bytes (listing files)
    · rw [if_pos hover, overQuota, ← hsplit]
      exact congrArg some (hquota _)
    · have hnone : overQuota (cutoff now cfg.retention) cfg.threadQuotaBytes.toNat files = [] := by
        rw [overQuota, ← hsplit, Nat.sub_eq_zero_of_le (Nat.le_of_not_lt hover), givenUp_zero]
      rw [if_neg hover, hnone, append_nil]
      rfl
  · rw [if_neg hfits, if_neg hfits]

section
variable {c : ℤ} {quota : ℕ}

theorem retained_nodup : (retained c files).Nodup := List.Nodup.filter _ (listing_nodup hfiles)

theorem retained_split (c : ℤ) (quota : ℕ) : ∃ kept,
    retained c files = overQuota c quota files ++ kept ∧
      weightOf LogFile.bytes kept ≤ quota ∧
      ∀ f ∈ retained c files, f ∈ overQuota c quota files ↔ ¬ Spared c quota files f := by
  obtain ⟨kept, hsplit, hmore, henough⟩ := givenUp_spec LogFile.bytes
    (weightOf LogFile.bytes (expired c files) + weightOf LogFile.bytes (retained c files) - quota)
    (retained c files)
  have hnodup : (retained c files).Nodup := retained_nodup hfiles
  change retained c files = overQuota c quota files ++ kept at hsplit
  change _ → _ ≤ weightOf LogFile.bytes (overQuota c quota files) at henough
  have htotal := congrArg (weightOf LogFile.bytes) hsplit
  rw [weightOf_append] at htotal
  rw [hsplit] at hnodup
  have hkept : kept ≠ [] → weightOf LogFile.bytes (expired c files) +
      weightOf LogFile.bytes kept ≤ quota := by
    intro hne
    have hle := henough hne
    omega
  refine ⟨kept, hsplit, ?_, fun f hf => ?_⟩
  · by_cases hne : kept = []
    · rw [hne]
      exact Nat.zero_le _
    · have hle := hkept hne
      omega
  · constructor
    · intro hover hspared
      obtain ⟨pre, post, hpre⟩ := append_of_mem hover
      have hlt := hmore pre f post hpre
      have hnot : ∀ g ∈ pre, (decide (g ≠ f)) = true := by
        intro g hg
        rw [hpre] at hnodup
        have hne : g ≠ f := by
          rintro rfl
          have hpair := (nodup_append'.mp (nodup_append'.mp hnodup).1).2.2
          exact hpair hg mem_cons_self
        simpa using hne
      have hdrop : (retained c files).dropWhile (· ≠ f) = f :: post ++ kept := by
        rw [hsplit, hpre, List.append_assoc, dropWhile_append_of_pos hnot]
        simp
      have hweight := congrArg (weightOf LogFile.bytes) hpre
      unfold Spared at hspared
      rw [hdrop, weightOf_append] at hspared
      rw [weightOf_append] at hweight
      omega
    · intro hnot
      by_contra hover
      have hmem : f ∈ kept := (mem_append.mp (hsplit ▸ hf)).resolve_left hover
      have hpos : ∀ g ∈ overQuota c quota files, (decide (g ≠ f)) = true := by
        intro g hg
        have hne : g ≠ f := by
          rintro rfl
          exact hover hg
        simpa using hne
      refine hnot ?_
      have hle := hkept (ne_nil_of_mem hmem)
      have hdrop := weightOf_sublist LogFile.bytes
        (dropWhile_suffix (· ≠ f) : kept.dropWhile (· ≠ f) <:+ kept).sublist
      unfold Spared
      rw [hsplit, dropWhile_append_of_pos hpos]
      omega

theorem collected_of_countedOnce (h : CountedOnce c quota files) :
    Collected c quota files (without files (expired c files ++ overQuota c quota files)) := by
  obtain ⟨kept, hsplit, hquota, hover⟩ := retained_split hfiles c quota
  have hafter : ∀ {f}, f ∈ without files (expired c files ++ overQuota c quota files) ↔
      f ∈ files ∧ f ∉ expired c files ∧ f ∉ overQuota c quota files := by
    intro f
    rw [mem_without, mem_append, not_or]
  have hlisting : listing files = expired c files ++ overQuota c quota files ++ kept := by
    rw [← expired_append_retained c, hsplit, List.append_assoc]
  have hnodup : (expired c files ++ overQuota c quota files ++ kept).Nodup :=
    hlisting ▸ listing_nodup hfiles
  have hnewer : (completedLogs kept).Perm
      (completedLogs (without files (expired c files ++ overQuota c quota files))) := by
    refine (perm_ext_iff_of_nodup ?_ ?_).mpr fun f => ?_
    · exact List.Nodup.filter _ (nodup_append'.mp hnodup).2.1
    · exact List.Nodup.filter _ (List.Nodup.filter _ (List.Nodup.of_map _ hfiles))
    · unfold completedLogs
      rw [mem_filter, mem_filter, hafter]
      refine and_congr_left fun hcompleted => ?_
      have hdone := isDone_of_isCompleted hcompleted
      constructor
      · intro hkept
        have hfront := fun hf => (nodup_append'.mp hnodup).2.2 hf hkept
        rw [mem_append, imp_false, not_or] at hfront
        have hmem : f ∈ listing files := hlisting ▸ mem_append_right _ hkept
        exact ⟨(mem_listing.mp hmem).1, hfront⟩
      · rintro ⟨hf, hnot, hnot'⟩
        have hmem := mem_listing.mpr ⟨hf, hdone⟩
        rw [hlisting, mem_append, mem_append] at hmem
        exact hmem.resolve_left (not_or.mpr ⟨hnot, hnot'⟩)
  constructor
  · intro f hf hcompleted
    rw [hafter]
    by_cases hdone : f.isDone = true
    · obtain ⟨hfresh, hspared⟩ := h.strays f hf hdone hcompleted
      refine ⟨hf, fun hold => ?_, fun hgone => ?_⟩
      · exact absurd (mem_expired.mp hold).2.2 (Int.not_lt.mpr hfresh)
      · exact (hover f (mem_retained.mpr ⟨hf, hdone, hfresh⟩)).mp hgone hspared
    · refine ⟨hf, fun hold => hdone (mem_expired.mp hold).2.1, fun hgone => hdone ?_⟩
      have hmem : f ∈ retained c files := hsplit ▸ mem_append_left _ hgone
      exact (mem_retained.mp hmem).2.1
  · exact filter_sublist
  · intro f hf
    obtain ⟨hf, hcompleted⟩ := mem_filter.mp hf
    obtain ⟨hfile, hnot, -⟩ := hafter.mp hf
    by_contra hold
    exact hnot (mem_expired.mpr ⟨hfile, isDone_of_isCompleted hcompleted, Int.not_le.mp hold⟩)
  · rw [← weightOf_perm LogFile.bytes hnewer]
    exact (weightOf_sublist LogFile.bytes filter_sublist).trans hquota
  · refine ⟨completedLogs (expired c files ++ overQuota c quota files), completedLogs kept,
      ?_, ?_, hnewer⟩
    · unfold completedLogs
      rw [← filter_append, ← hlisting]
      exact (listing_sorted files).filter _
    · unfold completedLogs
      rw [← filter_append, ← hlisting]
      refine ((listing_perm files).filter _).trans (List.Perm.of_eq ?_)
      rw [filter_filter]
      refine filter_congr fun f _ => ?_
      cases hcompleted : f.isCompleted with
      | false => rfl
      | true => rw [isDone_of_isCompleted hcompleted, Bool.and_self]
  · intro f hf hfresh hgone
    obtain ⟨hfile, hcompleted⟩ := mem_filter.mp hf
    have hmem := mem_retained.mpr ⟨hfile, isDone_of_isCompleted hcompleted, hfresh⟩
    rw [hafter] at hgone
    have hq : f ∈ overQuota c quota files := by
      by_contra hnot
      refine hgone ⟨hfile, fun hold => ?_, hnot⟩
      exact absurd (mem_expired.mp hold).2.2 (Int.not_lt.mpr hfresh)
    by_contra hfits
    exact (hover f hmem).mp hq (h.logs f hf hfresh (Nat.le_of_not_lt hfits))

theorem countedOnce_of_collected
    (hfits : weightOf LogFile.bytes (files.filter (·.isDone)) < UInt64.size)
    (h : Collected c quota files (without files (expired c files ++ overQuota c quota files))) :
    CountedOnce c quota files := by
  obtain ⟨kept, -, -, hover⟩ := retained_split hfiles c quota
  have hstays : ∀ f ∈ files, f.isDone = true →
      f ∈ without files (expired c files ++ overQuota c quota files) →
        c ≤ f.mtime ∧ Spared c quota files f := by
    intro f hf hdone hmem
    obtain ⟨-, hnot⟩ := mem_without.mp hmem
    rw [mem_append, not_or] at hnot
    have hfresh : c ≤ f.mtime := by
      by_contra hold
      exact hnot.1 (mem_expired.mpr ⟨hf, hdone, Int.not_le.mp hold⟩)
    exact ⟨hfresh, not_not.mp (mt (hover f (mem_retained.mpr ⟨hf, hdone, hfresh⟩)).mpr hnot.2)⟩
  refine ⟨hfits, fun f hf hdone hcompleted => hstays f hf hdone (h.untouched f hf hcompleted),
    fun f hf hfresh hle => ?_⟩
  obtain ⟨hfile, hcompleted⟩ := mem_filter.mp hf
  by_contra hnot
  refine absurd (h.needed f hf hfresh fun hmem => hnot ?_) (Nat.not_lt.mpr hle)
  exact (hstays f hfile (isDone_of_isCompleted hcompleted) hmem).2

end

theorem gcThread_iff : (∃ s, gcThread cfg now ⟨files, n⟩ = some s ∧
        Collected (cutoff now cfg.retention) cfg.threadQuotaBytes.toNat files s.files) ↔
      CountedOnce (cutoff now cfg.retention) cfg.threadQuotaBytes.toNat files := by
  rw [gcThread_eq hfiles]
  constructor
  · rintro ⟨s, hs, hcollected⟩
    split at hs
    · rename_i hfits
      cases hs
      exact countedOnce_of_collected hfiles hfits hcollected
    · cases hs
  · intro h
    rw [if_pos h.noOverflow]
    exact ⟨_, rfl, collected_of_countedOnce hfiles h⟩

theorem length_without {gone : List LogFile} (hgone : gone.Nodup)
    (hmem : ∀ f ∈ gone, f ∈ files) : gone.length + (without files gone).length = files.length := by
  have hperm : (files.filter (· ∈ gone)).Perm gone := by
    refine (perm_ext_iff_of_nodup (List.Nodup.filter _ (List.Nodup.of_map _ hfiles))
      hgone).mpr fun f => ?_
    rw [mem_filter, decide_eq_true_eq]
    exact and_iff_right_of_imp (hmem f)
  have hcount := @length_eq_length_filter_add _ files fun f => decide (f ∈ gone)
  rw [hcount, hperm.length_eq]
  simp [without]

theorem gcThread_count {s : GcState} (h : gcThread cfg now ⟨files, n⟩ = some s) :
    s.removed + s.files.length = n + files.length := by
  rw [gcThread_eq hfiles] at h
  split at h
  · cases h
    obtain ⟨kept, hsplit, -⟩ := retained_split hfiles (cutoff now cfg.retention)
      cfg.threadQuotaBytes.toNat
    have hlisting := expired_append_retained (cutoff now cfg.retention) files
    rw [hsplit, ← List.append_assoc] at hlisting
    have hnodup := listing_nodup hfiles
    rw [← hlisting] at hnodup
    have hlength := length_without hfiles (nodup_append'.mp hnodup).1 fun f hf => by
      have hmem : f ∈ listing files := hlisting ▸ mem_append_left _ hf
      exact (mem_listing.mp hmem).1
    rw [length_append] at hlength
    simp only
    omega
  · cases h

end

/-! ## All directories -/

/-- The collection succeeds and does what it should in each directory, and counts the files
that go. -/
def CollectedAll (c : ℤ) (quota : ℕ) (dirs : List ThreadDir) (removed : ℕ)
    (result : Option (List (List LogFile) × ℕ)) : Prop :=
  ∃ after removed', result = some (after, removed') ∧
    List.Forall₂ (fun (dir : ThreadDir) files => Collected c quota dir.files files) dirs after ∧
    removed' + (after.map List.length).sum = removed + (dirs.map (·.files.length)).sum

theorem gcThreads_iff (cfg : WalConfig) (now : ℤ) (dirs : List ThreadDir) (removed : ℕ) :
    CollectedAll (cutoff now cfg.retention) cfg.threadQuotaBytes.toNat dirs removed
        (gcThreads cfg now dirs removed) ↔
      ∀ dir ∈ dirs, CountedOnce (cutoff now cfg.retention) cfg.threadQuotaBytes.toNat dir.files := by
  induction dirs generalizing removed with
  | nil => exact iff_of_true ⟨[], removed, rfl, .nil, rfl⟩ fun dir hdir => absurd hdir not_mem_nil
  | cons dir dirs ih =>
    rw [forall_mem_cons, ← @gcThread_iff cfg now dir.files removed dir.distinct]
    constructor
    · rintro ⟨after, removed', hgc, hall, hcount⟩
      cases hall with
      | @cons _ first _ rest hfirst hrest =>
        rw [gcThreads] at hgc
        split at hgc
        · cases hgc
        · rename_i s hs
          obtain ⟨⟨rest', n⟩, hthreads, heq⟩ := Option.map_eq_some_iff.mp hgc
          cases heq
          have hlength := gcThread_count dir.distinct hs
          refine ⟨⟨s, hs, hfirst⟩, (ih s.removed).mp ⟨rest, removed', hthreads, hrest, ?_⟩⟩
          simp only [map_cons, sum_cons] at hcount
          omega
    · rintro ⟨⟨s, hs, hfirst⟩, hdirs⟩
      obtain ⟨rest, removed', hthreads, hrest, hcount⟩ := (ih s.removed).mpr hdirs
      have hlength := gcThread_count dir.distinct hs
      refine ⟨s.files :: rest, removed', ?_, .cons hfirst hrest, ?_⟩
      · rw [gcThreads, hs]
        simp only [hthreads, Option.map_some]
      · simp only [map_cons, sum_cons]
        omega

/-- A collection does what it should exactly if in each directory the second pass, which
counts what is expired again, still does not need the logs that fit the quota. -/
theorem gc_iff (cfg : WalConfig) (now : ℤ) (root : Option (List ThreadDir)) :
    CollectedAll (cutoff now cfg.retention) cfg.threadQuotaBytes.toNat (root.getD []) 0
        (gc cfg now root) ↔
      ∀ dir ∈ root.getD [],
        CountedOnce (cutoff now cfg.retention) cfg.threadQuotaBytes.toNat dir.files :=
  gcThreads_iff cfg now (root.getD []) 0

def oldAndNew : ThreadDir :=
  ⟨[⟨"old.wal.done".toList, 0, 100⟩, ⟨"new.wal.done".toList, 90, 50⟩], by decide⟩

/-- The old log goes, the new one would fit, and goes too. -/
theorem expired_counted_twice : gc ⟨20, 60⟩ 100 (some [oldAndNew]) = some ([[]], 2) ∧
      cutoff 100 20 = 80 ∧
      ¬ Collected 80 60 oldAndNew.files [] := by
  refine ⟨by decide +kernel, by decide, fun h => ?_⟩
  have hneeded := h.needed ⟨"new.wal.done".toList, 90, 50⟩ (by decide +kernel) (by decide)
    not_mem_nil
  exact absurd hneeded (by decide +kernel)

end Codex.Desktop
