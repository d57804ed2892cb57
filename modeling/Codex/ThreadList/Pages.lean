import Codex.Foundation.Paging
import Codex.ThreadList.Listing
import Mathlib.Data.Int.ConditionallyCompleteOrder
import Mathlib.Order.Lattice.Nat

/-!
# What a page shows

Below the scan cap a request sees all files, from the newest one on, and its page is what the
files show that are older than the cursor.
-/

namespace Codex.ThreadList

open Foundation List Option

/-! ## Walks below the cap -/

variable {δ : Type}

section
variable {σ : Type} {visit : σ → RolloutFile → ℕ → σ × Bool}

variable (visit) in
theorem scanned_visitFiles (files : List RolloutFile) (w : Walk σ) :
    (visitFiles visit files w).scannedFiles ≤ w.scannedFiles + files.length := by
  induction files generalizing w with
  | nil => simp [visitFiles]
  | cons file files ih =>
    simp only [visitFiles, length_cons]
    split
    · dsimp only
      omega
    · split
      · dsimp only
        omega
      · refine (ih _).trans ?_
        dsimp only
        omega

theorem visitFiles_append (files files' : List RolloutFile) {w : Walk σ} (hw : w.stopped = false) :
    visitFiles visit (files ++ files') w =
      if (visitFiles visit files w).stopped then visitFiles visit files w
      else visitFiles visit files' (visitFiles visit files w) := by
  induction files generalizing w with
  | nil => simp [visitFiles, hw]
  | cons file files ih =>
    simp only [cons_append, visitFiles]
    split
    · simp
    · split
      · simp
      · exact ih rfl

theorem walkDirs_eq {inside : ℕ × Text × δ → Walk σ → Walk σ}
    {files : ℕ × Text × δ → List RolloutFile}
    (hinside : ∀ d w, w.stopped = false → w.scannedFiles + (files d).length < maxScanFiles →
      inside d w = visitFiles visit (files d) w) (ds : List (ℕ × Text × δ)) (w : Walk σ)
    (hw : w.stopped = false) (hcap : w.scannedFiles + (ds.flatMap files).length < maxScanFiles) :
    walkDirs inside ds w = visitFiles visit (ds.flatMap files) w := by
  induction ds generalizing w with
  | nil => rfl
  | cons d ds ih =>
    rw [flatMap_cons, length_append] at hcap
    rw [flatMap_cons, visitFiles_append _ _ hw]
    simp only [walkDirs]
    rw [if_neg (by omega), hinside d w hw (by omega)]
    split
    · rfl
    · next hgoes =>
      have hscanned := scanned_visitFiles visit (files d) w
      exact ih _ (by simpa using hgoes) (by omega)

end

section
variable (env : Env)

def walkedFiles (root : RootDir) : List RolloutFile :=
  (collectDirsDesc root (parseUnsigned UInt16.size)).flatMap fun year =>
    (collectDirsDesc year.2.2 (parseUnsigned UInt8.size)).flatMap fun month =>
      (collectDirsDesc month.2.2 (parseUnsigned UInt8.size)).flatMap fun day =>
        collectRolloutDayFiles env [year.2.1, month.2.1, day.2.1] day.2.2

variable {env}

theorem walkRolloutFiles_eq {σ : Type} {visit : σ → RolloutFile → ℕ → σ × Bool} {root : RootDir}
    (hcap : (walkedFiles env root).length < maxScanFiles) (visitor : σ) :
    walkRolloutFiles env visit root visitor =
      visitFiles visit (walkedFiles env root) ⟨0, visitor, false⟩ := by
  refine walkDirs_eq (fun year w hw hyear => ?_) _ _ rfl (by simpa [walkedFiles] using hcap)
  refine walkDirs_eq (fun month w hw hmonth => ?_) _ _ hw hyear
  exact walkDirs_eq (fun day w _ _ => rfl) _ _ hw hmonth

end

/-! ## Filling a page -/

variable (env : Env) (filters : Filters)

def RolloutFile.item (file : RolloutFile) : Option ThreadItem :=
  buildItem env filters file.path file.data

def RolloutFile.shown (file : RolloutFile) : Bool := (file.item env filters).isSome

variable {env filters} {pageSize : ℕ} {ts : RolloutFile → OffsetDateTime}

theorem fillPage_passed (files : List RolloutFile) {anchorState : AnchorState}
    (hpassed : anchorState.passed = true) {n : ℕ} {items : List ThreadItem}
    (hsize : items.length + n = pageSize) :
    fillPage env pageSize filters ts files anchorState items =
      (items ++ (takeShown (RolloutFile.shown env filters) n files).1.filterMap
          (RolloutFile.item env filters),
        !(takeShown (RolloutFile.shown env filters) n files).2.isEmpty) := by
  induction files generalizing n items with
  | nil => simp [fillPage, takeShown]
  | cons file files ih =>
    simp only [fillPage, AnchorState.shouldSkip, hpassed, if_true, Bool.false_eq_true, if_false]
    cases n with
    | zero =>
      have hfull : items.length = pageSize := hsize
      rw [if_pos hfull]
      simp [takeShown]
    | succ n =>
      rw [if_neg (by omega)]
      cases hitem : file.item env filters with
      | none =>
        have hhidden : file.shown env filters = false := by simp [RolloutFile.shown, hitem]
        rw [show buildItem env filters file.path file.data = none from hitem, toList_none,
          append_nil, ih hsize]
        simp [takeShown, hhidden, hitem]
      | some item =>
        have hshown : file.shown env filters = true := by simp [RolloutFile.shown, hitem]
        rw [show buildItem env filters file.path file.data = some item from hitem,
          toList_some, ih (n := n) (by simp; omega)]
        simp [takeShown, hshown, hitem]

variable {files : List RolloutFile}

theorem fillPage_skips (hsorted : files.Pairwise fun a b => ts b ≤ ts a) (c : OffsetDateTime)
    (items : List ThreadItem) : fillPage env pageSize filters ts files ⟨c, false⟩ items =
      fillPage env pageSize filters ts (restBelow ts files (some c)) ⟨c, true⟩ items := by
  induction files with
  | nil => rfl
  | cons file files ih =>
    obtain ⟨hfirst, hrest⟩ := pairwise_cons.mp hsorted
    by_cases hlt : ts file < c
    · have hall : restBelow ts (file :: files) (some c) = file :: files := by
        refine filter_eq_self.mpr fun other hother => decide_eq_true ?_
        rcases mem_cons.mp hother with rfl | hother
        · exact hlt
        · exact (hfirst other hother).trans_lt hlt
      rw [hall]
      simp [fillPage, AnchorState.shouldSkip, hlt]
    · have hskip : restBelow ts (file :: files) (some c) = restBelow ts files (some c) := by
        simp [restBelow, hlt]
      rw [hskip, ← ih hrest]
      simp [fillPage, AnchorState.shouldSkip, hlt]

theorem filterMap_shown (files : List RolloutFile) :
    (files.filter (RolloutFile.shown env filters)).filterMap (RolloutFile.item env filters) =
      files.filterMap (RolloutFile.item env filters) := by
  rw [filterMap_filter]
  congr 1
  funext file
  unfold RolloutFile.shown
  cases file.item env filters <;> rfl

theorem getLast?_items (h : ∀ file ∈ files, file.shown env filters = true) :
    (files.filterMap (RolloutFile.item env filters)).getLast? =
      files.getLast?.bind (RolloutFile.item env filters) := by
  rcases eq_nil_or_concat files with rfl | ⟨init, last, rfl⟩
  · rfl
  · obtain ⟨item, hitem⟩ := isSome_iff_exists.mp (h last (by simp))
    simp [hitem]

theorem fillPage_eq (hsorted : files.Pairwise fun a b => ts b ≤ ts a) (cursor : Option Cursor) :
    fillPage env pageSize filters ts files (.new cursor) [] =
      ((pageBelow ts (RolloutFile.shown env filters) pageSize files
          (cursor.map Cursor.ts)).shown.filterMap (RolloutFile.item env filters),
        !(takeShown (RolloutFile.shown env filters) pageSize
          (restBelow ts files (cursor.map Cursor.ts))).2.isEmpty) := by
  have hempty : ([] : List ThreadItem).length + pageSize = pageSize := Nat.zero_add pageSize
  cases cursor with
  | none =>
    rw [fillPage_passed files (by rfl) hempty]
    simp [pageBelow, filterMap_shown, restBelow]
  | some cursor =>
    unfold AnchorState.new
    rw [fillPage_skips hsorted, fillPage_passed _ (by rfl) hempty]
    simp [pageBelow, filterMap_shown]

variable (env filters) in
def Shows (page : ThreadsPage) (files : Page RolloutFile OffsetDateTime) : Prop :=
  page.items = files.shown.filterMap (RolloutFile.item env filters) ∧
    page.nextCursor.map Cursor.ts = files.next

theorem buildNextCursor_append (items : List ThreadItem) (item : ThreadItem)
    (sortKey : ThreadSortKey) :
    buildNextCursor env (items ++ [item]) sortKey = buildNextCursor env [item] sortKey := by
  unfold buildNextCursor
  rw [List.getLast?_concat]
  rfl

variable {files : List RolloutFile}

theorem threadsPage_shows (hsorted : files.Pairwise fun a b => ts b ≤ ts a)
    {sortKey : ThreadSortKey} (hcursor : ∀ file ∈ files, ∀ item, file.item env filters = some item →
      buildNextCursor env [item] sortKey = some ⟨ts file⟩) {scannedFiles : ℕ}
    (hcap : scannedFiles < maxScanFiles) (cursor : Option Cursor) {items : List ThreadItem}
    {more : Bool}
    (hfill : fillPage env pageSize filters ts files (.new cursor) [] = (items, more)) :
    Shows env filters (threadsPage env items more scannedFiles sortKey)
      (pageBelow ts (RolloutFile.shown env filters) pageSize files (cursor.map Cursor.ts)) := by
  rw [fillPage_eq hsorted] at hfill
  obtain ⟨rfl, rfl⟩ := Prod.mk.inj hfill
  refine ⟨rfl, ?_⟩
  have hbelow : (maxScanFiles ≤ scannedFiles) = False := eq_false (Nat.not_le.mpr hcap)
  have hsub := (takeShown_append (p := RolloutFile.shown env filters) pageSize
    (restBelow ts files (cursor.map Cursor.ts)))
  unfold threadsPage pageBelow
  simp only [hbelow, decide_false, Bool.false_and, Bool.or_false]
  cases hrest : (takeShown (RolloutFile.shown env filters) pageSize
      (restBelow ts files (cursor.map Cursor.ts))).2 with
  | nil => rfl
  | cons file rest =>
    rcases eq_nil_or_concat ((takeShown (RolloutFile.shown env filters) pageSize
      (restBelow ts files (cursor.map Cursor.ts))).1.filter (RolloutFile.shown env filters)) with
      hnil | ⟨init, last, hlast⟩
    · rw [hnil]
      rfl
    · have hmem : last ∈ (takeShown (RolloutFile.shown env filters) pageSize
          (restBelow ts files (cursor.map Cursor.ts))).1.filter (RolloutFile.shown env filters) := by
        rw [hlast]
        simp
      obtain ⟨hseen, hshown⟩ := mem_filter.mp hmem
      have hfile : last ∈ files := by
        apply (restBelow_sublist ts (cursor.map Cursor.ts)).subset
        rw [← hsub]
        exact mem_append_left _ hseen
      obtain ⟨item, hitem⟩ := isSome_iff_exists.mp hshown
      rw [hlast, concat_eq_append, filterMap_append, filterMap_cons, hitem]
      simp [buildNextCursor_append, hcursor last hfile item hitem]

/-! ## Below the cap every file is seen -/

theorem visitFiles_push (files : List RolloutFile) {w : Walk (List RolloutFile)}
    (hw : w.stopped = false) (hcap : w.scannedFiles + files.length < maxScanFiles) :
    visitFiles (fun candidates file _ => (candidates ++ [file], false)) files w =
      ⟨w.scannedFiles + files.length, w.visitor ++ files, false⟩ := by
  induction files generalizing w with
  | nil =>
    obtain ⟨scannedFiles, visitor, stopped⟩ := w
    obtain rfl : stopped = false := hw
    simp [visitFiles]
  | cons file files ih =>
    rw [length_cons] at hcap
    simp only [visitFiles]
    rw [if_neg (by omega)]
    rw [ih rfl (by dsimp only; omega)]
    simp
    omega

theorem visitFiles_created (files : List RolloutFile) (scannedFiles : ℕ) (items : List ThreadItem)
    (anchorState : AnchorState) (hcap : scannedFiles + files.length < maxScanFiles) :
    let walk := visitFiles (FilesByCreatedAtVisitor.visit env pageSize filters) files
      ⟨scannedFiles, ⟨items, anchorState, false⟩, false⟩
    fillPage env pageSize filters RolloutFile.ts files anchorState items =
      (walk.visitor.items, walk.visitor.moreMatchesAvailable) := by
  induction files generalizing scannedFiles items anchorState with
  | nil => rfl
  | cons file files ih =>
    rw [length_cons] at hcap
    have hbelow : ¬ (maxScanFiles ≤ scannedFiles + 1 ∧ pageSize ≤ items.length) := fun h => by omega
    have hscan : ¬ maxScanFiles < scannedFiles + 1 := by omega
    have hleft : scannedFiles + 1 + files.length < maxScanFiles := by omega
    simp only [fillPage, visitFiles, FilesByCreatedAtVisitor.visit, if_neg hbelow, if_neg hscan]
    cases (anchorState.shouldSkip file.ts).1 with
    | true =>
      exact ih _ _ _ hleft
    | false =>
      by_cases hfull : items.length = pageSize
      · simp only [Bool.false_eq_true, if_false, if_pos hfull, if_true]
      · simp only [Bool.false_eq_true, if_false, if_neg hfull]
        exact ih _ _ _ hleft

theorem scanFlat_eq (entries : List (Text × Entry YearDir)) (scannedFiles : ℕ)
    (collected : List RolloutFile)
    (hcap : scannedFiles + (entries.filterMap (rolloutFile? env [])).length < maxScanFiles) :
    scanFlat env entries scannedFiles collected =
      (collected ++ entries.filterMap (rolloutFile? env []),
        scannedFiles + (entries.filterMap (rolloutFile? env [])).length) := by
  induction entries generalizing scannedFiles collected with
  | nil => simp [scanFlat]
  | cons entry entries ih =>
    simp only [scanFlat]
    rw [if_neg (by omega)]
    cases hentry : rolloutFile? env [] entry with
    | none =>
      rw [filterMap_cons_none hentry] at hcap ⊢
      exact ih scannedFiles collected hcap
    | some file =>
      rw [filterMap_cons_some hentry, length_cons] at hcap ⊢
      dsimp only
      rw [if_neg (by omega), ih _ _ (by omega)]
      simp
      omega

/-! ## Cursors -/

variable (env) in
def Named (file : RolloutFile) : Prop :=
  ∃ parent name, file.path = parent ++ [name] ∧
    parseTimestampUuidFromFilename env name = some (file.ts, file.id)

variable {file : RolloutFile} {item : ThreadItem}

theorem path_of_rolloutFile {parent : PathBuf} {entry : Text × Entry δ}
    (h : rolloutFile? env parent entry = some file) : file.path = parent ++ [entry.1] ∧
      parseTimestampUuidFromFilename env entry.1 = some (file.ts, file.id) := by
  obtain ⟨name, entry⟩ := entry
  cases entry with
  | dir entries | other => cases h
  | file data =>
    unfold rolloutFile? at h
    dsimp only at h
    split at h
    · obtain ⟨⟨ts, id⟩, hname, rfl⟩ := map_eq_some_iff.mp h
      exact ⟨rfl, hname⟩
    · cases h

theorem record_updatedAt (summary : HeadTailSummary) (line : RolloutLine) :
    (summary.record line).updatedAt = summary.updatedAt := by
  unfold HeadTailSummary.record
  cases line.item with
  | sessionMeta metaLine =>
    dsimp only
    split <;> rfl
  | userMessage message =>
    dsimp only
    split
    · split <;> rfl
    · rfl
  | _ => rfl

theorem readHeadLines_updatedAt (headLimit : ℕ) (lines : List (Option Text)) (linesScanned : ℕ)
    {summary summary' : HeadTailSummary} (hnone : summary.updatedAt = none)
    (h : readHeadLines env headLimit lines linesScanned summary = some summary') :
    summary'.updatedAt = none := by
  induction lines generalizing linesScanned summary with
  | nil =>
    cases h
    exact hnone
  | cons line lines ih =>
    simp only [readHeadLines] at h
    split at h
    · cases line with
      | none => cases h
      | some line =>
        dsimp only at h
        split at h
        · exact ih _ hnone h
        · split at h
          · exact ih _ hnone h
          · next rolloutLine _ =>
            have hrecord := (record_updatedAt summary rolloutLine).trans hnone
            split at h
            · cases h
              exact hrecord
            · exact ih _ hrecord h
    · cases h
      exact hnone

theorem headSummary_updatedAt (data : FileData) (headLimit : ℕ) :
    ((readHeadSummary env data headLimit).getD .empty).updatedAt = none := by
  unfold readHeadSummary
  cases hlines : data.lines.bind fun lines => readHeadLines env headLimit lines 0 .empty with
  | none => rfl
  | some summary =>
    obtain ⟨lines, -, hsummary⟩ := bind_eq_some_iff.mp hlines
    exact readHeadLines_updatedAt headLimit lines 0 rfl hsummary

theorem item_of_file (h : file.item env filters = some item) : item.path = file.path ∧
      ∀ text, (fileModifiedTime file.data).bind env.formatRfc3339 = some text →
        item.updatedAt = some text := by
  unfold RolloutFile.item buildItem buildThreadItem at h
  dsimp only at h
  split at h
  · cases h
  · split at h
    · cases h
    · split at h
      · cases h
      · split at h
        · cases h
          refine ⟨rfl, fun text htext => ?_⟩
          rw [headSummary_updatedAt, htext]
          rfl
        · cases h

theorem cursor_created (hnamed : Named env file) (h : file.item env filters = some item) :
    buildNextCursor env [item] .createdAt = some ⟨file.ts⟩ := by
  obtain ⟨parent, name, hpath, hname⟩ := hnamed
  simp [buildNextCursor, (item_of_file h).1, hpath, hname]

theorem cursor_updated (hnamed : Named env file) (h : file.item env filters = some item)
    {text : Text} (htext : (fileModifiedTime file.data).bind env.formatRfc3339 = some text)
    (hparse : env.parseRfc3339 text = some (updatedTs file)) :
    buildNextCursor env [item] .updatedAt = some ⟨updatedTs file⟩ := by
  obtain ⟨parent, name, hpath, hname⟩ := hnamed
  simp [buildNextCursor, (item_of_file h).1, hpath, hname, (item_of_file h).2 text htext, hparse]

/-! ## Order -/

section
variable {α κ : Type} [LinearOrder κ] (key : α → κ) (l : List α)

theorem sortByKeyDesc_perm : (sortByKeyDesc key l).Perm l := perm_insertionSort _ l

theorem sortByKeyDesc_sorted : (sortByKeyDesc key l).Pairwise fun a b => key b ≤ key a := by
  exact List.pairwise_insertionSort _ l

end

theorem ts_of_created (h : files.Pairwise fun a b => b.created ≤ a.created) :
    files.Pairwise fun a b => b.ts ≤ a.ts :=
  h.imp fun hab => Prod.Lex.monotone_fst _ _ hab

theorem ts_of_updated (h : files.Pairwise fun a b => b.updated ≤ a.updated) :
    files.Pairwise fun a b => updatedTs b ≤ updatedTs a :=
  h.imp fun hab => Prod.Lex.monotone_fst _ _ hab

theorem name_of_directory {parse : Text → Option ℕ} {entry : Text × Entry δ} {d : ℕ × Text × δ}
    (h : directory? parse entry = some d) : d.2.1 = entry.1 := by
  obtain ⟨name, entry⟩ := entry
  cases entry with
  | dir entries =>
    obtain ⟨v, -, rfl⟩ := map_eq_some_iff.mp h
    rfl
  | _ => cases h

theorem pairwise_collectDirs (parent : Dir δ) (parse : Text → Option ℕ) :
    (collectDirsDesc parent parse).Pairwise fun a b => a.2.1 ≠ b.2.1 := by
  have hperm := sortByKeyDesc_perm (fun d : ℕ × Text × δ => d.1)
    (parent.entries.filterMap (directory? parse))
  refine (hperm.pairwise_iff fun {a b} h => h.symm).mpr (pairwise_filterMap.mpr ?_)
  refine (pairwise_map.mp parent.distinct).imp fun {entry entry'} hne d hd d' hd' => ?_
  rw [name_of_directory hd, name_of_directory hd']
  exact hne

theorem pairwise_rolloutFiles (parent : PathBuf) (dir : Dir δ) :
    (dir.entries.filterMap (rolloutFile? env parent)).Pairwise fun a b => a.path ≠ b.path := by
  refine pairwise_filterMap.mpr ?_
  refine (pairwise_map.mp dir.distinct).imp fun hne file hfile file' hfile' => ?_
  rw [(path_of_rolloutFile hfile).1, (path_of_rolloutFile hfile').1]
  simpa using hne

theorem path_of_day {dayPath : PathBuf} {day : DayDir} {file : RolloutFile}
    (h : file ∈ collectRolloutDayFiles env dayPath day) : ∃ name, file.path = dayPath ++ [name] ∧
      parseTimestampUuidFromFilename env name = some (file.ts, file.id) := by
  obtain ⟨entry, -, hentry⟩ := mem_filterMap.mp ((sortByKeyDesc_perm ..).mem_iff.mp h)
  exact ⟨entry.1, path_of_rolloutFile hentry⟩

theorem pairwise_walkedFiles (root : RootDir) :
    (walkedFiles env root).Pairwise fun a b => a.path ≠ b.path := by
  refine pairwise_flatMap.mpr ⟨fun year _ => pairwise_flatMap.mpr ⟨fun month _ =>
    pairwise_flatMap.mpr ⟨fun day _ => ?_, ?_⟩, ?_⟩, ?_⟩
  · have hperm := sortByKeyDesc_perm RolloutFile.created
      (day.2.2.entries.filterMap (rolloutFile? env [year.2.1, month.2.1, day.2.1]))
    exact (hperm.pairwise_iff fun {a b} h => h.symm).mpr (pairwise_rolloutFiles _ _)
  · refine (pairwise_collectDirs ..).imp fun hne file hfile file' hfile' => ?_
    obtain ⟨name, hpath, -⟩ := path_of_day hfile
    obtain ⟨name', hpath', -⟩ := path_of_day hfile'
    rw [hpath, hpath']
    simp [hne]
  · refine (pairwise_collectDirs ..).imp fun hne file hfile file' hfile' => ?_
    obtain ⟨day, -, hfile⟩ := mem_flatMap.mp hfile
    obtain ⟨day', -, hfile'⟩ := mem_flatMap.mp hfile'
    obtain ⟨name, hpath, -⟩ := path_of_day hfile
    obtain ⟨name', hpath', -⟩ := path_of_day hfile'
    rw [hpath, hpath']
    simp [hne]
  · refine (pairwise_collectDirs ..).imp fun hne file hfile file' hfile' => ?_
    obtain ⟨month, -, hfile⟩ := mem_flatMap.mp hfile
    obtain ⟨day, -, hfile⟩ := mem_flatMap.mp hfile
    obtain ⟨month', -, hfile'⟩ := mem_flatMap.mp hfile'
    obtain ⟨day', -, hfile'⟩ := mem_flatMap.mp hfile'
    obtain ⟨name, hpath, -⟩ := path_of_day hfile
    obtain ⟨name', hpath', -⟩ := path_of_day hfile'
    rw [hpath, hpath']
    simp [hne]

variable (env) in
/-- The files lie in the directories of their dates, and no date has two directories. -/
structure Dated (date : OffsetDateTime → ℕ ×ₗ ℕ ×ₗ ℕ) (root : RootDir) : Prop where
  years : ((collectDirsDesc root (parseUnsigned UInt16.size)).map Prod.fst).Nodup
  months : ∀ year ∈ collectDirsDesc root (parseUnsigned UInt16.size),
    ((collectDirsDesc year.2.2 (parseUnsigned UInt8.size)).map Prod.fst).Nodup
  days : ∀ year ∈ collectDirsDesc root (parseUnsigned UInt16.size),
    ∀ month ∈ collectDirsDesc year.2.2 (parseUnsigned UInt8.size),
    ((collectDirsDesc month.2.2 (parseUnsigned UInt8.size)).map Prod.fst).Nodup
  files : ∀ year ∈ collectDirsDesc root (parseUnsigned UInt16.size),
    ∀ month ∈ collectDirsDesc year.2.2 (parseUnsigned UInt8.size),
    ∀ day ∈ collectDirsDesc month.2.2 (parseUnsigned UInt8.size),
    ∀ file ∈ collectRolloutDayFiles env [year.2.1, month.2.1, day.2.1] day.2.2,
      date file.ts = toLex (year.1, toLex (month.1, day.1))

theorem decreasing_collectDirs {parent : Dir δ} {parse : Text → Option ℕ}
    (h : ((collectDirsDesc parent parse).map Prod.fst).Nodup) :
    (collectDirsDesc parent parse).Pairwise fun a b => b.1 < a.1 :=
  ((sortByKeyDesc_sorted _ _).and (pairwise_map.mp h)).imp fun hd =>
    lt_of_le_of_ne hd.1 (Ne.symm hd.2)

theorem created_of_date {date : OffsetDateTime → ℕ ×ₗ ℕ ×ₗ ℕ} (hdate : Monotone date)
    {file file' : RolloutFile} (h : date file'.ts < date file.ts) :
    file'.created ≤ file.created := by
  have hlt : file'.ts < file.ts := lt_of_not_ge fun hle => absurd (hdate hle) (not_le_of_gt h)
  exact le_of_lt (Prod.Lex.toLex_lt_toLex.mpr (.inl hlt))

theorem sorted_walkedFiles {date : OffsetDateTime → ℕ ×ₗ ℕ ×ₗ ℕ} (hdate : Monotone date)
    {root : RootDir} (h : Dated env date root) :
    (walkedFiles env root).Pairwise fun a b => b.created ≤ a.created := by
  refine pairwise_flatMap.mpr ⟨fun year hyear => pairwise_flatMap.mpr
    ⟨fun month hmonth => pairwise_flatMap.mpr ⟨fun day _ => sortByKeyDesc_sorted _ _, ?_⟩, ?_⟩, ?_⟩
  · refine (decreasing_collectDirs (h.days year hyear month hmonth)).imp_of_mem
      fun hday hday' hlt file hfile file' hfile' => created_of_date hdate ?_
    rw [h.files year hyear month hmonth _ hday file hfile,
      h.files year hyear month hmonth _ hday' file' hfile']
    simp [Prod.Lex.toLex_lt_toLex, hlt]
  · refine (decreasing_collectDirs (h.months year hyear)).imp_of_mem
      fun hmonth hmonth' hlt file hfile file' hfile' => created_of_date hdate ?_
    obtain ⟨day, hday, hfile⟩ := mem_flatMap.mp hfile
    obtain ⟨day', hday', hfile'⟩ := mem_flatMap.mp hfile'
    rw [h.files year hyear _ hmonth day hday file hfile,
      h.files year hyear _ hmonth' day' hday' file' hfile']
    simp [Prod.Lex.toLex_lt_toLex, hlt]
  · refine (decreasing_collectDirs h.years).imp_of_mem
      fun hyear hyear' hlt file hfile file' hfile' => created_of_date hdate ?_
    obtain ⟨month, hmonth, hfile⟩ := mem_flatMap.mp hfile
    obtain ⟨day, hday, hfile⟩ := mem_flatMap.mp hfile
    obtain ⟨month', hmonth', hfile'⟩ := mem_flatMap.mp hfile'
    obtain ⟨day', hday', hfile'⟩ := mem_flatMap.mp hfile'
    rw [h.files _ hyear month hmonth day hday file hfile,
      h.files _ hyear' month' hmonth' day' hday' file' hfile']
    simp [Prod.Lex.toLex_lt_toLex, hlt]

/-! ## Traversals -/

section
variable {root : RootDir} (cursor : Option Cursor)

theorem directoriesCreated_shows (hcap : (walkedFiles env root).length < maxScanFiles)
    (hsorted : (walkedFiles env root).Pairwise fun a b => b.ts ≤ a.ts)
    (hcursor : ∀ file ∈ walkedFiles env root, ∀ item, file.item env filters = some item →
      buildNextCursor env [item] .createdAt = some ⟨file.ts⟩) :
    Shows env filters (traverseDirectoriesForPathsCreated env root pageSize cursor filters)
      (pageBelow RolloutFile.ts (RolloutFile.shown env filters) pageSize (walkedFiles env root)
        (cursor.map Cursor.ts)) := by
  have hscanned := scanned_visitFiles (FilesByCreatedAtVisitor.visit env pageSize filters)
    (walkedFiles env root) ⟨0, ⟨[], .new cursor, false⟩, false⟩
  unfold traverseDirectoriesForPathsCreated
  rw [walkRolloutFiles_eq hcap]
  refine threadsPage_shows hsorted hcursor ?_ cursor
    (visitFiles_created (walkedFiles env root) 0 [] (.new cursor) ?_)
  · dsimp only at hscanned ⊢
    omega
  · omega

theorem flatCreated_shows (hfiles : files = sortByKeyDesc RolloutFile.created
      (root.entries.filterMap (rolloutFile? env [])))
    (hcap : (root.entries.filterMap (rolloutFile? env [])).length < maxScanFiles)
    (hcursor : ∀ file ∈ files, ∀ item, file.item env filters = some item →
      buildNextCursor env [item] .createdAt = some ⟨file.ts⟩) :
    Shows env filters (traverseFlatPathsCreated env root pageSize cursor filters)
      (pageBelow RolloutFile.ts (RolloutFile.shown env filters) pageSize files
        (cursor.map Cursor.ts)) := by
  subst hfiles
  unfold traverseFlatPathsCreated collectFlatRolloutFiles
  rw [scanFlat_eq root.entries 0 [] (by omega), nil_append]
  exact threadsPage_shows (ts_of_created (sortByKeyDesc_sorted _ _)) hcursor (by omega) cursor rfl

theorem byUpdatedAt_shows {candidates : List RolloutFile × ℕ} (hcap : candidates.2 < maxScanFiles)
    (hfiles : files = sortByKeyDesc RolloutFile.updated candidates.1)
    (hcursor : ∀ file ∈ files, ∀ item, file.item env filters = some item →
      buildNextCursor env [item] .updatedAt = some ⟨updatedTs file⟩) :
    Shows env filters (pageByUpdatedAt env candidates pageSize cursor filters)
      (pageBelow updatedTs (RolloutFile.shown env filters) pageSize files
        (cursor.map Cursor.ts)) := by
  subst hfiles
  exact threadsPage_shows (ts_of_updated (sortByKeyDesc_sorted _ _)) hcursor hcap cursor rfl

theorem collectFilesByUpdatedAt_eq (hcap : (walkedFiles env root).length < maxScanFiles) :
    collectFilesByUpdatedAt env root = (walkedFiles env root, (walkedFiles env root).length) := by
  unfold collectFilesByUpdatedAt
  rw [walkRolloutFiles_eq hcap, visitFiles_push _ rfl (by dsimp only; omega)]
  simp

theorem collectFlatFilesByUpdatedAt_eq
    (hcap : (root.entries.filterMap (rolloutFile? env [])).length < maxScanFiles) :
    collectFlatFilesByUpdatedAt env root = (root.entries.filterMap (rolloutFile? env []),
      (root.entries.filterMap (rolloutFile? env [])).length) := by
  unfold collectFlatFilesByUpdatedAt
  rw [scanFlat_eq root.entries 0 [] (by omega)]
  simp

end

/-! ## Listings -/

variable (env) in
def rolloutFiles (root : Option RootDir) (layout : ThreadListLayout) : List RolloutFile :=
  match root with
  | none => []
  | some root =>
    match layout with
    | .nestedByDate => walkedFiles env root
    | .flat => root.entries.filterMap (rolloutFile? env [])

def RolloutFile.order (sortKey : ThreadSortKey) (file : RolloutFile) : OffsetDateTime ×ₗ Uuid :=
  match sortKey with
  | .createdAt => file.created
  | .updatedAt => file.updated

def RolloutFile.time (sortKey : ThreadSortKey) (file : RolloutFile) : OffsetDateTime :=
  match sortKey with
  | .createdAt => file.ts
  | .updatedAt => updatedTs file

/-- `files` are the rollout files below the root, the newest one first. -/
def NewestFirst (sortKey : ThreadSortKey) (files below : List RolloutFile) : Prop :=
  files.Perm below ∧ files.Pairwise fun a b => b.order sortKey ≤ a.order sortKey

variable (env) in
/-- Fewer files than the cap, and times that the order and the cursor can rely on. -/
structure Listable (date : OffsetDateTime → ℕ ×ₗ ℕ ×ₗ ℕ) (root : Option RootDir)
    (sortKey : ThreadSortKey) (config : ThreadListConfig) : Prop where
  belowCap : (rolloutFiles env root config.layout).length < maxScanFiles
  dated : ∀ dir ∈ root, sortKey = .createdAt → config.layout = .nestedByDate → Dated env date dir
  updated : sortKey = .updatedAt → ∀ file ∈ rolloutFiles env root config.layout,
    file.shown env config.filters = true →
      ∃ text, (fileModifiedTime file.data).bind env.formatRfc3339 = some text

theorem named_rolloutFiles {root : Option RootDir} {layout : ThreadListLayout} :
    ∀ file ∈ rolloutFiles env root layout, Named env file := by
  intro file hfile
  cases root with
  | none => cases hfile
  | some root =>
    cases layout with
    | nestedByDate =>
      obtain ⟨year, -, hfile⟩ := mem_flatMap.mp hfile
      obtain ⟨month, -, hfile⟩ := mem_flatMap.mp hfile
      obtain ⟨day, -, hfile⟩ := mem_flatMap.mp hfile
      exact ⟨_, path_of_day hfile⟩
    | flat =>
      obtain ⟨entry, -, hentry⟩ := mem_filterMap.mp hfile
      exact ⟨_, entry.1, path_of_rolloutFile hentry⟩

theorem nodup_rolloutFiles (root : Option RootDir) (layout : ThreadListLayout) :
    ((rolloutFiles env root layout).map RolloutFile.path).Nodup := by
  cases root with
  | none => exact nodup_nil
  | some root =>
    cases layout with
    | nestedByDate => exact pairwise_map.mpr (pairwise_walkedFiles root)
    | flat => exact pairwise_map.mpr (pairwise_rolloutFiles [] root)

theorem sorted_time {sortKey : ThreadSortKey}
    (h : files.Pairwise fun a b => b.order sortKey ≤ a.order sortKey) :
    files.Pairwise fun a b => b.time sortKey ≤ a.time sortKey := by
  cases sortKey with
  | createdAt => exact ts_of_created h
  | updatedAt => exact ts_of_updated h

variable {date : OffsetDateTime → ℕ ×ₗ ℕ ×ₗ ℕ} {root : Option RootDir} {sortKey : ThreadSortKey}
  {config : ThreadListConfig} (hdate : Monotone date)
  (hprint : ∀ t text, env.formatRfc3339 t = some text → env.parseRfc3339 text = some t)
  (hl : Listable env date root sortKey config)
include hprint hl

omit hl in
theorem cursor_of_item (hl : Listable env date root sortKey config) :
    ∀ file ∈ rolloutFiles env root config.layout, ∀ item,
      file.item env config.filters = some item →
        buildNextCursor env [item] sortKey = some ⟨file.time sortKey⟩ := by
  intro file hfile item hitem
  cases sortKey with
  | createdAt => exact cursor_created (named_rolloutFiles file hfile) hitem
  | updatedAt =>
    have hshown : file.shown env config.filters = true := by simp [RolloutFile.shown, hitem]
    obtain ⟨text, htext⟩ := hl.updated rfl file hfile hshown
    obtain ⟨t, ht, hformat⟩ := bind_eq_some_iff.mp htext
    refine cursor_updated (named_rolloutFiles file hfile) hitem htext ?_
    rw [hprint t text hformat]
    simp [updatedTs, ht]

include hdate in
theorem getThreadsInRoot_shows (pageSize : ℕ) :
    ∃ files, NewestFirst sortKey files (rolloutFiles env root config.layout) ∧
      ∀ cursor, Shows env config.filters (getThreadsInRoot env root pageSize sortKey config cursor)
        (pageBelow (RolloutFile.time sortKey) (RolloutFile.shown env config.filters) pageSize files
          (cursor.map Cursor.ts)) := by
  have hcursor := cursor_of_item hprint hl
  have hcap := hl.belowCap
  have hdated := hl.dated
  cases root with
  | none => exact ⟨[], ⟨.nil, .nil⟩, fun cursor => by cases cursor <;> exact ⟨rfl, rfl⟩⟩
  | some root =>
    unfold getThreadsInRoot
    cases hlayout : config.layout with
    | nestedByDate =>
      rw [hlayout] at hcap hcursor hdated
      cases sortKey with
      | createdAt =>
        have hsorted := sorted_walkedFiles hdate (hdated root rfl rfl rfl)
        exact ⟨walkedFiles env root, ⟨.refl _, hsorted⟩, fun cursor =>
          directoriesCreated_shows cursor hcap (ts_of_created hsorted) hcursor⟩
      | updatedAt =>
        have hperm := sortByKeyDesc_perm RolloutFile.updated (walkedFiles env root)
        refine ⟨_, ⟨hperm, sortByKeyDesc_sorted _ _⟩, fun cursor => ?_⟩
        refine byUpdatedAt_shows cursor ?_ (by rw [collectFilesByUpdatedAt_eq hcap])
          fun file hfile => hcursor file (hperm.mem_iff.mp hfile)
        rw [collectFilesByUpdatedAt_eq hcap]
        exact hcap
    | flat =>
      rw [hlayout] at hcap hcursor
      cases sortKey with
      | createdAt =>
        have hperm := sortByKeyDesc_perm RolloutFile.created
          (root.entries.filterMap (rolloutFile? env []))
        exact ⟨_, ⟨hperm, sortByKeyDesc_sorted _ _⟩, fun cursor =>
          flatCreated_shows cursor rfl hcap fun file hfile =>
            hcursor file (hperm.mem_iff.mp hfile)⟩
      | updatedAt =>
        have hperm := sortByKeyDesc_perm RolloutFile.updated
          (root.entries.filterMap (rolloutFile? env []))
        refine ⟨_, ⟨hperm, sortByKeyDesc_sorted _ _⟩, fun cursor => ?_⟩
        refine byUpdatedAt_shows cursor ?_ (by rw [collectFlatFilesByUpdatedAt_eq hcap])
          fun file hfile => hcursor file (hperm.mem_iff.mp hfile)
        rw [collectFlatFilesByUpdatedAt_eq hcap]
        exact hcap

end Codex.ThreadList
