import Codex.ThreadList.Pages

/-!
# Following the cursor

The pages together show the files that pass the filters, from the newest one on, but for those
that have the time of a page's last item and stand behind it.
-/

namespace Codex.ThreadList

open Foundation List

section
variable {env : Env} {date : OffsetDateTime → ℕ ×ₗ ℕ ×ₗ ℕ} {root : Option RootDir}
  {sortKey : ThreadSortKey} {config : ThreadListConfig}

variable (env sortKey) in
/-- The file has the time of the last item of a page and stands behind it. -/
def TiedBehind (filters : Filters) (files : List RolloutFile) (pages : List ThreadsPage)
    (file : RolloutFile) : Prop :=
  ∃ page ∈ pages, ∃ last item, page.items.getLast? = some item ∧
    last.item env filters = some item ∧ file.time sortKey = last.time sortKey ∧
    [last, file].Sublist files

variable (env sortKey config) in
/-- The pages show the files that pass the filters, the newest one first and none twice, but
those that are tied with the last item of a page. -/
structure ListsAllButTies (pageSize : ℕ) (below : List RolloutFile) (pages : List ThreadsPage)
    (files shown : List RolloutFile) : Prop where
  order : NewestFirst sortKey files below
  once : (files.map RolloutFile.path).Nodup
  inOrder : shown.Sublist (files.filter (RolloutFile.shown env config.filters))
  items : pages.flatMap ThreadsPage.items = shown.filterMap (RolloutFile.item env config.filters)
  size : ∀ page ∈ pages, page.items.length ≤ pageSize
  missing : ∀ file ∈ files, file.shown env config.filters = true →
    (file ∈ shown ↔ ¬ TiedBehind env sortKey config.filters files pages file)

theorem flatMap_items {filters : Filters} {pages' : List ThreadsPage}
    {pages : List (Page RolloutFile OffsetDateTime)}
    (h : List.Forall₂ (Shows env filters) pages' pages) : pages'.flatMap ThreadsPage.items =
      (pages.flatMap Page.shown).filterMap (RolloutFile.item env filters) := by
  induction h with
  | nil => rfl
  | cons hpage _ ih => rw [flatMap_cons, flatMap_cons, filterMap_append, hpage.1, ih]

theorem tiedBehind_iff {filters : Filters} {files : List RolloutFile}
    (hpaths : (files.map RolloutFile.path).Nodup) {pages' : List ThreadsPage}
    {pages : List (Page RolloutFile OffsetDateTime)}
    (h : List.Forall₂ (Shows env filters) pages' pages)
    (hshown : ∀ page ∈ pages, ∀ file ∈ page.shown,
      file ∈ files ∧ file.shown env filters = true) (file : RolloutFile) :
    PassedOver (RolloutFile.time sortKey) files pages file ↔
      TiedBehind env sortKey filters files pages' file := by
  induction h with
  | nil => simp [PassedOver, TiedBehind]
  | @cons page' page pages' pages hpage hrest ih =>
    have hlast := getLast?_items fun file hfile => (hshown page (by simp) file hfile).2
    rw [← hpage.1] at hlast
    have hrest' := ih fun page hpage => hshown page (mem_cons_of_mem _ hpage)
    unfold PassedOver TiedBehind at hrest' ⊢
    rw [exists_mem_cons_iff, exists_mem_cons_iff, hrest', hlast]
    refine or_congr_left ⟨?_, ?_⟩
    · rintro ⟨last, hget, htime, hbehind⟩
      have hmem := hshown page (by simp) last (mem_of_getLast? hget)
      obtain ⟨item, hitem⟩ := Option.isSome_iff_exists.mp hmem.2
      exact ⟨last, item, by rw [hget]; exact hitem, hitem, htime, hbehind⟩
    · rintro ⟨last, item, hget, hitem, htime, hbehind⟩
      obtain ⟨last', hget', hitem'⟩ := Option.bind_eq_some_iff.mp hget
      have hmem' := hshown page (by simp) last' (mem_of_getLast? hget')
      have hmem : last ∈ files := hbehind.subset (by simp)
      have hpath : last'.path = last.path := (item_of_file hitem').1.symm.trans (item_of_file hitem).1
      obtain rfl := inj_on_of_nodup_map hpaths hmem'.1 hmem hpath
      exact ⟨last', hget', htime, hbehind⟩

theorem listing_passes_over_ties (hdate : Monotone date)
    (hprint : ∀ t text, env.formatRfc3339 t = some text → env.parseRfc3339 text = some t)
    (hl : Listable env date root sortKey config) {pageSize : ℕ} (hsize : 0 < pageSize) :
    ∃ pages, Listing ThreadsPage.nextCursor
        (getThreadsInRoot env root pageSize sortKey config) none pages ∧
      ∃ files shown, ListsAllButTies env sortKey config pageSize
        (rolloutFiles env root config.layout) pages files shown := by
  obtain ⟨files, horder, hpages⟩ := getThreadsInRoot_shows hdate hprint hl pageSize
  have hsorted := sorted_time horder.2
  have hpaths : (files.map RolloutFile.path).Nodup :=
    (horder.1.map _).nodup_iff.mpr (nodup_rolloutFiles root config.layout)
  have hnodup := List.Nodup.of_map _ hpaths
  obtain ⟨pages, hlisting⟩ :=
    exists_listing (p := RolloutFile.shown env config.filters) hsorted hsize none
  obtain ⟨pages', hlisting', hshows⟩ :=
    hlisting.simulates hpages (fun page' page h => h.2) (show none = Option.map Cursor.ts none from rfl)
  refine ⟨pages', hlisting', files, pages.flatMap Page.shown, horder, hpaths,
    hlisting.sublist hsorted hsize, ?_, ?_, fun file hfile hshown => ?_⟩
  · exact flatMap_items hshows
  · intro page hpage
    obtain ⟨cursor, rfl⟩ := hlisting'.exists_cursor page hpage
    rw [(hpages cursor).1]
    exact (length_filterMap_le _ _).trans (pageBelow_length _)
  · rw [← tiedBehind_iff hpaths hshows ?_ file]
    · exact hlisting.mem_iff hsorted hnodup hsize hfile hshown
    · intro page hpage file hfile
      have hmem := (hlisting.sublist hsorted hsize).subset (mem_flatMap.mpr ⟨page, hpage, hfile⟩)
      exact mem_filter.mp hmem

variable (env root sortKey config) in
def ListsAll (pageSize : ℕ) : Prop :=
  ∃ pages, Listing ThreadsPage.nextCursor
      (getThreadsInRoot env root pageSize sortKey config) none pages ∧
    ∃ files, NewestFirst sortKey files (rolloutFiles env root config.layout) ∧
      pages.flatMap ThreadsPage.items = files.filterMap (RolloutFile.item env config.filters)

end

/-! ## Two sessions of one second -/

def julyFirst : OffsetDateTime := 1751328000000000000

def julyFirstText : Text := "2025-07-01T00:00:00Z".toList

def uuidText (last : Char) : Text := "00000000-0000-0000-0000-00000000000".toList ++ [last]

def metaText : Text :=
  ("\x7b\"timestamp\":\"2025-07-01T00:00:00Z\",\"type\":\"session_meta\"," ++
    "\"payload\":\x7b\"id\":\"00000000-0000-0000-0000-000000000001\"," ++
    "\"timestamp\":\"2025-07-01T00:00:00Z\",\"cwd\":\"/\",\"originator\":\"cli\"," ++
    "\"cli_version\":\"1\",\"source\":\"cli\"\x7d\x7d").toList

def messageText : Text :=
  ("\x7b\"timestamp\":\"2025-07-01T00:00:00Z\",\"type\":\"event_msg\"," ++
    "\"payload\":\x7b\"type\":\"user_message\",\"message\":\"Hi\"\x7d\x7d").toList

def secondEnv : Env where
  parseUuid s :=
    if s = uuidText '1' then some 1 else if s = uuidText '2' then some 2 else none
  parseDateTime s := if s = "2025-07-01T00-00-00".toList then some julyFirst else none
  formatRfc3339 t := if t = julyFirst then some julyFirstText else none
  parseRfc3339 s := if s = julyFirstText then some julyFirst else none
  parseLine s :=
    if s = metaText then
      some ⟨julyFirstText, .sessionMeta
        ⟨1, julyFirstText, ['/'], ['1'], .cli, none, none, none, none⟩⟩
    else if s = messageText then some ⟨julyFirstText, .userMessage ['H', 'i']⟩
    else none
  pathsMatchAfterNormalization left right := left = right

def secondName (last : Char) : Text :=
  "rollout-2025-07-01T00-00-00-".toList ++ uuidText last ++ ".jsonl".toList

def secondFile (modified : Option OffsetDateTime) (last : Char) : Text × Entry Unit :=
  (secondName last, .file ⟨modified, some [some metaText, some messageText]⟩)

def onlyDir {δ : Type} (name : Text) (entries : δ) : Dir δ :=
  ⟨[(name, .dir entries)], nodup_singleton name⟩

theorem secondName_ne : secondName '1' ≠ secondName '2' := by decide

def secondRoot (modified : Option OffsetDateTime) : RootDir :=
  onlyDir "2025".toList <| onlyDir "07".toList <| onlyDir "01".toList
    ⟨[secondFile modified '1', secondFile modified '2'],
      nodup_cons.mpr ⟨mt mem_singleton.mp secondName_ne, nodup_singleton _⟩⟩

def everyThread : ThreadListConfig := ⟨[], none, none, [], .nestedByDate⟩

/-- The second file of the second is not shown, and where the times of the last update are not
known, the listing does not end. -/
theorem second_not_listed :
    ¬ ListsAll secondEnv (some (secondRoot (some julyFirst))) .createdAt everyThread 1 ∧
      ¬ ListsAll secondEnv (some (secondRoot none)) .updatedAt everyThread 1 := by
  refine ⟨fun ⟨pages, hlisting, files, horder, hitems⟩ => ?_, fun ⟨pages, hlisting, _⟩ => ?_⟩
  · have hpages : Listing ThreadsPage.nextCursor (getThreadsInRoot secondEnv
        (some (secondRoot (some julyFirst))) 1 .createdAt everyThread) none _ :=
      .more (c := ⟨julyFirst⟩) (by decide +kernel) (.last (by decide +kernel))
    obtain rfl := hlisting.unique hpages
    have hlength := congrArg List.length hitems
    rw [(horder.1.filterMap _).length_eq] at hlength
    exact absurd hlength (by decide +kernel)
  · have hfirst : (getThreadsInRoot secondEnv (some (secondRoot none)) 1 .updatedAt everyThread
        none).nextCursor = some ⟨julyFirst⟩ := by decide +kernel
    have hself : (getThreadsInRoot secondEnv (some (secondRoot none)) 1 .updatedAt everyThread
        (some ⟨julyFirst⟩)).nextCursor = some ⟨julyFirst⟩ := by decide +kernel
    cases hlisting with
    | last hnone =>
      rw [hfirst] at hnone
      cases hnone
    | more hsome hrest =>
      rw [hfirst] at hsome
      cases hsome
      exact Listing.not_of_self hself hrest

theorem secondEnv_prints (t : OffsetDateTime) (text : Text)
    (h : secondEnv.formatRfc3339 t = some text) : secondEnv.parseRfc3339 text = some t := by
  unfold secondEnv at h ⊢
  dsimp only at h ⊢
  split at h
  · next ht =>
    cases h
    rw [if_pos rfl, ht]
  · cases h

theorem secondRoot_listable : Listable secondEnv (fun _ => toLex (2025, toLex (7, 1)))
    (some (secondRoot (some julyFirst))) .createdAt everyThread where
  belowCap := by decide +kernel
  dated dir hdir _ _ := by
    cases hdir
    exact ⟨by decide +kernel, by decide +kernel, by decide +kernel, by decide +kernel⟩
  updated h := by cases h

theorem listing_of_second : ∃ pages, Listing ThreadsPage.nextCursor
        (getThreadsInRoot secondEnv (some (secondRoot (some julyFirst))) 1 .createdAt everyThread)
        none pages ∧
      ∃ files shown, ListsAllButTies secondEnv .createdAt everyThread 1
        (rolloutFiles secondEnv (some (secondRoot (some julyFirst))) .nestedByDate) pages files
        shown :=
  listing_passes_over_ties monotone_const secondEnv_prints secondRoot_listable Nat.one_pos

end Codex.ThreadList
