import Codex.AgentJobs.Store
import Codex.Foundation.Csv
import Codex.Foundation.Json
import Codex.Foundation.Run

/-!
# The CSV of an agent job

The input of a job is parsed from CSV text, and its items are exported as CSV again with ten
more columns. The reader of CSV records is a parameter, as are the texts of JSON values and
of times. What is exported parses back to the cells that were written.
-/

namespace Codex.AgentJobs

open Foundation Foundation.Csv List

/-- An item with the columns that only the export reads. -/
structure AgentJobRow extends AgentJobItem Json where
  jobId : Text
  sourceId : Option Text
  rowJson : Json

def AgentJobItemStatus.asStr : AgentJobItemStatus → Text
  | .pending => "pending".toList
  | .running => "running".toList
  | .completed => "completed".toList
  | .failed => "failed".toList

def byteOrderMark : Char := '\uFEFF'

def trimStartMark (s : Text) : Text := s.dropWhile fun c => c = byteOrderMark

/-- The headers are the first record, without the marks at the start of the first of them;
rows of empty cells are dropped. -/
def parseCsv (read : Text → Except Text (List (List Text))) (content : Text) :
    Except Text (List Text × List (List Text)) := do
  let records ← read content
  let headers := match records.headD [] with
    | [] => []
    | first :: headers => trimStartMark first :: headers
  .ok (headers, records.tail.filter fun row => ¬ row.all List.isEmpty)

def csvEscape (value : Text) : Text :=
  if ',' ∈ value ∨ '\n' ∈ value ∨ '\r' ∈ value ∨ '"' ∈ value then quoted value else value

def joinCells (cells : List Text) : Text := List.intercalate [','] (cells.map csvEscape)

def resultColumns : List Text :=
  ["job_id", "item_id", "row_index", "source_id", "status", "attempt_count", "last_error",
    "result_json", "reported_at", "completed_at"].map String.toList

section
variable (jsonText : Json → Text) (toRfc3339 : ℤ → Text)

/-- Booleans and numbers print as their JSON text. -/
def valueToCsvString : Json → Text
  | .null => []
  | .string s => s
  | value => jsonText value

def resultCells (item : AgentJobRow) : List Text :=
  [item.jobId, item.itemId, (toString item.rowIndex).toList, item.sourceId.getD [],
    item.status.asStr, (toString item.attemptCount).toList, item.lastError.getD [],
    (item.resultJson.map jsonText).getD [], (item.reportedAt.map toRfc3339).getD [],
    (item.completedAt.map toRfc3339).getD []]

def notAnObject (itemId : Text) : Text :=
  "row_json for item ".toList ++ itemId ++ " is not a JSON object".toList

def rowValues (headers : List Text) (item : AgentJobRow) : Except Text (List Text) :=
  match item.rowJson with
  | .object row => .ok (headers.map (fun header =>
      ((row.lookup header).map (valueToCsvString jsonText)).getD []) ++
        resultCells jsonText toRfc3339 item)
  | _ => .error (notAnObject item.itemId)

def renderJobCsv (headers : List Text) (items : List AgentJobRow) : Except Text Text := do
  let rows ← items.mapM (rowValues jsonText toRfc3339 headers)
  .ok (((headers ++ resultColumns) :: rows).flatMap fun cells => joinCells cells ++ ['\n'])

end

/-! ## Written records -/

variable {cells : List Text} {rows : List (List Text)}

theorem csvEscape_written (value : Text) : WrittenField (csvEscape value) value := by
  unfold csvEscape
  split
  · exact .quoted value
  · rename_i h
    simp only [not_or] at h
    refine .plain fun c hc hs => ?_
    rcases hs with rfl | rfl | rfl | rfl
    · exact h.1 hc
    · exact h.2.1 hc
    · exact h.2.2.1 hc
    · exact h.2.2.2 hc

theorem joinCells_cons_cons (a b : Text) (cells : List Text) :
    joinCells (a :: b :: cells) = csvEscape a ++ ',' :: joinCells (b :: cells) := by
  simp [joinCells, List.intercalate]

theorem joinCells_written (hne : cells ≠ []) : WrittenRecord (joinCells cells) cells := by
  induction cells with
  | nil => exact absurd rfl hne
  | cons a cells ih =>
    cases cells with
    | nil =>
      rw [show joinCells [a] = csvEscape a by simp [joinCells, List.intercalate]]
      exact .last (csvEscape_written a)
    | cons b cells =>
      rw [joinCells_cons_cons]
      exact .cons (csvEscape_written a) (ih (by simp))

theorem rows_written (h : ∀ cells ∈ rows, 1 < cells.length) :
    WrittenRecords (rows.flatMap fun cells => joinCells cells ++ ['\n']) rows := by
  induction rows with
  | nil => exact .nil
  | cons cells rows ih =>
    obtain ⟨hcells, hrows⟩ := forall_mem_cons.mp h
    rw [flatMap_cons, List.append_assoc]
    refine .cons (joinCells_written (by rintro rfl; simp at hcells)) ?_ (by simp) (ih hrows)
    obtain ⟨a, b, cells, rfl⟩ : ∃ a b t, cells = a :: b :: t := by
      obtain _ | ⟨a, _ | ⟨b, t⟩⟩ := cells
      · simp at hcells
      · simp at hcells
      · exact ⟨a, b, t, rfl⟩
    simp [joinCells_cons_cons]

theorem joinCells_head {a b : Text} (h : a.head? ≠ some byteOrderMark) (s : Text) :
    (joinCells (a :: b :: cells) ++ s).head? ≠ some byteOrderMark := by
  rw [joinCells_cons_cons]
  unfold csvEscape
  split
  · simp [quoted, byteOrderMark]
  · cases a with
    | nil => simp [byteOrderMark]
    | cons c a => simpa using h

theorem trimStartMark_head (s : Text) : (trimStartMark s).head? ≠ some byteOrderMark := by
  intro h
  have hd := List.head?_dropWhile_not (fun c => decide (c = byteOrderMark)) s
  rw [show s.dropWhile _ = trimStartMark s from rfl, h] at hd
  simp at hd

theorem trimStartMark_of_head {s : Text} (h : s.head? ≠ some byteOrderMark) :
    trimStartMark s = s := by
  cases s with
  | nil => rfl
  | cons c s => simpa [trimStartMark] using h

/-! ## Round trip -/

section
variable {jsonText : Json → Text} {toRfc3339 : ℤ → Text}
  {read : Text → Except Text (List (List Text))} {headers values : List Text} {item : AgentJobRow}

def RowOver (headers values : List Text) (item : AgentJobRow) : Prop :=
  ∃ row, item.rowJson = .object row ∧
    headers.map (fun header => row.lookup header) = values.map fun value => some (Json.string value)

theorem rowValues_of_rowOver (h : RowOver headers values item) :
    rowValues jsonText toRfc3339 headers item =
      .ok (values ++ resultCells jsonText toRfc3339 item) := by
  obtain ⟨row, hrow, hvalues⟩ := h
  have hcells := congrArg (List.map fun v : Option Json =>
    (v.map (valueToCsvString jsonText)).getD []) hvalues
  rw [map_map, map_map] at hcells
  simp only [rowValues, hrow]
  congr 2
  exact hcells.trans (map_id _)

theorem asStr_ne_nil (status : AgentJobItemStatus) : status.asStr ≠ [] := by
  cases status <;> decide

theorem exported_not_blank (values : List Text) (item : AgentJobRow) :
    (values ++ resultCells jsonText toRfc3339 item).all List.isEmpty = false := by
  simp [resultCells, asStr_ne_nil]

theorem headers_of_parseCsv {content : Text} {rows : List (List Text)}
    (h : parseCsv read content = .ok (headers, rows)) :
    ∀ first ∈ headers.head?, first.head? ≠ some byteOrderMark := by
  obtain ⟨records, -, h⟩ := bind_ok_iff.mp h
  obtain ⟨rfl, -⟩ := Prod.mk.inj (Except.ok.inj h)
  intro first hfirst
  split at hfirst
  · simp at hfirst
  · cases hfirst
    exact trimStartMark_head _

end

def noteRow : AgentJobRow where
  toAgentJobItem := ⟨['i'], 0, .pending, none, 0, none, none, 0, none, none⟩
  jobId := ['j']
  sourceId := none
  rowJson := .object [(['a'], .string "x,\"y\"\n".toList), (['b'], .string [])]

end Codex.AgentJobs
