import QuicSql.Client.Result
import QuicSql.Engine.Query

/-!
# Reading a result to its end

`database/sql` calls `Next` on the rows of the driver until it returns an error: the end of the
rows, or that the server cut them off. What a caller sees is then the rows of the query up to
some point, and an end without error means all of them.
-/

namespace QuicSql.Client

open Wire Engine
open Httpapi (toResultJSON executeResp okStream pipelineResp)

variable {F : Type}

inductive RowsEnd where
  | eof
  | truncated
deriving DecidableEq, Repr

/-- The `width` destinations that `Next` fills from a row; those beyond the row are nil. -/
def fill (width : Nat) (row : List (GoValue F)) : List (GoValue F) := (List.range width).map fun j => row.getD j .nil

/-- `rows.Next` at row `i`. -/
def next (res : Result F) (width i : Nat) : Except RowsEnd (List (GoValue F) × Nat) :=
  match res.rows[i]? with
  | none => .error (if res.truncated then .truncated else .eof)
  | some row => .ok (fill width row, i + 1)

def drain (res : Result F) (width : Nat) : Nat → Nat → List (List (GoValue F)) × Option RowsEnd
  | 0, _ => ([], none)
  | fuel + 1, i =>
    match next res width i with
    | .error stop => ([], some stop)
    | .ok (row, i') => (row :: (drain res width fuel i').1, (drain res width fuel i').2)

theorem fill_self {width : Nat} {row : List (GoValue F)} (h : row.length = width) : fill width row = row := by
  subst h
  apply List.ext_getElem
  · simp [fill]
  · intro j _ hj
    simp [fill, List.getD_eq_getElem?_getD, hj]

theorem drain_eq (res : Result F) (width i : Nat) {fuel : Nat} (hFuel : res.rows.length - i < fuel) :
    drain res width fuel i =
      ((res.rows.drop i).map (fill width), some (if res.truncated then .truncated else .eof)) := by
  induction fuel generalizing i with
  | zero => omega
  | succ fuel ih =>
    rw [drain, next]
    cases hRow : res.rows[i]? with
    | none =>
      have hEnd : res.rows.length ≤ i := List.getElem?_eq_none_iff.mp hRow
      simp [List.drop_eq_nil_of_le hEnd]
    | some row =>
      obtain ⟨hi, rfl⟩ := List.getElem?_eq_some_iff.mp hRow
      simp only [ih (i + 1) (by omega), List.drop_eq_getElem_cons hi, List.map_cons]

/-! ## From the engine to the caller -/

def cellOf (fl : FloatCodec F) (v : DriverValue F) : GoValue F := goValue (delivered fl (fromAny v))

/-- The cap of rows or the cap of bytes is reached: there are more rows than it allows, or rows
that it allows fill the bytes. -/
def Exceeds (e : Engine) (rows : List (List (DriverValue F))) : Prop :=
  e.maxRows.toInt < rows.length ∨
    ∃ k : Nat, k ≤ e.maxRows.toInt ∧ e.maxBytes.toInt ≤ totalSize ((rows.map (List.map fromAny)).take k)

theorem query_keeps (maxRows maxResultBytes : Int64) (cols : List String) (rows : List (List (DriverValue F)))
    (hFits : totalSize (rows.map (List.map fromAny)) < 2 ^ 63) :
    ∃ (k : Nat) (cut : Bool),
      returned ((Engine.new maxRows maxResultBytes).query (.ok ⟨.ok cols, rows.map .ok, none, none⟩)) =
        .ok ⟨cols, (rows.take k).map (List.map fromAny), 0, 0, cut⟩ ∧
      (cut = true ↔ Exceeds (Engine.new maxRows maxResultBytes) rows) ∧ (cut = false → rows.take k = rows) := by
  obtain ⟨hRowsPos, hBytesPos⟩ := new_pos maxRows maxResultBytes
  generalize Engine.new maxRows maxResultBytes = e at hRowsPos hBytesPos ⊢
  have hScan : e.scanRows (rows.map .ok) [] 0 = .ok (e.caps.scan (rows.map (List.map fromAny)) [] 0) :=
    scanRows_eq hRowsPos rfl hBytesPos (by simpa using hFits)
  obtain ⟨taken, left, hCut⟩ := scan_cut e.caps (rows.map (List.map fromAny)) [] (n := 0) (Nat.zero_le _)
    (by simp only [caps]; omega)
  have hTaken : taken = (rows.take taken.length).map (List.map fromAny) := by
    rw [List.map_take, hCut.split, List.take_left]
  refine ⟨taken.length, (e.caps.scan (rows.map (List.map fromAny)) [] 0).2, ?_, ?_, ?_⟩
  · rw [← hTaken]
    have hKept : (e.caps.scan (rows.map (List.map fromAny)) [] 0).1 = taken := hCut.result
    simp only [query, hScan, hKept, ite_self, returned]
  · have hRowsCap : (e.caps.maxRows : Int) = e.maxRows.toInt := Int.toNat_of_nonneg hRowsPos.le
    have hBytesCap : (e.caps.maxBytes : Int) = e.maxBytes.toInt := Int.toNat_of_nonneg hBytesPos.le
    rw [hCut.cut_iff, Exceeds, List.length_map, ← hRowsCap, ← hBytesCap]
    exact_mod_cast Iff.rfl
  · intro hWhole
    obtain ⟨hLeft, -⟩ := hCut.whole hWhole
    have hLength := congrArg List.length hCut.split
    rw [List.length_map, hLeft, List.append_nil] at hLength
    rw [← hLength, List.take_length]

/-- A query whose rows are read to the end through the driver, over either endpoint: the caller
sees the rows of the query up to some point, with every cell as it arrives. It is told that the
result was cut off exactly if a cap of the server is reached, and otherwise it has seen all. -/
theorem rows_read_honestly (json : EnvelopeCodec) (b64 : Base64) (fl : FloatCodec F) (maxRows maxResultBytes : Int64)
    (cols : List String) (rows : List (List (DriverValue F))) (hWidth : ∀ row ∈ rows, row.length = cols.length)
    (hFits : totalSize (rows.map (List.map fromAny)) < 2 ^ 63) (baton : Option String) :
    ∃ res shownRows stop,
      returned ((Engine.new maxRows maxResultBytes).query (.ok ⟨.ok cols, rows.map .ok, none, none⟩)) = .ok res ∧
      doResult json b64 fl (json.encode ((toResultJSON res).node json b64 fl)) = .ok shownRows ∧
      execResult json b64 fl (json.encode (pipelineResp json baton
        [okStream json (executeResp json b64 fl (Hrana.toHStmtResult res (some true)))])) = .ok shownRows ∧
      shownRows.columns = cols ∧
      (∃ k, ∀ fuel, rows.length < fuel →
        drain shownRows cols.length fuel 0 = ((rows.take k).map (List.map (cellOf fl)), some stop) ∧
          (stop = .eof → rows.take k = rows)) ∧
      (stop = .truncated ↔ Exceeds (Engine.new maxRows maxResultBytes) rows) := by
  obtain ⟨k, cut, hQuery, hCut, hWhole⟩ := query_keeps maxRows maxResultBytes cols rows hFits
  have hRead : hpResult (streamDocument json b64 fl (Hrana.toHStmtResult
      (⟨cols, (rows.take k).map (List.map fromAny), 0, 0, cut⟩ : Hrana.Result F) (some true))) =
      .ok (okResult json b64 fl (Hrana.toHStmtResult _ (some true))) := rfl
  refine ⟨_, _, if cut then .truncated else .eof, hQuery, doResult_node json b64 fl _, ?_, rfl, ⟨k, ?_⟩, ?_⟩
  · rw [execResult_pipelineResp json b64 fl (okStream_value json b64 fl _) hRead]
    exact resultFromExecute_okResult json b64 fl (by decide) _
  · intro fuel hFuel
    have hShown : (shown fl (⟨cols, (rows.take k).map (List.map fromAny), 0, 0, cut⟩ : Hrana.Result F)).rows =
        (rows.take k).map (List.map (cellOf fl)) := by
      simp only [shown, List.map_map, Function.comp_def]
      rfl
    have hLength : (rows.take k).length ≤ rows.length := List.length_take_le' _ _
    constructor
    · rw [drain_eq _ _ 0 (by rw [hShown, List.length_map]; omega), hShown, List.drop_zero]
      congr 1
      -- Every row has a cell for each column.
      have hFill : ∀ row ∈ (rows.take k).map (List.map (cellOf fl)), fill cols.length row = row := by
        intro row hRow
        obtain ⟨cells, hCells, rfl⟩ := List.mem_map.mp hRow
        refine fill_self ?_
        rw [List.length_map, hWidth cells (List.mem_of_mem_take hCells)]
      rw [List.map_congr_left hFill, List.map_id']
    · intro hEof
      refine hWhole ?_
      cases cut with
      | true => cases hEof
      | false => rfl
  · rw [← hCut]
    cases cut <;> simp

theorem third_row_cut :
    ∃ res shownRows stop,
      returned ((Engine.new 2 0).query (.ok ⟨.ok ["n"], [.ok [.int64 1], .ok [.float64 none], .ok [.int64 3]], none, none⟩)) =
        .ok res ∧
      doResult plainEnvelope stdEncoding integralFloats (plainEnvelope.encode ((toResultJSON res).node plainEnvelope stdEncoding
        integralFloats)) = .ok shownRows ∧
      (∃ k, ∀ fuel, 3 < fuel → drain shownRows 1 fuel 0 =
        (([[.int64 1], [.float64 none], [.int64 3]].take k).map (List.map (cellOf integralFloats)), some stop)) ∧
      stop = .truncated := by
  obtain ⟨res, shownRows, stop, hQuery, hNative, -, -, ⟨k, hDrain⟩, hStop⟩ := rows_read_honestly plainEnvelope stdEncoding
    integralFloats 2 0 ["n"] [[.int64 1], [.float64 none], [.int64 3]] (by decide) (by decide) none
  exact ⟨res, shownRows, stop, hQuery, hNative, ⟨k, fun fuel hFuel => (hDrain fuel hFuel).1⟩, hStop.mpr (.inl (by decide))⟩

end QuicSql.Client
