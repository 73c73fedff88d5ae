import QuicSql.Engine.Classify
import Mathlib.Algebra.Order.Ring.Int

/-!
# The caps of a result

`Query` tests the cap of rows before it scans a row and the cap of bytes after every cell of
it, with a sum kept in an int64. As long as the sum fits, it keeps the rows that the plain scan
over whole rows keeps; what it returns is then said for that scan.
-/

namespace QuicSql

/-- The caps of a result. -/
structure Engine where
  maxRows : Int64
  maxBytes : Int64

namespace Engine

open Hrana (Result)
open Wire

variable {F : Type}

/-- What is scanned into a cell; a time comes with its RFC 3339 text. -/
inductive DriverValue (F : Type) where
  | nil
  | bool (b : Bool)
  | int64 (i : Int64)
  | float64 (f : F)
  | string (s : String)
  | bytes (b : List UInt8)
  | time (text : String)

def fromAny : DriverValue F → Value F
  | .nil => .null
  | .bool b => .int (if b then 1 else 0)
  | .int64 i => .int i
  | .float64 f => .float f
  | .string s => .text s
  | .bytes b => .blob b
  | .time text => .text text

def defaultMaxRows : Int64 := 100000

def defaultMaxResultBytes : Int64 := 67108864

def new (maxRows maxResultBytes : Int64) : Engine where
  maxRows := if maxRows ≤ 0 then defaultMaxRows else maxRows
  maxBytes := if maxResultBytes ≤ 0 then defaultMaxResultBytes else maxResultBytes

/-- The rows of a query. A row that does not scan is its error; `err` is what ended the
iteration, and `interrupted` what `rows.Err` returns when the loop was left before. -/
structure Rows (F : Type) where
  columns : Except RunError (List String)
  rows : List (Except RunError (List (DriverValue F)))
  err : Option RunError
  interrupted : Option RunError

variable (e : Engine)

/-- The cells of a row, with the sum of bytes and whether it has reached the cap. -/
def scanCells : List (DriverValue F) → Int64 → Bool → List (Value F) × Int64 × Bool
  | [], bytes, truncated => ([], bytes, truncated)
  | v :: rest, bytes, truncated =>
    let bytes' := bytes + Int64.ofNat (size (fromAny v))
    let (row, total, cut) := scanCells rest bytes' (truncated || decide (e.maxBytes ≤ bytes'))
    (fromAny v :: row, total, cut)

def scanRows : List (Except RunError (List (DriverValue F))) → List (List (Value F)) → Int64 →
    Except RunError (List (List (Value F)) × Bool)
  | [], kept, _ => .ok (kept, false)
  | row :: rest, kept, bytes =>
    if e.maxRows.toInt ≤ kept.length then .ok (kept, true)
    else
      match row with
      | .error err => .error err
      | .ok cells =>
        let (values, total, cut) := e.scanCells cells bytes false
        if cut then .ok (kept ++ [values], true) else scanRows rest (kept ++ [values]) total

/-- `Query`, with the answer of `QueryContext`: both a result and an error may be returned. -/
def query (answer : Except RunError (Rows F)) : Option (Result F) × Option RunError :=
  match answer with
  | .error err => (none, some err)
  | .ok r =>
    match r.columns with
    | .error err => (none, some err)
    | .ok cols =>
      match e.scanRows r.rows [] 0 with
      | .error err => (none, some err)
      | .ok (kept, truncated) => (some ⟨cols, kept, 0, 0, truncated⟩, if truncated then r.interrupted else r.err)

def caps : Caps := ⟨e.maxRows.toInt.toNat, e.maxBytes.toInt.toNat⟩

variable {e}

theorem new_pos (maxRows maxResultBytes : Int64) :
    0 < (new maxRows maxResultBytes).maxRows.toInt ∧ 0 < (new maxRows maxResultBytes).maxBytes.toInt := by
  have hPos : ∀ {n d : Int64}, 0 < d.toInt → 0 < (if n ≤ 0 then d else n).toInt := by
    intro n d hd
    split
    · exact hd
    · rename_i hn
      simpa [Int64.le_iff_toInt_le] using hn
  exact ⟨hPos (by decide), hPos (by decide)⟩

/-! ## The sum of bytes -/

theorem toInt_add_ofNat {bytes : Int64} {n k : Nat} (h : bytes.toInt = n) (hFits : n + k < 2 ^ 63) :
    (bytes + Int64.ofNat k).toInt = (n + k : Nat) := by
  have hk : (Int64.ofNat k).toInt = k := Int64.toInt_ofNat_of_lt (by omega)
  rw [Int64.toInt_add, h, hk]
  exact Int.bmod_eq_of_le (by omega) (by omega)

def rowSize (row : List (Value F)) : Nat := (row.map size).sum

def totalSize (rows : List (List (Value F))) : Nat := (rows.map rowSize).sum

theorem scan_cons (c : Caps) (row : List (Value F)) (rest kept : List (List (Value F))) (n : Nat) :
    c.scan (row :: rest) kept n = if c.maxRows ≤ kept.length then (kept, true)
      else if c.maxBytes ≤ n + rowSize row then (kept ++ [row], true)
      else c.scan rest (kept ++ [row]) (n + rowSize row) := rfl

theorem totalSize_cons (row : List (Value F)) (rest : List (List (Value F))) :
    totalSize (row :: rest) = rowSize row + totalSize rest := by
  simp [totalSize]

theorem totalSize_append (rows rest : List (List (Value F))) :
    totalSize (rows ++ rest) = totalSize rows + totalSize rest := by
  simp [totalSize]

theorem scanCells_eq (e : Engine) (cells : List (DriverValue F)) {bytes : Int64} (truncated : Bool) {n : Nat}
    (hBytes : bytes.toInt = n) (hFits : n + rowSize (cells.map fromAny) < 2 ^ 63)
    (hSeen : e.maxBytes.toInt ≤ n → truncated = true) :
    ∃ total : Int64, total.toInt = (n + rowSize (cells.map fromAny) : Nat) ∧ e.scanCells cells bytes truncated =
      (cells.map fromAny, total, truncated || decide (e.maxBytes.toInt ≤ (n + rowSize (cells.map fromAny) : Nat))) := by
  induction cells generalizing bytes truncated n with
  | nil =>
    refine ⟨bytes, by simpa [rowSize] using hBytes, ?_⟩
    cases truncated <;> simp_all [scanCells, rowSize]
  | cons v rest ih =>
    have hSum : rowSize ((v :: rest).map fromAny) = size (fromAny v) + rowSize (rest.map fromAny) := by
      simp [rowSize]
    rw [hSum] at hFits ⊢
    have hNext := toInt_add_ofNat hBytes (k := size (fromAny v)) (by omega)
    have hTest : decide (e.maxBytes ≤ bytes + Int64.ofNat (size (fromAny v))) =
        decide (e.maxBytes.toInt ≤ (n + size (fromAny v) : Nat)) := by
      rw [decide_eq_decide, Int64.le_iff_toInt_le, hNext]
    have hSeen' : e.maxBytes.toInt ≤ (n + size (fromAny v) : Nat) →
        (truncated || decide (e.maxBytes.toInt ≤ (n + size (fromAny v) : Nat))) = true := by
      intro hReached
      rw [decide_eq_true hReached, Bool.or_true]
    obtain ⟨total, hTotal, hRest⟩ := ih _ hNext (by omega) hSeen'
    refine ⟨total, hTotal.trans (by omega), ?_⟩
    rw [scanCells]
    dsimp only
    rw [hTest, hRest, List.map_cons, Bool.or_assoc, ← Bool.decide_or]
    have hLast : (e.maxBytes.toInt ≤ (n + size (fromAny v) : Nat) ∨
        e.maxBytes.toInt ≤ (n + size (fromAny v) + rowSize (rest.map fromAny) : Nat)) ↔
        e.maxBytes.toInt ≤ (n + (size (fromAny v) + rowSize (rest.map fromAny)) : Nat) := by
      omega
    simp only [hLast]

theorem scanRows_eq {rows : List (List (DriverValue F))} {kept : List (List (Value F))} {bytes : Int64} {n : Nat}
    (hPos : 0 < e.maxRows.toInt) (hBytes : bytes.toInt = n) (hBelow : n < e.maxBytes.toInt)
    (hFits : n + totalSize (rows.map (List.map fromAny)) < 2 ^ 63) :
    e.scanRows (rows.map .ok) kept bytes = .ok (e.caps.scan (rows.map (List.map fromAny)) kept n) := by
  induction rows generalizing kept bytes n with
  | nil => rfl
  | cons cells rest ih =>
    rw [List.map_cons, totalSize_cons] at hFits
    have hCap : e.maxRows.toInt ≤ kept.length ↔ e.caps.maxRows ≤ kept.length := by
      simp only [caps]
      omega
    have hCut : e.maxBytes.toInt ≤ (n + rowSize (cells.map fromAny) : Nat) ↔
        e.caps.maxBytes ≤ n + rowSize (cells.map fromAny) := by
      simp only [caps]
      omega
    obtain ⟨total, hTotal, hCells⟩ := scanCells_eq e cells false hBytes (by omega) (by omega)
    rw [List.map_cons, List.map_cons, scanRows, scan_cons]
    simp only [hCells, Bool.false_or, hCap, hCut, decide_eq_true_eq]
    by_cases hRows : e.caps.maxRows ≤ kept.length
    · rw [if_pos hRows, if_pos hRows]
    · rw [if_neg hRows, if_neg hRows]
      by_cases hReached : e.caps.maxBytes ≤ n + rowSize (cells.map fromAny)
      · rw [if_pos hReached, if_pos hReached]
      · rw [if_neg hReached, if_neg hReached]
        exact ih hTotal (by omega) (by omega)

/-! ## What the scan keeps -/

/-- The scan keeps the rows up to some point: to the end, to the last row that fits, or to the
row that reaches the cap of bytes. -/
structure Cut (c : Caps) (rows kept : List (List (Value F))) (n : Nat) (out : List (List (Value F)) × Bool)
    (taken left : List (List (Value F))) : Prop where
  split : rows = taken ++ left
  result : out.1 = kept ++ taken
  fits : kept.length + taken.length ≤ c.maxRows
  below : n + totalSize taken.dropLast < c.maxBytes
  whole : out.2 = false → left = [] ∧ n + totalSize taken < c.maxBytes
  cut : out.2 = true → (kept.length + taken.length = c.maxRows ∧ left ≠ []) ∨ c.maxBytes ≤ n + totalSize taken

theorem scan_cut (c : Caps) (rows kept : List (List (Value F))) {n : Nat} (hKept : kept.length ≤ c.maxRows)
    (hBelow : n < c.maxBytes) : ∃ taken left, Cut c rows kept n (c.scan rows kept n) taken left := by
  induction rows generalizing kept n with
  | nil =>
    refine ⟨[], [], rfl, (List.append_nil kept).symm, hKept, hBelow, ?_, ?_⟩
    · exact fun _ => ⟨rfl, hBelow⟩
    · intro hCut
      cases hCut
  | cons row rest ih =>
    rw [scan_cons]
    by_cases hRows : c.maxRows ≤ kept.length
    · rw [if_pos hRows]
      refine ⟨[], row :: rest, rfl, (List.append_nil kept).symm, hKept, hBelow, ?_, ?_⟩
      · intro hWhole
        cases hWhole
      · exact fun _ => .inl ⟨Nat.le_antisymm hKept hRows, List.cons_ne_nil row rest⟩
    · rw [if_neg hRows]
      by_cases hReached : c.maxBytes ≤ n + rowSize row
      · rw [if_pos hReached]
        refine ⟨[row], rest, rfl, rfl, Nat.lt_of_not_le hRows, hBelow, ?_, ?_⟩
        · intro hWhole
          cases hWhole
        · exact fun _ => .inr (by simpa [totalSize] using hReached)
      · rw [if_neg hReached]
        have hLength : (kept ++ [row]).length = kept.length + 1 := List.length_append
        obtain ⟨taken, left, h⟩ := ih (kept ++ [row]) (by omega) (Nat.lt_of_not_le hReached)
        refine ⟨row :: taken, left, ?_, ?_, ?_, ?_, ?_, ?_⟩
        · rw [h.split, List.cons_append]
        · rw [h.result, List.append_assoc, List.singleton_append]
        · have hFits := h.fits
          rw [hLength] at hFits
          rw [List.length_cons]
          omega
        · cases taken with
          | nil => exact hBelow
          | cons next more =>
            have hRest := h.below
            rw [List.dropLast_cons_cons, totalSize_cons]
            omega
        · intro hWhole
          obtain ⟨hLeft, hSum⟩ := h.whole hWhole
          rw [totalSize_cons]
          exact ⟨hLeft, by omega⟩
        · intro hCut
          rw [totalSize_cons, List.length_cons]
          rcases h.cut hCut with ⟨hFull, hLeft⟩ | hSum
          · exact .inl ⟨by omega, hLeft⟩
          · exact .inr (by omega)

theorem totalSize_take_le (rows : List (List (Value F))) (k : Nat) : totalSize (rows.take k) ≤ totalSize rows := by
  have hSplit := totalSize_append (rows.take k) (rows.drop k)
  rw [List.take_append_drop] at hSplit
  omega

/-- The scan of a whole result is cut exactly if there are too many rows, or if rows that fit
reach the cap of bytes. -/
theorem Cut.cut_iff {c : Caps} {rows taken left : List (List (Value F))} {out : List (List (Value F)) × Bool}
    (h : Cut c rows [] 0 out taken left) :
    out.2 = true ↔ c.maxRows < rows.length ∨ ∃ k, k ≤ c.maxRows ∧ c.maxBytes ≤ totalSize (rows.take k) := by
  have hFits := h.fits
  rw [List.length_nil, Nat.zero_add] at hFits
  constructor
  · intro hTrue
    rcases h.cut hTrue with ⟨hFull, hLeft⟩ | hReached
    · have hMore := List.length_pos_iff.mpr hLeft
      rw [List.length_nil, Nat.zero_add] at hFull
      refine .inl ?_
      rw [h.split, List.length_append]
      omega
    · refine .inr ⟨taken.length, hFits, ?_⟩
      rw [h.split, List.take_left]
      omega
  · intro hCause
    by_contra hFalse
    obtain ⟨hLeft, hSum⟩ := h.whole (by simpa using hFalse)
    have hAll : rows = taken := by rw [h.split, hLeft, List.append_nil]
    subst hAll
    rcases hCause with hMany | ⟨k, -, hReached⟩
    · omega
    · have hLe := totalSize_take_le rows k
      omega

/-- A result is a prefix of the rows within both caps, and it is marked exactly if a cap cut it
off or was reached. -/
theorem query_truncates_honestly (maxRows maxResultBytes : Int64) (cols : List String) (rows : List (List (DriverValue F)))
    (err interrupted : Option RunError) (hFits : totalSize (rows.map (List.map fromAny)) < 2 ^ 63) :
    ∃ res : Result F, ((new maxRows maxResultBytes).query (.ok ⟨.ok cols, rows.map .ok, err, interrupted⟩)).1 = some res ∧
      res.rows <+: rows.map (List.map fromAny) ∧
      res.rows.length ≤ (new maxRows maxResultBytes).maxRows.toInt ∧
      totalSize res.rows.dropLast < (new maxRows maxResultBytes).maxBytes.toInt ∧
      (res.truncated = false → res.rows = rows.map (List.map fromAny)) ∧
      (res.truncated = true ↔ (new maxRows maxResultBytes).maxRows.toInt < rows.length ∨
        ∃ k : Nat, k ≤ (new maxRows maxResultBytes).maxRows.toInt ∧
          (new maxRows maxResultBytes).maxBytes.toInt ≤ totalSize ((rows.map (List.map fromAny)).take k)) := by
  obtain ⟨hRowsPos, hBytesPos⟩ := new_pos maxRows maxResultBytes
  generalize new maxRows maxResultBytes = e at hRowsPos hBytesPos ⊢
  have hScan : e.scanRows (rows.map .ok) [] 0 = .ok (e.caps.scan (rows.map (List.map fromAny)) [] 0) :=
    scanRows_eq hRowsPos rfl hBytesPos (by simpa using hFits)
  obtain ⟨taken, left, h⟩ := scan_cut e.caps (rows.map (List.map fromAny)) [] (n := 0) (Nat.zero_le _)
    (by simp only [caps]; omega)
  have hFitsRows : taken.length ≤ e.caps.maxRows := by simpa using h.fits
  have hBelow := h.below
  have hResult : (e.caps.scan (rows.map (List.map fromAny)) [] 0).1 = taken := h.result
  have hRowsCap : (e.caps.maxRows : Int) = e.maxRows.toInt := Int.toNat_of_nonneg hRowsPos.le
  have hBytesCap : (e.caps.maxBytes : Int) = e.maxBytes.toInt := Int.toNat_of_nonneg hBytesPos.le
  simp only [query, hScan]
  refine ⟨_, rfl, ⟨left, ?_⟩, ?_, ?_, ?_, ?_⟩
  all_goals dsimp only
  · rw [hResult, ← h.split]
  · rw [hResult]
    omega
  · rw [hResult]
    omega
  · intro hFalse
    rw [hResult, h.split, (h.whole hFalse).1, List.append_nil]
  · rw [h.cut_iff, List.length_map, ← hRowsCap, ← hBytesCap]
    exact_mod_cast Iff.rfl

theorem second_cell_reaches_cap :
    totalSize (F := Unit) ([[.int64 1], [.int64 2], [.int64 3]].map (List.map fromAny)) < 2 ^ 63 ∧
      ∃ res : Result Unit, ((new 0 10).query (.ok ⟨.ok ["x"], [.ok [.int64 1], .ok [.int64 2], .ok [.int64 3]], none,
        none⟩)).1 = some res ∧ res.rows <+: [[.int 1], [.int 2], [.int 3]] ∧ res.truncated = true := by
  obtain ⟨res, hRes, hPrefix, -, -, -, hTruncated⟩ :=
    query_truncates_honestly (F := Unit) 0 10 ["x"] [[.int64 1], [.int64 2], [.int64 3]] none none (by decide)
  exact ⟨by decide, res, hRes, hPrefix, hTruncated.mpr (.inr ⟨2, by decide, by decide⟩)⟩

/-! ## The plain query -/

/-- What the callers of `Query` make of a result and an error. -/
def returned : Option (Result F) × Option RunError → Except RunError (Result F)
  | (_, some err) => .error err
  | (some res, none) => .ok res
  | (none, none) => .error .other

/-- Where nothing interrupts the iteration, `Query` answers as the plain one does. -/
theorem caps_query_eq {σ : Type} {q : Queryer F σ} {st st' : σ} {s : Hrana.Statement F} {cols : List String}
    {rows : List (List (DriverValue F))} {err : Option RunError} (hRows : 0 < e.maxRows.toInt) (hBytes : 0 < e.maxBytes.toInt)
    (hAnswer : q.queryContext st s = (st', .ok (cols, rows.map (List.map fromAny), err)))
    (hFits : totalSize (rows.map (List.map fromAny)) < 2 ^ 63) :
    e.caps.query q st s = (st', returned (e.query (.ok ⟨.ok cols, rows.map .ok, err, none⟩))) := by
  have hScan : e.scanRows (rows.map .ok) [] 0 = .ok (e.caps.scan (rows.map (List.map fromAny)) [] 0) :=
    scanRows_eq hRows rfl hBytes (by simpa using hFits)
  simp only [Caps.query, hAnswer, query, hScan]
  generalize e.caps.scan (rows.map (List.map fromAny)) [] 0 = out
  obtain ⟨kept, truncated⟩ := out
  cases truncated <;> cases err <;> rfl

end Engine

end QuicSql
