import QuicSql.Admin.Restore
import QuicSql.Lib.Reader

/-!
# The upload of a restore

The body is streamed into the temporary file with a limit of one byte past the cap, and the
file is handed to validation unless it is longer than the cap.
-/

namespace QuicSql.Admin

open Lib

universe u v

/-- The buffer of the copy, and whether the file takes a write at a length. -/
structure TempFile where
  room : List UInt8 × Int64 → ℕ+
  takes : Nat → Bool

section Streaming

variable {σ : Type v}

/-- `io.Copy` into the temporary file: its bytes and the count. -/
def copyUpload (tmp : TempFile) (r : Reader UInt8 σ) (s : σ) : Except Unit (List UInt8 × Int64) :=
  r.copyInto tmp.room
    (fun (file, n) data =>
      if tmp.takes file.length then .ok (file ++ data, n + Int64.ofNat data.length) else .error ())
    (fun _ => ()) s ([], 0)

/-- The file that validation gets, and the count; a limit that is not positive is none. -/
def upload (tmp : TempFile) (limit : Int64) (r : Reader UInt8 σ) (s : σ) :
    Except RestoreResponse (List UInt8 × Int64) :=
  match if 0 < limit then copyUpload tmp r.limit (s, limit + 1) else copyUpload tmp r s with
  | .error () => .error (writeErr 400 "restore: upload failed")
  | .ok (file, n) =>
    if 0 < limit ∧ limit < n then .error (writeErr 413 "restore image exceeds the size cap") else .ok (file, n)

theorem copyUpload_ok {tmp : TempFile} {r : Reader UInt8 σ} {s : σ} (hReliable : r.Reliable)
    (hTakes : ∀ k, tmp.takes k = true) : copyUpload tmp r s = .ok (r.rest s, Int64.ofNat (r.rest s).length) := by
  have hCopy : ∃ c, copyUpload tmp r s = .ok c ∧ c = (r.rest s, Int64.ofNat (r.rest s).length) := by
    refine Reader.copyInto_total (I := fun got b => b = (got, Int64.ofNat got.length)) hReliable ?_
      (List.nil_append (r.rest s)) rfl
    rintro got ⟨file, n⟩ data - hSame
    cases hSame
    refine ⟨(got ++ data, Int64.ofNat got.length + Int64.ofNat data.length), if_pos (hTakes _), ?_⟩
    rw [List.length_append, Int64.ofNat_add]
  obtain ⟨c, hOk, hEq⟩ := hCopy
  rw [hOk, hEq]

theorem upload_capped {tmp : TempFile} {r : Reader UInt8 σ} {s : σ} {limit : Int64} (hReliable : r.Reliable)
    (hTakes : ∀ k, tmp.takes k = true) (hPos : 0 < limit) :
    upload tmp limit r s =
      if limit < Int64.ofNat (r.capped s limit).length then .error (writeErr 413 "restore image exceeds the size cap")
      else .ok (r.capped s limit, Int64.ofNat (r.capped s limit).length) := by
  unfold upload
  rw [if_pos hPos, copyUpload_ok hReliable.limit hTakes]
  dsimp only
  rw [Reader.capped]
  simp only [hPos, true_and]

end Streaming

/-! ## The upload that validation sees -/

variable {P : Type u} {σ : Type v}

/-- What SQLite says about a file of these bytes; one that is too short has no header. -/
structure FileCheck (P : Type u) where
  inspect : List UInt8 → Upload P
  size_eq : ∀ file, (inspect file).size = file.length
  failed_eq : ∀ file, (inspect file).failed = false
  header_short : ∀ file, file.length < 16 → (inspect file).header = none

def receiveStream (check : FileCheck P) (tmp : TempFile) (limit : Int64) (r : Reader UInt8 σ) (s : σ) :
    Except RestoreResponse Int :=
  match upload tmp limit r s with
  | .error response => .error response
  | .ok (file, n) =>
    match validateSQLiteImage (check.inspect file) with
    | .error _ => .error (writeErr 400 "restore: uploaded file is not a valid SQLite database")
    | .ok () => .ok n.toInt

theorem validate_no_header {up : Upload P} (h : up.header = none) :
    validateSQLiteImage up = .error "not a SQLite database file" := by
  unfold validateSQLiteImage
  rw [h, if_pos (by simp)]

theorem copied_eq {r : Reader UInt8 σ} {s : σ} {limit : Int64} (hPos : 0 < limit) :
    copied limit.toInt (r.rest s).length = (r.capped s limit).length := by
  have hLimit : 0 < limit.toInt := Int64.lt_iff_toInt_lt.mp hPos
  have hNext : Int64.ofInt (limit.toInt + 1) = limit + 1 := by rw [Int64.ofInt_add, Int64.ofInt_toInt]; rfl
  rw [copied, if_pos hLimit, hNext, Reader.capped, Reader.limit_rest, List.length_take]
  omega

theorem validate_capped (check : FileCheck P) {r : Reader UInt8 σ} {s : σ} {limit : Int64}
    (h : ¬ limit < Int64.ofNat (r.capped s limit).length) :
    validateSQLiteImage ((check.inspect (r.rest s)).cut (r.capped s limit).length) =
      validateSQLiteImage (check.inspect (r.capped s limit)) := by
  unfold Upload.cut
  rw [check.size_eq]
  split
  · rename_i hCut
    have hNothing : r.capped s limit = [] := by
      rcases Reader.capped_eq_or_nil h with hAll | hNothing
      · rw [hAll] at hCut
        omega
      · exact hNothing
    rw [hNothing, validate_no_header rfl, validate_no_header (check.header_short [] (by decide))]
  · rename_i hWhole
    rcases Reader.capped_eq_or_nil h with hAll | hNothing
    · rw [hAll]
    · rw [hNothing] at hWhole ⊢
      have hEmpty : r.rest s = [] := List.eq_nil_of_length_eq_zero (by simpa using hWhole)
      rw [hEmpty]

theorem receiveStream_eq (check : FileCheck P) (tmp : TempFile) (limit : Int64) (r : Reader UInt8 σ) (s : σ)
    (hReliable : r.Reliable) (hTakes : ∀ k, tmp.takes k = true) (hBody : (r.rest s).length < 2 ^ 63) :
    receiveStream check tmp limit r s = receive limit.toInt (check.inspect (r.rest s)) := by
  unfold receiveStream receive
  rw [check.failed_eq, check.size_eq]
  by_cases hPos : 0 < limit
  · have hLimit : 0 < limit.toInt := Int64.lt_iff_toInt_lt.mp hPos
    have hLength : (Int64.ofNat (r.capped s limit).length).toInt = (r.capped s limit).length :=
      Int64.toInt_ofNat_of_lt (Reader.limit_rest_length r s _)
    have hOver : limit < Int64.ofNat (r.capped s limit).length ↔ limit.toInt < (r.capped s limit).length := by
      rw [Int64.lt_iff_toInt_lt, hLength]
    rw [upload_capped hReliable hTakes hPos, copied_eq hPos]
    by_cases hLong : limit < Int64.ofNat (r.capped s limit).length
    · rw [if_pos hLong]
      simp [hLimit, hOver.mp hLong]
    · have hShort : ¬ limit.toInt < (r.capped s limit).length := hOver.not.mp hLong
      rw [if_neg hLong, validate_capped check hLong]
      cases hValid : validateSQLiteImage (check.inspect (r.capped s limit)) with
      | error text => simp [hValid, hShort]
      | ok _ => simp [hValid, hShort, hLength]
  · have hLimit : ¬ 0 < limit.toInt := fun h => hPos (Int64.lt_iff_toInt_lt.mpr h)
    have hUpload : upload tmp limit r s = .ok (r.rest s, Int64.ofNat (r.rest s).length) := by
      unfold upload
      rw [if_neg hPos, copyUpload_ok hReliable hTakes]
      simp [hPos]
    have hWhole : (check.inspect (r.rest s)).cut (r.rest s).length = check.inspect (r.rest s) := by
      rw [Upload.cut, check.size_eq, if_neg (Int.lt_irrefl _)]
    rw [hUpload, copied, if_neg hLimit, hWhole]
    cases hValid : validateSQLiteImage (check.inspect (r.rest s)) with
    | error text => simp [hValid, hLimit]
    | ok _ => simp [hValid, hLimit, Int64.toInt_ofNat_of_lt hBody]

end QuicSql.Admin
