import QuicSql.Admin.Upload
import QuicSql.Httpapi.Blob

/-!
# Size caps

A request body, an object and a restore image are each read with a limit of one past their
cap, computed in signed 64-bit integers. The client guards the largest cap; the three sites
of the server do not.
-/

namespace QuicSql.Serverd

open Lib

universe u

inductive BodyErr where
  | read
  | tooLarge
deriving DecidableEq, Repr

section Sites

variable {σ : Type u} {room : List UInt8 → ℕ+} {r : Reader UInt8 σ} {s : σ} {m : Int64}

def readBody (room : List UInt8 → ℕ+) (maxBody : Int64) (r : Reader UInt8 σ) (s : σ) : Except BodyErr (List UInt8) :=
  match r.limit.readAll room .read (s, maxBody + 1) with
  | .error err => .error err
  | .ok b => if maxBody < Int64.ofNat b.length then .error .tooLarge else .ok b

/-- `Client.readBody`: a cap that is not positive is none. -/
def clientReadBody (room : List UInt8 → ℕ+) (maxResponse : Int64) (r : Reader UInt8 σ) (s : σ) :
    Except BodyErr (List UInt8) :=
  if maxResponse ≤ 0 then r.readAll room .read s
  else
    match r.limit.readAll room .read (s, if maxResponse < Int64.maxValue then maxResponse + 1 else maxResponse) with
    | .error err => .error err
    | .ok raw => if maxResponse < Int64.ofNat raw.length then .error .tooLarge else .ok raw

theorem readBody_capped (h : r.Reliable) :
    readBody room m r s =
      if m < Int64.ofNat (r.capped s m).length then .error .tooLarge else .ok (r.capped s m) := by
  unfold readBody
  rw [Reader.readAll_ok h.limit]
  rfl

theorem clientReadBody_exact (h : r.Reliable) (hPos : 0 < m) (hBody : (r.rest s).length < 2 ^ 63) :
    clientReadBody room m r s = if (r.rest s).length ≤ m.toInt then .ok (r.rest s) else .error .tooLarge := by
  unfold clientReadBody
  rw [if_neg (Int64.not_le.mpr hPos), Reader.readAll_ok h.limit]
  by_cases hCap : m < Int64.maxValue
  · rw [if_pos hCap]
    exact Reader.ite_capped hCap _ _
  · have hMax := Reader.eq_maxValue_of_not_lt hCap
    have hFits : ((r.rest s).length : Int) ≤ Int64.maxValue.toInt := by
      rw [Int64.toInt_maxValue]
      omega
    have hAll : r.limit.rest (s, Int64.maxValue) = r.rest s := List.take_of_length_le (by omega)
    rw [if_neg hCap, hMax, hAll, if_pos hFits]
    exact if_neg (Int64.not_lt.mpr (Int64.le_maxValue _))

open Admin Httpapi in
structure SitesExact (room : List UInt8 → ℕ+) (tmp : TempFile) (old : List UInt8) (m : Int64) (r : Reader UInt8 σ)
    (s : σ) : Prop where
  body : readBody room m r s = if (r.rest s).length ≤ m.toInt then .ok (r.rest s) else .error .tooLarge
  blob : if (r.rest s).length ≤ m.toInt then
      (blobWrite m .ok r s old).1.status = 200 ∧ (blobWrite m .ok r s old).2 = r.rest s
    else (blobWrite m .ok r s old).1.status = 413
  restore : upload tmp m r s =
    if (r.rest s).length ≤ m.toInt then .ok (r.rest s, Int64.ofNat (r.rest s).length)
    else .error (writeErr 413 "restore image exceeds the size cap")

theorem sitesExact_of_lt {tmp : Admin.TempFile} {old : List UInt8} (h : r.Reliable) (hTakes : ∀ k, tmp.takes k = true)
    (hPos : 0 < m) (hCap : m < Int64.maxValue) : SitesExact room tmp old m r s where
  body := by rw [readBody_capped h, Reader.ite_capped hCap]
  blob := by
    have hWrite := (Httpapi.blobWrite_streamed m s old h).trans (Reader.ite_capped hCap _
      (fun b => (Httpapi.BlobResponse.mk 200 "" (some (Int64.ofNat b.length)), b)))
    rw [hWrite]
    split
    · exact ⟨rfl, rfl⟩
    · rfl
  restore := by
    rw [Admin.upload_capped h hTakes hPos]
    exact Reader.ite_capped hCap _ (fun b => Except.ok (b, Int64.ofNat b.length))

end Sites

section Samples

private def halfKilobyte : ℕ+ := ⟨512, by decide⟩

private def sampleFile : Admin.TempFile := ⟨fun _ => halfKilobyte, fun _ => true⟩

/-- The sites are exact for every reader exactly below the largest cap. -/
theorem size_caps_exact_iff (m : Int64) (hPos : 0 < m) :
    (∀ (σ : Type) (r : Reader UInt8 σ) (s : σ) (room : List UInt8 → ℕ+) (tmp : Admin.TempFile) (old : List UInt8),
      r.Reliable → (∀ k, tmp.takes k = true) → SitesExact room tmp old m r s) ↔ m < Int64.maxValue := by
  constructor
  · intro h
    by_contra hCap
    have hMax := Reader.eq_maxValue_of_not_lt hCap
    subst hMax
    -- one byte is enough: the wrapped limit reads nothing of it
    have hReliable := Reader.ofChunks_reliable (α := UInt8) false
    have hSites := h _ (Reader.ofChunks false) [[1]] (fun _ => halfKilobyte) sampleFile [] hReliable (fun _ => rfl)
    have hBody := hSites.body
    rw [readBody_capped hReliable, Reader.capped_maxValue] at hBody
    revert hBody
    decide
  · intro hCap σ r s room tmp old h hTakes
    exact sitesExact_of_lt h hTakes hPos hCap

theorem three_bytes_over_two :
    readBody (fun _ => halfKilobyte) 2 (Reader.ofChunks true) [[1, 2], [3]] = .error .tooLarge := by
  have hSites := (size_caps_exact_iff 2 (by decide)).mpr (by decide) _ (Reader.ofChunks true) [[1, 2], [3]]
    (fun _ => halfKilobyte) sampleFile [] (Reader.ofChunks_reliable true) (fun _ => rfl)
  rw [hSites.body]
  rfl

/-- At the largest cap a body of one byte is read as empty, an object is emptied by a
successful write, and an empty file is validated for an image. -/
theorem largest_cap_reads_nothing :
    readBody (fun _ => halfKilobyte) Int64.maxValue (Reader.ofChunks false) [[1]] = .ok [] ∧
      Httpapi.blobWrite Int64.maxValue .ok (Reader.ofChunks false) [[1]] [7, 8] = (⟨200, "", some 0⟩, []) ∧
      Admin.upload sampleFile Int64.maxValue (Reader.ofChunks false) [[1]] = .ok ([], 0) := by
  have hReliable := Reader.ofChunks_reliable (α := UInt8) false
  refine ⟨?_, ?_, ?_⟩
  · rw [readBody_capped hReliable]
    rfl
  · rw [Httpapi.blobWrite_streamed _ _ _ hReliable]
    rfl
  · rw [Admin.upload_capped hReliable (fun _ => rfl) (by decide)]
    rfl

end Samples

end QuicSql.Serverd
