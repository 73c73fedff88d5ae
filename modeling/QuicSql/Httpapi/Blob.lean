import QuicSql.Lib.Reader

/-!
# Streaming objects in and out

A write streams the body into the object in pieces of at most 64 KiB and cuts the object to
the streamed length. A read asks for the size first and then streams up to it.
-/

namespace QuicSql.Httpapi

open Lib

inductive BlobErr where
  | notFound
  | other (text : String)
deriving DecidableEq, Repr

structure BlobResponse where
  status : Nat
  message : String
  size : Option Int64
deriving DecidableEq, Repr

def blobFail (what : String) : BlobErr → BlobResponse
  | .notFound => ⟨404, what ++ ": not found", none⟩
  | .other text => ⟨422, what ++ ": " ++ text, none⟩

/-! ## The object -/

/-- Overwrites or extends; a gap reads as zeros. -/
def writeAt (obj : List UInt8) (off : Nat) (data : List UInt8) : List UInt8 :=
  obj.take off ++ List.replicate (off - obj.length) 0 ++ data ++ obj.drop (off + data.length)

def truncate (obj : List UInt8) (n : Nat) : List UInt8 := obj.take n

/-- `io.ReaderAt` over an object: how many bytes a call returns, and whether it reports the end. -/
structure ReaderAt where
  readAt : List UInt8 → Nat → Nat → Nat × Bool
  pos : ∀ obj n off, 0 < n → off < obj.length → 0 < (readAt obj n off).1
  le : ∀ obj n off, (readAt obj n off).1 ≤ n
  within : ∀ obj n off, (readAt obj n off).1 ≤ obj.length - off
  eof_end : ∀ obj n off, (readAt obj n off).2 = true → obj.length ≤ off + (readAt obj n off).1
  end_eof : ∀ obj n off, (readAt obj n off).1 < n → obj.length ≤ off + (readAt obj n off).1 →
    (readAt obj n off).2 = true

/-- Reads as much as there is, and reports the end only when it runs short. -/
def ReaderAt.full : ReaderAt where
  readAt obj n off := (min n (obj.length - off), decide (obj.length < off + n))
  pos obj n off hn hOff := by
    dsimp only
    omega
  le obj n off := Nat.min_le_left _ _
  within obj n off := Nat.min_le_right _ _
  eof_end obj n off h := by
    dsimp only
    have hShort := of_decide_eq_true h
    omega
  end_eof obj n off hShort hEnd := by
    dsimp only at hShort hEnd
    exact decide_eq_true (by omega)

/-! ## Streaming -/

/-- The errors of the store's calls, if any; `writeAt` by offset. -/
structure StoreAnswers where
  writer : Option BlobErr
  writeAt : Int64 → Option BlobErr
  body : String
  reclaimed : Bool
  truncate : Option BlobErr
  size : Option BlobErr
  reader : Option BlobErr

def StoreAnswers.ok : StoreAnswers := ⟨none, fun _ => none, "", true, none, none, none⟩

universe u

variable {σ : Type u}

def copyBuffer : ℕ+ := ⟨64 * 2 ^ 10, by decide⟩

/-- An error comes with the object as it was left. -/
def copyToWriterAt (ans : StoreAnswers) (r : Reader UInt8 σ) (s : σ) (obj : List UInt8) :
    Except (BlobErr × List UInt8) (List UInt8 × Int64) :=
  r.copyInto (fun _ => copyBuffer)
    (fun (obj, off) data =>
      match ans.writeAt off with
      | some err => .error (err, obj)
      | none => .ok (writeAt obj off.toInt.toNat data, off + Int64.ofNat data.length))
    (fun (obj, _) => (.other ans.body, obj)) s (obj, 0)

/-- The response, and the object after the request. -/
def blobWrite (maxBlob : Int64) (ans : StoreAnswers) (r : Reader UInt8 σ) (s : σ) (obj : List UInt8) :
    BlobResponse × List UInt8 :=
  match ans.writer with
  | some err => (blobFail "open writer" err, obj)
  | none =>
    match copyToWriterAt ans r.limit (s, maxBlob + 1) obj with
    | .error (err, left) => (blobFail "write" err, left)
    | .ok (written, n) =>
      if maxBlob < n then
        (⟨413, "object exceeds the maximum blob size", none⟩, if ans.reclaimed then truncate written 0 else written)
      else
        match ans.truncate with
        | some err => (blobFail "truncate" err, written)
        | none => (⟨200, "", some n⟩, truncate written n.toInt.toNat)

/-- What the client got, as an error when a write to it failed; `client` tells by offset
whether the write succeeds. -/
def copyFromReaderAt (ra : ReaderAt) (client : Nat → Bool) (obj : List UInt8) (size off : Nat) (out : List UInt8) :
    Except (List UInt8) (List UInt8) :=
  if off < size then
    if 0 < (ra.readAt obj copyBuffer off).1 ∧ client off = false then .error out
    else if _h : (ra.readAt obj copyBuffer off).2 = true then
      .ok (out ++ (obj.drop off).take (ra.readAt obj copyBuffer off).1)
    else
      copyFromReaderAt ra client obj size (off + (ra.readAt obj copyBuffer off).1)
        (out ++ (obj.drop off).take (ra.readAt obj copyBuffer off).1)
  else .ok out
termination_by obj.length - off
decreasing_by
  have hWithin := ra.within obj copyBuffer off
  have hBuffer : 0 < (copyBuffer : ℕ) := copyBuffer.property
  have hBelow : off < obj.length := by
    by_contra hEnd
    have hShort : (ra.readAt obj copyBuffer off).1 < copyBuffer := by omega
    exact _h (ra.end_eof obj copyBuffer off hShort (by omega))
  have hPos := ra.pos obj copyBuffer off hBuffer hBelow
  omega

/-- The response, with the announced length, and the bytes that follow it. -/
def blobRead (ans : StoreAnswers) (ra : ReaderAt) (client : Nat → Bool) (obj : List UInt8) : BlobResponse × List UInt8 :=
  match ans.size with
  | some err => (blobFail "size" err, [])
  | none =>
    match ans.reader with
    | some err => (blobFail "open reader" err, [])
    | none =>
      (⟨200, "", some (Int64.ofNat obj.length)⟩,
        match copyFromReaderAt ra client obj obj.length 0 [] with
        | .ok out | .error out => out)

/-! ## Writing -/

section Write

variable {ans : StoreAnswers} {r : Reader UInt8 σ} {s : σ} {obj got data : List UInt8} {maxBlob : Int64}

theorem isPrefix_writeAt (h : got <+: obj) : got ++ data <+: writeAt obj got.length data := by
  have hTake : obj.take got.length = got := List.prefix_iff_eq_take.mp h |>.symm
  have hNoGap : got.length - obj.length = 0 := Nat.sub_eq_zero_of_le h.length_le
  unfold writeAt
  rw [hTake, hNoGap, List.replicate_zero, List.append_nil]
  exact List.prefix_append _ _

/-- The object starts with what was read so far, and the offset is its length. -/
def Streamed (got : List UInt8) : List UInt8 × Int64 → Prop
  | (obj, off) => got <+: obj ∧ off = Int64.ofNat got.length

theorem Streamed.writeAt {off : Int64} (h : Streamed got (obj, off)) (hBound : got.length < 2 ^ 63) :
    Streamed (got ++ data) (writeAt obj off.toInt.toNat data, off + Int64.ofNat data.length) := by
  obtain ⟨hPrefix, hOff⟩ := h
  have hOffset : off.toInt.toNat = got.length := by
    rw [hOff, Int64.toInt_ofNat_of_lt hBound, Int.toNat_natCast]
  refine ⟨?_, ?_⟩
  · rw [hOffset]
    exact isPrefix_writeAt hPrefix
  · rw [hOff, List.length_append, Int64.ofNat_add]

theorem copyToWriterAt_ok {result : List UInt8 × Int64} (hBound : (r.rest s).length < 2 ^ 63)
    (h : copyToWriterAt ans r s obj = .ok result) : Streamed (r.rest s) result := by
  refine Reader.copyInto_ok ?_ (List.nil_append (r.rest s)) ⟨List.nil_prefix, rfl⟩ h
  rintro got ⟨obj, off⟩ data next hBelow hStreamed hPut
  dsimp only at hPut
  split at hPut
  · cases hPut
  · cases hPut
    have hLength := hBelow.length_le
    rw [List.length_append] at hLength
    exact hStreamed.writeAt (by omega)

theorem copyToWriterAt_total (obj : List UInt8) (hBound : (r.rest s).length < 2 ^ 63) (hReliable : r.Reliable)
    (hWrites : ∀ off, ans.writeAt off = none) :
    ∃ result, copyToWriterAt ans r s obj = .ok result ∧ Streamed (r.rest s) result := by
  refine Reader.copyInto_total hReliable ?_ (List.nil_append (r.rest s)) ⟨List.nil_prefix, rfl⟩
  rintro got ⟨obj, off⟩ data hBelow hStreamed
  have hLength := hBelow.length_le
  rw [List.length_append] at hLength
  refine ⟨_, ?_, hStreamed.writeAt (by omega)⟩
  dsimp only
  rw [hWrites]

theorem blobFail_status (what : String) (err : BlobErr) : (blobFail what err).status ≠ 200 := by
  cases err <;> simp [blobFail]

theorem blobWrite_success (h : (blobWrite maxBlob ans r s obj).1.status = 200) :
    ∃ written n, copyToWriterAt ans r.limit (s, maxBlob + 1) obj = .ok (written, n) ∧
      blobWrite maxBlob ans r s obj = (⟨200, "", some n⟩, truncate written n.toInt.toNat) := by
  unfold blobWrite at h ⊢
  split at h
  · exact absurd h (blobFail_status _ _)
  · split at h
    · exact absurd h (blobFail_status _ _)
    · rename_i written n hCopy
      split at h
      · simp at h
      · rename_i hFits
        split at h
        · exact absurd h (blobFail_status _ _)
        · exact ⟨written, n, hCopy, by rw [if_neg hFits]⟩

theorem Streamed.truncate {written body : List UInt8} {n : Int64} (h : Streamed body (written, n))
    (hBound : body.length < 2 ^ 63) : n.toInt = body.length ∧ truncate written n.toInt.toNat = body := by
  obtain ⟨hPrefix, hSize⟩ := h
  have hLength : n.toInt = body.length := by rw [hSize, Int64.toInt_ofNat_of_lt hBound]
  refine ⟨hLength, ?_⟩
  rw [hLength, Int.toNat_natCast]
  exact (List.prefix_iff_eq_take.mp hPrefix).symm

/-- With a store that answers, what is streamed is stored unless it is over the cap. -/
theorem blobWrite_streamed (maxBlob : Int64) (s : σ) (obj : List UInt8) (hReliable : r.Reliable) :
    blobWrite maxBlob .ok r s obj =
      if maxBlob < Int64.ofNat (r.capped s maxBlob).length then (⟨413, "object exceeds the maximum blob size", none⟩, [])
      else (⟨200, "", some (Int64.ofNat (r.capped s maxBlob).length)⟩, r.capped s maxBlob) := by
  have hBound := Reader.limit_rest_length r s (maxBlob + 1)
  have hWrites : ∀ off, StoreAnswers.ok.writeAt off = none := fun _ => rfl
  obtain ⟨⟨written, n⟩, hCopy, hStreamed⟩ := copyToWriterAt_total obj hBound hReliable.limit hWrites
  have hWrite : blobWrite maxBlob .ok r s obj =
      if maxBlob < n then (⟨413, "object exceeds the maximum blob size", none⟩, [])
      else (⟨200, "", some n⟩, truncate written n.toInt.toNat) := by
    unfold blobWrite
    rw [hCopy]
    rfl
  rw [hWrite, (hStreamed.truncate hBound).2, hStreamed.2]
  rfl

end Write

/-! ## Reading back -/

section Read

variable {obj out : List UInt8} {off : Nat}

theorem take_append_readAt (ra : ReaderAt) : obj.take off ++ (obj.drop off).take (ra.readAt obj copyBuffer off).1 =
    obj.take (off + (ra.readAt obj copyBuffer off).1) := List.take_add.symm

theorem copyFromReaderAt_all (ra : ReaderAt) (client : Nat → Bool) (hOff : off ≤ obj.length) (hOut : out = obj.take off) :
    copyFromReaderAt ra client obj obj.length off out = .ok obj ∨
      ∃ k, client k = false ∧ copyFromReaderAt ra client obj obj.length off out = .error (obj.take k) := by
  fun_induction copyFromReaderAt ra client obj obj.length off out with
  | case1 off out hBelow hFailed => exact .inr ⟨off, hFailed.2, by rw [hOut]⟩
  | case2 off out hBelow hTaken hEof =>
    refine .inl ?_
    rw [hOut, take_append_readAt, List.take_of_length_le (ra.eof_end obj copyBuffer off hEof)]
  | case3 off out hBelow hTaken hMore ih =>
    have hWithin := ra.within obj copyBuffer off
    refine ih (by omega) ?_
    rw [hOut, take_append_readAt]
  | case4 off out hEnd =>
    refine .inl ?_
    rw [hOut, List.take_of_length_le (by omega)]

end Read

/-- A success reports the length of the body, and a read that follows announces that length
and gives back the body, unless the client stops taking it. -/
theorem blob_write_then_read (maxBlob : Int64) (ans later : StoreAnswers) (r : Reader UInt8 σ) (s : σ)
    (old obj : List UInt8) (resp : BlobResponse) (ra : ReaderAt) (client : Nat → Bool)
    (hCap : maxBlob < Int64.maxValue) (hFits : (r.rest s).length ≤ maxBlob.toInt)
    (hWrite : blobWrite maxBlob ans r s old = (resp, obj)) (hOk : resp.status = 200) :
    ∃ n : Int64, n.toInt = (r.rest s).length ∧ resp.size = some n ∧
      (later.size = none → later.reader = none →
        (blobRead later ra client obj).1 = ⟨200, "", some n⟩ ∧
          ((blobRead later ra client obj).2 = r.rest s ∨
            ∃ k, client k = false ∧ (blobRead later ra client obj).2 = (r.rest s).take k)) := by
  obtain ⟨written, n, hCopy, hResult⟩ := blobWrite_success (by rw [hWrite]; exact hOk)
  have hStreamed : Streamed (r.capped s maxBlob) (written, n) := copyToWriterAt_ok (Reader.limit_rest_length r s _) hCopy
  rw [Reader.capped_of_fits hCap hFits] at hStreamed
  have hBound : (r.rest s).length < 2 ^ 63 := by
    have hUpper := maxBlob.toInt_lt
    omega
  obtain ⟨hLength, hBody⟩ := hStreamed.truncate hBound
  rw [hBody] at hResult
  cases hWrite.symm.trans hResult
  refine ⟨n, hLength, rfl, fun hSize hReader => ?_⟩
  rw [blobRead, hSize, hReader]
  refine ⟨by rw [hStreamed.2], ?_⟩
  have hRead := copyFromReaderAt_all ra client (Nat.zero_le (r.rest s).length) List.take_zero.symm
  rcases hRead with hAll | ⟨k, hGone, hPart⟩
  · exact .inl (by rw [hAll])
  · exact .inr ⟨k, hGone, by rw [hPart]⟩

theorem rewritten_object_reads_back :
    (blobRead .ok .full (fun _ => true) (blobWrite 4 .ok (Reader.ofChunks false) [[1, 2], [], [3]] [9, 9, 9, 9, 9]).2).2 =
      [1, 2, 3] := by
  have hWrite := blobWrite_streamed 4 [[1, 2], [], [3]] [9, 9, 9, 9, 9] (Reader.ofChunks_reliable false)
  rw [if_neg (by decide)] at hWrite
  obtain ⟨n, -, -, hRead⟩ := blob_write_then_read 4 .ok .ok (Reader.ofChunks false) [[1, 2], [], [3]] [9, 9, 9, 9, 9]
    _ _ .full (fun _ => true) (by decide) (by decide) hWrite rfl
  rcases (hRead rfl rfl).2 with hAll | ⟨k, hGone, -⟩
  · rw [hWrite, hAll]
    rfl
  · cases hGone

end QuicSql.Httpapi
