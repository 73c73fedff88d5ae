import QuicSql.Lib.Pager
import QuicSql.Registry.Model

/-!
# Restoring a file database

The handler validates the uploaded image beside the target, reserves the database, removes
the side files of the target and renames the image into place. It counts on the reserved
handle having been open, and on its close having checkpointed.
-/

namespace QuicSql.Admin

open Lib

universe u

variable {P : Type u} [Inhabited P]

structure RestoreRequest where
  method : String
  database : String
  serverAdmin : Bool
deriving DecidableEq, Repr

/-- The body as it arrives in the temporary file, and what SQLite says about that file. -/
structure Upload (P : Type u) where
  size : Int
  failed : Bool
  header : Option String
  opens : Option String
  integrity : Except String String
  image : List P

structure Outcomes where
  tempCreated : Bool
  checkpointed : Bool
  renamed : Bool
deriving DecidableEq, Repr

structure RestoreResponse where
  status : Nat
  message : String
  bytes : Option Int
deriving DecidableEq, Repr

def writeErr (status : Nat) (message : String) : RestoreResponse := ⟨status, message, none⟩

def sqliteMagic : String := "SQLite format 3\x00"

def defaultMaxRestoreBytes : Int := 4 * 2 ^ 30

/-- The integrity check answers one line; `opens` is the error of the open, if any. -/
def validateSQLiteImage (up : Upload P) : Except String Unit :=
  if up.header ≠ some sqliteMagic then .error "not a SQLite database file"
  else
    match up.opens with
    | some err => .error err
    | none =>
      match up.integrity with
      | .error err => .error err
      | .ok res => if res ≠ "ok" then .error ("integrity check: " ++ res) else .ok ()

def restoreLimit (maxRestore : Int) : Int := if maxRestore = 0 then defaultMaxRestoreBytes else maxRestore

/-- How much of the body is copied: one byte over a positive limit is enough to see it. The
sum is one of signed 64-bit integers. -/
def copied (limit size : Int) : Int :=
  if 0 < limit then min size (max 0 (Int64.ofInt (limit + 1)).toInt) else size

/-- The file after `n` bytes were copied. A body is cut only when the limit wraps, and then
the file is empty: it has no header. -/
def Upload.cut (up : Upload P) (n : Int) : Upload P := if n < up.size then { up with header := none } else up

def receive (limit : Int) (up : Upload P) : Except RestoreResponse Int :=
  if up.failed then .error (writeErr 400 "restore: upload failed")
  else if 0 < limit ∧ limit < copied limit up.size then .error (writeErr 413 "restore image exceeds the size cap")
  else
    match validateSQLiteImage (up.cut (copied limit up.size)) with
    | .error _ => .error (writeErr 400 "restore: uploaded file is not a valid SQLite database")
    | .ok () => .ok (copied limit up.size)

def prepare (maxRestore : Int) (reg : Registry) (req : RestoreRequest) (out : Outcomes) (up : Upload P) :
    Except RestoreResponse Int :=
  if req.method ≠ "POST" then .error (writeErr 405 "use POST")
  else if req.database = "" then .error (writeErr 400 "restore requires a ?database= query parameter")
  else if !req.serverAdmin then .error (writeErr 403 "server-admin capability required")
  else
    match reg.backends.lookup req.database with
    | none => .error (writeErr 404 "unknown database")
    | some be =>
      if be.kind ≠ "file" then .error (writeErr 400 "restore is only supported for file databases")
      else if !out.tempCreated then .error (writeErr 500 "restore: cannot create temp file")
      else receive (restoreLimit maxRestore) up

/-- The close of a detached handle; its error is ignored, and without a checkpoint the side
files stay. A name that was never opened has no handle to close. -/
def closeHandle (handle : Option Registry.DB) (checkpointed : Bool) (d : Disk P) : Disk P :=
  match handle with
  | none => d
  | some _ => if checkpointed then d.checkpoint else d

def markClosed (reg : Registry) : Option Registry.DB → Registry
  | none => reg
  | some db => reg.setStatus db.handle .closed

/-- Only the log and its index are removed, not a rollback journal. -/
def removeSidecars (d : Disk P) : Disk P := { d with wal := none }

structure Restored (P : Type u) where
  response : RestoreResponse
  disk : Disk P
  reg : Registry

/-- `handleRestore` on a target `d`; `later` is the registry when the database is reserved. -/
def handleRestore (maxRestore : Int) (reg later : Registry) (req : RestoreRequest) (out : Outcomes) (up : Upload P)
    (d : Disk P) : Restored P :=
  match prepare maxRestore reg req out up with
  | .error response => ⟨response, d, later⟩
  | .ok n =>
    match later.reserve req.database with
    | .error .busy => ⟨writeErr 409 "database busy (has active users); retry when idle", d, later⟩
    | .error _ => ⟨writeErr 500 "cannot reserve database", d, later⟩
    | .ok (reserved, handle) =>
      let bare := removeSidecars (closeHandle handle out.checkpointed d)
      let released := (markClosed reserved handle).releaseReservation req.database
      if out.renamed then ⟨⟨200, "restored", some n⟩, { bare with main := up.image }, released⟩
      else ⟨writeErr 500 "restore: could not replace the database file", bare, released⟩

/-! ## All or nothing -/

/-- Success leaves the uploaded content, anything else the content from before. -/
def AllOrNothing (d : Disk P) (image : List P) (r : Restored P) : Prop :=
  if r.response.status = 200 then r.disk.recovered = image else r.disk.recovered = d.recovered

/-- What the target must not carry when the swap begins: a hot journal that would be rolled
back over the new image, or, when the rename fails, commits that only the log has. -/
def SwapSafe (out : Outcomes) (image : List P) (d : Disk P) : Prop :=
  (out.renamed = true → ∀ j, d.journal = some j → j.Spares image) ∧
    (out.renamed = false → ∀ frames, d.wal = some frames → Carries frames d.rolledBack)

@[simp] theorem closeHandle_recovered (handle : Option Registry.DB) (checkpointed : Bool) (d : Disk P) :
    (closeHandle handle checkpointed d).recovered = d.recovered := by
  unfold closeHandle
  split
  · rfl
  · split <;> rfl

omit [Inhabited P] in
theorem receive_error {limit : Int} {up : Upload P} {response : RestoreResponse}
    (h : receive limit up = .error response) : response.status ≠ 200 := by
  unfold receive at h
  split at h
  · cases h
    decide
  · split at h
    · cases h
      decide
    · split at h
      · cases h
        decide
      · cases h

omit [Inhabited P] in
theorem prepare_error {maxRestore : Int} {reg : Registry} {req : RestoreRequest} {out : Outcomes} {up : Upload P}
    {response : RestoreResponse} (h : prepare maxRestore reg req out up = .error response) : response.status ≠ 200 := by
  unfold prepare at h
  split at h
  · cases h
    decide
  split at h
  · cases h
    decide
  split at h
  · cases h
    decide
  split at h
  · cases h
    decide
  split at h
  · cases h
    decide
  split at h
  · cases h
    decide
  exact receive_error h

theorem swap_iff (out : Outcomes) (image : List P) (left : Disk P) :
    (if out.renamed then ({ removeSidecars left with main := image } : Disk P).recovered = image
      else (removeSidecars left).recovered = left.recovered) ↔ SwapSafe out image left := by
  unfold SwapSafe
  cases out.renamed with
  | true =>
    have hJournal := ({ removeSidecars left with main := image } : Disk P).rolledBack_eq_main_iff
    have hNew : ({ removeSidecars left with main := image } : Disk P).recovered =
        ({ removeSidecars left with main := image } : Disk P).rolledBack := rfl
    rw [hNew]
    simpa [removeSidecars] using hJournal
  | false =>
    have hLog := left.recovered_eq_rolledBack_iff
    have hBare : (removeSidecars left).recovered = left.rolledBack := rfl
    rw [hBare]
    simpa [eq_comm] using hLog

theorem restore_all_or_nothing_iff (maxRestore : Int) (reg later : Registry) (req : RestoreRequest) (out : Outcomes)
    (up : Upload P) (d : Disk P) :
    AllOrNothing d up.image (handleRestore maxRestore reg later req out up d) ↔
      ∀ n reserved handle, prepare maxRestore reg req out up = .ok n → later.reserve req.database = .ok (reserved, handle) →
        SwapSafe out up.image (closeHandle handle out.checkpointed d) := by
  unfold handleRestore AllOrNothing
  cases hPrepare : prepare maxRestore reg req out up with
  | error response => simp [prepare_error hPrepare]
  | ok n =>
    dsimp only
    cases hReserve : later.reserve req.database with
    | error err => cases err <;> simp [writeErr]
    | ok result =>
      obtain ⟨reserved, handle⟩ := result
      have hSwap := swap_iff out up.image (closeHandle handle out.checkpointed d)
      rw [closeHandle_recovered] at hSwap
      constructor
      · intro hAll n' reserved' handle' _ hSame
        cases hSame
        refine hSwap.mp ?_
        cases hRenamed : out.renamed <;> simpa [hRenamed, writeErr] using hAll
      · intro hSafe
        have hResult := hSwap.mpr (hSafe n reserved handle rfl rfl)
        cases hRenamed : out.renamed <;> simpa [hRenamed, writeErr] using hResult

def oneFile : Registry := Registry.new (Finmap.singleton "d" ⟨"file", false⟩)

def goodUpload : Upload Nat := ⟨4096, false, some sqliteMagic, none, .ok "ok", [9]⟩

/-- Left by a crash: a transaction that only the log has. -/
def logged : Disk Nat := ⟨[1], some [⟨0, 2, some 1⟩], none⟩

/-- Left by a crash: a page already overwritten, its old content in the journal. -/
def interrupted : Disk Nat := ⟨[3], none, some ⟨true, 1, [(0, 1)]⟩⟩

def renameFails : Restored Nat :=
  handleRestore 0 oneFile oneFile ⟨"POST", "d", true⟩ ⟨true, true, false⟩ goodUpload logged

def renameWorks : Restored Nat :=
  handleRestore 0 oneFile oneFile ⟨"POST", "d", true⟩ ⟨true, true, true⟩ goodUpload interrupted

/-- A failed rename has already lost the log; a success is rolled back by the old journal. -/
theorem restore_not_all_or_nothing :
    (renameFails.response.status = 500 ∧ logged.recovered = [2] ∧ renameFails.disk.recovered = [1] ∧
      ¬ AllOrNothing logged goodUpload.image renameFails) ∧
    renameWorks.response.status = 200 ∧ goodUpload.image = [9] ∧ renameWorks.disk.recovered = [1] ∧
      ¬ AllOrNothing interrupted goodUpload.image renameWorks := by
  refine ⟨⟨by decide, by decide, by decide, ?_⟩, by decide, by decide, by decide, ?_⟩
  · unfold AllOrNothing
    decide
  · unfold AllOrNothing
    decide

end QuicSql.Admin
