import Mathlib.Data.List.Basic

/-!
# Result codes on the two endpoints

The native endpoint ships SQLite's numbers, the Hrana endpoint a symbolic name that the
client looks up again. The name table is partial: a code outside it takes the name of its
low byte, and a low byte outside it the name `SQLITE_ERROR`.
-/

namespace QuicSql.Wire

def primaryNames : List (Int × String) :=
  [(1, "SQLITE_ERROR"), (5, "SQLITE_BUSY"), (6, "SQLITE_LOCKED"), (8, "SQLITE_READONLY"), (9, "SQLITE_INTERRUPT"),
   (11, "SQLITE_CORRUPT"), (19, "SQLITE_CONSTRAINT"), (20, "SQLITE_MISMATCH"), (23, "SQLITE_AUTH")]

def extendedNames : List (Int × String) :=
  [(2067, "SQLITE_CONSTRAINT_UNIQUE"), (1555, "SQLITE_CONSTRAINT_PRIMARYKEY"), (787, "SQLITE_CONSTRAINT_FOREIGNKEY"),
   (1299, "SQLITE_CONSTRAINT_NOTNULL"), (275, "SQLITE_CONSTRAINT_CHECK")]

/-- The combined inverse. The extended names are entered last, so they are found first. -/
def nameToCode : List (String × Int) := (extendedNames ++ primaryNames).map Prod.swap

def codeName (primary : Int) : String :=
  match primaryNames.lookup primary with
  | some n => n
  | none => "SQLITE_ERROR"

/-- The low byte of a machine integer is its residue modulo 256. -/
def extendedCodeName (extended : Int) : String :=
  match extendedNames.lookup extended with
  | some n => n
  | none => codeName (extended % 256)

def codeForName (name : String) : Int := (nameToCode.lookup name).getD 0

/-! ## Errors of the server -/

structure EngineError where
  code : Int
  extended : Int
  msg : String
deriving DecidableEq, Repr

inductive RunError where
  | protocol (msg : String)
  | denied (msg : String)
  | sqlite (e : EngineError)
  | timedOut
  | other
deriving DecidableEq, Repr

structure HError where
  message : String
  code : Option String
deriving DecidableEq, Repr

def hErrorFrom : RunError → HError
  | .protocol msg => ⟨msg, none⟩
  | .denied msg => ⟨msg, none⟩
  | .sqlite e => ⟨e.msg, some (extendedCodeName e.extended)⟩
  | .timedOut => ⟨"statement timed out", none⟩
  | .other => ⟨"internal error", none⟩

structure ApiError where
  message : String
  code : Int
  extendedCode : Int
deriving DecidableEq, Repr

def toAPIError : RunError → ApiError
  | .sqlite e => ⟨e.msg, e.code, e.extended⟩
  | _ => ⟨"internal error", 0, 0⟩

/-- The members of the error object on the wire; a zero code is left out. -/
structure ErrorObject where
  message : String
  code : Option Int
  extendedCode : Option Int
deriving DecidableEq, Repr

def omitEmpty (n : Int) : Option Int := if n = 0 then none else some n

def ApiError.marshal (e : ApiError) : ErrorObject := ⟨e.message, omitEmpty e.code, omitEmpty e.extendedCode⟩

/-! ## Errors of the client -/

/-- `client.Error`; `Code()` and `ExtendedCode()` return the fields. -/
structure ClientError where
  message : String
  code : Int
  ext : Int
deriving DecidableEq, Repr

def doError (raw : ErrorObject) : ClientError := ⟨raw.message, raw.code.getD 0, raw.extendedCode.getD 0⟩

def extendedFromName : Option String → Int
  | none => 0
  | some name => codeForName name

def hranaError : Option HError → Except String ClientError
  | none => .error "quicsql: unknown stream error"
  | some e =>
    let ext := extendedFromName e.code
    .ok ⟨e.message, ext % 256, ext⟩

/-- The two client errors for one failure of the server. -/
def nativeClientError (err : RunError) : ClientError := doError (toAPIError err).marshal

def hranaClientError (err : RunError) : Except String ClientError := hranaError (some (hErrorFrom err))

/-! ## Where they agree -/

@[simp] theorem getD_omitEmpty (n : Int) : (omitEmpty n).getD 0 = n := by
  unfold omitEmpty
  split
  · rename_i hZero
    rw [hZero]
    rfl
  · rfl

theorem nativeClientError_sqlite (e : EngineError) : nativeClientError (.sqlite e) = ⟨e.msg, e.code, e.extended⟩ := by
  simp [nativeClientError, doError, ApiError.marshal, toAPIError]

theorem hranaClientError_sqlite (e : EngineError) :
    hranaClientError (.sqlite e) =
      .ok ⟨e.msg, codeForName (extendedCodeName e.extended) % 256, codeForName (extendedCodeName e.extended)⟩ :=
  rfl

/-- The code has a name of its own. -/
def named (code : Int) : Bool := (extendedNames.lookup code).isSome || (primaryNames.lookup code).isSome

theorem mem_of_lookup {table : List (Int × String)} {code : Int} {name : String} (h : table.lookup code = some name) :
    (code, name) ∈ table := by
  obtain ⟨before, after, rfl, -⟩ := List.lookup_eq_some_iff.mp h
  exact List.mem_append_right _ List.mem_cons_self

theorem named_codeForName : ∀ entry ∈ extendedNames ++ primaryNames, named (codeForName entry.2) = true := by
  decide

theorem codeForName_extendedCodeName :
    ∀ entry ∈ extendedNames ++ primaryNames, codeForName (extendedCodeName entry.1) = entry.1 := by
  decide

theorem extendedCodeName_mem (extended : Int) : ∃ entry ∈ extendedNames ++ primaryNames, entry.2 = extendedCodeName extended := by
  unfold extendedCodeName
  split
  · rename_i name hName
    exact ⟨_, List.mem_append_left _ (mem_of_lookup hName), rfl⟩
  · unfold codeName
    split
    · rename_i name hName
      exact ⟨_, List.mem_append_right _ (mem_of_lookup hName), rfl⟩
    · exact ⟨(1, "SQLITE_ERROR"), by decide, rfl⟩

/-- A code survives the way over its name exactly when the name is its own. -/
theorem codeForName_eq_iff (extended : Int) : codeForName (extendedCodeName extended) = extended ↔ named extended = true := by
  constructor
  · intro hEq
    obtain ⟨entry, hEntry, hName⟩ := extendedCodeName_mem extended
    have hNamed := named_codeForName entry hEntry
    rwa [hName, hEq] at hNamed
  · intro hNamed
    have hEntry : ∃ name, (extended, name) ∈ extendedNames ++ primaryNames := by
      rcases Bool.or_eq_true_iff.mp hNamed with hSome | hSome
      · obtain ⟨name, hName⟩ := Option.isSome_iff_exists.mp hSome
        exact ⟨name, List.mem_append_left _ (mem_of_lookup hName)⟩
      · obtain ⟨name, hName⟩ := Option.isSome_iff_exists.mp hSome
        exact ⟨name, List.mem_append_right _ (mem_of_lookup hName)⟩
    obtain ⟨name, hMem⟩ := hEntry
    exact codeForName_extendedCodeName _ hMem

theorem errors_classify_alike_iff (e : EngineError) (hCodes : e.extended % 256 = e.code) :
    (∃ err, hranaClientError (.sqlite e) = .ok err ∧ err.code = (nativeClientError (.sqlite e)).code ∧
      err.ext = (nativeClientError (.sqlite e)).ext) ↔ named e.extended = true := by
  rw [nativeClientError_sqlite, hranaClientError_sqlite, ← codeForName_eq_iff]
  constructor
  · rintro ⟨err, hOk, -, hExt⟩
    cases hOk
    exact hExt
  · intro hSame
    refine ⟨_, rfl, ?_, hSame⟩
    dsimp only
    rw [hSame, hCodes]

theorem unique_violation_classifies_alike :
    ∃ err, hranaClientError (.sqlite ⟨19, 2067, "UNIQUE constraint failed: t.id"⟩) = .ok err ∧
      err.code = (nativeClientError (.sqlite ⟨19, 2067, "UNIQUE constraint failed: t.id"⟩)).code ∧
      err.ext = (nativeClientError (.sqlite ⟨19, 2067, "UNIQUE constraint failed: t.id"⟩)).ext :=
  (errors_classify_alike_iff ⟨19, 2067, "UNIQUE constraint failed: t.id"⟩ rfl).mpr (by decide)

/-- RAISE in a trigger loses its subtype on the Hrana side; a full disk changes its class. -/
theorem unnamed_codes_differ :
    (1811 % 256 = (19 : Int) ∧
      hranaClientError (.sqlite ⟨19, 1811, "no"⟩) = .ok ⟨"no", 19, 19⟩ ∧
      nativeClientError (.sqlite ⟨19, 1811, "no"⟩) = ⟨"no", 19, 1811⟩) ∧
    13 % 256 = (13 : Int) ∧
      hranaClientError (.sqlite ⟨13, 13, "database or disk is full"⟩) = .ok ⟨"database or disk is full", 1, 1⟩ ∧
      nativeClientError (.sqlite ⟨13, 13, "database or disk is full"⟩) = ⟨"database or disk is full", 13, 13⟩ := by
  decide

end QuicSql.Wire
