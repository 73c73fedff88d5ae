import QuicSql.Lib.Transition
import QuicSql.Backend.Authorizer

/-!
# The mode of a connection

The state of a pooled connection that outlives a statement: its authorizer, the
`query_only` flag and the attached databases. Every step that talks to the
connection may fail; what it did until then stays.
-/

namespace QuicSql.Backend

open Lib

inductive Authorizer where
  | denyAttachDetach
  | denyWrites
  | permitAttach
deriving DecidableEq, Repr

def Authorizer.check : Authorizer → Op → String → String → Verdict
  | .denyAttachDetach => Backend.denyAttachDetach
  | .denyWrites => Backend.denyWrites
  | .permitAttach => Backend.permitAttach

/-- SQLite refuses to attach a database under the name of a built-in schema. -/
abbrev Schema := { name : String // name ≠ "main" ∧ name ≠ "temp" }

structure Conn where
  authorizer : Authorizer
  queryOnly : Bool
  attached : List Schema
deriving DecidableEq, Repr

/-- A connection as the driver opens it, with the hook of `installSecurity`. -/
def Conn.fresh : Conn := ⟨.denyAttachDetach, false, []⟩

def Conn.ReadOnly (c : Conn) : Prop := c.authorizer = .denyWrites ∧ c.queryOnly = true

/-- A statement, as far as it concerns the connection's mode. Every other statement is
known by what the authorizer is asked about it. A PRAGMA without an argument reads. -/
inductive Stmt where
  | pragma (name : String) (arg : Option String)
  | attach (file name : String)
  | detach (name : String)
  | other (asks : List (Op × String × String))
deriving DecidableEq, Repr

def Stmt.asks : Stmt → List (Op × String × String)
  | .pragma name arg => [(.pragma, name, arg.getD "")]
  | .attach file _ => [(.attach, file, "")]
  | .detach name => [(.detach, name, "")]
  | .other asks => asks

namespace Conn

def admits (c : Conn) (stmt : Stmt) : Bool :=
  stmt.asks.all (fun (op, arg1, arg2) => c.authorizer.check op arg1 arg2 = .ok)

def apply (c : Conn) : Stmt → Conn
  | .pragma name (some arg) => if isQueryOnly name then { c with queryOnly := sqliteBool arg } else c
  | .attach _ name =>
    if h : name ≠ "main" ∧ name ≠ "temp" then
      if c.attached.any (fun s => s.val = name) then c
      else { c with attached := c.attached ++ [⟨name, h⟩] }
    else c
  | .detach name => { c with attached := c.attached.filter (fun s => s.val ≠ name) }
  | .pragma _ none | .other _ => c

/-- Compile and run a statement; `ok` is false when it fails although it compiles. -/
def exec (c : Conn) (stmt : Stmt) (ok : Bool) : Conn × Bool :=
  if c.admits stmt && ok then (c.apply stmt, true) else (c, false)

def execAll (c : Conn) (stmts : List (Stmt × Bool)) : Conn :=
  stmts.foldl (fun c (stmt, ok) => (c.exec stmt ok).1) c

def setAuthorizer (c : Conn) (auth : Authorizer) (ok : Bool) : Conn × Bool :=
  if ok then ({ c with authorizer := auth }, true) else (c, false)

end Conn

structure Outcome where
  pragma : Bool
  swap : Bool
deriving DecidableEq, Repr

namespace Conn

def setConnMode (c : Conn) (readOnly : Bool) (outcome : Outcome) : Conn × Bool :=
  if readOnly then
    match c.exec (.pragma "query_only" (some "ON")) outcome.pragma with
    | (c', false) => (c', false)
    | (c', true) => c'.setAuthorizer .denyWrites outcome.swap
  else
    match c.setAuthorizer .denyAttachDetach outcome.swap with
    | (c', false) => (c', false)
    | (c', true) => c'.exec (.pragma "query_only" (some "OFF")) outcome.pragma

def setConnAttach (c : Conn) (ok : Bool) : Conn × Bool := c.setAuthorizer .permitAttach ok

def databaseList (c : Conn) : List String := "main" :: "temp" :: c.attached.map Subtype.val

/-- Every DETACH is attempted; the result is false if one failed. -/
def detachNames (detachOk : String → Bool) : Conn → List String → Conn × Bool
  | c, [] => (c, true)
  | c, name :: rest =>
    let (c', ok) := c.exec (.detach name) (detachOk name)
    let (c'', restOk) := detachNames detachOk c' rest
    (c'', ok && restOk)

def detachAll (c : Conn) (listOk : Bool) (detachOk : String → Bool) : Conn × Bool :=
  if listOk then
    detachNames detachOk c (c.databaseList.filter (fun name => name ≠ "main" && name ≠ "temp"))
  else (c, false)

def clearAttach (c : Conn) (listOk : Bool) (detachOk : String → Bool) (swapOk : Bool) : Conn × Bool :=
  let (c', detached) := c.detachAll listOk detachOk
  match c'.setAuthorizer .denyAttachDetach swapOk with
  | (c'', false) => (c'', false)
  | (c'', true) => (c'', detached)

end Conn

/-! ## A read-only connection under its client's statements -/

/-- Turns query_only off although the read-only authorizer lets it pass. -/
def Stmt.unlocks : Stmt → Bool
  | .pragma name (some arg) => isQueryOnly name && !sqliteBool arg && !falsyPragmaArg arg
  | _ => false

/-- Statements run one after another; one that is denied or fails changes nothing. -/
def execStep (c : Conn) (stmt : Stmt × Bool) : Option Conn := some (c.exec stmt.1 stmt.2).1

theorem exec_authorizer (c : Conn) (stmt : Stmt) (ok : Bool) :
    (c.exec stmt ok).1.authorizer = c.authorizer := by
  unfold Conn.exec
  split
  · cases stmt with
    | pragma name arg =>
      cases arg with
      | none => rfl
      | some arg =>
        dsimp only [Conn.apply]
        split <;> rfl
    | attach file name =>
      dsimp only [Conn.apply]
      split
      · split <;> rfl
      · rfl
    | detach name | other asks => rfl
  · rfl

theorem exec_queryOnly_of_not_pragma {c : Conn} {stmt : Stmt} {ok : Bool}
    (h : ∀ name arg, stmt ≠ .pragma name (some arg)) : (c.exec stmt ok).1.queryOnly = c.queryOnly := by
  unfold Conn.exec
  split
  · cases stmt with
    | pragma name arg =>
      cases arg with
      | none => rfl
      | some arg => exact absurd rfl (h name arg)
    | attach file name =>
      dsimp only [Conn.apply]
      split
      · split <;> rfl
      · rfl
    | detach name | other asks => rfl
  · rfl

theorem admits_query_only {c : Conn} {name : String} (hAuth : c.authorizer = .denyWrites)
    (hName : isQueryOnly name = true) (arg : String) :
    c.admits (.pragma name (some arg)) = !falsyPragmaArg arg := by
  have hVerdict := denyWrites_query_only (toLower_of_isQueryOnly hName) arg
  cases hFalsy : falsyPragmaArg arg <;>
    simp [Conn.admits, Stmt.asks, hAuth, Authorizer.check, hVerdict, hFalsy]

theorem admits_pragma {c : Conn} (hAuth : c.authorizer ≠ .denyWrites) (name : String) (arg : Option String) :
    c.admits (.pragma name arg) = true := by
  cases hEq : c.authorizer with
  | denyWrites => exact absurd hEq hAuth
  | denyAttachDetach =>
    simp [Conn.admits, Stmt.asks, hEq, Authorizer.check, denyAttachDetach]
  | permitAttach => simp [Conn.admits, Stmt.asks, hEq, Authorizer.check, permitAttach]

theorem exec_queryOnly {c : Conn} (hMode : c.ReadOnly) (stmt : Stmt) (ok : Bool) :
    (c.exec stmt ok).1.queryOnly = !(ok && stmt.unlocks) := by
  obtain ⟨hAuth, hOn⟩ := hMode
  cases stmt with
  | attach file name | detach name | other asks =>
    rw [exec_queryOnly_of_not_pragma (fun _ _ => Stmt.noConfusion), hOn]
    simp [Stmt.unlocks]
  | pragma name arg =>
    cases arg with
    | none =>
      have hRead : (c.exec (.pragma name none) ok).1.queryOnly = c.queryOnly := by
        apply exec_queryOnly_of_not_pragma
        simp
      simp [hRead, hOn, Stmt.unlocks]
    | some arg =>
      cases hName : isQueryOnly name with
      | false =>
        have hSame : (c.exec (.pragma name (some arg)) ok).1 = c := by
          unfold Conn.exec
          split
          · simp [Conn.apply, hName]
          · rfl
        rw [hSame, hOn, Stmt.unlocks, hName]
        simp
      | true =>
        unfold Conn.exec
        rw [admits_query_only hAuth hName]
        cases hFalsy : falsyPragmaArg arg <;> cases ok <;>
          simp [Conn.apply, Stmt.unlocks, hName, hFalsy, hOn]

theorem Conn.ReadOnly.exec {c : Conn} (hMode : c.ReadOnly) {stmt : Stmt} {ok : Bool}
    (h : (ok && stmt.unlocks) = false) : (c.exec stmt ok).1.ReadOnly := by
  refine ⟨(exec_authorizer c stmt ok).trans hMode.1, ?_⟩
  rw [exec_queryOnly hMode, h]
  rfl

def NoUnlock (_ : Conn) (stmt : Stmt × Bool) : Prop := (stmt.2 && stmt.1.unlocks) = false

/-- The guard on query_only stops an argument exactly when its trimmed lower case is one
of four words, and a read-only connection keeps query_only through exactly those
scripts in which no effective statement passes an argument that SQLite reads as false
and the guard does not know. -/
theorem query_only_kept_iff (attached : List Schema) (stmts : List (Stmt × Bool)) :
    (∀ name arg, isQueryOnly name = true →
      ((arg ≠ "" → sqliteBool arg = false → denyWrites .pragma name arg = .deny) ↔
        arg = "" ∨ sqliteBool arg = true ∨ toLower (trimSpace arg) ∈ falsyWords)) ∧
    (Always execStep (fun c => c.queryOnly = true) ⟨.denyWrites, true, attached⟩ stmts ↔
      Guarded execStep NoUnlock ⟨.denyWrites, true, attached⟩ stmts) := by
  constructor
  · intro name arg hName
    rw [denyWrites_query_only (toLower_of_isQueryOnly hName)]
    have hWords : falsyPragmaArg arg = true ↔ toLower (trimSpace arg) ∈ falsyWords := decide_eq_true_iff
    by_cases hFalsy : falsyPragmaArg arg = true
    · simp [hFalsy, hWords.mp hFalsy]
    · have hNot : toLower (trimSpace arg) ∉ falsyWords := fun hMem => hFalsy (hWords.mpr hMem)
      by_cases hEmpty : arg = "" <;> cases hBool : sqliteBool arg <;> simp [hFalsy, hNot, hEmpty]
  · constructor
    · apply guarded_of_always (I := fun c => c.authorizer = .denyWrites)
      · rintro c ⟨stmt, ok⟩ t hAuth h
        cases h
        exact (exec_authorizer c stmt ok).trans hAuth
      · rintro c ⟨stmt, ok⟩ t hAuth hOn h hKept
        cases h
        rw [exec_queryOnly ⟨hAuth, hOn⟩] at hKept
        exact (Bool.not_eq_true' _).mp hKept
      · rfl
    · intro hGuard
      have hAlways := always_of_guarded (I := Conn.ReadOnly) ?_ ⟨rfl, rfl⟩ hGuard
      · exact hAlways.mono (fun _ hMode => hMode.2)
      · rintro c ⟨stmt, ok⟩ t hMode hLocked h
        cases h
        exact hMode.exec hLocked

theorem zeros_unlock :
    denyWrites .pragma "query_only" "00" = .ok ∧ sqliteBool "00" = false ∧
    ¬ Always execStep (fun c => c.queryOnly = true) ⟨.denyWrites, true, []⟩
      [(.pragma "query_only" (some "00"), true)] := by
  refine ⟨by decide, by decide, ?_⟩
  intro hAlways
  have hOff : (Conn.exec ⟨.denyWrites, true, []⟩ (.pragma "query_only" (some "00")) true).1.queryOnly =
      false := by decide
  have hOn := hAlways.2 _ rfl
  rw [Always, hOff] at hOn
  cases hOn

end QuicSql.Backend
