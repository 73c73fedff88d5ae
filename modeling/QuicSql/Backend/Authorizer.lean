import Mathlib.Data.List.Basic

/-!
# Connection authorizers

What a connection may compile is decided by an authorizer callback that SQLite
asks for every action of a statement. The read-only authorizer must also keep
`PRAGMA query_only` on, and recognises a request to turn it off by the
argument's text; SQLite reads that text by a rule of its own.
-/

namespace QuicSql.Backend

inductive Op where
  | createIndex | createTable | createTempIndex | createTempTable | createTempTrigger | createTempView
  | createTrigger | createView | delete | dropIndex | dropTable | dropTempIndex | dropTempTable
  | dropTempTrigger | dropTempView | dropTrigger | dropView | insert | pragma | read | select
  | transaction | update | attach | detach | alterTable | reindex | analyze | createVtable | dropVtable
  | function | savepoint | recursive
deriving DecidableEq, Repr

inductive Verdict where
  | ok
  | deny
deriving DecidableEq, Repr

/-! ## Go's string functions -/

/-- `unicode.ToLower`, exact on every rune that it maps to ASCII; the others it maps
outside ASCII, where no comparison below looks. -/
def lowerRune (c : Char) : Char :=
  if 'A' ≤ c ∧ c ≤ 'Z' then Char.ofNat (c.toNat + 32)
  else if c.toNat = 0x130 then 'i'
  else if c.toNat = 0x212a then 'k'
  else c

def toLower (s : String) : String := String.ofList (s.toList.map lowerRune)

def isSpace (c : Char) : Bool :=
  c = ' ' || (9 ≤ c.toNat && c.toNat ≤ 13) || c.toNat = 0x85 || c.toNat = 0xa0 || c.toNat = 0x1680 ||
  (0x2000 ≤ c.toNat && c.toNat ≤ 0x200a) || c.toNat = 0x2028 || c.toNat = 0x2029 ||
  c.toNat = 0x202f || c.toNat = 0x205f || c.toNat = 0x3000

def trimSpace (s : String) : String :=
  String.ofList ((s.toList.dropWhile isSpace).reverse.dropWhile isSpace).reverse

/-! ## The authorizers -/

def denyAttachDetach : Op → String → String → Verdict
  | .attach, _, _ | .detach, _, _ => .deny
  | _, _, _ => .ok

def writeActions : List Op :=
  [.insert, .update, .delete, .createIndex, .createTable, .createTrigger, .createView, .createVtable,
   .createTempIndex, .createTempTable, .createTempTrigger, .createTempView, .dropIndex, .dropTable,
   .dropTrigger, .dropView, .dropVtable, .dropTempIndex, .dropTempTable, .dropTempTrigger,
   .dropTempView, .alterTable, .reindex, .analyze]

def setterWritePragmas : List String :=
  ["user_version", "application_id", "schema_version", "journal_mode", "auto_vacuum", "secure_delete",
   "wal_autocheckpoint"]

def mutatingPragmas : List String := ["wal_checkpoint", "incremental_vacuum", "optimize"]

def falsyWords : List String := ["0", "no", "false", "off"]

def falsyPragmaArg (v : String) : Bool := toLower (trimSpace v) ∈ falsyWords

def denyWrites (op : Op) (arg1 arg2 : String) : Verdict :=
  if op = .attach ∨ op = .detach then .deny
  else if op ∈ writeActions then .deny
  else if op = .pragma then
    let name := toLower arg1
    if name = "query_only" then
      if falsyPragmaArg arg2 then .deny else .ok
    else if name ∈ mutatingPragmas ∨ (name ∈ setterWritePragmas ∧ arg2 ≠ "") then .deny
    else .ok
  else .ok

def permitAttach (_ : Op) (_ _ : String) : Verdict := .ok

/-! ## SQLite's reading of a boolean argument -/

def isDigit (c : Char) : Bool := '0' ≤ c && c ≤ '9'

def lowerAscii (c : Char) : Char :=
  if 'A' ≤ c ∧ c ≤ 'Z' then Char.ofNat (c.toNat + 32) else c

def isXDigit (c : Char) : Bool := isDigit c || ('a' ≤ lowerAscii c && lowerAscii c ≤ 'f')

def digitValue (c : Char) : Nat := if isDigit c then c.toNat - 48 else (lowerAscii c).toNat - 87

def leadingInt (base : Nat) (digit : Char → Bool) (s : List Char) : Nat :=
  (s.takeWhile digit).foldl (fun n c => base * n + digitValue c) 0

/-- SQLite's number of a text that begins with a digit: one that does not fit 31 bits is 0. -/
def atoi (s : List Char) : Nat :=
  let n := match s with
    | '0' :: x :: d :: rest =>
      if lowerAscii x = 'x' ∧ isXDigit d = true then leadingInt 16 isXDigit (d :: rest) else leadingInt 10 isDigit s
    | _ => leadingInt 10 isDigit s
  if n < 2147483648 then n else 0

def trueWords : List (List Char) := [['o', 'n'], ['y', 'e', 's'], ['t', 'r', 'u', 'e']]

/-- Only the low byte of a number counts; a word that is not known is false. -/
def sqliteBool (arg : String) : Bool :=
  match arg.toList with
  | [] => false
  | c :: rest =>
    if isDigit c then atoi (c :: rest) % 256 ≠ 0
    else (c :: rest).map lowerAscii ∈ trueWords

/-- SQLite compares pragma names without regard to ASCII case. -/
def isQueryOnly (name : String) : Bool := name.toList.map lowerAscii = "query_only".toList

/-! ## What the guard catches -/

theorem lowerRune_of_ascii {c : Char} (h : (lowerAscii c).toNat < 128) : lowerRune c = lowerAscii c := by
  unfold lowerAscii at h ⊢
  unfold lowerRune
  by_cases hUpper : 'A' ≤ c ∧ c ≤ 'Z'
  · rw [if_pos hUpper, if_pos hUpper]
  · rw [if_neg hUpper] at h
    rw [if_neg hUpper, if_neg hUpper, if_neg (by omega), if_neg (by omega)]

theorem toLower_of_isQueryOnly {name : String} (h : isQueryOnly name = true) :
    toLower name = "query_only" := by
  have hMap : name.toList.map lowerAscii = "query_only".toList := of_decide_eq_true h
  have hAll : "query_only".toList.all (fun c => c.toNat < 128) = true := by decide
  have hAscii : ∀ c ∈ "query_only".toList, c.toNat < 128 :=
    fun c hc => of_decide_eq_true (List.all_eq_true.mp hAll c hc)
  have hSame : name.toList.map lowerRune = name.toList.map lowerAscii := by
    apply List.map_congr_left
    intro c hc
    apply lowerRune_of_ascii
    apply hAscii
    rw [← hMap]
    exact List.mem_map_of_mem hc
  unfold toLower
  rw [hSame, hMap, String.ofList_toList]

theorem denyWrites_query_only {name : String} (h : toLower name = "query_only") (arg : String) :
    denyWrites .pragma name arg = if falsyPragmaArg arg then .deny else .ok := by
  have hNotWrite : Op.pragma ∉ writeActions := by decide
  simp [denyWrites, hNotWrite, h]

end QuicSql.Backend
