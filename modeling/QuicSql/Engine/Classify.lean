import Mathlib.Data.List.TakeWhile
import QuicSql.Engine.Batch
import QuicSql.Httpapi.Cursor

/-!
# Which statements return rows

`Engine.Run` looks at the first word of a statement to choose between `Query` and `Exec`, and
to refuse ATTACH and DETACH. It finds the word with a scanner of its own, which stops at fewer
characters than SQLite's lexer and closes a block comment one character earlier.
-/

namespace QuicSql.Engine

open Hrana (Result)
open Wire

variable {F σ : Type}

/-! ## Go's string functions -/

/-- `unicode.ToUpper`, exact on every rune that it maps to ASCII; the others it maps outside
ASCII, where no comparison below looks. -/
def upperRune (c : Char) : Char :=
  if 'a' ≤ c ∧ c ≤ 'z' then Char.ofNat (c.toNat - 32)
  else if c.toNat = 0x131 then 'I'
  else if c.toNat = 0x17f then 'S'
  else c

def toUpper (s : String) : String := String.ofList (s.toList.map upperRune)

def isWordChar (c : Char) : Bool := c.isAlphanum || c = '_'

/-- `(?i)RETURNING\b` here. -/
def startsReturning (sql : List Char) : Bool :=
  (sql.take 9).map upperAscii = "RETURNING".toList && !(sql.drop 9).head?.any isWordChar

def returningFrom : Bool → List Char → Bool
  | _, [] => false
  | inWord, c :: rest => (!inWord && startsReturning (c :: rest)) || returningFrom (isWordChar c) rest

def hasReturning (sql : String) : Bool := returningFrom false sql.toList

def readTokens : List String := ["SELECT", "WITH", "EXPLAIN", "VALUES", "PRAGMA"]

def isReadOnly (sql : String) : Bool := toUpper (firstToken sql) ∈ readTokens

/-! ## Running a statement -/

structure Caps where
  maxRows : Nat
  maxBytes : Nat

/-- What `database/sql` answers: the columns and rows of a query with the error that ends
their iteration, if any, or the counts of an execution. -/
structure Queryer (F σ : Type) where
  queryContext : σ → Hrana.Statement F → σ × Except RunError (List String × List (List (Value F)) × Option RunError)
  execContext : σ → Hrana.Statement F → σ × Except RunError (Int64 × Int64)

def size : Value F → Nat
  | .text s => s.utf8ByteSize
  | .blob b => b.length
  | _ => 8

def Caps.scan (e : Caps) : List (List (Value F)) → List (List (Value F)) → Nat → List (List (Value F)) × Bool
  | [], kept, _ => (kept, false)
  | row :: rest, kept, bytes =>
    if e.maxRows ≤ kept.length then (kept, true)
    else
      let bytes' := bytes + (row.map size).sum
      if e.maxBytes ≤ bytes' then (kept ++ [row], true) else e.scan rest (kept ++ [row]) bytes'

def Caps.query (e : Caps) (q : Queryer F σ) (st : σ) (s : Hrana.Statement F) : σ × Except RunError (Result F) :=
  match q.queryContext st s with
  | (st', .error err) => (st', .error err)
  | (st', .ok (cols, rows, err)) =>
    let (kept, truncated) := e.scan rows [] 0
    match if truncated then none else err with
    | some err => (st', .error err)
    | none => (st', .ok ⟨cols, kept, 0, 0, truncated⟩)

def execStatement (q : Queryer F σ) (st : σ) (s : Hrana.Statement F) : σ × Except RunError (Result F) :=
  match q.execContext st s with
  | (st', .error err) => (st', .error err)
  | (st', .ok (affected, lastInsertID)) => (st', .ok ⟨[], [], affected, lastInsertID, false⟩)

def errDenied : RunError := .denied "statement not permitted by server policy: ATTACH/DETACH is disabled"

def Caps.run (e : Caps) (q : Queryer F σ) (st : σ) (s : Hrana.Statement F) : σ × Except RunError (Result F) :=
  if toUpper (firstToken s.sql) ∈ deniedTokens && !s.allowAttach then (st, .error errDenied)
  else if isReadOnly s.sql || hasReturning s.sql then e.query q st s
  else execStatement q st s

/-! ## SQLite's first token -/

/-- The text from the first token on, if comments are closed by `close`: fuel for each skipped
comment. -/
def skipGaps (close : List Char → List Char) : Nat → List Char → List Char
  | 0, _ => []
  | fuel + 1, sql =>
    match sql.dropWhile isBlank with
    | '-' :: '-' :: rest => skipGaps close fuel (afterNewline ('-' :: '-' :: rest))
    | '/' :: '*' :: rest => skipGaps close fuel (close rest)
    | sql' => sql'

def stripBom : List Char → List Char
  | '\ufeff' :: rest => rest
  | sql => sql

/-- SQLite looks for the end of a block comment behind the two characters that open it. -/
def leading (sql : String) : List Char :=
  skipGaps afterBlock ((stripBom sql.toList).length + 1) (stripBom sql.toList)

def isKeywordChar (c : Char) : Bool := c.isAlphanum || c = '_' || c = '$' || 0x80 ≤ c.toNat

def firstKeyword (sql : String) : Option String :=
  match (leading sql).takeWhile isKeywordChar with
  | [] => none
  | k => some (String.ofList k)

/-- The first word ends the text, or a blank or an opening parenthesis follows it. -/
def apart (text : List Char) : Bool := (text.dropWhile isKeywordChar).head?.all (fun c => isBlank c || c = '(')

def separated (sql : String) : Bool := apart (leading sql)

def overlapsFrom : Nat → List Char → Bool
  | 0, _ => false
  | fuel + 1, sql =>
    match sql.dropWhile isBlank with
    | '-' :: '-' :: rest => overlapsFrom fuel (afterNewline ('-' :: '-' :: rest))
    | '/' :: '*' :: '/' :: _ => true
    | '/' :: '*' :: rest => overlapsFrom fuel (afterBlock rest)
    | _ => false

/-- SQLite compares keywords without regard to the case of ASCII letters. -/
def asciiUpper (s : String) : String := String.ofList (s.toList.map upperAscii)

/-- A comment before the first token opens with `/*/`. -/
def overlaps (sql : String) : Bool := overlapsFrom ((stripBom sql.toList).length + 1) (stripBom sql.toList)

/-! ## The two scanners -/

/-- The code begins its search at the opening itself. -/
def closeEarly (rest : List Char) : List Char := afterBlock ('/' :: '*' :: rest)

/-- The text from the first token on when a comment that opens with `/*/` ends there. -/
def leadingEarly (sql : String) : List Char :=
  skipGaps closeEarly ((stripBom sql.toList).length + 1) (stripBom sql.toList)

section Gaps

variable {close : List Char → List Char} {fuel : Nat} {sql rest : List Char}

theorem skipGaps_line (h : sql.dropWhile isBlank = '-' :: '-' :: rest) :
    skipGaps close (fuel + 1) sql = skipGaps close fuel (afterNewline ('-' :: '-' :: rest)) := by
  rw [skipGaps, h]
  rfl

theorem skipGaps_block (h : sql.dropWhile isBlank = '/' :: '*' :: rest) :
    skipGaps close (fuel + 1) sql = skipGaps close fuel (close rest) := by
  rw [skipGaps, h]
  rfl

theorem skipGaps_token (hLine : ∀ rest, sql.dropWhile isBlank ≠ '-' :: '-' :: rest)
    (hBlock : ∀ rest, sql.dropWhile isBlank ≠ '/' :: '*' :: rest) :
    skipGaps close (fuel + 1) sql = sql.dropWhile isBlank := by
  rw [skipGaps]
  split
  · rename_i hText
    exact absurd hText (hLine _)
  · rename_i hText
    exact absurd hText (hBlock _)
  · rfl

end Gaps

theorem firstTokenLoop_eq (fuel : Nat) (sql : List Char) :
    firstTokenLoop fuel sql = (skipGaps closeEarly fuel sql).takeWhile (fun c => !isBlank c && c ≠ '(') := by
  induction fuel generalizing sql with
  | zero => rfl
  | succ fuel ih =>
    unfold firstTokenLoop
    split
    · rename_i rest hText
      rw [skipGaps_line hText]
      exact ih _
    · rename_i rest hText
      rw [skipGaps_block hText]
      exact ih _
    · rename_i hLine hBlock
      rw [skipGaps_token hLine hBlock]

theorem firstToken_eq (sql : String) :
    firstToken sql = String.ofList ((leadingEarly sql).takeWhile (fun c => !isBlank c && c ≠ '(')) := by
  rw [leadingEarly, ← firstTokenLoop_eq]
  rfl

theorem closeEarly_of_ne {rest : List Char} (h : rest.head? ≠ some '/') : closeEarly rest = afterBlock rest := by
  cases rest with
  | nil => rfl
  | cons c rest =>
    have hSlash : c ≠ '/' := fun hEq => h (congrArg some hEq)
    simp [closeEarly, afterBlock, hSlash]

/-- Without an overlapping comment both scanners stop at the same place. -/
theorem skipGaps_closeEarly {fuel : Nat} {sql : List Char} (h : overlapsFrom fuel sql = false) :
    skipGaps closeEarly fuel sql = skipGaps afterBlock fuel sql := by
  induction fuel generalizing sql with
  | zero => rfl
  | succ fuel ih =>
    unfold overlapsFrom at h
    unfold skipGaps
    generalize sql.dropWhile isBlank = text at h ⊢
    split
    · exact ih h
    · rename_i rest
      split at h
      · rename_i hLine
        cases hLine
      · cases h
      · rename_i rest' hOverlap hEq
        cases hEq
        have hHead : rest.head? ≠ some '/' := by
          intro hHead
          obtain ⟨tail, rfl⟩ := List.head?_eq_some_iff.mp hHead
          exact hOverlap tail rfl
        rw [closeEarly_of_ne hHead]
        exact ih h
      · rename_i hBlock
        exact absurd rfl (hBlock rest)
    · rfl

theorem skipGaps_fuel {close : List Char → List Char} (hClose : ∀ rest, (close rest).length ≤ rest.length + 1)
    {sql : List Char} {n m : Nat} (hn : sql.length < n) (hm : sql.length < m) :
    skipGaps close n sql = skipGaps close m sql := by
  induction n generalizing sql m with
  | zero => omega
  | succ n ih =>
    obtain ⟨m, rfl⟩ : ∃ k, m = k + 1 := ⟨m - 1, by omega⟩
    have hTrim := (List.dropWhile_sublist (l := sql) isBlank).length_le
    unfold skipGaps
    split
    · rename_i rest hRest
      have hLess := afterNewline_length (List.cons_ne_nil '-' ('-' :: rest))
      rw [hRest] at hTrim
      exact ih (by omega) (by omega)
    · rename_i rest hRest
      have hLess := hClose rest
      rw [hRest] at hTrim
      simp only [List.length_cons] at hTrim
      exact ih (by omega) (by omega)
    · rfl

/-- The loop never runs out of fuel. -/
theorem firstTokenLoop_fuel {sql : List Char} {n m : Nat} (hn : sql.length < n) (hm : sql.length < m) :
    firstTokenLoop n sql = firstTokenLoop m sql := by
  have hClose : ∀ rest, (closeEarly rest).length ≤ rest.length + 1 := fun rest => afterBlock_length ('*' :: rest)
  rw [firstTokenLoop_eq, firstTokenLoop_eq, skipGaps_fuel hClose hn hm]

theorem takeWhile_eq_iff {α : Type} {p q : α → Bool} (h : ∀ c, q c = true → p c = true) (l : List α) :
    l.takeWhile p = l.takeWhile q ↔ (l.dropWhile q).head?.all (fun c => !p c) = true := by
  induction l with
  | nil => simp
  | cons c rest ih =>
    cases hq : q c with
    | true => simp [hq, h c hq, ih]
    | false => cases hp : p c <;> simp [hq, hp]

theorem isKeywordChar_inside {c : Char} (h : isKeywordChar c = true) : (!isBlank c && c ≠ '(') = true := by
  by_contra hOut
  have hStop : isBlank c = true ∨ c = '(' := by
    cases hBlank : isBlank c with
    | true => exact .inl rfl
    | false => exact .inr (by simpa [hBlank] using hOut)
  simp only [isBlank, Bool.or_eq_true, decide_eq_true_eq] at hStop
  rcases hStop with ((((rfl | rfl) | rfl) | rfl) | rfl) | rfl <;> exact absurd h (by decide)

theorem takeWhile_keyword {sql k : String} (h : firstKeyword sql = some k) :
    (leading sql).takeWhile isKeywordChar = k.toList := by
  unfold firstKeyword at h
  split at h
  · cases h
  · cases h
    exact String.toList_ofList.symm

theorem firstToken_eq_keyword_iff {sql k : String} (hKeyword : firstKeyword sql = some k) :
    firstToken sql = k ↔
      (leadingEarly sql).takeWhile isKeywordChar = k.toList ∧ apart (leadingEarly sql) = true := by
  have hAll : k.toList.takeWhile isKeywordChar = k.toList := by
    rw [← takeWhile_keyword hKeyword, List.takeWhile_idem]
  have hStop : apart (leadingEarly sql) =
      ((leadingEarly sql).dropWhile isKeywordChar).head?.all (fun c => !(!isBlank c && c ≠ '(')) := by
    simp [apart]
  rw [firstToken_eq, hStop, ← takeWhile_eq_iff (fun c => isKeywordChar_inside)]
  constructor
  · intro hToken
    have hText : (leadingEarly sql).takeWhile (fun c => !isBlank c && c ≠ '(') = k.toList := by
      rw [← hToken, String.toList_ofList]
    -- the keyword is the part of the token that consists of its characters
    have hWord : (leadingEarly sql).takeWhile isKeywordChar = k.toList := by
      rw [← hAll, ← hText, List.takeWhile_takeWhile]
      congr 1
      funext c
      exact (Bool.eq_iff_iff.mpr (by simpa using fun hc => isKeywordChar_inside hc)).symm
    exact ⟨hWord, hText.trans hWord.symm⟩
  · rintro ⟨hWord, hSame⟩
    rw [hSame, hWord, String.ofList_toList]

/-- Without an overlapping comment the keyword is there, and only what follows it counts. -/
theorem firstToken_eq_keyword_of_plain {sql k : String} (hKeyword : firstKeyword sql = some k)
    (hPlain : overlaps sql = false) : firstToken sql = k ↔ separated sql = true := by
  have hSame : leadingEarly sql = leading sql := skipGaps_closeEarly hPlain
  rw [firstToken_eq_keyword_iff hKeyword, hSame]
  exact and_iff_right (takeWhile_keyword hKeyword)

/-! ## Routes -/

theorem upperRune_of_ascii {c : Char} (h : (upperAscii c).toNat < 0x80) : upperRune c = upperAscii c := by
  unfold upperRune upperAscii at *
  split
  · rfl
  · rename_i hLower
    rw [if_neg hLower] at h
    rw [if_neg (by omega), if_neg (by omega)]

theorem toUpper_eq {k : String} (h : ∀ c ∈ (asciiUpper k).toList, c.toNat < 0x80) : toUpper k = asciiUpper k := by
  unfold toUpper asciiUpper at *
  rw [String.toList_ofList] at h
  congr 1
  refine List.map_congr_left fun c hc => upperRune_of_ascii ?_
  exact h _ (List.mem_map_of_mem hc)

theorem toUpper_of_mem {k : String} (h : asciiUpper k ∈ readTokens ++ deniedTokens) : toUpper k = asciiUpper k := by
  have hAscii : (readTokens ++ deniedTokens).all (fun w => w.toList.all (fun c => c.toNat < 0x80)) = true := by
    decide +kernel
  have hWord := List.all_eq_true.mp hAscii (asciiUpper k) h
  exact toUpper_eq fun c hc => of_decide_eq_true (List.all_eq_true.mp hWord c hc)

/-- No letter of ATTACH and DETACH is the upper case of a rune outside ASCII, so that the
refusal of a batch's statement is the one of `Run`. -/
theorem denied_eq (s : Statement F) :
    denied s = (decide (toUpper (firstToken s.sql) ∈ deniedTokens) && !s.allowAttach) := by
  have hLetters : ∀ w ∈ deniedTokens, 'I' ∉ w.toList ∧ 'S' ∉ w.toList := by decide
  have hIff : asciiUpper (firstToken s.sql) ∈ deniedTokens ↔ toUpper (firstToken s.sql) ∈ deniedTokens := by
    constructor
    · intro hAscii
      rw [toUpper_of_mem (List.mem_append_right readTokens hAscii)]
      exact hAscii
    · intro hUpper
      obtain ⟨hI, hS⟩ := hLetters _ hUpper
      have hSame : asciiUpper (firstToken s.sql) = toUpper (firstToken s.sql) := by
        refine congrArg String.ofList (List.map_congr_left fun c hc => ?_)
        have hMem : upperRune c ∈ (toUpper (firstToken s.sql)).toList := by
          rw [toUpper, String.toList_ofList]
          exact List.mem_map_of_mem hc
        unfold upperRune at hMem ⊢
        unfold upperAscii
        split
        · rfl
        · rename_i hLower
          rw [if_neg hLower] at hMem
          split at hMem
          · exact absurd hMem hI
          · split at hMem
            · exact absurd hMem hS
            · rename_i hNotI hNotS
              rw [if_neg hNotI, if_neg hNotS]
      rw [hSame]
      exact hUpper
  unfold denied
  rw [← decide_eq_decide.mpr hIff]
  rfl

/-- The code finds SQLite's keyword exactly if its own reading of the comments leaves a text that
begins with it, and a blank, a parenthesis or the end follows. Without a comment that opens
with `/*/` the text does. A statement whose keyword is found goes where the keyword says. -/
theorem leading_keyword_agrees (e : Caps) (q : Queryer F σ) (st : σ) (s : Hrana.Statement F) (k : String)
    (hKeyword : firstKeyword s.sql = some k) :
    (firstToken s.sql = k ↔
      (leadingEarly s.sql).takeWhile isKeywordChar = k.toList ∧ apart (leadingEarly s.sql) = true) ∧
      (overlaps s.sql = false → (firstToken s.sql = k ↔ separated s.sql = true)) ∧
      (firstToken s.sql = k →
        (asciiUpper k ∈ readTokens → e.run q st s = e.query q st s) ∧
        (asciiUpper k ∈ deniedTokens → s.allowAttach = false → e.run q st s = (st, .error errDenied))) := by
  refine ⟨firstToken_eq_keyword_iff hKeyword, firstToken_eq_keyword_of_plain hKeyword,
    fun hToken => ⟨fun hRead => ?_, fun hDenied hAttach => ?_⟩⟩
  · have hUpper := toUpper_of_mem (List.mem_append_left deniedTokens hRead)
    have hReadOnly : isReadOnly s.sql = true := by
      rw [isReadOnly, hToken, hUpper]
      exact decide_eq_true hRead
    have hApart : ∀ w ∈ readTokens, w ∉ deniedTokens := by decide
    rw [Caps.run, hToken, hUpper, decide_eq_false (hApart _ hRead), hReadOnly]
    rfl
  · have hUpper := toUpper_of_mem (List.mem_append_right readTokens hDenied)
    rw [Caps.run, hToken, hUpper, decide_eq_true hDenied, hAttach]
    rfl

def oneRow : Queryer Unit Unit where
  queryContext _ _ := ((), .ok (["x"], [[.int 1]], none))
  execContext _ _ := ((), .ok (0, 0))

def statement (sql : String) : Hrana.Statement Unit := ⟨sql, [], [], false⟩

/-- A byte-order mark, both kinds of comment, and the keyword before a parenthesis. -/
theorem commented_select_returns_rows :
    Caps.run ⟨10, 100⟩ oneRow () (statement "\ufeff -- one\n/* two **/select(1)") =
      ((), .ok ⟨["x"], [[.int 1]], 0, 0, false⟩) :=
  (((leading_keyword_agrees ⟨10, 100⟩ oneRow () (statement "\ufeff -- one\n/* two **/select(1)") "select"
    (by decide +kernel)).2.2 (by decide +kernel)).1 (by decide +kernel)).trans rfl

/-- A quote after the keyword hides it: the rows are lost, and ATTACH is let through. So does a
comment that opens with `/*/`. -/
theorem hidden_keywords :
    (firstKeyword "SELECT'a'" = some "SELECT" ∧ firstToken "SELECT'a'" = "SELECT'a'" ∧
      Caps.run ⟨10, 100⟩ oneRow () (statement "SELECT'a'") = ((), .ok ⟨[], [], 0, 0, false⟩)) ∧
    (firstKeyword "ATTACH'f'AS f" = some "ATTACH" ∧
      Caps.run ⟨10, 100⟩ oneRow () (statement "ATTACH'f'AS f") = ((), .ok ⟨[], [], 0, 0, false⟩)) ∧
    (firstKeyword "/*/ a */SELECT 1" = some "SELECT" ∧ firstToken "/*/ a */SELECT 1" = "a") := by
  have hExec : ∀ sql ∈ ["SELECT'a'", "ATTACH'f'AS f"], toUpper (firstToken sql) ∉ deniedTokens ∧
      isReadOnly sql = false ∧ hasReturning sql = false := by
    decide +kernel
  have hRun : ∀ sql ∈ ["SELECT'a'", "ATTACH'f'AS f"],
      Caps.run ⟨10, 100⟩ oneRow () (statement sql) = ((), .ok ⟨[], [], 0, 0, false⟩) := by
    intro sql hSql
    obtain ⟨hAllowed, hRead, hReturning⟩ := hExec sql hSql
    simp [Caps.run, statement, hAllowed, hRead, hReturning, execStatement, oneRow]
  exact ⟨⟨by decide +kernel, by decide +kernel, hRun _ (by simp)⟩, ⟨by decide +kernel, hRun _ (by simp)⟩,
    by decide +kernel, by decide +kernel⟩

end QuicSql.Engine
