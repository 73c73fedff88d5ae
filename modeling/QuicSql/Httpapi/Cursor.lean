import QuicSql.Wire.Codes
import QuicSql.Wire.Value

/-!
# Hrana batches, answered at once or through a cursor

Both endpoints run a batch through one loop. The pipeline returns the result and error of
every step; the cursor writes entries for the steps that are executed, as they are executed.
A negative step index in a condition makes the server panic, on both.
-/

namespace QuicSql.Hrana

open Lib Wire

variable {F σ : Type}

/-! ## Batches -/

structure HStmt (F : Type) where
  sql : Option String
  sqlId : Option Int
  args : List (Value F)
  namedArgs : List (String × Value F)
  wantRows : Option Bool

inductive HBatchCond where
  | ok (step : Option Int)
  | error (step : Option Int)
  | not (cond : Option HBatchCond)
  | and (conds : List HBatchCond)
  | or (conds : List HBatchCond)
  | isAutocommit
  | unknown (type : String)

structure HBatchStep (F : Type) where
  condition : Option HBatchCond
  stmt : HStmt F

/-- The protocol numbers the steps of a batch with 32 bits. -/
structure HBatch (F : Type) where
  steps : List (HBatchStep F)
  numbered : steps.length ≤ 2 ^ 32

structure HCol where
  name : Option String
  decltype : Option String
deriving DecidableEq, Repr

structure HStmtResult (F : Type) where
  cols : List HCol
  rows : List (List (Value F))
  affectedRowCount : Int64
  lastInsertRowid : Option String
  truncated : Bool
deriving DecidableEq, Repr

structure HBatchResult (F : Type) where
  stepResults : List (Option (HStmtResult F))
  stepErrors : List (Option HError)

/-! ## One statement -/

structure Statement (F : Type) where
  sql : String
  args : List (Value F)
  named : List (String × Value F)
  allowAttach : Bool

/-- `engine.Result`; a column is its name. -/
structure Result (F : Type) where
  columns : List String
  rows : List (List (Value F))
  rowsAffected : Int64
  lastInsertID : Int64
  truncated : Bool

/-- The session with its pinned connection, in state `σ`: what the engine makes of a statement,
the autocommit flag, and the stored texts. -/
structure Session (F σ : Type) where
  run : σ → Statement F → σ × Except RunError (Result F)
  autocommit : σ → Bool
  lookupSQL : Int → Option String
  allowsAttach : Bool

variable (sess : Session F σ)

def resolveSQL : Option String → Option Int → Except RunError String
  | some sql, _ => .ok sql
  | none, some id =>
    match sess.lookupSQL id with
    | some sql => .ok sql
    | none => .error (.protocol "unknown sql_id")
  | none, none => .error (.protocol "request has neither sql nor sql_id")

/-- Named arguments win over positional ones. -/
def stmtFromHrana (sql : String) (st : HStmt F) (allowAttach : Bool) : Statement F where
  sql := sql
  args := if st.namedArgs.length > 0 then [] else st.args
  named := st.namedArgs
  allowAttach := allowAttach

def toHStmtResult (res : Result F) (wantRows : Option Bool) : HStmtResult F where
  cols := res.columns.map fun c => ⟨some c, none⟩
  rows := if wantRows.getD true then res.rows else []
  affectedRowCount := res.rowsAffected
  lastInsertRowid := if res.lastInsertID ≠ 0 then some (String.ofList (formatInt res.lastInsertID)) else none
  truncated := res.truncated

def execStmt (s : σ) (st : HStmt F) : σ × Except RunError (HStmtResult F) :=
  match resolveSQL sess st.sql st.sqlId with
  | .error err => (s, .error err)
  | .ok sql =>
    match sess.run s (stmtFromHrana sql st sess.allowsAttach) with
    | (s', .error err) => (s', .error err)
    | (s', .ok res) => (s', .ok (toHStmtResult res st.wantRows))

/-! ## Conditions -/

/-- A slot that a condition refers to; the comparison with the length lets a negative index by. -/
def filled {α : Type} (slots : List (Option α)) : Option Int → Option Bool
  | none => some false
  | some step =>
    if step < slots.length then
      if 0 ≤ step then some ((slots.getD step.toNat none).isSome) else none
    else some false

mutual

/-- No result stands for a panic. -/
def evalCond (out : HBatchResult F) (ac : Bool) : HBatchCond → Option Bool
  | .ok step => filled out.stepResults step
  | .error step => filled out.stepErrors step
  | .not none => some false
  | .not (some c) => (evalCond out ac c).map (!·)
  | .and conds => evalAll out ac conds
  | .or conds => evalAny out ac conds
  | .isAutocommit => some ac
  | .unknown _ => some false

def evalAll (out : HBatchResult F) (ac : Bool) : List HBatchCond → Option Bool
  | [] => some true
  | c :: rest =>
    match evalCond out ac c with
    | none => none
    | some false => some false
    | some true => evalAll out ac rest

def evalAny (out : HBatchResult F) (ac : Bool) : List HBatchCond → Option Bool
  | [] => some false
  | c :: rest =>
    match evalCond out ac c with
    | none => none
    | some true => some true
    | some false => evalAny out ac rest

end

def admitted (out : HBatchResult F) (ac : Bool) : Option HBatchCond → Option Bool
  | none => some true
  | some c => evalCond out ac c

/-! ## The loop -/

abbrev Outcome (F : Type) := Except HError (HStmtResult F)

def outcome : Except RunError (HStmtResult F) → Outcome F
  | .error err => .error (hErrorFrom err)
  | .ok res => .ok res

def HBatchResult.record (out : HBatchResult F) (i : Nat) : Outcome F → HBatchResult F
  | .error err => { out with stepErrors := out.stepErrors.set i (some err) }
  | .ok res => { out with stepResults := out.stepResults.set i (some res) }

def HBatchResult.empty (n : Nat) : HBatchResult F := ⟨List.replicate n none, List.replicate n none⟩

/-- The steps from number `i` on. `emit` reports an executed step; it returns what it keeps and
whether to go on. The autocommit flag is read again after each executed step. -/
def runSteps {ω : Type} (emit : Nat → Outcome F → ω → ω × Bool) :
    Nat → List (HBatchStep F) → σ → ω → HBatchResult F → Bool → Option (σ × ω × HBatchResult F)
  | _, [], s, w, out, _ => some (s, w, out)
  | i, step :: rest, s, w, out, ac =>
    match admitted out ac step.condition with
    | none => none
    | some false => runSteps emit (i + 1) rest s w out ac
    | some true =>
      let s' := (execStmt sess s step.stmt).1
      let o := outcome (execStmt sess s step.stmt).2
      match emit i o w with
      | (w', false) => some (s', w', out.record i o)
      | (w', true) => runSteps emit (i + 1) rest s' w' (out.record i o) (sess.autocommit s')

def runHranaBatch {ω : Type} (emit : Nat → Outcome F → ω → ω × Bool) (b : HBatch F) (s : σ) (w : ω) :
    Option (σ × ω × HBatchResult F) :=
  runSteps sess emit 0 b.steps s w (.empty b.steps.length) (sess.autocommit s)

/-- The batch request of the pipeline; there is nothing to report to. -/
def execBatch (b : HBatch F) (s : σ) : Option (σ × HBatchResult F) :=
  (runHranaBatch sess (fun _ _ w => (w, true)) b s ()).map fun r => (r.1, r.2.2)

/-! ## The cursor -/

inductive Entry (F : Type) where
  | stepBegin (step : Nat) (cols : List HCol)
  | row (row : List (Value F))
  | stepEnd (affectedRowCount : Int64) (lastInsertRowid : Option String) (truncated : Bool)
  | stepError (step : Nat) (error : HError)
deriving DecidableEq, Repr

/-- The entries of one executed step; its number is cut to 32 bits. -/
def entriesOf (i : Nat) : Outcome F → List (Entry F)
  | .error err => [.stepError (i % 2 ^ 32) err]
  | .ok res =>
    .stepBegin (i % 2 ^ 32) res.cols ::
      (res.rows.map .row ++ [.stepEnd res.affectedRowCount res.lastInsertRowid res.truncated])

/-- Write entry after entry until one fails; `writes k` says whether write number `k` works. -/
def writeAll (writes : Nat → Bool) : List (Entry F) → List (Entry F) → List (Entry F) × Bool
  | [], written => (written, true)
  | e :: rest, written =>
    -- The prelude is write number 0.
    if writes (written.length + 1) then writeAll writes rest (written ++ [e]) else (written, false)

/-- `handleCursor` once it has its stream: the prelude, then the batch. -/
def handleCursor (writes : Nat → Bool) (b : HBatch F) (s : σ) : Option (σ × List (Entry F)) :=
  if !writes 0 then some (s, [])
  else (runHranaBatch sess (fun i o written => writeAll writes (entriesOf i o) written) b s []).map fun r => (r.1, r.2.1)

/-! ## What a client reads off the entries -/

/-- The slots rebuilt so far and the step that has begun. -/
structure Rebuilt (F : Type) where
  out : HBatchResult F
  current : Option (Nat × List HCol × List (List (Value F)))

def Rebuilt.read (r : Rebuilt F) : Entry F → Rebuilt F
  | .stepBegin step cols => { r with current := some (step, cols, []) }
  | .row row => { r with current := r.current.map fun c => (c.1, c.2.1, c.2.2 ++ [row]) }
  | .stepEnd affected rowid truncated =>
    match r.current with
    | none => r
    | some (step, cols, rows) => ⟨r.out.record step (.ok ⟨cols, rows, affected, rowid, truncated⟩), none⟩
  | .stepError step err => { r with out := r.out.record step (.error err) }

def foldEntries (n : Nat) (entries : List (Entry F)) : HBatchResult F :=
  (entries.foldl Rebuilt.read ⟨.empty n, none⟩).out

/-! ## The executed steps -/

/-- The steps that are executed, with their outcomes: the loop without its bookkeeping. -/
def executed : Nat → List (HBatchStep F) → σ → HBatchResult F → Bool → Option (σ × List (Nat × Outcome F))
  | _, [], s, _, _ => some (s, [])
  | i, step :: rest, s, out, ac =>
    match admitted out ac step.condition with
    | none => none
    | some false => executed (i + 1) rest s out ac
    | some true =>
      let s' := (execStmt sess s step.stmt).1
      let o := outcome (execStmt sess s step.stmt).2
      (executed (i + 1) rest s' (out.record i o) (sess.autocommit s')).map fun r => (r.1, (i, o) :: r.2)

def HBatchResult.recordAll (out : HBatchResult F) (log : List (Nat × Outcome F)) : HBatchResult F :=
  log.foldl (fun out e => out.record e.1 e.2) out

/-- Whatever is reported to, as long as it wants to go on: it sees the executed steps in order,
and the slots are the ones they fill. -/
theorem runSteps_eq_executed {ω : Type} (emit : Nat → Outcome F → ω → ω × Bool) (keep : Nat → Outcome F → ω → ω)
    (hEmit : ∀ i o w, emit i o w = (keep i o w, true)) (i : Nat) (steps : List (HBatchStep F)) (s : σ) (w : ω)
    (out : HBatchResult F) (ac : Bool) :
    runSteps sess emit i steps s w out ac =
      (executed sess i steps s out ac).map fun r => (r.1, r.2.foldl (fun w e => keep e.1 e.2 w) w, out.recordAll r.2) := by
  induction steps generalizing i s w out ac with
  | nil => rfl
  | cons step rest ih =>
    unfold runSteps executed
    cases admitted out ac step.condition with
    | none => rfl
    | some go =>
      cases go with
      | false => exact ih (i + 1) s w out ac
      | true =>
        dsimp only
        rw [hEmit]
        dsimp only
        rw [ih, Option.map_map]
        rfl

variable {sess}

/-- Steps are executed in order, each at most once. -/
theorem executed_ordered {i : Nat} {steps : List (HBatchStep F)} {s s' : σ} {out : HBatchResult F} {ac : Bool}
    {log : List (Nat × Outcome F)} (h : executed sess i steps s out ac = some (s', log)) :
    (∀ e ∈ log, i ≤ e.1 ∧ e.1 < i + steps.length) ∧ (log.map Prod.fst).Pairwise (· < ·) := by
  induction steps generalizing i s out ac log with
  | nil =>
    cases h
    exact ⟨nofun, .nil⟩
  | cons step rest ih =>
    have hRest : ∀ {log' : List (Nat × Outcome F)} {s : σ} {out : HBatchResult F} {ac : Bool},
        executed sess (i + 1) rest s out ac = some (s', log') →
        (∀ e ∈ log', i + 1 ≤ e.1 ∧ e.1 < i + (step :: rest).length) ∧ (log'.map Prod.fst).Pairwise (· < ·) := by
      intro log' s out ac h'
      obtain ⟨hBounds, hOrder⟩ := ih h'
      refine ⟨fun e he => ?_, hOrder⟩
      have hBound := hBounds e he
      rw [List.length_cons]
      omega
    unfold executed at h
    split at h
    · cases h
    · obtain ⟨hBounds, hOrder⟩ := hRest h
      refine ⟨fun e he => ?_, hOrder⟩
      have hBound := hBounds e he
      omega
    · obtain ⟨r, hr, hEq⟩ := Option.map_eq_some_iff.mp h
      cases hEq
      obtain ⟨hBounds, hOrder⟩ := hRest hr
      refine ⟨fun e he => ?_, ?_⟩
      · cases List.mem_cons.mp he with
        | inl hFirst =>
          subst hFirst
          rw [List.length_cons]
          omega
        | inr hLater =>
          have hBound := hBounds e hLater
          omega
      · rw [List.map_cons, List.pairwise_cons]
        refine ⟨fun j hj => ?_, hOrder⟩
        obtain ⟨e, he, rfl⟩ := List.mem_map.mp hj
        exact (hBounds e he).1

/-! ## Reading the entries back -/

def entriesOfAll (log : List (Nat × Outcome F)) : List (Entry F) := log.flatMap fun e => entriesOf e.1 e.2

theorem writeAll_all (es written : List (Entry F)) : writeAll (fun _ => true) es written = (written ++ es, true) := by
  induction es generalizing written with
  | nil => simp [writeAll]
  | cons e rest ih => simp [writeAll, ih]

theorem foldl_entriesOf (log : List (Nat × Outcome F)) (written : List (Entry F)) :
    log.foldl (fun written e => written ++ entriesOf e.1 e.2) written = written ++ entriesOfAll log := by
  induction log generalizing written with
  | nil => simp [entriesOfAll]
  | cons e rest ih => simp [entriesOfAll, ih]

theorem read_rows (out : HBatchResult F) (step : Nat) (cols : List HCol) (before rows : List (List (Value F))) :
    (rows.map Entry.row).foldl Rebuilt.read ⟨out, some (step, cols, before)⟩ =
      ⟨out, some (step, cols, before ++ rows)⟩ := by
  induction rows generalizing before with
  | nil => simp
  | cons row rest ih =>
    rw [List.map_cons, List.foldl_cons]
    exact (ih (before ++ [row])).trans (by simp)

/-- The entries of a step rebuild what the pipeline records for it. -/
theorem read_entriesOf (out : HBatchResult F) {i : Nat} (hi : i < 2 ^ 32) (o : Outcome F) :
    (entriesOf i o).foldl Rebuilt.read ⟨out, none⟩ = ⟨out.record i o, none⟩ := by
  have hStep := Nat.mod_eq_of_lt hi
  cases o with
  | error err =>
    rw [entriesOf, hStep]
    rfl
  | ok res =>
    rw [entriesOf, hStep, List.foldl_cons, List.foldl_append]
    change [Entry.stepEnd res.affectedRowCount res.lastInsertRowid res.truncated].foldl Rebuilt.read
      ((res.rows.map Entry.row).foldl Rebuilt.read ⟨out, some (i, res.cols, [])⟩) = _
    rw [read_rows]
    rfl

theorem read_entriesOfAll {log : List (Nat × Outcome F)} (hSmall : ∀ e ∈ log, e.1 < 2 ^ 32) (out : HBatchResult F) :
    (entriesOfAll log).foldl Rebuilt.read ⟨out, none⟩ = ⟨out.recordAll log, none⟩ := by
  induction log generalizing out with
  | nil => rfl
  | cons e rest ih =>
    have hFirst := read_entriesOf out (hSmall e List.mem_cons_self) e.2
    have hRest := ih (fun e he => hSmall e (List.mem_cons_of_mem _ he)) (out.record e.1 e.2)
    rw [entriesOfAll, List.flatMap_cons, List.foldl_append, hFirst]
    exact hRest

/-! ## Which steps have entries -/

def Entry.step? : Entry F → Option Nat
  | .stepBegin step _ | .stepError step _ => some step
  | _ => none

theorem steps_entriesOf (i : Nat) (o : Outcome F) : (entriesOf i o).filterMap Entry.step? = [i % 2 ^ 32] := by
  cases o with
  | error err => rfl
  | ok res =>
    have hRows : (res.rows.map Entry.row).filterMap Entry.step? = [] := by
      rw [List.filterMap_eq_nil_iff]
      intro e he
      obtain ⟨row, -, rfl⟩ := List.mem_map.mp he
      rfl
    simp [entriesOf, Entry.step?, hRows]

theorem steps_entriesOfAll {log : List (Nat × Outcome F)} (hSmall : ∀ e ∈ log, e.1 < 2 ^ 32) :
    (entriesOfAll log).filterMap Entry.step? = log.map Prod.fst := by
  induction log with
  | nil => rfl
  | cons e rest ih =>
    have hRest := ih fun e he => hSmall e (List.mem_cons_of_mem _ he)
    rw [entriesOfAll, List.flatMap_cons, List.filterMap_append, steps_entriesOf,
      Nat.mod_eq_of_lt (hSmall e List.mem_cons_self)]
    exact congrArg (e.1 :: ·) hRest

def HBatchResult.Filled (out : HBatchResult F) (i : Nat) : Prop :=
  (∃ res, out.stepResults[i]? = some (some res)) ∨ ∃ err, out.stepErrors[i]? = some (some err)

structure HBatchResult.Sized (out : HBatchResult F) (n : Nat) : Prop where
  results : out.stepResults.length = n
  errors : out.stepErrors.length = n

theorem HBatchResult.Sized.record {out : HBatchResult F} {n : Nat} (h : out.Sized n) (i : Nat) (o : Outcome F) :
    (out.record i o).Sized n := by
  cases o with
  | error err => exact ⟨h.results, List.length_set.trans h.errors⟩
  | ok res => exact ⟨List.length_set.trans h.results, h.errors⟩

theorem HBatchResult.Sized.filled_record {out : HBatchResult F} {n i : Nat} (h : out.Sized n) (hi : i < n) (o : Outcome F) :
    (out.record i o).Filled i := by
  cases o with
  | error err => exact .inr ⟨err, List.getElem?_set_self (by rw [h.errors]; exact hi)⟩
  | ok res => exact .inl ⟨res, List.getElem?_set_self (by rw [h.results]; exact hi)⟩

theorem set_some_kept {α : Type} {slots : List (Option α)} {i j : Nat} {a b : α} (h : slots[i]? = some (some a)) :
    ∃ c, (slots.set j (some b))[i]? = some (some c) := by
  by_cases hij : j = i
  · subst hij
    exact ⟨b, List.getElem?_set_self (List.getElem?_eq_some_iff.mp h).1⟩
  · exact ⟨a, (List.getElem?_set_ne hij).trans h⟩

theorem HBatchResult.Filled.record {out : HBatchResult F} {i : Nat} (h : out.Filled i) (j : Nat) (o : Outcome F) :
    (out.record j o).Filled i := by
  cases o with
  | error err =>
    cases h with
    | inl hRes => exact .inl hRes
    | inr hErr => exact .inr (set_some_kept hErr.choose_spec)
  | ok res =>
    cases h with
    | inl hRes => exact .inl (set_some_kept hRes.choose_spec)
    | inr hErr => exact .inr hErr

theorem HBatchResult.Filled.recordAll {out : HBatchResult F} {i : Nat} (h : out.Filled i)
    (log : List (Nat × Outcome F)) : (out.recordAll log).Filled i := by
  induction log generalizing out with
  | nil => exact h
  | cons e rest ih => exact ih (h.record e.1 e.2)

theorem HBatchResult.Sized.filled_recordAll {out : HBatchResult F} {n : Nat} (h : out.Sized n)
    {log : List (Nat × Outcome F)} (hSmall : ∀ e ∈ log, e.1 < n) {e : Nat × Outcome F} (he : e ∈ log) :
    (out.recordAll log).Filled e.1 := by
  induction log generalizing out with
  | nil => cases he
  | cons first rest ih =>
    cases List.mem_cons.mp he with
    | inl hFirst =>
      subst hFirst
      exact (h.filled_record (hSmall e List.mem_cons_self) e.2).recordAll rest
    | inr hLater =>
      exact ih (h.record first.1 first.2) (fun e he => hSmall e (List.mem_cons_of_mem _ he)) hLater

/-! ## Conditions in range -/

def indexInRange (n : Nat) : Option Int → Bool
  | none => true
  | some step => 0 ≤ step && step < n

mutual

/-- Every step index of the condition is one of the batch. -/
def HBatchCond.inRange (n : Nat) : HBatchCond → Bool
  | .ok step | .error step => indexInRange n step
  | .not none => true
  | .not (some c) => c.inRange n
  | .and conds | .or conds => allInRange n conds
  | .isAutocommit | .unknown _ => true

def allInRange (n : Nat) : List HBatchCond → Bool
  | [] => true
  | c :: rest => c.inRange n && allInRange n rest

end

def HBatch.inRange (b : HBatch F) : Bool :=
  b.steps.all fun step => step.condition.all fun c => c.inRange b.steps.length

theorem filled_isSome {α : Type} {n : Nat} (slots : List (Option α)) {step : Option Int} (h : indexInRange n step = true) :
    (filled slots step).isSome = true := by
  cases step with
  | none => rfl
  | some k =>
    have hNonneg : 0 ≤ k := by simpa using (Bool.and_eq_true_iff.mp h).1
    simp only [filled, if_pos hNonneg]
    split <;> rfl

mutual

theorem evalCond_isSome {n : Nat} (out : HBatchResult F) (ac : Bool) :
    ∀ c : HBatchCond, c.inRange n = true → (evalCond out ac c).isSome = true
  | .ok step, h | .error step, h => by
    rw [evalCond]
    exact filled_isSome _ (by rwa [HBatchCond.inRange] at h)
  | .not none, _ => by rw [evalCond]; rfl
  | .not (some c), h => by
    rw [evalCond, Option.isSome_map]
    exact evalCond_isSome out ac c (by rwa [HBatchCond.inRange] at h)
  | .and conds, h => by
    rw [evalCond]
    exact evalAll_isSome out ac conds (by rwa [HBatchCond.inRange] at h)
  | .or conds, h => by
    rw [evalCond]
    exact evalAny_isSome out ac conds (by rwa [HBatchCond.inRange] at h)
  | .isAutocommit, _ => by rw [evalCond]; rfl
  | .unknown _, _ => by rw [evalCond]; rfl

theorem evalAll_isSome {n : Nat} (out : HBatchResult F) (ac : Bool) :
    ∀ conds : List HBatchCond, allInRange n conds = true → (evalAll out ac conds).isSome = true
  | [], _ => by rw [evalAll]; rfl
  | c :: rest, h => by
    rw [allInRange, Bool.and_eq_true] at h
    have hFirst := evalCond_isSome out ac c h.1
    rw [evalAll]
    split
    · rename_i hNone
      rw [hNone] at hFirst
      cases hFirst
    · rfl
    · exact evalAll_isSome out ac rest h.2

theorem evalAny_isSome {n : Nat} (out : HBatchResult F) (ac : Bool) :
    ∀ conds : List HBatchCond, allInRange n conds = true → (evalAny out ac conds).isSome = true
  | [], _ => by rw [evalAny]; rfl
  | c :: rest, h => by
    rw [allInRange, Bool.and_eq_true] at h
    have hFirst := evalCond_isSome out ac c h.1
    rw [evalAny]
    split
    · rename_i hNone
      rw [hNone] at hFirst
      cases hFirst
    · rfl
    · exact evalAny_isSome out ac rest h.2

end

theorem executed_isSome {n : Nat} (i : Nat) {steps : List (HBatchStep F)} (s : σ) (out : HBatchResult F) (ac : Bool)
    (h : ∀ step ∈ steps, step.condition.all (fun c => c.inRange n) = true) : (executed sess i steps s out ac).isSome = true := by
  induction steps generalizing i s out ac with
  | nil => rfl
  | cons step rest ih =>
    have hRest : ∀ step ∈ rest, step.condition.all (fun c => c.inRange n) = true :=
      fun step hs => h step (List.mem_cons_of_mem _ hs)
    have hAdmitted : (admitted out ac step.condition).isSome = true := by
      have hFirst := h step List.mem_cons_self
      cases hCond : step.condition with
      | none => rfl
      | some c =>
        rw [hCond] at hFirst
        exact evalCond_isSome out ac c hFirst
    unfold executed
    split
    · rename_i hNone
      rw [hNone] at hAdmitted
      cases hAdmitted
    · exact ih (i + 1) s out ac hRest
    · dsimp only
      rw [Option.isSome_map]
      exact ih _ _ _ _ hRest

/-! ## Agreement -/

/-- A cursor's answer beside the pipeline's, for a batch of `n` steps. -/
structure CursorAgrees (n : Nat) (c : σ × List (Entry F)) (p : σ × HBatchResult F) : Prop where
  state : c.1 = p.1
  rebuilt : foldEntries n c.2 = p.2
  ordered : (c.2.filterMap Entry.step?).Pairwise (· < ·)
  skipped : ∀ i, p.2.stepResults[i]? = some none → p.2.stepErrors[i]? = some none → i ∉ c.2.filterMap Entry.step?
  blocks : ∃ log : List (Nat × Outcome F), c.2 = entriesOfAll log ∧ (log.map Prod.fst).Pairwise (· < ·) ∧ ∀ e ∈ log, e.1 < n

theorem handleCursor_eq (b : HBatch F) (s : σ) :
    handleCursor sess (fun _ => true) b s =
      (executed sess 0 b.steps s (.empty b.steps.length) (sess.autocommit s)).map fun r => (r.1, entriesOfAll r.2) := by
  have hRun := runSteps_eq_executed sess (fun i o written => writeAll (fun _ => true) (entriesOf i o) written)
    (fun i o written => written ++ entriesOf i o) (fun i o w => writeAll_all (entriesOf i o) w) 0 b.steps s []
    (.empty b.steps.length) (sess.autocommit s)
  unfold handleCursor runHranaBatch
  rw [hRun, Option.map_map]
  simp only [Bool.not_true, Bool.false_eq_true, if_false, Function.comp_def, foldl_entriesOf, List.nil_append]

theorem execBatch_eq (b : HBatch F) (s : σ) :
    execBatch sess b s =
      (executed sess 0 b.steps s (.empty b.steps.length) (sess.autocommit s)).map
        fun r => (r.1, (HBatchResult.empty b.steps.length).recordAll r.2) := by
  have hRun := runSteps_eq_executed sess (fun _ _ w => (w, true)) (fun _ _ w => w)
    (fun _ _ _ => rfl) 0 b.steps s () (.empty b.steps.length) (sess.autocommit s)
  unfold execBatch runHranaBatch
  rw [hRun, Option.map_map]
  rfl

theorem sized_empty (n : Nat) : (HBatchResult.empty n : HBatchResult F).Sized n :=
  ⟨List.length_replicate, List.length_replicate⟩

theorem cursorAgrees_of_log {n : Nat} (hn : n ≤ 2 ^ 32) (s : σ) {log : List (Nat × Outcome F)} (hSmall : ∀ e ∈ log, e.1 < n)
    (hOrder : (log.map Prod.fst).Pairwise (· < ·)) :
    CursorAgrees n (s, entriesOfAll log) (s, (HBatchResult.empty n).recordAll log) := by
  have hCut : ∀ e ∈ log, e.1 < 2 ^ 32 := fun e he => Nat.lt_of_lt_of_le (hSmall e he) hn
  have hSteps := steps_entriesOfAll hCut
  refine ⟨rfl, congrArg Rebuilt.out (read_entriesOfAll hCut _), ?_, ?_, log, rfl, hOrder, hSmall⟩
  · dsimp only
    rw [hSteps]
    exact hOrder
  · intro i hResult hError hMem
    dsimp only at hMem hResult hError
    rw [hSteps] at hMem
    obtain ⟨e, he, rfl⟩ := List.mem_map.mp hMem
    cases (sized_empty n).filled_recordAll hSmall he with
    | inl hRes =>
      obtain ⟨res, hRes⟩ := hRes
      rw [hResult] at hRes
      cases hRes
    | inr hErr =>
      obtain ⟨err, hErr⟩ := hErr
      rw [hError] at hErr
      cases hErr

theorem cursor_agrees_with_batch (sess : Session F σ) (b : HBatch F) (s : σ) :
    Option.Rel (CursorAgrees b.steps.length) (handleCursor sess (fun _ => true) b s) (execBatch sess b s) ∧
      (b.inRange = true → (execBatch sess b s).isSome = true) := by
  rw [handleCursor_eq, execBatch_eq]
  constructor
  · cases hRun : executed sess 0 b.steps s (.empty b.steps.length) (sess.autocommit s) with
    | none => exact .none
    | some r =>
      obtain ⟨hBounds, hOrder⟩ := executed_ordered hRun
      refine .some (cursorAgrees_of_log b.numbered r.1 (fun e he => ?_) hOrder)
      have hBound := hBounds e he
      omega
  · intro hRange
    rw [Option.isSome_map]
    exact executed_isSome 0 s _ _ (List.all_eq_true.mp hRange)

end QuicSql.Hrana
