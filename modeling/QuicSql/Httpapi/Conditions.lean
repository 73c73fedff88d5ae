import QuicSql.Httpapi.Cursor

/-!
# What the conditions of a batch mean

A condition speaks about the steps that were executed before it. The loop evaluates it on the
two arrays of results and errors, with an index that the client chose.
-/

namespace QuicSql.Hrana

open Wire

variable {F σ : Type}

/-! ## The Boolean reading -/

def succeeded (log : List (Nat × Outcome F)) (j : Nat) : Bool := log.any fun e => e.1 = j && e.2.isOk

def failed (log : List (Nat × Outcome F)) (j : Nat) : Bool := log.any fun e => e.1 = j && !e.2.isOk

/-- The step with the index is one of the `n` steps of the batch, and it has the property. -/
def refersTo (n : Nat) (property : Nat → Bool) : Option Int → Bool
  | none => false
  | some j => decide (0 ≤ j ∧ j < n) && property j.toNat

mutual

/-- A condition read over the steps executed so far and the state of the connection. -/
def reading (n : Nat) (log : List (Nat × Outcome F)) (ac : Bool) : HBatchCond → Bool
  | .ok step => refersTo n (succeeded log) step
  | .error step => refersTo n (failed log) step
  | .not none => false
  | .not (some c) => !reading n log ac c
  | .and conds => readingAll n log ac conds
  | .or conds => readingAny n log ac conds
  | .isAutocommit => ac
  | .unknown _ => false

def readingAll (n : Nat) (log : List (Nat × Outcome F)) (ac : Bool) : List HBatchCond → Bool
  | [] => true
  | c :: rest => reading n log ac c && readingAll n log ac rest

def readingAny (n : Nat) (log : List (Nat × Outcome F)) (ac : Bool) : List HBatchCond → Bool
  | [] => false
  | c :: rest => reading n log ac c || readingAny n log ac rest

end

variable (sess : Session F σ)

/-- The steps `i`, `i + 1`, … of a batch of `n`: a step is executed when its condition holds of
the log. -/
def meaning (n : Nat) : Nat → List (HBatchStep F) → σ → List (Nat × Outcome F) → σ × List (Nat × Outcome F)
  | _, [], s, log => (s, log)
  | i, step :: rest, s, log =>
    if step.condition.all (reading n log (sess.autocommit s)) then
      meaning n (i + 1) rest (execStmt sess s step.stmt).1 (log ++ [(i, outcome (execStmt sess s step.stmt).2)])
    else meaning n (i + 1) rest s log

def indexNonneg (step : Option Int) : Bool := step.all fun j => decide (0 ≤ j)

mutual

/-- No negative index is reached: an operand that decides ends the evaluation. -/
def safe (n : Nat) (log : List (Nat × Outcome F)) (ac : Bool) : HBatchCond → Bool
  | .ok step | .error step => indexNonneg step
  | .not none => true
  | .not (some c) => safe n log ac c
  | .and conds => safeAll n log ac conds
  | .or conds => safeAny n log ac conds
  | .isAutocommit | .unknown _ => true

def safeAll (n : Nat) (log : List (Nat × Outcome F)) (ac : Bool) : List HBatchCond → Bool
  | [] => true
  | c :: rest => safe n log ac c && (!reading n log ac c || safeAll n log ac rest)

def safeAny (n : Nat) (log : List (Nat × Outcome F)) (ac : Bool) : List HBatchCond → Bool
  | [] => true
  | c :: rest => safe n log ac c && (reading n log ac c || safeAny n log ac rest)

end

/-- No negative index is reached at any of the steps, executed as they mean. -/
def safeSteps (n : Nat) : Nat → List (HBatchStep F) → σ → List (Nat × Outcome F) → Bool
  | _, [], _, _ => true
  | i, step :: rest, s, log =>
    step.condition.all (safe n log (sess.autocommit s)) &&
      if step.condition.all (reading n log (sess.autocommit s)) then
        safeSteps n (i + 1) rest (execStmt sess s step.stmt).1 (log ++ [(i, outcome (execStmt sess s step.stmt).2)])
      else safeSteps n (i + 1) rest s log

/-! ## The arrays and the log -/

/-- The slots filled by the log of a batch of `n` steps. -/
structure Mirrors (n : Nat) (out : HBatchResult F) (log : List (Nat × Outcome F)) : Prop where
  sized : out.Sized n
  results : ∀ j, (out.stepResults.getD j none).isSome = (decide (j < n) && succeeded log j)
  errors : ∀ j, (out.stepErrors.getD j none).isSome = (decide (j < n) && failed log j)

theorem mirrors_empty (n : Nat) : Mirrors n (.empty n : HBatchResult F) [] := by
  have hEmpty : ∀ {α : Type} (j : Nat), ((List.replicate n (none : Option α)).getD j none).isSome = false := by
    intro α j
    rw [List.getD_eq_getElem?_getD, List.getElem?_replicate]
    split <;> rfl
  refine ⟨sized_empty n, fun j => ?_, fun j => ?_⟩
  · exact (hEmpty j).trans (by simp [succeeded])
  · exact (hEmpty j).trans (by simp [failed])

theorem isSome_getD_set {α : Type} (slots : List (Option α)) (i j : Nat) (a : α) :
    ((slots.set i (some a)).getD j none).isSome =
      ((slots.getD j none).isSome || (decide (j < slots.length) && decide (i = j))) := by
  simp only [List.getD_eq_getElem?_getD, List.getElem?_set]
  by_cases hij : i = j
  · subst hij
    by_cases hi : i < slots.length
    · simp [hi]
    · simp [hi]
  · simp [hij]

theorem Mirrors.record {n i : Nat} {out : HBatchResult F} {log : List (Nat × Outcome F)} (h : Mirrors n out log)
    (o : Outcome F) : Mirrors n (out.record i o) (log ++ [(i, o)]) := by
  cases o with
  | error err =>
    refine ⟨h.sized.record i _, fun j => ?_, fun j => ?_⟩
    · refine (h.results j).trans ?_
      simp [succeeded, Except.isOk, Except.toBool]
    · refine (isSome_getD_set out.stepErrors i j err).trans ?_
      rw [h.errors, h.sized.errors, ← Bool.and_or_distrib_left]
      simp [failed, Except.isOk, Except.toBool]
  | ok res =>
    refine ⟨h.sized.record i _, fun j => ?_, fun j => ?_⟩
    · refine (isSome_getD_set out.stepResults i j res).trans ?_
      rw [h.results, h.sized.results, ← Bool.and_or_distrib_left]
      simp [succeeded, Except.isOk, Except.toBool]
    · refine (h.errors j).trans ?_
      simp [failed, Except.isOk, Except.toBool]

/-! ## Evaluation -/

theorem filled_refersTo {α : Type} {n : Nat} {slots : List (Option α)} {property : Nat → Bool} {step : Option Int}
    (hLength : slots.length = n) (hSlots : ∀ j, (slots.getD j none).isSome = (decide (j < n) && property j)) :
    filled slots step = if indexNonneg step then some (refersTo n property step) else none := by
  cases step with
  | none => rfl
  | some j =>
    dsimp only [filled, refersTo, indexNonneg, Option.all_some]
    rw [hLength, hSlots]
    by_cases hj : 0 ≤ j
    · by_cases hIn : j < n
      · have hNat : j.toNat < n := by omega
        simp [hIn, hj, hNat]
      · simp [hIn, hj]
    · have hIn : j < n := by omega
      simp [hIn, hj]

section

variable {n : Nat} {out : HBatchResult F} {log : List (Nat × Outcome F)}

mutual

theorem Mirrors.evalCond (h : Mirrors n out log) (ac : Bool) :
    ∀ c : HBatchCond, evalCond out ac c = if safe n log ac c then some (reading n log ac c) else none
  | .ok step => by
    rw [Hrana.evalCond, reading, safe]
    exact filled_refersTo h.sized.results h.results
  | .error step => by
    rw [Hrana.evalCond, reading, safe]
    exact filled_refersTo h.sized.errors h.errors
  | .not none => by
    rw [Hrana.evalCond, reading, safe]
    rfl
  | .not (some c) => by
    rw [Hrana.evalCond, reading, safe, h.evalCond ac c]
    cases safe n log ac c <;> rfl
  | .and conds => by
    rw [Hrana.evalCond, reading, safe]
    exact h.evalAll ac conds
  | .or conds => by
    rw [Hrana.evalCond, reading, safe]
    exact h.evalAny ac conds
  | .isAutocommit => by
    rw [Hrana.evalCond, reading, safe]
    rfl
  | .unknown _ => by
    rw [Hrana.evalCond, reading, safe]
    rfl

theorem Mirrors.evalAll (h : Mirrors n out log) (ac : Bool) : ∀ conds : List HBatchCond,
    evalAll out ac conds = if safeAll n log ac conds then some (readingAll n log ac conds) else none
  | [] => by
    rw [Hrana.evalAll, readingAll, safeAll]
    rfl
  | c :: rest => by
    rw [Hrana.evalAll, readingAll, safeAll, h.evalCond ac c, h.evalAll ac rest]
    cases safe n log ac c <;> cases reading n log ac c <;> rfl

theorem Mirrors.evalAny (h : Mirrors n out log) (ac : Bool) : ∀ conds : List HBatchCond,
    evalAny out ac conds = if safeAny n log ac conds then some (readingAny n log ac conds) else none
  | [] => by
    rw [Hrana.evalAny, readingAny, safeAny]
    rfl
  | c :: rest => by
    rw [Hrana.evalAny, readingAny, safeAny, h.evalCond ac c, h.evalAny ac rest]
    cases safe n log ac c <;> cases reading n log ac c <;> rfl

end

theorem Mirrors.admitted (h : Mirrors n out log) (ac : Bool) (condition : Option HBatchCond) :
    admitted out ac condition =
      if condition.all (safe n log ac) then some (condition.all (reading n log ac)) else none := by
  cases condition with
  | none => rfl
  | some c => exact h.evalCond ac c

end

/-! ## The loop -/

/-- The loop over the arrays executes what the conditions mean, unless a negative index is
reached. -/
theorem Mirrors.executed {n : Nat} (steps : List (HBatchStep F)) (i : Nat) (s : σ) {out : HBatchResult F}
    {log : List (Nat × Outcome F)} (h : Mirrors n out log) :
    (executed sess i steps s out (sess.autocommit s)).map (fun r => (r.1, log ++ r.2)) =
      if safeSteps sess n i steps s log then some (meaning sess n i steps s log) else none := by
  induction steps generalizing i s out log with
  | nil => simp [Hrana.executed, safeSteps, meaning]
  | cons step rest ih =>
    unfold Hrana.executed safeSteps meaning
    rw [h.admitted]
    cases step.condition.all (safe n log (sess.autocommit s)) with
    | false => rfl
    | true =>
      cases step.condition.all (reading n log (sess.autocommit s)) with
      | false => exact ih (i + 1) s h
      | true =>
        have hRest := ih (i + 1) (execStmt sess s step.stmt).1
          (h.record (i := i) (outcome (execStmt sess s step.stmt).2))
        simp only [List.append_assoc, List.singleton_append] at hRest
        simpa [Option.map_map, Function.comp_def] using hRest

variable {sess}

/-- A report that stops the batch stops it between two conditions. -/
theorem Mirrors.runSteps_isSome {ω : Type} (emit : Nat → Outcome F → ω → ω × Bool) {n : Nat} {steps : List (HBatchStep F)}
    (i : Nat) (s : σ) (w : ω) {out : HBatchResult F} {log : List (Nat × Outcome F)} (h : Mirrors n out log)
    (hSafe : safeSteps sess n i steps s log = true) :
    (runSteps sess emit i steps s w out (sess.autocommit s)).isSome = true := by
  induction steps generalizing i s w out log with
  | nil => rfl
  | cons step rest ih =>
    obtain ⟨hFirst, hRest⟩ := Bool.and_eq_true_iff.mp hSafe
    unfold runSteps
    rw [h.admitted, if_pos hFirst]
    cases hGo : step.condition.all (reading n log (sess.autocommit s)) with
    | false =>
      rw [hGo] at hRest
      exact ih (i + 1) s w h hRest
    | true =>
      rw [hGo] at hRest
      dsimp only
      split
      · rfl
      · exact ih (i + 1) _ _ (h.record (i := i) _) hRest

theorem Mirrors.recordAll {n : Nat} {out : HBatchResult F} {log : List (Nat × Outcome F)} (h : Mirrors n out log)
    (more : List (Nat × Outcome F)) : Mirrors n (out.recordAll more) (log ++ more) := by
  induction more generalizing out log with
  | nil =>
    rw [List.append_nil]
    exact h
  | cons e rest ih =>
    rw [List.append_cons]
    exact ih (h.record e.2)

theorem runSteps_meaning (n : Nat) (steps : List (HBatchStep F)) (s : σ) :
    runSteps sess (fun _ _ w => (w, true)) 0 steps s () (.empty n) (sess.autocommit s) =
      if safeSteps sess n 0 steps s [] then
        some ((meaning sess n 0 steps s []).1, (), (HBatchResult.empty n).recordAll (meaning sess n 0 steps s []).2)
      else none := by
  have hRun := (mirrors_empty n).executed sess steps 0 s
  simp only [List.nil_append, Prod.eta, Option.map_id'] at hRun
  rw [runSteps_eq_executed sess _ (fun _ _ w => w) (fun _ _ _ => rfl), hRun]
  split <;> rfl

theorem safeSteps_take {n : Nat} {steps : List (HBatchStep F)} (i k : Nat) (s : σ) (log : List (Nat × Outcome F))
    (h : safeSteps sess n k steps s log = true) : safeSteps sess n k (steps.take i) s log = true := by
  induction steps generalizing i k s log with
  | nil => rwa [List.take_nil]
  | cons step rest ih =>
    cases i with
    | zero => rfl
    | succ i =>
      obtain ⟨hFirst, hRest⟩ := Bool.and_eq_true_iff.mp h
      refine Bool.and_eq_true_iff.mpr ⟨hFirst, ?_⟩
      split at hRest
      · rename_i hGo
        rw [if_pos hGo]
        exact ih i _ _ _ hRest
      · rename_i hGo
        rw [if_neg hGo]
        exact ih i _ _ _ hRest

theorem safe_of_safeSteps {n : Nat} {steps : List (HBatchStep F)} {i : Nat} {step : HBatchStep F} (k : Nat) (s : σ)
    (log : List (Nat × Outcome F)) (h : safeSteps sess n k steps s log = true) (hStep : steps[i]? = some step) :
    step.condition.all (safe n (meaning sess n k (steps.take i) s log).2
      (sess.autocommit (meaning sess n k (steps.take i) s log).1)) = true := by
  induction steps generalizing i k s log with
  | nil => cases hStep
  | cons first rest ih =>
    obtain ⟨hFirst, hRest⟩ := Bool.and_eq_true_iff.mp h
    cases i with
    | zero =>
      cases hStep
      exact hFirst
    | succ i =>
      rw [List.take_succ_cons, meaning]
      split at hRest
      · rename_i hGo
        rw [if_pos hGo]
        exact ih _ _ _ hRest hStep
      · rename_i hGo
        rw [if_neg hGo]
        exact ih _ _ _ hRest hStep

/-- No batch makes the server panic, and before each of its steps the arrays give the condition
of the step the value that it has over the executed steps, exactly when no negative index is
reached. -/
theorem batch_conditions_mean (sess : Session F σ) (steps : List (HBatchStep F)) (s : σ) :
    ((∀ (ω : Type) (emit : Nat → Outcome F → ω → ω × Bool) (w : ω),
        (runSteps sess emit 0 steps s w (.empty steps.length) (sess.autocommit s)).isSome = true) ∧
      ∀ i, ∃ s' log,
        meaning sess steps.length 0 (steps.take i) s [] = (s', log) ∧
        runSteps sess (fun _ _ w => (w, true)) 0 (steps.take i) s () (.empty steps.length) (sess.autocommit s) =
          some (s', (), (HBatchResult.empty steps.length).recordAll log) ∧
        ∀ step c, steps[i]? = some step → step.condition = some c →
          evalCond ((HBatchResult.empty steps.length).recordAll log) (sess.autocommit s') c =
            some (reading steps.length log (sess.autocommit s') c)) ↔
      safeSteps sess steps.length 0 steps s [] = true := by
  constructor
  · rintro ⟨hRuns, -⟩
    have hRun := hRuns Unit (fun _ _ w => (w, true)) ()
    rw [runSteps_meaning] at hRun
    by_contra hNot
    rw [if_neg hNot] at hRun
    cases hRun
  · intro hSafe
    refine ⟨fun ω emit w => (mirrors_empty _).runSteps_isSome emit 0 s w hSafe, fun i => ?_⟩
    refine ⟨_, _, rfl, ?_, fun step c hStep hCond => ?_⟩
    · rw [runSteps_meaning, if_pos (safeSteps_take i 0 s [] hSafe)]
    · have hReached := safe_of_safeSteps 0 s [] hSafe hStep
      rw [hCond] at hReached
      rw [((mirrors_empty steps.length).recordAll _).evalCond]
      exact if_pos hReached

/-- A connection on which every statement succeeds, with a table of no texts. -/
def quietSession : Session Unit Unit where
  run _ _ := ((), .ok ⟨[], [], 0, 0, false⟩)
  autocommit _ := true
  lookupSQL _ := none
  allowsAttach := false

def conditioned (c : HBatchCond) : HBatchStep Unit := ⟨some c, ⟨some "SELECT 1", none, [], [], none⟩⟩

-- the operand before it decides, so the negative index is not read
example : safeSteps quietSession 1 0 [conditioned (.or [.isAutocommit, .ok (some (-1))])] () [] = true := by decide

/-- A negative index passes the comparison with the length and is out of range. -/
theorem negative_index_panics :
    execBatch quietSession ⟨[conditioned (.ok (some (-1)))], by decide⟩ () = none := by
  decide

end QuicSql.Hrana
