import Mathlib.Data.List.Basic

/-!
# A connection with transactions and savepoints

Commands over an arbitrary type of database states; changes are named by
labels, and an interpretation says what a label does. A command may fail, and
then changes nothing. The run over lists of labels records which changes were
made and is the most general one: every other run is its image.
-/

namespace QuicSql.Lib.Txn

universe u v

variable {ε : Type u} {D : Type v}

inductive Cmd (ε : Type u) where
  | change (label : ε)
  | begin
  | commit
  | rollback
  | savepoint (name : String)
  | release (name : String)
  | rollbackTo (name : String)
deriving DecidableEq, Repr

/-- Open transactions keep a stack of savepoints, innermost first, and whether the
outermost savepoint began the transaction. -/
structure Open (D : Type v) where
  saves : List (String × D)
  bySavepoint : Bool
deriving DecidableEq, Repr

/-- `committed` is what others see, `work` what the connection sees. -/
structure Conn (D : Type v) where
  committed : D
  work : D
  tx : Option (Open D)
deriving DecidableEq, Repr

def Conn.idle (d : D) : Conn D := ⟨d, d, none⟩

/-- The stack below and including the innermost savepoint of this name. -/
def findSave (name : String) : List (String × D) → Option (D × List (String × D))
  | [] => none
  | (n, d) :: rest => if n = name then some (d, rest) else findSave name rest

/-- The command's effect, or nothing when it is not allowed in this state. -/
def Conn.apply (eff : ε → D → D) (c : Conn D) : Cmd ε → Option (Conn D)
  | .change label =>
    match c.tx with
    | none => some (Conn.idle (eff label c.committed))
    | some _ => some { c with work := eff label c.work }
  | .begin =>
    match c.tx with
    | none => some { c with tx := some ⟨[], false⟩ }
    | some _ => none
  | .commit =>
    match c.tx with
    | none => none
    | some _ => some (Conn.idle c.work)
  | .rollback =>
    match c.tx with
    | none => none
    | some _ => some (Conn.idle c.committed)
  | .savepoint name =>
    match c.tx with
    | none => some { c with tx := some ⟨[(name, c.work)], true⟩ }
    | some tx => some { c with tx := some { tx with saves := (name, c.work) :: tx.saves } }
  | .release name =>
    match c.tx with
    | none => none
    | some tx =>
      match findSave name tx.saves with
      | none => none
      | some (_, rest) =>
        if rest.isEmpty && tx.bySavepoint then some (Conn.idle c.work)
        else some { c with tx := some { tx with saves := rest } }
  | .rollbackTo name =>
    match c.tx with
    | none => none
    | some tx =>
      match findSave name tx.saves with
      | none => none
      | some (d, rest) => some { c with work := d, tx := some { tx with saves := (name, d) :: rest } }

def Conn.exec (eff : ε → D → D) (c : Conn D) (cmd : Cmd ε) (ok : Bool) : Conn D × Bool :=
  match ok, c.apply eff cmd with
  | true, some c' => (c', true)
  | _, _ => (c, false)

/-- A text of several commands stops at the first that fails. -/
def Conn.execAll (eff : ε → D → D) : Conn D → List (Cmd ε) → (Nat → Bool) → Conn D × Bool
  | c, [], _ => (c, true)
  | c, cmd :: rest, ok =>
    match c.exec eff cmd (ok 0) with
    | (c', false) => (c', false)
    | (c', true) => Conn.execAll eff c' rest (fun k => ok (k + 1))

/-! ## The free run -/

def record (label : ε) (log : List ε) : List ε := log ++ [label]

def replay (eff : ε → D → D) (d : D) (log : List ε) : D := log.foldl (fun d label => eff label d) d

theorem replay_record (eff : ε → D → D) (d : D) (label : ε) (log : List ε) :
    replay eff d (record label log) = eff label (replay eff d log) := by
  simp [replay, record, List.foldl_append]

def mapSave {D' : Type*} (f : D → D') (s : String × D) : String × D' := (s.1, f s.2)

def Conn.map {D' : Type*} (f : D → D') (c : Conn D) : Conn D' where
  committed := f c.committed
  work := f c.work
  tx := c.tx.map (fun tx => ⟨tx.saves.map (mapSave f), tx.bySavepoint⟩)

theorem findSave_map {D' : Type*} (f : D → D') (name : String) (saves : List (String × D)) :
    findSave name (saves.map (mapSave f)) =
      (findSave name saves).map (fun s => (f s.1, s.2.map (mapSave f))) := by
  induction saves with
  | nil => rfl
  | cons s rest ih =>
    obtain ⟨n, d⟩ := s
    simp only [List.map_cons, mapSave, findSave]
    split
    · rfl
    · exact ih

theorem apply_map (eff : ε → D → D) (d : D) (c : Conn (List ε)) (cmd : Cmd ε) :
    (c.map (replay eff d)).apply eff cmd = (c.apply record cmd).map (Conn.map (replay eff d)) := by
  obtain ⟨committed, work, tx⟩ := c
  cases tx with
  | none => cases cmd <;> simp [Conn.apply, Conn.map, Conn.idle, replay_record, mapSave]
  | some tx =>
    cases cmd with
    | change label | begin | commit | rollback | savepoint name =>
      simp [Conn.apply, Conn.map, Conn.idle, replay_record, mapSave]
    | release name =>
      simp only [Conn.apply, Conn.map, Option.map_some, findSave_map]
      cases findSave name tx.saves with
      | none => rfl
      | some found =>
        simp only [Option.map_some, List.isEmpty_map]
        split <;> simp [Conn.map, Conn.idle]
    | rollbackTo name =>
      simp only [Conn.apply, Conn.map, Option.map_some, findSave_map]
      cases findSave name tx.saves with
      | none => rfl
      | some found => simp [Conn.map, mapSave]

theorem exec_map (eff : ε → D → D) (d : D) (c : Conn (List ε)) (cmd : Cmd ε) (ok : Bool) :
    (c.map (replay eff d)).exec eff cmd ok =
      ((c.exec record cmd ok).1.map (replay eff d), (c.exec record cmd ok).2) := by
  unfold Conn.exec
  rw [apply_map]
  cases ok <;> cases c.apply record cmd <;> rfl

/-- Every run is the image of the free run with the same outcomes. -/
theorem execAll_map (eff : ε → D → D) (d : D) (c : Conn (List ε)) (cmds : List (Cmd ε)) (ok : Nat → Bool) :
    (c.map (replay eff d)).execAll eff cmds ok =
      ((c.execAll record cmds ok).1.map (replay eff d), (c.execAll record cmds ok).2) := by
  induction cmds generalizing c ok with
  | nil => rfl
  | cons cmd rest ih =>
    simp only [Conn.execAll, exec_map]
    rcases c.exec record cmd (ok 0) with ⟨c', done⟩
    cases done with
    | false => rfl
    | true => exact ih c' _

/-! ## What is durable stays durable -/

/-- Whatever the connection can still go back to contains what is committed. -/
structure Grown (c : Conn (List ε)) : Prop where
  work : c.committed <+: c.work
  saves : ∀ tx, c.tx = some tx → ∀ s ∈ tx.saves, c.committed <+: s.2
  auto : c.tx = none → c.work = c.committed

theorem grown_idle (log : List ε) : Grown (Conn.idle log) :=
  ⟨List.prefix_rfl, by simp [Conn.idle], fun _ => rfl⟩

theorem findSave_mem {name : String} {saves rest : List (String × D)} {d : D}
    (h : findSave name saves = some (d, rest)) :
    (∃ n, (n, d) ∈ saves) ∧ ∀ s ∈ rest, s ∈ saves := by
  induction saves with
  | nil => cases h
  | cons s tail ih =>
    obtain ⟨n, e⟩ := s
    unfold findSave at h
    split at h
    · cases h
      exact ⟨⟨n, List.mem_cons_self⟩, fun s hs => List.mem_cons_of_mem _ hs⟩
    · obtain ⟨⟨m, hm⟩, hRest⟩ := ih h
      exact ⟨⟨m, List.mem_cons_of_mem _ hm⟩, fun s hs => List.mem_cons_of_mem _ (hRest s hs)⟩

theorem Grown.apply_auto {c c' : Conn (List ε)} {cmd : Cmd ε} (hGrown : Grown c) (hTx : c.tx = none)
    (h : c.apply record cmd = some c') : Grown c' ∧ c.committed <+: c'.committed := by
  obtain ⟨committed, work, tx⟩ := c
  obtain rfl : tx = none := hTx
  obtain rfl : work = committed := hGrown.auto rfl
  cases cmd with
  | change label =>
    cases h
    exact ⟨grown_idle _, List.prefix_append _ _⟩
  | begin =>
    cases h
    refine ⟨⟨List.prefix_rfl, ?_, nofun⟩, List.prefix_rfl⟩
    rintro tx ⟨⟩ s hs
    cases hs
  | savepoint name =>
    cases h
    refine ⟨⟨List.prefix_rfl, ?_, nofun⟩, List.prefix_rfl⟩
    rintro tx ⟨⟩ s hs
    obtain rfl := List.mem_singleton.mp hs
    exact List.prefix_rfl
  | commit | rollback | release name | rollbackTo name => cases h

theorem Grown.apply_tx {c c' : Conn (List ε)} {cmd : Cmd ε} {tx : Open (List ε)} (hGrown : Grown c)
    (hTx : c.tx = some tx) (h : c.apply record cmd = some c') :
    Grown c' ∧ c.committed <+: c'.committed := by
  have hSaves := hGrown.saves tx hTx
  cases cmd with
  | change label =>
    simp only [Conn.apply, hTx, Option.some.injEq] at h
    subst h
    refine ⟨⟨hGrown.work.trans (List.prefix_append _ _), ?_, nofun⟩, List.prefix_rfl⟩
    rintro tx' ⟨⟩ s hs
    exact hSaves s hs
  | begin => simp [Conn.apply, hTx] at h
  | commit =>
    simp only [Conn.apply, hTx, Option.some.injEq] at h
    subst h
    exact ⟨grown_idle _, hGrown.work⟩
  | rollback =>
    simp only [Conn.apply, hTx, Option.some.injEq] at h
    subst h
    exact ⟨grown_idle _, List.prefix_rfl⟩
  | savepoint name =>
    simp only [Conn.apply, hTx, Option.some.injEq] at h
    subst h
    refine ⟨⟨hGrown.work, ?_, nofun⟩, List.prefix_rfl⟩
    rintro tx' ⟨⟩ s hs
    rcases List.mem_cons.mp hs with rfl | hs
    · exact hGrown.work
    · exact hSaves s hs
  | release name =>
    simp only [Conn.apply, hTx] at h
    split at h
    · cases h
    · rename_i d rest hFind
      split at h
      · cases h
        exact ⟨grown_idle _, hGrown.work⟩
      · cases h
        refine ⟨⟨hGrown.work, ?_, nofun⟩, List.prefix_rfl⟩
        rintro tx' ⟨⟩ s hs
        exact hSaves s ((findSave_mem hFind).2 s hs)
  | rollbackTo name =>
    simp only [Conn.apply, hTx] at h
    split at h
    · cases h
    · rename_i d rest hFind
      cases h
      obtain ⟨⟨n, hMem⟩, hRest⟩ := findSave_mem hFind
      refine ⟨⟨hSaves _ hMem, ?_, nofun⟩, List.prefix_rfl⟩
      rintro tx' ⟨⟩ s hs
      rcases List.mem_cons.mp hs with rfl | hs
      · exact hSaves (n, d) hMem
      · exact hSaves s (hRest s hs)

theorem Grown.exec {c : Conn (List ε)} (hGrown : Grown c) (cmd : Cmd ε) (ok : Bool) :
    Grown (c.exec record cmd ok).1 ∧ c.committed <+: (c.exec record cmd ok).1.committed := by
  unfold Conn.exec
  split
  · rename_i c' h
    cases hTx : c.tx with
    | none => exact hGrown.apply_auto hTx h
    | some tx => exact hGrown.apply_tx hTx h
  · exact ⟨hGrown, List.prefix_rfl⟩

theorem Grown.execAll {c : Conn (List ε)} (hGrown : Grown c) (cmds : List (Cmd ε)) (ok : Nat → Bool) :
    Grown (c.execAll record cmds ok).1 ∧ c.committed <+: (c.execAll record cmds ok).1.committed := by
  induction cmds generalizing c ok with
  | nil => exact ⟨hGrown, List.prefix_rfl⟩
  | cons cmd rest ih =>
    obtain ⟨hNext, hPrefix⟩ := hGrown.exec cmd (ok 0)
    simp only [Conn.execAll]
    revert hNext hPrefix
    rcases c.exec record cmd (ok 0) with ⟨c', done⟩
    intro hNext hPrefix
    cases done with
    | false => exact ⟨hNext, hPrefix⟩
    | true =>
      obtain ⟨hEnd, hMore⟩ := ih hNext (fun k => ok (k + 1))
      exact ⟨hEnd, hPrefix.trans hMore⟩

/-- A run that fails somewhere has made nothing durable that the run in which nothing
fails by itself does not. -/
theorem execAll_committed_prefix {c : Conn (List ε)} (hGrown : Grown c) (cmds : List (Cmd ε))
    (ok : Nat → Bool) :
    (c.execAll record cmds ok).1.committed <+: (c.execAll record cmds (fun _ => true)).1.committed := by
  induction cmds generalizing c ok with
  | nil => exact List.prefix_rfl
  | cons cmd rest ih =>
    cases hOk : ok 0 with
    | false =>
      have hSame : c.execAll record (cmd :: rest) ok = (c, false) := by
        simp [Conn.execAll, Conn.exec, hOk]
      rw [hSame]
      exact (hGrown.execAll (cmd :: rest) _).2
    | true =>
      have hNext := (hGrown.exec cmd true).1
      simp only [Conn.execAll, hOk]
      revert hNext
      rcases c.exec record cmd true with ⟨c', done⟩
      intro hNext
      cases done with
      | false => exact List.prefix_rfl
      | true => exact ih hNext _

theorem execAll_append (eff : ε → D → D) (c : Conn D) (first rest : List (Cmd ε)) :
    c.execAll eff (first ++ rest) (fun _ => true) =
      match c.execAll eff first (fun _ => true) with
      | (c', false) => (c', false)
      | (c', true) => c'.execAll eff rest (fun _ => true) := by
  induction first generalizing c with
  | nil => rfl
  | cons cmd first ih =>
    simp only [List.cons_append, Conn.execAll]
    rcases c.exec eff cmd true with ⟨c', done⟩
    cases done with
    | false => rfl
    | true => exact ih c'

theorem execAll_of_ok {eff : ε → D → D} {c : Conn D} {cmds : List (Cmd ε)} {ok : Nat → Bool}
    (h : (c.execAll eff cmds ok).2 = true) :
    c.execAll eff cmds ok = c.execAll eff cmds (fun _ => true) := by
  induction cmds generalizing c ok with
  | nil => rfl
  | cons cmd rest ih =>
    cases hOk : ok 0 with
    | false => simp [Conn.execAll, Conn.exec, hOk] at h
    | true =>
      simp only [Conn.execAll, hOk] at h ⊢
      revert h
      rcases c.exec eff cmd true with ⟨c', done⟩
      intro h
      cases done with
      | false => cases h
      | true => exact ih h

/-! ## Texts that only change -/

def changeAll (eff : ε → D → D) : D → List ε → (Nat → Bool) → D × Bool
  | d, [], _ => (d, true)
  | d, label :: rest, ok =>
    if ok 0 then changeAll eff (eff label d) rest (fun k => ok (k + 1)) else (d, false)

theorem changeAll_of_ok {eff : ε → D → D} {d : D} {labels : List ε} {ok : Nat → Bool}
    (h : (changeAll eff d labels ok).2 = true) : (changeAll eff d labels ok).1 = replay eff d labels := by
  induction labels generalizing d ok with
  | nil => rfl
  | cons label rest ih =>
    unfold changeAll at h ⊢
    split at h
    · rename_i hOk
      rw [if_pos hOk]
      exact ih h
    · cases h

/-- In and outside a transaction alike; `place` puts a database state in the connection. -/
theorem execAll_change {eff : ε → D → D} {place : D → Conn D}
    (hPlace : ∀ label d, (place d).apply eff (.change label) = some (place (eff label d)))
    (d : D) (labels : List ε) (ok : Nat → Bool) :
    (place d).execAll eff (labels.map .change) ok =
      (place (changeAll eff d labels ok).1, (changeAll eff d labels ok).2) := by
  induction labels generalizing d ok with
  | nil => rfl
  | cons label rest ih =>
    cases hOk : ok 0 with
    | false => simp [Conn.execAll, Conn.exec, changeAll, hOk]
    | true =>
      simp only [List.map_cons, Conn.execAll, Conn.exec, changeAll, hOk, hPlace, if_true]
      exact ih (eff label d) _

end QuicSql.Lib.Txn
