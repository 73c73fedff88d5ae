import Mathlib.Logic.Function.Basic
import Mathlib.Order.Basic

/-!
# The grant table

A principal's level on a database is the higher of its own grant and the
wildcard grant. Grants only raise a level; it falls when the database or the
principal is revoked.
-/

namespace QuicSql.Authz

abbrev DbName := String

inductive Level where
  | none
  | readOnly
  | readWrite
  | admin
deriving DecidableEq, Repr

def Level.rank : Level → Nat
  | .none => 0
  | .readOnly => 1
  | .readWrite => 2
  | .admin => 3

def Level.canRead (l : Level) : Bool := Level.readOnly.rank ≤ l.rank

def Level.canWrite (l : Level) : Bool := Level.readWrite.rank ≤ l.rank

def wildcard : String := "*"

/-- A database without an entry has no grants at all. -/
structure Policy where
  grants : DbName → Option (String → Option Level)
  isOpen : Bool

def newPolicy (isOpen : Bool) : Policy := ⟨fun _ => none, isOpen⟩

namespace Policy

def grant (p : Policy) (db : DbName) (principal : String) (level : Level) : Policy :=
  let m := (p.grants db).getD (fun _ => none)
  let m' := match m principal with
    | some cur => if cur.rank < level.rank then Function.update m principal (some level) else m
    | none => Function.update m principal (some level)
  { p with grants := Function.update p.grants db (some m') }

def revoke (p : Policy) (db : DbName) : Policy :=
  { p with grants := Function.update p.grants db none }

def revokePrincipal (p : Policy) (principal : String) : Policy :=
  { p with grants := fun db => (p.grants db).map (fun m => Function.update m principal none) }

/-- The anonymous principal has the empty name. -/
def level (p : Policy) (name : String) (db : DbName) : Level :=
  if p.isOpen then .readWrite
  else
    match p.grants db with
    | none => .none
    | some m =>
      let lvl := (m wildcard).getD .none
      if name ≠ "" then
        match m name with
        | some l => if lvl.rank < l.rank then l else lvl
        | none => lvl
      else lvl

/-- A level that does not parse grants nothing. -/
def grantParsed (p : Policy) (db : DbName) (principal : String) : Option Level → Policy
  | some level => p.grant db principal level
  | none => p

/-- The grant that names the principal itself. -/
def own (p : Policy) (db : DbName) (name : String) : Option Level := (p.grants db).bind (fun m => m name)

def rank (p : Policy) (db : DbName) (name : String) : Nat := (p.own db name).elim 0 Level.rank

/-- The principal's own grant on the database reaches the level. -/
def Covers (p : Policy) (name : String) (db : DbName) (level : Level) : Prop :=
  ∃ l, p.own db name = some l ∧ level.rank ≤ l.rank

end Policy

/-- The highest rank that a list gives to an entry of the name. -/
def granted : List (String × Option Level) → String → Nat
  | [], _ => 0
  | g :: rest, name => max (if g.1 = name then g.2.elim 0 Level.rank else 0) (granted rest name)

variable {p : Policy} {db : DbName} {name : String}

/-! ## Own grants -/

namespace Policy

theorem own_grant_of_ne {db' : DbName} {principal : String} (level : Level) (h : db' ≠ db ∨ principal ≠ name) :
    (p.grant db principal level).own db' name = p.own db' name := by
  rcases Decidable.em (db' = db) with rfl | hDb
  · have hName : name ≠ principal := (h.resolve_left (fun hNe => hNe rfl)).symm
    unfold own grant
    cases hGrants : p.grants db' with
    | none => simp [Function.update_of_ne hName]
    | some m =>
      simp only [Option.getD_some, Function.update_self, Option.bind_some]
      split
      · split
        · exact Function.update_of_ne hName _ _
        · rfl
      · exact Function.update_of_ne hName _ _
  · unfold own grant
    dsimp only
    rw [Function.update_of_ne hDb]

theorem own_grant_self (level : Level) :
    (p.grant db name level).own db name =
      some (match p.own db name with
        | some cur => if cur.rank < level.rank then level else cur
        | none => level) := by
  unfold own grant
  cases hGrants : p.grants db with
  | none => simp
  | some m =>
    simp only [Option.getD_some, Function.update_self, Option.bind_some]
    cases hCur : m name with
    | none => simp
    | some cur =>
      dsimp only
      split <;> simp [hCur]

theorem covers_grant (level : Level) : (p.grant db name level).Covers name db level := by
  rw [Covers, own_grant_self]
  refine ⟨_, rfl, ?_⟩
  cases p.own db name with
  | none => exact Nat.le_refl _
  | some cur =>
    dsimp only
    split <;> omega

theorem Covers.grant {level : Level} (h : p.Covers name db level) (db' : DbName) (principal : String) (level' : Level) :
    (p.grant db' principal level').Covers name db level := by
  rcases Decidable.em (db = db' ∧ principal = name) with ⟨rfl, rfl⟩ | hNe
  · obtain ⟨l, hOwn, hRank⟩ := h
    rw [Covers, own_grant_self, hOwn]
    refine ⟨_, rfl, ?_⟩
    dsimp only
    split <;> omega
  · have hApart : db ≠ db' ∨ principal ≠ name := by
      rcases Decidable.em (db = db') with hEq | hDb
      · exact .inr fun hName => hNe ⟨hEq, hName⟩
      · exact .inl hDb
    rw [Covers, own_grant_of_ne level' hApart]
    exact h

theorem own_grantParsed_of_ne {db' : DbName} {principal : String} (level : Option Level)
    (h : db' ≠ db ∨ principal ≠ name) : (p.grantParsed db principal level).own db' name = p.own db' name := by
  cases level with
  | none => rfl
  | some level => exact own_grant_of_ne level h

theorem grantParsed_congr {q : Policy} (principal : String) (level : Option Level) (h : p.grants db = q.grants db) :
    (p.grantParsed db principal level).grants db = (q.grantParsed db principal level).grants db := by
  cases level with
  | none => exact h
  | some level => simp only [grantParsed, grant, h, Function.update_self]

theorem Covers.grantParsed {level : Level} (h : p.Covers name db level) (db' : DbName) (principal : String)
    (level' : Option Level) : (p.grantParsed db' principal level').Covers name db level := by
  cases level' with
  | none => exact h
  | some level' => exact h.grant db' principal level'

theorem own_revokePrincipal_self : (p.revokePrincipal name).own db name = none := by
  cases hGrants : p.grants db <;> simp [own, revokePrincipal, hGrants]

theorem own_revokePrincipal_of_ne {principal : String} (h : name ≠ principal) :
    (p.revokePrincipal principal).own db name = p.own db name := by
  cases hGrants : p.grants db <;> simp [own, revokePrincipal, hGrants, Function.update_of_ne h]

/-! ## Ranks -/

theorem rank_grant (db' : DbName) (principal : String) (level : Level) :
    (p.grant db principal level).rank db' name =
      if db' = db ∧ name = principal then max (p.rank db' name) level.rank else p.rank db' name := by
  rcases Decidable.em (db' = db ∧ name = principal) with hSame | hNe
  · obtain ⟨rfl, rfl⟩ := hSame
    rw [if_pos ⟨rfl, rfl⟩, rank, own_grant_self, rank]
    cases p.own db' name with
    | none => exact (Nat.zero_max _).symm
    | some cur =>
      dsimp only [Option.elim]
      split <;> omega
  · rw [if_neg hNe, rank, own_grant_of_ne level, rank]
    rcases Decidable.em (db' = db) with hDb | hDb
    · exact .inr fun hName => hNe ⟨hDb, hName.symm⟩
    · exact .inl hDb

theorem rank_grantParsed (db' : DbName) (principal : String) (level : Option Level) :
    (p.grantParsed db principal level).rank db' name =
      if db' = db ∧ name = principal then max (p.rank db' name) (level.elim 0 Level.rank) else p.rank db' name := by
  cases level with
  | none =>
    dsimp only [grantParsed, Option.elim]
    rw [Nat.max_zero, ite_self]
  | some level => exact rank_grant db' principal level

theorem rank_revoke (db' : DbName) : (p.revoke db).rank db' name = if db' = db then 0 else p.rank db' name := by
  unfold rank own revoke
  dsimp only
  split
  · rename_i hDb
    rw [hDb, Function.update_self]
    rfl
  · rename_i hDb
    rw [Function.update_of_ne hDb]

theorem rank_revokePrincipal (principal : String) :
    (p.revokePrincipal principal).rank db name = if name = principal then 0 else p.rank db name := by
  unfold rank
  split
  · rename_i hName
    rw [hName, own_revokePrincipal_self]
    rfl
  · rename_i hName
    rw [own_revokePrincipal_of_ne hName]

theorem isOpen_grantParsed (principal : String) (level : Option Level) :
    (p.grantParsed db principal level).isOpen = p.isOpen := by
  cases level <;> rfl

theorem isOpen_foldl {α : Type} {f : Policy → α → Policy} (h : ∀ p a, (f p a).isOpen = p.isOpen) (l : List α) :
    (l.foldl f p).isOpen = p.isOpen := by
  induction l generalizing p with
  | nil => rfl
  | cons a rest ih => exact ih.trans (h p a)

end Policy

theorem Level.rank_injective {l l' : Level} (h : l.rank = l'.rank) : l = l' := by
  cases l <;> cases l' <;> first | rfl | cases h

theorem rank_level (h : p.isOpen = false) :
    (p.level name db).rank = max (p.rank db wildcard) (if name = "" then 0 else p.rank db name) := by
  unfold Policy.level Policy.rank Policy.own
  rw [h]
  cases p.grants db with
  | none => simp [Level.rank]
  | some m =>
    simp only [Option.bind_some, Bool.false_eq_true, if_false, ne_eq, ite_not]
    have hWild : ((m wildcard).getD .none).rank = (m wildcard).elim 0 Level.rank := by
      cases m wildcard <;> rfl
    rw [← hWild]
    split
    · exact (Nat.max_zero _).symm
    · cases m name with
      | none => exact (Nat.max_zero _).symm
      | some l =>
        dsimp only [Option.elim]
        split <;> omega

theorem level_eq_of_rank {q : Policy} (hp : p.isOpen = false) (hq : q.isOpen = false)
    (hWild : p.rank db wildcard = q.rank db wildcard) (hName : name ≠ "" → p.rank db name = q.rank db name) :
    p.level name db = q.level name db := by
  apply Level.rank_injective
  rw [rank_level hp, rank_level hq, hWild]
  split
  · rfl
  · rename_i hNe
    rw [hName hNe]

end QuicSql.Authz
