import QuicSql.Authz.Policy
import Mathlib.Data.List.Induction
import Mathlib.Order.Lattice

/-!
# Levels over the history of grants

The table keeps one level for each database and principal; which calls are behind it is lost.
What it answers is still a matter of the calls: the highest level of those grants that no
later revocation has undone.
-/

namespace QuicSql.Authz

inductive Change where
  | grant (db : DbName) (principal : String) (level : Level)
  | revoke (db : DbName)
  | revokePrincipal (principal : String)
deriving DecidableEq, Repr

def Policy.change (p : Policy) : Change → Policy
  | .grant db principal level => p.grant db principal level
  | .revoke db => p.revoke db
  | .revokePrincipal principal => p.revokePrincipal principal

def history (changes : List Change) : Policy := changes.foldl Policy.change (newPolicy false)

def Policy.levelOf (p : Policy) (pr : Option String) (db : DbName) : Level := p.level (pr.getD "") db

/-! ## What the calls say -/

def Change.undoes (db : DbName) (principal : String) : Change → Bool
  | .grant .. => false
  | .revoke db' => db' = db
  | .revokePrincipal principal' => principal' = principal

/-- The levels granted on the database to a principal of the given kind and not undone later. -/
def standing (db : DbName) (applies : String → Bool) : List Change → List Level
  | [] => []
  | .grant db' principal level :: rest =>
    if db' = db && applies principal && !rest.any (Change.undoes db principal) then
      level :: standing db applies rest
    else standing db applies rest
  | .revoke _ :: rest | .revokePrincipal _ :: rest => standing db applies rest

instance : LinearOrder Level := LinearOrder.lift' Level.rank fun _ _ h => Level.rank_injective h

def highest (levels : List Level) : Level := levels.foldr max .none

/-- A grant concerns everybody, or the principal whose non-empty name it carries. -/
def concerns (pr : Option String) (principal : String) : Bool :=
  principal = wildcard || (pr.getD "" ≠ "" && principal = pr.getD "")

/-- A call about another database, or about another principal and not about everybody. -/
def Change.Foreign (pr : Option String) (db : DbName) : Change → Prop
  | .grant db' principal _ => db' ≠ db ∨ concerns pr principal = false
  | .revoke db' => db' ≠ db
  | .revokePrincipal principal => concerns pr principal = false

/-! ## Ranks of lists -/

theorem Level.rank_max (l l' : Level) : (max l l').rank = max l.rank l'.rank := by
  rcases le_total l l' with h | h
  · rw [max_eq_right h]
    exact (max_eq_right (show l.rank ≤ l'.rank from h)).symm
  · rw [max_eq_left h]
    exact (max_eq_left (show l'.rank ≤ l.rank from h)).symm

theorem Level.none_le (l : Level) : Level.none ≤ l := Nat.zero_le l.rank

theorem highest_append (levels levels' : List Level) :
    highest (levels ++ levels') = max (highest levels) (highest levels') := by
  induction levels with
  | nil => exact (max_eq_right (Level.none_le _)).symm
  | cons l rest ih =>
    change max l (highest (rest ++ levels')) = max (max l (highest rest)) (highest levels')
    rw [ih, max_assoc]

/-! ## The last call -/

variable {db : DbName} {applies : String → Bool} {principal : String}

theorem standing_grant (changes : List Change) (db' : DbName) (principal : String) (level : Level) :
    standing db applies (changes ++ [.grant db' principal level]) =
      standing db applies changes ++ (if db' = db && applies principal then [level] else []) := by
  induction changes with
  | nil => simp [standing]
  | cons c rest ih =>
    cases c with
    | grant db₁ principal₁ level₁ =>
      simp only [List.cons_append, standing, ih, List.any_append, List.any_cons, List.any_nil, Change.undoes,
        Bool.or_false]
      split <;> rfl
    | revoke db₁ => exact ih
    | revokePrincipal principal₁ => exact ih

theorem standing_undone {c : Change} (h : ∀ x, applies x = true → c.undoes db x = true) (changes : List Change) :
    standing db applies (changes ++ [c]) = standing db applies [c] := by
  induction changes with
  | nil => rfl
  | cons first rest ih =>
    cases first with
    | grant db₁ principal₁ level₁ =>
      have hNot : (decide (db₁ = db) && applies principal₁ &&
          !(rest ++ [c]).any (Change.undoes db principal₁)) = false := by
        cases hApplies : applies principal₁ with
        | false => simp
        | true => simp [h principal₁ hApplies]
      rw [List.cons_append, standing, hNot]
      exact ih
    | revoke db₁ => exact ih
    | revokePrincipal principal₁ => exact ih

theorem standing_skip {c : Change} (hNothing : standing db applies [c] = [])
    (h : ∀ x, applies x = true → c.undoes db x = false) (before after : List Change) :
    standing db applies (before ++ c :: after) = standing db applies (before ++ after) := by
  induction before with
  | nil =>
    cases c with
    | grant db₁ principal₁ level₁ =>
      have hOut : (decide (db₁ = db) && applies principal₁) = false := by
        by_contra hIn
        simp [standing, Bool.not_eq_false _ ▸ hIn] at hNothing
      simp [standing, hOut]
    | revoke db₁ => rfl
    | revokePrincipal principal₁ => rfl
  | cons first rest ih =>
    cases first with
    | grant db₁ principal₁ level₁ =>
      have hSame : (applies principal₁ && !(rest ++ c :: after).any (Change.undoes db principal₁)) =
          (applies principal₁ && !(rest ++ after).any (Change.undoes db principal₁)) := by
        cases hApplies : applies principal₁ with
        | false => rfl
        | true => simp [h principal₁ hApplies]
      simp only [List.cons_append, standing, Bool.and_assoc, hSame, ih]
    | revoke db₁ => exact ih
    | revokePrincipal principal₁ => exact ih

/-! ## The table -/

theorem history_concat (changes : List Change) (c : Change) : history (changes ++ [c]) = (history changes).change c := by
  simp [history]

theorem isOpen_history (changes : List Change) : (history changes).isOpen = false :=
  Policy.isOpen_foldl (fun _ c => by cases c <;> rfl) changes

theorem rank_history (changes : List Change) (db : DbName) (name : String) :
    (history changes).rank db name = (highest (standing db (fun x => x = name) changes)).rank := by
  induction changes using List.reverseRecOn with
  | nil => rfl
  | append_singleton changes c ih =>
    rw [history_concat]
    cases c with
    | grant db' principal level =>
      rw [Policy.change, Policy.rank_grant, ih, standing_grant]
      by_cases hSame : db = db' ∧ name = principal
      · obtain ⟨rfl, rfl⟩ := hSame
        rw [if_pos ⟨rfl, rfl⟩, highest_append, Level.rank_max]
        simp [highest, max_eq_left (Level.none_le level)]
      · have hOut : (decide (db' = db) && decide (principal = name)) = false := by
          by_contra hIn
          simp only [Bool.not_eq_false, Bool.and_eq_true, decide_eq_true_eq] at hIn
          exact hSame ⟨hIn.1.symm, hIn.2.symm⟩
        rw [if_neg hSame, hOut]
        simp
    | revoke db' =>
      rw [Policy.change, Policy.rank_revoke]
      by_cases hDb : db = db'
      · rw [if_pos hDb, standing_undone (fun _ _ => by simp [Change.undoes, hDb])]
        rfl
      · rw [if_neg hDb, ih]
        have hKeeps : ∀ x, decide (x = name) = true → (Change.revoke db').undoes db x = false :=
          fun _ _ => by simp [Change.undoes, Ne.symm hDb]
        rw [standing_skip rfl hKeeps changes [], List.append_nil]
    | revokePrincipal principal =>
      rw [Policy.change, Policy.rank_revokePrincipal]
      by_cases hName : name = principal
      · rw [if_pos hName, standing_undone]
        · rfl
        · intro x hx
          simp [Change.undoes, of_decide_eq_true hx, hName]
      · rw [if_neg hName, ih]
        have hKeeps : ∀ x, decide (x = name) = true → (Change.revokePrincipal principal).undoes db x = false :=
          fun x hx => by simp [Change.undoes, of_decide_eq_true hx, Ne.symm hName]
        rw [standing_skip rfl hKeeps changes [], List.append_nil]

theorem highest_standing_or (db : DbName) (applies applies' : String → Bool) (changes : List Change) :
    highest (standing db (fun x => applies x || applies' x) changes) =
      max (highest (standing db applies changes)) (highest (standing db applies' changes)) := by
  induction changes with
  | nil => rfl
  | cons c rest ih =>
    cases c with
    | grant db' principal level =>
      have hCons : ∀ levels, highest (level :: levels) = max level (highest levels) := fun _ => rfl
      cases hLive : decide (db' = db) && !rest.any (Change.undoes db principal) with
      | false =>
        have hOut : ∀ b : Bool, (decide (db' = db) && b && !rest.any (Change.undoes db principal)) = false := by
          intro b
          rw [Bool.and_right_comm, hLive, Bool.false_and]
        simp only [standing, hOut, Bool.false_eq_true, if_false, ih]
      | true =>
        have hIn : ∀ b : Bool, (decide (db' = db) && b && !rest.any (Change.undoes db principal)) = b := by
          intro b
          rw [Bool.and_right_comm, hLive, Bool.true_and]
        simp only [standing, hIn]
        cases applies principal with
        | false =>
          cases applies' principal with
          | false => exact ih
          | true =>
            simp only [Bool.or_true, if_true, Bool.false_eq_true, if_false, hCons, ih]
            exact max_left_comm _ _ _
        | true =>
          cases applies' principal with
          | false =>
            simp only [Bool.or_false, if_true, Bool.false_eq_true, if_false, hCons, ih]
            exact (max_assoc _ _ _).symm
          | true =>
            simp only [Bool.or_true, if_true, hCons, ih]
            rw [max_max_max_comm, max_self]
    | revoke db' => exact ih
    | revokePrincipal principal => exact ih

theorem standing_false (db : DbName) (changes : List Change) : standing db (fun _ => false) changes = [] := by
  induction changes with
  | nil => rfl
  | cons c rest ih =>
    cases c with
    | grant db' principal level => simp [standing, ih]
    | revoke db' => exact ih
    | revokePrincipal principal => exact ih

theorem levelOf_history (changes : List Change) (pr : Option String) (db : DbName) :
    (history changes).levelOf pr db = highest (standing db (concerns pr) changes) := by
  apply Level.rank_injective
  have hSplit : concerns pr = fun x => decide (x = wildcard) || (decide (pr.getD "" ≠ "") && decide (x = pr.getD "")) :=
    rfl
  rw [Policy.levelOf, rank_level (isOpen_history changes), hSplit, highest_standing_or, Level.rank_max, ← rank_history]
  by_cases hName : pr.getD "" = ""
  · rw [if_pos hName]
    simp [hName, standing_false, highest, Level.rank]
  · rw [if_neg hName]
    simp [hName, rank_history]

/-- The level is the highest of the grants that stand, and no call about another database or
another principal has a part in it. -/
theorem level_of_standing_grants (changes : List Change) (pr : Option String) (db : DbName) :
    (history changes).levelOf pr db = highest (standing db (concerns pr) changes) ∧
      (pr.getD "" = "" → (history changes).levelOf pr db = highest (standing db (fun x => x = wildcard) changes)) ∧
      ∀ before c after, changes = before ++ c :: after → c.Foreign pr db →
        (history changes).levelOf pr db = (history (before ++ after)).levelOf pr db := by
  refine ⟨levelOf_history changes pr db, ?_, ?_⟩
  · intro hNone
    have hEverybody : concerns pr = fun x => decide (x = wildcard) := by
      funext x
      simp [concerns, hNone]
    rw [levelOf_history, hEverybody]
  · rintro before c after rfl hForeign
    rw [levelOf_history, levelOf_history]
    congr 1
    cases c with
    | grant db' principal level =>
      refine standing_skip ?_ (fun _ _ => rfl) before after
      rcases hForeign with hDb | hOther
      · simp [standing, hDb]
      · simp [standing, hOther]
    | revoke db' =>
      have hKeeps : ∀ x, concerns pr x = true → (Change.revoke db').undoes db x = false :=
        fun _ _ => decide_eq_false hForeign
      exact standing_skip rfl hKeeps before after
    | revokePrincipal principal =>
      have hKeeps : ∀ x, concerns pr x = true → (Change.revokePrincipal principal).undoes db x = false := by
        intro x hx
        refine decide_eq_false ?_
        rintro rfl
        exact absurd (hx.symm.trans hForeign) (by decide)
      exact standing_skip rfl hKeeps before after

theorem level_of_standing_grants_regranted :
    (history [.grant "d" "a" .admin, .revoke "d", .grant "d" "*" .readOnly, .grant "d" "b" .admin]).levelOf (some "a") "d" =
      .readOnly := by
  have hForeign : (Change.grant "d" "b" .admin).Foreign (some "a") "d" := .inr (by decide)
  refine ((level_of_standing_grants _ (some "a") "d").2.2
    [.grant "d" "a" .admin, .revoke "d", .grant "d" "*" .readOnly] (.grant "d" "b" .admin) [] rfl hForeign).trans ?_
  rw [(level_of_standing_grants _ (some "a") "d").1]
  decide

end QuicSql.Authz
