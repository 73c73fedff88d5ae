import Mathlib.Data.List.Basic

/-!
# A paged file with a log and a rollback journal

What a pager recovers when it opens a file that was left with side files: a hot journal
restores the pages it saved and the size before the transaction, then the log lays its
committed frames over the pages.
-/

namespace QuicSql.Lib

universe u

variable {P : Type u} [Inhabited P]

/-- A frame of the log; the last frame of a transaction carries the size after it. -/
structure Frame (P : Type u) where
  page : Nat
  data : P
  commit : Option Nat
deriving DecidableEq, Repr

/-- The pages before the open transaction; a journal that is not hot is not rolled back. -/
structure Journal (P : Type u) where
  hot : Bool
  size : Nat
  saved : List (Nat × P)
deriving DecidableEq, Repr

structure Disk (P : Type u) where
  main : List P
  wal : Option (List (Frame P))
  journal : Option (Journal P)
deriving DecidableEq, Repr

/-! ## Laying pages over pages -/

def overlay (size : Nat) (newer : Nat → Option P) (pages : List P) : List P :=
  (List.range size).map fun n => (newer n).getD (pages.getD n default)

/-- The pages have this size and hold every newer page already. -/
def Holds (size : Nat) (newer : Nat → Option P) (pages : List P) : Prop :=
  pages.length = size ∧ ∀ n < size, ∀ p, newer n = some p → pages[n]? = some p

theorem overlay_getElem? {size : Nat} (newer : Nat → Option P) (pages : List P) {n : Nat} (h : n < size) :
    (overlay size newer pages)[n]? = some ((newer n).getD (pages.getD n default)) := by
  unfold overlay
  rw [List.getElem?_map, List.getElem?_range h, Option.map_some]

theorem overlay_eq_self_iff {size : Nat} {newer : Nat → Option P} {pages : List P} :
    overlay size newer pages = pages ↔ Holds size newer pages := by
  constructor
  · intro hEq
    have hLength : pages.length = size := by
      rw [← hEq]
      simp [overlay]
    refine ⟨hLength, fun n hn p hp => ?_⟩
    have hPage := overlay_getElem? newer pages hn
    rwa [hEq, hp] at hPage
  · rintro ⟨hLength, hHeld⟩
    apply List.ext_getElem?
    intro n
    by_cases hn : n < size
    · rw [overlay_getElem? newer pages hn]
      have hIn : pages[n]? = some (pages.getD n default) := by
        rw [List.getD_eq_getElem?_getD, List.getElem?_eq_getElem (hLength ▸ hn), Option.getD_some]
      cases hNewer : newer n with
      | none => exact hIn.symm
      | some p => exact (hHeld n hn p hNewer).symm
    · rw [List.getElem?_eq_none (by simpa [overlay] using Nat.le_of_not_lt hn),
        List.getElem?_eq_none (by omega)]

/-! ## The log and the journal -/

/-- The frames up to the last commit; what follows is the torn end of the log. -/
def committed (frames : List (Frame P)) : List (Frame P) :=
  (frames.reverse.dropWhile fun f => f.commit.isNone).reverse

def walSize (frames : List (Frame P)) : Option Nat := (committed frames).getLast?.bind Frame.commit

def walPage (frames : List (Frame P)) (n : Nat) : Option P :=
  ((committed frames).reverse.find? fun f => f.page = n).map Frame.data

def replayWal (frames : List (Frame P)) (pages : List P) : List P :=
  match walSize frames with
  | none => pages
  | some size => overlay size (walPage frames) pages

def Journal.rollback (j : Journal P) (pages : List P) : List P :=
  if j.hot then overlay j.size (fun n => j.saved.lookup n) pages else pages

/-- The pages hold everything that the log commits. -/
def Carries (frames : List (Frame P)) (pages : List P) : Prop :=
  ∀ size, walSize frames = some size → Holds size (walPage frames) pages

/-- The journal is not hot, or the pages are the ones it would restore. -/
def Journal.Spares (j : Journal P) (pages : List P) : Prop :=
  j.hot = true → Holds j.size (fun n => j.saved.lookup n) pages

theorem replayWal_eq_self_iff {frames : List (Frame P)} {pages : List P} :
    replayWal frames pages = pages ↔ Carries frames pages := by
  unfold replayWal Carries
  cases walSize frames with
  | none => simp
  | some size => simp [overlay_eq_self_iff]

theorem Journal.rollback_eq_self_iff {j : Journal P} {pages : List P} : j.rollback pages = pages ↔ j.Spares pages := by
  unfold Journal.rollback Journal.Spares
  cases j.hot with
  | false => simp
  | true => simp [overlay_eq_self_iff]

namespace Disk

def rolledBack (d : Disk P) : List P :=
  match d.journal with
  | none => d.main
  | some j => j.rollback d.main

def recovered (d : Disk P) : List P :=
  match d.wal with
  | none => d.rolledBack
  | some frames => replayWal frames d.rolledBack

def checkpoint (d : Disk P) : Disk P := ⟨d.recovered, none, none⟩

@[simp] theorem recovered_checkpoint (d : Disk P) : d.checkpoint.recovered = d.recovered := rfl

theorem rolledBack_eq_main_iff (d : Disk P) : d.rolledBack = d.main ↔ ∀ j, d.journal = some j → j.Spares d.main := by
  unfold rolledBack
  cases d.journal with
  | none => simp
  | some j => simp [Journal.rollback_eq_self_iff]

theorem recovered_eq_rolledBack_iff (d : Disk P) :
    d.recovered = d.rolledBack ↔ ∀ frames, d.wal = some frames → Carries frames d.rolledBack := by
  unfold recovered
  cases d.wal with
  | none => simp
  | some frames => simp [replayWal_eq_self_iff]

end Disk

end QuicSql.Lib
