import QuicSql.Lib.Path

/-!
# Paths inside the data directory

The path of a database that does not come from the configuration is checked against the
data directory by one function and resolved by another. What the check accepts is the path
that is opened, and it is inside.
-/

namespace QuicSql.Config

open Lib

/-- Go's strings are bytes. -/
abbrev Path := List UInt8

/-- `/` and `.`. -/
def unix : Paths UInt8 := ⟨0x2f, 0x2e, by decide⟩

def withinDir (dir p : Path) : Option Path :=
  if dir = [] ∨ p = [] then none
  else
    let abs := unix.clean (if unix.isAbs p then p else unix.join [dir, p])
    match unix.rel dir abs with
    | none => none
    | some rel => if rel = unix.up ∨ (unix.up ++ [unix.sep]).isPrefixOf rel then none else some abs

def resolvePath (path dataDir : Path) : Path :=
  if path = [] ∨ unix.isAbs path = true ∨ dataDir = [] then path else unix.join [dataDir, path]

/-- The path has the elements of the clean directory and then names, none of them `..`. -/
def Inside (dir q : Path) : Prop :=
  ∃ names, unix.elements q = unix.elements (unix.clean dir) ++ names ∧ unix.up ∉ names

variable {dir p q : Path}

theorem withinDir_resolve (hDir : dir ≠ []) (hp : p ≠ []) :
    (if unix.isAbs p then p else unix.join [dir, p]) = resolvePath p dir := by
  unfold resolvePath
  by_cases hAbs : unix.isAbs p = true
  · rw [if_pos hAbs, if_pos (.inr (.inl hAbs))]
  · rw [if_neg hAbs, if_neg (by simp [hDir, hp, hAbs])]

theorem withinDir_eq_some_iff (hDir : dir ≠ []) (hp : p ≠ []) :
    withinDir dir p = some q ↔
      q = unix.clean (resolvePath p dir) ∧ unix.isAbs q = unix.isAbs dir ∧ Inside dir q := by
  unfold withinDir
  rw [if_neg (by simp [hDir, hp]), withinDir_resolve hDir hp]
  dsimp only
  generalize hAbs : unix.clean (resolvePath p dir) = abs
  have hClean : unix.clean abs = abs := by rw [← hAbs, unix.clean_clean]
  constructor
  · intro h
    cases hRel : unix.rel dir abs with
    | none => rw [hRel] at h; cases h
    | some rel =>
      rw [hRel] at h
      dsimp only at h
      split at h
      · cases h
      rename_i hStart
      cases h
      rw [List.isPrefixOf_iff_prefix] at hStart
      obtain ⟨hRoot, names, hNames, hUp⟩ := Paths.below_of_rel hRel hStart
      rw [hClean] at hNames
      exact ⟨rfl, hRoot.symm, names, hNames, hUp⟩
  · rintro ⟨rfl, hRoot, names, hNames, hUp⟩
    rw [Paths.rel_of_below hRoot.symm (hClean.symm ▸ hNames) rfl]
    dsimp only
    have hElements : ∀ e ∈ names, unix.Element e := by
      intro e he
      apply (unix.elements_clean_normal q).element
      rw [hClean, hNames]
      exact List.mem_append_right _ he
    rw [if_neg]
    rw [List.isPrefixOf_iff_prefix, Paths.starts_up_iff hElements]
    intro hHead
    exact hUp (List.mem_of_head? hHead)

theorem isAbs_resolvePath (hDir : dir ≠ []) (h : unix.isAbs dir = true ∧ unix.isAbs p = true ∨ unix.isAbs p = false)
    (hp : p ≠ []) : unix.isAbs (resolvePath p dir) = unix.isAbs dir := by
  unfold resolvePath
  rcases h with ⟨hAbsDir, hAbs⟩ | hRelative
  · rw [if_pos (.inr (.inl hAbs)), hAbs, hAbsDir]
  · rw [if_neg (by simp [hDir, hp, hRelative]), Paths.isAbs_join hDir]

theorem withinDir_sound_complete (dataDir p : Path) (hDir : dataDir ≠ []) :
    (∀ q, withinDir dataDir p = some q →
      unix.clean (resolvePath p dataDir) = q ∧ unix.isAbs q = unix.isAbs dataDir ∧ Inside dataDir q) ∧
    (p ≠ [] → unix.isAbs dataDir = true ∧ unix.isAbs p = true ∨ unix.isAbs p = false →
      Inside dataDir (unix.clean (resolvePath p dataDir)) → (withinDir dataDir p).isSome) := by
  constructor
  · intro q h
    have hp : p ≠ [] := by
      rintro rfl
      rw [withinDir, if_pos (.inr rfl)] at h
      cases h
    obtain ⟨hEq, hRoot, hInside⟩ := (withinDir_eq_some_iff hDir hp).mp h
    exact ⟨hEq.symm, hRoot, hInside⟩
  · intro hp hForm hInside
    have hRoot : unix.isAbs (unix.clean (resolvePath p dataDir)) = unix.isAbs dataDir := by
      rw [unix.isAbs_clean, isAbs_resolvePath hDir hForm hp]
    rw [(withinDir_eq_some_iff hDir hp).mpr ⟨rfl, hRoot, hInside⟩]
    rfl

theorem dotted_name_within :
    "/srv//db/.".toUTF8.toList ≠ [] ∧
      unix.clean (resolvePath "x/../..a".toUTF8.toList "/srv//db/.".toUTF8.toList) = "/srv/db/..a".toUTF8.toList ∧
      (withinDir "/srv//db/.".toUTF8.toList "/srv/db/x/../y".toUTF8.toList).isSome := by
  have hDir : "/srv//db/.".toUTF8.toList ≠ [] := by decide +kernel
  refine ⟨hDir, ?_, ?_⟩
  · exact ((withinDir_sound_complete _ _ hDir).1 _ (by decide +kernel)).1
  · exact (withinDir_sound_complete _ _ hDir).2 (by decide +kernel) (.inl (by decide +kernel))
      ⟨["y".toUTF8.toList], by decide +kernel, by decide +kernel⟩

example : withinDir "..".toUTF8.toList "../a".toUTF8.toList = none := by decide +kernel

end QuicSql.Config
