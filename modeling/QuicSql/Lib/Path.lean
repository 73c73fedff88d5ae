import Mathlib.Data.List.Pairwise
import Mathlib.Data.List.Infix

/-!
# Lexical paths

A path is a list of symbols with a separator and a dot. Cleaning drops empty elements and
single dots and lets two dots cancel the element before them, so that a clean path is its
elements: two dots stand only at its front, and nowhere if it is rooted.
-/

namespace QuicSql.Lib

universe u

structure Paths (α : Type u) where
  sep : α
  dot : α
  distinct : sep ≠ dot

section Strip

variable {β : Type u} [DecidableEq β]

/-- What is left of two lists after their longest common prefix. -/
def strip : List β → List β → List β × List β
  | x :: xs, y :: ys => if x = y then strip xs ys else (x :: xs, y :: ys)
  | xs, ys => (xs, ys)

theorem strip_common (xs ys : List β) : ∃ common, xs = common ++ (strip xs ys).1 ∧ ys = common ++ (strip xs ys).2 := by
  fun_induction strip xs ys with
  | case1 xs x ys ih =>
    obtain ⟨common, hLeft, hRight⟩ := ih
    refine ⟨x :: common, ?_, ?_⟩
    · rw [List.cons_append, ← hLeft]
    · rw [List.cons_append, ← hRight]
  | case2 => exact ⟨[], rfl, rfl⟩
  | case3 => exact ⟨[], rfl, rfl⟩

theorem strip_append (xs rest : List β) : strip xs (xs ++ rest) = ([], rest) := by
  induction xs with
  | nil => cases rest <;> rfl
  | cons x xs ih => rw [List.cons_append, strip, if_pos rfl, ih]

end Strip

namespace Paths

variable {α : Type u} (P : Paths α)

/-- The element that stays where it is. -/
def here : List α := [P.dot]

/-- The element that goes up. -/
def up : List α := [P.dot, P.dot]

def render (rooted : Bool) (es : List (List α)) : List α :=
  if rooted then P.sep :: [P.sep].intercalate es
  else if es = [] then P.here
  else [P.sep].intercalate es

section Elements

/-- An element that can stand in a clean path. -/
structure Element (e : List α) : Prop where
  nonempty : e ≠ []
  moves : e ≠ P.here
  whole : P.sep ∉ e

/-- The elements of a clean path: only elements that go up stand before one that does. -/
structure Normal (rooted : Bool) (es : List (List α)) : Prop where
  element : ∀ e ∈ es, P.Element e
  front : es.Pairwise (fun before e => e = P.up → before = P.up)
  below : rooted = true → P.up ∉ es

variable {P}

theorem up_element : P.Element P.up where
  nonempty := by simp [up]
  moves := by simp [up, here]
  whole := by simp [up, P.distinct]

theorem here_whole : P.sep ∉ P.here := by simp [here, P.distinct]

variable {rooted : Bool} {es : List (List α)}

theorem Normal.nil : P.Normal rooted [] := ⟨by simp, List.Pairwise.nil, by simp⟩

theorem Normal.sublist {part : List (List α)} (h : P.Normal rooted es) (hSub : part.Sublist es) : P.Normal rooted part :=
  ⟨fun e he => h.element e (hSub.subset he), h.front.sublist hSub, fun hRooted hUp => h.below hRooted (hSub.subset hUp)⟩

/-- A name goes to the end, or an element that goes up after others that do. -/
theorem Normal.concat {e : List α} (h : P.Normal rooted es) (hElement : P.Element e)
    (hUp : e = P.up → rooted = false ∧ ∀ x ∈ es, x = P.up) : P.Normal rooted (es ++ [e]) where
  element x hx := by
    rcases List.mem_append.mp hx with hx | hx
    · exact h.element x hx
    · exact List.mem_singleton.mp hx ▸ hElement
  front := by
    rw [List.pairwise_append]
    refine ⟨h.front, by simp, ?_⟩
    intro x hx y hy hLast
    rw [List.mem_singleton.mp hy] at hLast
    exact (hUp hLast).2 x hx
  below hRooted hMem := by
    rcases List.mem_append.mp hMem with hMem | hMem
    · exact h.below hRooted hMem
    · have hLast := hUp (List.mem_singleton.mp hMem).symm
      rw [hRooted] at hLast
      cases hLast.1

theorem render_cons {e : List α} : P.render false (e :: es) = [P.sep].intercalate (e :: es) := by
  rw [render, if_neg (by simp), if_neg (by simp)]

end Elements

variable [DecidableEq α]

def isAbs (p : List α) : Bool := p.head? = some P.sep

/-- One element is put on the stack of elements, whose top is its head. -/
def push (rooted : Bool) (stack : List (List α)) (e : List α) : List (List α) :=
  if e = [] ∨ e = P.here then stack
  else if e = P.up then
    match stack with
    | [] => if rooted then [] else [e]
    | top :: rest => if top = P.up then e :: top :: rest else rest
  else e :: stack

def reduce (rooted : Bool) (es : List (List α)) : List (List α) := (es.foldl (P.push rooted) []).reverse

def clean (p : List α) : List α := P.render (P.isAbs p) (P.reduce (P.isAbs p) (p.splitOn P.sep))

/-- Empty parts are ignored, and nothing is joined to nothing. -/
def join (ps : List (List α)) : List α :=
  match ps.filter (· ≠ []) with
  | [] => []
  | parts => P.clean ([P.sep].intercalate parts)

/-- The names along a path; the path of a single dot has none. -/
def elements (p : List α) : List (List α) := (p.splitOn P.sep).filter (fun e => e ≠ [] ∧ e ≠ P.here)

/-- The path that leads from the base to the target. There is none if only one of the two is
rooted, or if the base goes up where the target does not. -/
def rel (base target : List α) : Option (List α) :=
  let rest := strip (P.elements (P.clean base)) (P.elements (P.clean target))
  if P.isAbs base ≠ P.isAbs target ∨ rest.1.head? = some P.up then none
  else some (P.render false (List.replicate rest.1.length P.up ++ rest.2))

variable {P}

section Split

theorem splitOn_sep (p q : List α) : (p ++ P.sep :: q).splitOn P.sep = p.splitOn P.sep ++ q.splitOn P.sep :=
  List.splitOnP_append_cons p q (beq_self_eq_true P.sep)

theorem splitOn_whole {e : List α} (h : P.sep ∉ e) : e.splitOn P.sep = [e] :=
  List.splitOnP_eq_singleton (fun _ hx => beq_false_of_ne (fun hEq => h (hEq ▸ hx)))

theorem whole_of_mem_splitOn {p e : List α} (h : e ∈ p.splitOn P.sep) : P.sep ∉ e := by
  induction p generalizing e with
  | nil =>
    rw [List.splitOn_nil, List.mem_singleton] at h
    rw [h]
    exact List.not_mem_nil
  | cons c p ih =>
    rw [List.splitOn_cons_eq_if_modifyHead] at h
    split at h
    · rcases List.mem_cons.mp h with rfl | hRest
      · exact List.not_mem_nil
      · exact ih hRest
    · rename_i hc
      -- the symbol goes to the first of the elements, which is split off `p` itself
      cases hSplit : p.splitOn P.sep with
      | nil => exact absurd hSplit (List.splitOn_ne_nil _ _)
      | cons first rest =>
        rw [hSplit, List.modifyHead_cons] at h
        rcases List.mem_cons.mp h with rfl | hRest
        · rw [List.mem_cons]
          rintro (rfl | hFirst)
          · exact hc (beq_self_eq_true _)
          · exact ih (hSplit ▸ List.mem_cons_self) hFirst
        · exact ih (hSplit ▸ List.mem_cons_of_mem _ hRest)

end Split

section Normal

variable {rooted : Bool} {es : List (List α)}

theorem push_normal {stack : List (List α)} {e : List α} (h : P.Normal rooted stack.reverse) (hWhole : P.sep ∉ e) :
    P.Normal rooted (P.push rooted stack e).reverse := by
  unfold push
  split
  · exact h
  rename_i hMoves
  rw [not_or] at hMoves
  split
  · rename_i hUp
    subst hUp
    cases stack with
    | nil =>
      cases rooted with
      | true => exact Normal.nil
      | false => exact Normal.nil.concat up_element fun _ => ⟨rfl, by simp⟩
    | cons top rest =>
      rw [List.reverse_cons] at h
      dsimp only
      split
      · rename_i hTop
        subst hTop
        rw [List.reverse_cons, List.reverse_cons]
        apply h.concat up_element
        intro _
        constructor
        · rw [← Bool.not_eq_true]
          intro hRooted
          exact absurd (by simp) (h.below hRooted)
        · -- an element that goes up is on top, so all below do
          intro x hx
          rcases List.mem_append.mp hx with hx | hx
          · exact (List.pairwise_append.mp h.front).2.2 x hx P.up (by simp) rfl
          · exact List.mem_singleton.mp hx
      · exact h.sublist (List.sublist_append_left ..)
  · rename_i hName
    rw [List.reverse_cons]
    exact h.concat ⟨hMoves.1, hMoves.2, hWhole⟩ fun hUp => absurd hUp hName

theorem reduce_normal (hWhole : ∀ e ∈ es, P.sep ∉ e) : P.Normal rooted (P.reduce rooted es) := by
  suffices h : ∀ stack : List (List α), P.Normal rooted stack.reverse →
      P.Normal rooted (es.foldl (P.push rooted) stack).reverse from h [] Normal.nil
  induction es with
  | nil => exact fun _ h => h
  | cons e es ih =>
    intro stack h
    exact ih (fun x hx => hWhole x (List.mem_cons_of_mem _ hx)) _ (push_normal h (hWhole e List.mem_cons_self))

theorem push_of_normal {below : List (List α)} {e : List α} (h : P.Normal rooted (below ++ [e])) :
    P.push rooted below.reverse e = e :: below.reverse := by
  have hElement : P.Element e := h.element e (by simp)
  unfold push
  rw [if_neg (by rintro (hNil | hHere); exacts [hElement.nonempty hNil, hElement.moves hHere])]
  split
  · rename_i hUp
    cases hStack : below.reverse with
    | nil =>
      dsimp only
      rw [if_neg]
      exact fun hRooted => h.below hRooted (by simp [hUp])
    | cons top rest =>
      have hTop : top ∈ below := List.mem_reverse.mp (hStack ▸ List.mem_cons_self)
      exact if_pos ((List.pairwise_append.mp h.front).2.2 top hTop e (by simp) hUp)
  · rfl

theorem reduce_of_normal (h : P.Normal rooted es) : P.reduce rooted es = es := by
  suffices hFold : es.foldl (P.push rooted) [] = es.reverse by rw [reduce, hFold, List.reverse_reverse]
  induction es using List.reverseRecOn with
  | nil => rfl
  | append_singleton es e ih =>
    rw [List.foldl_append, ih (h.sublist (List.sublist_append_left es [e])), List.foldl_cons, List.foldl_nil,
      push_of_normal h, List.reverse_append, List.reverse_singleton, List.singleton_append]

end Normal

section Render

variable {rooted : Bool} {es : List (List α)}

theorem splitOn_render_false (hElements : ∀ e ∈ es, P.Element e) (hSome : es ≠ []) :
    (P.render false es).splitOn P.sep = es := by
  rw [render, if_neg (by simp), if_neg hSome]
  exact List.splitOn_intercalate _ (fun e he => (hElements e he).whole) hSome

theorem splitOn_render_true (hElements : ∀ e ∈ es, P.Element e) :
    (P.render true es).splitOn P.sep = [] :: if es = [] then [[]] else es := by
  have hSplit := splitOn_sep (P := P) [] ([P.sep].intercalate es)
  rw [List.nil_append, List.splitOn_nil] at hSplit
  rw [render, if_pos rfl, hSplit, List.singleton_append]
  split
  · rename_i hNone
    rw [hNone, List.intercalate_nil, List.splitOn_nil]
  · rename_i hSome
    rw [List.splitOn_intercalate _ (fun e he => (hElements e he).whole) hSome]

theorem filter_elements (hElements : ∀ e ∈ es, P.Element e) : es.filter (fun e => e ≠ [] ∧ e ≠ P.here) = es :=
  List.filter_eq_self.mpr (fun e he => decide_eq_true ⟨(hElements e he).nonempty, (hElements e he).moves⟩)

theorem elements_render (hElements : ∀ e ∈ es, P.Element e) : P.elements (P.render rooted es) = es := by
  unfold elements
  by_cases hNone : es = []
  · subst hNone
    cases rooted with
    | true => rw [splitOn_render_true hElements]; simp
    | false => rw [render, if_neg (by simp), if_pos rfl, splitOn_whole here_whole]; simp
  · cases rooted with
    | true =>
      rw [splitOn_render_true hElements, if_neg hNone, List.filter_cons_of_neg (by simp), filter_elements hElements]
    | false => rw [splitOn_render_false hElements hNone, filter_elements hElements]

theorem isAbs_render (hElements : ∀ e ∈ es, P.Element e) : P.isAbs (P.render rooted es) = rooted := by
  cases rooted with
  | true => rw [render, if_pos rfl, isAbs]; simp
  | false =>
    cases es with
    | nil => simp [render, isAbs, here, Ne.symm P.distinct]
    | cons e es =>
      have hElement := hElements e List.mem_cons_self
      cases e with
      | nil => exact absurd rfl hElement.nonempty
      | cons c e =>
        -- the first symbol belongs to the first element
        have hHead : (P.render false ((c :: e) :: es)).head? = some c := by
          rw [render_cons]
          cases es with
          | nil => rw [List.intercalate_singleton, List.head?_cons]
          | cons => rw [List.intercalate_cons_cons]; rfl
        have hc : c ≠ P.sep := fun hEq => hElement.whole (hEq ▸ List.mem_cons_self)
        rw [isAbs, hHead]
        simpa using hc

theorem reduce_render (h : P.Normal rooted es) : P.reduce rooted ((P.render rooted es).splitOn P.sep) = es := by
  have hSkip : ∀ e : List α, e = [] ∨ e = P.here → ∀ stack, P.push rooted stack e = stack := fun e he stack => if_pos he
  by_cases hNone : es = []
  · subst hNone
    cases rooted with
    | true =>
      rw [splitOn_render_true h.element, if_pos rfl, reduce, List.foldl_cons, hSkip _ (.inl rfl), List.foldl_cons,
        hSkip _ (.inl rfl)]
      rfl
    | false =>
      rw [render, if_neg (by simp), if_pos rfl, splitOn_whole here_whole, reduce, List.foldl_cons, hSkip _ (.inr rfl)]
      rfl
  · cases rooted with
    | true =>
      rw [splitOn_render_true h.element, if_neg hNone, reduce, List.foldl_cons, hSkip _ (.inl rfl)]
      exact reduce_of_normal h
    | false =>
      rw [splitOn_render_false h.element hNone]
      exact reduce_of_normal h

/-- A rendered path goes up at its start exactly when its first element does. -/
theorem starts_up_iff (hElements : ∀ e ∈ es, P.Element e) :
    (P.render false es = P.up ∨ P.up ++ [P.sep] <+: P.render false es) ↔ es.head? = some P.up := by
  cases es with
  | nil =>
    have hShort : P.render false [] = P.here := rfl
    rw [hShort]
    constructor
    · rintro (hUp | hPrefix)
      · simp [here, up] at hUp
      · have hLength := hPrefix.length_le
        simp [here, up] at hLength
    · intro hNone
      cases hNone
  | cons e es =>
    rw [List.head?_cons, Option.some_inj]
    have hSplit := splitOn_render_false hElements (List.cons_ne_nil e es)
    constructor
    · rintro (hUp | ⟨rest, hRest⟩)
      · rw [hUp, splitOn_whole up_element.whole] at hSplit
        exact (List.cons.inj hSplit).1.symm
      · rw [← hRest, List.append_assoc, List.singleton_append, splitOn_sep, splitOn_whole up_element.whole] at hSplit
        exact (List.cons.inj hSplit).1.symm
    · rintro rfl
      rw [render_cons]
      cases es with
      | nil => exact .inl List.intercalate_singleton
      | cons next es =>
        right
        rw [List.intercalate_cons_cons]
        exact List.prefix_append _ _

end Render

section Clean

variable (P)

theorem clean_normal (p : List α) : P.Normal (P.isAbs p) (P.reduce (P.isAbs p) (p.splitOn P.sep)) :=
  reduce_normal (fun _ => whole_of_mem_splitOn)

theorem elements_clean (p : List α) : P.elements (P.clean p) = P.reduce (P.isAbs p) (p.splitOn P.sep) :=
  elements_render (P.clean_normal p).element

theorem elements_clean_normal (p : List α) : P.Normal (P.isAbs p) (P.elements (P.clean p)) := by
  rw [elements_clean]
  exact P.clean_normal p

theorem isAbs_clean (p : List α) : P.isAbs (P.clean p) = P.isAbs p := isAbs_render (P.clean_normal p).element

theorem clean_clean (p : List α) : P.clean (P.clean p) = P.clean p := by
  have hReduce : P.reduce (P.isAbs p) ((P.clean p).splitOn P.sep) = P.reduce (P.isAbs p) (p.splitOn P.sep) :=
    reduce_render (P.clean_normal p)
  rw [clean, isAbs_clean, hReduce]
  rfl

variable {P}

/-- Joined to a path that is not empty, a path keeps its root. -/
theorem isAbs_join {dir p : List α} (hDir : dir ≠ []) : P.isAbs (P.join [dir, p]) = P.isAbs dir := by
  have hHead : ∀ rest : List α, P.isAbs (dir ++ rest) = P.isAbs dir := by
    intro rest
    rw [isAbs, isAbs, List.head?_append_of_ne_nil _ hDir]
  by_cases hp : p = []
  · have hParts : [dir, p].filter (· ≠ []) = [dir] := by simp [hDir, hp]
    rw [join, hParts, isAbs_clean, List.intercalate_singleton]
  · have hParts : [dir, p].filter (· ≠ []) = [dir, p] := by simp [hDir, hp]
    rw [join, hParts, isAbs_clean, List.intercalate_cons_cons, List.append_assoc, hHead]

end Clean

section Rel

theorem rel_of_below {base target rest : List α} {names : List (List α)} (hAbs : P.isAbs base = P.isAbs target)
    (hBelow : P.elements (P.clean target) = P.elements (P.clean base) ++ names) (hRest : rest = P.render false names) :
    P.rel base target = some rest := by
  rw [rel, hBelow, strip_append, if_neg (by simp [hAbs]), hRest]
  rfl

/-- A way that does not start by going up leads to a path below the base. -/
theorem below_of_rel {base target rest : List α} (h : P.rel base target = some rest)
    (hStart : ¬ (rest = P.up ∨ P.up ++ [P.sep] <+: rest)) :
    P.isAbs base = P.isAbs target ∧
      ∃ names, P.elements (P.clean target) = P.elements (P.clean base) ++ names ∧ P.up ∉ names := by
  obtain ⟨common, hBase, hTarget⟩ := strip_common (P.elements (P.clean base)) (P.elements (P.clean target))
  unfold rel at h
  dsimp only at h
  generalize strip (P.elements (P.clean base)) (P.elements (P.clean target)) = left at h hBase hTarget
  obtain ⟨ups, names⟩ := left
  split at h
  · cases h
  rename_i hGuard
  rw [not_or, not_not] at hGuard
  cases h
  have hNames : P.Normal (P.isAbs target) names :=
    (hTarget ▸ P.elements_clean_normal target).sublist (List.sublist_append_right common names)
  rw [starts_up_iff] at hStart
  · cases ups with
    | cons up ups => exact absurd rfl hStart
    | nil =>
      refine ⟨hGuard.1, names, ?_, ?_⟩
      · rw [hTarget, hBase, List.append_nil]
      · intro hUp
        cases names with
        | nil => cases hUp
        | cons first names =>
          -- an element further on that goes up would have the first one go up as well
          rcases List.mem_cons.mp hUp with hFirst | hLater
          · exact hStart (congrArg some hFirst.symm)
          · exact hStart (congrArg some ((List.pairwise_cons.mp hNames.front).1 _ hLater rfl))
  · intro e he
    rcases List.mem_append.mp he with he | he
    · exact List.eq_of_mem_replicate he ▸ up_element
    · exact hNames.element e he

end Rel

end Paths

end QuicSql.Lib
