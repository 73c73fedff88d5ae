import QuicSql.Lib.Custody
import QuicSql.Lib.Pool
import QuicSql.Lib.Transition

/-!
# Connections of the driver in the pool of `database/sql`

A connection pins a stream for a transaction or for a capture, and sends its statements there
while it does. The pool hands a connection to one borrower after another; `ResetSession` turns
away a connection that still has a stream. A borrower is one borrowing, so that the streams of
two borrowings are told apart.
-/

namespace QuicSql.SqlDriver

open Lib

abbrev ConnId := Nat
abbrev StreamId := Nat
abbrev Borrower := Nat

/-- The fields of a connection, and the local variable of a method that is at work on it. -/
inductive Place where
  | tx (c : ConnId)
  | capture (c : ConnId)
  | hand (c : ConnId)
deriving DecidableEq, Repr

def Place.conn : Place → ConnId
  | .tx c | .capture c | .hand c => c

inductive Standing where
  | idle
  | used (u : Borrower)
  | discarded
deriving DecidableEq, Repr

/-- A request: who made it, over which stream, if not over the stateless endpoint, and how often
that stream had been closed before. -/
structure Sent where
  user : Borrower
  stream : Option StreamId
  closed : Nat
deriving DecidableEq, Repr

/-- `opener` and `sent` record history: for whom a stream was opened, and the requests. -/
structure State where
  streams : Custody Place
  conns : List Standing
  opener : StreamId → Borrower
  sent : List Sent

namespace State

def send (s : State) (u : Borrower) (stream : Option StreamId) : State :=
  { s with sent := s.sent ++ [⟨u, stream, (stream.map s.streams.closed).getD 0⟩] }

def busy (s : State) (c : ConnId) : Bool :=
  (s.streams.held (.tx c)).isSome || (s.streams.held (.capture c)).isSome

def openStream (s : State) (c : ConnId) (u : Borrower) : State :=
  { s with
    streams := s.streams.create (.hand c)
    opener := Function.update s.opener s.streams.next u }

/-- A new stream whose first request decides whether it is kept in the field. -/
def pin (s : State) (c : ConnId) (u : Borrower) (field : Place) (ok : Bool) : State :=
  if s.busy c then s
  else
    let s' := (s.openStream c u).send u ((s.openStream c u).streams.held (.hand c))
    if ok then { s' with streams := s'.streams.move (.hand c) field }
    else { s' with streams := s'.streams.close (.hand c) }

def begin (s : State) (c : ConnId) (u : Borrower) (ok : Bool) : State := s.pin c u (.tx c) ok

def startCapture (s : State) (c : ConnId) (u : Borrower) (ok : Bool) : State := s.pin c u (.capture c) ok

/-- A capture comes before a transaction. -/
def route (s : State) (c : ConnId) : Option StreamId :=
  match s.streams.held (.capture c) with
  | some h => some h
  | none => s.streams.held (.tx c)

def run (s : State) (c : ConnId) (u : Borrower) : State := s.send u (s.route c)

def captureChangeset (s : State) (c : ConnId) (u : Borrower) : State :=
  match s.streams.held (.capture c) with
  | none => s
  | some h => s.send u (some h)

def endCapture (s : State) (c : ConnId) : State :=
  match s.streams.held (.capture c) with
  | none => s
  | some _ => { s with streams := (s.streams.move (.capture c) (.hand c)).close (.hand c) }

/-- `tx.Commit` and `tx.Rollback`: the field is cleared before the last statement is sent. -/
def finish (s : State) (c : ConnId) (u : Borrower) : State :=
  match s.streams.held (.tx c) with
  | none => s
  | some _ =>
    let s' := { s with streams := s.streams.move (.tx c) (.hand c) }
    let s'' := s'.send u (s'.streams.held (.hand c))
    { s'' with streams := s''.streams.close (.hand c) }

def closeConn (s : State) (c : ConnId) : State :=
  { s with streams := (s.streams.close (.tx c)).close (.capture c) }

def stand (s : State) (c : ConnId) (w : Standing) : State := { s with conns := s.conns.set c w }

end State

inductive Call where
  | run
  | begin (ok : Bool)
  | finish
  | startCapture (ok : Bool)
  | captureChangeset
  | endCapture
deriving DecidableEq, Repr

def State.invoke (s : State) (c : ConnId) (u : Borrower) : Call → State
  | .run => s.run c u
  | .begin ok => s.begin c u ok
  | .finish => s.finish c u
  | .startCapture ok => s.startCapture c u ok
  | .captureChangeset => s.captureChangeset c u
  | .endCapture => s.endCapture c

inductive Action where
  | connect (u : Borrower)
  | take (c : ConnId) (u : Borrower)
  | give (c : ConnId)
  | discard (c : ConnId)
  | call (c : ConnId) (call : Call)
deriving DecidableEq, Repr

/-- The pool calls `ResetSession` before it hands out an idle connection, and `Close` on one that
it discards. Only the borrower of a connection calls its methods. -/
def step (s : State) : Action → Option State
  | .connect u => some { s with conns := s.conns ++ [.used u] }
  | .take c u =>
    match s.conns[c]? with
    | some .idle => some (if s.busy c then (s.closeConn c).stand c .discarded else s.stand c (.used u))
    | _ => none
  | .give c =>
    match s.conns[c]? with
    | some (.used _) => some (s.stand c .idle)
    | _ => none
  | .discard c =>
    match s.conns[c]? with
    | some .idle | some (.used _) => some ((s.closeConn c).stand c .discarded)
    | _ => none
  | .call c call =>
    match s.conns[c]? with
    | some (.used u) => some (s.invoke c u call)
    | _ => none

def init : State := ⟨.empty, [], fun _ => 0, []⟩

/-! ## The invariant -/

/-- What holds also within a method: streams are with connections that are in the pool, those of
a borrowed one belong to its borrower, and requests went over streams of their user. -/
structure Core (s : State) : Prop where
  sound : s.streams.Sound
  live : ∀ {p : Place} {h : StreamId}, s.streams.held p = some h → ∃ w, s.conns[p.conn]? = some w ∧ w ≠ .discarded
  owned : ∀ {p : Place} {h : StreamId} {u : Borrower}, s.streams.held p = some h → s.conns[p.conn]? = some (.used u) →
    s.opener h = u
  sent : ∀ e ∈ s.sent, ∀ h, e.stream = some h → h < s.streams.next ∧ s.opener h = e.user ∧ e.closed = 0

structure Inv (s : State) : Prop extends Core s where
  returned : ∀ c, s.streams.held (.hand c) = none
  apart : ∀ c, s.streams.held (.tx c) = none ∨ s.streams.held (.capture c) = none

variable {s t : State} {c : ConnId} {u : Borrower} {p q : Place}

theorem inv_init : Inv init where
  sound := Custody.sound_empty
  live h := by cases h
  owned h := by cases h
  sent e he := absurd he List.not_mem_nil
  returned _ := rfl
  apart _ := .inl rfl

theorem Core.send (h : Core s) (hUsed : s.conns[c]? = some (.used u)) {stream : Option StreamId}
    (hStream : ∀ i, stream = some i → ∃ p : Place, p.conn = c ∧ s.streams.held p = some i) : Core (s.send u stream) where
  sound := h.sound
  live := h.live
  owned := h.owned
  sent e he i hi := by
    rcases List.mem_append.mp he with hOld | hNew
    · exact h.sent e hOld i hi
    · obtain rfl := List.mem_singleton.mp hNew
      dsimp only at hi
      obtain ⟨p, rfl, hp⟩ := hStream i hi
      refine ⟨h.sound.made hp, h.owned hp hUsed, ?_⟩
      simp only [hi, Option.map_some, Option.getD_some]
      exact h.sound.unclosed hp

theorem Core.openStream (h : Core s) (hUsed : s.conns[c]? = some (.used u)) (hFree : s.streams.held (.hand c) = none) :
    Core (s.openStream c u) where
  sound := h.sound.create hFree
  live hp := by
    rcases Custody.held_create_cases hp with ⟨rfl, -⟩ | ⟨-, hOld⟩
    · exact ⟨_, hUsed, by simp⟩
    · exact h.live hOld
  owned {p i u'} hp hUsed' := by
    change Function.update s.opener s.streams.next u i = u'
    rcases Custody.held_create_cases hp with ⟨rfl, rfl⟩ | ⟨-, hOld⟩
    · rw [Function.update_self]
      exact Standing.used.inj (Option.some.inj (hUsed.symm.trans hUsed'))
    · rw [Function.update_of_ne (Nat.ne_of_lt (h.sound.made hOld))]
      exact h.owned hOld hUsed'
  sent e he i hi := by
    obtain ⟨hMade, hOpener, hClosed⟩ := h.sent e he i hi
    refine ⟨Nat.lt_succ_of_lt hMade, ?_, hClosed⟩
    exact (Function.update_of_ne (Nat.ne_of_lt hMade) _ _).trans hOpener

theorem Core.move (h : Core s) (hConn : q.conn = p.conn) (hNe : q ≠ p) (hFree : s.streams.held q = none) :
    Core { s with streams := s.streams.move p q } where
  sound := h.sound.move hNe hFree
  live hp := by
    rcases Custody.held_move_cases hp with ⟨rfl, hOld⟩ | ⟨-, -, hOld⟩
    · rw [hConn]
      exact h.live hOld
    · exact h.live hOld
  owned hp hUsed := by
    rcases Custody.held_move_cases hp with ⟨rfl, hOld⟩ | ⟨-, -, hOld⟩
    · rw [hConn] at hUsed
      exact h.owned hOld hUsed
    · exact h.owned hOld hUsed
  sent := h.sent

theorem Core.close (h : Core s) (p : Place) : Core { s with streams := s.streams.close p } where
  sound := h.sound.close p
  live hq := h.live (Custody.held_close_cases hq).2
  owned hq := h.owned (Custody.held_close_cases hq).2
  sent e he i hi := by
    rw [Custody.close_next]
    exact h.sent e he i hi

/-! ## Methods -/

theorem not_busy (h : s.busy c = false) : s.streams.held (.tx c) = none ∧ s.streams.held (.capture c) = none := by
  simpa [State.busy] using h

def IsField (c : ConnId) (field : Place) : Prop := field = .tx c ∨ field = .capture c

/-- At the end of a method nothing is left in its local variable, and what is in a field was there
before, or is the new stream of a connection that had none. -/
theorem Inv.settle (h : Inv s) (hCore : Core t) {field : Place} (hField : IsField c field)
    (hLocal : ∀ c, t.streams.held (.hand c) = none)
    (hFrom : ∀ p i, t.streams.held p = some i → s.streams.held p = some i ∨ (s.busy c = false ∧ p = field)) : Inv t := by
  refine ⟨hCore, hLocal, fun c' => ?_⟩
  by_contra hBoth
  rw [not_or] at hBoth
  obtain ⟨i, hi⟩ := Option.ne_none_iff_exists'.mp hBoth.1
  obtain ⟨j, hj⟩ := Option.ne_none_iff_exists'.mp hBoth.2
  rcases hFrom _ _ hi with hOld | ⟨hFree, hNew⟩ <;> rcases hFrom _ _ hj with hOld' | ⟨hFree', hNew'⟩
  · rcases h.apart c' with hNone | hNone
    · cases hNone.symm.trans hOld
    · cases hNone.symm.trans hOld'
  · rcases hField with rfl | rfl
    · cases hNew'
    · cases hNew'
      cases (not_busy hFree').1.symm.trans hOld
  · rcases hField with rfl | rfl
    · cases hNew
      cases (not_busy hFree).2.symm.trans hOld'
    · cases hNew
  · cases hNew.trans hNew'.symm

theorem Inv.pin (h : Inv s) (hUsed : s.conns[c]? = some (.used u)) {field : Place} (hField : IsField c field) (ok : Bool) :
    Inv (s.pin c u field ok) := by
  unfold State.pin
  split
  · exact h
  rename_i hBusy
  have hFree : s.busy c = false := Bool.not_eq_true _ ▸ hBusy
  have hConn : field.conn = c ∧ field ≠ .hand c := by
    rcases hField with rfl | rfl <;> exact ⟨rfl, by simp⟩
  have hEmpty : s.streams.held field = none := by
    rcases hField with rfl | rfl
    · exact (not_busy hFree).1
    · exact (not_busy hFree).2
  have hHand : ∀ i, (s.openStream c u).streams.held (.hand c) = some i →
      ∃ p : Place, p.conn = c ∧ (s.openStream c u).streams.held p = some i := fun i hi => ⟨.hand c, rfl, hi⟩
  have hSent := (h.toCore.openStream hUsed (h.returned c)).send hUsed hHand
  have hOther : ∀ {p}, p ≠ .hand c → (s.openStream c u).streams.held p = s.streams.held p := Custody.held_create_of_ne
  have hLocal : ∀ c', c' ≠ c → (s.openStream c u).streams.held (.hand c') = none := by
    intro c' hNe
    rw [hOther (by simpa using hNe), h.returned]
  cases ok with
  | true =>
    refine h.settle (hSent.move hConn.1 hConn.2 ((hOther hConn.2).trans hEmpty)) hField (fun c' => ?_) (fun p i hp => ?_)
    · rcases Decidable.em (c' = c) with rfl | hNe
      · exact Custody.held_move_from _ _ _
      · refine (Custody.held_move_of_ne (by simpa using hNe) ?_).trans (hLocal c' hNe)
        rcases hField with rfl | rfl <;> simp
    · rcases Custody.held_move_cases hp with ⟨rfl, -⟩ | ⟨hNe, -, hOld⟩
      · exact .inr ⟨hFree, rfl⟩
      · exact .inl ((hOther hNe).symm.trans hOld)
  | false =>
    refine h.settle (hSent.close _) hField (fun c' => ?_) (fun p i hp => ?_)
    · rcases Decidable.em (c' = c) with rfl | hNe
      · exact Custody.held_close_self _ _
      · exact (Custody.held_close_of_ne (by simpa using hNe)).trans (hLocal c' hNe)
    · obtain ⟨hNe, hOld⟩ := Custody.held_close_cases hp
      exact .inl ((hOther hNe).symm.trans hOld)

theorem Inv.send (h : Inv s) (hUsed : s.conns[c]? = some (.used u)) {stream : Option StreamId}
    (hStream : ∀ i, stream = some i → ∃ p : Place, p.conn = c ∧ s.streams.held p = some i) : Inv (s.send u stream) :=
  ⟨h.toCore.send hUsed hStream, h.returned, h.apart⟩

theorem Inv.run (h : Inv s) (hUsed : s.conns[c]? = some (.used u)) : Inv (s.run c u) := by
  refine h.send hUsed fun i hi => ?_
  unfold State.route at hi
  split at hi
  · rename_i hCapture
    cases hi
    exact ⟨.capture c, rfl, hCapture⟩
  · exact ⟨.tx c, rfl, hi⟩

theorem Inv.unpin (h : Inv s) {field : Place} (hField : IsField c field) (hCore : Core t)
    (hStreams : t.streams = s.streams.move field (.hand c)) : Inv { t with streams := t.streams.close (.hand c) } := by
  refine h.settle (hCore.close _) hField (fun c' => ?_) (fun p i hp => ?_)
  · rcases Decidable.em (c' = c) with rfl | hNe
    · exact Custody.held_close_self _ _
    · refine (Custody.held_close_of_ne (by simpa using hNe)).trans ?_
      rw [hStreams, Custody.held_move_of_ne, h.returned]
      · rcases hField with rfl | rfl <;> simp
      · simpa using hNe
  · obtain ⟨hNe, hOld⟩ := Custody.held_close_cases hp
    rw [hStreams] at hOld
    rcases Custody.held_move_cases hOld with ⟨rfl, -⟩ | ⟨-, -, hOld⟩
    · exact absurd rfl hNe
    · exact .inl hOld

theorem Inv.toHand (h : Inv s) {field : Place} (hField : IsField c field) :
    Core { s with streams := s.streams.move field (.hand c) } := by
  rcases hField with rfl | rfl
  · exact h.toCore.move rfl (by simp) (h.returned c)
  · exact h.toCore.move rfl (by simp) (h.returned c)

theorem Inv.endCapture (h : Inv s) (c : ConnId) : Inv (s.endCapture c) := by
  unfold State.endCapture
  split
  · exact h
  · exact h.unpin (t := { s with streams := s.streams.move (.capture c) (.hand c) }) (.inr rfl) (h.toHand (.inr rfl)) rfl

theorem Inv.finish (h : Inv s) (hUsed : s.conns[c]? = some (.used u)) : Inv (s.finish c u) := by
  unfold State.finish
  split
  · exact h
  · refine h.unpin (c := c) (.inl rfl) ?_ rfl
    exact (h.toHand (.inl rfl)).send hUsed fun i hi => ⟨.hand c, rfl, hi⟩

theorem Inv.invoke (h : Inv s) (hUsed : s.conns[c]? = some (.used u)) (call : Call) : Inv (s.invoke c u call) := by
  cases call with
  | run => exact h.run hUsed
  | begin ok => exact h.pin hUsed (.inl rfl) ok
  | finish => exact h.finish hUsed
  | startCapture ok => exact h.pin hUsed (.inr rfl) ok
  | captureChangeset =>
    change Inv (s.captureChangeset c u)
    unfold State.captureChangeset
    split
    · exact h
    · rename_i i hi
      refine h.send hUsed fun j hj => ?_
      cases hj
      exact ⟨.capture c, rfl, hi⟩
  | endCapture => exact h.endCapture c

/-! ## The pool -/

theorem Inv.closeConn (h : Inv s) (c : ConnId) : Inv (s.closeConn c) := by
  refine h.settle (c := c) ((h.toCore.close _).close _) (.inl rfl) (fun c' => ?_) (fun p i hp => ?_)
  · refine (Custody.held_close_of_ne (by simp)).trans ((Custody.held_close_of_ne (by simp)).trans (h.returned c'))
  · exact .inl (Custody.held_close_cases (Custody.held_close_cases hp).2).2

theorem closeConn_conn (h : Inv s) {i : StreamId} (hp : (s.closeConn c).streams.held p = some i) : p.conn ≠ c := by
  rintro rfl
  obtain ⟨hNe, hp⟩ := Custody.held_close_cases hp
  obtain ⟨hNe', hp⟩ := Custody.held_close_cases hp
  cases p with
  | tx c => exact hNe' rfl
  | capture c => exact hNe rfl
  | hand c => cases (h.returned c).symm.trans hp

/-- A connection may be given back with a stream, but it is handed out and discarded without. -/
theorem Inv.stand (h : Inv s) {w : Standing} (hStands : ∀ {p i}, s.streams.held p = some i → p.conn = c → w = .idle) :
    Inv (s.stand c w) := by
  refine ⟨⟨h.sound, fun {p i} hp => ?_, fun {p i u} hp hUsed => ?_, h.sent⟩, h.returned, h.apart⟩
  · obtain ⟨w', hOld, hNe⟩ := h.live hp
    rcases Decidable.em (p.conn = c) with rfl | hOther
    · refine ⟨w, ?_, by rw [hStands hp rfl]; simp⟩
      change (s.conns.set p.conn w)[p.conn]? = some w
      rw [List.getElem?_set_self (List.getElem?_eq_some_iff.mp hOld).1]
    · exact ⟨w', (List.getElem?_set_ne (Ne.symm hOther)).trans hOld, hNe⟩
  · rcases getElem?_set_cases hUsed with ⟨hConn, hEq⟩ | ⟨-, hOld⟩
    · cases hEq.trans (hStands hp hConn.symm)
    · exact h.owned hp hOld

theorem Inv.connect (h : Inv s) (u : Borrower) : Inv { s with conns := s.conns ++ [.used u] } := by
  refine ⟨⟨h.sound, fun {p i} hp => ?_, fun {p i u'} hp hUsed => ?_, h.sent⟩, h.returned, h.apart⟩
  · obtain ⟨w, hOld, hNe⟩ := h.live hp
    exact ⟨w, getElem?_append_of_some hOld, hNe⟩
  · obtain ⟨w, hOld, -⟩ := h.live hp
    have hSame : w = .used u' := Option.some.inj ((getElem?_append_of_some hOld).symm.trans hUsed)
    exact h.owned hp (hSame ▸ hOld)

theorem Inv.discard (h : Inv s) (c : ConnId) : Inv ((s.closeConn c).stand c .discarded) :=
  (h.closeConn c).stand fun hp hConn => absurd hConn (closeConn_conn h hp)

theorem not_busy_conn (h : Inv s) (hFree : s.busy c = false) {i : StreamId} (hp : s.streams.held p = some i) :
    p.conn ≠ c := by
  rintro rfl
  cases p with
  | tx c => cases (not_busy hFree).1.symm.trans hp
  | capture c => cases (not_busy hFree).2.symm.trans hp
  | hand c => cases (h.returned c).symm.trans hp

theorem Inv.step {act : Action} (h : Inv s) (hStep : step s act = some t) : Inv t := by
  cases act with
  | connect u =>
    cases hStep
    exact h.connect u
  | take c u =>
    simp only [SqlDriver.step] at hStep
    split at hStep
    · cases hStep
      split
      · exact h.discard c
      · rename_i hBusy
        exact h.stand fun hp hConn => absurd hConn (not_busy_conn h (Bool.not_eq_true _ ▸ hBusy) hp)
    · cases hStep
  | give c =>
    simp only [SqlDriver.step] at hStep
    split at hStep
    · cases hStep
      exact h.stand fun _ _ => rfl
    · cases hStep
  | discard c =>
    simp only [SqlDriver.step] at hStep
    split at hStep
    · cases hStep
      exact h.discard c
    · cases hStep
      exact h.discard c
    · cases hStep
  | call c call =>
    simp only [SqlDriver.step] at hStep
    split at hStep
    · rename_i u hUsed
      cases hStep
      exact h.invoke hUsed call
    · cases hStep

/-! ## What the pool guarantees -/

structure Safe (s : State) : Prop where
  /-- A request goes over a stream that was opened for its user and is not closed. -/
  isolated : ∀ e ∈ s.sent, ∀ h, e.stream = some h → s.opener h = e.user ∧ e.closed = 0
  /-- So does the next one of every borrower. -/
  routed : ∀ c u h, s.conns[c]? = some (.used u) → s.route c = some h → s.opener h = u ∧ s.streams.closed h = 0
  apart : ∀ c, s.streams.held (.tx c) = none ∨ s.streams.held (.capture c) = none
  closed_once : ∀ h, s.streams.closed h ≤ 1
  /-- A stream that is not closed can still be: its connection is in the pool and has it. -/
  unleaked : ∀ h, h < s.streams.next → s.streams.closed h = 0 → ∃ c w, s.conns[c]? = some w ∧ w ≠ .discarded ∧
    (s.streams.held (.tx c) = some h ∨ s.streams.held (.capture c) = some h)

theorem Inv.safe (h : Inv s) : Safe s where
  isolated e he i hi := (h.sent e he i hi).2
  routed c u i hUsed hRoute := by
    have hHeld : ∃ p : Place, p.conn = c ∧ s.streams.held p = some i := by
      unfold State.route at hRoute
      split at hRoute
      · rename_i hCapture
        cases hRoute
        exact ⟨.capture c, rfl, hCapture⟩
      · exact ⟨.tx c, rfl, hRoute⟩
    obtain ⟨p, rfl, hp⟩ := hHeld
    exact ⟨h.owned hp hUsed, h.sound.unclosed hp⟩
  apart := h.apart
  closed_once := h.sound.once
  unleaked i hMade hOpen := by
    obtain ⟨p, hp⟩ := h.sound.kept hMade hOpen
    obtain ⟨w, hStands, hNe⟩ := h.live hp
    refine ⟨p.conn, w, hStands, hNe, ?_⟩
    cases p with
    | tx c => exact .inl hp
    | capture c => exact .inr hp
    | hand c => cases (h.returned c).symm.trans hp

/-- However connections are handed out, used, given back and discarded: a statement goes over a
stream that was opened for its borrower, or over none, and every stream is closed at most once
and not lost before. -/
theorem pool_isolates_borrowers (actions : List Action) : Always step Safe init actions :=
  (always_of_invariant (fun _ _ _ h hStep => h.step hStep) inv_init actions).mono fun _ h => h.safe

example : (Lib.run step init [.connect 1, .call 0 (.startCapture true), .give 0, .take 0 2]).map (fun s =>
    (s.conns, s.streams.closed 0)) = some ([.discarded], 1) := by
  decide

end QuicSql.SqlDriver
