import QuicSql.Feed.Model

/-!
# The connection hooks

Every connection to an observed database buffers the row changes of its transaction.
The commit callback publishes the buffer as one batch, the rollback callback drops it.
Callbacks of different connections come in any order; while a commit callback is
publishing, its own connection makes no other callback.
-/

namespace QuicSql.Feed

open Lib

def opInsert : Int := 18

def opUpdate : Int := 23

def opDelete : Int := 9

structure PreUpdate where
  op : Int
  tableName : String
  oldRowID : Int
  newRowID : Int
deriving DecidableEq, Repr

/-- The event of a row change, not yet numbered; other opcodes have none. -/
def PreUpdate.event (d : PreUpdate) : Option Event :=
  if d.op = opInsert then some ⟨0, d.tableName, .insert, d.newRowID, false⟩
  else if d.op = opUpdate then some ⟨0, d.tableName, .update, d.newRowID, false⟩
  else if d.op = opDelete then some ⟨0, d.tableName, .delete, d.oldRowID, false⟩
  else none

def maxPending : Nat := 8192

def resetEvent : Event := { zeroEvent with reset := true }

structure Hooks where
  pending : List Event
  overflow : Bool
deriving DecidableEq, Repr

namespace Hooks

def cleared : Hooks := ⟨[], false⟩

def preUpdate (h : Hooks) (d : PreUpdate) : Hooks :=
  if h.overflow then h
  else
    match d.event with
    | none => h
    | some e =>
      if maxPending ≤ h.pending.length then ⟨[], true⟩
      else { h with pending := h.pending ++ [e] }

def batch (h : Hooks) : Option (List Event) :=
  if h.overflow then some [resetEvent]
  else if 0 < h.pending.length then some h.pending
  else none

end Hooks

inductive Callback where
  | preUpdate (d : PreUpdate)
  | commit
  | rollback
deriving DecidableEq, Repr

/-- A feed with the connections that write to it. `publisher` is the connection inside
`publish`; `trace` are the callbacks made so far, the latest first. -/
structure Observed where
  feed : State
  hooks : Nat → Hooks
  publisher : Option Nat
  trace : List (Nat × Callback)

namespace Observed

inductive Action where
  | callback (conn : Nat) (cb : Callback)
  | feed (a : Feed.Action)

def init (cfg : Config) : Observed := ⟨Feed.init cfg, fun _ => .cleared, none, []⟩

def clear (s : Observed) (conn : Nat) : Observed :=
  { s with hooks := Function.update s.hooks conn .cleared }

def log (s : Observed) (conn : Nat) (cb : Callback) : Observed :=
  { s with trace := (conn, cb) :: s.trace }

def callback (cfg : Config) (s : Observed) (conn : Nat) : Callback → Option Observed
  | .preUpdate d =>
    some { s.log conn (.preUpdate d) with
      hooks := Function.update s.hooks conn ((s.hooks conn).preUpdate d) }
  | .commit =>
    match (s.hooks conn).batch with
    | none => some ((s.log conn .commit).clear conn)
    | some events =>
      (Feed.step cfg s.feed (.publish events)).map
        (fun feed => { s.log conn .commit with feed := feed, publisher := some conn })
  | .rollback => some ((s.log conn .rollback).clear conn)

def settle (s : Observed) : Observed :=
  match s.publisher with
  | none => s
  | some conn => { s.clear conn with publisher := none }

/-- Only commit callbacks publish. -/
def step (cfg : Config) (s : Observed) : Action → Option Observed
  | .callback conn cb => if s.publisher = some conn then none else s.callback cfg conn cb
  | .feed (.publish _) => none
  | .feed .unlock => (Feed.step cfg s.feed .unlock).map (fun feed => { s with feed := feed }.settle)
  | .feed a => (Feed.step cfg s.feed a).map (fun feed => { s with feed := feed })

end Observed

/-! ## What the callbacks amount to -/

/-- The recognised row changes of the transaction that is open on a connection. -/
def openRows : List (Nat × Callback) → Nat → List Event
  | [], _ => []
  | (other, cb) :: older, conn =>
    if other = conn then
      match cb with
      | .preUpdate d => openRows older conn ++ d.event.toList
      | .commit => []
      | .rollback => []
    else openRows older conn

def block (rows : List Event) : List Event :=
  if rows.length ≤ maxPending then rows else [resetEvent]

/-- One block for each commit callback. -/
def committed : List (Nat × Callback) → List Event
  | [] => []
  | (conn, .commit) :: older => committed older ++ block (openRows older conn)
  | (_, .preUpdate _) :: older => committed older
  | (_, .rollback) :: older => committed older

def Event.unnumbered (e : Event) : Event := { e with seq := 0 }

/-- The events published, with those of the batch at hand that are still to come. -/
def State.outgoing (s : State) : List Event := s.history ++ (s.publishing.map Publishing.rest).getD []

def Hooks.holding (rows : List Event) : Hooks :=
  if rows.length ≤ maxPending then ⟨rows, false⟩ else ⟨[], true⟩

theorem Hooks.preUpdate_holding (rows : List Event) (d : PreUpdate) :
    (Hooks.holding rows).preUpdate d = Hooks.holding (rows ++ d.event.toList) := by
  unfold holding preUpdate
  cases d.event with
  | none =>
    rw [Option.toList_none, List.append_nil]
    split <;> rfl
  | some e =>
    rw [Option.toList_some, List.length_append, List.length_singleton]
    rcases Nat.lt_trichotomy rows.length maxPending with hRoom | hLast | hOver
    · rw [if_pos hRoom.le, if_pos (Nat.succ_le_of_lt hRoom), if_neg Bool.false_ne_true]
      exact if_neg (Nat.not_le.mpr hRoom)
    · have hFull : ¬ rows.length + 1 ≤ maxPending := by omega
      rw [if_pos hLast.le, if_neg hFull, if_neg Bool.false_ne_true]
      exact if_pos hLast.ge
    · have hFull : ¬ rows.length + 1 ≤ maxPending := by omega
      rw [if_neg (Nat.not_le.mpr hOver), if_neg hFull]
      rfl

theorem Hooks.batch_holding (rows : List Event) : (Hooks.holding rows).batch.getD [] = block rows := by
  unfold holding block
  split
  · cases rows with
    | nil => rfl
    | cons e rest => rfl
  · rfl

theorem PreUpdate.event_unnumbered {d : PreUpdate} {e : Event} (h : d.event = some e) : e.unnumbered = e := by
  unfold event at h
  split at h
  · cases h
    rfl
  · split at h
    · cases h
      rfl
    · split at h
      · cases h
        rfl
      · cases h

theorem openRows_unnumbered (trace : List (Nat × Callback)) (conn : Nat) :
    ∀ e ∈ openRows trace conn, e.unnumbered = e := by
  induction trace with
  | nil => nofun
  | cons entry older ih =>
    obtain ⟨other, cb⟩ := entry
    unfold openRows
    split
    · cases cb with
      | preUpdate d =>
        intro e hMem
        rcases List.mem_append.mp hMem with hOld | hNew
        · exact ih e hOld
        · exact PreUpdate.event_unnumbered (Option.mem_toList.mp hNew)
      | commit => nofun
      | rollback => nofun
    · exact ih

theorem block_unnumbered (trace : List (Nat × Callback)) (conn : Nat) :
    (block (openRows trace conn)).map Event.unnumbered = block (openRows trace conn) := by
  unfold block
  split
  · exact (List.map_congr_left (openRows_unnumbered trace conn)).trans (List.map_id _)
  · rfl

/-! ## Steps of the feed under the hooks -/

variable {cfg : Config} {f g : State}

theorem step_outgoing {a : Action} (h : step cfg f a = some g) (hPublish : ∀ events, a ≠ .publish events)
    (hUnlock : a ≠ .unlock) :
    g.outgoing.map Event.unnumbered = f.outgoing.map Event.unnumbered ∧
      (g.publishing = none ↔ f.publishing = none) := by
  cases step_effect h with
  | publish events => exact absurd rfl (hPublish events)
  | unlock => exact absurd rfl hUnlock
  | next event e rest hp =>
    constructor
    · simp [State.outgoing, State.next, hp, Event.unnumbered]
    · simp [State.next, hp]
  | offer p id sub hp =>
    unfold State.offer
    split
    · simp [State.outgoing, State.send, hp]
    · simp [State.outgoing, State.drop, hp]
  | refuse | attach | detach | detached | detachAll | receive => exact ⟨rfl, Iff.rfl⟩

theorem step_unlock (h : step cfg f .unlock = some g) :
    g.outgoing = f.outgoing ∧ g.publishing = none ∧ f.publishing ≠ none := by
  cases step_effect h with
  | unlock event hp => simp [State.outgoing, hp]

theorem step_publish {events : List Event} (h : step cfg f (.publish events) = some g) :
    g.outgoing = f.outgoing ++ events ∧ g.publishing ≠ none := by
  cases step_effect h with
  | publish events hp => simp [State.outgoing, hp]

/-! ## Runs -/

namespace Observed

structure Inv (s : Observed) : Prop where
  lock : s.publisher = none ↔ s.feed.publishing = none
  buffers : ∀ conn, s.publisher ≠ some conn → s.hooks conn = .holding (openRows s.trace conn)
  closing : ∀ conn, s.publisher = some conn → openRows s.trace conn = []
  published : s.feed.outgoing.map Event.unnumbered = committed s.trace

variable {s t : Observed} {conn other : Nat} {cb : Callback}

theorem inv_init (cfg : Config) : Inv (init cfg) where
  lock := ⟨fun _ => rfl, fun _ => rfl⟩
  buffers _ _ := rfl
  closing := nofun
  published := rfl

theorem openRows_log_other (h : conn ≠ other) : openRows (s.log conn cb).trace other = openRows s.trace other :=
  if_neg h

theorem Inv.buffers_update (h : Inv s) {hooks : Hooks}
    (hNew : hooks = .holding (openRows (s.log conn cb).trace conn)) (hOther : s.publisher ≠ some other) :
    Function.update s.hooks conn hooks other = .holding (openRows (s.log conn cb).trace other) := by
  rcases eq_or_ne other conn with rfl | hNe
  · rw [Function.update_self, hNew]
  · rw [Function.update_of_ne hNe, openRows_log_other hNe.symm, h.buffers other hOther]

theorem Inv.closing_log (h : Inv s) (hFree : s.publisher ≠ some conn) (hOther : s.publisher = some other) :
    openRows (s.log conn cb).trace other = [] := by
  have hNe : conn ≠ other := fun hEq => hFree (hEq ▸ hOther)
  rw [openRows_log_other hNe, h.closing other hOther]

theorem openRows_commit : openRows (s.log conn .commit).trace conn = [] := if_pos rfl

theorem openRows_rollback : openRows (s.log conn .rollback).trace conn = [] := if_pos rfl

theorem openRows_preUpdate (d : PreUpdate) :
    openRows (s.log conn (.preUpdate d)).trace conn = openRows s.trace conn ++ d.event.toList :=
  if_pos rfl

theorem Inv.preUpdate (h : Inv s) (hFree : s.publisher ≠ some conn) (d : PreUpdate) :
    Inv { s.log conn (.preUpdate d) with
      hooks := Function.update s.hooks conn ((s.hooks conn).preUpdate d) } where
  lock := h.lock
  buffers _ hOther := by
    refine h.buffers_update ?_ hOther
    rw [h.buffers conn hFree, Hooks.preUpdate_holding, openRows_preUpdate]
  closing _ hOther := h.closing_log hFree hOther
  published := h.published

theorem Inv.clear (h : Inv s) (hFree : s.publisher ≠ some conn)
    (hEnded : openRows (s.log conn cb).trace conn = []) (hSilent : committed (s.log conn cb).trace = committed s.trace) :
    Inv ((s.log conn cb).clear conn) where
  lock := h.lock
  buffers _ hOther := by
    refine h.buffers_update ?_ hOther
    rw [hEnded]
    rfl
  closing _ hOther := h.closing_log hFree hOther
  published := h.published.trans hSilent.symm

theorem Inv.batch_eq (h : Inv s) (hFree : s.publisher ≠ some conn) :
    (s.hooks conn).batch.getD [] = block (openRows s.trace conn) := by
  rw [h.buffers conn hFree, Hooks.batch_holding]

theorem Inv.publish (h : Inv s) (hFree : s.publisher ≠ some conn) {events : List Event}
    (hBatch : (s.hooks conn).batch = some events) {feed : State}
    (hStep : Feed.step cfg s.feed (.publish events) = some feed) :
    Inv { s.log conn .commit with feed := feed, publisher := some conn } where
  lock := by
    have hHeld := (step_publish hStep).2
    simp [hHeld]
  buffers other hOther := by
    have hNe : conn ≠ other := fun hEq => hOther (congrArg some hEq)
    have hQuiet : s.publisher = none := by
      rw [h.lock]
      cases step_effect hStep with
      | publish _ hp => exact hp
    refine (h.buffers other ?_).trans (congrArg _ (openRows_log_other hNe).symm)
    rw [hQuiet]
    exact nofun
  closing other hOther := by
    obtain rfl : conn = other := Option.some.inj hOther
    exact openRows_commit
  published := by
    have hEvents := h.batch_eq hFree
    rw [hBatch, Option.getD_some] at hEvents
    change feed.outgoing.map Event.unnumbered = committed s.trace ++ block (openRows s.trace conn)
    rw [(step_publish hStep).1, List.map_append, h.published, hEvents, block_unnumbered]

theorem Inv.callback (h : Inv s) (hFree : s.publisher ≠ some conn) (hStep : s.callback cfg conn cb = some t) :
    Inv t := by
  cases cb with
  | preUpdate d =>
    cases hStep
    exact h.preUpdate hFree d
  | commit =>
    simp only [Observed.callback] at hStep
    split at hStep
    · rename_i hBatch
      cases hStep
      refine h.clear hFree openRows_commit ?_
      have hEmpty := h.batch_eq hFree
      rw [hBatch, Option.getD_none] at hEmpty
      change committed s.trace ++ block (openRows s.trace conn) = committed s.trace
      rw [← hEmpty, List.append_nil]
    · rename_i events hBatch
      obtain ⟨feed, hFeed, rfl⟩ := Option.map_eq_some_iff.mp hStep
      exact h.publish hFree hBatch hFeed
  | rollback =>
    cases hStep
    exact h.clear hFree openRows_rollback rfl

/-- The connection that was publishing has no open transaction, and now no buffer either. -/
theorem Inv.settle (h : Inv s) {feed : State} (hStep : Feed.step cfg s.feed .unlock = some feed) :
    Inv { s with feed := feed }.settle := by
  obtain ⟨hOut, hDone, hHeld⟩ := step_unlock hStep
  obtain ⟨conn, hConn⟩ := Option.ne_none_iff_exists'.mp (fun hNone => hHeld (h.lock.mp hNone))
  have hSettle : { s with feed := feed }.settle = { { s with feed := feed }.clear conn with publisher := none } := by
    rw [Observed.settle, hConn]
  rw [hSettle]
  constructor
  · exact ⟨fun _ => hDone, fun _ => rfl⟩
  · intro other _
    change Function.update s.hooks conn .cleared other = .holding (openRows s.trace other)
    rcases eq_or_ne other conn with rfl | hNe
    · rw [Function.update_self, h.closing other hConn]
      rfl
    · have hFree : s.publisher ≠ some other := by
        rw [hConn]
        exact fun hEq => hNe (Option.some.inj hEq).symm
      rw [Function.update_of_ne hNe, h.buffers other hFree]
  · exact nofun
  · exact hOut ▸ h.published

theorem Inv.feed (h : Inv s) {a : Feed.Action} {feed : State} (hStep : Feed.step cfg s.feed a = some feed)
    (hPublish : ∀ events, a ≠ .publish events) (hUnlock : a ≠ .unlock) : Inv { s with feed := feed } := by
  obtain ⟨hOut, hLock⟩ := step_outgoing hStep hPublish hUnlock
  exact ⟨h.lock.trans hLock.symm, h.buffers, h.closing, hOut.trans h.published⟩

theorem Inv.step (h : Inv s) {a : Action} (hStep : step cfg s a = some t) : Inv t := by
  cases a with
  | callback conn cb =>
    simp only [Observed.step] at hStep
    split at hStep
    · cases hStep
    · rename_i hFree
      exact h.callback hFree hStep
  | feed a =>
    cases a with
    | publish events => cases hStep
    | unlock =>
      obtain ⟨feed, hFeed, rfl⟩ := Option.map_eq_some_iff.mp hStep
      exact h.settle hFeed
    | next | offer | subscribe | unsubscribe | closeAll | receive =>
      obtain ⟨feed, hFeed, rfl⟩ := Option.map_eq_some_iff.mp hStep
      exact h.feed hFeed nofun nofun

end Observed

/-- In every run, over any connections and callbacks, the events published and those of
the batch at hand are the blocks of the committed transactions, in the order of their
commit callbacks. -/
theorem publication_follows_commits (cfg : Config) (actions : List Observed.Action) :
    Always (Observed.step cfg)
      (fun s => s.feed.outgoing.map Event.unnumbered = committed s.trace ∧
        (s.publisher = none → s.feed.history.map Event.unnumbered = committed s.trace))
      (Observed.init cfg) actions := by
  refine (always_of_invariant (fun _ _ _ hInv hStep => hInv.step hStep) (Observed.inv_init cfg) actions).mono ?_
  intro s hInv
  refine ⟨hInv.published, fun hQuiet => ?_⟩
  rw [← hInv.published, State.outgoing, hInv.lock.mp hQuiet]
  simp

example : committed [(0, .commit), (1, .rollback), (1, .preUpdate ⟨18, "t", 0, 2⟩), (0, .preUpdate ⟨9, "t", 1, 0⟩)] =
    [⟨0, "t", .delete, 1, false⟩] := by
  decide

end QuicSql.Feed
