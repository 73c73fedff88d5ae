import QuicSql.Enroll.Model

/-!
# Idle principals

Authentications are noted in a buffer, and the buffer is written to the table in batches.
The reaper flushes it and then removes every principal whose row has been idle for too long.
Calls are split where they take the buffer's lock and at every access to the table. The
times that calls read are arbitrary.
-/

namespace QuicSql.Enroll

open Lib

/-- A row of the table, with the columns that the reaper reads. -/
structure Seen where
  name : Name
  createdAt : Int
  lastSeen : Option Int
deriving DecidableEq, Repr

def Seen.activity (r : Seen) : Int := r.lastSeen.getD r.createdAt

abbrev Buffer := List (Name × Int)

namespace Buffer

def lookup (b : Buffer) (name : Name) : Option Int := (b.find? (fun p => p.1 = name)).map Prod.snd

def note (b : Buffer) (name : Name) (time : Int) : Buffer := (name, time) :: b.filter (fun p => p.1 ≠ name)

/-- A batch that could not be written is put back where it is newer. -/
def rebuffer (b : Buffer) (batch : Buffer) : Buffer :=
  batch.foldl (fun b p => if (b.lookup p.1).all (fun cur => cur < p.2) then b.note p.1 p.2 else b) b

end Buffer

def touchRow (r : Seen) (p : Name × Int) : Seen :=
  if p.1 = r.name ∧ r.lastSeen.all (fun last => last < p.2) then { r with lastSeen := some p.2 } else r

def touchEnrolled (table : List Seen) (batch : Buffer) : List Seen := table.map (fun r => batch.foldl touchRow r)

def idleEnrolled (table : List Seen) (cutoff : Int) : List Name :=
  (table.filter (fun r => r.activity < cutoff)).map Seen.name

/-- A removal by the reaper: the cutoff, and the touches that had completed when it chose. -/
structure Eviction where
  name : Name
  cutoff : Int
  touched : List (Name × Int)
deriving DecidableEq, Repr

namespace Tracker

/-- Where a call stands. The time that a flush is followed by is that of its reaper. -/
inductive Call where
  | touching (name : Name) (time : Int)
  | flushing (now : Option Int)
  | writing (batch : Buffer) (now : Option Int)
  | rebuffering (batch : Buffer) (now : Option Int)
  | scanning (now : Int)
  | reaping (victims : List Name) (cutoff : Int) (touched : List (Name × Int))
  | deleting (name : Name)
  | returned
deriving DecidableEq, Repr

def Call.batch : Call → Buffer
  | .writing batch _ | .rebuffering batch _ => batch
  | _ => []

inductive Action where
  | touch (name : Name) (time : Int)
  | flush
  | reap (now : Int)
  | delete (name : Name)
  /-- Call `i` takes its next step; `ok` tells whether the table answers without an error. -/
  | step (i : Nat) (ok : Bool)

end Tracker

/-- `touched` are the touches that have completed. -/
structure Tracker where
  table : List Seen
  seen : Buffer
  touched : List (Name × Int)
  evicted : List Eviction
  calls : List Tracker.Call

namespace Tracker

/-- `IdleTTL`, in nanoseconds. -/
structure Config where
  idleTTL : Int

def Config.seconds (cfg : Config) : Int := cfg.idleTTL / 1000000000

def goto (s : Tracker) (i : Nat) (c : Call) : Tracker := { s with calls := s.calls.set i c }

def start (s : Tracker) (c : Call) : Tracker := { s with calls := s.calls ++ [c] }

def afterFlush : Option Int → Call
  | none => .returned
  | some now => .scanning now

def removeRow (table : List Seen) (name : Name) : List Seen := table.filter (fun r => r.name ≠ name)

def advance (cfg : Config) (s : Tracker) (i : Nat) (ok : Bool) : Call → Option Tracker
  | .touching name time =>
    some { s.goto i .returned with
      seen := if hasEnrolledPrefix name then s.seen.note name time else s.seen
      touched := (name, time) :: s.touched }
  | .flushing now =>
    if s.seen = [] then some (s.goto i (afterFlush now))
    else some { s.goto i (.writing s.seen now) with seen := [] }
  | .writing batch now =>
    if ok then some { s.goto i (afterFlush now) with table := touchEnrolled s.table batch }
    else some (s.goto i (.rebuffering batch now))
  | .rebuffering batch now => some { s.goto i (afterFlush now) with seen := s.seen.rebuffer batch }
  | .scanning now =>
    if ok then some (s.goto i (.reaping (idleEnrolled s.table (now - cfg.seconds)) (now - cfg.seconds) s.touched))
    else some (s.goto i .returned)
  | .reaping [] _ _ => some (s.goto i .returned)
  | .reaping (name :: victims) cutoff touched =>
    if ok ∧ ∃ r ∈ s.table, r.name = name then
      some { s.goto i (.reaping victims cutoff touched) with
        table := removeRow s.table name
        evicted := ⟨name, cutoff, touched⟩ :: s.evicted }
    else some (s.goto i (.reaping victims cutoff touched))
  | .deleting name =>
    if ok then some { s.goto i .returned with table := removeRow s.table name } else some (s.goto i .returned)
  | .returned => none

/-- Without a limit, nothing is noted and nobody is removed. -/
def step (cfg : Config) (s : Tracker) : Action → Option Tracker
  | .touch name time => some (s.start (if cfg.idleTTL ≤ 0 then .returned else .touching name time))
  | .flush => some (s.start (.flushing none))
  | .reap now => some (s.start (if cfg.idleTTL ≤ 0 then .returned else .flushing (some now)))
  | .delete name => some (s.start (.deleting name))
  | .step i ok => s.calls[i]?.bind (advance cfg s i ok)

def init (table : List Seen) : Tracker := ⟨table, [], [], [], []⟩

/-- Nobody was removed who had been active since the cutoff. -/
def SparesActive (s : Tracker) : Prop := ∀ e ∈ s.evicted, ∀ time, (e.name, time) ∈ e.touched → time < e.cutoff

def buffers (s : Tracker) : List Buffer := s.seen :: s.calls.map Call.batch

/-- A touch does not overwrite a later one, and the reaper chooses when no later activity of
those it would choose waits to be written. -/
def Written (cfg : Config) (s : Tracker) : Action → Prop
  | .step i _ =>
    match s.calls[i]? with
    | some (.touching name time) => (s.seen.lookup name).all (fun cur => cur ≤ time) = true
    | some (.scanning now) =>
      ∀ name ∈ idleEnrolled s.table (now - cfg.seconds), ∀ b ∈ s.buffers,
        (b.lookup name).all (fun time => time < now - cfg.seconds) = true
    | _ => True
  | _ => True

instance (cfg : Config) (s : Tracker) (a : Action) : Decidable (Written cfg s a) := by
  unfold Written
  repeat' split
  all_goals infer_instance

end Tracker

/-! ## The buffer and the rows -/

def Buffer.Covers (b : Buffer) (name : Name) (time : Int) : Prop := ∃ noted, b.lookup name = some noted ∧ time ≤ noted

def Seen.Covers (r : Seen) (time : Int) : Prop := ∃ last, r.lastSeen = some last ∧ time ≤ last

namespace Buffer

variable {b batch : Buffer} {name other : Name} {time : Int}

theorem lookup_note_self : (b.note name time).lookup name = some time := by
  simp [lookup, note]

theorem lookup_note_of_ne (h : other ≠ name) : (b.note name time).lookup other = b.lookup other := by
  unfold lookup note
  rw [List.find?_cons_of_neg (by simpa using h.symm), List.find?_filter]
  congr 2
  funext p
  rcases Decidable.em (p.1 = other) with hEq | hEq
  · simp [hEq, h]
  · simp [hEq]

theorem Covers.note {noted : Int} (h : b.Covers name time) (hForward : (b.lookup other).all (fun cur => cur ≤ noted) = true) :
    (b.note other noted).Covers name time := by
  obtain ⟨cur, hCur, hLe⟩ := h
  rcases Decidable.em (name = other) with rfl | hNe
  · rw [hCur] at hForward
    exact ⟨noted, lookup_note_self, Int.le_trans hLe (of_decide_eq_true hForward)⟩
  · exact ⟨cur, (lookup_note_of_ne hNe).trans hCur, hLe⟩

theorem Covers.rebuffer (h : b.Covers name time) : (b.rebuffer batch).Covers name time := by
  induction batch generalizing b with
  | nil => exact h
  | cons p rest ih =>
    rw [Buffer.rebuffer, List.foldl_cons]
    refine ih ?_
    split
    · rename_i hNewer
      refine h.note ?_
      cases hCur : b.lookup p.1 with
      | none => rfl
      | some cur =>
        rw [hCur] at hNewer
        exact decide_eq_true (Int.le_of_lt (of_decide_eq_true hNewer))
    · exact h

theorem covers_rebuffer_of_batch (h : batch.Covers name time) : (b.rebuffer batch).Covers name time := by
  induction batch generalizing b with
  | nil =>
    obtain ⟨_, hNone, -⟩ := h
    cases hNone
  | cons p rest ih =>
    rw [Buffer.rebuffer, List.foldl_cons]
    obtain ⟨noted, hNoted, hLe⟩ := h
    rcases Decidable.em (p.1 = name) with hName | hName
    · have hTime : p.2 = noted := by simpa [lookup, hName] using hNoted
      refine Covers.rebuffer ?_
      subst hName hTime
      split
      · exact ⟨p.2, lookup_note_self, hLe⟩
      · rename_i hOlder
        cases hCur : b.lookup p.1 with
        | none => simp [hCur] at hOlder
        | some cur =>
          refine ⟨cur, hCur, Int.le_trans hLe ?_⟩
          simpa [hCur] using hOlder
    · refine ih ⟨noted, ?_, hLe⟩
      simpa [lookup, hName] using hNoted

end Buffer

namespace Seen

variable {r : Seen} {p : Name × Int} {batch : Buffer} {time : Int}

theorem touchRow_name : (touchRow r p).name = r.name := by
  unfold touchRow
  split <;> rfl

theorem foldl_touchRow_name : (batch.foldl touchRow r).name = r.name := by
  induction batch generalizing r with
  | nil => rfl
  | cons p rest ih => exact ih.trans touchRow_name

theorem Covers.touchRow (h : r.Covers time) : (touchRow r p).Covers time := by
  unfold Enroll.touchRow
  split
  · rename_i hNewer
    obtain ⟨last, hLast, hLe⟩ := h
    rw [hLast] at hNewer
    exact ⟨p.2, rfl, Int.le_trans hLe (Int.le_of_lt (of_decide_eq_true hNewer.2))⟩
  · exact h

theorem Covers.foldl (h : r.Covers time) : (batch.foldl Enroll.touchRow r).Covers time := by
  induction batch generalizing r with
  | nil => exact h
  | cons p rest ih => exact ih h.touchRow

theorem touchRow_covers (hName : p.1 = r.name) : (Enroll.touchRow r p).Covers p.2 := by
  unfold Enroll.touchRow
  split
  · exact ⟨p.2, rfl, Int.le_refl _⟩
  · rename_i hOlder
    cases hLast : r.lastSeen with
    | none => simp [hName, hLast] at hOlder
    | some last => exact ⟨last, hLast, by simpa [hName, hLast] using hOlder⟩

theorem foldl_touchRow_covers (h : batch.Covers r.name time) : (batch.foldl Enroll.touchRow r).Covers time := by
  obtain ⟨noted, hNoted, hLe⟩ := h
  induction batch generalizing r with
  | nil => cases hNoted
  | cons p rest ih =>
    rcases Decidable.em (p.1 = r.name) with hName | hName
    · have hTime : p.2 = noted := by simpa [Buffer.lookup, hName] using hNoted
      have hAfter : (rest.foldl Enroll.touchRow (Enroll.touchRow r p)).Covers p.2 := (touchRow_covers hName).foldl
      obtain ⟨last, hLast, hLater⟩ := hAfter
      exact ⟨last, hLast, by omega⟩
    · refine ih ?_
      rw [touchRow_name]
      simpa [Buffer.lookup, hName] using hNoted

end Seen

namespace Tracker

/-! ## What is not written is buffered -/

structure Kept (s : Tracker) : Prop where
  names : ∀ r ∈ s.table, hasEnrolledPrefix r.name = true
  covered : ∀ p ∈ s.touched, (∃ b ∈ s.buffers, b.Covers p.1 p.2) ∨ ∀ r ∈ s.table, r.name = p.1 → r.Covers p.2
  chosen : ∀ victims cutoff touched, Call.reaping victims cutoff touched ∈ s.calls →
    ∀ name ∈ victims, ∀ time, (name, time) ∈ touched → time < cutoff
  spares : s.SparesActive

variable {cfg : Config} {s t : Tracker} {i : Nat} {ok : Bool} {c d : Call}

theorem init_kept {table : List Seen} (hNames : ∀ r ∈ table, hasEnrolledPrefix r.name = true) : Kept (init table) where
  names := hNames
  covered := fun _ hp => absurd hp List.not_mem_nil
  chosen := fun _ _ _ hMem => absurd hMem List.not_mem_nil
  spares := fun _ he => absurd he List.not_mem_nil

/-- A call moves on. Rows keep their names and lose no activity; what was buffered stays so,
or has reached the rows. -/
theorem Kept.move (h : Kept s) (hc : s.calls[i]? = some c) (hCalls : t.calls = s.calls.set i d)
    (hRows : ∀ r ∈ t.table, ∃ old ∈ s.table, old.name = r.name ∧ ∀ time, old.Covers time → r.Covers time)
    (hSeen : ∀ name time, s.seen.Covers name time → t.seen.Covers name time ∨ d.batch.Covers name time)
    (hBatch : ∀ name time, c.batch.Covers name time → t.seen.Covers name time ∨ d.batch.Covers name time ∨
      ∀ r ∈ t.table, r.name = name → r.Covers time)
    (hTouched : ∀ p ∈ t.touched, p ∈ s.touched ∨ t.seen.Covers p.1 p.2 ∨ hasEnrolledPrefix p.1 = false)
    (hChosen : ∀ victims cutoff touched, d = .reaping victims cutoff touched →
      ∀ name ∈ victims, ∀ time, (name, time) ∈ touched → time < cutoff)
    (hSpares : t.SparesActive) : Kept t := by
  have hNames : ∀ r ∈ t.table, hasEnrolledPrefix r.name = true := by
    intro r hr
    obtain ⟨old, hOld, hName, -⟩ := hRows r hr
    exact hName ▸ h.names old hOld
  have hNow : t.seen ∈ t.buffers := List.mem_cons_self
  have hThere : d.batch ∈ t.buffers :=
    List.mem_cons_of_mem _ (List.mem_map_of_mem (hCalls ▸ mem_set_self hc))
  refine ⟨hNames, fun p hp => ?_, fun victims cutoff touched hMem => ?_, hSpares⟩
  · rcases hTouched p hp with hOld | hNew | hPlain
    · rcases h.covered p hOld with ⟨b, hb, hCovers⟩ | hTable
      · rcases List.mem_cons.mp hb with rfl | hCall
        · rcases hSeen p.1 p.2 hCovers with hStill | hMoved
          · exact .inl ⟨_, hNow, hStill⟩
          · exact .inl ⟨_, hThere, hMoved⟩
        · obtain ⟨e, he, rfl⟩ := List.mem_map.mp hCall
          rcases mem_set_of_mem (d := d) hc he with rfl | hStay
          · rcases hBatch p.1 p.2 hCovers with hBack | hMoved | hWritten
            · exact .inl ⟨_, hNow, hBack⟩
            · exact .inl ⟨_, hThere, hMoved⟩
            · exact .inr hWritten
          · exact .inl ⟨_, List.mem_cons_of_mem _ (List.mem_map_of_mem (hCalls ▸ hStay)), hCovers⟩
      · refine .inr fun r hr hName => ?_
        obtain ⟨old, hOld, hSame, hMore⟩ := hRows r hr
        exact hMore p.2 (hTable old hOld (hSame.trans hName))
    · exact .inl ⟨_, hNow, hNew⟩
    · -- a name without the enrolled form has no row
      refine .inr fun r hr hName => ?_
      rw [← hName, hNames r hr] at hPlain
      cases hPlain
  · rw [hCalls] at hMem
    rcases List.mem_or_eq_of_mem_set hMem with hOld | hNew
    · exact h.chosen victims cutoff touched hOld
    · exact hChosen victims cutoff touched hNew.symm

theorem Kept.pass (h : Kept s) (hc : s.calls[i]? = some c) (hCalls : t.calls = s.calls.set i d)
    (hTable : ∀ r ∈ t.table, r ∈ s.table) (hSeen : t.seen = s.seen) (hBatch : d.batch = c.batch)
    (hTouched : t.touched = s.touched)
    (hChosen : ∀ victims cutoff touched, d = .reaping victims cutoff touched →
      ∀ name ∈ victims, ∀ time, (name, time) ∈ touched → time < cutoff)
    (hSpares : t.SparesActive) : Kept t :=
  h.move hc hCalls (fun r hr => ⟨r, hTable r hr, rfl, fun _ hCovers => hCovers⟩)
    (fun _ _ hCovers => .inl (hSeen ▸ hCovers)) (fun _ _ hCovers => .inr (.inl (hBatch ▸ hCovers)))
    (fun _ hp => .inl (hTouched ▸ hp)) hChosen hSpares

theorem afterFlush_batch (now : Option Int) : (afterFlush now).batch = [] := by
  cases now <;> rfl

theorem afterFlush_ne_reaping (now : Option Int) (victims : List Name) (cutoff : Int) (touched : List (Name × Int)) :
    afterFlush now ≠ .reaping victims cutoff touched := by
  cases now <;> exact fun hEq => by cases hEq

theorem not_covers_nil {name : Name} {time : Int} : ¬ Buffer.Covers [] name time := by
  rintro ⟨_, hNone, -⟩
  cases hNone

/-- Those whom the reaper chooses have not been active since the cutoff. -/
theorem Kept.chosen_idle (h : Kept s) {cutoff : Int}
    (hWritten : ∀ name ∈ idleEnrolled s.table cutoff, ∀ b ∈ s.buffers,
      (b.lookup name).all (fun time => time < cutoff) = true) :
    ∀ name ∈ idleEnrolled s.table cutoff, ∀ time, (name, time) ∈ s.touched → time < cutoff := by
  intro name hName time hTouched
  obtain ⟨r, hr, rfl⟩ := List.mem_map.mp hName
  obtain ⟨hRow, hIdle⟩ := List.mem_filter.mp hr
  rcases h.covered _ hTouched with ⟨b, hb, noted, hNoted, hLe⟩ | hTable
  · have hOld := hWritten r.name hName b hb
    rw [hNoted] at hOld
    exact Int.lt_of_le_of_lt hLe (of_decide_eq_true hOld)
  · obtain ⟨last, hLast, hLe⟩ := hTable r hRow rfl
    have hActivity : r.activity = last := by rw [Seen.activity, hLast]; rfl
    have hLess : r.activity < cutoff := of_decide_eq_true hIdle
    omega

theorem Kept.touch (h : Kept s) {name : Name} {time : Int} (hc : s.calls[i]? = some (.touching name time))
    (hForward : (s.seen.lookup name).all (fun cur => cur ≤ time) = true)
    (hStep : advance cfg s i ok (.touching name time) = some t) : Kept t := by
  cases hStep
  refine h.move hc rfl (fun r hr => ⟨r, hr, rfl, fun _ hCovers => hCovers⟩) ?_ ?_ ?_ (fun _ _ _ hEq => by cases hEq) h.spares
  · intro other noted hCovers
    refine .inl ?_
    dsimp only
    split
    · exact hCovers.note hForward
    · exact hCovers
  · exact fun _ _ hCovers => absurd hCovers not_covers_nil
  · intro p hp
    rcases List.mem_cons.mp hp with rfl | hOld
    · dsimp only
      cases hPrefix : hasEnrolledPrefix name with
      | false => exact .inr (.inr rfl)
      | true => exact .inr (.inl ⟨time, Buffer.lookup_note_self, Int.le_refl _⟩)
    · exact .inl hOld

theorem Kept.write (h : Kept s) {batch : Buffer} {now : Option Int} (hc : s.calls[i]? = some (.writing batch now))
    (hStep : advance cfg s i ok (.writing batch now) = some t) : Kept t := by
  rw [advance] at hStep
  split at hStep
  · cases hStep
    refine h.move hc rfl ?_ (fun _ _ hCovers => .inl hCovers) ?_ (fun _ hp => .inl hp)
      (fun _ _ _ hEq => absurd hEq (afterFlush_ne_reaping now _ _ _)) h.spares
    · intro r hr
      obtain ⟨old, hOld, rfl⟩ := List.mem_map.mp hr
      exact ⟨old, hOld, Seen.foldl_touchRow_name.symm, fun _ hCovers => hCovers.foldl⟩
    · intro name time hCovers
      refine .inr (.inr fun r hr hName => ?_)
      obtain ⟨old, hOld, rfl⟩ := List.mem_map.mp hr
      rw [Seen.foldl_touchRow_name] at hName
      exact Seen.foldl_touchRow_covers (hName ▸ hCovers)
  · cases hStep
    exact h.pass hc rfl (fun _ hr => hr) rfl rfl rfl (fun _ _ _ hEq => by cases hEq) h.spares

theorem Kept.reap (h : Kept s) {victims : List Name} {cutoff : Int} {touched : List (Name × Int)}
    (hc : s.calls[i]? = some (.reaping victims cutoff touched))
    (hStep : advance cfg s i ok (.reaping victims cutoff touched) = some t) : Kept t := by
  have hIdle := h.chosen victims cutoff touched (List.mem_of_getElem? hc)
  cases victims with
  | nil =>
    cases hStep
    exact h.pass hc rfl (fun _ hr => hr) rfl rfl rfl (fun _ _ _ hEq => by cases hEq) h.spares
  | cons name victims =>
    have hRest : ∀ victims' cutoff' touched', Call.reaping victims cutoff touched = .reaping victims' cutoff' touched' →
        ∀ n ∈ victims', ∀ time, (n, time) ∈ touched' → time < cutoff' := by
      intro victims' cutoff' touched' hEq
      cases hEq
      exact fun n hn => hIdle n (List.mem_cons_of_mem _ hn)
    rw [advance] at hStep
    split at hStep
    · cases hStep
      refine h.pass hc rfl (fun _ hr => (List.mem_filter.mp hr).1) rfl rfl rfl hRest fun e he => ?_
      rcases List.mem_cons.mp he with rfl | hOld
      · exact hIdle name List.mem_cons_self
      · exact h.spares e hOld
    · cases hStep
      exact h.pass hc rfl (fun _ hr => hr) rfl rfl rfl hRest h.spares

theorem advance_kept (h : Kept s) (hc : s.calls[i]? = some c) (hWritten : Written cfg s (.step i ok))
    (hStep : advance cfg s i ok c = some t) : Kept t := by
  rw [Written, hc] at hWritten
  cases c with
  | touching name time => exact h.touch hc hWritten hStep
  | flushing now =>
    rw [advance] at hStep
    split at hStep
    · cases hStep
      exact h.pass hc rfl (fun _ hr => hr) rfl (afterFlush_batch now) rfl
        (fun _ _ _ hEq => absurd hEq (afterFlush_ne_reaping now _ _ _)) h.spares
    · cases hStep
      exact h.move hc rfl (fun r hr => ⟨r, hr, rfl, fun _ hCovers => hCovers⟩) (fun _ _ hCovers => .inr hCovers)
        (fun _ _ hCovers => absurd hCovers not_covers_nil) (fun _ hp => .inl hp) (fun _ _ _ hEq => by cases hEq) h.spares
  | writing batch now => exact h.write hc hStep
  | rebuffering batch now =>
    cases hStep
    exact h.move hc rfl (fun r hr => ⟨r, hr, rfl, fun _ hCovers => hCovers⟩) (fun _ _ hCovers => .inl hCovers.rebuffer)
      (fun _ _ hCovers => .inl (Buffer.covers_rebuffer_of_batch hCovers)) (fun _ hp => .inl hp)
      (fun _ _ _ hEq => absurd hEq (afterFlush_ne_reaping now _ _ _)) h.spares
  | scanning now =>
    rw [advance] at hStep
    split at hStep
    · cases hStep
      refine h.pass hc rfl (fun _ hr => hr) rfl rfl rfl ?_ h.spares
      intro victims cutoff touched hEq
      cases hEq
      exact h.chosen_idle hWritten
    · cases hStep
      exact h.pass hc rfl (fun _ hr => hr) rfl rfl rfl (fun _ _ _ hEq => by cases hEq) h.spares
  | reaping victims cutoff touched => exact h.reap hc hStep
  | deleting name =>
    rw [advance] at hStep
    split at hStep
    · cases hStep
      exact h.pass hc rfl (fun _ hr => (List.mem_filter.mp hr).1) rfl rfl rfl (fun _ _ _ hEq => by cases hEq) h.spares
    · cases hStep
      exact h.pass hc rfl (fun _ hr => hr) rfl rfl rfl (fun _ _ _ hEq => by cases hEq) h.spares
  | returned => cases hStep

theorem Kept.start (h : Kept s) {c : Call} (hNot : ∀ victims cutoff touched, c ≠ .reaping victims cutoff touched) :
    Kept (s.start c) := by
  refine ⟨h.names, fun p hp => ?_, fun victims cutoff touched hMem => ?_, h.spares⟩
  · refine (h.covered p hp).imp_left fun ⟨b, hb, hCovers⟩ => ⟨b, ?_, hCovers⟩
    rcases List.mem_cons.mp hb with rfl | hCall
    · exact List.mem_cons_self
    · obtain ⟨e, he, rfl⟩ := List.mem_map.mp hCall
      exact List.mem_cons_of_mem _ (List.mem_map_of_mem (List.mem_append_left _ he))
  · rcases List.mem_append.mp hMem with hOld | hNew
    · exact h.chosen victims cutoff touched hOld
    · exact absurd (List.mem_singleton.mp hNew).symm (hNot victims cutoff touched)

theorem step_kept {a : Action} (h : Kept s) (hWritten : Written cfg s a) (hStep : step cfg s a = some t) : Kept t := by
  cases a with
  | touch name time | reap now =>
    cases hStep
    refine h.start fun _ _ _ hEq => ?_
    split at hEq <;> cases hEq
  | flush | delete name =>
    cases hStep
    exact h.start fun _ _ _ hEq => by cases hEq
  | step i ok =>
    obtain ⟨c, hc, hStep⟩ := Option.bind_eq_some_iff.mp hStep
    exact advance_kept h hc hWritten hStep

/-- The reaper spares whoever was active since its cutoff, in every run in which no later
activity waits to be written when it chooses. -/
theorem idle_gc_spares_active (cfg : Config) (table : List Seen) (hNames : ∀ r ∈ table, hasEnrolledPrefix r.name = true)
    (actions : List Action) (hWritten : Guarded (step cfg) (Written cfg) (init table) actions) :
    Always (step cfg) SparesActive (init table) actions := by
  have hAlways : Always (step cfg) Kept (init table) actions :=
    always_of_guarded (fun s a t h hCond hStep => step_kept h hCond hStep) (init_kept hNames) hWritten
  exact hAlways.mono fun s h => h.spares

/-- A principal with a row of long ago is active at 100; a reaper of ten seconds runs at 105,
and `ok` tells whether it can write the buffer. -/
def touchedThenReaped (ok : Bool) : List Action :=
  [.touch "u_a" 100, .step 0 true, .reap 105, .step 1 true, .step 1 ok, .step 1 true, .step 1 true, .step 1 true]

theorem touched_principal_spared :
    Always (step ⟨10000000000⟩) SparesActive (init [⟨"u_a", 0, none⟩, ⟨"u_b", 0, some 50⟩]) (touchedThenReaped true) :=
  idle_gc_spares_active ⟨10000000000⟩ _ (by decide +kernel) _ (by decide +kernel)

theorem active_principal_removed :
    ¬ Always (step ⟨10000000000⟩) SparesActive (init [⟨"u_a", 0, none⟩]) (touchedThenReaped false) := by
  intro hAlways
  have hRun : (run (step ⟨10000000000⟩) (init [⟨"u_a", 0, none⟩]) (touchedThenReaped false)).map (fun s => s.evicted) =
      some [⟨"u_a", 95, [("u_a", 100)]⟩] := by
    decide +kernel
  obtain ⟨s, hs, hEvicted⟩ := Option.map_eq_some_iff.mp hRun
  have hMem : ⟨"u_a", 95, [("u_a", 100)]⟩ ∈ s.evicted := hEvicted ▸ List.mem_singleton_self _
  have hSpared : (100 : Int) < 95 := hAlways.final hs _ hMem 100 (List.mem_singleton_self _)
  omega

end Tracker

end QuicSql.Enroll
