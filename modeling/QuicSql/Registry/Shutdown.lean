import QuicSql.Lib.Tally
import QuicSql.Registry.Steps

/-!
# Closing the registry

`Close` takes every entry off the map in one section, waits for each of them until its open
attempt is over, and closes the handle it then finds. Reapers, reservations, removals and
openers that were under way go on meanwhile. What is counted is how often `Handle.Close` is
called on each handle.
-/

namespace QuicSql.Registry.Shutdown

open Lib

inductive Stage where
  | wait
  | fireHook
  | enterClose
  | inClose
deriving DecidableEq, Repr

inductive Phase where
  | before
  | pending (todo : List EntryId) (hook : Bool) (stage : Stage)
  | returned
deriving DecidableEq, Repr

structure State where
  base : Registry.State
  phase : Phase
  errs : List (DbName × String)
  closes : HandleId → Nat

/-- A step of `Close` is taken with what `Handle.Close` answers where it returns. -/
inductive Action where
  | base (act : Registry.Action)
  | lock (order : List DbName)
  | next (failure : Option String)

def init (backends : Finmap (fun _ : DbName => Backend)) : State where
  base := Registry.init backends
  phase := .before
  errs := []
  closes := fun _ => 0

def count (closes : HandleId → Nat) (h : HandleId) : HandleId → Nat := Function.update closes h (closes h + 1)

/-- The handle whose `Close` is called by the step that the call takes next. -/
def enters : Call → Choice → Option HandleId
  | .closing _ (db :: _) .enterClose, .next => some db.handle
  | _, _ => none

def State.entered (s : State) : Registry.Action → Option HandleId
  | .step i choice => s.base.calls[i]?.bind (enters · choice)
  | _ => none

def State.withReg (s : State) (reg : Registry) (phase : Phase) : State :=
  { s with base := { s.base with reg := reg }, phase := phase }

/-- The section under the mutex; `order` is the order in which the map is ranged over. -/
def State.lock (s : State) (order : List DbName) : State :=
  s.withReg { s.base.reg with entries := ∅ }
    (.pending (order.filterMap s.base.reg.entries.lookup) s.base.reg.onClose .wait)

/-- The loop over the entries that were taken. The hook is given the handle before it is closed. -/
def State.next (s : State) (failure : Option String) : Option State :=
  match s.phase with
  | .pending [] _ _ => some { s with phase := .returned }
  | .pending (e :: rest) hook .wait =>
    if (s.base.reg.heap e).ready then
      match (s.base.reg.heap e).db with
      | none => some { s with phase := .pending rest hook .wait }
      | some _ => some { s with phase := .pending (e :: rest) hook .fireHook }
    else none
  | .pending (e :: rest) hook .fireHook => some { s with phase := .pending (e :: rest) hook .enterClose }
  | .pending (e :: rest) hook .enterClose =>
    (s.base.reg.heap e).db.map fun db =>
      { s.withReg (s.base.reg.setStatus db.handle .closing) (.pending (e :: rest) hook .inClose) with
        closes := count s.closes db.handle }
  | .pending (e :: rest) hook .inClose =>
    (s.base.reg.heap e).db.map fun db =>
      { s.withReg (s.base.reg.setStatus db.handle .closed) (.pending rest hook .wait) with
        errs := s.errs ++ failure.toList.map fun err => ((s.base.reg.heap e).name, err) }
  | .before | .returned => none

def step (s : State) : Action → Option State
  | .base act =>
    (Registry.step s.base act).map fun base =>
      { s with base := base, closes := (s.entered act).elim s.closes (count s.closes) }
  | .lock order =>
    if s.phase = .before ∧ order.Nodup ∧ order.toFinset = s.base.reg.entries.keys then some (s.lock order) else none
  | .next failure => s.next failure

/-- A `Get` that has not come to an entry of its own could open a database anew. -/
def getting : Call → Bool
  | .get _ | .waiting _ _ | .relock _ _ => true
  | _ => false

/-- Callers have stopped: no `Get` is on its way when `Close` takes the lock, and none is made later. -/
def Quiet (s : State) : Action → Prop
  | .lock _ => ∀ c ∈ s.base.calls, getting c = false
  | .base (.call (.get _)) => s.phase = .before
  | _ => True

instance (s : State) (act : Action) : Decidable (Quiet s act) :=
  match act with
  | .lock _ => inferInstanceAs (Decidable (∀ c ∈ s.base.calls, getting c = false))
  | .base (.call (.get _)) => inferInstanceAs (Decidable (s.phase = .before))
  | .base (.call (.reserve _)) | .base (.call (.add _ _)) | .base (.call (.remove _)) | .base (.call (.reapIdle _))
  | .base (.step _ _) | .base (.tick _) | .next _ => isTrue trivial

/-! ## Accounts -/

/-- Which handles a call has in hand, and how far they have come. -/
def tokens : Call → List (HandleId × HandleStatus)
  | .opened _ _ (.ok h) => [(h, .open)]
  | .closing _ (db :: rest) .inClose => (db.handle, .closing) :: rest.map fun d => (d.handle, .detached)
  | .closing _ todo _ => todo.map fun d => (d.handle, .detached)
  | _ => []

def entryTokens (r : Registry) (status : HandleStatus) (e : EntryId) : List (HandleId × HandleStatus) :=
  (r.heap e).db.toList.map fun db => (db.handle, status)

def Phase.tokens (r : Registry) : Phase → List (HandleId × HandleStatus)
  | .pending (e :: rest) _ .inClose => entryTokens r .closing e ++ rest.flatMap (entryTokens r .open)
  | .pending todo _ _ => todo.flatMap (entryTokens r .open)
  | .before | .returned => []

def Phase.todo : Phase → List EntryId
  | .pending todo _ _ => todo
  | .before | .returned => []

def Phase.stage : Phase → Stage
  | .pending _ _ stage => stage
  | .before | .returned => .wait

def State.tokens (s : State) : List (HandleId × HandleStatus) :=
  s.base.calls.flatMap Shutdown.tokens ++ s.phase.tokens s.base.reg

def stands (r : Registry) (h : HandleId) (status : HandleStatus) : Nat :=
  if h < r.nextHandle ∧ (r.handles h).status = status then 1 else 0

/-- The call is bringing about that the entry is ready. -/
def opener (e : EntryId) : Call → Bool
  | .opening _ e' | .opened _ e' _ | .signal _ e' _ => e = e'
  | _ => false

/-- The opener has yet to put its handle into the entry. -/
def publishing (e : EntryId) : Call → Bool
  | .opening _ e' | .opened _ e' _ => e = e'
  | _ => false

/-- How many steps an opener still takes until its entry is ready. -/
def work : Call → Nat
  | .opening _ _ => 3
  | .opened _ _ _ => 2
  | .signal _ _ _ => 1
  | _ => 0

def unready (r : Registry) (e : EntryId) : Nat := if e < r.nextEntry ∧ (r.heap e).ready = false then 1 else 0

/-- Every handle on its way to be closed is in one hand, every entry that is not ready has one
opener, and a handle was closed once if it has come that far. Before `Close` the open handles
are on the map, where no hand has them. -/
structure Accounts (s : State) : Prop where
  token : ∀ h status, status ≠ .closed → (status = .open → s.phase ≠ .before) →
    s.tokens.count (h, status) = stands s.base.reg h status
  closes : ∀ h, s.closes h = stands s.base.reg h .closing + stands s.base.reg h .closed
  opener : ∀ e, s.base.calls.countP (opener e) = unready s.base.reg e

/-! ## What a call does to the handles -/

/-- What is on the map and has a handle serves the database it is named after. -/
def Served (r : Registry) : Prop :=
  ∀ name e db, r.entries.lookup name = some e → (r.heap e).db = some db → Usable r name db.handle

/-- What the entries have for `Close` is the same, and an entry that came to the map is empty. -/
structure Keeps (r r' : Registry) : Prop where
  nextEntry : r.nextEntry ≤ r'.nextEntry
  db : ∀ e, e < r.nextEntry → (r'.heap e).db = (r.heap e).db
  unready : ∀ e, unready r' e = unready r e
  entries : ∀ name e, r'.entries.lookup name = some e →
    r.entries.lookup name = some e ∨ (r.nextEntry ≤ e ∧ e < r'.nextEntry ∧ (r'.heap e).db = none)

structure Alike (c c' : Call) : Prop where
  tokens : tokens c' = tokens c
  opener : ∀ e, opener e c' = opener e c
  publishing : ∀ e, publishing e c' = true → publishing e c = true
  getting : getting c' = true → getting c = true
  work : work c' = 0 ∨ work c' < work c

structure Free (c : Call) : Prop where
  tokens : tokens c = []
  opener : ∀ e, opener e c = false
  publishing : ∀ e, publishing e c = false
  getting : getting c = false

/-- All that the step of a call can do; `entered` is the handle whose `Close` it calls. -/
inductive Moves (r : Registry) (c : Call) (r' : Registry) (c' : Call) (entered : Option HandleId) : Prop
  | still (hNext : r'.nextHandle = r.nextHandle) (hHandles : r'.handles = r.handles) (hKeeps : Keeps r r')
      (hAlike : Alike c c') (hEntered : entered = none)
  | installs (name : DbName) (be : Backend) (hr : r' = r.install name (Registry.opener name be))
      (hc : c = .get name) (hc' : c' = .opening name r.nextEntry) (hEntered : entered = none)
  | opens (name : DbName) (e : EntryId) (hr : r' = r.openHandle name) (hc : c = .opening name e)
      (hc' : c' = .opened name e (.ok r.nextHandle)) (hEntered : entered = none)
  | publishes (name : DbName) (e : EntryId) (h : HandleId) (hr : r' = r.publish name e h)
      (hc : c = .opened name e (.ok h)) (hc' : c' = .signal name e (.ok (r.sharedDB name e h)))
      (hEntered : entered = none)
  | signals (name : DbName) (e : EntryId) (result : Except Err DB) (hr : r' = r.signalReady e)
      (hc : c = .signal name e result) (hc' : Free c') (hEntered : entered = none)
  | detaches (dbs : List DB) (hNext : r'.nextHandle = r.nextHandle) (hKeeps : Keeps r r')
      (hNodup : (dbs.map DB.handle).Nodup)
      (hFound : ∀ d ∈ dbs, ∃ name e, r.entries.lookup name = some e ∧ (r.heap e).db = some d)
      (hStatus : ∀ h, (r'.handles h).status = if h ∈ dbs.map DB.handle then .detached else (r.handles h).status)
      (purpose : CloseFor) (hc : Free c) (hc' : c' = .closing purpose dbs .readHook) (hEntered : entered = none)
  | enters (purpose : CloseFor) (db : DB) (rest : List DB) (hr : r' = r.setStatus db.handle .closing)
      (hc : c = .closing purpose (db :: rest) .enterClose) (hc' : c' = .closing purpose (db :: rest) .inClose)
      (hEntered : entered = some db.handle)
  | leaves (purpose : CloseFor) (db : DB) (rest : List DB) (hr : r' = r.setStatus db.handle .closed)
      (hc : c = .closing purpose (db :: rest) .inClose) (hc' : c' = .closing purpose rest .readHook)
      (hEntered : entered = none)

/-- Entries may leave the map; the backends and the hook are not looked at. -/
theorem keeps_of_heap {r r' : Registry} (hNext : r'.nextEntry = r.nextEntry) (hHeap : r'.heap = r.heap)
    (hEntries : ∀ name e, r'.entries.lookup name = some e → r.entries.lookup name = some e) : Keeps r r' := by
  refine ⟨hNext.ge, fun e _ => by rw [hHeap], fun e => ?_, fun name e h => .inl (hEntries name e h)⟩
  rw [unready, unready, hNext, hHeap]

theorem Keeps.refl (r : Registry) : Keeps r r := keeps_of_heap rfl rfl fun _ _ h => h

theorem Keeps.trans {r r₁ r₂ : Registry} (h : Keeps r r₁) (h' : Keeps r₁ r₂) : Keeps r r₂ where
  nextEntry := h.nextEntry.trans h'.nextEntry
  db e he := (h'.db e (he.trans_le h.nextEntry)).trans (h.db e he)
  unready e := (h'.unready e).trans (h.unready e)
  entries name e hLookup := by
    rcases h'.entries name e hLookup with hOld | ⟨hNew, hLt, hDb⟩
    · rcases h.entries name e hOld with hOld | ⟨hNew, hLt, hDb⟩
      · exact .inl hOld
      · exact .inr ⟨hNew, hLt.trans_le h'.nextEntry, (h'.db e hLt).trans hDb⟩
    · exact .inr ⟨h.nextEntry.trans hNew, hLt, hDb⟩

theorem keeps_erase (r : Registry) (name : DbName) : Keeps r { r with entries := r.entries.erase name } :=
  keeps_of_heap rfl rfl fun _ _ h => (of_lookup_erase h).2

theorem keeps_setEntry {r : Registry} {e : EntryId} {entry : Entry} (hDb : entry.db = (r.heap e).db)
    (hReady : entry.ready = (r.heap e).ready) : Keeps r (r.setEntry e entry) := by
  have hHeap : ∀ e', ((r.setEntry e entry).heap e').db = (r.heap e').db ∧
      ((r.setEntry e entry).heap e').ready = (r.heap e').ready := by
    intro e'
    change (Function.update r.heap e entry e').db = _ ∧ (Function.update r.heap e entry e').ready = _
    rcases eq_or_ne e' e with rfl | hNe
    · rw [Function.update_self]
      exact ⟨hDb, hReady⟩
    · rw [Function.update_of_ne hNe]
      exact ⟨rfl, rfl⟩
  refine ⟨Nat.le_refl _, fun e' _ => (hHeap e').1, fun e' => ?_, fun _ _ h => .inl h⟩
  rw [unready, unready, (hHeap e').2]
  rfl

theorem keeps_dropPoisoned (r : Registry) (name : DbName) (e : EntryId) (err : Err) :
    Keeps r (r.dropPoisoned name e err) := by
  have hSet : Keeps r (r.setEntry e { r.heap e with opening := false, err := some err, refs := 0 }) :=
    keeps_setEntry rfl rfl
  exact hSet.trans (keeps_erase _ name)

theorem lt_succ_iff_of_ne {k n : Nat} (h : k ≠ n) : k < n + 1 ↔ k < n :=
  ⟨fun hLt => Nat.lt_of_le_of_ne (Nat.le_of_lt_succ hLt) h, fun hLt => Nat.lt_succ_of_lt hLt⟩

theorem keeps_install_placeholder (r : Registry) (name : DbName) :
    Keeps r (r.install name (placeholder name)) := by
  have hHeap : ∀ e, e ≠ r.nextEntry → (r.install name (placeholder name)).heap e = r.heap e := fun e hNe =>
    Function.update_of_ne hNe _ _
  have hNew : (r.install name (placeholder name)).heap r.nextEntry = placeholder name := Function.update_self ..
  refine ⟨Nat.le_succ _, fun e he => by rw [hHeap e (Nat.ne_of_lt he)], fun e => ?_, fun name' e hLookup => ?_⟩
  · change (if e < r.nextEntry + 1 ∧ _ then 1 else 0) = (if e < r.nextEntry ∧ _ then 1 else 0)
    rcases eq_or_ne e r.nextEntry with rfl | hNe
    · rw [hNew]
      simp [placeholder]
    · rw [hHeap e hNe]
      simp only [lt_succ_iff_of_ne hNe]
  · change (r.entries.insert name r.nextEntry).lookup name' = some e at hLookup
    rcases eq_or_ne name' name with rfl | hNe
    · rw [Finmap.lookup_insert] at hLookup
      cases hLookup
      rw [hNew]
      exact .inr ⟨Nat.le_refl _, Nat.lt_succ_self _, rfl⟩
    · rw [Finmap.lookup_insert_of_ne _ hNe] at hLookup
      exact .inl hLookup

/-- The result of taking idle entries off the map, one after another. -/
structure Detached (r r' : Registry) (dbs : List DB) : Prop where
  nextHandle : r'.nextHandle = r.nextHandle
  nextEntry : r'.nextEntry = r.nextEntry
  heap : r'.heap = r.heap
  entries : ∀ name e, r'.entries.lookup name = some e → r.entries.lookup name = some e
  served : Served r'
  nodup : (dbs.map DB.handle).Nodup
  found : ∀ d ∈ dbs, ∃ name e, r.entries.lookup name = some e ∧ (r.heap e).db = some d
  status : ∀ h, (r'.handles h).status = if h ∈ dbs.map DB.handle then .detached else (r.handles h).status

theorem Detached.refl {r : Registry} (h : Served r) : Detached r r [] :=
  ⟨rfl, rfl, rfl, fun _ _ hLookup => hLookup, h, List.nodup_nil, by simp, by simp⟩

theorem stands_of_usable {r : Registry} {name : DbName} {h : HandleId} (hUsable : Usable r name h) :
    stands r h .open = 1 := by
  rw [stands, if_pos ⟨hUsable.1, by rw [hUsable.2]⟩]

theorem detach_heap (r : Registry) (name : DbName) (e : EntryId) : (r.detach name e).heap = r.heap := by
  unfold detach
  split <;> rfl

theorem setStatus_status {r : Registry} {h : HandleId} (hNot : (r.handles h).status ≠ .closed) (status : HandleStatus)
    (k : HandleId) : ((r.setStatus h status).handles k).status = if k = h then status else (r.handles k).status := by
  rw [(setStatus_handles r h k status).2]
  simp [hNot]

theorem Detached.detach {r r' : Registry} {dbs : List DB} (h : Detached r r' dbs) {name : DbName} {e : EntryId}
    {db : DB} (hLookup : r'.entries.lookup name = some e) (hDb : (r'.heap e).db = some db) :
    Detached r (r'.detach name e) (dbs ++ [db]) := by
  have hUsable := h.served name e db hLookup hDb
  have hDetach : r'.detach name e = { r' with entries := r'.entries.erase name }.setStatus db.handle .detached := by
    simp only [Registry.detach, hDb]
  have hNotIn : db.handle ∉ dbs.map DB.handle := by
    intro hIn
    have hStatus := h.status db.handle
    rw [if_pos hIn, hUsable.2] at hStatus
    cases hStatus
  have hStatus' : ∀ k, ((r'.detach name e).handles k).status =
      if k = db.handle then .detached else (r'.handles k).status := by
    intro k
    rw [hDetach]
    refine setStatus_status ?_ .detached k
    change (r'.handles db.handle).status ≠ .closed
    rw [hUsable.2]
    intro hEq
    cases hEq
  have hErase : ∀ name' e', (r'.detach name e).entries.lookup name' = some e' →
      name' ≠ name ∧ r'.entries.lookup name' = some e' := by
    intro name' e' hLookup'
    rw [hDetach] at hLookup'
    exact of_lookup_erase hLookup'
  constructor
  · rw [hDetach]
    exact h.nextHandle
  · rw [hDetach]
    exact h.nextEntry
  · rw [detach_heap]
    exact h.heap
  · exact fun name' e' hLookup' => h.entries name' e' (hErase name' e' hLookup').2
  · intro name' e' db' hLookup' hDb'
    rw [detach_heap] at hDb'
    obtain ⟨hName, hOld⟩ := hErase name' e' hLookup'
    have hUsable' := h.served name' e' db' hOld hDb'
    -- Handles of two names are two handles.
    have hNe : db'.handle ≠ db.handle := by
      intro hEq
      rw [hEq] at hUsable'
      exact hName (congrArg Handle.name (hUsable'.2.symm.trans hUsable.2))
    rw [hDetach]
    exact setStatus_usable hNe hUsable'
  · rw [List.map_append, List.map_singleton]
    exact List.nodup_append.mpr ⟨h.nodup, List.nodup_singleton _, fun k hk k' hk' => by
      rw [List.mem_singleton.mp hk']
      rintro rfl
      exact hNotIn hk⟩
  · intro d hd
    rcases List.mem_append.mp hd with hd | hd
    · exact h.found d hd
    · cases List.mem_singleton.mp hd
      exact ⟨name, e, h.entries name e hLookup, h.heap ▸ hDb⟩
  · intro k
    rw [hStatus', h.status, List.map_append, List.map_singleton]
    rcases eq_or_ne k db.handle with rfl | hNe
    · simp
    · simp [hNe]

theorem detached_detachIdleLocked {r r' : Registry} {name : DbName} {db : Option DB} (h : Served r)
    (hDetach : r.detachIdleLocked name = .ok (r', db)) : Detached r r' db.toList := by
  unfold detachIdleLocked at hDetach
  split at hDetach
  · cases hDetach
    exact .refl h
  · rename_i e hLookup
    split at hDetach
    · cases hDetach
    · cases hDetach
      cases hDb : (r.heap e).db with
      | none =>
        have hErase : r.detach name e = { r with entries := r.entries.erase name } := by
          simp only [Registry.detach, hDb]
        rw [hErase]
        refine ⟨rfl, rfl, rfl, fun _ _ hLookup' => (of_lookup_erase hLookup').2, ?_, List.nodup_nil, by simp, by simp⟩
        intro name' e' db' hLookup' hDb'
        exact h name' e' db' (of_lookup_erase hLookup').2 hDb'
      | some db => exact (Detached.refl h).detach hLookup hDb

theorem detached_reapIdle {r : Registry} (h : Served r) (idleTTL now : Time) (order : List DbName) :
    Detached r (r.reapIdle idleTTL now order).1 (r.reapIdle idleTTL now order).2 := by
  suffices hFold : ∀ acc : Registry × List DB, Detached r acc.1 acc.2 →
      Detached r (order.foldl (reapOne idleTTL now) acc).1 (order.foldl (reapOne idleTTL now) acc).2 from
    hFold (r, []) (.refl h)
  induction order with
  | nil => exact fun acc hAcc => hAcc
  | cons name rest ih =>
    intro acc hAcc
    refine ih _ ?_
    unfold reapOne
    split
    · exact hAcc
    · rename_i e hLookup
      split
      · exact hAcc
      · rename_i db hDb
        split
        · exact hAcc
        · exact hAcc.detach hLookup hDb

theorem tokens_closing {purpose : CloseFor} {todo : List DB} {stage : CloseStage} (h : stage ≠ .inClose) :
    tokens (.closing purpose todo stage) = todo.map fun d => (d.handle, .detached) := by
  cases todo with
  | nil => cases stage <;> rfl
  | cons db rest =>
    cases stage with
    | inClose => exact absurd rfl h
    | readHook | fireHook | enterClose => rfl

theorem Detached.moves {r r' r'' : Registry} {dbs : List DB} {c : Call} {purpose : CloseFor} (h : Detached r r' dbs)
    (hNext : r''.nextHandle = r'.nextHandle) (hHandles : r''.handles = r'.handles) (hKeeps : Keeps r' r'')
    (hc : Free c) : Moves r c r'' (.closing purpose dbs .readHook) none := by
  refine .detaches dbs (hNext.trans h.nextHandle) ?_ h.nodup h.found ?_ purpose hc rfl rfl
  · exact (keeps_of_heap h.nextEntry h.heap h.entries).trans hKeeps
  · rw [hHandles]
    exact h.status

theorem work_free {c : Call} (h : Free c) : work c = 0 := by
  cases c with
  | opening name e => cases (h.opener e).symm.trans (decide_eq_true rfl)
  | opened name e result => cases (h.opener e).symm.trans (decide_eq_true rfl)
  | signal name e result => cases (h.opener e).symm.trans (decide_eq_true rfl)
  | _ => rfl

theorem Free.alike {c c' : Call} (h : Free c) (h' : Free c') : Alike c c' where
  tokens := h'.tokens.trans h.tokens.symm
  opener e := (h'.opener e).trans (h.opener e).symm
  publishing e hTrue := by cases (h'.publishing e).symm.trans hTrue
  getting hTrue := by cases h'.getting.symm.trans hTrue
  work := .inl (work_free h')

theorem alike_of_getting {c c' : Call} (h : getting c = true) (h' : getting c' = true ∨ Free c') : Alike c c' := by
  have hNone : ∀ {d : Call}, getting d = true → tokens d = [] ∧ (∀ e, opener e d = false) ∧
      (∀ e, publishing e d = false) ∧ work d = 0 := by
    intro d hd
    cases d with
    | get | waiting | relock => exact ⟨rfl, fun _ => rfl, fun _ => rfl, rfl⟩
    | _ => cases hd
  obtain ⟨hTokens, hOpener, _⟩ := hNone h
  obtain ⟨hTokens', hOpener', hPublishing', hWork'⟩ := h'.elim hNone fun hFree =>
    ⟨hFree.tokens, hFree.opener, hFree.publishing, work_free hFree⟩
  refine ⟨hTokens'.trans hTokens.symm, fun e => (hOpener' e).trans (hOpener e).symm, fun e hTrue => ?_, fun _ => h,
    .inl hWork'⟩
  cases (hPublishing' e).symm.trans hTrue

variable {r r' : Registry} {c c' : Call} {entered : Option HandleId}

theorem Moves.of_free (hNext : r'.nextHandle = r.nextHandle)
    (hHandles : r'.handles = r.handles) (hKeeps : Keeps r r') (hc : Free c) (hc' : Free c') : Moves r c r' c' none :=
  .still hNext hHandles hKeeps (hc.alike hc') rfl

theorem Moves.of_getting (hNext : r'.nextHandle = r.nextHandle)
    (hHandles : r'.handles = r.handles) (hKeeps : Keeps r r') (hc : getting c = true)
    (hc' : getting c' = true ∨ Free c') : Moves r c r' c' none :=
  .still hNext hHandles hKeeps (alike_of_getting hc hc') rfl

/-- The places of a call at which it holds nothing that `Close` is concerned with. -/
def idle : Call → Bool
  | .returning _ _ _ | .holding _ _ _ | .released _ _ | .reserve _ | .reserved _ | .add _ _ | .remove _ | .reapIdle _
  | .reapLock _ _ | .closing _ [] _ | .failed _ | .done _ => true
  | _ => false

theorem free_of_idle {c : Call} (h : idle c = true) : Free c := by
  cases c with
  | closing purpose todo stage =>
    cases todo with
    | nil => exact ⟨by cases stage <;> rfl, fun _ => rfl, fun _ => rfl, rfl⟩
    | cons db rest => cases h
  | get | opening | opened | signal | waiting | relock => cases h
  | _ => exact ⟨rfl, fun _ => rfl, fun _ => rfl, rfl⟩

/-- A call that has nothing in hand went on without touching the registry. -/
theorem Moves.of_idle (hc : idle c = true) (hc' : idle c' = true) : Moves r c r c' none :=
  .of_free rfl rfl (.refl r) (free_of_idle hc) (free_of_idle hc')

theorem free_closeDone (purpose : CloseFor) : Free (closeDone purpose) := by
  cases purpose with
  | reserve | remove | reap => exact free_of_idle rfl

theorem moves_closeStep (r : Registry) (purpose : CloseFor) (todo : List DB) (stage : CloseStage) :
    Moves r (.closing purpose todo stage) (closeStep r purpose todo stage).1 (closeStep r purpose todo stage).2
      (enters (.closing purpose todo stage) .next) := by
  cases todo with
  | nil =>
    have hNone : enters (.closing purpose [] stage) .next = none := by cases stage <;> rfl
    rw [hNone]
    exact .of_free rfl rfl (.refl r) (free_of_idle rfl) (free_closeDone purpose)
  | cons db rest =>
    cases stage with
    | readHook | fireHook =>
      exact .still rfl rfl (.refl r) ⟨rfl, fun _ => rfl, fun _ h => h, fun h => h, .inl rfl⟩ rfl
    | enterClose => exact .enters purpose db rest rfl rfl rfl rfl
    | inClose => exact .leaves purpose db rest rfl rfl rfl rfl

theorem moves_getLocked (r : Registry) (name : DbName) :
    Moves r (.get name) (getLocked r name).1 (getLocked r name).2 none := by
  unfold getLocked
  split
  · exact .of_getting rfl rfl (.refl r) rfl (.inl rfl)
  · split
    · exact .of_getting rfl rfl (.refl r) rfl (.inr (free_of_idle rfl))
    · exact .installs _ _ rfl rfl rfl rfl

theorem moves_getRelocked (r : Registry) (name : DbName) (e : EntryId) :
    Moves r (.relock name e) (getRelocked r name e).1 (getRelocked r name e).2 none := by
  unfold getRelocked
  split
  · exact .of_getting rfl rfl (.refl r) rfl (.inl rfl)
  · split
    · exact .of_getting rfl rfl (.refl r) rfl (.inr (free_of_idle rfl))
    · split
      · exact .of_getting rfl rfl (.refl r) rfl (.inr (free_of_idle rfl))
      · exact .of_getting rfl rfl (keeps_setEntry rfl rfl) rfl (.inr (free_of_idle rfl))

theorem moves_of_callStep {choice : Choice} (hServed : Served r)
    (h : callStep r c choice = some (r', c')) : Moves r c r' c' (enters c choice) := by
  unfold callStep at h
  split at h
  · obtain ⟨rfl, rfl⟩ := Prod.ext_iff.mp (Option.some.inj h)
    exact moves_getLocked r _
  · cases h
    exact .opens _ _ rfl rfl rfl rfl
  · cases h
    exact .still rfl rfl (.refl r) ⟨rfl, fun _ => rfl, fun _ h => h, fun h => h, .inr (Nat.lt_succ_self 2)⟩ rfl
  · cases h
    refine .still rfl rfl ?_ ⟨rfl, fun _ => rfl, fun _ h => (by cases h), fun h => h, .inr (Nat.lt_succ_self 1)⟩ rfl
    exact keeps_dropPoisoned r _ _ _
  · cases h
    exact .publishes _ _ _ rfl rfl rfl rfl
  · cases h
    exact .signals _ _ _ rfl rfl (free_of_idle rfl) rfl
  · cases h
    exact .signals _ _ _ rfl rfl (free_of_idle rfl) rfl
  · split at h
    · cases h
      exact .of_getting rfl rfl (.refl r) rfl (.inl rfl)
    · cases h
  · cases h
    exact .of_getting rfl rfl (.refl r) rfl (.inr (free_of_idle rfl))
  · obtain ⟨rfl, rfl⟩ := Prod.ext_iff.mp (Option.some.inj h)
    exact moves_getRelocked r _ _
  · cases h
    exact .of_idle rfl rfl
  · cases h
    exact .of_free rfl rfl (keeps_setEntry rfl rfl) (free_of_idle rfl) (free_of_idle rfl)
  · cases h
    exact .of_idle rfl rfl
  · split at h
    · cases h
      exact .of_idle rfl rfl
    · rename_i hReserve
      cases h
      unfold reserve at hReserve
      split at hReserve
      · cases hReserve
      · split at hReserve
        · cases hReserve
        · rename_i hDetach
          cases hReserve
          exact (detached_detachIdleLocked hServed hDetach).moves rfl rfl (keeps_install_placeholder _ _)
            (free_of_idle rfl)
  · cases h
    exact .of_free rfl rfl (keeps_erase r _) (free_of_idle rfl) (free_of_idle rfl)
  · split at h
    · cases h
      exact .of_idle rfl rfl
    · rename_i hAdd
      cases h
      unfold add at hAdd
      split at hAdd
      · cases hAdd
      · cases hAdd
        exact .of_free rfl rfl (keeps_of_heap rfl rfl fun _ _ h => h) (free_of_idle rfl) (free_of_idle rfl)
  · split at h
    · cases h
      exact .of_idle rfl rfl
    · rename_i hRemove
      cases h
      unfold remove at hRemove
      split at hRemove
      · cases hRemove
      · split at hRemove
        · cases hRemove
        · rename_i hDetach
          cases hRemove
          exact (detached_detachIdleLocked hServed hDetach).moves rfl rfl (keeps_of_heap rfl rfl fun _ _ h => h)
            (free_of_idle rfl)
  · split at h
    · cases h
      exact .of_idle rfl rfl
    · cases h
      exact .of_idle rfl rfl
  · split at h
    · cases h
      exact (detached_reapIdle hServed _ _ _).moves rfl rfl (.refl _) (free_of_idle rfl)
    · cases h
  · obtain ⟨rfl, rfl⟩ := Prod.ext_iff.mp (Option.some.inj h)
    exact moves_closeStep r _ _ _
  · cases h

/-! ## The accounts balance -/

theorem stands_eq_one {h : HandleId} {status : HandleStatus} :
    stands r h status = 1 ↔ h < r.nextHandle ∧ (r.handles h).status = status := by
  unfold stands
  split <;> simp_all

theorem stands_le_one (r : Registry) (h : HandleId) (status : HandleStatus) : stands r h status ≤ 1 := by
  unfold stands
  split <;> simp

theorem unready_le_one (r : Registry) (e : EntryId) : unready r e ≤ 1 := by
  unfold unready
  split <;> simp

theorem stands_congr {r r' : Registry} {h : HandleId} (hNext : r'.nextHandle = r.nextHandle)
    (hStatus : (r'.handles h).status = (r.handles h).status) (status : HandleStatus) :
    stands r' h status = stands r h status := by
  rw [stands, stands, hNext, hStatus]

theorem stands_openHandle (r : Registry) (name : DbName) (h : HandleId) (status : HandleStatus) :
    stands (r.openHandle name) h status = stands r h status + [(r.nextHandle, HandleStatus.open)].count (h, status) := by
  rw [List.count_singleton]
  rcases eq_or_ne h r.nextHandle with rfl | hNe
  · have hNew : (r.openHandle name).handles r.nextHandle = ⟨name, .open⟩ := Function.update_self ..
    have hOld : stands r r.nextHandle status = 0 := by simp [stands]
    rw [hOld, stands, hNew]
    change (if r.nextHandle < r.nextHandle + 1 ∧ HandleStatus.open = status then 1 else 0) = _
    simp
  · have hSame : (r.openHandle name).handles h = r.handles h := Function.update_of_ne hNe _ _
    have hIff : h < (r.openHandle name).nextHandle ↔ h < r.nextHandle := lt_succ_iff_of_ne hNe
    simp only [stands, hSame, hIff, beq_iff_eq, Prod.mk.injEq, hNe.symm, false_and, if_false, Nat.add_zero]

theorem stands_setStatus {h : HandleId} {old : HandleStatus} (hHeld : stands r h old = 1)
    (hNot : old ≠ .closed) (new : HandleStatus) (k : HandleId) (status : HandleStatus) :
    stands (r.setStatus h new) k status + [(h, old)].count (k, status) =
      stands r k status + [(h, new)].count (k, status) := by
  obtain ⟨hLt, hOld⟩ := stands_eq_one.mp hHeld
  have hStatus := setStatus_status (hOld ▸ hNot) new k
  rw [List.count_singleton, List.count_singleton]
  rcases eq_or_ne k h with rfl | hNe
  · have hNext : (r.setStatus k new).nextHandle = r.nextHandle := rfl
    rw [if_pos rfl] at hStatus
    simp only [stands, hNext, hStatus, hOld, hLt, true_and, beq_iff_eq, Prod.mk.injEq]
    omega
  · rw [if_neg hNe] at hStatus
    have hSame : stands (r.setStatus h new) k status = stands r k status := by
      rw [stands, hStatus]
      rfl
    rw [hSame]
    simp [hNe.symm]

theorem count_map_handle (dbs : List DB) (h : HandleId) (status status' : HandleStatus) :
    (dbs.map fun d => (d.handle, status)).count (h, status') =
      if status = status' then (dbs.map DB.handle).count h else 0 := by
  induction dbs with
  | nil => simp
  | cons d rest ih =>
    rw [List.map_cons, List.count_cons, ih, List.map_cons, List.count_cons]
    by_cases hEq : status = status' <;> simp [hEq]

theorem stands_detached {r r' : Registry} {dbs : List DB} (hNext : r'.nextHandle = r.nextHandle)
    (hNodup : (dbs.map DB.handle).Nodup) (hOpen : ∀ d ∈ dbs, stands r d.handle .open = 1)
    (hStatus : ∀ h, (r'.handles h).status = if h ∈ dbs.map DB.handle then .detached else (r.handles h).status)
    (h : HandleId) (status : HandleStatus) :
    stands r' h status + (dbs.map fun d => (d.handle, HandleStatus.open)).count (h, status) =
      stands r h status + (dbs.map fun d => (d.handle, HandleStatus.detached)).count (h, status) := by
  rw [count_map_handle, count_map_handle, hNodup.count]
  by_cases hIn : h ∈ dbs.map DB.handle
  · obtain ⟨d, hd, rfl⟩ := List.mem_map.mp hIn
    obtain ⟨hLt, hOld⟩ := stands_eq_one.mp (hOpen d hd)
    have hNew := hStatus d.handle
    rw [if_pos hIn] at hNew
    simp only [stands, hNext, hNew, hOld, hLt, true_and, hIn, if_true]
    omega
  · have hNew := hStatus h
    rw [if_neg hIn] at hNew
    rw [stands_congr hNext hNew]
    simp [hIn]

def Bare (r : Registry) : Prop := ∀ name e, r.entries.lookup name = some e → (r.heap e).db = none

theorem stands_of_found {dbs : List DB} (hServed : Served r)
    (hFound : ∀ d ∈ dbs, ∃ name e, r.entries.lookup name = some e ∧ (r.heap e).db = some d) :
    ∀ d ∈ dbs, stands r d.handle .open = 1 := by
  intro d hd
  obtain ⟨name, e, hLookup, hDb⟩ := hFound d hd
  exact stands_of_usable (hServed name e d hLookup hDb)

theorem signalReady_db (r : Registry) (e e' : EntryId) : ((r.signalReady e).heap e').db = (r.heap e').db := by
  change (Function.update r.heap e _ e').db = _
  rcases eq_or_ne e' e with rfl | hNe
  · rw [Function.update_self]
  · rw [Function.update_of_ne hNe]

structure Publishes (r : Registry) (c : Call) (r' : Registry) (c' : Call) (name : DbName) (e : EntryId) (h : HandleId) :
    Prop where
  reg : r' = r.publish name e h
  before : c = .opened name e (.ok h)
  after : c' = .signal name e (.ok (r.sharedDB name e h))

/-- What the call takes up or lays down, the handles show. Open handles are out of the account
when they are published, and when they leave the map. -/
theorem Moves.balance (hMoves : Moves r c r' c' entered)
    (hServed : Served r) (hHeld : ∀ h status, status ≠ .open → (h, status) ∈ tokens c → stands r h status = 1) :
    (∃ name e h, Publishes r c r' c' name e h) ∨
      ((∀ e, e < r.nextEntry → (r'.heap e).db = (r.heap e).db) ∧
        ∀ h status, status ≠ .closed → (status = .open → Bare r) →
          (tokens c').count (h, status) + stands r h status = (tokens c).count (h, status) + stands r' h status) := by
  cases hMoves with
  | still hNext hHandles hKeeps hAlike hEntered =>
    refine .inr ⟨hKeeps.db, fun h status _ _ => ?_⟩
    rw [hAlike.tokens, stands_congr hNext (by rw [hHandles])]
  | installs name be hr hc hc' hEntered =>
    subst hr hc hc'
    refine .inr ⟨fun e he => ?_, fun h status _ _ => rfl⟩
    change (Function.update r.heap r.nextEntry _ e).db = _
    rw [Function.update_of_ne (Nat.ne_of_lt he)]
  | opens name e hr hc hc' hEntered =>
    subst hr hc hc'
    refine .inr ⟨fun _ _ => rfl, fun h status _ _ => ?_⟩
    rw [stands_openHandle]
    simp only [tokens, List.count_nil]
    omega
  | publishes name e k hr hc hc' hEntered => exact .inl ⟨name, e, k, hr, hc, hc'⟩
  | signals name e result hr hc hc' hEntered =>
    subst hr hc
    refine .inr ⟨fun e' _ => signalReady_db r e e', fun h status _ _ => ?_⟩
    rw [hc'.tokens]
    rfl
  | detaches dbs hNext hKeeps hNodup hFound hStatus' purpose hc hc' hEntered =>
    subst hc'
    refine .inr ⟨hKeeps.db, fun h status _ hBare => ?_⟩
    have hSum := stands_detached hNext hNodup (stands_of_found hServed hFound) hStatus' h status
    have hNone : (dbs.map fun d => (d.handle, HandleStatus.open)).count (h, status) = 0 := by
      rcases eq_or_ne status .open with rfl | hNotOpen
      · -- Nothing on the map has a handle, so nothing was taken off.
        have hEmpty : dbs = [] := List.eq_nil_iff_forall_not_mem.mpr fun d hd => by
          obtain ⟨name, e, hLookup, hDb⟩ := hFound d hd
          cases hDb.symm.trans (hBare rfl name e hLookup)
        rw [hEmpty]
        rfl
      · rw [count_map_handle, if_neg hNotOpen.symm]
    rw [hc.tokens, tokens_closing (by decide), List.count_nil]
    omega
  | enters purpose db rest hr hc hc' hEntered =>
    subst hr hc hc'
    refine .inr ⟨fun _ _ => rfl, fun h status _ _ => ?_⟩
    have hSum := stands_setStatus (hHeld db.handle .detached (by decide) (by simp [tokens])) (by decide) .closing h status
    simp only [tokens, List.map_cons, List.count_cons, List.count_nil] at hSum ⊢
    omega
  | leaves purpose db rest hr hc hc' hEntered =>
    subst hr hc hc'
    refine .inr ⟨fun _ _ => rfl, fun h status hNot _ => ?_⟩
    have hSum := stands_setStatus (hHeld db.handle .closing (by decide) (by simp [tokens])) (by decide) .closed h status
    have hNone : [(db.handle, HandleStatus.closed)].count (h, status) = 0 := by
      rw [List.count_singleton]
      simp [hNot.symm]
    rw [tokens_closing (by decide)]
    rw [hNone] at hSum
    simp only [tokens, List.count_cons, List.count_nil] at hSum ⊢
    omega

theorem count_elim (closes : HandleId → Nat) (entered : Option HandleId) (h : HandleId) :
    (entered.elim closes (count closes)) h = closes h + entered.toList.count h := by
  cases entered with
  | none => rfl
  | some k =>
    change Function.update closes k (closes k + 1) h = _
    rw [Option.toList_some, List.count_singleton]
    rcases eq_or_ne h k with rfl | hNe
    · simp
    · simp [hNe, hNe.symm]

theorem closes_enter {h : HandleId} {old : HandleStatus} (hHeld : stands r h old = 1)
    (hNot : old ≠ .closing) (hNot' : old ≠ .closed) (k : HandleId) :
    stands (r.setStatus h .closing) k .closing + stands (r.setStatus h .closing) k .closed =
      stands r k .closing + stands r k .closed + [h].count k := by
  have hClosing := stands_setStatus hHeld hNot' .closing k .closing
  have hClosed := stands_setStatus hHeld hNot' .closing k .closed
  simp only [List.count_singleton, beq_iff_eq, Prod.mk.injEq, reduceCtorEq, hNot, hNot', and_true, and_false, if_false]
    at hClosing hClosed ⊢
  omega

theorem closes_leave {h : HandleId} (hHeld : stands r h .closing = 1) (k : HandleId) :
    stands (r.setStatus h .closed) k .closing + stands (r.setStatus h .closed) k .closed =
      stands r k .closing + stands r k .closed := by
  have hClosing := stands_setStatus hHeld (by decide) .closed k .closing
  have hClosed := stands_setStatus hHeld (by decide) .closed k .closed
  simp only [List.count_singleton, beq_iff_eq, Prod.mk.injEq, reduceCtorEq, and_true, and_false, if_false]
    at hClosing hClosed
  omega

theorem Moves.closes (hMoves : Moves r c r' c' entered)
    (hServed : Served r) (hHeld : ∀ h status, status ≠ .open → (h, status) ∈ tokens c → stands r h status = 1)
    (h : HandleId) : stands r' h .closing + stands r' h .closed =
      stands r h .closing + stands r h .closed + entered.toList.count h := by
  cases hMoves with
  | still hNext hHandles hKeeps hAlike hEntered =>
    subst hEntered
    rw [stands_congr hNext (by rw [hHandles]), stands_congr hNext (by rw [hHandles])]
    rfl
  | installs name be hr hc hc' hEntered | signals name e result hr hc hc' hEntered
  | publishes name e k hr hc hc' hEntered =>
    subst hr hEntered
    rfl
  | opens name e hr hc hc' hEntered =>
    subst hr hEntered
    rw [stands_openHandle, stands_openHandle]
    simp
  | detaches dbs hNext hKeeps hNodup hFound hStatus purpose hc hc' hEntered =>
    subst hEntered
    have hStands := stands_of_found hServed hFound
    have hClosing := stands_detached hNext hNodup hStands hStatus h .closing
    have hClosed := stands_detached hNext hNodup hStands hStatus h .closed
    rw [count_map_handle, count_map_handle, if_neg (by decide), if_neg (by decide)] at hClosing hClosed
    rw [Option.toList_none, List.count_nil]
    omega
  | enters purpose db rest hr hc hc' hEntered =>
    subst hr hc hEntered
    exact closes_enter (hHeld db.handle .detached (by decide) (by simp [tokens])) (by decide) (by decide) h
  | leaves purpose db rest hr hc hc' hEntered =>
    subst hr hc hEntered
    exact closes_leave (hHeld db.handle .closing (by decide) (by simp [tokens])) h

theorem unready_setEntry {e : EntryId} {entry : Entry} (e' : EntryId) :
    unready (r.setEntry e entry) e' =
      if e' = e then (if e < r.nextEntry ∧ entry.ready = false then 1 else 0) else unready r e' := by
  change (if e' < r.nextEntry ∧ (Function.update r.heap e entry e').ready = false then 1 else 0) = _
  rcases eq_or_ne e' e with rfl | hNe
  · rw [Function.update_self, if_pos rfl]
  · rw [Function.update_of_ne hNe, if_neg hNe]
    rfl

theorem unready_publish (r : Registry) (name : DbName) (e : EntryId) (h : HandleId) (e' : EntryId) :
    unready (r.publish name e h) e' = unready r e' := by
  rw [publish, unready_setEntry]
  split
  · rename_i hEq
    rw [hEq]
    rfl
  · rfl

theorem unready_signalReady (r : Registry) (e e' : EntryId) :
    unready (r.signalReady e) e' = if e' = e then 0 else unready r e' := by
  rw [signalReady, unready_setEntry]
  simp

theorem unready_install_opener (r : Registry) (name : DbName) (be : Backend) (e : EntryId) :
    unready (r.install name (Registry.opener name be)) e = unready r e + (decide (e = r.nextEntry)).toNat := by
  change (if e < r.nextEntry + 1 ∧ (Function.update r.heap r.nextEntry _ e).ready = false then 1 else 0) = _
  rcases eq_or_ne e r.nextEntry with rfl | hNe
  · rw [Function.update_self]
    simp [unready, Registry.opener]
  · rw [Function.update_of_ne hNe]
    simp [unready, lt_succ_iff_of_ne hNe, hNe]

theorem Moves.opener (hMoves : Moves r c r' c' entered)
    (hOne : ∀ e, opener e c = true → unready r e = 1) (e : EntryId) :
    (Shutdown.opener e c').toNat + unready r e = (Shutdown.opener e c).toNat + unready r' e := by
  cases hMoves with
  | still hNext hHandles hKeeps hAlike hEntered => rw [hAlike.opener, hKeeps.unready]
  | installs name be hr hc hc' hEntered =>
    subst hr hc hc'
    rw [unready_install_opener]
    simp only [Shutdown.opener, Bool.toNat_false]
    omega
  | opens name e' hr hc hc' hEntered =>
    subst hr hc hc'
    rfl
  | publishes name e' k hr hc hc' hEntered =>
    subst hr hc hc'
    rw [unready_publish]
    rfl
  | signals name e' result hr hc hc' hEntered =>
    subst hr hc
    rw [hc'.opener, unready_signalReady]
    rcases eq_or_ne e e' with rfl | hNe
    · rw [hOne e (by simp [Shutdown.opener])]
      simp [Shutdown.opener]
    · simp [Shutdown.opener, hNe]
  | detaches dbs hNext hKeeps hNodup hFound hStatus purpose hc hc' hEntered =>
    subst hc'
    rw [hc.opener, hKeeps.unready]
    rfl
  | enters purpose db rest hr hc hc' hEntered | leaves purpose db rest hr hc hc' hEntered =>
    subst hr hc hc'
    rfl

variable {s : State}

theorem Accounts.held (hAcc : Accounts s) {i : Nat} {c : Call} (hc : s.base.calls[i]? = some c)
    {h : HandleId} {status : HandleStatus} (hTracked : status = .open → s.phase ≠ .before)
    (hToken : (h, status) ∈ tokens c) : stands s.base.reg h status = 1 := by
  have hNot : status ≠ .closed := by
    rintro rfl
    unfold Shutdown.tokens at hToken
    split at hToken <;> simp at hToken
  have hMem : (h, status) ∈ s.tokens :=
    List.mem_append_left _ (List.mem_flatMap.mpr ⟨c, List.mem_of_getElem? hc, hToken⟩)
  have hPos := List.count_pos_iff.mpr hMem
  rw [hAcc.token h status hNot hTracked] at hPos
  have hLe := stands_le_one s.base.reg h status
  omega

theorem Accounts.held_of_ne_open (hAcc : Accounts s) {i : Nat} {c : Call} (hc : s.base.calls[i]? = some c)
    (h : HandleId) (status : HandleStatus) (hNot : status ≠ .open) (hToken : (h, status) ∈ tokens c) :
    stands s.base.reg h status = 1 :=
  hAcc.held hc (fun hOpen => absurd hOpen hNot) hToken

theorem Accounts.unready_of_opener (hAcc : Accounts s) {c : Call} (hc : c ∈ s.base.calls)
    {e : EntryId} (hOpener : Shutdown.opener e c = true) : unready s.base.reg e = 1 := by
  have hPos := List.countP_pos_iff.mpr ⟨c, hc, hOpener⟩
  rw [hAcc.opener e] at hPos
  have hLe := unready_le_one s.base.reg e
  omega

/-- The step of one call keeps the accounts, given that `Close` sees its entries accordingly. -/
theorem Accounts.callStep (hAcc : Accounts s) (hServed : Served s.base.reg) {i : Nat}
    (hc : s.base.calls[i]? = some c)
    (hMoves : Moves s.base.reg c r' c' entered)
    (hPhase : ∀ h status, status ≠ .closed → (status = .open → s.phase ≠ .before) →
      (s.phase.tokens r').count (h, status) + (tokens c').count (h, status) + stands s.base.reg h status =
        (s.phase.tokens s.base.reg).count (h, status) + (tokens c).count (h, status) + stands r' h status) :
    Accounts { s with
      base := ⟨r', s.base.calls.set i c'⟩, closes := entered.elim s.closes (count s.closes) } where
  token h status hNot hTracked := by
    have hOld := hAcc.token h status hNot hTracked
    have hSum := hPhase h status hNot hTracked
    have hSet := count_flatMap_set_add (b := c') (f := tokens) hc (h, status)
    rw [State.tokens, List.count_append] at hOld ⊢
    change (List.flatMap tokens (s.base.calls.set i c')).count (h, status) + (s.phase.tokens r').count (h, status) =
      stands r' h status
    omega
  closes h := by
    have hCloses := hMoves.closes hServed (hAcc.held_of_ne_open hc) h
    have hOld := hAcc.closes h
    change (entered.elim s.closes (count s.closes)) h = stands r' h .closing + stands r' h .closed
    rw [count_elim]
    omega
  opener e := by
    have hOne := hMoves.opener (fun e hOpener => hAcc.unready_of_opener (List.mem_of_getElem? hc) hOpener) e
    have hSet := countP_set_add (p := Shutdown.opener e) (b := c') hc
    have hOld := hAcc.opener e
    change (s.base.calls.set i c').countP (Shutdown.opener e) = unready r' e
    omega

/-! ## Before `Close` -/

theorem served_of_inv {s : Registry.State} (hInv : Registry.Inv s) : Served s.reg := by
  intro name e db hLookup hDb
  rcases (hInv.entryOk name e hLookup).2.shape with ⟨_, hNone, _⟩ | ⟨_, _, db', hDb', _, hUsable⟩ | ⟨_, _, hNone, _⟩
  · cases hDb.symm.trans hNone
  · cases hDb.symm.trans hDb'
    exact hUsable
  · cases hDb.symm.trans hNone

theorem Accounts.callStep_before (hAcc : Accounts s) (hPhase : s.phase = .before)
    (hServed : Served s.base.reg) {i : Nat}
    (hc : s.base.calls[i]? = some c) (hMoves : Moves s.base.reg c r' c' entered) :
    Accounts { s with
      base := ⟨r', s.base.calls.set i c'⟩, closes := entered.elim s.closes (count s.closes) } := by
  refine hAcc.callStep hServed hc hMoves fun h status hNot hTracked => ?_
  rw [hPhase]
  simp only [Phase.tokens, List.count_nil]
  have hNotOpen : status ≠ .open := fun hOpen => hTracked hOpen hPhase
  rcases hMoves.balance hServed (hAcc.held_of_ne_open hc) with ⟨name, e, k, rfl, rfl, rfl⟩ | ⟨_, hBalance⟩
  · have hNone : (tokens (.opened name e (.ok k))).count (h, status) = 0 := by
      rw [tokens, List.count_singleton]
      simp [hNotOpen.symm]
    rw [hNone]
    rfl
  · have hSum := hBalance h status hNot fun hOpen => absurd hOpen hNotOpen
    omega

/-! ## The section that takes the entries -/

theorem count_tokens_open (c : Call) (h : HandleId) :
    (tokens c).count (h, .open) = 0 ∨ ∃ name e, c = .opened name e (.ok h) ∧ (tokens c).count (h, .open) = 1 := by
  unfold tokens
  split
  · rename_i name e k
    rcases eq_or_ne k h with rfl | hNe
    · exact .inr ⟨name, e, rfl, by simp⟩
    · exact .inl (by simp [hNe])
  · exact .inl (by simp [count_map_handle])
  · exact .inl (by simp [count_map_handle])
  · exact .inl rfl

theorem mem_entryTokens {status : HandleStatus} {e : EntryId} {h : HandleId} {status' : HandleStatus} :
    (h, status') ∈ entryTokens r status e ↔ ∃ db, (r.heap e).db = some db ∧ db.handle = h ∧ status = status' := by
  unfold entryTokens
  cases (r.heap e).db <;> simp [eq_comm]

theorem count_entryTokens_le (r : Registry) (status : HandleStatus) (e : EntryId) (t : HandleId × HandleStatus) :
    (entryTokens r status e).count t ≤ 1 := by
  unfold entryTokens
  cases (r.heap e).db with
  | none => exact Nat.zero_le 1
  | some db => exact List.count_le_length

theorem usable_name {name name' : DbName} {h : HandleId} (hUsable : Usable r name h)
    (hUsable' : Usable r name' h) : name = name' :=
  congrArg Handle.name (hUsable.2.symm.trans hUsable'.2)

theorem opens_db_none {s : Registry.State} (hInv : Registry.Inv s) {name : DbName} {e : EntryId}
    (hOpens : Opens s.reg name e) : (s.reg.heap e).db = none := by
  rcases (hInv.entryOk name e hOpens.1).2.shape with hShape | hShape | hShape
  · exact hShape.2.1
  · cases hOpens.2.symm.trans hShape.1
  · cases hOpens.2.symm.trans hShape.1

theorem open_in_one_hand {s : Registry.State} (hInv : Registry.Inv s) (hOne : ∀ e, s.calls.countP (opener e) ≤ 1)
    {todo : List EntryId} (hTodo : ∀ e, e ∈ todo ↔ ∃ name, s.reg.entries.lookup name = some e) (hNodup : todo.Nodup)
    (h : HandleId) : (s.calls.flatMap tokens).count (h, .open) +
      (todo.flatMap (entryTokens s.reg .open)).count (h, .open) = stands s.reg h .open := by
  -- An opener that has yet to publish the handle, and an entry that has it.
  have hCall : ∀ c ∈ s.calls, (h, HandleStatus.open) ∈ tokens c → ∃ name e, c = .opened name e (.ok h) ∧
      Opens s.reg name e ∧ Usable s.reg name h := by
    intro c hc hToken
    rcases count_tokens_open c h with hZero | ⟨name, e, rfl, _⟩
    · exact absurd hToken (List.count_eq_zero.mp hZero)
    · exact ⟨name, e, rfl, hInv.callOk _ hc⟩
  have hEntry : ∀ e ∈ todo, (h, HandleStatus.open) ∈ entryTokens s.reg .open e → ∃ name db,
      Serves s.reg name e db ∧ Usable s.reg name h := by
    intro e he hToken
    obtain ⟨name, hLookup⟩ := (hTodo e).mp he
    obtain ⟨db, hDb, rfl, _⟩ := mem_entryTokens.mp hToken
    exact ⟨name, db, ⟨hLookup, hDb⟩, served_of_inv hInv name e db hLookup hDb⟩
  have hCallPos : 0 < (s.calls.flatMap tokens).count (h, .open) →
      ∃ name e, Opens s.reg name e ∧ Usable s.reg name h ∧ (s.calls.flatMap tokens).count (h, .open) ≤ 1 := by
    intro hPos
    obtain ⟨c, hc, hToken⟩ := List.mem_flatMap.mp (List.count_pos_iff.mp hPos)
    obtain ⟨name, e, rfl, hOpens, hUsable⟩ := hCall c hc hToken
    refine ⟨name, e, hOpens, hUsable, (count_flatMap_le_countP fun c' hc' => ?_).trans (hOne e)⟩
    rcases count_tokens_open c' h with hZero | ⟨name', e', rfl, hCount⟩
    · rw [hZero]
      exact Nat.zero_le _
    · obtain ⟨hOpens', hUsable'⟩ := hInv.callOk _ hc'
      cases usable_name hUsable hUsable'
      cases hOpens.1.symm.trans hOpens'.1
      rw [hCount]
      simp [opener]
  have hEntryPos : 0 < (todo.flatMap (entryTokens s.reg .open)).count (h, .open) →
      ∃ name e db, Serves s.reg name e db ∧ Usable s.reg name h ∧
        (todo.flatMap (entryTokens s.reg .open)).count (h, .open) ≤ 1 := by
    intro hPos
    obtain ⟨e, he, hToken⟩ := List.mem_flatMap.mp (List.count_pos_iff.mp hPos)
    obtain ⟨name, db, hServes, hUsable⟩ := hEntry e he hToken
    refine ⟨name, e, db, hServes, hUsable,
      (count_flatMap_le_countP (p := fun e' => e' == e) fun e' he' => ?_).trans
        (List.nodup_iff_count_le_one.mp hNodup e)⟩
    by_cases hToken' : (h, HandleStatus.open) ∈ entryTokens s.reg .open e'
    · obtain ⟨name', db', hServes', hUsable'⟩ := hEntry e' he' hToken'
      cases usable_name hUsable hUsable'
      cases hServes.1.symm.trans hServes'.1
      simpa using count_entryTokens_le s.reg .open e (h, .open)
    · rw [List.count_eq_zero.mpr hToken']
      exact Nat.zero_le _
  -- The entry of an opener is empty, so the two exclude each other.
  have hExclusive : ¬ (0 < (s.calls.flatMap tokens).count (h, .open) ∧
      0 < (todo.flatMap (entryTokens s.reg .open)).count (h, .open)) := by
    rintro ⟨hPos, hPos'⟩
    obtain ⟨name, e, hOpens, hUsable, _⟩ := hCallPos hPos
    obtain ⟨name', e', db, hServes, hUsable', _⟩ := hEntryPos hPos'
    cases usable_name hUsable hUsable'
    cases hOpens.1.symm.trans hServes.1
    cases (opens_db_none hInv hOpens).symm.trans hServes.2
  have hSome : stands s.reg h .open = 1 → 0 < (s.calls.flatMap tokens).count (h, .open) ∨
      0 < (todo.flatMap (entryTokens s.reg .open)).count (h, .open) := by
    intro hStands
    obtain ⟨hLt, hOpen⟩ := stands_eq_one.mp hStands
    rcases hInv.live h hLt hOpen with ⟨name, e, db, _, hServes, hHandle⟩ | ⟨name, e, hMem⟩
    · refine .inr (List.count_pos_iff.mpr (List.mem_flatMap.mpr ⟨e, (hTodo e).mpr ⟨name, hServes.1⟩, ?_⟩))
      exact mem_entryTokens.mpr ⟨db, hServes.2, hHandle, rfl⟩
    · exact .inl (List.count_pos_iff.mpr (List.mem_flatMap.mpr ⟨_, hMem, List.mem_singleton.mpr rfl⟩))
  have hLe := stands_le_one s.reg h .open
  rcases Nat.eq_zero_or_pos ((s.calls.flatMap tokens).count (h, .open)) with hZero | hPos
  · rcases Nat.eq_zero_or_pos ((todo.flatMap (entryTokens s.reg .open)).count (h, .open)) with hZero' | hPos
    · omega
    · obtain ⟨name, e, db, _, hUsable, hOnce⟩ := hEntryPos hPos
      have hStands := stands_of_usable hUsable
      omega
  · obtain ⟨name, e, _, hUsable, hOnce⟩ := hCallPos hPos
    have hStands := stands_of_usable hUsable
    omega

/-! ## While `Close` goes through the entries -/

/-- Nothing on the map has a handle, nobody is about to open one, and a handle that is still
to be published comes to an entry that `Close` will look at. -/
structure Draining (base : Registry.State) (todo : List EntryId) (stage : Stage) : Prop where
  mapped : ∀ name e, base.reg.entries.lookup name = some e →
    e < base.reg.nextEntry ∧ e ∉ todo ∧ (base.reg.heap e).db = none
  nodup : todo.Nodup
  known : ∀ e ∈ todo, e < base.reg.nextEntry
  calls : ∀ c ∈ base.calls, getting c = false ∧
    ∀ e, publishing e c = true → e ∈ todo ∧ (base.reg.heap e).db = none
  head : stage ≠ .wait → ∀ e rest, todo = e :: rest → unready base.reg e = 0 ∧ (base.reg.heap e).db ≠ none

variable {base : Registry.State} {todo : List EntryId} {stage : Stage}

theorem draining_lock {s : Registry.State} (hInv : Registry.Inv s) (hQuiet : ∀ c ∈ s.calls, getting c = false)
    {todo : List EntryId} (hTodo : ∀ e, e ∈ todo ↔ ∃ name, s.reg.entries.lookup name = some e) (hNodup : todo.Nodup) :
    Draining { s with reg := { s.reg with entries := ∅ } } todo .wait where
  mapped name e hLookup := by
    change (∅ : Finmap fun _ : DbName => EntryId).lookup name = some e at hLookup
    rw [Finmap.lookup_empty] at hLookup
    cases hLookup
  nodup := hNodup
  known e he := by
    obtain ⟨name, hLookup⟩ := (hTodo e).mp he
    exact (hInv.entryOk name e hLookup).1
  calls c hc := by
    refine ⟨hQuiet c hc, fun e hPublishing => ?_⟩
    have hOk := hInv.callOk c hc
    have hOpens : ∃ name, Opens s.reg name e := by
      cases c with
      | opening name e' =>
        cases of_decide_eq_true hPublishing
        exact ⟨name, hOk⟩
      | opened name e' result =>
        cases of_decide_eq_true hPublishing
        cases result with
        | error detail => exact ⟨name, hOk⟩
        | ok h => exact ⟨name, hOk.1⟩
      | _ => cases hPublishing
    obtain ⟨name, hOpens⟩ := hOpens
    exact ⟨(hTodo e).mpr ⟨name, hOpens.1⟩, opens_db_none hInv hOpens⟩
  head hStage := absurd rfl hStage

theorem Draining.update (h : Draining base todo stage)
    {r' : Registry} {calls' : List Call} (hNext : base.reg.nextEntry ≤ r'.nextEntry)
    (hDb : ∀ e, e < base.reg.nextEntry → (r'.heap e).db = (base.reg.heap e).db)
    (hUnready : ∀ e, unready r' e ≤ unready base.reg e)
    (hEntries : ∀ name e, r'.entries.lookup name = some e → base.reg.entries.lookup name = some e ∨
      (base.reg.nextEntry ≤ e ∧ e < r'.nextEntry ∧ (r'.heap e).db = none))
    (hCalls : ∀ d ∈ calls', getting d = false ∧
      ∀ e, publishing e d = true → ∃ d' ∈ base.calls, publishing e d' = true) :
    Draining ⟨r', calls'⟩ todo stage where
  mapped name e hLookup := by
    rcases hEntries name e hLookup with hOld | ⟨hNew, hLt, hNone⟩
    · obtain ⟨hLt, hNotIn, hNone⟩ := h.mapped name e hOld
      exact ⟨hLt.trans_le hNext, hNotIn, (hDb e hLt).trans hNone⟩
    · exact ⟨hLt, fun hIn => absurd (h.known e hIn) (Nat.not_lt.mpr hNew), hNone⟩
  nodup := h.nodup
  known e he := (h.known e he).trans_le hNext
  calls d hd := by
    obtain ⟨hGetting, hPublishing⟩ := hCalls d hd
    refine ⟨hGetting, fun e he => ?_⟩
    obtain ⟨d', hd', he'⟩ := hPublishing e he
    obtain ⟨hIn, hNone⟩ := (h.calls d' hd').2 e he'
    exact ⟨hIn, (hDb e (h.known e hIn)).trans hNone⟩
  head hStage e rest hTodo := by
    obtain ⟨hReady, hSome⟩ := h.head hStage e rest hTodo
    have hLt := h.known e (hTodo ▸ List.mem_cons_self)
    rw [hDb e hLt]
    exact ⟨Nat.le_zero.mp (hReady ▸ hUnready e), hSome⟩

theorem publish_heap (r : Registry) (name : DbName) {e e' : EntryId} (h : HandleId) (hNe : e' ≠ e) :
    (r.publish name e h).heap e' = r.heap e' :=
  Function.update_of_ne hNe _ _

theorem publish_heap_self (r : Registry) (name : DbName) (e : EntryId) (h : HandleId) :
    ((r.publish name e h).heap e).db = some (r.sharedDB name e h) := by
  change (Function.update r.heap e _ e).db = _
  rw [Function.update_self]

theorem opener_of_publishing {e : EntryId} {c : Call} (h : publishing e c = true) : opener e c = true := by
  cases c with
  | opening | opened => exact h
  | _ => cases h

theorem Draining.publish (h : Draining base todo stage)
    (hOne : ∀ e, base.calls.countP (opener e) ≤ 1) {i : Nat} {name : DbName} {e : EntryId} {k : HandleId}
    (hc : base.calls[i]? = some (.opened name e (.ok k))) (result : Except Err DB) :
    Draining ⟨base.reg.publish name e k, base.calls.set i (.signal name e result)⟩ todo stage := by
  obtain ⟨_, hPublishing⟩ := h.calls _ (List.mem_of_getElem? hc)
  obtain ⟨hIn, _⟩ := hPublishing e (decide_eq_true rfl)
  refine ⟨?_, h.nodup, h.known, ?_, ?_⟩
  · intro name' e' hLookup
    obtain ⟨hLt, hNotIn, hNone⟩ := h.mapped name' e' hLookup
    have hNe : e' ≠ e := fun hEq => hNotIn (hEq ▸ hIn)
    refine ⟨hLt, hNotIn, ?_⟩
    rw [publish_heap _ _ _ hNe]
    exact hNone
  · refine forall_mem_set_of_unique (p := opener e) hc (decide_eq_true rfl) (hOne e) ?_
      ⟨rfl, fun e' he' => by cases he'⟩
    intro d hd hOther
    refine ⟨(h.calls d hd).1, fun e' he' => ?_⟩
    have hNe : e' ≠ e := by
      rintro rfl
      cases hOther.symm.trans (opener_of_publishing he')
    obtain ⟨hIn', hNone⟩ := (h.calls d hd).2 e' he'
    refine ⟨hIn', ?_⟩
    rw [publish_heap _ _ _ hNe]
    exact hNone
  · intro hStage e' rest hTodo
    obtain ⟨hReady, hSome⟩ := h.head hStage e' rest hTodo
    refine ⟨(unready_publish ..).trans hReady, ?_⟩
    rcases eq_or_ne e' e with rfl | hNe
    · rw [publish_heap_self]
      exact Option.some_ne_none _
    · rw [publish_heap _ _ _ hNe]
      exact hSome

theorem unready_signalReady_le (r : Registry) (e e' : EntryId) : unready (r.signalReady e) e' ≤ unready r e' := by
  rw [unready_signalReady]
  split
  · exact Nat.zero_le _
  · exact Nat.le_refl _

theorem Draining.callStep (h : Draining base todo stage)
    (hOne : ∀ e, base.calls.countP (opener e) ≤ 1) {i : Nat}
    (hc : base.calls[i]? = some c) (hMoves : Moves base.reg c r' c' entered) :
    Draining ⟨r', base.calls.set i c'⟩ todo stage := by
  obtain ⟨hGetting, _⟩ := h.calls c (List.mem_of_getElem? hc)
  have hSet : getting c' = false → (∀ e, publishing e c' = true → publishing e c = true) →
      ∀ d ∈ base.calls.set i c', getting d = false ∧
        ∀ e, publishing e d = true → ∃ d' ∈ base.calls, publishing e d' = true := fun hGetting' hPublishing =>
    forall_mem_set (fun d hd => ⟨(h.calls d hd).1, fun e he => ⟨d, hd, he⟩⟩)
      ⟨hGetting', fun e he => ⟨c, List.mem_of_getElem? hc, hPublishing e he⟩⟩
  cases hMoves with
  | still hNext hHandles hKeeps hAlike hEntered =>
    refine h.update hKeeps.nextEntry hKeeps.db (fun e => (hKeeps.unready e).le) hKeeps.entries
      (hSet ?_ hAlike.publishing)
    exact Bool.eq_false_iff.mpr fun hTrue => absurd (hAlike.getting hTrue) (by rw [hGetting]; decide)
  | installs name be hr hc' hc'' hEntered =>
    subst hc'
    cases hGetting
  | opens name e hr hc' hc'' hEntered =>
    subst hr hc' hc''
    exact h.update (Nat.le_refl _) (fun _ _ => rfl) (fun _ => Nat.le_refl _) (fun _ _ hLookup => .inl hLookup)
      (hSet rfl fun _ he => he)
  | publishes name e k hr hc' hc'' hEntered =>
    subst hr hc' hc''
    exact h.publish hOne hc _
  | signals name e result hr hc' hc'' hEntered =>
    subst hr hc'
    refine h.update (Nat.le_refl _) (fun e' _ => signalReady_db _ e e') (unready_signalReady_le _ e)
      (fun _ _ hLookup => .inl hLookup) (hSet hc''.getting fun e' he' => ?_)
    cases (hc''.publishing e').symm.trans he'
  | detaches dbs hNext hKeeps hNodup hFound hStatus purpose hc' hc'' hEntered =>
    subst hc''
    exact h.update hKeeps.nextEntry hKeeps.db (fun e => (hKeeps.unready e).le) hKeeps.entries
      (hSet rfl fun _ he => by cases he)
  | enters purpose db rest hr hc' hc'' hEntered | leaves purpose db rest hr hc' hc'' hEntered =>
    subst hr hc''
    exact h.update (Nat.le_refl _) (fun _ _ => rfl) (fun _ => Nat.le_refl _) (fun _ _ hLookup => .inl hLookup)
      (hSet rfl fun _ he => by cases he)

theorem phaseTokens_pending (r : Registry) (todo : List EntryId) (hook : Bool) {stage : Stage} (h : stage ≠ .inClose) :
    (Phase.pending todo hook stage).tokens r = todo.flatMap (entryTokens r .open) := by
  cases todo with
  | nil => cases stage <;> rfl
  | cons e rest =>
    cases stage with
    | inClose => exact absurd rfl h
    | wait | fireHook | enterClose => rfl

theorem phaseTokens_congr {r r' : Registry} {phase : Phase}
    (h : ∀ e ∈ phase.todo, (r'.heap e).db = (r.heap e).db) : phase.tokens r' = phase.tokens r := by
  have hEntry : ∀ status, ∀ e ∈ phase.todo, entryTokens r' status e = entryTokens r status e := fun status e he => by
    rw [entryTokens, entryTokens, h e he]
  cases phase with
  | before | returned => rfl
  | pending todo hook stage =>
    cases todo with
    | nil => cases stage <;> rfl
    | cons e rest =>
      have hRest : ∀ status, rest.flatMap (entryTokens r' status) = rest.flatMap (entryTokens r status) :=
        fun status => List.flatMap_congr fun e' he' => hEntry status e' (List.mem_cons_of_mem e he')
      have hHead : ∀ status, entryTokens r' status e = entryTokens r status e := fun status =>
        hEntry status e List.mem_cons_self
      cases stage with
      | inClose => simp only [Phase.tokens, hHead, hRest]
      | wait | fireHook | enterClose => simp only [Phase.tokens, List.flatMap_cons, hHead, hRest]

theorem phaseTokens_publish {phase : Phase} {name : DbName} {e : EntryId} {h : HandleId}
    (hNodup : phase.todo.Nodup) (hIn : e ∈ phase.todo) (hNone : (r.heap e).db = none)
    (hHead : phase.stage ≠ .wait → ∀ e rest, phase.todo = e :: rest → (r.heap e).db ≠ none)
    (t : HandleId × HandleStatus) :
    (phase.tokens (r.publish name e h)).count t = (phase.tokens r).count t + [(h, HandleStatus.open)].count t := by
  have hNew : entryTokens (r.publish name e h) .open e = [(h, .open)] := by
    rw [entryTokens, publish_heap_self]
    rfl
  have hEmpty : entryTokens r .open e = [] := by
    rw [entryTokens, hNone]
    rfl
  have hOther : ∀ status e', e' ≠ e → entryTokens (r.publish name e h) status e' = entryTokens r status e' :=
    fun status e' hNe => by rw [entryTokens, entryTokens, publish_heap _ _ _ hNe]
  cases phase with
  | before | returned => cases hIn
  | pending todo hook stage =>
    change todo.Nodup at hNodup
    change e ∈ todo at hIn
    have hAll : (todo.flatMap (entryTokens (r.publish name e h) .open)).count t =
        (todo.flatMap (entryTokens r .open)).count t + [(h, HandleStatus.open)].count t := by
      rw [count_flatMap_update hNodup hIn hEmpty (hOther .open), hNew]
    cases todo with
    | nil => cases hIn
    | cons e' rest =>
      cases stage with
      | wait | fireHook | enterClose => exact hAll
      | inClose =>
        have hNe : e' ≠ e := fun hEq => hHead (fun hWait => by cases hWait) e' rest rfl (hEq ▸ hNone)
        have hRest : e ∈ rest := (List.mem_cons.mp hIn).resolve_left hNe.symm
        simp only [Phase.tokens, List.count_append]
        rw [hOther .closing e' hNe, count_flatMap_update (List.nodup_cons.mp hNodup).2 hRest hEmpty (hOther .open), hNew]
        omega

theorem Draining.bare (h : Draining base todo stage) :
    Bare base.reg :=
  fun name e hLookup => (h.mapped name e hLookup).2.2

theorem Bare.served (h : Bare r) : Served r := by
  intro name e db hLookup hDb
  cases (h name e hLookup).symm.trans hDb

theorem Accounts.callStep_draining (hAcc : Accounts s)
    (hDraining : Draining s.base s.phase.todo s.phase.stage) {i : Nat}
    (hc : s.base.calls[i]? = some c) (hMoves : Moves s.base.reg c r' c' entered) :
    Accounts { s with
      base := ⟨r', s.base.calls.set i c'⟩, closes := entered.elim s.closes (count s.closes) } := by
  have hServed := hDraining.bare.served
  refine hAcc.callStep hServed hc hMoves fun h status hNot hTracked => ?_
  rcases hMoves.balance hServed (hAcc.held_of_ne_open hc) with ⟨name, e, k, rfl, rfl, rfl⟩ | ⟨hDb, hBalance⟩
  · obtain ⟨_, hPublishing⟩ := hDraining.calls _ (List.mem_of_getElem? hc)
    obtain ⟨hIn, hNone⟩ := hPublishing e (decide_eq_true rfl)
    rw [phaseTokens_publish hDraining.nodup hIn hNone fun hStage e rest hTodo => (hDraining.head hStage e rest hTodo).2]
    rfl
  · have hSame : s.phase.tokens r' = s.phase.tokens s.base.reg :=
      phaseTokens_congr fun e he => hDb e (hDraining.known e he)
    have hSum := hBalance h status hNot fun _ => hDraining.bare
    rw [hSame]
    omega

/-! ## The invariant -/

structure Inv (s : State) : Prop where
  accounts : Accounts s
  before : s.phase = .before → Registry.Inv s.base
  draining : s.phase ≠ .before → Draining s.base s.phase.todo s.phase.stage

theorem inv_init (backends : Finmap (fun _ : DbName => Backend)) : Inv (init backends) where
  accounts := by
    refine ⟨fun h status _ _ => ?_, fun h => ?_, fun e => ?_⟩
    · simp [init, State.tokens, Registry.init, Phase.tokens, stands, new]
    · simp [init, Registry.init, stands, new]
    · simp [init, Registry.init, unready, new]
  before _ := Registry.inv_init backends
  draining hPhase := absurd rfl hPhase

theorem Accounts.countP_opener_le (hAcc : Accounts s) (e : EntryId) :
    s.base.calls.countP (Shutdown.opener e) ≤ 1 :=
  (hAcc.opener e).trans_le (unready_le_one _ e)

theorem Inv.lock (hInv : Inv s) (hPhase : s.phase = .before)
    (hQuiet : ∀ c ∈ s.base.calls, getting c = false) {order : List DbName} (hOrder : order.Nodup)
    (hKeys : order.toFinset = s.base.reg.entries.keys) : Inv (s.lock order) := by
  have hBase := hInv.before hPhase
  have hTodo : ∀ e, e ∈ order.filterMap s.base.reg.entries.lookup ↔ ∃ name, s.base.reg.entries.lookup name = some e := by
    intro e
    rw [List.mem_filterMap]
    refine ⟨fun ⟨name, _, hLookup⟩ => ⟨name, hLookup⟩, fun ⟨name, hLookup⟩ => ⟨name, ?_, hLookup⟩⟩
    rw [← List.mem_toFinset, hKeys, Finmap.mem_keys]
    exact Finmap.mem_iff.mpr ⟨e, hLookup⟩
  -- An entry knows its name, so no two names lead to one entry.
  have hNodup : (order.filterMap s.base.reg.entries.lookup).Nodup := by
    refine List.Nodup.filterMap (fun name name' e he he' => ?_) hOrder
    have hName := (hBase.entryOk name e he).2.name_eq
    exact hName.symm.trans (hBase.entryOk name' e he').2.name_eq
  refine ⟨⟨fun h status hNot _ => ?_, hInv.accounts.closes, hInv.accounts.opener⟩, fun h => (by cases h), fun _ => ?_⟩
  · change ((s.base.calls.flatMap tokens) ++ (Phase.pending _ s.base.reg.onClose .wait).tokens s.base.reg).count _ =
      stands s.base.reg h status
    rw [phaseTokens_pending _ _ _ (by decide), List.count_append]
    rcases eq_or_ne status .open with rfl | hNotOpen
    · exact open_in_one_hand hBase hInv.accounts.countP_opener_le hTodo hNodup h
    · have hOld := hInv.accounts.token h status hNot fun hOpen => absurd hOpen hNotOpen
      have hNone : ((order.filterMap s.base.reg.entries.lookup).flatMap
          (entryTokens s.base.reg .open)).count (h, status) = 0 := by
        refine List.count_eq_zero.mpr fun hMem => ?_
        obtain ⟨e, _, hToken⟩ := List.mem_flatMap.mp hMem
        obtain ⟨_, _, _, rfl⟩ := mem_entryTokens.mp hToken
        exact hNotOpen rfl
      rw [State.tokens, List.count_append, hPhase, Phase.tokens, List.count_nil] at hOld
      omega
  · exact draining_lock hBase hQuiet hTodo hNodup

theorem Accounts.phaseStep (hAcc : Accounts s) (hPhase : s.phase ≠ .before) {r' : Registry} {phase' : Phase}
    {errs' : List (DbName × String)} {closes' : HandleId → Nat}
    (hTokens : ∀ h status, status ≠ .closed → (phase'.tokens r').count (h, status) + stands s.base.reg h status =
      (s.phase.tokens s.base.reg).count (h, status) + stands r' h status)
    (hCloses : ∀ h, closes' h = stands r' h .closing + stands r' h .closed)
    (hUnready : ∀ e, unready r' e = unready s.base.reg e) :
    Accounts ⟨{ s.base with reg := r' }, phase', errs', closes'⟩ where
  token h status hNot _ := by
    have hOld := hAcc.token h status hNot fun _ => hPhase
    have hSum := hTokens h status hNot
    rw [State.tokens, List.count_append] at hOld ⊢
    change (s.base.calls.flatMap tokens).count (h, status) + (phase'.tokens r').count (h, status) = stands r' h status
    omega
  closes := hCloses
  opener e := (hAcc.opener e).trans (hUnready e).symm

theorem Draining.tail {e : EntryId} {rest : List EntryId}
    (h : Draining base (e :: rest) stage) (hOpener : ∀ c ∈ base.calls, opener e c = false) :
    Draining base rest .wait where
  mapped name e' hLookup := by
    obtain ⟨hLt, hNotIn, hNone⟩ := h.mapped name e' hLookup
    exact ⟨hLt, fun hIn => hNotIn (List.mem_cons_of_mem e hIn), hNone⟩
  nodup := (List.nodup_cons.mp h.nodup).2
  known e' he' := h.known e' (List.mem_cons_of_mem e he')
  calls c hc := by
    obtain ⟨hGetting, hPublishing⟩ := h.calls c hc
    refine ⟨hGetting, fun e' he' => ?_⟩
    obtain ⟨hIn, hNone⟩ := hPublishing e' he'
    refine ⟨(List.mem_cons.mp hIn).resolve_left ?_, hNone⟩
    rintro rfl
    cases (hOpener c hc).symm.trans (opener_of_publishing he')
  head hStage := absurd rfl hStage

theorem Draining.withStage {stage' : Stage} (h : Draining base todo stage)
    (hHead : stage' ≠ .wait → ∀ e rest, todo = e :: rest → unready base.reg e = 0 ∧ (base.reg.heap e).db ≠ none) :
    Draining base todo stage' :=
  ⟨h.mapped, h.nodup, h.known, h.calls, hHead⟩

theorem Draining.withStatus (h : Draining base todo stage)
    (k : HandleId) (status : HandleStatus) :
    Draining { base with reg := base.reg.setStatus k status } todo stage :=
  ⟨h.mapped, h.nodup, h.known, h.calls, h.head⟩

theorem Accounts.no_opener (hAcc : Accounts s) {e : EntryId} (hReady : unready s.base.reg e = 0) :
    ∀ c ∈ s.base.calls, Shutdown.opener e c = false := by
  intro c hc
  refine Bool.eq_false_iff.mpr fun hOpener => ?_
  cases hReady.symm.trans (hAcc.unready_of_opener hc hOpener)

theorem Accounts.held_by_close (hAcc : Accounts s) (hPhase : s.phase ≠ .before) {h : HandleId}
    {status : HandleStatus} (hNot : status ≠ .closed) (hToken : (h, status) ∈ s.phase.tokens s.base.reg) :
    stands s.base.reg h status = 1 := by
  have hPos := List.count_pos_iff.mpr (List.mem_append_right (s.base.calls.flatMap Shutdown.tokens) hToken)
  have hCount := hAcc.token h status hNot fun _ => hPhase
  have hLe := stands_le_one s.base.reg h status
  rw [State.tokens] at hCount
  omega

theorem ne_before_of_pending {phase : Phase} {hook : Bool} (h : phase = .pending todo hook stage) : phase ≠ .before := by
  rw [h]
  intro hEq
  cases hEq

theorem Inv.draining_pending (hInv : Inv s) {hook : Bool} (hPhase : s.phase = .pending todo hook stage) :
    Draining s.base todo stage := by
  have hDraining := hInv.draining (ne_before_of_pending hPhase)
  rw [hPhase] at hDraining
  exact hDraining

theorem Inv.advance (hInv : Inv s) {hook : Bool} (hPhase : s.phase = .pending todo hook stage) {phase' : Phase}
    (hPhase' : phase' ≠ .before) (hTokens : phase'.tokens s.base.reg = (Phase.pending todo hook stage).tokens s.base.reg)
    (hDraining : Draining s.base todo stage → Draining s.base phase'.todo phase'.stage) :
    Inv { s with phase := phase' } where
  accounts := hInv.accounts.phaseStep (ne_before_of_pending hPhase) (fun h status _ => by rw [hTokens, hPhase])
    hInv.accounts.closes fun _ => rfl
  before hBefore := absurd hBefore hPhase'
  draining _ := hDraining (hInv.draining_pending hPhase)

theorem Inv.next {s t : State} (hInv : Inv s) {failure : Option String} (hNext : s.next failure = some t) : Inv t := by
  unfold State.next at hNext
  split at hNext
  · -- No entry is left.
    rename_i hook stage hPhase
    cases hNext
    refine hInv.advance hPhase (fun h => by cases h) ?_ fun hDraining => ?_
    · cases stage <;> rfl
    · exact hDraining.withStage fun hStage => absurd rfl hStage
  · -- `<-e.ready`
    rename_i e rest hook hPhase
    split at hNext
    · rename_i hReady
      have hUnready : unready s.base.reg e = 0 := by simp [unready, hReady]
      split at hNext
      · rename_i hDb
        cases hNext
        refine hInv.advance hPhase (fun h => by cases h) ?_ fun hDraining => ?_
        · rw [phaseTokens_pending _ _ _ (by decide), phaseTokens_pending _ _ _ (by decide), List.flatMap_cons,
            entryTokens, hDb]
          rfl
        · exact hDraining.tail (hInv.accounts.no_opener hUnready)
      · rename_i db hDb
        cases hNext
        refine hInv.advance hPhase (fun h => by cases h) rfl fun hDraining => ?_
        refine hDraining.withStage fun _ e' rest' hTodo => ?_
        cases hTodo
        exact ⟨hUnready, by rw [hDb]; exact Option.some_ne_none db⟩
    · cases hNext
  · rename_i e rest hook hPhase
    cases hNext
    refine hInv.advance hPhase (fun h => by cases h) rfl fun hDraining => ?_
    exact hDraining.withStage fun _ => hDraining.head (by decide)
  · -- `Handle.Close` is called.
    rename_i e rest hook hPhase
    have hNot := ne_before_of_pending hPhase
    obtain ⟨db, hDb, rfl⟩ := Option.map_eq_some_iff.mp hNext
    have hDraining := hInv.draining_pending hPhase
    have hHeld : stands s.base.reg db.handle .open = 1 := by
      refine hInv.accounts.held_by_close hNot (by decide) ?_
      rw [hPhase]
      exact List.mem_append_left _ (mem_entryTokens.mpr ⟨db, hDb, rfl, rfl⟩)
    refine ⟨hInv.accounts.phaseStep hNot ?_ ?_ fun _ => rfl, fun h => (by cases h), fun _ => ?_⟩
    · intro h status _
      have hSum := stands_setStatus hHeld (by decide) .closing h status
      rw [hPhase]
      change (entryTokens s.base.reg .closing e ++ rest.flatMap (entryTokens s.base.reg .open)).count _ + _ =
        (entryTokens s.base.reg .open e ++ rest.flatMap (entryTokens s.base.reg .open)).count _ + _
      rw [List.count_append, List.count_append, entryTokens, entryTokens, hDb]
      simp only [Option.toList_some, List.map_singleton]
      omega
    · intro h
      have hSum := closes_enter hHeld (by decide) (by decide) h
      have hOld := hInv.accounts.closes h
      have hCount := count_elim s.closes (some db.handle) h
      change count s.closes db.handle h = _
      rw [Option.elim_some, Option.toList_some] at hCount
      omega
    · refine (hDraining.withStatus db.handle .closing).withStage fun _ => ?_
      exact hDraining.head (by decide)
  · -- `Handle.Close` returns.
    rename_i e rest hook hPhase
    have hNot := ne_before_of_pending hPhase
    obtain ⟨db, hDb, rfl⟩ := Option.map_eq_some_iff.mp hNext
    have hDraining := hInv.draining_pending hPhase
    have hHeld : stands s.base.reg db.handle .closing = 1 := by
      refine hInv.accounts.held_by_close hNot (by decide) ?_
      rw [hPhase]
      exact List.mem_append_left _ (mem_entryTokens.mpr ⟨db, hDb, rfl, rfl⟩)
    refine ⟨hInv.accounts.phaseStep hNot ?_ ?_ fun _ => rfl, fun h => (by cases h), fun _ => ?_⟩
    · intro h status hNotClosed
      have hSum := stands_setStatus hHeld (by decide) .closed h status
      have hNone : [(db.handle, HandleStatus.closed)].count (h, status) = 0 := by
        rw [List.count_singleton]
        simp [hNotClosed.symm]
      have hAfter : (Phase.pending rest hook .wait).tokens (s.base.reg.setStatus db.handle .closed) =
          rest.flatMap (entryTokens s.base.reg .open) := phaseTokens_pending _ _ _ (by decide)
      rw [hPhase]
      change ((Phase.pending rest hook .wait).tokens (s.base.reg.setStatus db.handle .closed)).count _ + _ =
        (entryTokens s.base.reg .closing e ++ rest.flatMap (entryTokens s.base.reg .open)).count _ + _
      rw [hAfter, List.count_append, entryTokens, hDb]
      simp only [Option.toList_some, List.map_singleton]
      omega
    · intro h
      rw [closes_leave hHeld h]
      exact hInv.accounts.closes h
    · have hReady := (hDraining.head (by decide) e rest rfl).1
      exact (hDraining.tail (hInv.accounts.no_opener hReady)).withStatus db.handle .closed
  · cases hNext
  · cases hNext

theorem Inv.base_step (hInv : Inv s) {act : Registry.Action} (hQuiet : Quiet s (.base act)) {base : Registry.State}
    (hStep : Registry.step s.base act = some base) :
    Inv { s with base := base, closes := (s.entered act).elim s.closes (count s.closes) } := by
  have hBase := hStep
  cases act with
  | call op =>
    cases hStep
    have hStart : tokens op.start = [] ∧ (∀ e, opener e op.start = false) ∧ ∀ e, publishing e op.start = false := by
      cases op <;> exact ⟨rfl, fun _ => rfl, fun _ => rfl⟩
    refine ⟨⟨fun h status hNot hTracked => ?_, hInv.accounts.closes, fun e => ?_⟩, fun hPhase => ?_, fun hPhase => ?_⟩
    · have hOld := hInv.accounts.token h status hNot hTracked
      rw [State.tokens, List.count_append] at hOld ⊢
      rw [List.flatMap_append, List.flatMap_singleton, hStart.1, List.append_nil]
      exact hOld
    · rw [List.countP_append, List.countP_singleton, hStart.2.1 e]
      exact hInv.accounts.opener e
    · exact (hInv.before hPhase).step hBase
    · refine (hInv.draining hPhase).update (Nat.le_refl _) (fun _ _ => rfl) (fun _ => Nat.le_refl _)
        (fun _ _ hLookup => .inl hLookup) fun d hd => ?_
      rcases List.mem_append.mp hd with hd | hd
      · exact ⟨((hInv.draining hPhase).calls d hd).1, fun e he => ⟨d, hd, he⟩⟩
      · rw [List.mem_singleton.mp hd]
        refine ⟨?_, fun e he => ?_⟩
        · cases op with
          | get name => exact absurd hQuiet hPhase
          | reserve | add | remove | reapIdle => rfl
        · cases (hStart.2.2 e).symm.trans he
  | step i choice =>
    obtain ⟨c, r', c', hc, hCall, rfl⟩ := step_call hStep
    have hEntered : s.entered (.step i choice) = enters c choice := by
      simp only [State.entered, hc, Option.bind_some]
    rw [hEntered]
    by_cases hPhase : s.phase = .before
    · have hServed := served_of_inv (hInv.before hPhase)
      refine ⟨hInv.accounts.callStep_before hPhase hServed hc (moves_of_callStep hServed hCall), fun _ => ?_, fun h => ?_⟩
      · exact (hInv.before hPhase).step hBase
      · exact absurd hPhase h
    · have hDraining := hInv.draining hPhase
      have hMoves := moves_of_callStep hDraining.bare.served hCall
      exact ⟨hInv.accounts.callStep_draining hDraining hc hMoves, fun h => absurd h hPhase,
        fun _ => hDraining.callStep hInv.accounts.countP_opener_le hc hMoves⟩
  | tick elapsed =>
    cases hStep
    refine ⟨⟨hInv.accounts.token, hInv.accounts.closes, hInv.accounts.opener⟩, fun hPhase => ?_, fun hPhase => ?_⟩
    · exact (hInv.before hPhase).step hBase
    · have hDraining := hInv.draining hPhase
      exact ⟨hDraining.mapped, hDraining.nodup, hDraining.known, hDraining.calls, hDraining.head⟩

theorem Inv.step {s t : State} {act : Action} (hInv : Inv s) (hQuiet : Quiet s act) (hStep : step s act = some t) :
    Inv t := by
  cases act with
  | base act =>
    obtain ⟨base, hBase, rfl⟩ := Option.map_eq_some_iff.mp hStep
    exact hInv.base_step hQuiet hBase
  | lock order =>
    simp only [Shutdown.step] at hStep
    split at hStep
    · rename_i hCan
      cases hStep
      exact hInv.lock hCan.1 hQuiet hCan.2.1 hCan.2.2
    · cases hStep
  | next failure => exact hInv.next hStep

/-! ## How far `Close` is from its return -/

def Stage.remaining : Stage → Nat
  | .wait => 4
  | .fireHook => 3
  | .enterClose => 2
  | .inClose => 1

def Phase.remaining : Phase → Nat
  | .pending todo _ stage => 4 * todo.length + stage.remaining
  | .before | .returned => 0

def State.remaining (s : State) : Nat := s.phase.remaining + weight work s.base.calls

/-- A step of an opener brings it nearer, and nobody becomes one without a `Get`. -/
theorem Moves.work (hMoves : Moves r c r' c' entered)
    (hGetting : getting c = false) : work c' ≤ work c ∧ (0 < work c → work c' < work c) := by
  cases hMoves with
  | still hNext hHandles hKeeps hAlike hEntered =>
    have hWork := hAlike.work
    omega
  | installs name be hr hc hc' hEntered =>
    subst hc
    cases hGetting
  | opens name e hr hc hc' hEntered | publishes name e k hr hc hc' hEntered =>
    subst hc hc'
    exact ⟨Nat.le_succ _, fun _ => Nat.lt_succ_self _⟩
  | signals name e result hr hc hc' hEntered =>
    subst hc
    rw [work_free hc']
    exact ⟨Nat.zero_le _, fun hPos => hPos⟩
  | detaches dbs hNext hKeeps hNodup hFound hStatus purpose hc hc' hEntered =>
    subst hc'
    exact ⟨Nat.zero_le _, fun hPos => hPos⟩
  | enters purpose db rest hr hc hc' hEntered | leaves purpose db rest hr hc hc' hEntered =>
    subst hc hc'
    exact ⟨Nat.le_refl _, fun hPos => hPos⟩

theorem remaining_next {s t : State} {failure : Option String} (h : s.next failure = some t) :
    t.remaining < s.remaining := by
  unfold State.next at h
  split at h
  · rename_i hook stage hPhase
    cases h
    simp only [State.remaining, hPhase, Phase.remaining]
    cases stage <;> simp [Stage.remaining]
  · rename_i hPhase
    split at h
    · split at h
      · cases h
        simp only [State.remaining, hPhase, Phase.remaining, Stage.remaining, List.length_cons]
        omega
      · cases h
        simp only [State.remaining, hPhase, Phase.remaining, Stage.remaining]
        omega
    · cases h
  · rename_i hPhase
    cases h
    simp only [State.remaining, hPhase, Phase.remaining, Stage.remaining]
    omega
  · rename_i hPhase
    obtain ⟨db, hDb, rfl⟩ := Option.map_eq_some_iff.mp h
    simp only [State.remaining, State.withReg, hPhase, Phase.remaining, Stage.remaining]
    omega
  · rename_i hPhase
    obtain ⟨db, hDb, rfl⟩ := Option.map_eq_some_iff.mp h
    simp only [State.remaining, State.withReg, hPhase, Phase.remaining, Stage.remaining, List.length_cons]
    omega
  · cases h
  · cases h

theorem remaining_base (hDraining : Draining s.base s.phase.todo s.phase.stage) (hPhase : s.phase ≠ .before)
    {act : Registry.Action} (hQuiet : Quiet s (.base act)) {base : Registry.State}
    (hStep : Registry.step s.base act = some base) : weight work base.calls ≤ weight work s.base.calls := by
  cases act with
  | call op =>
    cases hStep
    rw [weight_append]
    cases op with
    | get name => exact absurd hQuiet hPhase
    | reserve | add | remove | reapIdle => exact Nat.le_refl _
  | step i choice =>
    obtain ⟨c, r', c', hc, hCall, rfl⟩ := step_call hStep
    have hMoves := moves_of_callStep hDraining.bare.served hCall
    have hWork := (hMoves.work (hDraining.calls c (List.mem_of_getElem? hc)).1).1
    have hSum := weight_set_add (b := c') (f := work) hc
    change weight work (s.base.calls.set i c') ≤ _
    omega
  | tick elapsed =>
    cases hStep
    exact Nat.le_refl _

theorem opener_goes_on (r : Registry) {e : EntryId} {c : Call} (h : opener e c = true) :
    0 < work c ∧ ∃ choice r' c', callStep r c choice = some (r', c') := by
  cases c with
  | opening name e' => exact ⟨Nat.zero_lt_succ _, .openOk, _, _, rfl⟩
  | opened name e' result =>
    cases result with
    | error detail => exact ⟨Nat.zero_lt_succ _, .next, _, _, rfl⟩
    | ok k => exact ⟨Nat.zero_lt_succ _, .next, _, _, rfl⟩
  | signal name e' result =>
    cases result with
    | error err => exact ⟨Nat.zero_lt_succ _, .next, _, _, rfl⟩
    | ok db => exact ⟨Nat.zero_lt_succ _, .next, _, _, rfl⟩
  | _ => cases h

/-- The step is one of `Close`, or of a call that is opening the entry at hand. -/
def Concerns (s : State) : Action → Prop
  | .next _ => True
  | .base (.step i _) => ∃ e rest c, s.phase.todo = e :: rest ∧ s.base.calls[i]? = some c ∧ opener e c = true
  | _ => False

theorem Inv.goes_on (hInv : Inv s) {hook : Bool} (hPhase : s.phase = .pending todo hook stage) :
    ∃ act t, Concerns s act ∧ Shutdown.step s act = some t ∧ t.remaining < s.remaining := by
  have hDraining := hInv.draining_pending hPhase
  -- Whatever step `Close` can take brings it nearer.
  suffices hNext : (∃ t, s.next none = some t) ∨ ∃ e rest, todo = e :: rest ∧ unready s.base.reg e = 1 by
    rcases hNext with ⟨t, hNext⟩ | ⟨e, rest, rfl, hUnready⟩
    · exact ⟨.next none, t, trivial, hNext, remaining_next hNext⟩
    · have hPos : 0 < s.base.calls.countP (opener e) := by
        rw [hInv.accounts.opener e, hUnready]
        exact Nat.one_pos
      obtain ⟨c, hc, hOpener⟩ := List.countP_pos_iff.mp hPos
      obtain ⟨i, hi⟩ := List.mem_iff_getElem?.mp hc
      obtain ⟨hWork, choice, r', c', hCall⟩ := opener_goes_on s.base.reg hOpener
      have hStep : Registry.step s.base (.step i choice) = some ⟨r', s.base.calls.set i c'⟩ := by
        simp only [Registry.step, hi, hCall]
      refine ⟨.base (.step i choice), _, ⟨e, rest, c, by rw [hPhase]; rfl, hi, hOpener⟩, by rw [Shutdown.step, hStep]; rfl, ?_⟩
      have hMoves := moves_of_callStep hDraining.bare.served hCall
      have hLess := (hMoves.work (hDraining.calls c hc).1).2 hWork
      have hSum := weight_set_add (b := c') (f := work) hi
      change s.phase.remaining + weight work (s.base.calls.set i c') < s.phase.remaining + _
      omega
  unfold State.next
  rw [hPhase]
  cases todo with
  | nil => exact .inl ⟨_, rfl⟩
  | cons e rest =>
    cases stage with
    | wait =>
      by_cases hReady : (s.base.reg.heap e).ready
      · left
        simp only [hReady, if_true]
        cases (s.base.reg.heap e).db <;> exact ⟨_, rfl⟩
      · right
        have hLt := hDraining.known e List.mem_cons_self
        exact ⟨e, rest, rfl, by simp [unready, hReady, show e < s.base.reg.nextEntry from hLt]⟩
    | fireHook => exact .inl ⟨_, rfl⟩
    | enterClose | inClose =>
      have hSome := (hDraining.head (by decide) e rest rfl).2
      obtain ⟨db, hDb⟩ := Option.ne_none_iff_exists'.mp hSome
      left
      simp only [hDb, Option.map_some]
      exact ⟨_, rfl⟩

/-! ## What `Close` leaves -/

structure Drains (s : State) : Prop where
  once : ∀ h, s.closes h ≤ 1
  goesOn : ∀ todo hook stage, s.phase = .pending todo hook stage →
    ∃ act t, Concerns s act ∧ step s act = some t ∧ t.remaining < s.remaining
  neverBack : s.phase ≠ .before → ∀ act t, Quiet s act → step s act = some t → t.remaining ≤ s.remaining
  complete : s.phase = .returned → ∀ h, h < s.base.reg.nextHandle →
    s.closes h = 1 ∨ (s.closes h = 0 ∧ ∃ c ∈ s.base.calls, (h, HandleStatus.detached) ∈ tokens c)

theorem Inv.closes_le_one (hInv : Inv s) (h : HandleId) : s.closes h ≤ 1 := by
  rw [hInv.accounts.closes h, stands, stands]
  by_cases hClosing : h < s.base.reg.nextHandle ∧ (s.base.reg.handles h).status = .closing
  · rw [if_pos hClosing, if_neg]
    rintro ⟨_, hClosed⟩
    cases hClosing.2.symm.trans hClosed
  · rw [if_neg hClosing]
    split <;> simp

theorem Inv.complete (hInv : Inv s) (hPhase : s.phase = .returned) {h : HandleId}
    (hLt : h < s.base.reg.nextHandle) :
    s.closes h = 1 ∨ (s.closes h = 0 ∧ ∃ c ∈ s.base.calls, (h, HandleStatus.detached) ∈ tokens c) := by
  have hNot : s.phase ≠ .before := by
    rw [hPhase]
    intro hEq
    cases hEq
  have hDraining := hInv.draining hNot
  rw [hPhase] at hDraining
  have hCloses := hInv.accounts.closes h
  have hToken : ∀ status, status ≠ .closed → (s.base.reg.handles h).status = status →
      ∃ c ∈ s.base.calls, (h, status) ∈ tokens c := by
    intro status hOther hStatus
    have hCount := hInv.accounts.token h status hOther fun _ => hNot
    rw [stands_eq_one.mpr ⟨hLt, hStatus⟩, State.tokens, hPhase, Phase.tokens, List.append_nil] at hCount
    have hMem : (h, status) ∈ s.base.calls.flatMap tokens := List.count_pos_iff.mp (by omega)
    exact List.mem_flatMap.mp hMem
  cases hStatus : (s.base.reg.handles h).status with
  | «open» =>
    -- Whoever has an open handle is about to put it into an entry that is still to be seen.
    obtain ⟨c, hc, hMem⟩ := hToken .open (by decide) hStatus
    rcases count_tokens_open c h with hZero | ⟨name, e, rfl, _⟩
    · exact absurd hMem (List.count_eq_zero.mp hZero)
    · cases ((hDraining.calls _ hc).2 e (decide_eq_true rfl)).1
  | detached =>
    refine .inr ⟨?_, hToken .detached (by decide) hStatus⟩
    rw [hCloses]
    simp [stands, hStatus]
  | closing | closed =>
    left
    rw [hCloses]
    simp [stands, hStatus, show h < s.base.reg.nextHandle from hLt]

theorem Inv.drains (hInv : Inv s) : Drains s where
  once := hInv.closes_le_one
  goesOn _ _ _ hPhase := hInv.goes_on hPhase
  neverBack hPhase act t hQuiet hStep := by
    cases act with
    | base act =>
      obtain ⟨base, hBase, rfl⟩ := Option.map_eq_some_iff.mp hStep
      exact Nat.add_le_add_left (remaining_base (hInv.draining hPhase) hPhase hQuiet hBase) _
    | lock order =>
      simp only [Shutdown.step] at hStep
      split at hStep
      · rename_i hCan
        exact absurd hCan.1 hPhase
      · cases hStep
    | next failure => exact (remaining_next hStep).le
  complete hPhase _ hLt := hInv.complete hPhase hLt

theorem close_drains_registry (backends : Finmap (fun _ : DbName => Backend)) (actions : List Action)
    (hQuiet : Guarded step Quiet (init backends) actions) : Always step Drains (init backends) actions :=
  (always_of_guarded (fun _ _ _ hInv hQuiet hStep => hInv.step hQuiet hStep) (inv_init backends) hQuiet).mono
    fun _ hInv => hInv.drains

/-- A reaper has taken the first handle off the map and a `Get` is opening the second when
`Close` comes. -/
def lateOpener : List Action :=
  [.base (.call (.get "a")), .base (.step 0 .next), .base (.step 0 .openOk), .base (.step 0 .next),
    .base (.step 0 .next), .base (.step 0 .next), .base (.step 0 .release), .base (.tick 5),
    .base (.call (.reapIdle 1)), .base (.step 1 .next), .base (.step 1 (.range ["a"])),
    .base (.call (.get "b")), .base (.step 2 .next), .lock ["b"],
    .base (.step 2 .openOk), .base (.step 2 .next), .base (.step 2 .next),
    .next none, .next none, .next none, .next (some "disk I/O error"), .next none]

def twoFiles : Finmap (fun _ : DbName => Backend) :=
  ((∅ : Finmap fun _ : DbName => Backend).insert "a" ⟨"file", false⟩).insert "b" ⟨"file", false⟩

theorem lateOpener_drained : Always step Drains (init twoFiles) lateOpener ∧
    (run step (init twoFiles) lateOpener).map (fun s => (s.phase, s.errs, s.closes 0, s.closes 1)) =
      some (.returned, [("b", "disk I/O error")], 0, 1) :=
  ⟨close_drains_registry twoFiles lateOpener (by decide +kernel), by decide +kernel⟩

end QuicSql.Registry.Shutdown
