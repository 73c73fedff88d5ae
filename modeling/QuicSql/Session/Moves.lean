import QuicSql.Session.System

/-!
# What one step of a session call can do

The operations of the store reduce to a few changes: a slot is counted, a
session is inserted, one session's flags are written, sessions that are not in
use are closed. `Move` lists them once, and every property of the store is then
proved over that list.
-/

namespace QuicSql.Sessions

open Lib

variable {codec : Codec} {s t : State} {c c' : Call} {st st' : Store} {id : SessionId} {p : Ptr}

/-! ## Closing sessions -/

@[simp] theorem releaseSlot_sessions (db : DbName) : (st.releaseSlot db).sessions = st.sessions := by
  unfold Store.releaseSlot
  split <;> rfl

@[simp] theorem releaseSlot_heap (db : DbName) : (st.releaseSlot db).heap = st.heap := by
  unfold Store.releaseSlot
  split <;> rfl

@[simp] theorem releaseSlot_nextPtr (db : DbName) : (st.releaseSlot db).nextPtr = st.nextPtr := by
  unfold Store.releaseSlot
  split <;> rfl

@[simp] theorem releaseSlot_closing (db : DbName) : (st.releaseSlot db).closing = st.closing := by
  unfold Store.releaseSlot
  split <;> rfl

@[simp] theorem releaseSlot_max (db : DbName) : (st.releaseSlot db).max = st.max := by
  unfold Store.releaseSlot
  split <;> rfl

@[simp] theorem releaseSlot_ttl (db : DbName) : (st.releaseSlot db).ttl = st.ttl := by
  unfold Store.releaseSlot
  split <;> rfl

@[simp] theorem releaseSlot_maxLife (db : DbName) : (st.releaseSlot db).maxLife = st.maxLife := by
  unfold Store.releaseSlot
  split <;> rfl

def Session.teardown (s : Session) : Teardown := ⟨s.conn, s.release, s.readOnly, s.attach⟩

theorem closeLocked_of_lookup (h : st.sessions.lookup id = some p) :
    st.closeLocked id =
      { ({ st with sessions := st.sessions.erase id } : Store).releaseSlot (st.heap p).dbName with
        closing := st.closing ++ [(st.heap p).teardown] } := by
  simp [Store.closeLocked, h, Session.teardown]

theorem closeLocked_of_none (h : st.sessions.lookup id = none) : st.closeLocked id = st := by
  simp [Store.closeLocked, h]

@[simp] theorem closeLocked_heap : (st.closeLocked id).heap = st.heap := by
  cases h : st.sessions.lookup id with
  | none => rw [closeLocked_of_none h]
  | some p => simp [closeLocked_of_lookup h]

@[simp] theorem closeLocked_nextPtr : (st.closeLocked id).nextPtr = st.nextPtr := by
  cases h : st.sessions.lookup id with
  | none => rw [closeLocked_of_none h]
  | some p => simp [closeLocked_of_lookup h]

theorem closeLocked_sessions : (st.closeLocked id).sessions = st.sessions.erase id := by
  cases h : st.sessions.lookup id with
  | none => rw [closeLocked_of_none h, erase_of_lookup_none h]
  | some p => simp [closeLocked_of_lookup h]

theorem lookup_of_closeLocked {id' : SessionId} {q : Ptr}
    (h : (st.closeLocked id).sessions.lookup id' = some q) : st.sessions.lookup id' = some q := by
  rw [closeLocked_sessions] at h
  exact (of_lookup_erase h).2

/-- Sessions are closed one after another, none of them with a request in flight. -/
inductive Evicts : Store → Store → Prop where
  | refl (st : Store) : Evicts st st
  | close {st st' : Store} {id : SessionId} {p : Ptr} (hLookup : st.sessions.lookup id = some p)
      (hIdle : (st.heap p).busy = false) (rest : Evicts (st.closeLocked id) st') : Evicts st st'

theorem Evicts.one (hLookup : st.sessions.lookup id = some p) (hIdle : (st.heap p).busy = false) :
    Evicts st (st.closeLocked id) :=
  .close hLookup hIdle (.refl _)

theorem Evicts.trans {st'' : Store} (h : Evicts st st') (h' : Evicts st' st'') : Evicts st st'' := by
  induction h with
  | refl => exact h'
  | close hLookup hIdle _ ih => exact .close hLookup hIdle (ih h')

structure EvictFrame (st st' : Store) : Prop where
  heap : st'.heap = st.heap
  nextPtr : st'.nextPtr = st.nextPtr
  ttl : st'.ttl = st.ttl
  maxLife : st'.maxLife = st.maxLife
  live : ∀ id p, st'.sessions.lookup id = some p → st.sessions.lookup id = some p

theorem evictFrame_closeLocked (st : Store) (id : SessionId) : EvictFrame st (st.closeLocked id) where
  heap := closeLocked_heap
  nextPtr := closeLocked_nextPtr
  ttl := by
    cases h : st.sessions.lookup id with
    | none => rw [closeLocked_of_none h]
    | some p => simp [closeLocked_of_lookup h]
  maxLife := by
    cases h : st.sessions.lookup id with
    | none => rw [closeLocked_of_none h]
    | some p => simp [closeLocked_of_lookup h]
  live _ _ hLookup := lookup_of_closeLocked hLookup

theorem Evicts.frame (h : Evicts st st') : EvictFrame st st' := by
  induction h with
  | refl => exact ⟨rfl, rfl, rfl, rfl, fun _ _ h => h⟩
  | @close st st' id p _ _ _ ih =>
    have hOne := evictFrame_closeLocked st id
    exact ⟨ih.heap.trans hOne.heap, ih.nextPtr.trans hOne.nextPtr, ih.ttl.trans hOne.ttl,
      ih.maxLife.trans hOne.maxLife, fun id p h => hOne.live id p (ih.live id p h)⟩

theorem busy_of_reapable {s : Session} (h : st.reapable s = true) : s.busy = false := by
  unfold Store.reapable at h
  split at h
  · cases h
  · rename_i hIdle
    simpa using hIdle

theorem evicts_kill (idStr : String) : Evicts st (st.kill codec idStr).1 := by
  unfold Store.kill
  split
  · exact .refl _
  · split
    · split
      · exact .refl _
      · rename_i hLookup
        split
        · exact .refl _
        · rename_i hIdle
          exact .one hLookup (by simpa using hIdle)
    · exact .refl _

theorem evicts_foldl {f : Store → SessionId → Store} (hf : ∀ st id, Evicts st (f st id))
    (order : List SessionId) (st : Store) : Evicts st (order.foldl f st) := by
  induction order generalizing st with
  | nil => exact .refl _
  | cons id rest ih => exact (hf st id).trans (ih (f st id))

theorem evicts_closeAll (order : List SessionId) : Evicts st (st.closeAll order) := by
  apply evicts_foldl
  intro st id
  unfold Store.closeAllOne
  split
  · exact .refl _
  · rename_i hLookup
    split
    · exact .refl _
    · rename_i hIdle
      exact .one hLookup (by simpa using hIdle)

theorem evicts_reap (order : List SessionId) : Evicts st (st.reap order) := by
  apply evicts_foldl
  intro st id
  unfold Store.reapOne
  split
  · exact .refl _
  · rename_i hLookup
    split
    · rename_i hReap
      exact .one hLookup (busy_of_reapable hReap)
    · exact .refl _

/-! ## Resuming -/

def Session.taken (s : Session) (now : Time) : Session :=
  { s with gen := (s.gen + 1) % 2 ^ 64, busy := true, lastUsed := now }

/-- When Resume accepts: the baton's session is live, idle and current, bound to this
database and principal, and not expired. -/
structure Accepts (st : Store) (id : SessionId) (gen : Nat) (db principal : String) (p : Ptr) : Prop where
  lookup : st.sessions.lookup id = some p
  gen_eq : (st.heap p).gen = gen
  idle : (st.heap p).busy = false
  dbName : (st.heap p).dbName = db
  principal : (st.heap p).principal = principal
  fresh : st.now - (st.heap p).lastUsed ≤ st.ttl
  young : st.now - (st.heap p).created ≤ st.maxLife

theorem resume_cases (codec : Codec) (st : Store) (baton db principal : String) :
    (∃ err st', st.resume codec baton db principal = (st', .error err) ∧ Evicts st st') ∨
    ∃ id gen p, verify codec baton = .ok (id, gen) ∧ Accepts st id gen db principal p ∧
      st.resume codec baton db principal =
        (st.setSession p ((st.heap p).taken st.now), .ok p) := by
  unfold Store.resume
  split
  · exact .inl ⟨_, _, rfl, .refl _⟩
  · rename_i id gen hVerify
    split
    · exact .inl ⟨_, _, rfl, .refl _⟩
    · rename_i p hLookup
      dsimp only
      split
      · exact .inl ⟨_, _, rfl, .refl _⟩
      rename_i hGen
      split
      · exact .inl ⟨_, _, rfl, .refl _⟩
      rename_i hBusy
      have hIdle : (st.heap p).busy = false := by simpa using hBusy
      split
      · exact .inl ⟨_, _, rfl, .one hLookup hIdle⟩
      rename_i hReap
      split
      · exact .inl ⟨_, _, rfl, .refl _⟩
      rename_i hDb
      split
      · exact .inl ⟨_, _, rfl, .refl _⟩
      rename_i hPrincipal
      simp only [Store.reapable, hIdle, Bool.false_eq_true, if_false, Bool.or_eq_true,
        decide_eq_true_eq, not_or, Int.not_lt] at hReap
      exact .inr ⟨id, gen, p, hVerify,
        ⟨hLookup, not_not.mp hGen, hIdle, not_not.mp hDb, not_not.mp hPrincipal, hReap.1, hReap.2⟩, rfl⟩

theorem resume_of_accepts {baton db principal : String} {gen : Nat}
    (hVerify : verify codec baton = .ok (id, gen)) (hAccepts : Accepts st id gen db principal p) :
    st.resume codec baton db principal = (st.setSession p ((st.heap p).taken st.now), .ok p) := by
  have hFresh : st.reapable (st.heap p) = false := by
    have h₁ := hAccepts.fresh
    have h₂ := hAccepts.young
    simp [Store.reapable, hAccepts.idle, h₁, h₂]
  simp [Store.resume, hVerify, hAccepts.lookup, hAccepts.gen_eq, hAccepts.idle, hFresh, hAccepts.dbName,
    hAccepts.principal, Session.taken]

/-! ## Names -/

theorem insertSession_self (st : Store) (new : Session) : (st.insertSession new).heap st.nextPtr = new :=
  Function.update_self _ _ _

theorem insertSession_of_lt (new : Session) (hp : p < st.nextPtr) : (st.insertSession new).heap p = st.heap p :=
  Function.update_of_ne (Nat.ne_of_lt hp) _ _

theorem lookup_insertSession_cases {new : Session} (h : (st.insertSession new).sessions.lookup id = some p) :
    (id = new.id ∧ p = st.nextPtr) ∨ st.sessions.lookup id = some p := by
  change (st.sessions.insert new.id st.nextPtr).lookup id = some p at h
  by_cases hId : id = new.id
  · rw [hId, Finmap.lookup_insert] at h
    exact .inl ⟨hId, (Option.some.inj h).symm⟩
  · rw [Finmap.lookup_insert_of_ne _ hId] at h
    exact .inr h

theorem ptrs_insertSession (new : Session) (hPtrs : ∀ id p, st.sessions.lookup id = some p → p < st.nextPtr)
    (id : SessionId) (p : Ptr) (h : (st.insertSession new).sessions.lookup id = some p) : p < st.nextPtr + 1 := by
  rcases lookup_insertSession_cases h with ⟨_, rfl⟩ | hOld
  · exact Nat.lt_succ_self _
  · exact Nat.lt_succ_of_lt (hPtrs id p hOld)

/-- Sessions are filed under their own ids, and no two have the same. -/
structure Named (st : Store) : Prop where
  live : ∀ id p, st.sessions.lookup id = some p → p < st.nextPtr ∧ (st.heap p).id = id
  ids : ∀ p q, p < st.nextPtr → q < st.nextPtr → (st.heap p).id = (st.heap q).id → p = q

theorem Named.of_frame (h : Named st) (hFrame : EvictFrame st st') : Named st' where
  live id p hLookup := by
    rw [hFrame.nextPtr, hFrame.heap]
    exact h.live id p (hFrame.live id p hLookup)
  ids := by
    rw [hFrame.nextPtr, hFrame.heap]
    exact h.ids

theorem Named.setSession {new : Session} (h : Named st) (hId : new.id = (st.heap p).id) :
    Named (st.setSession p new) where
  live id q hLookup := by
    rw [Store.setSession_field Session.id hId]
    exact h.live id q hLookup
  ids q q' hq hq' hEq := by
    rw [Store.setSession_field Session.id hId, Store.setSession_field Session.id hId] at hEq
    exact h.ids q q' hq hq' hEq

theorem Named.insertSession {new : Session} (h : Named st)
    (hFresh : ∀ p, p < st.nextPtr → (st.heap p).id ≠ new.id) : Named (st.insertSession new) where
  live id q hLookup := by
    rcases lookup_insertSession_cases hLookup with ⟨hId, rfl⟩ | hOld
    · exact ⟨Nat.lt_succ_self _, by rw [insertSession_self, hId]⟩
    · obtain ⟨hq, hqId⟩ := h.live id q hOld
      exact ⟨Nat.lt_succ_of_lt hq, by rw [insertSession_of_lt _ hq, hqId]⟩
  ids q q' hq hq' hEq := by
    rcases Nat.lt_succ_iff_lt_or_eq.mp hq with hq | rfl <;> rcases Nat.lt_succ_iff_lt_or_eq.mp hq' with hq' | rfl
    · rw [insertSession_of_lt _ hq, insertSession_of_lt _ hq'] at hEq
      exact h.ids q q' hq hq' hEq
    · rw [insertSession_of_lt _ hq, insertSession_self] at hEq
      exact absurd hEq (hFresh q hq)
    · rw [insertSession_of_lt _ hq', insertSession_self] at hEq
      exact absurd hEq.symm (hFresh q' hq')
    · rfl

/-! ## The list of moves -/

def Call.holdsSlot (name : DbName) : Call → Bool
  | .pin o _ | .mode o _ _ | .register o _ _ | .giveBack o _ _ => o.db = name
  | _ => false

def Call.owes (ref : Ref) : Call → Bool
  | .slot _ r | .pin _ r | .mode _ r _ | .register _ r _ | .giveBack _ r _ | .dropRef r _ => r = ref
  | _ => false

def Call.serves (p : Ptr) : Call → Bool
  | .serving q => q = p
  | _ => false

/-- The arguments of a stream call that may still register its session. -/
def Call.opener : Call → Option Open
  | .stream o | .slot o _ | .pin o _ | .mode o _ _ | .register o _ _ => some o
  | _ => none

inductive Move (codec : Codec) (s : State) : Call → Choice → State → Call → Prop where
  | quiet {c : Call} {choice : Choice} {c' : Call} (hSlot : ∀ name, c'.holdsSlot name = c.holdsSlot name)
      (hOwes : ∀ ref, c'.owes ref = c.owes ref) (hServes : ∀ p, c'.serves p = c.serves p)
      (hOpener : ∀ o, c'.opener = some o → c.opener = some o) :
      Move codec s c choice s c'
  | obtain (o : Open) : Move codec s (.stream o) .next { s with nextRef := s.nextRef + 1 } (.slot o s.nextRef)
  | reserve (o : Open) (ref : Ref) (hRoom : s.store.perDB o.db < s.store.max) :
      Move codec s (.slot o ref) .next { s with store := s.store.addSlot o.db 1 } (.pin o ref)
  | register (o : Open) (ref : Ref) (conn : ConnId) (id : SessionId) :
      Move codec s (.register o ref conn) (.generated id)
        { s with store := s.store.insertSession (o.session ref conn id s.store.now) }
        (.serving s.store.nextPtr)
  | randFailed (o : Open) (ref : Ref) (conn : ConnId) (detail : String) :
      Move codec s (.register o ref conn) (.fail detail)
        { s with store := s.store.addSlot o.db (-1) } (.dropRef ref (.rand detail))
  | giveBack (o : Open) (ref : Ref) (err : Err) :
      Move codec s (.giveBack o ref err) .next { s with store := s.store.releaseSlot o.db } (.dropRef ref err)
  | dropRef (ref : Ref) (err : Err) : Move codec s (.dropRef ref err) .next (s.setRelease ref) (.failed err)
  | resume (baton db principal : String) {id : SessionId} {gen : Nat} {p : Ptr}
      (hVerify : verify codec baton = .ok (id, gen))
      (hAccepts : Accepts s.store id gen db principal p)
      (hOk : (s.store.resume codec baton db principal).2 = .ok p) :
      Move codec s (.resume baton db principal) .next
        { s with
          store := s.store.setSession p ((s.store.heap p).taken s.store.now)
          resumes := s.resumes ++ [⟨id, gen, db, principal, s.store.heap p, s.store.now⟩] }
        (.serving p)
  | evict {c : Call} {choice : Choice} {c' : Call} {st' : Store} (hEvicts : Evicts s.store st')
      (hSlot : ∀ name, c'.holdsSlot name = c.holdsSlot name)
      (hOwes : ∀ ref, c'.owes ref = c.owes ref) (hServes : ∀ p, c'.serves p = c.serves p)
      (hOpener : ∀ o, c'.opener ≠ some o) :
      Move codec s c choice { s with store := st' } c'
  | baton (p : Ptr) : Move codec s (.serving p) .baton { s with store := (s.store.baton codec p).1 } (.answered p)
  | close {c : Call} (p : Ptr) (hc : c = .serving p ∨ c = .answered p ∨ c = .closed p) :
      Move codec s c .close { s with store := s.store.close p } (.closed p)

theorem move_of_resume (baton db principal : String) :
    Move codec s (.resume baton db principal) .next (resumeStep codec s baton db principal).1
      (resumeStep codec s baton db principal).2 := by
  rcases resume_cases codec s.store baton db principal with
    ⟨err, st', hResume, hEvicts⟩ | ⟨id, gen, p, hVerify, hAccepts, hResume⟩
  · simp only [resumeStep, hResume]
    exact .evict hEvicts (fun _ => rfl) (fun _ => rfl) (fun _ => rfl) nofun
  · simp only [resumeStep, hResume, resumed, hVerify]
    exact .resume baton db principal hVerify hAccepts (by rw [hResume])

theorem callStep_move {choice : Choice} (h : callStep codec s c choice = some (t, c')) :
    Move codec s c choice t c' := by
  unfold callStep at h
  split at h
  case h_3 o ref =>
    unfold Store.reserveSlot at h
    split at h
    · rename_i hFull
      split at hFull
      · cases hFull
        cases h
        exact .quiet (fun _ => rfl) (fun _ => rfl) (fun _ => rfl) nofun
      · cases hFull
    · rename_i hFull
      split at hFull
      · cases hFull
      · rename_i hRoom
        cases hFull
        cases h
        exact .reserve o ref (by simpa using hRoom)
  case h_12 baton db principal =>
    obtain ⟨rfl, rfl⟩ := Prod.ext_iff.mp (Option.some.inj h)
    exact move_of_resume baton db principal
  case h_1 o =>
    cases h
    exact .obtain o
  case h_8 o ref conn id =>
    cases h
    exact .register o ref conn id
  case h_9 o ref conn detail =>
    cases h
    exact .randFailed o ref conn detail
  case h_10 o ref err =>
    cases h
    exact .giveBack o ref err
  case h_11 ref err =>
    cases h
    exact .dropRef ref err
  case h_14 p =>
    cases h
    exact .baton p
  case h_15 p =>
    cases h
    exact .close p (.inl rfl)
  case h_16 p =>
    cases h
    exact .close p (.inr (.inl rfl))
  case h_17 p =>
    cases h
    exact .close p (.inr (.inr rfl))
  case h_18 idStr =>
    cases h
    exact .evict (evicts_kill idStr) (fun _ => rfl) (fun _ => rfl) (fun _ => rfl) nofun
  case h_19 order =>
    split at h
    · cases h
      exact .evict (evicts_reap order) (fun _ => rfl) (fun _ => rfl) (fun _ => rfl) nofun
    · cases h
  case h_20 order =>
    split at h
    · cases h
      exact .evict (evicts_closeAll order) (fun _ => rfl) (fun _ => rfl) (fun _ => rfl) nofun
    · cases h
  case h_7 | h_21 =>
    split at h
    · cases h
      exact .quiet (fun _ => rfl) (fun _ => rfl) (fun _ => rfl) nofun
    · cases h
  case h_4 | h_6 | h_13 =>
    cases h
    exact .quiet (fun _ => rfl) (fun _ => rfl) (fun _ => rfl) (fun _ h => h)
  case h_2 | h_5 =>
    cases h
    exact .quiet (fun _ => rfl) (fun _ => rfl) (fun _ => rfl) nofun
  case h_22 => cases h

end QuicSql.Sessions
