import QuicSql.Lib.Pool
import QuicSql.Session.Moves

/-!
# Slots and registry references

The per-database counter is the number of sessions bound to the database plus
the number of opens that hold a slot, and every registry reference has exactly
one owner until it has been released once. Both are balance equations: each
section of the store moves a unit from one term to another.
-/

namespace QuicSql.Sessions

open Lib

variable {codec : Codec} {st st' : Store} {opens opens' : DbName → Nat} {spent spent' : Ref → Nat}
  {nextRef : Ref} {id : SessionId} {p : Ptr}

def Store.bound (st : Store) (name : DbName) : Nat :=
  tally st.sessions (fun p => (st.heap p).dbName = name)

def Store.owners (st : Store) (ref : Ref) : Nat :=
  tally st.sessions (fun p => (st.heap p).release = ref)

def Store.pending (st : Store) (ref : Ref) : Nat := st.closing.countP (fun t => t.release = ref)

/-- The balance of a store whose opens in progress hold `opens` slots, and of whose
references `spent` are released or still with the call that obtained them. -/
structure Books (st : Store) (opens : DbName → Nat) (spent : Ref → Nat) (nextRef : Ref) : Prop where
  ptrs : ∀ id p, st.sessions.lookup id = some p → p < st.nextPtr
  slots : ∀ name, st.perDB name = st.bound name + opens name
  cap : ∀ name, st.perDB name ≤ st.max
  refs : ∀ ref, spent ref + st.owners ref + st.pending ref = (decide (ref < nextRef)).toNat

theorem Books.congr (hBooks : Books st opens spent nextRef) (hOpens : ∀ name, opens' name = opens name)
    (hSpent : ∀ ref, spent' ref = spent ref) : Books st opens' spent' nextRef := by
  rw [funext hOpens, funext hSpent]
  exact hBooks

/-! ## One section at a time -/

theorem addSlot_perDB (db name : DbName) (n : Int) :
    (st.addSlot db n).perDB name = st.perDB name + (if db = name then n else 0) := by
  unfold Store.addSlot
  by_cases h : name = db
  · subst h
    simp
  · simp [Function.update_of_ne h, Ne.symm h]

theorem Books.slots_addSlot {db : DbName} {n : Int} (hBooks : Books st opens spent nextRef)
    (hOpens : ∀ name, (opens' name : Int) = opens name + if db = name then n else 0) (name : DbName) :
    (st.addSlot db n).perDB name = (st.addSlot db n).bound name + opens' name := by
  have hBound : (st.addSlot db n).bound name = st.bound name := rfl
  rw [addSlot_perDB, hBooks.slots name, hOpens name, hBound]
  omega

theorem Books.reserve {db : DbName} (hBooks : Books st opens spent nextRef)
    (hRoom : st.perDB db < st.max) (hOpens : ∀ name, opens' name = opens name + (decide (db = name)).toNat) :
    Books (st.addSlot db 1) opens' spent nextRef where
  ptrs := hBooks.ptrs
  slots := by
    apply hBooks.slots_addSlot
    intro name
    have hNew := hOpens name
    by_cases h : db = name <;> simp [h] at hNew ⊢ <;> omega
  cap name := by
    have hCap := hBooks.cap name
    rw [addSlot_perDB]
    change _ ≤ st.max
    by_cases h : db = name
    · subst h
      rw [if_pos rfl]
      omega
    · rw [if_neg h]
      omega
  refs := hBooks.refs

theorem Books.unreserve {db : DbName} (hBooks : Books st opens spent nextRef)
    (hOpens : ∀ name, opens' name + (decide (db = name)).toNat = opens name) :
    Books (st.addSlot db (-1)) opens' spent nextRef where
  ptrs := hBooks.ptrs
  slots := by
    apply hBooks.slots_addSlot
    intro name
    have hNew := hOpens name
    by_cases h : db = name <;> simp [h] at hNew ⊢ <;> omega
  cap name := by
    have hCap := hBooks.cap name
    rw [addSlot_perDB]
    change _ ≤ st.max
    split <;> omega
  refs := hBooks.refs

/-- The guard in `releaseSlot` never bites: whoever releases holds a slot. -/
theorem Books.releaseSlot_eq {db : DbName} (hBooks : Books st opens spent nextRef)
    (hHolds : 0 < st.bound db + opens db) : st.releaseSlot db = st.addSlot db (-1) := by
  have hSlots := hBooks.slots db
  exact if_pos (by omega)

theorem Books.obtain (hBooks : Books st opens spent nextRef) (hOpens : ∀ name, opens' name = opens name)
    (hSpent : ∀ ref, spent' ref = spent ref + (decide (nextRef = ref)).toNat) :
    Books st opens' spent' (nextRef + 1) := by
  rw [funext hOpens]
  refine ⟨hBooks.ptrs, hBooks.slots, hBooks.cap, ?_⟩
  intro ref
  have hRefs := hBooks.refs ref
  have hNew := hSpent ref
  have hLt : (decide (ref < nextRef + 1)).toNat =
      (decide (ref < nextRef)).toNat + (decide (nextRef = ref)).toNat := by
    rcases Nat.lt_trichotomy ref nextRef with h | h | h
    · simp [h, Nat.lt_succ_of_lt h, Nat.ne_of_gt h]
    · simp [h]
    · simp [Nat.not_lt_of_lt h, Nat.not_lt.mpr h, Nat.ne_of_lt h]
  omega

theorem Books.insertSession {s : Session} (hBooks : Books st opens spent nextRef)
    (hFresh : st.sessions.lookup s.id = none)
    (hOpens : ∀ name, opens' name + (decide (s.dbName = name)).toNat = opens name)
    (hSpent : ∀ ref, spent' ref + (decide (s.release = ref)).toNat = spent ref) :
    Books (st.insertSession s) opens' spent' nextRef := by
  have hTally : ∀ f : Session → Bool,
      tally (st.insertSession s).sessions (fun p => f ((st.insertSession s).heap p)) =
        tally st.sessions (fun p => f (st.heap p)) + (f s).toNat := by
    intro f
    unfold Store.insertSession
    dsimp only
    rw [tally_insert hFresh, Function.update_self]
    congr 1
    apply tally_congr
    intro id p hLookup
    rw [Function.update_of_ne (Nat.ne_of_lt (hBooks.ptrs id p hLookup))]
  constructor
  · exact ptrs_insertSession s hBooks.ptrs
  · intro name
    have hSlots := hBooks.slots name
    have hNew := hOpens name
    unfold Store.bound at hSlots ⊢
    rw [hTally (fun s => decide (s.dbName = name))]
    change st.perDB name = _
    omega
  · exact hBooks.cap
  · intro ref
    have hRefs := hBooks.refs ref
    have hNew := hSpent ref
    unfold Store.owners at hRefs ⊢
    rw [hTally (fun s => decide (s.release = ref))]
    change _ + _ + st.pending ref = _
    omega

theorem Books.setSession {s : Session} (hBooks : Books st opens spent nextRef)
    (hDb : s.dbName = (st.heap p).dbName) (hRelease : s.release = (st.heap p).release) :
    Books (st.setSession p s) opens spent nextRef := by
  constructor
  · exact hBooks.ptrs
  · intro name
    unfold Store.bound
    simp only [Store.setSession_field Session.dbName hDb]
    exact hBooks.slots name
  · exact hBooks.cap
  · intro ref
    unfold Store.owners
    simp only [Store.setSession_field Session.release hRelease]
    exact hBooks.refs ref

theorem closeLocked_tally (hLookup : st.sessions.lookup id = some p) (f : Session → Bool) :
    tally (st.closeLocked id).sessions (fun q => f ((st.closeLocked id).heap q)) + (f (st.heap p)).toNat =
      tally st.sessions (fun q => f (st.heap q)) := by
  rw [closeLocked_sessions, closeLocked_heap]
  exact tally_erase hLookup _

theorem closeLocked_perDB (hLookup : st.sessions.lookup id = some p) (hPos : 0 < st.perDB (st.heap p).dbName) :
    (st.closeLocked id).perDB = (st.addSlot (st.heap p).dbName (-1)).perDB := by
  rw [closeLocked_of_lookup hLookup]
  simp only [Store.releaseSlot]
  rw [if_pos hPos]
  rfl

theorem Books.closeLocked (hBooks : Books st opens spent nextRef) (id : SessionId) :
    Books (st.closeLocked id) opens spent nextRef := by
  cases hLookup : st.sessions.lookup id with
  | none =>
    rw [closeLocked_of_none hLookup]
    exact hBooks
  | some p =>
    have hPos : 0 < st.perDB (st.heap p).dbName := by
      have hSlots := hBooks.slots (st.heap p).dbName
      have hBound : 0 < st.bound (st.heap p).dbName := tally_pos hLookup (by simp)
      omega
    have hPerDB := closeLocked_perDB hLookup hPos
    have hMax : (st.closeLocked id).max = st.max := by
      rw [closeLocked_of_lookup hLookup]
      simp
    constructor
    · intro id' q hq
      rw [closeLocked_nextPtr]
      exact hBooks.ptrs id' q (lookup_of_closeLocked hq)
    · intro name
      have hSlots := hBooks.slots name
      have hBound := closeLocked_tally hLookup (fun s => decide (s.dbName = name))
      unfold Store.bound at hSlots ⊢
      rw [hPerDB, addSlot_perDB]
      by_cases h : (st.heap p).dbName = name <;> simp [h] at hBound ⊢ <;> omega
    · intro name
      have hCap := hBooks.cap name
      rw [hPerDB, hMax, addSlot_perDB]
      split <;> omega
    · intro ref
      have hRefs := hBooks.refs ref
      have hOwners := closeLocked_tally hLookup (fun s => decide (s.release = ref))
      have hPending : (st.closeLocked id).pending ref =
          st.pending ref + (decide ((st.heap p).release = ref)).toNat := by
        unfold Store.pending
        rw [closeLocked_of_lookup hLookup]
        by_cases h : (st.heap p).release = ref <;> simp [Session.teardown, h]
      unfold Store.owners at hRefs ⊢
      omega

theorem Books.evicts (hBooks : Books st opens spent nextRef) (hEvicts : Evicts st st') :
    Books st' opens spent nextRef := by
  induction hEvicts with
  | refl => exact hBooks
  | close _ _ _ ih => exact ih (hBooks.closeLocked _)

theorem Books.teardown {i : Nat} {t : Teardown} (hBooks : Books st opens spent nextRef)
    (ht : st.closing[i]? = some t)
    (hSpent : ∀ ref, spent' ref = spent ref + (decide (t.release = ref)).toNat) :
    Books { st with closing := st.closing.eraseIdx i } opens spent' nextRef where
  ptrs := hBooks.ptrs
  slots := hBooks.slots
  cap := hBooks.cap
  refs ref := by
    have hRefs := hBooks.refs ref
    have hNew := hSpent ref
    have hPending : (st.closing.eraseIdx i).countP (fun t => t.release = ref) +
        (decide (t.release = ref)).toNat = st.pending ref := countP_eraseIdx_add ht
    change spent' ref + st.owners ref + _ = _
    unfold Store.pending
    dsimp only
    omega

/-! ## The whole system -/

def State.openings (s : State) (name : DbName) : Nat := s.calls.countP (Call.holdsSlot name)

def State.owed (s : State) (ref : Ref) : Nat := s.calls.countP (Call.owes ref)

/-- The books of a state: a reference is spent once released or while its call owes it. -/
def Accounted (s : State) : Prop :=
  Books s.store s.openings (fun ref => s.released ref + s.owed ref) s.nextRef

variable {s t : State} {c c' : Call} {i : Nat} {choice : Choice}

theorem setRelease_released (ref ref' : Ref) :
    (s.setRelease ref).released ref' = s.released ref' + (decide (ref = ref')).toNat := by
  unfold State.setRelease
  by_cases h : ref' = ref
  · subst h
    simp
  · simp [Function.update_of_ne h, Ne.symm h]

theorem Accounted.of_move (hAcct : Accounted s) (hc : s.calls[i]? = some c)
    (hMove : Move codec s c choice t c') (hFresh : ∀ id, choice = .generated id →
      s.store.sessions.lookup id = none) :
    Accounted { t with calls := s.calls.set i c' } := by
  have hOpens : ∀ name, (s.calls.set i c').countP (Call.holdsSlot name) + (c.holdsSlot name).toNat =
      s.openings name + (c'.holdsSlot name).toNat := fun name => countP_set_add hc
  have hOwed : ∀ ref, (s.calls.set i c').countP (Call.owes ref) + (c.owes ref).toNat =
      s.owed ref + (c'.owes ref).toNat := fun ref => countP_set_add hc
  unfold Accounted at hAcct ⊢
  unfold State.openings State.owed
  dsimp only
  -- A change of flags or a close leaves the terms counted over the calls alone.
  have hSame : (∀ name, c'.holdsSlot name = c.holdsSlot name) → (∀ ref, c'.owes ref = c.owes ref) →
      (∀ name, (s.calls.set i c').countP (Call.holdsSlot name) = s.openings name) ∧
      ∀ ref, s.released ref + (s.calls.set i c').countP (Call.owes ref) = s.released ref + s.owed ref := by
    intro hSlot hOwes
    constructor
    · intro name
      have hCount := hOpens name
      rw [hSlot] at hCount
      omega
    · intro ref
      have hCount := hOwed ref
      rw [hOwes] at hCount
      omega
  -- A call that goes on with the reference it had.
  have hSteady : ∀ {owed : Ref → Nat} {ref : Ref},
      (∀ ref', owed ref' + (decide (ref = ref')).toNat = s.owed ref' + (decide (ref = ref')).toNat) →
      ∀ ref', s.released ref' + owed ref' = s.released ref' + s.owed ref' := by
    intro owed ref hCount ref'
    rw [Nat.add_right_cancel (hCount ref')]
  cases hMove with
  | quiet hSlot hOwes _ _ =>
    obtain ⟨hO, hS⟩ := hSame hSlot hOwes
    exact hAcct.congr hO hS
  | obtain o =>
    apply hAcct.obtain
    · exact hOpens
    · intro ref
      have hCount : _ + 0 = s.owed ref + (decide (s.nextRef = ref)).toNat := hOwed ref
      dsimp only
      omega
  | reserve o ref hRoom =>
    apply (hAcct.reserve hRoom hOpens).congr (fun _ => rfl)
    exact hSteady hOwed
  | register o ref conn id =>
    apply hAcct.insertSession (hFresh id rfl) hOpens
    intro ref'
    have hCount : _ + (decide (ref = ref')).toNat = s.owed ref' + 0 := hOwed ref'
    change s.released ref' + _ + (decide (ref = ref')).toNat = s.released ref' + s.owed ref'
    omega
  | randFailed o ref conn detail =>
    apply (hAcct.unreserve hOpens).congr (fun _ => rfl)
    exact hSteady hOwed
  | giveBack o ref err =>
    have hHolds : 0 < s.openings o.db := List.countP_pos_iff.mpr
      ⟨_, List.mem_of_getElem? hc, by simp [Call.holdsSlot]⟩
    rw [hAcct.releaseSlot_eq (by omega)]
    apply (hAcct.unreserve hOpens).congr (fun _ => rfl)
    exact hSteady hOwed
  | dropRef ref err =>
    apply hAcct.congr hOpens
    intro ref'
    have hCount : _ + (decide (ref = ref')).toNat = s.owed ref' + 0 := hOwed ref'
    rw [setRelease_released]
    omega
  | @resume baton db principal id gen p hVerify hAccepts _ =>
    obtain ⟨hO, hS⟩ := hSame (fun _ => rfl) (fun _ => rfl)
    exact (hAcct.setSession (p := p) (s := (s.store.heap p).taken s.store.now) rfl rfl).congr hO hS
  | evict hEvicts hSlot hOwes _ _ =>
    obtain ⟨hO, hS⟩ := hSame hSlot hOwes
    exact (hAcct.evicts hEvicts).congr hO hS
  | baton p =>
    obtain ⟨hO, hS⟩ := hSame (fun _ => rfl) (fun _ => rfl)
    have hBooks := hAcct.setSession (p := p) (s := { s.store.heap p with busy := false, lastUsed := s.store.now })
      rfl rfl
    exact hBooks.congr hO hS
  | close p hp =>
    have hQuiet : (∀ name, (Call.closed p).holdsSlot name = c.holdsSlot name) ∧
        ∀ ref, (Call.closed p).owes ref = c.owes ref := by
      rcases hp with rfl | rfl | rfl <;> exact ⟨fun _ => rfl, fun _ => rfl⟩
    obtain ⟨hO, hS⟩ := hSame hQuiet.1 hQuiet.2
    exact (hAcct.closeLocked _).congr hO hS

def FreshId (s : State) : Action → Prop
  | .step _ (.generated id) => s.store.sessions.lookup id = none
  | _ => True

instance (s : State) : ∀ act, Decidable (FreshId s act)
  | .step _ (.generated id) => inferInstanceAs (Decidable (s.store.sessions.lookup id = none))
  | .step _ .next | .step _ (.pinned _) | .step _ (.fail _) | .step _ (.range _) | .step _ .peek
  | .step _ .baton | .step _ .close | .call _ | .teardown _ | .tick _ => inferInstanceAs (Decidable True)

theorem Accounted.step {act : Action} (hAcct : Accounted s) (hFresh : FreshId s act)
    (h : step codec s act = some t) : Accounted t := by
  cases act with
  | call op =>
    cases h
    apply Books.congr hAcct
    · intro name
      cases op <;> simp [State.openings, Op.start, Call.holdsSlot]
    · intro ref
      cases op <;> simp [State.owed, Op.start, Call.owes]
  | tick elapsed =>
    cases h
    exact ⟨hAcct.ptrs, hAcct.slots, hAcct.cap, hAcct.refs⟩
  | teardown i =>
    simp only [Sessions.step, teardownStep] at h
    split at h
    · cases h
    · rename_i td htd
      cases h
      apply Books.teardown hAcct htd
      intro ref
      have hOwed : State.owed (State.setRelease { s with store := { s.store with
          closing := s.store.closing.eraseIdx i } } td.release) ref = s.owed ref := rfl
      rw [setRelease_released, hOwed]
      dsimp only
      omega
  | step i choice =>
    simp only [Sessions.step] at h
    split at h
    · cases h
    · rename_i c hc
      split at h
      · cases h
      · rename_i t' c' hCall
        cases h
        apply Accounted.of_move hAcct hc (callStep_move hCall)
        rintro id rfl
        exact hFresh

theorem accounted_init (ttl maxLife : Time) (max : Int) : Accounted (init ttl maxLife max) := by
  have hMax : 0 < (init ttl maxLife max).store.max := by
    change 0 < if max ≤ 0 then (64 : Int) else max
    split <;> omega
  constructor
  · intro id p hLookup
    simp [init, newStore] at hLookup
  · intro name
    simp [init, newStore, Store.bound, State.openings]
  · intro name
    exact Int.le_of_lt hMax
  · intro ref
    simp [init, newStore, Store.owners, Store.pending, State.owed]

/-- The counters as the package describes them: slots are exact and within the cap, a
reference is not released while its session is in the store, and once nobody holds it
any more it has been released exactly once. Whoever still has to release can do so. -/
structure Balanced (codec : Codec) (s : State) : Prop where
  slots : ∀ name, s.store.perDB name = s.store.bound name + s.openings name
  nonneg : ∀ name, 0 ≤ s.store.perDB name
  cap : ∀ name, s.store.perDB name ≤ s.store.max
  held : ∀ id p, s.store.sessions.lookup id = some p → s.released (s.store.heap p).release = 0
  once : ∀ ref, s.released ref ≤ 1
  settled : ∀ ref, ref < s.nextRef →
    (∀ id p, s.store.sessions.lookup id = some p → (s.store.heap p).release ≠ ref) →
    (∀ c ∈ s.calls, c.owes ref = false) → (∀ t ∈ s.store.closing, t.release ≠ ref) →
    s.released ref = 1
  teardown_releases : ∀ i td, s.store.closing[i]? = some td →
    ∃ t, step codec s (.teardown i) = some t ∧ t.released td.release = 1
  failure_releases : ∀ i ref err, s.calls[i]? = some (.dropRef ref err) →
    ∃ t, step codec s (.step i .next) = some t ∧ t.released ref = 1

theorem Accounted.refs_le (hAcct : Accounted s) (ref : Ref) :
    s.released ref + s.owed ref + s.store.owners ref + s.store.pending ref ≤ 1 := by
  rw [hAcct.refs ref]
  exact Bool.toNat_le _

theorem Accounted.balanced (hAcct : Accounted s) : Balanced codec s where
  slots := hAcct.slots
  nonneg name := by
    rw [hAcct.slots name]
    omega
  cap := hAcct.cap
  held id p hLookup := by
    have hOwner : 0 < s.store.owners (s.store.heap p).release := tally_pos hLookup (by simp)
    have hLe := hAcct.refs_le (s.store.heap p).release
    omega
  once ref := by
    have hLe := hAcct.refs_le ref
    omega
  settled ref hRef hSession hCalls hClosing := by
    have hOwners : s.store.owners ref = 0 := by
      unfold Store.owners
      rw [tally_congr (q := fun _ => false) (fun id p hLookup => by simp [hSession id p hLookup])]
      simp [tally]
    have hOwed : s.owed ref = 0 := List.countP_eq_zero.mpr (fun c hc => by simp [hCalls c hc])
    have hPending : s.store.pending ref = 0 :=
      List.countP_eq_zero.mpr (fun t ht => by simp [hClosing t ht])
    have hRefs := hAcct.refs ref
    simp only [hRef, decide_true, Bool.toNat_true] at hRefs
    omega
  teardown_releases i td htd := by
    have hPending : 0 < s.store.pending td.release :=
      List.countP_pos_iff.mpr ⟨td, List.mem_of_getElem? htd, by simp⟩
    have hLe := hAcct.refs_le td.release
    simp only [Sessions.step, teardownStep, htd, Option.some.injEq, exists_eq_left']
    rw [setRelease_released]
    simp only [decide_true, Bool.toNat_true]
    omega
  failure_releases i ref err hc := by
    have hOwed : 0 < s.owed ref :=
      List.countP_pos_iff.mpr ⟨_, List.mem_of_getElem? hc, by simp [Call.owes]⟩
    have hLe := hAcct.refs_le ref
    simp only [Sessions.step, hc, callStep, Option.some.injEq, exists_eq_left']
    rw [setRelease_released]
    simp only [decide_true, Bool.toNat_true]
    omega

theorem slots_and_refs_balanced (codec : Codec) (ttl maxLife : Time) (max : Int) (actions : List Action)
    (hFresh : Guarded (step codec) FreshId (init ttl maxLife max) actions) :
    Always (step codec) (Balanced codec) (init ttl maxLife max) actions :=
  (always_of_guarded (fun _ _ _ hAcct hId h => Accounted.step hAcct hId h)
    (accounted_init ttl maxLife max) hFresh).mono (fun _ hAcct => hAcct.balanced)

/-- One stream is opened and closed twice, another fails to pin its connection. -/
def openAndFail : List Action :=
  [.call (.stream ⟨"d", "alice", true, false⟩), .call (.stream ⟨"d", "bob", false, false⟩),
   .step 0 .next, .step 0 .next, .step 1 .next, .step 1 .next, .step 0 (.pinned 0), .step 0 .next,
   .step 0 (.generated sampleId), .step 1 (.fail "pool"), .step 1 .next,
   .step 1 .next, .step 0 .close, .step 0 .close, .teardown 0]

theorem openAndFail_balanced :
    (run (step plainCodec) (init 0 0 2) openAndFail).isSome = true ∧
    Guarded (step plainCodec) FreshId (init 0 0 2) openAndFail ∧
    Always (step plainCodec) (Balanced plainCodec) (init 0 0 2) openAndFail := by
  have hFresh : Guarded (step plainCodec) FreshId (init 0 0 2) openAndFail := by decide +kernel
  exact ⟨by decide +kernel, hFresh, slots_and_refs_balanced plainCodec 0 0 2 openAndFail hFresh⟩

end QuicSql.Sessions
