import QuicSql.Session.Slots

/-!
# A store that has closed expired sessions early

Two stores differ only in sessions that have expired: the second has closed some of them
already. Every section of the store keeps it that way, and no resume tells the two apart.
-/

namespace QuicSql.Sessions

open Lib

/-- The slots that no live session stands for. -/
def Store.spare (st : Store) (db : DbName) : Int := st.perDB db - st.bound db

/-- How many sessions of the database have expired and are still in the store. -/
def Store.overdue (st : Store) (db : DbName) : Nat :=
  tally st.sessions (fun p => (st.heap p).dbName = db && st.reapable (st.heap p))

/-! ## Spare slots -/

section Spare

variable {st st' : Store} {id : SessionId} {p : Ptr}

theorem spare_addSlot (db name : DbName) (n : Int) :
    (st.addSlot db n).spare name = st.spare name + (if db = name then n else 0) := by
  have hPerDB : (st.addSlot db n).perDB name = st.perDB name + (if db = name then n else 0) := addSlot_perDB db name n
  have hBound : (st.addSlot db n).bound name = st.bound name := rfl
  unfold Store.spare
  omega

theorem bound_closeLocked (hLookup : st.sessions.lookup id = some p) (name : DbName) :
    (st.closeLocked id).bound name + (decide ((st.heap p).dbName = name)).toNat = st.bound name :=
  closeLocked_tally hLookup (fun s => decide (s.dbName = name))

/-- Whoever closes a live session frees its slot, unless the counter has run dry. -/
theorem spare_closeLocked_le (st : Store) (id : SessionId) (name : DbName) :
    st.spare name ≤ (st.closeLocked id).spare name := by
  cases hLookup : st.sessions.lookup id with
  | none => rw [closeLocked_of_none hLookup]
  | some p =>
    have hBound := bound_closeLocked hLookup name
    have hPerDB : st.perDB name - (decide ((st.heap p).dbName = name)).toNat ≤ (st.closeLocked id).perDB name := by
      rw [closeLocked_of_lookup hLookup]
      unfold Store.releaseSlot
      dsimp only
      split
      · change _ ≤ (st.addSlot (st.heap p).dbName (-1)).perDB name
        rw [addSlot_perDB]
        by_cases h : (st.heap p).dbName = name <;> simp only [h, decide_true, decide_false, if_true, if_false,
          Bool.toNat_true, Bool.toNat_false] <;> omega
      · change _ ≤ st.perDB name
        omega
    unfold Store.spare
    omega

theorem spare_closeLocked (hSpare : ∀ name, 0 ≤ st.spare name) (id : SessionId) (name : DbName) :
    (st.closeLocked id).spare name = st.spare name := by
  cases hLookup : st.sessions.lookup id with
  | none => rw [closeLocked_of_none hLookup]
  | some p =>
    have hBound := bound_closeLocked hLookup name
    have hPos : 0 < st.perDB (st.heap p).dbName := by
      have hOne : 0 < st.bound (st.heap p).dbName := tally_pos hLookup (by simp)
      have hNonneg := hSpare (st.heap p).dbName
      unfold Store.spare at hNonneg
      omega
    unfold Store.spare
    rw [closeLocked_perDB hLookup hPos, addSlot_perDB]
    by_cases h : (st.heap p).dbName = name <;> simp [h] at hBound ⊢ <;> omega

theorem Evicts.spare_le (h : Evicts st st') (name : DbName) : st.spare name ≤ st'.spare name := by
  induction h with
  | refl => exact Int.le_refl _
  | @close st st' id p _ _ _ ih => exact (spare_closeLocked_le st id name).trans ih

theorem spare_setSession {s : Session} (hDb : s.dbName = (st.heap p).dbName) (name : DbName) :
    (st.setSession p s).spare name = st.spare name := by
  unfold Store.spare Store.bound
  simp only [Store.setSession_field Session.dbName hDb]
  rfl

theorem bound_insertSession (hPtrs : ∀ id p, st.sessions.lookup id = some p → p < st.nextPtr) (s : Session)
    (name : DbName) : (st.insertSession s).bound name =
      tally (st.sessions.erase s.id) (fun p => (st.heap p).dbName = name) + (decide (s.dbName = name)).toNat := by
  unfold Store.bound Store.insertSession
  dsimp only
  rw [tally_insert_erase]
  simp only [Function.update_self]
  congr 1
  apply tally_congr
  intro id q hLookup
  have hOld := (of_lookup_erase hLookup).2
  simp only [Function.update_of_ne (Nat.ne_of_lt (hPtrs id q hOld))]

/-- The new session takes one slot, or less where it displaces another. -/
theorem spare_insertSession_le (hPtrs : ∀ id p, st.sessions.lookup id = some p → p < st.nextPtr) (s : Session)
    (name : DbName) : st.spare name - (decide (s.dbName = name)).toNat ≤ (st.insertSession s).spare name := by
  have hBound := bound_insertSession hPtrs s name
  have hLess : tally (st.sessions.erase s.id) (fun p => (st.heap p).dbName = name) ≤ st.bound name := by
    apply tally_le_of_subset
    intro id q hLookup _
    exact (of_lookup_erase hLookup).2
  have hPerDB : (st.insertSession s).perDB name = st.perDB name := rfl
  unfold Store.spare
  omega

end Spare

/-- The first store has everything that the second has, and beyond that only sessions that
have expired. -/
structure Lags (st st' : Store) : Prop where
  heap : st'.heap = st.heap
  nextPtr : st'.nextPtr = st.nextPtr
  now : st'.now = st.now
  ttl : st'.ttl = st.ttl
  maxLife : st'.maxLife = st.maxLife
  max : st'.max = st.max
  live : ∀ id p, st'.sessions.lookup id = some p → st.sessions.lookup id = some p
  lost : ∀ id p, st.sessions.lookup id = some p →
    st'.sessions.lookup id = some p ∨ st.reapable (st.heap p) = true
  spare : ∀ name, st'.spare name = st.spare name

namespace Lags

variable {codec : Codec} {st st' : Store} {id : SessionId} {p : Ptr}

theorem refl (st : Store) : Lags st st :=
  ⟨rfl, rfl, rfl, rfl, rfl, rfl, fun _ _ h => h, fun _ _ h => .inl h, fun _ => rfl⟩

theorem reapable (h : Lags st st') (s : Session) : st'.reapable s = st.reapable s := by
  unfold Store.reapable
  rw [h.now, h.ttl, h.maxLife]

theorem expired (h : Lags st st') (hLookup : st.sessions.lookup id = some p) (hNone : st'.sessions.lookup id = none) :
    st.reapable (st.heap p) = true :=
  (h.lost id p hLookup).resolve_left fun hSome => by cases hNone.symm.trans hSome

theorem closeLocked_clock (st : Store) (id : SessionId) :
    (st.closeLocked id).now = st.now ∧ (st.closeLocked id).ttl = st.ttl ∧ (st.closeLocked id).maxLife = st.maxLife ∧
      (st.closeLocked id).max = st.max := by
  cases h : st.sessions.lookup id with
  | none => rw [closeLocked_of_none h]; exact ⟨rfl, rfl, rfl, rfl⟩
  | some p =>
    rw [closeLocked_of_lookup h]
    refine ⟨?_, ?_, ?_, ?_⟩ <;> simp
    unfold Store.releaseSlot
    split <;> rfl

theorem closeLocked_reapable (st : Store) (id : SessionId) (s : Session) :
    (st.closeLocked id).reapable s = st.reapable s := by
  obtain ⟨hNow, hTtl, hLife, -⟩ := closeLocked_clock st id
  unfold Store.reapable
  rw [hNow, hTtl, hLife]

theorem closeBoth (h : Lags st st') (hSpare : ∀ name, 0 ≤ st.spare name) (id : SessionId) :
    Lags (st.closeLocked id) (st'.closeLocked id) := by
  obtain ⟨hNow, hTtl, hLife, hMax⟩ := closeLocked_clock st id
  obtain ⟨hNow', hTtl', hLife', hMax'⟩ := closeLocked_clock st' id
  have hSpare' : ∀ name, 0 ≤ st'.spare name := fun name => by rw [h.spare]; exact hSpare name
  refine ⟨?_, ?_, ?_, ?_, ?_, ?_, ?_, ?_, ?_⟩
  · rw [closeLocked_heap, closeLocked_heap, h.heap]
  · rw [closeLocked_nextPtr, closeLocked_nextPtr, h.nextPtr]
  · rw [hNow, hNow', h.now]
  · rw [hTtl, hTtl', h.ttl]
  · rw [hLife, hLife', h.maxLife]
  · rw [hMax, hMax', h.max]
  · intro id' q hLookup
    rw [closeLocked_sessions] at hLookup ⊢
    obtain ⟨hNe, hOld⟩ := of_lookup_erase hLookup
    rw [Finmap.lookup_erase_ne hNe]
    exact h.live id' q hOld
  · intro id' q hLookup
    rw [closeLocked_heap, closeLocked_reapable]
    rw [closeLocked_sessions] at hLookup ⊢
    obtain ⟨hNe, hOld⟩ := of_lookup_erase hLookup
    rw [Finmap.lookup_erase_ne hNe]
    exact h.lost id' q hOld
  · intro name
    rw [spare_closeLocked hSpare, spare_closeLocked hSpare', h.spare]

theorem closeLeft (h : Lags st st') (hSpare : ∀ name, 0 ≤ st.spare name) (hNone : st'.sessions.lookup id = none) :
    Lags (st.closeLocked id) st' := by
  have hBoth := h.closeBoth hSpare id
  rwa [closeLocked_of_none hNone] at hBoth

theorem closeRight (h : Lags st st') (hSpare : ∀ name, 0 ≤ st.spare name)
    (hLookup : st'.sessions.lookup id = some p) (hReap : st'.reapable (st'.heap p) = true) :
    Lags st (st'.closeLocked id) := by
  obtain ⟨hNow, hTtl, hLife, hMax⟩ := closeLocked_clock st' id
  have hSpare' : ∀ name, 0 ≤ st'.spare name := fun name => by rw [h.spare]; exact hSpare name
  refine ⟨closeLocked_heap.trans h.heap, closeLocked_nextPtr.trans h.nextPtr, hNow.trans h.now, hTtl.trans h.ttl,
    hLife.trans h.maxLife, hMax.trans h.max, fun id' q hq => h.live id' q (lookup_of_closeLocked hq), ?_,
    fun name => (spare_closeLocked hSpare' id name).trans (h.spare name)⟩
  intro id' q hq
  rcases Decidable.em (id' = id) with rfl | hNe
  · rw [h.live id' p hLookup] at hq
    cases hq
    rw [h.heap, h.reapable] at hReap
    exact .inr hReap
  · rw [closeLocked_sessions, Finmap.lookup_erase_ne hNe]
    exact h.lost id' q hq

theorem setSession (h : Lags st st') {s : Session} (hDb : s.dbName = (st.heap p).dbName)
    (hStill : ∀ id, st.sessions.lookup id = some p → st'.sessions.lookup id = some p) :
    Lags (st.setSession p s) (st'.setSession p s) := by
  refine ⟨?_, h.nextPtr, h.now, h.ttl, h.maxLife, h.max, h.live, ?_, ?_⟩
  · unfold Store.setSession
    rw [h.heap]
  · intro id q hLookup
    rcases Decidable.em (q = p) with rfl | hNe
    · exact .inl (hStill id hLookup)
    · rw [Store.setSession_of_ne st s hNe]
      exact h.lost id q hLookup
  · intro name
    have hDb' : s.dbName = (st'.heap p).dbName := by rw [h.heap]; exact hDb
    rw [spare_setSession hDb, spare_setSession hDb', h.spare]

theorem addSlot (h : Lags st st') (db : DbName) (n : Int) : Lags (st.addSlot db n) (st'.addSlot db n) := by
  refine ⟨h.heap, h.nextPtr, h.now, h.ttl, h.maxLife, h.max, h.live, h.lost, ?_⟩
  intro name
  rw [spare_addSlot, spare_addSlot, h.spare]

theorem bound_le (h : Lags st st') (name : DbName) : st'.bound name ≤ st.bound name := by
  unfold Store.bound
  rw [h.heap]
  exact tally_le_of_subset fun id p hLookup _ => h.live id p hLookup

theorem bound_eq (h : Lags st st') {name : DbName} (hNone : st.overdue name = 0) : st'.bound name = st.bound name := by
  refine Nat.le_antisymm (h.bound_le name) ?_
  unfold Store.bound
  rw [h.heap]
  refine tally_le_of_subset fun id p hLookup hDb => (h.lost id p hLookup).resolve_right fun hReap => ?_
  have hPos : 0 < st.overdue name := tally_pos hLookup (by simp_all)
  omega

theorem full_iff (h : Lags st st') {name : DbName} (hQuiet : st.perDB name < st.max ∨ st.overdue name = 0) :
    st'.max ≤ st'.perDB name ↔ st.max ≤ st.perDB name := by
  have hSpare := h.spare name
  have hLe := h.bound_le name
  have hMax := h.max
  unfold Store.spare at hSpare
  cases hQuiet with
  | inl hRoom => omega
  | inr hNone =>
    have hEq := h.bound_eq hNone
    omega

theorem tick (h : Lags st st') (elapsed : Nat) :
    Lags { st with now := st.now + elapsed } { st' with now := st'.now + elapsed } := by
  refine ⟨h.heap, h.nextPtr, congrArg (· + (elapsed : Int)) h.now, h.ttl, h.maxLife, h.max, h.live, ?_, h.spare⟩
  intro id q hLookup
  have hLater : ∀ bound since : Int, bound < st.now - since → bound < st.now + (elapsed : Int) - since := by
    intro bound since hLt
    omega
  refine (h.lost id q hLookup).imp_right fun hReap => ?_
  unfold Store.reapable at hReap ⊢
  dsimp only at hReap ⊢
  split at hReap
  · cases hReap
  · rename_i hIdle
    rw [if_neg hIdle]
    rw [Bool.or_eq_true, decide_eq_true_eq, decide_eq_true_eq] at hReap ⊢
    exact hReap.imp (hLater _ _) (hLater _ _)

/-- The ids of sessions that have expired are not drawn again. -/
theorem insertSession (h : Lags st st') (hPtrs : ∀ id p, st.sessions.lookup id = some p → p < st.nextPtr)
    {s : Session} (hFresh : ∀ p, st.sessions.lookup s.id = some p → st.reapable (st.heap p) = false) :
    Lags (st.insertSession s) (st'.insertSession s) := by
  have hPtrs' : ∀ id p, st'.sessions.lookup id = some p → p < st'.nextPtr := fun id p hLookup => by
    rw [h.nextPtr]
    exact hPtrs id p (h.live id p hLookup)
  refine ⟨?_, congrArg (· + 1) h.nextPtr, h.now, h.ttl, h.maxLife, h.max, ?_, ?_, ?_⟩
  · unfold Store.insertSession
    rw [h.heap, h.nextPtr]
  · intro id q hLookup
    unfold Store.insertSession at hLookup ⊢
    dsimp only at hLookup ⊢
    rw [h.nextPtr] at hLookup
    rcases Decidable.em (id = s.id) with rfl | hNe
    · rwa [Finmap.lookup_insert] at hLookup ⊢
    · rw [Finmap.lookup_insert_of_ne _ hNe] at hLookup ⊢
      exact h.live id q hLookup
  · intro id q hLookup
    unfold Store.insertSession at hLookup ⊢
    dsimp only at hLookup ⊢
    rw [h.nextPtr]
    rcases Decidable.em (id = s.id) with rfl | hNe
    · rw [Finmap.lookup_insert] at hLookup ⊢
      exact .inl hLookup
    · rw [Finmap.lookup_insert_of_ne _ hNe] at hLookup ⊢
      rw [Function.update_of_ne (Nat.ne_of_lt (hPtrs id q hLookup))]
      exact h.lost id q hLookup
  · intro name
    have hSpare := h.spare name
    have hBound := bound_insertSession hPtrs s name
    have hBound' := bound_insertSession hPtrs' s name
    -- Both stores lose the same session under the drawn id, or none.
    have hSame : tally (st'.sessions.erase s.id) (fun p => (st'.heap p).dbName = name) + st.bound name =
        tally (st.sessions.erase s.id) (fun p => (st.heap p).dbName = name) + st'.bound name := by
      rw [h.heap]
      unfold Store.bound
      rw [h.heap]
      cases hLookup : st.sessions.lookup s.id with
      | none =>
        have hNone : st'.sessions.lookup s.id = none := by
          cases hSome : st'.sessions.lookup s.id with
          | none => rfl
          | some q => cases hLookup.symm.trans (h.live s.id q hSome)
        rw [erase_of_lookup_none hLookup, erase_of_lookup_none hNone]
        omega
      | some q =>
        have hSome : st'.sessions.lookup s.id = some q :=
          (h.lost s.id q hLookup).resolve_right (by rw [hFresh q hLookup]; simp)
        have hErase := tally_erase hLookup (fun p => decide ((st.heap p).dbName = name))
        have hErase' := tally_erase hSome (fun p => decide ((st.heap p).dbName = name))
        omega
    have hPerDB : (st.insertSession s).perDB name = st.perDB name := rfl
    have hPerDB' : (st'.insertSession s).perDB name = st'.perDB name := rfl
    unfold Store.spare at hSpare ⊢
    omega

/-! ### What the sections of the store make of it -/

/-- A loop over the ids keeps the relation when each turn does; the first store keeps its books. -/
theorem foldl {f : Store → SessionId → Store} (hEvicts : ∀ st id, Evicts st (f st id))
    (hOne : ∀ {st st' : Store}, Lags st st' → (∀ name, 0 ≤ st.spare name) → ∀ id, Lags (f st id) (f st' id))
    (order : List SessionId) {st st' : Store} (h : Lags st st') (hSpare : ∀ name, 0 ≤ st.spare name) :
    Lags (order.foldl f st) (order.foldl f st') := by
  induction order generalizing st st' with
  | nil => exact h
  | cons id rest ih =>
    exact ih (hOne h hSpare id) fun name => (hSpare name).trans ((hEvicts st id).spare_le name)

/-- Both stores close the session when the first one does: what the second lacks is gone already. -/
theorem closeIf (h : Lags st st') (hSpare : ∀ name, 0 ≤ st.spare name) (id : SessionId) (keep : Session → Bool)
    (hKeep : ∀ s, st.reapable s = true → keep s = false) :
    Lags
      (match st.sessions.lookup id with
        | none => st
        | some p => if keep (st.heap p) then st else st.closeLocked id)
      (match st'.sessions.lookup id with
        | none => st'
        | some p => if keep (st'.heap p) then st' else st'.closeLocked id) := by
  cases hLookup : st.sessions.lookup id with
  | none =>
    cases hSome : st'.sessions.lookup id with
    | none => exact h
    | some q => cases hLookup.symm.trans (h.live id q hSome)
  | some p =>
    cases hLookup' : st'.sessions.lookup id with
    | none =>
      dsimp only
      rw [hKeep _ (h.expired hLookup hLookup')]
      exact h.closeLeft hSpare hLookup'
    | some q =>
      cases hLookup.symm.trans (h.live id q hLookup')
      dsimp only
      rw [h.heap]
      split
      · exact h
      · exact h.closeBoth hSpare id

theorem closeAllOne (h : Lags st st') (hSpare : ∀ name, 0 ≤ st.spare name) (id : SessionId) :
    Lags (st.closeAllOne id) (st'.closeAllOne id) :=
  h.closeIf hSpare id Session.busy fun _ hReap => busy_of_reapable hReap

theorem reapOne (h : Lags st st') (hSpare : ∀ name, 0 ≤ st.spare name) (id : SessionId) :
    Lags (st.reapOne id) (st'.reapOne id) := by
  have hForm : ∀ x : Store, (∀ s, x.reapable s = st.reapable s) → x.reapOne id =
      match x.sessions.lookup id with
      | none => x
      | some p => if !st.reapable (x.heap p) then x else x.closeLocked id := by
    intro x hx
    unfold Store.reapOne
    cases x.sessions.lookup id with
    | none => rfl
    | some p =>
      dsimp only
      rw [hx]
      cases st.reapable (x.heap p) <;> rfl
  rw [hForm st fun _ => rfl, hForm st' h.reapable]
  exact h.closeIf hSpare id (fun s => !st.reapable s) (by simp)

theorem closeAll (h : Lags st st') (hSpare : ∀ name, 0 ≤ st.spare name) (order : List SessionId) :
    Lags (st.closeAll order) (st'.closeAll order) :=
  foldl (f := Store.closeAllOne) (fun _ id => evicts_closeAll [id])
    (fun h hSpare id => h.closeAllOne hSpare id) order h hSpare

theorem reap (h : Lags st st') (hSpare : ∀ name, 0 ≤ st.spare name) (order : List SessionId) :
    Lags (st.reap order) (st'.reap order) :=
  foldl (f := Store.reapOne) (fun _ id => evicts_reap [id]) (fun h hSpare id => h.reapOne hSpare id)
    order h hSpare

/-- Kill closes as CloseAll does, for one id. -/
theorem kill_store (st : Store) (codec : Codec) (idStr : String) :
    (st.kill codec idStr).1 =
      match codec.decode idStr with
      | none => st
      | some raw => if hLen : raw.length = idLen then st.closeAllOne ⟨raw, hLen⟩ else st := by
  unfold Store.kill Store.closeAllOne
  cases codec.decode idStr with
  | none => rfl
  | some raw =>
    dsimp only
    split
    · rename_i hLen
      cases st.sessions.lookup ⟨raw, hLen⟩ with
      | none => rfl
      | some p =>
        dsimp only
        split <;> rfl
    · rfl

theorem kill (h : Lags st st') (hSpare : ∀ name, 0 ≤ st.spare name) (codec : Codec) (idStr : String) :
    Lags (st.kill codec idStr).1 (st'.kill codec idStr).1 := by
  rw [kill_store, kill_store]
  split
  · exact h
  · split
    · exact h.closeAllOne hSpare _
    · exact h

theorem still (h : Lags st st') (hFresh : st.reapable (st.heap p) = false)
    (hLookup : st.sessions.lookup id = some p) : st'.sessions.lookup id = some p :=
  (h.lost id p hLookup).resolve_right (by rw [hFresh]; simp)

theorem resume (h : Lags st st') (hSpare : ∀ name, 0 ≤ st.spare name) (codec : Codec) (baton db principal : String) :
    Lags (st.resume codec baton db principal).1 (st'.resume codec baton db principal).1 ∧
      (st'.resume codec baton db principal).2 = (st.resume codec baton db principal).2 := by
  unfold Store.resume
  split
  · exact ⟨h, rfl⟩
  · rename_i id gen _
    cases hLookup : st.sessions.lookup id with
    | none =>
      cases hSome : st'.sessions.lookup id with
      | none => exact ⟨h, rfl⟩
      | some q => cases hLookup.symm.trans (h.live id q hSome)
    | some p =>
      cases hLookup' : st'.sessions.lookup id with
      | none =>
        -- The owner's own resume would have been turned away as well.
        have hReap := h.expired hLookup hLookup'
        dsimp only
        rw [busy_of_reapable hReap, hReap, if_pos rfl, if_neg Bool.false_ne_true]
        split
        · exact ⟨h, rfl⟩
        · exact ⟨h.closeLeft hSpare hLookup', rfl⟩
      | some q =>
        cases hLookup.symm.trans (h.live id q hLookup')
        dsimp only
        rw [h.heap, h.reapable, h.now]
        split
        · exact ⟨h, rfl⟩
        split
        · exact ⟨h, rfl⟩
        split
        · exact ⟨h.closeBoth hSpare id, rfl⟩
        rename_i hFresh
        split
        · exact ⟨h, rfl⟩
        split
        · exact ⟨h, rfl⟩
        refine ⟨h.setSession rfl fun id' hid' => ?_, rfl⟩
        exact h.still (by simpa using hFresh) hid'

/-- A rejected resume closes at most an expired session. -/
theorem rejected (h : Lags st st') (hSpare : ∀ name, 0 ≤ st.spare name) {baton db principal : String} {err : Err}
    (hErr : (st'.resume codec baton db principal).2 = .error err) : Lags st (st'.resume codec baton db principal).1 := by
  unfold Store.resume at hErr ⊢
  split
  · exact h
  · rename_i id gen hVerify
    rw [hVerify] at hErr
    split
    · exact h
    · rename_i p hLookup
      dsimp only at hErr ⊢
      rw [hLookup] at hErr
      dsimp only at hErr
      split
      · exact h
      split
      · exact h
      split
      · rename_i hReap
        exact h.closeRight hSpare hLookup hReap
      split
      · exact h
      split
      · exact h
      simp_all

end Lags

end QuicSql.Sessions
