import QuicSql.Lib.Custody
import QuicSql.Session.Exclusive
import QuicSql.Session.Slots
import QuicSql.Wire.Codes

/-!
# Changeset captures on interactive streams

`session_start` attaches a SESSION handle to the pinned connection of a stream and
`session_changeset` reads it out. The handle is on the session between the two, in a local
variable of the request while it is set up or read, and with the teardown goroutine when the
session is closed with a capture attached. Everything beside it (streams, batons, reaping,
killing, shutdown) is the system of `Session/System`.
-/

namespace QuicSql.Capture

open Lib Sessions Wire

/-- A session is named by its registry reference, which no other session has. -/
inductive Place where
  | attached (ref : Ref)
  | torn (ref : Ref)
  | hand (request : Nat)
deriving DecidableEq, Repr

inductive Stage where
  | ready
  | creating (tables : List String)
  | attaching (tables : List String)
  | reading
  | closing (read : Bool)
deriving DecidableEq, Repr

def Stage.holds : Stage → Bool
  | .attaching _ | .reading | .closing _ => true
  | .ready | .creating _ => false

/-- Between the check for an open capture and `SetCapture`. -/
def Stage.starts : Stage → Bool
  | .creating _ | .attaching _ => true
  | .ready | .reading | .closing _ => false

inductive Answer where
  | sessionStart
  | sessionChangeset (handle : Nat)
deriving DecidableEq, Repr

/-- The last three fields record history: the stream each handle was made on, how often its
changeset was read, and what the requests were answered. -/
structure State where
  sys : Sessions.State
  stage : Nat → Stage
  captures : Custody Place
  origin : Nat → Ref
  reads : Nat → Nat
  answers : List (Nat × Except RunError Answer)

def alreadyOpen : RunError := .protocol "a capture session is already open on this stream"

def noneOpen : RunError := .protocol "no capture session open (send session_start first)"

inductive Op where
  | start (tables : List String)
  | create (ok : Bool)
  | attach (ok : Bool)
  | set
  | take
  | changeset (ok : Bool)
  | close
deriving DecidableEq, Repr

inductive Action where
  | sys (act : Sessions.Action)
  | request (i : Nat) (op : Op)
  | teardown (ref : Ref)
deriving DecidableEq, Repr

def State.goTo (s : State) (i : Nat) (stage : Stage) : State := { s with stage := Function.update s.stage i stage }

def State.answer (s : State) (i : Nat) (result : Except RunError Answer) : State :=
  { s.goTo i .ready with answers := s.answers ++ [(i, result)] }

/-- A step of request `i` on the session with reference `ref`. A failure of the driver is not a
SQLite error of the engine, so its text does not reach the client. -/
def captureStep (s : State) (i : Nat) (ref : Ref) : Op → Option State
  | .start tables =>
    match s.stage i, s.captures.held (.attached ref) with
    | .ready, some _ => some (s.answer i (.error alreadyOpen))
    | .ready, none => some (s.goTo i (.creating tables))
    | _, _ => none
  | .create ok =>
    match s.stage i, ok with
    | .creating tables, true =>
      let s' : State := { s with
        captures := s.captures.create (.hand i)
        origin := Function.update s.origin s.captures.next ref }
      -- No table at all means every table, which is attached under the empty name.
      some (s'.goTo i (.attaching (if tables.length = 0 then [""] else tables)))
    | .creating _, false => some (s.answer i (.error .other))
    | _, _ => none
  | .attach ok =>
    match s.stage i, ok with
    | .attaching (_ :: rest), true => some (s.goTo i (.attaching rest))
    | .attaching (_ :: _), false =>
      some ({ s with captures := s.captures.close (.hand i) }.answer i (.error .other))
    | _, _ => none
  | .set =>
    match s.stage i with
    | .attaching [] =>
      some ({ s with captures := s.captures.move (.hand i) (.attached ref) }.answer i (.ok .sessionStart))
    | _ => none
  | .take =>
    match s.stage i, s.captures.held (.attached ref) with
    | .ready, some _ =>
      some ({ s with captures := s.captures.move (.attached ref) (.hand i) }.goTo i .reading)
    | .ready, none => some (s.answer i (.error noneOpen))
    | _, _ => none
  | .changeset ok =>
    match s.stage i, s.captures.held (.hand i) with
    | .reading, some h =>
      some ({ s with reads := Function.update s.reads h (s.reads h + 1) }.goTo i (.closing ok))
    | _, _ => none
  | .close =>
    match s.stage i, s.captures.held (.hand i) with
    | .closing read, some h =>
      let s' : State := { s with captures := s.captures.close (.hand i) }
      some (s'.answer i (if read then .ok (.sessionChangeset h) else .error .other))
    | _, _ => none

/-- The sequential code of a request and of a teardown goroutine: a request does not go on
while it is in a capture function, and the goroutine closes the capture it was given before it
returns the connection. -/
def sysEnabled (s : State) : Sessions.Action → Bool
  | .step i _ => s.stage i = .ready
  | .teardown j =>
    match s.sys.store.closing[j]? with
    | some td => (s.captures.held (.torn td.release)).isNone
    | none => true
  | _ => true

/-- The sessions that a step of the store closes; `closeLocked` takes the capture of each. -/
def closedBy (s t : Sessions.State) : List Teardown := t.store.closing.drop s.store.closing.length

def sysStep (codec : Codec) (s : State) (act : Sessions.Action) : Option State :=
  if sysEnabled s act then
    match Sessions.step codec s.sys act with
    | none => none
    | some t =>
      some { s with
        sys := t
        captures := s.captures.moveAll Place.attached Place.torn ((closedBy s.sys t).map Teardown.release) }
  else none

def step (codec : Codec) (s : State) : Action → Option State
  | .sys act => sysStep codec s act
  | .request i op =>
    match s.sys.calls[i]? with
    | some (.serving p) => captureStep s i (s.sys.store.heap p).release op
    | _ => none
  | .teardown ref => some { s with captures := s.captures.close (.torn ref) }

def init (ttl maxLife : Time) (max : Int) : State where
  sys := Sessions.init ttl maxLife max
  stage := fun _ => .ready
  captures := Custody.empty
  origin := fun _ => 0
  reads := fun _ => 0
  answers := []

/-! ## What a step of the store closes -/

section Passes

variable {codec : Codec} {st st' st'' : Store} {new new' : List Teardown} {id : SessionId} {p : Ptr}

/-- The sessions that leave the store are torn down, the others stay as they are. -/
structure Passes (st st' : Store) (new : List Teardown) : Prop where
  closing : st'.closing = st.closing ++ new
  torn : ∀ td ∈ new, ∃ id p, st.sessions.lookup id = some p ∧ td.release = (st.heap p).release
  live : ∀ id p, st.sessions.lookup id = some p →
    st'.sessions.lookup id = some p ∨ (st.heap p).teardown ∈ new
  release : ∀ p, p < st.nextPtr → (st'.heap p).release = (st.heap p).release

theorem Passes.of_kept (hClosing : st'.closing = st.closing)
    (hLive : ∀ id p, st.sessions.lookup id = some p → st'.sessions.lookup id = some p)
    (hRelease : ∀ p, p < st.nextPtr → (st'.heap p).release = (st.heap p).release) : Passes st st' [] where
  closing := by rw [hClosing, List.append_nil]
  torn td hTd := absurd hTd List.not_mem_nil
  live id p hLookup := .inl (hLive id p hLookup)
  release := hRelease

theorem Passes.refl (st : Store) : Passes st st [] := .of_kept rfl (fun _ _ h => h) (fun _ _ => rfl)

theorem Passes.setSession {s : Session} (hRelease : s.release = (st.heap p).release) :
    Passes st (st.setSession p s) [] :=
  .of_kept rfl (fun _ _ h => h) (fun q _ => Store.setSession_field Session.release hRelease q)

theorem passes_closeLocked (hLookup : st.sessions.lookup id = some p) :
    Passes st (st.closeLocked id) [(st.heap p).teardown] where
  closing := by
    rw [closeLocked_of_lookup hLookup]
  torn td hTd := by
    rw [List.mem_singleton.mp hTd]
    exact ⟨id, p, hLookup, rfl⟩
  live id' q hq := by
    rcases Decidable.em (id' = id) with rfl | hNe
    · obtain rfl := Option.some.inj (hLookup.symm.trans hq)
      exact .inr (List.mem_singleton_self _)
    · rw [closeLocked_sessions, Finmap.lookup_erase_ne hNe]
      exact .inl hq
  release q _ := by rw [closeLocked_heap]

theorem passes_close (st : Store) (id : SessionId) : ∃ new, Passes st (st.closeLocked id) new := by
  cases hLookup : st.sessions.lookup id with
  | none =>
    refine ⟨[], ?_⟩
    rw [closeLocked_of_none hLookup]
    exact .refl st
  | some p => exact ⟨_, passes_closeLocked hLookup⟩

theorem passes_evicts (h : Evicts st st') : ∃ new, Passes st st' new := by
  induction h with
  | refl st => exact ⟨[], .refl st⟩
  | @close st st' id p hLookup _ _ ih =>
    obtain ⟨rest, hRest⟩ := ih
    have hOne := passes_closeLocked hLookup
    refine ⟨(st.heap p).teardown :: rest, ?_, ?_, ?_, ?_⟩
    · rw [hRest.closing, hOne.closing, List.append_assoc, List.singleton_append]
    · intro td hTd
      rcases List.mem_cons.mp hTd with rfl | hTd
      · exact ⟨id, p, hLookup, rfl⟩
      · obtain ⟨id', q, hq, hRef⟩ := hRest.torn td hTd
        exact ⟨id', q, lookup_of_closeLocked hq, by rw [hRef, closeLocked_heap]⟩
    · intro id' q hq
      rcases hOne.live id' q hq with hq | hTd
      · rcases hRest.live id' q hq with hq | hTd
        · exact .inl hq
        · rw [closeLocked_heap] at hTd
          exact .inr (List.mem_cons_of_mem _ hTd)
      · rw [List.mem_singleton.mp hTd]
        exact .inr List.mem_cons_self
    · intro q hq
      rw [hRest.release q (by rwa [closeLocked_nextPtr]), closeLocked_heap]

theorem passes_of_move {s t : Sessions.State} {c c' : Call} {choice : Choice} (hMove : Move codec s c choice t c')
    (hFresh : ∀ id, choice = .generated id → s.store.sessions.lookup id = none) :
    ∃ new, Passes s.store t.store new := by
  cases hMove with
  | quiet | obtain | dropRef => exact ⟨[], .refl _⟩
  | reserve | randFailed => exact ⟨[], .of_kept rfl (fun _ _ h => h) (fun _ _ => rfl)⟩
  | giveBack =>
    refine ⟨[], .of_kept (releaseSlot_closing _) (fun id p h => ?_) (fun p _ => ?_)⟩
    · dsimp only
      rwa [releaseSlot_sessions]
    · dsimp only
      rw [releaseSlot_heap]
  | register o ref conn id =>
    refine ⟨[], .of_kept rfl (fun id' p h => ?_) (fun p hp => ?_)⟩
    · have hNe : id' ≠ id := by
        rintro rfl
        cases (hFresh id' rfl).symm.trans h
      exact (Finmap.lookup_insert_of_ne _ hNe).trans h
    · dsimp only
      rw [insertSession_of_lt _ hp]
  | resume => exact ⟨[], .setSession rfl⟩
  | baton => exact ⟨[], .setSession rfl⟩
  | evict hEvicts => exact passes_evicts hEvicts
  | close p => exact passes_close _ _

theorem step_eq_some {s t : Sessions.State} {i : Nat} {choice : Choice}
    (h : Sessions.step codec s (.step i choice) = some t) :
    ∃ c c' u, s.calls[i]? = some c ∧ Move codec s c choice u c' ∧ t = { u with calls := s.calls.set i c' } := by
  simp only [Sessions.step] at h
  split at h
  · cases h
  · rename_i c hc
    split at h
    · cases h
    · rename_i u c' hCall
      cases h
      exact ⟨c, c', u, hc, callStep_move hCall, rfl⟩

theorem passes_of_step {s t : Sessions.State} {act : Sessions.Action} (hFresh : FreshId s act)
    (hNot : ∀ j, act ≠ .teardown j) (h : Sessions.step codec s act = some t) : Passes s.store t.store (closedBy s t) := by
  have hSome : ∃ new, Passes s.store t.store new := by
    cases act with
    | call op =>
      cases h
      exact ⟨[], .refl _⟩
    | tick elapsed =>
      cases h
      exact ⟨[], .of_kept rfl (fun _ _ h => h) (fun _ _ => rfl)⟩
    | teardown j => exact absurd rfl (hNot j)
    | step i choice =>
      obtain ⟨c, c', u, _, hMove, rfl⟩ := step_eq_some h
      have hFreshId : ∀ id, choice = .generated id → s.store.sessions.lookup id = none := by
        rintro id rfl
        exact hFresh
      obtain ⟨new, hNew⟩ := passes_of_move hMove hFreshId
      exact ⟨new, hNew⟩
  obtain ⟨new, hNew⟩ := hSome
  have hClosed : closedBy s t = new := by rw [closedBy, hNew.closing, List.drop_left]
  rwa [hClosed]

theorem calls_kept {s t : Sessions.State} {act : Sessions.Action} {i : Nat} {c : Call} (hc : s.calls[i]? = some c)
    (hNot : ∀ choice, act ≠ .step i choice) (h : Sessions.step codec s act = some t) : t.calls[i]? = some c := by
  cases act with
  | call op =>
    cases h
    exact getElem?_append_of_some hc
  | tick elapsed =>
    cases h
    exact hc
  | teardown j =>
    simp only [Sessions.step, teardownStep] at h
    split at h
    · cases h
    · cases h
      exact hc
  | step j choice =>
    obtain ⟨_, c', u, _, _, rfl⟩ := step_eq_some h
    have hNe : j ≠ i := by
      rintro rfl
      exact hNot choice rfl
    exact (List.getElem?_set_ne hNe).trans hc

theorem freshId_of_disciplined {s : Sessions.State} (hEx : Sessions.Exclusive s) {act : Sessions.Action}
    (hDisc : Disciplined codec s act) : FreshId s act := by
  unfold FreshId
  split
  · rename_i id
    by_contra hSome
    obtain ⟨p, hp⟩ := Option.ne_none_iff_exists'.mp hSome
    obtain ⟨hLt, hId⟩ := hEx.live id p hp
    exact hDisc p hLt hId
  · trivial

end Passes

/-! ## Where the handles are -/

def State.delivered (s : State) : List Nat :=
  s.answers.filterMap fun answer =>
    match answer.2 with
    | .ok (.sessionChangeset h) => some h
    | _ => none

def Placed (s : State) (h : Nat) : Place → Prop
  | .attached ref => s.origin h = ref ∧ s.reads h = 0 ∧
      ∃ id p, s.sys.store.sessions.lookup id = some p ∧ (s.sys.store.heap p).release = ref
  | .torn ref => s.origin h = ref ∧ s.reads h = 0 ∧ ∃ td ∈ s.sys.store.closing, td.release = ref
  | .hand i => (∃ p, s.sys.calls[i]? = some (.serving p) ∧ s.origin h = (s.sys.store.heap p).release) ∧
      (s.stage i).holds = true ∧ ((∀ read, s.stage i ≠ .closing read) → s.reads h = 0)

structure Inv (s : State) : Prop where
  ex : Sessions.Exclusive s.sys
  acct : Accounted s.sys
  sound : s.captures.Sound
  placed : ∀ a h, s.captures.held a = some h → Placed s h a
  busy : ∀ i, s.stage i ≠ .ready → ∃ p, s.sys.calls[i]? = some (.serving p)
  clear : ∀ i p, (s.stage i).starts = true → s.sys.calls[i]? = some (.serving p) →
    s.captures.held (.attached (s.sys.store.heap p).release) = none
  readOnce : ∀ h, s.reads h ≤ 1
  readMade : ∀ h, s.captures.next ≤ h → s.reads h = 0
  closed : ∀ h ∈ s.delivered, s.captures.closed h = 1
  nodup : s.delivered.Nodup

variable {codec : Codec} {s : State} {i : Nat} {p : Ptr} {h : Nat}

theorem Inv.hand_empty (hInv : Inv s) (hStage : (s.stage i).holds = false) : s.captures.held (.hand i) = none := by
  cases hHeld : s.captures.held (.hand i) with
  | none => rfl
  | some h =>
    have hHolds := (hInv.placed _ h hHeld).2.1
    cases hHolds.symm.trans hStage

theorem not_torn_of_live {u : Sessions.State} (hAcct : Accounted u) {id : SessionId} {td : Teardown}
    (hLookup : u.store.sessions.lookup id = some p) (hTd : td ∈ u.store.closing) :
    td.release ≠ (u.store.heap p).release := by
  intro hEq
  have hOwner : 0 < u.store.owners (u.store.heap p).release := tally_pos hLookup (by simp)
  have hPending : 0 < u.store.pending (u.store.heap p).release :=
    List.countP_pos_iff.mpr ⟨td, hTd, by simp [hEq]⟩
  have hLe := hAcct.refs_le (u.store.heap p).release
  omega

theorem release_inj {u : Sessions.State} (hAcct : Accounted u) {id id' : SessionId} {q : Ptr}
    (hp : u.store.sessions.lookup id = some p) (hq : u.store.sessions.lookup id' = some q)
    (hEq : (u.store.heap p).release = (u.store.heap q).release) : id = id' := by
  by_contra hNe
  have hErase := tally_erase hp (fun q => decide ((u.store.heap q).release = (u.store.heap p).release))
  have hOther : (u.store.sessions.erase id).lookup id' = some q := by
    rw [Finmap.lookup_erase_ne (Ne.symm hNe), hq]
  have hPos := tally_pos hOther (p := fun q => decide ((u.store.heap q).release = (u.store.heap p).release))
    (by simp [hEq])
  have hLe := hAcct.refs_le (u.store.heap p).release
  simp only [decide_true, Bool.toNat_true] at hErase
  unfold Store.owners at hLe
  omega

theorem closing_nodup {u : Sessions.State} (hAcct : Accounted u) : (u.store.closing.map Teardown.release).Nodup := by
  rw [List.nodup_iff_count_le_one]
  intro ref
  have hLe := hAcct.refs_le ref
  have hCount : (u.store.closing.map Teardown.release).count ref = u.store.pending ref := by
    rw [List.count, List.countP_map]
    rfl
  omega

/-! ## Steps of the store -/

/-- A step of the store, with the captures of the sessions it closes. -/
theorem Inv.of_store {u : Sessions.State} {refs : List Ref} (hInv : Inv s) (hEx : Sessions.Exclusive u)
    (hAcct : Accounted u)
    (hCalls : ∀ i c, s.stage i ≠ .ready → s.sys.calls[i]? = some c → u.calls[i]? = some c)
    (hRelease : ∀ p, p < s.sys.store.nextPtr → (u.store.heap p).release = (s.sys.store.heap p).release)
    (hLive : ∀ id p, s.sys.store.sessions.lookup id = some p →
      u.store.sessions.lookup id = some p ∨ (s.sys.store.heap p).release ∈ refs)
    (hTorn : ∀ ref h, s.captures.held (.torn ref) = some h → ∃ td ∈ u.store.closing, td.release = ref)
    (hNew : ∀ ref ∈ refs, ∃ td ∈ u.store.closing, td.release = ref) (hNodup : refs.Nodup)
    (hEmpty : ∀ ref ∈ refs, s.captures.held (.torn ref) = none) :
    Inv { s with sys := u, captures := s.captures.moveAll Place.attached Place.torn refs } := by
  have hApart : ∀ r r', Place.attached r ≠ Place.torn r' := fun _ _ hEq => by cases hEq
  have hSound : (s.captures.moveAll Place.attached Place.torn refs).Sound :=
    hInv.sound.moveAll hApart (hNodup.map (fun _ _ hEq => Place.torn.inj hEq)) hEmpty
  have hServing : ∀ i p, s.stage i ≠ .ready → u.calls[i]? = some (.serving p) →
      s.sys.calls[i]? = some (.serving p) ∧ (u.store.heap p).release = (s.sys.store.heap p).release := by
    intro i p hStage hu
    obtain ⟨q, hq⟩ := hInv.busy i hStage
    obtain rfl : q = p := Call.serving.inj (Option.some.inj ((hCalls i _ hStage hq).symm.trans hu))
    have hLookup := (hInv.ex.flight q (List.mem_of_getElem? hq)).1
    exact ⟨hq, hRelease q (hInv.ex.live _ q hLookup).1⟩
  refine ⟨hEx, hAcct, hSound, ?_, ?_, ?_, hInv.readOnce, ?_, ?_, hInv.nodup⟩
  · intro a h hHeld
    rcases Custody.held_moveAll_cases hApart hHeld with ⟨ref, hRef, rfl, hOld⟩ | ⟨hOff, hOld⟩
    · obtain ⟨hOrigin, hReads, -⟩ := hInv.placed _ h hOld
      exact ⟨hOrigin, hReads, hNew ref hRef⟩
    · have hPlaced := hInv.placed a h hOld
      cases a with
      | attached ref =>
        obtain ⟨hOrigin, hReads, id, p, hLookup, rfl⟩ := hPlaced
        rcases hLive id p hLookup with hLookup' | hRef
        · exact ⟨hOrigin, hReads, id, p, hLookup', hRelease p (hInv.ex.live id p hLookup).1⟩
        · exact absurd rfl (hOff _ hRef)
      | torn ref => exact ⟨hPlaced.1, hPlaced.2.1, hTorn ref h hOld⟩
      | hand i =>
        obtain ⟨⟨p, hp, hOrigin⟩, hHolds, hReads⟩ := hPlaced
        have hStage : s.stage i ≠ .ready := by
          intro hReady
          rw [hReady] at hHolds
          cases hHolds
        have hp' := hCalls i _ hStage hp
        exact ⟨⟨p, hp', by rw [hOrigin, ← (hServing i p hStage hp').2]⟩, hHolds, hReads⟩
  · intro i hStage
    obtain ⟨p, hp⟩ := hInv.busy i hStage
    exact ⟨p, hCalls i _ hStage hp⟩
  · intro i p hStarts hp
    have hStage : s.stage i ≠ .ready := by
      intro hReady
      rw [hReady] at hStarts
      cases hStarts
    obtain ⟨hOld, hRef⟩ := hServing i p hStage hp
    have hNone := hInv.clear i p hStarts hOld
    rw [hRef]
    cases hHeld : (s.captures.moveAll Place.attached Place.torn refs).held
        (.attached (s.sys.store.heap p).release) with
    | none => rfl
    | some h =>
      rcases Custody.held_moveAll_cases hApart hHeld with ⟨_, _, hEq, _⟩ | ⟨_, hOld⟩
      · cases hEq
      · cases hNone.symm.trans hOld
  · intro h hLe
    rw [Custody.moveAll_next] at hLe
    exact hInv.readMade h hLe
  · intro h hh
    rw [Custody.moveAll_closed]
    exact hInv.closed h hh

theorem Inv.teardown_sys {u : Sessions.State} {j : Nat} {td : Teardown} (hInv : Inv s)
    (hTd : s.sys.store.closing[j]? = some td) (hNone : s.captures.held (.torn td.release) = none)
    (hEx : Sessions.Exclusive u) (hAcct : Accounted u)
    (hu : u = State.setRelease { s.sys with store :=
      { s.sys.store with closing := s.sys.store.closing.eraseIdx j } } td.release) :
    Inv { s with sys := u } := by
  subst hu
  refine Inv.of_store hInv hEx hAcct (fun _ _ _ hc => hc) (fun _ _ => rfl) (fun _ _ hLookup => .inl hLookup)
    ?_ (fun _ hRef => absurd hRef List.not_mem_nil) List.nodup_nil (fun _ hRef => absurd hRef List.not_mem_nil)
  intro ref h hHeld
  obtain ⟨-, -, td', hMem, hRef⟩ := hInv.placed _ h hHeld
  refine ⟨td', ?_, hRef⟩
  obtain ⟨k, hk⟩ := List.mem_iff_getElem?.mp hMem
  refine List.mem_eraseIdx_iff_getElem?.mpr ⟨k, ?_, hk⟩
  rintro rfl
  obtain rfl := Option.some.inj (hTd.symm.trans hk)
  rw [hRef, hHeld] at hNone
  cases hNone

theorem Inv.sys {t : State} {act : Sessions.Action} (hInv : Inv s) (hDisc : Disciplined codec s.sys act)
    (h : sysStep codec s act = some t) : Inv t := by
  unfold sysStep at h
  split at h
  · rename_i hEnabled
    split at h
    · cases h
    · rename_i u hu
      cases h
      have hFresh := freshId_of_disciplined hInv.ex hDisc
      have hEx := hInv.ex.step hDisc hu
      have hAcct := hInv.acct.step hFresh hu
      rcases Classical.em (∃ j, act = .teardown j) with ⟨j, rfl⟩ | hNot
      · simp only [Sessions.step, teardownStep] at hu
        split at hu
        · cases hu
        · rename_i td hTd
          simp only [sysEnabled, hTd, Option.isNone_iff_eq_none] at hEnabled
          have hEq := (Option.some.inj hu).symm
          have hNil : closedBy s.sys u = [] := by
            rw [closedBy, hEq]
            exact List.drop_eq_nil_of_le (List.length_eraseIdx_le _ _)
          rw [hNil]
          exact hInv.teardown_sys hTd hEnabled hEx hAcct hEq
      · have hPasses := passes_of_step hFresh (fun j hj => hNot ⟨j, hj⟩) hu
        have hRefs : ∀ ref ∈ (closedBy s.sys u).map Teardown.release,
            ∃ td ∈ u.store.closing, td.release = ref := by
          intro ref hRef
          obtain ⟨td, hTd, rfl⟩ := List.mem_map.mp hRef
          exact ⟨td, hPasses.closing ▸ List.mem_append_right _ hTd, rfl⟩
        refine hInv.of_store hEx hAcct ?_ hPasses.release ?_ ?_ hRefs ?_ ?_
        · intro i c hStage hc
          refine calls_kept hc ?_ hu
          rintro choice rfl
          exact hStage (by simpa [sysEnabled] using hEnabled)
        · intro id p hLookup
          rcases hPasses.live id p hLookup with hKept | hTd
          · exact .inl hKept
          · exact .inr (List.mem_map_of_mem hTd)
        · intro ref h hHeld
          obtain ⟨-, -, td, hTd, hRef⟩ := hInv.placed _ h hHeld
          exact ⟨td, hPasses.closing ▸ List.mem_append_left _ hTd, hRef⟩
        · have hNodup := closing_nodup hAcct
          rw [hPasses.closing, List.map_append] at hNodup
          exact hNodup.of_append_right
        · intro ref hRef
          obtain ⟨td, hTd, rfl⟩ := List.mem_map.mp hRef
          obtain ⟨id, p, hLookup, hRelease⟩ := hPasses.torn td hTd
          cases hHeld : s.captures.held (.torn td.release) with
          | none => rfl
          | some h =>
            obtain ⟨-, -, td', hTd', hRef'⟩ := hInv.placed _ h hHeld
            exact absurd (hRef'.trans hRelease) (not_torn_of_live hInv.acct hLookup hTd')
  · cases h

/-! ## Steps of a request -/

/-- What one step of a request does: it moves on in its function, it makes, attaches, takes,
reads or closes a handle. -/
inductive Change (s : State) (i : Nat) (ref : Ref) : State → Prop where
  | refuse (err : RunError) (hStage : (s.stage i).holds = false) : Change s i ref (s.answer i (.error err))
  | check (tables : List String) (hNone : s.captures.held (.attached ref) = none) (hStage : s.stage i = .ready) :
      Change s i ref (s.goTo i (.creating tables))
  | create (tables tables' : List String) (hStage : s.stage i = .creating tables) :
      Change s i ref ({ s with
        captures := s.captures.create (.hand i)
        origin := Function.update s.origin s.captures.next ref }.goTo i (.attaching tables'))
  | attach (table : String) (rest : List String) (hStage : s.stage i = .attaching (table :: rest)) :
      Change s i ref (s.goTo i (.attaching rest))
  | abandon (tables : List String) (hStage : s.stage i = .attaching tables) :
      Change s i ref ({ s with captures := s.captures.close (.hand i) }.answer i (.error .other))
  | set (hStage : s.stage i = .attaching []) :
      Change s i ref ({ s with captures := s.captures.move (.hand i) (.attached ref) }.answer i (.ok .sessionStart))
  | take (h : Nat) (hStage : s.stage i = .ready) (hHeld : s.captures.held (.attached ref) = some h) :
      Change s i ref ({ s with captures := s.captures.move (.attached ref) (.hand i) }.goTo i .reading)
  | read (h : Nat) (ok : Bool) (hStage : s.stage i = .reading) (hHeld : s.captures.held (.hand i) = some h) :
      Change s i ref ({ s with reads := Function.update s.reads h (s.reads h + 1) }.goTo i (.closing ok))
  | close (h : Nat) (read : Bool) (hStage : s.stage i = .closing read) (hHeld : s.captures.held (.hand i) = some h) :
      Change s i ref ({ s with captures := s.captures.close (.hand i) }.answer i
        (if read then .ok (.sessionChangeset h) else .error .other))

theorem captureStep_change {ref : Ref} {op : Op} {t : State} (h : captureStep s i ref op = some t) :
    Change s i ref t := by
  cases op with
  | start tables =>
    simp only [captureStep] at h
    split at h <;> cases h
    · rename_i hStage _
      exact .refuse _ (by rw [hStage]; rfl)
    · rename_i hStage hNone
      exact .check tables hNone hStage
  | create ok =>
    simp only [captureStep] at h
    split at h <;> cases h
    · rename_i tables hStage
      exact .create tables _ hStage
    · rename_i hStage
      exact .refuse _ (by rw [hStage]; rfl)
  | attach ok =>
    simp only [captureStep] at h
    split at h <;> cases h
    · rename_i table rest hStage
      exact .attach table rest hStage
    · rename_i hStage
      exact .abandon _ hStage
  | set =>
    simp only [captureStep] at h
    split at h <;> cases h
    rename_i hStage
    exact .set hStage
  | take =>
    simp only [captureStep] at h
    split at h <;> cases h
    · rename_i h hStage hHeld
      exact .take h hStage hHeld
    · rename_i hStage _
      exact .refuse _ (by rw [hStage]; rfl)
  | changeset ok =>
    simp only [captureStep] at h
    split at h <;> cases h
    rename_i h hStage hHeld
    exact .read h ok hStage hHeld
  | close =>
    simp only [captureStep] at h
    split at h <;> cases h
    rename_i read h hStage hHeld
    exact .close h read hStage hHeld

/-- What a step of request `i` on session `p` has to say: where the handles at the places it
touches are now, and what it leaves as it was. -/
theorem Inv.of_request {t : State} (hInv : Inv s) (hp : s.sys.calls[i]? = some (.serving p)) (hSys : t.sys = s.sys)
    (hStage : ∀ j, j ≠ i → t.stage j = s.stage j) (hSound : t.captures.Sound)
    (hPlaced : ∀ a h, t.captures.held a = some h → Placed t h a)
    (hAttached : ∀ ref, s.captures.held (.attached ref) = none → ref ≠ (s.sys.store.heap p).release →
      t.captures.held (.attached ref) = none)
    (hClear : (t.stage i).starts = true → t.captures.held (.attached (s.sys.store.heap p).release) = none)
    (hReadOnce : ∀ h, t.reads h ≤ 1) (hReadMade : ∀ h, t.captures.next ≤ h → t.reads h = 0)
    (hClosed : ∀ h ∈ t.delivered, t.captures.closed h = 1) (hNodup : t.delivered.Nodup) : Inv t := by
  refine ⟨hSys ▸ hInv.ex, hSys ▸ hInv.acct, hSound, hPlaced, ?_, ?_, hReadOnce, hReadMade, hClosed, hNodup⟩
  · intro j hj
    rw [hSys]
    rcases Decidable.em (j = i) with rfl | hNe
    · exact ⟨p, hp⟩
    · exact hInv.busy j (hStage j hNe ▸ hj)
  · intro j q hj hq
    rw [hSys] at hq ⊢
    rcases Decidable.em (j = i) with rfl | hNe
    · obtain rfl := Call.serving.inj (Option.some.inj (hp.symm.trans hq))
      exact hClear hj
    · -- Another request is on another session, and that has another reference.
      refine hAttached _ (hInv.clear j q (hStage j hNe ▸ hj) hq) ?_
      intro hEq
      have hLookup := (hInv.ex.flight p (List.mem_of_getElem? hp)).1
      have hLookup' := (hInv.ex.flight q (List.mem_of_getElem? hq)).1
      have hIds := release_inj hInv.acct hLookup' hLookup hEq
      obtain rfl : q = p := Option.some.inj (hLookup'.symm.trans (hIds ▸ hLookup))
      have hTwo := two_le_countP (p := Call.serves q) hq hp hNe (by simp [Call.serves]) (by simp [Call.serves])
      have hOne := hInv.ex.one q
      omega

theorem Placed.of_stage {t : State} {a : Place} (hPlaced : Placed s h a) (ha : a ≠ .hand i) (hSys : t.sys = s.sys)
    (hStage : ∀ j, j ≠ i → t.stage j = s.stage j) (hOrigin : t.origin h = s.origin h)
    (hReads : t.reads h = s.reads h) : Placed t h a := by
  cases a with
  | attached ref | torn ref =>
    unfold Placed at hPlaced ⊢
    rwa [hSys, hOrigin, hReads]
  | hand j =>
    have hj : j ≠ i := fun hEq => ha (hEq ▸ rfl)
    simp only [Placed, hSys, hOrigin, hReads, hStage j hj] at hPlaced ⊢
    exact hPlaced

@[simp] theorem goTo_stage_self (s : State) (i : Nat) (stage : Stage) : (s.goTo i stage).stage i = stage :=
  Function.update_self _ _ _

theorem goTo_stage_of_ne (s : State) {i j : Nat} (stage : Stage) (hj : j ≠ i) : (s.goTo i stage).stage j = s.stage j :=
  Function.update_of_ne hj _ _

theorem answer_stage_of_ne (s : State) {i j : Nat} (result : Except RunError Answer) (hj : j ≠ i) :
    (s.answer i result).stage j = s.stage j :=
  goTo_stage_of_ne s .ready hj

@[simp] theorem answer_stage_self (s : State) (i : Nat) (result : Except RunError Answer) :
    (s.answer i result).stage i = .ready :=
  goTo_stage_self s i .ready

theorem delivered_answer_of_not (s : State) (i : Nat) {result : Except RunError Answer}
    (hNot : ∀ h, result ≠ .ok (.sessionChangeset h)) : (s.answer i result).delivered = s.delivered := by
  rcases result with err | (_ | h)
  · simp [State.delivered, State.answer, State.goTo]
  · simp [State.delivered, State.answer, State.goTo]
  · exact absurd rfl (hNot h)

theorem delivered_answer (s : State) (i h : Nat) :
    (s.answer i (.ok (.sessionChangeset h))).delivered = s.delivered ++ [h] := by
  simp [State.delivered, State.answer, State.goTo]

section Requests

variable (hInv : Inv s) (hp : s.sys.calls[i]? = some (.serving p))

include hInv hp

theorem Inv.refuse (err : RunError) (hStage : (s.stage i).holds = false) : Inv (s.answer i (.error err)) := by
  have hDelivered : (s.answer i (.error err)).delivered = s.delivered :=
    delivered_answer_of_not s i (fun _ hEq => by cases hEq)
  refine hInv.of_request hp rfl (fun j => answer_stage_of_ne s _) hInv.sound ?_ (fun _ hNone _ => hNone) ?_ hInv.readOnce
    hInv.readMade (hDelivered ▸ hInv.closed) (hDelivered ▸ hInv.nodup)
  · intro a h hHeld
    refine (hInv.placed a h hHeld).of_stage ?_ rfl (fun j => answer_stage_of_ne s _) rfl rfl
    rintro rfl
    cases (hInv.hand_empty hStage).symm.trans hHeld
  · rw [answer_stage_self]
    exact fun hStarts => by cases hStarts

theorem Inv.check (tables : List String) (hNone : s.captures.held (.attached (s.sys.store.heap p).release) = none)
    (hStage : s.stage i = .ready) : Inv (s.goTo i (.creating tables)) := by
  refine hInv.of_request hp rfl (fun j => goTo_stage_of_ne s _) hInv.sound ?_ (fun _ hNone _ => hNone) (fun _ => hNone)
    hInv.readOnce hInv.readMade hInv.closed hInv.nodup
  intro a h hHeld
  refine (hInv.placed a h hHeld).of_stage ?_ rfl (fun j => goTo_stage_of_ne s _) rfl rfl
  rintro rfl
  cases (hInv.hand_empty (by rw [hStage]; rfl)).symm.trans hHeld

theorem Inv.create {tables : List String} (tables' : List String) (hStage : s.stage i = .creating tables) :
    Inv ({ s with
      captures := s.captures.create (.hand i)
      origin := Function.update s.origin s.captures.next (s.sys.store.heap p).release }.goTo i
        (.attaching tables')) := by
  have hEmpty := hInv.hand_empty (i := i) (by rw [hStage]; rfl)
  refine hInv.of_request hp rfl (fun j => goTo_stage_of_ne _ _) (hInv.sound.create hEmpty) ?_ ?_ ?_ hInv.readOnce ?_
    hInv.closed hInv.nodup
  · intro a h hHeld
    rcases Custody.held_create_cases hHeld with ⟨rfl, rfl⟩ | ⟨hNe, hOld⟩
    · refine ⟨⟨p, hp, Function.update_self _ _ _⟩, ?_, fun _ => hInv.readMade _ (Nat.le_refl _)⟩
      rw [goTo_stage_self]
      rfl
    · refine (hInv.placed a h hOld).of_stage hNe rfl (fun j => goTo_stage_of_ne _ _) ?_ rfl
      exact Function.update_of_ne (Nat.ne_of_lt (hInv.sound.made hOld)) _ _
  · intro ref hNone _
    exact (Custody.held_create_of_ne (fun hEq => by cases hEq)).trans hNone
  · intro _
    refine (Custody.held_create_of_ne (fun hEq => by cases hEq)).trans ?_
    exact hInv.clear i p (by rw [hStage]; rfl) hp
  · intro h hLe
    exact hInv.readMade h (Nat.le_of_succ_le hLe)

theorem Inv.attach {table : String} {rest : List String} (hStage : s.stage i = .attaching (table :: rest)) :
    Inv (s.goTo i (.attaching rest)) := by
  refine hInv.of_request hp rfl (fun j => goTo_stage_of_ne s _) hInv.sound ?_ (fun _ hNone _ => hNone)
    (fun _ => hInv.clear i p (by rw [hStage]; rfl) hp) hInv.readOnce hInv.readMade hInv.closed hInv.nodup
  intro a h hHeld
  rcases Decidable.em (a = .hand i) with rfl | hNe
  · obtain ⟨hOrigin, -, hReads⟩ := hInv.placed _ h hHeld
    refine ⟨hOrigin, ?_, fun _ => hReads ?_⟩
    · rw [goTo_stage_self]
      rfl
    · rw [hStage]
      exact fun _ hEq => by cases hEq
  · exact (hInv.placed a h hHeld).of_stage hNe rfl (fun j => goTo_stage_of_ne s _) rfl rfl

theorem Inv.closeHand (result : Except RunError Answer)
    (hAnswer : ∀ h, result = .ok (.sessionChangeset h) → s.captures.held (.hand i) = some h) :
    Inv ({ s with captures := s.captures.close (.hand i) }.answer i result) := by
  have hKept : ∀ h ∈ s.delivered, (s.captures.close (.hand i)).closed h = 1 := by
    intro h hh
    rw [Custody.closed_close_of_ne, hInv.closed h hh]
    intro hHeld
    cases (hInv.sound.unclosed hHeld).symm.trans (hInv.closed h hh)
  have hDelivered : (∀ h ∈ ({ s with captures := s.captures.close (.hand i) }.answer i result).delivered,
      (s.captures.close (.hand i)).closed h = 1) ∧
      ({ s with captures := s.captures.close (.hand i) }.answer i result).delivered.Nodup := by
    rcases result with err | (_ | h)
    · rw [delivered_answer_of_not _ _ (fun _ hEq => by cases hEq)]
      exact ⟨hKept, hInv.nodup⟩
    · rw [delivered_answer_of_not _ _ (fun _ hEq => by cases hEq)]
      exact ⟨hKept, hInv.nodup⟩
    · have hHeld := hAnswer h rfl
      rw [delivered_answer]
      constructor
      · intro h' hh'
        rcases List.mem_append.mp hh' with hOld | hNew
        · exact hKept h' hOld
        · rw [List.mem_singleton.mp hNew, Custody.closed_close_self hHeld, hInv.sound.unclosed hHeld]
      · refine List.Nodup.append hInv.nodup (List.nodup_singleton _) (List.disjoint_singleton.mpr fun hOld => ?_)
        cases (hInv.sound.unclosed hHeld).symm.trans (hInv.closed h hOld)
  refine hInv.of_request hp rfl (fun j => answer_stage_of_ne _ _) (hInv.sound.close _) ?_ ?_ ?_ hInv.readOnce ?_
    hDelivered.1 hDelivered.2
  · intro a h hHeld
    obtain ⟨hNe, hOld⟩ := Custody.held_close_cases hHeld
    exact (hInv.placed a h hOld).of_stage hNe rfl (fun j => answer_stage_of_ne _ _) rfl rfl
  · intro ref hNone _
    exact (Custody.held_close_of_ne (fun hEq => by cases hEq)).trans hNone
  · rw [answer_stage_self]
    exact fun hStarts => by cases hStarts
  · intro h hLe
    exact hInv.readMade h (hLe.trans' (Nat.le_of_eq (Custody.close_next _ _).symm))

theorem Inv.set (hStage : s.stage i = .attaching []) :
    Inv ({ s with captures := s.captures.move (.hand i) (.attached (s.sys.store.heap p).release) }.answer i
      (.ok .sessionStart)) := by
  have hClear := hInv.clear i p (by rw [hStage]; rfl) hp
  refine hInv.of_request hp rfl (fun j => answer_stage_of_ne _ _)
    (hInv.sound.move (fun hEq => by cases hEq) hClear) ?_ ?_ ?_ hInv.readOnce hInv.readMade ?_ ?_
  · intro a h hHeld
    rcases Custody.held_move_cases hHeld with ⟨rfl, hHand⟩ | ⟨hNe, _, hOld⟩
    · obtain ⟨⟨q, hq, hOrigin⟩, -, hReads⟩ := hInv.placed _ h hHand
      obtain rfl := Call.serving.inj (Option.some.inj (hp.symm.trans hq))
      have hLookup := (hInv.ex.flight p (List.mem_of_getElem? hp)).1
      refine ⟨hOrigin, hReads ?_, _, p, hLookup, rfl⟩
      rw [hStage]
      exact fun _ hEq => by cases hEq
    · exact (hInv.placed a h hOld).of_stage hNe rfl (fun j => answer_stage_of_ne _ _) rfl rfl
  · intro ref hNone hRef
    refine (Custody.held_move_of_ne (fun hEq => by cases hEq) ?_).trans hNone
    exact fun hEq => hRef (Place.attached.inj hEq)
  · rw [answer_stage_self]
    exact fun hStarts => by cases hStarts
  · rw [delivered_answer_of_not _ _ (fun _ hEq => by cases hEq)]
    exact hInv.closed
  · rw [delivered_answer_of_not _ _ (fun _ hEq => by cases hEq)]
    exact hInv.nodup

theorem Inv.take (hStage : s.stage i = .ready) :
    Inv ({ s with captures := s.captures.move (.attached (s.sys.store.heap p).release) (.hand i) }.goTo i
      .reading) := by
  have hEmpty := hInv.hand_empty (i := i) (by rw [hStage]; rfl)
  refine hInv.of_request hp rfl (fun j => goTo_stage_of_ne _ _)
    (hInv.sound.move (fun hEq => by cases hEq) hEmpty) ?_ ?_ ?_ hInv.readOnce hInv.readMade hInv.closed hInv.nodup
  · intro a h hHeld
    rcases Custody.held_move_cases hHeld with ⟨rfl, hAttached⟩ | ⟨_, hNe, hOld⟩
    · obtain ⟨hOrigin, hReads, -⟩ := hInv.placed _ h hAttached
      refine ⟨⟨p, hp, hOrigin⟩, ?_, fun _ => hReads⟩
      rw [goTo_stage_self]
      rfl
    · exact (hInv.placed a h hOld).of_stage hNe rfl (fun j => goTo_stage_of_ne _ _) rfl rfl
  · intro ref hNone hRef
    refine (Custody.held_move_of_ne ?_ (fun hEq => by cases hEq)).trans hNone
    exact fun hEq => hRef (Place.attached.inj hEq)
  · rw [goTo_stage_self]
    exact fun hStarts => by cases hStarts

theorem Inv.read (ok : Bool) (hStage : s.stage i = .reading) (hHeld : s.captures.held (.hand i) = some h) :
    Inv ({ s with reads := Function.update s.reads h (s.reads h + 1) }.goTo i (.closing ok)) := by
  have hUnread : s.reads h = 0 := by
    refine (hInv.placed _ h hHeld).2.2 ?_
    rw [hStage]
    exact fun _ hEq => by cases hEq
  have hOther : ∀ {h'}, h' ≠ h → Function.update s.reads h (s.reads h + 1) h' = s.reads h' := fun hNe =>
    Function.update_of_ne hNe _ _
  refine hInv.of_request hp rfl (fun j => goTo_stage_of_ne _ _) hInv.sound ?_ (fun _ hNone _ => hNone) ?_ ?_ ?_
    hInv.closed hInv.nodup
  · intro a h' hHeld'
    rcases Decidable.em (a = .hand i) with rfl | hNe
    · obtain ⟨hOrigin, -, -⟩ := hInv.placed _ h' hHeld'
      refine ⟨hOrigin, ?_, fun hNot => ?_⟩
      · rw [goTo_stage_self]
        rfl
      · exact absurd (goTo_stage_self _ _ _) (hNot ok)
    · refine (hInv.placed a h' hHeld').of_stage hNe rfl (fun j => goTo_stage_of_ne _ _) rfl (hOther ?_)
      rintro rfl
      exact hNe (hInv.sound.one hHeld' hHeld)
  · rw [goTo_stage_self]
    exact fun hStarts => by cases hStarts
  · intro h'
    rcases Decidable.em (h' = h) with rfl | hNe
    · refine Nat.le_of_eq ?_
      change Function.update s.reads h' (s.reads h' + 1) h' = 1
      rw [Function.update_self, hUnread]
    · exact (hOther hNe).trans_le (hInv.readOnce h')
  · intro h' hLe
    refine (hOther ?_).trans (hInv.readMade h' hLe)
    rintro rfl
    exact absurd (hInv.sound.made hHeld) (Nat.not_lt.mpr hLe)

theorem Inv.change {t : State} (hChange : Change s i (s.sys.store.heap p).release t) : Inv t := by
  cases hChange with
  | refuse err hStage => exact hInv.refuse hp err hStage
  | check tables hNone hStage => exact hInv.check hp tables hNone hStage
  | create tables tables' hStage => exact hInv.create hp tables' hStage
  | attach table rest hStage => exact hInv.attach hp hStage
  | abandon tables hStage => exact hInv.closeHand hp _ (fun _ hEq => by cases hEq)
  | set hStage => exact hInv.set hp hStage
  | take h hStage hHeld => exact hInv.take hp hStage
  | read h ok hStage hHeld => exact hInv.read hp ok hStage hHeld
  | close h read hStage hHeld =>
    refine hInv.closeHand hp _ ?_
    intro h' hEq
    split at hEq
    · rw [hHeld, Answer.sessionChangeset.inj (Except.ok.inj hEq)]
    · cases hEq

end Requests

theorem Inv.teardown (hInv : Inv s) (ref : Ref) : Inv { s with captures := s.captures.close (.torn ref) } := by
  refine ⟨hInv.ex, hInv.acct, hInv.sound.close _, ?_, hInv.busy, ?_, hInv.readOnce, ?_, ?_, hInv.nodup⟩
  · intro a h hHeld
    exact hInv.placed a h (Custody.held_close_cases hHeld).2
  · intro i p hStarts hp
    exact (Custody.held_close_of_ne (fun hEq => by cases hEq)).trans (hInv.clear i p hStarts hp)
  · intro h hLe
    exact hInv.readMade h (hLe.trans' (Nat.le_of_eq (Custody.close_next _ _).symm))
  · intro h hh
    rw [Custody.closed_close_of_ne, hInv.closed h hh]
    intro hHeld
    cases (hInv.sound.unclosed hHeld).symm.trans (hInv.closed h hh)

/-! ## Every run -/

/-- The environment of the store is as for batons; the captures add no assumption. -/
def Disciplined (codec : Codec) (s : State) : Action → Prop
  | .sys act => Sessions.Disciplined codec s.sys act
  | _ => True

instance (codec : Codec) (s : State) : ∀ act, Decidable (Disciplined codec s act)
  | .sys act => inferInstanceAs (Decidable (Sessions.Disciplined codec s.sys act))
  | .request _ _ | .teardown _ => inferInstanceAs (Decidable True)

theorem Inv.step {act : Action} {t : State} (hInv : Inv s) (hDisc : Disciplined codec s act)
    (h : step codec s act = some t) : Inv t := by
  cases act with
  | sys act => exact hInv.sys hDisc h
  | teardown ref =>
    cases h
    exact hInv.teardown ref
  | request i op =>
    simp only [Capture.step] at h
    split at h
    · rename_i p hp
      exact hInv.change hp (captureStep_change h)
    · cases h

theorem inv_init (ttl maxLife : Time) (max : Int) : Inv (init ttl maxLife max) where
  ex := exclusive_init ttl maxLife max
  acct := accounted_init ttl maxLife max
  sound := Custody.sound_empty
  placed a h hHeld := by cases hHeld
  busy i hStage := absurd rfl hStage
  clear i p hStarts := by cases hStarts
  readOnce h := Nat.zero_le _
  readMade h _ := rfl
  closed h hh := absurd hh List.not_mem_nil
  nodup := List.nodup_nil

/-- A SESSION handle is never closed twice, used after it was closed or shared; its changeset
is read and delivered at most once; while it is open its connection has not gone back to the
pool; and when no request and no teardown is under way, every handle is closed or attached to
a session of the store. -/
structure Safe (s : State) : Prop where
  once : ∀ h, s.captures.closed h ≤ 1
  open_where_used : ∀ a h, s.captures.held a = some h → s.captures.closed h = 0
  unshared : ∀ a b h, s.captures.held a = some h → s.captures.held b = some h → a = b
  single_shot : ∀ h, s.reads h ≤ 1
  delivered_once : s.delivered.Nodup
  pinned : ∀ h, h < s.captures.next → s.captures.closed h = 0 → s.sys.released (s.origin h) = 0
  settled : (∀ p, Call.serving p ∉ s.sys.calls) → s.sys.store.closing = [] →
    ∀ h, h < s.captures.next → s.captures.closed h = 1 ∨
      ∃ id p, s.sys.store.sessions.lookup id = some p ∧ s.captures.held (.attached (s.sys.store.heap p).release) = some h

theorem Inv.safe (hInv : Inv s) : Safe s where
  once := hInv.sound.once
  open_where_used _ _ hHeld := hInv.sound.unclosed hHeld
  unshared _ _ _ ha hb := hInv.sound.one ha hb
  single_shot := hInv.readOnce
  delivered_once := hInv.nodup
  pinned h hLt hOpen := by
    -- The reference still has an owner: the session in the store or its teardown.
    obtain ⟨a, ha⟩ := hInv.sound.kept hLt hOpen
    have hPlaced := hInv.placed a h ha
    have hLe := hInv.acct.refs_le (s.origin h)
    cases a with
    | attached ref =>
      obtain ⟨rfl, -, id, p, hLookup, hRef⟩ := hPlaced
      have hOwner : 0 < s.sys.store.owners (s.origin h) := tally_pos hLookup (by simp [hRef])
      omega
    | torn ref =>
      obtain ⟨rfl, -, td, hTd, hRef⟩ := hPlaced
      have hPending : 0 < s.sys.store.pending (s.origin h) := List.countP_pos_iff.mpr ⟨td, hTd, by simp [hRef]⟩
      omega
    | hand i =>
      obtain ⟨⟨p, hp, hOrigin⟩, -, -⟩ := hPlaced
      have hLookup := (hInv.ex.flight p (List.mem_of_getElem? hp)).1
      have hOwner : 0 < s.sys.store.owners (s.origin h) := tally_pos hLookup (by simp [hOrigin])
      omega
  settled hQuiet hDone h hLt := by
    rcases Nat.le_one_iff_eq_zero_or_eq_one.mp (hInv.sound.once h) with hOpen | hClosed
    · obtain ⟨a, ha⟩ := hInv.sound.kept hLt hOpen
      have hPlaced := hInv.placed a h ha
      cases a with
      | attached ref =>
        obtain ⟨-, -, id, p, hLookup, rfl⟩ := hPlaced
        exact .inr ⟨id, p, hLookup, ha⟩
      | torn ref =>
        obtain ⟨-, -, td, hTd, -⟩ := hPlaced
        rw [hDone] at hTd
        cases hTd
      | hand i =>
        obtain ⟨⟨p, hp, -⟩, -, -⟩ := hPlaced
        exact absurd (List.mem_of_getElem? hp) (hQuiet p)
    · exact .inl hClosed

theorem captures_safe (codec : Codec) (ttl maxLife : Time) (max : Int) (actions : List Action)
    (hDisc : Guarded (step codec) (Disciplined codec) (init ttl maxLife max) actions) :
    Always (step codec) Safe (init ttl maxLife max) actions :=
  (always_of_guarded (fun _ _ _ hInv hStep h => Inv.step hInv hStep h) (inv_init ttl maxLife max) hDisc).mono
    (fun _ hInv => hInv.safe)

/-- A stream starts a capture and reads it, starts a second one and is closed with it; a third
fails to attach its second table. -/
def captured : List Action :=
  [.sys (.call (.stream ⟨"d", "alice", false, false⟩)), .sys (.step 0 .next), .sys (.step 0 .next),
   .sys (.step 0 (.pinned 0)), .sys (.step 0 .next), .sys (.step 0 (.generated sampleId)),
   .request 0 .take, .request 0 (.start []), .request 0 (.create true), .request 0 (.attach true), .request 0 .set,
   .request 0 (.start ["t"]), .request 0 .take, .request 0 (.changeset true), .request 0 .close,
   .request 0 (.start ["t", "u"]), .request 0 (.create true), .request 0 (.attach true), .request 0 (.attach false),
   .request 0 (.start ["t"]), .request 0 (.create true), .request 0 (.attach true), .request 0 .set,
   .sys (.step 0 .close), .teardown 0, .sys (.teardown 0)]

theorem captured_safe :
    (run (step plainCodec) (init 5 9 1) captured).map (fun s => (s.delivered, s.captures.next, s.answers.length)) =
      some ([0], 3, 6) ∧
    Guarded (step plainCodec) (Disciplined plainCodec) (init 5 9 1) captured ∧
    Always (step plainCodec) Safe (init 5 9 1) captured := by
  have hDisc : Guarded (step plainCodec) (Disciplined plainCodec) (init 5 9 1) captured := by decide +kernel
  exact ⟨by decide +kernel, hDisc, captures_safe plainCodec 5 9 1 captured hDisc⟩

end QuicSql.Capture
