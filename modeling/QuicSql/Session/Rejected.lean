import QuicSql.Session.Exclusive
import QuicSql.Session.Lag

/-!
# Rejected resumes

A run of the store beside the same run with further resumes inserted, all of them rejected.
A run is played from a list of actions, where an action that does not apply is skipped, so
that both runs are played from one list. A loop over the sessions skips an id that is no
longer there, as a range over a map does.
-/

namespace QuicSql.Sessions

open Lib

def callPlay (codec : Codec) (s : State) : Call → Choice → State × Call
  | .reap, .range order => ({ s with store := s.store.reap order }, .done)
  | .closeAll, .range order => ({ s with store := s.store.closeAll order }, .waitClosing)
  | c, choice => (callStep codec s c choice).getD (s, c)

def play (codec : Codec) (s : State) : Action → State
  | .call op => { s with calls := s.calls ++ [op.start] }
  | .step i choice =>
    match s.calls[i]? with
    | none => s
    | some c => { (callPlay codec s c choice).1 with calls := s.calls.set i (callPlay codec s c choice).2 }
  | .teardown i => (teardownStep s i).getD s
  | .tick elapsed => { s with store := { s.store with now := s.store.now + elapsed } }

theorem callPlay_of_callStep {codec : Codec} {s t : State} {c d : Call} {choice : Choice}
    (h : callStep codec s c choice = some (t, d)) : callPlay codec s c choice = (t, d) := by
  unfold callPlay
  split
  · simp only [callStep] at h
    exact Option.some.inj (Option.ite_none_right_eq_some.mp h).2
  · simp only [callStep] at h
    exact Option.some.inj (Option.ite_none_right_eq_some.mp h).2
  · rw [h]
    rfl

/-- Every step of the store is played as it is. -/
theorem play_of_step {codec : Codec} {s t : State} {a : Action} (h : step codec s a = some t) : play codec s a = t := by
  cases a with
  | call op | tick elapsed => exact Option.some.inj h
  | teardown i =>
    simp only [step] at h
    simp only [play, h, Option.getD_some]
  | step i choice =>
    simp only [step] at h
    split at h
    · cases h
    · rename_i c hc
      split at h
      · cases h
      · rename_i u d hCall
        cases h
        simp only [play, hc, callPlay_of_callStep hCall]

/-- What happens in the longer run: an action of the original, or an inserted Resume call. -/
inductive Event where
  | own (a : Action)
  | inserted (baton db principal : String)
deriving DecidableEq, Repr

def Event.action : Event → Option Action
  | .own a => some a
  | .inserted _ _ _ => none

def replay (codec : Codec) (s : State) : Event → State
  | .own a => play codec s a
  | .inserted baton db principal => { s with store := (s.store.resume codec baton db principal).1 }

/-! ## What every played run keeps -/

variable {codec : Codec} {s t : State} {c c' d : Call} {i : Nat} {choice : Choice}

/-- A session in use is busy and has one user, and there are slots for the opens in progress. -/
structure Sound (s : State) : Prop where
  ptrs : ∀ id p, s.store.sessions.lookup id = some p → p < s.store.nextPtr
  busy : ∀ p, Call.serving p ∈ s.calls → p < s.store.nextPtr ∧ (s.store.heap p).busy = true
  one : ∀ p, s.calls.countP (Call.serves p) ≤ 1
  slots : ∀ name, (s.openings name : Int) ≤ s.store.spare name

namespace Sound

theorem spare_nonneg (h : Sound s) (name : DbName) : 0 ≤ s.store.spare name := by
  have hSlots := h.slots name
  omega

theorem of_frame (h : Sound s) (hHeap : t.store.heap = s.store.heap) (hNext : t.store.nextPtr = s.store.nextPtr)
    (hLive : ∀ id p, t.store.sessions.lookup id = some p → s.store.sessions.lookup id = some p)
    (hCalls : ∀ p, Call.serving p ∈ t.calls → Call.serving p ∈ s.calls)
    (hOne : ∀ p, t.calls.countP (Call.serves p) ≤ s.calls.countP (Call.serves p))
    (hSlots : ∀ name, (t.openings name : Int) ≤ t.store.spare name) : Sound t where
  ptrs id p hLookup := by
    rw [hNext]
    exact h.ptrs id p (hLive id p hLookup)
  busy p hp := by
    rw [hNext, hHeap]
    exact h.busy p (hCalls p hp)
  one p := (hOne p).trans (h.one p)
  slots := hSlots

theorem of_shrinks (h : Sound s) (hShrinks : Shrinks s t)
    (hSlots : ∀ name, (t.openings name : Int) ≤ t.store.spare name) : Sound t :=
  h.of_frame hShrinks.heap hShrinks.nextPtr hShrinks.live hShrinks.calls hShrinks.one hSlots

theorem openings_set (hc : s.calls[i]? = some c) (d : Call) (name : DbName) :
    (s.calls.set i d).countP (Call.holdsSlot name) + (c.holdsSlot name).toNat =
      s.openings name + (d.holdsSlot name).toNat :=
  countP_set_add hc

theorem slots_of_same (h : Sound s) (hc : s.calls[i]? = some c) (hSlot : ∀ name, d.holdsSlot name = c.holdsSlot name)
    {u : State} (hCalls : u.calls = s.calls.set i d) (hSpare : ∀ name, s.store.spare name ≤ u.store.spare name)
    (name : DbName) : (u.openings name : Int) ≤ u.store.spare name := by
  have hCount := openings_set hc d name
  have hSlots := h.slots name
  have hMore := hSpare name
  have hOpenings : u.openings name = (s.calls.set i d).countP (Call.holdsSlot name) := by
    unfold State.openings
    rw [hCalls]
  rw [hSlot] at hCount
  omega

theorem slots_of_add (h : Sound s) (hc : s.calls[i]? = some c) {db : DbName} {n : Int}
    (hMoves : ∀ name, ((d.holdsSlot name).toNat : Int) = (c.holdsSlot name).toNat + if db = name then n else 0)
    (name : DbName) :
    (((s.calls.set i d).countP (Call.holdsSlot name) : Nat) : Int) ≤ (s.store.addSlot db n).spare name := by
  have hCount := openings_set hc d name
  have hSlots := h.slots name
  have hMove := hMoves name
  rw [spare_addSlot]
  omega

theorem slots_of_less (h : Sound s) (hc : s.calls[i]? = some c) {db : DbName}
    (hHeld : ∀ name, c.holdsSlot name = decide (db = name)) (hFree : ∀ name, d.holdsSlot name = false) (name : DbName) :
    (((s.calls.set i d).countP (Call.holdsSlot name) : Nat) : Int) ≤ (s.store.addSlot db (-1)).spare name := by
  apply h.slots_of_add hc
  intro name
  rw [hHeld, hFree]
  by_cases hDb : db = name <;> simp [hDb]

theorem register (h : Sound s) {o : Open} {ref : Ref} {conn : ConnId} (hc : s.calls[i]? = some (.register o ref conn))
    (id : SessionId) :
    Sound
      { s with
        store := s.store.insertSession (o.session ref conn id s.store.now)
        calls := s.calls.set i (.serving s.store.nextPtr) } := by
  constructor
  · exact ptrs_insertSession _ h.ptrs
  · intro q hq
    change q < s.store.nextPtr + 1 ∧ (Function.update s.store.heap s.store.nextPtr _ q).busy = true
    cases List.mem_or_eq_of_mem_set hq with
    | inl hOld =>
      obtain ⟨hLt, hBusy⟩ := h.busy q hOld
      rw [Function.update_of_ne (Nat.ne_of_lt hLt)]
      exact ⟨Nat.lt_succ_of_lt hLt, hBusy⟩
    | inr hEq =>
      cases hEq
      rw [Function.update_self]
      exact ⟨Nat.lt_succ_self _, rfl⟩
  · exact serving_one_of_take h.one hc fun hMem => Nat.lt_irrefl _ (h.busy _ hMem).1
  · intro name
    have hCount : _ + (decide (o.db = name)).toNat = s.openings name + 0 :=
      openings_set hc (.serving s.store.nextPtr) name
    have hSpare := spare_insertSession_le h.ptrs (o.session ref conn id s.store.now) name
    have hSlots := h.slots name
    change _ - ((decide (o.db = name)).toNat : Int) ≤ _ at hSpare
    change (((s.calls.set i (.serving s.store.nextPtr)).countP (Call.holdsSlot name) : Nat) : Int) ≤
      (s.store.insertSession (o.session ref conn id s.store.now)).spare name
    omega

theorem resume (h : Sound s) {p : Ptr} (hc : s.calls[i]? = some c) (hSlot : ∀ name, c.holdsSlot name = false)
    {id : SessionId} (hLookup : s.store.sessions.lookup id = some p) (hIdle : (s.store.heap p).busy = false)
    (resumes : List Resumed) :
    Sound
      { s with
        store := s.store.setSession p ((s.store.heap p).taken s.store.now)
        calls := s.calls.set i (.serving p)
        resumes := resumes } := by
  constructor
  · exact h.ptrs
  · intro q hq
    change q < s.store.nextPtr ∧ _
    cases List.mem_or_eq_of_mem_set hq with
    | inl hOld =>
      obtain ⟨hLt, hBusy⟩ := h.busy q hOld
      have hNe : q ≠ p := by
        rintro rfl
        rw [hIdle] at hBusy
        cases hBusy
      dsimp only
      rw [Store.setSession_of_ne _ _ hNe]
      exact ⟨hLt, hBusy⟩
    | inr hEq =>
      cases hEq
      dsimp only
      rw [Store.setSession_self]
      exact ⟨h.ptrs id p hLookup, rfl⟩
  · apply serving_one_of_take h.one hc
    intro hMem
    have hBusy := (h.busy p hMem).2
    rw [hIdle] at hBusy
    cases hBusy
  · have hDb : ((s.store.heap p).taken s.store.now).dbName = (s.store.heap p).dbName := rfl
    apply h.slots_of_same (d := .serving p) hc (fun name => (hSlot name).symm) rfl
    intro name
    exact Int.le_of_eq (spare_setSession hDb name).symm

theorem baton (h : Sound s) (codec : Codec) {p : Ptr} (hc : s.calls[i]? = some (.serving p)) :
    Sound { s with store := (s.store.baton codec p).1, calls := s.calls.set i (.answered p) } := by
  have hDb : ({ s.store.heap p with busy := false, lastUsed := s.store.now } : Session).dbName =
    (s.store.heap p).dbName := rfl
  change Sound { s with
    store := s.store.setSession p { s.store.heap p with busy := false, lastUsed := s.store.now }
    calls := s.calls.set i (.answered p) }
  constructor
  · exact h.ptrs
  · intro q hq
    obtain ⟨hNe, hMem⟩ := serving_others (h.one p) hc (by simp) hq
    dsimp only
    rw [Store.setSession_of_ne _ _ hNe]
    exact h.busy q hMem
  · intro q
    exact (countP_set_le hc (by simp [Call.serves])).trans (h.one q)
  · apply h.slots_of_same (d := .answered p) hc (fun _ => rfl) rfl
    intro name
    exact Int.le_of_eq (spare_setSession hDb name).symm

theorem close (h : Sound s) (hc : s.calls[i]? = some c) {p : Ptr}
    (hp : c = .serving p ∨ c = .answered p ∨ c = .closed p) :
    Sound { s with store := s.store.close p, calls := s.calls.set i (.closed p) } := by
  have hFrame := evictFrame_closeLocked s.store (s.store.heap p).id
  have hSlot : ∀ name, (Call.closed p).holdsSlot name = c.holdsSlot name := by
    rcases hp with rfl | rfl | rfl <;> exact fun _ => rfl
  refine h.of_frame hFrame.heap hFrame.nextPtr hFrame.live ?_ ?_ ?_
  · intro q hq
    exact (List.mem_or_eq_of_mem_set hq).resolve_right (by simp)
  · intro q
    exact countP_set_le hc (by simp [Call.serves])
  · exact h.slots_of_same hc hSlot rfl (spare_closeLocked_le s.store _)

theorem perDB_pos (h : Sound s) {o : Open} {ref : Ref} {err : Err} (hc : s.calls[i]? = some (.giveBack o ref err)) :
    0 < s.store.perDB o.db := by
  have hHolds : 0 < s.openings o.db :=
    List.countP_pos_iff.mpr ⟨_, List.mem_of_getElem? hc, by simp [Call.holdsSlot]⟩
  have hSlots := h.slots o.db
  unfold Store.spare at hSlots
  omega

theorem of_move (h : Sound s) (hc : s.calls[i]? = some c) (hMove : Move codec s c choice t d) :
    Sound { t with calls := s.calls.set i d } := by
  cases hMove with
  | quiet hSlot _ hServes _ =>
    exact h.of_shrinks (.of_counters hc rfl rfl rfl rfl rfl hServes)
      (h.slots_of_same hc hSlot rfl fun _ => Int.le_refl _)
  | obtain o =>
    exact h.of_shrinks (.of_counters hc rfl rfl rfl rfl rfl fun _ => rfl)
      (h.slots_of_same (d := .slot o s.nextRef) hc (fun _ => rfl) rfl fun _ => Int.le_refl _)
  | dropRef ref err =>
    exact h.of_shrinks (.of_counters hc rfl rfl rfl rfl rfl fun _ => rfl)
      (h.slots_of_same (d := .failed err) hc (fun _ => rfl) rfl fun _ => Int.le_refl _)
  | reserve o ref hRoom =>
    refine h.of_shrinks (.of_counters hc rfl rfl rfl rfl rfl fun _ => rfl) fun name => ?_
    apply h.slots_of_add (d := .pin o ref) hc
    intro name
    change ((decide (o.db = name)).toNat : Int) = 0 + if o.db = name then 1 else 0
    by_cases hDb : o.db = name <;> simp [hDb]
  | randFailed o ref conn detail =>
    refine h.of_shrinks (.of_counters hc rfl rfl rfl rfl rfl fun _ => rfl) fun name => ?_
    exact h.slots_of_less hc (fun _ => rfl) (fun _ => rfl) name
  | giveBack o ref err =>
    have hRelease : s.store.releaseSlot o.db = s.store.addSlot o.db (-1) := if_pos (h.perDB_pos hc)
    rw [hRelease]
    refine h.of_shrinks (.of_counters hc rfl rfl rfl rfl rfl fun _ => rfl) fun name => ?_
    exact h.slots_of_less hc (fun _ => rfl) (fun _ => rfl) name
  | register o ref conn id => exact h.register hc id
  | resume baton db principal hVerify hAccepts hOk => exact h.resume hc (fun _ => rfl) hAccepts.lookup hAccepts.idle _
  | evict hEvicts hSlot _ hServes _ =>
    exact h.of_shrinks (.of_evicts hc hServes hEvicts) (h.slots_of_same hc hSlot rfl hEvicts.spare_le)
  | baton p => exact h.baton codec hc
  | close p hp => exact h.close hc hp

end Sound

theorem callPlay_move (codec : Codec) (s : State) (c : Call) (choice : Choice) :
    Move codec s c choice (callPlay codec s c choice).1 (callPlay codec s c choice).2 := by
  unfold callPlay
  split
  · exact .evict (evicts_reap _) (fun _ => rfl) (fun _ => rfl) (fun _ => rfl) nofun
  · exact .evict (evicts_closeAll _) (fun _ => rfl) (fun _ => rfl) (fun _ => rfl) nofun
  · cases hCall : callStep codec s c choice with
    | none => exact .quiet (fun _ => rfl) (fun _ => rfl) (fun _ => rfl) fun _ h => h
    | some r => exact callStep_move hCall

theorem play_teardown (codec : Codec) (s : State) (i : Nat) :
    ∃ closing released, play codec s (.teardown i) =
      { s with store := { s.store with closing := closing }, released := released } := by
  unfold play teardownStep
  dsimp only
  split
  · exact ⟨s.store.closing, s.released, rfl⟩
  · exact ⟨_, _, rfl⟩

theorem Sound.play (h : Sound s) (codec : Codec) (a : Action) : Sound (play codec s a) := by
  cases a with
  | call op =>
    have hStart : ∀ p, op.start.serves p = false := fun p => by cases op <;> rfl
    refine h.of_frame rfl rfl (fun _ _ hLookup => hLookup) ?_ ?_ ?_
    · intro p hp
      cases List.mem_append.mp hp with
      | inl hOld => exact hOld
      | inr hNew => cases op <;> simp [Op.start] at hNew
    · intro p
      simp [Sessions.play, List.countP_append, hStart]
    · intro name
      have hSame : (Sessions.play codec s (.call op)).openings name = s.openings name := by
        cases op <;> simp [State.openings, Sessions.play, Op.start, Call.holdsSlot]
      rw [hSame]
      exact h.slots name
  | tick elapsed => exact ⟨h.ptrs, h.busy, h.one, h.slots⟩
  | teardown i =>
    obtain ⟨closing, released, hPlay⟩ := play_teardown codec s i
    rw [hPlay]
    exact ⟨h.ptrs, h.busy, h.one, h.slots⟩
  | step i choice =>
    unfold Sessions.play
    dsimp only
    split
    · exact h
    · rename_i c hc
      exact h.of_move hc (callPlay_move codec s c choice)

theorem Sound.inserted (h : Sound s) {baton db principal : String} {err : Err}
    (hErr : (s.store.resume codec baton db principal).2 = .error err) :
    Sound (replay codec s (.inserted baton db principal)) := by
  rcases resume_cases codec s.store baton db principal with
    ⟨_, st, hResume, hEvicts⟩ | ⟨id, gen, p, _, _, hResume⟩
  · have hFrame := hEvicts.frame
    simp only [replay, hResume]
    refine h.of_frame hFrame.heap hFrame.nextPtr hFrame.live (fun _ hp => hp) (fun _ => Nat.le_refl _) fun name => ?_
    exact (h.slots name).trans (hEvicts.spare_le name)
  · rw [hResume] at hErr
    cases hErr

theorem sound_init (ttl maxLife : Time) (max : Int) : Sound (init ttl maxLife max) := by
  constructor <;> simp [init, newStore, Store.spare, Store.bound, State.openings]

/-! ## Two runs -/

/-- A call as the resumes see it: what a kill answered, and whether a shutdown still waits for
teardowns, is left out. -/
def Call.visible : Call → Call
  | .killed _ | .waitClosing => .done
  | c => c

theorem Call.visible_cases (c : Call) : c.visible = c ∨ c.visible = .done := by
  cases c <;> simp [Call.visible]

/-- The two runs cannot be told apart by a Resume call or by the batons handed out. -/
structure SameResumes (codec : Codec) (s t : State) : Prop where
  outcomes : ∀ i : Nat, (t.calls[i]?).map Call.visible = (s.calls[i]?).map Call.visible
  resumes : t.resumes = s.resumes
  batons : ∀ p, (t.store.baton codec p).2 = (s.store.baton codec p).2
  peeked : ∀ p, t.store.peekBaton codec p = s.store.peekBaton codec p

/-- An Open finds room, or none of its database's sessions has expired; and it does not draw
the id of a session that has. -/
def Call.undisturbed (st : Store) : Call → Choice → Bool
  | .slot o _, .next => st.perDB o.db < st.max || st.overdue o.db = 0
  | .register _ _ _, .generated id => (st.sessions.lookup id).all (fun p => !st.reapable (st.heap p))
  | _, _ => true

def undisturbed (s : State) : Action → Bool
  | .step i choice => (s.calls[i]?).all (fun c => c.undisturbed s.store choice)
  | _ => true

def rejects (codec : Codec) (s : State) : Event → Bool
  | .inserted baton db principal =>
    match (s.store.resume codec baton db principal).2 with
    | .error _ => true
    | .ok _ => false
  | .own _ => true

structure Agrees (s t : State) : Prop where
  store : Lags s.store t.store
  nextRef : t.nextRef = s.nextRef
  resumes : t.resumes = s.resumes

namespace Agrees

variable {o : Open} {ref : Ref} {p : Ptr}

theorem reserve (h : Agrees s t) (hQuiet : Call.undisturbed s.store (.slot o ref) .next = true) :
    Agrees (callPlay codec s (.slot o ref) .next).1 (callPlay codec t (.slot o ref) .next).1 ∧
      (callPlay codec t (.slot o ref) .next).2 = (callPlay codec s (.slot o ref) .next).2 := by
  have hOr : s.store.perDB o.db < s.store.max ∨ s.store.overdue o.db = 0 := by simpa [Call.undisturbed] using hQuiet
  have hFull := h.store.full_iff hOr
  simp only [callPlay, callStep, Store.reserveSlot]
  by_cases hRoom : s.store.max ≤ s.store.perDB o.db
  · rw [if_pos hRoom, if_pos (hFull.mpr hRoom)]
    exact ⟨h, rfl⟩
  · rw [if_neg hRoom, if_neg (mt hFull.mp hRoom)]
    exact ⟨⟨h.store.addSlot o.db 1, h.nextRef, h.resumes⟩, rfl⟩

theorem register (h : Agrees s t) (hSound : Sound s) {conn : ConnId} {id : SessionId}
    (hQuiet : Call.undisturbed s.store (.register o ref conn) (.generated id) = true) :
    Agrees (callPlay codec s (.register o ref conn) (.generated id)).1
        (callPlay codec t (.register o ref conn) (.generated id)).1 ∧
      (callPlay codec t (.register o ref conn) (.generated id)).2 =
        (callPlay codec s (.register o ref conn) (.generated id)).2 := by
  have hFresh : ∀ p, s.store.sessions.lookup id = some p → s.store.reapable (s.store.heap p) = false := by
    intro p hLookup
    simpa [Call.undisturbed, hLookup] using hQuiet
  simp only [callPlay, callStep, Option.getD_some, h.store.now, h.store.nextPtr]
  exact ⟨⟨h.store.insertSession hSound.ptrs hFresh, h.nextRef, h.resumes⟩, trivial⟩

theorem resume (h : Agrees s t) (hSound : Sound s) (baton db principal : String) :
    Agrees (resumeStep codec s baton db principal).1 (resumeStep codec t baton db principal).1 ∧
      (resumeStep codec t baton db principal).2 = (resumeStep codec s baton db principal).2 := by
  obtain ⟨hStore, hSame⟩ := h.store.resume hSound.spare_nonneg codec baton db principal
  have hRecord : ∀ p, resumed codec t.store baton db principal p = resumed codec s.store baton db principal p := by
    intro p
    unfold resumed
    rw [h.store.heap, h.store.now]
  unfold resumeStep
  generalize s.store.resume codec baton db principal = r at hStore hSame
  generalize t.store.resume codec baton db principal = r' at hStore hSame
  obtain ⟨st, res⟩ := r
  obtain ⟨st', res'⟩ := r'
  dsimp only at hStore hSame
  subst hSame
  cases res' with
  | error err => exact ⟨⟨hStore, h.nextRef, h.resumes⟩, rfl⟩
  | ok p =>
    refine ⟨⟨hStore, h.nextRef, ?_⟩, rfl⟩
    dsimp only
    rw [hRecord, h.resumes]

/-- A request hands its session back; it is busy until then and so has not expired. -/
theorem baton (h : Agrees s t) (codec : Codec) (hBusy : (s.store.heap p).busy = true) :
    Lags (s.store.baton codec p).1 (t.store.baton codec p).1 := by
  have hFresh : s.store.reapable (s.store.heap p) = false := by
    unfold Store.reapable
    rw [if_pos hBusy]
  unfold Store.baton
  dsimp only
  rw [h.store.heap, h.store.now]
  exact h.store.setSession rfl fun id hLookup => h.store.still hFresh hLookup

theorem close (h : Agrees s t) (hSound : Sound s) (p : Ptr) : Lags (s.store.close p) (t.store.close p) := by
  unfold Store.close
  rw [h.store.heap]
  exact h.store.closeBoth hSound.spare_nonneg _

theorem callPlay (h : Agrees s t) (hSound : Sound s) (hSound' : Sound t) (hc : s.calls[i]? = some c)
    (hc' : t.calls[i]? = some c) (hQuiet : c.undisturbed s.store choice = true) :
    Agrees (callPlay codec s c choice).1 (callPlay codec t c choice).1 ∧
      (callPlay codec t c choice).2.visible = (callPlay codec s c choice).2.visible := by
  have hServing : ∀ p, c = .serving p → (s.store.heap p).busy = true := by
    rintro p rfl
    exact (hSound.busy p (List.mem_of_getElem? hc)).2
  have hSpare := hSound.spare_nonneg
  cases c <;> cases choice <;> try exact ⟨h, rfl⟩
  case stream.next o =>
    refine ⟨⟨h.store, congrArg (· + 1) h.nextRef, h.resumes⟩, ?_⟩
    exact congrArg (Call.slot o) h.nextRef
  case slot.next o ref =>
    obtain ⟨hAgrees, hCall⟩ := Agrees.reserve h hQuiet
    exact ⟨hAgrees, congrArg Call.visible hCall⟩
  case mode.fail o ref conn detail =>
    simp only [Sessions.callPlay, callStep]
    split <;> exact ⟨h, rfl⟩
  case register.generated o ref conn id =>
    obtain ⟨hAgrees, hCall⟩ := Agrees.register h hSound hQuiet
    exact ⟨hAgrees, congrArg Call.visible hCall⟩
  case register.fail o ref conn detail => exact ⟨⟨h.store.addSlot o.db (-1), h.nextRef, h.resumes⟩, rfl⟩
  case giveBack.next o ref err =>
    have hRelease : s.store.releaseSlot o.db = s.store.addSlot o.db (-1) := if_pos (hSound.perDB_pos hc)
    have hRelease' : t.store.releaseSlot o.db = t.store.addSlot o.db (-1) := if_pos (hSound'.perDB_pos hc')
    simp only [Sessions.callPlay, callStep, Option.getD_some, hRelease, hRelease']
    exact ⟨⟨h.store.addSlot o.db (-1), h.nextRef, h.resumes⟩, trivial⟩
  case dropRef.next ref err => exact ⟨⟨h.store, h.nextRef, h.resumes⟩, rfl⟩
  case resume.next baton db principal =>
    obtain ⟨hAgrees, hCall⟩ := Agrees.resume h hSound baton db principal
    exact ⟨hAgrees, congrArg Call.visible hCall⟩
  case serving.baton p => exact ⟨⟨h.baton codec (hServing p rfl), h.nextRef, h.resumes⟩, rfl⟩
  case serving.close p => exact ⟨⟨h.close hSound p, h.nextRef, h.resumes⟩, rfl⟩
  case answered.close p => exact ⟨⟨h.close hSound p, h.nextRef, h.resumes⟩, rfl⟩
  case closed.close p => exact ⟨⟨h.close hSound p, h.nextRef, h.resumes⟩, rfl⟩
  case kill.next idStr => exact ⟨⟨h.store.kill hSpare codec idStr, h.nextRef, h.resumes⟩, rfl⟩
  case reap.range order => exact ⟨⟨h.store.reap hSpare order, h.nextRef, h.resumes⟩, rfl⟩
  case closeAll.range order => exact ⟨⟨h.store.closeAll hSpare order, h.nextRef, h.resumes⟩, rfl⟩
  case waitClosing.next =>
    simp only [Sessions.callPlay, callStep]
    split <;> split <;> exact ⟨h, rfl⟩

end Agrees

theorem callPlay_over (codec : Codec) (s : State) (h : c.visible = .done) (choice : Choice) :
    (callPlay codec s c choice).1 = s ∧ (callPlay codec s c choice).2.visible = .done := by
  cases c <;> cases h <;> cases choice <;> try exact ⟨rfl, rfl⟩
  case waitClosing.refl.next =>
    simp only [callPlay, callStep]
    split <;> exact ⟨rfl, rfl⟩

structure Paired (s t : State) : Prop where
  left : Sound s
  right : Sound t
  agrees : Agrees s t
  calls : t.calls.map Call.visible = s.calls.map Call.visible

namespace Paired

theorem call_cases (h : Paired s t) (hc : s.calls[i]? = some c) :
    ∃ d, t.calls[i]? = some d ∧ (d = c ∨ c.visible = .done ∧ d.visible = .done) := by
  have hMap : (t.calls[i]?).map Call.visible = some c.visible := by
    rw [← List.getElem?_map, h.calls, List.getElem?_map, hc]
    rfl
  obtain ⟨d, hd, hEq⟩ := Option.map_eq_some_iff.mp hMap
  refine ⟨d, hd, ?_⟩
  cases Call.visible_cases c with
  | inr hDone => exact .inr ⟨hDone, hEq.trans hDone⟩
  | inl hSelf =>
    cases Call.visible_cases d with
    | inr hDone => exact .inr ⟨hEq.symm.trans hDone, hDone⟩
    | inl hSelf' => exact .inl (hSelf'.symm.trans (hEq.trans hSelf))

theorem step (h : Paired s t) (codec : Codec) {choice : Choice} (hQuiet : undisturbed s (.step i choice) = true) :
    Agrees (play codec s (.step i choice)) (play codec t (.step i choice)) ∧
      (play codec t (.step i choice)).calls.map Call.visible = (play codec s (.step i choice)).calls.map Call.visible := by
  cases hc : s.calls[i]? with
  | none =>
    have hNone : t.calls[i]? = none := by
      have hLength := congrArg List.length h.calls
      rw [List.length_map, List.length_map] at hLength
      rw [List.getElem?_eq_none_iff] at hc ⊢
      omega
    simp only [play, hc, hNone]
    exact ⟨h.agrees, h.calls⟩
  | some c =>
    obtain ⟨d, hd, hCases⟩ := h.call_cases hc
    have hBoth : Agrees (callPlay codec s c choice).1 (callPlay codec t d choice).1 ∧
        (callPlay codec t d choice).2.visible = (callPlay codec s c choice).2.visible := by
      cases hCases with
      | inl hEq =>
        subst hEq
        exact h.agrees.callPlay h.left h.right hc hd (by simpa [undisturbed, hc] using hQuiet)
      | inr hOver =>
        obtain ⟨hState, hCall⟩ := callPlay_over codec s hOver.1 choice
        obtain ⟨hState', hCall'⟩ := callPlay_over codec t hOver.2 choice
        rw [hState, hState', hCall, hCall']
        exact ⟨h.agrees, rfl⟩
    simp only [play, hc, hd]
    refine ⟨⟨hBoth.1.store, hBoth.1.nextRef, hBoth.1.resumes⟩, ?_⟩
    rw [List.map_set, List.map_set, h.calls, hBoth.2]

theorem play (h : Paired s t) (codec : Codec) {a : Action} (hQuiet : undisturbed s a = true) :
    Paired (play codec s a) (play codec t a) := by
  suffices hBoth : Agrees (Sessions.play codec s a) (Sessions.play codec t a) ∧
      (Sessions.play codec t a).calls.map Call.visible = (Sessions.play codec s a).calls.map Call.visible from
    ⟨h.left.play codec a, h.right.play codec a, hBoth.1, hBoth.2⟩
  have hStore := h.agrees.store
  cases a with
  | call op =>
    refine ⟨⟨hStore, h.agrees.nextRef, h.agrees.resumes⟩, ?_⟩
    simp only [Sessions.play, List.map_append, h.calls]
  | tick elapsed => exact ⟨⟨hStore.tick elapsed, h.agrees.nextRef, h.agrees.resumes⟩, h.calls⟩
  | teardown i =>
    obtain ⟨closing, released, hPlay⟩ := play_teardown codec s i
    obtain ⟨closing', released', hPlay'⟩ := play_teardown codec t i
    rw [hPlay, hPlay']
    exact ⟨⟨⟨hStore.heap, hStore.nextPtr, hStore.now, hStore.ttl, hStore.maxLife, hStore.max, hStore.live, hStore.lost,
      hStore.spare⟩, h.agrees.nextRef, h.agrees.resumes⟩, h.calls⟩
  | step i choice => exact h.step codec hQuiet

theorem inserted (h : Paired s t) {baton db principal : String} (hRejects : rejects codec t (.inserted baton db principal) = true) :
    Paired s (replay codec t (.inserted baton db principal)) := by
  cases hErr : (t.store.resume codec baton db principal).2 with
  | ok p =>
    simp only [rejects, hErr] at hRejects
    cases hRejects
  | error err =>
    exact ⟨h.left, h.right.inserted hErr, ⟨h.agrees.store.rejected h.left.spare_nonneg hErr, h.agrees.nextRef,
      h.agrees.resumes⟩, h.calls⟩

theorem sameResumes (h : Paired s t) (codec : Codec) : SameResumes codec s t where
  outcomes i := by rw [← List.getElem?_map, ← List.getElem?_map, h.calls]
  resumes := h.agrees.resumes
  batons p := by
    unfold Store.baton
    dsimp only
    rw [h.agrees.store.heap]
  peeked p := by
    unfold Store.peekBaton
    rw [h.agrees.store.heap]

/-- The induction is over the longer run; an inserted call moves only the second state. -/
theorem foldl (codec : Codec) (events : List Event) (h : Paired s t)
    (hRejected : Guarded (fun s e => some (replay codec s e)) (fun s e => rejects codec s e = true) t events)
    (hQuiet : Guarded (fun s a => some (Sessions.play codec s a)) (fun s a => undisturbed s a = true) s
      (events.filterMap Event.action)) :
    Paired ((events.filterMap Event.action).foldl (Sessions.play codec) s) (events.foldl (replay codec) t) := by
  induction events generalizing s t with
  | nil => exact h
  | cons e rest ih =>
    obtain ⟨hHead, hRest⟩ := hRejected _ rfl
    cases e with
    | own a =>
      obtain ⟨hNow, hLater⟩ := hQuiet _ rfl
      exact ih (h.play codec hNow) hRest hLater
    | inserted baton db principal => exact ih (h.inserted hHead) hRest hQuiet

end Paired

theorem rejected_resumes_invisible (codec : Codec) (ttl maxLife : Time) (max : Int) (events : List Event)
    (hRejected : Guarded (fun s e => some (replay codec s e)) (fun s e => rejects codec s e = true)
      (init ttl maxLife max) events)
    (hQuiet : Guarded (fun s a => some (play codec s a)) (fun s a => undisturbed s a = true)
      (init ttl maxLife max) (events.filterMap Event.action)) :
    SameResumes codec ((events.filterMap Event.action).foldl (play codec) (init ttl maxLife max))
      (events.foldl (replay codec) (init ttl maxLife max)) := by
  have hSound := sound_init ttl maxLife max
  have hStart : Paired (init ttl maxLife max) (init ttl maxLife max) := ⟨hSound, hSound, ⟨.refl _, rfl, rfl⟩, rfl⟩
  exact (hStart.foldl codec events hRejected hQuiet).sameResumes codec

/-- The actions by which the call `i` opens a session and hands its baton back. -/
def opens (i : Nat) (id : SessionId) : List Event :=
  [.own (.call (.stream ⟨"d", "alice", false, false⟩)), .own (.step i .next), .own (.step i .next),
   .own (.step i (.pinned i)), .own (.step i .next), .own (.step i (.generated id)), .own (.step i .baton)]

def otherId : SessionId := ⟨List.replicate idLen (UInt8.ofNat 9), List.length_replicate⟩

/-- Somebody presents a current baton for the wrong database, and later one that has expired;
the session opened in between is resumed by its owner. -/
def strangerResumes : List Event :=
  opens 0 sampleId ++ [.inserted (mint plainCodec sampleId 1) "e" "alice", .own (.tick 6)] ++ opens 1 otherId ++
    [.inserted (mint plainCodec sampleId 1) "d" "alice", .own (.call (.resume (mint plainCodec otherId 1) "d" "alice")),
     .own (.step 2 .next)]

theorem strangerResumes_invisible :
    (strangerResumes.foldl (replay plainCodec) (init 5 9 2)).resumes.length = 1 ∧
    SameResumes plainCodec ((strangerResumes.filterMap Event.action).foldl (play plainCodec) (init 5 9 2))
      (strangerResumes.foldl (replay plainCodec) (init 5 9 2)) :=
  ⟨by decide +kernel, rejected_resumes_invisible plainCodec 5 9 2 strangerResumes (by decide +kernel) (by decide +kernel)⟩

/-- With room for one session: the owner's first session expires, an Open is refused, the
reaper makes room, and the next Open succeeds and is resumed. A rejected resume of the expired
session lets the Open in the middle take the only slot. -/
def slotFreedEarly : List Event :=
  opens 0 sampleId ++
    [.own (.tick 6), .inserted (mint plainCodec sampleId 1) "d" "alice",
     .own (.call (.stream ⟨"d", "bob", false, false⟩)), .own (.step 1 .next), .own (.step 1 .next),
     .own (.call .reap), .own (.step 2 (.range [sampleId]))] ++ opens 3 otherId ++
    [.own (.call (.resume (mint plainCodec otherId 1) "d" "alice")), .own (.step 4 .next)]

theorem rejected_resume_frees_slot :
    (run (step plainCodec) (init 5 9 1) (slotFreedEarly.filterMap Event.action)).isSome = true ∧
    Guarded (fun s e => some (replay plainCodec s e)) (fun s e => rejects plainCodec s e = true) (init 5 9 1)
      slotFreedEarly ∧
    ((slotFreedEarly.filterMap Event.action).foldl (play plainCodec) (init 5 9 1)).calls[4]? = some (.serving 1) ∧
    (slotFreedEarly.foldl (replay plainCodec) (init 5 9 1)).calls[4]? = some (.failed .badBaton) ∧
    ¬ SameResumes plainCodec ((slotFreedEarly.filterMap Event.action).foldl (play plainCodec) (init 5 9 1))
      (slotFreedEarly.foldl (replay plainCodec) (init 5 9 1)) := by
  have hOwn : ((slotFreedEarly.filterMap Event.action).foldl (play plainCodec) (init 5 9 1)).calls[4]? =
      some (.serving 1) := by decide +kernel
  have hLonger : (slotFreedEarly.foldl (replay plainCodec) (init 5 9 1)).calls[4]? = some (.failed .badBaton) := by
    decide +kernel
  refine ⟨by decide +kernel, by decide +kernel, hOwn, hLonger, fun hSame => ?_⟩
  have hOutcome := hSame.outcomes 4
  rw [hOwn, hLonger] at hOutcome
  cases hOutcome

end QuicSql.Sessions
