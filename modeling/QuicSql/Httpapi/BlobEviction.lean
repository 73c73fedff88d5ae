import QuicSql.Httpapi.BlobOptions

/-!
# Closed handles leave the cache

`forgetBlobStores` ranges over the cache and deletes the keys of a handle one by one, while
requests go on storing. The range visits every key that is there all the time it runs, and
any of the others. It ends before the handle is closed, and nobody stores under a handle that
was detached, so a handle that is being closed has no key in the cache any more.
-/

namespace QuicSql.Httpapi.BlobEviction

open Lib
open Registry (HandleId DB Call CloseFor CloseStage Choice Retired)
open BlobStores (Cache hookOf)

abbrev Key := HandleId × String

/-- `keys` were ever stored; `sweeps` are the calls of the registry that range over the cache,
with the keys that they still have to visit. -/
structure State where
  base : BlobStores.State
  keys : List Key
  sweeps : Nat → Option (List Key)

inductive Action where
  | base (a : BlobStores.Action)
  | beginRange (i : Nat)
  | visit (i : Nat) (key : Key)
  | endRange (i : Nat)

def init (backends : Finmap (fun _ : Registry.DbName => Registry.Backend)) : State :=
  ⟨BlobStores.init backends, [], fun _ => none⟩

def storedKey (s : BlobStores.State) : BlobStores.Action → Option Key
  | .advance k _ =>
    (s.reqs[k]?).bind fun q =>
      match q.phase with
      | .storing h | .inserting h => some (h, q.store)
      | _ => none
  | _ => none

def hookAt (s : BlobStores.State) (i : Nat) : Option HandleId := hookOf s.reg (.step i .next)

def runsHook (s : BlobStores.State) : BlobStores.Action → Bool
  | .registry a => (hookOf s.reg a).isSome
  | _ => false

/-- A key that is deleted is no longer there all the time. -/
def step (s : State) : Action → Option State
  | .base a =>
    if runsHook s.base a then none
    else
      (BlobStores.step s.base a).map fun base =>
        { s with base := base, keys := (storedKey s.base a).toList ++ s.keys }
  | .beginRange i =>
    if (hookAt s.base i).isSome ∧ s.sweeps i = none then
      some { s with
        sweeps := Function.update s.sweeps i (some (s.keys.filter (fun key => (s.base.cache key).isSome))) }
    else none
  | .visit i key =>
    match hookAt s.base i, s.sweeps i with
    | some h, some pending =>
      if key.1 = h then
        some { s with
          base := { s.base with cache := Function.update s.base.cache key none }
          sweeps := fun j => (s.sweeps j).map (fun keys => keys.filter (· ≠ key)) }
      else some { s with sweeps := Function.update s.sweeps i (some (pending.filter (· ≠ key))) }
    | _, _ => none
  | .endRange i =>
    if s.sweeps i = some [] then
      (Registry.step s.base.reg (.step i .next)).map fun reg =>
        { s with
          base := { s.base with reg := reg }
          sweeps := Function.update s.sweeps i none }
    else none

/-! ## Steps of the registry -/

section Registry

variable {r r' : Registry} {c c' : Call} {choice : Choice}

theorem detach_onClose (r : Registry) (name : Registry.DbName) (e : Registry.EntryId) :
    (r.detach name e).onClose = r.onClose := by
  unfold Registry.detach
  split <;> rfl

theorem detachIdleLocked_onClose {name : Registry.DbName} {db : Option DB}
    (h : r.detachIdleLocked name = .ok (r', db)) : r'.onClose = r.onClose := by
  unfold Registry.detachIdleLocked at h
  split at h
  · cases h
    rfl
  · split at h
    · cases h
    · cases h
      exact detach_onClose r name _

theorem reserve_onClose {name : Registry.DbName} {db : Option DB} (h : r.reserve name = .ok (r', db)) :
    r'.onClose = r.onClose := by
  unfold Registry.reserve at h
  split at h
  · cases h
  · split at h
    · cases h
    · rename_i hDetach
      cases h
      exact (detachIdleLocked_onClose hDetach :)

theorem remove_onClose {name : Registry.DbName} {db : Option DB} (h : r.remove name = .ok (r', db)) :
    r'.onClose = r.onClose := by
  unfold Registry.remove at h
  split at h
  · cases h
  · split at h
    · cases h
    · rename_i hDetach
      cases h
      exact (detachIdleLocked_onClose hDetach :)

theorem reapIdle_onClose (r : Registry) (idleTTL now : Registry.Time) (order : List Registry.DbName) :
    (r.reapIdle idleTTL now order).1.onClose = r.onClose := by
  suffices h : ∀ acc : Registry × List DB,
      (order.foldl (Registry.reapOne idleTTL now) acc).1.onClose = acc.1.onClose from h (r, [])
  induction order with
  | nil => exact fun _ => rfl
  | cons name rest ih =>
    intro acc
    rw [List.foldl_cons, ih]
    unfold Registry.reapOne
    split
    · rfl
    · split
      · rfl
      · split
        · rfl
        · exact detach_onClose acc.1 name _

def Unread : Call → Prop
  | .closing _ _ stage => stage = .readHook
  | _ => True

theorem getLocked_closing (r : Registry) (name : Registry.DbName) :
    (Registry.getLocked r name).1.onClose = r.onClose ∧ Unread (Registry.getLocked r name).2 := by
  unfold Registry.getLocked
  split
  · exact ⟨rfl, trivial⟩
  · split
    · exact ⟨rfl, trivial⟩
    · exact ⟨rfl, trivial⟩

theorem getRelocked_closing (r : Registry) (name : Registry.DbName) (e : Registry.EntryId) :
    (Registry.getRelocked r name e).1.onClose = r.onClose ∧ Unread (Registry.getRelocked r name e).2 := by
  unfold Registry.getRelocked
  split
  · exact ⟨rfl, trivial⟩
  · split
    · exact ⟨rfl, trivial⟩
    · split
      · exact ⟨rfl, trivial⟩
      · exact ⟨rfl, trivial⟩

theorem closeStep_onClose (r : Registry) (purpose : CloseFor) (todo : List DB) (stage : CloseStage) :
    (Registry.closeStep r purpose todo stage).1.onClose = r.onClose := by
  unfold Registry.closeStep
  split <;> rfl

/-- The hook stays, and only `closeHandle` goes on from reading it. -/
theorem callStep_closing (h : Registry.callStep r c choice = some (r', c')) :
    r'.onClose = r.onClose ∧ (Unread c' ∨
      ∃ purpose todo stage, c = .closing purpose todo stage ∧ choice = .next ∧
        (r', c') = Registry.closeStep r purpose todo stage) := by
  unfold Registry.callStep at h
  split at h
  case h_1 name =>
    obtain ⟨rfl, rfl⟩ := Prod.ext_iff.mp (Option.some.inj h)
    obtain ⟨hHook, hUnread⟩ := getLocked_closing r name
    exact ⟨hHook, .inl hUnread⟩
  case h_8 | h_18 =>
    split at h <;> cases h <;> exact ⟨rfl, .inl trivial⟩
  case h_10 name e =>
    obtain ⟨rfl, rfl⟩ := Prod.ext_iff.mp (Option.some.inj h)
    obtain ⟨hHook, hUnread⟩ := getRelocked_closing r name e
    exact ⟨hHook, .inl hUnread⟩
  case h_14 name =>
    split at h
    · cases h
      exact ⟨rfl, .inl trivial⟩
    · rename_i hReserve
      cases h
      exact ⟨reserve_onClose hReserve, .inl rfl⟩
  case h_16 =>
    split at h
    · cases h
      exact ⟨rfl, .inl trivial⟩
    · rename_i hAdd
      cases h
      unfold Registry.add at hAdd
      split at hAdd <;> cases hAdd
      exact ⟨rfl, .inl trivial⟩
  case h_17 =>
    split at h
    · cases h
      exact ⟨rfl, .inl trivial⟩
    · rename_i hRemove
      cases h
      exact ⟨remove_onClose hRemove, .inl rfl⟩
  case h_19 idleTTL now order =>
    split at h
    · cases h
      exact ⟨reapIdle_onClose r idleTTL now order, .inl rfl⟩
    · cases h
  case h_20 purpose todo stage =>
    have hStep := Option.some.inj h
    refine ⟨?_, .inr ⟨purpose, todo, stage, rfl, rfl, hStep.symm⟩⟩
    rw [← closeStep_onClose r purpose todo stage, hStep]
  all_goals
    cases h
    try exact ⟨rfl, .inl trivial⟩

variable {s t : Registry.State} {a : Registry.Action}

theorem step_closing (h : Registry.step s a = some t) :
    t.reg.onClose = s.reg.onClose ∧ ∀ c' ∈ t.calls, c' ∈ s.calls ∨ Unread c' ∨
      ∃ i purpose todo stage, s.calls[i]? = some (.closing purpose todo stage) ∧ a = .step i .next ∧
        c' = (Registry.closeStep s.reg purpose todo stage).2 := by
  cases a with
  | call op =>
    cases h
    refine ⟨rfl, fun c' hMem => ?_⟩
    rcases List.mem_append.mp hMem with hOld | hNew
    · exact .inl hOld
    · rw [List.mem_singleton.mp hNew]
      cases op <;> exact .inr (.inl trivial)
  | tick elapsed =>
    cases h
    exact ⟨rfl, fun c' hMem => .inl hMem⟩
  | step i choice =>
    simp only [Registry.step] at h
    split at h
    · cases h
    · rename_i c hc
      split at h
      · cases h
      · rename_i r' d hCall
        cases h
        obtain ⟨hHook, hOrigin⟩ := callStep_closing hCall
        refine ⟨hHook, fun c' hMem => ?_⟩
        rcases List.mem_or_eq_of_mem_set hMem with hOld | rfl
        · exact .inl hOld
        · rcases hOrigin with hUnread | ⟨purpose, todo, stage, rfl, rfl, hStep⟩
          · exact .inr (.inl hUnread)
          · exact .inr (.inr ⟨i, purpose, todo, stage, hc, rfl, by rw [← hStep]⟩)

theorem retired_step {h : HandleId} (hStep : Registry.step s a = some t) (hRetired : Retired s.reg h) :
    Retired t.reg h := by
  rcases Registry.step_ages hStep with ⟨i, name, e, rfl, -, rfl⟩ | ⟨hAges, -⟩
  · refine ⟨Nat.lt_succ_of_lt hRetired.1, ?_⟩
    show ((Function.update s.reg.handles s.reg.nextHandle ⟨name, .open⟩) h).status ≠ .open
    rw [Function.update_of_ne (Nat.ne_of_lt hRetired.1)]
    exact hRetired.2
  · refine ⟨by rw [hAges.nextHandle]; exact hRetired.1, fun hOpen => hRetired.2 (hAges.stays h hOpen)⟩

theorem hookOf_next_eq_some_iff {i : Nat} {gone : HandleId} : hookOf s (.step i .next) = some gone ↔
    ∃ purpose db rest, s.calls[i]? = some (.closing purpose (db :: rest) (.fireHook true)) ∧ db.handle = gone := by
  constructor
  · intro hHook
    simp only [hookOf] at hHook
    split at hHook
    · rename_i purpose db rest hc
      exact ⟨purpose, db, rest, hc, Option.some.inj hHook⟩
    · cases hHook
  · rintro ⟨purpose, db, rest, hc, rfl⟩
    simp only [hookOf, hc]

theorem hookOf_next_stays {i : Nat} {gone : HandleId} (hStep : Registry.step s a = some t)
    (hHook : hookOf s (.step i .next) = some gone) (hOther : a ≠ .step i .next) :
    hookOf t (.step i .next) = some gone := by
  rw [hookOf_next_eq_some_iff] at hHook ⊢
  obtain ⟨purpose, db, rest, hc, hGone⟩ := hHook
  rcases BlobStores.registry_call hStep hc with hSame | ⟨choice, c', rfl, hCall, -⟩
  · exact ⟨purpose, db, rest, hSame, hGone⟩
  · have hNext : choice = .next := by
      cases choice <;> first | rfl | cases hCall
    rw [hNext] at hOther
    exact absurd rfl hOther

theorem hookOf_next_retired {i : Nat} {gone : HandleId} (hInv : Registry.Inv s)
    (hHook : hookOf s (.step i .next) = some gone) : Retired s.reg gone := by
  obtain ⟨purpose, db, rest, hc, rfl⟩ := hookOf_next_eq_some_iff.mp hHook
  exact hInv.todo_retired (List.mem_of_getElem? hc) (List.mem_cons_self ..)

end Registry

/-! ## Where a closing call stands -/

section Stages

variable {s t : Registry.State} {a : Registry.Action} {cache cache' : Cache} {c : Call}

/-- The hook is set when it is read; once it has run, the handle has no key. -/
def StageOk (cache : Cache) : Call → Prop
  | .closing _ _ (.fireHook hook) => hook = true
  | .closing _ (db :: _) .enterClose | .closing _ (db :: _) .inClose => ∀ name, cache (db.handle, name) = none
  | _ => True

theorem StageOk.of_unread (h : Unread c) : StageOk cache c := by
  cases c with
  | closing purpose todo stage =>
    cases h
    cases todo <;> trivial
  | _ => trivial

theorem StageOk.closeStep {purpose : CloseFor} {todo : List DB} {stage : CloseStage} {r : Registry}
    (h : StageOk cache (.closing purpose todo stage)) (hHook : r.onClose = true)
    (hSwept : ∀ db rest, todo = db :: rest → stage = .fireHook true → ∀ name, cache (db.handle, name) = none) :
    StageOk cache (Registry.closeStep r purpose todo stage).2 := by
  cases todo with
  | nil => cases purpose <;> trivial
  | cons db rest =>
    cases stage with
    | readHook => exact hHook
    | fireHook hook => exact hSwept db rest rfl (congrArg _ h)
    | enterClose => exact h
    | inClose => exact .of_unread rfl

theorem stages_step (hStep : Registry.step s a = some t) (hHook : s.reg.onClose = true)
    (hSwept : ∀ h, hookOf s a = some h → ∀ name, cache (h, name) = none)
    (hStages : ∀ c ∈ s.calls, StageOk cache c) : ∀ c ∈ t.calls, StageOk cache c := by
  intro c hMem
  rcases (step_closing hStep).2 c hMem with hOld | hUnread | ⟨i, purpose, todo, stage, hc, rfl, rfl⟩
  · exact hStages c hOld
  · exact .of_unread hUnread
  · refine (hStages _ (List.mem_of_getElem? hc)).closeStep hHook ?_
    rintro db rest rfl rfl
    exact hSwept db.handle (hookOf_next_eq_some_iff.mpr ⟨purpose, db, rest, hc, rfl⟩)

theorem stages_of_retired (hInv : Registry.Inv s)
    (hKeep : ∀ key : Key, Retired s.reg key.1 → cache key = none → cache' key = none)
    (hStages : ∀ c ∈ s.calls, StageOk cache c) : ∀ c ∈ s.calls, StageOk cache' c := by
  intro c hMem
  have hOld := hStages c hMem
  cases c with
  | closing purpose todo stage =>
    cases todo with
    | nil => cases stage <;> exact hOld
    | cons db rest =>
      have hRetired := hInv.todo_retired hMem (List.mem_cons_self ..)
      cases stage with
      | readHook => trivial
      | fireHook hook => exact hOld
      | enterClose | inClose => exact fun name => hKeep (db.handle, name) hRetired (hOld name)
  | _ => trivial

end Stages

/-! ## Steps of the requests -/

section Base

variable {s t : BlobStores.State} {a : BlobStores.Action}

theorem handlerStep_effect {k : Nat} {q : BlobStores.Req} {ok : Bool} (h : BlobStores.handlerStep s k q ok = some t) :
    t.reg = s.reg ∧ (t.cache = s.cache ∨
      ∃ h opts, (q.phase = .storing h ∨ q.phase = .inserting h) ∧ t.cache = Function.update s.cache (h, q.store) opts) ∨
    t.cache = s.cache ∧ Registry.step s.reg (.step q.call .release) = some t.reg := by
  cases hPhase : q.phase with
  | storing h' =>
    simp only [BlobStores.handlerStep, hPhase] at h
    cases h
    exact .inl ⟨rfl, .inr ⟨h', _, .inl rfl, rfl⟩⟩
  | inserting h' =>
    simp only [BlobStores.handlerStep, hPhase] at h
    split at h
    · cases h
      exact .inl ⟨rfl, .inl rfl⟩
    · cases h
      exact .inl ⟨rfl, .inr ⟨h', _, .inr rfl, rfl⟩⟩
  | releasing h' ok' =>
    simp only [BlobStores.handlerStep, hPhase] at h
    obtain ⟨reg, hReg, rfl⟩ := Option.map_eq_some_iff.mp h
    exact .inr ⟨rfl, hReg⟩
  | _ =>
    simp only [BlobStores.handlerStep, hPhase] at h
    repeat' split at h
    all_goals
      cases h
      try exact .inl ⟨rfl, .inl rfl⟩

theorem base_registry (hStep : BlobStores.step s a = some t) (hRuns : runsHook s a = false) :
    t.reg = s.reg ∨ ∃ ra, Registry.step s.reg ra = some t.reg ∧ hookOf s.reg ra = none := by
  cases a with
  | start endpoint db store =>
    cases hStep
    exact .inr ⟨.call (.get db), rfl, rfl⟩
  | registry ra =>
    obtain ⟨-, reg, hReg, rfl⟩ := BlobStores.registryStep_eq_some hStep
    refine .inr ⟨ra, hReg, ?_⟩
    simpa [runsHook] using hRuns
  | advance k ok =>
    simp only [BlobStores.step] at hStep
    split at hStep
    · cases hStep
    · rename_i q hq
      rcases handlerStep_effect hStep with ⟨hSame, -⟩ | ⟨-, hReg⟩
      · exact .inl hSame
      · exact .inr ⟨.step q.call .release, hReg, rfl⟩

/-- A request stores under the handle that it holds, which is open. -/
theorem base_cache (hInv : BlobStores.Inv s) (hStep : BlobStores.step s a = some t) (hRuns : runsHook s a = false)
    (key : Key) : t.cache key = s.cache key ∨ storedKey s a = some key ∧ (s.reg.reg.handles key.1).status = .open := by
  cases a with
  | start endpoint db store =>
    cases hStep
    exact .inl rfl
  | registry ra =>
    obtain ⟨-, reg, -, rfl⟩ := BlobStores.registryStep_eq_some hStep
    have hNone : hookOf s.reg ra = none := by simpa [runsHook] using hRuns
    refine .inl ?_
    show BlobStores.hooked s.cache (hookOf s.reg ra) key = s.cache key
    rw [hNone]
    rfl
  | advance k ok =>
    simp only [BlobStores.step] at hStep
    split at hStep
    · cases hStep
    · rename_i q hq
      rcases handlerStep_effect hStep with ⟨-, hSame | ⟨h, opts, hPhase, hCache⟩⟩ | ⟨hSame, -⟩
      · exact .inl (congrFun hSame key)
      · rw [hCache]
        by_cases hEq : key = (h, q.store)
        · subst hEq
          have hHandle : q.phase.handle = some h := by
            rcases hPhase with hPhase | hPhase <;> rw [hPhase] <;> rfl
          refine .inr ⟨?_, by rw [(hInv.usable (List.mem_of_getElem? hq) hHandle).2]⟩
          rcases hPhase with hPhase | hPhase <;> simp [storedKey, hq, hPhase]
        · exact .inl (Function.update_of_ne hEq _ _)
      · exact .inl (congrFun hSame key)

theorem base_cache_retired (hInv : BlobStores.Inv s) (hStep : BlobStores.step s a = some t)
    (hRuns : runsHook s a = false) (key : Key) (hRetired : Retired s.reg.reg key.1) (hNone : s.cache key = none) :
    t.cache key = none := by
  rcases base_cache hInv hStep hRuns key with hSame | ⟨-, hOpen⟩
  · rw [hSame]
    exact hNone
  · exact absurd hOpen hRetired.2

end Base

/-! ## The invariant -/

structure Inv (s : State) : Prop where
  base : BlobStores.Inv s.base
  hook : s.base.reg.reg.onClose = true
  stored : ∀ key, key ∉ s.keys → s.base.cache key = none
  sweeps : ∀ i pending, s.sweeps i = some pending → ∃ h, hookAt s.base i = some h ∧
    ∀ name, (h, name) ∉ pending → s.base.cache (h, name) = none
  stages : ∀ c ∈ s.base.reg.calls, StageOk s.base.cache c

theorem inv_init (backends : Finmap (fun _ : Registry.DbName => Registry.Backend)) : Inv (init backends) where
  base := BlobStores.inv_init backends
  hook := rfl
  stored _ _ := rfl
  sweeps i pending h := by cases h
  stages c hMem := by cases hMem

variable {s t : State}

theorem step_base {a : BlobStores.Action} (h : step s (.base a) = some t) :
    runsHook s.base a = false ∧ ∃ base, BlobStores.step s.base a = some base ∧
      t = { s with base := base, keys := (storedKey s.base a).toList ++ s.keys } := by
  simp only [step] at h
  split at h
  · cases h
  · rename_i hRuns
    obtain ⟨base, hStep, rfl⟩ := Option.map_eq_some_iff.mp h
    exact ⟨by simpa using hRuns, base, hStep, rfl⟩

theorem step_endRange {i : Nat} (h : step s (.endRange i) = some t) :
    s.sweeps i = some [] ∧ ∃ reg, Registry.step s.base.reg (.step i .next) = some reg ∧
      t = { s with base := { s.base with reg := reg }, sweeps := Function.update s.sweeps i none } := by
  simp only [step] at h
  split at h
  · rename_i hSweep
    obtain ⟨reg, hReg, rfl⟩ := Option.map_eq_some_iff.mp h
    exact ⟨hSweep, reg, hReg, rfl⟩
  · cases h

theorem Inv.baseStep (hInv : Inv s) {a : BlobStores.Action} (h : step s (.base a) = some t) : Inv t := by
  obtain ⟨hRuns, base, hStep, rfl⟩ := step_base h
  have hKeep := base_cache_retired hInv.base hStep hRuns
  have hStages := stages_of_retired hInv.base.reg hKeep hInv.stages
  have hReg := base_registry hStep hRuns
  refine ⟨hInv.base.step hStep, ?_, fun key hKey => ?_, fun i pending hSweep => ?_, ?_⟩
  · rcases hReg with hSame | ⟨ra, hReg, -⟩
    · rw [hSame]
      exact hInv.hook
    · rw [(step_closing hReg).1]
      exact hInv.hook
  · rw [List.mem_append, not_or] at hKey
    rcases base_cache hInv.base hStep hRuns key with hSame | ⟨hStored, -⟩
    · rw [hSame]
      exact hInv.stored key hKey.2
    · exact absurd (by rw [hStored]; exact List.mem_singleton_self key) hKey.1
  · obtain ⟨gone, hHook, hRest⟩ := hInv.sweeps i pending hSweep
    have hRetired := hookOf_next_retired hInv.base.reg hHook
    refine ⟨gone, ?_, fun name hName => hKeep (gone, name) hRetired (hRest name hName)⟩
    rcases hReg with hSame | ⟨ra, hReg, hNone⟩
    · exact (congrArg (hookOf · (.step i .next)) hSame).trans hHook
    · refine hookOf_next_stays hReg hHook ?_
      rintro rfl
      cases hNone.symm.trans hHook
  · rcases hReg with hSame | ⟨ra, hReg, hNone⟩
    · rw [hSame]
      exact hStages
    · refine stages_step hReg hInv.hook (fun gone hHook => ?_) hStages
      cases hNone.symm.trans hHook

theorem Inv.pending (hInv : Inv s) {i : Nat} {gone : HandleId} {pending : List Key}
    (hHook : hookAt s.base i = some gone) (hRest : ∀ name, (gone, name) ∉ pending → s.base.cache (gone, name) = none) :
    Inv { s with sweeps := Function.update s.sweeps i (some pending) } where
  base := hInv.base
  hook := hInv.hook
  stored := hInv.stored
  sweeps j pending' hSweep := by
    dsimp only at hSweep ⊢
    by_cases hij : j = i
    · subst hij
      rw [Function.update_self] at hSweep
      cases hSweep
      exact ⟨gone, hHook, hRest⟩
    · rw [Function.update_of_ne hij] at hSweep
      exact hInv.sweeps j pending' hSweep
  stages := hInv.stages

theorem Inv.beginRange (hInv : Inv s) {i : Nat} (h : step s (.beginRange i) = some t) : Inv t := by
  simp only [step] at h
  split at h
  · rename_i hBegin
    cases h
    obtain ⟨gone, hHook⟩ := Option.isSome_iff_exists.mp hBegin.1
    refine hInv.pending hHook fun name hName => ?_
    rw [List.mem_filter, not_and] at hName
    by_cases hKey : (gone, name) ∈ s.keys
    · exact Option.not_isSome_iff_eq_none.mp (hName hKey)
    · exact hInv.stored _ hKey
  · cases h

theorem mem_of_not_mem_filter_ne {keys : List Key} {key key' : Key} (h : key' ∉ keys.filter (· ≠ key)) :
    key' ∉ keys ∨ key' = key := by
  rw [List.mem_filter, not_and_or] at h
  simpa using h

theorem Inv.visit (hInv : Inv s) {i : Nat} {key : Key} (h : step s (.visit i key) = some t) : Inv t := by
  simp only [step] at h
  split at h
  · rename_i gone pending hHook hSweeps
    have hRetired := hookOf_next_retired hInv.base.reg hHook
    split at h
    · rename_i hKey
      cases h
      have hKeep : ∀ key', s.base.cache key' = none → Function.update s.base.cache key none key' = none := by
        intro key' hNone
        by_cases hEq : key' = key
        · rw [hEq, Function.update_self]
        · rw [Function.update_of_ne hEq]
          exact hNone
      refine ⟨?_, hInv.hook, fun key' hMem => hKeep key' (hInv.stored key' hMem), fun j pending' hSweep => ?_,
        stages_of_retired hInv.base.reg (fun key' _ => hKeep key') hInv.stages⟩
      · refine hInv.base.of_open hKeep fun h' name hOpen => Function.update_of_ne ?_ _ _
        rintro rfl
        rw [← hKey] at hRetired
        exact hRetired.2 hOpen
      · obtain ⟨old, hOld, rfl⟩ := Option.map_eq_some_iff.mp hSweep
        obtain ⟨gone', hHook', hRest⟩ := hInv.sweeps j old hOld
        refine ⟨gone', hHook', fun name hName => ?_⟩
        rcases mem_of_not_mem_filter_ne hName with hMissing | rfl
        · exact hKeep _ (hRest name hMissing)
        · exact Function.update_self _ _ _
    · rename_i hKey
      cases h
      obtain ⟨gone', hHook', hRest⟩ := hInv.sweeps i pending hSweeps
      obtain rfl : gone = gone' := Option.some.inj (hHook.symm.trans hHook')
      refine hInv.pending hHook fun name hName => ?_
      rcases mem_of_not_mem_filter_ne hName with hMissing | rfl
      · exact hRest name hMissing
      · exact absurd rfl hKey
  · cases h

theorem endRange_hook (hInv : Inv s) {i : Nat} (h : step s (.endRange i) = some t) :
    ∃ gone, hookAt s.base i = some gone ∧ (∀ name, s.base.cache (gone, name) = none) ∧
      BlobStores.step s.base (.registry (.step i .next)) = some t.base := by
  obtain ⟨hSweep, reg, hReg, rfl⟩ := step_endRange h
  obtain ⟨gone, hHook, hRest⟩ := hInv.sweeps i [] hSweep
  have hSwept : ∀ name, s.base.cache (gone, name) = none := fun name => hRest name (List.not_mem_nil)
  have hForget : BlobStores.forgetBlobStores s.base.cache gone = s.base.cache := by
    funext key
    unfold BlobStores.forgetBlobStores
    split
    · rename_i hKey
      rw [← hSwept key.2, ← hKey]
    · rfl
  refine ⟨gone, hHook, hSwept, ?_⟩
  have hHook' : hookOf s.base.reg (.step i .next) = some gone := hHook
  simp only [BlobStores.step, BlobStores.registryStep, BlobStores.owned, Bool.false_eq_true, if_false, hReg,
    Option.map_some, hHook', BlobStores.hooked, hForget]

theorem Inv.endRange (hInv : Inv s) {i : Nat} (h : step s (.endRange i) = some t) : Inv t := by
  obtain ⟨gone, hHook, hSwept, hBase⟩ := endRange_hook hInv h
  obtain ⟨-, reg, hReg, rfl⟩ := step_endRange h
  refine ⟨hInv.base.step hBase, ?_, hInv.stored, fun j pending hSweep => ?_, ?_⟩
  · exact (step_closing hReg).1.trans hInv.hook
  · dsimp only at hSweep ⊢
    have hij : j ≠ i := by
      rintro rfl
      rw [Function.update_self] at hSweep
      cases hSweep
    rw [Function.update_of_ne hij] at hSweep
    obtain ⟨gone', hHook', hRest⟩ := hInv.sweeps j pending hSweep
    refine ⟨gone', hookOf_next_stays hReg hHook' ?_, hRest⟩
    intro hEq
    exact hij (Registry.Action.step.inj hEq).1.symm
  · refine stages_step hReg hInv.hook (fun gone' hHook' => ?_) hInv.stages
    obtain rfl : gone = gone' := Option.some.inj (hHook.symm.trans hHook')
    exact hSwept

theorem Inv.step {a : Action} (hInv : Inv s) (h : step s a = some t) : Inv t := by
  cases a with
  | base a => exact hInv.baseStep h
  | beginRange i => exact hInv.beginRange h
  | visit i key => exact hInv.visit h
  | endRange i => exact hInv.endRange h

/-! ## From the close on -/

structure Gone (s : State) (h : HandleId) : Prop where
  retired : Retired s.base.reg.reg h
  unkeyed : ∀ name, s.base.cache (h, name) = none

theorem Gone.step {h : HandleId} {a : Action} (hInv : Inv s) (hGone : Gone s h) (hStep : step s a = some t) :
    Gone t h := by
  cases a with
  | base a =>
    obtain ⟨hRuns, base, hBase, rfl⟩ := step_base hStep
    constructor
    · rcases base_registry hBase hRuns with hSame | ⟨ra, hReg, -⟩
      · rw [hSame]
        exact hGone.retired
      · exact retired_step hReg hGone.retired
    · intro name
      exact base_cache_retired hInv.base hBase hRuns (h, name) hGone.retired (hGone.unkeyed name)
  | beginRange i =>
    simp only [BlobEviction.step] at hStep
    split at hStep <;> cases hStep
    exact ⟨hGone.retired, hGone.unkeyed⟩
  | visit i key =>
    simp only [BlobEviction.step] at hStep
    split at hStep
    · split at hStep
      · cases hStep
        refine ⟨hGone.retired, fun name => ?_⟩
        show Function.update s.base.cache key none (h, name) = none
        rw [Function.update_apply, hGone.unkeyed name, ite_self]
      · cases hStep
        exact ⟨hGone.retired, hGone.unkeyed⟩
    · cases hStep
  | endRange i =>
    obtain ⟨-, reg, hReg, rfl⟩ := step_endRange hStep
    exact ⟨retired_step hReg hGone.retired, hGone.unkeyed⟩

def InClose (s : State) (h : HandleId) : Prop :=
  ∃ purpose db rest, Call.closing purpose (db :: rest) .inClose ∈ s.base.reg.calls ∧ db.handle = h

theorem Inv.gone (hInv : Inv s) {h : HandleId} (hClose : InClose s h) : Gone s h := by
  obtain ⟨purpose, db, rest, hMem, rfl⟩ := hClose
  exact ⟨hInv.base.reg.todo_retired hMem (List.mem_cons_self ..), hInv.stages _ hMem⟩

/-- In every interleaving, from the moment on at which `Handle.Close` of a handle has started,
no key of the cache has that handle. -/
theorem closed_handle_never_cached (backends : Finmap (fun _ : Registry.DbName => Registry.Backend))
    (before after : List Action) (h : HandleId) (hRun : run step (init backends) before = some s)
    (hClose : InClose s h) : Always step (fun t => ∀ name, t.base.cache (h, name) = none) s after := by
  have hInv : Inv s :=
    (always_of_invariant (fun _ _ _ hInv hStep => hInv.step hStep) (inv_init backends) before).final hRun
  have hGone : Always step (fun t => Inv t ∧ Gone t h) s after :=
    always_of_invariant (fun _ _ _ hBoth hStep => ⟨hBoth.1.step hStep, hBoth.2.step hBoth.1 hStep⟩)
      ⟨hInv, hInv.gone hClose⟩ after
  exact hGone.mono fun _ hBoth => hBoth.2.unkeyed

/-- The provisioned store is cached, and its database is reaped up to `Handle.Close`. -/
def reapedSweeping : List Action :=
  BlobStores.provisioned.map .base ++
  [.base (.registry (.tick 5)), .base (.registry (.call (.reapIdle 1))), .base (.registry (.step 1 .next)),
   .base (.registry (.step 1 (.range ["d"]))), .base (.registry (.step 1 .next)), .beginRange 1, .visit 1 (0, "s"),
   .endRange 1, .base (.registry (.step 1 .next))]

/-- A write opens the database again and stores under the new handle. -/
def writesAgain : List Action :=
  [.base (.start .write "d" "s"), .base (.registry (.step 2 .next)), .base (.registry (.step 2 .openOk)),
   .base (.registry (.step 2 .next)), .base (.registry (.step 2 .next)), .base (.registry (.step 2 .next)),
   .base (.advance 1 true), .base (.advance 1 true), .base (.advance 1 true), .base (.advance 1 true)]

theorem reaped_handle_never_cached : ∃ s,
    run step (init (Finmap.singleton "d" ⟨"file", false⟩)) reapedSweeping = some s ∧ InClose s 0 ∧
      Always step (fun t => ∀ name, t.base.cache (0, name) = none) s writesAgain := by
  have hCalls : (run step (init (Finmap.singleton "d" ⟨"file", false⟩)) reapedSweeping).map
      (fun s => s.base.reg.calls[1]?) = some (some (.closing (.reap 1) [⟨"d", "file", false, 0⟩] .inClose)) := by
    rfl
  obtain ⟨s, hRun, hCall⟩ := Option.map_eq_some_iff.mp hCalls
  have hClose : InClose s 0 := ⟨.reap 1, ⟨"d", "file", false, 0⟩, [], List.mem_of_getElem? hCall, rfl⟩
  exact ⟨s, hRun, hClose, closed_handle_never_cached _ reapedSweeping writesAgain 0 hRun hClose⟩

example : ((run step (init (Finmap.singleton "d" ⟨"file", false⟩)) (reapedSweeping ++ writesAgain)).map
    fun s => (s.base.cache (0, "s"), s.base.cache (1, "s"))) = some (none, some []) := by
  decide +kernel

/-- The options in force follow the handle also while others are swept. -/
theorem options_follow_handle_while_sweeping (backends : Finmap (fun _ : Registry.DbName => Registry.Backend))
    (actions : List Action) :
    Always step (fun s => ∀ q ∈ s.base.reqs, BlobStores.Honoured q) (init backends) actions :=
  (always_of_invariant (fun _ _ _ hInv h => hInv.step h) (inv_init backends) actions).mono
    (fun _ hInv q hq => (hInv.base.reqOk q hq).honoured)

end QuicSql.Httpapi.BlobEviction
