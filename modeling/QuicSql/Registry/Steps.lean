import QuicSql.Registry.Preservation

/-!
# Reachable registry states

The invariant holds in every state of every interleaving of calls.
-/

namespace QuicSql.Registry

open Lib

variable {s t : State} {i : Nat} {r' : Registry} {name : DbName} {e : EntryId} {b : Call}

theorem Inv.getLocked (hInv : Inv s) (hc : s.calls[i]? = some (.get name)) :
    Inv ⟨(getLocked s.reg name).1, s.calls.set i (getLocked s.reg name).2⟩ := by
  cases hLookup : s.reg.entries.lookup name with
  | some e =>
    simp only [Registry.getLocked, hLookup]
    exact hInv.of_same (.refl _) hc (hInv.entryOk name e hLookup).1 (by simp [Call.holdsRef])
      (by simp [Call.reserves]) (by simp)
  | none =>
    cases hBackend : s.reg.backends.lookup name with
    | none =>
      simp only [Registry.getLocked, hLookup, hBackend]
      exact hInv.of_same (.refl _) hc trivial (by simp [Call.holdsRef]) (by simp [Call.reserves])
        (by simp)
    | some be =>
      simp only [Registry.getLocked, hLookup, hBackend]
      refine hInv.install hc hLookup ?_ (by simp [opener]) ?_ (by simp [Call.holdsRef]) (by simp)
        (by simp [Call.holdsRef]) (by simp [opener, Call.holdsRef]) (by simp [Call.reserves])
      · exact ⟨rfl, rfl, .inl ⟨rfl, rfl, rfl, rfl⟩⟩
      · exact ⟨by simp [Registry.install], by simp [Registry.install, opener]⟩

theorem Inv.getRelocked (hInv : Inv s) (hc : s.calls[i]? = some (.relock name e)) :
    Inv ⟨(getRelocked s.reg name e).1, s.calls.set i (getRelocked s.reg name e).2⟩ := by
  obtain ⟨he, hReady⟩ : e < s.reg.nextEntry ∧ (s.reg.heap e).ready = true :=
    hInv.callOk _ (List.mem_of_getElem? hc)
  by_cases hLookup : s.reg.entries.lookup name = some e
  · have hOk := (hInv.entryOk name e hLookup).2
    cases hReserved : (s.reg.heap e).reserved with
    | true =>
      rw [show Registry.getRelocked s.reg name e = (s.reg, .failed .reserved) by
        simp [Registry.getRelocked, hLookup, hOk.err_eq, hReserved]]
      exact hInv.of_same (.refl _) hc trivial (by simp [Call.holdsRef]) (by simp [Call.reserves])
        (by simp)
    | false =>
      rw [show Registry.getRelocked s.reg name e =
          (s.reg.acquire e, .returning name e (s.reg.heap e).db) by
        simp [Registry.getRelocked, hLookup, hOk.err_eq, hReserved]]
      -- The open has been signalled and the entry is no placeholder: it serves a handle.
      obtain ⟨db, hDb⟩ : ∃ db, (s.reg.heap e).db = some db := by
        rcases hOk.shape with ⟨hOpening, _⟩ | ⟨_, _, db, hDb, _⟩ | ⟨_, hRes, _⟩
        · rw [hInv.readyOk e he hReady] at hOpening
          cases hOpening
        · exact ⟨db, hDb⟩
        · rw [hReserved] at hRes
          cases hRes
      refine hInv.touch hc he ⟨rfl, rfl, rfl, rfl, rfl, .inr (by simp [hDb])⟩ id
        (fun _ => hInv.readyOk e he hReady) (by simp [Call.holdsRef]) ?_ (by simp [Call.reserves])
        (by simp) ?_
      · intro e' he'
        simp [Call.holdsRef, he']
      · exact ⟨db, hDb, hLookup, by simpa [setEntry] using hDb⟩
  · simp only [Registry.getRelocked, ne_eq, hLookup, not_false_eq_true, if_true]
    exact hInv.of_same (.refl _) hc trivial (by simp [Call.holdsRef]) (by simp [Call.reserves])
      (by simp)

/-- The shared detach of Reserve and Remove: the registry it leaves keeps the
invariant, and the handle it hands out is retired. -/
theorem Inv.detachIdleLocked (hInv : Inv s) {db : Option DB}
    (h : s.reg.detachIdleLocked name = .ok (r', db)) :
    Inv ⟨r', s.calls⟩ ∧ r'.entries.lookup name = none ∧ ∀ d ∈ db.toList, Retired r' d.handle := by
  unfold Registry.detachIdleLocked at h
  split at h
  · rename_i hLookup
    cases h
    exact ⟨hInv, hLookup, by simp⟩
  · rename_i e hLookup
    split at h
    · cases h
    · rename_i hIdle
      cases h
      refine ⟨hInv.detach hLookup (by simpa using hIdle), by simp, ?_⟩
      intro d hd
      exact detach_retired hInv ⟨hLookup, by simpa using hd⟩

theorem Inv.reserve (hInv : Inv s) (hc : s.calls[i]? = some (.reserve name)) {db : Option DB}
    (h : s.reg.reserve name = .ok (r', db)) :
    Inv ⟨r', s.calls.set i (.closing (.reserve name) db.toList .readHook)⟩ := by
  unfold Registry.reserve at h
  split at h
  · cases h
  · split at h
    · cases h
    · rename_i r'' db' hDetach
      cases h
      obtain ⟨hInv', hFree, hRetired⟩ := hInv.detachIdleLocked hDetach
      refine Inv.install (s := ⟨r'', s.calls⟩) hInv' hc hFree ?_ (by simp [placeholder]) ?_
        (by simp [Call.holdsRef]) (by simp) (by simp [Call.holdsRef])
        (by simp [placeholder, Call.holdsRef]) (by simp [Call.reserves])
      · exact ⟨rfl, rfl, .inr (.inr ⟨rfl, rfl, rfl, rfl⟩)⟩
      · exact ⟨⟨r''.nextEntry, by simp [Registry.install], by simp [Registry.install, placeholder]⟩,
          hRetired⟩

theorem Inv.remove (hInv : Inv s) (hc : s.calls[i]? = some (.remove name)) {db : Option DB}
    (h : s.reg.remove name = .ok (r', db)) :
    Inv ⟨r', s.calls.set i (.closing .remove db.toList .readHook)⟩ := by
  unfold Registry.remove at h
  split at h
  · cases h
  · split at h
    · cases h
    · rename_i r'' db' hDetach
      cases h
      obtain ⟨hInv', _, hRetired⟩ := hInv.detachIdleLocked hDetach
      exact Inv.of_same (s := ⟨r'', s.calls⟩) hInv' ⟨rfl, rfl, rfl, rfl, rfl⟩ hc hRetired
        (by simp [Call.holdsRef]) (by simp [Call.reserves]) (by simp)

theorem Inv.reapOne {r : Registry} {toClose : List DB} {calls : List Call} (hInv : Inv ⟨r, calls⟩)
    (hRetired : ∀ d ∈ toClose, Retired r d.handle) (idleTTL now : Time) (name : DbName) :
    Inv ⟨(reapOne idleTTL now (r, toClose) name).1, calls⟩ ∧
      ∀ d ∈ (reapOne idleTTL now (r, toClose) name).2,
        Retired (reapOne idleTTL now (r, toClose) name).1 d.handle := by
  unfold Registry.reapOne
  split
  · exact ⟨hInv, hRetired⟩
  · rename_i e hLookup
    split
    · exact ⟨hInv, hRetired⟩
    · rename_i db hDb
      split
      · exact ⟨hInv, hRetired⟩
      · rename_i hIdle
        simp only [Bool.or_eq_true, not_or] at hIdle
        refine ⟨hInv.detach hLookup (by simpa using hIdle.1), ?_⟩
        intro d hd
        rcases List.mem_append.mp hd with hd | hd
        · exact (hInv.detach_frame hLookup).retired _ (hRetired d hd)
        · obtain rfl := List.mem_singleton.mp hd
          exact detach_retired hInv ⟨hLookup, hDb⟩

theorem Inv.reapIdle (hInv : Inv s) (idleTTL now : Time) (order : List DbName) :
    Inv ⟨(s.reg.reapIdle idleTTL now order).1, s.calls⟩ ∧
      ∀ d ∈ (s.reg.reapIdle idleTTL now order).2,
        Retired (s.reg.reapIdle idleTTL now order).1 d.handle := by
  -- The loop invariant carries the handles collected so far.
  suffices h : ∀ (r : Registry) (toClose : List DB), Inv ⟨r, s.calls⟩ →
      (∀ d ∈ toClose, Retired r d.handle) →
      Inv ⟨(order.foldl (Registry.reapOne idleTTL now) (r, toClose)).1, s.calls⟩ ∧
        ∀ d ∈ (order.foldl (Registry.reapOne idleTTL now) (r, toClose)).2,
          Retired (order.foldl (Registry.reapOne idleTTL now) (r, toClose)).1 d.handle from
    h s.reg [] hInv (by simp)
  induction order with
  | nil => exact fun r toClose hInv hRetired => ⟨hInv, hRetired⟩
  | cons name rest ih =>
    intro r toClose hInv hRetired
    obtain ⟨hInv', hRetired'⟩ := hInv.reapOne hRetired idleTTL now name
    exact ih _ _ hInv' hRetired'

theorem Inv.closeStep {purpose : CloseFor} {todo : List DB} {stage : CloseStage} (hInv : Inv s)
    (hc : s.calls[i]? = some (.closing purpose todo stage)) :
    Inv ⟨(closeStep s.reg purpose todo stage).1, s.calls.set i (closeStep s.reg purpose todo stage).2⟩ := by
  have hOk := hInv.callOk _ (List.mem_of_getElem? hc)
  have hRetired : ∀ db ∈ todo, Retired s.reg db.handle := by
    cases purpose with
    | reserve name => exact hOk.2
    | remove | reap => exact hOk
  cases todo with
  | nil =>
    refine hInv.of_same (.refl _) hc ?_ ?_ ?_ (by simp)
    · cases purpose with
      | reserve name => exact hOk.1
      | remove | reap => trivial
    · cases purpose <;> simp [Registry.closeStep, closeDone, Call.holdsRef]
    · cases purpose <;> simp [Registry.closeStep, closeDone, Call.reserves]
  | cons db rest =>
    have hHead := hRetired db List.mem_cons_self
    cases stage with
    | readHook | fireHook _ =>
      refine hInv.of_same (.refl _) hc ?_ (by simp [Registry.closeStep, Call.holdsRef]) ?_ (by simp)
      · cases purpose <;> exact hOk
      · cases purpose <;> simp [Registry.closeStep, Call.reserves]
    | enterClose =>
      refine hInv.setStatus (b := .closing purpose (db :: rest) .inClose) hc hHead (by simp) ?_
        (by simp [Call.holdsRef]) ?_ (by simp)
      · cases purpose <;> exact hOk
      · cases purpose <;> simp [Call.reserves]
    | inClose =>
      refine hInv.setStatus (b := .closing purpose rest .readHook) hc hHead (by simp) ?_
        (by simp [Call.holdsRef]) ?_ (by simp)
      · have hRest : ∀ d ∈ rest, Retired s.reg d.handle :=
          fun d hd => hRetired d (List.mem_cons_of_mem _ hd)
        cases purpose with
        | reserve name => exact ⟨hOk.1, hRest⟩
        | remove | reap => exact hRest
      · cases purpose <;> simp [Call.reserves]

theorem Inv.signalReady {result : Except Err DB} (hInv : Inv s)
    (hc : s.calls[i]? = some (.signal name e result)) (hHolds : ∀ e', b.holdsRef e' =
      (Call.signal name e result).holdsRef e') (hReserves : ∀ n, b.reserves n = false)
    (hNew : CallOk (s.reg.signalReady e) b) : Inv ⟨s.reg.signalReady e, s.calls.set i b⟩ := by
  have hOk := hInv.callOk _ (List.mem_of_getElem? hc)
  obtain ⟨he, hClosed⟩ : e < s.reg.nextEntry ∧ (s.reg.heap e).opening = false := by
    cases result with
    | error err => exact hOk
    | ok db => exact ⟨(hInv.entryOk name e hOk.1).1, (hInv.serving_shape hOk).1⟩
  refine hInv.touch hc he ⟨rfl, rfl, rfl, rfl, rfl, .inl rfl⟩ (fun _ => rfl) (fun _ => hClosed) ?_
    (fun e' _ => hHolds e') ?_ (by simp) hNew
  · rw [hHolds e]
    simp
  · intro n hRes
    rw [hReserves n] at hRes
    cases hRes

theorem Inv.releaseRef {db : Option DB} (hInv : Inv s) (hc : s.calls[i]? = some (.holding name e db)) :
    Inv ⟨s.reg.releaseRef e, s.calls.set i (.released name e)⟩ := by
  obtain ⟨d, _, hServes⟩ := hInv.callOk _ (List.mem_of_getElem? hc)
  have he := (hInv.entryOk name e hServes.1).1
  refine hInv.touch hc he ⟨rfl, rfl, rfl, rfl, rfl, .inr (by simp [hServes.2])⟩ id
    (hInv.readyOk e he) (by simp [Call.holdsRef]) ?_ (by simp [Call.reserves]) (by simp) trivial
  intro e' he'
  simp [Call.holdsRef, he']

theorem Inv.callStep {c c' : Call} {choice : Choice} (hInv : Inv s) (hc : s.calls[i]? = some c)
    (h : callStep s.reg c choice = some (r', c')) : Inv ⟨r', s.calls.set i c'⟩ := by
  have hOk := hInv.callOk _ (List.mem_of_getElem? hc)
  unfold Registry.callStep at h
  split at h
  · obtain ⟨rfl, rfl⟩ := Prod.ext_iff.mp (Option.some.inj h)
    exact hInv.getLocked hc
  · cases h
    exact hInv.openHandle hc
  · cases h
    exact hInv.of_same (.refl _) hc hOk (by simp [Call.holdsRef]) (by simp [Call.reserves]) (by simp)
  · cases h
    exact hInv.dropPoisoned hc _
  · cases h
    exact hInv.publish hc
  · cases h
    exact hInv.signalReady hc (by simp [Call.holdsRef]) (by simp [Call.reserves]) trivial
  · cases h
    refine hInv.signalReady hc (by simp [Call.holdsRef]) (by simp [Call.reserves]) ⟨_, rfl, hOk.1, ?_⟩
    simpa [Registry.signalReady, setEntry] using hOk.2
  · split at h
    · rename_i hReady
      cases h
      exact hInv.of_same (.refl _) hc ⟨hOk, hReady⟩ (by simp [Call.holdsRef]) (by simp [Call.reserves])
        (by simp)
    · cases h
  · cases h
    exact hInv.of_same (.refl _) hc trivial (by simp [Call.holdsRef]) (by simp [Call.reserves]) (by simp)
  · obtain ⟨rfl, rfl⟩ := Prod.ext_iff.mp (Option.some.inj h)
    exact hInv.getRelocked hc
  · cases h
    exact hInv.of_same (.refl _) hc hOk (by simp [Call.holdsRef]) (by simp [Call.reserves]) (by simp)
  · cases h
    exact hInv.releaseRef hc
  · cases h
    exact hInv.of_same (.refl _) hc trivial (by simp [Call.holdsRef]) (by simp [Call.reserves]) (by simp)
  · split at h
    · cases h
      exact hInv.of_same (.refl _) hc trivial (by simp [Call.holdsRef]) (by simp [Call.reserves])
        (by simp)
    · rename_i hReserve
      cases h
      exact hInv.reserve hc hReserve
  · cases h
    exact hInv.releaseReservation hc
  · split at h
    · cases h
      exact hInv.of_same (.refl _) hc trivial (by simp [Call.holdsRef]) (by simp [Call.reserves])
        (by simp)
    · rename_i hAdd
      cases h
      refine hInv.of_same ?_ hc trivial (by simp [Call.holdsRef]) (by simp [Call.reserves]) (by simp)
      unfold Registry.add at hAdd
      split at hAdd <;> cases hAdd
      exact ⟨rfl, rfl, rfl, rfl, rfl⟩
  · split at h
    · cases h
      exact hInv.of_same (.refl _) hc trivial (by simp [Call.holdsRef]) (by simp [Call.reserves])
        (by simp)
    · rename_i hRemove
      cases h
      exact hInv.remove hc hRemove
  · split at h <;> cases h
    all_goals
      exact hInv.of_same (.refl _) hc trivial (by simp [Call.holdsRef]) (by simp [Call.reserves])
        (by simp)
  · split at h
    · rename_i idleTTL now order _
      cases h
      obtain ⟨hInv', hRetired⟩ := hInv.reapIdle idleTTL now order
      exact Inv.of_same (s := ⟨(s.reg.reapIdle idleTTL now order).1, s.calls⟩) hInv' (.refl _) hc
        hRetired (by simp [Call.holdsRef]) (by simp [Call.reserves]) (by simp)
    · cases h
  · obtain ⟨rfl, rfl⟩ := Prod.ext_iff.mp (Option.some.inj h)
    exact hInv.closeStep hc
  · cases h

theorem step_call {i : Nat} {choice : Choice} (h : step s (.step i choice) = some t) :
    ∃ c r c', s.calls[i]? = some c ∧ callStep s.reg c choice = some (r, c') ∧ t = ⟨r, s.calls.set i c'⟩ := by
  simp only [step] at h
  split at h
  · cases h
  · rename_i c hc
    split at h
    · cases h
    · rename_i r c' hCall
      exact ⟨c, r, c', hc, hCall, (Option.some.inj h).symm⟩

theorem Inv.step {act : Action} (hInv : Inv s) (h : step s act = some t) : Inv t := by
  cases act with
  | call op =>
    cases h
    have hNew : CallOk s.reg op.start ∧ (∀ e, op.start.holdsRef e = false) ∧
        ∀ n, op.start.reserves n = false := by
      cases op <;> simp [Op.start, CallOk, Call.holdsRef, Call.reserves]
    refine ⟨hInv.entryOk, hInv.readyOk, ?_, ?_, ?_, ?_⟩
    · intro c hc
      rcases List.mem_append.mp hc with hc | hc
      · exact hInv.callOk c hc
      · rw [List.mem_singleton.mp hc]
        exact hNew.1
    · intro e he
      rw [List.countP_append, List.countP_singleton, hNew.2.1 e]
      simpa using hInv.refs e he
    · intro n
      rw [List.countP_append, List.countP_singleton, hNew.2.2 n]
      simpa using hInv.reservedOnce n
    · intro h hLt hOpen
      rcases hInv.live h hLt hOpen with hServes | ⟨n, e, hMem⟩
      · exact .inl hServes
      · exact .inr ⟨n, e, List.mem_append_left _ hMem⟩
  | step i choice =>
    obtain ⟨c, r, c', hc, hCall, rfl⟩ := step_call h
    exact hInv.callStep hc hCall
  | tick elapsed =>
    cases h
    exact hInv.tick ⟨rfl, rfl, rfl, rfl, rfl⟩

theorem always_inv (backends : Finmap (fun _ : DbName => Backend)) (actions : List Action) :
    Always step Inv (init backends) actions :=
  always_of_invariant (fun _ _ _ hInv h => hInv.step h) (inv_init backends) actions

end QuicSql.Registry
