import QuicSql.Httpapi.BlobInvariant

/-!
# Provisioned options in force

A writer that gets the handle of the provision uses its options; one that gets a later handle
finds none and opens the store without options.
-/

namespace QuicSql.Httpapi.BlobStores

open Lib Registry

variable {s t : State} {k : Nat} {q : Req}

/-! ## A handler takes a step -/

section Handler

variable {phase : Phase} {used : Option (HandleId × List BlobOption)}

theorem Req.provisions_of_moved {key : DbName × String} (hLive : q.phase.ended = false)
    (h : ({ q with phase := phase, used := used } : Req).provisions key = true) : q.provisions key = true := by
  have hBoth : (q.endpoint.isProvision && decide (q.key = key)) = true := (Bool.and_eq_true_iff.mp h).1
  rw [Req.provisions, hBoth, hLive]
  rfl

/-- One request moves on; the registry, the cache and the options in force may change with it. -/
theorem Inv.replace (hInv : Inv s) (hq : s.reqs[k]? = some q) (hLive : q.phase.ended = false)
    (hReg : Registry.Inv t.reg) (hFresh : ∀ h n, t.reg.reg.nextHandle ≤ h → t.cache (h, n) = none)
    (hReqs : t.reqs = s.reqs.set k { q with phase := phase, used := used })
    (hOk : ReqOk t.reg t.cache { q with phase := phase, used := used })
    (hOthers : ∀ p ∈ s.reqs, p.call ≠ q.call → ReqOk t.reg t.cache p)
    (hCurrent : ∀ key opts h, t.current key = some (opts, h) → InForce t.reg.reg t.cache key opts h ∧
      (s.current key = some (opts, h) ∨ q.alone = true ∧ q.provisions key = true ∧ phase.ended = true)) :
    Inv t := by
  have hCases : ∀ j p, t.reqs[j]? = some p →
      j = k ∧ p = { q with phase := phase, used := used } ∨ j ≠ k ∧ s.reqs[j]? = some p := by
    intro j p hp
    rw [hReqs] at hp
    rcases getElem?_set_cases hp with ⟨hj, rfl⟩ | ⟨hj, hOld⟩
    · exact .inl ⟨hj.symm, rfl⟩
    · exact .inr ⟨hj.symm, hOld⟩
  have hProvisions : ∀ key, ({ q with phase := phase, used := used } : Req).provisions key = true →
      q.provisions key = true := fun _ h => Req.provisions_of_moved hLive h
  refine ⟨hReg, hFresh, ?_, ?_, ?_, ?_⟩
  · intro p hp
    obtain ⟨j, hj⟩ := List.mem_iff_getElem?.mp hp
    rcases hCases j p hj with ⟨-, rfl⟩ | ⟨hNe, hOld⟩
    · exact hOk
    · exact hOthers p (List.mem_of_getElem? hOld) (fun hCall => hNe (hInv.apart j k p q hOld hq hCall))
  · intro i j p p' hp hp' hCall
    rcases hCases i p hp with ⟨hi, rfl⟩ | ⟨hi, hOld⟩
    · rcases hCases j p' hp' with ⟨hj, rfl⟩ | ⟨hj, hOld'⟩
      · exact hi.trans hj.symm
      · exact hi.trans (hInv.apart k j q p' hq hOld' hCall)
    · rcases hCases j p' hp' with ⟨hj, rfl⟩ | ⟨hj, hOld'⟩
      · exact (hInv.apart i k p q hOld hq hCall).trans hj.symm
      · exact hInv.apart i j p p' hOld hOld' hCall
  · intro i j p p' key hp hp' hNe hAlone hBusy
    rcases hCases i p hp with ⟨rfl, rfl⟩ | ⟨hi, hOld⟩
    · rcases hCases j p' hp' with ⟨rfl, -⟩ | ⟨hj, hOld'⟩
      · exact absurd rfl hNe
      · exact hInv.alone i j q p' key hq hOld' hNe hAlone (hProvisions key hBusy)
    · rcases hCases j p' hp' with ⟨rfl, rfl⟩ | ⟨hj, hOld'⟩
      · by_contra hBoth
        have hIdle := hInv.alone i j p q key hOld hq hNe hAlone hBusy
        rw [hProvisions key (by simpa using hBoth)] at hIdle
        cases hIdle
      · exact hInv.alone i j p p' key hOld hOld' hNe hAlone hBusy
  · intro key opts h hSome
    obtain ⟨hForce, hWhy⟩ := hCurrent key opts h hSome
    refine ⟨hForce, fun p hp => ?_⟩
    obtain ⟨j, hj⟩ := List.mem_iff_getElem?.mp hp
    rcases hWhy with hOldCurrent | ⟨hAlone, hBusy, hEnded⟩
    · have hIdle := (hInv.current key opts h hOldCurrent).2
      rcases hCases j p hj with ⟨-, rfl⟩ | ⟨-, hOld⟩
      · by_contra hBoth
        have hMine := hIdle q (List.mem_of_getElem? hq)
        rw [hProvisions key (by simpa using hBoth)] at hMine
        cases hMine
      · exact hIdle p (List.mem_of_getElem? hOld)
    · rcases hCases j p hj with ⟨-, rfl⟩ | ⟨hNe, hOld⟩
      · simp [Req.provisions, hEnded]
      · exact hInv.alone k j q p key hq hOld hNe.symm hAlone hBusy

theorem Inv.put (hInv : Inv s) (hq : s.reqs[k]? = some q) (hLive : q.phase.ended = false)
    (hOk : ReqOk s.reg s.cache { q with phase := phase, used := used }) :
    Inv (s.put k { q with phase := phase, used := used }) := by
  refine hInv.replace hq hLive hInv.reg hInv.fresh rfl hOk (fun p hp _ => hInv.reqOk p hp) ?_
  intro key opts h hCurrent
  exact ⟨(hInv.current key opts h hCurrent).1, .inl hCurrent⟩

theorem ReqOk.move {reg : Registry.State} {cache : Cache} (h : ReqOk reg cache q)
    (hLinked : Linked reg.calls { q with phase := phase }) (hFits : phase.fits q.endpoint.isProvision = true)
    (hUnused : phase.undecided = true → q.phase.undecided = true)
    (hStored : ∀ h', phase = .releasing h' true → q.endpoint.isProvision = false) :
    ReqOk reg cache { q with phase := phase, used := q.used } where
  linked := hLinked
  fits := hFits
  unused hUndecided := h.unused (hUnused hUndecided)
  promised := h.promised
  stored h' hProvision _ hPhase := by
    rw [hStored h' hPhase] at hProvision
    cases hProvision
  honoured := h.honoured

theorem ReqOk.decide {reg : Registry.State} {cache : Cache} {h : HandleId} {found : List BlobOption}
    (hOk : ReqOk reg cache q) (hHandle : q.phase.handle = some h) (hFits : q.endpoint.isProvision = false)
    (hFound : ∀ opts h', q.endpoint.isWrite = true → q.expects = some (opts, h') → q.overtaken = false →
      (h = h' → found = opts) ∧ (h ≠ h' → found = [])) :
    ReqOk reg cache { q with phase := .working h, used := some (h, found) } where
  linked := ⟨hOk.linked.lt, fun hPhase => (nomatch hPhase), fun h' hSame => hOk.linked.holding h' (hHandle.trans hSame)⟩
  fits := by
    show (!q.endpoint.isProvision) = true
    rw [hFits]
    rfl
  unused hUndecided := (nomatch hUndecided)
  promised opts h' _ _ _ hUnused := (nomatch hUnused)
  stored h' _ _ hPhase := (nomatch hPhase)
  honoured opts h' h'' found' hWrite hExpects hFirst hUsed := by
    cases hUsed
    exact hFound opts h' hWrite hExpects hFirst

theorem Linked.move {calls : List Call} (h : Linked calls q) {h' : HandleId} (hHandle : q.phase.handle = some h')
    (hPhase : phase.handle = some h') : Linked calls { q with phase := phase } where
  lt := h.lt
  fetching hResolving := by
    dsimp only at hResolving
    rw [hResolving] at hPhase
    cases hPhase
  holding h'' hSame := h.holding h'' (hHandle.trans (hPhase.symm.trans hSame))

theorem Linked.keep {calls calls' : List Call} (h : Linked calls q)
    (hKeep : ∀ c, calls[q.call]? = some c → calls'[q.call]? = some c) : Linked calls' q where
  lt := (List.getElem?_eq_some_iff.mp (hKeep _ (List.getElem?_eq_getElem h.lt))).1
  fetching hPhase c hc := by
    have hOld := List.getElem?_eq_getElem h.lt
    cases hc.symm.trans (hKeep _ hOld)
    exact h.fetching hPhase _ hOld
  holding h' hHandle := by
    obtain ⟨e, d, hc, hd⟩ := h.holding h' hHandle
    exact ⟨e, d, hKeep _ hc, hd⟩

theorem Inv.resolved (hInv : Inv s) (hq : s.reqs[k]? = some q) (hPhase : q.phase = .resolving) {n : DbName} {e : EntryId}
    {d : DB} (hc : s.reg.calls[q.call]? = some (.holding n e (some d))) :
    Inv (s.put k { q with phase := if q.endpoint.isProvision then .opening d.handle else .loading d.handle }) := by
  have hOk := hInv.reqOk q (List.mem_of_getElem? hq)
  obtain rfl : n = q.db := hOk.linked.fetching hPhase _ hc
  refine hInv.put hq (by rw [hPhase]; rfl) (hOk.move ⟨hOk.linked.lt, ?_, ?_⟩ ?_ ?_ ?_)
  all_goals cases hProvision : q.endpoint.isProvision
  all_goals simp [Phase.handle, Phase.fits, Phase.undecided, hPhase, hc]

theorem Inv.load (hInv : Inv s) (hq : s.reqs[k]? = some q) {h : HandleId} (hHandle : q.phase.handle = some h)
    (hUndecided : q.phase.undecided = true) (hFits : q.endpoint.isProvision = false) {found : List BlobOption}
    (hFound : s.cache (h, q.store) = some found) :
    Inv (s.put k { q with phase := .working h, used := some (h, found) }) := by
  have hMem := List.mem_of_getElem? hq
  have hOk := hInv.reqOk q hMem
  have hLive : q.phase.ended = false := by
    cases hPhase : q.phase <;> simp_all [Phase.undecided, Phase.ended]
  refine hInv.put hq hLive (hOk.decide hHandle hFits ?_)
  intro opts h' hWrite hExpects hFirst
  have hForce := hOk.promised opts h' hWrite hExpects hFirst (hOk.unused hUndecided)
  exact hForce.found (hInv.usable hMem hHandle) hFound

theorem Inv.fresh_update (hInv : Inv s) {h : HandleId} (hKnown : h < s.reg.reg.nextHandle) (store : String)
    (opts : List BlobOption) (h' : HandleId) (n : String) (hGe : s.reg.reg.nextHandle ≤ h') :
    Function.update s.cache (h, store) (some opts) (h', n) = none := by
  have hNe : (h', n) ≠ (h, store) := by
    intro hEq
    cases hEq
    exact absurd hKnown (Nat.not_lt.mpr hGe)
  rw [Function.update_of_ne hNe]
  exact hInv.fresh h' n hGe

theorem Inv.insert (hInv : Inv s) (hq : s.reqs[k]? = some q) {h : HandleId} (hPhase : q.phase = .inserting h)
    (hFits : q.endpoint.isProvision = false) (hNone : s.cache (h, q.store) = none) :
    Inv { s.put k { q with phase := .working h, used := some (h, []) } with
      cache := Function.update s.cache (h, q.store) (some []) } := by
  have hMem := List.mem_of_getElem? hq
  have hOk := hInv.reqOk q hMem
  have hHandle : q.phase.handle = some h := by rw [hPhase]; rfl
  have hUsable := hInv.usable hMem hHandle
  have hKeep : ∀ key opts h', InForce s.reg.reg s.cache key opts h' →
      InForce s.reg.reg (Function.update s.cache (h, q.store) (some [])) key opts h' :=
    fun _ _ _ hForce => hForce.insert hNone
  refine hInv.replace hq (by rw [hPhase]; rfl) hInv.reg (hInv.fresh_update hUsable.1 q.store []) rfl ?_ ?_ ?_
  · have hDecided : ReqOk s.reg s.cache { q with phase := .working h, used := some (h, []) } := by
      refine hOk.decide hHandle hFits ?_
      intro opts h' hWrite hExpects hFirst
      have hForce := hOk.promised opts h' hWrite hExpects hFirst (hOk.unused (by rw [hPhase]; rfl))
      exact ⟨fun hEq => absurd hEq (hForce.missing hUsable hNone), fun _ => rfl⟩
    exact hDecided.frame hDecided.linked (hKeep q.key)
  · intro p hp _
    have hOther := hInv.reqOk p hp
    exact hOther.frame hOther.linked (hKeep p.key)
  · intro key opts h' hCurrent
    exact ⟨hKeep key opts h' (hInv.current key opts h' hCurrent).1, .inl hCurrent⟩

theorem Req.overtake_cases (key : DbName × String) (q : Req) :
    q.overtake key = { q with overtaken := true } ∧ q.key = key ∨ q.overtake key = q ∧ (q.key ≠ key ∨ q.used ≠ none) := by
  unfold Req.overtake
  split
  · rename_i hBoth
    exact .inl ⟨rfl, hBoth.1⟩
  · rename_i hNot
    exact .inr ⟨rfl, by tauto⟩

theorem Req.overtake_call (key : DbName × String) (q : Req) : (q.overtake key).call = q.call := by
  rcases q.overtake_cases key with ⟨hEq, -⟩ | ⟨hEq, -⟩ <;> rw [hEq]

theorem Req.overtake_alone (key : DbName × String) (q : Req) : (q.overtake key).alone = q.alone := by
  rcases q.overtake_cases key with ⟨hEq, -⟩ | ⟨hEq, -⟩ <;> rw [hEq]

theorem Req.overtake_provisions (key : DbName × String) (q : Req) (key' : DbName × String) :
    (q.overtake key).provisions key' = q.provisions key' := by
  rcases q.overtake_cases key with ⟨hEq, -⟩ | ⟨hEq, -⟩
  · rw [hEq]
    rfl
  · rw [hEq]

def State.stored (s : State) (q : Req) (h : HandleId) : State :=
  { s with
    cache := Function.update s.cache (h, q.store) (some q.endpoint.opts)
    reqs := s.reqs.map (Req.overtake q.key) }

theorem ReqOk.overtake {reg : Registry.State} {cache cache' : Cache} {p : Req} {key : DbName × String}
    (h : ReqOk reg cache p)
    (hKeep : p.key ≠ key → ∀ opts h, InForce reg.reg cache p.key opts h → InForce reg.reg cache' p.key opts h)
    (hOnly : ∀ h', p.endpoint.isProvision = true → p.alone = true → p.phase = .releasing h' true → p.key ≠ key) :
    ReqOk reg cache' (p.overtake key) := by
  have hStored : ∀ h', p.endpoint.isProvision = true → p.alone = true → p.phase = .releasing h' true →
      InForce reg.reg cache' p.key p.endpoint.opts h' := fun h' hProvision hAlone hPhase =>
    hKeep (hOnly h' hProvision hAlone hPhase) _ _ (h.stored h' hProvision hAlone hPhase)
  rcases p.overtake_cases key with ⟨hEq, -⟩ | ⟨hEq, hApart⟩
  · rw [hEq]
    exact ⟨⟨h.linked.lt, h.linked.fetching, h.linked.holding⟩, h.fits, h.unused,
      fun _ _ _ _ hFirst => (nomatch hFirst), hStored, fun _ _ _ _ _ _ hFirst => (nomatch hFirst)⟩
  · rw [hEq]
    refine ⟨h.linked, h.fits, h.unused, ?_, hStored, h.honoured⟩
    intro opts h' hWrite hExpects hFirst hUnused
    have hNe : p.key ≠ key := hApart.resolve_right (fun hUsed => hUsed hUnused)
    exact hKeep hNe _ _ (h.promised opts h' hWrite hExpects hFirst hUnused)

theorem Inv.stored (hInv : Inv s) (hq : s.reqs[k]? = some q) {h : HandleId} (hPhase : q.phase = .storing h) :
    Inv (s.stored q h) := by
  have hMem := List.mem_of_getElem? hq
  have hUsable := hInv.usable hMem (h := h) (by rw [hPhase]; rfl)
  have hProvision : q.endpoint.isProvision = true := by
    have hFits := (hInv.reqOk q hMem).fits
    rwa [hPhase] at hFits
  have hBusy : q.provisions q.key = true := by simp [Req.provisions, hProvision, hPhase, Phase.ended]
  have hKeep : ∀ key, key ≠ q.key → ∀ opts h', InForce s.reg.reg s.cache key opts h' →
      InForce s.reg.reg (Function.update s.cache (h, q.store) (some q.endpoint.opts)) key opts h' :=
    fun key hNe opts h' hForce => hForce.store q.key hNe (by rw [hUsable.2]; rfl)
  refine ⟨hInv.reg, hInv.fresh_update hUsable.1 q.store q.endpoint.opts, ?_, ?_, ?_, ?_⟩
  · intro p' hp'
    obtain ⟨p, hp, rfl⟩ := List.mem_map.mp hp'
    refine (hInv.reqOk p hp).overtake (hKeep p.key) ?_
    intro h' hProvision' hAlone hReleasing hKey
    obtain ⟨j, hj⟩ := List.mem_iff_getElem?.mp hp
    have hNe : j ≠ k := by
      rintro rfl
      cases hj.symm.trans hq
      rw [hPhase] at hReleasing
      cases hReleasing
    -- a provision that ran alone would not have met this one
    have hIdle := hInv.alone j k p q q.key hj hq hNe hAlone (by simp [Req.provisions, hProvision', hKey, hReleasing, Phase.ended])
    rw [hBusy] at hIdle
    cases hIdle
  · exact hInv.apart_map (Req.overtake_call q.key)
  · exact hInv.alone_map (Req.overtake_provisions q.key) fun p hAlone => by rwa [Req.overtake_alone] at hAlone
  · intro key opts h' hCurrent
    obtain ⟨hForce, hIdle⟩ := hInv.current key opts h' hCurrent
    have hNe : key ≠ q.key := by
      rintro rfl
      have hMine := hIdle q hMem
      rw [hBusy] at hMine
      cases hMine
    refine ⟨hKeep key hNe opts h' hForce, fun p' hp' => ?_⟩
    obtain ⟨p, hp, rfl⟩ := List.mem_map.mp hp'
    rw [Req.overtake_provisions]
    exact hIdle p hp

theorem Req.overtake_same (key : DbName × String) (q : Req) : (q.overtake key).phase = q.phase ∧
    (q.overtake key).endpoint = q.endpoint ∧ (q.overtake key).used = q.used ∧ (q.overtake key).key = q.key := by
  rcases q.overtake_cases key with ⟨hEq, -⟩ | ⟨hEq, -⟩
  · rw [hEq]
    exact ⟨rfl, rfl, rfl, rfl⟩
  · rw [hEq]
    exact ⟨rfl, rfl, rfl, rfl⟩

theorem Inv.storing (hInv : Inv s) (hq : s.reqs[k]? = some q) {h : HandleId} (hPhase : q.phase = .storing h) :
    Inv ((s.stored q h).put k { q.overtake q.key with phase := .releasing h true }) := by
  have hMem := List.mem_of_getElem? hq
  have hStored := hInv.stored hq hPhase
  have hNow : (s.stored q h).reqs[k]? = some (q.overtake q.key) := by
    simp only [State.stored, List.getElem?_map, hq, Option.map_some]
  obtain ⟨hPhase', hEndpoint, hUsed, hKey⟩ := q.overtake_same q.key
  rw [hPhase] at hPhase'
  have hOk := hStored.reqOk _ (List.mem_of_getElem? hNow)
  obtain ⟨e, d, hServes, rfl⟩ := hInv.serves hMem (h := h) (by rw [hPhase]; rfl)
  have hForce : InForce s.reg.reg (s.stored q d.handle).cache q.key q.endpoint.opts d.handle :=
    InForce.of_store q.key hInv.reg hServes
  refine hStored.put hNow (by rw [hPhase']; rfl) ⟨?_, rfl, fun hUndecided => (nomatch hUndecided), hOk.promised, ?_, hOk.honoured⟩
  · exact hOk.linked.move (by rw [hPhase']; rfl) rfl
  · intro h' _ _ hEnd
    cases hEnd
    show InForce s.reg.reg (s.stored q d.handle).cache (q.overtake q.key).key (q.overtake q.key).endpoint.opts d.handle
    rw [hKey, hEndpoint]
    exact hForce

theorem Inv.release (hInv : Inv s) (hq : s.reqs[k]? = some q) {h : HandleId} {ok : Bool}
    (hPhase : q.phase = .releasing h ok) {reg : Registry.State}
    (hStep : Registry.step s.reg (.step q.call .release) = some reg) :
    Inv { s.put k { q with phase := .returned ok } with
      reg := reg
      current := if q.endpoint.isProvision ∧ ok ∧ q.alone then
          Function.update s.current q.key (some (q.endpoint.opts, h))
        else s.current } := by
  have hMem := List.mem_of_getElem? hq
  have hOk := hInv.reqOk q hMem
  have hKeep : ∀ key opts h', InForce s.reg.reg s.cache key opts h' → InForce reg.reg s.cache key opts h' :=
    fun _ _ _ hForce => hForce.registry hInv.fresh hStep
  have hCalls : ∀ p : Req, p.call ≠ q.call → ∀ c, s.reg.calls[p.call]? = some c → reg.calls[p.call]? = some c := by
    intro p hNe c hc
    rcases registry_call hStep hc with hSame | ⟨choice, c', hAct, -, -⟩
    · exact hSame
    · obtain ⟨hCall, -⟩ := Registry.Action.step.inj hAct
      exact absurd hCall.symm hNe
  refine hInv.replace hq (by rw [hPhase]; rfl) (hInv.reg.step hStep)
    (fun h' n hGe => hInv.fresh h' n ((nextHandle_le hStep).trans hGe)) rfl ?_ ?_ ?_
  · refine ⟨⟨?_, fun hResolving => (nomatch hResolving), fun _ hNone => (nomatch hNone)⟩, rfl,
      fun hUndecided => (nomatch hUndecided), ?_, fun _ _ _ hEnd => (nomatch hEnd), hOk.honoured⟩
    · rcases registry_call hStep (List.getElem?_eq_getElem hOk.linked.lt) with hc | ⟨choice, c', -, -, hc⟩
      · exact (List.getElem?_eq_some_iff.mp hc).1
      · exact (List.getElem?_eq_some_iff.mp hc).1
    · exact fun opts h' hWrite hExpects hFirst hUnused =>
        hKeep q.key opts h' (hOk.promised opts h' hWrite hExpects hFirst hUnused)
  · intro p hp hNe
    have hOther := hInv.reqOk p hp
    exact hOther.frame (hOther.linked.keep (hCalls p hNe)) (hKeep p.key)
  · intro key opts h' hCurrent
    have hOld : s.current key = some (opts, h') → InForce reg.reg s.cache key opts h' :=
      fun hSame => hKeep key opts h' (hInv.current key opts h' hSame).1
    by_cases hReturns : q.endpoint.isProvision ∧ ok ∧ q.alone
    · simp only [if_pos hReturns] at hCurrent
      obtain ⟨hProvision, rfl, hAlone⟩ := hReturns
      by_cases hKey : key = q.key
      · subst hKey
        rw [Function.update_self] at hCurrent
        cases hCurrent
        refine ⟨hKeep _ _ _ (hOk.stored h hProvision hAlone hPhase), .inr ⟨hAlone, ?_, rfl⟩⟩
        simp [Req.provisions, hProvision, hPhase, Phase.ended]
      · rw [Function.update_of_ne hKey] at hCurrent
        exact ⟨hOld hCurrent, .inl hCurrent⟩
    · simp only [if_neg hReturns] at hCurrent
      exact ⟨hOld hCurrent, .inl hCurrent⟩

theorem ReqOk.not_provision {reg : Registry.State} {cache : Cache} (h : ReqOk reg cache q)
    (hPhase : q.phase.fits true = false) : q.endpoint.isProvision = false := by
  by_contra hProvision
  have hFits := h.fits
  rw [Bool.not_eq_false] at hProvision
  rw [hProvision, hPhase] at hFits
  cases hFits

theorem Inv.move (hInv : Inv s) (hq : s.reqs[k]? = some q) {h : HandleId} (hHandle : q.phase.handle = some h)
    (hPhase : phase.handle = some h) (hFits : phase.fits q.endpoint.isProvision = true)
    (hUnused : phase.undecided = true → q.phase.undecided = true)
    (hStored : ∀ h', phase = .releasing h' true → q.endpoint.isProvision = false) :
    Inv (s.put k { q with phase := phase }) := by
  have hOk := hInv.reqOk q (List.mem_of_getElem? hq)
  have hLive : q.phase.ended = false := by
    cases hNow : q.phase <;> simp_all [Phase.handle, Phase.ended]
  exact hInv.put hq hLive (hOk.move (hOk.linked.move hHandle hPhase) hFits hUnused hStored)

theorem Inv.handlerStep (hInv : Inv s) (hq : s.reqs[k]? = some q) {ok : Bool} (h : handlerStep s k q ok = some t) :
    Inv t := by
  have hOk := hInv.reqOk q (List.mem_of_getElem? hq)
  have hFits := hOk.fits
  unfold BlobStores.handlerStep at h
  cases hPhase : q.phase with
  | resolving =>
    simp only [hPhase] at h
    split at h
    · rename_i n e d hc
      cases h
      exact hInv.resolved hq hPhase hc
    · cases h
      refine hInv.put hq (by rw [hPhase]; rfl) (hOk.move ⟨hOk.linked.lt, ?_, ?_⟩ rfl ?_ ?_)
      all_goals simp [Phase.handle, Phase.undecided]
    · cases h
  | opening h' =>
    rw [hPhase] at hFits
    simp only [hPhase] at h
    cases h
    have hHandle : q.phase.handle = some h' := by rw [hPhase]; rfl
    cases ok with
    | true => exact hInv.move hq hHandle rfl hFits (fun _ => by rw [hPhase]; rfl) (fun _ hEnd => by cases hEnd)
    | false => exact hInv.move hq hHandle rfl rfl (fun hUndecided => by cases hUndecided) (fun _ hEnd => by cases hEnd)
  | storing h' =>
    simp only [hPhase] at h
    cases h
    exact hInv.storing hq hPhase
  | loading h' =>
    rw [hPhase] at hFits
    have hOther := hOk.not_provision (by rw [hPhase]; rfl)
    have hHandle : q.phase.handle = some h' := by rw [hPhase]; rfl
    simp only [hPhase] at h
    split at h
    · rename_i found hFound
      cases h
      exact hInv.load hq hHandle (by rw [hPhase]; rfl) hOther hFound
    · cases h
      exact hInv.move hq hHandle rfl hFits (fun _ => by rw [hPhase]; rfl) (fun _ hEnd => by cases hEnd)
  | defaulting h' =>
    rw [hPhase] at hFits
    have hOther := hOk.not_provision (by rw [hPhase]; rfl)
    have hHandle : q.phase.handle = some h' := by rw [hPhase]; rfl
    simp only [hPhase] at h
    split at h
    · split at h
      · cases h
        exact hInv.move hq hHandle rfl hFits (fun _ => by rw [hPhase]; rfl) (fun _ hEnd => by cases hEnd)
      · rename_i hRead
        cases h
        refine hInv.put hq (by rw [hPhase]; rfl) (hOk.decide hHandle hOther ?_)
        exact fun _ _ hWrite => absurd hWrite hRead
    · cases h
      exact hInv.move hq hHandle rfl rfl (fun hUndecided => by cases hUndecided) (fun _ hEnd => by cases hEnd)
  | inserting h' =>
    rw [hPhase] at hFits
    have hOther := hOk.not_provision (by rw [hPhase]; rfl)
    simp only [hPhase] at h
    split at h
    · rename_i found hFound
      cases h
      exact hInv.load hq (by rw [hPhase]; rfl) (by rw [hPhase]; rfl) hOther hFound
    · rename_i hNone
      cases h
      exact hInv.insert hq hPhase hOther hNone
  | working h' =>
    rw [hPhase] at hFits
    have hOther := hOk.not_provision (by rw [hPhase]; rfl)
    simp only [hPhase] at h
    cases h
    exact hInv.move hq (by rw [hPhase]; rfl) rfl rfl (fun hUndecided => by cases hUndecided) (fun _ _ => hOther)
  | releasing h' ok' =>
    simp only [hPhase] at h
    obtain ⟨reg, hStep, rfl⟩ := Option.map_eq_some_iff.mp h
    exact hInv.release hq hPhase hStep
  | returned ok' =>
    simp only [hPhase] at h
    cases h

end Handler

theorem Inv.step {a : Action} (hInv : Inv s) (h : step s a = some t) : Inv t := by
  cases a with
  | start endpoint db store =>
    cases h
    exact hInv.start endpoint db store
  | registry a => exact hInv.registryStep h
  | advance k ok =>
    simp only [BlobStores.step] at h
    split at h
    · cases h
    · rename_i q hq
      exact hInv.handlerStep hq h

/-- In every interleaving, a create or a write that finds options in force when it starts, and
is not overtaken by another provision, uses exactly those options if it gets the handle of
the provision, and none if the database was reopened. -/
theorem provisioned_options_follow_handle (backends : Finmap (fun _ : DbName => Backend)) (actions : List Action) :
    Always step (fun s => ∀ q ∈ s.reqs, Honoured q) (init backends) actions :=
  (always_of_invariant (fun _ _ _ hInv h => hInv.step h) (inv_init backends) actions).mono
    (fun _ hInv q hq => (hInv.reqOk q hq).honoured)

def provisioned : List Action :=
  [.start (.provision (blobOpts "4096" "" "")) "d" "s", .registry (.step 0 .next), .registry (.step 0 .openOk),
   .registry (.step 0 .next), .registry (.step 0 .next), .registry (.step 0 .next), .advance 0 true, .advance 0 true,
   .advance 0 true, .advance 0 true]

example : (run step (init (Finmap.singleton "d" ⟨"file", false⟩)) (provisioned ++
    [.start .write "d" "s", .registry (.step 1 .next), .registry (.step 1 .next), .registry (.step 1 .next),
     .registry (.step 1 .next), .advance 1 true, .advance 1 true])).bind (fun s => s.reqs[1]?.bind Req.used) =
    some (0, [.chunkSize 4096]) := by
  decide +kernel

/-- The idle database is reaped after the provision, and a write opens it again. -/
def reapedBetween : List Action :=
  provisioned ++
  [.registry (.tick 5), .registry (.call (.reapIdle 1)), .registry (.step 1 .next),
   .registry (.step 1 (.range ["d"])), .registry (.step 1 .next), .registry (.step 1 .next), .registry (.step 1 .next),
   .registry (.step 1 .next), .start .write "d" "s", .registry (.step 2 .next), .registry (.step 2 .openOk),
   .registry (.step 2 .next), .registry (.step 2 .next), .registry (.step 2 .next), .advance 1 true, .advance 1 true,
   .advance 1 true, .advance 1 true]

/-- The write that follows the provision uses a store without its options. -/
theorem reaped_options_are_lost :
    (run step (init (Finmap.singleton "d" ⟨"file", false⟩)) reapedBetween).map (fun s => s.reqs[1]?) =
      some (some
        { endpoint := .write, db := "d", store := "s", call := 2, phase := .working 1,
          expects := some ([.chunkSize 4096], 0), overtaken := false, alone := true, used := some (1, []) }) := by
  decide +kernel

end QuicSql.Httpapi.BlobStores
