import QuicSql.Httpapi.BlobStores

/-!
# What the cache holds for a provisioned store

While the handle that a provision used stays open, the cache has its options for that handle,
and no other handle of the database has any. Steps of the registry and new requests keep it so.
-/

namespace QuicSql.Httpapi.BlobStores

open Lib Registry

/-! ## The registry below -/

/-- The call is a `Get` of the name, or one that failed. -/
def Fetches (name : DbName) : Call → Prop
  | .get n | .opening n _ | .opened n _ _ | .signal n _ _ | .waiting n _ | .relock n _ | .returning n _ _
  | .holding n _ _ | .released n _ => n = name
  | .failed _ => True
  | _ => False

theorem callStep_fetches {r r' : Registry} {c c' : Call} {choice : Choice} {name : DbName}
    (h : callStep r c choice = some (r', c')) (hFetches : Fetches name c) : Fetches name c' := by
  unfold callStep at h
  split at h
  case h_1 =>
    obtain ⟨rfl, rfl⟩ := Prod.ext_iff.mp (Option.some.inj h)
    unfold getLocked
    split
    · exact hFetches
    · split
      · trivial
      · exact hFetches
  case h_8 =>
    split at h <;> cases h
    exact hFetches
  case h_10 =>
    obtain ⟨rfl, rfl⟩ := Prod.ext_iff.mp (Option.some.inj h)
    unfold getRelocked
    split
    · exact hFetches
    · split
      · trivial
      · split
        · trivial
        · exact hFetches
  case h_14 | h_15 | h_16 | h_17 | h_18 | h_19 | h_20 => exact hFetches.elim
  all_goals
    cases h
    try first | exact hFetches | trivial

theorem registry_call {s t : Registry.State} {a : Registry.Action} (h : Registry.step s a = some t) {j : Nat} {c : Call}
    (hc : s.calls[j]? = some c) :
    t.calls[j]? = some c ∨
      ∃ choice c', a = .step j choice ∧ callStep s.reg c choice = some (t.reg, c') ∧ t.calls[j]? = some c' := by
  have hj := (List.getElem?_eq_some_iff.mp hc).1
  cases a with
  | call op =>
    cases h
    exact .inl ((List.getElem?_append_left hj).trans hc)
  | tick elapsed =>
    cases h
    exact .inl hc
  | step i choice =>
    simp only [Registry.step] at h
    split at h
    · cases h
    · rename_i d hd
      split at h
      · cases h
      · rename_i r d' hCall
        cases h
        by_cases hij : i = j
        · subst hij
          cases hc.symm.trans hd
          exact .inr ⟨choice, d', rfl, hCall, List.getElem?_set_self hj⟩
        · exact .inl ((List.getElem?_set_ne hij).trans hc)

theorem usable_unique {s : Registry.State} {name : DbName} {e : EntryId} {d : DB} {h : HandleId}
    (hInv : Registry.Inv s) (hServes : Serves s.reg name e d) (hUsable : Usable s.reg name h) : h = d.handle := by
  rcases hInv.live h hUsable.1 (by rw [hUsable.2]) with ⟨n, e', d', hName, hServes', rfl⟩ | ⟨n, e', hMem⟩
  · obtain rfl : name = n := by rw [← hName, hUsable.2]
    obtain rfl : e = e' := Option.some.inj (hServes.1.symm.trans hServes'.1)
    rw [Option.some.inj (hServes.2.symm.trans hServes'.2)]
  · obtain ⟨hOpens, hUsable'⟩ : Opens s.reg n e' ∧ Usable s.reg n h := hInv.callOk _ hMem
    obtain rfl : name = n := (Handle.mk.inj (hUsable.2.symm.trans hUsable'.2)).1
    exact absurd hServes (hInv.not_serves_of_opens hOpens)

/-! ## Options in force -/

structure InForce (r : Registry) (cache : Cache) (key : DbName × String) (opts : List BlobOption) (h : HandleId) :
    Prop where
  known : h < r.nextHandle
  named : (r.handles h).name = key.1
  kept : (r.handles h).status = .open → cache (h, key.2) = some opts
  others : ∀ h', h' ≠ h → Usable r key.1 h' → cache (h', key.2) = none ∨ cache (h', key.2) = some []

section InForce

variable {r : Registry} {cache : Cache} {key : DbName × String} {opts : List BlobOption} {h : HandleId}

theorem InForce.found (hForce : InForce r cache key opts h) {h' : HandleId} {found : List BlobOption}
    (hUsable : Usable r key.1 h') (hFound : cache (h', key.2) = some found) :
    (h' = h → found = opts) ∧ (h' ≠ h → found = []) := by
  constructor
  · rintro rfl
    have hKept := hForce.kept (by rw [hUsable.2])
    rw [hFound] at hKept
    exact Option.some.inj hKept
  · intro hNe
    rcases hForce.others h' hNe hUsable with hNone | hEmpty
    · rw [hFound] at hNone
      cases hNone
    · rw [hFound] at hEmpty
      exact Option.some.inj hEmpty

theorem InForce.missing (hForce : InForce r cache key opts h) {h' : HandleId} (hUsable : Usable r key.1 h')
    (hMissing : cache (h', key.2) = none) : h' ≠ h := by
  rintro rfl
  have hKept := hForce.kept (by rw [hUsable.2])
  rw [hMissing] at hKept
  cases hKept

theorem InForce.registry {s t : Registry.State} {a : Registry.Action} (hForce : InForce s.reg cache key opts h)
    (hFresh : ∀ h n, s.reg.nextHandle ≤ h → cache (h, n) = none) (hStep : Registry.step s a = some t) :
    InForce t.reg cache key opts h := by
  rcases step_ages hStep with ⟨i, name, e, rfl, hc, rfl⟩ | ⟨hAges, -⟩
  · have hOld : ∀ k, k < s.reg.nextHandle → (s.reg.openHandle name).handles k = s.reg.handles k := fun k hk =>
      Function.update_of_ne (Nat.ne_of_lt hk) _ _
    refine ⟨Nat.lt_succ_of_lt hForce.known, ?_, ?_, ?_⟩
    · rw [hOld h hForce.known]
      exact hForce.named
    · rw [hOld h hForce.known]
      exact hForce.kept
    · intro h' hNe hUsable
      rcases Nat.lt_or_ge h' s.reg.nextHandle with hLt | hGe
      · exact hForce.others h' hNe ⟨hLt, (hOld h' hLt).symm.trans hUsable.2⟩
      · exact .inl (hFresh h' key.2 hGe)
  · refine ⟨by rw [hAges.nextHandle]; exact hForce.known, by rw [hAges.name]; exact hForce.named,
      fun hOpen => hForce.kept (hAges.stays h hOpen), ?_⟩
    intro h' hNe ⟨hLt, hHandle⟩
    refine hForce.others h' hNe ⟨by rwa [hAges.nextHandle] at hLt, ?_⟩
    have hName := hAges.name h'
    have hOpen := hAges.stays h' (by rw [hHandle])
    rw [hHandle] at hName
    cases hOld : s.reg.handles h' with
    | mk n status =>
      rw [hOld] at hName hOpen
      dsimp only at hName hOpen
      rw [hName, hOpen]

theorem InForce.of_open {cache' : Cache} (hForce : InForce r cache key opts h)
    (hSame : ∀ h n, (r.handles h).status = .open → cache' (h, n) = cache (h, n)) : InForce r cache' key opts h := by
  refine ⟨hForce.known, hForce.named, fun hOpen => ?_, fun h' hNe hUsable => ?_⟩
  · rw [hSame h key.2 hOpen]
    exact hForce.kept hOpen
  · rw [hSame h' key.2 (by rw [hUsable.2])]
    exact hForce.others h' hNe hUsable

theorem InForce.forget {gone : HandleId} (hForce : InForce r cache key opts h) (hGone : (r.handles gone).status ≠ .open) :
    InForce r (forgetBlobStores cache gone) key opts h := by
  apply hForce.of_open
  intro h' n hOpen
  have hNe : h' ≠ gone := by
    rintro rfl
    exact hGone hOpen
  exact if_neg hNe

/-- A default store is kept only where there is none. -/
theorem InForce.insert {h₀ : HandleId} {n : String} (hForce : InForce r cache key opts h) (hNone : cache (h₀, n) = none) :
    InForce r (Function.update cache (h₀, n) (some [])) key opts h := by
  refine ⟨hForce.known, hForce.named, fun hOpen => ?_, fun h' hNe hUsable => ?_⟩
  · have hKept := hForce.kept hOpen
    have hNe : (h, key.2) ≠ (h₀, n) := by
      intro hEq
      rw [hEq, hNone] at hKept
      cases hKept
    rw [Function.update_of_ne hNe]
    exact hKept
  · by_cases hEq : (h', key.2) = (h₀, n)
    · rw [hEq, Function.update_self]
      exact .inr rfl
    · rw [Function.update_of_ne hEq]
      exact hForce.others h' hNe hUsable

/-- A provision of one store leaves the options of the others in force. -/
theorem InForce.store {h₀ : HandleId} {opts₀ : List BlobOption} (hForce : InForce r cache key opts h)
    (key₀ : DbName × String) (hOther : key ≠ key₀) (hName : (r.handles h₀).name = key₀.1) :
    InForce r (Function.update cache (h₀, key₀.2) (some opts₀)) key opts h := by
  have hApart : ∀ k, (r.handles k).name = key.1 → (k, key.2) ≠ (h₀, key₀.2) := by
    intro k hk hEq
    obtain ⟨rfl, hStore⟩ := Prod.ext_iff.mp hEq
    exact hOther (Prod.ext (hk.symm.trans hName) hStore)
  refine ⟨hForce.known, hForce.named, fun hOpen => ?_, fun h' hNe hUsable => ?_⟩
  · rw [Function.update_of_ne (hApart h hForce.named)]
    exact hForce.kept hOpen
  · rw [Function.update_of_ne (hApart h' (by rw [hUsable.2]))]
    exact hForce.others h' hNe hUsable

theorem InForce.of_store (key : DbName × String) {s : Registry.State} {e : EntryId} {d : DB} (hInv : Registry.Inv s)
    (hServes : Serves s.reg key.1 e d) :
    InForce s.reg (Function.update cache (d.handle, key.2) (some opts)) key opts d.handle := by
  obtain ⟨-, -, -, hUsable⟩ := hInv.serving_shape hServes
  refine ⟨hUsable.1, by rw [hUsable.2], fun _ => Function.update_self _ _ _, fun h' hNe hOther => ?_⟩
  exact absurd (usable_unique hInv hServes hOther) hNe

end InForce

/-! ## The invariant -/

/-- A request has its own `Get`: on its way, holding the handle, or over. -/
structure Linked (calls : List Call) (q : Req) : Prop where
  lt : q.call < calls.length
  fetching : q.phase = .resolving → ∀ c, calls[q.call]? = some c → Fetches q.db c
  holding : ∀ h, q.phase.handle = some h → ∃ e d, calls[q.call]? = some (.holding q.db e (some d)) ∧ d.handle = h

/-- A writer used the options in force, if it got their handle, and else none. -/
def Honoured (q : Req) : Prop :=
  ∀ opts h h' found, q.endpoint.isWrite = true → q.expects = some (opts, h) → q.overtaken = false →
    q.used = some (h', found) → (h' = h → found = opts) ∧ (h' ≠ h → found = [])

def Phase.fits (provision : Bool) : Phase → Bool
  | .opening _ | .storing _ => provision
  | .loading _ | .defaulting _ | .inserting _ | .working _ => !provision
  | _ => true

def Phase.undecided : Phase → Bool
  | .working _ | .releasing _ _ | .returned _ => false
  | _ => true

structure ReqOk (reg : Registry.State) (cache : Cache) (q : Req) : Prop where
  linked : Linked reg.calls q
  fits : q.phase.fits q.endpoint.isProvision = true
  unused : q.phase.undecided = true → q.used = none
  promised : ∀ opts h, q.endpoint.isWrite = true → q.expects = some (opts, h) → q.overtaken = false → q.used = none →
    InForce reg.reg cache q.key opts h
  stored : ∀ h, q.endpoint.isProvision = true → q.alone = true → q.phase = .releasing h true →
    InForce reg.reg cache q.key q.endpoint.opts h
  honoured : Honoured q

structure Inv (s : State) : Prop where
  reg : Registry.Inv s.reg
  fresh : ∀ h n, s.reg.reg.nextHandle ≤ h → s.cache (h, n) = none
  reqOk : ∀ q ∈ s.reqs, ReqOk s.reg s.cache q
  apart : ∀ (i j : Nat) (p q : Req), s.reqs[i]? = some p → s.reqs[j]? = some q → p.call = q.call → i = j
  alone : ∀ (i j : Nat) (p q : Req) key, s.reqs[i]? = some p → s.reqs[j]? = some q → i ≠ j → p.alone = true →
    p.provisions key = true → q.provisions key = false
  current : ∀ key opts h, s.current key = some (opts, h) → InForce s.reg.reg s.cache key opts h ∧
    ∀ q ∈ s.reqs, q.provisions key = false

theorem inv_init (backends : Finmap (fun _ : DbName => Backend)) : Inv (init backends) where
  reg := (Registry.inv_init backends).tick ⟨rfl, rfl, rfl, rfl, rfl⟩
  fresh _ _ _ := rfl
  reqOk q hq := by simp [init] at hq
  apart i j p q hp := by simp [init] at hp
  alone i j p q key hp := by simp [init] at hp
  current key opts h hCurrent := by simp [init] at hCurrent

variable {s t : State} {q : Req}

theorem Inv.serves (hInv : Inv s) (hq : q ∈ s.reqs) {h : HandleId} (hHandle : q.phase.handle = some h) :
    ∃ e d, Serves s.reg.reg q.db e d ∧ d.handle = h := by
  obtain ⟨e, d, hc, hd⟩ := (hInv.reqOk q hq).linked.holding h hHandle
  obtain ⟨d', hSome, hServes⟩ : ∃ d', some d = some d' ∧ Serves s.reg.reg q.db e d' :=
    hInv.reg.callOk _ (List.mem_of_getElem? hc)
  cases hSome
  exact ⟨e, d, hServes, hd⟩

theorem Inv.usable (hInv : Inv s) (hq : q ∈ s.reqs) {h : HandleId} (hHandle : q.phase.handle = some h) :
    Usable s.reg.reg q.db h := by
  obtain ⟨e, d, hServes, rfl⟩ := hInv.serves hq hHandle
  exact (hInv.reg.serving_shape hServes).2.2.2

/-! ## Steps of the registry -/

theorem ReqOk.frame {reg reg' : Registry.State} {cache cache' : Cache} (h : ReqOk reg cache q)
    (hLinked : Linked reg'.calls q)
    (hKeep : ∀ opts h, InForce reg.reg cache q.key opts h → InForce reg'.reg cache' q.key opts h) :
    ReqOk reg' cache' q where
  linked := hLinked
  fits := h.fits
  unused := h.unused
  promised opts h' hWrite hExpects hFirst hUnused := hKeep _ _ (h.promised opts h' hWrite hExpects hFirst hUnused)
  stored h' hProvision hAlone hPhase := hKeep _ _ (h.stored h' hProvision hAlone hPhase)
  honoured := h.honoured

theorem Inv.of_open {cache : Cache} (hInv : Inv s) (hLess : ∀ key, s.cache key = none → cache key = none)
    (hSame : ∀ h n, (s.reg.reg.handles h).status = .open → cache (h, n) = s.cache (h, n)) :
    Inv { s with cache := cache } where
  reg := hInv.reg
  fresh h n hGe := hLess (h, n) (hInv.fresh h n hGe)
  reqOk q hq := (hInv.reqOk q hq).frame (hInv.reqOk q hq).linked fun _ _ hForce => hForce.of_open hSame
  apart := hInv.apart
  alone := hInv.alone
  current key opts h hCurrent := by
    obtain ⟨hForce, hIdle⟩ := hInv.current key opts h hCurrent
    exact ⟨hForce.of_open hSame, hIdle⟩

theorem nextHandle_le {s t : Registry.State} {a : Registry.Action} (h : Registry.step s a = some t) :
    s.reg.nextHandle ≤ t.reg.nextHandle := by
  rcases step_ages h with ⟨i, name, e, rfl, hc, rfl⟩ | ⟨hAges, -⟩
  · exact Nat.le_succ _
  · exact hAges.nextHandle.ge

theorem Linked.registry {a : Registry.Action} {reg : Registry.State} (h : Linked s.reg.calls q) (hq : q ∈ s.reqs)
    (hFree : owned s a = false) (hStep : Registry.step s.reg a = some reg) : Linked reg.calls q where
  lt := by
    rcases registry_call hStep (List.getElem?_eq_getElem h.lt) with hc | ⟨choice, c', -, -, hc⟩
    · exact (List.getElem?_eq_some_iff.mp hc).1
    · exact (List.getElem?_eq_some_iff.mp hc).1
  fetching hPhase c hc := by
    have hOld := List.getElem?_eq_getElem h.lt
    have hFetches := h.fetching hPhase _ hOld
    rcases registry_call hStep hOld with hSame | ⟨choice, c', -, hCall, hNew⟩
    · cases hc.symm.trans hSame
      exact hFetches
    · cases hc.symm.trans hNew
      exact callStep_fetches hCall hFetches
  holding h' hHandle := by
    obtain ⟨e, d, hOld, hd⟩ := h.holding h' hHandle
    rcases registry_call hStep hOld with hSame | ⟨choice, c', rfl, hCall, -⟩
    · exact ⟨e, d, hSame, hd⟩
    · have hRelease : choice = .release := by
        cases choice <;> first | rfl | cases hCall
      have hOwned : owned s (.step q.call choice) = true := by
        rw [hRelease]
        refine List.any_eq_true.mpr ⟨q, hq, ?_⟩
        cases hPhase : q.phase <;> simp_all [Phase.ended, Phase.handle]
      rw [hFree] at hOwned
      cases hOwned

theorem hookOf_retired {reg : Registry.State} {a : Registry.Action} {h : HandleId} (hInv : Registry.Inv reg)
    (hHook : hookOf reg a = some h) : (reg.reg.handles h).status ≠ .open := by
  unfold hookOf at hHook
  split at hHook
  · split at hHook
    · rename_i i purpose db rest hc
      cases hHook
      exact (hInv.todo_retired (List.mem_of_getElem? hc) (List.mem_cons_self ..)).2
    · cases hHook
  · cases hHook

theorem registryStep_eq_some {a : Registry.Action} (h : registryStep s a = some t) :
    owned s a = false ∧ ∃ reg, Registry.step s.reg a = some reg ∧
      t = { s with reg := reg, cache := hooked s.cache (hookOf s.reg a) } := by
  unfold BlobStores.registryStep at h
  split at h
  · cases h
  · rename_i hFree
    obtain ⟨reg, hStep, rfl⟩ := Option.map_eq_some_iff.mp h
    exact ⟨by simpa using hFree, reg, hStep, rfl⟩

theorem Inv.registryStep {a : Registry.Action} (hInv : Inv s) (h : registryStep s a = some t) : Inv t := by
  obtain ⟨hFree, reg, hStep, rfl⟩ := registryStep_eq_some h
  have hFresh : ∀ h n, s.reg.reg.nextHandle ≤ h → hooked s.cache (hookOf s.reg a) (h, n) = none := by
    intro h n hGe
    have hOld := hInv.fresh h n hGe
    cases hookOf s.reg a with
    | none => exact hOld
    | some gone =>
      simp only [hooked, forgetBlobStores, hOld, ite_self]
  have hKeep : ∀ key opts h, InForce s.reg.reg s.cache key opts h →
      InForce reg.reg (hooked s.cache (hookOf s.reg a)) key opts h := by
    intro key opts h hForce
    refine InForce.registry ?_ hFresh hStep
    cases hHook : hookOf s.reg a with
    | none => exact hForce
    | some gone => exact hForce.forget (hookOf_retired hInv.reg hHook)
  refine ⟨hInv.reg.step hStep, fun h n hGe => hFresh h n ((nextHandle_le hStep).trans hGe), ?_, hInv.apart, hInv.alone, ?_⟩
  · intro q hq
    have hOk := hInv.reqOk q hq
    exact hOk.frame (hOk.linked.registry hq hFree hStep) (hKeep q.key)
  · intro key opts h hCurrent
    obtain ⟨hForce, hIdle⟩ := hInv.current key opts h hCurrent
    exact ⟨hKeep key opts h hForce, hIdle⟩

/-! ## Changes to all requests -/

section Map

variable {f : Req → Req}

theorem Inv.apart_map (hInv : Inv s) (hCall : ∀ p, (f p).call = p.call) (i j : Nat) (p q : Req)
    (hp : (s.reqs.map f)[i]? = some p) (hq : (s.reqs.map f)[j]? = some q) (hSame : p.call = q.call) : i = j := by
  simp only [List.getElem?_map, Option.map_eq_some_iff] at hp hq
  obtain ⟨p', hp', rfl⟩ := hp
  obtain ⟨q', hq', rfl⟩ := hq
  rw [hCall, hCall] at hSame
  exact hInv.apart i j p' q' hp' hq' hSame

theorem Inv.alone_map (hInv : Inv s) (hProvisions : ∀ p key, (f p).provisions key = p.provisions key)
    (hAlone : ∀ p, (f p).alone = true → p.alone = true) (i j : Nat) (p q : Req) (key : DbName × String)
    (hp : (s.reqs.map f)[i]? = some p) (hq : (s.reqs.map f)[j]? = some q) (hNe : i ≠ j) (hFirst : p.alone = true)
    (hBusy : p.provisions key = true) : q.provisions key = false := by
  simp only [List.getElem?_map, Option.map_eq_some_iff] at hp hq
  obtain ⟨p', hp', rfl⟩ := hp
  obtain ⟨q', hq', rfl⟩ := hq
  rw [hProvisions] at hBusy ⊢
  exact hInv.alone i j p' q' key hp' hq' hNe (hAlone p' hFirst) hBusy

end Map

/-! ## A request starts -/

theorem Req.joined_cases (key : DbName × String) (q : Req) :
    q.joined key = { q with alone := false } ∧ q.key = key ∨ q.joined key = q ∧ q.key ≠ key := by
  unfold Req.joined
  split
  · rename_i hKey
    exact .inl ⟨rfl, hKey⟩
  · rename_i hKey
    exact .inr ⟨rfl, hKey⟩

theorem Req.joined_call (key : DbName × String) (q : Req) : (q.joined key).call = q.call := by
  rcases q.joined_cases key with ⟨hEq, -⟩ | ⟨hEq, -⟩ <;> rw [hEq]

theorem Req.joined_provisions (key : DbName × String) (q : Req) (key' : DbName × String) :
    (q.joined key).provisions key' = q.provisions key' := by
  rcases q.joined_cases key with ⟨hEq, -⟩ | ⟨hEq, -⟩
  · rw [hEq]
    rfl
  · rw [hEq]

theorem ReqOk.joined {reg : Registry.State} {cache : Cache} (h : ReqOk reg cache q) (key : DbName × String) :
    ReqOk reg cache (q.joined key) := by
  rcases q.joined_cases key with ⟨hEq, -⟩ | ⟨hEq, -⟩
  · rw [hEq]
    exact ⟨⟨h.linked.lt, h.linked.fetching, h.linked.holding⟩, h.fits, h.unused, h.promised,
      fun _ _ hAlone => (nomatch hAlone), h.honoured⟩
  · rw [hEq]
    exact h

theorem Req.provisions_key {key : DbName × String} (h : q.provisions key = true) : q.key = key := by
  unfold Req.provisions at h
  simp_all

theorem Inv.join (hInv : Inv s) (key : DbName × String) :
    Inv { s with reqs := s.reqs.map (Req.joined key), current := Function.update s.current key none } where
  reg := hInv.reg
  fresh := hInv.fresh
  reqOk q hq := by
    obtain ⟨p, hp, rfl⟩ := List.mem_map.mp hq
    exact (hInv.reqOk p hp).joined key
  apart := hInv.apart_map (Req.joined_call key)
  alone := by
    refine hInv.alone_map (Req.joined_provisions key) fun p hAlone => ?_
    rcases p.joined_cases key with ⟨hEq, -⟩ | ⟨hEq, -⟩
    · rw [hEq] at hAlone
      cases hAlone
    · rwa [hEq] at hAlone
  current key' opts h hCurrent := by
    dsimp only at hCurrent ⊢
    have hNe : key' ≠ key := by
      rintro rfl
      rw [Function.update_self] at hCurrent
      cases hCurrent
    rw [Function.update_of_ne hNe] at hCurrent
    obtain ⟨hForce, hIdle⟩ := hInv.current key' opts h hCurrent
    refine ⟨hForce, fun q hq => ?_⟩
    obtain ⟨p, hp, rfl⟩ := List.mem_map.mp hq
    rw [Req.joined_provisions]
    exact hIdle p hp

theorem ReqOk.new {reg : Registry.State} {cache : Cache} (hCall : q.call = reg.calls.length) (hPhase : q.phase = .resolving)
    (hUsed : q.used = none) (hExpects : ∀ opts h, q.expects = some (opts, h) → InForce reg.reg cache q.key opts h) :
    ReqOk { reg with calls := reg.calls ++ [.get q.db] } cache q := by
  refine ⟨⟨?_, ?_, ?_⟩, by rw [hPhase]; rfl, fun _ => hUsed, ?_, ?_, ?_⟩
  · rw [hCall, List.length_append]
    exact Nat.lt_succ_self _
  · intro _ c hc
    rw [hCall, List.getElem?_concat_length] at hc
    cases hc
    exact rfl
  · intro h hHandle
    rw [hPhase] at hHandle
    cases hHandle
  · exact fun opts h _ hSome _ _ => hExpects opts h hSome
  · intro h _ _ hEnd
    rw [hPhase] at hEnd
    cases hEnd
  · intro opts h h' found _ _ _ hFound
    rw [hUsed] at hFound
    cases hFound

theorem Inv.append (hInv : Inv s) (hCall : q.call = s.reg.calls.length) (hPhase : q.phase = .resolving)
    (hUsed : q.used = none)
    (hExpects : ∀ opts h, q.expects = some (opts, h) → InForce s.reg.reg s.cache q.key opts h)
    (hOthers : ∀ key, q.provisions key = true → s.current key = none ∧
      ∀ p ∈ s.reqs, (p.alone = true ∨ q.alone = true) → p.provisions key = false) :
    Inv { s with reg := { s.reg with calls := s.reg.calls ++ [.get q.db] }, reqs := s.reqs ++ [q] } where
  reg := by
    have hCall : Registry.step s.reg (.call (.get q.db)) = some { s.reg with calls := s.reg.calls ++ [.get q.db] } := rfl
    exact hInv.reg.step hCall
  fresh := hInv.fresh
  reqOk p hp := by
    rcases List.mem_append.mp hp with hp | hp
    · have hOk := hInv.reqOk p hp
      have hFree : owned s (.call (.get q.db)) = false := rfl
      exact hOk.frame (hOk.linked.registry hp hFree rfl) (fun _ _ hForce => hForce)
    · obtain rfl := List.mem_singleton.mp hp
      exact .new hCall hPhase hUsed hExpects
  apart i j p p' hp hp' hSame := by
    have hLt : ∀ p ∈ s.reqs, p.call < s.reg.calls.length := fun p hp => (hInv.reqOk p hp).linked.lt
    rcases getElem?_append_cases hp with ⟨hi, hNew⟩ | ⟨hi, hOld⟩
    · rcases getElem?_append_cases hp' with ⟨hj, -⟩ | ⟨hj, hOld'⟩
      · exact hi.trans hj.symm
      · have hBelow := hLt p' (List.mem_of_getElem? hOld')
        rw [← hSame, hNew, hCall] at hBelow
        exact absurd hBelow (Nat.lt_irrefl _)
    · rcases getElem?_append_cases hp' with ⟨hj, hNew'⟩ | ⟨hj, hOld'⟩
      · have hBelow := hLt p (List.mem_of_getElem? hOld)
        rw [hSame, hNew', hCall] at hBelow
        exact absurd hBelow (Nat.lt_irrefl _)
      · exact hInv.apart i j p p' hOld hOld' hSame
  alone i j p p' key hp hp' hNe hAlone hProvisions := by
    rcases getElem?_append_cases hp with ⟨hi, hNew⟩ | ⟨hi, hOld⟩
    · subst hNew
      rcases getElem?_append_cases hp' with ⟨hj, -⟩ | ⟨hj, hOld'⟩
      · exact absurd (hi.trans hj.symm) hNe
      · exact (hOthers key hProvisions).2 p' (List.mem_of_getElem? hOld') (.inr hAlone)
    · rcases getElem?_append_cases hp' with ⟨hj, hNew'⟩ | ⟨hj, hOld'⟩
      · subst hNew'
        by_contra hBoth
        have hIdle := (hOthers key (by simpa using hBoth)).2 p (List.mem_of_getElem? hOld) (.inl hAlone)
        rw [hProvisions] at hIdle
        cases hIdle
      · exact hInv.alone i j p p' key hOld hOld' hNe hAlone hProvisions
  current key opts h hCurrent := by
    obtain ⟨hForce, hIdle⟩ := hInv.current key opts h hCurrent
    refine ⟨hForce, fun p hp => ?_⟩
    rcases List.mem_append.mp hp with hp | hp
    · exact hIdle p hp
    · obtain rfl := List.mem_singleton.mp hp
      by_contra hNew
      have hNone := (hOthers key (by simpa using hNew)).1
      rw [hCurrent] at hNone
      cases hNone

theorem Inv.start (hInv : Inv s) (endpoint : Endpoint) (db : DbName) (store : String) :
    Inv (start s endpoint db store) := by
  have hExpects : ∀ opts h, s.current (db, store) = some (opts, h) → InForce s.reg.reg s.cache (db, store) opts h :=
    fun opts h hCurrent => (hInv.current _ opts h hCurrent).1
  cases hEndpoint : endpoint.isProvision with
  | true =>
    simp only [BlobStores.start, hEndpoint, if_true]
    refine (hInv.join (db, store)).append (q := newReq s endpoint db store) rfl rfl rfl hExpects ?_
    intro key hKey
    obtain rfl : (db, store) = key := Req.provisions_key hKey
    refine ⟨Function.update_self _ _ _, fun p hp hAlone => ?_⟩
    obtain ⟨p', hp', rfl⟩ := List.mem_map.mp hp
    rw [Req.joined_provisions]
    rcases hAlone with hAlone | hAlone
    · rcases p'.joined_cases (db, store) with ⟨hEq, -⟩ | ⟨-, hNe⟩
      · rw [hEq] at hAlone
        cases hAlone
      · by_contra hSame
        exact hNe (Req.provisions_key (by simpa using hSame))
    · simp only [newReq, Bool.not_eq_true', List.any_eq_false] at hAlone
      simpa using hAlone p' hp'
  | false =>
    simp only [BlobStores.start, hEndpoint, Bool.false_eq_true, if_false]
    refine hInv.append (q := newReq s endpoint db store) rfl rfl rfl hExpects ?_
    intro key hKey
    simp [newReq, Req.provisions, hEndpoint] at hKey

end QuicSql.Httpapi.BlobStores
