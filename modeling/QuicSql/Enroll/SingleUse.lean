import QuicSql.Enroll.Cap

/-!
# One enrollment for each code

A single-use code is in one place: unused in the store, with the call that mints it or has
consumed it, or behind the row that was made with it. A call that gives the code back must
have seen its row go. Codes are random, so that none is drawn twice.
-/

namespace QuicSql.Enroll

open Authz Lib

def Call.carried : Call → List Hash
  | .putting _ code | .adding _ code | .granting _ code | .enrolled _ code | .confirming _ code
  | .provisioning _ code | .failing _ code | .rollingBack _ code | .purging _ code => code.toList
  | .unwinding hash | .releasing _ hash | .sweeping hash _ | .storing hash _ => [hash]
  | _ => []

/-- The row that the call has inserted and still answers for. -/
def Call.rowName (cfg : Config) : Call → Option Name
  | .adding key _ | .granting key _ | .enrolled key _ | .confirming key _ | .provisioning key _ | .failing key _
  | .rollingBack key _ => some (cfg.principalName key)
  | _ => none

/-- The service with the code behind each row that was inserted since the start, and the
codes drawn so far. -/
structure Ledger where
  service : Service
  origins : List (Name × Option Hash)
  drawn : List Hash

namespace Ledger

open Service (Action)

def draws : Action → List Hash
  | .mintCode code => [code]
  | _ => []

def inserted (cfg : Config) (t : Service) : Action → List (Name × Option Hash)
  | .step i _ =>
    match t.calls[i]? with
    | some (.adding key code) => [(cfg.principalName key, code)]
    | _ => []
  | _ => []

/-- A deleted row is forgotten. -/
def follow (l : Ledger) (t : Service) : Ledger where
  service := t
  origins := l.origins.filter (fun o => decide (Enrolled t.table o.1))
  drawn := l.drawn

def next (cfg : Config) (l : Ledger) (a : Action) (t : Service) : Ledger where
  service := t
  origins := (l.follow t).origins ++ inserted cfg t a
  drawn := draws a ++ l.drawn

def step (cfg : Config) (l : Ledger) (a : Action) : Option Ledger :=
  if ∃ h ∈ draws a, h ∈ l.drawn then none else (Service.step cfg l.service a).map (l.next cfg a)

def init (s : Service) : Ledger := ⟨s, [], s.codes.map Code.hash⟩

/-- No two rows stand for one code. -/
def AtMostOnce (l : Ledger) : Prop := ∀ hash, (l.origins.filter (fun o => o.2 = some hash)).length ≤ 1

/-- A rollback that holds a code leaves no row behind. -/
def Clean (cfg : Config) (l : Ledger) : Action → Prop
  | .step i ok =>
    match l.service.calls[i]? with
    | some (.rollingBack key (some _)) => ok = true ∨ ¬ Enrolled l.service.table (cfg.principalName key)
    | _ => True
  | _ => True

instance (cfg : Config) (l : Ledger) : ∀ a, Decidable (Clean cfg l a)
  | .step i ok => by
    unfold Clean
    dsimp only
    split
    all_goals infer_instance
  | .enroll .. | .delete _ | .mintCode _ | .tick _ => isTrue trivial

/-! ## The invariant -/

structure Single (cfg : Config) (l : Ledger) : Prop where
  one : Exclusive Call.carried l.service.calls
  unused : ∀ c ∈ l.service.codes, c.valid l.service.clock = true →
    Free Call.carried l.service.calls c.hash ∧ ∀ o ∈ l.origins, o.2 ≠ some c.hash
  owner : ∀ o ∈ l.origins, ∀ c ∈ l.service.calls, ∀ h ∈ c.carried, o.2 = some h → c.rowName cfg = some o.1
  distinct : l.origins.Pairwise (fun o p => ∀ h, o.2 = some h → p.2 ≠ some h)
  codesDrawn : ∀ c ∈ l.service.codes, c.hash ∈ l.drawn
  callsDrawn : ∀ c ∈ l.service.calls, ∀ h ∈ c.carried, h ∈ l.drawn
  rowsDrawn : ∀ o ∈ l.origins, ∀ h, o.2 = some h → h ∈ l.drawn

variable {cfg : Config} {l : Ledger} {t u : Service} {i : Nat} {ok : Bool} {c d : Call}

theorem Single.atMostOnce (h : Single cfg l) : l.AtMostOnce := by
  intro hash
  have hPairs := h.distinct.filter (fun o => decide (o.2 = some hash))
  have hMem : ∀ o ∈ l.origins.filter (fun o => decide (o.2 = some hash)), o.2 = some hash :=
    fun o ho => of_decide_eq_true (List.mem_filter.mp ho).2
  generalize l.origins.filter (fun o => decide (o.2 = some hash)) = rows at hPairs hMem
  match rows with
  | [] => exact Nat.zero_le 1
  | [_] => exact Nat.le_refl 1
  | o :: p :: rest =>
    have hPair := (List.pairwise_cons.mp hPairs).1 p List.mem_cons_self hash (hMem o List.mem_cons_self)
    exact absurd (hMem p (List.mem_cons_of_mem _ List.mem_cons_self)) hPair

theorem init_single (s : Service) (hCalls : s.calls = []) : Single cfg (init s) where
  one := hCalls ▸ exclusive_nil
  unused := fun _ _ _ => ⟨fun _ hc => absurd (hCalls ▸ hc) List.not_mem_nil, fun _ ho => absurd ho List.not_mem_nil⟩
  owner := fun _ ho => absurd ho List.not_mem_nil
  distinct := List.Pairwise.nil
  codesDrawn := fun c hc => List.mem_map.mpr ⟨c, hc, rfl⟩
  callsDrawn := fun _ hc => absurd (hCalls ▸ hc) List.not_mem_nil
  rowsDrawn := fun _ ho => absurd ho List.not_mem_nil

theorem Single.no_row (h : Single cfg l) (hc : l.service.calls[i]? = some c) (hName : c.rowName cfg = none)
    {hash : Hash} (hCarried : hash ∈ c.carried) : ∀ o ∈ l.origins, o.2 ≠ some hash := by
  intro o ho hEq
  have hOwn := h.owner o ho c (List.mem_of_getElem? hc) hash hCarried hEq
  rw [hName] at hOwn
  cases hOwn

/-- A call moves on. What it carries then it carried before or nobody had; a code in the
store is an old one, or the one that the call gives up. -/
theorem Single.follow (h : Single cfg l) (hc : l.service.calls[i]? = some c) (hCalls : t.calls = l.service.calls.set i d)
    (hClock : t.clock = l.service.clock)
    (hCarried : ∀ x ∈ d.carried, x ∈ c.carried ∨
      Free Call.carried l.service.calls x ∧ x ∈ l.drawn ∧ ∀ o ∈ l.origins, o.2 ≠ some x)
    (hName : ∀ x ∈ d.carried, ∀ name, c.rowName cfg = some name → Enrolled t.table name → d.rowName cfg = some name)
    (hCodes : ∀ e ∈ t.codes, (∃ e' ∈ l.service.codes, e'.hash = e.hash ∧ (e.valid t.clock = true →
        e'.valid t.clock = true ∧ (e.hash ∈ d.carried → e.hash ∈ c.carried))) ∨
      e.hash ∈ c.carried ∧ d.carried = [] ∧ c.rowName cfg = none) :
    Single cfg (l.follow t) := by
  have hMem : c ∈ l.service.calls := List.mem_of_getElem? hc
  have hKept : ∀ o ∈ (l.follow t).origins, o ∈ l.origins ∧ Enrolled t.table o.1 :=
    fun o ho => ⟨(List.mem_filter.mp ho).1, of_decide_eq_true (List.mem_filter.mp ho).2⟩
  refine ⟨?_, ?_, ?_, h.distinct.filter _, ?_, ?_, fun o ho => h.rowsDrawn o (hKept o ho).1⟩
  · refine hCalls ▸ h.one.set hc fun x hx => ?_
    exact (hCarried x hx).imp_right fun hNew => hNew.1
  · intro e he hValid
    change Free Call.carried t.calls e.hash ∧ _
    rw [hCalls]
    rcases hCodes e he with ⟨e', he', hHash, hWas⟩ | ⟨hGiven, hEmpty, hNone⟩
    · obtain ⟨hOld, hSame⟩ := hWas hValid
      obtain ⟨hFree, hRows⟩ := h.unused e' he' (hClock ▸ hOld)
      rw [hHash] at hFree hRows
      exact ⟨hFree.set hc hSame, fun o ho => hRows o (hKept o ho).1⟩
    · exact ⟨h.one.free_set hc hGiven (hEmpty ▸ List.not_mem_nil), fun o ho => h.no_row hc hNone hGiven o (hKept o ho).1⟩
  · intro o ho e he x hx hEq
    obtain ⟨hOld, hIn⟩ := hKept o ho
    change e ∈ t.calls at he
    rw [hCalls] at he
    rcases List.mem_or_eq_of_mem_set he with heOld | rfl
    · exact h.owner o hOld e heOld x hx hEq
    · rcases hCarried x hx with hHad | ⟨-, -, hNone⟩
      · exact hName x hx o.1 (h.owner o hOld c hMem x hHad hEq) hIn
      · exact absurd hEq (hNone o hOld)
  · intro e he
    rcases hCodes e he with ⟨e', he', hHash, -⟩ | ⟨hGiven, -, -⟩
    · exact hHash ▸ h.codesDrawn e' he'
    · exact h.callsDrawn c hMem _ hGiven
  · intro e he x hx
    change e ∈ t.calls at he
    rw [hCalls] at he
    rcases List.mem_or_eq_of_mem_set he with heOld | rfl
    · exact h.callsDrawn e heOld x hx
    · rcases hCarried x hx with hHad | ⟨-, hDrawn, -⟩
      · exact h.callsDrawn c hMem x hHad
      · exact hDrawn

theorem Single.keep (h : Single cfg l) (hc : l.service.calls[i]? = some c) (hCalls : t.calls = l.service.calls.set i d)
    (hClock : t.clock = l.service.clock) (hSame : t.codes = l.service.codes) (hCarried : ∀ x ∈ d.carried, x ∈ c.carried)
    (hName : ∀ x ∈ d.carried, ∀ name, c.rowName cfg = some name → Enrolled t.table name → d.rowName cfg = some name) :
    Single cfg (l.follow t) := by
  refine h.follow hc hCalls hClock (fun x hx => .inl (hCarried x hx)) hName fun e he => ?_
  exact .inl ⟨e, hSame ▸ he, rfl, fun hValid => ⟨hValid, hCarried e.hash⟩⟩

theorem Single.release (h : Single cfg l) (hc : l.service.calls[i]? = some c) (hCalls : t.calls = l.service.calls.set i d)
    (hClock : t.clock = l.service.clock) {hash : Hash} (hSame : t.codes = Enroll.release l.service.codes hash)
    (hCarried : c.carried = [hash]) (hNone : c.rowName cfg = none) (hd : d.carried = []) : Single cfg (l.follow t) := by
  refine h.follow hc hCalls hClock ?_ ?_ fun e he => ?_
  · intro x hx
    rw [hd] at hx
    cases hx
  · intro x hx
    rw [hd] at hx
    cases hx
  · obtain ⟨e', he', hEq⟩ := List.mem_map.mp (hSame ▸ he)
    split at hEq
    · rename_i hHash
      cases hEq
      exact .inr ⟨hCarried ▸ List.mem_singleton.mpr hHash, hd, hNone⟩
    · cases hEq
      refine .inl ⟨e, he', rfl, fun hValid => ⟨hValid, fun hIn => ?_⟩⟩
      rw [hd] at hIn
      cases hIn

theorem Single.consume (h : Single cfg l) {key : Key} {hash : Hash} (hc : l.service.calls[i]? = some (.consuming key hash))
    (hCalls : t.calls = l.service.calls.set i (.putting key (some hash))) (hClock : t.clock = l.service.clock)
    (hSame : t.codes = Enroll.consume l.service.codes hash l.service.clock)
    (hValid : codeValid l.service.codes hash l.service.clock = true) : Single cfg (l.follow t) := by
  obtain ⟨e, he, hMatch⟩ := List.any_eq_true.mp hValid
  simp only [Bool.and_eq_true, decide_eq_true_eq] at hMatch
  obtain ⟨rfl, hUnused⟩ := hMatch
  obtain ⟨hFree, hRows⟩ := h.unused e he hUnused
  refine h.follow hc hCalls hClock ?_ (fun _ _ _ hEq => by cases hEq) fun x hx => ?_
  · intro x hx
    cases List.mem_singleton.mp hx
    exact .inr ⟨hFree, h.codesDrawn e he, hRows⟩
  · obtain ⟨y, hy, hEq⟩ := List.mem_map.mp (hSame ▸ hx)
    refine .inl ⟨y, hy, ?_⟩
    split at hEq
    · cases hEq
      exact ⟨rfl, fun hBad => by simp [Code.valid] at hBad⟩
    · rename_i hNot
      cases hEq
      refine ⟨rfl, fun hStill => ⟨hStill, fun hIn => ?_⟩⟩
      rw [hClock] at hStill
      exact absurd (by simp [List.mem_singleton.mp hIn, hStill]) hNot

theorem Single.insert (h : Single cfg l) {key : Key} {code : Option Hash}
    (hd : l.service.calls[i]? = some (.adding key code)) (hNone : ∀ x, code = some x → ∀ o ∈ l.origins, o.2 ≠ some x) :
    Single cfg { l with origins := l.origins ++ [(cfg.principalName key, code)] } := by
  have hMem := List.mem_of_getElem? hd
  have hCarried : ∀ x, code = some x → x ∈ (Call.adding key code).carried := by
    rintro x rfl
    exact List.mem_singleton_self x
  refine ⟨h.one, ?_, ?_, ?_, h.codesDrawn, h.callsDrawn, ?_⟩
  · intro e he hValid
    obtain ⟨hFree, hRows⟩ := h.unused e he hValid
    refine ⟨hFree, fun o ho => ?_⟩
    rcases List.mem_append.mp ho with hOld | hNew
    · exact hRows o hOld
    · rw [List.mem_singleton.mp hNew]
      exact fun hEq => hFree _ hMem (hCarried _ hEq)
  · intro o ho e he x hx hEq
    rcases List.mem_append.mp ho with hOld | hNew
    · exact h.owner o hOld e he x hx hEq
    · rw [List.mem_singleton.mp hNew] at hEq ⊢
      obtain ⟨j, hj⟩ := List.getElem?_of_mem he
      cases h.one hj hd hx (hCarried x hEq)
      cases Option.some.inj (hj.symm.trans hd)
      rfl
  · refine List.pairwise_append.mpr ⟨h.distinct, List.pairwise_singleton _ _, fun o ho p hp x hEq => ?_⟩
    rw [List.mem_singleton.mp hp]
    exact fun hCode => hNone x hCode o ho hEq
  · intro o ho x hEq
    rcases List.mem_append.mp ho with hOld | hNew
    · exact h.rowsDrawn o hOld x hEq
    · rw [List.mem_singleton.mp hNew] at hEq
      exact h.callsDrawn _ hMem x (hCarried x hEq)

/-! ## Steps -/

open Service (Passes Takes)

theorem passes_carried {s : Service} (h : Passes cfg s ok c d) : ∀ x ∈ d.carried, x ∈ c.carried := by
  intro x hx
  cases h with
  | @notPut key code => cases code <;> exact hx
  | uncoded | gate | confirmed | unconfirmed | unprovisioned | failing | notErased | unswept => exact hx
  | _ => cases hx

theorem passes_rowName (h : Passes cfg l.service ok c d) (hc : l.service.calls[i]? = some c)
    (hClean : Clean cfg l (.step i ok)) (x : Hash) (hx : x ∈ d.carried) (name : Name) (hName : c.rowName cfg = some name)
    (hIn : Enrolled l.service.table name) : d.rowName cfg = some name := by
  cases h with
  | @notErased key code hKept =>
    cases hName
    cases code with
    | none => cases hx
    | some hash =>
      rw [Clean, hc] at hClean
      rcases hClean with rfl | hOut
      · exact absurd hIn (hKept.resolve_left (by decide))
      · exact absurd hIn hOut
  | gate | confirmed | unconfirmed | unprovisioned | failing => exact hName
  | _ => cases hName

theorem afterGrants_carried (key : Key) (code : Option Hash) :
    ∀ x ∈ (Service.afterGrants cfg key code).carried, x ∈ code.toList ∧
      (Service.afterGrants cfg key code).rowName cfg = some (cfg.principalName key) := by
  intro x hx
  unfold Service.afterGrants at hx ⊢
  split at hx
  · rename_i hProvision
    rw [if_pos hProvision]
    exact ⟨hx, rfl⟩
  · cases hx

theorem Single.takes (h : Single cfg l) (hc : l.service.calls[i]? = some c) (hClean : Clean cfg l (.step i ok))
    (hTakes : Takes cfg l.service ok c d u) : Single cfg (l.follow { u with calls := l.service.calls.set i d }) := by
  cases hTakes with
  | passes hPass => exact h.keep hc rfl rfl rfl (passes_carried hPass) (passes_rowName hPass hc hClean)
  | consume hValid => exact h.consume hc rfl rfl rfl hValid
  | put => exact h.keep hc rfl rfl rfl (fun _ hx => hx) (fun _ _ _ hEq => by cases hEq)
  | add => exact h.keep hc rfl rfl rfl (fun _ hx => hx) (fun _ _ _ hEq _ => hEq)
  | @grant key code =>
    refine h.keep hc rfl rfl rfl (fun x hx => (afterGrants_carried key code x hx).1) fun x hx name hEq _ => ?_
    exact (afterGrants_carried key code x hx).2.trans hEq
  | unwind => exact h.release hc rfl rfl rfl rfl rfl rfl
  | provision => exact h.keep hc rfl rfl rfl (fun _ hx => by cases hx) (fun _ hx => by cases hx)
  | rollback =>
    refine h.keep hc rfl rfl rfl (fun _ hx => hx) fun _ _ name hEq hIn => ?_
    cases hEq
    obtain ⟨r, hr, hName⟩ := hIn
    exact absurd hName (of_decide_eq_true (List.mem_filter.mp hr).2)
  | @purge key code =>
    refine h.keep hc rfl rfl rfl (fun _ hx => ?_) (fun _ _ _ hEq => by cases hEq)
    cases code <;> exact hx
  | release => exact h.release hc rfl rfl rfl rfl rfl rfl
  | delete | remove | revoke | discount =>
    exact h.keep hc rfl rfl rfl (fun _ hx => by cases hx) (fun _ hx => by cases hx)
  | sweep =>
    refine h.follow hc rfl rfl (fun _ hx => .inl hx) (fun _ _ _ hEq => by cases hEq) fun e he => ?_
    exact .inl ⟨e, (List.mem_filter.mp he).1, rfl, fun hValid => ⟨hValid, fun hIn => hIn⟩⟩
  | store =>
    refine h.follow hc rfl rfl (fun _ hx => by cases hx) (fun _ hx => by cases hx) fun e he => ?_
    rcases List.mem_append.mp he with hOld | hNew
    · exact .inl ⟨e, hOld, rfl, fun hValid => ⟨hValid, fun hIn => by cases hIn⟩⟩
    · rw [List.mem_singleton.mp hNew]
      exact .inr ⟨List.mem_singleton_self _, rfl, rfl⟩

theorem takes_adding {s : Service} (h : Takes cfg s ok c d u) :
    (∀ key code, d ≠ .adding key code) ∨ ∃ key code, c = .putting key code ∧ d = .adding key code := by
  cases h with
  | put => exact .inr ⟨_, _, rfl, rfl⟩
  | passes hPass =>
    refine .inl fun key code hEq => ?_
    cases hPass with
    | @notPut key' code' => cases code' <;> cases hEq
    | _ => cases hEq
  | @grant key' code' =>
    refine .inl fun key code hEq => ?_
    unfold Service.afterGrants at hEq
    split at hEq <;> cases hEq
  | @purge key' code' =>
    refine .inl fun key code hEq => ?_
    cases code' <;> cases hEq
  | _ => exact .inl fun key code hEq => by cases hEq

theorem Single.step (h : Single cfg l) (hc : l.service.calls[i]? = some c) (hClean : Clean cfg l (.step i ok))
    (hTakes : Takes cfg l.service ok c d u) :
    Single cfg (l.next cfg (.step i ok) { u with calls := l.service.calls.set i d }) := by
  have hFollow := h.takes hc hClean hTakes
  have hd : ({ u with calls := l.service.calls.set i d } : Service).calls[i]? = some d := getElem?_set_of_some hc
  rcases takes_adding hTakes with hNot | ⟨key, code, rfl, rfl⟩
  · have hNone : inserted cfg { u with calls := l.service.calls.set i d } (.step i ok) = [] := by
      rw [inserted, hd]
      split
      · rename_i key code hEq
        exact absurd (Option.some.inj hEq) (hNot key code)
      · rfl
    rw [next, hNone, List.append_nil]
    exact hFollow
  · have hOne : inserted cfg { u with calls := l.service.calls.set i (.adding key code) } (.step i ok) =
        [(cfg.principalName key, code)] := by
      rw [inserted, hd]
    rw [next, hOne]
    refine hFollow.insert hd fun x hCode o ho => ?_
    exact h.no_row hc rfl (hCode ▸ List.mem_singleton_self x) o (List.mem_filter.mp ho).1

theorem Single.start (h : Single cfg l) {a : Action} (hAction : inserted cfg (l.service.start c) a = [])
    (hDraws : c.carried = draws a) (hNew : ¬ ∃ x ∈ draws a, x ∈ l.drawn) :
    Single cfg (l.next cfg a (l.service.start c)) := by
  have hFresh : ∀ x ∈ c.carried, x ∉ l.drawn := fun x hx hIn => hNew ⟨x, hDraws ▸ hx, hIn⟩
  have hKept : ∀ o ∈ (l.next cfg a (l.service.start c)).origins, o ∈ l.origins := by
    intro o ho
    rw [next, hAction, List.append_nil] at ho
    exact (List.mem_filter.mp ho).1
  refine ⟨?_, ?_, ?_, ?_, fun e he => ?_, ?_, fun o ho x hEq => ?_⟩
  · refine h.one.append_of_free fun x hx e he hIn => ?_
    exact hFresh x hx (h.callsDrawn e he x hIn)
  · intro e he hValid
    obtain ⟨hFree, hRows⟩ := h.unused e he hValid
    refine ⟨fun call hCall hIn => ?_, fun o ho => hRows o (hKept o ho)⟩
    rcases List.mem_append.mp hCall with hOld | hLast
    · exact hFree call hOld hIn
    · rw [List.mem_singleton.mp hLast] at hIn
      exact hFresh e.hash hIn (h.codesDrawn e he)
  · intro o ho e he x hx hEq
    rcases List.mem_append.mp he with hOld | hLast
    · exact h.owner o (hKept o ho) e hOld x hx hEq
    · rw [List.mem_singleton.mp hLast] at hx
      exact absurd (h.rowsDrawn o (hKept o ho) x hEq) (hFresh x hx)
  · rw [next, hAction, List.append_nil]
    exact h.distinct.filter _
  · exact List.mem_append_right _ (h.codesDrawn e he)
  · intro e he x hx
    rcases List.mem_append.mp he with hOld | hLast
    · exact List.mem_append_right _ (h.callsDrawn e hOld x hx)
    · rw [List.mem_singleton.mp hLast, hDraws] at hx
      exact List.mem_append_left _ hx
  · exact List.mem_append_right _ (h.rowsDrawn o (hKept o ho) x hEq)

theorem Single.tick (h : Single cfg l) {n : Nat} (hCalls : t.calls = l.service.calls)
    (hCodes : t.codes = l.service.codes) (hClock : l.service.clock ≤ t.clock) : Single cfg (l.next cfg (.tick n) t) := by
  have hOrigins : (l.next cfg (.tick n) t).origins = (l.follow t).origins := List.append_nil _
  have hKept : ∀ o ∈ (l.next cfg (.tick n) t).origins, o ∈ l.origins :=
    fun o ho => (List.mem_filter.mp (hOrigins ▸ ho)).1
  refine ⟨hCalls ▸ h.one, ?_, fun o ho => hCalls ▸ h.owner o (hKept o ho), hOrigins ▸ h.distinct.filter _,
    hCodes ▸ h.codesDrawn, hCalls ▸ h.callsDrawn, fun o ho => h.rowsDrawn o (hKept o ho)⟩
  intro e he hValid
  have hEarlier : e.valid l.service.clock = true := by
    change e.valid t.clock = true at hValid
    simp only [Code.valid, Bool.and_eq_true, decide_eq_true_eq] at hValid ⊢
    exact ⟨hValid.1, by omega⟩
  obtain ⟨hFree, hRows⟩ := h.unused e (hCodes ▸ he) hEarlier
  exact ⟨hCalls ▸ hFree, fun o ho => hRows o (hKept o ho)⟩

theorem step_single {a : Action} {m : Ledger} (h : Single cfg l) (hClean : Clean cfg l a) (hStep : step cfg l a = some m) :
    Single cfg m := by
  obtain ⟨hNew, hStep⟩ := Option.ite_none_left_eq_some.mp hStep
  obtain ⟨t, ht, rfl⟩ := Option.map_eq_some_iff.mp hStep
  cases Service.step_acts ht with
  | enroll | delete | mintCode => exact h.start rfl rfl hNew
  | tick => exact h.tick rfl rfl (Int.le_add_of_nonneg_right (Int.natCast_nonneg _))
  | step hc hTakes => exact h.step hc hClean hTakes

/-- At most one live row was made with each code, in every run in which a rollback that
holds a code does not fail to delete its row. -/
theorem one_enrollment_per_code (cfg : Config) (base : Policy) (table : List Row) (codes : List Code) (now : Int)
    (actions : List Action)
    (hClean : Guarded (step cfg) (Clean cfg) (init (Service.loadTable cfg base table codes now)) actions) :
    Always (step cfg) AtMostOnce (init (Service.loadTable cfg base table codes now)) actions := by
  have hAlways : Always (step cfg) (Single cfg) (init (Service.loadTable cfg base table codes now)) actions :=
    always_of_guarded (fun l a m h hCond hStep => step_single h hCond hStep) (init_single _ rfl) hClean
  exact hAlways.mono fun l h => h.atMostOnce

def codeConfig : Config :=
  { bareConfig with
    tokenPolicy := true, codesEnabled := true, codesTTL := 60, provision := true, provisionLevel := some .readWrite }

/-- An enrollment whose provisioning fails; `erased` tells whether its rollback can delete
the row. -/
def rolledBack (i : Nat) (erased : Bool) : List Action :=
  [.step i true, .step i true, .step i true, .step i true, .step i true, .step i true, .step i true, .step i true,
    .step i true, .step i false, .step i true, .step i erased, .step i true, .step i true]

/-- The code is minted, used, given back and used by another key. -/
def codeReused (erased : Bool) : List Action :=
  [.mintCode "c", .step 0 true, .step 0 true, .enroll "a" (some "c")] ++ rolledBack 1 erased ++
    [.enroll "b" (some "c"), .step 2 true, .step 2 true, .step 2 true, .step 2 true, .step 2 true, .step 2 true,
      .step 2 true, .step 2 true, .step 2 true]

theorem returned_code_used_once :
    Always (step codeConfig) AtMostOnce (init (Service.loadTable codeConfig (newPolicy false) [] [] 0)) (codeReused true) :=
  one_enrollment_per_code codeConfig (newPolicy false) [] [] 0 _ (by decide +kernel)

/-- The rollback ignores that the row could not be deleted and gives the code back. -/
theorem code_enrolls_twice :
    ¬ Always (step codeConfig) AtMostOnce (init (Service.loadTable codeConfig (newPolicy false) [] [] 0))
      (codeReused false) := by
  intro hAlways
  have hRun : (run (step codeConfig) (init (Service.loadTable codeConfig (newPolicy false) [] [] 0))
      (codeReused false)).map (fun l => l.origins) = some [("u_a", some "c"), ("u_b", some "c")] := by
    decide +kernel
  obtain ⟨l, hl, hOrigins⟩ := Option.map_eq_some_iff.mp hRun
  have hOnce := hAlways.final hl "c"
  rw [hOrigins] at hOnce
  exact absurd hOnce (by decide)

end Ledger

end QuicSql.Enroll
