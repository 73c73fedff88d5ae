import QuicSql.Client.Thread

/-!
# The server handles the requests of a transaction

A delivery is refused, opens a session or resumes the one that answered BEGIN. Only
the last two start a request in progress; it runs its statement once and then
hands the session back or closes it.
-/

namespace QuicSql.Driver

open Lib Sessions

variable {cfg : Config} {d d' : State} {st : Store}

/-! ## Sessions -/

theorem Threaded.one_append (h : Threaded cfg d) {r : Nat} {p : Ptr} (hFree : ∀ j ∈ d.jobs, j.on p = false)
    (q : Ptr) : (d.jobs ++ [Job.mk r p none true]).countP (Job.on q) ≤ 1 := by
  rw [List.countP_append]
  by_cases hq : p = q
  · subst hq
    have hZero : d.jobs.countP (Job.on p) = 0 := by
      rw [List.countP_eq_zero]
      intro j hj
      simp [hFree j hj]
    rw [hZero, Nat.zero_add]
    exact List.countP_le_length
  · have hOff : [Job.mk r p none true].countP (Job.on q) = 0 := by simp [Job.on, hq]
    rw [hOff]
    exact h.one q

/-- BEGIN opens a session; a second delivery of it opens another one. -/
theorem Threaded.opens (h : Threaded cfg d) {r : Nat} {q : Request} {new : Session} (hq : d.sent[r]? = some q)
    (hZero : q.gen = 0) (hFresh : Fresh d.store new.id) (hGen : new.gen = 1) (hBusy : new.busy = true) :
    let d' : State := { d with
      store := d.store.insertSession new
      owned := d.owned ++ [d.store.nextPtr]
      jobs := d.jobs ++ [⟨r, d.store.nextPtr, none, true⟩] }
    Threaded cfg d' ∧ Grows d d' := by
  intro d'
  have hOld : ∀ p ∈ d.owned, d'.store.heap p = d.store.heap p := fun p hp =>
    insertSession_of_lt new (h.owned p hp)
  have hSelf : d'.store.heap d.store.nextPtr = new := insertSession_self d.store new
  have hGrows : Grows d d' :=
    ⟨id, fun _ => id, fun p hp => List.mem_append_left _ hp, fun p hp => by rw [hOld p hp],
      fun p hp => by rw [hOld p hp], id, Nat.le_refl _, Nat.le_refl _⟩
  have hUnused : d.store.nextPtr ∉ d.owned := fun hMem => Nat.lt_irrefl _ (h.owned _ hMem)
  refine ⟨h.of_server hGrows rfl rfl (h.named.insertSession hFresh) ?_ ?_ ?_ (fun _ => .inl) h.order
    (fun _ => .inl), hGrows⟩
  · intro p hp
    rcases List.mem_append.mp hp with hp | hp
    · exact Nat.lt_succ_of_lt (h.owned p hp)
    · rw [List.mem_singleton.mp hp]
      exact Nat.lt_succ_self _
  · intro j hj
    rcases List.mem_append.mp hj with hj | hj
    · exact (h.jobs j hj).mono hGrows (fun hActive => hOld _ ((h.jobs j hj).owned hActive)) (fun _ he _ => he)
    · rw [List.mem_singleton.mp hj]
      refine fun _ => ⟨q, ⟨hq, ?_, fun hPos => absurd hZero hPos⟩, ?_, ?_, ?_, ?_, ?_⟩
      · exact List.mem_append_right _ (List.mem_singleton_self _)
      · rw [hSelf, hBusy]
      · rw [hSelf, hGen, hZero]
      · rw [hSelf, hGen]
        decide
      · intro _ e he hSession
        obtain ⟨_, p, hServes, hp, _⟩ := h.log e he
        obtain rfl : p = d.store.nextPtr := Option.some.inj (hp.symm.trans hSession)
        exact absurd hServes.owned hUnused
      · intro ok hRan
        cases hRan
  · apply h.one_append
    intro j hj
    by_contra hOn
    obtain ⟨hActive, hPtr⟩ := Job.on_iff.mp (Bool.of_not_eq_false hOn)
    exact hUnused (hPtr ▸ (h.jobs j hj).owned hActive)

/-- A baton of the transaction resumes the session that answered BEGIN, at its own
generation. -/
theorem Threaded.serves_of_accepts (h : Threaded cfg d) {r : Nat} {q : Request} {b db principal : String}
    {sid : SessionId} {gen : Nat} {p : Ptr} (hq : d.sent[r]? = some q) (hBaton : q.baton = some b)
    (hVerify : verify cfg.codec.toCodec b = .ok (sid, gen)) (hAccepts : Accepts d.store sid gen db principal p) :
    Serves d r q p ∧ (d.store.heap p).gen = q.gen := by
  rcases (h.sent q (List.mem_of_getElem? hq)).baton with ⟨hNone, _⟩ | ⟨⟨p', hp', hThread, hSome, _, hLt⟩, _⟩
  · rw [hBaton] at hNone
    cases hNone
  · obtain rfl : b = mint cfg.codec.toCodec (d.store.heap p').id q.gen :=
      Option.some.inj (hBaton.symm.trans hSome)
    rw [verify_mint _ _ hLt] at hVerify
    obtain ⟨rfl, rfl⟩ := Prod.mk.inj (Except.ok.inj hVerify)
    obtain ⟨hp, hId⟩ := h.named.live _ _ hAccepts.lookup
    obtain rfl := h.named.ids p p' hp (h.owned p' hp') hId
    exact ⟨⟨hq, hp', fun _ => hThread⟩, hAccepts.gen_eq⟩

theorem Threaded.resumes (h : Threaded cfg d) {r : Nat} {q : Request} {b db principal : String}
    {sid : SessionId} {gen : Nat} {p : Ptr} (hq : d.sent[r]? = some q) (hBaton : q.baton = some b)
    (hVerify : verify cfg.codec.toCodec b = .ok (sid, gen)) (hAccepts : Accepts d.store sid gen db principal p)
    (hBelow : (d.store.heap p).gen + 1 < 2 ^ 64) :
    let d' : State := { d with
      store := d.store.setSession p ((d.store.heap p).taken d.store.now)
      jobs := d.jobs ++ [⟨r, p, none, true⟩] }
    Threaded cfg d' ∧ Grows d d' := by
  intro d'
  obtain ⟨hServes, hGen⟩ := h.serves_of_accepts hq hBaton hVerify hAccepts
  have hSelf : d'.store.heap p = (d.store.heap p).taken d.store.now := Store.setSession_self _ _ _
  have hNext : (d'.store.heap p).gen = (d.store.heap p).gen + 1 := by
    rw [hSelf]
    exact Nat.mod_eq_of_lt hBelow
  have hId : ((d.store.heap p).taken d.store.now).id = (d.store.heap p).id := rfl
  have hGrows : Grows d d' := by
    refine ⟨id, fun _ => id, fun _ => id, fun p' _ => Store.setSession_field Session.id hId p',
      fun p' _ => ?_, id, Nat.le_refl _, Nat.le_refl _⟩
    rcases Decidable.em (p' = p) with rfl | hNe
    · rw [hNext]
      exact Nat.le_succ _
    · rw [show d'.store.heap p' = d.store.heap p' from Store.setSession_of_ne _ _ hNe]
  -- A request in progress keeps its session busy, so none is on this one.
  have hOff : ∀ j ∈ d.jobs, j.active = true → j.ptr ≠ p := by
    rintro j hj hActive rfl
    obtain ⟨_, hAt⟩ := h.jobs j hj hActive
    cases hAccepts.idle.symm.trans hAt.busy
  refine ⟨h.of_server hGrows rfl rfl (h.named.setSession hId) h.owned ?_ ?_ (fun _ => .inl) h.order
    (fun _ => .inl), hGrows⟩
  · intro j hj
    rcases List.mem_append.mp hj with hj | hj
    · exact (h.jobs j hj).mono hGrows (fun hActive => Store.setSession_of_ne _ _ (hOff j hj hActive))
        (fun _ he _ => he)
    · rw [List.mem_singleton.mp hj]
      refine fun _ => ⟨q, hServes.mono hGrows, ?_, ?_, ?_, ?_, ?_⟩
      · rw [hSelf]
        rfl
      · rw [hNext, hGen]
      · rw [hNext]
        exact hBelow
      · intro _ e he hSession
        obtain ⟨_, p', _, hp', _, _, hLe⟩ := h.log e he
        obtain rfl : p' = p := Option.some.inj (hp'.symm.trans hSession)
        rw [hNext]
        exact Nat.lt_succ_of_le hLe
      · intro ok hRan
        cases hRan
  · apply h.one_append
    intro j hj
    by_contra hOn
    obtain ⟨hActive, hPtr⟩ := Job.on_iff.mp (Bool.of_not_eq_false hOn)
    exact hOff j hj hActive hPtr

theorem Threaded.executes (h : Threaded cfg d) {i : Nat} {job : Job} {q : Request} {sql : Sql} (ok : Bool)
    (hJob : d.jobs[i]? = some job) (hActive : job.active = true) (hRan : job.ran = none) (hAt : JobAt d job q)
    (hBody : q.body = .execute sql) :
    let d' : State := { d with
      jobs := d.jobs.set i { job with ran := some ok }
      log := d.log ++ [⟨some job.ptr, sql, ok, job.request, (d.store.heap job.ptr).gen⟩] }
    Threaded cfg d' ∧ Grows d d' := by
  intro d'
  have hGrows : Grows d d' :=
    ⟨id, fun e he => List.mem_append_left _ he, fun _ => id, fun _ _ => rfl, fun _ _ => Nat.le_refl _, id,
      Nat.le_refl _, Nat.le_refl _⟩
  refine ⟨h.of_server hGrows rfl rfl h.named h.owned ?_ ?_ ?_ ?_ (fun _ => .inl), hGrows⟩
  · refine forall_mem_set_of_unique hJob (Job.on_iff.mpr ⟨hActive, rfl⟩) (h.one job.ptr) ?_ ?_
    · intro j hj hOff hActive'
      refine (h.jobs j hj).mono hGrows (fun _ => rfl) (fun e he hSession => ?_) hActive'
      rcases List.mem_append.mp he with he | he
      · exact he
      · rw [List.mem_singleton.mp he] at hSession
        have hOn : j.on job.ptr = true := Job.on_iff.mpr ⟨hActive', (Option.some.inj hSession).symm⟩
        rw [hOff] at hOn
        cases hOn
    · refine fun _ => ⟨q, hAt.serves.mono hGrows, hAt.busy, hAt.gen, hAt.below, fun hNone => ?_, fun ok' hOk => ?_⟩
      · cases hNone
      · obtain rfl := Option.some.inj hOk
        exact ⟨_, List.mem_append_right _ (List.mem_singleton_self _), hBody, rfl, rfl, hAt.gen⟩
  · intro p
    exact (countP_set_le (b := { job with ran := some ok }) hJob (fun hOn => hOn)).trans (h.one p)
  · intro e he
    rcases List.mem_append.mp he with he | he
    · exact .inl he
    · rw [List.mem_singleton.mp he]
      exact .inr ⟨q, job.ptr, hAt.serves.mono hGrows, rfl, hBody, hAt.gen, Nat.le_refl _⟩
  · rw [List.pairwise_append]
    refine ⟨h.order, List.pairwise_singleton _ _, fun e he e' he' hSession => ?_⟩
    rw [List.mem_singleton.mp he'] at hSession ⊢
    exact hAt.pending hRan e he hSession

theorem Threaded.releases (h : Threaded cfg d) {i : Nat} {job : Job} (hJob : d.jobs[i]? = some job)
    (hActive : job.active = true) (hNamed : Named st) (hPtr : st.nextPtr = d.store.nextPtr)
    (hOther : ∀ p, p ≠ job.ptr → st.heap p = d.store.heap p)
    (hId : (st.heap job.ptr).id = (d.store.heap job.ptr).id)
    (hGen : (st.heap job.ptr).gen = (d.store.heap job.ptr).gen) :
    let d' : State := { d with store := st, jobs := d.jobs.set i { job with active := false } }
    Threaded cfg d' ∧ Grows d d' := by
  intro d'
  have hGrows : Grows d d' := by
    refine ⟨id, fun _ => id, fun _ => id, fun p _ => ?_, fun p _ => ?_, id, Nat.le_refl _, Nat.le_refl _⟩
    · rcases Decidable.em (p = job.ptr) with rfl | hNe
      · exact hId
      · exact congrArg Session.id (hOther p hNe)
    · rcases Decidable.em (p = job.ptr) with rfl | hNe
      · exact Nat.le_of_eq hGen.symm
      · exact Nat.le_of_eq (congrArg Session.gen (hOther p hNe)).symm
  refine ⟨h.of_server hGrows rfl rfl hNamed (fun p hp => hPtr.symm ▸ h.owned p hp) ?_ ?_ (fun _ => .inl) h.order
    (fun _ => .inl), hGrows⟩
  · refine forall_mem_set_of_unique hJob (Job.on_iff.mpr ⟨hActive, rfl⟩) (h.one job.ptr) ?_ ?_
    · intro j hj hOff hActive'
      refine (h.jobs j hj).mono hGrows (fun _ => hOther j.ptr fun hPtr => ?_) (fun _ he _ => he) hActive'
      rw [Job.on_iff.mpr ⟨hActive', hPtr⟩] at hOff
      cases hOff
    · intro hNone
      cases hNone
  · intro p
    exact (countP_set_le (b := { job with active := false }) hJob (fun hOn => by cases hOn)).trans (h.one p)

theorem Threaded.closes (h : Threaded cfg d) {i : Nat} {job : Job} (hJob : d.jobs[i]? = some job)
    (hActive : job.active = true) :
    let d' : State := { d with
      store := d.store.close job.ptr
      jobs := d.jobs.set i { job with active := false } }
    Threaded cfg d' ∧ Grows d d' := by
  have hFrame := evictFrame_closeLocked d.store (d.store.heap job.ptr).id
  have hHeap : (d.store.close job.ptr).heap = d.store.heap := hFrame.heap
  exact h.releases hJob hActive (h.named.of_frame hFrame) hFrame.nextPtr (fun p _ => by rw [hHeap])
    (by rw [hHeap]) (by rw [hHeap])

theorem JobAt.answerOk {job : Job} {q : Request} {ok : Bool} (h : JobAt d job q) (hRan : job.ran = some ok) :
    AnswerOk cfg d ⟨job.request, .answered (some (d.store.baton cfg.codec.toCodec job.ptr).2) ok, job.ptr,
      (d.store.heap job.ptr).gen⟩ := by
  intro baton ok' hReply
  obtain ⟨rfl, rfl⟩ := Reply.answered.inj hReply
  refine ⟨q, h.serves, fun sql hBody => ⟨rfl, h.gen, h.below, ?_⟩⟩
  obtain ⟨e, he, hSql, hOk, hSession, hGen⟩ := h.ran ok hRan
  exact ⟨e, he, Body.execute.inj (hSql.symm.trans hBody), hOk, hSession, hGen.trans h.gen.symm⟩

/-! ## Steps -/

theorem mint_ne_empty (codec : BatonCodec) (id : SessionId) (gen : Nat) : mint codec.toCodec id gen ≠ "" := by
  apply codec.encode_ne_empty
  intro hNil
  have hLen := congrArg List.length hNil
  simp only [List.length_append, putUint64_length, List.length_nil] at hLen
  omega

/-- What a step of the server keeps; it does not touch the client. -/
structure Serviced (cfg : Config) (d d' : State) : Prop where
  threaded : Threaded cfg d'
  grows : Grows d d'
  client : d'.client = d.client

theorem Serviced.refuse (h : Serviced cfg d d') (r : Nat) : Serviced cfg d (d'.answer r .refused 0 0) where
  threaded := h.threaded.answer (answerOk_refused r 0 0)
  grows := h.grows.trans (grows_answer r .refused 0 0)
  client := h.client

theorem Threaded.serviced_quiet (h : Threaded cfg d) (hQuiet : Quiet d.owned d.store st) :
    Serviced cfg d { d with store := st } :=
  ⟨h.of_quiet hQuiet, hQuiet.grows, rfl⟩

theorem Threaded.serviced_self (h : Threaded cfg d) : Serviced cfg d d :=
  h.serviced_quiet ⟨h.named, Nat.le_refl _, fun _ _ => rfl⟩

theorem Threaded.serviced_open (h : Threaded cfg d) {r : Nat} {q : Request} {id : SessionId}
    (hq : d.sent[r]? = some q) (hZero : q.gen = 0) (hFresh : Fresh d.store id) :
    Serviced cfg d (d.stream cfg r "" id) := by
  unfold State.stream Store.reserveSlot
  simp only [if_true]
  split
  · exact h.serviced_self.refuse r
  · -- The slot is counted, then the session is registered.
    rename_i st hSlot
    split at hSlot
    · cases hSlot
    · cases hSlot
      have hSlots : Quiet d.owned d.store (d.store.addSlot cfg.opening.db 1) :=
        ⟨⟨h.named.live, h.named.ids⟩, Nat.le_refl _, fun _ _ => rfl⟩
      have hNew : Fresh (d.store.addSlot cfg.opening.db 1)
          (cfg.opening.session d.store.nextPtr d.store.nextPtr id d.store.now).id := hFresh
      obtain ⟨hThreaded, hGrows⟩ := (h.of_quiet hSlots).opens hq hZero hNew rfl rfl
      exact ⟨hThreaded, hSlots.grows.trans hGrows, rfl⟩

theorem Threaded.serviced_resume (h : Threaded cfg d) {r : Nat} {q : Request} {b : String} {id : SessionId}
    (hq : d.sent[r]? = some q) (hBaton : q.baton = some b) (hNe : b ≠ "") (hBelow : d.genBelow cfg r = true) :
    Serviced cfg d (d.stream cfg r b id) := by
  unfold State.stream
  rw [if_neg hNe]
  rcases resume_cases cfg.codec.toCodec d.store b cfg.opening.db cfg.opening.principal with
    ⟨err, st, hResume, hEvicts⟩ | ⟨sid, gen, p, hVerify, hAccepts, hResume⟩
  · rw [hResume]
    exact (h.serviced_quiet (.of_frame h.named hEvicts.frame)).refuse r
  · simp only [State.genBelow, State.batonOf, hq, Option.bind_some, hBaton, Option.getD_some, hResume,
      decide_eq_true_eq] at hBelow
    rw [hResume]
    obtain ⟨hThreaded, hGrows⟩ := h.resumes hq hBaton hVerify hAccepts hBelow
    exact ⟨hThreaded, hGrows, rfl⟩

theorem Threaded.serviced_deliver (h : Threaded cfg d) {r : Nat} {id : SessionId}
    (hUnforged : Unforged cfg d (.deliver r id)) (hStep : d.deliver cfg r id = some d') : Serviced cfg d d' := by
  unfold State.deliver at hStep
  split at hStep
  · cases hStep
  rename_i q hq
  have hSent := h.sent q (List.mem_of_getElem? hq)
  rw [hSent.pipeline] at hStep
  cases hStep
  rcases hSent.baton with ⟨hNone, hZero, _⟩ | ⟨⟨p, _, _, hBaton, _⟩, _⟩
  · rw [hNone]
    exact h.serviced_open hq hZero (hUnforged.1 (by simp [State.batonOf, hq, hNone]))
  · rw [hBaton]
    exact h.serviced_resume hq hBaton (mint_ne_empty _ _ _) hUnforged.2

theorem Threaded.no_query (h : Threaded cfg d) {r : Nat} {ok : Bool} : d.query r ok = none := by
  unfold State.query
  split
  · rfl
  · rename_i q hq
    rw [(h.sent q (List.mem_of_getElem? hq)).pipeline]

theorem Threaded.serviced_execute (h : Threaded cfg d) {i : Nat} {ok : Bool} (hStep : d.execute i ok = some d') :
    Serviced cfg d d' := by
  unfold State.execute at hStep
  split at hStep
  · cases hStep
  rename_i job hJob
  split at hStep
  · rename_i sql hActive hRan hBody
    cases hStep
    obtain ⟨q, hAt⟩ := h.jobs job (List.mem_of_getElem? hJob) hActive
    rw [hAt.serves.sent] at hBody
    obtain ⟨hThreaded, hGrows⟩ := h.executes ok hJob hActive hRan hAt (Option.some.inj hBody)
    exact ⟨hThreaded, hGrows, rfl⟩
  · cases hStep

theorem Threaded.serviced_reply (h : Threaded cfg d) {i : Nat} (hStep : d.reply cfg i = some d') :
    Serviced cfg d d' := by
  unfold State.reply at hStep
  split at hStep
  · cases hStep
  rename_i job hJob
  split at hStep
  · rename_i hActive hBody
    cases hStep
    obtain ⟨q, hAt⟩ := h.jobs job (List.mem_of_getElem? hJob) hActive
    rw [hAt.serves.sent] at hBody
    obtain ⟨hThreaded, hGrows⟩ := h.closes hJob hActive
    refine ⟨hThreaded.answer (AnswerOk.mono hGrows ?_), hGrows.trans (grows_answer _ _ _ _), rfl⟩
    intro baton ok hReply
    refine ⟨q, hAt.serves, fun sql hSql => ?_⟩
    cases (Option.some.inj hBody).symm.trans hSql
  · rename_i sql ok hActive hBody hRan
    cases hStep
    obtain ⟨q, hAt⟩ := h.jobs job (List.mem_of_getElem? hJob) hActive
    have hSelf : (d.store.baton cfg.codec.toCodec job.ptr).1.heap job.ptr =
        { d.store.heap job.ptr with busy := false, lastUsed := d.store.now } := Store.setSession_self _ _ _
    have hNamed : Named (d.store.baton cfg.codec.toCodec job.ptr).1 := h.named.setSession rfl
    obtain ⟨hThreaded, hGrows⟩ := h.releases hJob hActive hNamed rfl
      (fun p hp => Store.setSession_of_ne _ _ hp) (by rw [hSelf]) (by rw [hSelf])
    exact ⟨hThreaded.answer ((hAt.answerOk hRan).mono hGrows), hGrows.trans (grows_answer _ _ _ _), rfl⟩
  · cases hStep

theorem Threaded.serviced_abort (h : Threaded cfg d) {i : Nat} (hStep : d.abort i = some d') : Serviced cfg d d' := by
  unfold State.abort at hStep
  split at hStep
  · cases hStep
  rename_i job hJob
  split at hStep
  · rename_i hActive
    cases hStep
    obtain ⟨hThreaded, hGrows⟩ := h.closes hJob hActive
    exact ⟨hThreaded, hGrows, rfl⟩
  · cases hStep

end QuicSql.Driver
