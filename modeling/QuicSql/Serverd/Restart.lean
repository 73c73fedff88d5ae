import QuicSql.Serverd.Agreement

/-!
# Grants across a restart

The live policy is compared with the one a restart would load, on the databases that are
served and for whoever can authenticate. They agree as long as no request makes the live
policy forget a grant that a spec or the template still has, or keep one that they lost.
-/

namespace QuicSql.Serverd

open Authz Enroll Provision Admin Lib

namespace Config

variable (cfg : Config)

/-- The anonymous principal, whose name is empty, needs no credential. -/
def Authenticates (s : Running) (name : String) : Prop :=
  name = "" ∨ name ∈ cfg.principals ∨ (∃ key, loadRoster cfg.authorizedKeys key = some name) ∨
    (∃ key, s.server.dynKeyring key = some name) ∨ name ∈ s.sessions

def Survives (s : Running) : Prop :=
  ∀ db, (s.server.world.backends db).isSome → ∀ name, cfg.Authenticates s name →
    s.server.policy.level name db = (cfg.load s.server.world.databases s.server.table).level name db

/-- The specs of the served databases as a restart reads them. -/
def served (s : Server) : List Spec :=
  (cfg.reconcile s.world.databases).filter (fun d => (s.world.backends d.name).isSome)

def provisionFails (s : Server) (principal : Name) (opens : Bool) : Bool :=
  !(cfg.validates (cfg.provisionSpec principal) && cfg.builds (cfg.provisionSpec principal)) ||
    ((s.world.backends (cfg.enroll.provisionName principal)).isNone && !opens)

/-- Whoever loses its grants and keeps a credential has none in the specs. -/
def Unpromised (s : Running) (name : Name) : Prop :=
  cfg.Lasting s.sessions name → ∀ d ∈ cfg.served s.server, granted d.grants name = 0

/-- A database that exists grants its level to the new principal already; on the name of a
new one the live policy has what the template grants. -/
def Provisionable (s : Running) (name : Name) : Prop :=
  let db := cfg.enroll.provisionName name
  let level := cfg.enroll.provisionLevel.elim 0 Level.rank
  (∀ d ∈ cfg.served s.server, d.name = db → level ≤ max (granted d.grants name) (granted cfg.enroll.grants db)) ∧
    (s.server.world.backends db = none →
      s.server.policy.rank db name ≤ max level (granted cfg.enroll.grants db) ∧
      ∀ q ∈ wildcard :: cfg.principals ++ (cfg.rows s.server.table).map Row.name ++ cfg.rosterNames ++ s.sessions,
        q ≠ name → s.server.policy.rank db q = cfg.template s.server.table db q)

/-- A create grants the enrolled principals what the template does. Of a new principal the
live policy has what the specs grant it, up to the template. -/
def Sound (s : Running) : Action → Prop
  | .create spec _ =>
    s.server.world.backends spec.name = none →
      ∀ r ∈ cfg.rows s.server.table, granted cfg.enroll.grants spec.name ≤ granted spec.grants r.name
  | .enroll key _ opens =>
    let name := cfg.enroll.principalName key
    enrolledByKey s.server.table key = none →
      (∀ d ∈ cfg.served s.server, max (s.server.policy.rank d.name name) (granted cfg.enroll.grants d.name) =
        max (granted d.grants name) (granted cfg.enroll.grants d.name)) ∧
      (cfg.enroll.provision = true →
        if cfg.provisionFails s.server name opens then cfg.Unpromised s name else cfg.Provisionable s name)
  | .delete name _ =>
    Enrolled s.server.table name → cfg.Lasting s.sessions name →
      ∀ d ∈ cfg.served s.server, granted d.grants name = 0 ∨
        (cfg.enroll.provision = true ∧ cfg.enroll.drop = true ∧ d.name = cfg.enroll.provisionName name)
  | _ => True

instance (sessions : List Name) (name : Name) : Decidable (cfg.Lasting sessions name) :=
  inferInstanceAs (Decidable (_ ∨ _))

instance (s : Running) (name : Name) : Decidable (cfg.Unpromised s name) := by
  unfold Unpromised
  infer_instance

instance (s : Running) (name : Name) : Decidable (cfg.Provisionable s name) := by
  unfold Provisionable
  infer_instance

instance (s : Running) (a : Action) : Decidable (cfg.Sound s a) := by
  unfold Sound
  split <;> infer_instance

/-! ## The requests -/

variable {cfg} {s : Server} {sessions : List Name} {w : World} {name : Name}

theorem Inv.mem_served (h : cfg.Inv s sessions) {db : DbName} (hSome : (s.world.backends db).isSome) :
    ∃ d ∈ cfg.served s, d.name = db ∧ ∀ q, cfg.asked s.world.databases db q = granted d.grants q := by
  obtain ⟨d, hSpec⟩ := Option.isSome_iff_exists.mp (h.listed db hSome)
  obtain ⟨hIn, hName⟩ := specOf_some hSpec
  refine ⟨d, List.mem_filter.mpr ⟨hIn, hName ▸ hSome⟩, hName, fun q => ?_⟩
  rw [asked, hSpec]
  rfl

theorem handleCreate_inv (h : cfg.Inv s sessions) (hControl : cfg.controlPlane = true) (spec : Spec) (opens : Bool)
    (hTemplate : s.world.backends spec.name = none →
      ∀ r ∈ cfg.rows s.table, granted cfg.enroll.grants spec.name ≤ granted spec.grants r.name) :
    cfg.Inv (cfg.handleCreate s spec opens) sessions := by
  unfold handleCreate
  cases hValid : cfg.env.validates spec && cfg.env.builds spec with
  | false =>
    rw [create_invalid hValid]
    exact h
  | true =>
    cases hBackend : s.world.backends spec.name with
    | some be =>
      rw [create_exists hValid (by rw [hBackend]; rfl)]
      exact h
    | none =>
      cases opens with
      | false =>
        obtain ⟨w, hCreate, hSame⟩ := create_unopened hValid hBackend (h.idle _ hBackend) true
        rw [hCreate]
        exact h.same hSame
      | true =>
        obtain ⟨w, hCreate, hBackends, hEntries, hDatabases⟩ := create_opened hValid hBackend
        rw [hCreate]
        refine h.opened hControl (Bool.and_eq_true_iff.mp hValid).1 hBackends hEntries hDatabases
          ((isOpen_grantAll _).trans h.closed) (fun db hNe q => ?_) (fun q _ => ?_)
        · rw [rank_grantAll, if_neg hNe, Policy.rank_revoke, if_neg hNe]
        · rw [rank_grantAll, if_pos rfl, Policy.rank_revoke, if_pos rfl, Nat.zero_max]
          refine (Nat.max_eq_left ?_).symm
          rw [template]
          split
          · rename_i hEnrolled
            obtain ⟨r, hr, rfl⟩ := hEnrolled
            exact hTemplate hBackend r hr
          · exact Nat.zero_le _

theorem handleDetach_inv (h : cfg.Inv s sessions) (hControl : cfg.controlPlane = true) (gone : DbName) :
    cfg.Inv (cfg.handleDetach s gone) sessions := by
  unfold handleDetach
  rcases Classical.em (s.world.Removable gone) with hRemovable | hNot
  · obtain ⟨w, hDrop, hBackends, hEntries, hDatabases⟩ := drop_places cfg.env hRemovable false true (fun _ => false)
    rw [hDrop]
    refine h.dropped hControl hBackends hEntries hDatabases h.closed fun db hNe q => ?_
    rw [Policy.rank_revoke, if_neg hNe]
  · obtain ⟨e, hDrop, -⟩ := drop_error cfg.env hNot false true (fun _ => false)
    rw [hDrop]
    exact h

theorem deleteRow_inv (h : cfg.Inv s sessions) (kept : Path → Bool)
    (hUnpromised : Enrolled s.table name → cfg.Lasting sessions name →
      ∀ db, (s.world.backends db).isSome → cfg.asked s.world.databases db name = 0) :
    cfg.Inv (deleteRow s name ⟨true, true, kept⟩).2 sessions := by
  rw [deleteRow, if_neg Bool.noConfusion]
  split
  · rename_i hEnrolled
    refine h.purge ?_ _ (hUnpromised hEnrolled)
    obtain ⟨r, hr, rfl⟩ := hEnrolled
    rw [h.named r hr]
    exact cfg.reserved r.key
  · exact h

theorem delete_inv (h : cfg.Inv s sessions) (hControl : cfg.controlPlane = true) (kept : Path → Bool)
    (hUnpromised : Enrolled s.table name → cfg.Lasting sessions name → ∀ d ∈ cfg.served s, granted d.grants name = 0 ∨
      (cfg.enroll.provision = true ∧ cfg.enroll.drop = true ∧ d.name = cfg.enroll.provisionName name)) :
    cfg.Inv (delete cfg.env cfg.enroll s name ⟨true, true, kept⟩).2 sessions := by
  -- nothing is dropped that the condition leaves out
  have hKept : (cfg.enroll.provision = true → cfg.enroll.drop = true →
      s.world.backends (cfg.enroll.provisionName name) = none) →
      cfg.Inv (deleteRow s name ⟨true, true, kept⟩).2 sessions := by
    intro hNone
    refine deleteRow_inv h kept fun hEnrolled hSession db hSome => ?_
    obtain ⟨d, hd, rfl, hAsked⟩ := h.mem_served hSome
    rw [hAsked]
    refine (hUnpromised hEnrolled hSession d hd).resolve_right fun ⟨hProvision, hDrop, hName⟩ => ?_
    rw [hName, hNone hProvision hDrop] at hSome
    cases hSome
  unfold delete dropFirst
  cases hBoth : cfg.enroll.provision && cfg.enroll.drop with
  | false =>
    refine hKept fun hProvision hDrop => ?_
    rw [hProvision, hDrop] at hBoth
    cases hBoth
  | true =>
    dsimp only [if_true]
    cases hBackend : s.world.backends (cfg.enroll.provisionName name) with
    | none =>
      rw [if_pos rfl, drop_of_error cfg.env (remove_unknown hBackend)]
      exact hKept fun _ _ => hBackend
    | some be =>
      have hSome : (s.world.backends (cfg.enroll.provisionName name)).isSome := by
        rw [hBackend]
        rfl
      rcases Classical.em (s.world.Removable (cfg.enroll.provisionName name)) with hRemovable | hNot
      · obtain ⟨w, hDrop, hBackends, hEntries, hDatabases⟩ := drop_places cfg.env hRemovable true true kept
        rw [if_pos rfl, hDrop]
        have hDropped : cfg.Inv { s with world := w } sessions :=
          h.dropped hControl hBackends hEntries hDatabases h.closed fun _ _ _ => rfl
        refine deleteRow_inv hDropped kept fun hEnrolled hSession db hServed => ?_
        obtain ⟨hNe, hOld⟩ := served_of_dropped hBackends hServed
        obtain ⟨d, hd, rfl, hAsked⟩ := h.mem_served hOld
        dsimp only
        rw [asked, specOf_dropped hControl hDatabases hNe, ← asked, hAsked]
        exact (hUnpromised hEnrolled hSession d hd).resolve_right fun ⟨_, _, hName⟩ => hNe hName
      · rw [if_pos rfl, drop_of_error cfg.env (remove_busy hSome hNot)]
        exact h

theorem provisionFor_fails (h : cfg.Inv s sessions) {opens : Bool} (hFails : cfg.provisionFails s name opens = true) :
    ∃ e w, cfg.provisionFor s name opens = (.error e, { s with world := w }) ∧ s.world.Same w := by
  unfold provisionFor
  cases hValid : cfg.env.validates (cfg.provisionSpec name) && cfg.env.builds (cfg.provisionSpec name) with
  | false =>
    rw [create_invalid hValid]
    exact ⟨_, _, rfl, rfl, rfl, rfl⟩
  | true =>
    have hUnopened : (s.world.backends (cfg.enroll.provisionName name)).isNone = true ∧ opens = false := by
      change (!(cfg.env.validates (cfg.provisionSpec name) && cfg.env.builds (cfg.provisionSpec name)) || _) = true
        at hFails
      rw [hValid] at hFails
      simpa using hFails
    obtain ⟨hNone, rfl⟩ := hUnopened
    have hFree := Option.isNone_iff_eq_none.mp hNone
    obtain ⟨w, hCreate, hSame⟩ := create_unopened hValid hFree (h.idle _ hFree) true
    rw [hCreate]
    exact ⟨_, w, rfl, hSame⟩

theorem provisionFor_inv (h : cfg.Inv s sessions) (hControl : cfg.controlPlane = true) {opens : Bool}
    (hFails : cfg.provisionFails s name opens = false)
    (hOld : (s.world.backends (cfg.enroll.provisionName name)).isSome →
      cfg.enroll.provisionLevel.elim 0 Level.rank ≤
        (cfg.load s.world.databases s.table).rank (cfg.enroll.provisionName name) name)
    (hNew : s.world.backends (cfg.enroll.provisionName name) = none → ∀ q, cfg.Concerns s.table sessions q →
      (grantProvision cfg.enroll s.policy name).rank (cfg.enroll.provisionName name) q =
        max (granted (cfg.provisionSpec name).grants q) (cfg.template s.table (cfg.enroll.provisionName name) q)) :
    ∃ t, cfg.provisionFor s name opens = (.ok (), t) ∧ cfg.Inv t sessions := by
  obtain ⟨hInvalid, hOpens⟩ := Bool.or_eq_false_iff.mp hFails
  have hValid : (cfg.env.validates (cfg.provisionSpec name) && cfg.env.builds (cfg.provisionSpec name)) = true := by
    change (cfg.validates _ && cfg.builds _) = true
    simpa using hInvalid
  unfold provisionFor
  cases hBackend : s.world.backends (cfg.enroll.provisionName name) with
  | some be =>
    have hSome : (s.world.backends (cfg.enroll.provisionName name)).isSome := by
      rw [hBackend]
      rfl
    rw [create_exists hValid hSome]
    exact ⟨_, rfl, h.raise cfg.enroll.provisionLevel hOld⟩
  | none =>
    have hOpened : opens = true := by
      rw [hBackend] at hOpens
      simpa using hOpens
    rw [hOpened]
    obtain ⟨w, hCreate, hBackends, hEntries, hDatabases⟩ := create_opened hValid hBackend
    rw [hCreate]
    refine ⟨_, rfl, h.opened hControl (Bool.and_eq_true_iff.mp hValid).1 hBackends hEntries hDatabases
      ((Policy.isOpen_grantParsed _ _).trans h.closed) (fun db hNe q => ?_) (hNew hBackend)⟩
    rw [grantProvision, Policy.rank_grantParsed, if_neg fun hBoth => hNe hBoth.1]

theorem mem_of_concerns {table : List Row} {q : String} (h : cfg.Concerns table sessions q) :
    q ∈ wildcard :: cfg.principals ++ (cfg.rows table).map Row.name ++ cfg.rosterNames ++ sessions := by
  simp only [List.mem_append, List.mem_cons]
  rcases h with rfl | hStatic | ⟨r, hr, rfl⟩ | hRoster | hSession
  · simp
  · simp [hStatic]
  · exact .inl (.inl (.inr (List.mem_map_of_mem hr)))
  · simp [hRoster]
  · simp [hSession]

theorem provisioned_rank (hEnrolls : cfg.enrolls = true) {key : Key} {q : String}
    (h : cfg.Provisionable ⟨s, sessions⟩ (cfg.enroll.principalName key))
    (hFree : s.world.backends (cfg.enroll.provisionName (cfg.enroll.principalName key)) = none)
    (hq : cfg.Concerns (cfg.putEnrolled s key).table sessions q) :
    (grantProvision cfg.enroll (cfg.putEnrolled s key).policy (cfg.enroll.principalName key)).rank
        (cfg.enroll.provisionName (cfg.enroll.principalName key)) q =
      max (granted (cfg.provisionSpec (cfg.enroll.principalName key)).grants q)
        (cfg.template (cfg.putEnrolled s key).table (cfg.enroll.provisionName (cfg.enroll.principalName key)) q) := by
  obtain ⟨hSelf, hOthers⟩ := h.2 hFree
  rw [grantProvision, Policy.rank_grantParsed, rank_put, provisionSpec, granted, granted]
  rcases Decidable.em (q = cfg.enroll.principalName key) with rfl | hNe
  · rw [if_pos ⟨rfl, rfl⟩, if_pos rfl, if_pos rfl, template_put_self hEnrolls]
    dsimp only at hSelf ⊢
    omega
  · rw [if_neg fun hBoth => hNe hBoth.2, if_neg hNe, if_neg (Ne.symm hNe), template_put_of_ne hEnrolls hNe]
    have hRank := hOthers q (mem_of_concerns (concerns_put_of_ne hEnrolls hNe hq)) hNe
    dsimp only at hRank
    rw [hRank, Nat.max_self, Nat.zero_max]

theorem provision_inv (h : cfg.Inv s sessions) (hEnrolls : cfg.enrolls = true) {key : Key} {opens : Bool}
    (hPut : cfg.Inv (cfg.putEnrolled s key) sessions)
    (hSound : if cfg.provisionFails s (cfg.enroll.principalName key) opens then
        cfg.Unpromised ⟨s, sessions⟩ (cfg.enroll.principalName key)
      else cfg.Provisionable ⟨s, sessions⟩ (cfg.enroll.principalName key)) :
    cfg.Inv (match cfg.provisionFor (cfg.putEnrolled s key) (cfg.enroll.principalName key) opens with
      | (.ok _, t) => t
      | (.error _, t) => rollbackEnroll t (cfg.enroll.principalName key)) sessions := by
  cases hFails : cfg.provisionFails s (cfg.enroll.principalName key) opens with
  | true =>
    rw [hFails, if_pos rfl] at hSound
    obtain ⟨e, w, hFor, hSame⟩ := provisionFor_fails hPut hFails
    rw [hFor]
    refine (hPut.same hSame).purge (cfg.reserved key) _ fun hSession db hSome => ?_
    dsimp only at hSome ⊢
    rw [hSame.backends] at hSome
    rw [hSame.databases]
    obtain ⟨d, hd, rfl, hAsked⟩ := h.mem_served hSome
    exact (hAsked _).trans (hSound hSession d hd)
  | false =>
    rw [hFails, if_neg Bool.false_ne_true] at hSound
    have hOld : (s.world.backends (cfg.enroll.provisionName (cfg.enroll.principalName key))).isSome →
        cfg.enroll.provisionLevel.elim 0 Level.rank ≤
          (cfg.load s.world.databases (cfg.putEnrolled s key).table).rank
            (cfg.enroll.provisionName (cfg.enroll.principalName key)) (cfg.enroll.principalName key) := by
      intro hSome
      obtain ⟨d, hd, hName, hAsked⟩ := h.mem_served hSome
      rw [rank_load, template_put_self hEnrolls, hAsked]
      exact hSound.1 d hd hName
    obtain ⟨t, hFor, hInv⟩ := provisionFor_inv hPut (cfg.enrollsControlled hEnrolls) hFails hOld
      fun hFree q hq => provisioned_rank hEnrolls hSound hFree hq
    rw [hFor]
    exact hInv

theorem serveEnroll_inv (h : cfg.Inv s sessions) (hEnrolls : cfg.enrolls = true) {key : Key} {passes opens : Bool}
    (hSound : cfg.Sound ⟨s, sessions⟩ (.enroll key passes opens)) :
    cfg.Inv (cfg.serveEnroll s key passes opens) sessions := by
  unfold serveEnroll
  dsimp only
  split
  · exact h
  · rename_i hNew
    obtain ⟨hGrants, hProvision⟩ := hSound (Option.not_isSome_iff_eq_none.mp hNew)
    have hPut : cfg.Inv (cfg.putEnrolled s key) sessions := by
      refine h.put hEnrolls key fun db hSome => ?_
      obtain ⟨d, hd, rfl, hAsked⟩ := h.mem_served hSome
      rw [hAsked]
      exact hGrants d hd
    split
    · exact h
    · split
      · exact hPut
      · rename_i hOn
        split
        · -- the row has just been written
          rename_i hNone
          have hFound : (enrolledByKey (cfg.putEnrolled s key).table key).isSome := by
            refine List.find?_isSome.mpr ⟨⟨cfg.enroll.principalName key, key⟩, ?_, decide_eq_true rfl⟩
            exact List.mem_append_right _ (List.mem_singleton_self _)
          rw [Option.isNone_iff_eq_none.mp hNone] at hFound
          cases hFound
        · exact provision_inv h hEnrolls hPut (hProvision (by simpa using hOn))

/-! ## Runs -/

theorem enrolled_of_load {rows : List Row} {dyn : Key → Option Name} {key : Key}
    (h : rows.foldl (fun dyn r => addKeyring cfg.enroll dyn r.key r.name) dyn key = some name) :
    dyn key = some name ∨ Enrolled rows name := by
  induction rows generalizing dyn with
  | nil => exact .inl h
  | cons r rest ih =>
    rcases ih h with hAdded | ⟨r', hr', hName⟩
    · exact (addKeyring_some hAdded).imp_right fun hName => ⟨r, List.mem_cons_self, hName⟩
    · exact .inr ⟨r', List.mem_cons_of_mem _ hr', hName⟩

theorem start_inv (created : List Spec) (keys : List Key) (files : Path → Bool) (sessions : List Name)
    (hConfigured : cfg.authConfigured = true) : cfg.Inv (cfg.start created keys files sessions).server sessions where
  closed := load_closed hConfigured
  idle := fun _ _ => rfl
  listed := fun db hSome => by
    change ((specOf (cfg.reconcile created) db).map _).isSome = true at hSome
    rw [Option.isSome_map] at hSome
    exact hSome
  named := fun r hr => by
    obtain ⟨key, -, rfl⟩ := List.mem_map.mp hr
    rfl
  keyring := fun key name hKey => (enrolled_of_load hKey).resolve_left (fun hNone => by cases hNone)
  agrees := fun _ _ _ _ => rfl

theorem step_inv {s t : Running} {a : Action} (h : cfg.Inv s.server s.sessions) (hSound : cfg.Sound s a)
    (hStep : cfg.step s a = some t) : cfg.Inv t.server t.sessions := by
  cases a with
  | create spec opens =>
    obtain ⟨hControl, hEq⟩ := Option.ite_none_right_eq_some.mp hStep
    cases hEq
    exact handleCreate_inv h hControl spec opens hSound
  | detach name =>
    obtain ⟨hControl, hEq⟩ := Option.ite_none_right_eq_some.mp hStep
    cases hEq
    exact handleDetach_inv h hControl name
  | enroll key passes opens =>
    obtain ⟨hEnrolls, hEq⟩ := Option.ite_none_right_eq_some.mp hStep
    cases hEq
    exact serveEnroll_inv h hEnrolls hSound
  | delete name kept =>
    obtain ⟨hEnrolls, hEq⟩ := Option.ite_none_right_eq_some.mp hStep
    cases hEq
    exact delete_inv h (cfg.enrollsControlled hEnrolls) kept hSound
  | login name =>
    obtain ⟨hKnown, hEq⟩ := Option.ite_none_right_eq_some.mp hStep
    cases hEq
    refine h.withSessions fun q hq => ?_
    rcases List.mem_cons.mp hq with rfl | hOld
    · exact .inr (hKnown.imp_right fun hRoster => .inr (.inl hRoster))
    · exact .inr (.inr (.inr (.inr hOld)))
  | loginKey key =>
    obtain ⟨name, hKey, rfl⟩ := Option.map_eq_some_iff.mp hStep
    refine h.withSessions fun q hq => ?_
    rcases List.mem_cons.mp hq with rfl | hOld
    · exact .inr (.inr (.inl (h.keyring key q hKey)))
    · exact .inr (.inr (.inr (.inr hOld)))
  | lapse name =>
    cases hStep
    exact h.withSessions fun q hq => .inr (.inr (.inr (.inr (List.mem_filter.mp hq).1)))
  | users name entry =>
    obtain ⟨hSome, hEq⟩ := Option.ite_none_right_eq_some.mp hStep
    cases hEq
    refine ⟨h.closed, fun db hNone => ?_, h.listed, h.named, h.keyring, h.agrees⟩
    have hNe : db ≠ name := by
      rintro rfl
      rw [hNone] at hSome
      cases hSome
    exact (Function.update_of_ne hNe _ _).trans (h.idle db hNone)

theorem Inv.survives {s : Running} (h : cfg.Inv s.server s.sessions) (hConfigured : cfg.authConfigured = true) :
    cfg.Survives s := by
  intro db hSome name hName
  refine level_eq_of_rank h.closed (load_closed hConfigured) (h.agrees db hSome wildcard (.inl rfl)) fun hNe => ?_
  refine h.agrees db hSome name ?_
  rcases hName with hEmpty | hStatic | ⟨key, hKey⟩ | ⟨key, hKey⟩ | hSession
  · exact absurd hEmpty hNe
  · exact .inr (.inl hStatic)
  · exact .inr (.inr (.inr (.inl (loadRoster_mem hKey))))
  · exact .inr (.inr (.inl (h.keyring key name hKey)))
  · exact .inr (.inr (.inr (.inr hSession)))

end Config

/-- Levels are the same after a restart if every request keeps the grants that a restart
finds, and no others. -/
theorem authorization_survives_restart (cfg : Config) (hConfigured : cfg.authConfigured = true) (created : List Spec)
    (keys : List Key) (files : Path → Bool) (sessions : List Name) (actions : List Action)
    (hSound : Guarded cfg.step cfg.Sound (cfg.start created keys files sessions) actions) :
    Always cfg.step cfg.Survives (cfg.start created keys files sessions) actions := by
  have hAlways : Always cfg.step (fun s => cfg.Inv s.server s.sessions) (cfg.start created keys files sessions) actions :=
    always_of_guarded (fun s a t h hCond hStep => Config.step_inv h hCond hStep)
      (Config.start_inv created keys files sessions hConfigured) hSound
  exact hAlways.mono fun s h => h.survives hConfigured

/-- Every enrolled principal may read `app` and gets a database of its own; key r is on the
roster. -/
def selfService : Config where
  principals := ["root"]
  authorizedKeys := [("r", "ops")]
  admins := ["root"]
  controlPlane := true
  databases := []
  feed := false
  validates := fun _ => true
  builds := fun _ => true
  enrolls := true
  enroll := { bareConfig with
    static := fun key => key = "r"
    grants := [("app", some .readOnly)]
    provision := true
    provisionName := fun principal => "db-" ++ principal
    provisionLevel := some .readWrite
    drop := true }
  provisionPath := fun name => some (name ++ ".db")
  distinct := List.nodup_nil
  unreserved := by decide
  reserved := hasEnrolledPrefix_append
  rosterStatic := fun key h => by
    rcases Decidable.em (key = "r") with rfl | hNe
    · rfl
    · simp [loadRoster, rosterLine, hNe] at h
  adminsKnown := by decide
  adminsSome := fun _ => by decide
  enrollsControlled := fun _ => rfl

/-- A database for everybody, an enrollment, one that fails, and a principal that is deleted
with its session still open. -/
theorem enrolled_and_deleted_survives :
    Always selfService.step selfService.Survives (selfService.start [] [] (fun _ => false) [])
      [.create ⟨"app", some "app.db", [("root", some .admin), ("*", some .readOnly)]⟩ true, .enroll "k" true true,
        .loginKey "k", .enroll "l" true false, .detach "app", .login "ops", .delete "u_k" (fun _ => false)] :=
  authorization_survives_restart selfService rfl [] [] (fun _ => false) [] _ (by decide +kernel)

/-- A database that the template names is created after somebody enrolled. -/
def lateDatabase : List Action := [.enroll "k" true true, .create ⟨"app", some "app.db", []⟩ true]

theorem late_database_forgets_template :
    ¬ Always selfService.step selfService.Survives (selfService.start [] [] (fun _ => false) []) lateDatabase := by
  intro hAlways
  have hLevels : (run selfService.step (selfService.start [] [] (fun _ => false) []) lateDatabase).map
      (fun s => (s.server.dynKeyring "k", (s.server.world.backends "app").isSome, s.server.policy.level "u_k" "app",
        (selfService.load s.server.world.databases s.server.table).level "u_k" "app")) =
      some (some "u_k", true, .none, .readOnly) := by
    decide +kernel
  obtain ⟨s, hs, hEq⟩ := Option.map_eq_some_iff.mp hLevels
  simp only [Prod.mk.injEq] at hEq
  obtain ⟨hKey, hServed, hLive, hRestart⟩ := hEq
  have hSame := hAlways.final hs "app" hServed "u_k" (.inr (.inr (.inr (.inl ⟨"k", hKey⟩))))
  rw [hLive, hRestart] at hSame
  cases hSame

end QuicSql.Serverd
