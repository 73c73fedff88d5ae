import QuicSql.Authz.Policy
import QuicSql.Lib.Mutex
import QuicSql.Lib.Transition

/-!
# Enrollment

Three stores hold an enrolled principal: the table, the authenticator's dynamic keyring and
the policy. An enrollment updates them inside the section of the service's mutex and may
provision a database under the gate of the principal; a deletion takes the gate only. Calls
are split at both locks, at every call of the meta store and between the updates of the
three stores. A request has passed the rate limit and its proof of possession; an idle reap
is a series of deletions.
-/

namespace QuicSql.Enroll

open Authz Lib

abbrev Key := String

abbrev Name := String

abbrev Hash := String

def enrolledPrefix : String := "u_"

def hasEnrolledPrefix (name : Name) : Bool := enrolledPrefix.toList.isPrefixOf name.toList

theorem hasEnrolledPrefix_append (key : Key) : hasEnrolledPrefix ("u_" ++ key) = true := by
  simp [hasEnrolledPrefix, enrolledPrefix]

structure Row where
  name : Name
  key : Key
deriving DecidableEq, Repr

structure Code where
  hash : Hash
  expiresAt : Int
  usedAt : Option Int
deriving DecidableEq, Repr

/-- A grant of the template whose level does not parse is skipped. `static` are the keys of
the configured keyring, `tokens` the shared enrollment tokens. -/
structure Config where
  principalName : Key → Name
  static : Key → Bool
  grants : List (DbName × Option Level)
  tokenPolicy : Bool
  tokens : List Hash
  codesEnabled : Bool
  codesTTL : Int
  maxPrincipals : Int
  provision : Bool
  provisionName : Name → DbName
  provisionLevel : Option Level
  drop : Bool

/-- Open enrollment, without a template, codes or provisioning. -/
def bareConfig : Config where
  principalName := fun key => "u_" ++ key
  static := fun _ => false
  grants := []
  tokenPolicy := false
  tokens := []
  codesEnabled := false
  codesTTL := 0
  maxPrincipals := 0
  provision := false
  provisionName := fun name => name
  provisionLevel := none
  drop := false

inductive Answer where
  | created (name : Name)
  | existing (name : Name)
  | denied
  | failed
  | deleted (existed : Bool)
  | notDeleted
  | code
deriving DecidableEq, Repr

/-- Where a call stands, named by what it does next. A consumed code is carried along. -/
inductive Call where
  | arrived (key : Key) (token : Option Hash)
  | looking (key : Key) (token : Option Hash)
  | checking (key : Key) (token : Option Hash)
  | consuming (key : Key) (code : Hash)
  | putting (key : Key) (code : Option Hash)
  | adding (key : Key) (code : Option Hash)
  | granting (key : Key) (code : Option Hash)
  | unwinding (code : Hash)
  | enrolled (key : Key) (code : Option Hash)
  | confirming (key : Key) (code : Option Hash)
  | provisioning (key : Key) (code : Option Hash)
  | failing (key : Key) (code : Option Hash)
  | rollingBack (key : Key) (code : Option Hash)
  | purging (key : Key) (code : Option Hash)
  | releasing (key : Key) (code : Hash)
  | deleteArrived (name : Name)
  | dropping (name : Name)
  | deleting (name : Name)
  | removing (name : Name)
  | revoking (name : Name)
  | discounting (name : Name)
  | sweeping (code : Hash) (now : Int)
  | storing (code : Hash) (now : Int)
  | returned (answer : Answer)
deriving DecidableEq, Repr

inductive Lock where
  | mu
  | gate (name : Name)
deriving DecidableEq, Repr

def Call.locks (cfg : Config) : Call → List Lock
  | .looking .. | .checking .. | .consuming .. | .putting .. | .adding .. | .granting .. => [.mu]
  | .confirming key _ | .provisioning key _ | .failing key _ | .releasing key _ => [.gate (cfg.principalName key)]
  | .rollingBack key _ | .purging key _ => [.gate (cfg.principalName key), .mu]
  | .dropping name | .deleting name | .removing name | .revoking name | .discounting name => [.gate name]
  | _ => []

structure Service where
  table : List Row
  codes : List Code
  dynKeyring : Key → Option Name
  policy : Policy
  count : Int
  clock : Int
  calls : List Call

/-! ## The stores -/

def enrolledByKey (table : List Row) (key : Key) : Option Row := table.find? (fun r => r.key = key)

def Enrolled (table : List Row) (name : Name) : Prop := ∃ r ∈ table, r.name = name

instance (table : List Row) (name : Name) : Decidable (Enrolled table name) :=
  inferInstanceAs (Decidable (∃ r ∈ table, r.name = name))

def deleteEnrolled (table : List Row) (name : Name) : List Row := table.filter (fun r => r.name ≠ name)

/-- Names and keys are unique in the table. -/
def conflicts (table : List Row) (row : Row) : Bool := table.any (fun r => r.name = row.name || r.key = row.key)

def Code.valid (c : Code) (now : Int) : Bool := c.usedAt = none && decide (now < c.expiresAt)

def codeValid (codes : List Code) (hash : Hash) (now : Int) : Bool := codes.any (fun c => c.hash = hash && c.valid now)

def consume (codes : List Code) (hash : Hash) (now : Int) : List Code :=
  codes.map (fun c => if c.hash = hash && c.valid now then { c with usedAt := some now } else c)

def release (codes : List Code) (hash : Hash) : List Code :=
  codes.map (fun c => if c.hash = hash then { c with usedAt := none } else c)

def sweep (codes : List Code) (now : Int) : List Code := codes.filter (fun c => c.valid now)

/-- A statically configured key is left alone. -/
def addKeyring (cfg : Config) (dyn : Key → Option Name) (key : Key) (name : Name) : Key → Option Name :=
  if cfg.static key then dyn else Function.update dyn key (some name)

def removeKeyringName (dyn : Key → Option Name) (name : Name) (key : Key) : Option Name :=
  (dyn key).filter (fun n => n ≠ name)

def applyGrants (grants : List (DbName × Option Level)) (p : Policy) (name : Name) : Policy :=
  grants.foldl (fun p g => p.grantParsed g.1 name g.2) p

def grantProvision (cfg : Config) (p : Policy) (name : Name) : Policy :=
  p.grantParsed (cfg.provisionName name) name cfg.provisionLevel

/-! ## Calls -/

namespace Service

inductive Action where
  | enroll (key : Key) (token : Option Hash)
  | delete (name : Name)
  | mintCode (code : Hash)
  | tick (d : Nat)
  /-- Call `i` takes its next step; `ok` tells whether the store or the provisioner answers
  without an error there. -/
  | step (i : Nat) (ok : Bool)

def goto (s : Service) (i : Nat) (c : Call) : Service := { s with calls := s.calls.set i c }

def acquire (cfg : Config) (s : Service) (i : Nat) (l : Lock) (c : Call) : Option Service :=
  if Free (Call.locks cfg) s.calls l then some (s.goto i c) else none

/-- A result of none denies; a single-use code is to be consumed. -/
def validateToken (cfg : Config) (s : Service) (ok : Bool) : Option Hash → Option (Option Hash)
  | none => none
  | some hash =>
    if hash ∈ cfg.tokens then some none
    else if cfg.codesEnabled && ok && codeValid s.codes hash s.clock then some (some hash) else none

def check (cfg : Config) (s : Service) (ok : Bool) (key : Key) (token : Option Hash) : Call :=
  match if cfg.tokenPolicy then validateToken cfg s ok token else some none with
  | none => .returned .denied
  | some code =>
    if 0 < cfg.maxPrincipals ∧ cfg.maxPrincipals ≤ s.count then .returned .denied
    else
      match code with
      | some hash => .consuming key hash
      | none => .putting key none

/-- After a rollback, or a failed insertion, the consumed code is released. -/
def afterPut (code : Option Hash) : Call :=
  match code with
  | some hash => .unwinding hash
  | none => .returned .failed

def afterPurge (key : Key) (code : Option Hash) : Call :=
  match code with
  | some hash => .releasing key hash
  | none => .returned .failed

def afterGrants (cfg : Config) (key : Key) (code : Option Hash) : Call :=
  if cfg.provision then .enrolled key code else .returned (.created (cfg.principalName key))

def advance (cfg : Config) (s : Service) (i : Nat) (ok : Bool) : Call → Option Service
  | .arrived key token => acquire cfg s i .mu (.looking key token)
  | .looking key token =>
    if ok then
      match enrolledByKey s.table key with
      | some row => some (s.goto i (.returned (.existing row.name)))
      | none => some (s.goto i (.checking key token))
    else some (s.goto i (.returned .failed))
  | .checking key token => some (s.goto i (check cfg s ok key token))
  | .consuming key hash =>
    if ok then
      if codeValid s.codes hash s.clock then
        some { s.goto i (.putting key (some hash)) with codes := consume s.codes hash s.clock }
      else some (s.goto i (.returned .denied))
    else some (s.goto i (.returned .failed))
  | .putting key code =>
    if ok ∧ conflicts s.table ⟨cfg.principalName key, key⟩ = false then
      some { s.goto i (.adding key code) with table := s.table ++ [⟨cfg.principalName key, key⟩] }
    else some (s.goto i (afterPut code))
  | .adding key code =>
    some { s.goto i (.granting key code) with
      dynKeyring := addKeyring cfg s.dynKeyring key (cfg.principalName key) }
  | .granting key code =>
    some { s.goto i (afterGrants cfg key code) with
      policy := applyGrants cfg.grants s.policy (cfg.principalName key)
      count := s.count + 1 }
  | .unwinding hash =>
    some { s.goto i (.returned .failed) with codes := if ok then release s.codes hash else s.codes }
  | .enrolled key code => acquire cfg s i (.gate (cfg.principalName key)) (.confirming key code)
  | .confirming key code =>
    if ok ∧ (enrolledByKey s.table key).isSome then some (s.goto i (.provisioning key code))
    else some (s.goto i (.failing key code))
  | .provisioning key code =>
    if ok then
      some { s.goto i (.returned (.created (cfg.principalName key))) with
        policy := grantProvision cfg s.policy (cfg.principalName key) }
    else some (s.goto i (.failing key code))
  | .failing key code => acquire cfg s i .mu (.rollingBack key code)
  | .rollingBack key code =>
    if ok ∧ Enrolled s.table (cfg.principalName key) then
      some { s.goto i (.purging key code) with
        table := deleteEnrolled s.table (cfg.principalName key)
        count := s.count - 1 }
    else some (s.goto i (.purging key code))
  | .purging key code =>
    some { s.goto i (afterPurge key code) with
      dynKeyring := removeKeyringName s.dynKeyring (cfg.principalName key)
      policy := s.policy.revokePrincipal (cfg.principalName key) }
  | .releasing _ hash =>
    some { s.goto i (.returned .failed) with codes := if ok then release s.codes hash else s.codes }
  | .deleteArrived name => acquire cfg s i (.gate name) (.dropping name)
  | .dropping name =>
    if cfg.provision && cfg.drop && !ok then some (s.goto i (.returned .notDeleted))
    else some (s.goto i (.deleting name))
  | .deleting name =>
    if ok then
      if Enrolled s.table name then
        some { s.goto i (.removing name) with table := deleteEnrolled s.table name }
      else some (s.goto i (.returned (.deleted false)))
    else some (s.goto i (.returned .notDeleted))
  | .removing name =>
    some { s.goto i (.revoking name) with dynKeyring := removeKeyringName s.dynKeyring name }
  | .revoking name =>
    some { s.goto i (.discounting name) with policy := s.policy.revokePrincipal name }
  | .discounting _ =>
    if Free (Call.locks cfg) s.calls .mu then
      some { s.goto i (.returned (.deleted true)) with count := s.count - 1 }
    else none
  | .sweeping code now =>
    some { s.goto i (.storing code now) with codes := if ok then sweep s.codes now else s.codes }
  | .storing code now =>
    if ok ∧ ¬ ∃ c ∈ s.codes, c.hash = code then
      some { s.goto i (.returned .code) with codes := s.codes ++ [⟨code, now + cfg.codesTTL, none⟩] }
    else some (s.goto i (.returned .failed))
  | .returned _ => none

def start (s : Service) (c : Call) : Service := { s with calls := s.calls ++ [c] }

def step (cfg : Config) (s : Service) : Action → Option Service
  | .enroll key token => some (s.start (.arrived key token))
  | .delete name => some (s.start (.deleteArrived name))
  | .mintCode code => if cfg.codesEnabled then some (s.start (.sweeping code s.clock)) else none
  | .tick d => some { s with clock := s.clock + d }
  | .step i ok => s.calls[i]?.bind (advance cfg s i ok)

def Quiescent (s : Service) : Prop := ∀ c ∈ s.calls, ∃ answer, c = .returned answer

/-- `LoadExisting` over the rows of the given keys, all of which decode. -/
def loadExisting (cfg : Config) (base : Policy) (keys : List Key) (codes : List Code) (now : Int) : Service where
  table := keys.map (fun key => ⟨cfg.principalName key, key⟩)
  codes := codes
  dynKeyring := keys.foldl (fun dyn key => addKeyring cfg dyn key (cfg.principalName key)) (fun _ => none)
  policy := keys.foldl (fun p key => applyGrants cfg.grants p (cfg.principalName key)) base
  count := keys.length
  clock := now
  calls := []

end Service

end QuicSql.Enroll
