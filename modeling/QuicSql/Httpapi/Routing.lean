import QuicSql.Lib.Path
import Mathlib.Data.List.DropRight

/-!
# Which database a request is for

A request names its database by the first segment of its path, by its host, or not at all, in
which case there may be a default. Paths under `/_` belong to the server and are looked at
before that. The client of this repository always names the database by the path.
-/

namespace QuicSql.Routing

open Lib

abbrev Text := List Char

def slash : Paths Char := ⟨'/', '.', by decide⟩

/-! ## Names -/

def reserved : List Text :=
  ["_server", "_meta", "_admin", "_auth", "_health", "_metrics"].map String.toList

def endpointTokens : List Text :=
  ["query", "v2", "v3", "export", "backup", "changeset", "blob", "changes"].map String.toList

def isEndpointToken (s : Text) : Bool := endpointTokens.contains s

def inRange (low high c : Char) : Bool := decide (low.toNat ≤ c.toNat) && decide (c.toNat ≤ high.toNat)

def isNameChar (c : Char) : Bool :=
  inRange 'a' 'z' c || inRange 'A' 'Z' c || inRange '0' '9' c || c == '-' || c == '.' || c == '_'

def validDBName (s : Text) : Bool :=
  if s == [] || s == ['.'] || s == ['.', '.'] then false
  else if ['_'].isPrefixOf s || reserved.contains s then false
  else if endpointTokens.contains s then false
  else s.all isNameChar

/-! ## The handler -/

structure Route where
  byPath : Bool
  byHost : Bool
  hostSuffix : Text
  defaultDB : Text
deriving DecidableEq

/-- What the router reads of a request; the path is the decoded one, without the query. -/
structure Request where
  path : Text
  host : Text
deriving DecidableEq

inductive BlobOp where
  | provision
  | create
  | write
  | read
  | size
  | delete
deriving DecidableEq

inductive Endpoint where
  | query
  | exportDB
  | backup
  | changesetApply
  | changesetInvert
  | changesetConcat
  | blob (op : BlobOp)
  | pipeline
  | probe
  | cursor
  | changes
deriving DecidableEq

def endpoints : List (Text × Endpoint) :=
  [("/query".toList, .query), ("/export".toList, .exportDB), ("/backup".toList, .backup),
    ("/changeset/apply".toList, .changesetApply), ("/changeset/invert".toList, .changesetInvert),
    ("/changeset/concat".toList, .changesetConcat),
    ("/blob/provision".toList, .blob .provision), ("/blob/create".toList, .blob .create),
    ("/blob/write".toList, .blob .write), ("/blob/read".toList, .blob .read), ("/blob/size".toList, .blob .size),
    ("/blob/delete".toList, .blob .delete),
    ("/v2/pipeline".toList, .pipeline), ("/v3/pipeline".toList, .pipeline), ("/v2".toList, .probe), ("/v3".toList, .probe),
    ("/v2/cursor".toList, .cursor), ("/v3/cursor".toList, .cursor), ("/changes".toList, .changes)]

def endpointOf (text : Text) : Option Endpoint := (endpoints.find? (fun e => e.1 == text)).map Prod.snd

inductive Err where
  | noDatabase
  | invalidDB
deriving DecidableEq

def Err.text : Err → String
  | .noDatabase => "no database in request (name it in the path, host, or set a default)"
  | .invalidDB => "invalid or reserved database name"

inductive Answer where
  | health
  | metrics
  | admin
  | notFound (message : Text)
  | database (db : Text) (endpoint : Endpoint)
deriving DecidableEq

/-- `strings.Trim(p, "/")` -/
def trimSlashes (p : Text) : Text := (p.dropWhile (· == '/')).rdropWhile (· == '/')

def splitPath (p : Text) : List Text := ((trimSlashes p).splitOn '/').filter (· ≠ [])

/-- `strings.Join(segs, "/")` after a slash -/
def endpointPath (segs : List Text) : Text := '/' :: ['/'].intercalate segs

def hostname (h : Text) : Text := h.takeWhile (· ≠ ':')

def cutSuffix (s suffix : Text) : Option Text :=
  if suffix.isSuffixOf s then some (s.take (s.length - suffix.length)) else none

def trimSuffix (s suffix : Text) : Text := (cutSuffix s suffix).getD s

def byPath (route : Route) (r : Request) : Option (Text × Text) :=
  match splitPath r.path with
  | [] => none
  | db :: rest => if route.byPath && !isEndpointToken db then some (db, endpointPath rest) else none

def byHost (route : Route) (r : Request) : Option (Text × Text) :=
  if route.byHost && route.hostSuffix != [] then
    match cutSuffix (hostname r.host) route.hostSuffix with
    | none => none
    | some base => if trimSuffix base ['.'] != [] then some (trimSuffix base ['.'], r.path) else none
  else none

def byDefault (route : Route) (r : Request) : Option (Text × Text) :=
  if route.defaultDB != [] then some (route.defaultDB, r.path) else none

def validated (db endpoint : Text) : Except Err (Text × Text) :=
  if validDBName db then .ok (db, endpoint) else .error .invalidDB

def resolve (route : Route) (r : Request) : Except Err (Text × Text) :=
  match ((byPath route r).or (byHost route r)).or (byDefault route r) with
  | none => .error .noDatabase
  | some (db, endpoint) => validated db endpoint

/-- `admin` tells whether the control plane is enabled. -/
def serveHTTP (admin : Bool) (route : Route) (r : Request) : Answer :=
  if r.path == "/_health".toList then .health
  else if r.path == "/_metrics".toList then .metrics
  else if r.path == "/_admin".toList || "/_admin/".toList.isPrefixOf r.path then
    if admin then .admin else .notFound "control plane not enabled".toList
  else if "/_".toList.isPrefixOf r.path then .notFound "reserved path not available".toList
  else
    match resolve route r with
    | .error err => .notFound err.text.toList
    | .ok (db, endpoint) =>
      match endpointOf endpoint with
      | some e => .database db e
      | none => .notFound ("unknown endpoint ".toList ++ endpoint)

/-! ## The client -/

inductive ClientCall where
  | query
  | exportDB
  | backup
  | changesetApply
  | changesetInvert
  | changesetConcat
  | blob (op : BlobOp)
  | pipeline
deriving DecidableEq

def ClientCall.suffix : ClientCall → Text
  | .query => "/query".toList
  | .exportDB => "/export".toList
  | .backup => "/backup".toList
  | .changesetApply => "/changeset/apply".toList
  | .changesetInvert => "/changeset/invert".toList
  | .changesetConcat => "/changeset/concat".toList
  | .blob .provision => "/blob/provision".toList
  | .blob .create => "/blob/create".toList
  | .blob .write => "/blob/write".toList
  | .blob .read => "/blob/read".toList
  | .blob .size => "/blob/size".toList
  | .blob .delete => "/blob/delete".toList
  | .pipeline => "/v3/pipeline".toList

/-- What a URL reads as a part of a segment. The client does not escape the name, and the server
sees the path decoded. -/
def Plain (db : Text) : Prop := ∀ c ∈ db, c ∉ ['/', '%', '?', '#']

/-- The path after `c.base`, which the server reads as it stands if the name is plain. -/
def ClientCall.path (call : ClientCall) (db : Text) : Text := '/' :: (db ++ call.suffix)

def ClientCall.endpoint : ClientCall → Endpoint
  | .query => .query
  | .exportDB => .exportDB
  | .backup => .backup
  | .changesetApply => .changesetApply
  | .changesetInvert => .changesetInvert
  | .changesetConcat => .changesetConcat
  | .blob op => .blob op
  | .pipeline => .pipeline

/-! ## Segments -/

/-- The segments do not depend on how many slashes there are. -/
def segments (p : Text) : List Text := (p.splitOn '/').filter (· ≠ [])

theorem segments_slash (p q : Text) : segments (p ++ '/' :: q) = segments p ++ segments q := by
  have hSplit : (p ++ '/' :: q).splitOn '/' = p.splitOn '/' ++ q.splitOn '/' := Paths.splitOn_sep (P := slash) p q
  rw [segments, hSplit, List.filter_append]
  rfl

@[simp] theorem segments_nil : segments [] = [] := rfl

theorem segments_cons_slash (p : Text) : segments ('/' :: p) = segments p := segments_slash [] p

theorem segments_concat_slash (p : Text) : segments (p ++ ['/']) = segments p := by
  rw [segments_slash, segments_nil, List.append_nil]

theorem segments_whole {s : Text} (h : '/' ∉ s) (hSome : s ≠ []) : segments s = [s] := by
  have hSplit : s.splitOn '/' = [s] := Paths.splitOn_whole (P := slash) h
  rw [segments, hSplit]
  simp [hSome]

theorem segments_dropWhile (p : Text) : segments (p.dropWhile (· == '/')) = segments p := by
  induction p with
  | nil => rfl
  | cons c p ih =>
    by_cases hc : c = '/'
    · subst hc
      rw [List.dropWhile_cons_of_pos (by decide), ih, segments_cons_slash]
    · rw [List.dropWhile_cons_of_neg (by simpa using hc)]

theorem segments_rdropWhile (p : Text) : segments (p.rdropWhile (· == '/')) = segments p := by
  induction p using List.reverseRecOn with
  | nil => rfl
  | append_singleton p c ih =>
    by_cases hc : c = '/'
    · subst hc
      rw [List.rdropWhile_concat_pos _ _ _ (by decide), ih, segments_concat_slash]
    · rw [List.rdropWhile_concat_neg _ _ _ (by simpa using hc)]

theorem splitPath_eq (p : Text) : splitPath p = segments p := by
  calc splitPath p = segments ((p.dropWhile (· == '/')).rdropWhile (· == '/')) := rfl
    _ = segments (p.dropWhile (· == '/')) := segments_rdropWhile _
    _ = segments p := segments_dropWhile p

/-! ## Answers -/

variable {admin : Bool} {route : Route} {r : Request} {db text : Text} {e : Endpoint}

theorem endpointOf_eq_some (h : endpointOf text = some e) : (text, e) ∈ endpoints := by
  obtain ⟨entry, hFind, rfl⟩ := Option.map_eq_some_iff.mp h
  have hText : entry.1 = text := by simpa using List.find?_some hFind
  rw [← hText]
  exact List.mem_of_find?_eq_some hFind

/-- The server's own paths. -/
def Reserved (p : Text) : Prop := "/_".toList <+: p

theorem serveHTTP_of_not_reserved (admin : Bool) (route : Route) (h : ¬ Reserved r.path) :
    serveHTTP admin route r =
      match resolve route r with
      | .error err => .notFound err.text.toList
      | .ok (db, endpoint) =>
        match endpointOf endpoint with
        | some e => .database db e
        | none => .notFound ("unknown endpoint ".toList ++ endpoint) := by
  have hHealth : (r.path == "/_health".toList) = false :=
    beq_false_of_ne fun hEq => h (hEq ▸ (by decide : "/_".toList <+: "/_health".toList))
  have hMetrics : (r.path == "/_metrics".toList) = false :=
    beq_false_of_ne fun hEq => h (hEq ▸ (by decide : "/_".toList <+: "/_metrics".toList))
  have hAdmin : (r.path == "/_admin".toList) = false :=
    beq_false_of_ne fun hEq => h (hEq ▸ (by decide : "/_".toList <+: "/_admin".toList))
  have hBelow : "/_admin/".toList.isPrefixOf r.path = false := by
    refine Bool.eq_false_iff.mpr fun hTrue => h ?_
    exact (by decide : "/_".toList <+: "/_admin/".toList).trans (List.isPrefixOf_iff_prefix.mp hTrue)
  have hOther : "/_".toList.isPrefixOf r.path = false :=
    Bool.eq_false_iff.mpr fun hTrue => h (List.isPrefixOf_iff_prefix.mp hTrue)
  simp only [serveHTTP, hHealth, hMetrics, hAdmin, hBelow, hOther, Bool.or_self, Bool.false_eq_true, if_false]

theorem serveHTTP_reserved (h : Reserved r.path) (db : Text) (e : Endpoint) : serveHTTP admin route r ≠ .database db e := by
  have hPrefix : "/_".toList.isPrefixOf r.path = true := List.isPrefixOf_iff_prefix.mpr h
  unfold serveHTTP
  split
  · exact fun hEq => by cases hEq
  · split
    · exact fun hEq => by cases hEq
    · split
      · cases admin <;> exact fun hEq => by cases hEq
      · exact fun hEq => by cases hEq

theorem serveHTTP_eq_database :
    serveHTTP admin route r = .database db e ↔ ¬ Reserved r.path ∧ validDBName db = true ∧
      ∃ text, ((byPath route r).or (byHost route r)).or (byDefault route r) = some (db, text) ∧
        endpointOf text = some e := by
  by_cases hReserved : Reserved r.path
  · exact ⟨fun h => absurd h (serveHTTP_reserved hReserved db e), fun h => absurd hReserved h.1⟩
  · rw [serveHTTP_of_not_reserved admin route hReserved]
    unfold resolve
    cases hFound : ((byPath route r).or (byHost route r)).or (byDefault route r) with
    | none => simp
    | some found =>
      obtain ⟨name, text⟩ := found
      unfold validated
      by_cases hValid : validDBName name = true
      · simp only [hValid, if_true]
        cases hEndpoint : endpointOf text with
        | none =>
          simp only [reduceCtorEq, Option.some.injEq, Prod.mk.injEq, false_iff]
          rintro ⟨_, _, text', ⟨_, rfl⟩, hSome⟩
          cases hEndpoint.symm.trans hSome
        | some e' =>
          simp only [Answer.database.injEq, Option.some.injEq, Prod.mk.injEq]
          constructor
          · rintro ⟨rfl, rfl⟩
            exact ⟨hReserved, hValid, text, ⟨rfl, rfl⟩, hEndpoint⟩
          · rintro ⟨_, _, text', ⟨rfl, rfl⟩, hSome⟩
            exact ⟨rfl, Option.some.inj (hEndpoint.symm.trans hSome)⟩
      · simp only [hValid, Bool.false_eq_true, if_false, reduceCtorEq, Option.some.injEq, Prod.mk.injEq, false_iff]
        rintro ⟨_, hTrue, _, ⟨rfl, _⟩, _⟩
        exact hValid hTrue

theorem byPath_eq (route : Route) (r : Request) :
    byPath route r = match segments r.path with
      | [] => none
      | db :: rest => if route.byPath && !isEndpointToken db then some (db, endpointPath rest) else none := by
  rw [byPath, splitPath_eq]

/-! ## Names -/

theorem validDBName_iff {s : Text} : validDBName s = true ↔ s ≠ [] ∧ s ≠ ['.'] ∧ s ≠ ['.', '.'] ∧ ¬ ['_'] <+: s ∧
    s ∉ reserved ∧ isEndpointToken s = false ∧ ∀ c ∈ s, isNameChar c = true := by
  unfold validDBName isEndpointToken
  by_cases hDots : (s == [] || s == ['.'] || s == ['.', '.']) = true
  · rw [if_pos hDots]
    simp only [Bool.or_eq_true, beq_iff_eq] at hDots
    refine ⟨fun h => (by cases h), fun ⟨hEmpty, hDot, hTwo, _⟩ => ?_⟩
    rcases hDots with (hEq | hEq) | hEq
    · exact absurd hEq hEmpty
    · exact absurd hEq hDot
    · exact absurd hEq hTwo
  · rw [if_neg hDots]
    simp only [Bool.or_eq_true, beq_iff_eq, not_or] at hDots
    by_cases hReserved : (['_'].isPrefixOf s || reserved.contains s) = true
    · rw [if_pos hReserved]
      simp only [Bool.or_eq_true, List.isPrefixOf_iff_prefix, List.contains_iff_mem] at hReserved
      refine ⟨fun h => (by cases h), fun ⟨_, _, _, hPrefix, hMem, _⟩ => ?_⟩
      exact hReserved.elim (fun h => absurd h hPrefix) fun h => absurd h hMem
    · rw [if_neg hReserved]
      simp only [Bool.or_eq_true, List.isPrefixOf_iff_prefix, List.contains_iff_mem, not_or] at hReserved
      by_cases hToken : endpointTokens.contains s = true
      · rw [if_pos hToken]
        exact ⟨fun h => (by cases h), fun ⟨_, _, _, _, _, hNot, _⟩ => by cases hNot.symm.trans hToken⟩
      · rw [if_neg hToken, List.all_eq_true]
        exact ⟨fun h => ⟨hDots.1.1, hDots.1.2, hDots.2, hReserved.1, hReserved.2, Bool.eq_false_iff.mpr hToken, h⟩,
          fun h => h.2.2.2.2.2.2⟩

theorem not_mem_of_validDBName {s : Text} (h : validDBName s = true) {c : Char} (hc : isNameChar c = false) : c ∉ s := by
  intro hMem
  cases hc.symm.trans ((validDBName_iff.mp h).2.2.2.2.2.2 c hMem)

/-- A valid name starts neither a path of the server's nor another segment. -/
theorem not_reserved_of_valid {p db : Text} {rest : List Text} (hSegments : segments p = db :: rest)
    (hValid : validDBName db = true) : ¬ Reserved p := by
  rintro ⟨tail, rfl⟩
  -- The first segment is what stands before the next slash, and it begins with the underscore.
  have hHead : ∀ q : Text, ∃ first more, segments ('_' :: q) = ('_' :: first) :: more := by
    intro q
    have hSplit : ('_' :: q).splitOn '/' = (q.splitOn '/').modifyHead (List.cons '_') := by
      rw [List.splitOn_cons_eq_if_modifyHead, if_neg (by decide)]
    cases hq : q.splitOn '/' with
    | nil => exact absurd hq (List.splitOn_ne_nil _ _)
    | cons first more =>
      rw [hq, List.modifyHead_cons] at hSplit
      refine ⟨first, more.filter (· ≠ []), ?_⟩
      rw [segments, hSplit]
      simp
  obtain ⟨first, more, hFirst⟩ := hHead tail
  have hEq : segments ("/_".toList ++ tail) = segments ('_' :: tail) := segments_cons_slash ('_' :: tail)
  rw [hEq, hFirst] at hSegments
  cases hSegments
  exact (validDBName_iff.mp hValid).2.2.2.1 ⟨first, rfl⟩

/-! ## The client's paths -/

theorem suffix_eq (call : ClientCall) : ∃ rest, call.suffix = '/' :: rest ∧
    endpointPath (segments call.suffix) = call.suffix ∧ endpointOf call.suffix = some call.endpoint := by
  rcases call with _ | _ | _ | _ | _ | _ | (_ | _ | _ | _ | _ | _) | _ <;> exact ⟨_, rfl, by decide, by decide⟩

/-- No endpoint is another segment in front of one that the client asks for. -/
theorem endpoints_tail (h : (text, e) ∈ endpoints) (call : ClientCall) :
    (segments text).tail ≠ segments call.suffix ∧ text.tail.head? ≠ some '/' := by
  have hAll : ∀ entry ∈ endpoints, (segments entry.1).tail ∉ [["query"], ["export"], ["backup"], ["changeset", "apply"],
      ["changeset", "invert"], ["changeset", "concat"], ["blob", "provision"], ["blob", "create"], ["blob", "write"],
      ["blob", "read"], ["blob", "size"], ["blob", "delete"], ["v3", "pipeline"]].map (List.map String.toList) ∧
        entry.1.tail.head? ≠ some '/' := by
    decide
  obtain ⟨hTail, hHead⟩ := hAll (text, e) h
  refine ⟨fun hEq => hTail ?_, hHead⟩
  rw [hEq]
  rcases call with _ | _ | _ | _ | _ | _ | (_ | _ | _ | _ | _ | _) | _ <;> decide

theorem segments_path (call : ClientCall) (hSlash : '/' ∉ db) (hSome : db ≠ []) :
    segments (call.path db) = db :: segments call.suffix := by
  obtain ⟨rest, hSuffix, _⟩ := suffix_eq call
  rw [ClientCall.path, segments_cons_slash, hSuffix, segments_slash, segments_whole hSlash hSome, segments_cons_slash]
  rfl

theorem endpointOf_path (call : ClientCall) (hSlash : '/' ∉ db) : endpointOf (call.path db) = none := by
  refine Option.eq_none_iff_forall_ne_some.mpr fun e hSome => ?_
  obtain ⟨hTail, hHead⟩ := endpoints_tail (endpointOf_eq_some hSome) call
  rcases eq_or_ne db [] with rfl | hNe
  · obtain ⟨rest, hSuffix, _⟩ := suffix_eq call
    refine hHead ?_
    rw [ClientCall.path, hSuffix]
    rfl
  · exact hTail (by rw [segments_path call hSlash hNe]; rfl)

theorem byHost_text (h : byHost route r = some (db, text)) : text = r.path := by
  unfold byHost at h
  split at h
  · split at h
    · cases h
    · split at h
      · cases h
        rfl
      · cases h
  · cases h

theorem byDefault_text (h : byDefault route r = some (db, text)) : text = r.path := by
  unfold byDefault at h
  split at h
  · cases h
    rfl
  · cases h

/-- What does not name its database by the path is served as it stands. -/
theorem text_of_byPath_none (hNone : byPath route r = none)
    (h : ((byPath route r).or (byHost route r)).or (byDefault route r) = some (db, text)) : text = r.path := by
  rw [hNone, Option.none_or] at h
  cases hHost : byHost route r with
  | none =>
    rw [hHost, Option.none_or] at h
    exact byDefault_text h
  | some found =>
    rw [hHost, Option.some_or] at h
    cases h
    exact byHost_text hHost

theorem client_served_iff (admin : Bool) (route : Route) (call : ClientCall) (hSlash : '/' ∉ db)
    (host db' : Text) (e : Endpoint) :
    serveHTTP admin route ⟨call.path db, host⟩ = .database db' e ↔
      route.byPath = true ∧ validDBName db = true ∧ db' = db ∧ e = call.endpoint := by
  obtain ⟨_, _, hJoin, hEndpoint⟩ := suffix_eq call
  rw [serveHTTP_eq_database]
  constructor
  · rintro ⟨_, hValid, text, hFound, hText⟩
    cases hPath : byPath route ⟨call.path db, host⟩ with
    | none =>
      cases text_of_byPath_none hPath hFound
      cases (endpointOf_path call hSlash).symm.trans hText
    | some found =>
      rw [hPath, Option.some_or, Option.some_or] at hFound
      cases hFound
      rw [byPath_eq] at hPath
      rcases eq_or_ne db [] with rfl | hNe
      · -- Without a name the path begins with an endpoint.
        have hToken : ∀ first rest, segments call.suffix = first :: rest → isEndpointToken first = true := by
          rcases call with _ | _ | _ | _ | _ | _ | (_ | _ | _ | _ | _ | _) | _ <;>
            (intro first rest hEq; cases hEq; decide)
        have hSegments : segments (call.path []) = segments call.suffix := segments_cons_slash _
        rw [hSegments] at hPath
        cases hSuffix : segments call.suffix with
        | nil =>
          rw [hSuffix] at hPath
          cases hPath
        | cons first rest =>
          rw [hSuffix] at hPath
          simp [hToken first rest hSuffix] at hPath
      · rw [segments_path call hSlash hNe] at hPath
        dsimp only at hPath
        split at hPath
        · rename_i hBy
          cases hPath
          rw [hJoin] at hText
          exact ⟨(Bool.and_eq_true_iff.mp hBy).1, hValid, rfl, Option.some.inj (hText.symm.trans hEndpoint)⟩
        · cases hPath
  · rintro ⟨hBy, hValid, rfl, rfl⟩
    obtain ⟨hNe, _, _, _, _, hToken, _⟩ := validDBName_iff.mp hValid
    have hSegments := segments_path call hSlash hNe
    refine ⟨not_reserved_of_valid hSegments hValid, hValid, call.suffix, ?_, hEndpoint⟩
    have hPath : byPath route ⟨call.path db', host⟩ = some (db', call.suffix) := by
      rw [byPath_eq, hSegments]
      simp [hBy, hToken, hJoin]
    rw [hPath, Option.some_or, Option.some_or]

/-! ## Names in the host -/

theorem cutSuffix_append (s suffix : Text) : cutSuffix (s ++ suffix) suffix = some s := by
  have hSuffix : suffix.isSuffixOf (s ++ suffix) = true := List.isSuffixOf_iff_suffix.mpr (List.suffix_append s suffix)
  rw [cutSuffix, if_pos hSuffix, List.length_append, Nat.add_sub_cancel, List.take_left]

theorem hostname_append {h port : Text} (hColon : ':' ∉ h) (hPort : port = [] ∨ port.head? = some ':') :
    hostname (h ++ port) = h := by
  have hAll : ∀ c ∈ h, decide (c ≠ ':') = true := fun c hc => decide_eq_true fun hEq => hColon (hEq ▸ hc)
  rw [hostname, List.takeWhile_append_of_pos hAll]
  rcases hPort with rfl | hHead
  · simp
  · obtain ⟨tail, rfl⟩ := List.head?_eq_some_iff.mp hHead
    simp

theorem endpoints_plain (h : (text, e) ∈ endpoints) :
    ¬ Reserved text ∧ endpointOf text = some e ∧ ∃ first rest, segments text = first :: rest ∧
      isEndpointToken first = true := by
  have hAll : ∀ entry ∈ endpoints, ("/_".toList.isPrefixOf entry.1 = false ∧ endpointOf entry.1 = some entry.2) ∧
      (segments entry.1).head?.any isEndpointToken = true := by
    decide
  obtain ⟨⟨hPrefix, hEndpoint⟩, hToken⟩ := hAll (text, e) h
  refine ⟨fun hReserved => ?_, hEndpoint, ?_⟩
  · cases hPrefix.symm.trans (List.isPrefixOf_iff_prefix.mpr hReserved)
  · cases hSegments : segments text with
    | nil =>
      rw [hSegments] at hToken
      cases hToken
    | cons first rest =>
      rw [hSegments] at hToken
      exact ⟨first, rest, rfl, hToken⟩

theorem host_served (admin : Bool) (hBy : route.byHost = true) (hSuffix : route.hostSuffix ≠ [])
    (hColon : ':' ∉ route.hostSuffix) (hValid : validDBName db = true)
    (hEndpoint : (text, e) ∈ endpoints) {port : Text} (hPort : port = [] ∨ port.head? = some ':') :
    serveHTTP admin route ⟨text, db ++ '.' :: route.hostSuffix ++ port⟩ = .database db e := by
  obtain ⟨hReserved, hText, first, rest, hSegments, hToken⟩ := endpoints_plain hEndpoint
  have hName : ':' ∉ db ++ '.' :: route.hostSuffix := by
    have hDb : ':' ∉ db := not_mem_of_validDBName hValid (by decide)
    simp [hDb, hColon]
  have hPath : byPath route ⟨text, db ++ '.' :: route.hostSuffix ++ port⟩ = none := by
    rw [byPath_eq, hSegments]
    simp [hToken]
  have hCut : cutSuffix (hostname (db ++ '.' :: route.hostSuffix ++ port)) route.hostSuffix = some (db ++ ['.']) := by
    have hSplit : db ++ '.' :: route.hostSuffix = (db ++ ['.']) ++ route.hostSuffix := by simp
    rw [hostname_append hName hPort, hSplit, cutSuffix_append]
  have hTrim : trimSuffix (db ++ ['.']) ['.'] = db := by
    rw [trimSuffix, cutSuffix_append, Option.getD_some]
  have hHost : byHost route ⟨text, db ++ '.' :: route.hostSuffix ++ port⟩ = some (db, text) := by
    have hOn : (route.byHost && route.hostSuffix != []) = true := by simp [hBy, hSuffix]
    have hNe : (db != []) = true := by simpa using (validDBName_iff.mp hValid).1
    simp only [byHost, hOn, if_true, hCut, hTrim, hNe]
  refine serveHTTP_eq_database.mpr ⟨hReserved, hValid, text, ?_, hText⟩
  rw [hPath, hHost, Option.none_or, Option.some_or]

/-! ## The router -/

def Names (route : Route) (p : Text) (db : Text) : Prop :=
  route.byPath = true ∧ isEndpointToken db = false ∧ ∃ rest, segments p = db :: rest

theorem byPath_of_names (h : Names route r.path db) : ∃ text, byPath route r = some (db, text) := by
  obtain ⟨hBy, hToken, rest, hSegments⟩ := h
  refine ⟨endpointPath rest, ?_⟩
  rw [byPath_eq, hSegments]
  simp [hBy, hToken]

structure Routes (admin : Bool) (route : Route) : Prop where
  -- Only a valid name is ever looked up, and never for a path of the server's.
  named : ∀ r db e, serveHTTP admin route r = .database db e → validDBName db = true ∧ ¬ Reserved r.path
  -- A name in the path decides, whatever the host is.
  pathWins : ∀ r named db e, Names route r.path named → serveHTTP admin route r = .database db e → db = named
  -- Neither slashes nor the host make a difference to a path that names its database.
  spelling : ∀ r r' named, Names route r.path named → segments r'.path = segments r.path → ∀ db e,
    serveHTTP admin route r = .database db e ↔ serveHTTP admin route r' = .database db e
  client : ∀ call db host, Plain db → ∀ db' e,
    serveHTTP admin route ⟨ClientCall.path call db, host⟩ = .database db' e ↔
      route.byPath = true ∧ validDBName db = true ∧ db' = db ∧ e = call.endpoint
  host : route.byHost = true → route.hostSuffix ≠ [] → ':' ∉ route.hostSuffix → ∀ db, validDBName db = true →
    ∀ text e, (text, e) ∈ endpoints → ∀ port, port = [] ∨ port.head? = some ':' →
      serveHTTP admin route ⟨text, db ++ '.' :: route.hostSuffix ++ port⟩ = .database db e

theorem served_of_names {named : Text} (hNames : Names route r.path named)
    (h : serveHTTP admin route r = .database db e) :
    db = named ∧ ∃ text, byPath route r = some (named, text) ∧ endpointOf text = some e := by
  obtain ⟨text, hPath⟩ := byPath_of_names hNames
  obtain ⟨_, _, text', hFound, hText⟩ := serveHTTP_eq_database.mp h
  rw [hPath, Option.some_or, Option.some_or] at hFound
  cases hFound
  exact ⟨rfl, text, hPath, hText⟩

theorem served_of_same_segments {r' : Request} {named : Text} (hNames : Names route r.path named)
    (hSame : segments r'.path = segments r.path)
    (h : serveHTTP admin route r = .database db e) : serveHTTP admin route r' = .database db e := by
  obtain ⟨rfl, text, hPath, hText⟩ := served_of_names hNames h
  obtain ⟨_, _, rest, hSegments⟩ := hNames
  have hValid := (serveHTTP_eq_database.mp h).2.1
  refine serveHTTP_eq_database.mpr ⟨not_reserved_of_valid (hSame.trans hSegments) hValid, hValid, text, ?_, hText⟩
  have hPath' : byPath route r' = some (db, text) := by
    rw [byPath_eq, hSame, ← byPath_eq, hPath]
  rw [hPath', Option.some_or, Option.some_or]

theorem requests_reach_named_database (admin : Bool) (route : Route) : Routes admin route where
  named _ _ _ h := by
    obtain ⟨hReserved, hValid, _⟩ := serveHTTP_eq_database.mp h
    exact ⟨hValid, hReserved⟩
  pathWins _ _ _ _ hNames h := (served_of_names hNames h).1
  spelling r r' named hNames hSame db e := by
    have hNames' : Names route r'.path named := by
      obtain ⟨hBy, hToken, rest, hSegments⟩ := hNames
      exact ⟨hBy, hToken, rest, hSame.trans hSegments⟩
    exact ⟨served_of_same_segments hNames hSame, served_of_same_segments hNames' hSame.symm⟩
  client call _ host hPlain :=
    client_served_iff admin route call (fun hSlash => absurd (hPlain '/' hSlash) (by decide)) host
  host hBy hSuffix hColon _ hValid _ _ hEndpoint _ hPort := host_served admin hBy hSuffix hColon hValid hEndpoint hPort

/-- Two slashes do not lead around the reserved names, and the host does not override the path. -/
example : let route : Route := ⟨true, true, "db.example".toList, "main".toList⟩
    serveHTTP true route ⟨"//_admin/kill".toList, "acme.db.example:443".toList⟩ =
      .notFound "invalid or reserved database name".toList ∧
    serveHTTP true route ⟨"//orders//query/".toList, "acme.db.example:443".toList⟩ =
      .database "orders".toList .query ∧
    serveHTTP true route ⟨"/query".toList, "acme.db.example:443".toList⟩ = .database "acme".toList .query ∧
    serveHTTP true route ⟨"//query".toList, "localhost".toList⟩ = .notFound "unknown endpoint //query".toList := by
  decide +kernel

end QuicSql.Routing
