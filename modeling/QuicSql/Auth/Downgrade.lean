import QuicSql.Auth.Middleware

/-!
# Credentials that a request carries

The chain decides per method whether a credential is present, and falls back to the peer's
user and to the anonymous principal when none is. A request may carry a credential that no
method recognises.
-/

namespace QuicSql.Auth

open Backend (trimSpace)

def scheme (header : String) : String := String.ofList ((header.toList.takeWhile (· ≠ ' ')).map asciiLower)

def parameters (header : String) : String := String.ofList ((header.toList.dropWhile (· ≠ ' ')).drop 1)

/-- A credential for a method that the listener accepts, on whichever header line or cookie
and however the server parses it. -/
inductive Middleware.Carries (m : Middleware) (r : Request) : Prop
  | password (header : String) : .password ∈ m.accepted → header ∈ r.authorizations → scheme header = "basic" →
      Carries m r
  | bearer (header : String) : .bearer ∈ m.accepted → header ∈ r.authorizations → scheme header = "bearer" →
      trimSpace (parameters header) ≠ "" → Carries m r
  | session (header : String) : .session ∈ m.accepted → m.a.sessions = true → header ∈ r.authorizations →
      scheme header = "bearer" → hasPrefix (trimSpace (parameters header)) sessionPrefix = true → Carries m r
  | cookie (c : String) : .session ∈ m.accepted → m.a.sessions = true → m.a.cookieMode = true →
      c ∈ r.cookies → hasPrefix c sessionPrefix = true → Carries m r
  | keyring (signature : String) : .keyring ∈ m.accepted → signature ∈ r.keyringSignatures → signature ≠ "" →
      Carries m r

/-- The outcome is an error or a principal that a credential of the request proves. -/
def Middleware.Honoured (m : Middleware) (r : Request) : Prop :=
  ∀ p, m.authenticateFor r false = .ok p →
    p.method ∈ hardMethods ∧ p.method ∈ m.accepted ∧ m.a.tryMethod r p.method = some (.ok p)

section Presence

variable {a : Authenticator} {r : Request} {p : Principal}

end Presence

/-! ## The outcome -/

section Outcome

variable {m : Middleware} {r : Request} {p : Principal}

end Outcome

section Samples

end Samples

end QuicSql.Auth
