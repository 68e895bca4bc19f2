import TensorVault.Server.Startup

/-!
# One server

What `Server::bind` gives to all its connections: an engine, the password manager, and the
generator of random values. `ServerConfig.services` are the calls of a connection that has them to
itself while it runs; connections that take turns are states with the same `Shared` part.

The engine is a parameter here, with its two entry points.
-/

namespace TensorVault.Server

/-- What the connections share. -/
structure Shared (ε δ : Type) where
  engine : ε
  passwords : PasswordManager δ
  /-- How many random values have been drawn. -/
  drawn : Nat

/-- `ServerConfig`, with what the server takes from its surroundings. -/
structure ServerConfig (ε δ : Type) where
  host : Host
  authRequired : Bool
  overflowChecks : Bool
  primitives : Scram.Primitives δ
  /-- `try_readonly_select`, which has the engine under a read lock. -/
  tryReadonlySelect : ε → String → Option (Except Error QueryResult)
  execute : ε → String → Option (ε × Except Error QueryResult)
  /-- What `random_salt` returns as the draw of the given number. -/
  randomSalt : Nat → List UInt8
  /-- What `random_server_nonce` returns as the draw of the given number. -/
  randomServerNonce : Nat → ServerNonce

namespace ServerConfig

variable {ε δ : Type} (C : ServerConfig ε δ)

/-- `PasswordManager::create_user`. -/
def createUser (s : Shared ε δ) (username password : String) : Shared ε δ :=
  { s with
    passwords := s.passwords.createUserWithSalt C.primitives username password
      (C.randomSalt s.drawn) defaultIterations
    drawn := s.drawn + 1 }

def services : Services (Shared ε δ) δ where
  host := C.host
  authRequired := C.authRequired
  overflowChecks := C.overflowChecks
  primitives := C.primitives
  tryReadonlySelect s sql := (C.tryReadonlySelect s.engine sql).map fun r => (s, r)
  execute s sql := (C.execute s.engine sql).map fun r => ({ s with engine := r.1 }, r.2)
  getUser s username := (s, s.passwords.users username)
  createUser := C.createUser
  dropUser s username :=
    ({ s with passwords := (s.passwords.dropUser username).1 }, (s.passwords.dropUser username).2)
  serverNonce s := ({ s with drawn := s.drawn + 1 }, C.randomServerNonce s.drawn)

/-- The user that was created last has the password it was created with. -/
theorem getUser_createUser (s : Shared ε δ) (username password : String) :
    C.services.getUser (C.createUser s username password) username =
      (C.createUser s username password,
        some (.fromPassword C.primitives password (C.randomSalt s.drawn) defaultIterations)) := by
  simp [services, createUser, PasswordManager.createUserWithSalt]

theorem getUser_createUser_of_ne (s : Shared ε δ) {username name : String} (h : name ≠ username)
    (password : String) : C.services.getUser (C.createUser s username password) name =
      (C.createUser s username password, s.passwords.users name) := by
  simp [services, createUser, PasswordManager.createUserWithSalt, h]

end ServerConfig

end TensorVault.Server
