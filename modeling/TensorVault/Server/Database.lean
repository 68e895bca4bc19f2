import TensorVault.Engine.Readonly
import TensorVault.Server.Shared

/-!
# A server over an engine

The configuration of a server whose connections share one `QueryEngine`, and what a statement that
a connection passes on does to it.
-/

namespace TensorVault.Server

open Text Sql Proc

structure EngineConfig (δ : Type) where
  host : Host
  frontend : Frontend
  /-- `parse_with_extensions` and `execute_select`, as the read-only path uses them. -/
  scan : Catalog → String → Outcome QueryResult
  /-- The room on the stack. -/
  depth : Nat
  authRequired : Bool
  overflowChecks : Bool
  primitives : Scram.Primitives δ
  randomSalt : Nat → List UInt8
  randomServerNonce : Nat → ServerNonce

namespace EngineConfig

variable {δ : Type} (C : EngineConfig δ)

/-- The read-only path: `none` is a panic. -/
def readonly (e : QueryEngine) (sql : String) : Option (Except Error QueryResult) :=
  match e.tryReadonlySelect C.host C.frontend C.scan sql with
  | .ok qr => some (.ok qr)
  | .err err => some (.error err)
  | .panic => none

def execute (e : QueryEngine) (sql : String) : Reply :=
  QueryEngine.execute C.host C.frontend C.depth e sql

/-- The reply to a statement that is passed on. -/
def ask (e : QueryEngine) (sql : String) : Reply :=
  match C.readonly e sql with
  | some (.ok qr) => e.reply qr
  | some (.error _) => C.execute e sql
  | none => none

def serverConfig : ServerConfig QueryEngine δ where
  host := C.host
  authRequired := C.authRequired
  overflowChecks := C.overflowChecks
  primitives := C.primitives
  tryReadonlySelect := C.readonly
  execute := C.execute
  randomSalt := C.randomSalt
  randomServerNonce := C.randomServerNonce

abbrev services : Services (Shared QueryEngine δ) δ := C.serverConfig.services

@[simp] theorem services_host : C.services.host = C.host := rfl

/-- A statement is passed on. -/
theorem wp_runSql {sql : String}
    {Q : Except Error QueryResult → World (Shared QueryEngine δ) → Prop}
    {E : Stop → World (Shared QueryEngine δ) → Prop} {w : World (Shared QueryEngine δ)}
    (hreply : ∀ e r, C.ask w.shared.engine sql = some (e, r) →
      Q r { w with shared := { w.shared with engine := e }, log := w.log ++ [.passed sql] })
    (hpanic : ∀ w', E .panicked w') : wp (runSql C.services sql) Q E w := by
  unfold ask at hreply
  simp only [runSql, askEngine, record, wp_bind, wp_modify]
  unfold callPanic wp
  simp only [services, ServerConfig.services, serverConfig]
  cases hread : C.readonly w.shared.engine sql with
  | none => exact hpanic _
  | some r =>
    cases r with
    | ok qr => exact hreply _ _ (by rw [hread]; rfl)
    | error err =>
      simp only [hread] at hreply
      simp only [Option.map_some]
      cases hexec : C.execute w.shared.engine sql with
      | none => exact hpanic _
      | some p => exact hreply _ _ hexec

/-- A server whose queries all read the table `t`. -/
def plain : EngineConfig (Finset Nat) where
  host := .ascii
  frontend := QueryEngine.scanFrontend
  scan cat sql := QueryEngine.scanFrontend.select cat .new sql
  depth := 0
  authRequired := false
  overflowChecks := false
  primitives := Scram.free
  randomSalt _ := []
  randomServerNonce _ := .letters

end EngineConfig

end TensorVault.Server
