import Mathlib.Data.Rat.Defs
import IspPlatform.Py.Text
import IspPlatform.Py.Async

/-!
# The collaborators of the concurrency package

The calls `apply_state_change` and `entity_lock` await, with what each gives back,
as one interface: a state change runs inside a lock block, so both kinds of call
occur in one program.
-/

namespace IspPlatform.Concurrency

open Py

/-- `CommandOutcome`. -/
inductive CommandOutcome where
  | applied
  | noSession
  | rejected
  | timeout
  deriving DecidableEq, Repr

/-- The string value of the enumeration, which is also how it is formatted. -/
def CommandOutcome.str : CommandOutcome → Str
  | .applied => lit "applied"
  | .noSession => lit "no_session"
  | .rejected => lit "rejected"
  | .timeout => lit "timeout"

/-- `StateChange`. -/
structure StateChange where
  entityId : Str
  targetGroup : Str
  event : Str
  deriving DecidableEq, Repr

/-- A transaction on the ledger: the group it has staged for an entity. -/
structure Tx where
  entityId : Str
  group : Str
  deriving DecidableEq, Repr

/-- The transaction a caller opens for a change stages its target. -/
def StateChange.tx (c : StateChange) : Tx := ⟨c.entityId, c.targetGroup⟩

/-- A duration in seconds, with the text an f-string prints for it. -/
structure Seconds where
  value : ℚ
  text : Str
  deriving DecidableEq, Repr

/-- The calls: `Projection`, `DeviceCommand`, `Transaction`, `AuditSink`, then
`LockBackend`, the clock and the long-hold callback. -/
inductive Call where
  | writeGroup (entityId group : Str)
  | forceReauth (entityId : Str)
  | commit (tx : Tx)
  | rollback (tx : Tx)
  | record (entityId event result : Str)
  | acquire (key : Str) (lease wait : Seconds)
  | release (key token : Str)
  | monotonic
  | onLongHold (key : Str) (held : ℚ)
  deriving DecidableEq, Repr

@[reducible] def Call.Res : Call → Type
  | .forceReauth _ => CommandOutcome
  | .acquire .. => Option Str
  | .monotonic => ℚ
  | _ => Unit

/-- The exceptions: the package's own three, and any other `Exception`, each with its text. -/
inductive Exn where
  | stateChangeFailed (msg : Str)
  | lockTimeout (msg : Str)
  | lockUnavailable (msg : Str)
  | other (msg : Str)
  deriving DecidableEq, Repr

/-- `str(exc)`. -/
def Exn.str : Exn → Str
  | .stateChangeFailed m | .lockTimeout m | .lockUnavailable m | .other m => m

/-- The interface of the package. -/
@[reducible] def calls : Iface := { Op := Call, Res := Call.Res, Exn := Exn }

/-- Await one call of the package. -/
abbrev call (c : Call) : Prog calls c.Res := Prog.call (I := calls) c

end IspPlatform.Concurrency
