import FrogAgent.Core.TypedValue

/-!
# Typed errors

`spine/error.rs`: the errors of the invoke and hook interfaces and the status
codes they become at the guest boundary.
-/

namespace FrogAgent.Error

open FrogAgent.TypedValue

inductive InvokeError where
  | notFound
  | argCountMismatch (expected got : UInt8)
  | argTypeMismatch (idx : UInt8) (expected got : ValType)
  | nullInstance
  | marshalFailed (idx : UInt8) (reason : String)
  | managedException (message : String)
  | internalFailure (reason : String)
  deriving DecidableEq, Repr

def InvokeError.code : InvokeError → ℤ
  | .notFound => -100
  | .argCountMismatch _ _ => -101
  | .argTypeMismatch _ _ _ => -102
  | .nullInstance => -103
  | .marshalFailed _ _ => -104
  | .managedException _ => -105
  | .internalFailure _ => -106

inductive HookError where
  | slotPoolExhausted
  | methodNotHookable
  | patchFailed
  | handlerNotFound
  | alreadyHooked
  | unknownHandle
  deriving DecidableEq, Repr

def HookError.code : HookError → ℤ
  | .slotPoolExhausted => -200
  | .methodNotHookable => -201
  | .patchFailed => -202
  | .handlerNotFound => -203
  | .alreadyHooked => -204
  | .unknownHandle => -205

end FrogAgent.Error
