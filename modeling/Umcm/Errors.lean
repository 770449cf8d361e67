import Umcm.Data.Except

/-!
# Exceptions

The exceptions the modelled functions raise. The package's own errors carry
their message; of the built-in ones only the class is kept.
-/

namespace Umcm

inductive PyError where
  | graphError (message : String)
  | schemaError (message : String)
  | traceValidationError (message : String)
  | expressionTypeError (message : String)
  | completionError (message : String)
  | solverError (message : String)
  | compositionError (message : String)
  | coverageError (message : String)
  | searchError (message : String)
  | abstractionError (message : String)
  | serializationError (message : String)
  | typeError
  | valueError
  | keyError
  | indexError
  | zeroDivisionError
  | recursionError
  | stopIteration
  | assertionError
  | attributeError
deriving DecidableEq, Repr

/-- The message of the package's own errors; `except UMCMError` catches these. -/
def PyError.umcmMessage? : PyError → Option String
  | .graphError message | .schemaError message | .traceValidationError message
  | .expressionTypeError message | .completionError message | .solverError message
  | .compositionError message | .coverageError message | .searchError message
  | .abstractionError message | .serializationError message => some message
  | _ => none

/-- `except GraphError` catches the exception. -/
def PyError.isGraphError : PyError → Bool
  | .graphError _ => true
  | _ => false

theorem PyError.isGraphError_iff {e : PyError} :
    e.isGraphError = true ↔ ∃ message, e = .graphError message := by
  cases e <;> simp [isGraphError]

end Umcm
