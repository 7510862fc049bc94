import Stubwright.Log

/-!
# Failures of a generation run

A run fails because of its input, which the operator is told as it is, or because a part of the
generator broke its contract, which is reported as a defect.
-/

namespace Stubwright

/-- Who has to act on a failure: the author of the input, or the author of the generator. -/
inductive ErrorKind where
  | user
  | internal
deriving DecidableEq, Repr

/-- A failure of a generation run. -/
structure GenError where
  kind : ErrorKind
  message : String
deriving DecidableEq, Repr

namespace GenError

/-- A failure that the input causes. -/
def user (message : String) : GenError := ⟨.user, message⟩

/-- A broken contract inside the generator. -/
def internal (message : String) : GenError := ⟨.internal, message⟩

/-- The failure as the operator reads it. -/
def display (error : GenError) : String :=
  match error.kind with
  | .user => s!"user error: {error.message}"
  | .internal => s!"internal error: {error.message} (this is a bug in apigen, please report it)"

/-- The failure followed by what was logged up to it, from level `least` upward. -/
def report (error : GenError) (log : Log) (least : LogLevel) : String :=
  let headline := s!"generation failed: {error.display}"
  let trace := log.render least
  if trace.isEmpty then headline else s!"{headline}\n{trace}"

end GenError

end Stubwright
