import AccessGuard.Evaluation
import AccessGuard.Subject.Basic

/-!
# What a guard reports

The errors with which a guard refuses a call, the events that it logs, and the effects of a
call in their order: questions to the subject, the start of the guarded operation, and
everything logged.

* `GuardError`, `InvocationError`: why a call did not return normally.
* `Effect`: one thing that happened during a call.
* `LogRecord`: the form in which events and notices are logged.
-/

namespace AccessGuard

/-- Why a guard refuses: a denial of the subject, a requirement that cannot be evaluated, or an
argument with requirements that is not there. -/
inductive GuardError where
  | denied (d : Denial)
  | evaluation (e : EvaluationError)
  | missingArgument (method : String) (index length : Nat)
deriving DecidableEq

/-- The text of an error. -/
def GuardError.message : GuardError → String
  | denied d => d.message
  | evaluation e => s!"authorization policy could not be evaluated: {e.message}"
  | missingArgument method index length =>
    s!"method '{method}' declares a requirement on parameter {index} " ++
      s!"but was called with {length} arguments"

/-- The denial of the subject, where there was one. -/
def GuardError.denial? : GuardError → Option Denial
  | denied d => some d
  | _ => none

/-- A refusal by the guard, before or after the operation, or a failure of the operation. -/
inductive InvocationError (ε : Type) where
  | guard (e : GuardError)
  | operation (e : ε)
deriving DecidableEq

namespace InvocationError

variable {ε : Type}

/-- The text of an error, by the text of the errors of the operation. -/
def message (text : ε → String) : InvocationError ε → String
  | guard e => e.message
  | operation e => s!"operation failed: {text e}"

/-- The denial of the subject; an operation denies nothing. -/
def denial? : InvocationError ε → Option Denial
  | guard e => e.denial?
  | operation _ => none

/-- Did the subject deny the call? -/
def isAccessDenied (e : InvocationError ε) : Bool := e.denial?.isSome

end InvocationError

/-- What a guard logs: that it is ready, that enforcement was switched, a call without checks, a
failed check, and a list that was narrowed. -/
inductive GuardEvent where
  | ready (methods : Nat) (enabled : Bool)
  | toggled (enabled : Bool)
  | bypassed (method : String)
  | checkFailed (method permission : String) (error : GuardError)
  | collectionNarrowed (permission : String) (before after removed : Nat)
deriving DecidableEq

/-- The arguments of a call; an argument may be absent. -/
abbrev Arguments := List (Option Value)

/-- One thing that happened during a call: a question with its answer, the start of the operation,
or something that the subject or the guard reports. -/
inductive Effect where
  | judged (permission : Permission) (value : Value) (allowed : Bool)
  | narrowed (permission : Permission) (before after : CandidateSet) (allowed : Bool)
  | started (arguments : Arguments)
  | noticed (n : Notice)
  | logged (e : GuardEvent)
deriving DecidableEq

/-- How urgent a record is. -/
inductive LogLevel where
  | trace
  | debug
  | info
  | warn
deriving DecidableEq

/-- The value of a field of a record. -/
inductive LogField where
  | count (n : Nat)
  | flag (b : Bool)
  | text (s : String)
deriving DecidableEq

/-- A record of the log: level, message and named fields. -/
structure LogRecord where
  level : LogLevel
  message : String
  fields : List (String × LogField)
deriving DecidableEq

/-- The word for a level. -/
def LogLevel.name : LogLevel → String
  | trace => "TRACE"
  | debug => "DEBUG"
  | info => "INFO"
  | warn => "WARN"

/-- The record of a notice. -/
def Notice.record : Notice → LogRecord
  | narrowed principal permission before after =>
    ⟨.debug, "narrowed candidate set",
      [("principal_id", .text principal.text), ("permission", .text permission),
        ("before", .count before), ("after", .count after)]⟩

/-- The record of an event. A failed check is a warning. -/
def GuardEvent.record : GuardEvent → LogRecord
  | ready methods enabled =>
    ⟨.info, "authorization guard ready", [("methods", .count methods), ("enabled", .flag enabled)]⟩
  | toggled enabled =>
    ⟨.info, "authorization enforcement toggled", [("enabled", .flag enabled)]⟩
  | bypassed method =>
    ⟨.trace, "authorization disabled, invoking directly", [("method", .text method)]⟩
  | checkFailed method permission error =>
    ⟨.warn, "authorization check failed",
      [("method", .text method), ("permission", .text permission), ("error", .text error.message)]⟩
  | collectionNarrowed permission before after removed =>
    ⟨.debug, "collection narrowed",
      [("permission", .text permission), ("candidates_before", .count before),
        ("candidates_after", .count after), ("removed", .count removed)]⟩

/-- The log of a call. -/
def Effect.record? : Effect → Option LogRecord
  | noticed n => some n.record
  | logged e => some e.record
  | _ => none

/-- Where the guarded operation was started, its arguments. -/
def Effect.started? : Effect → Option Arguments
  | started arguments => some arguments
  | _ => none

end AccessGuard
