/-!
# Log records

A run tells what it does by log records, each with a level and the part of the program that speaks.
-/

namespace Conformance

inductive LogLevel where
  | debug
  | warning
  | error
deriving DecidableEq, Repr

namespace LogLevel

def name : LogLevel → String
  | debug => "DEBUG"
  | warning => "WARNING"
  | error => "ERROR"

/-- Levels in the order of their importance. -/
def rank : LogLevel → Nat
  | debug => 0
  | warning => 1
  | error => 2

end LogLevel

/-- The parts of the program that speak. -/
inductive LogSource where
  | settings
  | discovery
  | checking
  | businessLogic
deriving DecidableEq, Repr

/-- The name of a part in log records. -/
def LogSource.name : LogSource → String
  | settings => "rubric.config"
  | discovery => "rubric.constraints.discovery"
  | checking => "rubric.validation.engine"
  | businessLogic => "rubric.validation.business_logic"

structure LogRecord where
  level : LogLevel
  source : LogSource
  message : String
deriving DecidableEq, Repr

/-- The records of at least the given level. -/
def LogRecord.atLeast (level : LogLevel) (records : List LogRecord) : List LogRecord :=
  records.filter fun r => level.rank ≤ r.level.rank

/-- A record as one line. -/
def LogRecord.line (r : LogRecord) : String :=
  r.level.name ++ " " ++ r.source.name ++ ": " ++ r.message

end Conformance
