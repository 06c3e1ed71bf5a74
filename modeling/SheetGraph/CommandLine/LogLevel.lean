/-!
# Levels of the log

How much is logged, which the number of `-v` flags decides.  What is logged is left out, since
nothing depends on it.
-/

namespace SheetGraph

/-- How much is logged. -/
inductive LogLevel where
  | warn
  | info
  | debug
  | trace
  deriving DecidableEq

namespace LogLevel

/-- The level for a number of `-v` flags. -/
def ofVerbosity : Nat → LogLevel
  | 0 => warn
  | 1 => info
  | 2 => debug
  | _ => trace

/-- The name of the level. -/
def name : LogLevel → String
  | warn => "warn"
  | info => "info"
  | debug => "debug"
  | trace => "trace"

end LogLevel

end SheetGraph
