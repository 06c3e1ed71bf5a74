/-!
# What a run of the program says

A run prints messages on two streams and ends with an exit code.
-/

namespace SheetGraph

/-- A text on one of the two output streams. -/
inductive Message where
  | told (text : String)
  | complained (text : String)
  deriving DecidableEq

namespace Message

/-- A line of what the program has to tell. -/
def line (text : String) : Message :=
  told (text ++ "\n")

/-- A line of what it complains about. -/
def errorLine (text : String) : Message :=
  complained (text ++ "\n")

/-- All that the program has told. -/
def outText (messages : List Message) : String :=
  String.join <| messages.map fun m => match m with
    | told text => text
    | complained _ => ""

/-- All that it has complained about. -/
def errorText (messages : List Message) : String :=
  String.join <| messages.map fun m => match m with
    | told _ => ""
    | complained text => text

end Message

/-- How a run ends. -/
inductive ExitCode where
  | success
  | failure
  | misuse
  deriving DecidableEq

/-- The number of the exit code. -/
def ExitCode.number : ExitCode → Nat
  | success => 0
  | failure => 1
  | misuse => 2

end SheetGraph
