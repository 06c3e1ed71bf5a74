import SheetGraph.CommandLine.Arguments
import SheetGraph.Text.DecimalDigit

/-!
# Reading the command line

`Arguments.ofWords` reads a call of the program.  Words are taken one after the other: a word with
two dashes names an option, one with a single dash a run of flags, and any other word is the value
of the option in front of it or an operand.  Behind `--` all words are operands.  The value of an
option is checked when the next option or operand is met, so an error in an earlier word is found
before one in a later word, but not before a word that has no place at all.
-/

namespace SheetGraph.CommandLine

/-- The options and operands of all commands. -/
inductive Parameter where
  | config | verbose | help | version
  | source | target | style | sourceMap | noSourceMap | libraryPath
  | dryRun | failFast | jobs | direct | json | name
  | files | directory
  deriving DecidableEq

/-- What a parameter is given. -/
inductive ParameterValue where
  | present
  | path (p : Path)
  | text (s : String)
  | number (n : Nat)
  | style (s : OutputStyle)
  deriving DecidableEq

namespace Parameter

/-- Whether the parameter stands behind its option as a word of its own. -/
def takesValue : Parameter → Bool
  | config | source | target | style | libraryPath | jobs | name | files | directory => true
  | _ => false

/-- Whether the parameter may be given again. -/
def repeats : Parameter → Bool
  | verbose | libraryPath | files => true
  | _ => false

/-- A number of 64 bits in decimal digits. -/
def readNumber? (s : String) : Option Nat :=
  match s.toList with
  | '+' :: digits => Text.readNat64? digits
  | digits => Text.readNat64? digits

/-- The value that a word writes. -/
def read (p : Parameter) (word : String) : Except UsageError ParameterValue :=
  match p with
  | jobs => match readNumber? word with
    | some n => .ok (.number n)
    | none => .error .invalidNumber
  | style => match OutputStyle.ofName? word with
    | some s => .ok (.style s)
    | none => .error .invalidValue
  | name => .ok (.text word)
  | _ => if word = "" then .error .invalidValue else .ok (.path ⟨word⟩)

end Parameter

/-- An option: its long name, its letter and its parameter. -/
structure OptionForm where
  long : String
  short : Option Char := none
  parameter : Parameter

/-- What the words of a command that are no options stand for. -/
inductive OperandForm where
  | none
  | single (p : Parameter)
  | many (p : Parameter)
  | command

/-- The words that a command takes. -/
structure CommandForm where
  options : List OptionForm
  operands : OperandForm

/-- The options of every command. -/
def commonOptions : List OptionForm :=
  [⟨"config", none, .config⟩, ⟨"verbose", some 'v', .verbose⟩, ⟨"help", some 'h', .help⟩]

/-- The options that override settings. -/
def overrideOptions : List OptionForm :=
  [⟨"source", none, .source⟩, ⟨"target", none, .target⟩, ⟨"style", none, .style⟩,
    ⟨"source-map", none, .sourceMap⟩, ⟨"no-source-map", none, .noSourceMap⟩,
    ⟨"library-path", some 'I', .libraryPath⟩]

/-- The words in front of the name of a command. -/
def topForm : CommandForm :=
  ⟨commonOptions ++ [⟨"version", some 'V', .version⟩], .command⟩

/-- The words that each command takes. -/
def commandForms : List (String × CommandForm) :=
  [("compile", ⟨commonOptions ++ overrideOptions ++
      [⟨"dry-run", none, .dryRun⟩, ⟨"fail-fast", none, .failFast⟩, ⟨"jobs", some 'j', .jobs⟩],
      .none⟩),
    ("watch", ⟨commonOptions ++ overrideOptions, .none⟩),
    ("inspect", ⟨commonOptions ++ overrideOptions ++
      [⟨"direct", none, .direct⟩, ⟨"json", none, .json⟩], .many .files⟩),
    ("sources", ⟨commonOptions ++ overrideOptions ++ [⟨"json", none, .json⟩], .none⟩),
    ("init", ⟨commonOptions ++ [⟨"name", none, .name⟩], .single .directory⟩)]

/-- The word that asks for help on a command. -/
def helpWord : String := "help"

/-- Whether a word is the name of a command. -/
def isCommandName (word : String) : Bool :=
  word == helpWord || (commandForms.lookup word).isSome

/-! ### Words -/

/-- What a word that starts with dashes is. -/
inductive Dashed where
  /-- An option by its name, with the value behind an equals sign. -/
  | long (name : String) (value : Option String)
  /-- A run of flags, the last of which may have its value behind it. -/
  | short (flags : List Char)

/-- What a word is, if it starts with a dash and does not end with it. -/
def dashed? (word : String) : Option Dashed :=
  match word.toList with
  | '-' :: '-' :: rest =>
    some <| .long (String.ofList (rest.takeWhile (· != '='))) <|
      match rest.dropWhile (· != '=') with
      | _ :: value => some (String.ofList value)
      | [] => none
  | '-' :: c :: rest => some (.short (c :: rest))
  | _ => none

/-! ### Reading word by word -/

/-- What has been read of a call. -/
structure Reading where
  /-- The parameters that have a value, with their values. -/
  taken : List (Parameter × ParameterValue) := []
  /-- The parameter whose values are still to be checked, with the words for them. -/
  pending : Option (Parameter × List String) := none
  /-- Whether the next word is a value of that parameter. -/
  awaits : Bool := false

namespace Reading

/-- Whether the parameter has a value. -/
def has (r : Reading) (p : Parameter) : Bool :=
  r.taken.any (·.1 == p)

/-- The reading with values for a parameter. -/
def take (r : Reading) (p : Parameter) (words : List String) : Except UsageError Reading :=
  if words.isEmpty then .error .invalidValue
  else if !p.repeats && r.has p then .error .conflict
  else (fun values => { r with taken := r.taken ++ values.map (p, ·) }) <$> words.mapM p.read

/-- The reading with nothing pending. -/
def settle (r : Reading) : Except UsageError Reading :=
  match r.pending with
  | none => .ok r
  | some (p, words) => { r with pending := none, awaits := false }.take p words

/-- The reading with a flag. -/
def switch (r : Reading) (p : Parameter) : Except UsageError Reading :=
  match r.settle with
  | .error e => .error e
  | .ok r =>
    if p = .help then .error .helpWanted
    else if p = .version then .error .versionWanted
    else if !p.repeats && r.has p then .error .conflict
    else .ok { r with taken := r.taken ++ [(p, .present)] }

/-- The reading with an option that takes a value, which may stand in the same word. -/
def takeOption (r : Reading) (p : Parameter) (value? : Option String) : Except UsageError Reading :=
  match r.settle with
  | .error e => .error e
  | .ok r =>
    match value? with
    | some value => r.take p [value]
    | none => .ok { r with pending := some (p, []), awaits := true }

/-- The reading with an option by its name. -/
def long (r : Reading) (form : CommandForm) (name : String) (value? : Option String) :
    Except UsageError Reading :=
  match form.options.find? (·.long == name), value? with
  | none, _ => .error .unknownArgument
  | some o, value? =>
    if o.parameter.takesValue then r.takeOption o.parameter value?
    else if value?.isSome then .error .unexpectedValue
    else r.switch o.parameter

/-- The reading with a run of flags. -/
def short (form : CommandForm) (r : Reading) : List Char → Except UsageError Reading
  | [] => .ok r
  | c :: rest =>
    match form.options.find? (·.short == some c) with
    | none => .error .unknownArgument
    | some o =>
      if o.parameter.takesValue then
        r.takeOption o.parameter <| match rest with
          | [] => none
          | '=' :: value => some (String.ofList value)
          | value => some (String.ofList value)
      else match r.switch o.parameter with
        | .error e => .error e
        | .ok r => short form r rest

/-- The reading with one more value for the parameter that awaits it. -/
def awaited (r : Reading) (word : String) : Reading :=
  { r with pending := r.pending.map fun p => (p.1, p.2 ++ [word]), awaits := false }

/-- The reading with an operand. -/
def operand (r : Reading) (form : OperandForm) (word : String) : Except UsageError Reading :=
  match form with
  | .none | .command => .error .unknownArgument
  | .single p =>
    if r.has p || r.pending.any (·.1 == p) then .error .unknownArgument
    else (fun r => { r with pending := some (p, [word]) }) <$> r.settle
  | .many p =>
    if r.pending.any (·.1 == p) then .ok (r.awaited word)
    else (fun r => { r with pending := some (p, [word]) }) <$> r.settle

end Reading

/-- The reading of all words, or of those in front of the name of a command with that name and the
words behind it; `plain` tells whether dashes have lost their meaning. -/
def readWords (form : CommandForm) : (plain : Bool) → Reading → List String →
    Except UsageError (Reading × Option (String × List String))
  | _, r, [] => .ok (r, none)
  | plain, r, word :: words =>
    match if plain then none else dashed? word with
    | some (.long "" none) => readWords form true r words
    | some (.long name value?) =>
      match r.long form name value? with
      | .error e => .error e
      | .ok r => readWords form false r words
    | some (.short flags) =>
      match r.short form flags with
      | .error e => .error e
      | .ok r => readWords form false r words
    | none =>
      if !plain && r.awaits then readWords form false (r.awaited word) words
      else match form.operands with
        | .command =>
          if isCommandName word then
            if plain then .error .unknownArgument else .ok (r, some (word, words))
          else .error .unknownCommand
        | operands =>
          match r.operand operands word with
          | .error e => .error e
          | .ok r => readWords form plain r words

/-! ### Calls -/

namespace Reading

/-- The paths that a parameter was given. -/
def paths (r : Reading) (p : Parameter) : List Path :=
  r.taken.filterMap fun (q, v) => match v with
    | .path path => if q = p then some path else none
    | _ => none

/-- The text that a parameter was given. -/
def text? (r : Reading) (p : Parameter) : Option String :=
  r.taken.findSome? fun (q, v) => match v with
    | .text s => if q = p then some s else none
    | _ => none

/-- The number that was given. -/
def number? (r : Reading) : Option Nat :=
  r.taken.findSome? fun (_, v) => match v with
    | .number n => some n
    | _ => none

/-- The style that was given. -/
def style? (r : Reading) : Option OutputStyle :=
  r.taken.findSome? fun (_, v) => match v with
    | .style s => some s
    | _ => none

/-- How often more was asked to be told; one byte counts it. -/
def verbosity (r : Reading) : Nat :=
  min 255 (r.taken.countP (·.1 == .verbose))

/-- The options that override settings. -/
def overrides (r : Reading) : OverrideOptions where
  source := (r.paths .source).head?
  target := (r.paths .target).head?
  style := r.style?
  sourceMap := r.has .sourceMap
  noSourceMap := r.has .noSourceMap
  libraryPaths := r.paths .libraryPath

/-- The command with the name. -/
def command? (r : Reading) : (name : String) → Option Command
  | "compile" => some (.compile r.overrides (r.has .dryRun) (r.has .failFast) r.number?)
  | "watch" => some (.watch r.overrides)
  | "inspect" => some (.inspect r.overrides (r.paths .files) (r.has .direct) (r.has .json))
  | "sources" => some (.sources r.overrides (r.has .json))
  | "init" => some (.init (r.paths .directory).head? (r.text? .name))
  | _ => none

end Reading

/-- The words behind the name of a command, all checked. -/
def readCommand (form : CommandForm) (words : List String) : Except UsageError Reading :=
  match readWords form false {} words with
  | .error e => .error e
  | .ok (r, _) =>
    match r.settle with
    | .error e => .error e
    | .ok r => if r.has .sourceMap && r.has .noSourceMap then .error .conflict else .ok r

/-- What a call asks for that asks for help on the commands `words`. -/
def helpOn : List String → UsageError
  | [] => .helpWanted
  | [word] => if isCommandName word then .helpWanted else .unknownCommand
  | _ => .unknownCommand

/-- **What a call of the program asks for.** -/
def Arguments.ofWords (words : List String) : Except UsageError Arguments :=
  match readWords topForm false {} words with
  | .error e => .error e
  | .ok (top, none) =>
    match top.settle with
    | .error e => .error e
    | .ok top => .error (if top.taken.isEmpty then .nothing else .missingCommand)
  | .ok (top, some (name, words)) =>
    if name = helpWord then .error (helpOn words)
    else match commandForms.lookup name with
      | none => .error .unknownCommand
      | some form =>
        match readCommand form words with
        | .error e => .error e
        | .ok inner =>
          match top.settle with
          | .error e => .error e
          | .ok top =>
            match inner.command? name with
            | none => .error .unknownCommand
            | some command => .ok {
                config := (inner.paths .config ++ top.paths .config).head?
                verbosity := if inner.has .verbose then inner.verbosity else top.verbosity
                command := command }

end SheetGraph.CommandLine
