import SheetGraph.Compile.Command
import SheetGraph.Shell.Reader
import SheetGraph.Shell.Utility

/-!
# Running programs

`Script.exec` carries out a script; it leaves the disk as it is.  `runProgram` runs the programs
there are, which are the shell and the utilities, by their names or by their paths in the system's
directories for programs.
-/

namespace SheetGraph.Shell

/-- A shell in the middle of a script. -/
structure Machine where
  name : String
  arguments : List String
  bindings : List (String × String) := []
  status : Nat := 0
  out : ByteArray := .empty
  err : ByteArray := .empty
  ended : Bool := false

namespace Machine

/-- The number that a shell gives for its own process. -/
def processId : String := "1"

/-- The value of a parameter. -/
def parameter (m : Machine) (name : String) : String :=
  match name with
  | "0" => m.name
  | "#" => toString m.arguments.length
  | "?" => toString m.status
  | "$" => processId
  | "@" | "*" => " ".intercalate m.arguments
  | _ =>
    match name.toNat? with
    | some n => m.arguments.getD (n - 1) ""
    | none => (m.bindings.lookup name).getD ""

/-- The machine with a value for a variable. -/
def set (m : Machine) (name value : String) : Machine :=
  { m with bindings := (name, value) :: m.bindings }

/-- The machine after a program has replied. -/
def absorb (m : Machine) (r : Reply) : Machine :=
  { m with status := r.status, out := m.out ++ r.out, err := m.err ++ r.err }

end Machine

/-! ### Words -/

/-- Fields that are being put together. -/
structure Fields where
  complete : List (List Char) := []
  open? : Option (List Char) := none

namespace Fields

/-- The fields with more characters in the last of them. -/
def put (f : Fields) (cs : List Char) : Fields :=
  { f with open? := some (f.open?.getD [] ++ cs) }

/-- The fields with the last of them completed. -/
def cut (f : Fields) : Fields :=
  match f.open? with
  | none => f
  | some cs => ⟨f.complete ++ [cs], none⟩

/-- The fields with a text that is cut at its blanks. -/
def putCut (f : Fields) (cs : List Char) : Fields :=
  cs.foldl (fun f c => if c = ' ' ∨ c = '\t' ∨ c = '\n' then f.cut else f.put [c]) f

/-- The fields with one text a field. -/
def putEach (f : Fields) : List (List Char) → Fields
  | [] => f
  | [cs] => f.put cs
  | cs :: rest => putEach (f.put cs).cut rest

/-- The fields with a piece of a word. -/
def putPiece (m : Machine) (f : Fields) : Piece → Fields
  | .text cs _ => f.put cs
  | .parameter ['@'] true => f.putEach (m.arguments.map String.toList)
  | .parameter name true => f.put (m.parameter (String.ofList name)).toList
  | .parameter name false => f.putCut (m.parameter (String.ofList name)).toList

end Fields

/-- Whether the word is nothing but all arguments in quotes, which may be none. -/
def isAllArguments (w : Word) : Bool :=
  w == [.text [] true, .parameter ['@'] true]

/-- The fields of a word. -/
def fieldsOf (m : Machine) (w : Word) : List String :=
  if isAllArguments w then m.arguments
  else (w.foldl (Fields.putPiece m) {}).cut.complete.map String.ofList

/-- The value of a word that makes up one field. -/
def valueOf (m : Machine) (w : Word) : String :=
  " ".intercalate (fieldsOf m w)

/-! ### Scripts -/

/-- The machine after a command has complained. -/
def Machine.complain (m : Machine) (status : Nat) (message : String) : Machine :=
  m.absorb (.complaint status (m.name ++ ": 1: " ++ message))

/-- The machine at the end of its script. -/
def Machine.finish (m : Machine) (status : Nat) : Machine :=
  { m with status := status, ended := true }

/-- The machine after a program that the shell does not know by itself. -/
def Machine.start (m : Machine) (d : Disk) (name : String) (args : List String) : Machine :=
  match utility? d args name with
  | some reply => m.absorb reply
  | none => m.complain 127 (name ++ ": not found")

/-- The machine after a command. -/
def Machine.call (m : Machine) (d : Disk) : List String → Machine
  | [] => m
  | ["exit"] => m.finish m.status
  | "exit" :: code :: _ =>
    match code.toNat? with
    | some n => m.finish (n % 256)
    | none => (m.complain 2 ("exit: Illegal number: " ++ code)).finish 2
  | "kill" :: args =>
    if args.getLast? = some processId then m.finish 137
    else m.complain 1 "kill: No such process"
  | "shift" :: args =>
    { m with arguments := m.arguments.drop ((args.head?.bind String.toNat?).getD 1), status := 0 }
  | "exec" :: name :: args =>
    let m := m.start d name args
    m.finish m.status
  | name :: args => m.start d name args

/-- Where the two streams lead after redirections. -/
def streamTargets (redirections : List Redirection) : Option Stream × Option Stream :=
  redirections.foldl (fun (out, err) r =>
    let target := match r.target with
      | none => none
      | some .out => out
      | some .err => err
    match r.stream with
    | .out => (target, err)
    | .err => (out, target)) (some .out, some .err)

/-- What of two outputs leads to a stream. -/
def collected (targets : Option Stream × Option Stream) (stream : Stream) (out err : ByteArray) :
    ByteArray :=
  (if targets.1 = some stream then out else .empty) ++
    (if targets.2 = some stream then err else .empty)

/-- **The machine after a script.** -/
def Script.exec (d : Disk) : Script → Machine → Machine
  | .nothing, m => m
  | .run words, m => m.call d (words.flatMap (fieldsOf m))
  | .assign name value, m => { m.set (String.ofList name) (valueOf m value) with status := 0 }
  | .both first second, m =>
    let m := exec d first m
    if m.ended then m else exec d second m
  | .andThen first second, m =>
    let m := exec d first m
    if m.ended || m.status != 0 then m else exec d second m
  | .orElse first second, m =>
    let m := exec d first m
    if m.ended || m.status == 0 then m else exec d second m
  | .negated body, m =>
    let m := exec d body m
    if m.ended then m else { m with status := if m.status = 0 then 1 else 0 }
  | .choice test yes no, m =>
    let m := exec d test m
    if m.ended then m
    else if m.status = 0 then exec d yes m
    else exec d no { m with status := 0 }
  | .each name items body, m =>
    let fields := match items with
      | none => m.arguments
      | some words => words.flatMap (fieldsOf m)
    fields.foldl
      (fun m field => if m.ended then m else exec d body (m.set (String.ofList name) field))
      { m with status := 0 }
  | .redirected body redirections, m =>
    let inner := exec d body { m with out := .empty, err := .empty }
    let targets := streamTargets redirections
    { inner with
      out := m.out ++ collected targets .out inner.out inner.err
      err := m.err ++ collected targets .err inner.out inner.err }

/-- A script run from its text. -/
def runText (d : Disk) (text name : String) (args : List String) : Reply :=
  match Script.read? text.toList with
  | none => .complaint 2 (name ++ ": 1: Syntax error")
  | some script =>
    let m := script.exec d { name := name, arguments := args }
    { status := m.status, out := m.out, err := m.err }

/-- The shell with its arguments: a script or the path of one, and what the script is given. -/
def shell (d : Disk) (args : List String) : Reply :=
  match args with
  | [] => {}
  | ["-c"] => .complaint 2 "sh: 0: -c requires an argument"
  | ["-c", text] => runText d text "sh" []
  | "-c" :: text :: name :: args => runText d text name args
  | file :: args =>
    if file.toList.head? = some '-' then .complaint 2 "sh: 0: Illegal option --"
    else match d.readText ⟨file⟩ with
      | .ok text => runText d text file args
      | .error _ => .complaint 2 s!"sh: 0: cannot open {file}: No such file"

/-- The program with the given name. -/
def program? (d : Disk) (args : List String) (name : String) : Option Reply :=
  if name = "sh" then some (shell d args)
  else if name = ":" then none
  else utility? d args name

/-- The name of a program in one of the system's directories for programs. -/
def systemName? (program : String) : Option String :=
  ["/bin/", "/usr/bin/"].findSome? fun dir =>
    if dir.toList.isPrefixOf program.toList then
      some (String.ofList (program.toList.drop dir.length))
    else none

/-- **A program run with its arguments.** -/
def runProgram : ProgramRunner := fun d program args =>
  let reply? :=
    if program.toList.contains '/' then (systemName? program).bind (program? d args)
    else program? d args program
  match reply? with
  | some reply => .ok ⟨reply.status == 0, reply.out, reply.err⟩
  | none =>
    if program.toList.contains '/' then
      match d.find ⟨program⟩ with
      | .ok _ => .error .permissionDenied
      | .error e => .error e
    else .error .notFound

end SheetGraph.Shell
