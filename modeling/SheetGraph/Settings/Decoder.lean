import SheetGraph.Data.Value
import SheetGraph.Settings.Basic

/-!
# Settings from values

`Settings.decode?` reads settings out of a value.  A section may be a table, in which keys that are
none of its own are passed over, or a list of its fields in their order.  What is left out has its
default.
-/

namespace SheetGraph

/-- The format a value comes from. -/
inductive DataFormat where
  /-- JSON: a list may not be longer than a section, and keys of a section may not be repeated. -/
  | json
  /-- TOML: what a list has too much is passed over, and no key is repeated to begin with. -/
  | toml
  deriving DecidableEq

namespace Settings

/-- The values of the fields `keys` of a section. -/
def sectionFields? (format : DataFormat) (keys : List String) : Value → Option (List (Option Value))
  | .table fields =>
    if keys.all fun key => (fields.filter fun f => f.1 == key).length ≤ 1 then
      some (keys.map fun key => fields.lookup key)
    else none
  | .array items =>
    if format = .json ∧ keys.length < items.length then none
    else some ((List.range keys.length).map fun i => items[i]?)
  | .moment _ => some (keys.map fun _ => none)
  | _ => none

/-- A field that has a default. -/
def fieldOr (default : α) (decode : Value → Option α) : Option Value → Option α
  | none => some default
  | some v => decode v

/-- A text. -/
def decodeText? : Value → Option String
  | .text s => some s
  | _ => none

/-- A path. -/
def decodePath? (v : Value) : Option Path :=
  (decodeText? v).map Path.mk

/-- A truth value. -/
def decodeBool? : Value → Option Bool
  | .bool b => some b
  | _ => none

/-- A list of values of one kind. -/
def decodeList? (decode : Value → Option α) : Value → Option (List α)
  | .array items => items.mapM decode
  | _ => none

/-- A number of 32 bits. -/
def decodeNat32? : Value → Option Nat
  | .integer i => if 0 ≤ i ∧ i < 4294967296 then some i.toNat else none
  | _ => none

/-- Whether the value says nothing, as what stands behind the name of a style has to. -/
def isNothing (format : DataFormat) : Value → Bool
  | .null => format = .json
  | .table [] => format = .toml
  | .array [] => format = .toml
  | _ => false

/-- A style: its name, or a table with its name for the only key. -/
def decodeStyle? (format : DataFormat) : Value → Option OutputStyle
  | .text s => OutputStyle.ofName? s
  | .table [(name, v)] => if isNothing format v then OutputStyle.ofName? name else none
  | _ => none

/-- A text that may be null. -/
def decodeOptionalText? : Value → Option (Option String)
  | .null => some none
  | v => (decodeText? v).map some

/-- The section on where sources and outputs are. -/
def decodeProject? (format : DataFormat) (v : Value) : Option ProjectSettings := do
  match ← sectionFields? format ["source", "target", "library_paths", "excludes"] v with
  | [source, target, libraryPaths, excludes] =>
    return {
      source := ← fieldOr ⟨"scss"⟩ decodePath? source
      target := ← fieldOr ⟨"css"⟩ decodePath? target
      libraryPaths := ← fieldOr [] (decodeList? decodePath?) libraryPaths
      excludes := ← fieldOr [] (decodeList? decodeText?) excludes }
  | _ => none

/-- The section on how outputs look. -/
def decodeOutput? (format : DataFormat) (v : Value) : Option OutputSettings := do
  match ← sectionFields? format ["style", "source_map", "hash_suffix"] v with
  | [style, sourceMap, hashSuffix] =>
    return {
      style := ← fieldOr .expanded (decodeStyle? format) style
      sourceMap := ← fieldOr false decodeBool? sourceMap
      hashSuffix := ← fieldOr none decodeOptionalText? hashSuffix }
  | _ => none

/-- The section on the compiler. -/
def decodeCompiler? (format : DataFormat) (v : Value) : Option CompilerSettings := do
  match ← sectionFields? format ["program", "args"] v with
  | [program, args] =>
    return {
      program := ← fieldOr "sass" decodeText? program
      args := ← fieldOr [] (decodeList? decodeText?) args }
  | _ => none

/-- The section on how edits are watched for. -/
def decodeWatch? (format : DataFormat) (v : Value) : Option WatchSettings := do
  match ← sectionFields? format ["debounce_ms", "clear_screen"] v with
  | [debounceMs, clearScreen] =>
    return {
      debounceMs := ← fieldOr 200 decodeNat32? debounceMs
      clearScreen := ← fieldOr false decodeBool? clearScreen }
  | _ => none

/-- **The settings that a value holds**, if it holds settings. -/
def decode? (format : DataFormat) (v : Value) : Option Settings := do
  match ← sectionFields? format ["project", "output", "compiler", "watch"] v with
  | [project, output, compiler, watch] =>
    return {
      project := ← fieldOr {} (decodeProject? format) project
      output := ← fieldOr {} (decodeOutput? format) output
      compiler := ← fieldOr {} (decodeCompiler? format) compiler
      watch := ← fieldOr {} (decodeWatch? format) watch }
  | _ => none

end Settings

end SheetGraph
