import SheetGraph.Data.Value

/-!
# Tables under construction

While a TOML text is read, a table remembers how it came about, for that decides who may still add
to it: a table with a header of its own is only filled below that header, one that dotted keys made
only by dotted keys, and one that is no more than part of a longer header may get its own header
once.
-/

namespace SheetGraph.Toml

/-- How a table came about. -/
inductive Origin where
  | header
  | implied
  | dotted
  deriving DecidableEq

/-- What a key stands for in a table under construction. -/
inductive Node where
  | value (v : Value)
  | table (origin : Origin) (fields : List (String × Node))
  | tables (all : List (List (String × Node)))

namespace Node

/-- The fields of a table under construction. -/
abbrev Fields := List (String × Node)

/-- The fields with another node for the key. -/
def set (key : String) (node : Node) : Fields → Fields
  | [] => [(key, node)]
  | (k, n) :: fields => if k = key then (k, node) :: fields else (k, n) :: set key node fields

/-- The fields with a change made in the table at the end of a path of keys, on the way to which
tables are made as needed.  Dotted keys do not pass through tables with a header. -/
def change (dotted : Bool) (f : Origin → Fields → Option Fields) :
    (path : List String) → Origin → Fields → Option Fields
  | [], origin, fields => f origin fields
  | key :: path, _, fields =>
    match fields.lookup key with
    | none =>
      let origin : Origin := if dotted then .dotted else .implied
      (change dotted f path origin []).map fun inner => set key (.table origin inner) fields
    | some (.value _) => none
    | some (.tables all) =>
      match all.getLast? with
      | none => none
      | some last => (change dotted f path .header last).map fun inner =>
          set key (.tables (all.dropLast ++ [inner])) fields
    | some (.table origin inner) =>
      if dotted && origin == .header then none
      else (change dotted f path origin inner).map fun inner =>
        set key (.table origin inner) fields

/-- The fields with one more value, under a key that may be dotted. -/
def addValue (path : List String) (key : String) (v : Value) (origin : Origin) (fields : Fields) :
    Option Fields :=
  change true (fun origin fields =>
    if !path.isEmpty && origin != .dotted then none
    else if (fields.lookup key).isSome then none
    else some (fields ++ [(key, .value v)])) path origin fields

/-- The fields with a table that has its header now. -/
def openTable (path : List String) (key : String) (fields : Fields) : Option Fields :=
  change false (fun _ fields =>
    match fields.lookup key with
    | none => some (set key (.table .header []) fields)
    | some (.table .implied inner) => some (set key (.table .header inner) fields)
    | _ => none) path .header fields

/-- The fields with one more of the tables that share a header. -/
def openTables (path : List String) (key : String) (fields : Fields) : Option Fields :=
  change false (fun _ fields =>
    match fields.lookup key with
    | none => some (set key (.tables [[]]) fields)
    | some (.tables all) => some (set key (.tables (all ++ [[]])) fields)
    | _ => none) path .header fields

mutual

/-- The value of a node. -/
def toValue : Node → Value
  | value v => v
  | table _ fields => .table (fieldValues fields)
  | tables all => .array (tableValues all)

/-- The values of fields. -/
def fieldValues : List (String × Node) → List (String × Value)
  | [] => []
  | (key, node) :: fields => (key, toValue node) :: fieldValues fields

/-- The values of tables. -/
def tableValues : List (List (String × Node)) → List Value
  | [] => []
  | fields :: all => .table (fieldValues fields) :: tableValues all

end

end Node

end SheetGraph.Toml
