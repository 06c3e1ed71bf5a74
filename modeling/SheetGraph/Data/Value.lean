/-!
# Values

What a JSON or a TOML text writes: the fields of a table in their order, repeated keys included, and
a number as an integer when it is written as one.
-/

namespace SheetGraph

/-- A value of a data format. -/
inductive Value where
  | null
  | bool (b : Bool)
  | integer (i : Int)
  | decimal (digits : String)
  | text (s : String)
  | brokenText
  | moment (text : String)
  | array (items : List Value)
  | table (fields : List (String × Value))

namespace Value

instance : Inhabited Value := ⟨null⟩

/-- The value of the last field with the key. -/
def field? (key : String) : Value → Option Value
  | table fields => (fields.reverse.find? fun f => f.1 == key).map (·.2)
  | _ => none

/-- A natural number. -/
def nat (n : Nat) : Value := integer n

/-- A list of texts. -/
def texts (ss : List String) : Value := array (ss.map text)

/-- The value, or `null` for none. -/
def optional (f : α → Value) : Option α → Value
  | none => null
  | some a => f a

end Value

end SheetGraph
