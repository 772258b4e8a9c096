/-!
# LineExchange.Text

How numbers and values are written in messages. `hex` is base 16 behind `0x`. Record notation
writes a value by its constructor: `record` for `Name { field: value }`, `tuple` for
`Name(value)`, `listing` for `[a, b]`.
-/

namespace LineExchange.Text

/-- A number in base 16 behind `0x`, without leading zeros. -/
def hex (n : Nat) : String := "0x" ++ String.ofList (Nat.toDigits 16 n)

def listing (items : List String) : String := "[" ++ ", ".intercalate items ++ "]"

/-- A constructor with unnamed arguments; the bare name if there are none. -/
def tuple (name : String) (args : List String) : String :=
  if args.isEmpty then name else name ++ "(" ++ ", ".intercalate args ++ ")"

def record (name : String) (fields : List (String × String)) : String :=
  name ++ " \x7b " ++ ", ".intercalate (fields.map fun (n, v) => n ++ ": " ++ v) ++ " \x7d"

/-- A constructor of which only some fields are shown. -/
def openRecord (name : String) (fields : List (String × String)) : String :=
  name ++ " \x7b " ++ String.join (fields.map fun (n, v) => n ++ ": " ++ v ++ ", ") ++ ".. \x7d"

def quoted (s : String) : String := "\"" ++ s ++ "\""

/-- The text up to the first line break. -/
def firstLine (s : String) : String := String.ofList (s.toList.takeWhile (· != '\n'))

def option (shown : α → String) : Option α → String
  | none => "None"
  | some a => tuple "Some" [shown a]

/-- The answer of a fallible call: `Ok(value)` or `Err(error)`. -/
def result (value : α → String) (error : ε → String) : Except ε α → String
  | .ok a => tuple "Ok" [value a]
  | .error e => tuple "Err" [error e]

end LineExchange.Text
