/-!
# JSON values

The form in which settings, records and messages are exchanged. Integers written as such are told
apart from all other numbers, because only they count as integers where one is asked for.
-/

namespace PhpOutline

inductive Json where
  | null
  | bool (value : Bool)
  /-- A number written without fraction and exponent. -/
  | int (value : Int)
  /-- Any other number, as written. -/
  | decimal (literal : String)
  | str (value : String)
  | arr (items : List Json)
  /-- Fields in order, each key at most once. -/
  | obj (fields : List (String × Json))
deriving Repr, Inhabited

namespace Json

/-- Sets a field, in its old place if the key is there already. -/
def setField (key : String) (value : Json) : List (String × Json) → List (String × Json)
  | [] => [(key, value)]
  | field :: rest =>
    if field.1 = key then (key, value) :: rest else field :: setField key value rest

/-- An object with the fields given, later ones taking the place of earlier ones. -/
def ofFields (fields : List (String × Json)) : Json :=
  .obj (fields.foldl (fun acc field => setField field.1 field.2 acc) [])

def nat (n : Nat) : Json := .int n

/-! ## Reading -/

def fields? : Json → Option (List (String × Json))
  | obj fields => some fields
  | _ => none

def items? : Json → Option (List Json)
  | arr items => some items
  | _ => none

def string? : Json → Option String
  | str value => some value
  | _ => none

/-- A word, alone or as the only key of an object, with null under it. -/
def word? : Json → Option String
  | str word => some word
  | obj [(word, null)] => some word
  | _ => none

def bool? : Json → Option Bool
  | bool value => some value
  | _ => none

def intBetween? (lo hi : Int) : Json → Option Int
  | int value => if lo ≤ value ∧ value ≤ hi then some value else none
  | _ => none

def int32? : Json → Option Int := intBetween? (-2147483648) 2147483647

def natUpTo? (hi : Nat) (json : Json) : Option Nat :=
  (json.intBetween? 0 hi).map Int.toNat

def nat32? : Json → Option Nat := natUpTo? 4294967295

def nat64? : Json → Option Nat := natUpTo? 18446744073709551615

/-- A list, each of whose items can be read. -/
def list? {α : Type} (read : Json → Option α) (json : Json) : Option (List α) :=
  json.items?.bind (·.mapM read)

def field? (json : Json) (key : String) : Option Json :=
  json.fields?.bind (·.lookup key)

def required? {α : Type} (json : Json) (key : String) (read : Json → Option α) : Option α :=
  (json.field? key).bind read

/-- A field that may be missing, in which case it has the value `fallback`. -/
def withDefault? {α : Type} (json : Json) (key : String) (read : Json → Option α) (fallback : α) :
    Option α :=
  match json.field? key with
  | none => some fallback
  | some value => read value

/-- A field that may be missing or null. -/
def optional? {α : Type} (json : Json) (key : String) (read : Json → Option α) :
    Option (Option α) :=
  match json.field? key with
  | none | some null => some none
  | some value => (read value).map some

end Json

end PhpOutline
