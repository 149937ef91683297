import PhpOutline.Json.Basic

/-!
# Shapes of JSON values

Which values are taken somewhere. The fields of a record come as an object, in which further fields
are ignored, or as a list in their fixed order.
-/

namespace PhpOutline

abbrev Shape := Json → Bool

namespace Shape

def any : Shape := fun _ => true

def flag : Shape := fun json => json.bool?.isSome

def text : Shape := fun json => json.string?.isSome

def int32 : Shape := fun json => json.int32?.isSome

def nat32 : Shape := fun json => json.nat32?.isSome

def number : Shape
  | .int _ | .decimal _ => true
  | _ => false

def word (words : List String) : Shape := fun json => (json.word?.map words.contains).getD false

def nullable (shape : Shape) : Shape
  | .null => true
  | json => shape json

def list (item : Shape) : Shape
  | .arr items => items.all item
  | _ => false

/-- A list of exactly two values. -/
def pair (item : Shape) : Shape
  | .arr [first, second] => item first && item second
  | _ => false

def table (key : String → Bool) (value : Shape) : Shape
  | .obj fields => fields.all fun (name, json) => key name && value json
  | _ => false

def either (first second : Shape) : Shape := fun json => first json || second json

end Shape

/-! ## Records -/

namespace Record

/-- Where a field may be left out. -/
inductive Omission where
  | never
  | inObjects
  | anywhere
deriving DecidableEq, Repr, Inhabited

structure Field where
  name : String
  omission : Omission
  shape : Shape

def needed (name : String) (shape : Shape) : Field := ⟨name, .never, shape⟩

/-- A field that may be null, and missing in an object. -/
def allowed (name : String) (shape : Shape) : Field := ⟨name, .inObjects, .nullable shape⟩

/-- A field that may be missing, but is never null. -/
def preset (name : String) (shape : Shape) : Field := ⟨name, .anywhere, shape⟩

def Field.fits (field : Field) (object : Json) : Bool :=
  match object.field? field.name with
  | some value => field.shape value
  | none => field.omission != .never

end Record

abbrev Record := List Record.Field

namespace Record

/-- An object for a list of the values of the fields, of which the last may be missing. -/
def ofItems? (record : Record) (items : List Json) : Option Json :=
  if items.length ≤ record.length ∧
      (record.drop items.length).all (·.omission == .anywhere) then
    some (.obj ((record.map (·.name)).zip items))
  else none

/-- The record as an object, if it comes as one. -/
def plainObject? (record : Record) (json : Json) : Option Json :=
  if json.fields?.isSome && record.all (·.fits json) then some json else none

/-- The record as an object, whether it comes as one or as a list. -/
def object? (record : Record) : Json → Option Json
  | .arr items => (record.ofItems? items).bind record.plainObject?
  | json => record.plainObject? json

end Record

namespace Shape

def record (fields : Record) : Shape := fun json => (fields.object? json).isSome

def object (fields : Record) : Shape := fun json => (fields.plainObject? json).isSome

/-- A record as an object, all of whose further fields are of the shape `other`. -/
def objectWith (fields : Record) (other : Shape) : Shape := fun json =>
  object fields json &&
    (json.fields?.getD []).all fun (name, value) => fields.any (·.name = name) || other value

/-- One of several records, which the field `key` or the first item of a list tells apart, by name or
by number. -/
def tagged (key : String) (cases : List (String × Record)) : Shape := fun json =>
  let fields? (tag : Json) : Option Record :=
    match tag with
    | .str name => cases.lookup name
    | .int (.ofNat number) => cases[number]?.map (·.2)
    | _ => none
  match json with
  | .obj fields => ((fields.lookup key).bind fields?).any (object · json)
  | .arr (tag :: items) => (fields? tag).any (record · (.arr items))
  | _ => false

end Shape

end PhpOutline
