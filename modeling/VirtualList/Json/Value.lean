import VirtualList.Index

/-!
# JSON values

Values of the JSON data format, and the shapes in which the types of this library are stored: a
record is an object with its fields by name or an array of its fields in order, and a plain
alternative is its name as a string or the only field of an object, with the value `null`.

Whole numbers written without a fraction are kept apart from all others, because an index may be
stored only as such.
-/

namespace VirtualList

/-- A JSON value. -/
inductive Json where
  | null
  | bool (value : Bool)
  /-- A number written without fraction and exponent. -/
  | integer (value : Int)
  /-- Any other number. -/
  | real (value : Float)
  | string (value : String)
  | array (values : List Json)
  | object (fields : List (String × Json))

/-- Types whose values can be stored as JSON. -/
class Storable (β : Type) where
  toJson : β → Json
  /-- The value that is stored, or `none` if what is stored does not have the right shape. -/
  ofJson? : Json → Option β

namespace Json

/-! ## Reading -/

/-- A number. -/
def scalar? : Json → Option Float
  | integer n => some (Float.ofInt n)
  | real x => some x
  | _ => none

/-- A natural number up to `limit`. -/
def natural? (limit : Nat) : Json → Option Nat
  | integer (.ofNat n) => if n ≤ limit then some n else none
  | _ => none

/-- A truth value. -/
def bool? : Json → Option Bool
  | bool b => some b
  | _ => none

/-- Either `null` or a value of the given shape. -/
def optional? {β : Type} (shape : Json → Option β) : Json → Option (Option β)
  | null => some none
  | value => (shape value).map some

/-- The field of a name.  Of several the last one counts. -/
def field? (fields : List (String × Json)) (name : String) : Option Json :=
  fields.reverse.lookup name

/-- The fields of a record that has at least the first `least` of them when it is stored as an
array.  Fields of other names are passed over. -/
def record? (names : List String) (least : Nat) : Json → Option (List (Option Json))
  | object fields => some (names.map (field? fields))
  | array values =>
    if least ≤ values.length ∧ values.length ≤ names.length then
      some (values.map some ++ List.replicate (names.length - values.length) none)
    else
      none
  | _ => none

/-- A plain alternative, given all of them with their names. -/
def alternative? {β : Type} (alternatives : List (String × β)) : Json → Option β
  | string name => alternatives.lookup name
  | object [(name, null)] => alternatives.lookup name
  | _ => none

/-- A field that may be missing, which counts as `null`. -/
def orNull (field : Option Json) : Json := field.getD null

/-- A field that may be missing, with the value it has then. -/
def orElse {β : Type} (shape : Json → Option β) (value : β) : Option Json → Option β
  | none => some value
  | some field => shape field

/-! ## Writing -/

/-- A natural number. -/
def ofNat (n : Nat) : Json := integer n

/-- A value, or `null`. -/
def ofOption {β : Type} (write : β → Json) : Option β → Json
  | none => null
  | some value => write value

end Json

instance : Storable Float := ⟨.real, Json.scalar?⟩

instance : Storable Bool := ⟨.bool, Json.bool?⟩

/-- Indices and times. -/
instance : Storable Nat := ⟨.ofNat, Json.natural? Index.limit⟩

instance {β : Type} [Storable β] : Storable (Option β) :=
  ⟨.ofOption Storable.toJson, Json.optional? Storable.ofJson?⟩

end VirtualList
