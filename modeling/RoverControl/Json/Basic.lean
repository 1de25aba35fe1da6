import RoverControl.Bytes

/-!
# JSON values

A value is null, a truth value, a double, a text of bytes, a list of values or a list of members
in the order in which their keys were first set.  `Json.set?` and `Json.push?` build objects and
lists up from null, `Json.find?` looks a key up, and equality of numbers is that of doubles, so
that `-0` equals `0` and an undefined number differs from itself.
-/

namespace RoverControl

inductive Json where
  | null
  | bool (b : Bool)
  | number (x : Float)
  | string (s : Bytes)
  | array (items : List Json)
  | object (members : List (Bytes × Json))

namespace Json

instance : Inhabited Json := ⟨null⟩

/-- The text value of an ASCII text. -/
def text (s : String) : Json := .string (ascii s)

/-! ## Members -/

/-- Gives `key` the value `value`: in the place of the key if it is there, else at the end. -/
def setMember (key : Bytes) (value : Json) : List (Bytes × Json) → List (Bytes × Json)
  | [] => [(key, value)]
  | (k, v) :: rest =>
    if k = key then (k, value) :: rest else (k, v) :: setMember key value rest

/-- Members set one after the other, starting from none. -/
def membersOf (pairs : List (Bytes × Json)) : List (Bytes × Json) :=
  pairs.foldl (fun members (key, value) => setMember key value members) []

/-- The object whose members are set in the order of the list. -/
def ofMembers (pairs : List (Bytes × Json)) : Json := .object (membersOf pairs)

/-- The value of a key; nothing unless the value is an object that has it. -/
def find? (v : Json) (key : Bytes) : Option Json :=
  match v with
  | .object members => members.lookup key
  | _ => none

/-- Sets a member of an object, where null counts as the empty object. -/
def set? (v : Json) (key : Bytes) (value : Json) : Option Json :=
  match v with
  | .null => some (.object (setMember key value []))
  | .object members => some (.object (setMember key value members))
  | _ => none

/-- Appends an item to a list, where null counts as the empty list. -/
def push? (v : Json) (item : Json) : Option Json :=
  match v with
  | .null => some (.array [item])
  | .array items => some (.array (items ++ [item]))
  | _ => none

/-! ## Views -/

def isNull : Json → Bool
  | .null => true
  | _ => false

def isObject : Json → Bool
  | .object _ => true
  | _ => false

def bool? : Json → Option Bool
  | .bool b => some b
  | _ => none

def number? : Json → Option Float
  | .number x => some x
  | _ => none

def string? : Json → Option Bytes
  | .string s => some s
  | _ => none

def array? : Json → Option (List Json)
  | .array items => some items
  | _ => none

def object? : Json → Option (List (Bytes × Json))
  | .object members => some members
  | _ => none

/-- The number of items or members; zero for a value that has neither. -/
def size : Json → Nat
  | .array items => items.length
  | .object members => members.length
  | _ => 0

/-! ## Equality -/

mutual

/-- Equality of values; members are compared in order. -/
def beq : Json → Json → Bool
  | .null, .null => true
  | .bool a, .bool b => a == b
  | .number x, .number y => x == y
  | .string s, .string t => s == t
  | .array a, .array b => beqItems a b
  | .object a, .object b => beqMembers a b
  | _, _ => false

def beqItems : List Json → List Json → Bool
  | [], [] => true
  | a :: r, b :: s => beq a b && beqItems r s
  | _, _ => false

def beqMembers : List (Bytes × Json) → List (Bytes × Json) → Bool
  | [], [] => true
  | (k, a) :: r, (l, b) :: s => k == l && beq a b && beqMembers r s
  | _, _ => false

end

instance : BEq Json := ⟨beq⟩

end Json

end RoverControl
