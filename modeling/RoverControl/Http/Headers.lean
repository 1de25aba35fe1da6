import RoverControl.Bytes

/-!
# Header fields

The fields of a request are kept in the order of their names, where capital and small ASCII letters
count as equal and no two fields have the same name.  `Headers.add` leaves a field that is there as
it is, `Headers.assign` replaces its value, and `Headers.find?` looks a value up.
-/

namespace RoverControl

/-- Names and values of header fields, sorted by name. -/
abbrev Headers := List (Bytes × Bytes)

namespace Headers

/-- Whether two names are equal up to the case of ASCII letters. -/
def sameName (a b : Bytes) : Bool := a.toLower == b.toLower

/-- Adds a field unless there is one of that name. -/
def add (name value : Bytes) : Headers → Headers
  | [] => [(name, value)]
  | (n, v) :: rest =>
    if name.toLower < n.toLower then (name, value) :: (n, v) :: rest
    else if name.toLower = n.toLower then (n, v) :: rest
    else (n, v) :: add name value rest

/-- Gives the field of that name a new value and keeps the spelling of its name, or adds it. -/
def assign (name value : Bytes) : Headers → Headers
  | [] => [(name, value)]
  | (n, v) :: rest =>
    if name.toLower < n.toLower then (name, value) :: (n, v) :: rest
    else if name.toLower = n.toLower then (n, value) :: rest
    else (n, v) :: assign name value rest

/-- The fields added in the order of a list. -/
def ofList (fields : List (Bytes × Bytes)) : Headers :=
  fields.foldl (fun headers (name, value) => headers.add name value) []

/-- The value of the field of that name. -/
def find? (headers : Headers) (name : Bytes) : Option Bytes :=
  (List.find? (fun field => sameName field.1 name) headers).map Prod.snd

end Headers

end RoverControl
