/-!
# TOML values

Values and tables. A table remembers how it came to be, because that decides what may still be added
to it; floating-point numbers and dates are recognised but carry no value.
-/

namespace Datapath.Toml

/-- How a table came to be. -/
inductive Origin where
  /-- Written between braces, and thereby complete. -/
  | braces
  /-- Named in a header. -/
  | header
  /-- Implied by the header of a table inside it. -/
  | implied
  /-- Implied by a key with dots. -/
  | dotted
  deriving DecidableEq, Repr

/-- A value or a table. -/
inductive Value where
  | string (text : String)
  | integer (number : Int)
  | float
  | boolean (truth : Bool)
  | date
  | array (items : List Value)
  | table (origin : Origin) (entries : List (String × Value))
  /-- The tables of a header with double brackets. -/
  | tables (items : List (List (String × Value)))

/-- The entries of a table. -/
abbrev Entries := List (String × Value)

namespace Entries

/-- The value of a key. -/
def find? (entries : Entries) (key : String) : Option Value :=
  List.lookup key entries

/-- Gives a key a value, in its place if it is present and at the end if not. -/
def put (entries : Entries) (key : String) (value : Value) : Entries :=
  if (entries.find? key).isSome then
    entries.map fun entry => if entry.1 == key then (key, value) else entry
  else
    entries ++ [(key, value)]

/-- Adds a key that must not be present. -/
def add (key : String) (value : Value) (entries : Entries) : Option Entries :=
  if (entries.find? key).isSome then none else some (entries.put key value)

/-- Changes the table at the end of a path, given how that table came to be. Tables missing on the
way are implied by what the path belongs to: a key with dots or a header. Of the tables of a header
with double brackets a path enters the last one. Keys with dots pass through no table that a header
named by itself; nothing passes through values. -/
def update (keyPath : Bool) (change : Origin → Entries → Option Entries) :
    List String → Origin → Entries → Option Entries
  | [], origin, entries => change origin entries
  | key :: rest, _, entries =>
    match entries.find? key with
    | none => do
      let origin := if keyPath then .dotted else .implied
      let inner ← update keyPath change rest origin []
      return entries.put key (.table origin inner)
    | some (.table origin inner) =>
      if origin = .braces || (keyPath && origin = .header) then
        none
      else do
        return entries.put key (.table origin (← update keyPath change rest origin inner))
    | some (.tables items) =>
      match items.getLast? with
      | some last => do
        let inner ← update keyPath change rest .header last
        return entries.put key (.tables (items.dropLast ++ [inner]))
      | none => none
    | some _ => none

/-- Adds a value under a key with dots, to the entries of a table. The table that the dots lead to
must itself have come from a key with dots. -/
def addPath (keys : List String) (value : Value) (entries : Entries) : Option Entries :=
  match keys.reverse with
  | [] => none
  | [key] => entries.add key value
  | key :: tables =>
    update true
      (fun origin inner => if origin = .dotted then inner.add key value else none)
      tables.reverse .header entries

/-- Opens the table of a header. A table that was only implied keeps its entries. -/
def openTable (keys : List String) (entries : Entries) : Option Entries :=
  match keys.reverse with
  | [] => none
  | key :: tables =>
    update false
      (fun _ inner =>
        match inner.find? key with
        | none => some (inner.put key (.table .header []))
        | some (.table .implied present) => some (inner.put key (.table .header present))
        | some _ => none)
      tables.reverse .header entries

/-- Opens another table of a header with double brackets. -/
def appendTable (keys : List String) (entries : Entries) : Option Entries :=
  match keys.reverse with
  | [] => none
  | key :: tables =>
    update false
      (fun _ inner =>
        match inner.find? key with
        | none => some (inner.put key (.tables [[]]))
        | some (.tables items) => some (inner.put key (.tables (items ++ [[]])))
        | some _ => none)
      tables.reverse .header entries

end Entries

end Datapath.Toml
