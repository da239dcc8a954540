import Datapath.Toml.Scalar

/-!
# TOML documents

A document is a list of lines: headers, which open tables, and keys with values, which belong to the
table opened last.
-/

namespace Datapath.Toml

namespace Reader

/-- Goes into an array or a table, which must not be too deep inside others. Returns its depth. -/
def enter (depth : Nat) : Reader Nat :=
  if depth + 1 < depthLimit then return depth + 1 else failure

mutual

/-- Takes a value that has so many arrays and tables around it. The fuel bounds the number of
parts. -/
def value : (fuel : Nat) → (depth : Nat) → Reader Value
  | 0, _ => failure
  | fuel + 1, depth => do
    if ← accept "[" then
      return .array (← arrayRest fuel (← enter depth))
    else if ← accept "\x7b" then
      let depth ← enter depth
      blanks
      if ← accept "\x7d" then return .table .braces []
      else return .table .braces (← tableRest fuel depth [])
    else
      scalar fuel

/-- Takes the rest of an array, whose items have so many arrays and tables around them. Line ends
and comments may stand between the items, and a comma after the last one. -/
def arrayRest : (fuel : Nat) → (depth : Nat) → Reader (List Value)
  | 0, _ => failure
  | fuel + 1, depth => do
    trivia fuel
    if ← accept "]" then
      return []
    else
      let item ← value fuel depth
      trivia fuel
      if ← accept "," then
        return item :: (← arrayRest fuel depth)
      else
        expect ']'
        return [item]

/-- Takes the rest of a table between braces, which has at least one more entry. -/
def tableRest : (fuel : Nat) → (depth : Nat) → Entries → Reader Entries
  | 0, _, _ => failure
  | fuel + 1, depth, entries => do
    let keys ← key fuel
    expect '='
    blanks
    let item ← value fuel depth
    blanks
    let entries ← entries.addPath keys item
    if ← accept "," then
      tableRest fuel depth entries
    else
      expect '\x7d'
      return entries

end

/-- Takes a header and opens its table. Returns the path of the table. -/
def header (fuel : Nat) (root : Entries) : Reader (List String × Entries) := do
  if ← accept "[[" then
    let keys ← key fuel
    unless ← accept "]]" do
      failure
    return (keys, ← root.appendTable keys)
  else
    expect '['
    let keys ← key fuel
    expect ']'
    return (keys, ← root.openTable keys)

/-- Takes a key with its value and adds them to the table at a path. -/
def entry (fuel : Nat) (path : List String) (root : Entries) : Reader Entries := do
  let keys ← key fuel
  expect '='
  blanks
  let item ← value fuel 0
  root.update false (fun _ table => table.addPath keys item) path .header

/-- Takes the lines of a document. -/
def lines : (fuel : Nat) → (path : List String) → Entries → Reader Entries
  | 0, _, _ => failure
  | fuel + 1, path, root => do
    blanks
    match ← peek? with
    | none => return root
    | some '#' | some '\n' | some '\r' =>
      lineEnd
      lines fuel path root
    | some '[' =>
      let (path, root) ← header fuel root
      lineEnd
      lines fuel path root
    | some _ =>
      let root ← entry fuel path root
      lineEnd
      lines fuel path root

end Reader

/-- The entries of a document, or none where the text is not TOML. A byte order mark at the front is
skipped. -/
def parse? (text : String) : Option Entries :=
  let characters :=
    match text.toList with
    | '\ufeff' :: rest => rest
    | all => all
  let fuel := 2 * characters.length + 2
  (Reader.lines fuel [] []).run' characters

end Datapath.Toml
