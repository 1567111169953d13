import TypeScribe.Toml.Basic

/-!
# TOML documents

A document is built statement by statement: headers open tables, key-value pairs fill the table that
was opened last. An item remembers how its table came about, because a table may be opened by a
header once, and extended by dotted keys only if dotted keys made it.
-/
namespace TypeScribe.Toml
set_option autoImplicit false

inductive TableOrigin where
  /-- Opened by its own header. -/
  | header
  /-- Implied by the header of a table inside it. -/
  | implied
  /-- Made by a dotted key. -/
  | dottedKey
  deriving DecidableEq

inductive Item where
  | value (v : Toml)
  | table (origin : TableOrigin) (items : List (String × Item))
  /-- The tables opened under one double-bracket header. -/
  | tables (elements : List (List (String × Item)))

abbrev Items := List (String × Item)

mutual
def Item.toToml : Item → Toml
  | .value v => v
  | .table _ items => .table (itemsToToml items)
  | .tables elements => .array (elementsToToml elements)

def itemsToToml : List (String × Item) → List (String × Toml)
  | [] => []
  | (key, item) :: rest => (key, item.toToml) :: itemsToToml rest

def elementsToToml : List (List (String × Item)) → List Toml
  | [] => []
  | items :: rest => .table (itemsToToml items) :: elementsToToml rest
end

namespace Items

/-- Gives a key an item, in the place of the one it had. -/
def put (items : Items) (key : String) (item : Item) : Items :=
  if items.any (fun entry => entry.1 == key) then
    items.map fun entry => if entry.1 == key then (key, item) else entry
  else items ++ [(key, item)]

/-- Changes the table at the end of a header's path; of several tables under a key, the last. -/
def atHeader (change : Items → Option Items) : List String → Items → Option Items
  | [], items => change items
  | key :: path, items =>
    match items.lookup key with
    | none => do return items.put key (.table .implied (← atHeader change path []))
    | some (.value _) => none
    | some (.table origin inner) => do
      return items.put key (.table origin (← atHeader change path inner))
    | some (.tables elements) => do
      let inner ← atHeader change path (elements.getLastD [])
      return items.put key (.tables (elements.dropLast ++ [inner]))

/-- Adds a value under a key that must be free. -/
def add (key : String) (v : Toml) (items : Items) : Option Items :=
  match items.lookup key with
  | none => some (items ++ [(key, .value v)])
  | some _ => none

/-- Adds a value under a dotted key. Tables on the way must not have a header of their own, and the
last one must come from dotted keys. -/
def addDotted (v : Toml) (key : String) : (path : List String) → (inDotted : Bool) → Items →
    Option Items
  | [], inDotted, items => if inDotted then add key v items else none
  | step :: path, _, items =>
    match items.lookup step with
    | none => do return items.put step (.table .dottedKey (← addDotted v key path true []))
    | some (.value _) => none
    | some (.table .header _) => none
    | some (.table origin inner) => do
      let inner ← addDotted v key path (origin == .dottedKey) inner
      return items.put step (.table origin inner)
    | some (.tables elements) => do
      let inner ← addDotted v key path false (elements.getLastD [])
      return items.put step (.tables (elements.dropLast ++ [inner]))

/-- Adds a value under a key of one or more parts. -/
def addKeyValue (path : List String) (v : Toml) (items : Items) : Option Items :=
  match path.dropLast, path.getLast? with
  | _, none => none
  | [], some key => add key v items
  | path, some key => addDotted v key path true items

/-- Opens a table under a header's last key. -/
def openTable (key : String) (items : Items) : Option Items :=
  match items.lookup key with
  | none => some (items.put key (.table .header []))
  | some (.table .implied inner) => some (items.put key (.table .header inner))
  | some _ => none

/-- Opens one more table of those under a double-bracket header's last key. -/
def openElement (key : String) (items : Items) : Option Items :=
  match items.lookup key with
  | none => some (items.put key (.tables [[]]))
  | some (.tables elements) => some (items.put key (.tables (elements ++ [[]])))
  | some _ => none

end Items

inductive Statement where
  | keyValue (path : List String) (v : Toml)
  | header (path : List String)
  | elementHeader (path : List String)

/-- A document so far and the path of the table that is being filled. -/
structure Document where
  items : Items := []
  current : List String := []

namespace Document

def extend (d : Document) : Statement → Option Document
  | .keyValue path v => do
    return { d with items := ← d.items.atHeader (Items.addKeyValue path v) d.current }
  | .header path => do
    let key ← path.getLast?
    return { items := ← d.items.atHeader (Items.openTable key) path.dropLast, current := path }
  | .elementHeader path => do
    let key ← path.getLast?
    return { items := ← d.items.atHeader (Items.openElement key) path.dropLast, current := path }

/-- The table that a list of statements describes. -/
def ofStatements? (statements : List Statement) : Option (List (String × Toml)) := do
  return itemsToToml (← statements.foldlM extend {}).items

end Document
end TypeScribe.Toml
