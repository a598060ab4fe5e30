import SmokeBench.Toml.Value

/-!
A document under construction. A table remembers how it came to be, since that decides what may
still be added: a header may complete a table that another header only implied, a dotted key may
extend a table that dotted keys made, and a table or array written as a value is closed.
-/

namespace SmokeBench.Toml

/-- How a table came to be: by its own header, by the header of a table below it, or by a dotted
key. -/
inductive Origin
  | header
  | implied
  | dotted
  deriving DecidableEq, Repr

inductive Node
  | leaf (value : Value)
  | table (origin : Origin) (entries : List (String × Node))
  /-- An array of tables, the newest first. -/
  | tables (newest : List (String × Node)) (older : List (List (String × Node)))

abbrev Document := List (String × Node)

namespace Document

def get? (d : Document) (key : String) : Option Node := (d.find? (·.1 == key)).map (·.2)

def put (d : Document) (key : String) (node : Node) : Document :=
  if d.any (·.1 == key) then d.map fun e => if e.1 == key then (key, node) else e
  else d ++ [(key, node)]

/-- Adds a value below a dotted key. `inDotted` says whether the table at hand was made by dotted
keys, which a plain key must not enter and a dotted one must. -/
def insertAt (inDotted : Bool) (dottedKey : Bool) (value : Value) :
    (path : List String) → Document → Option Document
  | [], _ => none
  | [key], d =>
    if inDotted != dottedKey then none
    else match d.get? key with
      | some _ => none
      | none => some (d.put key (.leaf value))
  | key :: rest, d =>
    match d.get? key with
    | none => do d.put key (.table .dotted (← insertAt true true value rest []))
    | some (.table .header _) => none
    | some (.table origin entries) => do
      d.put key (.table origin (← insertAt (origin == .dotted) true value rest entries))
    | some (.tables newest older) => do
      d.put key (.tables (← insertAt false true value rest newest) older)
    | some (.leaf _) => none

def insert (d : Document) (path : List String) (value : Value) : Option Document :=
  insertAt false (!path.tail.isEmpty) value path d

/-- Changes the table that a header's path leads to; missing tables above it are implied. -/
def changeAt (change : Document → String → Option Document) :
    (path : List String) → Document → Option Document
  | [], _ => none
  | [key], d => change d key
  | key :: rest, d =>
    match d.get? key with
    | none => do d.put key (.table .implied (← changeAt change rest []))
    | some (.table origin entries) => do d.put key (.table origin (← changeAt change rest entries))
    | some (.tables newest older) => do
      d.put key (.tables (← changeAt change rest newest) older)
    | some (.leaf _) => none

def openTable (d : Document) (path : List String) : Option Document :=
  changeAt (fun d key =>
    match d.get? key with
    | none => some (d.put key (.table .header []))
    | some (.table .implied entries) => some (d.put key (.table .header entries))
    | some _ => none) path d

def openElement (d : Document) (path : List String) : Option Document :=
  changeAt (fun d key =>
    match d.get? key with
    | none => some (d.put key (.tables [] []))
    | some (.tables newest older) => some (d.put key (.tables [] (newest :: older)))
    | some _ => none) path d

/-- Adds a value to the table whose header came last. -/
def insertUnder (d : Document) : (header : List String) → (path : List String) → Value →
    Option Document
  | [], path, value => d.insert path value
  | header, path, value =>
    changeAt (fun d key =>
      match d.get? key with
      | some (.table origin entries) => do d.put key (.table origin (← insert entries path value))
      | some (.tables newest older) => do d.put key (.tables (← insert newest path value) older)
      | _ => none) header d

end Document

mutual

def Node.freeze : Node → Value
  | .leaf v => v
  | .table _ entries => .table (freezeEntries entries)
  | .tables newest older => .array ((freezeTables older).reverse ++ [.table (freezeEntries newest)])

def freezeEntries : List (String × Node) → Entries
  | [] => []
  | (key, node) :: rest => (key, Node.freeze node) :: freezeEntries rest

def freezeTables : List (List (String × Node)) → List Value
  | [] => []
  | entries :: rest => .table (freezeEntries entries) :: freezeTables rest

end

end SmokeBench.Toml
