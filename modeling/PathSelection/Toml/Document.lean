import PathSelection.Toml.Scan

namespace PathSelection.Toml

abbrev Key := List Text

namespace Table

def changeLast (f : Value → Option Value) : List Value → Option (List Value)
  | [] => none
  | [v] => (f v).map fun w => [w]
  | v :: vs => (changeLast f vs).map (v :: ·)

/-- Changes the table that a key leads to, and makes the tables on the way that are missing. With
`throughArrays` the way leads on from an array to its last item. -/
def within (throughArrays : Bool) : Key → (Table → Option Table) → Table → Option Table
  | [], f, t => f t
  | k :: ks, f, t =>
    let step (v : Value) : Option Value := v.table?.bind fun inner =>
      (within throughArrays ks f inner).map .table
    match t.get? k with
    | none => (within throughArrays ks f []).map fun inner => t.put k (.table inner)
    | some (.array vs) =>
      if throughArrays then (changeLast step vs).map fun ws => t.put k (.array ws) else none
    | some v => (step v).map (t.put k)

def add (throughArrays : Bool) (key : Key) (value : Value) (t : Table) : Option Table := do
  let last ← key.getLast?
  within throughArrays key.dropLast
    (fun inner => if inner.has last then none else some (inner.put last value)) t

def appendItem (key : Key) (t : Table) : Option Table := do
  let last ← key.getLast?
  within true key.dropLast (fun inner =>
    match inner.get? last with
    | none => some (inner.put last (.array [.table []]))
    | some (.array vs) => some (inner.put last (.array (vs ++ [.table []])))
    | some _ => none) t

end Table

/-- Whether a value holds others; written out in a line, it cannot be extended later. -/
def Value.isClosed : Value → Bool
  | .array _ | .table _ => true
  | _ => false

def Key.isAtOrBelow (keys : List Key) (key : Key) : Bool := keys.any (·.isPrefixOf key)

namespace Scanner

def pair (value : Scanner Value) : Scanner (Key × Value) := do
  let k ← key
  expect ['=']
  skip isSpace
  return (k, ← value)

def layouts : Scanner Unit := do layout ((← get).length + 1)

mutual

/-- A value. The fuel bounds the values one inside another and one after another. -/
def value : Nat → Scanner Value
  | 0 => failure
  | n + 1 => do
    match ← peek with
    | some '"' => return .string (← doubleQuoted)
    | some '\'' => return .string (← singleQuoted)
    | some '[' =>
      expect ['[']
      return .array (← items n)
    | some '\x7b' =>
      expect ['\x7b']
      skip isSpace
      if ← accept ['\x7d'] then return .table []
      return .table (← pairs n [] [])
    | _ => scalar

def items : Nat → Scanner (List Value)
  | 0 => failure
  | n + 1 => do
    layouts
    if ← accept [']'] then return []
    let v ← value n
    layouts
    if ← accept [']'] then return [v]
    expect [',']
    return v :: (← items n)

/-- The entries of a table in a line, after those that it has. The values among them that hold
others cannot be extended. -/
def pairs : Nat → (closed : List Key) → Table → Scanner Table
  | 0, _, _ => failure
  | n + 1, closed, t => do
    let (k, v) ← pair (value n)
    guard !(k.isAtOrBelow closed)
    let t ← Table.add false k v t
    skip isSpace
    if ← accept ['\x7d'] then return t
    expect [',']
    skip isSpace
    pairs n (if v.isClosed then k :: closed else closed) t

end

end Scanner

structure Draft where
  table : Table
  /-- Tables that were opened and cannot be opened again. -/
  opened : List Key
  /-- Tables that cannot be opened from the next header on. -/
  pending : List Key
  /-- Values that cannot be changed, with all that they hold. -/
  closed : List Key
  header : Key

namespace Draft

def empty : Draft := ⟨[], [], [], [], []⟩

/-- Takes an entry. The parts of its key but the last open tables, which are not opened anew. -/
def entry (d : Draft) (k : Key) (v : Value) : Option Draft := do
  let way := (List.range (k.length - 1)).map fun i => d.header ++ k.take (i + 1)
  guard (way.all (· ∉ d.opened))
  let parent := d.header ++ k.dropLast
  guard !(parent.isAtOrBelow d.closed)
  let table ← Table.add true (d.header ++ k) v d.table
  return { d with
    table
    pending := way ++ d.pending
    closed := if v.isClosed then (d.header ++ k) :: d.closed else d.closed }

def settle (d : Draft) : Draft := { d with opened := d.pending ++ d.opened, pending := [] }

def openTable (d : Draft) (k : Key) : Option Draft := do
  let d := d.settle
  guard (k ∉ d.opened)
  guard !(k.isAtOrBelow d.closed)
  let table ← Table.within true k some d.table
  return { d with table, opened := k :: d.opened, header := k }

/-- Opens a further item of an array of tables; nothing is known about the new item yet. -/
def openItem (d : Draft) (k : Key) : Option Draft := do
  let d := d.settle
  guard !(k.isAtOrBelow d.closed)
  let table ← Table.appendItem k d.table
  return { d with
    table
    opened := k :: d.opened.filter (!k.isPrefixOf ·)
    closed := d.closed.filter (!k.isPrefixOf ·)
    header := k }

end Draft

namespace Scanner

def statement (d : Draft) : Scanner Draft := do
  if ← accept ['[', '['] then
    skip isSpace
    let d ← d.openItem (← key)
    expect [']', ']']
    return d
  else if ← accept ['['] then
    skip isSpace
    let d ← d.openTable (← key)
    expect [']']
    return d
  else
    let c ← peek
    if c.all fun c => c == '#' || c == '\n' then return d
    let fuel := 2 * (← get).length + 2
    let (k, v) ← pair (value fuel)
    d.entry k v

def statements : Nat → Draft → Scanner Draft
  | 0, _ => failure
  | n + 1, d => do
    skip isSpace
    let d ← statement d
    skip isSpace
    comment
    if ← accept ['\n'] then statements n d
    else
      guard ((← get) = [])
      return d

end Scanner

/-- Reads a document. The stack that values within values take is not modelled. -/
def read (t : Text) : Except Fault Table :=
  Except.map (fun r => r.1.table) (Scanner.statements (t.length + 1) .empty t)

end PathSelection.Toml
