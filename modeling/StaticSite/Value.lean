import StaticSite.Calendar
import StaticSite.Number.Binary64

/-!
# Page data

The data of a page is a graph: dicts and lists have an identity, may be shared and may contain
themselves. They live in a heap and are referred to by their place in it. Everything else is held
in the value itself, tuples too, so every cycle passes through a dict or a list. A tuple carries a
label that tells two occurrences of one tuple from two equal tuples.
-/

namespace StaticSite

/-- The kinds that a value can have, with their names in messages. -/
inductive Kind where
  | null | bool | int | float | str | date | datetime | time | unknown | tuple | dict | list
deriving DecidableEq, Repr

def Kind.name : Kind → String
  | .null => "NoneType"
  | .bool => "bool"
  | .int => "int"
  | .float => "float"
  | .str => "str"
  | .date => "date"
  | .datetime => "datetime"
  | .time => "time"
  | .unknown => "set"
  | .tuple => "tuple"
  | .dict => "dict"
  | .list => "list"

/-- The name of a kind with the family that it belongs to. -/
def Kind.fullName : Kind → String
  | .date => "datetime.date"
  | .datetime => "datetime.datetime"
  | .time => "datetime.time"
  | kind => kind.name

inductive Value where
  | null
  | bool (b : Bool)
  | int (n : Int)
  | float (x : Binary64)
  | str (s : String)
  | date (d : Date)
  | datetime (t : DateTime)
  | time (t : TimeOfDay)
  | unknown
  | tuple (label : Nat) (items : List Value)
  | ref (id : Nat)
deriving Repr, Inhabited

/-- What stands at a place of the heap; a dict keeps its entries in the order of insertion. -/
inductive Container where
  | dict (entries : List (Value × Value))
  | list (items : List Value)
deriving Repr, Inhabited

structure Heap where
  objects : Array Container := #[]
deriving Repr, Inhabited

namespace Value

/-- The integer that a number, or a truth value counted as a number, is equal to. -/
def integral? : Value → Option Int
  | .bool b => some (if b then 1 else 0)
  | .int n => some n
  | .float x => if x.isInteger then x.truncate? else none
  | _ => none

mutual

/-- Equality of dict keys: numbers by value whatever their kind, tuples item by item. -/
def sameKey : Value → Value → Bool
  | .tuple _ items, .tuple _ others => sameKeys items others
  | .tuple .., _ => false
  | .null, .null => true
  | .str s, .str t => s == t
  | .date d, .date e => d == e
  | .datetime t, .datetime u => t == u
  | .time t, .time u => t == u
  | .float x, .float y => x.eqValue y || x == y
  | x, y =>
    match x.integral?, y.integral? with
    | some m, some n => m == n
    | _, _ => false

def sameKeys : List Value → List Value → Bool
  | [], [] => true
  | x :: xs, y :: ys => sameKey x y && sameKeys xs ys
  | _, _ => false

end

/-- The text of a string value. -/
def str? : Value → Option String
  | .str s => some s
  | _ => none

end Value

/-- The entries of a dict, in order. -/
abbrev Entries := List (Value × Value)

namespace Entries

/-- The value under a string key. -/
def get? (entries : Entries) (key : String) : Option Value :=
  match entries with
  | [] => none
  | (.str k, value) :: rest => if k = key then some value else get? rest key
  | _ :: rest => get? rest key

/-- The value under a string key; `null` when there is none. -/
def get (entries : Entries) (key : String) : Value := (entries.get? key).getD .null

/-- Sets a key: an equal key keeps its place and its own form, a new one goes last. -/
def put (entries : Entries) (key value : Value) : Entries :=
  match entries with
  | [] => [(key, value)]
  | (k, v) :: rest => if k.sameKey key then (k, value) :: rest else (k, v) :: put rest key value

end Entries

namespace Heap

def container? (heap : Heap) (id : Nat) : Option Container := heap.objects[id]?

/-- Adds a container at a new place. -/
def add (heap : Heap) (container : Container) : Nat × Heap :=
  (heap.objects.size, ⟨heap.objects.push container⟩)

def set (heap : Heap) (id : Nat) (container : Container) : Heap :=
  ⟨heap.objects.setIfInBounds id container⟩

/-- The entries of a dict. -/
def dict? (heap : Heap) : Value → Option Entries
  | .ref id =>
    match heap.container? id with
    | some (.dict entries) => some entries
    | _ => none
  | _ => none

/-- The items of a list. -/
def list? (heap : Heap) : Value → Option (List Value)
  | .ref id =>
    match heap.container? id with
    | some (.list items) => some items
    | _ => none
  | _ => none

def kind (heap : Heap) : Value → Kind
  | .null => .null
  | .bool _ => .bool
  | .int _ => .int
  | .float _ => .float
  | .str _ => .str
  | .date _ => .date
  | .datetime _ => .datetime
  | .time _ => .time
  | .unknown => .unknown
  | .tuple .. => .tuple
  | .ref id =>
    match heap.container? id with
    | some (.list _) => .list
    | _ => .dict

/-- Zero and what is empty count as absent, everything else as present. -/
def isTruthy (heap : Heap) : Value → Bool
  | .null => false
  | .bool b => b
  | .int n => n != 0
  | .float x => !x.isZero
  | .str s => s != ""
  | .tuple _ items => !items.isEmpty
  | .ref id =>
    match heap.container? id with
    | some (.dict entries) => !entries.isEmpty
    | some (.list items) => !items.isEmpty
    | none => false
  | .unknown => false
  | _ => true

mutual

/-- The kind that keeps a value from being a dict key: a list, a dict, or one inside a tuple. -/
def unhashable? (heap : Heap) : Value → Option Kind
  | .ref id => some (heap.kind (.ref id))
  | .unknown => some .unknown
  | .tuple _ items => anyUnhashable? heap items
  | _ => none

def anyUnhashable? (heap : Heap) : List Value → Option Kind
  | [] => none
  | item :: items => (unhashable? heap item).or (anyUnhashable? heap items)

end

end Heap

end StaticSite
