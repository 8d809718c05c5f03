import StaticSite.Yaml.Node
import StaticSite.Yaml.Scalar

/-!
# Values from YAML

Each sequence and mapping of a document is one container of the heap, however many aliases lead to
it. A merge key brings in the pairs of other mappings, which the mapping's own pairs override.
Containers are filled level by level from the root, and the first fault on the way is the one that
is told.
-/

namespace StaticSite.Yaml

namespace Document

def node (document : Document) (id : Nat) : Node :=
  document.nodes[id]?.getD { tag := none, plain := true, content := .scalar "" }

/-- The kind of a scalar node: its tag's, or that of its text when it is plain. -/
def scalarKind? (node : Node) (text : String) : Option ScalarKind :=
  match node.tag with
  | some tag => Scalar.tagKind? tag
  | none => some (if node.plain then Scalar.kind text else .str)

/-- The kind of a key; a scalar without a known kind has none. -/
def keyKind? (document : Document) (id : Nat) : Option ScalarKind :=
  match (document.node id).content with
  | .scalar text => scalarKind? (document.node id) text
  | _ => none

/--
The pairs of a mapping with those of merged mappings before its own. `visited` holds the mappings
that are being merged; one of them brings its own pairs only.
-/
def mergedPairs (document : Document) :
    Nat → List Nat → Nat → Except Fault (List (Nat × Nat))
  | 0, _, _ => .ok []
  | fuel + 1, visited, id =>
    match (document.node id).content with
    | .mapping pairs => do
      let isMerge (pair : Nat × Nat) : Bool := document.keyKind? pair.1 = some .merge
      let own := pairs.filter (!isMerge ·)
      if id ∈ visited then return own
      let pairsOf (source : Nat) : Except Fault (List (Nat × Nat)) :=
        mergedPairs document fuel (id :: visited) source
      let merged ← (pairs.filter isMerge).mapM fun (_, source) =>
        match (document.node source).content with
        | .mapping _ => pairsOf source
        | .sequence items => do
          let found ← items.mapM pairsOf
          return found.reverse.flatten
        | .scalar _ => throw .malformedYaml
      return merged.flatten ++ own
    | _ => throw .malformedYaml

def sequenceTag : String := Scalar.standardTag "seq"

def mappingTag : String := Scalar.standardTag "map"

/-- The value of a node; `base` is the place of the first node's container. -/
def value (document : Document) (base id : Nat) : Except Fault Value :=
  let node := document.node id
  match node.content with
  | .scalar text =>
    match scalarKind? node text with
    | some kind => Scalar.ofKind text kind
    | none => .error .malformedYaml
  | .sequence _ =>
    if node.tag.isNone || node.tag = some sequenceTag then .ok (.ref (base + id))
    else .error .malformedYaml
  | .mapping _ =>
    if node.tag.isNone || node.tag = some mappingTag then .ok (.ref (base + id))
    else .error .malformedYaml

/-- The value of a key; an equals sign is text there, and a container is no key. -/
def keyValue (document : Document) (base id : Nat) : Except Fault Value :=
  if document.keyKind? id = some .value then .ok (.str "=")
  else do
    match ← document.value base id with
    | .ref _ => throw .malformedYaml
    | key => return key

/-- The container of a node; a scalar has none, and an empty one keeps its place. -/
def container (document : Document) (base id : Nat) : Except Fault Container :=
  match (document.node id).content with
  | .scalar _ => .ok (.list [])
  | .sequence items => do
    let values ← items.mapM (document.value base)
    return .list values
  | .mapping _ => do
    let pairs ← document.mergedPairs (document.nodes.size + 1) [] id
    let entries ← pairs.foldlM
      (fun (entries : Entries) (key, item) => do
        let key ← document.keyValue base key
        let item ← document.value base item
        return Entries.put entries key item)
      []
    return .dict entries

/-- The nodes in a container: its items, or its keys and their values. -/
def parts (document : Document) (id : Nat) : List Nat :=
  match (document.node id).content with
  | .scalar _ => []
  | .sequence items => items
  | .mapping _ =>
    let pairs := (document.mergedPairs (document.nodes.size + 1) [] id).toOption.getD []
    pairs.flatMap fun (key, item) => [key, item]

def isScalar (document : Document) (id : Nat) : Bool :=
  match (document.node id).content with
  | .scalar _ => true
  | _ => false

/--
The containers of a queue and all below them, each once and level by level. Each step takes one that
was not taken before, so the number of nodes bounds the steps.
-/
def levels (document : Document) : Nat → List Nat → List Nat → List Nat
  | fuel + 1, taken, id :: queue =>
    let known := taken ++ id :: queue
    let below := (document.parts id).filter fun part => !document.isScalar part && part ∉ known
    id :: levels document fuel (id :: taken) (queue ++ below.eraseDups)
  | _, _, _ => []

/-- The containers that the root leads to, in the order in which they are filled. -/
def order (document : Document) : List Nat :=
  document.levels document.nodes.size [] [document.root]

/-- The containers of all nodes; what the root does not lead to keeps its place. -/
def containers (document : Document) (filled : List (Nat × Container)) : List Container :=
  (List.range document.nodes.size).map fun id => (filled.lookup id).getD (.list [])

end Document

/-- The value that a text denotes; a text without a document denotes nothing. -/
def read (heap : Heap) (text : String) : Except Fault (Value × Heap) := do
  match ← readDocument text.toList with
  | none => return (.null, heap)
  | some document =>
    let base := heap.objects.size
    let value ← document.value base document.root
    let filled ← document.order.mapM fun id => do
      let container ← document.container base id
      return (id, container)
    return (value, ⟨heap.objects ++ (document.containers filled).toArray⟩)

end StaticSite.Yaml
