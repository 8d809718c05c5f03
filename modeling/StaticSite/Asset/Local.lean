import StaticSite.Asset
import StaticSite.Asset.Reference
import StaticSite.Log
import StaticSite.Tree
import StaticSite.Url

/-!
# Local assets

An address without scheme and host can name a file beneath the asset root. The bytes of such files
tell their sizes. An asset whose file is not there, or takes too long to read, keeps its record.
-/

namespace StaticSite.Asset

/-- The path that an address spells below the asset root, unless it leads elsewhere. -/
def localPath? (url : String) : Option Path :=
  if startsWithAny remoteStarts url.toList || Text.startsWith ['/', '/'] url.toList then none
  else
    match Url.split url.toList with
    | .error _ => none
    | .ok parts =>
      if !parts.scheme.isEmpty || !parts.authority.isEmpty || parts.path.isEmpty then none
      else some (Path.ofText (String.ofList ((Url.unescape parts.path).dropWhile (· = '/'))))

/-- The place of the file that an address names, if it lies within the asset root. -/
def localPlace? (tree : Tree) (root : Path) (url : String) : Except Fault (Option Place) := do
  match localPath? url with
  | none => return none
  | some path =>
    let root ← tree.resolve root
    let place ← tree.resolve ((Tree.pathOf root).join path)
    if !Tree.isWithin root place then return none
    match ← tree.status? (Tree.pathOf place) with
    | some (.file _) => return some place
    | _ => return none

/-- What became of the file of an asset. -/
inductive Local where
  | absent
  | late (place : Place)
  | loaded (bytes : Bytes)
deriving DecidableEq, Repr

/-- Looks for the file of an asset; without time to read, no read is finished. -/
def readLocal (tree : Tree) (root : Path) (timeout : Binary64) (asset : Asset) :
    Except Fault Local := do
  match ← localPlace? tree root asset.url with
  | none => return .absent
  | some place =>
    if timeout.isNegative || timeout.isZero then return .late place
    return .loaded ((tree.bytesAt? place).getD [])

/-- An asset whose size is that of its file. -/
def measured (asset : Asset) : Local → Asset
  | .loaded bytes => { asset with size := some bytes.length }
  | _ => asset

/-- The assets after their files have been looked for, with the bytes by asset id. -/
structure Loaded where
  assets : List Asset
  payloads : Payloads
deriving DecidableEq, Repr

def Loaded.ofPairs (pairs : List (Asset × Local)) : Loaded :=
  { assets := pairs.map fun (asset, found) => asset.measured found
    payloads := Ordered.ofList (pairs.filterMap fun (asset, found) =>
      match found with
      | .loaded bytes => some (asset.id, bytes)
      | _ => none) }

/-- What looking for the files reports: at once, and when the reads end. -/
structure Notices where
  atOnce : List Log.Event
  later : List Log.Event
deriving DecidableEq, Repr

def notices (tree : Tree) (root : Path) (timeout : Binary64) (assets : List Asset) : Notices :=
  { atOnce := assets.filterMap fun asset =>
      match readLocal tree root timeout asset with
      | .ok .absent => some (.noLocalFile asset.url)
      | _ => none
    later := assets.filterMap fun asset =>
      match readLocal tree root timeout asset with
      | .ok (.late place) => some (.timedOut (Tree.pathOf place).text)
      | _ => none }

/-- Looks for the files of all assets; the first fault counts for all. -/
def loadLocal (tree : Tree) (root : Path) (timeout : Binary64) (assets : List Asset) :
    Except Fault Loaded := do
  let pairs ← assets.mapM fun asset => do
    let found ← readLocal tree root timeout asset
    return (asset, found)
  return Loaded.ofPairs pairs

end StaticSite.Asset
