import StaticSite.Asset.Optimize

/-!
# The asset manifest

The manifest sums up the assets of a page: how many of each type, their sizes, and how much the
optimised files save.
-/

namespace StaticSite

/--
The saved share in percent. The share is computed as a double, and a half percent is rounded up.
Nothing is saved where there was nothing.
-/
def percentSaved (before after : Int) : Except Fault Int :=
  if before ≤ 0 then .ok 0
  else do
    let ratio ← quotient (before - after) before.toNat
    let half := Binary64.ofRatio false 1 2
    match ((ratio.mul (.ofInt 100)).add half).floor? with
    | some percent => return percent
    | none => throw .infiniteInteger

structure Manifest where
  generatedAt : String
  version : String
  totalAssets : Nat
  totalSize : Int
  totalOptimizedSize : Int
  savingsPercent : Int
  assets : List Asset
  byType : Ordered Nat
deriving DecidableEq, Repr

namespace Manifest

/-- The counts with one more asset, whose type is counted among the others when it has no count. -/
def countAsset (counts : Ordered Nat) (asset : Asset) : Ordered Nat :=
  let type := if counts.contains asset.type then asset.type else "other"
  counts.put type ((counts.get? type).getD 0 + 1)

/-- How many assets of each type there are. -/
def count (assets : List Asset) : Ordered Nat :=
  assets.foldl countAsset (Asset.types.map fun type => (type, 0))

/-- The size as it was found; an unknown one counts nothing. -/
def sizeBefore (asset : Asset) : Int := asset.size.getD 0

/-- The size after optimisation; without one it is the size before. -/
def sizeAfter (asset : Asset) : Int := asset.optimizedSize.getD (sizeBefore asset)

def ofAssets (assets : List Asset) (version generatedAt : String) : Except Fault Manifest := do
  let totalSize := (assets.map sizeBefore).foldr (· + ·) 0
  let totalOptimizedSize := (assets.map sizeAfter).foldr (· + ·) 0
  let savingsPercent ← percentSaved totalSize totalOptimizedSize
  return { generatedAt, version, totalAssets := assets.length, totalSize,
           totalOptimizedSize, savingsPercent, assets, byType := count assets }

def toJson (manifest : Manifest) : Json :=
  .obj [("generatedAt", .str manifest.generatedAt), ("version", .str manifest.version),
    ("totalAssets", .int manifest.totalAssets),
    ("totalOriginalSize", .int manifest.totalSize),
    ("totalOptimizedSize", .int manifest.totalOptimizedSize),
    ("savingsPercent", .int manifest.savingsPercent),
    ("assets", .arr (manifest.assets.map Asset.toJson)),
    ("byType", .obj (manifest.byType.map fun (type, count) => (type, .int count)))]

end Manifest

end StaticSite
