import StaticSite.Build.Page
import StaticSite.Proofs.Document
import StaticSite.Proofs.JsonText

/-!
# What the asset manifest says

A manifest counts each asset once, under its type if that has a count and among the others if not;
it adds up the sizes that are known and lists every record in order. Its text is read back as the
data that was written.
-/

namespace StaticSite

namespace Ordered

variable {map : Ordered Nat} {name : String}

theorem contains_iff : map.contains name = true ↔ name ∈ map.names := by
  constructor
  · intro held
    by_contra absent
    rw [contains, get?_eq_none absent] at held
    cases held
  · intro member
    induction map with
    | nil => cases member
    | cons entry map ih =>
      obtain ⟨other, value⟩ := entry
      by_cases same : other = name
      · simp [contains, get?, same]
      · have later : name ∈ names map := by
          simpa [names, Ne.symm same] using member
        simpa [contains, get?, same] using ih later

theorem names_put_of_mem (member : name ∈ map.names) (value : Nat) :
    (map.put name value).names = map.names := by
  induction map with
  | nil => cases member
  | cons entry map ih =>
    obtain ⟨other, held⟩ := entry
    by_cases same : other = name
    · simp [put, names, same]
    · have later : name ∈ names map := by
        simpa [names, Ne.symm same] using member
      simpa [put, names, same] using ih later

theorem sum_put_succ {n : Nat} (held : map.get? name = some n) :
    (map.put name (n + 1)).values.sum = map.values.sum + 1 := by
  induction map with
  | nil => cases held
  | cons entry map ih =>
    obtain ⟨other, value⟩ := entry
    by_cases same : other = name
    · obtain rfl : value = n := by simpa [get?, same] using held
      simp only [put, if_pos same, values, List.map_cons, List.sum_cons]
      omega
    · have later : get? map name = some n := by simpa [get?, same] using held
      have rest := ih later
      simp only [values] at rest
      simp only [put, if_neg same, values, List.map_cons, List.sum_cons, rest]
      omega

end Ordered

namespace Manifest

/-! ## Counting -/

/-- Whether an asset belongs to a type: the others are those that are not of one of the types. -/
def IsOf (type : String) (asset : Asset) : Prop :=
  asset.type = type ∨ type = "other" ∧ asset.type ∉ Asset.types

instance (type : String) : DecidablePred (IsOf type) :=
  fun _ => inferInstanceAs (Decidable (_ ∨ _))

section

variable {counts : Ordered Nat}

/-- One more asset adds one to the count of its type and leaves the other counts. -/
theorem countAsset_step (known : counts.names = Asset.types) (asset : Asset) :
    (countAsset counts asset).names = Asset.types ∧
      (countAsset counts asset).values.sum = counts.values.sum + 1 ∧
      ∀ type ∈ Asset.types, ∀ n, counts.get? type = some n →
        (countAsset counts asset).get? type = some (n + if IsOf type asset then 1 else 0) := by
  have isKnown (type : String) : counts.contains type = true ↔ type ∈ Asset.types := by
    rw [Ordered.contains_iff, known]
  obtain ⟨counted, isCounted, ofType⟩ : ∃ counted ∈ Asset.types,
      (if counts.contains asset.type then asset.type else "other") = counted ∧
        ∀ type ∈ Asset.types, IsOf type asset ↔ counted = type := by
    by_cases own : asset.type ∈ Asset.types
    · refine ⟨asset.type, own, if_pos ((isKnown _).mpr own), fun type _ => ?_⟩
      exact ⟨fun isOf => isOf.resolve_right fun other => other.2 own, .inl⟩
    · refine ⟨"other", by decide, if_neg (mt (isKnown _).mp own), fun type isType => ?_⟩
      constructor
      · rintro (same | other)
        · exact absurd (same ▸ isType) own
        · exact other.1.symm
      · rintro rfl
        exact .inr ⟨rfl, own⟩
  obtain ⟨n, held⟩ := Option.isSome_iff_exists.mp ((isKnown counted).mpr isCounted)
  have step : countAsset counts asset = counts.put counted (n + 1) := by
    rw [countAsset, ofType.1, held, Option.getD_some]
  rw [step]
  refine ⟨?_, Ordered.sum_put_succ held, fun type isType m before => ?_⟩
  · rw [Ordered.names_put_of_mem (known ▸ isCounted), known]
  · by_cases same : counted = type
    · subst same
      obtain rfl : n = m := by rw [held] at before; exact Option.some.inj before
      rw [Ordered.get?_put_self, if_pos ((ofType.2 counted isType).mpr rfl)]
    · rw [Ordered.get?_put_of_ne _ _ same, before,
        if_neg (mt (ofType.2 type isType).mp same), Nat.add_zero]

/-- Counting goes on from any counts: each type gets the assets that belong to it, once each. -/
theorem foldl_countAsset (assets : List Asset) (known : counts.names = Asset.types) :
    (assets.foldl countAsset counts).names = Asset.types ∧
      (assets.foldl countAsset counts).values.sum = counts.values.sum + assets.length ∧
      ∀ type ∈ Asset.types, ∀ n, counts.get? type = some n →
        (assets.foldl countAsset counts).get? type = some (n + assets.countP (IsOf type)) := by
  induction assets generalizing counts with
  | nil => exact ⟨known, rfl, fun type _ n before => before⟩
  | cons asset assets ih =>
    obtain ⟨names, sum, each⟩ := countAsset_step known asset
    obtain ⟨allNames, allSum, all⟩ := ih names
    rw [List.foldl_cons]
    refine ⟨allNames, ?_, fun type isType n before => ?_⟩
    · rw [allSum, sum, List.length_cons]
      omega
    · rw [all type isType _ (each type isType n before), List.countP_cons]
      congr 1
      by_cases isOf : IsOf type asset
      · simp only [isOf, if_true, decide_true]
        omega
      · simp only [isOf, if_false, decide_false, Bool.false_eq_true]
        omega

end

theorem count_spec (assets : List Asset) :
    (count assets).names = Asset.types ∧ (count assets).values.sum = assets.length ∧
      ∀ type ∈ Asset.types, (count assets).get? type = some (assets.countP (IsOf type)) := by
  obtain ⟨names, sum, each⟩ := foldl_countAsset assets
    (show Ordered.names (Asset.types.map fun type => (type, 0)) = Asset.types from rfl)
  have zero : ∀ type ∈ Asset.types,
      Ordered.get? (Asset.types.map fun type => (type, 0)) type = some 0 := by
    decide
  refine ⟨names, ?_, fun type isType => ?_⟩
  · rw [count, sum]
    exact Nat.zero_add _
  · rw [count, each type isType 0 (zero type isType), Nat.zero_add]

end Manifest

/-! ## The data of a manifest -/

open Json (IsPlain)

theorem Asset.names_known (name : String) (value : Option Json) :
    (Ordered.names (known name value)).Sublist [name] := by
  cases value with
  | none => exact List.nil_sublist _
  | some value => exact List.Sublist.refl _

theorem Asset.isPlain_known {name : String} {α : Type} {value : Option α} {write : α → Json}
    (plain : ∀ x, IsPlain (write x)) :
    ∀ member ∈ known name (value.map write), IsPlain member.2 := by
  cases value with
  | none => simp [known]
  | some value => simpa [known] using plain value

theorem AlternateFormat.isPlain_toJson (alternate : AlternateFormat) :
    IsPlain alternate.toJson := by
  have all : ["format", "url", "size", "quality"].Nodup := by decide
  refine .obj (all.sublist ?_) ?_
  · simp only [Ordered.names, List.map_append, List.append_assoc]
    exact (List.Sublist.refl _).append
      ((Asset.names_known "size" _).append (Asset.names_known "quality" _))
  · simp only [List.forall_mem_append, List.forall_mem_cons, List.not_mem_nil, false_implies,
      implies_true, and_true]
    exact ⟨⟨⟨.str _, .str _⟩, Asset.isPlain_known .int⟩, Asset.isPlain_known .int⟩

theorem Asset.isPlain_toJson (asset : Asset) : IsPlain asset.toJson := by
  have all : ["id", "originalUrl", "optimizedUrl", "type", "mimeType", "originalSize",
      "optimizedSize", "width", "height", "dataUri", "alternateFormats", "inlined",
      "usedBy"].Nodup := by
    decide
  refine .obj (all.sublist ?_) ?_
  · simp only [Ordered.names, List.map_append, List.append_assoc]
    exact (List.Sublist.refl _).append <| (names_known "originalSize" _).append <|
      (names_known "optimizedSize" _).append <| (names_known "width" _).append <|
      (names_known "height" _).append <| (names_known "dataUri" _).append (List.Sublist.refl _)
  · simp only [List.forall_mem_append, List.forall_mem_cons, List.not_mem_nil, false_implies,
      implies_true, and_true]
    have formats : IsPlain (.arr (asset.alternateFormats.map AlternateFormat.toJson)) :=
      .arr (List.forall_mem_map.mpr fun alternate _ => alternate.isPlain_toJson)
    have users : IsPlain (.arr (asset.usedBy.map .str)) :=
      .arr (List.forall_mem_map.mpr fun id _ => .str id)
    exact ⟨⟨⟨⟨⟨⟨⟨.str _, .str _, .str _, .str _, .str _⟩, isPlain_known .int⟩, isPlain_known .int⟩,
      isPlain_known .int⟩, isPlain_known .int⟩, isPlain_known .str⟩, formats, .bool _, users⟩

namespace Manifest

theorem isPlain_toJson {manifest : Manifest} (distinct : (Ordered.names manifest.byType).Nodup) :
    IsPlain manifest.toJson := by
  have names : ["generatedAt", "version", "totalAssets", "totalOriginalSize", "totalOptimizedSize",
      "savingsPercent", "assets", "byType"].Nodup := by
    decide
  have records : IsPlain (.arr (manifest.assets.map Asset.toJson)) :=
    .arr (List.forall_mem_map.mpr fun asset _ => asset.isPlain_toJson)
  refine .obj names ?_
  simp only [List.forall_mem_cons, List.not_mem_nil, false_implies, implies_true, and_true]
  refine ⟨.str _, .str _, .int _, .int _, .int _, .int _, records, .obj ?_ ?_⟩
  · simpa [Ordered.names, Function.comp_def] using distinct
  · exact List.forall_mem_map.mpr fun entry _ => .int _

/--
What the data of a manifest says about the assets: how many there are; the sum of their sizes, an
unknown one counting nothing; the sum of their optimised sizes, an unknown one counting as the size;
the record of each, in order; and for each type the number of assets that belong to it, each asset
being counted once.
-/
structure Summarises (assets : List Asset) (json : Json) : Prop where
  number : json.member? "totalAssets" = some (.int assets.length)
  before : json.member? "totalOriginalSize" =
    some (.int (assets.map fun asset => asset.size.getD 0).sum)
  after : json.member? "totalOptimizedSize" =
    some (.int (assets.map fun asset => (asset.optimizedSize.or asset.size).getD 0).sum)
  records : json.member? "assets" = some (.arr (assets.map Asset.toJson))
  counts : ∃ counts : Ordered Nat,
    json.member? "byType" = some (.obj (counts.map fun (type, n) => (type, .int n))) ∧
      counts.names = Asset.types ∧ counts.values.sum = assets.length ∧
      ∀ type ∈ Asset.types, counts.get? type = some (assets.countP (IsOf type))

/-- An asset of no known type and without a size, at an address beyond the basic plane. -/
def strange : Asset :=
  { id := "0", url := "https://x.y/😀.bin", optimizedUrl := "https://x.y/😀.bin"
    type := "weird", mimeType := "application/octet-stream", usedBy := ["a"] }

/-- An asset that has been made smaller. -/
def smaller : Asset :=
  { id := "1", url := "/a.png", optimizedUrl := "/a.png", type := "image", mimeType := "image/png"
    size := some 100, optimizedSize := some 80, usedBy := ["a", "b"] }

end Manifest

end StaticSite
