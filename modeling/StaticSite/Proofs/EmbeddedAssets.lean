import Mathlib.Data.List.Nodup
import StaticSite.Proofs.Agreement
import StaticSite.Proofs.Counts
import StaticSite.Proofs.LocalFiles
import StaticSite.Proofs.OptimizedAsset
import StaticSite.Proofs.PageModes

/-!
# What becomes of the bytes of local files

A file that an address leads to is read once for its asset. Its length is the size of the asset, and
the bytes are kept by the id of the asset until the asset is marked for embedding. Ids tell the
assets of a page apart, so every asset gets back the bytes of its own file; base64 loses none.
-/

namespace StaticSite

/-! ## Base64 -/

namespace Base64

theorem value?_digit : ∀ n < 64, value? (digit n) = some n := by decide +kernel

theorem digit_ne_equals : ∀ n < 64, digit n ≠ '=' := by decide +kernel

section

variable {i j k l : Nat} (hi : i < 64) (hj : j < 64) (hk : k < 64) (hl : l < 64)

include hi hj

theorem decode?_byte :
    decode? [digit i, digit j, '=', '='] = some [UInt8.ofNat ((i * 64 + j) / 16)] := by
  simp [decode?, value?_digit, hi, hj]

include hk

theorem decode?_pair :
    decode? [digit i, digit j, digit k, '='] =
      some [UInt8.ofNat (((i * 64 + j) * 64 + k) / 1024),
        UInt8.ofNat (((i * 64 + j) * 64 + k) / 4 % 256)] := by
  rw [decode?]
  · simp [value?_digit, hi, hj, hk]
  · exact fun same => absurd same (digit_ne_equals k hk)

include hl

theorem decode?_group (rest : List Char) {n : Nat} (whole : ((i * 64 + j) * 64 + k) * 64 + l = n) :
    decode? (digit i :: digit j :: digit k :: digit l :: rest) =
      (decode? rest).map fun bytes => UInt8.ofNat (n / 65536) ::
        UInt8.ofNat (n / 256 % 256) :: UInt8.ofNat (n % 256) :: bytes := by
  have values : decode? (digit i :: digit j :: digit k :: digit l :: rest) =
      (decode? rest).bind fun bytes => some (UInt8.ofNat (n / 65536) ::
        UInt8.ofNat (n / 256 % 256) :: UInt8.ofNat (n % 256) :: bytes) := by
    rw [decode?]
    · simp [value?_digit, hi, hj, hk, hl, whole]
    · exact fun _ same => absurd same (digit_ne_equals l hl)
    · exact fun same => absurd same (digit_ne_equals l hl)
  rw [values, Option.map_eq_bind]
  rfl

end

theorem ofNat_eq_of_eq_toNat {n : Nat} {byte : UInt8} (same : n = byte.toNat) :
    UInt8.ofNat n = byte := by
  rw [same, UInt8.ofNat_toNat]

/-- Decoding gives back the bytes, whatever their number. -/
theorem decode?_encode (bytes : Bytes) : decode? (encode bytes) = some bytes := by
  induction bytes using encode.induct with
  | case1 a b c rest ih =>
    have _ := a.toNat_lt
    have _ := b.toNat_lt
    have _ := c.toNat_lt
    rw [encode, decode?_group (by omega) (by omega) (by omega) (by omega) _
      (show _ = (a.toNat * 256 + b.toNat) * 256 + c.toNat by omega), ih, Option.map_some,
      ofNat_eq_of_eq_toNat (show _ = a.toNat by omega),
      ofNat_eq_of_eq_toNat (show _ = b.toNat by omega),
      ofNat_eq_of_eq_toNat (show _ = c.toNat by omega)]
  | case2 a b =>
    have _ := a.toNat_lt
    have _ := b.toNat_lt
    rw [encode, decode?_pair (by omega) (by omega) (by omega),
      ofNat_eq_of_eq_toNat (show _ = a.toNat by omega),
      ofNat_eq_of_eq_toNat (show _ = b.toNat by omega)]
  | case3 a =>
    have _ := a.toNat_lt
    rw [encode, decode?_byte (by omega) (by omega),
      ofNat_eq_of_eq_toNat (show _ = a.toNat by omega)]
  | case4 => rfl

end Base64

/-- A positive number is neither negative nor zero. -/
theorem Binary64.sign_of_gtInt_zero {x : Binary64} (positive : x.gtInt 0 = true) :
    (x.isNegative || x.isZero) = false := by
  cases x with
  | nan => cases positive
  | infinity negative => simpa [gtInt, isNegative, isZero] using positive
  | finite negative significand exponent =>
    have above : 0 < if negative = true then -((magnitude significand exponent).1 : Int)
        else (magnitude significand exponent).1 := by
      simpa [gtInt, ratio?] using positive
    cases negative with
    | true =>
      rw [if_pos rfl] at above
      omega
    | false =>
      have nonzero : significand ≠ 0 := by
        rintro rfl
        have nothing : (magnitude 0 exponent).1 = 0 := by
          unfold magnitude
          split <;> simp
        simp [nothing] at above
      simp [isNegative, isZero, nonzero]

/-! ## Three passes over the assets -/

namespace Asset

/-- The bytes that have been read. -/
def Local.bytes? : Local → Option Bytes
  | .loaded bytes => some bytes
  | _ => none

/-- The bytes that have been read, each with the id of its asset. -/
def readings (pairs : List (Asset × Local)) : List (String × Bytes) :=
  pairs.filterMap fun pair => pair.2.bytes?.map (pair.1.id, ·)

theorem payloads_ofPairs (pairs : List (Asset × Local)) :
    (Loaded.ofPairs pairs).payloads = Ordered.ofList (readings pairs) := by
  refine congrArg Ordered.ofList (List.filterMap_congr fun pair _ => ?_)
  obtain ⟨asset, found⟩ := pair
  cases found <;> rfl

theorem ids_readings_sublist (pairs : List (Asset × Local)) :
    ((readings pairs).map (·.1)).Sublist (pairs.map (·.1.id)) := by
  induction pairs with
  | nil => exact List.Sublist.refl []
  | cons pair pairs ih =>
    cases found : pair.2.bytes? with
    | none => simpa [readings, found] using ih.cons pair.1.id
    | some bytes => simpa [readings, found] using ih

/-- Under the id of an asset are the bytes of its own file. -/
theorem get?_payloads {pairs : List (Asset × Local)} {pair : Asset × Local}
    (distinct : (pairs.map (·.1.id)).Nodup) (member : pair ∈ pairs) :
    Ordered.get? (Loaded.ofPairs pairs).payloads pair.1.id = pair.2.bytes? := by
  rw [payloads_ofPairs]
  cases found : pair.2.bytes? with
  | some bytes =>
    refine Ordered.get?_putAll_of_mem (distinct.sublist (ids_readings_sublist pairs))
      (List.mem_filterMap.mpr ⟨pair, member, ?_⟩)
    rw [found, Option.map_some]
  | none =>
    refine Ordered.get?_putAll_of_notMem fun known => ?_
    obtain ⟨reading, isReading, sameId⟩ := List.mem_map.mp known
    obtain ⟨other, isPair, read⟩ := List.mem_filterMap.mp isReading
    obtain ⟨bytes, loaded, rfl⟩ := Option.map_eq_some_iff.mp read
    obtain rfl : other = pair := List.inj_on_of_nodup_map distinct isPair member sameId
    rw [found] at loaded
    cases loaded

section

variable {options : AssetOptions} {asset result : Asset}

/-- Optimising an asset whose width is unknown gives it formats and tells whether it is small. -/
theorem optimizeOne_eq (noWidth : asset.width = none)
    (done : optimizeOne options asset = .ok result) :
    ∃ alternateFormats, result =
      { asset with alternateFormats, inlined := asset.inlined || asset.isSmall options } := by
  rcases mark_of_optimizeOne done with ⟨-, limited, alternateFormats, isLimited, -, rfl⟩ | ⟨-, rfl⟩
  · rw [limitWidth, noWidth] at isLimited
    cases isLimited
    exact ⟨alternateFormats, rfl⟩
  · exact ⟨asset.alternateFormats, rfl⟩

theorem embedOne_of_no_dataUri (payloads : Payloads) (bare : asset.dataUri = none) :
    embedOne payloads asset =
      { asset with
        dataUri := if asset.inlined then
          (Ordered.get? payloads asset.id).map (dataUriOf asset.mimeType) else none } := by
  obtain ⟨id, url, optimizedUrl, type, mimeType, size, optimizedSize, width, height, formats,
    inlined, dataUri, users⟩ := asset
  obtain rfl : dataUri = none := bare
  cases inlined <;> cases found : Ordered.get? payloads id <;> simp [embedOne, found]

end

/-- What the three passes make of an asset whose file holds the bytes, if there is one. -/
structure HasFile (options : AssetOptions) (bytes? : Option Bytes) (asset : Asset) : Prop where
  size : asset.size = bytes?.map fun bytes => (bytes.length : Int)
  dataUri : asset.dataUri =
    (bytes?.filter fun bytes =>
      options.inlineSmallAssets && decide ((bytes.length : Int) < options.inlineThreshold)).map
        (dataUriOf asset.mimeType)

/-- Loading, optimising and embedding agree on the bytes of the file. -/
theorem hasFile_embedOne {options : AssetOptions} {payloads : Payloads} {use : Use}
    {users : List String} {found : Local} {result : Asset}
    (payload : Ordered.get? payloads (recordOf use users).id = found.bytes?)
    (done : optimizeOne options ((recordOf use users).measured found) = .ok result) :
    HasFile options found.bytes? (embedOne payloads result) ∧
      (embedOne payloads result).url = use.url := by
  have measured : (recordOf use users).measured found =
      { recordOf use users with size := found.bytes?.map fun bytes => (bytes.length : Int) } := by
    cases found <;> rfl
  rw [measured] at done
  obtain ⟨alternateFormats, rfl⟩ := optimizeOne_eq rfl done
  rw [embedOne_of_no_dataUri payloads rfl]
  refine ⟨⟨rfl, ?_⟩, rfl⟩
  change (if isSmall _ options = true then
    (Ordered.get? payloads (recordOf use users).id).map _ else none) = _
  rw [payload]
  cases found.bytes? with
  | none => simp
  | some bytes => simp [isSmall, Option.filter]

theorem readLocal_ok {tree : Tree} {root : Path} {timeout : Binary64} {asset : Asset}
    {found : Local} (positive : timeout.gtInt 0 = true)
    (read : readLocal tree root timeout asset = .ok found) (bytes : Bytes) :
    found.bytes? = some bytes ↔ ∃ place, localPlace? tree root asset.url = .ok (some place) ∧
      tree.bytesAt? place = some bytes := by
  have patient := Binary64.sign_of_gtInt_zero positive
  obtain ⟨place?, isPlace, read⟩ := exists_of_bind_eq_ok read
  cases place? with
  | none =>
    cases read
    simp [Local.bytes?, isPlace]
  | some place =>
    obtain ⟨base, content, -, isFile, -⟩ := contained_of_localPlace? isPlace
    simp only [patient, Bool.false_eq_true, if_false] at read
    cases read
    simp [Local.bytes?, isPlace, Tree.bytesAt?, isFile]

end Asset

namespace Build

/-- The address leads to a file with these bytes beneath the asset root. -/
def Setting.IsLocal (setting : Setting) (url : String) (bytes : Bytes) : Prop :=
  ∃ root place, setting.assetRoot = some root ∧
    Asset.localPlace? setting.tree root url = .ok (some place) ∧
    setting.tree.bytesAt? place = some bytes

/-- What becomes of the file that an address leads to; without an asset root none does. -/
def Setting.fileOf (setting : Setting) (url : String) : Except Fault Asset.Local :=
  match setting.assetRoot with
  | some root => Asset.readLocal setting.tree root setting.options.assets.timeout
      (Asset.recordOf ⟨"", url, none⟩ [])
  | none => .ok .absent

section

variable {setting : Setting} {draft : Draft}

/-- Looking for the files of assets pairs each asset with the file that its address leads to. -/
theorem exists_pairs_of_load {assets : List Asset} {loaded : Asset.Loaded}
    (done : setting.load assets = .ok loaded) :
    ∃ pairs : List (Asset × Asset.Local), pairs.map (·.1) = assets ∧
      loaded = Asset.Loaded.ofPairs pairs ∧
      ∀ pair ∈ pairs, setting.fileOf pair.1.url = .ok pair.2 := by
  unfold Setting.load at done
  unfold Setting.fileOf
  cases rooted : setting.assetRoot with
  | none =>
    rw [rooted] at done
    cases done
    refine ⟨assets.map (·, .absent), by simp [Function.comp_def], ?_, ?_⟩
    · simp [Asset.Loaded.ofPairs, Asset.measured, Function.comp_def, Ordered.ofList,
        Ordered.putAll]
    · intro pair member
      obtain ⟨asset, -, rfl⟩ := List.mem_map.mp member
      rfl
  | some root =>
    rw [rooted] at done
    obtain ⟨pairs, looked, done⟩ := exists_of_bind_eq_ok done
    cases done
    refine ⟨pairs, ?_, rfl, fun pair member => ?_⟩
    · have firsts : List.Forall₂ (fun asset (pair : Asset × Asset.Local) => pair.1 = asset)
          assets pairs := by
        refine (forall₂_of_mapM_eq_ok looked).imp fun asset pair both => ?_
        obtain ⟨found, -, paired⟩ := exists_of_bind_eq_ok both.2
        cases paired
        rfl
      exact List.forall₂_eq_eq_eq ▸ List.forall₂_map_left_iff.mpr firsts.flip
    · obtain ⟨asset, -, read⟩ := exists_of_mem_mapM looked member
      obtain ⟨found, isFound, paired⟩ := exists_of_bind_eq_ok read
      cases paired
      exact isFound

theorem isLocal_iff_of_fileOf (positive : setting.options.assets.timeout.gtInt 0 = true)
    {url : String} {file : Asset.Local} (read : setting.fileOf url = .ok file) (bytes : Bytes) :
    file.bytes? = some bytes ↔ setting.IsLocal url bytes := by
  unfold Setting.fileOf at read
  unfold Setting.IsLocal
  cases rooted : setting.assetRoot with
  | none =>
    rw [rooted] at read
    cases read
    simp [Asset.Local.bytes?]
  | some root =>
    rw [rooted] at read
    simp [Asset.readLocal_ok positive read, Asset.recordOf]

/-- The record of an asset that has been looked for, and the bytes under its id. -/
theorem exists_record_of_load {loaded : Asset.Loaded}
    (done : setting.load (setting.found draft) = .ok loaded) {asset : Asset}
    (member : asset ∈ loaded.assets) :
    ∃ use users file, asset = (Asset.recordOf use users).measured file ∧
      setting.fileOf use.url = .ok file ∧
      Ordered.get? loaded.payloads (Asset.recordOf use users).id = file.bytes? := by
  obtain ⟨pairs, assets, rfl, each⟩ := exists_pairs_of_load done
  have tabulates := Asset.tabulates_extract setting.heap (some setting.catalog) draft.entries
  have distinct : (pairs.map (·.1.id)).Nodup := by
    have ids : pairs.map (·.1.id) = (pairs.map (·.1)).map (·.id) := by simp [Function.comp_def]
    rw [ids, assets]
    exact tabulates.nodup
  obtain ⟨pair, isPair, rfl⟩ := List.mem_map.mp member
  have inFound : pair.1 ∈ setting.found draft := assets ▸ List.mem_map_of_mem isPair
  obtain ⟨use, -, users, isRecord⟩ := tabulates.exists_first inFound
  have payload := Asset.get?_payloads distinct isPair
  have found := each pair isPair
  obtain ⟨first, file⟩ := pair
  obtain rfl : first = Asset.recordOf use users := isRecord
  exact ⟨use, users, file, rfl, found, payload⟩

/-- An asset of a page that optimizes its assets is made of a record that has been looked for. -/
theorem exists_embedOne_of_optimize {loaded : Asset.Loaded} {assets : List Asset}
    (isLoaded : setting.load (setting.found draft) = .ok loaded)
    (optimizes : (setting.options.optimizeAssets && setting.options.isProduction) = true)
    (optimized : setting.optimize loaded = .ok assets) {asset : Asset} (member : asset ∈ assets) :
    ∃ use users file result, asset = Asset.embedOne loaded.payloads result ∧
      setting.fileOf use.url = .ok file ∧
      Ordered.get? loaded.payloads (Asset.recordOf use users).id = file.bytes? ∧
      Asset.optimizeOne setting.options.assets ((Asset.recordOf use users).measured file) =
        .ok result := by
  simp only [Setting.optimize, optimizes, if_true] at optimized
  obtain ⟨results, isOptimized, embedded⟩ := exists_of_bind_eq_ok optimized
  rw [← Except.ok.inj embedded] at member
  obtain ⟨result, isResult, rfl⟩ := List.mem_map.mp member
  obtain ⟨measured, isMeasured, one⟩ := exists_of_mem_mapM isOptimized isResult
  obtain ⟨use, users, file, rfl, read, payload⟩ := exists_record_of_load isLoaded isMeasured
  exact ⟨use, users, file, result, rfl, read, payload, one⟩

/-- Every asset of a production page has the bytes of its own file, if there is one. -/
theorem hasFile_of_style (production : setting.options.isProduction = true)
    (optimizes : setting.options.optimizeAssets = true)
    (positive : setting.options.assets.timeout.gtInt 0 = true) {styled : Styled}
    (done : setting.style draft = .ok styled) {asset : Asset} (member : asset ∈ styled.assets) :
    ∃ bytes?, asset.HasFile setting.options.assets bytes? ∧
      ∀ bytes, bytes? = some bytes ↔ setting.IsLocal asset.url bytes := by
  obtain ⟨loaded, isLoaded, optimized, -⟩ := Setting.style_ok done
  obtain ⟨use, users, file, result, rfl, read, payload, one⟩ :=
    exists_embedOne_of_optimize isLoaded (by rw [optimizes, production]; rfl) optimized member
  obtain ⟨hasFile, sameUrl⟩ := Asset.hasFile_embedOne payload one
  exact ⟨file.bytes?, hasFile, fun bytes => sameUrl ▸ isLocal_iff_of_fileOf positive read bytes⟩

theorem assets_of_manifest {assets : List Asset} {manifest : Manifest}
    (made : setting.manifest assets = .ok manifest) : manifest.assets = assets := by
  unfold Setting.manifest at made
  split at made
  · obtain ⟨percent, -, made⟩ := exists_of_bind_eq_ok made
    cases made
    rfl
  · cases made

/--
The size of an asset is known exactly if its address leads to a local file, and is the length of
that file. It is embedded exactly if, besides, small assets are and the file is small; the data then
decodes to the bytes of the file.
-/
theorem buildPage_embedsLocalFiles (production : setting.options.isProduction = true)
    (optimizes : setting.options.optimizeAssets = true)
    (positive : setting.options.assets.timeout.gtInt 0 = true) {manifest : Manifest}
    (built : (buildPage setting draft).1.manifest = some manifest) :
    ∀ asset ∈ manifest.assets,
      (∀ size, asset.size = some size ↔
        ∃ bytes, setting.IsLocal asset.url bytes ∧ size = bytes.length) ∧
      (asset.dataUri.isSome = true ↔
        ∃ bytes, setting.IsLocal asset.url bytes ∧
          setting.options.assets.inlineSmallAssets = true ∧
          (bytes.length : Int) < setting.options.assets.inlineThreshold) ∧
      ∀ uri, asset.dataUri = some uri → ∃ bytes text, setting.IsLocal asset.url bytes ∧
        uri = "data:" ++ asset.mimeType ++ ";base64," ++ String.ofList text ∧
        Base64.decode? text = some bytes := by
  intro asset member
  rcases buildPage_cases setting draft with
    ⟨fault, files, failed⟩ | ⟨styled, body, rendered, done, finished⟩
  · rw [failed] at built
    cases built
  · obtain ⟨document, other, isManifest, same, -⟩ := finish_counts finished
    obtain rfl : other = manifest := Option.some.inj (same.symm.trans built)
    rw [assets_of_manifest isManifest] at member
    obtain ⟨bytes?, hasFile, isLocal⟩ :=
      hasFile_of_style production optimizes positive done member
    simp only [← isLocal]
    refine ⟨fun found => ?_, ?_, fun uri given => ?_⟩
    · rw [hasFile.size, Option.map_eq_some_iff]
      simp only [eq_comm]
    · rw [hasFile.dataUri, Option.isSome_map, Option.isSome_iff_exists]
      simp [Option.filter_eq_some_iff]
    · rw [hasFile.dataUri] at given
      obtain ⟨bytes, kept, rfl⟩ := Option.map_eq_some_iff.mp given
      exact ⟨bytes, Base64.encode bytes, (Option.filter_eq_some_iff.mp kept).1, rfl,
        Base64.decode?_encode bytes⟩

end

/-- The record of the picture in the project's build, where it is embedded. -/
def pictureAsset : Asset :=
  { id := Asset.idOf "/logo.png", url := "/logo.png", optimizedUrl := "/logo.png", type := "image"
    mimeType := "image/png", size := some 3
    alternateFormats := [⟨"webp", "/logo.webp", none, some 80⟩], inlined := true
    dataUri := some "data:image/png;base64,AQID", usedBy := ["picture"] }

/-- The heap of the project's build: a component's props, and their copy with the embedded data. -/
def pictureHeap : Heap :=
  ⟨#[.dict [(.str "src", .str "/logo.png")],
    .dict [(.str "src", .str "data:image/png;base64,AQID")]]⟩

theorem pageSheet_picture :
    Style.pageSheet pictureHeap {} [.component ⟨"picture", "Image", .ref 1, []⟩] =
      .ok (Style.wholeSheet [""]) := by
  have rules : Style.componentRules pictureHeap {} ⟨"picture", "Image", .ref 1, []⟩ = .ok [] := by
    unfold Style.componentRules Style.breakpointRules
    rw [Style.sortedBreakpoints_default]
    cbv
  have traversed : [Entry.component ⟨"picture", "Image", .ref 1, []⟩].mapM
      (Style.entryText pictureHeap {}) = .ok [""] := by
    rw [List.mapM_cons, Style.entryText, Style.componentText_eq rules]
    rfl
  exact Style.pageSheet_unreduced traversed

/-- What the first stage leaves of the picture's page. -/
def pictureStyled : Styled :=
  { heap := pictureHeap, entries := [.component ⟨"picture", "Image", .ref 1, []⟩]
    assets := [pictureAsset], rawSheet := Style.wholeSheet [""]
    sheet := pictureSetting.reduced Style.minify (Style.wholeSheet [""]) }

theorem style_picture : pictureSetting.style pictureDraft = .ok pictureStyled := by
  have loaded : pictureSetting.load (pictureSetting.found pictureDraft) =
      .ok ⟨[{ pictureAsset with alternateFormats := [], inlined := false, dataUri := none }],
        [(pictureAsset.id, [1, 2, 3])]⟩ := by
    decide +kernel
  have copied : pictureSetting.heap.withCopy =
      ⟨#[.dict [(.str "src", .str "/logo.png")], .dict [(.str "src", .str "/logo.png")]]⟩ := by
    simp [Heap.withCopy, pictureSetting, Container.shift, Value.shift]
  have relinked : Relink.relink pictureSetting.heap (some pictureSetting.catalog) [pictureAsset]
      pictureDraft.entries = .ok (pictureHeap, [.component ⟨"picture", "Image", .ref 1, []⟩]) := by
    unfold Relink.relink
    rw [copied]
    rfl
  exact Setting.style_eq loaded (by decide +kernel) relinked pageSheet_picture

theorem buildPage_embedsLocalFiles_picture :
    pictureSetting.options.isProduction = true ∧ pictureSetting.options.optimizeAssets = true ∧
      pictureSetting.options.assets.timeout.gtInt 0 = true ∧
      ∃ manifest, (buildPage pictureSetting pictureDraft).1.manifest = some manifest ∧
        pictureAsset ∈ manifest.assets ∧
        (∃ bytes, pictureSetting.IsLocal "/logo.png" bytes ∧ bytes.length = 3) ∧
        ∃ bytes text, pictureSetting.IsLocal "/logo.png" bytes ∧
          "data:image/png;base64,AQID" = "data:image/png;base64," ++ String.ofList text ∧
          Base64.decode? text = some bytes := by
  have succeeded : (buildPage pictureSetting pictureDraft).1.failure = none :=
    failure_buildPage_of_written (DateTime.isUniversal_ofEpoch 0) style_picture rfl rfl
  obtain ⟨styled, body, state, done, -, finished⟩ :=
    buildPage_ok (Prod.eta _).symm succeeded
  obtain rfl : pictureStyled = styled := Except.ok.inj (style_picture.symm.trans done)
  obtain ⟨document, manifest, made, built, -⟩ := finish_counts finished
  have member : pictureAsset ∈ manifest.assets := by
    rw [assets_of_manifest made]
    exact List.mem_cons_self
  have positive : pictureSetting.options.assets.timeout.gtInt 0 = true := by decide +kernel
  obtain ⟨sizes, -, data⟩ := buildPage_embedsLocalFiles rfl rfl positive built pictureAsset member
  obtain ⟨bytes, isLocal, size⟩ := (sizes 3).mp rfl
  exact ⟨rfl, rfl, positive, manifest, built, member, ⟨bytes, isLocal, Int.ofNat.inj size.symm⟩,
    data _ rfl⟩

end Build

end StaticSite
