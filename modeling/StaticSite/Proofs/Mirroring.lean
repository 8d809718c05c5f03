import Mathlib.Data.List.Nodup
import StaticSite.Proofs.InputSafety

/-!
# Directories that mirror another

A directory that is empty takes in what another one holds, entry by entry. Each entry is copied from
the tree as it is by then, but the copies lie apart from what is still to be copied, so in the end
every place in the one directory holds what the same place in the other held at the start.
-/

namespace StaticSite

namespace Tree

/-- The tree of a file system: places are distinct, and what stands at one stands in a directory. -/
structure Sound (tree : Tree) : Prop where
  plain : tree.Plain
  distinct : (tree.stored.map (·.1)).Nodup
  rooted : ∀ entry ∈ tree.stored, tree.find? entry.1.dropLast = some .directory

section

variable {tree : Tree} {place : Place}

/-- Entries of one directory lie apart. -/
theorem isWithin_sibling {base : Place} {name other : String} (different : other ≠ name)
    (rest : List String) : isWithin (base ++ [other]) (base ++ name :: rest) = false := by
  refine Bool.eq_false_iff.mpr fun within => different ?_
  obtain ⟨more, whole⟩ := isWithin_iff.mp within
  have heads : other = name ∧ more = rest := by simpa using whole
  exact heads.1

/-- Places of which neither is within the other have nothing within both. -/
theorem not_isWithin_both {base other : Place} (apart : isWithin base other = false)
    (apart' : isWithin other base = false) (within : isWithin base place = true) :
    isWithin other place = false := by
  refine Bool.eq_false_iff.mpr fun inside => ?_
  rcases List.prefix_or_prefix_of_prefix (isWithin_iff.mp within) (isWithin_iff.mp inside) with
    first | second
  · exact Bool.eq_false_iff.mp apart (isWithin_iff.mpr first)
  · exact Bool.eq_false_iff.mp apart' (isWithin_iff.mpr second)

theorem exists_stored_of_find? {what : Stored} (filled : place ≠ [])
    (found : tree.find? place = some what) : (place, what) ∈ tree.stored := by
  rw [find?, if_neg filled] at found
  obtain ⟨before, after, whole, -⟩ := List.lookup_eq_some_iff.mp found
  rw [whole]
  simp

/-- Whatever stands beneath a place stands there in a directory. -/
theorem Sound.directory_of_beneath (sound : tree.Sound) {rest : List String} (filled : rest ≠ [])
    (stands : (tree.find? (place ++ rest)).isSome = true) : tree.find? place = some .directory := by
  induction rest using List.reverseRecOn with
  | nil => exact absurd rfl filled
  | append_singleton rest name ih =>
    obtain ⟨what, found⟩ := Option.isSome_iff_exists.mp stands
    have inTree := exists_stored_of_find? (by simp) found
    have above : tree.find? (place ++ rest) = some .directory := by
      have parent := sound.rooted _ inTree
      rwa [← List.append_assoc, List.dropLast_concat] at parent
    by_cases last : rest = []
    · rwa [last, List.append_nil] at above
    · exact ih last (by rw [above]; rfl)

/-! ## Distinct places -/

theorem distinct_put (distinct : (tree.stored.map (·.1)).Nodup) (what : Stored) :
    ((tree.put place what).stored.map (·.1)).Nodup := by
  have fewer : ((tree.stored.filter fun entry => entry.1 != place).map (·.1)).Nodup :=
    distinct.sublist (List.filter_sublist.map _)
  simp only [put, List.map_append, List.map_cons, List.map_nil]
  refine List.nodup_append.mpr ⟨fewer, List.nodup_singleton place, ?_⟩
  simp only [List.mem_map, List.mem_filter, List.mem_singleton]
  rintro _ ⟨entry, ⟨-, other⟩, rfl⟩ _ rfl
  simpa using other

theorem distinct_filter (distinct : (tree.stored.map (·.1)).Nodup) (keep : Place × Stored → Bool) :
    ((tree.stored.filter keep).map (·.1)).Nodup :=
  distinct.sublist (List.filter_sublist.map _)

/-! ## What lies beneath a place -/

theorem lookup_beneath_nil (tree : Tree) (place : Place) :
    (tree.beneath place).lookup [] = none := by
  refine List.lookup_eq_none_iff.mpr fun entry member => ?_
  obtain ⟨stored, inTree, rfl⟩ := List.mem_map.mp member
  obtain ⟨⟨rest, whole⟩, different⟩ := isBeneath_iff.mp (List.mem_filter.mp inTree).2
  refine bne_iff_ne.mpr fun nothing => different ?_
  have short : [] = rest := by simpa [← whole] using nothing
  rw [← whole, ← short, List.append_nil]

theorem lookup_beneath (tree : Tree) (place : Place) {rest : List String} (filled : rest ≠ []) :
    (tree.beneath place).lookup rest = tree.find? (place ++ rest) := by
  rw [find?, if_neg (by simp [filled]), beneath]
  induction tree.stored with
  | nil => rfl
  | cons entry stored ih =>
    obtain ⟨key, what⟩ := entry
    by_cases inside : isBeneath place key = true
    · obtain ⟨names, rfl⟩ := (isBeneath_iff.mp inside).1
      by_cases same : rest = names
      · subst same
        simp [inside]
      · have apart : (rest == names) = false := beq_eq_false_iff_ne.mpr same
        have apart' : (place ++ rest == place ++ names) = false :=
          beq_eq_false_iff_ne.mpr (mt List.append_cancel_left same)
        simp [inside, List.lookup_cons, apart, apart', ih]
    · have apart : (place ++ rest == key) = false := by
        refine beq_eq_false_iff_ne.mpr ?_
        rintro rfl
        exact inside (isBeneath_iff.mpr ⟨List.prefix_append place rest, by simp [filled]⟩)
      simp [inside, List.lookup_cons, apart, ih]

theorem distinct_beneath (distinct : (tree.stored.map (·.1)).Nodup) (place : Place) :
    ((tree.beneath place).map (·.1)).Nodup := by
  have kept := distinct_filter distinct fun entry => isBeneath place entry.1
  rw [beneath, List.map_map]
  refine List.Nodup.map_on (fun entry inTree other inTree' same => ?_) (List.Nodup.of_map _ kept)
  have isBelow : place <+: entry.1 := (isBeneath_iff.mp (List.mem_filter.mp inTree).2).1
  have isBelow' : place <+: other.1 := (isBeneath_iff.mp (List.mem_filter.mp inTree').2).1
  refine List.inj_on_of_nodup_map kept inTree inTree' ?_
  obtain ⟨rest, whole⟩ := isBelow
  obtain ⟨rest', whole'⟩ := isBelow'
  simp only [Function.comp_apply, ← whole, ← whole', List.drop_left] at same
  rw [← whole, ← whole', same]

theorem mem_namesIn_iff {name : String} :
    name ∈ tree.namesIn place ↔ (tree.find? (place ++ [name])).isSome = true := by
  refine ⟨find?_of_mem_namesIn, fun stands => ?_⟩
  obtain ⟨what, found⟩ := Option.isSome_iff_exists.mp stands
  have entry : ([name], what) ∈ tree.beneath place :=
    List.mem_map.mpr ⟨_, List.mem_filter.mpr ⟨exists_stored_of_find? (by simp) found,
      (isBeneath_child_iff name).mpr (isWithin_iff.mpr List.prefix_rfl)⟩, by simp⟩
  exact List.mem_filterMap.mpr ⟨_, entry, rfl⟩

theorem nodup_namesIn (distinct : (tree.stored.map (·.1)).Nodup) (place : Place) :
    (tree.namesIn place).Nodup := by
  have apart := distinct_beneath distinct place
  rw [List.Nodup, List.pairwise_map] at apart
  rw [namesIn, List.Nodup, List.pairwise_filterMap]
  refine apart.imp fun {entry other} different name isName name' isName' => ?_
  rintro rfl
  split at isName
  next single =>
    split at isName'
    next single' =>
      cases isName
      cases isName'
      exact different (single.trans single'.symm)
    · cases isName'
  · cases isName

/-- Entries with distinct names that are put beneath a place are found under their names. -/
theorem find?_foldl_put {base : Place} (filled : base ≠ []) {entries : List (Place × Stored)}
    (distinct : (entries.map (·.1)).Nodup) (tree : Tree) (rest : List String) :
    (entries.foldl (fun tree entry => tree.put (base ++ entry.1) entry.2) tree).find?
        (base ++ rest) =
      (entries.lookup rest).or (tree.find? (base ++ rest)) := by
  induction entries generalizing tree with
  | nil => rfl
  | cons entry entries ih =>
    obtain ⟨key, what⟩ := entry
    rw [List.map_cons, List.nodup_cons] at distinct
    rw [List.foldl_cons, ih distinct.2, find?_put what (by simp [filled]), List.lookup_cons]
    by_cases same : rest = key
    · subst same
      have absent : entries.lookup rest = none :=
        List.lookup_eq_none_iff.mpr fun entry member =>
          bne_iff_ne.mpr fun same => distinct.1 (List.mem_map.mpr ⟨entry, member, same.symm⟩)
      simp [absent]
    · have apart : (rest == key) = false := beq_eq_false_iff_ne.mpr same
      simp [apart, same]

end

end Tree

namespace Work

/-! ## What work has done that has succeeded -/

section

variable {tree after : Tree} {source target path : Path}

theorem exists_of_run_bind {α β : Type} {work : Work α} {next : α → Work β} {value : β}
    (done : (work >>= next).run tree = .ok value after) :
    ∃ first middle, work.run tree = .ok first middle ∧
      (next first).run middle = .ok value after := by
  simp only [EStateM.run, bind, EStateM.bind] at done ⊢
  cases result : work tree with
  | ok first middle =>
    rw [result] at done
    exact ⟨first, middle, rfl, done⟩
  | error fault middle =>
    rw [result] at done
    cases done

theorem of_run_ofExcept {α : Type} {step : Except Fault α} {value : α}
    (done : (ofExcept step).run tree = .ok value after) : step = .ok value ∧ tree = after := by
  cases step with
  | error fault => cases done
  | ok result =>
    cases done
    exact ⟨rfl, rfl⟩

theorem of_run_reach {reached : Place × Option Stored}
    (done : (reach path).run tree = .ok reached after) :
    reached = (tree.spelled path, tree.find? (tree.spelled path)) ∧ tree = after := by
  rw [reach_run] at done
  cases arrived : tree.reach path with
  | error fault => simp [arrived] at done
  | ok place =>
    obtain ⟨rfl, -⟩ := Tree.reach_ok arrived
    rw [arrived] at done
    cases done
    exact ⟨rfl, rfl⟩

theorem of_run_forM_modify {β : Type} {items : List β} {change : β → Tree → Tree} {value : Unit}
    (done : (items.forM fun item => (modify (change item) : Work Unit)).run tree =
      .ok value after) :
    after = items.foldl (fun tree item => change item tree) tree := by
  induction items generalizing tree with
  | nil =>
    cases done
    rfl
  | cons item items ih =>
    obtain ⟨_, middle, isMade, done⟩ := exists_of_run_bind done
    cases isMade
    exact ih done

theorem of_run_removeDirectory {value : Unit}
    (done : (removeDirectory path).run tree = .ok value after) :
    after = (tree.clear (tree.spelled path)).remove (tree.spelled path) := by
  obtain ⟨reached, middle, arrived, done⟩ := exists_of_run_bind done
  obtain ⟨rfl, rfl⟩ := of_run_reach arrived
  dsimp only at done
  split at done
  · cases done
  · cases done
  · obtain ⟨_, cleared, isCleared, done⟩ := exists_of_run_bind done
    cases isCleared
    split at done
    · cases done
    · obtain ⟨reached, cleared, arrived, done⟩ := exists_of_run_bind done
      obtain ⟨rfl, rfl⟩ := of_run_reach arrived
      cases done
      rfl

theorem of_run_copyDirectory {value : Unit}
    (done : (copyDirectory source target).run tree = .ok value after) :
    after = (tree.beneath (tree.spelled source)).foldl
      (fun tree' entry => tree'.put (tree.spelled target ++ entry.1) entry.2)
      (tree.put (tree.spelled target) .directory) := by
  obtain ⟨reached, middle, arrived, done⟩ := exists_of_run_bind done
  obtain ⟨rfl, rfl⟩ := of_run_reach arrived
  dsimp only at done
  split at done
  · cases done
  · obtain ⟨now, middle, isNow, done⟩ := exists_of_run_bind done
    cases isNow
    obtain ⟨reached, middle, arrived, done⟩ := exists_of_run_bind done
    obtain ⟨rfl, rfl⟩ := of_run_reach arrived
    dsimp only at done
    split at done
    · cases done
    · obtain ⟨_, made, isMade, done⟩ := exists_of_run_bind done
      cases isMade
      exact of_run_forM_modify done

theorem find?_of_readBytes {bytes : Bytes} (isRead : tree.readBytes path = .ok bytes) :
    tree.find? (tree.spelled path) = some (.file bytes) := by
  obtain ⟨place, arrived, isRead⟩ := exists_of_bind_eq_ok isRead
  obtain ⟨rfl, -⟩ := Tree.reach_ok arrived
  split at isRead
  next found =>
    cases isRead
    exact found
  · cases isRead
  · cases isRead

theorem find?_of_isDirectory (isDirectory : tree.isDirectory path = .ok true) :
    tree.find? (tree.spelled path) = some .directory := by
  obtain ⟨what, found, isDirectory⟩ := exists_of_map_eq_ok isDirectory
  obtain rfl := of_decide_eq_true isDirectory
  exact Tree.find?_of_status? found

theorem isSome_find?_of_holds (holds : tree.holds path = .ok true) :
    (tree.find? (tree.spelled path)).isSome = true := by
  obtain ⟨what, found, isSome⟩ := exists_of_map_eq_ok holds
  obtain ⟨stored, rfl⟩ := Option.isSome_iff_exists.mp isSome
  rw [Tree.find?_of_status? found]
  rfl

theorem of_run_copyBytes {value : Unit}
    (done : (copyBytes source target).run tree = .ok value after) :
    ∃ bytes, tree.find? (tree.spelled source) = some (.file bytes) ∧
      after = tree.put (tree.spelled target) (.file bytes) := by
  obtain ⟨reached, middle, arrived, done⟩ := exists_of_run_bind done
  obtain ⟨rfl, rfl⟩ := of_run_reach arrived
  obtain ⟨now, middle, isNow, done⟩ := exists_of_run_bind done
  cases isNow
  obtain ⟨bytes, middle, ran, done⟩ := exists_of_run_bind done
  obtain ⟨isRead, rfl⟩ := of_run_ofExcept ran
  obtain ⟨reached, middle, arrived, done⟩ := exists_of_run_bind done
  obtain ⟨rfl, rfl⟩ := of_run_reach arrived
  refine ⟨bytes, find?_of_readBytes isRead, ?_⟩
  dsimp only at done
  split at done
  · cases done
  · exact (of_run_writeBytes done).2

theorem of_run_copyFile {value : Unit} (free : tree.find? (tree.spelled target) = none)
    (done : (copyFile source target).run tree = .ok value after) :
    ∃ bytes, tree.find? (tree.spelled source) = some (.file bytes) ∧
      after = tree.put (tree.spelled target) (.file bytes) := by
  obtain ⟨now, middle, isNow, done⟩ := exists_of_run_bind done
  cases isNow
  obtain ⟨there, middle, ran, done⟩ := exists_of_run_bind done
  obtain ⟨isThere, rfl⟩ := of_run_ofExcept ran
  cases there with
  | true => simp [find?_of_isDirectory isThere] at free
  | false => exact of_run_copyBytes done

end

end Work

namespace Output

open Work

section

variable {source output : Path} {tree after : Tree} {name : String}

/-- An entry is copied to where nothing stands: a directory with what lies beneath it, or a file. -/
theorem of_run_copyEntry (forward : name ≠ "..")
    (free : tree.find? (tree.spelled output ++ [name]) = none) {value : Unit}
    (done : (copyEntry source output name).run tree = .ok value after) :
    (tree.find? (tree.spelled source ++ [name]) = some .directory ∧
        after = (tree.beneath (tree.spelled source ++ [name])).foldl
          (fun after entry => after.put (tree.spelled output ++ [name] ++ entry.1) entry.2)
          (tree.put (tree.spelled output ++ [name]) .directory)) ∨
      ∃ bytes, tree.find? (tree.spelled source ++ [name]) = some (.file bytes) ∧
        after = tree.put (tree.spelled output ++ [name]) (.file bytes) := by
  rw [← spelled_child output forward] at free ⊢
  rw [← spelled_child source forward]
  obtain ⟨now, middle, isNow, done⟩ := exists_of_run_bind done
  cases isNow
  obtain ⟨nested, middle, ran, done⟩ := exists_of_run_bind done
  obtain ⟨isNested, rfl⟩ := of_run_ofExcept ran
  cases nested with
  | true =>
    obtain ⟨now, middle, isNow, done⟩ := exists_of_run_bind done
    cases isNow
    obtain ⟨there, middle, ran, done⟩ := exists_of_run_bind done
    obtain ⟨isThere, rfl⟩ := of_run_ofExcept ran
    cases there with
    | true =>
      have stands := isSome_find?_of_holds isThere
      rw [free] at stands
      cases stands
    | false => exact .inl ⟨find?_of_isDirectory isNested, of_run_copyDirectory done⟩
  | false => exact .inr (of_run_copyFile free done)

/-- Beneath the place of a copied entry is what lies beneath the entry itself. -/
theorem bytesAt?_of_run_copyEntry (distinct : (tree.stored.map (·.1)).Nodup)
    (forward : name ≠ "..")
    (vacant : ∀ rest, tree.find? (tree.spelled output ++ name :: rest) = none)
    (solid : ∀ bytes, tree.find? (tree.spelled source ++ [name]) = some (.file bytes) →
      ∀ rest ≠ [], tree.bytesAt? (tree.spelled source ++ name :: rest) = none) {value : Unit}
    (done : (copyEntry source output name).run tree = .ok value after) (rest : List String) :
    after.bytesAt? (tree.spelled output ++ name :: rest) =
      tree.bytesAt? (tree.spelled source ++ name :: rest) := by
  have filled : tree.spelled output ++ [name] ≠ [] := by simp
  have apart (whole : rest ≠ []) :
      tree.spelled output ++ name :: rest ≠ tree.spelled output ++ [name] := by
    simpa using whole
  rcases of_run_copyEntry forward (vacant []) done with
    ⟨isDirectory, copied⟩ | ⟨bytes, isFile, rfl⟩
  · have found := Tree.find?_foldl_put filled
      (Tree.distinct_beneath distinct (tree.spelled source ++ [name]))
      (tree.put (tree.spelled output ++ [name]) .directory) rest
    rw [← copied, List.append_assoc, List.singleton_append, Tree.find?_put .directory filled]
      at found
    by_cases whole : rest = []
    · subst whole
      rw [Tree.lookup_beneath_nil, if_pos rfl] at found
      simp [Tree.bytesAt?, found, isDirectory]
    · rw [Tree.lookup_beneath _ _ whole, if_neg (apart whole), vacant, Option.or_none,
        List.append_assoc, List.singleton_append] at found
      simp [Tree.bytesAt?, found]
  · by_cases whole : rest = []
    · subst whole
      simp [Tree.bytesAt?, Tree.find?_put _ filled, isFile]
    · rw [solid bytes isFile rest whole, Tree.bytesAt?, Tree.find?_put _ filled,
        if_neg (apart whole), vacant]

end

end Output

/-! ## Entry by entry -/

namespace Work

/-- The places are distinct, and what stands in the region is as it was before. -/
structure Agrees (before : Tree) (region : Place → Prop) (tree : Tree) : Prop where
  home : tree.home = before.home
  distinct : (tree.stored.map (·.1)).Nodup
  same : ∀ place, region place → tree.find? place = before.find? place

section

variable {before tree : Tree} {region : Place → Prop} {base place : Place}

theorem Agrees.spelled (agrees : Agrees before region tree) (path : Path) :
    tree.spelled path = before.spelled path :=
  Tree.spelled_congr agrees.home path

theorem Agrees.put (agrees : Agrees before region tree) (filled : place ≠ [])
    (apart : ¬region place) (what : Stored) : Agrees before region (tree.put place what) where
  home := agrees.home
  distinct := Tree.distinct_put agrees.distinct what
  same other inside := by
    have different : other ≠ place := fun here => apart (here ▸ inside)
    rw [Tree.find?_put what filled, if_neg different, agrees.same other inside]

theorem Agrees.clear (agrees : Agrees before region tree)
    (apart : ∀ place, region place → Tree.isWithin base place = false) :
    Agrees before region (tree.clear base) where
  home := agrees.home
  distinct := Tree.distinct_filter agrees.distinct _
  same other inside := by
    rw [Tree.find?_clear_of_not_isWithin (apart other inside), agrees.same other inside]

theorem Agrees.remove (agrees : Agrees before region tree)
    (apart : ∀ place, region place → Tree.isWithin base place = false) :
    Agrees before region (tree.remove base) where
  home := agrees.home
  distinct := Tree.distinct_filter agrees.distinct _
  same other inside := by
    rw [Tree.find?_remove_of_not_isWithin (apart other inside), agrees.same other inside]

/-- What stands apart from a place is not touched by work at and beneath it. -/
theorem ignores_agrees (filled : base ≠ [])
    (apart : ∀ place, region place → Tree.isWithin base place = false) :
    Ignores before (fun place => Tree.isWithin base place = true) (Agrees before region) where
  spelled _ agrees := agrees.spelled
  put tree place what agrees within := by
    refine agrees.put ?_ (fun inside => ?_) what
    · rintro rfl
      exact filled (List.prefix_nil.mp (Tree.isWithin_iff.mp within))
    · rw [apart place inside] at within
      cases within
  remove path within := by
    have outside (place : Place) (inside : region place) :
        Tree.isWithin (before.spelled path) place = false :=
      Tree.isWithin_eq_false_of_outer within (apart place inside)
    exact keeps_removeDirectory (fun _ agrees => agrees.spelled path)
      (fun _ agrees => agrees.clear outside) fun _ agrees => agrees.remove outside
  child _ _ _ within := Tree.isWithin_trans within (Tree.isWithin_append _ _)
  beneath _ _ _ _ within _ _ := Tree.isWithin_trans within (Tree.isWithin_append _ _)

end

end Work

namespace Output

open Work

/--
The directories lie apart, and there is room for the entry: nothing stands where it goes, and what
is no directory holds nothing.
-/
structure Admits (source output : Path) (tree : Tree) (name : String) : Prop where
  distinct : (tree.stored.map (·.1)).Nodup
  outside : Tree.isWithin (tree.spelled source) (tree.spelled output) = false
  apart : Tree.isWithin (tree.spelled output) (tree.spelled source) = false
  vacant : ∀ rest, tree.find? (tree.spelled output ++ name :: rest) = none
  solid : ∀ bytes, tree.find? (tree.spelled source ++ [name]) = some (.file bytes) →
    ∀ rest ≠ [], tree.bytesAt? (tree.spelled source ++ name :: rest) = none

/-- The places that copying one entry looks at: the directory it is in and those it goes to. -/
def Concerns (source output : Path) (before : Tree) (name : String) (place : Place) : Prop :=
  Tree.isWithin (before.spelled source) place = true ∨
    Tree.isWithin (before.spelled output ++ [name]) place = true

section

variable {source output : Path} {before : Tree} {name other : String}

/-- Entries under other names leave the places at and beneath an entry as they are. -/
theorem keeps_copyEntries_elsewhere {names : List String} (forward : ∀ other ∈ names, other ≠ "..")
    (absent : name ∉ names) (rest : List String) (content : Option Bytes) :
    Keeps (Holds before (before.spelled output ++ name :: rest) content)
      (names.forM (copyEntry source output)) := by
  refine keeps_forM fun other member => ?_
  have different : other ≠ name := fun same => absent (same ▸ member)
  exact ignores_holds.keeps_copyEntry source (forward other member)
    (Tree.isWithin_sibling different rest)

theorem Admits.outside_concerns (admits : Admits source output before name)
    (different : other ≠ name) {place : Place}
    (concerns : Concerns source output before name place) :
    Tree.isWithin (before.spelled output ++ [other]) place = false := by
  rcases concerns with inSource | inEntry
  · have apart := Tree.not_isWithin_both admits.outside admits.apart inSource
    exact Tree.isWithin_append_of_not apart [other]
  · obtain ⟨rest, rfl⟩ := Tree.isWithin_iff.mp inEntry
    rw [List.append_assoc, List.singleton_append]
    exact Tree.isWithin_sibling different rest

/-- The other entries do not come in the way of the one. -/
theorem Admits.keeps_copyEntry (admits : Admits source output before name) (forward : other ≠ "..")
    (different : other ≠ name) :
    Keeps (Agrees before (Concerns source output before name)) (copyEntry source output other) :=
  (ignores_agrees (by simp) fun _ => admits.outside_concerns different).keeps_copyEntry source
    forward (Tree.isWithin_iff.mpr List.prefix_rfl)

theorem Admits.achieves_copyEntry (admits : Admits source output before name)
    (forward : name ≠ "..") (rest : List String) :
    Achieves (Agrees before (Concerns source output before name))
      (Holds before (before.spelled output ++ name :: rest)
        (before.bytesAt? (before.spelled source ++ name :: rest)))
      (copyEntry source output name) fun _ => True := by
  intro tree value after agrees done
  have inSource (names : List String) : tree.find? (before.spelled source ++ names) =
      before.find? (before.spelled source ++ names) :=
    agrees.same _ (.inl (Tree.isWithin_append _ _))
  have inEntry (names : List String) : tree.find? (before.spelled output ++ name :: names) =
      before.find? (before.spelled output ++ name :: names) := by
    have within := Tree.isWithin_append (before.spelled output ++ [name]) names
    rw [List.append_assoc, List.singleton_append] at within
    exact agrees.same _ (.inr within)
  have copied := bytesAt?_of_run_copyEntry agrees.distinct forward
    (fun names => by rw [agrees.spelled, inEntry, admits.vacant])
    (fun bytes isFile names whole => by
      rw [agrees.spelled, inSource] at isFile
      rw [agrees.spelled, Tree.bytesAt?_congr (inSource _), admits.solid bytes isFile names whole])
    done rest
  rw [agrees.spelled, agrees.spelled, Tree.bytesAt?_congr (inSource _)] at copied
  have settled : Keeps (Agrees before fun _ => False) (copyEntry source output name) :=
    (ignores_agrees (by simp) nofun).keeps_copyEntry source forward
      (Tree.isWithin_iff.mpr List.prefix_rfl)
  have still := settled tree ⟨agrees.home, agrees.distinct, nofun⟩
  rw [done] at still
  exact ⟨⟨still.1.home, copied⟩, trivial⟩

/-- Of entries that are copied one after the other, one that is among them is found in the end. -/
theorem Admits.achieves_copyEntries (admits : Admits source output before name)
    {names : List String} (nodup : names.Nodup) (forward : ∀ other ∈ names, other ≠ "..")
    (member : name ∈ names) (rest : List String) :
    Achieves (Agrees before (Concerns source output before name))
      (Holds before (before.spelled output ++ name :: rest)
        (before.bytesAt? (before.spelled source ++ name :: rest)))
      (names.forM (copyEntry source output)) fun _ => True := by
  induction names with
  | nil => cases member
  | cons first names ih =>
    obtain ⟨absent, nodup⟩ := List.nodup_cons.mp nodup
    rw [List.forall_mem_cons] at forward
    by_cases here : first = name
    · subst here
      exact achieves_bind (admits.achieves_copyEntry forward.1 rest) fun _ _ =>
        achieves_of_yields (keeps_copyEntries_elsewhere forward.2 absent rest _)
    · have later : name ∈ names := (List.mem_cons.mp member).resolve_left (Ne.symm here)
      exact achieves_bind (achieves_of_yields (admits.keeps_copyEntry forward.1 here)) fun _ _ =>
        ih nodup forward.2 later

end

end Output

end StaticSite
