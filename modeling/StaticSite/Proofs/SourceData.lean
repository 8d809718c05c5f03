import StaticSite.Proofs.Growth
import StaticSite.Proofs.Outcome
import StaticSite.Site.File

/-!
# What documents hold

The data of a JSON or YAML document is closed: all that it refers to is read with it. This holds
whatever anchors and aliases a document has, because an alias leads to a node of the same document.
-/

namespace StaticSite

namespace Heap

variable {heap : Heap} {container : Container}

theorem closed_empty : ({} : Heap).Closed := by
  intro id container found
  simp [Heap.container?] at found

/-- Containers that refer to no more than will be there leave a closed heap. -/
theorem closed_append (closed : heap.Closed) (added : Array Container)
    (held : ∀ container ∈ added, ∀ member ∈ container.members,
      (∀ key ∈ member.1, (⟨heap.objects ++ added⟩ : Heap).Has key) ∧
        (⟨heap.objects ++ added⟩ : Heap).Has member.2) :
    (⟨heap.objects ++ added⟩ : Heap).Closed := by
  have grows : heap.Grows ⟨heap.objects ++ added⟩ := ⟨added, rfl⟩
  intro id container found member inContainer
  by_cases there : id < heap.objects.size
  · rw [grows.container? there] at found
    have both := closed id container found member inContainer
    exact ⟨fun key isKey => grows.has (both.1 key isKey), grows.has both.2⟩
  · simp only [Heap.container?, Array.getElem?_append, there, if_false] at found
    exact held container (Array.mem_of_getElem? found) member inContainer

theorem closed_add (closed : heap.Closed)
    (held : ∀ member ∈ container.members, (∀ key ∈ member.1, heap.Has key) ∧ heap.Has member.2) :
    (heap.add container).2.Closed := by
  have grows := heap.grows_add container
  have same : (heap.add container).2 = ⟨heap.objects ++ #[container]⟩ := by simp [add]
  rw [same] at grows ⊢
  refine closed_append closed #[container] fun other isOther member inOther => ?_
  obtain rfl : other = container := by simpa using isOther
  exact ⟨fun key isKey => grows.has ((held member inOther).1 key isKey),
    grows.has (held member inOther).2⟩

end Heap

/-- Values have been brought into a heap with all that they refer to. -/
structure Heap.Brings (heap after : Heap) (values : List Value) : Prop where
  closed : after.Closed
  grows : heap.Grows after
  has : ∀ value ∈ values, after.Has value

theorem Heap.brings_of_refs {heap : Heap} {value : Value} (closed : heap.Closed)
    (none : value.refs = []) : heap.Brings heap [value] :=
  ⟨closed, .refl heap, by simp [Heap.Has, none]⟩

namespace Json

mutual

theorem toValue_closed {heap : Heap} (closed : heap.Closed) :
    (json : Json) → heap.Brings (json.toValue heap).2 [(json.toValue heap).1]
  | .null => Heap.brings_of_refs closed rfl
  | .bool _ => Heap.brings_of_refs closed rfl
  | .int _ => Heap.brings_of_refs closed rfl
  | .float _ => Heap.brings_of_refs closed rfl
  | .str _ => Heap.brings_of_refs closed rfl
  | .arr items => by
    have inside := toValues_closed closed items
    refine ⟨Heap.closed_add inside.closed ?_, inside.grows.trans (Heap.grows_add _ _), ?_⟩
    · intro member inContainer
      obtain ⟨item, inItems, rfl⟩ := List.mem_map.mp inContainer
      exact ⟨by simp, inside.has item inItems⟩
    · simpa [toValue] using Heap.has_add
  | .obj members => by
    have inside := toEntries_closed closed members
    refine ⟨Heap.closed_add inside.1.closed ?_, inside.1.grows.trans (Heap.grows_add _ _), ?_⟩
    · intro member inContainer
      obtain ⟨entry, inEntries, rfl⟩ := List.mem_map.mp inContainer
      refine ⟨fun key isKey => ?_, inside.1.has entry.2 (List.mem_map_of_mem inEntries)⟩
      obtain ⟨name, isName⟩ := inside.2 entry inEntries
      cases isKey
      exact isName ▸ Heap.has_str name
    · simpa [toValue] using Heap.has_add

theorem toValues_closed {heap : Heap} (closed : heap.Closed) :
    (items : List Json) → heap.Brings (toValues heap items).2 (toValues heap items).1
  | [] => ⟨closed, .refl heap, by simp [toValues]⟩
  | item :: items => by
    have first := toValue_closed closed item
    have rest := toValues_closed first.closed items
    refine ⟨rest.closed, first.grows.trans rest.grows, ?_⟩
    exact List.forall_mem_cons.mpr
      ⟨rest.grows.has (first.has _ (List.mem_singleton_self _)), rest.has⟩

theorem toEntries_closed {heap : Heap} (closed : heap.Closed) :
    (members : List (String × Json)) →
      heap.Brings (toEntries heap members).2 ((toEntries heap members).1.map (·.2)) ∧
        ∀ entry ∈ (toEntries heap members).1, ∃ name, entry.1 = .str name
  | [] => ⟨⟨closed, .refl heap, by simp [toEntries]⟩, by simp [toEntries]⟩
  | (name, item) :: members => by
    have first := toValue_closed closed item
    have rest := toEntries_closed first.closed members
    refine ⟨⟨rest.1.closed, first.grows.trans rest.1.grows, ?_⟩, ?_⟩
    · exact List.forall_mem_cons.mpr
        ⟨rest.1.grows.has (first.has _ (List.mem_singleton_self _)), rest.1.has⟩
    · exact List.forall_mem_cons.mpr ⟨⟨name, rfl⟩, rest.2⟩

end

end Json

namespace Yaml

/-- A scalar refers to nothing. -/
theorem refs_ofKind {s : String} {kind : ScalarKind} {value : Value}
    (read : Scalar.ofKind s kind = .ok value) : value.refs = [] := by
  cases kind with
  | bool =>
    simp only [Scalar.ofKind, Scalar.readBool] at read
    split at read
    · cases read; rfl
    · split at read <;> cases read
      rfl
  | float =>
    simp only [Scalar.ofKind, Scalar.readFloat] at read
    split at read
    · cases read
    · obtain ⟨x, -, rfl⟩ := exists_of_map_eq_ok read
      rfl
  | int =>
    simp only [Scalar.ofKind, Scalar.readInt] at read
    split at read
    · cases read
    · cases read; rfl
    · obtain ⟨n, -, rfl⟩ := exists_of_map_eq_ok read; rfl
    · obtain ⟨n, -, rfl⟩ := exists_of_map_eq_ok read; rfl
    · obtain ⟨n, -, rfl⟩ := exists_of_map_eq_ok read; rfl
    · split at read
      · obtain ⟨places, -, rfl⟩ := exists_of_map_eq_ok read; rfl
      · obtain ⟨n, -, rfl⟩ := exists_of_map_eq_ok read; rfl
  | null => cases read; rfl
  | timestamp =>
    simp only [Scalar.ofKind, Scalar.readStamp] at read
    split at read
    · cases read
    · split at read <;> cases read
      rfl
    · split at read <;> cases read
      rfl
  | str => cases read; rfl
  | merge => cases read
  | value => cases read

namespace Document

variable {document : Document} {base id : Nat} {value : Value}

/-- A node that is no scalar is one of the document's. -/
theorem lt_of_content {content : Content} (found : (document.node id).content = content)
    (compound : ∀ text, content ≠ .scalar text) : id < document.nodes.size := by
  by_contra outside
  rw [node, Array.getElem?_eq_none (by omega)] at found
  exact compound "" found.symm

theorem refs_value (read : document.value base id = .ok value) :
    ∀ place ∈ value.refs, place < base + document.nodes.size := by
  unfold Document.value at read
  dsimp only at read
  split at read
  next text content =>
    split at read
    · simp [refs_ofKind read]
    · cases read
  next items content =>
    split at read <;> cases read
    have bound := lt_of_content content (by simp)
    simpa [Value.refs] using bound
  next pairs content =>
    split at read <;> cases read
    have bound := lt_of_content content (by simp)
    simpa [Value.refs] using bound

theorem refs_keyValue (read : document.keyValue base id = .ok value) :
    ∀ place ∈ value.refs, place < base + document.nodes.size := by
  unfold keyValue at read
  split at read
  · cases read
    simp [Value.refs]
  · obtain ⟨key, isKey, done⟩ := exists_of_bind_eq_ok read
    split at done <;> cases done
    exact refs_value isKey

theorem mem_of_mem_put {entries : Entries} {key item : Value} {entry : Value × Value}
    (member : entry ∈ Entries.put entries key item) :
    entry ∈ entries ∨
      ((entry.1 = key ∨ ∃ other ∈ entries, other.1 = entry.1) ∧ entry.2 = item) := by
  induction entries with
  | nil =>
    obtain rfl : entry = (key, item) := by simpa [Entries.put] using member
    exact .inr ⟨.inl rfl, rfl⟩
  | cons first entries ih =>
    obtain ⟨k, v⟩ := first
    unfold Entries.put at member
    split at member
    · rcases List.mem_cons.mp member with rfl | later
      · exact .inr ⟨.inr ⟨(k, v), List.mem_cons_self .., rfl⟩, rfl⟩
      · exact .inl (List.mem_cons_of_mem _ later)
    · rcases List.mem_cons.mp member with rfl | later
      · exact .inl (List.mem_cons_self ..)
      · rcases ih later with old | ⟨new | ⟨other, inEntries, same⟩, isItem⟩
        · exact .inl (List.mem_cons_of_mem _ old)
        · exact .inr ⟨.inl new, isItem⟩
        · exact .inr ⟨.inr ⟨other, List.mem_cons_of_mem _ inEntries, same⟩, isItem⟩

theorem refs_container {container : Container} (read : document.container base id = .ok container) :
    ∀ member ∈ container.members,
      (∀ key ∈ member.1, ∀ place ∈ key.refs, place < base + document.nodes.size) ∧
        ∀ place ∈ member.2.refs, place < base + document.nodes.size := by
  unfold Document.container at read
  split at read
  · cases read
    simp [Container.members]
  · obtain ⟨values, each, done⟩ := exists_of_bind_eq_ok read
    cases done
    intro member inContainer
    obtain ⟨item, inItems, rfl⟩ := List.mem_map.mp inContainer
    obtain ⟨node, -, isItem⟩ := exists_of_mem_mapM each inItems
    exact ⟨by simp, refs_value isItem⟩
  · obtain ⟨pairs, -, rest⟩ := exists_of_bind_eq_ok read
    obtain ⟨entries, folded, done⟩ := exists_of_bind_eq_ok rest
    cases done
    have all := foldlM_keeps (fun entries : Entries => ∀ entry ∈ entries,
      (∀ place ∈ entry.1.refs, place < base + document.nodes.size) ∧
        ∀ place ∈ entry.2.refs, place < base + document.nodes.size)
      (fun entries pair next _ before step => ?_) (by simp) folded
    · intro member inContainer
      obtain ⟨entry, inEntries, rfl⟩ := List.mem_map.mp inContainer
      refine ⟨fun key isKey => ?_, (all entry inEntries).2⟩
      cases isKey
      exact (all entry inEntries).1
    · obtain ⟨key, isKey, onward⟩ := exists_of_bind_eq_ok step
      obtain ⟨item, isItem, put⟩ := exists_of_bind_eq_ok onward
      cases put
      intro entry member
      rcases mem_of_mem_put member with old | ⟨new | ⟨other, inEntries, same⟩, last⟩
      · exact before entry old
      · exact ⟨new ▸ refs_keyValue isKey, last ▸ refs_value isItem⟩
      · exact ⟨same ▸ (before other inEntries).1, last ▸ refs_value isItem⟩

/-- A container of the heap is one that was filled, or a place that is kept empty. -/
theorem mem_containers {filled : List (Nat × Container)} {container : Container}
    (member : container ∈ document.containers filled) :
    container = .list [] ∨ ∃ id, (id, container) ∈ filled := by
  obtain ⟨id, -, rfl⟩ := List.mem_map.mp member
  cases found : filled.lookup id with
  | none => exact .inl rfl
  | some other =>
    obtain ⟨before, after, whole, -⟩ := List.lookup_eq_some_iff.mp found
    exact .inr ⟨id, by simp [whole]⟩

end Document

theorem read_closed {heap after : Heap} {text : String} {value : Value} (closed : heap.Closed)
    (done : read heap text = .ok (value, after)) : heap.Brings after [value] := by
  obtain ⟨found, -, onward⟩ := exists_of_bind_eq_ok done
  cases found with
  | none =>
    cases onward
    exact Heap.brings_of_refs closed rfl
  | some document =>
    obtain ⟨root, isRoot, rest⟩ := exists_of_bind_eq_ok onward
    obtain ⟨filled, each, ended⟩ := exists_of_bind_eq_ok rest
    cases ended
    have has (other : Value)
        (bound : ∀ place ∈ other.refs, place < heap.objects.size + document.nodes.size) :
        (⟨heap.objects ++ (document.containers filled).toArray⟩ : Heap).Has other := by
      simpa [Heap.Has, Document.containers] using bound
    refine ⟨Heap.closed_append closed _ fun container added member inContainer => ?_,
      ⟨_, rfl⟩, by simpa using has value (Document.refs_value isRoot)⟩
    rcases Document.mem_containers (List.mem_toArray.mp added) with rfl | ⟨id, isFilled⟩
    · cases inContainer
    · obtain ⟨_, -, made⟩ := exists_of_mem_mapM each isFilled
      obtain ⟨_, isContainer, same⟩ := exists_of_bind_eq_ok made
      cases same
      have bound := Document.refs_container isContainer member inContainer
      exact ⟨fun key isKey => has key (bound.1 key isKey), has member.2 bound.2⟩

end Yaml

/-- The data of a file of the given name. -/
def Site.source (name text : String) : Except Fault (Value × Heap) :=
  if Format.ofSuffix (suffixOf name) = .yaml then Yaml.read {} text else readJson {} text

theorem Site.read_eq (name text : String) :
    Site.read {} name text =
      match Site.source name text with
      | .error fault => .error fault
      | .ok (value, heap) =>
        if heap.isTruthy value then Site.ofValue heap value else .ok ({}, heap) := by
  have finish (found : Except Fault (Value × Heap)) :
      (found >>= fun data =>
        if data.2.isTruthy data.1 then Site.ofValue data.2 data.1 else pure ({}, data.2)) =
      match found with
      | .error fault => .error fault
      | .ok (value, heap) =>
        if heap.isTruthy value then Site.ofValue heap value else .ok ({}, heap) := by
    cases found <;> rfl
  unfold Site.read Site.source
  split
  · exact finish (Yaml.read {} text)
  · exact finish (readJson {} text)

theorem Site.source_closed {name text : String} {value : Value} {heap : Heap}
    (done : Site.source name text = .ok (value, heap)) : heap.Closed ∧ heap.Has value := by
  have brings : ({} : Heap).Brings heap [value] := by
    unfold Site.source at done
    split at done
    · exact Yaml.read_closed Heap.closed_empty done
    · unfold readJson at done
      split at done
      next json _ =>
        have brought := Json.toValue_closed Heap.closed_empty json
        rw [Except.ok.inj done] at brought
        exact brought
      · cases done
  exact ⟨brings.closed, brings.has value (List.mem_singleton_self _)⟩

end StaticSite
