import StaticSite.Proofs.RendererShape
import StaticSite.Rendering

/-!
# Passes that succeed

What a step of a rendering pass has done when it has not failed, and two passes over the same
components step by step: if the renderers of both leave related markup, so do the passes, and both
have visited the same ids.
-/

namespace StaticSite.Rendering

section

variable {enter : String → Step String} {state last : State}

theorem renderEach_cons_ok {id : String} {ids parts : List String}
    (done : renderEach enter (id :: ids) state = (.ok parts, last)) :
    ∃ markup others next, enter id state = (.ok markup, next) ∧
      renderEach enter ids next = (.ok others, last) ∧ parts = markup :: others := by
  rw [renderEach] at done
  split at done
  · cases done
  next markup next entered =>
    split at done
    · cases done
    next others after later =>
      cases done
      exact ⟨markup, others, next, entered, later, rfl⟩

theorem renderIdsBy_ok {ids : List String} {markup : String}
    (done : renderIdsBy enter ids state = (.ok markup, last)) :
    ∃ parts, renderEach enter ids state = (.ok parts, last) ∧
      markup = "\n".intercalate (parts.filter (· ≠ "")) := by
  rw [renderIdsBy] at done
  split at done
  · cases done
  next parts next each =>
    cases done
    exact ⟨parts, each, rfl⟩

theorem renderZones_cons_ok {zone : String} {ids : List String} {zones : Ordered (List String)}
    {children : Children}
    (done : renderZones enter ((zone, ids) :: zones) state = (.ok children, last)) :
    ∃ markup others next, renderIdsBy enter ids state = (.ok markup, next) ∧
      renderZones enter zones next = (.ok others, last) ∧ children = (zone, markup) :: others := by
  rw [renderZones] at done
  split at done
  · cases done
  next markup next here =>
    split at done
    · cases done
    next others after later =>
      cases done
      exact ⟨markup, others, next, here, later, rfl⟩

theorem renderFound_ok {scene : Scene} {component : Component} {markup : String}
    (done : renderFound scene enter component state = (.ok markup, last)) :
    ∃ children next, renderZones enter component.zones state = (.ok children, next) ∧
      componentMarkup scene.heap scene.registry scene.options component children = .ok markup ∧
      last = { next with rendered := next.rendered + 1 } := by
  rw [renderFound] at done
  split at done
  · split at done
    · cases done
    next children next zones =>
      split at done
      · cases done
      next markup written =>
        cases done
        exact ⟨children, next, zones, written, rfl⟩
  · cases done

/-- An id that is rendered has not been visited before. -/
theorem renderWith_ok {scene : Scene} {fuel : Nat} {id markup : String}
    (done : renderWith scene (fuel + 1) id state = (.ok markup, last)) :
    id ∉ state.visited ∧
      ((Ordered.get? scene.components id = none ∧ markup = "" ∧
          last = { state with visited := id :: state.visited, missing := state.missing ++ [id] }) ∨
        ∃ component, Ordered.get? scene.components id = some component ∧
          renderFound scene (renderWith scene fuel) component
            { state with visited := id :: state.visited } = (.ok markup, last)) := by
  rw [renderWith] at done
  split at done
  · cases done
  next unvisited =>
    refine ⟨unvisited, ?_⟩
    split at done
    next missing =>
      cases done
      exact .inl ⟨missing, rfl, rfl⟩
    next component found => exact .inr ⟨component, found, done⟩

end

/-! ## Two passes -/

/-- Whether two steps that succeed leave the same state, and related results. -/
def Step.Agree {α : Type} (R : α → α → Prop) (step other : Step α) : Prop :=
  ∀ ⦃state result last result' last'⦄, step state = (.ok result, last) →
    other state = (.ok result', last') → last = last' ∧ R result result'

/-- A relation between texts that is kept when the texts are joined. -/
structure IsJoined (R : String → String → Prop) : Prop where
  nothing : R "" ""
  joined : ∀ {parts others : List String}, List.Forall₂ R parts others →
    R ("\n".intercalate (parts.filter (· ≠ ""))) ("\n".intercalate (others.filter (· ≠ "")))

section

variable {R : String → String → Prop} {enter enter' : String → Step String}

theorem renderEach_agrees (each : ∀ id, Step.Agree R (enter id) (enter' id)) (ids : List String) :
    Step.Agree (List.Forall₂ R) (renderEach enter ids) (renderEach enter' ids) := by
  induction ids with
  | nil =>
    rintro state parts last parts' last' ⟨⟩ ⟨⟩
    exact ⟨rfl, .nil⟩
  | cons id ids ih =>
    intro state parts last parts' last' done done'
    obtain ⟨markup, others, next, entered, later, rfl⟩ := renderEach_cons_ok done
    obtain ⟨markup', others', next', entered', later', rfl⟩ := renderEach_cons_ok done'
    obtain ⟨rfl, here⟩ := each id entered entered'
    obtain ⟨rfl, rest⟩ := ih later later'
    exact ⟨rfl, .cons here rest⟩

theorem renderIdsBy_agrees (joins : IsJoined R) (each : ∀ id, Step.Agree R (enter id) (enter' id))
    (ids : List String) : Step.Agree R (renderIdsBy enter ids) (renderIdsBy enter' ids) := by
  intro state markup last markup' last' done done'
  obtain ⟨parts, here, rfl⟩ := renderIdsBy_ok done
  obtain ⟨parts', here', rfl⟩ := renderIdsBy_ok done'
  obtain ⟨rfl, related⟩ := renderEach_agrees each ids here here'
  exact ⟨rfl, joins.joined related⟩

theorem renderZones_agrees (joins : IsJoined R) (each : ∀ id, Step.Agree R (enter id) (enter' id))
    (zones : Ordered (List String)) :
    Step.Agree
      (fun children others => List.Forall₂ R (Ordered.values children) (Ordered.values others))
      (renderZones enter zones) (renderZones enter' zones) := by
  induction zones with
  | nil =>
    rintro state children last children' last' ⟨⟩ ⟨⟩
    exact ⟨rfl, .nil⟩
  | cons zone zones ih =>
    intro state children last children' last' done done'
    obtain ⟨markup, others, next, here, later, rfl⟩ := renderZones_cons_ok done
    obtain ⟨markup', others', next', here', later', rfl⟩ := renderZones_cons_ok done'
    obtain ⟨rfl, related⟩ := renderIdsBy_agrees joins each zone.2 here here'
    obtain ⟨rfl, rest⟩ := ih later later'
    exact ⟨rfl, .cons related rest⟩

/-- Passes over the same components agree if their renderers do on related zones. -/
theorem renderWith_agrees (joins : IsJoined R) {scene : Scene} (registry : Registry)
    (options : Options)
    (markups : ∀ entry ∈ scene.components, ∀ {children others : Children} {markup markup' : String},
      List.Forall₂ R (Ordered.values children) (Ordered.values others) →
      componentMarkup scene.heap scene.registry scene.options entry.2 children = .ok markup →
      componentMarkup scene.heap registry options entry.2 others = .ok markup' → R markup markup')
    (fuel : Nat) (id : String) :
    Step.Agree R (renderWith scene fuel id)
      (renderWith { scene with registry, options } fuel id) := by
  induction fuel generalizing id with
  | zero => rintro state markup last markup' last' ⟨⟩
  | succ fuel ih =>
    intro state markup last markup' last' done done'
    obtain ⟨-, ⟨missing, rfl, rfl⟩ | ⟨component, found, done⟩⟩ := renderWith_ok done <;>
      obtain ⟨-, ⟨missing', rfl, rfl⟩ | ⟨component', found', done'⟩⟩ := renderWith_ok done'
    · exact ⟨rfl, joins.nothing⟩
    · exact absurd (missing.symm.trans found') nofun
    · exact absurd (missing'.symm.trans found) nofun
    · obtain rfl : component = component' := Option.some.inj (found.symm.trans found')
      obtain ⟨children, next, zones, written, rfl⟩ := renderFound_ok done
      obtain ⟨children', next', zones', written', rfl⟩ := renderFound_ok done'
      obtain ⟨rfl, related⟩ := renderZones_agrees joins ih component.zones zones zones'
      exact ⟨rfl, markups _ (Ordered.mem_of_get?_eq_some found) related written written'⟩

end

end StaticSite.Rendering
