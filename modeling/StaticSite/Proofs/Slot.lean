import Mathlib.Algebra.Order.BigOperators.Group.List
import StaticSite.Markup.Template
import StaticSite.Proofs.Replacement

/-!
# Filling slots

Slots are filled one name after the other, so a text that has been put in is searched again for all
later names. The reference beside it fills every slot in a single pass and never looks at what it
has put in. On a template whose literal texts keep the slots apart, filling in turn does to the
template what the single pass does with the texts that later names have already changed.
-/

namespace StaticSite.Markup

/-- One pass from left to right: the texts for the slots are put in and not looked at again. -/
def fillOnceFrom (context : Ordered String) : Nat → List Char → List Char
  | _, [] => []
  | skip + 1, _ :: s => fillOnceFrom context skip s
  | 0, c :: s =>
    match context.find? fun entry => Text.startsWith (slot entry.1) (c :: s) with
    | some (name, text) =>
      text.toList ++ fillOnceFrom context ((slot name).length - 1) s
    | none => c :: fillOnceFrom context 0 s

/-- The template with all its slots filled at once. -/
def fillOnce (template : String) (context : Ordered String) : String :=
  String.ofList (fillOnceFrom context 0 template.toList)

/-- The texts after every name behind them has been filled in within them. -/
def rescanned : Ordered String → Ordered String
  | [] => []
  | (name, text) :: later =>
    (name, String.ofList (later.foldl fillSlot text.toList)) :: rescanned later

/-- A name that holds neither a brace nor a line end. -/
def isPlain (name : String) : Bool :=
  name.toList.all fun c => c != '\x7b' && c != '\x7d' && c != '\n'

/-- What a slot holds in the end; the slot of a name that is not set stays. -/
def content (context : Ordered String) (name : String) : List Char :=
  match Ordered.get? context name with
  | some text => text.toList
  | none => slot name

section

variable {name other : String}

theorem slot_ne_nil (name : String) : slot name ≠ [] := List.cons_ne_nil _ _

theorem closing_not_mem (plain : isPlain name) : '\x7d' ∉ name.toList := by
  intro member
  simpa using List.all_eq_true.mp plain '\x7d' member

theorem opening_not_mem (plain : isPlain name) : '\x7b' ∉ name.toList := by
  intro member
  simpa using List.all_eq_true.mp plain '\x7b' member

theorem line_not_mem_slot (plain : isPlain name) : '\n' ∉ slot name := by
  intro member
  have inside : '\n' ∈ name.toList := by simpa [slot] using member
  simpa using List.all_eq_true.mp plain '\n' inside

/-- Where a slot starts, no slot of another name does. -/
theorem slot_inj_of_start (plain : isPlain name) (plainOther : isPlain other) {rest : List Char}
    (start : slot name <+: slot other ++ rest) : name = other := by
  obtain ⟨tail, equal⟩ := start
  simp only [slot, List.cons_append, List.cons.injEq, true_and, List.append_assoc] at equal
  have counts : name.toList.count '\x7d' = other.toList.count '\x7d' := by
    rw [List.count_eq_zero_of_not_mem (closing_not_mem plain),
      List.count_eq_zero_of_not_mem (closing_not_mem plainOther)]
  exact String.toList_inj.mp (Text.append_cons_inj_of_count counts equal).1

theorem fillSlot_slot_self (name text : String) :
    fillSlot (slot name) (name, text) = text.toList := by
  have filled : Text.replace (slot name) text.toList (slot name ++ []) =
      text.toList ++ Text.replace (slot name) text.toList [] :=
    Text.replace_mark_append (slot_ne_nil name) []
  simpa [fillSlot] using filled

theorem fillSlot_slot_of_ne (plain : isPlain name) (plainOther : isPlain other)
    (different : other ≠ name) (text : String) :
    fillSlot (slot name) (other, text) = slot name := by
  have atSlot : ¬ slot other <+: slot name := fun start =>
    different (slot_inj_of_start plainOther plain (by rwa [List.append_nil]))
  have inside : '\x7b' ∉ name.toList ++ ['\x7d', '\x7d'] := by
    simp [opening_not_mem plain]
  have behind : ¬ slot other <+: '\x7b' :: (name.toList ++ ['\x7d', '\x7d']) := by
    intro start
    rw [slot, List.cons_prefix_cons] at start
    exact inside (start.2.subset (List.mem_cons_self ..))
  have needed : '\x7b' ∈ slot other := List.mem_cons_self
  change Text.replace (slot other) text.toList
    ('\x7b' :: '\x7b' :: (name.toList ++ ['\x7d', '\x7d'])) = _
  rw [Text.replace_cons atSlot, Text.replace_cons behind, Text.replace_eq_self needed inside]
  rfl

/-! ## Filling in turn -/

/-- Filling in turn leaves in a slot its own text, with every later name filled in within it. -/
theorem foldl_fillSlot_slot (plain : isPlain name) (order : Ordered String)
    (plainOrder : ∀ entry ∈ order, isPlain entry.1) :
    order.foldl fillSlot (slot name) = content (rescanned order) name := by
  induction order with
  | nil => rfl
  | cons entry later ih =>
    obtain ⟨other, text⟩ := entry
    simp only [List.forall_mem_cons] at plainOrder
    by_cases same : other = name
    · subst same
      simp [fillSlot_slot_self, content, rescanned, Ordered.get?]
    · rw [List.foldl_cons, fillSlot_slot_of_ne plain plainOrder.1 same, ih plainOrder.2]
      simp [content, rescanned, Ordered.get?, same]

/-- Filling in turn takes away no line end. -/
theorem count_line_le_foldl (order : Ordered String)
    (plainOrder : ∀ entry ∈ order, isPlain entry.1) (s : List Char) :
    s.count '\n' ≤ (order.foldl fillSlot s).count '\n' := by
  induction order generalizing s with
  | nil => simp
  | cons entry later ih =>
    simp only [List.forall_mem_cons] at plainOrder
    calc
      s.count '\n' ≤ (fillSlot s entry).count '\n' :=
        Text.count_le_count_replace (slot_ne_nil _) (line_not_mem_slot plainOrder.1) s
      _ ≤ (later.foldl fillSlot (fillSlot s entry)).count '\n' := ih plainOrder.2 _

/-- Filling in turn happens in front of a final line end. -/
theorem foldl_fillSlot_line (order : Ordered String)
    (plainOrder : ∀ entry ∈ order, isPlain entry.1) (s : List Char) :
    order.foldl fillSlot (s ++ ['\n']) = order.foldl fillSlot s ++ ['\n'] := by
  induction order generalizing s with
  | nil => rfl
  | cons entry later ih =>
    simp only [List.forall_mem_cons] at plainOrder
    have step : fillSlot (s ++ ['\n']) entry = fillSlot s entry ++ ['\n'] :=
      Text.replace_append_cons (slot_ne_nil _) (line_not_mem_slot plainOrder.1) s []
    rw [List.foldl_cons, step, ih plainOrder.2, List.foldl_cons]

theorem foldl_fillSlot_nil (order : Ordered String) : order.foldl fillSlot [] = [] := by
  induction order with
  | nil => rfl
  | cons entry later ih => exact ih

/-- A slot is either left as it is, or holds a text that has been searched for the later names. -/
theorem content_rescanned (order : Ordered String) (name : String) :
    ∃ later : Ordered String, (∀ entry ∈ later, entry ∈ order) ∧
      (Ordered.contains order name →
        content (rescanned order) name = later.foldl fillSlot (content order name)) := by
  induction order with
  | nil => exact ⟨[], by simp, by simp [Ordered.contains, Ordered.get?]⟩
  | cons entry rest ih =>
    obtain ⟨other, text⟩ := entry
    by_cases same : other = name
    · refine ⟨rest, fun entry member => List.mem_cons_of_mem _ member, fun _ => ?_⟩
      simp [content, rescanned, Ordered.get?, same]
    · obtain ⟨later, within, equal⟩ := ih
      refine ⟨later, fun entry member => List.mem_cons_of_mem _ (within entry member), ?_⟩
      simpa [content, rescanned, Ordered.get?, Ordered.contains, same] using equal

/-- Texts that hold the same in every slot are the same texts. -/
theorem rescanned_eq_self (order : Ordered String) (distinct : (Ordered.names order).Nodup)
    (same : ∀ name ∈ Ordered.names order, content (rescanned order) name = content order name) :
    rescanned order = order := by
  induction order with
  | nil => rfl
  | cons entry later ih =>
    obtain ⟨name, text⟩ := entry
    simp only [Ordered.names, List.map_cons, List.nodup_cons, List.forall_mem_cons] at distinct same
    have head : later.foldl fillSlot text.toList = text.toList := by
      simpa [content, rescanned, Ordered.get?] using same.1
    have tail : rescanned later = later := by
      refine ih distinct.2 fun other member => ?_
      have different : name ≠ other := fun equal => distinct.1 (equal ▸ member)
      simpa [content, rescanned, Ordered.get?, different] using same.2 other member
    rw [rescanned, head, tail, String.ofList_toList]

/-! ## Filling at once -/

theorem find?_slot (plain : isPlain name) (context : Ordered String)
    (plainContext : ∀ entry ∈ context, isPlain entry.1) (rest : List Char) :
    (context.find? fun entry => Text.startsWith (slot entry.1) (slot name ++ rest)) =
      (Ordered.get? context name).map (name, ·) := by
  induction context with
  | nil => rfl
  | cons entry others ih =>
    obtain ⟨other, text⟩ := entry
    simp only [List.forall_mem_cons] at plainContext
    by_cases same : other = name
    · subst same
      have start : Text.startsWith (slot other) (slot other ++ rest) = true :=
        Text.startsWith_iff.mpr (List.prefix_append _ _)
      simp [start, Ordered.get?]
    · have start : Text.startsWith (slot other) (slot name ++ rest) = false := by
        rw [Bool.eq_false_iff, Ne, Text.startsWith_iff]
        exact fun start => same (slot_inj_of_start plainContext.1 plain start)
      simp [start, Ordered.get?, same, ih plainContext.2]

theorem fillOnceFrom_eq_drop (context : Ordered String) (skip : Nat) (s : List Char) :
    fillOnceFrom context skip s = fillOnceFrom context 0 (s.drop skip) := by
  induction skip generalizing s with
  | zero => rfl
  | succ skip ih =>
    cases s with
    | nil => simp [fillOnceFrom]
    | cons c s => simp [fillOnceFrom, ih]

theorem fillOnceFrom_slot (plain : isPlain name) (context : Ordered String)
    (plainContext : ∀ entry ∈ context, isPlain entry.1) (set : Ordered.contains context name)
    (rest : List Char) :
    fillOnceFrom context 0 (slot name ++ rest) =
      content context name ++ fillOnceFrom context 0 rest := by
  obtain ⟨text, found⟩ := Option.isSome_iff_exists.mp set
  have first := find?_slot plain context plainContext rest
  rw [found] at first
  have skipped := fillOnceFrom_eq_drop context ((slot name).length - 1)
    ('\x7b' :: (name.toList ++ ['\x7d', '\x7d']) ++ rest)
  have behind : ('\x7b' :: (name.toList ++ ['\x7d', '\x7d']) ++ rest).drop
      ((slot name).length - 1) = rest := List.drop_left' (by simp [slot])
  rw [behind] at skipped
  change fillOnceFrom context 0
    ('\x7b' :: ('\x7b' :: (name.toList ++ ['\x7d', '\x7d']) ++ rest)) = _
  rw [fillOnceFrom, show '\x7b' :: ('\x7b' :: (name.toList ++ ['\x7d', '\x7d']) ++ rest) =
    slot name ++ rest from rfl, first]
  simp only [Option.map_some, skipped, content, found]

/-- No slot starts in a text without an opening brace. -/
theorem fillOnceFrom_append (context : Ordered String) {wall : List Char}
    (noBrace : '\x7b' ∉ wall) (rest : List Char) :
    fillOnceFrom context 0 (wall ++ rest) = wall ++ fillOnceFrom context 0 rest := by
  induction wall with
  | nil => rfl
  | cons c wall ih =>
    simp only [List.mem_cons, not_or] at noBrace
    have none : (context.find? fun entry =>
        Text.startsWith (slot entry.1) (c :: (wall ++ rest))) = none := by
      refine List.find?_eq_none.mpr fun entry _ start => ?_
      rw [Text.startsWith_iff, slot, List.cons_prefix_cons] at start
      exact noBrace.1 start.1
    rw [List.cons_append, fillOnceFrom, none]
    simp only [ih noBrace.2, List.cons_append]

end

/-! ## Layouts -/

/-- A text with holes: what stands before the first, and each with the text up to the next. -/
structure Layout where
  opening : List Char
  holes : List (String × List Char)

namespace Layout

/-- The holes with their texts, and the literal text behind each. -/
def written (holes : List (String × List Char)) (texts : String → List Char) : List Char :=
  holes.flatMap fun hole => texts hole.1 ++ hole.2

/-- The layout with a text in every hole. -/
def write (layout : Layout) (texts : String → List Char) : List Char :=
  layout.opening ++ written layout.holes texts

/-- Whether a literal text keeps apart what stands on its sides, for slots of the names. -/
def isWall (names : List String) (wall : List Char) : Bool :=
  wall != [] && !wall.contains '\x7b' &&
    names.all fun name =>
      wall.head?.all (fun c => !(slot name).contains c) &&
        wall.getLast?.all (fun c => !(slot name).contains c)

/-- Whether all literal texts are walls for slots of the names. -/
def isWalled (layout : Layout) (names : List String) : Bool :=
  isWall names layout.opening && layout.holes.all fun hole => isWall names hole.2

/-- Whether the names are plain, fill every hole, and have slots that the literal texts part. -/
def suits (layout : Layout) (names : List String) : Bool :=
  layout.isWalled names && names.all isPlain &&
    layout.holes.all fun hole => names.contains hole.1

section

variable {names : List String} {name : String} {wall : List Char}

theorem isWall_iff :
    isWall names wall = true ↔ wall ≠ [] ∧ '\x7b' ∉ wall ∧ ∀ name ∈ names,
      (∀ c ∈ wall.head?, c ∉ slot name) ∧ ∀ c ∈ wall.getLast?, c ∉ slot name := by
  simp [isWall, Option.all_eq_true, and_assoc]

/-- A wall stays, and what stands on its sides is filled on its own. -/
theorem fillSlot_wall (walled : isWall names wall) (member : name ∈ names) (text : String)
    (before after : List Char) :
    fillSlot (before ++ (wall ++ after)) (name, text) =
      fillSlot before (name, text) ++ (wall ++ fillSlot after (name, text)) := by
  obtain ⟨nonempty, noBrace, ends⟩ := isWall_iff.mp walled
  obtain ⟨first, last⟩ := ends name member
  have apart {c : Char} (absent : c ∉ slot name) (s t : List Char) :
      Text.replace (slot name) text.toList (s ++ c :: t) =
        Text.replace (slot name) text.toList s ++ c :: Text.replace (slot name) text.toList t :=
    Text.replace_append_cons (slot_ne_nil name) absent s t
  have brace : '\x7b' ∈ slot name := List.mem_cons_self
  obtain ⟨c, inner, rfl⟩ := List.exists_cons_of_ne_nil nonempty
  simp only [fillSlot, List.cons_append]
  rw [apart (first c (by simp))]
  congr 2
  rcases List.eq_nil_or_concat inner with rfl | ⟨middle, d, rfl⟩
  · rfl
  · have unreached : '\x7b' ∉ middle := fun inside => noBrace (by simp [inside])
    have closing : d ∉ slot name := last d (by simp [List.getLast?_cons])
    rw [List.concat_eq_append, List.append_assoc, List.cons_append, List.nil_append,
      apart closing, Text.replace_eq_self brace unreached, List.append_assoc]
    rfl

/-- Filling a slot fills what stands in the holes, each hole on its own. -/
theorem fillSlot_write {layout : Layout} (walled : layout.isWalled names) (member : name ∈ names)
    (text : String) (texts : String → List Char) :
    fillSlot (layout.write texts) (name, text) =
      layout.write fun hole => fillSlot (texts hole) (name, text) := by
  obtain ⟨opening, holes⟩ := layout
  simp only [isWalled, Bool.and_eq_true, List.all_eq_true] at walled
  have start := fillSlot_wall walled.1 member text []
  simp only [write, written]
  rw [← List.nil_append opening, List.append_assoc, start, List.append_assoc]
  congr 2
  have rest := walled.2
  clear start walled
  induction holes with
  | nil => rfl
  | cons hole holes ih =>
    simp only [List.forall_mem_cons] at rest
    rw [List.flatMap_cons, List.append_assoc, fillSlot_wall rest.1 member, ih rest.2,
      List.flatMap_cons, List.append_assoc]

theorem foldl_fillSlot_write {layout : Layout} (walled : layout.isWalled names)
    (order : Ordered String) (within : ∀ entry ∈ order, entry.1 ∈ names)
    (texts : String → List Char) :
    order.foldl fillSlot (layout.write texts) =
      layout.write fun hole => order.foldl fillSlot (texts hole) := by
  induction order generalizing texts with
  | nil => rfl
  | cons entry later ih =>
    simp only [List.forall_mem_cons] at within
    rw [List.foldl_cons, fillSlot_write walled within.1, ih within.2]
    rfl

/-- A single pass fills every hole and keeps every literal text. -/
theorem fillOnceFrom_write {layout : Layout} (walled : layout.isWalled names)
    (context : Ordered String) (plain : ∀ entry ∈ context, isPlain entry.1)
    (set : ∀ hole ∈ layout.holes, isPlain hole.1 ∧ Ordered.contains context hole.1) :
    fillOnceFrom context 0 (layout.write slot) = layout.write (content context) := by
  obtain ⟨opening, holes⟩ := layout
  simp only [isWalled, Bool.and_eq_true, List.all_eq_true] at walled
  simp only [write, written]
  rw [fillOnceFrom_append context (isWall_iff.mp walled.1).2.1]
  congr 1
  have rest := walled.2
  clear walled
  induction holes with
  | nil => rfl
  | cons hole holes ih =>
    simp only [List.forall_mem_cons] at rest set
    rw [List.flatMap_cons, List.append_assoc,
      fillOnceFrom_slot set.1.1 context plain set.1.2,
      fillOnceFrom_append context (isWall_iff.mp rest.1).2.1, ih set.2 rest.2,
      List.flatMap_cons, List.append_assoc]

/-- Why two texts in a hole can be told from the whole: each ends a line, or they are equal. -/
def IsLined (first second : String → List Char) (hole : String × List Char) : Prop :=
  '\n' ∈ hole.2 ∨ first hole.1 = second hole.1 ∨
    ∃ s t, first hole.1 = s ++ ['\n'] ∧ second hole.1 = t ++ ['\n']

theorem count_written_le {holes : List (String × List Char)} {first second : String → List Char}
    (grown : ∀ hole ∈ holes, (second hole.1).count '\n' ≤ (first hole.1).count '\n') :
    (written holes second).count '\n' ≤ (written holes first).count '\n' := by
  induction holes with
  | nil => simp [written]
  | cons hole holes ih =>
    simp only [List.forall_mem_cons] at grown
    have rest := ih grown.2
    simp only [written, List.flatMap_cons, List.count_append] at rest ⊢
    omega

/-- If no hole has lost a line end and the whole has as many, so has each hole. -/
theorem count_eq_of_written {holes : List (String × List Char)}
    {first second : String → List Char}
    (grown : ∀ hole ∈ holes, (second hole.1).count '\n' ≤ (first hole.1).count '\n')
    (equal : (written holes first).count '\n' = (written holes second).count '\n') :
    ∀ hole ∈ holes, (first hole.1).count '\n' = (second hole.1).count '\n' := by
  induction holes with
  | nil => simp
  | cons hole holes ih =>
    simp only [List.forall_mem_cons] at grown ⊢
    have rest := count_written_le grown.2
    simp only [written, List.flatMap_cons, List.count_append] at equal rest
    exact ⟨by omega, ih grown.2 (by simp only [written]; omega)⟩

/-- Texts in which no hole has lost a line end stand in one layout only if they are the same. -/
theorem eq_of_write_eq {layout : Layout} {first second : String → List Char}
    (grown : ∀ hole ∈ layout.holes, (second hole.1).count '\n' ≤ (first hole.1).count '\n')
    (lined : ∀ hole ∈ layout.holes, IsLined first second hole)
    (equal : layout.write first = layout.write second) :
    ∀ hole ∈ layout.holes, first hole.1 = second hole.1 := by
  obtain ⟨opening, holes⟩ := layout
  replace equal : written holes first = written holes second := List.append_cancel_left equal
  have counts := count_eq_of_written grown (congrArg (List.count '\n') equal)
  clear grown
  induction holes with
  | nil => simp
  | cons hole holes ih =>
    simp only [List.forall_mem_cons] at lined counts ⊢
    simp only [written, List.flatMap_cons, List.append_assoc] at equal
    obtain ⟨head, tails⟩ : first hole.1 = second hole.1 ∧
        written holes first = written holes second := by
      rcases lined.1 with inWall | same | ⟨s, t, firstLine, secondLine⟩
      · obtain ⟨before, after, split⟩ := List.append_of_mem inWall
        rw [split] at equal
        simp only [List.append_assoc, List.cons_append] at equal
        rw [← List.append_assoc (first hole.1), ← List.append_assoc (second hole.1)] at equal
        obtain ⟨heads, rest⟩ := Text.append_cons_inj_of_count
          (by rw [List.count_append, List.count_append, counts.1]) equal
        exact ⟨List.append_cancel_right heads, List.append_cancel_left rest⟩
      · rw [same] at equal
        exact ⟨same, List.append_cancel_left (List.append_cancel_left equal)⟩
      · have lengths := counts.1
        rw [firstLine, secondLine] at equal lengths
        simp only [List.append_assoc, List.cons_append, List.nil_append] at equal
        simp only [List.count_append, Nat.add_right_cancel_iff] at lengths
        obtain ⟨rfl, rest⟩ := Text.append_cons_inj_of_count lengths equal
        exact ⟨firstLine.trans secondLine.symm, List.append_cancel_left rest⟩
    exact ⟨head, ih lined.2 tails counts.2⟩

end

end Layout

theorem names_rescanned (order : Ordered String) :
    Ordered.names (rescanned order) = Ordered.names order := by
  induction order with
  | nil => rfl
  | cons entry later ih => exact congrArg (entry.1 :: ·) ih

theorem contains_iff (context : Ordered String) (name : String) :
    Ordered.contains context name = true ↔ name ∈ Ordered.names context := by
  induction context with
  | nil => simp [Ordered.contains, Ordered.get?, Ordered.names]
  | cons entry others ih =>
    obtain ⟨other, text⟩ := entry
    by_cases same : other = name
    · simp [Ordered.contains, Ordered.get?, Ordered.names, same]
    · simpa [Ordered.contains, Ordered.get?, Ordered.names, same, Ne.symm same] using ih

section

variable {template : String} {layout : Layout} {order : Ordered String}

theorem Layout.suits_iff {names : List String} :
    layout.suits names = true ↔ layout.isWalled names = true ∧
      (∀ name ∈ names, isPlain name = true) ∧ ∀ hole ∈ layout.holes, hole.1 ∈ names := by
  simp only [Layout.suits, Bool.and_eq_true, List.all_eq_true, List.contains_iff_mem, and_assoc]

theorem fillOnce_layout (spelled : template.toList = layout.write slot)
    (suits : layout.suits (Ordered.names order)) :
    fillOnce template order = String.ofList (layout.write (content order)) := by
  obtain ⟨walled, plain, filled⟩ := Layout.suits_iff.mp suits
  have plainOrder : ∀ entry ∈ order, isPlain entry.1 = true := fun entry member =>
    plain entry.1 (List.mem_map_of_mem member)
  rw [fillOnce, spelled, Layout.fillOnceFrom_write walled order plainOrder]
  intro hole member
  exact ⟨plain hole.1 (filled hole member), (contains_iff order hole.1).mpr (filled hole member)⟩

/-- Filling in turn puts in at once the texts that the later names have already changed. -/
theorem fill_eq_fillOnce_rescanned {context : Ordered String}
    (spelled : template.toList = layout.write slot)
    (suits : layout.suits (Ordered.names (fillOrder context))) :
    fill template context = fillOnce template (rescanned (fillOrder context)) := by
  have later := suits
  rw [← names_rescanned] at later
  rw [fillOnce_layout spelled later]
  obtain ⟨walled, plain, filled⟩ := Layout.suits_iff.mp suits
  have within : ∀ entry ∈ fillOrder context, entry.1 ∈ Ordered.names (fillOrder context) :=
    fun entry member => List.mem_map_of_mem member
  rw [fill, spelled, Layout.foldl_fillSlot_write walled _ within]
  congr 1
  simp only [Layout.write, Layout.written]
  congr 1
  refine List.flatMap_congr fun hole member => ?_
  rw [foldl_fillSlot_slot (plain hole.1 (filled hole member)) _
    fun entry member => plain entry.1 (within entry member)]

/-- The texts that later names leave alone are exactly those that come out as they were put in. -/
theorem fillOnce_rescanned_eq_iff (spelled : template.toList = layout.write slot)
    (suits : layout.suits (Ordered.names order)) (distinct : (Ordered.names order).Nodup)
    (used : ∀ name ∈ Ordered.names order, ∃ hole ∈ layout.holes, hole.1 = name)
    (lined : ∀ hole ∈ layout.holes, '\n' ∈ hole.2 ∨ content order hole.1 = [] ∨
      ∃ s, content order hole.1 = s ++ ['\n']) :
    fillOnce template (rescanned order) = fillOnce template order ↔ rescanned order = order := by
  constructor
  · intro equal
    have later := suits
    rw [← names_rescanned] at later
    rw [fillOnce_layout spelled later, fillOnce_layout spelled suits, String.ofList_inj] at equal
    obtain ⟨-, plain, filled⟩ := Layout.suits_iff.mp suits
    have plainOrder : ∀ entry ∈ order, isPlain entry.1 = true := fun entry member =>
      plain entry.1 (List.mem_map_of_mem member)
    have searched : ∀ hole ∈ layout.holes, ∃ later : Ordered String,
        (∀ entry ∈ later, isPlain entry.1 = true) ∧
          content (rescanned order) hole.1 = later.foldl fillSlot (content order hole.1) := by
      intro hole member
      obtain ⟨later, within, equal⟩ := content_rescanned order hole.1
      exact ⟨later, fun entry inside => plainOrder entry (within entry inside),
        equal ((contains_iff order hole.1).mpr (filled hole member))⟩
    have same : ∀ hole ∈ layout.holes, content (rescanned order) hole.1 = content order hole.1 := by
      refine Layout.eq_of_write_eq ?_ ?_ equal
      · intro hole member
        obtain ⟨later, plainLater, equal⟩ := searched hole member
        rw [equal]
        exact count_line_le_foldl later plainLater _
      · intro hole member
        obtain ⟨later, plainLater, equal⟩ := searched hole member
        rw [Layout.IsLined, equal]
        rcases lined hole member with inWall | empty | ⟨s, line⟩
        · exact .inl inWall
        · rw [empty, foldl_fillSlot_nil]
          exact .inr (.inl rfl)
        · rw [line, foldl_fillSlot_line later plainLater]
          exact .inr (.inr ⟨_, s, rfl, rfl⟩)
    refine rescanned_eq_self order distinct fun name member => ?_
    obtain ⟨hole, inLayout, rfl⟩ := used name member
    exact same hole inLayout
  · intro same
    rw [same]

end

end StaticSite.Markup
