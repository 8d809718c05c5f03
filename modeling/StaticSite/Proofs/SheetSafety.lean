import StaticSite.Proofs.Emission
import StaticSite.Proofs.Reader
import StaticSite.Style.Sheet

/-!
# A style sheet stays inside its element

A style sheet is written into a style element of the page. Whatever the ids, types and props of the
components hold, the sheet has no angle bracket in it, so that it cannot end that element; no value
can end the declaration it stands in; and the comment in front of a component's rules ends where the
sheet ends it.
-/

namespace StaticSite

namespace Text

theorem forall_mem_intercalate {p : Char → Prop} {separator : String}
    (inSeparator : ∀ c ∈ separator.toList, p c) {pieces : List String}
    (inPieces : ∀ piece ∈ pieces, ∀ c ∈ piece.toList, p c) :
    ∀ c ∈ (separator.intercalate pieces).toList, p c := by
  induction pieces with
  | nil => simp
  | cons piece pieces ih =>
    obtain ⟨here, later⟩ := List.forall_mem_cons.mp inPieces
    cases pieces with
    | nil => simpa using here
    | cons next pieces =>
      rw [String.intercalate_cons_cons]
      simp only [String.toList_append, List.forall_mem_append]
      exact ⟨⟨here, inSeparator⟩, ih later⟩

theorem infix_intercalate {separator : String} {pieces : List String} {piece : String}
    (member : piece ∈ pieces) : piece.toList <:+: (separator.intercalate pieces).toList := by
  induction pieces with
  | nil => cases member
  | cons first pieces ih =>
    cases pieces with
    | nil =>
      rw [List.mem_singleton.mp member]
      simp
    | cons next pieces =>
      rw [String.intercalate_cons_cons, String.toList_append, String.toList_append]
      rcases List.mem_cons.mp member with rfl | later
      · exact ⟨[], (separator ++ separator.intercalate (next :: pieces)).toList, by simp⟩
      · obtain ⟨before, after, whole⟩ := ih later
        exact ⟨first.toList ++ separator.toList ++ before, after, by simp [← whole]⟩

theorem mem_of_mem_replace {mark new s : List Char} {c : Char} (member : c ∈ replace mark new s) :
    c ∈ new ∨ c ∈ s := by
  unfold replace at member
  generalize 0 = skip at member
  induction s generalizing skip with
  | nil => simp [replaceFrom] at member
  | cons d s ih =>
    cases skip with
    | succ skip => exact (ih skip member).imp_right (List.mem_cons_of_mem d)
    | zero =>
      rw [replaceFrom] at member
      split at member
      · rcases List.mem_append.mp member with isNew | later
        · exact .inl isNew
        · exact (ih _ later).imp_right (List.mem_cons_of_mem d)
      · rcases List.mem_cons.mp member with rfl | later
        · exact .inr (List.mem_cons_self ..)
        · exact (ih _ later).imp_right (List.mem_cons_of_mem d)

theorem mem_of_mem_collapse {s : List Char} {c : Char} (member : c ∈ collapse s) :
    c = ' ' ∨ c ∈ s := by
  induction s with
  | nil => cases member
  | cons d s ih =>
    have later (inside : c ∈ collapse s) : c = ' ' ∨ c ∈ d :: s :=
      (ih inside).imp_right (List.mem_cons_of_mem d)
    unfold collapse at member
    split at member
    · split at member
      · exact .inl (List.mem_singleton.mp member)
      · split at member
        · exact later member
        · exact (List.mem_cons.mp member).elim .inl later
    · rcases List.mem_cons.mp member with rfl | inside
      · exact .inr (List.mem_cons_self ..)
      · exact later inside

end Text

namespace Style

open Text (isSpelling)

/-! ## What reducing a sheet adds -/

theorem mem_of_mem_dropCommentsFrom {s : List Char} {c : Char} (skip : Nat)
    (member : c ∈ dropCommentsFrom skip s) : c ∈ s := by
  induction s generalizing skip with
  | nil =>
    rw [dropCommentsFrom] at member
    cases member
  | cons d s ih =>
    have kept (inside : c ∈ d :: dropCommentsFrom 0 s) : c ∈ d :: s :=
      (List.mem_cons.mp inside).elim (fun isFirst => isFirst ▸ List.mem_cons_self ..)
        fun later => List.mem_cons_of_mem d (ih 0 later)
    cases skip with
    | succ skip => exact List.mem_cons_of_mem d (ih skip member)
    | zero =>
      rw [dropCommentsFrom] at member
      split at member
      · exact kept member
      · split at member
        · exact kept member
        · exact List.mem_cons_of_mem d (ih _ member)

theorem mem_of_mem_tighten {s : List Char} {c : Char} (after : Bool)
    (member : c ∈ tighten after s) : c ∈ s := by
  induction s generalizing after with
  | nil => cases member
  | cons d s ih =>
    rw [tighten] at member
    split at member
    next isSpace =>
      split at member
      · exact List.mem_cons_of_mem d (ih _ member)
      · rcases List.mem_cons.mp member with rfl | later
        · exact isSpace ▸ List.mem_cons_self ..
        · exact List.mem_cons_of_mem d (ih _ later)
    · rcases List.mem_cons.mp member with rfl | later
      · exact List.mem_cons_self ..
      · exact List.mem_cons_of_mem d (ih _ later)

/-- A reduced sheet has no character that the sheet lacks, except for spaces and closing braces. -/
theorem mem_of_mem_minifyChars {s : List Char} {c : Char} (member : c ∈ minifyChars s) :
    c = ' ' ∨ c = '\x7d' ∨ c ∈ s := by
  have replaced : c ∈ Text.replace [';', '\x7d'] ['\x7d']
      (tighten false (Text.collapse (dropComments s))) := mem_of_mem_trimmed member
  rcases Text.mem_of_mem_replace replaced with isBrace | tight
  · exact .inr (.inl (List.mem_singleton.mp isBrace))
  · rcases Text.mem_of_mem_collapse (mem_of_mem_tighten false tight) with isSpace | uncommented
    · exact .inl isSpace
    · exact .inr (.inr (mem_of_mem_dropCommentsFrom 0 uncommented))

/-! ## Sheets without angle brackets -/

/-- A text in which no tag can start or end. -/
def IsTagFree (s : List Char) : Prop := ∀ c ∈ s, c ≠ '<' ∧ c ≠ '>'

instance (s : List Char) : Decidable (IsTagFree s) :=
  inferInstanceAs (Decidable (∀ c ∈ s, c ≠ '<' ∧ c ≠ '>'))

@[simp] theorem isTagFree_append {s t : List Char} :
    IsTagFree (s ++ t) ↔ IsTagFree s ∧ IsTagFree t := List.forall_mem_append

theorem isTagFree_of_spelling {s : List Char} (spelled : ∀ c ∈ s, isSpelling c = true) :
    IsTagFree s := by
  intro c member
  have harmless := (not_unsafe_of_isSpelling (spelled c member)).1
  simp only [isUnsafe, Bool.or_eq_false_iff, decide_eq_false_iff_not] at harmless
  exact ⟨harmless.1.1.1.1, harmless.1.1.1.2⟩

theorem IsValue.isTagFree {value : String} (isValue : IsValue value) : IsTagFree value.toList := by
  intro c member
  have harmless := isValue.safe c member
  simp only [isUnsafe, Bool.or_eq_false_iff, decide_eq_false_iff_not] at harmless
  exact ⟨harmless.1.1.1.1, harmless.1.1.1.2⟩

namespace Rule.IsOf

variable {name : String} {rule : Rule}

theorem isTagFree_block (isOf : rule.IsOf name) (named : IsTagFree name.toList) {indent : String}
    (indented : IsTagFree indent.toList) : IsTagFree (rule.block indent).toList := by
  have selected : IsTagFree rule.selector.toList := by
    obtain ⟨pseudo, known, selector⟩ := isOf.selector
    have all : ∀ pseudo ∈ selectorEnds, IsTagFree pseudo.toList := by decide
    rw [selector, String.toList_append, isTagFree_append]
    exact ⟨named, all pseudo known⟩
  have line (declaration : String × String) (member : declaration ∈ rule.declarations) :
      IsTagFree (indent ++ "  " ++ declaration.1 ++ ": " ++ declaration.2 ++ ";").toList := by
    have isDeclaration := isOf.declarations declaration member
    have property : IsTagFree declaration.1.toList := isTagFree_of_spelling fun c inName =>
      Text.isSpelling_of_isNameChar (isDeclaration.property c inName)
    simp only [String.toList_append, isTagFree_append]
    refine ⟨⟨⟨⟨⟨indented, ?_⟩, property⟩, ?_⟩, isDeclaration.value.isTagFree⟩, ?_⟩ <;> decide
  refine Text.forall_mem_intercalate (by decide) ?_
  simp only [List.forall_mem_append, List.forall_mem_singleton, List.forall_mem_map]
  refine ⟨⟨?_, line⟩, ?_⟩
  · simp only [String.toList_append]
    exact isTagFree_append.mpr ⟨isTagFree_append.mpr ⟨indented, selected⟩, by decide⟩
  · simp only [String.toList_append]
    exact isTagFree_append.mpr ⟨indented, by decide⟩

theorem isTagFree_text (isOf : rule.IsOf name) (named : IsTagFree name.toList) :
    IsTagFree rule.text.toList := by
  unfold Rule.text
  split
  · exact isOf.isTagFree_block named (by decide)
  next width _ =>
    have digits : IsTagFree (toString width).toList :=
      isTagFree_of_spelling (Text.isSpelling_of_mem_toString width)
    have block : IsTagFree (rule.block "  ").toList := isOf.isTagFree_block named (by decide)
    simp only [String.toList_append, isTagFree_append]
    refine ⟨⟨⟨⟨?_, digits⟩, ?_⟩, block⟩, ?_⟩ <;> decide

end Rule.IsOf

/-- The name of a component as a comment shows it. -/
def commentLabel (component : Component) : String :=
  " " ++ String.ofList ((component.id ++ " (" ++ component.type ++ ")").toList.filter
    (!isUnsafeInComment ·)) ++ " "

theorem annotation_eq (component : Component) :
    annotation component = "/*" ++ commentLabel component ++ "*/\n" := by
  unfold annotation commentLabel
  rw [← String.toList_inj]
  simp

theorem not_unsafe_of_mem_commentLabel {component : Component} :
    ∀ c ∈ (commentLabel component).toList, isUnsafeInComment c = false := by
  simp only [commentLabel, String.toList_append, String.toList_ofList, List.forall_mem_append]
  refine ⟨⟨by decide, fun c member => ?_⟩, by decide⟩
  simpa using (List.mem_filter.mp member).2

theorem star_notMem_commentLabel (component : Component) :
    '*' ∉ (commentLabel component).toList := by
  intro member
  have harmless := not_unsafe_of_mem_commentLabel '*' member
  simp [isUnsafeInComment] at harmless

/-- A comment ends at its own end, whatever follows it. -/
theorem splitAtMark?_commentLabel (component : Component) (following : List Char) :
    Text.splitAtMark? ['*', '/'] ((commentLabel component).toList ++ ['*', '/'] ++ following) =
      some ((commentLabel component).toList, following) := by
  rw [List.append_assoc, Text.splitAtMark?_append (star_notMem_commentLabel component),
    List.cons_append, Text.splitAtMark?]
  simp [Text.dropMark?]

/-- The text of a component that has rules. -/
def rulesText (options : Options) (component : Component) (rules : List Rule) : String :=
  if options.annotate then
    "/*" ++ commentLabel component ++ "*/\n" ++ "\n".intercalate (rules.map Rule.text)
  else "\n".intercalate (rules.map Rule.text)

theorem isTagFree_rulesText {options : Options} {component : Component} {rules : List Rule}
    {name : String} (named : IsTagFree name.toList) (each : ∀ rule ∈ rules, rule.IsOf name) :
    IsTagFree (rulesText options component rules).toList := by
  have written : IsTagFree ("\n".intercalate (rules.map Rule.text)).toList := by
    refine Text.forall_mem_intercalate (by decide) fun text member => ?_
    obtain ⟨rule, isRule, rfl⟩ := List.mem_map.mp member
    exact (each rule isRule).isTagFree_text named
  have label : IsTagFree (commentLabel component).toList := by
    intro c member
    have harmless := not_unsafe_of_mem_commentLabel c member
    simp only [isUnsafeInComment, Bool.or_eq_false_iff, decide_eq_false_iff_not] at harmless
    exact harmless.1
  unfold rulesText
  split
  · simp only [String.toList_append, isTagFree_append]
    refine ⟨⟨⟨?_, label⟩, ?_⟩, written⟩ <;> decide
  · exact written

theorem componentText_eq {heap : Heap} {options : Options} {component : Component}
    {rules : List Rule} (given : componentRules heap options component = .ok rules) :
    componentText heap options component =
      .ok (if rules.isEmpty then "" else rulesText options component rules) := by
  simp only [componentText, given, rulesText, annotation_eq]
  cases rules <;> rfl

theorem exists_of_entryText {heap : Heap} {options : Options} {entry : Entry} {text : String}
    (given : entryText heap options entry = .ok text) :
    ∃ component rules, entry = .component component ∧
      componentRules heap options component = .ok rules ∧
      text = if rules.isEmpty then "" else rulesText options component rules := by
  unfold entryText at given
  split at given
  next component =>
    obtain ⟨rules, isRules, -⟩ := exists_of_bind_eq_ok given
    rw [componentText_eq isRules] at given
    exact ⟨component, rules, rfl, isRules, (Except.ok.inj given).symm⟩
  · cases given
  · cases given

/-- The sheet of these blocks before it is reduced. -/
def wholeSheet (blocks : List String) : String :=
  "\n\n".intercalate (baseSheet :: blocks.filter (· ≠ "")) ++ "\n"

theorem exists_of_pageSheet {heap : Heap} {options : Options} {entries : List Entry} {sheet : String}
    (given : pageSheet heap options entries = .ok sheet) :
    ∃ blocks, entries.mapM (entryText heap options) = .ok blocks ∧
      sheet = if options.minify then minify (wholeSheet blocks) else wholeSheet blocks := by
  obtain ⟨blocks, traversed, given⟩ := exists_of_bind_eq_ok given
  exact ⟨blocks, traversed, (Except.ok.inj given).symm⟩

theorem pageSheet_unreduced {heap : Heap} {options : Options} {entries : List Entry}
    {blocks : List String} (traversed : entries.mapM (entryText heap options) = .ok blocks) :
    pageSheet heap { options with minify := false } entries = .ok (wholeSheet blocks) := by
  have same : entryText heap { options with minify := false } = entryText heap options := rfl
  rw [pageSheet, same, traversed]
  rfl

theorem isTagFree_wholeSheet {blocks : List String}
    (each : ∀ block ∈ blocks, IsTagFree block.toList) : IsTagFree (wholeSheet blocks).toList := by
  have base : IsTagFree baseSheet.toList := by
    unfold baseSheet
    repeat rw [String.toList_append, isTagFree_append]
    and_intros <;> decide +kernel
  rw [wholeSheet, String.toList_append, isTagFree_append]
  refine ⟨Text.forall_mem_intercalate (by decide) ?_, by decide⟩
  exact List.forall_mem_cons.mpr ⟨base, fun block member => each block (List.mem_of_mem_filter member)⟩

theorem isTagFree_minify {whole : String} (free : IsTagFree whole.toList) :
    IsTagFree (minify whole).toList := by
  intro c member
  rw [minify, String.toList_ofList] at member
  rcases mem_of_mem_minifyChars member with rfl | rfl | inside
  · decide
  · decide
  · exact free c inside

/-- The rules of a component stand in the sheet as they are written. -/
theorem infix_wholeSheet {blocks : List String} {block : String} (member : block ∈ blocks)
    (nonempty : block ≠ "") : block.toList <:+: (wholeSheet blocks).toList := by
  have kept : block ∈ baseSheet :: blocks.filter (· ≠ "") :=
    List.mem_cons_of_mem _ (List.mem_filter.mpr ⟨member, by simpa using nonempty⟩)
  rw [wholeSheet, String.toList_append]
  exact (Text.infix_intercalate kept).trans (List.prefix_append ..).isInfix

/-- No angle bracket stands in a sheet, reduced or not. -/
theorem isTagFree_pageSheet {heap : Heap} {options : Options} {entries : List Entry}
    {sheet : String} (named : ∀ c ∈ options.classStart.toList, Text.isNameChar c = true)
    (written : pageSheet heap options entries = .ok sheet) : IsTagFree sheet.toList := by
  obtain ⟨blocks, traversed, rfl⟩ := exists_of_pageSheet written
  have selector (component : Component) :
      IsTagFree ("." ++ className component.id options.classStart).toList := by
    have spelled := isNameChar_of_mem_className component.id named
    rw [String.toList_append, isTagFree_append]
    exact ⟨by decide, isTagFree_of_spelling fun c member =>
      Text.isSpelling_of_isNameChar (spelled c member)⟩
  have each : ∀ block ∈ blocks, IsTagFree block.toList := by
    intro block member
    obtain ⟨entry, -, given⟩ := exists_of_mem_mapM traversed member
    obtain ⟨component, rules, -, isRules, rfl⟩ := exists_of_entryText given
    split
    · decide
    · exact isTagFree_rulesText (selector component) (isOf_of_componentRules isRules)
  have whole := isTagFree_wholeSheet each
  split
  · exact isTagFree_minify whole
  · exact whole

/--
A sheet has no angle bracket in it, reduced or not. Each of its components has rules whose values
have none of the characters that end a declaration, a rule or the style element. If the sheet is
annotated, the comment in front of those rules ends at its own end in the sheet before reduction.
-/
theorem pageSheet_isContained {heap : Heap} {options : Options} {entries : List Entry}
    {sheet : String} (named : ∀ c ∈ options.classStart.toList, Text.isNameChar c = true)
    (written : pageSheet heap options entries = .ok sheet) :
    ('<' ∉ sheet.toList ∧ '>' ∉ sheet.toList) ∧
      ∃ whole, pageSheet heap { options with minify := false } entries = .ok whole ∧
        sheet = (if options.minify then minify whole else whole) ∧
        ∀ entry ∈ entries, ∃ component rules, entry = .component component ∧
          componentRules heap options component = .ok rules ∧
          (∀ rule ∈ rules, ∀ declaration ∈ rule.declarations,
            ∀ c ∈ declaration.2.toList, isUnsafe c = false) ∧
          (options.annotate = true → rules ≠ [] →
            let label := (commentLabel component).toList
            let text := ("\n".intercalate (rules.map Rule.text)).toList
            ∃ before after, whole.toList = before ++ ['/', '*'] ++
                (label ++ ['*', '/'] ++ '\n' :: (text ++ after)) ∧
              Text.splitAtMark? ['*', '/'] (label ++ ['*', '/'] ++ '\n' :: (text ++ after)) =
                some (label, '\n' :: (text ++ after))) := by
  have free := isTagFree_pageSheet named written
  obtain ⟨blocks, traversed, rfl⟩ := exists_of_pageSheet written
  refine ⟨⟨fun member => (free _ member).1 rfl, fun member => (free _ member).2 rfl⟩,
    wholeSheet blocks, pageSheet_unreduced traversed, rfl, fun entry member => ?_⟩
  obtain ⟨text, inBlocks, given⟩ := exists_result_of_mem traversed member
  obtain ⟨component, rules, isComponent, isRules, rfl⟩ := exists_of_entryText given
  have declared := isOf_of_componentRules isRules
  refine ⟨component, rules, isComponent, isRules, fun rule isRule declaration isDeclaration =>
    ((declared rule isRule).declarations declaration isDeclaration).value.safe, ?_⟩
  intro annotated nonempty
  rw [if_neg (by simpa using nonempty)] at inBlocks
  have commented : (rulesText options component rules).toList = ['/', '*'] ++
      ((commentLabel component).toList ++ ['*', '/'] ++
        '\n' :: ("\n".intercalate (rules.map Rule.text)).toList) := by
    rw [rulesText, if_pos annotated]
    simp
  have notEmpty : rulesText options component rules ≠ "" := by
    rintro empty
    rw [empty] at commented
    cases commented
  obtain ⟨before, after, inside⟩ := infix_wholeSheet inBlocks notEmpty
  refine ⟨before, after, ?_, splitAtMark?_commentLabel component _⟩
  rw [← inside, commented]
  simp

/-- Props of which one would end its declaration and the style element. -/
def hostileProps : Heap :=
  ⟨#[.dict [(.str "color", .str "red;\x7d </style>"), (.str "width", .int 3)]]⟩

/-- A component whose id would end the comment in front of its rules. -/
def hostile : Component := ⟨"a*/b", "T<>", .ref 0, []⟩

theorem pageSheet_isContained_hostile :
    (∀ c ∈ ({ annotate := true } : Options).classStart.toList, Text.isNameChar c = true) ∧
      ∃ sheet, pageSheet hostileProps { annotate := true } [.component hostile] = .ok sheet ∧
        sheet = wholeSheet ["/* a/b (T) */\n.dc-a_2a__2f_b \x7b\n  width: 3px;\n\x7d"] ∧
        '<' ∉ sheet.toList ∧ '>' ∉ sheet.toList := by
  have named : ∀ c ∈ ({ annotate := true } : Options).classStart.toList,
      Text.isNameChar c = true := by decide
  have block : componentText hostileProps { annotate := true } hostile =
      .ok "/* a/b (T) */\n.dc-a_2a__2f_b \x7b\n  width: 3px;\n\x7d" := by cbv
  have traversed : [Entry.component hostile].mapM (entryText hostileProps { annotate := true }) =
      .ok ["/* a/b (T) */\n.dc-a_2a__2f_b \x7b\n  width: 3px;\n\x7d"] := by
    rw [List.mapM_cons, entryText, block]
    rfl
  have written : pageSheet hostileProps { annotate := true } [.component hostile] = .ok _ :=
    pageSheet_unreduced traversed
  exact ⟨named, _, written, rfl, (pageSheet_isContained named written).1⟩

end Style

end StaticSite
