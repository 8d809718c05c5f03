import StaticSite.Proofs.RendererShape
import StaticSite.Proofs.Spelling

/-!
# What a reader finds in rendered markup

Whatever props hold, the markup of a core component without zones reads as the tree that its
renderer built: the tags and attributes that its template names, with each inserted text in a quoted
value or between tags. Rich text and raw markup are left out, as they may hold any tags.
-/

namespace StaticSite.Markup

/-! ## Items of a template -/

/-- Whether an attribute is one of these, its value in double quotes. -/
def Found.IsOf (names : List String) : Found → Prop
  | .value quote name _ => quote = some '"' ∧ ∃ n ∈ names, n.toList = name
  | .flag name => ∃ n ∈ names, n.toList = name

/-- Whether an item is text or a tag that the template names. -/
def Item.IsOf (words : Words) : Item → Prop
  | .text _ => True
  | .tag written => ∃ word names, (word, names) ∈ words ∧ word.toList = written.name ∧
      ∀ found ∈ written.attributes, found.IsOf names
  | .aside => False
  | .raw _ => False

/-- The names of a template mean the same to every reader. -/
def Words.ArePlain (words : Words) : Prop :=
  ∀ entry ∈ words, isPlainName entry.1.toList = true ∧ isRawElement entry.1.toList = false ∧
    ∀ name ∈ entry.2, isPlainName name.toList = true

instance (words : Words) : Decidable words.ArePlain :=
  inferInstanceAs (Decidable (∀ entry ∈ words, isPlainName entry.1.toList = true ∧
    isRawElement entry.1.toList = false ∧ ∀ name ∈ entry.2, isPlainName name.toList = true))

section

variable {words : Words} {tag : String} {attributes : List Attribute}

theorem Words.Allow.isPlain (allowed : words.Allow tag attributes) (plain : words.ArePlain) :
    Tag.IsPlain tag attributes := by
  obtain ⟨names, listed, named⟩ := allowed
  obtain ⟨name, text, inner⟩ := plain _ listed
  exact ⟨name, fun attr member => inner _ (named attr member), text⟩

theorem Words.Allow.opening_isOf (allowed : words.Allow tag attributes) :
    (Item.tag (Tag.opening tag attributes)).IsOf words := by
  obtain ⟨names, listed, named⟩ := allowed
  refine ⟨tag, names, listed, rfl, fun found member => ?_⟩
  obtain ⟨attr, isAttr, rfl⟩ := List.mem_map.mp member
  have known := named attr isAttr
  cases attr with
  | value name text => exact ⟨rfl, name, known, rfl⟩
  | flag name => exact ⟨name, known, rfl⟩

theorem Words.Allow.ending_isOf (allowed : words.Allow tag attributes) :
    (Item.tag (Tag.ending tag)).IsOf words := by
  obtain ⟨names, listed, -⟩ := allowed
  exact ⟨tag, names, listed, rfl, nofun⟩

theorem isOf_mergedFrom {s : List Char} {read : List Item} (isOf : ∀ item ∈ read, item.IsOf words) :
    ∀ item ∈ mergedFrom s read, item.IsOf words := by
  have texts (s : List Char) : ∀ item ∈ textItem s, item.IsOf words := by
    unfold textItem
    split
    · nofun
    · exact List.forall_mem_singleton.mpr trivial
  induction read generalizing s with
  | nil => exact texts s
  | cons item read ih =>
    obtain ⟨here, later⟩ := List.forall_mem_cons.mp isOf
    cases item with
    | text t => exact ih later
    | tag tag =>
      exact List.forall_mem_append.mpr ⟨texts s, List.forall_mem_cons.mpr ⟨here, ih later⟩⟩
    | aside => exact here.elim
    | raw c => exact here.elim

end

/-! ## Trees -/

theorem Node.Alike.isPlain_root {words : Words} {R : String → String → Prop}
    (plain : words.ArePlain) {node other : Node} (alike : node.Alike words R other) {tag : String}
    {attributes : List Attribute} (isRoot : node.root? = some (tag, attributes)) :
    Tag.IsPlain tag attributes := by
  cases node with
  | text s => cases isRoot
  | ready markup => cases isRoot
  | void tag attributes =>
    cases isRoot
    cases other with
    | void tag' attributes' => exact alike.2.2.isPlain plain
    | _ => exact alike.elim
  | element tag attributes content =>
    cases isRoot
    cases other with
    | element tag' attributes' content' => exact alike.2.2.1.isPlain plain
    | _ => exact alike.elim

/-- Ready markup that is text to every reader. -/
def IsBare (markup other : String) : Prop :=
  markup = other ∧ '<' ∉ markup.toList ∧ '&' ∉ markup.toList

mutual

/-- A tree that a template allows reads as it was built. -/
theorem Node.Alike.reads (refs : References) {words : Words} (plain : words.ArePlain) :
    ∀ {node node' : Node}, node.Alike words IsBare node' →
      Reads refs node.write.toList node.items ∧ ∀ item ∈ node.items, item.IsOf words
  | .text s, .text _, _ => ⟨reads_escape s, List.forall_mem_singleton.mpr trivial⟩
  | .ready markup, .ready _, alike =>
    ⟨reads_text alike.2.1 (References.spells_self alike.2.2), List.forall_mem_singleton.mpr trivial⟩
  | .void tag attributes, .void _ _, alike =>
    ⟨reads_openTag (alike.2.2.isPlain plain), List.forall_mem_singleton.mpr alike.2.2.opening_isOf⟩
  | .element tag attributes content, .element _ _ _, alike => by
    obtain ⟨-, -, allowed, inner⟩ := alike
    obtain ⟨reads, isOf⟩ := inner.reads refs plain
    rw [toList_write_element, Node.items, List.forall_mem_append, List.forall_mem_cons]
    exact ⟨reads_around (allowed.isPlain plain) reads, ⟨allowed.opening_isOf, isOf⟩,
      List.forall_mem_singleton.mpr allowed.ending_isOf⟩

theorem AllAlike.reads (refs : References) {words : Words} (plain : words.ArePlain) :
    ∀ {nodes nodes' : List Node}, AllAlike words IsBare nodes nodes' →
      Reads refs (writeAll nodes).toList (itemsAll nodes) ∧ ∀ item ∈ itemsAll nodes, item.IsOf words
  | [], [], _ => ⟨.nil, nofun⟩
  | node :: nodes, _ :: _, alike => by
    obtain ⟨here, later⟩ := alike
    obtain ⟨reads, isOf⟩ := here.reads refs plain
    obtain ⟨reads', isOf'⟩ := later.reads refs plain
    refine ⟨?_, List.forall_mem_append.mpr ⟨isOf, isOf'⟩⟩
    rw [writeAll, String.toList_append]
    exact reads.append reads'

end

end StaticSite.Markup

namespace StaticSite.Listing

open Markup (Node Attribute References Reads around)

/-! ## Listings -/

/-- The numbers of the lines, each on a line of its own. -/
def numberNodes (count : Nat) : List Node :=
  let width := (Nat.toDigits 10 count).length
  let number (n : Nat) : Node :=
    .element "span" [.value "class" "normal"]
      [.text (String.ofList (Text.padLeft ' ' width (Nat.toDigits 10 (n + 1))))]
  ((List.range count).map number).intersperse (.text "\n")

def codeNode (code : List Char) : Node :=
  .element "pre" [] [.element "span" [] [], .text (String.ofList (shownCode code))]

/-- A listing in plain text as a tree. -/
def tree (code : String) (numbered : Bool) : List Node :=
  if numbered then
    [.element "div" [.value "class" "codehilite"]
      [.element "table" [.value "class" "codehilitetable"]
        [.element "tr" []
          [.element "td" [.value "class" "linenos"]
            [.element "div" [.value "class" "linenodiv"]
              [.element "pre" [] (numberNodes ((shownCode code.toList).count '\n'))]],
           .element "td" [.value "class" "code"] [.element "div" [] [codeNode code.toList]]]]],
     .text "\n"]
  else [.element "div" [.value "class" "codehilite"] [codeNode code.toList], .text "\n"]

/-- The element around the code of a listing. -/
def inPre (code : String) : String := "<pre><span></span>" ++ code ++ "</pre>"

/-- What is put in for a listing, as trees. -/
@[irreducible]
def trees (code language : String) (numbered : Bool) : List Node :=
  if Text.lowerString language = "text" then tree code numbered
  else [.element "pre" [] [.element "code" [] [.text code]]]

section

variable {refs : References}

theorem not_mem_listing (s : List Char) : '<' ∉ s.flatMap escapeChar := by
  simp only [List.mem_flatMap, not_exists, not_and]
  intro c _
  unfold escapeChar
  split_ifs with amp lt
  all_goals first | decide | simpa using Ne.symm lt

/-- The tags around listings mean the same to every reader. -/
theorem isPlain {tag : String} (listed : tag ∈ ["div", "pre", "span", "table", "tr", "td"])
    {attributes : List Attribute} (classes : ∀ attr ∈ attributes, attr.name = "class") :
    Markup.Tag.IsPlain tag attributes := by
  have all : ∀ tag ∈ ["div", "pre", "span", "table", "tr", "td"],
      Markup.isPlainName tag.toList = true ∧ Markup.isRawElement tag.toList = false := by decide
  refine ⟨(all tag listed).1, fun attr member => ?_, (all tag listed).2⟩
  rw [classes attr member]
  decide

theorem toList_inPre (code : String) :
    (inPre code).toList = around "pre" [] (around "span" [] [] ++ code.toList) := by
  have front : "<pre><span></span>".toList =
      (Markup.openTag "pre" []).toList ++ around "span" [] [] := by decide +kernel
  have back : "</pre>".toList = ("</" ++ "pre" ++ ">").toList := by decide +kernel
  unfold inPre
  rw [String.toList_append, String.toList_append, back, front]
  simp only [around, List.append_assoc]

theorem reads_inPre {code : String} {text : List Char}
    (reads : Reads refs code.toList [.text text]) :
    Reads refs (inPre code).toList
      (.tag (.opening "pre" []) :: (.tag (.opening "span" []) :: [] ++ [.tag (.ending "span")] ++
        [.text text]) ++ [.tag (.ending "pre")]) := by
  have span : Markup.Tag.IsPlain "span" [] := isPlain (by decide) nofun
  have pre : Markup.Tag.IsPlain "pre" [] := isPlain (by decide) nofun
  rw [toList_inPre]
  exact Markup.reads_around pre ((Markup.reads_around span .nil).append reads)

theorem reads_join {α : Type} {write : α → List Char} {node : α → Node}
    (each : ∀ a, Reads refs (write a) (node a).items) (l : List α) :
    Reads refs (Text.join ['\n'] (l.map write))
      (Markup.itemsAll ((l.map node).intersperse (.text "\n"))) := by
  have lineEnd : Reads refs ['\n'] (Node.text "\n").items :=
    Markup.reads_text (by decide) (References.spells_self (by decide))
  induction l with
  | nil => exact .nil
  | cons a l ih =>
    cases l with
    | nil => simpa [Text.join, Markup.itemsAll] using each a
    | cons b l => simpa [Text.join, Markup.itemsAll] using ((each a).append lineEnd).append ih

theorem reads_lineNumbers (count : Nat) :
    Reads refs (lineNumbers count) (Markup.itemsAll (numberNodes count)) := by
  have front : "<span class=\"normal\">".toList =
      (Markup.openTag "span" [.value "class" "normal"]).toList := by decide +kernel
  have back : "</span>".toList = ("</" ++ "span" ++ ">").toList := by decide +kernel
  have span : Markup.Tag.IsPlain "span" [.value "class" "normal"] :=
    isPlain (by decide) (by simp [Attribute.name])
  refine reads_join (fun n => ?_) _
  have number (d : Char) (other : Text.isNameChar d = false) (noBlank : d ≠ ' ') :
      d ∉ Text.padLeft ' ' (Nat.toDigits 10 count).length (Nat.toDigits 10 (n + 1)) := by
    intro member
    rcases List.mem_append.mp member with fill | digit
    · exact noBlank (List.eq_of_mem_replicate fill)
    · rw [Text.isNameChar_of_mem_toDigits (by decide) _ d digit] at other
      cases other
  have digits : Reads refs (Text.padLeft ' ' (Nat.toDigits 10 count).length
      (Nat.toDigits 10 (n + 1))) _ :=
    Markup.reads_text (number '<' (by decide) (by decide))
      (References.spells_self (number '&' (by decide) (by decide)))
  have whole := Markup.reads_around span digits
  rw [front, back]
  have same : (Node.element "span" [.value "class" "normal"] [.text (String.ofList (Text.padLeft ' '
      (Nat.toDigits 10 count).length (Nat.toDigits 10 (n + 1))))]).items =
      .tag (.opening "span" [.value "class" "normal"]) :: [.text (Text.padLeft ' '
        (Nat.toDigits 10 count).length (Nat.toDigits 10 (n + 1)))] ++ [.tag (.ending "span")] := by
    simp [Node.items, Markup.itemsAll]
  rw [same]
  exact whole

/-- The listing without numbers around any code. -/
theorem toList_plain (body : String) :
    (frame ++ body ++ "</div>\n").toList =
      around "div" [.value "class" "codehilite"] body.toList ++ ['\n'] := by
  have front : frame.toList = (Markup.openTag "div" [.value "class" "codehilite"]).toList := by
    decide +kernel
  have back : "</div>\n".toList = ("</" ++ "div" ++ ">").toList ++ ['\n'] := by decide +kernel
  rw [String.toList_append, String.toList_append, front, back]
  simp only [around, List.append_assoc]

/-- The listing with numbers around any numbers and any code. -/
theorem toList_numbered (numbers body : String) :
    (frame ++ table ++ numbers ++ "</pre></div></td><td class=\"code\"><div>" ++ body ++
        "</div></td></tr></table></div>\n").toList =
      around "div" [.value "class" "codehilite"]
        (around "table" [.value "class" "codehilitetable"]
          (around "tr" []
            (around "td" [.value "class" "linenos"]
              (around "div" [.value "class" "linenodiv"] (around "pre" [] numbers.toList)) ++
            around "td" [.value "class" "code"] (around "div" [] body.toList)))) ++ ['\n'] := by
  have front : frame.toList = (Markup.openTag "div" [.value "class" "codehilite"]).toList := by
    decide +kernel
  have head : table.toList = (Markup.openTag "table" [.value "class" "codehilitetable"]).toList ++
      ((Markup.openTag "tr" []).toList ++ ((Markup.openTag "td" [.value "class" "linenos"]).toList ++
        ((Markup.openTag "div" [.value "class" "linenodiv"]).toList ++
          (Markup.openTag "pre" []).toList))) := by decide +kernel
  have middle : "</pre></div></td><td class=\"code\"><div>".toList =
      ("</" ++ "pre" ++ ">").toList ++ (("</" ++ "div" ++ ">").toList ++
        (("</" ++ "td" ++ ">").toList ++ ((Markup.openTag "td" [.value "class" "code"]).toList ++
          (Markup.openTag "div" []).toList))) := by decide +kernel
  have back : "</div></td></tr></table></div>\n".toList =
      ("</" ++ "div" ++ ">").toList ++ (("</" ++ "td" ++ ">").toList ++
        (("</" ++ "tr" ++ ">").toList ++ (("</" ++ "table" ++ ">").toList ++
          (("</" ++ "div" ++ ">").toList ++ ['\n'])))) := by decide +kernel
  rw [String.toList_append, String.toList_append, String.toList_append, String.toList_append,
    String.toList_append, front, head, middle, back]
  simp only [around, List.append_assoc]

/-- A listing in plain text reads as its tree, however its apostrophes are written. -/
theorem reads_plain (code : String) (numbered : Bool) :
    Reads refs (plain code numbered).toList (Markup.itemsAll (tree code numbered)) := by
  have body : Reads refs
      (inPre (String.ofList ((shownCode code.toList).flatMap escapeChar))).toList
      (codeNode code.toList).items := by
    have shown : Reads refs (String.ofList ((shownCode code.toList).flatMap escapeChar)).toList
        [.text (shownCode code.toList)] := by
      rw [String.toList_ofList]
      exact Markup.reads_text (not_mem_listing _) (References.spells_listing _)
    have whole := reads_inPre shown
    simpa only [codeNode, Node.items, Markup.itemsAll, String.toList_ofList, List.append_nil]
      using whole
  have lineEnd : Reads refs ['\n'] [.text ['\n']] :=
    Markup.reads_text (by decide) (References.spells_self (by decide))
  have outer : Markup.Tag.IsPlain "div" [.value "class" "codehilite"] :=
    isPlain (by decide) (by simp [Attribute.name])
  cases numbered with
  | false =>
    have written : plain code false = frame ++
        inPre (String.ofList ((shownCode code.toList).flatMap escapeChar)) ++ "</div>\n" := rfl
    rw [written, toList_plain]
    have whole := (Markup.reads_around outer body).append lineEnd
    simpa [tree, Node.items, Markup.itemsAll] using whole
  | true =>
    have written : plain code true = frame ++ table ++
        String.ofList (lineNumbers ((shownCode code.toList).count '\n')) ++
        "</pre></div></td><td class=\"code\"><div>" ++
        inPre (String.ofList ((shownCode code.toList).flatMap escapeChar)) ++
        "</div></td></tr></table></div>\n" := rfl
    have numbers : Reads refs
        (String.ofList (lineNumbers ((shownCode code.toList).count '\n'))).toList
        (Markup.itemsAll (numberNodes ((shownCode code.toList).count '\n'))) := by
      rw [String.toList_ofList]
      exact reads_lineNumbers _
    have pre : Markup.Tag.IsPlain "pre" [] := isPlain (by decide) (List.forall_mem_nil _)
    have row : Markup.Tag.IsPlain "tr" [] := isPlain (by decide) (List.forall_mem_nil _)
    have div : Markup.Tag.IsPlain "div" [] := isPlain (by decide) (List.forall_mem_nil _)
    have cell (name : String) : Markup.Tag.IsPlain "td" [.value "class" name] :=
      isPlain (by decide) (by simp [Attribute.name])
    have inner : Markup.Tag.IsPlain "div" [.value "class" "linenodiv"] :=
      isPlain (by decide) (by simp [Attribute.name])
    have grid : Markup.Tag.IsPlain "table" [.value "class" "codehilitetable"] :=
      isPlain (by decide) (by simp [Attribute.name])
    have left := Markup.reads_around (cell "linenos")
      (Markup.reads_around inner (Markup.reads_around pre numbers))
    have right := Markup.reads_around (cell "code") (Markup.reads_around div body)
    have whole := (Markup.reads_around outer (Markup.reads_around grid
      (Markup.reads_around row (left.append right)))).append lineEnd
    rw [written, toList_numbered]
    simpa [tree, Node.items, Markup.itemsAll] using whole

end

end StaticSite.Listing

namespace StaticSite.Renderer

open Markup (Node Attribute References Reads Words AllAlike IsBare items merged around tagLexer)

/-! ## Core components -/

theorem words_arePlain (type : String) : (words type).ArePlain := by
  have all : ∀ entry ∈ templates, entry.2.ArePlain := by decide
  intro entry member
  unfold words at member
  cases found : Ordered.get? templates type with
  | none => simp [found] at member
  | some template =>
    rw [found, Option.getD_some] at member
    exact all _ (Ordered.mem_of_get?_eq_some found) entry member

section

variable {type : String} {renderer : Renderer} {heap : Heap} {props : Entries}
  {children : Children} {context : Context} {node : Node}

/-- Every reader finds the element that a core renderer makes, with its attributes. -/
theorem isPlain_root_core (listed : (type, renderer) ∈ core)
    (rendered : renderer.render heap props children context = .ok node) {tag : String}
    {attributes : List Attribute} (isRoot : node.root? = some (tag, attributes)) :
    Markup.Tag.IsPlain tag attributes := by
  by_cases templated : isTemplated type = true
  · have zones : List.Forall₂ (· = ·) (Ordered.values children) (Ordered.values children) :=
      List.forall₂_same.mpr fun _ _ => rfl
    obtain ⟨other, -, alike⟩ := render_alike listed templated rfl rfl zones rendered
    exact alike.isPlain_root (words_arePlain type) isRoot
  · -- What is left are the three types that put in finished markup, each within a `div`.
    have plain : ∀ name ∈ ["class", "data-lang"], Markup.isPlainName name.toList = true := by decide
    have div {attributes : List Attribute}
        (named : ∀ attr ∈ attributes, attr.name ∈ ["class", "data-lang"]) :
        Markup.Tag.IsPlain "div" attributes :=
      ⟨by decide, fun attr member => plain _ (named attr member), by decide⟩
    cases listed using core_cases with
    | richText =>
      cases rendered
      cases isRoot
      exact div (by simp [classWith, Attribute.name])
    | code =>
      cases rendered
      cases isRoot
      exact div (by simp [classOf, Attribute.name])
    | html =>
      cases rendered
      cases isRoot
      exact div (by simp [classOf, Attribute.name])
    | _ => exact absurd rfl templated

end

/-- The tree of a listing, which is put in as it is if it is in plain text. -/
def codeTree (heap : Heap) (props : Entries) (context : Context) : Node :=
  .element "div" [classOf context, .value "data-lang" (Listing.language heap props)]
    (Listing.trees (propText heap props "code" "") (Listing.language heap props)
      (isSet heap props "lineNumbers" false))

/-- The tree that a renderer built, with the tree of a listing in its place. -/
def opened (type : String) (heap : Heap) (props : Entries) (context : Context) (node : Node) :
    Node :=
  if type = "CodeBlock" then codeTree heap props context else node

theorem listing_alike (code : String) (numbered : Bool) :
    AllAlike (words "CodeBlock") IsBare (Listing.tree code numbered)
      (Listing.tree code numbered) := by
  have classed (tag name : String) (names : List String) (known : (tag, names) ∈ words "CodeBlock")
      (named : "class" ∈ names) : (words "CodeBlock").Allow tag [.value "class" name] :=
    ⟨names, known, List.forall_mem_singleton.mpr named⟩
  have bare (tag : String) (names : List String) (known : (tag, names) ∈ words "CodeBlock") :
      (words "CodeBlock").Allow tag [] := ⟨names, known, nofun⟩
  have div (name : String) := classed "div" name ["class", "data-lang"] (by decide) (by decide)
  have cell (name : String) := classed "td" name ["class"] (by decide) (by decide)
  have span (name : String) := classed "span" name ["class"] (by decide) (by decide)
  have grid (name : String) := classed "table" name ["class"] (by decide) (by decide)
  have pre := bare "pre" [] (by decide)
  have row := bare "tr" [] (by decide)
  have shown : (Listing.codeNode code.toList).Alike (words "CodeBlock") IsBare
      (Listing.codeNode code.toList) :=
    Markup.alike_element pre
      ⟨Markup.alike_element (bare "span" ["class"] (by decide)) trivial, rfl, trivial⟩
  have numbers (count : Nat) : AllAlike (words "CodeBlock") IsBare (Listing.numberNodes count)
      (Listing.numberNodes count) := by
    have lineEnd : (Node.text "\n").Alike (words "CodeBlock") IsBare (.text "\n") := rfl
    refine .intersperse lineEnd (.of_forall fun node member => ?_)
    obtain ⟨n, -, rfl⟩ := List.mem_map.mp member
    exact Markup.alike_element (span "normal") ⟨rfl, trivial⟩
  unfold Listing.tree
  cases numbered with
  | false => exact ⟨Markup.alike_element (div "codehilite") ⟨shown, trivial⟩, rfl, trivial⟩
  | true =>
    have left := Markup.alike_element (cell "linenos") (.single (Markup.alike_element
      (div "linenodiv") (.single (Markup.alike_element pre
        (numbers ((Listing.shownCode code.toList).count '\n'))))))
    have inner := bare "div" ["class", "data-lang"] (by decide)
    have right := Markup.alike_element (cell "code")
      (.single (Markup.alike_element inner (.single shown)))
    have rows := Markup.alike_element (grid "codehilitetable")
      (.single (Markup.alike_element row (.append (.single left) (.single right))))
    exact ⟨Markup.alike_element (div "codehilite") (.single rows), rfl, trivial⟩

theorem trees_alike (code language : String) (numbered : Bool) :
    AllAlike (words "CodeBlock") IsBare (Listing.trees code language numbered)
      (Listing.trees code language numbered) := by
  unfold Listing.trees
  split
  · exact listing_alike code numbered
  · have pre : (words "CodeBlock").Allow "pre" [] := ⟨[], by decide, nofun⟩
    have inner : (words "CodeBlock").Allow "code" [] := ⟨[], by decide, nofun⟩
    exact ⟨Markup.alike_element pre ⟨Markup.alike_element inner ⟨rfl, trivial⟩, trivial⟩, trivial⟩

theorem codeRoot_allow (heap : Heap) (props : Entries) (context : Context) :
    (words "CodeBlock").Allow "div"
      [classOf context, .value "data-lang" (Listing.language heap props)] :=
  ⟨["class", "data-lang"], by decide, by simp [classOf, Attribute.name]⟩

theorem codeTree_alike (heap : Heap) (props : Entries) (context : Context) :
    (codeTree heap props context).Alike (words "CodeBlock") IsBare (codeTree heap props context) :=
  Markup.alike_element (codeRoot_allow heap props context) (trees_alike _ _ _)

theorem codeNode_reads {refs : References} (heap : Heap) (props : Entries) (context : Context) :
    Reads refs (codeNode heap props context).write.toList (codeTree heap props context).items := by
  by_cases plain : Text.lowerString (Listing.language heap props) = "text"
  · have built : codeNode heap props context =
        .element "div" [classOf context, .value "data-lang" (Listing.language heap props)]
          [.ready (Listing.plain (propText heap props "code" "")
            (isSet heap props "lineNumbers" false))] := by
      simp only [codeNode, Listing.markup, if_pos plain]
    have content (markup : String) : Markup.writeAll [.ready markup] = markup := by
      simp only [Markup.writeAll, Node.write, String.append_empty]
    have root := (codeRoot_allow heap props context).isPlain (words_arePlain _)
    have listing : Reads refs _ _ := Listing.reads_plain (propText heap props "code" "")
      (isSet heap props "lineNumbers" false)
    have whole := Markup.reads_around root listing
    have trees : Listing.trees (propText heap props "code" "") (Listing.language heap props)
        (isSet heap props "lineNumbers" false) =
        Listing.tree (propText heap props "code" "") (isSet heap props "lineNumbers" false) := by
      rw [Listing.trees, if_pos plain]
    rw [built, Markup.toList_write_element, content, codeTree, trees, Node.items]
    exact whole
  · have same : codeNode heap props context = codeTree heap props context := by
      simp only [codeNode, codeTree, Listing.markup, Listing.trees, if_neg plain]
    rw [same]
    exact ((codeTree_alike heap props context).reads refs (words_arePlain _)).1

/--
The markup of a component without zones reads as the tree that was built, no tag is left open, and
every tag and every attribute is one that the template names.
-/
theorem render_reads (refs : References) {type : String} {renderer : Renderer}
    (listed : (type, renderer) ∈ core) (closed : type ≠ "RichText" ∧ type ≠ "Html") {heap : Heap}
    {props : Entries} {context : Context} {node : Node}
    (rendered : renderer.render heap props [] context = .ok node) :
    items refs node.write = merged (opened type heap props context node).items ∧
      (tagLexer.run .text node.write.toList).1 = .text ∧
      ∀ item ∈ items refs node.write, item.IsOf (words type) := by
  have whole : Reads refs node.write.toList (opened type heap props context node).items ∧
      ∀ item ∈ (opened type heap props context node).items, item.IsOf (words type) := by
    by_cases code : type = "CodeBlock"
    · subst code
      have isCode : renderer =
          ⟨"code_block", fun heap props _ context => .ok (codeNode heap props context)⟩ := by
        simpa [core] using listed
      subst isCode
      cases rendered
      rw [opened, if_pos rfl]
      exact ⟨codeNode_reads heap props context,
        ((codeTree_alike heap props context).reads refs (words_arePlain _)).2⟩
    · have templated : isTemplated type = true := by simp [isTemplated, closed, code]
      have line : IsBare "\n" "\n" := ⟨rfl, by decide, by decide⟩
      have noZones : IsBare (Children.joined []) (Children.joined []) :=
        ⟨rfl, by decide, by decide⟩
      obtain ⟨node', -, alike⟩ := render_alike listed templated line noZones .nil rendered
      rw [opened, if_neg code]
      exact alike.reads refs (words_arePlain type)
  obtain ⟨reads, isOf⟩ := whole
  have read := Markup.items_of_reads reads
  obtain ⟨lexemes, run, -⟩ := reads
  rw [read, run]
  exact ⟨rfl, rfl, Markup.isOf_mergedFrom isOf⟩

def hostileProps : Entries :=
  [(.str "text", .str "</a><script>"), (.str "href", .str "\" onclick='x' a=\"&lt;")]

def plainContext : Context := { id := "a", type := "Link", className := "dc-a", minify := true }

theorem render_reads_hostile :
    ("Link", ⟨"link", fun heap props _ context => .ok (linkNode heap props context)⟩) ∈ core ∧
      ("Link" ≠ "RichText" ∧ "Link" ≠ "Html") ∧
      items .basic (linkNode {} hostileProps plainContext).write =
        [.tag ⟨false, "a".toList, [.value (some '"') "class".toList "dc-a".toList,
          .value (some '"') "href".toList "\" onclick='x' a=\"&lt;".toList]⟩,
         .text "</a><script>".toList, .tag ⟨true, "a".toList, []⟩] := by
  have listed : ("Link",
      ⟨"link", fun heap props _ context => .ok (linkNode heap props context)⟩) ∈ core := by
    simp [core]
  have closed : "Link" ≠ "RichText" ∧ "Link" ≠ "Html" := by decide
  have rendered : Except.ok (linkNode {} hostileProps plainContext) =
      (Except.ok (linkNode {} hostileProps plainContext) : Except Fault Node) := rfl
  refine ⟨listed, closed, ?_⟩
  rw [(render_reads .basic listed closed rendered).1]
  decide +kernel

end StaticSite.Renderer
