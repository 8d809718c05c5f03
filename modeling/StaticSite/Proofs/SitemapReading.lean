import StaticSite.Page.Sitemap
import StaticSite.Site
import StaticSite.Proofs.Replacement
import StaticSite.Proofs.ScalarText
import StaticSite.Proofs.TagReading
import StaticSite.Proofs.XmlReader

/-!
# Reading the map of a site

The map of a site is read back as the list of its pages, each with its address, the day of its last
change and its priority, exactly if no bracket and no ampersand stands among the first ten
characters of a time of change: those are put in as they are, and all else is escaped.
-/

namespace StaticSite.Sitemap

open Xml (Node Token decode? tagged? taggedAll? tokens? tokensAll)

structure Entry where
  loc : List Char
  lastmod : List Char
  priority : List Char
deriving DecidableEq, Repr

/-! ## Entries of a tree -/

def isFilled : Node → Bool
  | .text s => !s.all Text.isBlank
  | .element .. => true

/-- The nodes but for the blanks between them. -/
def filled (nodes : List Node) : List Node := nodes.filter isFilled

/-- The text of an element of that name which holds nothing else. -/
def field? (name : String) : Node → Option (List Char)
  | .element tag [] [.text s] => if tag = name.toList then some s else none
  | _ => none

def entry? : Node → Option Entry
  | .element tag [] content =>
    match filled content with
    | [loc, lastmod, priority] =>
      if tag = "url".toList then
        (field? "loc" loc).bind fun loc =>
          (field? "lastmod" lastmod).bind fun lastmod =>
            (field? "priority" priority).map fun priority => ⟨loc, lastmod, priority⟩
      else none
    | _ => none
  | _ => none

def entries? (nodes : List Node) : Option (List Entry) :=
  match filled nodes with
  | [.element tag _ urls] => if tag = "urlset".toList then (filled urls).mapM entry? else none
  | _ => none

/-- The entries of a document in their order. -/
def read? (s : String) : Option (List Entry) := (Xml.read? s.toList).bind entries?

/-! ## The map as a tree -/

def line : Node := .text ['\n']

def field (name : String) (text : List Char) : Node := .element name.toList [] [.text text]

def Entry.node (entry : Entry) : Node :=
  .element "url".toList []
    [line, field "loc" entry.loc, line, field "lastmod" entry.lastmod, line,
      field "priority" entry.priority, line]

def schema : List Char := " xmlns=\"http://www.sitemaps.org/schemas/sitemap/0.9\"".toList

/-- The trees of a map with these entries. -/
def trees (entries : List Entry) : List Node :=
  [line, .element "urlset".toList schema (line :: entries.flatMap fun entry => [entry.node, line]),
    line]

theorem mapM_eq_some_iff {α β : Type} {f : α → Option β} {xs : List α} {ys : List β} :
    xs.mapM f = some ys ↔ xs.map f = ys.map some := by
  induction xs generalizing ys with
  | nil => cases ys <;> simp
  | cons x xs ih =>
    rw [List.mapM_cons, List.map_cons]
    cases ys with
    | nil => cases f x <;> cases xs.mapM f <;> simp
    | cons y ys =>
      rw [List.map_cons, List.cons_eq_cons, ← ih]
      cases f x <;> cases xs.mapM f <;> simp

theorem entry?_node (entry : Entry) : entry? entry.node = some entry := rfl

theorem entries?_trees (entries : List Entry) : entries? (trees entries) = some entries := by
  have urls : filled (line :: entries.flatMap fun entry => [entry.node, line]) =
      entries.map Entry.node := by
    change filled (entries.flatMap fun entry => [entry.node, line]) = _
    induction entries with
    | nil => rfl
    | cons entry entries ih =>
      rw [List.flatMap_cons, filled, List.filter_append, ← filled, ← filled, ih]
      rfl
  have read : (entries.map Entry.node).mapM entry? = some entries := by
    rw [mapM_eq_some_iff, List.map_map]
    exact List.map_congr_left fun entry _ => entry?_node entry
  change (if "urlset".toList = "urlset".toList then
    (filled (line :: entries.flatMap fun entry => [entry.node, line])).mapM entry? else none) = _
  rw [if_pos rfl, urls, read]

/-! ## Tags of a tree -/

section

variable {nodes : List Node} {node : Node} {entry : Entry} {entries : List Entry}

/-- How many tags are written for the nodes. -/
def tagCount (nodes : List Node) : Nat := (tokensAll nodes).countP Token.isTag

theorem tagCount_cons (node : Node) (nodes : List Node) :
    tagCount (node :: nodes) = node.tokens.countP Token.isTag + tagCount nodes :=
  List.countP_append

theorem countP_element (name attributes : List Char) (content : List Node) :
    (Node.element name attributes content).tokens.countP Token.isTag = tagCount content + 2 := by
  rw [Node.tokens, List.cons_append, List.countP_cons_of_pos rfl, List.countP_append]
  rfl

theorem tagCount_filled (nodes : List Node) : tagCount (filled nodes) = tagCount nodes := by
  induction nodes with
  | nil => rfl
  | cons node nodes ih =>
    rw [tagCount_cons, filled, List.filter_cons]
    split
    · rw [tagCount_cons, ← filled, ih]
    next blank =>
      cases node with
      | text s => rw [← filled, ih]; exact (Nat.zero_add _).symm
      | element name attributes content => exact absurd rfl blank

theorem countP_field {name : String} {text : List Char} (read : field? name node = some text) :
    node.tokens.countP Token.isTag = 2 := by
  unfold field? at read
  split at read
  · rfl
  · cases read

theorem countP_entry (read : entry? node = some entry) : node.tokens.countP Token.isTag = 8 := by
  unfold entry? at read
  split at read
  next tag content =>
    split at read
    next loc lastmod priority fields =>
      obtain ⟨-, read⟩ := Option.ite_none_right_eq_some.mp read
      obtain ⟨_, isLoc, read⟩ := Option.bind_eq_some_iff.mp read
      obtain ⟨_, isLastmod, read⟩ := Option.bind_eq_some_iff.mp read
      obtain ⟨_, isPriority, -⟩ := Option.map_eq_some_iff.mp read
      rw [countP_element, ← tagCount_filled, fields, tagCount_cons, tagCount_cons, tagCount_cons,
        countP_field isLoc, countP_field isLastmod, countP_field isPriority]
      rfl
    · cases read
  · cases read

/-- An entry has eight tags: its own and those of its three fields. -/
theorem tagCount_of_mapM (read : nodes.mapM entry? = some entries) :
    tagCount nodes = 8 * entries.length := by
  rw [mapM_eq_some_iff] at read
  induction nodes generalizing entries with
  | nil =>
    obtain rfl := List.map_eq_nil_iff.mp read.symm
    rfl
  | cons node nodes ih =>
    cases entries with
    | nil => cases read
    | cons entry entries =>
      rw [List.map_cons, List.map_cons, List.cons_eq_cons] at read
      rw [tagCount_cons, countP_entry read.1, ih read.2, List.length_cons]
      omega

theorem tagCount_of_entries? (read : entries? nodes = some entries) :
    tagCount nodes = 8 * entries.length + 2 := by
  unfold entries? at read
  split at read
  next tag attributes urls root =>
    obtain ⟨-, read⟩ := Option.ite_none_right_eq_some.mp read
    rw [← tagCount_filled, root, tagCount_cons, countP_element, ← tagCount_filled,
      tagCount_of_mapM read]
    rfl
  · cases read

end

end StaticSite.Sitemap

namespace StaticSite.Page

open Markup (escapeChars)
open Xml (decode? tagged? taggedAll? tokens? tokensAll)

section

variable (page : Page) (pages : List Page) (base : String) (now : DateTime)

/-! ## The written map -/

/-- An opening tag without its bracket, and the text behind it. -/
def openPiece (name : String) (text : List Char) : List Char := name.toList ++ '>' :: text

def closePiece (name : String) : List Char := '/' :: name.toList ++ ['>', '\n']

/-- What stands between the opening brackets of an entry. -/
def entryPieces : List (List Char) :=
  [openPiece "url" ['\n'],
    openPiece "loc" (escapeChars (page.address base).toList), closePiece "loc",
    openPiece "lastmod" (page.lastChange now).toList, closePiece "lastmod",
    openPiece "priority" (escapeChars page.priority.toList), closePiece "priority",
    closePiece "url"]

def sitemapPieces : List (List Char) :=
  ("urlset".toList ++ Sitemap.schema ++ ['>', '\n']) ::
    (pages.flatMap (entryPieces · base now) ++ [closePiece "urlset"])

def declaration : List Char := "<?xml version=\"1.0\" encoding=\"UTF-8\"?>".toList

theorem toList_entry :
    (sitemapEntry base now page).write.toList ++ ['\n'] =
      (entryPieces page base now).flatMap ('<' :: ·) := by
  simp [sitemapEntry, entryPieces, openPiece, closePiece, Markup.Node.write, Markup.writeAll,
    Markup.openTag, Markup.line]

theorem toList_sitemapHeader :
    sitemapHeader.toList =
      declaration ++ '\n' :: '<' :: ("urlset".toList ++ Sitemap.schema ++ ['>', '\n']) := by
  cbv

theorem toList_sitemap :
    (sitemap pages base now).toList =
      declaration ++ (['\n'] ++ (sitemapPieces pages base now).flatMap ('<' :: ·)) := by
  have entries : (Markup.writeAll
      (pages.flatMap fun page => [sitemapEntry base now page, Markup.line])).toList =
      (pages.flatMap (entryPieces · base now)).flatMap ('<' :: ·) := by
    induction pages with
    | nil => rfl
    | cons page pages ih =>
      rw [List.flatMap_cons, List.flatMap_cons, List.flatMap_append, ← ih, ← toList_entry]
      simp [Markup.writeAll, Markup.line, Markup.Node.write]
  have ending : "</urlset>\n".toList = '<' :: (closePiece "urlset" ++ []) := rfl
  rw [sitemap, String.toList_append, String.toList_append, toList_sitemapHeader, entries, ending,
    sitemapPieces]
  simp only [List.flatMap_cons, List.flatMap_append, List.flatMap_nil, List.append_assoc,
    List.cons_append, List.nil_append]

/-! ## The map as it is read -/

/-- What the map says of a page. -/
def entry : Sitemap.Entry :=
  ⟨(page.address base).toList, (page.lastChange now).toList, page.priority.toList⟩

/-- What is read of a page: references in the time of its change stand for characters. -/
def readEntry : Option Sitemap.Entry :=
  (decode? (page.lastChange now).toList).map fun day => { page.entry base now with lastmod := day }

theorem decode?_line : decode? ['\n'] = some ['\n'] := rfl

def tagNames : List String := ["url", "loc", "lastmod", "priority", "urlset"]

theorem mem_tagNames :
    "url" ∈ tagNames ∧ "loc" ∈ tagNames ∧ "lastmod" ∈ tagNames ∧ "priority" ∈ tagNames := by
  decide

theorem tagged?_openPiece {name : String} (listed : name ∈ tagNames) (after : List Char) :
    tagged? (openPiece name after) =
      (decode? after).map fun text => [.opening name.toList [], .text text] := by
  have names : ∀ name ∈ tagNames,
      '>' ∉ name.toList ∧ Xml.tag? name.toList = some (.opening name.toList []) := by
    decide
  obtain ⟨plain, isTag⟩ := names name listed
  rw [openPiece, Xml.tagged?_append plain, isTag]
  rfl

theorem tagged?_closePiece {name : String} (listed : name ∈ tagNames) :
    tagged? (closePiece name) = some [.closing name.toList, .text ['\n']] := by
  have names : ∀ name ∈ tagNames,
      tagged? (closePiece name) = some [.closing name.toList, .text ['\n']] := by
    decide
  exact names name listed

theorem taggedAll?_entryPieces :
    taggedAll? (entryPieces page base now) =
      (page.readEntry base now).map fun entry => entry.node.tokens ++ Sitemap.line.tokens := by
  obtain ⟨url, loc, lastmod, priority⟩ := mem_tagNames
  simp only [entryPieces, taggedAll?, tagged?_openPiece url, tagged?_openPiece loc,
    tagged?_openPiece lastmod, tagged?_openPiece priority, tagged?_closePiece url,
    tagged?_closePiece loc, tagged?_closePiece lastmod, tagged?_closePiece priority,
    Xml.decode?_escapeChars, readEntry]
  cases decode? (page.lastChange now).toList with
  | none => rfl
  | some day =>
    simp only [decode?_line, Option.map_some, Option.bind_some, Sitemap.Entry.node, Sitemap.field,
      Sitemap.line, entry, Xml.Node.tokens, tokensAll, List.cons_append, List.nil_append]

theorem taggedAll?_pages :
    taggedAll? (pages.flatMap (entryPieces · base now)) =
      (pages.mapM (readEntry · base now)).map fun entries =>
        tokensAll (entries.flatMap fun entry => [entry.node, Sitemap.line]) := by
  induction pages with
  | nil => rfl
  | cons page pages ih =>
    rw [List.flatMap_cons, Xml.taggedAll?_append, taggedAll?_entryPieces, ih, List.mapM_cons]
    cases page.readEntry base now <;> cases pages.mapM (readEntry · base now) <;>
      simp [tokensAll]

variable {page pages} {base now}

theorem bare_entryPieces (bare : '<' ∉ (page.lastChange now).toList) :
    ∀ piece ∈ entryPieces page base now, '<' ∉ piece := by
  have names : ∀ name ∈ tagNames, '<' ∉ name.toList ∧ '<' ∉ closePiece name := by decide
  have opened {name : String} (listed : name ∈ tagNames) {text : List Char} (plain : '<' ∉ text) :
      '<' ∉ openPiece name text := by
    simp only [openPiece, List.mem_append, List.mem_cons, not_or]
    exact ⟨(names name listed).1, by decide, plain⟩
  have escaped (s : List Char) : '<' ∉ escapeChars s := (Markup.not_mem_escapeChars s).2.1
  obtain ⟨url, loc, lastmod, priority⟩ := mem_tagNames
  simp only [entryPieces, List.forall_mem_cons]
  exact ⟨opened url (by decide), opened loc (escaped _), (names _ loc).2, opened lastmod bare,
    (names _ lastmod).2, opened priority (escaped _), (names _ priority).2, (names _ url).2,
    List.forall_mem_nil _⟩

theorem bare_sitemapPieces (bare : ∀ page ∈ pages, '<' ∉ (page.lastChange now).toList) :
    ∀ piece ∈ sitemapPieces pages base now, '<' ∉ piece := by
  rw [sitemapPieces, List.forall_mem_cons, List.forall_mem_append]
  refine ⟨by decide, fun piece member => ?_, by decide⟩
  obtain ⟨page, inPages, ofPage⟩ := List.mem_flatMap.mp member
  exact bare_entryPieces (bare page inPages) piece ofPage

theorem dropDeclaration_sitemap (content : List Char) :
    Xml.dropDeclaration (declaration ++ content) = content := by
  have spelled : declaration ++ content = "<?xml ".toList ++
      ("version=\"1.0\" encoding=\"UTF-8\"".toList ++ ("?>".toList ++ content)) := by
    rw [← List.append_assoc, ← List.append_assoc]
    exact congrArg (· ++ content) (by decide)
  rw [spelled, Xml.dropDeclaration, Text.dropMark?_eq_some.mpr rfl]
  rfl

/-- Without brackets in the times of change, the map is read page by page. -/
theorem read?_sitemap (bare : ∀ page ∈ pages, '<' ∉ (page.lastChange now).toList) :
    Sitemap.read? (sitemap pages base now) = pages.mapM (readEntry · base now) := by
  have tokens : tokens? (['\n'] ++ (sitemapPieces pages base now).flatMap ('<' :: ·)) =
      (pages.mapM (readEntry · base now)).map (tokensAll ∘ Sitemap.trees) := by
    have root : tagged? ("urlset".toList ++ Sitemap.schema ++ ['>', '\n']) =
        some [.opening "urlset".toList Sitemap.schema, .text ['\n']] := by
      decide
    rw [Xml.tokens?_flatMap (by decide) (bare_sitemapPieces bare), sitemapPieces, taggedAll?, root,
      Xml.taggedAll?_append, taggedAll?_pages, taggedAll?, tagged?_closePiece (by decide)]
    cases pages.mapM (readEntry · base now) with
    | none => rfl
    | some entries =>
      simp only [decode?_line, taggedAll?, Option.map_some, Option.bind_some, Function.comp_apply,
        Sitemap.trees, Sitemap.line, Xml.Node.tokens, tokensAll, List.cons_append,
        List.nil_append, List.append_assoc]
  have rest : Xml.dropDeclaration (sitemap pages base now).toList =
      ['\n'] ++ (sitemapPieces pages base now).flatMap ('<' :: ·) := by
    rw [toList_sitemap, dropDeclaration_sitemap]
  cases read : pages.mapM (readEntry · base now) with
  | none =>
    rw [Sitemap.read?, Xml.read?, rest, tokens, read]
    rfl
  | some entries =>
    rw [read, ← rest] at tokens
    rw [Sitemap.read?, Xml.read?_eq_some_iff.mpr tokens]
    exact Sitemap.entries?_trees entries

theorem count_flatMap_cons {mark : Char} (pieces : List (List Char)) :
    (pieces.flatMap (mark :: ·)).count mark = pieces.length + pieces.flatten.count mark := by
  induction pieces with
  | nil => rfl
  | cons piece pieces ih =>
    simp only [List.flatMap_cons, List.count_append, List.count_cons_self, ih, List.length_cons,
      List.flatten_cons]
    omega

theorem length_sitemapPieces (pages : List Page) (base : String) (now : DateTime) :
    (sitemapPieces pages base now).length = 8 * pages.length + 2 := by
  have entries : (pages.flatMap (entryPieces · base now)).length = 8 * pages.length := by
    rw [List.length_flatMap]
    change (pages.map fun _ => 8).sum = _
    rw [List.map_const', List.sum_replicate, smul_eq_mul, Nat.mul_comm]
  simp [sitemapPieces, entries]

/-- A bracket too many is a tag too many, so a map that is read has none in the times of change. -/
theorem bare_of_read? {entries : List Sitemap.Entry}
    (read : Sitemap.read? (sitemap pages base now) = some entries)
    (length : entries.length = pages.length) :
    ∀ page ∈ pages, '<' ∉ (page.lastChange now).toList := by
  obtain ⟨nodes, isNodes, isEntries⟩ := Option.bind_eq_some_iff.mp read
  rw [Xml.read?_eq_some_iff, toList_sitemap, dropDeclaration_sitemap] at isNodes
  -- Eight brackets for each entry and two for the root are the map's own, and no tag is left.
  have brackets := Xml.countP_tokens? isNodes
  rw [← Sitemap.tagCount, Sitemap.tagCount_of_entries? isEntries, length, List.count_append,
    count_flatMap_cons, length_sitemapPieces] at brackets
  have bare : '<' ∉ (sitemapPieces pages base now).flatten :=
    List.count_eq_zero.mp (by omega)
  intro page member bracket
  refine bare (List.mem_flatten.mpr ⟨openPiece "lastmod" (page.lastChange now).toList, ?_, ?_⟩)
  · simp only [sitemapPieces, List.mem_cons, List.mem_append, List.mem_flatMap]
    exact .inr (.inl ⟨page, member, by simp [entryPieces]⟩)
  · simp [openPiece, bracket]

/-- The first ten characters of a time of change hold no bracket and no ampersand. -/
def HasBareDay (page : Page) : Prop :=
  ∀ stamp ∈ page.updatedAt, '<' ∉ stamp.toList.take 10 ∧ '&' ∉ stamp.toList.take 10

theorem isSpelling_of_mem_textShortYear (d : Date) :
    ∀ c ∈ d.textShortYear.toList, Text.isSpelling c = true := by
  have hyphen : ∀ c ∈ "-".toList, Text.isSpelling c = true := by decide
  simp only [Date.textShortYear, String.toList_append, List.forall_mem_append]
  have digits := Calendar.isSpelling_of_mem_digits
  exact ⟨⟨⟨⟨digits 1 d.year, hyphen⟩, digits 2 d.month⟩, hyphen⟩, digits 2 d.day⟩

theorem hasBareDay_iff (page : Page) (now : DateTime) :
    page.HasBareDay ↔ '<' ∉ (page.lastChange now).toList ∧ '&' ∉ (page.lastChange now).toList := by
  have today {c : Char} (strange : Text.isSpelling c = false) :
      c ∉ now.date.textShortYear.toList := by
    intro member
    rw [isSpelling_of_mem_textShortYear now.date c member] at strange
    cases strange
  have bareToday : '<' ∉ now.date.textShortYear.toList ∧ '&' ∉ now.date.textShortYear.toList :=
    ⟨today (by decide), today (by decide)⟩
  cases isStamp : page.updatedAt with
  | none =>
    have change : page.lastChange now = now.date.textShortYear := by rw [lastChange, isStamp]; rfl
    rw [HasBareDay, isStamp, change]
    exact iff_of_true nofun bareToday
  | some stamp =>
    simp only [HasBareDay, isStamp, Option.mem_some_iff, forall_eq']
    by_cases empty : stamp = ""
    · have change : page.lastChange now = now.date.textShortYear := by
        rw [lastChange, isStamp, empty]; rfl
      rw [change, empty]
      exact iff_of_true ⟨nofun, nofun⟩ bareToday
    · have change : page.lastChange now = String.ofList (stamp.toList.take 10) := by
        rw [lastChange, isStamp, Option.map_some, Option.getD_some, Value.dayText,
          if_pos (by simpa [Heap.isTruthy] using empty)]
        rfl
      rw [change, String.toList_ofList]

/--
The map of a site is read back as one entry for each page, in order, each with the page's address,
the day of its last change and its priority, exactly if those days hold no bracket and no ampersand.
-/
theorem sitemap_reads_iff (pages : List Page) (base : String) (now : DateTime) :
    Sitemap.read? (sitemap pages base now) = some (pages.map (entry · base now)) ↔
      ∀ page ∈ pages, page.HasBareDay := by
  -- Only of a map without such brackets is it known page by page what is read.
  have entries (bare : ∀ page ∈ pages, '<' ∉ (page.lastChange now).toList) :
      Sitemap.read? (sitemap pages base now) = some (pages.map (entry · base now)) ↔
        ∀ page ∈ pages, '&' ∉ (page.lastChange now).toList := by
    rw [read?_sitemap bare, Sitemap.mapM_eq_some_iff, List.map_map, List.map_inj_left]
    refine forall₂_congr fun page _ => ?_
    rw [← Xml.decode?_eq_self_iff, readEntry]
    cases decode? (page.lastChange now).toList <;> simp [entry]
  simp only [hasBareDay_iff _ now]
  constructor
  · intro read
    have bare := bare_of_read? read (by simp)
    exact fun page member => ⟨bare page member, (entries bare).mp read page member⟩
  · intro plain
    exact (entries fun page member => (plain page member).1).mpr
      fun page member => (plain page member).2

/-- A page with a tag for its time of change. -/
def markedSite : Heap :=
  { objects := #[.dict [(.str "id", .str "p"), (.str "slug", .str "about"),
      (.str "updatedAt", .str "<now>")]] }

/-- The page is read, but its map has an element that is never closed. -/
theorem sitemap_markedSite_unread :
    (Site.readPage markedSite (.ref 0)).toOption.map (fun found =>
        Sitemap.read? (sitemap [found.1.page] "" ⟨⟨2024, 1, 1⟩, ⟨12, 0, 0, 0⟩, some 0⟩)) =
      some none := by
  decide +kernel

end

end StaticSite.Page
