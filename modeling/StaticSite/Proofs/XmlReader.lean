import StaticSite.Proofs.References
import StaticSite.Proofs.Splitting

/-!
# A reader of XML

The reader splits a document at its tags, puts in what the references in its texts stand for, and
nests what stands between an opening tag and its closing tag. It is strict: a bracket opens a tag,
an ampersand starts a reference, and every element is closed. Comments, further instructions and
elements in one tag are not read. A document is read as a tree exactly if its tokens are those of
the tree.
-/

namespace StaticSite.Xml

/-! ## References -/

def namedReferences : List (List Char × Char) :=
  [("amp".toList, '&'), ("lt".toList, '<'), ("gt".toList, '>'), ("quot".toList, '"'),
    ("apos".toList, '\'')]

def number? (base : Nat) (isDigit : Char → Bool) (digits : List Char) : Option Char :=
  let n := digits.foldl (fun n c => base * n + Markup.References.digitValue c) 0
  if digits ≠ [] ∧ digits.all isDigit ∧ n ≠ 0 ∧ n.isValidChar then some (.ofNat n) else none

/-- The character that stands between an ampersand and a semicolon as a name or a number. -/
def referred? : List Char → Option Char
  | '#' :: 'x' :: digits => number? 16 Markup.References.isHexDigit digits
  | '#' :: digits => number? 10 Text.isAsciiDigit digits
  | name => namedReferences.lookup name

/-- Puts in what is referred to; in a reference, `name?` is what has been read of it. -/
def decodeFrom : Option (List Char) → List Char → Option (List Char)
  | none, [] => some []
  | some _, [] => none
  | none, c :: s =>
    if c = '&' then decodeFrom (some []) s else (decodeFrom none s).map (c :: ·)
  | some name, c :: s =>
    if c = ';' then (referred? name).bind fun d => (decodeFrom none s).map (d :: ·)
    else decodeFrom (some (name ++ [c])) s

/-- The text with what its references stand for in their place. -/
def decode? (s : List Char) : Option (List Char) := decodeFrom none s

theorem decode?_cons {c : Char} (bare : c ≠ '&') (s : List Char) :
    decode? (c :: s) = (decode? s).map (c :: ·) := by
  simp [decode?, decodeFrom, bare]

theorem decode?_of_not_mem {s : List Char} (bare : '&' ∉ s) : decode? s = some s := by
  induction s with
  | nil => rfl
  | cons c s ih =>
    rw [List.mem_cons, not_or] at bare
    rw [decode?_cons (Ne.symm bare.1), ih bare.2]
    rfl

/-- A reference is longer than what it stands for. -/
theorem length_decodeFrom {name? : Option (List Char)} {s t : List Char}
    (decoded : decodeFrom name? s = some t) :
    t.length ≤ s.length ∧ (name? = none → '&' ∈ s → t.length < s.length) := by
  induction s generalizing name? t with
  | nil =>
    cases name? with
    | none =>
      cases decoded
      exact ⟨Nat.le_refl _, nofun⟩
    | some name => cases decoded
  | cons c s ih =>
    cases name? with
    | none =>
      unfold decodeFrom at decoded
      split at decoded
      · have shorter := (ih decoded).1
        simp only [List.length_cons]
        omega
      next other =>
        obtain ⟨rest, isRest, rfl⟩ := Option.map_eq_some_iff.mp decoded
        obtain ⟨atMost, less⟩ := ih isRest
        simp only [List.length_cons, List.mem_cons, Ne.symm other, false_or]
        exact ⟨by omega, fun _ member => Nat.succ_lt_succ (less rfl member)⟩
    | some name =>
      refine ⟨?_, nofun⟩
      unfold decodeFrom at decoded
      split at decoded
      · obtain ⟨d, -, mapped⟩ := Option.bind_eq_some_iff.mp decoded
        obtain ⟨rest, isRest, rfl⟩ := Option.map_eq_some_iff.mp mapped
        exact Nat.succ_le_succ (ih isRest).1
      · exact Nat.le_succ_of_le (ih decoded).1

theorem decode?_eq_self_iff {s : List Char} : decode? s = some s ↔ '&' ∉ s := by
  refine ⟨fun same member => ?_, decode?_of_not_mem⟩
  exact absurd ((length_decodeFrom same).2 rfl member) (Nat.lt_irrefl _)

theorem decode?_escapeChar (c : Char) (s : List Char) :
    decode? (Markup.escapeChar c ++ s) = (decode? s).map (c :: ·) := by
  unfold Markup.escapeChar
  split_ifs with amp lt gt quot apostrophe
  · subst amp
    rfl
  · subst lt
    rfl
  · subst gt
    rfl
  · subst quot
    rfl
  · obtain rfl : c = '\'' := Char.toNat_inj.mp apostrophe
    rfl
  · exact decode?_cons amp s

theorem decode?_escapeChars (s : List Char) : decode? (Markup.escapeChars s) = some s := by
  induction s with
  | nil => rfl
  | cons c s ih =>
    rw [Markup.escapeChars, List.flatMap_cons, decode?_escapeChar, ← Markup.escapeChars, ih]
    rfl

/-! ## Tokens -/

inductive Token where
  | text (s : List Char)
  /-- with the attributes as they are written -/
  | opening (name attributes : List Char)
  | closing (name : List Char)
deriving DecidableEq, Repr

def Token.isTag : Token → Bool
  | .text _ => false
  | _ => true

def isNameChar (c : Char) : Bool := Text.isWord c || c = '-' || c = '.' || c = ':'

/-- Attributes stand behind a blank; a slash at the end would be an element in one tag. -/
def isAttributes (s : List Char) : Bool :=
  s = [] || (s.head?.any Text.isBlank && s.getLast? != some '/')

/-- What stands between the brackets of a tag. -/
def tag? : List Char → Option Token
  | '/' :: name => if name ≠ [] ∧ name.all isNameChar then some (.closing name) else none
  | inside =>
    let name := inside.takeWhile isNameChar
    let attributes := inside.dropWhile isNameChar
    if name ≠ [] ∧ isAttributes attributes then some (.opening name attributes) else none

/-- The tag that starts a piece, and the text behind it. -/
def tagged? (piece : List Char) : Option (List Token) :=
  (Text.splitAtMark? ['>'] piece).bind fun (inside, after) =>
    (tag? inside).bind fun tag => (decode? after).map fun text => [tag, .text text]

def taggedAll? : List (List Char) → Option (List Token)
  | [] => some []
  | piece :: pieces =>
    (tagged? piece).bind fun tokens => (taggedAll? pieces).map (tokens ++ ·)

/-- Splits a document at its opening brackets. A text, maybe an empty one, is around every tag. -/
def tokens? (s : List Char) : Option (List Token) :=
  match Text.splitOnChar '<' s with
  | [] => none
  | front :: pieces =>
    (decode? front).bind fun text => (taggedAll? pieces).map (.text text :: ·)

/-! ## Trees -/

inductive Node where
  | text (s : List Char)
  | element (name attributes : List Char) (content : List Node)
deriving Repr

mutual

/-- The tokens of a tree. -/
def Node.tokens : Node → List Token
  | .text s => [.text s]
  | .element name attributes content =>
    .opening name attributes :: tokensAll content ++ [.closing name]

def tokensAll : List Node → List Token
  | [] => []
  | node :: nodes => node.tokens ++ tokensAll nodes

end

/-- An element that has not been closed, and what stands in front of it in its own element. -/
structure Opened where
  name : List Char
  attributes : List Char
  before : List Node

/-- Nests the tokens behind the nodes that have been read of the innermost element. -/
def nest : List Node → List Opened → List Token → Option (List Node)
  | nodes, opened, [] => if opened.isEmpty then some nodes else none
  | nodes, opened, .text s :: tokens => nest (nodes ++ [.text s]) opened tokens
  | nodes, opened, .opening name attributes :: tokens =>
    nest [] (⟨name, attributes, nodes⟩ :: opened) tokens
  | nodes, opened, .closing name :: tokens =>
    match opened with
    | [] => none
    | element :: opened =>
      if name = element.name then
        nest (element.before ++ [.element name element.attributes nodes]) opened tokens
      else none

/-- Drops the declaration that a document may start with. -/
def dropDeclaration (s : List Char) : List Char :=
  match (Text.dropMark? "<?xml ".toList s).bind (Text.splitAtMark? "?>".toList) with
  | some (_, content) => content
  | none => s

/-- The trees of a document. -/
def read? (s : List Char) : Option (List Node) := (tokens? (dropDeclaration s)).bind (nest [] [])

/-! ## Documents and trees -/

theorem tokensAll_append (nodes more : List Node) :
    tokensAll (nodes ++ more) = tokensAll nodes ++ tokensAll more := by
  induction nodes with
  | nil => rfl
  | cons node nodes ih => rw [List.cons_append, tokensAll, ih, tokensAll, List.append_assoc]

mutual

theorem nest_tokens (node : Node) (before : List Node) (opened : List Opened)
    (tokens : List Token) :
    nest before opened (node.tokens ++ tokens) = nest (before ++ [node]) opened tokens := by
  cases node with
  | text s => rfl
  | element name attributes content =>
    have inside := nest_tokensAll content [] (⟨name, attributes, before⟩ :: opened)
      (.closing name :: tokens)
    rw [Node.tokens, List.append_assoc, List.cons_append, nest, List.singleton_append, inside,
      List.nil_append, nest, if_pos rfl]

theorem nest_tokensAll (nodes before : List Node) (opened : List Opened) (tokens : List Token) :
    nest before opened (tokensAll nodes ++ tokens) = nest (before ++ nodes) opened tokens := by
  cases nodes with
  | nil => rw [List.append_nil]; rfl
  | cons node nodes =>
    rw [tokensAll, List.append_assoc, nest_tokens node, nest_tokensAll nodes, List.append_assoc]
    rfl

end

/-- The tokens that have been read of the open elements, the innermost first. -/
def tokensOf : List Opened → List Token
  | [] => []
  | element :: opened =>
    tokensOf opened ++ tokensAll element.before ++ [.opening element.name element.attributes]

theorem tokens_of_nest {nodes result : List Node} {opened : List Opened} {tokens : List Token}
    (nested : nest nodes opened tokens = some result) :
    tokensOf opened ++ tokensAll nodes ++ tokens = tokensAll result := by
  -- What has been read and what is left make up the document all along.
  induction tokens generalizing nodes opened with
  | nil =>
    cases opened with
    | nil =>
      cases nested
      simp [tokensOf]
    | cons element opened => cases nested
  | cons token tokens ih =>
    cases token with
    | text s =>
      have rest := ih nested
      rw [tokensAll_append] at rest
      simpa [tokensAll, Node.tokens] using rest
    | opening name attributes =>
      have rest := ih nested
      simpa [tokensOf, tokensAll] using rest
    | closing name =>
      cases opened with
      | nil => cases nested
      | cons element opened =>
        obtain ⟨same, nested⟩ := Option.ite_none_right_eq_some.mp nested
        have rest := ih nested
        rw [tokensAll_append] at rest
        simpa [tokensOf, tokensAll, Node.tokens, same] using rest

/-- A document is read as trees exactly if its tokens are theirs. -/
theorem read?_eq_some_iff {s : List Char} {nodes : List Node} :
    read? s = some nodes ↔ tokens? (dropDeclaration s) = some (tokensAll nodes) := by
  rw [read?, Option.bind_eq_some_iff]
  constructor
  · rintro ⟨tokens, isTokens, nested⟩
    rw [isTokens, ← tokens_of_nest nested]
    simp [tokensOf, tokensAll]
  · intro isTokens
    refine ⟨_, isTokens, ?_⟩
    have whole := nest_tokensAll nodes [] [] []
    rwa [List.append_nil] at whole

/-! ## The tags of a document -/

theorem tagged?_append {inside : List Char} (plain : '>' ∉ inside) (after : List Char) :
    tagged? (inside ++ '>' :: after) =
      (tag? inside).bind fun tag => (decode? after).map fun text => [tag, .text text] := by
  have split : Text.splitAtMark? ['>'] (inside ++ '>' :: after) = some (inside, after) := by
    induction inside with
    | nil => simp [Text.splitAtMark?, Text.dropMark?]
    | cons c inside ih =>
      simp only [List.mem_cons, not_or] at plain
      simp [Text.splitAtMark?, Text.dropMark?, plain.1, ih plain.2]
  rw [tagged?, split]
  rfl

theorem isTag_of_tag? {inside : List Char} {token : Token} (tagged : tag? inside = some token) :
    token.isTag = true := by
  unfold tag? at tagged
  split at tagged
  · obtain ⟨-, same⟩ := Option.ite_none_right_eq_some.mp tagged
    cases same
    rfl
  · obtain ⟨-, same⟩ := Option.ite_none_right_eq_some.mp tagged
    cases same
    rfl

theorem countP_taggedAll? {pieces : List (List Char)} {tokens : List Token}
    (tagged : taggedAll? pieces = some tokens) : tokens.countP Token.isTag = pieces.length := by
  induction pieces generalizing tokens with
  | nil =>
    cases tagged
    rfl
  | cons piece pieces ih =>
    obtain ⟨first, isFirst, mapped⟩ := Option.bind_eq_some_iff.mp tagged
    obtain ⟨rest, isRest, rfl⟩ := Option.map_eq_some_iff.mp mapped
    obtain ⟨⟨inside, after⟩, -, isFirst⟩ := Option.bind_eq_some_iff.mp isFirst
    obtain ⟨tag, isTag, isFirst⟩ := Option.bind_eq_some_iff.mp isFirst
    obtain ⟨text, -, rfl⟩ := Option.map_eq_some_iff.mp isFirst
    have first : [tag, Token.text text].countP Token.isTag = 1 := by
      rw [List.countP_cons_of_pos (isTag_of_tag? isTag)]
      rfl
    rw [List.countP_append, first, ih isRest, List.length_cons, Nat.add_comm]

theorem taggedAll?_append (pieces more : List (List Char)) :
    taggedAll? (pieces ++ more) =
      (taggedAll? pieces).bind fun tokens => (taggedAll? more).map (tokens ++ ·) := by
  induction pieces with
  | nil => simp [taggedAll?]
  | cons piece pieces ih =>
    rw [List.cons_append, taggedAll?, ih, taggedAll?]
    cases tagged? piece <;> cases taggedAll? pieces <;> cases taggedAll? more <;> simp

theorem tokens?_flatMap {front : List Char} {pieces : List (List Char)} (bare : '<' ∉ front)
    (apart : ∀ piece ∈ pieces, '<' ∉ piece) :
    tokens? (front ++ pieces.flatMap ('<' :: ·)) =
      (decode? front).bind fun text => (taggedAll? pieces).map (.text text :: ·) := by
  rw [tokens?, Text.splitOnChar_flatMap bare apart]

/-- There are as many tags as opening brackets. -/
theorem countP_tokens? {s : List Char} {tokens : List Token} (read : tokens? s = some tokens) :
    tokens.countP Token.isTag = s.count '<' := by
  have pieces := Text.length_splitOnChar '<' s
  unfold tokens? at read
  split at read
  · cases read
  next front rest same =>
    obtain ⟨text, -, mapped⟩ := Option.bind_eq_some_iff.mp read
    obtain ⟨tagged, isTagged, rfl⟩ := Option.map_eq_some_iff.mp mapped
    rw [same, List.length_cons, Nat.add_right_cancel_iff] at pieces
    rw [List.countP_cons_of_neg (by simp [Token.isTag]), countP_taggedAll? isTagged, pieces]

end StaticSite.Xml
