import StaticSite.Proofs.LocalFiles

/-!
# URLs put together from their parts

A URL that is put together from the parts of another one need not be split into the same parts
again. An empty authority leaves no trace, so a path that starts with two slashes is taken for one,
and in front of some schemes' paths a slash is added. These are the only ways in which parts are
lost.
-/

namespace StaticSite.Url

/-- A part behind the mark that it starts with; without the part there is no mark. -/
def marked (mark : Char) (part : List Char) : List Char :=
  if part.isEmpty then [] else mark :: part

/-- The query and the fragment behind their marks. -/
def Parts.tail (parts : Parts) : List Char := marked '?' parts.query ++ marked '#' parts.fragment

/-- What stands between the scheme and the query: the authority behind two slashes and the path. -/
def Parts.body (parts : Parts) : List Char :=
  if parts.authority ≠ [] ∨
      authoritySchemes.contains (String.ofList parts.scheme) ∧ ¬ ['/', '/'] <+: parts.path then
    joinAuthority parts.authority parts.path
  else parts.path

/-- The scheme and its colon. -/
def Parts.start (parts : Parts) : List Char :=
  if parts.scheme.isEmpty then [] else parts.scheme ++ [':']

theorem join_eq (parts : Parts) : join parts = parts.start ++ (parts.body ++ parts.tail) := by
  have shared : (!parts.authority.isEmpty ||
      authoritySchemes.contains (String.ofList parts.scheme) &&
        !Text.startsWith ['/', '/'] parts.path) = true ↔ parts.authority ≠ [] ∨
        authoritySchemes.contains (String.ofList parts.scheme) = true ∧
          ¬ ['/', '/'] <+: parts.path := by
    simp [← Text.startsWith_iff]
  unfold join Parts.start Parts.body Parts.tail marked
  simp only [shared]
  cases parts.scheme <;> cases parts.query <;> cases parts.fragment <;> simp

/-! ## Reading the pieces -/

theorem cutAt_marked {mark : Char} {s : List Char} (absent : mark ∉ s) (part : List Char) :
    cutAt mark (s ++ marked mark part) = (s, part) := by
  cases part with
  | nil =>
    rw [show marked mark [] = [] from rfl, List.append_nil]
    exact Asset.cutAt_of_not_mem absent
  | cons c part =>
    have found : Text.splitAtMark? [mark] (s ++ mark :: c :: part) = some (s, c :: part) := by
      rw [Text.splitAtMark?_append absent, Text.splitAtMark?]
      simp [Text.dropMark?]
    rw [show marked mark (c :: part) = mark :: c :: part from rfl, cutAt, found]

/-- Without a scheme in front of a colon the text has none. -/
theorem takeScheme_eq_self {s : List Char}
    (unnamed : ∀ before, before ++ [':'] <+: s → isScheme before = false) :
    takeScheme s = ([], s) := by
  unfold takeScheme
  split
  next scheme rest found =>
    have whole := Text.splitAtMark?_eq_some found
    rw [if_neg (by simp [unnamed scheme ⟨rest, whole.symm⟩])]
  · rfl

/-- A kind that has none of the line controls has no line control. -/
theorem isLineControl_eq_false {isKind : Char → Bool}
    (none : ∀ c ∈ ['\t', '\r', '\n'], isKind c = false) {c : Char} (kind : isKind c = true) :
    isLineControl c = false := by
  rw [Bool.eq_false_iff]
  intro control
  have listed : c ∈ ['\t', '\r', '\n'] := by simpa [isLineControl, or_assoc] using control
  exact Text.ne_of_kind kind (none c listed) rfl

theorem isSchemeChar_of_mem {scheme : List Char} (isScheme : isScheme scheme = true) :
    ∀ c ∈ scheme, isSchemeChar c = true := by
  cases scheme with
  | nil => simp
  | cons c scheme =>
    simp only [Url.isScheme, Bool.and_eq_true, List.all_eq_true] at isScheme
    exact isScheme.2

theorem takeScheme_append {scheme : List Char} (named : isScheme scheme = true) (rest : List Char) :
    takeScheme (scheme ++ ':' :: rest) = (scheme.map Text.lowerAscii, rest) := by
  have noColon : ':' ∉ scheme := fun member =>
    absurd (isSchemeChar_of_mem named ':' member) (by decide)
  have found : Text.splitAtMark? [':'] (scheme ++ ':' :: rest) = some (scheme, rest) := by
    rw [Text.splitAtMark?_append noColon, Text.splitAtMark?]
    simp [Text.dropMark?]
  rw [takeScheme, found]
  exact if_pos named

/-- A text starts with a scheme in front of a colon, or no colon in it stands behind a scheme. -/
theorem scheme_or_unnamed (s : List Char) :
    (∃ scheme rest, isScheme scheme = true ∧ s = scheme ++ ':' :: rest) ∨
      ∀ before, before ++ [':'] <+: s → isScheme before = false := by
  by_cases named : ∃ scheme rest, isScheme scheme = true ∧ s = scheme ++ ':' :: rest
  · exact .inl named
  · refine .inr fun before start => Bool.eq_false_iff.mpr fun isScheme => named ?_
    obtain ⟨rest, rfl⟩ := start
    exact ⟨before, rest, isScheme, by simp⟩

/-- A text that is empty or starts with a mark that ends an authority. -/
def IsClosing (s : List Char) : Prop := ∀ c, s.head? = some c → endsAuthority c = true

/-- What follows the path is empty or starts with a mark. -/
theorem Parts.tail_cases (parts : Parts) :
    parts.tail = [] ∨ ∃ c after, parts.tail = c :: after ∧ (c = '?' ∨ c = '#') := by
  unfold Parts.tail marked
  cases parts.query with
  | cons d query => exact .inr ⟨'?', _, rfl, .inl rfl⟩
  | nil =>
    cases parts.fragment with
    | cons d fragment => exact .inr ⟨'#', _, rfl, .inr rfl⟩
    | nil => exact .inl rfl

theorem Parts.isClosing_tail (parts : Parts) : IsClosing parts.tail := by
  intro c first
  rcases parts.tail_cases with none | ⟨d, after, tail, isMark⟩
  · simp [none] at first
  · obtain rfl : d = c := by simpa [tail] using first
    rcases isMark with rfl | rfl <;> rfl

/-- The authority lasts up to the first mark that ends it. -/
theorem takeAuthority_append (s : List Char) {closing : List Char} (closes : IsClosing closing) :
    takeAuthority ('/' :: '/' :: (s ++ closing)) =
      (s.takeWhile (!endsAuthority ·), s.dropWhile (!endsAuthority ·) ++ closing) := by
  rw [takeAuthority, List.span_eq_takeWhile_dropWhile]
  induction s with
  | nil =>
    cases closing with
    | nil => rfl
    | cons c closing => simp [closes c rfl]
  | cons c s ih =>
    obtain ⟨taken, left⟩ := Prod.mk.inj ih
    cases ends : endsAuthority c with
    | true => simp [ends]
    | false => simp [ends, taken, left]

theorem takeAuthority_eq_self {s : List Char} (noSlashes : ¬ ['/', '/'] <+: s) :
    takeAuthority s = ([], s) := by
  unfold takeAuthority
  split
  next rest => exact absurd ⟨rest, rfl⟩ noSlashes
  · rfl

/-! ## Parts of a URL that has been split -/

/-- What splitting gives. -/
structure Parts.IsSplit (parts : Parts) : Prop where
  scheme : parts.scheme = [] ∨
    isScheme parts.scheme = true ∧ parts.scheme.map Text.lowerAscii = parts.scheme
  unnamed : parts.scheme = [] → ∀ before, before ++ [':'] <+: parts.path → isScheme before = false
  authority : ∀ c ∈ parts.authority, endsAuthority c = false
  checked : checkAuthority parts.authority = .ok ()
  rooted : parts.authority ≠ [] → parts.path = [] ∨ ['/'] <+: parts.path
  path : '#' ∉ parts.path ∧ '?' ∉ parts.path
  query : '#' ∉ parts.query
  plain : ∀ c ∈ parts.authority ++ parts.path ++ parts.query ++ parts.fragment,
    isLineControl c = false

/--
The parts that are found again in the URL put together from them. Without an authority the path must
not start with two slashes; with a scheme that always has an authority it must start with one.
-/
def Parts.Rejoins (parts : Parts) : Prop :=
  parts.authority ≠ [] ∨ ¬ ['/', '/'] <+: parts.path ∧
    (authoritySchemes.contains (String.ofList parts.scheme) = true →
      parts.path = [] ∨ ['/'] <+: parts.path)

/-- No scheme comes up where a query or a fragment follows. -/
theorem unnamed_append {s closing : List Char} (closes : IsClosing closing)
    (unnamed : ∀ before, before ++ [':'] <+: s → isScheme before = false) (before : List Char)
    (start : before ++ [':'] <+: s ++ closing) : isScheme before = false := by
  rcases List.prefix_or_prefix_of_prefix start (List.prefix_append s closing) with inside | across
  · exact unnamed before inside
  rcases List.prefix_concat_iff.mp across with rfl | across
  · exact unnamed before (List.prefix_refl _)
  obtain ⟨beyond, rfl⟩ := across
  rw [List.append_assoc, List.prefix_append_right_inj] at start
  obtain ⟨after, rfl⟩ := start
  cases beyond with
  | nil => exact absurd (closes ':' rfl) (by decide)
  | cons c beyond =>
    rw [Bool.eq_false_iff]
    intro isScheme
    have ends := closes c rfl
    have allowed := isSchemeChar_of_mem isScheme c (by simp)
    simp only [endsAuthority, Bool.or_eq_true, decide_eq_true_eq] at ends
    rcases ends with (rfl | rfl) | rfl <;> exact absurd allowed (by decide)

theorem unnamed_slash (s : List Char) (before : List Char) (start : before ++ [':'] <+: '/' :: s) :
    isScheme before = false := by
  cases before with
  | nil => rfl
  | cons c before =>
    obtain ⟨rfl, -⟩ := List.cons_prefix_cons.mp start
    rfl

variable {parts : Parts}

section

variable (isSplit : parts.IsSplit)

include isSplit

theorem Parts.IsSplit.takeScheme_start {body : List Char}
    (unnamed : parts.scheme = [] → ∀ before, before ++ [':'] <+: body → isScheme before = false) :
    takeScheme (parts.start ++ (body ++ parts.tail)) = (parts.scheme, body ++ parts.tail) := by
  rcases isSplit.scheme with none | ⟨isScheme, small⟩
  · rw [show parts.start = [] by simp [Parts.start, none], List.nil_append, none]
    exact takeScheme_eq_self (unnamed_append parts.isClosing_tail (unnamed none))
  · have start : parts.start = parts.scheme ++ [':'] := by
      cases scheme : parts.scheme with
      | nil => simp [scheme, Url.isScheme] at isScheme
      | cons c s => simp [Parts.start, scheme]
    rw [start, List.append_assoc]
    refine (takeScheme_append isScheme _).trans ?_
    rw [small]
    rfl

theorem Parts.IsSplit.plain_start : ∀ c ∈ parts.start, isLineControl c = false := by
  rcases isSplit.scheme with none | ⟨isScheme, -⟩
  · simp [Parts.start, none]
  · intro c member
    unfold Parts.start at member
    split at member
    · cases member
    · rcases List.mem_append.mp member with inside | colon
      · exact isLineControl_eq_false (by decide) (isSchemeChar_of_mem isScheme c inside)
      · rw [List.mem_singleton.mp colon]
        rfl

theorem Parts.IsSplit.plain_tail : ∀ c ∈ parts.tail, isLineControl c = false := by
  have plain := isSplit.plain
  simp only [List.forall_mem_append] at plain
  have behind {mark : Char} {part : List Char} (isMark : isLineControl mark = false)
      (each : ∀ c ∈ part, isLineControl c = false) :
      ∀ c ∈ marked mark part, isLineControl c = false := by
    unfold marked
    split
    · simp
    · exact List.forall_mem_cons.mpr ⟨isMark, each⟩
  exact List.forall_mem_append.mpr ⟨behind rfl plain.1.2, behind rfl plain.2⟩

/-- A URL is read from its scheme on when its body holds nothing that would be dropped. -/
theorem Parts.IsSplit.split_text {body authority path : List Char}
    (plain : ∀ c ∈ body, isLineControl c = false)
    (unnamed : parts.scheme = [] → ∀ before, before ++ [':'] <+: body → isScheme before = false)
    (authorised : takeAuthority (body ++ parts.tail) = (authority, path ++ parts.tail))
    (unmarked : '#' ∉ path ∧ '?' ∉ path) :
    split (parts.start ++ (body ++ parts.tail)) =
      (checkAuthority authority).map fun _ => { parts with authority, path } := by
  have kept : (parts.start ++ (body ++ parts.tail)).filter (!isLineControl ·) =
      parts.start ++ (body ++ parts.tail) := by
    refine List.filter_eq_self.mpr fun c member => ?_
    have each : isLineControl c = false := by
      simp only [List.mem_append] at member
      rcases member with start | inside | tail
      · exact isSplit.plain_start c start
      · exact plain c inside
      · exact isSplit.plain_tail c tail
    simp [each]
  have noHash : '#' ∉ path ++ marked '?' parts.query := by
    have absent := isSplit.query
    unfold marked
    split <;> simp [unmarked.1, absent]
  have fragment : cutAt '#' (path ++ parts.tail) =
      (path ++ marked '?' parts.query, parts.fragment) := by
    rw [Parts.tail, ← List.append_assoc]
    exact cutAt_marked noHash _
  have query : cutAt '?' (path ++ marked '?' parts.query) = (path, parts.query) :=
    cutAt_marked unmarked.2 _
  simp only [split, kept, isSplit.takeScheme_start unnamed, authorised, fragment, query]
  cases checkAuthority authority <;> rfl

end

theorem span_rooted {authority path : List Char} (plain : ∀ c ∈ authority, endsAuthority c = false)
    (rooted : path = [] ∨ ['/'] <+: path) :
    (authority ++ path).takeWhile (!endsAuthority ·) = authority ∧
      (authority ++ path).dropWhile (!endsAuthority ·) = path := by
  have all : ∀ c ∈ authority, (!endsAuthority c) = true := fun c member => by
    rw [plain c member]
    rfl
  rw [List.takeWhile_append_of_pos all, List.dropWhile_append_of_pos all]
  rcases rooted with rfl | ⟨rest, rfl⟩
  · simp
  · simp [endsAuthority]

/-- A body behind two slashes is read as an authority and a path. -/
theorem Parts.IsSplit.split_slashes (isSplit : parts.IsSplit) {authority path : List Char}
    (ends : ∀ c ∈ authority, endsAuthority c = false) (rooted : path = [] ∨ ['/'] <+: path)
    (plain : ∀ c ∈ authority ++ path, isLineControl c = false)
    (unmarked : '#' ∉ path ∧ '?' ∉ path) :
    split (parts.start ++ ('/' :: '/' :: (authority ++ path) ++ parts.tail)) =
      (checkAuthority authority).map fun _ => { parts with authority, path } := by
  obtain ⟨taken, left⟩ := span_rooted ends rooted
  refine isSplit.split_text ?_ (fun _ before start => unnamed_slash _ before start) ?_ unmarked
  · exact List.forall_mem_cons.mpr ⟨rfl, List.forall_mem_cons.mpr ⟨rfl, plain⟩⟩
  · rw [List.cons_append, List.cons_append, takeAuthority_append _ parts.isClosing_tail, taken,
      left]

theorem Parts.takeAuthority_path (parts : Parts) (noSlashes : ¬ ['/', '/'] <+: parts.path) :
    takeAuthority (parts.path ++ parts.tail) = ([], parts.path ++ parts.tail) := by
  refine takeAuthority_eq_self fun start => noSlashes ?_
  rcases parts.tail_cases with none | ⟨c, after, tail, isMark⟩
  · rwa [none, List.append_nil] at start
  · rw [tail] at start
    exact Text.prefix_of_prefix_append_cons (by rcases isMark with rfl | rfl <;> decide) _ start

/-- A path that starts with two slashes is read as an authority and a shorter path. -/
theorem Parts.IsSplit.split_slashes_ne (isSplit : parts.IsSplit) {rest : List Char}
    (isPath : parts.path = '/' :: '/' :: rest) :
    split (parts.start ++ (parts.path ++ parts.tail)) ≠ .ok parts := by
  have plain := isSplit.plain
  simp only [List.forall_mem_append] at plain
  have absent (mark : Char) (absent : mark ∉ parts.path) :
      mark ∉ rest.dropWhile (!endsAuthority ·) := fun member => absent <| by
    rw [isPath]
    exact List.mem_cons_of_mem _ (List.mem_cons_of_mem _ ((List.dropWhile_sublist _).subset member))
  have authorised : takeAuthority (parts.path ++ parts.tail) =
      (rest.takeWhile (!endsAuthority ·), rest.dropWhile (!endsAuthority ·) ++ parts.tail) := by
    rw [isPath]
    exact takeAuthority_append rest parts.isClosing_tail
  rw [isSplit.split_text plain.1.1.2 isSplit.unnamed authorised
    ⟨absent '#' isSplit.path.1, absent '?' isSplit.path.2⟩]
  intro same
  obtain ⟨-, -, same⟩ := exists_of_map_eq_ok same
  have shorter : (rest.dropWhile (!endsAuthority ·)).length ≤ rest.length :=
    (List.dropWhile_sublist _).length_le
  rw [show rest.dropWhile (!endsAuthority ·) = parts.path from congrArg Parts.path same, isPath,
    List.length_cons, List.length_cons] at shorter
  omega

/-- Behind an empty authority a path is found again unless it is given a slash. -/
theorem Parts.IsSplit.split_joinAuthority_nil (isSplit : parts.IsSplit)
    (unauthorised : parts.authority = []) :
    split (parts.start ++ (joinAuthority [] parts.path ++ parts.tail)) = .ok parts ↔
      parts.path = [] ∨ ['/'] <+: parts.path := by
  have plain := isSplit.plain
  simp only [List.forall_mem_append] at plain
  by_cases rooted : parts.path = [] ∨ ['/'] <+: parts.path
  · have text : joinAuthority [] parts.path = '/' :: '/' :: ([] ++ parts.path) := by
      rcases rooted with none | ⟨rest, isPath⟩
      · rw [none]
        rfl
      · rw [← isPath]
        rfl
    have whole : ({ parts with authority := [] } : Parts) = parts := by rw [← unauthorised]
    rw [text, isSplit.split_slashes (by simp) rooted (by simpa using plain.1.1.2) isSplit.path]
    exact iff_of_true (congrArg Except.ok whole) rooted
  · have text : joinAuthority [] parts.path = '/' :: '/' :: ([] ++ '/' :: parts.path) := by
      cases isPath : parts.path with
      | nil => exact absurd (.inl isPath) rooted
      | cons c rest =>
        have other : c ≠ '/' := fun same => rooted (.inr ⟨rest, by rw [isPath, same]; rfl⟩)
        simp [joinAuthority, other]
    have slash : ['/'] <+: '/' :: parts.path := ⟨parts.path, rfl⟩
    have plainPath : ∀ c ∈ [] ++ '/' :: parts.path, isLineControl c = false :=
      List.forall_mem_cons.mpr ⟨rfl, plain.1.1.2⟩
    rw [text, isSplit.split_slashes (by simp) (.inr slash) plainPath (by simpa using isSplit.path)]
    refine iff_of_false (fun same => ?_) rooted
    have longer : '/' :: parts.path = parts.path := congrArg Parts.path (Except.ok.inj same)
    exact List.cons_ne_self _ _ longer

/-- Parts of a split URL are found again exactly if nothing in them is taken for something else. -/
theorem Parts.IsSplit.split_join_iff (isSplit : parts.IsSplit) :
    split (join parts) = .ok parts ↔ parts.Rejoins := by
  have plain := isSplit.plain
  simp only [List.forall_mem_append] at plain
  rw [join_eq, Parts.Rejoins]
  by_cases unauthorised : parts.authority = []
  · by_cases slashes : ['/', '/'] <+: parts.path
    · obtain ⟨rest, isPath⟩ := slashes
      have body : parts.body = parts.path := by
        rw [Parts.body, if_neg (by simp [unauthorised, ← isPath])]
      rw [body]
      exact iff_of_false (isSplit.split_slashes_ne isPath.symm) fun kept =>
        kept.elim (· unauthorised) fun kept => kept.1 ⟨rest, isPath⟩
    by_cases always : authoritySchemes.contains (String.ofList parts.scheme) = true
    · have body : parts.body = joinAuthority [] parts.path := by
        rw [Parts.body, if_pos (.inr ⟨always, slashes⟩), unauthorised]
      rw [body, isSplit.split_joinAuthority_nil unauthorised]
      exact ⟨fun rooted => .inr ⟨slashes, fun _ => rooted⟩, fun kept =>
        kept.elim (absurd unauthorised) fun kept => kept.2 always⟩
    · have body : parts.body = parts.path := by
        refine if_neg fun joined => ?_
        exact joined.elim (· unauthorised) fun joined => always joined.1
      rw [body, isSplit.split_text plain.1.1.2 isSplit.unnamed (parts.takeAuthority_path slashes)
        isSplit.path]
      have whole : ({ parts with authority := [] } : Parts) = parts := by rw [← unauthorised]
      exact iff_of_true (congrArg Except.ok whole)
        (.inr ⟨slashes, fun known => absurd known always⟩)
  · have rooted := isSplit.rooted unauthorised
    have body : parts.body = '/' :: '/' :: (parts.authority ++ parts.path) := by
      rw [Parts.body, if_pos (.inl unauthorised), joinAuthority]
      rcases rooted with none | ⟨rest, isPath⟩
      · simp [none]
      · simp [← isPath]
    rw [body, isSplit.split_slashes isSplit.authority rooted
      (List.forall_mem_append.mpr plain.1.1) isSplit.path, isSplit.checked]
    exact iff_of_true rfl (.inl unauthorised)

/-! ## Splitting -/

theorem notMem_of_splitAtMark? {mark : Char} {s before after : List Char}
    (found : Text.splitAtMark? [mark] s = some (before, after)) : mark ∉ before := by
  induction s generalizing before with
  | nil => cases found
  | cons c s ih =>
    unfold Text.splitAtMark? at found
    split at found
    · cases found
      simp
    next absent =>
      obtain ⟨⟨front, back⟩, later, same⟩ := Option.map_eq_some_iff.mp found
      cases same
      have other : mark ≠ c := by
        rintro rfl
        simp [Text.dropMark?] at absent
      exact List.not_mem_cons_of_ne_of_not_mem other (ih later)

/-- What a mark cuts a text into. -/
theorem cutAt_spec (mark : Char) (s : List Char) :
    mark ∉ (cutAt mark s).1 ∧ (cutAt mark s).1 <+: s ∧ (cutAt mark s).2 <:+ s := by
  unfold cutAt
  split
  next parts found =>
    have whole := Text.splitAtMark?_eq_some found
    refine ⟨notMem_of_splitAtMark? found, ?_, parts.1 ++ [mark], whole.symm⟩
    rw [whole, List.append_assoc]
    exact List.prefix_append ..
  next absent =>
    refine ⟨fun member => ?_, List.prefix_refl s, List.nil_suffix⟩
    have found := Text.isSome_splitAtMark?_iff.mpr ((List.singleton_infix_iff _ _).mpr member)
    rw [absent] at found
    cases found

theorem lowerAscii_letter {c : Char} (letter : Text.isAsciiLetter c = true) :
    Text.isAsciiLetter (Text.lowerAscii c) = true ∧
      Text.lowerAscii (Text.lowerAscii c) = Text.lowerAscii c := by
  have capitals : ∀ n ≤ 90, 65 ≤ n → Text.isAsciiLetter (Char.ofNat (n + 32)) = true ∧
      Text.lowerAscii (Char.ofNat (n + 32)) = Char.ofNat (n + 32) := by decide
  by_cases capital : (65 ≤ c.toNat && c.toNat ≤ 90) = true
  · simp only [Bool.and_eq_true, decide_eq_true_eq] at capital
    have small : Text.lowerAscii c = Char.ofNat (c.toNat + 32) := by simp [Text.lowerAscii, capital]
    rw [small]
    exact capitals _ capital.2 capital.1
  · have same : Text.lowerAscii c = c := if_neg capital
    rw [same]
    exact ⟨letter, same⟩

theorem lowerAscii_schemeChar {c : Char} (allowed : isSchemeChar c = true) :
    isSchemeChar (Text.lowerAscii c) = true ∧
      Text.lowerAscii (Text.lowerAscii c) = Text.lowerAscii c := by
  by_cases letter : Text.isAsciiLetter c = true
  · obtain ⟨stays, same⟩ := lowerAscii_letter letter
    exact ⟨by simp [isSchemeChar, Text.isAsciiAlphanumeric, stays], same⟩
  · have same : Text.lowerAscii c = c := by
      refine if_neg fun capital => letter ?_
      simp only [Bool.and_eq_true, decide_eq_true_eq] at capital
      simp [Text.isAsciiLetter, capital]
    rw [same]
    exact ⟨allowed, same⟩

theorem isScheme_small {scheme : List Char} (named : isScheme scheme = true) :
    isScheme (scheme.map Text.lowerAscii) = true ∧
      (scheme.map Text.lowerAscii).map Text.lowerAscii = scheme.map Text.lowerAscii := by
  have each := isSchemeChar_of_mem named
  have allowed : (scheme.map Text.lowerAscii).all isSchemeChar = true := by
    rw [List.all_map, List.all_eq_true]
    exact fun c member => (lowerAscii_schemeChar (each c member)).1
  constructor
  · cases scheme with
    | nil => cases named
    | cons c scheme =>
      simp only [isScheme, Bool.and_eq_true] at named
      exact Bool.and_eq_true_iff.mpr ⟨(lowerAscii_letter named.1).1, allowed⟩
  · rw [List.map_map, List.map_inj_left]
    exact fun c member => (lowerAscii_schemeChar (each c member)).2

/-- What is read as the scheme, and what is left of the text. -/
theorem takeScheme_spec (s : List Char) :
    ((takeScheme s).1 = [] ∨ isScheme (takeScheme s).1 = true ∧
        (takeScheme s).1.map Text.lowerAscii = (takeScheme s).1) ∧
      ((takeScheme s).1 = [] →
        ∀ before, before ++ [':'] <+: (takeScheme s).2 → isScheme before = false) ∧
      (takeScheme s).2 <:+ s := by
  rcases scheme_or_unnamed s with ⟨scheme, rest, named, rfl⟩ | unnamed
  · rw [takeScheme_append named]
    refine ⟨.inr (isScheme_small named), fun none => ?_, scheme ++ [':'], by simp⟩
    rw [List.map_eq_nil_iff.mp none] at named
    cases named
  · rw [takeScheme_eq_self unnamed]
    exact ⟨.inl rfl, fun _ => unnamed, List.suffix_refl s⟩

/-- What is read as the authority, and what is left of the text. -/
theorem takeAuthority_spec (s : List Char) :
    (∀ c ∈ (takeAuthority s).1, endsAuthority c = false ∧ c ∈ s) ∧
      (takeAuthority s = ([], s) ∨ IsClosing (takeAuthority s).2) ∧ (takeAuthority s).2 <:+ s := by
  by_cases slashes : ['/', '/'] <+: s
  · obtain ⟨rest, rfl⟩ := slashes
    have read : takeAuthority (['/', '/'] ++ rest) =
        (rest.takeWhile (!endsAuthority ·), rest.dropWhile (!endsAuthority ·)) :=
      List.span_eq_takeWhile_dropWhile ..
    rw [read]
    refine ⟨fun c member => ⟨?_, ?_⟩, .inr fun c first => ?_, ?_⟩
    · simpa using List.mem_takeWhile_imp member
    · exact List.mem_append_right _ ((List.takeWhile_sublist _).subset member)
    · have stops := List.head?_dropWhile_not (!endsAuthority ·) rest
      rw [first] at stops
      simpa using stops
    · exact (List.dropWhile_suffix _).trans (List.suffix_append ..)
  · rw [takeAuthority_eq_self slashes]
    exact ⟨by simp, .inl rfl, List.suffix_refl s⟩

/-- A path that stands where an authority ends is empty or starts with a slash. -/
theorem rooted_of_isClosing {path s : List Char} (closes : IsClosing s) (start : path <+: s)
    (unmarked : '#' ∉ path ∧ '?' ∉ path) : path = [] ∨ ['/'] <+: path := by
  cases path with
  | nil => exact .inl rfl
  | cons c path =>
    obtain ⟨rest, rfl⟩ := start
    have ends := closes c rfl
    simp only [endsAuthority, Bool.or_eq_true, decide_eq_true_eq] at ends
    rcases ends with (rfl | rfl) | rfl
    · exact .inr ⟨path, rfl⟩
    · exact absurd (List.mem_cons_self ..) unmarked.2
    · exact absurd (List.mem_cons_self ..) unmarked.1

theorem unnamed_of_rooted {path : List Char} (rooted : path = [] ∨ ['/'] <+: path)
    (before : List Char) (start : before ++ [':'] <+: path) : isScheme before = false := by
  rcases rooted with rfl | ⟨rest, rfl⟩
  · simp at start
  · exact unnamed_slash rest before start

theorem isSplit_of_split {url : List Char} (done : split url = .ok parts) : parts.IsSplit := by
  have plain : ∀ c ∈ url.filter (!isLineControl ·), isLineControl c = false := fun c member => by
    simpa using (List.mem_filter.mp member).2
  unfold split at done
  generalize url.filter (!isLineControl ·) = s at done plain
  obtain ⟨isScheme, unnamed, inText⟩ := takeScheme_spec s
  dsimp only at done
  generalize (takeScheme s).1 = scheme, (takeScheme s).2 = rest at done isScheme unnamed inText
  obtain ⟨isAuthority, left, inRest⟩ := takeAuthority_spec rest
  obtain ⟨⟨⟩, checked, done⟩ := exists_of_bind_eq_ok done
  obtain ⟨noHash, front, isFragment⟩ := cutAt_spec '#' (takeAuthority rest).2
  obtain ⟨noMark, isPath, isQuery⟩ := cutAt_spec '?' (cutAt '#' (takeAuthority rest).2).1
  obtain rfl := Except.ok.inj done
  have plainRest : ∀ c ∈ rest, isLineControl c = false := fun c member =>
    plain c (inText.subset member)
  have plainFront : ∀ c ∈ (cutAt '#' (takeAuthority rest).2).1, isLineControl c = false :=
    fun c member => plainRest c (inRest.subset (front.subset member))
  have unmarked : '#' ∉ (cutAt '?' (cutAt '#' (takeAuthority rest).2).1).1 ∧
      '?' ∉ (cutAt '?' (cutAt '#' (takeAuthority rest).2).1).1 :=
    ⟨fun member => noHash (isPath.subset member), noMark⟩
  have stands := isPath.trans front
  refine
    { scheme := isScheme
      unnamed := fun none before start => ?_
      authority := fun c member => (isAuthority c member).1
      checked := checked
      rooted := fun authorised => ?_
      path := unmarked
      query := fun member => noHash (isQuery.subset member)
      plain := ?_ }
  · rcases left with none' | closes
    · have start := start.trans stands
      rw [none'] at start
      exact unnamed none before start
    · exact unnamed_of_rooted (rooted_of_isClosing closes stands unmarked) before start
  · rcases left with none | closes
    · exact absurd (congrArg Prod.fst none) authorised
    · exact rooted_of_isClosing closes stands unmarked
  · simp only [List.forall_mem_append]
    exact ⟨⟨⟨fun c member => plainRest c (isAuthority c member).2,
      fun c member => plainFront c (isPath.subset member)⟩,
      fun c member => plainFront c (isQuery.subset member)⟩,
      fun c member => plainRest c (inRest.subset (isFragment.subset member))⟩

/-! ## Another extension -/

theorem splitExtension?_eq_some {path stem ext : List Char}
    (found : splitExtension? path = some (stem, ext)) :
    path = stem ++ '.' :: ext ∧ ext ≠ [] ∧ ∀ c ∈ ext, Text.isAsciiAlphanumeric c = true := by
  unfold splitExtension? at found
  rw [List.span_eq_takeWhile_dropWhile] at found
  have whole := List.takeWhile_append_dropWhile (p := Text.isAsciiAlphanumeric) (l := path.reverse)
  have each : ∀ c ∈ path.reverse.takeWhile Text.isAsciiAlphanumeric,
      Text.isAsciiAlphanumeric c = true := fun c member => List.mem_takeWhile_imp member
  generalize path.reverse.takeWhile Text.isAsciiAlphanumeric = reversed,
    path.reverse.dropWhile Text.isAsciiAlphanumeric = rest at found whole each
  dsimp only at found
  split at found
  · cases found
  next filled =>
    cases found
    refine ⟨?_, by simpa using filled, by simpa using each⟩
    rw [← List.reverse_reverse path, ← whole]
    simp
  · cases found

/-- The parts with another extension of the path; without an extension there is none to replace. -/
def Parts.withExtension (parts : Parts) (other : List Char) : Parts :=
  match splitExtension? parts.path with
  | some (stem, _) => { parts with path := stem ++ '.' :: other }
  | none => parts

theorem prefix_append_dot_iff {mark : List Char} (absent : '.' ∉ mark)
    (stem ext other : List Char) :
    mark <+: stem ++ '.' :: ext ↔ mark <+: stem ++ '.' :: other := by
  have inStem (ending : List Char) : mark <+: stem ++ '.' :: ending ↔ mark <+: stem :=
    ⟨Text.prefix_of_prefix_append_cons absent stem,
      fun start => start.trans (List.prefix_append ..)⟩
  rw [inStem, inStem]

/-- A text that ends with a character which what follows lacks ends in front of that. -/
theorem prefix_of_prefix_append {c : Char} {before stem after : List Char} (absent : c ∉ after)
    (start : before ++ [c] <+: stem ++ after) : before ++ [c] <+: stem := by
  rcases List.prefix_or_prefix_of_prefix start (List.prefix_append stem after) with inside | across
  · exact inside
  rcases List.prefix_concat_iff.mp across with rfl | ⟨beyond, rfl⟩
  · exact List.prefix_refl _
  · rw [List.append_assoc, List.prefix_append_right_inj] at start
    exact absurd (start.subset (by simp)) absent

/-- Another extension leaves the parts as splitting gives them. -/
theorem Parts.IsSplit.replaceExtension (isSplit : parts.IsSplit) {stem ext other : List Char}
    (isPath : parts.path = stem ++ '.' :: ext)
    (plain : ∀ c ∈ other, Text.isAsciiAlphanumeric c = true) :
    Parts.IsSplit { parts with path := stem ++ '.' :: other } := by
  have dotless (mark : Char) (special : Text.isAsciiAlphanumeric mark = false) (dot : mark ≠ '.')
      (absent : mark ∉ parts.path) : mark ∉ stem ++ '.' :: other := by
    have inStem : mark ∉ stem := fun member => absent (by simp [isPath, member])
    have inOther : mark ∉ other := fun member => by simp [plain mark member] at special
    simp [inStem, inOther, dot]
  have isPlain := isSplit.plain
  simp only [isPath, List.forall_mem_append, List.forall_mem_cons] at isPlain
  have plainOther : ∀ c ∈ other, isLineControl c = false := fun c member =>
    isLineControl_eq_false (by decide) (plain c member)
  refine { isSplit with unnamed := fun none before start => ?_, rooted := fun authorised => ?_,
                        path := ?_, plain := ?_ }
  · have noColon : ':' ∉ '.' :: other := fun member => by
      rcases List.mem_cons.mp member with same | inOther
      · cases same
      · exact absurd (plain ':' inOther) (by decide)
    have inStem : before ++ [':'] <+: stem := prefix_of_prefix_append noColon start
    refine isSplit.unnamed none before ?_
    rw [isPath]
    exact inStem.trans (List.prefix_append ..)
  · have rooted := isSplit.rooted authorised
    rw [isPath, prefix_append_dot_iff (by decide) stem ext other] at rooted
    simpa using rooted
  · exact ⟨dotless '#' rfl (by decide) isSplit.path.1, dotless '?' rfl (by decide) isSplit.path.2⟩
  · simp only [List.forall_mem_append, List.forall_mem_cons]
    exact ⟨⟨⟨isPlain.1.1.1, isPlain.1.1.2.1, rfl, plainOther⟩, isPlain.1.2⟩, isPlain.2⟩

theorem Parts.rejoins_replaceExtension_iff {stem ext : List Char}
    (isPath : parts.path = stem ++ '.' :: ext) (other : List Char) :
    Parts.Rejoins { parts with path := stem ++ '.' :: other } ↔ parts.Rejoins := by
  unfold Parts.Rejoins
  simp only [isPath]
  rw [prefix_append_dot_iff (show '.' ∉ ['/', '/'] by decide) stem ext other,
    prefix_append_dot_iff (show '.' ∉ ['/'] by decide) stem ext other]
  simp

end StaticSite.Url
