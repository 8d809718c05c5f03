import StaticSite.Proofs.KeptTokens
import StaticSite.Proofs.SheetRoundTrip

/-!
# Sheets that keep their tokens

A sheet is written piece by piece, and outside of the values of its declarations nothing stands in it
that reducing gets wrong. So a page's sheet keeps its tokens if each value does that its components
give. A value with two blanks in a string does not.
-/

namespace StaticSite.Style

open Text (isNameChar isSpelling)

/-- What holds of nothing and of two texts one after the other holds of texts in a row. -/
theorem of_flatMap {α : Type} {P : List Char → Prop} (nil : P [])
    (append : ∀ s t, P s → P t → P (s ++ t)) {l : List α} {f : α → List Char}
    (each : ∀ a ∈ l, P (f a)) : P (l.flatMap f) := by
  induction l with
  | nil => exact nil
  | cons a l ih =>
    obtain ⟨here, later⟩ := List.forall_mem_cons.mp each
    exact append _ _ here (ih later)

/-! ## Pieces -/

/-- A calm text that has no part in a comment and ends outside of words, strings and escapes. -/
structure IsSteady (s : List Char) : Prop where
  dropped : ∀ t, dropComments (s ++ t) = s ++ dropComments t
  apart : ∀ t, isApartFrom {} 0 (s ++ t) = isApartFrom {} 0 t
  calm : isCalmFrom {} true s = true
  ends : (tokenizer.run {} s).1 = {}

/-- What can be seen of a text to tell that it is steady. -/
structure IsCalmPiece (piece : List Char) : Prop where
  noMark : ¬ ['/', '*'] <:+: piece
  noSlash : piece.getLast? ≠ some '/'
  calm : isCalmFrom {} true piece = true
  ends : (tokenizer.run {} piece).1 = {}

instance (piece : List Char) : Decidable (IsCalmPiece piece) :=
  decidable_of_iff (¬ ['/', '*'] <:+: piece ∧ piece.getLast? ≠ some '/' ∧
      isCalmFrom {} true piece = true ∧ (tokenizer.run {} piece).1 = {})
    ⟨fun ⟨noMark, noSlash, calm, ends⟩ => ⟨noMark, noSlash, calm, ends⟩,
      fun piece => ⟨piece.noMark, piece.noSlash, piece.calm, piece.ends⟩⟩

section

variable {scanner : Scanner} {c : Char} {s t : List Char}

theorem isCalmFrom_start (after before : Bool) (s : List Char) :
    isCalmFrom {} after s = isCalmFrom {} before s := by
  cases s with
  | nil => rfl
  | cons c s =>
    have nothing : ({} : Scanner).step ' ' = ({}, []) := rfl
    simp [isCalmFrom, Scanner.isCalm, Scanner.isHeld, nothing]

/-- What is calm in front of a text is calm in front of a longer one. -/
theorem Scanner.isCalm_append {after : Bool} (calm : scanner.isCalm after c s = true) (t : List Char) :
    scanner.isCalm after c (s ++ t) = true := by
  cases s with
  | nil =>
    rw [isCalm] at calm ⊢
    split
    next held =>
      rw [if_pos held] at calm
      obtain ⟨blanks, semicolon⟩ := by simpa using calm
      simp [blanks, semicolon]
    next free => rwa [if_neg free] at calm
  | cons d s => exact calm

theorem isCalmFrom_append {after : Bool} (front : isCalmFrom scanner after s = true)
    (ends : (tokenizer.run scanner s).1 = {}) (back : isCalmFrom {} true t = true) :
    isCalmFrom scanner after (s ++ t) = true := by
  induction s generalizing scanner after with
  | nil =>
    have isStart : scanner = {} := ends
    rw [isStart, List.nil_append, isCalmFrom_start after true]
    exact back
  | cons c s ih =>
    obtain ⟨here, later⟩ := Bool.and_eq_true_iff.mp front
    exact Bool.and_eq_true_iff.mpr ⟨Scanner.isCalm_append here t, ih later ends⟩

/-- A piece without comments takes no part in those behind it. -/
theorem dropComments_append (noMark : ¬ ['/', '*'] <:+: s) (noSlash : s.getLast? ≠ some '/')
    (t : List Char) : dropComments (s ++ t) = s ++ dropComments t ∧
      ∀ scanner, isApartFrom scanner 0 (s ++ t) = isApartFrom (tokenizer.run scanner s).1 0 t := by
  induction s with
  | nil => exact ⟨rfl, fun _ => rfl⟩
  | cons c s ih =>
    have absent : comment? (c :: (s ++ t)) = none := by
      rw [← Option.not_isSome_iff_eq_none, Option.isSome_iff_exists]
      rintro ⟨⟨inside, rest⟩, found⟩
      obtain ⟨isSlash, behind⟩ := List.cons.inj (eq_of_comment? found)
      cases s with
      | nil => exact noSlash (by rw [isSlash]; rfl)
      | cons d s =>
        obtain ⟨isStar, -⟩ := List.cons.inj behind
        exact noMark ⟨[], s, by rw [isSlash, isStar]; rfl⟩
    have noSlashLater : s.getLast? ≠ some '/' := fun isLast =>
      noSlash (by rw [List.getLast?_cons, isLast]; rfl)
    obtain ⟨dropped, apart⟩ := ih
      (fun within => noMark (within.trans (List.suffix_cons ..).isInfix)) noSlashLater
    refine ⟨by rw [List.cons_append, dropComments_cons absent, dropped, List.cons_append],
      fun scanner => ?_⟩
    rw [List.cons_append, isApartFrom, absent]
    exact apart _

theorem IsCalmPiece.isSteady (piece : IsCalmPiece s) : IsSteady s := by
  refine ⟨fun t => (dropComments_append piece.noMark piece.noSlash t).1, fun t => ?_, piece.calm,
    piece.ends⟩
  rw [(dropComments_append piece.noMark piece.noSlash t).2, piece.ends]

namespace IsSteady

theorem nil : IsSteady [] := ⟨fun _ => rfl, fun _ => rfl, rfl, rfl⟩

theorem append (front : IsSteady s) (back : IsSteady t) : IsSteady (s ++ t) := by
  refine ⟨fun rest => ?_, fun rest => ?_, isCalmFrom_append front.calm front.ends back.calm, ?_⟩
  · rw [List.append_assoc, front.dropped, back.dropped, List.append_assoc]
  · rw [List.append_assoc, front.apart, back.apart]
  · have whole : tokenizer.run {} (s ++ t) = _ :=
      Machine.run_append (Prod.ext front.ends rfl) (Prod.ext back.ends rfl)
    rw [whole]

theorem flatMap {α : Type} {l : List α} {f : α → List Char} (each : ∀ a ∈ l, IsSteady (f a)) :
    IsSteady (l.flatMap f) :=
  of_flatMap nil (fun _ _ => append) each

end IsSteady

end

/-! ## Pieces without values -/

/-- A character of words, or one that ends them. -/
def isQuiet (c : Char) : Bool := isPlain c && (!Text.isBlank c || isSpace c)

section

variable {c e : Char} {s text : List Char}

theorem isQuiet_of_isSpelling (spelled : isSpelling c = true) : isQuiet c = true := by
  have plain := (Counts.isPlain_of_isInert (isInert_of_isSpelling spelled)).1
  rw [isQuiet, plain, (not_unsafe_of_isSpelling spelled).2]
  rfl

theorem step_of_isQuiet (quiet : isQuiet c = true) (text : List Char) :
    Scanner.step ⟨.code, text⟩ c =
      if isSpace c then ({}, wordEnd text)
      else if isPunctuation c then ({}, wordEnd text ++ [.mark c])
      else (⟨.code, text ++ [c]⟩, []) := by
  simp only [isQuiet, isPlain, Bool.and_eq_true, decide_eq_true_eq] at quiet
  obtain ⟨⟨⟨⟨slash, double⟩, single⟩, backslash⟩, -⟩ := quiet
  simp [Scanner.step, Scanner.codeStep, slash, double, single, backslash]

theorem isCalm_of_isQuiet {after : Bool} (quiet : isQuiet c = true) (apart : after = true → text = [])
    (s : List Char) : Scanner.isCalm ⟨.code, text⟩ after c s = true := by
  have space : Scanner.step ⟨.code, text⟩ ' ' = ({}, wordEnd text) := rfl
  have free : Scanner.isHeld ⟨.code, text⟩ = false := rfl
  rw [Scanner.isCalm, free]
  cases blank : Text.isBlank c with
  | false => rfl
  | true =>
    have isSpace : isSpace c = true := by simpa [isQuiet, blank] using (Bool.and_eq_true_iff.mp quiet).2
    rw [step_of_isQuiet quiet, if_pos isSpace, space]
    cases after with
    | false => simp
    | true => simp [apart rfl, wordEnd]

theorem step_of_isQuiet_end (quietEnd : isQuiet e = true)
    (ends : isSpace e = true ∨ isPunctuation e = true) (text : List Char) :
    (Scanner.step ⟨.code, text⟩ e).1 = {} := by
  rw [step_of_isQuiet quietEnd]
  rcases ends with space | mark
  · rw [if_pos space]
  · rw [if_pos mark]
    split <;> rfl

theorem exists_step_of_isQuiet (quiet : isQuiet c = true) (text : List Char) :
    ∃ next, (Scanner.step ⟨.code, text⟩ c).1 = ⟨.code, next⟩ ∧
      (isPunctuation c = true → next = []) := by
  rw [step_of_isQuiet quiet]
  split_ifs with space mark
  · exact ⟨[], rfl, fun _ => rfl⟩
  · exact ⟨[], rfl, fun _ => rfl⟩
  · exact ⟨text ++ [c], rfl, fun isMark => absurd isMark mark⟩

/-- Over quiet characters the tokenizer stays at a word, which is empty behind punctuation. -/
theorem isCalmFrom_of_isQuiet {after : Bool} (quiet : ∀ c ∈ s, isQuiet c = true)
    (quietEnd : isQuiet e = true) (ends : isSpace e = true ∨ isPunctuation e = true)
    (apart : after = true → text = []) :
    isCalmFrom ⟨.code, text⟩ after (s ++ [e]) = true ∧
      (tokenizer.run ⟨.code, text⟩ (s ++ [e])).1 = {} := by
  induction s generalizing after text with
  | nil =>
    exact ⟨Bool.and_eq_true_iff.mpr ⟨isCalm_of_isQuiet quietEnd apart [], rfl⟩,
      step_of_isQuiet_end quietEnd ends text⟩
  | cons c s ih =>
    obtain ⟨here, later⟩ := List.forall_mem_cons.mp quiet
    obtain ⟨next, step, apartNext⟩ := exists_step_of_isQuiet here text
    obtain ⟨calm, ended⟩ := ih later apartNext
    rw [← step] at calm ended
    exact ⟨Bool.and_eq_true_iff.mpr ⟨isCalm_of_isQuiet here apart _, calm⟩, ended⟩

/-- Quiet characters up to the end of a word are a calm piece. -/
theorem isCalmPiece_of_isQuiet (quiet : ∀ c ∈ s, isQuiet c = true) (quietEnd : isQuiet e = true)
    (ends : isSpace e = true ∨ isPunctuation e = true) : IsCalmPiece (s ++ [e]) := by
  have all : ∀ c ∈ s ++ [e], isQuiet c = true :=
    List.forall_mem_append.mpr ⟨quiet, List.forall_mem_singleton.mpr quietEnd⟩
  have noSlash : '/' ∉ s ++ [e] := fun member => Bool.noConfusion (all '/' member)
  have start : true = true → ([] : List Char) = [] := fun _ => rfl
  obtain ⟨calm, ended⟩ := isCalmFrom_of_isQuiet quiet quietEnd ends start
  exact ⟨fun within => noSlash (within.subset (by simp)),
    fun isLast => noSlash (List.mem_of_getLast? isLast), calm, ended⟩

end

/-! ## Sheets -/

/-- A value that keeps its tokens when the sheet is reduced that its declaration stands in. -/
def IsCalmValue (value : String) : Prop := IsCalmPiece (value.toList ++ [';'])

instance (value : String) : Decidable (IsCalmValue value) :=
  inferInstanceAs (Decidable (IsCalmPiece (value.toList ++ [';'])))

example : IsCalmValue "url(\"a b.png\")" ∧ ¬ IsCalmValue "url(\"a, b.png\")" := by decide +kernel

/-- A rule whose values are calm, and which has nothing but names otherwise. -/
structure Rule.IsCalm (rule : Rule) : Prop where
  selector : ∀ c ∈ rule.selector.toList, isQuiet c = true
  property : ∀ declaration ∈ rule.declarations, ∀ c ∈ declaration.1.toList, isQuiet c = true
  value : ∀ declaration ∈ rule.declarations, IsCalmValue declaration.2

namespace IsSteady

variable {s : List Char}

/-- Quiet characters, the last of which ends words. -/
theorem quiet {e : Char} (quiet : ∀ c ∈ s, isQuiet c = true) (quietEnd : isQuiet e = true)
    (ends : isSpace e = true ∨ isPunctuation e = true) : IsSteady (s ++ [e]) :=
  (isCalmPiece_of_isQuiet quiet quietEnd ends).isSteady

theorem newline : IsSteady ['\n'] := quiet (s := []) (by simp) (by decide) (by decide)

theorem declaration {declaration : String × String} {indent : String}
    (indented : ∀ c ∈ indent.toList, isQuiet c = true)
    (property : ∀ c ∈ declaration.1.toList, isQuiet c = true) (value : IsCalmValue declaration.2) :
    IsSteady (declarationLine indent declaration) := by
  have front : ∀ c ∈ '\n' :: indent.toList ++ [' ', ' '] ++ declaration.1.toList ++ [':'],
      isQuiet c = true := by
    simp only [List.forall_mem_append, List.forall_mem_cons]
    exact ⟨⟨⟨⟨by decide, indented⟩, by decide⟩, property⟩, by decide⟩
  have whole := (quiet front (e := ' ') (by decide) (by decide)).append (IsCalmPiece.isSteady value)
  rw [List.append_assoc _ [':'] [' '], ← List.append_assoc _ declaration.2.toList [';']] at whole
  exact whole

theorem block {rule : Rule} (calm : rule.IsCalm) {indent : String}
    (indented : ∀ c ∈ indent.toList, isQuiet c = true) : IsSteady (rule.block indent).toList := by
  have opening : ∀ c ∈ indent.toList ++ rule.selector.toList ++ [' '], isQuiet c = true := by
    simp only [List.forall_mem_append]
    exact ⟨⟨indented, calm.selector⟩, by decide⟩
  have closing : ∀ c ∈ '\n' :: indent.toList, isQuiet c = true :=
    List.forall_mem_cons.mpr ⟨by decide, indented⟩
  have lines := flatMap fun declaration member => IsSteady.declaration indented
    (calm.property declaration member) (calm.value declaration member)
  have whole := ((quiet opening (e := '\x7b') (by decide) (by decide)).append lines).append
    (quiet closing (e := '\x7d') (by decide) (by decide))
  rw [toList_block]
  rwa [List.append_assoc _ [' ']] at whole

theorem rule {rule : Rule} (calm : rule.IsCalm) : IsSteady rule.text.toList := by
  unfold Rule.text
  split
  · exact block calm (by decide)
  next width _ =>
    have condition : ∀ c ∈ (mediaCondition width).toList ++ [' '], isQuiet c = true := by
      have digits (c : Char) (member : c ∈ (toString width).toList) : isQuiet c = true :=
        isQuiet_of_isSpelling (Text.isSpelling_of_mem_toString width c member)
      rw [toList_mediaCondition]
      simp only [List.forall_mem_append]
      exact ⟨⟨⟨by decide, digits⟩, by decide⟩, by decide⟩
    have spaces : ∀ c ∈ "  ".toList, isQuiet c = true := by decide
    have opening := quiet condition (e := '\x7b') (by decide) (by decide)
    have closing : IsSteady (['\n'] ++ ['\x7d']) := quiet (by decide) (by decide) (by decide)
    rw [List.append_assoc] at opening
    rw [toList_conditional, List.nil_append]
    exact (opening.append (newline.append (block calm spaces))).append closing

theorem rules {separator : String} (gap : IsSteady separator.toList) {rules : List Rule}
    (calm : ∀ rule ∈ rules, rule.IsCalm) :
    IsSteady (separator.intercalate (rules.map Rule.text)).toList := by
  cases rules with
  | nil => exact nil
  | cons rule rules =>
    obtain ⟨here, later⟩ := List.forall_mem_cons.mp calm
    rw [List.map_cons, toList_intercalate_cons, List.flatMap_map]
    exact (IsSteady.rule here).append
      (flatMap fun rule member => gap.append (IsSteady.rule (later rule member)))

/-- A text stays settled when what is steady is put in front of it. -/
theorem isSettled_append (steady : IsSteady s) {t : List Char} (settled : IsSettled t) :
    IsSettled (s ++ t) := by
  refine ⟨?_, ?_⟩
  · rw [steady.apart]
    exact settled.apart
  · rw [steady.dropped]
    exact isCalmFrom_append steady.calm steady.ends settled.calm

end IsSteady

theorem isCalm_baseRules : ∀ rule ∈ baseRules, rule.IsCalm := by
  have names : ∀ rule ∈ baseRules, (∀ c ∈ rule.selector.toList, isQuiet c = true) ∧
      ∀ declaration ∈ rule.declarations, ∀ c ∈ declaration.1.toList, isQuiet c = true := by
    decide +kernel
  have values : ∀ rule ∈ baseRules, ∀ declaration ∈ rule.declarations,
      IsCalmValue declaration.2 := by
    decide +kernel
  exact fun rule member => ⟨(names rule member).1, (names rule member).2, values rule member⟩

/-- A comment on a line of its own, as a tokenizer finds it. -/
theorem comment?_commentLine {label : String} (noStar : '*' ∉ label.toList) (t : List Char) :
    comment? (("/*" ++ label ++ "*/\n").toList ++ t) = some (label.toList, '\n' :: t) := by
  have closed : Text.splitAtMark? ['*', '/'] (label.toList ++ '*' :: '/' :: '\n' :: t) = _ :=
    Text.splitAtMark?_append noStar _
  rw [Text.splitAtMark?] at closed
  simpa [comment?, Text.dropMark?] using closed

/-- A text that may stand in front of any settled text. -/
def Settles (front : List Char) : Prop := ∀ s, IsSettled s → IsSettled (front ++ s)

namespace Settles

variable {s t : List Char}

theorem nil : Settles [] := fun _ settled => settled

theorem append (front : Settles s) (back : Settles t) : Settles (s ++ t) := by
  intro rest settled
  rw [List.append_assoc]
  exact front _ (back rest settled)

theorem flatMap {α : Type} {l : List α} {f : α → List Char} (each : ∀ a ∈ l, Settles (f a)) :
    Settles (l.flatMap f) :=
  of_flatMap nil (fun _ _ => append) each

theorem of_isSteady (steady : IsSteady s) : Settles s := fun _ => steady.isSettled_append

theorem isSettled (settles : Settles s) : IsSettled s := by
  have alone := settles [] ⟨rfl, rfl⟩
  rwa [List.append_nil] at alone

theorem commentLine {label : String} (noStar : '*' ∉ label.toList) :
    Settles ("/*" ++ label ++ "*/\n").toList := by
  intro t settled
  have found := comment?_commentLine noStar t
  obtain ⟨apart, calm⟩ := IsSteady.newline.isSettled_append settled
  refine ⟨?_, by rwa [dropComments_comment found]⟩
  rw [isApartFrom_comment found]
  exact apart

theorem gap : Settles "\n\n".toList := of_isSteady (IsSteady.newline.append IsSteady.newline)

theorem baseSheet : Settles Style.baseSheet.toList := by
  have lines : IsSteady "\n\n".toList := IsSteady.newline.append IsSteady.newline
  have written := IsSteady.rules lines isCalm_baseRules
  rw [toList_baseSheet]
  exact (commentLine star_notMem_baseLabel).append (of_isSteady written)

/-- The rules of a component, with the comment in front of them. -/
theorem rulesText {options : Options} {component : Component} {rules : List Rule}
    (calm : ∀ rule ∈ rules, rule.IsCalm) : Settles (Style.rulesText options component rules).toList := by
  have line : IsSteady "\n".toList := IsSteady.newline
  have written := of_isSteady (IsSteady.rules line calm)
  unfold Style.rulesText
  split
  · rw [String.toList_append]
    exact (commentLine (star_notMem_commentLabel component)).append written
  · exact written

theorem wholeSheet {blocks : List String} (each : ∀ block ∈ blocks, Settles block.toList) :
    Settles (Style.wholeSheet blocks).toList := by
  rw [Style.wholeSheet, String.toList_append, toList_intercalate_cons]
  exact (baseSheet.append (flatMap fun block member =>
    gap.append (each block (List.mem_of_mem_filter member)))).append (of_isSteady IsSteady.newline)

end Settles

/-! ## What stands in front -/

section

variable {scanner : Scanner} {s : List Char}

/-- What is calm in front of a closing brace is calm by itself. -/
theorem isCalmFrom_of_brace {after : Bool}
    (calm : isCalmFrom scanner after (s ++ ['\x7d']) = true) : isCalmFrom scanner after s = true := by
  induction s generalizing scanner after with
  | nil => rfl
  | cons c s ih =>
    obtain ⟨here, later⟩ := Bool.and_eq_true_iff.mp calm
    refine Bool.and_eq_true_iff.mpr ⟨?_, ih later⟩
    cases s with
    | nil =>
      have brace : Text.isBlank '\x7d' = false ∧ isPunctuation '\x7d' = true := by decide
      unfold Scanner.isCalm at here ⊢
      split
      next held => simpa [held, brace] using here
      next free => rwa [if_neg free] at here
    | cons d s => exact here

/-- A comment in front of a text has no part in whether it keeps its tokens. -/
theorem keepsTokens_of_comment? {inside rest : List Char} (found : comment? s = some (inside, rest)) :
    KeepsTokens s ↔ KeepsTokens rest := by
  have whole : s = ('/' :: '*' :: (inside ++ ['*', '/'])) ++ rest := by
    rw [eq_of_comment? found]
    simp
  have noWord : ({} : Scanner).word? = some [] := rfl
  have read : ({} : Scanner).read s = ({} : Scanner).read rest := by
    rw [whole]
    exact Scanner.read_append (run_comment_text noWord found) rest
  rw [KeepsTokens, KeepsTokens, minifyChars_eq, minifyChars_eq, dropComments_comment found, read]

/-- Neither has a steady text that ends with a rule. -/
theorem IsSteady.keepsTokens_iff (steady : IsSteady (s ++ ['\x7d'])) (t : List Char) :
    KeepsTokens (s ++ '\x7d' :: t) ↔ KeepsTokens t := by
  have front : tokenizer.run {} (s ++ ['\x7d']) = ({}, (tokenizer.run {} (s ++ ['\x7d'])).2) :=
    Prod.ext steady.ends rfl
  have split (u : List Char) : s ++ '\x7d' :: u = (s ++ ['\x7d']) ++ u := List.append_cons ..
  have reduced : significant (({} : Scanner).read (minifyChars (s ++ '\x7d' :: t))) =
      significant (({} : Scanner).read (s ++ '\x7d' :: minifyChars t)) := by
    have alike := (readsAlike (.inr ⟨dropComments t, rfl⟩) s).solid {} true
      (isCalmFrom_of_brace steady.calm)
    rw [minifyChars_eq, minifyChars_eq, split t, steady.dropped, ← split]
    exact alike
  -- both sides have the same tokens in front, and what is significant behind them does not change
  rw [KeepsTokens, reduced, split t, split (minifyChars t), Scanner.read_append front,
    Scanner.read_append front, significant_append_iff]
  rfl

end

theorem exists_text_eq (rule : Rule) : ∃ s, rule.text.toList = s ++ ['\x7d'] := by
  unfold Rule.text
  split
  · rw [toList_block, ← List.append_assoc]
    exact ⟨_, rfl⟩
  · rw [toList_conditional, ← List.append_assoc]
    exact ⟨_, rfl⟩

theorem exists_intercalate_eq (separator : String) {rules : List Rule} (nonempty : rules ≠ []) :
    ∃ s, (separator.intercalate (rules.map Rule.text)).toList = s ++ ['\x7d'] := by
  induction rules with
  | nil => exact absurd rfl nonempty
  | cons rule rules ih =>
    cases rules with
    | nil => simpa using exists_text_eq rule
    | cons next rules =>
      obtain ⟨s, isText⟩ := ih nofun
      rw [List.map_cons] at isText
      rw [List.map_cons, List.map_cons, String.intercalate_cons_cons, String.toList_append, isText,
        ← List.append_assoc]
      exact ⟨_, rfl⟩

/-- The rules that every page has play no part in whether a sheet keeps its tokens. -/
theorem keepsTokens_baseSheet (t : List Char) :
    KeepsTokens (baseSheet.toList ++ t) ↔ KeepsTokens t := by
  have lines : IsSteady "\n\n".toList := IsSteady.newline.append IsSteady.newline
  have steady := IsSteady.newline.append (IsSteady.rules lines isCalm_baseRules)
  obtain ⟨s, isText⟩ : ∃ s, ("\n\n".intercalate (baseRules.map Rule.text)).toList = s ++ ['\x7d'] :=
    exists_intercalate_eq _ (by decide)
  rw [isText, ← List.append_assoc] at steady
  rw [toList_baseSheet, List.append_assoc,
    keepsTokens_of_comment? (comment?_commentLine star_notMem_baseLabel _), isText,
    List.append_assoc]
  exact steady.keepsTokens_iff t

/-! ## The sheet of a page -/

theorem Rule.IsOf.isCalm {name : String} {rule : Rule} (isOf : rule.IsOf ("." ++ name))
    (named : ∀ c ∈ name.toList, isNameChar c = true)
    (value : ∀ declaration ∈ rule.declarations, IsCalmValue declaration.2) : rule.IsCalm := by
  have spelled (c : Char) (isName : isNameChar c = true) : isQuiet c = true :=
    isQuiet_of_isSpelling (Text.isSpelling_of_isNameChar isName)
  obtain ⟨pseudo, known, isSelector⟩ := isOf.selector
  have pseudos : ∀ pseudo ∈ selectorEnds, ∀ c ∈ pseudo.toList, isQuiet c = true := by decide
  refine ⟨?_, fun declaration member c inName =>
    spelled c ((isOf.declarations declaration member).property c inName), value⟩
  rw [isSelector, String.toList_append, String.toList_append]
  simp only [List.forall_mem_append]
  exact ⟨⟨by decide, fun c member => spelled c (named c member)⟩, pseudos pseudo known⟩

section

variable {heap : Heap} {options : Options} {entries : List Entry} {sheet : String}

theorem exists_areRules_settles {blocks : List String}
    (named : ∀ c ∈ options.classStart.toList, isNameChar c = true)
    (each : List.Forall₂ (fun entry block => entryText heap options entry = .ok block) entries
      blocks) :
    ∃ rules, AreRules heap options entries rules ∧
      ((∀ rule ∈ rules.flatten, ∀ declaration ∈ rule.declarations, IsCalmValue declaration.2) →
        ∀ block ∈ blocks, Settles block.toList) := by
  induction each with
  | nil => exact ⟨[], .nil, fun _ => by simp⟩
  | cons given _ ih =>
    obtain ⟨others, areRules, later⟩ := ih
    obtain ⟨component, rules, isComponent, isRules, rfl⟩ := exists_of_entryText given
    refine ⟨rules :: others, .cons ⟨component, isComponent, isRules⟩ areRules, fun calm => ?_⟩
    rw [List.flatten_cons, List.forall_mem_append] at calm
    refine List.forall_mem_cons.mpr ⟨?_, later calm.2⟩
    split
    · exact Settles.nil
    · exact Settles.rulesText fun rule member => (isOf_of_componentRules isRules rule member).isCalm
        (isNameChar_of_mem_className component.id named) (calm.1 rule member)

/-- A page's sheet is settled if its components give it calm values. -/
theorem isSettled_pageSheet (named : ∀ c ∈ options.classStart.toList, isNameChar c = true)
    (written : pageSheet heap { options with minify := false } entries = .ok sheet) :
    ∃ rules, AreRules heap options entries rules ∧
      ((∀ rule ∈ rules.flatten, ∀ declaration ∈ rule.declarations, IsCalmValue declaration.2) →
        IsSettled sheet.toList) := by
  obtain ⟨blocks, traversed, rfl⟩ := exists_of_pageSheet written
  have same : entryText heap { options with minify := false } = entryText heap options := rfl
  rw [same] at traversed
  obtain ⟨rules, areRules, settles⟩ :=
    exists_areRules_settles named ((forall₂_of_mapM_eq_ok traversed).imp fun _ _ given => given.2)
  exact ⟨rules, areRules, fun calm => (Settles.wholeSheet (settles calm)).isSettled⟩

/--
Reducing leaves the significant tokens of a settled sheet, and a page's sheet is settled if its
components give it calm values.
-/
theorem significant_tokens_pageSheet
    (written : pageSheet heap { options with minify := false } entries = .ok sheet) :
    pageSheet heap { options with minify := true } entries = .ok (minify sheet) ∧
      (IsSettled sheet.toList →
        significant (tokens (minify sheet)) = significant (tokens sheet)) ∧
      ((∀ c ∈ options.classStart.toList, isNameChar c = true) →
        ∃ rules, AreRules heap options entries rules ∧
          ((∀ rule ∈ rules.flatten, ∀ declaration ∈ rule.declarations, IsCalmValue declaration.2) →
            IsSettled sheet.toList)) := by
  refine ⟨?_, fun settled => keepsTokens_iff.mp settled.keepsTokens,
    fun named => isSettled_pageSheet named written⟩
  obtain ⟨blocks, traversed, rfl⟩ := exists_of_pageSheet written
  have same : entryText heap { options with minify := false } =
      entryText heap { options with minify := true } := rfl
  rw [same] at traversed
  rw [pageSheet, traversed]
  rfl

end

/-- A component with one declaration, which has this value. -/
def styled : Component := ⟨"a", "T", .ref 0, []⟩

def styledProps (value : String) : Heap := ⟨#[.dict [(.str "cursor", .str value)]]⟩

def styledRule (value : String) : Rule := { selector := ".dc-a", declarations := [("cursor", value)] }

theorem pageSheet_styled {options : Options} {value : String}
    (given : componentRules (styledProps value) options styled = .ok [styledRule value]) :
    pageSheet (styledProps value) { options with minify := false } [.component styled] =
      .ok (wholeSheet [rulesText options styled [styledRule value]]) := by
  have text := componentText_eq given
  rw [if_neg (by simp)] at text
  refine pageSheet_unreduced ?_
  rw [List.mapM_cons, entryText, text, List.mapM_nil]
  rfl

/-- A name with a space in it, in a sheet with comments. -/
theorem significant_tokens_pageSheet_spaced :
    ∃ sheet, pageSheet (styledProps "url(\"a b.png\"), auto") { annotate := true }
        [.component styled] = .ok sheet ∧
      pageSheet (styledProps "url(\"a b.png\"), auto") { annotate := true, minify := true }
        [.component styled] = .ok (minify sheet) ∧
      significant (tokens (minify sheet)) = significant (tokens sheet) := by
  have given : componentRules (styledProps "url(\"a b.png\"), auto") { annotate := true } styled =
      .ok [styledRule "url(\"a b.png\"), auto"] := by
    unfold componentRules breakpointRules
    have breakpoints : sortedBreakpoints ({ annotate := true } : Options).breakpoints = _ :=
      sortedBreakpoints_default
    rw [breakpoints]
    decide +kernel
  have written := pageSheet_styled given
  obtain ⟨reduced, kept, settled⟩ := significant_tokens_pageSheet written
  obtain ⟨rules, each, calm⟩ := settled (by decide)
  refine ⟨_, written, reduced, kept (calm ?_)⟩
  cases each with
  | cons here rest =>
    cases rest
    obtain ⟨component, isComponent, found⟩ := here
    cases isComponent
    cases given.symm.trans found
    decide +kernel

/--
Values that a reduced sheet shows in another way: two blanks in a string, what looks like a comment
in a string, a comment in a word, a blank behind an escaped comma, a blank that is no white space, a
string that is not closed, and a backslash in front of the semicolon.
-/
def changedValues : List String :=
  ["url(\"a  b.png\"), auto", "\"/*\" \"*/\"", "red/**/blue", "a\\, b", "a\u00a0b", "\"a", "a\\"]

theorem significant_tokens_changedValues_ne :
    changedValues.Forall fun value => ∃ sheet,
      pageSheet (styledProps value) {} [.component styled] = .ok sheet ∧
        significant (tokens (minify sheet)) ≠ significant (tokens sheet) := by
  have given : ∀ value ∈ changedValues,
      componentRules (styledProps value) {} styled = .ok [styledRule value] := by
    intro value member
    unfold componentRules breakpointRules
    rw [sortedBreakpoints_default]
    revert value
    decide +kernel
  have changed : ∀ value ∈ changedValues,
      ¬ KeepsTokens ("\n\n".toList ++ (styledRule value).text.toList ++ "\n".toList) := by
    decide +kernel
  refine List.forall_iff_forall_mem.mpr fun value member => ?_
  have written := pageSheet_styled (given value member)
  refine ⟨_, written, fun same => ?_⟩
  have kept := keepsTokens_iff.mpr same
  have isText : rulesText {} styled [styledRule value] = (styledRule value).text := by
    simp [rulesText]
  have nonempty : (styledRule value).text ≠ "" :=
    isText ▸ rulesText_ne_empty styled (by simp)
  rw [isText, wholeSheet, String.toList_append, toList_intercalate_cons,
    List.filter_cons_of_pos (by simpa using nonempty), List.filter_nil, List.append_assoc,
    keepsTokens_baseSheet] at kept
  exact changed value member (by simpa using kept)

end StaticSite.Style
