import StaticSite.Proofs.Replacement
import StaticSite.Proofs.Trimming
import StaticSite.Style.Minify

/-!
# Reducing a sheet in one pass

Behind the comments, reducing a sheet is one pass over its characters: blanks go next to punctuation
and at the ends, or become one space, and a semicolon goes in front of a closing brace.
-/

namespace StaticSite.Style

/-- Whether the first character that is not blank is this one. -/
def comesNext (d : Char) (s : List Char) : Bool := (s.dropWhile Text.isBlank).head? = some d

/--
What reducing leaves of a text without comments. `after` tells whether punctuation, or nothing at all,
stands in front of the text and the blanks there; `pending` tells whether there are any.
-/
def tidy (after pending : Bool) : List Char → List Char
  | [] => []
  | c :: s =>
    if Text.isBlank c then tidy after true s
    else if c = ';' ∧ comesNext '\x7d' s then tidy false true s
    else
      (if pending && !after && !isPunctuation c then [' '] else []) ++
        c :: tidy (isPunctuation c) false s

/-- The pass before semicolons go and the ends are trimmed. -/
def squeeze (after pending : Bool) : List Char → List Char
  | [] => if pending && !after then [' '] else []
  | c :: s =>
    if Text.isBlank c then squeeze after true s
    else
      (if pending && !after && !isPunctuation c then [' '] else []) ++
        c :: squeeze (isPunctuation c) false s

section

variable {c d : Char} {s : List Char}

theorem tidy_blank (blank : Text.isBlank c = true) (after pending : Bool) :
    tidy after pending (c :: s) = tidy after true s := by
  rw [tidy, if_pos blank]

theorem tidy_semicolon (next : comesNext '\x7d' s = true) (after pending : Bool) :
    tidy after pending (';' :: s) = tidy false true s := by
  rw [tidy, if_neg (by decide), if_pos ⟨rfl, next⟩]

theorem tidy_solid (solid : Text.isBlank c = false)
    (kept : c = ';' → comesNext '\x7d' s = false) (after pending : Bool) :
    tidy after pending (c :: s) =
      (if pending && !after && !isPunctuation c then [' '] else []) ++
        c :: tidy (isPunctuation c) false s := by
  have noSemicolon : ¬ (c = ';' ∧ comesNext '\x7d' s = true) := fun both => by
    rw [kept both.1] at both
    exact Bool.noConfusion both.2
  rw [tidy, if_neg (by simp [solid]), if_neg noSemicolon]

theorem comesNext_blank (blank : Text.isBlank c = true) :
    comesNext d (c :: s) = comesNext d s := by
  rw [comesNext, List.dropWhile_cons_of_pos blank, ← comesNext]

theorem comesNext_solid (solid : Text.isBlank c = false) :
    comesNext d (c :: s) = (c = d : Bool) := by
  rw [comesNext, List.dropWhile_cons_of_neg (by simp [solid])]
  simp

/-- The ways in which a pass goes on. -/
theorem tidy_cases (c : Char) (s : List Char) :
    Text.isBlank c = true ∨ (c = ';' ∧ comesNext '\x7d' s = true) ∨
      (Text.isBlank c = false ∧ (c = ';' → comesNext '\x7d' s = false)) := by
  cases isBlank : Text.isBlank c with
  | true => exact .inl rfl
  | false =>
    by_cases goes : c = ';' ∧ comesNext '\x7d' s = true
    · exact .inr (.inl goes)
    · exact .inr (.inr ⟨rfl, fun isSemicolon => by simpa [isSemicolon] using goes⟩)

theorem comesNext_self (solid : Text.isBlank c = false) (s : List Char) :
    comesNext c (c :: s) = true := by
  rw [comesNext_solid solid]
  exact decide_eq_true rfl

/-- Collapsing blanks and tightening is one pass. -/
theorem tighten_collapse (after : Bool) (s : List Char) :
    tighten after (Text.collapse s) = squeeze after false s ∧
      ((∀ d ∈ s.head?, Text.isBlank d = false) →
        tighten after (' ' :: Text.collapse s) = squeeze after true s) := by
  induction s generalizing after with
  | nil => cases after <;> decide
  | cons c s ih =>
    cases isBlank : Text.isBlank c with
    | true =>
      refine ⟨?_, fun solid => absurd isBlank (by simp [solid c rfl])⟩
      rw [squeeze, if_pos isBlank, Text.collapse.eq_def]
      dsimp only
      rw [if_pos isBlank]
      cases s with
      | nil => exact (ih after).2 nofun
      | cons d s =>
        dsimp only
        split
        next blank =>
          rw [(ih after).1, squeeze, squeeze, if_pos blank, if_pos blank]
        next solid =>
          refine (ih after).2 fun d' isHead => ?_
          rw [← Option.some.inj isHead]
          simpa using solid
    | false =>
      have noSpace : c ≠ ' ' := by
        rintro rfl
        exact absurd isBlank (by decide)
      have collapsed : Text.collapse (c :: s) = c :: Text.collapse s := by
        rw [Text.collapse.eq_def]
        simp [isBlank]
      have tight (b : Bool) : tighten b (c :: Text.collapse s) =
          c :: squeeze (isPunctuation c) false s := by
        rw [tighten, if_neg noSpace, (ih _).1]
      have squeezed (pending : Bool) : squeeze after pending (c :: s) =
          (if pending && !after && !isPunctuation c then [' '] else []) ++
            c :: squeeze (isPunctuation c) false s := by
        rw [squeeze, if_neg (by simp [isBlank])]
      rw [collapsed, squeezed, squeezed]
      refine ⟨tight after, fun _ => ?_⟩
      rw [tighten, if_pos rfl, List.head?_cons, Option.map_some, Option.getD_some, tight, tight]
      cases after <;> cases isPunctuation c <;> rfl

theorem head?_squeeze (pending : Bool) (s : List Char) :
    (squeeze true pending s).head? = (s.dropWhile Text.isBlank).head? := by
  induction s generalizing pending with
  | nil => cases pending <;> rfl
  | cons c s ih =>
    rw [squeeze]
    split
    next blank => rw [ih, List.dropWhile_cons_of_pos blank]
    next solid =>
      rw [List.dropWhile_cons_of_neg solid, Bool.not_true, Bool.and_false, Bool.false_and]
      rfl

/-- In front of a closing brace there is nothing to be written. -/
theorem tidy_congr (next : comesNext '\x7d' s = true) (a b p q : Bool) :
    tidy a p s = tidy b q s := by
  induction s generalizing a b p q with
  | nil => cases next
  | cons c s ih =>
    cases isBlank : Text.isBlank c with
    | true =>
      rw [comesNext_blank isBlank] at next
      rw [tidy_blank isBlank, tidy_blank isBlank]
      exact ih next a b true true
    | false =>
      have isBrace : c = '\x7d' := by simpa [comesNext_solid isBlank] using next
      subst isBrace
      have kept (isSemicolon : '\x7d' = ';') : comesNext '\x7d' s = false :=
        absurd isSemicolon (by decide)
      rw [tidy_solid isBlank kept, tidy_solid isBlank kept]
      have mark : isPunctuation '\x7d' = true := by decide
      simp [mark]

theorem exists_squeeze_eq (next : comesNext '\x7d' s = true) :
    ∃ rest, squeeze true false s = '\x7d' :: rest :=
  ⟨_, List.eq_cons_of_mem_head? ((head?_squeeze false s).trans (of_decide_eq_true next))⟩

theorem not_prefix_squeeze (kept : c = ';' → comesNext '\x7d' s = false) :
    ¬ [';', '\x7d'] <+: c :: squeeze (isPunctuation c) false s := by
  intro starts
  obtain ⟨rfl, rest, isRest⟩ := List.cons_prefix_cons.mp starts
  have mark : isPunctuation ';' = true := by decide
  have isHead : (squeeze true false s).head? = some '\x7d' := by
    rw [mark] at isRest
    rw [← isRest]
    rfl
  rw [head?_squeeze] at isHead
  exact absurd (kept rfl) (by simp [comesNext, isHead])

/-- Dropping semicolons in front of braces makes one pass the other, up to a space at the end. -/
theorem replace_squeeze (after pending : Bool) (s : List Char) :
    ∃ trail, (∀ c ∈ trail, Text.isBlank c = true) ∧
      Text.replace [';', '\x7d'] ['\x7d'] (squeeze after pending s) = tidy after pending s ++ trail := by
  induction s generalizing after pending with
  | nil =>
    refine ⟨squeeze after pending [], ?_, ?_⟩ <;> cases after <;> cases pending <;> decide
  | cons c s ih =>
    rcases tidy_cases c s with blank | ⟨rfl, next⟩ | ⟨solid, kept⟩
    · rw [squeeze, if_pos blank, tidy_blank blank]
      exact ih after true
    · obtain ⟨trail, isTrail, same⟩ := ih true false
      obtain ⟨rest, isRest⟩ := exists_squeeze_eq next
      have written : squeeze after pending (';' :: s) = [';', '\x7d'] ++ rest := by
        have mark : isPunctuation ';' = true := by decide
        rw [squeeze, if_neg (by decide), mark, isRest]
        simp
      have brace : Text.replace [';', '\x7d'] ['\x7d'] ('\x7d' :: rest) =
          '\x7d' :: Text.replace [';', '\x7d'] ['\x7d'] rest :=
        Text.replace_cons fun starts => by simp at starts
      refine ⟨trail, isTrail, ?_⟩
      rw [isRest, brace] at same
      rw [written, Text.replace_mark_append (by decide), tidy_semicolon next,
        tidy_congr next false true true false, ← same]
      rfl
    · obtain ⟨trail, isTrail, same⟩ := ih (isPunctuation c) false
      have noMark := not_prefix_squeeze kept
      have space (t : List Char) (absent : ¬ [';', '\x7d'] <+: t) :
          Text.replace [';', '\x7d'] ['\x7d']
            ((if pending && !after && !isPunctuation c then [' '] else []) ++ t) =
          (if pending && !after && !isPunctuation c then [' '] else []) ++
            Text.replace [';', '\x7d'] ['\x7d'] t := by
        split
        · exact Text.replace_cons fun starts => by simp at starts
        · rfl
      refine ⟨trail, isTrail, ?_⟩
      rw [squeeze, if_neg (by simp [solid]), space _ noMark, Text.replace_cons noMark, same,
        tidy_solid solid kept, List.append_assoc, List.cons_append]

theorem tidy_start (pending : Bool) (s : List Char) : tidy true pending s = tidy true false s := by
  induction s generalizing pending with
  | nil => rfl
  | cons c s ih =>
    rw [tidy, tidy, ih true]
    simp

theorem exists_tidy_start (after pending : Bool) (s : List Char) :
    ∃ lead, (∀ c ∈ lead, Text.isBlank c = true) ∧
      tidy after pending s = lead ++ tidy true false s := by
  induction s generalizing after pending with
  | nil => exact ⟨[], nofun, rfl⟩
  | cons c s ih =>
    rcases tidy_cases c s with blank | ⟨rfl, next⟩ | ⟨solid, kept⟩
    · obtain ⟨lead, isLead, same⟩ := ih after true
      exact ⟨lead, isLead, by rw [tidy_blank blank, tidy_blank blank, same, tidy_start true]⟩
    · exact ⟨[], nofun, by rw [tidy_semicolon next, tidy_semicolon next, List.nil_append]⟩
    · refine ⟨if pending && !after && !isPunctuation c then [' '] else [], ?_, ?_⟩
      · split <;> decide
      · rw [tidy_solid solid kept, tidy_solid solid kept]
        rfl

theorem getLast?_tidy (after pending : Bool) (s : List Char) :
    ∀ c ∈ (tidy after pending s).getLast?, Text.isBlank c = false := by
  induction s generalizing after pending with
  | nil => nofun
  | cons c s ih =>
    rcases tidy_cases c s with blank | ⟨rfl, next⟩ | ⟨solid, kept⟩
    · rw [tidy_blank blank]
      exact ih after true
    · rw [tidy_semicolon next]
      exact ih false true
    · rw [tidy_solid solid kept, List.getLast?_append, List.getLast?_cons, Option.some_or]
      intro d isLast
      cases later : (tidy (isPunctuation c) false s).getLast? with
      | none =>
        rw [later] at isLast
        exact Option.some.inj isLast ▸ solid
      | some e =>
        rw [later] at isLast
        exact ih (isPunctuation c) false d (later.trans isLast)

theorem hasEnds_tidy (s : List Char) : HasEnds Text.isBlank (tidy true false s) := by
  refine ⟨?_, getLast?_tidy true false s⟩
  induction s with
  | nil => nofun
  | cons c s ih =>
    rcases tidy_cases c s with blank | ⟨rfl, next⟩ | ⟨solid, kept⟩
    · rwa [tidy_blank blank, tidy_start]
    · rwa [tidy_semicolon next, tidy_congr next false true true false]
    · rw [tidy_solid solid kept]
      exact fun d isHead => Option.some.inj isHead ▸ solid

/-- Reducing is one pass over what is left without comments. -/
theorem minifyChars_eq (s : List Char) : minifyChars s = tidy true false (dropComments s) := by
  obtain ⟨trail, isTrail, tight⟩ := replace_squeeze false false (dropComments s)
  obtain ⟨lead, isLead, start⟩ := exists_tidy_start false false (dropComments s)
  rw [start] at tight
  rw [minifyChars, (tighten_collapse false _).1, tight]
  exact trimmed_eq isLead isTrail (hasEnds_tidy _)

end

end StaticSite.Style
