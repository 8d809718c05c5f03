import Mathlib.Algebra.Order.BigOperators.Group.List
import Mathlib.Algebra.Order.Ring.Nat
import Mathlib.Data.List.Flatten
import StaticSite.Bytes.Utf8
import StaticSite.Markup.Minify
import StaticSite.Proofs.Replacement

/-!
# Reduced texts do not grow

Whatever reducing does to a text, it drops characters or puts a space in the place of a blank. So a
reduced text is no heavier than the text, whichever way characters are weighed, as long as none is
lighter than a space: it has no more characters, and no more bytes.
-/

namespace StaticSite

namespace Text

/-- The weights of the characters of a text, summed up. -/
def weight (w : Char → Nat) (s : List Char) : Nat := (s.map w).sum

section

variable {w : Char → Nat} {s t : List Char}

@[simp] theorem weight_nil : weight w [] = 0 := rfl

@[simp] theorem weight_cons (c : Char) : weight w (c :: s) = w c + weight w s := rfl

@[simp] theorem weight_append : weight w (s ++ t) = weight w s + weight w t := by
  simp [weight]

theorem weight_le_of_sublist (sublist : s.Sublist t) : weight w s ≤ weight w t :=
  (sublist.map w).sum_le_sum fun _ _ => Nat.zero_le _

theorem replace_sublist {mark new : List Char} (nonempty : mark ≠ []) (shorter : new.Sublist mark)
    (s : List Char) : (replace mark new s).Sublist s := by
  induction s using replace_induction nonempty with
  | nil => exact .refl _
  | found s ih =>
    rw [replace_mark_append nonempty]
    exact shorter.append ih
  | kept c s outside ih =>
    rw [replace_cons outside]
    exact ih.cons_cons c

theorem trimBy_sublist (p : Char → Bool) (s : List Char) : (trimBy p s).Sublist s := by
  have tail (t : List Char) : (dropTail p t).Sublist t := by
    rw [dropTail, ← List.reverse_sublist, List.reverse_reverse]
    exact List.dropWhile_sublist p
  exact (tail _).trans (List.dropWhile_sublist p)

theorem weight_collapse_le (light : ∀ c, w ' ' ≤ w c) (s : List Char) :
    weight w (collapse s) ≤ weight w s := by
  induction s with
  | nil => exact Nat.le_refl 0
  | cons c s ih =>
    have lighter := light c
    rw [collapse.eq_def, weight_cons]
    dsimp only
    split
    · split
      · simpa using lighter
      · split
        · omega
        · rw [weight_cons]
          omega
    · rw [weight_cons]
      omega

end

end Text

open Text (weight weight_le_of_sublist)

namespace Style

theorem dropCommentsFrom_sublist (skip : Nat) (s : List Char) :
    (dropCommentsFrom skip s).Sublist s := by
  induction s generalizing skip with
  | nil => rw [dropCommentsFrom]
  | cons c s ih =>
    cases skip with
    | succ skip => exact (ih skip).cons c
    | zero =>
      rw [dropCommentsFrom]
      split
      · exact (ih 0).cons_cons c
      · split
        · exact (ih 0).cons_cons c
        · exact (ih _).cons c

theorem tighten_sublist (after : Bool) (s : List Char) : (tighten after s).Sublist s := by
  induction s generalizing after with
  | nil => exact .refl _
  | cons c s ih =>
    rw [tighten]
    split
    next space =>
      split
      · exact (ih after).cons c
      · rw [space]
        exact (ih false).cons_cons ' '
    · exact (ih _).cons_cons c

theorem weight_minifyChars_le {w : Char → Nat} (light : ∀ c, w ' ' ≤ w c) (s : List Char) :
    weight w (minifyChars s) ≤ weight w s :=
  calc weight w (minifyChars s)
    _ ≤ weight w (Text.collapse (dropComments s)) :=
      weight_le_of_sublist (((Text.trimBy_sublist _ _).trans
        (Text.replace_sublist (List.cons_ne_nil _ _) (.cons _ (.refl _)) _)).trans
          (tighten_sublist _ _))
    _ ≤ weight w (dropComments s) := Text.weight_collapse_le light _
    _ ≤ weight w s := weight_le_of_sublist (dropCommentsFrom_sublist 0 s)

end Style

namespace Markup

/-- The text that pieces stand for. -/
def piecesText (ps : List Piece) : List Char := ps.flatMap Piece.text

@[simp] theorem piecesText_nil : piecesText [] = [] := rfl

@[simp] theorem piecesText_cons (p : Piece) (ps : List Piece) :
    piecesText (p :: ps) = p.text ++ piecesText ps := rfl

theorem piecesText_sublist {ps qs : List Piece} (sublist : ps.Sublist qs) :
    (piecesText ps).Sublist (piecesText qs) :=
  sublist.flatMap Piece.text

theorem rawLength?_pos {s : List Char} {length : Nat} (found : rawLength? s = some length) :
    1 ≤ length := by
  unfold rawLength? at found
  split at found
  · simp only [Option.bind_eq_bind, Option.bind_eq_some_iff, Option.some.injEq] at found
    obtain ⟨name, -, inside, -, rfl⟩ := found
    omega
  · cases found

theorem piecesText_piecesFrom (skip : Nat) (s : List Char) :
    piecesText (piecesFrom skip s) = s.drop skip := by
  induction s generalizing skip with
  | nil => cases skip <;> rfl
  | cons c s ih =>
    cases skip with
    | succ skip => exact ih skip
    | zero =>
      rw [piecesFrom]
      split
      next length found =>
        obtain ⟨more, rfl⟩ := Nat.exists_eq_add_of_le' (rawLength?_pos found)
        rw [piecesText_cons, ih, Piece.text, Nat.add_sub_cancel]
        exact List.take_append_drop (more + 1) (c :: s)
      · rw [piecesText_cons, ih]
        rfl

theorem dropCommentsFrom_sublist (skip : Nat) (ps : List Piece) :
    (dropCommentsFrom skip ps).Sublist ps := by
  induction ps generalizing skip with
  | nil => rw [dropCommentsFrom]
  | cons p ps ih =>
    cases skip with
    | succ skip => exact (ih skip).cons p
    | zero =>
      rw [dropCommentsFrom]
      split
      · exact (ih _).cons p
      · exact (ih 0).cons_cons p

theorem trimPieces_sublist (ps : List Piece) : (trimPieces ps).Sublist ps := by
  rw [trimPieces, ← List.reverse_sublist, List.reverse_reverse]
  exact (List.dropWhile_sublist _).trans (List.dropWhile_sublist _).reverse

section

variable {w : Char → Nat}

/-- A pending blank weighs as much as the space that may be written for it. -/
theorem weight_tighten_le (light : ∀ c, w ' ' ≤ w c) (before : Option Piece) (blank : Bool)
    (ps : List Piece) :
    weight w (piecesText (tighten before blank ps)) ≤
      (if blank then w ' ' else 0) + weight w (piecesText ps) := by
  induction ps generalizing before blank with
  | nil =>
    rw [tighten]
    cases blank <;> simp [piecesText, Piece.text]
  | cons p ps ih =>
    rw [tighten, piecesText_cons, Text.weight_append]
    split
    next isBlank =>
      have later := ih before true
      cases p with
      | raw block => cases isBlank
      | char c =>
        have lighter := light c
        have one : weight w (Piece.char c).text = w c := Nat.add_zero _
        rw [if_pos rfl] at later
        omega
    · have later := ih (some p) false
      dsimp only
      split
      next pending =>
        have isBlank : blank = true := (Bool.and_eq_true_iff.mp pending).1
        have space : weight w (Piece.char ' ').text = w ' ' := Nat.add_zero _
        rw [piecesText_cons, piecesText_cons, Text.weight_append, Text.weight_append, space,
          if_pos isBlank]
        rw [if_neg Bool.false_ne_true] at later
        omega
      · rw [piecesText_cons, Text.weight_append]
        rw [if_neg Bool.false_ne_true] at later
        omega

theorem weight_minifyChars_le (light : ∀ c, w ' ' ≤ w c) (s : List Char) :
    weight w (minifyChars s) ≤ weight w s := by
  let free := s.filter (·.toNat ≠ 0)
  let kept := dropCommentsFrom 0 (pieces free)
  have tight := weight_tighten_le light none false kept
  rw [if_neg Bool.false_ne_true, Nat.zero_add] at tight
  calc weight w (minifyChars s)
    _ ≤ weight w (piecesText (tighten none false kept)) :=
      weight_le_of_sublist (piecesText_sublist (trimPieces_sublist _))
    _ ≤ weight w (piecesText kept) := tight
    _ ≤ weight w (piecesText (pieces free)) :=
      weight_le_of_sublist (piecesText_sublist (dropCommentsFrom_sublist 0 _))
    _ = weight w free := congrArg (weight w) (piecesText_piecesFrom 0 free)
    _ ≤ weight w s := weight_le_of_sublist List.filter_sublist

end

end Markup

/-! ## Bytes -/

namespace Utf8

theorem size_eq_weight (s : String) :
    size s = weight (fun c => (String.utf8EncodeChar c).length) s.toList := by
  rw [size, encode, List.length_flatMap]
  rfl

/-- A space takes up one byte, and no character takes up less. -/
theorem one_le_length_utf8EncodeChar (c : Char) : 1 ≤ (String.utf8EncodeChar c).length := by
  rw [String.length_utf8EncodeChar]
  exact c.utf8Size_pos

theorem size_ofList_le {s t : List Char}
    (lighter : ∀ w : Char → Nat, (∀ c, w ' ' ≤ w c) → weight w s ≤ weight w t) :
    size (String.ofList s) ≤ size (String.ofList t) := by
  rw [size_eq_weight, size_eq_weight, String.toList_ofList, String.toList_ofList]
  exact lighter _ one_le_length_utf8EncodeChar

end Utf8

theorem Style.size_minify_le (sheet : String) : Utf8.size (minify sheet) ≤ Utf8.size sheet := by
  have lighter := Utf8.size_ofList_le fun _ light => weight_minifyChars_le light sheet.toList
  rwa [String.ofList_toList] at lighter

theorem Markup.size_minify_le (markup : String) : Utf8.size (minify markup) ≤ Utf8.size markup := by
  have lighter := Utf8.size_ofList_le fun _ light => weight_minifyChars_le light markup.toList
  rwa [String.ofList_toList] at lighter

/-! ## Characters -/

/-- Where every character weighs one, a text weighs as much as it is long. -/
theorem Text.weight_one (s : List Char) : weight (fun _ => 1) s = s.length := by
  simp [weight]

theorem Style.length_minify_le (sheet : String) : (minify sheet).length ≤ sheet.length := by
  have lighter := weight_minifyChars_le (w := fun _ => 1) (fun _ => Nat.le_refl 1) sheet.toList
  rw [Text.weight_one, Text.weight_one] at lighter
  rwa [minify, String.length_ofList, ← String.length_toList]

theorem Markup.length_minify_le (markup : String) : (minify markup).length ≤ markup.length := by
  have lighter := weight_minifyChars_le (w := fun _ => 1) (fun _ => Nat.le_refl 1) markup.toList
  rw [Text.weight_one, Text.weight_one] at lighter
  rwa [minify, String.length_ofList, ← String.length_toList]

/-- No text gets longer by being reduced, as a sheet or as markup, in characters or in bytes. -/
theorem minify_noLonger (text : String) :
    ((Style.minify text).length ≤ text.length ∧
      Utf8.size (Style.minify text) ≤ Utf8.size text) ∧
    ((Markup.minify text).length ≤ text.length ∧
      Utf8.size (Markup.minify text) ≤ Utf8.size text) :=
  ⟨⟨Style.length_minify_le text, Style.size_minify_le text⟩,
    Markup.length_minify_le text, Markup.size_minify_le text⟩

end StaticSite
