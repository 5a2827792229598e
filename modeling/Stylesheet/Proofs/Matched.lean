import Stylesheet.Proofs.Clean

set_option autoImplicit false

namespace Stylesheet

namespace Text

/-- Texts with balanced parentheses and square brackets outside quotes, with closed quotes and
without a backslash. Only some characters stand between quotes. -/
inductive Matched (quotable : Char → Prop) : Text → Prop where
  | nil : Matched quotable []
  | plain {c : Char} {t : Text} (apart : c ∉ ['\\', '"', '\'', '(', ')', '[', ']'])
      (rest : Matched quotable t) : Matched quotable (c :: t)
  | quoted {q : Char} {inside t : Text} (isQuote : q = '"' ∨ q = '\'')
      (kept : ∀ c ∈ inside, c ≠ q ∧ c ≠ '\\' ∧ quotable c) (rest : Matched quotable t) :
      Matched quotable (q :: (inside ++ q :: t))
  | bracketed {first last : Char} {inner t : Text}
      (pair : (first = '(' ∧ last = ')') ∨ (first = '[' ∧ last = ']'))
      (inside : Matched quotable inner) (rest : Matched quotable t) :
      Matched quotable (first :: (inner ++ last :: t))

namespace Nesting

variable {n : Nesting}

structure Bare (n : Nesting) : Prop where
  unquoted : n.quote = none
  unescaped : n.escaped = false

theorem top_bare : top.Bare := ⟨rfl, rfl⟩

theorem Bare.next_plain (bare : n.Bare) {c : Char}
    (apart : c ∉ ['\\', '"', '\'', '(', ')', '[', ']']) : n.next c = n := by
  simp only [List.mem_cons, List.not_mem_nil, or_false, not_or] at apart
  simp [next, bare.unescaped, bare.unquoted, apart]

theorem Bare.next_quote (bare : n.Bare) {q : Char} (isQuote : q = '"' ∨ q = '\'') :
    n.next q = { n with quote := some q } := by
  rcases isQuote with rfl | rfl <;> simp [next, bare.unescaped, bare.unquoted]

theorem Bare.next_closingQuote (bare : n.Bare) {q : Char} (isQuote : q = '"' ∨ q = '\'') :
    ({ n with quote := some q } : Nesting).next q = n := by
  obtain ⟨depth, quote, escaped⟩ := n
  obtain ⟨rfl, rfl⟩ := bare
  rcases isQuote with rfl | rfl <;> rfl

/-- Between quotes neither brackets nor commas count. -/
theorem Bare.quoted (bare : n.Bare) {q : Char} {t : Text} (kept : ∀ c ∈ t, c ≠ q ∧ c ≠ '\\') :
    ({ n with quote := some q } : Nesting).after t = { n with quote := some q } ∧
      Uncut { n with quote := some q } t := by
  induction t with
  | nil => exact ⟨rfl, trivial⟩
  | cons c t ih =>
    obtain ⟨notQuote, notEscape⟩ := kept c List.mem_cons_self
    have same : ({ n with quote := some q } : Nesting).next c = { n with quote := some q } := by
      simp [next, bare.unescaped, notQuote, notEscape]
    rw [after_cons, Uncut, same]
    obtain ⟨still, uncut⟩ := ih fun d member => kept d (List.mem_cons_of_mem c member)
    exact ⟨still, by simp [isTop], uncut⟩

theorem Bare.next_opening (bare : n.Bare) {first last : Char}
    (pair : (first = '(' ∧ last = ')') ∨ (first = '[' ∧ last = ']')) :
    n.next first = { n with depth := n.depth + 1 } := by
  rcases pair with ⟨rfl, -⟩ | ⟨rfl, -⟩ <;> simp [next, bare.unescaped, bare.unquoted]

theorem Bare.next_closing (bare : n.Bare) {first last : Char}
    (pair : (first = '(' ∧ last = ')') ∨ (first = '[' ∧ last = ']')) :
    ({ n with depth := n.depth + 1 } : Nesting).next last = n := by
  obtain ⟨depth, quote, escaped⟩ := n
  obtain ⟨rfl, rfl⟩ := bare
  rcases pair with ⟨-, rfl⟩ | ⟨-, rfl⟩ <;> rfl

/-- Nothing is left open after a matched text. -/
theorem Bare.after {quotable : Char → Prop} {t : Text} (bare : n.Bare)
    (matched : Matched quotable t) : n.after t = n := by
  induction matched generalizing n with
  | nil => rfl
  | plain apart rest ih => rw [after_cons, bare.next_plain apart, ih bare]
  | quoted isQuote kept rest ih =>
    have inside := bare.quoted fun c member => ⟨(kept c member).1, (kept c member).2.1⟩
    rw [after_cons, bare.next_quote isQuote, after_append, inside.1, after_cons,
      bare.next_closingQuote isQuote, ih bare]
  | bracketed pair inside rest innerIh ih =>
    have deeper : ({ n with depth := n.depth + 1 } : Nesting).Bare :=
      ⟨bare.unquoted, bare.unescaped⟩
    rw [after_cons, bare.next_opening pair, after_append, innerIh deeper, after_cons,
      bare.next_closing pair, ih bare]

end Nesting

open Nesting

variable {quotable : Char → Prop} {t u : Text}

theorem replaceChar_cons {c d : Char} (other : d ≠ c) (replacement t : Text) :
    replaceChar c replacement (d :: t) = d :: replaceChar c replacement t := by
  rw [← List.singleton_append, replaceChar_append, replaceChar_singleton, if_neg other]
  rfl

theorem replaceChar_eq_self {c : Char} (absent : c ∉ t) (replacement : Text) :
    replaceChar c replacement t = t := by
  induction t with
  | nil => rfl
  | cons d t ih =>
    obtain ⟨other, later⟩ := not_or.mp (mt List.mem_cons.mpr absent)
    rw [replaceChar_cons (Ne.symm other), ih later]

namespace Matched

theorem mono {other : Char → Prop} (matched : Matched quotable t)
    (weaker : ∀ c, quotable c → other c) : Matched other t := by
  induction matched with
  | nil => exact .nil
  | plain apart rest ih => exact .plain apart ih
  | quoted isQuote kept rest ih =>
    exact .quoted isQuote (fun c member =>
      ⟨(kept c member).1, (kept c member).2.1, weaker c (kept c member).2.2⟩) ih
  | bracketed pair inside rest innerIh ih => exact .bracketed pair innerIh ih

theorem append (left : Matched quotable t) (right : Matched quotable u) :
    Matched quotable (t ++ u) := by
  induction left with
  | nil => exact right
  | plain apart rest ih => exact .plain apart ih
  | quoted isQuote kept rest ih =>
    rw [List.cons_append, List.append_assoc]
    exact .quoted isQuote kept ih
  | bracketed pair inside rest innerIh ih =>
    rw [List.cons_append, List.append_assoc]
    exact .bracketed pair inside ih

theorem unescaped (matched : Matched quotable t) : '\\' ∉ t := by
  induction matched with
  | nil => simp
  | plain apart rest ih =>
    simp only [List.mem_cons, not_or] at apart ⊢
    exact ⟨Ne.symm apart.1, ih⟩
  | quoted isQuote kept rest ih =>
    have inside : '\\' ∉ _ := fun member => (kept '\\' member).2.1 rfl
    rcases isQuote with rfl | rfl <;> simp [inside, ih]
  | bracketed pair inside rest innerIh ih =>
    rcases pair with ⟨rfl, rfl⟩ | ⟨rfl, rfl⟩ <;> simp [innerIh, ih]

/-- What follows a matched text is read from the top again. -/
theorem uncut_append_iff (matched : Matched quotable t) :
    Uncut .top (t ++ u) ↔ Uncut .top t ∧ Uncut .top u := by
  rw [uncut_append, top_bare.after matched]

/-- No comma counts in brackets. -/
theorem uncut_of_depth (matched : Matched quotable t) {n : Nesting} (bare : n.Bare)
    (deep : n.depth ≠ 0) : Uncut n t := by
  have notTop : n.isTop = false := by simp [isTop, deep]
  induction matched generalizing n with
  | nil => trivial
  | plain apart rest ih =>
    refine ⟨by simp [notTop], ?_⟩
    rw [bare.next_plain apart]
    exact ih bare deep notTop
  | quoted isQuote kept rest ih =>
    obtain ⟨still, uncut⟩ :=
      bare.quoted fun c member => ⟨(kept c member).1, (kept c member).2.1⟩
    refine ⟨by simp [notTop], ?_⟩
    rw [bare.next_quote isQuote, uncut_append, still, Uncut, bare.next_closingQuote isQuote]
    exact ⟨uncut, by simp [isTop], ih bare deep notTop⟩
  | bracketed pair inside rest innerIh ih =>
    have deeper : ({ n with depth := n.depth + 1 } : Nesting).Bare :=
      ⟨bare.unquoted, bare.unescaped⟩
    refine ⟨by simp [notTop], ?_⟩
    rw [bare.next_opening pair, uncut_append, deeper.after inside, Uncut, bare.next_closing pair]
    exact ⟨innerIh deeper (Nat.succ_ne_zero _) (by simp [isTop]), by simp [isTop],
      ih bare deep notTop⟩

theorem uncut_bracketed {first last : Char} (inside : Matched quotable t)
    (pair : (first = '(' ∧ last = ')') ∨ (first = '[' ∧ last = ']')) :
    Uncut .top (first :: (t ++ [last])) := by
  have deeper : ({ top with depth := 1 } : Nesting).Bare := ⟨rfl, rfl⟩
  refine ⟨?_, ?_⟩
  · rcases pair with ⟨rfl, -⟩ | ⟨rfl, -⟩ <;> simp
  · rw [top_bare.next_opening pair, uncut_append]
    refine ⟨inside.uncut_of_depth deeper (by simp [top]), ?_, trivial⟩
    rcases pair with ⟨-, rfl⟩ | ⟨-, rfl⟩ <;> simp

/-- No `&` stands between quotes, so strings are kept. -/
theorem replaceChar_quoted {q : Char} {inside : Text} (isQuote : q = '"' ∨ q = '\'')
    (kept : ∀ c ∈ inside, c ≠ q ∧ c ≠ '\\' ∧ c ≠ '&') (replacement t : Text) :
    Text.replaceChar '&' replacement (q :: (inside ++ q :: t)) =
      q :: (inside ++ q :: Text.replaceChar '&' replacement t) := by
  have quote : q ≠ '&' := by rcases isQuote with rfl | rfl <;> decide
  have same := replaceChar_eq_self (fun member => (kept '&' member).2.2 rfl) replacement
  rw [replaceChar_cons quote, replaceChar_append, same, replaceChar_cons quote]

theorem replaceChar_bracketed {first last : Char}
    (pair : (first = '(' ∧ last = ')') ∨ (first = '[' ∧ last = ']')) (replacement inner t : Text) :
    Text.replaceChar '&' replacement (first :: (inner ++ last :: t)) =
      first :: (Text.replaceChar '&' replacement inner ++
        last :: Text.replaceChar '&' replacement t) := by
  have brackets : first ≠ '&' ∧ last ≠ '&' := by
    rcases pair with ⟨rfl, rfl⟩ | ⟨rfl, rfl⟩ <;> decide
  rw [replaceChar_cons brackets.1, replaceChar_append, replaceChar_cons brackets.2]

section Replacement

variable {replacement : Text} (inner : Matched (· ≠ '&') t)
  (outer : Matched (fun _ => True) replacement)

include inner outer

/-- A matched text in the place of every `&`, none of which is between quotes. -/
theorem replaceChar : Matched (fun _ => True) (Text.replaceChar '&' replacement t) := by
  induction inner with
  | nil => exact .nil
  | plain apart rest ih =>
    rw [← List.singleton_append, replaceChar_append, replaceChar_singleton]
    split
    · exact outer.append ih
    · exact .plain apart ih
  | quoted isQuote kept rest ih =>
    rw [replaceChar_quoted isQuote kept]
    exact .quoted isQuote (fun c member => ⟨(kept c member).1, (kept c member).2.1, trivial⟩) ih
  | bracketed pair inside rest innerIh ih =>
    rw [replaceChar_bracketed pair]
    exact .bracketed pair innerIh ih

/-- No comma comes to count where a text without such commas is put in the place of every `&`. -/
theorem uncut_replaceChar (uncut : Uncut .top t) (outerUncut : Uncut .top replacement) :
    Uncut .top (Text.replaceChar '&' replacement t) := by
  induction inner with
  | nil => trivial
  | plain apart rest ih =>
    obtain ⟨here, later⟩ := uncut
    rw [top_bare.next_plain apart] at later
    rw [← List.singleton_append, replaceChar_append, replaceChar_singleton]
    split
    · exact outer.uncut_append_iff.mpr ⟨outerUncut, ih later⟩
    · refine ⟨here, ?_⟩
      rw [top_bare.next_plain apart]
      exact ih later
  | @quoted q inside t isQuote kept rest ih =>
    have string : Matched (· ≠ '&') (q :: (inside ++ [q])) := .quoted isQuote kept .nil
    have divided (u : Text) : q :: (inside ++ q :: u) = q :: (inside ++ [q]) ++ u := by simp
    rw [divided, string.uncut_append_iff] at uncut
    rw [replaceChar_quoted isQuote kept, divided, string.uncut_append_iff]
    exact ⟨uncut.1, ih uncut.2⟩
  | @bracketed first last inner t pair inside rest innerIh ih =>
    have group {p : Char → Prop} {inner : Text} (inside : Matched p inner) :
        Matched p (first :: (inner ++ [last])) := .bracketed pair inside .nil
    have divided (inner u : Text) :
        first :: (inner ++ last :: u) = first :: (inner ++ [last]) ++ u := by simp
    have replaced := inside.replaceChar outer
    rw [divided, (group inside).uncut_append_iff] at uncut
    rw [replaceChar_bracketed pair, divided, (group replaced).uncut_append_iff]
    exact ⟨replaced.uncut_bracketed pair, ih uncut.2⟩

end Replacement

end Matched

/-- A text with one space in the place of each run of blanks. -/
def squeeze : Text → Text
  | [] => []
  | c :: t =>
    if isBlank c then if t.head?.any isBlank then squeeze t else ' ' :: squeeze t
    else c :: squeeze t

theorem mem_squeeze {c : Char} (member : c ∈ squeeze t) : c = ' ' ∨ c ∈ t := by
  fun_induction squeeze t with
  | case1 => cases member
  | case2 d t blank more ih => exact (ih member).imp_right (List.mem_cons_of_mem d)
  | case3 d t blank last ih =>
    rcases List.mem_cons.mp member with rfl | later
    · exact .inl rfl
    · exact (ih later).imp_right (List.mem_cons_of_mem d)
  | case4 d t visible ih =>
    rcases List.mem_cons.mp member with rfl | later
    · exact .inr List.mem_cons_self
    · exact (ih later).imp_right (List.mem_cons_of_mem d)

/-- A character that is not blank keeps the runs of blanks apart. -/
theorem squeeze_append {c : Char} (visible : isBlank c = false) (t u : Text) :
    squeeze (t ++ c :: u) = squeeze t ++ c :: squeeze u := by
  induction t with
  | nil => simp [squeeze, visible]
  | cons d t ih =>
    have head : (t ++ c :: u).head?.any isBlank = t.head?.any isBlank := by
      cases t with
      | nil => simpa using visible
      | cons e t => rfl
    rw [List.cons_append, squeeze, squeeze, head, ih]
    split
    · split <;> rfl
    · rfl

theorem Matched.squeeze (matched : Matched quotable t) (space : quotable ' ') :
    Matched quotable (Text.squeeze t) := by
  induction matched with
  | nil => exact .nil
  | plain apart rest ih =>
    rw [Text.squeeze]
    split
    · split
      · exact ih
      · exact .plain (by decide) ih
    · exact .plain apart ih
  | @quoted q inside t isQuote kept rest ih =>
    have visible : isBlank q = false := by rcases isQuote with rfl | rfl <;> rfl
    rw [Text.squeeze, visible, if_neg (by simp), squeeze_append visible]
    refine .quoted isQuote (fun c member => ?_) ih
    rcases mem_squeeze member with rfl | inside
    · refine ⟨?_, by decide, space⟩
      rcases isQuote with rfl | rfl <;> decide
    · exact kept c inside
  | @bracketed first last inner t pair inside rest innerIh ih =>
    have visible : isBlank first = false ∧ isBlank last = false := by
      rcases pair with ⟨rfl, rfl⟩ | ⟨rfl, rfl⟩ <;> exact ⟨rfl, rfl⟩
    rw [Text.squeeze, visible.1, if_neg (by simp), squeeze_append visible.2]
    exact .bracketed pair innerIh ih

theorem head?_squeeze (t : Text) :
    (squeeze t).head? = t.head?.map fun c => if isBlank c then ' ' else c := by
  fun_induction squeeze t with
  | case1 => rfl
  | case2 c t blank more ih =>
    obtain ⟨d, isHead, next⟩ := (Option.any_eq_true _ _).mp more
    rw [ih, isHead]
    simp [blank, next]
  | case3 c t blank last ih => simp [blank]
  | case4 c t visible ih => simp [visible]

theorem words_squeeze (t : Text) : words (squeeze t) = words t := by
  fun_induction squeeze t with
  | case1 => rfl
  | case2 c t blank more ih => rw [ih, words_cons_blank blank]
  | case3 c t blank last ih => rw [words_cons_blank rfl, ih, words_cons_blank blank]
  | case4 c t visible ih =>
    have visible : isBlank c = false := by simpa using visible
    cases t with
    | nil => rfl
    | cons d t =>
      cases next : isBlank d with
      | true =>
        have ends : ∀ e ∈ (squeeze (d :: t)).head?, isBlank e := by
          rw [head?_squeeze]
          simp [next, isBlank_space]
        rw [words_cons_last visible ends, ih, words_cons_last visible (by simp [next])]
      | false =>
        rw [squeeze, next, if_neg (by simp)] at ih ⊢
        rw [words_cons_cons visible next, ih, words_cons_cons visible next]

theorem sparse_squeeze (t : Text) : (squeeze t).Sparse := by
  fun_induction squeeze t with
  | case1 => exact List.isChain_nil
  | case2 c t blank more ih => exact ih
  | case3 c t blank last ih =>
    refine List.isChain_cons.mpr ⟨?_, ih⟩
    rintro e isHead ⟨-, next⟩
    rw [head?_squeeze, Option.mem_def, Option.map_eq_some_iff] at isHead
    obtain ⟨d, first, rfl⟩ := isHead
    have apart : isBlank d = false := by simpa [first] using last
    simp [apart] at next
  | case4 c t visible ih =>
    refine List.isChain_cons.mpr ⟨?_, ih⟩
    rintro e - ⟨blank, -⟩
    exact visible blank

theorem eq_space_of_mem_squeeze {c : Char} (member : c ∈ squeeze t) (blank : isBlank c) :
    c = ' ' := by
  fun_induction squeeze t with
  | case1 => cases member
  | case2 d t isBlank more ih => exact ih member
  | case3 d t isBlank last ih =>
    rcases List.mem_cons.mp member with rfl | later
    · rfl
    · exact ih later
  | case4 d t visible ih =>
    rcases List.mem_cons.mp member with rfl | later
    · exact absurd blank visible
    · exact ih later

/-- Collapsing is squeezing and trimming. -/
theorem collapse_eq_trim_squeeze (t : Text) : collapse t = trim (squeeze t) := by
  obtain ⟨w, v, split, -, -⟩ := exists_append_trim (squeeze t)
  have inside : trim (squeeze t) <:+: squeeze t := ⟨w, v, split.symm⟩
  have sparse := sparse_squeeze t
  have tidy : Tidy (trim (squeeze t)) :=
    ⟨fun c member => eq_space_of_mem_squeeze (inside.subset member),
      sparse.infix inside, fun c first => isBlank_head_trim first,
      fun c last => isBlank_last_trim last⟩
  rw [← collapse_eq_self tidy, collapse_trim, collapse, collapse, words_squeeze]

theorem trim_squeeze (head : ∀ c ∈ t.head?, isBlank c = false)
    (last : ∀ c ∈ t.getLast?, isBlank c = false) : trim (squeeze t) = squeeze t := by
  refine trim_eq_self (fun c first => ?_) (fun c final => ?_)
  · rw [head?_squeeze, Option.mem_def, Option.map_eq_some_iff] at first
    obtain ⟨d, isHead, rfl⟩ := first
    simp [head d isHead]
  · rcases List.eq_nil_or_concat t with rfl | ⟨init, d, rfl⟩
    · cases final
    · rw [List.concat_eq_append] at final last
      have visible := last d (by simp)
      rw [squeeze_append visible] at final
      obtain rfl : d = c := by simpa [squeeze] using final
      exact visible

theorem collapse_eq_nil_iff (t : Text) : collapse t = [] ↔ trim t = [] := by
  rw [← collapse_trim]
  cases visible : trim t with
  | nil => exact ⟨fun _ => rfl, fun _ => rfl⟩
  | cons c rest =>
    have first : isBlank c = false := isBlank_head_trim (t := t) (by rw [visible]; rfl)
    obtain ⟨word, words, split⟩ := List.exists_cons_of_ne_nil (words_ne_nil first rest)
    have wordVisible := (mem_words (t := c :: rest) (by rw [split]; exact List.mem_cons_self)).1
    rw [collapse, split]
    simp [intercalate_ne_nil [' '] words wordVisible]

/-- Blanks after a text belong to its last part. -/
theorem exists_last_splitCommasFrom (n : Nesting) (t : Text) {w : Text}
    (blank : ∀ c ∈ w, isBlank c) :
    ∃ before last, splitCommasFrom n t = before ++ [last] ∧
      splitCommasFrom n (t ++ w) = before ++ [last ++ w] := by
  induction t generalizing n with
  | nil =>
    have uncut : Uncut n w := uncut_of_not_mem n fun comma => by cases blank ',' comma
    exact ⟨[], [], rfl, splitCommasFrom_of_uncut uncut⟩
  | cons c t ih =>
    obtain ⟨before, last, split, more⟩ := ih (n.next c)
    rw [List.cons_append, splitCommasFrom, splitCommasFrom, split, more]
    split
    · exact ⟨[] :: before, last, rfl, rfl⟩
    · cases before with
      | nil => exact ⟨[], c :: last, rfl, rfl⟩
      | cons first before => exact ⟨(c :: first) :: before, last, rfl, rfl⟩

/-- The first part begins as the text does, as far as blanks go. -/
theorem head?_of_splitCommasFrom {n : Nesting} {first : Text} {rest : List Text}
    (split : splitCommasFrom n t = first :: rest) :
    first.head?.any isBlank = t.head?.any isBlank := by
  cases t with
  | nil =>
    cases split
    rfl
  | cons c t =>
    rw [splitCommasFrom] at split
    split at split
    · rename_i comma
      simp only [Bool.and_eq_true, decide_eq_true_eq] at comma
      cases split
      rw [comma.1]
      rfl
    · obtain ⟨part, parts, later⟩ :=
        List.exists_cons_of_ne_nil (splitCommasFrom_ne_nil (n.next c) t)
      rw [later] at split
      cases split
      rfl

/-- Runs of blanks are squeezed in each part on its own. -/
theorem splitCommasFrom_squeeze {n : Nesting} (plain : n.Plain) (unescaped : '\\' ∉ t) :
    splitCommasFrom n (squeeze t) = (splitCommasFrom n t).map squeeze := by
  induction t generalizing n with
  | nil => rfl
  | cons c t ih =>
    obtain ⟨notEscape, later⟩ := not_or.mp (mt List.mem_cons.mpr unescaped)
    cases blank : isBlank c with
    | true =>
      have notComma : c ≠ ',' := by
        rintro rfl
        cases blank
      have same := plain.next_blank blank
      have ih := ih plain later
      obtain ⟨first, rest, split⟩ := List.exists_cons_of_ne_nil (splitCommasFrom_ne_nil n t)
      have head := head?_of_splitCommasFrom split
      rw [squeeze, if_pos blank, splitCommasFrom, same, split]
      rw [split] at ih
      cases more : t.head?.any isBlank with
      | true => simp [notComma, ih, squeeze, blank, head, more]
      | false =>
        have space : n.next ' ' = n := plain.next_blank rfl
        simp [notComma, ih, squeeze, blank, head, more, splitCommasFrom, space]
    | false =>
      have ih := ih (plain.next (Ne.symm notEscape)) later
      rw [squeeze, blank, if_neg (by simp), splitCommasFrom, splitCommasFrom, ih]
      split
      · rfl
      · cases splitCommasFrom (n.next c) t with
        | nil => rfl
        | cons first rest => simp [squeeze, blank]

end Text

end Stylesheet
