import Stylesheet.Proofs.FlatOutput
import Stylesheet.Proofs.Holding
import Stylesheet.Proofs.Placeholders

set_option autoImplicit false

namespace Stylesheet

namespace Text

variable {length : Text → Nat} {f : Text → Text} {c : Char} {t : Text}

/-- A match is what a pattern finds at some place. -/
theorem exists_of_found {m : Text} (found : .found m ∈ pieces length t) :
    ∃ u, u <:+ t ∧ length u ≠ 0 ∧ m = u.take (length u) := by
  induction size : t.length using Nat.strong_induction_on generalizing t with
  | _ n ih =>
    subst size
    cases t with
    | nil => cases found
    | cons c t =>
      by_cases unmatched : length (c :: t) = 0
      · rw [pieces_plain unmatched] at found
        obtain ⟨u, suffix, matched⟩ := ih t.length (by simp) (by simpa using found) rfl
        exact ⟨u, suffix.trans (List.suffix_cons c t), matched⟩
      · rw [pieces_of_match unmatched (List.cons_ne_nil c t), List.mem_cons] at found
        rcases found with here | later
        · cases here
          exact ⟨c :: t, List.suffix_rfl, unmatched, rfl⟩
        · have shorter : ((c :: t).drop (length (c :: t))).length < (c :: t).length := by
            rw [List.length_drop, List.length_cons]
            omega
          obtain ⟨u, suffix, matched⟩ := ih _ shorter later rfl
          exact ⟨u, suffix.trans (List.drop_suffix _ _), matched⟩

/-- A character at which all matches of a pattern stop. -/
structure Stops (length : Text → Nat) (c : Char) : Prop where
  same : ∀ t u, length (t ++ c :: u) = length t
  within : ∀ t, length t ≤ t.length

/-- A text is divided at such a character. -/
theorem Stops.replace (stops : Stops length c) (f : Text → Text) (t u : Text) :
    Text.replace length f (t ++ c :: u) =
      Text.replace length f t ++ c :: Text.replace length f u := by
  induction size : t.length using Nat.strong_induction_on generalizing t with
  | _ n ih =>
    subst size
    cases t with
    | nil =>
      have none : length (c :: u) = 0 :=
        (stops.same [] u).trans (Nat.le_zero.mp (stops.within []))
      exact replace_cons none
    | cons d t =>
      have same := stops.same (d :: t) u
      by_cases unmatched : length (d :: t) = 0
      · rw [unmatched] at same
        have step : Text.replace length f (d :: (t ++ c :: u)) =
          d :: Text.replace length f (t ++ c :: u) := replace_cons same
        rw [List.cons_append, step, ih t.length (by simp) t rfl, replace_cons unmatched,
          List.cons_append]
      · have inside := stops.within (d :: t)
        have shorter : ((d :: t).drop (length (d :: t))).length < (d :: t).length := by
          rw [List.length_drop, List.length_cons]
          omega
        rw [replace_of_match (same ▸ unmatched) (by simp), same,
          replace_of_match unmatched (List.cons_ne_nil d t), List.take_append_of_le_length inside,
          List.drop_append_of_le_length inside, ih _ shorter _ rfl, List.append_assoc]

theorem countWhile_append_cons {p : Char → Bool} (stop : p c = false) (t u : Text) :
    countWhile p (t ++ c :: u) = countWhile p t := by
  induction t with
  | nil => simp [countWhile, stop]
  | cons d t ih =>
    simp only [countWhile, List.cons_append, List.takeWhile_cons] at ih ⊢
    cases p d <;> simp [ih]

theorem countWhile_le (p : Char → Bool) (t : Text) : countWhile p t ≤ t.length :=
  (List.takeWhile_prefix p).length_le

end Text

namespace Layout

theorem paddingLength_open (t : Text) : paddingLength ('(' :: t) =
    if t.head? = some ' ' then 1 + Text.countWhile (· = ' ') t else 0 := by
  cases t with
  | nil => rfl
  | cons d t =>
    by_cases space : d = ' '
    · simp only [space, paddingLength, List.head?_cons, ↓reduceIte, Text.countWhile]
      simp
      omega
    · simp [paddingLength, space]

theorem paddingLength_comma (t : Text) : paddingLength (',' :: t) =
    if [' ', ' '] <+: t then 1 + Text.countWhile (· = ' ') t else 0 := by
  match t with
  | [] => rfl
  | [d] => simp [paddingLength]
  | d :: e :: t =>
    by_cases spaces : d = ' ' ∧ e = ' '
    · obtain ⟨rfl, rfl⟩ := spaces
      simp only [paddingLength, List.cons_prefix_cons, List.nil_prefix, and_self, ↓reduceIte,
        Text.countWhile]
      simp
      omega
    · have none : ¬ [' ', ' '] <+: d :: e :: t := by
        simp only [List.cons_prefix_cons, List.nil_prefix, and_true]
        rintro ⟨rfl, rfl⟩
        exact spaces ⟨rfl, rfl⟩
      rw [if_neg none]
      unfold paddingLength
      split <;> simp_all

theorem paddingLength_space (t : Text) : paddingLength (' ' :: t) =
    if (t.drop (Text.countWhile (· = ' ') t)).head? = some ')' then
      Text.countWhile (· = ' ') t + 2 else 0 := rfl

theorem paddingLength_other {c : Char} (other : c ≠ '(' ∧ c ≠ ',' ∧ c ≠ ' ') (t : Text) :
    paddingLength (c :: t) = 0 := by
  unfold paddingLength
  split <;> simp_all

/-- Every text begins with a run of spaces, which may be empty. -/
theorem exists_spaces (t : Text) :
    ∃ n rest, t = List.replicate n ' ' ++ rest ∧ rest.head? ≠ some ' ' := by
  induction t with
  | nil => exact ⟨0, [], rfl, by simp⟩
  | cons c t ih =>
    by_cases space : c = ' '
    · obtain ⟨n, rest, whole, stop⟩ := ih
      refine ⟨n + 1, rest, ?_, stop⟩
      rw [space, whole, List.replicate_succ, List.cons_append]
    · exact ⟨0, c :: t, rfl, by simpa using space⟩

theorem countWhile_replicate {t : Text} (n : Nat) (stop : t.head? ≠ some ' ') :
    Text.countWhile (· = ' ') (List.replicate n ' ' ++ t) = n := by
  rw [Text.countWhile_append (by simp), List.length_replicate]
  intro c first
  simp only [decide_eq_false_iff_not]
  rintro rfl
  exact stop first

/-- Whether a text has a space after an opening parenthesis or before a closing one, or two spaces
after a comma. -/
def isPadded (t : Text) : Bool :=
  [['(', ' '], [' ', ')'], [',', ' ', ' ']].any fun padding => decide (padding <:+: t)

theorem isPadded_eq_false_iff {t : Text} : isPadded t = false ↔
    ¬ ['(', ' '] <:+: t ∧ ¬ [' ', ')'] <:+: t ∧ ¬ [',', ' ', ' '] <:+: t := by
  simp [isPadded]

/-- A text without padding stays as it is. -/
theorem unpadded_eq_self {t : Text} (bare : isPadded t = false) : unpadded t = t := by
  obtain ⟨opened, closed, comma⟩ := isPadded_eq_false_iff.mp bare
  refine Text.replace_eq_self (fun u isSuffix => ?_) _
  have apart {padding before after : Text} (none : ¬ padding <:+: t)
      (split : u = before ++ (padding ++ after)) : False := by
    refine none (List.IsInfix.trans ⟨before, after, ?_⟩ isSuffix.isInfix)
    rw [split, List.append_assoc]
  cases u with
  | nil => rfl
  | cons c u =>
    by_cases isOpen : c = '('
    · subst isOpen
      rw [paddingLength_open, if_neg]
      intro first
      obtain ⟨v, rfl⟩ := List.head?_eq_some_iff.mp first
      exact @apart _ [] v opened rfl
    by_cases isComma : c = ','
    · subst isComma
      rw [paddingLength_comma, if_neg]
      rintro ⟨v, rfl⟩
      exact @apart _ [] v comma rfl
    by_cases isSpace : c = ' '
    · subst isSpace
      obtain ⟨n, rest, rfl, stop⟩ := exists_spaces u
      rw [paddingLength_space, countWhile_replicate n stop, List.drop_left' (by simp), if_neg]
      intro first
      obtain ⟨v, rfl⟩ := List.head?_eq_some_iff.mp first
      -- The spaces before the parenthesis are all alike, so the last one is a space.
      refine @apart _ (List.replicate n ' ') v closed ?_
      rw [← List.cons_append, ← List.replicate_succ, List.replicate_succ']
      simp
    · exact paddingLength_other ⟨isOpen, isComma, isSpace⟩ u

theorem stops_paddingLength {q : Char} (quotes : Text.isQuote q) : Text.Stops paddingLength q := by
  have other : q ≠ '(' ∧ q ≠ ',' ∧ q ≠ ' ' ∧ q ≠ ')' := by
    refine ⟨?_, ?_, ?_, ?_⟩ <;> rintro rfl <;> cases quotes
  have count (t u : Text) : Text.countWhile (· = ' ') (t ++ q :: u) = Text.countWhile (· = ' ') t :=
    Text.countWhile_append_cons (by simp [other]) t u
  constructor
  · intro t u
    cases t with
    | nil => exact paddingLength_other ⟨other.1, other.2.1, other.2.2.1⟩ u
    | cons c t =>
      rw [List.cons_append]
      by_cases opens : c = '('
      · have same : (t ++ q :: u).head? = some ' ' ↔ t.head? = some ' ' := by
          cases t <;> simp [other]
        simp only [opens, paddingLength_open, count, same]
      by_cases comma : c = ','
      · have same : [' ', ' '] <+: t ++ q :: u ↔ [' ', ' '] <+: t :=
          ⟨fun here => Text.prefix_of_not_mem here (by simp [other]),
            fun here => here.trans ⟨_, rfl⟩⟩
        simp only [comma, paddingLength_comma, count, same]
      by_cases space : c = ' '
      · have same : ((t ++ q :: u).drop (Text.countWhile (· = ' ') t)).head? = some ')' ↔
            (t.drop (Text.countWhile (· = ' ') t)).head? = some ')' := by
          rw [List.drop_append_of_le_length (Text.countWhile_le _ t)]
          cases t.drop (Text.countWhile (· = ' ') t) <;> simp [other]
        simp only [space, paddingLength_space, count, same]
      rw [paddingLength_other ⟨opens, comma, space⟩, paddingLength_other ⟨opens, comma, space⟩]
  · intro t
    cases t with
    | nil => exact Nat.le_refl 0
    | cons c t =>
      have inside := Text.countWhile_le (· = ' ') t
      rw [List.length_cons]
      by_cases opens : c = '('
      · rw [opens, paddingLength_open]
        split <;> omega
      by_cases comma : c = ','
      · rw [comma, paddingLength_comma]
        split <;> omega
      by_cases space : c = ' '
      · rw [space, paddingLength_space]
        split
        · rename_i closes
          have more := List.mem_of_head? closes
          have left := List.length_pos_of_mem more
          rw [List.length_drop] at left
          omega
        · omega
      rw [paddingLength_other ⟨opens, comma, space⟩]
      exact Nat.zero_le _

theorem closingGapLength_eq (t : Text) : closingGapLength t =
    if ['}', '\n', '\n', '}'] <+: t then 4 else 0 := by
  unfold closingGapLength
  split
  · simp
  · rename_i none
    rw [if_neg]
    rintro ⟨u, rfl⟩
    exact none u rfl

theorem stops_closingGapLength {c : Char} (other : c ≠ '}' ∧ c ≠ '\n') :
    Text.Stops closingGapLength c := by
  constructor
  · intro t u
    have same : ['}', '\n', '\n', '}'] <+: t ++ c :: u ↔ ['}', '\n', '\n', '}'] <+: t :=
      ⟨fun here => Text.prefix_of_not_mem here (by simp [other]), fun here => here.trans ⟨_, rfl⟩⟩
    simp only [closingGapLength_eq, same]
  · intro t
    rw [closingGapLength_eq]
    split
    · rename_i here
      exact here.length_le
    · exact Nat.zero_le _

/-- A text without line breaks is not a line of its own. -/
theorem dropPaddingLines_unbroken {t : Text} (unbroken : '\n' ∉ t) : dropPaddingLines t = t := by
  have one : Text.lines t = [t] := List.splitOn_eq_singleton unbroken
  simp [dropPaddingLines, one]

theorem dropPaddingLines_break {line : Text} (unbroken : '\n' ∉ line) (t : Text) :
    dropPaddingLines (line ++ '\n' :: t) =
      (if isPaddingLine line then [] else line ++ ['\n']) ++ dropPaddingLines t := by
  have other : ∀ c ∈ line, (c == '\n') = false := by
    intro c member
    rw [beq_eq_false_iff_ne]
    rintro rfl
    exact unbroken member
  have divided : Text.lines (line ++ '\n' :: t) = line :: Text.lines t :=
    List.splitOnP_append_cons_of_forall_mem other '\n' (by simp) t
  obtain ⟨next, rest, lines⟩ := List.exists_cons_of_ne_nil (Text.lines_ne_nil t)
  rw [dropPaddingLines, dropPaddingLines, divided, lines]
  simp only [List.dropLast_cons_cons, List.getLast?_cons_cons, List.filter_cons]
  cases padding : isPaddingLine line with
  | true => simp
  | false =>
    have joined (lines : List Text) (filled : lines ≠ []) :
        ['\n'].intercalate (line :: lines) = line ++ '\n' :: ['\n'].intercalate lines := by
      obtain ⟨next, lines, rfl⟩ := List.exists_cons_of_ne_nil filled
      simp [List.intercalate_cons_cons]
    simp only [Bool.not_false, ↓reduceIte, List.cons_append, Bool.false_eq_true]
    rw [joined _ (by simp)]
    simp

/-- A text has a first line break or none. -/
theorem unbroken_or_break (t : Text) :
    '\n' ∉ t ∨ ∃ line rest, t = line ++ '\n' :: rest ∧ '\n' ∉ line := by
  by_cases broken : '\n' ∈ t
  · exact .inr (List.eq_append_cons_of_mem broken)
  · exact .inl broken

/-- At a visible character the text is divided. -/
theorem dropPaddingLines_append {c : Char} (visible : Text.isBlank c = false) (t u : Text) :
    dropPaddingLines (t ++ c :: u) = dropPaddingLines t ++ dropPaddingLines (c :: u) := by
  have other := Text.ne_break_of_visible visible
  induction size : t.length using Nat.strong_induction_on generalizing t with
  | _ n ih =>
    subst size
    rcases unbroken_or_break t with unbroken | ⟨line, rest, rfl, unbroken⟩
    · rcases unbroken_or_break u with unbroken' | ⟨line, rest, rfl, unbroken'⟩
      · rw [dropPaddingLines_unbroken unbroken, dropPaddingLines_unbroken,
          dropPaddingLines_unbroken] <;> simp [unbroken, unbroken', other.symm]
      · have whole := @dropPaddingLines_break (t ++ c :: line)
          (by simp [unbroken, unbroken', other.symm]) rest
        have later := @dropPaddingLines_break (c :: line)
          (by simp [unbroken', other.symm]) rest
        rw [isPaddingLine_of_visible (c := c) (by simp) visible] at whole later
        rw [dropPaddingLines_unbroken unbroken, ← List.cons_append, later]
        simpa using whole
    · rw [List.append_assoc, List.cons_append, dropPaddingLines_break unbroken,
        dropPaddingLines_break unbroken, ih rest.length (by simp; omega) rest rfl,
        List.append_assoc]

/-- Strings are kept where lines of padding are dropped, if no line ends in them. -/
theorem holds_dropPaddingLines {p : Char → Bool} {texts : List Text} {t : Text}
    (holds : Text.Holds texts t) (framed : ∀ s ∈ texts, Text.Framed p s)
    (visible : ∀ c, p c → Text.isBlank c = false) (unbroken : ∀ s ∈ texts, '\n' ∉ s) :
    Text.Holds texts (dropPaddingLines t) := by
  suffices whole : ∀ before, Text.Holds texts (before ++ t) →
      Text.Holds texts (before ++ dropPaddingLines t) from whole [] holds
  clear holds
  induction size : t.length using Nat.strong_induction_on generalizing t texts with
  | _ n ih =>
    subst size
    intro before holds
    rcases unbroken_or_break t with whole | ⟨line, rest, rfl, whole⟩
    · rwa [dropPaddingLines_unbroken whole]
    · rw [dropPaddingLines_break whole]
      have split : line ++ '\n' :: rest = (line ++ ['\n']) ++ rest := by simp
      rw [split] at holds
      have shorter : rest.length < (line ++ '\n' :: rest).length := by
        simp
        omega
      cases padding : isPaddingLine line with
      | false =>
        rw [← List.append_assoc] at holds
        simpa using ih rest.length shorter framed unbroken rfl _ holds
      | true =>
        simp only [isPaddingLine, Bool.and_eq_true, List.all_eq_true, Bool.or_eq_true,
          decide_eq_true_eq] at padding
        have bare : ∀ c ∈ line ++ ['\n'], p c = false := by
          intro c member
          by_contra fits
          have seen := visible c (by simpa using fits)
          rcases List.mem_append.mp member with inLine | isBreak
          · rcases padding.2 c inLine with rfl | rfl <;> cases seen
          · obtain rfl := List.mem_singleton.mp isBreak
            cases seen
        have outside : ∀ s ∈ texts, ¬ line ++ ['\n'] <:+: s := fun s member inside =>
          unbroken s member (inside.subset (by simp))
        obtain ⟨first, last, rfl, inFirst, inLast⟩ := Text.Holds.around framed holds bare outside
        have kept := ih rest.length shorter (fun s member => framed s (by simp [member]))
          (fun s member => unbroken s (by simp [member])) rfl [] inLast
        exact inFirst.append kept

theorem unpadded_append_quote {q : Char} (quotes : Text.isQuote q) (t u : Text) :
    unpadded (t ++ q :: u) = unpadded t ++ unpadded (q :: u) := by
  have cut := (stops_paddingLength quotes).replace unpad
  rw [unpadded, cut, unpadded, unpadded, show q :: u = [] ++ q :: u from rfl, cut]
  rfl

theorem unpadded_quote_append {q : Char} (quotes : Text.isQuote q) (t u : Text) :
    unpadded (t ++ [q] ++ u) = unpadded (t ++ [q]) ++ unpadded u := by
  have cut := (stops_paddingLength quotes).replace unpad
  rw [unpadded, List.append_assoc, List.singleton_append, cut, unpadded, unpadded, cut]
  simp

theorem framed_unpadded {s : Text} (framed : s.Framed Text.isQuote) :
    Text.Framed Text.isQuote (unpadded s) := by
  obtain ⟨⟨q, first, quotes⟩, q', last, quotes'⟩ := framed
  constructor
  · obtain ⟨u, rfl⟩ := List.head?_eq_some_iff.mp first
    refine ⟨q, ?_, quotes⟩
    rw [unpadded, show q :: u = [] ++ q :: u from rfl, (stops_paddingLength quotes).replace]
    rfl
  · obtain ⟨u, rfl⟩ := List.getLast?_eq_some_iff.mp last
    refine ⟨q', ?_, quotes'⟩
    rw [unpadded, (stops_paddingLength quotes').replace]
    simp

/-- Padding is taken out of strings and of what stands between them. -/
theorem holds_unpadded {texts : List Text} {t : Text} (holds : Text.Holds texts t)
    (framed : ∀ s ∈ texts, s.Framed Text.isQuote) :
    Text.Holds (texts.map unpadded) (unpadded t) := by
  induction holds with
  | nil => exact .nil _
  | @cons s texts t before rest ih =>
    obtain ⟨⟨q, first, quotes⟩, q', last, quotes'⟩ := framed s List.mem_cons_self
    have divided :
        unpadded (before ++ (s ++ t)) = unpadded before ++ (unpadded s ++ unpadded t) := by
      obtain ⟨u, isFirst⟩ := List.head?_eq_some_iff.mp first
      obtain ⟨v, isLast⟩ := List.getLast?_eq_some_iff.mp last
      have left : unpadded (before ++ (s ++ t)) = unpadded before ++ unpadded (s ++ t) := by
        rw [isFirst]
        exact unpadded_append_quote quotes before (u ++ t)
      have right : unpadded (s ++ t) = unpadded s ++ unpadded t := by
        rw [isLast]
        exact unpadded_quote_append quotes' v t
      rw [left, right]
    rw [divided, List.map_cons]
    exact .cons _ (ih fun s member => framed s (List.mem_cons_of_mem _ member))

/-- The last pass but for the blanks at the ends. -/
def tidy (t : Text) : Text :=
  Text.replace closingGapLength (fun _ => ['}', '\n', '}']) (dropPaddingLines t)

theorem finish_eq_trim_tidy (t : Text) : finish t = Text.trim (tidy t) := rfl

theorem holds_finish {texts : List Text} {t : Text} (holds : Text.Holds texts t)
    (framed : ∀ s ∈ texts, s.Framed Text.isQuote) (unbroken : ∀ s ∈ texts, '\n' ∉ s) :
    Text.Holds texts (finish t) := by
  have visible (c : Char) (quotes : Text.isQuote c) : Text.isBlank c = false :=
    Text.isBlank_of_isQuote quotes
  have lined := holds_dropPaddingLines holds framed visible unbroken
  refine Text.Holds.trim (lined.replace framed ?_) fun s member =>
    (framed s member).mono fun c quotes => by simp [visible c quotes]
  intro m found _
  obtain ⟨u, -, matched, rfl⟩ := Text.exists_of_found found
  rw [closingGapLength_eq] at matched ⊢
  have here : ['}', '\n', '\n', '}'] <+: u := by
    by_contra none
    simp [none] at matched
  obtain ⟨v, rfl⟩ := here
  refine ⟨by simp [Text.isQuote], fun s member inside => unbroken s member (inside.subset ?_)⟩
  simp

/-- What comes before a line break is dropped or kept whatever follows. -/
theorem exists_dropPaddingLines (t : Text) :
    ∃ kept, ∀ u, dropPaddingLines (t ++ '\n' :: u) = kept ++ dropPaddingLines u := by
  induction size : t.length using Nat.strong_induction_on generalizing t with
  | _ n ih =>
    subst size
    rcases unbroken_or_break t with unbroken | ⟨line, rest, rfl, unbroken⟩
    · exact ⟨_, dropPaddingLines_break unbroken⟩
    · obtain ⟨kept, later⟩ := ih rest.length (by simp; omega) rest rfl
      refine ⟨(if isPaddingLine line then [] else line ++ ['\n']) ++ kept, fun u => ?_⟩
      rw [List.append_assoc, List.cons_append, dropPaddingLines_break unbroken, later,
        List.append_assoc]

theorem dropPaddingLines_visible {c : Char} (visible : Text.isBlank c = false) (t : Text) :
    ∃ u, dropPaddingLines (c :: t) = c :: u := by
  have other := Text.ne_break_of_visible visible
  rcases unbroken_or_break t with unbroken | ⟨line, rest, rfl, unbroken⟩
  · exact ⟨t, dropPaddingLines_unbroken (by simp [unbroken, other.symm])⟩
  · have first := @dropPaddingLines_break (c :: line) (by simp [unbroken, other.symm]) rest
    rw [isPaddingLine_of_visible List.mem_cons_self visible] at first
    exact ⟨_, first⟩

theorem tidy_append_semicolon (t u : Text) :
    ∃ after, tidy (t ++ ';' :: u) = tidy t ++ ';' :: after ∧ (u = [] → after = []) := by
  have cut := (stops_closingGapLength (c := ';') (by decide)).replace fun _ => ['}', '\n', '}']
  obtain ⟨v, kept⟩ := dropPaddingLines_visible (c := ';') rfl u
  refine ⟨Text.replace closingGapLength (fun _ => ['}', '\n', '}']) v, ?_, ?_⟩
  · rw [tidy, dropPaddingLines_append rfl, kept, cut]
    rfl
  · rintro rfl
    obtain rfl := (List.cons.inj (kept.symm.trans (dropPaddingLines_unbroken (by simp)))).2
    rfl

/-- The last pass over a text inside of a block, which is indented. -/
theorem tidy_indent {c : Char} (visible : Text.isBlank c = false) {depth : Nat}
    (inBlock : depth ≠ 0) (a t : Text) :
    ∃ before, tidy (a ++ (indent depth ++ c :: t)) = before ++ tidy (c :: t) ∧
      (a = [] → ∀ d ∈ before, Text.isBlank d) := by
  have cut := (stops_closingGapLength (c := ' ') (by decide)).replace fun _ => ['}', '\n', '}']
  obtain ⟨n, spaces⟩ : ∃ n, List.replicate (2 * depth) ' ' = List.replicate n ' ' ++ [' '] :=
    ⟨2 * depth - 1, by rw [← List.replicate_succ']; congr 1; omega⟩
  have unbroken : '\n' ∉ List.replicate (2 * depth) ' ' := by simp
  obtain ⟨kept, dropped⟩ := exists_dropPaddingLines a
  have lined : dropPaddingLines (a ++ (indent depth ++ c :: t)) =
      kept ++ List.replicate n ' ' ++ ' ' :: dropPaddingLines (c :: t) := by
    rw [← List.append_assoc, dropPaddingLines_append visible, indent, dropped,
      dropPaddingLines_unbroken unbroken, spaces]
    simp
  refine ⟨Text.replace closingGapLength (fun _ => ['}', '\n', '}'])
    (kept ++ List.replicate n ' ') ++ [' '], ?_, ?_⟩
  · rw [tidy, lined, cut, tidy]
    simp
  · rintro rfl
    have one : kept = ['\n'] := by
      have first := dropped []
      rw [dropPaddingLines_break (by simp)] at first
      simpa [dropPaddingLines_unbroken, isPaddingLine] using first.symm
    have calm : ∀ u, u <:+ '\n' :: List.replicate n ' ' → closingGapLength u = 0 := by
      intro u suffix
      rw [closingGapLength_eq, if_neg]
      intro here
      have brace := suffix.subset (here.subset (List.mem_cons_self (a := '}')))
      simp at brace
    rw [one, List.singleton_append, Text.replace_eq_self calm]
    intro d member
    simp only [List.cons_append, List.mem_cons, List.mem_append, List.mem_replicate,
      List.not_mem_nil, or_false] at member
    rcases member with rfl | ⟨-, rfl⟩ | rfl <;> rfl

/-- A part of raw output that begins on a line of its own, inside of a block, and ends with a
semicolon is finished by itself. -/
theorem infix_finish {c : Char} (visible : Text.isBlank c = false) {depth : Nat}
    (inBlock : depth ≠ 0) (a t b : Text) :
    finish (indent depth ++ (c :: t ++ [';'])) <:+:
      finish (a ++ (indent depth ++ (c :: t ++ ';' :: b))) := by
  have framed : Text.Framed (!Text.isBlank ·) (tidy (c :: t) ++ [';']) := by
    refine ⟨?_, ';', by simp, rfl⟩
    obtain ⟨u, kept⟩ := dropPaddingLines_visible visible t
    rw [tidy, kept]
    by_cases unmatched : closingGapLength (c :: u) = 0
    · rw [Text.replace_cons unmatched]
      exact ⟨c, rfl, by simp [visible]⟩
    · rw [Text.replace_of_match unmatched (by simp)]
      exact ⟨'}', rfl, rfl⟩
  have divided (a b : Text) : ∃ before after, tidy (a ++ (indent depth ++ (c :: t ++ ';' :: b))) =
      before ++ (tidy (c :: t) ++ [';'] ++ after) ∧ (a = [] → ∀ d ∈ before, Text.isBlank d) ∧
        (b = [] → after = []) := by
    obtain ⟨before, split, blank⟩ := tidy_indent visible inBlock a (t ++ ';' :: b)
    obtain ⟨after, split', none⟩ := tidy_append_semicolon (c :: t) b
    rw [List.cons_append] at split'
    rw [split'] at split
    exact ⟨before, after, by simpa using split, blank, none⟩
  have alone : finish (indent depth ++ (c :: t ++ [';'])) = tidy (c :: t) ++ [';'] := by
    obtain ⟨before, after, own, blank, none⟩ := divided [] []
    rw [List.nil_append] at own
    rw [finish_eq_trim_tidy, own, none rfl, List.append_nil,
      Text.trim_append_of_blank_left (blank rfl)]
    obtain ⟨⟨d, first, seen⟩, -⟩ := framed
    apply Text.trim_eq_self
    · intro e isFirst
      obtain rfl := Option.mem_unique first isFirst
      simpa using seen
    · simp [show Text.isBlank ';' = false from rfl]
  obtain ⟨before, after, whole, -, -⟩ := divided a b
  have inside : Text.Holds [tidy (c :: t) ++ [';']]
      (tidy (a ++ (indent depth ++ (c :: t ++ ';' :: b)))) := by
    rw [whole]
    exact .cons before (.nil after)
  rw [alone, finish_eq_trim_tidy]
  exact (inside.trim (by simpa using framed)).isInfix

/-- A declaration in a block is finished by itself. -/
theorem infix_finish_declaration {name : Text} (named : Text.trim name ≠ []) (value : Text)
    {depth : Nat} (inBlock : depth ≠ 0) {raw : Text}
    (inside : declaration (Text.trim name) value depth <:+: raw) :
    finish (declaration (Text.trim name) value depth) <:+: finish raw := by
  obtain ⟨c, key, whole⟩ := List.exists_cons_of_ne_nil named
  have visible : Text.isBlank c = false := Text.isBlank_head_trim (t := name) (by rw [whole]; rfl)
  obtain ⟨a, b, rfl⟩ := inside
  have finished := infix_finish visible inBlock a (key ++ [':', ' '] ++ unpadded value) b
  simpa [declaration, whole] using finished

end Layout

/-- A reference is a dollar sign and a name. -/
theorem Reference.exists_of_length {t : Text} (found : length t ≠ 0) :
    ∃ name, (∀ c ∈ name, isNameChar c) ∧ t.take (length t) = '$' :: name := by
  unfold length at found ⊢
  split at found
  · rename_i t
    refine ⟨t.takeWhile isNameChar, fun c => List.mem_takeWhile_imp, ?_⟩
    have whole := List.prefix_iff_eq_take.mp (List.takeWhile_prefix isNameChar (l := t))
    rw [← Text.countWhile] at whole
    split at found
    · exact absurd rfl found
    · rw [List.take_succ_cons, ← whole]
  · exact absurd rfl found

/-- Whether `url(` stands at the start of a text, in upper or lower case. -/
def Image.opensReference : Text → Bool
  | u :: r :: l :: '(' :: _ => u.toLower = 'u' && r.toLower = 'r' && l.toLower = 'l'
  | _ => false

/-- Whether no reference that is replaced by an image has a quotation mark. -/
def Image.sparesQuotes (volume : Volume) (directory : Path) (value : Text) : Bool :=
  (Text.pieces referenceLength value).all fun
    | .plain _ => true
    | .found m => (load? volume directory m).isNone || m.all (!Text.isQuote ·)

/-- Whether a string is without dollar signs, line breaks and `url(`. -/
def Text.isLasting (s : Text) : Bool :=
  !s.contains '$' && !s.contains '\n' && !s.tails.any Image.opensReference

theorem Text.isLasting_iff {s : Text} : s.isLasting ↔
    '$' ∉ s ∧ '\n' ∉ s ∧ ∀ u, u <:+ s → Image.opensReference u = false := by
  simp [isLasting, and_assoc]

section

variable {texts : List Text} {t : Text} (holds : Text.Holds texts t)
  (framed : ∀ s ∈ texts, s.Framed Text.isQuote) (lasting : ∀ s ∈ texts, s.isLasting)

include holds framed lasting

/-- No reference to a variable is in such a string, nor does one reach into it. -/
theorem Variables.holds_fill (vars : Variables) : Text.Holds texts (vars.fill t) := by
  refine holds.replace framed fun m found _ => ?_
  obtain ⟨u, -, matched, rfl⟩ := Text.exists_of_found found
  obtain ⟨name, named, reference⟩ := Reference.exists_of_length matched
  rw [reference]
  constructor
  · intro c member
    rcases List.mem_cons.mp member with rfl | inName
    · rfl
    · by_contra quotes
      have isName := named c inName
      simp only [Text.isQuote, Bool.or_eq_false_iff, decide_eq_false_iff_not, not_and_or,
        not_not] at quotes
      rcases quotes with rfl | rfl <;> cases isName
  · intro s member inside
    exact (Text.isLasting_iff.mp (lasting s member)).1 (inside.subset List.mem_cons_self)

/-- No reference to an image begins in such a string. -/
theorem Image.holds_inlineAll {volume : Volume} {directory : Path}
    (spares : Image.sparesQuotes volume directory t) :
    Text.Holds texts (Image.inlineAll volume directory t) := by
  refine holds.replace framed fun m found changed => ?_
  have spared := List.all_eq_true.mp spares _ found
  have loaded : (load? volume directory m).isNone = false := by
    by_contra none
    apply changed
    have missing : load? volume directory m = Option.none := by simpa using none
    rw [inlineReference, missing]
  obtain ⟨u, -, matched, rfl⟩ := Text.exists_of_found found
  constructor
  · simpa [loaded] using spared
  · rintro s member ⟨before, after, whole⟩
    obtain ⟨letters, inside, named, reference⟩ := exists_of_referenceLength matched
    have opens : opensReference (u.take (referenceLength u) ++ after) := by
      have named' : letters.map Char.toLower = ['u', 'r', 'l'] := named
      obtain ⟨x, _, rfl, isX, named'⟩ := List.map_eq_cons_iff.mp named'
      obtain ⟨y, _, rfl, isY, named'⟩ := List.map_eq_cons_iff.mp named'
      obtain ⟨z, _, rfl, isZ, named'⟩ := List.map_eq_cons_iff.mp named'
      obtain rfl := List.map_eq_nil_iff.mp named'
      rw [reference]
      simp [opensReference, isX, isY, isZ]
    have closed := (Text.isLasting_iff.mp (lasting s member)).2.2 _
      ⟨before, by rw [← List.append_assoc]; exact whole⟩
    rw [opens] at closed
    cases closed

end

/-- The strings of a value are in the declaration as it is printed, without padding. -/
theorem Layout.holds_declaration {texts : List Text} {value : Text}
    (holds : Text.Holds texts value) (framed : ∀ s ∈ texts, s.Framed Text.isQuote)
    (lasting : ∀ s ∈ texts, s.isLasting) {volume : Volume} {directory : Path}
    (spares : Image.sparesQuotes volume directory value) (key : Text) (depth : Nat) :
    Text.Holds (texts.map unpadded)
      (finish (declaration key (Image.inlineAll volume directory value) depth)) := by
  have inlined := Image.holds_inlineAll holds framed lasting spares
  have held := (holds_unpadded inlined framed).append_left (indent depth ++ key ++ [':', ' '])
  refine holds_finish (held.append_right [';']) ?_ ?_
  · intro s member
    obtain ⟨w, listed, rfl⟩ := List.mem_map.mp member
    exact framed_unpadded (framed w listed)
  · intro s member
    obtain ⟨w, listed, rfl⟩ := List.mem_map.mp member
    have unbroken : w.Free ['\n'] := fun c inside isBreak =>
      (Text.isLasting_iff.mp (lasting w listed)).2.1 (List.mem_singleton.mp isBreak ▸ inside)
    exact (free_unpadded (by simp [signs]) unbroken).not_mem (by simp)

end Stylesheet
