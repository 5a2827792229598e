import Stylesheet.Call
import Stylesheet.Proofs.Matched

set_option autoImplicit false

namespace Stylesheet

namespace Call

open Text Nesting

/-- No parenthesis stands in a string of an argument. -/
def Quotable (c : Char) : Prop := c ≠ '(' ∧ c ≠ ')'

def group (inner : Text) : Text := '(' :: (inner ++ [')'])

/-- Matched texts without a comma outside brackets and quotes. -/
inductive Undivided : Text → Prop
  | nil : Undivided []
  | plain {c : Char} {t : Text} (apart : c ∉ ['\\', '"', '\'', '(', ')', '[', ']'])
      (noComma : c ≠ ',') (rest : Undivided t) : Undivided (c :: t)
  | quoted {q : Char} {inside t : Text} (isQuote : q = '"' ∨ q = '\'')
      (kept : ∀ c ∈ inside, c ≠ q ∧ c ≠ '\\' ∧ Quotable c) (rest : Undivided t) :
      Undivided (q :: (inside ++ q :: t))
  | bracketed {first last : Char} {inner t : Text}
      (pair : (first = '(' ∧ last = ')') ∨ (first = '[' ∧ last = ']'))
      (inside : Matched Quotable inner) (rest : Undivided t) :
      Undivided (first :: (inner ++ last :: t))

/-- An argument of a call, and whether it is written in parentheses. It may be written without them
if it is not empty, has no comma outside brackets and quotes, and is not a group itself. -/
structure Argument where
  text : Text
  matched : Matched Quotable text
  trimmed : trim text = text
  isWrapped : Bool
  bare : isWrapped = false →
    text ≠ [] ∧ Undivided text ∧ ∀ inner, Matched Quotable inner → text ≠ group inner

def Argument.write (a : Argument) : Text := if a.isWrapped then group a.text else a.text

/-- The arguments of a call, as they stand between its parentheses. -/
def writeList (arguments : List Argument) : Text :=
  [',', ' '].intercalate (arguments.map Argument.write)

def write (name : Text) (arguments : List Argument) : Text := name ++ group (writeList arguments)

theorem uncut_of_undivided {t : Text} (undivided : Undivided t) : Uncut .top t := by
  induction undivided with
  | nil => trivial
  | plain apart noComma rest ih =>
    refine ⟨fun comma => noComma comma.1, ?_⟩
    rw [top_bare.next_plain apart]
    exact ih
  | @quoted q inside t isQuote kept rest ih =>
    obtain ⟨still, uncut⟩ :=
      top_bare.quoted fun c member => ⟨(kept c member).1, (kept c member).2.1⟩
    have visible : q ≠ ',' := by rcases isQuote with rfl | rfl <;> decide
    refine ⟨fun comma => visible comma.1, ?_⟩
    rw [top_bare.next_quote isQuote, uncut_append, still, Uncut,
      top_bare.next_closingQuote isQuote]
    exact ⟨uncut, fun comma => visible comma.1, ih⟩
  | @bracketed first last inner t pair inside rest ih =>
    have whole : Matched Quotable (first :: (inner ++ [last])) := .bracketed pair inside .nil
    have divided : first :: (inner ++ last :: t) = first :: (inner ++ [last]) ++ t := by simp
    rw [divided, whole.uncut_append_iff]
    exact ⟨inside.uncut_bracketed pair, ih⟩

theorem closesEarly_opening (depth : Nat) (t : Text) :
    closesEarly depth ('(' :: t) = closesEarly (depth + 1) t := by
  cases depth <;> rfl

theorem closesEarly_closing (depth : Nat) (t : Text) :
    closesEarly (depth + 1) (')' :: t) = closesEarly depth t := rfl

theorem closesEarly_cons {c : Char} (other : Quotable c) (depth : Nat) (t : Text) :
    closesEarly depth (c :: t) = closesEarly depth t := by
  cases depth <;> simp only [closesEarly, other.1, other.2, ↓reduceIte]

/-- Characters that are no parentheses change no depth. -/
theorem closesEarly_append_of_forall {t : Text} (none : ∀ c ∈ t, Quotable c) (depth : Nat)
    (u : Text) : closesEarly depth (t ++ u) = closesEarly depth u := by
  induction t with
  | nil => rfl
  | cons c t ih =>
    obtain ⟨other, later⟩ := List.forall_mem_cons.mp none
    rw [List.cons_append, closesEarly_cons other, ih later]

/-- A matched text leaves the depth of parentheses as it was. -/
theorem closesEarly_append {t : Text} (matched : Matched Quotable t) (depth : Nat) (u : Text) :
    closesEarly depth (t ++ u) = closesEarly depth u := by
  induction matched generalizing depth u with
  | nil => rfl
  | @plain c t apart rest ih =>
    have quotable : Quotable c := by
      simp only [List.mem_cons, List.not_mem_nil, or_false, not_or] at apart
      exact ⟨apart.2.2.2.1, apart.2.2.2.2.1⟩
    rw [List.cons_append, closesEarly_cons quotable, ih]
  | @quoted q inside t isQuote kept rest ih =>
    have quote : Quotable q := by rcases isQuote with rfl | rfl <;> exact ⟨by decide, by decide⟩
    have string : ∀ c ∈ q :: inside ++ [q], Quotable c := by
      intro c member
      simp only [List.cons_append, List.mem_cons, List.mem_append, List.not_mem_nil, or_false]
        at member
      rcases member with rfl | member | rfl
      · exact quote
      · exact (kept c member).2.2
      · exact quote
    have divided : q :: (inside ++ q :: t) ++ u = q :: inside ++ [q] ++ (t ++ u) := by simp
    rw [divided, closesEarly_append_of_forall string, ih]
  | @bracketed first last inner t pair inside rest innerIh ih =>
    have divided : first :: (inner ++ last :: t) ++ u = first :: (inner ++ last :: (t ++ u)) := by
      simp
    rw [divided]
    rcases pair with ⟨rfl, rfl⟩ | ⟨rfl, rfl⟩
    · rw [closesEarly_opening, innerIh, closesEarly_closing, ih]
    · rw [closesEarly_cons ⟨by decide, by decide⟩, innerIh,
        closesEarly_cons ⟨by decide, by decide⟩, ih]

theorem between?_group (inner : Text) : between? '(' ')' (group inner) = some inner := by
  simp [between?, group]

theorem eq_group_of_between? {t inner : Text} (found : between? '(' ')' t = some inner) :
    t = group inner := by
  unfold between? at found
  split at found
  · rename_i c rest
    split at found
    · rename_i ends
      simp only [Bool.and_eq_true, decide_eq_true_eq] at ends
      obtain ⟨rfl, last⟩ := ends
      obtain ⟨init, rfl⟩ := List.getLast?_eq_some_iff.mp last
      rw [List.dropLast_concat, Option.some.injEq] at found
      rw [found, group]
    · cases found
  · cases found

/-- A group is taken out of its parentheses. -/
theorem unwrapped_group {inner : Text} (matched : Matched Quotable inner) :
    unwrapped (group inner) = trim inner := by
  have balanced : closesEarly 0 inner = false := by
    have same := closesEarly_append matched 0 []
    rwa [List.append_nil] at same
  rw [unwrapped, between?_group]
  simp only [balanced, Bool.false_eq_true, ↓reduceIte]

/-- A matched text in parentheses that do not go together: the first one is closed early. -/
theorem closesEarly_of_group {inner : Text} (matched : Matched Quotable (group inner))
    (other : ∀ u, Matched Quotable u → group inner ≠ group u) : closesEarly 0 inner := by
  generalize whole : group inner = t at matched
  cases matched with
  | nil => cases whole
  | plain apart rest =>
    obtain rfl : '(' = _ := (List.cons.inj whole).1
    exact absurd (by decide) apart
  | quoted isQuote kept rest =>
    obtain rfl : '(' = _ := (List.cons.inj whole).1
    rcases isQuote with clash | clash <;> cases clash
  | @bracketed first last inside rest pair matched later =>
    obtain ⟨isFirst, same⟩ := List.cons.inj whole
    obtain rfl : last = ')' := by
      rcases pair with ⟨-, isLast⟩ | ⟨clash, -⟩
      · exact isLast
      · rw [← isFirst] at clash
        cases clash
    rcases List.eq_nil_or_concat rest with rfl | ⟨init, c, rfl⟩
    · exact absurd (by rw [group, same]; rfl) (other inside matched)
    · have inner_eq : inner = inside ++ ')' :: init := by
        rw [List.concat_eq_append, ← List.cons_append, ← List.append_assoc] at same
        exact (List.append_inj' same rfl).1
      rw [inner_eq, closesEarly_append matched]
      rfl

theorem unwrapped_eq_self {t : Text} (matched : Matched Quotable t)
    (other : ∀ inner, Matched Quotable inner → t ≠ group inner) : unwrapped t = t := by
  unfold unwrapped
  split
  · rename_i inner found
    obtain rfl := eq_group_of_between? found
    rw [if_pos (closesEarly_of_group matched other)]
  · rfl

namespace Argument

variable (a : Argument)

theorem unwrapped_write : unwrapped a.write = a.text := by
  unfold write
  cases wrapped : a.isWrapped with
  | true =>
    rw [if_pos rfl, unwrapped_group a.matched, a.trimmed]
  | false =>
    rw [if_neg (by simp)]
    exact unwrapped_eq_self a.matched (a.bare wrapped).2.2

theorem uncut_write : Uncut .top a.write := by
  unfold write
  cases wrapped : a.isWrapped with
  | true => exact a.matched.uncut_bracketed (.inl ⟨rfl, rfl⟩)
  | false => exact uncut_of_undivided (a.bare wrapped).2.1

theorem after_write : top.after a.write = top := by
  unfold write
  cases a.isWrapped with
  | true =>
    have whole : Matched Quotable (group a.text) := .bracketed (.inl ⟨rfl, rfl⟩) a.matched .nil
    exact top_bare.after whole
  | false => exact top_bare.after a.matched

theorem write_ne_nil : a.write ≠ [] := by
  unfold write
  cases wrapped : a.isWrapped with
  | true => exact List.cons_ne_nil _ _
  | false => exact (a.bare wrapped).1

theorem visible_write :
    (∀ c ∈ a.write.head?, isBlank c = false) ∧ ∀ c ∈ a.write.getLast?, isBlank c = false := by
  unfold write
  cases a.isWrapped with
  | true =>
    refine ⟨fun c first => ?_, fun c last => ?_⟩
    · cases first
      rfl
    · rw [if_pos rfl, group, ← List.cons_append, List.getLast?_concat] at last
      cases last
      rfl
  | false =>
    rw [if_neg (by simp), ← a.trimmed]
    exact ⟨fun c first => isBlank_head_trim first, fun c last => isBlank_last_trim last⟩

theorem trim_write : trim a.write = a.write := trim_eq_self a.visible_write.1 a.visible_write.2

end Argument

theorem splitCommas_space (t : Text) :
    (splitCommas (' ' :: t)).map trim = (splitCommas t).map trim := by
  have space : Uncut .top [' '] := uncut_of_not_mem _ (by decide)
  obtain ⟨first, rest, split⟩ := List.exists_cons_of_ne_nil (splitCommasFrom_ne_nil .top t)
  have whole := splitCommasFrom_append_of_uncut space t
  rw [show top.after [' '] = top from rfl, split, List.modifyHead_cons] at whole
  rw [splitCommas, ← List.singleton_append, whole, splitCommas, split, List.map_cons,
    List.map_cons, trim_append_of_blank_left (List.forall_mem_singleton.mpr rfl)]

/-- The parts of a list are the arguments as they are written. -/
theorem splitCommas_writeList {arguments : List Argument} (some : arguments ≠ []) :
    (splitCommas (writeList arguments)).map trim = arguments.map Argument.write := by
  induction arguments with
  | nil => exact absurd rfl some
  | cons a arguments ih =>
    cases arguments with
    | nil =>
      rw [writeList, List.map_singleton, List.intercalate_singleton, splitCommas,
        splitCommasFrom_of_uncut a.uncut_write, List.map_singleton, a.trim_write]
    | cons b arguments =>
      have rest := ih (List.cons_ne_nil b arguments)
      have whole : writeList (a :: b :: arguments) =
          a.write ++ ',' :: ' ' :: writeList (b :: arguments) := by
        rw [writeList, List.map_cons, List.map_cons, List.intercalate_cons_cons, List.append_assoc]
        rfl
      rw [whole, splitCommas, splitCommasFrom_append a.uncut_write a.after_write, List.map_cons,
        splitCommas_space, rest, a.trim_write]
      rfl

theorem readList_writeList {arguments : List Argument} (some : arguments ≠ []) :
    readList (writeList arguments) = arguments.map Argument.text := by
  have parts := splitCommas_writeList some
  have each : readList (writeList arguments) =
      ((splitCommas (writeList arguments)).map trim).map unwrapped := by
    rw [List.map_map]
    rfl
  rw [each, parts, List.map_map]
  exact List.map_congr_left fun a _ => a.unwrapped_write

theorem isBlank_of_isNameChar {c : Char} (named : isNameChar c) : isBlank c = false := by
  simp only [isNameChar, Bool.or_eq_true, decide_eq_true_eq] at named
  rcases named with (letter | rfl) | rfl
  · exact isBlank_of_isInert (isInert_of_isAlphanumeric letter)
  · rfl
  · rfl

theorem visible_writeList {arguments : List Argument} (some : arguments ≠ []) :
    writeList arguments ≠ [] ∧ trim (writeList arguments) = writeList arguments := by
  obtain ⟨a, arguments, rfl⟩ := List.exists_cons_of_ne_nil some
  refine ⟨intercalate_ne_nil _ _ a.write_ne_nil, trim_eq_self (fun c first => ?_) ?_⟩
  · rw [writeList, List.map_cons, head?_intercalate a.write_ne_nil] at first
    exact a.visible_write.1 c first
  · intro c last
    have each : ∀ part ∈ (a :: arguments).map Argument.write, part ≠ [] := by
      intro part member
      obtain ⟨b, -, rfl⟩ := List.mem_map.mp member
      exact b.write_ne_nil
    obtain ⟨part, member, last⟩ := mem_getLast?_intercalate each last
    obtain ⟨b, -, rfl⟩ := List.mem_map.mp member
    exact b.visible_write.2 c last

/-- A call that was written is read: its name, the list between its parentheses, and from this list
the arguments. -/
theorem ofText?_write {name : Text} (nonempty : name ≠ []) (named : ∀ c ∈ name, isNameChar c)
    {arguments : List Argument} (some : arguments ≠ []) :
    ofText? (write name arguments) = .some ⟨name, .some (writeList arguments)⟩ ∧
      readList (writeList arguments) = arguments.map Argument.text := by
  refine ⟨?_, readList_writeList some⟩
  obtain ⟨visible, trimmed⟩ := visible_writeList some
  have last (t : Text) : ∀ c ∈ (t ++ group (writeList arguments)).getLast?, isBlank c = false := by
    intro c isLast
    rw [group, ← List.cons_append, ← List.append_assoc, List.getLast?_concat] at isLast
    cases isLast
    rfl
  have whole : trim (write name arguments) = write name arguments := by
    refine trim_eq_self (fun c first => ?_) (last name)
    rw [write, List.head?_append_of_ne_nil _ nonempty] at first
    exact isBlank_of_isNameChar (named c (List.mem_of_mem_head? first))
  have ends : trim (group (writeList arguments)) = group (writeList arguments) :=
    trim_eq_self (fun c first => by cases first; rfl) (last [])
  have taken : (write name arguments).takeWhile isNameChar = name := by
    rw [write, List.takeWhile_append_of_pos named]
    exact List.append_nil name
  have left : (write name arguments).dropWhile isNameChar = group (writeList arguments) := by
    rw [write, List.dropWhile_append_of_pos named]
    rfl
  simp only [ofText?, whole, taken, nonempty, ↓reduceIte, left, ends, between?_group,
    Option.map_some, trimmed]
  simp [visible]

/-- A list in parentheses, an empty argument, and one that begins and ends with a group. -/
theorem ofText?_write_groups :
    ∃ arguments : List Argument,
      arguments.map Argument.text =
        [['a', ',', 'b'], [], ['(', 'a', ')', '+', '(', '"', ',', '"', ')']] ∧
      arguments.map Argument.isWrapped = [true, true, false] ∧
      ofText? ['m', '(', '(', 'a', ',', 'b', ')', ',', ' ', '(', ')', ',', ' ', '(', 'a', ')', '+',
          '(', '"', ',', '"', ')', ')'] = some ⟨['m'], some (writeList arguments)⟩ ∧
      readList (writeList arguments) = arguments.map Argument.text := by
  have string : Matched Quotable ('"' :: ([','] ++ ['"'])) :=
    .quoted (.inl rfl)
      (List.forall_mem_singleton.mpr ⟨by decide, by decide, by decide, by decide⟩) .nil
  have letter : Matched Quotable ['a'] := .plain (by decide) .nil
  have pair : ('(' = '(' ∧ ')' = ')') ∨ ('(' = '[' ∧ ')' = ']') := .inl ⟨rfl, rfl⟩
  have groups : Matched Quotable ('(' :: (['a'] ++ ')' :: '+' :: group ['"', ',', '"'])) :=
    .bracketed pair letter (.plain (by decide) (.bracketed pair string .nil))
  have undivided : Undivided ('(' :: (['a'] ++ ')' :: '+' :: group ['"', ',', '"'])) :=
    .bracketed pair letter (.plain (by decide) (by decide) (.bracketed pair string .nil))
  have other : ∀ inner, Matched Quotable inner →
      ['(', 'a', ')', '+', '(', '"', ',', '"', ')'] ≠ group inner := by
    intro inner matched same
    obtain rfl : ['a', ')', '+', '(', '"', ',', '"'] = inner :=
      List.append_cancel_right (List.cons.inj same).2
    have balanced := closesEarly_append matched 0 []
    cases balanced
  have listed : Matched Quotable ['a', ',', 'b'] :=
    .plain (by decide) (.plain (by decide) (.plain (by decide) .nil))
  have read := ofText?_write (List.cons_ne_nil 'm' []) (List.forall_mem_singleton.mpr rfl)
    (List.cons_ne_nil (Argument.mk _ listed rfl true (by simp))
      [⟨[], .nil, rfl, true, by simp⟩,
        ⟨_, groups, rfl, false, fun _ => ⟨by simp, undivided, other⟩⟩])
  exact ⟨_, rfl, rfl, read⟩

end Call

end Stylesheet
