import Stylesheet.Proofs.Branches
import Stylesheet.Proofs.Enclosures

set_option autoImplicit false

namespace Stylesheet

namespace Text

/-- The quote that is open at the end of a text without escapes. -/
def openQuote : Option Char → Text → Option Char
  | quote, [] => quote
  | none, c :: t => openQuote (if c = '"' || c = '\'' then some c else none) t
  | some q, c :: t => openQuote (if c = q then none else some q) t

/-- The characters of a text without escapes that stand outside quotes. -/
def unquoted : Option Char → Text → Text
  | _, [] => []
  | none, c :: t => if c = '"' || c = '\'' then unquoted (some c) t else c :: unquoted none t
  | some q, c :: t => unquoted (if c = q then none else some q) t

/-- The number of open brackets. One that closes nothing does not count. -/
def bracketDepth (depth : Nat) (t : Text) : Nat :=
  t.foldl (fun n c =>
    if c = '(' || c = '[' then n + 1 else if c = ')' || c = ']' then n - 1 else n) depth

/-- Whether the character after a text is not escaped and stands outside quotes and brackets. -/
def exposesNext (t : Text) : Bool :=
  !escapesNext t && (openQuote none t.unescaped).isNone &&
    bracketDepth 0 (unquoted none t.unescaped) = 0

/-- Where the commas stand that divide a text. -/
def commaPlaces (t : Text) : List Nat :=
  (List.range t.length).filter fun i => t[i]? = some ',' && exposesNext (t.take i)

theorem openQuote_cons (quote : Option Char) (c : Char) (t : Text) :
    openQuote quote (c :: t) = openQuote (openQuote quote [c]) t := by
  cases quote <;> rfl

theorem unquoted_cons (quote : Option Char) (c : Char) (t : Text) :
    unquoted quote (c :: t) = unquoted quote [c] ++ unquoted (openQuote quote [c]) t := by
  cases quote with
  | none => by_cases isQuote : c = '"' ∨ c = '\'' <;> simp [unquoted, openQuote, isQuote]
  | some q => simp [unquoted, openQuote]

theorem bracketDepth_append (depth : Nat) (t u : Text) :
    bracketDepth depth (t ++ u) = bracketDepth (bracketDepth depth t) u :=
  List.foldl_append

namespace Nesting

variable {n : Nesting}

theorem Plain.next_eq (plain : n.Plain) {c : Char} (other : c ≠ '\\') :
    n.next c = ⟨bracketDepth n.depth (unquoted n.quote [c]), openQuote n.quote [c], false⟩ := by
  obtain ⟨depth, quote, escaped⟩ := n
  obtain rfl : escaped = false := plain.unescaped
  cases quote with
  | none =>
    by_cases isQuote : c = '"' ∨ c = '\''
    · simp [Nesting.next, other, isQuote, unquoted, openQuote, bracketDepth]
    · by_cases opens : c = '(' ∨ c = '['
      · simp [Nesting.next, other, isQuote, opens, unquoted, openQuote, bracketDepth]
      · by_cases closes : c = ')' ∨ c = ']' <;>
          simp [Nesting.next, other, isQuote, opens, closes, unquoted, openQuote, bracketDepth]
  | some q =>
    by_cases ends : c = q
    · subst ends
      simp [Nesting.next, other, unquoted, openQuote, bracketDepth]
    · simp [Nesting.next, other, ends, unquoted, openQuote, bracketDepth]

/-- A backslash changes neither the depth nor the quote. -/
theorem Plain.next_backslash (plain : n.Plain) :
    n.next '\\' =
      ⟨bracketDepth n.depth (unquoted n.quote ['\\']), openQuote n.quote ['\\'], true⟩ := by
  obtain ⟨depth, quote, escaped⟩ := n
  obtain rfl : escaped = false := plain.unescaped
  cases quote with
  | none => rfl
  | some q =>
    have other : '\\' ≠ q := by rcases plain.quoted q rfl with rfl | rfl <;> decide
    simp [Nesting.next, other, unquoted, openQuote, bracketDepth]

theorem Plain.next_escape (plain : n.Plain) (c : Char) : (n.next '\\').next c = n := by
  obtain ⟨depth, quote, escaped⟩ := n
  obtain rfl : escaped = false := plain.unescaped
  rfl

/-- The reader of a list keeps three things, each of which depends on its own part of the text. -/
theorem Plain.after_eq (plain : n.Plain) (t : Text) :
    n.after t = ⟨bracketDepth n.depth (unquoted n.quote t.unescaped),
      openQuote n.quote t.unescaped, t.escapesNext⟩ := by
  fun_induction Text.unescaped t generalizing n with
  | case1 =>
    obtain ⟨depth, quote, escaped⟩ := n
    obtain rfl : escaped = false := plain.unescaped
    cases quote <;> rfl
  | case2 c =>
    by_cases escape : c = '\\'
    · rw [escape]
      exact plain.next_backslash
    · rw [after_cons, plain.next_eq escape, escapesNext_cons escape]
      rfl
  | case3 d t ih =>
    rw [after_cons, after_cons, plain.next_escape, ih plain, escapesNext_escape]
  | case4 c d t other ih =>
    have later := ih (plain.next other)
    rw [after_cons, later, plain.next_eq other, escapesNext_cons other,
      unquoted_cons n.quote c (Text.unescaped (d :: t)), bracketDepth_append,
      openQuote_cons n.quote c (Text.unescaped (d :: t))]

theorem isTop_after (t : Text) : (top.after t).isTop = t.exposesNext := by
  rw [top_plain.after_eq, isTop, exposesNext, Bool.and_comm, Bool.and_comm (_ == 0)]
  rw [Bool.and_assoc]
  rfl

end Nesting

open Nesting

/-- A text is divided once for each comma that counts. -/
theorem length_splitCommasFrom (n : Nesting) (t : Text) :
    (splitCommasFrom n t).length = ((List.range t.length).filter fun i =>
      t[i]? = some ',' && (n.after (t.take i)).isTop).length + 1 := by
  induction t generalizing n with
  | nil => rfl
  | cons c t ih =>
    have later := ih (n.next c)
    rw [List.length_cons, List.range_succ_eq_map, List.filter_cons, List.filter_map]
    by_cases counts : c = ',' ∧ n.isTop
    · rw [splitCommasFrom, if_pos (by simpa using counts), List.length_cons, later,
        if_pos (by simpa using counts), List.length_cons, List.length_map]
      rfl
    · rw [splitCommasFrom, if_neg (by simpa using counts), List.length_modifyHead, later,
        if_neg (by simpa using counts), List.length_map]
      rfl

theorem length_splitCommas (t : Text) :
    (splitCommas t).length = (commaPlaces t).length + 1 := by
  simp only [splitCommas, length_splitCommasFrom, isTop_after, commaPlaces]

end Text

open Selector Text

/-- A text is divided without loss, at every comma that counts and into parts that have none. So the
branches of a selector without escapes, written as one selector, have the same branches. -/
theorem splitCommas_lossless (t : Text) :
    [','].intercalate (splitCommas t) = t ∧ (∀ part ∈ splitCommas t, splitCommas part = [part]) ∧
      (splitCommas t).length = (commaPlaces t).length + 1 ∧
      ('\\' ∉ t → branches (ofBranches (branches t)) = branches t) := by
  refine ⟨intercalate_splitCommasFrom .top t, fun part member => ?_, length_splitCommas t, ?_⟩
  · exact splitCommasFrom_of_uncut (uncut_of_divided (divided_splitCommasFrom .top t) part member)
  · exact fun unescaped => branches_intercalate isBlank_space (separate_branches unescaped)

/-- Commas between quotes and in parentheses, a parenthesis that closes nothing before a comma, and
a quote that is left open. -/
theorem splitCommas_lossless_open :
    '\\' ∉ "[\",\"]),(,), '".toList ∧ commaPlaces "[\",\"]),(,), '".toList = [6, 10] ∧
      branches (ofBranches (branches "[\",\"]),(,), '".toList)) =
        ["[\",\"])".toList, "(,)".toList, "'".toList] :=
  ⟨by decide, by decide, ((splitCommas_lossless _).2.2.2 (by decide)).trans (by decide)⟩

end Stylesheet
