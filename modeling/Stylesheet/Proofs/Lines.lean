import Stylesheet.Proofs.Branches
import Stylesheet.Proofs.Forest
import Stylesheet.Proofs.Replace

set_option autoImplicit false

namespace Stylesheet

namespace Text

theorem lines_ne_nil (t : Text) : lines t ≠ [] := List.splitOn_ne_nil _ _

theorem ne_break_of_visible {c : Char} (visible : isBlank c = false) : c ≠ '\n' := by
  rintro rfl
  cases visible

end Text

namespace Layout

def ofLines (lines : List Text) : Text := lines.flatMap ('\n' :: ·)

/-- Output that consists of lines, none of which is padding. -/
def Lined (t : Text) : Prop :=
  ∃ lines : List Text, t = ofLines lines ∧ ∀ line ∈ lines, '\n' ∉ line ∧ isPaddingLine line = false

theorem isPaddingLine_eq_false_iff (line : Text) :
    isPaddingLine line = false ↔ line = [] ∨ ∃ c ∈ line, c ≠ ' ' ∧ c ≠ '\t' := by
  rw [isPaddingLine, Bool.and_eq_false_iff, List.all_eq_false]
  simp

theorem isPaddingLine_of_visible {c : Char} {line : Text} (member : c ∈ line)
    (visible : Text.isBlank c = false) : isPaddingLine line = false := by
  apply (isPaddingLine_eq_false_iff line).mpr
  refine .inr ⟨c, member, ?_, ?_⟩ <;> rintro rfl <;> cases visible

theorem ofLines_eq_intercalate (lines : List Text) :
    ofLines lines = ['\n'].intercalate ([] :: lines) := by
  induction lines with
  | nil => rfl
  | cons line lines ih =>
    rw [List.intercalate_cons_cons]
    cases lines with
    | nil => simp [ofLines]
    | cons next lines =>
      rw [List.intercalate_cons_cons] at ih ⊢
      rw [ofLines, List.flatMap_cons, ← ofLines, ih]
      simp

/-- Nothing is removed from output without lines of padding. -/
theorem dropPaddingLines_eq_self {t : Text} (lined : Lined t) : dropPaddingLines t = t := by
  obtain ⟨lines, rfl, solid⟩ := lined
  have divided : Text.lines (ofLines lines) = [] :: lines := by
    rw [ofLines_eq_intercalate]
    apply List.splitOn_intercalate
    · intro line member
      rcases List.mem_cons.mp member with rfl | inside
      · exact List.not_mem_nil
      · exact (solid line inside).1
    · simp
  -- Lines of spaces and tabs are padding, but not the empty line before the first line break.
  have kept : ([] :: lines).dropLast.filter (!isPaddingLine ·) = ([] :: lines).dropLast := by
    apply List.filter_eq_self.mpr
    intro line member
    rcases List.mem_cons.mp (List.dropLast_subset _ member) with rfl | inside
    · rfl
    · simp [(solid line inside).2]
  have whole : ([] :: lines).dropLast ++ ([] :: lines).getLast?.toList = [] :: lines := by
    rw [List.getLast?_eq_some_getLast (by simp)]
    exact List.dropLast_append_getLast (by simp)
  rw [dropPaddingLines, divided, kept, whole, ← ofLines_eq_intercalate]

namespace Lined

theorem nil : Lined [] := ⟨[], rfl, by simp⟩

theorem append {t u : Text} (left : Lined t) (right : Lined u) : Lined (t ++ u) := by
  obtain ⟨before, rfl, solidBefore⟩ := left
  obtain ⟨after, rfl, solidAfter⟩ := right
  refine ⟨before ++ after, by simp [ofLines], ?_⟩
  intro line member
  rcases List.mem_append.mp member with first | second
  · exact solidBefore line first
  · exact solidAfter line second

theorem flatMap {α : Type} {f : α → Text} {xs : List α} (each : ∀ x ∈ xs, Lined (f x)) :
    Lined (xs.flatMap f) := by
  induction xs with
  | nil => exact nil
  | cons x xs ih =>
    rw [List.flatMap_cons]
    exact (each x List.mem_cons_self).append
      (ih fun y member => each y (List.mem_cons_of_mem x member))

theorem emptyLine : Lined ['\n'] := ⟨[[]], rfl, by simp [isPaddingLine]⟩

/-- One line at a depth, with something on it. -/
theorem indent (depth : Nat) {t : Text} (unbroken : '\n' ∉ t)
    (visible : ∃ c ∈ t, c ≠ ' ' ∧ c ≠ '\t') :
    Lined (indent depth ++ t) := by
  refine ⟨[List.replicate (2 * depth) ' ' ++ t], by simp [ofLines, Layout.indent], ?_⟩
  intro line member
  rw [List.mem_singleton.mp member]
  obtain ⟨c, inside, noSpace, noTab⟩ := visible
  constructor
  · intro broken
    rcases List.mem_append.mp broken with padding | text
    · cases (List.mem_replicate.mp padding).2
    · exact unbroken text
  · apply (isPaddingLine_eq_false_iff _).mpr
    exact .inr ⟨c, List.mem_append_right _ inside, noSpace, noTab⟩

theorem declaration {key value : Text} (keyUnbroken : '\n' ∉ key)
    (valueUnbroken : '\n' ∉ unpadded value)
    (depth : Nat) : Lined (declaration key value depth) := by
  have line := Lined.indent depth (t := key ++ [':', ' '] ++ unpadded value ++ [';'])
    (by simp [keyUnbroken, valueUnbroken]) ⟨';', by simp⟩
  simpa only [Layout.declaration, List.append_assoc] using line

theorem statement {name params : Text} (nameUnbroken : '\n' ∉ name) (paramsUnbroken : '\n' ∉ params)
    (depth : Nat) : Lined (statement name params depth) := by
  have line := Lined.indent depth (t := header name params ++ [';'])
    (by rw [header]; split <;> simp [nameUnbroken, paramsUnbroken]) ⟨';', by simp⟩
  simpa only [Layout.statement, List.append_assoc] using line

theorem comment (text : Text) (depth : Nat) : Lined (comment text depth) := by
  have unbroken : '\n' ∉ Text.collapse (text.filter (· ≠ '*')) := by
    intro broken
    cases (Text.tidy_collapse _).spaces '\n' broken rfl
  have opens := Lined.indent depth (t := ['/', '*', '*']) (by decide) ⟨'/', by simp⟩
  have content := Lined.indent depth (t := [' ', '*', ' '] ++ Text.collapse (text.filter (· ≠ '*')))
    (by simpa using unbroken) ⟨'*', by simp⟩
  have closes := Lined.indent depth (t := [' ', '*', '/']) (by decide) ⟨'/', by simp⟩
  have whole := emptyLine.append (opens.append (content.append (closes.append emptyLine)))
  simpa [Layout.comment] using whole

theorem braces {t body : Text} (depth : Nat)
    (opens : Lined (Layout.indent depth ++ t ++ [' ', '{']))
    (inside : Lined body) : Lined (braces t body depth) := by
  have closes := Lined.indent depth (t := ['}']) (by decide) ⟨'}', by simp⟩
  have whole := (opens.append inside).append closes
  simpa only [Layout.braces, List.append_assoc] using whole

/-- The branches of a selector, one on each line. -/
theorem branches {bs : List Text} (unbroken : ∀ b ∈ bs, '\n' ∉ b) (depth : Nat) :
    Lined (Layout.indent depth ++ (',' :: Layout.indent depth).intercalate bs ++ [' ', '{']) := by
  induction bs with
  | nil =>
    have line := Lined.indent depth (t := [' ', '{']) (by decide) ⟨'{', by simp⟩
    simpa using line
  | cons b bs ih =>
    cases bs with
    | nil =>
      have line :=
        Lined.indent depth (t := b ++ [' ', '{']) (by simpa using unbroken b List.mem_cons_self)
        ⟨'{', by simp⟩
      simpa using line
    | cons next bs =>
      have line :=
        Lined.indent depth (t := b ++ [',']) (by simpa using unbroken b List.mem_cons_self)
        ⟨',', by simp⟩
      have whole := line.append (ih fun c member => unbroken c (List.mem_cons_of_mem b member))
      rw [List.intercalate_cons_cons]
      simpa using whole

theorem block (text : Text) {body : Text} (inside : Lined body) (depth : Nat) :
    Lined (block text body depth) := by
  apply Lined.braces depth _ inside
  apply Lined.branches
  intro b member broken
  have inText := (Selector.infix_of_mem_branches member).subset broken
  cases (Text.tidy_collapse text).spaces '\n' inText rfl

theorem atBlock {name params body : Text} (nameUnbroken : '\n' ∉ name)
    (paramsUnbroken : '\n' ∉ params)
    (inside : Lined body) (depth : Nat) : Lined (atBlock (header name params) body depth) := by
  apply Lined.append _ emptyLine
  apply Lined.braces depth _ inside
  rw [List.append_assoc]
  apply Lined.indent
  · rw [header]
    split <;> simp [nameUnbroken, paramsUnbroken]
  · exact ⟨'{', by simp⟩

end Lined

end Layout

/-- Leaving out line breaks that come right after a closing brace and before another line break. -/
inductive Text.Thinned : Text → Text → Prop
  | nil : Thinned [] []
  | keep (c : Char) {t u : Text} (rest : Thinned t u) : Thinned (c :: t) (c :: u)
  | drop {t u : Text} (rest : Thinned ('\n' :: t) u) : Thinned ('}' :: '\n' :: '\n' :: t) ('}' :: u)

namespace Text.Thinned

theorem cons_of_ne {c : Char} {t u : Text} (thin : Thinned (c :: t) u) (other : c ≠ '}') :
    ∃ v, u = c :: v ∧ Thinned t v := by
  cases thin with
  | keep _ rest => exact ⟨_, rfl, rest⟩
  | drop rest => exact absurd rfl other

theorem append_of_not_mem {t u v : Text} (thin : Thinned (t ++ u) v) (absent : '}' ∉ t) :
    ∃ w, v = t ++ w ∧ Thinned u w := by
  induction t generalizing v with
  | nil => exact ⟨v, rfl, thin⟩
  | cons c t ih =>
    obtain ⟨other, later⟩ := not_or.mp (mt List.mem_cons.mpr absent)
    obtain ⟨v, rfl, thinRest⟩ := thin.cons_of_ne (Ne.symm other)
    obtain ⟨w, rfl, left⟩ := ih thinRest later
    exact ⟨w, rfl, left⟩

theorem brace {t u : Text} (thin : Thinned ('}' :: t) u) :
    ∃ v, u = '}' :: v ∧ (Thinned t v ∨ ∃ w, t = '\n' :: w ∧ Thinned w v) := by
  cases thin with
  | keep _ rest => exact ⟨_, rfl, .inl rest⟩
  | drop rest => exact ⟨_, rfl, .inr ⟨_, rfl, rest⟩⟩

theorem head?_eq {t u : Text} (thin : Thinned t u) : t.head? = u.head? := by
  cases thin <;> rfl

end Text.Thinned

/-- Closing the gaps between closing braces leaves out line breaks. -/
theorem Layout.thinned_closingGaps (t : Text) :
    t.Thinned (Text.replace closingGapLength (fun _ => ['}', '\n', '}']) t) := by
  match t with
  | [] => exact .nil
  | c :: t =>
    by_cases gap : closingGapLength (c :: t) = 0
    · rw [Text.replace_cons gap]
      exact .keep c (thinned_closingGaps t)
    · unfold closingGapLength at gap
      split at gap
      · next rest whole =>
        obtain ⟨rfl, rfl⟩ := List.cons.inj whole
        have found : Text.replace closingGapLength (fun _ => ['}', '\n', '}'])
            (['}', '\n', '\n', '}'] ++ rest) = ['}', '\n', '}'] ++
              Text.replace closingGapLength (fun _ => ['}', '\n', '}']) rest :=
          Text.replace_append (by simp) rfl
        rw [show '}' :: '\n' :: '\n' :: '}' :: rest = ['}', '\n', '\n', '}'] ++ rest from rfl,
          found]
        -- The second brace is not looked at again, so a third one keeps the gap before it.
        exact .drop (.keep '\n' (.keep '}' (thinned_closingGaps rest)))
      · exact absurd rfl gap

/-- Whether what is printed for a token stays on one line where it should. -/
def Resolved.Unbroken : Resolved → Prop
  | entry (.declaration key value) => '\n' ∉ key ∧ '\n' ∉ Layout.unpadded value
  | entry (.statement name params) | opens (.atRule name params) => '\n' ∉ name ∧ '\n' ∉ params
  | entry (.comment _) | opens (.rule _) | closes => True

theorem Entry.lined_print {e : Entry} (unbroken : (Resolved.entry e).Unbroken) (depth : Nat) :
    Layout.Lined (e.print depth) := by
  cases e with
  | declaration key value => exact .declaration unbroken.1 unbroken.2 depth
  | statement name params => exact .statement unbroken.1 unbroken.2 depth
  | comment text => exact .comment text depth

namespace Forest

theorem lined_lines {forest : Forest} (unbroken : ∀ token ∈ forest.stream, token.Unbroken)
    (depth : Nat) : Layout.Lined (forest.lines depth) :=
  .flatMap fun _ member => Entry.lined_print (unbroken _ (entry_mem_stream member)) depth

/-- What is printed for a forest consists of lines. -/
theorem lined_print {forest : Forest} (unbroken : ∀ token ∈ forest.stream, token.Unbroken)
    (ancestors : List Text) (depth : Nat) : Layout.Lined (forest.print ancestors depth) := by
  induction forest generalizing ancestors depth with
  | empty => exact .nil
  | entry e rest ih =>
    obtain ⟨own, others⟩ := forall_stream_entry.mp unbroken
    have here : Layout.Lined (if ancestors = [] then e.print depth else []) := by
      split
      · exact Entry.lined_print own depth
      · exact .nil
    exact here.append (ih others ancestors depth)
  | block opening inner rest innerIh restIh =>
    obtain ⟨own, inside, _, others⟩ := forall_stream_block.mp unbroken
    have later := restIh others ancestors depth
    cases opening with
    | rule selector =>
      have printed := Layout.Lined.block (Selector.effective (ancestors ++ [selector]))
        (lined_lines inside (depth + 1)) depth
      exact (printed.append (innerIh inside (ancestors ++ [selector]) depth)).append later
    | atRule name params =>
      have fields : '\n' ∉ name ∧ '\n' ∉ params := own
      have wrapped : Layout.Lined (inner.wrapped ancestors (depth + 1)) := by
        unfold wrapped
        split
        · exact .nil
        · exact .block _ (lined_lines inside (depth + 1 + 1)) (depth + 1)
      exact (Layout.Lined.atBlock fields.1 fields.2
        (wrapped.append (innerIh inside ancestors (depth + 1))) depth).append later

end Forest

end Stylesheet
