import Stylesheet.Proofs.Passes
import Stylesheet.Proofs.RuleBodies

set_option autoImplicit false

namespace Stylesheet

open Scan (spaced)
open Session (ofText ofFile)

/-- A declaration is printed, and some strings are in it, in their order and without padding. Those
with a dollar sign, a line break or `url(` do not count. The strings without padding are as they
were. -/
structure Text.Declares (volume : Volume) (directory : Path) (depth : Nat) (key value : Text)
    (strings : List Text) (css : Text) : Prop where
  printed : Layout.finish
    (Layout.declaration key (Image.inlineAll volume directory value) depth) <:+: css
  unpadded : Image.sparesQuotes volume directory value →
    Holds ((strings.filter isLasting).map Layout.unpadded)
      (Layout.finish (Layout.declaration key (Image.inlineAll volume directory value) depth))
  kept : Image.sparesQuotes volume directory value →
    Holds (strings.filter fun s => s.isLasting && !Layout.isPadded s)
      (Layout.finish (Layout.declaration key (Image.inlineAll volume directory value) depth))

/-- Every declaration in the body of a rule is printed with the strings of its value: from its colon
on, a text that is read says the value and what ends it, and compiling comes to the token of the
declaration, after those of the comments in the value. -/
def Session.DeclaresStrings (volume : Volume) (start : Session) (css : Text) : Prop :=
  ∀ (text value after : Text) (stop : Char) (n : Nat) (s : Scan), start.Reads volume text →
    Scan.steps n .start (Text.unifyLineEnds text) = .ok (s, ':' :: (value ++ stop :: after)) →
    s.top = some .rule → s.text ≠ [] → value.isValue → stop = ';' ∨ stop = '}' →
    ∃ (task next : Task) (line : Nat) (remarks : List Token),
      start.Takes volume task (.property s.text (Text.trim value.spoken) line) next ∧
      task.source = text ∧
      remarks.map Token.unlined = value.remarks.map (Token.comment · 0) ∧
      scan text = .ok (s.tokens.reverse ++ remarks ++ task.rest) ∧
      Text.Declares volume task.directory task.progress.lineDepth s.text
        (task.progress.scope.bindings.fill (Text.trim value.spoken)) value.strings css

namespace Text

theorem framed_of_mem_filter {value s : Text} (member : s ∈ value.strings.filter isLasting) :
    s.Framed isQuote ∧ s.isLasting :=
  ⟨framed_of_mem_strings (List.mem_of_mem_filter member), (List.mem_filter.mp member).2⟩

theorem holds_trim_spoken (value : Text) :
    Holds (value.strings.filter isLasting) (trim value.spoken) := by
  have all := (holds_spoken value).sublist (List.filter_sublist (p := isLasting))
  refine all.trim fun s member => (framed_of_mem_filter member).1.mono fun c quotes => ?_
  simp [isBlank_of_isQuote quotes]

variable {volume : Volume} {directory : Path} {depth : Nat} {raw : Text}

/-- A declaration in raw output is printed with the strings of its value. -/
theorem Declares.of_isInfix {name value filled : Text} (named : trim name ≠ [])
    (inBlock : depth ≠ 0)
    (inside : Layout.declaration (trim name) (Image.inlineAll volume directory filled) depth <:+:
      raw)
    (holds : Holds (value.strings.filter isLasting) filled) :
    Declares volume directory depth (trim name) filled value.strings (Layout.finish raw) := by
  have unpadded (spares : Image.sparesQuotes volume directory filled) :=
    Layout.holds_declaration holds (fun _ member => (framed_of_mem_filter member).1)
      (fun _ member => (framed_of_mem_filter member).2) spares (trim name) depth
  refine ⟨Layout.infix_finish_declaration named _ inBlock inside, unpadded, fun spares => ?_⟩
  have bare : ((value.strings.filter isLasting).filter (!Layout.isPadded ·)).map Layout.unpadded =
      value.strings.filter fun s => s.isLasting && !Layout.isPadded s := by
    rw [List.filter_filter, List.map_congr_left (g := id), List.map_id]
    · simp only [Bool.and_comm]
    · intro s member
      obtain ⟨-, fits⟩ := List.mem_filter.mp member
      exact Layout.unpadded_eq_self (by simpa using (Bool.and_eq_true_iff.mp fits).1)
  rw [← bare]
  exact (unpadded spares).sublist (List.filter_sublist.map _)

end Text

/-- Comments open and close no block. -/
theorem Token.openBlocks_append_remarks {tokens remarks : List Token} {texts : List Text}
    (comments : remarks.map Token.unlined = texts.map (Token.comment · 0)) :
    openBlocks (tokens ++ remarks) = openBlocks tokens := by
  rw [openBlocks, List.foldl_append]
  induction remarks generalizing texts with
  | nil => rfl
  | cons token remarks ih =>
    obtain ⟨text, texts, rfl, same, later⟩ := List.map_eq_cons_iff.mp comments.symm
    have flat (opened : List Token) : enclose opened token = opened := by
      cases token <;> first | rfl | cases same
    rw [List.foldl_cons, flat]
    exact ih later.symm

theorem Session.Reads.exists_scan {volume : Volume} {start : Session} {text raw : Text}
    (reads : start.Reads volume text) (outputs : start.Outputs volume raw) :
    ∃ tokens, scan text = .ok tokens := by
  obtain ⟨_, _, ends⟩ := outputs
  cases divided : scan text with
  | ok tokens => exact ⟨tokens, rfl⟩
  | error error =>
    obtain ⟨_, fails⟩ := reads.finished divided
    cases eq_of_reaches ends fails rfl rfl

theorem Session.Begins.declaresStrings {volume : Volume} {start : Session} (begins : start.Begins)
    {raw : Text} (outputs : start.Outputs volume raw) :
    start.DeclaresStrings volume (Layout.finish raw) := by
  intro text value after stop n s reads reached inRule keyed isValue stops
  obtain ⟨tokens, divided⟩ := reads.exists_scan outputs
  obtain ⟨-, grounded⟩ := Scan.steps_grounded reached
  obtain ⟨opener, outer, opened, isRule⟩ := grounded.exists_openBlocks inRule
  obtain ⟨remarks, line, rest, comments, rfl⟩ :=
    scan_declared divided reached inRule keyed isValue stops
  rw [← Token.openBlocks_append_remarks comments] at opened
  obtain ⟨task, next, takes, same, left, deep, kept⟩ :=
    reads.taken begins outputs divided rfl opened isRule
  obtain ⟨-, written⟩ := takes.written
  refine ⟨task, next, line, remarks, takes, same, comments, by rw [left, divided], ?_⟩
  refine .of_isInfix keyed deep (kept _ ⟨';', ?_, rfl⟩ ⟨next.progress.draft, ?_, ?_⟩) ?_
  · simp [Layout.declaration]
  · exact List.mem_cons_self
  · rw [written]
    exact .of_write _ List.infix_rfl
  · exact Variables.holds_fill value.holds_trim_spoken
      (fun _ member => (Text.framed_of_mem_filter member).1)
      (fun _ member => (Text.framed_of_mem_filter member).2) _

end Stylesheet
