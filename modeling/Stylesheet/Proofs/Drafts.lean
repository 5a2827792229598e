import Stylesheet.Proofs.Blanks
import Stylesheet.Proofs.Forest

set_option autoImplicit false

namespace Stylesheet

/-- The drafts of the stylesheet and its open blocks, without variables and traits. -/
structure Drafts where
  inner : Draft
  /-- The drafts around the innermost one, with the headings of the blocks inside them. -/
  outer : List (Heading × Draft)

namespace Drafts

def start (depth : Nat) : Drafts := ⟨.start ⟨none, depth⟩, []⟩

def step (d : Drafts) : Resolved → Option Drafts
  | .entry e => some { d with inner := d.inner.write (e.print d.inner.place.lineDepth) }
  | .opens (.rule selector) =>
    some ⟨.start (d.inner.place.insideRule selector), (.rule, d.inner) :: d.outer⟩
  | .opens (.atRule name params) =>
    some ⟨.start d.inner.place.insideAtRule,
      (.atRule (Layout.header name params), d.inner) :: d.outer⟩
  | .closes =>
    match d.outer with
    | [] => none
    | (heading, outer) :: rest => some ⟨outer.writeBlock (d.inner.render heading), rest⟩

def finish (d : Drafts) : Option Text :=
  match d.outer with
  | [] => some d.inner.body
  | _ :: _ => none

theorem foldlM_entries (entries : List Entry) (d : Drafts) :
    (entries.map Resolved.entry).foldlM step d =
      some { d with inner :=
        d.inner.write (entries.flatMap (Entry.print d.inner.place.lineDepth)) } := by
  induction entries generalizing d with
  | nil => simp [Draft.write]
  | cons e rest ih =>
    rw [List.map_cons, List.foldlM_cons]
    change (rest.map Resolved.entry).foldlM step _ = _
    rw [ih]
    simp [Draft.write]

end Drafts

theorem Entry.print_visible (e : Entry) (depth : Nat) :
    ∃ c ∈ e.print depth, Text.isBlank c = false := by
  cases e with
  | declaration key value => exact ⟨';', by simp [print, Layout.declaration], by decide⟩
  | statement name params => exact ⟨';', by simp [print, Layout.statement], by decide⟩
  | comment text => exact ⟨'/', by simp [print, Layout.comment], by decide⟩

/-- The lines of a forest are blank only if there are none. -/
theorem Forest.trim_lines_eq_nil_iff (depth : Nat) (forest : Forest) :
    Text.trim (forest.lines depth) = [] ↔ forest.entries = [] := by
  rw [Text.trim_eq_nil_iff]
  constructor
  · intro blank
    cases found : forest.entries with
    | nil => rfl
    | cons e rest =>
      obtain ⟨c, member, visible⟩ := e.print_visible depth
      have inLines : c ∈ forest.lines depth := by
        rw [lines, found, List.flatMap_cons]
        exact List.mem_append_left _ member
      rw [blank c inLines] at visible
      cases visible
  · intro none c member
    rw [lines, none] at member
    cases member

def Place.inside (ancestors : List Text) (depth : Nat) : Place :=
  ⟨if ancestors = [] then none else some (Selector.effective ancestors), depth⟩

namespace Place

theorem insideRule_inside (ancestors : List Text) (depth : Nat) (selector : Text) :
    (inside ancestors depth).insideRule selector = inside (ancestors ++ [selector]) depth := by
  by_cases outside : ancestors = []
  · subst outside
    rfl
  · simp [inside, insideRule, outside, Selector.effective_append]

theorem insideAtRule_inside (ancestors : List Text) (depth : Nat) :
    (inside ancestors depth).insideAtRule = inside ancestors (depth + 1) := rfl

end Place

@[simp] theorem Draft.writeBlock_place (draft : Draft) (text : Text) :
    (draft.writeBlock text).place = draft.place := by
  unfold writeBlock
  split <;> rfl

namespace Forest

/-- What a forest adds to the block it stands in. -/
def ownText (ancestors : List Text) (depth : Nat) (forest : Forest) : Text :=
  if ancestors = [] then forest.print [] depth else forest.lines (depth + 1)

/-- What a forest adds below the block it stands in. -/
def belowText (ancestors : List Text) (depth : Nat) (forest : Forest) : Text :=
  if ancestors = [] then [] else forest.print ancestors depth

end Forest

def Draft.add (draft : Draft) (ancestors : List Text) (depth : Nat) (forest : Forest) : Draft :=
  { draft with
    body := draft.body ++ forest.ownText ancestors depth
    below := draft.below ++ forest.belowText ancestors depth }

theorem Draft.render_rule (ancestors : List Text) (depth : Nat) (selector : Text) (inner : Forest) :
    ((Draft.start (.inside (ancestors ++ [selector]) depth)).add (ancestors ++ [selector]) depth
      inner).render .rule =
    Layout.block (Selector.effective (ancestors ++ [selector])) (inner.lines (depth + 1)) depth ++
      inner.print (ancestors ++ [selector]) depth := by
  simp [Draft.render, Draft.add, Draft.start, Place.inside, Forest.ownText, Forest.belowText]

theorem Draft.render_atRule (ancestors : List Text) (depth : Nat) (header : Text) (inner : Forest) :
    ((Draft.start (.inside ancestors (depth + 1))).add ancestors (depth + 1) inner).render
      (.atRule header) =
    Layout.atBlock header
      (inner.wrapped ancestors (depth + 1) ++ inner.print ancestors (depth + 1)) depth := by
  by_cases outside : ancestors = []
  · subst outside
    simp [Draft.render, Draft.add, Draft.start, Place.inside, Forest.ownText, Forest.wrapped]
  · by_cases bare : inner.entries = []
    · have blank := (Forest.trim_lines_eq_nil_iff (depth + 1 + 1) inner).mpr bare
      simp [Draft.render, Draft.add, Draft.start, Place.inside, Forest.ownText, Forest.belowText,
        Forest.wrapped, outside, bare, blank]
    · have visible := mt (Forest.trim_lines_eq_nil_iff (depth + 1 + 1) inner).mp bare
      simp [Draft.render, Draft.add, Draft.start, Place.inside, Forest.ownText, Forest.belowText,
        Forest.wrapped, outside, bare, visible]

/-- Writing the tokens of a forest adds the forest to the draft, whatever is open around it. -/
theorem Drafts.foldlM_stream (forest : Forest) (ancestors : List Text) (depth : Nat) (d : Drafts)
    (place : d.inner.place = .inside ancestors depth) :
    forest.stream.foldlM step d = some { d with inner := d.inner.add ancestors depth forest } := by
  induction forest generalizing ancestors depth d with
  | empty =>
    simp [Forest.stream, Draft.add, Forest.ownText, Forest.belowText, Forest.print]
  | entry e rest ih =>
    rw [Forest.stream, List.foldlM_cons]
    change rest.stream.foldlM step ⟨d.inner.write (e.print d.inner.place.lineDepth), d.outer⟩ = _
    rw [ih ancestors depth ⟨d.inner.write (e.print d.inner.place.lineDepth), d.outer⟩ place]
    -- Outside rules an entry is output at once. In a rule it waits for the block of the rule.
    by_cases outside : ancestors = [] <;>
      simp [Draft.add, Draft.write, Forest.ownText, Forest.belowText, Forest.print, outside, place,
        Place.lineDepth, Place.inside]
  | block opening inner rest innerIh restIh =>
    rw [Forest.stream, List.foldlM_cons]
    cases opening with
    | rule selector =>
      change (inner.stream ++ .closes :: rest.stream).foldlM step
        ⟨.start (d.inner.place.insideRule selector), (.rule, d.inner) :: d.outer⟩ = _
      rw [place, Place.insideRule_inside, List.foldlM_append,
        innerIh (ancestors ++ [selector]) depth _ rfl]
      change rest.stream.foldlM step ⟨d.inner.writeBlock _, d.outer⟩ = _
      rw [Draft.render_rule, restIh ancestors depth _ ((d.inner.writeBlock_place _).trans place)]
      by_cases outside : ancestors = [] <;>
        simp [Draft.add, Draft.writeBlock, Draft.write, Forest.ownText, Forest.belowText,
          Forest.print, outside, place, Place.inside]
    | atRule name params =>
      change (inner.stream ++ .closes :: rest.stream).foldlM step
        ⟨.start d.inner.place.insideAtRule,
          (.atRule (Layout.header name params), d.inner) :: d.outer⟩ = _
      rw [place, Place.insideAtRule_inside, List.foldlM_append, innerIh ancestors (depth + 1) _ rfl]
      change rest.stream.foldlM step ⟨d.inner.writeBlock _, d.outer⟩ = _
      rw [Draft.render_atRule, restIh ancestors depth _ ((d.inner.writeBlock_place _).trans place)]
      by_cases outside : ancestors = [] <;>
        simp [Draft.add, Draft.writeBlock, Draft.write, Forest.ownText, Forest.belowText,
          Forest.print, outside, place, Place.inside]

namespace Forest

/-- Forests one after the other, each but the last followed by a brace that closes the block it
stands in. -/
def closing (last : Forest) : List Forest → List Resolved
  | [] => last.stream
  | first :: rest => first.stream ++ .closes :: closing last rest

end Forest

/-- What is written without an error and leaves nothing open closes the open blocks one by one. -/
theorem Drafts.exists_closing (resolved : List Resolved) (d : Drafts) (output : Text)
    (written : (resolved.foldlM step d).bind finish = some output) :
    ∃ forests last, forests.length = d.outer.length ∧ resolved = Forest.closing last forests := by
  induction resolved generalizing d with
  | nil =>
    cases opened : d.outer with
    | nil => exact ⟨[], .empty, rfl, rfl⟩
    | cons block rest =>
      simp [finish, opened] at written
  | cons token rest ih =>
    rw [List.foldlM_cons] at written
    cases token with
    | entry e =>
      obtain ⟨forests, last, count, rfl⟩ := ih _ written
      cases forests with
      | nil => exact ⟨[], .entry e last, count, rfl⟩
      | cons first more => exact ⟨.entry e first :: more, last, count, rfl⟩
    | opens opening =>
      have count : ∃ forests last, forests.length = d.outer.length + 1 ∧
          rest = Forest.closing last forests := by
        cases opening with
        | rule selector => exact ih _ written
        | atRule name params => exact ih _ written
      obtain ⟨forests, last, count, rfl⟩ := count
      cases forests with
      | nil => cases count
      | cons inner more =>
        cases more with
        | nil => exact ⟨[], .block opening inner last, Nat.succ.inj count, rfl⟩
        | cons first more =>
          refine ⟨.block opening inner first :: more, last, Nat.succ.inj count, ?_⟩
          simp [Forest.closing, Forest.stream]
    | closes =>
      cases opened : d.outer with
      | nil =>
        simp [step, opened] at written
      | cons block blocks =>
        obtain ⟨heading, outer⟩ := block
        simp only [step, opened, Option.bind_eq_bind, Option.bind_some] at written
        obtain ⟨forests, last, count, rfl⟩ := ih _ written
        exact ⟨.empty :: forests, last, by simpa using count, rfl⟩

/-- Exactly the tokens of forests can be written to the end, and the output is the printed
forest. -/
theorem Drafts.output_iff (resolved : List Resolved) (depth : Nat) (output : Text) :
    (resolved.foldlM step (start depth)).bind finish = some output ↔
      ∃ forest : Forest, resolved = forest.stream ∧ output = forest.print [] depth := by
  have run (forest : Forest) :
      (forest.stream.foldlM step (start depth)).bind finish = some (forest.print [] depth) := by
    rw [foldlM_stream forest [] depth (start depth) rfl]
    rfl
  constructor
  · intro written
    obtain ⟨forests, forest, count, rfl⟩ := exists_closing resolved (start depth) output written
    cases forests with
    | cons first more => cases count
    | nil =>
      refine ⟨forest, rfl, ?_⟩
      exact Option.some.inj (written.symm.trans (run forest))
  · rintro ⟨forest, rfl, rfl⟩
    exact run forest

end Stylesheet
