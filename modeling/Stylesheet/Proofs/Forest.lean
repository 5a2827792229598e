import Stylesheet.Progress

set_option autoImplicit false

namespace Stylesheet

/-- What stands in a block on its own, with resolved values. -/
inductive Entry where
  | declaration (key value : Text)
  | statement (name params : Text)
  | comment (text : Text)
  deriving DecidableEq, Repr

def Entry.print (depth : Nat) : Entry → Text
  | declaration key value => Layout.declaration key value depth
  | statement name params => Layout.statement name params depth
  | comment text => Layout.comment text depth

inductive Opening where
  | rule (selector : Text)
  | atRule (name params : Text)
  deriving DecidableEq, Repr

/-- A sequence of entries and blocks, which hold such sequences again. A stylesheet whose variables,
traits and images are resolved is of this kind. -/
inductive Forest where
  | empty
  | entry (entry : Entry) (rest : Forest)
  | block (opening : Opening) (inner rest : Forest)
  deriving DecidableEq, Repr

inductive Resolved where
  | entry (entry : Entry)
  | opens (opening : Opening)
  | closes
  deriving DecidableEq, Repr

/-- The selector of a rule inside other rules, outermost first. -/
def Selector.effective : List Text → Text
  | [] => []
  | outermost :: inner =>
    inner.foldl (fun outer selector => nest outer (Text.collapse selector))
      (Text.collapse outermost)

theorem Selector.effective_singleton (selector : Text) :
    effective [selector] = Text.collapse selector := rfl

theorem Selector.effective_append {selectors : List Text} (inside : selectors ≠ [])
    (selector : Text) :
    effective (selectors ++ [selector]) = nest (effective selectors) (Text.collapse selector) := by
  cases selectors with
  | nil => exact absurd rfl inside
  | cons outermost inner => simp only [effective, List.cons_append, List.foldl_append,
      List.foldl_cons, List.foldl_nil]

namespace Forest

/-- The tokens of a forest, from left to right. -/
def stream : Forest → List Resolved
  | empty => []
  | entry e rest => .entry e :: rest.stream
  | block opening inner rest => .opens opening :: (inner.stream ++ .closes :: rest.stream)

def entries : Forest → List Entry
  | empty => []
  | entry e rest => e :: rest.entries
  | block _ _ rest => rest.entries

def lines (depth : Nat) (forest : Forest) : Text := forest.entries.flatMap (Entry.print depth)

/-- The entries of an at-rule inside rules, under the selector of these rules. -/
def wrapped (ancestors : List Text) (depth : Nat) (inner : Forest) : Text :=
  if ancestors = [] ∨ inner.entries = [] then []
  else Layout.block (Selector.effective ancestors) (inner.lines (depth + 1)) depth

/-- What is printed for a forest that stands inside the rules with some selectors, outermost
first, and whose blocks stand at a depth. Inside a rule the entries belong to the block of that
rule, so only the blocks are printed here. -/
def print (ancestors : List Text) (depth : Nat) : Forest → Text
  | empty => []
  | entry e rest => (if ancestors = [] then e.print depth else []) ++ rest.print ancestors depth
  | block (.rule selector) inner rest =>
    Layout.block (Selector.effective (ancestors ++ [selector])) (inner.lines (depth + 1)) depth ++
      inner.print (ancestors ++ [selector]) depth ++ rest.print ancestors depth
  | block (.atRule name params) inner rest =>
    Layout.atBlock (Layout.header name params)
        (inner.wrapped ancestors (depth + 1) ++ inner.print ancestors (depth + 1)) depth ++
      rest.print ancestors depth

@[simp] theorem lines_empty (depth : Nat) : empty.lines depth = [] := rfl

@[simp] theorem lines_entry (depth : Nat) (e : Entry) (rest : Forest) :
    (entry e rest).lines depth = e.print depth ++ rest.lines depth := rfl

@[simp] theorem lines_block (depth : Nat) (opening : Opening) (inner rest : Forest) :
    (block opening inner rest).lines depth = rest.lines depth := rfl

def append : Forest → Forest → Forest
  | empty, other => other
  | entry e rest, other => entry e (rest.append other)
  | block opening inner rest, other => block opening inner (rest.append other)

theorem append_empty (forest : Forest) : forest.append empty = forest := by
  induction forest with
  | empty => rfl
  | entry e rest ih => rw [append, ih]
  | block opening inner rest _ ih => rw [append, ih]

theorem stream_append (left right : Forest) :
    (left.append right).stream = left.stream ++ right.stream := by
  induction left with
  | empty => rfl
  | entry e rest ih => simp only [append, stream, ih, List.cons_append]
  | block opening inner rest _ ih =>
    simp only [append, stream, ih, List.cons_append, List.append_assoc]

theorem print_append (ancestors : List Text) (depth : Nat) (left right : Forest) :
    (left.append right).print ancestors depth =
      left.print ancestors depth ++ right.print ancestors depth := by
  induction left with
  | empty => rfl
  | entry e rest ih => simp only [append, print, ih, List.append_assoc]
  | block opening inner rest _ ih =>
    cases opening <;> simp only [append, print, ih, List.append_assoc]

theorem forall_stream_entry {P : Resolved → Prop} {e : Entry} {rest : Forest} :
    (∀ token ∈ (entry e rest).stream, P token) ↔ P (.entry e) ∧ ∀ token ∈ rest.stream, P token :=
  List.forall_mem_cons

theorem forall_stream_block {P : Resolved → Prop} {opening : Opening} {inner rest : Forest} :
    (∀ token ∈ (block opening inner rest).stream, P token) ↔
      P (.opens opening) ∧ (∀ token ∈ inner.stream, P token) ∧ P .closes ∧
        ∀ token ∈ rest.stream, P token := by
  simp only [stream, List.forall_mem_cons, List.forall_mem_append]

theorem entry_mem_stream {forest : Forest} {e : Entry} (member : e ∈ forest.entries) :
    Resolved.entry e ∈ forest.stream := by
  induction forest with
  | empty => cases member
  | entry first rest ih =>
    rcases List.mem_cons.mp member with rfl | later
    · exact List.mem_cons_self
    · exact List.mem_cons_of_mem _ (ih later)
  | block opening inner rest _ ih =>
    simp only [stream, List.mem_cons, List.mem_append]
    exact .inr (.inr (.inr (ih member)))

/-- A forest can be told from its tokens and from what follows, if that starts with no token that
could belong to the forest. -/
theorem stream_append_inj (left right : Forest) (after before : List Resolved)
    (afterEnds : ∀ token ∈ after.head?, token = .closes)
    (beforeEnds : ∀ token ∈ before.head?, token = .closes)
    (same : left.stream ++ after = right.stream ++ before) : left = right ∧ after = before := by
  induction left generalizing right after before with
  | empty =>
    cases right with
    | empty => exact ⟨rfl, same⟩
    | entry e rest =>
      rw [show after = .entry e :: (rest.stream ++ before) from same] at afterEnds
      cases afterEnds _ rfl
    | block opening inner rest =>
      rw [show after = .opens opening :: _ from same] at afterEnds
      cases afterEnds _ rfl
  | entry e rest ih =>
    cases right with
    | empty =>
      rw [← show _ = before from same] at beforeEnds
      cases beforeEnds _ rfl
    | entry other more =>
      obtain ⟨sameEntry, sameRest⟩ := List.cons.inj same
      obtain ⟨rfl, tails⟩ := ih more after before afterEnds beforeEnds sameRest
      cases sameEntry
      exact ⟨rfl, tails⟩
    | block opening inner rest => cases (List.cons.inj same).1
  | block opening inner rest innerIh restIh =>
    cases right with
    | empty =>
      rw [← show _ = before from same] at beforeEnds
      cases beforeEnds _ rfl
    | entry other more => cases (List.cons.inj same).1
    | block other inside more =>
      simp only [stream, List.cons_append, List.append_assoc, List.cons.injEq,
        Resolved.opens.injEq] at same
      obtain ⟨rfl, sameRest⟩ := same
      obtain ⟨rfl, tails⟩ := innerIh inside _ _ (by simp) (by simp) sameRest
      obtain ⟨rfl, ends⟩ := restIh more after before afterEnds beforeEnds (List.cons.inj tails).2
      exact ⟨rfl, ends⟩

/-- The tokens of a forest determine it. -/
theorem stream_injective {left right : Forest} (same : left.stream = right.stream) :
    left = right := by
  refine (stream_append_inj left right [] [] (by simp) (by simp) ?_).1
  rw [same]

end Forest

end Stylesheet
