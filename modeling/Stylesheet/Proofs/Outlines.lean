import Stylesheet.Proofs.Drafts

set_option autoImplicit false

namespace Stylesheet

namespace Opening

def header (depth : Nat) : Opening → Text
  | rule selector => Layout.selector selector depth
  | atRule name params => Layout.header name params

/-- The blocks of rules: those whose header does not start with the sign of an at-rule. -/
def isPlain (opening : Opening) : Bool := (opening.header 0).head? ≠ some '@'

def enclose (body : Text) (depth : Nat) : Opening → Text
  | rule selector => Layout.block selector body depth
  | atRule name params => Layout.atBlock (Layout.header name params) body depth

end Opening

namespace Forest

/-- A forest printed as it stands. -/
def layOut (depth : Nat) : Forest → Text
  | empty => []
  | entry e rest => e.print depth ++ rest.layOut depth
  | block opening inner rest =>
    opening.enclose (inner.layOut (depth + 1)) depth ++ rest.layOut depth

/-- Whether no rule is inside a rule, when the forest itself may be inside one. -/
def isFlat (inRule : Bool) : Forest → Bool
  | empty => true
  | entry _ rest => rest.isFlat inRule
  | block opening inner rest =>
    !(inRule && opening.isPlain) && inner.isFlat (inRule || opening.isPlain) && rest.isFlat inRule

theorem layOut_append (depth : Nat) (left right : Forest) :
    (left.append right).layOut depth = left.layOut depth ++ right.layOut depth := by
  induction left with
  | empty => rfl
  | entry e rest ih => simp only [append, layOut, ih, List.append_assoc]
  | block opening inner rest _ ih => simp only [append, layOut, ih, List.append_assoc]

theorem isFlat_append (inRule : Bool) (left right : Forest) :
    (left.append right).isFlat inRule = (left.isFlat inRule && right.isFlat inRule) := by
  induction left with
  | empty => rfl
  | entry e rest ih => exact ih
  | block opening inner rest _ ih => simp only [append, isFlat, ih, Bool.and_assoc]

/-- A forest without rules is flat everywhere. -/
theorem isFlat_of_isFlat_true {forest : Forest} (flat : forest.isFlat true) (inRule : Bool) :
    forest.isFlat inRule := by
  cases inRule with
  | true => exact flat
  | false =>
    induction forest with
    | empty => rfl
    | entry e rest ih => exact ih flat
    | block opening inner rest innerIh restIh =>
      simp only [isFlat, Bool.true_and, Bool.true_or, Bool.and_eq_true, Bool.not_eq_true'] at flat
      obtain ⟨⟨notPlain, inside⟩, later⟩ := flat
      simp only [isFlat, notPlain, Bool.and_false, Bool.or_false, Bool.not_false, Bool.true_and,
        Bool.and_eq_true]
      exact ⟨innerIh inside, restIh later⟩

end Forest

/-- A text is the layout of a forest, in which no rule is inside a rule if that is asked for. -/
def Laid (flat : Prop) (ok : Resolved → Prop) (inRule : Bool) (depth : Nat) (t : Text) : Prop :=
  ∃ forest : Forest, t = forest.layOut depth ∧ (flat → forest.isFlat inRule) ∧
    ∀ token ∈ forest.stream, ok token

variable {flat : Prop} {ok : Resolved → Prop}

namespace Laid

variable {inRule : Bool} {depth : Nat} {t u : Text}

theorem nil : Laid flat ok inRule depth [] := ⟨.empty, rfl, fun _ => rfl, by simp [Forest.stream]⟩

theorem append (left : Laid flat ok inRule depth t) (right : Laid flat ok inRule depth u) :
    Laid flat ok inRule depth (t ++ u) := by
  obtain ⟨first, rfl, flatFirst, okFirst⟩ := left
  obtain ⟨second, rfl, flatSecond, okSecond⟩ := right
  refine ⟨first.append second, (Forest.layOut_append depth first second).symm, ?_, ?_⟩
  · intro isFlat
    rw [Forest.isFlat_append, flatFirst isFlat, flatSecond isFlat]
    rfl
  · rw [Forest.stream_append]
    exact List.forall_mem_append.mpr ⟨okFirst, okSecond⟩

theorem entries {es : List Entry} (good : ∀ e ∈ es, ok (.entry e)) :
    Laid flat ok inRule depth (es.flatMap (Entry.print depth)) := by
  induction es with
  | nil => exact nil
  | cons e es ih =>
    rw [List.forall_mem_cons] at good
    have first : Laid flat ok inRule depth (e.print depth) :=
      ⟨.entry e .empty, (List.append_nil _).symm, fun _ => rfl,
        by simpa [Forest.stream] using good.1⟩
    exact first.append (ih good.2)

theorem block {opening : Opening} (closing : ok .closes) (good : ok (.opens opening))
    (apart : flat → (inRule && opening.isPlain) = false)
    (inside : Laid flat ok (inRule || opening.isPlain) (depth + 1) t) :
    Laid flat ok inRule depth (opening.enclose t depth) := by
  obtain ⟨inner, rfl, flatInner, okInner⟩ := inside
  refine ⟨.block opening inner .empty, (List.append_nil _).symm, ?_, ?_⟩
  · intro isFlat
    simp only [Forest.isFlat, apart isFlat, flatInner isFlat, Bool.not_false, Bool.and_self]
  · exact Forest.forall_stream_block.mpr ⟨good, okInner, closing, by simp [Forest.stream]⟩

/-- What may stand in a rule may stand anywhere. -/
theorem of_inRule (laid : Laid flat ok true depth t) : Laid flat ok inRule depth t := by
  obtain ⟨forest, rfl, isFlat, good⟩ := laid
  exact ⟨forest, rfl, fun asked => Forest.isFlat_of_isFlat_true (isFlat asked) inRule, good⟩

theorem rule {selector : Text} (closing : ok .closes) (good : ok (.opens (.rule selector)))
    (apart : flat → inRule = false) (inside : Laid flat ok true (depth + 1) t) :
    Laid flat ok inRule depth (Layout.block selector t depth) :=
  @block flat ok inRule depth t (.rule selector) closing good
    (fun asked => by rw [apart asked, Bool.false_and]) inside.of_inRule

theorem atRule {name params : Text} (closing : ok .closes) (named : name.head? = some '@')
    (good : ok (.opens (.atRule name params))) (inside : Laid flat ok inRule (depth + 1) t) :
    Laid flat ok inRule depth (Layout.atBlock (Layout.header name params) t depth) := by
  have notPlain : (Opening.atRule name params).isPlain = false := by
    have first : (Layout.header name params).head? = some '@' := by
      unfold Layout.header
      split
      · exact named
      · rw [List.head?_append, named]
        rfl
    simp [Opening.isPlain, Opening.header, first]
  have body : Laid flat ok (inRule || (Opening.atRule name params).isPlain) (depth + 1) t := by
    rw [notPlain, Bool.or_false]
    exact inside
  exact @block flat ok inRule depth t (.atRule name params) closing good
    (fun _ => by rw [notPlain, Bool.and_false]) body

end Laid

/-- The laws of printed blocks: braces match, and the header of an at-rule starts with its sign. -/
structure Lawful (ok : Resolved → Prop) : Prop where
  closing : ok .closes
  named : ∀ name params, ok (.opens (.atRule name params)) → name.head? = some '@'

/-- What a draft holds is laid out for its place, in a stylesheet that is itself written into a rule
or not. -/
structure Draft.Laid (flat : Prop) (ok : Resolved → Prop) (around : Bool) (draft : Draft) :
    Prop where
  selector : ∀ selector ∈ draft.place.selector, ok (.opens (.rule selector))
  apart : flat → draft.place.selector.isSome → around = false
  body : Stylesheet.Laid flat ok (around || draft.place.selector.isSome) draft.place.lineDepth
    draft.body
  below : Stylesheet.Laid flat ok around draft.place.depth draft.below

/-- The place inside a block, for the place around it. -/
inductive Heading.Fits (ok : Resolved → Prop) (outer inner : Place) : Heading → Prop
  | rule (depth : inner.depth = outer.depth) (inside : inner.selector.isSome) :
      Fits ok outer inner .rule
  | atRule {name params : Text} (good : ok (.opens (.atRule name params)))
      (place : inner = outer.insideAtRule) :
      Fits ok outer inner (.atRule (Layout.header name params))

variable {around : Bool}

namespace Draft.Laid

variable {draft : Draft}

theorem start {place : Place}
    (selector : ∀ selector ∈ place.selector, ok (.opens (.rule selector)))
    (apart : flat → place.selector.isSome → around = false) :
    (Draft.start place).Laid flat ok around := ⟨selector, apart, .nil, .nil⟩

theorem write (laid : draft.Laid flat ok around) {text : Text}
    (more : Stylesheet.Laid flat ok (around || draft.place.selector.isSome) draft.place.lineDepth
      text) :
    (draft.write text).Laid flat ok around :=
  ⟨laid.selector, laid.apart, laid.body.append more, laid.below⟩

theorem writeBlock (laid : draft.Laid flat ok around) {text : Text}
    (more : Stylesheet.Laid flat ok around draft.place.depth text) :
    (draft.writeBlock text).Laid flat ok around := by
  unfold Draft.writeBlock
  split
  · exact ⟨laid.selector, laid.apart, laid.body, laid.below.append more⟩
  · rename_i outside
    apply laid.write
    rw [Bool.not_eq_true] at outside
    rwa [Place.lineDepth, outside, Bool.or_false]

/-- The block of a selector around what stands in a draft. -/
theorem block (lawful : Lawful ok) (laid : draft.Laid flat ok around) {selector : Text}
    (inside : draft.place.selector = some selector) :
    Stylesheet.Laid flat ok around draft.place.depth
      (Layout.block selector draft.body draft.place.depth ++ draft.below) := by
  have apart : flat → around = false := fun asked => laid.apart asked (by rw [inside]; rfl)
  have body := laid.body
  rw [Place.lineDepth, inside, Option.isSome_some, Bool.or_true] at body
  have whole := Stylesheet.Laid.rule lawful.closing (laid.selector selector inside) apart body
  exact whole.append laid.below

theorem render (lawful : Lawful ok) (laid : draft.Laid flat ok around) {outer : Place}
    {heading : Heading} (fits : heading.Fits ok outer draft.place) :
    Stylesheet.Laid flat ok around outer.depth (draft.render heading) := by
  cases fits with
  | rule depth inside =>
    obtain ⟨selector, isSelector⟩ := Option.isSome_iff_exists.mp inside
    rw [Draft.render, isSelector, ← depth]
    exact laid.block lawful isSelector
  | @atRule name params good place =>
    have depth : draft.place.depth = outer.depth + 1 := by rw [place]; rfl
    rw [Draft.render, depth, Nat.add_sub_cancel]
    apply Stylesheet.Laid.atRule lawful.closing (lawful.named name params good) good
    rw [← depth]
    cases isSelector : draft.place.selector with
    | none =>
      have body := laid.body
      rwa [Place.lineDepth, isSelector, Option.isSome_none, Bool.or_false] at body
    | some selector =>
      dsimp only
      split
      · exact laid.below
      · exact laid.block lawful isSelector

end Draft.Laid

/-- The drafts of a stylesheet and of its open blocks are laid out, one around the other. -/
inductive Drafts.Laid (flat : Prop) (ok : Resolved → Prop) (around : Bool) (base : Nat) :
    Draft → List (Heading × Draft) → Prop
  | bottom {draft : Draft} (laid : draft.Laid flat ok around) (place : draft.place = ⟨none, base⟩) :
      Drafts.Laid flat ok around base draft []
  | block {draft outer : Draft} {heading : Heading} {rest : List (Heading × Draft)}
      (laid : draft.Laid flat ok around) (fits : heading.Fits ok outer.place draft.place)
      (outside : Drafts.Laid flat ok around base outer rest) :
      Drafts.Laid flat ok around base draft ((heading, outer) :: rest)

namespace Drafts.Laid

variable {base : Nat} {draft : Draft} {outer : List (Heading × Draft)}

theorem inner (laid : Drafts.Laid flat ok around base draft outer) : draft.Laid flat ok around := by
  cases laid with
  | bottom laid _ => exact laid
  | block laid _ _ => exact laid

/-- A draft can be replaced by one for the same place. -/
theorem replace (laid : Drafts.Laid flat ok around base draft outer) {other : Draft}
    (more : other.Laid flat ok around) (place : other.place = draft.place) :
    Drafts.Laid flat ok around base other outer := by
  cases laid with
  | bottom _ own => exact .bottom more (place.trans own)
  | block _ fits outside => exact .block more (by rwa [place]) outside

theorem write (laid : Drafts.Laid flat ok around base draft outer) {text : Text}
    (more : Stylesheet.Laid flat ok (around || draft.place.selector.isSome) draft.place.lineDepth
      text) :
    Drafts.Laid flat ok around base (draft.write text) outer :=
  laid.replace (laid.inner.write more) rfl

/-- Opening a rule keeps the drafts laid out. The selector that counts is the one in force
inside. -/
theorem openRule (laid : Drafts.Laid flat ok around base draft outer) (selector : Text)
    (selected : ∀ s ∈ (draft.place.insideRule selector).selector, ok (.opens (.rule s)))
    (apart : flat → around = false) :
    Drafts.Laid flat ok around base (.start (draft.place.insideRule selector))
      ((.rule, draft) :: outer) := by
  refine .block (.start selected fun asked _ => apart asked) (.rule ?_ ?_) laid
  · unfold Draft.start Place.insideRule
    dsimp only
    split <;> rfl
  · unfold Draft.start Place.insideRule
    dsimp only
    split <;> rfl

/-- One token keeps the drafts laid out, if it opens no rule. -/
theorem step (lawful : Lawful ok) {d next : Drafts} {token : Resolved}
    (laid : Drafts.Laid flat ok around base d.inner d.outer) (stepped : d.step token = some next)
    (good : ok token) (other : ∀ selector, token ≠ .opens (.rule selector)) :
    Drafts.Laid flat ok around base next.inner next.outer := by
  match token with
  | .entry e =>
    cases stepped
    have line : Stylesheet.Laid flat ok (around || d.inner.place.selector.isSome)
        d.inner.place.lineDepth ([e].flatMap (Entry.print d.inner.place.lineDepth)) :=
      .entries (List.forall_mem_singleton.mpr good)
    rw [List.flatMap_singleton] at line
    exact laid.write line
  | .opens (.rule selector) => exact absurd rfl (other selector)
  | .opens (.atRule name params) =>
    cases stepped
    exact .block (.start laid.inner.selector laid.inner.apart) (.atRule good rfl) laid
  | .closes =>
    unfold Drafts.step at stepped
    cases blocks : d.outer with
    | nil => rw [blocks] at stepped; cases stepped
    | cons first rest =>
      rw [blocks] at stepped laid
      cases stepped
      cases laid with
      | block inside fits outside =>
        exact outside.replace (outside.inner.writeBlock (inside.render lawful fits))
          (Draft.writeBlock_place _ _)

theorem foldlM (lawful : Lawful ok) {d next : Drafts} {resolved : List Resolved}
    (laid : Drafts.Laid flat ok around base d.inner d.outer)
    (done : resolved.foldlM Drafts.step d = some next)
    (good : ∀ token ∈ resolved, ok token ∧ ∀ selector, token ≠ .opens (.rule selector)) :
    Drafts.Laid flat ok around base next.inner next.outer := by
  induction resolved generalizing d with
  | nil =>
    cases done
    exact laid
  | cons token resolved ih =>
    rw [List.foldlM_cons] at done
    obtain ⟨between, stepped, rest⟩ := Option.bind_eq_some_iff.mp done
    rw [List.forall_mem_cons] at good
    exact ih (laid.step lawful stepped good.1.1 good.1.2) rest good.2

end Drafts.Laid

end Stylesheet
