import Stylesheet.Proofs.Composition
import Stylesheet.Proofs.Linked

set_option autoImplicit false

namespace Stylesheet

/-- A name without a character is before it. -/
theorem Text.prefix_of_not_mem {name t u : Text} {c : Char} (isPrefix : name <+: t ++ c :: u)
    (apart : c ∉ name) : name <+: t := by
  rcases List.prefix_or_prefix_of_prefix isPrefix (List.prefix_append t (c :: u)) with early | late
  · exact early
  · obtain ⟨more, rfl⟩ := late
    have next : more <+: c :: u := (List.prefix_append_right_inj t).mp isPrefix
    cases more with
    | nil => simp
    | cons d more =>
      obtain ⟨rfl, -⟩ := List.cons_prefix_cons.mp next
      exact absurd (by simp) apart

/-- What may stand after the dollar sign of a placeholder in output: its name, or the part of its
name before an image whose `url` begins in the name. -/
inductive Text.Stands (name behind : Text) : Prop
  | whole (isPrefix : name <+: behind)
  | image {kept letters : Text} (divided : name = kept ++ letters) (begun : letters ≠ [])
      (inCase : letters.map Char.toLower <+: "url".toList)
      (data : kept ++ "url(\"data:".toList <+: behind)

theorem Text.Stands.cons {name behind : Text} (stands : Stands name behind) (c : Char) :
    Stands (c :: name) (c :: behind) := by
  cases stands with
  | whole isPrefix => exact .whole (List.cons_prefix_cons.mpr ⟨rfl, isPrefix⟩)
  | @image kept letters divided begun inCase data =>
    have longer : c :: name = (c :: kept) ++ letters := by rw [divided, List.cons_append]
    exact .image longer begun inCase (List.cons_prefix_cons.mpr ⟨rfl, data⟩)

/-- The characters that satisfy a test, and the first one after them. -/
theorem Text.take_countWhile_succ {p : Char → Bool} {t : Text} (more : countWhile p t < t.length) :
    ∃ c, p c = false ∧ t.take (countWhile p t + 1) = t.takeWhile p ++ [c] := by
  have whole := List.takeWhile_append_dropWhile (p := p) (l := t)
  have stop := List.head?_dropWhile_not p t
  cases left : t.dropWhile p with
  | nil =>
    rw [left, List.append_nil] at whole
    simp [countWhile, whole] at more
  | cons c rest =>
    rw [left] at whole stop
    have cut : (t.takeWhile p ++ c :: rest).take (countWhile p t + 1) = t.takeWhile p ++ [c] := by
      rw [countWhile, List.take_length_add_append]
      rfl
    rw [whole] at cut
    exact ⟨c, by simpa using stop, cut⟩

namespace Image

/-- A reference to an image, and what it has in its parentheses: `url` in any letter case, and at
least one character before the first parenthesis that closes. -/
def Refers (reference inside : Text) : Prop :=
  ∃ letters, letters.map Char.toLower = "url".toList ∧
    reference = letters ++ '(' :: (inside ++ [')']) ∧ inside ≠ [] ∧ ')' ∉ inside

theorem refers_of_referenceLength {t : Text} (found : referenceLength t ≠ 0) :
    ∃ inside, Refers (t.take (referenceLength t)) inside := by
  unfold referenceLength at found ⊢
  split at found
  · rename_i u r l t
    dsimp only at found ⊢
    split at found
    · rename_i named
      split at found
      · rename_i closed
        rw [if_pos named, if_pos closed]
        simp only [Bool.and_eq_true, decide_eq_true_eq] at named closed
        obtain ⟨c, stop, cut⟩ := Text.take_countWhile_succ closed.2
        have isLast : c = ')' := by simpa using stop
        have inCase : [u, r, l].map Char.toLower = ['u', 'r', 'l'] := by simp [named]
        refine ⟨t.takeWhile (· ≠ ')'), [u, r, l], inCase, ?_, List.length_pos_iff.mp ?_, ?_⟩
        · rw [List.take_succ_cons, List.take_succ_cons, List.take_succ_cons, List.take_succ_cons,
            cut, isLast]
          rfl
        · exact Nat.pos_of_ne_zero closed.1
        · intro member
          have other := List.mem_takeWhile_imp member
          simp at other
      · exact absurd rfl found
    · exact absurd rfl found
  · exact absurd rfl found

/-- A reference to an image: letters, and something in parentheses. -/
theorem exists_of_referenceLength {t : Text} (found : referenceLength t ≠ 0) :
    ∃ letters inside, letters.map Char.toLower = "url".toList ∧
      t.take (referenceLength t) = letters ++ '(' :: (inside ++ [')']) := by
  obtain ⟨inside, letters, inCase, reference, -, -⟩ := refers_of_referenceLength found
  exact ⟨letters, inside, inCase, reference⟩

/-- A reference ends with a parenthesis, so a name that begins inside of it ends there. -/
theorem prefix_of_referenceLength {t first second name rest : Text}
    (matched : referenceLength t ≠ 0)
    (inside : t.take (referenceLength t) = first ++ '$' :: second)
    (named : ∀ c ∈ name, Reference.isNameChar c) (isPrefix : name <+: second ++ rest) :
    name <+: second := by
  obtain ⟨letters, target, -, reference⟩ := exists_of_referenceLength matched
  have last : (first ++ '$' :: second).getLast? = some ')' := by
    rw [← inside, reference, ← List.cons_append, ← List.append_assoc]
    exact List.getLast?_concat
  have closed : ∃ within, second = within ++ [')'] := by
    rw [List.getLast?_append_cons] at last
    cases second with
    | nil => cases last
    | cons c second =>
      rw [List.getLast?_cons_cons] at last
      exact List.getLast?_eq_some_iff.mp last
  obtain ⟨within, rfl⟩ := closed
  rw [List.append_assoc] at isPrefix
  have early : name <+: within :=
    Text.prefix_of_not_mem isPrefix fun inName => absurd (named ')' inName) (by decide)
  exact early.trans (List.prefix_append _ _)

theorem prefix_dataReference (mediaType : Text) (bytes : List UInt8) :
    "url(\"data:".toList <+: dataReference mediaType bytes :=
  (((List.prefix_append _ _).trans (List.prefix_append _ _)).trans (List.prefix_append _ _)).trans
    (List.prefix_append _ _)

variable {volume : Volume} {directory : Path}

/-- What stands behind a dollar sign after the images have been put in. -/
theorem stands_inlineAll {name t : Text} (named : ∀ c ∈ name, Reference.isNameChar c)
    (isPrefix : name <+: t) : Text.Stands name (inlineAll volume directory t) := by
  induction name generalizing t with
  | nil => exact .whole List.nil_prefix
  | cons c name ih =>
    obtain ⟨rest, rfl⟩ := isPrefix
    by_cases unmatched : referenceLength (c :: name ++ rest) = 0
    · rw [List.cons_append] at unmatched ⊢
      rw [inlineAll, Text.replace_cons unmatched]
      exact (ih (fun d member => named d (List.mem_cons_of_mem c member)) ⟨rest, rfl⟩).cons c
    · -- The name ends before the parenthesis, so all of it is among the letters.
      obtain ⟨letters, inside, inCase, reference⟩ := exists_of_referenceLength unmatched
      have whole := List.take_append_drop (referenceLength (c :: name ++ rest)) (c :: name ++ rest)
      rw [reference, List.append_assoc, List.cons_append] at whole
      have early : c :: name <+: letters := by
        refine Text.prefix_of_not_mem ⟨rest, whole.symm⟩ fun member => ?_
        exact absurd (named '(' member) (by decide)
      rw [inlineAll, Text.replace_of_match unmatched (by simp), reference]
      rcases inlineReference_cases volume directory (letters ++ '(' :: (inside ++ [')'])) with
        same | ⟨path, mediaType, bytes, -, same⟩
      · rw [same, List.append_assoc]
        exact .whole (early.trans (List.prefix_append _ _))
      · have url : (c :: name).map Char.toLower <+: "url".toList := inCase ▸ early.map Char.toLower
        rw [same]
        exact .image (List.nil_append (c :: name)).symm (List.cons_ne_nil c name) url
          ((prefix_dataReference mediaType bytes).trans (List.prefix_append _ _))

/-- The dollar signs of a text keep their names when images are put in. -/
theorem exists_stands_of_inlineAll {P : Text → Prop} {t : Text}
    (named : ∀ name, P name → ∀ c ∈ name, Reference.isNameChar c)
    (signs : ∀ before behind, t = before ++ '$' :: behind → ∃ name, P name ∧ name <+: behind)
    {before behind : Text} (split : inlineAll volume directory t = before ++ '$' :: behind) :
    ∃ name, P name ∧ Text.Stands name behind := by
  cases Text.exists_origin split with
  | kept place unmatched rest =>
    obtain ⟨name, isName, isPrefix⟩ := signs _ _ place
    rw [rest]
    exact ⟨name, isName, stands_inlineAll (named name isName) isPrefix⟩
  | @found left right first second place matched member inside rest =>
    rcases inlineReference_cases volume directory (right.take (referenceLength right)) with
      same | ⟨path, mediaType, bytes, known, same⟩
    · rw [same] at inside
      have whole := List.take_append_drop (referenceLength right) right
      rw [inside] at whole
      have sign : t = (left ++ first) ++ '$' :: (second ++ right.drop (referenceLength right)) := by
        rw [place]
        conv_lhs => rw [← whole]
        simp
      obtain ⟨name, isName, isPrefix⟩ := signs _ _ sign
      have early := prefix_of_referenceLength matched inside (named name isName) isPrefix
      rw [rest]
      exact ⟨name, isName, .whole (early.trans (List.prefix_append _ _))⟩
    · rw [same] at inside
      have data := isDataChar_of_mem_dataReference known '$' (by rw [inside]; simp)
      cases data

end Image

namespace Layout

/-- Padding begins with a parenthesis, a comma or a space. -/
theorem unpadded_append {t : Text} (plain : ∀ c ∈ t, c ≠ '(' ∧ c ≠ ',' ∧ c ≠ ' ') (u : Text) :
    unpadded (t ++ u) = t ++ unpadded u := by
  apply Text.replace_append_of_unmatched
  rintro v ⟨before, rfl⟩ nonempty
  obtain ⟨c, v, rfl⟩ := List.exists_cons_of_ne_nil nonempty
  obtain ⟨notOpen, notComma, notSpace⟩ := plain c (by simp)
  unfold paddingLength
  split <;> simp_all

/-- The data of an image begins without padding. -/
theorem unpadded_data (rest : Text) :
    unpadded ("url(\"data:".toList ++ rest) = "url(\"data:".toList ++ unpadded rest := by
  have parenthesis : paddingLength ('(' :: ("\"data:".toList ++ rest)) = 0 := rfl
  have opened : unpadded ('(' :: ("\"data:".toList ++ rest)) =
      '(' :: unpadded ("\"data:".toList ++ rest) := Text.replace_cons parenthesis
  have letters : ∀ t : Text, unpadded (['u', 'r', 'l'] ++ t) = ['u', 'r', 'l'] ++ unpadded t :=
    unpadded_append (by simp)
  have inside : unpadded ("\"data:".toList ++ rest) = "\"data:".toList ++ unpadded rest :=
    unpadded_append (by simp) rest
  have after := opened.trans (congrArg ('(' :: ·) inside)
  exact (letters _).trans (congrArg (['u', 'r', 'l'] ++ ·) after)

theorem stands_unpadded {name behind : Text} (named : ∀ c ∈ name, Reference.isNameChar c)
    (stands : Text.Stands name behind) : Text.Stands name (unpadded behind) := by
  have plain : ∀ t : Text, (∀ c ∈ t, Reference.isNameChar c) →
      ∀ c ∈ t, c ≠ '(' ∧ c ≠ ',' ∧ c ≠ ' ' := by
    intro t all c member
    have isName := all c member
    refine ⟨?_, ?_, ?_⟩ <;> rintro rfl <;> exact absurd isName (by decide)
  cases stands with
  | whole isPrefix =>
    obtain ⟨rest, rfl⟩ := isPrefix
    rw [unpadded_append (plain name named)]
    exact .whole (List.prefix_append _ _)
  | @image kept letters divided begun inCase data =>
    obtain ⟨rest, rfl⟩ := data
    have before : ∀ c ∈ kept, Reference.isNameChar c := fun c member =>
      named c (by rw [divided]; exact List.mem_append_left _ member)
    rw [List.append_assoc, unpadded_append (plain kept before), unpadded_data, ← List.append_assoc]
    exact .image divided begun inCase (List.prefix_append _ _)

/-- The dollar signs of a value keep their names when its padding is dropped. -/
theorem exists_stands_of_unpadded {P : Text → Prop} {t : Text}
    (named : ∀ name, P name → ∀ c ∈ name, Reference.isNameChar c)
    (signs : ∀ before behind, t = before ++ '$' :: behind →
      ∃ name, P name ∧ Text.Stands name behind)
    {before behind : Text} (split : unpadded t = before ++ '$' :: behind) :
    ∃ name, P name ∧ Text.Stands name behind := by
  cases Text.exists_origin split with
  | kept place unmatched rest =>
    obtain ⟨name, isName, stands⟩ := signs _ _ place
    rw [rest]
    exact ⟨name, isName, stands_unpadded (named name isName) stands⟩
  | @found left right first second place matched member inside rest =>
    have sign : '$' ∈ unpad (right.take (paddingLength right)) := by rw [inside]; simp
    unfold unpad at sign
    split at sign <;> simp at sign

/-- The dollar signs of a value keep their names when it is written. -/
theorem exists_stands_of_written {P : Text → Prop} {t : Text} {volume : Volume} {directory : Path}
    (named : ∀ name, P name → ∀ c ∈ name, Reference.isNameChar c)
    (signs : ∀ before behind, t = before ++ '$' :: behind → ∃ name, P name ∧ name <+: behind)
    {before behind : Text}
    (split : unpadded (Image.inlineAll volume directory t) = before ++ '$' :: behind) :
    ∃ name, P name ∧ Text.Stands name behind :=
  exists_stands_of_unpadded named
    (fun _ _ inlined => Image.exists_stands_of_inlineAll named signs inlined) split

theorem not_mem_written {t : Text} (none : '$' ∉ t) (volume : Volume) (directory : Path) :
    '$' ∉ unpadded (Image.inlineAll volume directory t) := by
  intro member
  obtain ⟨before, behind, split⟩ := List.append_of_mem member
  obtain ⟨name, impossible, -⟩ := exists_stands_of_written (P := fun _ => False) (by simp)
    (fun _ _ sign => absurd (by simp [sign]) none) split
  exact impossible

end Layout

/-- A placeholder in a value that a mixin leaves as it is: one for a parameter that is given no
argument, when there is no variable of that name. -/
structure Trait.Leaves (definition : Trait) (given : Nat) (vars : Variables) (value name : Text) :
    Prop where
  written : '$' :: name ∈ Reference.names value
  param : ∃ position, definition.params.idxOf? name = some position ∧ given ≤ position
  undeclared : vars.get? ('$' :: name) = none

/-- Arguments and values have no dollar signs, so a reference that stands for a text with one is
left as it is. -/
theorem Trait.left_of_mem_meaning (definition : Trait) {arguments : List Text} {vars : Variables}
    (obey : vars.Obey Scope.linkedLaw) (given : ∀ argument ∈ arguments, '$' ∉ argument)
    {reference : Text} (sign : '$' ∈ definition.meaning arguments vars reference) :
    (definition.position? reference).bind (arguments[·]?) = none ∧ vars.get? reference = none := by
  unfold meaning at sign
  cases argument : (definition.position? reference).bind (arguments[·]?) with
  | some text =>
    obtain ⟨i, -, isArgument⟩ := Option.bind_eq_some_iff.mp argument
    rw [argument, Option.getD_some] at sign
    exact absurd sign (given text (List.mem_of_getElem? isArgument))
  | none =>
    cases declared : vars.get? reference with
    | some value =>
      rw [argument, declared, Option.getD_none, Option.getD_some] at sign
      exact absurd sign (obey reference value declared)
    | none => exact ⟨rfl, rfl⟩

/-- All dollar signs of a declaration that is filled are those of placeholders. -/
theorem Trait.exists_leaves_of_fill {definition : Trait} {arguments : List Text} {vars : Variables}
    {d : Declaration} (obey : vars.Obey Scope.linkedLaw)
    (given : ∀ argument ∈ arguments, '$' ∉ argument) (linked : d.value.isLinked)
    (complete : (Reference.names d.value).find? (definition.lacks vars) = none)
    {before behind : Text}
    (split : (definition.fill arguments vars d).value = before ++ '$' :: behind) :
    ∃ name, (definition.Leaves arguments.length vars d.value name ∧
      ∀ c ∈ name, Reference.isNameChar c) ∧ name <+: behind := by
  cases Text.exists_origin split with
  | kept place unmatched =>
    rw [place] at linked
    exact absurd unmatched (Reference.length_ne_zero (Text.isLinked_of_append_right linked))
  | @found left right first second place matched isPiece inside rest =>
    obtain ⟨name, isReference, named⟩ := Reference.exists_name_of_length matched
    have written := Reference.mem_names_of_mem_pieces isPiece
    rw [isReference] at written inside
    have sign : '$' ∈ definition.meaning arguments vars ('$' :: name) := by rw [inside]; simp
    obtain ⟨argument, declared⟩ := definition.left_of_mem_meaning obey given sign
    rw [meaning, argument, declared, Option.getD_none, Option.getD_none] at inside
    have same : name = second := by
      cases first with
      | nil => exact (List.cons.inj inside).2
      | cons c first =>
        have isName := named '$' (by rw [(List.cons.inj inside).2]; simp)
        exact absurd isName (by decide)
    have known := List.find?_eq_none.mp complete _ written
    cases position : definition.position? ('$' :: name) with
    | none => simp [lacks, Variables.lacks, declared, position] at known
    | some i =>
      rw [position, Option.bind_some, List.getElem?_eq_none_iff] at argument
      refine ⟨name, ⟨⟨written, ⟨i, position, argument⟩, declared⟩, named⟩, ?_⟩
      rw [rest, same]
      exact List.prefix_append _ _

def Phase.scope? : Phase → Option Scope
  | reading _ task | working task => some task.progress.scope
  | failing _ | finished _ => none

/-- A declaration is written, with a value that has no dollar sign. -/
def Task.WritesResolved (task : Task) (key : Text) (next : Task) : Prop :=
  ∃ text, next.progress.draft =
      task.progress.draft.write (Layout.declaration key text task.progress.lineDepth) ∧
    '$' ∉ Layout.unpadded text

/-- The declarations of a mixin are written, with values that have no dollar signs but those of
placeholders that are left. -/
def Task.WritesMixin (task : Task) (params : Text) (next : Task) : Prop :=
  ∃ call definition, Call.ofText? params = some call ∧
    task.progress.scope.traits.get? call.name = some definition ∧
    ∃ texts : Declaration → Text,
      next.progress.draft = task.progress.draft.write (definition.body.flatMap fun d =>
        Layout.declaration d.key (texts d) task.progress.lineDepth) ∧
      ∀ d ∈ definition.body, ∀ before behind,
        Layout.unpadded (texts d) = before ++ '$' :: behind →
        ∃ name, definition.Leaves call.argumentList.length task.progress.scope.bindings d.value
          name ∧ Text.Stands name behind

/-- What is added to a draft for some entries. -/
theorem Progress.draft_eq_of_foldlM {p q : Progress} {entries : List Entry}
    (folded : (entries.map Resolved.entry).foldlM Drafts.step p.drafts = some q.drafts) :
    q.draft = p.draft.write (entries.flatMap (Entry.print p.lineDepth)) := by
  rw [Drafts.foldlM_entries] at folded
  exact (congrArg Drafts.inner (Option.some.inj folded)).symm

namespace Session

def AllLinked (volume : Volume) (start : Session) : Prop :=
  ∀ text, start.Reads volume text → text.isLinked

/-- In the course of a compilation a token is compiled, outside the definitions of traits. -/
def Takes (volume : Volume) (start : Session) (task : Task) (token : Token) (next : Task) : Prop :=
  ∃ s t, Reaches volume start s ∧ s.step volume = some t ∧ s.phase = .working task ∧
    t.phase = .working next ∧ task.rest = token :: next.rest ∧ task.progress.definition = none

/-- References are resolved in all of the course of a compilation with a result: in the values of
variables, in the values of declarations, and, apart from placeholders that are left, in the values
of the declarations of mixins. -/
structure Resolves (volume : Volume) (options : Options) (start : Session)
    (result : Except Problem Text) : Prop where
  outcome : ∀ css, result = .ok css → ∃ raw, start.Outputs volume raw ∧ css = options.print raw
  values : ∀ s scope name value, Reaches volume start s → s.phase.scope? = some scope →
    scope.bindings.get? name = some value → '$' ∉ value
  properties : ∀ task key value line next,
    start.Takes volume task (.property key value line) next → task.WritesResolved key next
  mixins : ∀ task params line next,
    start.Takes volume task (.statement Keyword.mixin.text params line) next →
    task.WritesMixin params next

variable {volume : Volume} {start s : Session} {task next : Task} {token : Token}

/-- What stands in the place of a token is written. -/
theorem Takes.resolved (takes : start.Takes volume task token next) :
    ∃ resolved,
      task.progress.resolver.step volume task.directory token =
        .ok (next.progress.resolver, resolved) ∧
      resolved.foldlM Drafts.step task.progress.drafts = some next.progress.drafts := by
  obtain ⟨s, t, -, stepped, working, after, left, -⟩ := takes
  cases move_of_step stepped with
  | stepped ahead other done =>
    cases working
    cases after
    rw [left] at ahead
    cases ahead
    exact Progress.step_eq_ok other done
  | returned empty =>
    cases working
    rw [left] at empty
    cases empty
  | unreadable | divided | stopped | passed => cases working
  | refused | missed | entered | unfinished | ended => cases after

/-- Variables and traits before a token is compiled, and the token itself. -/
theorem Takes.linked (takes : start.Takes volume task token next) (begins : start.Begins)
    (linked : start.AllLinked volume) :
    task.progress.resolver.Obeys Scope.linkedLaw ∧ token.Linked := by
  obtain ⟨s, t, reached, -, working, -, left, -⟩ := takes
  have read : ∀ token, start.Tokens volume token → token.Linked :=
    fun token found => found.linked linked
  refine ⟨begins.obeys (fun token found => (read token found).allows) reached working, ?_⟩
  exact read token ((begins.sourced reached working).tokens (by rw [left]; exact .head _))

/-- What a declaration writes. -/
theorem Takes.written {key value : Text} {line : Nat}
    (takes : start.Takes volume task (.property key value line) next) :
    task.progress.scope.bindings.missing? value = none ∧
      next.progress.draft = task.progress.draft.write (Layout.declaration key
        (Image.inlineAll volume task.directory (task.progress.scope.bindings.fill value))
        task.progress.lineDepth) := by
  obtain ⟨resolved, stepped, folded⟩ := takes.resolved
  obtain ⟨-, -, -, -, -, -, -, outside⟩ := takes
  simp only [Resolver.step, Progress.resolver, outside] at stepped
  obtain ⟨text, substituted, same⟩ := exists_of_map_eq_ok stepped
  obtain ⟨-, rfl⟩ := Prod.mk.inj same
  obtain ⟨known, rfl⟩ := Variables.substitute_eq_ok substituted
  have written := @Progress.draft_eq_of_foldlM _ _ [_] folded
  rw [List.flatMap_singleton] at written
  exact ⟨known, written⟩

theorem Takes.property {key value : Text} {line : Nat}
    (takes : start.Takes volume task (.property key value line) next) (begins : start.Begins)
    (linked : start.AllLinked volume) : task.WritesResolved key next := by
  obtain ⟨obeys, own⟩ := takes.linked begins linked
  obtain ⟨known, written⟩ := takes.written
  exact ⟨_, written, Layout.not_mem_written (obeys.values.not_mem_fill own known) _ _⟩

theorem Takes.mixin {params : Text} {line : Nat}
    (takes : start.Takes volume task (.statement Keyword.mixin.text params line) next)
    (begins : start.Begins) (linked : start.AllLinked volume) : task.WritesMixin params next := by
  obtain ⟨obeys, own⟩ := takes.linked begins linked
  obtain ⟨resolved, stepped, folded⟩ := takes.resolved
  obtain ⟨-, -, -, -, -, -, -, outside⟩ := takes
  simp only [Resolver.step, Progress.resolver, outside, Resolver.statement] at stepped
  rw [if_neg (by decide), if_pos trivial] at stepped
  obtain ⟨entries, expanded, same⟩ := exists_of_map_eq_ok stepped
  obtain ⟨-, rfl⟩ := Prod.mk.inj same
  obtain ⟨call, definition, read, found, known, complete, rfl⟩ := Scope.expand_eq_ok expanded
  have written := Progress.draft_eq_of_foldlM folded
  rw [List.flatMap_map] at written
  refine ⟨call, definition, read, found, _, written, ?_⟩
  intro d member before behind split
  have given : ∀ argument ∈ call.argumentList.map task.progress.scope.bindings.fill,
      '$' ∉ argument := by
    rw [List.forall_mem_map]
    intro argument inList
    exact obeys.values.not_mem_fill ((Call.cut_of_mem_argumentList read inList).isLinked own)
      (List.findSome?_eq_none_iff.mp known argument inList)
  have body := obeys.bodies definition (List.mem_of_find?_eq_some found) d member
  have full := List.findSome?_eq_none_iff.mp complete d member
  obtain ⟨name, ⟨leaves, -⟩, stands⟩ := Layout.exists_stands_of_written (fun _ leaves => leaves.2)
    (fun _ _ sign => Trait.exists_leaves_of_fill obeys.values given body full sign) split
  rw [List.length_map] at leaves
  exact ⟨name, leaves, stands⟩

theorem Begins.values (begins : start.Begins) (linked : start.AllLinked volume) {scope : Scope}
    (reached : Reaches volume start s) (inForce : s.phase.scope? = some scope) :
    scope.bindings.Obey Scope.linkedLaw := by
  have kept := (keeps_scopeLaw begins fun token found =>
    (found.linked linked).allows).obeys begins reached
  cases phase : s.phase with
  | reading joining task =>
    rw [phase] at kept inForce
    cases inForce
    exact kept.1.values
  | working task =>
    rw [phase] at kept inForce
    cases inForce
    exact kept.1.values
  | failing | finished => rw [phase] at inForce; cases inForce

theorem Begins.resolves (begins : start.Begins) (linked : start.AllLinked volume)
    {options : Options} {result : Except Problem Text}
    (outcome : ∀ css, result = .ok css →
      ∃ raw, start.Outputs volume raw ∧ css = options.print raw) :
    start.Resolves volume options result where
  outcome := outcome
  values _ _ name value reached inForce found :=
    begins.values linked reached inForce name value found
  properties _ _ _ _ _ takes := takes.property begins linked
  mixins _ _ _ _ takes := takes.mixin begins linked

/-- Whether all texts are linked can be seen in the course of a compilation. -/
theorem allLinked_of_course {n : Nat} (ended : start.after volume n = none)
    (checked : (start.course volume n).all fun s => s.phase.text?.all Text.isLinked) :
    start.AllLinked volume := by
  intro text reads
  obtain ⟨s, reached, isText⟩ := reads
  have own := List.all_eq_true.mp checked s (mem_course ended reached)
  rwa [isText] at own

end Session

open Session (ofText ofFile)

/-- If all texts are linked that are read, then references are resolved in all of a compilation. -/
theorem compile_resolves (volume : Volume) (options : Options) :
    (∀ source, (ofText options source).AllLinked volume →
      (ofText options source).Resolves volume options (compile volume options source)) ∧
    ∀ path, (ofFile volume path).AllLinked volume →
      (ofFile volume path).Resolves volume options (compileFile volume options path) := by
  constructor
  · intro source linked
    exact (Session.ofText_begins options source).resolves linked
      fun _ => Session.outputs_of_compile
  · intro path linked
    exact (Session.ofFile_begins volume path).resolves linked
      fun _ => Session.outputs_of_compileFile

def variableFiles : Volume :=
  let file (name : Text) (text : String) := ([name], Node.file (Text.encode text.toList) ⟨0, 0⟩)
  ⟨[file "x.png".toList "a", file ['v'] "@var $a 1px; @var $b $a solid;"], []⟩

/-- A variable of an imported file, a mixin with one of two arguments. -/
theorem compile_resolves_imported :
    let source := ("@import 'v';\n@trait t(p, q) \x7b k: $p $q $b; \x7d\n" ++
      "p \x7b j: $b; @mixin t($a); \x7d").toList
    let css := "p \x7b\n  j: 1px solid;\n  k: 1px $q 1px solid;\n\x7d".toList
    compile variableFiles .default source = .ok css ∧
      (ofText .default source).AllLinked variableFiles ∧
      (ofText .default source).Resolves variableFiles .default (.ok css) := by
  intro source css
  have compiled : compile variableFiles .default source = .ok css := by decide +kernel
  have ended : (ofText .default source).after variableFiles 20 = none := by decide +kernel
  have linked := Session.allLinked_of_course ended (by decide +kernel)
  have resolves := (compile_resolves variableFiles .default).1 source linked
  rw [compiled] at resolves
  exact ⟨compiled, linked, resolves⟩

/-- A dollar sign stays in a key, whatever the arguments, and an image changes a placeholder that it
is joined to. -/
theorem compile_mixin_keeps_sign :
    let keyed := "@trait t($a) \x7b $a: 1px \x7d\np \x7b @mixin t(x); \x7d".toList
    let joined := "@trait t(aURL) \x7b k: $aURL(x.png) \x7d\np \x7b @mixin t; \x7d".toList
    let inlined := "p \x7b\n  k: $aurl(\"data:image/png;base64,YQ==\");\n\x7d".toList
    ((ofText .default keyed).AllLinked variableFiles ∧
      (Call.ofText? "t($a)".toList).map Trait.paramsOf = some [['a']] ∧
      (Call.ofText? "t(x)".toList).map Call.argumentList = some [['x']] ∧
      compile variableFiles .default keyed = .ok "p \x7b\n  $a: 1px;\n\x7d".toList) ∧
    (ofText .default joined).AllLinked variableFiles ∧
      compile variableFiles .default joined = .ok inlined ∧
      ¬ "$aURL".toList <:+: inlined := by
  intro keyed joined inlined
  have keyedEnds : (ofText .default keyed).after variableFiles 20 = none := by decide +kernel
  have joinedEnds : (ofText .default joined).after variableFiles 20 = none := by decide +kernel
  exact ⟨⟨Session.allLinked_of_course keyedEnds (by decide +kernel), by decide +kernel,
    by decide +kernel, by decide +kernel⟩,
    Session.allLinked_of_course joinedEnds (by decide +kernel), by decide +kernel,
    by decide +kernel⟩

end Stylesheet
