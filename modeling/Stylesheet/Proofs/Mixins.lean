import Stylesheet.Compile
import Stylesheet.Proofs.Linked

set_option autoImplicit false

namespace Stylesheet

/-- No reference is directly followed by a dollar sign. -/
def Text.isSpaced : Text → Bool
  | [] => true
  | c :: t => (c ≠ '$' || (t.dropWhile Reference.isNameChar).head? ≠ some '$') && isSpaced t

theorem Text.isSpaced_of_append_right {t u : Text} (spaced : isSpaced (t ++ u)) : isSpaced u := by
  induction t with
  | nil => exact spaced
  | cons c t ih =>
    rw [List.cons_append, isSpaced, Bool.and_eq_true] at spaced
    exact ih spaced.2

namespace Reference

/-- A text from left to right: characters that are no dollar signs, and whole references. -/
inductive Divided : Text → Prop
  | nil : Divided []
  | plain {c : Char} {t : Text} (noSign : c ≠ '$') (later : Divided t) : Divided (c :: t)
  | reference {name t : Text} (nonempty : name ≠ []) (named : ∀ c ∈ name, isNameChar c)
      (ends : ∀ c ∈ t.head?, isNameChar c = false) (later : Divided t) : Divided ('$' :: name ++ t)

variable {t u name : Text}

theorem divided_of_isLinked (linked : t.isLinked) : Divided t := by
  induction size : t.length using Nat.strongRecOn generalizing t with
  | ind bound ih =>
    cases t with
    | nil => exact .nil
    | cons c t =>
      obtain ⟨first, later⟩ := Text.isLinked_cons_iff.mp linked
      by_cases sign : c = '$'
      · obtain ⟨d, isFirst, named⟩ := first sign
        have nonempty : t.takeWhile isNameChar ≠ [] := by
          obtain ⟨t, rfl⟩ := List.head?_eq_some_iff.mp isFirst
          simp [named]
        have ends : ∀ c ∈ (t.dropWhile isNameChar).head?, isNameChar c = false := by
          intro c isHead
          have unnamed := List.head?_dropWhile_not isNameChar t
          rw [isHead] at unnamed
          exact unnamed
        have whole := List.takeWhile_append_dropWhile (p := isNameChar) (l := t)
        have rest : Text.isLinked (t.dropWhile isNameChar) := by
          rw [← whole] at later
          exact Text.isLinked_of_append_right later
        have shorter : (t.dropWhile isNameChar).length < bound := by
          have := (List.dropWhile_suffix isNameChar (l := t)).length_le
          simp only [List.length_cons] at size
          omega
        rw [sign, ← whole, ← List.cons_append]
        exact .reference nonempty (fun c => List.mem_takeWhile_imp) ends (ih _ shorter rest rfl)
      · exact .plain sign (ih _ (by simp [← size]) later rfl)

/-- Where a reference ends, before a character that no name has. -/
theorem length_of_name (nonempty : name ≠ []) (named : ∀ c ∈ name, isNameChar c)
    (ends : ∀ c ∈ t.head?, isNameChar c = false) :
    length ('$' :: name ++ t) = ('$' :: name).length := by
  have count : Text.countWhile isNameChar (name ++ t) = name.length := by
    rw [Text.countWhile, List.takeWhile_append_of_pos named]
    cases t with
    | nil => simp
    | cons c t => simp [ends c rfl]
  have positive := List.length_pos_iff.mpr nonempty
  rw [List.cons_append, length, count, List.length_cons]
  split
  · omega
  · rfl

theorem length_of_ne_sign {c : Char} (noSign : c ≠ '$') : length (c :: t) = 0 := by
  unfold length
  split
  · simp_all
  · rfl

theorem pieces_of_ne_sign {c : Char} (noSign : c ≠ '$') :
    Text.pieces length (c :: t) = .plain c :: Text.pieces length t := by
  rw [Text.pieces, Text.piecesFrom, length_of_ne_sign noSign]
  rfl

theorem pieces_of_name (nonempty : name ≠ []) (named : ∀ c ∈ name, isNameChar c)
    (ends : ∀ c ∈ t.head?, isNameChar c = false) :
    Text.pieces length ('$' :: name ++ t) = .found ('$' :: name) :: Text.pieces length t := by
  have isLength := length_of_name nonempty named ends
  have found : length ('$' :: name ++ t) ≠ 0 := by
    rw [isLength]
    exact Nat.succ_ne_zero _
  rw [Text.pieces_of_match found (List.cons_ne_nil _ _), isLength, List.take_left, List.drop_left]

theorem pieces_singleton (c : Char) : Text.pieces length [c] = [.plain c] := by
  by_cases sign : c = '$'
  · rw [sign]
    rfl
  · exact pieces_of_ne_sign sign

/-- Texts that meet where no reference can get longer are divided apart. -/
theorem pieces_append (linked : t.isLinked) (ends : ∀ c ∈ u.head?, isNameChar c = false) :
    Text.pieces length (t ++ u) = Text.pieces length t ++ Text.pieces length u := by
  induction divided_of_isLinked linked with
  | nil => rfl
  | plain noSign later ih =>
    rw [List.cons_append, pieces_of_ne_sign noSign, pieces_of_ne_sign noSign, ih, List.cons_append]
    exact (Text.isLinked_cons_iff.mp linked).2
  | @reference name t nonempty named within later ih =>
    have endsLater : ∀ c ∈ (t ++ u).head?, isNameChar c = false := by
      cases t with
      | nil => exact ends
      | cons c t => exact within
    rw [List.append_assoc, pieces_of_name nonempty named endsLater,
      pieces_of_name nonempty named within, ih (Text.isLinked_of_append_right linked),
      List.cons_append]

/-- A spaced text after one of its references does not begin with a name once references are
replaced. -/
theorem head?_replace {f : Text → Text} (named : ∀ c ∈ name, isNameChar c)
    (ends : ∀ c ∈ t.head?, isNameChar c = false) (spaced : Text.isSpaced ('$' :: name ++ t)) :
    ∀ c ∈ (Text.replace length f t).head?, isNameChar c = false := by
  cases t with
  | nil => simp
  | cons c t =>
    have unnamed := ends c rfl
    have noSign : c ≠ '$' := by
      rintro rfl
      simp [Text.isSpaced, List.dropWhile_append_of_pos named, unnamed] at spaced
    rw [Text.replace_cons (length_of_ne_sign noSign)]
    exact ends

/-- What replaces references in a spaced text is divided apart from all around it. -/
theorem pieces_replace {f : Text → Text} (linked : t.isLinked) (spaced : t.isSpaced)
    (values : ∀ name ∈ names t, (f name).isLinked) :
    Text.pieces length (Text.replace length f t) =
      (Text.pieces length t).flatMap fun piece => Text.pieces length (piece.render f) := by
  induction divided_of_isLinked linked with
  | nil => rfl
  | @plain c t noSign later ih =>
    rw [Text.isSpaced, Bool.and_eq_true] at spaced
    rw [names, pieces_of_ne_sign noSign] at values
    rw [Text.replace_cons (length_of_ne_sign noSign), pieces_of_ne_sign noSign,
      pieces_of_ne_sign noSign, ih (Text.isLinked_cons_iff.mp linked).2 spaced.2 values,
      List.flatMap_cons, Text.Piece.render, pieces_singleton, List.singleton_append]
  | @reference name t nonempty named ends later ih =>
    rw [names, pieces_of_name nonempty named ends] at values
    obtain ⟨value, values⟩ := List.forall_mem_cons.mp values
    have isLength := length_of_name nonempty named ends
    -- Spaced texts matter here: what replaces the reference may end in one itself.
    have apart := head?_replace (f := f) named ends spaced
    have rest := ih (Text.isLinked_of_append_right linked) (Text.isSpaced_of_append_right spaced)
      values
    rw [Text.replace_append (List.cons_ne_nil _ _) isLength, pieces_append value apart, rest,
      pieces_of_name nonempty named ends, List.flatMap_cons, Text.Piece.render]

/-- The references of a text in which references were replaced. -/
theorem names_replace {f : Text → Text} (linked : t.isLinked) (spaced : t.isSpaced)
    (values : ∀ name ∈ names t, (f name).isLinked) :
    names (Text.replace length f t) = (names t).flatMap fun name => names (f name) := by
  have inPiece : ∀ piece : Text.Piece, (Text.pieces length (piece.render f)).filterMap
      Text.Piece.name? = piece.name?.toList.flatMap fun name => names (f name) := by
    intro piece
    cases piece with
    | plain c =>
      rw [Text.Piece.render, pieces_singleton]
      rfl
    | found name => simp [Text.Piece.render, Text.Piece.name?, names]
  rw [names, names, pieces_replace linked spaced values, List.filterMap_flatMap,
    List.filterMap_eq_flatMap_toList, List.flatMap_assoc]
  simp only [inPiece]

/-- Replacing references twice, and at once. -/
theorem replace_replace {f g : Text → Text} (linked : t.isLinked) (spaced : t.isSpaced)
    (values : ∀ name ∈ names t, (f name).isLinked) :
    Text.replace length g (Text.replace length f t) =
      Text.replace length (fun name => Text.replace length g (f name)) t := by
  have inPiece : ∀ piece : Text.Piece, (Text.pieces length (piece.render f)).flatMap
      (Text.Piece.render g) = piece.render fun name => Text.replace length g (f name) := by
    intro piece
    cases piece with
    | plain c =>
      rw [Text.Piece.render, pieces_singleton]
      rfl
    | found name => rfl
  rw [Text.replace, pieces_replace linked spaced values, List.flatMap_assoc]
  simp only [inPiece]
  rfl

/-- A reference is its own only piece. -/
theorem pieces_of_mem_names (linked : t.isLinked) (member : name ∈ names t) :
    name.isLinked ∧ Text.pieces length name = [.found name] := by
  induction divided_of_isLinked linked with
  | nil => cases member
  | plain noSign later ih =>
    rw [names, pieces_of_ne_sign noSign] at member
    exact ih (Text.isLinked_cons_iff.mp linked).2 member
  | @reference m t nonempty named ends later ih =>
    rw [names, pieces_of_name nonempty named ends] at member
    rcases List.mem_cons.mp member with rfl | member
    · have alone := pieces_of_name (t := []) nonempty named (by simp)
      rw [List.append_nil] at alone
      exact ⟨Text.isLinked_of_append_left linked ends, alone⟩
    · exact ih (Text.isLinked_of_append_right linked) member

end Reference

namespace Trait

variable {definition : Trait} {arguments : List Text} {vars : Variables} {d : Declaration}
  {name : Text} {line : Nat}

/-- What is written for a reference in the body: for a parameter its argument, as it stands. -/
def argument (definition : Trait) (arguments : List Text) (name : Text) : Text :=
  ((definition.position? name).bind (arguments[·]?)).getD name

/-- The declarations of a trait, with the arguments in the places of the parameters. -/
def writtenOut (definition : Trait) (arguments : List Text) (line : Nat) : List Token :=
  definition.body.map fun d =>
    .property d.key (Text.replace Reference.length (definition.argument arguments) d.value) line

/-- Every parameter in the body has an argument, every dollar sign in the body and the arguments
begins a reference, and no reference in the body is directly followed by another one. -/
structure Expandable (definition : Trait) (arguments : List Text) : Prop where
  bound : ∀ d ∈ definition.body, ∀ name ∈ Reference.names d.value,
    ∀ position ∈ definition.position? name, position < arguments.length
  linked : ∀ d ∈ definition.body, d.value.isLinked
  spaced : ∀ d ∈ definition.body, d.value.isSpaced
  arguments : ∀ argument ∈ arguments, argument.isLinked

namespace Expandable

/-- A reference in the body is no parameter, or one that has an argument. -/
theorem cases_name (expandable : definition.Expandable arguments) (member : d ∈ definition.body)
    (refers : name ∈ Reference.names d.value) :
    definition.position? name = none ∧ definition.argument arguments name = name ∨
      ∃ position given, definition.position? name = some position ∧
        arguments[position]? = some given ∧ definition.argument arguments name = given := by
  cases param : definition.position? name with
  | none => exact .inl ⟨rfl, by simp [argument, param]⟩
  | some position =>
    have few := expandable.bound d member name refers position param
    have given := List.getElem?_eq_getElem few
    exact .inr ⟨position, _, rfl, given, by simp [argument, param, given]⟩

theorem linked_argument (expandable : definition.Expandable arguments)
    (member : d ∈ definition.body) (refers : name ∈ Reference.names d.value) :
    (definition.argument arguments name).isLinked := by
  rcases expandable.cases_name member refers with ⟨-, same⟩ | ⟨position, given, -, found, same⟩
  · rw [same]
    exact (Reference.pieces_of_mem_names (expandable.linked d member) refers).1
  · rw [same]
    exact expandable.arguments given (List.mem_of_getElem? found)

/-- The first name without a value in what is written for a reference is the reference itself. -/
theorem missing?_argument (expandable : definition.Expandable arguments)
    (member : d ∈ definition.body) (known : ∀ argument ∈ arguments, vars.missing? argument = none)
    (refers : name ∈ Reference.names d.value) :
    vars.missing? (definition.argument arguments name) =
      Option.guard (definition.lacks vars) name := by
  rcases expandable.cases_name member refers with
    ⟨noParam, same⟩ | ⟨position, given, param, found, same⟩
  · have alone := (Reference.pieces_of_mem_names (expandable.linked d member) refers).2
    rw [same, Variables.missing?, Reference.names, alone]
    simp [Text.Piece.name?, lacks, noParam, Option.guard, List.find?_singleton]
  · rw [same, known given (List.mem_of_getElem? found)]
    simp [lacks, param, Option.guard]

theorem fill_argument (expandable : definition.Expandable arguments) (member : d ∈ definition.body)
    (refers : name ∈ Reference.names d.value) :
    vars.fill (definition.argument arguments name) =
      definition.meaning (arguments.map vars.fill) vars name := by
  rcases expandable.cases_name member refers with
    ⟨noParam, same⟩ | ⟨position, given, param, found, same⟩
  · have alone := (Reference.pieces_of_mem_names (expandable.linked d member) refers).2
    rw [same, Variables.fill, Text.replace, alone]
    simp [Text.Piece.render, meaning, noParam]
  · simp [same, meaning, param, found]

theorem missing?_replace (expandable : definition.Expandable arguments)
    (member : d ∈ definition.body)
    (known : ∀ argument ∈ arguments, vars.missing? argument = none) :
    vars.missing? (Text.replace Reference.length (definition.argument arguments) d.value) =
      (Reference.names d.value).find? (definition.lacks vars) := by
  have divided := Reference.names_replace (expandable.linked d member) (expandable.spaced d member)
    fun name => expandable.linked_argument member
  rw [Variables.missing?, divided, List.find?_flatMap, List.find?_eq_findSome?_guard,
    ← List.head?_filterMap, ← List.head?_filterMap]
  refine congrArg List.head? (List.filterMap_congr fun name refers => ?_)
  exact expandable.missing?_argument member known refers

theorem fill_replace (expandable : definition.Expandable arguments)
    (member : d ∈ definition.body) :
    vars.fill (Text.replace Reference.length (definition.argument arguments) d.value) =
      Text.replace Reference.length (definition.meaning (arguments.map vars.fill) vars)
        d.value := by
  rw [Variables.fill, Reference.replace_replace (expandable.linked d member)
    (expandable.spaced d member) fun name => expandable.linked_argument member]
  refine List.flatMap_congr fun piece isPiece => ?_
  cases piece with
  | plain c => rfl
  | found name =>
    exact expandable.fill_argument member (Reference.mem_names_of_mem_pieces isPiece)

/-- A value of the body that is written out means what it means in the body, where the arguments
have been resolved before. -/
theorem substitute_replace (expandable : definition.Expandable arguments)
    (member : d ∈ definition.body)
    (known : ∀ argument ∈ arguments, vars.missing? argument = none) :
    vars.substitute line (Text.replace Reference.length (definition.argument arguments) d.value) =
      Reference.resolve (definition.resolve (arguments.map vars.fill) vars line) d.value := by
  rw [Variables.substitute_eq_elim, expandable.missing?_replace member known,
    expandable.fill_replace member,
    Reference.resolve_eq_elim (definition.resolve_eq_elim _ vars line), findSome?_undeclared]

end Expandable

end Trait

namespace Progress

variable {importer : Importer} {setting : Setting} {p : Progress} {params : Text} {line : Nat}
  {call : Call} {definition : Trait}

theorem write_nil (p : Progress) : p.write [] = p := by
  simp only [write, Draft.write, List.append_nil]

theorem write_append (p : Progress) (t u : Text) : p.write (t ++ u) = (p.write t).write u := by
  simp only [write, Draft.write, List.append_assoc]

/-- Properties after each other write what their declarations do together, and the first one that
fails is the problem. -/
theorem foldlM_property {value : Declaration → Text}
    {instantiate : Declaration → Except Problem Declaration} (outside : p.definition = none)
    {body : List Declaration}
    (same : ∀ d ∈ body, instantiate d =
      (p.scope.bindings.substitute line (value d)).map (Declaration.mk d.key)) :
    (body.map fun d => Token.property d.key (value d) line).foldlM (step importer setting) p =
      (body.mapM instantiate).map fun declarations => p.write (declarations.flatMap fun d =>
        Layout.declaration d.key (Image.inlineAll setting.volume setting.directory d.value)
          p.lineDepth) := by
  induction body generalizing p with
  | nil => exact congrArg Except.ok (write_nil p).symm
  | cons d body ih =>
    obtain ⟨first, later⟩ := List.forall_mem_cons.mp same
    have stepped (v : Text) : p.step importer setting (.property d.key v line) =
        p.writeProperty setting d.key v line := by
      rw [step, outside]
    rw [List.map_cons, List.foldlM_cons, List.mapM_cons, first, stepped, writeProperty]
    cases p.scope.bindings.substitute line (value d) with
    | error problem => rfl
    | ok resolved =>
      -- What was written changes neither the variables nor the depth, so the rest is as before.
      have rest := @ih (p.write (Layout.declaration d.key
        (Image.inlineAll setting.volume setting.directory resolved) p.lineDepth)) outside later
      simp only [bind, Except.bind, pure, Except.pure, Except.map] at rest ⊢
      rw [rest]
      cases body.mapM instantiate with
      | error problem => rfl
      | ok declarations =>
        simp only [List.flatMap_cons, write_append]
        rfl

/-- A mixin, and the declarations of its trait written out in its place. -/
theorem step_mixin (outside : p.definition = none) (read : Call.ofText? params = some call)
    (found : p.scope.traits.get? call.name = some definition)
    (home : definition.directory = setting.directory)
    (known : ∀ argument ∈ call.argumentList, p.scope.bindings.missing? argument = none)
    (expandable : definition.Expandable call.argumentList) :
    p.step importer setting (.statement Keyword.mixin.text params line) =
      (definition.writtenOut call.argumentList line).foldlM (step importer setting) p := by
  have resolved := Variables.mapM_substitute_eq_ok (List.findSome?_eq_none_iff.mpr known) line
  have stepped : p.step importer setting (.statement Keyword.mixin.text params line) =
      p.mixIn setting params line := by
    simp only [step, outside, statement]
    rfl
  rw [stepped, mixIn, read]
  simp only [found, resolved]
  have instantiated (d : Declaration) (member : d ∈ definition.body) :
      (do
        let value ← Reference.resolve (definition.resolve
          (call.argumentList.map p.scope.bindings.fill) p.scope.bindings line) d.value
        return { d with value }) =
      (p.scope.bindings.substitute line (Text.replace Reference.length
        (definition.argument call.argumentList) d.value)).map (Declaration.mk d.key) := by
    rw [expandable.substitute_replace member known]
    rfl
  rw [Trait.writtenOut, foldlM_property outside instantiated, home]
  rfl

end Progress

/-- A mixin of any stylesheet, written out. -/
theorem compileRaw_writtenOut {importer : Importer} {setting : Setting} {depth : Nat}
    {scope : Scope} {before after : List Token} {params : Text} {line : Nat} {p : Progress}
    {call : Call} {definition : Trait}
    (reached : before.foldlM (Progress.step importer setting) (.start scope depth) = .ok p)
    (outside : p.definition = none) (read : Call.ofText? params = some call)
    (found : p.scope.traits.get? call.name = some definition)
    (home : definition.directory = setting.directory)
    (known : ∀ argument ∈ call.argumentList, p.scope.bindings.missing? argument = none)
    (expandable : definition.Expandable call.argumentList) :
    compileRaw importer setting depth scope
        (before ++ .statement Keyword.mixin.text params line :: after) =
      compileRaw importer setting depth scope
        (before ++ definition.writtenOut call.argumentList line ++ after) := by
  have stepped : p.step importer setting (.statement Keyword.mixin.text params line) = _ :=
    Progress.step_mixin outside read found home known expandable
  simp only [compileRaw, List.append_assoc, List.foldlM_append, List.foldlM_cons, reached, stepped,
    bind, Except.bind]

/-- A mixin outside traits can be replaced by the declarations of its trait, with the arguments as
they stand in the places of the parameters. The trait belongs to the directory of the stylesheet,
and the arguments can be resolved where the mixin stands. The result is the same, be it an output or
a problem. -/
theorem compileTokens_writtenOut (volume : Volume) (options : Options) (before after : List Token)
    (params : Text) (line : Nat) (p : Progress) (call : Call) (definition : Trait)
    (reached :
      let setting : Setting := ⟨volume, options.directory, []⟩
      before.foldlM (Progress.step setting.importer setting) (.start .empty 0) = .ok p)
    (outside : p.definition = none) (read : Call.ofText? params = some call)
    (found : p.scope.traits.get? call.name = some definition)
    (home : definition.directory = options.directory)
    (resolvable : ∀ argument ∈ call.argumentList,
      ∃ value, p.scope.bindings.substitute line argument = .ok value)
    (expandable : definition.Expandable call.argumentList) :
    compileTokens volume options (before ++ .statement Keyword.mixin.text params line :: after) =
      compileTokens volume options
        (before ++ definition.writtenOut call.argumentList line ++ after) := by
  have known : ∀ argument ∈ call.argumentList, p.scope.bindings.missing? argument = none := by
    intro argument given
    obtain ⟨value, resolved⟩ := resolvable argument given
    exact (Variables.substitute_eq_ok resolved).1
  simp only [compileTokens, compileIn,
    compileRaw_writtenOut reached outside read found home known expandable]

/-- A parameter of two positions, and one that has the name of a variable. -/
def bordersTrait : Trait :=
  ⟨['t'], [['a'], ['c'], ['a']], [⟨"border".toList, "$a solid $c".toList⟩,
    ⟨"margin".toList, "$g -$a".toList⟩], Options.default.directory⟩

/-- The trait is defined between the variables, and then a rule is opened. -/
def borders : List Token :=
  [.statement "@var".toList "$c blue".toList 1, .atBlock "@trait".toList "t($a, c, $a)".toList 2,
    .property "border".toList "$a solid $c".toList 3, .property "margin".toList "$g -$a".toList 4,
    .close 5, .statement "@var".toList "$g 1px".toList 6, .rule ['p'] 7]

/-- The variable in the first argument is not the parameter of its name. -/
theorem borders_writtenOut :
    let css := "p \x7b\n  border: blue, 2px solid 1px;\n  margin: 1px -blue, 2px;\n\x7d".toList
    compileTokens ⟨[], []⟩ .default
        (borders ++ .statement Keyword.mixin.text "t(($c, 2px), $g)".toList 8 :: [.close 9]) =
      .ok css ∧
    compileTokens ⟨[], []⟩ .default
        (borders ++ [.property "border".toList "$c, 2px solid $g".toList 8,
          .property "margin".toList "$g -$c, 2px".toList 8] ++ [.close 9]) =
      .ok css := by
  intro css
  let call : Call := ⟨['t'], some "($c, 2px), $g".toList⟩
  have arguments : call.argumentList = ["$c, 2px".toList, "$g".toList] := by decide +kernel
  have written : bordersTrait.writtenOut ["$c, 2px".toList, "$g".toList] 8 =
      [.property "border".toList "$c, 2px solid $g".toList 8,
        .property "margin".toList "$g -$c, 2px".toList 8] := by decide +kernel
  have compiled : compileTokens ⟨[], []⟩ .default
      (borders ++ .statement Keyword.mixin.text "t(($c, 2px), $g)".toList 8 :: [.close 9]) =
      .ok css := by decide +kernel
  have same := compileTokens_writtenOut ⟨[], []⟩ .default borders [.close 9]
    "t(($c, 2px), $g)".toList 8
    ⟨⟨⟨[("$g".toList, "1px".toList), ("$c".toList, "blue".toList)]⟩, ⟨[bordersTrait]⟩⟩,
      .start ⟨some ['p'], 0⟩, [⟨.rule, 7, .start ⟨none, 0⟩⟩], none⟩
    call bordersTrait (by decide +kernel) rfl (by decide +kernel) (by decide +kernel) rfl
    (by
      rw [arguments]
      exact List.forall_mem_cons.mpr ⟨⟨"blue, 2px".toList, by decide +kernel⟩,
        List.forall_mem_singleton.mpr ⟨"1px".toList, by decide +kernel⟩⟩)
    ⟨by decide +kernel, by decide +kernel, by decide +kernel, by decide +kernel⟩
  rw [arguments, written, compiled] at same
  exact ⟨compiled, same.symm⟩

end Stylesheet
