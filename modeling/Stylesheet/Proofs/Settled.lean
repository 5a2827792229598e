import Stylesheet.Proofs.Replace
import Stylesheet.Proofs.Resolve
import Stylesheet.Proofs.Spelling

set_option autoImplicit false

namespace Stylesheet

theorem Reference.resolve_eq_self {ε : Type} (lookup : Text → Except ε Text) {t : Text}
    (none : '$' ∉ t) : resolve lookup t = .ok t := by
  have unmatched : ∀ u, u <:+ t → length u = 0 := by
    intro u suffix
    unfold length
    split
    · exact absurd (suffix.mem List.mem_cons_self) none
    · rfl
  have plain : ∀ u : Text, (u.map Text.Piece.plain).mapM (resolvePiece lookup) =
      Except.ok (u.map ([·])) := by
    intro u
    induction u with
    | nil => rfl
    | cons c u ih =>
      rw [List.map_cons, List.mapM_cons, ih]
      rfl
  rw [resolve, Text.pieces, Text.piecesFrom_eq_map unmatched, plain t]
  change Except.ok (t.map ([·])).flatten = _
  rw [← List.flatMap_def, List.flatMap_singleton']

/-- Whether nothing in a token is left to resolve. -/
def Resolved.Settled : Resolved → Prop
  | entry (.declaration _ value) =>
    '$' ∉ value ∧ ∀ u, u <:+ value → Image.referenceLength u = 0
  | entry (.statement name _) =>
    name ≠ Keyword.declare.text ∧ name ≠ Keyword.mixin.text ∧ name ≠ Keyword.load.text
  | opens (.atRule name _) => name ≠ Keyword.define.text
  | entry (.comment _) | opens (.rule _) | closes => True

/-- Whether a token stands for itself, except for the images in it. -/
def Resolved.Constant : Resolved → Prop
  | entry (.declaration _ value) => '$' ∉ value
  | entry (.statement name _) =>
    name ≠ Keyword.declare.text ∧ name ≠ Keyword.mixin.text ∧ name ≠ Keyword.load.text
  | opens (.atRule name _) => name ≠ Keyword.define.text
  | entry (.comment _) | opens (.rule _) | closes => True

section

variable (volume : Volume) (directory : Path)

def Entry.inlined : Entry → Entry
  | .declaration key value => .declaration key (Image.inlineAll volume directory value)
  | e => e

def Resolved.inlined : Resolved → Resolved
  | entry e => entry (e.inlined volume directory)
  | resolved => resolved

def Forest.inlined : Forest → Forest
  | .empty => .empty
  | .entry e rest => .entry (e.inlined volume directory) rest.inlined
  | .block opening inner rest => .block opening inner.inlined rest.inlined

theorem Forest.stream_inlined (forest : Forest) :
    (forest.inlined volume directory).stream =
      forest.stream.map (Resolved.inlined volume directory) := by
  induction forest with
  | empty => rfl
  | entry e rest ih => simp [inlined, stream, ih, Resolved.inlined]
  | block opening inner rest innerIh restIh =>
    simp [inlined, stream, innerIh, restIh, Resolved.inlined]

end

section

variable {volume : Volume} {directory : Path}

theorem Resolved.Settled.constant {resolved : Resolved} (settled : resolved.Settled) :
    resolved.Constant := by
  match resolved, settled with
  | .entry (.declaration _ _), ⟨noVariable, _⟩ => exact noVariable
  | .entry (.statement _ _), other => exact other
  | .opens (.atRule _ _), other => exact other
  | .entry (.comment _), _ | .opens (.rule _), _ | .closes, _ => trivial

theorem Resolved.Settled.inlined_eq {resolved : Resolved} (settled : resolved.Settled) :
    resolved.inlined volume directory = resolved := by
  match resolved, settled with
  | .entry (.declaration _ _), ⟨_, noImage⟩ =>
    simp only [Resolved.inlined, Entry.inlined, Image.inlineAll, Text.replace_eq_self noImage]
  | .entry (.statement _ _), _ | .entry (.comment _), _ | .opens _, _ | .closes, _ => rfl

theorem Forest.inlined_eq_self {forest : Forest}
    (settled : ∀ token ∈ forest.stream, token.Settled) :
    forest.inlined volume directory = forest := by
  apply stream_injective
  calc (forest.inlined volume directory).stream
    _ = forest.stream.map (Resolved.inlined volume directory) := stream_inlined _ _ forest
    _ = forest.stream.map id := List.map_congr_left fun x member => (settled x member).inlined_eq
    _ = forest.stream := List.map_id _

end

namespace Resolver

variable {volume : Volume} {directory : Path}

theorem step_constant {r : Resolver} {token : Token} {resolved : Resolved}
    (outside : r.definition = none) (constant : resolved.Constant)
    (same : token.unlined = resolved.token) :
    r.step volume directory token = .ok (r, [resolved.inlined volume directory]) := by
  unfold step
  rw [outside]
  match resolved, constant with
  | .entry (.declaration key value), noVariable =>
    cases token <;> cases same
    simp only [Variables.substitute, Reference.resolve_eq_self _ noVariable, Except.map]
    rfl
  | .entry (.statement name params), ⟨notDeclare, notMixin, notLoad⟩ =>
    cases token <;> cases same
    simp only [statement, notDeclare, notMixin, notLoad, ↓reduceIte]
    rfl
  | .opens (.atRule name params), notDefine =>
    cases token <;> cases same
    exact if_neg notDefine
  | .entry (.comment text), _ => cases token <;> cases same; rfl
  | .opens (.rule selector), _ => cases token <;> cases same; rfl
  | .closes, _ => cases token <;> cases same; rfl

theorem run_constant {r : Resolver} {tokens : List Token} {resolved : List Resolved}
    (outside : r.definition = none) (constant : ∀ token ∈ resolved, token.Constant)
    (same : tokens.map Token.unlined = resolved.map Resolved.token) :
    r.run volume directory tokens = .ok (resolved.map (Resolved.inlined volume directory)) := by
  induction resolved generalizing tokens with
  | nil =>
    cases List.map_eq_nil_iff.mp same
    unfold run
    rw [outside]
    rfl
  | cons first resolved ih =>
    cases tokens with
    | nil => cases same
    | cons token tokens =>
      obtain ⟨sameFirst, sameRest⟩ := List.cons.inj same
      rw [run, step_constant outside (constant first List.mem_cons_self) sameFirst]
      have later := ih (fun t member => constant t (List.mem_cons_of_mem first member)) sameRest
      simp only [Except.bind, later, Except.map, List.singleton_append, List.map_cons]

end Resolver

theorem Token.not_isLocalImport {token : Token} {resolved : Resolved}
    (constant : resolved.Constant) (same : token.unlined = resolved.token) :
    ¬ token.IsLocalImport := by
  cases token with
  | statement name params line =>
    rintro ⟨rfl, _⟩
    match resolved, constant with
    | .entry (.statement name params), ⟨_, _, notLoad⟩ =>
      cases same
      exact notLoad rfl
    | .entry (.declaration key value), _ | .entry (.comment text), _ | .opens (.rule selector), _
    | .opens (.atRule name params), _ | .closes, _ => cases same
  | rule | atBlock | property | comment | close => exact id

/-- A text that is read as a forest of constant tokens is compiled to what is printed for it. -/
theorem compile_constant {forest : Forest} {t : Text} {tokens : List Token}
    (scanned : scan t = .ok tokens)
    (same : tokens.map Token.unlined = forest.stream.map Resolved.token)
    (constant : ∀ token ∈ forest.stream, token.Constant) (volume : Volume) (options : Options) :
    compile volume options t =
      .ok (options.print ((forest.inlined volume options.directory).print [] 0)) := by
  have remote : ∀ token ∈ tokens, ¬ token.IsLocalImport := by
    intro token member
    have listed : token.unlined ∈ forest.stream.map Resolved.token :=
      same ▸ List.mem_map_of_mem member
    obtain ⟨resolved, inStream, equal⟩ := List.mem_map.mp listed
    exact Token.not_isLocalImport (constant resolved inStream) equal.symm
  rw [compile, scanned]
  refine (compileTokens_eq_ok_iff volume options tokens remote _).mpr ⟨_, ?_, rfl⟩
  rw [Forest.stream_inlined]
  exact Resolver.run_constant rfl constant same

/-- A written forest in which nothing is left to resolve is compiled to what is printed for it. -/
theorem compile_spelling {forest : Forest} {t : Text} (spelled : forest.Spelling none t)
    (settled : ∀ token ∈ forest.stream, token.Settled) (volume : Volume) (options : Options) :
    compile volume options t = .ok (options.print (forest.print [] 0)) := by
  obtain ⟨tokens, scanned, same⟩ := scan_spelling spelled
  have constant := fun token member => (settled token member).constant
  rw [compile_constant scanned same constant, Forest.inlined_eq_self settled]

end Stylesheet
