import Stylesheet.Trait

set_option autoImplicit false

namespace Stylesheet

def Text.Piece.name? : Text.Piece → Option Text
  | plain _ => none
  | found name => some name

/-- The names that a text refers to, from left to right. -/
def Reference.names (t : Text) : List Text := (Text.pieces length t).filterMap Text.Piece.name?

theorem elim_eq_ok {ε α : Type} {problem? : Option ε} {value other : α}
    (done : problem?.elim (.ok value) Except.error = .ok other) :
    problem? = none ∧ value = other := by
  cases problem? with
  | none => exact ⟨rfl, Except.ok.inj done⟩
  | some problem => cases done

/-- Doing something with each element fails with the first problem. -/
theorem mapM_eq_elim {ε α β : Type} {f : α → Except ε β} {problem? : α → Option ε} {value : α → β}
    (spec : ∀ x, f x = (problem? x).elim (.ok (value x)) .error) (xs : List α) :
    xs.mapM f = (xs.findSome? problem?).elim (.ok (xs.map value)) .error := by
  induction xs with
  | nil => rfl
  | cons x xs ih =>
    rw [List.mapM_cons, spec, ih, List.findSome?_cons]
    cases problem? x with
    | some problem => rfl
    | none => cases xs.findSome? problem? <;> rfl

theorem Reference.resolve_eq_elim {ε : Type} {lookup : Text → Except ε Text}
    {problem? : Text → Option ε} {value : Text → Text}
    (spec : ∀ name, lookup name = (problem? name).elim (.ok (value name)) .error) (t : Text) :
    resolve lookup t =
      ((names t).findSome? problem?).elim (.ok (Text.replace length value t)) .error := by
  have piece : ∀ piece : Text.Piece, resolvePiece lookup piece =
      (piece.name?.bind problem?).elim (.ok (piece.render value)) .error := by
    intro piece
    cases piece with
    | plain c => rfl
    | found name => exact spec name
  unfold resolve names
  rw [mapM_eq_elim piece, ← List.head?_filterMap, ← List.head?_filterMap, List.filterMap_filterMap]
  cases ((Text.pieces length t).filterMap fun piece => piece.name?.bind problem?).head? <;> rfl

/-- The first name among some that satisfies a test, as a problem on a line. -/
theorem findSome?_undeclared (line : Nat) (test : Text → Bool) (names : List Text) :
    names.findSome? (fun name => (Option.guard test name).map (Problem.undeclaredVariable · line)) =
      (names.find? test).map (.undeclaredVariable · line) := by
  rw [List.find?_eq_findSome?_guard, List.map_findSome?]
  rfl

namespace Variables

def lacks (vars : Variables) (name : Text) : Bool := (vars.get? name).isNone

/-- The first name in a text that has no value. -/
def missing? (vars : Variables) (text : Text) : Option Text :=
  (Reference.names text).find? vars.lacks

/-- A text with the values of its references, where they have one. -/
def fill (vars : Variables) (text : Text) : Text :=
  Text.replace Reference.length (fun name => (vars.get? name).getD name) text

theorem substitute_eq_elim (vars : Variables) (line : Nat) (text : Text) :
    vars.substitute line text =
      ((vars.missing? text).map (.undeclaredVariable · line)).elim (.ok (vars.fill text))
        .error := by
  have lookup : ∀ name, vars.resolve line name =
      ((Option.guard vars.lacks name).map (.undeclaredVariable · line)).elim
        (.ok ((vars.get? name).getD name)) .error := by
    intro name
    cases found : vars.get? name <;> simp [resolve, lacks, Option.guard, found]
  unfold substitute
  rw [Reference.resolve_eq_elim lookup, findSome?_undeclared]
  rfl

theorem mapM_substitute_eq_elim (vars : Variables) (line : Nat) (texts : List Text) :
    texts.mapM (vars.substitute line) =
      ((texts.findSome? vars.missing?).map (.undeclaredVariable · line)).elim
        (.ok (texts.map vars.fill)) .error := by
  rw [List.map_findSome?]
  exact mapM_eq_elim (vars.substitute_eq_elim line) texts

theorem mapM_substitute_eq_ok {vars : Variables} {texts : List Text}
    (known : texts.findSome? vars.missing? = none) (line : Nat) :
    texts.mapM (vars.substitute line) = .ok (texts.map vars.fill) := by
  rw [mapM_substitute_eq_elim, known]
  rfl

end Variables

namespace Trait

def lacks (definition : Trait) (vars : Variables) (name : Text) : Bool :=
  vars.lacks name && (definition.position? name).isNone

/-- The first name in the body that is no parameter and has no value. -/
def missing? (definition : Trait) (vars : Variables) : Option Text :=
  definition.body.findSome? fun declaration =>
    (Reference.names declaration.value).find? (definition.lacks vars)

/-- What a name in the body stands for: its argument, else its value, else itself. -/
def meaning (definition : Trait) (arguments : List Text) (vars : Variables) (name : Text) : Text :=
  ((definition.position? name).bind (arguments[·]?)).getD ((vars.get? name).getD name)

theorem resolve_eq_elim (definition : Trait) (arguments : List Text) (vars : Variables) (line : Nat)
    (name : Text) :
    definition.resolve arguments vars line name =
      ((Option.guard (definition.lacks vars) name).map (.undeclaredVariable · line)).elim
        (.ok (definition.meaning arguments vars name)) .error := by
  unfold resolve meaning
  cases param : definition.position? name with
  | none =>
    cases found : vars.get? name <;> simp [lacks, Variables.lacks, Option.guard, found, param]
  | some position =>
    cases given : arguments[position]? <;> cases found : vars.get? name <;>
      simp [lacks, Option.guard, *]

/-- A declaration in the body, with what its names stand for. -/
def fill (definition : Trait) (arguments : List Text) (vars : Variables)
    (declaration : Declaration) : Declaration :=
  { declaration with
    value := Text.replace Reference.length (definition.meaning arguments vars) declaration.value }

theorem instantiate_eq_elim (definition : Trait) (arguments : List Text) (vars : Variables)
    (line : Nat) :
    definition.instantiate arguments vars line =
      ((definition.missing? vars).map (.undeclaredVariable · line)).elim
        (.ok (definition.body.map (definition.fill arguments vars))) .error := by
  unfold instantiate missing?
  rw [List.map_findSome?]
  refine mapM_eq_elim (fun declaration => ?_) definition.body
  rw [Reference.resolve_eq_elim (definition.resolve_eq_elim arguments vars line),
    findSome?_undeclared, Function.comp_apply]
  cases (Reference.names declaration.value).find? (definition.lacks vars) <;> rfl

end Trait

end Stylesheet
