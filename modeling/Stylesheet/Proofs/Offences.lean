import Stylesheet.Proofs.References
import Stylesheet.Proofs.Settled

set_option autoImplicit false

namespace Stylesheet

namespace Token

/-- The header of the trait whose definition begins with a token. -/
def traitHeader? : Token → Option Text
  | atBlock name header _ => if name = Keyword.define.text then some header else none
  | _ => none

/-- Whether a token may stand in the definition of a trait. -/
def isTraitPart : Token → Bool
  | property _ _ _ | close _ => true
  | _ => false

end Token

namespace Scope

def nameIn (params : Text) : Text := params.takeWhile (!Text.isBlank ·)

def valueIn (params : Text) : Text := Text.trim (params.dropWhile (!Text.isBlank ·))

/-- The scope after the declaration of a variable whose references have values. -/
def bound (scope : Scope) (params : Text) : Scope :=
  if nameIn params = [] then scope
  else { scope with
    bindings := scope.bindings.set (nameIn params) (scope.bindings.fill (valueIn params)) }

def defined (scope : Scope) (directory : Path) (header : Text) (body : List Declaration) : Scope :=
  (Call.ofText? header).elim scope fun call => { scope with
    traits := scope.traits.define ⟨call.name, Trait.paramsOf call, body, directory⟩ }

end Scope

/-- What is known between two tokens. A survey goes over tokens from left to right and prints
nothing. -/
structure Survey where
  /-- The tokens that opened the blocks, innermost first. -/
  opened : List Token
  scope : Scope
  /-- The declarations of the trait that is being defined. -/
  body : List Declaration
  deriving DecidableEq, Repr

namespace Survey

def start : Survey := ⟨[], .empty, []⟩

def header? (s : Survey) : Option Text := s.opened.head?.bind Token.traitHeader?

def next (directory : Path) (s : Survey) (token : Token) : Survey :=
  match s.header? with
  | some header =>
    match token with
    | .property key value _ => { s with body := s.body ++ [⟨key, value⟩] }
    | .close _ => ⟨s.opened.tail, s.scope.defined directory header s.body, []⟩
    | _ => s
  | none =>
    match token with
    | .rule _ _ | .atBlock _ _ _ => { s with opened := token :: s.opened, body := [] }
    | .statement name params _ =>
      if name = Keyword.declare.text then { s with scope := s.scope.bound params } else s
    | .property _ _ _ | .comment _ _ => s
    | .close _ => { s with opened := s.opened.tail }

def after (directory : Path) (s : Survey) (tokens : List Token) : Survey :=
  tokens.foldl (next directory) s

/-- A token that may not stand where it does, or refers to what is not known, and the problem. -/
inductive Offends (s : Survey) : Token → Problem → Prop where
  /-- A brace that closes nothing. -/
  | stray {line : Nat} (none : s.opened = []) :
      Offends s (.close line) (.unexpectedToken (.close line))
  /-- Something other than a declaration in the definition of a trait. -/
  | misplaced {token : Token} (inside : s.header? ≠ none) (other : token.isTraitPart = false) :
      Offends s token (.unexpectedToken token)
  | unnamed {name header : Text} {line : Nat} (outside : s.header? = none)
      (keyword : name = Keyword.define.text) (nameless : Call.ofText? header = none) :
      Offends s (.atBlock name header line) (.unnamedTrait header line)
  | emptyVariable {name params : Text} {line : Nat} (outside : s.header? = none)
      (keyword : name = Keyword.declare.text) (named : Scope.nameIn params ≠ [])
      (empty : Scope.valueIn params = []) :
      Offends s (.statement name params line) (.emptyVariable (Scope.nameIn params) line)
  | inVariable {name params missing : Text} {line : Nat} (outside : s.header? = none)
      (keyword : name = Keyword.declare.text) (named : Scope.nameIn params ≠ [])
      (refers : s.scope.bindings.missing? (Scope.valueIn params) = some missing) :
      Offends s (.statement name params line) (.undeclaredVariable missing line)
  | namelessMixin {name params : Text} {line : Nat} (outside : s.header? = none)
      (keyword : name = Keyword.mixin.text) (nameless : Call.ofText? params = none) :
      Offends s (.statement name params line) (.undeclaredMixin params line)
  | unknownMixin {name params : Text} {call : Call} {line : Nat} (outside : s.header? = none)
      (keyword : name = Keyword.mixin.text) (named : Call.ofText? params = some call)
      (unknown : s.scope.traits.get? call.name = none) :
      Offends s (.statement name params line) (.undeclaredMixin call.name line)
  | inArgument {name params missing : Text} {call : Call} {definition : Trait} {line : Nat}
      (outside : s.header? = none) (keyword : name = Keyword.mixin.text)
      (named : Call.ofText? params = some call)
      (known : s.scope.traits.get? call.name = some definition)
      (refers : call.argumentList.findSome? s.scope.bindings.missing? = some missing) :
      Offends s (.statement name params line) (.undeclaredVariable missing line)
  | inTrait {name params missing : Text} {call : Call} {definition : Trait} {line : Nat}
      (outside : s.header? = none) (keyword : name = Keyword.mixin.text)
      (named : Call.ofText? params = some call)
      (known : s.scope.traits.get? call.name = some definition)
      (good : call.argumentList.findSome? s.scope.bindings.missing? = none)
      (refers : definition.missing? s.scope.bindings = some missing) :
      Offends s (.statement name params line) (.undeclaredVariable missing line)
  | inProperty {key value missing : Text} {line : Nat} (outside : s.header? = none)
      (refers : s.scope.bindings.missing? value = some missing) :
      Offends s (.property key value line) (.undeclaredVariable missing line)

/-- An offence is on the line of its token. -/
theorem Offends.line {s : Survey} {token : Token} {problem : Problem}
    (offends : s.Offends token problem) : problem.line = some token.line := by
  cases offends <;> rfl

/-- The blocks that are open were opened by some tokens, and none is the definition of a trait. -/
structure Opened (opened : List Token) (blocks : List OpenBlock) : Prop where
  lines : opened.map Token.line = blocks.map OpenBlock.line
  blocks : ∀ token ∈ opened, token.traitHeader? = none

/-- What is known of a state of the compiler. -/
inductive Describes : Survey → Progress → Prop where
  | outside {opened : List Token} {blocks : List OpenBlock} {scope : Scope}
      {body : List Declaration} {draft : Draft} (around : Opened opened blocks) :
      Describes ⟨opened, scope, body⟩ ⟨scope, draft, blocks, none⟩
  | inside {header : Text} {call : Call} {line : Nat} {opened : List Token}
      {blocks : List OpenBlock} {scope : Scope} {body : List Declaration} {draft : Draft}
      (named : Call.ofText? header = some call) (around : Opened opened blocks) :
      Describes ⟨.atBlock Keyword.define.text header line :: opened, scope, body⟩
        ⟨scope, draft, blocks, some ⟨call.name, Trait.paramsOf call, body, line⟩⟩

theorem header?_trait (header : Text) (line : Nat) (opened : List Token) (scope : Scope)
    (body : List Declaration) :
    (Survey.mk (.atBlock Keyword.define.text header line :: opened) scope body).header? =
      some header := by
  simp [header?, Token.traitHeader?]

namespace Opened

variable {opened : List Token} {blocks : List OpenBlock}

theorem header?_eq_none (around : Opened opened blocks) (scope : Scope) (body : List Declaration) :
    (Survey.mk opened scope body).header? = none := by
  cases opened with
  | nil => rfl
  | cons token opened => exact around.blocks token List.mem_cons_self

theorem cons (around : Opened opened blocks) {token : Token} {block : OpenBlock}
    (line : token.line = block.line) (other : token.traitHeader? = none) :
    Opened (token :: opened) (block :: blocks) where
  lines := by rw [List.map_cons, List.map_cons, line, around.lines]
  blocks := List.forall_mem_cons.mpr ⟨other, around.blocks⟩

theorem tail {block : OpenBlock} (around : Opened opened (block :: blocks)) :
    Opened opened.tail blocks := by
  cases opened with
  | nil => cases around.lines
  | cons token opened =>
    exact ⟨(List.cons.inj around.lines).2, (List.forall_mem_cons.mp around.blocks).2⟩

theorem eq_nil_iff (around : Opened opened blocks) : opened = [] ↔ blocks = [] := by
  rw [← List.map_eq_nil_iff (f := Token.line), around.lines, List.map_eq_nil_iff]

end Opened

end Survey

namespace Progress

variable {s : Survey} {p : Progress} {problem : Problem}

theorem closeBlock_eq_error_iff (around : Survey.Opened s.opened p.blocks)
    (outside : s.header? = none) (line : Nat) :
    p.closeBlock (.close line) = .error problem ↔ s.Offends (.close line) problem := by
  unfold closeBlock
  constructor
  · intro failed
    cases blocks : p.blocks with
    | nil =>
      rw [blocks] at failed
      cases failed
      exact .stray (around.eq_nil_iff.mpr blocks)
    | cons block rest =>
      rw [blocks] at failed
      cases failed
  · intro offends
    cases offends with
    | stray none => rw [around.eq_nil_iff.mp none]
    | misplaced inside => exact absurd outside inside

theorem closeBlock_eq_ok {q : Progress} {token : Token} (done : p.closeBlock token = .ok q) :
    ∃ block rest, p.blocks = block :: rest ∧
      q = { p with
        draft := block.outer.writeBlock (p.draft.render block.heading), blocks := rest } := by
  unfold closeBlock at done
  cases blocks : p.blocks with
  | nil => rw [blocks] at done; cases done
  | cons block rest =>
    rw [blocks] at done
    cases done
    exact ⟨block, rest, rfl, rfl⟩

theorem openTrait_eq_error_iff (outside : s.header? = none) (header : Text) (line : Nat) :
    p.openTrait header line = .error problem ↔
      s.Offends (.atBlock Keyword.define.text header line) problem := by
  unfold openTrait
  constructor
  · intro failed
    cases named : Call.ofText? header with
    | none =>
      rw [named] at failed
      cases failed
      exact .unnamed outside rfl named
    | some call =>
      rw [named] at failed
      cases failed
  · intro offends
    cases offends with
    | misplaced inside => exact absurd outside inside
    | unnamed _ _ nameless => rw [nameless]

theorem openTrait_eq_ok {q : Progress} {header : Text} {line : Nat}
    (done : p.openTrait header line = .ok q) :
    ∃ call, Call.ofText? header = some call ∧
      q = { p with definition := some ⟨call.name, Trait.paramsOf call, [], line⟩ } := by
  unfold openTrait at done
  cases named : Call.ofText? header with
  | none => rw [named] at done; cases done
  | some call =>
    rw [named] at done
    cases done
    exact ⟨call, rfl, rfl⟩

theorem declare_eq (p : Progress) (params : Text) (line : Nat) :
    p.declare params line =
      if Scope.nameIn params = [] then .ok p
      else if Scope.valueIn params = [] then .error (.emptyVariable (Scope.nameIn params) line)
      else ((p.scope.bindings.missing? (Scope.valueIn params)).map
        (.undeclaredVariable · line)).elim (.ok { p with scope := p.scope.bound params })
          .error := by
  unfold declare Scope.bound
  simp only [Variables.substitute_eq_elim]
  change (if Scope.nameIn params = [] then _ else if Scope.valueIn params = [] then _ else _) = _
  split
  · rfl
  · split
    · rfl
    · change (Option.elim (Option.map _ (p.scope.bindings.missing? (Scope.valueIn params))) _ _ >>=
        _) = _
      cases p.scope.bindings.missing? (Scope.valueIn params) <;> rfl

theorem declare_eq_error_iff (same : p.scope = s.scope) (outside : s.header? = none)
    (params : Text) (line : Nat) :
    p.declare params line = .error problem ↔
      s.Offends (.statement Keyword.declare.text params line) problem := by
  rw [declare_eq, same]
  constructor
  · intro failed
    split at failed
    · cases failed
    · rename_i named
      split at failed
      · rename_i empty
        cases failed
        exact .emptyVariable outside rfl named empty
      · cases refers : s.scope.bindings.missing? (Scope.valueIn params) with
        | none => rw [refers] at failed; cases failed
        | some missing =>
          rw [refers] at failed
          cases failed
          exact .inVariable outside rfl named refers
  · intro offends
    cases offends with
    | misplaced inside => exact absurd outside inside
    | emptyVariable _ _ named empty => rw [if_neg named, if_pos empty]
    | inVariable _ _ named refers =>
      have filled : Scope.valueIn params ≠ [] := by
        intro empty
        rw [empty] at refers
        cases refers
      rw [if_neg named, if_neg filled, refers]
      rfl
    | namelessMixin _ keyword => exact absurd keyword (by decide)
    | unknownMixin _ keyword => exact absurd keyword (by decide)
    | inArgument _ keyword => exact absurd keyword (by decide)
    | inTrait _ keyword => exact absurd keyword (by decide)

/-- A mixin is known to be good before anything is written for it. -/
theorem mixIn_eq (setting : Setting) (p : Progress) (params : Text) (line : Nat) :
    ∃ text, p.mixIn setting params line =
      (Call.ofText? params).elim (.error (.undeclaredMixin params line)) fun call =>
        (p.scope.traits.get? call.name).elim (.error (.undeclaredMixin call.name line))
          fun definition =>
            (((call.argumentList.findSome? p.scope.bindings.missing?).or
              (definition.missing? p.scope.bindings)).map (.undeclaredVariable · line)).elim
                (.ok (p.write text)) .error := by
  unfold mixIn
  cases Call.ofText? params with
  | none => exact ⟨[], rfl⟩
  | some call =>
    dsimp only [Option.elim_some]
    cases p.scope.traits.get? call.name with
    | none => exact ⟨[], rfl⟩
    | some definition =>
      have instantiated := definition.instantiate_eq_elim
        (call.argumentList.map p.scope.bindings.fill) p.scope.bindings line
      refine ⟨(definition.body.map (definition.fill (call.argumentList.map p.scope.bindings.fill)
        p.scope.bindings)).flatMap fun d => Layout.declaration d.key
          (Image.inlineAll setting.volume definition.directory d.value) p.lineDepth, ?_⟩
      dsimp only [Option.elim_some]
      rw [Variables.mapM_substitute_eq_elim]
      cases call.argumentList.findSome? p.scope.bindings.missing? with
      | some missing => rfl
      | none =>
        simp only [Option.map_none, Option.elim_none, bind, Except.bind, instantiated,
          Option.none_or]
        cases definition.missing? p.scope.bindings <;> rfl

theorem mixIn_eq_error_iff (same : p.scope = s.scope) (outside : s.header? = none)
    (setting : Setting) (params : Text) (line : Nat) :
    p.mixIn setting params line = .error problem ↔
      s.Offends (.statement Keyword.mixin.text params line) problem := by
  obtain ⟨text, mixed⟩ := mixIn_eq setting p params line
  rw [mixed, same]
  constructor
  · intro failed
    cases named : Call.ofText? params with
    | none =>
      rw [named] at failed
      cases failed
      exact .namelessMixin outside rfl named
    | some call =>
      rw [named, Option.elim_some] at failed
      cases known : s.scope.traits.get? call.name with
      | none =>
        rw [known] at failed
        cases failed
        exact .unknownMixin outside rfl named known
      | some definition =>
        rw [known, Option.elim_some] at failed
        cases given : call.argumentList.findSome? s.scope.bindings.missing? with
        | some missing =>
          rw [given] at failed
          cases failed
          exact .inArgument outside rfl named known given
        | none =>
          rw [given, Option.none_or] at failed
          cases refers : definition.missing? s.scope.bindings with
          | none => rw [refers] at failed; cases failed
          | some missing =>
            rw [refers] at failed
            cases failed
            exact .inTrait outside rfl named known given refers
  · intro offends
    cases offends with
    | misplaced inside => exact absurd outside inside
    | emptyVariable _ keyword => exact absurd keyword (by decide)
    | inVariable _ keyword => exact absurd keyword (by decide)
    | namelessMixin _ _ nameless => rw [nameless]; rfl
    | unknownMixin _ _ named unknown => rw [named, Option.elim_some, unknown]; rfl
    | inArgument _ _ named known refers =>
      rw [named, Option.elim_some, known, Option.elim_some, refers]; rfl
    | inTrait _ _ named known good refers =>
      rw [named, Option.elim_some, known, Option.elim_some, good, refers]; rfl

theorem writeProperty_eq_error_iff (same : p.scope = s.scope) (outside : s.header? = none)
    (setting : Setting) (key value : Text) (line : Nat) :
    p.writeProperty setting key value line = .error problem ↔
      s.Offends (.property key value line) problem := by
  unfold writeProperty
  rw [Variables.substitute_eq_elim, same]
  constructor
  · intro failed
    cases refers : s.scope.bindings.missing? value with
    | none => rw [refers] at failed; cases failed
    | some missing =>
      rw [refers] at failed
      cases failed
      exact .inProperty outside refers
  · intro offends
    cases offends with
    | misplaced inside => exact absurd outside inside
    | inProperty _ refers => rw [refers]; rfl

theorem writeProperty_eq_ok {q : Progress} {setting : Setting} {key value : Text} {line : Nat}
    (done : p.writeProperty setting key value line = .ok q) : ∃ text, q = p.write text := by
  obtain ⟨resolved, -, written⟩ := exists_of_bind_eq_ok done
  cases written
  exact ⟨_, rfl⟩

/-- An import of an address does not fail. -/
theorem load_of_remote (importer : Importer) (setting : Setting) (p : Progress) {params : Text}
    {line : Nat} (remote : ¬ (Token.statement Keyword.load.text params line).IsLocalImport) :
    ∃ text, p.load importer setting params line = .ok (p.write text) := by
  unfold load
  cases source : ImportSource.ofText params with
  | file path => exact absurd ⟨rfl, path, source⟩ remote
  | address url => exact ⟨_, rfl⟩

theorem statement_eq_error_iff (same : p.scope = s.scope) (outside : s.header? = none)
    (importer : Importer) (setting : Setting) {name params : Text} {line : Nat}
    (remote : ¬ (Token.statement name params line).IsLocalImport) :
    p.statement importer setting name params line = .error problem ↔
      s.Offends (.statement name params line) problem := by
  unfold statement
  split
  · rename_i keyword
    subst keyword
    exact declare_eq_error_iff same outside params line
  · rename_i notDeclare
    split
    · rename_i keyword
      subst keyword
      exact mixIn_eq_error_iff same outside setting params line
    · rename_i notMixin
      have good : ¬ s.Offends (.statement name params line) problem := by
        intro offends
        cases offends with
        | misplaced inside => exact inside outside
        | emptyVariable _ keyword => exact notDeclare keyword
        | inVariable _ keyword => exact notDeclare keyword
        | namelessMixin _ keyword => exact notMixin keyword
        | unknownMixin _ keyword => exact notMixin keyword
        | inArgument _ keyword => exact notMixin keyword
        | inTrait _ keyword => exact notMixin keyword
      simp only [good, iff_false]
      split
      · rename_i keyword
        subst keyword
        obtain ⟨text, loaded⟩ := load_of_remote importer setting p remote
        simp only [loaded, reduceCtorEq, not_false_eq_true]
      · simp only [reduceCtorEq, not_false_eq_true]

/-- An at-rule without a block declares a variable, or adds to the output. -/
theorem statement_eq_ok {importer : Importer} {setting : Setting} {name params : Text}
    {line : Nat} {q : Progress} (remote : ¬ (Token.statement name params line).IsLocalImport)
    (done : p.statement importer setting name params line = .ok q) :
    (name = Keyword.declare.text ∧ q = { p with scope := p.scope.bound params }) ∨
      (name ≠ Keyword.declare.text ∧ ∃ text, q = p.write text) := by
  unfold statement at done
  split at done
  · rename_i keyword
    refine .inl ⟨keyword, ?_⟩
    rw [declare_eq] at done
    split at done
    · rename_i unnamed
      cases done
      rw [Scope.bound, if_pos unnamed]
    · split at done
      · cases done
      · exact (elim_eq_ok done).2.symm
  · rename_i notDeclare
    refine .inr ⟨notDeclare, ?_⟩
    split at done
    · obtain ⟨text, mixed⟩ := mixIn_eq setting p params line
      rw [mixed] at done
      cases named : Call.ofText? params with
      | none => rw [named] at done; cases done
      | some call =>
        rw [named, Option.elim_some] at done
        cases known : p.scope.traits.get? call.name with
        | none => rw [known] at done; cases done
        | some definition =>
          rw [known, Option.elim_some] at done
          exact ⟨text, (elim_eq_ok done).2.symm⟩
    · split at done
      · rename_i keyword
        subst keyword
        obtain ⟨text, loaded⟩ := load_of_remote importer setting p remote
        rw [loaded] at done
        cases done
        exact ⟨text, rfl⟩
      · cases done
        exact ⟨_, rfl⟩

theorem stepTrait_eq_error_iff (setting : Setting) (t : OpenTrait) (token : Token) :
    p.stepTrait setting t token = .error problem ↔
      token.isTraitPart = false ∧ problem = .unexpectedToken token := by
  cases token <;> simp [stepTrait, Token.isTraitPart, eq_comm]

end Progress

namespace Survey

theorem offends_inside {s : Survey} {header : Text} (inside : s.header? = some header)
    {token : Token} {problem : Problem} :
    s.Offends token problem ↔ token.isTraitPart = false ∧ problem = .unexpectedToken token := by
  constructor
  · intro offends
    cases offends with
    | stray none => simp [header?, none] at inside
    | misplaced _ other => exact ⟨other, rfl⟩
    | _ => simp_all
  · rintro ⟨other, rfl⟩
    exact .misplaced (by simp [inside]) other

namespace Describes

variable {s : Survey} {p : Progress}

/-- A token fails to compile exactly if it offends, and with the same problem. -/
theorem step_eq_error_iff (describes : Describes s p) (importer : Importer) (setting : Setting)
    {token : Token} (remote : ¬ token.IsLocalImport) (problem : Problem) :
    p.step importer setting token = .error problem ↔ s.Offends token problem := by
  cases describes with
  | @inside header call line opened blocks scope body draft named around =>
    rw [offends_inside (header?_trait header line opened scope body)]
    exact Progress.stepTrait_eq_error_iff setting _ token
  | @outside opened blocks scope body draft around =>
    have outside := around.header?_eq_none scope body
    cases token with
    | rule | comment =>
      simp only [Progress.step, reduceCtorEq, false_iff]
      intro offends
      cases offends with
      | misplaced inside => exact inside outside
    | atBlock name params line =>
      by_cases keyword : name = Keyword.define.text
      · subst keyword
        simp only [Progress.step, ↓reduceIte]
        exact Progress.openTrait_eq_error_iff outside params line
      · simp only [Progress.step, keyword, ↓reduceIte, reduceCtorEq, false_iff]
        intro offends
        cases offends with
        | misplaced inside => exact inside outside
        | unnamed _ keyword' => exact keyword keyword'
    | statement name params line =>
      change Progress.statement importer setting _ name params line = _ ↔ _
      exact Progress.statement_eq_error_iff rfl outside importer setting remote
    | property key value line =>
      exact Progress.writeProperty_eq_error_iff rfl outside setting key value line
    | close line => exact Progress.closeBlock_eq_error_iff around outside line

/-- What is known of the state after a token. -/
theorem step (describes : Describes s p) {importer : Importer} {setting : Setting} {token : Token}
    (remote : ¬ token.IsLocalImport) {q : Progress}
    (stepped : p.step importer setting token = .ok q) :
    Describes (s.next setting.directory token) q := by
  cases describes with
  | @inside header call line opened blocks scope body draft named around =>
    unfold next
    rw [header?_trait header line opened scope body]
    cases token with
    | property key value line =>
      cases stepped
      exact .inside named around
    | close line =>
      cases stepped
      simp only [Scope.defined, named, Option.elim_some, List.tail_cons]
      exact .outside around
    | rule | atBlock | statement | comment => cases stepped
  | @outside opened blocks scope body draft around =>
    unfold next
    rw [around.header?_eq_none scope body]
    cases token with
    | rule selector line =>
      cases stepped
      exact .outside (around.cons rfl rfl)
    | atBlock name params line =>
      simp only [Progress.step] at stepped
      split at stepped
      · rename_i keyword
        subst keyword
        obtain ⟨call, named, rfl⟩ := Progress.openTrait_eq_ok stepped
        exact .inside named around
      · rename_i other
        cases stepped
        exact .outside (around.cons rfl (if_neg other))
    | statement name params line =>
      obtain ⟨rfl, rfl⟩ | ⟨other, text, rfl⟩ := Progress.statement_eq_ok remote stepped
      · exact .outside around
      · simp only [other, ↓reduceIte]
        exact .outside around
    | property key value line =>
      obtain ⟨text, rfl⟩ := Progress.writeProperty_eq_ok stepped
      exact .outside around
    | comment text line =>
      cases stepped
      exact .outside around
    | close line =>
      obtain ⟨block, rest, rfl, rfl⟩ := Progress.closeBlock_eq_ok stepped
      exact .outside around.tail

theorem finish_eq_error_iff (describes : Describes s p) (problem : Problem) :
    p.finish = .error problem ↔
      ∃ innermost outer, s.opened = innermost :: outer ∧
        problem = .unclosedBlock innermost.line := by
  cases describes with
  | inside named around => simp [Progress.finish, Token.line, eq_comm]
  | @outside opened blocks scope body draft around =>
    cases blocks with
    | nil => simp [Progress.finish, around.eq_nil_iff.mpr rfl]
    | cons block blocks =>
      cases opened with
      | nil => cases around.lines
      | cons token opened =>
        have line : token.line = block.line := (List.cons.inj around.lines).1
        simp [Progress.finish, line, eq_comm]

end Describes

def Innocent (directory : Path) (s : Survey) (tokens : List Token) : Prop :=
  ∀ before token later, tokens = before ++ token :: later →
    ∀ problem, ¬ (s.after directory before).Offends token problem

/-- Some tokens fail with a problem: the first offence, which is on the line of its token, or else
the innermost block that is open at their end. -/
def Fails (directory : Path) (s : Survey) (tokens : List Token) (problem : Problem) : Prop :=
  (∃ before token later, tokens = before ++ token :: later ∧ Innocent directory s before ∧
    (s.after directory before).Offends token problem ∧ problem.line = some token.line) ∨
  (Innocent directory s tokens ∧ ∃ innermost outer,
    (s.after directory tokens).opened = innermost :: outer ∧
      problem = .unclosedBlock innermost.line)

variable {directory : Path} {s : Survey}

theorem innocent_nil : Innocent directory s [] := by
  intro before token later same
  cases List.append_eq_nil_iff.mp same.symm |>.2

theorem innocent_cons {token : Token} {tokens : List Token} :
    Innocent directory s (token :: tokens) ↔
      (∀ problem, ¬ s.Offends token problem) ∧
        Innocent directory (s.next directory token) tokens := by
  constructor
  · intro innocent
    refine ⟨innocent [] token tokens rfl, ?_⟩
    rintro before other later rfl
    exact innocent (token :: before) other later rfl
  · rintro ⟨first, rest⟩ before other later same
    rcases List.cons_eq_append_iff.mp same with ⟨rfl, here⟩ | ⟨before, rfl, there⟩
    · cases here
      exact first
    · exact rest before other later there

theorem fails_nil {problem : Problem} :
    Fails directory s [] problem ↔
      ∃ innermost outer, s.opened = innermost :: outer ∧
        problem = .unclosedBlock innermost.line := by
  constructor
  · rintro (⟨before, token, later, same, -⟩ | ⟨-, unclosed⟩)
    · cases List.append_eq_nil_iff.mp same.symm |>.2
    · exact unclosed
  · intro unclosed
    exact .inr ⟨innocent_nil, unclosed⟩

theorem fails_cons {token : Token} {tokens : List Token} {problem : Problem} :
    Fails directory s (token :: tokens) problem ↔
      s.Offends token problem ∨ ((∀ problem, ¬ s.Offends token problem) ∧
        Fails directory (s.next directory token) tokens problem) := by
  constructor
  · rintro (⟨before, other, later, same, innocent, offends, line⟩ | ⟨innocent, unclosed⟩)
    · rcases List.cons_eq_append_iff.mp same with ⟨rfl, here⟩ | ⟨before, rfl, there⟩
      · cases here
        exact .inl offends
      · rw [innocent_cons] at innocent
        exact .inr ⟨innocent.1, .inl ⟨before, other, later, there, innocent.2, offends, line⟩⟩
    · rw [innocent_cons] at innocent
      exact .inr ⟨innocent.1, .inr ⟨innocent.2, unclosed⟩⟩
  · rintro (offends | ⟨first, ⟨before, other, later, rfl, innocent, offends, line⟩ |
      ⟨innocent, unclosed⟩⟩)
    · exact .inl ⟨[], token, tokens, rfl, innocent_nil, offends, offends.line⟩
    · exact .inl ⟨token :: before, other, later, rfl, innocent_cons.mpr ⟨first, innocent⟩, offends,
        line⟩
    · exact .inr ⟨innocent_cons.mpr ⟨first, innocent⟩, unclosed⟩

/-- Some tokens fail to compile exactly if the survey fails, and with the same problem. -/
theorem Describes.run_eq_error_iff {p : Progress} (describes : Describes s p) (importer : Importer)
    (setting : Setting) {tokens : List Token} (remote : ∀ token ∈ tokens, ¬ token.IsLocalImport)
    (problem : Problem) :
    (tokens.foldlM (Progress.step importer setting) p).bind Progress.finish = .error problem ↔
      Fails setting.directory s tokens problem := by
  induction tokens generalizing s p with
  | nil =>
    rw [fails_nil]
    exact describes.finish_eq_error_iff problem
  | cons token tokens ih =>
    rw [List.forall_mem_cons] at remote
    have first := describes.step_eq_error_iff importer setting remote.1
    rw [fails_cons, List.foldlM_cons]
    cases stepped : p.step importer setting token with
    | error other =>
      rw [stepped] at first
      have offends : s.Offends token other := (first other).mp rfl
      constructor
      · intro failed
        cases failed
        exact .inl offends
      · rintro (same | ⟨innocent, -⟩)
        · rw [← first] at same
          cases same
          rfl
        · exact absurd offends (innocent other)
    | ok q =>
      rw [stepped] at first
      have innocent : ∀ problem, ¬ s.Offends token problem := by
        intro problem offends
        cases (first problem).mpr offends
      simp only [innocent, false_or, not_false_eq_true, implies_true, true_and]
      exact ih (describes.step remote.1 stepped) remote.2

end Survey

namespace Token

def isBlock : Token → Bool
  | rule _ _ | atBlock _ _ _ => true
  | _ => false

/-- Each block is closed by a brace, and each brace closes a block. -/
inductive Bracketed : List Token → Prop where
  | nil : Bracketed []
  | flat {token : Token} {rest : List Token} (opensNone : token.isBlock = false)
      (closesNone : token.isClose = false) (after : Bracketed rest) : Bracketed (token :: rest)
  | block {opening : Token} {inner rest : List Token} {line : Nat} (opens : opening.isBlock = true)
      (inside : Bracketed inner) (after : Bracketed rest) :
      Bracketed (opening :: (inner ++ .close line :: rest))

/-- Whether a token has nothing to do with variables, traits or imports. -/
def IsPlain : Token → Prop
  | rule _ _ | comment _ _ | close _ => True
  | atBlock name _ _ => name ≠ Keyword.define.text
  | property _ value _ => '$' ∉ value
  | statement _ _ _ => False

/-- What stands in the place of a plain token. -/
def resolved (volume : Volume) (directory : Path) : Token → Resolved
  | rule selector _ => .opens (.rule selector)
  | atBlock name params _ => .opens (.atRule name params)
  | statement name params _ => .entry (.statement name params)
  | property key value _ => .entry (.declaration key (Image.inlineAll volume directory value))
  | comment text _ => .entry (.comment text)
  | close _ => .closes

theorem IsPlain.not_isLocalImport {token : Token} (plain : token.IsPlain) :
    ¬ token.IsLocalImport := by
  cases token with
  | statement => exact absurd plain id
  | rule | atBlock | property | comment | close => exact id

theorem isBlock_iff (volume : Volume) (directory : Path) (token : Token) :
    token.isBlock = true ↔ ∃ heading, token.resolved volume directory = .opens heading := by
  cases token <;> simp [isBlock, resolved]

theorem isFlat_iff (volume : Volume) (directory : Path) (token : Token) :
    token.isBlock = false ∧ token.isClose = false ↔
      ∃ entry, token.resolved volume directory = .entry entry := by
  cases token <;> simp [isBlock, isClose, resolved]

/-- Tokens that can be resolved one by one are those of a block tree if they are bracketed. -/
theorem bracketed_iff_exists_forest (volume : Volume) (directory : Path) {tokens : List Token} :
    Bracketed tokens ↔
      ∃ forest : Forest, tokens.map (resolved volume directory) = forest.stream := by
  constructor
  · intro bracketed
    induction bracketed with
    | nil => exact ⟨.empty, rfl⟩
    | flat opensNone closesNone _ ih =>
      obtain ⟨forest, same⟩ := ih
      obtain ⟨entry, entry_eq⟩ := (isFlat_iff volume directory _).mp ⟨opensNone, closesNone⟩
      exact ⟨.entry entry forest, by rw [List.map_cons, entry_eq, same, Forest.stream]⟩
    | block opens _ _ innerIh restIh =>
      obtain ⟨inside, sameInside⟩ := innerIh
      obtain ⟨after, sameAfter⟩ := restIh
      obtain ⟨heading, heading_eq⟩ := (isBlock_iff volume directory _).mp opens
      refine ⟨.block heading inside after, ?_⟩
      rw [List.map_cons, List.map_append, List.map_cons, heading_eq, sameInside, sameAfter,
        Forest.stream]
      rfl
  · rintro ⟨forest, same⟩
    induction forest generalizing tokens with
    | empty =>
      rw [List.map_eq_nil_iff.mp same]
      exact .nil
    | entry e rest ih =>
      obtain ⟨token, tokens, rfl, entry, afterEntry⟩ := List.map_eq_cons_iff.mp same
      have flat := (isFlat_iff volume directory token).mpr ⟨e, entry⟩
      exact .flat flat.1 flat.2 (ih afterEntry)
    | block heading inner rest innerIh restIh =>
      obtain ⟨opening, tokens, rfl, opens, afterOpening⟩ := List.map_eq_cons_iff.mp same
      obtain ⟨inside, tokens, rfl, sameInside, afterInside⟩ :=
        List.map_eq_append_iff.mp afterOpening
      obtain ⟨closing, tokens, rfl, closes, afterClosing⟩ := List.map_eq_cons_iff.mp afterInside
      cases closing <;> cases closes
      exact .block ((isBlock_iff volume directory opening).mpr ⟨heading, opens⟩)
        (innerIh sameInside) (restIh afterClosing)

end Token

/-- In plain tokens nothing is unknown. -/
theorem Resolver.run_plain (volume : Volume) (directory : Path) {r : Resolver}
    (outside : r.definition = none) {tokens : List Token}
    (plain : ∀ token ∈ tokens, token.IsPlain) :
    r.run volume directory tokens = .ok (tokens.map (Token.resolved volume directory)) := by
  induction tokens with
  | nil => rw [run, outside]; rfl
  | cons token tokens ih =>
    rw [List.forall_mem_cons] at plain
    have first : r.step volume directory token =
        .ok (r, [token.resolved volume directory]) := by
      unfold step
      rw [outside]
      cases token with
      | rule | comment | close => rfl
      | atBlock name params line => exact if_neg plain.1
      | statement => exact absurd plain.1 id
      | property key value line =>
        dsimp only
        rw [Variables.substitute, Reference.resolve_eq_self _ plain.1]
        rfl
    rw [run, first]
    simp only [Except.bind, ih plain.2]
    rfl

/-- Printing the output does not fail. -/
theorem compileTokens_eq_error_iff (volume : Volume) (options : Options) (tokens : List Token)
    (problem : Problem) :
    compileTokens volume options tokens = .error problem ↔
      compileRaw (Setting.importer ⟨volume, options.directory, []⟩)
        ⟨volume, options.directory, []⟩ 0 .empty tokens = .error problem := by
  unfold compileTokens compileIn
  dsimp only
  cases compileRaw (Setting.importer ⟨volume, options.directory, []⟩)
    ⟨volume, options.directory, []⟩ 0 .empty tokens <;> simp [bind, Except.bind, pure, Except.pure]

theorem compileTokens_plain (volume : Volume) (options : Options) {tokens : List Token}
    (plain : ∀ token ∈ tokens, token.IsPlain) :
    (∃ css, compileTokens volume options tokens = .ok css) ↔ Token.Bracketed tokens := by
  have remote : ∀ token ∈ tokens, ¬ token.IsLocalImport :=
    fun token member => (plain token member).not_isLocalImport
  rw [Token.bracketed_iff_exists_forest volume options.directory]
  simp only [compileTokens_eq_ok_iff volume options tokens remote,
    Resolver.run_plain volume options.directory (r := .start) rfl plain, Except.ok.injEq]
  constructor
  · rintro ⟨css, forest, same, -⟩
    exact ⟨forest, same⟩
  · rintro ⟨forest, same⟩
    exact ⟨_, forest, same, rfl⟩

end Stylesheet
