import Stylesheet.Compile
import Stylesheet.Proofs.Drafts

set_option autoImplicit false

namespace Stylesheet

theorem exists_of_bind_eq_ok {ε α β : Type} {first : Except ε α} {next : α → Except ε β} {value : β}
    (done : first >>= next = .ok value) :
    ∃ between, first = .ok between ∧ next between = .ok value := by
  cases first with
  | error problem => cases done
  | ok between => exact ⟨between, rfl, done⟩

theorem exists_of_map_eq_ok {ε α β : Type} {result : Except ε α} {f : α → β} {value : β}
    (done : result.map f = .ok value) : ∃ before, result = .ok before ∧ f before = value := by
  cases result with
  | error problem => cases done
  | ok before => exact ⟨before, rfl, Except.ok.inj done⟩

namespace Scope

def declare (scope : Scope) (params : Text) (line : Nat) : Except Problem Scope :=
  let name := params.takeWhile (!Text.isBlank ·)
  let value := Text.trim (params.dropWhile (!Text.isBlank ·))
  if name = [] then .ok scope
  else if value = [] then .error (.emptyVariable name line)
  else (scope.bindings.substitute line value).map fun value =>
    { scope with bindings := scope.bindings.set name value }

def expand (scope : Scope) (volume : Volume) (params : Text) (line : Nat) :
    Except Problem (List Entry) :=
  match Call.ofText? params with
  | none => .error (.undeclaredMixin params line)
  | some call =>
    match scope.traits.get? call.name with
    | none => .error (.undeclaredMixin call.name line)
    | some definition =>
      (call.argumentList.mapM (scope.bindings.substitute line)).bind fun arguments =>
        (definition.instantiate arguments scope.bindings line).map fun declarations =>
          declarations.map fun d =>
            .declaration d.key (Image.inlineAll volume definition.directory d.value)

end Scope

/-- What the first phase knows between two tokens. It goes over the tokens once, in their order and
without regard to blocks, and puts resolved declarations in the place of properties and mixins. The
second phase prints the block tree of what is left. -/
structure Resolver where
  scope : Scope
  /-- The trait that is being defined. -/
  definition : Option OpenTrait
  deriving DecidableEq, Repr

namespace Resolver

def start : Resolver := ⟨.empty, none⟩

/-- A token inside the definition of a trait. Its declarations are not resolved yet. -/
def stepTrait (directory : Path) (r : Resolver) (t : OpenTrait) (token : Token) :
    Except Problem Resolver :=
  match token with
  | .property key value _ =>
    .ok { r with definition := some { t with body := t.body ++ [⟨key, value⟩] } }
  | .close _ =>
    .ok ⟨{ r.scope with
      traits := r.scope.traits.define ⟨t.name, t.params, t.body, directory⟩ }, none⟩
  | _ => .error (.unexpectedToken token)

def openTrait (r : Resolver) (header : Text) (line : Nat) : Except Problem Resolver :=
  match Call.ofText? header with
  | none => .error (.unnamedTrait header line)
  | some call => .ok { r with definition := some ⟨call.name, Trait.paramsOf call, [], line⟩ }

/-- What an at-rule without a block stands for. -/
def statement (volume : Volume) (r : Resolver) (name params : Text) (line : Nat) :
    Except Problem (Resolver × List Resolved) :=
  if name = Keyword.declare.text then
    (r.scope.declare params line).map fun scope => ({ r with scope }, [])
  else if name = Keyword.mixin.text then
    (r.scope.expand volume params line).map fun entries => (r, entries.map .entry)
  else if name = Keyword.load.text then .ok (r, [.entry (.statement name (Text.trim params))])
  else .ok (r, [.entry (.statement name params)])

/-- One token of the first phase, with what stands in its place afterwards. -/
def step (volume : Volume) (directory : Path) (r : Resolver) (token : Token) :
    Except Problem (Resolver × List Resolved) :=
  match r.definition with
  | some t => (r.stepTrait directory t token).map (·, [])
  | none =>
    match token with
    | .rule selector _ => .ok (r, [.opens (.rule selector)])
    | .atBlock name params line =>
      if name = Keyword.define.text then (r.openTrait params line).map (·, [])
      else .ok (r, [.opens (.atRule name params)])
    | .statement name params line => r.statement volume name params line
    | .property key value line =>
      (r.scope.bindings.substitute line value).map fun value =>
        (r, [.entry (.declaration key (Image.inlineAll volume directory value))])
    | .comment text _ => .ok (r, [.entry (.comment text)])
    | .close _ => .ok (r, [.closes])

def run (volume : Volume) (directory : Path) :
    Resolver → List Token → Except Problem (List Resolved)
  | r, [] =>
    match r.definition with
    | none => .ok []
    | some definition => .error (.unclosedBlock definition.line)
  | r, token :: rest =>
    (r.step volume directory token).bind fun (next, resolved) =>
      (run volume directory next rest).map (resolved ++ ·)

inductive Advance (volume : Volume) (directory : Path) (r : Resolver) :
    Token → Resolver → List Resolved → Prop where
  | collect {t : OpenTrait} {key value : Text} {line : Nat} (defining : r.definition = some t) :
      Advance volume directory r (.property key value line)
        { r with definition := some { t with body := t.body ++ [⟨key, value⟩] } } []
  | define {t : OpenTrait} {line : Nat} (defining : r.definition = some t) :
      Advance volume directory r (.close line)
        ⟨{ r.scope with
          traits := r.scope.traits.define ⟨t.name, t.params, t.body, directory⟩ }, none⟩ []
  | openRule {selector : Text} {line : Nat} (outside : r.definition = none) :
      Advance volume directory r (.rule selector line) r [.opens (.rule selector)]
  | openTrait {name header : Text} {line : Nat} {call : Call} (outside : r.definition = none)
      (isDefine : name = Keyword.define.text) (named : Call.ofText? header = some call) :
      Advance volume directory r (.atBlock name header line)
        { r with definition := some ⟨call.name, Trait.paramsOf call, [], line⟩ } []
  | openAtRule {name params : Text} {line : Nat} (outside : r.definition = none)
      (other : name ≠ Keyword.define.text) :
      Advance volume directory r (.atBlock name params line) r [.opens (.atRule name params)]
  | declare {name params : Text} {line : Nat} {scope : Scope} (outside : r.definition = none)
      (isDeclare : name = Keyword.declare.text)
      (declared : r.scope.declare params line = .ok scope) :
      Advance volume directory r (.statement name params line) { r with scope } []
  | mixIn {name params : Text} {line : Nat} {entries : List Entry} (outside : r.definition = none)
      (isMixin : name = Keyword.mixin.text)
      (expanded : r.scope.expand volume params line = .ok entries) :
      Advance volume directory r (.statement name params line) r (entries.map .entry)
  | load {name params : Text} {line : Nat} (outside : r.definition = none)
      (isLoad : name = Keyword.load.text) :
      Advance volume directory r (.statement name params line) r
        [.entry (.statement name (Text.trim params))]
  | keep {name params : Text} {line : Nat} (outside : r.definition = none)
      (notDeclare : name ≠ Keyword.declare.text) (notMixin : name ≠ Keyword.mixin.text)
      (notLoad : name ≠ Keyword.load.text) :
      Advance volume directory r (.statement name params line) r [.entry (.statement name params)]
  | resolve {key value text : Text} {line : Nat} (outside : r.definition = none)
      (substituted : r.scope.bindings.substitute line value = .ok text) :
      Advance volume directory r (.property key value line) r
        [.entry (.declaration key (Image.inlineAll volume directory text))]
  | comment {text : Text} {line : Nat} (outside : r.definition = none) :
      Advance volume directory r (.comment text line) r [.entry (.comment text)]
  | close {line : Nat} (outside : r.definition = none) :
      Advance volume directory r (.close line) r [.closes]

namespace Advance

variable {volume : Volume} {directory : Path} {r next : Resolver} {resolved : List Resolved}

theorem of_statement {name params : Text} {line : Nat} (outside : r.definition = none)
    (done : r.statement volume name params line = .ok (next, resolved)) :
    Advance volume directory r (.statement name params line) next resolved := by
  unfold statement at done
  split at done
  · obtain ⟨scope, declared, same⟩ := exists_of_map_eq_ok done
    cases same
    exact .declare outside ‹_› declared
  · split at done
    · obtain ⟨entries, expanded, same⟩ := exists_of_map_eq_ok done
      cases same
      exact .mixIn outside ‹_› expanded
    · split at done
      · cases done
        exact .load outside ‹_›
      · cases done
        exact .keep outside ‹_› ‹_› ‹_›

theorem of_step {token : Token} (done : r.step volume directory token = .ok (next, resolved)) :
    Advance volume directory r token next resolved := by
  unfold step at done
  cases definition : r.definition with
  | some t =>
    rw [definition] at done
    obtain ⟨after, stepped, same⟩ := exists_of_map_eq_ok done
    cases same
    cases token with
    | property key value line => cases stepped; exact .collect definition
    | close line => cases stepped; exact .define definition
    | rule | atBlock | statement | comment => cases stepped
  | none =>
    rw [definition] at done
    cases token with
    | rule selector line => cases done; exact .openRule definition
    | comment text line => cases done; exact .comment definition
    | close line => cases done; exact .close definition
    | statement name params line => exact .of_statement definition done
    | property key value line =>
      obtain ⟨text, substituted, same⟩ := exists_of_map_eq_ok done
      cases same
      exact .resolve definition substituted
    | atBlock name params line =>
      dsimp only at done
      split at done
      · rename_i isDefine
        obtain ⟨after, opened, same⟩ := exists_of_map_eq_ok done
        cases same
        cases named : Call.ofText? params with
        | none => simp only [Resolver.openTrait, named] at opened; cases opened
        | some call =>
          simp only [Resolver.openTrait, named] at opened
          cases opened
          exact .openTrait definition isDefine named
      · cases done
        exact .openAtRule definition ‹_›

end Advance

end Resolver

def Token.IsLocalImport : Token → Prop
  | statement name params _ =>
    name = Keyword.load.text ∧ ∃ path, ImportSource.ofText params = .file path
  | _ => False

namespace Progress

/-- The part of the state that the first phase has. -/
def resolver (p : Progress) : Resolver := ⟨p.scope, p.definition⟩

/-- The part of the state that the second phase has. -/
def drafts (p : Progress) : Drafts :=
  ⟨p.draft, p.blocks.map fun block => (block.heading, block.outer)⟩

def view (p : Progress) : Resolver × Drafts := (p.resolver, p.drafts)

theorem declare_view (p : Progress) (params : Text) (line : Nat) :
    (p.declare params line).toOption.map view =
      (p.scope.declare params line).toOption.map fun scope =>
        (({ p.resolver with scope } : Resolver), p.drafts) := by
  unfold declare Scope.declare
  dsimp only
  split
  · rfl
  · split
    · rfl
    · cases p.scope.bindings.substitute line (Text.trim (params.dropWhile (!Text.isBlank ·))) <;>
        rfl

theorem mixIn_view (setting : Setting) (p : Progress) (params : Text) (line : Nat) :
    (p.mixIn setting params line).toOption.map view =
      (p.scope.expand setting.volume params line).toOption.map fun entries =>
        (p.resolver,
          ⟨p.draft.write (entries.flatMap (Entry.print p.lineDepth)), p.drafts.outer⟩) := by
  unfold mixIn Scope.expand
  cases Call.ofText? params with
  | none => rfl
  | some call =>
    dsimp only
    cases p.scope.traits.get? call.name with
    | none => rfl
    | some definition =>
      dsimp only
      cases call.argumentList.mapM (p.scope.bindings.substitute line) with
      | error => rfl
      | ok arguments =>
        simp only [bind, Except.bind, pure, Except.pure]
        cases definition.instantiate arguments p.scope.bindings line with
        | error => rfl
        | ok declarations =>
          simp only [Except.map, Except.toOption, Option.map_some, List.flatMap_map]
          rfl

theorem statement_view (importer : Importer) (setting : Setting) (p : Progress) (name params : Text)
    (line : Nat) (remote : ¬ (Token.statement name params line).IsLocalImport) :
    (p.statement importer setting name params line).toOption.map view =
      (p.resolver.statement setting.volume name params line).toOption.bind fun (r, resolved) =>
        (resolved.foldlM Drafts.step p.drafts).map (r, ·) := by
  unfold statement Resolver.statement
  split
  · rw [declare_view]
    change _ = Option.bind (Except.toOption (Except.map _ (p.scope.declare params line))) _
    cases p.scope.declare params line <;> rfl
  · split
    · rw [mixIn_view]
      change _ = Option.bind
        (Except.toOption (Except.map _ (p.scope.expand setting.volume params line))) _
      cases p.scope.expand setting.volume params line with
      | error => rfl
      | ok entries =>
        change _ = Option.map _ ((entries.map Resolved.entry).foldlM Drafts.step p.drafts)
        rw [Drafts.foldlM_entries]
        rfl
    · split
      · rename_i isLoad
        unfold load
        cases source : ImportSource.ofText params with
        | file path => exact absurd ⟨isLoad, path, source⟩ remote
        | address url =>
          have trimmed : url = Text.trim params := by
            simp only [ImportSource.ofText] at source
            split at source
            · simpa only [ImportSource.address.injEq, eq_comm] using source
            · cases source
          rw [isLoad, trimmed]
          rfl
      · rfl

theorem stepTrait_view (setting : Setting) (p : Progress) (t : OpenTrait) (token : Token) :
    (p.stepTrait setting t token).toOption.map view =
      (p.resolver.stepTrait setting.directory t token).toOption.map (·, p.drafts) := by
  cases token <;> rfl

theorem openTrait_view (p : Progress) (header : Text) (line : Nat) :
    (p.openTrait header line).toOption.map view =
      (p.resolver.openTrait header line).toOption.map (·, p.drafts) := by
  unfold openTrait Resolver.openTrait
  cases Call.ofText? header <;> rfl

theorem closeBlock_view (p : Progress) (token : Token) :
    (p.closeBlock token).toOption.map view =
      (p.drafts.step .closes).map (p.resolver, ·) := by
  unfold closeBlock Drafts.step drafts
  cases p.blocks <;> rfl

/-- One token does what the two phases do. -/
theorem step_view (importer : Importer) (setting : Setting) (p : Progress) (token : Token)
    (remote : ¬ token.IsLocalImport) :
    (p.step importer setting token).toOption.map view =
      (p.resolver.step setting.volume setting.directory token).toOption.bind fun (r, resolved) =>
        (resolved.foldlM Drafts.step p.drafts).map (r, ·) := by
  unfold step Resolver.step
  change _ = Option.bind (Except.toOption (match p.definition with | some t => _ | none => _)) _
  cases p.definition with
  | some t =>
    dsimp only
    rw [stepTrait_view]
    cases p.resolver.stepTrait setting.directory t token <;> rfl
  | none =>
    cases token with
    | rule selector line => rfl
    | atBlock name params line =>
      dsimp only
      split
      · rw [openTrait_view]
        cases p.resolver.openTrait params line <;> rfl
      · rfl
    | statement name params line => exact statement_view importer setting p name params line remote
    | property key value line =>
      dsimp only
      unfold writeProperty
      change _ = Option.bind
        (Except.toOption (Except.map _ (p.scope.bindings.substitute line value))) _
      cases p.scope.bindings.substitute line value <;> rfl
    | comment text line => rfl
    | close line =>
      dsimp only
      rw [closeBlock_view]
      simp only [Except.toOption, Option.bind_some, List.foldlM_cons, List.foldlM_nil]
      cases p.drafts.step .closes <;> rfl

theorem finish_view (p : Progress) (volume : Volume) (directory : Path) :
    p.finish.toOption.map Prod.fst =
      (Resolver.run volume directory p.resolver []).toOption.bind fun resolved =>
        (resolved.foldlM Drafts.step p.drafts).bind Drafts.finish := by
  unfold finish Resolver.run
  change _ = Option.bind (Except.toOption (match p.definition with | none => _ | some _ => _)) _
  cases p.definition with
  | some definition => rfl
  | none =>
    change _ = p.drafts.finish
    unfold Drafts.finish drafts
    cases p.blocks <;> rfl

/-- A whole run does what the two phases do, one after the other. -/
theorem run_view (importer : Importer) (setting : Setting) (tokens : List Token)
    (remote : ∀ token ∈ tokens, ¬ token.IsLocalImport) (p : Progress) :
    ((tokens.foldlM (step importer setting) p).bind finish).toOption.map Prod.fst =
      (Resolver.run setting.volume setting.directory p.resolver tokens).toOption.bind
        fun resolved => (resolved.foldlM Drafts.step p.drafts).bind Drafts.finish := by
  induction tokens generalizing p with
  | nil => exact finish_view p setting.volume setting.directory
  | cons token rest ih =>
    have first := step_view importer setting p token (remote token List.mem_cons_self)
    have later := ih fun token member => remote token (List.mem_cons_of_mem _ member)
    -- What follows the token depends on the two views only.
    let after : Resolver × Drafts → Option Text := fun (r, d) =>
      (r.run setting.volume setting.directory rest).toOption.bind fun resolved =>
        (resolved.foldlM Drafts.step d).bind Drafts.finish
    calc
      _ = ((p.step importer setting token).toOption.map view).bind after := by
        rw [List.foldlM_cons]
        cases p.step importer setting token with
        | error => rfl
        | ok next => exact later next
      _ = _ := by
        rw [first, Resolver.run]
        cases p.resolver.step setting.volume setting.directory token with
        | error => rfl
        | ok stepped =>
          obtain ⟨r, resolved⟩ := stepped
          change ((resolved.foldlM Drafts.step p.drafts).map (r, ·)).bind after =
            ((r.run setting.volume setting.directory rest).map (resolved ++ ·)).toOption.bind _
          cases ran : r.run setting.volume setting.directory rest with
          | error =>
            cases resolved.foldlM Drafts.step p.drafts <;>
              simp [after, ran, Except.map, Except.toOption]
          | ok more =>
            simp only [Except.map, Except.toOption, Option.bind_some, List.foldlM_append]
            cases resolved.foldlM Drafts.step p.drafts <;>
              simp [after, ran, Except.toOption]

end Progress

namespace Token

/-- Whether a token declares a variable or begins the definition of a trait. -/
def declares : Token → Bool
  | statement name _ _ => name = Keyword.declare.text
  | atBlock name _ _ => name = Keyword.define.text
  | _ => false

def isAtBlock : Token → Bool
  | atBlock _ _ _ => true
  | _ => false

def isClose : Token → Bool
  | close _ => true
  | _ => false

/-- The variables and traits that are declared among tokens, when these start inside the definition
of a trait or outside. -/
def tables : Bool → List Token → List Token
  | _, [] => []
  | true, token :: rest => token :: tables (!token.isClose) rest
  | false, token :: rest =>
    if token.declares then token :: tables token.isAtBlock rest else tables false rest

end Token

namespace Resolver

variable (volume : Volume) (directory : Path)

/-- The first phase over some tokens: what is known after them, and what stands in their place. -/
def walk : Resolver → List Token → Except Problem (Resolver × List Resolved)
  | r, [] => .ok (r, [])
  | r, token :: rest =>
    (r.step volume directory token).bind fun (next, resolved) =>
      (walk next rest).map fun (last, more) => (last, resolved ++ more)

theorem run_append (r : Resolver) (before after : List Token) :
    r.run volume directory (before ++ after) =
      (r.walk volume directory before).bind fun (next, resolved) =>
        (next.run volume directory after).map (resolved ++ ·) := by
  induction before generalizing r with
  | nil =>
    simp only [List.nil_append, walk, Except.bind]
    cases r.run volume directory after <;> rfl
  | cons token rest ih =>
    simp only [List.cons_append, run, walk]
    cases r.step volume directory token with
    | error => rfl
    | ok stepped =>
      simp only [Except.bind, ih]
      cases walk volume directory stepped.1 rest with
      | error => rfl
      | ok walked =>
        simp only [Except.map]
        cases walked.1.run volume directory after with
        | error => rfl
        | ok more => simp

/-- Outside the definitions of traits only a declaration changes what is known. -/
theorem step_of_not_declares {r next : Resolver} {token : Token} {resolved : List Resolved}
    (outside : r.definition = none) (other : token.declares = false)
    (stepped : r.step volume directory token = .ok (next, resolved)) : next = r := by
  cases Advance.of_step stepped with
  | collect inside | define inside => rw [outside] at inside; cases inside
  | openTrait _ isDefine => simp [Token.declares, isDefine] at other
  | declare _ isDeclare => simp [Token.declares, isDeclare] at other
  | openRule | openAtRule | mixIn | load | keep | resolve | comment | close => rfl

/-- A declaration leaves nothing in its place. -/
theorem step_of_declares {r next : Resolver} {token : Token} {resolved : List Resolved}
    (outside : r.definition = none) (declared : token.declares = true)
    (stepped : r.step volume directory token = .ok (next, resolved)) :
    resolved = [] ∧ next.definition.isSome = token.isAtBlock := by
  cases Advance.of_step stepped with
  | collect | openRule | define | resolve | comment | close => cases declared
  | openTrait => exact ⟨rfl, rfl⟩
  | declare => exact ⟨rfl, by rw [outside]; rfl⟩
  | openAtRule _ other => simp [Token.declares, other] at declared
  | mixIn _ isMixin => simp [Token.declares, isMixin, Keyword.text] at declared
  | load _ isLoad => simp [Token.declares, isLoad, Keyword.text] at declared
  | keep _ notDeclare => simp [Token.declares, notDeclare] at declared

/-- Neither does what stands in the definition of a trait. -/
theorem step_of_definition {r next : Resolver} {t : OpenTrait} {token : Token}
    {resolved : List Resolved} (inside : r.definition = some t)
    (stepped : r.step volume directory token = .ok (next, resolved)) :
    resolved = [] ∧ next.definition.isSome = !token.isClose := by
  cases Advance.of_step stepped with
  | collect | define => exact ⟨rfl, rfl⟩
  | openRule outside | openTrait outside | openAtRule outside | declare outside | mixIn outside
  | load outside | keep outside | resolve outside | comment outside | close outside =>
    rw [inside] at outside
    cases outside

/-- What is known after some tokens depends on the variables and traits among them only. -/
theorem walk_tables {r last : Resolver} {tokens : List Token} {resolved : List Resolved}
    (walked : r.walk volume directory tokens = .ok (last, resolved)) :
    r.walk volume directory (Token.tables r.definition.isSome tokens) = .ok (last, []) := by
  induction tokens generalizing r resolved with
  | nil =>
    cases walked
    cases last.definition <;> rfl
  | cons token rest ih =>
    rw [walk] at walked
    cases stepped : r.step volume directory token with
    | error => rw [stepped] at walked; cases walked
    | ok pair =>
      obtain ⟨next, first⟩ := pair
      rw [stepped] at walked
      simp only [Except.bind] at walked
      cases later : next.walk volume directory rest with
      | error => rw [later] at walked; cases walked
      | ok pair =>
        rw [later] at walked
        cases walked
        have rest := ih later
        cases inside : r.definition with
        | some t =>
          obtain ⟨rfl, flag⟩ := step_of_definition volume directory inside stepped
          rw [flag] at rest
          simp only [Option.isSome_some, Token.tables, walk, stepped, Except.bind, rest, Except.map,
            List.nil_append]
        | none =>
          by_cases declared : token.declares = true
          · obtain ⟨rfl, flag⟩ := step_of_declares volume directory inside declared stepped
            rw [flag] at rest
            simp only [Option.isSome_none, Token.tables, declared, ↓reduceIte, walk, stepped,
              Except.bind, rest, Except.map, List.nil_append]
          · have same := step_of_not_declares volume directory inside
              (Bool.not_eq_true _ ▸ declared) stepped
            rw [same, inside] at rest
            simpa only [Option.isSome_none, Token.tables, declared, Bool.false_eq_true,
              ↓reduceIte] using rest

end Resolver

/-- What stands in the place of a token depends on the token and on the variables and traits that
are declared before it. -/
theorem Resolver.run_append_cons (volume : Volume) (directory : Path) {before after : List Token}
    {token : Token} {resolved : List Resolved}
    (ran : start.run volume directory (before ++ token :: after) = .ok resolved) :
    ∃ known next shown here more,
      start.walk volume directory before = .ok (known, shown) ∧
      start.walk volume directory (Token.tables false before) = .ok (known, []) ∧
      known.step volume directory token = .ok (next, here) ∧
      next.run volume directory after = .ok more ∧ resolved = shown ++ (here ++ more) := by
  rw [run_append] at ran
  cases walked : start.walk volume directory before with
  | error => rw [walked] at ran; cases ran
  | ok pair =>
    obtain ⟨known, shown⟩ := pair
    rw [walked] at ran
    simp only [Except.bind, run] at ran
    cases stepped : known.step volume directory token with
    | error => rw [stepped] at ran; cases ran
    | ok pair =>
      obtain ⟨next, here⟩ := pair
      rw [stepped] at ran
      dsimp only at ran
      cases later : next.run volume directory after with
      | error => rw [later] at ran; cases ran
      | ok more =>
        rw [later] at ran
        cases ran
        exact ⟨known, next, shown, here, more, rfl, walk_tables volume directory walked, stepped,
          later, rfl⟩

/-- The raw output of a stylesheet is its printed block tree, and there is an output exactly if
there is a block tree. -/
theorem compileRaw_eq_ok_iff (importer : Importer) (setting : Setting) (depth : Nat) (scope : Scope)
    (tokens : List Token) (remote : ∀ token ∈ tokens, ¬ token.IsLocalImport) (raw : Text) :
    (∃ last, compileRaw importer setting depth scope tokens = .ok (raw, last)) ↔
      ∃ forest : Forest,
        Resolver.run setting.volume setting.directory ⟨scope, none⟩ tokens = .ok forest.stream ∧
          raw = forest.print [] depth := by
  have phases := Progress.run_view importer setting tokens remote (.start scope depth)
  change (compileRaw importer setting depth scope tokens).toOption.map Prod.fst =
    (Resolver.run setting.volume setting.directory ⟨scope, none⟩ tokens).toOption.bind
      fun resolved =>
        (resolved.foldlM Drafts.step (Drafts.start depth)).bind Drafts.finish at phases
  cases ran : Resolver.run setting.volume setting.directory ⟨scope, none⟩ tokens with
  | error problem =>
    rw [ran] at phases
    cases compiled : compileRaw importer setting depth scope tokens with
    | error => simp
    | ok result => rw [compiled] at phases; cases phases
  | ok resolved =>
    rw [ran] at phases
    have printed := Drafts.output_iff resolved depth raw
    rw [← show _ = (resolved.foldlM Drafts.step (Drafts.start depth)).bind Drafts.finish
      from phases] at printed
    simp only [Except.ok.injEq]
    rw [← printed]
    cases compileRaw importer setting depth scope tokens with
    | error => simp [Except.toOption]
    | ok result =>
      obtain ⟨text, last⟩ := result
      simp [Except.toOption, eq_comm]

/-- Compiled output is the block tree of the resolved tokens as it is printed. -/
theorem compileTokens_eq_ok_iff (volume : Volume) (options : Options) (tokens : List Token)
    (remote : ∀ token ∈ tokens, ¬ token.IsLocalImport) (css : Text) :
    compileTokens volume options tokens = .ok css ↔
      ∃ forest : Forest,
        Resolver.start.run volume options.directory tokens = .ok forest.stream ∧
          css = options.print (forest.print [] 0) := by
  have phases := compileRaw_eq_ok_iff (Setting.importer ⟨volume, options.directory, []⟩)
    ⟨volume, options.directory, []⟩ 0 .empty tokens remote
  unfold compileTokens compileIn
  dsimp only
  constructor
  · intro compiled
    cases made : compileRaw (Setting.importer ⟨volume, options.directory, []⟩)
        ⟨volume, options.directory, []⟩ 0 .empty tokens with
    | error => rw [made] at compiled; cases compiled
    | ok result =>
      obtain ⟨raw, last⟩ := result
      rw [made] at compiled
      cases compiled
      obtain ⟨forest, ran, printed⟩ := (phases raw).mp ⟨last, made⟩
      exact ⟨forest, ran, by rw [printed]⟩
  · rintro ⟨forest, ran, rfl⟩
    obtain ⟨last, made⟩ := (phases (forest.print [] 0)).mpr ⟨forest, ran, rfl⟩
    rw [made]
    rfl

/-- The two phases. What stands in the place of a token is decided by the token and by the variables
and traits before it, wherever in the tree it stands. -/
theorem compileTokens_eq_ok_iff_existsUnique (volume : Volume) (options : Options)
    (tokens : List Token) (plain : options.minify = false)
    (remote : ∀ token ∈ tokens, ¬ token.IsLocalImport) :
    (∀ css, compileTokens volume options tokens = .ok css ↔
      ∃! forest : Forest, Resolver.start.run volume options.directory tokens = .ok forest.stream ∧
        css = Layout.finish (forest.print [] 0)) ∧
    ∀ resolved, Resolver.start.run volume options.directory tokens = .ok resolved →
      ∀ before token after, tokens = before ++ token :: after →
        ∃ known next shown here more,
          Resolver.start.walk volume options.directory before = .ok (known, shown) ∧
          Resolver.start.walk volume options.directory (Token.tables false before) =
            .ok (known, []) ∧
          known.step volume options.directory token = .ok (next, here) ∧
          next.run volume options.directory after = .ok more ∧
          resolved = shown ++ (here ++ more) := by
  constructor
  · intro css
    rw [compileTokens_eq_ok_iff volume options tokens remote]
    have unprinted (raw : Text) : options.print raw = Layout.finish raw := by
      simp only [Options.print, plain, Bool.false_eq_true, ↓reduceIte]
    constructor
    · rintro ⟨forest, ran, printed⟩
      refine ⟨forest, ⟨ran, printed.trans (unprinted _)⟩, ?_⟩
      rintro other ⟨otherRan, -⟩
      exact Forest.stream_injective (Except.ok.inj (otherRan.symm.trans ran))
    · rintro ⟨forest, ⟨ran, printed⟩, -⟩
      exact ⟨forest, ran, printed.trans (unprinted _).symm⟩
  · rintro resolved ran before token after rfl
    exact Resolver.run_append_cons volume options.directory ran

/-- A variable that is declared again in a nested rule, which is printed after what follows it. -/
def redeclared : List Token :=
  [.statement Keyword.declare.text "$c red".toList 1,
    .atBlock Keyword.define.text "t($p)".toList 2,
    .property ['w'] "$p".toList 2,
    .close 2, .rule ['a'] 3,
    .property ['k'] "$c".toList 3,
    .rule "&:hover".toList 4,
    .statement Keyword.declare.text "$c blue".toList 4,
    .close 4,
    .atBlock "@media".toList "print".toList 5,
    .property ['k'] "$c".toList 5,
    .close 5,
    .statement Keyword.mixin.text "t($c)".toList 6,
    .close 7]

def redeclaredOutput : Text :=
  ("a \x7b\n  k: red;\n  w: blue;\n\x7d\na:hover \x7b\n\x7d\n" ++
    "@media print \x7b\n  a \x7b\n    k: blue;\n  \x7d\n\x7d").toList

theorem redeclared_flattened :
    (∀ token ∈ redeclared, ¬ token.IsLocalImport) ∧
      compileTokens ⟨[], []⟩ ⟨⟨['.']⟩, false⟩ redeclared = .ok redeclaredOutput ∧
      ∃! forest : Forest, Resolver.start.run ⟨[], []⟩ ⟨['.']⟩ redeclared = .ok forest.stream ∧
        redeclaredOutput = Layout.finish (forest.print [] 0) := by
  have remote : ∀ token ∈ redeclared, ¬ token.IsLocalImport := by
    simp [redeclared, Token.IsLocalImport, Keyword.text]
  have compiled : compileTokens ⟨[], []⟩ ⟨⟨['.']⟩, false⟩ redeclared = .ok redeclaredOutput := by
    decide +kernel
  exact ⟨remote, compiled,
    ((compileTokens_eq_ok_iff_existsUnique ⟨[], []⟩ ⟨⟨['.']⟩, false⟩ redeclared rfl remote).1
      redeclaredOutput).mp compiled⟩

end Stylesheet
