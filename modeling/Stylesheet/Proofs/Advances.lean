import Stylesheet.Proofs.Offences
import Stylesheet.Proofs.Sessions

set_option autoImplicit false

namespace Stylesheet

namespace Progress

variable {importer : Importer} {setting : Setting} {p q : Progress} {token : Token}

@[simp] theorem scope_start (scope : Scope) (depth : Nat) : (start scope depth).scope = scope := rfl

@[simp] theorem lineDepth_start (scope : Scope) (depth : Nat) :
    (start scope depth).lineDepth = depth := rfl

/-- Adds what was compiled from the beginning of a stylesheet. -/
def resume (p : Progress) (result : Except Problem Progress) : Except Problem Progress :=
  result.map fun q => p.withImport (q.draft.body, q.scope)

theorem declare_eq_resume (p : Progress) (params : Text) (line : Nat) :
    p.declare params line = p.resume ((start p.scope p.lineDepth).declare params line) := by
  have unwritten (scope : Scope) : p.withImport ([], scope) = { p with scope } := by
    simp only [withImport, write, Draft.write, List.append_nil]
  unfold declare
  dsimp only
  split
  · exact congrArg Except.ok (unwritten p.scope).symm
  · split
    · rfl
    · rw [scope_start]
      cases p.scope.bindings.substitute line
          (Text.trim (params.dropWhile (!Text.isBlank ·))) with
      | error problem => rfl
      | ok value => exact congrArg Except.ok (unwritten _).symm

theorem mixIn_eq_resume (setting : Setting) (p : Progress) (params : Text) (line : Nat) :
    p.mixIn setting params line =
      p.resume ((start p.scope p.lineDepth).mixIn setting params line) := by
  unfold mixIn
  cases Call.ofText? params with
  | none => rfl
  | some call =>
    simp only [scope_start]
    cases p.scope.traits.get? call.name with
    | none => rfl
    | some definition =>
      cases call.argumentList.mapM (p.scope.bindings.substitute line) with
      | error problem => rfl
      | ok arguments =>
        simp only [bind, Except.bind]
        cases definition.instantiate arguments p.scope.bindings line <;> rfl

theorem load_eq_resume (importer : Importer) (setting : Setting) (p : Progress) (params : Text)
    (line : Nat) :
    p.load importer setting params line =
      p.resume ((start p.scope p.lineDepth).load importer setting params line) := by
  unfold load
  cases ImportSource.ofText params with
  | address url => rfl
  | file target =>
    simp only [scope_start, lineDepth_start]
    cases importer setting target line p.lineDepth p.scope <;> rfl

/-- A token that opens and closes no block adds what it would add at the beginning of a
stylesheet. -/
theorem step_eq_resume (outside : p.definition = none) (opensNone : token.isBlock = false)
    (closesNone : token.isClose = false) :
    p.step importer setting token =
      p.resume ((start p.scope p.lineDepth).step importer setting token) := by
  unfold step
  rw [outside]
  cases token with
  | rule | atBlock => cases opensNone
  | close => cases closesNone
  | comment => rfl
  | property key value line =>
    simp only [start, writeProperty]
    cases p.scope.bindings.substitute line value <;> rfl
  | statement name params line =>
    simp only [start, statement]
    split
    · exact declare_eq_resume p params line
    · split
      · exact mixIn_eq_resume setting p params line
      · split
        · exact load_eq_resume importer setting p params line
        · rfl

inductive Advance (importer : Importer) (setting : Setting) (p : Progress) :
    Token → Progress → Prop where
  | collect {t : OpenTrait} {key value : Text} {line : Nat} (defining : p.definition = some t) :
      Advance importer setting p (.property key value line)
        { p with definition := some { t with body := t.body ++ [⟨key, value⟩] } }
  | define {t : OpenTrait} {line : Nat} (defining : p.definition = some t) :
      Advance importer setting p (.close line)
        { p with
          scope := { p.scope with
            traits := p.scope.traits.define ⟨t.name, t.params, t.body, setting.directory⟩ }
          definition := none }
  | add {token : Token} {addition : Progress} (outside : p.definition = none)
      (opensNone : token.isBlock = false) (closesNone : token.isClose = false)
      (added : (start p.scope p.lineDepth).step importer setting token = .ok addition) :
      Advance importer setting p token (p.withImport (addition.draft.body, addition.scope))
  | openRule {selector : Text} {line : Nat} (outside : p.definition = none) :
      Advance importer setting p (.rule selector line) (p.openRule selector line)
  | openTrait {header : Text} {line : Nat} {call : Call} (outside : p.definition = none)
      (named : Call.ofText? header = some call) :
      Advance importer setting p (.atBlock Keyword.define.text header line)
        { p with definition := some ⟨call.name, Trait.paramsOf call, [], line⟩ }
  | openAtRule {name params : Text} {line : Nat} (outside : p.definition = none)
      (other : name ≠ Keyword.define.text) :
      Advance importer setting p (.atBlock name params line) (p.openAtRule name params line)
  | closeBlock {line : Nat} {block : OpenBlock} {rest : List OpenBlock}
      (outside : p.definition = none) (blocks : p.blocks = block :: rest) :
      Advance importer setting p (.close line)
        { p with draft := block.outer.writeBlock (p.draft.render block.heading), blocks := rest }

theorem Advance.of_step (done : p.step importer setting token = .ok q) :
    Advance importer setting p token q := by
  cases definition : p.definition with
  | some t =>
    simp only [step, definition] at done
    cases token with
    | property key value line => cases done; exact .collect definition
    | close line => cases done; exact .define definition
    | rule | atBlock | statement | comment => cases done
  | none =>
    by_cases flat : token.isBlock = false ∧ token.isClose = false
    · rw [step_eq_resume definition flat.1 flat.2] at done
      obtain ⟨addition, added, rfl⟩ := exists_of_map_eq_ok done
      exact .add definition flat.1 flat.2 added
    · simp only [step, definition] at done
      cases token with
      | rule selector line => cases done; exact .openRule definition
      | atBlock name params line =>
        dsimp only at done
        split at done
        · rename_i isTrait
          subst isTrait
          obtain ⟨call, named, rfl⟩ := openTrait_eq_ok done
          exact .openTrait definition named
        · rename_i other
          cases done
          exact .openAtRule definition other
      | close line =>
        obtain ⟨block, rest, blocks, rfl⟩ := closeBlock_eq_ok done
        exact .closeBlock definition blocks
      | statement | property | comment => exact absurd ⟨rfl, rfl⟩ flat

theorem Advance.step (advance : Advance importer setting p token q) :
    p.step importer setting token = .ok q := by
  cases advance with
  | collect defining => simp only [Progress.step, defining, stepTrait]
  | define defining => simp only [Progress.step, defining, stepTrait]
  | add outside opensNone closesNone added =>
    rw [step_eq_resume outside opensNone closesNone, added]
    rfl
  | openRule outside => simp only [Progress.step, outside]
  | openTrait outside named =>
    simp only [Progress.step, outside, ↓reduceIte, Progress.openTrait, named]
  | openAtRule outside other => simp only [Progress.step, outside, other, ↓reduceIte]
  | closeBlock outside blocks => simp only [Progress.step, outside, Progress.closeBlock, blocks]

end Progress

end Stylesheet
