import Stylesheet.Proofs.Advances

set_option autoImplicit false

namespace Stylesheet

/-- What is before a descent: the tokens that are left, the variables and traits so far, and the
depth at which it writes. -/
structure Cursor where
  rest : List Token
  scope : Scope
  depth : Nat
  deriving DecidableEq, Repr

/-- A part of the descent into blocks. The cursor outlives a problem; `none` stands for fuel that
was used up. -/
abbrev Descent := ExceptT Problem (StateT Cursor Option)

namespace Descent

def runFrom {α : Type} (part : Descent α) (c : Cursor) : Option (Except Problem α × Cursor) :=
  part.run.run c

def usedUp {α : Type} : Descent α := ExceptT.mk fun _ => none

def nextInBlock (line : Nat) : Descent Token := do
  match (← get).rest with
  | [] => throw (.unclosedBlock line)
  | token :: rest =>
    modify fun c => { c with rest }
    return token

/-- What is written into an empty draft at the depth of the cursor. -/
def write (act : Progress → Except Problem Progress) : Descent Text := do
  let c ← get
  let p ← ofExcept (act (.start c.scope c.depth))
  modify fun c => { c with scope := p.scope }
  return p.draft.body

/-- One level deeper and back. A problem comes up only after the depth is what it was. -/
def deeper {α : Type} (inner : Descent α) : Descent α := do
  modify fun c => { c with depth := c.depth + 1 }
  let result ← ExceptT.lift inner.run
  modify fun c => { c with depth := c.depth - 1 }
  ofExcept result

def traitBody : Nat → Nat → List Declaration → Descent (List Declaration)
  | 0, _, _ => usedUp
  | fuel + 1, line, body => do
    match ← nextInBlock line with
    | .close _ => return body
    | .property key value _ => traitBody fuel line (body ++ [⟨key, value⟩])
    | other => throw (.unexpectedToken other)

def defineTrait (setting : Setting) (fuel : Nat) (header : Text) (line : Nat) : Descent Unit := do
  match Call.ofText? header with
  | none => throw (.unnamedTrait header line)
  | some call =>
    let body ← traitBody fuel line []
    modify fun c => { c with
      scope.traits :=
        c.scope.traits.define ⟨call.name, Trait.paramsOf call, body, setting.directory⟩ }

/-- The contents of an at-rule inside a rule, with the selector around its own declarations. -/
def wrapped (selector : Text) (contents : Descent (Text × Text)) : Descent Text := do
  let (body, below) ← contents
  let depth := (← get).depth
  return if Text.trim body = [] then below else Layout.block selector body depth ++ below

mutual

def item (importer : Importer) (setting : Setting) : Nat → Token → Descent Text
  | 0, _ => usedUp
  | fuel + 1, token =>
    match token with
    | .comment text _ => do return Layout.comment text (← get).depth
    | .rule selector line => rule importer setting fuel (Text.collapse selector) line
    | .atBlock name params line => nestedAt importer setting fuel name params line none
    | .statement name params line => write fun p => p.statement importer setting name params line
    | .property key value line => write fun p => p.writeProperty setting key value line
    | .close _ => throw (.unexpectedToken token)
termination_by structural fuel => fuel

def rule (importer : Importer) (setting : Setting) : Nat → Text → Nat → Descent Text
  | 0, _, _ => usedUp
  | fuel + 1, selector, line => do
    let (body, below) ← ruleBody importer setting fuel selector line [] []
    return Layout.block selector body (← get).depth ++ below
termination_by structural fuel => fuel

/-- The body of a rule: what stands in its block, and the blocks that are printed below it. -/
def ruleBody (importer : Importer) (setting : Setting) :
    Nat → Text → Nat → Text → Text → Descent (Text × Text)
  | 0, _, _, _, _ => usedUp
  | fuel + 1, selector, line, body, below => do
    match ← nextInBlock line with
    | .close _ => return (body, below)
    -- A block inside has a line of its own; the loop goes on with the line of this one.
    | .rule child inner =>
      let nested ← rule importer setting fuel (Selector.nest selector (Text.collapse child)) inner
      ruleBody importer setting fuel selector line body (below ++ nested)
    | .atBlock name params inner =>
      let nested ← nestedAt importer setting fuel name params inner (some selector)
      ruleBody importer setting fuel selector line body (below ++ nested)
    | token =>
      let piece ← deeper (item importer setting fuel token)
      ruleBody importer setting fuel selector line (body ++ piece) below
termination_by structural fuel => fuel

/-- An at-rule with a block. Inside a rule its declarations are wrapped in the selector. -/
def nestedAt (importer : Importer) (setting : Setting) :
    Nat → Text → Text → Nat → Option Text → Descent Text
  | 0, _, _, _, _ => usedUp
  | fuel + 1, name, params, line, parent =>
    if name = Keyword.define.text then do
      defineTrait setting fuel params line
      return []
    else do
      let content ← deeper (match parent with
        | some selector => wrapped selector (ruleBody importer setting fuel selector line [] [])
        | none => atBody importer setting fuel line [])
      return Layout.atBlock (Layout.header name params) content (← get).depth
termination_by structural fuel => fuel

def atBody (importer : Importer) (setting : Setting) : Nat → Nat → Text → Descent Text
  | 0, _, _ => usedUp
  | fuel + 1, line, out => do
    match ← nextInBlock line with
    | .close _ => return out
    | token =>
      let piece ← item importer setting fuel token
      atBody importer setting fuel line (out ++ piece)
termination_by structural fuel => fuel

end

def items (importer : Importer) (setting : Setting) : Nat → Text → Descent Text
  | 0, _ => usedUp
  | fuel + 1, out => do
    match (← get).rest with
    | [] => return out
    | token :: rest =>
      modify fun c => { c with rest }
      let piece ← item importer setting fuel token
      items importer setting fuel (out ++ piece)

/-- The output and the variables and traits at the end, if the fuel suffices. -/
def descend (fuel : Nat) (importer : Importer) (setting : Setting) (depth : Nat) (scope : Scope)
    (tokens : List Token) : Option (Except Problem (Text × Scope)) :=
  ((items importer setting fuel []).runFrom ⟨tokens, scope, depth⟩).map fun x =>
    x.1.map (·, x.2.scope)

variable {α β : Type}

section Run

variable {part : Descent α} {next : α → Descent β} {c c' : Cursor}

theorem runFrom_bind_ok {a : α} (ran : part.runFrom c = some (.ok a, c')) :
    (part >>= next).runFrom c = (next a).runFrom c' := by
  change Option.bind (part.runFrom c) _ = _
  rw [ran]
  rfl

theorem runFrom_bind_error {problem : Problem}
    (ran : part.runFrom c = some (.error problem, c')) :
    (part >>= next).runFrom c = some (.error problem, c') := by
  change Option.bind (part.runFrom c) _ = _
  rw [ran]
  rfl

theorem runFrom_bind_none (ran : part.runFrom c = none) : (part >>= next).runFrom c = none := by
  change Option.bind (part.runFrom c) _ = _
  rw [ran]
  rfl

theorem runFrom_get (c : Cursor) : (get : Descent Cursor).runFrom c = some (.ok c, c) := rfl

theorem runFrom_deeper (inner : Descent α) (c : Cursor) :
    (deeper inner).runFrom c = (inner.runFrom { c with depth := c.depth + 1 }).map fun x =>
      (x.1, { x.2 with depth := x.2.depth - 1 }) := by
  change Option.bind (Option.bind (inner.runFrom { c with depth := c.depth + 1 }) _) _ = _
  cases inner.runFrom { c with depth := c.depth + 1 } with
  | none => rfl
  | some x =>
    obtain ⟨result, c'⟩ := x
    cases result <;> rfl

theorem runFrom_write_ok {act : Progress → Except Problem Progress} {p : Progress}
    (done : act (.start c.scope c.depth) = .ok p) :
    (write act).runFrom c = some (.ok p.draft.body, { c with scope := p.scope }) := by
  unfold write
  rw [runFrom_bind_ok (runFrom_get c), done]
  rfl

theorem runFrom_write_error {act : Progress → Except Problem Progress} {problem : Problem}
    (failed : act (.start c.scope c.depth) = .error problem) :
    (write act).runFrom c = some (.error problem, c) := by
  unfold write
  rw [runFrom_bind_ok (runFrom_get c), failed]
  rfl

end Run

end Descent

theorem Draft.writeBlock_nil (draft : Draft) : draft.writeBlock [] = draft := by
  unfold writeBlock write
  split <;> simp

namespace Progress

/-- What a state comes to with the tokens that are left. -/
def outcome (importer : Importer) (setting : Setting) (p : Progress) (tokens : List Token) :
    Except Problem (Text × Scope) :=
  (tokens.foldlM (step importer setting) p).bind finish

variable {importer : Importer} {setting : Setting} {p q : Progress} {token : Token}
  {tokens : List Token}

theorem outcome_cons_ok (done : p.step importer setting token = .ok q) :
    p.outcome importer setting (token :: tokens) = q.outcome importer setting tokens := by
  unfold outcome
  rw [List.foldlM_cons, done]
  rfl

theorem outcome_cons_error {problem : Problem}
    (failed : p.step importer setting token = .error problem) :
    p.outcome importer setting (token :: tokens) = .error problem := by
  unfold outcome
  rw [List.foldlM_cons, failed]
  rfl

theorem outcome_nil_of_definition {t : OpenTrait} (inside : p.definition = some t) :
    p.outcome importer setting [] = .error (.unclosedBlock t.line) := by
  change p.finish = _
  unfold finish
  rw [inside]

end Progress

/-- What comes of the tokens at a cursor, outside the definitions of traits. -/
def Cursor.outcome (importer : Importer) (setting : Setting) (c : Cursor) (draft : Draft)
    (blocks : List OpenBlock) : Except Problem (Text × Scope) :=
  Progress.outcome importer setting ⟨c.scope, draft, blocks, none⟩ c.rest

/-- What comes of them after the brace of a block that has a draft. -/
def Cursor.closed (importer : Importer) (setting : Setting) (c : Cursor) (draft : Draft)
    (block : OpenBlock) (blocks : List OpenBlock) : Except Problem (Text × Scope) :=
  c.outcome importer setting (block.outer.writeBlock (draft.render block.heading)) blocks

namespace Cursor

variable {importer : Importer} {setting : Setting} {c : Cursor} {draft : Draft}
  {block : OpenBlock} {blocks : List OpenBlock}

theorem outcome_of_rest_eq {rest : List Token} (left : c.rest = rest) :
    c.outcome importer setting draft blocks =
      Cursor.outcome importer setting { c with rest } draft blocks := by
  subst left
  rfl

theorem outcome_nil_of_block (ended : c.rest = []) :
    c.outcome importer setting draft (block :: blocks) = .error (.unclosedBlock block.line) := by
  rw [outcome_of_rest_eq ended]
  rfl

theorem outcome_close (line : Nat) (rest : List Token) :
    Cursor.outcome importer setting { c with rest := .close line :: rest } draft
        (block :: blocks) =
      Cursor.closed importer setting { c with rest } draft block blocks :=
  Progress.outcome_cons_ok rfl

end Cursor

namespace Descent

variable {α β : Type}

/-- A part of the descent does to an outcome what the tokens that it takes do: what the whole comes
to is what is left to come after the part. With enough fuel there is a result. -/
structure Follows (enough : Prop) (part : Descent α) (c : Cursor)
    (whole : Except Problem (Text × Scope)) (after : α → Cursor → Except Problem (Text × Scope)) :
    Prop where
  returns : enough → part.runFrom c ≠ none
  agrees : ∀ result c', part.runFrom c = some (result, c') →
    c'.depth = c.depth ∧ c'.rest.length ≤ c.rest.length ∧ whole = result.bind (after · c')

namespace Follows

variable {enough : Prop} {part : Descent α} {c : Cursor} {whole : Except Problem (Text × Scope)}
  {after : α → Cursor → Except Problem (Text × Scope)}

theorem of_none (tooLittle : ¬ enough) (ran : part.runFrom c = none) :
    Follows enough part c whole after where
  returns much := absurd much tooLittle
  agrees result c' ran' := by
    rw [ran] at ran'
    cases ran'

theorem mono {more : Prop} (follows : Follows enough part c whole after) (much : more → enough) :
    Follows more part c whole after :=
  ⟨fun isMore => follows.returns (much isMore), follows.agrees⟩

theorem of_run {result : Except Problem α} {c₁ : Cursor}
    (ran : part.runFrom c = some (result, c₁)) (depth : c₁.depth = c.depth)
    (shorter : c₁.rest.length ≤ c.rest.length) (same : whole = result.bind (after · c₁)) :
    Follows enough part c whole after where
  returns _ := by simp [ran]
  agrees result' c' ran' := by
    rw [ran] at ran'
    cases ran'
    exact ⟨depth, shorter, same⟩

theorem of_runFrom_eq {other : Descent α} {c₁ : Cursor}
    (onward : part.runFrom c = other.runFrom c₁) (depth : c₁.depth = c.depth)
    (shorter : c₁.rest.length ≤ c.rest.length) (follows : Follows enough other c₁ whole after) :
    Follows enough part c whole after where
  returns much := onward ▸ follows.returns much
  agrees result c' ran := by
    rw [onward] at ran
    obtain ⟨depth', shorter', same⟩ := follows.agrees result c' ran
    exact ⟨depth'.trans depth, shorter'.trans shorter, same⟩

theorem pure {a : α} (same : whole = after a c) : Follows enough (pure a) c whole after :=
  of_run rfl rfl le_rfl same

theorem throw {problem : Problem} (failed : whole = .error problem) :
    Follows enough (throw problem : Descent α) c whole after :=
  of_run rfl rfl le_rfl failed

theorem bind {next : α → Descent β} {last : β → Cursor → Except Problem (Text × Scope)}
    (first : Follows enough part c whole after)
    (later : ∀ a c', c'.depth = c.depth → c'.rest.length ≤ c.rest.length →
      Follows enough (next a) c' (after a c') last) :
    Follows enough (part >>= next) c whole last := by
  cases ran : part.runFrom c with
  | none =>
    refine ⟨fun much => absurd ran (first.returns much), fun result c' both => ?_⟩
    rw [runFrom_bind_none ran] at both
    cases both
  | some reached =>
    obtain ⟨result, c₁⟩ := reached
    obtain ⟨depth, shorter, same⟩ := first.agrees result c₁ ran
    cases result with
    | error problem => exact of_run (runFrom_bind_error ran) depth shorter same
    | ok a =>
      cases same
      exact of_runFrom_eq (runFrom_bind_ok ran) depth shorter (later a c₁ depth shorter)

theorem get_bind {next : Cursor → Descent α} (follows : Follows enough (next c) c whole after) :
    Follows enough (get >>= next) c whole after :=
  of_runFrom_eq (runFrom_bind_ok (runFrom_get c)) rfl le_rfl follows

/-- A token is taken, or the block is left open. -/
theorem nextInBlock_bind {line : Nat} {next : Token → Descent α}
    (ends : c.rest = [] → whole = .error (.unclosedBlock line))
    (goesOn : ∀ token rest, c.rest = token :: rest →
      Follows enough (next token) { c with rest } whole after) :
    Follows enough (nextInBlock line >>= next) c whole after := by
  obtain ⟨rest, scope, depth⟩ := c
  cases rest with
  | nil => exact of_run rfl rfl le_rfl (ends rfl)
  | cons token rest =>
    have taken : (nextInBlock line).runFrom ⟨token :: rest, scope, depth⟩ =
        some (.ok token, ⟨rest, scope, depth⟩) := rfl
    exact of_runFrom_eq (runFrom_bind_ok taken) rfl (Nat.le_succ _) (goesOn token rest rfl)

/-- A problem of the inner part comes up once the depth is what it was, and is still the same. -/
theorem deeper (follows : Follows enough part { c with depth := c.depth + 1 } whole
      fun a c' => after a { c' with depth := c'.depth - 1 }) :
    Follows enough (deeper part) c whole after where
  returns much none := by
    rw [runFrom_deeper, Option.map_eq_none_iff] at none
    exact follows.returns much none
  agrees result c' ran := by
    rw [runFrom_deeper] at ran
    obtain ⟨⟨result, c₁⟩, inner, same⟩ := Option.map_eq_some_iff.mp ran
    cases same
    obtain ⟨depth, shorter, same⟩ := follows.agrees result c₁ inner
    exact ⟨by simp [depth], shorter, same⟩

end Follows

section Agreement

variable {importer : Importer} {setting : Setting}

/-- What is written into an empty draft is added to any other one at that depth. -/
theorem follows_write {enough : Prop} {c : Cursor} {draft : Draft} {blocks : List OpenBlock}
    {token : Token} {act : Progress → Except Problem Progress}
    (sameDepth : draft.place.lineDepth = c.depth)
    (opensNone : token.isBlock = false) (closesNone : token.isClose = false)
    (acts : (Progress.start c.scope c.depth).step importer setting token =
      act (.start c.scope c.depth)) :
    Follows enough (write act) c
      (Cursor.outcome importer setting { c with rest := token :: c.rest } draft blocks)
      fun text c' => c'.outcome importer setting (draft.write text) blocks := by
  have resumed : Progress.step importer setting ⟨c.scope, draft, blocks, none⟩ token =
      Progress.resume ⟨c.scope, draft, blocks, none⟩
        ((Progress.start c.scope draft.place.lineDepth).step importer setting token) :=
    Progress.step_eq_resume rfl opensNone closesNone
  rw [sameDepth, acts] at resumed
  cases done : act (.start c.scope c.depth) with
  | error problem =>
    rw [done] at resumed
    exact .of_run (runFrom_write_error done) rfl le_rfl (Progress.outcome_cons_error resumed)
  | ok q =>
    rw [done] at resumed
    exact .of_run (runFrom_write_ok done) rfl le_rfl (Progress.outcome_cons_ok resumed)

/-- Declarations are collected up to the brace that ends the definition of a trait. -/
theorem follows_traitBody {fuel line : Nat} {p : Progress} {t : OpenTrait} {c : Cursor}
    (inside : p.definition = some t) (sameLine : t.line = line) (sameScope : p.scope = c.scope) :
    Follows (c.rest.length < fuel) (traitBody fuel line t.body) c
      (p.outcome importer setting c.rest) fun body c' =>
        ({ p with
          scope := { c'.scope with
            traits := c'.scope.traits.define ⟨t.name, t.params, body, setting.directory⟩ }
          definition := none }).outcome importer setting c'.rest := by
  induction fuel generalizing p t c with
  | zero => exact .of_none (Nat.not_lt_zero _) rfl
  | succ fuel ih =>
    refine .nextInBlock_bind ?_ ?_
    · intro ended
      rw [ended, Progress.outcome_nil_of_definition inside, sameLine]
    · intro token rest left
      rw [left]
      have collected (key value : Text) (line : Nat) : p.step importer setting
          (.property key value line) = .ok { p with
            definition := some { t with body := t.body ++ [⟨key, value⟩] } } := by
        simp only [Progress.step, inside, Progress.stepTrait]
      cases token with
      | property key value line' =>
        rw [Progress.outcome_cons_ok (collected key value line')]
        have later := ih (p := { p with
            definition := some { t with body := t.body ++ [⟨key, value⟩] } }) (c := { c with rest })
          rfl sameLine sameScope
        exact later.mono (by simp)
      | close line' =>
        refine .pure (Progress.outcome_cons_ok ?_)
        simp only [Progress.step, inside, Progress.stepTrait, sameScope]
      | rule | atBlock | statement | comment =>
        refine .throw (Progress.outcome_cons_error ?_)
        simp only [Progress.step, inside, Progress.stepTrait]

theorem follows_defineTrait {enough : Prop} {fuel line : Nat} {header : Text} {c : Cursor}
    {draft : Draft} {blocks : List OpenBlock} (much : enough → c.rest.length < fuel) :
    Follows enough (defineTrait setting fuel header line) c
      (Cursor.outcome importer setting
        { c with rest := .atBlock Keyword.define.text header line :: c.rest } draft blocks)
      fun _ c' => c'.outcome importer setting draft blocks := by
  unfold defineTrait
  cases named : Call.ofText? header with
  | none =>
    refine .throw (Progress.outcome_cons_error ?_)
    simp only [Progress.step, ↓reduceIte, Progress.openTrait, named]
  | some call =>
    let t : OpenTrait := ⟨call.name, Trait.paramsOf call, [], line⟩
    let p : Progress := ⟨c.scope, draft, blocks, some t⟩
    have opened : Cursor.outcome importer setting
        { c with rest := .atBlock Keyword.define.text header line :: c.rest } draft blocks =
        p.outcome importer setting c.rest := by
      refine Progress.outcome_cons_ok ?_
      simp only [Progress.step, ↓reduceIte, Progress.openTrait, named, p, t]
    rw [opened]
    have collected := @follows_traitBody importer setting fuel line p t c rfl rfl rfl
    exact .bind (collected.mono much) fun body c' depth shorter => .of_run rfl rfl le_rfl rfl

/-- A token leaves fuel for the three calls that it may take. -/
theorem enough_of_cons {fuel : Nat} {token : Token} {tokens rest : List Token}
    (left : tokens = token :: rest) (much : 3 * tokens.length + 1 ≤ fuel + 1) :
    3 * rest.length + 3 ≤ fuel := by
  rw [left, List.length_cons] at much
  omega

variable (importer setting)

/-- What the functions of the descent do with some fuel. Each takes the tokens of one item or of one
block, and for each of the tokens that are left there has to be fuel for three calls. -/
structure Agrees (fuel : Nat) : Prop where
  -- What opens no block may stand in a rule as well, one level deeper than the blocks there.
  flat : ∀ {c : Cursor} {draft : Draft} {blocks : List OpenBlock} {token : Token},
    draft.place.lineDepth = c.depth → token.isBlock = false → token.isClose = false →
    Follows (1 ≤ fuel) (item importer setting fuel token) c
      (Cursor.outcome importer setting { c with rest := token :: c.rest } draft blocks)
      fun text c' => c'.outcome importer setting (draft.write text) blocks
  item : ∀ {c : Cursor} {draft : Draft} {blocks : List OpenBlock} {token : Token},
    draft.place = ⟨none, c.depth⟩ → (token.isClose = true → blocks = []) →
    Follows (3 * c.rest.length + 3 ≤ fuel) (item importer setting fuel token) c
      (Cursor.outcome importer setting { c with rest := token :: c.rest } draft blocks)
      fun text c' => c'.outcome importer setting (draft.write text) blocks
  rule : ∀ {c : Cursor} {draft : Draft} {blocks : List OpenBlock} {selector : Text} {line : Nat},
    Follows (3 * c.rest.length + 2 ≤ fuel) (rule importer setting fuel selector line) c
      (c.outcome importer setting (.start ⟨some selector, c.depth⟩)
        (⟨.rule, line, draft⟩ :: blocks))
      fun text c' => c'.outcome importer setting (draft.writeBlock text) blocks
  ruleBody : ∀ {c : Cursor} {block : OpenBlock} {blocks : List OpenBlock}
    {selector body below : Text},
    Follows (3 * c.rest.length + 1 ≤ fuel)
      (ruleBody importer setting fuel selector block.line body below) c
      (c.outcome importer setting ⟨⟨some selector, c.depth⟩, body, below⟩ (block :: blocks))
      fun x c' => c'.closed importer setting ⟨⟨some selector, c.depth⟩, x.1, x.2⟩ block blocks
  nestedAt : ∀ {c : Cursor} {draft : Draft} {blocks : List OpenBlock} {name params : Text}
    {line : Nat} {parent : Option Text}, draft.place = ⟨parent, c.depth⟩ →
    Follows (3 * c.rest.length + 2 ≤ fuel)
      (nestedAt importer setting fuel name params line parent) c
      (Cursor.outcome importer setting { c with rest := .atBlock name params line :: c.rest }
        draft blocks)
      fun text c' => c'.outcome importer setting (draft.writeBlock text) blocks
  atBody : ∀ {c : Cursor} {block : OpenBlock} {blocks : List OpenBlock} {out below : Text},
    Follows (3 * c.rest.length + 1 ≤ fuel) (atBody importer setting fuel block.line out) c
      (c.outcome importer setting ⟨⟨none, c.depth⟩, out, below⟩ (block :: blocks))
      fun out c' => c'.closed importer setting ⟨⟨none, c.depth⟩, out, below⟩ block blocks

namespace Agrees

variable {importer setting} {fuel : Nat}

theorem flat_succ {c : Cursor} {draft : Draft} {blocks : List OpenBlock} {token : Token}
    (sameDepth : draft.place.lineDepth = c.depth) (opensNone : token.isBlock = false)
    (closesNone : token.isClose = false) {enough : Prop} :
    Follows enough (Descent.item importer setting (fuel + 1) token) c
      (Cursor.outcome importer setting { c with rest := token :: c.rest } draft blocks)
      fun text c' => c'.outcome importer setting (draft.write text) blocks := by
  unfold Descent.item
  cases token with
  | rule | atBlock => cases opensNone
  | close => cases closesNone
  | statement name params line => exact follows_write sameDepth rfl rfl rfl
  | property key value line => exact follows_write sameDepth rfl rfl rfl
  | comment text line =>
    refine .get_bind (.pure (Progress.outcome_cons_ok ?_))
    rw [← sameDepth]
    rfl

theorem item_succ (agrees : Agrees importer setting fuel) {c : Cursor} {draft : Draft}
    {blocks : List OpenBlock} {token : Token} (outside : draft.place = ⟨none, c.depth⟩)
    (stray : token.isClose = true → blocks = []) :
    Follows (3 * c.rest.length + 3 ≤ fuel + 1) (Descent.item importer setting (fuel + 1) token) c
      (Cursor.outcome importer setting { c with rest := token :: c.rest } draft blocks)
      fun text c' => c'.outcome importer setting (draft.write text) blocks := by
  have sameDepth : draft.place.lineDepth = c.depth := by rw [outside]; rfl
  have written (text : Text) : draft.writeBlock text = draft.write text := by
    rw [Draft.writeBlock, outside]
    rfl
  cases token with
  | statement | property | comment => exact flat_succ sameDepth rfl rfl
  | close line =>
    unfold Descent.item
    refine .throw (Progress.outcome_cons_error ?_)
    rw [stray rfl]
    rfl
  | rule selector line =>
    unfold Descent.item
    have opened : Cursor.outcome importer setting { c with rest := .rule selector line :: c.rest }
        draft blocks = c.outcome importer setting (.start ⟨some (Text.collapse selector), c.depth⟩)
          (⟨.rule, line, draft⟩ :: blocks) := by
      refine Progress.outcome_cons_ok ?_
      simp only [Progress.step, Progress.openRule, Progress.openBlock, Place.insideRule, outside]
    rw [opened]
    simp only [← written]
    exact agrees.rule.mono (by omega)
  | atBlock name params line =>
    unfold Descent.item
    simp only [← written]
    exact (agrees.nestedAt outside).mono (by omega)

theorem rule_succ (agrees : Agrees importer setting fuel) {c : Cursor} {draft : Draft}
    {blocks : List OpenBlock} {selector : Text} {line : Nat} :
    Follows (3 * c.rest.length + 2 ≤ fuel + 1)
      (Descent.rule importer setting (fuel + 1) selector line) c
      (c.outcome importer setting (.start ⟨some selector, c.depth⟩)
        (⟨.rule, line, draft⟩ :: blocks))
      fun text c' => c'.outcome importer setting (draft.writeBlock text) blocks := by
  unfold Descent.rule
  have body := @Agrees.ruleBody _ _ _ agrees c ⟨.rule, line, draft⟩ blocks selector [] []
  refine .bind (body.mono (by omega)) fun x c' depth shorter => .get_bind (.pure ?_)
  rw [depth]
  rfl

/-- The loop of a rule goes on after a token that opens no block. -/
theorem ruleBody_flat (agrees : Agrees importer setting fuel) {enough : Prop} {c : Cursor}
    {block : OpenBlock} {blocks : List OpenBlock} {selector body below : Text} {token : Token}
    (opensNone : token.isBlock = false) (closesNone : token.isClose = false)
    (much : enough → 3 * c.rest.length + 3 ≤ fuel) :
    Follows enough
      (Descent.deeper (Descent.item importer setting fuel token) >>= fun piece =>
        Descent.ruleBody importer setting fuel selector block.line (body ++ piece) below) c
      (Cursor.outcome importer setting { c with rest := token :: c.rest }
        ⟨⟨some selector, c.depth⟩, body, below⟩ (block :: blocks))
      fun x c' => c'.closed importer setting ⟨⟨some selector, c.depth⟩, x.1, x.2⟩ block blocks := by
  have piece : Follows (1 ≤ fuel) (Descent.deeper (Descent.item importer setting fuel token)) c
      (Cursor.outcome importer setting { c with rest := token :: c.rest }
        ⟨⟨some selector, c.depth⟩, body, below⟩ (block :: blocks))
      fun text c' => c'.outcome importer setting ⟨⟨some selector, c.depth⟩, body ++ text, below⟩
        (block :: blocks) :=
    .deeper (agrees.flat rfl opensNone closesNone)
  refine .bind (piece.mono fun isEnough => ?_) fun piece c' depth shorter => ?_
  · have := much isEnough
    omega
  · rw [← depth]
    refine agrees.ruleBody.mono fun isEnough => ?_
    have := much isEnough
    omega

/-- The loop of a rule goes on after a block inside it, with the line of the rule. -/
theorem ruleBody_block (agrees : Agrees importer setting fuel) {enough : Prop} {c : Cursor}
    {part : Descent Text} {whole : Except Problem (Text × Scope)} {block : OpenBlock}
    {blocks : List OpenBlock} {selector body below : Text}
    (much : enough → 3 * c.rest.length + 3 ≤ fuel)
    (nested : Follows (3 * c.rest.length + 2 ≤ fuel) part c whole fun text c' =>
      c'.outcome importer setting
        (Draft.writeBlock ⟨⟨some selector, c.depth⟩, body, below⟩ text) (block :: blocks)) :
    Follows enough
      (part >>= fun nested =>
        Descent.ruleBody importer setting fuel selector block.line body (below ++ nested)) c whole
      fun x c' => c'.closed importer setting ⟨⟨some selector, c.depth⟩, x.1, x.2⟩ block blocks := by
  refine .bind (nested.mono fun isEnough => ?_) fun text c' depth shorter => ?_
  · have := much isEnough
    omega
  · rw [← depth]
    refine agrees.ruleBody.mono fun isEnough => ?_
    have := much isEnough
    omega

theorem ruleBody_succ (agrees : Agrees importer setting fuel) {c : Cursor} {block : OpenBlock}
    {blocks : List OpenBlock} {selector body below : Text} :
    Follows (3 * c.rest.length + 1 ≤ fuel + 1)
      (Descent.ruleBody importer setting (fuel + 1) selector block.line body below) c
      (c.outcome importer setting ⟨⟨some selector, c.depth⟩, body, below⟩ (block :: blocks))
      fun x c' => c'.closed importer setting ⟨⟨some selector, c.depth⟩, x.1, x.2⟩ block blocks := by
  unfold Descent.ruleBody
  refine .nextInBlock_bind Cursor.outcome_nil_of_block ?_
  intro token rest left
  have much := @enough_of_cons fuel token c.rest rest left
  rw [Cursor.outcome_of_rest_eq left]
  cases token with
  | close line => exact .pure (Cursor.outcome_close line rest)
  | rule child line =>
    rw [show Cursor.outcome importer setting { c with rest := .rule child line :: rest } _ _ = _
      from Progress.outcome_cons_ok rfl]
    exact agrees.ruleBody_block (c := { c with rest }) much agrees.rule
  | atBlock name params line =>
    exact agrees.ruleBody_block (c := { c with rest }) much (agrees.nestedAt rfl)
  | statement | property | comment => exact agrees.ruleBody_flat (c := { c with rest }) rfl rfl much

theorem atBody_succ (agrees : Agrees importer setting fuel) {c : Cursor} {block : OpenBlock}
    {blocks : List OpenBlock} {out below : Text} :
    Follows (3 * c.rest.length + 1 ≤ fuel + 1)
      (Descent.atBody importer setting (fuel + 1) block.line out) c
      (c.outcome importer setting ⟨⟨none, c.depth⟩, out, below⟩ (block :: blocks))
      fun out c' => c'.closed importer setting ⟨⟨none, c.depth⟩, out, below⟩ block blocks := by
  unfold Descent.atBody
  refine .nextInBlock_bind Cursor.outcome_nil_of_block ?_
  intro token rest left
  have much := @enough_of_cons fuel token c.rest rest left
  rw [Cursor.outcome_of_rest_eq left]
  have goesOn (opened : token.isClose = false) : Follows (3 * c.rest.length + 1 ≤ fuel + 1)
      (Descent.item importer setting fuel token >>= fun piece =>
        Descent.atBody importer setting fuel block.line (out ++ piece)) { c with rest }
      (Cursor.outcome importer setting { c with rest := token :: rest }
        ⟨⟨none, c.depth⟩, out, below⟩ (block :: blocks))
      fun out c' => c'.closed importer setting ⟨⟨none, c.depth⟩, out, below⟩ block blocks := by
    have piece := @Agrees.item _ _ _ agrees { c with rest } ⟨⟨none, c.depth⟩, out, below⟩
      (block :: blocks) token rfl (by simp [opened])
    refine .bind (piece.mono much) fun piece c' depth shorter => ?_
    rw [← show c'.depth = c.depth from depth]
    refine agrees.atBody.mono fun isEnough => ?_
    have := much isEnough
    have : c'.rest.length ≤ rest.length := shorter
    omega
  cases token with
  | close line => exact .pure (Cursor.outcome_close line rest)
  | rule | atBlock | statement | property | comment => exact goesOn rfl

theorem wrapped_ruleBody (agrees : Agrees importer setting fuel) {c : Cursor} {draft : Draft}
    {blocks : List OpenBlock} {selector header : Text} {line : Nat} :
    Follows (3 * c.rest.length + 1 ≤ fuel)
      (wrapped selector (Descent.ruleBody importer setting fuel selector line [] [])) c
      (c.outcome importer setting (.start ⟨some selector, c.depth⟩)
        (⟨.atRule header, line, draft⟩ :: blocks))
      fun content c' => c'.outcome importer setting
        (draft.writeBlock (Layout.atBlock header content (c.depth - 1))) blocks := by
  have body := @Agrees.ruleBody _ _ _ agrees c ⟨.atRule header, line, draft⟩ blocks selector [] []
  refine .bind body fun x c' depth shorter => .get_bind (.pure ?_)
  rw [depth]
  rfl

/-- The contents of an at-rule are one level deeper than its braces. -/
theorem atBlock_of_content {enough : Prop} {part : Descent Text} {c : Cursor}
    {whole : Except Problem (Text × Scope)} {draft : Draft} {blocks : List OpenBlock}
    {header : Text}
    (content : Follows enough part { c with depth := c.depth + 1 } whole fun content c' =>
      c'.outcome importer setting
        (draft.writeBlock (Layout.atBlock header content (c.depth + 1 - 1))) blocks) :
    Follows enough
      (do
        let content ← Descent.deeper part
        return Layout.atBlock header content (← get).depth) c whole
      fun text c' => c'.outcome importer setting (draft.writeBlock text) blocks := by
  have around : Follows enough (Descent.deeper part) c whole fun content c' =>
      c'.outcome importer setting (draft.writeBlock (Layout.atBlock header content c.depth))
        blocks :=
    .deeper content
  refine .bind around fun text c' depth shorter => .get_bind (.pure ?_)
  rw [depth]

theorem nestedAt_succ (agrees : Agrees importer setting fuel) {c : Cursor} {draft : Draft}
    {blocks : List OpenBlock} {name params : Text} {line : Nat} {parent : Option Text}
    (place : draft.place = ⟨parent, c.depth⟩) :
    Follows (3 * c.rest.length + 2 ≤ fuel + 1)
      (Descent.nestedAt importer setting (fuel + 1) name params line parent) c
      (Cursor.outcome importer setting { c with rest := .atBlock name params line :: c.rest }
        draft blocks)
      fun text c' => c'.outcome importer setting (draft.writeBlock text) blocks := by
  unfold Descent.nestedAt
  split
  · rename_i isTrait
    subst isTrait
    refine .bind (follows_defineTrait (by omega)) fun _ c' depth shorter => .pure ?_
    rw [Draft.writeBlock_nil]
  · rename_i other
    have opened : Cursor.outcome importer setting
          { c with rest := .atBlock name params line :: c.rest } draft blocks =
        Cursor.outcome importer setting { c with depth := c.depth + 1 }
          (.start ⟨parent, c.depth + 1⟩)
          (⟨.atRule (Layout.header name params), line, draft⟩ :: blocks) := by
      refine Progress.outcome_cons_ok ?_
      simp only [Progress.step, other, ↓reduceIte, Progress.openAtRule, Progress.openBlock, place,
        Place.insideAtRule]
    rw [opened]
    cases parent with
    | none =>
      have content := @Agrees.atBody _ _ _ agrees { c with depth := c.depth + 1 }
        ⟨.atRule (Layout.header name params), line, draft⟩ blocks [] []
      exact atBlock_of_content (content.mono Nat.le_of_succ_le_succ)
    | some selector =>
      have content := @wrapped_ruleBody _ _ _ agrees { c with depth := c.depth + 1 } draft blocks
        selector (Layout.header name params) line
      exact atBlock_of_content (content.mono Nat.le_of_succ_le_succ)

/-- All functions of the descent agree with the states between the tokens, by induction on the
fuel. -/
theorem all (fuel : Nat) : Agrees importer setting fuel := by
  induction fuel with
  | zero => constructor <;> intros <;> exact .of_none (Nat.not_succ_le_zero _) rfl
  | succ fuel ih =>
    exact ⟨fun sameDepth opensNone closesNone => flat_succ sameDepth opensNone closesNone,
      ih.item_succ, ih.rule_succ, ih.ruleBody_succ, ih.nestedAt_succ, ih.atBody_succ⟩

end Agrees

theorem follows_items {fuel : Nat} {c : Cursor} {out below : Text} :
    Follows (3 * c.rest.length + 1 ≤ fuel) (items importer setting fuel out) c
      (c.outcome importer setting ⟨⟨none, c.depth⟩, out, below⟩ [])
      fun out c' => .ok (out, c'.scope) := by
  induction fuel generalizing c out with
  | zero => exact .of_none (Nat.not_succ_le_zero _) rfl
  | succ fuel ih =>
    unfold items
    refine .get_bind ?_
    cases left : c.rest with
    | nil =>
      refine .pure ?_
      rw [Cursor.outcome_of_rest_eq left]
      rfl
    | cons token rest =>
      have much := @enough_of_cons fuel token (token :: rest) rest rfl
      have taken : (modify fun c => { c with rest } : Descent PUnit).runFrom c =
          some (.ok ⟨⟩, { c with rest }) := rfl
      refine .of_runFrom_eq (runFrom_bind_ok taken) rfl (by simp [left]) ?_
      rw [Cursor.outcome_of_rest_eq left]
      have piece := @Agrees.item importer setting fuel (Agrees.all fuel) { c with rest }
        ⟨⟨none, c.depth⟩, out, below⟩ [] token rfl fun _ => rfl
      refine .bind (piece.mono much) fun piece c' depth shorter => ?_
      rw [← show c'.depth = c.depth from depth]
      refine ih.mono fun isEnough => ?_
      have := much isEnough
      have : c'.rest.length ≤ rest.length := shorter
      omega

end Agreement

section Descend

variable {importer : Importer} {setting : Setting} {fuel depth : Nat} {scope : Scope}
  {tokens : List Token}

/-- A descent that returns has compiled the tokens. -/
theorem eq_compileRaw_of_descend {result : Except Problem (Text × Scope)}
    (descended : descend fuel importer setting depth scope tokens = some result) :
    result = compileRaw importer setting depth scope tokens := by
  obtain ⟨⟨result, last⟩, ran, rfl⟩ := Option.map_eq_some_iff.mp descended
  have follows := @follows_items importer setting fuel ⟨tokens, scope, depth⟩ [] []
  obtain ⟨-, -, same⟩ := follows.agrees result last ran
  refine Eq.trans ?_ same.symm
  cases result <;> rfl

theorem descend_ne_none (much : 3 * tokens.length < fuel) :
    descend fuel importer setting depth scope tokens ≠ none := by
  unfold descend
  rw [Ne, Option.map_eq_none_iff]
  exact (@follows_items importer setting fuel ⟨tokens, scope, depth⟩ [] []).returns much

end Descend

end Descent

/-- Compiles tokens by recursive descent, if the fuel suffices. -/
def descendTokens (fuel : Nat) (volume : Volume) (options : Options) (tokens : List Token) :
    Option (Except Problem Text) :=
  let setting : Setting := ⟨volume, options.directory, []⟩
  (Descent.descend fuel setting.importer setting 0 .empty tokens).map fun result =>
    result.map fun x => options.print x.1

section Tokens

variable {fuel : Nat} (volume : Volume) (options : Options) {tokens : List Token}

theorem eq_compileTokens_of_descendTokens {result : Except Problem Text}
    (descended : descendTokens fuel volume options tokens = some result) :
    result = compileTokens volume options tokens := by
  obtain ⟨raw, ran, rfl⟩ := Option.map_eq_some_iff.mp descended
  rw [Descent.eq_compileRaw_of_descend ran]
  unfold compileTokens compileIn
  dsimp only
  cases compileRaw (Setting.importer ⟨volume, options.directory, []⟩)
    ⟨volume, options.directory, []⟩ 0 .empty tokens <;> rfl

theorem descendTokens_ne_none (much : 3 * tokens.length < fuel) :
    descendTokens fuel volume options tokens ≠ none := by
  unfold descendTokens
  rw [Ne, Option.map_eq_none_iff]
  exact Descent.descend_ne_none much

end Tokens

/-- The descent into blocks compiles tokens as they are compiled from left to right, and fails
exactly if their survey fails, with the same problem, which is thus the first offence. Tokens that
have nothing to do with variables, traits or imports compile exactly if they are bracketed. -/
theorem compileTokens_eq_error_iff_fails (volume : Volume) (options : Options) (tokens : List Token)
    (remote : ∀ token ∈ tokens, ¬ token.IsLocalImport) :
    (∀ fuel result, descendTokens fuel volume options tokens = some result →
      result = compileTokens volume options tokens) ∧
    (∀ fuel, 3 * tokens.length < fuel → descendTokens fuel volume options tokens ≠ none) ∧
    (∀ problem, compileTokens volume options tokens = .error problem ↔
      Survey.start.Fails options.directory tokens problem) ∧
    ((∀ token ∈ tokens, token.IsPlain) →
      ((∃ css, compileTokens volume options tokens = .ok css) ↔ Token.Bracketed tokens)) := by
  refine ⟨fun fuel result => eq_compileTokens_of_descendTokens volume options,
    fun fuel => descendTokens_ne_none volume options, fun problem => ?_,
    compileTokens_plain volume options⟩
  rw [compileTokens_eq_error_iff]
  have describes : Survey.start.Describes (.start .empty 0) := .outside ⟨rfl, by simp⟩
  exact describes.run_eq_error_iff _ ⟨volume, options.directory, []⟩ remote problem

/-- A variable that is not declared, in a block that stays open. -/
def unfinished : List Token :=
  [.rule ['a'] 1, .atBlock "@media".toList "print".toList 2, .property ['k'] "$c".toList 3]

theorem unfinished_fails :
    (∀ token ∈ unfinished, ¬ token.IsLocalImport) ∧
      3 * unfinished.length < 10 ∧
      descendTokens 10 ⟨[], []⟩ ⟨⟨['.']⟩, false⟩ unfinished =
        some (.error (.undeclaredVariable "$c".toList 3)) ∧
      Survey.start.Fails ⟨['.']⟩ unfinished (.undeclaredVariable "$c".toList 3) ∧
      Survey.start.Fails ⟨['.']⟩ (unfinished.take 2) (.unclosedBlock 2) ∧
      ¬ Token.Bracketed (unfinished.take 2) := by
  have remote : ∀ token ∈ unfinished, ¬ token.IsLocalImport := by
    simp [unfinished, Token.IsLocalImport]
  have plain : ∀ token ∈ unfinished.take 2, token.IsPlain := by
    simp [unfinished, Token.IsPlain, Keyword.text]
  have whole := compileTokens_eq_error_iff_fails ⟨[], []⟩ ⟨⟨['.']⟩, false⟩ unfinished remote
  have part := compileTokens_eq_error_iff_fails ⟨[], []⟩ ⟨⟨['.']⟩, false⟩ (unfinished.take 2)
    fun token member => (plain token member).not_isLocalImport
  have undeclared : compileTokens ⟨[], []⟩ ⟨⟨['.']⟩, false⟩ unfinished =
      .error (.undeclaredVariable "$c".toList 3) := by
    decide +kernel
  have unclosed : compileTokens ⟨[], []⟩ ⟨⟨['.']⟩, false⟩ (unfinished.take 2) =
      .error (.unclosedBlock 2) := by
    decide +kernel
  obtain ⟨result, returned⟩ := Option.ne_none_iff_exists'.mp (whole.2.1 10 (by decide))
  refine ⟨remote, by decide, ?_, (whole.2.2.1 _).mp undeclared, (part.2.2.1 _).mp unclosed, ?_⟩
  · rw [returned, whole.1 10 result returned, undeclared]
  · rw [← part.2.2.2 plain, unclosed]
    rintro ⟨css, compiled⟩
    cases compiled

end Stylesheet
