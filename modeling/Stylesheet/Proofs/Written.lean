import Stylesheet.Proofs.Placeholders

set_option autoImplicit false

namespace Stylesheet

/-- The open blocks, innermost first, with the places inside of them and outside of them all. In the
body of a rule a selector is in force, and outside of all blocks there is none. -/
inductive Seats : List Token → List Place → Prop
  | top (depth : Nat) : Seats [] [⟨none, depth⟩]
  | block {token : Token} {opened : List Token} {place : Place} {places : List Place}
      (selects : token.isRule → place.selector.isSome) (outer : Seats opened places) :
      Seats (token :: opened) (place :: places)

theorem Seats.tail {opened : List Token} {place next : Place} {places : List Place}
    (seats : Seats opened (place :: next :: places)) : Seats opened.tail (next :: places) := by
  cases seats with
  | block _ outer => exact outer

theorem Seats.selector_eq_none {opened : List Token} {place : Place}
    (seats : Seats opened [place]) : place.selector = none := by
  cases seats with
  | top => rfl
  | block _ outer => cases outer

namespace Progress

variable {importer : Importer} {setting : Setting} {p q : Progress} {token : Token}
variable {opened : List Token}

def places (p : Progress) : List Place := (p.draft :: p.blocks.map OpenBlock.outer).map Draft.place

/-- Some tokens have opened the blocks that are open. If a trait is being defined, the last of them
began its definition, and is no rule. -/
def Seated (opened : List Token) (p : Progress) : Prop :=
  match p.definition with
  | none => Seats opened p.places
  | some _ => ∃ token outer, opened = token :: outer ∧ token.isRule = false ∧ Seats outer p.places

theorem start_seated (scope : Scope) (depth : Nat) : (start scope depth).Seated [] := .top depth

theorem Seated.seats (seated : p.Seated opened) (outside : p.definition = none) :
    Seats opened p.places := by
  rwa [Seated, outside] at seated

theorem Seated.exists_seats (seated : p.Seated opened) : ∃ blocks, Seats blocks p.places := by
  unfold Seated at seated
  split at seated
  · exact ⟨_, seated⟩
  · obtain ⟨_, outer, -, -, seats⟩ := seated
    exact ⟨outer, seats⟩

theorem Seated.withImport (seated : p.Seated opened) (output : Text × Scope) :
    (p.withImport output).Seated opened := seated

theorem Seated.step (seated : p.Seated opened) (done : p.step importer setting token = .ok q) :
    q.Seated (Token.enclose opened token) := by
  cases Advance.of_step done with
  | collect defining => rwa [Seated, defining] at seated
  | define defining =>
    rw [Seated, defining] at seated
    obtain ⟨token, outer, rfl, -, seats⟩ := seated
    exact seats
  | add outside opensNone closesNone added =>
    rw [Token.enclose, opensNone, closesNone]
    exact seated.withImport _
  | openRule outside =>
    have seats := seated.seats outside
    unfold Seated openRule openBlock
    rw [outside]
    refine .block (fun _ => ?_) seats
    simp only [Draft.start, Place.insideRule]
    split <;> rfl
  | openTrait outside named => exact ⟨_, _, rfl, rfl, seated.seats outside⟩
  | openAtRule outside other =>
    have seats := seated.seats outside
    unfold Seated openAtRule openBlock
    rw [outside]
    exact .block (fun isRule => by cases isRule) seats
  | @closeBlock line block rest outside blocks =>
    have seats := seated.seats outside
    unfold Seated
    rw [outside]
    rw [places, blocks] at seats
    rw [places, List.map_cons, Draft.writeBlock_place]
    exact seats.tail

/-- In the body of a rule no trait is being defined, and lines are indented. -/
theorem Seated.inRule {outer : List Token} (seated : p.Seated (token :: outer))
    (isRule : token.isRule) : p.definition = none ∧ p.lineDepth ≠ 0 := by
  cases defining : p.definition with
  | some t =>
    rw [Seated, defining] at seated
    obtain ⟨_, _, same, other, -⟩ := seated
    obtain ⟨rfl, -⟩ := List.cons.inj same
    rw [isRule] at other
    cases other
  | none =>
    have seats := seated.seats defining
    generalize whole : p.places = places at seats
    cases seats with
    | block selects =>
      obtain ⟨rfl, -⟩ := List.cons.inj whole
      simp [lineDepth, Place.lineDepth, selects isRule]

end Progress

open Session (Reaches Keeps)

variable {volume : Volume} {start s : Session} {task : Task}

/-- The tokens of a stylesheet that are compiled have opened its blocks. -/
def Task.Seated (task : Task) : Prop :=
  ∃ done, scan task.source = .ok (done ++ task.rest) ∧
    task.progress.Seated (Token.openBlocks done)

theorem Task.Seated.advance (seated : task.Seated) {token : Token} {rest : List Token}
    {p : Progress} (left : task.rest = token :: rest)
    (step : ∀ opened, task.progress.Seated opened → p.Seated (Token.enclose opened token)) :
    Task.Seated { task with progress := p, rest } := by
  obtain ⟨done, divided, blocks⟩ := seated
  refine ⟨done ++ [token], ?_, ?_⟩
  · rw [left] at divided
    rw [divided, List.append_assoc]
    rfl
  · rw [Token.openBlocks, List.foldl_append]
    exact step _ blocks

def Session.seatedLaw : Phase.Law where
  reading waiting task := task.progress.Seated [] ∧ ∀ outer ∈ waiting, outer.Seated
  working waiting task := task.Seated ∧ ∀ outer ∈ waiting, outer.Seated
  output _ := True

theorem Session.keeps_seated : Keeps volume start seatedLaw where
  begun source directory := ⟨Progress.start_seated _ _, by simp⟩
  divided _ _ obeys read := ⟨⟨[], read, obeys.1⟩, obeys.2⟩
  stepped _ _ obeys left _ done _ :=
    ⟨obeys.1.advance left fun _ seated => seated.step done, obeys.2⟩
  entered _ _ obeys left imports :=
    ⟨Progress.start_seated _ _, List.forall_mem_cons.mpr ⟨obeys.1.advance left fun _ seated => by
      rwa [Progress.enclose_of_import imports], obeys.2⟩⟩
  returned _ _ _ obeys _ _ :=
    have waiting := List.forall_mem_cons.mp obeys.2
    ⟨waiting.1, waiting.2⟩
  ended _ _ _ := trivial

theorem Session.Begins.seated (begins : start.Begins) (reached : Reaches volume start s)
    (working : s.phase = .working task) : task.Seated :=
  (keeps_seated.working begins reached working).1

/-- A text stands in a draft, and will be printed with it. -/
def Draft.Has (x : Text) (draft : Draft) : Prop :=
  x <:+: draft.body ∨ draft.place.selector.isSome ∧ x <:+: draft.below

theorem Layout.infix_braces (header body : Text) (depth : Nat) :
    body <:+: braces header body depth :=
  ⟨indent depth ++ header ++ [' ', '{'], indent depth ++ ['}'], by simp [braces]⟩

section

variable {x : Text}

namespace Draft.Has

variable {draft : Draft}

theorem write (has : draft.Has x) (text : Text) : (draft.write text).Has x :=
  has.imp_left (·.trans (List.prefix_append _ _).isInfix)

theorem writeBlock (has : draft.Has x) (text : Text) : (draft.writeBlock text).Has x := by
  unfold Draft.writeBlock
  split
  · exact has.imp_right fun below => ⟨below.1, below.2.trans (List.prefix_append _ _).isInfix⟩
  · exact has.write text

theorem of_write (draft : Draft) {text : Text} (inside : x <:+: text) : (draft.write text).Has x :=
  .inl (inside.trans (List.suffix_append _ _).isInfix)

theorem of_writeBlock (draft : Draft) {text : Text} (inside : x <:+: text) :
    (draft.writeBlock text).Has x := by
  unfold Draft.writeBlock
  split
  · rename_i selects
    exact .inr ⟨selects, inside.trans (List.suffix_append _ _).isInfix⟩
  · exact of_write draft inside

/-- What is not blank is printed with the block, for a rule without declarations is left out. -/
theorem render (has : draft.Has x) (visible : ∃ c ∈ x, Text.isBlank c = false)
    (heading : Heading) : x <:+: draft.render heading := by
  have blocked (selector : Text) : x <:+: Layout.block selector draft.body draft.place.depth ++
      draft.below := by
    rcases has with inside | ⟨-, below⟩
    · exact (inside.trans (Layout.infix_braces _ _ _)).trans (List.prefix_append _ _).isInfix
    · exact below.trans (List.suffix_append _ _).isInfix
  cases heading with
  | rule => exact blocked _
  | atRule header =>
    refine List.IsInfix.trans ?_ ((Layout.infix_braces header _ _).trans
      (List.prefix_append _ _).isInfix)
    cases selects : draft.place.selector with
    | none =>
      rcases has with inside | ⟨selected, -⟩
      · exact inside
      · rw [selects] at selected
        cases selected
    | some selector =>
      dsimp only
      split
      · rename_i blank
        rcases has with inside | ⟨-, below⟩
        · obtain ⟨c, member, shown⟩ := visible
          have := (Text.trim_eq_nil_iff _).mp blank c (inside.subset member)
          rw [shown] at this
          cases this
        · exact below
      · exact blocked selector

end Draft.Has

namespace Progress

/-- A text stands in the draft of an open block, or outside of all. -/
def Has (x : Text) (p : Progress) : Prop :=
  ∃ draft ∈ p.draft :: p.blocks.map OpenBlock.outer, draft.Has x

variable {importer : Importer} {setting : Setting} {p q : Progress} {token : Token}

theorem Has.withImport (has : p.Has x) (output : Text × Scope) : (p.withImport output).Has x := by
  obtain ⟨draft, member, inside⟩ := has
  rcases List.mem_cons.mp member with rfl | outer
  · exact ⟨_, List.mem_cons_self, inside.write output.1⟩
  · exact ⟨draft, List.mem_cons_of_mem _ outer, inside⟩

theorem Has.openBlock (has : p.Has x) (heading : Heading) (place : Place) (line : Nat) :
    (p.openBlock heading place line).Has x := by
  obtain ⟨draft, member, inside⟩ := has
  exact ⟨draft, List.mem_cons_of_mem _ member, inside⟩

theorem Has.step (has : p.Has x) (visible : ∃ c ∈ x, Text.isBlank c = false)
    (done : p.step importer setting token = .ok q) : q.Has x := by
  cases Advance.of_step done with
  | collect | define | openTrait => exact has
  | add => exact has.withImport _
  | openRule | openAtRule => exact has.openBlock _ _ _
  | @closeBlock line block rest outside blocks =>
    obtain ⟨draft, member, inside⟩ := has
    rw [blocks, List.map_cons] at member
    rcases List.mem_cons.mp member with rfl | outer
    · exact ⟨_, List.mem_cons_self, .of_writeBlock _ (inside.render visible _)⟩
    · rcases List.mem_cons.mp outer with rfl | further
      · exact ⟨_, List.mem_cons_self, inside.writeBlock _⟩
      · exact ⟨draft, List.mem_cons_of_mem _ further, inside⟩

/-- Outside of all blocks nothing is printed below. -/
theorem Has.finish (has : p.Has x) {opened : List Token} (seated : p.Seated opened)
    {output : Text × Scope} (done : p.finish = .ok output) : x <:+: output.1 := by
  obtain ⟨closed, rfl⟩ := finish_eq_ok done
  obtain ⟨draft, member, inside⟩ := has
  rw [closed, List.map_nil, List.mem_singleton] at member
  subst member
  obtain ⟨opened, seats⟩ := seated.exists_seats
  rcases inside with inside | ⟨selected, -⟩
  · exact inside
  · rw [places, closed] at seats
    rw [seats.selector_eq_none] at selected
    cases selected

end Progress

/-- A text stands in a draft of a stylesheet that is being compiled, or in the result. -/
def Phase.Has (x : Text) (waiting : List Task) : Phase → Prop
  | .reading _ task | .working task => ∃ t ∈ task :: waiting, t.progress.Has x
  | .finished (.ok output) => x <:+: output.1
  | .failing _ | .finished (.error _) => True

theorem Session.has_of_move {t : Session} (visible : ∃ c ∈ x, Text.isBlank c = false)
    (seated : s.phase.Obeys seatedLaw s.waiting) (moved : Move volume s t)
    (has : s.phase.Has x s.waiting) : t.phase.Has x t.waiting := by
  cases moved with
  | unreadable | refused | missed | unfinished | stopped | passed => trivial
  | divided read =>
    obtain ⟨one, member, inside⟩ := has
    rcases List.mem_cons.mp member with rfl | outer
    · exact ⟨_, List.mem_cons_self, inside⟩
    · exact ⟨one, List.mem_cons_of_mem _ outer, inside⟩
  | stepped left other done =>
    obtain ⟨one, member, inside⟩ := has
    rcases List.mem_cons.mp member with rfl | outer
    · exact ⟨_, List.mem_cons_self, inside.step visible done⟩
    · exact ⟨one, List.mem_cons_of_mem _ outer, inside⟩
  | entered left imports found =>
    obtain ⟨one, member, inside⟩ := has
    rcases List.mem_cons.mp member with rfl | outer
    · exact ⟨_, List.mem_cons_of_mem _ List.mem_cons_self, inside⟩
    · exact ⟨one, List.mem_cons_of_mem _ (List.mem_cons_of_mem _ outer), inside⟩
  | ended left done =>
    obtain ⟨one, member, inside⟩ := has
    obtain rfl := List.mem_singleton.mp member
    obtain ⟨⟨_, -, blocks⟩, -⟩ := seated
    exact inside.finish blocks done
  | returned left done =>
    obtain ⟨one, member, inside⟩ := has
    rcases List.mem_cons.mp member with rfl | outer
    · obtain ⟨⟨_, -, blocks⟩, -⟩ := seated
      exact ⟨_, List.mem_cons_self, _, List.mem_cons_self, .of_write _ (inside.finish blocks done)⟩
    · rcases List.mem_cons.mp outer with rfl | further
      · exact ⟨_, List.mem_cons_self, inside.withImport _⟩
      · exact ⟨one, List.mem_cons_of_mem _ further, inside⟩

/-- What stands in a draft stands in the output. -/
theorem Session.infix_of_reaches (begins : start.Begins) (reached : Reaches volume start s)
    {chain : List Path} {raw : Text} {scope : Scope}
    (ends : Reaches volume s ⟨chain, [], .finished (.ok (raw, scope))⟩)
    (visible : ∃ c ∈ x, Text.isBlank c = false) (has : s.phase.Has x s.waiting) :
    x <:+: raw := by
  induction ends using Relation.ReflTransGen.head_induction_on with
  | refl => exact has
  | head first _ ih =>
    have seated := keeps_seated.obeys begins reached
    exact ih (reached.tail first) (has_of_move visible seated (move_of_step first) has)

end

section

variable {text : Text} {token : Token} {after : List Token}

def Task.Awaits (text : Text) (token : Token) (after : List Token) (task : Task) : Prop :=
  task.source = text ∧ ∃ before, task.rest = before ++ token :: after

/-- The first token that is left is the one, or the one is left after it. -/
theorem Task.Awaits.cons {first : Token} {rest : List Token} {p : Progress}
    (awaits : task.Awaits text token after) (left : task.rest = first :: rest) :
    first = token ∧ rest = after ∨
      Task.Awaits text token after { task with progress := p, rest } := by
  obtain ⟨same, before, split⟩ := awaits
  rw [left] at split
  cases before with
  | nil => exact .inl (List.cons.inj split)
  | cons other before => exact .inr ⟨same, before, (List.cons.inj split).2⟩

theorem Task.Awaits.ne_nil (awaits : task.Awaits text token after) :
    task.rest ≠ [] := by
  obtain ⟨-, before, split⟩ := awaits
  rw [split]
  simp

/-- Whether a text is being read, or a token of it is left. -/
def Phase.Awaits (text : Text) (token : Token) (after : List Token) : Phase → Prop
  | .reading _ task => task.source = text
  | .working task => task.Awaits text token after
  | .failing _ | .finished _ => False

namespace Session

/-- The same of a stylesheet that is being compiled, or of one that waits for an import. -/
def Awaits (text : Text) (token : Token) (after : List Token) (s : Session) : Prop :=
  s.phase.Awaits text token after ∨ ∃ outer ∈ s.waiting, outer.Awaits text token after

/-- All that is reached is on the way to the end. -/
theorem reaches_of_reaches {last : Session} (reached : Reaches volume start s)
    (ends : Reaches volume start last) (final : last.step volume = none) :
    Reaches volume s last := by
  have unique : Relator.RightUnique fun s t : Session => s.step volume = some t :=
    fun _ _ _ first second => Option.some.inj (first.symm.trans second)
  rcases Relation.ReflTransGen.total_of_right_unique unique reached ends with onward | back
  · exact onward
  · rcases Relation.ReflTransGen.cases_head back with rfl | ⟨_, stepped, -⟩
    · exact .refl
    · rw [final] at stepped
      cases stepped

/-- A compilation that fails has no output. -/
theorem not_reaches_of_failing {chain last : List Path} {waiting : List Task} {problem : Problem}
    {output : Text × Scope} :
    ¬ Reaches volume ⟨chain, waiting, .failing problem⟩ ⟨last, [], .finished (.ok output)⟩ := by
  intro ends
  obtain ⟨_, fails⟩ := @failing_reaches volume chain waiting problem
  cases eq_of_reaches ends fails rfl rfl

/-- A token that a text has is left, until it is compiled. -/
theorem Awaits.move {t : Session} {before : List Token}
    (awaits : s.Awaits text token after) (divided : scan text = .ok (before ++ token :: after))
    (loads : token.importTarget? = none) (moved : Move volume s t)
    (going : ∀ problem, t.phase ≠ .failing problem) :
    t.Awaits text token after ∨
      ∃ task next, s.phase = .working task ∧ t.phase = .working next ∧ task.source = text ∧
        task.rest = token :: after ∧ next.rest = after := by
  cases moved with
  | unreadable | refused | missed | unfinished | passed => exact absurd rfl (going _)
  | stopped => exact awaits.elim False.elim fun ⟨_, member, _⟩ => nomatch member
  | divided read =>
    rcases awaits with same | outer
    · obtain rfl : _ = text := same
      rw [read] at divided
      exact .inl (.inl ⟨rfl, before, Except.ok.inj divided⟩)
    · exact .inl (.inr outer)
  | @stepped chain waiting task first rest p left other done =>
    rcases awaits with awaited | outer
    · rcases awaited.cons (p := p) left with ⟨rfl, rfl⟩ | later
      · exact .inr ⟨_, _, rfl, rfl, awaited.1, left, rfl⟩
      · exact .inl (.inl later)
    · exact .inl (.inr outer)
  | @entered chain waiting task first rest target sheet left imports found =>
    refine .inl (.inr ?_)
    rcases awaits with awaited | ⟨outer, member, awaited⟩
    · rcases awaited.cons (p := task.progress) left with ⟨rfl, rfl⟩ | later
      · unfold Progress.importTarget? at imports
        split at imports
        · cases imports
        · rw [loads] at imports
          cases imports
      · exact ⟨_, List.mem_cons_self, later⟩
    · exact ⟨outer, List.mem_cons_of_mem _ member, awaited⟩
  | ended left done =>
    rcases awaits with awaited | ⟨outer, member, -⟩
    · exact absurd left awaited.ne_nil
    · cases member
  | returned left done =>
    rcases awaits with awaited | ⟨outer, member, awaited⟩
    · exact absurd left awaited.ne_nil
    · rcases List.mem_cons.mp member with rfl | further
      · exact .inl (.inl awaited)
      · exact .inl (.inr ⟨outer, further, awaited⟩)

/-- Every token of a text that is read is compiled, if the compilation has an output. -/
theorem Awaits.taken {before : List Token} {chain : List Path} {output : Text × Scope}
    (awaits : s.Awaits text token after) (divided : scan text = .ok (before ++ token :: after))
    (loads : token.importTarget? = none)
    (ends : Reaches volume s ⟨chain, [], .finished (.ok output)⟩) :
    ∃ u t task next, Reaches volume s u ∧ u.step volume = some t ∧
      Reaches volume t ⟨chain, [], .finished (.ok output)⟩ ∧ u.phase = .working task ∧
      t.phase = .working next ∧ task.source = text ∧ task.rest = token :: after ∧
      next.rest = after := by
  induction ends using Relation.ReflTransGen.head_induction_on with
  | refl => exact awaits.elim False.elim fun ⟨_, member, _⟩ => nomatch member
  | @head u t first later ih =>
    have going : ∀ problem, t.phase ≠ .failing problem := by
      rintro problem failing
      obtain ⟨_, _, phase⟩ := t
      subst failing
      exact not_reaches_of_failing later
    rcases awaits.move divided loads (move_of_step first) going with awaited | taken
    · obtain ⟨u', t', task, next, reached, facts⟩ := ih awaited
      exact ⟨u', t', task, next, .head first reached, facts⟩
    · obtain ⟨task, next, working, worked, facts⟩ := taken
      exact ⟨u, t, task, next, .refl, first, later, working, worked, facts⟩

/-- A token in the body of a rule is compiled, and what it writes stands in the output. -/
theorem Reads.taken (reads : start.Reads volume text) (begins : start.Begins) {raw : Text}
    (outputs : start.Outputs volume raw) {before outer : List Token} {opener : Token}
    (divided : scan text = .ok (before ++ token :: after)) (loads : token.importTarget? = none)
    (opened : Token.openBlocks before = opener :: outer) (isRule : opener.isRule) :
    ∃ task next, start.Takes volume task token next ∧ task.source = text ∧
      task.rest = token :: after ∧ task.progress.lineDepth ≠ 0 ∧
      ∀ x : Text, (∃ c ∈ x, Text.isBlank c = false) → next.progress.Has x → x <:+: raw := by
  obtain ⟨s, reached, reading⟩ := reads
  obtain ⟨chain, scope, ends⟩ := outputs
  have awaits : s.Awaits text token after := by
    refine .inl ?_
    unfold Phase.text? at reading
    split at reading
    · rename_i phase
      rw [phase]
      exact Option.some.inj reading
    · cases reading
    · cases reading
    · cases reading
  obtain ⟨u, t, task, next, later, first, onward, working, worked, same, left, left'⟩ :=
    awaits.taken divided loads (reaches_of_reaches reached ends rfl)
  have reached' := reached.trans later
  obtain ⟨done, divided', seated⟩ := begins.seated reached' working
  have front : done = before := by
    rw [same, left, divided] at divided'
    exact (List.append_cancel_right (Except.ok.inj divided')).symm
  rw [front, opened] at seated
  obtain ⟨outside, deep⟩ := seated.inRule isRule
  refine ⟨task, next, ⟨u, t, reached', first, working, worked, left'.symm ▸ left, outside⟩, same,
    left, deep, fun x visible has => ?_⟩
  refine infix_of_reaches begins (reached'.tail first) onward visible ?_
  rw [worked]
  exact ⟨next, List.mem_cons_self, has⟩

end Session

end

end Stylesheet
