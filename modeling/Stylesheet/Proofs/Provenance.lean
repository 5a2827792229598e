import Stylesheet.Proofs.Splicing

set_option autoImplicit false

namespace Stylesheet

/-- What is said of the stylesheet that is being read, of the one that is being compiled, both with
those that wait for it, and of the output. -/
structure Phase.Law where
  reading : List Task → Task → Prop
  working : List Task → Task → Prop
  output : Text → Prop

/-- A law in a phase. Nothing is said of a compilation that fails. -/
def Phase.Obeys (law : Phase.Law) (waiting : List Task) : Phase → Prop
  | .reading _ task => law.reading waiting task
  | .working task => law.working waiting task
  | .finished (.ok output) => law.output output.1
  | .failing _ | .finished (.error _) => True

namespace Session

variable {volume : Volume} {start s : Session} {law : Phase.Law}

/-- The beginning of a compilation, of a text or of a file that may be missing. -/
def Begins (start : Session) : Prop :=
  (∃ chain source directory, start = outermost chain source directory) ∨
    ∃ problem, start = ⟨[], [], .finished (.error problem)⟩

theorem ofText_begins (options : Options) (source : Text) : (ofText options source).Begins :=
  .inl ⟨[], source, options.directory, rfl⟩

theorem ofFile_begins (volume : Volume) (path : Path) : (ofFile volume path).Begins := by
  unfold ofFile
  cases Sheet.read volume path with
  | error problem => exact .inr ⟨problem, rfl⟩
  | ok sheet => exact .inl ⟨[sheet.path], sheet.source, sheet.directory, rfl⟩

/-- The steps of a compilation keep a law. -/
structure Keeps (volume : Volume) (start : Session) (law : Phase.Law) : Prop where
  begun : ∀ source directory, law.reading [] ⟨source, directory, .start .empty 0, []⟩
  divided : ∀ {s joining task tokens}, Reaches volume start s → s.phase = .reading joining task →
    law.reading s.waiting task → scan task.source = .ok tokens →
    law.working s.waiting { task with rest := tokens }
  stepped : ∀ {s task token rest p}, Reaches volume start s → s.phase = .working task →
    law.working s.waiting task → task.rest = token :: rest →
    task.progress.importTarget? token = none →
    task.progress.step (importing 0) ⟨volume, task.directory, s.chain⟩ token = .ok p →
    Reaches volume start ⟨s.chain, s.waiting, .working { task with progress := p, rest }⟩ →
    law.working s.waiting { task with progress := p, rest }
  entered : ∀ {s task token rest target sheet}, Reaches volume start s →
    s.phase = .working task → law.working s.waiting task → task.rest = token :: rest →
    task.progress.importTarget? token = some target →
    law.reading ({ task with rest } :: s.waiting)
      (.ofSheet sheet task.progress.scope task.progress.lineDepth)
  returned : ∀ {s task outer waiting output}, Reaches volume start s →
    s.phase = .working task → s.waiting = outer :: waiting →
    law.working (outer :: waiting) task → task.rest = [] → task.progress.finish = .ok output →
    law.working waiting { outer with progress := outer.progress.withImport output }
  ended : ∀ {task output}, law.working [] task → task.rest = [] →
    task.progress.finish = .ok output → law.output output.1

namespace Keeps

theorem move (keeps : Keeps volume start law) {t : Session} (reached : Reaches volume start s)
    (onward : Reaches volume start t) (moved : Move volume s t)
    (obeys : s.phase.Obeys law s.waiting) : t.phase.Obeys law t.waiting := by
  cases moved with
  | unreadable | refused | missed | unfinished | stopped | passed => trivial
  | @divided chain waiting joining task tokens read =>
    exact keeps.divided (s := ⟨chain, waiting, .reading joining task⟩) reached rfl obeys read
  | @stepped chain waiting task token rest p left other done =>
    exact keeps.stepped (s := ⟨chain, waiting, .working task⟩) reached rfl obeys left other done
      onward
  | entered left imports found => exact keeps.entered reached rfl obeys left imports
  | ended left done => exact keeps.ended obeys left done
  | returned left done => exact keeps.returned reached rfl rfl obeys left done

/-- What the steps keep holds in all of the course of a compilation. -/
theorem obeys (keeps : Keeps volume start law) (begins : start.Begins)
    (reached : Reaches volume start s) : s.phase.Obeys law s.waiting := by
  induction reached with
  | refl =>
    rcases begins with ⟨chain, source, directory, rfl⟩ | ⟨problem, rfl⟩
    · exact keeps.begun source directory
    · trivial
  | tail earlier stepped ih =>
    exact keeps.move earlier (earlier.tail stepped) (move_of_step stepped) ih

theorem working (keeps : Keeps volume start law) (begins : start.Begins)
    (reached : Reaches volume start s) {task : Task} (working : s.phase = .working task) :
    law.working s.waiting task := by
  have obeys := keeps.obeys begins reached
  rwa [working] at obeys

end Keeps

/-- The tokens of the texts that are read in a compilation. -/
def Tokens (volume : Volume) (start : Session) (token : Token) : Prop :=
  ∃ text tokens, start.Reads volume text ∧ scan text = .ok tokens ∧ token ∈ tokens

/-- The states of a compilation up to a number of steps. -/
def course (volume : Volume) : Nat → Session → List Session
  | 0, s => [s]
  | n + 1, s => s :: (s.step volume).elim [] (course volume n)

/-- A compilation that ends within a number of steps reaches no other states. -/
theorem mem_course {n : Nat} {t : Session} (ended : s.after volume n = none)
    (reached : Reaches volume s t) : t ∈ s.course volume n := by
  induction reached using Relation.ReflTransGen.head_induction_on generalizing n with
  | refl => cases n <;> exact List.mem_cons_self
  | head stepped _ ih =>
    cases n with
    | zero => cases ended
    | succ n =>
      rw [after, stepped] at ended
      rw [course, stepped]
      exact List.mem_cons_of_mem _ (ih ended)

def tokens (s : Session) : List Token :=
  (s.phase.text?.bind fun text => (scan text).toOption).getD []

theorem Tokens.mem_course {n : Nat} {token : Token} (ended : s.after volume n = none)
    (found : s.Tokens volume token) : token ∈ (s.course volume n).flatMap tokens := by
  obtain ⟨text, all, ⟨t, reached, isText⟩, divided, member⟩ := found
  refine List.mem_flatMap.mpr ⟨t, Session.mem_course ended reached, ?_⟩
  rw [tokens, isText, Option.bind_some, divided]
  exact member

end Session

open Session (Reaches Keeps)

variable {volume : Volume} {start s : Session} {task : Task}

/-- The tokens that are left are the last ones of a text that was read, and the ones before them
opened the blocks that are open. -/
structure Task.Sourced (volume : Volume) (start : Session) (task : Task) : Prop where
  read : start.Reads volume task.source
  divided : ∃ done, scan task.source = .ok (done ++ task.rest) ∧
    task.progress.Within (Token.openBlocks done)

namespace Task.Sourced

theorem tokens (sourced : task.Sourced volume start) {token : Token} (left : token ∈ task.rest) :
    start.Tokens volume token := by
  obtain ⟨done, divided, -⟩ := sourced.divided
  exact ⟨task.source, _, sourced.read, divided, List.mem_append_right done left⟩

theorem advance (sourced : task.Sourced volume start) {token : Token} {rest : List Token}
    {p : Progress} (left : task.rest = token :: rest)
    (within : ∀ opened, task.progress.Within opened → p.Within (Token.enclose opened token)) :
    Task.Sourced volume start { task with progress := p, rest } := by
  obtain ⟨done, divided, enclosed⟩ := sourced.divided
  refine ⟨sourced.read, done ++ [token], ?_, ?_⟩
  · rw [left] at divided
    rw [divided, List.append_assoc]
    rfl
  · unfold Token.openBlocks
    rw [List.foldl_append]
    exact within _ enclosed

end Task.Sourced

/-- An import opens and closes no block. -/
theorem Progress.enclose_of_import {p : Progress} {token : Token} {target : Path}
    (imports : p.importTarget? token = some target) (opened : List Token) :
    Token.enclose opened token = opened := by
  obtain ⟨-, notClose⟩ := Progress.nest_of_importTarget imports
  have notBlock : token.isBlock = false := by
    unfold importTarget? at imports
    cases token <;> first | rfl | (split at imports <;> cases imports)
  rw [Token.enclose, notBlock, notClose]
  rfl

def Session.sourcedLaw (volume : Volume) (start : Session) : Phase.Law where
  reading waiting task :=
    task.progress.Within [] ∧ ∀ outer ∈ waiting, outer.Sourced volume start
  working waiting task :=
    task.Sourced volume start ∧ ∀ outer ∈ waiting, outer.Sourced volume start
  output _ := True

theorem Session.keeps_sourced : Keeps volume start (sourcedLaw volume start) where
  begun source directory := ⟨Progress.start_within _ _, by simp⟩
  divided reached reading obeys read :=
    ⟨⟨⟨_, reached, by rw [reading]; rfl⟩, [], read, obeys.1⟩, obeys.2⟩
  stepped _ _ obeys left _ done _ :=
    ⟨obeys.1.advance left fun _ within => within.step done, obeys.2⟩
  entered _ _ obeys left imports :=
    ⟨Progress.start_within _ _, List.forall_mem_cons.mpr
      ⟨obeys.1.advance left fun _ within => by
        rwa [Progress.enclose_of_import imports], obeys.2⟩⟩
  returned _ _ _ obeys _ _ :=
    have waiting := List.forall_mem_cons.mp obeys.2
    ⟨⟨waiting.1.read, waiting.1.divided⟩, waiting.2⟩
  ended _ _ _ := trivial

theorem Session.Begins.sourced (begins : start.Begins) (reached : Reaches volume start s)
    (working : s.phase = .working task) : task.Sourced volume start :=
  (keeps_sourced.working begins reached working).1

/-- A token that imports no file does what the two phases do. -/
theorem Progress.step_eq_ok {p q : Progress} {token : Token} {importer : Importer}
    {setting : Setting} (other : p.importTarget? token = none)
    (done : p.step importer setting token = .ok q) :
    ∃ resolved,
      p.resolver.step setting.volume setting.directory token = .ok (q.resolver, resolved) ∧
      resolved.foldlM Drafts.step p.drafts = some q.drafts := by
  have remote : ¬ token.IsLocalImport := by
    cases defining : p.definition with
    | none => exact not_isLocalImport defining other
    | some t =>
      -- Inside the definition of a trait every at-rule is refused.
      cases token with
      | statement =>
        simp only [step, defining] at done
        cases done
      | rule | atBlock | property | comment | close => exact id
  have views := step_view importer setting p token remote
  rw [done] at views
  obtain ⟨⟨r, resolved⟩, stepped, same⟩ := Option.bind_eq_some_iff.mp views.symm
  obtain ⟨d, folded, viewed⟩ := Option.map_eq_some_iff.mp same
  cases viewed
  refine ⟨resolved, ?_, folded⟩
  cases result : p.resolver.step setting.volume setting.directory token with
  | error problem => rw [result] at stepped; cases stepped
  | ok value =>
    rw [result] at stepped
    exact congrArg Except.ok (Option.some.inj stepped)

theorem Progress.finish_eq_ok {p : Progress} {output : Text × Scope}
    (done : p.finish = .ok output) :
    p.blocks = [] ∧ output = (p.draft.body, p.scope) := by
  unfold finish at done
  split at done
  · cases done
  · cases done
  · rename_i empty
    cases done
    exact ⟨empty, rfl⟩

/-- What is said of the values of variables and of the declarations in traits. -/
structure Scope.Law where
  value : Text → Prop
  body : Declaration → Prop

def Variables.Obey (law : Scope.Law) (vars : Variables) : Prop :=
  ∀ name value, vars.get? name = some value → law.value value

/-- What a token adds to the variables and traits obeys a law if what is there does. -/
structure Scope.Law.Allows (law : Scope.Law) (token : Token) : Prop where
  body : ∀ key value line, token = .property key value line → law.body ⟨key, value⟩
  value : ∀ params line, token = .statement Keyword.declare.text params line →
    ∀ vars : Variables, vars.Obey law →
      vars.missing? (Text.trim (params.dropWhile (!Text.isBlank ·))) = none →
      law.value (vars.fill (Text.trim (params.dropWhile (!Text.isBlank ·))))

structure Resolver.Obeys (law : Scope.Law) (r : Resolver) : Prop where
  values : r.scope.bindings.Obey law
  bodies : ∀ definition ∈ r.scope.traits.definitions, ∀ d ∈ definition.body, law.body d
  collected : ∀ t ∈ r.definition, ∀ d ∈ t.body, law.body d

theorem Variables.substitute_eq_ok {vars : Variables} {line : Nat} {text value : Text}
    (done : vars.substitute line text = .ok value) :
    vars.missing? text = none ∧ value = vars.fill text := by
  rw [substitute_eq_elim] at done
  obtain ⟨found, rfl⟩ := elim_eq_ok done
  exact ⟨Option.map_eq_none_iff.mp found, rfl⟩

namespace Variables.Obey

variable {law : Scope.Law} {vars : Variables}

theorem empty : Variables.empty.Obey law := by
  intro name value found
  cases found

theorem set (obey : vars.Obey law) (name : Text) {value : Text} (fits : law.value value) :
    (vars.set name value).Obey law := by
  intro other result found
  change ((name, value) :: vars.bindings).lookup other = some result at found
  rw [List.lookup_cons] at found
  split at found
  · cases found
    exact fits
  · exact obey other result found

end Variables.Obey

namespace Resolver.Obeys

variable {law : Scope.Law} {r next : Resolver} {token : Token} {directory : Path}

theorem empty : Resolver.start.Obeys law :=
  ⟨.empty, by simp [Resolver.start, Scope.empty, Traits.empty], by simp [Resolver.start]⟩

theorem declare {params : Text} {line : Nat} {scope : Scope} {name : Text}
    (obeys : r.Obeys law) (allowed : law.Allows (.statement name params line))
    (isDeclare : name = Keyword.declare.text)
    (declared : r.scope.declare params line = .ok scope) :
    Resolver.Obeys law { r with scope } := by
  subst isDeclare
  unfold Scope.declare at declared
  dsimp only at declared
  split at declared
  · cases declared
    exact obeys
  · split at declared
    · cases declared
    · obtain ⟨value, substituted, rfl⟩ := exists_of_map_eq_ok declared
      obtain ⟨found, rfl⟩ := Variables.substitute_eq_ok substituted
      have fits := allowed.value params line rfl _ obeys.values found
      exact ⟨obeys.values.set _ fits, obeys.bodies, obeys.collected⟩

/-- Variables and traits go on obeying a law with a token that it allows. -/
theorem step {resolved : List Resolved} (obeys : r.Obeys law) (allowed : law.Allows token)
    (done : r.step volume directory token = .ok (next, resolved)) : next.Obeys law := by
  cases Resolver.Advance.of_step done with
  | @collect t key value line defining =>
    refine ⟨obeys.values, obeys.bodies, fun t isOpen => ?_⟩
    cases isOpen
    simp only [List.forall_mem_append, List.forall_mem_singleton]
    exact ⟨obeys.collected _ defining, allowed.body key value line rfl⟩
  | define defining =>
    have collected := obeys.collected _ defining
    exact ⟨obeys.values, List.forall_mem_cons.mpr ⟨collected, obeys.bodies⟩, by simp⟩
  | openTrait => exact ⟨obeys.values, obeys.bodies, by simp⟩
  | declare _ isDeclare declared => exact obeys.declare allowed isDeclare declared
  | openRule | openAtRule | mixIn | load | keep | resolve | comment | close => exact obeys

end Resolver.Obeys

def Session.scopeLaw (law : Scope.Law) : Phase.Law where
  reading waiting task :=
    task.progress.resolver.Obeys law ∧ ∀ outer ∈ waiting, outer.progress.resolver.Obeys law
  working waiting task :=
    task.progress.resolver.Obeys law ∧ ∀ outer ∈ waiting, outer.progress.resolver.Obeys law
  output _ := True

/-- If a law allows all tokens, then variables and traits obey it at all times. -/
theorem Session.keeps_scopeLaw {law : Scope.Law} (begins : start.Begins)
    (allowed : ∀ token, start.Tokens volume token → law.Allows token) :
    Keeps volume start (scopeLaw law) where
  begun source directory := ⟨.empty, by simp⟩
  divided _ _ obeys _ := obeys
  stepped reached working obeys left other done _ := by
    have next := (begins.sourced reached working).tokens (by rw [left]; exact List.mem_cons_self)
    obtain ⟨resolved, stepped, -⟩ := Progress.step_eq_ok other done
    exact ⟨obeys.1.step (allowed _ next) stepped, obeys.2⟩
  entered _ _ obeys _ _ :=
    ⟨⟨obeys.1.values, obeys.1.bodies, by simp [Task.ofSheet, Progress.start, Progress.resolver]⟩,
      List.forall_mem_cons.mpr ⟨obeys.1, obeys.2⟩⟩
  returned _ _ _ obeys _ done := by
    have waiting := List.forall_mem_cons.mp obeys.2
    obtain ⟨-, rfl⟩ := Progress.finish_eq_ok done
    exact ⟨⟨obeys.1.values, obeys.1.bodies, waiting.1.collected⟩, waiting.2⟩
  ended _ _ _ := trivial

theorem Session.Begins.obeys {law : Scope.Law} (begins : start.Begins)
    (allowed : ∀ token, start.Tokens volume token → law.Allows token)
    (reached : Reaches volume start s) (working : s.phase = .working task) :
    task.progress.resolver.Obeys law :=
  ((keeps_scopeLaw begins allowed).working begins reached working).1

end Stylesheet
