import Mathlib.Logic.Relation
import Stylesheet.Compile
import Stylesheet.Proofs.CanonicalPaths

set_option autoImplicit false

namespace Stylesheet

def Token.importTarget? : Token → Option Path
  | statement name params _ =>
    if name = Keyword.load.text then
      match ImportSource.ofText params with
      | .file path => some path
      | .address _ => none
    else none
  | _ => none

namespace Progress

/-- The file that is imported at a token. Inside the definition of a trait there is none. -/
def importTarget? (p : Progress) (token : Token) : Option Path :=
  match p.definition with
  | some _ => none
  | none => token.importTarget?

def withImport (p : Progress) (imported : Text × Scope) : Progress :=
  { p with scope := imported.2 }.write imported.1

theorem step_import {p : Progress} {token : Token} {target : Path}
    (imports : p.importTarget? token = some target) (importer : Importer) (setting : Setting) :
    p.step importer setting token =
      (importer setting target token.line p.lineDepth p.scope).map p.withImport := by
  unfold importTarget? at imports
  unfold step
  cases definition : p.definition with
  | some t => rw [definition] at imports; cases imports
  | none =>
    rw [definition] at imports
    cases token with
    | statement name params line =>
      simp only [Token.importTarget?] at imports
      split at imports
      · rename_i isLoad
        subst isLoad
        cases source : ImportSource.ofText params with
        | address url => rw [source] at imports; cases imports
        | file path =>
          rw [source] at imports
          cases imports
          simp only [statement, Keyword.text, List.cons.injEq, Char.reduceEq,
            ↓reduceIte, load, source, Token.line]
          cases importer setting target line p.lineDepth p.scope <;> rfl
      · cases imports
    | rule | atBlock | property | comment | close => cases imports

/-- Where no file is imported, the importer does not count. -/
theorem step_other {p : Progress} {token : Token} (other : p.importTarget? token = none)
    (importer importer' : Importer) (setting : Setting) :
    p.step importer setting token = p.step importer' setting token := by
  unfold importTarget? at other
  unfold step
  cases definition : p.definition with
  | some t => rfl
  | none =>
    rw [definition] at other
    cases token with
    | statement name params line =>
      simp only [Token.importTarget?] at other
      split at other
      · cases source : ImportSource.ofText params with
        | file path => rw [source] at other; cases other
        | address url => simp only [statement, load, source]
      · rename_i notLoad
        simp only [statement, notLoad, ↓reduceIte]
    | rule | atBlock | property | comment | close => rfl

end Progress

structure Task where
  source : Text
  directory : Path
  progress : Progress
  /-- The tokens that are left. -/
  rest : List Token
  deriving DecidableEq, Repr

namespace Task

/-- A stylesheet at its beginning, before its text is divided into tokens. -/
def ofSheet (sheet : Sheet) (scope : Scope) (depth : Nat) : Task :=
  ⟨sheet.source, sheet.directory, .start scope depth, []⟩

end Task

inductive Phase where
  /-- The text of a stylesheet is divided into tokens. Then a file may join the chain. -/
  | reading (joining : Option Path) (task : Task)
  | working (task : Task)
  /-- The innermost stylesheet cannot be compiled. -/
  | failing (problem : Problem)
  | finished (result : Except Problem (Text × Scope))

/-- A compilation between two steps. A file that is imported joins the chain when its text has been
divided into tokens, and leaves it when it is compiled or has failed. Nothing bounds how deep
imports are nested. -/
structure Session where
  /-- The files that are being compiled, innermost first. -/
  chain : List Path
  /-- The stylesheets that wait for an import, innermost first. -/
  waiting : List Task
  phase : Phase

namespace Session

/-- A text that is imported by no other, at its beginning. -/
def outermost (chain : List Path) (source : Text) (directory : Path) : Session :=
  ⟨chain, [], .reading none ⟨source, directory, .start .empty 0, []⟩⟩

def ofText (options : Options) (source : Text) : Session := outermost [] source options.directory

/-- The beginning of the compilation of a file, which is in the chain from the start. -/
def ofFile (volume : Volume) (path : Path) : Session :=
  match Sheet.read volume path with
  | .error problem => ⟨[], [], .finished (.error problem)⟩
  | .ok sheet => outermost [sheet.path] sheet.source sheet.directory

def fail (s : Session) (problem : Problem) : Session := { s with phase := .failing problem }

def work (s : Session) (task : Task) : Session := { s with phase := .working task }

/-- Goes on with a result, or fails with its problem. -/
def orFail {α : Type} (s : Session) (result : Except Problem α) (go : α → Session) : Session :=
  match result with
  | .error problem => s.fail problem
  | .ok value => go value

/-- Divides a text into tokens. If that fails, so does the stylesheet that imports it. -/
def read (s : Session) (joining : Option Path) (task : Task) : Session :=
  match scan task.source with
  | .error error => ⟨s.chain, s.waiting.tail, .failing (.scan error)⟩
  | .ok tokens => ⟨joining.toList ++ s.chain, s.waiting, .working { task with rest := tokens }⟩

def load (volume : Volume) (s : Session) (task : Task) (target : Path) (line : Nat) : Session :=
  s.orFail (Sheet.readImport volume s.chain task.directory target line) fun sheet =>
    ⟨s.chain, task :: s.waiting,
      .reading (some sheet.path) (.ofSheet sheet task.progress.scope task.progress.lineDepth)⟩

/-- Compiles a token of a stylesheet, which is in the tokens that are left no more. -/
def take (volume : Volume) (s : Session) (task : Task) (token : Token) : Session :=
  match task.progress.importTarget? token with
  | some target => s.load volume task target token.line
  | none =>
    s.orFail (task.progress.step (importing 0) ⟨volume, task.directory, s.chain⟩ token)
      fun progress => s.work { task with progress }

/-- Goes back to the stylesheet that imports the one that was compiled, if there is any. -/
def deliver (s : Session) (output : Text × Scope) : Session :=
  match s.waiting with
  | [] => { s with phase := .finished (.ok output) }
  | outer :: rest =>
    ⟨s.chain.tail, rest, .working { outer with progress := outer.progress.withImport output }⟩

/-- Ends a stylesheet all of whose tokens are compiled. -/
def close (s : Session) (task : Task) : Session := s.orFail task.progress.finish s.deliver

/-- One step; there is none after the end. -/
def step (volume : Volume) (s : Session) : Option Session :=
  match s.phase with
  | .reading joining task => some (s.read joining task)
  | .working task =>
    match task.rest with
    | [] => some (s.close task)
    | token :: rest => some (s.take volume { task with rest } token)
  | .failing problem =>
    match s.waiting with
    | [] => some { s with phase := .finished (.error problem) }
    | _ :: rest => some ⟨s.chain.tail, rest, .failing problem⟩
  | .finished _ => none

inductive Move (volume : Volume) : Session → Session → Prop where
  | unreadable {chain : List Path} {waiting : List Task} {joining : Option Path} {task : Task}
      {error : ScanError} (read : scan task.source = .error error) :
      Move volume ⟨chain, waiting, .reading joining task⟩
        ⟨chain, waiting.tail, .failing (.scan error)⟩
  | divided {chain : List Path} {waiting : List Task} {joining : Option Path} {task : Task}
      {tokens : List Token} (read : scan task.source = .ok tokens) :
      Move volume ⟨chain, waiting, .reading joining task⟩
        ⟨joining.toList ++ chain, waiting, .working { task with rest := tokens }⟩
  | stepped {chain : List Path} {waiting : List Task} {task : Task} {token : Token}
      {rest : List Token} {p : Progress} (left : task.rest = token :: rest)
      (other : task.progress.importTarget? token = none)
      (done : task.progress.step (importing 0) ⟨volume, task.directory, chain⟩ token = .ok p) :
      Move volume ⟨chain, waiting, .working task⟩
        ⟨chain, waiting, .working { task with progress := p, rest }⟩
  | refused {chain : List Path} {waiting : List Task} {task : Task} {token : Token}
      {rest : List Token} {problem : Problem} (left : task.rest = token :: rest)
      (other : task.progress.importTarget? token = none)
      (done : task.progress.step (importing 0) ⟨volume, task.directory, chain⟩ token =
        .error problem) :
      Move volume ⟨chain, waiting, .working task⟩ ⟨chain, waiting, .failing problem⟩
  | missed {chain : List Path} {waiting : List Task} {task : Task} {token : Token}
      {rest : List Token} {target : Path} {problem : Problem} (left : task.rest = token :: rest)
      (imports : task.progress.importTarget? token = some target)
      (found : Sheet.readImport volume chain task.directory target token.line = .error problem) :
      Move volume ⟨chain, waiting, .working task⟩ ⟨chain, waiting, .failing problem⟩
  | entered {chain : List Path} {waiting : List Task} {task : Task} {token : Token}
      {rest : List Token} {target : Path} {sheet : Sheet} (left : task.rest = token :: rest)
      (imports : task.progress.importTarget? token = some target)
      (found : Sheet.readImport volume chain task.directory target token.line = .ok sheet) :
      Move volume ⟨chain, waiting, .working task⟩
        ⟨chain, { task with rest } :: waiting,
          .reading (some sheet.path) (.ofSheet sheet task.progress.scope task.progress.lineDepth)⟩
  | unfinished {chain : List Path} {waiting : List Task} {task : Task} {problem : Problem}
      (left : task.rest = []) (done : task.progress.finish = .error problem) :
      Move volume ⟨chain, waiting, .working task⟩ ⟨chain, waiting, .failing problem⟩
  | ended {chain : List Path} {task : Task} {output : Text × Scope} (left : task.rest = [])
      (done : task.progress.finish = .ok output) :
      Move volume ⟨chain, [], .working task⟩ ⟨chain, [], .finished (.ok output)⟩
  | returned {chain : List Path} {outer : Task} {waiting : List Task} {task : Task}
      {output : Text × Scope} (left : task.rest = []) (done : task.progress.finish = .ok output) :
      Move volume ⟨chain, outer :: waiting, .working task⟩
        ⟨chain.tail, waiting,
          .working { outer with progress := outer.progress.withImport output }⟩
  | stopped {chain : List Path} {problem : Problem} :
      Move volume ⟨chain, [], .failing problem⟩ ⟨chain, [], .finished (.error problem)⟩
  | passed {chain : List Path} {outer : Task} {waiting : List Task} {problem : Problem} :
      Move volume ⟨chain, outer :: waiting, .failing problem⟩
        ⟨chain.tail, waiting, .failing problem⟩

theorem move_of_step {volume : Volume} {s t : Session} (stepped : s.step volume = some t) :
    Move volume s t := by
  obtain ⟨chain, waiting, phase⟩ := s
  cases phase with
  | reading joining task =>
    obtain rfl := Option.some.inj stepped
    unfold read
    cases divided : scan task.source with
    | error error => exact .unreadable divided
    | ok tokens => exact .divided divided
  | working task =>
    obtain ⟨source, directory, progress, rest⟩ := task
    cases rest with
    | nil =>
      obtain rfl := Option.some.inj stepped
      unfold close deliver
      cases done : progress.finish with
      | error problem => exact .unfinished rfl done
      | ok output =>
        cases waiting with
        | nil => exact .ended rfl done
        | cons outer waiting => exact .returned rfl done
    | cons token rest =>
      obtain rfl := Option.some.inj stepped
      unfold take
      cases imports : progress.importTarget? token with
      | none =>
        dsimp only
        cases done : progress.step (importing 0) ⟨volume, directory, chain⟩ token with
        | error problem => exact .refused rfl imports done
        | ok p => exact .stepped rfl imports done
      | some target =>
        simp only [load]
        cases found : Sheet.readImport volume chain directory target token.line with
        | error problem =>
          simp only [orFail, fail]
          exact .missed rfl imports found
        | ok sheet =>
          simp only [orFail]
          exact .entered rfl imports found
  | failing problem =>
    cases waiting with
    | nil =>
      obtain rfl := Option.some.inj stepped
      exact .stopped
    | cons outer waiting =>
      obtain rfl := Option.some.inj stepped
      exact .passed
  | finished result => cases stepped

abbrev Reaches (volume : Volume) : Session → Session → Prop :=
  Relation.ReflTransGen fun s t => s.step volume = some t

variable {volume : Volume}

/-- A problem of the innermost stylesheet is the result. -/
theorem failing_reaches (chain : List Path) (waiting : List Task) (problem : Problem) :
    ∃ last, Reaches volume ⟨chain, waiting, .failing problem⟩
      ⟨last, [], .finished (.error problem)⟩ := by
  induction waiting generalizing chain with
  | nil => exact ⟨chain, .single rfl⟩
  | cons outer waiting ih =>
    obtain ⟨last, reached⟩ := ih chain.tail
    exact ⟨last, .head rfl reached⟩

/-- Steps are unique, and so is the end that they lead to. -/
theorem eq_of_reaches {s last other : Session} (reached : Reaches volume s last)
    (reachedOther : Reaches volume s other) (final : last.step volume = none)
    (finalOther : other.step volume = none) : last = other := by
  induction reached using Relation.ReflTransGen.head_induction_on with
  | refl =>
    cases Relation.ReflTransGen.cases_head reachedOther with
    | inl same => exact same
    | inr onward =>
      obtain ⟨next, stepped, -⟩ := onward
      rw [final] at stepped
      cases stepped
  | head first _ ih =>
    cases Relation.ReflTransGen.cases_head reachedOther with
    | inl same =>
      rw [same, finalOther] at first
      cases first
    | inr onward =>
      obtain ⟨next, stepped, later⟩ := onward
      rw [first] at stepped
      cases stepped
      exact ih later

/-- The levels of imports cannot have run out where a result says so. -/
def Suffices {α : Type} (volume : Volume) (levels : Nat) (chain : List Path)
    (result : Except Problem α) : Prop :=
  (∃ path line, result = .error (.recursiveImport path line)) →
    volume.Sound ∧ volume.ImportChain chain ∧ volume.canonicalFiles.ncard ≤ levels + chain.length

namespace Suffices

variable {α β : Type} {levels : Nat} {chain : List Path}

theorem ok (value : α) : Suffices volume levels chain (.ok value) := by
  rintro ⟨path, line, same⟩
  cases same

theorem error {problem : Problem}
    (enough : Suffices volume levels chain (.error problem : Except Problem α)) :
    Suffices volume levels chain (.error problem : Except Problem β) := by
  rintro ⟨path, line, same⟩
  cases same
  exact enough ⟨path, line, rfl⟩

end Suffices

/-- Sessions come to what importing with a number of levels gives. -/
def Follows (volume : Volume) (levels : Nat) : Prop :=
  ∀ (s : Session) (task : Task) (target : Path) (line : Nat)
    (result : Except Problem (Text × Scope)),
    importing levels ⟨volume, task.directory, s.chain⟩ target line task.progress.lineDepth
      task.progress.scope = result →
    Suffices volume levels s.chain result →
    Reaches volume (s.load volume task target line)
      (s.orFail result fun output =>
        s.work { task with progress := task.progress.withImport output })

namespace Follows

variable {levels : Nat}

theorem take (follows : Follows volume levels) (s : Session) (task : Task) (token : Token)
    {result : Except Problem Progress}
    (stepped : task.progress.step (importing levels) ⟨volume, task.directory, s.chain⟩ token =
      result)
    (enough : Suffices volume levels s.chain result) :
    Reaches volume (s.take volume task token)
      (s.orFail result fun p => s.work { task with progress := p }) := by
  unfold Session.take
  cases imports : task.progress.importTarget? token with
  | none =>
    rw [Progress.step_other imports _ (importing 0)] at stepped
    simp only [stepped]
    exact .refl
  | some target =>
    rw [Progress.step_import imports] at stepped
    have loaded := follows s task target token.line _ rfl
    cases imported : importing levels ⟨volume, task.directory, s.chain⟩ target token.line
        task.progress.lineDepth task.progress.scope with
    | error problem =>
      rw [imported] at stepped loaded
      subst stepped
      exact loaded enough.error
    | ok output =>
      rw [imported] at stepped loaded
      subst stepped
      exact loaded (.ok output)

/-- The tokens of a stylesheet are compiled one after the other, and leave the chain and the
waiting stylesheets as they are. -/
theorem tokens (follows : Follows volume levels) (s : Session) (before after : List Token)
    (task : Task) {result : Except Problem Progress}
    (folded : before.foldlM (Progress.step (importing levels) ⟨volume, task.directory, s.chain⟩)
      task.progress = result)
    (enough : Suffices volume levels s.chain result) :
    Reaches volume (s.work { task with rest := before ++ after })
      (s.orFail result fun p => s.work { task with progress := p, rest := after }) := by
  induction before generalizing task with
  | nil =>
    subst folded
    exact .refl
  | cons token before ih =>
    rw [List.foldlM_cons] at folded
    have first := follows.take s { task with rest := before ++ after } token rfl
    cases stepped : task.progress.step (importing levels) ⟨volume, task.directory, s.chain⟩
        token with
    | error problem =>
      rw [stepped] at folded first
      subst folded
      exact .head rfl (first enough)
    | ok next =>
      rw [stepped] at folded first
      have later := ih { task with progress := next } folded
      exact .head rfl ((first (.ok next)).trans later)

/-- A whole stylesheet is compiled, and what waits for it goes on. -/
theorem compileRaw (follows : Follows volume levels) (s : Session) (source : Text)
    (directory : Path) (depth : Nat) (scope : Scope) (tokens : List Token)
    {result : Except Problem (Text × Scope)}
    (compiled : Stylesheet.compileRaw (importing levels) ⟨volume, directory, s.chain⟩ depth scope
      tokens = result)
    (enough : Suffices volume levels s.chain result) :
    Reaches volume (s.work ⟨source, directory, .start scope depth, tokens⟩)
      (s.orFail result s.deliver) := by
  unfold Stylesheet.compileRaw at compiled
  have read := follows.tokens s tokens [] ⟨source, directory, .start scope depth, tokens⟩ rfl
  rw [List.append_nil] at read
  cases folded : tokens.foldlM (Progress.step (importing levels) ⟨volume, directory, s.chain⟩)
      (.start scope depth) with
  | error problem =>
    rw [folded] at compiled
    simp only [folded] at read
    subst compiled
    exact read enough.error
  | ok p =>
    rw [folded] at compiled
    simp only [folded] at read
    refine (read (.ok p)).tail ?_
    rw [← show p.finish = result from compiled]
    rfl

theorem zero (volume : Volume) : Follows volume 0 := by
  intro s task target line result imported enough
  unfold importing at imported
  unfold load
  cases found : Sheet.readImport volume s.chain task.directory target line with
  | error problem =>
    simp only [found] at imported ⊢
    subst imported
    exact .refl
  | ok sheet =>
    simp only [found] at imported
    subst imported
    obtain ⟨sound, chained, few⟩ := enough ⟨sheet.path, line, rfl⟩
    -- All files are in the chain, and the one that was found is not.
    have longer := (Sheet.readImport_chain sound chained found).length_le
    simp only [List.length_cons] at longer
    omega

theorem succ (follows : Follows volume levels) : Follows volume (levels + 1) := by
  intro s task target line result imported enough
  unfold importing at imported
  unfold load
  cases found : Sheet.readImport volume s.chain task.directory target line with
  | error problem =>
    simp only [found] at imported ⊢
    subst imported
    exact .refl
  | ok sheet =>
    simp only [found] at imported ⊢
    refine .head rfl ?_
    unfold Session.read Task.ofSheet
    cases read : scan sheet.source with
    | error error =>
      simp only [read] at imported
      subst imported
      exact .refl
    | ok tokens =>
      simp only [read] at imported
      let inner : Session := ⟨sheet.path :: s.chain, task :: s.waiting, s.phase⟩
      have deeper : Suffices volume levels inner.chain result := by
        intro recursive
        obtain ⟨sound, chained, few⟩ := enough recursive
        refine ⟨sound, Sheet.readImport_chain sound chained found, ?_⟩
        simp only [inner, List.length_cons]
        omega
      have compiled := follows.compileRaw inner sheet.source sheet.directory
        task.progress.lineDepth task.progress.scope tokens imported deeper
      cases result with
      | error problem => exact compiled.tail rfl
      | ok output => exact compiled

theorem all (volume : Volume) (levels : Nat) : Follows volume levels := by
  induction levels with
  | zero => exact zero volume
  | succ levels ih => exact ih.succ

end Follows

section

variable (chain : List Path) (source : Text) (directory : Path)

theorem outermost_error {error : ScanError} (read : scan source = .error error) :
    Reaches volume (outermost chain source directory)
      ⟨chain, [], .finished (.error (.scan error))⟩ := by
  have failed : (outermost chain source directory).step volume =
      some ⟨chain, [], .failing (.scan error)⟩ := by
    simp only [outermost, step, Session.read, read, List.tail_nil]
  exact .head failed (.single rfl)

theorem outermost_ok {tokens : List Token} {result : Except Problem (Text × Scope)}
    (read : scan source = .ok tokens)
    (compiled : compileRaw (importing volume.nodes.length) ⟨volume, directory, chain⟩ 0 .empty
      tokens = result)
    (enough : Suffices volume volume.nodes.length chain result) :
    Reaches volume (outermost chain source directory) ⟨chain, [], .finished result⟩ := by
  let s : Session := ⟨chain, [], .finished result⟩
  have divided : (outermost chain source directory).step volume =
      some (s.work ⟨source, directory, .start .empty 0, tokens⟩) := by
    simp only [outermost, step, Session.read, read, Option.toList_none, List.nil_append, work, s]
  have worked := (Follows.all volume volume.nodes.length).compileRaw s source directory 0 .empty
    tokens compiled enough
  refine .head divided ?_
  cases result with
  | error problem => exact worked.tail rfl
  | ok output => exact worked

end

/-- The session of a text comes to the result of its compilation. -/
theorem ofText_reaches (volume : Volume) (options : Options) (source : Text) :
    ∃ result : Except Problem (Text × Scope),
      compile volume options source = result.map (fun output => options.print output.1) ∧
      (Suffices volume volume.nodes.length [] result →
        Reaches volume (ofText options source) ⟨[], [], .finished result⟩) := by
  unfold compile
  cases read : scan source with
  | error error => exact ⟨.error (.scan error), rfl, fun _ => outermost_error _ _ _ read⟩
  | ok tokens =>
    refine ⟨compileRaw (importing volume.nodes.length) ⟨volume, options.directory, []⟩ 0 .empty
      tokens, ?_, fun enough => outermost_ok _ _ _ read rfl enough⟩
    simp only [compileTokens, compileIn, Setting.importer]
    cases compileRaw (importing volume.nodes.length) ⟨volume, options.directory, []⟩ 0 .empty
      tokens <;> rfl

/-- The session of a file comes to the result of its compilation. -/
theorem ofFile_reaches (volume : Volume) (options : Options) (path : Path) :
    ∃ result : Except Problem (Text × Scope),
      compileFile volume options path = result.map (fun output => options.print output.1) ∧
      (Suffices volume volume.nodes.length (ofFile volume path).chain result →
        Reaches volume (ofFile volume path)
          ⟨(ofFile volume path).chain, [], .finished result⟩) := by
  unfold compileFile ofFile
  cases found : Sheet.read volume path with
  | error problem => exact ⟨.error problem, rfl, fun _ => .refl⟩
  | ok sheet =>
    dsimp only
    cases read : scan sheet.source with
    | error error => exact ⟨.error (.scan error), rfl, fun _ => outermost_error _ _ _ read⟩
    | ok tokens =>
      refine ⟨compileRaw (importing volume.nodes.length) ⟨volume, sheet.directory, [sheet.path]⟩ 0
        .empty tokens, ?_, fun enough => outermost_ok _ _ _ read rfl enough⟩
      simp only [compileIn, Setting.importer]
      cases compileRaw (importing volume.nodes.length) ⟨volume, sheet.directory, [sheet.path]⟩ 0
        .empty tokens <;> rfl

theorem ofFile_chained (sound : volume.Sound) (path : Path) :
    volume.ImportChain (ofFile volume path).chain := by
  unfold ofFile
  cases found : Sheet.read volume path with
  | error problem => exact .nil
  | ok sheet => exact Sheet.read_chain sound found

end Session

end Stylesheet
