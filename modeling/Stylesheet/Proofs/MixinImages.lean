import Stylesheet.Proofs.Placeholders

set_option autoImplicit false

namespace Stylesheet

/-- A value with arguments put in: what the body writes before the first one, and each argument with
what the body writes after it. -/
structure Composite where
  lead : Text
  given : List (Text × Text)
  deriving DecidableEq, Repr

namespace Composite

/-- The whole text, with something done to the parts of the body and to the arguments. -/
def render (x : Composite) (body argument : Text → Text) : Text :=
  body x.lead ++ x.given.flatMap fun part => argument part.1 ++ body part.2

def text (x : Composite) : Text := x.render id id

/-- Puts a text of the body before everything else. -/
def write (x : Composite) (t : Text) : Composite := { x with lead := t ++ x.lead }

/-- Puts an argument before everything else. -/
def give (x : Composite) (argument : Text) : Composite := ⟨[], (argument, x.lead) :: x.given⟩

@[simp] theorem text_write (x : Composite) (t : Text) : (x.write t).text = t ++ x.text := by
  simp [text, render, write]

@[simp] theorem text_give (x : Composite) (argument : Text) :
    (x.give argument).text = argument ++ x.text := by
  simp [text, render, give]

/-- No image reference reaches over the end of an argument. -/
def Apart (x : Composite) : Prop :=
  Text.pieces Image.referenceLength x.text =
    Text.pieces Image.referenceLength x.lead ++ x.given.flatMap fun part =>
      Text.pieces Image.referenceLength part.1 ++ Text.pieces Image.referenceLength part.2

instance (x : Composite) : Decidable x.Apart := inferInstanceAs (Decidable (_ = _))

/-- All arguments refer to the same images from two directories. -/
def Alike (volume : Volume) (one other : Path) (x : Composite) : Prop :=
  ∀ part ∈ x.given, ∀ reference, .found reference ∈ Text.pieces Image.referenceLength part.1 →
    Image.load? volume one reference = Image.load? volume other reference

/-- The images of a value are those found from the home of its body. If no reference reaches over
the end of an argument, this holds for the body and the arguments each by itself, and the arguments
may as well be looked up from elsewhere if that makes no difference to them. -/
structure Inlined (volume : Volume) (home elsewhere : Path) (x : Composite) (value : Text) :
    Prop where
  whole : value = Image.inlineAll volume home x.text
  parts : x.Apart → value = x.render (Image.inlineAll volume home) (Image.inlineAll volume home)
  alike : x.Apart → x.Alike volume home elsewhere →
    value = x.render (Image.inlineAll volume home) (Image.inlineAll volume elsewhere)

theorem inlineAll_text {volume : Volume} {home : Path} {x : Composite} (apart : x.Apart) :
    Image.inlineAll volume home x.text =
      x.render (Image.inlineAll volume home) (Image.inlineAll volume home) := by
  rw [Image.inlineAll, Text.replace, apart, List.flatMap_append, List.flatMap_assoc]
  simp only [List.flatMap_append]
  rfl

theorem Alike.inlineAll_eq {volume : Volume} {one other : Path} {x : Composite}
    (alike : x.Alike volume one other) {part : Text × Text} (member : part ∈ x.given) :
    Image.inlineAll volume one part.1 = Image.inlineAll volume other part.1 := by
  refine List.flatMap_congr fun piece isPiece => ?_
  cases piece with
  | plain c => rfl
  | found reference =>
    simp only [Text.Piece.render, Image.inlineReference, alike part member reference isPiece]

theorem inlined_inlineAll (volume : Volume) (home elsewhere : Path) (x : Composite) :
    x.Inlined volume home elsewhere (Image.inlineAll volume home x.text) where
  whole := rfl
  parts := inlineAll_text
  alike apart alike := by
    rw [inlineAll_text apart, render, render]
    refine congrArg (_ ++ ·) (List.flatMap_congr fun part member => ?_)
    rw [alike.inlineAll_eq member]

end Composite

namespace Trait

/-- The pieces of a value in the body, with the arguments put in. -/
def compose (definition : Trait) (arguments : List Text) (vars : Variables) :
    List Text.Piece → Composite
  | [] => ⟨[], []⟩
  | .plain c :: pieces => (definition.compose arguments vars pieces).write [c]
  | .found name :: pieces =>
    match (definition.position? name).bind (arguments[·]?) with
    | some argument => (definition.compose arguments vars pieces).give argument
    | none => (definition.compose arguments vars pieces).write ((vars.get? name).getD name)

def composite (definition : Trait) (arguments : List Text) (vars : Variables) (value : Text) :
    Composite :=
  definition.compose arguments vars (Text.pieces Reference.length value)

theorem text_compose (definition : Trait) (arguments : List Text) (vars : Variables)
    (pieces : List Text.Piece) :
    (definition.compose arguments vars pieces).text =
      pieces.flatMap (Text.Piece.render (definition.meaning arguments vars)) := by
  induction pieces with
  | nil => rfl
  | cons piece pieces ih =>
    cases piece with
    | plain c => simp [compose, ih, Text.Piece.render]
    | found name =>
      cases given : (definition.position? name).bind (arguments[·]?) <;>
        simp [compose, ih, Text.Piece.render, meaning, given]

theorem text_composite (definition : Trait) (arguments : List Text) (vars : Variables)
    (d : Declaration) :
    (definition.composite arguments vars d.value).text =
      (definition.fill arguments vars d).value :=
  definition.text_compose arguments vars _

end Trait

theorem Scope.traits_of_declare {scope next : Scope} {params : Text} {line : Nat}
    (done : scope.declare params line = .ok next) : next.traits = scope.traits := by
  unfold declare at done
  dsimp only at done
  split at done
  · cases done
    rfl
  · split at done
    · cases done
    · obtain ⟨value, -, rfl⟩ := exists_of_map_eq_ok done
      rfl

/-- A token defines the trait that it ends, and no other. -/
theorem Resolver.traits_of_step {r next : Resolver} {volume : Volume} {directory : Path}
    {token : Token} {resolved : List Resolved}
    (done : r.step volume directory token = .ok (next, resolved)) :
    next.scope.traits = r.scope.traits ∨
      ∃ t line, r.definition = some t ∧ token = .close line ∧
        next.scope.traits = r.scope.traits.define ⟨t.name, t.params, t.body, directory⟩ := by
  cases Advance.of_step done with
  | @define t line defining => exact .inr ⟨t, line, defining, rfl, rfl⟩
  | declare _ _ declared => exact .inl (Scope.traits_of_declare declared)
  | collect | openRule | openTrait | openAtRule | mixIn | load | keep | resolve | comment
  | close => exact .inl rfl

theorem Phase.eq_working_of_task {phase : Phase} {task : Task} (isTask : phase.task? = some task) :
    phase = .working task := by
  cases phase with
  | working other => exact congrArg Phase.working (Option.some.inj isTask)
  | reading | failing | finished => cases isTask

namespace Session

variable {volume : Volume} {start s : Session} {task next : Task}

/-- In the course of a compilation a trait is defined, by a stylesheet in its directory. -/
def Defines (volume : Volume) (start : Session) (definition : Trait) : Prop :=
  ∃ s task t line rest, Reaches volume start s ∧ s.phase = .working task ∧
    task.progress.definition = some t ∧ task.rest = .close line :: rest ∧
    definition = ⟨t.name, t.params, t.body, task.directory⟩

def definedLaw (volume : Volume) (start : Session) : Phase.Law where
  reading _ task :=
    ∀ definition ∈ task.progress.scope.traits.definitions, start.Defines volume definition
  working _ task :=
    ∀ definition ∈ task.progress.scope.traits.definitions, start.Defines volume definition
  output _ := True

theorem keeps_defined : Keeps volume start (definedLaw volume start) where
  begun source directory := by simp [definedLaw, Progress.start, Scope.empty, Traits.empty]
  divided _ _ obeys _ := obeys
  stepped reached working obeys left other done _ := by
    obtain ⟨resolved, stepped, -⟩ := Progress.step_eq_ok other done
    intro definition member
    rcases Resolver.traits_of_step stepped with same | ⟨t, line, defining, rfl, same⟩
    · exact obeys definition (congrArg Traits.definitions same ▸ member)
    · rcases List.mem_cons.mp (congrArg Traits.definitions same ▸ member) with rfl | earlier
      · exact ⟨_, _, t, line, _, reached, working, defining, left, rfl⟩
      · exact obeys definition earlier
  entered _ _ obeys _ _ := obeys
  returned _ _ _ obeys _ done := by
    obtain ⟨-, rfl⟩ := Progress.finish_eq_ok done
    exact obeys
  ended _ _ _ := trivial

/-- A mixin writes the declarations of a trait that was defined before. Images are looked up where
that was, and not where the mixin stands. -/
def InlinesMixin (volume : Volume) (start : Session) (task : Task) (params : Text) (line : Nat)
    (next : Task) : Prop :=
  let vars := task.progress.scope.bindings
  ∃ call definition arguments, Call.ofText? params = some call ∧
    task.progress.scope.traits.get? call.name = some definition ∧
    start.Defines volume definition ∧
    call.argumentList.mapM (vars.substitute line) = .ok arguments ∧
    ∃ values : Declaration → Text,
      next.progress.draft = task.progress.draft.write (definition.body.flatMap fun d =>
        Layout.declaration d.key (values d) task.progress.lineDepth) ∧
      ∀ d ∈ definition.body,
        (definition.composite arguments vars d.value).Inlined volume definition.directory
          task.directory (values d)

theorem Takes.inlines {params : Text} {line : Nat}
    (takes : start.Takes volume task (.statement Keyword.mixin.text params line) next)
    (begins : start.Begins) : start.InlinesMixin volume task params line next := by
  obtain ⟨resolved, stepped, folded⟩ := takes.resolved
  obtain ⟨s, t, reached, -, working, -, -, outside⟩ := takes
  have defined := keeps_defined.working begins reached working
  simp only [Resolver.step, Progress.resolver, outside, Resolver.statement] at stepped
  rw [if_neg (by decide), if_pos trivial] at stepped
  obtain ⟨entries, expanded, same⟩ := exists_of_map_eq_ok stepped
  obtain ⟨-, rfl⟩ := Prod.mk.inj same
  obtain ⟨call, definition, read, found, known, complete, rfl⟩ := Scope.expand_eq_ok expanded
  have written := Progress.draft_eq_of_foldlM folded
  rw [List.flatMap_map] at written
  refine ⟨call, definition, _, read, found, defined definition (List.mem_of_find?_eq_some found),
    Variables.mapM_substitute_eq_ok known line, _, written, fun d _ => ?_⟩
  rw [← Trait.text_composite]
  exact Composite.inlined_inlineAll volume _ _ _

theorem after_succ (volume : Volume) (n : Nat) (s : Session) :
    s.after volume (n + 1) = (s.after volume n).bind (step volume) := by
  induction n generalizing s with
  | zero => simp [after]
  | succ n ih =>
    calc s.after volume (n + 2) = (s.step volume).bind (after volume (n + 1)) := rfl
      _ = (s.step volume).bind fun r => (r.after volume n).bind (step volume) := by rw [funext ih]
      _ = (s.after volume (n + 1)).bind (step volume) := (Option.bind_assoc _ _ _).symm

/-- The token that is compiled at a step. -/
theorem takes_of_after {n : Nat} {token : Token}
    (found : (start.after volume n).bind (·.phase.task?) = some task)
    (later : (start.after volume (n + 1)).bind (·.phase.task?) = some next)
    (left : task.rest = token :: next.rest) (outside : task.progress.definition = none) :
    start.Takes volume task token next := by
  obtain ⟨s, reached, isTask⟩ := Option.bind_eq_some_iff.mp found
  rw [after_succ, reached, Option.bind_some] at later
  obtain ⟨t, stepped, isNext⟩ := Option.bind_eq_some_iff.mp later
  exact ⟨s, t, reaches_after reached, stepped, Phase.eq_working_of_task isTask,
    Phase.eq_working_of_task isNext, left, outside⟩

end Session

open Session (ofText ofFile)

/-- The images in what a mixin writes, wherever they are written, are those found from the directory
of the stylesheet that defines the trait. -/
theorem mixin_images_of_definition (volume : Volume) (options : Options) (start : Session)
    (begins : (∃ source, start = ofText options source) ∨ ∃ path, start = ofFile volume path)
    (task next : Task) (params : Text) (line : Nat)
    (takes : start.Takes volume task (.statement Keyword.mixin.text params line) next) :
    start.InlinesMixin volume task params line next := by
  refine takes.inlines ?_
  rcases begins with ⟨source, rfl⟩ | ⟨path, rfl⟩
  · exact Session.ofText_begins options source
  · exact Session.ofFile_begins volume path

/-- A trait with an image in a directory of its own, and an image beside it. -/
def galleryFiles : Volume :=
  let file (path : List String) (text : String) :=
    (path.map String.toList, Node.file (Text.encode text.toList) ⟨0, 0⟩)
  ⟨[(["lib".toList], .directory ⟨0, 0⟩), file ["a.png"] "A", file ["lib", "b.png"] "B",
    file ["lib", "t.css"] "@trait t($i) \x7b background: url(b.png), $i \x7d"], []⟩

def gallerySource : Text := "@import 'lib/t.css';\np \x7b @mixin t(url(/a.png)); \x7d".toList

def galleryTrait : Trait :=
  ⟨['t'], [['i']], [⟨"background".toList, "url(b.png), $i".toList⟩], ⟨"/lib".toList⟩⟩

def galleryTask : Task :=
  ⟨gallerySource, Options.default.directory,
    ⟨⟨.empty, ⟨[galleryTrait]⟩⟩, .start ⟨some ['p'], 0⟩, [⟨.rule, 2, .start ⟨none, 0⟩⟩], none⟩,
    [.statement "@mixin".toList "t(url(/a.png))".toList 2, .close 2]⟩

def galleryNext : Task :=
  { galleryTask with
    progress := galleryTask.progress.write ("\n  background: " ++
      "url(\"data:image/png;base64,Qg==\"), url(\"data:image/png;base64,QQ==\");").toList
    rest := [.close 2] }

/-- The image of the argument has the same path from everywhere. -/
theorem gallery_images :
    let start := ofText .default gallerySource
    start.Takes galleryFiles galleryTask
        (.statement Keyword.mixin.text "t(url(/a.png))".toList 2) galleryNext ∧
      start.InlinesMixin galleryFiles galleryTask "t(url(/a.png))".toList 2 galleryNext ∧
      (galleryTrait.composite ["url(/a.png)".toList] .empty "url(b.png), $i".toList).Apart := by
  intro start
  have found : (start.after galleryFiles 8).bind (·.phase.task?) = some galleryTask := by
    decide +kernel
  have later : (start.after galleryFiles 9).bind (·.phase.task?) = some galleryNext := by
    decide +kernel
  have takes : start.Takes galleryFiles galleryTask
      (.statement Keyword.mixin.text "t(url(/a.png))".toList 2) galleryNext :=
    Session.takes_of_after found later rfl rfl
  exact ⟨takes, mixin_images_of_definition galleryFiles .default start (.inl ⟨gallerySource, rfl⟩)
    galleryTask galleryNext _ 2 takes, by decide +kernel⟩

/-- An image in an argument is not found beside the stylesheet with the mixin. -/
theorem compile_argument_image_left :
    let source := "@import 'lib/t.css';\np \x7b @mixin t(url(a.png)); \x7d".toList
    compile galleryFiles .default source =
        .ok "p \x7b\n  background: url(\"data:image/png;base64,Qg==\"), url(a.png);\n\x7d".toList ∧
      Image.inlineAll galleryFiles Options.default.directory "url(a.png)".toList =
        "url(\"data:image/png;base64,QQ==\")".toList := by
  decide +kernel

end Stylesheet
