import Stylesheet.Proofs.Cuts
import Stylesheet.Proofs.Outlines
import Stylesheet.Proofs.Provenance
import Stylesheet.Proofs.Reprint
import Stylesheet.Proofs.Turns

set_option autoImplicit false

namespace Stylesheet

/-- The characters that the layout of output consists of. -/
def Layout.signs : List Char := ['{', '}', '\n']

def Text.Free (xs : List Char) (t : Text) : Prop := ∀ c ∈ t, c ∉ xs

variable {xs : List Char}

namespace Text.Free

variable {t u : Text}

theorem of_subset (free : t.Free xs) (part : u ⊆ t) : u.Free xs :=
  fun c member => free c (part member)

theorem not_mem (free : t.Free xs) {c : Char} (listed : c ∈ xs) : c ∉ t :=
  fun member => free c member listed

theorem trim (free : t.Free xs) : (Text.trim t).Free xs := free.of_subset (Cut.trim t).subset

theorem replace {length : Text → Nat} {f : Text → Text} (free : t.Free xs)
    (each : ∀ m, m <:+: t → (f m).Free xs) : (Text.replace length f t).Free xs := by
  intro c member
  rcases mem_replace member with inside | ⟨m, part, inside⟩
  · exact free c inside
  · exact each m part c inside

end Text.Free

/-- The characters of an image that is written into a value. -/
def Image.isDataChar (c : Char) : Bool := c.isAlphanum || "+/=\":;,()".toList.contains c

namespace Image

theorem isDataChar_digit (n : Nat) : isDataChar (Base64.digit n) := by
  have small : ∀ n < 64, isDataChar (Base64.digit n) := by decide
  by_cases inRange : n < 64
  · exact small n inRange
  · have last : Base64.digit n = '/' := by
      unfold Base64.digit
      rw [if_neg (by omega), if_neg (by omega), if_neg (by omega), if_neg (by omega)]
    rw [last]
    rfl

theorem isDataChar_encode (bytes : List UInt8) : ∀ c ∈ Base64.encode bytes, isDataChar c := by
  have padding : isDataChar '=' := rfl
  fun_induction Base64.encode bytes with
  | case1 => simp
  | case2 a => simp [isDataChar_digit, padding]
  | case3 a b => simp [isDataChar_digit, padding]
  | case4 a b c rest ih => simpa [isDataChar_digit] using ih

theorem isDataChar_mediaType {path : Path} {mediaType : Text}
    (known : mediaType? path = some mediaType) : ∀ c ∈ mediaType, isDataChar c := by
  have all : mediaType.all isDataChar := by
    unfold mediaType? at known
    split at known
    · cases known
    · dsimp only at known
      split at known
      · cases known; rfl
      split at known
      · cases known; rfl
      split at known
      · cases known; rfl
      split at known
      · cases known; rfl
      · cases known
  exact List.all_eq_true.mp all

theorem isDataChar_of_mem_dataReference {path : Path} {mediaType : Text} {bytes : List UInt8}
    (known : mediaType? path = some mediaType) :
    ∀ c ∈ dataReference mediaType bytes, isDataChar c := by
  have opening : ("url(\"data:".toList).all isDataChar := by decide
  have middle : (";base64,".toList).all isDataChar := by decide
  have closing : (['"', ')'] : Text).all isDataChar := rfl
  have typed := List.forall_mem_append.mpr
    ⟨List.all_eq_true.mp opening, isDataChar_mediaType known⟩
  have coded := List.forall_mem_append.mpr
    ⟨List.forall_mem_append.mpr ⟨typed, List.all_eq_true.mp middle⟩, isDataChar_encode bytes⟩
  exact List.forall_mem_append.mpr ⟨coded, List.all_eq_true.mp closing⟩

/-- A reference is replaced by the data of an image, if by anything. -/
theorem inlineReference_cases (volume : Volume) (directory : Path) (reference : Text) :
    inlineReference volume directory reference = reference ∨
      ∃ path mediaType bytes, mediaType? path = some mediaType ∧
        inlineReference volume directory reference = dataReference mediaType bytes := by
  unfold inlineReference
  split
  · rename_i mediaType bytes found
    unfold load? at found
    dsimp only at found
    split at found
    · cases found
    · split at found
      · rename_i known _
        cases found
        exact .inr ⟨_, mediaType, bytes, known, rfl⟩
      · cases found
  · exact .inl rfl

/-- Images bring no character that is no character of data. -/
theorem free_inlineAll (foreign : ∀ c ∈ xs, isDataChar c = false) {value : Text}
    (free : value.Free xs) (volume : Volume) (directory : Path) :
    (inlineAll volume directory value).Free xs := by
  apply free.replace
  intro reference part
  rcases inlineReference_cases volume directory reference with
    same | ⟨path, mediaType, bytes, known, same⟩
  · rw [same]
    exact free.of_subset part.subset
  · rw [same]
    intro c member listed
    have data := isDataChar_of_mem_dataReference known c member
    rw [foreign c listed] at data
    cases data

end Image

theorem Layout.foreign_of_subset (few : xs ⊆ Layout.signs) :
    ∀ c ∈ xs, Image.isDataChar c = false := by
  have none : Layout.signs.all fun c => !Image.isDataChar c := rfl
  intro c listed
  simpa using List.all_eq_true.mp none c (few listed)

theorem Layout.not_mem_of_subset (few : xs ⊆ Layout.signs) {c : Char} (other : c ∉ Layout.signs) :
    c ∉ xs := fun listed => other (few listed)

theorem Text.Free.collapse (few : xs ⊆ Layout.signs) {t : Text} (free : t.Free xs) :
    (Text.collapse t).Free xs := by
  intro c member
  rcases Text.mem_collapse member with rfl | inside
  · exact Layout.not_mem_of_subset few (by decide)
  · exact free c inside

/-- The variables with values without some characters, and the declarations without them. -/
def Scope.freeLaw (xs : List Char) : Scope.Law where
  value := Text.Free xs
  body d := d.key.Free xs ∧ d.value.Free xs ∧ ∃ c ∈ d.key.head?, Text.isBlank c = false

theorem Variables.Obey.free {vars : Variables} (obey : vars.Obey (Scope.freeLaw xs)) {t : Text}
    (free : t.Free xs) : (vars.fill t).Free xs := by
  apply free.replace
  intro name part
  cases found : vars.get? name with
  | none => exact free.of_subset part.subset
  | some value => exact obey name value found

theorem Trait.free_fill {definition : Trait} {arguments : List Text} {vars : Variables}
    (obey : vars.Obey (Scope.freeLaw xs)) (given : ∀ argument ∈ arguments, argument.Free xs)
    {d : Declaration} (free : d.value.Free xs) :
    (definition.fill arguments vars d).value.Free xs := by
  apply free.replace
  intro name part
  unfold meaning
  cases found : (definition.position? name).bind (arguments[·]?) with
  | some argument =>
    obtain ⟨i, -, isArgument⟩ := Option.bind_eq_some_iff.mp found
    exact given argument (List.mem_of_getElem? isArgument)
  | none =>
    cases declared : vars.get? name with
    | some value => exact obey name value declared
    | none => exact free.of_subset part.subset

/-- What a mixin stands for. -/
theorem Scope.expand_eq_ok {scope : Scope} {volume : Volume} {params : Text} {line : Nat}
    {entries : List Entry} (done : scope.expand volume params line = .ok entries) :
    ∃ call definition, Call.ofText? params = some call ∧
      scope.traits.get? call.name = some definition ∧
      call.argumentList.findSome? scope.bindings.missing? = none ∧
      definition.missing? scope.bindings = none ∧
      entries = definition.body.map fun d =>
        .declaration d.key (Image.inlineAll volume definition.directory
          (definition.fill (call.argumentList.map scope.bindings.fill) scope.bindings
            d).value) := by
  unfold expand at done
  split at done
  · cases done
  · rename_i call read
    split at done
    · cases done
    · rename_i definition found
      obtain ⟨arguments, given, rest⟩ := exists_of_bind_eq_ok done
      obtain ⟨declarations, filled, rfl⟩ := exists_of_map_eq_ok rest
      rw [Variables.mapM_substitute_eq_elim] at given
      obtain ⟨known, rfl⟩ := elim_eq_ok given
      rw [Trait.instantiate_eq_elim] at filled
      obtain ⟨complete, rfl⟩ := elim_eq_ok filled
      refine ⟨call, definition, read, found, Option.map_eq_none_iff.mp known,
        Option.map_eq_none_iff.mp complete, ?_⟩
      rw [List.map_map]
      rfl

namespace Token

def fields : Token → List Text
  | rule selector _ => [selector]
  | atBlock name params _ | statement name params _ => [name, params]
  | property key value _ => [key, value]
  | comment text _ => [text]
  | close _ => []

def isRule : Token → Bool
  | rule _ _ => true
  | atBlock _ _ _ | statement _ _ _ | property _ _ _ | comment _ _ | close _ => false

/-- A token as the reader makes it, without some characters in its texts. -/
structure Plain (xs : List Char) (token : Token) : Prop where
  free : ∀ field ∈ token.fields, field.Free xs
  shaped : token.Shaped

end Token

/-- The texts of a resolved token are without some characters, an at-rule has a name and a
declaration a key, and a block is one of those that can be opened. -/
def Resolved.Made (xs : List Char) (opened : Opening → Prop) : Resolved → Prop
  | entry (.declaration key value) =>
    key.Free xs ∧ value.Free xs ∧ ∃ c ∈ key.head?, Text.isBlank c = false
  | entry (.statement name params) => name.Free xs ∧ params.Free xs ∧ name.head? = some '@'
  | entry (.comment text) => text.Free xs
  | opens (.rule selector) => selector.Free xs ∧ opened (.rule selector)
  | opens (.atRule name params) =>
    (name.Free xs ∧ params.Free xs ∧ name.head? = some '@') ∧ opened (.atRule name params)
  | closes => True

theorem Resolved.lawful_made (xs : List Char) (opened : Opening → Prop) :
    Lawful (Resolved.Made xs opened) := ⟨trivial, fun _ _ made => made.1.2.2⟩

namespace Token.Plain

variable {token : Token}

theorem allows (plain : token.Plain xs) : (Scope.freeLaw xs).Allows token where
  body key value line same := by
    subst same
    have free := plain.free
    simp only [Token.fields, List.forall_mem_cons] at free
    exact ⟨free.1, free.2.1, plain.shaped⟩
  value params line same vars obey _ := by
    subst same
    have free := plain.free
    simp only [Token.fields, List.forall_mem_cons] at free
    have value := free.2.1.of_subset (List.dropWhile_suffix (!Text.isBlank ·)).subset
    exact obey.free value.trim

/-- The declarations of a mixin. -/
theorem expand {opened : Opening → Prop} (few : xs ⊆ Layout.signs) {scope : Scope} {volume : Volume}
    {params : Text} {line : Nat} {entries : List Entry} (free : params.Free xs)
    (values : scope.bindings.Obey (Scope.freeLaw xs))
    (bodies : ∀ definition ∈ scope.traits.definitions, ∀ d ∈ definition.body,
      (Scope.freeLaw xs).body d)
    (done : scope.expand volume params line = .ok entries) :
    ∀ e ∈ entries, Resolved.Made xs opened (.entry e) := by
  obtain ⟨call, definition, read, found, -, -, rfl⟩ := Scope.expand_eq_ok done
  have given : ∀ argument ∈ call.argumentList.map scope.bindings.fill, argument.Free xs := by
    rw [List.forall_mem_map]
    intro argument member
    exact values.free (free.of_subset (Call.cut_of_mem_argumentList read member).subset)
  have known : definition ∈ scope.traits.definitions := List.mem_of_find?_eq_some found
  rw [List.forall_mem_map]
  intro d member
  obtain ⟨key, value, visible⟩ := bodies definition known d member
  have foreign := Layout.foreign_of_subset few
  exact ⟨key, Image.free_inlineAll foreign (Trait.free_fill values given value) volume _, visible⟩

/-- What stands in the place of a token that opens no rule. -/
theorem made (plain : token.Plain xs) (few : xs ⊆ Layout.signs) (opened : Opening → Prop)
    (known : ∀ name params line, token = .atBlock name params line → opened (.atRule name params))
    {r next : Resolver} (obeys : r.Obeys (Scope.freeLaw xs)) {volume : Volume} {directory : Path}
    {resolved : List Resolved} (done : r.step volume directory token = .ok (next, resolved)) :
    (∃ selector line, token = .rule selector line ∧ resolved = [.opens (.rule selector)]) ∨
      ∀ t ∈ resolved, t.Made xs opened ∧ ∀ selector, t ≠ .opens (.rule selector) := by
  have foreign := Layout.foreign_of_subset few
  have free := plain.free
  have shaped := plain.shaped
  cases Resolver.Advance.of_step done with
  | collect | define | openTrait | declare => exact .inr (by simp)
  | @openRule selector line => exact .inl ⟨selector, line, rfl, rfl⟩
  | @openAtRule name params line =>
    simp only [Token.fields, List.forall_mem_cons] at free
    have own := known name params line rfl
    exact .inr (List.forall_mem_singleton.mpr ⟨⟨⟨free.1, free.2.1, shaped⟩, own⟩, by simp⟩)
  | mixIn _ _ expanded =>
    simp only [Token.fields, List.forall_mem_cons] at free
    have made : ∀ e ∈ _, Resolved.Made xs opened (.entry e) :=
      expand few free.2.1 obeys.values obeys.bodies expanded
    refine .inr ?_
    rw [List.forall_mem_map]
    exact fun e member => ⟨made e member, by simp⟩
  | load =>
    simp only [Token.fields, List.forall_mem_cons] at free
    exact .inr (List.forall_mem_singleton.mpr ⟨⟨free.1, free.2.1.trim, shaped⟩, by simp⟩)
  | keep =>
    simp only [Token.fields, List.forall_mem_cons] at free
    exact .inr (List.forall_mem_singleton.mpr ⟨⟨free.1, free.2.1, shaped⟩, by simp⟩)
  | resolve _ substituted =>
    obtain ⟨-, rfl⟩ := Variables.substitute_eq_ok substituted
    simp only [Token.fields, List.forall_mem_cons] at free
    have inlined := Image.free_inlineAll foreign (obeys.values.free free.2.1) volume directory
    exact .inr (List.forall_mem_singleton.mpr ⟨⟨free.1, inlined, shaped⟩, by simp⟩)
  | comment =>
    have own := free _ List.mem_cons_self
    exact .inr (by simpa [Resolved.Made] using own)
  | close => exact .inr (by simp [Resolved.Made])

end Token.Plain

/-- A rule inside a rule has a selector without some characters if both have. -/
theorem Place.free_insideRule (few : xs ⊆ Layout.signs) {place : Place} {selector : Text}
    (outer : ∀ s ∈ place.selector, s.Free xs) (inner : selector.Free xs) :
    ∀ s ∈ (place.insideRule selector).selector, s.Free xs := by
  have space : ' ' ∉ xs := Layout.not_mem_of_subset few (by decide)
  have comma : ',' ∉ xs := Layout.not_mem_of_subset few (by decide)
  intro s inside
  unfold insideRule at inside
  dsimp only at inside
  split at inside
  · cases inside
    exact inner.collapse few
  · rename_i around isAround
    cases inside
    exact Selector.forall_nest space comma (outer around isAround) (inner.collapse few)

namespace Session

/-- The selectors that are in force somewhere in the course of a compilation. -/
def Selects (volume : Volume) (start : Session) (selector : Text) : Prop :=
  ∃ s task, Reaches volume start s ∧ s.phase = .working task ∧
    task.progress.draft.place.selector = some selector

/-- The blocks that can be opened in a compilation: rules with selectors in force, and the at-rules
that it reads. -/
def Opens (volume : Volume) (start : Session) : Opening → Prop
  | .rule selector => start.Selects volume selector
  | .atRule name params => ∃ line, start.Tokens volume (.atBlock name params line)

/-- Whether one of some waiting stylesheets waits inside a rule. -/
def inRule (waiting : List Task) : Bool :=
  waiting.any fun task => task.progress.draft.place.selector.isSome

/-- The texts that are imported inside a rule, directly or through other imports. -/
def ReadsInRule (volume : Volume) (start : Session) (text : Text) : Prop :=
  ∃ s, Reaches volume start s ∧ s.phase.text? = some text ∧ inRule s.waiting

/-- No rule stands in a text that is imported inside a rule. -/
def RulesApart (volume : Volume) (start : Session) : Prop :=
  ∀ text tokens, start.ReadsInRule volume text → scan text = .ok tokens →
    ∀ token ∈ tokens, token.isRule = false

/-- The depth at which a stylesheet is written, below those that wait for it. -/
def baseDepth : List Task → Nat
  | [] => 0
  | outer :: _ => outer.progress.lineDepth

end Session

open Session (Reaches Keeps)

/-- What has been written of a stylesheet is laid out, and all blocks around it are. -/
def Task.Laid (flat : Prop) (ok : Resolved → Prop) (around : Bool) (base : Nat) (task : Task) :
    Prop :=
  Drafts.Laid flat ok around base task.progress.drafts.inner task.progress.drafts.outer

namespace Task.Laid

variable {flat : Prop} {ok : Resolved → Prop} {around : Bool} {base : Nat} {task : Task}

theorem start {scope : Scope} {source : Text} {directory : Path} {rest : List Token} :
    Task.Laid flat ok around base ⟨source, directory, .start scope base, rest⟩ :=
  .bottom (.start (by simp) (by simp)) rfl

/-- The output of a stylesheet. -/
theorem finish (laid : task.Laid flat ok around base) {output : Text × Scope}
    (done : task.progress.finish = .ok output) : Stylesheet.Laid flat ok around base output.1 := by
  obtain ⟨closed, rfl⟩ := Progress.finish_eq_ok done
  unfold Task.Laid Progress.drafts at laid
  rw [closed] at laid
  cases laid with
  | bottom inner place =>
    have body := inner.body
    rwa [Place.lineDepth, place, Option.isSome_none, Bool.or_false] at body

/-- An import writes what was laid out for its place. -/
theorem withImport (laid : task.Laid flat ok around base) {output : Text × Scope}
    (imported : Stylesheet.Laid flat ok (task.progress.draft.place.selector.isSome || around)
      task.progress.lineDepth output.1) :
    Task.Laid flat ok around base { task with progress := task.progress.withImport output } := by
  rw [Bool.or_comm] at imported
  exact Drafts.Laid.write laid imported

end Task.Laid

namespace Session

variable {volume : Volume} {start s : Session} {flat : Prop}

/-- Stylesheets that are being compiled, innermost first, are laid out where they are imported. -/
def AllLaid (volume : Volume) (start : Session) (flat : Prop) (ok : Resolved → Prop) :
    List Task → Prop
  | [] => True
  | task :: waiting =>
    task.Laid flat ok (inRule waiting) (baseDepth waiting) ∧
      (inRule waiting → start.ReadsInRule volume task.source) ∧
      AllLaid volume start flat ok waiting

def laidLaw (volume : Volume) (start : Session) (flat : Prop) (ok : Resolved → Prop) :
    Phase.Law where
  reading waiting task :=
    (∃ scope, task.progress = .start scope (baseDepth waiting)) ∧
      AllLaid volume start flat ok waiting
  working waiting task := AllLaid volume start flat ok (task :: waiting)
  output text := Laid flat ok false 0 text

theorem keeps_laidLaw (few : xs ⊆ Layout.signs) (begins : start.Begins)
    (plain : ∀ token, start.Tokens volume token → token.Plain xs)
    (apart : flat → start.RulesApart volume) :
    Keeps volume start (laidLaw volume start flat (Resolved.Made xs (start.Opens volume))) where
  begun source directory := ⟨⟨.empty, rfl⟩, trivial⟩
  divided reached reading obeys _ := by
    obtain ⟨⟨scope, begun⟩, waiting⟩ := obeys
    refine ⟨?_, fun inside => ⟨_, reached, by rw [reading]; rfl, inside⟩, waiting⟩
    rw [begun]
    exact .start
  stepped reached working obeys left other done onward := by
    obtain ⟨laid, imported, waiting⟩ := obeys
    refine ⟨?_, imported, waiting⟩
    have sourced := begins.sourced reached working
    have read := sourced.tokens (by rw [left]; exact .head _)
    have token := plain _ read
    have allowed := begins.obeys (fun token found => (plain token found).allows) reached working
    obtain ⟨resolved, stepped, folded⟩ := Progress.step_eq_ok other done
    have made := token.made few (start.Opens volume) (fun _ _ line same => ⟨line, same ▸ read⟩)
      allowed stepped
    rcases made with ⟨selector, line, rfl, rfl⟩ | good
    · have free := Place.free_insideRule few
        (fun s inside => (laid.inner.selector s inside).1) (token.free selector (.head _))
      have opened : Progress.drafts _ = _ := (Option.some.inj folded).symm
      unfold Task.Laid
      rw [opened]
      apply laid.openRule selector
      · -- The selector of a new rule is in force in the next state, and so in the compilation.
        intro s inside
        have place := congrArg (fun d => d.inner.place.selector) opened
        exact ⟨free s inside, _, _, onward, rfl, place.trans inside⟩
      · intro asked
        obtain ⟨before, divided, -⟩ := sourced.divided
        rw [left] at divided
        rw [← Bool.not_eq_true]
        intro inside
        cases apart asked _ _ (imported inside) divided (.rule selector line) (by simp)
    · exact laid.foldlM (Resolved.lawful_made xs _) folded good
  entered _ _ obeys _ _ := ⟨⟨_, rfl⟩, obeys⟩
  returned _ _ _ obeys _ done := by
    obtain ⟨inner, -, laid, imported, waiting⟩ := obeys
    exact ⟨laid.withImport (inner.finish done), imported, waiting⟩
  ended obeys _ done := obeys.1.finish done

/-- Whether the texts of tokens are without some characters can be seen in the course of a
compilation. -/
theorem free_of_course {n : Nat} (ended : start.after volume n = none)
    (checked : ((start.course volume n).flatMap tokens).all fun token =>
      token.fields.all fun field => field.all (· ∉ xs)) :
    ∀ token, start.Tokens volume token → ∀ field ∈ token.fields, field.Free xs := by
  intro token found field member c inside
  have whole := List.all_eq_true.mp checked token (found.mem_course ended)
  have own := List.all_eq_true.mp (List.all_eq_true.mp whole field member) c inside
  simpa using own

def selector? (s : Session) : Option Text := s.phase.task?.bind (·.progress.draft.place.selector)

theorem Selects.mem_course {n : Nat} {selector : Text} (ended : start.after volume n = none)
    (selects : start.Selects volume selector) :
    selector ∈ (start.course volume n).filterMap selector? := by
  obtain ⟨s, task, reached, working, inForce⟩ := selects
  refine List.mem_filterMap.mpr ⟨s, Session.mem_course ended reached, ?_⟩
  rw [selector?, working]
  exact inForce

def Outputs (volume : Volume) (start : Session) (raw : Text) : Prop :=
  ∃ chain scope, Reaches volume start ⟨chain, [], .finished (.ok (raw, scope))⟩

theorem outputs_of_compile {options : Options} {source css : Text}
    (compiled : compile volume options source = .ok css) :
    ∃ raw, (ofText options source).Outputs volume raw ∧ css = options.print raw := by
  obtain ⟨result, printed, reaches⟩ := ofText_reaches volume options source
  obtain ⟨output, rfl, rfl⟩ := exists_of_map_eq_ok (printed.symm.trans compiled)
  exact ⟨output.1, ⟨_, output.2, reaches (.ok output)⟩, rfl⟩

theorem outputs_of_compileFile {options : Options} {path : Path} {css : Text}
    (compiled : compileFile volume options path = .ok css) :
    ∃ raw, (ofFile volume path).Outputs volume raw ∧ css = options.print raw := by
  obtain ⟨result, printed, reaches⟩ := ofFile_reaches volume options path
  obtain ⟨output, rfl, rfl⟩ := exists_of_map_eq_ok (printed.symm.trans compiled)
  exact ⟨output.1, ⟨_, output.2, reaches (.ok output)⟩, rfl⟩

/-- What holds of all raw output after the last pass holds of all output that is not minified. -/
theorem forall_output {P : Session → Text → Prop} (volume : Volume) (options : Options)
    (unminified : options.minify = false)
    (each : ∀ start raw, start.Begins → start.Outputs volume raw → P start (Layout.finish raw)) :
    (∀ source css, compile volume options source = .ok css → P (ofText options source) css) ∧
      ∀ path css, compileFile volume options path = .ok css → P (ofFile volume path) css := by
  have whole : ∀ raw, options.print raw = Layout.finish raw := fun raw => by
    rw [Options.print, unminified]
    rfl
  constructor
  · intro source css compiled
    obtain ⟨raw, outputs, rfl⟩ := outputs_of_compile compiled
    rw [whole]
    exact each _ raw (ofText_begins options source) outputs
  · intro path css compiled
    obtain ⟨raw, outputs, rfl⟩ := outputs_of_compileFile compiled
    rw [whole]
    exact each _ raw (ofFile_begins volume path) outputs

/-- Output is the layout of a forest without some characters in its texts, if no token has them. -/
theorem Outputs.laid {raw : Text} (outputs : start.Outputs volume raw) (few : xs ⊆ Layout.signs)
    (begins : start.Begins)
    (free : ∀ token, start.Tokens volume token → ∀ field ∈ token.fields, field.Free xs)
    (apart : flat → start.RulesApart volume) :
    Laid flat (Resolved.Made xs (start.Opens volume)) false 0 raw := by
  have plain : ∀ token, start.Tokens volume token → token.Plain xs := by
    intro token found
    obtain ⟨text, tokens, -, divided, member⟩ := id found
    exact ⟨free token found, shaped_of_scan divided token member⟩
  obtain ⟨chain, scope, reached⟩ := outputs
  exact (keeps_laidLaw few begins plain apart).obeys begins reached

end Session

end Stylesheet
