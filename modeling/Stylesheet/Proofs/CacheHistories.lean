import Stylesheet.Watch
import Stylesheet.Proofs.Loads

set_option autoImplicit false

namespace Stylesheet

section Recompiling

variable {cache loaded : Cache} {volume : Volume} {input : Path} {output : Destination}
  {options : Options} {now : Time}

theorem recompile_of_load_error {problem : Problem}
    (failed : cache.load volume options input = (.error problem, loaded)) :
    recompile cache volume input output options now =
      .ok ⟨loaded, volume, [], some problem⟩ := by
  unfold recompile
  rw [failed]

theorem recompile_of_load_ok {style : Style}
    (done : cache.load volume options input = (.ok style, loaded)) :
    recompile cache volume input output options now =
      ((output.write volume style.css now).mapError (·, loaded)).map fun written =>
        ⟨loaded, written.1, written.2, none⟩ := by
  unfold recompile
  simp only [done]
  cases output.write volume style.css now <;> rfl

end Recompiling

inductive Cache.Call where
  | load (path : Path) (options : Options)
  | get (path : Path)
  | erase (path : Path)
  deriving DecidableEq

def Cache.answer (cache : Cache) (volume : Volume) : Cache.Call → Cache
  | .load path options => (cache.load volume options path).2
  | .get _ => cache
  | .erase path => cache.erase path

structure Desk where
  volume : Volume
  cache : Cache

inductive Deed where
  /-- Files are written, touched or removed by others. -/
  | change (volume : Volume)
  | call (call : Cache.Call)
  /-- A stylesheet is compiled through the cache and the output is written. -/
  | recompile (input : Path) (output : Destination) (options : Options) (now : Time)

namespace Deed

/-- The stylesheet that is loaded, and the options for it. -/
def load? : Deed → Option (Path × Options)
  | call (.load path options) | recompile path _ options _ => some (path, options)
  | change _ | call (.get _) | call (.erase _) => none

/-- The entry of a path is loaded, perhaps by another spelling of the path. -/
def Loads (deed : Deed) (path : Path) : Prop :=
  ∃ source options, deed.load? = some (source, options) ∧ source.components = path.components

/-- The entry of a path is taken away. -/
def Erases (deed : Deed) (path : Path) : Prop :=
  ∃ other, deed = call (.erase other) ∧ other.components = path.components

end Deed

namespace Desk

def step (d : Desk) : Deed → Desk
  | .change volume => { d with volume }
  | .call call => { d with cache := d.cache.answer d.volume call }
  | .recompile input output options now =>
    match recompile d.cache d.volume input output options now with
    | .error failed => { d with cache := failed.2 }
    | .ok done => ⟨done.volume, done.cache⟩

def run (d : Desk) (deeds : List Deed) : Desk := deeds.foldl step d

def Compiles (d : Desk) (deed : Deed) (path : Path) (style : Style) : Prop :=
  ∃ source options, deed.load? = some (source, options) ∧ source.components = path.components ∧
    Loading.Compiles d.volume options source d.cache style

/-- Some deeds neither compile a path nor take its entry away. -/
def Undisturbed (path : Path) : Desk → List Deed → Prop
  | _, [] => True
  | d, deed :: deeds =>
    (¬ deed.Erases path ∧ ∀ style, ¬ d.Compiles deed path style) ∧
      Undisturbed path (d.step deed) deeds

variable {d : Desk} {deed : Deed} {path : Path} {style : Style}

theorem run_cons (d : Desk) (deed : Deed) (deeds : List Deed) :
    d.run (deed :: deeds) = (d.step deed).run deeds := rfl

theorem run_append (d : Desk) (deeds deeds' : List Deed) :
    d.run (deeds ++ deeds') = (d.run deeds).run deeds' := List.foldl_append

theorem run_concat (d : Desk) (deeds : List Deed) (deed : Deed) :
    d.run (deeds ++ [deed]) = (d.run deeds).step deed := d.run_append deeds [deed]

/-- Recompiling a stylesheet loads it, whether or not the output can be written. -/
theorem cache_step_of_load {source : Path} {options : Options}
    (loads : deed.load? = some (source, options)) :
    (d.step deed).cache = (d.cache.load d.volume options source).2 := by
  cases deed with
  | change => cases loads
  | call call =>
    cases call with
    | load => cases loads; rfl
    | get | erase => cases loads
  | recompile input output options' now =>
    cases loads
    unfold step
    cases loaded : d.cache.load d.volume options source with
    | mk result cache =>
      cases result with
      | error problem => simp only [recompile_of_load_error loaded]
      | ok style =>
        simp only [recompile_of_load_ok loaded]
        cases output.write d.volume style.css now <;> rfl

theorem get?_of_erases (erases : deed.Erases path) : (d.step deed).cache.get? path = none := by
  obtain ⟨other, rfl, same⟩ := erases
  exact (d.cache.get?_erase other path).trans (if_pos same.symm)

theorem get?_of_compiles (compiles : d.Compiles deed path style) :
    (d.step deed).cache.get? path = some style := by
  obtain ⟨source, options, loads, same, compiles⟩ := compiles
  rw [cache_step_of_load loads, Loading.load_of_compiles compiles, Cache.get?_insert,
    if_pos same.symm]

theorem get?_of_undisturbed (kept : ¬ deed.Erases path)
    (idle : ∀ style, ¬ d.Compiles deed path style) :
    (d.step deed).cache.get? path = d.cache.get? path := by
  cases loads : deed.load? with
  | none =>
    cases deed with
    | change => rfl
    | call call =>
      cases call with
      | load => cases loads
      | get => rfl
      | erase other =>
        refine (d.cache.get?_erase other path).trans (if_neg fun same => ?_)
        exact kept ⟨other, rfl, same.symm⟩
    | recompile => cases loads
  | some load =>
    obtain ⟨source, options⟩ := load
    rw [cache_step_of_load loads]
    rcases Loading.load_cases d.volume options source d.cache with
      ⟨style, serves⟩ | ⟨style, compiles⟩ | ⟨problem, failed⟩
    · rw [Loading.load_of_serves serves]
    · rw [Loading.load_of_compiles compiles, Cache.get?_insert, if_neg]
      exact fun same => idle style ⟨source, options, loads, same.symm, compiles⟩
    · rw [failed]

theorem Undisturbed.get? {deeds : List Deed} (undisturbed : Undisturbed path d deeds) :
    (d.run deeds).cache.get? path = d.cache.get? path := by
  induction deeds generalizing d with
  | nil => rfl
  | cons deed deeds ih =>
    obtain ⟨⟨kept, idle⟩, later⟩ := undisturbed
    rw [run_cons, ih later, get?_of_undisturbed kept idle]

theorem Undisturbed.not_erases {deeds : List Deed} (undisturbed : Undisturbed path d deeds) :
    ∀ deed ∈ deeds, ¬ deed.Erases path := by
  induction deeds generalizing d with
  | nil => simp
  | cons deed deeds ih => exact List.forall_mem_cons.mpr ⟨undisturbed.1.1, ih undisturbed.2⟩

/-- Either nothing was done about a path, or something was done last. -/
theorem undisturbed_or_last (d : Desk) (path : Path) (deeds : List Deed) :
    Undisturbed path d deeds ∨
      ∃ before deed after, deeds = before ++ deed :: after ∧
        (deed.Erases path ∨ ∃ style, (d.run before).Compiles deed path style) ∧
        Undisturbed path (d.run (before ++ [deed])) after := by
  induction deeds generalizing d with
  | nil => exact .inl trivial
  | cons first deeds ih =>
    rcases ih (d.step first) with undisturbed | ⟨before, deed, after, rfl, last, undisturbed⟩
    · by_cases disturbs : first.Erases path ∨ ∃ style, d.Compiles first path style
      · exact .inr ⟨[], first, deeds, rfl, disturbs, undisturbed⟩
      · rw [not_or, not_exists] at disturbs
        exact .inl ⟨disturbs, undisturbed⟩
    · exact .inr ⟨first :: before, deed, after, rfl, last, undisturbed⟩

/-- An entry is of the last time that its path was compiled. -/
theorem exists_last_compiled {deeds : List Deed} (noEntry : d.cache.get? path = none)
    (entry : (d.run deeds).cache.get? path = some style) :
    ∃ before deed after, deeds = before ++ deed :: after ∧
      (d.run before).Compiles deed path style ∧
      Undisturbed path (d.run (before ++ [deed])) after := by
  rcases undisturbed_or_last d path deeds with
    undisturbed | ⟨before, deed, after, rfl, last, undisturbed⟩
  · rw [undisturbed.get?, noEntry] at entry
    cases entry
  · have same : (d.run (before ++ [deed])).cache.get? path = some style := by
      rw [← undisturbed.get?, ← run_append, List.append_assoc]
      exact entry
    rw [run_concat] at same
    rcases last with erases | ⟨other, compiles⟩
    · rw [get?_of_erases erases] at same
      cases same
    · rw [get?_of_compiles compiles] at same
      cases same
      exact ⟨before, deed, after, rfl, compiles, undisturbed⟩

/-- Only taking an entry away makes it disappear. -/
theorem isSome_get?_run {deeds : List Deed} (kept : ∀ deed ∈ deeds, ¬ deed.Erases path)
    (entry : (d.cache.get? path).isSome = true) :
    ((d.run deeds).cache.get? path).isSome = true := by
  induction deeds generalizing d with
  | nil => exact entry
  | cons deed deeds ih =>
    rw [List.forall_mem_cons] at kept
    rw [run_cons]
    refine ih kept.2 ?_
    by_cases compiles : ∃ style, d.Compiles deed path style
    · obtain ⟨style, compiles⟩ := compiles
      rw [get?_of_compiles compiles]
      rfl
    · rw [get?_of_undisturbed kept.1 (not_exists.mp compiles)]
      exact entry

/-- A load that fails changes nothing, and neither does recompiling then. -/
theorem step_of_load_error {source : Path} {options : Options} {problem : Problem}
    (loads : deed.load? = some (source, options))
    (failed : (d.cache.load d.volume options source).1 = .error problem) : d.step deed = d := by
  have load := Loading.load_eq_error failed
  cases deed with
  | change => cases loads
  | call call =>
    cases call with
    | load =>
      cases loads
      simp only [step, Cache.answer, load]
    | get | erase => cases loads
  | recompile input output options' now =>
    cases loads
    simp only [step, recompile_of_load_error load]

/-- What entries tell of the deeds. -/
structure Traces (start : Desk) (deeds : List Deed) : Prop where
  /-- There is an entry exactly if the path was compiled since the entry was last taken away. -/
  present : ∀ path, (∃ style, (start.run deeds).cache.get? path = some style) ↔
    ∃ before deed after style, deeds = before ++ deed :: after ∧
      (start.run before).Compiles deed path style ∧ ∀ later ∈ after, ¬ later.Erases path
  /-- The entry is of the last time that the path was compiled. -/
  latest : ∀ path style, (start.run deeds).cache.get? path = some style →
    ∃ before deed after source options, deeds = before ++ deed :: after ∧
      (start.run before).Compiles deed path style ∧
      Undisturbed path (start.run (before ++ [deed])) after ∧
      deed.load? = some (source, options) ∧ source.components = path.components ∧
      (start.run before).volume.modified source = .ok style.modified ∧
      compileFile (start.run before).volume options source = .ok style.css

/-- What deeds do to entries and files. -/
structure Lawful (d : Desk) : Prop where
  /-- An entry is served without compiling exactly if its time is that of the source. -/
  served : ∀ path options style, d.cache.get? path = some style →
    ((Loading.Serves d.volume options path d.cache style ∧
        d.cache.load d.volume options path = (.ok style, d.cache)) ↔
      d.volume.modified path = .ok style.modified)
  /-- What fails leaves all entries and all files as they are. -/
  failed : ∀ deed source options problem, deed.load? = some (source, options) →
    (d.cache.load d.volume options source).1 = .error problem → d.step deed = d
  others : ∀ deed path, ¬ deed.Loads path → ¬ deed.Erases path →
    (d.step deed).cache.get? path = d.cache.get? path
  /-- The output file holds what the entry holds. -/
  written : ∀ input output options now done,
    recompile d.cache d.volume input (.file output) options now = .ok done →
    done.problem = none →
    ∃ style, done.cache.get? input = some style ∧
      done.volume.read output = .ok (Text.encode style.css)

theorem traces_of_empty (volume : Volume) (deeds : List Deed) :
    Traces ⟨volume, .empty⟩ deeds where
  present := by
    intro path
    constructor
    · rintro ⟨style, entry⟩
      obtain ⟨before, deed, after, rfl, compiles, undisturbed⟩ := exists_last_compiled rfl entry
      exact ⟨before, deed, after, style, rfl, compiles, undisturbed.not_erases⟩
    · rintro ⟨before, deed, after, style, rfl, compiles, kept⟩
      rw [run_append, run_cons]
      refine Option.isSome_iff_exists.mp (isSome_get?_run kept ?_)
      rw [get?_of_compiles compiles]
      rfl
  latest := by
    intro path style entry
    obtain ⟨before, deed, after, parts, compiles, undisturbed⟩ := exists_last_compiled rfl entry
    have ⟨source, options, loads, same, compiled⟩ := compiles
    obtain ⟨known, -, made⟩ := Loading.compiles_iff.mp compiled
    exact ⟨before, deed, after, source, options, parts, compiles, undisturbed, loads, same, known,
      made⟩

theorem read_of_recompile {input output : Path} {options : Options} {now : Time} {done : Recompiled}
    (recompiled : recompile d.cache d.volume input (.file output) options now = .ok done)
    (noProblem : done.problem = none) :
    ∃ style, done.cache.get? input = some style ∧
      done.volume.read output = .ok (Text.encode style.css) := by
  cases load : d.cache.load d.volume options input with
  | mk result loaded =>
    cases result with
    | error problem =>
      rw [recompile_of_load_error load] at recompiled
      cases recompiled
      cases noProblem
    | ok style =>
      rw [recompile_of_load_ok load] at recompiled
      unfold Destination.write at recompiled
      cases written : d.volume.write output (Text.encode style.css) now with
      | error fault =>
        simp only [written] at recompiled
        cases recompiled
      | ok volume =>
        simp only [written] at recompiled
        cases recompiled
        exact ⟨style, Loading.get?_of_load load, Volume.read_write written⟩

theorem lawful (d : Desk) : d.Lawful where
  served := by
    intro path options style entry
    constructor
    · exact fun serves => (Loading.serves_iff.mp serves.1).1
    · intro known
      have serves : Loading.Serves d.volume options path d.cache style :=
        Loading.serves_iff.mpr ⟨known, entry⟩
      exact ⟨serves, Loading.load_of_serves serves⟩
  failed := fun _ _ _ _ loads failed => step_of_load_error loads failed
  others := by
    intro deed path other kept
    refine get?_of_undisturbed kept ?_
    rintro style ⟨source, options, loads, same, -⟩
    exact other ⟨source, options, loads, same⟩
  written := fun _ _ _ _ _ recompiled noProblem => read_of_recompile recompiled noProblem

end Desk

/-- Whatever is done at a desk that had no entries, the entries tell of it, and each further deed
does to them what it should. -/
theorem run_traces (volume : Volume) (deeds : List Deed) :
    Desk.Traces ⟨volume, .empty⟩ deeds ∧ (Desk.run ⟨volume, .empty⟩ deeds).Lawful :=
  ⟨Desk.traces_of_empty volume deeds, Desk.lawful _⟩

def shelf : Volume :=
  ⟨[([['a']], .file (Text.encode "p \x7b k: v \x7d".toList) ⟨1, 0⟩)], []⟩

def minified : Options := { Options.default with minify := true }

/-- The stylesheet is broken for a while, and is recompiled then. -/
def mending : List Deed :=
  [.call (.load ⟨['a']⟩ .default),
    .change ⟨[([['a']], .file (Text.encode "p \x7b".toList) ⟨2, 0⟩)], []⟩,
    .recompile ⟨['a']⟩ (.file ⟨['o']⟩) .default ⟨3, 0⟩, .change shelf]

/-- The entry outlives the broken stylesheet and is served again. -/
theorem mending_traces :
    (Desk.run ⟨shelf, .empty⟩ mending).cache.get? ⟨['a']⟩ =
        some ⟨"p \x7b\n  k: v;\n\x7d".toList, ⟨1, 0⟩⟩ ∧
      Loading.Serves (Desk.run ⟨shelf, .empty⟩ mending).volume .default ⟨['a']⟩
        (Desk.run ⟨shelf, .empty⟩ mending).cache ⟨"p \x7b\n  k: v;\n\x7d".toList, ⟨1, 0⟩⟩ := by
  have entry : (Desk.run ⟨shelf, .empty⟩ mending).cache.get? ⟨['a']⟩ =
      some ⟨"p \x7b\n  k: v;\n\x7d".toList, ⟨1, 0⟩⟩ := by decide +kernel
  have served := ((run_traces shelf mending).2.served ⟨['a']⟩ .default _ entry).mpr
    (by decide +kernel)
  exact ⟨entry, served.1⟩

section Compiling

variable {volume : Volume} {options : Options} {path : Path}

theorem compileFile_of_canonical_error {fault : Fault}
    (unknown : volume.canonical path = .error fault) :
    compileFile volume options path = .error (.unreadable path fault) := by
  unfold compileFile Sheet.read
  simp only [unknown]

/-- A stylesheet may be named by any path that leads to it. -/
theorem compileFile_of_canonical_eq {path' : Path} {css : Text}
    (same : volume.canonical path = volume.canonical path')
    (made : compileFile volume options path = .ok css) :
    compileFile volume options path' = .ok css := by
  cases read : Sheet.read volume path with
  | error problem =>
    unfold compileFile at made
    rw [read] at made
    cases made
  | ok sheet =>
    obtain ⟨canonical, source⟩ := Sheet.read_eq_ok read
    have again : Sheet.read volume path' = .ok sheet := by
      unfold Sheet.read
      simp only [← same, canonical, source]
    unfold compileFile at made ⊢
    rw [read] at made
    rw [again]
    exact made

end Compiling

namespace Cache

/-- The cache after some calls, while the files stay as they are. -/
def answers (cache : Cache) (volume : Volume) (calls : List Call) : Cache :=
  calls.foldl (fun cache call => cache.answer volume call) cache

/-- The options that count for the entry of a path after one more call. A load counts if there is
no entry yet and it succeeds. -/
def optionsAfter (volume : Volume) (path : Path) (kept : Option Options) : Call → Option Options
  | .load source options =>
    if source.components = path.components && kept.isNone && (volume.modified source).isOk &&
        (compileFile volume options source).isOk then some options
    else kept
  | .get _ => kept
  | .erase other => if other.components = path.components then none else kept

/-- The options of the first load of a path that succeeded since its entry was last taken away. -/
def firstOptions (volume : Volume) (path : Path) (calls : List Call) : Option Options :=
  calls.foldl (optionsAfter volume path) none

inductive Origin (volume : Volume) (path : Path) : Option Options → Option Style → Prop where
  | absent : Origin volume path none none
  | compiled {options : Options} {source : Path} {style : Style}
      (same : source.components = path.components)
      (known : volume.modified source = .ok style.modified)
      (made : compileFile volume options source = .ok style.css) :
    Origin volume path (some options) (some style)

variable {cache : Cache} {volume : Volume} {path : Path} {kept : Option Options}

theorem get?_congr {other : Path} (same : other.components = path.components) :
    cache.get? other = cache.get? path := by
  unfold get?
  rw [same]

theorem optionsAfter_load_of_ne {source : Path} {options : Options}
    (other : source.components ≠ path.components) :
    optionsAfter volume path kept (.load source options) = kept := by
  simp [optionsAfter, other]

theorem optionsAfter_load_of_some {source : Path} {options first : Options} :
    optionsAfter volume path (some first) (.load source options) = some first := by
  simp [optionsAfter]

/-- Where there is no entry, a load counts exactly if it compiles. -/
theorem optionsAfter_load_of_none {source : Path} {options : Options}
    (same : source.components = path.components) (noEntry : cache.get? path = none) :
    (optionsAfter volume path none (.load source options) = some options ∧
        ∃ style, Loading.Compiles volume options source cache style) ∨
      (optionsAfter volume path none (.load source options) = none ∧
        ∀ style, ¬ Loading.Compiles volume options source cache style) := by
  have absent : ∀ since, cache.current? source since = none := by
    intro since
    rw [current?, get?_congr same, noEntry]
    rfl
  simp only [optionsAfter, same, Loading.compiles_iff, absent, true_and]
  cases volume.modified source with
  | error fault => exact .inr ⟨rfl, by simp⟩
  | ok modified =>
    cases compileFile volume options source with
    | error problem => exact .inr ⟨rfl, by simp⟩
    | ok css => exact .inl ⟨rfl, ⟨css, modified⟩, rfl, rfl⟩

/-- While the files stay as they are, an entry stays current. -/
theorem Origin.not_compiles {options first : Options} {source : Path} {style : Style}
    (origin : Origin volume path (some first) (cache.get? path))
    (same : source.components = path.components) :
    ¬ Loading.Compiles volume options source cache style := by
  intro compiles
  obtain ⟨known, absent, -⟩ := Loading.compiles_iff.mp compiles
  generalize entry : cache.get? path = kept at origin
  cases origin with
  | @compiled _ _ kept same' known' made =>
    have timely := (Volume.modified_spelling (same'.trans same.symm) known' known).1
    have found : cache.current? source style.modified = some kept :=
      cache.current?_eq_some_iff.mpr ⟨(get?_congr same).trans entry, timely⟩
    rw [absent] at found
    cases found

theorem Origin.erase (origin : Origin volume path kept (cache.get? path)) (other : Path) :
    Origin volume path (optionsAfter volume path kept (.erase other))
      ((cache.erase other).get? path) := by
  rw [get?_erase]
  by_cases same : other.components = path.components
  · rw [if_pos same.symm, show optionsAfter volume path kept (.erase other) = none from if_pos same]
    exact .absent
  · rw [if_neg (Ne.symm same),
      show optionsAfter volume path kept (.erase other) = kept from if_neg same]
    exact origin

theorem Origin.load (origin : Origin volume path kept (cache.get? path)) (source : Path)
    (options : Options) :
    Origin volume path (optionsAfter volume path kept (.load source options))
      ((cache.load volume options source).2.get? path) := by
  by_cases same : source.components = path.components
  · cases kept with
    | some first =>
      rw [optionsAfter_load_of_some,
        Loading.load_of_not_compiles fun style => origin.not_compiles same]
      exact origin
    | none =>
      have noEntry : cache.get? path = none := by
        cases entry : cache.get? path with
        | none => rfl
        | some style => rw [entry] at origin; cases origin
      rcases optionsAfter_load_of_none same noEntry with ⟨counts, style, compiles⟩ | ⟨counts, idle⟩
      · obtain ⟨known, -, made⟩ := Loading.compiles_iff.mp compiles
        rw [counts, Loading.load_of_compiles compiles, get?_insert, if_pos same.symm]
        exact .compiled same known made
      · rw [counts, Loading.load_of_not_compiles idle]
        exact origin
  · have others := (Desk.lawful ⟨volume, cache⟩).others (.call (.load source options)) path
      (by rintro ⟨_, _, ⟨⟩, again⟩; exact same again) (by rintro ⟨_, ⟨⟩, -⟩)
    rw [optionsAfter_load_of_ne same]
    exact others ▸ origin

theorem answers_origin (volume : Volume) (path : Path) (calls : List Call) :
    Origin volume path (firstOptions volume path calls)
      ((empty.answers volume calls).get? path) := by
  have after : ∀ (cache : Cache) (kept : Option Options),
      Origin volume path kept (cache.get? path) →
      Origin volume path (calls.foldl (optionsAfter volume path) kept)
        ((cache.answers volume calls).get? path) := by
    induction calls with
    | nil => exact fun _ _ origin => origin
    | cons call calls ih =>
      intro cache kept origin
      refine ih (cache.answer volume call) _ ?_
      cases call with
      | load source options => exact origin.load source options
      | get => exact origin
      | erase other => exact origin.erase other
  exact after empty none .absent

theorem load_of_long {options : Options}
    (long : Volume.pathLimit ≤ Text.byteLength path.text) :
    cache.load volume options path =
      (.error (.unreadable path
        (if path.text.contains '\x00' then .nullCharacter else .nameTooLong)), cache) := by
  have unknown : volume.modified path = .error
      (if path.text.contains '\x00' then .nullCharacter else .nameTooLong) := by
    unfold Volume.modified Volume.locate
    rw [if_pos long]
    split <;> rfl
  unfold Cache.load
  simp only [unknown]

/-- A load without an entry gives what compiling gives. -/
theorem load_of_no_entry {options : Options} {time : Time} (noEntry : cache.get? path = none)
    (known : volume.modified path = .ok time) :
    (cache.load volume options path).1.map Style.css = compileFile volume options path := by
  have absent : cache.current? path time = none := by
    rw [current?, noEntry]
    rfl
  unfold Cache.load refresh
  simp only [known, absent]
  cases compileFile volume options path <;> rfl

end Cache

/-- While the files stay as they are, a load gives what compiling gives with the options of the
first load that succeeded. A path that is too long cannot be loaded, although it can be compiled. -/
theorem load_eq_compileFile (volume : Volume) (sound : volume.Sound) (calls : List Cache.Call)
    (path : Path) (options : Options) :
    (Text.byteLength path.text < Volume.pathLimit →
      ((Cache.empty.answers volume calls).load volume options path).1.map Style.css =
        compileFile volume ((Cache.firstOptions volume path calls).getD options) path) ∧
    (Volume.pathLimit ≤ Text.byteLength path.text →
      (Cache.empty.answers volume calls).load volume options path =
        (.error (.unreadable path
            (if path.text.contains '\x00' then .nullCharacter else .nameTooLong)),
          Cache.empty.answers volume calls)) := by
  constructor
  · intro short
    have origin := Cache.answers_origin volume path calls
    cases known : volume.modified path with
    | error fault =>
      have unknown := Volume.canonical_of_modified_error sound short known
      rw [compileFile_of_canonical_error unknown]
      unfold Cache.load
      simp only [known]
      rfl
    | ok time =>
      generalize entry : (Cache.empty.answers volume calls).get? path = style,
        Cache.firstOptions volume path calls = first at origin
      cases origin with
      | absent => exact Cache.load_of_no_entry entry known
      | compiled same known' made =>
        obtain ⟨rfl, canonical⟩ := Volume.modified_spelling same known' known
        rw [Loading.load_of_serves (Loading.serves_iff.mpr ⟨known, entry⟩)]
        exact (compileFile_of_canonical_eq canonical made).symm
  · exact Cache.load_of_long

/-- A stylesheet is loaded by two spellings of its path, and another one is missing. -/
def spellings : List Cache.Call :=
  [.load ⟨"/b".toList⟩ minified, .load ⟨"/a".toList⟩ .default, .get ⟨"/a".toList⟩,
    .load ⟨"//a".toList⟩ minified]

theorem shelf_load :
    shelf.Sound ∧
      ((Cache.empty.answers shelf spellings).load shelf minified ⟨"/./a".toList⟩).1.map
          Style.css = compileFile shelf .default ⟨"/./a".toList⟩ := by
  have sound : shelf.Sound := ⟨by simp [shelf], by
    intro outer before
    rw [List.prefix_nil.mp before]
    rfl⟩
  have first : Cache.firstOptions shelf ⟨"/./a".toList⟩ spellings = some .default := by
    decide +kernel
  have given := (load_eq_compileFile shelf sound spellings ⟨"/./a".toList⟩ minified).1
    (by decide +kernel)
  rw [first] at given
  exact ⟨sound, given⟩

def longPath : Path := Path.dotted ⟨['a']⟩ 2048

/-- A load may give what was compiled with other options, and it may fail where compiling does
not. -/
theorem load_ne_compileFile :
    ((Cache.empty.answers shelf [.load ⟨['a']⟩ .default]).load shelf minified ⟨['a']⟩).1.map
        Style.css ≠ compileFile shelf minified ⟨['a']⟩ ∧
      ((Cache.empty.answers shelf []).load shelf .default longPath).1.map Style.css ≠
        compileFile shelf .default longPath := by
  constructor
  · decide +kernel
  · have long : Volume.pathLimit ≤ Text.byteLength longPath.text := by
      rw [longPath, Path.byteLength_dotted]
      decide
    have same : shelf.canonical ⟨['a']⟩ = shelf.canonical longPath := by
      unfold Volume.canonical longPath
      rw [Volume.reach_dotted rfl rfl (List.cons_ne_nil _ _)]
    have made : compileFile shelf .default ⟨['a']⟩ = .ok "p \x7b\n  k: v;\n\x7d".toList := by
      decide +kernel
    rw [Cache.load_of_long long, compileFile_of_canonical_eq same made]
    exact fun equal => by cases equal

end Stylesheet
