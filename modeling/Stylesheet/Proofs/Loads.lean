import Mathlib.Logic.Relation
import Stylesheet.Cache
import Stylesheet.Proofs.Locations

set_option autoImplicit false

namespace Stylesheet

namespace Cache

variable (cache : Cache)

theorem get?_erase (path other : Path) :
    (cache.erase path).get? other =
      if other.components = path.components then none else cache.get? other :=
  lookup_filter_ne cache.entries other.components path.components

theorem get?_insert (path other : Path) (style : Style) :
    (cache.insert path style).get? other =
      if other.components = path.components then some style else cache.get? other := by
  unfold insert get?
  by_cases same : other.components = path.components
  · simp [same]
  · rw [List.lookup_cons, beq_eq_false_iff_ne.mpr same, if_neg same]
    exact (cache.get?_erase path other).trans (if_neg same)

theorem current?_eq_some_iff {path : Path} {since : Time} {style : Style} :
    cache.current? path since = some style ↔
      cache.get? path = some style ∧ style.modified = since := by
  unfold current?
  rw [Option.filter_eq_some_iff, decide_eq_true_iff]

end Cache

/-- How far a load has come. It looks up when the source was written, compares that time with the
entry, compiles the source if there is no entry for the time, and keeps the result. An editor may
replace the source between any two of these steps. -/
inductive Loading where
  | begun
  /-- It is known when the source was written. -/
  | timed (modified : Time)
  /-- There is no entry for that time. -/
  | missed (modified : Time)
  | compiled (style : Style)
  | ended (result : Except Problem Style)
  deriving DecidableEq

namespace Loading

/-- The time that was looked up and that the source is to be compiled for. -/
def time? : Loading → Option Time
  | timed modified | missed modified => some modified
  | begun | compiled _ | ended _ => none

/-- The next step of a load, and the cache after it. -/
def step (volume : Volume) (options : Options) (path : Path) :
    Cache × Loading → Option (Cache × Loading)
  | (cache, begun) =>
    match volume.modified path with
    | .error fault => some (cache, ended (.error (.unreadable path fault)))
    | .ok modified => some (cache, timed modified)
  | (cache, timed modified) =>
    match cache.current? path modified with
    | some style => some (cache, ended (.ok style))
    | none => some (cache, missed modified)
  | (cache, missed modified) =>
    match compileFile volume options path with
    | .error problem => some (cache, ended (.error problem))
    | .ok css => some (cache, compiled ⟨css, modified⟩)
  | (cache, compiled style) => some (cache.insert path style, ended (.ok style))
  | (_, ended _) => none

inductive Move (volume : Volume) (options : Options) (path : Path) :
    Cache × Loading → Cache × Loading → Prop where
  | unknown {cache : Cache} {fault : Fault} (unknown : volume.modified path = .error fault) :
    Move volume options path (cache, begun) (cache, ended (.error (.unreadable path fault)))
  | timed {cache : Cache} {modified : Time} (known : volume.modified path = .ok modified) :
    Move volume options path (cache, begun) (cache, timed modified)
  | served {cache : Cache} {modified : Time} {style : Style}
      (found : cache.current? path modified = some style) :
    Move volume options path (cache, timed modified) (cache, ended (.ok style))
  | missed {cache : Cache} {modified : Time} (absent : cache.current? path modified = none) :
    Move volume options path (cache, timed modified) (cache, missed modified)
  | failed {cache : Cache} {modified : Time} {problem : Problem}
      (failed : compileFile volume options path = .error problem) :
    Move volume options path (cache, missed modified) (cache, ended (.error problem))
  | compiled {cache : Cache} {modified : Time} {css : Text}
      (made : compileFile volume options path = .ok css) :
    Move volume options path (cache, missed modified) (cache, compiled ⟨css, modified⟩)
  | kept {cache : Cache} {style : Style} :
    Move volume options path (cache, compiled style) (cache.insert path style, ended (.ok style))

variable {volume : Volume} {options : Options} {path : Path} {cache : Cache} {style : Style}
  {s t : Cache × Loading}

theorem step_eq_some_iff : step volume options path s = some t ↔ Move volume options path s t := by
  constructor
  · intro stepped
    unfold step at stepped
    split at stepped
    · split at stepped
      · cases stepped
        exact .unknown ‹_›
      · cases stepped
        exact .timed ‹_›
    · split at stepped
      · cases stepped
        exact .served ‹_›
      · cases stepped
        exact .missed ‹_›
    · split at stepped
      · cases stepped
        exact .failed ‹_›
      · cases stepped
        exact .compiled ‹_›
    · cases stepped
      exact .kept
    · cases stepped
  · intro moved
    cases moved with
    | unknown unknown => simp only [step, unknown]
    | timed known => simp only [step, known]
    | served found => simp only [step, found]
    | missed absent => simp only [step, absent]
    | failed failed => simp only [step, failed]
    | compiled made => simp only [step, made]
    | kept => rfl

/-- The states that a load comes to, if nobody interrupts it. -/
abbrev Reaches (volume : Volume) (options : Options) (path : Path) :
    Cache × Loading → Cache × Loading → Prop :=
  Relation.ReflTransGen (Move volume options path)

/-- A load that nobody interrupts. -/
theorem reaches_load (volume : Volume) (options : Options) (path : Path) (cache : Cache) :
    Reaches volume options path (cache, begun)
      ((cache.load volume options path).2, ended (cache.load volume options path).1) := by
  unfold Cache.load
  cases known : volume.modified path with
  | error fault => exact .single (.unknown known)
  | ok modified =>
    refine .head (.timed known) ?_
    cases found : cache.current? path modified with
    | some style =>
      simp only [found]
      exact .single (.served found)
    | none =>
      simp only [found, Cache.refresh]
      refine .head (.missed found) ?_
      cases made : compileFile volume options path with
      | error problem => exact .single (.failed made)
      | ok css => exact .head (.compiled made) (.single .kept)

/-- What is known in a state that a load has come to. -/
def Accounts (volume : Volume) (options : Options) (path : Path) (cache : Cache) :
    Cache × Loading → Prop
  | (now, begun) => now = cache
  | (now, timed modified) => now = cache ∧ volume.modified path = .ok modified
  | (now, missed modified) =>
    now = cache ∧ volume.modified path = .ok modified ∧ cache.current? path modified = none
  | (now, compiled style) =>
    now = cache ∧ volume.modified path = .ok style.modified ∧
      cache.current? path style.modified = none ∧ compileFile volume options path = .ok style.css
  | (_, ended _) => True

theorem Accounts.move (accounts : Accounts volume options path cache s)
    (moved : Move volume options path s t) : Accounts volume options path cache t := by
  cases moved with
  | unknown => trivial
  | timed known => exact ⟨accounts, known⟩
  | served => trivial
  | missed absent =>
    obtain ⟨rfl, known⟩ := accounts
    exact ⟨rfl, known, absent⟩
  | failed => trivial
  | compiled made =>
    obtain ⟨rfl, known, absent⟩ := accounts
    exact ⟨rfl, known, absent, made⟩
  | kept => trivial

theorem Accounts.reaches (accounts : Accounts volume options path cache s)
    (reached : Reaches volume options path s t) : Accounts volume options path cache t := by
  induction reached with
  | refl => exact accounts
  | tail _ moved ih => exact ih.move moved

def Compiles (volume : Volume) (options : Options) (path : Path) (cache : Cache) (style : Style) :
    Prop :=
  Reaches volume options path (cache, begun) (cache, compiled style)

/-- A load is answered with an entry right after the times were compared. -/
def Serves (volume : Volume) (options : Options) (path : Path) (cache : Cache) (style : Style) :
    Prop :=
  ∃ modified, Move volume options path (cache, begun) (cache, timed modified) ∧
    Move volume options path (cache, timed modified) (cache, ended (.ok style))

theorem compiles_iff : Compiles volume options path cache style ↔
    volume.modified path = .ok style.modified ∧ cache.current? path style.modified = none ∧
      compileFile volume options path = .ok style.css := by
  constructor
  · intro compiles
    have begins : Accounts volume options path cache (cache, begun) := rfl
    exact (begins.reaches compiles).2
  · rintro ⟨known, absent, made⟩
    exact .head (.timed known) (.head (.missed absent) (.single (.compiled made)))

theorem serves_iff : Serves volume options path cache style ↔
    volume.modified path = .ok style.modified ∧ cache.get? path = some style := by
  constructor
  · rintro ⟨modified, timed, served⟩
    cases timed with
    | timed known =>
      cases served with
      | served found =>
        obtain ⟨entry, rfl⟩ := cache.current?_eq_some_iff.mp found
        exact ⟨known, entry⟩
  · rintro ⟨known, entry⟩
    exact ⟨_, .timed known, .served (cache.current?_eq_some_iff.mpr ⟨entry, rfl⟩)⟩

theorem load_of_serves (serves : Serves volume options path cache style) :
    cache.load volume options path = (.ok style, cache) := by
  obtain ⟨known, entry⟩ := serves_iff.mp serves
  unfold Cache.load
  rw [known]
  simp only [cache.current?_eq_some_iff.mpr ⟨entry, rfl⟩]

theorem load_of_compiles (compiles : Compiles volume options path cache style) :
    cache.load volume options path = (.ok style, cache.insert path style) := by
  obtain ⟨known, absent, made⟩ := compiles_iff.mp compiles
  unfold Cache.load
  rw [known]
  simp only [absent, Cache.refresh, made]

/-- A load serves an entry, compiles, or fails and leaves the cache as it is. -/
theorem load_cases (volume : Volume) (options : Options) (path : Path) (cache : Cache) :
    (∃ style, Serves volume options path cache style) ∨
      (∃ style, Compiles volume options path cache style) ∨
      ∃ problem, cache.load volume options path = (.error problem, cache) := by
  unfold Cache.load
  cases known : volume.modified path with
  | error fault => exact .inr (.inr ⟨_, rfl⟩)
  | ok modified =>
    cases found : cache.current? path modified with
    | some style => exact .inl ⟨style, modified, .timed known, .served found⟩
    | none =>
      simp only [found, Cache.refresh]
      cases made : compileFile volume options path with
      | error problem => exact .inr (.inr ⟨problem, rfl⟩)
      | ok css => exact .inr (.inl ⟨⟨css, modified⟩, compiles_iff.mpr ⟨known, found, made⟩⟩)

theorem load_of_not_compiles
    (idle : ∀ style, ¬ Compiles volume options path cache style) :
    (cache.load volume options path).2 = cache := by
  rcases load_cases volume options path cache with
    ⟨style, serves⟩ | ⟨style, compiles⟩ | ⟨problem, failed⟩
  · rw [load_of_serves serves]
  · exact absurd compiles (idle style)
  · rw [failed]

theorem load_eq_error {problem : Problem}
    (failed : (cache.load volume options path).1 = .error problem) :
    cache.load volume options path = (.error problem, cache) := by
  rcases load_cases volume options path cache with
    ⟨style, serves⟩ | ⟨style, compiles⟩ | ⟨other, load⟩
  · rw [load_of_serves serves] at failed
    cases failed
  · rw [load_of_compiles compiles] at failed
    cases failed
  · rw [load] at failed ⊢
    cases failed
    rfl

/-- What a load gives is what the cache then holds. -/
theorem get?_of_load {loaded : Cache}
    (done : cache.load volume options path = (.ok style, loaded)) :
    loaded.get? path = some style := by
  rcases load_cases volume options path cache with
    ⟨other, serves⟩ | ⟨other, compiles⟩ | ⟨problem, failed⟩
  · rw [load_of_serves serves] at done
    cases done
    exact (serves_iff.mp serves).2
  · rw [load_of_compiles compiles] at done
    cases done
    rw [Cache.get?_insert, if_pos rfl]
  · rw [failed] at done
    cases done

end Loading

/-- A load of a stylesheet and an editor who may interrupt it. -/
structure Bench where
  volume : Volume
  cache : Cache
  loading : Loading
  /-- The times at which the stylesheet was written. -/
  used : List Time
  deriving DecidableEq

namespace Bench

inductive Turn where
  /-- The load takes a step. -/
  | load
  /-- The load has ended and another one begins. -/
  | again
  /-- The editor replaces the stylesheet. -/
  | edit (bytes : List UInt8) (time : Time)
  deriving DecidableEq

variable (options : Options) (path : Path) (place : Location)

/-- The state after a turn. The editor writes no two versions of the stylesheet at the same
time. -/
def take (b : Bench) : Turn → Option Bench
  | .load =>
    (Loading.step b.volume options path (b.cache, b.loading)).map fun next =>
      { b with cache := next.1, loading := next.2 }
  | .again =>
    match b.loading with
    | .ended _ => some { b with loading := .begun }
    | _ => none
  | .edit bytes time =>
    if time ∈ b.used then none
    else some { b with volume := b.volume.put place (.file bytes time), used := time :: b.used }

def run (b : Bench) (turns : List Turn) : Option Bench := turns.foldlM (take options path place) b

inductive Took : Turn → Bench → Bench → Prop where
  | load {volume : Volume} {cache cache' : Cache} {loading loading' : Loading} {used : List Time}
      (moved : Loading.Move volume options path (cache, loading) (cache', loading')) :
    Took .load ⟨volume, cache, loading, used⟩ ⟨volume, cache', loading', used⟩
  | again {volume : Volume} {cache : Cache} {result : Except Problem Style} {used : List Time} :
    Took .again ⟨volume, cache, .ended result, used⟩ ⟨volume, cache, .begun, used⟩
  | edit {volume : Volume} {cache : Cache} {loading : Loading} {used : List Time}
      {bytes : List UInt8} {time : Time} (fresh : time ∉ used) :
    Took (.edit bytes time) ⟨volume, cache, loading, used⟩
      ⟨volume.put place (.file bytes time), cache, loading, time :: used⟩

/-- The stylesheet is there, and the time at which it was written is among those used. -/
structure Stands (volume : Volume) (used : List Time) : Prop where
  located : volume.locate .read path = .ok place
  written : ∃ bytes time, volume.node? place = some (.file bytes time) ∧ time ∈ used

structure Begins (b : Bench) : Prop extends Stands path place b.volume b.used where
  noEntries : b.cache = .empty
  idle : b.loading = .begun

/-- A style that is of the stylesheet as it is now, if its time is that of the stylesheet. Because
the time is looked up before the source is read, an entry may be kept for a time that has passed
when its source was written, but never for one that is still to come. -/
structure Genuine (volume : Volume) (used : List Time) (style : Style) : Prop where
  used : style.modified ∈ used
  current : volume.modified path = .ok style.modified →
    compileFile volume options path = .ok style.css

/-- Every style that there is is genuine, and no time is known that was not used. -/
structure Consistent (b : Bench) : Prop extends Stands path place b.volume b.used where
  entry : ∀ style, b.cache.get? path = some style → Genuine options path b.volume b.used style
  compiled : ∀ style, b.loading = .compiled style → Genuine options path b.volume b.used style
  timed : ∀ time, b.loading.time? = some time → time ∈ b.used

variable {options path place} {turn : Turn} {b c : Bench}

theorem took_of_take (taken : b.take options path place turn = some c) :
    Took options path place turn b c := by
  obtain ⟨volume, cache, loading, used⟩ := b
  cases turn with
  | load =>
    obtain ⟨next, stepped, rfl⟩ := Option.map_eq_some_iff.mp taken
    exact .load (Loading.step_eq_some_iff.mp stepped)
  | again =>
    cases loading with
    | ended result =>
      cases taken
      exact .again
    | begun | timed | missed | compiled => cases taken
  | edit bytes time =>
    by_cases stale : time ∈ used
    · simp [take, stale] at taken
    · simp only [take, stale, ↓reduceIte, Option.some.injEq] at taken
      subst taken
      exact .edit stale

/-- A style that was compiled before does not have the time of a new version. -/
theorem Genuine.edit {volume edited : Volume} {used : List Time} {style : Style} {time : Time}
    (genuine : Genuine options path volume used style) (fresh : time ∉ used)
    (known : edited.modified path = .ok time) :
    Genuine options path edited (time :: used) style where
  used := List.mem_cons_of_mem _ genuine.used
  current := by
    intro same
    rw [known] at same
    cases same
    exact absurd genuine.used fresh

theorem Begins.consistent (begins : b.Begins path place) : b.Consistent options path place where
  toStands := begins.toStands
  entry := by simp [begins.noEntries, Cache.empty, Cache.get?]
  compiled := by simp [begins.idle]
  timed := by simp [begins.idle, Loading.time?]

namespace Stands

variable {volume : Volume} {used : List Time} {time : Time}

theorem modified_used (stands : Stands path place volume used)
    (known : volume.modified path = .ok time) : time ∈ used := by
  obtain ⟨bytes, last, file, isUsed⟩ := stands.written
  rw [Volume.modified_of_file stands.located file] at known
  cases known
  exact isUsed

theorem edit (stands : Stands path place volume used) (bytes : List UInt8) (time : Time) :
    Stands path place (volume.put place (.file bytes time)) (time :: used) ∧
      (volume.put place (.file bytes time)).modified path = .ok time := by
  obtain ⟨_, _, file, -⟩ := stands.written
  obtain ⟨located, replaced⟩ := Volume.put_file stands.located file bytes time
  exact ⟨⟨located, bytes, time, replaced, List.mem_cons_self⟩,
    Volume.modified_of_file located replaced⟩

end Stands

namespace Consistent

theorem take (consistent : b.Consistent options path place)
    (taken : b.take options path place turn = some c) : c.Consistent options path place := by
  have ⟨stands, entry, compiled, timed⟩ := consistent
  cases took_of_take taken with
  | load moved =>
    cases moved with
    | unknown | served | failed => exact ⟨stands, entry, by simp, by simp [Loading.time?]⟩
    | timed known =>
      refine ⟨stands, entry, by simp, ?_⟩
      rintro time ⟨⟩
      exact stands.modified_used known
    | missed => exact ⟨stands, entry, by simp, timed⟩
    | compiled made =>
      refine ⟨stands, entry, ?_, by simp [Loading.time?]⟩
      rintro style ⟨⟩
      -- The source may be newer than the time, which then is no longer that of the stylesheet.
      exact ⟨timed _ rfl, fun _ => made⟩
    | kept =>
      refine ⟨stands, ?_, by simp, by simp [Loading.time?]⟩
      intro style found
      rw [Cache.get?_insert, if_pos rfl] at found
      cases found
      exact compiled _ rfl
  | again => exact ⟨stands, entry, by simp, by simp [Loading.time?]⟩
  | @edit volume _ _ _ bytes time fresh =>
    obtain ⟨stands', known⟩ := stands.edit bytes time
    refine ⟨stands', ?_, ?_, ?_⟩
    · exact fun style found => (entry style found).edit fresh known
    · exact fun style phase => (compiled style phase).edit fresh known
    · exact fun time phase => List.mem_cons_of_mem _ (timed time phase)

theorem run (consistent : b.Consistent options path place) {turns : List Turn}
    (ran : b.run options path place turns = some c) : c.Consistent options path place := by
  induction turns generalizing b with
  | nil =>
    cases ran
    exact consistent
  | cons turn turns ih =>
    obtain ⟨next, taken, later⟩ := Option.bind_eq_some_iff.mp ran
    exact ih (consistent.take taken) later

end Consistent

/-- The editor does not touch the load and its cache. -/
theorem run_edits {edits : List (List UInt8 × Time)}
    (ran : b.run options path place (edits.map fun edit => .edit edit.1 edit.2) = some c) :
    c.cache = b.cache ∧ c.loading = b.loading := by
  induction edits generalizing b with
  | nil =>
    cases ran
    exact ⟨rfl, rfl⟩
  | cons edit edits ih =>
    obtain ⟨next, taken, later⟩ := Option.bind_eq_some_iff.mp ran
    obtain ⟨sameCache, sameLoading⟩ := ih later
    cases took_of_take taken with
    | edit => exact ⟨sameCache, sameLoading⟩

/-- A load that ends with the comparison of times has found the time and then an entry for it. -/
theorem served_of_took {s t u w : Bench} {edits : List (List UInt8 × Time)} {style : Style}
    (idle : s.loading = .begun) (timed : s.take options path place .load = some t)
    (edited : t.run options path place (edits.map fun edit => .edit edit.1 edit.2) = some u)
    (compared : u.take options path place .load = some w)
    (served : w.loading = .ended (.ok style)) :
    s.volume.modified path = .ok style.modified ∧ s.cache.get? path = some style := by
  obtain ⟨sameCache, sameLoading⟩ := run_edits edited
  obtain ⟨volume, cache, loading, used⟩ := s
  obtain rfl : loading = .begun := idle
  cases took_of_take timed with
  | load moved =>
    obtain ⟨_, cache', loading', _⟩ := u
    cases moved with
    | unknown =>
      obtain rfl : loading' = .ended _ := sameLoading
      cases took_of_take compared with
      | load moved => cases moved
    | timed known =>
      obtain rfl : loading' = .timed _ := sameLoading
      obtain rfl : cache' = cache := sameCache
      cases took_of_take compared with
      | load moved =>
        cases moved with
        | missed => cases served
        | served found =>
          cases served
          obtain ⟨entry, rfl⟩ := cache'.current?_eq_some_iff.mp found
          exact ⟨known, entry⟩

/-- Loads that nobody interrupts are taken step by step. -/
theorem run_of_reaches {volume : Volume} {used : List Time} {first last : Cache × Loading}
    (reached : Loading.Reaches volume options path first last) :
    ∃ steps, run options path place ⟨volume, first.1, first.2, used⟩ (List.replicate steps .load) =
      some ⟨volume, last.1, last.2, used⟩ := by
  induction reached using Relation.ReflTransGen.head_induction_on with
  | refl => exact ⟨0, rfl⟩
  | head moved _ ih =>
    obtain ⟨steps, ran⟩ := ih
    refine ⟨steps + 1, ?_⟩
    rw [List.replicate_succ, run, List.foldlM_cons, take, Loading.step_eq_some_iff.mpr moved]
    exact ran

end Bench

/-- Whatever the editor does between the steps of the loads, an entry that a load is answered with
was compiled from the stylesheet as it was when the load looked up its time. -/
theorem load_served_current (options : Options) (path : Path) (place : Location)
    (start s t u w : Bench) (turns : List Bench.Turn) (edits : List (List UInt8 × Time))
    (style : Style) (begins : start.Begins path place)
    (reached : start.run options path place turns = some s) (idle : s.loading = .begun)
    (timed : s.take options path place .load = some t)
    (edited : t.run options path place (edits.map fun edit => .edit edit.1 edit.2) = some u)
    (compared : u.take options path place .load = some w)
    (served : w.loading = .ended (.ok style)) :
    (∃ steps, s.run options path place (List.replicate steps .load) =
        some { s with
          cache := (s.cache.load s.volume options path).2,
          loading := .ended (s.cache.load s.volume options path).1 }) ∧
      s.cache.get? path = some style ∧ s.volume.modified path = .ok style.modified ∧
      compileFile s.volume options path = .ok style.css := by
  have undisturbed := Loading.reaches_load s.volume options path s.cache
  rw [← idle] at undisturbed
  have consistent : s.Consistent options path place := begins.consistent.run reached
  obtain ⟨known, entry⟩ := Bench.served_of_took idle timed edited compared served
  exact ⟨Bench.run_of_reaches undisturbed, entry, known,
    (consistent.entry style entry).current known⟩

namespace Interrupted

def draft (source : String) (seconds : Int) : Volume :=
  ⟨[([['a']], .file (Text.encode source.toList) ⟨seconds, 0⟩)], []⟩

def start : Bench := ⟨draft "p \x7b k: blue \x7d" 1, .empty, .begun, [⟨1, 0⟩]⟩

/-- The first load looks up the time of one version and compiles the next one. -/
def turns : List Bench.Turn :=
  [.load, .edit (Text.encode "p \x7b k: red \x7d".toList) ⟨2, 0⟩, .load, .load, .load, .again,
    .load, .load, .load, .load, .again]

def red : Style := ⟨"p \x7b\n  k: red;\n\x7d".toList, ⟨2, 0⟩⟩

/-- A third load is about to begin. -/
def third : Bench :=
  ⟨draft "p \x7b k: red \x7d" 2, ⟨[([.name ['a']], red)]⟩, .begun, [⟨2, 0⟩, ⟨1, 0⟩]⟩

/-- The third load has looked up the time, and the stylesheet was emptied then. -/
def emptied : Bench := ⟨draft "" 3, third.cache, .timed ⟨2, 0⟩, [⟨3, 0⟩, ⟨2, 0⟩, ⟨1, 0⟩]⟩

end Interrupted

theorem interrupted_served :
    Interrupted.start.Begins ⟨['a']⟩ [['a']] ∧
      Interrupted.start.run .default ⟨['a']⟩ [['a']] Interrupted.turns = some Interrupted.third ∧
      Interrupted.emptied.take .default ⟨['a']⟩ [['a']] .load =
        some { Interrupted.emptied with loading := .ended (.ok Interrupted.red) } ∧
      compileFile Interrupted.third.volume .default ⟨['a']⟩ = .ok Interrupted.red.css := by
  have begins : Interrupted.start.Begins ⟨['a']⟩ [['a']] :=
    ⟨⟨by decide +kernel, _, _, rfl, by decide⟩, rfl, rfl⟩
  have reached : Interrupted.start.run .default ⟨['a']⟩ [['a']] Interrupted.turns =
      some Interrupted.third := by decide +kernel
  have compared : Interrupted.emptied.take .default ⟨['a']⟩ [['a']] .load =
      some { Interrupted.emptied with loading := .ended (.ok Interrupted.red) } := by
    decide +kernel
  have served := load_served_current .default ⟨['a']⟩ [['a']] Interrupted.start Interrupted.third
    { Interrupted.third with loading := .timed ⟨2, 0⟩ } Interrupted.emptied
    { Interrupted.emptied with loading := .ended (.ok Interrupted.red) } Interrupted.turns
    [([], ⟨3, 0⟩)] Interrupted.red begins reached rfl (by decide +kernel) (by decide +kernel)
    compared rfl
  exact ⟨begins, reached, compared, served.2.2.2⟩

end Stylesheet
