import Stylesheet.Proofs.Declared
import Stylesheet.Proofs.Settled
import Stylesheet.Proofs.Written

set_option autoImplicit false

namespace Stylesheet

open Scan (isGap isRunning spaced)

def Forest.remarked (texts : List Text) (forest : Forest) : Forest :=
  texts.foldr (fun text later => .entry (.comment text) later) forest

namespace Forest

variable (texts : List Text) (forest : Forest)

theorem stream_remarked :
    (forest.remarked texts).stream =
      texts.map (fun text => .entry (.comment text)) ++ forest.stream := by
  induction texts with
  | nil => rfl
  | cons text texts ih => exact congrArg _ ih

theorem inlined_remarked (volume : Volume) (directory : Path) :
    (forest.remarked texts).inlined volume directory =
      (forest.inlined volume directory).remarked texts := by
  induction texts with
  | nil => rfl
  | cons text texts ih => exact congrArg _ ih

theorem lines_suffix_remarked (depth : Nat) :
    forest.lines depth <:+ (forest.remarked texts).lines depth := by
  induction texts with
  | nil => exact List.suffix_rfl
  | cons text texts ih => exact ih.trans (List.suffix_append _ _)

theorem print_suffix_remarked (ancestors : List Text) (depth : Nat) :
    forest.print ancestors depth <:+ (forest.remarked texts).print ancestors depth := by
  induction texts with
  | nil => exact List.suffix_rfl
  | cons text texts ih => exact ih.trans (List.suffix_append _ _)

end Forest

/-- The body of a rule as it is written. -/
inductive Body where
  | done (blanks : Text)
  | declaration (key value : Text) (rest : Body)
  | rule (selector : Text) (inner rest : Body)
  deriving DecidableEq, Repr

namespace Body

def text : Body → Text
  | done blanks => blanks
  | declaration key value rest => key ++ ':' :: (value ++ ';' :: rest.text)
  | rule selector inner rest => selector ++ '{' :: (inner.text ++ '}' :: rest.text)

/-- The declarations of a body as they are written, those of the rules in it included. -/
def declarations : Body → List Declaration
  | done _ => []
  | declaration key value rest => ⟨key, value⟩ :: rest.declarations
  | rule _ inner rest => inner.declarations ++ rest.declarations

/-- Whether all of a body is of the form that its constructors say. -/
def isWellFormed : Body → Bool
  | done blanks => blanks.all isGap
  | declaration key value rest =>
    key.all isRunning && ':' ∉ key && Text.trim (spaced key) ≠ [] && value.isValue &&
      '$' ∉ value && '\r' ∉ value && rest.isWellFormed
  | rule selector inner rest => selector.all isRunning && inner.isWellFormed && rest.isWellFormed

/-- Whether there are only rules, so that they need no rule around them. -/
def isSheet : Body → Bool
  | done _ => true
  | declaration _ _ _ => false
  | rule _ _ rest => rest.isSheet

/-- The tree of a body. The comments in a value come before its declaration. -/
def forest : Body → Forest
  | done _ => .empty
  | declaration key value rest =>
    .remarked value.remarks
      (.entry (.declaration (Text.trim (spaced key)) (Text.trim value.spoken)) rest.forest)
  | rule selector inner rest =>
    .block (.rule (Text.trim (spaced selector))) inner.forest rest.forest

end Body

theorem Construct.isVerbatim_eq_false {c : Construct} (isBlock : c.isBlock) :
    c.isVerbatim = false := by
  cases c <;> first | rfl | cases isBlock

/-- A declaration is read in the body of a rule. -/
theorem Scan.Rests.declared {s : Scan} {outer : List Construct} {tokens : List Token}
    (h : s.Rests (.rule :: outer) tokens) (inBlocks : ∀ c ∈ outer, c.isBlock) {key value : Text}
    (keyRuns : ∀ c ∈ key, isRunning c) (uncut : ':' ∉ key) (visible : Text.trim (spaced key) ≠ [])
    (isValue : value.isValue) (rest : Text) :
    ∃ next : Scan,
      next.Rests (.rule :: outer)
        (.property (Text.trim (spaced key)) (Text.trim value.spoken) 0 ::
          ((value.remarks.map (Token.comment · 0)).reverse ++ tokens)) ∧
      s.run (key ++ ':' :: (value ++ ';' :: rest)) = next.run rest := by
  have inRule : s.top = some .rule := h.top_eq
  have outside : s.inVerbatim = false := h.inVerbatim_eq (by simp [Construct.isBlock])
  obtain ⟨position, read⟩ := run_running s key (':' :: (value ++ ';' :: rest)) keyRuns outside
    (fun _ clash => by simp [inRule] at clash) (fun u v split => absurd (by simp [split]) uncut)
  have text := h.text_eq (spaced key)
  obtain ⟨_, pending, _, _, frames, tokens'⟩ := s
  obtain ⟨blank, rfl, rfl, constructs, rfl⟩ := h
  have bare : ∀ f ∈ frames, f.construct.isVerbatim = false := by
    intro f member
    have all : ∀ c ∈ Construct.rule :: outer, c.isBlock := List.forall_mem_cons.mpr ⟨rfl, inBlocks⟩
    exact Construct.isVerbatim_eq_false (all _ (constructs ▸ List.mem_map_of_mem member))
  let x : Spot := ⟨none, frames, bare⟩
  have keyed : Text.trim ((spaced key).reverse ++ pending).reverse ≠ [] := by
    rwa [text]
  obtain ⟨p', remarks, comments, read'⟩ := Spot.run_declaration (x := x) position
    ((spaced key).reverse ++ pending) tokens' inRule rfl keyed (Text.isValue_of isValue) rest
  rw [text] at read'
  refine ⟨x.reader p' [] _, ⟨by simp [Spot.reader], rfl, rfl, constructs, ?_⟩, read.trans read'⟩
  simp [Spot.reader, comments, Token.unlined]

namespace Body

variable {s : Scan} {blocks : List Construct} {tokens : List Token}

/-- A body is read as its tree. -/
theorem read {body : Body} (wellFormed : body.isWellFormed) (h : s.Rests blocks tokens)
    (inBlocks : ∀ c ∈ blocks, c.isBlock) (placed : blocks.head? = some .rule ∨ body.isSheet)
    (rest : Text) :
    ∃ next : Scan,
      next.Rests blocks ((body.forest.stream.map Resolved.token).reverse ++ tokens) ∧
      s.run (body.text ++ rest) = next.run rest := by
  have inBlock {blocks : List Construct} (inBlocks : ∀ c ∈ blocks, c.isBlock) :
      ∀ c ∈ blocks.head?, c.isBlock :=
    fun c member => inBlocks c (List.mem_of_mem_head? member)
  induction body generalizing s blocks tokens rest with
  | done blanks =>
    simp only [isWellFormed, List.all_eq_true] at wellFormed
    induction blanks generalizing s with
    | nil => exact ⟨s, h, rfl⟩
    | cons c blanks ih =>
      obtain ⟨gap, later⟩ := List.forall_mem_cons.mp wellFormed
      obtain ⟨next, rests, read⟩ := h.gap (inBlock inBlocks) gap (blanks ++ rest)
      obtain ⟨last, restsLast, readLast⟩ := ih rests placed later
      exact ⟨last, restsLast, read.trans readLast⟩
  | declaration key value later ih =>
    simp only [isWellFormed, Bool.and_eq_true, List.all_eq_true, decide_eq_true_eq] at wellFormed
    obtain ⟨⟨⟨⟨⟨⟨keyRuns, uncut⟩, visible⟩, isValue⟩, -⟩, -⟩, laterFormed⟩ := wellFormed
    obtain inRule : blocks.head? = some .rule := placed.resolve_right (by simp [isSheet])
    obtain ⟨outer, rfl⟩ := List.head?_eq_some_iff.mp inRule
    obtain ⟨next, rests, read⟩ := h.declared (fun c member => inBlocks c (by simp [member])) keyRuns
      uncut visible isValue (later.text ++ rest)
    obtain ⟨last, restsLast, readLast⟩ := ih laterFormed rests inBlocks (.inl rfl) rest
    refine ⟨last, ?_, ?_⟩
    · simpa [forest, Forest.stream_remarked, Forest.stream, Resolved.token, Function.comp_def]
        using restsLast
    · simpa [text] using read.trans readLast
  | rule selector inner later innerIh laterIh =>
    simp only [isWellFormed, Bool.and_eq_true, List.all_eq_true] at wellFormed
    obtain ⟨⟨running, innerFormed⟩, laterFormed⟩ := wellFormed
    obtain ⟨first, rests, read⟩ := h.openRule (inBlock inBlocks) running
      (inner.text ++ '}' :: (later.text ++ rest))
    obtain ⟨second, rests₂, read₂⟩ := innerIh innerFormed rests
      (List.forall_mem_cons.mpr ⟨rfl, inBlocks⟩) (.inl rfl) ('}' :: (later.text ++ rest))
    obtain ⟨third, rests₃, read₃⟩ := rests₂.close rfl (later.text ++ rest)
    obtain ⟨last, restsLast, readLast⟩ := laterIh laterFormed rests₃ inBlocks placed rest
    refine ⟨last, ?_, ?_⟩
    · simpa [forest, Forest.stream, Resolved.token] using restsLast
    · simpa [text] using read.trans (read₂.trans (read₃.trans readLast))

variable {body : Body}

theorem constant_forest (wellFormed : body.isWellFormed) :
    ∀ token ∈ body.forest.stream, token.Constant := by
  induction body with
  | done blanks => simp [forest, Forest.stream]
  | declaration key value later ih =>
    simp only [isWellFormed, Bool.and_eq_true, decide_eq_true_eq] at wellFormed
    obtain ⟨⟨⟨-, unlinked⟩, -⟩, laterFormed⟩ := wellFormed
    intro token member
    rw [forest, Forest.stream_remarked, List.mem_append, List.mem_map] at member
    rcases member with ⟨text, -, rfl⟩ | member
    · trivial
    · rcases List.mem_cons.mp member with rfl | inLater
      · exact fun sign => unlinked (by
          simpa using Text.mem_spoken ((Text.Cut.trim _).subset sign))
      · exact ih laterFormed token inLater
  | rule selector inner later innerIh laterIh =>
    simp only [isWellFormed, Bool.and_eq_true] at wellFormed
    obtain ⟨⟨-, innerFormed⟩, laterFormed⟩ := wellFormed
    exact Forest.forall_stream_block.mpr
      ⟨trivial, innerIh innerFormed, trivial, laterIh laterFormed⟩

theorem return_not_mem (wellFormed : body.isWellFormed) : '\r' ∉ body.text := by
  induction body with
  | done blanks =>
    simp only [isWellFormed, List.all_eq_true] at wellFormed
    exact Scan.not_mem_of_isRunning (by decide) fun c member =>
      Scan.isRunning_of_isGap (wellFormed c member)
  | declaration key value later ih =>
    simp only [isWellFormed, Bool.and_eq_true, List.all_eq_true, decide_eq_true_eq] at wellFormed
    obtain ⟨⟨⟨⟨⟨⟨keyRuns, -⟩, -⟩, -⟩, -⟩, noReturn⟩, laterFormed⟩ := wellFormed
    have noKey : '\r' ∉ key := Scan.not_mem_of_isRunning (by decide) keyRuns
    simp [text, noKey, noReturn, ih laterFormed]
  | rule selector inner later innerIh laterIh =>
    simp only [isWellFormed, Bool.and_eq_true, List.all_eq_true] at wellFormed
    obtain ⟨⟨running, innerFormed⟩, laterFormed⟩ := wellFormed
    have noSelector : '\r' ∉ selector := Scan.not_mem_of_isRunning (by decide) running
    simp [text, noSelector, innerIh innerFormed, laterIh laterFormed]

theorem key_ne_nil (wellFormed : body.isWellFormed) {d : Declaration}
    (member : d ∈ body.declarations) : Text.trim (spaced d.key) ≠ [] := by
  induction body with
  | done => cases member
  | declaration key value later ih =>
    simp only [isWellFormed, Bool.and_eq_true, decide_eq_true_eq] at wellFormed
    rcases List.mem_cons.mp member with rfl | inLater
    · exact wellFormed.1.1.1.1.2
    · exact ih wellFormed.2 inLater
  | rule selector inner later innerIh laterIh =>
    simp only [isWellFormed, Bool.and_eq_true] at wellFormed
    rcases List.mem_append.mp member with inInner | inLater
    · exact innerIh wellFormed.1.2 inInner
    · exact laterIh wellFormed.2 inLater

def printed (volume : Volume) (directory : Path) (d : Declaration) : Text :=
  Layout.declaration (Text.trim (spaced d.key))
    (Image.inlineAll volume directory (Text.trim d.value.spoken)) 1

/-- A declaration is printed with its rule, or below. -/
theorem infix_print (volume : Volume) (directory : Path) (ancestors : List Text) {d : Declaration}
    (member : d ∈ body.declarations) :
    printed volume directory d <:+: (body.forest.inlined volume directory).lines 1 ∨
      printed volume directory d <:+: (body.forest.inlined volume directory).print ancestors 0 := by
  induction body generalizing ancestors with
  | done blanks => cases member
  | declaration key value later ih =>
    rw [forest, Forest.inlined_remarked, Forest.inlined]
    rcases List.mem_cons.mp member with rfl | inLater
    · refine .inl (List.IsInfix.trans ?_ (Forest.lines_suffix_remarked _ _ 1).isInfix)
      exact (List.prefix_append _ _).isInfix
    · refine (ih ancestors inLater).imp (fun inside => ?_) (fun inside => ?_)
      · refine List.IsInfix.trans ?_ (Forest.lines_suffix_remarked _ _ 1).isInfix
        exact inside.trans (List.suffix_append _ _).isInfix
      · refine List.IsInfix.trans ?_ (Forest.print_suffix_remarked _ _ ancestors 0).isInfix
        exact inside.trans (List.suffix_append _ _).isInfix
  | rule selector inner later innerIh laterIh =>
    rw [forest, Forest.inlined]
    rcases List.mem_append.mp member with inInner | inLater
    · refine .inr (List.IsInfix.trans ?_ (List.prefix_append _ _).isInfix)
      rcases innerIh (ancestors ++ [_]) inInner with inside | below
      · exact (inside.trans (Layout.infix_braces _ _ _)).trans (List.prefix_append _ _).isInfix
      · exact below.trans (List.suffix_append _ _).isInfix
    · exact (laterIh ancestors inLater).imp_right fun inside =>
        inside.trans (List.suffix_append _ _).isInfix

theorem entries_eq_nil (volume : Volume) (directory : Path) (isSheet : body.isSheet) :
    (body.forest.inlined volume directory).entries = [] := by
  induction body with
  | done => rfl
  | declaration => cases isSheet
  | rule _ _ _ _ laterIh => exact laterIh isSheet

/-- Rules are compiled, and their declarations are printed. -/
theorem exists_compile (wellFormed : body.isWellFormed) (isSheet : body.isSheet)
    (volume : Volume) (options : Options) :
    ∃ raw, compile volume options body.text = .ok (options.print raw) ∧
      ∀ d ∈ body.declarations, printed volume options.directory d <:+: raw := by
  obtain ⟨last, rests, ran⟩ := read wellFormed Scan.start_rests (by simp) (.inr isSheet) []
  obtain ⟨scanned, same⟩ := rests.scan_eq ran (return_not_mem wellFormed)
  refine ⟨_, compile_constant scanned (by simpa using same) (constant_forest wellFormed) volume
    options, fun d member => ?_⟩
  rcases infix_print volume options.directory [] member with inside | below
  · rw [Forest.lines, entries_eq_nil volume options.directory isSheet] at inside
    simp [printed, Layout.declaration, Layout.indent] at inside
  · exact below

end Body

end Stylesheet
