import Stylesheet.Proofs.Decoding
import Stylesheet.Proofs.Placeholders

set_option autoImplicit false

namespace Stylesheet.Image

/-- The extensions of images, in lower case, with their media types. -/
def mediaTypes : List (Text × Text) :=
  [("png".toList, "image/png".toList), ("gif".toList, "image/gif".toList),
    ("jpg".toList, "image/jpeg".toList), ("svg".toList, "image/svg+xml".toList)]

/-- A target names an image that can be read: it has no host and is no data, it has the extension of
an image in any letter case, and it leads to a file from a directory. -/
structure Names (volume : Volume) (directory : Path) (target mediaType : Text)
    (bytes : List UInt8) : Prop where
  noHost : ¬ ['/', '/'] <:+: target
  noData : ¬ "data:".toList <+: target
  typed : ∃ extension, Path.extension? ⟨target⟩ = some extension ∧
    (extension.map Char.toLower, mediaType) ∈ mediaTypes
  read : volume.read (directory.join ⟨target⟩) = .ok bytes

/-- A value and another one with images put in, from left to right. A reference that names an image
is replaced by data from which its bytes can be read; other references and characters stay. -/
inductive Inlined (volume : Volume) (directory : Path) : Text → Text → Prop
  | nil : Inlined volume directory [] []
  | plain {c : Char} {t result : Text}
      (apart : ∀ reference inside, Refers reference inside → ¬ reference <+: c :: t)
      (later : Inlined volume directory t result) : Inlined volume directory (c :: t) (c :: result)
  | kept {reference inside t result : Text} (refers : Refers reference inside)
      (other : ∀ mediaType bytes, ¬ Names volume directory (unquote inside) mediaType bytes)
      (later : Inlined volume directory t result) :
      Inlined volume directory (reference ++ t) (reference ++ result)
  | image {reference inside mediaType data t result : Text} {bytes : List UInt8}
      (refers : Refers reference inside)
      (names : Names volume directory (unquote inside) mediaType bytes)
      (decoded : Base64.decode data = some bytes) (later : Inlined volume directory t result) :
      Inlined volume directory (reference ++ t)
        ("url(\"data:".toList ++ mediaType ++ ";base64,".toList ++ data ++ ['"', ')'] ++ result)

theorem hasDoubleSlash_iff (t : Text) : hasDoubleSlash t ↔ ['/', '/'] <:+: t := by
  fun_induction hasDoubleSlash t with
  | case1 t => simp [List.infix_cons_iff]
  | case2 c t other ih =>
    rw [ih, List.infix_cons_iff]
    refine (or_iff_right ?_).symm
    rintro ⟨rest, split⟩
    cases split
    exact other rest rfl rfl
  | case3 => simp

theorem mediaType?_eq_some_iff {path : Path} {mediaType : Text} :
    mediaType? path = some mediaType ↔ ∃ extension, path.extension? = some extension ∧
      (extension.map Char.toLower, mediaType) ∈ mediaTypes := by
  unfold mediaType?
  cases path.extension? with
  | none => simp
  | some extension =>
    simp only [Option.some.injEq, exists_eq_left']
    generalize extension.map Char.toLower = lower
    constructor
    · intro found
      split at found
      · rename_i isPng
        cases found
        exact isPng ▸ .head _
      split at found
      · rename_i isGif
        cases found
        exact isGif ▸ .tail _ (.head _)
      split at found
      · rename_i isJpg
        cases found
        exact isJpg ▸ .tail _ (.tail _ (.head _))
      split at found
      · rename_i isSvg
        cases found
        exact isSvg ▸ .tail _ (.tail _ (.tail _ (.head _)))
      · cases found
    · intro listed
      simp only [mediaTypes, List.mem_cons, Prod.mk.injEq, List.not_mem_nil, or_false] at listed
      rcases listed with ⟨rfl, rfl⟩ | ⟨rfl, rfl⟩ | ⟨rfl, rfl⟩ | ⟨rfl, rfl⟩ <;> rfl

theorem isRemote_iff (t : Text) :
    isRemote t ↔ ['/', '/'] <:+: t ∨ "data:".toList <+: t := by
  rw [isRemote, Bool.or_eq_true, hasDoubleSlash_iff, List.isPrefixOf_iff_prefix]

section

variable {volume : Volume} {directory : Path}

/-- What a reference leads to is what its target names. -/
theorem load?_eq_some_iff {reference mediaType : Text} {bytes : List UInt8} :
    load? volume directory reference = some (mediaType, bytes) ↔
      Names volume directory (target reference) mediaType bytes := by
  unfold load?
  dsimp only
  by_cases remote : isRemote (target reference)
  · rw [if_pos remote]
    constructor
    · intro clash
      cases clash
    · intro names
      rcases (isRemote_iff _).mp remote with host | data
      · exact absurd host names.noHost
      · exact absurd data names.noData
  · have near := not_or.mp (mt (isRemote_iff _).mpr remote)
    rw [if_neg remote]
    constructor
    · intro found
      split at found
      · rename_i known read
        cases found
        exact ⟨near.1, near.2, mediaType?_eq_some_iff.mp known, read⟩
      · cases found
    · intro names
      simp only [mediaType?_eq_some_iff.mpr names.typed, names.read]

/-- Three letters in any case. -/
theorem exists_letters {letters : Text} (inCase : letters.map Char.toLower = "url".toList) :
    ∃ u r l : Char, letters = [u, r, l] ∧ u.toLower = 'u' ∧ r.toLower = 'r' ∧ l.toLower = 'l' := by
  have three : letters.length = 3 := by
    have same := congrArg List.length inCase
    rwa [List.length_map] at same
  obtain ⟨u, r, l, rfl⟩ := List.length_eq_three.mp three
  injection inCase with isU inCase
  injection inCase with isR inCase
  injection inCase with isL
  exact ⟨u, r, l, rfl, isU, isR, isL⟩

namespace Refers

variable {reference inside : Text}

theorem target_eq (refers : Refers reference inside) : target reference = unquote inside := by
  obtain ⟨letters, inCase, rfl, -, -⟩ := refers
  obtain ⟨u, r, l, rfl, -⟩ := exists_letters inCase
  have between : (([u, r, l] ++ '(' :: (inside ++ [')'])).drop 4).dropLast = inside :=
    List.dropLast_concat
  rw [target, between]

theorem referenceLength (refers : Refers reference inside) (t : Text) :
    referenceLength (reference ++ t) = reference.length := by
  obtain ⟨letters, inCase, rfl, nonempty, unclosed⟩ := refers
  obtain ⟨u, r, l, rfl, isU, isR, isL⟩ := exists_letters inCase
  have whole : [u, r, l] ++ '(' :: (inside ++ [')']) ++ t =
      u :: r :: l :: '(' :: (inside ++ ')' :: t) := by simp
  have count : Text.countWhile (· ≠ ')') (inside ++ ')' :: t) = inside.length := by
    refine Text.countWhile_append (fun c member => ?_) (by simp)
    simpa using ne_of_mem_of_not_mem member unclosed
  have positive := List.length_pos_iff.mpr nonempty
  rw [whole, Image.referenceLength, count]
  simp only [isU, isR, isL, decide_true, Bool.and_self, ↓reduceIte, List.length_append,
    List.length_cons, List.length_nil]
  rw [if_pos]
  · omega
  · simp only [Bool.and_eq_true, decide_eq_true_eq]
    omega

theorem ne_nil (refers : Refers reference inside) : reference ≠ [] := by
  obtain ⟨letters, inCase, rfl, -⟩ := refers
  simp

end Refers

/-- No reference begins a text if and only if none is found there. -/
theorem referenceLength_eq_zero_iff {t : Text} :
    referenceLength t = 0 ↔ ∀ reference inside, Refers reference inside → ¬ reference <+: t := by
  constructor
  · rintro none reference inside refers ⟨rest, rfl⟩
    rw [refers.referenceLength] at none
    exact refers.ne_nil (List.length_eq_zero_iff.mp none)
  · intro apart
    by_contra found
    obtain ⟨inside, refers⟩ := refers_of_referenceLength found
    exact apart _ inside refers (List.take_prefix _ _)

/-- Every value is put together from characters that begin no reference, and whole references. -/
theorem parts_induction {P : Text → Prop} (nil : P [])
    (plain : ∀ {c : Char} {t : Text}, referenceLength (c :: t) = 0 → P t → P (c :: t))
    (reference : ∀ {reference inside t : Text}, Refers reference inside → P t → P (reference ++ t))
    (t : Text) : P t := by
  refine Text.parts_induction referenceLength nil plain ?_ t
  intro t _ found later
  obtain ⟨inside, refers⟩ := refers_of_referenceLength found
  rw [← List.take_append_drop (referenceLength t) t]
  exact reference refers later

theorem inlineAll_plain {c : Char} {t : Text} (unmatched : referenceLength (c :: t) = 0) :
    inlineAll volume directory (c :: t) = c :: inlineAll volume directory t :=
  Text.replace_cons unmatched

theorem inlineAll_reference {reference inside : Text} (refers : Refers reference inside)
    (t : Text) :
    inlineAll volume directory (reference ++ t) =
      inlineReference volume directory reference ++ inlineAll volume directory t :=
  Text.replace_append refers.ne_nil (refers.referenceLength t)

/-- Images are put in where references name them, and nothing else changes. -/
theorem inlined_inlineAll (volume : Volume) (directory : Path) (value : Text) :
    Inlined volume directory value (inlineAll volume directory value) := by
  induction value using parts_induction with
  | nil => exact .nil
  | plain unmatched ih =>
    rw [inlineAll_plain unmatched]
    exact .plain (referenceLength_eq_zero_iff.mp unmatched) ih
  | @reference reference inside t refers ih =>
    rw [inlineAll_reference refers, inlineReference]
    cases found : load? volume directory reference with
    | none =>
      refine .kept refers (fun mediaType bytes names => ?_) ih
      rw [← refers.target_eq, ← load?_eq_some_iff, found] at names
      cases names
    | some image =>
      obtain ⟨mediaType, bytes⟩ := image
      rw [load?_eq_some_iff, refers.target_eq] at found
      exact .image refers found (Base64.decode_encode bytes) ih

def dataAddress (mediaType : Text) (bytes : List UInt8) : Text :=
  '"' :: ("data:".toList ++ (mediaType ++ (";base64,".toList ++ Base64.encode bytes)) ++ ['"'])

theorem dataReference_eq (mediaType : Text) (bytes : List UInt8) :
    dataReference mediaType bytes =
      ['u', 'r', 'l'] ++ '(' :: (dataAddress mediaType bytes ++ [')']) := by
  have regroup (a m b e : Text) : a ++ m ++ b ++ e ++ ['"', ')'] =
      a ++ (m ++ (b ++ e)) ++ ['"'] ++ [')'] := by simp
  exact regroup _ _ _ _

theorem refers_dataReference {mediaType : Text} (listed : mediaType ∈ mediaTypes.map Prod.snd)
    (bytes : List UInt8) :
    Refers (dataReference mediaType bytes) (dataAddress mediaType bytes) := by
  refine ⟨['u', 'r', 'l'], rfl, dataReference_eq mediaType bytes, List.cons_ne_nil _ _, ?_⟩
  have inType : ')' ∉ mediaType := by
    have all : ∀ t ∈ mediaTypes.map Prod.snd, ')' ∉ t := by decide
    exact all mediaType listed
  have inData : ')' ∉ Base64.encode bytes := fun member =>
    absurd (Base64.encode_subset bytes member) (by decide +kernel)
  have coded := not_or.mpr ⟨show ')' ∉ ";base64,".toList by decide, inData⟩
  have typed := not_or.mpr ⟨inType, mt List.mem_append.mp coded⟩
  have data := not_or.mpr ⟨show ')' ∉ "data:".toList by decide, mt List.mem_append.mp typed⟩
  have quoted := not_or.mpr ⟨mt List.mem_append.mp data, show ')' ∉ ['"'] by decide⟩
  exact mt List.mem_cons.mp (not_or.mpr ⟨by decide, mt List.mem_append.mp quoted⟩)

/-- A reference to data leads to no image. -/
theorem load?_dataReference {mediaType : Text} (listed : mediaType ∈ mediaTypes.map Prod.snd)
    (bytes : List UInt8) : load? volume directory (dataReference mediaType bytes) = none := by
  have trimmed : Text.trim (dataAddress mediaType bytes) = dataAddress mediaType bytes := by
    refine Text.trim_eq_self (fun c first => ?_) (fun c last => ?_)
    · cases first
      rfl
    · rw [dataAddress, ← List.cons_append, List.getLast?_concat] at last
      cases last
      rfl
  have data : "data:".toList <+: unquote (dataAddress mediaType bytes) := by
    rw [unquote, trimmed]
    have kept (t : Text) : "data:".toList <+:
        ('"' :: ("data:".toList ++ t)).filter fun c => c ≠ '"' && c ≠ '\'' :=
      List.prefix_append "data:".toList _
    rw [dataAddress, List.append_assoc]
    exact kept _
  rw [← (refers_dataReference listed bytes).target_eq] at data
  exact if_pos ((isRemote_iff _).mpr (.inr data))

/-- What a reference is replaced by is replaced by nothing else. -/
theorem inlineReference_inlineReference (volume : Volume) (directory : Path)
    {reference inside : Text} (refers : Refers reference inside) :
    ∃ inside', Refers (inlineReference volume directory reference) inside' ∧
      inlineReference volume directory (inlineReference volume directory reference) =
        inlineReference volume directory reference := by
  cases found : load? volume directory reference with
  | none =>
    have same : inlineReference volume directory reference = reference := by
      rw [inlineReference, found]
    rw [same]
    exact ⟨inside, refers, same⟩
  | some image =>
    obtain ⟨mediaType, bytes⟩ := image
    have data : inlineReference volume directory reference = dataReference mediaType bytes := by
      rw [inlineReference, found]
    obtain ⟨extension, -, typed⟩ := (load?_eq_some_iff.mp found).typed
    have listed : mediaType ∈ mediaTypes.map Prod.snd := List.mem_map.mpr ⟨_, typed, rfl⟩
    rw [data]
    refine ⟨_, refers_dataReference listed bytes, ?_⟩
    rw [inlineReference, load?_dataReference listed]

theorem Refers.exists_cons {reference inside : Text} (refers : Refers reference inside) :
    ∃ c rest, reference = c :: rest ∧ c.toLower = 'u' := by
  obtain ⟨letters, inCase, rfl, -⟩ := refers
  obtain ⟨u, r, l, rfl, isU, -⟩ := exists_letters inCase
  exact ⟨u, _, rfl, isU⟩

/-- A character of the result that begins no reference was there before. -/
theorem exists_of_inlineAll_eq_cons {c : Char} {t result : Text}
    (split : inlineAll volume directory t = c :: result) (other : c.toLower ≠ 'u') :
    ∃ rest, t = c :: rest ∧ inlineAll volume directory rest = result := by
  induction t using parts_induction with
  | nil => cases split
  | @plain d t unmatched _ =>
    rw [inlineAll_plain unmatched] at split
    obtain ⟨rfl, later⟩ := List.cons.inj split
    exact ⟨t, rfl, later⟩
  | @reference reference inside t refers _ =>
    obtain ⟨inside', refers', -⟩ :=
      inlineReference_inlineReference volume directory refers
    obtain ⟨d, rest, begins, isU⟩ := refers'.exists_cons
    rw [inlineAll_reference refers, begins] at split
    obtain rfl : d = c := (List.cons.inj split).1
    exact absurd isU other

/-- Images bring parentheses only where there were some. -/
theorem closing_mem_of_inlineAll {t : Text} (member : ')' ∈ inlineAll volume directory t) :
    ')' ∈ t := by
  induction t using parts_induction with
  | nil => exact member
  | plain unmatched ih =>
    rw [inlineAll_plain unmatched] at member
    rcases List.mem_cons.mp member with rfl | later
    · exact List.mem_cons_self
    · exact List.mem_cons_of_mem _ (ih later)
  | @reference reference inside t refers _ =>
    obtain ⟨letters, -, rfl, -⟩ := refers
    simp

/-- Images make no reference where there was none. -/
theorem referenceLength_inlineAll {c : Char} {t : Text} (unmatched : referenceLength (c :: t) = 0) :
    referenceLength (c :: inlineAll volume directory t) = 0 := by
  rw [referenceLength_eq_zero_iff] at unmatched ⊢
  rintro reference inside ⟨letters, inCase, rfl, nonempty, unclosed⟩ ⟨rest, split⟩
  obtain ⟨u, r, l, rfl, isU, isR, isL⟩ := exists_letters inCase
  obtain rfl : u = c := (List.cons.inj split).1
  have behind : inlineAll volume directory t = r :: l :: '(' :: (inside ++ [')'] ++ rest) :=
    (List.cons.inj split).2.symm
  -- The characters after the first one begin no reference, so they were there before.
  obtain ⟨afterU, rfl, fromR⟩ := exists_of_inlineAll_eq_cons behind (by rw [isR]; decide)
  obtain ⟨afterR, rfl, fromL⟩ := exists_of_inlineAll_eq_cons fromR (by rw [isL]; decide)
  obtain ⟨within, rfl, result⟩ := exists_of_inlineAll_eq_cons fromL (by decide)
  -- A parenthesis that closes was there before, too, and not directly after the one that opens.
  have closed : ')' ∈ within := closing_mem_of_inlineAll (by rw [result]; simp)
  obtain ⟨before, after, rfl, first⟩ := List.eq_append_cons_of_mem closed
  cases before with
  | nil =>
    have here : referenceLength (')' :: after) = 0 := by
      rw [referenceLength_eq_zero_iff]
      rintro other inside refers ⟨more, same⟩
      obtain ⟨d, _, rfl, isU⟩ := refers.exists_cons
      obtain rfl : d = ')' := (List.cons.inj same).1
      cases isU
    rw [List.nil_append, inlineAll_plain here] at result
    obtain ⟨e, inside, rfl⟩ := List.exists_cons_of_ne_nil nonempty
    obtain rfl : ')' = e := (List.cons.inj result).1
    exact unclosed List.mem_cons_self
  | cons d before =>
    have refers : Refers ([u, r, l] ++ '(' :: (d :: before ++ [')'])) (d :: before) :=
      ⟨[u, r, l], inCase, rfl, List.cons_ne_nil d before, first⟩
    exact unmatched _ _ refers ⟨after, by simp⟩

/-- Images are put in where references name them, and nothing else changes. A second time nothing
changes at all. -/
theorem inlineAll_exact (volume : Volume) (directory : Path) (value : Text) :
    Inlined volume directory value (inlineAll volume directory value) ∧
      inlineAll volume directory (inlineAll volume directory value) =
        inlineAll volume directory value := by
  refine ⟨inlined_inlineAll volume directory value, ?_⟩
  induction value using parts_induction with
  | nil => rfl
  | plain unmatched ih =>
    rw [inlineAll_plain unmatched, inlineAll_plain (referenceLength_inlineAll unmatched), ih]
  | reference refers ih =>
    obtain ⟨inside', refers', same⟩ :=
      inlineReference_inlineReference volume directory refers
    rw [inlineAll_reference refers, inlineAll_reference refers', same, ih]

end

end Stylesheet.Image
