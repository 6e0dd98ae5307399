import ContractAbi.Proofs.Compatibility
import ContractAbi.Signature

/-!
# Canonical texts are uniquely readable

No text is the canonical text of two descriptors that differ in more than names, whether or not the
descriptors have an encoding.  The suffixes of an array stand behind its element, so the text is read
from the `core`, which is a name or a list in parentheses, to the outermost suffix.

What has been read is always told from what follows by a character that it cannot contain: a name and
a length by the first character that is no letter or digit (`append_inj_of_stops`), a whole
descriptor by the comma or parenthesis behind it (`append_inj_of_core`).

A signature is a name and the text of the tuple of its parameters, so that signatures inherit all this.
-/

namespace ContractAbi

/-! ## Longest matches -/

/-- The rest of a text does not begin with a character of the given class. -/
def Stops (p : Char → Bool) (rest : List Char) : Prop :=
  ∀ c ∈ rest.head?, p c = false

theorem stops_nil (p : Char → Bool) : Stops p [] := by
  simp [Stops]

theorem stops_cons (p : Char → Bool) (c : Char) (rest : List Char) :
    Stops p (c :: rest) ↔ p c = false := by
  simp [Stops]

section LongestMatch

variable {p : Char → Bool} {word rest : List Char} (hword : ∀ c ∈ word, p c = true)
  (hrest : Stops p rest)
include hword hrest

theorem takeWhile_append_of_stops : (word ++ rest).takeWhile p = word := by
  rw [List.takeWhile_append_of_pos hword]
  cases rest with
  | nil => simp
  | cons c rest => simp [(stops_cons p c rest).mp hrest]

theorem dropWhile_append_of_stops : (word ++ rest).dropWhile p = rest := by
  rw [List.dropWhile_append_of_pos hword]
  cases rest with
  | nil => rfl
  | cons c rest => simp [(stops_cons p c rest).mp hrest]

/-- A text determines the word of the class that it begins with, as far as that goes. -/
theorem append_inj_of_stops {word' rest' : List Char} (hword' : ∀ c ∈ word', p c = true)
    (hrest' : Stops p rest') (h : word ++ rest = word' ++ rest') : word = word' ∧ rest = rest' := by
  constructor
  · rw [← takeWhile_append_of_stops hword hrest, h, takeWhile_append_of_stops hword' hrest']
  · rw [← dropWhile_append_of_stops hword hrest, h, dropWhile_append_of_stops hword' hrest']

end LongestMatch

namespace Text

theorem isDigit_of_mem_numeral (n : Nat) : ∀ c ∈ numeral n, c.isDigit = true := by
  have hall := allDigits_numeral n
  rwa [allDigits, List.all_eq_true] at hall

theorem isAlphanum_of_mem_numeral (n : Nat) : ∀ c ∈ numeral n, c.isAlphanum = true := by
  intro c hc
  rw [Char.isAlphanum, isDigit_of_mem_numeral n c hc, Bool.or_true]

theorem numeral_injective (m n : Nat) (h : numeral m = numeral n) : m = n := by
  rw [← numeralValue_numeral m, h, numeralValue_numeral]

/-- A number is told from what follows by the first character that is no digit. -/
theorem numeral_append_inj {m n : Nat} {rest rest' : List Char} (hrest : Stops Char.isDigit rest)
    (hrest' : Stops Char.isDigit rest') (h : numeral m ++ rest = numeral n ++ rest') :
    m = n ∧ rest = rest' := by
  obtain ⟨hnumeral, hrests⟩ := append_inj_of_stops (isDigit_of_mem_numeral m) hrest
    (isDigit_of_mem_numeral n) hrest' h
  exact ⟨numeral_injective m n hnumeral, hrests⟩

end Text

namespace AbiType

open Text (numeral)

/-! ## Names -/

/-- The text of a descriptor without containers is one name. -/
theorem isAlphanum_of_mem_chars (t : AbiType) (ht : depth t = 0) :
    ∀ c ∈ chars t, c.isAlphanum = true := by
  have hletters : ∀ name : List Char, name.all Char.isAlphanum = true →
      ∀ c ∈ name, c.isAlphanum = true :=
    fun name h => List.all_eq_true.mp h
  have hdigits := Text.isAlphanum_of_mem_numeral
  cases t with
  | array e => simp [depth] at ht
  | fixedArray e n => simp [depth] at ht
  | tuple fs => simp [depth] at ht
  | uint n => exact List.forall_mem_append.mpr ⟨hletters _ rfl, hdigits n⟩
  | int n => exact List.forall_mem_append.mpr ⟨hletters _ rfl, hdigits n⟩
  | fixedBytes n => exact List.forall_mem_append.mpr ⟨hletters _ rfl, hdigits n⟩
  | fixed m n =>
      refine List.forall_mem_append.mpr ⟨List.forall_mem_append.mpr ⟨hletters _ rfl, hdigits m⟩, ?_⟩
      exact List.forall_mem_cons.mpr ⟨rfl, hdigits n⟩
  | _ => exact hletters _ rfl

/-- Different names have different texts, and the widths can be read off. -/
theorem chars_injective_of_depth (t u : AbiType) (ht : depth t = 0) (hu : depth u = 0)
    (h : chars t = chars u) : t = u := by
  have hx : ∀ n, Stops Char.isDigit ('x' :: numeral n) :=
    fun n => (stops_cons _ _ _).mpr rfl
  -- Two texts with different first letters are told apart by `simp`, and the widths of two others.
  cases t <;> cases u <;> simp_all [depth, Text.numeral_ne_nil]
  case uint.uint m n => exact Text.numeral_injective m n h
  case int.int m n => exact Text.numeral_injective m n h
  case fixedBytes.fixedBytes m n => exact Text.numeral_injective m n h
  case fixed.fixed m n m' n' =>
    obtain ⟨hm, hn⟩ := Text.numeral_append_inj (hx n) (hx n') h
    exact ⟨hm, Text.numeral_injective n n' (List.cons.inj hn).2⟩

/-- A text begins with a letter, a digit or an opening parenthesis. -/
theorem exists_chars_eq_cons (t : AbiType) :
    ∃ c cs, chars t = c :: cs ∧ (c.isAlphanum = true ∨ c = '(') := by
  induction t using AbiType.induction with
  | array e ih =>
      obtain ⟨c, cs, h, hc⟩ := ih
      exact ⟨c, cs ++ ['[', ']'], by rw [chars_array, h, List.cons_append], hc⟩
  | fixedArray e n ih =>
      obtain ⟨c, cs, h, hc⟩ := ih
      exact ⟨c, cs ++ '[' :: (numeral n ++ [']']), by rw [chars_fixedArray, h, List.cons_append], hc⟩
  | tuple fs => exact ⟨'(', fieldChars fs ++ [')'], rfl, .inr rfl⟩
  | _ => exact ⟨_, _, rfl, .inl rfl⟩

/-! ## Cores and suffixes -/

/-- The descriptor inside all arrays. -/
def core : AbiType → AbiType
  | .array e => core e
  | .fixedArray e _ => core e
  | t => t

/-- The arrays around the core, from the inside out, with their lengths if they have one. -/
def suffixes : AbiType → List (Option Nat)
  | .array e => suffixes e ++ [none]
  | .fixedArray e n => suffixes e ++ [some n]
  | _ => []

/-- The length of an array between the brackets of its suffix. -/
def lengthChars : Option Nat → List Char
  | none => []
  | some n => numeral n

/-- The text of suffixes. -/
def suffixChars : List (Option Nat) → List Char
  | [] => []
  | length :: lengths => '[' :: (lengthChars length ++ ']' :: suffixChars lengths)

theorem isDigit_of_mem_lengthChars (length : Option Nat) :
    ∀ c ∈ lengthChars length, c.isDigit = true := by
  cases length with
  | none => simp [lengthChars]
  | some n => exact Text.isDigit_of_mem_numeral n

theorem lengthChars_injective (length length' : Option Nat)
    (h : lengthChars length = lengthChars length') : length = length' := by
  cases length <;> cases length' <;> simp_all [lengthChars, Text.numeral_ne_nil]
  case some.some m n => exact Text.numeral_injective m n h

theorem suffixChars_concat (lengths : List (Option Nat)) (last : Option Nat) :
    suffixChars (lengths ++ [last]) = suffixChars lengths ++ suffixChars [last] := by
  induction lengths with
  | nil => rfl
  | cons length lengths ih => simp [suffixChars, ih]

/-- A text is the text of the core with the suffixes behind it. -/
theorem chars_eq_core_append (t : AbiType) :
    chars t = chars (core t) ++ suffixChars (suffixes t) := by
  induction t using AbiType.induction with
  | array e ih =>
      rw [chars_array, core, suffixes, suffixChars_concat, ← List.append_assoc, ← ih]
      rfl
  | fixedArray e n ih =>
      rw [chars_fixedArray, core, suffixes, suffixChars_concat, ← List.append_assoc, ← ih]
      rfl
  | _ => exact (List.append_nil _).symm

/-- A core is a name or a tuple. -/
theorem depth_core (t : AbiType) : depth (core t) = 0 ∨ ∃ fs, core t = .tuple fs := by
  induction t using AbiType.induction with
  | array e ih => exact ih
  | fixedArray e n ih => exact ih
  | tuple fs => exact .inr ⟨fs, rfl⟩
  | _ => exact .inl rfl

theorem core_of_suffixes_eq_nil (t : AbiType) (h : suffixes t = []) : core t = t := by
  cases t <;> simp_all [suffixes, core]

/-- Descriptors with compatible cores and the same suffixes are compatible. -/
theorem compatible_of_core (t u : AbiType) (hcore : compatible (core t) (core u) = true)
    (hsuffixes : suffixes t = suffixes u) : compatible t u = true := by
  induction t using AbiType.induction generalizing u with
  | array e ih =>
      cases u with
      | array d =>
          rw [suffixes, suffixes] at hsuffixes
          exact ih d hcore (List.append_cancel_right hsuffixes)
      | _ => simp [suffixes] at hsuffixes
  | fixedArray e n ih =>
      cases u with
      | fixedArray d m =>
          obtain ⟨hinner, hlast⟩ := List.append_inj' hsuffixes rfl
          simp only [List.cons.injEq, Option.some.injEq, and_true] at hlast
          rw [compatible, ih d hcore hinner, hlast, beq_self_eq_true, Bool.and_true]
      | _ => simp [suffixes] at hsuffixes
  | _ =>
      rw [core_of_suffixes_eq_nil u hsuffixes.symm] at hcore
      exact hcore

/-! ## Unique readability -/

/-- Behind a descriptor stands a comma, a closing parenthesis or nothing. -/
def EndsType (rest : List Char) : Prop :=
  ∀ c ∈ rest.head?, c = ',' ∨ c = ')'

theorem not_endsType_cons (c : Char) (rest : List Char) (hcomma : c ≠ ',') (hclose : c ≠ ')') :
    ¬ EndsType (c :: rest) := by
  intro h
  rcases h c rfl with hc | hc
  · exact hcomma hc
  · exact hclose hc

/-- The suffixes end where no other bracket opens. -/
theorem suffixChars_append_inj (lengths lengths' : List (Option Nat)) (rest rest' : List Char)
    (hrest : EndsType rest) (hrest' : EndsType rest')
    (h : suffixChars lengths ++ rest = suffixChars lengths' ++ rest') :
    lengths = lengths' ∧ rest = rest' := by
  have hopen : ∀ cs, ¬ EndsType ('[' :: cs) :=
    fun cs => not_endsType_cons '[' cs (by decide) (by decide)
  induction lengths generalizing lengths' with
  | nil =>
      cases lengths' with
      | nil => exact ⟨rfl, h⟩
      | cons length' lengths' =>
          rw [suffixChars, List.nil_append] at h
          exact absurd (h ▸ hrest) (hopen _)
  | cons length lengths ih =>
      cases lengths' with
      | nil =>
          rw [suffixChars, List.nil_append] at h
          exact absurd (h.symm ▸ hrest') (hopen _)
      | cons length' lengths' =>
          simp only [suffixChars, List.cons_append, List.append_assoc, List.cons.injEq,
            true_and] at h
          have hclose : ∀ cs, Stops Char.isDigit (']' :: cs) :=
            fun cs => (stops_cons _ _ _).mpr rfl
          obtain ⟨hlength, hbehind⟩ := append_inj_of_stops (isDigit_of_mem_lengthChars length)
            (hclose _) (isDigit_of_mem_lengthChars length') (hclose _) h
          obtain ⟨hlengths, hrests⟩ := ih lengths' (List.cons.inj hbehind).2
          exact ⟨by rw [lengthChars_injective _ _ hlength, hlengths], hrests⟩

theorem stops_of_endsType (rest : List Char) (hrest : EndsType rest) :
    Stops Char.isAlphanum rest := by
  intro c hc
  rcases hrest c hc with rfl | rfl <;> rfl

/-- A core stops where no letter or digit follows. -/
theorem stops_suffixChars_append (lengths : List (Option Nat)) (rest : List Char)
    (hrest : EndsType rest) : Stops Char.isAlphanum (suffixChars lengths ++ rest) := by
  cases lengths with
  | nil => exact stops_of_endsType rest hrest
  | cons length lengths => exact (stops_cons _ _ _).mpr rfl

/-- The texts of the cores can be told apart, also with more text behind them. -/
def CoreReadable (t : AbiType) : Prop :=
  ∀ u rest rest', Stops Char.isAlphanum rest → Stops Char.isAlphanum rest' →
    chars (core t) ++ rest = chars (core u) ++ rest' →
    compatible (core t) (core u) = true ∧ rest = rest'

/-- Then so can the texts of the descriptors themselves. -/
theorem append_inj_of_core (t u : AbiType) (hcore : CoreReadable t) (rest rest' : List Char)
    (hrest : EndsType rest) (hrest' : EndsType rest')
    (h : chars t ++ rest = chars u ++ rest') : compatible t u = true ∧ rest = rest' := by
  rw [chars_eq_core_append t, chars_eq_core_append u, List.append_assoc, List.append_assoc] at h
  obtain ⟨hcompatible, hbehind⟩ := hcore u _ _ (stops_suffixChars_append _ rest hrest)
    (stops_suffixChars_append _ rest' hrest') h
  obtain ⟨hsuffixes, hrests⟩ := suffixChars_append_inj _ _ rest rest' hrest hrest' hbehind
  exact ⟨compatible_of_core t u hcompatible hsuffixes, hrests⟩

theorem endsType_moreFieldChars (fs : List Param) (rest : List Char) :
    EndsType (moreFieldChars fs ++ ')' :: rest) := by
  intro c hc
  cases fs with
  | nil => exact .inr (by simpa using hc.symm)
  | cons f fs => exact .inl (by simpa using hc.symm)

/-- Fields end with the parenthesis that closes the tuple. -/
theorem moreFieldChars_append_inj (fs gs : List Param)
    (ih : ∀ t ∈ fs.map Param.kind, CoreReadable t) (rest rest' : List Char)
    (h : moreFieldChars fs ++ ')' :: rest = moreFieldChars gs ++ ')' :: rest') :
    compatibleFields fs gs = true ∧ rest = rest' := by
  induction fs generalizing gs with
  | nil =>
      cases gs with
      | nil => exact ⟨rfl, (List.cons.inj h).2⟩
      | cons g gs => simp at h
  | cons f fs ihfs =>
      cases gs with
      | nil => simp at h
      | cons g gs =>
          simp only [moreFieldChars_cons, List.cons_append, List.append_assoc, List.cons.injEq,
            true_and] at h
          obtain ⟨hkind, hbehind⟩ := append_inj_of_core f.kind g.kind
            (ih f.kind (List.mem_cons_self ..)) _ _ (endsType_moreFieldChars fs rest)
            (endsType_moreFieldChars gs rest') h
          obtain ⟨hfields, hrests⟩ :=
            ihfs gs (fun t ht => ih t (List.mem_cons_of_mem _ ht)) hbehind
          rw [compatibleFields_iff] at hfields ⊢
          exact ⟨.cons hkind hfields, hrests⟩

/-- A list of fields that is closed at once has none. -/
theorem chars_append_ne_close (t : AbiType) (cs rest : List Char) : chars t ++ cs ≠ ')' :: rest := by
  intro h
  obtain ⟨c, tail, hchars, hc⟩ := exists_chars_eq_cons t
  rw [hchars, List.cons_append] at h
  rw [(List.cons.inj h).1] at hc
  simp at hc

theorem fieldChars_append_inj (fs gs : List Param)
    (ih : ∀ t ∈ fs.map Param.kind, CoreReadable t) (rest rest' : List Char)
    (h : fieldChars fs ++ ')' :: rest = fieldChars gs ++ ')' :: rest') :
    compatibleFields fs gs = true ∧ rest = rest' := by
  cases fs with
  | nil =>
      cases gs with
      | nil => exact ⟨rfl, (List.cons.inj h).2⟩
      | cons g gs =>
          rw [fieldChars_nil, fieldChars_cons, List.nil_append, List.append_assoc] at h
          exact absurd h.symm (chars_append_ne_close g.kind _ rest)
  | cons f fs =>
      cases gs with
      | nil =>
          rw [fieldChars_cons, fieldChars_nil, List.nil_append, List.append_assoc] at h
          exact absurd h (chars_append_ne_close f.kind _ rest')
      | cons g gs =>
          -- The first field stands behind no comma; a comma in front of both changes nothing.
          apply moreFieldChars_append_inj (f :: fs) (g :: gs) ih
          simpa using h

/-- A name does not begin with a parenthesis. -/
theorem chars_append_ne_open (t : AbiType) (ht : depth t = 0) (cs rest : List Char) :
    chars t ++ cs ≠ '(' :: rest := by
  intro h
  obtain ⟨c, tail, hchars, -⟩ := exists_chars_eq_cons t
  have hc := isAlphanum_of_mem_chars t ht c (by rw [hchars]; exact List.mem_cons_self ..)
  rw [hchars, List.cons_append] at h
  rw [(List.cons.inj h).1] at hc
  contradiction

/-- A name can be told from every other core. -/
theorem coreReadable_of_depth (t : AbiType) (ht : depth t = 0) (hcore : core t = t) :
    CoreReadable t := by
  intro u rest rest' hrest hrest' h
  rw [hcore] at h ⊢
  rcases depth_core u with hu | ⟨gs, hu⟩
  · obtain ⟨hchars, hrests⟩ := append_inj_of_stops (isAlphanum_of_mem_chars t ht) hrest
      (isAlphanum_of_mem_chars (core u) hu) hrest' h
    rw [← chars_injective_of_depth t (core u) ht hu hchars]
    exact ⟨compatible_refl t, hrests⟩
  · rw [hu] at h
    exact absurd h (chars_append_ne_open t ht rest _)

theorem coreReadable (t : AbiType) : CoreReadable t := by
  induction t using AbiType.induction with
  | array e ih => exact ih
  | fixedArray e n ih => exact ih
  | tuple fs ih =>
      intro u rest rest' hrest hrest' h
      have htuple : core (.tuple fs) = .tuple fs := rfl
      rw [htuple] at h ⊢
      rcases depth_core u with hu | ⟨gs, hu⟩
      · exact absurd h.symm (chars_append_ne_open (core u) hu rest' _)
      · rw [hu, chars_tuple, chars_tuple] at h
        simp only [List.cons_append, List.append_assoc, List.cons.injEq, true_and] at h
        rw [hu]
        exact fieldChars_append_inj fs gs ih rest rest' h
  | _ => exact coreReadable_of_depth _ rfl rfl

theorem moreFieldChars_eraseFields (fs : List Param)
    (ih : ∀ t ∈ fs.map Param.kind, chars (eraseNames t) = chars t) :
    moreFieldChars (eraseFields fs) = moreFieldChars fs := by
  induction fs with
  | nil => rfl
  | cons f fs ihfs =>
      have hkind := ih f.kind (List.mem_cons_self ..)
      have hfields := ihfs fun t ht => ih t (List.mem_cons_of_mem _ ht)
      rw [eraseFields_cons, moreFieldChars_cons, moreFieldChars_cons, hfields, Param.unnamed, hkind]

/-- The canonical text does not show names. -/
theorem chars_eraseNames (t : AbiType) : chars (eraseNames t) = chars t := by
  induction t using AbiType.induction with
  | array e ih => rw [eraseNames, chars_array, chars_array, ih]
  | fixedArray e n ih => rw [eraseNames, chars_fixedArray, chars_fixedArray, ih]
  | tuple fs ih =>
      cases fs with
      | nil => rfl
      | cons f fs =>
          have hkind := ih f.kind (List.mem_cons_self ..)
          have hfields := moreFieldChars_eraseFields fs fun t ht => ih t (List.mem_cons_of_mem _ ht)
          rw [eraseNames, eraseFields_cons, chars_tuple, chars_tuple, fieldChars_cons,
            fieldChars_cons, hfields, Param.unnamed, hkind]
  | _ => rfl

theorem text_eraseNames (t : AbiType) : text (eraseNames t) = text t := by
  rw [text, text, chars_eraseNames]

/-- Two descriptors have the same text exactly if they are compatible. -/
theorem chars_eq_iff (t u : AbiType) : chars t = chars u ↔ compatible t u = true := by
  constructor
  · intro h
    have hends : EndsType [] := by simp [EndsType]
    exact (append_inj_of_core t u (coreReadable t) [] [] hends hends (by rw [h])).1
  · intro h
    rw [compatible_iff_eraseNames] at h
    rw [← chars_eraseNames t, h, chars_eraseNames u]

end AbiType

/-! ## Signatures -/

/-- Texts separated by commas are the fields of a tuple without names. -/
theorem intercalate_chars (ts : List AbiType) :
    [','].intercalate (ts.map AbiType.chars) = AbiType.fieldChars (ts.map Param.unnamed) := by
  induction ts with
  | nil => rfl
  | cons t ts ih =>
      cases ts with
      | nil => simp [AbiType.fieldChars_cons, AbiType.moreFieldChars_nil, Param.unnamed]
      | cons u us =>
          rw [List.map_cons, List.map_cons, AbiType.fieldChars_cons] at ih
          rw [List.map_cons, List.map_cons, List.intercalate_cons_cons, ih, List.map_cons,
            List.map_cons, AbiType.fieldChars_cons, AbiType.moreFieldChars_cons, List.append_assoc]
          rfl

/-- A signature is a name in front of the text of the tuple of the parameters. -/
theorem toList_signature (name : String) (ts : List AbiType) :
    (signature name ts).toList =
      name.toList ++ AbiType.chars (.tuple (ts.map Param.unnamed)) := by
  have htexts : (ts.map AbiType.text).map String.toList = ts.map AbiType.chars := by
    rw [List.map_map]
    exact List.map_congr_left fun t _ => String.toList_ofList
  have hcomma : ",".toList = [','] := rfl
  rw [signature, joinSignature, String.toList_append, String.toList_append, String.toList_append,
    String.toList_intercalate, htexts, hcomma, intercalate_chars, AbiType.chars_tuple,
    List.append_assoc, List.append_assoc]
  rfl

theorem signature_eraseNames (name : String) (ts : List AbiType) :
    signature name (ts.map AbiType.eraseNames) = signature name ts := by
  have htexts : (ts.map AbiType.eraseNames).map AbiType.text = ts.map AbiType.text := by
    rw [List.map_map]
    exact List.map_congr_left fun t _ => AbiType.text_eraseNames t
  rw [signature, signature, htexts]

/-- Signatures with the same name tell lists of parameters apart, up to the names of tuple fields;
in particular texts tell descriptors apart.  What they cannot tell apart is an equivalence. -/
theorem signature_eq_iff :
    (∀ (name : String) (ts us : List AbiType), signature name ts = signature name us ↔
      List.Forall₂ (fun t u => AbiType.compatible t u = true) ts us) ∧
    (∀ t u : AbiType, t.text = u.text ↔ AbiType.compatible t u = true) ∧
    Equivalence fun t u : AbiType => AbiType.compatible t u = true := by
  have hkinds : ∀ ts : List AbiType, (ts.map Param.unnamed).map Param.kind = ts := by
    intro ts
    rw [List.map_map]
    exact List.map_id ts
  refine ⟨fun name ts us => ?_, fun t u => ?_, AbiType.compatible_equivalence⟩
  · rw [← String.toList_inj, toList_signature, toList_signature, List.append_cancel_left_eq,
      AbiType.chars_eq_iff, AbiType.compatible, AbiType.compatibleFields_iff, hkinds, hkinds]
  · rw [AbiType.text, AbiType.text, String.ofList_inj, AbiType.chars_eq_iff]

end ContractAbi
