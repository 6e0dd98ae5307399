import ContractAbi.Profile
import ContractAbi.Proofs.TypeReading

/-!
# Exactly the type texts are recognised

A text is read as a descriptor if and only if the grammar has it for the descriptor, once the blanks
around it are gone, and the descriptor passes validation (`parse_eq_ok_iff`).

What the grammar has is read by `isRead_of_denotes`.  For the converse the recursion of the parser is
followed: whatever it reads of a text it reads as a text of the grammar (`readsTexts_parseType`), the
empty tuple apart, which the parser lets through and validation refuses.  So the converse is about
legal descriptors, and an array hands its legality down to its element while suffixes are read.

The parser gives up at the first container past the limit, long before there is a descriptor to be
validated.  Nothing is lost, since validation has the same limit.
-/

namespace ContractAbi
namespace AbiType

open Text (numeralValue)

/-! ## What is read is a type text -/

/-- What is read as suffixes may stand behind every text of the element. -/
theorem exists_suffixes_of_parseSuffixes (room : Nat) (t : AbiType) (levels : Nat) (cs : List Char)
    (u : AbiType) (levels' : Nat) (rest : List Char)
    (h : parseSuffixes room t levels cs = .ok (u, levels', rest)) :
    ∃ suffixes, cs = suffixes ++ rest ∧ (u.Legal → t.Legal) ∧
      ∀ text, Denotes text t → Denotes (text ++ suffixes) u := by
  fun_induction parseSuffixes room t levels cs with
  | case1 => contradiction
  | case2 t levels inside room digits behind hbehind hempty ih =>
      obtain ⟨suffixes, rfl, hlegal, htext⟩ := ih h
      refine ⟨'[' :: ']' :: suffixes, ?_, hlegal, fun text ht => ?_⟩
      · have hinside : inside = digits ++ (']' :: (suffixes ++ rest)) := by
          rw [← hbehind, List.takeWhile_append_dropWhile]
        rw [hinside, List.isEmpty_iff.mp hempty]
        rfl
      · have helement := htext _ (.array text t ht)
        rwa [List.append_assoc] at helement
  | case3 t levels inside room digits behind hbehind hnonempty n hsize ih =>
      obtain ⟨suffixes, rfl, hlegal, htext⟩ := ih h
      obtain ⟨rfl, hlength⟩ := (size?_eq_some_iff _ n).mp hsize
      have hdigits : Digits digits :=
        ⟨fun hnil => hnonempty (List.isEmpty_iff.mpr hnil), List.all_eq_true.mp List.all_takeWhile⟩
      refine ⟨'[' :: (digits ++ ']' :: suffixes), ?_, fun hu => (hlegal hu).2, fun text ht => ?_⟩
      · have hinside : inside = digits ++ (']' :: (suffixes ++ rest)) := by
          rw [← hbehind, List.takeWhile_append_dropWhile]
        rw [hinside]
        simp
      · have helement := htext _ (.fixedArray text digits t ht hdigits hlength)
        simpa using helement
  | case4 => contradiction
  | case5 => contradiction
  | case6 room t levels cs hnone =>
      cases h
      exact ⟨[], rfl, id, fun text ht => by rwa [List.append_nil]⟩

/-- What is read as a legal descriptor is one of its type texts. -/
def ReadsTexts (field : List Char → Except Stop (Parsed AbiType)) : Prop :=
  ∀ cs t levels rest, field cs = .ok (t, levels, rest) → t.Legal →
    ∃ text, cs = text ++ rest ∧ Denotes text t

theorem denotesFields_of_parseFields (field : List Char → Except Stop (Parsed AbiType))
    (hfield : ReadsTexts field) (bound : Nat) (cs : List Char) (fs : List Param) (levels : Nat)
    (rest : List Char) (h : parseFields field bound cs = .ok (fs, levels, rest))
    (hlegal : LegalFields fs) :
    ∃ inside trailing, cs = inside ++ (trailing ++ ')' :: rest) ∧ DenotesFields inside fs ∧
      Blanks trailing := by
  induction bound generalizing cs fs levels rest with
  | zero => contradiction
  | succ bound ih =>
      rw [parseFields] at h
      cases hkind : field cs with
      | error stop =>
          rw [hkind] at h
          contradiction
      | ok parsed =>
          obtain ⟨t, own, behind⟩ := parsed
          obtain ⟨blanks, hblanks, hbehind⟩ := exists_blanks behind
          rw [hkind] at h
          simp only [bind, Except.bind] at h
          split at h
          · rename_i more hcomma
            cases hmore : parseFields field bound more with
            | error stop =>
                rw [hmore] at h
                contradiction
            | ok others =>
                obtain ⟨gs, deeper, left⟩ := others
                rw [hmore] at h
                cases h
                obtain ⟨text, rfl, htext⟩ := hfield cs t own behind hkind hlegal.1
                obtain ⟨inside, trailing, rfl, hinside, htrailing⟩ :=
                  ih more gs deeper _ hmore hlegal.2
                refine ⟨text ++ (blanks ++ ',' :: inside), trailing, ?_,
                  .more text blanks inside t gs htext hblanks hinside, htrailing⟩
                rw [hbehind, hcomma]
                simp
          · rename_i left hclose
            cases h
            obtain ⟨text, rfl, htext⟩ := hfield cs t levels behind hkind hlegal.1
            refine ⟨text, blanks, ?_, .last text t htext, hblanks⟩
            rw [← hclose, ← hbehind]
          · contradiction

/-- Only the empty tuple is read from a text that denotes nothing, and it is not legal. -/
theorem denotes_of_parseTuple (field : List Char → Except Stop (Parsed AbiType))
    (hfield : ReadsTexts field) (cs : List Char) (fs : List Param) (levels : Nat)
    (rest : List Char) (h : parseTuple field cs = .ok (fs, levels, rest))
    (hlegal : (AbiType.tuple fs).Legal) :
    ∃ text, '(' :: cs = text ++ rest ∧ Denotes text (.tuple fs) := by
  obtain ⟨blanks, hblanks, hcs⟩ := exists_blanks cs
  rw [parseTuple] at h
  split at h
  · cases h
    exact absurd rfl hlegal.1
  · obtain ⟨inside, trailing, hskip, hinside, htrailing⟩ :=
      denotesFields_of_parseFields field hfield _ _ fs levels rest h hlegal.2
    refine ⟨'(' :: ((blanks ++ inside) ++ (trailing ++ [')'])), ?_,
      .tuple [] _ trailing fs nofun (denotesFields_append blanks inside fs hblanks hinside)
        htrailing⟩
    rw [hcs, hskip]
    simp

/-- Behind the blanks and the base, suffixes follow. -/
theorem denotes_of_base (cs start behind base : List Char) (u : AbiType)
    (hcs : ∃ blanks, Blanks blanks ∧ cs = blanks ++ start) (hstart : start = base ++ behind)
    (hbase : Denotes base u) (room own : Nat) (t : AbiType) (levels : Nat)
    (rest : List Char) (h : parseSuffixes room u own behind = .ok (t, levels, rest)) :
    ∃ text, cs = text ++ rest ∧ Denotes text t := by
  obtain ⟨blanks, hblanks, rfl⟩ := hcs
  obtain ⟨suffixes, rfl, -, htext⟩ :=
    exists_suffixes_of_parseSuffixes room u own behind t levels rest h
  refine ⟨blanks ++ base ++ suffixes, ?_, htext _ (denotes_append blanks base u hblanks hbase)⟩
  rw [hstart, List.append_assoc, List.append_assoc]

/-- A name with its suffixes is a type text. -/
theorem denotes_of_named (room : Nat) (cs : List Char) (t : AbiType) (levels : Nat) (rest : List Char)
    (h : (do
      let (u, behind) ← parseName (skipBlanks cs)
      parseSuffixes room u 0 behind) = .ok (t, levels, rest)) :
    ∃ text, cs = text ++ rest ∧ Denotes text t := by
  cases hname : parseName (skipBlanks cs) with
  | error stop =>
      rw [hname] at h
      contradiction
  | ok parsed =>
      obtain ⟨u, behind⟩ := parsed
      rw [hname] at h
      obtain ⟨name, hstart, hu⟩ := exists_isName_of_parseName _ u behind hname
      exact denotes_of_base cs _ behind name u (exists_blanks cs) hstart (.name [] name u nofun hu)
        room 0 t levels rest h

/-- So is a tuple with its suffixes, if its fields are read as type texts. -/
theorem denotes_of_parenthesised (below : Nat) (hfield : ReadsTexts (parseType below))
    (cs inside : List Char) (hopen : skipBlanks cs = '(' :: inside) (t : AbiType) (levels : Nat)
    (rest : List Char) (hlegal : t.Legal)
    (h : (do
      let (fields, own, behind) ← parseTuple (parseType below) inside
      parseSuffixes (below - own) (.tuple fields) (own + 1) behind) = .ok (t, levels, rest)) :
    ∃ text, cs = text ++ rest ∧ Denotes text t := by
  cases htuple : parseTuple (parseType below) inside with
  | error stop =>
      rw [htuple] at h
      contradiction
  | ok parsed =>
      obtain ⟨fs, own, behind⟩ := parsed
      rw [htuple] at h
      obtain ⟨-, -, hlegalTuple, -⟩ := exists_suffixes_of_parseSuffixes _ _ _ _ t levels rest h
      obtain ⟨base, hstart, hbase⟩ :=
        denotes_of_parseTuple _ hfield inside fs own behind htuple (hlegalTuple hlegal)
      exact denotes_of_base cs _ behind base _ (exists_blanks cs) (hopen.trans hstart) hbase _ _ t
        levels rest h

theorem readsTexts_parseType (room : Nat) : ReadsTexts (parseType room) := by
  induction room with
  | zero =>
      intro cs t levels rest h _
      unfold parseType at h
      split at h
      · contradiction
      · exact denotes_of_named 0 cs t levels rest h
  | succ below ih =>
      intro cs t levels rest h hlegal
      unfold parseType at h
      split at h
      · rename_i inside hopen
        exact denotes_of_parenthesised below ih cs inside hopen t levels rest hlegal h
      · exact denotes_of_named (below + 1) cs t levels rest h

/-! ## Whole texts -/

/-- The characters are a type text of the descriptor; blanks may follow. -/
def IsTextOf (cs : List Char) (t : AbiType) : Prop :=
  ∃ text blanks, cs = text ++ blanks ∧ Denotes text t ∧ Blanks blanks

/-- No text of a type begins with anything but a letter, a digit or a parenthesis. -/
theorem exists_begins_of_isTextOf (cs : List Char) (t : AbiType) (h : IsTextOf cs t) :
    ∃ c rest, skipBlanks cs = c :: rest ∧ Begins c := by
  obtain ⟨text, trailing, rfl, htext, -⟩ := h
  obtain ⟨blanks, c, rest, rfl, hblanks, hc, -⟩ := exists_begin text t htext
  refine ⟨c, rest ++ trailing, ?_, hc⟩
  rw [List.append_assoc]
  exact skipBlanks_append_cons blanks c _ hblanks (isBlank_of_begins c hc)

/-- A text is read as a descriptor if it denotes the descriptor and that is valid. -/
theorem parse_eq_ok_iff (limit : Nat) (s : String) (t : AbiType) :
    parse limit s = .ok t ↔
      IsTextOf (Text.trim s.toList) t ∧ validate limit t = .ok () := by
  rw [parse]
  generalize Text.trim s.toList = source
  constructor
  · intro h
    rw [parseSource] at h
    split at h
    · contradiction
    rename_i u levels rest hread
    split at h
    · rename_i hrest
      cases hvalid : validate limit u with
      | error cause =>
          rw [hvalid] at h
          contradiction
      | ok accepted =>
          rw [hvalid] at h
          cases h
          obtain ⟨hlegal, -⟩ := legal_and_sized_of_validate limit t hvalid
          obtain ⟨text, rfl, htext⟩ := readsTexts_parseType limit _ t levels rest hread hlegal
          obtain ⟨blanks, hblanks, hbehind⟩ := exists_blanks rest
          rw [hrest, List.append_nil] at hbehind
          exact ⟨⟨text, rest, rfl, htext, hbehind ▸ hblanks⟩, hvalid⟩
    · contradiction
  · rintro ⟨⟨text, blanks, rfl, htext, hblanks⟩, hvalid⟩
    obtain ⟨hlegal, -⟩ := legal_and_sized_of_validate limit t hvalid
    have hends : StopsType blanks := by
      rw [← List.append_nil blanks]
      exact stopsType_append blanks [] hblanks (stops_nil _)
    have hread := (isRead_of_denotes text t htext).parseType_append hlegal limit
      (depth_le_of_validate limit t hvalid) blanks hends
    have hskip : skipBlanks blanks = [] := by
      rw [← List.append_nil blanks, skipBlanks_append _ _ hblanks]
      rfl
    simp only [parseSource, hread, hskip, hvalid]
    rfl

/-- The descriptors that a text is read as are those that the grammar has it for, as far as they pass
validation.  So wherever reading a text of the grammar stops, validation would have refused its
descriptor, and a text that the grammar does not have is an unsupported type. -/
theorem parseType_iff_isTextOf (p : Profile) (s : String) :
    (∀ t, p.parseType s = .ok t ↔
      IsTextOf (Text.trim s.toList) t ∧ validate p.config.maxDepth t = .ok ()) ∧
    (∀ t e, IsTextOf (Text.trim s.toList) t → p.parseType s = .error e →
      ∃ cause, validate p.config.maxDepth t = .error cause) ∧
    ((∀ t, ¬ IsTextOf (Text.trim s.toList) t) →
      ∃ cause, p.parseType s = .error (.unsupportedType cause)) := by
  have hok : ∀ t, p.parseType s = .ok t ↔
      IsTextOf (Text.trim s.toList) t ∧ validate p.config.maxDepth t = .ok () := by
    intro t
    rw [← parse_eq_ok_iff, Profile.parseType]
    cases parse p.config.maxDepth s with
    | error cause => exact ⟨nofun, nofun⟩
    | ok u => exact ⟨fun h => congrArg _ (Except.ok.inj h), fun h => congrArg _ (Except.ok.inj h)⟩
  refine ⟨hok, fun t e htext herror => ?_, fun hnone => ?_⟩
  · cases hvalid : validate p.config.maxDepth t with
    | error cause => exact ⟨cause, rfl⟩
    | ok accepted =>
        have hread := (hok t).mpr ⟨htext, hvalid⟩
        rw [herror] at hread
        contradiction
  · cases hparse : parse p.config.maxDepth s with
    | error cause => exact ⟨cause, by rw [Profile.parseType, hparse]; rfl⟩
    | ok t => exact absurd ((parse_eq_ok_iff _ s t).mp hparse).1 (hnone t)

/-- Blanks and leading zeros are no obstacle.  A suffix that stands in front is not in the grammar, and
an array of no elements is, but has no encoding. -/
theorem parseType_iff_isTextOf_spaced :
    IsTextOf (Text.trim " ( uint ,\tfixed008x02[03][] )[1]\n".toList)
      (.fixedArray (.tuple [.unnamed (.uint 256),
        .unnamed (.array (.fixedArray (.fixed 8 2) 3))]) 1) ∧
    (∃ cause, validate Config.standard.maxDepth (.fixedArray .bool 0) = .error cause) ∧
    ∃ cause, Profile.standard.parseType "[3]uint8" = .error (.unsupportedType cause) := by
  have hempty : IsTextOf (Text.trim "bool[0]".toList) (.fixedArray .bool 0) := by
    have hbool : Denotes "bool".toList .bool :=
      .name [] _ .bool nofun (.listed _ .bool (by decide +kernel))
    have hdenotes := Denotes.fixedArray _ (Text.numeral 0) .bool hbool (digits_numeral 0) (by decide)
    exact ⟨_, [], rfl, hdenotes, nofun⟩
  have hfront : ∀ t, ¬ IsTextOf (Text.trim "[3]uint8".toList) t := by
    intro t ht
    obtain ⟨c, rest, hstart, hc⟩ := exists_begins_of_isTextOf _ t ht
    obtain rfl : '[' = c := (List.cons.inj hstart).1
    rcases hc with hc | hc <;> contradiction
  exact ⟨(((parseType_iff_isTextOf .standard _).1 _).mp (by decide +kernel)).1,
    (parseType_iff_isTextOf .standard "bool[0]").2.1 _ (.unsupportedType .zeroLengthArray) hempty
      (by decide +kernel),
    (parseType_iff_isTextOf .standard "[3]uint8").2.2 hfront⟩

end AbiType
end ContractAbi
