import ContractAbi.Proofs.TypeReading

/-!
# Canonical texts are read back

Every descriptor that passes validation is what its own canonical text denotes, but for the names of
tuple fields, which the text does not show.  The grammar has the text (`denotes_chars`), the names
that it drops matter neither to legality nor to the depth, and there is no blank in it to be trimmed.
-/

namespace ContractAbi
namespace AbiType

open Text (numeral)

/-! ## Names -/

theorem mem_integerWidths (n : Nat) (h : isIntegerWidth n = true) : n ∈ integerWidths := by
  obtain ⟨hpos, hle, hbytes⟩ := (isIntegerWidth_iff n).mp h
  refine List.mem_map.mpr ⟨n / 8 - 1, List.mem_range.mpr (by omega), by omega⟩

theorem mem_byteLengths (n : Nat) (hpos : 1 ≤ n) (hle : n ≤ 32) : n ∈ byteLengths :=
  List.mem_map.mpr ⟨n - 1, List.mem_range.mpr (by omega), by omega⟩

/-- A canonical name is in the table or shows both widths. -/
theorem isName_chars (t : AbiType) (hlegal : t.Legal) (ht : depth t = 0) : IsName (chars t) t := by
  have hlisted : t ∈ basicTypes → IsName (chars t) t := fun hmem =>
    .listed _ t (List.mem_append_left _ (List.mem_map_of_mem hmem))
  cases t with
  | array e => simp [depth] at ht
  | fixedArray e n => simp [depth] at ht
  | tuple fs => simp [depth] at ht
  | fixed m n =>
      have hname := IsName.fixed (numeral m) (numeral n) (digits_numeral m) (digits_numeral n)
      rw [Text.numeralValue_numeral, Text.numeralValue_numeral] at hname
      rwa [chars_fixed, List.append_assoc]
  | uint n => exact hlisted (by simpa [basicTypes] using mem_integerWidths n hlegal)
  | int n => exact hlisted (by simpa [basicTypes] using mem_integerWidths n hlegal)
  | fixedBytes n => exact hlisted (by simpa [basicTypes] using mem_byteLengths n hlegal.1 hlegal.2)
  | _ => exact hlisted (by simp [basicTypes])

/-! ## Blanks -/

theorem isBlank_of_mem_moreFieldChars (fs : List Param)
    (ih : ∀ t ∈ fs.map Param.kind, ∀ c ∈ chars t, Text.isBlank c = false) :
    ∀ c ∈ moreFieldChars fs, Text.isBlank c = false := by
  induction fs with
  | nil => simp
  | cons f fs ihfs =>
      rw [moreFieldChars_cons]
      refine List.forall_mem_cons.mpr ⟨by decide, List.forall_mem_append.mpr ⟨?_, ?_⟩⟩
      · exact ih f.kind (List.mem_cons_self ..)
      · exact ihfs fun t ht => ih t (List.mem_cons_of_mem _ ht)

/-- There is no blank in a canonical text. -/
theorem isBlank_of_mem_chars (t : AbiType) : ∀ c ∈ chars t, Text.isBlank c = false := by
  have hname : ∀ u : AbiType, depth u = 0 → ∀ c ∈ chars u, Text.isBlank c = false :=
    fun u hu c hc => isBlank_of_isAlphanum c (isAlphanum_of_mem_chars u hu c hc)
  induction t using AbiType.induction with
  | array e ih =>
      refine List.forall_mem_append.mpr ⟨ih, List.forall_mem_cons.mpr ⟨by decide, ?_⟩⟩
      exact List.forall_mem_singleton.mpr (by decide)
  | fixedArray e n ih =>
      have hdigits : ∀ c ∈ numeral n, Text.isBlank c = false :=
        fun c hc => isBlank_of_isAlphanum c (Text.isAlphanum_of_mem_numeral n c hc)
      rw [chars_fixedArray]
      refine List.forall_mem_append.mpr ⟨ih, List.forall_mem_cons.mpr ⟨by decide, ?_⟩⟩
      exact List.forall_mem_append.mpr ⟨hdigits, List.forall_mem_singleton.mpr (by decide)⟩
  | tuple fs ih =>
      have hfields : ∀ c ∈ fieldChars fs, Text.isBlank c = false := by
        cases fs with
        | nil => simp
        | cons f fs =>
            rw [fieldChars_cons]
            refine List.forall_mem_append.mpr ⟨ih f.kind (List.mem_cons_self ..), ?_⟩
            exact isBlank_of_mem_moreFieldChars fs fun t ht => ih t (List.mem_cons_of_mem _ ht)
      rw [chars_tuple]
      refine List.forall_mem_cons.mpr ⟨by decide, List.forall_mem_append.mpr ⟨hfields, ?_⟩⟩
      exact List.forall_mem_singleton.mpr (by decide)
  | _ => exact hname _ rfl

/-! ## Whole texts -/

theorem denotesFields_fieldChars (f : Param) (fs : List Param)
    (ih : ∀ t ∈ (f :: fs).map Param.kind, Denotes (chars t) (eraseNames t)) :
    DenotesFields (chars f.kind ++ moreFieldChars fs) (eraseFields (f :: fs)) := by
  induction fs generalizing f with
  | nil =>
      have hkind := ih f.kind (List.mem_cons_self ..)
      rw [moreFieldChars_nil, List.append_nil, eraseFields_cons]
      exact .last _ _ hkind
  | cons g gs ihfs =>
      have hkind := ih f.kind (List.mem_cons_self ..)
      have hrest := ihfs g fun t ht => ih t (List.mem_cons_of_mem _ ht)
      rw [moreFieldChars_cons, eraseFields_cons]
      exact .more _ [] _ _ _ hkind nofun hrest

/-- The grammar has every canonical text. -/
theorem denotes_chars (t : AbiType) (hlegal : t.Legal) (hsized : t.Sized) :
    Denotes (chars t) (eraseNames t) := by
  have hname : ∀ u : AbiType, u.Legal → depth u = 0 → Denotes (chars u) u :=
    fun u hu hdepth => .name [] _ u nofun (isName_chars u hu hdepth)
  induction t using AbiType.induction with
  | array e ih => exact .array _ _ (ih hlegal hsized)
  | fixedArray e n ih =>
      -- No element is empty, so the length is bounded by the size of the whole array.
      have hpos : 0 < exactSize e :=
        Nat.lt_of_lt_of_le (by decide) (wordSize_le_exactSize e hlegal.2)
      have hn : n ≤ maxSize := Nat.le_trans (Nat.le_mul_of_pos_left n hpos) hsized.2
      have harray := Denotes.fixedArray _ (numeral n) _ (ih hlegal.2 hsized.1) (digits_numeral n)
      rw [Text.numeralValue_numeral] at harray
      exact harray hn
  | tuple fs ih =>
      cases fs with
      | nil => exact absurd rfl hlegal.1
      | cons f fs =>
          have hfields := denotesFields_fieldChars f fs fun t ht =>
            ih t ht ((legalFields_iff _).mp hlegal.2 t ht) ((sizedFields_iff _).mp hsized.1 t ht)
          rw [chars_tuple, fieldChars_cons]
          exact .tuple [] _ [] _ nofun hfields nofun
  | _ => exact hname _ hlegal rfl

/-- A canonical text is read up to its end, and suffixes may follow. -/
theorem parseType_chars (t : AbiType) (hlegal : t.Legal) (hsized : t.Sized) (room : Nat)
    (hroom : depth t ≤ room) (rest : List Char) (hrest : Stops Char.isAlphanum rest) :
    parseType room (chars t ++ rest) =
      parseSuffixes (room - depth t) (eraseNames t) (depth t) rest := by
  have hread := isRead_of_denotes _ _ (denotes_chars t hlegal hsized) (legal_eraseNames t hlegal)
  rw [depth_eraseNames] at hread
  exact hread room hroom rest hrest

end AbiType

/-- What a valid descriptor looks like as a text is read as that descriptor, up to the names of
tuple fields. -/
theorem parse_text (limit : Nat) (t : AbiType) (h : AbiType.validate limit t = .ok ()) :
    AbiType.parse limit t.text = .ok t.eraseNames := by
  obtain ⟨hlegal, hsized⟩ := AbiType.legal_and_sized_of_validate limit t h
  have hread : AbiType.parseType limit t.chars = .ok (t.eraseNames, t.depth, []) := by
    have htype := AbiType.parseType_chars t hlegal hsized limit
      (AbiType.depth_le_of_validate limit t h) [] (stops_nil _)
    rw [List.append_nil] at htype
    rw [htype, AbiType.parseSuffixes_of_stops _ _ _ [] (stops_nil _)]
  have hvalid : AbiType.validate limit t.eraseNames = .ok () := by
    rw [AbiType.validate_eraseNames, h]
  rw [AbiType.parse, AbiType.text, String.toList_ofList,
    Text.trim_eq_self _ (AbiType.isBlank_of_mem_chars t), AbiType.parseSource, hread]
  simp only [AbiType.skipBlanks, List.dropWhile_nil, hvalid]
  rfl

/-- The limit is met exactly, and the name of the first field is lost. -/
theorem parse_text_named :
    AbiType.validate 3 (.array (.tuple [⟨some "rate", .fixed 128 18⟩,
      ⟨none, .fixedArray (.fixedBytes 4) 20⟩])) = .ok () ∧
    AbiType.parse 3 (AbiType.text (.array (.tuple [⟨some "rate", .fixed 128 18⟩,
      ⟨none, .fixedArray (.fixedBytes 4) 20⟩]))) =
        .ok (.array (.tuple [⟨none, .fixed 128 18⟩, ⟨none, .fixedArray (.fixedBytes 4) 20⟩])) :=
  ⟨by decide +kernel, parse_text 3 _ (by decide +kernel)⟩

end ContractAbi
