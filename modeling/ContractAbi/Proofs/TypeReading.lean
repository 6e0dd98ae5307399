import ContractAbi.Proofs.TypeGrammar

/-!
# Type texts are read

Reading a text that the grammar has for a legal descriptor gives the descriptor and stops behind the
text (`isRead_of_denotes`).

Suffixes stand behind what they apply to, so the induction is on the derivation with an arbitrary text
behind it: reading an element leaves the parser in front of the suffixes with that text still to come
(`IsRead`).  The parser counts the containers that still fit on the way down and the levels that it
has met on the way up; on a text of the grammar both agree with `depth`.
-/

namespace ContractAbi
namespace AbiType

open Text (numeralValue)

/-! ## Suffixes -/

/-- Without an opening bracket there is no further suffix. -/
theorem parseSuffixes_of_stops (room : Nat) (t : AbiType) (levels : Nat) (rest : List Char)
    (hrest : Stops (· == '[') rest) : parseSuffixes room t levels rest = .ok (t, levels, rest) := by
  unfold parseSuffixes
  split
  · rename_i inside
    exact nomatch (stops_cons _ _ _).mp hrest
  · rfl

theorem parseSuffixes_array (room : Nat) (t : AbiType) (levels : Nat) (rest : List Char) :
    parseSuffixes (room + 1) t levels ('[' :: ']' :: rest) =
      parseSuffixes room (.array t) (levels + 1) rest := by
  rw [parseSuffixes]
  rfl

/-- The length between the brackets is read up to the closing one. -/
theorem parseSuffixes_fixedArray (room : Nat) (t : AbiType) (digits : List Char)
    (hdigits : Digits digits) (hlength : numeralValue digits ≤ maxSize) (levels : Nat)
    (rest : List Char) :
    parseSuffixes (room + 1) t levels ('[' :: (digits ++ ']' :: rest)) =
      parseSuffixes room (.fixedArray t (numeralValue digits)) (levels + 1) rest := by
  have hclose : Stops Char.isDigit (']' :: rest) := (stops_cons _ _ _).mpr rfl
  have hnonempty : digits.isEmpty = false := List.isEmpty_eq_false_iff.mpr hdigits.1
  have hsize : size? (numeralValue digits) = some (numeralValue digits) :=
    (size?_eq_some_iff _ _).mpr ⟨rfl, hlength⟩
  rw [parseSuffixes]
  simp only [takeWhile_append_of_stops hdigits.2 hclose, dropWhile_append_of_stops hdigits.2 hclose,
    hnonempty, hsize]
  rfl

/-! ## What stands behind a type text -/

/-- What stands behind a type text: no suffix, and nothing that would go on a name. -/
def StopsType (rest : List Char) : Prop :=
  Stops (fun c => c.isAlphanum || c == '[') rest

/-- Blanks end a type text. -/
theorem stopsType_append (blanks rest : List Char) (hblanks : Blanks blanks) (hrest : StopsType rest) :
    StopsType (blanks ++ rest) := by
  cases blanks with
  | nil => exact hrest
  | cons c cs =>
      have hc := hblanks c (List.mem_cons_self ..)
      refine (stops_cons _ _ _).mpr (Bool.or_eq_false_iff.mpr ⟨?_, ?_⟩)
      · by_contra hword
        rw [Bool.not_eq_false] at hword
        have hblank := Text.isBlank_of_isAsciiBlank c hc
        rw [isBlank_of_isAlphanum c hword] at hblank
        contradiction
      · rw [beq_eq_false_iff_ne]
        rintro rfl
        contradiction

theorem stops_of_stopsType (rest : List Char) (h : StopsType rest) :
    Stops Char.isAlphanum rest ∧ Stops (· == '[') rest :=
  ⟨fun c hc => (Bool.or_eq_false_iff.mp (h c hc)).1,
    fun c hc => (Bool.or_eq_false_iff.mp (h c hc)).2⟩

/-! ## Whole texts -/

/-- Reading a type skips blanks first, so it makes no difference if they have been skipped. -/
theorem parseType_skipBlanks (room : Nat) (cs : List Char) :
    parseType room (skipBlanks cs) = parseType room cs := by
  obtain ⟨blanks, hblanks, hcs⟩ := exists_blanks cs
  have hskip : skipBlanks (skipBlanks cs) = skipBlanks cs := by
    rw [← skipBlanks_append blanks _ hblanks, ← hcs]
  unfold parseType
  rw [hskip]

theorem parseFields_skipBlanks (room bound : Nat) (cs : List Char) :
    parseFields (parseType room) (bound + 1) (skipBlanks cs) =
      parseFields (parseType room) (bound + 1) cs := by
  rw [parseFields, parseFields, parseType_skipBlanks]

/-- The text is read as the descriptor, and suffixes may follow. -/
def IsRead (cs : List Char) (t : AbiType) : Prop :=
  t.Legal → ∀ room, depth t ≤ room → ∀ rest, Stops Char.isAlphanum rest →
    parseType room (cs ++ rest) = parseSuffixes (room - depth t) t (depth t) rest

/-- The text is read as the fields, if a parenthesis follows and the bound is large enough. -/
def AreRead (cs : List Char) (fs : List Param) : Prop :=
  LegalFields fs → ∀ room, fieldsDepth fs ≤ room → ∀ bound, fs.length ≤ bound →
    ∀ trailing rest, Blanks trailing →
      parseFields (parseType room) bound (cs ++ (trailing ++ ')' :: rest)) =
        .ok (fs, fieldsDepth fs, rest)

/-- A text that ends is read without any further suffix. -/
theorem IsRead.parseType_append {cs : List Char} {t : AbiType} (h : IsRead cs t) (hlegal : t.Legal)
    (room : Nat) (hroom : depth t ≤ room) (rest : List Char) (hrest : StopsType rest) :
    parseType room (cs ++ rest) = .ok (t, depth t, rest) := by
  obtain ⟨hword, hbracket⟩ := stops_of_stopsType rest hrest
  rw [h hlegal room hroom rest hword, parseSuffixes_of_stops _ _ _ rest hbracket]

theorem isRead_name (blanks name : List Char) (t : AbiType) (hblanks : Blanks blanks)
    (hname : IsName name t) : IsRead (blanks ++ name) t := by
  intro hlegal room _ rest hrest
  obtain ⟨hne, hword⟩ := isAlphanum_of_isName name t hname
  obtain ⟨c, cs, rfl⟩ := List.exists_cons_of_ne_nil hne
  have hc := hword c (List.mem_cons_self ..)
  have hskip : skipBlanks (blanks ++ (c :: cs) ++ rest) = c :: cs ++ rest := by
    rw [List.append_assoc]
    exact skipBlanks_append_cons blanks c _ hblanks (isBlank_of_isAlphanum c hc)
  unfold parseType
  rw [hskip, depth_of_isName _ t hname]
  split
  · rename_i inside hopen
    rw [(List.cons.inj hopen).1] at hc
    contradiction
  · rw [parseName_of_isName _ t hname hlegal rest hrest]
    rfl

/-- A parenthesis ends the last field. -/
theorem areRead_last (cs : List Char) (t : AbiType) (h : IsRead cs t) :
    AreRead cs [.unnamed t] := by
  intro hlegal room hroom bound hbound trailing rest htrailing
  obtain ⟨below, rfl⟩ : ∃ below, bound = below + 1 := Nat.exists_eq_add_of_le' hbound
  have hclose : StopsType (')' :: rest) := (stops_cons _ _ _).mpr rfl
  rw [fieldsDepth_cons] at hroom ⊢
  have hfield := h.parseType_append hlegal.1 room (Nat.le_trans (Nat.le_max_left _ _) hroom) _
    (stopsType_append trailing _ htrailing hclose)
  have hskip := skipBlanks_append_cons trailing ')' rest htrailing (by decide)
  rw [parseFields, hfield]
  simp only [bind, Except.bind, hskip]
  simp [pure, Except.pure, fieldsDepth, Param.unnamed]

/-- A comma ends every other field. -/
theorem areRead_more (cs blanks rest : List Char) (t : AbiType) (fs : List Param) (h : IsRead cs t)
    (hblanks : Blanks blanks) (hrest : AreRead rest fs) :
    AreRead (cs ++ (blanks ++ ',' :: rest)) (.unnamed t :: fs) := by
  intro hlegal room hroom bound hbound trailing behind htrailing
  obtain ⟨below, rfl⟩ : ∃ below, bound = below + 1 :=
    Nat.exists_eq_add_of_le' (Nat.le_trans (Nat.le_add_left 1 fs.length) hbound)
  rw [fieldsDepth_cons] at hroom ⊢
  have hcomma : StopsType (',' :: (rest ++ (trailing ++ ')' :: behind))) := (stops_cons _ _ _).mpr rfl
  have hfield := h.parseType_append hlegal.1 room (Nat.le_trans (Nat.le_max_left _ _) hroom) _
    (stopsType_append blanks _ hblanks hcomma)
  have hskip := skipBlanks_append_cons blanks ',' (rest ++ (trailing ++ ')' :: behind)) hblanks
    (by decide)
  have hmore := hrest hlegal.2 room (Nat.le_trans (Nat.le_max_right _ _) hroom) below
    (Nat.le_of_succ_le_succ hbound) trailing behind htrailing
  rw [List.append_assoc, List.append_assoc, List.cons_append, parseFields, hfield]
  simp only [bind, Except.bind, hskip, hmore]
  rfl

/-- There are fewer fields than characters, so the bound on their number is not met. -/
theorem AreRead.parseTuple_append {inside : List Char} {fs : List Param} (h : AreRead inside fs)
    (hinside : DenotesFields inside fs) (hlegal : LegalFields fs) (room : Nat)
    (hroom : fieldsDepth fs ≤ room) (trailing rest : List Char) (htrailing : Blanks trailing) :
    parseTuple (parseType room) (inside ++ (trailing ++ ')' :: rest)) =
      .ok (fs, fieldsDepth fs, rest) := by
  obtain ⟨blanks, c, first, rfl, hblanks, hc, hfirst⟩ := exists_begin_fields inside fs hinside
  have hskip : skipBlanks (blanks ++ c :: first ++ (trailing ++ ')' :: rest)) =
      c :: (first ++ (trailing ++ ')' :: rest)) := by
    rw [List.append_assoc]
    exact skipBlanks_append_cons blanks c _ hblanks (isBlank_of_begins c hc)
  have hlength := length_le_of_denotesFields _ fs hfirst
  unfold parseTuple
  split
  · rename_i hclosed
    rw [hskip] at hclosed
    rw [(List.cons.inj hclosed).1] at hc
    rcases hc with hc | hc <;> contradiction
  · rw [parseFields_skipBlanks]
    apply h hlegal room hroom _ _ trailing rest htrailing
    rw [hskip, List.length_cons, List.length_append]
    rw [List.length_cons] at hlength
    omega

theorem isRead_tuple (blanks inside trailing : List Char) (fs : List Param) (hblanks : Blanks blanks)
    (hinside : DenotesFields inside fs) (hread : AreRead inside fs) (htrailing : Blanks trailing) :
    IsRead (blanks ++ '(' :: (inside ++ (trailing ++ [')']))) (.tuple fs) := by
  intro hlegal room hroom rest _
  rw [depth] at hroom ⊢
  obtain ⟨below, rfl⟩ : ∃ below, room = below + 1 :=
    Nat.exists_eq_add_of_le' (Nat.le_trans (Nat.le_add_left 1 _) hroom)
  have hskip : skipBlanks (blanks ++ '(' :: (inside ++ (trailing ++ [')'])) ++ rest) =
      '(' :: (inside ++ (trailing ++ ')' :: rest)) := by
    rw [List.append_assoc, List.cons_append, List.append_assoc, List.append_assoc]
    exact skipBlanks_append_cons blanks '(' _ hblanks (by decide)
  have hfields := hread.parseTuple_append hinside hlegal.2 below (Nat.le_of_succ_le_succ hroom)
    trailing rest htrailing
  unfold parseType
  rw [hskip, Nat.add_sub_add_right]
  simp only [hfields]
  rfl

/-- A suffix that is taken into account behind the element may stand behind its text. -/
theorem isRead_suffix (cs inside : List Char) (e t : AbiType) (h : IsRead cs e)
    (hlegal : t.Legal → e.Legal) (hdepth : depth t = depth e + 1)
    (hsuffix : ∀ room levels rest, parseSuffixes (room + 1) e levels ('[' :: (inside ++ rest)) =
      parseSuffixes room t (levels + 1) rest) :
    IsRead (cs ++ '[' :: inside) t := by
  intro ht room hroom rest _
  rw [hdepth] at hroom ⊢
  obtain ⟨left, rfl⟩ : ∃ left, room = left + (depth e + 1) := Nat.exists_eq_add_of_le' hroom
  have hbracket : Stops Char.isAlphanum ('[' :: (inside ++ rest)) := (stops_cons _ _ _).mpr rfl
  have helement := h (hlegal ht) (left + (depth e + 1)) (by omega) _ hbracket
  have hleft : left + (depth e + 1) - depth e = left + 1 := by omega
  rw [List.append_assoc, List.cons_append, Nat.add_sub_cancel, helement, hleft, hsuffix]

theorem isRead_array (cs : List Char) (e : AbiType) (h : IsRead cs e) :
    IsRead (cs ++ ['[', ']']) (.array e) :=
  isRead_suffix cs [']'] e (.array e) h id rfl fun room levels rest =>
    parseSuffixes_array room e levels rest

theorem isRead_fixedArray (cs digits : List Char) (e : AbiType) (h : IsRead cs e)
    (hdigits : Digits digits) (hlength : numeralValue digits ≤ maxSize) :
    IsRead (cs ++ '[' :: (digits ++ [']'])) (.fixedArray e (numeralValue digits)) := by
  refine isRead_suffix cs (digits ++ [']']) e _ h And.right rfl fun room levels rest => ?_
  rw [List.append_assoc]
  exact parseSuffixes_fixedArray room e digits hdigits hlength levels rest

/-- Every type text is read as what it denotes. -/
theorem isRead_of_denotes (cs : List Char) (t : AbiType) (h : Denotes cs t) : IsRead cs t := by
  induction h using Denotes.rec (motive_2 := fun cs fs _ => AreRead cs fs) with
  | name blanks name t hblanks hname => exact isRead_name blanks name t hblanks hname
  | tuple blanks inside trailing fs hblanks hinside htrailing ih =>
      exact isRead_tuple blanks inside trailing fs hblanks hinside ih htrailing
  | array cs e _ ih => exact isRead_array cs e ih
  | fixedArray cs digits e _ hdigits hlength ih =>
      exact isRead_fixedArray cs digits e ih hdigits hlength
  | last cs t _ ih => exact areRead_last cs t ih
  | more cs blanks rest t fs _ hblanks _ ih ihrest =>
      exact areRead_more cs blanks rest t fs ih hblanks ihrest

end AbiType
end ContractAbi
