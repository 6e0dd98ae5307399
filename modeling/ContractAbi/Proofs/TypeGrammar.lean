import ContractAbi.AbiType.Parser
import ContractAbi.Proofs.Legality
import ContractAbi.Proofs.UniqueReadability

/-!
# The grammar of type texts

What a type text looks like, without a word about how it is read:

    type    ::=  blank* base suffix*
    base    ::=  name  |  'fixed' digits 'x' digits  |  '(' type (blank* ',' type)* blank* ')'
    suffix  ::=  '[' ']'  |  '[' digits ']'

A name is one of the table, the digits of a length have a value of at most `maxSize`, and blanks are
ASCII.  `Denotes` and `DenotesFields` are this grammar with the descriptors that its texts stand for;
a suffix applies to all that precedes it, so `Denotes` grows at the end.

Blanks in front make no difference to what a text denotes (`denotes_append`), and may be taken off
(`exists_begin`), which is what reading does.  Names are read as the grammar has them
(`parseName_of_isName`, `exists_isName_of_parseName`), and nothing else is.
-/

namespace ContractAbi
namespace AbiType

open Text (numeralValue)

/-! ## The grammar -/

/-- Blanks that may stand between the parts of a type text. -/
def Blanks (cs : List Char) : Prop :=
  ∀ c ∈ cs, Text.isAsciiBlank c = true

/-- At least one digit, and nothing else. -/
def Digits (cs : List Char) : Prop :=
  cs ≠ [] ∧ ∀ c ∈ cs, c.isDigit = true

/-- The name is one of the table, or that of a decimal with both widths. -/
inductive IsName : List Char → AbiType → Prop where
  | listed (name : List Char) (t : AbiType) (h : (name, t) ∈ names) : IsName name t
  | fixed (m n : List Char) (hm : Digits m) (hn : Digits n) :
      IsName ("fixed".toList ++ (m ++ 'x' :: n)) (.fixed (numeralValue m) (numeralValue n))

mutual

/-- The characters are a type text of the descriptor, without blanks behind it. -/
inductive Denotes : List Char → AbiType → Prop where
  | name (blanks name : List Char) (t : AbiType) (hblanks : Blanks blanks) (hname : IsName name t) :
      Denotes (blanks ++ name) t
  | tuple (blanks inside trailing : List Char) (fs : List Param) (hblanks : Blanks blanks)
      (hinside : DenotesFields inside fs) (htrailing : Blanks trailing) :
      Denotes (blanks ++ '(' :: (inside ++ (trailing ++ [')']))) (.tuple fs)
  | array (cs : List Char) (e : AbiType) (h : Denotes cs e) : Denotes (cs ++ ['[', ']']) (.array e)
  | fixedArray (cs digits : List Char) (e : AbiType) (h : Denotes cs e) (hdigits : Digits digits)
      (hlength : numeralValue digits ≤ maxSize) :
      Denotes (cs ++ '[' :: (digits ++ [']'])) (.fixedArray e (numeralValue digits))

/-- The characters are the type texts of fields without names, separated by commas. -/
inductive DenotesFields : List Char → List Param → Prop where
  | last (cs : List Char) (t : AbiType) (h : Denotes cs t) : DenotesFields cs [.unnamed t]
  | more (cs blanks rest : List Char) (t : AbiType) (fs : List Param) (h : Denotes cs t)
      (hblanks : Blanks blanks) (hrest : DenotesFields rest fs) :
      DenotesFields (cs ++ (blanks ++ ',' :: rest)) (.unnamed t :: fs)

end

/-! ## Blanks and digits -/

theorem skipBlanks_append (blanks cs : List Char) (h : Blanks blanks) :
    skipBlanks (blanks ++ cs) = skipBlanks cs :=
  List.dropWhile_append_of_pos h

theorem exists_blanks (cs : List Char) : ∃ blanks, Blanks blanks ∧ cs = blanks ++ skipBlanks cs :=
  ⟨cs.takeWhile Text.isAsciiBlank, List.all_eq_true.mp List.all_takeWhile,
    List.takeWhile_append_dropWhile.symm⟩

theorem isBlank_of_isAlphanum (c : Char) (h : c.isAlphanum = true) : Text.isBlank c = false := by
  have hascii : 0x30 ≤ c.toNat ∧ c.toNat < 0x80 := by
    delta Char.isAlphanum Char.isAlpha Char.isUpper Char.isLower Char.isDigit at h
    simp only [Bool.or_eq_true, Bool.and_eq_true, decide_eq_true_eq, ge_iff_le,
      UInt32.le_iff_toNat_le] at h
    have hcode : c.val.toNat = c.toNat := rfl
    simp [hcode] at h
    omega
  simp only [Text.isBlank, Bool.or_eq_false_iff, Bool.and_eq_false_imp, decide_eq_true_eq,
    decide_eq_false_iff_not, beq_eq_false_iff_ne]
  omega

theorem skipBlanks_cons (c : Char) (cs : List Char) (hc : Text.isBlank c = false) :
    skipBlanks (c :: cs) = c :: cs := by
  have hascii : ¬ Text.isAsciiBlank c = true := by
    intro h
    rw [Text.isBlank_of_isAsciiBlank c h] at hc
    contradiction
  rw [skipBlanks, List.dropWhile_cons, if_neg hascii]

theorem skipBlanks_append_cons (blanks : List Char) (c : Char) (cs : List Char)
    (hblanks : Blanks blanks) (hc : Text.isBlank c = false) :
    skipBlanks (blanks ++ c :: cs) = c :: cs := by
  rw [skipBlanks_append _ _ hblanks, skipBlanks_cons c cs hc]

/-! ## Names -/

/-- The names of the table are words that stand for a descriptor without containers, none of them hides
another, and none is the name of a decimal with both widths. -/
theorem names_listed : ∀ p ∈ names, p.1 ≠ [] ∧ p.1.all Char.isAlphanum = true ∧ depth p.2 = 0 ∧
    ofName? p.1 = some p.2 ∧ ofFixedName? p.1 = none := by
  decide +kernel

theorem mem_names_of_ofName? (name : List Char) (t : AbiType) (h : ofName? name = some t) :
    (name, t) ∈ names := by
  obtain ⟨before, after, hnames, -⟩ := List.lookup_eq_some_iff.mp h
  rw [hnames]
  exact List.mem_append_right _ (List.mem_cons_self ..)

theorem depth_of_isName (name : List Char) (t : AbiType) (h : IsName name t) : depth t = 0 := by
  cases h with
  | listed _ _ h => exact (names_listed _ h).2.2.1
  | fixed => rfl

/-- A name is a word. -/
theorem isAlphanum_of_isName (name : List Char) (t : AbiType) (h : IsName name t) :
    name ≠ [] ∧ ∀ c ∈ name, c.isAlphanum = true := by
  cases h with
  | listed _ _ h =>
      obtain ⟨hne, hall, -⟩ := names_listed _ h
      exact ⟨hne, List.all_eq_true.mp hall⟩
  | fixed m n hm hn =>
      have hdigits : ∀ c : Char, c.isDigit = true → c.isAlphanum = true := by
        intro c hc
        rw [Char.isAlphanum, hc, Bool.or_true]
      have hfixed : "fixed".toList.all Char.isAlphanum = true := rfl
      refine ⟨List.cons_ne_nil _ _, List.forall_mem_append.mpr ⟨List.all_eq_true.mp hfixed, ?_⟩⟩
      refine List.forall_mem_append.mpr ⟨fun c hc => hdigits c (hm.2 c hc), ?_⟩
      exact List.forall_mem_cons.mpr ⟨rfl, fun c hc => hdigits c (hn.2 c hc)⟩

theorem digits_numeral (n : Nat) : Digits (Text.numeral n) :=
  ⟨Text.numeral_ne_nil n, Text.isDigit_of_mem_numeral n⟩

theorem digits_iff (cs : List Char) :
    Digits cs ↔ (cs.isEmpty || !Text.allDigits cs) = false := by
  simp [Digits, Text.allDigits]

theorem sizeOfDigits?_eq_some_iff (digits : List Char) (n : Nat) :
    sizeOfDigits? digits = some n ↔ Digits digits ∧ n = numeralValue digits ∧ n ≤ maxSize := by
  rw [sizeOfDigits?, digits_iff]
  split
  · rename_i h
    simp [h]
  · rename_i h
    rw [size?_eq_some_iff, Bool.eq_false_iff]
    constructor
    · rintro ⟨rfl, hsize⟩
      exact ⟨h, rfl, hsize⟩
    · rintro ⟨-, rfl, hsize⟩
      exact ⟨rfl, hsize⟩

/-- The widths of a decimal are told apart by the letter between them. -/
theorem ofFixedName?_eq_some_iff (name : List Char) (t : AbiType) :
    ofFixedName? name = some t ↔ ∃ m n, Digits m ∧ Digits n ∧
      numeralValue m ≤ maxSize ∧ numeralValue n ≤ maxSize ∧
      name = "fixed".toList ++ (m ++ 'x' :: n) ∧ t = .fixed (numeralValue m) (numeralValue n) := by
  constructor
  · intro h
    rw [ofFixedName?] at h
    split at h
    · rename_i hprefix
      obtain ⟨widths, rfl⟩ := List.isPrefixOf_iff_prefix.mp hprefix
      have hdrop : ("fixed".toList ++ widths).drop 5 = widths := by simp
      rw [hdrop] at h
      simp only at h
      split at h
      · contradiction
      · rename_i x fraction hbehind
        simp only [Option.bind_eq_bind, Option.bind_eq_some_iff, sizeOfDigits?_eq_some_iff] at h
        obtain ⟨m, ⟨hm, rfl, hmsize⟩, n, ⟨hn, rfl, hnsize⟩, ht⟩ := h
        obtain rfl : x = 'x' := by
          have hne : widths.dropWhile (fun c => decide (c ≠ 'x')) ≠ [] := by
            rw [hbehind]
            exact List.cons_ne_nil _ _
          have hhead := List.head_dropWhile_not (fun c => decide (c ≠ 'x')) hne
          simp only [hbehind, List.head_cons] at hhead
          simpa using hhead
        refine ⟨_, fraction, hm, hn, hmsize, hnsize, ?_, (Option.some.inj ht).symm⟩
        rw [← hbehind, List.takeWhile_append_dropWhile]
    · contradiction
  · rintro ⟨m, n, hm, hn, hmsize, hnsize, rfl, rfl⟩
    have hdigits : ∀ c ∈ m, decide (c ≠ 'x') = true := by
      intro c hc
      have hdigit := hm.2 c hc
      simp only [decide_eq_true_eq]
      rintro rfl
      contradiction
    have hx : Stops (fun c => decide (c ≠ 'x')) ('x' :: n) := (stops_cons _ _ _).mpr rfl
    have hprefix : "fixed".toList.isPrefixOf ("fixed".toList ++ (m ++ 'x' :: n)) = true :=
      List.isPrefixOf_iff_prefix.mpr (List.prefix_append _ _)
    have hdrop : ("fixed".toList ++ (m ++ 'x' :: n)).drop 5 = m ++ 'x' :: n := by simp
    rw [ofFixedName?, if_pos hprefix, hdrop]
    simp only [takeWhile_append_of_stops hdigits hx, dropWhile_append_of_stops hdigits hx,
      (sizeOfDigits?_eq_some_iff m _).mpr ⟨hm, rfl, hmsize⟩,
      (sizeOfDigits?_eq_some_iff n _).mpr ⟨hn, rfl, hnsize⟩]
    rfl

/-- A name is found in the table or taken apart, if its descriptor is legal. -/
theorem lookup_of_isName (name : List Char) (t : AbiType) (h : IsName name t) (hlegal : t.Legal) :
    ofName? name = some t ∨ ofName? name = none ∧ ofFixedName? name = some t := by
  cases h with
  | listed _ _ h => exact .inl (names_listed _ h).2.2.2.1
  | fixed m n hm hn =>
      have hmsize : numeralValue m ≤ maxSize :=
        Nat.le_trans ((isIntegerWidth_iff _).mp hlegal.1).2.1 (by decide)
      have hnsize : numeralValue n ≤ maxSize := Nat.le_trans hlegal.2 (by decide)
      have hfixed := (ofFixedName?_eq_some_iff _ _).mpr ⟨m, n, hm, hn, hmsize, hnsize, rfl, rfl⟩
      refine .inr ⟨?_, hfixed⟩
      cases hlisted : ofName? ("fixed".toList ++ (m ++ 'x' :: n)) with
      | none => rfl
      | some u =>
          have hnone := (names_listed _ (mem_names_of_ofName? _ u hlisted)).2.2.2.2
          rw [hfixed] at hnone
          contradiction

/-- A name is read to its end. -/
theorem parseName_of_isName (name : List Char) (t : AbiType) (h : IsName name t) (hlegal : t.Legal)
    (rest : List Char) (hrest : Stops Char.isAlphanum rest) :
    parseName (name ++ rest) = .ok (t, rest) := by
  obtain ⟨hne, hword⟩ := isAlphanum_of_isName name t h
  have hnonempty : name.isEmpty = false := List.isEmpty_eq_false_iff.mpr hne
  simp only [parseName, takeWhile_append_of_stops hword hrest, dropWhile_append_of_stops hword hrest,
    hnonempty]
  rcases lookup_of_isName name t h hlegal with hlisted | ⟨hnone, hfixed⟩
  · simp [hlisted]
  · simp [hnone, hfixed]

theorem isName_of_ofFixedName? (name : List Char) (t : AbiType) (h : ofFixedName? name = some t) :
    IsName name t := by
  obtain ⟨m, n, hm, hn, -, -, rfl, rfl⟩ := (ofFixedName?_eq_some_iff name t).mp h
  exact .fixed m n hm hn

theorem exists_isName_of_parseName (cs : List Char) (t : AbiType) (rest : List Char)
    (h : parseName cs = .ok (t, rest)) : ∃ name, cs = name ++ rest ∧ IsName name t := by
  have hsplit : cs = cs.takeWhile Char.isAlphanum ++ cs.dropWhile Char.isAlphanum :=
    List.takeWhile_append_dropWhile.symm
  rw [parseName] at h
  split at h
  · contradiction
  split at h
  · rename_i u hlisted
    cases h
    exact ⟨_, hsplit, .listed _ _ (mem_names_of_ofName? _ t hlisted)⟩
  split at h
  · rename_i u hfixed
    cases h
    exact ⟨_, hsplit, isName_of_ofFixedName? _ t hfixed⟩
  · contradiction

/-! ## How type texts begin -/

/-- A letter, a digit or an opening parenthesis: what a type text begins with. -/
def Begins (c : Char) : Prop :=
  c.isAlphanum = true ∨ c = '('

/-- A type text begins with a letter, a digit or a parenthesis, blanks aside, and the blanks may be
missing. -/
theorem exists_begin (cs : List Char) (t : AbiType) (h : Denotes cs t) :
    ∃ blanks c rest, cs = blanks ++ c :: rest ∧ Blanks blanks ∧ Begins c ∧ Denotes (c :: rest) t := by
  induction h using Denotes.rec (motive_2 := fun _ _ _ => True) with
  | name blanks name t hblanks hname =>
      obtain ⟨hne, hword⟩ := isAlphanum_of_isName name t hname
      obtain ⟨c, rest, rfl⟩ := List.exists_cons_of_ne_nil hne
      exact ⟨blanks, c, rest, rfl, hblanks, .inl (hword c (List.mem_cons_self ..)),
        .name [] _ t nofun hname⟩
  | tuple blanks inside trailing fs hblanks hinside htrailing =>
      exact ⟨blanks, '(', _, rfl, hblanks, .inr rfl,
        .tuple [] inside trailing fs nofun hinside htrailing⟩
  | array cs e _ ih =>
      obtain ⟨blanks, c, rest, rfl, hblanks, hc, hrest⟩ := ih
      exact ⟨blanks, c, rest ++ ['[', ']'], by simp, hblanks, hc, .array _ e hrest⟩
  | fixedArray cs digits e _ hdigits hlength ih =>
      obtain ⟨blanks, c, rest, rfl, hblanks, hc, hrest⟩ := ih
      exact ⟨blanks, c, rest ++ '[' :: (digits ++ [']']), by simp, hblanks, hc,
        .fixedArray _ digits e hrest hdigits hlength⟩
  | last => trivial
  | more => trivial

theorem exists_begin_fields (cs : List Char) (fs : List Param) (h : DenotesFields cs fs) :
    ∃ blanks c rest, cs = blanks ++ c :: rest ∧ Blanks blanks ∧ Begins c ∧
      DenotesFields (c :: rest) fs := by
  cases h with
  | last _ t h =>
      obtain ⟨blanks, c, rest, rfl, hblanks, hc, hrest⟩ := exists_begin cs t h
      exact ⟨blanks, c, rest, rfl, hblanks, hc, .last _ t hrest⟩
  | more first blanks' more t fs h hblanks' hmore =>
      obtain ⟨blanks, c, rest, rfl, hblanks, hc, hrest⟩ := exists_begin first t h
      exact ⟨blanks, c, rest ++ (blanks' ++ ',' :: more), by simp, hblanks, hc,
        .more _ blanks' more t fs hrest hblanks' hmore⟩

theorem isBlank_of_begins (c : Char) (h : Begins c) : Text.isBlank c = false := by
  rcases h with h | rfl
  · exact isBlank_of_isAlphanum c h
  · decide

/-- There are no more fields than characters. -/
theorem length_le_of_denotesFields (cs : List Char) (fs : List Param) (h : DenotesFields cs fs) :
    fs.length ≤ cs.length := by
  induction h using DenotesFields.rec (motive_1 := fun _ _ _ => True) with
  | last cs t h =>
      obtain ⟨blanks, c, rest, rfl, -⟩ := exists_begin cs t h
      rw [List.length_append, List.length_cons]
      exact Nat.le_trans (Nat.succ_le_succ (Nat.zero_le _)) (Nat.le_add_left _ _)
  | more cs blanks rest t fs _ _ _ _ ih =>
      rw [List.length_append, List.length_append, List.length_cons, List.length_cons]
      omega
  | _ => trivial

theorem denotes_append (blanks cs : List Char) (t : AbiType) (hblanks : Blanks blanks)
    (h : Denotes cs t) : Denotes (blanks ++ cs) t := by
  induction h using Denotes.rec (motive_2 := fun _ _ _ => True) with
  | name blanks' name t hblanks' hname =>
      rw [← List.append_assoc]
      exact .name _ name t (List.forall_mem_append.mpr ⟨hblanks, hblanks'⟩) hname
  | tuple blanks' inside trailing fs hblanks' hinside htrailing =>
      rw [← List.append_assoc]
      exact .tuple _ inside trailing fs (List.forall_mem_append.mpr ⟨hblanks, hblanks'⟩) hinside
        htrailing
  | array cs e _ ih =>
      rw [← List.append_assoc]
      exact .array _ e ih
  | fixedArray cs digits e _ hdigits hlength ih =>
      rw [← List.append_assoc]
      exact .fixedArray _ digits e ih hdigits hlength
  | last => trivial
  | more => trivial

theorem denotesFields_append (blanks cs : List Char) (fs : List Param) (hblanks : Blanks blanks)
    (h : DenotesFields cs fs) : DenotesFields (blanks ++ cs) fs := by
  cases h with
  | last _ t h => exact .last _ t (denotes_append blanks cs t hblanks h)
  | more first blanks' rest t fs h hblanks' hrest =>
      rw [← List.append_assoc]
      exact .more _ blanks' rest t fs (denotes_append blanks first t hblanks h) hblanks' hrest

end AbiType
end ContractAbi
