import ContractAbi.Proofs.Failures
import ContractAbi.Proofs.Logs
import ContractAbi.Proofs.Relocation
import ContractAbi.Proofs.TypeSoundness

/-!
# The two streams of a log

A log is read from topics and from data, which are used up side by side along the parameters.  Nothing of
either is lost or made up: `decodeLog_eq_ok_iff` says that the values at the indexed parameters are what
the topics carry, each of them on its own, and the values at the other parameters are what the data is
decoded to, all of them together.

The number of topics is counted before anything is read.  From then on `Supplied` holds, and neither
stream ends before the parameters do, so that no other count is ever found wrong
(`kind_of_merge_eq_error`).
-/

namespace ContractAbi

/-! ## How reading ends -/

/-- Whether reading ends with errors of that kind. -/
def ErrorKind.ofReading : ErrorKind → Bool
  | .unsupportedType | .typeMismatch | .truncatedInput | .malformedOffset | .unaddressable => true
  | _ => false

theorem refusals_ofReading : Refusals fun e => e.kind.ofReading = true where
  unsupported _ := rfl
  mismatch _ := rfl
  truncated _ _ := rfl
  malformed _ := rfl

/-- What decoding never complains about is the number of values. -/
theorem kind_of_decode_eq_error (config : Config) (ts : List AbiType) (data : Bytes) (e : AbiError)
    (h : decode config ts data = .error e) : e.kind.ofReading = true :=
  failsOnly_of_decode refusals_ofReading config ts data (.inl rfl) e h

/-- Decoding returns one value for each descriptor. -/
theorem length_eq_of_decode (config : Config) (ts : List AbiType) (data : Bytes) (vs : List Value)
    (h : decode config ts data = .ok vs) : vs.length = ts.length := by
  obtain ⟨-, s, hrun⟩ := (decode_eq_ok_iff config ts data vs).mp h
  have hitems := Decode.forall₂_of_region config data.toArray (fun _ _ => True) ts
    (fun _ _ _ _ _ _ _ => trivial) 0 0 0 s vs hrun
  exact hitems.length_eq.symm

namespace EventDecl

/-! ## Values at indexed and at other parameters -/

/-- The values at the indexed parameters, with these parameters. -/
def indexedValues (ps : List EventParam) (vs : List Value) : List (EventParam × Value) :=
  (ps.zip vs).filter fun x => x.1.indexed

/-- The values at the other parameters. -/
def plainValues (ps : List EventParam) (vs : List Value) : List Value :=
  ((ps.zip vs).filter fun x => !x.1.indexed).map Prod.snd

/-- What a topic holds for a parameter: the encoding of a single word, or a digest that stands for
itself. -/
def Carries (config : Config) (w : Word) (x : EventParam × Value) : Prop :=
  if x.1.kind.isValueType then decode config [x.1.kind] w.toBytes = .ok [x.2]
  else x.2 = .fixedBytes w.toBytes

/-- There is a topic for each indexed parameter and a value for each other one. -/
structure Supplied (ps : List EventParam) (topics : List Word) (values : List Value) : Prop where
  topics : topics.length = ps.countP EventParam.indexed
  values : values.length = ps.countP fun p => !p.indexed

section Streams

variable (p : EventParam) (ps : List EventParam) (v : Value) (vs : List Value)

theorem indexedValues_cons_of_indexed (h : p.indexed = true) :
    indexedValues (p :: ps) (v :: vs) = (p, v) :: indexedValues ps vs := by
  simp [indexedValues, h]

theorem indexedValues_cons_of_plain (h : p.indexed = false) :
    indexedValues (p :: ps) (v :: vs) = indexedValues ps vs := by
  simp [indexedValues, h]

theorem plainValues_cons_of_indexed (h : p.indexed = true) :
    plainValues (p :: ps) (v :: vs) = plainValues ps vs := by
  simp [plainValues, h]

theorem plainValues_cons_of_plain (h : p.indexed = false) :
    plainValues (p :: ps) (v :: vs) = v :: plainValues ps vs := by
  simp [plainValues, h]

variable {p ps} {topics : List Word} {values : List Value}

/-- An indexed parameter is supplied with a topic. -/
theorem Supplied.of_indexed (h : Supplied (p :: ps) topics values) (hindexed : p.indexed = true) :
    ∃ w rest, topics = w :: rest ∧ Supplied ps rest values := by
  obtain ⟨htopics, hvalues⟩ := h
  rw [List.countP_cons_of_pos hindexed] at htopics
  rw [List.countP_cons_of_neg (by simp [hindexed])] at hvalues
  obtain ⟨w, rest, rfl⟩ := List.exists_cons_of_length_eq_add_one htopics
  exact ⟨w, rest, rfl, Nat.succ.inj htopics, hvalues⟩

/-- Any other parameter is supplied with a value. -/
theorem Supplied.of_plain (h : Supplied (p :: ps) topics values) (hplain : p.indexed = false) :
    ∃ v rest, values = v :: rest ∧ Supplied ps topics rest := by
  obtain ⟨htopics, hvalues⟩ := h
  rw [List.countP_cons_of_neg (by simp [hplain])] at htopics
  rw [List.countP_cons_of_pos (by simp [hplain])] at hvalues
  obtain ⟨v, rest, rfl⟩ := List.exists_cons_of_length_eq_add_one hvalues
  exact ⟨v, rest, rfl, htopics, Nat.succ.inj hvalues⟩

end Streams

/-! ## Reading a topic -/

variable (config : Config)

theorem decodeTopic_eq_ok_iff (p : EventParam) (w : Word) (v : Value) :
    decodeTopic config p.kind w = .ok v ↔ Carries config w (p, v) := by
  rw [decodeTopic, Carries]
  split
  · rw [Except.bind_eq_ok_iff]
    constructor
    · rintro ⟨vs, hvs, hlast⟩
      obtain ⟨v', rfl⟩ := List.length_eq_one_iff.mp (length_eq_of_decode config _ _ vs hvs)
      cases hlast
      exact hvs
    · intro h
      exact ⟨[v], h, rfl⟩
  · rw [Except.ok.injEq, eq_comm]

theorem kind_of_decodeTopic_eq_error (t : AbiType) (w : Word) (e : AbiError)
    (h : decodeTopic config t w = .error e) : e.kind.ofReading = true := by
  rw [decodeTopic] at h
  split at h
  · rcases (Except.bind_eq_error_iff _ _ e).mp h with herror | ⟨vs, hvs, hlast⟩
    · exact kind_of_decode_eq_error config _ _ e herror
    · obtain ⟨v, rfl⟩ := List.length_eq_one_iff.mp (length_eq_of_decode config _ _ vs hvs)
      contradiction
  · contradiction

/-! ## Merging -/

variable (short : AbiError)

theorem merge_of_indexed (p : EventParam) (ps : List EventParam) (hindexed : p.indexed = true)
    (w : Word) (topics : List Word) (values : List Value) :
    merge config short (p :: ps) (w :: topics) values = (do
      let v ← decodeTopic config p.kind w
      let vs ← merge config short ps topics values
      return v :: vs) := by
  simp only [merge, if_pos hindexed]

theorem merge_of_plain (p : EventParam) (ps : List EventParam) (hplain : p.indexed = false)
    (topics : List Word) (v : Value) (values : List Value) :
    merge config short (p :: ps) topics (v :: values) = (do
      let vs ← merge config short ps topics values
      return v :: vs) := by
  simp only [merge, hplain]
  rfl

/-- Each stream is found again at its own parameters, and in its own order. -/
theorem merge_eq_ok_iff (ps : List EventParam) (topics : List Word) (values vs : List Value)
    (h : Supplied ps topics values) :
    merge config short ps topics values = .ok vs ↔
      vs.length = ps.length ∧ plainValues ps vs = values ∧
        List.Forall₂ (Carries config) topics (indexedValues ps vs) := by
  induction ps generalizing topics values vs with
  | nil =>
      obtain ⟨htopics, hvalues⟩ := h
      obtain rfl := List.length_eq_zero_iff.mp htopics
      obtain rfl := List.length_eq_zero_iff.mp hvalues
      cases vs <;> simp [merge, plainValues, indexedValues]
  | cons p ps ih =>
      cases hindexed : p.indexed with
      | true =>
          obtain ⟨w, topics, rfl, hrest⟩ := h.of_indexed hindexed
          rw [merge_of_indexed config short p ps hindexed]
          simp only [Except.bind_eq_ok_iff, decodeTopic_eq_ok_iff, ih topics values _ hrest]
          constructor
          · rintro ⟨v, hv, vs, ⟨hlength, hplain, htopics⟩, heq⟩
            cases heq
            rw [plainValues_cons_of_indexed p ps v vs hindexed,
              indexedValues_cons_of_indexed p ps v vs hindexed]
            exact ⟨congrArg Nat.succ hlength, hplain, .cons hv htopics⟩
          · rintro ⟨hlength, hplain, htopics⟩
            obtain ⟨v, vs, rfl⟩ := List.exists_cons_of_length_eq_add_one hlength
            rw [plainValues_cons_of_indexed p ps v vs hindexed] at hplain
            rw [indexedValues_cons_of_indexed p ps v vs hindexed, List.forall₂_cons] at htopics
            exact ⟨v, htopics.1, vs, ⟨Nat.succ.inj hlength, hplain, htopics.2⟩, rfl⟩
      | false =>
          obtain ⟨v, values, rfl, hrest⟩ := h.of_plain hindexed
          rw [merge_of_plain config short p ps hindexed]
          simp only [Except.bind_eq_ok_iff, ih topics values _ hrest]
          constructor
          · rintro ⟨vs, ⟨hlength, hplain, htopics⟩, heq⟩
            cases heq
            rw [plainValues_cons_of_plain p ps v vs hindexed,
              indexedValues_cons_of_plain p ps v vs hindexed, hplain]
            exact ⟨congrArg Nat.succ hlength, rfl, htopics⟩
          · rintro ⟨hlength, hplain, htopics⟩
            obtain ⟨v', vs, rfl⟩ := List.exists_cons_of_length_eq_add_one hlength
            rw [plainValues_cons_of_plain p ps v' vs hindexed, List.cons.injEq] at hplain
            rw [indexedValues_cons_of_plain p ps v' vs hindexed] at htopics
            obtain ⟨rfl, hplain⟩ := hplain
            exact ⟨vs, ⟨Nat.succ.inj hlength, hplain, htopics⟩, rfl⟩

/-- Where nothing runs out, merging fails only because a topic cannot be read. -/
theorem kind_of_merge_eq_error (ps : List EventParam) (topics : List Word) (values : List Value)
    (h : Supplied ps topics values) (e : AbiError)
    (herror : merge config short ps topics values = .error e) : e.kind.ofReading = true := by
  induction ps generalizing topics values with
  | nil => contradiction
  | cons p ps ih =>
      cases hindexed : p.indexed with
      | true =>
          obtain ⟨w, topics, rfl, hrest⟩ := h.of_indexed hindexed
          rw [merge_of_indexed config short p ps hindexed] at herror
          rcases (Except.bind_eq_error_iff _ _ e).mp herror with htopic | ⟨v, -, hmore⟩
          · exact kind_of_decodeTopic_eq_error config p.kind w e htopic
          · rcases (Except.bind_eq_error_iff _ _ e).mp hmore with hmerge | ⟨vs, -, hlast⟩
            · exact ih topics values hrest hmerge
            · contradiction
      | false =>
          obtain ⟨v, values, rfl, hrest⟩ := h.of_plain hindexed
          rw [merge_of_plain config short p ps hindexed] at herror
          rcases (Except.bind_eq_error_iff _ _ e).mp herror with hmerge | ⟨vs, -, hlast⟩
          · exact ih topics values hrest hmerge
          · contradiction

/-! ## Reading a log -/

variable (e : EventDecl) (hash : Hasher)

/-- The first topic is checked and left out, unless the event is anonymous. -/
theorem indexedTopics_eq_ok_iff (topics indexed : List Word) (hcount : topics.length = e.topicCount) :
    e.indexedTopics hash topics = .ok indexed ↔
      (e.anonymous = false → topics.head? = some (e.topic hash)) ∧
        indexed = topics.drop (if e.anonymous then 0 else 1) := by
  rw [topicCount] at hcount
  unfold indexedTopics
  cases hanonymous : e.anonymous with
  | true => simp [eq_comm]
  | false =>
      rw [hanonymous] at hcount
      obtain ⟨first, rest, rfl⟩ := List.exists_cons_of_length_eq_add_one hcount
      simp only [Bool.false_eq_true, if_false, Except.ite_error_eq_ok_iff, Except.ok.injEq]
      simp [eq_comm]

theorem supplied_of_decode (topics indexed : List Word) (data : Bytes) (values : List Value)
    (hcount : topics.length = e.topicCount) (htopics : e.indexedTopics hash topics = .ok indexed)
    (hvalues : decode config e.dataTypes data = .ok values) : Supplied e.inputs indexed values := by
  obtain ⟨-, rfl⟩ := (e.indexedTopics_eq_ok_iff hash topics indexed hcount).mp htopics
  constructor
  · rw [List.length_drop, hcount, topicCount, indexedCount]
    cases e.anonymous <;> simp
  · rw [length_eq_of_decode config _ data values hvalues, dataTypes, List.length_map,
      List.countP_eq_length_filter]

theorem kind_of_indexedTopics_eq_error (topics : List Word) (cause : AbiError)
    (h : e.indexedTopics hash topics = .error cause) : cause.kind.ofReading = true := by
  unfold indexedTopics at h
  split at h
  · contradiction
  · split at h
    · contradiction
    · split at h
      · contradiction
      · cases h
        rfl

/-- A log is read exactly if its topics are as many as they should be and begin with the digest of the
signature, the data is decoded, and every topic of an indexed parameter holds something. -/
theorem decodeLog_eq_ok_iff (topics : List Word) (data : Bytes) (vs : List Value) :
    e.decodeLog config hash topics data = .ok vs ↔
      (topics.length = e.topicCount ∧ (e.anonymous = false → topics.head? = some (e.topic hash))) ∧
        vs.length = e.inputs.length ∧
        decode config e.dataTypes data = .ok (plainValues e.inputs vs) ∧
        List.Forall₂ (Carries config) (topics.drop (if e.anonymous then 0 else 1))
          (indexedValues e.inputs vs) := by
  by_cases hcount : topics.length = e.topicCount
  · rw [e.decodeLog_of_length_eq config hash topics data hcount]
    simp only [Except.bind_eq_ok_iff]
    constructor
    · rintro ⟨indexed, htopics, values, hvalues, hmerge⟩
      have hsupplied := e.supplied_of_decode config hash _ _ _ _ hcount htopics hvalues
      obtain ⟨hlength, rfl, hcarries⟩ := (merge_eq_ok_iff config _ _ _ _ vs hsupplied).mp hmerge
      obtain ⟨hfirst, rfl⟩ := (e.indexedTopics_eq_ok_iff hash topics _ hcount).mp htopics
      exact ⟨⟨hcount, hfirst⟩, hlength, hvalues, hcarries⟩
    · rintro ⟨⟨-, hfirst⟩, hlength, hvalues, hcarries⟩
      have htopics := (e.indexedTopics_eq_ok_iff hash topics _ hcount).mpr ⟨hfirst, rfl⟩
      have hsupplied := e.supplied_of_decode config hash _ _ _ _ hcount htopics hvalues
      exact ⟨_, htopics, _, hvalues,
        (merge_eq_ok_iff config _ _ _ _ vs hsupplied).mpr ⟨hlength, rfl, hcarries⟩⟩
  · rw [e.decodeLog_of_length_ne config hash topics data hcount]
    exact iff_of_false nofun fun h => hcount h.1.1

/-- With the right number of topics, a log fails with an error of reading. -/
theorem kind_of_decodeLog_eq_error (topics : List Word) (data : Bytes)
    (hcount : topics.length = e.topicCount) (cause : AbiError)
    (h : e.decodeLog config hash topics data = .error cause) : cause.kind.ofReading = true := by
  rw [e.decodeLog_of_length_eq config hash topics data hcount] at h
  rcases (Except.bind_eq_error_iff _ _ cause).mp h with hfirst | ⟨indexed, htopics, hmore⟩
  · exact e.kind_of_indexedTopics_eq_error hash topics cause hfirst
  · rcases (Except.bind_eq_error_iff _ _ cause).mp hmore with hdecode | ⟨values, hvalues, hmerge⟩
    · exact kind_of_decode_eq_error config _ data cause hdecode
    · exact kind_of_merge_eq_error config _ _ _ _
        (e.supplied_of_decode config hash _ _ _ _ hcount htopics hvalues) cause hmerge

end EventDecl

/-- A log is refused for the number of its topics exactly if that number is wrong; no count that is made
later is ever found wrong.  A log is read exactly if, besides, its first topic is the digest of the
signature (unless the event is anonymous), the data alone is decoded to the values at the parameters that
are not indexed, and the topics alone hold, one after the other, the values at the indexed ones. -/
theorem decodeLog_streams (e : EventDecl) (config : Config) (hash : Hasher) (topics : List Word)
    (data : Bytes) :
    ((∃ expected got, e.decodeLog config hash topics data =
        .error (.typeArityMismatch expected got)) ↔
      topics.length ≠ e.inputs.countP EventParam.indexed + if e.anonymous then 0 else 1) ∧
    ∀ vs, e.decodeLog config hash topics data = .ok vs ↔
      (topics.length = (e.inputs.countP EventParam.indexed + if e.anonymous then 0 else 1) ∧
        (e.anonymous = false → topics.head? = some (e.topic hash))) ∧
      vs.length = e.inputs.length ∧
      decode config e.dataTypes data = .ok (EventDecl.plainValues e.inputs vs) ∧
      List.Forall₂ (EventDecl.Carries config) (topics.drop (if e.anonymous then 0 else 1))
        (EventDecl.indexedValues e.inputs vs) := by
  refine ⟨⟨?_, fun hcount => ?_⟩, fun vs => e.decodeLog_eq_ok_iff config hash topics data vs⟩
  · rintro ⟨expected, got, h⟩ hcount
    have hkind := e.kind_of_decodeLog_eq_error config hash topics data hcount _ h
    contradiction
  · exact ⟨_, _, e.decodeLog_of_length_ne config hash topics data hcount⟩

end ContractAbi
