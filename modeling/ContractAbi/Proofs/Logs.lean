import ContractAbi.Event
import ContractAbi.Proofs.RoundTrip

/-!
# Logs of events

A log is read from two streams, the topics and the data, which are put back into the order of
declaration.  The other direction is `encodeLog`: the log of given arguments has a topic for each
indexed argument, and the others are encoded together as its data.  `decodeLog_encodeLog` says that the
arguments come back, except that an indexed argument which is not a single word is lost: whatever digest
stands in its topic comes back in its place.

One topic is read back by `decodeTopic_of_inTopic`, and `merge_of_inTopic` follows both streams along
the arguments.
-/

namespace ContractAbi

/-- A parameter of an event with its argument. -/
structure EventArgument where
  param : EventParam
  value : Value
  /-- What the topic holds if the parameter is indexed and not a single word. -/
  digest : Word

namespace EventArgument

/-- The topic of an indexed argument: the argument if it is a single word, otherwise its digest. -/
def topic (config : Config) (a : EventArgument) : Except AbiError Word :=
  if a.param.kind.isValueType then do
    let encoded ← encodeParams config [a.param.kind] [a.value]
    return Word.ofBytes encoded
  else .ok a.digest

/-- Whether a word is the topic of an indexed argument. -/
def InTopic (config : Config) (a : EventArgument) (w : Word) : Prop :=
  if a.param.kind.isValueType then encodeParams config [a.param.kind] [a.value] = .ok w.toBytes
  else a.digest = w

/-- What a log gives back for an argument. -/
def recovered (a : EventArgument) : Value :=
  if a.param.indexed && !a.param.kind.isValueType then .fixedBytes a.digest.toBytes
  else a.value.retag a.param.kind

end EventArgument

/-- The log of an event with the given arguments. -/
def EventDecl.encodeLog (e : EventDecl) (config : Config) (hash : Hasher)
    (args : List EventArgument) : Except AbiError (List Word × Bytes) := do
  let plain := args.filter (fun a => !a.param.indexed)
  let data ← encodeParams config e.dataTypes (plain.map EventArgument.value)
  let topics ← (args.filter (fun a => a.param.indexed)).mapM (EventArgument.topic config)
  return (if e.anonymous then topics else e.topic hash :: topics, data)

/-! ## Writing a log -/

/-- What is encoded for a single word is one word. -/
theorem length_encodeParams_of_isValueType (config : Config) (t : AbiType)
    (hword : t.isValueType = true) (v : Value) (out : Bytes)
    (h : encodeParams config [t] [v] = .ok out) : out.length = 32 := by
  have hleaf : t.isDynamic = false ∧ t.headSize = 32 := by
    cases t <;> first | exact ⟨rfl, rfl⟩ | exact absurd hword Bool.false_ne_true
  rw [length_encodeParams_of_static config [t] (List.forall_mem_singleton.mpr hleaf.1) [v] out h]
  simpa using hleaf.2

theorem EventArgument.topic_eq_ok_iff (config : Config) (a : EventArgument) (w : Word) :
    a.topic config = .ok w ↔ a.InTopic config w := by
  rw [topic, InTopic]
  split
  · rename_i hword
    rw [Except.bind_eq_ok_iff]
    constructor
    · rintro ⟨encoded, hencoded, hw⟩
      have hlength := length_encodeParams_of_isValueType config _ hword _ encoded hencoded
      obtain rfl : Word.ofBytes encoded = w := Except.ok.inj hw
      rw [Word.toBytes_ofBytes encoded hlength]
      exact hencoded
    · intro hencoded
      exact ⟨w.toBytes, hencoded, congrArg Except.ok (Word.ofBytes_toBytes w)⟩
  · rw [Except.ok.injEq]

/-- A log can be written if the data can be and every indexed argument has a topic. -/
theorem EventDecl.encodeLog_eq_ok_iff (e : EventDecl) (config : Config) (hash : Hasher)
    (args : List EventArgument) (topics : List Word) (data : Bytes) :
    e.encodeLog config hash args = .ok (topics, data) ↔
      encodeParams config e.dataTypes
          ((args.filter (fun a => !a.param.indexed)).map EventArgument.value) = .ok data ∧
        ∃ indexed, (if e.anonymous then indexed else e.topic hash :: indexed) = topics ∧
          List.Forall₂ (EventArgument.InTopic config) (args.filter (fun a => a.param.indexed))
            indexed := by
  simp only [encodeLog, Except.bind_eq_ok_iff, Except.mapM_eq_ok_iff,
    EventArgument.topic_eq_ok_iff, pure, Except.pure, Except.ok.injEq, Prod.mk.injEq]
  constructor
  · rintro ⟨_, hdata, indexed, hindexed, htopics, rfl⟩
    exact ⟨hdata, indexed, htopics, hindexed⟩
  · rintro ⟨hdata, indexed, htopics, hindexed⟩
    exact ⟨data, hdata, indexed, hindexed, htopics, rfl⟩

/-! ## Reading topics and values -/

namespace EventDecl

variable (config : Config) (short : AbiError) (p : EventParam) (ps : List EventParam)
  (topics : List Word) (values : List Value) (v : Value) (vs : List Value)

/-- An indexed parameter takes the next topic. -/
theorem merge_cons_of_indexed (hindexed : p.indexed = true) (w : Word)
    (hv : decodeTopic config p.kind w = .ok v)
    (hvs : merge config short ps topics values = .ok vs) :
    merge config short (p :: ps) (w :: topics) values = .ok (v :: vs) := by
  simp only [merge, if_pos hindexed, hv, hvs]
  rfl

/-- Any other parameter takes the next value of the data. -/
theorem merge_cons_of_plain (hplain : p.indexed = false)
    (hvs : merge config short ps topics values = .ok vs) :
    merge config short (p :: ps) topics (v :: values) = .ok (v :: vs) := by
  simp only [merge, hplain, hvs]
  rfl

end EventDecl

namespace EventArgument

variable (config : Config)

theorem decodeTopic_of_inTopic (a : EventArgument) (w : Word) (hindexed : a.param.indexed = true)
    (h : a.InTopic config w) : EventDecl.decodeTopic config a.param.kind w = .ok a.recovered := by
  rw [InTopic] at h
  rw [EventDecl.decodeTopic, recovered, hindexed]
  cases hword : a.param.kind.isValueType with
  | true =>
      rw [if_pos hword] at h
      have hdecode : decode config [a.param.kind] w.toBytes = .ok [a.value.retag a.param.kind] :=
        decode_eq_zipWith_retag config _ _ _ (by rw [Word.length_toBytes]; decide) h
          config.strictPadding
      rw [hdecode]
      rfl
  | false =>
      rw [hword] at h
      obtain rfl : a.digest = w := h
      rfl

/-- The topics of the indexed arguments and the values of the others are put back into the order of
declaration. -/
theorem merge_of_inTopic (short : AbiError) (args : List EventArgument) (topics : List Word)
    (h : List.Forall₂ (InTopic config) (args.filter (fun a => a.param.indexed)) topics) :
    EventDecl.merge config short (args.map param) topics
        ((args.filter (fun a => !a.param.indexed)).map (fun a => a.value.retag a.param.kind)) =
      .ok (args.map recovered) := by
  induction args generalizing topics with
  | nil => rfl
  | cons a args ih =>
      rw [List.filter_cons] at h ⊢
      cases hindexed : a.param.indexed with
      | true =>
          rw [if_pos hindexed, List.forall₂_cons_left_iff] at h
          obtain ⟨w, topics, hw, htopics, rfl⟩ := h
          exact EventDecl.merge_cons_of_indexed config short _ _ _ _ _ _ hindexed w
            (decodeTopic_of_inTopic config a w hindexed hw) (ih topics htopics)
      | false =>
          rw [hindexed] at h
          have hrecovered : a.recovered = a.value.retag a.param.kind := by
            rw [recovered, hindexed]
            rfl
          rw [List.map_cons, List.map_cons, hrecovered]
          exact EventDecl.merge_cons_of_plain config short _ _ _ _ _ _ hindexed (ih topics h)

end EventArgument

/-! ## Reading a log -/

namespace EventDecl

variable (e : EventDecl) (config : Config) (hash : Hasher)

/-- The number of topics is checked before anything else. -/
theorem decodeLog_of_length_ne (topics : List Word) (data : Bytes)
    (h : topics.length ≠ e.topicCount) :
    e.decodeLog config hash topics data =
      .error (.typeArityMismatch e.topicCount topics.length) := by
  rw [decodeLog, if_pos h]
  rfl

/-- With the right number of topics, what is left is to read both streams and to merge them. -/
theorem decodeLog_of_length_eq (topics : List Word) (data : Bytes)
    (hcount : topics.length = e.topicCount) :
    e.decodeLog config hash topics data = (do
      let indexed ← e.indexedTopics hash topics
      let values ← decode config e.dataTypes data
      merge config (.typeArityMismatch e.inputs.length (e.indexedCount + e.dataTypes.length))
        e.inputs indexed values) := by
  rw [decodeLog, if_neg (not_not_intro hcount)]

theorem indexedTopics_ite (indexed : List Word) :
    e.indexedTopics hash (if e.anonymous then indexed else e.topic hash :: indexed) =
      .ok indexed := by
  unfold indexedTopics
  cases e.anonymous <;> simp

/-- With the right topics and data it remains to put the values in order. -/
theorem decodeLog_of_values (topics indexed : List Word) (data : Bytes) (values : List Value)
    (hcount : topics.length = e.topicCount) (htopics : e.indexedTopics hash topics = .ok indexed)
    (hvalues : decode config e.dataTypes data = .ok values) :
    e.decodeLog config hash topics data =
      merge config (.typeArityMismatch e.inputs.length (e.indexedCount + e.dataTypes.length))
        e.inputs indexed values := by
  rw [e.decodeLog_of_length_eq config hash topics data hcount, htopics, hvalues]
  rfl

/-- The first topic of an event that is not anonymous has to be the digest of its signature, whatever
the data. -/
theorem decodeLog_of_topic_ne (hnamed : e.anonymous = false) (other : Word)
    (hother : other ≠ e.topic hash) (indexed : List Word) (data : Bytes)
    (hcount : (other :: indexed).length = e.topicCount) :
    e.decodeLog config hash (other :: indexed) data =
      .error (.typeMismatch (.topic other e.signature (e.topic hash))) := by
  have htopics : e.indexedTopics hash (other :: indexed) =
      .error (.typeMismatch (.topic other e.signature (e.topic hash))) := by
    simp [indexedTopics, hnamed, hother]
  rw [e.decodeLog_of_length_eq config hash _ data hcount, htopics]
  rfl

variable (args : List EventArgument) (hargs : args.map EventArgument.param = e.inputs)
include hargs

theorem dataTypes_of_arguments :
    e.dataTypes = (args.filter (fun a => !a.param.indexed)).map (fun a => a.param.kind) := by
  rw [dataTypes, ← hargs, List.filter_map, List.map_map]
  rfl

theorem indexedCount_of_arguments :
    e.indexedCount = (args.filter (fun a => a.param.indexed)).length := by
  rw [indexedCount, ← hargs, List.countP_map, List.countP_eq_length_filter]
  rfl

theorem length_of_inTopic (indexed : List Word)
    (h : List.Forall₂ (EventArgument.InTopic config) (args.filter (fun a => a.param.indexed))
      indexed) :
    (if e.anonymous then indexed else e.topic hash :: indexed).length = e.topicCount := by
  rw [topicCount, e.indexedCount_of_arguments args hargs, h.length_eq]
  cases e.anonymous <;> rfl

end EventDecl

/-- The log of arguments is read back in the order of declaration.  The topic of a single word is its
encoding, and the argument comes back like those in the data, with the declared descriptors of the
elements in every array; every other indexed argument comes back as the digest in its topic.  A first
topic other than the digest of the signature and a different number of topics are refused. -/
theorem decodeLog_encodeLog (e : EventDecl) (config : Config) (hash : Hasher)
    (args : List EventArgument) (hargs : args.map EventArgument.param = e.inputs)
    (topics : List Word) (data : Bytes) (hdata : data.length < 2 ^ 64)
    (h : e.encodeLog config hash args = .ok (topics, data)) :
    ∃ indexed, topics = (if e.anonymous then indexed else e.topic hash :: indexed) ∧
      List.Forall₂ (EventArgument.InTopic config) (args.filter (fun a => a.param.indexed)) indexed ∧
      e.decodeLog config hash topics data = .ok (args.map EventArgument.recovered) ∧
      (e.anonymous = false → ∀ other, other ≠ e.topic hash →
        e.decodeLog config hash (other :: indexed) data =
          .error (.typeMismatch (.topic other e.signature (e.topic hash)))) ∧
      ∀ others : List Word, others.length ≠ topics.length →
        e.decodeLog config hash others data =
          .error (.typeArityMismatch topics.length others.length) := by
  obtain ⟨hencoded, indexed, rfl, hindexed⟩ :=
    (e.encodeLog_eq_ok_iff config hash args topics data).mp h
  have hcount := e.length_of_inTopic config hash args hargs indexed hindexed
  refine ⟨indexed, rfl, hindexed, ?_, ?_, ?_⟩
  · have hvalues : decode config e.dataTypes data =
        .ok ((args.filter (fun a => !a.param.indexed)).map
          (fun a => a.value.retag a.param.kind)) := by
      rw [e.dataTypes_of_arguments args hargs] at hencoded ⊢
      refine (decode_eq_zipWith_retag config _ _ data hdata hencoded config.strictPadding).trans ?_
      rw [List.zipWith_map, List.zipWith_self]
    rw [e.decodeLog_of_values config hash _ indexed data _ hcount (e.indexedTopics_ite hash indexed)
      hvalues, ← hargs]
    exact EventArgument.merge_of_inTopic config _ args indexed hindexed
  · intro hnamed other hother
    rw [hnamed] at hcount
    exact e.decodeLog_of_topic_ne config hash hnamed other hother indexed data hcount
  · intro others hothers
    rw [hcount] at hothers ⊢
    exact e.decodeLog_of_length_ne config hash others data hothers

/-- An event with a pair and a number among the topics and an array in the data. -/
def EventDecl.moved : EventDecl where
  name := "Moved"
  inputs := [⟨some "start", .fixedArray (.uint 8) 2, true⟩, ⟨some "steps", .array (.uint 8), false⟩,
    ⟨some "units", .uint 16, true⟩]
  anonymous := false

/-- The pair comes back as its digest although its size is fixed, the number as itself. -/
theorem decodeLog_encodeLog_moved :
    EventDecl.moved.encodeLog Config.standard (fun _ => 5)
        [⟨⟨some "start", .fixedArray (.uint 8) 2, true⟩,
            .fixedArray (.uint 8) [.uint 8 1, .uint 8 2], 9⟩,
          ⟨⟨some "steps", .array (.uint 8), false⟩, .array (.uint 8) [.uint 8 7], 0⟩,
          ⟨⟨some "units", .uint 16, true⟩, .uint 16 300, 0⟩] =
      .ok ([5, 9, 300], [32, 1, 7].flatMap (Bytes.ofNat wordSize)) ∧
    EventDecl.moved.decodeLog Config.standard (fun _ => 5) [5, 9, 300]
        ([32, 1, 7].flatMap (Bytes.ofNat wordSize)) =
      .ok [.fixedBytes (Word.toBytes 9), .array (.uint 8) [.uint 8 7], .uint 16 300] ∧
    EventDecl.moved.decodeLog Config.standard (fun _ => 5) [6, 9, 300]
        ([32, 1, 7].flatMap (Bytes.ofNat wordSize)) =
      .error (.typeMismatch (.topic 6 "Moved(uint8[2],uint8[],uint16)" 5)) ∧
    EventDecl.moved.decodeLog Config.standard (fun _ => 5) [5, 300]
        ([32, 1, 7].flatMap (Bytes.ofNat wordSize)) =
      .error (.typeArityMismatch 3 2) := by
  have hencode : EventDecl.moved.encodeLog Config.standard (fun _ => 5)
        [⟨⟨some "start", .fixedArray (.uint 8) 2, true⟩,
            .fixedArray (.uint 8) [.uint 8 1, .uint 8 2], 9⟩,
          ⟨⟨some "steps", .array (.uint 8), false⟩, .array (.uint 8) [.uint 8 7], 0⟩,
          ⟨⟨some "units", .uint 16, true⟩, .uint 16 300, 0⟩] =
      .ok ([5, 9, 300], [32, 1, 7].flatMap (Bytes.ofNat wordSize)) := by
    decide +kernel
  obtain ⟨indexed, htopics, -, hown, hfirst, hcount⟩ :=
    decodeLog_encodeLog _ _ _ _ rfl _ _ (by decide +kernel) hencode
  obtain rfl : [9, 300] = indexed := (List.cons.inj htopics).2
  refine ⟨hencode, hown.trans (by decide +kernel), ?_, hcount [5, 300] (by decide)⟩
  exact (hfirst rfl 6 (by decide)).trans (by decide +kernel)

end ContractAbi
