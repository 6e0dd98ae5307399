import ContractAbi.Interface
import ContractAbi.Proofs.Calls

/-!
# Dispatch over the history of an interface

An interface comes about step by step, and what a step adds stands behind everything that was added
before it.  Both lookups, by name and by selector, take the first function that matches, so they depend
on the order of the history alone: nothing that is added later takes the place of what is found already.

The two lookups need not agree.  A call is written by the first function with its name and found again
under the first function with its selector, and under an arbitrary hash function these are the same only
if no function in front of the first has its selector.
-/

namespace ContractAbi
namespace Interface

/-- One step in the making of an interface. -/
inductive Step where
  | withConstructor (inputs : List AbiType)
  | withFunction (name : String) (inputs outputs : List AbiType)
  | withEvent (name : String) (inputs : List EventParam)
  | addFunction (f : FunctionDecl)
  | addEvent (e : EventDecl)

namespace Step

/-- The interface after the step. -/
def apply (i : Interface) : Step → Interface
  | withConstructor inputs => i.withConstructor inputs
  | withFunction name inputs outputs => i.withFunction name inputs outputs
  | withEvent name inputs => i.withEvent name inputs
  | addFunction f => i.addFunction f
  | addEvent e => i.addEvent e

/-- The function that the step adds, if it adds one. -/
def function? : Step → Option FunctionDecl
  | withFunction name inputs outputs =>
      some ⟨name, inputs.map Param.unnamed, outputs.map Param.unnamed⟩
  | addFunction f => some f
  | _ => none

/-- The event that the step adds, if it adds one. -/
def event? : Step → Option EventDecl
  | withEvent name inputs => some ⟨name, inputs, false⟩
  | addEvent e => some e
  | _ => none

/-- A step adds to the end or not at all. -/
theorem declarations_apply (i : Interface) (s : Step) :
    (s.apply i).functions = i.functions ++ s.function?.toList ∧
      (s.apply i).events = i.events ++ s.event?.toList := by
  cases s <;> simp [apply, function?, event?, Interface.withConstructor, Interface.withFunction,
    Interface.withEvent, Interface.addFunction, Interface.addEvent]

end Step

/-- The interface that has come about by the given steps, from the first to the last. -/
def ofSteps (steps : List Step) : Interface :=
  steps.foldl (fun i s => s.apply i) empty

/-- The functions of an interface are those that were added, in the order of the steps; and so are its
events. -/
theorem declarations_foldl (steps : List Step) (i : Interface) :
    (steps.foldl (fun i s => s.apply i) i).functions =
        i.functions ++ steps.filterMap Step.function? ∧
      (steps.foldl (fun i s => s.apply i) i).events = i.events ++ steps.filterMap Step.event? := by
  induction steps generalizing i with
  | nil => simp
  | cons s steps ih =>
      obtain ⟨hfunctions, hevents⟩ := s.declarations_apply i
      obtain ⟨hrestFunctions, hrestEvents⟩ := ih (s.apply i)
      rw [List.foldl_cons, hrestFunctions, hrestEvents, hfunctions, hevents, List.append_assoc,
        List.append_assoc]
      constructor
      · cases hf : s.function? <;> simp [hf]
      · cases he : s.event? <;> simp [he]

theorem functions_ofSteps (steps : List Step) :
    (ofSteps steps).functions = steps.filterMap Step.function? :=
  (declarations_foldl steps empty).1

theorem events_ofSteps (steps : List Step) :
    (ofSteps steps).events = steps.filterMap Step.event? :=
  (declarations_foldl steps empty).2

/-! ## Further steps -/

section Growth

variable (steps more : List Step)

theorem functions_isPrefix :
    (ofSteps steps).functions <+: (ofSteps (steps ++ more)).functions := by
  rw [functions_ofSteps, functions_ofSteps, List.filterMap_append]
  exact List.prefix_append _ _

theorem events_isPrefix : (ofSteps steps).events <+: (ofSteps (steps ++ more)).events := by
  rw [events_ofSteps, events_ofSteps, List.filterMap_append]
  exact List.prefix_append _ _

theorem function?_append (name : String) (f : FunctionDecl)
    (h : (ofSteps steps).function? name = some f) :
    (ofSteps (steps ++ more)).function? name = some f :=
  (functions_isPrefix steps more).find?_eq_some h

theorem event?_append (name : String) (e : EventDecl)
    (h : (ofSteps steps).event? name = some e) :
    (ofSteps (steps ++ more)).event? name = some e :=
  (events_isPrefix steps more).find?_eq_some h

theorem functionBySelector?_append (hash : Hasher) (selector : Bytes) (f : FunctionDecl)
    (h : (ofSteps steps).functionBySelector? hash selector = some f) :
    (ofSteps (steps ++ more)).functionBySelector? hash selector = some f :=
  (functions_isPrefix steps more).find?_eq_some h

end Growth

/-! ## The two lookups -/

section Lookup

variable (i : Interface) (hash : Hasher)

theorem function?_eq_some_iff (name : String) (f : FunctionDecl) :
    i.function? name = some f ↔ f.name = name ∧ ∃ before after,
      i.functions = before ++ f :: after ∧ ∀ g ∈ before, g.name ≠ name := by
  simp [function?, List.find?_eq_some_iff_append]

/-- A call is written by the first function with the name. -/
theorem encodeCall_eq_ok_iff (name : String) (args : List Value) (data : Bytes) :
    i.encodeCall hash name args = .ok data ↔
      ∃ f, i.function? name = some f ∧ f.encodeCall Config.standard hash args = .ok data := by
  refine (Except.bind_eq_ok_iff (i.requireFunction name) _ data).trans ?_
  rw [requireFunction]
  cases i.function? name <;> simp

/-- Under the selector of one of the functions, that function is found or one in front of it. -/
theorem exists_functionBySelector? (before after : List FunctionDecl) (f : FunctionDecl)
    (h : i.functions = before ++ f :: after) :
    ∃ g, i.functionBySelector? hash (f.selector hash) = some g ∧
      g.selector hash = f.selector hash ∧ (g = f ∨ g ∈ before) := by
  rw [functionBySelector?, h, List.find?_append]
  cases hbefore : before.find? (fun g => g.selector hash == f.selector hash) with
  | none => exact ⟨f, by simp, rfl, .inl rfl⟩
  | some g =>
      have hg := List.find?_some hbefore
      exact ⟨g, rfl, by simpa using hg, .inr (List.mem_of_find?_eq_some hbefore)⟩

end Lookup

end Interface

/-- A call is read back by the function that has written it, with the declared descriptors of the
elements in every array. -/
theorem FunctionDecl.decodeInput_of_encodeCall (f : FunctionDecl) (config : Config) (hash : Hasher)
    (args : List Value) (data : Bytes) (hlength : data.length < 2 ^ 64)
    (h : f.encodeCall config hash args = .ok data) :
    f.decodeInput config hash data = .ok (List.zipWith (fun t v => v.retag t) f.inputTypes args) := by
  obtain ⟨encoded, hencoded, rfl⟩ := (f.encodeCall_eq_ok_iff config hash args data).mp h
  rw [List.length_append] at hlength
  rw [f.decodeInput_append config hash _ (f.length_selector hash), if_pos rfl]
  exact decode_eq_zipWith_retag config f.inputTypes args encoded (by omega) hencoded
    config.strictPadding

/-- Whatever the history of an interface and whatever the hash function: a call is written by the
earliest added function `f` with its name and begins with the selector of `f`.  Under that selector a
function `g` is found, which is `f` or was added before `f`; if it is `f`, it reads the call back, as
long as the call can be addressed.

What a name or a selector stands for is never changed by further steps. -/
theorem dispatch_ofSteps (steps : List Interface.Step) (hash : Hasher) :
    (∀ name args data, (Interface.ofSteps steps).encodeCall hash name args = .ok data →
      ∃ before f after g,
        steps.filterMap Interface.Step.function? = before ++ f :: after ∧
        f.name = name ∧ (∀ d ∈ before, d.name ≠ name) ∧
        (Interface.ofSteps steps).function? name = some f ∧
        f.encodeCall Config.standard hash args = .ok data ∧
        data.take selectorSize = f.selector hash ∧
        (Interface.ofSteps steps).functionBySelector? hash (data.take selectorSize) = some g ∧
        g.selector hash = data.take selectorSize ∧ (g = f ∨ g ∈ before) ∧
        (g = f → data.length < 2 ^ 64 →
          g.decodeInput Config.standard hash data =
              .ok (List.zipWith (fun t v => v.retag t) g.inputTypes args) ∧
            (List.Forall₂ Value.Carries g.inputTypes args →
              g.decodeInput Config.standard hash data = .ok args))) ∧
    ∀ more,
      (∀ name f, (Interface.ofSteps steps).function? name = some f →
        (Interface.ofSteps (steps ++ more)).function? name = some f) ∧
      (∀ name e, (Interface.ofSteps steps).event? name = some e →
        (Interface.ofSteps (steps ++ more)).event? name = some e) ∧
      ∀ selector g, (Interface.ofSteps steps).functionBySelector? hash selector = some g →
        (Interface.ofSteps (steps ++ more)).functionBySelector? hash selector = some g := by
  refine ⟨fun name args data h => ?_, fun more =>
    ⟨Interface.function?_append steps more, Interface.event?_append steps more,
      Interface.functionBySelector?_append steps more hash⟩⟩
  obtain ⟨f, hf, hcall⟩ := (Interface.encodeCall_eq_ok_iff _ hash name args data).mp h
  obtain ⟨hname, before, after, hfunctions, hearliest⟩ :=
    (Interface.function?_eq_some_iff _ name f).mp hf
  obtain ⟨g, hg, hselector, horigin⟩ :=
    Interface.exists_functionBySelector? _ hash before after f hfunctions
  have htake : data.take selectorSize = f.selector hash := by
    obtain ⟨encoded, -, rfl⟩ := (f.encodeCall_eq_ok_iff _ hash args data).mp hcall
    rw [← f.length_selector hash, List.take_left]
  rw [Interface.functions_ofSteps] at hfunctions
  rw [htake]
  refine ⟨before, f, after, g, hfunctions, hname, hearliest, hf, hcall, rfl, hg, hselector, horigin, ?_⟩
  rintro rfl hlength
  have hread := g.decodeInput_of_encodeCall _ hash args data hlength hcall
  refine ⟨hread, fun hcarries => ?_⟩
  rw [hread, Value.zipWith_retag_of_carries g.inputTypes args (fun t _ => Value.retag_of_carries t)
    hcarries]

/-- Under `frontHasher` the calls of `send` look like calls of `sendAll`, which was added before it; no
other function has the selector of `kill`. -/
def sendingSteps : List Interface.Step :=
  [.withFunction "sendAll" [] [], .withConstructor [.bool], .withFunction "send" [.bool] [],
    .addFunction ⟨"kill", [.unnamed (.array (.uint 8))], []⟩, .withFunction "send" [] []]

/-- A call of `send` is taken for one of `sendAll`, and a call of `kill` is read back.  Another `kill`
that is added later is not found. -/
theorem dispatch_ofSteps_shadowed :
    (Interface.ofSteps sendingSteps).encodeCall frontHasher "send" [.bool true] =
      .ok ([115, 101, 110, 100] ++ Bytes.ofNat wordSize 1) ∧
    (∃ g, (Interface.ofSteps sendingSteps).functionBySelector? frontHasher [115, 101, 110, 100] =
        some g ∧ g.name = "sendAll" ∧ g.selector frontHasher = [115, 101, 110, 100]) ∧
    (Interface.ofSteps sendingSteps).encodeCall frontHasher "kill" [.array (.uint 8) [.uint 8 7]] =
      .ok ([107, 105, 108, 108] ++ [32, 1, 7].flatMap (Bytes.ofNat wordSize)) ∧
    FunctionDecl.decodeInput ⟨"kill", [.unnamed (.array (.uint 8))], []⟩ Config.standard frontHasher
        ([107, 105, 108, 108] ++ [32, 1, 7].flatMap (Bytes.ofNat wordSize)) =
      .ok [.array (.uint 8) [.uint 8 7]] ∧
    (Interface.ofSteps (sendingSteps ++ [.withFunction "kill" [] []])).function? "kill" =
      some ⟨"kill", [.unnamed (.array (.uint 8))], []⟩ := by
  have hsend : (Interface.ofSteps sendingSteps).encodeCall frontHasher "send" [.bool true] =
      .ok ([115, 101, 110, 100] ++ Bytes.ofNat wordSize 1) := by
    decide +kernel
  have hkill : (Interface.ofSteps sendingSteps).encodeCall frontHasher "kill"
        [.array (.uint 8) [.uint 8 7]] =
      .ok ([107, 105, 108, 108] ++ [32, 1, 7].flatMap (Bytes.ofNat wordSize)) := by
    decide +kernel
  have hname : (Interface.ofSteps sendingSteps).function? "kill" =
      some ⟨"kill", [.unnamed (.array (.uint 8))], []⟩ := by
    decide +kernel
  obtain ⟨hcalls, hgrowth⟩ := dispatch_ofSteps sendingSteps frontHasher
  refine ⟨hsend, ?_, hkill, ?_, (hgrowth _).1 _ _ hname⟩
  · obtain ⟨-, -, -, g, -, -, -, -, -, -, hg, hselector, -⟩ := hcalls _ _ _ hsend
    have hfirst : (Interface.ofSteps sendingSteps).functionBySelector? frontHasher
        [115, 101, 110, 100] = some ⟨"sendAll", [], []⟩ := by
      decide +kernel
    obtain rfl := Option.some.inj (hg.symm.trans hfirst)
    exact ⟨_, hg, rfl, hselector⟩
  · obtain ⟨-, f, -, g, -, -, -, hf, -, -, hg, -, -, hread⟩ := hcalls _ _ _ hkill
    have hfirst : (Interface.ofSteps sendingSteps).functionBySelector? frontHasher
        [107, 105, 108, 108] = some ⟨"kill", [.unnamed (.array (.uint 8))], []⟩ := by
      decide +kernel
    obtain rfl := Option.some.inj (hf.symm.trans hname)
    obtain rfl := Option.some.inj (hg.symm.trans hfirst)
    have hcarries : Value.Carries (.array (.uint 8)) (.array (.uint 8) [.uint 8 7]) :=
      ⟨rfl, fun _ _ => by simp [Value.Carries]⟩
    exact (hread rfl (by decide +kernel)).2 (.cons hcarries .nil)

end ContractAbi
