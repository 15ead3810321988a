import HeaderAccord.Proofs.Trace

/-!
The record of the check of a source: what each part of it finds, and the events on the way. The
record of a list of header functions is put together from the records of the single functions, in
header order.
-/

namespace HeaderAccord.Binding

open Header Traced

/-- The failure of a pointer parameter that is no reference, if it is one. -/
def parameterFailures (f : FunctionSignature) (p : Parameter) : List CheckFailure :=
  if (f.pointerArg? p.name).isSome && !isReference p.type then [argumentFailure f.name p] else []

def parameterEvents (f : FunctionSignature) (p : Parameter) : List Event :=
  if (f.pointerArg? p.name).isSome then [.argumentChecked p.name p.type (isReference p.type)]
  else []

/-- The failure of the pointer parameters that a list does not name, if there are any. -/
def missingFailures (f : FunctionSignature) (ps : List Parameter) : List CheckFailure :=
  if missingArgs f ps = [] then [] else [missingFailure f.name (missingArgs f ps)]

def recordedEvents (failures : List CheckFailure) : List Event :=
  failures.map fun failure => .failureRecorded failure.message

theorem checkParameter_emit (f : FunctionSignature) (p : Parameter) :
    checkParameter emit f p =
      { events := parameterEvents f p, result := parameterFailures f p } := by
  rw [checkParameter, parameterEvents, parameterFailures]
  ext1 <;> cases (f.pointerArg? p.name).isSome <;> cases isReference p.type <;> rfl

theorem checkMissing_emit (f : FunctionSignature) (ps : List Parameter) :
    checkMissing emit f ps =
      { events := recordedEvents (missingFailures f ps), result := missingFailures f ps } := by
  rw [checkMissing, missingFailures]
  split
  · next h => ext1 <;> simp [h, recordedEvents]
  · next h =>
    have hne : missingArgs f ps ≠ [] := h
    ext1 <;> simp [if_neg hne, recordedEvents]

theorem checkParameters_emit (f : FunctionSignature) (ps : List Parameter) :
    checkParameters emit f ps =
      { events := ps.flatMap (parameterEvents f) ++ recordedEvents (missingFailures f ps)
        result := ps.flatMap (parameterFailures f) ++ missingFailures f ps } := by
  rw [checkParameters]
  ext1 <;>
    simp [checkMissing_emit, checkParameter_emit, events_mapM, result_mapM, List.flatMap_def]

/-- What the check of a source records of one header function. -/
def functionRecord (mentions : List Mention) (f : FunctionSignature) :
    Traced (Option (String × List CheckFailure)) :=
  checkFunction emit mentions f

theorem functionRecord_of_unbound {mentions : List Mention} {f : FunctionSignature}
    (h : boundParameters? (Name.key f.name) mentions = none) :
    functionRecord mentions f = { events := [], result := none } := by
  rw [functionRecord, checkFunction, h]
  rfl

theorem functionRecord_of_bound {mentions : List Mention} {f : FunctionSignature}
    {text : List Char} (h : boundParameters? (Name.key f.name) mentions = some text) :
    functionRecord mentions f =
      { events := .functionFound f.name :: (checkParameters emit f (parametersOf text)).events
        result := some (f.name, (checkParameters emit f (parametersOf text)).result) } := by
  rw [functionRecord, checkFunction, h]
  ext1 <;> simp

/-- What the check of a source finds, whoever watches it. -/
def scanOf (fs : List FunctionSignature) (source : String) : SourceScan :=
  (checkSource emit { functions := fs } source).result

theorem result_checkSource (index : HeaderIndex) (source : String) :
    (checkSource emit index source).result = scanOf index.functions source := rfl

theorem scanOf_append (fs gs : List FunctionSignature) (source : String) :
    scanOf (fs ++ gs) source =
      { bound := (scanOf fs source).bound ++ (scanOf gs source).bound
        failures := (scanOf fs source).failures ++ (scanOf gs source).failures } := by
  simp [scanOf, checkSource, result_mapM]

theorem scanOf_singleton_of_no_args {f : FunctionSignature} (hf : f.hasPointerArgs = false)
    (source : String) : scanOf [f] source = {} := by
  simp [scanOf, checkSource, hf]

theorem scanOf_singleton_of_unbound {f : FunctionSignature} {source : String}
    (h : boundParameters? (Name.key f.name) (mentions source.toList) = none) :
    scanOf [f] source = {} := by
  have hrecord := functionRecord_of_unbound h
  rw [functionRecord] at hrecord
  cases hf : f.hasPointerArgs with
  | false => exact scanOf_singleton_of_no_args hf source
  | true => simp [scanOf, checkSource, hf, hrecord]

theorem scanOf_singleton_of_bound {f : FunctionSignature} (hf : f.hasPointerArgs = true)
    {source : String} {text : List Char}
    (h : boundParameters? (Name.key f.name) (mentions source.toList) = some text) :
    scanOf [f] source =
      { bound := [f.name]
        failures := (parametersOf text).flatMap (parameterFailures f) ++
          missingFailures f (parametersOf text) } := by
  have hrecord := functionRecord_of_bound h
  rw [functionRecord] at hrecord
  simp [scanOf, checkSource, hf, hrecord, checkParameters_emit]

/-- The scan of a list of functions is put together from those of the single functions. -/
theorem scanOf_eq_flatMap (fs : List FunctionSignature) (source : String) :
    scanOf fs source =
      { bound := fs.flatMap fun f => (scanOf [f] source).bound
        failures := fs.flatMap fun f => (scanOf [f] source).failures } := by
  induction fs with
  | nil => rfl
  | cons f fs ih =>
      rw [← List.singleton_append, scanOf_append, ih]
      rfl

theorem failures_scanOf (fs : List FunctionSignature) (source : String) :
    (scanOf fs source).failures = (fs.filter (·.hasPointerArgs)).flatMap fun f =>
      ((functionRecord (mentions source.toList) f).result.map (·.2)).getD [] := by
  simp only [scanOf, checkSource, functionRecord, result_bind, result_mapM, result_pure]
  induction fs.filter (·.hasPointerArgs) with
  | nil => rfl
  | cons f fs ih =>
      rw [List.map_cons, List.flatMap_cons, ← ih]
      cases (checkFunction emit (mentions source.toList) f).result <;> simp

theorem bound_scanOf (fs : List FunctionSignature) (source : String) :
    (scanOf fs source).bound = (fs.filter (·.hasPointerArgs)).filterMap fun f =>
      (functionRecord (mentions source.toList) f).result.map (·.1) := by
  simp only [scanOf, checkSource, functionRecord, result_bind, result_mapM, result_pure,
    List.filterMap_map, List.map_filterMap, Function.id_comp]
  rfl

theorem events_checkSource (index : HeaderIndex) (source : String) :
    (checkSource emit index source).events =
      (index.functions.filter (·.hasPointerArgs)).flatMap fun f =>
        (functionRecord (mentions source.toList) f).events := by
  simp [checkSource, events_mapM, functionRecord]

/-- The events of the check of a source, whoever watches it. -/
def eventsOf (fs : List FunctionSignature) (source : String) : List Event :=
  (checkSource emit { functions := fs } source).events

theorem eventsOf_singleton_of_no_args {f : FunctionSignature} (hf : f.hasPointerArgs = false)
    (source : String) : eventsOf [f] source = [] := by
  simp [eventsOf, events_checkSource, hf]

theorem eventsOf_eq_flatMap (fs : List FunctionSignature) (source : String) :
    eventsOf fs source = fs.flatMap fun f => eventsOf [f] source := by
  induction fs with
  | nil => rfl
  | cons f fs ih =>
      rw [List.flatMap_cons, ← ih]
      simp only [eventsOf, events_checkSource]
      rw [← List.flatMap_append, ← List.filter_append, List.singleton_append]

end HeaderAccord.Binding
