import HeaderAccord.Proofs.Run.Watcher

/-!
Header functions judged one by one. The check of a source reads its identifiers once and then takes
the header functions in order; what it reports of one of them depends on the source alone. So the
report of an index is that of its functions one after the other, also when two of them go by the
same key and are bound by the same declaration.
-/

namespace HeaderAccord.Binding

open Header

/-- A failure that tells which pointer parameters of a function are missing. -/
def IsMissing (f : FunctionSignature) (failure : CheckFailure) : Prop :=
  ∃ names, failure = missingFailure f.name names

/-- A name between a mark and more text is never the same name before the words of a missing
parameter: it would have to be made of marks only, and of none. -/
theorem mark_append_ne : ∀ name a b : List Char,
    '✖' :: ' ' :: (name ++ a) ≠ name ++ ' ' :: 'h' :: b
  | [], _, _ => by simp
  | [c], a, b => by
      intro h
      obtain ⟨rfl, htail⟩ := List.cons.inj h
      exact absurd (List.cons.inj (List.cons.inj htail).2).1 (by decide)
  | c :: d :: name, a, b => by
      intro h
      obtain ⟨rfl, htail⟩ := List.cons.inj h
      obtain ⟨rfl, hrest⟩ := List.cons.inj htail
      exact mark_append_ne name a b hrest

theorem argumentFailure_ne_missingFailure (function : String) (p : Parameter)
    (names : List String) : argumentFailure function p ≠ missingFailure function names := by
  intro h
  have hmessage := congrArg (fun failure => failure.message.toList) h
  simp only [argumentFailure, missingFailure, String.toList_append, List.append_assoc] at hmessage
  exact mark_append_ne function.toList _ _ hmessage

/-- Of one function, the failures of its arguments come first, and then at most one failure that
tells which are missing. -/
theorem exists_failures_scanOf_singleton (f : FunctionSignature) (source : String) :
    ∃ arguments missing : List CheckFailure,
      (scanOf [f] source).failures = arguments ++ missing ∧
      (∀ failure ∈ arguments, ¬IsMissing f failure) ∧
      (∀ failure ∈ missing, IsMissing f failure) ∧ missing.length ≤ 1 := by
  cases hbound : boundParameters? (Name.key f.name) (mentions source.toList) with
  | none =>
      rw [scanOf_singleton_of_unbound hbound]
      exact ⟨[], [], rfl, by simp, by simp, by simp⟩
  | some text =>
      cases hargs : f.hasPointerArgs with
      | false =>
          rw [scanOf_singleton_of_no_args hargs]
          exact ⟨[], [], rfl, by simp, by simp, by simp⟩
      | true =>
          rw [scanOf_singleton_of_bound hargs hbound]
          refine ⟨_, _, rfl, fun failure hfailure => ?_, fun failure hfailure => ?_, ?_⟩
          · obtain ⟨p, -, hmem⟩ := List.mem_flatMap.1 hfailure
            rw [parameterFailures] at hmem
            split at hmem
            · rw [List.mem_singleton.1 hmem]
              rintro ⟨names, h⟩
              exact argumentFailure_ne_missingFailure f.name p names h
            · exact absurd hmem List.not_mem_nil
          · rw [missingFailures] at hfailure
            split at hfailure
            · exact absurd hfailure List.not_mem_nil
            · exact ⟨_, List.mem_singleton.1 hfailure⟩
          · rw [missingFailures]
            split <;> simp

theorem replays_sourceCheck (index : HeaderIndex) (source : String) :
    Replays (sourceCheck index source) (eventsOf index.functions source)
      (.ok (scanOf index.functions source)) :=
  fun _ _ _ notify => Traced.checkSource_eq_replay notify index source

/-- What is reported of a header function does not depend on the other ones. A watcher that never
gives up sees of an index what it sees of its functions one by one, in header order; of a function
without pointer parameters that is nothing, and of any function at most one failure that tells which
parameters are missing, after all its other failures. -/
theorem checkSource_independent {σ : Type} {w : Watcher σ} (hw : w.NeverGivesUp) (s : σ)
    (source : String) :
    ∃ (scan : FunctionSignature → SourceScan) (calls : FunctionSignature → List Call),
      -- what is reported of a function alone
      (∀ f, (sourceCheck { functions := [f] } source).watchedBy id w s =
        { result := .ok (scan f), calls := calls f }) ∧
      -- and of any index
      (∀ index : HeaderIndex, (sourceCheck index source).watchedBy id w s =
        { result := .ok
            { bound := index.functions.flatMap fun f => (scan f).bound
              failures := index.functions.flatMap fun f => (scan f).failures }
          calls := index.functions.flatMap calls }) ∧
      (∀ f, f.hasPointerArgs = false → scan f = {} ∧ calls f = []) ∧
      ∀ f, ∃ arguments missing, (scan f).failures = arguments ++ missing ∧
        (∀ failure ∈ arguments, ¬IsMissing f failure) ∧
        (∀ failure ∈ missing, IsMissing f failure) ∧ missing.length ≤ 1 := by
  have hwatched (index : HeaderIndex) :=
    (replays_sourceCheck index source).watchedBy_eq id hw s
  refine ⟨fun f => scanOf [f] source, fun f => acceptedCalls (eventsOf [f] source),
    fun f => hwatched { functions := [f] }, fun index => ?_, fun f hargs => ?_, fun f => ?_⟩
  · rw [hwatched, ← scanOf_eq_flatMap, eventsOf_eq_flatMap, acceptedCalls, List.map_flatMap]
    rfl
  · exact ⟨scanOf_singleton_of_no_args hargs source,
      congrArg acceptedCalls (eventsOf_singleton_of_no_args hargs source)⟩
  · exact exists_failures_scanOf_singleton f source

/-- Three functions: two of one key, of which a source can declare but one, and one that is not
checked. -/
def snakeData : FunctionSignature := { name := "get_data", pointerArgs := [⟨"buf", "char *buf"⟩] }

def camelData : FunctionSignature :=
  { name := "GetData", pointerArgs := [⟨"buf", "char *buf"⟩, ⟨"out", "int *out"⟩] }

def countData : FunctionSignature := { name := "count", pointerArgs := [] }

/-- The one declaration is judged for both functions that it goes by the name of. -/
theorem checkSource_independent_sameKey :
    Watcher.silent.NeverGivesUp ∧ ∃ scan : FunctionSignature → SourceScan,
      ((sourceCheck { functions := [snakeData, countData, camelData] }
          "fn get_data(buf: u8) {}").watchedBy id Watcher.silent ()).result =
        .ok
          { bound := (scan snakeData).bound ++ (scan camelData).bound
            failures := (scan snakeData).failures ++ (scan camelData).failures } ∧
      scan countData = {} ∧
      (scan camelData).failures =
        [argumentFailure "GetData" { name := "buf", type := "u8" },
          missingFailure "GetData" ["out"]] := by
  have hquiet := Watcher.silent_neverGivesUp
  obtain ⟨scan, calls, halone, hindex, hunchecked, -⟩ :=
    checkSource_independent hquiet () "fn get_data(buf: u8) {}"
  have hcount : scan countData = {} := (hunchecked countData rfl).1
  have hcamel : scan camelData = scanOf [camelData] "fn get_data(buf: u8) {}" := by
    have hwatched := congrArg (·.result.toOption) (halone camelData)
    rw [(replays_sourceCheck _ _).watchedBy_eq id hquiet ()] at hwatched
    exact (Option.some.inj hwatched).symm
  refine ⟨hquiet, scan, ?_, hcount, ?_⟩
  · rw [hindex]
    simp [hcount]
  · rw [hcamel]
    decide +kernel

end HeaderAccord.Binding
