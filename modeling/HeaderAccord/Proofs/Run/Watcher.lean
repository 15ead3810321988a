import HeaderAccord.Proofs.Run.Logging
import HeaderAccord.Proofs.Run.Record

/-!
Watchers. A check hands its events to a watcher one after the other, and the watcher may give up at
any of them. Since a check is its record replayed, a watcher can cut the record short but it cannot
change it: what a check hands over before the watcher gives up, and what it comes to if the watcher
does not, is the same for all of them.
-/

namespace HeaderAccord

/-- Someone who watches a check: the answer to an event and the state after it, also when the answer
is to give up. -/
structure Watcher (σ : Type) where
  answer : σ → Event → Except IoFault Unit × σ

/-- An event that was handed to a watcher, with the answer. -/
structure Call where
  event : Event
  answer : Except IoFault Unit

namespace Watcher

/-- The watcher that looks at nothing. -/
def silent : Watcher Unit where
  answer _ _ := (.ok (), ())

def NeverGivesUp {σ : Type} (w : Watcher σ) : Prop := ∀ s e, (w.answer s e).1 = .ok ()

theorem silent_neverGivesUp : silent.NeverGivesUp := fun _ _ => rfl

/-- Hands an event to a watcher, whose calls so far are kept beside its state. Its fault ends the
check. -/
def notify {σ ε : Type} (w : Watcher σ) (fault : IoFault → ε) (e : Event) :
    ExceptT ε (StateM (σ × List Call)) Unit :=
  ExceptT.mk fun (s, calls) =>
    ((w.answer s e).1.mapError fault, (w.answer s e).2, calls ++ [⟨e, (w.answer s e).1⟩])

end Watcher

/-- A check that anyone can watch. -/
def Check (ε α : Type) : Type 1 :=
  (m : Type → Type) → [Monad m] → (Event → ExceptT ε m Unit) → ExceptT ε m α

/-- What a watched check comes to, and the calls on the way. -/
structure Watched (ε α : Type) where
  result : Except ε α
  calls : List Call

def Check.watchedBy {σ ε α : Type} (check : Check ε α) (fault : IoFault → ε) (w : Watcher σ)
    (s : σ) : Watched ε α :=
  let run := (check (StateM (σ × List Call)) (w.notify fault)).run.run (s, [])
  { result := run.1, calls := run.2.2 }

/-- No watcher sways a check. If it gives up at no call, the check comes to what it comes to
unwatched. If it gives up at a call, the check ends in its fault, and the calls up to that one are
those that a watcher who never gives up is called with. -/
structure Unswayed {ε α : Type} (fault : IoFault → ε) (check : Check ε α) : Prop where
  result_eq : ∀ {σ : Type} (w : Watcher σ) (s : σ),
    (∀ call ∈ (check.watchedBy fault w s).calls, call.answer = .ok ()) →
      (check.watchedBy fault w s).result = (check.watchedBy fault .silent ()).result
  gives_up : ∀ {σ : Type} (w : Watcher σ) (s : σ) (before : List Call) (e : Event) (f : IoFault)
    (after : List Call), (check.watchedBy fault w s).calls = before ++ ⟨e, .error f⟩ :: after →
      (∀ call ∈ before, call.answer = .ok ()) →
      (check.watchedBy fault w s).result = .error (fault f) ∧
        ∀ {τ : Type} (w' : Watcher τ) (t : τ), w'.NeverGivesUp →
          (check.watchedBy fault w s).calls.map (·.event) =
            ((check.watchedBy fault w' t).calls.map (·.event)).take (before.length + 1)

/-! ### Handing over events -/

section

variable {σ ε α : Type} {fault : IoFault → ε} {events : List Event} {calls : List Call}
  {outcome : Except ε Unit}

/-- How the handing over of events goes on: an event that is accepted is followed by the next one,
and the one at which the watcher gives up is the last. -/
inductive Handed (fault : IoFault → ε) : List Event → List Call → Except ε Unit → Prop
  | done : Handed fault [] [] (.ok ())
  | accepted {events : List Event} {calls : List Call} {outcome : Except ε Unit} (e : Event)
      (rest : Handed fault events calls outcome) :
      Handed fault (e :: events) (⟨e, .ok ()⟩ :: calls) outcome
  | refused {events : List Event} (e : Event) (f : IoFault) :
      Handed fault (e :: events) [⟨e, .error f⟩] (.error (fault f))

theorem exists_handed (fault : IoFault → ε) (w : Watcher σ) (events : List Event) (s : σ)
    (made : List Call) :
    ∃ s' calls outcome, Handed fault events calls outcome ∧
      (∀ call ∈ calls, ∃ t, (w.answer t call.event).1 = call.answer) ∧
      (events.forM (w.notify fault)).run.run (s, made) = (outcome, s', made ++ calls) := by
  induction events generalizing s made with
  | nil => exact ⟨s, [], .ok (), .done, by simp, by rw [List.append_nil]; rfl⟩
  | cons e events ih =>
      have hnotify : (w.notify fault e).run.run (s, made) =
          ((w.answer s e).1.mapError fault, (w.answer s e).2,
            made ++ [⟨e, (w.answer s e).1⟩]) := rfl
      rw [List.forM_eq_forM, List.forM_cons]
      simp only [run_bind, hnotify]
      rcases hanswer : w.answer s e with ⟨f | ⟨⟨⟩⟩, s₁⟩
      · exact ⟨s₁, _, _, .refused e f, by simpa using ⟨s, by rw [hanswer]⟩, rfl⟩
      · obtain ⟨s', calls, outcome, hhanded, hanswers, hrun⟩ := ih s₁ (made ++ [⟨e, .ok ()⟩])
        rw [List.append_assoc] at hrun
        exact ⟨s', _, outcome, .accepted e hhanded,
          List.forall_mem_cons.2 ⟨⟨s, by rw [hanswer]⟩, hanswers⟩, hrun⟩

/-- If nothing is refused, all events are handed over. -/
theorem Handed.of_accepted (h : Handed fault events calls outcome)
    (hcalls : ∀ call ∈ calls, call.answer = .ok ()) :
    outcome = .ok () ∧ calls.map (·.event) = events := by
  induction h with
  | done => exact ⟨rfl, rfl⟩
  | accepted e _ ih =>
      obtain ⟨houtcome, hevents⟩ := ih (List.forall_mem_cons.1 hcalls).2
      exact ⟨houtcome, congrArg _ hevents⟩
  | refused e f => exact nomatch (List.forall_mem_cons.1 hcalls).1

/-- The event that is refused is the last one that is handed over, and those before it are handed
over in order. -/
theorem Handed.of_refused {before after : List Call} {e : Event} {f : IoFault}
    (h : Handed fault events calls outcome) (hcalls : calls = before ++ ⟨e, .error f⟩ :: after)
    (hbefore : ∀ call ∈ before, call.answer = .ok ()) :
    outcome = .error (fault f) ∧ calls.map (·.event) = events.take (before.length + 1) := by
  induction h generalizing before with
  | done => simp at hcalls
  | accepted e' _ ih =>
      cases before with
      | nil => exact nomatch congrArg Call.answer (List.cons.inj hcalls).1
      | cons call before =>
          obtain ⟨houtcome, hevents⟩ :=
            ih (List.cons.inj hcalls).2 (List.forall_mem_cons.1 hbefore).2
          exact ⟨houtcome, congrArg _ hevents⟩
  | refused e' f' =>
      cases before with
      | nil =>
          obtain ⟨hcall, -⟩ := List.cons.inj hcalls
          cases hcall
          exact ⟨rfl, rfl⟩
      | cons call before => simp at hcalls

end

/-- Events that were handed over and accepted. -/
def acceptedCalls (events : List Event) : List Call := events.map fun e => ⟨e, .ok ()⟩

theorem eq_acceptedCalls {calls : List Call} (h : ∀ call ∈ calls, call.answer = .ok ()) :
    calls = acceptedCalls (calls.map (·.event)) := by
  induction calls with
  | nil => rfl
  | cons call calls ih =>
      obtain ⟨hcall, hcalls⟩ := List.forall_mem_cons.1 h
      rw [acceptedCalls, List.map_cons, List.map_cons, ← acceptedCalls, ← ih hcalls, ← hcall]

/-- A check that hands over `events` to whoever watches it, and then comes to `result`. -/
def Replays {ε α : Type} (check : Check ε α) (events : List Event) (result : Except ε α) : Prop :=
  ∀ (m : Type → Type) [Monad m] [LawfulMonad m] (notify : Event → ExceptT ε m Unit),
    check m notify = do events.forM notify; ExceptT.mk (pure result)

section

variable {σ ε α : Type} {check : Check ε α} {events : List Event} {result : Except ε α}

theorem Replays.exists_handed (h : Replays check events result) (fault : IoFault → ε)
    (w : Watcher σ) (s : σ) : ∃ outcome,
      Handed fault events (check.watchedBy fault w s).calls outcome ∧
      (∀ call ∈ (check.watchedBy fault w s).calls,
        ∃ t, (w.answer t call.event).1 = call.answer) ∧
      (check.watchedBy fault w s).result = outcome.bind fun _ => result := by
  obtain ⟨s', calls, outcome, hhanded, hanswers, hrun⟩ :=
    HeaderAccord.exists_handed fault w events s []
  have hcheck : (check (StateM (σ × List Call)) (w.notify fault)).run.run (s, []) =
      (outcome.bind fun _ => result, s', calls) := by
    rw [h, run_bind, hrun]
    cases outcome <;> rfl
  refine ⟨outcome, ?_, ?_, ?_⟩
  · simpa only [Check.watchedBy, hcheck] using hhanded
  · simpa only [Check.watchedBy, hcheck] using hanswers
  · simp only [Check.watchedBy, hcheck]

theorem Replays.of_accepted (h : Replays check events result) {fault : IoFault → ε}
    {w : Watcher σ} {s : σ}
    (hcalls : ∀ call ∈ (check.watchedBy fault w s).calls, call.answer = .ok ()) :
    (check.watchedBy fault w s).result = result ∧
      (check.watchedBy fault w s).calls.map (·.event) = events := by
  obtain ⟨outcome, hhanded, -, hresult⟩ := h.exists_handed fault w s
  obtain ⟨rfl, hevents⟩ := hhanded.of_accepted hcalls
  exact ⟨hresult, hevents⟩

theorem Replays.accepted (h : Replays check events result) (fault : IoFault → ε) {w : Watcher σ}
    (hw : w.NeverGivesUp) (s : σ) :
    ∀ call ∈ (check.watchedBy fault w s).calls, call.answer = .ok () := by
  obtain ⟨-, -, hanswers, -⟩ := h.exists_handed fault w s
  intro call hcall
  obtain ⟨t, ht⟩ := hanswers call hcall
  rw [← ht, hw]

/-- A watcher that never gives up is called with all the events. -/
theorem Replays.watchedBy_eq (h : Replays check events result) (fault : IoFault → ε)
    {w : Watcher σ} (hw : w.NeverGivesUp) (s : σ) :
    check.watchedBy fault w s = { result, calls := acceptedCalls events } := by
  have haccepted := h.accepted fault hw s
  obtain ⟨hresult, hevents⟩ := h.of_accepted haccepted
  have hcalls := eq_acceptedCalls haccepted
  rw [hevents] at hcalls
  rw [← hresult, ← hcalls]

/-- A check that hands over the same events to whoever watches it, and then comes to the same
result, is swayed by no watcher. -/
theorem unswayed_of_replay (fault : IoFault → ε) (h : Replays check events result) :
    Unswayed fault check := by
  constructor
  · intro σ w s hcalls
    rw [(h.of_accepted hcalls).1,
      (h.of_accepted (h.accepted fault Watcher.silent_neverGivesUp ())).1]
  · intro σ w s before e f after hcalls hbefore
    obtain ⟨outcome, hhanded, -, hresult⟩ := h.exists_handed fault w s
    obtain ⟨rfl, hevents⟩ := hhanded.of_refused hcalls hbefore
    refine ⟨hresult, fun w' t hw' => ?_⟩
    rw [hevents, (h.of_accepted (h.accepted fault hw' t)).2]

end

/-! ### The four checks -/

/-- The check of a binding source. -/
def sourceCheck (index : HeaderIndex) (source : String) : Check IoFault Binding.SourceScan :=
  fun _ _ notify => Binding.checkSource notify index source

/-- The check of the text of a build script. -/
def scriptCheck (index : HeaderIndex) (script label : String) :
    Check IoFault (List CheckFailure) :=
  fun _ _ notify => Override.checkScript notify index script label

/-- The check of all binding sources on a disk. -/
def sourcesCheck (d : Disk) (index : HeaderIndex) (dir : Path) (options : ArgumentOptions) :
    Check CheckError (List CheckFailure) :=
  fun _ _ notify => Binding.checkSources notify d index dir options

/-- The check of a build script on a disk. -/
def scriptFileCheck (d : Disk) (index : HeaderIndex) (script : Path) :
    Check CheckError (List CheckFailure) :=
  fun _ _ notify => Override.checkScriptFile notify d index script

/-- No watcher has an influence on what a check comes to. -/
theorem checks_unswayed (d : Disk) (index : HeaderIndex) (source script label : String)
    (dir scriptPath : Path) (options : ArgumentOptions) :
    Unswayed id (sourceCheck index source) ∧ Unswayed id (scriptCheck index script label) ∧
      Unswayed CheckError.log (sourcesCheck d index dir options) ∧
      Unswayed CheckError.log (scriptFileCheck d index scriptPath) := by
  refine ⟨?_, ?_, ?_, ?_⟩
  · exact unswayed_of_replay id fun m _ _ notify =>
      Traced.checkSource_eq_replay notify index source
  · exact unswayed_of_replay id fun m _ _ notify =>
      Traced.checkScript_eq_replay notify index script label
  · exact unswayed_of_replay .log fun m _ _ notify =>
      Recorded.checkSources_eq_replay notify d index dir options
  · exact unswayed_of_replay .log fun m _ _ notify =>
      Recorded.checkScriptFile_eq_replay notify d index scriptPath

end HeaderAccord
