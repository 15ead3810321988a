import HeaderAccord.Proofs.Binding.Record
import HeaderAccord.Run

/-!
The record of a whole run. What reads files may end early, so its record ends in a result or in an
error. As for a single source, what a watcher sees of the run is the record replayed, up to the
event at which the watcher gives up.
-/

namespace HeaderAccord

section

variable {m : Type → Type} [Monad m] {α β : Type}

theorem liftM_ok (a : α) : (liftM (Except.ok a : Except CheckError α) : ExceptT CheckError m α) =
    pure a := rfl

theorem liftM_error (e : CheckError) :
    (liftM (Except.error e : Except CheckError α) : ExceptT CheckError m α) = throw e := rfl

theorem throw_bind [LawfulMonad m] (e : CheckError) (f : α → ExceptT CheckError m β) :
    (throw e >>= f) = throw e := by
  apply ExceptT.ext
  simp

end

/-- A change of the monad below the errors of a check, which it leaves as they are. -/
structure FaultHom (m n : Type → Type) [Monad m] [Monad n] extends
    MonadHom (ExceptT CheckError m) (ExceptT CheckError n) where
  map_throw : ∀ {α : Type} (e : CheckError),
    map (throw e : ExceptT CheckError m α) = throw e

namespace FaultHom

variable {m n : Type → Type} [Monad m] [Monad n]
variable (φ : FaultHom m n)

theorem map_lift {α : Type} (x : Except CheckError α) :
    φ.map (liftM x : ExceptT CheckError m α) = liftM x := by
  cases x with
  | ok a => exact φ.map_pure a
  | error e => exact φ.map_throw e

variable [LawfulMonad m] [LawfulMonad n] (notify : Event → ExceptT CheckError m Unit)

theorem map_checkFile (index : HeaderIndex) (file : Path × ByteArray) :
    φ.map (Binding.checkFile notify index file) =
      Binding.checkFile (fun e => φ.map (notify e)) index file := by
  simp only [Binding.checkFile, φ.map_bind, φ.map_lift, φ.map_checkSource]

theorem map_checkCoverage (index : HeaderIndex) (bound : List String) :
    φ.map (Binding.checkCoverage notify index bound) =
      Binding.checkCoverage (fun e => φ.map (notify e)) index bound := by
  simp only [Binding.checkCoverage, φ.map_mapM, φ.map_bind, φ.map_pure]

theorem map_checkSources (d : Disk) (index : HeaderIndex) (dir : Path)
    (options : ArgumentOptions) :
    φ.map (Binding.checkSources notify d index dir options) =
      Binding.checkSources (fun e => φ.map (notify e)) d index dir options := by
  simp only [Binding.checkSources, φ.map_bind, φ.map_lift, φ.map_mapM, φ.map_checkFile]
  split <;> simp only [φ.map_bind, φ.map_pure, φ.map_checkCoverage]

theorem map_checkScriptFile (d : Disk) (index : HeaderIndex) (script : Path) :
    φ.map (Override.checkScriptFile notify d index script) =
      Override.checkScriptFile (fun e => φ.map (notify e)) d index script := by
  simp only [Override.checkScriptFile, φ.map_bind, φ.map_lift, φ.map_checkScript]

end FaultHom

/-- A record that may end in an error. -/
abbrev Recorded := ExceptT CheckError Traced

namespace Recorded

variable {α β : Type}

/-- The watcher that keeps the record. -/
def emit (e : Event) : Recorded Unit := ExceptT.lift (Traced.emit e)

/-- A record that ends in a result. -/
def ofTraced (x : Traced α) : Recorded α := ExceptT.lift x

def ofTracedHom : MonadHom Traced Recorded where
  map := ofTraced
  map_pure _ := rfl
  map_bind x f := by simp [ofTraced]

theorem run_emit (e : Event) : (emit e).run = { events := [e], result := .ok () } := rfl

theorem run_ofTraced (x : Traced α) :
    (ofTraced x).run = { events := x.events, result := .ok x.result } := by
  rw [ofTraced, ExceptT.run_lift]
  ext1 <;> simp

theorem run_bind_of_ok {x : Recorded α} {events : List Event} {a : α}
    (h : x.run = { events, result := .ok a }) (f : α → Recorded β) :
    (x >>= f).run = { events := events ++ (f a).run.events, result := (f a).run.result } := by
  rw [ExceptT.run_bind, h]
  rfl

theorem run_bind_of_error {x : Recorded α} {events : List Event} {e : CheckError}
    (h : x.run = { events, result := .error e }) (f : α → Recorded β) :
    (x >>= f).run = { events, result := .error e } := by
  rw [ExceptT.run_bind, h]
  ext1
  · exact List.append_nil events
  · rfl

theorem run_mapM_of_ok {f : α → Recorded β} {events : α → List Event} {g : α → β} {xs : List α}
    (h : ∀ x ∈ xs, (f x).run = { events := events x, result := .ok (g x) }) :
    (xs.mapM f).run = { events := xs.flatMap events, result := .ok (xs.map g) } := by
  induction xs with
  | nil => rfl
  | cons x xs ih =>
      rw [List.mapM_cons, run_bind_of_ok (h x (by simp)),
        run_bind_of_ok (ih fun y hy => h y (by simp [hy]))]
      simp

/-- The first step that cannot be done ends a list of steps. -/
theorem run_mapM_of_error {f : α → Recorded β} {events : α → List Event} {g : α → β}
    {before after : List α} {x : α} {e : CheckError}
    (h : ∀ y ∈ before, (f y).run = { events := events y, result := .ok (g y) })
    (hx : (f x).run = { events := [], result := .error e }) :
    ((before ++ x :: after).mapM f).run =
      { events := before.flatMap events, result := .error e } := by
  rw [List.mapM_append, run_bind_of_ok (run_mapM_of_ok h), List.mapM_cons,
    run_bind_of_error (run_bind_of_error hx _), List.append_nil]

/-- If a list of steps comes to its end, so does each of them. -/
theorem exists_ok_of_mapM {f : α → Recorded β} {xs : List α} {ys : List β}
    (h : (xs.mapM f).run.result = .ok ys) : ∀ x ∈ xs, ∃ y, (f x).run.result = .ok y := by
  induction xs generalizing ys with
  | nil => simp
  | cons x xs ih =>
      rw [List.mapM_cons] at h
      rcases hx : (f x).run with ⟨events, e | y⟩
      · rw [run_bind_of_error hx] at h
        simp at h
      · rw [run_bind_of_ok hx] at h
        rcases hxs : (xs.mapM f).run with ⟨events', e | ys'⟩
        · rw [run_bind_of_error hxs] at h
          simp at h
        · exact List.forall_mem_cons.2 ⟨⟨y, by rw [hx]⟩, ih (by rw [hxs])⟩

/-- The events handed over in order, then the result or the error. -/
def replay {m : Type → Type} [Monad m] (notify : Event → ExceptT CheckError m Unit)
    (x : Recorded α) : ExceptT CheckError m α := do
  x.run.events.forM notify
  liftM x.run.result

section

variable {m : Type → Type} [Monad m] [LawfulMonad m] (notify : Event → ExceptT CheckError m Unit)

theorem replay_emit (e : Event) : replay notify (emit e) = notify e := by
  rw [replay, run_emit, liftM_ok]
  simp

/-- Replaying a record keeps the order of its parts and its errors. -/
def replayHom : FaultHom Traced m where
  map := replay notify
  map_pure a := by
    have hrun : (pure a : Recorded _).run = { events := [], result := .ok a } := rfl
    rw [replay, hrun, liftM_ok]
    simp
  map_throw {α} e := by
    have hrun : (throw e : Recorded α).run = { events := [], result := .error e } := rfl
    rw [replay, hrun, liftM_error]
    simp
  map_bind x f := by
    rcases hx : x.run with ⟨events, e | a⟩
    · rw [replay, run_bind_of_error hx, replay, hx, liftM_error, liftM_error, bind_assoc,
        throw_bind]
    · rw [replay, run_bind_of_ok hx, replay, hx, liftM_ok]
      simp [replay, List.forM_append]

/-- The check of the source files, for any watcher, is its record replayed. -/
theorem checkSources_eq_replay (d : Disk) (index : HeaderIndex) (dir : Path)
    (options : ArgumentOptions) :
    Binding.checkSources notify d index dir options =
      replay notify (Binding.checkSources emit d index dir options) := by
  have h := (replayHom notify).map_checkSources emit d index dir options
  simpa [replayHom, replay_emit] using h.symm

/-- The check of the build script, for any watcher, is its record replayed. -/
theorem checkScriptFile_eq_replay (d : Disk) (index : HeaderIndex) (script : Path) :
    Override.checkScriptFile notify d index script =
      replay notify (Override.checkScriptFile emit d index script) := by
  have h := (replayHom notify).map_checkScriptFile emit d index script
  simpa [replayHom, replay_emit] using h.symm

end

end Recorded

end HeaderAccord
