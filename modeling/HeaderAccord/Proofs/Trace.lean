import HeaderAccord.Binding.Sources
import HeaderAccord.Override.Check

/-!
The record of a check. A checker hands its events to whoever watches it and never looks back, so it
can be run for its record alone: `Traced` keeps the events, in order, beside the result. Since the
checkers are written for any monad, whatever a watcher makes of the events follows from the record
by `replay`, and a fact about the record is a fact about every watcher.
-/

namespace HeaderAccord

/-- A map between monads that keeps `pure` and `bind`. -/
structure MonadHom (m n : Type → Type) [Monad m] [Monad n] where
  map : {α : Type} → m α → n α
  map_pure : ∀ {α : Type} (a : α), map (pure a) = pure a
  map_bind : ∀ {α β : Type} (x : m α) (f : α → m β), map (x >>= f) = map x >>= fun a => map (f a)

namespace MonadHom

variable {m n : Type → Type} [Monad m] [Monad n] [LawfulMonad m] [LawfulMonad n]
variable (φ : MonadHom m n)

theorem map_functor {α β : Type} (f : α → β) (x : m α) : φ.map (f <$> x) = f <$> φ.map x := by
  rw [← bind_pure_comp, φ.map_bind, ← bind_pure_comp]
  simp only [φ.map_pure]

theorem map_mapM {α β : Type} (f : α → m β) (xs : List α) :
    φ.map (xs.mapM f) = xs.mapM fun x => φ.map (f x) := by
  induction xs with
  | nil => simp [φ.map_pure]
  | cons x xs ih => simp [List.mapM_cons, φ.map_bind, φ.map_functor, ih]

/-! ### The checkers are natural

Changing the monad after a check is changing it for its watcher. -/

theorem map_checkParameter (notify : Event → m Unit) (f : Header.FunctionSignature)
    (p : Binding.Parameter) :
    φ.map (Binding.checkParameter notify f p) =
      Binding.checkParameter (fun e => φ.map (notify e)) f p := by
  rw [Binding.checkParameter, Binding.checkParameter]
  split <;> simp [φ.map_functor, φ.map_pure]

theorem map_checkMissing (notify : Event → m Unit) (f : Header.FunctionSignature)
    (ps : List Binding.Parameter) :
    φ.map (Binding.checkMissing notify f ps) =
      Binding.checkMissing (fun e => φ.map (notify e)) f ps := by
  rw [Binding.checkMissing, Binding.checkMissing]
  split <;> simp [φ.map_functor, φ.map_pure]

theorem map_checkParameters (notify : Event → m Unit) (f : Header.FunctionSignature)
    (ps : List Binding.Parameter) :
    φ.map (Binding.checkParameters notify f ps) =
      Binding.checkParameters (fun e => φ.map (notify e)) f ps := by
  simp only [Binding.checkParameters, φ.map_bind, φ.map_pure, φ.map_mapM, φ.map_checkParameter,
    φ.map_checkMissing]

theorem map_checkFunction (notify : Event → m Unit) (mentions : List Binding.Mention)
    (f : Header.FunctionSignature) :
    φ.map (Binding.checkFunction notify mentions f) =
      Binding.checkFunction (fun e => φ.map (notify e)) mentions f := by
  rw [Binding.checkFunction, Binding.checkFunction]
  split <;> simp [φ.map_bind, φ.map_functor, φ.map_pure, φ.map_checkParameters]

theorem map_checkSource (notify : Event → m Unit) (index : HeaderIndex) (source : String) :
    φ.map (Binding.checkSource notify index source) =
      Binding.checkSource (fun e => φ.map (notify e)) index source := by
  simp only [Binding.checkSource, φ.map_bind, φ.map_pure, φ.map_mapM, φ.map_checkFunction]

theorem map_checkScript (notify : Event → m Unit) (index : HeaderIndex) (script label : String) :
    φ.map (Override.checkScript notify index script label) =
      Override.checkScript (fun e => φ.map (notify e)) index script label := by
  have hblock (b : Override.Block) :
      φ.map (Override.checkBlock notify index label b) =
        Override.checkBlock (fun e => φ.map (notify e)) index label b := by
    rw [Override.checkBlock, Override.checkBlock]
    split <;> simp [φ.map_functor]
  simp only [Override.checkScript, φ.map_bind, φ.map_pure, φ.map_mapM, hblock]

end MonadHom

/-- A result, and the events on the way to it. -/
structure Traced (α : Type) where
  events : List Event
  result : α

namespace Traced

instance : Monad Traced where
  pure a := { events := [], result := a }
  bind x f := { events := x.events ++ (f x.result).events, result := (f x.result).result }

variable {α β : Type}

@[simp] theorem events_pure (a : α) : (pure a : Traced α).events = [] := rfl

@[simp] theorem result_pure (a : α) : (pure a : Traced α).result = a := rfl

@[simp] theorem events_bind (x : Traced α) (f : α → Traced β) :
    (x >>= f).events = x.events ++ (f x.result).events := rfl

@[simp] theorem result_bind (x : Traced α) (f : α → Traced β) :
    (x >>= f).result = (f x.result).result := rfl

@[ext] theorem ext {x y : Traced α} (he : x.events = y.events) (hr : x.result = y.result) :
    x = y := by
  cases x; cases y; simp_all

instance : LawfulMonad Traced := LawfulMonad.mk' Traced
  (fun x => by ext1 <;> simp [Functor.map])
  (fun a f => by ext1 <;> simp)
  (fun x f g => by ext1 <;> simp)

@[simp] theorem events_map (f : α → β) (x : Traced α) : (f <$> x).events = x.events :=
  List.append_nil x.events

@[simp] theorem result_map (f : α → β) (x : Traced α) : (f <$> x).result = f x.result := rfl

theorem events_mapM (f : α → Traced β) (xs : List α) :
    (xs.mapM f).events = xs.flatMap fun x => (f x).events := by
  induction xs with
  | nil => simp
  | cons x xs ih => simp [List.mapM_cons, ih]

theorem result_mapM (f : α → Traced β) (xs : List α) :
    (xs.mapM f).result = xs.map fun x => (f x).result := by
  induction xs with
  | nil => simp
  | cons x xs ih => simp [List.mapM_cons, ih]

/-- The watcher that keeps the record. -/
def emit (e : Event) : Traced Unit := { events := [e], result := () }

@[simp] theorem events_emit (e : Event) : (emit e).events = [e] := rfl

@[simp] theorem result_emit (e : Event) : (emit e).result = () := rfl

/-- The events handed over in order, then the result. -/
def replay {m : Type → Type} [Monad m] (notify : Event → m Unit) (x : Traced α) : m α := do
  x.events.forM notify
  return x.result

section

variable {m : Type → Type} [Monad m] [LawfulMonad m] (notify : Event → m Unit)

@[simp] theorem replay_emit (e : Event) : (emit e).replay notify = notify e := by
  simp [replay]

/-- Replaying a record keeps the order of its parts. -/
def replayHom : MonadHom Traced m where
  map := replay notify
  map_pure a := by simp [replay]
  map_bind x f := by simp [replay, List.forM_append]

/-- The check of a source, for any watcher, is its record replayed. -/
theorem checkSource_eq_replay (index : HeaderIndex) (source : String) :
    Binding.checkSource notify index source =
      (Binding.checkSource emit index source).replay notify := by
  have h := (replayHom notify).map_checkSource emit index source
  simpa [replayHom] using h.symm

/-- The check of a script, for any watcher, is its record replayed. -/
theorem checkScript_eq_replay (index : HeaderIndex) (script label : String) :
    Override.checkScript notify index script label =
      (Override.checkScript emit index script label).replay notify := by
  have h := (replayHom notify).map_checkScript emit index script label
  simpa [replayHom] using h.symm

end

end Traced

end HeaderAccord
