import HeaderAccord.Run

/-!
What the steps of a log do. A step either comes to its end or stops at a line that the console does
not take; in both cases the log that is left is given in closed form.
-/

namespace HeaderAccord

theorem run_bind {ε σ α β : Type} (x : ExceptT ε (StateM σ) α) (f : α → ExceptT ε (StateM σ) β)
    (s : σ) : (x >>= f).run.run s = match x.run.run s with
      | (.ok a, s') => (f a).run.run s'
      | (.error e, s') => (.error e, s') := by
  simp only [ExceptT.run_bind, StateT.run_bind]
  rcases x.run.run s with ⟨_ | _, _⟩ <;> rfl

theorem run_bind_eq_ok_iff {ε σ α β : Type} {x : ExceptT ε (StateM σ) α}
    {f : α → ExceptT ε (StateM σ) β} {s s' : σ} {b : β} :
    (x >>= f).run.run s = (.ok b, s') ↔
      ∃ a s₁, x.run.run s = (.ok a, s₁) ∧ (f a).run.run s₁ = (.ok b, s') := by
  rw [run_bind]
  rcases x.run.run s with ⟨e | a, s₁⟩
  · constructor
    · intro h
      cases h
    · rintro ⟨a, s₁, h, -⟩
      cases h
  · constructor
    · exact fun h => ⟨a, s₁, rfl, h⟩
    · rintro ⟨_, _, h, hf⟩
      cases h
      exact hf

theorem run_adapt {ε ε' σ α : Type} (f : ε → ε') (x : ExceptT ε (StateM σ) α) (s : σ) :
    (ExceptT.adapt f x).run.run s = ((x.run.run s).1.mapError f, (x.run.run s).2) := rfl

namespace Console

/-- A text that is taken follows what was written before. -/
theorem text_of_write_ok {c c' : Console} {text : String} (h : c.write text = (.ok (), c')) :
    c'.text = c.text ++ text := by
  rw [write] at h
  split at h
  · simp only [Prod.mk.injEq] at h
    rw [← h.2]
  · split at h
    · simp only [Prod.mk.injEq] at h
      rw [← h.2]
    · simp at h

/-- A console without limit takes every text. -/
theorem write_of_room_none {c : Console} (h : c.room = none) (text : String) :
    c.write text = (.ok (), { text := c.text ++ text }) := by
  rw [write, h]

end Console

namespace RunLog

/-- The log after an event, whose line the console has taken. -/
def told (log : RunLog) (e : Event) : RunLog := (log.enter e).emit ((log.enter e).entryOf e)

theorem run_line (text : String) (log : RunLog) :
    (line text).run.run log =
      ((log.console.write (text ++ "\n")).1,
        { log with console := (log.console.write (text ++ "\n")).2 }) := by
  have hget : (get : Logging RunLog).run.run log = (.ok log, log) := rfl
  rw [line, run_bind, hget]
  dsimp only
  rcases log.console.write (text ++ "\n") with ⟨_ | _, console⟩ <;> rfl

theorem run_notify (e : Event) (log : RunLog) :
    (notify e).run.run log = match log.console.write (e.line ++ "\n") with
      | (.ok (), console) => (.ok (), { log with console }.told e)
      | (.error fault, console) => (.error fault, { log with console }) := by
  rw [notify, run_bind, run_line]
  rcases log.console.write (e.line ++ "\n") with ⟨_ | _, console⟩ <;> rfl

@[simp] theorem console_told (log : RunLog) (e : Event) : (log.told e).console = log.console := by
  cases e <;> rfl

theorem journal_told (log : RunLog) (e : Event) :
    (log.told e).journal = log.journal.map (·.emit ((log.enter e).entryOf e)) := by
  cases e <;> rfl

end RunLog

namespace Run

theorem run_logging {α : Type} (action : Logging α) (log : RunLog) :
    (logging action).run.run log =
      ((action.run.run log).1.mapError .log, (action.run.run log).2) :=
  run_adapt CheckError.log action log

/-- The first entry of a run. -/
theorem run_recordStart (config : Config) (artifacts : List Artifact) (log : RunLog) :
    ∃ e : LogEntry, e.event = "run_started" ∧ e.outcome = none ∧
      (logging (recordStart config artifacts)).run.run log = (.ok (), log.emit e) :=
  ⟨_, rfl, rfl, rfl⟩

theorem run_recordIndex (index : HeaderIndex) (log : RunLog) :
    ∃ e : LogEntry, e.event = "headers_indexed" ∧ e.outcome = none ∧
      (logging (recordIndex index)).run.run log = (.ok (), log.emit e) :=
  ⟨_, rfl, rfl, rfl⟩

theorem run_setChecker (checker : Checker) (log : RunLog) :
    (logging (RunLog.setChecker checker)).run.run log =
      (.ok (), { log with checker := some checker, file := none, symbol := none }) := rfl

end Run

end HeaderAccord
