import DnsRs.Reload.Process

/-!
# The configuration that runs and the file

A poll compares the file with the text that `load_config` kept of it. That text
and the one that was parsed come from two reads, and a write may fall between
them: then the kept text is one and the configuration is that of the other. The
next poll sees a difference and loads again, unless the file has gone back to the
kept text in the meantime. From then on every poll finds nothing to do.

* `reload_converges` — if the two reads of each `load_config` parse alike, a poll
  that finds nothing to do finds the text of the configuration that runs.
* `reverted_edit_kept` — a write between the reads, and its reversal.
-/

namespace DnsRs.Reload

open Lib

/-- The two reads of `load_config` give texts that parse alike. -/
def ReadsAlike (env : Env) (p : Process) (a : Label) : Prop :=
  ∀ raw text isFile, (p.phase = .starting (some raw) ∨ ∃ g, p.phase = .reloading g (some raw)) →
    p.file = some text → a = .load isFile → env.fromStr text = env.fromStr raw

/-- The configuration is that of the text kept beside it. -/
def LoadedConfig.Faithful (env : Env) (loaded : LoadedConfig) : Prop :=
  env.fromStr loaded.raw = some loaded.config

/-- So it is for what runs and for what is about to. -/
def Faithful (env : Env) : Phase → Prop
  | .spawning next | .draining next _ => next.Faithful env
  | .waiting g | .reloading g _ => g.loaded.Faithful env
  | .starting _ | .exiting _ | .returned _ => True

section Faithful

variable {env : Env} {path : Path}

theorem faithful_of_generation {φ : Phase} {g : Generation} (hφ : φ.generation = some g) :
    Faithful env φ ↔ g.loaded.Faithful env := by
  cases φ with
  | waiting | reloading =>
    cases hφ
    exact Iff.rfl
  | starting | spawning | draining | exiting | returned => cases hφ

theorem faithful_drained {next : LoadedConfig} {listeners : List Listener} :
    Faithful env (drained next listeners) ↔ next.Faithful env := by
  cases listeners <;> exact Iff.rfl

theorem faithful_exits (listeners : List Listener) : Faithful env (exits listeners) := by
  cases listeners <;> trivial

/-- What `Config::load` returns is parsed from the text it has read. -/
theorem load_parses {file : Option Text} {isFile : Path → Bool} {config : Config}
    (h : Config.load env path file isFile = .ok config) :
    ∃ text, file = some text ∧ env.fromStr text = some config := by
  unfold Config.load at h
  obtain ⟨text, hText, h⟩ := bind_eq_ok.mp h
  obtain ⟨parsed, hParsed, h⟩ := bind_eq_ok.mp h
  obtain ⟨_, -, h⟩ := bind_eq_ok.mp h
  cases h
  exact ⟨text, withContext_eq_ok.mp hText, withContext_eq_ok.mp hParsed⟩

/-- A load whose two reads parse alike. -/
theorem ReadsAlike.faithful {file : Option Text} {φ : Phase} {raw : Text} {isFile : Path → Bool}
    {config : Config} (h : ReadsAlike env ⟨file, φ⟩ (.load isFile))
    (hφ : φ = .starting (some raw) ∨ ∃ g, φ = .reloading g (some raw))
    (hLoad : Config.load env path file isFile = .ok config) :
    LoadedConfig.Faithful env { config, raw } := by
  obtain ⟨text, hText, hParsed⟩ := load_parses hLoad
  have hAlike := h raw text isFile hφ hText rfl
  show env.fromStr raw = some config
  rw [← hAlike, hParsed]

theorem Faithful.step {p p' : Process} {a : Label} (h : Faithful env p.phase)
    (hAlike : ReadsAlike env p a) (hStep : Reload.step env path p a = some p') :
    Faithful env p'.phase := by
  rcases step_cases hStep with ⟨file, -, rfl⟩ | ⟨-, hMoves⟩
  · exact h
  obtain ⟨file, φ⟩ := p
  obtain ⟨file', φ'⟩ := p'
  dsimp only at h hMoves ⊢
  cases hMoves with
  | keeps hBefore hAfter =>
    exact (faithful_of_generation hAfter).mpr ((faithful_of_generation hBefore).mp h)
  -- the two steps in which a configuration and its text are put together
  | replaces hLoad => exact faithful_drained.mpr (hAlike.faithful (.inr ⟨_, rfl⟩) hLoad)
  | loads hLoad => exact hAlike.faithful (.inl rfl) hLoad
  | drains => exact faithful_drained.mpr h
  | spawns => exact h
  | leaves | ends => exact faithful_exits _
  | fails | starts | gives => trivial

theorem run_faithful {file : Option Text} {labels : List Label} {p : Process}
    (hAlike : Guarded (Reload.step env path) (ReadsAlike env) (start file) labels)
    (hRun : run (Reload.step env path) (start file) labels = some p) : Faithful env p.phase := by
  have hStart : Faithful env (start file).phase := trivial
  exact run_invariant_guarded (I := fun p => Faithful env p.phase)
    (fun _ _ _ h hGuard hStep => h.step hGuard hStep) hStart hAlike hRun

/-- A poll after which the process waits on has read the text in use, or nothing. -/
theorem poll_unchanged {p p' : Process} {g g' : Generation} {text : Text}
    (hWaits : p.phase = .waiting g) (hFile : p.file = some text)
    (hPoll : Reload.step env path p .poll = some p') (hStays : p'.phase = .waiting g') :
    g' = g ∧ text = g.loaded.raw := by
  obtain ⟨file, φ⟩ := p
  dsimp only at hWaits hFile
  subst hWaits hFile
  by_cases hSame : text = g.loaded.raw
  · simp only [Reload.step, stepPhase, if_pos hSame, Option.map_some, Option.some.injEq] at hPoll
    subst hPoll
    cases hStays
    exact ⟨rfl, hSame⟩
  · simp only [Reload.step, stepPhase, if_neg hSame, Option.map_some, Option.some.injEq] at hPoll
    subst hPoll
    cases hStays

end Faithful

/-- **Reloading converges to the file.** Whatever is written to the file and
whenever, as long as no write falls between the two reads of a `load_config` and
changes what they parse to: a poll that reads the file and finds nothing to do has
read the text that the running configuration was parsed from. -/
theorem reload_converges {env : Env} {path : Path} {file : Option Text} {labels : List Label}
    {p p' : Process} {g g' : Generation} {text : Text}
    (hAlike : Guarded (step env path) (ReadsAlike env) (start file) labels)
    (hRun : run (step env path) (start file) labels = some p) (hWaits : p.phase = .waiting g)
    (hFile : p.file = some text) (hPoll : step env path p .poll = some p')
    (hUnchanged : p'.phase = .waiting g') :
    env.fromStr text = some g.loaded.config ∧ g.listeners = g.loaded.config.listeners := by
  have hFaithful := run_faithful hAlike hRun
  have hSound := run_sound hRun
  rw [hWaits] at hFaithful hSound
  -- the poll compared the file with the text kept beside the configuration
  obtain ⟨-, rfl⟩ := poll_unchanged hWaits hFile hPoll hUnchanged
  exact ⟨hFaithful, hSound.2⟩

/-! ## Samples -/

theorem readsAlike_of_not_load {env : Env} {p : Process} {a : Label}
    (h : ∀ isFile, a ≠ .load isFile) : ReadsAlike env p a :=
  fun _ _ isFile _ _ ha => absurd ha (h isFile)

/-- Nothing was written since the first read. -/
theorem readsAlike_of_same {env : Env} {p : Process} {a : Label} {raw : Text}
    (hPhase : p.phase = .starting (some raw) ∨ ∃ g, p.phase = .reloading g (some raw))
    (hFile : p.file = some raw) : ReadsAlike env p a := by
  intro raw' text isFile hPhase' hText _
  have hRaw : raw' = raw := by
    rcases hPhase with hPhase | ⟨g, hPhase⟩ <;> rcases hPhase' with hPhase' | ⟨g', hPhase'⟩ <;>
      rw [hPhase] at hPhase' <;> cases hPhase' <;> rfl
  rw [hFile] at hText
  cases hText
  rw [hRaw]

/-- The server starts, and nobody writes to the file. -/
theorem startUp_readsAlike : Guarded (step sampleEnv configPath) (ReadsAlike sampleEnv)
    (start (some (sampleText plainUpstream))) startUp := by
  refine ⟨readsAlike_of_not_load (fun _ h => by cases h), fun p hp => ?_⟩
  cases hp
  refine ⟨readsAlike_of_same (.inl rfl) rfl, fun p _ => ?_⟩
  exact ⟨readsAlike_of_not_load (fun _ h => by cases h), fun _ _ => trivial⟩

theorem reload_converges_startUp :
    step sampleEnv configPath (serving plainUpstream) .poll = some (serving plainUpstream) ∧
      sampleEnv.fromStr (sampleText plainUpstream) = some (sampleConfig plainUpstream) := by
  have hPoll : step sampleEnv configPath (serving plainUpstream) .poll =
      some (serving plainUpstream) := by
    decide +kernel
  exact ⟨hPoll, (reload_converges startUp_readsAlike startUp_serves rfl rfl hPoll rfl).1⟩

/-- The file is saved with another upstream while the server starts, and then
saved again as it was. -/
def revertedEdit : List Label :=
  [.read, .write (some (sampleText namedUpstream)), .load allFiles, .spawn sampleOs,
    .write (some (sampleText plainUpstream))]

/-- **A reverted edit is kept.** The server runs the configuration that was saved
in between, and no poll will notice. -/
theorem reverted_edit_kept :
    ∃ p g text, run (step sampleEnv configPath) (start (some (sampleText plainUpstream)))
        revertedEdit = some p ∧
      p.phase = .waiting g ∧ p.file = some text ∧ step sampleEnv configPath p .poll = some p ∧
      sampleEnv.fromStr text = some (sampleConfig plainUpstream) ∧
      g.loaded.config = sampleConfig namedUpstream ∧
      sampleConfig plainUpstream ≠ sampleConfig namedUpstream := by
  refine ⟨⟨some (sampleText plainUpstream), .waiting
    ⟨⟨sampleConfig namedUpstream, sampleText plainUpstream⟩,
      (sampleConfig namedUpstream).listeners⟩⟩, _, sampleText plainUpstream, ?_, rfl, rfl, ?_, ?_,
    rfl, ?_⟩
  · decide +kernel
  · decide +kernel
  · decide +kernel
  · decide +kernel

end DnsRs.Reload
