import DnsRs.Lib.Run
import DnsRs.Cache.Runs
import DnsRs.Reload.Config

/-!
# The process and its configuration file

`run_configured` loads the file, spawns listeners for it and then, every five
seconds, looks at the file again. A text that differs from the one in use is
loaded; if that succeeds the running listeners are shut down, and only then are
those of the new configuration spawned.

The file is written by others at any moment. The poll, `load_config` and
`Config::load` each read it for themselves, so these are three steps, and a write
fits between any two of them. The poll branch runs without an `await`, so nothing
else of the process moves in between.

* `survives_edits` — as long as every accepted text also comes up, the process
  serves until Ctrl-C or until a listener exits, and a text that does not load
  leaves the listeners alone.
* `accepted_edit_stops_server` — a text that loads and does not come up ends it.
-/

namespace DnsRs.Reload

open Lib

structure LoadedConfig where
  config : Config
  /-- the text `load_config` has read, kept for the next polls -/
  raw : Text
  deriving DecidableEq

/-- A configuration and its running listeners. -/
structure Generation where
  loaded : LoadedConfig
  listeners : List Listener
  deriving DecidableEq

inductive Phase where
  /-- in the first `load_config`, with what it has read so far -/
  | starting (raw : Option Text)
  /-- at `spawn_listeners` -/
  | spawning (loaded : LoadedConfig)
  /-- in the `select!` of `wait_for_reload_or_exit` -/
  | waiting (generation : Generation)
  /-- in the `load_config` of its poll branch -/
  | reloading (generation : Generation) (raw : Option Text)
  /-- `shutdown` is cancelled for a reload, and these listeners are awaited -/
  | draining (next : LoadedConfig) (left : List Listener)
  /-- the same on the way to `Outcome::Exit` -/
  | exiting (left : List Listener)
  | returned (result : Except Error Unit)
  deriving DecidableEq

structure Process where
  /-- what a read of the configuration file gives, if it succeeds -/
  file : Option Text
  phase : Phase
  deriving DecidableEq

inductive Label where
  /-- someone else changes the file -/
  | write (file : Option Text)
  /-- the read of `load_config` -/
  | read
  /-- `Config::load` -/
  | load (isFile : Path → Bool)
  | spawn (os : Outside)
  /-- the poll interval is over -/
  | poll
  /-- `select_all` returns the listener at `k` -/
  | exited (k : Nat)
  | ctrlC
  /-- the next listener that is awaited has stopped -/
  | joined

/-- What the `for` loop over the listeners leaves. -/
def drained (next : LoadedConfig) : List Listener → Phase
  | [] => .spawning next
  | left => .draining next left

def exits : List Listener → Phase
  | [] => .returned (.ok ())
  | left => .exiting left

/-- `Vec::swap_remove` -/
def swapRemove (listeners : List Listener) (k : Nat) : List Listener :=
  match listeners.getLast? with
  | none => []
  | some last => (listeners.set k last).dropLast

section Model

variable (env : Env) (path : Path)

/-- The end of `load_config`, after its own read has given `raw`. -/
def loadConfig (raw : Text) (file : Option Text) (isFile : Path → Bool) :
    Except Error LoadedConfig :=
  match Config.load env path file isFile with
  | .ok config => .ok { config, raw }
  | .error _ => .error ("failed to load config from " ++ String.ofList path)

/-- One step of the code, given what the file holds. -/
def stepPhase (file : Option Text) : Phase → Label → Option Phase
  | .starting none, .read =>
    match file with
    | some raw => some (.starting (some raw))
    | none => some (.returned (.error ("failed to read config file at " ++ String.ofList path)))
  | .starting (some raw), .load isFile =>
    match loadConfig env path raw file isFile with
    | .ok loaded => some (.spawning loaded)
    | .error err => some (.returned (.error err))
  | .spawning loaded, .spawn os =>
    match spawnListeners env os loaded.config with
    | .ok listeners => some (.waiting { loaded, listeners })
    -- `?`: whatever ran before has been shut down by now
    | .error err => some (.returned (.error err))
  | .waiting g, .poll =>
    match file with
    | some raw => if raw = g.loaded.raw then some (.waiting g) else some (.reloading g none)
    -- only a warning
    | none => some (.waiting g)
  | .reloading g none, .read =>
    match file with
    | some raw => some (.reloading g (some raw))
    | none => some (.waiting g)
  | .reloading g (some raw), .load isFile =>
    match loadConfig env path raw file isFile with
    | .ok next => some (drained next g.listeners)
    -- "config file changed but failed to load, keeping previous config"
    | .error _ => some (.waiting g)
  | .waiting g, .exited k =>
    if k < g.listeners.length then some (exits (swapRemove g.listeners k)) else none
  | .waiting g, .ctrlC => some (exits g.listeners)
  -- `let _ = handle.await`: how the listener ended does not matter
  | .draining next (_ :: left), .joined => some (drained next left)
  | .exiting (_ :: left), .joined => some (exits left)
  | _, _ => none

def step (p : Process) : Label → Option Process
  | .write file => some { p with file }
  | a => (stepPhase env path p.file p.phase a).map fun phase => { p with phase }

end Model

/-- `run_configured` is called. -/
def start (file : Option Text) : Process := { file, phase := .starting none }

/-- The two events that may end the process. -/
def Label.leaves : Label → Bool
  | .exited _ | .ctrlC => true
  | _ => false

/-- The generation that serves. -/
def Phase.generation : Phase → Option Generation
  | .waiting g | .reloading g _ => some g
  | _ => none

/-! ## What a step can do -/

section Moves

variable {env : Env} {path : Path} {file : Option Text} {φ φ' : Phase} {a : Label}

/-- The configuration was accepted by `Config::load` once. -/
def Accepted (env : Env) (path : Path) (config : Config) : Prop :=
  ∃ text isFile, Config.load env path (some text) isFile = .ok config

/-- The steps of the code, by what they do to the generation that serves. -/
inductive Moves (env : Env) (path : Path) (file : Option Text) : Phase → Label → Phase → Prop
  /-- the text is the one in use, or is new, or cannot be read or loaded -/
  | keeps {φ φ' : Phase} {a : Label} {g : Generation} (hBefore : φ.generation = some g)
      (hAfter : φ'.generation = some g) (hStays : a.leaves = false) : Moves env path file φ a φ'
  | replaces {g : Generation} {raw : Text} {isFile : Path → Bool} {config : Config}
      (hLoad : Config.load env path file isFile = .ok config) :
      Moves env path file (.reloading g (some raw)) (.load isFile)
        (drained { config, raw } g.listeners)
  | leaves {g : Generation} {a : Label} {left : List Listener} (hLeaves : a.leaves = true) :
      Moves env path file (.waiting g) a (exits left)
  | drains {next : LoadedConfig} {l : Listener} {left : List Listener} :
      Moves env path file (.draining next (l :: left)) .joined (drained next left)
  | ends {l : Listener} {left : List Listener} :
      Moves env path file (.exiting (l :: left)) .joined (exits left)
  | spawns {loaded : LoadedConfig} {os : Outside} {listeners : List Listener}
      (hSpawn : spawnListeners env os loaded.config = .ok listeners) :
      Moves env path file (.spawning loaded) (.spawn os) (.waiting { loaded, listeners })
  | fails {loaded : LoadedConfig} {os : Outside} {err : Error}
      (hSpawn : spawnListeners env os loaded.config = .error err) :
      Moves env path file (.spawning loaded) (.spawn os) (.returned (.error err))
  /-- the first `load_config` -/
  | starts {raw : Option Text} : Moves env path file (.starting none) .read (.starting raw)
  | loads {raw : Text} {isFile : Path → Bool} {config : Config}
      (hLoad : Config.load env path file isFile = .ok config) :
      Moves env path file (.starting (some raw)) (.load isFile) (.spawning { config, raw })
  | gives {raw : Option Text} {a : Label} {err : Error} :
      Moves env path file (.starting raw) a (.returned (.error err))

theorem loadConfig_eq_ok {raw : Text} {isFile : Path → Bool} {loaded : LoadedConfig}
    (h : loadConfig env path raw file isFile = .ok loaded) :
    loaded.raw = raw ∧ Config.load env path file isFile = .ok loaded.config := by
  unfold loadConfig at h
  split at h
  next config hLoad =>
    cases h
    exact ⟨rfl, hLoad⟩
  next => cases h

/-- Every step is one of these. -/
theorem stepPhase_moves (h : stepPhase env path file φ a = some φ') :
    Moves env path file φ a φ' := by
  unfold stepPhase at h
  -- in the order of the branches of `stepPhase`
  split at h
  · split at h <;> cases h
    · exact .starts
    · exact .gives
  next raw isFile =>
    split at h
    next loaded hLoad =>
      cases h
      obtain ⟨rfl, hConfig⟩ := loadConfig_eq_ok hLoad
      exact .loads hConfig
    next =>
      cases h
      exact .gives
  next loaded os =>
    split at h
    next listeners hSpawn =>
      cases h
      exact .spawns hSpawn
    next err hSpawn =>
      cases h
      exact .fails hSpawn
  next g =>
    split at h
    · split at h <;> cases h <;> exact .keeps rfl rfl rfl
    · cases h
      exact .keeps rfl rfl rfl
  next g => split at h <;> cases h <;> exact .keeps rfl rfl rfl
  next g raw isFile =>
    split at h
    next next hLoad =>
      cases h
      obtain ⟨rfl, hConfig⟩ := loadConfig_eq_ok hLoad
      exact .replaces hConfig
    next =>
      cases h
      exact .keeps rfl rfl rfl
  next g k =>
    split at h
    · cases h
      exact .leaves rfl
    · cases h
  next g =>
    cases h
    exact .leaves rfl
  next next l left =>
    cases h
    exact .drains
  next l left =>
    cases h
    exact .ends
  next => cases h

/-- A step is a write from outside or one of the code. -/
theorem step_cases {p p' : Process} (h : step env path p a = some p') :
    (∃ file, a = .write file ∧ p' = { p with file }) ∨
      p'.file = p.file ∧ Moves env path p.file p.phase a p'.phase := by
  cases a with
  | write file =>
    cases h
    exact .inl ⟨file, rfl, rfl⟩
  | _ =>
    obtain ⟨φ, hφ, rfl⟩ := Option.map_eq_some_iff.mp h
    exact .inr ⟨rfl, stepPhase_moves hφ⟩

theorem load_accepts {isFile : Path → Bool} {config : Config}
    (h : Config.load env path file isFile = .ok config) :
    Accepted env path config ∧ config.validate isFile = .ok () := by
  have hLoad := h
  unfold Config.load at h
  obtain ⟨raw, hRaw, h⟩ := bind_eq_ok.mp h
  obtain ⟨parsed, -, h⟩ := bind_eq_ok.mp h
  obtain ⟨_, hValid, h⟩ := bind_eq_ok.mp h
  cases h
  exact ⟨⟨raw, isFile, withContext_eq_ok.mp hRaw ▸ hLoad⟩, hValid⟩

theorem Accepted.validate {config : Config} (h : Accepted env path config) :
    ∃ isFile, config.validate isFile = .ok () := by
  obtain ⟨_, isFile, hLoad⟩ := h
  exact ⟨isFile, (load_accepts hLoad).2⟩

theorem Accepted.cache {config : Config} (h : Accepted env path config) :
    config.cache.enabled = true → config.cache.maxSizeBytes ≤ Cache.maxCacheBytes := by
  obtain ⟨isFile, hValid⟩ := h.validate
  exact validate_cache hValid

end Moves

/-! ## What serves -/

/-- The listeners that run are those of a configuration that was accepted, and
so is the configuration they make room for. -/
def Sound (env : Env) (path : Path) : Phase → Prop
  | .spawning next | .draining next _ => Accepted env path next.config
  | .waiting g | .reloading g _ =>
    Accepted env path g.loaded.config ∧ g.listeners = g.loaded.config.listeners
  | .starting _ | .exiting _ | .returned _ => True

section Sound

variable {env : Env} {path : Path}

theorem sound_of_generation {φ : Phase} {g : Generation} (hφ : φ.generation = some g) :
    Sound env path φ ↔
      Accepted env path g.loaded.config ∧ g.listeners = g.loaded.config.listeners := by
  cases φ with
  | waiting | reloading =>
    cases hφ
    exact Iff.rfl
  | starting | spawning | draining | exiting | returned => cases hφ

theorem sound_drained {next : LoadedConfig} {listeners : List Listener} :
    Sound env path (drained next listeners) ↔ Accepted env path next.config := by
  cases listeners <;> exact Iff.rfl

theorem sound_exits (listeners : List Listener) : Sound env path (exits listeners) := by
  cases listeners <;> trivial

theorem Sound.step {p p' : Process} {a : Label} (h : Sound env path p.phase)
    (hStep : Reload.step env path p a = some p') : Sound env path p'.phase := by
  rcases step_cases hStep with ⟨file, -, rfl⟩ | ⟨-, hMoves⟩
  · exact h
  obtain ⟨file, φ⟩ := p
  obtain ⟨file', φ'⟩ := p'
  dsimp only at h hMoves ⊢
  cases hMoves with
  | keeps hBefore hAfter => exact (sound_of_generation hAfter).mpr ((sound_of_generation hBefore).mp h)
  | replaces hLoad => exact sound_drained.mpr (load_accepts hLoad).1
  | leaves | ends => exact sound_exits _
  | drains => exact sound_drained.mpr h
  -- spawning gives the listeners of the configuration it was called for
  | spawns hSpawn =>
    obtain ⟨isFile, hValid⟩ := Accepted.validate h
    exact ⟨h, ((spawnListeners_eq_ok hValid).mp hSpawn).1⟩
  | fails => trivial
  | loads hLoad => exact (load_accepts hLoad).1
  | starts => trivial
  | gives => trivial

theorem run_sound {p : Process} {labels : List Label} {file : Option Text}
    (hRun : run (Reload.step env path) (start file) labels = some p) : Sound env path p.phase := by
  have hStart : Sound env path (start file).phase := trivial
  exact run_invariant (I := fun p => Sound env path p.phase) (fun _ _ _ h hStep => h.step hStep)
    hStart hRun

/-- **The cache of what serves returns** from every sequence of calls: its size has
passed `validate`. -/
theorem serving_cache_returns {RecordType DNSClass Heap : Type} [DecidableEq RecordType]
    [DecidableEq DNSClass] {cacheEnv : Cache.Env RecordType DNSClass Heap}
    (hA : cacheEnv.alloc.Lawful) {p : Process} {labels : List Label} {file : Option Text}
    {g : Generation} (hRun : run (Reload.step env path) (start file) labels = some p)
    (hServes : p.phase.generation = some g) (ops : List (Cache.Op RecordType DNSClass)) :
    ∃ c, Cache.runOps cacheEnv (.new cacheEnv g.loaded.config.cache.enabled
      g.loaded.config.cache.maxSizeBytes) ops = .ok c := by
  obtain ⟨hAccepted, -⟩ := (sound_of_generation hServes).mp (run_sound hRun)
  obtain ⟨c, -, hc, -⟩ := Cache.run_from_new hA hAccepted.cache ops
  exact ⟨c, hc⟩

end Sound

/-! ## A process that has started -/

/-- The listeners are spawned for a configuration that can be brought up. -/
def SpawnsUp (env : Env) (p : Process) (a : Label) : Prop :=
  ∀ loaded os, p.phase = .spawning loaded → a = .spawn os → BringsUp env os loaded.config

/-- A process that has started serves or is about to, unless something made it
leave. -/
def Stays (left : Prop) : Phase → Prop
  | .starting _ => False
  | .spawning _ | .draining _ _ | .waiting _ | .reloading _ _ => True
  | .exiting _ => left
  | .returned result => result = .ok () ∧ left

section Survival

variable {env : Env} {path : Path} {left left' : Prop}

theorem Stays.mono {φ : Phase} (h : Stays left φ) (hLeft : left → left') : Stays left' φ := by
  cases φ with
  | starting | spawning | draining | waiting | reloading => exact h
  | exiting => exact hLeft h
  | returned => exact ⟨h.1, hLeft h.2⟩

theorem stays_of_generation {φ : Phase} {g : Generation} (hφ : φ.generation = some g) :
    Stays left φ := by
  cases φ with
  | waiting | reloading => trivial
  | starting | spawning | draining | exiting | returned => cases hφ

theorem stays_drained (next : LoadedConfig) (listeners : List Listener) :
    Stays left (drained next listeners) := by
  cases listeners <;> trivial

theorem stays_exits {listeners : List Listener} (h : left) : Stays left (exits listeners) := by
  cases listeners with
  | nil => exact ⟨rfl, h⟩
  | cons l listeners => exact h

/-- One step, given that what is spawned comes up. -/
theorem Stays.step {p p' : Process} {a : Label} (h : Stays left p.phase)
    (hSound : Sound env path p.phase) (hUp : SpawnsUp env p a)
    (hStep : Reload.step env path p a = some p') : Stays (left ∨ a.leaves = true) p'.phase := by
  rcases step_cases hStep with ⟨file, -, rfl⟩ | ⟨-, hMoves⟩
  · exact h.mono .inl
  obtain ⟨file, φ⟩ := p
  obtain ⟨file', φ'⟩ := p'
  dsimp only at h hSound hMoves hUp ⊢
  cases hMoves with
  | keeps hBefore hAfter => exact stays_of_generation hAfter
  | replaces | drains => exact stays_drained _ _
  | leaves hLeaves => exact stays_exits (.inr hLeaves)
  | ends => exact stays_exits (.inl h)
  | spawns => trivial
  | @fails loaded os err hSpawn =>
    -- an accepted configuration whose requirements are met does not fail here
    obtain ⟨isFile, hValid⟩ := Accepted.validate hSound
    rw [(spawnListeners_eq_ok hValid).mpr ⟨rfl, hUp loaded os rfl rfl⟩] at hSpawn
    cases hSpawn
  -- the process has started
  | loads | starts | gives => exact h.elim

theorem run_stays {p p' : Process} {labels : List Label} (h : Stays left p.phase)
    (hSound : Sound env path p.phase)
    (hUp : Guarded (Reload.step env path) (SpawnsUp env) p labels)
    (hRun : run (Reload.step env path) p labels = some p') :
    Stays (left ∨ ∃ a ∈ labels, a.leaves = true) p'.phase := by
  induction labels generalizing p left with
  | nil =>
    cases hRun
    exact h.mono .inl
  | cons a labels ih =>
    obtain ⟨q, hStep, hRest⟩ := run_cons_eq_some.mp hRun
    -- the reasons to leave add up along the run
    refine (ih (h.step hSound hUp.1 hStep) (hSound.step hStep) (hUp.2 q hStep) hRest).mono ?_
    rintro ((hLeft | hLeaves) | ⟨b, hb, hLeaves⟩)
    · exact .inl hLeft
    · exact .inr ⟨a, List.mem_cons_self, hLeaves⟩
    · exact .inr ⟨b, List.mem_cons_of_mem a hb, hLeaves⟩

/-- A step that does not leave keeps what serves, unless a new text has loaded. -/
theorem generation_kept {p p' : Process} {a : Label} {g : Generation}
    (hStep : Reload.step env path p a = some p') (hServes : p.phase.generation = some g)
    (hStays : a.leaves = false) :
    p'.phase.generation = some g ∨
      ∃ isFile next, a = .load isFile ∧ Config.load env path p.file isFile = .ok next.config ∧
        p'.phase = drained next g.listeners := by
  rcases step_cases hStep with ⟨file, -, rfl⟩ | ⟨-, hMoves⟩
  · exact .inl hServes
  obtain ⟨file, φ⟩ := p
  obtain ⟨file', φ'⟩ := p'
  dsimp only at hMoves hServes ⊢
  cases hMoves with
  | keeps hBefore hAfter =>
    rw [hBefore] at hServes
    cases hServes
    exact .inl hAfter
  | replaces hLoad =>
    cases hServes
    exact .inr ⟨_, _, rfl, hLoad, rfl⟩
  | leaves hLeaves =>
    rw [hLeaves] at hStays
    cases hStays
  | drains | ends | spawns | fails | loads | starts | gives => cases hServes

/-- Once the old listeners have stopped, the new ones come up. -/
theorem run_drained {file : Option Text} {next : LoadedConfig} {os : Outside}
    (hAccepted : Accepted env path next.config) (hUp : BringsUp env os next.config)
    (listeners : List Listener) :
    run (Reload.step env path) ⟨file, drained next listeners⟩
        (List.replicate listeners.length .joined ++ [.spawn os]) =
      some ⟨file, .waiting ⟨next, next.config.listeners⟩⟩ := by
  induction listeners with
  | nil =>
    obtain ⟨isFile, hValid⟩ := hAccepted.validate
    have hSpawn := (spawnListeners_eq_ok hValid).mpr ⟨rfl, hUp⟩
    simp [run, drained, Reload.step, stepPhase, hSpawn]
  -- one more listener to await
  | cons l listeners ih =>
    rw [List.length_cons, List.replicate_succ, List.cons_append]
    exact run_cons_eq_some.mpr ⟨⟨file, drained next listeners⟩, rfl, ih⟩

/-- An accepted configuration that cannot be brought up ends the process. -/
theorem spawn_fails {file : Option Text} {next : LoadedConfig} {os : Outside}
    (hAccepted : Accepted env path next.config) (hDown : ¬ BringsUp env os next.config) :
    ∃ err, Reload.step env path ⟨file, .spawning next⟩ (.spawn os) =
      some ⟨file, .returned (.error err)⟩ := by
  obtain ⟨isFile, hValid⟩ := hAccepted.validate
  cases hSpawn : spawnListeners env os next.config with
  | ok listeners => exact absurd ((spawnListeners_eq_ok hValid).mp hSpawn).2 hDown
  | error err =>
    refine ⟨err, ?_⟩
    simp [Reload.step, stepPhase, hSpawn]

end Survival

/-- What edits of the file have done to a process that serves. -/
structure Survives (env : Env) (path : Path) (labels : List Label) (p : Process) : Prop where
  /-- it has not ended, or was made to leave; never with an error -/
  stays : Stays (∃ a ∈ labels, a.leaves = true) p.phase
  /-- what runs are the listeners of an accepted configuration -/
  sound : Sound env path p.phase
  /-- a text that does not load, for whatever reason, leaves them alone -/
  kept : ∀ a p' g, step env path p a = some p' → p.phase.generation = some g → a.leaves = false →
    p'.phase.generation = some g ∨
      ∃ isFile next, a = .load isFile ∧ Config.load env path p.file isFile = .ok next.config ∧
        p'.phase = drained next g.listeners
  /-- one that does is served once they have stopped -/
  replaced : ∀ next listeners os, p.phase = drained next listeners → BringsUp env os next.config →
    run (step env path) p (List.replicate listeners.length .joined ++ [.spawn os]) =
      some { p with phase := .waiting ⟨next, next.config.listeners⟩ }

/-- **Edits of the file do not take the server down, if what loads comes up.** A
process that has started, through any writes, polls and reloads in which every
configuration that is spawned meets the requirements `Config::load` does not
check, ends only by Ctrl-C or by a listener that exits. -/
theorem survives_edits {env : Env} {path : Path} {file : Option Text} {before labels : List Label}
    {p p' : Process} {g : Generation} (hStart : run (step env path) (start file) before = some p)
    (hServes : p.phase = .waiting g) (hUp : Guarded (step env path) (SpawnsUp env) p labels)
    (hRun : run (step env path) p labels = some p') : Survives env path labels p' := by
  have hSound := run_sound hStart
  have hSound' : Sound env path p'.phase :=
    run_invariant (I := fun p => Sound env path p.phase) (fun _ _ _ h hStep => h.step hStep) hSound
      hRun
  have hStays : Stays False p.phase := by
    rw [hServes]
    trivial
  refine ⟨(run_stays hStays hSound hUp hRun).mono ?_, hSound', ?_, ?_⟩
  · rintro (hNever | hLeft)
    · exact hNever.elim
    · exact hLeft
  · intro a q g' hStep hGeneration hLeaves
    exact generation_kept hStep hGeneration hLeaves
  · intro next listeners os hPhase hBrings
    obtain ⟨file', φ⟩ := p'
    dsimp only at hPhase
    subst hPhase
    exact run_drained (sound_drained.mp hSound') hBrings listeners

/-! ## A sample -/

/-- The configuration file with this upstream in it. -/
def sampleText (upstream : Text) : Text :=
  "server.tls_cert = \"c\"\nserver.tls_key = \"k\"\nupstream.urls = [\"".toList ++ upstream ++
    "\"]".toList

/-- What it parses to. -/
def sampleConfig (upstream : Text) : Config where
  server := ⟨[0, 0, 0, 0], 853, 443, ['c'], ['k'], 300⟩
  blocking := ⟨.nxdomain, .unspecified⟩
  blocklists := ⟨[], [], 43200⟩
  whitelist := ⟨[], [], 43200⟩
  staticHosts := ∅
  upstream := ⟨.hedged, [upstream]⟩
  cache := ⟨true, 64 * 1024 * 1024⟩

def plainUpstream : Text := "tls://1.1.1.1:853".toList

def namedUpstream : Text := "tls://9.9.9.9:853#dns.quad9.net".toList

/-- An address in brackets, as `resolve_addresses` expects it: the brackets become
part of the TLS name. -/
def bracketedUpstream : Text := "tls://[2606:4700:4700::1111]:853".toList

def sampleEnv : Env where
  fromStr text :=
    ([plainUpstream, namedUpstream, bracketedUpstream].find? fun upstream =>
      sampleText upstream = text).map sampleConfig
  serverName name :=
    if name ≠ [] ∧ name.all fun c => c.isAlphanum || c == '-' || c == '_' || c == '.' then some name
    else none
  certs file := some [file]
  privateKey file := some (some file)
  withSingleCert _ _ := true

def sampleOs : Outside where
  httpClient := true
  openFile _ := some [0x2d]

def allFiles : Path → Bool := fun _ => true

def configPath : Path := "config.toml".toList

/-- The start of a server, up to its first generation. -/
def startUp : List Label := [.read, .load allFiles, .spawn sampleOs]

/-- Someone saves the file, and the next poll sees it. -/
def edit (text : Text) : List Label := [.write (some text), .poll, .read, .load allFiles]

def serving (upstream : Text) : Process where
  file := some (sampleText upstream)
  phase := .waiting
    { loaded := { config := sampleConfig upstream, raw := sampleText upstream }
      listeners := (sampleConfig upstream).listeners }

theorem startUp_serves :
    run (step sampleEnv configPath) (start (some (sampleText plainUpstream))) startUp =
      some (serving plainUpstream) := by
  decide +kernel

/-- A text that does not parse, then one that does: the old listeners stop. -/
def twoEdits : List Label :=
  edit "urls = [".toList ++ edit (sampleText namedUpstream) ++ [.joined, .joined]

theorem twoEdits_drained :
    run (step sampleEnv configPath) (serving plainUpstream) twoEdits =
      some
        { file := some (sampleText namedUpstream)
          phase := .spawning
            { config := sampleConfig namedUpstream, raw := sampleText namedUpstream } } := by
  decide +kernel

theorem namedUpstream_bringsUp : BringsUp sampleEnv sampleOs (sampleConfig namedUpstream) where
  client := rfl
  names := by
    intro entry hEntry host port tlsName hParse
    have hNamed : UpstreamConfig.parse namedUpstream =
        .ok (.dot "9.9.9.9".toList 853 "dns.quad9.net".toList) := by
      decide +kernel
    rw [List.mem_singleton.mp hEntry, hNamed] at hParse
    cases hParse
    decide +kernel
  pair := ⟨[0x2d], [0x2d], [[0x2d]], [0x2d], rfl, rfl, by simp, rfl, rfl, rfl⟩

theorem survives_edits_two :
    Survives sampleEnv configPath (twoEdits ++ [.spawn sampleOs]) (serving namedUpstream) := by
  refine survives_edits startUp_serves rfl (guarded_append ?_ ?_) ?_
  · refine guarded_iff_prefix.mpr ?_
    -- no listeners are spawned before the old ones have stopped
    intro before a after hEq _ _ loaded os _ ha
    have hMem : a ∈ twoEdits := hEq ▸ List.mem_append_right before List.mem_cons_self
    subst ha
    simp [twoEdits, edit] at hMem
  · intro p hp
    rw [twoEdits_drained] at hp
    cases hp
    refine ⟨?_, fun _ _ => trivial⟩
    intro loaded os hPhase ha
    cases hPhase
    cases ha
    exact namedUpstream_bringsUp
  · exact run_append_eq_some.mpr ⟨_, twoEdits_drained, by decide +kernel⟩

/-- **An edit that loads can end the process.** The text names an upstream by its
IPv6 address. It is accepted, the listeners that serve are shut down for it, and
then the TLS name is found not to be one. -/
theorem accepted_edit_stops_server :
    ∃ p, run (step sampleEnv configPath) (start (some (sampleText plainUpstream))) startUp =
        some (serving plainUpstream) ∧
      run (step sampleEnv configPath) (serving plainUpstream)
        (edit (sampleText bracketedUpstream) ++ [.joined, .joined, .spawn sampleOs]) = some p ∧
      p.phase = .returned (.error "invalid upstream tls_name: [2606:4700:4700::1111]") := by
  refine ⟨⟨some (sampleText bracketedUpstream),
    .returned (.error "invalid upstream tls_name: [2606:4700:4700::1111]")⟩, startUp_serves, ?_, rfl⟩
  decide +kernel

end DnsRs.Reload
