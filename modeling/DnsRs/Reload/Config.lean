import Mathlib.Data.Finmap
import DnsRs.Lib.Outcome
import DnsRs.Handler.System
import DnsRs.Upstream.Strategies

/-!
# What it takes to bring a configuration up

A configuration passes three gates before its listeners run: `Config::load`
parses and validates the text, `AppState::build` turns the upstream entries into
upstreams, and `spawn_listeners` loads certificate and key. The gates do not
check the same things. `validate` parses the upstream entries, but it does not
ask whether their TLS names are names; it asks whether the PEM files are files,
but not what is in them.

The model is that of the default build, with both listeners and TLS. An error is
the text `anyhow` displays, that of its outermost context.

* `validate_parses` — a validated configuration never fails in
  `parsed_upstreams` again.
* `validate_cache` — it asks for no larger cache than the results on the cache allow.
* `spawnListeners_eq_ok` — what a validated configuration still needs to come up.
-/

namespace DnsRs.Reload

open Lib Wire Upstream

abbrev Text := List Char

abbrev Error := String

abbrev Path := Text

/-- The octets of an address. -/
abbrev IpAddr := Bytes

/-! ## Texts -/

/-- `str::split_once` -/
def splitOnce (c : Char) (text : Text) : Option (Text × Text) :=
  match text.dropWhile (· != c) with
  | [] => none
  | _ :: after => some (text.takeWhile (· != c), after)

/-- `str::rsplit_once` -/
def rsplitOnce (c : Char) (text : Text) : Option (Text × Text) :=
  (splitOnce c text.reverse).map fun parts => (parts.2.reverse, parts.1.reverse)

def parseDigits (digits : Text) : Option Nat :=
  if digits.isEmpty || !digits.all Char.isDigit then none
  else
    let value := digits.foldl (fun acc d => acc * 10 + (d.toNat - '0'.toNat)) 0
    if value < 2 ^ 16 then some value else none

/-- `str::parse::<u16>`, which takes one leading plus sign. -/
def parseU16 : Text → Option Nat
  | '+' :: digits => parseDigits digits
  | digits => parseDigits digits

/-- `with_context` on something that may be missing or have failed. -/
def withContext {α : Type} (context : Error) : Option α → Except Error α
  | some a => .ok a
  | none => .error context

/-- `if condition { bail!(..) }` -/
def bailIf (condition : Bool) (error : Error) : Except Error Unit :=
  if condition then .error error else .ok ()

/-! ## The configuration -/

structure ServerConfig where
  bindAddress : IpAddr
  dotPort : Nat
  dohPort : Nat
  tlsCert : Path
  tlsKey : Path
  defaultTtl : Nat
  deriving DecidableEq, Repr

structure BlockingConfig where
  mode : Handler.BlockMode
  sinkholeIp : Ipv4Addr
  deriving DecidableEq, Repr

/-- `BlocklistsConfig` and `WhitelistConfig` -/
structure ListsConfig where
  urls : List Text
  domains : List Text
  refreshIntervalSecs : Nat
  deriving DecidableEq, Repr

structure UpstreamsConfig where
  strategy : Strategy
  urls : List Text
  deriving DecidableEq, Repr

structure CacheConfig where
  enabled : Bool
  maxSizeBytes : Nat
  deriving DecidableEq, Repr

structure Config where
  server : ServerConfig
  blocking : BlockingConfig
  blocklists : ListsConfig
  whitelist : ListsConfig
  staticHosts : Finmap fun _ : Text => Ipv4Addr
  upstream : UpstreamsConfig
  cache : CacheConfig
  deriving DecidableEq

inductive UpstreamConfig where
  | doh (url : Text)
  | dot (host : Text) (port : Nat) (tlsName : Text)
  deriving DecidableEq, Repr

def UpstreamConfig.parse (entry : Text) : Except Error UpstreamConfig :=
  -- the URL itself is not looked at
  if "https://".toList.isPrefixOf entry then .ok (.doh entry)
  else
    match entry.dropPrefix? "tls://".toList with
    | some rest => do
      -- `tls://host:port#tls_name`
      let (hostPort, tlsName) := match splitOnce '#' rest with
        | some (hostPort, name) => (hostPort, some name)
        | none => (rest, none)
      let (host, port) ← withContext
        ("upstream '" ++ String.ofList entry ++ "' is missing a port, expected tls://host:port")
        (rsplitOnce ':' hostPort)
      let port ← withContext ("upstream '" ++ String.ofList entry ++ "' has an invalid port")
        (parseU16 port)
      .ok (.dot host port (tlsName.getD host))
    | none => .error
        ("upstream '" ++ String.ofList entry ++ "' must start with https:// (DoH) or tls:// (DoT)")

namespace Config

def parsedUpstreams (config : Config) : Except Error (List UpstreamConfig) :=
  config.upstream.urls.mapM UpstreamConfig.parse

def validate (isFile : Path → Bool) (config : Config) : Except Error Unit := do
  bailIf config.upstream.urls.isEmpty "config must define at least one entry in [upstream] urls"
  -- parsed for its errors only
  let _ ← config.parsedUpstreams
  bailIf (!isFile config.server.tlsCert)
    ("server.tls_cert does not point to a file: " ++ String.ofList config.server.tlsCert)
  bailIf (!isFile config.server.tlsKey)
    ("server.tls_key does not point to a file: " ++ String.ofList config.server.tlsKey)
  bailIf (config.server.dotPort == config.server.dohPort)
    "server.dot_port and server.doh_port must be different"
  -- the arena is allocated at once, so a limit keeps it from exhausting the memory
  bailIf (config.cache.enabled && decide (Cache.maxCacheBytes < config.cache.maxSizeBytes))
    "cache.max_size_bytes must be at most 1073741824 (1024 MiB)"
  bailIf (!config.blocklists.urls.isEmpty && config.blocklists.refreshIntervalSecs == 0)
    "blocklists.refresh_interval_secs must not be 0"
  bailIf (!config.whitelist.urls.isEmpty && config.whitelist.refreshIntervalSecs == 0)
    "whitelist.refresh_interval_secs must not be 0"

end Config

/-! ## The code outside -/

/-- The libraries a configuration is put through. -/
structure Env where
  /-- `toml::from_str::<Config>`, defaults filled in -/
  fromStr : Text → Option Config
  /-- `ServerName::try_from` -/
  serverName : Text → Option Text
  /-- `rustls_pemfile::certs` -/
  certs : Bytes → Option (List Bytes)
  /-- `rustls_pemfile::private_key` -/
  privateKey : Bytes → Option (Option Bytes)
  /-- `with_single_cert` -/
  withSingleCert : List Bytes → Bytes → Bool

/-- What the machine answers while listeners are being spawned. -/
structure Outside where
  /-- the HTTP client of the DoH upstreams can be built -/
  httpClient : Bool
  /-- `File::open`, with what is read from the file -/
  openFile : Path → Option Bytes

/-- `Config::load`: `file` is what its own read of the file gives. -/
def Config.load (env : Env) (path : Path) (file : Option Text) (isFile : Path → Bool) :
    Except Error Config := do
  let raw ← withContext ("failed to read config file at " ++ String.ofList path) file
  let config ← withContext ("failed to parse config file at " ++ String.ofList path)
    (env.fromStr raw)
  config.validate isFile
  .ok config

/-! ## Building the upstreams -/

inductive Backend where
  | doh (url : Text)
  | dot (host : Text) (port : Nat) (serverName : Text)
  deriving DecidableEq, Repr

/-- A `SingleUpstream` before it has answered anything. -/
structure BuiltUpstream where
  label : Text
  backend : Backend
  deriving DecidableEq, Repr

structure MultiUpstream where
  upstreams : List BuiltUpstream
  strategy : Strategy
  deriving DecidableEq, Repr

/-- One turn of the loop of `upstream::build`. A host that does not resolve is
left to the first connection. -/
def buildSingle (env : Env) : UpstreamConfig → Except Error BuiltUpstream
  | .dot host port tlsName => do
    -- the first place where the TLS name has to be one
    let serverName ← withContext ("invalid upstream tls_name: " ++ String.ofList tlsName)
      (env.serverName tlsName)
    .ok
      { label := "dot://".toList ++ host ++ ":".toList ++ (Nat.repr port).toList
        backend := .dot host port serverName }
  | .doh url => .ok { label := "doh://".toList ++ url, backend := .doh url }

/-- `upstream::build` -/
def buildUpstreams (env : Env) (os : Outside) (configs : List UpstreamConfig)
    (strategy : Strategy) : Except Error MultiUpstream := do
  bailIf (!os.httpClient) "failed to build upstream DoH HTTP client"
  let upstreams ← configs.mapM (buildSingle env)
  .ok { upstreams, strategy }

/-- What can fail in `AppState::build`. -/
def buildAppState (env : Env) (os : Outside) (config : Config) : Except Error MultiUpstream := do
  let upstreamConfigs ← config.parsedUpstreams
  buildUpstreams env os upstreamConfigs config.upstream.strategy

/-! ## Certificate and key -/

def loadCerts (env : Env) (os : Outside) (path : Path) : Except Error (List Bytes) := do
  let file ← withContext ("failed to open " ++ String.ofList path) (os.openFile path)
  let certs ← withContext ("failed to parse certificates from " ++ String.ofList path)
    (env.certs file)
  bailIf certs.isEmpty ("no certificates found in " ++ String.ofList path)
  .ok certs

def loadKey (env : Env) (os : Outside) (path : Path) : Except Error Bytes := do
  let file ← withContext ("failed to open " ++ String.ofList path) (os.openFile path)
  let key ← withContext ("failed to parse private key from " ++ String.ofList path)
    (env.privateKey file)
  withContext ("no private key found in " ++ String.ofList path) key

def loadServerConfig (env : Env) (os : Outside) (certPath keyPath : Path) :
    Except Error (List Bytes × Bytes) := do
  let certs ← loadCerts env os certPath
  let key ← loadKey env os keyPath
  bailIf (!env.withSingleCert certs key) "invalid TLS certificate/key pair"
  .ok (certs, key)

/-! ## The listeners -/

inductive ListenerName where
  | dot
  | doh
  deriving DecidableEq, Repr

structure Listener where
  name : ListenerName
  address : IpAddr
  port : Nat
  deriving DecidableEq, Repr

/-- The listeners of a configuration, in the order they are spawned. -/
def Config.listeners (config : Config) : List Listener :=
  [⟨.dot, config.server.bindAddress, config.server.dotPort⟩,
    ⟨.doh, config.server.bindAddress, config.server.dohPort⟩]

/-- `spawn_listeners`. The DoH listener loads the PEM files in its own task, so
what it finds there is not seen here. -/
def spawnListeners (env : Env) (os : Outside) (config : Config) :
    Except Error (List Listener) := do
  let _ ← buildAppState env os config
  let _ ← loadServerConfig env os config.server.tlsCert config.server.tlsKey
  .ok config.listeners

/-! ## What a validated configuration still needs -/

/-- The upstream entry names no DoT server, or one whose TLS name is a name. -/
def NamesServer (env : Env) (entry : Text) : Prop :=
  ∀ host port tlsName, UpstreamConfig.parse entry = .ok (.dot host port tlsName) →
    (env.serverName tlsName).isSome

/-- The files hold a certificate chain and the key that belongs to it. -/
def HoldsPair (env : Env) (os : Outside) (certPath keyPath : Path) : Prop :=
  ∃ certFile keyFile certs key,
    os.openFile certPath = some certFile ∧ env.certs certFile = some certs ∧ certs ≠ [] ∧
    os.openFile keyPath = some keyFile ∧ env.privateKey keyFile = some (some key) ∧
    env.withSingleCert certs key = true

/-- What neither parsing nor validation looks at. -/
structure BringsUp (env : Env) (os : Outside) (config : Config) : Prop where
  client : os.httpClient = true
  names : ∀ entry ∈ config.upstream.urls, NamesServer env entry
  pair : HoldsPair env os config.server.tlsCert config.server.tlsKey

@[simp] theorem withContext_eq_ok {α : Type} {context : Error} {x : Option α} {a : α} :
    withContext context x = .ok a ↔ x = some a := by
  cases x with
  | none | some => simp [withContext]

@[simp] theorem bailIf_eq_ok {condition : Bool} {error : Error} {u : Unit} :
    bailIf condition error = .ok u ↔ condition = false := by
  cases condition with
  | false => simp [bailIf]
  | true => simp [bailIf]

/-- A validated configuration parses its upstreams, and has some. -/
theorem validate_parses {isFile : Path → Bool} {config : Config}
    (h : config.validate isFile = .ok ()) :
    config.upstream.urls ≠ [] ∧ ∃ configs, config.parsedUpstreams = .ok configs := by
  unfold Config.validate at h
  obtain ⟨_, hSome, h⟩ := bind_eq_ok.mp h
  obtain ⟨configs, hConfigs, -⟩ := bind_eq_ok.mp h
  refine ⟨?_, configs, hConfigs⟩
  intro hNil
  rw [hNil] at hSome
  cases hSome

/-- A validated configuration has an enabled cache of at most 1 GiB. -/
theorem validate_cache {isFile : Path → Bool} {config : Config}
    (h : config.validate isFile = .ok ()) (hEnabled : config.cache.enabled = true) :
    config.cache.maxSizeBytes ≤ Cache.maxCacheBytes := by
  unfold Config.validate at h
  -- five checks come before that of the cache
  obtain ⟨_, -, h⟩ := bind_eq_ok.mp h
  obtain ⟨_, -, h⟩ := bind_eq_ok.mp h
  obtain ⟨_, -, h⟩ := bind_eq_ok.mp h
  obtain ⟨_, -, h⟩ := bind_eq_ok.mp h
  obtain ⟨_, -, h⟩ := bind_eq_ok.mp h
  obtain ⟨_, hCache, -⟩ := bind_eq_ok.mp h
  rw [bailIf_eq_ok, hEnabled, Bool.true_and, decide_eq_false_iff_not] at hCache
  exact Nat.le_of_not_lt hCache

theorem buildSingle_eq_ok {env : Env} {entry : Text} {c : UpstreamConfig}
    (hParse : UpstreamConfig.parse entry = .ok c) :
    (∃ built, buildSingle env c = .ok built) ↔ NamesServer env entry := by
  cases c with
  | doh url =>
    constructor
    · intro _ host port tlsName h
      rw [hParse] at h
      cases h
    · intro _
      exact ⟨_, rfl⟩
  | dot host port tlsName =>
    constructor
    · rintro ⟨built, hBuilt⟩ host' port' tlsName' h
      rw [hParse] at h
      cases h
      obtain ⟨serverName, hName, -⟩ := bind_eq_ok.mp hBuilt
      rw [withContext_eq_ok.mp hName]
      rfl
    · intro hNames
      obtain ⟨serverName, hName⟩ := Option.isSome_iff_exists.mp (hNames host port tlsName hParse)
      exact ⟨_, bind_eq_ok.mpr ⟨serverName, withContext_eq_ok.mpr hName, rfl⟩⟩

/-- The upstreams are built exactly when every entry names a server. -/
theorem buildAll_eq_ok {env : Env} {entries : List Text} {configs : List UpstreamConfig}
    (hParse : entries.mapM UpstreamConfig.parse = .ok configs) :
    (∃ built, configs.mapM (buildSingle env) = .ok built) ↔
      ∀ entry ∈ entries, NamesServer env entry := by
  induction entries generalizing configs with
  | nil =>
    rw [List.mapM_nil] at hParse
    cases hParse
    simp
  -- the loop stops at the first entry that does not name a server
  | cons entry entries ih =>
    rw [List.mapM_cons] at hParse
    obtain ⟨c, hc, hParse⟩ := bind_eq_ok.mp hParse
    obtain ⟨cs, hcs, hParse⟩ := bind_eq_ok.mp hParse
    cases hParse
    rw [List.forall_mem_cons, ← ih hcs, ← buildSingle_eq_ok hc]
    constructor
    · rintro ⟨all, hAll⟩
      rw [List.mapM_cons] at hAll
      obtain ⟨built, hBuilt, hAll⟩ := bind_eq_ok.mp hAll
      obtain ⟨rest, hRest, -⟩ := bind_eq_ok.mp hAll
      exact ⟨⟨built, hBuilt⟩, rest, hRest⟩
    · rintro ⟨⟨built, hBuilt⟩, rest, hRest⟩
      refine ⟨built :: rest, ?_⟩
      rw [List.mapM_cons, hBuilt, hRest]
      rfl

theorem buildAppState_eq_ok {env : Env} {os : Outside} {config : Config}
    {configs : List UpstreamConfig} (hParse : config.parsedUpstreams = .ok configs) :
    (∃ state, buildAppState env os config = .ok state) ↔
      os.httpClient = true ∧ ∀ entry ∈ config.upstream.urls, NamesServer env entry := by
  rw [buildAppState, hParse, ok_bind, ← buildAll_eq_ok hParse]
  constructor
  · rintro ⟨state, h⟩
    obtain ⟨_, hClient, h⟩ := bind_eq_ok.mp h
    obtain ⟨built, hBuilt, -⟩ := bind_eq_ok.mp h
    exact ⟨by simpa using hClient, built, hBuilt⟩
  · rintro ⟨hClient, built, hBuilt⟩
    exact ⟨⟨built, config.upstream.strategy⟩,
      bind_eq_ok.mpr ⟨(), by simp [hClient], bind_eq_ok.mpr ⟨built, hBuilt, rfl⟩⟩⟩

theorem loadServerConfig_eq_ok {env : Env} {os : Outside} {certPath keyPath : Path} :
    (∃ pair, loadServerConfig env os certPath keyPath = .ok pair) ↔
      HoldsPair env os certPath keyPath := by
  constructor
  · rintro ⟨pair, h⟩
    obtain ⟨certs, hCerts, h⟩ := bind_eq_ok.mp h
    obtain ⟨key, hKey, h⟩ := bind_eq_ok.mp h
    obtain ⟨_, hPair, -⟩ := bind_eq_ok.mp h
    -- both files are opened, parsed and not empty
    obtain ⟨certFile, hCertFile, hCerts⟩ := bind_eq_ok.mp hCerts
    obtain ⟨certs', hParsed, hCerts⟩ := bind_eq_ok.mp hCerts
    obtain ⟨_, hSome, hCerts⟩ := bind_eq_ok.mp hCerts
    cases hCerts
    obtain ⟨keyFile, hKeyFile, hKey⟩ := bind_eq_ok.mp hKey
    obtain ⟨key', hKey', hKey⟩ := bind_eq_ok.mp hKey
    rw [withContext_eq_ok] at hCertFile hParsed hKeyFile hKey' hKey
    subst hKey
    refine ⟨certFile, keyFile, certs, key, hCertFile, hParsed, ?_, hKeyFile, hKey', ?_⟩
    · simpa using hSome
    · simpa using hPair
  · rintro ⟨certFile, keyFile, certs, key, hCertFile, hParsed, hSome, hKeyFile, hKey, hPair⟩
    refine ⟨(certs, key), ?_⟩
    have hCerts : loadCerts env os certPath = .ok certs := by
      simp [loadCerts, hCertFile, hParsed, withContext, bailIf, hSome]
    have hLoaded : loadKey env os keyPath = .ok key := by
      simp [loadKey, hKeyFile, hKey, withContext]
    simp [loadServerConfig, hCerts, hLoaded, bailIf, hPair]

/-- A validated configuration comes up exactly when the things that validation
does not look at are in order. -/
theorem spawnListeners_eq_ok {env : Env} {os : Outside} {isFile : Path → Bool} {config : Config}
    (hValid : config.validate isFile = .ok ()) {listeners : List Listener} :
    spawnListeners env os config = .ok listeners ↔
      listeners = config.listeners ∧ BringsUp env os config := by
  obtain ⟨-, configs, hParse⟩ := validate_parses hValid
  have hState := @buildAppState_eq_ok env os config configs hParse
  constructor
  · intro h
    obtain ⟨state, hBuilt, h⟩ := bind_eq_ok.mp h
    obtain ⟨pair, hPair, h⟩ := bind_eq_ok.mp h
    cases h
    obtain ⟨hClient, hNames⟩ := hState.mp ⟨state, hBuilt⟩
    exact ⟨rfl, hClient, hNames, loadServerConfig_eq_ok.mp ⟨pair, hPair⟩⟩
  · rintro ⟨rfl, hUp⟩
    obtain ⟨state, hBuilt⟩ := hState.mpr ⟨hUp.client, hUp.names⟩
    obtain ⟨pair, hPair⟩ := loadServerConfig_eq_ok.mpr hUp.pair
    exact bind_eq_ok.mpr ⟨state, hBuilt, bind_eq_ok.mpr ⟨pair, hPair, rfl⟩⟩

end DnsRs.Reload
