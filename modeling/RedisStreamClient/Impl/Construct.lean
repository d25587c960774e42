import RedisStreamClient.Impl.Lifecycle
import RedisStreamClient.Impl.History
import RedisStreamClient.Impl.Options

/-!
# The constructor

`NewRedisStreamClient` of `impl/relredis.go` with its options (`impl/opts.go`,
`impl/recovery_config.go`).  An option is a function in the source; since the fields of the client
are not exported, those that exist are the ones listed in `RecoverableRedisOption`.  The
environment variables are parameters, loggers and metrics recorders are left out.

**What the constructor does** (`newRedisStreamClient_eq`): it succeeds exactly if the pod has a
name or an address and every option passes its own check.  Then the client has the defaults,
overridden by the last option of each kind.  The order of options of different kinds does not
matter, although `WithLBSIdleTime` looks at the client that it is given.

**What every client has** (`newRedisStreamClient_sound`): configurations that pass their checks, a
DLQ, and channels whose sizes are not all those that were asked for.  `WithKspChanSize` changes the
buffer of the subscriptions only, and `WithOutputChanSize` leaves the queue of the broker alone.
Nothing keeps an option from making the LBS the DLQ; clients of one service whose options do not
are a `Service`.
-/

namespace RedisStreamClient

namespace Configs

/-- `configs.RedisConsumerPrefix`. -/
def redisConsumerPrefix : String := "redis-consumer-"

/-- `configs.DefaultHBInterval`. -/
def defaultHBInterval : Int := 2000000000

/-- `configs.DefaultLBSIdleTime`. -/
def defaultLBSIdleTime : Int := 20 * defaultHBInterval

/-- `configs.DefaultLBSRecoveryCount`. -/
def defaultLBSRecoveryCount : Int := 1000

/-- `configs.DefaultKspChanTimeout`. -/
def defaultKspChanTimeout : Int := 600000000000

/-- `configs.DefaultOutputChanSize`. -/
def defaultOutputChanSize : Nat := 500

/-- `configs.DLQSuffix`. -/
def dlqSuffix : String := "-dlq"

end Configs

namespace Impl

open RedisStreamClient.Lib RedisStreamClient.Errs RedisStreamClient.Notifs
open RedisStreamClient.Impl.Lifecycle (ClusterMode Config)

/-! ## Options -/

/-- Why a client cannot be constructed. -/
inductive ConfigErr
  | podConfigMissing
  | invalidIdleTime
  | invalidRecoveryCount
  | invalidKspChanSize
  | invalidKspChanTimeout
  | invalidOutputChanSize
  | /-- A configuration does not pass its check. -/
    invalid (err : Err)

/-- `Error()`. -/
def ConfigErr.error : ConfigErr → String
  | .podConfigMissing => "pod name or pod IP is missing"
  | .invalidIdleTime =>
    "invalid heartbeat interval value: must be >0 and <2*heartbeat interval"
  | .invalidRecoveryCount => "invalid recovery count: must be non-zero positive integer"
  | .invalidKspChanSize => "invalid ksp chan size: must be non-zero positive integer"
  | .invalidKspChanTimeout => "invalid ksp chan timeout: must be >= 1 min"
  | .invalidOutputChanSize => "invalid output chan size: must be non-zero positive integer"
  | .invalid err => err.error

/-- A `RecoverableRedisStreamClient`, as far as its constructor sets it. -/
structure RecoverableRedisStreamClient where
  /-- What its goroutines and calls read. -/
  config : Config
  /-- `lbsIdleTime`. -/
  lbsIdleTime : Int
  /-- `lbsRecoveryCount`. -/
  lbsRecoveryCount : Int
  /-- `kspChanSize`. -/
  kspChanSize : Int
  /-- `kspChanTimeout`. -/
  kspChanTimeout : Int
  /-- The capacity of `kspChan`. -/
  kspChanCap : Int
  /-- The capacity of `outputChan`. -/
  outputChanCap : Int
  /-- `notificationBroker`, which is made last. -/
  notificationBroker : Option Broker

namespace RecoverableRedisStreamClient

/-- Replace what the goroutines of the LBS read. -/
def setClient (r : RecoverableRedisStreamClient) (c : Client) : RecoverableRedisStreamClient :=
  { r with config := { r.config with client := c } }

/-- An option that sets a field if a check passes. -/
def guarded (bad : Bool) (err : ConfigErr)
    (set : RecoverableRedisStreamClient → RecoverableRedisStreamClient)
    (r : RecoverableRedisStreamClient) : Except ConfigErr RecoverableRedisStreamClient :=
  if bad then .error err else .ok (set r)

theorem guarded_eq (p : Prop) [Decidable p] (err : ConfigErr)
    (set : RecoverableRedisStreamClient → RecoverableRedisStreamClient)
    (r : RecoverableRedisStreamClient) :
    guarded p err set r = (if p then some err else none).elim (.ok (set r)) .error := by
  by_cases hp : p <;> simp [guarded, hp]

/-- `WithLBSIdleTime`. -/
def withLBSIdleTime (idleTime : Int) (r : RecoverableRedisStreamClient) :
    Except ConfigErr RecoverableRedisStreamClient :=
  guarded (idleTime = 0 ∨ idleTime < wrap64 (2 * r.config.client.hbInterval)) .invalidIdleTime
    (fun r ↦ { r with lbsIdleTime := idleTime }) r

/-- `WithLBSRecoveryCount`. -/
def withLBSRecoveryCount (count : Int) :
    RecoverableRedisStreamClient → Except ConfigErr RecoverableRedisStreamClient :=
  guarded (count ≤ 0) .invalidRecoveryCount fun r ↦ { r with lbsRecoveryCount := count }

/-- `WithKspChanSize`. -/
def withKspChanSize (size : Int) :
    RecoverableRedisStreamClient → Except ConfigErr RecoverableRedisStreamClient :=
  guarded (size ≤ 0) .invalidKspChanSize fun r ↦ { r with kspChanSize := size }

/-- `WithKspChanTimeout`. -/
def withKspChanTimeout (timeout : Int) :
    RecoverableRedisStreamClient → Except ConfigErr RecoverableRedisStreamClient :=
  guarded (timeout < 60000000000) .invalidKspChanTimeout
    fun r ↦ { r with kspChanTimeout := timeout }

/-- `WithForceConfigOverride`. -/
def withForceConfigOverride (r : RecoverableRedisStreamClient) :
    Except ConfigErr RecoverableRedisStreamClient :=
  .ok { r with config := { r.config with forceOverrideConfig := true } }

/-- `WithOutputChanSize`. -/
def withOutputChanSize (size : Int) :
    RecoverableRedisStreamClient → Except ConfigErr RecoverableRedisStreamClient :=
  guarded (size ≤ 0) .invalidOutputChanSize fun r ↦ { r with outputChanCap := size }

/-- `WithRetryConfig`. -/
def withRetryConfig (config : RetryConfig) (r : RecoverableRedisStreamClient) :
    Except ConfigErr RecoverableRedisStreamClient :=
  ((r.config.client.withRetryConfig config).mapError .invalid).map r.setClient

/-- `WithClusterMode`. -/
def withClusterMode (mode : ClusterMode) (r : RecoverableRedisStreamClient) :
    Except ConfigErr RecoverableRedisStreamClient :=
  .ok { r with config := { r.config with clusterMode := mode } }

/-- `WithRecoveryConfig`. -/
def withRecoveryConfig (config : RecoveryConfig) (r : RecoverableRedisStreamClient) :
    Except ConfigErr RecoverableRedisStreamClient :=
  ((r.config.client.withRecoveryConfig config).mapError .invalid).map r.setClient

end RecoverableRedisStreamClient

/-- A `RecoverableRedisOption`. -/
inductive RecoverableRedisOption
  | lbsIdleTime (idleTime : Int)
  | lbsRecoveryCount (count : Int)
  | kspChanSize (size : Int)
  | kspChanTimeout (timeout : Int)
  | forceConfigOverride
  | outputChanSize (size : Int)
  | retryConfig (config : RetryConfig)
  | clusterMode (mode : ClusterMode)
  | recoveryConfig (config : RecoveryConfig)

open RecoverableRedisStreamClient in
/-- What an option does to a client. -/
def RecoverableRedisOption.apply : RecoverableRedisOption → RecoverableRedisStreamClient →
    Except ConfigErr RecoverableRedisStreamClient
  | .lbsIdleTime idleTime => withLBSIdleTime idleTime
  | .lbsRecoveryCount count => withLBSRecoveryCount count
  | .kspChanSize size => withKspChanSize size
  | .kspChanTimeout timeout => withKspChanTimeout timeout
  | .forceConfigOverride => withForceConfigOverride
  | .outputChanSize size => withOutputChanSize size
  | .retryConfig config => withRetryConfig config
  | .clusterMode mode => withClusterMode mode
  | .recoveryConfig config => withRecoveryConfig config

/-! ## The constructor -/

/-- The client before any option, of the consumer `consumerID`. -/
def RecoverableRedisStreamClient.default (consumerID serviceName : String)
    (isClusterClient : Bool) : RecoverableRedisStreamClient where
  config :=
    { client :=
        { serviceName := serviceName, consumerID := consumerID
          hbInterval := Configs.defaultHBInterval
          maxRetries := Configs.defaultMaxRetries
          initialRetryDelay := Configs.defaultInitialRetryDelay
          maxRetryDelay := Configs.defaultMaxRetryDelay
          recoveryConfig := defaultRecoveryConfig }
      clusterMode := .singleShard
      isClusterClient := isClusterClient
      forceOverrideConfig := false }
  lbsIdleTime := Configs.defaultLBSIdleTime
  lbsRecoveryCount := Configs.defaultLBSRecoveryCount
  kspChanSize := Configs.defaultKspChanSize
  kspChanTimeout := Configs.defaultKspChanTimeout
  kspChanCap := Configs.defaultKspChanSize
  outputChanCap := Configs.defaultOutputChanSize
  notificationBroker := none

/-- The DLQ of a client that was given none. -/
def Client.defaultDLQ (r : Client) : Client :=
  if r.recoveryConfig.dlqStream = "" then
    { r with
      recoveryConfig := { r.recoveryConfig with dlqStream := r.lbsName ++ Configs.dlqSuffix } }
  else r

/-- The end of the constructor: the DLQ and the broker. -/
def RecoverableRedisStreamClient.finish (r : RecoverableRedisStreamClient) :
    RecoverableRedisStreamClient :=
  { r.setClient r.config.client.defaultDLQ with
    notificationBroker := some (.new Configs.defaultOutputChanSize) }

/-- What identifies the pod: its name, or else its address. -/
def podID (podName podIP : String) : String := if 0 < podName.length then podName else podIP

/-- `NewRedisStreamClient`, with the environment variables `POD_NAME` and `POD_IP`. -/
def newRedisStreamClient (podName podIP : String) (isClusterClient : Bool) (serviceName : String)
    (opts : List RecoverableRedisOption) : Except ConfigErr RecoverableRedisStreamClient := do
  if podName = "" ∧ podIP = "" then
    throw .podConfigMissing
  else
    let consumerID := Configs.redisConsumerPrefix ++ podID podName podIP
    let r ← opts.foldlM (fun r opt ↦ opt.apply r) (.default consumerID serviceName isClusterClient)
    return r.finish

/-! ## What the options amount to -/

namespace RecoverableRedisOption

/-- The error of an option's own check.  That of the idle time is against the default interval,
which no option changes. -/
def refusal : RecoverableRedisOption → Option ConfigErr
  | .lbsIdleTime idleTime =>
    if idleTime < 2 * Configs.defaultHBInterval then some .invalidIdleTime else none
  | .lbsRecoveryCount count => if count ≤ 0 then some .invalidRecoveryCount else none
  | .kspChanSize size => if size ≤ 0 then some .invalidKspChanSize else none
  | .kspChanTimeout timeout =>
    if timeout < 60000000000 then some .invalidKspChanTimeout else none
  | .outputChanSize size => if size ≤ 0 then some .invalidOutputChanSize else none
  | .retryConfig config => config.validate.map .invalid
  | .recoveryConfig config => config.validate.map .invalid
  | .forceConfigOverride | .clusterMode _ => none

/-- What an option that passes its check does. -/
def set (opt : RecoverableRedisOption) (r : RecoverableRedisStreamClient) :
    RecoverableRedisStreamClient :=
  match opt with
  | .lbsIdleTime idleTime => { r with lbsIdleTime := idleTime }
  | .lbsRecoveryCount count => { r with lbsRecoveryCount := count }
  | .kspChanSize size => { r with kspChanSize := size }
  | .kspChanTimeout timeout => { r with kspChanTimeout := timeout }
  | .forceConfigOverride => { r with config := { r.config with forceOverrideConfig := true } }
  | .outputChanSize size => { r with outputChanCap := size }
  | .retryConfig config => r.setClient { r.config.client with
      maxRetries := config.maxRetries
      initialRetryDelay := config.initialRetryDelay
      maxRetryDelay := config.maxRetryDelay }
  | .clusterMode mode => { r with config := { r.config with clusterMode := mode } }
  | .recoveryConfig config => r.setClient { r.config.client with recoveryConfig := config }

theorem hbInterval_set (opt : RecoverableRedisOption) (r : RecoverableRedisStreamClient) :
    (opt.set r).config.client.hbInterval = r.config.client.hbInterval := by
  cases opt <;> rfl

open RecoverableRedisStreamClient in
/-- On a client with the default interval, an option fails with its own error or sets its
field. -/
theorem apply_eq {r : RecoverableRedisStreamClient}
    (h : r.config.client.hbInterval = Configs.defaultHBInterval) (opt : RecoverableRedisOption) :
    opt.apply r = opt.refusal.elim (.ok (opt.set r)) .error := by
  cases opt with
  | lbsIdleTime idleTime =>
    have hbad : (idleTime = 0 ∨ idleTime < wrap64 (2 * r.config.client.hbInterval)) =
        (idleTime < 2 * Configs.defaultHBInterval) := by
      rw [h, show wrap64 (2 * Configs.defaultHBInterval) = 2 * Configs.defaultHBInterval by decide,
        eq_iff_iff, Configs.defaultHBInterval]
      omega
    simp only [apply, withLBSIdleTime, hbad, guarded_eq]
    rfl
  | retryConfig config =>
    rw [apply, withRetryConfig, Client.withRetryConfig, refusal]
    cases config.validate <;> rfl
  | recoveryConfig config =>
    rw [apply, withRecoveryConfig, Client.withRecoveryConfig, refusal]
    cases config.validate <;> rfl
  | lbsRecoveryCount count =>
    rw [apply, withLBSRecoveryCount, guarded_eq]
    rfl
  | kspChanSize size =>
    rw [apply, withKspChanSize, guarded_eq]
    rfl
  | kspChanTimeout timeout =>
    rw [apply, withKspChanTimeout, guarded_eq]
    rfl
  | outputChanSize size =>
    rw [apply, withOutputChanSize, guarded_eq]
    rfl
  | forceConfigOverride => rfl
  | clusterMode mode => rfl

/-- Options one after the other: the first error, or all fields set. -/
theorem foldlM_apply (opts : List RecoverableRedisOption) {r : RecoverableRedisStreamClient}
    (h : r.config.client.hbInterval = Configs.defaultHBInterval) :
    opts.foldlM (fun r opt ↦ opt.apply r) r =
      (opts.findSome? refusal).elim (.ok (opts.foldl (fun r opt ↦ opt.set r) r)) .error := by
  induction opts generalizing r with
  | nil => rfl
  | cons opt opts ih =>
    rw [List.foldlM_cons, apply_eq h, List.findSome?_cons]
    cases opt.refusal with
    | some err => rfl
    | none => exact ih ((hbInterval_set opt r).trans h)

/-- What the options say about a setting: the last one that says anything. -/
def setting {α : Type} (f : RecoverableRedisOption → Option α) (opts : List RecoverableRedisOption)
    (default : α) : α :=
  (opts.reverse.findSome? f).getD default

theorem setting_cons {α : Type} (f : RecoverableRedisOption → Option α)
    (opt : RecoverableRedisOption) (opts : List RecoverableRedisOption) (default : α) :
    setting f (opt :: opts) default = setting f opts ((f opt).getD default) := by
  rw [setting, setting, List.reverse_cons, List.findSome?_append]
  cases opts.reverse.findSome? f <;> cases hf : f opt <;> simp [hf]

/-- A setting is the default or given by an option. -/
theorem setting_cases {α : Type} (f : RecoverableRedisOption → Option α)
    (opts : List RecoverableRedisOption) (default : α) :
    setting f opts default = default ∨ ∃ opt ∈ opts, f opt = some (setting f opts default) := by
  rw [setting]
  cases hlast : opts.reverse.findSome? f with
  | none => exact .inl rfl
  | some a =>
    obtain ⟨opt, hmem, hopt⟩ := List.exists_of_findSome?_eq_some hlast
    exact .inr ⟨opt, List.mem_reverse.1 hmem, hopt⟩

/-- What holds of the default and of every value that passes its check holds of the setting. -/
theorem setting_of_refusal {α : Type} {f : RecoverableRedisOption → Option α} {P : α → Prop}
    (h : ∀ opt a, f opt = some a → opt.refusal = none → P a) {opts : List RecoverableRedisOption}
    (hopts : opts.findSome? refusal = none) {default : α} (hdefault : P default) :
    P (setting f opts default) := by
  obtain heq | ⟨opt, hmem, hopt⟩ := setting_cases f opts default
  · rwa [heq]
  · exact h opt _ hopt (List.findSome?_eq_none_iff.1 hopts opt hmem)

/-! The settings that options are about. -/

/-- The idle time that an option gives. -/
def lbsIdleTime? : RecoverableRedisOption → Option Int
  | .lbsIdleTime idleTime => some idleTime
  | _ => none

/-- The recovery count that an option gives. -/
def lbsRecoveryCount? : RecoverableRedisOption → Option Int
  | .lbsRecoveryCount count => some count
  | _ => none

/-- The size of the subscriptions' channels that an option gives. -/
def kspChanSize? : RecoverableRedisOption → Option Int
  | .kspChanSize size => some size
  | _ => none

/-- The timeout of the subscriptions' channels that an option gives. -/
def kspChanTimeout? : RecoverableRedisOption → Option Int
  | .kspChanTimeout timeout => some timeout
  | _ => none

/-- Whether an option says to override the configuration of Redis. -/
def forceConfigOverride? : RecoverableRedisOption → Option Bool
  | .forceConfigOverride => some true
  | _ => none

/-- The size of the output channel that an option gives. -/
def outputChanSize? : RecoverableRedisOption → Option Int
  | .outputChanSize size => some size
  | _ => none

/-- The retry configuration that an option gives. -/
def retryConfig? : RecoverableRedisOption → Option RetryConfig
  | .retryConfig config => some config
  | _ => none

/-- The mode that an option gives. -/
def clusterMode? : RecoverableRedisOption → Option ClusterMode
  | .clusterMode mode => some mode
  | _ => none

/-- The recovery configuration that an option gives. -/
def recoveryConfig? : RecoverableRedisOption → Option RecoveryConfig
  | .recoveryConfig config => some config
  | _ => none

end RecoverableRedisOption

open RecoverableRedisOption

namespace RecoverableRedisStreamClient

/-- A client with each setting as the last option of its kind has it. -/
def override (r : RecoverableRedisStreamClient) (opts : List RecoverableRedisOption) :
    RecoverableRedisStreamClient :=
  let retry := setting retryConfig? opts ⟨r.config.client.maxRetries,
    r.config.client.initialRetryDelay, r.config.client.maxRetryDelay⟩
  { r with
    config :=
      { r.config with
        client :=
          { r.config.client with
            maxRetries := retry.maxRetries
            initialRetryDelay := retry.initialRetryDelay
            maxRetryDelay := retry.maxRetryDelay
            recoveryConfig := setting recoveryConfig? opts r.config.client.recoveryConfig }
        clusterMode := setting clusterMode? opts r.config.clusterMode
        forceOverrideConfig := setting forceConfigOverride? opts r.config.forceOverrideConfig }
    lbsIdleTime := setting lbsIdleTime? opts r.lbsIdleTime
    lbsRecoveryCount := setting lbsRecoveryCount? opts r.lbsRecoveryCount
    kspChanSize := setting kspChanSize? opts r.kspChanSize
    kspChanTimeout := setting kspChanTimeout? opts r.kspChanTimeout
    outputChanCap := setting outputChanSize? opts r.outputChanCap }

/-- Of two options of a kind the later one counts, and options of different kinds commute. -/
theorem foldl_set (opts : List RecoverableRedisOption) (r : RecoverableRedisStreamClient) :
    opts.foldl (fun r opt ↦ opt.set r) r = r.override opts := by
  induction opts generalizing r with
  | nil => rfl
  | cons opt opts ih =>
    rw [List.foldl_cons, ih]
    simp only [override, setting_cons]
    cases opt <;> rfl

end RecoverableRedisStreamClient

/-! ## The results -/

/-- The constructor of a pod that has a name or an address. -/
theorem newRedisStreamClient_of_pod {podName podIP : String} (h : ¬ (podName = "" ∧ podIP = ""))
    (isClusterClient : Bool) (serviceName : String) (opts : List RecoverableRedisOption) :
    newRedisStreamClient podName podIP isClusterClient serviceName opts =
      (opts.findSome? refusal).elim
        (.ok ((RecoverableRedisStreamClient.default
          (Configs.redisConsumerPrefix ++ podID podName podIP) serviceName
            isClusterClient).override opts).finish) .error := by
  rw [newRedisStreamClient, if_neg h]
  dsimp only
  rw [foldlM_apply opts (by rfl), RecoverableRedisStreamClient.foldl_set]
  cases opts.findSome? refusal <;> rfl

/-- **The constructor.**  It fails if the pod has neither a name nor an address, otherwise with the
error of the first option that does not pass its own check.  If all pass, the client has the
defaults, overridden by the last option of each kind. -/
theorem newRedisStreamClient_eq (podName podIP : String) (isClusterClient : Bool)
    (serviceName : String) (opts : List RecoverableRedisOption) :
    newRedisStreamClient podName podIP isClusterClient serviceName opts =
      if podName = "" ∧ podIP = "" then .error .podConfigMissing
      else (opts.findSome? refusal).elim
        (.ok ((RecoverableRedisStreamClient.default
          (Configs.redisConsumerPrefix ++ podID podName podIP) serviceName
            isClusterClient).override opts).finish) .error := by
  split_ifs with hmissing
  · rw [newRedisStreamClient, if_pos hmissing]
    rfl
  · exact newRedisStreamClient_of_pod hmissing isClusterClient serviceName opts

/-- A constructed client comes from a pod and options that pass their checks. -/
theorem newRedisStreamClient_eq_ok {podName podIP : String} {isClusterClient : Bool}
    {serviceName : String} {opts : List RecoverableRedisOption} {r : RecoverableRedisStreamClient}
    (h : newRedisStreamClient podName podIP isClusterClient serviceName opts = .ok r) :
    opts.findSome? refusal = none ∧
      r = ((RecoverableRedisStreamClient.default
        (Configs.redisConsumerPrefix ++ podID podName podIP) serviceName
          isClusterClient).override opts).finish := by
  by_cases hmissing : podName = "" ∧ podIP = ""
  · rw [newRedisStreamClient, if_pos hmissing] at h
    cases h
  · rw [newRedisStreamClient_of_pod hmissing] at h
    cases hopts : opts.findSome? refusal with
    | some err =>
      rw [hopts] at h
      cases h
    | none =>
      rw [hopts] at h
      exact ⟨rfl, (Except.ok.inj h).symm⟩

/-- A client that the code can run with. -/
structure RecoverableRedisStreamClient.Sound (r : RecoverableRedisStreamClient) : Prop where
  /-- Reading the LBS backs off as a valid configuration says. -/
  retry : (RetryConfig.mk r.config.client.maxRetries r.config.client.initialRetryDelay
    r.config.client.maxRetryDelay).validate = none
  /-- The scan has a valid configuration. -/
  recovery : r.config.client.recoveryConfig.validate = none
  /-- There is a DLQ. -/
  dlqStream : r.config.client.recoveryConfig.dlqStream ≠ ""
  /-- The heartbeat is the default one. -/
  hbInterval : r.config.client.hbInterval = Configs.defaultHBInterval
  /-- Two heartbeats are missed before an entry is idle. -/
  lbsIdleTime : 2 * r.config.client.hbInterval ≤ r.lbsIdleTime
  /-- A positive number of entries is recovered. -/
  lbsRecoveryCount : 0 < r.lbsRecoveryCount
  /-- Subscriptions are buffered. -/
  kspChanSize : 0 < r.kspChanSize
  /-- A message waits a minute at least. -/
  kspChanTimeout : 60000000000 ≤ r.kspChanTimeout
  /-- The output channel is buffered. -/
  outputChanCap : 0 < r.outputChanCap
  /-- The channel of all subscriptions has the default size. -/
  kspChanCap : r.kspChanCap = Configs.defaultKspChanSize
  /-- The queue of the broker has the default size, and is empty. -/
  notificationBroker : r.notificationBroker = some (.new Configs.defaultOutputChanSize)

/-- Only the DLQ of the client changes. -/
theorem Client.defaultDLQ_eq (r : Client) : r.defaultDLQ =
    { r with
      recoveryConfig := { r.recoveryConfig with
        dlqStream :=
          if r.recoveryConfig.dlqStream = "" then r.lbsName ++ Configs.dlqSuffix
          else r.recoveryConfig.dlqStream } } := by
  rw [defaultDLQ]
  split_ifs <;> rfl

/-- The service of a constructed client. -/
theorem RecoverableRedisStreamClient.serviceName_finish (consumerID serviceName : String)
    (isClusterClient : Bool) (opts : List RecoverableRedisOption) :
    ((RecoverableRedisStreamClient.default consumerID serviceName isClusterClient).override
      opts).finish.config.client.serviceName = serviceName := by
  rw [finish, Client.defaultDLQ_eq]
  rfl

/-- The DLQ of a constructed client. -/
theorem RecoverableRedisStreamClient.dlqStream_finish (consumerID serviceName : String)
    (isClusterClient : Bool) (opts : List RecoverableRedisOption) :
    ((RecoverableRedisStreamClient.default consumerID serviceName isClusterClient).override
      opts).finish.config.client.recoveryConfig.dlqStream =
      if (setting recoveryConfig? opts defaultRecoveryConfig).dlqStream = "" then
        serviceName ++ Configs.inputSuffix ++ Configs.dlqSuffix
      else (setting recoveryConfig? opts defaultRecoveryConfig).dlqStream := by
  rw [finish, Client.defaultDLQ_eq]
  rfl

/-- Options that pass their checks leave a sound client. -/
theorem RecoverableRedisStreamClient.sound_finish {opts : List RecoverableRedisOption}
    (hopts : opts.findSome? refusal = none) (consumerID serviceName : String)
    (isClusterClient : Bool) :
    ((RecoverableRedisStreamClient.default consumerID serviceName isClusterClient).override
      opts).finish.Sound := by
  have hretry : (setting retryConfig? opts defaultRetryConfig).validate = none :=
    setting_of_refusal (f := retryConfig?)
      (P := fun rc : RetryConfig ↦ rc.validate = none)
      (fun opt a ha hr ↦ by cases opt <;> simp_all [retryConfig?, refusal]) hopts (by rfl)
  have hrecovery : (setting recoveryConfig? opts defaultRecoveryConfig).validate = none :=
    setting_of_refusal (f := recoveryConfig?)
      (P := fun rc : RecoveryConfig ↦ rc.validate = none)
      (fun opt a ha hr ↦ by cases opt <;> simp_all [recoveryConfig?, refusal]) hopts (by rfl)
  have hidle : 2 * Configs.defaultHBInterval ≤
      setting lbsIdleTime? opts Configs.defaultLBSIdleTime :=
    setting_of_refusal (f := lbsIdleTime?)
      (P := fun d ↦ 2 * Configs.defaultHBInterval ≤ d)
      (fun opt a ha hr ↦ by cases opt <;> grind [lbsIdleTime?, refusal]) hopts (by decide)
  have hcount : 0 < setting lbsRecoveryCount? opts Configs.defaultLBSRecoveryCount :=
    setting_of_refusal (f := lbsRecoveryCount?)
      (P := fun n ↦ 0 < n)
      (fun opt a ha hr ↦ by cases opt <;> grind [lbsRecoveryCount?, refusal]) hopts (by decide)
  have hsize : 0 < setting kspChanSize? opts Configs.defaultKspChanSize :=
    setting_of_refusal (f := kspChanSize?)
      (P := fun n ↦ 0 < n)
      (fun opt a ha hr ↦ by cases opt <;> grind [kspChanSize?, refusal]) hopts (by decide)
  have htimeout : 60000000000 ≤ setting kspChanTimeout? opts Configs.defaultKspChanTimeout :=
    setting_of_refusal (f := kspChanTimeout?)
      (P := fun d ↦ 60000000000 ≤ d)
      (fun opt a ha hr ↦ by cases opt <;> grind [kspChanTimeout?, refusal]) hopts (by decide)
  have hout : 0 < setting outputChanSize? opts Configs.defaultOutputChanSize :=
    setting_of_refusal (f := outputChanSize?)
      (P := fun n ↦ 0 < n)
      (fun opt a ha hr ↦ by cases opt <;> grind [outputChanSize?, refusal]) hopts (by decide)
  have hdlq : ((RecoverableRedisStreamClient.default consumerID serviceName
      isClusterClient).override opts).finish.config.client.recoveryConfig.dlqStream ≠ "" := by
    rw [dlqStream_finish]
    split_ifs with hempty
    · simp [Configs.dlqSuffix]
    · exact hempty
  rw [finish, Client.defaultDLQ_eq] at hdlq ⊢
  exact ⟨hretry, hrecovery, hdlq, rfl, hidle, hcount, hsize, htimeout, hout, rfl, rfl⟩

/-- Only an option can make the LBS the DLQ. -/
theorem RecoverableRedisStreamClient.exists_of_dlqStream_eq {opts : List RecoverableRedisOption}
    {consumerID serviceName : String} {isClusterClient : Bool}
    (h : ((RecoverableRedisStreamClient.default consumerID serviceName isClusterClient).override
      opts).finish.config.client.recoveryConfig.dlqStream = serviceName ++ Configs.inputSuffix) :
    ∃ config, .recoveryConfig config ∈ opts ∧
      config.dlqStream = serviceName ++ Configs.inputSuffix := by
  rw [dlqStream_finish] at h
  split_ifs at h with hempty
  · -- the default name is longer than that of the LBS
    have hlength := congrArg String.length h
    rw [String.length_append] at hlength
    exact absurd hlength (by simp [Configs.dlqSuffix])
  · obtain hdefault | ⟨opt, hmem, hopt⟩ := setting_cases recoveryConfig? opts defaultRecoveryConfig
    · exact absurd (congrArg RecoveryConfig.dlqStream hdefault) hempty
    · cases opt with
      | recoveryConfig config =>
        obtain rfl := Option.some.inj hopt
        exact ⟨_, hmem, h⟩
      | _ => cases hopt

/-- **Constructed clients are sound.**  Only an option can make the LBS the DLQ. -/
theorem newRedisStreamClient_sound {podName podIP : String} {isClusterClient : Bool}
    {serviceName : String} {opts : List RecoverableRedisOption} {r : RecoverableRedisStreamClient}
    (h : newRedisStreamClient podName podIP isClusterClient serviceName opts = .ok r) :
    r.Sound ∧ r.config.client.serviceName = serviceName ∧
      (r.config.client.recoveryConfig.dlqStream = serviceName ++ Configs.inputSuffix →
        ∃ config, .recoveryConfig config ∈ opts ∧
          config.dlqStream = serviceName ++ Configs.inputSuffix) := by
  obtain ⟨hopts, rfl⟩ := newRedisStreamClient_eq_ok h
  exact ⟨RecoverableRedisStreamClient.sound_finish hopts _ _ _,
    RecoverableRedisStreamClient.serviceName_finish _ _ _ _,
    RecoverableRedisStreamClient.exists_of_dlqStream_eq⟩

/-- A client with an option. -/
theorem newRedisStreamClient_sound_orders :
    ∃ r, newRedisStreamClient "orders-0" "" false "orders" [.kspChanSize 10] = .ok r ∧ r.Sound := by
  have hnew : newRedisStreamClient "orders-0" "" false "orders" [.kspChanSize 10] =
      .ok { RecoverableRedisStreamClient.default "redis-consumer-orders-0" "orders" false with
        kspChanSize := 10 }.finish := by
    rfl
  exact ⟨_, hnew, (newRedisStreamClient_sound hnew).1⟩

/-- Clients that were constructed for one service, without an option that makes the LBS the DLQ. -/
def Service.ofConstructed (json : Json) (name : String) (podName podIP : Nat → String)
    (isClusterClient : Nat → Bool) (opts : Nat → List RecoverableRedisOption)
    (r : Nat → RecoverableRedisStreamClient)
    (h : ∀ c, newRedisStreamClient (podName c) (podIP c) (isClusterClient c) name (opts c) =
      .ok (r c))
    (hdlq : ∀ c config, .recoveryConfig config ∈ opts c →
      config.dlqStream ≠ name ++ Configs.inputSuffix) : Service where
  json := json
  client c := (r c).config.client
  name := name
  serviceName_eq c := by
    rw [(newRedisStreamClient_eq_ok (h c)).2]
    exact RecoverableRedisStreamClient.serviceName_finish _ _ _ _
  dlqStream_ne_empty c := by
    obtain ⟨hopts, heq⟩ := newRedisStreamClient_eq_ok (h c)
    rw [heq]
    exact (RecoverableRedisStreamClient.sound_finish hopts _ _ _).dlqStream
  dlqStream_ne_lbs c := by
    rw [(newRedisStreamClient_eq_ok (h c)).2]
    intro hlbs
    obtain ⟨config, hmem, hconfig⟩ := RecoverableRedisStreamClient.exists_of_dlqStream_eq hlbs
    exact hdlq c config hmem hconfig

end Impl

end RedisStreamClient
