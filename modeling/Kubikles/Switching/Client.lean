/-
The client of the current context (client.go), and who reads and writes
it behind its lock.

# Goroutines

A method is the frames it runs. Under the write lock every assignment is
a frame of its own, and so is everything a reader looks at, so that the
steps of others come between any two of them. `loadConfig` takes the lock
for reading twice, to copy settings, and for writing at its end.

# Outside

What the libraries answer is in the environment (`Answer`): a loader, a
config or a client that is made, known by its reference and by what it
was made from, or an error. A loader caches what it has read, so
`RawConfig` has one current context for it (`Outside.rawContext`).

# Left out

`apiTimeout` and `warmupDone`, which a switch does not publish with the
rest, and the transport behind `applyHTTPProtocolSettings`. Of
`RenameContext` there is what it does after the file was written.
-/
import Kubikles.Lib.RwLock

namespace K8sClient

open RwLock (Lock Hold)

-- ======== what is made

/-- `clientcmd.ClientConfigLoadingRules`. -/
structure LoadingRules where
  explicitPath : String := ""
  precedence : List String := []
deriving DecidableEq

/-- `clientcmd.ClientConfig`, by its rules and the override of the
current context. -/
structure ClientConfig where
  loadingRules : LoadingRules
  currentContext : String
  ref : Nat
deriving DecidableEq

/-- `rest.Config`, by the loader that answered it. -/
structure RestConfig where
  configLoading : ClientConfig
  forceHTTP1 : Bool
  ref : Nat
deriving DecidableEq

/-- `kubernetes.Interface`. -/
structure Clientset where
  config : RestConfig
  ref : Nat
deriving DecidableEq

/-- `metricsclientset.Interface`. -/
structure MetricsClientset where
  config : RestConfig
  ref : Nat
deriving DecidableEq

/-- The path of the kubeconfig at home, and the current context of what a
loader has loaded. -/
structure Outside where
  primary : String
  rawContext : ClientConfig → String

def ClientConfig.context (o : Outside) (l : ClientConfig) : String :=
  if l.currentContext ≠ "" then l.currentContext else o.rawContext l

/-- Something is made, or an error comes. -/
inductive Answer where
  | made (ref : Nat)
  | failed (err : String)
deriving DecidableEq

-- ======== the client

/-- `Client`: what its lock guards. -/
structure Client where
  forceHTTP1 : Bool := false
  clientPoolSize : Int := 0
  extraKubeconfigPaths : List String := []
  configLoading : Option ClientConfig := none
  clientset : Option Clientset := none
  metricsClient : Option MetricsClientset := none
  clientPool : List Clientset := []
  currentContext : String := ""
deriving DecidableEq

/-- An assignment under the write lock. -/
inductive Write where
  | forceHTTP1 (enabled : Bool)
  | clientPoolSize (size : Int)
  | extraKubeconfigPaths (paths : List String)
  | configLoading (loader : ClientConfig)
  | clientset (cs : Clientset)
  | metricsClient (mc : Option MetricsClientset)
  | clientPool (pool : List Clientset)
  /-- `c.clientPoolIdx = 0`. -/
  | clientPoolIdx
  | currentContext (name : String)
deriving DecidableEq

/-- What it does to what the lock guards. -/
def Write.apply : Write → Client → Client
  | .forceHTTP1 enabled, c => { c with forceHTTP1 := enabled }
  | .clientPoolSize size, c => { c with clientPoolSize := size }
  | .extraKubeconfigPaths paths, c =>
    { c with extraKubeconfigPaths := paths }
  | .configLoading loader, c => { c with configLoading := some loader }
  | .clientset cs, c => { c with clientset := some cs }
  | .metricsClient mc, c => { c with metricsClient := mc }
  | .clientPool pool, c => { c with clientPool := pool }
  | .clientPoolIdx, c => c
  | .currentContext name, c => { c with currentContext := name }

/-- A field that is read under the lock. -/
inductive Field where
  | configLoading
  | clientset
  | metricsClient
  | clientPool
  | currentContext
deriving DecidableEq

/-- What was read. -/
inductive Value where
  | configLoading (loader : Option ClientConfig)
  | clientset (cs : Option Clientset)
  | metricsClient (mc : Option MetricsClientset)
  | clientPool (pool : List Clientset)
  | currentContext (name : String)
deriving DecidableEq

def Client.read (c : Client) : Field → Value
  | .configLoading => .configLoading c.configLoading
  | .clientset => .clientset c.clientset
  | .metricsClient => .metricsClient c.metricsClient
  | .clientPool => .clientPool c.clientPool
  | .currentContext => .currentContext c.currentContext

def Value.Of (v : Value) (c : Client) : Prop :=
  ∃ field, c.read field = v

/-- The client, the counter beside the lock, and the lock. -/
structure World where
  client : Client := {}
  clientPoolIdx : UInt64 := 0
  mu : Lock := {}
deriving DecidableEq

-- ======== loadConfig

def getLoadingRules (primary : String) (c : Client) : LoadingRules :=
  if c.extraKubeconfigPaths = [] then { explicitPath := primary }
  else { precedence := primary :: c.extraKubeconfigPaths }

/-- What `loadConfig` has in its local variables from the start. -/
structure Loading where
  contextName : String
  forceHTTP1 : Bool
  clientPoolSize : Int
deriving DecidableEq

def effectiveContext (contextName rawContext : String) : String :=
  if contextName ≠ "" then contextName else rawContext

def publication (loader : ClientConfig) (cs : Clientset)
    (pool : List Clientset) (name : String) : List Write :=
  [.configLoading loader, .clientset cs, .metricsClient none,
    .clientPool pool, .clientPoolIdx, .currentContext name]

-- ======== the frames

/-- A method that reads under the lock. -/
inductive Reader where
  /-- `GetCurrentContext`, `getClientForContext`, and the like. -/
  | hold (fields : List Field)
  | getClientset
deriving DecidableEq

def Reader.fields : Reader → List Field
  | .hold fields => fields
  | .getClientset => [.clientPool, .clientset]

inductive Frame where
  /-- `loadConfig` copies the settings. -/
  | loadConfig (contextName : String)
  | newLoader (l : Loading)
  | clientConfig (l : Loading) (loader : ClientConfig)
  | newClientset (l : Loading) (loader : ClientConfig)
      (config : RestConfig)
  /-- The loop over the pool, with the members there are. -/
  | poolConfig (l : Loading) (loader : ClientConfig) (cs : Clientset)
      (pool : List Clientset)
  | poolClientset (l : Loading) (loader : ClientConfig) (cs : Clientset)
      (pool : List Clientset) (config : RestConfig)
  | rawConfig (l : Loading) (loader : ClientConfig) (cs : Clientset)
      (pool : List Clientset)
  /-- `return nil`. -/
  | returnNil (contextName : String)
  /-- `Lock`, and then these writes. -/
  | lock (todo : List Write)
  /-- Under the lock: what was written and what is to be written. -/
  | write (done todo : List Write)
  /-- The lazy init of `GetNodeMetrics` and `GetPodMetrics`. -/
  | lockMetrics
  | initMetrics
  | newMetrics (config : RestConfig)
  /-- `RLock`. -/
  | rLock (reader : Reader)
  | read (reader : Reader) (todo : List Field) (seen : List Value)
  /-- `getClientset` picks from a pool. -/
  | rotate (pool : List Clientset) (mainCs : Clientset)
  /-- `RenameContext` looks whether it renamed the current context. -/
  | renamed (oldName newName : String)
deriving DecidableEq

/-- What is seen from outside. -/
inductive Output where
  /-- `loadConfig` returns. -/
  | returned (contextName : String) (err : Option String)
  /-- A writer lets go of the lock. -/
  | section (written : List Write)
  /-- A reader does. -/
  | held (seen : List Value)
  /-- `getClientset` returns. -/
  | clientset (cs : Option Clientset)
  /-- `clientPoolIdx` is set to 0. -/
  | reset
  | incremented
deriving DecidableEq

abbrev Effect := Goroutine.Effect World Frame Output

/-- `loadConfig` returns an error. -/
def fail (l : Loading) (w : World) (err : String) : Effect :=
  { world := w, out := [.returned l.contextName (some err)] }

/-- The reader has let go of the lock. -/
def Reader.next : Reader → List Value → List Frame × List Output
  | .getClientset, [.clientPool _, .clientset none] =>
    ([], [.clientset none])
  | .getClientset, [.clientPool pool, .clientset (some mainCs)] =>
    if 0 < pool.length then ([.rotate pool mainCs], [])
    else ([], [.clientset (some mainCs)])
  | _, _ => ([], [])

def exec (o : Outside) : Goroutine.Exec World Frame Answer Output
  | .loadConfig contextName, _, w =>
    if w.mu.writer then none
    else some { world := w, frames := [.newLoader
      ⟨contextName, w.client.forceHTTP1, w.client.clientPoolSize⟩] }
  | .newLoader l, .made ref, w =>
    if w.mu.writer then none
    else some { world := w, frames := [.clientConfig l
      ⟨getLoadingRules o.primary w.client, l.contextName, ref⟩] }
  | .newLoader _, .failed _, _ => none
  | .clientConfig l loader, .made ref, w =>
    some { world := w, frames := [.newClientset l loader
      ⟨loader, l.forceHTTP1, ref⟩] }
  | .clientConfig l _, .failed err, w =>
    some (fail l w ("failed to load client config: " ++ err))
  | .newClientset l loader config, .made ref, w =>
    some { world := w, frames := [.poolConfig l loader
      ⟨config, ref⟩ []] }
  | .newClientset l _ _, .failed err, w =>
    some (fail l w ("failed to create clientset: " ++ err))
  | .poolConfig l loader cs pool, a, w =>
    if (pool.length : Int) < l.clientPoolSize then
      match a with
      | .made ref => some { world := w, frames := [.poolClientset l
          loader cs pool ⟨loader, l.forceHTTP1, ref⟩] }
      | .failed err => some (fail l w
          ("failed to load pool client config: " ++ err))
    else some { world := w, frames := [.rawConfig l loader cs pool] }
  | .poolClientset l loader cs pool config, .made ref, w =>
    some { world := w, frames := [.poolConfig l loader cs
      (pool ++ [⟨config, ref⟩])] }
  | .poolClientset l _ _ pool _, .failed err, w =>
    some (fail l w ("failed to create pool clientset "
      ++ toString pool.length ++ ": " ++ err))
  | .rawConfig l loader cs pool, .made _, w =>
    let name := effectiveContext l.contextName (o.rawContext loader)
    if name = "" then
      some (fail l w "failed to determine current context")
    else some { world := w, frames := [
      .lock (publication loader cs pool name),
      .returnNil l.contextName] }
  | .rawConfig l _ _ _, .failed err, w =>
    some (fail l w ("failed to load raw client config: " ++ err))
  | .returnNil contextName, _, w =>
    some { world := w, out := [.returned contextName none] }
  | .lock todo, _, w =>
    w.mu.lock.map fun mu =>
      { world := { w with mu }, frames := [.write [] todo] }
  | .write done (x :: todo), _, w =>
    some {
      world := { w with
        client := x.apply w.client
        clientPoolIdx :=
          if x = .clientPoolIdx then 0 else w.clientPoolIdx }
      frames := [.write (done ++ [x]) todo]
      out := if x = .clientPoolIdx then [.reset] else [] }
  | .write done [], _, w =>
    some {
      world := { w with mu := w.mu.unlock }
      out := [.section done] }
  | .lockMetrics, _, w =>
    w.mu.lock.map fun mu =>
      { world := { w with mu }, frames := [.initMetrics] }
  | .initMetrics, a, w =>
    match w.client.metricsClient, w.client.configLoading, a with
    | some _, _, _ => some { world := w, frames := [.write [] []] }
    | none, some loader, .made ref =>
      some { world := w, frames := [.newMetrics ⟨loader, false, ref⟩] }
    | none, some _, .failed _ =>
      some { world := w, frames := [.write [] []] }
    -- a method of a nil loader
    | none, none, _ => none
  | .newMetrics config, .made ref, w =>
    some { world := w, frames := [
      .write [] [.metricsClient (some ⟨config, ref⟩)]] }
  | .newMetrics _, .failed _, w =>
    some { world := w, frames := [.write [] []] }
  | .rLock reader, _, w =>
    w.mu.rLock.map fun mu =>
      { world := { w with mu }, frames := [.read reader reader.fields []] }
  | .read reader (field :: todo) seen, _, w =>
    some {
      world := w
      frames := [.read reader todo (seen ++ [w.client.read field])] }
  | .read reader [] seen, _, w =>
    some {
      world := { w with mu := w.mu.rUnlock }
      frames := (reader.next seen).1
      out := .held seen :: (reader.next seen).2 }
  | .rotate pool mainCs, _, w =>
    let idx := w.clientPoolIdx + 1
    let selected := idx.toNat % (pool.length + 1)
    some {
      world := { w with clientPoolIdx := idx }
      out := [.incremented, .clientset
        (if selected = 0 then some mainCs else pool[selected - 1]?)] }
  | .renamed oldName newName, _, w =>
    if w.mu.writer then none
    else some { world := w, frames :=
      if oldName = w.client.currentContext then
        [.lock [.currentContext newName]]
      else [] }

inductive Call where
  | loadConfig (contextName : String)
  | setForceHTTP1 (enabled : Bool)
  | setClientPoolSize (size : Int)
  | setExtraKubeconfigPaths (paths : List String)
  | getMetrics
  | reader (reader : Reader)
  | renameContext (oldName newName : String)
deriving DecidableEq

def framesOf : Call → List Frame
  | .loadConfig contextName => [.loadConfig contextName]
  | .setForceHTTP1 enabled => [.lock [.forceHTTP1 enabled]]
  | .setClientPoolSize size => [.lock [.clientPoolSize size]]
  | .setExtraKubeconfigPaths paths =>
    [.lock [.extraKubeconfigPaths paths]]
  | .getMetrics => [.lockMetrics]
  | .reader reader => [.rLock reader]
  | .renameContext oldName newName => [.renamed oldName newName]

abbrev Sys := Goroutine.Sys World Frame

/-- The transitions: any goroutine takes its next step at any time. -/
def step (o : Outside) :
    Machine.Step Sys (Goroutine.Act Call Answer) (Nat × Output) :=
  Goroutine.step (exec o) framesOf

end K8sClient
