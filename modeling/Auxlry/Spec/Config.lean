import Auxlry.Spec.LocalNode
import Auxlry.Yaml.Record

/-!
# The configuration file

`loadConfig` reads the configuration file, puts environment variables in for their
references in its text, and parses the result as YAML. What is particular to the parser is
a `Yaml.Reader`; the keys, their types and their defaults are those of the derived code.

The adapter of an interface has its type in one of its own keys, so that its node is
buffered before it is known what the others are.
-/

namespace Auxlry.Loader

open Yaml (Lens RecordField Node Reader readRecord readFields readList readBufferedList)

/-! ## The configuration -/

structure CoreConfig where
  host : String := "0.0.0.0"
  apiPort : ℕ := 8400
  quicPort : ℕ := 8401
  stunServers : List String := ["stun.l.google.com:19302"]
  turnServer : Option String := none
  turnUsername : Option String := none
  turnCredential : Option String := none
  deriving DecidableEq, Repr

structure ModelsConfig where
  provider : String := "openrouter"
  apiKey : String := ""
  interface : String := "anthropic/claude-sonnet-4-20250514"
  synapse : String := "anthropic/claude-sonnet-4-20250514"
  operator : String := "anthropic/claude-sonnet-4-20250514"
  deriving DecidableEq, Repr

structure Discord where
  token : String
  channels : List String := []
  deriving DecidableEq, Repr

structure Telegram where
  token : String
  deriving DecidableEq, Repr

structure Webhook where
  url : String
  secret : Option String := none
  deriving DecidableEq, Repr

inductive AdapterConfig
  | discord (a : Discord)
  | telegram (a : Telegram)
  | webhook (a : Webhook)
  deriving DecidableEq, Repr

structure InterfaceConfig where
  name : String
  adapter : AdapterConfig
  deriving DecidableEq, Repr

structure NodeConfig where
  name : String
  mode : NodeMode := .workspace
  deriving DecidableEq, Repr

structure MemoryConfig where
  embeddingModel : String := "BAAI/bge-small-en-v1.5"
  storePath : String := "~/.auxlry/store/memory"
  deriving DecidableEq, Repr

structure StorageConfig where
  database : String := "~/.auxlry/store/auxlry.db"
  deriving DecidableEq, Repr

structure ConcurrencyConfig where
  maxSynapses : ℕ := 5
  maxOperators : ℕ := 10
  maxOperatorSteps : ℕ := 10
  maxSynapseSteps : ℕ := 5
  deriving DecidableEq, Repr

structure Config where
  locale : String := "en"
  core : CoreConfig := {}
  models : ModelsConfig := {}
  interfaces : List InterfaceConfig := []
  nodes : List NodeConfig := [{ name := "local" }]
  memory : MemoryConfig := {}
  storage : StorageConfig := {}
  concurrency : ConcurrencyConfig := {}
  deriving DecidableEq, Repr

/-! ## Reading it -/

variable (y : Reader)

/-- A `u16`. -/
def readPort : Node → Option ℕ := y.unsigned 65536

/-- A `usize`. -/
def readCount : Node → Option ℕ := y.unsigned 18446744073709551616

def coreFields : List (RecordField CoreConfig) :=
  [.of "host" Node.text (.of (·.host) fun x c => { c with host := x }),
    .of "api_port" (readPort y) (.of (·.apiPort) fun x c => { c with apiPort := x }),
    .of "quic_port" (readPort y) (.of (·.quicPort) fun x c => { c with quicPort := x }),
    .of "stun_servers" (readList Node.text) (.of (·.stunServers) fun x c => { c with stunServers := x }),
    .of "turn_server" Node.optionalText (.of (·.turnServer) fun x c => { c with turnServer := x }),
    .of "turn_username" Node.optionalText (.of (·.turnUsername) fun x c => { c with turnUsername := x }),
    .of "turn_credential" Node.optionalText (.of (·.turnCredential) fun x c => { c with turnCredential := x })]

def modelsFields : List (RecordField ModelsConfig) :=
  [.of "provider" Node.text (.of (·.provider) fun x c => { c with provider := x }),
    .of "api_key" Node.text (.of (·.apiKey) fun x c => { c with apiKey := x }),
    .of "interface" Node.text (.of (·.interface) fun x c => { c with interface := x }),
    .of "synapse" Node.text (.of (·.synapse) fun x c => { c with synapse := x }),
    .of "operator" Node.text (.of (·.operator) fun x c => { c with operator := x })]

def discordFields : List (RecordField Discord) :=
  [.of "token" y.bufferedText (.of (·.token) fun x c => { c with token := x }) true,
    .of "channels" (readBufferedList y.bufferedText) (.of (·.channels) fun x c => { c with channels := x })]

def telegramFields : List (RecordField Telegram) :=
  [.of "token" y.bufferedText (.of (·.token) fun x c => { c with token := x }) true]

def webhookFields : List (RecordField Webhook) :=
  [.of "url" y.bufferedText (.of (·.url) fun x c => { c with url := x }) true,
    .of "secret" y.bufferedOptional (.of (·.secret) fun x c => { c with secret := x })]

/-- The key `type` says which adapter it is. -/
def adapterType (es : List (String × Node)) : Option String :=
  match es.filter (·.1 == "type") with
  | [(_, tag)] => y.bufferedText tag
  | _ => none

def readVariant (es : List (String × Node)) : Option AdapterConfig :=
  match adapterType y es with
  | some "discord" => (readFields (discordFields y) es { token := "" }).map .discord
  | some "telegram" => (readFields (telegramFields y) es { token := "" }).map .telegram
  | some "webhook" => (readFields (webhookFields y) es { url := "" }).map .webhook
  | _ => none

def readAdapter (n : Node) : Option AdapterConfig := n.entries.bind (readVariant y)

def interfaceFields : List (RecordField InterfaceConfig) :=
  [.of "name" Node.text (.of (·.name) fun x c => { c with name := x }) true,
    .of "adapter" (readAdapter y) (.of (·.adapter) fun x c => { c with adapter := x }) true]

def readInterface (n : Node) : Option InterfaceConfig :=
  readRecord (interfaceFields y) { name := "", adapter := .telegram { token := "" } } n

def readMode (n : Node) : Option NodeMode :=
  match n.text with
  | some "workspace" => some .workspace
  | some "system" => some .system
  | _ => none

def nodeFields : List (RecordField NodeConfig) :=
  [.of "name" Node.text (.of (·.name) fun x c => { c with name := x }) true,
    .of "mode" readMode (.of (·.mode) fun x c => { c with mode := x })]

def readNode (n : Node) : Option NodeConfig := readRecord nodeFields { name := "" } n

def memoryFields : List (RecordField MemoryConfig) :=
  [.of "embedding_model" Node.text (.of (·.embeddingModel) fun x c => { c with embeddingModel := x }),
    .of "store_path" Node.text (.of (·.storePath) fun x c => { c with storePath := x })]

def storageFields : List (RecordField StorageConfig) :=
  [.of "database" Node.text (.of (·.database) fun x c => { c with database := x })]

def concurrencyFields : List (RecordField ConcurrencyConfig) :=
  [.of "max_synapses" (readCount y) (.of (·.maxSynapses) fun x c => { c with maxSynapses := x }),
    .of "max_operators" (readCount y) (.of (·.maxOperators) fun x c => { c with maxOperators := x }),
    .of "max_operator_steps" (readCount y) (.of (·.maxOperatorSteps) fun x c => { c with maxOperatorSteps := x }),
    .of "max_synapse_steps" (readCount y) (.of (·.maxSynapseSteps) fun x c => { c with maxSynapseSteps := x })]

def configFields : List (RecordField Config) :=
  [.of "locale" Node.text (.of (·.locale) fun x c => { c with locale := x }),
    .of "core" (readRecord (coreFields y) {}) (.of (·.core) fun x c => { c with core := x }),
    .of "models" (readRecord modelsFields {}) (.of (·.models) fun x c => { c with models := x }),
    .of "interfaces" (readList (readInterface y)) (.of (·.interfaces) fun x c => { c with interfaces := x }),
    .of "nodes" (readList readNode) (.of (·.nodes) fun x c => { c with nodes := x }),
    .of "memory" (readRecord memoryFields {}) (.of (·.memory) fun x c => { c with memory := x }),
    .of "storage" (readRecord storageFields {}) (.of (·.storage) fun x c => { c with storage := x }),
    .of "concurrency" (readRecord (concurrencyFields y) {})
      (.of (·.concurrency) fun x c => { c with concurrency := x })]

def readConfig (n : Node) : Option Config := readRecord (configFields y) {} n

/-! ## The file -/

/-- The lines of the default configuration. -/
def defaultLines : List String :=
  ["# auxlry configuration",
    "# All fields have defaults — only specify what you want to change.",
    "# Environment variables can be used with $\x7bVAR_NAME\x7d syntax.",
    "",
    "locale: en",
    "",
    "core:",
    "  host: 0.0.0.0",
    "  api_port: 8400",
    "  quic_port: 8401",
    "  stun_servers:",
    "    - stun.l.google.com:19302",
    "  # turn_server: turn.example.com:3478",
    "  # turn_username: user",
    "  # turn_credential: pass",
    "",
    "models:",
    "  provider: openrouter",
    "  api_key: $\x7bOPENROUTER_API_KEY\x7d",
    "  interface: anthropic/claude-sonnet-4-20250514",
    "  synapse: anthropic/claude-sonnet-4-20250514",
    "  operator: anthropic/claude-sonnet-4-20250514",
    "",
    "# Uncomment and configure adapters to connect to chat platforms:",
    "# interfaces:",
    "#   - name: discord-main",
    "#     adapter:",
    "#       type: discord",
    "#       token: $\x7bDISCORD_TOKEN\x7d",
    "#       channels: []          # empty = all channels",
    "#   - name: telegram-main",
    "#     adapter:",
    "#       type: telegram",
    "#       token: $\x7bTELEGRAM_TOKEN\x7d",
    "#   - name: webhook-main",
    "#     adapter:",
    "#       type: webhook",
    "#       url: https://example.com/hook",
    "#       secret: optional-hmac-secret",
    "",
    "nodes:",
    "  - name: local",
    "    mode: workspace            # workspace = sandboxed, system = unrestricted",
    "",
    "memory:",
    "  embedding_model: BAAI/bge-small-en-v1.5",
    "  store_path: ~/.auxlry/store/memory",
    "",
    "storage:",
    "  database: ~/.auxlry/store/auxlry.db",
    "",
    "concurrency:",
    "  max_synapses: 5              # max concurrent thinking tasks",
    "  max_operators: 10            # max concurrent action tasks",
    "  max_synapse_steps: 5         # max LLM rounds per synapse task",
    "  max_operator_steps: 10       # max tool-use rounds per operator task"]

def defaultContent : String := String.join (defaultLines.map (· ++ "\n"))

/-- The file, with its text if it can be read, and whether the default one can be written. -/
structure ConfigFile where
  path : String
  parent : Option String
  file : Option (Option String)
  createsDir : Bool
  writes : Bool

/-- `create_default_config`. -/
def createDefaultConfig (f : ConfigFile) : Except String ConfigFile := do
  if let some parent := f.parent then
    if !f.createsDir then throw s!"failed to create config directory: {parent}"
  if f.writes then return { f with file := some (some defaultContent) }
  else throw s!"failed to write default config: {f.path}"

def isNameStart (c : Char) : Bool := c.isAlpha || c == '_'

def isNameChar (c : Char) : Bool := c.isAlphanum || c == '_'

/-- The name in the reference to a variable that a text starts with. -/
def reference : List Char → Option (List Char)
  | '$' :: '\x7b' :: c :: cs =>
    if isNameStart c = true ∧ (cs.dropWhile isNameChar).head? = some '\x7d' then
      some (c :: cs.takeWhile isNameChar)
    else none
  | _ => none

/-- The value of a variable; unknown variables are empty. -/
def varOrDefault (env : String → Option String) (name : List Char) : List Char :=
  ((env (String.ofList name)).getD "").toList

/-- `interpolateEnv` on characters, of which so many belong to a reference. -/
def interpolate (env : String → Option String) : ℕ → List Char → List Char
  | _, [] => []
  | skip + 1, _ :: cs => interpolate env skip cs
  | 0, c :: cs =>
    match reference (c :: cs) with
    | some name => varOrDefault env name ++ interpolate env (name.length + 2) cs
    | none => c :: interpolate env 0 cs

/-- `interpolate_env`. -/
def interpolateEnv (env : String → Option String) (input : String) : String :=
  String.ofList (interpolate env 0 input.toList)

/-- `load_config`. -/
def loadConfig (env : String → Option String) (f : ConfigFile) : Except String Config := do
  let f ← if f.file.isNone then createDefaultConfig f else pure f
  match f.file with
  | some (some raw) =>
    match (y.parse (interpolateEnv env raw).toList).bind (readConfig y) with
    | some config => return config
    | none => throw "failed to parse config YAML"
  | _ => throw s!"failed to read config: {f.path}"

/-! ## String fields -/

/-- The keys whose value is a string. -/
inductive StringField
  | locale
  | host
  | turnServer
  | turnUsername
  | turnCredential
  | provider
  | apiKey
  | interface
  | synapse
  | operator
  | interfaceName (i : ℕ)
  | discordToken (i : ℕ)
  | telegramToken (i : ℕ)
  | webhookUrl (i : ℕ)
  | webhookSecret (i : ℕ)
  | nodeName (i : ℕ)
  | embeddingModel
  | storePath
  | database
  deriving DecidableEq, Repr

namespace StringField

/-- Where the key stands. -/
def path : StringField → List Yaml.Step
  | .locale => [.key "locale"]
  | .host => [.key "core", .key "host"]
  | .turnServer => [.key "core", .key "turn_server"]
  | .turnUsername => [.key "core", .key "turn_username"]
  | .turnCredential => [.key "core", .key "turn_credential"]
  | .provider => [.key "models", .key "provider"]
  | .apiKey => [.key "models", .key "api_key"]
  | .interface => [.key "models", .key "interface"]
  | .synapse => [.key "models", .key "synapse"]
  | .operator => [.key "models", .key "operator"]
  | .interfaceName i => [.key "interfaces", .index i, .key "name"]
  | .discordToken i | .telegramToken i => [.key "interfaces", .index i, .key "adapter", .key "token"]
  | .webhookUrl i => [.key "interfaces", .index i, .key "adapter", .key "url"]
  | .webhookSecret i => [.key "interfaces", .index i, .key "adapter", .key "secret"]
  | .nodeName i => [.key "nodes", .index i, .key "name"]
  | .embeddingModel => [.key "memory", .key "embedding_model"]
  | .storePath => [.key "memory", .key "store_path"]
  | .database => [.key "storage", .key "database"]

/-- The value in a configuration, if it has one there. -/
def get : StringField → Config → Option String
  | .locale, c => some c.locale
  | .host, c => some c.core.host
  | .turnServer, c => c.core.turnServer
  | .turnUsername, c => c.core.turnUsername
  | .turnCredential, c => c.core.turnCredential
  | .provider, c => some c.models.provider
  | .apiKey, c => some c.models.apiKey
  | .interface, c => some c.models.interface
  | .synapse, c => some c.models.synapse
  | .operator, c => some c.models.operator
  | .interfaceName i, c => c.interfaces[i]?.map (·.name)
  | .discordToken i, c => c.interfaces[i]?.bind fun x =>
    match x.adapter with
    | .discord a => some a.token
    | _ => none
  | .telegramToken i, c => c.interfaces[i]?.bind fun x =>
    match x.adapter with
    | .telegram a => some a.token
    | _ => none
  | .webhookUrl i, c => c.interfaces[i]?.bind fun x =>
    match x.adapter with
    | .webhook a => some a.url
    | _ => none
  | .webhookSecret i, c => c.interfaces[i]?.bind fun x =>
    match x.adapter with
    | .webhook a => a.secret
    | _ => none
  | .nodeName i, c => c.nodes[i]?.map (·.name)
  | .embeddingModel, c => some c.memory.embeddingModel
  | .storePath, c => some c.memory.storePath
  | .database, c => some c.storage.database

/-- The same configuration with another value. -/
def set (v : String) : StringField → Config → Config
  | .locale, c => { c with locale := v }
  | .host, c => { c with core := { c.core with host := v } }
  | .turnServer, c => { c with core := { c.core with turnServer := some v } }
  | .turnUsername, c => { c with core := { c.core with turnUsername := some v } }
  | .turnCredential, c => { c with core := { c.core with turnCredential := some v } }
  | .provider, c => { c with models := { c.models with provider := v } }
  | .apiKey, c => { c with models := { c.models with apiKey := v } }
  | .interface, c => { c with models := { c.models with interface := v } }
  | .synapse, c => { c with models := { c.models with synapse := v } }
  | .operator, c => { c with models := { c.models with operator := v } }
  | .interfaceName i, c => { c with interfaces := c.interfaces.modify i fun x => { x with name := v } }
  | .discordToken i, c => { c with interfaces := c.interfaces.modify i fun x =>
    match x.adapter with
    | .discord a => { x with adapter := .discord { a with token := v } }
    | _ => x }
  | .telegramToken i, c => { c with interfaces := c.interfaces.modify i fun x =>
    match x.adapter with
    | .telegram a => { x with adapter := .telegram { a with token := v } }
    | _ => x }
  | .webhookUrl i, c => { c with interfaces := c.interfaces.modify i fun x =>
    match x.adapter with
    | .webhook a => { x with adapter := .webhook { a with url := v } }
    | _ => x }
  | .webhookSecret i, c => { c with interfaces := c.interfaces.modify i fun x =>
    match x.adapter with
    | .webhook a => { x with adapter := .webhook { a with secret := some v } }
    | _ => x }
  | .nodeName i, c => { c with nodes := c.nodes.modify i fun x => { x with name := v } }
  | .embeddingModel, c => { c with memory := { c.memory with embeddingModel := v } }
  | .storePath, c => { c with memory := { c.memory with storePath := v } }
  | .database, c => { c with storage := { c.storage with database := v } }

end StringField

/-- How a string is taken from its node. -/
inductive StringKind
  | text
  | optional
  | buffered
  | bufferedOptional
  deriving DecidableEq, Repr

def StringField.kind : StringField → StringKind
  | .turnServer | .turnUsername | .turnCredential => .optional
  | .discordToken _ | .telegramToken _ | .webhookUrl _ => .buffered
  | .webhookSecret _ => .bufferedOptional
  | _ => .text

/-- The string that is taken from a node; `some none` where it is optional and not there. -/
def StringKind.read : StringKind → Node → Option (Option String)
  | .text, n => n.text.map some
  | .optional, n => n.optionalText
  | .buffered, n => (y.bufferedText n).map some
  | .bufferedOptional, n => y.bufferedOptional n

end Auxlry.Loader
