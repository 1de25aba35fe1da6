import RoverControl.Net.Block
import RoverControl.Rate.Quantity

/-!
# Configurations

A configuration holds the API keys, the networks that clients may come from, the rate limits for
accepting and for executing commands, and the length of the command queue.  `Config.validate`
accepts it only if every part can be used, and gives the `Config.Store` in which the networks have
been read.
-/

namespace RoverControl

@[ext]
structure Config where
  /-- The keys that open the service, sorted and without repetition. -/
  apiKeys : List Bytes
  /-- The texts of the blocks of allowed addresses. -/
  allowedNetworks : List Bytes
  ingress : RateLimit Float
  execution : RateLimit Float
  queueMaxsize : Nat

namespace Config

/-- Inserts a key into a sorted list without repetition. -/
def insertKey (key : Bytes) : List Bytes → List Bytes
  | [] => [key]
  | k :: rest =>
    if key < k then key :: k :: rest
    else if key = k then k :: rest
    else k :: insertKey key rest

/-- The keys of a list, sorted and without repetition. -/
def keySet (keys : List Bytes) : List Bytes := keys.foldl (fun set key => insertKey key set) []

/-- The configuration for development on one machine. -/
def standard : Config where
  apiKeys := [ascii "local"]
  allowedNetworks := [ascii "127.0.0.0/8"]
  ingress := ⟨5, 5⟩
  execution := ⟨10, 5⟩
  queueMaxsize := 32

/-! ## Validation -/

/-- Why a configuration cannot be used. -/
inductive Error where
  | noApiKeys
  | emptyApiKey
  | invalidIngressRate
  | invalidIngressBurst
  | invalidExecutionRate
  | invalidExecutionBurst
  | invalidQueueMaxsize
  | noAllowedNetworks
  | invalidNetwork
  deriving DecidableEq

def Error.message : Error → String
  | .noApiKeys => "At least one API key must be configured"
  | .emptyApiKey => "API keys must not be empty"
  | .invalidIngressRate => "ingress_rate_limit.rate_per_second must be positive"
  | .invalidIngressBurst => "ingress_rate_limit.burst must be a positive integer"
  | .invalidExecutionRate => "execution_rate_limit.rate_per_second must be positive"
  | .invalidExecutionBurst => "execution_rate_limit.burst must be a positive integer"
  | .invalidQueueMaxsize => "queue_maxsize must be positive"
  | .noAllowedNetworks => "allowed_networks must not be empty"
  | .invalidNetwork => "allowed_networks contains an invalid CIDR block"

/-- A configuration in use, with the blocks that its networks denote. -/
structure Store where
  config : Config
  networks : List Net.Block

/-- The store of a configuration, or the first rule that it breaks. -/
def validate (c : Config) : Except Error Store :=
  if c.apiKeys = [] then .error .noApiKeys
  else if c.apiKeys.contains [] then .error .emptyApiKey
  else if !Quantity.isRate c.ingress.rate then .error .invalidIngressRate
  else if c.ingress.burst = 0 then .error .invalidIngressBurst
  else if !Quantity.isRate c.execution.rate then .error .invalidExecutionRate
  else if c.execution.burst = 0 then .error .invalidExecutionBurst
  else if c.queueMaxsize = 0 then .error .invalidQueueMaxsize
  else if c.allowedNetworks = [] then .error .noAllowedNetworks
  else
    match Net.Block.parseAll c.allowedNetworks with
    | none => .error .invalidNetwork
    | some networks => .ok ⟨c, networks⟩

namespace Store

def hasKey (s : Store) (key : Bytes) : Bool := s.config.apiKeys.contains key

/-- Whether an address lies in one of the blocks. -/
def isAllowed (s : Store) (a : Net.Address) : Bool := s.networks.any fun block => block.contains a

end Store

end Config

end RoverControl
