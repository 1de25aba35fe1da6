import RoverControl.Cli.Numeral
import RoverControl.Config.Basic
import RoverControl.Server.Listener

/-!
# Command line options

Every option but `--help` is followed by a value.  An option that is given again replaces the value
given before, except that keys and networks add up; the first key and the first network replace
those of the standard configuration.
-/

namespace RoverControl

namespace Cli

/-- The name under which the program is called. -/
def programName : Bytes := ascii "control_server"

/-- What the options ask for. -/
structure Options where
  port : UInt16
  bindAddress : Bytes
  config : Config

def Options.standard : Options := ⟨8080, standardBindAddress, Config.standard⟩

/-- Why the options are not followed. -/
inductive OptionError where
  /-- The usage is asked for, or an option is unknown. -/
  | usage
  | missingValue (flag : Bytes)
  | invalidPort (value : Bytes)
  | invalidQueueSize (value : Bytes)
  | invalidRateLimit (value : Bytes)
  deriving DecidableEq

def usageText : Bytes :=
  ascii "Usage: " ++ programName ++
    ascii " [--port N] [--bind ADDR] [--api-key KEY]... [--allow CIDR]...\n" ++
    ascii "          [--queue-size N] [--ingress RATE:BURST] [--execution RATE:BURST]\n"

/-- What is printed before the program ends. -/
def OptionError.message : OptionError → Bytes
  | .usage => usageText
  | .missingValue flag => ascii "Missing value for " ++ flag ++ ascii "\n"
  | .invalidPort value => ascii "Invalid port: " ++ value ++ ascii "\n"
  | .invalidQueueSize value => ascii "Invalid queue size: " ++ value ++ ascii "\n"
  | .invalidRateLimit value =>
    ascii "Invalid rate limit (want RATE:BURST): " ++ value ++ ascii "\n"

/-! ## Reading -/

/-- A rate and a burst of 32 bits, divided by the first colon. -/
def readRateLimit (s : Bytes) : Option (RateLimit Float) :=
  match Bytes.cut Ascii.colon s with
  | none => none
  | some (rate, burst) =>
    match readRate rate, readUnsigned burst with
    | some rate, some burst =>
      if burst < UInt32.size then some ⟨rate, UInt32.ofNat burst⟩ else none
    | _, _ => none

/-- The options read so far, and whether a key and a network were among them. -/
structure Progress where
  options : Options
  keyGiven : Bool
  networkGiven : Bool

def Progress.mapConfig (p : Progress) (f : Config → Config) : Progress :=
  { p with options := { p.options with config := f p.options.config } }

/-- Adds a key, in place of the standard one if it is the first. -/
def Progress.addKey (p : Progress) (key : Bytes) : Progress :=
  { p.mapConfig fun c =>
      { c with apiKeys := Config.insertKey key (if p.keyGiven then c.apiKeys else []) } with
    keyGiven := true }

/-- Adds a network, in place of the standard ones if it is the first. -/
def Progress.addNetwork (p : Progress) (network : Bytes) : Progress :=
  { p.mapConfig fun c =>
      { c with
        allowedNetworks := (if p.networkGiven then c.allowedNetworks else []) ++ [network] } with
    networkGiven := true }

/-- Follows one option with its value. -/
def Progress.follow (p : Progress) (flag value : Bytes) : Except OptionError Progress :=
  if flag = ascii "--port" then
    match readUnsigned value with
    | some n =>
      if n ≤ 65535 then .ok { p with options := { p.options with port := UInt16.ofNat n } }
      else .error (.invalidPort value)
    | none => .error (.invalidPort value)
  else if flag = ascii "--bind" then
    .ok { p with options := { p.options with bindAddress := value } }
  else if flag = ascii "--api-key" then .ok (p.addKey value)
  else if flag = ascii "--allow" then .ok (p.addNetwork value)
  else if flag = ascii "--queue-size" then
    match readUnsigned value with
    | some n => .ok (p.mapConfig ({ · with queueMaxsize := n }))
    | none => .error (.invalidQueueSize value)
  else if flag = ascii "--ingress" then
    match readRateLimit value with
    | some limit => .ok (p.mapConfig ({ · with ingress := limit }))
    | none => .error (.invalidRateLimit value)
  else if flag = ascii "--execution" then
    match readRateLimit value with
    | some limit => .ok (p.mapConfig ({ · with execution := limit }))
    | none => .error (.invalidRateLimit value)
  else .error .usage

/-- Follows options one after the other. -/
def Progress.followAll (p : Progress) : List Bytes → Except OptionError Options
  | [] => .ok p.options
  | [flag] => .error (if flag = ascii "--help" then .usage else .missingValue flag)
  | flag :: value :: rest =>
    if flag = ascii "--help" then .error .usage
    else
      match p.follow flag value with
      | .error e => .error e
      | .ok p => p.followAll rest

/-- The options that the arguments ask for.  An argument ends at its first zero byte. -/
def Options.parse (args : List Bytes) : Except OptionError Options :=
  Progress.followAll ⟨.standard, false, false⟩ (args.map (Bytes.before 0))

end Cli

end RoverControl
