import RoverControl.Config.Basic
import RoverControl.Json.Basic

/-!
# Configuration patches and snapshots

A patch is an object that gives some fields of a configuration new values; members that are null
count as absent and unknown ones are ignored.  `Patch.ofJson` reads a patch or tells what is wrong
with its first invalid field, `Config.Store.apply` carries it out, and `Config.snapshot` shows a
configuration, without its keys, in the form of a patch.
-/

namespace RoverControl

namespace Config

/-- The two rate limits. -/
inductive LimitField where
  | ingress
  | execution
  deriving DecidableEq

def LimitField.name : LimitField → Bytes
  | .ingress => ascii "ingress_rate_limit"
  | .execution => ascii "execution_rate_limit"

/-- New values for some fields of a configuration. -/
structure Patch where
  ingress : Option (RateLimit Float)
  execution : Option (RateLimit Float)
  queueMaxsize : Option Nat
  allowedNetworks : Option (List Bytes)
  /-- The blocks that `allowedNetworks` denotes. -/
  networks : List Net.Block

namespace Patch

/-- What is wrong with a rate limit. -/
inductive LimitFault where
  | notAnObject
  | rateMissing
  | rateNotPositive
  | burstMissing
  | burstNotPositiveInteger
  deriving DecidableEq

/-- What is wrong with a patch. -/
inductive Error where
  | notAnObject
  | limit (field : LimitField) (fault : LimitFault)
  | queueNotInteger
  | queueNotPositive
  | queueTooLarge
  | networksNotArray
  | networksNotStrings
  | networkInvalid (text : Bytes)
  deriving DecidableEq

/-- The fault as it is told to a client. -/
def Error.message : Error → Bytes
  | .notAnObject => ascii "configuration patch must be a JSON object"
  | .limit field fault =>
    field.name ++
      match fault with
      | .notAnObject => ascii " must be an object with rate_per_second and burst"
      | .rateMissing => ascii ".rate_per_second is required and must be a number"
      | .rateNotPositive => ascii ".rate_per_second must be positive"
      | .burstMissing => ascii ".burst is required and must be a number"
      | .burstNotPositiveInteger => ascii ".burst must be a positive integer"
  | .queueNotInteger => ascii "queue_maxsize must be an integer"
  | .queueNotPositive => ascii "queue_maxsize must be positive"
  | .queueTooLarge => ascii "queue_maxsize is too large"
  | .networksNotArray => ascii "allowed_networks must be a non-empty array of CIDR strings"
  | .networksNotStrings => ascii "allowed_networks must contain only strings"
  | .networkInvalid text => ascii "allowed_networks contains an invalid CIDR block: " ++ text

/-- The largest number that an integer field takes. -/
def maxInteger : Int := 4294967295

/-! ## Reading -/

/-- The rate and the burst in an object. -/
def readLimit (v : Json) : Except LimitFault (RateLimit Float) :=
  if !v.isObject then .error .notAnObject
  else
    match (v.find? (ascii "rate_per_second")).bind Json.number? with
    | none => .error .rateMissing
    | some rate =>
      if !Quantity.isRate rate then .error .rateNotPositive
      else
        match (v.find? (ascii "burst")).bind Json.number? with
        | none => .error .burstMissing
        | some burst =>
          match Binary64.integer? burst with
          | none => .error .burstNotPositiveInteger
          | some n =>
            if 0 < n && n ≤ maxInteger then .ok ⟨rate, UInt32.ofNat n.toNat⟩
            else .error .burstNotPositiveInteger

/-- The number in a queue length. -/
def readQueueMaxsize (v : Json) : Except Error Nat :=
  match v.number?.bind Binary64.integer? with
  | none => .error .queueNotInteger
  | some n =>
    if n ≤ 0 then .error .queueNotPositive
    else if maxInteger < n then .error .queueTooLarge
    else .ok n.toNat

/-- The texts in a list, with the blocks that they denote. -/
def readBlocks : List Json → Except Error (List Bytes × List Net.Block)
  | [] => .ok ([], [])
  | item :: rest =>
    match item.string? with
    | none => .error .networksNotStrings
    | some text =>
      match Net.Block.parse text with
      | none => .error (.networkInvalid text)
      | some block =>
        match readBlocks rest with
        | .error e => .error e
        | .ok (texts, blocks) => .ok (text :: texts, block :: blocks)

/-- The texts in a list that is not empty, with the blocks that they denote. -/
def readNetworks (v : Json) : Except Error (List Bytes × List Net.Block) :=
  match v.array? with
  | none | some [] => .error .networksNotArray
  | some items => readBlocks items

/-- The value of a member that is present and not null. -/
def present? (payload : Json) (key : Bytes) : Option Json :=
  (payload.find? key).filter (!·.isNull)

/-- Reads a field that may be absent. -/
def readField {α : Type} (payload : Json) (key : Bytes) (read : Json → Except Error α) :
    Except Error (Option α) :=
  match present? payload key with
  | none => .ok none
  | some v =>
    match read v with
    | .error e => .error e
    | .ok a => .ok (some a)

/-- Reads one of the two rate limits, which may be absent. -/
def readLimitField (payload : Json) (field : LimitField) :
    Except Error (Option (RateLimit Float)) :=
  readField payload field.name fun v =>
    match readLimit v with
    | .error fault => .error (.limit field fault)
    | .ok limit => .ok limit

/-- The patch that a value denotes, or the fault of its first invalid field. -/
def ofJson (payload : Json) : Except Error Patch :=
  if !payload.isObject then .error .notAnObject
  else
    match readLimitField payload .ingress with
    | .error e => .error e
    | .ok ingress =>
      match readLimitField payload .execution with
      | .error e => .error e
      | .ok execution =>
        match readField payload (ascii "queue_maxsize") readQueueMaxsize with
        | .error e => .error e
        | .ok queueMaxsize =>
          match readField payload (ascii "allowed_networks") readNetworks with
          | .error e => .error e
          | .ok networks =>
            .ok {
              ingress
              execution
              queueMaxsize
              allowedNetworks := networks.map Prod.fst
              networks := (networks.map Prod.snd).getD [] }

/-- Whether a patch changes nothing. -/
def isEmpty (p : Patch) : Bool :=
  p.ingress.isNone && p.execution.isNone && p.queueMaxsize.isNone && p.allowedNetworks.isNone

end Patch

/-- The store after a patch; the fields that it does not have are kept. -/
def Store.apply (s : Store) (p : Patch) : Store where
  config := {
    apiKeys := s.config.apiKeys
    allowedNetworks := p.allowedNetworks.getD s.config.allowedNetworks
    ingress := p.ingress.getD s.config.ingress
    execution := p.execution.getD s.config.execution
    queueMaxsize := p.queueMaxsize.getD s.config.queueMaxsize }
  networks := if p.allowedNetworks.isSome then p.networks else s.networks

/-! ## Snapshots -/

/-- The canonical text of a network, or the text itself if it denotes none. -/
def canonicalNetwork (text : Bytes) : Bytes := ((Net.Block.parse text).map Net.Block.text).getD text

def limitJson (l : RateLimit Float) : Json :=
  .object [(ascii "rate_per_second", .number l.rate),
    (ascii "burst", .number (Binary64.ofNat l.burst.toNat))]

/-- The fields of a configuration that clients may see. -/
def snapshot (c : Config) : Json :=
  .object [
    (LimitField.ingress.name, limitJson c.ingress),
    (LimitField.execution.name, limitJson c.execution),
    (ascii "queue_maxsize", .number (Binary64.ofNat c.queueMaxsize)),
    (ascii "allowed_networks",
      .array (c.allowedNetworks.map fun text => .string (canonicalNetwork text)))]

end Config

end RoverControl
