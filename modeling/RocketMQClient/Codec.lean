import RocketMQClient.Message
import RocketMQClient.Library.Pattern
import Mathlib.Data.List.Perm.Basic

/-!
# The message codec

`wrapSendMessageRequest` builds the wire message of a producer and `wrapMessage`
decodes the wire message a consumer receives. The two are written in different
classes and do not cover the same attributes.

`Zlib` and `Digests` stand for zlib and OpenSSL. `Zlib` carries what their
documentation promises: the bound on the size of a deflated stream, and that
inflating it gives back the input. `UtilAll::compress` hands lengths to zlib
through 32-bit fields, so it deflates `src.length % 2 ^ 32` bytes.

A wire enumeration is open, so each has a constructor for other values. A wire
map has no order: it is a list, read up to permutation. The namespace `rmq`
holds the generated types.
-/

namespace RocketMQClient

def maxMessageBodySize : ℕ := 1024 * 1024 * 4

structure Zlib where
  deflate : List UInt8 → List UInt8
  deflateBound : ℕ → ℕ
  inflate : List UInt8 → List UInt8
  deflate_length_le : ∀ src, (deflate src).length ≤ deflateBound src.length
  deflateBound_lt : ∀ n ≤ maxMessageBodySize, deflateBound n < 2 ^ 32
  inflate_deflate : ∀ src, inflate (deflate src) = src
  inflate_nil : inflate [] = []

structure Digests where
  crc32 : List UInt8 → UInt32
  md5 : List UInt8 → Option (List UInt8)
  sha1 : List UInt8 → List UInt8

namespace UtilAll

def compress (z : Zlib) (src : List UInt8) : List UInt8 :=
  let out := z.deflate (src.take (src.length % 2 ^ 32))
  if out.length ≤ z.deflateBound src.length % 2 ^ 32 then out else []

def uncompress (z : Zlib) (src : List UInt8) : List UInt8 :=
  z.inflate (src.take (src.length % 2 ^ 32))

end UtilAll

namespace MixAll

def hexDigits : List Char :=
  ['0', '1', '2', '3', '4', '5', '6', '7', '8', '9', 'A', 'B', 'C', 'D', 'E', 'F']

def hex (data : List UInt8) : String :=
  String.ofList (data.flatMap fun c =>
    [hexDigits.getD (c.toNat / 16) '0', hexDigits.getD (c.toNat % 16) '0'])

def networkByteOrder (n : UInt32) : List UInt8 :=
  [(n >>> 24).toUInt8, (n >>> 16).toUInt8, (n >>> 8).toUInt8, n.toUInt8]

def crc32 (d : Digests) (data : List UInt8) : String := hex (networkByteOrder (d.crc32 data))

def md5 (d : Digests) (data : List UInt8) : Option String := (d.md5 data).map hex

def sha1 (d : Digests) (data : List UInt8) : String := hex (d.sha1 data)

def isTopicChar (c : Char) : Bool :=
  ('a' ≤ c && c ≤ 'z') || ('A' ≤ c && c ≤ 'Z') || ('0' ≤ c && c ≤ '9') || c == '-' || c == '_'

def topicRegex : List (Pattern.Piece Char) :=
  [{ accepts := isTopicChar, least := 3, most := some 64 }]

def validate (m : MQMessage) : Bool :=
  if m.getTopic.isEmpty then false
  else if ['C', 'I', 'D'].isPrefixOf m.getTopic.toList ||
      ['G', 'I', 'D'].isPrefixOf m.getTopic.toList then false
  else if !Pattern.fullMatch topicRegex m.getTopic.toList then false
  else if m.bodyLength = 0 ∨ maxMessageBodySize < m.bodyLength then false
  else true

theorem bodyLength_of_validate {m : MQMessage} (h : validate m = true) :
    0 < m.bodyLength ∧ m.bodyLength ≤ maxMessageBodySize := by
  rw [validate] at h
  split_ifs at h with _ _ _ hlen
  omega

end MixAll

namespace rmq

inductive DigestType
  | crc32
  | md5
  | sha1
  | unrecognized
  deriving DecidableEq, Repr

structure Digest where
  type : DigestType := .crc32
  checksum : String := ""
  deriving DecidableEq, Repr

inductive Encoding
  | identity
  | gzip
  | unrecognized
  deriving DecidableEq, Repr

inductive MessageType
  | normal
  | fifo
  | delay
  | transaction
  | unrecognized
  deriving DecidableEq, Repr

structure Timestamp where
  seconds : ℤ := 0
  nanos : ℤ := 0
  deriving DecidableEq, Repr

inductive TimedDelivery
  | notSet
  | deliveryTimestamp (time : Timestamp)
  | delayLevel (level : ℤ)
  deriving DecidableEq, Repr

structure SystemAttribute where
  tag : String := ""
  keys : List String := []
  messageId : String := ""
  bodyDigest : Digest := {}
  bodyEncoding : Encoding := .identity
  messageType : MessageType := .normal
  bornTimestamp : Option Timestamp := none
  bornHost : String := ""
  storeTimestamp : Option Timestamp := none
  storeHost : String := ""
  timedDelivery : TimedDelivery := .notSet
  receiptHandle : String := ""
  partitionId : ℤ := 0
  partitionOffset : ℤ := 0
  invisiblePeriod : Option Timestamp := none
  deliveryAttempt : ℤ := 0
  producerGroup : Resource := {}
  messageGroup : String := ""
  traceContext : String := ""
  deriving DecidableEq, Repr

structure Message where
  topic : Resource := {}
  userAttribute : List (String × String) := []
  systemAttribute : SystemAttribute := {}
  body : List UInt8 := []
  deriving DecidableEq, Repr

def MessageType.ofClient : RocketMQClient.MessageType → MessageType
  | .normal => .normal
  | .fifo => .fifo
  | .delay => .delay
  | .transaction => .transaction

def MessageType.toClient : MessageType → RocketMQClient.MessageType
  | .normal => .normal
  | .fifo => .fifo
  | .delay => .delay
  | .transaction => .transaction
  | .unrecognized => .normal

theorem MessageType.toClient_ofClient (t : RocketMQClient.MessageType) :
    (MessageType.ofClient t).toClient = t := by
  cases t <;> rfl

end rmq

structure EncoderConfig where
  resourceNamespace : String := ""
  groupName : String := ""
  compressBodyThreshold : ℕ := 1024 * 1024 * 4

/-- What the encoder and the decoder read from their surroundings: the clock in
nanoseconds, the host name, the next identity of `UniqueIdGenerator`, and what a message
type that was never set is taken for. -/
structure Surroundings where
  now : ℤ := 0
  hostname : String := ""
  nextId : String := ""
  indeterminate : MessageType := .normal

def encodedBody (z : Zlib) (cfg : EncoderConfig) (m : MQMessage) : List UInt8 × rmq.Encoding :=
  if cfg.compressBodyThreshold ≤ m.bodyLength then (UtilAll.compress z m.getBody, .gzip)
  else (m.getBody, .identity)

def wrapSendMessageRequest (z : Zlib) (cfg : EncoderConfig) (env : Surroundings) (m : MQMessage)
    (q : MQMessageQueue) : rmq.Message :=
  { topic := { resourceNamespace := cfg.resourceNamespace, name := m.getTopic }
    userAttribute := m.getProperties.entries
    systemAttribute :=
      { bornTimestamp := some { seconds := env.now.tdiv (10 ^ 9), nanos := env.now.tmod (10 ^ 9) }
        bornHost := env.hostname
        producerGroup := { resourceNamespace := cfg.resourceNamespace, name := cfg.groupName }
        messageType := .ofClient (m.messageType.getD env.indeterminate)
        bodyEncoding := (encodedBody z cfg m).2
        messageId := env.nextId
        partitionId := q.queueId }
    body := (encodedBody z cfg m).1 }

def bodyDigestMatch (d : Digests) (item : rmq.Message) : Bool :=
  let digest := item.systemAttribute.bodyDigest
  if item.body.isEmpty then true
  else match digest.type with
    | .crc32 => digest.checksum == MixAll.crc32 d item.body
    | .md5 => match MixAll.md5 d item.body with
      | some checksum => digest.checksum == checksum
      -- a failed computation of the digest is passed over
      | none => true
    | .sha1 => MixAll.sha1 d item.body == digest.checksum
    | .unrecognized => true

def decodedBody (z : Zlib) (item : rmq.Message) (body : List UInt8) : List UInt8 :=
  match item.systemAttribute.bodyEncoding with
  | .gzip => UtilAll.uncompress z item.body
  | .identity => item.body
  | .unrecognized => body

-- `absl::TimeFromTimeval` takes microseconds; the delivery time is handed over undivided
def timeOf (t : rmq.Timestamp) : ℤ := t.seconds * 10 ^ 9 + t.nanos.tdiv 1000 * 1000

def deliveryTimeOf (t : rmq.Timestamp) : ℤ := t.seconds * 10 ^ 9 + t.nanos * 1000

def decodedAttribute (env : Surroundings) (a : rmq.SystemAttribute) (fresh : SystemAttribute) :
    SystemAttribute :=
  { fresh with
    receiptHandle := a.receiptHandle
    tag := a.tag
    keys := a.keys
    messageId := a.messageId
    messageType := some a.messageType.toClient
    bornTimestamp := (a.bornTimestamp.map timeOf).getD fresh.bornTimestamp
    bornHost := a.bornHost
    storeTimestamp := (a.storeTimestamp.map timeOf).getD fresh.storeTimestamp
    storeHost := a.storeHost
    delayLevel := match a.timedDelivery with
      | .delayLevel level => level
      | _ => fresh.delayLevel
    deliveryTimestamp := match a.timedDelivery with
      | .deliveryTimestamp time => deliveryTimeOf time
      | _ => fresh.deliveryTimestamp
    partitionId := a.partitionId
    partitionOffset := a.partitionOffset
    invisiblePeriod := match a.invisiblePeriod with
      | some p => p.seconds * 10 ^ 9 + p.nanos
      | none => fresh.invisiblePeriod
    attemptTimes := a.deliveryAttempt
    traceContext := a.traceContext
    decodeTimestamp := env.now }

inductive Decoded
  | aborted
  | rejected
  | accepted (message : MQMessageExt)

def freshMessage (env : Surroundings) (targetEndpoint : String) : MQMessageExt :=
  { impl := { systemAttribute :=
      { messageId := env.nextId, bornHost := env.hostname, bornTimestamp := env.now
        decodeTimestamp := env.now, targetEndpoint := targetEndpoint } } }

def wrapMessage (z : Zlib) (d : Digests) (resourceNamespace : String) (env : Surroundings)
    (item : rmq.Message) (ext : MQMessageExt) : Decoded :=
  -- an assertion of the source
  if item.topic.resourceNamespace ≠ resourceNamespace then .aborted
  else if !bodyDigestMatch d item then .rejected
  else .accepted
    { ext with impl :=
      { topic := { ext.impl.topic with name := item.topic.name }
        userAttributeMap := ext.impl.userAttributeMap.insertAll
          ((OrderedSet.empty : Properties).insertAll item.userAttribute).entries
        systemAttribute := decodedAttribute env item.systemAttribute ext.impl.systemAttribute
        body := decodedBody z item ext.impl.body } }

def Zlib.stored : Zlib where
  deflate src := src
  deflateBound n := n
  inflate src := src
  deflate_length_le _ := le_rfl
  deflateBound_lt n hn := hn.trans_lt (by decide)
  inflate_deflate _ := rfl
  inflate_nil := rfl

def Digests.zero : Digests where
  crc32 _ := 0
  md5 _ := none
  sha1 _ := []

end RocketMQClient
