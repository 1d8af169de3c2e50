import RocketMQClient.Codec
import RocketMQClient.UniqueId

/-!
# The round trip of a message

A message is encoded by its producer, forwarded by the broker with attributes of its own,
and decoded by a consumer. The constructor of `MQMessage` draws an id from the generator of
the process, and the encoder draws another one instead of sending it.
-/

namespace RocketMQClient

namespace UtilAll

theorem uncompress_deflate (z : Zlib) {src : List UInt8} (h : src.length ≤ maxMessageBodySize) :
    uncompress z (z.deflate src) = src := by
  have hlen : (z.deflate src).length < 2 ^ 32 :=
    (z.deflate_length_le src).trans_lt (z.deflateBound_lt _ h)
  rw [uncompress, Nat.mod_eq_of_lt hlen, List.take_length, z.inflate_deflate]

theorem uncompress_compress (z : Zlib) {src : List UInt8} (h : src.length ≤ maxMessageBodySize) :
    uncompress z (compress z src) = src := by
  have hsmall : src.length < 2 ^ 32 := h.trans_lt (by decide)
  have hbound : z.deflateBound src.length % 2 ^ 32 = z.deflateBound src.length :=
    Nat.mod_eq_of_lt (z.deflateBound_lt _ h)
  have hout : compress z src = z.deflate src := by
    simp only [compress, Nat.mod_eq_of_lt hsmall, List.take_length, hbound]
    exact if_pos (z.deflate_length_le src)
  rw [hout, uncompress_deflate z h]

theorem uncompress_compress_length_lt (z : Zlib) {src : List UInt8} (h : 2 ^ 32 ≤ src.length)
    (hmod : src.length % 2 ^ 32 ≤ maxMessageBodySize) :
    (uncompress z (compress z src)).length < src.length := by
  have hpart : (src.take (src.length % 2 ^ 32)).length = src.length % 2 ^ 32 := by
    rw [List.length_take]
    exact Nat.min_eq_left (Nat.mod_le _ _)
  have hlt : src.length % 2 ^ 32 < src.length := (Nat.mod_lt _ (by decide)).trans_le h
  simp only [compress]
  split_ifs
  · rw [uncompress_deflate z (hpart.trans_le hmod), hpart]
    exact hlt
  · simp only [uncompress, List.take_nil, z.inflate_nil, List.length_nil]
    omega

end UtilAll

def DigestCorrect (d : Digests) (item : rmq.Message) : Prop :=
  let digest := item.systemAttribute.bodyDigest
  match digest.type with
  | .crc32 => digest.checksum = MixAll.crc32 d item.body
  | .md5 => ∀ checksum, MixAll.md5 d item.body = some checksum → digest.checksum = checksum
  | .sha1 => digest.checksum = MixAll.sha1 d item.body
  | .unrecognized => True

theorem bodyDigestMatch_of_correct {d : Digests} {item : rmq.Message} (h : DigestCorrect d item) :
    bodyDigestMatch d item = true := by
  by_cases hempty : item.body.isEmpty = true
  · simp [bodyDigestMatch, hempty]
  · cases ht : item.systemAttribute.bodyDigest.type with
    | crc32 =>
      simp only [DigestCorrect, ht] at h
      simp [bodyDigestMatch, ht, h]
    | md5 =>
      simp only [DigestCorrect, ht] at h
      cases hm : MixAll.md5 d item.body with
      | none => simp [bodyDigestMatch, ht, hm]
      | some checksum => simp [bodyDigestMatch, ht, hm, h checksum hm]
    | sha1 =>
      simp only [DigestCorrect, ht] at h
      simp [bodyDigestMatch, ht, h]
    | unrecognized => simp [bodyDigestMatch, ht]

/-- What the broker may change between the message sent and the message handed
to a consumer. -/
structure Forwarded (d : Digests) (sent item : rmq.Message) : Prop where
  topic : item.topic = sent.topic
  body : item.body = sent.body
  userAttribute : item.userAttribute.Perm sent.userAttribute
  systemAttribute : ∃ digest time host offset handle attempt,
    item.systemAttribute =
      { sent.systemAttribute with
        bodyDigest := digest
        storeTimestamp := time
        storeHost := host
        partitionOffset := offset
        receiptHandle := handle
        deliveryAttempt := attempt }
  digest : DigestCorrect d item

structure SameApartFromId (m : MQMessage) (q : MQMessageQueue) (ext : MQMessageExt) : Prop where
  topic : ext.getTopic = m.getTopic
  tags : ext.getTags = m.getTags
  keys : ext.getKeys = m.getKeys
  body : ext.getBody = m.getBody
  properties : ext.getProperties = m.getProperties
  messageType : ext.messageType = m.messageType
  delayTimeLevel : ext.getDelayTimeLevel = m.getDelayTimeLevel
  traceContext : ext.traceContext = m.traceContext
  queueId : ext.getQueueId = q.queueId

structure SameContent (m : MQMessage) (q : MQMessageQueue) (ext : MQMessageExt) : Prop
    extends SameApartFromId m q ext where
  msgId : ext.getMsgId = m.getMsgId

/-- The message has a type, it sets no attribute that the encoder leaves out, and a body to
be compressed fits 32 bits. -/
structure Encodable (cfg : EncoderConfig) (m : MQMessage) : Prop where
  messageType : m.messageType ≠ none
  tags : m.getTags = ""
  keys : m.getKeys = []
  delayTimeLevel : m.getDelayTimeLevel = 0
  traceContext : m.traceContext = ""
  body : cfg.compressBodyThreshold ≤ m.bodyLength → m.getBody.length < 2 ^ 32

section RoundTrip
variable {z : Zlib} {d : Digests} {cfg : EncoderConfig} {env : Surroundings} {m : MQMessage}
  {q : MQMessageQueue} {item : rmq.Message}

theorem decodedBody_eq_iff (hv : MixAll.validate m = true)
    (hf : Forwarded d (wrapSendMessageRequest z cfg env m q) item) (body : List UInt8) :
    decodedBody z item body = m.getBody ↔
      (cfg.compressBodyThreshold ≤ m.bodyLength → m.getBody.length < 2 ^ 32) := by
  obtain ⟨-, hmax⟩ := MixAll.bodyLength_of_validate hv
  obtain ⟨_, _, _, _, _, _, hattr⟩ := hf.systemAttribute
  have hbody : item.body = (encodedBody z cfg m).1 := hf.body
  have henc : item.systemAttribute.bodyEncoding = (encodedBody z cfg m).2 := by rw [hattr]; rfl
  rw [decodedBody, henc, hbody, encodedBody]
  split_ifs with hz
  · change UtilAll.uncompress z (UtilAll.compress z m.getBody) = m.getBody ↔ _
    rw [forall_prop_of_true hz]
    constructor
    · intro heq
      by_contra hlarge
      have hlt := UtilAll.uncompress_compress_length_lt z (not_lt.mp hlarge) hmax
      rw [heq] at hlt
      exact lt_irrefl _ hlt
    · intro hsmall
      have hlen : m.bodyLength = m.getBody.length := Nat.mod_eq_of_lt hsmall
      exact UtilAll.uncompress_compress z (hlen ▸ hmax)
  · exact iff_of_true rfl fun h => absurd h hz

theorem wrapMessage_forwarded (env' : Surroundings) (host : String)
    (hf : Forwarded d (wrapSendMessageRequest z cfg env m q) item) :
    ∃ ext, wrapMessage z d cfg.resourceNamespace env' item (freshMessage env' host) =
        .accepted ext ∧
      ext.getTopic = m.getTopic ∧ ext.getTags = "" ∧ ext.getKeys = [] ∧
      ext.getMsgId = env.nextId ∧ ext.getBody = decodedBody z item [] ∧
      ext.getProperties = m.getProperties ∧
      ext.messageType = some (m.messageType.getD env.indeterminate) ∧
      ext.getDelayTimeLevel = 0 ∧ ext.traceContext = "" ∧ ext.getQueueId = q.queueId := by
  obtain ⟨_, _, _, _, _, _, hattr⟩ := hf.systemAttribute
  have hns : ¬ item.topic.resourceNamespace ≠ cfg.resourceNamespace := by
    rw [hf.topic]
    simp [wrapSendMessageRequest]
  have hmatch : ¬ (!bodyDigestMatch d item) = true := by simp [bodyDigestMatch_of_correct hf.digest]
  have hprops : (OrderedSet.empty : Properties).insertAll item.userAttribute = m.getProperties :=
    OrderedSet.insertAll_perm hf.userAttribute
  simp only [wrapMessage, if_neg hns, if_neg hmatch, hprops]
  refine ⟨_, rfl, ?_, ?_, ?_, ?_, rfl, ?_, ?_, ?_, ?_, ?_⟩
  · change item.topic.name = _
    rw [hf.topic]
    rfl
  · change item.systemAttribute.tag = _
    rw [hattr]
    rfl
  · change item.systemAttribute.keys = _
    rw [hattr]
    rfl
  · change item.systemAttribute.messageId = _
    rw [hattr]
    rfl
  · exact OrderedSet.insertAll_perm (List.Perm.refl _)
  · change some item.systemAttribute.messageType.toClient = _
    rw [hattr]
    exact congrArg some (rmq.MessageType.toClient_ofClient _)
  · change (decodedAttribute env' item.systemAttribute _).delayLevel = 0
    rw [hattr]
    rfl
  · change item.systemAttribute.traceContext = _
    rw [hattr]
    rfl
  · change item.systemAttribute.partitionId = _
    rw [hattr]
    rfl

theorem wrapMessage_sameApartFromId_iff (env' : Surroundings) (host : String)
    (hv : MixAll.validate m = true)
    (hf : Forwarded d (wrapSendMessageRequest z cfg env m q) item) :
    ∃ ext, wrapMessage z d cfg.resourceNamespace env' item (freshMessage env' host) =
        .accepted ext ∧
      ext.getMsgId = env.nextId ∧ (SameApartFromId m q ext ↔ Encodable cfg m) := by
  obtain ⟨ext, hext, htopic, htags, hkeys, hid, hbody, hprops, htype, hdelay, htrace, hqueue⟩ :=
    wrapMessage_forwarded env' host hf
  have hbody_iff := decodedBody_eq_iff hv hf []
  rw [← hbody] at hbody_iff
  refine ⟨ext, hext, hid, fun hs => ?_, fun he => ?_⟩
  · have hset : m.messageType ≠ none := by
      rw [← hs.messageType, htype]
      simp
    exact ⟨hset, hs.tags.symm.trans htags, hs.keys.symm.trans hkeys,
      hs.delayTimeLevel.symm.trans hdelay, hs.traceContext.symm.trans htrace,
      hbody_iff.mp hs.body⟩
  · obtain ⟨type, hset⟩ := Option.ne_none_iff_exists'.mp he.messageType
    have hsame : ext.messageType = m.messageType := by
      rw [htype, hset]
      rfl
    exact ⟨htopic, htags.trans he.tags.symm, hkeys.trans he.keys.symm, hbody_iff.mpr he.body,
      hprops, hsame, hdelay.trans he.delayTimeLevel.symm, htrace.trans he.traceContext.symm, hqueue⟩

end RoundTrip

/-- The ids of the message and of the request are two that one generator gave out. Then a
valid message that the broker forwards never comes back with its own id, and all the rest of
it comes back exactly if it is encodable. -/
theorem roundTrip_apart_from_id_iff (generator : UniqueId.Host) {es : List UniqueId.Event}
    {s : UniqueId.State} (hclock : UniqueId.Steady generator es)
    (hrun : (UniqueId.machine generator).run es = some s) {i j : ℕ} (hij : i ≠ j)
    (z : Zlib) (d : Digests) (cfg : EncoderConfig) (env env' : Surroundings) (host : String)
    (m : MQMessage) (q : MQMessageQueue) (hid : s.returned[i]? = some m.getMsgId)
    (hnext : s.returned[j]? = some env.nextId) (hv : MixAll.validate m = true)
    {item : rmq.Message} (hf : Forwarded d (wrapSendMessageRequest z cfg env m q) item) :
    (¬ ∃ ext, wrapMessage z d cfg.resourceNamespace env' item (freshMessage env' host) =
      .accepted ext ∧ SameContent m q ext) ∧
    ((∃ ext, wrapMessage z d cfg.resourceNamespace env' item (freshMessage env' host) =
      .accepted ext ∧ SameApartFromId m q ext) ↔ Encodable cfg m) := by
  obtain ⟨ext, hext, hdrawn, hiff⟩ := wrapMessage_sameApartFromId_iff env' host hv hf
  have hnodup := UniqueId.returned_nodup hrun (UniqueId.calls_nodup hclock hrun)
  have hne : env.nextId ≠ m.getMsgId := by
    intro heq
    rw [heq, ← hid] at hnext
    obtain ⟨hlt, -⟩ := List.getElem?_eq_some_iff.mp hid
    exact hij ((List.getElem?_inj hlt hnodup).mp hnext.symm)
  constructor
  · rintro ⟨ext', hext', hs⟩
    cases hext.symm.trans hext'
    exact hne (hdrawn.symm.trans hs.msgId)
  · constructor
    · rintro ⟨ext', hext', hs⟩
      cases hext.symm.trans hext'
      exact hiff.mp hs
    · intro he
      exact ⟨ext, hext, hiff.mpr he⟩

def smallMessage (attributes : SystemAttribute) : MQMessage :=
  { impl := { topic := { name := "abc" }, body := [120], systemAttribute :=
      { attributes with messageId := UniqueId.Host.render {} ⟨0, 1⟩ } } }

def secondDrawn : Surroundings := { nextId := UniqueId.Host.render {} ⟨0, 2⟩ }

def withChecksum (sent : rmq.Message) : rmq.Message :=
  { sent with systemAttribute := { sent.systemAttribute with
      bodyDigest := { checksum := MixAll.crc32 Digests.zero sent.body } } }

theorem forwarded_withChecksum (sent : rmq.Message) :
    Forwarded Digests.zero sent (withChecksum sent) :=
  ⟨rfl, rfl, List.Perm.refl _, ⟨_, _, _, _, _, _, rfl⟩, rfl⟩

theorem roundTrip_small :
    (¬ ∃ ext, wrapMessage Zlib.stored Digests.zero "" {}
        (withChecksum (wrapSendMessageRequest Zlib.stored {} secondDrawn
          (smallMessage { messageType := some .normal }) {})) (freshMessage {} "") =
      .accepted ext ∧ SameContent (smallMessage { messageType := some .normal }) {} ext) ∧
    ∃ ext, wrapMessage Zlib.stored Digests.zero "" {}
        (withChecksum (wrapSendMessageRequest Zlib.stored {} secondDrawn
          (smallMessage { messageType := some .normal }) {})) (freshMessage {} "") =
      .accepted ext ∧ SameApartFromId (smallMessage { messageType := some .normal }) {} ext := by
  have hclock : UniqueId.Steady {} [.draw 0, .draw 5, .finish 0, .finish 0] := by
    refine ⟨by decide, by decide, fun v => ?_⟩
    exact (List.length_filter_le _ _).trans_lt (by decide)
  obtain ⟨hnever, hiff⟩ := roundTrip_apart_from_id_iff {} hclock rfl (i := 0) (j := 1)
    (by decide) Zlib.stored Digests.zero {} secondDrawn {} ""
    (smallMessage { messageType := some .normal }) {} rfl rfl (by decide)
    (forwarded_withChecksum _)
  exact ⟨hnever, hiff.mpr ⟨by decide, rfl, rfl, rfl, rfl, fun _ => by decide⟩⟩

theorem tag_lost :
    MixAll.validate (smallMessage { tag := "TagA", messageType := some .normal }) = true ∧
    ∃ item ext, Forwarded Digests.zero (wrapSendMessageRequest Zlib.stored {} secondDrawn
        (smallMessage { tag := "TagA", messageType := some .normal }) {}) item ∧
      wrapMessage Zlib.stored Digests.zero "" {} item (freshMessage {} "") = .accepted ext ∧
      ext.getTags = "" ∧
      ext.getMsgId = UniqueId.Host.render {} ⟨0, 2⟩ ∧
      ¬ SameContent (smallMessage { tag := "TagA", messageType := some .normal }) {} ext := by
  refine ⟨by decide, _, _, forwarded_withChecksum _, rfl, rfl, rfl, fun hs => ?_⟩
  exact absurd hs.tags (by decide)

end RocketMQClient
