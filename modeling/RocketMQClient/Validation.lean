import RocketMQClient.SendErrorCode

/-!
# The messages a producer accepts

`MixAll::validate` looks at the topic and at the length of the body, and `send0` sends
nothing that it rejects. The length is the one `bodyLength` returns, which has 32 bits: of a
body of `2 ^ 32` bytes or more only the remainder is compared with the limit.

`Legal` says which messages ought to pass, from the length of the body itself.
-/

namespace RocketMQClient

theorem MQMessage.bodyLength_eq (m : MQMessage) : m.bodyLength = m.getBody.length % 2 ^ 32 := rfl

namespace MixAll

def TopicChar (c : Char) : Prop :=
  ('a' ≤ c ∧ c ≤ 'z') ∨ ('A' ≤ c ∧ c ≤ 'Z') ∨ ('0' ≤ c ∧ c ≤ '9') ∨ c = '_' ∨ c = '-'

structure LegalTopic (topic : String) : Prop where
  chars : ∀ c ∈ topic.toList, TopicChar c
  length_ge : 3 ≤ topic.length
  length_le : topic.length ≤ 64
  not_cid : ¬ ['C', 'I', 'D'] <+: topic.toList
  not_gid : ¬ ['G', 'I', 'D'] <+: topic.toList

structure Legal (m : MQMessage) : Prop where
  topic : LegalTopic m.getTopic
  body_ge : 1 ≤ m.getBody.length
  body_le : m.getBody.length ≤ 4 * 1024 * 1024

theorem isTopicChar_iff (c : Char) : isTopicChar c = true ↔ TopicChar c := by
  simp only [isTopicChar, Bool.or_eq_true, Bool.and_eq_true, decide_eq_true_eq, beq_iff_eq,
    TopicChar]
  tauto

theorem fullMatch_topicRegex_iff (topic : String) :
    Pattern.fullMatch topicRegex topic.toList = true ↔
      (∀ c ∈ topic.toList, TopicChar c) ∧ 3 ≤ topic.length ∧ topic.length ≤ 64 := by
  rw [topicRegex, Pattern.fullMatch_singleton_iff, Pattern.Piece.mem_language]
  simp [isTopicChar_iff, String.length_toList]

theorem validate_iff (m : MQMessage) :
    validate m = true ↔
      LegalTopic m.getTopic ∧ 1 ≤ m.bodyLength ∧ m.bodyLength ≤ maxMessageBodySize := by
  constructor
  · intro h
    obtain ⟨hpos, hmax⟩ := bodyLength_of_validate h
    rw [validate] at h
    split_ifs at h with hempty hreserved hregex hlen
    simp only [Bool.or_eq_true, List.isPrefixOf_iff_prefix, not_or] at hreserved
    simp only [Bool.not_eq_true, Bool.not_eq_false'] at hregex
    obtain ⟨hchars, hmin, hle⟩ := (fullMatch_topicRegex_iff _).mp hregex
    exact ⟨⟨hchars, hmin, hle, hreserved.1, hreserved.2⟩, hpos, hmax⟩
  · intro h
    obtain ⟨htopic, hpos, hmax⟩ := h
    have hne : ¬ m.getTopic.isEmpty = true := by
      intro hempty
      have hmin := htopic.length_ge
      rw [String.isEmpty_iff.mp hempty] at hmin
      exact absurd hmin (by decide)
    have hreserved : ¬ (['C', 'I', 'D'].isPrefixOf m.getTopic.toList ||
        ['G', 'I', 'D'].isPrefixOf m.getTopic.toList) = true := by
      simp only [Bool.or_eq_true, List.isPrefixOf_iff_prefix, not_or]
      exact ⟨htopic.not_cid, htopic.not_gid⟩
    have hregex : Pattern.fullMatch topicRegex m.getTopic.toList = true :=
      (fullMatch_topicRegex_iff _).mpr ⟨htopic.chars, htopic.length_ge, htopic.length_le⟩
    rw [validate, if_neg hne, if_neg hreserved, if_neg (by simp [hregex]), if_neg (by omega)]

/-- The remainder of the length that is compared with the limit decides as the length does. -/
def LengthKept (n : ℕ) : Prop :=
  n < 2 ^ 32 ∨ n % 2 ^ 32 = 0 ∨ 4 * 1024 * 1024 < n % 2 ^ 32

theorem lengthKept_iff (n : ℕ) :
    LengthKept n ↔
      (1 ≤ n % 2 ^ 32 ∧ n % 2 ^ 32 ≤ maxMessageBodySize ↔ 1 ≤ n ∧ n ≤ 4 * 1024 * 1024) := by
  have hsmall : n < 2 ^ 32 → n % 2 ^ 32 = n := Nat.mod_eq_of_lt
  rw [LengthKept, show maxMessageBodySize = 4194304 from rfl]
  omega

theorem validate_iff_legal_iff (m : MQMessage) :
    (validate m = true ↔ Legal m) ↔ (LegalTopic m.getTopic → LengthKept m.getBody.length) := by
  have hlegal : Legal m ↔
      LegalTopic m.getTopic ∧ 1 ≤ m.getBody.length ∧ m.getBody.length ≤ 4 * 1024 * 1024 :=
    ⟨fun h => ⟨h.topic, h.body_ge, h.body_le⟩, fun h => ⟨h.1, h.2.1, h.2.2⟩⟩
  rw [validate_iff, hlegal, lengthKept_iff, MQMessage.bodyLength_eq]
  exact and_congr_right_iff

end MixAll

/-- `validate` accepts the message exactly if it is legal, and `send0` makes no RPC for it
if it is not, whatever the candidates are and whatever the servers answer. -/
def ValidatesExactly (m : MQMessage) : Prop :=
  (MixAll.validate m = true ↔ MixAll.Legal m) ∧
    (¬ MixAll.Legal m → ∀ (p : Producer) (env : Attempts) (list : List MQMessageQueue),
      attemptRpcs (p.send0Trace env m list).attempts = [])

theorem attemptRpcs_of_not_validate {m : MQMessage} (h : ¬ MixAll.validate m = true)
    (p : Producer) (env : Attempts) (list : List MQMessageQueue) :
    attemptRpcs (p.send0Trace env m list).attempts = [] := by
  rw [Producer.send0Trace, if_pos (by simp [h])]
  rfl

theorem Producer.attemptRpcs_ne_nil {p : Producer} {env : Attempts} {m : MQMessage}
    {list : List MQMessageQueue} (hne : list ≠ []) (hvalid : MixAll.validate m = true)
    (hmax : 0 < p.maxAttemptTimes) (hprovider : env.credentialsProvider = true)
    (haddress : (queueAt list 0).serviceAddress.isEmpty = false) :
    attemptRpcs (p.send0Trace env m list).attempts ≠ [] := by
  rcases p.send0Trace_cases env m hne with ⟨hinvalid, -⟩ | ⟨-, hnone, -⟩ | ⟨-, -, -, k, hk⟩ |
    ⟨hcrash, -⟩
  · simp [hvalid] at hinvalid
  · exact absurd hmax (not_lt.mpr hnone)
  · rw [Ne, runsTo_silent_iff hk]
    intro hall
    rw [hall 0 (Nat.zero_le k)] at haddress
    cases haddress
  · simp [hcrash.unset] at hprovider

theorem validates_exactly_iff (m : MQMessage) :
    ValidatesExactly m ↔
      (MixAll.LegalTopic m.getTopic →
        m.getBody.length < 2 ^ 32 ∨ m.getBody.length % 2 ^ 32 = 0 ∨
          4 * 1024 * 1024 < m.getBody.length % 2 ^ 32) := by
  constructor
  · intro h
    exact (MixAll.validate_iff_legal_iff m).mp h.1
  · intro h
    have hiff := (MixAll.validate_iff_legal_iff m).mpr h
    refine ⟨hiff, fun hillegal => ?_⟩
    exact attemptRpcs_of_not_validate fun hvalid => hillegal (hiff.mp hvalid)

def oversized : MQMessage :=
  { impl := { topic := { name := "topic" }, body := List.replicate (2 ^ 32 + 1) 0 } }

theorem oversized_validates :
    MixAll.validate oversized = true ∧ oversized.getBody.length = 2 ^ 32 + 1 ∧
      (∃ (p : Producer) (env : Attempts) (list : List MQMessageQueue),
        attemptRpcs (p.send0Trace env oversized list).attempts ≠ []) ∧
      ¬ ValidatesExactly oversized := by
  have hlength : oversized.getBody.length = 2 ^ 32 + 1 := List.length_replicate
  have htopic : MixAll.LegalTopic oversized.getTopic := by
    obtain ⟨hchars, hmin, hmax⟩ := (MixAll.fullMatch_topicRegex_iff "topic").mp (by decide)
    exact ⟨hchars, hmin, hmax, by decide, by decide⟩
  have hbody : oversized.bodyLength = 1 := by
    rw [MQMessage.bodyLength_eq, hlength]
    omega
  have hvalid : MixAll.validate oversized = true :=
    (MixAll.validate_iff _).mpr ⟨htopic, hbody.ge, hbody.trans_le (by decide)⟩
  refine ⟨hvalid, hlength, ?_, ?_⟩
  · refine ⟨{ hash := fun _ => 0 }, answering true,
      [{ serviceAddress := "ipv4:127.0.0.1:80" }], ?_⟩
    exact Producer.attemptRpcs_ne_nil (by simp) hvalid (by decide) rfl (by decide)
  · intro h
    have hlegal := h.1.mp hvalid
    have hle := hlegal.body_le
    rw [hlength] at hle
    omega

end RocketMQClient
