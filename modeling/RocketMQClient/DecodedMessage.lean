import RocketMQClient.Codec

/-!
# The body and the times of a decoded message

`UtilAll::uncompress` calls `inflate` with a buffer of 4096 bytes until the
stream ends or an error occurs, and says whether the end was reached.
`wrapMessage` does not look at that answer.

`Inflater` is the streaming interface of zlib as its manual describes it. What
the calls write in total and whether they reach the end of the stream depends on
the input alone, and `rest` is this pair for the calls still to come. A `ZStream`
adds the compressor. The loop over a `ZStream` is a `Zlib`, so what holds of the
codec for every `Zlib` holds of the loop.
-/

namespace RocketMQClient

inductive ZStatus
  | ok
  | streamEnd
  | needDict
  | streamError
  | dataError
  | memError
  | bufError
  deriving DecidableEq, Repr

structure Inflater where
  State : Type
  inflateInit : List UInt8 → State
  inflate : ℕ → State → ZStatus × List UInt8 × State
  left : State → ℕ
  rest : State → List UInt8 × Bool
  length_le : ∀ availOut s, (inflate availOut s).2.1.length ≤ availOut
  left_lt : ∀ {availOut s out t}, 0 < availOut → inflate availOut s = (.ok, out, t) →
    left t < left s
  rest_ok : ∀ {availOut s out t}, 0 < availOut → inflate availOut s = (.ok, out, t) →
    rest s = (out ++ (rest t).1, (rest t).2)
  rest_streamEnd : ∀ {availOut s out t}, 0 < availOut →
    inflate availOut s = (.streamEnd, out, t) → rest s = (out, true)
  rest_streamError : ∀ {availOut s out t}, 0 < availOut →
    inflate availOut s = (.streamError, out, t) → rest s = ([], false)
  rest_error : ∀ {availOut s status out t}, 0 < availOut → inflate availOut s = (status, out, t) →
    status ≠ .ok → status ≠ .streamEnd → status ≠ .streamError → rest s = (out, false)

namespace Inflater
variable (z : Inflater)

def bufferLength : ℕ := 4096

theorem bufferLength_pos : 0 < bufferLength := by decide

def uncompressLoop (s : z.State) (dst : List UInt8) : Bool × List UInt8 :=
  match _hcall : z.inflate bufferLength s with
  | (.streamError, _, _) => (false, dst)
  | (.streamEnd, out, _) => (true, dst ++ out)
  | (.ok, out, t) => uncompressLoop t (dst ++ out)
  | (_, out, _) => (false, dst ++ out)
termination_by z.left s
decreasing_by exact z.left_lt bufferLength_pos _hcall

def uncompress (src : List UInt8) : Bool × List UInt8 :=
  z.uncompressLoop (z.inflateInit (src.take (src.length % 2 ^ 32))) []

def payload (src : List UInt8) : Option (List UInt8) :=
  let r := z.rest (z.inflateInit src)
  if r.2 then some r.1 else none

theorem uncompressLoop_eq (s : z.State) (dst : List UInt8) :
    z.uncompressLoop s dst = ((z.rest s).2, dst ++ (z.rest s).1) := by
  induction hn : z.left s using Nat.strong_induction_on generalizing s dst with
  | _ n ih =>
    have hpos := bufferLength_pos
    rw [uncompressLoop]
    split
    · rename_i h
      rw [z.rest_streamError hpos h, List.append_nil]
    · rename_i h
      rw [z.rest_streamEnd hpos h]
    · rename_i out t h
      have hlt : z.left t < n := hn ▸ z.left_lt hpos h
      rw [ih (z.left t) hlt t (dst ++ out) rfl, z.rest_ok hpos h, List.append_assoc]
    · rename_i hstream hend hok h
      rw [z.rest_error hpos h hok hend hstream]

theorem payload_eq_some_iff {src p : List UInt8} :
    z.payload src = some p ↔ z.rest (z.inflateInit src) = (p, true) := by
  rw [payload]
  cases hr : z.rest (z.inflateInit src) with
  | mk out ended => cases ended <;> simp

end Inflater

structure ZStream extends Inflater where
  deflate : List UInt8 → List UInt8
  deflateBound : ℕ → ℕ
  deflate_length_le : ∀ src, (deflate src).length ≤ deflateBound src.length
  deflateBound_lt : ∀ n ≤ maxMessageBodySize, deflateBound n < 2 ^ 32
  rest_deflate : ∀ src, rest (inflateInit (deflate src)) = (src, true)
  rest_nil : rest (inflateInit []) = ([], false)

def ZStream.toZlib (z : ZStream) : Zlib where
  deflate := z.deflate
  deflateBound := z.deflateBound
  inflate src := (z.uncompressLoop (z.inflateInit src) []).2
  deflate_length_le := z.deflate_length_le
  deflateBound_lt := z.deflateBound_lt
  inflate_deflate src := by rw [z.uncompressLoop_eq, z.rest_deflate, List.nil_append]
  inflate_nil := by rw [z.uncompressLoop_eq, z.rest_nil, List.nil_append]

theorem ZStream.uncompress_toZlib (z : ZStream) (src : List UInt8) :
    UtilAll.uncompress z.toZlib src = (z.uncompress src).2 := rfl

theorem wrapMessage_cases (z : Zlib) (d : Digests) (resourceNamespace : String)
    (env : Surroundings) (item : rmq.Message) (ext : MQMessageExt) :
    (item.topic.resourceNamespace ≠ resourceNamespace ∧
      wrapMessage z d resourceNamespace env item ext = .aborted) ∨
    (item.topic.resourceNamespace = resourceNamespace ∧ bodyDigestMatch d item = false ∧
      wrapMessage z d resourceNamespace env item ext = .rejected) ∨
    (item.topic.resourceNamespace = resourceNamespace ∧ bodyDigestMatch d item = true ∧
      ∃ m, wrapMessage z d resourceNamespace env item ext = .accepted m ∧
        m.getBody = decodedBody z item ext.getBody ∧
        m.impl.systemAttribute =
          decodedAttribute env item.systemAttribute ext.impl.systemAttribute) := by
  rw [wrapMessage]
  split_ifs with hns hdigest
  · exact Or.inl ⟨hns, rfl⟩
  · exact Or.inr (Or.inl ⟨not_not.mp hns, by simpa using hdigest, rfl⟩)
  · exact Or.inr (Or.inr ⟨not_not.mp hns, by simpa using hdigest, _, rfl, rfl, rfl⟩)

def denotedBody (z : Inflater) (item : rmq.Message) : Option (List UInt8) :=
  match item.systemAttribute.bodyEncoding with
  | .identity => some item.body
  | .gzip => z.payload item.body
  | .unrecognized => none

section Body
variable (z : ZStream) (d : Digests) (resourceNamespace : String) (env : Surroundings)
  (item : rmq.Message) (ext : MQMessageExt)

structure BodyFaithful : Prop where
  accepted : ∀ m, wrapMessage z.toZlib d resourceNamespace env item ext = .accepted m →
    denotedBody z.toInflater item = some m.getBody
  rejected : item.topic.resourceNamespace = resourceNamespace →
    denotedBody z.toInflater item = none →
      wrapMessage z.toZlib d resourceNamespace env item ext = .rejected

/-- The body is a stream up to its end. If it has 2 ^ 32 bytes or more, only the first
`length % 2 ^ 32` bytes are read, and they must give all of the payload. -/
def Inflates (body : List UInt8) : Prop :=
  (z.payload body).isSome = true ∧ (2 ^ 32 ≤ body.length →
    (z.rest (z.inflateInit (body.take (body.length % 2 ^ 32)))).1 =
      (z.rest (z.inflateInit body)).1)

def BodyDecodable : Prop :=
  item.topic.resourceNamespace ≠ resourceNamespace ∨ bodyDigestMatch d item = false ∨
    match item.systemAttribute.bodyEncoding with
    | .identity => True
    | .gzip => Inflates z item.body
    | .unrecognized => False

theorem uncompress_eq (src : List UInt8) : (z.uncompress src).2 =
    (z.rest (z.inflateInit (src.take (src.length % 2 ^ 32)))).1 := by
  rw [Inflater.uncompress, z.uncompressLoop_eq, List.nil_append]

theorem payload_eq_uncompress_iff (body : List UInt8) :
    z.payload body = some (z.uncompress body).2 ↔ Inflates z body := by
  rw [Inflates, uncompress_eq]
  by_cases hlong : 2 ^ 32 ≤ body.length
  · constructor
    · intro h
      rw [h]
      exact ⟨rfl, fun _ => by rw [z.payload_eq_some_iff.mp h]⟩
    · intro h
      obtain ⟨p, hp⟩ := Option.isSome_iff_exists.mp h.1
      have hrest := z.payload_eq_some_iff.mp hp
      rw [h.2 hlong, hp, hrest]
  · have hwhole : body.take (body.length % 2 ^ 32) = body := by
      rw [Nat.mod_eq_of_lt (not_le.mp hlong), List.take_length]
    rw [hwhole]
    constructor
    · intro h
      exact ⟨h ▸ rfl, fun hle => absurd hle hlong⟩
    · intro h
      obtain ⟨p, hp⟩ := Option.isSome_iff_exists.mp h.1
      have hrest := z.payload_eq_some_iff.mp hp
      rw [hp, hrest]

theorem denotedBody_eq_decodedBody_iff (body : List UInt8) :
    denotedBody z.toInflater item = some (decodedBody z.toZlib item body) ↔
      match item.systemAttribute.bodyEncoding with
      | .identity => True
      | .gzip => Inflates z item.body
      | .unrecognized => False := by
  rw [denotedBody, decodedBody]
  cases item.systemAttribute.bodyEncoding with
  | identity => exact iff_of_true rfl trivial
  | gzip =>
    simp only [z.uncompress_toZlib]
    exact payload_eq_uncompress_iff z item.body
  | unrecognized => exact iff_of_false (by simp) id

/-- A message is handed over with the body that it denotes, or refused, exactly if it does
not get as far as its body, or its encoding is known and its body decompresses completely. -/
theorem bodyFaithful_iff :
    BodyFaithful z d resourceNamespace env item ext ↔
      BodyDecodable z d resourceNamespace item := by
  rw [BodyDecodable]
  rcases wrapMessage_cases z.toZlib d resourceNamespace env item ext with
    ⟨hns, hwrap⟩ | ⟨hns, hdigest, hwrap⟩ | ⟨hns, hdigest, m, hwrap, hbody, -⟩
  · apply iff_of_true _ (Or.inl hns)
    exact ⟨fun m hm => by simp [hwrap] at hm, fun heq => absurd heq hns⟩
  · apply iff_of_true _ (Or.inr (Or.inl hdigest))
    exact ⟨fun m hm => by simp [hwrap] at hm, fun _ _ => hwrap⟩
  · rw [← denotedBody_eq_decodedBody_iff z item ext.getBody, ← hbody]
    constructor
    · intro h
      exact Or.inr (Or.inr (h.accepted m hwrap))
    · intro h
      have hdenoted : denotedBody z.toInflater item = some m.getBody := by
        rcases h with hne | hfalse | h
        · exact absurd hns hne
        · simp [hdigest] at hfalse
        · exact h
      refine ⟨fun m' hm' => ?_, fun _ hnone => ?_⟩
      · rw [hwrap] at hm'
        cases hm'
        exact hdenoted
      · simp [hdenoted] at hnone

end Body

namespace ZStream

def markedRest : List UInt8 → List UInt8 × Bool
  | [] => ([], false)
  | [mark] => ([], mark = 0)
  | mark :: b :: src =>
    if mark = 0 then ([], true) else (b :: (markedRest src).1, (markedRest src).2)

def markedInflate (availOut : ℕ) : List UInt8 → ZStatus × List UInt8 × List UInt8
  | [] => (.bufError, [], [])
  | [mark] => (if mark = 0 then .streamEnd else .bufError, [], [])
  | mark :: b :: src =>
    if mark = 0 then (.streamEnd, [], b :: src)
    else if availOut = 0 then (.bufError, [], mark :: b :: src)
    else (.ok, [b], src)

def markedDeflate (src : List UInt8) : List UInt8 := src.flatMap (fun b => [1, b]) ++ [0]

theorem markedRest_deflate (src : List UInt8) : markedRest (markedDeflate src) = (src, true) := by
  induction src with
  | nil => rfl
  | cons b src ih =>
    change markedRest (1 :: b :: markedDeflate src) = _
    rw [markedRest, if_neg (by decide), ih]

theorem markedInflate_cases {availOut : ℕ} {s out t : List UInt8} {status : ZStatus}
    (hpos : 0 < availOut) (h : markedInflate availOut s = (status, out, t)) :
    (status = .ok ∧ t.length < s.length ∧
      markedRest s = (out ++ (markedRest t).1, (markedRest t).2)) ∨
    (status = .streamEnd ∧ markedRest s = (out, true)) ∨
    (status = .bufError ∧ markedRest s = (out, false)) := by
  rw [markedInflate.eq_def] at h
  split at h
  · cases h
    exact Or.inr (Or.inr ⟨rfl, rfl⟩)
  · rename_i mark
    by_cases hmark : mark = 0
    · rw [if_pos hmark] at h
      cases h
      exact Or.inr (Or.inl ⟨rfl, by simp [markedRest, hmark]⟩)
    · rw [if_neg hmark] at h
      cases h
      exact Or.inr (Or.inr ⟨rfl, by simp [markedRest, hmark]⟩)
  · rename_i mark b src
    by_cases hmark : mark = 0
    · rw [if_pos hmark] at h
      cases h
      exact Or.inr (Or.inl ⟨rfl, by simp [markedRest, hmark]⟩)
    · rw [if_neg hmark, if_neg (by omega)] at h
      cases h
      exact Or.inl ⟨rfl, by simp only [List.length_cons]; omega, by simp [markedRest, hmark]⟩

def marked : ZStream where
  State := List UInt8
  inflateInit src := src
  inflate := markedInflate
  left := List.length
  rest := markedRest
  length_le availOut s := by
    rw [markedInflate.eq_def]
    split
    · exact Nat.zero_le _
    · exact Nat.zero_le _
    · split_ifs with hmark hnone
      · exact Nat.zero_le _
      · exact Nat.zero_le _
      · exact Nat.one_le_iff_ne_zero.mpr hnone
  left_lt hpos h := by
    rcases markedInflate_cases hpos h with ⟨-, hlt, -⟩ | ⟨heq, -⟩ | ⟨heq, -⟩
    · exact hlt
    · cases heq
    · cases heq
  rest_ok hpos h := by
    rcases markedInflate_cases hpos h with ⟨-, -, hrest⟩ | ⟨heq, -⟩ | ⟨heq, -⟩
    · exact hrest
    · cases heq
    · cases heq
  rest_streamEnd hpos h := by
    rcases markedInflate_cases hpos h with ⟨heq, -⟩ | ⟨-, hrest⟩ | ⟨heq, -⟩
    · cases heq
    · exact hrest
    · cases heq
  rest_streamError hpos h := by
    rcases markedInflate_cases hpos h with ⟨heq, -⟩ | ⟨heq, -⟩ | ⟨heq, -⟩
    · cases heq
    · cases heq
    · cases heq
  rest_error hpos h hok hend hstream := by
    rcases markedInflate_cases hpos h with ⟨heq, -⟩ | ⟨heq, -⟩ | ⟨-, hrest⟩
    · exact absurd heq hok
    · exact absurd heq hend
    · exact hrest
  deflate := markedDeflate
  deflateBound n := 2 * n + 1
  deflate_length_le src := by
    rw [markedDeflate, List.length_append, List.length_flatMap]
    simp [mul_comm]
  deflateBound_lt n hn := by
    rw [maxMessageBodySize] at hn
    omega
  rest_deflate := markedRest_deflate
  rest_nil := rfl

end ZStream

def encodedItem (encoding : rmq.Encoding) (body : List UInt8) : rmq.Message :=
  { systemAttribute := { bodyEncoding := encoding, bodyDigest := { type := .unrecognized } }
    body := body }

/-- A stream that breaks off after its first byte is accepted with that byte as body, and a
message in an encoding that is not known is accepted with no body at all. -/
theorem broken_stream_accepted :
    denotedBody ZStream.marked.toInflater (encodedItem .gzip [1, 65, 1]) = none ∧
    (∃ m, wrapMessage ZStream.marked.toZlib Digests.zero "" {} (encodedItem .gzip [1, 65, 1])
      (freshMessage {} "") = .accepted m ∧ m.getBody = [65]) ∧
    ¬ BodyFaithful ZStream.marked Digests.zero "" {} (encodedItem .gzip [1, 65, 1])
      (freshMessage {} "") ∧
    (∃ m, wrapMessage ZStream.marked.toZlib Digests.zero "" {} (encodedItem .unrecognized [65])
      (freshMessage {} "") = .accepted m ∧ m.getBody = []) ∧
    ¬ BodyFaithful ZStream.marked Digests.zero "" {} (encodedItem .unrecognized [65])
      (freshMessage {} "") := by
  have hbody : UtilAll.uncompress ZStream.marked.toZlib [1, 65, 1] = [65] := by
    rw [ZStream.uncompress_toZlib, uncompress_eq]
    rfl
  refine ⟨rfl, ⟨_, rfl, hbody⟩, fun h => ?_, ⟨_, rfl, rfl⟩, fun h => ?_⟩
  · have hdenoted := h.accepted _ rfl
    cases hdenoted
  · have hdenoted := h.accepted _ rfl
    cases hdenoted

section Times
variable (ext : MQMessageExt) (item : rmq.Message)

def rmq.Timestamp.Valid (t : rmq.Timestamp) : Prop := 0 ≤ t.nanos ∧ t.nanos < 10 ^ 9

def rmq.Timestamp.time (t : rmq.Timestamp) : ℤ := t.seconds * 10 ^ 9 + t.nanos / 1000 * 1000

def rmq.TimedDelivery.timestamp : rmq.TimedDelivery → Option rmq.Timestamp
  | .deliveryTimestamp time => some time
  | _ => none

def rmq.SystemAttribute.timestamps (a : rmq.SystemAttribute) : List rmq.Timestamp :=
  a.bornTimestamp.toList ++ a.storeTimestamp.toList ++ a.timedDelivery.timestamp.toList

structure TimesFaithful (a : rmq.SystemAttribute) (fresh decoded : SystemAttribute) : Prop where
  born : decoded.bornTimestamp = (a.bornTimestamp.map rmq.Timestamp.time).getD fresh.bornTimestamp
  store : decoded.storeTimestamp =
    (a.storeTimestamp.map rmq.Timestamp.time).getD fresh.storeTimestamp
  delivery : decoded.deliveryTimestamp =
    (a.timedDelivery.timestamp.map rmq.Timestamp.time).getD fresh.deliveryTimestamp
  invisible : decoded.invisiblePeriod =
    (a.invisiblePeriod.map fun p => p.seconds * 10 ^ 9 + p.nanos).getD fresh.invisiblePeriod

theorem timeOf_eq {t : rmq.Timestamp} (h : t.Valid) : timeOf t = t.time := by
  rw [timeOf, rmq.Timestamp.time, Int.tdiv_eq_ediv_of_nonneg h.1]

theorem deliveryTimeOf_eq_iff {t : rmq.Timestamp} (h : t.Valid) :
    deliveryTimeOf t = t.time ↔ t.nanos = 0 := by
  obtain ⟨hnonneg, -⟩ := h
  rw [deliveryTimeOf, rmq.Timestamp.time]
  omega

theorem map_timeOf {t : Option rmq.Timestamp} (h : ∀ s ∈ t, s.Valid) :
    t.map timeOf = t.map rmq.Timestamp.time := by
  cases t with
  | none => rfl
  | some s => rw [Option.map_some, Option.map_some, timeOf_eq (h s rfl)]

theorem decodedAttribute_deliveryTimestamp (env : Surroundings) (a : rmq.SystemAttribute)
    (fresh : SystemAttribute) : (decodedAttribute env a fresh).deliveryTimestamp =
      (a.timedDelivery.timestamp.map deliveryTimeOf).getD fresh.deliveryTimestamp := by
  rw [decodedAttribute]
  cases a.timedDelivery <;> rfl

theorem decodedAttribute_timesFaithful_iff (env : Surroundings) {a : rmq.SystemAttribute}
    (fresh : SystemAttribute) (h : ∀ t ∈ a.timestamps, t.Valid) :
    TimesFaithful a fresh (decodedAttribute env a fresh) ↔
      ∀ t, a.timedDelivery = .deliveryTimestamp t → t.nanos = 0 := by
  have hborn : ∀ t ∈ a.bornTimestamp, t.Valid := fun t ht =>
    h t (by simp [rmq.SystemAttribute.timestamps, Option.mem_def.mp ht])
  have hstore : ∀ t ∈ a.storeTimestamp, t.Valid := fun t ht =>
    h t (by simp [rmq.SystemAttribute.timestamps, Option.mem_def.mp ht])
  have hdelivery : ∀ t ∈ a.timedDelivery.timestamp, t.Valid := fun t ht =>
    h t (by simp [rmq.SystemAttribute.timestamps, Option.mem_def.mp ht])
  have hiff : (decodedAttribute env a fresh).deliveryTimestamp =
      (a.timedDelivery.timestamp.map rmq.Timestamp.time).getD fresh.deliveryTimestamp ↔
        ∀ t, a.timedDelivery = .deliveryTimestamp t → t.nanos = 0 := by
    rw [decodedAttribute_deliveryTimestamp]
    cases hd : a.timedDelivery with
    | notSet => exact iff_of_true rfl fun t ht => by cases ht
    | delayLevel level => exact iff_of_true rfl fun t ht => by cases ht
    | deliveryTimestamp t =>
      have hvalid : t.Valid := hdelivery t (by rw [hd]; rfl)
      simp only [rmq.TimedDelivery.timestamp, Option.map_some, Option.getD_some,
        rmq.TimedDelivery.deliveryTimestamp.injEq, forall_eq']
      exact deliveryTimeOf_eq_iff hvalid
  constructor
  · intro hfaithful
    exact hiff.mp hfaithful.delivery
  · intro hzero
    refine ⟨?_, ?_, hiff.mpr hzero, ?_⟩
    · change (a.bornTimestamp.map timeOf).getD _ = _
      rw [map_timeOf hborn]
    · change (a.storeTimestamp.map timeOf).getD _ = _
      rw [map_timeOf hstore]
    · rw [decodedAttribute]
      cases a.invisiblePeriod <;> rfl

/-- The times of an accepted message are those of its timestamps exactly if its delivery
timestamp, if it has one, is a whole second: its nanoseconds are taken for microseconds. -/
theorem timesFaithful_iff (z : Zlib) (d : Digests) (resourceNamespace : String)
    (env : Surroundings) {m : MQMessageExt}
    (haccepted : wrapMessage z d resourceNamespace env item ext = .accepted m)
    (hvalid : ∀ t ∈ item.systemAttribute.timestamps, t.Valid) :
    TimesFaithful item.systemAttribute ext.impl.systemAttribute m.impl.systemAttribute ↔
      ∀ t, item.systemAttribute.timedDelivery = .deliveryTimestamp t → t.nanos = 0 := by
  rcases wrapMessage_cases z d resourceNamespace env item ext with
    ⟨-, hwrap⟩ | ⟨-, -, hwrap⟩ | ⟨-, -, m', hwrap, -, hattribute⟩
  · rw [hwrap] at haccepted
    cases haccepted
  · rw [hwrap] at haccepted
    cases haccepted
  · rw [hwrap] at haccepted
    cases haccepted
    rw [hattribute]
    exact decodedAttribute_timesFaithful_iff env _ hvalid

end Times

def timedItem (delivery : rmq.Timestamp) : rmq.Message :=
  { systemAttribute :=
      { bornTimestamp := some { seconds := 1, nanos := 1500 }
        timedDelivery := .deliveryTimestamp delivery
        invisiblePeriod := some { seconds := 30, nanos := 1 } } }

theorem timesFaithful_whole_second :
    ∃ m, wrapMessage Zlib.stored Digests.zero "" {} (timedItem { seconds := 2 })
        (freshMessage {} "") = .accepted m ∧
      TimesFaithful (timedItem { seconds := 2 }).systemAttribute
        (freshMessage {} "").impl.systemAttribute m.impl.systemAttribute := by
  refine ⟨_, rfl, (timesFaithful_iff _ _ Zlib.stored Digests.zero "" {} rfl ?_).mpr ?_⟩
  · intro t ht
    simp only [timedItem, rmq.SystemAttribute.timestamps, rmq.TimedDelivery.timestamp,
      Option.toList_some, Option.toList_none, List.append_nil, List.cons_append, List.nil_append,
      List.mem_cons, List.not_mem_nil, or_false] at ht
    rcases ht with rfl | rfl
    · exact ⟨by decide, by decide⟩
    · exact ⟨by decide, by decide⟩
  · intro t ht
    cases ht
    rfl

theorem delivery_time_scaled :
    ∃ m, wrapMessage Zlib.stored Digests.zero "" {}
        (timedItem { seconds := 2, nanos := 500000000 }) (freshMessage {} "") = .accepted m ∧
      m.impl.systemAttribute.deliveryTimestamp = 502 * 10 ^ 9 ∧
      (rmq.Timestamp.time { seconds := 2, nanos := 500000000 }) = 25 * 10 ^ 8 ∧
      ¬ TimesFaithful (timedItem { seconds := 2, nanos := 500000000 }).systemAttribute
        (freshMessage {} "").impl.systemAttribute m.impl.systemAttribute := by
  refine ⟨_, rfl, rfl, rfl, fun h => ?_⟩
  have hdelivery := h.delivery
  revert hdelivery
  decide

end RocketMQClient
