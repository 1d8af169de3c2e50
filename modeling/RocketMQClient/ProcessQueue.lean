import RocketMQClient.Message

/-!
# The process queue

Messages received for one message queue wait in `cachedMessages` until the
dispatcher takes them. The two counters are the quota the back-pressure looks
at; they are unsigned machine words and wrap. In broadcasting mode `offsets`
holds one record for every message that is not yet released, and the last
released one once there is no other. `hasFifoTaskBound` is the flag that the
FIFO service takes before it dispatches a message.

A failed assertion of the source is `none`.
-/

namespace RocketMQClient

structure OffsetRecord where
  offset : ℤ
  released : Bool := false
  deriving DecidableEq, Repr

abbrev Offsets := OrderedSet OffsetRecord.offset

structure ProcessQueueImpl where
  messageQueue : MQMessageQueue := {}
  filterExpression : FilterExpression := {}
  cachedMessages : List MQMessageExt := []
  cachedMessageQuantity : UInt32 := 0
  cachedMessageMemory : UInt64 := 0
  nextOffset : ℤ := 0
  hasFifoTaskBound : Bool := false
  offsets : Offsets := OrderedSet.empty

namespace ProcessQueueImpl

def shouldThrottle (q : ProcessQueueImpl) (maxQuantity : UInt32) (maxMemory : UInt64) : Bool :=
  if maxQuantity ≤ q.cachedMessageQuantity then true
  else if maxMemory ≠ 0 then decide (maxMemory ≤ q.cachedMessageMemory)
  else false

/-- A lone released record only remembers the last offset and gives way to the new one. -/
def recordOffset (offsets : Offsets) (offset : ℤ) : Offsets :=
  let kept := match offsets.entries with
    | [r] => if r.released then offsets.erase r.offset else offsets
    | _ => offsets
  kept.emplace { offset := offset }

/-- One round of the loop in `cacheMessages`. A message that the filter rejects
is acknowledged directly, with a callback that only logs. -/
def cacheMessage (model : MessageModel) (q : ProcessQueueImpl) (message : MQMessageExt) :
    ProcessQueueImpl :=
  if q.filterExpression.accept message then
    { q with
      cachedMessages := q.cachedMessages ++ [message]
      cachedMessageQuantity := q.cachedMessageQuantity + 1
      cachedMessageMemory := q.cachedMessageMemory + UInt64.ofNat message.getBody.length
      offsets := match model with
        | .broadcasting => recordOffset q.offsets message.getQueueOffset
        | .clustering => q.offsets }
  else q

def cacheMessages (model : MessageModel) (q : ProcessQueueImpl) (messages : List MQMessageExt) :
    ProcessQueueImpl :=
  messages.foldl (cacheMessage model) q

def takeLoop : ℕ → List MQMessageExt → List MQMessageExt × List MQMessageExt
  | _, [] => ([], [])
  | 0, l => ([], l)
  | batchSize + 1, m :: l =>
    let r := takeLoop batchSize l
    (m :: r.1, r.2)

structure Taken where
  more : Bool
  messages : List MQMessageExt
  queue : ProcessQueueImpl

def take (q : ProcessQueueImpl) (batchSize : ℕ) : Taken :=
  if q.cachedMessages.isEmpty then ⟨false, [], q⟩
  else
    let r := takeLoop batchSize q.cachedMessages
    -- the flag says whether messages are left, not whether some were taken
    ⟨!r.2.isEmpty, r.1, { q with cachedMessages := r.2 }⟩

def committedOffset (q : ProcessQueueImpl) : Option ℤ :=
  q.offsets.first?.map fun r => if r.released then r.offset + 1 else r.offset

def release (model : MessageModel) (q : ProcessQueueImpl) (bodySize : ℕ) (offset : ℤ) :
    Option ProcessQueueImpl :=
  let freed := { q with
    cachedMessageQuantity := q.cachedMessageQuantity - 1
    cachedMessageMemory := q.cachedMessageMemory - UInt64.ofNat bodySize }
  match model with
  | .clustering => some freed
  | .broadcasting =>
    if 1 < q.offsets.size then some { freed with offsets := q.offsets.erase offset }
    else match q.offsets.first? with
      | none => none
      | some r =>
        if r.offset = offset then
          some { freed with offsets := (q.offsets.erase offset).emplace ⟨offset, true⟩ }
        else none

def bindFifoConsumeTask (q : ProcessQueueImpl) : Bool × ProcessQueueImpl :=
  if q.hasFifoTaskBound then (false, q) else (true, { q with hasFifoTaskBound := true })

def unbindFifoConsumeTask (q : ProcessQueueImpl) : Bool × ProcessQueueImpl :=
  if q.hasFifoTaskBound then (true, { q with hasFifoTaskBound := false }) else (false, q)

@[simp] theorem cacheMessage_filterExpression (model : MessageModel) (q : ProcessQueueImpl)
    (m : MQMessageExt) : (cacheMessage model q m).filterExpression = q.filterExpression := by
  unfold cacheMessage
  split_ifs <;> rfl

@[simp] theorem cacheMessage_hasFifoTaskBound (model : MessageModel) (q : ProcessQueueImpl)
    (m : MQMessageExt) : (cacheMessage model q m).hasFifoTaskBound = q.hasFifoTaskBound := by
  unfold cacheMessage
  split_ifs <;> rfl

theorem cacheMessages_cachedMessages (model : MessageModel) (q : ProcessQueueImpl)
    (messages : List MQMessageExt) :
    (cacheMessages model q messages).cachedMessages =
      q.cachedMessages ++ messages.filter q.filterExpression.accept := by
  induction messages generalizing q with
  | nil => simp [cacheMessages]
  | cons m ms ih =>
    have h := ih (cacheMessage model q m)
    simp only [cacheMessage_filterExpression] at h
    change (cacheMessages model (cacheMessage model q m) ms).cachedMessages = _
    rw [h]
    by_cases ha : q.filterExpression.accept m <;> simp [cacheMessage, ha]

theorem cacheMessages_hasFifoTaskBound (model : MessageModel) (q : ProcessQueueImpl)
    (messages : List MQMessageExt) :
    (cacheMessages model q messages).hasFifoTaskBound = q.hasFifoTaskBound := by
  induction messages generalizing q with
  | nil => rfl
  | cons m ms ih => exact (ih (cacheMessage model q m)).trans (by simp)

theorem cacheMessages_filterExpression (model : MessageModel) (q : ProcessQueueImpl)
    (messages : List MQMessageExt) :
    (cacheMessages model q messages).filterExpression = q.filterExpression := by
  induction messages generalizing q with
  | nil => rfl
  | cons m ms ih => exact (ih (cacheMessage model q m)).trans (by simp)

theorem takeLoop_eq (batchSize : ℕ) (l : List MQMessageExt) :
    takeLoop batchSize l = (l.take batchSize, l.drop batchSize) := by
  induction l generalizing batchSize with
  | nil => cases batchSize <;> simp [takeLoop]
  | cons m l ih =>
    cases batchSize with
    | zero => simp [takeLoop]
    | succ b => simp [takeLoop, ih]

theorem take_messages (q : ProcessQueueImpl) (batchSize : ℕ) :
    (q.take batchSize).messages = q.cachedMessages.take batchSize := by
  unfold take
  split_ifs with h
  · simp [List.isEmpty_iff.mp h]
  · simp [takeLoop_eq]

theorem take_queue (q : ProcessQueueImpl) (batchSize : ℕ) :
    (q.take batchSize).queue = { q with cachedMessages := q.cachedMessages.drop batchSize } := by
  unfold take
  split_ifs with h
  · have h' := List.isEmpty_iff.mp h
    cases q
    simp_all
  · simp [takeLoop_eq]

theorem take_more (q : ProcessQueueImpl) (batchSize : ℕ) :
    (q.take batchSize).more = decide (batchSize < q.cachedMessages.length) := by
  unfold take
  split_ifs with h
  · simp [List.isEmpty_iff.mp h]
  · simp only [takeLoop_eq, Bool.not_eq_eq_eq_not]
    by_cases hlt : batchSize < q.cachedMessages.length
    · simp [hlt, List.drop_eq_nil_iff]
    · simp [hlt, List.drop_eq_nil_of_le (not_lt.mp hlt)]

theorem recordOffset_eq_emplace {offsets : Offsets} (h : ∀ r ∈ offsets.entries, r.released = false)
    (o : ℤ) : recordOffset offsets o = offsets.emplace { offset := o } := by
  rw [recordOffset]
  match hl : offsets.entries with
  | [] => rfl
  | [r] =>
    have hr := h r (by simp [hl])
    simp only [hr, Bool.false_eq_true, if_false]
  | _ :: _ :: _ => rfl

def releaseOffset (offsets : Offsets) (offset : ℤ) : Option Offsets :=
  if 1 < offsets.size then some (offsets.erase offset)
  else match offsets.first? with
    | none => none
    | some r =>
      if r.offset = offset then some ((offsets.erase offset).emplace ⟨offset, true⟩) else none

theorem release_eq (model : MessageModel) (q : ProcessQueueImpl) (n : ℕ) (o : ℤ) :
    release model q n o =
      (match model with
        | .clustering => some q.offsets
        | .broadcasting => releaseOffset q.offsets o).map fun offsets =>
        { q with
          cachedMessageQuantity := q.cachedMessageQuantity - 1
          cachedMessageMemory := q.cachedMessageMemory - UInt64.ofNat n
          offsets := offsets } := by
  cases model with
  | clustering => rfl
  | broadcasting =>
    simp only [release, releaseOffset]
    split_ifs
    · rfl
    · cases q.offsets.first? with
      | none => rfl
      | some r => by_cases hr : r.offset = o <;> simp [hr]

theorem release_cachedMessages {model : MessageModel} {q q' : ProcessQueueImpl} {n : ℕ} {o : ℤ}
    (h : release model q n o = some q') :
    q'.cachedMessages = q.cachedMessages ∧ q'.hasFifoTaskBound = q.hasFifoTaskBound ∧
      q'.filterExpression = q.filterExpression := by
  rw [release_eq] at h
  obtain ⟨offsets, -, rfl⟩ := Option.map_eq_some_iff.mp h
  exact ⟨rfl, rfl, rfl⟩

end ProcessQueueImpl
end RocketMQClient
