import RocketMQClient.Rpc
import RocketMQClient.FifoConsume

/-!
# Forwarding a message to the dead letter queue

The client manager reports the completion of the call through a callback on a
pointer to the invocation context, which is null when there is no RPC client.
The push consumer passes its own callback on a `bool` in that place, so what the
FIFO service receives is the pointer converted to `bool`.
-/

namespace RocketMQClient.DeadLetter
open FifoConsume

inductive ForwardResult
  | noClient
  | completed (c : Completion Unit)

def ForwardResult.confirmed : ForwardResult → Bool
  | .noClient => false
  | .completed c => c.confirmed

variable {β : Type}

/-- `ClientManagerImpl::forwardMessageToDeadLetterQueue`, where a pointer to the
context is an `Option`. Its two branches differ in what they log. -/
def forwardMessageToDeadLetterQueue (cb : Option (Completion Unit) → β) : ForwardResult → β
  | .noClient => cb none
  | .completed c => if !c.statusOk then cb (some c) else cb (some c)

def forwardToDeadLetterQueue (cb : Bool → β) (r : ForwardResult) : β :=
  -- the pointer to the context is converted to `bool`
  forwardMessageToDeadLetterQueue (fun context => cb context.isSome) r

theorem forwardToDeadLetterQueue_noClient (cb : Bool → β) :
    forwardToDeadLetterQueue cb .noClient = cb false := rfl

theorem forwardToDeadLetterQueue_completed (cb : Bool → β) (c : Completion Unit) :
    forwardToDeadLetterQueue cb (.completed c) = cb true := by
  simp [forwardToDeadLetterQueue, forwardMessageToDeadLetterQueue]

/-- The service hears of success only if the broker confirmed it, and otherwise a
live service schedules the forward again and leaves the queue bound. -/
def ReportedTruly (s : State) (id : ℕ) (m : MQMessageExt) (r : ForwardResult) : Prop :=
  (forwardToDeadLetterQueue (fun ok => ok) r = true → r.confirmed = true) ∧
  (r.confirmed = false →
    forwardToDeadLetterQueue (fun ok => ok) r = false ∧
    (s.processQueueAlive = true → s.consumerAlive = true →
      forwardToDeadLetterQueue (onForwardToDeadLetterQueue s id m) r =
        some (s.hold .reforward id m)))

/-- Every completion of the call counts as success, so the report is true exactly
if the broker confirmed or there was no client to call. -/
theorem reportedTruly_iff (s : State) (id : ℕ) (m : MQMessageExt) (r : ForwardResult) :
    ReportedTruly s id m r ↔ (r = .noClient ∨ r.confirmed = true) := by
  cases r with
  | noClient =>
    refine iff_of_true ⟨?_, fun _ => ⟨rfl, fun hq hc => ?_⟩⟩ (Or.inl rfl)
    · intro h
      cases h
    · rw [forwardToDeadLetterQueue_noClient]
      simp [onForwardToDeadLetterQueue, hq, hc]
  | completed c =>
    simp only [ReportedTruly, forwardToDeadLetterQueue_completed]
    constructor
    · rintro ⟨hconfirmed, -⟩
      exact Or.inr (hconfirmed trivial)
    · rintro (hnone | hconfirmed)
      · cases hnone
      · refine ⟨fun _ => hconfirmed, fun hnot => ?_⟩
        rw [hconfirmed] at hnot
        cases hnot

theorem rejected_forward_settles :
    ∃ s r, s.processQueue.hasFifoTaskBound = true ∧
      r = .completed { code := .permissionDenied, response := () } ∧
      ¬ ReportedTruly s 0 {} r ∧
      ∃ t, forwardToDeadLetterQueue (onForwardToDeadLetterQueue s 0 {}) r = some t ∧
        t.settled = [0] ∧ t.processQueue.hasFifoTaskBound = false := by
  refine ⟨{ processQueue := { hasFifoTaskBound := true } }, _, rfl, rfl, ?_, _, rfl, rfl, rfl⟩
  intro h
  exact absurd (h.1 rfl) (by decide)

end RocketMQClient.DeadLetter
