import RocketMQClient.RetrySend

/-!
# The reports of an asynchronous send

The callback that is given to `send(message, cb)`, and that of the overload of
`DefaultMQProducer` with a selector, is called where the producer is found not to run, where
a lookup fails or finds no queue, and by the retries. The first three do not all stop there.
-/

namespace RocketMQClient

namespace Producer
variable (p : Producer)

def looked (counter : UInt32) (m : MQMessage) (published : Lookup) (env : Attempts) : Reported :=
  match published with
  | .error ec => ⟨[.onFailure ec], false⟩
  | .ok info =>
    if (p.roundRobin info counter).isEmpty then ⟨[.onFailure .serviceUnavailable], false⟩
    else p.send0 env m.copy (p.roundRobin info counter)

theorem send_eq (counter : UInt32) (m : MQMessage) (published : Lookup) (env : Attempts) :
    p.send counter m published env =
      some ((p.looked counter m published env).after
        (if p.running then [] else [.onFailure .illegalState])) := by
  rw [send, asyncCandidates_copy, looked.eq_def]
  cases published with
  | error ec => rfl
  | ok info =>
    simp only [Option.map_some]
    split_ifs <;> rfl

end Producer
end RocketMQClient
