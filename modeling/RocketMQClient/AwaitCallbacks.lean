import RocketMQClient.Library.Await

/-! The callbacks behind the synchronous calls of the producer and the pull consumer. `send`
keeps its `AwaitSendCallback` on the stack and reads it after `await` has returned; `pull`
owns its `AwaitPullCallback`, whose `await` tests the error code under the mutex, and its
caller reads the result afterwards. Both callbacks signal under the mutex. Only that of the
pull consumer also stores its outcome there; that of the producer may be late, and then it
works on an object that is gone. -/

namespace RocketMQClient.AwaitCallbacks
open EventMachine EventMachine.Machine Await

inductive Field
  | result
  | errorCode
  deriving DecidableEq, Repr

inductive Outcome
  | success
  | failure
  deriving DecidableEq, Repr

namespace AwaitSendCallback

def onSuccess : Completion Field := ⟨[.store .result, .complete], []⟩

def onFailure : Completion Field := ⟨[.complete, .store .errorCode], []⟩

end AwaitSendCallback

namespace AwaitPullCallback

def onSuccess : Completion Field := ⟨[], [.complete, .store .result]⟩

def onFailure : Completion Field := ⟨[], [.complete, .store .errorCode]⟩

end AwaitPullCallback

inductive Callback
  | send
  | pull
  deriving DecidableEq, Repr

def completion : Callback → Outcome → Completion Field
  | .send, .success => AwaitSendCallback.onSuccess
  | .send, .failure => AwaitSendCallback.onFailure
  | .pull, .success => AwaitPullCallback.onSuccess
  | .pull, .failure => AwaitPullCallback.onFailure

variable (k : Callback) (o : Outcome)

theorem completes : .complete ∈ (completion k o).writes := by
  cases k <;> cases o <;> decide

theorem rank_init :
    State.rank (completion k o) (machine (completion k o)).init = 35 := by
  cases k <;> cases o <;> rfl

theorem storesFirst_iff : (completion k o).StoresFirst ↔ ¬ (k = .send ∧ o = .failure) := by
  constructor
  · intro hfirst hfailed
    obtain ⟨rfl, rfl⟩ := hfailed
    have hstored := hfirst [] [.store .errorCode] rfl
    simp [Write.field?] at hstored
  · intro hnot
    cases k with
    | pull =>
      intro made later hbefore
      cases o <;>
        simp [completion, AwaitPullCallback.onSuccess, AwaitPullCallback.onFailure] at hbefore
    | send =>
      cases o with
      | success => exact storesFirst_of_complete_last [.result] rfl rfl
      | failure => exact absurd ⟨rfl, rfl⟩ hnot

theorem complete_notMem_before_iff : .complete ∉ (completion k o).before ↔ k = .pull := by
  cases k <;> cases o <;> decide

/-- The waiting thread always gets away, after so many steps of its own and of the callback
as there are wake-ups to put up with. That of the pull consumer leaves the callback done. -/
theorem await_ends {es : List Event} {s : State Field}
    (hrun : (machine (completion k o)).run es = some s) :
    es.length ≤ 35 + 4 * es.count .spurious ∧
      (Stopped (completion k o) s →
        (∃ early late, s.waiter = .finished early late) ∧ (k = .pull → s.completer = .done)) := by
  refine ⟨?_, fun hstopped => ?_⟩
  · have hrank := rank_run hrun
    rw [rank_init] at hrank
    omega
  · have hfinished := (inv_run (completes k o) hrun).finished hstopped
    refine ⟨hfinished, fun hk => ?_⟩
    obtain ⟨early, late, hw⟩ := hfinished
    exact done_run (completes k o) ((complete_notMem_before_iff k o).mpr hk) hrun
      (by simp [hw, Waiter.seen])

def awaitedRun : List Event :=
  [.waiter, .waiter, .waiter, .spurious, .waiter, .waiter, .waiter, .completer, .completer,
    .completer, .completer, .completer, .waiter, .waiter, .waiter]

theorem failed_pull_await_ends : ∃ s,
    (machine (completion .pull .failure)).run awaitedRun = some s ∧
      Stopped (completion .pull .failure) s ∧ s.completer = .done ∧
      s.waiter = .finished [.errorCode] [.errorCode] := by
  have hrun : (machine (completion .pull .failure)).run awaitedRun = some
      ⟨.finished [.errorCode] [.errorCode], .done, [.complete, .store .errorCode]⟩ := rfl
  have hstopped : Stopped (completion .pull .failure)
      ⟨.finished [.errorCode] [.errorCode], .done, [.complete, .store .errorCode]⟩ := ⟨rfl, rfl⟩
  exact ⟨_, hrun, hstopped, ((await_ends .pull .failure hrun).2 hstopped).2 rfl, rfl⟩

example : (machine (completion .send .success)).run
    [.completer, .completer, .waiter, .waiter, .waiter, .completer] = none := rfl

theorem await_sound_iff :
    ((∀ es s early late, (machine (completion k o)).run es = some s →
        s.waiter = .finished early late →
        early = (completion k o).outcome ∧ late = (completion k o).outcome) ↔
      ¬ (k = .send ∧ o = .failure)) ∧
    ((∀ es s, (machine (completion k o)).run es = some s → ¬ Dangling s) ↔ k = .pull) := by
  constructor
  · rw [reads_outcome_iff (completes k o)]
    exact storesFirst_iff k o
  · rw [never_dangling_iff (completes k o)]
    exact complete_notMem_before_iff k o

end RocketMQClient.AwaitCallbacks
