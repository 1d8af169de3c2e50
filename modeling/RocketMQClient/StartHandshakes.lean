import RocketMQClient.Message
import RocketMQClient.Library.Handshake
import Mathlib.Data.List.Induction

/-!
# Starting the threads of a client

`start` of a thread pool and of a scheduler launches workers and waits until the first of
them has stored that the pool is started; `OtlpExporterHandler::start` launches the poll
thread and waits for its signal, with nothing to test. `ThreadPoolImpl` takes the number of
its workers as a 16-bit integer.
-/

namespace RocketMQClient.StartHandshakes
open Handshake

namespace ThreadPoolImpl

def start (workers : UInt16) : Config := { flagged := true, workers := workers.toNat }

end ThreadPoolImpl

namespace SchedulerImpl

def start (hardwareConcurrency : UInt32) : Config :=
  { flagged := true, workers := hardwareConcurrency.toNat }

end SchedulerImpl

namespace OtlpExporterHandler

def start : Config := { flagged := false, workers := 1 }

end OtlpExporterHandler

namespace PushConsumerImpl

def defaultConsumeThreadPoolSize : UInt32 := 20

def consumeThreadPoolSize (size : UInt32) (threadPoolSize : Int32) : UInt32 :=
  if 1 ≤ threadPoolSize then threadPoolSize.toUInt32 else size

def configured (counts : List Int32) : UInt32 :=
  counts.foldl consumeThreadPoolSize defaultConsumeThreadPoolSize

end PushConsumerImpl

/-- The threads that a client starts: the pool of its callbacks, the scheduler, the pool of
the consume service after some calls to `setConsumeThreadCount`, and the exporter. -/
inductive Start
  | callbackPool (hardwareConcurrency : UInt32)
  | scheduler (hardwareConcurrency : UInt32)
  | consumePool (counts : List Int32)
  | exporter

def Start.handshake : Start → Config
  | .callbackPool hardwareConcurrency => ThreadPoolImpl.start hardwareConcurrency.toUInt16
  | .scheduler hardwareConcurrency => SchedulerImpl.start hardwareConcurrency
  | .consumePool counts => ThreadPoolImpl.start (PushConsumerImpl.configured counts).toUInt16
  | .exporter => OtlpExporterHandler.start

/-- When the last accepted count is a multiple of 65536, no worker is launched. -/
def Start.Launches : Start → Prop
  | .callbackPool hardwareConcurrency => hardwareConcurrency.toNat % 65536 ≠ 0
  | .scheduler hardwareConcurrency => hardwareConcurrency.toNat ≠ 0
  | .consumePool counts => (counts.filter (1 ≤ ·)).getLast?.all (·.toInt % 65536 ≠ 0)
  | .exporter => False

namespace PushConsumerImpl

theorem configured_eq (counts : List Int32) : configured counts =
    ((counts.filter (1 ≤ ·)).getLast?.map Int32.toUInt32).getD defaultConsumeThreadPoolSize := by
  induction counts using List.reverseRecOn with
  | nil => rfl
  | append_singleton counts count ih =>
    rw [configured, List.foldl_append, ← configured, ih]
    by_cases hcount : 1 ≤ count
    · simp [consumeThreadPoolSize, hcount]
    · simp [consumeThreadPoolSize, hcount]

end PushConsumerImpl

theorem toUInt16_ne_zero {count : Int32} (h : 1 ≤ count) :
    0 < count.toUInt32.toUInt16.toNat ↔ count.toInt % 65536 ≠ 0 := by
  have hpos : (1 : ℤ) ≤ count.toInt := Int32.le_iff_toInt_le.mp h
  have hnat : count.toInt = (count.toUInt32.toNat : ℤ) := by
    have hcond := BitVec.toInt_eq_toNat_cond count.toBitVec
    have hlt := count.toUInt32.toNat_lt
    have hbits : count.toUInt32.toNat = count.toBitVec.toNat := rfl
    rw [Int32.toInt] at hpos ⊢
    split_ifs at hcond <;> omega
  rw [hnat, UInt32.toNat_toUInt16]
  omega

theorem start_returns_iff (p : Start) : Returns p.handshake ↔ p.Launches := by
  rw [returns_iff]
  cases p with
  | callbackPool hardwareConcurrency =>
    simp [Start.handshake, ThreadPoolImpl.start, Start.Launches, Nat.pos_iff_ne_zero]
  | scheduler hardwareConcurrency =>
    simp [Start.handshake, SchedulerImpl.start, Start.Launches, Nat.pos_iff_ne_zero]
  | consumePool counts =>
    simp only [Start.handshake, ThreadPoolImpl.start, Start.Launches, true_and,
      PushConsumerImpl.configured_eq]
    cases hlast : (counts.filter (1 ≤ ·)).getLast? with
    | none => simp [PushConsumerImpl.defaultConsumeThreadPoolSize]
    | some count =>
      have hcount := (List.mem_filter.mp (List.mem_of_getLast? hlast)).2
      simpa using toUInt16_ne_zero (by simpa using hcount)
  | exporter => simp [Start.handshake, OtlpExporterHandler.start, Start.Launches]

end RocketMQClient.StartHandshakes
