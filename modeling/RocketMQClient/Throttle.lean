import RocketMQClient.Library.KeyedWrites
import RocketMQClient.RateLimiter

/-!
# Throttling a topic before and after the consumer starts

`setThrottle` writes the threshold to a table of the consumer, and if the consume service
exists it also gives the service a new limiter. `start` makes the service and gives it a
limiter for each entry of the table. The table is written with `emplace`, which keeps the
threshold that is there, the limiters of the service with `insert_or_assign`.
-/

namespace RocketMQClient
open KeyedWrites

namespace Throttle

structure Consumer where
  throttleTable : List (String × UInt32)
  consumeMessageService : Option (String → Option (RateLimiter 10))

def created : Consumer := { throttleTable := [], consumeMessageService := none }

def throttle (rateLimiterTable : String → Option (RateLimiter 10)) (item : String × UInt32) :
    String → Option (RateLimiter 10) :=
  Function.update rateLimiterTable item.1 (some (RateLimiter.new 10 item.2))

def Consumer.setThrottle (c : Consumer) (call : String × UInt32) : Consumer :=
  { throttleTable := emplace c.throttleTable call
    consumeMessageService := c.consumeMessageService.map fun table => throttle table call }

def Consumer.setThrottles (c : Consumer) (calls : List (String × UInt32)) : Consumer :=
  calls.foldl Consumer.setThrottle c

/-- `items` are the entries of the table in the order in which the hash map yields them. -/
def Consumer.start (c : Consumer) (items : List (String × UInt32)) : Consumer :=
  { c with consumeMessageService := some (items.foldl throttle fun _ => none) }

def Consumer.rateLimiter (c : Consumer) (topic : String) : Option (RateLimiter 10) :=
  c.consumeMessageService.bind fun table => table topic

theorem setThrottles_table (c : Consumer) (calls : List (String × UInt32)) :
    (c.setThrottles calls).throttleTable = emplaceAll c.throttleTable calls := by
  induction calls generalizing c with
  | nil => rfl
  | cons call calls ih => exact ih (c.setThrottle call)

theorem setThrottles_service (c : Consumer) (calls : List (String × UInt32)) :
    (c.setThrottles calls).consumeMessageService =
      c.consumeMessageService.map fun table => assignAll (RateLimiter.new 10) table calls := by
  induction calls generalizing c with
  | nil =>
    cases hs : c.consumeMessageService <;> simp [Consumer.setThrottles, assignAll, hs]
  | cons call calls ih =>
    have hstep : c.setThrottles (call :: calls) = (c.setThrottle call).setThrottles calls := rfl
    rw [hstep, ih, Consumer.setThrottle, Option.map_map]
    rfl

theorem rateLimiter_eq {before after items : List (String × UInt32)}
    (hitems : items.Perm (created.setThrottles before).throttleTable) (topic : String) :
    (((created.setThrottles before).start items).setThrottles after).rateLimiter topic =
      ((writesTo topic after).getLast?.or (writesTo topic before).head?).map
        (RateLimiter.new 10) := by
  rw [setThrottles_table] at hitems
  have hbefore : items.foldl throttle (fun _ => none) topic =
      (writesTo topic before).head?.map (RateLimiter.new 10) := by
    have happly := assignAll_apply (RateLimiter.new 10) (fun _ => none) items topic
    rw [writesTo_of_perm_emplaceAll hitems, Option.or_none] at happly
    cases hhead : (writesTo topic before).head? <;> rw [hhead] at happly <;> exact happly
  rw [Consumer.rateLimiter, setThrottles_service]
  simp only [Consumer.start, Option.map_some, Option.bind_some, assignAll_apply, hbefore]
  cases (writesTo topic after).getLast? <;> rfl

theorem new_injective : Function.Injective (RateLimiter.new 10) := by
  intro p q h
  apply UInt32.toNat_inj.mp
  rw [← RateLimiter.total_partition (P := 10) (by decide) p, h,
    RateLimiter.total_partition (by decide)]

/-- The last call for a topic wins if it comes after the start, or if the first and the
last call before the start gave the same threshold. -/
theorem last_throttle_wins_iff {before after items : List (String × UInt32)}
    (hitems : items.Perm (created.setThrottles before).throttleTable) (topic : String) :
    (((created.setThrottles before).start items).setThrottles after).rateLimiter topic =
        (writesTo topic (before ++ after)).getLast?.map (RateLimiter.new 10) ↔
      writesTo topic after ≠ [] ∨
        (writesTo topic before).head? = (writesTo topic before).getLast? := by
  rw [rateLimiter_eq hitems, (Option.map_injective new_injective).eq_iff, writesTo_append,
    List.getLast?_append]
  by_cases hafter : writesTo topic after = []
  · simp [hafter]
  · obtain ⟨threshold, hlast⟩ := Option.isSome_iff_exists.mp (List.getLast?_isSome.mpr hafter)
    simp [hafter, hlast]

theorem throttle_after_start_wins :
    (((created.setThrottles [("topic", 10), ("topic", 20)]).start [("topic", 10)]).setThrottles
        [("topic", 30)]).rateLimiter "topic" =
      (writesTo "topic" [("topic", 10), ("topic", 20), ("topic", 30)]).getLast?.map
        (RateLimiter.new 10) := by
  have hitems : [("topic", (10 : UInt32))].Perm
      (created.setThrottles [("topic", 10), ("topic", 20)]).throttleTable := by decide
  apply (@last_throttle_wins_iff _ [("topic", 30)] _ hitems "topic").mpr
  decide

theorem first_throttle_before_start_wins :
    [("topic", (10 : UInt32))].Perm
        (created.setThrottles [("topic", 10), ("topic", 20)]).throttleTable ∧
      ((created.setThrottles [("topic", 10), ("topic", 20)]).start [("topic", 10)]).rateLimiter
        "topic" = some (RateLimiter.new 10 10) ∧
      ((created.setThrottles [("topic", 10), ("topic", 20)]).start [("topic", 10)]).rateLimiter
        "topic" ≠ (writesTo "topic" [("topic", 10), ("topic", 20)]).getLast?.map
          (RateLimiter.new 10) := by
  refine ⟨by decide, rfl, ?_⟩
  intro h
  have hsame : RateLimiter.new 10 10 = RateLimiter.new 10 20 := Option.some.inj h
  exact absurd (new_injective hsame) (by decide)

end Throttle
end RocketMQClient
