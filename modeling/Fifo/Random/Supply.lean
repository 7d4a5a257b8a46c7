import Fifo.Random.Generator

/-!
# Where the words of shuffles come from

A seed fixes a generator for good: one shuffle goes on in the stream where the last one stopped.
Without a seed, each shuffle reads the clock and follows the stream that starts at the reading, and
nothing of that stream is kept.
-/

namespace Fifo
namespace Random

/-- The readings of a clock that are still to come, in order. -/
abbrev Clock := Nat → UInt64

namespace Clock

/-- A clock that moves by one between two readings. -/
def ticking (start : UInt64) : Clock :=
  fun i => start + UInt64.ofNat i

/-- The clock once it has been read. -/
def behind (clock : Clock) : Clock :=
  fun i => clock (i + 1)

end Clock

/-- Where the words of shuffles come from. -/
inductive Supply where
  /-- One generator serves all shuffles. -/
  | seeded (g : Generator)
  /-- Each shuffle reads the clock for a generator of its own. -/
  | unseeded (clock : Clock)

namespace Supply

/-- The generator that is kept from shuffle to shuffle, if a seed has been fixed. -/
def generator? : Supply → Option Generator
  | seeded g => some g
  | unseeded _ => none

/-- The generator that the next shuffle starts with. -/
def next : Supply → Generator
  | seeded g => g
  | unseeded clock => .ofSeed (clock 0)

/-- What is there for later shuffles, once the next one has come to a generator. -/
def behind : Supply → Generator → Supply
  | seeded _, g => seeded g
  | unseeded clock, _ => unseeded clock.behind

@[simp] theorem generator?_behind (s : Supply) (g : Generator) :
    (s.behind g).generator? = s.generator?.map fun _ => g := by
  cases s with
  | seeded g => rfl
  | unseeded clock => rfl

/-- A shuffle starts with the generator that is kept, if there is one. -/
theorem next_of_generator? {s : Supply} {g : Generator} (h : s.generator? = some g) :
    s.next = g := by
  cases s with
  | seeded kept => exact Option.some.inj h
  | unseeded clock => cases h

end Supply
end Random
end Fifo
