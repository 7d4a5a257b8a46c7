import Fifo.Machine.Memory
import Fifo.Proofs.Random.Arrangements

/-!
# What a shuffle makes of a queue

A shuffle that finishes (`ShufflesTo`) rearranges the queue by the indices that it draws
(`ShufflesTo.exists_indices`).  It moves the values and does nothing else to them, and it moves them
alike whatever they are (`ShufflesTo.map`).  In the words that it draws it is uniform: each index is
given by equally many words, and each arrangement by one sequence of indices.
-/

namespace Fifo

/-- The queue with a function applied to each of its values. -/
def Queue.map {α β : Type} (f : α → β) (q : Queue α) : Queue β :=
  ⟨q.front.map f, q.back.map f, by simpa using q.ready⟩

@[simp] theorem Queue.toList_map {α β : Type} (f : α → β) (q : Queue α) :
    (q.map f).toList = q.toList.map f := by
  simp [Queue.map, Queue.toList]

namespace Memory

/-- The shuffle of a memory finishes, and leaves the other: all of its draws find an accepted word.
The last argument is the generator behind these words. -/
structure ShufflesTo (m n : Memory) (left : Random.Generator) : Prop where
  finishes : Random.shuffle? m.supply.next m.queue.toList = some (n.queue.toList, left)
  leaves : m.shuffle = (n, .ok .next)

theorem shuffle_of_shuffle? {m : Memory} {vs : List Value} {g : Random.Generator}
    (h : Random.shuffle? m.supply.next m.queue.toList = some (vs, g)) :
    m.shuffle = (⟨.ofList vs, m.supply.behind g⟩, .ok .next) := by
  rw [shuffle, Queue.shuffle, h]

theorem shufflesTo_of_shuffle? {m : Memory} {vs : List Value} {g : Random.Generator}
    (h : Random.shuffle? m.supply.next m.queue.toList = some (vs, g)) :
    m.ShufflesTo ⟨.ofList vs, m.supply.behind g⟩ g where
  finishes := by rw [h, Queue.toList_ofList]
  leaves := shuffle_of_shuffle? h

/-- The queue that a shuffle leaves is as a list of values makes it, and later shuffles go on behind
the words that it has drawn. -/
theorem ShufflesTo.eq_ofList {m n : Memory} {left : Random.Generator} (h : m.ShufflesTo n left) :
    n = ⟨.ofList n.queue.toList, m.supply.behind left⟩ := by
  have hleaves := h.leaves
  rw [shuffle_of_shuffle? h.finishes] at hleaves
  exact (Prod.mk.inj hleaves).1.symm

/-- A shuffle rearranges the queue by the indices that it draws, and these come from words of its
stream. -/
theorem ShufflesTo.exists_indices {m n : Memory} {left : Random.Generator}
    (h : m.ShufflesTo n left) :
    ∃ js words, Random.indices? (m.queue.length - 1) m.supply.next = some (js, left) ∧
      Random.Drawn (m.queue.length - 1) m.supply.next words left ∧
      Random.wordIndices? (m.queue.length - 1) words = some js ∧
      n.queue.toList = Random.rearranged m.queue.toList js := by
  have hfinishes := h.finishes
  rw [Random.shuffle?_eq, Queue.length_toList, Option.map_eq_some_iff] at hfinishes
  obtain ⟨⟨js, g⟩, hjs, heq⟩ := hfinishes
  obtain ⟨hqueue, rfl⟩ := Prod.mk.inj heq
  obtain ⟨words, hdrawn, hwords⟩ := Random.exists_drawn_of_indices? hjs
  refine ⟨js, words, hjs, hdrawn, hwords, ?_⟩
  rw [Random.rearranged, Queue.length_toList]
  exact hqueue.symm

/-- A shuffle does not look at the values. -/
theorem ShufflesTo.map {m n : Memory} {left : Random.Generator} (h : m.ShufflesTo n left)
    (f : Value → Value) :
    ShufflesTo ⟨m.queue.map f, m.supply⟩ ⟨n.queue.map f, n.supply⟩ left := by
  have hshuffle : Random.shuffle? m.supply.next (m.queue.map f).toList =
      some (n.queue.toList.map f, left) := by
    rw [Queue.toList_map, Random.shuffle?_map, h.finishes]
    rfl
  have hmapped : Memory.mk (n.queue.map f) n.supply =
      ⟨.ofList (n.queue.toList.map f), m.supply.behind left⟩ := by
    rw [h.eq_ofList, Queue.toList_ofList]
    rfl
  rw [hmapped]
  exact shufflesTo_of_shuffle? hshuffle

/-- **A shuffle moves values.**  A shuffle that finishes leaves the values that were there, each as
often.  It draws one index for each position, from the last down to the second, none of them behind
its position, and makes the exchanges that these say; later shuffles go on behind the words of these
draws.  With a function applied to each value before, it leaves the values that it would have left,
with the function applied, and the same generator. -/
theorem shuffle_moves_values {m n : Memory} {left : Random.Generator} (h : m.ShufflesTo n left) :
    n.queue.toList.Perm m.queue.toList ∧
    (∃ js, Random.indices? (m.queue.length - 1) m.supply.next = some (js, left) ∧
      Random.InReach (m.queue.length - 1) js ∧
      n.queue.toList = Random.rearranged m.queue.toList js) ∧
    n.supply = m.supply.behind left ∧
    ∀ f : Value → Value,
      ShufflesTo ⟨m.queue.map f, m.supply⟩ ⟨n.queue.map f, n.supply⟩ left := by
  refine ⟨Random.perm_of_shuffle? h.finishes, ?_, congrArg Memory.supply h.eq_ofList, h.map⟩
  obtain ⟨js, words, hjs, -, hwords, hqueue⟩ := h.exists_indices
  exact ⟨js, hjs, Random.inReach_of_wordIndices? hwords, hqueue⟩

/-- A queue with a value that is there twice.  Its shuffle passes over the first word. -/
def handful : Memory :=
  ⟨.ofList [.integer 4, .text "a", .integer 4, .text ""], .seeded (.ofSeed 7)⟩

theorem handful_shufflesTo : ∃ (n : Memory) (left : Random.Generator), handful.ShufflesTo n left ∧
    n.queue.toList = [.text "a", .integer 4, .text "", .integer 4] := by
  have hvalues : (Random.shuffle? handful.supply.next handful.queue.toList).map Prod.fst =
      some [.text "a", .integer 4, .text "", .integer 4] := by decide +kernel
  obtain ⟨⟨vs, g⟩, hshuffle, hvs⟩ := Option.map_eq_some_iff.mp hvalues
  exact ⟨_, g, shufflesTo_of_shuffle? hshuffle, (Queue.toList_ofList vs).trans hvs⟩

theorem shuffle_moves_values_handful :
    ∃ (n : Memory) (left : Random.Generator), handful.ShufflesTo n left ∧
      n.queue.toList = [.text "a", .integer 4, .text "", .integer 4] ∧
      n.queue.toList.Perm handful.queue.toList ∧
      n.supply = .seeded left ∧
      ShufflesTo ⟨handful.queue.map fun v => .text v.render, handful.supply⟩
        ⟨n.queue.map fun v => .text v.render, n.supply⟩ left := by
  obtain ⟨n, left, hn, hvalues⟩ := handful_shufflesTo
  obtain ⟨hperm, -, hsupply, hmap⟩ := shuffle_moves_values hn
  exact ⟨n, left, hn, hvalues, hperm, hsupply, hmap _⟩

/-- **Shuffles are uniform in their words.**  For a bound of a draw, at least 1 and below 2^32, the
limit of acceptance is the bound shifted by its leading zeros, less one, and neither the shift nor
the subtraction leaves the range of words.  A word that is accepted gives an index below the bound,
and each index below the bound is given by as many words, 2 to the power of the leading zeros.

The sequences of indices, none behind its position, are one to one with the arrangements of a list
of different elements, of which there are as many as the factorial of its length.  So as many
sequences of accepted words lead to each arrangement as to any other, and a shuffle of a queue that
finishes makes the arrangement to which the words lead that it draws from its stream. -/
theorem shuffle_is_uniform :
    (∀ n : UInt32, 0 < n →
      let zeros := (Random.leadingZeros n).toNat
      zeros = n.toBitVec.clz.toNat ∧
      0 < n.toNat * 2 ^ zeros ∧ n.toNat * 2 ^ zeros < 2 ^ 32 ∧
      (Random.acceptanceLimit n).toNat = n.toNat * 2 ^ zeros - 1 ∧
      (∀ w r, Random.index? n w = some r → r < n) ∧
      ∀ r, r < n → {w | Random.index? n w = some r}.ncard = 2 ^ zeros) ∧
    (∀ {α : Type} (vs : List α), vs.Nodup →
      Set.BijOn (Random.rearranged vs) {js | Random.InReach (vs.length - 1) js}
        {ws | ws.Perm vs} ∧
      {ws : List α | ws.Perm vs}.ncard = vs.length.factorial ∧
      (vs.length < 2 ^ 32 → ∀ ws, ws.Perm vs →
        {words | (Random.wordIndices? (vs.length - 1) words).map (Random.rearranged vs) =
          some ws}.ncard =
          ∏ p ∈ Finset.range (vs.length - 1),
            2 ^ (Random.leadingZeros (UInt32.ofNat (p + 2))).toNat)) ∧
    ∀ (m n : Memory) (left : Random.Generator), m.ShufflesTo n left →
      ∃ words, Random.Drawn (m.queue.length - 1) m.supply.next words left ∧
        (Random.wordIndices? (m.queue.length - 1) words).map (Random.rearranged m.queue.toList) =
          some n.queue.toList := by
  refine ⟨fun n hn => ?_, fun vs hvs => ?_, fun m n left h => ?_⟩
  · have hpos : 0 < n.toNat := UInt32.lt_iff_toNat_lt.mp hn
    refine ⟨Random.toNat_leadingZeros_eq_clz hpos, ?_, Random.aligned_lt_two_pow hpos,
      Random.toNat_acceptanceLimit hpos, fun w r h => ?_, fun r => Random.ncard_words⟩
    · exact Nat.lt_of_lt_of_le (by decide) (Random.two_pow_le_aligned hpos)
    · exact UInt32.lt_iff_toNat_lt.mpr (Random.index?_lt hpos h)
  · exact ⟨Random.rearranged_bijOn hvs, Random.ncard_arrangements hvs,
      fun hlength ws => Random.ncard_rearranging hvs hlength⟩
  · obtain ⟨js, words, -, hdrawn, hwords, hqueue⟩ := h.exists_indices
    refine ⟨words, hdrawn, ?_⟩
    rw [hwords, hqueue]
    rfl

theorem shuffle_is_uniform_three :
    (Random.acceptanceLimit 3).toNat = 3 * 2 ^ 30 - 1 ∧
      {w | Random.index? 3 w = some 2}.ncard = 2 ^ 30 ∧
      {ws : List Char | ws.Perm ['a', 'b', 'c']}.ncard = 6 ∧
      {words | (Random.wordIndices? 2 words).map (Random.rearranged ['a', 'b', 'c']) =
        some ['c', 'a', 'b']}.ncard = 2 ^ 60 ∧
      ∃ n left, handful.ShufflesTo n left ∧ ∃ words,
        Random.Drawn 3 handful.supply.next words left ∧
        (Random.wordIndices? 3 words).map (Random.rearranged handful.queue.toList) =
          some n.queue.toList := by
  obtain ⟨hdraws, hlists, hqueues⟩ := shuffle_is_uniform
  obtain ⟨-, -, -, hlimit, -, hwords⟩ := hdraws 3 (by decide)
  obtain ⟨-, hcount, hsequences⟩ := hlists ['a', 'b', 'c'] (by decide)
  obtain ⟨n, left, hn, -⟩ := handful_shufflesTo
  refine ⟨hlimit, hwords 2 (by decide), hcount, ?_, n, left, hn, hqueues handful n left hn⟩
  exact hsequences (by decide) ['c', 'a', 'b'] (by decide)

end Memory
end Fifo
