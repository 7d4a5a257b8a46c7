import Fifo.Proofs.Value.Order

/-!
# Texts in the order of their code points

Texts are compared byte by byte, and a byte is less than a character.  The bytes of a character are
the digits of its code point in base 64, each with a fixed number added, and a character with more
bytes begins with a greater one (`Spelled`).  So characters with equally many bytes are compared as
their digits are, that is, as numbers (`compare_digits`), and of two others the first byte decides.
Either way the bytes of two characters, whatever follows them, stand to each other as their code
points do (`Spelled.compare_append`), and byte by byte is code point by code point
(`compare_bytes`).
-/

namespace Fifo

theorem compare_add (k v w : Nat) : compare (v + k) (w + k) = compare v w := by
  simp only [Nat.compare_eq_ite_lt, Nat.add_lt_add_iff_right]

/-- Numbers compare as their last digits do, unless the digits before those decide. -/
theorem compare_digits (base v w : Nat) :
    compare v w = (compare (v / base) (w / base)).then (compare (v % base) (w % base)) := by
  rcases Nat.lt_trichotomy (v / base) (w / base) with hlt | heq | hgt
  · rw [Nat.compare_eq_lt.mpr hlt, Nat.compare_eq_lt.mpr (Nat.lt_of_div_lt_div hlt)]
    rfl
  · rw [Nat.compare_eq_eq.mpr heq]
    calc
      compare v w = compare (v % base + base * (v / base)) (w % base + base * (w / base)) := by
        rw [Nat.mod_add_div, Nat.mod_add_div]
      _ = compare (v % base) (w % base) := by rw [heq, compare_add]
  · rw [Nat.compare_eq_gt.mpr hgt, Nat.compare_eq_gt.mpr (Nat.lt_of_div_lt_div hgt)]
    rfl

namespace Text

theorem compare_toNat (x y : UInt8) : compare x y = compare x.toNat y.toNat := by
  rcases Nat.lt_trichotomy x.toNat y.toNat with hlt | heq | hgt
  · rw [Nat.compare_eq_lt.mpr hlt, Std.compare_eq_lt.mpr (UInt8.lt_iff_toNat_lt.mpr hlt)]
  · rw [Nat.compare_eq_eq.mpr heq, Std.compare_eq_iff_eq.mpr (UInt8.toNat.inj heq)]
  · rw [Nat.compare_eq_gt.mpr hgt, Std.compare_eq_gt.mpr (UInt8.lt_iff_toNat_lt.mpr hgt)]

/-- The Unicode scalar values of a text, in order. -/
def codePoints (s : String) : List Nat :=
  s.toList.map Char.toNat

/-- The bytes of a code point in UTF-8, and how many they are. -/
inductive Spelled (v : Nat) : Nat → Bytes → Prop
  | one (a : UInt8) (hv : v < 0x80) (ha : a.toNat = v) : Spelled v 1 [a]
  | two (a b : UInt8) (hlow : 0x80 ≤ v) (hhigh : v < 0x800) (ha : a.toNat = v / 64 + 0xC0)
      (hb : b.toNat = v % 64 + 0x80) : Spelled v 2 [a, b]
  | three (a b c : UInt8) (hlow : 0x800 ≤ v) (hhigh : v < 0x10000)
      (ha : a.toNat = v / 64 / 64 + 0xE0) (hb : b.toNat = v / 64 % 64 + 0x80)
      (hc : c.toNat = v % 64 + 0x80) : Spelled v 3 [a, b, c]
  | four (a b c d : UInt8) (hlow : 0x10000 ≤ v) (hhigh : v < 0x110000)
      (ha : a.toNat = v / 64 / 64 / 64 + 0xF0) (hb : b.toNat = v / 64 / 64 % 64 + 0x80)
      (hc : c.toNat = v / 64 % 64 + 0x80) (hd : d.toNat = v % 64 + 0x80) :
      Spelled v 4 [a, b, c, d]

theorem exists_spelled (c : Char) : ∃ n, Spelled c.toNat n (String.utf8EncodeChar c) := by
  have hvalid : c.toNat < 0x110000 := by
    rcases c.valid with h | h
    · exact Nat.lt_trans h (by decide)
    · exact h.2
  have hval : c.toNat = c.val.toNat := rfl
  unfold String.utf8EncodeChar
  rw [hval] at hvalid ⊢
  generalize c.val.toNat = v at hvalid ⊢
  simp only
  split
  · exact ⟨1, .one _ (by omega) (by simp only [UInt8.toNat_ofNat']; omega)⟩
  · split
    · refine ⟨2, .two _ _ (by omega) (by omega) ?_ ?_⟩ <;> simp only [UInt8.toNat_ofNat'] <;> omega
    · split
      · refine ⟨3, .three _ _ _ (by omega) (by omega) ?_ ?_ ?_⟩ <;>
          simp only [UInt8.toNat_ofNat'] <;> omega
      · refine ⟨4, .four _ _ _ _ (by omega) (by omega) ?_ ?_ ?_ ?_⟩ <;>
          simp only [UInt8.toNat_ofNat'] <;> omega

/-- A character with more bytes has a greater code point, and a greater first byte. -/
theorem Spelled.lead_lt {v w k n : Nat} {bs cs : Bytes} (hv : Spelled v k bs)
    (hw : Spelled w n cs) (h : k < n) :
    v < w ∧ ∃ a as b bs', bs = a :: as ∧ cs = b :: bs' ∧ a.toNat < b.toNat := by
  cases hv <;> cases hw <;> exact ⟨by omega, _, _, _, _, rfl, rfl, by omega⟩

/-- Characters with equally many bytes stand to each other as their digits do. -/
theorem Spelled.compare_append_of_length {v w n : Nat} {bs cs : Bytes} (hv : Spelled v n bs)
    (hw : Spelled w n cs) (xs ys : Bytes) :
    compare (bs ++ xs) (cs ++ ys) = (compare v w).then (compare xs ys) := by
  cases hv with
  | one a hv ha =>
      cases hw with
      | one b hw hb =>
          simp only [List.cons_append, List.nil_append, List.compare_cons_cons, compare_toNat, ha,
            hb]
  | two a b hlow hhigh ha hb =>
      cases hw with
      | two a' b' hlow' hhigh' ha' hb' =>
          simp only [List.cons_append, List.nil_append, List.compare_cons_cons, compare_toNat,
            ha, hb, ha', hb', compare_add, compare_digits 64 v w, Ordering.then_assoc]
  | three a b c hlow hhigh ha hb hc =>
      cases hw with
      | three a' b' c' hlow' hhigh' ha' hb' hc' =>
          simp only [List.cons_append, List.nil_append, List.compare_cons_cons, compare_toNat,
            ha, hb, hc, ha', hb', hc', compare_add, compare_digits 64 v w,
            compare_digits 64 (v / 64) (w / 64), Ordering.then_assoc]
  | four a b c d hlow hhigh ha hb hc hd =>
      cases hw with
      | four a' b' c' d' hlow' hhigh' ha' hb' hc' hd' =>
          simp only [List.cons_append, List.nil_append, List.compare_cons_cons, compare_toNat,
            ha, hb, hc, hd, ha', hb', hc', hd', compare_add, compare_digits 64 v w,
            compare_digits 64 (v / 64) (w / 64), compare_digits 64 (v / 64 / 64) (w / 64 / 64),
            Ordering.then_assoc]

/-- The bytes of characters, whatever follows them, stand to each other as the code points do. -/
theorem Spelled.compare_append {v w k n : Nat} {bs cs : Bytes} (hv : Spelled v k bs)
    (hw : Spelled w n cs) (xs ys : Bytes) :
    compare (bs ++ xs) (cs ++ ys) = (compare v w).then (compare xs ys) := by
  rcases Nat.lt_trichotomy k n with hlt | rfl | hgt
  · obtain ⟨hvw, a, as, b, bs', rfl, rfl, hlead⟩ := hv.lead_lt hw hlt
    rw [List.cons_append, List.cons_append, List.compare_cons_cons, compare_toNat,
      Nat.compare_eq_lt.mpr hlead, Nat.compare_eq_lt.mpr hvw]
    rfl
  · exact hv.compare_append_of_length hw xs ys
  · obtain ⟨hwv, a, as, b, bs', rfl, rfl, hlead⟩ := hw.lead_lt hv hgt
    rw [List.cons_append, List.cons_append, List.compare_cons_cons, compare_toNat,
      Nat.compare_eq_gt.mpr hlead, Nat.compare_eq_gt.mpr hwv]
    rfl

/-- Byte by byte is code point by code point. -/
theorem compare_bytes (s t : String) :
    compare (bytes s) (bytes t) = compare (codePoints s) (codePoints t) := by
  rw [bytes, bytes, codePoints, codePoints]
  generalize s.toList = cs
  generalize t.toList = ds
  induction cs generalizing ds with
  | nil =>
      cases ds with
      | nil => rfl
      | cons d ds =>
          obtain ⟨b, bs, hd⟩ := List.exists_cons_of_ne_nil (String.utf8EncodeChar_ne_nil (c := d))
          simp only [List.flatMap_nil, List.flatMap_cons, hd, List.map_nil, List.map_cons]
          rfl
  | cons c cs ih =>
      obtain ⟨k, hc⟩ := exists_spelled c
      cases ds with
      | nil =>
          obtain ⟨b, bs, hb⟩ := List.exists_cons_of_ne_nil (String.utf8EncodeChar_ne_nil (c := c))
          simp only [List.flatMap_nil, List.flatMap_cons, hb, List.map_nil, List.map_cons]
          rfl
      | cons d ds =>
          obtain ⟨n, hd⟩ := exists_spelled d
          rw [List.flatMap_cons, List.flatMap_cons, hc.compare_append hd, ih, List.map_cons,
            List.map_cons, List.compare_cons_cons]

end Text

namespace Value

/-- Two texts stand to each other as their code points do. -/
theorem order_text (d : Direction) (s t : String) :
    order d (text s) (text t) = d.orient (compare (Text.codePoints s) (Text.codePoints t)) := by
  rw [order, Text.compare_bytes]

/-- Of values in order, the texts are in the order of their code points. -/
theorem InOrder.texts {d : Direction} {vs : List Value} (h : InOrder d vs) :
    ((texts vs).map render).Pairwise fun s t =>
      d.orient (compare (Text.codePoints s) (Text.codePoints t)) ≠ .gt := by
  refine List.pairwise_map.mpr (List.Pairwise.imp_of_mem ?_ (List.Pairwise.filter _ h))
  intro l r hl hr hle
  cases l with
  | integer n => cases isInteger_of_mem_texts hl
  | text s =>
      cases r with
      | integer n => cases isInteger_of_mem_texts hr
      | text t =>
          rw [order_text] at hle
          exact hle

end Value

namespace Memory

theorem texts_sort_perm (d : Direction) (m : Memory) :
    ((Value.texts (m.sort d).1.queue.toList).map Value.render).Perm
      ((Value.texts m.queue.toList).map Value.render) := by
  rw [toList_sort]
  exact ((Value.sort_perm d m.queue.toList).filter _).map _

theorem texts_sort (d : Direction) (m : Memory) :
    ((Value.texts (m.sort d).1.queue.toList).map Value.render).Pairwise fun s t =>
      d.orient (compare (Text.codePoints s) (Text.codePoints t)) ≠ .gt := by
  rw [toList_sort]
  exact (Value.inOrder_sort d m.queue.toList).texts

/-- **Texts stand by code point.**  To compare the UTF-8 bytes of two texts one after the other is
to compare their Unicode scalar values one after the other: less, equal or greater, the answer is
the same.  The order of two texts upward is therefore that of their scalar values, and downward it
is the opposite one.  A queue that has been sorted holds the texts that it held before, in the one
order or in the other. -/
theorem texts_stand_by_codePoint :
    (∀ s t : String,
      compare (Text.bytes s) (Text.bytes t) = compare (Text.codePoints s) (Text.codePoints t)) ∧
    (∀ s t : String,
      Value.order .ascending (.text s) (.text t) =
        compare (Text.codePoints s) (Text.codePoints t) ∧
      Value.order .descending (.text s) (.text t) =
        (compare (Text.codePoints s) (Text.codePoints t)).swap) ∧
    ∀ m : Memory,
      let before := (Value.texts m.queue.toList).map Value.render
      let upward := (Value.texts (m.sort .ascending).1.queue.toList).map Value.render
      let downward := (Value.texts (m.sort .descending).1.queue.toList).map Value.render
      (upward.Perm before ∧
        upward.Pairwise fun s t =>
          compare (Text.codePoints s) (Text.codePoints t) ≠ .gt) ∧
      downward.Perm before ∧
        downward.Pairwise fun s t =>
          (compare (Text.codePoints s) (Text.codePoints t)).swap ≠ .gt := by
  refine ⟨Text.compare_bytes, fun s t => ⟨?_, ?_⟩, fun m => ⟨?_, ?_⟩⟩
  · exact Value.order_text .ascending s t
  · exact Value.order_text .descending s t
  · exact ⟨texts_sort_perm .ascending m, texts_sort .ascending m⟩
  · exact ⟨texts_sort_perm .descending m, texts_sort .descending m⟩

-- The last code point of 16 bits stands before the first that needs more.
example : Value.order .ascending (.text "\uffff!") (.text "𐀀") = .lt := by decide +kernel

end Memory
end Fifo
