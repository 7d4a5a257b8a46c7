import Fifo.Program

/-!
# Addresses

Every address that a program can be sent to is the address of one of its lines: the pass over the
labels enters no other (`label_lt_size`), and a numbered line is checked against the number of lines
when the jump is made.  Both together are `lt_size_of_resolve`.
-/

namespace Fifo
namespace Labels

theorem mem_entries_insert {t : Labels} {name : String} {address : Nat} {e : String × Nat}
    (he : e ∈ (t.insert name address).entries) : e = (name, address) ∨ e ∈ t.entries := by
  rcases List.mem_cons.mp he with hnew | hold
  · exact Or.inl hnew
  · exact Or.inr (List.mem_filter.mp hold).1

/-- A pass that starts with the line number `address` enters lines before its end only. -/
theorem lt_of_mem_scanFrom {address : Nat} {t t' : Labels} {lines : List Line} {e : String × Nat}
    (hscan : scanFrom address t lines = .ok t')
    (ht : ∀ e ∈ t.entries, e.2 < address) (he : e ∈ t'.entries) :
    e.2 < address + lines.length := by
  -- The table so far only knows lines before `address`, and each line of the pass keeps that up.
  induction lines generalizing address t with
  | nil =>
      have heq : t = t' := Except.ok.inj hscan
      subst heq
      exact ht e he
  | cons l lines ih =>
      rw [scanFrom] at hscan
      have hlength : address + (l :: lines).length = address + 1 + lines.length := by
        rw [List.length_cons]
        omega
      rw [hlength]
      cases hlabel : l.label address with
      | error f => simp [hlabel] at hscan
      | ok found =>
          rw [hlabel] at hscan
          cases found with
          | none => exact ih hscan (fun e he => Nat.lt_succ_of_lt (ht e he))
          | some name =>
              refine ih hscan (fun e he => ?_)
              rcases mem_entries_insert he with rfl | hold
              · exact Nat.lt_succ_self address
              · exact Nat.lt_succ_of_lt (ht e hold)

theorem mem_entries_of_get? {t : Labels} {name : String} {address : Nat}
    (h : t.get? name = some address) : (name, address) ∈ t.entries := by
  obtain ⟨before, after, hentries, -⟩ := List.lookup_eq_some_iff.mp h
  rw [hentries]
  simp

end Labels

namespace Program

/-- Every address in the table of labels is the address of a line. -/
theorem label_lt_size (p : Program) {e : String × Nat} (he : e ∈ p.labels.entries) :
    e.2 < p.size := by
  have hlt := Labels.lt_of_mem_scanFrom p.labels_eq (by simp [Labels.empty]) he
  rw [size, ← Array.length_toList]
  omega

/-- A jump that is made goes to a line. -/
theorem lt_size_of_resolve {p : Program} {target : Target} {address : Nat}
    (h : p.resolve target = .ok address) : address < p.size := by
  rw [resolve] at h
  cases target with
  | line n =>
      rw [Labels.resolve] at h
      split at h
      · next hrange =>
          have heq : n.toInt.toNat = address := Except.ok.inj h
          omega
      · cases h
  | label name =>
      rw [Labels.resolve] at h
      cases hget : p.labels.get? name with
      | none => simp [hget] at h
      | some found =>
          rw [hget] at h
          have heq : found = address := Except.ok.inj h
          subst heq
          exact p.label_lt_size (Labels.mem_entries_of_get? hget)

end Program
end Fifo
