/-
# Assignments in order

A finite map after a list of assignments, of which a later one replaces an earlier one with
the same key.  What is read back was assigned (`mem_of_lookup_assignAll`), and what was
assigned is read back when no assignment disagrees with it (`lookup_assignAll`).
-/
import Mathlib.Data.List.AList

namespace Assignments

variable {α β : Type*} [DecidableEq α]

/-- Assign from left to right. -/
def assignAll (s : AList fun _ : α => β) (l : List (α × β)) : AList fun _ : α => β :=
  l.foldl (fun s x => s.insert x.1 x.2) s

variable {s : AList fun _ : α => β} {l : List (α × β)} {a : α} {b : β}

theorem mem_of_lookup_assignAll (h : (assignAll s l).lookup a = some b) :
    (a, b) ∈ l ∨ s.lookup a = some b := by
  induction l generalizing s with
  | nil => exact Or.inr h
  | cons x l ih =>
      rcases ih h with hmem | hlookup
      · exact Or.inl (List.mem_cons_of_mem x hmem)
      · by_cases ha : a = x.1
        · subst ha
          rw [AList.lookup_insert] at hlookup
          exact Or.inl (by rw [← Option.some.inj hlookup]; exact List.mem_cons_self)
        · rw [AList.lookup_insert_ne ha] at hlookup
          exact Or.inr hlookup

theorem lookup_assignAll_of_notMem (h : ∀ b, (a, b) ∉ l) :
    (assignAll s l).lookup a = s.lookup a := by
  induction l generalizing s with
  | nil => rfl
  | cons x l ih =>
      have ha : a ≠ x.1 := by
        rintro rfl
        exact h x.2 List.mem_cons_self
      have hrest := ih (s := s.insert x.1 x.2) fun b hb => h b (List.mem_cons_of_mem x hb)
      rw [AList.lookup_insert_ne ha] at hrest
      exact hrest

/-- What was assigned is read back, unless another assignment disagrees. -/
theorem lookup_assignAll (hmem : (a, b) ∈ l) (hone : ∀ b', (a, b') ∈ l → b' = b) :
    (assignAll s l).lookup a = some b := by
  induction l generalizing s with
  | nil => cases hmem
  | cons x l ih =>
      by_cases hl : ∃ b', (a, b') ∈ l
      · obtain ⟨b', hb'⟩ := hl
        obtain rfl := hone b' (List.mem_cons_of_mem x hb')
        exact ih hb' fun b'' hb'' => hone b'' (List.mem_cons_of_mem x hb'')
      · push Not at hl
        obtain rfl : (a, b) = x := (List.mem_cons.mp hmem).resolve_right (hl b)
        have hrest := lookup_assignAll_of_notMem (s := s.insert a b) hl
        rw [AList.lookup_insert] at hrest
        exact hrest

/-- What is read back is the last assignment. -/
theorem lookup_assignAll_eq (l : List (α × β)) (a : α) :
    (assignAll s l).lookup a = (l.reverse.lookup a).or (s.lookup a) := by
  induction l generalizing s with
  | nil => rfl
  | cons x l ih =>
      obtain ⟨a', b⟩ := x
      have hstep : (assignAll s ((a', b) :: l)).lookup a
          = (l.reverse.lookup a).or ((s.insert a' b).lookup a) := ih
      rw [hstep, List.reverse_cons, List.lookup_append, List.lookup_cons]
      by_cases ha : a = a'
      · subst ha
        simp
      · have hne : (a == a') = false := beq_eq_false_iff_ne.mpr ha
        rw [AList.lookup_insert_ne ha]
        simp [hne]

end Assignments
