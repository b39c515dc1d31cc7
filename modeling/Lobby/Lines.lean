/-
# Lines in pieces

A stream of lines, each with a delimiter behind it, that is read from a buffer into which it
comes in pieces: the next line is what stands in front of the first delimiter.

However the stream is cut into pieces, the lines that are taken are the first ones that were
written, in their order, and the buffer holds the beginning of the others
(`Reads.of_prefix`).
-/
import Mathlib

namespace Lines

section

variable {α : Type*} {delim : α}

/-- The lines, each with the delimiter behind it. -/
def encode (delim : α) (lines : List (List α)) : List α :=
  lines.flatMap fun line => line ++ [delim]

@[simp]
theorem encode_nil : encode delim [] = [] := rfl

@[simp]
theorem encode_cons (line : List α) (lines : List (List α)) :
    encode delim (line :: lines) = line ++ delim :: encode delim lines := by
  simp [encode]

@[simp]
theorem encode_append (lines lines' : List (List α)) :
    encode delim (lines ++ lines') = encode delim lines ++ encode delim lines' :=
  List.flatMap_append

/-- A stream of some lines and a rest. -/
structure Reads (delim : α) (stream : List α) (lines : List (List α)) (rest : List α) :
    Prop where
  stream_eq : stream = encode delim lines ++ rest
  notMem : ∀ line ∈ lines, delim ∉ line

variable {stream rest rest' line line' : List α} {lines : List (List α)}

/-- A delimiter in front of which there is no other one. -/
theorem eq_of_append_delim_eq (hline : delim ∉ line) (hline' : delim ∉ line')
    (h : line ++ delim :: rest = line' ++ delim :: rest') : line = line' ∧ rest = rest' := by
  rcases List.append_eq_append_iff.mp h with ⟨cut, rfl, hcut⟩ | ⟨cut, rfl, hcut⟩
  all_goals
    cases cut with
    | nil => simpa [eq_comm] using hcut
    | cons x cut =>
        rw [List.cons_append, List.cons.injEq] at hcut
        simp [hcut.1] at hline hline'

theorem Reads.start : Reads delim [] [] [] := ⟨rfl, by simp⟩

/-- One more piece of the stream. -/
theorem Reads.piece (h : Reads delim stream lines rest) (piece : List α) :
    Reads delim (stream ++ piece) lines (rest ++ piece) := by
  refine ⟨?_, h.notMem⟩
  rw [h.stream_eq, List.append_assoc]

/-- **The lines are those that were written**, in their order, if the stream is the beginning
of what was written. -/
theorem Reads.of_prefix {written : List (List α)} (h : Reads delim stream lines rest)
    (hwritten : ∀ line ∈ written, delim ∉ line) (hbegins : stream <+: encode delim written) :
    ∃ later, written = lines ++ later ∧ rest <+: encode delim later := by
  obtain ⟨rfl, hlines⟩ := h
  induction lines generalizing written with
  | nil => exact ⟨written, rfl, hbegins⟩
  | cons line lines ih =>
      rw [List.forall_mem_cons] at hlines
      obtain ⟨tail, htail⟩ := hbegins
      cases written with
      | nil => simp at htail
      | cons line' written =>
          rw [List.forall_mem_cons] at hwritten
          rw [encode_cons, encode_cons, List.append_assoc, List.append_assoc,
            List.cons_append] at htail
          -- no line holds the delimiter, so the first ones agree
          obtain ⟨rfl, hrest⟩ := eq_of_append_delim_eq hlines.1 hwritten.1 htail
          obtain ⟨later, rfl, hlater⟩ :=
            ih hwritten.2 hlines.2 ⟨tail, by rw [List.append_assoc]; exact hrest⟩
          exact ⟨later, rfl, hlater⟩

/-- The beginning of a line that is not complete. -/
theorem prefix_of_notMem (h : rest <+: encode delim (line :: lines)) (hrest : delim ∉ rest) :
    rest <+: line := by
  rw [encode_cons] at h
  rcases List.prefix_or_prefix_of_prefix h (List.prefix_append line _) with hline | ⟨cut, rfl⟩
  · exact hline
  · cases cut with
    | nil => simp
    | cons x cut =>
        rw [List.prefix_append_right_inj] at h
        obtain ⟨rfl, -⟩ := List.cons_prefix_cons.mp h
        simp at hrest

end

/-! ## The next line of a buffer -/

section

variable {α : Type*} [DecidableEq α] {delim : α} {buffer line rest stream : List α}
  {lines : List (List α)}

/-- The next line, and the rest of the buffer. -/
def next (delim : α) : List α → Option (List α × List α)
  | [] => none
  | x :: buffer =>
    if x = delim then some ([], buffer)
    else (next delim buffer).map fun r => (x :: r.1, r.2)

theorem next_eq_some_iff :
    next delim buffer = some (line, rest) ↔ buffer = line ++ delim :: rest ∧ delim ∉ line := by
  induction buffer generalizing line with
  | nil => simp [next]
  | cons x buffer ih =>
      rw [next]
      -- the line ends at the first delimiter
      by_cases hx : x = delim
      · subst hx
        rw [if_pos rfl]
        cases line with
        | nil => simp
        | cons y line =>
            simp only [Option.some.injEq, Prod.mk.injEq, List.cons_append, List.cons.injEq,
              List.mem_cons, not_or, reduceCtorEq, false_and, false_iff]
            exact fun h => h.2.1 h.1.1
      · rw [if_neg hx, Option.map_eq_some_iff]
        cases line with
        | nil =>
            simp only [Prod.mk.injEq, reduceCtorEq, false_and, and_false, exists_false,
              List.nil_append, List.cons.injEq, hx]
        | cons y line =>
            simp only [Prod.exists, Prod.mk.injEq, List.cons.injEq, List.cons_append,
              List.mem_cons, not_or]
            constructor
            · rintro ⟨line', rest', hnext, ⟨rfl, rfl⟩, rfl⟩
              obtain ⟨rfl, hline⟩ := ih.mp hnext
              exact ⟨⟨rfl, rfl⟩, fun h => hx h.symm, hline⟩
            · rintro ⟨⟨rfl, rfl⟩, -, hline⟩
              exact ⟨line, rest, ih.mpr ⟨rfl, hline⟩, ⟨rfl, rfl⟩, rfl⟩

theorem next_eq_none_iff : next delim buffer = none ↔ delim ∉ buffer := by
  induction buffer with
  | nil => simp [next]
  | cons x buffer ih =>
      rw [next]
      by_cases hx : x = delim
      · simp [hx]
      · simp [hx, ih, Ne.symm hx]

/-- One more line is taken from the buffer. -/
theorem Reads.next (h : Reads delim stream lines buffer)
    (hnext : next delim buffer = some (line, rest)) :
    Reads delim stream (lines ++ [line]) rest := by
  obtain ⟨rfl, hline⟩ := next_eq_some_iff.mp hnext
  refine ⟨?_, fun l hl => ?_⟩
  · rw [h.stream_eq, encode_append, List.append_assoc]
    simp
  · rcases List.mem_append.mp hl with hl | hl
    · exact h.notMem l hl
    · rw [List.mem_singleton.mp hl]
      exact hline

end

end Lines
