/-
# Flat JSON objects

Strings with their escapes, and objects whose values are written and read by a codec
(`JsonCodec`).  The reader takes such objects as they are written, without blanks; whoever
uses it finds the fields by name.

One character is written as its escape (`readChars_escape`), strings follow by induction, and
`readObject_objectText` is the round trip of an object over any codec.
-/
import Lobby.Text

open Text

namespace Lobby

/-! ## Strings -/

/-- A character inside a JSON string. -/
def escapeChar (c : Char) : List Char :=
  if c = '"' then ['\\', '"']
  else if c = '\\' then ['\\', '\\']
  else if c.toNat = 0x08 then ['\\', 'b']
  else if c.toNat = 0x09 then ['\\', 't']
  else if c.toNat = 0x0a then ['\\', 'n']
  else if c.toNat = 0x0c then ['\\', 'f']
  else if c.toNat = 0x0d then ['\\', 'r']
  else if c.toNat < 0x20 then '\\' :: 'u' :: fixedDigits 16 4 c.toNat
  else [c]

/-- The character a one-letter escape stands for. -/
def unescapeLetter (c : Char) : Option Char :=
  [('"', '"'), ('\\', '\\'), ('/', '/'), ('b', Char.ofNat 0x08), ('t', Char.ofNat 0x09),
    ('n', Char.ofNat 0x0a), ('f', Char.ofNat 0x0c), ('r', Char.ofNat 0x0d)].lookup c

/-- Read the rest of a string up to its closing quote. -/
def readChars : List Char → Option (List Char × List Char)
  | [] => none
  | '"' :: rest => some ([], rest)
  | '\\' :: 'u' :: a :: b :: c :: d :: rest => do
    let code ← numeral 16 [a, b, c, d]
    let (cs, rest) ← readChars rest
    some (Char.ofNat code :: cs, rest)
  | '\\' :: letter :: rest => do
    let c ← unescapeLetter letter
    let (cs, rest) ← readChars rest
    some (c :: cs, rest)
  | c :: rest =>
    if c.toNat < 0x20 then none
    else do
      let (cs, rest) ← readChars rest
      some (c :: cs, rest)

/-- A JSON string. -/
def quote (cs : List Char) : List Char := '"' :: (cs.flatMap escapeChar ++ ['"'])

/-- Read a JSON string. -/
def readQuoted : List Char → Option (List Char × List Char)
  | '"' :: rest => readChars rest
  | _ => none

/-- An escaped character is read back. -/
theorem readChars_escape (c : Char) (rest : List Char) :
    readChars (escapeChar c ++ rest)
      = (readChars rest).bind fun r => some (c :: r.1, r.2) := by
  by_cases hquote : c = '"'
  · subst hquote
    rfl
  by_cases hslash : c = '\\'
  · subst hslash
    rfl
  by_cases hcontrol : c.toNat < 0x20
  · -- the control characters one by one
    have hc : c = Char.ofNat c.toNat := (Char.ofNat_toNat c).symm
    generalize c.toNat = n at hcontrol hc
    subst hc
    interval_cases n <;> rfl
  · have hne : ∀ n < 0x20, c.toNat ≠ n := fun n hn heq => hcontrol (heq ▸ hn)
    have hescape : escapeChar c = [c] := by
      rw [escapeChar, if_neg hquote, if_neg hslash, if_neg (hne _ (by norm_num)),
        if_neg (hne _ (by norm_num)), if_neg (hne _ (by norm_num)),
        if_neg (hne _ (by norm_num)), if_neg (hne _ (by norm_num)), if_neg hcontrol]
    rw [hescape, List.singleton_append, readChars]
    · rw [if_neg hcontrol]
      rfl
    · exact hquote
    · rintro a b d e rest' rfl -
      exact hslash rfl
    · rintro letter rest' rfl -
      exact hslash rfl

/-- A string is read back, and what follows it is left. -/
theorem readQuoted_quote (cs rest : List Char) :
    readQuoted (quote cs ++ rest) = some (cs, rest) := by
  have hchars : readChars (cs.flatMap escapeChar ++ '"' :: rest) = some (cs, rest) := by
    induction cs with
    | nil => rfl
    | cons c cs ih =>
        rw [List.flatMap_cons, List.append_assoc, readChars_escape, ih]
        rfl
  simpa [quote, readQuoted] using hchars

theorem readChars_suffix {cs chars rest : List Char} (h : readChars cs = some (chars, rest)) :
    rest <:+ cs := by
  fun_induction readChars cs generalizing chars with
  | case1 => cases h
  | case2 cs =>
      cases h
      exact List.suffix_cons _ _
  | case3 a b c d cs ih =>
      obtain ⟨code, -, h⟩ := Option.bind_eq_some_iff.mp h
      obtain ⟨⟨chars', rest'⟩, hread, h⟩ := Option.bind_eq_some_iff.mp h
      cases h
      exact (ih hread).trans ⟨['\\', 'u', a, b, c, d], rfl⟩
  | case4 letter cs hletter ih =>
      obtain ⟨c, -, h⟩ := Option.bind_eq_some_iff.mp h
      obtain ⟨⟨chars', rest'⟩, hread, h⟩ := Option.bind_eq_some_iff.mp h
      cases h
      exact (ih hread).trans ⟨['\\', letter], rfl⟩
  | case5 => cases h
  | case6 c cs hquote hslash hletter hcontrol ih =>
      obtain ⟨⟨chars', rest'⟩, hread, h⟩ := Option.bind_eq_some_iff.mp h
      cases h
      exact (ih hread).trans (List.suffix_cons _ _)

/-- A reader leaves a tail of its text. -/
theorem readQuoted_suffix {cs chars rest : List Char} (h : readQuoted cs = some (chars, rest)) :
    rest <:+ cs := by
  unfold readQuoted at h
  split at h
  · exact (readChars_suffix h).trans (List.suffix_cons _ _)
  · cases h

/-! ## Objects -/

/-- A writer and a reader of values.  A value is read back in front of anything but a digit,
and what a reader leaves is a tail of its text. -/
structure JsonCodec (α : Type) where
  write : α → List Char
  read : List Char → Option (α × List Char)
  read_write : ∀ value {c : Char}, c.isDigit = false → ∀ rest,
    read (write value ++ c :: rest) = some (value, c :: rest)
  read_suffix : ∀ {cs value rest}, read cs = some (value, rest) → rest <:+ cs

theorem readQuoted_quote_cons (cs : List Char) {c : Char} (_ : c.isDigit = false)
    (rest : List Char) : readQuoted (quote cs ++ c :: rest) = some (cs, c :: rest) :=
  readQuoted_quote cs (c :: rest)

/-- Strings. -/
def quoted : JsonCodec (List Char) where
  write := quote
  read := readQuoted
  read_write := readQuoted_quote_cons
  read_suffix := readQuoted_suffix

variable {α : Type}

/-- A field and its value. -/
abbrev Member (α : Type) := List Char × α

/-- The members of an object up to its closing brace. -/
def membersText (codec : JsonCodec α) : List (Member α) → List Char
  | [] => ['}']
  | [m] => quote m.1 ++ ':' :: (codec.write m.2 ++ ['}'])
  | m :: ms => quote m.1 ++ ':' :: (codec.write m.2 ++ ',' :: membersText codec ms)

/-- Read the members of an object; the fuel bounds their number. -/
def readMembers (codec : JsonCodec α) : ℕ → List Char → Option (List (Member α))
  | 0, _ => none
  | fuel + 1, cs => do
    let (key, rest) ← readQuoted cs
    let rest ← stripPrefix [':'] rest
    let (value, rest) ← codec.read rest
    match rest with
    | ['}'] => some [(key, value)]
    | ',' :: rest => (readMembers codec fuel rest).map ((key, value) :: ·)
    | _ => none

/-- An object. -/
def objectText (codec : JsonCodec α) (members : List (Member α)) : List Char :=
  '{' :: membersText codec members

/-- Read an object. -/
def readObject (codec : JsonCodec α) : List Char → Option (List (Member α))
  | '{' :: rest => readMembers codec rest.length rest
  | _ => none

variable {codec : JsonCodec α}

theorem readMembers_membersText (fuel : ℕ) (m : Member α) (ms : List (Member α))
    (hfuel : ms.length < fuel) :
    readMembers codec fuel (membersText codec (m :: ms)) = some (m :: ms) := by
  induction fuel generalizing m ms with
  | zero => exact absurd hfuel (Nat.not_lt_zero _)
  | succ fuel ih =>
      cases ms with
      | nil =>
          -- the last member, in front of the brace
          have hread := codec.read_write m.2 (by decide : '}'.isDigit = false) []
          simp [membersText, readMembers, readQuoted_quote, stripPrefix, hread]
      | cons m' ms =>
          -- one member, in front of the comma, and the others by induction
          have hread := codec.read_write m.2 (by decide : ','.isDigit = false)
            (membersText codec (m' :: ms))
          have hrest := ih m' ms (by simpa using hfuel)
          simp [membersText, readMembers, readQuoted_quote, stripPrefix, hread, hrest]

theorem length_le_length_membersText (ms : List (Member α)) :
    ms.length ≤ (membersText codec ms).length := by
  fun_induction membersText codec ms with
  | case1 => simp
  | case2 m => simp [quote]
  | case3 m ms _ ih =>
      simp only [quote, List.length_append, List.length_cons]
      omega

/-- **An object with at least one member is read back.** -/
theorem readObject_objectText (m : Member α) (ms : List (Member α)) :
    readObject codec (objectText codec (m :: ms)) = some (m :: ms) :=
  readMembers_membersText _ m ms (length_le_length_membersText (m :: ms))

/-- An object that is read has its closing brace. -/
theorem mem_of_readMembers {fuel : ℕ} {cs : List Char} {members : List (Member α)}
    (h : readMembers codec fuel cs = some members) : '}' ∈ cs := by
  induction fuel generalizing cs members with
  | zero => cases h
  | succ fuel ih =>
      obtain ⟨⟨key, rest₁⟩, hkey, h⟩ := Option.bind_eq_some_iff.mp h
      obtain ⟨rest₂, hcolon, h⟩ := Option.bind_eq_some_iff.mp h
      obtain ⟨⟨value, rest₃⟩, hvalue, h⟩ := Option.bind_eq_some_iff.mp h
      -- each reader leaves a tail of its text
      have hsuffix : rest₃ <:+ cs := by
        refine (codec.read_suffix hvalue).trans
          (List.IsSuffix.trans ?_ (readQuoted_suffix hkey))
        rw [stripPrefix_eq_some hcolon]
        exact List.suffix_append _ _
      refine hsuffix.subset ?_
      dsimp only at h
      split at h
      · exact List.mem_cons_self
      · obtain ⟨members', hmembers, -⟩ := Option.map_eq_some_iff.mp h
        exact List.mem_cons_of_mem _ (ih hmembers)
      · cases h

theorem mem_of_readObject {cs : List Char} {members : List (Member α)}
    (h : readObject codec cs = some members) : '}' ∈ cs := by
  unfold readObject at h
  split at h
  · exact List.mem_cons_of_mem _ (mem_of_readMembers h)
  · cases h

end Lobby
