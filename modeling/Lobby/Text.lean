/-
# Prefixes and numerals in text

What the standard libraries do with prefixes and with strings of digits: the value of a
digit in a radix, numerals as folds over their digits, numerals of a fixed width, bounded
numbers with an optional sign, and white space around a text.

Reading is the inverse of writing (`numeral_toDigits`, `numeral_fixedDigits`).  Both are
proved by appending the last digit (`numeral_concat`).
-/
import Mathlib

namespace Text

/-! ## Prefixes -/

/-- The text behind a prefix, when it is there. -/
def stripPrefix : List Char → List Char → Option (List Char)
  | [], cs => some cs
  | _ :: _, [] => none
  | p :: ps, c :: cs => if p = c then stripPrefix ps cs else none

@[simp] theorem stripPrefix_append (ps cs : List Char) :
    stripPrefix ps (ps ++ cs) = some cs := by
  induction ps with
  | nil => cases cs <;> rfl
  | cons p ps ih => simpa [stripPrefix] using ih

theorem stripPrefix_eq_some {ps cs rest : List Char} (h : stripPrefix ps cs = some rest) :
    cs = ps ++ rest := by
  induction ps generalizing cs with
  | nil =>
      rw [stripPrefix] at h
      exact Option.some.inj h
  | cons p ps ih =>
      cases cs with
      | nil => simp [stripPrefix] at h
      | cons c cs =>
          by_cases hc : p = c
          · subst hc
            rw [stripPrefix, if_pos rfl] at h
            rw [ih h, List.cons_append]
          · rw [stripPrefix, if_neg hc] at h
            exact absurd h (by simp)

/-! ## Numerals -/

/-- The value of a digit, letters of both cases standing for ten and more. -/
def digit? (radix : ℕ) (c : Char) : Option ℕ :=
  let value :=
    if '0' ≤ c ∧ c ≤ '9' then c.toNat - 48
    else if 'a' ≤ c ∧ c ≤ 'z' then c.toNat - 87
    else if 'A' ≤ c ∧ c ≤ 'Z' then c.toNat - 55
    else radix
  if value < radix then some value else none

/-- Read on from a value. -/
def numeralFrom (radix : ℕ) (value : ℕ) (cs : List Char) : Option ℕ :=
  cs.foldlM (fun value c => (digit? radix c).map (value * radix + ·)) value

/-- The number a string of digits denotes. -/
def numeral (radix : ℕ) (cs : List Char) : Option ℕ := numeralFrom radix 0 cs

/-- The `k` low digits of a number. -/
def fixedDigits (radix : ℕ) : ℕ → ℕ → List Char
  | 0, _ => []
  | k + 1, n => fixedDigits radix k (n / radix) ++ [Nat.digitChar (n % radix)]

/-- A number below a bound: an optional plus sign and at least one digit. -/
def parseUnsigned (radix bound : ℕ) (cs : List Char) : Option ℕ :=
  let digits := match cs with
    | '+' :: digits => digits
    | digits => digits
  if digits = [] then none
  else (numeral radix digits).filter fun value => decide (value < bound)

theorem parseUnsigned_lt {radix bound n : ℕ} {cs : List Char}
    (h : parseUnsigned radix bound cs = some n) : n < bound := by
  have hdigits : ∀ digits : List Char, (if digits = [] then none
      else (numeral radix digits).filter fun value => decide (value < bound)) = some n →
      n < bound := by
    intro digits hsome
    by_cases hnil : digits = []
    · simp [hnil] at hsome
    · rw [if_neg hnil] at hsome
      simpa using (Option.filter_eq_some_iff.mp hsome).2
  exact hdigits _ h

theorem digit?_digitChar {radix n : ℕ} (hn : n < radix) (hradix : radix ≤ 16) :
    digit? radix (Nat.digitChar n) = some n := by
  have h16 : n < 16 := by omega
  interval_cases n <;> simp [digit?, Nat.digitChar] <;> omega

@[simp] theorem numeral_nil (radix : ℕ) : numeral radix [] = some 0 := rfl

theorem numeralFrom_append (radix value : ℕ) (cs ds : List Char) :
    numeralFrom radix value (cs ++ ds)
      = (numeralFrom radix value cs).bind fun v => numeralFrom radix v ds := by
  simp [numeralFrom, List.foldlM_append]

/-- Reading one more digit. -/
theorem numeral_concat (radix : ℕ) (cs : List Char) (c : Char) :
    numeral radix (cs ++ [c])
      = (numeral radix cs).bind fun v => (digit? radix c).map (v * radix + ·) := by
  rw [numeral, numeralFrom_append, numeral]
  congr 1
  funext v
  simp [numeralFrom]

/-- Every character of a numeral is a digit. -/
theorem digit?_ne_none_of_mem {radix value : ℕ} {cs : List Char}
    (h : numeral radix cs = some value) : ∀ c ∈ cs, digit? radix c ≠ none := by
  induction cs using List.reverseRecOn generalizing value with
  | nil => simp
  | append_singleton cs c ih =>
      rw [numeral_concat] at h
      obtain ⟨front, hfront, hlast⟩ := Option.bind_eq_some_iff.mp h
      obtain ⟨d, hd, -⟩ := Option.map_eq_some_iff.mp hlast
      intro x hx
      rcases List.mem_append.mp hx with hx | hx
      · exact ih hfront x hx
      · rw [List.mem_singleton.mp hx, hd]
        simp

/-- A bounded number is an optional plus sign in front of its numeral. -/
theorem parseUnsigned_eq_some {radix bound n : ℕ} {cs : List Char} :
    parseUnsigned radix bound cs = some n ↔
      ∃ plus digits : List Char, (plus = [] ∨ plus = ['+']) ∧ digits ≠ []
        ∧ cs = plus ++ digits ∧ numeral radix digits = some n ∧ n < bound := by
  have hread : ∀ digits : List Char, (if digits = [] then none
      else (numeral radix digits).filter fun value => decide (value < bound)) = some n ↔
        digits ≠ [] ∧ numeral radix digits = some n ∧ n < bound := by
    intro digits
    by_cases hnil : digits = []
    · simp [hnil]
    · rw [if_neg hnil, Option.filter_eq_some_iff, decide_eq_true_eq]
      exact ⟨fun h => ⟨hnil, h⟩, fun h => h.2⟩
  -- a numeral does not start with the sign
  have hplus : ∀ rest : List Char, numeral radix ('+' :: rest) ≠ some n := by
    intro rest h
    exact digit?_ne_none_of_mem h '+' List.mem_cons_self (if_neg (lt_irrefl radix))
  by_cases hsign : ∃ rest, cs = '+' :: rest
  · obtain ⟨rest, rfl⟩ := hsign
    constructor
    · intro h
      obtain ⟨hne, hnumeral, hlt⟩ := (hread rest).mp h
      exact ⟨['+'], rest, Or.inr rfl, hne, rfl, hnumeral, hlt⟩
    · rintro ⟨plus, digits, rfl | rfl, hne, heq, hnumeral, hlt⟩
      · rw [List.nil_append] at heq
        exact absurd (heq ▸ hnumeral) (hplus rest)
      · obtain rfl := (List.cons_eq_cons.mp heq).2
        exact (hread _).mpr ⟨hne, hnumeral, hlt⟩
  · have hunsigned : parseUnsigned radix bound cs = if cs = [] then none
        else (numeral radix cs).filter fun value => decide (value < bound) := by
      rw [parseUnsigned]
      exact fun rest hrest => hsign ⟨rest, hrest⟩
    rw [hunsigned, hread]
    constructor
    · rintro ⟨hne, hnumeral, hlt⟩
      exact ⟨[], cs, Or.inl rfl, hne, rfl, hnumeral, hlt⟩
    · rintro ⟨plus, digits, rfl | rfl, hne, rfl, hnumeral, hlt⟩
      · exact ⟨hne, hnumeral, hlt⟩
      · exact absurd ⟨digits, rfl⟩ hsign

/-! ## Reading what was written -/

@[simp] theorem length_fixedDigits (radix k n : ℕ) : (fixedDigits radix k n).length = k := by
  induction k generalizing n with
  | zero => rfl
  | succ k ih => simp [fixedDigits, ih]

/-- A numeral of fixed width denotes the low part of the number. -/
theorem numeral_fixedDigits {radix : ℕ} (hpos : 0 < radix) (hradix : radix ≤ 16) (k n : ℕ) :
    numeral radix (fixedDigits radix k n) = some (n % radix ^ k) := by
  induction k generalizing n with
  | zero => simp [fixedDigits, Nat.mod_one]
  | succ k ih =>
      have hdigit := digit?_digitChar (Nat.mod_lt n hpos) hradix
      rw [fixedDigits, numeral_concat, ih, Option.bind_some, hdigit, Option.map_some,
        pow_succ, mul_comm (radix ^ k) radix, Nat.mod_mul]
      congr 1
      ring

/-- The shortest numeral of a number denotes it. -/
theorem numeral_toDigits {radix : ℕ} (hone : 1 < radix) (hradix : radix ≤ 16) (n : ℕ) :
    numeral radix (Nat.toDigits radix n) = some n := by
  induction n using Nat.strongRecOn with
  | _ n ih =>
      by_cases hn : n < radix
      · rw [Nat.toDigits_of_lt_base hn, ← List.nil_append [Nat.digitChar n], numeral_concat,
          numeral_nil, Option.bind_some, digit?_digitChar hn hradix]
        simp
      · have hdiv : n / radix < n := Nat.div_lt_self (by omega) hone
        have hdigit := digit?_digitChar (Nat.mod_lt n (by omega)) hradix
        rw [Nat.toDigits_of_base_le hone (by omega), numeral_concat, ih _ hdiv,
          Option.bind_some, hdigit, Option.map_some, mul_comm, Nat.div_add_mod]

/-- A number is determined by its numeral. -/
theorem toDigits_injective {radix m n : ℕ} (hone : 1 < radix) (hradix : radix ≤ 16)
    (h : Nat.toDigits radix m = Nat.toDigits radix n) : m = n := by
  have hm := numeral_toDigits hone hradix m
  rw [h, numeral_toDigits hone hradix n] at hm
  exact (Option.some.inj hm).symm

/-! ## Digits next to other characters -/

/-- Digits in front of another character. -/
theorem digits_prefix_inj {ds ds' cs cs' : List Char} {c c' : Char}
    (hds : ∀ d ∈ ds, d.isDigit) (hds' : ∀ d ∈ ds', d.isDigit) (hc : c.isDigit = false)
    (hc' : c'.isDigit = false) (h : ds ++ c :: cs = ds' ++ c' :: cs') :
    ds = ds' ∧ c :: cs = c' :: cs' := by
  induction ds generalizing ds' with
  | nil =>
      cases ds' with
      | nil => exact ⟨rfl, h⟩
      | cons d' ds' =>
          rw [List.nil_append, List.cons_append, List.cons.injEq] at h
          rw [h.1, hds' d' List.mem_cons_self] at hc
          exact absurd hc (by decide)
  | cons d ds ih =>
      cases ds' with
      | nil =>
          rw [List.nil_append, List.cons_append, List.cons.injEq] at h
          rw [← h.1, hds d List.mem_cons_self] at hc'
          exact absurd hc' (by decide)
      | cons d' ds' =>
          rw [List.cons_append, List.cons_append, List.cons.injEq] at h
          obtain ⟨htail, hrest⟩ := ih (fun x hx => hds x (List.mem_cons_of_mem d hx))
            (fun x hx => hds' x (List.mem_cons_of_mem d' hx)) h.2
          exact ⟨by rw [h.1, htail], hrest⟩

/-- Digits behind another character. -/
theorem digits_suffix_inj {ds ds' cs cs' : List Char} {c : Char}
    (hds : ∀ d ∈ ds, d.isDigit) (hds' : ∀ d ∈ ds', d.isDigit) (hc : c.isDigit = false)
    (h : cs ++ c :: ds = cs' ++ c :: ds') : cs = cs' ∧ ds = ds' := by
  have hrev : ds.reverse ++ c :: cs.reverse = ds'.reverse ++ c :: cs'.reverse := by
    simpa using congrArg List.reverse h
  obtain ⟨hdigits, hrest⟩ := digits_prefix_inj (fun d hd => hds d (List.mem_reverse.mp hd))
    (fun d hd => hds' d (List.mem_reverse.mp hd)) hc hc hrev
  exact ⟨List.reverse_injective (List.cons_eq_cons.mp hrest).2,
    List.reverse_injective hdigits⟩

/-- A number between `-bound` and `bound`, the upper bound excluded: an optional sign and at
least one digit. -/
def parseSigned (radix bound : ℕ) (cs : List Char) : Option ℤ :=
  match cs with
  | '-' :: digits =>
    if digits = [] then none
    else ((numeral radix digits).filter fun value => decide (value ≤ bound)).map fun n => -(n : ℤ)
  | cs => (parseUnsigned radix bound cs).map Int.ofNat

/-! ## White space -/

/-- The characters with the property `White_Space`. -/
def isWhitespace (c : Char) : Bool :=
  let n := c.toNat
  (9 ≤ n && n ≤ 13) || n == 32 || n == 133 || n == 160 || n == 5760
    || (8192 ≤ n && n ≤ 8202) || n == 8232 || n == 8233 || n == 8239 || n == 8287 || n == 12288

/-- The text without the white space around it. -/
def trimText (cs : List Char) : List Char :=
  ((cs.dropWhile isWhitespace).reverse.dropWhile isWhitespace).reverse

/-! ## Bytes -/

/-- The text in UTF-8. -/
def bytesOf (s : String) : List UInt8 := s.toUTF8.data.toList

/-- The text that is so encoded. -/
def textOf (bytes : List UInt8) : Option String := String.fromUTF8? ⟨bytes.toArray⟩

theorem textOf_bytesOf (s : String) : textOf (bytesOf s) = some s := by
  have hbytes : (⟨(bytesOf s).toArray⟩ : ByteArray) = s.toByteArray := by simp [bytesOf]
  rw [textOf, hbytes, String.fromUTF8?, dif_pos s.isValidUTF8]
  rfl

/-- The bytes below 128 are those of the characters below 128. -/
theorem mem_utf8EncodeChar {c : Char} {b : UInt8} (hb : b.toNat < 128)
    (h : b ∈ String.utf8EncodeChar c) : b.toNat = c.toNat := by
  have hc : c.toNat = c.val.toNat := rfl
  simp only [String.utf8EncodeChar] at h
  split at h
  · simp only [List.mem_singleton] at h
    subst h
    simp only [UInt8.toNat_ofNat'] at hb ⊢
    omega
  · split at h
    · simp only [List.mem_cons, List.not_mem_nil, or_false] at h
      -- every byte of a longer encoding is 128 or more
      rcases h with rfl | rfl <;> simp only [UInt8.toNat_ofNat'] at hb <;> omega
    · split at h
      · simp only [List.mem_cons, List.not_mem_nil, or_false] at h
        rcases h with rfl | rfl | rfl <;> simp only [UInt8.toNat_ofNat'] at hb <;> omega
      · simp only [List.mem_cons, List.not_mem_nil, or_false] at h
        rcases h with rfl | rfl | rfl | rfl <;> simp only [UInt8.toNat_ofNat'] at hb <;> omega

theorem bytesOf_eq (s : String) : bytesOf s = s.toList.flatMap String.utf8EncodeChar := by
  have hencode : s.toList.utf8Encode = s.toByteArray := String.utf8Encode_toList
  rw [bytesOf, String.toUTF8, ← hencode, List.utf8Encode]
  simp

theorem bytesOf_append (s t : String) : bytesOf (s ++ t) = bytesOf s ++ bytesOf t := by
  simp [bytesOf_eq]

theorem mem_bytesOf {s : String} {b : UInt8} (hb : b.toNat < 128) (h : b ∈ bytesOf s) :
    ∃ c ∈ s.toList, b.toNat = c.toNat := by
  rw [bytesOf_eq, List.mem_flatMap] at h
  obtain ⟨c, hc, hmem⟩ := h
  exact ⟨c, hc, mem_utf8EncodeChar hb hmem⟩

theorem mem_bytesOf_of_mem {s : String} {c : Char} (hc : c.toNat < 128) (h : c ∈ s.toList) :
    UInt8.ofNat c.toNat ∈ bytesOf s := by
  rw [bytesOf_eq, List.mem_flatMap]
  have hle : c.val.toNat ≤ 0x7f := Nat.le_of_lt_succ hc
  refine ⟨c, h, ?_⟩
  rw [String.utf8EncodeChar, if_pos hle]
  exact List.mem_singleton.mpr rfl

theorem bytesOf_textOf {bytes : List UInt8} {s : String} (h : textOf bytes = some s) :
    bytesOf s = bytes := by
  rw [textOf, String.fromUTF8?] at h
  split at h
  · cases h
    simp [bytesOf, String.fromUTF8]
  · cases h

end Text
