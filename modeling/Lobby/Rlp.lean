/-
# Recursive length prefix encoding

RLP as a format of its own: big-endian numbers, items (byte strings and lists of
items), the encoder, and a strict decoder that accepts canonical encodings only.

The main results are the round trip `decodeItems_encodeAll` (the decoder reads back
every sequence of items whose encoding is shorter than `2 ^ 64` bytes) and, from it,
`encode_list_injective`.  The induction is on the fuel of the decoder: one step reads
one header, and `splitItem_encode` says what a header hides.
-/
import Mathlib

namespace Rlp

/-! ## Big-endian numbers -/

/-- The number a big-endian byte string denotes. -/
def beNat (bs : List UInt8) : ℕ :=
  bs.foldl (fun acc b => acc * 256 + b.toNat) 0

/-- The `k` low bytes of `n`, most significant first. -/
def toBe : ℕ → ℕ → List UInt8
  | 0, _ => []
  | k + 1, n => toBe k (n / 256) ++ [UInt8.ofNat n]

/-- A byte string without its leading zero bytes. -/
def trim (bs : List UInt8) : List UInt8 := bs.dropWhile (· == 0)

/-- A nonzero byte is a positive number. -/
theorem toNat_pos_of_ne_zero {b : UInt8} (hb : b ≠ 0) : 0 < b.toNat := by
  rcases Nat.eq_zero_or_pos b.toNat with h | h
  · exact absurd (UInt8.toNat_inj.mp h) hb
  · exact h

@[simp] theorem beNat_nil : beNat [] = 0 := rfl

theorem beNat_append (as bs : List UInt8) :
    beNat (as ++ bs) = beNat as * 256 ^ bs.length + beNat bs := by
  induction bs using List.reverseRecOn with
  | nil => simp
  | append_singleton bs b ih =>
      have hsnoc : ∀ cs : List UInt8, beNat (cs ++ [b]) = beNat cs * 256 + b.toNat := by
        intro cs
        simp [beNat, List.foldl_append]
      rw [← List.append_assoc, hsnoc, hsnoc, ih, List.length_append, List.length_singleton,
        pow_succ]
      ring

theorem beNat_cons (b : UInt8) (bs : List UInt8) :
    beNat (b :: bs) = b.toNat * 256 ^ bs.length + beNat bs := by
  have h := beNat_append [b] bs
  simpa [beNat] using h

theorem beNat_lt (bs : List UInt8) : beNat bs < 256 ^ bs.length := by
  induction bs with
  | nil => simp
  | cons b bs ih =>
      have hb : b.toNat < 256 := b.toNat_lt
      rw [beNat_cons, List.length_cons, pow_succ]
      have hmul : b.toNat * 256 ^ bs.length ≤ 255 * 256 ^ bs.length :=
        Nat.mul_le_mul_right _ (by omega)
      omega

@[simp] theorem length_toBe (k n : ℕ) : (toBe k n).length = k := by
  induction k generalizing n with
  | zero => rfl
  | succ k ih => simp [toBe, ih]

theorem beNat_toBe (k n : ℕ) : beNat (toBe k n) = n % 256 ^ k := by
  induction k generalizing n with
  | zero => simp [toBe, Nat.mod_one]
  | succ k ih =>
      have hlow : beNat [UInt8.ofNat n] = n % 256 := by simp [beNat]
      rw [toBe, beNat_append, ih, hlow, List.length_singleton, pow_one, pow_succ,
        mul_comm (256 ^ k) 256, Nat.mod_mul]
      ring

/-- Byte strings of one length that denote one number are equal. -/
theorem beNat_injective_of_length {as bs : List UInt8} (hlen : as.length = bs.length)
    (h : beNat as = beNat bs) : as = bs := by
  induction as generalizing bs with
  | nil => exact (List.length_eq_zero_iff.mp hlen.symm).symm
  | cons a as ih =>
      cases bs with
      | nil => simp at hlen
      | cons b bs =>
          simp only [List.length_cons, Nat.add_right_cancel_iff] at hlen
          rw [beNat_cons, beNat_cons, hlen] at h
          have hlo := beNat_lt as
          have hlo' := beNat_lt bs
          rw [hlen] at hlo
          have hhead : a.toNat = b.toNat := by
            have hdiv := congrArg (· / 256 ^ bs.length) h
            simpa [Nat.add_div_of_dvd_right, Nat.mul_div_cancel _ (Nat.pow_pos (n := bs.length)
              (by norm_num : 0 < 256)), Nat.div_eq_of_lt hlo, Nat.div_eq_of_lt hlo'] using hdiv
          have htail : beNat as = beNat bs := by rw [hhead] at h; omega
          rw [UInt8.toNat_inj.mp hhead, ih hlen htail]

@[simp] theorem beNat_trim (bs : List UInt8) : beNat (trim bs) = beNat bs := by
  induction bs with
  | nil => rfl
  | cons b bs ih =>
      unfold trim at ih ⊢
      by_cases hb : b = 0
      · subst hb
        rw [List.dropWhile_cons_of_pos (by simp), ih, beNat_cons]
        simp
      · rw [List.dropWhile_cons_of_neg (by simpa using hb)]

theorem length_trim_le (bs : List UInt8) : (trim bs).length ≤ bs.length :=
  (List.dropWhile_sublist _).length_le

/-- A trimmed byte string has no leading zero. -/
theorem head?_trim_ne_zero (bs : List UInt8) : (trim bs).head? ≠ some 0 := by
  unfold trim
  intro h
  have := List.head?_dropWhile_not (· == (0 : UInt8)) bs
  rw [h] at this
  simp at this

/-- Trimming keeps exactly the bytes of a string that starts with a nonzero byte. -/
theorem trim_eq_self {bs : List UInt8} (h : bs.head? ≠ some 0) : trim bs = bs := by
  cases bs with
  | nil => rfl
  | cons b bs =>
      have hb : b ≠ 0 := by simpa using h
      exact List.dropWhile_cons_of_neg (by simpa using hb)

theorem trim_eq_nil_iff (bs : List UInt8) : trim bs = [] ↔ beNat bs = 0 := by
  constructor
  · intro h
    rw [← beNat_trim, h, beNat_nil]
  · intro h
    by_contra hne
    obtain ⟨b, rest, hb⟩ := List.exists_cons_of_ne_nil hne
    have hhead := head?_trim_ne_zero bs
    rw [hb] at hhead
    have hpos : 0 < b.toNat := toNat_pos_of_ne_zero (by simpa using hhead)
    have hval : beNat (trim bs) = 0 := by rw [beNat_trim, h]
    rw [hb, beNat_cons] at hval
    have := Nat.mul_pos hpos (Nat.pow_pos (n := rest.length) (by norm_num : 0 < 256))
    omega

/-- The length of a number's shortest big-endian form, compared with a bound. -/
theorem length_trim_lt_iff (bs : List UInt8) (hne : bs ≠ []) :
    (trim bs).length < bs.length ↔ beNat bs < 256 ^ (bs.length - 1) := by
  cases bs with
  | nil => exact absurd rfl hne
  | cons b bs =>
      simp only [List.length_cons, Nat.add_sub_cancel]
      by_cases hb : b = 0
      · subst hb
        have htrim : trim (0 :: bs) = trim bs := List.dropWhile_cons_of_pos (by simp)
        have hle := length_trim_le bs
        have hlt := beNat_lt bs
        rw [htrim, beNat_cons]
        simp only [UInt8.toNat_zero, zero_mul, zero_add]
        exact ⟨fun _ => hlt, fun _ => by omega⟩
      · have hself : trim (b :: bs) = b :: bs := trim_eq_self (by simpa using hb)
        have hpos : 1 ≤ b.toNat := toNat_pos_of_ne_zero hb
        have hmul := Nat.mul_le_mul_right (256 ^ bs.length) hpos
        rw [hself, beNat_cons, List.length_cons]
        constructor <;> intro h <;> omega

/-! ## Items and their encoding -/

/-- An RLP item: a byte string or a list of items. -/
inductive Item : Type where
  | str (bytes : List UInt8)
  | list (items : List Item)

/-- The bytes of a payload length, shortest form. -/
def lengthBytes (n : ℕ) : List UInt8 := trim (toBe 8 n)

/-- The header of a payload of `n` bytes: `short + n` up to 55 bytes, and past that
`long` plus the number of length bytes, followed by the length itself. -/
def header (short long : ℕ) (n : ℕ) : List UInt8 :=
  if n ≤ 55 then [UInt8.ofNat (short + n)]
  else UInt8.ofNat (long + (lengthBytes n).length) :: lengthBytes n

/-- The encoding of a byte string; one byte below `0x80` stands for itself. -/
def encodeValue (bytes : List UInt8) : List UInt8 :=
  match bytes with
  | [b] => if b < 0x80 then [b] else header 0x80 0xb7 1 ++ [b]
  | bytes => header 0x80 0xb7 bytes.length ++ bytes

/-- The header of a list whose items take `n` bytes. -/
def listHeader (n : ℕ) : List UInt8 := header 0xc0 0xf7 n

mutual

/-- The encoding of an item. -/
def Item.encode : Item → List UInt8
  | .str bytes => encodeValue bytes
  | .list items => listHeader (encodeAll items).length ++ encodeAll items

/-- The encodings of several items, one after the other. -/
def encodeAll : List Item → List UInt8
  | [] => []
  | item :: items => item.encode ++ encodeAll items

end

/-- The payload of an item, and whether it is a list. -/
def Item.payload : Item → Bool × List UInt8
  | .str bytes => (false, bytes)
  | .list items => (true, encodeAll items)

/-! ## The strict decoder -/

/-- Split off the first `n` bytes, when there are that many. -/
def takeBytes (n : ℕ) (bytes : List UInt8) : Option (List UInt8 × List UInt8) :=
  if n ≤ bytes.length then some (bytes.take n, bytes.drop n) else none

/-- Read a payload length of `k` bytes: no leading zero, and not short enough for the
one-byte header. -/
def takeLength (k : ℕ) (bytes : List UInt8) : Option (ℕ × List UInt8) := do
  let (digits, rest) ← takeBytes k bytes
  if digits.head? = some 0 ∨ beNat digits ≤ 55 then none else some (beNat digits, rest)

/-- Read one header and split its payload from what follows; `true` marks a list.
Headers that are not the shortest for their payload are refused. -/
def splitItem : List UInt8 → Option ((Bool × List UInt8) × List UInt8)
  | [] => none
  | b :: rest =>
    if b.toNat < 0x80 then some ((false, [b]), rest)
    else if b.toNat ≤ 0xb7 then do
      let (payload, rest) ← takeBytes (b.toNat - 0x80) rest
      if payload.length = 1 ∧ beNat payload < 0x80 then none
      else some ((false, payload), rest)
    else if b.toNat ≤ 0xbf then do
      let (n, rest) ← takeLength (b.toNat - 0xb7) rest
      let (payload, rest) ← takeBytes n rest
      some ((false, payload), rest)
    else if b.toNat ≤ 0xf7 then do
      let (payload, rest) ← takeBytes (b.toNat - 0xc0) rest
      some ((true, payload), rest)
    else do
      let (n, rest) ← takeLength (b.toNat - 0xf7) rest
      let (payload, rest) ← takeBytes n rest
      some ((true, payload), rest)

/-- Read a whole byte string as a sequence of items.  The fuel bounds the number of
headers; the length of the input is always enough (`decodeItems_encodeAll`). -/
def decodeItems : ℕ → List UInt8 → Option (List Item)
  | _, [] => some []
  | 0, _ :: _ => none
  | fuel + 1, b :: bs => do
    let ((isList, payload), rest) ← splitItem (b :: bs)
    let item ← if isList then (decodeItems fuel payload).map Item.list
      else some (Item.str payload)
    let items ← decodeItems fuel rest
    some (item :: items)

/-- Read a byte string that is exactly one item. -/
def decode (bytes : List UInt8) : Option Item :=
  match decodeItems bytes.length bytes with
  | some [item] => some item
  | _ => none

/-! ## Reading back a header -/

theorem takeBytes_append (front rest : List UInt8) :
    takeBytes front.length (front ++ rest) = some (front, rest) := by
  simp [takeBytes]

theorem beNat_lengthBytes {n : ℕ} (h : n < 2 ^ 64) : beNat (lengthBytes n) = n := by
  rw [lengthBytes, beNat_trim, beNat_toBe, Nat.mod_eq_of_lt]
  norm_num at h ⊢
  exact h

theorem length_lengthBytes_le (n : ℕ) : (lengthBytes n).length ≤ 8 := by
  have h := length_trim_le (toBe 8 n)
  rwa [length_toBe] at h

theorem length_lengthBytes_pos {n : ℕ} (h : n < 2 ^ 64) (hpos : 0 < n) :
    0 < (lengthBytes n).length := by
  rw [List.length_pos_iff, lengthBytes, Ne, trim_eq_nil_iff, ← beNat_trim, ← lengthBytes,
    beNat_lengthBytes h]
  omega

theorem takeLength_lengthBytes {n : ℕ} (h : n < 2 ^ 64) (hlong : 55 < n)
    (rest : List UInt8) :
    takeLength (lengthBytes n).length (lengthBytes n ++ rest) = some (n, rest) := by
  have hhead : (lengthBytes n).head? ≠ some 0 := head?_trim_ne_zero _
  simp [takeLength, takeBytes_append, hhead, beNat_lengthBytes h, hlong]

theorem toNat_ofNat_of_lt {n : ℕ} (h : n < 256) : (UInt8.ofNat n).toNat = n := by
  simp only [UInt8.toNat_ofNat']
  omega

/-- A byte string that does not stand for itself is read back from its header. -/
theorem splitItem_header_str (payload rest : List UInt8) (h : payload.length < 2 ^ 64)
    (hcanon : ¬ (payload.length = 1 ∧ beNat payload < 0x80)) :
    splitItem (header 0x80 0xb7 payload.length ++ payload ++ rest)
      = some ((false, payload), rest) := by
  unfold header
  -- the length stands in the header byte up to 55, and behind it from 56 on
  by_cases hshort : payload.length ≤ 55
  · rw [if_pos hshort]
    have hb := toNat_ofNat_of_lt (n := 0x80 + payload.length) (by omega)
    have hsub : 0x80 + payload.length - 0x80 = payload.length := by omega
    simp only [List.cons_append, List.nil_append, splitItem, hb, hsub, takeBytes_append]
    rw [if_neg (by omega), if_pos (by omega)]
    simp only [Option.bind_eq_bind, Option.bind_some, if_neg hcanon]
  · rw [if_neg hshort]
    have hle := length_lengthBytes_le payload.length
    have hpos := length_lengthBytes_pos h (by omega)
    have hb := toNat_ofNat_of_lt (n := 0xb7 + (lengthBytes payload.length).length) (by omega)
    have hsub : 0xb7 + (lengthBytes payload.length).length - 0xb7
        = (lengthBytes payload.length).length := by omega
    simp only [List.cons_append, List.append_assoc, splitItem, hb, hsub]
    rw [if_neg (by omega), if_neg (by omega), if_pos (by omega),
      takeLength_lengthBytes h (by omega)]
    simp [takeBytes_append]

/-- The payload of a list is read back from its header. -/
theorem splitItem_listHeader (payload rest : List UInt8) (h : payload.length < 2 ^ 64) :
    splitItem (listHeader payload.length ++ payload ++ rest)
      = some ((true, payload), rest) := by
  unfold listHeader header
  by_cases hshort : payload.length ≤ 55
  · rw [if_pos hshort]
    have hb := toNat_ofNat_of_lt (n := 0xc0 + payload.length) (by omega)
    have hsub : 0xc0 + payload.length - 0xc0 = payload.length := by omega
    simp only [List.cons_append, List.nil_append, splitItem, hb, hsub, takeBytes_append]
    rw [if_neg (by omega), if_neg (by omega), if_neg (by omega), if_pos (by omega)]
    rfl
  · rw [if_neg hshort]
    have hle := length_lengthBytes_le payload.length
    have hpos := length_lengthBytes_pos h (by omega)
    have hb := toNat_ofNat_of_lt (n := 0xf7 + (lengthBytes payload.length).length) (by omega)
    have hsub : 0xf7 + (lengthBytes payload.length).length - 0xf7
        = (lengthBytes payload.length).length := by omega
    simp only [List.cons_append, List.append_assoc, splitItem, hb, hsub]
    rw [if_neg (by omega), if_neg (by omega), if_neg (by omega), if_neg (by omega),
      takeLength_lengthBytes h (by omega)]
    simp [takeBytes_append]

/-- Reading back the encoding of a byte string. -/
theorem splitItem_encodeValue (bytes rest : List UInt8) (h : bytes.length < 2 ^ 64) :
    splitItem (encodeValue bytes ++ rest) = some ((false, bytes), rest) := by
  match bytes with
  | [] => exact splitItem_header_str [] rest h (by simp)
  | [b] =>
      show splitItem ((if b < 0x80 then [b] else header 0x80 0xb7 1 ++ [b]) ++ rest) = _
      by_cases hb : b < 0x80
      · have hnat : b.toNat < 0x80 := by simpa [UInt8.lt_iff_toNat_lt] using hb
        simp [if_pos hb, splitItem, hnat]
      · have hnat : ¬ b.toNat < 0x80 := by simpa [UInt8.lt_iff_toNat_lt] using hb
        rw [if_neg hb]
        exact splitItem_header_str [b] rest h (by simpa [beNat] using hnat)
  | a :: b :: bytes =>
      exact splitItem_header_str (a :: b :: bytes) rest h (by simp)

theorem length_le_length_encodeValue (bytes : List UInt8) :
    bytes.length ≤ (encodeValue bytes).length := by
  unfold encodeValue
  split
  · split <;> simp
  · simp

/-- **Reading back one item.** -/
theorem splitItem_encode (item : Item) (rest : List UInt8)
    (h : item.encode.length < 2 ^ 64) :
    splitItem (item.encode ++ rest) = some (item.payload, rest) := by
  cases item with
  | str bytes =>
      rw [Item.encode] at h ⊢
      exact splitItem_encodeValue bytes rest
        (lt_of_le_of_lt (length_le_length_encodeValue bytes) h)
  | list items =>
      rw [Item.encode, List.length_append] at h
      unfold Item.encode
      exact splitItem_listHeader (encodeAll items) rest (by omega)

/-! ## The round trip -/

theorem encode_ne_nil (item : Item) : item.encode ≠ [] := by
  cases item with
  | str bytes =>
      unfold Item.encode
      unfold encodeValue header
      split <;> split <;> simp
  | list items =>
      unfold Item.encode
      unfold listHeader header
      split <;> simp

/-- The payload of a list is shorter than its encoding. -/
theorem length_encodeAll_lt_encode (items : List Item) :
    (encodeAll items).length < (Item.list items).encode.length := by
  have h : 0 < (listHeader (encodeAll items).length).length := by
    unfold listHeader header
    split <;> simp
  rw [Item.encode, List.length_append]
  omega

/-- **Round trip.**  Enough fuel reads back a sequence of items whose encoding is
shorter than `2 ^ 64` bytes. -/
theorem decodeItems_encodeAll (fuel : ℕ) (items : List Item)
    (hfuel : (encodeAll items).length ≤ fuel) (hlen : (encodeAll items).length < 2 ^ 64) :
    decodeItems fuel (encodeAll items) = some items := by
  induction fuel generalizing items with
  | zero =>
      cases items with
      | nil => rfl
      | cons item items =>
          have := List.length_pos_iff.mpr (encode_ne_nil item)
          simp only [encodeAll, List.length_append] at hfuel
          omega
  | succ fuel ih =>
      cases items with
      | nil => rfl
      | cons item items =>
          simp only [encodeAll, List.length_append] at hfuel hlen ⊢
          have hpos := List.length_pos_iff.mpr (encode_ne_nil item)
          -- the first item is split off, and its payload and the rest are shorter
          have hsplit := splitItem_encode item (encodeAll items) (by omega)
          have hrest := ih items (by omega) (by omega)
          obtain ⟨b, bs, hbs⟩ : ∃ b bs, item.encode ++ encodeAll items = b :: bs :=
            List.exists_cons_of_ne_nil (by simp [encode_ne_nil])
          rw [hbs] at hsplit ⊢
          cases item with
          | str bytes => simp [decodeItems, hsplit, Item.payload, hrest]
          | list inner =>
              have hlt := length_encodeAll_lt_encode inner
              have hinner := ih inner (by omega) (by omega)
              simp [decodeItems, hsplit, Item.payload, hinner, hrest]

/-- **Round trip for one item** whose payload is shorter than `2 ^ 64` bytes. -/
theorem decode_encode_list (items : List Item) (hlen : (encodeAll items).length < 2 ^ 64) :
    decode (Item.list items).encode = some (Item.list items) := by
  have hsplit := splitItem_listHeader (encodeAll items) [] hlen
  rw [List.append_nil, ← Item.encode] at hsplit
  have hlt := length_encodeAll_lt_encode items
  have hinner := decodeItems_encodeAll ((Item.list items).encode.length - 1) items
    (by omega) hlen
  obtain ⟨b, bs, hbs⟩ := List.exists_cons_of_ne_nil (encode_ne_nil (Item.list items))
  unfold decode
  rw [hbs] at hsplit hinner ⊢
  simp only [List.length_cons, Nat.add_sub_cancel] at hinner ⊢
  simp [decodeItems, hsplit, hinner]

/-- **Injectivity.**  An encoded list determines its items, when the payloads are
shorter than `2 ^ 64` bytes. -/
theorem encode_list_injective {xs ys : List Item} (hx : (encodeAll xs).length < 2 ^ 64)
    (hy : (encodeAll ys).length < 2 ^ 64)
    (h : (Item.list xs).encode = (Item.list ys).encode) : xs = ys := by
  have hxs := decode_encode_list xs hx
  rw [h, decode_encode_list ys hy] at hxs
  simpa using hxs.symm

end Rlp
