/-
# The streaming RLP builder

The builder of the `rlp` crate: a byte buffer and a stack of lists that are still
open.  Each open list remembers where its payload starts, how many items it has and
how many were announced.  When the last announced item arrives the header is written
back in front of the payload, and the closed list counts as one item of the list
around it.

`Emits op item` says that a sequence of builder calls amounts to appending the
encoding of one item; `emits_list` closes it under `begin_list`.  An operation returns
`none` where the crate panics.
-/
import Lobby.Rlp

namespace Rlp

/-- A list whose items are still being appended. -/
structure ListInfo where
  position : ℕ
  current : ℕ
  max : ℕ
  deriving DecidableEq

/-- The builder: the open lists, innermost first, and the bytes written so far. -/
structure RlpStream where
  unfinishedLists : List ListInfo
  buffer : List UInt8
  deriving DecidableEq

namespace RlpStream

/-- An empty builder. -/
def new : RlpStream := ⟨[], []⟩

/-- Write a list header over the byte that was reserved in front of the payload. -/
def insertListPayload (buffer : List UInt8) (position : ℕ) : List UInt8 :=
  buffer.take (position - 1) ++ listHeader (buffer.length - position)
    ++ buffer.drop position

/-- Count new items in the innermost open list, and close the lists that are full. -/
def noteAppended : List ListInfo → List UInt8 → ℕ → Option RlpStream
  | [], buffer, _ => some ⟨[], buffer⟩
  | info :: lists, buffer, inserted =>
    if info.max < info.current + inserted then none
    else if info.current + inserted = info.max then
      noteAppended lists (insertListPayload buffer info.position) 1
    else some ⟨{ info with current := info.current + inserted } :: lists, buffer⟩

/-- Append bytes that are already encoded and count for `count` items. -/
def appendRaw (s : RlpStream) (bytes : List UInt8) (count : ℕ) : Option RlpStream :=
  noteAppended s.unfinishedLists (s.buffer ++ bytes) count

/-- Append the empty byte string. -/
def appendEmptyData (s : RlpStream) : Option RlpStream := s.appendRaw [0x80] 1

/-- Append a byte string. -/
def append (s : RlpStream) (value : List UInt8) : Option RlpStream :=
  s.appendRaw (encodeValue value) 1

/-- Open a list of `len` items; an empty list is complete at once. -/
def beginList (s : RlpStream) (len : ℕ) : Option RlpStream :=
  if len = 0 then s.appendRaw [0xc0] 1
  else some ⟨⟨s.buffer.length + 1, 0, len⟩ :: s.unfinishedLists, s.buffer ++ [0]⟩

/-- A builder that starts with a list of `len` items. -/
def newList (len : ℕ) : Option RlpStream := new.beginList len

/-- The finished bytes. -/
def out (s : RlpStream) : Option (List UInt8) :=
  if s.unfinishedLists = [] then some s.buffer else none

end RlpStream

open RlpStream

/-! ## One item at a time -/

/-- The builder calls `op` append exactly the encoding of `item`. -/
def Emits (op : RlpStream → Option RlpStream) (item : Item) : Prop :=
  ∀ s, op s = s.appendRaw item.encode 1

theorem emits_append (value : List UInt8) : Emits (·.append value) (.str value) :=
  fun _ => by rw [Item.encode]; rfl

theorem emits_appendEmptyData : Emits (·.appendEmptyData) (.str []) :=
  fun _ => rfl

/-- Writing the header of an open list back over its reserved byte. -/
theorem insertListPayload_reserved (pre payload : List UInt8) :
    insertListPayload (pre ++ [0] ++ payload) (pre.length + 1)
      = pre ++ (listHeader payload.length ++ payload) := by
  have hlen : (pre ++ [0] ++ payload).length - (pre.length + 1) = payload.length := by
    simp only [List.length_append, List.length_singleton]
    omega
  have hdrop : (pre ++ [0] ++ payload).drop (pre.length + 1) = payload := by
    rw [List.drop_append_of_le_length (by simp)]
    simp
  rw [insertListPayload, hlen, hdrop, Nat.add_sub_cancel, List.append_assoc pre,
    List.take_left, List.append_assoc]

/-- Appending the remaining items of an open list closes it.  `done` is the payload
written so far; the induction is on the items still to come. -/
theorem foldlM_open {α : Type*} (op : α → RlpStream → Option RlpStream) (item : α → Item)
    (pre : List UInt8) (lists : List ListInfo) (max : ℕ) (xs : List α)
    (hop : ∀ x ∈ xs, Emits (op x) (item x)) :
    ∀ done : List UInt8, ∀ current, current + xs.length = max → xs ≠ [] →
      xs.foldlM (fun s x => op x s)
          ⟨⟨pre.length + 1, current, max⟩ :: lists, pre ++ [0] ++ done⟩
        = noteAppended lists
          (pre ++ (listHeader (done ++ encodeAll (xs.map item)).length
            ++ (done ++ encodeAll (xs.map item)))) 1 := by
  induction xs with
  | nil => intro done current _ hne; exact absurd rfl hne
  | cons x xs ih =>
      intro done current hmax _
      have hx := hop x List.mem_cons_self
        ⟨⟨pre.length + 1, current, max⟩ :: lists, pre ++ [0] ++ done⟩
      have hbytes : done ++ encodeAll ((x :: xs).map item)
          = (done ++ (item x).encode) ++ encodeAll (xs.map item) := by
        rw [List.map_cons, encodeAll, List.append_assoc]
      have hbuf : pre ++ [0] ++ done ++ (item x).encode
          = pre ++ [0] ++ (done ++ (item x).encode) := List.append_assoc _ _ _
      rw [List.foldlM_cons, hx, hbytes, appendRaw, noteAppended, hbuf]
      dsimp only
      rw [List.length_cons] at hmax
      by_cases hlast : xs = []
      · -- the last item fills the list, and its header is inserted
        subst hlast
        simp only [List.length_nil] at hmax
        rw [if_neg (by omega), if_pos (by omega), insertListPayload_reserved]
        simp only [List.foldlM_nil, List.map_nil, encodeAll, List.append_nil]
        exact bind_pure _
      · -- the list stays open for the items that are left
        have hpos := List.length_pos_iff.mpr hlast
        rw [if_neg (by omega), if_neg (by omega)]
        exact ih (fun y hy => hop y (List.mem_cons_of_mem x hy)) _ (current + 1)
          (by omega) hlast

/-- **Lists.**  Announcing a list and appending that many items amounts to appending
the encoding of the list. -/
theorem emits_list {α : Type*} (op : α → RlpStream → Option RlpStream) (item : α → Item)
    (xs : List α) (hop : ∀ x ∈ xs, Emits (op x) (item x)) :
    Emits (fun s => (s.beginList xs.length).bind fun s => xs.foldlM (fun s x => op x s) s)
      (.list (xs.map item)) := by
  intro s
  by_cases hxs : xs = []
  · -- an empty list is written at once
    subst hxs
    have hnil : (Item.list []).encode = [0xc0] := by decide
    simp [beginList, hnil]
  · have hpos := List.length_pos_iff.mpr hxs
    have hrun := foldlM_open op item s.buffer s.unfinishedLists xs.length xs hop [] 0
      (by omega) hxs
    rw [List.append_nil] at hrun
    have hbegin : s.beginList xs.length
        = some ⟨⟨s.buffer.length + 1, 0, xs.length⟩ :: s.unfinishedLists, s.buffer ++ [0]⟩ :=
      if_neg (by omega)
    show (s.beginList xs.length).bind (fun s => xs.foldlM (fun s x => op x s) s) = _
    rw [hbegin, Option.bind_some, hrun, appendRaw, Item.encode]
    rfl

/-- A list built on its own is finished, and its bytes are its encoding. -/
theorem out_of_emits {op : RlpStream → Option RlpStream} {item : Item} (h : Emits op item) :
    (op RlpStream.new).bind out = some item.encode := by
  rw [h, appendRaw, RlpStream.new]
  rfl

end Rlp
