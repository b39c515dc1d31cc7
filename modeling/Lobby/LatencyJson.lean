/-
# Latency records as lines

A record of the telemetry exporter as `serde_json` writes it, one object of a text and five
numbers, and as the benchmark reads it back from the bytes of a line.

A record is read back from its text (`fromJson_toJson`), and its line, which holds no line feed
(`notMem_line`), is read as nothing when it is cut off (`fromJson_cut`).
-/
import Lobby.FlatObject
import Lobby.Telemetry

namespace Lobby

open Text

/-! ## Values -/

inductive JsonValue : Type where
  | text (cs : List Char)
  | number (n : ℕ)
  deriving DecidableEq

def JsonValue.write : JsonValue → List Char
  | .text cs => quote cs
  | .number n => Nat.toDigits 10 n

/-- Read a number, which has no zero in front. -/
def readNumber (cs : List Char) : Option (ℕ × List Char) :=
  let digits := cs.takeWhile Char.isDigit
  if digits = [] ∨ digits.head? = some '0' ∧ digits ≠ ['0'] then none
  else (numeral 10 digits).map fun n => (n, cs.dropWhile Char.isDigit)

/-- Read a value, and what follows it. -/
def JsonValue.read : List Char → Option (JsonValue × List Char)
  | '"' :: cs => (readChars cs).map fun r => (.text r.1, r.2)
  | cs => (readNumber cs).map fun r => (.number r.1, r.2)

/-- The shortest numeral of a number has no zero in front. -/
theorem head?_toDigits {n : ℕ} (hn : n ≠ 0) : (Nat.toDigits 10 n).head? ≠ some '0' := by
  induction n using Nat.strongRecOn with
  | _ n ih =>
      by_cases hsmall : n < 10
      · rw [Nat.toDigits_of_lt_base hsmall]
        interval_cases n <;> simp_all [Nat.digitChar]
      · have hhead := ih (n / 10) (by omega) (by omega)
        rw [Nat.toDigits_of_base_le (by norm_num) (by omega), List.head?_append]
        cases hdigits : (Nat.toDigits 10 (n / 10)).head? with
        | none => exact absurd (List.head?_eq_none_iff.mp hdigits) Nat.toDigits_ne_nil
        | some c =>
            rw [hdigits] at hhead
            exact hhead

/-- A number in front of anything but a digit is read back. -/
theorem readNumber_toDigits (n : ℕ) {c : Char} (hc : c.isDigit = false) (rest : List Char) :
    readNumber (Nat.toDigits 10 n ++ c :: rest) = some (n, c :: rest) := by
  have hdigits : ∀ d ∈ Nat.toDigits 10 n, d.isDigit := fun d hd =>
    Nat.isDigit_of_mem_toDigits (by norm_num) (by norm_num) hd
  have htake : (Nat.toDigits 10 n ++ c :: rest).takeWhile Char.isDigit = Nat.toDigits 10 n := by
    rw [List.takeWhile_append_of_pos hdigits, List.takeWhile_cons_of_neg (by simp [hc]),
      List.append_nil]
  have hdrop : (Nat.toDigits 10 n ++ c :: rest).dropWhile Char.isDigit = c :: rest := by
    rw [List.dropWhile_append_of_pos hdigits, List.dropWhile_cons_of_neg (by simp [hc])]
  have hzero : ¬ (Nat.toDigits 10 n = [] ∨ (Nat.toDigits 10 n).head? = some '0'
      ∧ Nat.toDigits 10 n ≠ ['0']) := by
    rintro (hnil | ⟨hhead, hne⟩)
    · exact Nat.toDigits_ne_nil hnil
    · by_cases hn : n = 0
      · subst hn
        exact hne (by simp)
      · exact head?_toDigits hn hhead
  rw [readNumber, htake, hdrop, if_neg hzero, numeral_toDigits (by norm_num) (by norm_num)]
  rfl

/-- A value in front of anything but a digit is read back. -/
theorem JsonValue.read_write (value : JsonValue) {c : Char} (hc : c.isDigit = false)
    (rest : List Char) : JsonValue.read (value.write ++ c :: rest) = some (value, c :: rest) := by
  cases value with
  | text cs =>
      have hquoted := readQuoted_quote cs (c :: rest)
      rw [JsonValue.write, quote, List.cons_append] at *
      rw [JsonValue.read]
      rw [readQuoted] at hquoted
      rw [hquoted]
      rfl
  | number n =>
      rw [JsonValue.write]
      have hread := readNumber_toDigits n hc rest
      -- a number begins with a digit, so it is not taken for a text
      cases hdigits : Nat.toDigits 10 n with
      | nil => exact absurd hdigits Nat.toDigits_ne_nil
      | cons d ds =>
          have hd : d.isDigit := Nat.isDigit_of_mem_toDigits (by norm_num : 0 < 10) (by norm_num)
            (hdigits ▸ List.mem_cons_self : d ∈ Nat.toDigits 10 n)
          rw [hdigits, List.cons_append] at hread
          rw [List.cons_append, JsonValue.read, hread]
          · rfl
          · intro cs hcs
            rw [(List.cons.inj hcs).1] at hd
            exact absurd hd (by decide)

theorem JsonValue.read_suffix {cs rest : List Char} {value : JsonValue}
    (h : JsonValue.read cs = some (value, rest)) : rest <:+ cs := by
  unfold JsonValue.read at h
  split at h
  · obtain ⟨⟨chars, rest'⟩, hread, h⟩ := Option.map_eq_some_iff.mp h
    cases h
    exact (readChars_suffix hread).trans (List.suffix_cons _ _)
  · obtain ⟨⟨n, rest'⟩, hread, h⟩ := Option.map_eq_some_iff.mp h
    cases h
    unfold readNumber at hread
    dsimp only at hread
    split at hread
    · cases hread
    · obtain ⟨n', -, h⟩ := Option.map_eq_some_iff.mp hread
      cases h
      exact List.dropWhile_suffix _

/-- Texts and numbers. -/
def jsonValue : JsonCodec JsonValue where
  write := JsonValue.write
  read := JsonValue.read
  read_write := JsonValue.read_write
  read_suffix := JsonValue.read_suffix

/-! ## Latency records -/

namespace LatencyRecord

/-- The derived form. -/
def fields (r : LatencyRecord) : List (String × JsonValue) :=
  [("execution_id", .text r.executionId.toList),
    ("relayhost_duration_us", .number r.relayhostDurationUs.toNat),
    ("nonce_duration_us", .number r.nonceDurationUs.toNat),
    ("sign_duration_us", .number r.signDurationUs.toNat),
    ("broadcast_duration_us", .number r.broadcastDurationUs.toNat),
    ("total_pipeline_us", .number r.totalPipelineUs.toNat)]

/-- A field that is a text. -/
def textField (fields : List (String × JsonValue)) (key : String) : Option String :=
  match fields.lookup key with
  | some (.text cs) => some (String.ofList cs)
  | _ => none

/-- A field that is a `u64`. -/
def numberField (fields : List (String × JsonValue)) (key : String) : Option UInt64 :=
  match fields.lookup key with
  | some (.number n) => if n < UInt64.size then some (.ofNat n) else none
  | _ => none

/-- Read the derived form: no field comes twice, and all are there. -/
def ofFields (fields : List (String × JsonValue)) : Option LatencyRecord := do
  if ¬ (fields.map Prod.fst).Nodup then none
  let executionId ← textField fields "execution_id"
  let relayhostDurationUs ← numberField fields "relayhost_duration_us"
  let nonceDurationUs ← numberField fields "nonce_duration_us"
  let signDurationUs ← numberField fields "sign_duration_us"
  let broadcastDurationUs ← numberField fields "broadcast_duration_us"
  let totalPipelineUs ← numberField fields "total_pipeline_us"
  some ⟨executionId, relayhostDurationUs, nonceDurationUs, signDurationUs, broadcastDurationUs,
    totalPipelineUs⟩

/-- `serde_json::to_string`. -/
def toJson (r : LatencyRecord) : String :=
  String.ofList (objectText jsonValue (r.fields.map fun f => (f.1.toList, f.2)))

/-- `serde_json::from_str`, for objects without blanks whose values are texts and numbers. -/
def fromJson (json : String) : Option LatencyRecord :=
  (readObject jsonValue json.toList).bind fun fields =>
    ofFields (fields.map fun f => (String.ofList f.1, f.2))

theorem ofFields_fields (r : LatencyRecord) : ofFields r.fields = some r := by
  have hsize : ∀ n : UInt64, n.toNat < UInt64.size := fun n => n.toNat_lt_size
  simp [fields, ofFields, textField, numberField, List.lookup_cons, hsize]

/-- **A record is read back from its text.** -/
theorem fromJson_toJson (r : LatencyRecord) : fromJson r.toJson = some r := by
  obtain ⟨f, fs, hfs⟩ : ∃ f fs, (r.fields.map fun f => (f.1.toList, f.2)) = f :: fs :=
    ⟨_, _, rfl⟩
  have hback : (f :: fs).map (fun f : Member JsonValue => (String.ofList f.1, f.2))
      = r.fields := by
    rw [← hfs]
    simp [fields]
  rw [toJson, fromJson, String.toList_ofList, hfs, readObject_objectText, Option.bind_some,
    hback, ofFields_fields]

/-! ## Lines -/

/-- The line of a record, without its line feed. -/
def line (r : LatencyRecord) : List UInt8 := bytesOf r.toJson

/-- The text in front of the closing brace. -/
def openText (r : LatencyRecord) : List Char :=
  '{' :: (quote "execution_id".toList ++ ':' :: (quote r.executionId.toList
    ++ ',' :: (quote "relayhost_duration_us".toList
    ++ ':' :: (Nat.toDigits 10 r.relayhostDurationUs.toNat
    ++ ',' :: (quote "nonce_duration_us".toList
    ++ ':' :: (Nat.toDigits 10 r.nonceDurationUs.toNat
    ++ ',' :: (quote "sign_duration_us".toList
    ++ ':' :: (Nat.toDigits 10 r.signDurationUs.toNat
    ++ ',' :: (quote "broadcast_duration_us".toList
    ++ ':' :: (Nat.toDigits 10 r.broadcastDurationUs.toNat
    ++ ',' :: (quote "total_pipeline_us".toList
    ++ ':' :: Nat.toDigits 10 r.totalPipelineUs.toNat)))))))))))

theorem toJson_eq (r : LatencyRecord) : r.toJson = String.ofList (r.openText ++ ['}']) := by
  rw [toJson, fields, openText]
  simp [objectText, membersText, jsonValue, JsonValue.write]

/-- What holds of the characters of a record: the quoted text, the punctuation with the letters
of the names, and the digits. -/
theorem forall_mem_openText {r : LatencyRecord} {P : Char → Prop}
    (hid : ∀ c ∈ quote r.executionId.toList, P c)
    (hnames : ∀ c ∈ "\x7b\":,_abcdefghijklmnopqrstuvwxyz".toList, P c)
    (hdigits : ∀ c : Char, c.isDigit → P c) : ∀ c ∈ r.openText, P c := by
  have hname : ∀ name : List Char, (quote name).all (fun c =>
      decide (c ∈ "\x7b\":,_abcdefghijklmnopqrstuvwxyz".toList)) = true → ∀ c ∈ quote name, P c :=
    fun name hall c hc => hnames c (List.all_iff_forall_prop.mp hall c hc)
  have hnumber : ∀ n, ∀ c ∈ Nat.toDigits 10 n, P c := fun n c hc =>
    hdigits c (Nat.isDigit_of_mem_toDigits (by norm_num) (by norm_num) hc)
  simp only [openText, List.forall_mem_cons, List.forall_mem_append]
  refine ⟨hnames _ (by decide), hname _ (by decide +kernel), hnames _ (by decide), hid,
    hnames _ (by decide), hname _ (by decide +kernel), hnames _ (by decide), hnumber _,
    hnames _ (by decide), hname _ (by decide +kernel), hnames _ (by decide), hnumber _,
    hnames _ (by decide), hname _ (by decide +kernel), hnames _ (by decide), hnumber _,
    hnames _ (by decide), hname _ (by decide +kernel), hnames _ (by decide), hnumber _,
    hnames _ (by decide), hname _ (by decide +kernel), hnames _ (by decide), hnumber _⟩

theorem forall_mem_quote {cs : List Char} {P : Char → Prop} (hquote : P '"')
    (h : ∀ c ∈ cs, ∀ d ∈ escapeChar c, P d) : ∀ d ∈ quote cs, P d := by
  intro d hd
  rw [quote, List.mem_cons, List.mem_append, List.mem_flatMap, List.mem_singleton] at hd
  rcases hd with rfl | ⟨c, hc, hd⟩ | rfl
  · exact hquote
  · exact h c hc d hd
  · exact hquote

/-- A character is written as it is, or as an escape without control characters and braces. -/
theorem escapeChar_eq_or (c : Char) : escapeChar c = [c] ∧ 0x20 ≤ c.toNat
    ∨ ∀ d ∈ escapeChar c, 0x20 ≤ d.toNat ∧ d ≠ '}' := by
  by_cases hcontrol : c.toNat < 0x20
  · right
    have hc : c = Char.ofNat c.toNat := (Char.ofNat_toNat c).symm
    generalize c.toNat = n at hcontrol hc
    subst hc
    interval_cases n <;> exact List.all_iff_forall_prop.mp (by decide +kernel)
  · by_cases hspecial : c = '"' ∨ c = '\\'
    · right
      rcases hspecial with rfl | rfl <;> exact List.all_iff_forall_prop.mp (by decide +kernel)
    · left
      have hne : ∀ n < 0x20, c.toNat ≠ n := fun n hn heq => hcontrol (heq ▸ hn)
      rw [not_or] at hspecial
      refine ⟨?_, Nat.not_lt.mp hcontrol⟩
      rw [escapeChar, if_neg hspecial.1, if_neg hspecial.2, if_neg (hne _ (by norm_num)),
        if_neg (hne _ (by norm_num)), if_neg (hne _ (by norm_num)),
        if_neg (hne _ (by norm_num)), if_neg (hne _ (by norm_num)), if_neg hcontrol]

/-- No character of a line is a control character. -/
theorem le_of_mem_toJson (r : LatencyRecord) : ∀ c ∈ r.toJson.toList, 0x20 ≤ c.toNat := by
  rw [toJson_eq, String.toList_ofList, List.forall_mem_append, List.forall_mem_singleton]
  refine ⟨forall_mem_openText (forall_mem_quote (by decide) fun c _ d hd => ?_)
    (List.all_iff_forall_prop.mp (by decide +kernel))
    fun c hc => ?_, by decide⟩
  · rcases escapeChar_eq_or c with ⟨heq, hle⟩ | hall
    · rw [heq, List.mem_singleton] at hd
      exact hd ▸ hle
    · exact (hall d hd).1
  · rw [Char.isDigit, Bool.and_eq_true, decide_eq_true_eq] at hc
    exact Nat.le_trans (by decide) (UInt32.le_iff_toNat_le.mp hc.1)

/-- A line has no line feed and no carriage return. -/
theorem notMem_line (r : LatencyRecord) : (10 : UInt8) ∉ r.line ∧ (13 : UInt8) ∉ r.line := by
  constructor
  all_goals
    intro hmem
    obtain ⟨c, hc, heq⟩ := mem_bytesOf (by decide) hmem
    have hle := r.le_of_mem_toJson c hc
    rw [← heq] at hle
    exact absurd hle (by decide)

/-- Without a brace in the text, the closing brace is the last character only. -/
theorem notMem_openText {r : LatencyRecord} (h : '}' ∉ r.executionId.toList) :
    '}' ∉ r.openText := by
  have hall : ∀ c ∈ r.openText, c ≠ '}' := by
    refine forall_mem_openText (forall_mem_quote (by decide) fun c hc d hd => ?_)
      (List.all_iff_forall_prop.mp (by decide +kernel)) ?_
    · rcases escapeChar_eq_or c with ⟨heq, -⟩ | hall
      · rw [heq, List.mem_singleton] at hd
        rintro rfl
        exact h (hd ▸ hc)
      · exact (hall d hd).2
    · rintro c hc rfl
      exact absurd hc (by decide)
  exact fun hmem => hall _ hmem rfl

/-- **A line that is cut off is read as nothing.** -/
theorem fromJson_cut {r : LatencyRecord} (h : '}' ∉ r.executionId.toList) {cut : List UInt8}
    (hcut : cut <+: r.line) (hne : cut ≠ r.line) {text : String} (htext : textOf cut = some text) :
    fromJson text = none := by
  have hline : r.line = bytesOf (String.ofList r.openText) ++ [0x7d] := by
    rw [line, toJson_eq, String.ofList_append, bytesOf_append]
    rfl
  have hopen : cut <+: bytesOf (String.ofList r.openText) := by
    rw [hline] at hcut hne
    exact (List.prefix_concat_iff.mp hcut).resolve_left hne
  by_contra hsome
  have hbrace : '}' ∈ text.toList := by
    obtain ⟨r', hr'⟩ := Option.ne_none_iff_exists'.mp hsome
    obtain ⟨fields, hread, -⟩ := Option.bind_eq_some_iff.mp hr'
    exact mem_of_readObject hread
  have hmem : (0x7d : UInt8) ∈ bytesOf (String.ofList r.openText) := by
    refine hopen.subset ?_
    rw [← bytesOf_textOf htext]
    exact mem_bytesOf_of_mem (by decide) hbrace
  obtain ⟨c, hc, heq⟩ := mem_bytesOf (by decide) hmem
  rw [String.toList_ofList] at hc
  have hc' : c = '}' := Char.toNat_inj.mp heq.symm
  exact notMem_openText h (hc' ▸ hc)

end LatencyRecord

end Lobby
