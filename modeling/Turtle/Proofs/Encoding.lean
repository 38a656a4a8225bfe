import Turtle.Text.Utf8

/-! A text is read back from its octets. The octets of one character are one that announces how many
follow it and then those, within the bounds that its range allows; so decoding takes the octets of
a character together, gives that character and goes on behind them. -/

namespace Turtle.Text.Utf8

theorem toList_loop (octets : ByteArray) (i : Nat) (before : List UInt8) :
    ByteArray.toList.loop octets i before = before.reverse ++ octets.data.toList.drop i := by
  fun_induction ByteArray.toList.loop octets i before with
  | case1 i before h ih =>
    have hi : i < octets.data.toList.length := h
    rw [ih, List.drop_eq_getElem_cons hi]
    simp [ByteArray.get!, getElem!_pos octets.data i h]
  | case2 i before h =>
    rw [List.drop_eq_nil_of_le (Nat.le_of_not_lt h), List.append_nil]

/-- The octets of a text are those of its characters. -/
theorem encode_eq (text : String) : encode text = text.toList.flatMap String.utf8EncodeChar := by
  rw [encode, String.toUTF8_eq_toByteArray, ← String.utf8Encode_toList, ByteArray.toList, toList_loop,
    List.utf8Encode, List.toList_data_toByteArray]
  rfl

/-! One character. -/

variable {octet : UInt8} {lead : Lead} {low high bits code : Nat} {seen rest : List UInt8}

theorem continuation_zero : continuation seen low high 0 bits rest = .ok bits := by
  cases rest with
  | nil => rfl
  | cons octet rest => rfl

/-- An octet within the bounds adds its six bits. -/
theorem continuation_succ (more : Nat) {n : Nat} (h : low ≤ n % 64 + 128 ∧ n % 64 + 128 ≤ high) :
    continuation seen low high (more + 1) bits (UInt8.ofNat (n % 64 + 128) :: rest) =
      continuation (UInt8.ofNat (n % 64 + 128) :: seen) 0x80 0xBF more (bits * 64 + n % 64) rest := by
  rw [continuation, UInt8.toNat_ofNat_of_lt' (by unfold UInt8.size; omega), Nat.add_sub_cancel]
  exact if_pos h

theorem inBounds (n : Nat) : 0x80 ≤ n % 64 + 128 ∧ n % 64 + 128 ≤ 0xBF := by omega

theorem decodeFrom_skip (start : Nat) (tail rest : List UInt8) :
    decodeFrom start tail.length (tail ++ rest) = decodeFrom (start + tail.length) 0 rest := by
  induction tail generalizing start with
  | nil => rfl
  | cons octet tail ih =>
    rw [List.length_cons, List.cons_append, decodeFrom, ih, Nat.add_assoc, Nat.add_comm 1]

/-- Behind an octet that announces them, the octets that complete a character give it. -/
theorem decodeFrom_lead (start : Nat) (tail : List UInt8) (hlead : Lead.of? octet = some lead)
    (htail : lead.tail = tail.length)
    (hcode : continuation [octet] lead.low lead.high lead.tail lead.bits (tail ++ rest) = .ok code) :
    decodeFrom start 0 (octet :: (tail ++ rest)) =
      (decodeFrom (start + 1 + tail.length) 0 rest).map (Char.ofNat code :: ·) := by
  rw [decodeFrom, hlead]
  dsimp only
  rw [hcode, htail, ← decodeFrom_skip]
  dsimp only
  cases decodeFrom (start + 1) tail.length (tail ++ rest) with
  | error fault => rfl
  | ok text => rfl

/-! The four lengths of a character. The range of each excludes what a shorter one could hold. -/

theorem decodeFrom_one (start : Nat) {v : Nat} (h : v ≤ 0x7F) :
    decodeFrom start 0 (UInt8.ofNat v :: rest) =
      (decodeFrom (start + 1) 0 rest).map (Char.ofNat v :: ·) := by
  have hlead : Lead.of? (UInt8.ofNat v) = some ⟨0x80, 0xBF, 0, v⟩ := by
    rw [Lead.of?, UInt8.toNat_ofNat_of_lt' (by unfold UInt8.size; omega)]
    exact if_pos (by omega)
  exact decodeFrom_lead start [] hlead rfl continuation_zero

theorem decodeFrom_two (start : Nat) {v : Nat} (hlow : 0x7F < v) (hhigh : v ≤ 0x7FF) :
    decodeFrom start 0 (UInt8.ofNat (v / 64 % 32 + 192) :: UInt8.ofNat (v % 64 + 128) :: rest) =
      (decodeFrom (start + 2) 0 rest).map (Char.ofNat v :: ·) := by
  have hlead : Lead.of? (UInt8.ofNat (v / 64 % 32 + 192)) = some ⟨0x80, 0xBF, 1, v / 64 % 32⟩ := by
    rw [Lead.of?, UInt8.toNat_ofNat_of_lt' (by unfold UInt8.size; omega)]
    rw [if_neg (by omega), if_neg (by omega), if_pos (by omega), Nat.add_sub_cancel]
  have hcode : v / 64 % 32 * 64 + v % 64 = v := by omega
  refine decodeFrom_lead start [_] hlead rfl ?_
  rw [List.cons_append, continuation_succ 0 (inBounds v), continuation_zero, hcode]

theorem decodeFrom_three (start : Nat) {v : Nat} (hlow : 0x7FF < v) (hhigh : v ≤ 0xFFFF)
    (hvalid : v < 0xD800 ∨ 0xDFFF < v) :
    decodeFrom start 0 (UInt8.ofNat (v / 4096 % 16 + 224) :: UInt8.ofNat (v / 64 % 64 + 128) ::
        UInt8.ofNat (v % 64 + 128) :: rest) =
      (decodeFrom (start + 3) 0 rest).map (Char.ofNat v :: ·) := by
  have hlead : ∃ low high, Lead.of? (UInt8.ofNat (v / 4096 % 16 + 224)) =
      some ⟨low, high, 2, v / 4096 % 16⟩ ∧
        low ≤ v / 64 % 64 + 128 ∧ v / 64 % 64 + 128 ≤ high := by
    rw [Lead.of?, UInt8.toNat_ofNat_of_lt' (by unfold UInt8.size; omega)]
    rw [if_neg (by omega), if_neg (by omega), if_neg (by omega), if_pos (by omega),
      Nat.add_sub_cancel]
    refine ⟨_, _, rfl, ?_, ?_⟩ <;> split <;> omega
  obtain ⟨low, high, hlead, hbounds⟩ := hlead
  have hcode : (v / 4096 % 16 * 64 + v / 64 % 64) * 64 + v % 64 = v := by omega
  refine decodeFrom_lead start [_, _] hlead rfl ?_
  rw [List.cons_append, continuation_succ 1 hbounds, List.cons_append,
    continuation_succ 0 (inBounds v), continuation_zero, hcode]

theorem decodeFrom_four (start : Nat) {v : Nat} (hlow : 0xFFFF < v) (hhigh : v < 0x110000) :
    decodeFrom start 0 (UInt8.ofNat (v / 262144 % 8 + 240) :: UInt8.ofNat (v / 4096 % 64 + 128) ::
        UInt8.ofNat (v / 64 % 64 + 128) :: UInt8.ofNat (v % 64 + 128) :: rest) =
      (decodeFrom (start + 4) 0 rest).map (Char.ofNat v :: ·) := by
  have hlead : ∃ low high, Lead.of? (UInt8.ofNat (v / 262144 % 8 + 240)) =
      some ⟨low, high, 3, v / 262144 % 8⟩ ∧
        low ≤ v / 4096 % 64 + 128 ∧ v / 4096 % 64 + 128 ≤ high := by
    rw [Lead.of?, UInt8.toNat_ofNat_of_lt' (by unfold UInt8.size; omega)]
    rw [if_neg (by omega), if_neg (by omega), if_neg (by omega), if_neg (by omega),
      if_pos (by omega), Nat.add_sub_cancel]
    refine ⟨_, _, rfl, ?_, ?_⟩ <;> split <;> omega
  obtain ⟨low, high, hlead, hbounds⟩ := hlead
  have hcode : ((v / 262144 % 8 * 64 + v / 4096 % 64) * 64 + v / 64 % 64) * 64 + v % 64 = v := by
    omega
  refine decodeFrom_lead start [_, _, _] hlead rfl ?_
  rw [List.cons_append, continuation_succ 2 hbounds, List.cons_append,
    continuation_succ 1 (inBounds _), List.cons_append, continuation_succ 0 (inBounds v),
    continuation_zero, hcode]

theorem decodeFrom_encodeChar (start : Nat) (c : Char) (rest : List UInt8) :
    decodeFrom start 0 (String.utf8EncodeChar c ++ rest) =
      (decodeFrom (start + (String.utf8EncodeChar c).length) 0 rest).map (c :: ·) := by
  have hc : Char.ofNat c.val.toNat = c := Char.ofNat_toNat c
  have hvalid : c.val.toNat < 0xD800 ∨ 0xDFFF < c.val.toNat ∧ c.val.toNat < 0x110000 := c.valid
  unfold String.utf8EncodeChar
  dsimp only
  generalize c.val.toNat = v at hc hvalid
  rw [← hc]
  split
  · exact decodeFrom_one start (by assumption)
  split
  · exact decodeFrom_two start (by omega) (by assumption)
  split
  · exact decodeFrom_three start (by omega) (by assumption) (by omega)
  · exact decodeFrom_four start (by omega) (by omega)

/-- **A text is read back from its octets.** -/
theorem decode_encode (text : String) : decode (encode text) = .ok text.toList := by
  have h : ∀ (start : Nat) (chars : List Char),
      decodeFrom start 0 (chars.flatMap String.utf8EncodeChar) = .ok chars := by
    intro start chars
    induction chars generalizing start with
    | nil => rfl
    | cons c chars ih =>
      rw [List.flatMap_cons, decodeFrom_encodeChar, ih]
      rfl
  rw [decode, encode_eq, h]

end Turtle.Text.Utf8
