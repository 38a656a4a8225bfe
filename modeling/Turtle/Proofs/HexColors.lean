import Turtle.Proofs.Execution

/-! Colours in base sixteen. A digit is told by its value up to the case of its letter, so six digits are
told by their colour up to case, and the other lengths are short for six digits. -/

namespace Turtle.Color

/-- The digits of base sixteen, with letters of either case. -/
def hexAlphabet : List Char := "0123456789abcdefABCDEF".toList

/-- The texts that write a colour in base sixteen: the mark and one, three or six digits. -/
def IsHex (text : List Char) : Prop :=
  ∃ digits, text = '0' :: 'x' :: digits ∧ digits.length ∈ [1, 3, 6] ∧
    ∀ d ∈ digits, d ∈ hexAlphabet

/-- Each digit as many times as fills six places. -/
def filled (digits : List Char) : List Char :=
  digits.flatMap fun d => List.replicate (6 / digits.length) d

/-- The two digits of an amount in base sixteen, with small letters. -/
def hexPair (amount : Int) : List Char :=
  [Nat.digitChar (amount.toNat / 16), Nat.digitChar (amount.toNat % 16)]

/-- The three amounts of a colour in base sixteen, two digits for each. -/
def hexPairs (color : Color) : List Char :=
  hexPair color.red ++ (hexPair color.green ++ hexPair color.blue)

end Turtle.Color

namespace Turtle.Grammar
open Color

/-- What holds of the first 128 characters one by one and of all others holds of every character. -/
theorem forall_char {P : Char → Prop} (hfirst : ∀ n < 128, P (Char.ofNat n))
    (hother : ∀ c : Char, 128 ≤ c.toNat → P c) (c : Char) : P c := by
  by_cases h : c.toNat < 128
  · rw [← Char.ofNat_toNat c]
    exact hfirst _ h
  · exact hother c (by omega)

theorem hexValue?_of_le {c : Char} (h : 128 ≤ c.toNat) : hexValue? c = none := by
  have hdigit : c.isDigit = false := by
    cases hc : c.isDigit with
    | false => rfl
    | true =>
      have hhigh : c.toNat ≤ 57 := (Char.isDigit_iff_toNat.mp hc).2
      omega
  have hletter : ∀ a b : Char, b.toNat < 128 → ¬ (a ≤ c ∧ c ≤ b) := by
    rintro a b hb ⟨-, hle⟩
    have hle : c.toNat ≤ b.toNat := hle
    omega
  rw [hexValue?, hdigit, if_neg (by decide), if_neg (hletter _ _ (by decide)),
    if_neg (hletter _ _ (by decide))]

/-- A digit has a value exactly if it is in the alphabet. -/
theorem exists_hexDigit_iff (d : Char) : (∃ n, HexDigit d n) ↔ d ∈ hexAlphabet := by
  unfold HexDigit
  rw [← Option.isSome_iff_exists]
  revert d
  refine forall_char (by decide +kernel) fun c hc => ?_
  rw [hexValue?_of_le hc]
  refine ⟨nofun, fun hmem => ?_⟩
  have hall : hexAlphabet.all (·.toNat < 128) = true := by decide +kernel
  have hsmall := of_decide_eq_true (List.all_eq_true.mp hall c hmem)
  omega

theorem HexDigit.mem_hexAlphabet {d : Char} {n : Nat} (h : HexDigit d n) : d ∈ hexAlphabet :=
  (exists_hexDigit_iff d).mp ⟨n, h⟩

/-- Up to the case of its letter the digit of a value is one. -/
theorem hexDigit_iff {d : Char} {n : Nat} : HexDigit d n ↔ n < 16 ∧ d.toLower = Nat.digitChar n := by
  have hiff : ∀ d, ∀ n < 16, hexValue? d = some n ↔ d.toLower = Nat.digitChar n := by
    refine forall_char (by decide +kernel) fun c hc n hn => ?_
    have hlower : c.toLower = c := dif_neg fun h => by
      have hZ : c.toNat ≤ 90 := h.2
      omega
    have hsmall : ∀ n < 16, (Nat.digitChar n).toNat < 128 := by decide
    have hdigit := hsmall n hn
    rw [hexValue?_of_le hc, hlower]
    refine ⟨nofun, fun heq => ?_⟩
    rw [heq] at hc
    omega
  exact ⟨fun h => ⟨h.lt, (hiff d n h.lt).mp h⟩, fun h => (hiff d n h.1).mpr h.2⟩

/-- The texts of a colour are the mark with digits that have values. -/
theorem exists_hexColor_iff {text : List Char} : (∃ color, HexColor text color) ↔ IsHex text := by
  constructor
  · rintro ⟨color, h⟩
    cases h with
    | one hd => exact ⟨_, rfl, by simp, by simp [hd.mem_hexAlphabet]⟩
    | three hr hg hb =>
      refine ⟨_, rfl, by simp, ?_⟩
      simp [hr.mem_hexAlphabet, hg.mem_hexAlphabet, hb.mem_hexAlphabet]
    | six hr hr' hg hg' hb hb' =>
      refine ⟨_, rfl, by simp, ?_⟩
      simp [hr.mem_hexAlphabet, hr'.mem_hexAlphabet, hg.mem_hexAlphabet, hg'.mem_hexAlphabet,
        hb.mem_hexAlphabet, hb'.mem_hexAlphabet]
  · rintro ⟨digits, rfl, hlength, hdigits⟩
    have hvalue : ∀ d ∈ digits, ∃ n, HexDigit d n :=
      fun d hd => (exists_hexDigit_iff d).mpr (hdigits d hd)
    -- the length leaves three shapes of digits
    rcases digits with _ | ⟨d, _ | ⟨e, _ | ⟨f, _ | ⟨d', _ | ⟨e', _ | ⟨f', _ | ⟨_, _⟩⟩⟩⟩⟩⟩⟩ <;>
      simp at hlength hvalue
    · obtain ⟨n, hn⟩ := hvalue
      exact ⟨_, .one hn⟩
    · obtain ⟨⟨r, hr⟩, ⟨g, hg⟩, b, hb⟩ := hvalue
      exact ⟨_, .three hr hg hb⟩
    · obtain ⟨⟨r, hr⟩, ⟨r', hr'⟩, ⟨g, hg⟩, ⟨g', hg'⟩, ⟨b, hb⟩, b', hb'⟩ := hvalue
      exact ⟨_, .six hr hr' hg hg' hb hb'⟩

/-- Short digits stand for the six that they fill. -/
theorem HexColor.filled {digits : List Char} {color : Color}
    (h : HexColor ('0' :: 'x' :: digits) color) : HexColor ('0' :: 'x' :: filled digits) color := by
  cases h with
  | one hd => simpa [Color.filled] using HexColor.six hd hd hd hd hd hd
  | three hr hg hb => simpa [Color.filled] using HexColor.six hr hr hg hg hb hb
  | six hr hr' hg hg' hb hb' => simpa [Color.filled] using HexColor.six hr hr' hg hg' hb hb'

theorem hexPair_of_hexDigit {d e : Char} {n m : Nat} (hd : HexDigit d n) (he : HexDigit e m) :
    [d.toLower, e.toLower] = hexPair (16 * n + m) := by
  obtain ⟨hn, hdigit⟩ := hexDigit_iff.mp hd
  obtain ⟨hm, hdigit'⟩ := hexDigit_iff.mp he
  have hhigh : (16 * (n : Int) + m).toNat / 16 = n := by omega
  have hlow : (16 * (n : Int) + m).toNat % 16 = m := by omega
  rw [hexPair, hhigh, hlow, hdigit, hdigit']

theorem hexDigit_of_hexPair {d e : Char} {amount : Int} (hlow : 0 ≤ amount)
    (hhigh : amount ≤ largestChannel) (h : [d.toLower, e.toLower] = hexPair amount) :
    ∃ n m : Nat, HexDigit d n ∧ HexDigit e m ∧ amount = 16 * n + m := by
  unfold largestChannel at hhigh
  rw [hexPair, List.cons.injEq, List.cons.injEq] at h
  obtain ⟨hd, he, -⟩ := h
  refine ⟨amount.toNat / 16, amount.toNat % 16, hexDigit_iff.mpr ⟨by omega, hd⟩,
    hexDigit_iff.mpr ⟨by omega, he⟩, by omega⟩

/-- Up to the case of letters the six digits are the amounts of the colour. -/
theorem HexColor.hexPairs {digits : List Char} {color : Color}
    (h : HexColor ('0' :: 'x' :: digits) color) :
    (Color.filled digits).map Char.toLower = hexPairs color := by
  rw [Color.hexPairs]
  cases h with
  | one hd => simp [Color.filled, ← hexPair_of_hexDigit hd hd]
  | three hr hg hb =>
    simp [Color.filled, ← hexPair_of_hexDigit hr hr, ← hexPair_of_hexDigit hg hg,
      ← hexPair_of_hexDigit hb hb]
  | six hr hr' hg hg' hb hb' =>
    simp [Color.filled, ← hexPair_of_hexDigit hr hr', ← hexPair_of_hexDigit hg hg',
      ← hexPair_of_hexDigit hb hb']

/-- Digits of either case that write the amounts of a colour are read as the colour. -/
theorem hexColor_of_hexPairs {digits : List Char} {color : Color} (hbytes : color.IsBytes)
    (h : digits.map Char.toLower = hexPairs color) : HexColor ('0' :: 'x' :: digits) color := by
  obtain ⟨red, green, blue⟩ := color
  obtain ⟨⟨hr, hr'⟩, ⟨hg, hg'⟩, hb, hb'⟩ := hbytes
  have hlength : digits.length = 6 := by
    rw [← List.length_map (f := Char.toLower), h]
    rfl
  match digits, hlength with
  | [d, d', e, e', f, f'], _ =>
    have hpairs : [d.toLower, d'.toLower] ++ ([e.toLower, e'.toLower] ++ [f.toLower, f'.toLower]) =
        hexPair red ++ (hexPair green ++ hexPair blue) := h
    obtain ⟨hred, hrest⟩ := List.append_inj hpairs rfl
    obtain ⟨hgreen, hblue⟩ := List.append_inj hrest rfl
    obtain ⟨_, _, hd, hd', rfl⟩ := hexDigit_of_hexPair hr hr' hred
    obtain ⟨_, _, he, he', rfl⟩ := hexDigit_of_hexPair hg hg' hgreen
    obtain ⟨_, _, hf, hf', rfl⟩ := hexDigit_of_hexPair hb hb' hblue
    exact .six hd hd' he he' hf hf'

end Turtle.Grammar
