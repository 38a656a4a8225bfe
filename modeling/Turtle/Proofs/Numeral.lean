import Turtle.Number.Decimal

/-! What numerals mean. A text of digits has the value that its places give it, and reading
it against a limit by its length first is the same as comparing that value. A decimal
numeral is a sign, digits about a point and a power of ten; the relation `Decimal.Writes` says
so without a reader, and the reader finds exactly the decimal that the relation names. -/

namespace Turtle.Number

theorem isDigit_zero : ('0').isDigit = true := by decide

theorem one_le_digit {c : Char} (h : c.isDigit = true) (hne : c ≠ '0') :
    1 ≤ c.toNat - '0'.toNat := by
  obtain ⟨hlow, -⟩ := Char.isDigit_iff_toNat.mp h
  have hval : c.toNat ≠ '0'.toNat := fun he => hne (Char.toNat_inj.mp he)
  omega

@[simp] theorem digitsValue_nil : digitsValue [] = 0 := by simp [digitsValue]

theorem digitsValue_append (a b : List Char) :
    digitsValue (a ++ b) = digitsValue a * 10 ^ b.length + digitsValue b := by
  rw [digitsValue, Nat.ofDigitChars_append, Nat.ofDigitChars_eq_ofDigitChars_zero,
    Nat.mul_comm]
  rfl

theorem digitsValue_cons (c : Char) (rest : List Char) :
    digitsValue (c :: rest) = (c.toNat - '0'.toNat) * 10 ^ rest.length + digitsValue rest := by
  rw [← List.singleton_append, digitsValue_append]
  simp [digitsValue, Nat.ofDigitChars_cons]

@[simp] theorem digitsValue_zeros (n : Nat) : digitsValue (List.replicate n '0') = 0 := by
  simp [digitsValue]

@[simp] theorem digitsValue_toDigits (n : Nat) : digitsValue (Nat.toDigits 10 n) = n :=
  Nat.ofDigitChars_ten_toDigits

/-- Digits of which the first is no zero use all their places. -/
theorem le_digitsValue {c : Char} {rest : List Char} (hc : c.isDigit = true) (hne : c ≠ '0') :
    10 ^ rest.length ≤ digitsValue (c :: rest) := by
  rw [digitsValue_cons]
  have hle : 1 * 10 ^ rest.length ≤ (c.toNat - '0'.toNat) * 10 ^ rest.length :=
    Nat.mul_le_mul_right _ (one_le_digit hc hne)
  omega

/-- Zeros in front add nothing to the value. -/
theorem digitsValue_dropZeros (digits : List Char) :
    digitsValue (digits.dropWhile (· == '0')) = digitsValue digits := by
  induction digits with
  | nil => rfl
  | cons c rest ih =>
    by_cases hc : c = '0'
    · subst hc
      simp [digitsValue_cons, ih]
    · simp [hc]

/-- More digits than the limit has, the zeros in front apart, write a larger number. -/
theorem lt_digitsValue_of_length {limit : Nat} {digits : List Char}
    (hd : ∀ c ∈ digits, c.isDigit = true)
    (h : (Nat.toDigits 10 limit).length < (digits.dropWhile (· == '0')).length) :
    limit < digitsValue digits := by
  rw [← digitsValue_dropZeros]
  have hmem : ∀ c ∈ digits.dropWhile (· == '0'), c.isDigit = true :=
    fun c hc => hd c ((List.dropWhile_sublist _).subset hc)
  have hfirst := List.head?_dropWhile_not (· == '0') digits
  cases hs : digits.dropWhile (· == '0') with
  | nil => simp [hs] at h
  | cons c rest =>
    rw [hs] at h hmem hfirst
    have hne : c ≠ '0' := by simpa using hfirst
    have hpos : 0 < (Nat.toDigits 10 limit).length := Nat.length_toDigits_pos
    have hlimit : limit < 10 ^ rest.length :=
      (Nat.length_toDigits_le_iff (by decide) (by simp at h; omega)).mp (by simp at h; omega)
    have hvalue : 10 ^ rest.length ≤ digitsValue (c :: rest) := le_digitsValue (hmem c (by simp)) hne
    omega

/-- The lengths that are compared first decide nothing that the value would not. -/
theorem natural?_eq (limit : Nat) (text : List Char) :
    natural? limit text =
      if isDigits text = true ∧ digitsValue text ≤ limit then some (digitsValue text)
      else none := by
  unfold natural?
  by_cases hd : isDigits text = true
  · simp only [hd, if_true, digitsValue_dropZeros, true_and]
    by_cases hlen : (Nat.toDigits 10 limit).length < (text.dropWhile (· == '0')).length
    · have hlarge := lt_digitsValue_of_length (isDigits_iff.mp hd).2 hlen
      rw [if_pos hlen, if_neg (Nat.not_le.mpr hlarge)]
    · rw [if_neg hlen]
  · simp [hd]

/-- A natural is read exactly off a text of digits whose value is within the limit. -/
theorem natural?_eq_some_iff {limit n : Nat} {text : List Char} :
    natural? limit text = some n ↔ isDigits text = true ∧ digitsValue text = n ∧ n ≤ limit := by
  rw [natural?_eq]
  by_cases h : isDigits text = true ∧ digitsValue text ≤ limit
  · rw [if_pos h, Option.some.injEq]
    constructor
    · intro hn
      subst hn
      exact ⟨h.1, rfl, h.2⟩
    · intro hn
      exact hn.2.1
  · rw [if_neg h]
    constructor
    · intro hn
      cases hn
    · intro hn
      obtain ⟨hd, rfl, hle⟩ := hn
      exact absurd ⟨hd, hle⟩ h

theorem isDigits_toDigits (n : Nat) : isDigits (Nat.toDigits 10 n) = true :=
  isDigits_iff.mpr ⟨Nat.toDigits_ne_nil,
    fun _ hc => Nat.isDigit_of_mem_toDigits (by decide) (by decide) hc⟩

/-- The text of an integer: its digits, after a sign if it is below zero. -/
theorem toList_toString_int (i : Int) :
    (toString i).toList = (if i < 0 then ['-'] else []) ++ Nat.toDigits 10 i.natAbs := by
  cases i with
  | ofNat m =>
    have hm : ¬ (Int.ofNat m < 0) := by simp
    rw [if_neg hm]
    change (Nat.repr m).toList = _
    simp
  | negSucc m =>
    rw [if_pos (Int.negSucc_lt_zero m)]
    change ("-" ++ Nat.repr (m + 1)).toList = _
    simp [String.toList_append]

/-- The text of an integer is read as a natural exactly if the integer is within the limit. -/
theorem natural?_toString {limit n : Nat} {i : Int} :
    natural? limit (toString i).toList = some n ↔ i = n ∧ i ≤ limit := by
  rw [natural?_eq_some_iff, toList_toString_int]
  by_cases hi : i < 0
  · have hsign : isDigits ('-' :: Nat.toDigits 10 i.natAbs) = false := by
      simp [isDigits, (by decide : ('-').isDigit = false)]
    simp only [hi, if_true, List.singleton_append, hsign]
    constructor
    · intro h
      cases h.1
    · intro h
      obtain ⟨rfl, _⟩ := h
      omega
  · simp only [hi, if_false, List.nil_append, isDigits_toDigits, digitsValue_toDigits, true_and]
    omega

namespace Decimal

/-- The texts of a sign; without a sign a numeral is positive. -/
inductive Sign : List Char → Bool → Prop
  | absent : Sign [] false
  | plus : Sign ['+'] false
  | minus : Sign ['-'] true

/-- The texts of digits about a point: those before it and those after it. The point may be
missing, and one of the two sides may be empty. -/
inductive Mantissa : List Char → List Char → List Char → Prop
  | whole {w : List Char} : isDigits w = true → Mantissa w w []
  | pointed {w f : List Char} : isDigits w = true → (∀ c ∈ f, c.isDigit = true) →
      Mantissa (w ++ '.' :: f) w f
  | bare {f : List Char} : isDigits f = true → Mantissa ('.' :: f) [] f

/-- The texts of a power of ten. -/
inductive Power : List Char → Int → Prop
  | absent : Power [] 0
  | marked {mark : Char} {sign digits : List Char} {negative : Bool} :
      mark = 'e' ∨ mark = 'E' → Sign sign negative → isDigits digits = true →
      Power (mark :: (sign ++ digits)) (signed negative (digitsValue digits))

/-- The numerals that write a decimal. -/
inductive Writes : List Char → Decimal → Prop
  | intro {sign mantissa power whole fraction : List Char} {negative : Bool} {exponent : Int} :
      Sign sign negative → Mantissa mantissa whole fraction → Power power exponent →
      Writes (sign ++ (mantissa ++ power))
        ⟨negative, digitsValue (whole ++ fraction), exponent - fraction.length⟩

theorem not_isDigit_point : ('.').isDigit = false := by decide

theorem isDigit_of_mem {digits : List Char} (h : isDigits digits = true) :
    ∀ c ∈ digits, c.isDigit = true := (isDigits_iff.mp h).2

theorem takeWhile_digits {digits : List Char} (rest : List Char)
    (h : ∀ c ∈ digits, c.isDigit = true) (hr : ∀ c ∈ rest.head?, c.isDigit = false) :
    (digits ++ rest).takeWhile Char.isDigit = digits ∧
      (digits ++ rest).dropWhile Char.isDigit = rest := by
  rw [List.takeWhile_append_of_pos h, List.dropWhile_append_of_pos h]
  cases rest with
  | nil => simp
  | cons c rest =>
    have hc := hr c (by simp)
    simp [hc]

theorem splitSign_append {sign rest : List Char} {negative : Bool} (h : Sign sign negative)
    (hr : ∀ c ∈ rest.head?, c ≠ '-' ∧ c ≠ '+') :
    splitSign (sign ++ rest) = (negative, rest) := by
  cases h with
  | plus | minus => rfl
  | absent =>
    cases rest with
    | nil => rfl
    | cons c rest =>
      obtain ⟨hm, hp⟩ := hr c (by simp)
      simp [splitSign, hm, hp]

/-- What a sign is split off from, and the sign. -/
theorem sign_splitSign (text : List Char) :
    ∃ sign, Sign sign (splitSign text).1 ∧ text = sign ++ (splitSign text).2 := by
  unfold splitSign
  split
  · exact ⟨['-'], .minus, rfl⟩
  · exact ⟨['+'], .plus, rfl⟩
  · exact ⟨[], .absent, rfl⟩

theorem not_sign_of_isDigit {c : Char} (h : c.isDigit = true) : c ≠ '-' ∧ c ≠ '+' := by
  constructor <;> rintro rfl <;> exact absurd h (by decide)

theorem head_isDigit {digits : List Char} (h : isDigits digits = true) (rest : List Char) :
    ∀ c ∈ (digits ++ rest).head?, c.isDigit = true := by
  obtain ⟨hne, hd⟩ := isDigits_iff.mp h
  cases digits with
  | nil => exact absurd rfl hne
  | cons first more =>
    intro c hc
    obtain rfl : first = c := by simpa using hc
    exact hd first (by simp)

theorem exponent?_eq_some_iff {text : List Char} {power : Int} :
    exponent? text = some power ↔ Power text power := by
  constructor
  · intro h
    cases text with
    | nil =>
      obtain rfl : 0 = power := by simpa [exponent?] using h
      exact .absent
    | cons mark rest =>
      obtain ⟨sign, hs, hrest⟩ := sign_splitSign rest
      simp only [exponent?] at h
      split at h
      · rename_i hcond
        obtain rfl := Option.some.inj h
        have hp := Power.marked hcond.1 hs hcond.2
        rwa [← hrest] at hp
      · cases h
  · intro h
    cases h with
    | absent => rfl
    | @marked mark sign digits negative hmark hs hd =>
      have hsplit : splitSign (sign ++ digits) = (negative, digits) := by
        apply splitSign_append hs
        intro c hc
        exact not_sign_of_isDigit (head_isDigit hd [] c (by simpa using hc))
      simp [exponent?, hsplit, hmark, hd]

/-- A power of ten does not begin like a number or a fraction. -/
theorem Power.head {text : List Char} {power : Int} (h : Power text power) :
    ∀ c ∈ text.head?, c.isDigit = false ∧ c ≠ '.' := by
  intro c hc
  cases h with
  | absent => simp at hc
  | marked hmark _ _ =>
    obtain rfl := Option.some.inj hc
    rcases hmark with rfl | rfl <;> decide

theorem splitFraction_of_head {text : List Char} (h : ∀ c ∈ text.head?, c ≠ '.') :
    splitFraction text = ([], text) := by
  cases text with
  | nil => rfl
  | cons c rest =>
    have hc := h c (by simp)
    simp [splitFraction, hc]

/-- The parts into which the reader takes a numeral. -/
theorem split_mantissa {mantissa whole fraction tail : List Char}
    (h : Mantissa mantissa whole fraction)
    (ht : ∀ c ∈ tail.head?, c.isDigit = false ∧ c ≠ '.') :
    (mantissa ++ tail).takeWhile Char.isDigit = whole ∧
      splitFraction ((mantissa ++ tail).dropWhile Char.isDigit) = (fraction, tail) ∧
      (whole.isEmpty && fraction.isEmpty) = false := by
  cases h with
  | whole hw =>
    obtain ⟨htake, hdrop⟩ := takeWhile_digits tail (isDigit_of_mem hw) fun c hc => (ht c hc).1
    refine ⟨htake, ?_, by simp [(isDigits_iff.mp hw).1]⟩
    rw [hdrop]
    exact splitFraction_of_head fun c hc => (ht c hc).2
  | pointed hw hf =>
    have hpoint : ∀ c ∈ ('.' :: (fraction ++ tail)).head?, c.isDigit = false := by
      intro c hc
      obtain rfl := Option.some.inj hc
      exact not_isDigit_point
    obtain ⟨htake, hdrop⟩ := takeWhile_digits _ (isDigit_of_mem hw) hpoint
    obtain ⟨hftake, hfdrop⟩ := takeWhile_digits tail hf fun c hc => (ht c hc).1
    rw [List.append_assoc, List.cons_append]
    refine ⟨htake, ?_, by simp [(isDigits_iff.mp hw).1]⟩
    rw [hdrop, splitFraction, hftake, hfdrop]
  | bare hf =>
    obtain ⟨hftake, hfdrop⟩ := takeWhile_digits tail (isDigit_of_mem hf) fun c hc => (ht c hc).1
    refine ⟨by simp [not_isDigit_point], ?_, by simp [(isDigits_iff.mp hf).1]⟩
    simp [not_isDigit_point, splitFraction, hftake, hfdrop]

theorem Mantissa.head {mantissa whole fraction : List Char} (h : Mantissa mantissa whole fraction)
    (tail : List Char) : ∀ c ∈ (mantissa ++ tail).head?, c ≠ '-' ∧ c ≠ '+' := by
  intro c hc
  cases h with
  | whole hw => exact not_sign_of_isDigit (head_isDigit hw _ c hc)
  | pointed hw _ =>
    rw [List.append_assoc] at hc
    exact not_sign_of_isDigit (head_isDigit hw _ c hc)
  | bare _ =>
    obtain rfl := Option.some.inj hc
    decide

/-- What stands before the tail of a numeral is digits about a point. -/
theorem mantissa_of_split {text : List Char}
    (h : (((text.takeWhile Char.isDigit).isEmpty &&
      (splitFraction (text.dropWhile Char.isDigit)).1.isEmpty) = false)) :
    ∃ mantissa, text = mantissa ++ (splitFraction (text.dropWhile Char.isDigit)).2 ∧
      Mantissa mantissa (text.takeWhile Char.isDigit)
        (splitFraction (text.dropWhile Char.isDigit)).1 := by
  have hwhole : ∀ c ∈ text.takeWhile Char.isDigit, c.isDigit = true :=
    fun c hc => List.all_eq_true.mp List.all_takeWhile c hc
  have htext := (List.takeWhile_append_dropWhile (p := Char.isDigit) (l := text)).symm
  generalize text.takeWhile Char.isDigit = w at h hwhole htext ⊢
  generalize text.dropWhile Char.isDigit = rest at h htext ⊢
  subst htext
  unfold splitFraction at h ⊢
  split
  · rename_i more
    have hf : ∀ c ∈ more.takeWhile Char.isDigit, c.isDigit = true :=
      fun c hc => List.all_eq_true.mp List.all_takeWhile c hc
    have hmore := (List.takeWhile_append_dropWhile (p := Char.isDigit) (l := more)).symm
    cases w with
    | nil =>
      refine ⟨'.' :: more.takeWhile Char.isDigit, by simp [← hmore], .bare ?_⟩
      exact isDigits_iff.mpr ⟨by simpa using h, hf⟩
    | cons c w =>
      refine ⟨(c :: w) ++ '.' :: more.takeWhile Char.isDigit, by simp [← hmore], .pointed ?_ hf⟩
      exact isDigits_iff.mpr ⟨by simp, hwhole⟩
  · refine ⟨w, rfl, .whole (isDigits_iff.mpr ⟨?_, hwhole⟩)⟩
    rintro rfl
    simp at h

/-- A text is read as a decimal exactly if it writes that decimal. -/
theorem read?_eq_some_iff {text : List Char} {d : Decimal} :
    read? text = some d ↔ Writes text d := by
  constructor
  · intro h
    obtain ⟨sign, hs, htext⟩ := sign_splitSign text
    unfold read? at h
    generalize splitSign text = split at h hs htext
    obtain ⟨negative, unsigned⟩ := split
    dsimp only at h hs htext
    split at h
    · cases h
    · rename_i hne
      obtain ⟨mantissa, hm, hmant⟩ := mantissa_of_split (by simpa using hne)
      obtain ⟨power, hpower, rfl⟩ := Option.map_eq_some_iff.mp h
      have hw := Writes.intro hs hmant (exponent?_eq_some_iff.mp hpower)
      rwa [← hm, ← htext] at hw
  · intro h
    cases h with
    | @intro sign mantissa power whole fraction negative exponent hs hm hp =>
      have hsplit := splitSign_append hs (hm.head power)
      obtain ⟨hwhole, hfraction, hne⟩ := split_mantissa hm hp.head
      simp [read?, hsplit, hwhole, hfraction, hne, exponent?_eq_some_iff.mpr hp]

end Decimal

end Turtle.Number
