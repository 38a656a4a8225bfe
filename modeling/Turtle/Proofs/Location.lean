import Turtle.Proofs.Concatenation
import Turtle.Proofs.Conversion

/-! Where errors are. A reader that is followed on its own tape blames a token of that tape, and
a token is a word of the line that it names, so every refusal of a text points at a word that
stands there. Nothing else can go wrong on the way: what a reader converts to a number is short
and made of digits by the time that it is converted. -/

namespace Turtle.Parse
open Correspondence Text Number

/-- A refusal blames a token of the text. -/
theorem token_of_program?_error {text : String} {e : ParseError} (h : program? text = .error e) :
    e.kind ≠ .emptyCommand ∧ ∃ t ∈ Token.ofText 1 text, e.token = some t :=
  token_of_statementsWithin_error (Nat.le_refl _) h

/-- A token of a text is a word of the line that it names, and that line is neither blank nor a
comment. -/
theorem line_of_mem_ofText {text : String} {t : Token} (h : t ∈ Token.ofText 1 text) :
    1 ≤ t.lineNumber ∧ t.lineNumber ≤ (lines text.toList).length ∧
      ∃ line, (lines text.toList)[(t.lineNumber - 1).toNat]? = some line ∧
        t.line = String.ofList line ∧ isSkipped line = false ∧ t.text.toList ∈ words line := by
  obtain ⟨i, line, hi, hnumber, hmem⟩ := Token.exists_of_mem_ofLines h
  have hlt : i < (lines text.toList).length := (List.getElem?_eq_some_iff.mp hi).1
  have hindex : (t.lineNumber - 1).toNat = i := by omega
  obtain ⟨-, hline, hword⟩ := Token.line_of_mem_ofLine hmem
  refine ⟨by omega, by omega, line, ?_, hline, Token.not_isSkipped_of_mem hmem, hword⟩
  rw [hindex, hi]

theorem mem_of_mem_sixDigits {digits : List Char} {c : Char} (h : c ∈ Color.sixDigits digits) :
    c ∈ digits := by
  unfold Color.sixDigits at h
  split at h
  · exact List.mem_singleton.mpr (List.mem_replicate.mp h).2
  · simp only [List.mem_cons, List.not_mem_nil, or_false] at h ⊢
    rcases h with h | h | h | h | h | h <;> simp [h]
  · exact h

theorem length_sixDigits {digits : List Char} (h : digits.length ∈ [1, 3, 6]) :
    (Color.sixDigits digits).length = 6 := by
  simp only [List.mem_cons, List.not_mem_nil, or_false] at h
  rcases h with h | h | h
  · match digits, h with
    | [_], _ => rfl
  · match digits, h with
    | [_, _, _], _ => rfl
  · match digits, h with
    | [_, _, _, _, _, _], _ => rfl

/-- What is converted from base sixteen are six digits of that base. -/
theorem sixDigits_of_hexDigits? {word digits : List Char}
    (h : Color.hexDigits? word = .ok digits) :
    digits.length = 6 ∧ ∀ c ∈ digits, (Color.hexValue? c).isSome = true := by
  unfold Color.hexDigits? at h
  split at h
  · dsimp only at h
    split at h
    · cases h
    · rename_i hlen
      split at h
      · rename_i hall
        obtain rfl := Except.ok.inj h
        refine ⟨length_sixDigits (Classical.not_not.mp hlen), fun c hc => ?_⟩
        exact List.all_eq_true.mp hall c (mem_of_mem_sixDigits hc)
      · cases h
  · cases h

/-- **Every refusal is located.** A text is read as a program, or it is refused with an error
that has a token: a word of the text on a line that is there, is neither blank nor a comment,
and holds that word. It is never refused for want of a command. On the way no conversion to a
number is refused, whatever the length of a word: the digits that are converted are no more than
those of the largest natural, and those of base sixteen are six. -/
theorem refusal_is_located (text : String) :
    ((∃ program, program? text = .ok program) ∨
      ∃ e t line, program? text = .error e ∧ e.kind ≠ .emptyCommand ∧ e.token = some t ∧
        t ∈ Token.ofText 1 text ∧
        1 ≤ t.lineNumber ∧ t.lineNumber ≤ (lines text.toList).length ∧
        (lines text.toList)[(t.lineNumber - 1).toNat]? = some line ∧
        t.line = String.ofList line ∧ isSkipped line = false ∧ t.text.toList ∈ words line) ∧
    (∀ convert, ConvertsUpTo 10 convert → ∀ word,
      naturalBy convert largestNatural word = some (natural? largestNatural word) ∧
      naturalBy convert largestChannel word = some (natural? largestChannel word)) ∧
    (∀ word digits, Color.hexDigits? word = .ok digits →
      digits.length = 6 ∧ ∀ c ∈ digits, (Color.hexValue? c).isSome = true) := by
  have hshort : ∀ limit ∈ [largestNatural, largestChannel],
      (Nat.toDigits 10 limit).length ≤ 10 := by
    decide
  have hby : ∀ convert, ConvertsUpTo 10 convert → ∀ limit ∈ [largestNatural, largestChannel],
      ∀ word, naturalBy convert limit word = some (natural? limit word) :=
    fun convert hconvert limit hlimit => naturalBy_eq (hconvert.mono (hshort limit hlimit))
  refine ⟨?_, fun convert hconvert word => ⟨?_, ?_⟩, fun _ _ => sixDigits_of_hexDigits?⟩
  · cases h : program? text with
    | ok program => exact .inl ⟨program, rfl⟩
    | error e =>
      obtain ⟨hkind, t, hmem, htoken⟩ := token_of_program?_error h
      obtain ⟨hlow, hhigh, line, hget, hline, hskipped, hword⟩ := line_of_mem_ofText hmem
      exact .inr ⟨e, t, line, rfl, hkind, htoken, hmem, hlow, hhigh, hget, hline, hskipped, hword⟩
  · exact hby convert hconvert _ (by simp) word
  · exact hby convert hconvert _ (by simp) word

/-- A distance of eleven digits inside of a block is refused where it stands. One of five thousand
digits is refused as well, though no more than 4300 digits could be converted; and three digits of
base sixteen are doubled before they are converted. -/
theorem refusal_is_located_overlong :
    (∃ line, (lines "REPEAT 2 [\n# far\n F 99999999999 ]".toList)[2]? = some line ∧
      isSkipped line = false ∧ "99999999999".toList ∈ words line) ∧
    naturalBy (boundedValue? 4300) largestNatural (List.replicate 5000 '9') =
      some (natural? largestNatural (List.replicate 5000 '9')) ∧
    (∀ c ∈ "ffcc00".toList, (Color.hexValue? c).isSome = true) := by
  have hrefused : program? "REPEAT 2 [\n# far\n F 99999999999 ]" =
      .error (.badNumber ⟨"99999999999", 3, " F 99999999999 ]"⟩ .distance) := by decide +kernel
  have hdigits : Color.hexDigits? "0xfc0".toList = .ok "ffcc00".toList := by rfl
  obtain ⟨hplace, hconvert, hhex⟩ := refusal_is_located "REPEAT 2 [\n# far\n F 99999999999 ]"
  refine ⟨?_, (hconvert _ ((convertsUpTo_boundedValue? 4300).mono (by decide)) _).1,
    (hhex _ _ hdigits).2⟩
  rcases hplace with ⟨program, hread⟩ |
    ⟨e, t, line, he, -, htoken, -, -, -, hget, -, hskipped, hword⟩
  · rw [hrefused] at hread
    cases hread
  · obtain rfl := Except.error.inj (hrefused.symm.trans he)
    obtain rfl := Option.some.inj htoken
    exact ⟨line, hget, hskipped, hword⟩

end Turtle.Parse
