import Mathlib.Data.List.Forall2
import Turtle.Proofs.Correspondence

/-! The place of a token that an error blames. Two tokens on a line may be equal, so the token alone
does not tell its place. But no reader looks at the line of text that a token carries: if each token
is given a line of its own, then the error names the place, and it names the same place whatever
the lines are and however the words are spelled. -/

namespace Turtle
open Reader

/-- A token that no reader tells from another: its word has the same meaning, and it stands on a line
with the same number. -/
structure Token.Alike (t t' : Token) : Prop where
  word : Interchangeable t.text t'.text
  lineNumber : t'.lineNumber = t.lineNumber

theorem Token.Alike.refl (t : Token) : t.Alike t := ⟨.of_eq rfl, rfl⟩

/-- The line of text that a token carries does not matter. -/
theorem Token.Alike.withLine {t t' : Token} (h : t.Alike t') (line : String) :
    t.Alike { t' with line } := ⟨h.word, h.lineNumber⟩

theorem Correspondence.ahead_of_forall₂ {c : Correspondence} {tokens tokens' : List Token}
    (h : List.Forall₂ c.same tokens tokens') : c.Ahead tokens (tokens' ++ c.behind) := by
  induction h with
  | nil => exact .done
  | cons hsame _ ih => exact .token hsame ih

namespace Parse

/-- The program that tokens write, or the first error in them. -/
def ofTokens? (tokens : List Token) : Except ParseError (List Command) :=
  (statements (Tape.ofTokens tokens)).result

/-- Tokens that are read in the same way, one by one. -/
abbrev AllAlike (tokens tokens' : List Token) : Prop := List.Forall₂ Token.Alike tokens tokens'

/-- The error of some tokens blames the one at a place: if that token carried any other line of text,
then the error would carry it too. -/
def BlamesAt (tokens : List Token) (i : Nat) (e : ParseError) : Prop :=
  ∃ t, tokens[i]? = some t ∧ e.token = some t ∧
    ∀ line, ofTokens? (tokens.set i { t with line }) = .error (e.blaming { t with line })

/-- Each token with a line that tells its place. -/
def numbered (tokens : List Token) : List Token :=
  tokens.mapIdx fun i t => { t with line := String.ofList (List.replicate i ' ') }

variable {tokens tokens' : List Token}

theorem AllAlike.refl (tokens : List Token) : AllAlike tokens tokens :=
  List.forall₂_same.mpr fun t _ => .refl t

/-- Another line of text for one of the tokens. -/
theorem AllAlike.set (h : AllAlike tokens tokens') {i : Nat} {t : Token} (ht : tokens'[i]? = some t)
    (line : String) : AllAlike tokens (tokens'.set i { t with line }) := by
  induction h generalizing i with
  | nil => exact .nil
  | cons hfirst hrest ih =>
    cases i with
    | zero =>
      obtain rfl := Option.some.inj ht
      exact .cons (hfirst.withLine line) hrest
    | succ i => exact .cons hfirst (ih ht)

theorem exists_of_numbered {i : Nat} {marked : Token} (h : (numbered tokens)[i]? = some marked) :
    ∃ t, tokens[i]? = some t ∧ marked = { t with line := String.ofList (List.replicate i ' ') } := by
  rw [numbered, List.getElem?_mapIdx] at h
  obtain ⟨t, ht, rfl⟩ := Option.map_eq_some_iff.mp h
  exact ⟨t, ht, rfl⟩

theorem place_unique {i j : Nat} {marked : Token} (hi : (numbered tokens)[i]? = some marked)
    (hj : (numbered tokens)[j]? = some marked) : i = j := by
  obtain ⟨t, -, rfl⟩ := exists_of_numbered hi
  obtain ⟨u, -, heq⟩ := exists_of_numbered hj
  have hline := String.ofList_injective (congrArg Token.line heq)
  simpa using congrArg List.length hline

theorem AllAlike.getElem? (h : AllAlike tokens tokens') {i : Nat} {t t' : Token}
    (ht : tokens[i]? = some t) (ht' : tokens'[i]? = some t') : t.Alike t' := by
  obtain ⟨hi, rfl⟩ := List.getElem?_eq_some_iff.mp ht
  obtain ⟨hi', rfl⟩ := List.getElem?_eq_some_iff.mp ht'
  exact h.get hi hi'

/-- A numbered token answers to the token at its place. -/
def inStep (h : AllAlike tokens tokens') : Correspondence where
  same marked t' := ∃ i : Nat, (numbered tokens)[i]? = some marked ∧ tokens'[i]? = some t'
  behind := []
  word := by
    rintro _ t' ⟨i, hmarked, ht'⟩
    obtain ⟨t, ht, rfl⟩ := exists_of_numbered hmarked
    exact (h.getElem? ht ht').word
  line := by
    rintro _ t' _ u' ⟨i, hmarked, ht'⟩ ⟨j, hmarked', hu'⟩
    obtain ⟨t, ht, rfl⟩ := exists_of_numbered hmarked
    obtain ⟨u, hu, rfl⟩ := exists_of_numbered hmarked'
    rw [(h.getElem? ht ht').lineNumber, (h.getElem? hu hu').lineNumber]
  apart _ extra hextra := by cases hextra

theorem ahead_inStep (h : AllAlike tokens tokens') : (inStep h).Ahead (numbered tokens) tokens' := by
  have hlength : (numbered tokens).length = tokens'.length := by
    rw [numbered, List.length_mapIdx, h.length_eq]
  have hsame : List.Forall₂ (inStep h).same (numbered tokens) tokens' :=
    List.forall₂_iff_get.mpr ⟨hlength, fun i hi hi' =>
      ⟨i, List.getElem?_eq_getElem hi, List.getElem?_eq_getElem hi'⟩⟩
  have hahead := Correspondence.ahead_of_forall₂ hsame
  rwa [show (inStep h).behind = [] from rfl, List.append_nil] at hahead

theorem results_inStep (h : AllAlike tokens tokens') :
    (inStep h).Results (ofTokens? (numbered tokens)) (ofTokens? tokens') :=
  Correspondence.results_statementsWithin (Correspondence.tapes_of_ahead (ahead_inStep h) [])
    (Nat.le_refl _) (Nat.le_refl _)

/-- **What is read depends on the words and their lines alone.** All lists of tokens that are alike
write one program, or they are refused with one error, which blames the token at one place. -/
theorem read_of_allAlike (tokens : List Token) :
    (∃ program, ∀ tokens', AllAlike tokens tokens' → ofTokens? tokens' = .ok program) ∨
      ∃ (e : ParseError) (i : Nat), ∀ tokens', AllAlike tokens tokens' →
        ∃ t, tokens'[i]? = some t ∧ ofTokens? tokens' = .error (e.blaming t) := by
  cases hread : ofTokens? (numbered tokens) with
  | ok program =>
    refine .inl ⟨program, fun tokens' h => ?_⟩
    have hresults := results_inStep h
    rw [hread] at hresults
    exact hresults.of_ok rfl
  | error e =>
    have hblamed : ∀ tokens', AllAlike tokens tokens' → ∃ (marked : Token) (i : Nat) (t : Token),
        e.token = some marked ∧ (numbered tokens)[i]? = some marked ∧ tokens'[i]? = some t ∧
        ofTokens? tokens' = .error (e.blaming t) := by
      intro tokens' h
      have hresults := results_inStep h
      rw [hread] at hresults
      obtain ⟨_, ⟨marked, t, htoken, -, ⟨i, hmarked, ht⟩, rfl⟩, hother⟩ := hresults.of_error (.inl rfl)
      exact ⟨marked, i, t, htoken, hmarked, ht, hother⟩
    -- the marked token is the same for all lists, and it stands at one place
    obtain ⟨marked, i, -, htoken, hmarked, -⟩ := hblamed tokens (.refl tokens)
    refine .inr ⟨e, i, fun tokens' h => ?_⟩
    obtain ⟨other, j, t, htoken', hmarked', ht, hother⟩ := hblamed tokens' h
    obtain rfl := Option.some.inj (htoken.symm.trans htoken')
    obtain rfl := place_unique hmarked hmarked'
    exact ⟨t, ht, hother⟩

/-- The place at which alike tokens are refused is the only one that an error of them blames. -/
theorem blamesAt_iff {e : ParseError} {i : Nat}
    (h : ∀ tokens', AllAlike tokens tokens' →
      ∃ t, tokens'[i]? = some t ∧ ofTokens? tokens' = .error (e.blaming t))
    (halike : AllAlike tokens tokens') {e' : ParseError} (he : ofTokens? tokens' = .error e') (j : Nat) :
    BlamesAt tokens' j e' ↔ j = i := by
  obtain ⟨t, ht, hread⟩ := h tokens' halike
  obtain rfl := Except.error.inj (he.symm.trans hread)
  constructor
  · rintro ⟨u, hu, htoken, hset⟩
    rw [ParseError.token_blaming] at htoken
    obtain rfl := Option.some.inj htoken
    -- with a longer line the blamed token is not the one that stands at another place
    obtain ⟨marked, hmarked, hread'⟩ := h _ (halike.set hu (t.line ++ " "))
    have hblamed := congrArg ParseError.token (Except.error.inj (hread'.symm.trans (hset _)))
    rw [ParseError.token_blaming, ParseError.token_blaming] at hblamed
    rw [Option.some.inj hblamed] at hmarked
    by_contra hne
    rw [List.getElem?_set_ne hne, ht] at hmarked
    have hline := congrArg (String.length ∘ Token.line) (Option.some.inj hmarked)
    simp at hline
  · rintro rfl
    refine ⟨t, ht, ParseError.token_blaming t e, fun line => ?_⟩
    obtain ⟨u, hu, hread'⟩ := h _ (halike.set ht line)
    have hlt : j < tokens'.length := (List.getElem?_eq_some_iff.mp ht).1
    rw [List.getElem?_set_self hlt] at hu
    obtain rfl := Option.some.inj hu
    rw [ParseError.blaming_blaming]
    exact hread'

end Parse

end Turtle
