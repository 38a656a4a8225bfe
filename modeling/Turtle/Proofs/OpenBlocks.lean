import Turtle.Proofs.Grammar

/-! Blocks that are open. Where a text ends, some of the blocks that it began may not have been
closed; a stack that the words of blocks are put on and the ends of blocks taken off holds them,
the innermost first. What the grammar derives leaves the stack as it was. Tokens that are
pending would be derived if more came: they are commands with heads of blocks between them, the
blocks of the heads are the open ones, and as many ends as there are heads complete them. -/

namespace Turtle.Grammar
open Turtle.Number Command

/-- The open blocks after one more token. -/
def afterToken (blocks : List Token) (t : Token) : List Token :=
  match Keyword.ofWord? t.text with
  | some .block => t :: blocks
  | some .blockEnd => blocks.tail
  | _ => blocks

/-- The open blocks after some tokens, where some were open before. -/
def afterTokens (blocks tokens : List Token) : List Token := tokens.foldl afterToken blocks

/-- The words of the blocks that are open behind some tokens, the innermost first. -/
def openBlocks (tokens : List Token) : List Token := afterTokens [] tokens

variable {blocks tokens openers : List Token} {word count bracket : Token} {depth : Nat}

@[simp] theorem afterTokens_nil : afterTokens blocks [] = blocks := rfl

@[simp] theorem afterTokens_cons (t : Token) (rest : List Token) :
    afterTokens blocks (t :: rest) = afterTokens (afterToken blocks t) rest := rfl

@[simp] theorem afterTokens_append (first second : List Token) :
    afterTokens blocks (first ++ second) = afterTokens (afterTokens blocks first) second :=
  List.foldl_append

theorem afterToken_block (h : Spells word .block) : afterToken blocks word = word :: blocks := by
  rw [afterToken, ofWord?_eq_some_iff.mpr h]

theorem afterToken_blockEnd (h : Spells word .blockEnd) :
    afterToken blocks word = blocks.tail := by
  rw [afterToken, ofWord?_eq_some_iff.mpr h]

theorem afterToken_of_spells {keyword : Keyword} (h : Spells word keyword)
    (hblock : keyword ≠ .block) (hend : keyword ≠ .blockEnd) :
    afterToken blocks word = blocks := by
  rw [afterToken, ofWord?_eq_some_iff.mpr h]
  cases keyword with
  | block => exact absurd rfl hblock
  | blockEnd => exact absurd rfl hend
  | _ => rfl

/-- A word of a kind that has neither the word nor the end of a block opens and closes none. -/
theorem afterToken_of_kind (kind : List Char → Prop) (h : kind word.text.toList)
    (hblock : ¬ kind "REPEAT".toList) (hend : ¬ kind "]".toList) :
    afterToken blocks word = blocks := by
  unfold afterToken
  split
  · rename_i hword
    rw [List.mem_singleton.mp (ofWord?_eq_some_iff.mp hword)] at h
    exact absurd h hblock
  · rename_i hword
    rw [List.mem_singleton.mp (ofWord?_eq_some_iff.mp hword)] at h
    exact absurd h hend
  · rfl

theorem afterToken_of_natural {limit n : Nat} (h : Natural limit word n) :
    afterToken blocks word = blocks :=
  afterToken_of_kind (fun text => isDigits text = true) h.1 (by decide) (by decide)

theorem afterToken_of_width {width : Binary64} (h : Width word width) :
    afterToken blocks word = blocks := by
  obtain ⟨d, hwrites, -⟩ := h
  have hread := Decimal.read?_eq_some_iff.mpr hwrites
  refine afterToken_of_kind (fun text => Decimal.read? text = some d) hread ?_ ?_
  · intro hblock
    cases hblock
  · intro hend
    cases hend

theorem afterToken_of_hexColor {color : Color} (h : HexColor word.text.toList color) :
    afterToken blocks word = blocks :=
  afterToken_of_kind (fun text => Color.isMarked text = true) h.marked (by decide) (by decide)

/-- A command without a body opens and closes no block. -/
theorem afterTokens_of_derives {command : Command} (h : Derives depth tokens command)
    (hb : command.isBlock = false) : afterTokens blocks tokens = blocks := by
  cases h with
  | forward hs _ hn => simp [afterToken_of_spells hs nofun nofun, afterToken_of_natural hn]
  | turn hs | pen hs => simp [afterToken_of_spells hs nofun nofun]
  | size hs _ hw => simp [afterToken_of_spells hs nofun nofun, afterToken_of_width hw]
  | hexColor hs _ hx => simp [afterToken_of_spells hs nofun nofun, afterToken_of_hexColor hx]
  | byteColor hs _ hr _ hg _ hbl =>
    simp [afterToken_of_spells hs nofun nofun, afterToken_of_natural hr,
      afterToken_of_natural hg, afterToken_of_natural hbl]
  | block => cases hb

/-- The word of a block that may begin at a depth, with the count and the bracket behind it. -/
structure Opens (depth : Nat) (word count bracket : Token) : Prop where
  allowed : depth < deepestBlock
  spells : Spells word .block
  counted : OnLine word count ∧ ∃ n, Natural largestNatural count n
  bracketed : OnLine word bracket ∧ bracket.text = "["

theorem Opens.afterTokens (h : Opens depth word count bracket) (inside : List Token) :
    afterTokens blocks (word :: count :: bracket :: inside) =
      afterTokens (word :: blocks) inside := by
  obtain ⟨n, hn⟩ := h.counted.2
  have hbracket : ∀ blocks, afterToken blocks bracket = blocks := fun blocks =>
    afterToken_of_kind (· = "[".toList) (congrArg String.toList h.bracketed.2) (by decide)
      (by decide)
  rw [afterTokens_cons, afterTokens_cons, afterTokens_cons, afterToken_block h.spells,
    afterToken_of_natural hn, hbracket]

/-- What the grammar derives closes the blocks that it opens and no others. -/
theorem afterTokens_of_derivesAll (program : List Command) : ∀ depth blocks tokens,
    DerivesAll depth tokens program → afterTokens blocks tokens = blocks := by
  induction program using programInduction with
  | nil =>
    intro depth blocks tokens h
    cases h
    rfl
  | single command rest hb ih =>
    intro depth blocks tokens h
    cases h with
    | cons hfirst hrest =>
      rw [afterTokens_append, afterTokens_of_derives hfirst hb, ih _ _ _ hrest]
  | block count body rest ihBody ih =>
    intro depth blocks tokens h
    cases h with
    | cons hfirst hrest =>
      rw [afterTokens_append, ih _ _ _ hrest]
      cases hfirst with
      | block hdepth hs hcl hn hbl hbt hall hclose =>
        have hopens := Opens.mk hdepth hs ⟨hcl, _, hn⟩ ⟨hbl, hbt⟩
        rw [hopens.afterTokens, afterTokens_append, ihBody _ _ _ hall, afterTokens_cons,
          afterToken_blockEnd hclose]
        rfl

/-- Tokens inside of blocks whose ends have not come, with the words of the blocks that they
open themselves, the outermost first. -/
inductive Pending : Nat → List Token → List Token → Prop
  | nil {depth : Nat} : Pending depth [] []
  | cons {depth : Nat} {first rest openers : List Token} {command : Command} :
      Derives depth first command → Pending depth rest openers →
      Pending depth (first ++ rest) openers
  | block {depth : Nat} {word count bracket : Token} {inside openers : List Token} :
      Opens depth word count bracket → Pending (depth + 1) inside openers →
      Pending depth (word :: count :: bracket :: inside) (word :: openers)

/-- The tokens of a program that ends inside of a block, with the words of its open blocks, the
outermost first. -/
inductive PendingProgram : List Token → List Token → Prop
  | block {word count bracket : Token} {inside openers : List Token} :
      Opens 0 word count bracket → Pending 1 inside openers →
      PendingProgram (word :: count :: bracket :: inside) (word :: openers)
  | cons {first rest openers : List Token} {command : Command} :
      Derives 0 first command →
      (∀ last ∈ first.getLast?, ∀ next ∈ rest.head?, next.lineNumber ≠ last.lineNumber) →
      PendingProgram rest openers → PendingProgram (first ++ rest) openers

/-- The open blocks are those whose words are pending. -/
theorem Pending.afterTokens (h : Pending depth tokens openers) :
    afterTokens blocks tokens = openers.reverse ++ blocks := by
  induction h generalizing blocks with
  | nil => rfl
  | cons hfirst _ ih =>
    have hbalanced := afterTokens_of_derivesAll _ _ blocks _ (.cons hfirst .nil)
    rw [List.append_nil] at hbalanced
    rw [afterTokens_append, hbalanced, ih]
  | block hopens _ ih =>
    rw [hopens.afterTokens, ih, List.reverse_cons, List.append_assoc, List.singleton_append]

theorem PendingProgram.openBlocks (h : PendingProgram tokens openers) :
    openBlocks tokens = openers.reverse := by
  rw [Grammar.openBlocks]
  induction h with
  | block hopens hinside =>
    rw [hopens.afterTokens, hinside.afterTokens, List.reverse_cons]
  | cons hfirst _ _ ih =>
    have hbalanced := afterTokens_of_derivesAll _ _ [] _ (.cons hfirst .nil)
    rw [List.append_nil] at hbalanced
    rw [afterTokens_append, hbalanced, ih]

/-- There are no more open blocks than may enclose one another. -/
theorem Pending.length_le (h : Pending depth tokens openers) (hdepth : depth ≤ deepestBlock) :
    openers.length ≤ deepestBlock - depth := by
  induction h with
  | nil => exact Nat.zero_le _
  | cons _ _ ih => exact ih hdepth
  | @block depth _ _ _ _ _ hopens _ ih =>
    have hallowed := hopens.allowed
    have hle := ih hallowed
    rw [List.length_cons]
    omega

theorem PendingProgram.length_le (h : PendingProgram tokens openers) :
    openers.length ≤ deepestBlock := by
  induction h with
  | block hopens hinside => exact (Pending.block hopens hinside).length_le (Nat.zero_le _)
  | cons _ _ _ ih => exact ih

/-- Each end closes the innermost block that is still open. -/
theorem afterTokens_ends {ends : List Token} (h : ∀ t ∈ ends, Spells t .blockEnd) :
    afterTokens blocks ends = blocks.drop ends.length := by
  induction ends generalizing blocks with
  | nil => rfl
  | cons close rest ih =>
    rw [afterTokens_cons, afterToken_blockEnd (h close (by simp)),
      ih fun t ht => h t (by simp [ht]), List.length_cons, ← List.drop_one, List.drop_drop,
      Nat.add_comm]

/-- The last of some ends closes a block, and those before it what is inside. -/
theorem Opens.complete (h : Opens depth word count bracket) {inside ends : List Token}
    {blocks : Nat}
    (hinside : ∀ inner : List Token, (∀ t ∈ inner, Spells t .blockEnd) → inner.length = blocks →
      ∃ body, DerivesAll (depth + 1) (inside ++ inner) body)
    (hends : ∀ t ∈ ends, Spells t .blockEnd) (hlen : ends.length = blocks + 1) :
    ∃ command, Derives depth (word :: count :: bracket :: inside ++ ends) command := by
  obtain ⟨inner, close, rfl⟩ : ∃ inner close, ends = inner ++ [close] :=
    ⟨_, _, (List.dropLast_concat_getLast (List.ne_nil_of_length_eq_add_one hlen)).symm⟩
  have hinner : ∀ t ∈ inner, Spells t .blockEnd := fun t ht => hends t (List.mem_append_left _ ht)
  obtain ⟨body, hbody⟩ := hinside inner hinner (by simpa using hlen)
  obtain ⟨n, hn⟩ := h.counted.2
  have hblock := Derives.block h.allowed h.spells h.counted.1 hn h.bracketed.1 h.bracketed.2
    hbody (hends close (by simp))
  rw [List.append_assoc] at hblock
  exact ⟨_, hblock⟩

/-- An end for each open block completes what is inside of them. -/
theorem Pending.complete (h : Pending depth tokens openers) : ∀ ends : List Token,
    (∀ t ∈ ends, Spells t .blockEnd) → ends.length = openers.length →
    ∃ body, DerivesAll depth (tokens ++ ends) body := by
  induction h with
  | nil =>
    intro ends _ hlen
    obtain rfl := List.length_eq_zero_iff.mp hlen
    exact ⟨[], .nil⟩
  | cons hfirst _ ih =>
    intro ends hends hlen
    obtain ⟨body, hbody⟩ := ih ends hends hlen
    rw [List.append_assoc]
    exact ⟨_, .cons hfirst hbody⟩
  | block hopens _ ih =>
    intro ends hends hlen
    obtain ⟨command, hcommand⟩ := hopens.complete ih hends hlen
    have hall := DerivesAll.cons hcommand .nil
    rw [List.append_nil] at hall
    exact ⟨_, hall⟩

theorem PendingProgram.ne_nil (h : PendingProgram tokens openers) : tokens ≠ [] := by
  cases h with
  | block => simp
  | cons hfirst _ _ => simp [hfirst.ne_nil]

/-- An end for each open block makes a program of the tokens. -/
theorem PendingProgram.complete (h : PendingProgram tokens openers) {ends : List Token}
    (hends : ∀ t ∈ ends, Spells t .blockEnd) (hlen : ends.length = openers.length) :
    ∃ program, DerivesProgram (tokens ++ ends) program := by
  induction h with
  | block hopens hinside =>
    obtain ⟨command, hcommand⟩ := hopens.complete hinside.complete hends hlen
    have hprogram := DerivesProgram.cons hcommand (fun _ _ _ hnext => by cases hnext) .nil
    rw [List.append_nil] at hprogram
    exact ⟨_, hprogram⟩
  | cons hfirst hline hrest ih =>
    obtain ⟨program, hprogram⟩ := ih hlen
    rw [List.append_assoc]
    refine ⟨_, .cons hfirst (fun last hlast next hnext => hline last hlast next ?_) hprogram⟩
    rwa [List.head?_append, Option.or_of_isSome (by simpa using hrest.ne_nil)] at hnext

end Turtle.Grammar
