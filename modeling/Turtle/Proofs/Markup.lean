import Turtle.Proofs.CanonicalText
import Turtle.Svg.Document

/-! Where elements begin in the text of a document. An element has one bracket at each end and plain
text between them, and titles are escaped, so the brackets of a document are those of its own
lines: an element of a name begins where a line of that name begins, and nowhere else.
`Silent` says that a piece of text begins no element of a name, whatever follows it. -/

namespace Turtle.Svg
open Turtle.Number

/-- The offsets at which a pattern stands in a text. -/
def offsets (pattern text : List Char) : List Nat :=
  (List.range (text.length + 1)).filter fun i => pattern.isPrefixOf (text.drop i)

/-- A text up to its first closing bracket. -/
def throughBracket : List Char → List Char
  | [] => []
  | c :: rest => if c = '>' then [c] else c :: throughBracket rest

/-- The element that begins at an offset, with the two blanks before it. -/
def elementAt (text : List Char) (offset : Nat) : List Char := throughBracket (text.drop (offset - 2))

/-- A character that is no angle bracket. -/
def IsPlain (c : Char) : Prop := c ≠ '<' ∧ c ≠ '>'

instance (c : Char) : Decidable (IsPlain c) := inferInstanceAs (Decidable (c ≠ '<' ∧ c ≠ '>'))

/-- Text without angle brackets. -/
def Plain (text : List Char) : Prop := ∀ c ∈ text, IsPlain c

instance (text : List Char) : Decidable (Plain text) :=
  decidable_of_iff (text.all (fun c => c != '<' && c != '>') = true) (by simp [Plain, IsPlain])

section
variable {n d : Char} {name letters piece before body rest : List Char}

theorem plain_append {a b : List Char} : Plain (a ++ b) ↔ Plain a ∧ Plain b := by
  simp [Plain, or_imp, forall_and]

theorem Plain.not_mem (h : Plain piece) : '<' ∉ piece := fun hmem => (h _ hmem).1 rfl

/-! Numbers and colours are plain. -/

/-- The characters of numbers and colours. -/
def IsValueChar (c : Char) : Prop := c.isDigit = true ∨ c ∈ "-.nairgbf(,)".toList

instance (c : Char) : Decidable (IsValueChar c) := inferInstanceAs (Decidable (_ ∨ _))

/-- Text of such characters. -/
def IsValue (text : List Char) : Prop := ∀ c ∈ text, IsValueChar c

instance (text : List Char) : Decidable (IsValue text) := List.decidableBAll _ text

theorem isValue_append {a b : List Char} : IsValue (a ++ b) ↔ IsValue a ∧ IsValue b := by
  simp [IsValue, or_imp, forall_and]

theorem isValue_toDigits (m : Nat) : IsValue (Nat.toDigits 10 m) :=
  fun c hc => .inl ((isDigits_iff.mp (isDigits_toDigits m)).2 c hc)

theorem isValue_zeros (m : Nat) : IsValue (List.replicate m '0') := by
  intro c hc
  rw [(List.mem_replicate.mp hc).2]
  decide

theorem isValue_fixed (places : Nat) (x : Binary64) : IsValue (x.fixed places) := by
  cases x with
  | nan => rw [Binary64.fixed]; decide
  | infinite negative => cases negative <;> rw [Binary64.fixed] <;> decide
  | finite negative units bounded =>
    rw [Binary64.fixed, isValue_append]
    refine ⟨by cases negative <;> decide, ?_⟩
    have hpadded : ∀ m k, IsValue (List.replicate m '0' ++ Nat.toDigits 10 k) :=
      fun m k => isValue_append.mpr ⟨isValue_zeros m, isValue_toDigits k⟩
    unfold Binary64.withPlaces
    dsimp only
    split
    · exact hpadded _ _
    · refine isValue_append.mpr ⟨fun c hc => hpadded _ _ c (List.mem_of_mem_take hc), fun c hc => ?_⟩
      rcases List.mem_cons.mp hc with rfl | hc
      · decide
      · exact hpadded _ _ c (List.mem_of_mem_drop hc)

theorem isValue_compact (places : Nat) (x : Binary64) : IsValue (x.compact places).toList := by
  rw [Binary64.compact, String.toList_ofList]
  generalize (if x.isZero then Binary64.zero false else x) = y
  rw [Binary64.trimPlaces]
  split
  · intro c hc
    have htrimmed := (List.dropWhile_sublist _).subset (List.mem_reverse.mp hc)
    exact isValue_fixed places y c (List.mem_reverse.mp ((List.dropWhile_sublist _).subset htrimmed))
  · exact isValue_fixed places y

theorem isValue_toString (i : Int) : IsValue (toString i).toList := by
  rw [toList_toString_int, isValue_append]
  refine ⟨?_, isValue_toDigits _⟩
  split <;> decide

theorem isValue_colorText (c : Color) : IsValue (colorText c).toList := by
  have htext : (colorText c).toList = "rgb(".toList ++ (toString c.red).toList ++ ",".toList ++
      (toString c.green).toList ++ ",".toList ++ (toString c.blue).toList ++ ")".toList := by
    rw [colorText]
    simp only [String.toList_append]
    rfl
  simp only [htext, isValue_append, isValue_toString, and_true]
  decide

theorem IsValueChar.isPlain {c : Char} (h : IsValueChar c) : IsPlain c := by
  rcases h with h | h
  · constructor <;> rintro rfl <;> cases h
  · constructor <;> rintro rfl <;> exact absurd h (by decide)

theorem plain_compact (places : Nat) (x : Binary64) : Plain (x.compact places).toList :=
  fun c hc => (isValue_compact places x c hc).isPlain

theorem plain_colorText (c : Color) : Plain (colorText c).toList :=
  fun d hd => (isValue_colorText c d hd).isPlain

theorem plain_attr {key value : String} :
    Plain (attr key value).toList ↔ Plain key.toList ∧ Plain value.toList := by
  have hopen : Plain "=\"".toList := by decide
  have hclose : Plain "\"".toList := by decide
  simp only [attr, String.toList_append, plain_append, hopen, hclose, and_true]

theorem plain_intercalate {texts : List String} (h : ∀ text ∈ texts, Plain text.toList) :
    Plain (" ".intercalate texts).toList := by
  have hblank : " ".toList = [' '] := rfl
  rw [String.toList_intercalate, hblank]
  intro c hc
  rcases Text.mem_intercalate hc with rfl | ⟨word, hword, hc⟩
  · decide
  · obtain ⟨text, htext, rfl⟩ := List.mem_map.mp hword
    exact h text htext c hc

/-! Offsets along a text. -/

theorem offsets_cons (pattern : List Char) (c : Char) (text : List Char) :
    offsets pattern (c :: text) =
      (if pattern.isPrefixOf (c :: text) then [0] else []) ++ (offsets pattern text).map (· + 1) := by
  have hlater : (fun i => pattern.isPrefixOf ((c :: text).drop i)) ∘ Nat.succ =
      fun i => pattern.isPrefixOf (text.drop i) := rfl
  rw [offsets, List.length_cons, List.range_succ_eq_map, List.filter_cons, List.filter_map, hlater,
    List.drop_zero, offsets]
  split
  · rfl
  · rfl

/-- No element begins in a piece of text without an opening bracket. -/
theorem offsets_append (hpiece : '<' ∉ piece) (rest : List Char) :
    offsets ('<' :: name) (piece ++ rest) =
      (offsets ('<' :: name) rest).map (· + piece.length) := by
  induction piece with
  | nil => simp
  | cons c piece ih =>
    have hc : '<' ≠ c := fun heq => hpiece (heq ▸ List.mem_cons_self)
    have hno : List.isPrefixOf ('<' :: name) (c :: (piece ++ rest)) = false := by
      simp [List.isPrefixOf, hc]
    rw [List.cons_append, offsets_cons, hno, ih fun hmem => hpiece (List.mem_cons_of_mem _ hmem)]
    simp [Function.comp_def, Nat.add_assoc]

/-- A piece of text in which no element of a name begins, whatever follows. -/
def Silent (name piece : List Char) : Prop :=
  ∀ rest, offsets ('<' :: name) (piece ++ rest) =
    (offsets ('<' :: name) rest).map (· + piece.length)

theorem silent_of_not_mem (h : '<' ∉ piece) : Silent name piece := offsets_append h

theorem Silent.append {a b : List Char} (ha : Silent name a) (hb : Silent name b) :
    Silent name (a ++ b) := by
  intro rest
  rw [List.append_assoc, ha, hb, List.map_map]
  simp [Function.comp_def, Nat.add_assoc, Nat.add_comm b.length]

theorem Silent.flatMap {α : Type} {pieces : List α} {text : α → List Char}
    (h : ∀ piece ∈ pieces, Silent name (text piece)) : Silent name (pieces.flatMap text) := by
  induction pieces with
  | nil => exact silent_of_not_mem nofun
  | cons piece pieces ih =>
    rw [List.flatMap_cons]
    exact (h piece List.mem_cons_self).append (ih fun p hp => h p (List.mem_cons_of_mem _ hp))

/-- Behind an opening bracket an element of its name begins, and none before the next bracket. -/
theorem offsets_bracket (hbody : '<' ∉ body) (rest : List Char) :
    offsets ('<' :: name) ('<' :: body ++ rest) =
      (if name.isPrefixOf (body ++ rest) then [0] else []) ++
        (offsets ('<' :: name) rest).map (· + (body.length + 1)) := by
  have hstart : List.isPrefixOf ('<' :: name) ('<' :: (body ++ rest)) =
      name.isPrefixOf (body ++ rest) := by
    simp [List.isPrefixOf]
  rw [List.cons_append, offsets_cons, hstart, offsets_append hbody, List.map_map]
  rfl

/-- The first letter behind a bracket tells names apart. -/
theorem silent_bracket (h : n ≠ d) (hbody : '<' ∉ d :: body) :
    Silent (n :: letters) ('<' :: d :: body) := by
  intro rest
  have hno : List.isPrefixOf (n :: letters) (d :: body ++ rest) = false := by
    simp [List.isPrefixOf, h]
  rw [offsets_bracket hbody, hno]
  rfl

/-! Elements and where they begin. -/

/-- The text of an element: a name and plain text in brackets, after two blanks. -/
def IsElement (name text : List Char) : Prop :=
  ∃ body, text = ' ' :: ' ' :: '<' :: body ++ ['>'] ∧ name <+: body ∧ Plain body

theorem IsElement.offsets {text : List Char} (h : IsElement name text) (rest : List Char) :
    offsets ('<' :: name) (text ++ '\n' :: rest) =
      2 :: (offsets ('<' :: name) rest).map (· + (text.length + 1)) := by
  obtain ⟨body, rfl, hname, hplain⟩ := h
  have hbody : '<' ∉ body ++ ['>', '\n'] := by simp [hplain.not_mem]
  have hstart : name.isPrefixOf (body ++ ['>', '\n'] ++ rest) = true :=
    List.isPrefixOf_iff_prefix.mpr (hname.trans ⟨['>', '\n'] ++ rest, by simp⟩)
  have hsplit : ' ' :: ' ' :: '<' :: body ++ ['>'] ++ '\n' :: rest =
      [' ', ' '] ++ ('<' :: (body ++ ['>', '\n']) ++ rest) := by simp
  rw [hsplit, offsets_append (by decide), offsets_bracket hbody, hstart]
  simp [Function.comp_def, Nat.add_assoc]

theorem IsElement.silent {text : List Char} (h : IsElement (d :: before) text) (hne : n ≠ d) :
    Silent (n :: letters) (text ++ ['\n']) := by
  obtain ⟨body, rfl, ⟨after, rfl⟩, hplain⟩ := h
  have hsplit : ' ' :: ' ' :: '<' :: (d :: before ++ after) ++ ['>'] ++ ['\n'] =
      [' ', ' '] ++ '<' :: d :: (before ++ after ++ ['>', '\n']) := by simp
  rw [hsplit]
  refine (silent_of_not_mem (by decide)).append (silent_bracket hne ?_)
  have hbody := hplain.not_mem
  simp only [List.cons_append, List.mem_cons, List.mem_append, not_or] at hbody ⊢
  simp [hbody]

theorem throughBracket_append (hbody : '>' ∉ body) (rest : List Char) :
    throughBracket (body ++ '>' :: rest) = body ++ ['>'] := by
  induction body with
  | nil => rfl
  | cons c body ih =>
    have hc : c ≠ '>' := fun heq => hbody (heq ▸ List.mem_cons_self)
    rw [List.cons_append, throughBracket, if_neg hc,
      ih fun hmem => hbody (List.mem_cons_of_mem _ hmem)]
    rfl

theorem IsElement.throughBracket {text : List Char} (h : IsElement name text) (rest : List Char) :
    throughBracket (text ++ rest) = text := by
  obtain ⟨body, rfl, -, hplain⟩ := h
  have hbody : '>' ∉ ' ' :: ' ' :: '<' :: body := by
    simp only [List.mem_cons, not_or]
    exact ⟨by decide, by decide, by decide, fun hmem => (hplain _ hmem).2 rfl⟩
  rw [List.append_assoc]
  exact throughBracket_append hbody rest

/-- Each element of a sequence is found at its own place, and nothing else is. -/
theorem offsets_elements {texts : List (List Char)} {tail : List Char}
    (h : ∀ text ∈ texts, IsElement name text) (htail : offsets ('<' :: name) tail = []) :
    ∃ starts : List Nat, offsets ('<' :: name) (texts.flatMap (· ++ ['\n']) ++ tail) = starts.map (· + 2) ∧
      starts.map (fun i => throughBracket ((texts.flatMap (· ++ ['\n']) ++ tail).drop i)) =
        texts := by
  induction texts with
  | nil => exact ⟨[], htail, rfl⟩
  | cons text texts ih =>
    obtain ⟨starts, hoffsets, hfound⟩ := ih fun t ht => h t (List.mem_cons_of_mem _ ht)
    have htext : IsElement name text := h text List.mem_cons_self
    have hsplit : (text :: texts).flatMap (· ++ ['\n']) ++ tail =
        text ++ '\n' :: (texts.flatMap (· ++ ['\n']) ++ tail) := by simp
    rw [hsplit, htext.offsets, hoffsets]
    -- the first element is at the front, and those of the rest are later by its line
    generalize texts.flatMap (· ++ ['\n']) ++ tail = rest at hfound
    have hlater : ∀ i, (text ++ '\n' :: rest).drop (i + (text.length + 1)) = rest.drop i := by
      intro i
      rw [Nat.add_comm, ← List.drop_drop, List.append_cons]
      simp
    have hshift : (starts.map (· + 2)).map (· + (text.length + 1)) =
        (starts.map (· + (text.length + 1))).map (· + 2) := by
      rw [List.map_map, List.map_map]
      exact List.map_congr_left fun i _ => Nat.add_right_comm i 2 (text.length + 1)
    refine ⟨0 :: starts.map (· + (text.length + 1)), congrArg (2 :: ·) hshift, ?_⟩
    rw [List.map_cons, List.map_map, List.drop_zero, htext.throughBracket]
    refine congrArg (text :: ·) (Eq.trans ?_ hfound)
    exact List.map_congr_left fun i _ => congrArg _ (hlater i)

end

/-! The lines of a document. -/

/-- Attributes between the name of an element and its end make an element of that name. -/
theorem isElement_of_attributes {name : List Char} (hname : Plain name) {attributes : List String}
    (h : ∀ pair ∈ attributes, Plain pair.toList) :
    IsElement name
      (' ' :: ' ' :: '<' :: name ++ ' ' :: (" ".intercalate attributes).toList ++ " />".toList) := by
  refine ⟨name ++ ' ' :: (" ".intercalate attributes).toList ++ [' ', '/'], by simp,
    ⟨' ' :: (" ".intercalate attributes).toList ++ [' ', '/'], by simp⟩, ?_⟩
  have hattributes : Plain (' ' :: (" ".intercalate attributes).toList) :=
    List.forall_mem_cons.mpr ⟨by decide, plain_intercalate h⟩
  exact plain_append.mpr ⟨plain_append.mpr ⟨hname, hattributes⟩, by decide⟩

theorem isElement_background (places : Nat) (width height : Binary64) (color : Color) :
    IsElement "rect".toList ((Element.background width height color).text places).toList := by
  rw [Element.text, String.toList_append, String.toList_append]
  refine isElement_of_attributes (by decide) ?_
  simp +decide only [List.forall_mem_cons, plain_attr, plain_compact, plain_colorText]

theorem isElement_stroke (places : Nat) (segment : Segment) :
    IsElement "line".toList ((Element.stroke segment).text places).toList := by
  rw [Element.text, String.toList_append, String.toList_append]
  refine isElement_of_attributes (by decide) ?_
  simp +decide only [List.forall_mem_cons, plain_attr, plain_compact, plain_colorText]

namespace Document

/-- The text of a document: its lines with their ends. -/
theorem toList_text (d : Document) : d.text.toList = d.lines.flatMap (·.toList ++ ['\n']) := by
  have hline : ∀ line : String, (line ++ "\n").toList = line.toList ++ ['\n'] :=
    fun line => String.toList_append
  simp only [text, String.toList_join, List.flatMap_map, hline]

/-- The lines before the elements of a document. -/
def headLines (d : Document) : List String :=
  "<?xml version=\"1.0\" encoding=\"UTF-8\"?>" :: d.opening :: d.titleLines

theorem lines_eq (d : Document) :
    d.lines = d.headLines ++ d.elements.map (Element.text d.places) ++ ["</svg>"] := rfl

/-- The text before the elements of a document. -/
def head (d : Document) : List Char := d.headLines.flatMap (·.toList ++ ['\n'])

/-- The opening is plain text in brackets, and begins with its name. -/
theorem exists_opening (d : Document) :
    ∃ body, d.opening.toList = '<' :: 's' :: body ++ ['>'] ∧ Plain body := by
  have hpairs : ∀ pair ∈ [attr "xmlns" "http://www.w3.org/2000/svg", attr "version" "1.1",
      attr "width" (d.size.1.compact d.places), attr "height" (d.size.2.compact d.places),
      attr "viewBox" ("0 0 " ++ (d.size.1.compact d.places) ++ " " ++ (d.size.2.compact d.places))],
      Plain pair.toList := by
    simp +decide only [List.forall_mem_cons, plain_attr, plain_compact, String.toList_append,
      plain_append]
  rw [opening, String.toList_append, String.toList_append]
  exact ⟨"vg ".toList ++ _, rfl, plain_append.mpr ⟨by decide, plain_intercalate hpairs⟩⟩

theorem silent_title (d : Document) {n : Char} {letters : List Char} (ht : n ≠ 't') (hend : n ≠ '/') :
    Silent (n :: letters) (d.titleLines.flatMap (·.toList ++ ['\n'])) := by
  unfold titleLines
  split
  · exact silent_of_not_mem nofun
  · rename_i title _
    split
    · exact silent_of_not_mem nofun
    · have htitle : '<' ∉ (escape title).toList := not_mem_escape (.inl rfl)
      have hsplit : ["  <title>" ++ escape title ++ "</title>"].flatMap (·.toList ++ ['\n']) =
          [' ', ' '] ++ '<' :: 't' :: ("itle>".toList ++ (escape title).toList) ++
            '<' :: '/' :: "title>\n".toList := by
        simp
      rw [hsplit]
      refine ((silent_of_not_mem (by decide)).append (silent_bracket ht ?_)).append
        (silent_bracket hend (by decide))
      simp [htitle]

/-- The text before the title of a document. -/
def front (d : Document) : List Char :=
  ("<?xml version=\"1.0\" encoding=\"UTF-8\"?>".toList ++ ['\n']) ++ (d.opening.toList ++ ['\n'])

theorem head_eq (d : Document) :
    d.head = d.front ++ d.titleLines.flatMap (·.toList ++ ['\n']) := by
  have hhead : d.head = ("<?xml version=\"1.0\" encoding=\"UTF-8\"?>".toList ++ ['\n']) ++
      ((d.opening.toList ++ ['\n']) ++ d.titleLines.flatMap (·.toList ++ ['\n'])) := rfl
  exact hhead.trans (List.append_assoc _ _ _).symm

/-- The lines before the title begin none. -/
theorem silent_front (d : Document) {n : Char} {letters : List Char} (hmark : n ≠ '?') (hs : n ≠ 's') :
    Silent (n :: letters) d.front := by
  obtain ⟨body, hopening, hplain⟩ := d.exists_opening
  have hfirst : Silent (n :: letters)
      ("<?xml version=\"1.0\" encoding=\"UTF-8\"?>".toList ++ ['\n']) := by
    have hxml : "<?xml version=\"1.0\" encoding=\"UTF-8\"?>".toList ++ ['\n'] =
        '<' :: '?' :: ("xml version=\"1.0\" encoding=\"UTF-8\"?>".toList ++ ['\n']) := rfl
    rw [hxml]
    exact silent_bracket hmark (by decide)
  have hsecond : Silent (n :: letters) (d.opening.toList ++ ['\n']) := by
    rw [hopening]
    exact silent_bracket hs (by simp [hplain.not_mem])
  exact hfirst.append hsecond

/-- The lines before the elements begin none. -/
theorem silent_head (d : Document) {n : Char} {letters : List Char} (hn : n ∉ ['?', 's', 't', '/']) :
    Silent (n :: letters) d.head := by
  simp only [List.mem_cons, List.not_mem_nil, or_false, not_or] at hn
  obtain ⟨hmark, hs, ht, hend⟩ := hn
  rw [head_eq]
  exact (d.silent_front hmark hs).append (d.silent_title ht hend)

/-- The last line begins no element. -/
theorem offsets_last {n : Char} {letters : List Char} (hn : n ≠ '/') :
    offsets ('<' :: n :: letters) "</svg>\n".toList = [] := by
  have hlast : Silent (n :: letters) ('<' :: '/' :: "svg>\n".toList) :=
    silent_bracket hn (by decide)
  have hnil : offsets ('<' :: n :: letters) [] = [] := rfl
  have hempty := hlast []
  rw [hnil, List.append_nil] at hempty
  exact hempty

section
variable {d : Document} {width height : Binary64} {color : Color} {segments : List Segment}

/-- The texts of strokes, one after another. -/
def strokeTexts (places : Nat) (segments : List Segment) : List (List Char) :=
  segments.map fun segment => ((Element.stroke segment).text places).toList

/-- The text of a drawing: the head, the background, the strokes and the last line. -/
theorem toList_text_of_drawing
    (h : d.elements = .background width height color :: segments.map .stroke) :
    d.text.toList = d.head ++ (((Element.background width height color).text d.places).toList ++
      '\n' :: ((strokeTexts d.places segments).flatMap (· ++ ['\n']) ++ "</svg>\n".toList)) := by
  rw [toList_text, lines_eq, h, List.map_cons, List.flatMap_append, List.flatMap_append,
    List.flatMap_cons, List.map_map, List.flatMap_map, strokeTexts, List.flatMap_map, ← head]
  simp only [List.append_assoc]
  rfl

/-- **The elements of a drawing.** The background is found once, before every stroke, and the
strokes are found in their order with their texts. -/
theorem offsets_of_drawing
    (h : d.elements = .background width height color :: segments.map .stroke) :
    ∃ rect, offsets "<rect".toList d.text.toList = [rect] ∧
      (∀ line ∈ offsets "<line".toList d.text.toList, rect < line) ∧
      (offsets "<line".toList d.text.toList).map (elementAt d.text.toList) =
        strokeTexts d.places segments := by
  have hbackground := isElement_background d.places width height color
  have hstrokes : ∀ text ∈ strokeTexts d.places segments, IsElement "line".toList text := by
    intro text hmem
    obtain ⟨segment, -, rfl⟩ := List.mem_map.mp hmem
    exact isElement_stroke d.places segment
  rw [toList_text_of_drawing h]
  generalize ((Element.background width height color).text d.places).toList = first at hbackground ⊢
  generalize strokeTexts d.places segments = texts at hstrokes ⊢
  obtain ⟨starts, hoffsets, hfound⟩ := offsets_elements hstrokes (offsets_last (by decide))
  have hnone : offsets "<rect".toList (texts.flatMap (· ++ ['\n']) ++ "</svg>\n".toList) = [] := by
    have hsilent : Silent "rect".toList (texts.flatMap (· ++ ['\n'])) :=
      Silent.flatMap fun text ht => (hstrokes text ht).silent (by decide)
    rw [show "<rect".toList = '<' :: "rect".toList from rfl, hsilent]
    exact congrArg _ (offsets_last (by decide))
  generalize texts.flatMap (· ++ ['\n']) ++ "</svg>\n".toList = rest at *
  have hrect : offsets "<rect".toList (d.head ++ (first ++ '\n' :: rest)) = [2 + d.head.length] := by
    have hhead : Silent "rect".toList d.head := d.silent_head (by decide)
    rw [show "<rect".toList = '<' :: "rect".toList from rfl] at hnone ⊢
    rw [hhead, hbackground.offsets, hnone]
    rfl
  have hline : offsets "<line".toList (d.head ++ (first ++ '\n' :: rest)) =
      starts.map fun i => i + 2 + (first.length + 1) + d.head.length := by
    have hhead : Silent "line".toList d.head := d.silent_head (by decide)
    have hfirst : Silent "line".toList (first ++ ['\n']) := hbackground.silent (by decide)
    rw [show "<line".toList = '<' :: "line".toList from rfl, List.append_cons, hhead, hfirst, hoffsets,
      List.map_map, List.map_map, List.length_append]
    rfl
  have hdrop : ∀ i, (d.head ++ (first ++ '\n' :: rest)).drop
      (i + 2 + (first.length + 1) + d.head.length - 2) = rest.drop i := by
    intro i
    have hoffset : i + 2 + (first.length + 1) + d.head.length - 2 =
        (d.head ++ (first ++ ['\n'])).length + i := by
      simp only [List.length_append, List.length_singleton]
      omega
    rw [List.append_cons first, ← List.append_assoc, hoffset, ← List.drop_drop, List.drop_left]
  rw [hrect, hline]
  refine ⟨_, rfl, ?_, ?_⟩
  · intro line hmem
    obtain ⟨i, -, rfl⟩ := List.mem_map.mp hmem
    omega
  · rw [List.map_map, ← hfound]
    refine List.map_congr_left fun i _ => ?_
    rw [Function.comp_apply, elementAt, hdrop]

end

end Document

end Turtle.Svg
