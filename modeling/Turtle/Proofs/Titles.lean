import Turtle.Proofs.Markup

/-! Titles. An escaped text is what three replacements in a row make of the text, the one of ampersands
before the others. It has no angle brackets, its ampersands begin entities and nothing else, and
reading the entities from left to right gives the text back, also where the text looks like an entity
itself. Between the tags of its title a document therefore holds the escaped title and no other tag of
that name, whatever its elements are. -/

namespace Turtle.Svg

/-- A text in which a character is replaced wherever it stands. -/
def replaced (old : Char) (new text : List Char) : List Char :=
  text.flatMap fun c => if c = old then new else [c]

/-- The entities that stand for characters. -/
def entities : List (List Char) := ["&amp;".toList, "&lt;".toList, "&gt;".toList]

/-- A text with its entities read, once and from left to right. -/
def unescape : List Char → List Char
  | '&' :: 'a' :: 'm' :: 'p' :: ';' :: rest => '&' :: unescape rest
  | '&' :: 'l' :: 't' :: ';' :: rest => '<' :: unescape rest
  | '&' :: 'g' :: 't' :: ';' :: rest => '>' :: unescape rest
  | c :: rest => c :: unescape rest
  | [] => []

/-- How a character is written: three of them by an entity, and every other one by itself. -/
inductive Writes : Char → List Char → Prop
  | ampersand : Writes '&' "&amp;".toList
  | opening : Writes '<' "&lt;".toList
  | closing : Writes '>' "&gt;".toList
  | itself {c : Char} : c ≠ '&' → c ≠ '<' → c ≠ '>' → Writes c [c]

theorem writes_escapeChar (c : Char) : Writes c (escapeChar c) := by
  unfold escapeChar
  split
  · exact .ampersand
  · exact .opening
  · exact .closing
  · rename_i hamp hlt hgt
    exact .itself hamp hlt hgt

/-- Every ampersand of a text begins an entity. -/
def AmpersandsBegin (text : List Char) : Prop :=
  ∀ after, '&' :: after <:+ text → ∃ entity ∈ entities, entity <+: '&' :: after

theorem ampersandsBegin_nil : AmpersandsBegin [] := by
  intro after h
  cases List.suffix_nil.mp h

/-- Text without an ampersand may stand before any other. -/
theorem ampersandsBegin_append {piece text : List Char} (hpiece : '&' ∉ piece) (h : AmpersandsBegin text) :
    AmpersandsBegin (piece ++ text) := by
  induction piece with
  | nil => exact h
  | cons c piece ih =>
    intro after hafter
    rcases List.suffix_cons_iff.mp hafter with heq | hafter
    · exact absurd ((List.cons.inj heq).1 ▸ List.mem_cons_self) hpiece
    · exact ih (fun hmem => hpiece (List.mem_cons_of_mem _ hmem)) after hafter

theorem ampersandsBegin_entity (letters : List Char) {text : List Char} (hentity : '&' :: letters ∈ entities)
    (hletters : '&' ∉ letters) (h : AmpersandsBegin text) :
    AmpersandsBegin ('&' :: letters ++ text) := by
  intro after hafter
  rcases List.suffix_cons_iff.mp hafter with heq | hafter
  · exact ⟨'&' :: letters, hentity, heq ▸ List.prefix_append _ _⟩
  · exact ampersandsBegin_append hletters h after hafter

theorem ampersandsBegin_escape (text : String) : AmpersandsBegin (escape text).toList := by
  rw [escape, String.toList_ofList]
  induction text.toList with
  | nil => exact ampersandsBegin_nil
  | cons c rest ih =>
    have hwrites := writes_escapeChar c
    rw [List.flatMap_cons]
    generalize escapeChar c = written at hwrites
    cases hwrites with
    | ampersand => exact ampersandsBegin_entity "amp;".toList (by decide) (by decide) ih
    | opening => exact ampersandsBegin_entity "lt;".toList (by decide) (by decide) ih
    | closing => exact ampersandsBegin_entity "gt;".toList (by decide) (by decide) ih
    | itself hamp => exact ampersandsBegin_append (by simpa using hamp.symm) ih

/-- To escape is to replace three characters, one after another. -/
theorem toList_escape (text : String) :
    (escape text).toList = replaced '>' "&gt;".toList
      (replaced '<' "&lt;".toList (replaced '&' "&amp;".toList text.toList)) := by
  have happend : ∀ old new (a b : List Char),
      replaced old new (a ++ b) = replaced old new a ++ replaced old new b :=
    fun _ _ _ _ => List.flatMap_append
  rw [escape, String.toList_ofList]
  induction text.toList with
  | nil => rfl
  | cons c rest ih =>
    have hwrites := writes_escapeChar c
    rw [List.flatMap_cons, ih, ← List.singleton_append, happend, happend, happend]
    generalize escapeChar c = written at hwrites
    congr 1
    cases hwrites with
    | ampersand | opening | closing => decide
    | itself hamp hlt hgt => simp [replaced, hamp, hlt, hgt]

theorem unescape_cons {c : Char} (h : c ≠ '&') (rest : List Char) :
    unescape (c :: rest) = c :: unescape rest := by
  rw [unescape]
  all_goals exact fun _ hc => absurd hc h

/-- Reading the entities undoes the escaping. -/
theorem unescape_escape (text : String) : unescape (escape text).toList = text.toList := by
  rw [escape, String.toList_ofList]
  induction text.toList with
  | nil => rfl
  | cons c rest ih =>
    have hwrites := writes_escapeChar c
    rw [List.flatMap_cons]
    generalize escapeChar c = written at hwrites
    cases hwrites with
    | ampersand | opening | closing => exact congrArg _ ih
    | itself hamp =>
      rw [List.singleton_append, unescape_cons hamp, ih]

theorem escape_injective : Function.Injective escape := by
  intro a b h
  have hread := congrArg (fun text : String => unescape text.toList) h
  simp only [unescape_escape] at hread
  exact String.toList_inj.mp hread

namespace Document

/-- The text behind the title of a document. -/
def behind (d : Document) : List Char :=
  d.elements.flatMap (fun element => (element.text d.places).toList ++ ['\n']) ++ "</svg>\n".toList

variable {d : Document} {title : String}

/-- The text of a document with a title. -/
theorem toList_text_of_title (h : d.title = some title) (hne : title ≠ "") :
    d.text.toList = d.front ++ ([' ', ' '] ++ ('<' :: ("title>".toList ++ (escape title).toList) ++
      ('<' :: "/title>\n".toList ++ d.behind))) := by
  have hempty : ¬ title.isEmpty = true := by simpa using hne
  have htitle : d.titleLines = ["  <title>" ++ escape title ++ "</title>"] := by
    rw [titleLines, h]
    exact if_neg hempty
  rw [toList_text, lines_eq, List.flatMap_append, List.flatMap_append, ← head, head_eq, htitle, behind]
  simp [List.flatMap_map]

/-- The elements begin none but their own. -/
theorem silent_elements (d : Document) {n : Char} {letters : List Char} (hrect : n ≠ 'r')
    (hline : n ≠ 'l') : Silent (n :: letters)
      (d.elements.flatMap fun element => (element.text d.places).toList ++ ['\n']) := by
  refine Silent.flatMap fun element _ => ?_
  cases element with
  | background width height color => exact (isElement_background _ _ _ _).silent hrect
  | stroke segment => exact (isElement_stroke _ _).silent hline

/-- What begins with its own name between silent text and text that does not hold it is found once. -/
theorem offsets_once {name before body rest : List Char} (hbefore : Silent name before)
    (hbody : '<' ∉ name ++ body) (hrest : offsets ('<' :: name) rest = []) :
    offsets ('<' :: name) (before ++ ('<' :: (name ++ body) ++ rest)) = [before.length] := by
  have hstart : name.isPrefixOf (name ++ body ++ rest) = true := by
    rw [List.append_assoc]
    exact List.isPrefixOf_iff_prefix.mpr (List.prefix_append _ _)
  rw [hbefore, offsets_bracket hbody, hstart, hrest]
  simp

/-- Behind the title no other one begins or ends. -/
theorem offsets_behind (d : Document) {n : Char} {letters : List Char} (hrect : n ≠ 'r') (hline : n ≠ 'l')
    (hlast : offsets ('<' :: n :: letters) "</svg>\n".toList = []) :
    offsets ('<' :: n :: letters) d.behind = [] := by
  rw [behind, d.silent_elements hrect hline, hlast]
  rfl

/-- The tags of the title are found once each, around the escaped title. -/
theorem offsets_title (h : d.title = some title) (hne : title ≠ "") :
    ∃ start stop, offsets "<title>".toList d.text.toList = [start] ∧
      offsets "</title>".toList d.text.toList = [stop] ∧
      (d.text.toList.take stop).drop (start + "<title>".length) = (escape title).toList := by
  have hescaped : '<' ∉ (escape title).toList := not_mem_escape (.inl rfl)
  have hopening : '<' ∉ "title>".toList ++ (escape title).toList := by simp [hescaped]
  have hclosing : '<' ∉ "/title>".toList ++ ['\n'] := by decide
  have hbefore : ∀ {n letters}, n ≠ '?' → n ≠ 's' → Silent (n :: letters) (d.front ++ [' ', ' ']) :=
    fun hmark hs => (d.silent_front hmark hs).append (silent_of_not_mem (by decide))
  have htext := toList_text_of_title h hne
  rw [← List.append_assoc] at htext
  -- behind the first tag there is the last one, which has another name, and then no title
  have hstart : offsets ('<' :: "title>".toList) d.text.toList = [(d.front ++ [' ', ' ']).length] := by
    have hlater : offsets ('<' :: "title>".toList) ('<' :: "/title>\n".toList ++ d.behind) = [] := by
      have hsilent : Silent "title>".toList ('<' :: "/title>\n".toList) :=
        silent_bracket (by decide) (by decide)
      have hbehind : offsets ('<' :: "title>".toList) d.behind = [] :=
        d.offsets_behind (by decide) (by decide) (offsets_last (by decide))
      rw [hsilent, hbehind]
      rfl
    rw [htext]
    exact offsets_once (hbefore (by decide) (by decide)) hopening hlater
  have hstop : offsets ('<' :: "/title>".toList) d.text.toList =
      [(d.front ++ [' ', ' '] ++ '<' :: ("title>".toList ++ (escape title).toList)).length] := by
    have hsilent : Silent "/title>".toList
        (d.front ++ [' ', ' '] ++ '<' :: ("title>".toList ++ (escape title).toList)) :=
      (hbefore (by decide) (by decide)).append (silent_bracket (by decide) hopening)
    have hlater : offsets ('<' :: "/title>".toList) d.behind = [] :=
      d.offsets_behind (by decide) (by decide) (by decide)
    rw [htext, ← List.append_assoc]
    exact offsets_once hsilent hclosing hlater
  rw [show "<title>".toList = '<' :: "title>".toList from rfl,
    show "</title>".toList = '<' :: "/title>".toList from rfl]
  refine ⟨_, _, hstart, hstop, ?_⟩
  have hlength : "<title>".length = ('<' :: "title>".toList).length := rfl
  rw [htext, ← List.append_assoc, List.take_left, hlength, ← List.length_append, ← List.cons_append,
    ← List.append_assoc, List.drop_left]

end Document

/-- **Titles are kept and bring no markup.** To escape a text is to replace its ampersands and then its
angle brackets. What comes out has no angle bracket, every ampersand in it begins an entity, and
reading the entities gives back the text, so that no two texts are escaped alike. In a document with
a title, of whatever elements and with however many places, a title begins once and ends once, and
between its tags stands the escaped title. -/
theorem titles_are_kept (text : String) :
    (escape text).toList = replaced '>' "&gt;".toList
      (replaced '<' "&lt;".toList (replaced '&' "&amp;".toList text.toList)) ∧
    '<' ∉ (escape text).toList ∧ '>' ∉ (escape text).toList ∧
    (∀ before after, (escape text).toList = before ++ '&' :: after →
      ∃ entity ∈ entities, entity <+: '&' :: after) ∧
    unescape (escape text).toList = text.toList ∧
    (∀ other, escape other = escape text → other = text) ∧
    (text ≠ "" → ∀ places elements, ∃ document start stop,
      (⟨places, some text, elements⟩ : Document).text.toList = document ∧
      offsets "<title>".toList document = [start] ∧ offsets "</title>".toList document = [stop] ∧
      (document.take stop).drop (start + "<title>".length) = (escape text).toList) := by
  refine ⟨toList_escape text, not_mem_escape (.inl rfl), not_mem_escape (.inr rfl), ?_,
    unescape_escape text, fun other h => escape_injective h, ?_⟩
  · intro before after h
    exact ampersandsBegin_escape text after ⟨before, h.symm⟩
  · intro hne places elements
    obtain ⟨start, stop, hstart, hstop, hbetween⟩ :=
      Document.offsets_title (d := ⟨places, some text, elements⟩) rfl hne
    exact ⟨_, start, stop, rfl, hstart, hstop, hbetween⟩

/-- A title that looks like an entity, an end of a title and an entity that is broken off, in a document
of one background. -/
theorem titles_are_kept_markup :
    (escape "&lt;</title> &am").toList = "&amp;lt;&lt;/title&gt; &amp;am".toList ∧
    (∃ entity ∈ entities, entity <+: "&amp;am".toList) ∧
    unescape "&amp;lt;&lt;/title&gt; &amp;am".toList = "&lt;</title> &am".toList ∧
    ∃ document start stop,
      (⟨3, some "&lt;</title> &am", [.background (.ofNat 9) (.ofNat 9) .black]⟩ : Document).text.toList =
        document ∧
      offsets "<title>".toList document = [start] ∧ offsets "</title>".toList document = [stop] ∧
      (document.take stop).drop (start + "<title>".length) = "&amp;lt;&lt;/title&gt; &amp;am".toList := by
  obtain ⟨-, -, -, hampersands, hread, -, hdocument⟩ := titles_are_kept "&lt;</title> &am"
  have hescaped : (escape "&lt;</title> &am").toList = "&amp;lt;&lt;/title&gt; &amp;am".toList := by
    decide
  rw [hescaped] at hampersands hread hdocument
  exact ⟨hescaped, hampersands "&amp;lt;&lt;/title&gt; ".toList "amp;am".toList (by decide), hread,
    hdocument (by decide) 3 _⟩

end Turtle.Svg
