import Turtle.Proofs.Markup

/-! The attributes of a document, read out of its text. A tag goes from an opening bracket to the next
closing one. In a tag, what stands between two quotation marks is a value, and the name of the value
stands before it. `HasTags` says which tags a piece of text brings, whatever follows it. The
attributes that are read are those that the document was written with: a title brings tags, but
none with a value. -/

namespace Turtle.Svg

/-- The tags of a text: from each opening bracket on, up to the first closing one. -/
def tags (text : List Char) : List (List Char) :=
  (offsets ['<'] text).map fun i => throughBracket (text.drop i)

/-- The word at the end of a text, without the sign behind it. -/
def nameBefore (text : List Char) : List Char := ((text.reverse.drop 1).takeWhile (· != ' ')).reverse

/-- Every second piece is a value, which has its name before it. -/
def pairs : List (List Char) → List (List Char × List Char)
  | before :: value :: rest => (nameBefore before, value) :: pairs rest
  | _ => []

/-- The names and values in a tag. -/
def attributes (tag : List Char) : List (List Char × List Char) := pairs (tag.splitOn '"')

/-- The names and values in a text. -/
def attributesOf (text : List Char) : List (List Char × List Char) := (tags text).flatMap attributes

section
variable {piece a b body found more rest : List Char} {tagsA tagsB : List (List Char)}

/-- The tags of a piece of text, whatever follows it. -/
def HasTags (piece : List Char) (found : List (List Char)) : Prop :=
  ∀ rest, tags (piece ++ rest) = found ++ tags rest

theorem HasTags.append (ha : HasTags a tagsA) (hb : HasTags b tagsB) :
    HasTags (a ++ b) (tagsA ++ tagsB) := by
  intro rest
  rw [List.append_assoc, ha, hb, List.append_assoc]

theorem HasTags.flatMap {α : Type} {pieces : List α} {text : α → List Char} {found : α → List (List Char)}
    (h : ∀ piece ∈ pieces, HasTags (text piece) (found piece)) :
    HasTags (pieces.flatMap text) (pieces.flatMap found) := by
  induction pieces with
  | nil => exact fun rest => rfl
  | cons piece pieces ih =>
    rw [List.flatMap_cons, List.flatMap_cons]
    exact (h piece List.mem_cons_self).append (ih fun p hp => h p (List.mem_cons_of_mem _ hp))

theorem hasTags_of_not_mem (h : '<' ∉ piece) : HasTags piece [] := by
  intro rest
  rw [tags, offsets_append h, List.map_map]
  refine List.map_congr_left fun i _ => ?_
  rw [Function.comp_apply, Nat.add_comm, ← List.drop_drop, List.drop_left]

/-- Plain text in brackets is one tag. -/
theorem hasTags_bracket (h : Plain body) : HasTags ('<' :: body ++ ['>']) ['<' :: body ++ ['>']] := by
  intro rest
  have hbody : '<' ∉ body ++ ['>'] := by simp [h.not_mem]
  have hclose : '>' ∉ '<' :: body := by
    simp only [List.mem_cons, not_or]
    exact ⟨by decide, fun hmem => (h _ hmem).2 rfl⟩
  have hfirst : throughBracket ('<' :: body ++ ['>'] ++ rest) = '<' :: body ++ ['>'] := by
    rw [List.append_assoc]
    exact throughBracket_append hclose rest
  have hlater : (offsets ['<'] rest).map
      ((fun i => throughBracket (('<' :: (body ++ ['>']) ++ rest).drop i)) ∘
        (· + ((body ++ ['>']).length + 1))) = tags rest := by
    refine List.map_congr_left fun i _ => ?_
    rw [Function.comp_apply, Nat.add_comm, ← List.length_cons, ← List.drop_drop, List.drop_left]
  rw [tags, List.cons_append, offsets_bracket hbody, List.map_append, List.map_map, hlater]
  exact congrArg (· :: tags rest) hfirst

theorem IsElement.hasTags {name text : List Char} (h : IsElement name text) :
    HasTags text [text.drop 2] := by
  obtain ⟨body, rfl, -, hplain⟩ := h
  have hblanks : HasTags [' ', ' '] [] := hasTags_of_not_mem (by decide)
  exact hblanks.append (hasTags_bracket hplain)

/-! Names and values in a tag. -/

theorem nameBefore_append (front : List Char) {name : List Char} (h : ' ' ∉ name) :
    nameBefore (front ++ ' ' :: name ++ ['=']) = name := by
  have hsplit : (front ++ ' ' :: name ++ ['=']).reverse.drop 1 = name.reverse ++ ' ' :: front.reverse := by
    simp
  have hname : ∀ c ∈ name.reverse, (c != ' ') = true := by
    intro c hc
    rw [bne_iff_ne]
    rintro rfl
    exact h (List.mem_reverse.mp hc)
  rw [nameBefore, hsplit, List.takeWhile_append_of_pos hname, List.takeWhile_cons_of_neg (by decide),
    List.append_nil, List.reverse_reverse]

/-- A name and a value, as an attribute has them. -/
def IsPair (pair : String × String) : Prop :=
  (' ' ∉ pair.1.toList ∧ '"' ∉ pair.1.toList) ∧ '"' ∉ pair.2.toList

/-- Attributes, each behind a blank. -/
def spaced (given : List (String × String)) : List Char :=
  given.flatMap fun pair => ' ' :: (attr pair.1 pair.2).toList

/-- Names and values as they are read. -/
def characters (given : List (String × String)) : List (List Char × List Char) :=
  given.map fun pair => (pair.1.toList, pair.2.toList)

theorem attributes_of_not_mem (h : '"' ∉ a) : attributes a = [] := by
  rw [attributes, List.splitOn_eq_singleton h]
  rfl

theorem attributes_attr {pair : String × String} (hpair : IsPair pair) (hfront : '"' ∉ a) (rest : List Char) :
    attributes (a ++ ' ' :: (attr pair.1 pair.2).toList ++ rest) =
      (pair.1.toList, pair.2.toList) :: attributes rest := by
  obtain ⟨⟨hblank, hname⟩, hvalue⟩ := hpair
  have htext : a ++ ' ' :: (attr pair.1 pair.2).toList ++ rest =
      (a ++ ' ' :: pair.1.toList ++ ['=']) ++ '"' :: (pair.2.toList ++ '"' :: rest) := by
    simp [attr, String.toList_append]
  have hbefore : '"' ∉ a ++ ' ' :: pair.1.toList ++ ['='] := by simp [hfront, hname]
  rw [htext, attributes, List.splitOn_append_cons_self_of_not_mem hbefore,
    List.splitOn_append_cons_self_of_not_mem hvalue, pairs, nameBefore_append a hblank, attributes]

/-- Attributes between text without quotation marks are read as they were written. -/
theorem attributes_spaced {given : List (String × String)} (h : ∀ pair ∈ given, IsPair pair)
    (hfront : '"' ∉ a) (htail : '"' ∉ b) : attributes (a ++ spaced given ++ b) = characters given := by
  induction given generalizing a with
  | nil =>
    refine attributes_of_not_mem ?_
    simp [spaced, hfront, htail]
  | cons pair given ih =>
    have hrest := ih (fun p hp => h p (List.mem_cons_of_mem _ hp)) (a := []) nofun
    rw [List.nil_append] at hrest
    have htext : a ++ spaced (pair :: given) ++ b =
        a ++ ' ' :: (attr pair.1 pair.2).toList ++ (spaced given ++ b) := by
      simp [spaced]
    rw [htext, attributes_attr (h pair List.mem_cons_self) hfront, hrest]
    rfl

theorem spaced_eq {given : List (String × String)} (h : given ≠ []) :
    spaced given = ' ' :: (" ".intercalate (given.map fun pair => attr pair.1 pair.2)).toList := by
  have hblank : " ".toList = [' '] := rfl
  rw [String.toList_intercalate, hblank, List.map_map]
  induction given with
  | nil => exact absurd rfl h
  | cons pair given ih =>
    by_cases hnil : given = []
    · subst hnil
      simp [spaced]
    · have hmap : given.map (String.toList ∘ fun pair => attr pair.1 pair.2) ≠ [] := by simpa using hnil
      have hrest := ih hnil
      rw [List.map_cons, List.intercalate_cons_of_ne_nil hmap, spaced, List.flatMap_cons, ← spaced, hrest]
      simp

end

/-! The attributes of a document. -/

/-- Values are numbers and colours, which hold no quotation mark. -/
theorem not_mem_of_isValue {value : List Char} (h : IsValue value) : '"' ∉ value :=
  fun hmem => absurd (h _ hmem) (by decide)

theorem not_mem_compact (places : Nat) (x : Binary64) : '"' ∉ (x.compact places).toList :=
  not_mem_of_isValue (isValue_compact places x)

theorem not_mem_colorText (c : Color) : '"' ∉ (colorText c).toList :=
  not_mem_of_isValue (isValue_colorText c)

/-- The names and values of an element. -/
def Element.pairs (places : Nat) : Element → List (String × String)
  | .background width height color =>
    [("x", "0"), ("y", "0"), ("width", width.compact places), ("height", height.compact places),
      ("fill", colorText color)]
  | .stroke segment =>
    [("x1", segment.start.x.compact places), ("y1", segment.start.y.compact places),
      ("x2", segment.finish.x.compact places), ("y2", segment.finish.y.compact places),
      ("stroke", colorText segment.color), ("stroke-width", segment.width.compact places),
      ("stroke-linecap", "round")]

theorem Element.isPair (places : Nat) (element : Element) :
    ∀ pair ∈ element.pairs places, IsPair pair := by
  cases element with
  | background => simp +decide only [pairs, List.forall_mem_cons, IsPair, not_mem_compact, not_mem_colorText]
  | stroke => simp +decide only [pairs, List.forall_mem_cons, IsPair, not_mem_compact, not_mem_colorText]

theorem Element.attributes_text (places : Nat) (element : Element) :
    attributes ((element.text places).toList.drop 2) = characters (element.pairs places) := by
  have hne : element.pairs places ≠ [] := by cases element <;> exact List.cons_ne_nil _ _
  have htext : ∃ front, '"' ∉ front ∧
      (element.text places).toList.drop 2 = front ++ spaced (element.pairs places) ++ " />".toList := by
    rw [spaced_eq hne]
    cases element with
    | background =>
      refine ⟨"<rect".toList, by decide, ?_⟩
      rw [text, String.toList_append, String.toList_append]
      rfl
    | stroke =>
      refine ⟨"<line".toList, by decide, ?_⟩
      rw [text, String.toList_append, String.toList_append]
      rfl
  obtain ⟨front, hfront, htext⟩ := htext
  rw [htext]
  exact attributes_spaced (element.isPair places) hfront (by decide)

namespace Document

/-- The names and values of the opening of a document. -/
def openingPairs (d : Document) : List (String × String) :=
  let width := d.size.1.compact d.places
  let height := d.size.2.compact d.places
  [("xmlns", "http://www.w3.org/2000/svg"), ("version", "1.1"), ("width", width), ("height", height),
    ("viewBox", "0 0 " ++ width ++ " " ++ height)]

/-- The names and values in a document. -/
def pairs (d : Document) : List (String × String) :=
  [("version", "1.0"), ("encoding", "UTF-8")] ++ d.openingPairs ++
    d.elements.flatMap (Element.pairs d.places)

theorem attributes_opening (d : Document) :
    attributes d.opening.toList = characters d.openingPairs := by
  have hne : d.openingPairs ≠ [] := List.cons_ne_nil _ _
  have htext : d.opening.toList = "<svg".toList ++ spaced d.openingPairs ++ ">".toList := by
    rw [spaced_eq hne, opening, String.toList_append, String.toList_append]
    rfl
  have hpairs : ∀ pair ∈ d.openingPairs, IsPair pair := by
    simp +decide [openingPairs, IsPair, String.toList_append, not_mem_compact]
  rw [htext]
  exact attributes_spaced hpairs (by decide) (by decide)

theorem hasTags_line {line : List Char} {found : List (List Char)} (h : HasTags line found) :
    HasTags (line ++ ['\n']) found := by
  have hend : HasTags ['\n'] [] := hasTags_of_not_mem (by decide)
  have hline := h.append hend
  rwa [List.append_nil] at hline

/-- The opening is one tag. -/
theorem hasTags_opening (d : Document) : HasTags d.opening.toList [d.opening.toList] := by
  obtain ⟨body, hopening, hplain⟩ := d.exists_opening
  have hbody : Plain ('s' :: body) := List.forall_mem_cons.mpr ⟨by decide, hplain⟩
  rw [hopening]
  exact hasTags_bracket hbody

/-- The tags of a title hold no value. -/
theorem exists_title_tags (d : Document) :
    ∃ found, HasTags (d.titleLines.flatMap (·.toList ++ ['\n'])) found ∧ found.flatMap attributes = [] := by
  unfold titleLines
  split
  · exact ⟨[], hasTags_of_not_mem nofun, rfl⟩
  · rename_i title _
    split
    · exact ⟨[], hasTags_of_not_mem nofun, rfl⟩
    · have hblanks : HasTags "  ".toList [] := hasTags_of_not_mem (by decide)
      have hopen : HasTags "<title>".toList ["<title>".toList] := @hasTags_bracket "title".toList (by decide)
      have htitle : HasTags (escape title).toList [] := hasTags_of_not_mem (not_mem_escape (.inl rfl))
      have hclose : HasTags "</title>".toList ["</title>".toList] :=
        @hasTags_bracket "/title".toList (by decide)
      have hsplit : ["  <title>" ++ escape title ++ "</title>"].flatMap (·.toList ++ ['\n']) =
          "  ".toList ++ "<title>".toList ++ (escape title).toList ++ "</title>".toList ++ ['\n'] := by
        simp
      rw [hsplit]
      exact ⟨_, hasTags_line (((hblanks.append hopen).append htitle).append hclose), by decide⟩

/-- **The attributes of a document are those that it was written with.** -/
theorem attributesOf_text (d : Document) : attributesOf d.text.toList = characters d.pairs := by
  have hxml : HasTags "<?xml version=\"1.0\" encoding=\"UTF-8\"?>".toList
      ["<?xml version=\"1.0\" encoding=\"UTF-8\"?>".toList] :=
    @hasTags_bracket "?xml version=\"1.0\" encoding=\"UTF-8\"?".toList (by decide)
  have hlast : HasTags "</svg>".toList ["</svg>".toList] := @hasTags_bracket "/svg".toList (by decide)
  have helement : ∀ element ∈ d.elements, HasTags ((element.text d.places).toList ++ ['\n'])
      [(element.text d.places).toList.drop 2] := by
    intro element _
    cases element with
    | background width height color => exact hasTags_line (isElement_background _ _ _ _).hasTags
    | stroke segment => exact hasTags_line (isElement_stroke _ _).hasTags
  obtain ⟨titles, htitles, hnone⟩ := d.exists_title_tags
  have htext : d.text.toList = ("<?xml version=\"1.0\" encoding=\"UTF-8\"?>".toList ++ ['\n']) ++
      (d.opening.toList ++ ['\n']) ++ d.titleLines.flatMap (·.toList ++ ['\n']) ++
      d.elements.flatMap (fun element => (element.text d.places).toList ++ ['\n']) ++
      ("</svg>".toList ++ ['\n']) := by
    rw [toList_text, lines]
    simp [List.flatMap_map]
  have htags := ((((hasTags_line hxml).append (hasTags_line d.hasTags_opening)).append htitles).append
    (HasTags.flatMap helement)).append (hasTags_line hlast) []
  have hend : tags [] = [] := rfl
  rw [List.append_nil, ← htext, hend, List.append_nil] at htags
  have hfirst : attributes "<?xml version=\"1.0\" encoding=\"UTF-8\"?>".toList =
      characters [("version", "1.0"), ("encoding", "UTF-8")] := by decide
  have hnothing : attributes "</svg>".toList = [] := by decide
  have hpairs : characters d.pairs = characters [("version", "1.0"), ("encoding", "UTF-8")] ++
      characters d.openingPairs ++ d.elements.flatMap fun element => characters (element.pairs d.places) := by
    simp only [pairs, characters, List.map_append, List.map_flatMap]
  rw [attributesOf, htags, hpairs]
  simp only [List.flatMap_append, List.flatMap_singleton, List.flatMap_assoc, Element.attributes_text,
    attributes_opening, hnone, hfirst, hnothing, List.append_nil]

end Document

end Turtle.Svg
