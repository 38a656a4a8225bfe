import Turtle.Proofs.Acceptance
import Turtle.Proofs.Rounding
import Turtle.Proofs.Unrolling

/-! Accepted programs run. What the grammar derives is well-formed, at every depth, and a
well-formed program has no command at which a run can stop. The invariant that a flat run
carries from step to step is that the style in use is the first one or a style that the
program sets. -/

namespace Turtle.Grammar
open Turtle.Number Command

theorem HexDigit.lt {c : Char} {n : Nat} (h : HexDigit c n) : n < 16 := by
  unfold HexDigit Color.hexValue? at h
  split at h
  · rename_i hd
    obtain ⟨-, h9⟩ := Char.isDigit_iff_toNat.mp hd
    have h9' : c.toNat ≤ 57 := h9
    obtain rfl := Option.some.inj h
    omega
  · split at h
    · rename_i hl
      have hf : c.toNat ≤ 102 := hl.2
      obtain rfl := Option.some.inj h
      omega
    · split at h
      · rename_i hl
        have hf : c.toNat ≤ 70 := hl.2
        obtain rfl := Option.some.inj h
        omega
      · cases h

theorem HexColor.isBytes {text : List Char} {color : Color} (h : HexColor text color) :
    color.IsBytes := by
  unfold Color.IsBytes largestChannel
  cases h with
  | one hd =>
    have := hd.lt
    dsimp only
    omega
  | three hr hg hb =>
    have := hr.lt
    have := hg.lt
    have := hb.lt
    dsimp only
    omega
  | six hr hr' hg hg' hb hb' =>
    have := hr.lt
    have := hr'.lt
    have := hg.lt
    have := hg'.lt
    have := hb.lt
    have := hb'.lt
    dsimp only
    omega

/-- A command without a body fits if the grammar derives it. -/
theorem Derives.fits {depth : Nat} {tokens : List Token} {command : Command}
    (h : Derives depth tokens command) : command.Fits := by
  cases h with
  | forward _ _ hn | block _ _ _ hn =>
    have := hn.2.2
    unfold Fits
    omega
  | turn | pen => trivial
  | size _ _ hw =>
    obtain ⟨_, _, _, hfin, hneg⟩ := hw
    exact ⟨hfin, hneg⟩
  | hexColor _ _ hx => exact hx.isBytes
  | byteColor _ _ hr _ hg _ hb =>
    have := hr.2.2
    have := hg.2.2
    have := hb.2.2
    unfold Fits Color.IsBytes
    dsimp only
    omega

/-- Every part of what the grammar derives fits, and the blocks inside are at most as many
as are left below the deepest one. -/
theorem fits_of_derivesAll (program : List Command) : ∀ depth tokens,
    DerivesAll depth tokens program →
      (∀ part ∈ partsAll program, part.Fits) ∧ nestingAll program ≤ deepestBlock - depth := by
  induction program using programInduction with
  | nil => simp
  | single command rest hb ih =>
    intro depth tokens h
    cases h with
    | cons hfirst hrest =>
      obtain ⟨hparts, hdeep⟩ := ih _ _ hrest
      rw [partsAll_cons, nestingAll_cons, parts_of_not_block hb, nesting_of_not_block hb]
      refine ⟨fun part hp => ?_, by omega⟩
      rcases List.mem_append.mp hp with hp | hp
      · rw [List.mem_singleton.mp hp]
        exact hfirst.fits
      · exact hparts part hp
  | block count body rest ihBody ih =>
    intro depth tokens h
    cases h with
    | cons hfirst hrest =>
      obtain ⟨hparts, hdeep⟩ := ih _ _ hrest
      have hfits := hfirst.fits
      cases hfirst with
      | block hdepth _ _ _ _ _ hall _ =>
        obtain ⟨hinside, hnest⟩ := ihBody _ _ hall
        rw [partsAll_cons, nestingAll_cons, parts_block, nesting_block]
        refine ⟨fun part hp => ?_, by omega⟩
        rcases List.mem_append.mp hp with hp | hp
        · rcases List.mem_cons.mp hp with rfl | hp
          · exact hfits
          · exact hinside part hp
        · exact hparts part hp

theorem DerivesProgram.derivesAll {tokens : List Token} {program : List Command}
    (h : DerivesProgram tokens program) : DerivesAll 0 tokens program := by
  induction h with
  | nil => exact .nil
  | cons hfirst _ _ ih => exact .cons hfirst ih

theorem DerivesProgram.wellFormed {tokens : List Token} {program : List Command}
    (h : DerivesProgram tokens program) : WellFormed program := by
  obtain ⟨hfits, hnested⟩ := fits_of_derivesAll program 0 tokens h.derivesAll
  exact ⟨hfits, hnested⟩

end Turtle.Grammar

namespace Turtle
open Command

theorem natAbs_unit_le (h : Heading) : h.unit.1.natAbs ≤ 1 ∧ h.unit.2.natAbs ≤ 1 := by
  cases h <;> decide

/-- Along each axis a distance within the limit has 53 bits at most. -/
theorem natAbs_mul_unit_le {distance : Int} (h : (Command.forward distance).Fits) (heading : Heading) :
    (distance * heading.unit.1).natAbs ≤ 2 ^ 53 ∧ (distance * heading.unit.2).natAbs ≤ 2 ^ 53 := by
  obtain ⟨hx, hy⟩ := natAbs_unit_le heading
  have hd : distance.natAbs ≤ 2 ^ 53 := by
    have hlow := h.1
    have hhigh := h.2
    unfold largestNatural at hhigh
    omega
  have hbound : ∀ unit : Int, unit.natAbs ≤ 1 → (distance * unit).natAbs ≤ 2 ^ 53 := by
    intro unit hu
    rw [Int.natAbs_mul]
    exact Nat.le_trans (Nat.mul_le_mul_left _ hu) (by omega)
  exact ⟨hbound _ hx, hbound _ hy⟩

/-- A distance within the limit is a displacement along every heading. -/
theorem displacement?_of_fits {distance : Int} (h : (Command.forward distance).Fits)
    (heading : Heading) : ∃ step, Cursor.displacement? heading distance = some step := by
  obtain ⟨hx, hy⟩ := natAbs_mul_unit_le h heading
  rw [Cursor.displacement?, Binary64.ofInt?_of_natAbs_le hx, Binary64.ofInt?_of_natAbs_le hy]
  exact ⟨_, rfl⟩

/-- A move draws nothing but one segment, from the point before it to the point behind it. -/
theorem apply_forward {distance : Int} {before : Cursor} {dx dy : Binary64}
    (h : Cursor.displacement? before.heading distance = some (dx, dy)) :
    ∃ figure, Cursor.apply (.forward distance) before =
        .ok figure { before with position := ⟨before.position.x + dx, before.position.y + dy⟩ } ∧
      ∀ segment ∈ Figure.segmentsAll figure.toList, segment = ⟨before.position,
        ⟨before.position.x + dx, before.position.y + dy⟩, before.width, before.color⟩ := by
  rw [Cursor.apply, Cursor.forward, h]
  refine ⟨_, rfl, fun segment hs => ?_⟩
  by_cases hpen : before.penDown = true
  · simpa [hpen, Figure.segmentsAll, Figure.segments] using hs
  · simp [hpen, Figure.segmentsAll] at hs

/-- **Run lemma.** If every command of a flat program succeeds on the cursors of an invariant,
keeps the invariant and draws only segments of a kind, then so does the whole run. -/
theorem flatRun_keeps (program : List Command) (cursor : Cursor) (kept : Cursor → Prop)
    (drawn : Segment → Prop)
    (hstep : ∀ command ∈ program, ∀ before, kept before →
      ∃ figure after, Cursor.apply command before = .ok figure after ∧ kept after ∧
        ∀ segment ∈ Figure.segmentsAll figure.toList, drawn segment)
    (hstart : kept cursor) :
    (flatRun program cursor).fault = none ∧ kept (flatRun program cursor).cursor ∧
      ∀ segment ∈ (flatRun program cursor).drawn, drawn segment := by
  induction program generalizing cursor with
  | nil => simp [flatRun, hstart]
  | cons command rest ih =>
    obtain ⟨figure, after, happly, hkept, hdrawn⟩ := hstep command (by simp) cursor hstart
    obtain ⟨hfault, hcursor, hrest⟩ := ih after (fun c hc => hstep c (by simp [hc])) hkept
    simp only [flatRun, happly]
    refine ⟨hfault, hcursor, fun segment hs => ?_⟩
    rcases List.mem_append.mp hs with hs | hs
    · exact hdrawn segment hs
    · exact hrest segment hs

/-- What the single parts of a program keep and draw, a run of the program keeps and draws. -/
theorem applyAll_keeps {program : List Command} (cursor : Cursor) (kept : Cursor → Prop)
    (drawn : Segment → Prop)
    (hstep : ∀ command ∈ partsAll program, command.isBlock = false → ∀ before, kept before →
      ∃ figure after, Cursor.apply command before = .ok figure after ∧ kept after ∧
        ∀ segment ∈ Figure.segmentsAll figure.toList, drawn segment)
    (hstart : kept cursor) :
    ∃ figures left, Cursor.applyAll program cursor = .ok figures left ∧ kept left ∧
      ∀ segment ∈ Figure.segmentsAll figures, drawn segment := by
  obtain ⟨hfault, hcursor, hdrawn⟩ := flatRun_keeps (unroll program) cursor kept drawn
    (fun command hc before hkept => by
      obtain ⟨hmem, hb⟩ := mem_partsAll_of_mem_unroll program hc
      exact hstep command hmem hb before hkept)
    hstart
  have hrun := mirrors_unroll program cursor
  cases hp : Cursor.applyAll program cursor with
  | error e left =>
    rw [hp] at hrun
    obtain ⟨drawn, hd⟩ := hrun
    simp [hd] at hfault
  | ok figures left =>
    simp only [hp, Matches] at hrun
    rw [hrun] at hcursor hdrawn
    exact ⟨figures, left, rfl, hcursor, hdrawn⟩

/-- A style is a cursor's own or one that a program sets. -/
def StyleFrom (program : List Command) (cursor : Cursor) (width : Binary64) (color : Color) :
    Prop :=
  (color = cursor.color ∨ .setColor color ∈ partsAll program) ∧
    (width = cursor.width ∨ .setSize width ∈ partsAll program)

/-- **Step lemma.** A part of a program that fits and has no body succeeds, and what it
leaves and draws has a style of the program. -/
theorem apply_keeps_style {program : List Command} {start before : Cursor} {command : Command}
    (hmem : command ∈ partsAll program) (hb : command.isBlock = false) (hfits : command.Fits)
    (hstyle : StyleFrom program start before.width before.color) :
    ∃ figure after, Cursor.apply command before = .ok figure after ∧
      StyleFrom program start after.width after.color ∧
      ∀ segment ∈ Figure.segmentsAll figure.toList,
        StyleFrom program start segment.width segment.color := by
  cases command with
  | forward distance =>
    obtain ⟨step, hd⟩ := displacement?_of_fits hfits before.heading
    obtain ⟨figure, happly, hdrawn⟩ := apply_forward hd
    refine ⟨figure, _, happly, hstyle, fun segment hs => ?_⟩
    rw [hdrawn segment hs]
    exact hstyle
  | turn | pen =>
    rw [Cursor.apply]
    exact ⟨none, _, rfl, hstyle, by simp [Figure.segmentsAll]⟩
  | setSize width =>
    rw [Cursor.apply]
    exact ⟨none, _, rfl, ⟨hstyle.1, .inr hmem⟩, by simp [Figure.segmentsAll]⟩
  | setColor color =>
    rw [Cursor.apply]
    exact ⟨none, _, rfl, ⟨.inr hmem, hstyle.2⟩, by simp [Figure.segmentsAll]⟩
  | block => simp [isBlock] at hb
  | blockEnd => exact hfits.elim

/-- A well-formed program runs to its end from every cursor, in styles of its own. -/
theorem applyAll_of_wellFormed {program : List Command} (h : WellFormed program)
    (cursor : Cursor) :
    ∃ figures left, Cursor.applyAll program cursor = .ok figures left ∧
      StyleFrom program cursor left.width left.color ∧
      ∀ segment ∈ Figure.segmentsAll figures,
        StyleFrom program cursor segment.width segment.color :=
  applyAll_keeps cursor (fun c => StyleFrom program cursor c.width c.color)
    (fun s => StyleFrom program cursor s.width s.color)
    (fun command hmem hb _ hstyle => apply_keeps_style hmem hb (h.fits command hmem) hstyle)
    ⟨.inl rfl, .inl rfl⟩

theorem StyleFrom.isBytes {program : List Command} {cursor : Cursor} {width : Binary64}
    {color : Color} (h : StyleFrom program cursor width color) (hw : WellFormed program)
    (hc : cursor.color.IsBytes) : color.IsBytes := by
  rcases h.1 with rfl | hmem
  · exact hc
  · exact hw.fits _ hmem

theorem StyleFrom.not_negative {program : List Command} {cursor : Cursor} {width : Binary64}
    {color : Color} (h : StyleFrom program cursor width color) (hw : WellFormed program)
    (hc : cursor.width.isNegative = false) : width.isNegative = false := by
  rcases h.2 with rfl | hmem
  · exact hc
  · exact (hw.fits _ hmem).2

/-- **What is accepted runs.** An accepted program is well-formed, so from every cursor it
runs to its end without a fault. Every segment has the colour and the width of the cursor or
of a command of the program. Colours of bytes stay colours of bytes, and a width that is
not below zero stays so. -/
theorem accepted_program_runs {text : String} {program : List Command}
    (h : Parse.program? text = .ok program) (cursor : Cursor) :
    WellFormed program ∧
    ∃ figures left, Cursor.applyAll program cursor = .ok figures left ∧
      (∀ segment ∈ Figure.segmentsAll figures,
        (segment.color = cursor.color ∨ .setColor segment.color ∈ partsAll program) ∧
        (segment.width = cursor.width ∨ .setSize segment.width ∈ partsAll program)) ∧
      (cursor.color.IsBytes → left.color.IsBytes ∧
        ∀ segment ∈ Figure.segmentsAll figures, segment.color.IsBytes) ∧
      (cursor.width.isNegative = false → left.width.isNegative = false ∧
        ∀ segment ∈ Figure.segmentsAll figures, segment.width.isNegative = false) := by
  have hw : WellFormed program := (Parse.program?_eq_ok.mp h).wellFormed
  obtain ⟨figures, left, hrun, hleft, hsegments⟩ := applyAll_of_wellFormed hw cursor
  refine ⟨hw, figures, left, hrun, hsegments, fun hc => ?_, fun hc => ?_⟩
  · exact ⟨hleft.isBytes hw hc, fun segment hs => (hsegments segment hs).isBytes hw hc⟩
  · exact ⟨hleft.not_negative hw hc, fun segment hs => (hsegments segment hs).not_negative hw hc⟩

/-- Nested blocks that set a colour and a width, from the middle of the standard canvas. -/
theorem accepted_program_runs_nested :
    Parse.program? "REPEAT 2 [\n F 5 REPEAT 3 [ S 0.5 ] C 0xf80 ]" =
        .ok [.block 2 [.forward 5, .block 3 [.setSize (Binary64.ofDecimal ⟨false, 5, -1⟩)],
          .setColor ⟨255, 136, 0⟩]] ∧
      ∃ figures left,
        Cursor.applyAll [.block 2 [.forward 5,
          .block 3 [.setSize (Binary64.ofDecimal ⟨false, 5, -1⟩)], .setColor ⟨255, 136, 0⟩]]
          Canvas.standard.cursor = .ok figures left ∧
        left.color.IsBytes ∧ ∀ segment ∈ Figure.segmentsAll figures, segment.color.IsBytes := by
  have h : Parse.program? "REPEAT 2 [\n F 5 REPEAT 3 [ S 0.5 ] C 0xf80 ]" =
      .ok [.block 2 [.forward 5, .block 3 [.setSize (Binary64.ofDecimal ⟨false, 5, -1⟩)],
        .setColor ⟨255, 136, 0⟩]] := by decide +kernel
  obtain ⟨-, figures, left, hrun, -, hbytes, -⟩ := accepted_program_runs h Canvas.standard.cursor
  exact ⟨h, figures, left, hrun, hbytes (by decide)⟩

end Turtle
