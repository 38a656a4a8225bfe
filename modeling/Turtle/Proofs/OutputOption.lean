import Turtle.CommandLine.Invocation
import Turtle.Proofs.Stepwise

/-! Command lines without a file for their output. Where a command line names such a file, the
arguments that name it can be left out, and what remains is understood as the same task with
the same settings otherwise. The arguments are followed side by side with and without
them: they set nothing but the file, and no other argument is read in another way. -/

namespace Turtle.CommandLine

/-- Settings without a file for the output. -/
def Settings.printing (settings : Settings) : Settings := { settings with output := .unset }

/-- The same task without a file for its output. -/
def Invocation.printing (job : Invocation) : Invocation :=
  { job with settings := job.settings.printing }

def Found.printing (found : Found) : Found := { found with settings := found.settings.printing }

variable {task : Option Task} {forms : List Form} {form : Form} {settings changed : Settings}
  {text : String} {arguments fewer : List String} {item : Item} {items : List Item} {found : Found}

/-- An option that is not for the file sets the same without it. -/
theorem effect_printing {value : Option String} (hkey : form.key ≠ .output)
    (h : effect task settings form value = .ok changed) :
    effect task settings.printing form value = .ok changed.printing := by
  unfold effect at h ⊢
  cases hform : form.key with
  | help => rw [hform] at h; cases h
  | output => exact absurd hform hkey
  | verbose | config =>
    rw [hform] at h
    obtain rfl := Except.ok.inj h
    rfl
  | width | height =>
    rw [hform] at h
    dsimp only at h ⊢
    cases hnumber : numberOf task form value with
    | error e => rw [hnumber] at h; cases h
    | ok x =>
      rw [hnumber] at h
      obtain rfl := Except.ok.inj h
      rfl

/-- The option for the file sets nothing else. -/
theorem effect_output {value : Option String} (hkey : form.key = .output)
    (h : effect task settings form value = .ok changed) : changed.printing = settings.printing := by
  unfold effect at h
  rw [hkey] at h
  obtain rfl := Except.ok.inj h
  rfl

/-! Arguments that are left out, all of them before the end of the options. -/

inductive Prunes : List String → List String → Prop
  | all (arguments : List String) : Prunes arguments arguments
  | keep {text : String} {rest fewer : List String} (hsep : text ≠ "--") (h : Prunes rest fewer) :
      Prunes (text :: rest) (text :: fewer)
  | drop {text : String} {rest fewer : List String} (hsep : text ≠ "--") (h : Prunes rest fewer) :
      Prunes (text :: rest) fewer

theorem Prunes.sublist (h : Prunes arguments fewer) : fewer.Sublist arguments := by
  induction h with
  | all arguments => exact List.Sublist.refl arguments
  | keep hsep h ih => exact ih.cons_cons _
  | drop hsep h ih => exact ih.cons _

theorem mem_of_mem_spellings {pair : String × Form} (h : pair ∈ spellings forms) :
    pair.2 ∈ forms := by
  obtain ⟨known, hknown, hmem⟩ := List.mem_flatMap.mp h
  obtain ⟨_, -, rfl⟩ := List.mem_map.mp hmem
  exact hknown

theorem mem_of_lookup {spelling : String} (h : (spellings forms).lookup spelling = some form) :
    form ∈ forms := by
  obtain ⟨before, after, heq, -⟩ := List.lookup_eq_some_iff.mp h
  have hmem : (spelling, form) ∈ spellings forms := by simp [heq]
  exact mem_of_mem_spellings hmem

theorem mem_of_mem_candidates {chars : List Char} {found : Match}
    (h : found ∈ candidates forms chars) : found.form ∈ forms := by
  have hpick : ∀ (fits : String → Bool) (attached : Option (List Char)),
      found ∈ (spellings forms).filterMap (fun pair =>
        if fits pair.1 then some ⟨pair.2, pair.1, attached⟩ else none) → found.form ∈ forms := by
    intro fits attached hmem
    obtain ⟨pair, hpair, hfound⟩ := List.mem_filterMap.mp hmem
    simp only [Option.ite_none_right_eq_some, Option.some.injEq] at hfound
    obtain ⟨-, rfl⟩ := hfound
    exact mem_of_mem_spellings hpair
  unfold candidates at h
  split at h
  · exact hpick (fun spelling => (splitEquals _).1.isPrefixOf spelling.toList) (splitEquals _).2 h
  · exact hpick (fun spelling => spelling.toList = chars.take 2) (some (chars.drop 2))
      (by simpa using h)

/-- How an argument is classified: as an operand, or as an option that is known or not. -/
theorem classify_eq_ok (h : classify forms text = .ok item) :
    item = .operand text ∨ item = .option text none ∨
      ∃ found, item = .option text (some found) ∧ found.form ∈ forms := by
  unfold classify at h
  dsimp only at h
  split at h
  · exact .inl (Except.ok.inj h).symm
  · split at h
    · rename_i form hlookup
      exact .inr (.inr ⟨_, (Except.ok.inj h).symm, mem_of_lookup hlookup⟩)
    · split at h
      · exact .inl (Except.ok.inj h).symm
      · split at h
        · rename_i form hexact
          refine .inr (.inr ⟨_, (Except.ok.inj h).symm, ?_⟩)
          split at hexact
          · cases hexact
          · exact mem_of_lookup hexact
        · split at h
          · rename_i found hfound
            have hmem : found ∈ candidates forms text.toList := by rw [hfound]; simp
            exact .inr (.inr ⟨found, (Except.ok.inj h).symm, mem_of_mem_candidates hmem⟩)
          · cases h
          · split at h
            · exact .inl (Except.ok.inj h).symm
            · exact .inr (.inl (Except.ok.inj h).symm)

/-- An operand is the whole of its argument. -/
theorem operand_of_classify {value : String} (h : classify forms text = .ok (.operand value)) :
    value = text := by
  rcases classify_eq_ok h with heq | heq | ⟨m, heq, -⟩
  · exact Item.operand.inj heq
  · cases heq
  · cases heq

theorem classifyAll_cons (hsep : text ≠ "--") :
    classifyAll forms (text :: arguments) = .ok items ↔
      ∃ item rest, classify forms text = .ok item ∧ classifyAll forms arguments = .ok rest ∧
        items = item :: rest := by
  rw [classifyAll]
  · cases classify forms text with
    | error e => simp [bind, Except.bind]
    | ok item =>
      cases classifyAll forms arguments with
      | error e => simp [bind, Except.bind]
      | ok rest => simp [bind, Except.bind, pure, Except.pure, eq_comm]
  · exact hsep

/-- Fewer arguments are classified if the others are. -/
theorem Prunes.classified (h : Prunes arguments fewer)
    (hitems : classifyAll forms arguments = .ok items) :
    ∃ kept, classifyAll forms fewer = .ok kept := by
  induction h generalizing items with
  | all arguments => exact ⟨items, hitems⟩
  | keep hsep h ih =>
    obtain ⟨item, rest, hitem, hrest, rfl⟩ := (classifyAll_cons hsep).mp hitems
    obtain ⟨kept, hkept⟩ := ih hrest
    exact ⟨item :: kept, (classifyAll_cons hsep).mpr ⟨item, kept, hitem, hkept, rfl⟩⟩
  | drop hsep h ih =>
    obtain ⟨item, rest, hitem, hrest, rfl⟩ := (classifyAll_cons hsep).mp hitems
    exact ih hrest

/-- An option that takes a value stands alone in its argument. -/
theorem given_of_takesValue {found : Match} {all : List (Form × Given)}
    (hvalue : found.form.takesValue = true) (h : given forms found = .ok all) :
    ∃ value, all = [(found.form, value)] := by
  unfold given at h
  split at h
  · exact ⟨_, (Except.ok.inj h).symm⟩
  · rename_i attached hattached
    have hwith : ∀ chars, withValue found.form chars =
        .ok (found.form, if String.ofList chars = "--" then .blank else .value (String.ofList chars)) :=
      fun chars => by simp [withValue, hvalue]
    split at h
    · cases attached with
      | nil => exact ⟨_, (Except.ok.inj h).symm⟩
      | cons letter rest =>
        rw [unglue, if_pos hvalue, hwith] at h
        exact ⟨_, (Except.ok.inj h).symm⟩
    · rw [hwith] at h
      exact ⟨_, (Except.ok.inj h).symm⟩

/-- An option without a value comes first in its argument. -/
theorem given_of_flag {found : Match} {all : List (Form × Given)}
    (hflag : found.form.takesValue = false) (h : given forms found = .ok all) :
    ∃ rest, all = (found.form, .nothing) :: rest := by
  have halone : alone found.form = (found.form, .nothing) := by simp [alone, hflag]
  unfold given at h
  split at h
  · exact ⟨[], by rw [← Except.ok.inj h, halone]⟩
  · split at h
    · rename_i attached _ _
      cases attached with
      | nil => exact ⟨[], by rw [← Except.ok.inj h, halone]⟩
      | cons letter rest =>
        rw [unglue, if_neg (by simp [hflag])] at h
        split at h
        · cases h
        · rename_i inner _
          cases hrest : unglue forms rest inner with
          | error e => rw [hrest] at h; cases h
          | ok more =>
            rw [hrest] at h
            exact ⟨more, by rw [← Except.ok.inj h, halone]⟩
    · simp [withValue, hflag, bind, Except.bind] at h

theorem unglue_of_flags (hflags : ∀ form ∈ forms, form.takesValue = false) {letters : List Char}
    {all : List (Form × Given)} (hform : form ∈ forms) (h : unglue forms letters form = .ok all) :
    ∀ one ∈ all, one.1 ∈ forms ∧ one.2 = .nothing := by
  have halone : ∀ {form}, form ∈ forms → (alone form).1 ∈ forms ∧ (alone form).2 = .nothing := by
    intro form hmem
    exact ⟨hmem, by simp [alone, hflags form hmem]⟩
  induction letters generalizing form all with
  | nil =>
    obtain rfl := Except.ok.inj h
    intro one hone
    rw [List.mem_singleton.mp hone]
    exact halone hform
  | cons letter rest ih =>
    rw [unglue, if_neg (by simp [hflags form hform])] at h
    split at h
    · cases h
    · rename_i inner hlookup
      cases hrest : unglue forms rest inner with
      | error e => rw [hrest] at h; cases h
      | ok more =>
        rw [hrest] at h
        obtain rfl := Except.ok.inj h
        intro one hone
        rcases List.mem_cons.mp hone with rfl | hone
        · exact halone hform
        · exact ih (mem_of_lookup hlookup) hrest one hone

/-- Options without values take no argument. -/
theorem given_of_flags {found : Match} {all : List (Form × Given)}
    (hflags : ∀ form ∈ forms, form.takesValue = false) (hform : found.form ∈ forms)
    (h : given forms found = .ok all) : ∀ one ∈ all, one.1 ∈ forms ∧ one.2 = .nothing := by
  have hflag := hflags found.form hform
  unfold given at h
  split at h
  · have hnone : unglue forms [] found.form = .ok all := h
    exact unglue_of_flags hflags hform hnone
  · split at h
    · exact unglue_of_flags hflags hform h
    · simp [withValue, hflag, bind, Except.bind] at h

/-! The arguments of a task, followed with and without a file for the output. -/

/-- Where the operand is for arguments of which some are left out: an argument that is left out
does not come between the operand and the end of the options. -/
inductive Operand.Near : Operand → Operand → Prop
  | same (place : Operand) : Near place place
  | closer : Near .read .justRead

theorem Operand.Near.later {place near : Operand} (h : place.Near near) :
    place.later.Near near.later := by
  cases h with
  | same => exact .same _
  | closer => exact .same _

theorem Operand.Near.skip {place near : Operand} (h : place.Near near) : place.later.Near near := by
  cases h with
  | same => cases place <;> constructor
  | closer => exact .closer

/-- The option that still waits for its value when the file for the output is left out. -/
def keptOption (waiting : Option Form) : Option Form := waiting.filter (·.key != .output)

section
variable {t : Task} {place near : Operand} {waiting : Option Form}

theorem follow_waiting (text : String) :
    follow task (some form) place settings (.operand text :: items) = (do
      let settings ← effect task settings form (some text)
      follow task none place.later settings items) := by
  simp only [follow, Item.text]

theorem follow_missing (text : String) :
    follow (some t) none .missing settings (.operand text :: items) = do
      let found ← follow (some t) none .justRead settings items
      return { found with operand := [text] } := by
  simp [follow]

theorem follow_extra (hplace : place ≠ .missing) (text : String) :
    follow task none place settings (.operand text :: items) = do
      return (← follow task none place.later settings items).withExtra text := by
  cases place with
  | missing => exact absurd rfl hplace
  | justRead | read => simp only [follow]

theorem follow_unknown (text : String) :
    follow task none place settings (.option text none :: items) = do
      return (← follow task none place.later settings items).withExtra text := by
  simp only [follow]

theorem follow_known (text : String) (m : Match) :
    follow task none place settings (.option text (some m) :: items) = (do
      let given ← Problem.refuse task (given (formsOf task) m)
      requireNext task given items
      let (settings, waiting) ← effects task settings given
      follow task waiting place.later settings items) := by
  simp only [follow]

/-- Behind the end of the options no setting is changed. -/
theorem follow_operands {texts : List String}
    (h : follow (some t) none place settings (texts.map .operand) = .ok found) :
    found.settings = settings ∧ ∀ other, follow (some t) none place other (texts.map .operand) =
      .ok { found with settings := other } := by
  induction texts generalizing place found with
  | nil =>
    rw [List.map_nil, follow] at h
    obtain rfl := Except.ok.inj h
    exact ⟨rfl, fun other => by rw [List.map_nil, follow]⟩
  | cons text rest ih =>
    rw [List.map_cons] at h
    by_cases hplace : place = .missing
    · subst hplace
      rw [follow_missing] at h
      cases hrest : follow (some t) none .justRead settings (rest.map .operand) with
      | error e => rw [hrest] at h; cases h
      | ok more =>
        rw [hrest] at h
        obtain rfl := Except.ok.inj h
        obtain ⟨hsettings, hother⟩ := ih hrest
        refine ⟨hsettings, fun other => ?_⟩
        rw [List.map_cons, follow_missing, hother]
        rfl
    · rw [follow_extra hplace] at h
      cases hrest : follow (some t) none place.later settings (rest.map .operand) with
      | error e => rw [hrest] at h; cases h
      | ok more =>
        rw [hrest] at h
        obtain rfl := Except.ok.inj h
        obtain ⟨hsettings, hother⟩ := ih hrest
        refine ⟨hsettings, fun other => ?_⟩
        rw [List.map_cons, follow_extra hplace, hother]
        rfl

/-- What comes with an unrecognized argument is refused in the end. -/
theorem extras_withExtra (text : String) {rest : Except Refusal Found}
    (h : (do return (← rest).withExtra text) = Except.ok found) : found.extras ≠ [] := by
  cases rest with
  | error e => cases h
  | ok found =>
    obtain rfl := Except.ok.inj h
    simp [Found.withExtra]

/-- Behind the end of the options nothing is left out. -/
theorem follow_separator {texts : List String}
    (h : follow (some t) none place settings (.separator :: texts.map .operand) = .ok found)
    (hextras : found.extras = []) (hnear : place.Near near) :
    follow (some t) none near settings.printing (.separator :: texts.map .operand) =
      .ok found.printing := by
  have hread : follow (some t) none .read settings (.separator :: texts.map .operand) ≠ .ok found := by
    intro h
    simp only [follow] at h
    exact extras_withExtra "--" h hextras
  have hfound : ∀ {place}, follow (some t) none place settings (texts.map .operand) = .ok found →
      follow (some t) none place settings.printing (texts.map .operand) = .ok found.printing := by
    intro place h
    obtain ⟨hsettings, hother⟩ := follow_operands h
    rw [hother, Found.printing, hsettings]
  cases hnear with
  | closer => exact absurd h hread
  | same =>
    cases place with
    | read => exact absurd h hread
    | justRead =>
      simp only [follow] at h ⊢
      exact hfound h
    | missing =>
      cases texts with
      | nil =>
        simp only [List.map_nil, follow] at h
        have hrest : ∀ rest : Except Refusal Found,
            (do return (← rest).withExtra "--") = Except.ok found → found.extras ≠ [] :=
          fun _ => extras_withExtra "--"
        exact absurd hextras (hrest (.ok ⟨settings, [], []⟩) h)
      | cons text rest =>
        have hskip : ∀ s, follow (some t) none .missing s (.separator :: (text :: rest).map .operand) =
            follow (some t) none .missing s ((text :: rest).map .operand) := by
          intro s
          simp [follow]
        rw [hskip] at h ⊢
        exact hfound h

theorem refuse_eq_ok {α : Type} {x : Except Problem α} {a : α} :
    Problem.refuse task x = .ok a ↔ x = .ok a := by
  cases x <;> simp [Problem.refuse]

theorem follow_known_eq_ok {text : String} {m : Match} :
    follow task none place settings (.option text (some m) :: items) = .ok found ↔
      ∃ all next waiting, given (formsOf task) m = .ok all ∧ requireNext task all items = .ok () ∧
        effects task settings all = .ok (next, waiting) ∧
        follow task waiting place.later next items = .ok found := by
  rw [follow_known]
  simp only [bind_eq_ok, refuse_eq_ok]
  constructor
  · rintro ⟨all, hgiven, ⟨⟩, hnext, ⟨next, waiting⟩, heffects, hfollow⟩
    exact ⟨all, next, waiting, hgiven, hnext, heffects, hfollow⟩
  · rintro ⟨all, next, waiting, hgiven, hnext, heffects, hfollow⟩
    exact ⟨all, hgiven, (), hnext, (next, waiting), heffects, hfollow⟩

/-- One option that takes a value: it waits for the next argument, or it has its effect. -/
theorem effects_one {value : Given} {waiting : Option Form}
    (h : effects task settings [(form, value)] = .ok (changed, waiting)) :
    (value = .next ∧ changed = settings ∧ waiting = some form) ∨
      value ≠ .next ∧ waiting = none ∧ ∃ given, effect task settings form given = .ok changed ∧
        ∀ other after, effect task other form given = .ok after →
          effects task other [(form, value)] = .ok (after, none) := by
  cases value with
  | next =>
    obtain ⟨rfl, rfl⟩ := Prod.mk.inj (Except.ok.inj h)
    exact .inl ⟨rfl, rfl, rfl⟩
  | value text =>
    right
    cases heffect : effect task settings form (some text) with
    | error e =>
      simp [effects, heffect, bind, Except.bind] at h
    | ok after =>
      simp only [effects, heffect, bind, Except.bind, Except.ok.injEq, Prod.mk.injEq] at h
      obtain ⟨rfl, rfl⟩ := h
      exact ⟨nofun, rfl, some text, heffect, fun other after hother => by
        simp [effects, hother, bind, Except.bind]⟩
  | nothing | blank =>
    right
    cases heffect : effect task settings form none with
    | error e =>
      simp [effects, heffect, bind, Except.bind] at h
    | ok after =>
      simp only [effects, heffect, bind, Except.bind, Except.ok.injEq, Prod.mk.injEq] at h
      obtain ⟨rfl, rfl⟩ := h
      exact ⟨nofun, rfl, none, heffect, fun other after hother => by
        simp [effects, hother, bind, Except.bind]⟩

/-- A value that stands by itself is an operand. -/
theorem requireNext_next :
    requireNext task [(form, .next)] items = .ok () ↔ ∃ text rest, items = .operand text :: rest := by
  cases items with
  | nil => simp [requireNext]
  | cons item rest => cases item <;> simp [requireNext]

theorem requireNext_of_ne {value : Given} (h : value ≠ .next) :
    requireNext task [(form, value)] items = .ok () := by
  cases value with
  | next => exact absurd rfl h
  | nothing | blank | value => simp [requireNext]

/-- The options of a task take values, but for the one that asks for help. -/
theorem takesValue_of_mem_forms (t : Task) :
    ∀ form ∈ t.forms, form.takesValue = true ∨ form = helpForm := by
  cases t <;> decide

/-- Some of the arguments of a task, with the same option waiting unless it is for the file, lead
to what all of them lead to, without the file. -/
def FollowsWithout (t : Task) (arguments : List String) (waiting : Option Form) (near : Operand)
    (settings : Settings) (found : Found) : Prop :=
  ∃ fewer kept, Prunes arguments fewer ∧ classifyAll (formsOf (some t)) fewer = .ok kept ∧
    ((keptOption waiting).isSome → ∃ text rest, kept = .operand text :: rest) ∧
    follow (some t) (keptOption waiting) near settings.printing kept = .ok found.printing

/-- The value of an option is left out with the option. -/
theorem followsWithout_value {form : Form} (hsep : text ≠ "--")
    (hitem : classify (formsOf (some t)) text = .ok (.operand text))
    (heffect : effect (some t) settings form (some text) = .ok changed) (hnear : place.Near near)
    (h : ∀ near, place.later.Near near → FollowsWithout t arguments none near changed found) :
    FollowsWithout t (text :: arguments) (some form) near settings found := by
  by_cases hkey : form.key = .output
  · have hnone : keptOption (some form) = none := by simp [keptOption, Option.filter, hkey]
    obtain ⟨fewer, kept, hprunes, hkept, -, hfollow⟩ := h near hnear.skip
    rw [effect_output hkey heffect] at hfollow
    refine ⟨fewer, kept, .drop hsep hprunes, hkept, ?_⟩
    rw [hnone]
    exact ⟨nofun, hfollow⟩
  · have hsome : keptOption (some form) = some form := by simp [keptOption, Option.filter, hkey]
    obtain ⟨fewer, kept, hprunes, hkept, -, hfollow⟩ := h near.later hnear.later
    refine ⟨text :: fewer, .operand text :: kept, .keep hsep hprunes,
      (classifyAll_cons hsep).mpr ⟨_, _, hitem, hkept, rfl⟩, fun _ => ⟨_, _, rfl⟩, ?_⟩
    rw [hsome, follow_waiting, effect_printing hkey heffect]
    exact hfollow

theorem followsWithout_operand (hsep : text ≠ "--")
    (hitem : classify (formsOf (some t)) text = .ok (.operand text))
    (h : FollowsWithout t arguments none .justRead settings found) :
    FollowsWithout t (text :: arguments) none .missing settings { found with operand := [text] } := by
  obtain ⟨fewer, kept, hprunes, hkept, -, hfollow⟩ := h
  refine ⟨text :: fewer, .operand text :: kept, .keep hsep hprunes,
    (classifyAll_cons hsep).mpr ⟨_, _, hitem, hkept, rfl⟩, nofun, ?_⟩
  rw [keptOption, Option.filter_none] at hfollow ⊢
  rw [follow_missing, hfollow]
  rfl

/-- An option with a value: either it is for the file and is left out, or it is kept. -/
theorem followsWithout_known {m : Match} {value : Given} (hsep : text ≠ "--")
    (hitem : classify (formsOf (some t)) text = .ok (.option text (some m)))
    (hgiven : given (formsOf (some t)) m = .ok [(m.form, value)])
    (heffects : effects (some t) settings [(m.form, value)] = .ok (changed, waiting))
    (hnear : place.Near near)
    (h : ∀ near, place.later.Near near → FollowsWithout t arguments waiting near changed found) :
    FollowsWithout t (text :: arguments) none near settings found := by
  by_cases hkey : m.form.key = .output
  · obtain ⟨fewer, kept, hprunes, hkept, -, hfollow⟩ := h near hnear.skip
    refine ⟨fewer, kept, .drop hsep hprunes, hkept, nofun, ?_⟩
    rcases effects_one heffects with ⟨-, rfl, rfl⟩ | ⟨-, rfl, given, heffect, -⟩
    · have hnone : keptOption (some m.form) = none := by simp [keptOption, Option.filter, hkey]
      rw [hnone] at hfollow
      exact hfollow
    · rw [← effect_output hkey heffect]
      exact hfollow
  · obtain ⟨fewer, kept, hprunes, hkept, hwaits, hfollow⟩ := h near.later hnear.later
    refine ⟨text :: fewer, .option text (some m) :: kept, .keep hsep hprunes,
      (classifyAll_cons hsep).mpr ⟨_, _, hitem, hkept, rfl⟩, nofun, ?_⟩
    refine follow_known_eq_ok.mpr ?_
    rcases effects_one heffects with ⟨rfl, rfl, rfl⟩ | ⟨hvalue, rfl, given, heffect, hother⟩
    · have hsome : keptOption (some m.form) = some m.form := by simp [keptOption, hkey]
      rw [hsome] at hwaits hfollow
      exact ⟨_, _, _, hgiven, requireNext_next.mpr (hwaits rfl), rfl, hfollow⟩
    · exact ⟨_, _, _, hgiven, requireNext_of_ne hvalue,
        hother _ _ (effect_printing hkey heffect), hfollow⟩

/-- **The file left out.** The induction is on the arguments; an option that waits has an operand
before it, as was required where it was met. -/
theorem followsWithout (arguments : List String) : ∀ {items waiting place near settings found},
    classifyAll (formsOf (some t)) arguments = .ok items →
    follow (some t) waiting place settings items = .ok found →
    (waiting.isSome → ∃ text rest, items = .operand text :: rest) → found.extras = [] →
    place.Near near → FollowsWithout t arguments waiting near settings found := by
  induction arguments with
  | nil =>
    intro items waiting place near settings found hitems h hwaiting hextras hnear
    obtain rfl := Except.ok.inj hitems
    cases waiting with
    | some form =>
      obtain ⟨text, rest, heq⟩ := hwaiting rfl
      cases heq
    | none =>
      rw [follow] at h
      obtain rfl := Except.ok.inj h
      refine ⟨[], [], .all [], rfl, nofun, ?_⟩
      rw [keptOption, Option.filter_none, follow]
      rfl
  | cons text arguments ih =>
    intro items waiting place near settings found hitems h hwaiting hextras hnear
    by_cases hsep : text = "--"
    · subst hsep
      obtain rfl : .separator :: arguments.map .operand = items := Except.ok.inj hitems
      cases waiting with
      | some form =>
        obtain ⟨text, rest, heq⟩ := hwaiting rfl
        cases heq
      | none => exact ⟨_, _, .all _, hitems, nofun, follow_separator h hextras hnear⟩
    obtain ⟨item, rest, hitem, hrest, rfl⟩ := (classifyAll_cons hsep).mp hitems
    cases waiting with
    | some form =>
      obtain ⟨value, more, heq⟩ := hwaiting rfl
      obtain ⟨rfl, rfl⟩ := List.cons.inj heq
      obtain rfl : value = text := operand_of_classify hitem
      rw [follow_waiting] at h
      cases heffect : effect (some t) settings form (some value) with
      | error e =>
        rw [heffect] at h
        cases h
      | ok next =>
        rw [heffect] at h
        exact followsWithout_value hsep hitem heffect hnear fun near hnear =>
          ih hrest h nofun hextras hnear
    | none =>
      rcases classify_eq_ok hitem with rfl | rfl | ⟨m, rfl, hform⟩
      · by_cases hplace : place = .missing
        · subst hplace
          cases hnear
          rw [follow_missing] at h
          cases hfound : follow (some t) none .justRead settings rest with
          | error e =>
            rw [hfound] at h
            cases h
          | ok more =>
            rw [hfound] at h
            obtain rfl := Except.ok.inj h
            exact followsWithout_operand hsep hitem (ih hrest hfound nofun hextras (.same _))
        · rw [follow_extra hplace] at h
          exact absurd hextras (extras_withExtra text h)
      · rw [follow_unknown] at h
        exact absurd hextras (extras_withExtra text h)
      · obtain ⟨all, next, waiting, hgiven, hnext, heffects, hfollow⟩ := follow_known_eq_ok.mp h
        rcases takesValue_of_mem_forms t m.form hform with hvalue | hhelp
        · obtain ⟨value, rfl⟩ := given_of_takesValue hvalue hgiven
          have hwaits : waiting.isSome → ∃ text rest', rest = .operand text :: rest' := by
            rcases effects_one heffects with ⟨rfl, -, -⟩ | ⟨-, rfl, -⟩
            · exact fun _ => requireNext_next.mp hnext
            · exact nofun
          exact followsWithout_known hsep hitem hgiven heffects hnear fun near hnear =>
            ih hrest hfollow hwaits hextras hnear
        -- help ends the reading, so there is nothing that it has led to
        · obtain ⟨others, rfl⟩ := given_of_flag (by rw [hhelp]; rfl) hgiven
          rw [hhelp] at heffects
          cases heffects

end

/-! The arguments before the name of a task. -/

theorem classifyAll_texts (arguments : List String) : ∀ {items},
    classifyAll forms arguments = .ok items → items.map Item.text = arguments := by
  induction arguments with
  | nil =>
    intro items h
    obtain rfl := Except.ok.inj h
    rfl
  | cons text arguments ih =>
    intro items h
    by_cases hsep : text = "--"
    · subst hsep
      obtain rfl : .separator :: arguments.map .operand = items := Except.ok.inj h
      have htext : Item.text ∘ Item.operand = id := rfl
      rw [List.map_cons, List.map_map, htext, List.map_id]
      rfl
    · obtain ⟨item, rest, hitem, hrest, rfl⟩ := (classifyAll_cons hsep).mp h
      rw [List.map_cons, ih hrest]
      rcases classify_eq_ok hitem with rfl | rfl | ⟨m, rfl, -⟩ <;> rfl

theorem requireNext_of_nothing {all : List (Form × Given)} (h : ∀ one ∈ all, one.2 = .nothing) :
    requireNext task all items = .ok () := by
  unfold requireNext
  split
  · rfl
  · rename_i form hlast _
    exact absurd (h _ (List.mem_of_getLast? hlast)) nofun
  · rfl

/-- Options of the whole program take no argument, and none is for the file. -/
theorem effects_of_nothing {all : List (Form × Given)} {waiting : Option Form}
    (hall : ∀ one ∈ all, one.1 ∈ programForms ∧ one.2 = .nothing)
    (h : effects task settings all = .ok (changed, waiting)) :
    waiting = none ∧ changed.output = settings.output := by
  induction all generalizing settings with
  | nil =>
    obtain ⟨rfl, rfl⟩ := Prod.mk.inj (Except.ok.inj h)
    exact ⟨rfl, rfl⟩
  | cons one rest ih =>
    obtain ⟨form, value⟩ := one
    obtain ⟨hform, rfl⟩ : form ∈ programForms ∧ value = .nothing := hall _ List.mem_cons_self
    rw [effects] at h
    · cases heffect : effect task settings form none with
      | error e => rw [heffect] at h; cases h
      | ok next =>
        rw [heffect] at h
        obtain ⟨hwaiting, houtput⟩ := ih (fun one hone => hall one (List.mem_cons_of_mem _ hone)) h
        refine ⟨hwaiting, houtput.trans ?_⟩
        rcases List.mem_cons.mp hform with rfl | hform
        · cases heffect
        · obtain rfl := List.mem_singleton.mp hform
          obtain rfl := Except.ok.inj heffect
          rfl
    · exact nofun
    · exact nofun

theorem takesValue_of_mem_programForms : ∀ form ∈ programForms, form.takesValue = false := by
  decide

/-- The name of a task divides a command line: the arguments before it are read without a look at
those behind. -/
theorem exists_front {name : String} {rest : List String} (arguments : List String) :
    ∀ {items settings}, classifyAll programForms arguments = .ok items →
      follow none none .missing settings items = .ok found → found.extras = [] →
      found.operand = name :: rest → name ≠ "--" →
      found.settings.output = settings.output ∧ ∃ front behind, arguments = front ++ name :: rest ∧
        classifyAll programForms rest = .ok behind ∧
        ∀ fewer kept, classifyAll programForms fewer = .ok kept →
          ∃ all, classifyAll programForms (front ++ name :: fewer) = .ok all ∧
            follow none none .missing settings all = .ok { found with operand := name :: fewer } := by
  induction arguments with
  | nil =>
    intro items settings hitems h hextras hoperand hname
    obtain rfl := Except.ok.inj hitems
    obtain rfl := Except.ok.inj h
    cases hoperand
  | cons text arguments ih =>
    intro items settings hitems h hextras hoperand hname
    by_cases hsep : text = "--"
    · subst hsep
      obtain rfl : .separator :: arguments.map .operand = items := Except.ok.inj hitems
      cases arguments with
      | nil =>
        simp only [List.map_nil, follow] at h
        obtain rfl := Except.ok.inj h
        cases hoperand
      | cons text arguments =>
        simp only [List.map_cons, follow, Option.isNone_none, if_true] at h
        obtain rfl := Except.ok.inj h
        exact absurd (List.cons.inj hoperand).1.symm hname
    obtain ⟨item, behind, hitem, hbehind, rfl⟩ := (classifyAll_cons hsep).mp hitems
    rcases classify_eq_ok hitem with rfl | rfl | ⟨m, rfl, hform⟩
    · simp only [follow, Option.isNone_none, if_true] at h
      obtain rfl := Except.ok.inj h
      obtain ⟨rfl, rfl⟩ := List.cons.inj hoperand
      rw [classifyAll_texts arguments hbehind]
      refine ⟨rfl, [], behind, rfl, hbehind, fun fewer kept hkept => ?_⟩
      refine ⟨.operand text :: kept, (classifyAll_cons hsep).mpr ⟨_, _, hitem, hkept, rfl⟩, ?_⟩
      simp only [follow, Option.isNone_none, if_true, classifyAll_texts fewer hkept]
    · rw [follow_unknown] at h
      exact absurd hextras (extras_withExtra text h)
    · obtain ⟨all, next, waiting, hgiven, -, heffects, hfollow⟩ := follow_known_eq_ok.mp h
      have hall := given_of_flags takesValue_of_mem_programForms hform hgiven
      obtain ⟨rfl, houtput⟩ := effects_of_nothing hall heffects
      obtain ⟨hsettings, front, others, rfl, hothers, hfront⟩ :=
        ih hbehind hfollow hextras hoperand hname
      refine ⟨hsettings.trans houtput, text :: front, others, rfl, hothers, fun fewer kept hkept => ?_⟩
      obtain ⟨items, hitems, hfewer⟩ := hfront fewer kept hkept
      exact ⟨.option text (some m) :: items,
        (classifyAll_cons hsep).mpr ⟨_, _, hitem, hitems, rfl⟩,
        follow_known_eq_ok.mpr ⟨all, next, none, hgiven,
          requireNext_of_nothing fun one hone => (hall one hone).2, heffects, hfewer⟩⟩

theorem readArguments_eq_ok {task : Option Task} :
    readArguments task settings arguments = .ok found ↔
      ∃ items, classifyAll (formsOf task) arguments = .ok items ∧
        follow task none .missing settings items = .ok found := by
  unfold readArguments
  simp only [bind_eq_ok, refuse_eq_ok]

/-- What an understood command line consists of. -/
theorem ofArguments_eq_ok {job : Invocation} :
    Invocation.ofArguments arguments = .ok job ↔
      ∃ whole found name rest task input more,
        readArguments none .initial arguments = .ok whole ∧ whole.operand = name :: rest ∧
        Task.ofName? name = some task ∧ readArguments (some task) whole.settings rest = .ok found ∧
        found.operand = input :: more ∧ whole.extras = [] ∧ found.extras = [] ∧
        job = ⟨task, input, found.settings⟩ := by
  unfold Invocation.ofArguments
  rw [bind_eq_ok]
  constructor
  · rintro ⟨whole, hwhole, h⟩
    split at h
    · cases h
    rename_i name rest hname
    split at h
    · cases h
    rename_i task htask
    obtain ⟨found, hfound, h⟩ := bind_eq_ok.mp h
    split at h
    · cases h
    rename_i input more hinput
    dsimp only at h
    split at h
    · rename_i hextras
      obtain ⟨hwholeExtras, hextras⟩ := List.append_eq_nil_iff.mp (List.isEmpty_iff.mp hextras)
      exact ⟨whole, found, name, rest, task, input, more, hwhole, hname, htask, hfound, hinput,
        hwholeExtras, hextras, (Except.ok.inj h).symm⟩
    · cases h
  · rintro ⟨whole, found, name, rest, task, input, more, hwhole, hname, htask, hfound, hinput,
      hwholeExtras, hextras, rfl⟩
    refine ⟨whole, hwhole, ?_⟩
    rw [hname]
    dsimp only
    rw [htask]
    refine bind_eq_ok.mpr ⟨found, hfound, ?_⟩
    rw [hinput]
    dsimp only
    rw [hwholeExtras, hextras]
    rfl

/-- **The same command line without a file for its output.** -/
theorem exists_ofArguments_printing {job : Invocation}
    (h : Invocation.ofArguments arguments = .ok job) :
    ∃ fewer, fewer.Sublist arguments ∧ Invocation.ofArguments fewer = .ok job.printing := by
  obtain ⟨whole, found, name, rest, task, input, more, hwhole, hname, htask, hfound, hinput,
    hwholeExtras, hextras, rfl⟩ := ofArguments_eq_ok.mp h
  obtain ⟨items, hitems, hfollow⟩ := readArguments_eq_ok.mp hwhole
  have hsep : name ≠ "--" := by
    rintro rfl
    have hnone : Task.ofName? "--" = none := by decide
    rw [hnone] at htask
    cases htask
  obtain ⟨houtput, front, behind, rfl, hbehind, hfront⟩ :=
    exists_front arguments hitems hfollow hwholeExtras hname hsep
  obtain ⟨taskItems, htaskItems, htaskFollow⟩ := readArguments_eq_ok.mp hfound
  obtain ⟨fewer, kept, hprunes, hkept, -, hfewer⟩ :=
    followsWithout rest htaskItems htaskFollow nofun hextras (.same _)
  obtain ⟨others, hothers⟩ := hprunes.classified hbehind
  obtain ⟨all, hall, hwholeFewer⟩ := hfront fewer others hothers
  have hprinting : whole.settings.printing = whole.settings := by
    rw [Settings.printing, ← show whole.settings.output = .unset from houtput]
  rw [hprinting] at hfewer
  refine ⟨front ++ name :: fewer, (hprunes.sublist.cons_cons name).append_left front, ?_⟩
  exact ofArguments_eq_ok.mpr ⟨_, found.printing, name, fewer, task, input, more,
    readArguments_eq_ok.mpr ⟨all, hall, hwholeFewer⟩, rfl, htask,
    readArguments_eq_ok.mpr ⟨kept, hkept, hfewer⟩, hinput, hwholeExtras, hextras, rfl⟩

end Turtle.CommandLine
