import DependencyAudit.Command
import DependencyAudit.Proofs.Runs
import Mathlib.Data.List.Basic

/-!
Requests for a report for programs. An option is written with its value attached or
apart, and options and switches come in any order; each item settles its own subject
and leaves the others alone, so the settings that are read do not depend on how the
items were written. Of the settings only the values of the options reach a report for
programs, and nothing else about the run reaches standard output.
-/

namespace DependencyAudit

namespace Arguments

/-- The switches of an audit. -/
def auditSwitches : List Switch := [.json, .all, .debug]

/-- What the arguments behind the subcommand are made of. -/
inductive Item where
  | attached (option : Valued) (value : String)
  | apart (option : Valued) (value : String)
  | switch (switch : Switch)
  deriving DecidableEq, Repr

namespace Item

/-- The arguments that an item is written as. -/
def written : Item → List String
  | attached option value => ["--" ++ option.name ++ "=" ++ value]
  | apart option value => ["--" ++ option.name, value]
  | switch s => ["--" ++ s.name]

/-- What an item settles. -/
def subject : Item → Valued ⊕ Switch
  | attached option _ => .inl option
  | apart option _ => .inl option
  | switch s => .inr s

/-- The value that an item gives to an option. -/
def valueFor? (option : Valued) : Item → Option String
  | attached option' value => if option' = option then some value else none
  | apart option' value => if option' = option then some value else none
  | switch _ => none

/-- A root is not empty, and a value that stands apart does not look like an option. -/
def Acceptable : Item → Prop
  | attached option value => ¬ (option = .root ∧ value = "")
  | apart option value =>
    ¬ (option = .root ∧ value = "") ∧ (value = "-" ∨ value.toList.head? ≠ some '-')
  | switch _ => True

/-- Takes the item in. -/
def apply (settings : Settings) : Item → Settings
  | attached option value => settings.setValue option value
  | apart option value => settings.setValue option value
  | switch s => settings.setOn s

end Item

/-- Nothing has been settled about the subject. -/
def Settings.Free (settings : Settings) : Valued ⊕ Switch → Prop
  | .inl option => settings.value? option = none
  | .inr s => settings.isOn s = false

/-! ### Single arguments -/

theorem Valued.exists_name (option : Valued) :
    ∃ c cs, option.name.toList = c :: cs ∧ '=' ∉ option.name.toList := by
  cases option <;> exact ⟨_, _, rfl, by decide⟩

theorem readOne_attached (switches : List Switch) (option : Valued) (value : String) :
    readOne switches ("--" ++ option.name ++ "=" ++ value) = .attached option value := by
  obtain ⟨c, cs, hname, hfree⟩ := option.exists_name
  have htext : ("--" ++ option.name ++ "=" ++ value).toList =
      '-' :: '-' :: c :: (cs ++ '=' :: value.toList) := by
    simp [hname]
  have hcut : Text.cutAtFirst '=' (c :: (cs ++ '=' :: value.toList)) =
      some (option.name.toList, value.toList) :=
    Text.cutAtFirst_eq_some_iff.mpr ⟨by rw [hname]; rfl, hfree⟩
  simp only [readOne, htext, hcut, String.ofList_toList]
  cases option <;> rfl

theorem readOne_apart (switches : List Switch) (option : Valued) :
    readOne switches ("--" ++ option.name) = .apart option := by
  cases option <;> rfl

theorem readOne_switch (s : Switch) :
    readOne auditSwitches ("--" ++ s.name) = .switch s := by
  cases s <;> rfl

theorem readOne_value (switches : List Switch) {value : String}
    (h : value = "-" ∨ value.toList.head? ≠ some '-') : readOne switches value = .plain := by
  rcases h with rfl | h
  · rfl
  · have hdash (cs : List Char) : value.toList ≠ '-' :: cs := fun htext => h (by rw [htext]; rfl)
    rw [readOne]
    split
    case h_6 => rfl
    all_goals exact absurd ‹_› (hdash _)

/-! ### Items one after the other -/

section Items

variable {settings settled : Settings} {pending : Option Pending} {item : Item}

theorem give_eq_ok {option : Valued} {value : String} (hfree : settled.Free (.inl option))
    (hvalue : ¬ (option = .root ∧ value = "")) :
    settled.give option value = .ok (settled.setValue option value) := by
  have hnone : settled.value? option = none := hfree
  simp [Settings.give, hnone, hvalue]

theorem turnOn_eq_ok {s : Switch} (hfree : settled.Free (.inr s)) :
    settled.turnOn s = .ok (settled.setOn s) := by
  have hoff : settled.isOn s = false := hfree
  simp [Settings.turnOn, hoff]

/-- An item that settles something new is read wherever it stands, once what was pending
before it is taken in; its own value may be pending afterwards. -/
theorem readFrom_written_append (hsettled : settle settings pending = .ok settled)
    (hfree : settled.Free item.subject) (hacceptable : item.Acceptable)
    (rest : List String) :
    ∃ settings' pending', settle settings' pending' = .ok (item.apply settled) ∧
      readFrom auditSwitches settings pending (item.written ++ rest) =
        readFrom auditSwitches settings' pending' rest := by
  cases item with
  | attached option value =>
      refine ⟨settled.setValue option value, none, rfl, ?_⟩
      simp only [Item.written, List.singleton_append, readFrom, readOne_attached, hsettled,
        Except.bind, give_eq_ok hfree hacceptable]
  | apart option value =>
      refine ⟨settled, some ⟨option, some value⟩, give_eq_ok hfree hacceptable.1, ?_⟩
      simp only [Item.written, List.cons_append, List.nil_append, readFrom, readOne_apart, hsettled,
        readOne_value auditSwitches hacceptable.2]
  | switch s =>
      refine ⟨settled.setOn s, none, rfl, ?_⟩
      simp only [Item.written, List.singleton_append, readFrom, readOne_switch, hsettled,
        Except.bind, turnOn_eq_ok hfree]

theorem value?_apply (settings : Settings) (item : Item) (option : Valued) :
    (item.apply settings).value? option = (item.valueFor? option).or (settings.value? option) := by
  cases item with
  | attached option' value => cases option' <;> cases option <;> rfl
  | apart option' value => cases option' <;> cases option <;> rfl
  | switch s => cases s <;> cases option <;> rfl

theorem isOn_apply (settings : Settings) (item : Item) (s : Switch) :
    (item.apply settings).isOn s = (decide (item = .switch s) || settings.isOn s) := by
  cases item with
  | attached option value => cases option <;> cases s <;> rfl
  | apart option value => cases option <;> cases s <;> rfl
  | switch s' => cases s' <;> cases s <;> rfl

theorem valueFor?_eq_none {option : Valued} (h : item.subject ≠ .inl option) :
    item.valueFor? option = none := by
  cases item with
  | attached option' value => exact if_neg fun heq => h (congrArg _ heq)
  | apart option' value => exact if_neg fun heq => h (congrArg _ heq)
  | switch s => rfl

theorem subject_eq_of_valueFor? {option : Valued} {value : String}
    (h : item.valueFor? option = some value) : item.subject = .inl option := by
  by_contra hsubject
  rw [valueFor?_eq_none hsubject] at h
  cases h

/-- An item leaves every other subject alone. -/
theorem Settings.Free.apply {subject : Valued ⊕ Switch} (h : settled.Free subject)
    (hsubject : item.subject ≠ subject) : (item.apply settled).Free subject := by
  cases subject with
  | inl option =>
      have hnone : settled.value? option = none := h
      rw [Settings.Free, value?_apply, valueFor?_eq_none hsubject, hnone]
      rfl
  | inr s =>
      have hoff : settled.isOn s = false := h
      have hne : item ≠ .switch s := fun heq => hsubject (by rw [heq]; rfl)
      rw [Settings.Free, isOn_apply, hoff, decide_eq_false hne]
      rfl

/-- Items that settle different things are taken in one after the other. -/
theorem readFrom_written {items : List Item} (hsettled : settle settings pending = .ok settled)
    (hnodup : (items.map Item.subject).Nodup)
    (hfree : ∀ item ∈ items, settled.Free item.subject)
    (hacceptable : ∀ item ∈ items, item.Acceptable) :
    readFrom auditSwitches settings pending (items.flatMap Item.written) =
      .ok (items.foldl Item.apply settled) := by
  -- what is pending can be taken in at any time, and later items settle something else
  induction items generalizing settings pending settled with
  | nil => rw [List.flatMap_nil, readFrom, hsettled, List.foldl_nil]
  | cons item items ih =>
      obtain ⟨hnew, hnodup⟩ := List.nodup_cons.mp hnodup
      obtain ⟨settings', pending', hsettled', hread⟩ :=
        readFrom_written_append hsettled (hfree item (by simp)) (hacceptable item (by simp))
          (items.flatMap Item.written)
      rw [List.flatMap_cons, hread, List.foldl_cons]
      refine ih hsettled' hnodup (fun other hother => ?_) fun other hother =>
        hacceptable other (by simp [hother])
      have hsubject : item.subject ≠ other.subject := fun heq =>
        hnew (heq ▸ List.mem_map_of_mem hother)
      exact (hfree other (by simp [hother])).apply hsubject

theorem isOn_foldl {items : List Item} {s : Switch}
    (h : .switch s ∈ items ∨ settled.isOn s = true) :
    (items.foldl Item.apply settled).isOn s = true := by
  induction items generalizing settled with
  | nil => simpa using h
  | cons item items ih =>
      apply ih
      rw [isOn_apply]
      rcases h with h | h
      · rcases List.mem_cons.mp h with rfl | h
        · simp
        · exact .inl h
      · simp [h]

/-- An option has the value that some item gives to it, and keeps its own otherwise. -/
theorem value?_foldl {items : List Item} {option : Valued} {given : Option String}
    (hnodup : (items.map Item.subject).Nodup)
    (hgiven : ∀ value, given = some value ↔ ∃ item ∈ items, item.valueFor? option = some value) :
    (items.foldl Item.apply settled).value? option = given.or (settled.value? option) := by
  induction items generalizing settled given with
  | nil =>
      have hnone : given = none := Option.eq_none_iff_forall_ne_some.mpr fun value h => by
        simpa using (hgiven value).mp h
      rw [hnone]
      rfl
  | cons item items ih =>
      obtain ⟨hnew, hnodup⟩ := List.nodup_cons.mp hnodup
      rw [List.foldl_cons]
      cases hvalue : item.valueFor? option with
      | some value =>
          -- no other item can give the option a value
          have hrest : ∀ other ∈ items, other.valueFor? option = none := fun other hother =>
            valueFor?_eq_none fun hsubject => hnew <| by
              rw [subject_eq_of_valueFor? hvalue, ← hsubject]
              exact List.mem_map_of_mem hother
          have hnothing (value : String) : none = some value ↔
              ∃ other ∈ items, other.valueFor? option = some value := by
            simp +contextual [hrest]
          have hsome : given = some value := (hgiven value).mpr ⟨item, by simp, hvalue⟩
          rw [ih hnodup hnothing, value?_apply, hvalue, hsome]
          rfl
      | none =>
          rw [ih hnodup fun value => by simpa [hvalue] using hgiven value, value?_apply, hvalue,
            Option.none_or]

end Items

end Arguments

/-! ### Requests -/

namespace Command

open Arguments

/-- The arguments ask for a report for programs, with these values for the options. The
subcommand and that switch are given; besides, each option that has a value, the switch
for all packages and the one for debugging are given at most once, in any order. -/
inductive AsksForJson (values : Valued → Option String) : List String → Prop
  | intro (debugFirst : Bool) (items : List Item)
      (json : .switch .json ∈ items)
      (once : (items.map Item.subject).Nodup)
      (debug_once : debugFirst = true → .switch .debug ∉ items)
      (given : ∀ option value,
        values option = some value ↔ ∃ item ∈ items, item.valueFor? option = some value)
      (acceptable : ∀ item ∈ items, item.Acceptable) :
      AsksForJson values
        ((if debugFirst then ["--debug"] else []) ++ subcommand :: items.flatMap Item.written)

/-- What is scanned if the options have these values. -/
def selectionFor (values : Valued → Option String) : Selection where
  directories := Selection.readList ((values .directory).getD Selection.defaultDirectories)
  extensions := Selection.readList ((values .extension).getD Selection.defaultExtensions)

/-- The audit that options with these values ask for. -/
def auditFor (tree : FileTree) (working : Location) (values : Valued → Option String) :
    Except Audit.Error Audit.Outcome :=
  Audit.run tree working ((values .root).map Path.mk) (selectionFor values)

theorem readRequest?_subcommand {arguments : List String} {settings : Settings} (debug : Bool)
    (h : Arguments.read auditSwitches arguments = .ok settings) :
    readRequest? debug (subcommand :: arguments) =
      some (.audit { settings with debug := settings.debug || debug }) := by
  have hread : Arguments.read [.json, .all, .debug] arguments = .ok settings := h
  rw [readRequest?, if_pos rfl, hread]

theorem readRequest?_written {arguments : List String} {settings : Settings} (debugFirst : Bool)
    (h : Arguments.read auditSwitches arguments = .ok settings) :
    readRequest? false ((if debugFirst then ["--debug"] else []) ++ subcommand :: arguments) =
      some (.audit { settings with debug := settings.debug || debugFirst }) := by
  cases debugFirst with
  | false => exact readRequest?_subcommand false h
  | true =>
      rw [if_pos rfl, List.singleton_append, readRequest?, if_neg (by decide),
        if_neg (by decide), if_neg (by decide), if_neg (by decide), if_pos (by decide)]
      exact readRequest?_subcommand true h

/-- The settings that a request for a report for programs is read as. -/
theorem AsksForJson.exists_settings {values : Valued → Option String} {arguments : List String}
    (h : AsksForJson values arguments) :
    ∃ settings : Settings, readRequest? false arguments = some (.audit settings) ∧
      settings.json = true ∧ ∀ option, settings.value? option = values option := by
  obtain ⟨debugFirst, items, json, once, -, given, acceptable⟩ := h
  have hfree : ∀ item ∈ items, Settings.initial.Free item.subject := by
    intro item _
    rcases item.subject with (_ | _ | _) | (_ | _ | _) <;> rfl
  have hsettled : settle .initial none = .ok .initial := rfl
  have hread : Arguments.read auditSwitches (items.flatMap Item.written) =
      .ok (items.foldl Item.apply .initial) :=
    readFrom_written hsettled once hfree acceptable
  have hjson : (items.foldl Item.apply .initial).isOn .json = true := isOn_foldl (.inl json)
  have hvalues (option : Valued) :
      (items.foldl Item.apply .initial).value? option = values option := by
    rw [value?_foldl once (given option)]
    cases option <;> exact Option.or_none
  refine ⟨_, readRequest?_written debugFirst hread, hjson, fun option => ?_⟩
  rw [← hvalues option]
  cases option <;> rfl

/-- How a run ends that is to report to programs. -/
def reported : Except Audit.Error Audit.Outcome → Outcome
  | .ok outcome => .json outcome.findings
  | .error error => .failed error

theorem AsksForJson.run_eq {values : Valued → Option String} {arguments : List String}
    (h : AsksForJson values arguments) (tree : FileTree) (working : Location) :
    run tree working arguments = reported (auditFor tree working values) := by
  obtain ⟨settings, hread, hjson, hvalues⟩ := h.exists_settings
  have hroot : settings.root = values .root := hvalues .root
  have hdirectory : settings.directory = values .directory := hvalues .directory
  have hextension : settings.extension = values .extension := hvalues .extension
  rw [run, hread]
  simp only [runAudit, selectionOf, hroot, hdirectory, hextension, hjson, if_true]
  rw [auditFor, selectionFor]
  cases Audit.run tree working ((values .root).map Path.mk) _ <;> rfl

/-- A report for programs depends on nothing but the audit. -/
theorem json_output_depends_on_audit (tree : FileTree) (working : Location)
    {values : Valued → Option String} {arguments : List String}
    (h : AsksForJson values arguments) :
    (∀ outcome, auditFor tree working values = .ok outcome →
      (run tree working arguments).exitCode = 0 ∧
        (∀ colour milliseconds threads,
          (run tree working arguments).output colour milliseconds threads =
            Report.json outcome.findings) ∧
        (∀ colour, (run tree working arguments).complaint? colour = none) ∧
        (run tree working arguments).logs = false) ∧
      (∀ error, auditFor tree working values = .error error →
        (run tree working arguments).exitCode = 1 ∧
          ∀ colour milliseconds threads,
            (run tree working arguments).output colour milliseconds threads = "") ∧
      ∀ other, AsksForJson values other →
        (run tree working other).exitCode = (run tree working arguments).exitCode ∧
          ∀ colour colour' milliseconds milliseconds' threads threads',
            (run tree working other).output colour' milliseconds' threads' =
              (run tree working arguments).output colour milliseconds threads := by
  have hrun := h.run_eq tree working
  refine ⟨fun outcome haudit => ?_, fun error haudit => ?_, fun other hother => ?_⟩
  · rw [hrun, haudit]
    exact ⟨rfl, fun _ _ _ => rfl, fun _ => rfl, rfl⟩
  · rw [hrun, haudit]
    exact ⟨rfl, fun _ _ _ => rfl⟩
  · rw [hrun, hother.run_eq tree working]
    refine ⟨rfl, fun _ _ _ _ _ _ => ?_⟩
    cases auditFor tree working values <;> rfl

/-- Values that look like other arguments. -/
def misleadingValues : Valued → Option String
  | .root => some "scan-deps"
  | .directory => some "--all=,lib"
  | .extension => some "-"

theorem asksForJson_apart :
    AsksForJson misleadingValues ["--debug", "scan-deps", "--directory=--all=,lib", "--all",
      "--extension", "-", "--json", "--root", "scan-deps"] := by
  refine AsksForJson.intro true [.attached .directory "--all=,lib", .switch .all,
    .apart .extension "-", .switch .json, .apart .root "scan-deps"] (by decide) (by decide)
    (by decide) (fun option value => ?_) ?_
  · cases option <;> simp [misleadingValues, Item.valueFor?]
  · simp [Item.Acceptable]

theorem asksForJson_attached :
    AsksForJson misleadingValues ["scan-deps", "--root=scan-deps", "--json", "--extension=-",
      "--directory=--all=,lib"] := by
  refine AsksForJson.intro false [.attached .root "scan-deps", .switch .json,
    .attached .extension "-", .attached .directory "--all=,lib"] (by decide) (by decide)
    (by decide) (fun option value => ?_) ?_
  · cases option <;> simp [misleadingValues, Item.valueFor?]
  · simp [Item.Acceptable]

theorem json_output_depends_on_audit_misleading :
    let tree := FileTree.ofFiles [("/scan-deps/package.json", "\x7b\x7d".toUTF8)]
    let apart := ["--debug", "scan-deps", "--directory=--all=,lib", "--all", "--extension", "-",
      "--json", "--root", "scan-deps"]
    let attached := ["scan-deps", "--root=scan-deps", "--json", "--extension=-",
      "--directory=--all=,lib"]
    AsksForJson misleadingValues apart ∧ AsksForJson misleadingValues attached ∧
      (run tree [] apart).exitCode = 0 ∧
      (∀ colour, (run tree [] apart).output colour "7" "4" = Report.json ⟨[], [], []⟩) ∧
      ∀ colour, (run tree [] attached).output colour "8" "4" =
        (run tree [] apart).output true "7" "4" := by
  intro tree apart attached
  have haudit : (auditFor tree [] misleadingValues).toOption = some ⟨⟨[], [], []⟩, 0⟩ := by
    decide +kernel
  obtain ⟨hok, -, hother⟩ := json_output_depends_on_audit tree [] asksForJson_apart
  obtain ⟨hexit, houtput, -, -⟩ := hok _ (eq_ok_of_toOption haudit)
  exact ⟨asksForJson_apart, asksForJson_attached, hexit, fun colour => houtput colour "7" "4",
    fun colour => (hother attached asksForJson_attached).2 true colour "7" "8" "4" "4"⟩

end Command

end DependencyAudit
