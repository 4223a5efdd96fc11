import DependencyAudit.Files.Tree
import Mathlib.Data.List.Basic
import Mathlib.Data.List.Induction

/-!
Where paths lead. Following a path in a tree either fails or ends at the place
that its text alone spells out: a tree decides whether a path leads anywhere,
never where to. So the last segment of a path, if it is a name, is the name of
whatever is found there, and paths with the same components lead to the same
place. A name joined to a path is one more component of it, however the path is
spelled.
-/

namespace DependencyAudit

/-! ### Segments -/

/-- Where a path leads from a place, read from its text alone. -/
def Path.lexicalFrom (path : Path) (start : Location) : Location :=
  path.segments.foldl lexicalStep (path.origin start)

/-- A segment that is a name: it neither stays nor leads up. -/
def Path.isStep (segment : String) : Bool :=
  !isIdle segment && segment != ".."

theorem isFileName_iff {name : String} :
    isFileName name = true ↔ Path.isStep name = true ∧ '/' ∉ name.toList := by
  simp [isFileName, Path.isStep]

namespace Path

/-- The text behind the last slash of a text, or all of it if it has none. -/
def Leaf (text name : List Char) : Prop :=
  '/' ∉ name ∧ ∃ front, text = front ++ name ∧ (front = [] ∨ front.getLast? = some '/')

theorem exists_leaf (text : List Char) : ∃ name, Leaf text name := by
  by_cases hmem : '/' ∈ text
  · obtain ⟨name, front, hsplit, hname⟩ := List.eq_append_cons_of_mem (List.mem_reverse.mpr hmem)
    have htext : text = (front.reverse ++ ['/']) ++ name.reverse := by
      simpa using congrArg List.reverse hsplit
    exact ⟨name.reverse, by simpa using hname, _, htext, .inr (by simp)⟩
  · exact ⟨text, hmem, [], rfl, .inl rfl⟩

/-- An ending without slashes lies within the leaf. -/
theorem Leaf.suffix {text name ending : List Char} (h : Leaf text name) (hending : '/' ∉ ending)
    (hsuffix : ending <:+ text) : ending <:+ name := by
  obtain ⟨-, front, rfl, hfront⟩ := h
  rcases List.suffix_or_suffix_of_suffix hsuffix (List.suffix_append front name) with h | h
  · exact h
  · obtain ⟨beyond, rfl⟩ := h
    rw [List.suffix_append_self_iff] at hsuffix
    obtain ⟨before, rfl⟩ := hsuffix
    rcases List.eq_nil_or_concat' beyond with rfl | ⟨beyond, last, rfl⟩
    · exact List.suffix_rfl
    · rw [← List.append_assoc] at hfront
      have hlast : last = '/' := by simpa using hfront
      simp [hlast] at hending

theorem Leaf.exists_segments {path : Path} {name : List Char} (h : Leaf path.text.toList name) :
    ∃ init, path.segments = init ++ [String.ofList name] := by
  obtain ⟨hname, front, htext, rfl | hfront⟩ := h
  · refine ⟨[], ?_⟩
    rw [segments, htext, List.nil_append, List.splitOn_eq_singleton hname]
    rfl
  · obtain ⟨init, rfl⟩ := List.getLast?_eq_some_iff.mp hfront
    refine ⟨(init.splitOn '/').map String.ofList, ?_⟩
    rw [segments, htext, List.append_assoc, List.singleton_append,
      List.splitOn_append_cons_self, List.splitOn_eq_singleton hname, List.map_append]
    rfl

theorem Leaf.append {text name : List Char} (h : Leaf text name) {front : List Char}
    (hfront : front = [] ∨ front.getLast? = some '/') : Leaf (front ++ text) name := by
  obtain ⟨hname, before, rfl, hbefore⟩ := h
  refine ⟨hname, front ++ before, by rw [List.append_assoc], ?_⟩
  rcases hbefore with rfl | hbefore
  · rwa [List.append_nil]
  · right
    rw [List.getLast?_append, hbefore, Option.some_or]

theorem Leaf.join {path : Path} {right : String} {name : List Char} (h : Leaf right.toList name) :
    Leaf (path.join right).text.toList name := by
  rw [Path.join]
  split
  next => exact h
  next =>
    split
    next hend =>
      rw [String.toList_append]
      refine h.append (hend.imp_left fun hempty => ?_)
      rw [hempty, String.toList_empty]
    next =>
      rw [String.toList_append]
      exact h.append (.inr (by simp))

theorem Leaf.ofLocation {location : Location} {name : String} (hname : '/' ∉ name.toList) :
    Leaf (Path.ofLocation (location ++ [name])).text.toList name.toList := by
  have hself : Leaf name.toList name.toList := ⟨hname, [], rfl, .inl rfl⟩
  by_cases hnil : location = []
  · have htext : (Path.ofLocation (location ++ [name])).text.toList = ['/'] ++ name.toList := by
      simp [Path.ofLocation, hnil]
    rw [htext]
    exact hself.append (.inr rfl)
  · have htext : (Path.ofLocation (location ++ [name])).text.toList =
        ("/" ++ "/".intercalate location ++ "/").toList ++ name.toList := by
      rw [Path.ofLocation, String.intercalate_append_of_ne_nil hnil (by simp)]
      simp
    rw [htext, String.toList_append]
    exact hself.append (.inr List.getLast?_concat)

theorem isAbsolute_eq_false {name : String} (hname : '/' ∉ name.toList) :
    (Path.mk name).isAbsolute = false := by
  rw [isAbsolute, decide_eq_false_iff_not]
  intro hhead
  exact hname (List.mem_of_head? hhead)

theorem join_eq_append {path : Path} {name : String} (hname : '/' ∉ name.toList) :
    (path.text = "" ∨ path.text.toList.getLast? = some '/') ∧
        path.join name = ⟨path.text ++ name⟩ ∨
      path.join name = ⟨path.text ++ "/" ++ name⟩ := by
  rw [join, isAbsolute_eq_false hname]
  by_cases h : path.text = "" ∨ path.text.toList.getLast? = some '/'
  · left
    exact ⟨h, by simp [h]⟩
  · right
    simp [h]

theorem join_empty (right : String) : join ⟨""⟩ right = ⟨right⟩ := by
  simp [join]

theorem isAbsolute_join {path : Path} {name : String} (hname : '/' ∉ name.toList) :
    (path.join name).isAbsolute = path.isAbsolute := by
  by_cases hempty : path.text = ""
  · obtain rfl : path = ⟨""⟩ := congrArg Path.mk hempty
    rw [join_empty, isAbsolute_eq_false hname]
    rfl
  · obtain ⟨c, cs, htext⟩ : ∃ c cs, path.text.toList = c :: cs :=
      List.exists_cons_of_ne_nil fun hnil => hempty (String.toList_eq_nil_iff.mp hnil)
    rcases @join_eq_append path name hname with ⟨-, h⟩ | h <;> simp [h, isAbsolute, htext]

theorem isAbsolute_join_of_isAbsolute {path : Path} (h : path.isAbsolute = true)
    (right : String) : (path.join right).isAbsolute = true := by
  rw [isAbsolute, decide_eq_true_eq] at h
  obtain ⟨rest, hrest⟩ := List.head?_eq_some_iff.mp h
  rw [join]
  split_ifs with hright hend
  · exact hright
  · simp [isAbsolute, hrest]
  · simp [isAbsolute, hrest]

theorem isAbsolute_joinAll {path : Path} (h : path.isAbsolute = true) (names : List String) :
    (path.joinAll names).isAbsolute = true := by
  induction names generalizing path with
  | nil => exact h
  | cons name names ih => exact ih (isAbsolute_join_of_isAbsolute h name)

theorem isAbsolute_ofLocation (location : Location) :
    (ofLocation location).isAbsolute = true := by
  simp [isAbsolute, ofLocation]

theorem origin_join {path : Path} {name : String} (hname : '/' ∉ name.toList)
    (working : Location) : (path.join name).origin working = path.origin working := by
  rw [origin, origin, isAbsolute_join hname]

theorem text_join_ne {path : Path} {name : String} (hname : '/' ∉ name.toList)
    (hempty : path.text ≠ "") : (path.join name).text ≠ "" := by
  rcases @join_eq_append path name hname with ⟨-, h⟩ | h <;> simp [h, hempty]

theorem exists_segments_join {path : Path} {name : String} (hname : '/' ∉ name.toList) :
    ∃ init, (path.join name).segments = init ++ [name] ∧
      (path.segments = init ∨ path.segments = init ++ [""]) := by
  have hsplit : name.toList.splitOn '/' = [name.toList] := List.splitOn_eq_singleton hname
  rcases @join_eq_append path name hname with ⟨hend, h⟩ | h
  · rcases hend with hempty | hslash
    · refine ⟨[], ?_, .inr ?_⟩
      · simp [h, segments, hempty, hsplit]
      · simp [segments, hempty]
    · obtain ⟨front, hfront⟩ := List.getLast?_eq_some_iff.mp hslash
      refine ⟨(front.splitOn '/').map String.ofList, ?_, .inr ?_⟩
      · simp [h, segments, hfront, List.splitOn_append_cons_self, hsplit]
      · simp [segments, hfront, List.splitOn_append_cons_self]
  · refine ⟨path.segments, ?_, .inl rfl⟩
    simp [h, segments, List.splitOn_append_cons_self, hsplit]

@[simp] theorem origin_nil (path : Path) : path.origin [] = [] := by
  rw [origin, ite_self]

theorem lexicalFrom_nil (path : Path) : path.lexicalFrom [] = path.lexical := by
  rw [lexicalFrom, lexical, origin_nil]

theorem lexicalFrom_eq_concat {path : Path} {init : List String} {segment : String}
    (h : path.segments = init ++ [segment]) (hstep : isStep segment = true) (start : Location) :
    path.lexicalFrom start = init.foldl lexicalStep (path.origin start) ++ [segment] := by
  obtain ⟨hidle, hup⟩ : isIdle segment = false ∧ segment ≠ ".." := by
    simpa [isStep] using hstep
  rw [lexicalFrom, h, List.foldl_append]
  simp [lexicalStep, hidle, hup]

theorem Leaf.getLast?_lexicalFrom {path : Path} {name : String}
    (h : Leaf path.text.toList name.toList) (hstep : isStep name = true) (start : Location) :
    (path.lexicalFrom start).getLast? = some name := by
  obtain ⟨init, hsegments⟩ := h.exists_segments
  rw [String.ofList_toList] at hsegments
  rw [lexicalFrom_eq_concat hsegments hstep, List.getLast?_concat]

theorem getLast?_lexicalFrom_join {path : Path} {name : String} (h : isFileName name = true)
    (start : Location) : ((path.join name).lexicalFrom start).getLast? = some name := by
  obtain ⟨hstep, hslash⟩ := isFileName_iff.mp h
  have hself : Leaf name.toList name.toList := ⟨hslash, [], rfl, .inl rfl⟩
  exact hself.join.getLast?_lexicalFrom hstep start

theorem getLast?_lexicalFrom_ofLocation {location : Location} {name : String}
    (h : isFileName name = true) (start : Location) :
    ((ofLocation (location ++ [name])).lexicalFrom start).getLast? = some name := by
  obtain ⟨hstep, hslash⟩ := isFileName_iff.mp h
  exact (Leaf.ofLocation hslash).getLast?_lexicalFrom hstep start

theorem getLast?_ofLocation_concat {location : Location} {name : String}
    (h : isFileName name = true) :
    (ofLocation (location ++ [name])).text.toList.getLast? ≠ some '/' := by
  obtain ⟨hstep, hslash⟩ := isFileName_iff.mp h
  obtain ⟨-, front, htext, -⟩ := @Leaf.ofLocation location name hslash
  have hne : name.toList ≠ [] := by
    intro hnil
    rw [String.toList_eq_nil_iff.mp hnil] at hstep
    revert hstep
    decide
  rw [htext, List.getLast?_append_of_ne_nil _ hne]
  intro hlast
  exact hslash (List.mem_of_getLast? hlast)

theorem ofLocation_concat {location : Location} {name : String}
    (h : ∀ other ∈ location, isFileName other = true) (hname : '/' ∉ name.toList) :
    ofLocation (location ++ [name]) = (ofLocation location).join name := by
  rw [join, isAbsolute_eq_false hname, if_neg Bool.false_ne_true]
  rcases List.eq_nil_or_concat' location with rfl | ⟨front, last, rfl⟩
  · simp [ofLocation]
  · have hend := @getLast?_ofLocation_concat front last (h last (by simp))
    have hempty : (ofLocation (front ++ [last])).text ≠ "" := by
      simp [ofLocation]
    rw [if_neg (by simp [hempty, hend])]
    rw [ofLocation, String.intercalate_append_of_ne_nil (by simp) (by simp)]
    simp [ofLocation, String.append_assoc]

end Path

/-! ### Following paths -/

namespace FileTree

variable {tree : FileTree}

theorem step_eq_ok_iff {location place : Location} {segment : String} :
    tree.step location segment = .ok place ↔
      tree.entryAt location = some .directory ∧ place = Path.lexicalStep location segment ∧
        (Path.isStep segment = true → tree.entryAt place ≠ none) := by
  by_cases hdir : tree.entryAt location = some .directory
  · by_cases hidle : Path.isIdle segment = true
    · simp [step, Path.lexicalStep, Path.isStep, hdir, hidle, eq_comm]
    · by_cases hup : segment = ".."
      · subst hup
        simp [step, Path.lexicalStep, Path.isStep, hdir, hidle, eq_comm]
      · have hstep : tree.step location segment =
            if (tree.entryAt (location ++ [segment])).isSome then .ok (location ++ [segment])
            else .error .notFound := by
          simp [step, hdir, hidle, hup]
        have hlexical : Path.lexicalStep location segment = location ++ [segment] := by
          simp [Path.lexicalStep, hidle, hup]
        have hname : Path.isStep segment = true := by simp [Path.isStep, hidle, hup]
        rw [hstep, hlexical]
        simp only [hdir, hname, true_and, forall_const]
        by_cases hentry : tree.entryAt (location ++ [segment]) = none
        · rw [if_neg (by simp [hentry])]
          refine ⟨nofun, fun h => ?_⟩
          obtain ⟨rfl, hne⟩ := h
          exact absurd hentry hne
        · rw [if_pos (Option.isSome_iff_ne_none.mpr hentry), Except.ok.injEq]
          refine ⟨fun h => ?_, fun h => h.1.symm⟩
          subst h
          exact ⟨rfl, hentry⟩
  · simp [step, hdir]

theorem foldlM_step_cons {segment : String} {segments : List String} {start place : Location} :
    (segment :: segments).foldlM tree.step start = .ok place ↔
      ∃ next, tree.step start segment = .ok next ∧ segments.foldlM tree.step next = .ok place := by
  rw [List.foldlM_cons]
  cases h : tree.step start segment with
  | error e => simp [bind, Except.bind]
  | ok next => simp [bind, Except.bind]

theorem foldlM_step_concat {segment : String} {segments : List String} {start place : Location} :
    (segments ++ [segment]).foldlM tree.step start = .ok place ↔
      ∃ next, segments.foldlM tree.step start = .ok next ∧ tree.step next segment = .ok place := by
  induction segments generalizing start with
  | nil => cases h : tree.step start segment <;> simp [h, bind, Except.bind, pure, Except.pure]
  | cons first segments ih =>
      rw [List.cons_append, foldlM_step_cons]
      simp only [ih, foldlM_step_cons]
      refine ⟨fun h => ?_, fun h => ?_⟩
      · obtain ⟨next, hfirst, last, hsegments, hlast⟩ := h
        exact ⟨last, ⟨next, hfirst, hsegments⟩, hlast⟩
      · obtain ⟨last, ⟨next, hfirst, hsegments⟩, hlast⟩ := h
        exact ⟨next, hfirst, last, hsegments, hlast⟩

theorem eq_foldl_of_foldlM_step {segments : List String} {start place : Location}
    (h : segments.foldlM tree.step start = .ok place) :
    place = segments.foldl Path.lexicalStep start := by
  induction segments generalizing start with
  | nil => exact (Except.ok.inj h).symm
  | cons segment segments ih =>
      obtain ⟨next, hnext, h⟩ := foldlM_step_cons.mp h
      rw [List.foldl_cons, ← (step_eq_ok_iff.mp hnext).2.1]
      exact ih h

theorem locateFrom_eq_ok_iff {start place : Location} {path : Path} :
    tree.locateFrom start path = .ok place ↔
      path.text ≠ "" ∧ path.segments.foldlM tree.step (path.origin start) = .ok place := by
  rw [locateFrom]
  split
  next hempty => simp [hempty]
  next hempty => simp [hempty]

/-- The working directory plays no part in where an absolute path leads. -/
theorem locateFrom_of_isAbsolute {path : Path} (h : path.isAbsolute = true) (start : Location) :
    tree.locateFrom start path = tree.locate path := by
  simp only [locate, locateFrom, Path.origin, h, if_true]

theorem eq_lexicalFrom_of_locateFrom {start place : Location} {path : Path}
    (h : tree.locateFrom start path = .ok place) : place = path.lexicalFrom start :=
  eq_foldl_of_foldlM_step (locateFrom_eq_ok_iff.mp h).2

theorem exists_locateFrom_of_join {start place : Location} {path : Path} {name : String}
    (hname : '/' ∉ name.toList) (hempty : path.text ≠ "")
    (h : tree.locateFrom start (path.join name) = .ok place) :
    ∃ parent, tree.locateFrom start path = .ok parent := by
  obtain ⟨-, h⟩ := locateFrom_eq_ok_iff.mp h
  rw [Path.origin_join hname] at h
  obtain ⟨init, hjoin, hsegments⟩ := @Path.exists_segments_join path name hname
  rw [hjoin] at h
  obtain ⟨parent, hparent, hstep⟩ := foldlM_step_concat.mp h
  have hstay : tree.step parent "" = .ok parent :=
    step_eq_ok_iff.mpr ⟨(step_eq_ok_iff.mp hstep).1, by simp [Path.lexicalStep, Path.isIdle],
      by simp [Path.isStep, Path.isIdle]⟩
  refine ⟨parent, locateFrom_eq_ok_iff.mpr ⟨hempty, ?_⟩⟩
  rcases hsegments with hsegments | hsegments
  · rwa [hsegments]
  · rw [hsegments]
    exact foldlM_step_concat.mpr ⟨parent, hparent, hstay⟩

/-- Whatever has an entry lies in directories all the way up. -/
theorem entryAt_eq_directory_of_append {place names : Location}
    (h : tree.entryAt (place ++ names) ≠ none) (hne : names ≠ []) :
    tree.entryAt place = some .directory := by
  induction names using List.reverseRecOn with
  | nil => exact absurd rfl hne
  | append_singleton names name ih =>
      rw [← List.append_assoc] at h
      have hparent := tree.closed _ _ h
      by_cases hnil : names = []
      · rwa [hnil, List.append_nil] at hparent
      · exact ih (by simp [hparent]) hnil

theorem entryAt_ne_none_of_isFileAt {place : Location} (h : tree.isFileAt place = true) :
    tree.entryAt place ≠ none := by
  intro hnone
  simp [isFileAt, hnone] at h

theorem locateFrom_join {start place : Location} {path : Path} {name : String}
    (h : tree.locateFrom start path = .ok place)
    (hentry : tree.entryAt (place ++ [name]) ≠ none) :
    tree.locateFrom start (path.join name) = .ok (place ++ [name]) := by
  obtain ⟨hname, hslash⟩ := isFileName_iff.mp (tree.named _ hentry name (by simp))
  obtain ⟨init, hjoin, hsegments⟩ := @Path.exists_segments_join path name hslash
  have hdir : tree.entryAt place = some .directory := tree.closed _ _ hentry
  obtain ⟨hempty, h⟩ := locateFrom_eq_ok_iff.mp h
  have hinit : init.foldlM tree.step (path.origin start) = .ok place := by
    rcases hsegments with hsegments | hsegments
    · rwa [hsegments] at h
    · rw [hsegments] at h
      obtain ⟨next, hnext, hlast⟩ := foldlM_step_concat.mp h
      have hstay := (step_eq_ok_iff.mp hlast).2.1
      simp only [Path.lexicalStep, Path.isIdle, decide_true, Bool.true_or, if_true] at hstay
      rwa [hstay]
  have hlexical : Path.lexicalStep place name = place ++ [name] := by
    obtain ⟨hidle, hup⟩ : Path.isIdle name = false ∧ name ≠ ".." := by
      simpa [Path.isStep] using hname
    simp [Path.lexicalStep, hidle, hup]
  refine locateFrom_eq_ok_iff.mpr ⟨Path.text_join_ne hslash hempty, ?_⟩
  rw [hjoin, Path.origin_join hslash]
  exact foldlM_step_concat.mpr
    ⟨place, hinit, step_eq_ok_iff.mpr ⟨hdir, hlexical.symm, fun _ => hentry⟩⟩

theorem locateFrom_joinAll {base : Path} {start place names : Location}
    (h : tree.locateFrom start base = .ok place)
    (hentry : tree.entryAt (place ++ names) ≠ none) :
    tree.locateFrom start (base.joinAll names) = .ok (place ++ names) := by
  induction names generalizing base place with
  | nil => simpa [Path.joinAll] using h
  | cons name names ih =>
      have hassoc : place ++ name :: names = place ++ [name] ++ names := by simp
      rw [hassoc] at hentry ⊢
      have hnext : tree.entryAt (place ++ [name]) ≠ none := by
        by_cases hnil : names = []
        · rwa [hnil, List.append_nil] at hentry
        · simp [entryAt_eq_directory_of_append hentry hnil]
      exact ih (locateFrom_join h hnext) hentry

/-- Whatever has an entry is found under its own path. -/
theorem locate_ofLocation {place : Location} (h : tree.entryAt place ≠ none) :
    tree.locate (.ofLocation place) = .ok place := by
  induction place using List.reverseRecOn with
  | nil =>
      have hsegments : (Path.ofLocation []).segments = ["", ""] := by decide
      refine locateFrom_eq_ok_iff.mpr ⟨by decide, ?_⟩
      rw [hsegments]
      simp [step, Path.origin, tree.root, Path.isIdle, bind, Except.bind, pure, Except.pure]
  | append_singleton place name ih =>
      have hparent := tree.closed place name h
      have hnames := tree.named place (by simp [hparent])
      obtain ⟨-, hslash⟩ := isFileName_iff.mp (tree.named _ h name (by simp))
      rw [Path.ofLocation_concat hnames hslash]
      exact locateFrom_join (ih (by simp [hparent])) h

/-! ### Looking and reading -/

variable {path : Path} {working : Location}

theorem isFile_iff :
    tree.isFile path working = true ↔
      ∃ place, tree.locateFrom working path = .ok place ∧ tree.isFileAt place = true := by
  rw [isFile]
  cases tree.locateFrom working path with
  | error e => simp
  | ok place => simp

theorem isDirectory_iff :
    tree.isDirectory path working = true ↔
      ∃ place, tree.locateFrom working path = .ok place ∧
        tree.entryAt place = some .directory := by
  rw [isDirectory]
  cases tree.locateFrom working path with
  | error e => simp
  | ok place => simp

theorem isFile_of_isAbsolute (h : path.isAbsolute = true) :
    tree.isFile path working = tree.isFile path := by
  rw [isFile, isFile, locateFrom_of_isAbsolute h]

theorem isDirectory_of_isAbsolute (h : path.isAbsolute = true) :
    tree.isDirectory path working = tree.isDirectory path := by
  rw [isDirectory, isDirectory, locateFrom_of_isAbsolute h]

theorem readText_of_isAbsolute (h : path.isAbsolute = true) :
    tree.readText path working = tree.readText path := by
  rw [readText, readText, locateFrom_of_isAbsolute h]

theorem fromUTF8?_eq_some_iff {content : ByteArray} {text : String} :
    String.fromUTF8? content = some text ↔ content = text.toUTF8 := by
  rw [String.fromUTF8?]
  split
  next h =>
    rw [Option.some.injEq, ← String.toByteArray_inj]
    rfl
  next h =>
    refine ⟨nofun, fun heq => ?_⟩
    rw [heq] at h
    exact absurd text.isValidUTF8 h

theorem readText_eq_ok_iff {text : String} :
    tree.readText path working = .ok text ↔
      ∃ place, tree.locateFrom working path = .ok place ∧
        tree.entryAt place = some (.file text.toUTF8) := by
  rw [readText]
  cases tree.locateFrom working path with
  | error e => simp
  | ok place =>
      cases hentry : tree.entryAt place with
      | none => simp [hentry]
      | some entry =>
          cases entry with
          | directory => simp [hentry]
          | file content =>
              cases htext : String.fromUTF8? content with
              | none =>
                  have hne : content ≠ text.toUTF8 := by
                    rw [ne_eq, ← fromUTF8?_eq_some_iff, htext]
                    exact nofun
                  simpa [hentry, htext] using hne
              | some text' =>
                  have hiff : text' = text ↔ content = text.toUTF8 := by
                    rw [← fromUTF8?_eq_some_iff, htext, Option.some.injEq]
                  simpa [hentry, htext] using hiff

theorem isFile_of_readText {text : String} (h : tree.readText path working = .ok text) :
    tree.isFile path working = true := by
  obtain ⟨place, hlocate, hentry⟩ := readText_eq_ok_iff.mp h
  exact isFile_iff.mpr ⟨place, hlocate, by simp [isFileAt, hentry]⟩

end FileTree

/-! ### Components -/

namespace Path

/-- Where a component leads from a place. -/
def Component.move (location : Location) : Component → Location
  | root => []
  | here => location
  | up => location.dropLast
  | name text => location ++ [text]

theorem foldl_move_ofSegment? (segments : List String) (location : Location) :
    (segments.filterMap Component.ofSegment?).foldl Component.move location =
      segments.foldl lexicalStep location := by
  induction segments generalizing location with
  | nil => rfl
  | cons segment segments ih =>
      rw [List.foldl_cons, ← ih]
      by_cases hidle : isIdle segment = true
      · simp [Component.ofSegment?, lexicalStep, hidle]
      · by_cases hup : segment = ".."
        · subst hup
          simp [Component.ofSegment?, lexicalStep, hidle, Component.move]
        · simp [Component.ofSegment?, lexicalStep, hidle, hup, Component.move]

theorem Component.key_injective : Function.Injective Component.key := by
  intro first second h
  cases first with
  | name text =>
      cases second with
      | name text' =>
          have hbytes : Text.bytes text = Text.bytes text' := by
            simpa [key, List.map_inj_right, UInt8.toNat_inj] using h
          rw [Text.bytes_injective hbytes]
      | _ => simp [key] at h
  | _ => cases second <;> simp_all [key]

theorem components_eq_of_compare_eq {path path' : Path} (h : compare path path' = .eq) :
    path.components = path'.components := by
  have hkey : path.orderKey = path'.orderKey := Std.LawfulEqCmp.eq_of_compare h
  exact (List.map_injective_iff.mpr Component.key_injective) hkey

theorem head?_segments_of_isAbsolute {path : Path} (h : path.isAbsolute = true) :
    path.segments.head? = some "" := by
  rw [isAbsolute, decide_eq_true_eq, List.head?_eq_some_iff] at h
  obtain ⟨rest, hrest⟩ := h
  rw [segments, hrest, ← List.nil_append ('/' :: rest), List.splitOn_append_cons_self]
  rfl

/-- What a path begins with, apart from its segments. -/
def start (path : Path) : List Component :=
  if path.isAbsolute then [.root] else if path.segments.head? = some "." then [.here] else []

theorem components_eq_start_append (path : Path) :
    path.components = path.start ++ path.segments.filterMap Component.ofSegment? := by
  rw [components, start]
  by_cases habsolute : path.isAbsolute = true
  · have hhead := head?_segments_of_isAbsolute habsolute
    obtain ⟨segments, hsegments⟩ := List.head?_eq_some_iff.mp hhead
    simp [hsegments, habsolute, Component.ofSegment?, isIdle]
  · split
    next h => simp [h, habsolute]
    next segments h => simp [h, habsolute, Component.ofSegment?, isIdle]
    next segments h => simp [h, habsolute, Component.ofSegment?, isIdle]
    next hdot =>
      have hhead : path.segments.head? ≠ some "." := by
        intro hhead
        obtain ⟨segments, hsegments⟩ := List.head?_eq_some_iff.mp hhead
        exact hdot segments hsegments
      simp [habsolute, hhead]

theorem lexicalFrom_eq_foldl_components (path : Path) (working : Location) :
    path.lexicalFrom working = path.components.foldl Component.move working := by
  have hstart : path.start.foldl Component.move working = path.origin working := by
    rw [start, origin]
    split_ifs <;> rfl
  rw [components_eq_start_append, List.foldl_append, hstart, foldl_move_ofSegment?, lexicalFrom]

theorem lexicalFrom_eq_of_compare_eq {path path' : Path} (h : compare path path' = .eq)
    (working : Location) : path.lexicalFrom working = path'.lexicalFrom working := by
  rw [lexicalFrom_eq_foldl_components, lexicalFrom_eq_foldl_components,
    components_eq_of_compare_eq h]

theorem segments_ne_of_text_ne {path : Path} (h : path.text ≠ "") : path.segments ≠ [""] := by
  intro hsegments
  have hsplit : path.text.toList.splitOn '/' = [[]] := by
    rw [segments, List.map_eq_singleton_iff] at hsegments
    obtain ⟨piece, hpiece, hempty⟩ := hsegments
    rw [hpiece, String.ofList_eq_empty_iff.mp hempty]
  have htext : ['/'].intercalate (path.text.toList.splitOn '/') = path.text.toList :=
    List.intercalate_splitOn '/'
  rw [hsplit] at htext
  exact h (String.toList_eq_nil_iff.mp htext.symm)

theorem start_join {path : Path} {name : String} (hslash : '/' ∉ name.toList) (hdot : name ≠ ".") :
    (path.join name).start = path.start := by
  have hrelative : (Path.mk name).isAbsolute = false := isAbsolute_eq_false hslash
  by_cases hempty : path.text = ""
  · have hpath : path = ⟨""⟩ := by rw [← hempty]
    have hjoin : path.join name = ⟨name⟩ := by simp [join, hrelative, hempty]
    have hsegments : (Path.mk name).segments = [name] := by
      simp [segments, List.splitOn_eq_singleton hslash]
    rw [hjoin, hpath, start, hrelative, hsegments]
    simp [hdot]
    decide
  · obtain ⟨init, hjoin, hsegments⟩ := @exists_segments_join path name hslash
    have hhead : (path.join name).segments.head? = path.segments.head? := by
      rw [hjoin]
      cases init with
      | nil =>
          rcases hsegments with h | h
          · exact absurd h (by simp [segments])
          · exact absurd h (segments_ne_of_text_ne hempty)
      | cons first init => rcases hsegments with h | h <;> simp [h]
    rw [start, start, isAbsolute_join hslash, hhead]

theorem components_join {path : Path} {name : String} (h : isFileName name = true) :
    (path.join name).components = path.components ++ [.name name] := by
  obtain ⟨hstep, hslash⟩ := isFileName_iff.mp h
  obtain ⟨hidle, hup⟩ : isIdle name = false ∧ name ≠ ".." := by
    simpa [isStep] using hstep
  have hdot : name ≠ "." := by
    rintro rfl
    revert hidle
    decide
  have hstart : (path.join name).start = path.start := start_join hslash hdot
  have hsegments : (path.join name).segments.filterMap Component.ofSegment? =
      path.segments.filterMap Component.ofSegment? ++ [.name name] := by
    obtain ⟨init, hjoin, hsegments⟩ := @exists_segments_join path name hslash
    have hlast : Component.ofSegment? name = some (.name name) := by
      simp [Component.ofSegment?, hidle, hup]
    have hempty : Component.ofSegment? "" = none := by simp [Component.ofSegment?, isIdle]
    rw [hjoin, List.filterMap_append]
    rcases hsegments with hsegments | hsegments <;> simp [hsegments, hlast, hempty]
  rw [components_eq_start_append, components_eq_start_append path, hstart, hsegments,
    List.append_assoc]

theorem components_joinAll {base : Path} {names : List String}
    (h : ∀ name ∈ names, isFileName name = true) :
    (base.joinAll names).components = base.components ++ names.map .name := by
  induction names generalizing base with
  | nil => simp [joinAll]
  | cons name names ih =>
      obtain ⟨hname, hnames⟩ := List.forall_mem_cons.mp h
      have hcons : base.joinAll (name :: names) = (base.join name).joinAll names := rfl
      rw [hcons, ih hnames, components_join hname]
      simp

theorem root_mem_components {path : Path} (h : path.isAbsolute = true) :
    .root ∈ path.components := by
  rw [components_eq_start_append, start, if_pos h]
  simp

/-- Paths compare equal exactly if they have the same components. -/
theorem compare_eq_iff {path path' : Path} :
    compare path path' = .eq ↔ path.components = path'.components := by
  refine ⟨components_eq_of_compare_eq, fun h => ?_⟩
  have hkey : path.orderKey = path'.orderKey := congrArg (List.map Component.key) h
  rw [compare, compareOn, hkey]
  exact Std.ReflCmp.compare_self

end Path

end DependencyAudit
