import Lookahead.CommandLine.Arguments
import Mathlib.Data.List.Perm.Basic

/-!
Where an option stands does not matter. The configuration files are taken out before
anything else is read, so a `--config` with its file may stand between any two
arguments, even between another option and its value, and the last one counts. The
options of a parse each set a field of their own, so their order does not show in what
they add up to.
-/
namespace Lookahead.CommandLine

/-- How far a scan for configuration files has come, from left to right. -/
structure ConfigScan where
  /-- The last argument was a `--config` whose file is still to come. -/
  waiting : Bool := false
  last : Option String := none

namespace ConfigScan

def step (s : ConfigScan) (argument : String) : ConfigScan :=
  if s.waiting then ⟨false, some argument⟩ else { s with waiting := argument = "--config" }

theorem step_other {argument : String} (h : argument ≠ "--config") (last : Option String) :
    step ⟨false, last⟩ argument = ⟨false, last⟩ := by
  simp [step, h]

end ConfigScan

def configScan (arguments : List String) : ConfigScan := arguments.foldl ConfigScan.step {}

section Config

theorem extractConfig_file (file : String) (rest : List String) :
    extractConfig ("--config" :: file :: rest) =
      (extractConfig rest).map fun found => (some (found.1.getD file), found.2) := by
  rw [extractConfig, if_pos rfl]
  cases extractConfig rest <;> rfl

theorem extractConfig_other {argument : String} (h : argument ≠ "--config") (rest : List String) :
    extractConfig (argument :: rest) =
      (extractConfig rest).map fun found => (found.1, argument :: found.2) := by
  rw [extractConfig.eq_def]
  simp only [if_neg h]
  cases extractConfig rest <;> rfl

/-- Arguments as the scan takes them: a `--config` together with its file, if there is
one, and the others one by one. -/
@[elab_as_elim]
theorem scanInduction {motive : List String → Prop} (nil : motive [])
    (dangling : motive ["--config"])
    (config : ∀ file rest, motive rest → motive ("--config" :: file :: rest))
    (other : ∀ argument rest, argument ≠ "--config" → motive rest → motive (argument :: rest)) :
    ∀ arguments, motive arguments
  | [] => nil
  | argument :: rest => by
      by_cases h : argument = "--config"
      · subst h
        match rest with
        | [] => exact dangling
        | file :: rest =>
            exact config file rest (scanInduction nil dangling config other rest)
      · exact other argument rest h (scanInduction nil dangling config other rest)

/-- There is a file for each `--config`: the scan ends with the last of them, and nothing
that follows can change what was found. -/
structure Extracts (arguments : List String) (config : Option String) (others : List String) :
    Prop where
  found : extractConfig arguments = .ok (config, others)
  scan : ∀ last, arguments.foldl ConfigScan.step ⟨false, last⟩ = ⟨false, config.or last⟩
  append : ∀ more, extractConfig (arguments ++ more) =
    (extractConfig more).map fun later => (later.1.or config, others ++ later.2)

theorem extracts_nil : Extracts [] none [] := by
  refine ⟨rfl, fun _ => rfl, ?_⟩
  intro more
  rw [List.nil_append]
  cases extractConfig more <;> simp [Except.map]

section Extracts

variable {rest others : List String} {config : Option String} (h : Extracts rest config others)
include h

theorem Extracts.file (file : String) :
    Extracts ("--config" :: file :: rest) (some (config.getD file)) others := by
  constructor
  · rw [extractConfig_file, h.found]
    rfl
  · intro last
    refine (h.scan (some file)).trans ?_
    cases config <;> rfl
  · intro more
    rw [List.cons_append, List.cons_append, extractConfig_file, h.append]
    cases extractConfig more with
    | error e => rfl
    | ok later =>
        obtain ⟨config', others'⟩ := later
        cases config' <;> cases config <;> rfl

theorem Extracts.other {argument : String} (hother : argument ≠ "--config") :
    Extracts (argument :: rest) config (argument :: others) := by
  constructor
  · rw [extractConfig_other hother, h.found]
    rfl
  · intro last
    rw [List.foldl_cons, ConfigScan.step_other hother]
    exact h.scan last
  · intro more
    rw [List.cons_append, extractConfig_other hother, h.append]
    cases extractConfig more <;> rfl

end Extracts

/-- All that can come of arguments: the scan ends on a `--config`, or all files are there. -/
theorem extractConfig_cases (arguments : List String) :
    (extractConfig arguments = .error .missingConfigPath ∧
      ∀ last, (arguments.foldl ConfigScan.step ⟨false, last⟩).waiting = true) ∨
    ∃ config others, Extracts arguments config others := by
  induction arguments using scanInduction with
  | nil => exact Or.inr ⟨none, [], extracts_nil⟩
  | dangling => exact Or.inl ⟨rfl, fun _ => rfl⟩
  | config file rest ih =>
      obtain ⟨hrest, hscan⟩ | ⟨config, others, hrest⟩ := ih
      · refine Or.inl ⟨?_, fun last => hscan (some file)⟩
        rw [extractConfig_file, hrest]
        rfl
      · exact Or.inr ⟨_, _, hrest.file file⟩
  | other argument rest hother ih =>
      obtain ⟨hrest, hscan⟩ | ⟨config, others, hrest⟩ := ih
      · refine Or.inl ⟨?_, fun last => ?_⟩
        · rw [extractConfig_other hother, hrest]
          rfl
        · rw [List.foldl_cons, ConfigScan.step_other hother]
          exact hscan last
      · exact Or.inr ⟨_, _, hrest.other hother⟩

/-- A configuration file in the middle shows only if no other one comes after it. -/
theorem extractConfig_insert {front : List String} (h : (configScan front).waiting = false)
    (file : String) (back : List String) :
    extractConfig (front ++ ["--config", file] ++ back) =
      (extractConfig (front ++ back)).map fun found =>
        (some ((configScan back).last.getD file), found.2) := by
  obtain ⟨-, hscan⟩ | ⟨config, others, hfront⟩ := extractConfig_cases front
  · rw [configScan, hscan] at h
    cases h
  · rw [List.append_assoc, hfront.append, hfront.append, List.cons_append,
      List.singleton_append, extractConfig_file]
    obtain ⟨hmissing, -⟩ | ⟨config', others', hback⟩ := extractConfig_cases back
    · rw [hmissing]
      rfl
    · rw [hback.found, configScan, hback.scan none, Option.or_none]
      rfl

theorem parseArguments_insert {front : List String} (h : (configScan front).waiting = false)
    (file : String) (back : List String) :
    parseArguments (front ++ ["--config", file] ++ back) =
      (parseArguments (front ++ back)).map fun invocation =>
        { invocation with config := some ((configScan back).last.getD file) } := by
  rw [parseArguments, parseArguments, extractConfig_insert h]
  cases extractConfig (front ++ back) with
  | error e => rfl
  | ok found =>
      simp only [Except.map]
      cases command found.2 <;> rfl

end Config

/-- The options of a parse that have no value. -/
inductive Switch where
  | microHaskell
  | json
  | tree
deriving DecidableEq

/-- Arguments of a parse that belong together. -/
inductive OptionGroup where
  | switch (s : Switch)
  | table (file : String)
  | path (name : String)
deriving DecidableEq

namespace OptionGroup

def arguments : OptionGroup → List String
  | .switch .microHaskell => ["--mh"]
  | .switch .json => ["--json"]
  | .switch .tree => ["--tree"]
  | .table file => ["--table", file]
  | .path name => [name]

def isPath : OptionGroup → Bool
  | .path _ => true
  | _ => false

/-- What a group adds to the options before it. -/
def apply (d : ParseDraft) : OptionGroup → ParseDraft
  | .switch .microHaskell => { d with microHaskell := true }
  | .switch .json => { d with json := true }
  | .switch .tree => { d with indented := true }
  | .table file => { d with table := some file }
  | .path name => { d with path := some name }

end OptionGroup

section Groups

open OptionGroup

theorem isLongOption_eq_false {name : String} (h : ¬ ['-', '-'] <+: name.toList) :
    isLongOption name = false := by
  rw [isLongOption, Bool.eq_false_iff]
  exact fun hlong => h (List.isPrefixOf_iff_prefix.mp hlong)

theorem ne_of_not_long {name : String} (h : ¬ ['-', '-'] <+: name.toList) (option : String)
    (hlong : ['-', '-'] <+: option.toList) : name ≠ option := by
  rintro rfl
  exact h hlong

/-- A group is read as a whole. -/
theorem parseOptions_group (d : ParseDraft) (group : OptionGroup) (rest : List String)
    (hgroup : ∀ name, group = .path name → ¬ ['-', '-'] <+: name.toList ∧ d.path = none) :
    parseOptions d (group.arguments ++ rest) = parseOptions (apply d group) rest := by
  cases group with
  | switch s =>
      cases s <;>
        rw [arguments, List.singleton_append, parseOptions.eq_def] <;> simp [apply]
  | table file => rfl
  | path name =>
      obtain ⟨hname, hpath⟩ := hgroup name rfl
      have hmh := ne_of_not_long hname "--mh" (by decide +kernel)
      have hjson := ne_of_not_long hname "--json" (by decide +kernel)
      have htree := ne_of_not_long hname "--tree" (by decide +kernel)
      have htable := ne_of_not_long hname "--table" (by decide +kernel)
      rw [arguments, List.singleton_append, parseOptions.eq_def]
      simp [hmh, hjson, htree, htable, isLongOption_eq_false hname, hpath, apply]

/-- Groups of which at most one is a path add up. -/
theorem parseOptions_groups (groups : List OptionGroup) (d : ParseDraft)
    (hnames : ∀ name, .path name ∈ groups → ¬ ['-', '-'] <+: name.toList)
    (hpaths : groups.countP isPath + d.path.toList.length ≤ 1) :
    parseOptions d (groups.flatMap arguments) = parseOptions (groups.foldl apply d) [] := by
  induction groups generalizing d with
  | nil => rfl
  | cons group groups ih =>
      rw [List.countP_cons] at hpaths
      rw [List.flatMap_cons, List.foldl_cons, parseOptions_group]
      · refine ih (apply d group) (fun name hname => hnames name (List.mem_cons_of_mem _ hname)) ?_
        cases group with
        | switch s => cases s <;> exact hpaths
        | table file => exact hpaths
        | path name => exact Nat.le_trans (Nat.le_add_right _ _) hpaths
      · rintro name rfl
        refine ⟨hnames name List.mem_cons_self, ?_⟩
        cases hpath : d.path with
        | none => rfl
        | some other =>
            simp [isPath, hpath] at hpaths

/-- Two groups that set different fields, or set the same to the same, commute. -/
theorem apply_comm {x y : OptionGroup} (htable : ∀ a b, x = .table a → y = .table b → a = b)
    (hpath : ∀ a b, x = .path a → y = .path b → a = b) (d : ParseDraft) :
    apply (apply d x) y = apply (apply d y) x := by
  cases x with
  | switch s =>
      cases y with
      | switch t => cases s <;> cases t <;> rfl
      | table b => cases s <;> rfl
      | path b => cases s <;> rfl
  | table a =>
      cases y with
      | switch t => cases t <;> rfl
      | table b => rw [htable a b rfl rfl]
      | path b => rfl
  | path a =>
      cases y with
      | switch t => cases t <;> rfl
      | table b => rfl
      | path b => rw [hpath a b rfl rfl]

/-- The groups in one order. -/
def groupsOf (switches : List Switch) (table : Option String) (path : String) :
    List OptionGroup :=
  switches.map .switch ++ table.toList.map .table ++ [.path path]

section GroupsOf

variable {switches : List Switch} {table : Option String} {path : String}

theorem mem_groupsOf_table {file : String} :
    .table file ∈ groupsOf switches table path ↔ table = some file := by
  simp [groupsOf]

theorem mem_groupsOf_path {name : String} :
    .path name ∈ groupsOf switches table path ↔ name = path := by
  simp [groupsOf]

theorem countP_groupsOf : (groupsOf switches table path).countP isPath = 1 := by
  have hswitches : (switches.map OptionGroup.switch).countP isPath = 0 := by
    simp [List.countP_eq_zero, isPath]
  have htables : (table.toList.map OptionGroup.table).countP isPath = 0 := by
    simp [List.countP_eq_zero, isPath]
  rw [groupsOf, List.countP_append, List.countP_append, hswitches, htables]
  rfl

theorem foldl_switches (d : ParseDraft) :
    (switches.map OptionGroup.switch).foldl apply d =
      { d with
        microHaskell := d.microHaskell || decide (.microHaskell ∈ switches)
        json := d.json || decide (.json ∈ switches)
        indented := d.indented || decide (.tree ∈ switches) } := by
  induction switches generalizing d with
  | nil => simp
  | cons s switches ih =>
      rw [List.map_cons, List.foldl_cons, ih]
      cases s <;> simp [apply]

theorem foldl_groupsOf (switches : List Switch) (table : Option String) (path : String) :
    (groupsOf switches table path).foldl apply {} =
      ⟨some path, decide (.microHaskell ∈ switches), table, decide (.json ∈ switches),
        decide (.tree ∈ switches)⟩ := by
  rw [groupsOf, List.foldl_append, List.foldl_append, foldl_switches]
  cases table <;> simp [apply]

end GroupsOf

theorem extractConfig_of_notMem {arguments : List String} (h : "--config" ∉ arguments) :
    extractConfig arguments = .ok (none, arguments) := by
  induction arguments with
  | nil => rfl
  | cons argument rest ih =>
      rw [List.mem_cons, not_or] at h
      rw [extractConfig_other (Ne.symm h.1), ih h.2]
      rfl

theorem config_notMem_arguments {groups : List OptionGroup}
    (hfiles : .table "--config" ∉ groups) (hnames : .path "--config" ∉ groups) :
    "--config" ∉ groups.flatMap arguments := by
  intro hmem
  obtain ⟨group, hgroup, hconfig⟩ := List.mem_flatMap.mp hmem
  cases group with
  | switch s => cases s <;> simp [arguments] at hconfig
  | table file =>
      have hfile : file = "--config" := by simpa [arguments, eq_comm] using hconfig
      exact hfiles (hfile ▸ hgroup)
  | path name =>
      have hname : name = "--config" := by simpa [arguments, eq_comm] using hconfig
      exact hnames (hname ▸ hgroup)

/-- The groups of a parse give the same invocation in every order. -/
theorem parseArguments_groups {switches : List Switch} {table : Option String} {path : String}
    (htable : table ≠ some "--config") (hpath : ¬ ['-', '-'] <+: path.toList)
    {groups : List OptionGroup} (hperm : groups.Perm (groupsOf switches table path)) :
    parseArguments ("parse" :: groups.flatMap arguments) =
      .ok ⟨.parse ⟨path, decide (.microHaskell ∈ switches), table, decide (.json ∈ switches),
        decide (.tree ∈ switches)⟩, none⟩ := by
  have hfiles : ∀ file, .table file ∈ groups → table = some file :=
    fun file hfile => mem_groupsOf_table.mp (hperm.mem_iff.mp hfile)
  have hnames : ∀ name, .path name ∈ groups → name = path :=
    fun name hname => mem_groupsOf_path.mp (hperm.mem_iff.mp hname)
  have hconfig : "--config" ∉ "parse" :: groups.flatMap arguments := by
    have harguments : "--config" ∉ groups.flatMap arguments := by
      refine config_notMem_arguments (fun hfile => htable (hfiles _ hfile)) fun hname => ?_
      exact ne_of_not_long hpath "--config" (by decide +kernel) (hnames _ hname).symm
    simp [harguments]
  -- no two of the groups set one field to different values
  have hcomm : ∀ x ∈ groups, ∀ y ∈ groups, ∀ d, apply (apply d x) y = apply (apply d y) x := by
    intro x hx y hy d
    refine apply_comm ?_ ?_ d
    · rintro a b rfl rfl
      exact Option.some.inj ((hfiles a hx).symm.trans (hfiles b hy))
    · rintro a b rfl rfl
      exact (hnames a hx).trans (hnames b hy).symm
  have hoptions : parseOptions {} (groups.flatMap arguments) =
      parseOptions (groups.foldl apply {}) [] := by
    apply parseOptions_groups
    · intro name hname
      rwa [hnames name hname]
    · rw [hperm.countP_eq, countP_groupsOf]
      exact Nat.le_refl 1
  have hcommand : command ("parse" :: groups.flatMap arguments) =
      parseOptions {} (groups.flatMap arguments) := by
    simp [command]
  rw [parseArguments, extractConfig_of_notMem hconfig]
  simp only [hcommand, hoptions, hperm.foldl_eq' hcomm, foldl_groupsOf]
  rfl

end Groups

/-- A configuration file may be named between any two arguments, and the groups of options
of a parse may come in any order. -/
theorem parseArguments_orderless :
    (∀ (a b : List String) (f : String), (configScan a).waiting = false →
      parseArguments (a ++ ["--config", f] ++ b) =
        (parseArguments (a ++ b)).map fun invocation =>
          { invocation with config := some ((configScan b).last.getD f) }) ∧
    ∀ (switches : List Switch) (table : Option String) (path : String),
      table ≠ some "--config" → ¬ ['-', '-'] <+: path.toList →
      ∀ groups : List OptionGroup, groups.Perm (groupsOf switches table path) →
        parseArguments ("parse" :: groups.flatMap OptionGroup.arguments) =
          .ok ⟨.parse ⟨path, decide (.microHaskell ∈ switches), table, decide (.json ∈ switches),
            decide (.tree ∈ switches)⟩, none⟩ := by
  constructor
  · intro a b f h
    exact parseArguments_insert h f b
  · intro switches table path htable hpath groups hperm
    exact parseArguments_groups htable hpath hperm

/-- A configuration file between `--table` and its file, and options before and after the
path. -/
theorem parseArguments_orderless_demo :
    (configScan ["parse", "--table"]).waiting = false ∧
    parseArguments (["parse", "--table"] ++ ["--config", "a"] ++ ["t", "in", "--config", "b"]) =
      (parseArguments (["parse", "--table"] ++ ["t", "in", "--config", "b"])).map
        (fun invocation => { invocation with config := some "b" }) ∧
    parseArguments ["parse", "--json", "in", "--table", "--mh", "--json"] =
      .ok ⟨.parse ⟨"in", false, some "--mh", true, false⟩, none⟩ := by
  obtain ⟨hconfig, hgroups⟩ := parseArguments_orderless
  refine ⟨rfl, hconfig ["parse", "--table"] ["t", "in", "--config", "b"] "a" rfl, ?_⟩
  exact hgroups [.json, .json] (some "--mh") "in" (by decide) (by decide +kernel)
    [.switch .json, .path "in", .table "--mh", .switch .json] (by decide)

end Lookahead.CommandLine
