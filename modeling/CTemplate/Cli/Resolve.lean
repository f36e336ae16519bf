import CTemplate.Cli.Config
import Mathlib.Data.List.Basic
import Mathlib.Data.List.Induction
import Mathlib.Data.List.Nodup

/-!
# Options and their values

`cli_parse` and `cli_resolve` of `cli/argparse.c`.  The function `getopt_long` is a parameter:
it is given the tables that `cli_parse` builds, and its results are a list of reports.  The
value of an option comes from the command line, the environment, the configuration files and
the defaults, in this order.

The context has room for 64 occurrences of options and for 128 entries of configuration
files; those for which there is no room are dropped.
-/

namespace CTemplate

/-! ### Parsing a command line -/

/-- `struct option`, whose field `flag` is always a null pointer. -/
structure LongOption where
  name : List Byte
  hasArg : ℤ
  val : ℤ
  deriving DecidableEq

/-- What a call of `getopt_long` returns, and the value of `optarg` after it. -/
structure Report where
  val : ℤ
  optarg : Option (List Byte)
  deriving DecidableEq

/-- What the calls of `getopt_long` give for a command line, a string of short options and a
table of long options. -/
abbrev GetoptLong : Type :=
  List (List Byte) → List Byte → List LongOption → List Report

/-- What `getopt_long` returns for an unknown option: the character `'?'`. -/
def unknownOption : ℤ := 63

/-- What `getopt_long` returns after the last option. -/
def endOfOptions : ℤ := -1

/-- `CLI_REQUIRED_ARG` -/
def cliRequiredArg : ℤ := 1

/-- `CLI_OPTIONAL_ARG` -/
def cliOptionalArg : ℤ := 2

/-- The value by which `getopt_long` reports the option with index `i`. -/
def optionVal (o : CliOption) (i : ℕ) : ℤ :=
  if o.shortName ≠ 0 then o.shortName.toInt else 256 + i

/-- The table of long options that `cli_parse` builds. -/
def longOpts (options : List CliOption) : List LongOption :=
  options.zipIdx.map fun p => ⟨p.1.longName, p.1.argReq, optionVal p.1 p.2⟩

/-- The string of short options that `cli_parse` builds. -/
def shortStr (options : List CliOption) : List Byte :=
  options.flatMap fun o =>
    if o.shortName ≠ 0 then
      o.shortName.toUInt8 ::
        (if o.argReq = cliRequiredArg then [58]
          else if o.argReq = cliOptionalArg then [58, 58]
          else [])
    else []

/-- `ctx_add_cli` -/
def ctxAddCli (ctx : CliContext) (key : List Byte) (value : Option (List Byte)) : CliContext :=
  if ctx.cliArgs.length ≥ cliMaxOpts then ctx
  else { ctx with cliArgs := ctx.cliArgs ++ [⟨key, value⟩] }

/-- The body of the loop of `cli_parse`. -/
def parseReport (options : List CliOption) (ctx : CliContext) (r : Report) : CliContext :=
  if r.val = unknownOption then ctx
  else
    match options.zipIdx.find? fun p => r.val = optionVal p.1 p.2 with
    | none => ctx
    | some (o, _) => ctxAddCli ctx o.longName r.optarg

/-- `cli_parse` -/
def cliParse (getopt : GetoptLong) (argv : List (List Byte)) (options : List CliOption)
    (ctx : CliContext) : ErrorCode × CliContext :=
  if options.length > cliMaxOpts then (.invalidArg, ctx)
  else
    let reports := getopt argv (shortStr options) (longOpts options)
    (.ok, (reports.takeWhile (·.val ≠ endOfOptions)).foldl (parseReport options)
      ⟨[], [], options⟩)

/-- Loading several configuration files, all of which must load without an error. -/
def cliLoadConfigs : List ConfigFile → CliContext → Option CliContext
  | [], ctx => some ctx
  | file :: files, ctx =>
      match cliLoadConfig file ctx with
      | (.ok, ctx') => cliLoadConfigs files ctx'
      | _ => none

/-! ### The value of an option -/

/-- `find_entry` -/
def findEntry (entries : List CliEntry) (key : List Byte) : Option (List Byte) :=
  (entries.reverse.find? fun e => e.key = key).map fun e => e.value.getD []

/-- `find_option` -/
def findOption (options : List CliOption) (name : List Byte) : Option CliOption :=
  options.find? fun o => o.longName = name

/-- `cli_resolve`, in an environment `getenv`. -/
def cliResolve (getenv : List Byte → Option (List Byte)) (ctx : CliContext)
    (name : List Byte) : Option (List Byte) :=
  match findEntry ctx.cliArgs name with
  | some v => some v
  | none =>
      let opt := findOption ctx.options name
      match (opt.bind CliOption.envVar).bind getenv with
      | some v => some v
      | none =>
          match findEntry ctx.configVals name with
          | some v => some v
          | none => opt.bind CliOption.defaultVal

/-! ### What the value should be -/

/-- The long names of the options of a table are distinct, and so are the short names. -/
structure CliTable (options : List CliOption) : Prop where
  longNames : (options.map CliOption.longName).Nodup
  shortNames : ∀ (i j : Fin options.length), options[i].shortName = options[j].shortName →
    options[i].shortName ≠ 0 → i = j

/-- The option of a table with a given long name, if there is one. -/
inductive OptionNamed (options : List CliOption) (name : List Byte) : Option CliOption → Prop where
  | found {o : CliOption} (h : o ∈ options) (hname : o.longName = name) :
      OptionNamed options name (some o)
  | missing (h : ∀ o ∈ options, o.longName ≠ name) : OptionNamed options name none

/-- An item of a command line: an occurrence of one of `n` options with its argument, or an
option that is unknown. -/
inductive Occurrence (n : ℕ) where
  | known (i : Fin n) (arg : Option (List Byte))
  | unknown (arg : Option (List Byte))
  deriving DecidableEq

/-- How `getopt_long` reports an item: an option by the value in the table. -/
def report (options : List CliOption) : Occurrence options.length → Report
  | .known i arg => ⟨optionVal options[i] i, arg⟩
  | .unknown arg => ⟨unknownOption, arg⟩

/-- The options of a command line with their arguments. -/
def occurrenceEntry (options : List CliOption) :
    Occurrence options.length → Option CliEntry
  | .known i arg => some ⟨options[i].longName, arg⟩
  | .unknown _ => none

/-- The entry that `cli_parse` records for an item.  An option with the short name `'?'` is
reported as an unknown one. -/
def recordedEntry (options : List CliOption) (item : Occurrence options.length) :
    Option CliEntry :=
  if (report options item).val = unknownOption then none else occurrenceEntry options item

/-- The entries that `cli_parse` records for a command line.  An option whose short name is
reported as the end of the options ends them. -/
def recordedEntries (options : List CliOption) (items : List (Occurrence options.length)) :
    List CliEntry :=
  ((items.takeWhile fun item => (report options item).val ≠ endOfOptions).filterMap
    (recordedEntry options)).take cliMaxOpts

/-- The entries that `cli_load_config` takes from a file. -/
def ConfigFile.entries (file : ConfigFile) : List CliEntry :=
  (file.content.map entriesRead).getD []

/-- The last entry with a key. -/
def IsLast (entries : List CliEntry) (key : List Byte) (e : CliEntry) : Prop :=
  e.key = key ∧ ∃ pre post, entries = pre ++ e :: post ∧ ∀ e' ∈ post, e'.key ≠ key

/-- No entry has the key. -/
def Absent (entries : List CliEntry) (key : List Byte) : Prop :=
  ∀ e ∈ entries, e.key ≠ key

/-- The value of a name, when `args` are the occurrences of options and `config` the entries
of the configuration files. -/
inductive ResolvesTo (args config : List CliEntry) (getenv : List Byte → Option (List Byte))
    (opt : Option CliOption) (name : List Byte) : Option (List Byte) → Prop where
  | args {e : CliEntry} (h : IsLast args name e) :
      ResolvesTo args config getenv opt name (some (e.value.getD []))
  | env {v : List Byte} (hargs : Absent args name)
      (h : (opt.bind CliOption.envVar).bind getenv = some v) :
      ResolvesTo args config getenv opt name (some v)
  | config {e : CliEntry} (hargs : Absent args name)
      (henv : (opt.bind CliOption.envVar).bind getenv = none) (h : IsLast config name e) :
      ResolvesTo args config getenv opt name (some (e.value.getD []))
  | default (hargs : Absent args name)
      (henv : (opt.bind CliOption.envVar).bind getenv = none) (hconfig : Absent config name) :
      ResolvesTo args config getenv opt name (opt.bind CliOption.defaultVal)

/-! ### The recorded occurrences -/

section Parse

variable {options : List CliOption}

/-- The values of the options of a table are distinct. -/
theorem CliTable.optionVal_inj
    (h : CliTable options) {i j : Fin options.length}
    (hval : optionVal options[i] i = optionVal options[j] j) :
  i = j
  := by
  have hlt : ∀ k : Fin options.length, options[k].shortName.toInt < 256 := by
    intro k
    have := options[k].shortName.toInt_lt
    omega
  have hi := hlt i
  have hj := hlt j
  rw [optionVal, optionVal] at hval
  split at hval
  case isTrue hne =>
    split at hval
    case isTrue =>
      apply h.shortNames i j (Int8.toInt_inj.mp hval) hne
    case isFalse => omega
  case isFalse =>
    split at hval
    case isTrue => omega
    case isFalse =>
      apply Fin.ext
      omega

/-- The loop over the options finds the one that was reported. -/
theorem CliTable.find?_report
    (h : CliTable options) (i : Fin options.length) (arg : Option (List Byte)) :
  (options.zipIdx.find? fun p => (report options (.known i arg)).val = optionVal p.1 p.2)
    = some (options[i], i.val)
  := by
  rw [List.find?_eq_some_iff_getElem]
  refine ⟨by simp [report], i, by simp, by simp, ?_⟩
  intro j hj
  have hne : ¬ optionVal options[i] i = optionVal options[j] j := by
    intro hval
    have hij := congrArg Fin.val (h.optionVal_inj (j := ⟨j, by omega⟩) hval)
    exact absurd hij (Nat.ne_of_gt hj)
  simpa [report] using hne

/-- A report adds the entry that is recorded for the item. -/
theorem CliTable.parseReport_eq
    (h : CliTable options) (ctx : CliContext) (item : Occurrence options.length) :
  parseReport options ctx (report options item)
    = (recordedEntry options item).elim ctx fun e => ctxAddCli ctx e.key e.value
  := by
  rw [parseReport, recordedEntry]
  split
  case isTrue => rfl
  case isFalse hval =>
    cases item with
    | unknown arg => exact absurd rfl hval
    | known i arg =>
        rw [h.find?_report]
        rfl

/-- The loop records the entries for which there is room. -/
theorem CliTable.foldl_parseReport
    (h : CliTable options) (items : List (Occurrence options.length)) (ctx : CliContext)
    (hctx : ctx.cliArgs.length ≤ cliMaxOpts) :
  (items.map (report options)).foldl (parseReport options) ctx
    = { ctx with
        cliArgs := (ctx.cliArgs ++ items.filterMap (recordedEntry options)).take cliMaxOpts }
  := by
  induction items generalizing ctx with
  | nil =>
      rw [List.map_nil, List.foldl_nil, List.filterMap_nil, List.append_nil,
        List.take_of_length_le hctx]
  | cons item items ih =>
      rw [List.map_cons, List.foldl_cons, h.parseReport_eq]
      cases he : recordedEntry options item with
      | none =>
          rw [List.filterMap_cons_none he]
          apply ih ctx hctx
      | some e =>
          rw [List.filterMap_cons_some he, Option.elim_some, ctxAddCli]
          split
          case isTrue hfull =>
            have hlength : ctx.cliArgs.length = cliMaxOpts := by omega
            rw [ih ctx hctx, ← hlength, List.take_left, List.take_left]
          case isFalse hroom =>
            rw [ih _ (by simp; omega), List.append_assoc, List.singleton_append]

/-- What `cli_parse` leaves in the context. -/
theorem CliTable.cliParse_eq
    (h : CliTable options) {getopt : GetoptLong} {argv : List (List Byte)}
    {items : List (Occurrence options.length)} {ctx ctx₀ : CliContext}
    (hgetopt : getopt argv (shortStr options) (longOpts options) = items.map (report options))
    (hparse : cliParse getopt argv options ctx = (.ok, ctx₀)) :
  ctx₀ = ⟨recordedEntries options items, [], options⟩
  := by
  rw [cliParse] at hparse
  split at hparse
  · cases (Prod.mk.inj hparse).1
  · rw [hgetopt] at hparse
    dsimp only at hparse
    rw [List.takeWhile_map] at hparse
    have hfold := h.foldl_parseReport
      (items.takeWhile ((fun r : Report => decide (r.val ≠ endOfOptions)) ∘ report options))
      ⟨[], [], options⟩ (Nat.zero_le cliMaxOpts)
    rw [hfold] at hparse
    exact (Prod.mk.inj hparse).2.symm

end Parse

/-! ### The stored entries -/

theorem take_take_append {α : Type} (n : ℕ) (s t : List α) :
  (s.take n ++ t).take n = (s ++ t).take n
  := by
  rw [List.take_append, List.take_append, List.take_take, Nat.min_self, List.length_take]
  congr 2
  omega

/-- A file that is loaded without an error adds its entries for which there is room. -/
theorem cliLoadConfig_ok
    {file : ConfigFile} {ctx ctx' : CliContext} (h : ctx.configVals.length ≤ cliMaxConfig)
    (hload : cliLoadConfig file ctx = (.ok, ctx')) :
  ctx' = { ctx with configVals := (ctx.configVals ++ file.entries).take cliMaxConfig }
  := by
  obtain ⟨content, strdup, fclose⟩ := file
  cases content with
  | none => cases (Prod.mk.inj hload).1
  | some text =>
      rw [cliLoadConfig] at hload
      rcases configLoop_cases strdup 0 (fgetsAll configLineSize text) ctx h with
        hloop | ⟨hnomem, -⟩
      · simp only [hloop] at hload
        cases fclose with
        | true => exact (Prod.mk.inj hload).2.symm
        | false => cases (Prod.mk.inj hload).1
      · dsimp only at hload
        rw [if_pos (by simp [hnomem])] at hload
        rw [hload] at hnomem
        cases hnomem

/-- What loading several files leaves in the context. -/
theorem cliLoadConfigs_eq
    {files : List ConfigFile} {ctx ctx' : CliContext}
    (h : ctx.configVals.length ≤ cliMaxConfig) (hload : cliLoadConfigs files ctx = some ctx') :
  ctx' = { ctx with
    configVals := (ctx.configVals ++ files.flatMap ConfigFile.entries).take cliMaxConfig }
  := by
  induction files generalizing ctx with
  | nil =>
      obtain rfl := Option.some.inj hload
      rw [List.flatMap_nil, List.append_nil, List.take_of_length_le h]
  | cons file files ih =>
      rw [cliLoadConfigs] at hload
      split at hload
      case h_2 => cases hload
      case h_1 ctx₁ hfile =>
        obtain rfl := cliLoadConfig_ok h hfile
        rw [ih (List.length_take_le _ _) hload]
        dsimp only
        rw [take_take_append, List.flatMap_cons, List.append_assoc]

/-! ### The value of an option -/

theorem IsLast.findEntry_eq {entries : List CliEntry} {key : List Byte} {e : CliEntry}
    (h : IsLast entries key e) :
  findEntry entries key = some (e.value.getD [])
  := by
  obtain ⟨hkey, pre, post, rfl, hpost⟩ := h
  have hnone : (post.reverse.find? fun e => e.key = key) = none := by
    rw [List.find?_eq_none]
    intro e' he'
    simpa using hpost e' (List.mem_reverse.mp he')
  rw [findEntry, List.reverse_append, List.reverse_cons, List.append_assoc, List.find?_append,
    hnone, Option.none_or, List.singleton_append, List.find?_cons_of_pos (by simpa using hkey),
    Option.map_some]

theorem Absent.findEntry_eq {entries : List CliEntry} {key : List Byte}
    (h : Absent entries key) :
  findEntry entries key = none
  := by
  rw [findEntry, Option.map_eq_none_iff, List.find?_eq_none]
  intro e he
  simpa using h e (List.mem_reverse.mp he)

/-- A key is absent, or it has a last entry. -/
theorem absent_or_isLast (entries : List CliEntry) (key : List Byte) :
  Absent entries key ∨ ∃ e, IsLast entries key e
  := by
  induction entries using List.reverseRecOn with
  | nil =>
      left
      intro e he
      cases he
  | append_singleton entries e ih =>
      by_cases hkey : e.key = key
      · right
        use e, hkey, entries, [], rfl
        intro e' he'
        cases he'
      · rcases ih with habsent | ⟨e', hkey', pre, post, rfl, hpost⟩
        · left
          intro e' he'
          rcases List.mem_append.mp he' with he' | he'
          · apply habsent e' he'
          · rwa [List.mem_singleton.mp he']
        · right
          use e', hkey', pre, post ++ [e], by simp
          intro e'' he''
          rcases List.mem_append.mp he'' with he'' | he''
          · apply hpost e'' he''
          · rwa [List.mem_singleton.mp he'']

/-- In a table with distinct names, `find_option` finds the option with a name. -/
theorem CliTable.findOption_eq
    {options : List CliOption} (h : CliTable options) {name : List Byte} {opt : Option CliOption}
    (hopt : OptionNamed options name opt) :
  findOption options name = opt
  := by
  cases hopt with
  | missing hnone =>
      rw [findOption, List.find?_eq_none]
      intro o ho
      simpa using hnone o ho
  | @found o ho hname =>
      have hsome : ∃ o', findOption options name = some o' := by
        rw [← Option.isSome_iff_exists, findOption, List.find?_isSome]
        use o, ho
        simpa using hname
      obtain ⟨o', ho'⟩ := hsome
      have hmem := List.mem_of_find?_eq_some ho'
      have hname' := List.find?_some ho'
      rw [decide_eq_true_iff] at hname'
      rw [ho', List.inj_on_of_nodup_map h.longNames hmem ho (hname'.trans hname.symm)]

/-- `cli_resolve` gives the value of a name, when the entries are those of the context. -/
theorem resolvesTo_iff
    (ctx : CliContext) {getenv : List Byte → Option (List Byte)} {name : List Byte}
    {v : Option (List Byte)} :
  ResolvesTo ctx.cliArgs ctx.configVals getenv (findOption ctx.options name) name v
    ↔ cliResolve getenv ctx name = v
  := by
  rw [cliResolve]
  constructor
  · intro h
    cases h with
    | args hlast => rw [hlast.findEntry_eq]
    | env hargs henv =>
        rw [hargs.findEntry_eq]
        simp only [henv]
    | config hargs henv hlast =>
        rw [hargs.findEntry_eq]
        simp only [henv, hlast.findEntry_eq]
    | default hargs henv hconfig =>
        rw [hargs.findEntry_eq]
        simp only [henv, hconfig.findEntry_eq]
  · rintro rfl
    rcases absent_or_isLast ctx.cliArgs name with hargs | ⟨e, hlast⟩
    · rw [hargs.findEntry_eq]
      dsimp only
      cases henv : ((findOption ctx.options name).bind CliOption.envVar).bind getenv with
      | some v => exact .env hargs henv
      | none =>
          rcases absent_or_isLast ctx.configVals name with hconfig | ⟨e, hlast⟩
          · rw [hconfig.findEntry_eq]
            exact .default hargs henv hconfig
          · rw [hlast.findEntry_eq]
            exact .config hargs henv hlast
    · rw [hlast.findEntry_eq]
      exact .args hlast

/-- An option has the value of its last occurrence among the first 64 that are recorded, or
else of its environment variable, or else of the last of the first 128 entries for it in the
configuration files, or else its default. -/
theorem cli_resolve_layers
    {getopt : GetoptLong} {argv : List (List Byte)} {options : List CliOption}
    (htable : CliTable options) {items : List (Occurrence options.length)}
    (hgetopt : getopt argv (shortStr options) (longOpts options) = items.map (report options))
    {ctx ctx₀ ctx₁ : CliContext} (hparse : cliParse getopt argv options ctx = (.ok, ctx₀))
    {files : List ConfigFile} (hload : cliLoadConfigs files ctx₀ = some ctx₁)
    (getenv : List Byte → Option (List Byte)) {name : List Byte} {opt : Option CliOption}
    (hopt : OptionNamed options name opt) :
  ResolvesTo (recordedEntries options items)
    ((files.flatMap ConfigFile.entries).take cliMaxConfig) getenv opt name
    (cliResolve getenv ctx₁ name)
  := by
  obtain rfl := htable.cliParse_eq hgetopt hparse
  obtain rfl := cliLoadConfigs_eq (by simp) hload
  rw [← htable.findOption_eq hopt]
  apply (resolvesTo_iff ⟨_, _, options⟩).mpr rfl

/-- The option `"v"` with the arguments `"1"` and `"2"` has the value `"2"`. -/
theorem cli_resolve_layers_run :
  ∃ (o : CliOption) (items : List (Occurrence 1)),
    recordedEntries [o] items = [⟨[118], some [49]⟩, ⟨[118], some [50]⟩]
      ∧ ResolvesTo (recordedEntries [o] items) [] (fun _ => none) (some o) [118] (some [50])
  := by
  let o : CliOption := ⟨[118], 118, 1, none, some [48]⟩
  let items : List (Occurrence 1) := [.known 0 (some [49]), .unknown none, .known 0 (some [50])]
  let getopt : GetoptLong := fun _ _ _ => items.map (report [o])
  have htable : CliTable [o] := by
    constructor <;> decide
  have hgetopt : getopt [] (shortStr [o]) (longOpts [o]) = items.map (report [o]) := rfl
  have hparse : cliParse getopt [] [o] ⟨[], [], []⟩
      = (.ok, ⟨[⟨[118], some [49]⟩, ⟨[118], some [50]⟩], [], [o]⟩) := by
    decide
  have hload : ∀ ctx, cliLoadConfigs [] ctx = some ctx := fun _ => rfl
  have hopt : OptionNamed [o] [118] (some o) := .found List.mem_cons_self rfl
  use o, items, by decide
  apply cli_resolve_layers htable hgetopt hparse (hload _) (fun _ => none) hopt

/-- The value of every name comes from all occurrences of options and all entries of the
configuration files. -/
def ResolvesAll (options : List CliOption) (items : List (Occurrence options.length))
    (files : List ConfigFile) : Prop :=
  ∀ (ctx ctx₀ ctx₁ : CliContext) getenv name opt, CliTable options →
    cliParse (fun _ _ _ => items.map (report options)) [] options ctx = (.ok, ctx₀) →
    cliLoadConfigs files ctx₀ = some ctx₁ → OptionNamed options name opt →
    ResolvesTo (items.filterMap (occurrenceEntry options)) (files.flatMap ConfigFile.entries)
      getenv opt name (cliResolve getenv ctx₁ name)

theorem optionNamed_findOption (options : List CliOption) (name : List Byte) :
  OptionNamed options name (findOption options name)
  := by
  cases h : findOption options name with
  | some o =>
      apply OptionNamed.found (List.mem_of_find?_eq_some h)
      simpa using List.find?_some h
  | none =>
      apply OptionNamed.missing
      intro o ho
      simpa using List.find?_eq_none.mp h o ho

/-- A run in which the value of a name differs from the one that all entries give. -/
theorem not_resolvesAll
    {options : List CliOption} {items : List (Occurrence options.length)}
    {files : List ConfigFile} {ctx₀ ctx₁ : CliContext} (name : List Byte)
    (htable : CliTable options)
    (hparse : cliParse (fun _ _ _ => items.map (report options)) [] options ⟨[], [], []⟩
      = (.ok, ctx₀))
    (hload : cliLoadConfigs files ctx₀ = some ctx₁)
    (hne : cliResolve (fun _ => none)
        ⟨items.filterMap (occurrenceEntry options), files.flatMap ConfigFile.entries, options⟩ name
      ≠ cliResolve (fun _ => none) ctx₁ name) :
  ¬ ResolvesAll options items files
  := by
  intro hall
  apply hne
  apply (resolvesTo_iff ⟨_, _, options⟩).mp
  apply hall _ _ _ _ _ _ htable hparse hload (optionNamed_findOption options name)

/-- The 65th occurrence of an option is lost, and an occurrence of an option whose short name is
`'?'` or the character -1, and the 129th entry of a configuration file. -/
theorem cli_resolve_dropped :
  ¬ ResolvesAll [⟨[118], 118, 1, none, none⟩]
      (List.replicate 64 (.known 0 (some [49])) ++ [.known 0 (some [50])]) []
    ∧ ¬ ResolvesAll [⟨[118], 63, 0, none, none⟩] [.known 0 none] []
    ∧ ¬ ResolvesAll [⟨[118], -1, 0, none, none⟩] [.known 0 none] []
    ∧ ¬ ResolvesAll [] []
      [⟨some ((List.replicate 128 [118, 61, 49, 10]).flatten ++ [118, 61, 50, 10]),
        fun _ => true, true⟩]
  := by
  have htable : ∀ (c : Int8) (argReq : ℤ), CliTable [⟨[118], c, argReq, none, none⟩] := by
    intro c argReq
    constructor
    · apply List.nodup_singleton
    · intro i j _ _
      apply Subsingleton.elim (α := Fin 1)
  refine ⟨?_, ?_, ?_, ?_⟩
  · apply not_resolvesAll [118] (htable 118 1) rfl rfl
    decide +kernel
  · apply not_resolvesAll [118] (htable 63 0) rfl rfl
    decide +kernel
  · apply not_resolvesAll [118] (htable (-1) 0) rfl rfl
    decide +kernel
  · have htable : CliTable [] := by
      constructor <;> decide
    have hload : cliLoadConfigs [⟨some ((List.replicate 128 [118, 61, 49, 10]).flatten
          ++ [118, 61, 50, 10]), fun _ => true, true⟩] ⟨[], [], []⟩
        = some ⟨[], List.replicate 128 ⟨[118], some [49]⟩, []⟩ := by
      decide +kernel
    have hparse : cliParse (fun _ _ _ => [].map (report [])) [] [] ⟨[], [], []⟩
        = (.ok, ⟨[], [], []⟩) := rfl
    apply not_resolvesAll [118] htable hparse hload
    decide +kernel

end CTemplate
