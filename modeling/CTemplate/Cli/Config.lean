import CTemplate.Core.Ctype
import CTemplate.Core.Error
import CTemplate.Core.Stdio
import CTemplate.Library.Scan
import Mathlib.Data.Int.Notation
import Mathlib.Data.List.Induction

/-!
# Configuration files

The data model of `cli/argparse.c` and `cli_load_config`.  A configuration file is read with
a buffer of 1024 bytes, so a line of more than 1023 bytes is read in blocks, each of which is
taken for a line.  The entries of the lines are stored nevertheless exactly when the file is
what `ConfigReadable` says.
-/

namespace CTemplate

open Scan

/-- `CLI_MAX_OPTS` -/
def cliMaxOpts : ℕ := 64

/-- `CLI_MAX_CONFIG` -/
def cliMaxConfig : ℕ := 128

/-- The size of the buffer for a line of a configuration file. -/
def configLineSize : ℕ := 1024

/-- The character `'#'`. -/
def hash : Byte := 35

/-- The character `'='`. -/
def equals : Byte := 61

/-- `CliOption`, without its help text. -/
structure CliOption where
  longName : List Byte
  shortName : Int8
  argReq : ℤ
  envVar : Option (List Byte)
  defaultVal : Option (List Byte)
  deriving DecidableEq

/-- `CliEntry` -/
structure CliEntry where
  key : List Byte
  value : Option (List Byte)
  deriving DecidableEq

/-- `CliContext`: the used parts of its arrays. -/
structure CliContext where
  cliArgs : List CliEntry
  configVals : List CliEntry
  options : List CliOption
  deriving DecidableEq

/-- `trim` -/
def trim (s : List Byte) : List Byte :=
  Scan.trim isSpace s

/-- The text before the first `'='` and the text after it. -/
def splitEquals (s : List Byte) : List Byte × List Byte :=
  (s.takeWhile (· ≠ equals), (s.dropWhile (· ≠ equals)).tail)

/-- The entry that `cli_load_config` takes from the content of its buffer, if any. -/
def configLine (line : List Byte) : Option CliEntry :=
  let s := trim (cstr line)
  if s = [] ∨ s.head? = some hash then none
  else if equals ∈ s then
    some ⟨trim (splitEquals s).1, some (trim (splitEquals s).2)⟩
  else none

/-- The loop of `cli_load_config` over what `fgets` reads.  The calls of `strdup` are
numbered, the next one by `k`. -/
def configLoop (strdup : ℕ → Bool) :
    ℕ → List (List Byte) → CliContext → ErrorCode × CliContext
  | _, [], ctx => (.ok, ctx)
  | k, line :: rest, ctx =>
      match configLine line with
      | none => configLoop strdup k rest ctx
      | some e =>
          if ctx.configVals.length < cliMaxConfig then
            if strdup k ∧ strdup (k + 1) then
              configLoop strdup (k + 2) rest { ctx with configVals := ctx.configVals ++ [e] }
            else (.nomem, ctx)
          else configLoop strdup k rest ctx

/-- What a call of `cli_load_config` meets: the content of the file unless it cannot be
opened, and which of the calls of `strdup` and whether the call of `fclose` succeed. -/
structure ConfigFile where
  content : Option (List Byte)
  strdup : ℕ → Bool
  fclose : Bool

/-- `cli_load_config` -/
def cliLoadConfig (file : ConfigFile) (ctx : CliContext) : ErrorCode × CliContext :=
  match file.content with
  | none => (.notFound, ctx)
  | some text =>
      let r := configLoop file.strdup 0 (fgetsAll configLineSize text) ctx
      if r.1 ≠ .ok then r
      else if file.fclose then r
      else (.io, r.2)

/-- The entry of a line: the trimmed text before its first `'='` and the trimmed text after
it.  A line that is blank, that starts with `'#'` or that has no `'='` has none. -/
def configEntry (line : List Byte) : Option CliEntry :=
  if trim line ≠ [] ∧ (trim line).head? ≠ some hash ∧ equals ∈ trim line then
    some ⟨trim (splitEquals line).1, some (trim (splitEquals line).2)⟩
  else none

/-- The entries of the lines of a text. -/
def configEntries (text : List Byte) : List CliEntry :=
  (textLines text).filterMap configEntry

/-- The blocks in which a line is read. -/
def configBlocks (line : List Byte) : List (List Byte) :=
  Lines.blocks (configLineSize - 1) line

/-- The entries that the blocks of a line give. -/
def blockEntries (line : List Byte) : List CliEntry :=
  (configBlocks line).filterMap configEntry

/-- Reading a line in blocks gives its entry: only one block of a line with an entry is not
blank, and a block of a line without one that has a `'='` starts with `'#'`. -/
structure ReadsWhole (line : List Byte) : Prop where
  entry : configEntry line ≠ none → ∃ pre c post, configBlocks line = pre ++ c :: post
    ∧ Blank isSpace pre.flatten ∧ Blank isSpace post.flatten
  none : configEntry line = none →
    ∀ c ∈ configBlocks line, equals ∈ c → (trim c).head? = some hash

/-- Every line of the text before which fewer than `room` entries were stored is read as a
whole. -/
def ConfigReadable (room : ℕ) (text : List Byte) : Prop :=
  ∀ pre line post, textLines text = pre ++ line :: post →
    (pre.filterMap configEntry).length < room → ReadsWhole line

/-! ### The entry of a line -/

theorem equals_not_mem_of_blank {s : List Byte} (hs : Blank isSpace s) :
  equals ∉ s
  := by
  intro h
  exact absurd (hs equals h) (by decide)

theorem splitEquals_eq {x : List Byte} (hx : equals ∉ x) (y : List Byte) :
  splitEquals (x ++ equals :: y) = (x, y)
  := by
  have hmem : ∀ c ∈ x, decide (c ≠ equals) = true := by
    intro c hc
    rw [decide_eq_true_iff]
    rintro rfl
    apply hx hc
  have hstops : Stops (fun c => decide (c ≠ equals)) (equals :: y) := stops_cons (by simp)
  rw [splitEquals, takeWhile_eq_self hmem hstops, dropWhile_eq_rest hmem hstops, List.tail_cons]

/-- White space around a line does not change its entry. -/
theorem configEntry_pad
    {a b : List Byte} (ha : Blank isSpace a) (hb : Blank isSpace b) (c : List Byte) :
  configEntry (a ++ (c ++ b)) = configEntry c
  := by
  have htrim : trim (a ++ (c ++ b)) = trim c := by
    simp only [trim, trim_append_left ha, trim_append_right hb]
  rw [configEntry, configEntry, htrim]
  split
  case isFalse => rfl
  case isTrue h =>
    obtain ⟨x, y, rfl, hx⟩ := List.eq_append_cons_of_mem ((mem_trim_iff rfl).mp h.2.2)
    have hax : equals ∉ a ++ x := by
      simp [hx, equals_not_mem_of_blank ha]
    have hsplit : a ++ (x ++ equals :: y ++ b) = (a ++ x) ++ equals :: (y ++ b) := by simp
    rw [hsplit, splitEquals_eq hax, splitEquals_eq hx]
    simp only [trim, trim_append_left ha, trim_append_right hb]

/-- `cli_load_config` takes from its buffer the entry of the string in it. -/
theorem configLine_eq (line : List Byte) :
  configLine line = configEntry (cstr line)
  := by
  obtain ⟨a, b, ha, hb, hs⟩ : ∃ a b, Blank isSpace a ∧ Blank isSpace b
      ∧ cstr line = a ++ (trim (cstr line) ++ b) :=
    exists_trim isSpace (cstr line)
  have htrim : trim (trim (cstr line)) = trim (cstr line) := trim_trim isSpace (cstr line)
  rw [hs, configEntry_pad ha hb, configLine, configEntry]
  generalize trim (cstr line) = s at htrim
  simp only [htrim]
  by_cases h : s = [] ∨ s.head? = some hash
  · rw [if_pos h, if_neg]
    tauto
  · rw [if_neg h]
    congr 1
    apply propext
    tauto

theorem configEntry_eq_none_iff {line : List Byte} :
  configEntry line = none ↔ (equals ∈ line → (trim line).head? = some hash)
  := by
  have hmem : equals ∈ trim line ↔ equals ∈ line := mem_trim_iff rfl
  have hne : equals ∈ trim line → trim line ≠ [] := List.ne_nil_of_mem
  rw [configEntry, ← hmem]
  split
  · simp
    tauto
  · simp
    tauto

theorem configEntry_of_blank {line : List Byte} (h : Blank isSpace line) :
  configEntry line = none
  := by
  rw [configEntry_eq_none_iff]
  intro hmem
  exact absurd hmem (equals_not_mem_of_blank h)

/-- Lines with the same entry have the same number of bytes that are not white space. -/
theorem countP_eq_of_configEntry
    {c d : List Byte} {e : CliEntry} (hc : configEntry c = some e) (hd : configEntry d = some e) :
  c.countP (fun x => !isSpace x) = d.countP (fun x => !isSpace x)
  := by
  have hcount : ∀ {s : List Byte}, configEntry s = some e →
      s.countP (fun x => !isSpace x)
        = e.key.countP (fun x => !isSpace x)
          + ((e.value.getD []).countP (fun x => !isSpace x) + 1) := by
    intro s hs
    rw [configEntry] at hs
    split at hs
    case isFalse => cases hs
    case isTrue h =>
      obtain ⟨x, y, rfl, hx⟩ := List.eq_append_cons_of_mem ((mem_trim_iff rfl).mp h.2.2)
      obtain rfl := Option.some.inj hs
      rw [splitEquals_eq hx, List.countP_append, List.countP_cons_of_pos rfl]
      simp only [trim, countP_trim, Option.getD_some]
  rw [hcount hc, hcount hd]

theorem flatten_configBlocks (line : List Byte) :
  (configBlocks line).flatten = line
  := Lines.flatten_blocks (by decide) line

/-- The blocks of a line give its entry exactly when it is read as a whole. -/
theorem take_blockEntries_iff {line : List Byte} {room : ℕ} (hroom : 0 < room) :
  (blockEntries line).take room = (configEntry line).toList ↔ ReadsWhole line
  := by
  have hflat := flatten_configBlocks line
  cases h : configEntry line with
  | none =>
      rw [Option.toList_none, List.take_eq_nil_iff, or_iff_right (Nat.ne_zero_of_lt hroom),
        blockEntries, List.filterMap_eq_nil_iff]
      constructor
      · intro hnone
        constructor
        · intro hne
          exact absurd h hne
        · intro _ c hc
          apply configEntry_eq_none_iff.mp (hnone c hc)
      · intro hwhole c hc
        rw [configEntry_eq_none_iff]
        apply hwhole.none h c hc
  | some e =>
      constructor
      · intro htake
        have he : e ∈ (blockEntries line).take room := by simp [htake]
        obtain ⟨c, hc, hce⟩ := List.mem_filterMap.mp (List.mem_of_mem_take he)
        obtain ⟨pre, post, hsplit⟩ := List.append_of_mem hc
        -- the block has all bytes of the line that are not white space
        have hcount := countP_eq_of_configEntry h hce
        rw [← hflat, hsplit, List.flatten_append, List.flatten_cons, List.countP_append,
          List.countP_append] at hcount
        constructor
        · intro _
          use pre, c, post, hsplit
          rw [← countP_eq_zero_iff, ← countP_eq_zero_iff]
          omega
        · intro hnone
          rw [h] at hnone
          cases hnone
      · intro hwhole
        obtain ⟨pre, c, post, hsplit, hpre, hpost⟩ := hwhole.entry (by simp [h])
        rw [hsplit, List.flatten_append, List.flatten_cons] at hflat
        have hblank : ∀ {bs : List (List Byte)}, Blank isSpace bs.flatten →
            bs.filterMap configEntry = [] := by
          intro bs hbs
          rw [List.filterMap_eq_nil_iff]
          intro b hb
          apply configEntry_of_blank
          intro x hx
          apply hbs x (List.mem_flatten_of_mem hb hx)
        rw [← hflat, configEntry_pad hpre hpost] at h
        rw [blockEntries, hsplit, List.filterMap_append, List.filterMap_cons_some h,
          hblank hpre, hblank hpost, List.nil_append, List.take_of_length_le hroom,
          Option.toList_some]

/-! ### Loading a file -/

/-- The loop stores the entries for which there is room, unless an allocation fails. -/
theorem configLoop_cases
    (strdup : ℕ → Bool) (k : ℕ) (ls : List (List Byte)) (ctx : CliContext)
    (h : ctx.configVals.length ≤ cliMaxConfig) :
  configLoop strdup k ls ctx
      = (.ok, { ctx with
          configVals := (ctx.configVals ++ ls.filterMap configLine).take cliMaxConfig })
    ∨ (configLoop strdup k ls ctx).1 = .nomem ∧ ∃ j, strdup j = false
  := by
  induction ls generalizing k ctx with
  | nil =>
      left
      rw [configLoop, List.filterMap_nil, List.append_nil, List.take_of_length_le h]
  | cons line ls ih =>
      rw [configLoop]
      cases he : configLine line with
      | none =>
          rw [List.filterMap_cons_none he]
          apply ih k ctx h
      | some e =>
          rw [List.filterMap_cons_some he]
          dsimp only
          split
          case isFalse hfull =>
            have hlength : ctx.configVals.length = cliMaxConfig := by omega
            have htake : ∀ es : List CliEntry,
                (ctx.configVals ++ es).take cliMaxConfig = ctx.configVals := by
              intro es
              rw [← hlength, List.take_left]
            have hrest := ih k ctx h
            rw [htake] at hrest ⊢
            exact hrest
          case isTrue hroom =>
          split
          case isTrue =>
            have hrest := ih (k + 2) { ctx with configVals := ctx.configVals ++ [e] }
              (by simpa using Nat.succ_le_of_lt hroom)
            rwa [List.append_assoc, List.singleton_append] at hrest
          case isFalse hdup =>
            right
            use rfl
            by_contra hall
            apply hdup
            simp only [not_exists, Bool.not_eq_false] at hall
            exact ⟨hall k, hall (k + 1)⟩

section Load

variable {text : List Byte} {ctx : CliContext} {strdup : ℕ → Bool} {fclose : Bool}

/-- The entries that `cli_load_config` takes from a text. -/
def entriesRead (text : List Byte) : List CliEntry :=
  (fgetsAll configLineSize text).filterMap configLine

/-- A text without zero bytes is read block by block. -/
theorem entriesRead_eq (hnul : 0 ∉ text) :
  entriesRead text = (textLines text).flatMap blockEntries
  := by
  have hblocks : ∀ c ∈ fgetsAll configLineSize text, configLine c = configEntry c := by
    intro c hc
    rw [configLine_eq, cstr_eq_self]
    intro h0
    apply hnul
    have hflat : (fgetsAll configLineSize text).flatten = text :=
      Lines.flatten_readAll (by decide) text
    rw [← hflat]
    apply List.mem_flatten_of_mem hc h0
  rw [entriesRead, List.filterMap_congr hblocks, fgetsAll, Lines.readAll_eq (by decide),
    List.filterMap_flatMap]
  rfl

/-- With all allocations succeeding, the entries are stored for which there is room. -/
theorem cliLoadConfig_configVals
    (hstrdup : ∀ k, strdup k = true) (h : ctx.configVals.length ≤ cliMaxConfig) :
  (cliLoadConfig ⟨some text, strdup, fclose⟩ ctx).2
    = { ctx with configVals := (ctx.configVals ++ entriesRead text).take cliMaxConfig }
  := by
  have hloop := configLoop_cases strdup 0 (fgetsAll configLineSize text) ctx h
  rw [or_iff_left] at hloop
  · rw [cliLoadConfig]
    simp only [hloop]
    cases fclose <;> rfl
  · rintro ⟨-, j, hj⟩
    simp [hstrdup j] at hj

/-- The entries of some lines that are stored when there is room for `room` of them. -/
def storedEntries (room : ℕ) (ls : List (List Byte)) : List CliEntry :=
  (ls.flatMap blockEntries).take room

/-- When the entries of the lines before it are stored, the entry of a line is stored
exactly when the line is read as a whole or there is no room left. -/
theorem storedEntries_line_iff
    {room : ℕ} {pre : List (List Byte)} {line : List Byte}
    (hpre : storedEntries room pre = pre.filterMap configEntry)
    (hfit : ((pre ++ [line]).filterMap configEntry).length ≤ room) :
  storedEntries room (pre ++ [line]) = storedEntries room pre ++ (configEntry line).toList
    ↔ ((pre.filterMap configEntry).length < room → ReadsWhole line)
  := by
  have hlength := congrArg List.length hpre
  rw [List.filterMap_append, List.length_append] at hfit
  rw [storedEntries, List.length_take] at hlength
  rw [storedEntries, List.flatMap_append, List.flatMap_singleton, List.take_append,
    ← storedEntries, List.append_cancel_left_eq]
  by_cases hroom : (pre.filterMap configEntry).length < room
  · rw [take_blockEntries_iff (by omega)]
    constructor
    · intro h _
      exact h
    · intro h
      apply h hroom
  · have hnone : [line].filterMap configEntry = [] := by
      apply List.eq_nil_of_length_eq_zero
      omega
    have hline : configEntry line = none := by simpa using hnone
    have hfull : room - (pre.flatMap blockEntries).length = 0 := by omega
    rw [hfull, hline, List.take_zero]
    constructor
    · intro _ h
      exact absurd h hroom
    · intro _
      rfl

/-- If the entry of every line is stored when those of the lines before it are, the entries
of all lines are stored. -/
theorem storedEntries_eq
    {room : ℕ} {ls : List (List Byte)}
    (h : ∀ (pre : List (List Byte)) line post, ls = pre ++ line :: post →
      storedEntries room pre = pre.filterMap configEntry →
      storedEntries room (pre ++ [line]) = storedEntries room pre ++ (configEntry line).toList)
    (pre post : List (List Byte)) (hls : ls = pre ++ post) :
  storedEntries room pre = pre.filterMap configEntry
  := by
  induction pre using List.reverseRecOn generalizing post with
  | nil => apply List.take_nil
  | append_singleton pre line ih =>
      rw [List.append_assoc, List.singleton_append] at hls
      have hpre := ih (line :: post) hls
      rw [h pre line post hls hpre, hpre, List.filterMap_append]
      rfl

/-- What `cli_load_config` promises: after it the entries of the lines are appended, and a
line adds its entry, if it has one, and nothing else to those of the lines before it. -/
structure ConfigLoaded (strdup : ℕ → Bool) (fclose : Bool) (text : List Byte)
    (ctx : CliContext) : Prop where
  all : (cliLoadConfig ⟨some text, strdup, fclose⟩ ctx).2
    = { ctx with configVals := ctx.configVals ++ configEntries text }
  line : ∀ pre line post, textLines text = pre ++ line :: post →
    (cliLoadConfig ⟨some (pre ++ [line]).flatten, strdup, fclose⟩ ctx).2.configVals
      = (cliLoadConfig ⟨some pre.flatten, strdup, fclose⟩ ctx).2.configVals
        ++ (configEntry line).toList

/-- The first lines of a text are stored as `storedEntries` says. -/
theorem cliLoadConfig_lines
    (hnul : 0 ∉ text) (hstrdup : ∀ k, strdup k = true) (h : ctx.configVals.length ≤ cliMaxConfig)
    {pre post : List (List Byte)} (hsplit : textLines text = pre ++ post) :
  (cliLoadConfig ⟨some pre.flatten, strdup, fclose⟩ ctx).2
    = { ctx with
        configVals := ctx.configVals ++ storedEntries (cliMaxConfig - ctx.configVals.length) pre }
  := by
  have hpre : 0 ∉ pre.flatten := by
    intro h0
    apply hnul
    rw [← Lines.flatten_lines newline text, ← textLines, hsplit, List.flatten_append]
    apply List.mem_append_left post.flatten h0
  rw [cliLoadConfig_configVals hstrdup h, entriesRead_eq hpre, textLines,
    Lines.lines_flatten_take hsplit, List.take_append, List.take_of_length_le h, storedEntries]

/-- `cli_load_config` stores the entries of the lines of a file exactly when it is
readable. -/
theorem cli_load_config_iff
    (hnul : 0 ∉ text) (hstrdup : ∀ k, strdup k = true)
    (hfit : ctx.configVals.length + (configEntries text).length ≤ cliMaxConfig) :
  ConfigLoaded strdup fclose text ctx
    ↔ ConfigReadable (cliMaxConfig - ctx.configVals.length) text
  := by
  have hctx : ctx.configVals.length ≤ cliMaxConfig := by omega
  generalize hroom : cliMaxConfig - ctx.configVals.length = room
  have hload : ∀ pre post : List (List Byte), textLines text = pre ++ post →
      (cliLoadConfig ⟨some pre.flatten, strdup, fclose⟩ ctx).2
        = { ctx with configVals := ctx.configVals ++ storedEntries room pre } := by
    intro pre post hsplit
    rw [← hroom]
    apply cliLoadConfig_lines hnul hstrdup hctx hsplit
  have hstep : ∀ (pre : List (List Byte)) line post, textLines text = pre ++ line :: post →
      storedEntries room pre = pre.filterMap configEntry →
      (storedEntries room (pre ++ [line])
          = storedEntries room pre ++ (configEntry line).toList
        ↔ ((pre.filterMap configEntry).length < room → ReadsWhole line)) := by
    intro pre line post hsplit hpre
    apply storedEntries_line_iff hpre
    have hle : ((pre ++ [line]).filterMap configEntry).length ≤ (configEntries text).length := by
      rw [configEntries, hsplit, ← List.singleton_append (l := post), ← List.append_assoc,
        List.filterMap_append (l := pre ++ [line]), List.length_append]
      omega
    omega
  have hline : ∀ (pre : List (List Byte)) line post, textLines text = pre ++ line :: post →
      ((cliLoadConfig ⟨some (pre ++ [line]).flatten, strdup, fclose⟩ ctx).2.configVals
          = (cliLoadConfig ⟨some pre.flatten, strdup, fclose⟩ ctx).2.configVals
            ++ (configEntry line).toList
        ↔ storedEntries room (pre ++ [line])
          = storedEntries room pre ++ (configEntry line).toList) := by
    intro pre line post hsplit
    rw [hload pre (line :: post) hsplit, hload (pre ++ [line]) post (by simp [hsplit]),
      List.append_assoc, List.append_cancel_left_eq]
  constructor
  · intro hloaded pre line post hsplit
    have hstored : storedEntries room pre = pre.filterMap configEntry := by
      apply storedEntries_eq _ pre (line :: post) hsplit
      intro pre line post hsplit _
      apply (hline pre line post hsplit).mp (hloaded.line pre line post hsplit)
    rw [← hstep pre line post hsplit hstored, ← hline pre line post hsplit]
    apply hloaded.line pre line post hsplit
  · intro hreadable
    have hstored : ∀ pre post, textLines text = pre ++ post →
        storedEntries room pre = pre.filterMap configEntry := by
      apply storedEntries_eq
      intro pre line post hsplit hpre
      apply (hstep pre line post hsplit hpre).mpr (hreadable pre line post hsplit)
    constructor
    · have hall := hload (textLines text) [] (List.append_nil _).symm
      rwa [hstored (textLines text) [] (List.append_nil _).symm, textLines,
        Lines.flatten_lines] at hall
    · intro pre line post hsplit
      rw [hline pre line post hsplit, hstep pre line post hsplit (hstored pre _ hsplit)]
      apply hreadable pre line post hsplit

/-- A line of at most 1023 bytes is read as a whole. -/
theorem readsWhole_of_length_lt {line : List Byte} (h : line.length < configLineSize) :
  ReadsWhole line
  := by
  apply (take_blockEntries_iff Nat.one_pos).mp
  by_cases hne : line = []
  · rw [hne, blockEntries, configBlocks, Lines.blocks_nil]
    rfl
  · rw [blockEntries, configBlocks, Lines.blocks_of_length_le hne (Nat.le_sub_one_of_lt h)]
    cases he : configEntry line <;> simp [he]

theorem configReadable_of_length_lt
    (h : ∀ line ∈ textLines text, line.length < configLineSize) (room : ℕ) :
  ConfigReadable room text
  := by
  intro pre line post hsplit _
  apply readsWhole_of_length_lt
  apply h
  simp [hsplit]

end Load

/-- The file `"k = v\n#c"` is loaded. -/
theorem cli_load_config_loaded :
  ConfigLoaded (fun _ => true) true [107, 32, 61, 32, 118, 10, 35, 99] ⟨[], [], []⟩
  := by
  apply (cli_load_config_iff (by decide) (fun _ => rfl) (by decide)).mpr
  apply configReadable_of_length_lt
  decide

/-- A comment of 1026 bytes whose last three bytes are `"k=v"` gives an entry. -/
theorem cli_load_config_long_comment :
  0 ∉ List.replicate 1023 hash ++ [107, 61, 118, newline]
    ∧ configEntries (List.replicate 1023 hash ++ [107, 61, 118, newline]) = []
    ∧ ¬ ConfigLoaded (fun _ => true) true (List.replicate 1023 hash ++ [107, 61, 118, newline])
      ⟨[], [], []⟩
  := by
  have hlength : (List.replicate 1023 hash).length = configLineSize - 1 :=
    List.length_replicate
  have hhash : ∀ x ∈ List.replicate 1023 hash, x = hash := fun x => List.eq_of_mem_replicate
  generalize List.replicate 1023 hash = a at hlength hhash
  have hmem : ∀ {x : Byte}, x ≠ hash → x ∉ a := fun hx h => hx (hhash _ h)
  have hnul : 0 ∉ a ++ [107, 61, 118, newline] := by
    rw [List.mem_append, not_or]
    exact ⟨hmem (by decide), by decide⟩
  have hlines : textLines (a ++ [107, 61, 118, newline]) = [a ++ [107, 61, 118, newline]] := by
    have hsep : newline ∉ a ++ [107, 61, 118] := by
      rw [List.mem_append, not_or]
      exact ⟨hmem (by decide), by decide⟩
    have hline := Lines.lines_line hsep []
    rw [List.append_assoc] at hline
    exact hline
  have hentry : configEntry (a ++ [107, 61, 118, newline]) = none := by
    rw [configEntry_eq_none_iff, trim, head?_trim]
    intro _
    have hpos : 0 < a.length := Nat.lt_of_lt_of_eq (by decide) hlength.symm
    obtain ⟨x, a, rfl⟩ := List.exists_cons_of_length_pos hpos
    rw [hhash x List.mem_cons_self]
    rfl
  have hread : entriesRead (a ++ [107, 61, 118, newline]) = [⟨[107], some [118]⟩] := by
    have ha : configEntry a = none := by
      rw [configEntry_eq_none_iff]
      intro h
      exact absurd h (hmem (by decide))
    have hblocks : configBlocks (a ++ [107, 61, 118, newline]) = [a, [107, 61, 118, newline]] := by
      rw [configBlocks, Lines.blocks_of_ne_nil (by decide) (by simp), List.take_left' hlength,
        List.drop_left' hlength, Lines.blocks_of_length_le (by simp) (by decide)]
    rw [entriesRead_eq hnul, hlines, List.flatMap_singleton, blockEntries, hblocks,
      List.filterMap_cons_none ha]
    decide
  have hentries : configEntries (a ++ [107, 61, 118, newline]) = [] := by
    rw [configEntries, hlines, List.filterMap_cons_none hentry, List.filterMap_nil]
  use hnul, hentries
  intro hloaded
  have hall := hloaded.all
  rw [cliLoadConfig_configVals (fun _ => rfl) (by decide), hread, hentries] at hall
  exact absurd hall (by decide)

end CTemplate
