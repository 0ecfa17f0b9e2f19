import BFTDiagnosis.Lib.Word

/-!
# Completion of commands

`CommandCompleter` of the command line. The candidates are looked up by the last token of the whole line, and
what they replace is as many bytes before the cursor as that token has. The two agree when the cursor is at the
end of the line. Elsewhere the bytes before the cursor may be others, or there may be too few of them, and then
the subtraction underflows.
-/

namespace BFTDiagnosis.Cli

open Word

structure SubCmd where
  level : ℕ
  commandName : String
  subcommands : List String

/-- `rustyline::completion::Pair`. -/
structure Pair where
  display : String
  replacement : String
deriving DecidableEq

structure CommandCompleter where
  subcommands : List SubCmd

/-- `str::len`. -/
def len (s : String) : ℕ := (asBytes s).length

/-- `str::starts_with`. -/
def startsWith (s typed : String) : Bool := (asBytes typed).isPrefixOf (asBytes s)

/-- `line.split(' ')`. -/
def splitSpaces (line : String) : List String := (line.toList.splitOn ' ').map String.ofList

/-- `pos - last.len()`; `none` is the underflow. -/
def startOf (pos : ℕ) (last : String) : Option ℕ := if len last ≤ pos then some (pos - len last) else none

/-- The candidate is displayed as it is and put in with a space behind it. -/
def candidate (name : String) : Pair := ⟨name, name ++ " "⟩

namespace CommandCompleter

variable (c : CommandCompleter)

def levelPossibleCmd (level : ℕ) : List String :=
  (c.subcommands.filter fun item ↦ item.level = level).map SubCmd.commandName

def levelPrefixPossibleCmd (level : ℕ) (typed : String) : List String :=
  (c.subcommands.filter fun item ↦ item.level = level ∧ startsWith item.commandName typed).map SubCmd.commandName

/-- The last entry of the name wins. -/
def levelCmdPossibleSubCmd (level : ℕ) (cmd : String) : List String :=
  c.subcommands.foldl
    (fun subcmds item ↦ if item.level = level ∧ item.commandName = cmd then item.subcommands else subcmds) []

/-- Every entry of the name counts. -/
def levelCmdPossiblePrefixSubCmd (level : ℕ) (cmd typed : String) : List String :=
  c.subcommands.flatMap fun item ↦
    if item.level = level ∧ item.commandName = cmd then item.subcommands.filter fun i ↦ startsWith i typed else []

/-- `complete_cmd`; `none` is a panic. -/
def completeCmd (line : String) (pos : ℕ) : Option (ℕ × List Pair) :=
  let d := splitSpaces line
  match d.getLast? with
  | none => some (pos, [])
  | some last =>
    if d.length = 1 then
      if last = "" then some (pos, (c.levelPossibleCmd 1).map candidate)
      else do
        let start ← startOf pos last
        return (start, (c.levelPrefixPossibleCmd 1 last).map candidate)
    else do
      let cmd ← d[d.length - 2]?
      if last = "" then return (pos, (c.levelCmdPossibleSubCmd (d.length - 1) cmd).map candidate)
      let start ← startOf pos last
      return (start, (c.levelCmdPossiblePrefixSubCmd (d.length - 1) cmd last).map candidate)

end CommandCompleter

/-! ## The tokens of a line -/

theorem splitSpaces_ne_nil (line : String) : splitSpaces line ≠ [] :=
  List.map_eq_nil_iff.not.2 (List.splitOn_ne_nil _ _)

/-- The token that candidates are looked up for. -/
def lastToken (line : String) : String := (splitSpaces line).getLast (splitSpaces_ne_nil line)

theorem asBytes_append (s t : String) : asBytes (s ++ t) = asBytes s ++ asBytes t := by
  simp only [asBytes, String.toByteArray_append, ByteArray.data_append, Array.toList_append]

/-- What the pieces of a list are put together from ends with the last piece. -/
theorem getLast_suffix_intercalate {α : Type} (sep : List α) (pieces : List (List α)) (h : pieces ≠ []) :
    pieces.getLast h <:+ sep.intercalate pieces := by
  induction pieces with
  | nil => exact absurd rfl h
  | cons piece rest ih =>
    cases rest with
    | nil => simp
    | cons next rest =>
      rw [List.getLast_cons (List.cons_ne_nil next rest), List.intercalate_cons_cons]
      exact (ih (List.cons_ne_nil next rest)).trans (List.suffix_append _ _)

/-- A line ends with its last token. -/
theorem lastToken_suffix (line : String) : asBytes (lastToken line) <:+ asBytes line := by
  have hpieces := getLast_suffix_intercalate [' '] (line.toList.splitOn ' ') (List.splitOn_ne_nil _ _)
  rw [List.intercalate_splitOn] at hpieces
  obtain ⟨front, hfront⟩ := hpieces
  have hlast : lastToken line = String.ofList ((line.toList.splitOn ' ').getLast (List.splitOn_ne_nil _ _)) :=
    List.getLast_map _
  have hline : line = String.ofList front ++ lastToken line := by
    rw [hlast, ← String.ofList_append, hfront, String.ofList_toList]
  exact ⟨asBytes (String.ofList front), by rw [← asBytes_append, ← hline]⟩

/-! ## What is replaced -/

namespace CommandCompleter

variable {c : CommandCompleter} {line : String} {pos : ℕ}

/-- The bytes of `line[start..pos]`. -/
def replaced (line : String) (start pos : ℕ) : Bytes := ((asBytes line).take pos).drop start

/-- The completion succeeds, and what it replaces is a piece of text that every replacement begins with. -/
def ReplacesTyped (c : CommandCompleter) (line : String) (pos : ℕ) : Prop :=
  ∃ start entries, c.completeCmd line pos = some (start, entries) ∧ start ≤ pos ∧
    ∀ entry ∈ entries, ∃ text : String, asBytes text = replaced line start pos ∧ startsWith entry.replacement text

/-- The name is that of a command or subcommand that can stand at the end of the line and begins with the last
token. -/
def Offers (c : CommandCompleter) (line name : String) : Prop :=
  startsWith name (lastToken line) ∧
    if (splitSpaces line).length = 1 then ∃ item ∈ c.subcommands, item.level = 1 ∧ item.commandName = name
    else ∃ item ∈ c.subcommands, item.level = (splitSpaces line).length - 1 ∧
      some item.commandName = (splitSpaces line)[(splitSpaces line).length - 2]? ∧ name ∈ item.subcommands

theorem mem_levelPrefixPossibleCmd {level : ℕ} {typed name : String} :
    name ∈ c.levelPrefixPossibleCmd level typed ↔
      startsWith name typed ∧ ∃ item ∈ c.subcommands, item.level = level ∧ item.commandName = name := by
  simp only [levelPrefixPossibleCmd, List.mem_map, List.mem_filter, decide_eq_true_eq]
  constructor
  · rintro ⟨item, ⟨hitem, hlevel, htyped⟩, rfl⟩
    exact ⟨htyped, item, hitem, hlevel, rfl⟩
  · rintro ⟨htyped, item, hitem, hlevel, rfl⟩
    exact ⟨item, ⟨hitem, hlevel, htyped⟩, rfl⟩

theorem mem_levelCmdPossiblePrefixSubCmd {level : ℕ} {cmd typed name : String} :
    name ∈ c.levelCmdPossiblePrefixSubCmd level cmd typed ↔ startsWith name typed ∧
      ∃ item ∈ c.subcommands, item.level = level ∧ item.commandName = cmd ∧ name ∈ item.subcommands := by
  simp only [levelCmdPossiblePrefixSubCmd, List.mem_flatMap]
  constructor
  · rintro ⟨item, hitem, hname⟩
    split at hname
    case isTrue hentry =>
      obtain ⟨hsub, htyped⟩ := List.mem_filter.1 hname
      exact ⟨htyped, item, hitem, hentry.1, hentry.2, hsub⟩
    case isFalse => cases hname
  · rintro ⟨htyped, item, hitem, hlevel, hcmd, hsub⟩
    refine ⟨item, hitem, ?_⟩
    rw [if_pos ⟨hlevel, hcmd⟩]
    exact List.mem_filter.2 ⟨hsub, htyped⟩

theorem getLast?_splitSpaces (line : String) : (splitSpaces line).getLast? = some (lastToken line) :=
  List.getLast?_eq_some_getLast (splitSpaces_ne_nil line)

theorem exists_secondLast (line : String) :
    ∃ cmd, (splitSpaces line)[(splitSpaces line).length - 2]? = some cmd := by
  have hpos := List.length_pos_of_ne_nil (splitSpaces_ne_nil line)
  exact ⟨_, List.getElem?_eq_getElem (by omega)⟩

/-- After a space everything is inserted at the cursor. -/
theorem completeCmd_of_empty (c : CommandCompleter) (pos : ℕ) (h : lastToken line = "") :
    ∃ names : List String, c.completeCmd line pos = some (pos, names.map candidate) := by
  simp only [completeCmd, getLast?_splitSpaces, h, if_true]
  split
  case isTrue => exact ⟨_, rfl⟩
  case isFalse =>
    obtain ⟨cmd, hcmd⟩ := exists_secondLast line
    rw [hcmd]
    exact ⟨_, rfl⟩

/-- Otherwise the candidates are the names that are offered for the last token. -/
theorem completeCmd_of_nonempty (c : CommandCompleter) (pos : ℕ) (h : lastToken line ≠ "") : ∃ names : List String,
    (∀ name, name ∈ names ↔ c.Offers line name) ∧
      c.completeCmd line pos = (startOf pos (lastToken line)).map fun start ↦ (start, names.map candidate) := by
  simp only [completeCmd, getLast?_splitSpaces, h, if_false, Option.map_eq_bind]
  split
  case isTrue hlength =>
    refine ⟨c.levelPrefixPossibleCmd 1 (lastToken line), fun name ↦ ?_, rfl⟩
    rw [mem_levelPrefixPossibleCmd, Offers, if_pos hlength]
  case isFalse hlength =>
    obtain ⟨cmd, hcmd⟩ := exists_secondLast line
    rw [hcmd]
    refine ⟨c.levelCmdPossiblePrefixSubCmd ((splitSpaces line).length - 1) cmd (lastToken line), fun name ↦ ?_, rfl⟩
    simp only [mem_levelCmdPossiblePrefixSubCmd, Offers, if_neg hlength, hcmd, Option.some.injEq]

theorem startsWith_iff {s typed : String} : startsWith s typed = true ↔ asBytes typed <+: asBytes s :=
  List.isPrefixOf_iff_prefix

/-- Both begin the replacement, so they are the same when they have the same length. -/
theorem startsWith_replacement_iff {name text last : String} (hname : startsWith name last)
    (hlength : len text = len last) : startsWith (candidate name).replacement text ↔ asBytes text = asBytes last := by
  have hlast : asBytes last <+: asBytes (name ++ " ") := by
    rw [asBytes_append]
    exact (startsWith_iff.1 hname).trans (List.prefix_append _ _)
  rw [startsWith_iff]
  constructor
  · intro htext
    exact (List.prefix_of_prefix_length_le htext hlast hlength.le).eq_of_length hlength
  · intro hsame
    rw [hsame]
    exact hlast

/-- The completion replaces the typed text exactly when the last token is empty, or the cursor is at least its
length into the line and the bytes before the cursor are that token, unless nothing is offered for it. -/
theorem replacesTyped_iff (c : CommandCompleter) {line : String} {pos : ℕ} (hpos : pos ≤ len line) :
    c.ReplacesTyped line pos ↔ lastToken line = "" ∨ (len (lastToken line) ≤ pos ∧
      ((∃ name, c.Offers line name) →
        replaced line (pos - len (lastToken line)) pos = asBytes (lastToken line))) := by
  by_cases hempty : lastToken line = ""
  · obtain ⟨names, hresult⟩ := completeCmd_of_empty c pos hempty
    refine iff_of_true ⟨pos, _, hresult, le_rfl, fun entry _ ↦ ⟨"", ?_, ?_⟩⟩ (.inl hempty)
    · exact (List.drop_eq_nil_of_le (List.length_take_le _ _)).symm
    · exact startsWith_iff.2 (List.nil_prefix)
  · obtain ⟨names, hnames, hresult⟩ := completeCmd_of_nonempty c pos hempty
    rw [or_iff_right hempty, ReplacesTyped, hresult, startOf]
    by_cases hfits : len (lastToken line) ≤ pos
    · have hlength : (replaced line (pos - len (lastToken line)) pos).length = len (lastToken line) := by
        rw [replaced, List.length_drop, List.length_take_of_le hpos, Nat.sub_sub_self hfits]
      rw [if_pos hfits, and_iff_right hfits]
      constructor
      · rintro ⟨start, entries, hsome, -, hentries⟩ ⟨name, hname⟩
        obtain ⟨rfl, rfl⟩ := Prod.mk.inj (Option.some.inj hsome)
        obtain ⟨text, htext, hstarts⟩ := hentries _ (List.mem_map_of_mem ((hnames name).2 hname))
        rw [← htext] at hlength ⊢
        exact (startsWith_replacement_iff hname.1 hlength).1 hstarts
      · intro hsame
        refine ⟨_, _, rfl, Nat.sub_le _ _, fun entry hentry ↦ ?_⟩
        obtain ⟨name, hmem, rfl⟩ := List.mem_map.1 hentry
        have hname := (hnames name).1 hmem
        exact ⟨lastToken line, (hsame ⟨name, hname⟩).symm, (startsWith_replacement_iff hname.1 rfl).2 rfl⟩
    · rw [if_neg hfits]
      exact iff_of_false (fun ⟨_, _, hnone, _⟩ ↦ nomatch hnone) fun h ↦ hfits h.1

/-- One command with one subcommand. -/
def smallCompleter : CommandCompleter := ⟨[⟨1, "ab", ["cd"]⟩]⟩

theorem replacesTyped_iff_small : 2 ≤ len "ab c" ∧
    (smallCompleter.ReplacesTyped "ab c" 2 ↔ lastToken "ab c" = "" ∨ (len (lastToken "ab c") ≤ 2 ∧
      ((∃ name, smallCompleter.Offers "ab c" name) →
        replaced "ab c" (2 - len (lastToken "ab c")) 2 = asBytes (lastToken "ab c")))) :=
  ⟨by decide, replacesTyped_iff smallCompleter (by decide)⟩

/-- With the cursor inside a line the subtraction underflows, or another letter is replaced than the typed one. -/
theorem not_replacesTyped_inside : smallCompleter.completeCmd "abc" 1 = none ∧
    smallCompleter.completeCmd "ab c" 2 = some (1, [⟨"cd", "cd "⟩]) ∧
      ¬ smallCompleter.ReplacesTyped "abc" 1 ∧ ¬ smallCompleter.ReplacesTyped "ab c" 2 := by
  have hunderflow : smallCompleter.completeCmd "abc" 1 = none := by decide
  have hother : smallCompleter.completeCmd "ab c" 2 = some (1, [⟨"cd", "cd "⟩]) := by decide
  refine ⟨hunderflow, hother, ?_, ?_⟩
  · rintro ⟨start, entries, hresult, -⟩
    cases hunderflow.symm.trans hresult
  · rintro ⟨start, entries, hresult, -, hentries⟩
    obtain ⟨rfl, rfl⟩ := Prod.mk.inj (Option.some.inj (hother.symm.trans hresult))
    obtain ⟨text, htext, hstarts⟩ := hentries _ (List.mem_singleton_self _)
    have hprefix := startsWith_iff.1 hstarts
    rw [htext] at hprefix
    exact absurd hprefix (by decide)

/-- With the cursor at the end of the line the typed text is what is replaced. -/
theorem replacesTyped_of_end (c : CommandCompleter) (line : String) : c.ReplacesTyped line (len line) := by
  obtain ⟨front, hfront⟩ := lastToken_suffix line
  have hlength : front.length + len (lastToken line) = len line := by
    rw [len, len, ← List.length_append, hfront]
  refine (replacesTyped_iff c le_rfl).2 (.inr ⟨?_, fun _ ↦ ?_⟩)
  · exact hlength ▸ Nat.le_add_left _ _
  · have hwhole : (asBytes line).take (len line) = asBytes line := List.take_of_length_le le_rfl
    rw [replaced, hwhole, ← hlength, Nat.add_sub_cancel, ← hfront]
    exact List.drop_left

end CommandCompleter

end BFTDiagnosis.Cli
