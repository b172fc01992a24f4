import TellyDB.Utils.Config.Lines

/-!
Owns what the order of configuration lines, comments and blank lines change: which configuration
`parse_config` gives for the same lines in another arrangement.
-/

namespace TellyDB.Utils.Configuration

open Lib.ByteMemory Lib.Positional Resp

/-! ## Arrangements -/

/-- A line with a key of its own and a value that is accepted. -/
def ConfigLine.Valid : ConfigLine → Prop
  | .setting entry _ value => entry ∈ entries ∧ 0x0a ∉ value ∧ Accepts (entry, value)
  | _ => False

/-- A line with a key. -/
def ConfigLine.isSetting : ConfigLine → Bool
  | .setting _ _ _ => true
  | _ => false

/-- The keys of some lines. -/
def keysOf (lines : List ConfigLine) : List String :=
  (settingsOf lines).map fun setting => setting.1.key

/-- The lines in any order, with comments and blank lines between them. -/
structure Arranges (lines arranged : List ConfigLine) : Prop where
  comments : ∀ words ∈ commentsOf arranged, 0x0a ∉ words
  permuted : (arranged.filter ConfigLine.isSetting).Perm lines

/-- The configuration of some lines, if `parse_config` returns one. -/
def configOf (lines : List ConfigLine) : Option Config :=
  (parseConfig (lines.flatMap ConfigLine.bytes)).toOption.map Prod.fst

/-- A configuration without what its key sets. -/
def ConfigEntry.forget (entry : ConfigEntry) (conf : Config) : Config :=
  match entry.key with
  | "port" => { conf with port := 0 }
  | "max_clients" => { conf with maxClients := 0 }
  | "max_transaction_blocks" => { conf with maxTransactionBlocks := 0 }
  | "allowed_log_levels" => { conf with allowedLogLevels := 0 }
  | "max_log_lines" => { conf with maxLogLines := 0 }
  | "log_file" => { conf with logFile := [] }
  | "save" => { conf with autosaveSeconds := 0, autosaveCount := 0 }
  | "data_file" => { conf with dataFile := [] }
  | "database_name" => { conf with databaseName := [] }
  | "expire_check_batch_size" => { conf with expireSize := 0 }
  | "expire_check_interval_secs" => { conf with expireSeconds := 0 }
  | "tls" => { conf with tls := false }
  | "cert" => { conf with cert := [] }
  | "private_key" => { conf with privateKey := [] }
  | _ => conf

/-- Every arrangement gives the same configuration, and another value of a line changes only the
field of its key. -/
structure Independent (lines : List ConfigLine) : Prop where
  arranged : ∃ conf, ∀ arranged, Arranges lines arranged → configOf arranged = some conf
  own : ∀ front back entry spaces value other,
    lines = front ++ .setting entry spaces value :: back →
    (ConfigLine.setting entry spaces other).Valid → ∀ conf changed, configOf lines = some conf →
      configOf (front ++ .setting entry spaces other :: back) = some changed →
        entry.forget conf = entry.forget changed

theorem configOf_eq {lines : List ConfigLine} (formed : ∀ line ∈ lines, line.WellFormed)
    (accepts : ∀ setting ∈ effective lines, Accepts setting) :
    configOf lines =
      let conf := readConfig ((effective lines).foldl Parsing.after cleared).memory
      if LinesAllowed conf.maxLogLines then some conf else none := by
  rw [configOf, parseConfig_lines formed, setLines_of_accepts accepts]
  simp only [Except.bind]
  rw [checkLimits_readConfig]
  split
  · rfl
  · rfl

/-! ## Independence -/

section Arranged

variable {lines arranged : List ConfigLine}

/-- The line that a setting stands in. -/
theorem mem_settingsOf {setting : ConfigEntry × Bytes} :
    setting ∈ settingsOf lines ↔
      ∃ spaces, ConfigLine.setting setting.1 spaces setting.2 ∈ lines := by
  rw [settingsOf, List.mem_filterMap]
  constructor
  · rintro ⟨line, member, found⟩
    cases line with
    | comment words => cases found
    | blank => cases found
    | setting entry spaces value =>
        cases found
        exact ⟨spaces, member⟩
  · rintro ⟨spaces, member⟩
    exact ⟨_, member, rfl⟩

theorem valid_settings (valid : ∀ line ∈ lines, line.Valid) :
    ∀ setting ∈ settingsOf lines,
      setting.1 ∈ entries ∧ 0x0a ∉ setting.2 ∧ Accepts setting := by
  intro setting member
  obtain ⟨spaces, inside⟩ := mem_settingsOf.mp member
  exact valid _ inside

theorem Arranges.settings_perm (arranges : Arranges lines arranged) :
    (settingsOf arranged).Perm (settingsOf lines) := by
  have kept : settingsOf (arranged.filter ConfigLine.isSetting) = settingsOf arranged := by
    rw [settingsOf, settingsOf, List.filterMap_filter]
    apply List.filterMap_congr
    intro line member
    cases line with
    | comment words => rfl
    | blank => rfl
    | setting entry spaces value => rfl
  rw [← kept]
  exact arranges.permuted.filterMap _

theorem Arranges.wellFormed (arranges : Arranges lines arranged)
    (valid : ∀ line ∈ lines, line.Valid) : ∀ line ∈ arranged, line.WellFormed := by
  refine wellFormed_of arranges.comments fun setting member => ?_
  obtain ⟨known, inside, -⟩ := valid_settings valid setting (arranges.settings_perm.subset member)
  exact ⟨known, inside⟩

/-- A blank line before every line. -/
def hidden (lines : List ConfigLine) : List ConfigLine := lines.flatMap fun line => [.blank, line]

theorem effective_hidden (lines : List ConfigLine) : effective (hidden lines) = [] := by
  induction lines with
  | nil => rfl
  | cons line rest inductionHypothesis => exact inductionHypothesis

theorem arranges_hidden (valid : ∀ line ∈ lines, line.Valid) : Arranges lines (hidden lines) := by
  have kept : commentsOf (hidden lines) = [] ∧
      (hidden lines).filter ConfigLine.isSetting = lines := by
    induction lines with
    | nil => exact ⟨rfl, rfl⟩
    | cons line rest inductionHypothesis =>
        rw [List.forall_mem_cons] at valid
        obtain ⟨comments, settings⟩ := inductionHypothesis valid.2
        cases line with
        | comment words => exact absurd valid.1 id
        | blank => exact absurd valid.1 id
        | setting entry spaces value => exact ⟨comments, congrArg (List.cons _) settings⟩
  constructor
  · rw [kept.1]
    exact fun words member => absurd member List.not_mem_nil
  · rw [kept.2]

/-- Nothing is read behind blank lines, and no log lines are refused. -/
theorem configOf_hidden (valid : ∀ line ∈ lines, line.Valid) : configOf (hidden lines) = none := by
  have formed := (arranges_hidden valid).wellFormed valid
  have nothing : ∀ setting ∈ Configuration.effective (hidden lines), Accepts setting := by
    rw [effective_hidden]
    exact fun setting member => absurd member List.not_mem_nil
  rw [configOf_eq formed nothing, effective_hidden]
  exact if_neg (by decide)

end Arranged

/-- No lines are independent: behind blank lines none of them is read, and `parse_config` gives no
configuration for them. -/
theorem lines_not_independent {lines : List ConfigLine} (valid : ∀ line ∈ lines, line.Valid) :
    ¬Independent lines := by
  intro independent
  obtain ⟨conf, given⟩ := independent.arranged
  have read := given (hidden lines) (arranges_hidden valid)
  rw [configOf_hidden valid] at read
  cases read

/-- `port=6379`. -/
def portLine : ConfigLine := .setting ⟨"port", .port, .uint⟩ 0 (text "6379")

/-- `max_clients = 5`. -/
def clientsLine : ConfigLine := .setting ⟨"max_clients", .maxClients, .uint⟩ 1 (text " 5")

/-- `max_log_lines = 128`. -/
def logLine : ConfigLine := .setting ⟨"max_log_lines", .maxLogLines, .int⟩ 1 (text " 128")

theorem valid_lines : portLine.Valid ∧ clientsLine.Valid ∧ logLine.Valid := by
  refine ⟨⟨?_, ?_, ?_⟩, ⟨?_, ?_, ?_⟩, ⟨?_, ?_, ?_⟩⟩
  all_goals decide +kernel

theorem lines_not_independent_log : ¬Independent [portLine, clientsLine, logLine] := by
  obtain ⟨port, clients, log⟩ := valid_lines
  exact lines_not_independent (by simp [port, clients, log])

/-- The port behind the number of clients clears it, and a blank line hides the line behind it. -/
theorem lines_dependent :
    (∀ line ∈ [portLine, clientsLine, logLine], line.Valid) ∧
      (keysOf [portLine, clientsLine, logLine]).Nodup ∧
      (configOf [portLine, clientsLine, logLine]).map Config.maxClients = some 5 ∧
      (configOf [clientsLine, portLine, logLine]).map Config.maxClients = some 0 ∧
      (configOf [portLine, .blank, clientsLine, logLine]).map Config.maxClients = some 0 ∧
      ¬Independent [portLine, clientsLine, logLine] := by
  obtain ⟨port, clients, log⟩ := valid_lines
  have valid : ∀ line ∈ [portLine, clientsLine, logLine], line.Valid := by
    simp [port, clients, log]
  have formed (line : ConfigLine) (one : line ∈ [portLine, .blank, clientsLine, logLine]) :
      line.WellFormed := by
    simp only [List.mem_cons, List.not_mem_nil, or_false] at one
    rcases one with rfl | rfl | rfl | rfl
    · exact ⟨port.1, port.2.1⟩
    · trivial
    · exact ⟨clients.1, clients.2.1⟩
    · exact ⟨log.1, log.2.1⟩
  have reads (lines : List ConfigLine) (inside : lines ⊆ [portLine, .blank, clientsLine, logLine])
      (accepts : ∀ setting ∈ effective lines, Accepts setting) :=
    configOf_eq (fun line member => formed line (inside member)) accepts
  have first : (configOf [portLine, clientsLine, logLine]).map Config.maxClients = some 5 := by
    rw [reads _ (by decide) (by decide +kernel)]
    decide +kernel
  have second : (configOf [clientsLine, portLine, logLine]).map Config.maxClients = some 0 := by
    rw [reads _ (by decide) (by decide +kernel)]
    decide +kernel
  have third :
      (configOf [portLine, .blank, clientsLine, logLine]).map Config.maxClients = some 0 := by
    rw [reads _ (by decide) (by decide +kernel)]
    decide +kernel
  refine ⟨valid, by decide, first, second, third, fun independent => ?_⟩
  have arranges : Arranges [portLine, clientsLine, logLine] [clientsLine, portLine, logLine] :=
    ⟨fun words member => absurd member List.not_mem_nil, List.Perm.swap ..⟩
  have same : Arranges [portLine, clientsLine, logLine] [portLine, clientsLine, logLine] :=
    ⟨fun words member => absurd member List.not_mem_nil, List.Perm.refl _⟩
  obtain ⟨conf, given⟩ := independent.arranged
  rw [given _ same, ← given _ arranges, second] at first
  cases first

end TellyDB.Utils.Configuration
