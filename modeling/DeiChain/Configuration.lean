import DeiChain.Data.Scanning
import DeiChain.Types

namespace DeiChain

open Data

/-! # The configuration file

`parse_config` reads the four settings in a fixed order, each with one `fscanf`
into a buffer of 128 characters, and `main` bounds what was read. The first
setting that cannot be read ends the controller with a message.
-/

/-- How the controller ends before it has a configuration. A word that does not
fit the buffer and digits that are no `int` are undefined in C. -/
inductive Stop where
  | failure (message : String)
  | undefined
deriving DecidableEq

def configBuffer : Nat := 128

def isPositiveInteger (str : List UInt8) : Bool := (cstr str).all isDigit

def settingFormat (key : String) : List Directive := directives (key ++ "=%s\n").toList

def invalidValue (key : String) : Stop := .failure ("Valor inválido para " ++ key ++ "\n")

/-- The values of an `int` that digits alone can spell. -/
abbrev Setting := Fin (2 ^ 31)

/-- The `fscanf` of one setting, the tests on what it returned and `atoi`. -/
def readSetting (key : String) (file : List UInt8) : Except Stop (Setting × List UInt8) :=
  let scanned := scan (settingFormat key) file
  match scanned.words with
  | [buffer] =>
      if configBuffer ≤ buffer.length then .error .undefined
      else if isPositiveInteger buffer then
        let value := (atoi (cstr buffer)).toNat
        if fits : value < 2 ^ 31 then .ok (⟨value, fits⟩, scanned.rest) else .error .undefined
      else .error (invalidValue key)
  | _ => .error (invalidValue key)

structure Settings where
  numMiners : Setting
  transactionPoolSize : Setting
  transactionsPerBlock : Setting
  blockchainBlocks : Setting
deriving DecidableEq

/-- `none` is a file that `fopen` could not open. -/
def parseConfig : Option (List UInt8) → Except Stop Settings
  | none => .error (.failure "Erro na abertura do ficheiro de configurações.\n")
  | some file => do
      let (numMiners, file) ← readSetting "NUM_MINERS" file
      let (transactionPoolSize, file) ← readSetting "TRANSACTION_POOL_SIZE" file
      let (transactionsPerBlock, file) ← readSetting "TRANSACTIONS_PER_BLOCK" file
      let (blockchainBlocks, _) ← readSetting "BLOCKCHAIN_BLOCKS" file
      .ok ⟨numMiners, transactionPoolSize, transactionsPerBlock, blockchainBlocks⟩

/-- The checks of `main`, in its order. -/
def checkConfig (settings : Settings) : Except Stop Config :=
  if twoBlocks : settings.blockchainBlocks.val < 2 then
    .error (.failure "O número de blocos da blockchain deve ser maior que 1.\n")
  else if miners : settings.numMiners.val < 1 then
    .error (.failure "O número de miners deve ser maior que 0.\n")
  else if pool : settings.transactionPoolSize.val < 1 then
    .error (.failure "O tamanho da transactions pool deve ser maior que 0.\n")
  else if transactions : settings.transactionsPerBlock.val < 1 then
    .error (.failure "O número de transações por bloco deve ser maior que 0.\n")
  else
    .ok {
      numMiners := settings.numMiners
      transactionPoolSize := settings.transactionPoolSize
      transactionsPerBlock := settings.transactionsPerBlock
      blockchainBlocks := settings.blockchainBlocks
      minersPositive := Nat.le_of_not_lt miners
      poolPositive := Nat.le_of_not_lt pool
      transactionsPositive := Nat.le_of_not_lt transactions
      twoBlocks := Nat.le_of_not_lt twoBlocks
      minersInt := settings.numMiners.isLt
      poolInt := settings.transactionPoolSize.isLt
      transactionsInt := settings.transactionsPerBlock.isLt
      blocksInt := settings.blockchainBlocks.isLt }

/-- What `main` does before it opens anything but the configuration file. -/
def configure (file : Option (List UInt8)) : Except Stop Config := do
  checkConfig (← parseConfig file)

def configKeys : List String :=
  ["NUM_MINERS", "TRANSACTION_POOL_SIZE", "TRANSACTIONS_PER_BLOCK", "BLOCKCHAIN_BLOCKS"]

def configFormat : List Directive := configKeys.flatMap settingFormat

/-- Digits, with as many zeros in front as the buffer holds; nobody looks at
what follows a NUL. -/
structure Spells (word : List UInt8) (value : Nat) : Prop where
  short : word.length < configBuffer
  digits : ∀ byte ∈ cstr word, isDigit byte = true
  value : digitsValue (cstr word) = value

/-- What is wrong where a setting should be, and how the controller ends. -/
inductive Fault (key : String) (text : List UInt8) : Stop → Prop where
  | missing (unread : ∀ word rest, ¬ Reads (settingFormat key) [word] text rest) :
      Fault key text (invalidValue key)
  | strange {word rest} (reads : Reads (settingFormat key) [word] text rest)
      (short : word.length < configBuffer) {byte} (member : byte ∈ cstr word)
      (other : isDigit byte = false) : Fault key text (invalidValue key)
  | long {word rest} (reads : Reads (settingFormat key) [word] text rest)
      (long : configBuffer ≤ word.length) : Fault key text .undefined
  | large {word rest} (reads : Reads (settingFormat key) [word] text rest) {value : Nat}
      (spells : Spells word value) (large : 2 ^ 31 ≤ value) : Fault key text .undefined

def Config.settings (cfg : Config) : List Nat :=
  [cfg.numMiners, cfg.transactionPoolSize, cfg.transactionsPerBlock, cfg.blockchainBlocks]

/-- One setting a line, the numbers as `%d` prints them. -/
def Config.file (cfg : Config) : List UInt8 := render configFormat (cfg.settings.map decimal)

section

variable {key : String} {keys : List String} {text rest : List UInt8} {word : List UInt8}
  {words : List (List UInt8)} {value : Nat} {stop : Stop}

theorem settingFormat_shape (known : key ∈ configKeys) : ∃ name : List UInt8,
    settingFormat key = name.map Directive.literal ++ [.word, .blanks] := by
  have shapes : ∀ key ∈ configKeys, settingFormat key =
      (key.toList ++ ['=']).map (fun char => .literal (UInt8.ofNat char.toNat)) ++ [.word, .blanks] := by
    decide +kernel
  refine ⟨(key.toList ++ ['=']).map fun char => UInt8.ofNat char.toNat, ?_⟩
  rw [shapes key known, List.map_map]
  rfl

theorem settingFormat_words (known : key ∈ configKeys) : (settingFormat key).count .word = 1 := by
  have counts : ∀ key ∈ configKeys, (settingFormat key).count .word = 1 := by decide +kernel
  exact counts key known

/-- After its literals the format of a setting converts its word or stops short
of it; white space never fails. -/
theorem scan_setting (name text : List UInt8) :
    (∃ stuck, scan (name.map Directive.literal ++ [.word, .blanks]) text = ⟨[], stuck, false⟩) ∨
      ∃ word rest, scan (name.map Directive.literal ++ [.word, .blanks]) text = ⟨[word], rest, true⟩ := by
  induction name generalizing text with
  | nil =>
      rw [List.map_nil, List.nil_append, scan]
      dsimp only
      split
      · exact .inl ⟨_, rfl⟩
      · exact .inr ⟨_, _, rfl⟩
  | cons byte name ih =>
      cases text with
      | nil => exact .inl ⟨_, rfl⟩
      | cons first text =>
          rw [List.map_cons, List.cons_append, scan]
          split
          · exact ih text
          · exact .inl ⟨_, rfl⟩

theorem reads_of_word (known : key ∈ configKeys) (one : (scan (settingFormat key) text).words = [word]) :
    ∃ rest, Reads (settingFormat key) [word] text rest := by
  obtain ⟨name, shape⟩ := settingFormat_shape known
  rw [shape] at one ⊢
  rcases scan_setting name text with ⟨stuck, failed⟩ | ⟨found, rest, whole⟩
  · rw [failed] at one
    cases one
  · rw [whole] at one
    cases one
    exact ⟨rest, reads_scan whole⟩

theorem Spells.atoi (spells : Spells word value) : atoi (cstr word) = value := by
  by_cases empty : cstr word = []
  · rw [← spells.value, empty]
    rfl
  · rw [atoi_digits empty spells.digits, spells.value]

theorem readSetting_reads (reads : Reads (settingFormat key) [word] text rest) :
    readSetting key text = if configBuffer ≤ word.length then .error .undefined
      else if isPositiveInteger word then
        let value := (atoi (cstr word)).toNat
        if fits : value < 2 ^ 31 then .ok (⟨value, fits⟩, rest) else .error .undefined
      else .error (invalidValue key) := by
  rw [readSetting, reads.scan]

theorem Spells.positive (spells : Spells word value) : isPositiveInteger word = true :=
  List.all_eq_true.mpr spells.digits

theorem readSetting_spelled {setting : Setting} (reads : Reads (settingFormat key) [word] text rest)
    (spells : Spells word setting) : readSetting key text = .ok (setting, rest) := by
  rw [readSetting_reads reads, if_neg (Nat.not_le_of_lt spells.short), if_pos spells.positive, spells.atoi,
    Int.toNat_natCast]
  exact dif_pos setting.isLt

theorem Fault.readSetting (fault : Fault key text stop) (known : key ∈ configKeys) :
    readSetting key text = .error stop := by
  cases fault with
  | missing unread =>
      rw [DeiChain.readSetting]
      split
      · rename_i word one
        obtain ⟨rest, reads⟩ := reads_of_word known one
        exact absurd reads (unread word rest)
      · rfl
  | strange reads short member other =>
      have strange : isPositiveInteger _ ≠ true := fun all =>
        Bool.false_ne_true (other.symm.trans (List.all_eq_true.mp all _ member))
      rw [readSetting_reads reads, if_neg (Nat.not_le_of_lt short), if_neg strange]
  | long reads long => rw [readSetting_reads reads, if_pos long]
  | large reads spells large =>
      rw [readSetting_reads reads, if_neg (Nat.not_le_of_lt spells.short), if_pos spells.positive, spells.atoi,
        Int.toNat_natCast]
      exact dif_neg (Nat.not_lt_of_le large)

/-- A setting is there, or something is wrong with it. -/
theorem setting_or_fault (key : String) (text : List UInt8) :
    (∃ (word rest : List UInt8) (setting : Setting), Reads (settingFormat key) [word] text rest ∧
      Spells word setting) ∨ ∃ stop, Fault key text stop := by
  by_cases found : ∃ word rest, Reads (settingFormat key) [word] text rest
  · obtain ⟨word, rest, reads⟩ := found
    by_cases long : configBuffer ≤ word.length
    · exact .inr ⟨_, .long reads long⟩
    · have short := Nat.lt_of_not_le long
      by_cases digits : ∀ byte ∈ cstr word, isDigit byte = true
      · have spells : Spells word (digitsValue (cstr word)) := ⟨short, digits, rfl⟩
        by_cases fits : digitsValue (cstr word) < 2 ^ 31
        · exact .inl ⟨word, rest, ⟨_, fits⟩, reads, spells⟩
        · exact .inr ⟨_, .large reads spells (Nat.le_of_not_lt fits)⟩
      · push Not at digits
        obtain ⟨byte, member, other⟩ := digits
        exact .inr ⟨_, .strange reads short member (Bool.eq_false_iff.mpr other)⟩
  · exact .inr ⟨_, .missing fun word rest reads => found ⟨word, rest, reads⟩⟩

theorem readSetting_ok_iff {setting : Setting} (known : key ∈ configKeys) :
    readSetting key text = .ok (setting, rest) ↔
      ∃ word, Reads (settingFormat key) [word] text rest ∧ Spells word setting := by
  constructor
  · intro read
    rcases setting_or_fault key text with ⟨word, after, other, reads, spells⟩ | ⟨stop, fault⟩
    · rw [readSetting_spelled reads spells] at read
      cases read
      exact ⟨word, reads, spells⟩
    · rw [fault.readSetting known] at read
      cases read
  · intro given
    obtain ⟨word, reads, spells⟩ := given
    exact readSetting_spelled reads spells

theorem readSetting_error_iff (known : key ∈ configKeys) :
    readSetting key text = .error stop ↔ Fault key text stop := by
  constructor
  · intro failed
    rcases setting_or_fault key text with ⟨word, after, setting, reads, spells⟩ | ⟨other, fault⟩
    · rw [readSetting_spelled reads spells] at failed
      cases failed
    · rw [fault.readSetting known] at failed
      cases failed
      exact fault
  · intro fault
    exact fault.readSetting known

/-- Settings one after the other. -/
def readSettings : List String → List UInt8 → Except Stop (List Setting × List UInt8)
  | [], text => .ok ([], text)
  | key :: keys, text => do
      let (setting, text) ← readSetting key text
      let (settings, rest) ← readSettings keys text
      .ok (setting :: settings, rest)

section

variable {α β : Type} {first : Except Stop α} {next : α → Except Stop β}

@[simp] theorem ok_bind (value : α) : (Except.ok value >>= next) = next value := rfl

@[simp] theorem error_bind (stop : Stop) : (Except.error stop >>= next) = .error stop := rfl

theorem bind_eq_ok {result : β} :
    (first >>= next) = .ok result ↔ ∃ value, first = .ok value ∧ next value = .ok result := by
  cases first <;> simp

theorem bind_eq_error :
    (first >>= next) = .error stop ↔
      first = .error stop ∨ ∃ value, first = .ok value ∧ next value = .error stop := by
  cases first <;> simp

end

theorem readSettings_ok_iff {settings : List Setting} (known : ∀ key ∈ keys, key ∈ configKeys) :
    readSettings keys text = .ok (settings, rest) ↔
      ∃ words, Reads (keys.flatMap settingFormat) words text rest ∧
        List.Forall₂ (fun word setting => Spells word setting.val) words settings := by
  induction keys generalizing text settings with
  | nil =>
      constructor
      · intro same
        cases same
        exact ⟨[], .done, .nil⟩
      · intro given
        obtain ⟨words, reads, spelled⟩ := given
        cases reads
        cases spelled
        rfl
  | cons key keys ih =>
      have own := known key List.mem_cons_self
      have others : ∀ key ∈ keys, key ∈ configKeys := fun key member => known key (List.mem_cons_of_mem _ member)
      rw [readSettings, bind_eq_ok, List.flatMap_cons]
      constructor
      · intro given
        obtain ⟨⟨setting, after⟩, first, next⟩ := given
        obtain ⟨⟨more, _⟩, second, result⟩ := bind_eq_ok.mp next
        cases result
        obtain ⟨word, reads, spells⟩ := (readSetting_ok_iff own).mp first
        obtain ⟨words, following, spelled⟩ := (ih others).mp second
        exact ⟨word :: words, reads.append following, .cons spells spelled⟩
      · intro given
        obtain ⟨words, reads, spelled⟩ := given
        obtain ⟨front, back, middle, rfl, before, after⟩ := reads.split
        obtain ⟨word, rfl⟩ := List.length_eq_one_iff.mp (before.length.trans (settingFormat_words own))
        cases spelled with
        | cons spells spelled =>
            exact ⟨_, (readSetting_ok_iff own).mpr ⟨word, before, spells⟩,
              bind_eq_ok.mpr ⟨_, (ih others).mpr ⟨back, after, spelled⟩, rfl⟩⟩

/-- The settings before the first bad one are read, whatever follows it. -/
theorem readSettings_error_iff (known : ∀ key ∈ keys, key ∈ configKeys) :
    readSettings keys text = .error stop ↔
      ∃ before key words rest, before ++ [key] <+: keys ∧
        Reads (before.flatMap settingFormat) words text rest ∧
        (∀ word ∈ words, ∃ setting : Setting, Spells word setting) ∧ Fault key rest stop := by
  induction keys generalizing text with
  | nil =>
      constructor
      · intro impossible
        cases impossible
      · intro given
        obtain ⟨before, key, _, _, start, _⟩ := given
        cases before <;> cases List.prefix_nil.mp start
  | cons key keys ih =>
      have own := known key List.mem_cons_self
      have others : ∀ key ∈ keys, key ∈ configKeys := fun key member => known key (List.mem_cons_of_mem _ member)
      rw [readSettings, bind_eq_error]
      constructor
      · intro given
        obtain failed | ⟨⟨setting, after⟩, first, next⟩ := given
        · exact ⟨[], key, [], text, List.prefix_append [key] keys, .done, nofun,
            (readSetting_error_iff own).mp failed⟩
        · rcases bind_eq_error.mp next with failed | ⟨_, _, contra⟩
          · obtain ⟨before, bad, words, rest, start, reads, spelled, fault⟩ := (ih others).mp failed
            obtain ⟨word, own, spells⟩ := (readSetting_ok_iff own).mp first
            refine ⟨key :: before, bad, word :: words, rest, List.prefix_cons_inj key |>.mpr start,
              own.append reads, ?_, fault⟩
            rw [List.forall_mem_cons]
            exact ⟨⟨setting, spells⟩, spelled⟩
          · cases contra
      · intro given
        obtain ⟨before, bad, words, rest, start, reads, spelled, fault⟩ := given
        cases before with
        | nil =>
            cases reads
            obtain ⟨rfl, -⟩ := List.cons_prefix_cons.mp start
            exact .inl (fault.readSetting own)
        | cons first before =>
            obtain ⟨rfl, further⟩ := List.cons_prefix_cons.mp start
            obtain ⟨front, back, middle, rfl, leading, following⟩ := Reads.split (List.flatMap_cons ▸ reads)
            obtain ⟨word, rfl⟩ := List.length_eq_one_iff.mp (leading.length.trans (settingFormat_words own))
            obtain ⟨⟨setting, spells⟩, others'⟩ := List.forall_mem_cons.mp spelled
            refine .inr ⟨(setting, middle), readSetting_spelled leading spells, bind_eq_error.mpr (.inl ?_)⟩
            exact (ih others).mpr ⟨before, bad, back, rest, further, following, others', fault⟩

end

section

variable {text : List UInt8} {stop : Stop}

def Settings.list (settings : Settings) : List Setting :=
  [settings.numMiners, settings.transactionPoolSize, settings.transactionsPerBlock, settings.blockchainBlocks]

/-- The four calls of `parse_config` are the settings of the list. -/
theorem parseConfig_read (text : List UInt8) :
    (∃ settings rest, parseConfig (some text) = .ok settings ∧
        readSettings configKeys text = .ok (settings.list, rest)) ∨
      ∃ stop, parseConfig (some text) = .error stop ∧ readSettings configKeys text = .error stop := by
  simp only [parseConfig, configKeys, readSettings]
  rcases first : readSetting "NUM_MINERS" text with stop | ⟨numMiners, file⟩
  · exact .inr ⟨stop, rfl, rfl⟩
  simp only [ok_bind]
  rcases second : readSetting "TRANSACTION_POOL_SIZE" file with stop | ⟨transactionPoolSize, file⟩
  · exact .inr ⟨stop, rfl, rfl⟩
  simp only [ok_bind]
  rcases third : readSetting "TRANSACTIONS_PER_BLOCK" file with stop | ⟨transactionsPerBlock, file⟩
  · exact .inr ⟨stop, rfl, rfl⟩
  simp only [ok_bind]
  rcases fourth : readSetting "BLOCKCHAIN_BLOCKS" file with stop | ⟨blockchainBlocks, file⟩
  · exact .inr ⟨stop, rfl, rfl⟩
  · exact .inl ⟨⟨numMiners, transactionPoolSize, transactionsPerBlock, blockchainBlocks⟩, file, rfl, rfl⟩

theorem parseConfig_ok_iff {settings : Settings} : parseConfig (some text) = .ok settings ↔
    ∃ rest, readSettings configKeys text = .ok (settings.list, rest) := by
  rcases parseConfig_read text with ⟨found, rest, parsed, read⟩ | ⟨stop, parsed, read⟩
  · rw [parsed, read]
    constructor
    · intro same
      cases same
      exact ⟨rest, rfl⟩
    · intro given
      obtain ⟨_, same⟩ := given
      have listed : found.list = settings.list := congrArg Prod.fst (Except.ok.inj same)
      cases found
      cases settings
      cases listed
      rfl
  · rw [parsed, read]
    exact ⟨nofun, fun ⟨_, same⟩ => nomatch same⟩

theorem parseConfig_error_iff : parseConfig (some text) = .error stop ↔
    readSettings configKeys text = .error stop := by
  rcases parseConfig_read text with ⟨found, rest, parsed, read⟩ | ⟨other, parsed, read⟩
  · rw [parsed, read]
    exact ⟨nofun, nofun⟩
  · rw [parsed, read, Except.error.injEq, Except.error.injEq]

/-- The settings that `main` lets pass are the configurations. -/
theorem checkConfig_ok_iff {settings : Settings} {cfg : Config} :
    checkConfig settings = .ok cfg ↔ settings.list.map Fin.val = cfg.settings := by
  constructor
  · intro passed
    rw [checkConfig] at passed
    split at passed
    · cases passed
    split at passed
    · cases passed
    split at passed
    · cases passed
    split at passed
    · cases passed
    · cases passed
      rfl
  · intro same
    obtain ⟨miners, pool, transactions, blocks⟩ := settings
    cases cfg with
    | mk numMiners poolSize perBlock blockchainBlocks minersPositive poolPositive transactionsPositive twoBlocks =>
        obtain ⟨rfl, rfl, rfl, rfl⟩ : miners.val = numMiners ∧ pool.val = poolSize ∧
            transactions.val = perBlock ∧ blocks.val = blockchainBlocks := by
          simpa [Settings.list, Config.settings] using same
        rw [checkConfig, dif_neg (Nat.not_lt_of_le twoBlocks), dif_neg (Nat.not_lt_of_le minersPositive),
          dif_neg (Nat.not_lt_of_le poolPositive), dif_neg (Nat.not_lt_of_le transactionsPositive)]

theorem configure_spelled {words : List (List UInt8)} {rest : List UInt8} {cfg : Config}
    (reads : Reads configFormat words text rest) (spelled : List.Forall₂ Spells words cfg.settings) :
    configure (some text) = .ok cfg := by
  let settings : Settings := ⟨⟨_, cfg.minersInt⟩, ⟨_, cfg.poolInt⟩, ⟨_, cfg.transactionsInt⟩, ⟨_, cfg.blocksInt⟩⟩
  have listed : settings.list.map Fin.val = cfg.settings := rfl
  rw [← listed] at spelled
  have read := (readSettings_ok_iff fun _ member => member).mpr
    ⟨words, reads, List.forall₂_map_right_iff.mp spelled⟩
  exact bind_eq_ok.mpr ⟨settings, parseConfig_ok_iff.mpr ⟨rest, read⟩, checkConfig_ok_iff.mpr listed⟩

/-- A file configures the system when it has the four settings in their order,
each as digits that spell the value. What follows the last is not read. -/
theorem configure_ok_iff (text : List UInt8) (cfg : Config) :
    configure (some text) = .ok cfg ↔ ∃ words rest, Reads configFormat words text rest ∧
      List.Forall₂ Spells words cfg.settings := by
  constructor
  · intro configured
    obtain ⟨settings, parsed, passed⟩ := bind_eq_ok.mp configured
    obtain ⟨rest, read⟩ := parseConfig_ok_iff.mp parsed
    obtain ⟨words, reads, spelled⟩ := (readSettings_ok_iff fun _ member => member).mp read
    refine ⟨words, rest, reads, ?_⟩
    rw [← checkConfig_ok_iff.mp passed]
    exact List.forall₂_map_right_iff.mpr spelled
  · intro given
    obtain ⟨words, rest, reads, spelled⟩ := given
    exact configure_spelled reads spelled

theorem Spells.decimal {value : Nat} (fits : value < 2 ^ 31) : Spells (decimal value) value := by
  have string : cstr (Data.decimal value) = Data.decimal value :=
    cstr_of_nonzero fun _ member => decimal_nonzero member
  constructor
  · have length : (Data.decimal value).length ≤ 10 :=
      decimal_length_le (by decide) (Nat.lt_trans fits (by decide))
    exact Nat.lt_of_le_of_lt length (by decide)
  · rw [string]
    exact fun _ member => decimal_digits member
  · rw [string, digitsValue_decimal]

theorem Config.settings_fit (cfg : Config) : ∀ value ∈ cfg.settings, value < 2 ^ 31 := by
  simp only [Config.settings, List.forall_mem_cons]
  exact ⟨cfg.minersInt, cfg.poolInt, cfg.transactionsInt, cfg.blocksInt, nofun⟩

/-- Every configuration can be written down. -/
theorem configure_file (cfg : Config) : configure (some cfg.file) = .ok cfg := by
  have delimited : Delimited configFormat := by decide +kernel
  have counted : (cfg.settings.map decimal).length = configFormat.count .word := by
    have four : configFormat.count .word = 4 := by decide +kernel
    rw [four]
    rfl
  have reads : Reads configFormat (cfg.settings.map decimal) cfg.file [] := by
    apply (delimited.reads_render counted ?_ ?_).1
    · intro word member
      obtain ⟨value, _, rfl⟩ := List.mem_map.mp member
      exact decimal_ne_nil value
    · intro word member byte inside
      obtain ⟨value, _, rfl⟩ := List.mem_map.mp member
      exact isSolid_of_isDigit (decimal_digits inside)
  apply configure_spelled reads
  rw [List.forall₂_map_left_iff, List.forall₂_same]
  exact fun value member => Spells.decimal (cfg.settings_fit value member)

/-- The controller ends at the first setting that is not there as digits which
fit the buffer and an `int`; its message names that setting. -/
theorem parseConfig_faults (text : List UInt8) (stop : Stop) :
    parseConfig (some text) = .error stop ↔ ∃ before key words rest, before ++ [key] <+: configKeys ∧
      Reads (before.flatMap settingFormat) words text rest ∧
      (∀ word ∈ words, ∃ setting : Setting, Spells word setting) ∧ Fault key rest stop := by
  rw [parseConfig_error_iff]
  exact readSettings_error_iff fun _ member => member

-- white space before the value and zeros in front of it do no harm, a sign does
example : parseConfig (some ("NUM_MINERS= 05\nTRANSACTION_POOL_SIZE=+50\n".toList.map fun char =>
    UInt8.ofNat char.toNat)) = .error (invalidValue "TRANSACTION_POOL_SIZE") := by decide +kernel

end

end DeiChain
