import MarketMaker.Foundation.Fallible
import MarketMaker.Foundation.FixedPoint

/-!
# The configuration

`AppConfig.load` reads two files into the environment and checks the variables one after the other.
A file does not override a variable that is already set, so the process environment comes before
`.env`, and `.env` before `.secrets`.  An error carries the text of the first check that fails.
-/

namespace MarketMaker

variable {F : Type}

inductive WriteStyle
  | auto
  | always
  | never
  deriving DecidableEq, Repr

structure ApiCredentials where
  apiKey : String
  apiSecret : String
  deriving DecidableEq

structure AppConfig (F : Type) where
  symbol : String
  coin : String
  orderSize : F
  testnet : Bool
  credentials : ApiCredentials
  logFilter : String
  logStyle : WriteStyle
  deriving DecidableEq

/-- `std::env::var`; `none` is its error. -/
abbrev Environment := String → Option String

namespace Environment

def setDefault (env : Environment) (assignment : String × String) : Environment :=
  fun name ↦ (env name).or (if name = assignment.1 then some assignment.2 else none)

def loadFile (env : Environment) (assignments : List (String × String)) : Environment :=
  assignments.foldl setDefault env

/-- What is set comes before the file, and of the file the first assignment counts. -/
theorem loadFile_apply (env : Environment) (assignments : List (String × String))
    (name : String) : env.loadFile assignments name = (env name).or (assignments.lookup name) := by
  induction assignments generalizing env with
  | nil => exact (Option.or_none ..).symm
  | cons assignment rest ih =>
    change (env.setDefault assignment).loadFile rest name = _
    rw [ih, setDefault, Option.or_assoc, List.lookup_cons]
    by_cases hname : name = assignment.1
    · simp [hname]
    · have hbeq : (name == assignment.1) = false := beq_eq_false_iff_ne.mpr hname
      simp [hname, hbeq]

end Environment

/-- `char::is_whitespace`. -/
def isWhitespace (c : Char) : Bool :=
  (9 ≤ c.toNat && c.toNat ≤ 13) || c.toNat == 0x20 || c.toNat == 0x85 || c.toNat == 0xA0 ||
    c.toNat == 0x1680 || (0x2000 ≤ c.toNat && c.toNat ≤ 0x200A) || c.toNat == 0x2028 ||
    c.toNat == 0x2029 || c.toNat == 0x202F || c.toNat == 0x205F || c.toNat == 0x3000

def isBlank (text : String) : Bool := text.toList.all isWhitespace

def requiredEnv (env : Environment) (name : String) : Except String String :=
  match env name with
  | none => .error s!"{name} environment variable must be set"
  | some value =>
    if isBlank value then .error s!"{name} environment variable must not be blank" else .ok value

def parseLogStyle (value : String) : Except String WriteStyle :=
  match value.toLower with
  | "auto" => .ok .auto
  | "always" => .ok .always
  | "never" => .ok .never
  | _ => .error "RUST_LOG_STYLE must be auto, always, or never"

/-- `str::parse` for `bool`, with the context of its error. -/
def parseTestnet (value : String) : Except String Bool :=
  match value with
  | "true" => .ok true
  | "false" => .ok false
  | _ => .error "MMA_TESTNET must be true or false"

section Definitions

variable [F64 F] [F64Format F] [LE F] [DecidableLE F] [OfScientific F]

def checkOrderSize (orderSize : F) : Except String Unit :=
  if ¬F64Format.isFinite orderSize ∨ orderSize ≤ 0.0 then
    .error "MMA_ORDER_SIZE must be finite and greater than zero"
  else .ok ()

def parseOrderSize (value : String) : Except String F :=
  match (F64.fromStr value : Option F) with
  | none => .error "MMA_ORDER_SIZE must be a valid number"
  | some orderSize => (checkOrderSize orderSize).map fun _ ↦ orderSize

namespace AppConfig

def new (symbol coin : String) (orderSize : F) (testnet : Bool) (credentials : ApiCredentials)
    (logFilter : String) (logStyle : WriteStyle) : Except String (AppConfig F) :=
  (checkOrderSize orderSize).map fun _ ↦
    { symbol, coin, orderSize, testnet, credentials, logFilter, logStyle }

/-- The environment after both files; a file that is missing or malformed is `none`. -/
def loadFiles (env : Environment) (dotenv secrets : Option (List (String × String))) :
    Except String Environment :=
  match dotenv, secrets with
  | none, _ => .error ".env file must be present with configuration parameters"
  | some _, none => .error ".secrets file must be present with API_KEY and API_SECRET"
  | some assignments, some secrets => .ok ((env.loadFile assignments).loadFile secrets)

def load (env : Environment) (dotenv secrets : Option (List (String × String))) :
    Except String (AppConfig F) := do
  let env ← loadFiles env dotenv secrets
  let symbol ← requiredEnv env "MMA_SYMBOL"
  let coin ← requiredEnv env "MMA_COIN"
  let orderSize ← parseOrderSize (← requiredEnv env "MMA_ORDER_SIZE")
  let testnet ← parseTestnet (← requiredEnv env "MMA_TESTNET")
  let apiKey ← requiredEnv env "API_KEY"
  let apiSecret ← requiredEnv env "API_SECRET"
  let logFilter := (env "RUST_LOG").getD "warn"
  let logStyle ← parseLogStyle ((env "RUST_LOG_STYLE").getD "always")
  AppConfig.new symbol coin orderSize testnet { apiKey, apiSecret } logFilter logStyle

end AppConfig

end Definitions

/-! ## What is accepted -/

section Accepted

theorem requiredEnv_eq_ok {env : Environment} {name value : String} :
    requiredEnv env name = .ok value ↔ env name = some value ∧ isBlank value = false := by
  unfold requiredEnv
  cases henv : env name with
  | none => simp
  | some found =>
    by_cases hblank : isBlank found
    · simp only [hblank, if_true, reduceCtorEq, false_iff, not_and, Option.some.injEq]
      rintro rfl
      simp [hblank]
    · simp only [hblank, Bool.false_eq_true, if_false, Except.ok.injEq, Option.some.injEq]
      constructor
      · rintro rfl
        exact ⟨rfl, by simpa using hblank⟩
      · exact fun h ↦ h.1

theorem parseTestnet_eq_ok {value : String} {testnet : Bool} :
    parseTestnet value = .ok testnet ↔ value = toString testnet := by
  have htrue : toString true = "true" := rfl
  have hfalse : toString false = "false" := rfl
  unfold parseTestnet
  split
  · cases testnet <;> simp [htrue, hfalse]
  · cases testnet <;> simp [htrue, hfalse]
  · rename_i hnotTrue hnotFalse
    cases testnet
    · simpa [hfalse] using hnotFalse
    · simpa [htrue] using hnotTrue

variable [F64 F] [F64Format F] [LE F] [DecidableLE F] [OfScientific F]

omit [F64 F] in
theorem checkOrderSize_eq_ok {orderSize : F} {result : Unit} :
    checkOrderSize orderSize = .ok result ↔
      F64Format.isFinite orderSize ∧ ¬orderSize ≤ 0.0 := by
  unfold checkOrderSize
  split_ifs with hinvalid
  · simp only [false_iff]
    rintro ⟨hfinite, hpositive⟩
    exact hinvalid.elim (fun hinfinite ↦ hinfinite hfinite) hpositive
  · rw [not_or, not_not] at hinvalid
    simpa using hinvalid

theorem parseOrderSize_eq_ok {value : String} {orderSize : F} :
    parseOrderSize value = .ok orderSize ↔ F64.fromStr value = some orderSize ∧
      F64Format.isFinite orderSize ∧ ¬orderSize ≤ 0.0 := by
  unfold parseOrderSize
  cases hparse : (F64.fromStr value : Option F) with
  | none => simp
  | some parsed =>
    simp only [map_eq_ok, checkOrderSize_eq_ok, exists_const, Option.some.injEq]
    constructor
    · rintro ⟨hvalid, rfl⟩
      exact ⟨rfl, hvalid⟩
    · rintro ⟨rfl, hvalid⟩
      exact ⟨hvalid, rfl⟩

namespace AppConfig

/-- The configuration that the variables hold. -/
structure Reads (env : Environment) (config : AppConfig F) : Prop where
  symbol : env "MMA_SYMBOL" = some config.symbol ∧ isBlank config.symbol = false
  coin : env "MMA_COIN" = some config.coin ∧ isBlank config.coin = false
  orderSize : ∃ text, env "MMA_ORDER_SIZE" = some text ∧ isBlank text = false ∧
    F64.fromStr text = some config.orderSize
  positive : F64Format.isFinite config.orderSize ∧ ¬config.orderSize ≤ 0.0
  testnet : env "MMA_TESTNET" = some (toString config.testnet)
  apiKey : env "API_KEY" = some config.credentials.apiKey ∧
    isBlank config.credentials.apiKey = false
  apiSecret : env "API_SECRET" = some config.credentials.apiSecret ∧
    isBlank config.credentials.apiSecret = false
  logFilter : config.logFilter = (env "RUST_LOG").getD "warn"
  logStyle : parseLogStyle ((env "RUST_LOG_STYLE").getD "always") = .ok config.logStyle

omit [F64 F] in
theorem new_eq_ok {symbol coin : String} {orderSize : F} {testnet : Bool}
    {credentials : ApiCredentials} {logFilter : String} {logStyle : WriteStyle}
    {config : AppConfig F} :
    AppConfig.new symbol coin orderSize testnet credentials logFilter logStyle = .ok config ↔
      (F64Format.isFinite orderSize ∧ ¬orderSize ≤ 0.0) ∧
        config = { symbol, coin, orderSize, testnet, credentials, logFilter, logStyle } := by
  simp only [AppConfig.new, map_eq_ok, checkOrderSize_eq_ok, exists_const]
  apply and_congr_right
  intro _
  exact eq_comm

theorem loadFiles_eq_ok {env loaded : Environment}
    {dotenv secrets : Option (List (String × String))} :
    loadFiles env dotenv secrets = .ok loaded ↔ ∃ assignments hidden,
      dotenv = some assignments ∧ secrets = some hidden ∧ loaded = fun name ↦
        ((env name).or (assignments.lookup name)).or (hidden.lookup name) := by
  cases dotenv with
  | none => simp [loadFiles]
  | some assignments =>
    cases secrets with
    | none => simp [loadFiles]
    | some hidden =>
      have hloaded : (env.loadFile assignments).loadFile hidden = fun name ↦
          ((env name).or (assignments.lookup name)).or (hidden.lookup name) := by
        funext name
        rw [Environment.loadFile_apply, Environment.loadFile_apply]
      simp [loadFiles, hloaded, eq_comm]

/-- A configuration that loads is the one that the variables hold. -/
theorem reads_of_load {env : Environment} {dotenv secrets : Option (List (String × String))}
    {config : AppConfig F} (hload : load env dotenv secrets = .ok config) :
    ∃ loaded, loadFiles env dotenv secrets = .ok loaded ∧ config.Reads loaded := by
  simp only [load, bind_eq_ok, requiredEnv_eq_ok, parseOrderSize_eq_ok,
    parseTestnet_eq_ok, new_eq_ok] at hload
  obtain ⟨loaded, hfiles, symbol, hsymbol, coin, hcoin, text, ⟨htext, hblank⟩, orderSize,
    ⟨hsize, hpositive⟩, flag, ⟨hflag, -⟩, testnet, rfl, apiKey, hkey, apiSecret, hsecret, logStyle,
    hstyle, -, rfl⟩ := hload
  exact ⟨loaded, hfiles, hsymbol, hcoin, ⟨text, htext, hblank, hsize⟩, hpositive, hflag, hkey,
    hsecret, rfl, hstyle⟩

/-- The configuration loads exactly if both files are present and the variables hold one, where the
process environment overrides the first file and the first file the second. -/
theorem load_eq_ok_iff {env : Environment} {dotenv secrets : Option (List (String × String))}
    {config : AppConfig F} :
    load env dotenv secrets = .ok config ↔ ∃ assignments hidden,
      dotenv = some assignments ∧ secrets = some hidden ∧ config.Reads fun name ↦
        ((env name).or (assignments.lookup name)).or (hidden.lookup name) := by
  constructor
  · intro hload
    obtain ⟨loaded, hfiles, hreads⟩ := reads_of_load hload
    obtain ⟨assignments, hidden, hdotenv, hsecrets, rfl⟩ := loadFiles_eq_ok.mp hfiles
    exact ⟨assignments, hidden, hdotenv, hsecrets, hreads⟩
  · rintro ⟨assignments, hidden, hdotenv, hsecrets, hreads⟩
    obtain ⟨text, htext, hblank, hsize⟩ := hreads.orderSize
    have hshown : isBlank (toString config.testnet) = false := by
      cases config.testnet <;> decide +kernel
    simp only [load, bind_eq_ok, loadFiles_eq_ok, requiredEnv_eq_ok, parseOrderSize_eq_ok,
      parseTestnet_eq_ok, new_eq_ok]
    refine ⟨_, ⟨assignments, hidden, hdotenv, hsecrets, rfl⟩, config.symbol, hreads.symbol,
      config.coin, hreads.coin, text, ⟨htext, hblank⟩, config.orderSize, ⟨hsize, hreads.positive⟩,
      _, ⟨hreads.testnet, hshown⟩, config.testnet, rfl, _, hreads.apiKey, _, hreads.apiSecret,
      config.logStyle, hreads.logStyle, hreads.positive, ?_⟩
    rw [← hreads.logFilter]

end AppConfig

end Accepted

/-! ## The exact reading -/

namespace AppConfig

theorem Reads.orderSize_pos {env : Environment} {config : AppConfig ℚ} (hreads : config.Reads env) :
    0 < config.orderSize := by
  have hzero : (0.0 : ℚ) = 0 := by norm_num
  rw [← hzero]
  exact not_le.mp hreads.positive.2

/-- The assignments of the `.env` file of the repository. -/
def sampleDotenv : List (String × String) :=
  [("MMA_SYMBOL", "ADAUSDT"), ("MMA_COIN", "ADA"), ("MMA_SPREAD", "0.02"),
    ("MMA_ORDER_SIZE", "500"), ("MMA_TESTNET", "true"), ("RUST_LOG", "info")]

end AppConfig

end MarketMaker
