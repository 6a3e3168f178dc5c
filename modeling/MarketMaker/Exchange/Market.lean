import MarketMaker.Foundation.Fallible
import MarketMaker.Foundation.FixedPoint

/-!
# Instrument metadata

`processInstrumentInfoResponse` reads the metadata of the configured symbol from the exchange's
answer.  The tick size is the value of a text, the number of decimals a length in it: what follows
the point, or all but one byte of a text without a point.
-/

namespace MarketMaker

/-- `serde_json::Value`; of a number only its reading as `i64` is used. -/
inductive Value
  | null
  | bool (value : Bool)
  | number (asI64 : Option ℤ)
  | string (text : String)
  | array (entries : List Value)
  | object (fields : List (String × Value))

namespace Value

/-- The index operator: null for a missing key and for a value that is no object. -/
def get (key : String) : Value → Value
  | object fields => (fields.lookup key).getD null
  | _ => null

def asI64 : Value → Option ℤ
  | number asI64 => asI64
  | _ => none

def asStr : Value → Option String
  | string text => some text
  | _ => none

def asArray : Value → Option (List Value)
  | array entries => some entries
  | _ => none

end Value

/-- Why a function panics: an assertion or `panic!` with its message, the answer of a failed
request, an `unwrap` or `expect`, or an arithmetic overflow. -/
inductive Panic
  | message (text : String)
  | requestFailed (retCode retMsg : Value)
  | unwrap
  | overflow

/-- `assert!`. -/
def assertThat (condition : Prop) [Decidable condition] (text : String) : Except Panic Unit :=
  if condition then .ok () else .error (.message text)

def unwrap {α : Type} : Option α → Except Panic α
  | some value => .ok value
  | none => .error .unwrap

theorem assertThat_eq_ok {condition : Prop} [Decidable condition] {text : String} {result : Unit} :
    assertThat condition text = .ok result ↔ condition := by
  unfold assertThat
  split_ifs with hcondition <;> simp [hcondition]

theorem unwrap_eq_ok {α : Type} {value : Option α} {result : α} :
    unwrap value = .ok result ↔ value = some result := by
  cases value <;> simp [unwrap]

variable {F : Type}

structure InstrumentInfo (F : Type) where
  symbol : String
  baseCoin : String
  quoteCoin : String
  basePrecision : F
  quotePrecision : F
  tickSize : F
  decimalPlaces : ℕ
  deriving DecidableEq

def InstrumentInfo.new [F64Format F] [LT F] [DecidableLT F] [OfScientific F]
    (symbol baseCoin quoteCoin : String) (basePrecision quotePrecision tickSize : F)
    (decimalPlaces : ℕ) : Except Panic (InstrumentInfo F) := do
  assertThat (symbol ≠ "") "Instrument symbol must not be empty."
  assertThat (baseCoin ≠ "") "Base coin must not be empty."
  assertThat (quoteCoin ≠ "") "Quote coin must not be empty."
  assertThat (F64Format.isFinite basePrecision ∧ basePrecision > 0.0)
    "Base precision must be finite and greater than zero."
  assertThat (F64Format.isFinite quotePrecision ∧ quotePrecision > 0.0)
    "Quote precision must be finite and greater than zero."
  assertThat (F64Format.isFinite tickSize ∧ tickSize > 0.0)
    "Tick size must be finite and greater than zero."
  return { symbol, baseCoin, quoteCoin, basePrecision, quotePrecision, tickSize, decimalPlaces }

/-- Checked metadata holds the values given, with a positive tick size. -/
theorem InstrumentInfo.new_eq_ok [F64Format F] [LT F] [DecidableLT F] [OfScientific F]
    {symbol baseCoin quoteCoin : String} {basePrecision quotePrecision tickSize : F}
    {decimalPlaces : ℕ} {info : InstrumentInfo F}
    (hnew : InstrumentInfo.new symbol baseCoin quoteCoin basePrecision quotePrecision tickSize
      decimalPlaces = .ok info) :
    info = { symbol, baseCoin, quoteCoin, basePrecision, quotePrecision, tickSize, decimalPlaces } ∧
      tickSize > 0.0 := by
  simp only [InstrumentInfo.new, bind_eq_ok, assertThat_eq_ok] at hnew
  obtain ⟨_, -, _, -, _, -, _, -, _, -, _, htick, heq⟩ := hnew
  exact ⟨(Except.ok.inj heq).symm, htick.2⟩

def byteLength (text : List Char) : ℕ := (text.map Char.utf8Size).sum

/-- `str::find` of a character: the byte offset of its first occurrence. -/
def findChar (text : List Char) (c : Char) : Option ℕ :=
  if c ∈ text then some (byteLength (text.takeWhile (· ≠ c))) else none

def checkedSub (left right : ℕ) : Except Panic ℕ :=
  if right ≤ left then .ok (left - right) else .error .overflow

/-- The number of decimals read off the text of a tick size. -/
def decimalPlacesOf (tickSize : String) : Except Panic ℕ := do
  let length := byteLength tickSize.toList
  checkedSub (← checkedSub length ((findChar tickSize.toList '.').getD 0)) 1

variable [F64 F] [F64Format F] [LT F] [DecidableLT F] [OfScientific F]

/-- The metadata in one entry of the list. -/
def readInstrument (symbol : String) (instrument : Value) : Except Panic (InstrumentInfo F) := do
  let baseCoin ← unwrap (instrument.get "baseCoin").asStr
  let quoteCoin ← unwrap (instrument.get "quoteCoin").asStr
  let basePrecision ← unwrap ((← unwrap
    ((instrument.get "lotSizeFilter").get "basePrecision").asStr) |> F64.fromStr)
  let quotePrecision ← unwrap ((← unwrap
    ((instrument.get "lotSizeFilter").get "quotePrecision").asStr) |> F64.fromStr)
  let tickSize ← unwrap ((instrument.get "priceFilter").get "tickSize").asStr
  let decimalPlaces ← decimalPlacesOf tickSize
  InstrumentInfo.new symbol baseCoin quoteCoin basePrecision quotePrecision
    (← unwrap (F64.fromStr tickSize)) decimalPlaces

/-- The exchange returns all symbols: the first entry of the configured one is read. -/
def processInstrumentInfoResponse (symbol : String) (content : Value) :
    Except Panic (InstrumentInfo F) := do
  if (← unwrap (content.get "retCode").asI64) = 0 then
    match (← unwrap ((content.get "result").get "list").asArray).find?
        (fun instrument ↦ (instrument.get "symbol").asStr = some symbol) with
    | some instrument => readInstrument symbol instrument
    | none => .error (.message s!"Symbol {symbol} not found in instruments-info response.")
  else .error (.requestFailed (content.get "retCode") (content.get "retMsg"))

def TickSizeText (symbol : String) (content : Value) (text : String) : Prop :=
  ∃ instruments instrument, ((content.get "result").get "list").asArray = some instruments ∧
    instruments.find? (fun instrument ↦ (instrument.get "symbol").asStr = some symbol) =
      some instrument ∧
    ((instrument.get "priceFilter").get "tickSize").asStr = some text

theorem TickSizeText.unique {symbol : String} {content : Value} {text other : String}
    (htext : TickSizeText symbol content text) (hother : TickSizeText symbol content other) :
    text = other := by
  obtain ⟨instruments, instrument, hlist, hfind, hread⟩ := htext
  obtain ⟨instruments', instrument', hlist', hfind', hread'⟩ := hother
  obtain rfl := Option.some.inj (hlist.symm.trans hlist')
  obtain rfl := Option.some.inj (hfind.symm.trans hfind')
  exact Option.some.inj (hread.symm.trans hread')

/-- The metadata read is that of the symbol asked for. -/
theorem symbol_of_processInstrumentInfoResponse {symbol : String} {content : Value}
    {info : InstrumentInfo F}
    (haccepted : processInstrumentInfoResponse symbol content = .ok info) :
    info.symbol = symbol := by
  simp only [processInstrumentInfoResponse, bind_eq_ok, unwrap_eq_ok] at haccepted
  obtain ⟨retCode, -, haccepted⟩ := haccepted
  split_ifs at haccepted
  simp only [bind_eq_ok, unwrap_eq_ok] at haccepted
  obtain ⟨instruments, -, haccepted⟩ := haccepted
  split at haccepted
  · simp only [readInstrument, bind_eq_ok, unwrap_eq_ok] at haccepted
    obtain ⟨_, -, _, -, _, -, _, -, _, -, _, -, _, -, _, -, _, -, hnew⟩ := haccepted
    obtain ⟨rfl, -⟩ := InstrumentInfo.new_eq_ok hnew
    rfl
  · cases haccepted

/-- The tick size of accepted metadata is the positive value of its text, and the decimals are
read off the same text. -/
theorem processInstrumentInfoResponse_eq_ok {symbol : String} {content : Value}
    {info : InstrumentInfo F}
    (haccepted : processInstrumentInfoResponse symbol content = .ok info) :
    ∃ text, TickSizeText symbol content text ∧ F64.fromStr text = some info.tickSize ∧
      decimalPlacesOf text = .ok info.decimalPlaces ∧ info.tickSize > 0.0 := by
  simp only [processInstrumentInfoResponse, bind_eq_ok, unwrap_eq_ok] at haccepted
  obtain ⟨retCode, -, haccepted⟩ := haccepted
  split_ifs at haccepted
  simp only [bind_eq_ok, unwrap_eq_ok] at haccepted
  obtain ⟨instruments, hlist, haccepted⟩ := haccepted
  split at haccepted
  · rename_i instrument hfind
    simp only [readInstrument, bind_eq_ok, unwrap_eq_ok] at haccepted
    obtain ⟨_, -, _, -, _, -, _, -, _, -, _, -, text, htext, places, hplaces, tickSize, htick,
      hnew⟩ := haccepted
    obtain ⟨rfl, hpositive⟩ := InstrumentInfo.new_eq_ok hnew
    exact ⟨text, ⟨instruments, instrument, hlist, hfind, htext⟩, htick, hplaces, hpositive⟩
  · cases haccepted

end MarketMaker
