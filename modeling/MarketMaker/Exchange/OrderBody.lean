import MarketMaker.Exchange.Market
import MarketMaker.Exchange.Order

/-!
# Request bodies of the gateway

The bodies of the requests that submit and amend an order.  Quantities and prices are checked while
the body is built, and a failed check is a panic.  A body carries a quantity as the shortest text
that reads back as the number; the number itself stands for it here.
-/

namespace MarketMaker

variable {F : Type}

structure SubmitOrderBody (F : Type) where
  orderLinkId : String
  category : String
  isLeverage : ℕ
  symbol : String
  side : OrderSide
  orderType : OrderType
  qty : F
  price : String
  timeInForce : String
  smpType : String
  marketUnit : String

/-- The fields that do not change are absent. -/
structure AmendOrderBody (F : Type) where
  category : String
  symbol : String
  orderLinkId : String
  qty : Option F
  price : Option String

namespace OrderHandler

section Definitions

variable [F64 F] [F64Format F] [LT F] [DecidableLT F] [OfScientific F]

def serializeQuantity (qty : F) : Except Panic F := do
  assertThat (F64Format.isFinite qty ∧ qty > 0.0)
    "Order quantity must be finite and greater than zero."
  return qty

/-- The text is passed on as it is. -/
def serializePrice (F : Type) [F64 F] [F64Format F] [LT F] [DecidableLT F] [OfScientific F]
    (price : String) : Except Panic String :=
  match (F64.fromStr price : Option F) with
  | none => .error (.message "Order price must be a finite number greater than zero.")
  | some priceValue => do
    assertThat (F64Format.isFinite priceValue ∧ priceValue > 0.0)
      "Order price must be a finite number greater than zero."
    return price

def submitOrderBody (orderBuilder : OrderBuilder F) (orderLinkId : UInt64) :
    Except Panic (SubmitOrderBody F) := do
  let qty ← serializeQuantity orderBuilder.qty
  let price ← serializePrice F orderBuilder.price
  return { orderLinkId := toString orderLinkId, category := "spot", isLeverage := 1
           symbol := orderBuilder.symbol, side := orderBuilder.side
           orderType := orderBuilder.orderType, qty, price, timeInForce := "PostOnly"
           smpType := "CancelBoth", marketUnit := "baseCoin" }

/-- A field of an amendment: a value that does not change is neither checked nor sent. -/
def changedField {α : Type} (changed : Bool) (serialized : Except Panic α) :
    Except Panic (Option α) :=
  if changed then serialized.map some else .ok none

def amendOrderBody (orderBuilder : OrderAmendedBuilder F) : Except Panic (AmendOrderBody F) := do
  let qty ← changedField orderBuilder.newQty (serializeQuantity orderBuilder.qty)
  let price ← changedField orderBuilder.newPrice (serializePrice F orderBuilder.price)
  return { category := "spot", symbol := orderBuilder.symbol
           orderLinkId := toString orderBuilder.orderLinkId, qty, price }

omit [F64 F] in
/-- What passes the checks is unchanged. -/
theorem eq_of_serializeQuantity {qty result : F} (hqty : serializeQuantity qty = .ok result) :
    result = qty := by
  obtain ⟨_, -, hreturn⟩ := bind_eq_ok.mp hqty
  exact (Except.ok.inj hreturn).symm

theorem eq_of_serializePrice {price result : String}
    (hprice : serializePrice F price = .ok result) : result = price := by
  unfold serializePrice at hprice
  split at hprice
  · cases hprice
  · obtain ⟨_, -, hreturn⟩ := bind_eq_ok.mp hprice
    exact (Except.ok.inj hreturn).symm

theorem changedField_eq_ok {α : Type} {changed : Bool} {serialized : Except Panic α}
    {field : Option α} :
    changedField changed serialized = .ok field ↔
      (changed = true ∧ ∃ value, serialized = .ok value ∧ field = some value) ∨
        changed = false ∧ field = none := by
  cases changed with
  | false => simp [changedField, eq_comm]
  | true => cases serialized <;> simp [changedField, Except.map, eq_comm]

/-- A field that changes carries the value it was built from. -/
theorem eq_of_changedField {α : Type} {changed : Bool} {serialized : Except Panic α} {value : α}
    {field : Option α} (hvalue : ∀ result, serialized = .ok result → result = value)
    (hfield : changedField changed serialized = .ok field) :
    field = if changed then some value else none := by
  obtain ⟨rfl, result, hresult, rfl⟩ | ⟨rfl, rfl⟩ := changedField_eq_ok.mp hfield
  · rw [hvalue result hresult, if_pos rfl]
  · rfl

theorem submitOrderBody_eq {orderBuilder : OrderBuilder F} {orderLinkId : UInt64}
    {body : SubmitOrderBody F} (hbody : submitOrderBody orderBuilder orderLinkId = .ok body) :
    body = { orderLinkId := toString orderLinkId, category := "spot", isLeverage := 1
             symbol := orderBuilder.symbol, side := orderBuilder.side
             orderType := orderBuilder.orderType, qty := orderBuilder.qty
             price := orderBuilder.price, timeInForce := "PostOnly", smpType := "CancelBoth"
             marketUnit := "baseCoin" } := by
  simp only [submitOrderBody, bind_eq_ok] at hbody
  obtain ⟨qty, hqty, price, hprice, heq⟩ := hbody
  rw [← Except.ok.inj heq, eq_of_serializeQuantity hqty, eq_of_serializePrice hprice]

theorem amendOrderBody_eq {orderBuilder : OrderAmendedBuilder F} {body : AmendOrderBody F}
    (hbody : amendOrderBody orderBuilder = .ok body) :
    body = { category := "spot", symbol := orderBuilder.symbol
             orderLinkId := toString orderBuilder.orderLinkId
             qty := if orderBuilder.newQty then some orderBuilder.qty else none
             price := if orderBuilder.newPrice then some orderBuilder.price else none } := by
  simp only [amendOrderBody, bind_eq_ok] at hbody
  obtain ⟨qty, hqty, price, hprice, heq⟩ := hbody
  rw [← Except.ok.inj heq, eq_of_changedField (fun _ ↦ eq_of_serializeQuantity) hqty,
    eq_of_changedField (fun _ ↦ eq_of_serializePrice) hprice]

end Definitions

/-! ## The exact reading -/

def PositivePrice (price : String) : Prop :=
  ∃ priceValue : ℚ, F64.fromStr price = some priceValue ∧ 0 < priceValue

theorem serializeQuantity_eq_ok {qty result : ℚ} :
    serializeQuantity qty = .ok result ↔ 0 < qty ∧ result = qty := by
  have hzero : (0.0 : ℚ) = 0 := by norm_num
  simp only [serializeQuantity, bind_eq_ok, assertThat_eq_ok, F64Format.isFinite, true_and, hzero,
    gt_iff_lt, pure, Except.pure, Except.ok.injEq, exists_and_left, exists_const]
  exact and_congr_right fun _ ↦ eq_comm

theorem serializePrice_eq_ok {price result : String} :
    serializePrice ℚ price = .ok result ↔ PositivePrice price ∧ result = price := by
  have hzero : (0.0 : ℚ) = 0 := by norm_num
  unfold serializePrice PositivePrice
  cases hprice : (F64.fromStr price : Option ℚ) with
  | none => simp
  | some priceValue =>
    simp only [bind_eq_ok, assertThat_eq_ok, F64Format.isFinite, true_and, hzero, gt_iff_lt, pure,
      Except.pure, Except.ok.injEq, exists_and_left, exists_const, Option.some.injEq,
      exists_eq_left']
    exact and_congr_right fun _ ↦ eq_comm

/-- A field is accepted exactly if the value is accepted or does not change. -/
theorem exists_changedField {α : Type} {changed : Bool} {serialized : Except Panic α} :
    (∃ field, changedField changed serialized = .ok field) ↔
      (changed = true → ∃ value, serialized = .ok value) := by
  cases changed with
  | false => simp [changedField]
  | true => cases serialized <;> simp [changedField, Except.map]

theorem submitOrderBody_eq_ok {orderBuilder : OrderBuilder ℚ} {orderLinkId : UInt64}
    {body : SubmitOrderBody ℚ} (hbody : submitOrderBody orderBuilder orderLinkId = .ok body) :
    0 < orderBuilder.qty ∧ PositivePrice orderBuilder.price ∧ body.qty = orderBuilder.qty ∧
      body.price = orderBuilder.price := by
  simp only [submitOrderBody, bind_eq_ok, serializeQuantity_eq_ok, serializePrice_eq_ok] at hbody
  obtain ⟨qty, ⟨hqty, rfl⟩, price, ⟨hprice, rfl⟩, heq⟩ := hbody
  obtain rfl := Except.ok.inj heq
  exact ⟨hqty, hprice, rfl, rfl⟩

/-- A submission is accepted exactly for a positive quantity and a positive price. -/
theorem exists_submitOrderBody_iff {orderBuilder : OrderBuilder ℚ} {orderLinkId : UInt64} :
    (∃ body, submitOrderBody orderBuilder orderLinkId = .ok body) ↔
      0 < orderBuilder.qty ∧ PositivePrice orderBuilder.price := by
  constructor
  · rintro ⟨body, hbody⟩
    obtain ⟨hqty, hprice, -⟩ := submitOrderBody_eq_ok hbody
    exact ⟨hqty, hprice⟩
  · rintro ⟨hqty, hprice⟩
    simp only [submitOrderBody, bind_eq_ok, serializeQuantity_eq_ok, serializePrice_eq_ok]
    exact ⟨_, _, ⟨hqty, rfl⟩, _, ⟨hprice, rfl⟩, rfl⟩

theorem amendOrderBody_eq_ok {orderBuilder : OrderAmendedBuilder ℚ} {body : AmendOrderBody ℚ}
    (hbody : amendOrderBody orderBuilder = .ok body) :
    (orderBuilder.newQty = true → 0 < orderBuilder.qty) ∧
      (orderBuilder.newPrice = true → PositivePrice orderBuilder.price) ∧
      body.qty = (if orderBuilder.newQty then some orderBuilder.qty else none) ∧
      body.price = if orderBuilder.newPrice then some orderBuilder.price else none := by
  simp only [amendOrderBody, bind_eq_ok, changedField_eq_ok, serializeQuantity_eq_ok,
    serializePrice_eq_ok] at hbody
  obtain ⟨qty, hqty, price, hprice, heq⟩ := hbody
  obtain rfl := Except.ok.inj heq
  obtain ⟨hnewQty, _, ⟨hqty, rfl⟩, rfl⟩ | ⟨hnewQty, rfl⟩ := hqty <;>
    obtain ⟨hnewPrice, _, ⟨hprice, rfl⟩, rfl⟩ | ⟨hnewPrice, rfl⟩ := hprice <;>
      simp_all

/-- An amendment is accepted exactly if what it changes is positive. -/
theorem exists_amendOrderBody_iff {orderBuilder : OrderAmendedBuilder ℚ} :
    (∃ body, amendOrderBody orderBuilder = .ok body) ↔
      (orderBuilder.newQty = true → 0 < orderBuilder.qty) ∧
        (orderBuilder.newPrice = true → PositivePrice orderBuilder.price) := by
  constructor
  · rintro ⟨body, hbody⟩
    obtain ⟨hqty, hprice, -⟩ := amendOrderBody_eq_ok hbody
    exact ⟨hqty, hprice⟩
  · rintro ⟨hqty, hprice⟩
    obtain ⟨qty, hqtyField⟩ := exists_changedField.mpr fun hnew ↦
      ⟨orderBuilder.qty, serializeQuantity_eq_ok.mpr ⟨hqty hnew, rfl⟩⟩
    obtain ⟨price, hpriceField⟩ := exists_changedField.mpr fun hnew ↦
      ⟨orderBuilder.price, serializePrice_eq_ok.mpr ⟨hprice hnew, rfl⟩⟩
    simp only [amendOrderBody, bind_eq_ok]
    exact ⟨_, qty, hqtyField, price, hpriceField, rfl⟩

end OrderHandler

end MarketMaker
