import MarketMaker.Exchange.Order

/-!
# Risk policies

A risk policy looks at the stored orders, a wanted order, the inventory and the average entry
price and decides what is sent to the exchange.  `RiskManager` keeps one open order per side and
blocks a side once the inventory has reached its limit; the limits use the current inventory only.

The slab of orders is a list whose positions are the slab keys: the order management system never
removes an order, so a new order always takes the next position.
-/

namespace MarketMaker

variable {F : Type}

inductive Outcome (F : Type)
  | newOrder (order : OrderBuilder F)
  | amendOrder (order : OrderAmendedBuilder F)
  | doNothing
  deriving DecidableEq

/-- `evaluate_order` of the trait: stored orders, new order, inventory, average entry price.
`none` is a panic. -/
abbrev RiskPolicy (F : Type) := List (Order F) → OrderBuilder F → F → F → Option (Outcome F)

def maxInventory [OfScientific F] : F := 500.0

def minInventory [OfScientific F] [Neg F] : F := -500.0

@[simp]
theorem maxInventory_rat : (maxInventory : ℚ) = 500 := by norm_num [maxInventory]

@[simp]
theorem minInventory_rat : (minInventory : ℚ) = -500 := by norm_num [minInventory]

namespace RiskManager

/-- The first open order on a side, in slab order. -/
def getExistingOrder (orders : List (Order F)) (side : OrderSide) : Option (Order F) :=
  orders.find? fun order ↦ order.orderStatus.isOpen && side == order.side

theorem getExistingOrder_eq_none {orders : List (Order F)} {side : OrderSide} :
    getExistingOrder orders side = none ↔
      ∀ order ∈ orders, order.side = side → order.orderStatus.isOpen = false := by
  simp only [getExistingOrder, List.find?_eq_none, Bool.and_eq_true, beq_iff_eq, not_and]
  constructor
  · intro h order horder hside
    exact Bool.eq_false_iff.mpr fun hopen ↦ h order horder hopen hside.symm
  · intro h order horder hopen hside
    simp [h order horder hside.symm] at hopen

theorem mem_of_getExistingOrder {orders : List (Order F)} {side : OrderSide} {existing : Order F}
    (hexisting : getExistingOrder orders side = some existing) :
    existing ∈ orders ∧ existing.orderStatus.isOpen ∧ existing.side = side := by
  have hmatch := List.find?_some hexisting
  simp only [Bool.and_eq_true, beq_iff_eq] at hmatch
  exact ⟨List.mem_of_find?_eq_some hexisting, hmatch.1, hmatch.2.symm⟩

/-- An open order that is added is the first one of its side if the side had none. -/
theorem getExistingOrder_append (orders : List (Order F)) {added : Order F}
    (hopen : added.orderStatus.isOpen) (side : OrderSide) :
    getExistingOrder (orders ++ [added]) side =
      (getExistingOrder orders side).or (if side = added.side then some added else none) := by
  rw [getExistingOrder, List.find?_append]
  by_cases hside : side = added.side <;> simp [getExistingOrder, hside, hopen]

/-- The first open order of a side remains the first one when it is rewritten. -/
theorem getExistingOrder_set {orders : List (Order F)} {side : OrderSide} {existing : Order F}
    (hexisting : getExistingOrder orders side = some existing) :
    ∃ slabId, orders[slabId]? = some existing ∧ ∀ changed : Order F,
      changed.orderStatus.isOpen → changed.side = side →
      getExistingOrder (orders.set slabId changed) side = some changed := by
  obtain ⟨-, before, after, rfl, hbefore⟩ := List.find?_eq_some_iff_append.mp hexisting
  refine ⟨before.length, by simp, ?_⟩
  intro changed hopen hside
  have hnone : getExistingOrder before side = none := by
    apply List.find?_eq_none.mpr
    intro order hmem
    simpa only [Bool.not_eq_true', Bool.not_eq_true] using hbefore order hmem
  unfold getExistingOrder at hnone ⊢
  rw [List.set_append_right _ _ le_rfl, Nat.sub_self, List.set_cons_zero, List.find?_append,
    hnone, Option.none_or, List.find?_cons_of_pos]
  simp [hopen, hside]

variable [F64 F] [LE F] [DecidableLE F] [BEq F] [Neg F] [OfScientific F]

def amendment (newOrder : OrderBuilder F) (newOrderPrice : F) (existingOrder : Order F) :
    OrderAmendedBuilder F :=
  { symbol := newOrder.symbol
    orderLinkId := existingOrder.orderLinkId
    qty := newOrder.qty
    price := newOrder.price
    newPrice := newOrderPrice != existingOrder.price
    newQty := newOrder.qty != existingOrder.qty }

def evaluateOrder : RiskPolicy F := fun orders newOrder inventory _averageEntryPrice ↦
  if inventory ≥ maxInventory ∧ newOrder.side = .buy then some .doNothing
  else if inventory ≤ minInventory ∧ newOrder.side = .sell then some .doNothing
  else (F64.fromStr newOrder.price).bind fun newOrderPrice ↦
    match getExistingOrder orders newOrder.side with
    | none => some (.newOrder newOrder)
    | some existingOrder =>
      if existingOrder.orderStatus = .submitted then some .doNothing
      else
        let amendedOrder := amendment newOrder newOrderPrice existingOrder
        if !amendedOrder.newPrice && !amendedOrder.newQty then some .doNothing
        else some (.amendOrder amendedOrder)

/-- Everything the risk manager can decide: a new order only for a side below its limit without
an open order, an amendment only of the first open order of the side once it is acknowledged. -/
theorem evaluateOrder_cases {orders : List (Order F)} {newOrder : OrderBuilder F}
    {inventory averageEntryPrice : F} {outcome : Outcome F}
    (h : evaluateOrder orders newOrder inventory averageEntryPrice = some outcome) :
    outcome = .doNothing ∨
      (outcome = .newOrder newOrder ∧ getExistingOrder orders newOrder.side = none ∧
        ¬(inventory ≥ maxInventory ∧ newOrder.side = .buy) ∧
        ¬(inventory ≤ minInventory ∧ newOrder.side = .sell)) ∨
      ∃ newOrderPrice existingOrder, F64.fromStr newOrder.price = some newOrderPrice ∧
        getExistingOrder orders newOrder.side = some existingOrder ∧
        existingOrder.orderStatus ≠ .submitted ∧
        outcome = .amendOrder (amendment newOrder newOrderPrice existingOrder) := by
  unfold evaluateOrder at h
  split_ifs at h with hmax hmin
  · exact .inl (Option.some.inj h).symm
  · exact .inl (Option.some.inj h).symm
  obtain ⟨newOrderPrice, hprice, h⟩ := Option.bind_eq_some_iff.mp h
  cases hexisting : getExistingOrder orders newOrder.side with
  | none =>
    simp only [hexisting] at h
    exact .inr (.inl ⟨(Option.some.inj h).symm, rfl, hmax, hmin⟩)
  | some existingOrder =>
    simp only [hexisting] at h
    split_ifs at h with hsubmitted hsame
    · exact .inl (Option.some.inj h).symm
    · exact .inl (Option.some.inj h).symm
    · exact .inr (.inr ⟨newOrderPrice, existingOrder, hprice, rfl, hsubmitted,
        (Option.some.inj h).symm⟩)

/-- The only panic is a price that is no number. -/
theorem evaluateOrder_isSome {newOrder : OrderBuilder F}
    (hprice : (F64.fromStr newOrder.price : Option F).isSome) (orders : List (Order F))
    (inventory averageEntryPrice : F) :
    (evaluateOrder orders newOrder inventory averageEntryPrice).isSome := by
  obtain ⟨newOrderPrice, hprice⟩ := Option.isSome_iff_exists.mp hprice
  unfold evaluateOrder
  rw [hprice, Option.bind_some]
  split_ifs
  · rfl
  · rfl
  · cases getExistingOrder orders newOrder.side with
    | none => rfl
    | some existingOrder =>
      simp only
      split_ifs <;> rfl

/-- Nothing can be sent for a side now: a limit blocks it, or its open order is not answered yet. -/
def Held (orders : List (Order F)) (side : OrderSide) (inventory : F) : Prop :=
  (inventory ≥ maxInventory ∧ side = .buy) ∨ (inventory ≤ minInventory ∧ side = .sell) ∨
    ∃ existingOrder, getExistingOrder orders side = some existingOrder ∧
      existingOrder.orderStatus = .submitted

theorem evaluateOrder_of_held {orders : List (Order F)} {newOrder : OrderBuilder F} {inventory : F}
    (hheld : Held orders newOrder.side inventory)
    (hprice : (F64.fromStr newOrder.price : Option F).isSome) (averageEntryPrice : F) :
    evaluateOrder orders newOrder inventory averageEntryPrice = some .doNothing := by
  obtain ⟨newOrderPrice, hprice⟩ := Option.isSome_iff_exists.mp hprice
  unfold evaluateOrder
  rw [hprice, Option.bind_some]
  split_ifs with hmax hmin
  · rfl
  · rfl
  · obtain hblocked | hblocked | ⟨existingOrder, hexisting, hsubmitted⟩ := hheld
    · exact absurd hblocked hmax
    · exact absurd hblocked hmin
    · simp only [hexisting, hsubmitted, if_true]

/-! ## Exact prices -/

section Exact

variable {orders : List (Order ℚ)} {newOrder : OrderBuilder ℚ} {price inventory : ℚ}

/-- The first open order on the side of a wanted order stands at its price and quantity. -/
def Quoted (orders : List (Order ℚ)) (newOrder : OrderBuilder ℚ) (price : ℚ) : Prop :=
  ∃ existingOrder, getExistingOrder orders newOrder.side = some existingOrder ∧
    existingOrder.price = price ∧ existingOrder.qty = newOrder.qty

theorem evaluateOrder_of_quoted (hprice : F64.fromStr newOrder.price = some price)
    (hquoted : Quoted orders newOrder price) (inventory averageEntryPrice : ℚ) :
    evaluateOrder orders newOrder inventory averageEntryPrice = some .doNothing := by
  obtain ⟨existingOrder, hexisting, rfl, hqty⟩ := hquoted
  unfold evaluateOrder
  rw [hprice, Option.bind_some, hexisting]
  simp [amendment, hqty]

/-- What is decided for an order that is not held back. -/
theorem evaluateOrder_of_not_held (hheld : ¬Held orders newOrder.side inventory)
    (hprice : F64.fromStr newOrder.price = some price) (averageEntryPrice : ℚ) :
    (getExistingOrder orders newOrder.side = none ∧
      evaluateOrder orders newOrder inventory averageEntryPrice = some (.newOrder newOrder)) ∨
    (Quoted orders newOrder price ∧
      evaluateOrder orders newOrder inventory averageEntryPrice = some .doNothing) ∨
    ∃ existingOrder, getExistingOrder orders newOrder.side = some existingOrder ∧
      evaluateOrder orders newOrder inventory averageEntryPrice =
        some (.amendOrder (amendment newOrder price existingOrder)) := by
  by_cases hquoted : Quoted orders newOrder price
  · exact .inr (.inl ⟨hquoted, evaluateOrder_of_quoted hprice hquoted inventory averageEntryPrice⟩)
  rw [Held, not_or, not_or] at hheld
  obtain ⟨hmax, hmin, hanswered⟩ := hheld
  unfold evaluateOrder
  rw [if_neg hmax, if_neg hmin, hprice, Option.bind_some]
  cases hexisting : getExistingOrder orders newOrder.side with
  | none => exact .inl ⟨rfl, rfl⟩
  | some existingOrder =>
    have hsubmitted : existingOrder.orderStatus ≠ .submitted :=
      fun hsubmitted ↦ hanswered ⟨existingOrder, hexisting, hsubmitted⟩
    have hchanged : ¬(!(amendment newOrder price existingOrder).newPrice &&
        !(amendment newOrder price existingOrder).newQty) := by
      intro hsame
      simp only [amendment, Bool.and_eq_true, Bool.not_eq_true', bne_eq_false_iff_eq] at hsame
      exact hquoted ⟨existingOrder, hexisting, hsame.1.symm, hsame.2.symm⟩
    refine .inr (.inr ⟨existingOrder, rfl, ?_⟩)
    simp only [hsubmitted, if_false, hchanged]
    rfl

/-- The fields that an amendment changes. -/
theorem amendment_newPrice_iff (newOrder : OrderBuilder ℚ) (price : ℚ) (existingOrder : Order ℚ) :
    (amendment newOrder price existingOrder).newPrice = true ↔ price ≠ existingOrder.price := by
  simp [amendment]

theorem amendment_newQty_iff (newOrder : OrderBuilder ℚ) (price : ℚ) (existingOrder : Order ℚ) :
    (amendment newOrder price existingOrder).newQty = true ↔
      newOrder.qty ≠ existingOrder.qty := by
  simp [amendment]

end Exact

end RiskManager

end MarketMaker
