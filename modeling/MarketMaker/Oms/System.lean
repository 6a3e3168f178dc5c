import MarketMaker.Foundation.Machine
import MarketMaker.Oms.Metrics
import MarketMaker.Oms.Risk
import Mathlib.Data.Finmap
import Mathlib.Data.Finset.Insert

/-!
# The order management system

One state owned by one thread: the stored orders, the index from link ids to slab keys, the link
id generator, the metrics and the executions already counted.  Its loop takes either a wanted
order from the strategy or an event from the exchange side; a step returns the next state and the
calls it makes on the gateway and on the inventory queue, in order.

`Transition` lists what a step can do, one constructor for each way of changing the state; the
invariants of the development are proved by cases on it and never unfold the handlers.
-/

namespace MarketMaker

variable {F : Type}

structure OmsConfig (F : Type) where
  coin : String
  inventory : F
  avgEntryPrice : F
  initialOrderLinkId : UInt64

/-- The calls of the order management system on the outside. -/
inductive Effect (F : Type)
  | submitOrder (order : OrderBuilder F) (orderLinkId : UInt64)
  | amendOrder (order : OrderAmendedBuilder F)
  | repayLiability (coin : String)
  | forcePush (inventory : F)
  deriving DecidableEq

/-- The inputs of the main loop.  The production loop passes the risk manager as policy on every
call. -/
inductive OmsInput (F : Type)
  | forward (riskPolicy : RiskPolicy F) (orderBuilder : OrderBuilder F)
  | event (event : OrderEvent F)

structure OrderManagementSystem (F : Type) where
  /-- The slab; the key of an entry is its position. -/
  orders : List (Order F)
  metrics : Metrics F
  coin : String
  idMap : Finmap fun _ : UInt64 ↦ ℕ
  idGenerator : UInt64
  processedExecutions : Finset (UInt64 × String)

namespace OrderManagementSystem

/-- The initial state and the inventory pushed for the strategy on construction. -/
def new (config : OmsConfig F) : OrderManagementSystem F × List (Effect F) :=
  ({ orders := []
     metrics := Metrics.new config.inventory config.avgEntryPrice
     coin := config.coin
     idMap := ∅
     idGenerator := config.initialOrderLinkId
     processedExecutions := ∅ },
   [.forcePush config.inventory])

def inventory (oms : OrderManagementSystem F) : F := oms.metrics.inventory

def averageEntryPrice (oms : OrderManagementSystem F) : F := oms.metrics.averageEntryPrice

def order (oms : OrderManagementSystem F) (orderLinkId : UInt64) : Option (Order F) :=
  (oms.idMap.lookup orderLinkId).bind fun slabIndex ↦ oms.orders[slabIndex]?

def openOrders (oms : OrderManagementSystem F) : List (Order F) :=
  oms.orders.filter fun order ↦ order.orderStatus.isOpen

/-- Store a built order at the next slab key under the generated link id. -/
def store (oms : OrderManagementSystem F) (stored : Order F) : OrderManagementSystem F :=
  { oms with
    idGenerator := oms.idGenerator + 1
    orders := oms.orders ++ [stored]
    idMap := oms.idMap.insert oms.idGenerator oms.orders.length }

/-- Write through a mutable reference to a slab entry. -/
def setOrder (oms : OrderManagementSystem F) (slabId : ℕ) (changed : Order F) :
    OrderManagementSystem F :=
  { oms with orders := oms.orders.set slabId changed }

def handleOrderUpdate (oms : OrderManagementSystem F) (order : OrderUpdate F) :
    OrderManagementSystem F :=
  match oms.idMap.lookup order.orderLinkId with
  | none => oms
  | some slabId =>
    match oms.orders[slabId]? with
    | none => oms
    | some oldOrder =>
      if order.updatedTime < oldOrder.updatedTime then oms
      else oms.setOrder slabId (oldOrder.copyUpdate order)

/-- The update concerns a stored order and is not older than its stored state. -/
def AcceptsUpdate (oms : OrderManagementSystem F) (order : OrderUpdate F) (slabId : ℕ)
    (oldOrder : Order F) : Prop :=
  oms.idMap.lookup order.orderLinkId = some slabId ∧ oms.orders[slabId]? = some oldOrder ∧
    ¬order.updatedTime < oldOrder.updatedTime

theorem handleOrderUpdate_cases (oms : OrderManagementSystem F) (order : OrderUpdate F) :
    (∃ slabId oldOrder, oms.AcceptsUpdate order slabId oldOrder ∧
      oms.handleOrderUpdate order = oms.setOrder slabId (oldOrder.copyUpdate order)) ∨
    ((¬∃ slabId oldOrder, oms.AcceptsUpdate order slabId oldOrder) ∧
      oms.handleOrderUpdate order = oms) := by
  unfold handleOrderUpdate AcceptsUpdate
  cases hlookup : oms.idMap.lookup order.orderLinkId with
  | none => exact .inr ⟨by simp, rfl⟩
  | some slabId =>
    cases hslab : oms.orders[slabId]? with
    | none => exact .inr ⟨by simp [hslab], by simp [hslab]⟩
    | some oldOrder =>
      by_cases hstale : order.updatedTime < oldOrder.updatedTime
      · exact .inr ⟨by simp [hslab, hstale], by simp [hslab, hstale]⟩
      · exact .inl ⟨slabId, oldOrder, ⟨rfl, hslab, hstale⟩, by simp [hslab, hstale]⟩

/-- Whether the execution was not registered before, and the state with it registered. -/
def registerExecution (oms : OrderManagementSystem F) (orderLinkId : UInt64) (execId : String) :
    Bool × OrderManagementSystem F :=
  (decide ((orderLinkId, execId) ∉ oms.processedExecutions),
   { oms with processedExecutions := insert (orderLinkId, execId) oms.processedExecutions })

def handleSubmissionFailure (oms : OrderManagementSystem F) (orderLinkId : UInt64) :
    OrderManagementSystem F :=
  match oms.idMap.lookup orderLinkId with
  | none => oms
  | some slabId =>
    match oms.orders[slabId]? with
    | none => oms
    | some oldOrder =>
      if oldOrder.orderStatus ≠ .submitted then oms
      else oms.setOrder slabId { oldOrder with orderStatus := .rejected }

/-- The failure concerns a stored order that no answer has reached yet. -/
def AcceptsFailure (oms : OrderManagementSystem F) (orderLinkId : UInt64) (slabId : ℕ)
    (oldOrder : Order F) : Prop :=
  oms.idMap.lookup orderLinkId = some slabId ∧ oms.orders[slabId]? = some oldOrder ∧
    oldOrder.orderStatus = .submitted

theorem handleSubmissionFailure_cases (oms : OrderManagementSystem F) (orderLinkId : UInt64) :
    (∃ slabId oldOrder, oms.AcceptsFailure orderLinkId slabId oldOrder ∧
      oms.handleSubmissionFailure orderLinkId =
        oms.setOrder slabId { oldOrder with orderStatus := .rejected }) ∨
    ((¬∃ slabId oldOrder, oms.AcceptsFailure orderLinkId slabId oldOrder) ∧
      oms.handleSubmissionFailure orderLinkId = oms) := by
  unfold handleSubmissionFailure AcceptsFailure
  cases hlookup : oms.idMap.lookup orderLinkId with
  | none => exact .inr ⟨by simp, rfl⟩
  | some slabId =>
    cases hslab : oms.orders[slabId]? with
    | none => exact .inr ⟨by simp [hslab], by simp [hslab]⟩
    | some oldOrder =>
      by_cases hstatus : oldOrder.orderStatus = .submitted
      · exact .inl ⟨slabId, oldOrder, ⟨rfl, hslab, hstatus⟩, by simp [hslab, hstatus]⟩
      · exact .inr ⟨by simp [hslab, hstatus], by simp [hslab, hstatus]⟩

variable [F64 F] [Add F] [Sub F] [Mul F] [Div F] [LT F] [DecidableLT F] [BEq F] [OfScientific F]

/-- Generate a link id and store the order under it. -/
def insertNewOrder (oms : OrderManagementSystem F) (order : OrderBuilder F) :
    Option (OrderManagementSystem F × UInt64) :=
  let nextOrderLinkId := oms.idGenerator
  (order.build nextOrderLinkId).map fun stored ↦ (oms.store stored, nextOrderLinkId)

def forwardOrders (oms : OrderManagementSystem F) (orderBuilder : OrderBuilder F)
    (riskPolicy : RiskPolicy F) : Option (OrderManagementSystem F × List (Effect F)) :=
  (riskPolicy oms.orders orderBuilder oms.metrics.inventory oms.metrics.averageEntryPrice).bind
    fun
    | .newOrder order => (oms.insertNewOrder order).map fun inserted ↦
        (inserted.1, [.submitOrder order inserted.2])
    | .amendOrder order => some (oms, [.amendOrder order])
    | .doNothing => some (oms, [])

/-- The calls made for a counted execution: a repayment when it takes the inventory from negative
to positive sign, then the new inventory. -/
def settlement (coin : String) (metrics : Metrics F) (order : OrderExecution F) :
    List (Effect F) :=
  (if F64.isSignNegative metrics.inventory && F64.isSignPositive (metrics.execute order).inventory
    then [.repayLiability coin] else []) ++ [.forcePush (metrics.execute order).inventory]

def handleExecutionUpdate (oms : OrderManagementSystem F) (order : OrderExecution F) :
    OrderManagementSystem F × List (Effect F) :=
  if order.execId = "" then (oms, [])
  else
    match oms.idMap.lookup order.orderLinkId with
    | none => (oms, [])
    | some slabId =>
      if ¬slabId < oms.orders.length then (oms, [])
      else
        let (registered, registeredOms) := oms.registerExecution order.orderLinkId order.execId
        if !registered then (oms, [])
        else
          ({ registeredOms with metrics := oms.metrics.execute order },
           settlement oms.coin oms.metrics order)

def orderResponse (oms : OrderManagementSystem F) :
    OrderEvent F → OrderManagementSystem F × List (Effect F)
  | .orderUpdate order => (oms.handleOrderUpdate order, [])
  | .executionUpdate order => oms.handleExecutionUpdate order
  | .submissionFailed orderLinkId => (oms.handleSubmissionFailure orderLinkId, [])

def step (oms : OrderManagementSystem F) :
    OmsInput F → Option (OrderManagementSystem F × List (Effect F))
  | .forward riskPolicy orderBuilder => oms.forwardOrders orderBuilder riskPolicy
  | .event event => some (oms.orderResponse event)

/-- The loop over a list of inputs, with the calls of each turn. -/
abbrev cycle (oms : OrderManagementSystem F) (inputs : List (OmsInput F)) :
    Option (OrderManagementSystem F × List (List (Effect F))) :=
  Machine.run step oms inputs

/-! ## What a step can do -/

/-- The execution is identified, belongs to a stored order and was not counted before. -/
def AcceptsExecution (oms : OrderManagementSystem F) (order : OrderExecution F) : Prop :=
  order.execId ≠ "" ∧
    (∃ slabId, oms.idMap.lookup order.orderLinkId = some slabId ∧ slabId < oms.orders.length) ∧
    (order.orderLinkId, order.execId) ∉ oms.processedExecutions

def account (oms : OrderManagementSystem F) (order : OrderExecution F) :
    OrderManagementSystem F :=
  { oms with
    processedExecutions := insert (order.orderLinkId, order.execId) oms.processedExecutions
    metrics := oms.metrics.execute order }

def AcceptsEvent (oms : OrderManagementSystem F) : OrderEvent F → Prop
  | .orderUpdate order => ∃ slabId oldOrder, oms.AcceptsUpdate order slabId oldOrder
  | .executionUpdate order => oms.AcceptsExecution order
  | .submissionFailed orderLinkId =>
      ∃ slabId oldOrder, oms.AcceptsFailure orderLinkId slabId oldOrder

inductive Transition (oms : OrderManagementSystem F) :
    OmsInput F → OrderManagementSystem F → List (Effect F) → Prop
  | submit {riskPolicy orderBuilder order stored}
      (hpolicy : riskPolicy oms.orders orderBuilder oms.metrics.inventory
        oms.metrics.averageEntryPrice = some (.newOrder order))
      (hbuild : order.build oms.idGenerator = some stored) :
      Transition oms (.forward riskPolicy orderBuilder) (oms.store stored)
        [.submitOrder order oms.idGenerator]
  | amend {riskPolicy orderBuilder order}
      (hpolicy : riskPolicy oms.orders orderBuilder oms.metrics.inventory
        oms.metrics.averageEntryPrice = some (.amendOrder order)) :
      Transition oms (.forward riskPolicy orderBuilder) oms [.amendOrder order]
  | hold {riskPolicy orderBuilder}
      (hpolicy : riskPolicy oms.orders orderBuilder oms.metrics.inventory
        oms.metrics.averageEntryPrice = some .doNothing) :
      Transition oms (.forward riskPolicy orderBuilder) oms []
  | update {order slabId oldOrder} (haccept : oms.AcceptsUpdate order slabId oldOrder) :
      Transition oms (.event (.orderUpdate order))
        (oms.setOrder slabId (oldOrder.copyUpdate order)) []
  | execution {order} (haccept : oms.AcceptsExecution order) :
      Transition oms (.event (.executionUpdate order)) (oms.account order)
        (settlement oms.coin oms.metrics order)
  | failure {orderLinkId slabId oldOrder}
      (haccept : oms.AcceptsFailure orderLinkId slabId oldOrder) :
      Transition oms (.event (.submissionFailed orderLinkId))
        (oms.setOrder slabId { oldOrder with orderStatus := .rejected }) []
  | discard {event} (hdiscard : ¬oms.AcceptsEvent event) : Transition oms (.event event) oms []

theorem handleExecutionUpdate_cases (oms : OrderManagementSystem F) (order : OrderExecution F) :
    (oms.AcceptsExecution order ∧ oms.handleExecutionUpdate order =
      (oms.account order, settlement oms.coin oms.metrics order)) ∨
    (¬oms.AcceptsExecution order ∧ oms.handleExecutionUpdate order = (oms, [])) := by
  unfold handleExecutionUpdate AcceptsExecution
  by_cases hempty : order.execId = ""
  · exact .inr ⟨by simp [hempty], by simp [hempty]⟩
  cases hlookup : oms.idMap.lookup order.orderLinkId with
  | none => exact .inr ⟨by simp, by simp [hempty]⟩
  | some slabId =>
    by_cases hslab : slabId < oms.orders.length
    · by_cases hseen : (order.orderLinkId, order.execId) ∈ oms.processedExecutions
      · exact .inr ⟨by simp [hseen], by simp [hempty, hslab, registerExecution, hseen]⟩
      · refine .inl ⟨⟨hempty, ⟨slabId, rfl, hslab⟩, hseen⟩, ?_⟩
        simp [hempty, hslab, registerExecution, hseen, account]
    · exact .inr ⟨by simp [hslab], by simp [hempty, hslab]⟩

/-- Every step is one of the transitions. -/
theorem transition_of_step {oms next : OrderManagementSystem F} {input : OmsInput F}
    {effects : List (Effect F)} (hstep : oms.step input = some (next, effects)) :
    oms.Transition input next effects := by
  cases input with
  | forward riskPolicy orderBuilder =>
    obtain ⟨outcome, hpolicy, houtcome⟩ := Option.bind_eq_some_iff.mp hstep
    cases outcome with
    | newOrder order =>
      simp only [insertNewOrder, Option.map_map, Option.map_eq_some_iff] at houtcome
      obtain ⟨stored, hbuild, heq⟩ := houtcome
      obtain ⟨rfl, rfl⟩ := Prod.mk.inj heq
      exact .submit hpolicy hbuild
    | amendOrder order =>
      obtain ⟨rfl, rfl⟩ := Prod.mk.inj (Option.some.inj houtcome)
      exact .amend hpolicy
    | doNothing =>
      obtain ⟨rfl, rfl⟩ := Prod.mk.inj (Option.some.inj houtcome)
      exact .hold hpolicy
  | event event =>
    simp only [step, Option.some.injEq] at hstep
    cases event with
    | orderUpdate order =>
      obtain ⟨rfl, rfl⟩ := Prod.mk.inj hstep
      obtain ⟨slabId, oldOrder, haccept, heq⟩ | ⟨hdiscard, heq⟩ :=
        oms.handleOrderUpdate_cases order <;> rw [heq]
      · exact .update haccept
      · exact .discard hdiscard
    | executionUpdate order =>
      obtain ⟨haccept, heq⟩ | ⟨hdiscard, heq⟩ := oms.handleExecutionUpdate_cases order <;>
        obtain ⟨rfl, rfl⟩ := Prod.mk.inj (heq.symm.trans hstep)
      · exact .execution haccept
      · exact .discard hdiscard
    | submissionFailed orderLinkId =>
      obtain ⟨rfl, rfl⟩ := Prod.mk.inj hstep
      obtain ⟨slabId, oldOrder, haccept, heq⟩ | ⟨hdiscard, heq⟩ :=
        oms.handleSubmissionFailure_cases orderLinkId <;> rw [heq]
      · exact .failure haccept
      · exact .discard hdiscard

end OrderManagementSystem

/-! ## A sample configuration -/

def sampleConfig : OmsConfig ℚ :=
  { coin := "ADA", inventory := 0, avgEntryPrice := 0, initialOrderLinkId := 90 }

end MarketMaker
