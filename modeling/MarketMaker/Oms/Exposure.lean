import MarketMaker.Oms.Executions
import MarketMaker.Oms.Sides
import Mathlib.Algebra.Order.BigOperators.Group.List

/-!
# Exposure under interleaved topics

The risk manager checks the current inventory before it lets an order through, so one order per
side may run past a limit.  The bound that follows, limit plus one order quantity, needs the fills
of earlier orders to be counted by the time a new order is submitted.  The order topic and the
execution topic are separate streams: when a closing status overtakes the fills it stands for, the
side looks free at an inventory that is about to move, and the bound fails.
-/

namespace MarketMaker

/-- The inventory as seen from a side: what executions on that side increase. -/
def exposure : OrderSide → ℚ → ℚ
  | .buy, inventory => inventory
  | .sell, inventory => -inventory

def filledOf (id : UInt64) (executions : List (OrderExecution ℚ)) : ℚ :=
  ((executions.filter fun order ↦ order.orderLinkId = id).map OrderExecution.execQty).sum

theorem filledOf_append_singleton (id : UInt64) (executions : List (OrderExecution ℚ))
    (order : OrderExecution ℚ) :
    filledOf id (executions ++ [order]) =
      filledOf id executions + if order.orderLinkId = id then order.execQty else 0 := by
  by_cases hid : order.orderLinkId = id <;> simp [filledOf, List.filter_append, hid]

theorem filledOf_nonneg {id : UInt64} {executions : List (OrderExecution ℚ)}
    (hqty : ∀ order ∈ executions, 0 ≤ order.execQty) : 0 ≤ filledOf id executions := by
  apply List.sum_nonneg
  intro qty hmem
  obtain ⟨order, horder, rfl⟩ := List.mem_map.mp hmem
  exact hqty order (List.mem_of_mem_filter horder)

/-- Distinct executions out of a list fill no more than the list does. -/
theorem filledOf_le_of_nodup {executions known : List (OrderExecution ℚ)}
    (hnodup : executions.Nodup) (hsubset : executions ⊆ known)
    (hqty : ∀ order ∈ known, 0 ≤ order.execQty) (id : UInt64) :
    filledOf id executions ≤ filledOf id known := by
  obtain ⟨sub, hperm, hsub⟩ := hnodup.subperm hsubset
  have hsame : filledOf id executions = filledOf id sub :=
    ((hperm.filter _).map _).sum_eq.symm
  rw [hsame]
  apply ((hsub.filter _).map _).sum_le_sum
  intro qty hmem
  obtain ⟨order, horder, rfl⟩ := List.mem_map.mp hmem
  exact hqty order (List.mem_of_mem_filter horder)

/-- The fills an exchange may report for orders of one quantity: they are on the side of the
submitted order, the fee is a part of the executed quantity, and the distinct executions of an order
do not exceed its quantity. -/
structure ExchangeFills (quantity : ℚ) (inputs : List (OmsInput ℚ))
    (outputs : List (List (Effect ℚ))) : Prop where
  side : ∀ submitted id, .submitOrder submitted id ∈ outputs.flatten →
    ∀ order, .event (.executionUpdate order) ∈ inputs → order.orderLinkId = id →
      order.orderSide = submitted.side
  fee_nonneg : ∀ order, .event (.executionUpdate order) ∈ inputs → 0 ≤ order.execFee
  fee_le : ∀ order, .event (.executionUpdate order) ∈ inputs → order.execFee ≤ order.execQty
  total : ∀ executions : List (OrderExecution ℚ),
    (∀ order ∈ executions, .event (.executionUpdate order) ∈ inputs) →
    (executions.map OrderExecution.key).Nodup → ∀ id, filledOf id executions ≤ quantity

theorem ExchangeFills.qty_nonneg {quantity : ℚ} {inputs : List (OmsInput ℚ)}
    {outputs : List (List (Effect ℚ))} (hfills : ExchangeFills quantity inputs outputs)
    {order : OrderExecution ℚ}
    (hmem : .event (.executionUpdate order) ∈ inputs) : 0 ≤ order.execQty :=
  (hfills.fee_nonneg order hmem).trans (hfills.fee_le order hmem)

/-- An execution moves the exposure by at most its quantity, and upwards only on its own side. -/
theorem exposure_execute_le (metrics : Metrics ℚ) {order : OrderExecution ℚ}
    (hnonneg : 0 ≤ order.execFee) (hle : order.execFee ≤ order.execQty) (side : OrderSide) :
    exposure side (metrics.execute order).inventory ≤
      exposure side metrics.inventory + if order.orderSide = side then order.execQty else 0 := by
  cases hside : order.orderSide with
  | buy =>
    rw [Metrics.execute_buy hside]
    cases side <;> simp [exposure] <;> linarith
  | sell =>
    rw [Metrics.execute_sell hside]
    cases side <;> simp [exposure]
    linarith

def Effect.submission {F : Type} : Effect F → Option (OrderBuilder F)
  | .submitOrder order _ => some order
  | _ => none

namespace OrderManagementSystem

/-- The execution topic, in order of arrival. -/
def executionTopic (inputs : List (OmsInput ℚ)) : List (OrderExecution ℚ) :=
  inputs.filterMap fun
    | .event (.executionUpdate order) => some order
    | _ => none

theorem mem_executionTopic {inputs : List (OmsInput ℚ)} {order : OrderExecution ℚ} :
    order ∈ executionTopic inputs ↔ .event (.executionUpdate order) ∈ inputs := by
  constructor
  · intro hmem
    obtain ⟨input, hinput, hexecution⟩ := List.mem_filterMap.mp hmem
    split at hexecution
    · obtain rfl := Option.some.inj hexecution
      exact hinput
    · cases hexecution
  · intro hmem
    exact List.mem_filterMap.mpr ⟨_, hmem, rfl⟩

/-- Every execution of the order still to come is a copy of a counted one. -/
def NothingOutstanding (oms : OrderManagementSystem ℚ) (id : UInt64)
    (rest : List (OmsInput ℚ)) : Prop :=
  ∀ order, .event (.executionUpdate order) ∈ rest → order.execId ≠ "" → order.orderLinkId = id →
    order.key ∈ oms.processedExecutions

/-- An order is submitted only when nothing is outstanding for the orders stored on its side. -/
def FillsBeforeSubmission (oms : OrderManagementSystem ℚ) (input : OmsInput ℚ)
    (rest : List (OmsInput ℚ)) : Prop :=
  ∀ next effects order id, oms.step input = some (next, effects) →
    .submitOrder order id ∈ effects → ∀ stored ∈ oms.orders, stored.side = order.side →
    oms.NothingOutstanding stored.orderLinkId rest

theorem nothingOutstanding_iff {oms : OrderManagementSystem ℚ} {id : UInt64}
    {rest : List (OmsInput ℚ)} :
    oms.NothingOutstanding id rest ↔ ∀ order ∈ executionTopic rest,
      order.execId ≠ "" → order.orderLinkId = id → order.key ∈ oms.processedExecutions := by
  simp only [mem_executionTopic, NothingOutstanding]

instance (oms : OrderManagementSystem ℚ) (id : UInt64) (rest : List (OmsInput ℚ)) :
    Decidable (oms.NothingOutstanding id rest) := decidable_of_iff' _ nothingOutstanding_iff

theorem fillsBeforeSubmission_iff {oms : OrderManagementSystem ℚ} {input : OmsInput ℚ}
    {rest : List (OmsInput ℚ)} :
    oms.FillsBeforeSubmission input rest ↔ ∀ result ∈ oms.step input,
      ∀ submission ∈ result.2.filterMap Effect.submission, ∀ stored ∈ oms.orders,
        stored.side = submission.side → oms.NothingOutstanding stored.orderLinkId rest := by
  constructor
  · intro hall result hstep submission hmem
    obtain ⟨effect, heffect, hsubmission⟩ := List.mem_filterMap.mp hmem
    cases effect with
    | submitOrder order id =>
      obtain rfl := Option.some.inj hsubmission
      exact hall result.1 result.2 order id hstep heffect
    | _ => cases hsubmission
  · intro hall next effects order id hstep hmem
    exact hall (next, effects) hstep order (List.mem_filterMap.mpr ⟨_, hmem, rfl⟩)

instance (oms : OrderManagementSystem ℚ) (input : OmsInput ℚ) (rest : List (OmsInput ℚ)) :
    Decidable (oms.FillsBeforeSubmission input rest) :=
  decidable_of_iff' _ fillsBeforeSubmission_iff

/-- The invariant of one side: before its first order the initial bound holds, and afterwards all
that was executed above the limit belongs to one order, the last submitted one. -/
def Covered (quantity : ℚ) (side : OrderSide) (accepted : List (OrderExecution ℚ))
    (oms : OrderManagementSystem ℚ) (rest : List (OmsInput ℚ)) : Prop :=
  (∀ stored ∈ oms.orders, stored.side ≠ side) ∧ exposure side oms.inventory < 500 + quantity ∨
    ∃ id, exposure side oms.inventory < 500 + filledOf id accepted ∧
      ∀ stored ∈ oms.orders, stored.side = side → stored.orderLinkId ≠ id →
        oms.NothingOutstanding stored.orderLinkId rest

variable {config : OmsConfig ℚ} {quantity : ℚ} {side : OrderSide}
  {oms next : OrderManagementSystem ℚ} {input : OmsInput ℚ} {inputs rest : List (OmsInput ℚ)}
  {effects : List (Effect ℚ)} {accepted : List (OrderExecution ℚ)} {ledger : Ledger ℚ}

theorem NothingOutstanding.mono {id : UInt64}
    (houtstanding : oms.NothingOutstanding id (input :: rest))
    (hprocessed : oms.processedExecutions ⊆ next.processedExecutions) :
    next.NothingOutstanding id rest := by
  intro order hmem hexecId hid
  exact hprocessed (houtstanding order (List.mem_cons_of_mem _ hmem) hexecId hid)

/-- A transition that moves no inventory and adds no order on the side keeps the invariant. -/
theorem Covered.mono (hcovered : oms.Covered quantity side accepted (input :: rest))
    (hinventory : next.inventory = oms.inventory)
    (hprocessed : oms.processedExecutions ⊆ next.processedExecutions)
    (horders : ∀ stored ∈ next.orders, stored.side = side →
      ∃ before ∈ oms.orders, before.side = side ∧ before.orderLinkId = stored.orderLinkId) :
    next.Covered quantity side accepted rest := by
  rw [Covered, hinventory]
  obtain ⟨hnone, hbound⟩ | ⟨id, hbound, hsettled⟩ := hcovered
  · refine .inl ⟨fun stored hmem hside ↦ ?_, hbound⟩
    obtain ⟨before, hbefore, hbeforeSide, -⟩ := horders stored hmem hside
    exact hnone before hbefore hbeforeSide
  · refine .inr ⟨id, hbound, fun stored hmem hside hne ↦ ?_⟩
    obtain ⟨before, hbefore, hbeforeSide, hid⟩ := horders stored hmem hside
    rw [← hid] at hne ⊢
    exact (hsettled before hbefore hbeforeSide hne).mono hprocessed

theorem exists_before_setOrder {slabId : ℕ} {oldOrder changed : Order ℚ}
    (hold : oms.orders[slabId]? = some oldOrder) (hsame : changed.identity = oldOrder.identity)
    {stored : Order ℚ} (hmem : stored ∈ (oms.setOrder slabId changed).orders) :
    ∃ before ∈ oms.orders, before.side = stored.side ∧
      before.orderLinkId = stored.orderLinkId := by
  simp only [Order.identity, Prod.mk.injEq] at hsame
  rcases List.mem_or_eq_of_mem_set hmem with hmem | rfl
  · exact ⟨stored, hmem, rfl, rfl⟩
  · exact ⟨oldOrder, List.mem_of_getElem? hold, hsame.2.2.1.symm, hsame.1.symm⟩

/-- A submission below the limit, with nothing outstanding on its side, starts a new cover. -/
theorem Covered.submit (hcovered : oms.Covered quantity side accepted (input :: rest))
    (hqty : ∀ execution ∈ accepted, 0 ≤ execution.execQty) {order : OrderBuilder ℚ}
    {stored : Order ℚ} (hbuild : order.build oms.idGenerator = some stored)
    (hlimit : exposure order.side oms.inventory < 500)
    (hsettled : ∀ stored ∈ oms.orders, stored.side = order.side →
      oms.NothingOutstanding stored.orderLinkId rest) :
    (oms.store stored).Covered quantity side accepted rest := by
  obtain ⟨hid, -, -, hside, -⟩ := OrderBuilder.build_eq_some hbuild
  by_cases heq : order.side = side
  · subst heq
    refine .inr ⟨oms.idGenerator, ?_, fun other hmem hother hne ↦ ?_⟩
    · have hfilled : 0 ≤ filledOf oms.idGenerator accepted := filledOf_nonneg hqty
      change exposure order.side oms.inventory < _
      linarith
    · rcases List.mem_append.mp hmem with hmem | hmem
      · exact hsettled other hmem hother
      · exact absurd (List.mem_singleton.mp hmem ▸ hid) hne
  · refine hcovered.mono rfl (Finset.Subset.refl _) fun other hmem hother ↦ ?_
    rcases List.mem_append.mp hmem with hmem | hmem
    · exact ⟨other, hmem, hother, rfl⟩
    · exact absurd ((List.mem_singleton.mp hmem ▸ hside).symm.trans hother) heq

/-- A counted execution belongs to the covering order or moves the exposure down. -/
theorem Covered.account {order : OrderExecution ℚ}
    (hcovered : oms.Covered quantity side accepted (.event (.executionUpdate order) :: rest))
    (hindexed : oms.Indexed config.initialOrderLinkId) (haccept : oms.AcceptsExecution order)
    (hnonneg : 0 ≤ order.execFee) (hle : order.execFee ≤ order.execQty)
    (hside : ∀ stored ∈ oms.orders, stored.orderLinkId = order.orderLinkId →
      order.orderSide = stored.side) :
    (oms.account order).Covered quantity side (accepted ++ [order]) rest := by
  obtain ⟨hexecId, ⟨slabId, hlookup, -⟩, hnew⟩ := haccept
  obtain ⟨stored, hstored, hid⟩ := hindexed.exists_order hlookup
  have hmem := List.mem_of_getElem? hstored
  have hmove := exposure_execute_le oms.metrics hnonneg hle side
  rw [hside stored hmem hid] at hmove
  change exposure side (oms.account order).inventory ≤ exposure side oms.inventory + _ at hmove
  obtain ⟨hnone, hbound⟩ | ⟨id, hbound, hsettled⟩ := hcovered
  · rw [if_neg (hnone stored hmem)] at hmove
    exact .inl ⟨hnone, by linarith⟩
  · refine .inr ⟨id, ?_, fun other hother hotherSide hne ↦
      (hsettled other hother hotherSide hne).mono (Finset.subset_insert _ _)⟩
    rw [filledOf_append_singleton]
    by_cases hcover : order.orderLinkId = id
    · rw [if_pos hcover]
      split_ifs at hmove <;> linarith
    · have hdown : stored.side ≠ side := by
        intro hstoredSide
        have hcounted := hsettled stored hmem hstoredSide (hid.symm ▸ hcover) order (by simp)
          hexecId hid.symm
        exact hnew hcounted
      rw [if_neg hdown] at hmove
      rw [if_neg hcover]
      linarith

/-- The step lemma of the invariant. -/
theorem Covered.transition (hcovered : oms.Covered quantity side ledger.accepted (input :: rest))
    (hfollows : oms.Follows config ledger) (hindexed : oms.Indexed config.initialOrderLinkId)
    (hpolicy : UnderRiskManager [input]) (hqty : ∀ order ∈ ledger.accepted, 0 ≤ order.execQty)
    (hfee : ∀ order, input = .event (.executionUpdate order) →
      0 ≤ order.execFee ∧ order.execFee ≤ order.execQty)
    (hside : ∀ order, input = .event (.executionUpdate order) → ∀ stored ∈ oms.orders,
      stored.orderLinkId = order.orderLinkId → order.orderSide = stored.side)
    (hwindow : oms.FillsBeforeSubmission input rest)
    (hstep : oms.step input = some (next, effects)) :
    next.Covered quantity side (ledger.record (input, effects)).accepted rest := by
  have htransition := transition_of_step hstep
  have hkept : ∀ {input : OmsInput ℚ}, ledger.accepts input = none →
      (ledger.record (input, effects)).accepted = ledger.accepted :=
    fun hnone ↦ by rw [Ledger.record_of_accepts_none hnone]
  cases id htransition with
  | @submit riskPolicy orderBuilder order stored _ hbuild =>
    obtain ⟨-, -, hmax, hmin⟩ := htransition.submit_riskManager hpolicy (List.mem_singleton_self _)
    rw [hkept rfl]
    apply hcovered.submit hqty hbuild _
      (hwindow _ _ order _ hstep (List.mem_singleton_self _))
    cases horder : order.side with
    | buy =>
      have hhigh : oms.inventory < 500 := by simpa [horder] using hmax
      exact hhigh
    | sell =>
      have hlow : -500 < oms.inventory := by simpa [horder] using hmin
      exact neg_lt.mp hlow
  | amend | hold =>
    rw [hkept rfl]
    exact hcovered.mono rfl (Finset.Subset.refl _) fun stored hmem hside ↦
      ⟨stored, hmem, hside, rfl⟩
  | @discard event hdiscard =>
    rw [hkept]
    · exact hcovered.mono rfl (Finset.Subset.refl _) fun stored hmem hside ↦
        ⟨stored, hmem, hside, rfl⟩
    · cases event with
      | orderUpdate | submissionFailed => rfl
      | executionUpdate => exact hfollows.accepts_eq_none hindexed hdiscard
  | update haccept | failure haccept =>
    rw [hkept rfl]
    refine hcovered.mono rfl (Finset.Subset.refl _) fun stored hmem hside ↦ ?_
    obtain ⟨before, hbefore, hbeforeSide, hid⟩ :=
      exists_before_setOrder haccept.2.1 (by rfl) hmem
    exact ⟨before, hbefore, hbeforeSide.trans hside, hid⟩
  | @execution order haccept =>
    have haccepts := (hfollows.acceptsExecution_iff hindexed).mp haccept
    have hrecord : (ledger.record (.event (.executionUpdate order),
        settlement oms.coin oms.metrics order)).accepted = ledger.accepted ++ [order] := by
      rw [Ledger.record, haccepts, Option.toList_some]
    rw [hrecord]
    obtain ⟨hnonneg, hle⟩ := hfee order rfl
    exact hcovered.account hindexed haccept hnonneg hle (hside order rfl)

/-- Each side stays covered at every point of a run. -/
theorem covered_of_cycle {state : OrderManagementSystem ℚ} {first : List (OmsInput ℚ)}
    {front back : List (List (Effect ℚ))} (hpolicy : UnderRiskManager (first ++ rest))
    (hfills : ExchangeFills quantity (first ++ rest) (front ++ back))
    (hwindow : Machine.Along step FillsBeforeSubmission (new config).1 (first ++ rest))
    (hinitial : exposure side config.inventory < 500 + quantity)
    (hrun : (new config).1.cycle first = some (state, front)) :
    state.Covered quantity side (Ledger.ofRun first front).accepted rest := by
  -- the history is over the inputs so far, the inputs still to come are whatever completes them
  refine Machine.run_history (motive := fun first state front ↦ ∀ rest back,
    UnderRiskManager (first ++ rest) → ExchangeFills quantity (first ++ rest) (front ++ back) →
    Machine.Along step FillsBeforeSubmission (new config).1 (first ++ rest) →
    state.Covered quantity side (Ledger.ofRun first front).accepted rest) ?_ ?_ hrun rest back
    hpolicy hfills hwindow
  · intro rest back _ _ _
    exact .inl ⟨by simp [new], hinitial⟩
  · intro first middle front input next output hfirst ih hstep rest back hpolicy hfills hwindow
    rw [List.append_assoc, List.singleton_append] at hpolicy hfills hwindow
    rw [List.append_assoc, List.singleton_append] at hfills
    rw [Ledger.ofRun_append_singleton (Machine.run_length hfirst)]
    refine (ih (input :: rest) (output :: back) hpolicy hfills hwindow).transition
      (follows_of_cycle hfirst) (indexed_of_cycle hfirst) ?_ ?_ ?_ ?_ (hwindow.at hfirst) hstep
    · exact fun riskPolicy orderBuilder hmem ↦ hpolicy riskPolicy orderBuilder (by simp_all)
    · exact fun order hmem ↦ hfills.qty_nonneg
        (List.mem_append_left _ (Ledger.mem_inputs_of_mem_accepted hmem))
    · rintro order rfl
      exact ⟨hfills.fee_nonneg order (by simp), hfills.fee_le order (by simp)⟩
    · rintro order rfl stored hmem hid
      obtain ⟨submitted, hsubmitted, hside⟩ := exists_submitOrder hfirst hmem
      rw [← hside]
      exact hfills.side submitted _
        (by rw [List.flatten_append]; exact List.mem_append_left _ hsubmitted) order (by simp)
        hid.symm

theorem Covered.exposure_lt (hcovered : oms.Covered quantity side accepted rest)
    (htotal : ∀ id, filledOf id accepted ≤ quantity) :
    exposure side oms.inventory < 500 + quantity := by
  obtain ⟨-, hbound⟩ | ⟨id, hbound, -⟩ := hcovered
  · exact hbound
  · linarith [htotal id]

/-- If no order is submitted while fills of earlier orders on its side are outstanding, the
inventory stays within the limits widened by one order quantity at every point of the run. -/
theorem exposure_bounded {final : OrderManagementSystem ℚ} {outputs : List (List (Effect ℚ))}
    (hpolicy : UnderRiskManager inputs)
    (hwindow : Machine.Along step FillsBeforeSubmission (new config).1 inputs)
    (hrun : (new config).1.cycle inputs = some (final, outputs))
    (hfills : ExchangeFills quantity inputs outputs)
    (hlow : minInventory - quantity < config.inventory)
    (hhigh : config.inventory < maxInventory + quantity) :
    ∀ first rest state front, inputs = first ++ rest →
      (new config).1.cycle first = some (state, front) →
      minInventory - quantity < state.inventory ∧
        state.inventory < maxInventory + quantity := by
  rintro first rest state front rfl hfirst
  obtain ⟨middle, front', back, hfirst', -, rfl⟩ := Machine.run_append_eq_some.mp hrun
  obtain ⟨rfl, rfl⟩ := Prod.mk.inj (Option.some.inj (hfirst.symm.trans hfirst'))
  have htotal : ∀ id, filledOf id (Ledger.ofRun first front).accepted ≤ quantity :=
    hfills.total _ (fun order hmem ↦
      List.mem_append_left _ (Ledger.mem_inputs_of_mem_accepted hmem))
      (Ledger.nodup_accepted first front)
  simp only [maxInventory_rat, minInventory_rat] at hlow hhigh ⊢
  have hside : ∀ side, exposure side config.inventory < 500 + quantity →
      exposure side state.inventory < 500 + quantity :=
    fun side hinitial ↦ (covered_of_cycle hpolicy hfills hwindow hinitial hfirst).exposure_lt htotal
  have hbuy := hside .buy hhigh
  have hsell := hside .sell (by simp only [exposure]; linarith)
  simp only [exposure] at hbuy hsell
  exact ⟨by linarith, hbuy⟩

def secondExecution : OrderExecution ℚ :=
  { sampleExecution with orderLinkId := 91, execId := "exec-2", execTs := 4 }

/-- A second buy is submitted after the first one was reported filled and its fill was counted; then
a copy of this fill and the fill of the second buy arrive. -/
def filledBuys : List (OmsInput ℚ) :=
  [.forward RiskManager.evaluateOrder sampleBuy, .event (.orderUpdate sampleAcknowledgement),
    .event (.orderUpdate sampleFilled), .event (.executionUpdate sampleExecution),
    .forward RiskManager.evaluateOrder sampleBuy, .event (.executionUpdate sampleExecution),
    .event (.executionUpdate secondExecution)]

theorem mem_filledBuys {order : OrderExecution ℚ}
    (hmem : .event (.executionUpdate order) ∈ filledBuys) :
    order = sampleExecution ∨ order = secondExecution := by
  simpa [filledBuys] using hmem

theorem exchangeFills_filledBuys {outputs : List (List (Effect ℚ))}
    (hsubmitted : ∀ submitted id, .submitOrder submitted id ∈ outputs.flatten →
      submitted = sampleBuy) : ExchangeFills 25 filledBuys outputs where
  side submitted id hmem order horder _ := by
    rw [hsubmitted submitted id hmem]
    obtain rfl | rfl := mem_filledBuys horder <;> rfl
  fee_nonneg order horder := by obtain rfl | rfl := mem_filledBuys horder <;> decide +kernel
  fee_le order horder := by obtain rfl | rfl := mem_filledBuys horder <;> decide +kernel
  total executions hmem hnodup id := by
    have hsubset : executions ⊆ [sampleExecution, secondExecution] := by
      intro order horder
      simpa using mem_filledBuys (hmem order horder)
    apply (filledOf_le_of_nodup (hnodup.of_map _) hsubset (by decide +kernel) id).trans
    by_cases hfirst : id = 90
    · subst hfirst
      decide +kernel
    · by_cases hsecond : id = 91
      · subst hsecond
        decide +kernel
      · simp [filledOf, sampleExecution, secondExecution, Ne.symm hfirst, Ne.symm hsecond]

theorem exposure_bounded_sample :
    ∃ final, (new sampleConfig).1.cycle filledBuys =
        some (final, [[.submitOrder sampleBuy 90], [], [], [.forcePush (249 / 10)],
          [.submitOrder sampleBuy 91], [], [.forcePush (249 / 5)]]) ∧
      minInventory - 25 < final.inventory ∧ final.inventory < maxInventory + 25 := by
  have houtputs : ((new sampleConfig).1.cycle filledBuys).map Prod.snd =
      some [[.submitOrder sampleBuy 90], [], [], [.forcePush (249 / 10)],
        [.submitOrder sampleBuy 91], [], [.forcePush (249 / 5)]] := by decide +kernel
  obtain ⟨⟨final, outputs⟩, hrun, rfl⟩ := Option.map_eq_some_iff.mp houtputs
  have hpolicy : UnderRiskManager filledBuys := by
    intro riskPolicy orderBuilder hmem
    simp only [filledBuys, List.mem_cons, OmsInput.forward.injEq, reduceCtorEq, List.not_mem_nil,
      or_false, false_or] at hmem
    exact hmem.elim And.left And.left
  have hwindow : Machine.Along step FillsBeforeSubmission (new sampleConfig).1 filledBuys := by
    decide +kernel
  refine ⟨final, hrun, exposure_bounded hpolicy hwindow hrun (exchangeFills_filledBuys ?_) ?_ ?_ _
    [] final _ (List.append_nil _).symm hrun⟩
  · intro submitted id hmem
    simp only [List.flatten_cons, List.flatten_nil, List.mem_append, List.mem_singleton,
      Effect.submitOrder.injEq, reduceCtorEq, List.not_mem_nil, or_false, false_or] at hmem
    exact hmem.elim And.left And.left
  · norm_num [sampleConfig]
  · norm_num [sampleConfig]

/-! ## When a closing status overtakes its fills -/

/-- The order topic, in order of arrival. -/
def orderTopic (inputs : List (OmsInput ℚ)) : List (OrderUpdate ℚ) :=
  inputs.filterMap fun
    | .event (.orderUpdate order) => some order
    | _ => none

/-- What else the exchange guarantees: a failed submission never executes, each topic arrives in
its own order, and no order is reported open after it was reported closed. -/
structure ExchangeTopics (inputs : List (OmsInput ℚ)) : Prop where
  failed : ∀ id, .event (.submissionFailed id) ∈ inputs →
    ∀ order ∈ executionTopic inputs, order.orderLinkId ≠ id
  updates : (orderTopic inputs).Pairwise fun earlier later ↦
    earlier.updatedTime ≤ later.updatedTime ∧ (earlier.orderLinkId = later.orderLinkId →
      earlier.orderStatus.isClosed → later.orderStatus.isClosed)
  executions : (executionTopic inputs).Pairwise fun earlier later ↦ earlier.execTs ≤ later.execTs

def nearLimit : OmsConfig ℚ := { sampleConfig with inventory := 499, avgEntryPrice := 1 }

def hundredBuy : OrderBuilder ℚ := { sampleBuy with qty := 100 }

def hundredFill (id : UInt64) (execTs : UInt64) : OrderExecution ℚ :=
  { sampleExecution with orderLinkId := id, execTs, execFee := 0, execQty := 100 }

/-- The first buy is reported filled, a second one is submitted, and then both fills arrive. -/
def overtakenFills : List (OmsInput ℚ) :=
  [.forward RiskManager.evaluateOrder hundredBuy,
    .event (.orderUpdate { sampleFilled with qty := 100, filledQty := 100 }),
    .forward RiskManager.evaluateOrder hundredBuy,
    .event (.executionUpdate (hundredFill 90 2)), .event (.executionUpdate (hundredFill 91 3))]

/-- Without the condition on submissions the bound fails. -/
theorem not_exposure_bounded :
    ¬∀ (config : OmsConfig ℚ) (quantity : ℚ) (inputs : List (OmsInput ℚ))
      (final : OrderManagementSystem ℚ) (outputs : List (List (Effect ℚ))), 0 < quantity →
      minInventory - quantity < config.inventory → config.inventory < maxInventory + quantity →
      UnderRiskManager inputs → (∀ riskPolicy orderBuilder,
        .forward riskPolicy orderBuilder ∈ inputs → orderBuilder.qty = quantity) →
      (new config).1.cycle inputs = some (final, outputs) →
      ExchangeFills quantity inputs outputs → ExchangeTopics inputs →
      final.inventory < maxInventory + quantity := by
  intro hbounded
  have hrun : ((new nearLimit).1.cycle overtakenFills).map (fun final ↦
      (final.1.inventory, final.2)) = some (699, [[.submitOrder hundredBuy 90], [],
        [.submitOrder hundredBuy 91], [.forcePush 599], [.forcePush 699]]) := by decide +kernel
  obtain ⟨⟨final, outputs⟩, hrun, heq⟩ := Option.map_eq_some_iff.mp hrun
  obtain ⟨hinventory, rfl⟩ := Prod.mk.inj heq
  have hexecutions : ∀ order, .event (.executionUpdate order) ∈ overtakenFills →
      order = hundredFill 90 2 ∨ order = hundredFill 91 3 := by simp [overtakenFills]
  have hforwards : ∀ riskPolicy orderBuilder,
      .forward riskPolicy orderBuilder ∈ overtakenFills →
      riskPolicy = RiskManager.evaluateOrder ∧ orderBuilder = hundredBuy := by
    intro riskPolicy orderBuilder hmem
    simp only [overtakenFills, List.mem_cons, OmsInput.forward.injEq, reduceCtorEq,
      List.not_mem_nil, or_false, false_or] at hmem
    exact hmem.elim id id
  have hlimit := hbounded nearLimit 100 overtakenFills final _ (by norm_num)
    (by norm_num [nearLimit]) (by norm_num [nearLimit])
    (fun riskPolicy orderBuilder hmem ↦ (hforwards riskPolicy orderBuilder hmem).1)
    (fun riskPolicy orderBuilder hmem ↦ (hforwards riskPolicy orderBuilder hmem).2 ▸ rfl) hrun
    ⟨?_, ?_, ?_, ?_⟩ ⟨?_, ?_, ?_⟩
  · norm_num [hinventory] at hlimit
  · intro submitted id hsubmitted order hmem _
    have hbuy : submitted = hundredBuy := by
      simp only [List.flatten_cons, List.flatten_nil, List.mem_append, List.mem_singleton,
        Effect.submitOrder.injEq, reduceCtorEq, List.not_mem_nil, or_false, false_or] at hsubmitted
      exact hsubmitted.elim And.left And.left
    obtain rfl | rfl := hexecutions order hmem <;> exact hbuy ▸ rfl
  · rintro order hmem
    obtain rfl | rfl := hexecutions order hmem <;> decide +kernel
  · rintro order hmem
    obtain rfl | rfl := hexecutions order hmem <;> decide +kernel
  · intro executions hmem hnodup id
    have hsubset : executions ⊆ [hundredFill 90 2, hundredFill 91 3] :=
      fun order horder ↦ by simpa using hexecutions order (hmem order horder)
    apply (filledOf_le_of_nodup (hnodup.of_map _) hsubset (by decide +kernel) id).trans
    by_cases hfirst : id = 90
    · subst hfirst
      decide +kernel
    · by_cases hsecond : id = 91
      · subst hsecond
        decide +kernel
      · simp [filledOf, hundredFill, Ne.symm hfirst, Ne.symm hsecond]
  · simp [overtakenFills]
  · decide +kernel
  · decide +kernel

end OrderManagementSystem

end MarketMaker
