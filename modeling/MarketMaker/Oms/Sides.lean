import MarketMaker.Oms.OrderTable

/-!
# One open order per side

The risk manager amends the first open order of a side and assumes it is the only one.  The
assumption is an invariant: a submission needs a side without open orders, a submitted order counts
as open, and neither an update nor a failure opens an order.  The one thing the order management
system cannot enforce is that the exchange does not reopen an order that is stored as closed.
-/

namespace MarketMaker

variable {F : Type}

namespace OrderManagementSystem

def openOrdersOn (oms : OrderManagementSystem F) (side : OrderSide) : List (Order F) :=
  oms.orders.filter fun order ↦ order.orderStatus.isOpen && side == order.side

/-- The invariant: at most one open order on each side. -/
def OneOpenPerSide (oms : OrderManagementSystem F) : Prop :=
  ∀ side, (oms.openOrdersOn side).length ≤ 1

/-- No accepted update opens an order stored as closed. -/
def NeverReopens (oms : OrderManagementSystem F) (input : OmsInput F) (_ : List (OmsInput F)) :
    Prop :=
  ∀ message slabId oldOrder, input = .event (.orderUpdate message) →
    oms.AcceptsUpdate message slabId oldOrder → oldOrder.orderStatus.isClosed →
    message.orderStatus.isClosed

theorem openOrdersOn_eq_nil {oms : OrderManagementSystem F} {side : OrderSide} :
    oms.openOrdersOn side = [] ↔ RiskManager.getExistingOrder oms.orders side = none := by
  simp [openOrdersOn, RiskManager.getExistingOrder, List.filter_eq_nil_iff]

theorem length_openOrdersOn_store (oms : OrderManagementSystem F) (stored : Order F)
    (side : OrderSide) :
    ((oms.store stored).openOrdersOn side).length ≤ (oms.openOrdersOn side).length +
      if stored.side = side then 1 else 0 := by
  simp only [openOrdersOn, orders_store, List.filter_append, List.length_append,
    add_le_add_iff_left]
  by_cases hside : stored.side = side
  · simpa [hside] using List.length_filter_le _ [stored]
  · simp [hside, Ne.symm hside]

/-- Rewriting an entry without opening it does not add an open order. -/
theorem length_openOrdersOn_setOrder {oms : OrderManagementSystem F} {slabId : ℕ}
    {oldOrder changed : Order F} (hold : oms.orders[slabId]? = some oldOrder)
    (hside : changed.side = oldOrder.side)
    (hopen : changed.orderStatus.isOpen → oldOrder.orderStatus.isOpen) (side : OrderSide) :
    ((oms.setOrder slabId changed).openOrdersOn side).length ≤
      (oms.openOrdersOn side).length := by
  obtain ⟨hlt, hget⟩ := List.getElem?_eq_some_iff.mp hold
  simp only [openOrdersOn, orders_setOrder, ← List.countP_eq_length_filter]
  rw [List.countP_set hlt, hget, hside]
  have hpos : (oldOrder.orderStatus.isOpen && side == oldOrder.side) = true →
      0 < List.countP (fun order : Order F ↦ order.orderStatus.isOpen && side == order.side)
        oms.orders := by
    intro hp
    exact List.countP_pos_iff.mpr ⟨oldOrder, List.mem_of_getElem? hold, hp⟩
  by_cases hp : (oldOrder.orderStatus.isOpen && side == oldOrder.side) = true
  · have := hpos hp
    rw [if_pos hp]
    split <;> omega
  · have hchanged : ¬(changed.orderStatus.isOpen && side == oldOrder.side) = true := by
      intro hc
      simp only [Bool.and_eq_true] at hp hc
      exact hp ⟨hopen hc.1, hc.2⟩
    simp [hp, hchanged]

variable [F64 F] [Add F] [Sub F] [Mul F] [Div F] [LT F] [DecidableLT F] [LE F] [DecidableLE F]
  [BEq F] [Neg F] [OfScientific F]

/-- Every call of the strategy goes through the risk manager, as in the production loop. -/
def UnderRiskManager (inputs : List (OmsInput F)) : Prop :=
  ∀ riskPolicy orderBuilder, .forward riskPolicy orderBuilder ∈ inputs →
    riskPolicy = RiskManager.evaluateOrder

variable {oms next : OrderManagementSystem F} {input : OmsInput F} {inputs : List (OmsInput F)}
  {effects : List (Effect F)} {outputs : List (List (Effect F))}

/-- What reaches the gateway from one step under the risk manager. -/
theorem Transition.submit_riskManager (htransition : oms.Transition input next effects)
    (hpolicy : UnderRiskManager [input]) {order : OrderBuilder F} {orderLinkId : UInt64}
    (hmem : .submitOrder order orderLinkId ∈ effects) :
    input = .forward RiskManager.evaluateOrder order ∧ oms.openOrdersOn order.side = [] ∧
      ¬(oms.inventory ≥ maxInventory ∧ order.side = .buy) ∧
      ¬(oms.inventory ≤ minInventory ∧ order.side = .sell) := by
  cases htransition with
  | @submit riskPolicy orderBuilder submitted stored hevaluate hbuild =>
    obtain rfl := hpolicy riskPolicy orderBuilder (by simp)
    obtain ⟨rfl, rfl⟩ : order = submitted ∧ orderLinkId = oms.idGenerator := by simpa using hmem
    obtain hcase | ⟨hcase, hnone, hmax, hmin⟩ | ⟨_, _, _, _, _, hcase⟩ :=
      RiskManager.evaluateOrder_cases hevaluate
    · simp at hcase
    · obtain rfl := Outcome.newOrder.inj hcase
      exact ⟨rfl, openOrdersOn_eq_nil.mpr hnone, hmax, hmin⟩
    · simp at hcase
  | amend | hold | discard | update | failure => simp at hmem
  | execution => simp only [settlement] at hmem; split at hmem <;> simp at hmem

/-- The step lemma of the invariant. -/
theorem OneOpenPerSide.transition (hone : oms.OneOpenPerSide)
    (htransition : oms.Transition input next effects) (hpolicy : UnderRiskManager [input])
    (hreopen : oms.NeverReopens input []) : next.OneOpenPerSide := by
  cases id htransition with
  | @submit riskPolicy orderBuilder order stored hevaluate hbuild =>
    obtain ⟨-, hnone, -, -⟩ := htransition.submit_riskManager hpolicy (List.mem_singleton_self _)
    have hside : stored.side = order.side := (OrderBuilder.build_eq_some hbuild).2.2.2.1
    intro side
    apply (length_openOrdersOn_store oms stored side).trans
    by_cases heq : stored.side = side
    · rw [← heq, hside, hnone]
      simp
    · simpa [heq] using hone side
  | amend | hold | discard => exact hone
  | execution => exact hone
  | @update message slabId oldOrder haccept =>
    have hopen : (oldOrder.copyUpdate message).orderStatus.isOpen →
        oldOrder.orderStatus.isOpen := by
      intro hmessageOpen
      by_contra hclosed
      have hmessage := hreopen message slabId oldOrder rfl haccept
        (by simpa [OrderStatus.isClosed] using hclosed)
      simp [OrderStatus.isClosed, show message.orderStatus.isOpen = true from hmessageOpen]
        at hmessage
    exact fun side ↦ (length_openOrdersOn_setOrder haccept.2.1
      (show (oldOrder.copyUpdate message).side = oldOrder.side from rfl) hopen side).trans
      (hone side)
  | @failure orderLinkId slabId oldOrder haccept =>
    have hopen : ({ oldOrder with orderStatus := .rejected } : Order F).orderStatus.isOpen →
        oldOrder.orderStatus.isOpen := by simp [OrderStatus.isOpen]
    exact fun side ↦ (length_openOrdersOn_setOrder haccept.2.1
      (show ({ oldOrder with orderStatus := .rejected } : Order F).side = oldOrder.side from rfl)
      hopen side).trans (hone side)

theorem oneOpenPerSide_of_cycle {config : OmsConfig F} {first rest : List (OmsInput F)}
    (hpolicy : UnderRiskManager (first ++ rest))
    (hreopen : Machine.Along step NeverReopens (new config).1 (first ++ rest))
    (hrun : (new config).1.cycle first = some (oms, outputs)) : oms.OneOpenPerSide := by
  have hinvariant := Machine.run_invariant_along
    (motive := fun (state : OrderManagementSystem F) rest ↦
      state.OneOpenPerSide ∧ UnderRiskManager rest) ?_ ?_ hreopen hrun
  · exact hinvariant.1
  · rintro state input rest next output ⟨hone, hunder⟩ hnever hstep
    refine ⟨hone.transition (transition_of_step hstep) ?_ hnever, ?_⟩
    · exact fun riskPolicy orderBuilder hmem ↦
        hunder riskPolicy orderBuilder (by simp_all)
    · exact fun riskPolicy orderBuilder hmem ↦ hunder riskPolicy orderBuilder (by simp [hmem])
  · exact ⟨fun side ↦ by simp [new, openOrdersOn], hpolicy⟩

/-- At every point of a run under the risk manager each side has at most one open order, and an
order is submitted only on a side that has none. -/
theorem one_open_order_per_side {config : OmsConfig F} (hpolicy : UnderRiskManager inputs)
    (hreopen : Machine.Along step NeverReopens (new config).1 inputs) :
    (∀ first rest state front, inputs = first ++ rest →
      (new config).1.cycle first = some (state, front) → state.OneOpenPerSide) ∧
    ∀ first input rest state front next effects order orderLinkId,
      inputs = first ++ input :: rest → (new config).1.cycle first = some (state, front) →
      state.step input = some (next, effects) → .submitOrder order orderLinkId ∈ effects →
      state.openOrdersOn order.side = [] := by
  constructor
  · rintro first rest state front rfl hfirst
    exact oneOpenPerSide_of_cycle hpolicy hreopen hfirst
  · rintro first input rest state front next effects order orderLinkId rfl - hstep hmem
    exact ((transition_of_step hstep).submit_riskManager
      (fun riskPolicy orderBuilder hinput ↦ hpolicy riskPolicy orderBuilder (by simp_all))
      hmem).2.1

/-- A buy is submitted and filled, and the next wish is submitted again. -/
theorem one_open_order_per_side_sample :
    ∃ oms outputs, (new sampleConfig).1.cycle
        [.forward RiskManager.evaluateOrder sampleBuy, .event (.orderUpdate sampleFilled),
          .forward RiskManager.evaluateOrder sampleBuy] = some (oms, outputs) ∧
      oms.OneOpenPerSide := by
  have hrun : ((new sampleConfig).1.cycle [.forward RiskManager.evaluateOrder sampleBuy,
      .event (.orderUpdate sampleFilled),
      .forward RiskManager.evaluateOrder sampleBuy]).isSome := by decide +kernel
  obtain ⟨⟨oms, outputs⟩, hrun⟩ := Option.isSome_iff_exists.mp hrun
  refine ⟨oms, outputs, hrun, (one_open_order_per_side ?_ ?_).1 _ [] oms outputs
    (List.append_nil _).symm hrun⟩
  · intro riskPolicy orderBuilder hmem
    simp only [List.mem_cons, OmsInput.forward.injEq, reduceCtorEq, List.not_mem_nil, or_false,
      false_or] at hmem
    obtain ⟨h, -⟩ | ⟨h, -⟩ := hmem <;> exact h
  · apply Machine.along_of_forall
    intro state input hinput rest message slabId oldOrder heq _ _
    subst heq
    obtain rfl : message = sampleFilled := by simpa using hinput
    rfl

end OrderManagementSystem

end MarketMaker
