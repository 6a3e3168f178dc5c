import MarketMaker.Foundation.LastWriter
import MarketMaker.Oms.OrderTable

/-!
# Order updates converge

A stored order is a register that keeps the last write: its time is the update time, and the guard
of the update handler drops older messages.  The failure handler writes the same status field
without a time, but only while no message has been taken over.  Hence the stored state of an order
depends only on which messages were delivered since the order was submitted.
-/

namespace MarketMaker

variable {F : Type}

/-- The part of a stored order that the exchange's messages overwrite. -/
def Order.reported (order : Order F) : OrderStatus × F × F × Option F × F × UInt64 :=
  (order.orderStatus, order.price, order.qty, order.filledPrice, order.filledQty,
    order.updatedTime)

def OrderUpdate.reported (order : OrderUpdate F) : OrderStatus × F × F × Option F × F × UInt64 :=
  (order.orderStatus, order.price, order.qty, order.filledPrice, order.filledQty,
    order.updatedTime)

@[simp]
theorem Order.reported_copyUpdate (oldOrder : Order F) (order : OrderUpdate F) :
    (oldOrder.copyUpdate order).reported = order.reported := rfl

theorem Order.updatedTime_of_reported {stored : Order F} {message : OrderUpdate F}
    (hreported : stored.reported = message.reported) :
    stored.updatedTime = message.updatedTime := by
  simp only [reported, OrderUpdate.reported, Prod.mk.injEq] at hreported
  exact hreported.2.2.2.2.2

theorem Order.orderStatus_of_reported {stored : Order F} {message : OrderUpdate F}
    (hreported : stored.reported = message.reported) :
    stored.orderStatus = message.orderStatus := congrArg Prod.fst hreported

def OrderUpdate.time (order : OrderUpdate F) : ℕ := order.updatedTime.toNat

def OmsInput.updateOf (id : UInt64) : OmsInput F → Option (OrderUpdate F)
  | .event (.orderUpdate message) => if message.orderLinkId = id then some message else none
  | _ => none

theorem OmsInput.updateOf_eq_some {id : UInt64} {input : OmsInput F} {message : OrderUpdate F} :
    input.updateOf id = some message ↔
      input = .event (.orderUpdate message) ∧ message.orderLinkId = id := by
  unfold OmsInput.updateOf
  split
  · simp only [Option.ite_none_right_eq_some, Option.some.injEq, OmsInput.event.injEq,
      OrderEvent.orderUpdate.injEq]
    constructor <;> rintro ⟨h, rfl⟩ <;> simp_all
  · rename_i hother
    simpa using fun heq ↦ absurd heq (hother message)

/-- The order updates for `id` among the inputs, in order of delivery. -/
def deliveredUpdates (id : UInt64) (inputs : List (OmsInput F)) : List (OrderUpdate F) :=
  inputs.filterMap (OmsInput.updateOf id)

theorem mem_deliveredUpdates {id : UInt64} {inputs : List (OmsInput F)}
    {message : OrderUpdate F} :
    message ∈ deliveredUpdates id inputs ↔
      .event (.orderUpdate message) ∈ inputs ∧ message.orderLinkId = id := by
  simp only [deliveredUpdates, List.mem_filterMap, OmsInput.updateOf_eq_some]
  constructor
  · rintro ⟨_, hmem, rfl, hid⟩
    exact ⟨hmem, hid⟩
  · rintro ⟨hmem, hid⟩
    exact ⟨_, hmem, rfl, hid⟩

/-- The stored order shows the latest of the delivered messages. -/
def Order.KeepsLatest (delivered : List (OrderUpdate F)) (stored : Order F) : Prop :=
  LastWriter.Keeps OrderUpdate.time (fun order : Order F ↦ order.updatedTime = 0)
    (fun order message ↦ order.reported = message.reported) delivered stored

namespace OrderManagementSystem

variable [F64 F] [Add F] [Sub F] [Mul F] [Div F] [LT F] [DecidableLT F] [BEq F] [OfScientific F]
variable {initial : UInt64} {oms next : OrderManagementSystem F} {input : OmsInput F}
  {inputs : List (OmsInput F)} {effects : List (Effect F)} {outputs : List (List (Effect F))}

/-- Delivering one message to the order it is for. -/
theorem Transition.keepsLatest_update {message : OrderUpdate F} (hindexed : oms.Indexed initial)
    (hlength : oms.orders.length ≤ 2 ^ 64)
    (htransition : oms.Transition (.event (.orderUpdate message)) next effects) {k : ℕ}
    {stored : Order F} {delivered : List (OrderUpdate F)} (hstored : oms.orders[k]? = some stored)
    (hid : message.orderLinkId = linkId initial k) (hkeeps : stored.KeepsLatest delivered) :
    ∃ stored', next.orders[k]? = some stored' ∧ stored'.KeepsLatest (delivered ++ [message]) := by
  have hlt : k < oms.orders.length := (List.getElem?_eq_some_iff.mp hstored).1
  have hlookup : oms.idMap.lookup message.orderLinkId = some k := by
    rw [hid, hindexed.lookup_linkId hlength hlt]
  cases htransition with
  | @update _ slabId oldOrder haccept =>
    obtain rfl := Option.some.inj (haccept.1.symm.trans hlookup)
    obtain rfl := Option.some.inj (haccept.2.1.symm.trans hstored)
    refine ⟨oldOrder.copyUpdate message, by simp [hlt], hkeeps.write (fun shown hshown ↦ ?_) rfl⟩
    have hnotStale := haccept.2.2
    rw [Order.updatedTime_of_reported hshown, UInt64.not_lt] at hnotStale
    exact UInt64.le_iff_toNat_le.mp hnotStale
  | discard hdiscard =>
    have hstale : message.updatedTime < stored.updatedTime := by
      by_contra hnotStale
      exact hdiscard ⟨k, stored, hlookup, hstored, hnotStale⟩
    refine ⟨stored, hstored, hkeeps.drop (fun hfresh ↦ ?_) fun shown hshown ↦ ?_⟩
    · rw [show stored.updatedTime = 0 from hfresh] at hstale
      exact absurd hstale UInt64.not_lt_zero
    · rw [Order.updatedTime_of_reported hshown] at hstale
      exact (UInt64.lt_iff_toNat_lt.mp hstale).le

/-- Every other input leaves the order showing what it showed. -/
theorem Transition.keepsLatest_other (hindexed : oms.Indexed initial)
    (htransition : oms.Transition input next effects) {k : ℕ}
    {stored : Order F} {delivered : List (OrderUpdate F)} (hstored : oms.orders[k]? = some stored)
    (hother : input.updateOf (linkId initial k) = none) (hkeeps : stored.KeepsLatest delivered)
    (hanswered : ∀ message ∈ delivered, message.orderStatus ≠ .submitted) :
    ∃ stored', next.orders[k]? = some stored' ∧ stored'.KeepsLatest delivered := by
  obtain hsame | ⟨message, rfl, haccept, -⟩ | ⟨orderLinkId, -, haccept, hreject⟩ :=
    htransition.order_cases hstored
  · exact ⟨stored, hsame, hkeeps⟩
  · have hid : message.orderLinkId = linkId initial k :=
      (hindexed.lookup_some _ k haccept.1).2
    simp [OmsInput.updateOf, hid] at hother
  · refine ⟨_, hreject, hkeeps.amend id fun shown hmem hshown ↦ ?_⟩
    -- the failure handler only writes while the status is still the local one
    have hstatus : shown.orderStatus = .submitted :=
      (Order.orderStatus_of_reported hshown).symm.trans haccept.2.2
    exact hanswered shown hmem hstatus

theorem Transition.keepsLatest (hindexed : oms.Indexed initial)
    (hlength : oms.orders.length ≤ 2 ^ 64) (htransition : oms.Transition input next effects)
    {k : ℕ} {stored : Order F} {delivered : List (OrderUpdate F)}
    (hstored : oms.orders[k]? = some stored) (hkeeps : stored.KeepsLatest delivered)
    (hanswered : ∀ message ∈ delivered, message.orderStatus ≠ .submitted) :
    ∃ stored', next.orders[k]? = some stored' ∧
      stored'.KeepsLatest (delivered ++ (input.updateOf (linkId initial k)).toList) := by
  cases hupdate : input.updateOf (linkId initial k) with
  | none =>
    rw [Option.toList_none, List.append_nil]
    exact htransition.keepsLatest_other hindexed hstored hupdate hkeeps hanswered
  | some message =>
    obtain ⟨rfl, hid⟩ := OmsInput.updateOf_eq_some.mp hupdate
    exact htransition.keepsLatest_update hindexed hlength hstored hid hkeeps

/-- Over a run that starts right after the submission of an order, the order shows the latest of
the messages delivered since. -/
theorem keepsLatest_of_cycle {later : OrderManagementSystem F} (hindexed : oms.Indexed initial)
    {k : ℕ} {stored : Order F} (hstored : oms.orders[k]? = some stored)
    (hfresh : stored.updatedTime = 0)
    (hanswered : ∀ message ∈ deliveredUpdates (linkId initial k) inputs,
      message.orderStatus ≠ .submitted)
    (hrun : oms.cycle inputs = some (later, outputs)) (hlength : later.orders.length ≤ 2 ^ 64) :
    ∃ final, later.orders[k]? = some final ∧
      final.KeepsLatest (deliveredUpdates (linkId initial k) inputs) := by
  have hhistory := Machine.run_history (motive := fun inputs (state : OrderManagementSystem F) _ ↦
    state.Indexed initial ∧ (state.orders.length ≤ 2 ^ 64 →
      (∀ message ∈ deliveredUpdates (linkId initial k) inputs,
        message.orderStatus ≠ .submitted) →
      ∃ final, state.orders[k]? = some final ∧
        final.KeepsLatest (deliveredUpdates (linkId initial k) inputs))) ?_ ?_ hrun
  · exact hhistory.2 hlength hanswered
  · exact ⟨hindexed, fun _ _ ↦ ⟨stored, hstored, .inl ⟨rfl, hfresh⟩⟩⟩
  · rintro first middle front input next output - ⟨hmiddle, ih⟩ hstep
    have htransition := transition_of_step hstep
    refine ⟨hmiddle.transition htransition, fun hbound hall ↦ ?_⟩
    have hsplit : deliveredUpdates (linkId initial k) (first ++ [input]) =
        deliveredUpdates (linkId initial k) first ++
          (input.updateOf (linkId initial k)).toList := by
      cases hupdate : input.updateOf (linkId initial k) <;>
        simp [deliveredUpdates, hupdate]
    rw [hsplit] at hall ⊢
    have hle := (htransition.submittedIds_eq hmiddle).2.trans hbound
    obtain ⟨current, hcurrent, hkeeps⟩ := ih hle fun message hmem ↦
      hall message (List.mem_append_left _ hmem)
    exact htransition.keepsLatest hmiddle hle hcurrent hkeeps
      fun message hmem ↦ hall message (List.mem_append_left _ hmem)

/-- A submission stores a fresh order under the next key. -/
theorem Transition.exists_submitted (hindexed : oms.Indexed initial) {riskPolicy : RiskPolicy F}
    {orderBuilder submitted : OrderBuilder F} {id : UInt64}
    (htransition : oms.Transition (.forward riskPolicy orderBuilder) next effects)
    (hissued : .submitOrder submitted id ∈ effects) :
    id = linkId initial oms.orders.length ∧
      ∃ stored, next.orders[oms.orders.length]? = some stored ∧ stored.updatedTime = 0 := by
  cases htransition with
  | @submit _ _ order stored _ hbuild =>
    obtain ⟨-, rfl⟩ : submitted = order ∧ id = oms.idGenerator := by simpa using hissued
    obtain ⟨-, -, -, -, -, -, -, htime⟩ := OrderBuilder.build_eq_some hbuild
    exact ⟨hindexed.generator, stored, by simp, htime⟩
  | amend | hold => simp at hissued

/-- From the submission of an order on, let messages for it be delivered in any order, with any
repetitions and interleaved with any other inputs.  Once each was delivered the stored order shows
the one with the greatest time. -/
theorem order_updates_converge {config : OmsConfig F} {before after : List (OmsInput F)}
    {riskPolicy : RiskPolicy F} {orderBuilder submitted : OrderBuilder F} {id : UInt64}
    {final : OrderManagementSystem F} {front back : List (List (Effect F))}
    (hbefore : (new config).1.cycle before = some (oms, front))
    (hstep : oms.step (.forward riskPolicy orderBuilder) = some (next, effects))
    (hissued : .submitOrder submitted id ∈ effects)
    (hafter : next.cycle after = some (final, back))
    (hsubmissions : (submittedIds (front ++ effects :: back).flatten).length < 2 ^ 64)
    {messages : List (OrderUpdate F)}
    (hmessages : ∀ message, message ∈ messages ↔
      .event (.orderUpdate message) ∈ after ∧ message.orderLinkId = id)
    (hdistinct : ∀ a ∈ messages, ∀ b ∈ messages, a.updatedTime = b.updatedTime → a = b)
    (hanswered : ∀ message ∈ messages, message.orderStatus ≠ .submitted)
    {latest : OrderUpdate F} (hlatest : latest ∈ messages)
    (hgreatest : ∀ message ∈ messages, message.updatedTime ≤ latest.updatedTime) :
    ∃ stored, final.order id = some stored ∧ stored.orderStatus = latest.orderStatus ∧
      stored.price = latest.price ∧ stored.qty = latest.qty ∧
      stored.filledPrice = latest.filledPrice ∧ stored.filledQty = latest.filledQty ∧
      stored.updatedTime = latest.updatedTime := by
  have hindexed := indexed_of_cycle hbefore
  have htransition := transition_of_step hstep
  have hrun : (new config).1.cycle (before ++ .forward riskPolicy orderBuilder :: after) =
      some (final, front ++ effects :: back) :=
    Machine.run_append_eq_some.mpr ⟨oms, front, effects :: back, hbefore,
      Machine.run_cons_eq_some.mpr ⟨next, effects, back, hstep, hafter, rfl⟩, rfl⟩
  have hfinal := indexed_of_cycle hrun
  have hlength : final.orders.length < 2 ^ 64 := by
    rw [submittedIds_of_cycle hrun] at hsubmissions
    simpa using hsubmissions
  obtain ⟨hid, stored, hstored, hfresh⟩ := htransition.exists_submitted hindexed hissued
  have hdelivered : ∀ message, message ∈ deliveredUpdates id after ↔ message ∈ messages :=
    fun message ↦ mem_deliveredUpdates.trans (hmessages message).symm
  subst hid
  obtain ⟨last, hlast, hkeeps⟩ := keepsLatest_of_cycle (hindexed.transition htransition) hstored
    hfresh (fun message hmem ↦ hanswered message ((hdelivered message).mp hmem)) hafter hlength.le
  have hreported := hkeeps.converges hdelivered
    (fun a ha b hb htime ↦ hdistinct a ha b hb (UInt64.toNat_inj.mp htime))
    ⟨hlatest, fun message hmem ↦ UInt64.le_iff_toNat_le.mp (hgreatest message hmem)⟩
  simp only [Order.reported, OrderUpdate.reported, Prod.mk.injEq] at hreported
  obtain ⟨hstatus, hprice, hqty, hfilledPrice, hfilledQty, htime⟩ := hreported
  have hlt : oms.orders.length < final.orders.length := (List.getElem?_eq_some_iff.mp hlast).1
  refine ⟨last, ?_, hstatus, hprice, hqty, hfilledPrice, hfilledQty, htime⟩
  rw [order, hfinal.lookup_linkId hlength.le hlt]
  exact hlast

/-- The final state arrives first, then the acknowledgement, then the final state again. -/
def sampleDeliveries : List (OmsInput ℚ) :=
  [.event (.orderUpdate sampleFilled), .event (.orderUpdate sampleAcknowledgement),
    .event (.orderUpdate sampleFilled)]

theorem order_updates_converge_sample :
    ∃ next final back stored, (new sampleConfig).1.step
        (.forward RiskManager.evaluateOrder sampleBuy) =
          some (next, [.submitOrder sampleBuy 90]) ∧
      next.cycle sampleDeliveries = some (final, back) ∧ final.order 90 = some stored ∧
      stored.orderStatus = .filled := by
  have hrun : ((new sampleConfig).1.step (.forward RiskManager.evaluateOrder sampleBuy)).any
      (fun next ↦ next.2 == [.submitOrder sampleBuy 90] &&
        (next.1.cycle sampleDeliveries).any fun final ↦ final.2 == [[], [], []]) := by
    decide +kernel
  simp only [Option.any_eq_true, Bool.and_eq_true, beq_iff_eq] at hrun
  obtain ⟨⟨next, effects⟩, hstep, rfl, ⟨final, back⟩, hafter, rfl⟩ := hrun
  have hbefore : (new sampleConfig).1.cycle [] = some ((new sampleConfig).1, []) := rfl
  have hmessages : ∀ message, message ∈ [sampleAcknowledgement, sampleFilled] ↔
      .event (.orderUpdate message) ∈ sampleDeliveries ∧ message.orderLinkId = 90 := by
    intro message
    simp only [sampleDeliveries, List.mem_cons, OmsInput.event.injEq,
      OrderEvent.orderUpdate.injEq, List.not_mem_nil, or_false]
    constructor
    · rintro (rfl | rfl)
      · exact ⟨.inr (.inl rfl), rfl⟩
      · exact ⟨.inl rfl, rfl⟩
    · rintro ⟨rfl | rfl | rfl, -⟩ <;> simp
  have hlatest : sampleFilled ∈ [sampleAcknowledgement, sampleFilled] := by simp
  obtain ⟨stored, hstored, hstatus, -⟩ := order_updates_converge hbefore hstep
    (List.mem_singleton_self _) hafter (by decide +kernel) hmessages (by decide +kernel)
    (by decide +kernel) hlatest (by decide +kernel)
  exact ⟨next, final, _, stored, hstep, hafter, hstored, hstatus⟩

end OrderManagementSystem

end MarketMaker
