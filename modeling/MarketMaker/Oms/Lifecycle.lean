import MarketMaker.Oms.OrderTable

/-!
# When a closed order is reopened

Three producers write the status of a stored order: the submission itself, the order topic and the
HTTP outcome of the submission.  A closed status taken from the order topic is final as long as the
exchange itself never reopens an order.  A status closed by a submission failure is not: the HTTP
outcome may be unknown while the order is live, and the next message of the order topic wins.
The theorem below says that this is the only way an order is reopened.
-/

namespace MarketMaker

variable {F : Type}

/-- The exchange's updates of one order, sorted by their pairwise distinct times, never go from a
closed status to an open one.  Nothing is said about the order in which they arrive. -/
structure ExchangeMonotone (inputs : List (OmsInput F)) : Prop where
  distinct : ∀ earlier later, .event (.orderUpdate earlier) ∈ inputs →
    .event (.orderUpdate later) ∈ inputs → earlier.orderLinkId = later.orderLinkId →
    earlier.updatedTime = later.updatedTime → earlier = later
  closed : ∀ earlier later, .event (.orderUpdate earlier) ∈ inputs →
    .event (.orderUpdate later) ∈ inputs → earlier.orderLinkId = later.orderLinkId →
    earlier.updatedTime < later.updatedTime → earlier.orderStatus.isClosed →
    later.orderStatus.isClosed

theorem ExchangeMonotone.isClosed_of_le {inputs : List (OmsInput F)}
    (hexchange : ExchangeMonotone inputs) {earlier later : OrderUpdate F}
    (hearlier : .event (.orderUpdate earlier) ∈ inputs)
    (hlater : .event (.orderUpdate later) ∈ inputs)
    (hid : earlier.orderLinkId = later.orderLinkId)
    (hle : ¬later.updatedTime < earlier.updatedTime) (hclosed : earlier.orderStatus.isClosed) :
    later.orderStatus.isClosed := by
  rcases UInt64.lt_or_eq_of_le (UInt64.not_lt.mp hle) with hlt | heq
  · exact hexchange.closed earlier later hearlier hlater hid hlt hclosed
  · rwa [← hexchange.distinct earlier later hearlier hlater hid heq]

namespace OrderManagementSystem

/-- The stored closed status is the one of a message of the exchange. -/
def ExchangeClosed (inputs : List (OmsInput F)) (stored : Order F) : Prop :=
  stored.orderStatus.isClosed ∧ ∃ message, .event (.orderUpdate message) ∈ inputs ∧
    message.orderLinkId = stored.orderLinkId ∧ message.updatedTime = stored.updatedTime ∧
    message.orderStatus.isClosed

theorem exchangeClosed_copyUpdate {inputs : List (OmsInput F)} {stored : Order F}
    {message : OrderUpdate F} (hmem : .event (.orderUpdate message) ∈ inputs)
    (hid : message.orderLinkId = stored.orderLinkId) (hclosed : message.orderStatus.isClosed) :
    ExchangeClosed inputs (stored.copyUpdate message) :=
  ⟨hclosed, message, hmem, hid, rfl, hclosed⟩

variable [F64 F] [Add F] [Sub F] [Mul F] [Div F] [LT F] [DecidableLT F] [BEq F] [OfScientific F]
variable {initial : UInt64} {oms next final : OrderManagementSystem F}
  {input : OmsInput F} {inputs : List (OmsInput F)} {effects : List (Effect F)}
  {outputs : List (List (Effect F))} {k : ℕ} {stored : Order F}

/-- A status closed by the exchange survives every transition on the exchange's messages. -/
theorem ExchangeClosed.transition (hexchange : ExchangeMonotone inputs)
    (hindexed : oms.Indexed initial) (hmem : input ∈ inputs)
    (htransition : oms.Transition input next effects) (hstored : oms.orders[k]? = some stored)
    (hclosed : ExchangeClosed inputs stored) :
    ∃ stored', next.orders[k]? = some stored' ∧ ExchangeClosed inputs stored' := by
  obtain ⟨hstatus, message, hmessage, hid, htime, hmessageClosed⟩ := id hclosed
  obtain hsame | ⟨update, rfl, haccept, hupdate⟩ | ⟨id, rfl, haccept, -⟩ :=
    htransition.order_cases hstored
  · exact ⟨stored, hsame, hclosed⟩
  · have hupdateId := haccept.orderLinkId_eq hindexed
    have hupdateClosed : update.orderStatus.isClosed :=
      hexchange.isClosed_of_le hmessage hmem (hid.trans hupdateId.symm)
        (htime ▸ haccept.2.2) hmessageClosed
    exact ⟨_, hupdate, exchangeClosed_copyUpdate hmem hupdateId hupdateClosed⟩
  · exact absurd haccept.2.2 (OrderStatus.ne_submitted_of_isClosed hstatus)

theorem ExchangeClosed.cycle {later : List (OmsInput F)} (hexchange : ExchangeMonotone inputs)
    (hindexed : oms.Indexed initial) (hlater : ∀ input ∈ later, input ∈ inputs)
    (hrun : oms.cycle later = some (final, outputs)) (hstored : oms.orders[k]? = some stored)
    (hclosed : ExchangeClosed inputs stored) :
    ∃ stored', final.orders[k]? = some stored' ∧ ExchangeClosed inputs stored' := by
  have hfinal := Machine.run_invariant
    (motive := fun state : OrderManagementSystem F ↦ state.Indexed initial ∧
      ∃ stored', state.orders[k]? = some stored' ∧ ExchangeClosed inputs stored') ?_
    ⟨hindexed, stored, hstored, hclosed⟩ hrun
  · exact hfinal.2
  · rintro state input hmem next output ⟨hstate, stored', hstored', hclosed'⟩ hstep
    have htransition := transition_of_step hstep
    exact ⟨hstate.transition htransition,
      hclosed'.transition hexchange hstate (hlater input hmem) htransition hstored'⟩

/-- An order leaves the closed statuses only by an accepted update that is open. -/
theorem exists_open_update (hindexed : oms.Indexed initial)
    (hrun : oms.cycle inputs = some (final, outputs)) (hstored : oms.orders[k]? = some stored)
    (hclosed : stored.orderStatus.isClosed) {reopened : Order F}
    (hreopened : final.orders[k]? = some reopened) (hopen : reopened.orderStatus.isOpen) :
    ∃ message, .event (.orderUpdate message) ∈ inputs ∧
      message.orderLinkId = stored.orderLinkId ∧ message.orderStatus.isOpen := by
  by_contra hnone
  have hfinal := Machine.run_invariant
    (motive := fun state : OrderManagementSystem F ↦ state.Indexed initial ∧
      ∃ order, state.orders[k]? = some order ∧ order.orderLinkId = stored.orderLinkId ∧
        order.orderStatus.isClosed) ?_
    ⟨hindexed, stored, hstored, rfl, hclosed⟩ hrun
  · obtain ⟨-, order, horder, -, horderClosed⟩ := hfinal
    obtain rfl := Option.some.inj (hreopened.symm.trans horder)
    simp [OrderStatus.isClosed, hopen] at horderClosed
  · rintro state input hmem next output ⟨hstate, order, horder, hid, horderClosed⟩ hstep
    have htransition := transition_of_step hstep
    refine ⟨hstate.transition htransition, ?_⟩
    obtain hsame | ⟨update, rfl, haccept, hupdate⟩ | ⟨failed, rfl, haccept, -⟩ :=
      htransition.order_cases horder
    · exact ⟨order, hsame, hid, horderClosed⟩
    · have hupdateId := (haccept.orderLinkId_eq hstate).trans hid
      have hupdateClosed : update.orderStatus.isClosed := by
        by_contra hupdateOpen
        exact hnone ⟨update, hmem, hupdateId, by simpa [OrderStatus.isClosed] using hupdateOpen⟩
      exact ⟨_, hupdate, hid, hupdateClosed⟩
    · exact absurd haccept.2.2 (OrderStatus.ne_submitted_of_isClosed horderClosed)

/-- Where the closed statuses of a reachable state come from. -/
theorem closed_origin {config : OmsConfig F}
    (hrun : (new config).1.cycle inputs = some (final, outputs))
    (hstored : final.orders[k]? = some stored) (hclosed : stored.orderStatus.isClosed) :
    ExchangeClosed inputs stored ∨
      stored.orderStatus = .rejected ∧
        .event (.submissionFailed stored.orderLinkId) ∈ inputs := by
  refine Machine.run_history (motive := fun inputs state _ ↦ ∀ k (stored : Order F),
    state.orders[k]? = some stored → stored.orderStatus.isClosed →
    ExchangeClosed inputs stored ∨ stored.orderStatus = .rejected ∧
      .event (.submissionFailed stored.orderLinkId) ∈ inputs) ?_ ?_ hrun k stored hstored hclosed
  · simp [new]
  · intro first middle front input next output hfirst ih hstep k stored hstored hclosed
    have hindexed := indexed_of_cycle hfirst
    have htransition := transition_of_step hstep
    obtain ⟨before, hbefore⟩ | ⟨-, builder, hbuild, -⟩ := htransition.order_origin hstored
    · obtain hsame | ⟨update, rfl, haccept, hupdate⟩ | ⟨id, rfl, haccept, hreject⟩ :=
        htransition.order_cases hbefore
      · obtain rfl := Option.some.inj (hsame.symm.trans hstored)
        obtain ⟨hstatus, message, hmessage, hmatch⟩ | ⟨hrejected, hfailed⟩ :=
          ih k before hbefore hclosed
        · exact .inl ⟨hstatus, message, by simp [hmessage], hmatch⟩
        · exact .inr ⟨hrejected, by simp [hfailed]⟩
      · obtain rfl := Option.some.inj (hupdate.symm.trans hstored)
        exact .inl (exchangeClosed_copyUpdate (by simp) (haccept.orderLinkId_eq hindexed) hclosed)
      · obtain rfl := Option.some.inj (hreject.symm.trans hstored)
        exact .inr ⟨rfl, by simp [haccept.orderLinkId_eq hindexed]⟩
    · -- a fresh order is submitted, which is an open status
      have hsubmitted := (OrderBuilder.build_eq_some hbuild).2.1
      exact absurd hsubmitted (OrderStatus.ne_submitted_of_isClosed hclosed)

/-- An accepted update is copied into the order it concerns. -/
theorem AcceptsUpdate.orders_eq {message : OrderUpdate F} {oldOrder : Order F}
    (haccept : oms.AcceptsUpdate message k oldOrder) {output : List (Effect F)}
    (hstep : oms.step (.event (.orderUpdate message)) = some (next, output)) :
    next.orders[k]? = some (oldOrder.copyUpdate message) := by
  have hhandled : oms.handleOrderUpdate message =
      oms.setOrder k (oldOrder.copyUpdate message) := by
    simp [handleOrderUpdate, haccept.1, haccept.2.1, haccept.2.2]
  obtain ⟨rfl, -⟩ := Prod.mk.inj (Option.some.inj hstep)
  simp [hhandled, (List.getElem?_eq_some_iff.mp haccept.2.1).1]

/-- An order that is stored closed and later stored open was closed by a submission failure alone:
no accepted update had closed it, and the exchange reopened it. -/
theorem reopened_only_after_submission_failure {config : OmsConfig F}
    {earlier later : List (OmsInput F)} {middle : OrderManagementSystem F}
    {front back : List (List (Effect F))} {closed reopened : Order F}
    (hexchange : ExchangeMonotone (earlier ++ later))
    (hearlier : (new config).1.cycle earlier = some (middle, front))
    (hlater : middle.cycle later = some (final, back))
    (hstored : middle.orders[k]? = some closed) (hclosed : closed.orderStatus.isClosed)
    (hreopened : final.orders[k]? = some reopened) (hopen : reopened.orderStatus.isOpen) :
    (closed.orderStatus = .rejected ∧
        .event (.submissionFailed closed.orderLinkId) ∈ earlier) ∧
      (∀ first rest message state produced oldOrder,
        earlier = first ++ .event (.orderUpdate message) :: rest →
        (new config).1.cycle first = some (state, produced) →
        state.AcceptsUpdate message k oldOrder → message.orderStatus.isOpen) ∧
      ∃ message, .event (.orderUpdate message) ∈ later ∧
        message.orderLinkId = closed.orderLinkId ∧ message.orderStatus.isOpen := by
  have hindexed := indexed_of_cycle hearlier
  have hnotExchange : ¬ExchangeClosed (earlier ++ later) closed := by
    intro hexchangeClosed
    obtain ⟨order, horder, horderClosed⟩ := hexchangeClosed.cycle hexchange hindexed
      (fun input hmem ↦ by simp [hmem]) hlater hstored
    obtain rfl := Option.some.inj (hreopened.symm.trans horder)
    simpa [OrderStatus.isClosed, hopen] using horderClosed.1
  refine ⟨?_, ?_, exists_open_update hindexed hlater hstored hclosed hreopened hopen⟩
  · obtain ⟨hstatus, message, hmessage, hmatch⟩ | hfailed :=
      closed_origin hearlier hstored hclosed
    · exact absurd ⟨hstatus, message, by simp [hmessage], hmatch⟩ hnotExchange
    · exact hfailed
  · -- an accepted closed update would have kept the order closed ever since
    intro first rest message state produced oldOrder hsplit hfirst haccept
    by_contra hmessageOpen
    have hmessageClosed : message.orderStatus.isClosed := by
      simpa [OrderStatus.isClosed] using hmessageOpen
    subst hsplit
    obtain ⟨state', front', back', hfirst', hrest, -⟩ := Machine.run_append_eq_some.mp hearlier
    obtain ⟨rfl, -⟩ := Prod.mk.inj (Option.some.inj (hfirst.symm.trans hfirst'))
    have hstate := indexed_of_cycle hfirst
    obtain ⟨updated, output, tail, hstep, htail, -⟩ := Machine.run_cons_eq_some.mp hrest
    have htransition := transition_of_step hstep
    have hupdated := haccept.orders_eq hstep
    obtain ⟨order, horder, horderClosed⟩ :=
      (exchangeClosed_copyUpdate (by simp) (haccept.orderLinkId_eq hstate)
        hmessageClosed).cycle hexchange (hstate.transition htransition)
        (fun input hmem ↦ by simp [hmem]) htail hupdated
    obtain rfl := Option.some.inj (hstored.symm.trans horder)
    exact hnotExchange horderClosed

/-- A submission whose HTTP outcome is unknown. -/
def unknownSubmission : List (OmsInput ℚ) :=
  [.forward RiskManager.evaluateOrder sampleBuy, .event (.submissionFailed 90)]

/-- The order was live: the order topic acknowledges it. -/
def lateAcknowledgement : List (OmsInput ℚ) := [.event (.orderUpdate sampleAcknowledgement)]

theorem exchangeMonotone_lateAcknowledgement :
    ExchangeMonotone (unknownSubmission ++ lateAcknowledgement) := by
  constructor
  all_goals
    intro first second hfirst hsecond
    simp only [unknownSubmission, lateAcknowledgement, List.cons_append, List.nil_append,
      List.mem_cons, OmsInput.event.injEq, OrderEvent.orderUpdate.injEq, reduceCtorEq,
      List.not_mem_nil, or_false, false_or] at hfirst hsecond
    subst hfirst hsecond
  · exact fun _ _ ↦ rfl
  · exact fun _ hlt ↦ absurd hlt (by decide)

/-- The order is stored as rejected after the first part and as new after the second. -/
theorem lateAcknowledgement_reopens :
    ∃ middle final front back closed reopened,
      (new sampleConfig).1.cycle unknownSubmission = some (middle, front) ∧
      middle.cycle lateAcknowledgement = some (final, back) ∧
      middle.orders[0]? = some closed ∧ closed.orderStatus.isClosed ∧
      final.orders[0]? = some reopened ∧ reopened.orderStatus.isOpen := by
  have hrun : ((new sampleConfig).1.cycle unknownSubmission).any (fun middle ↦
      (middle.1.cycle lateAcknowledgement).any fun final ↦
        (middle.1.orders[0]?).any (·.orderStatus.isClosed) &&
          (final.1.orders[0]?).any (·.orderStatus.isOpen)) := by decide +kernel
  simp only [Option.any_eq_true, Bool.and_eq_true] at hrun
  obtain ⟨⟨middle, front⟩, hmiddle, ⟨final, back⟩, hfinal, ⟨closed, hstored, hclosed⟩,
    reopened, hreopened, hopen⟩ := hrun
  exact ⟨middle, final, front, back, closed, reopened, hmiddle, hfinal, hstored, hclosed,
    hreopened, hopen⟩

/-- A closed status is not terminal under the exchange's guarantees alone. -/
theorem not_closed_terminal :
    ¬∀ (config : OmsConfig ℚ) (earlier later : List (OmsInput ℚ))
      (middle final : OrderManagementSystem ℚ) (front back : List (List (Effect ℚ))) (k : ℕ)
      (closed stored : Order ℚ), ExchangeMonotone (earlier ++ later) →
      (new config).1.cycle earlier = some (middle, front) →
      middle.cycle later = some (final, back) → middle.orders[k]? = some closed →
      closed.orderStatus.isClosed → final.orders[k]? = some stored →
      stored.orderStatus.isOpen = false := by
  intro hterminal
  obtain ⟨middle, final, front, back, closed, reopened, hmiddle, hfinal, hstored, hclosed,
    hreopened, hopen⟩ := lateAcknowledgement_reopens
  have hclosedLater := hterminal sampleConfig _ _ middle final front back 0 closed reopened
    exchangeMonotone_lateAcknowledgement hmiddle hfinal hstored hclosed hreopened
  simp [hopen] at hclosedLater

theorem reopened_only_after_submission_failure_sample :
    .event (.submissionFailed 90) ∈ unknownSubmission ∧
      ∃ message, .event (.orderUpdate message) ∈ lateAcknowledgement ∧
        message.orderStatus.isOpen := by
  obtain ⟨middle, final, front, back, closed, reopened, hmiddle, hfinal, hstored, hclosed,
    hreopened, hopen⟩ := lateAcknowledgement_reopens
  obtain ⟨⟨-, hfailed⟩, -, message, hmessage, -, hmessageOpen⟩ :=
    reopened_only_after_submission_failure exchangeMonotone_lateAcknowledgement hmiddle hfinal
      hstored hclosed hreopened hopen
  have hid : closed.orderLinkId = 90 :=
    (indexed_of_cycle hmiddle).orderLinkId 0 closed hstored
  exact ⟨hid ▸ hfailed, message, hmessage, hmessageOpen⟩

end OrderManagementSystem

end MarketMaker
