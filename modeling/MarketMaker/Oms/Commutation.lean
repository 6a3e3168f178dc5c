import MarketMaker.Foundation.Traces
import MarketMaker.Oms.Executions
import MarketMaker.Oms.Responses

/-!
# Independent events commute

The order topic, the execution topic and the outcomes of HTTP requests reach the order management
system through one queue.  An order update or a failed submission rewrites the slab entry of its
own order; an execution reads which ids are known and writes the metrics and the processed
executions.  Events of different lanes therefore commute in every reachable state, and the result
of a sequence of events depends only on the order within each lane.
-/

namespace MarketMaker

variable {F : Type}

/-- What an event competes for: its own order, or the accounts. -/
inductive Lane
  | order (orderLinkId : UInt64)
  | accounts
  deriving DecidableEq

def OrderEvent.lane : OrderEvent F → Lane
  | .orderUpdate order => .order order.orderLinkId
  | .executionUpdate _ => .accounts
  | .submissionFailed orderLinkId => .order orderLinkId

theorem execution_of_lane {event : OrderEvent F} (hlane : event.lane = .accounts) :
    ∃ order, event = .executionUpdate order := by
  cases event with
  | executionUpdate order => exact ⟨order, rfl⟩
  | orderUpdate | submissionFailed => simp [OrderEvent.lane] at hlane

/-- `other` permutes `events` and keeps, for each link id, the order of its updates and failed
submissions, and the order of all executions. -/
structure Reorders (events other : List (OrderEvent F)) : Prop where
  perm : events.Perm other
  orders : ∀ id, events.filter (fun event ↦ event.lane = .order id) =
    other.filter fun event ↦ event.lane = .order id
  executions : events.filter (fun event ↦ event.lane = .accounts) =
    other.filter fun event ↦ event.lane = .accounts

theorem Reorders.projections {events other : List (OrderEvent F)}
    (hreorders : Reorders events other) (lane : Lane) :
    events.filter (fun event ↦ event.lane = lane) = other.filter fun event ↦ event.lane = lane := by
  cases lane with
  | order id => exact hreorders.orders id
  | accounts => exact hreorders.executions

namespace OrderManagementSystem

def touch (oms : OrderManagementSystem F) (id : UInt64) (change : Order F → Order F) :
    OrderManagementSystem F :=
  { oms with
    orders := match oms.idMap.lookup id with
      | none => oms.orders
      | some slabId => oms.orders.modify slabId change }

variable {initial : UInt64} {oms : OrderManagementSystem F} {id other : UInt64}
  {change change' : Order F → Order F}

theorem touch_of_unknown (hlookup : oms.idMap.lookup id = none) : oms.touch id change = oms := by
  simp [touch, hlookup]

theorem touch_of_stored {slabId : ℕ} {stored : Order F}
    (hlookup : oms.idMap.lookup id = some slabId)
    (hslab : oms.orders[slabId]? = some stored) :
    oms.touch id change = oms.setOrder slabId (change stored) := by
  have hmodify : oms.orders.modify slabId change = oms.orders.set slabId (change stored) := by
    apply List.ext_getElem?
    intro k
    rw [List.getElem?_modify, List.getElem?_set]
    split_ifs with hk hlt
    · subst hk
      simp [hslab]
    · subst hk
      exact absurd (List.getElem?_eq_some_iff.mp hslab).1 hlt
    · simp
  simp [touch, hlookup, hmodify, setOrder]

/-- Writing an entry back changes nothing. -/
theorem setOrder_self {slabId : ℕ} {stored : Order F} (hslab : oms.orders[slabId]? = some stored) :
    oms.setOrder slabId stored = oms := by
  obtain ⟨hlt, rfl⟩ := List.getElem?_eq_some_iff.mp hslab
  simp [setOrder]

@[simp]
theorem idMap_touch : (oms.touch id change).idMap = oms.idMap := rfl

@[simp]
theorem length_orders_touch : (oms.touch id change).orders.length = oms.orders.length := by
  cases hlookup : oms.idMap.lookup id <;> simp [touch, hlookup]

/-- Entries of different link ids are different slab entries. -/
theorem touch_comm (hindexed : oms.Indexed initial) (hne : id ≠ other) :
    (oms.touch id change).touch other change' = (oms.touch other change').touch id change := by
  cases hid : oms.idMap.lookup id with
  | none => simp [touch, hid]
  | some k =>
    cases hother : oms.idMap.lookup other with
    | none => simp [touch, hother]
    | some j =>
      have hkj : k ≠ j := by
        rintro rfl
        exact hne ((hindexed.lookup_some id k hid).2.trans
          (hindexed.lookup_some other k hother).2.symm)
      simp only [touch, hid, hother]
      rw [List.modify_modify_ne _ _ _ hkj]

theorem handleOrderUpdate_eq_touch (hindexed : oms.Indexed initial) (message : OrderUpdate F) :
    oms.handleOrderUpdate message = oms.touch message.orderLinkId fun stored ↦
      if message.updatedTime < stored.updatedTime then stored else stored.copyUpdate message := by
  unfold handleOrderUpdate
  cases hlookup : oms.idMap.lookup message.orderLinkId with
  | none => rw [touch_of_unknown hlookup]
  | some slabId =>
    obtain ⟨stored, hslab, -⟩ := hindexed.exists_order hlookup
    rw [touch_of_stored hlookup hslab]
    simp only [hslab]
    split_ifs
    · rw [setOrder_self hslab]
    · rfl

theorem handleSubmissionFailure_eq_touch (hindexed : oms.Indexed initial) (id : UInt64) :
    oms.handleSubmissionFailure id = oms.touch id fun stored ↦
      if stored.orderStatus ≠ .submitted then stored
      else { stored with orderStatus := .rejected } := by
  unfold handleSubmissionFailure
  cases hlookup : oms.idMap.lookup id with
  | none => rw [touch_of_unknown hlookup]
  | some slabId =>
    obtain ⟨stored, hslab, -⟩ := hindexed.exists_order hlookup
    rw [touch_of_stored hlookup hslab]
    simp only [hslab]
    split_ifs
    · rw [setOrder_self hslab]
    · rfl

variable [F64 F] [Add F] [Sub F] [Mul F] [Div F] [LT F] [DecidableLT F] [BEq F] [OfScientific F]

/-- An event of an order's lane changes the entry of that order and makes no call. -/
theorem orderResponse_eq_touch (initial : UInt64) {event : OrderEvent F}
    (hlane : event.lane = .order id) :
    ∃ change : Order F → Order F, ∀ oms : OrderManagementSystem F, oms.Indexed initial →
      oms.orderResponse event = (oms.touch id change, []) := by
  cases event with
  | orderUpdate message =>
    obtain rfl : message.orderLinkId = id := by simpa [OrderEvent.lane] using hlane
    exact ⟨_, fun oms hindexed ↦ congrArg (·, []) (handleOrderUpdate_eq_touch hindexed message)⟩
  | submissionFailed orderLinkId =>
    obtain rfl : orderLinkId = id := by simpa [OrderEvent.lane] using hlane
    exact ⟨_, fun oms hindexed ↦
      congrArg (·, []) (handleSubmissionFailure_eq_touch hindexed orderLinkId)⟩
  | executionUpdate => simp [OrderEvent.lane] at hlane

/-- Accounting for an execution does not look at the content of the slab. -/
theorem handleExecutionUpdate_touch (oms : OrderManagementSystem F) (order : OrderExecution F) :
    (oms.touch id change).handleExecutionUpdate order =
      ((oms.handleExecutionUpdate order).1.touch id change,
        (oms.handleExecutionUpdate order).2) := by
  have haccepts : (oms.touch id change).AcceptsExecution order ↔ oms.AcceptsExecution order := by
    unfold AcceptsExecution
    rw [idMap_touch, length_orders_touch]
    rfl
  obtain ⟨haccept, heq⟩ | ⟨hdiscard, heq⟩ := oms.handleExecutionUpdate_cases order
  · obtain ⟨-, htouch⟩ | ⟨hnot, -⟩ := (oms.touch id change).handleExecutionUpdate_cases order
    · rw [htouch, heq]
      rfl
    · exact absurd (haccepts.mpr haccept) hnot
  · obtain ⟨hyes, -⟩ | ⟨-, htouch⟩ := (oms.touch id change).handleExecutionUpdate_cases order
    · exact absurd (haccepts.mp hyes) hdiscard
    · rw [htouch, heq]

def eventStep (oms : OrderManagementSystem F) (event : OrderEvent F) :
    Option (OrderManagementSystem F × List (Effect F)) :=
  oms.step (.event event)

theorem play_eventStep_pair (oms : OrderManagementSystem F) (first second : OrderEvent F) :
    Machine.play eventStep oms [first, second] =
      some (((oms.orderResponse first).1.orderResponse second).1,
        (oms.orderResponse first).2 ++ ((oms.orderResponse first).1.orderResponse second).2) := by
  simp [Machine.play_cons, eventStep, step]

theorem Indexed.eventStep (hindexed : oms.Indexed initial) {event : OrderEvent F}
    {next : OrderManagementSystem F} {effects : List (Effect F)}
    (hstep : eventStep oms event = some (next, effects)) : next.Indexed initial :=
  hindexed.transition (transition_of_step hstep)

theorem Indexed.orderResponse (hindexed : oms.Indexed initial) (event : OrderEvent F) :
    (oms.orderResponse event).1.Indexed initial :=
  hindexed.transition (oms.transition_orderResponse event)

/-- An event of an order's lane is independent of the executions. -/
theorem independent_execution {event : OrderEvent F} (hlane : event.lane = .order id)
    (order : OrderExecution F) :
    Machine.Independent eventStep (Indexed initial) event (.executionUpdate order) := by
  obtain ⟨change, hchange⟩ := orderResponse_eq_touch initial hlane
  intro oms hindexed
  have hnext : (oms.handleExecutionUpdate order).1.Indexed initial :=
    hindexed.orderResponse (.executionUpdate order)
  have htouch : (oms.touch id change).orderResponse (.executionUpdate order) =
      ((oms.handleExecutionUpdate order).1.touch id change,
        (oms.handleExecutionUpdate order).2) := handleExecutionUpdate_touch oms order
  have hexecution : oms.orderResponse (.executionUpdate order) =
      oms.handleExecutionUpdate order := rfl
  calc
    _ = some ((oms.handleExecutionUpdate order).1.touch id change,
        (oms.handleExecutionUpdate order).2) := by
      rw [play_eventStep_pair, hchange oms hindexed, htouch, List.nil_append]
    _ = _ := by
      rw [play_eventStep_pair, hexecution, hchange _ hnext, List.append_nil]

/-- Events of different lanes are independent in every reachable state. -/
theorem independent_of_lane_ne {first second : OrderEvent F} (hne : first.lane ≠ second.lane) :
    Machine.Independent eventStep (Indexed initial) first second := by
  cases hfirst : first.lane with
  | order id =>
    cases hsecond : second.lane with
    | order other =>
      have hids : id ≠ other := by
        rintro rfl
        exact hne (hfirst.trans hsecond.symm)
      obtain ⟨change, hchange⟩ := orderResponse_eq_touch initial hfirst
      obtain ⟨change', hchange'⟩ := orderResponse_eq_touch initial hsecond
      intro oms hindexed
      have hleft : (oms.touch id change).Indexed initial := by
        have hnext := hindexed.orderResponse first
        rwa [hchange oms hindexed] at hnext
      have hright : (oms.touch other change').Indexed initial := by
        have hnext := hindexed.orderResponse second
        rwa [hchange' oms hindexed] at hnext
      calc
        _ = some ((oms.touch id change).touch other change', []) := by
          rw [play_eventStep_pair, hchange oms hindexed, hchange' _ hleft, List.nil_append]
        _ = some ((oms.touch other change').touch id change, []) := by
          rw [touch_comm hindexed hids]
        _ = _ := by
          rw [play_eventStep_pair, hchange' oms hindexed, hchange _ hright, List.nil_append]
    | accounts =>
      obtain ⟨order, rfl⟩ := execution_of_lane hsecond
      exact independent_execution hfirst order
  | accounts =>
    obtain ⟨order, rfl⟩ := execution_of_lane hfirst
    cases hsecond : second.lane with
    | order other =>
      intro oms hindexed
      exact (independent_execution hsecond order oms hindexed).symm
    | accounts => exact absurd (hfirst.trans hsecond.symm) hne

variable {config : OmsConfig F} {inputs : List (OmsInput F)} {outputs : List (List (Effect F))}

/-- From every reachable state, a list of events and any reordering of it that keeps the order of
the updates and failures of each order and the order of the executions end in the same state and
make the same calls in the same order; in particular the same inventories are pushed to the
strategy and the same repayments are requested. -/
theorem reordered_events_commute (hreachable : (new config).1.cycle inputs = some (oms, outputs))
    {events other : List (OrderEvent F)} (hreorders : Reorders events other) :
    ∃ final effects effects',
      oms.cycle (events.map .event) = some (final, effects) ∧
      oms.cycle (other.map .event) = some (final, effects') ∧
      effects.flatten = effects'.flatten ∧
      pushes effects.flatten = pushes effects'.flatten ∧
      repayments effects.flatten = repayments effects'.flatten := by
  have hplay : Machine.play eventStep oms events = Machine.play eventStep oms other :=
    Machine.play_eq_of_projections (fun _ _ _ _ hindexed hstep ↦ hindexed.eventStep hstep)
      (fun _ _ hne ↦ independent_of_lane_ne hne) (indexed_of_cycle hreachable)
      hreorders.projections
  obtain ⟨final, effects, hfinal, -⟩ : ∃ final effects,
      Machine.run eventStep oms events = some (final, effects) ∧ ∀ output ∈ effects, True :=
    Machine.run_total (motive := fun _ _ ↦ True)
      (fun state event _ _ ↦ ⟨_, _, rfl, trivial, trivial⟩) trivial
  rw [Machine.play, hfinal] at hplay
  obtain ⟨⟨final', effects'⟩, hfinal', heq⟩ := Option.map_eq_some_iff.mp hplay.symm
  obtain ⟨rfl, hcalls⟩ := Prod.mk.inj heq
  refine ⟨final', effects, effects', ?_, ?_, hcalls.symm, by rw [hcalls], by rw [hcalls]⟩
  · rw [cycle, Machine.run_map]
    exact hfinal
  · rw [cycle, Machine.run_map]
    exact hfinal'

/-- The acknowledgement and the fill of a submitted order in both orders. -/
theorem reordered_events_commute_sample :
    ∃ (oms : OrderManagementSystem ℚ) (outputs : List (List (Effect ℚ))),
      (new sampleConfig).1.cycle [.forward RiskManager.evaluateOrder sampleBuy] =
        some (oms, outputs) ∧
      ∃ final effects effects',
        oms.cycle ([.orderUpdate sampleAcknowledgement,
          .executionUpdate sampleExecution].map .event) = some (final, effects) ∧
        oms.cycle ([.executionUpdate sampleExecution,
          .orderUpdate sampleAcknowledgement].map .event) = some (final, effects') ∧
        effects.flatten = effects'.flatten ∧
        pushes effects.flatten = pushes effects'.flatten ∧
        repayments effects.flatten = repayments effects'.flatten := by
  have hsome : ((new sampleConfig).1.cycle
      [.forward RiskManager.evaluateOrder sampleBuy]).isSome := by decide +kernel
  obtain ⟨⟨oms, outputs⟩, hrun⟩ := Option.isSome_iff_exists.mp hsome
  refine ⟨oms, outputs, hrun, reordered_events_commute hrun ?_⟩
  constructor
  · exact .swap ..
  · intro id
    simp [List.filter_cons, OrderEvent.lane]
  · rfl

end OrderManagementSystem

end MarketMaker
