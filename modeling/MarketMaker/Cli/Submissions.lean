import MarketMaker.Cli.Delivery
import MarketMaker.Oms.Integrity

/-!
# Every submission is answered for

A submission leaves the order management system as a request in flight, and its answer comes back in
any order and at any time.  A link id is in flight, accepted or failed, and only one of these; the
failures that the order management system is told of are those of the answers, each once.  So an
order waits for an answer only as long as one may still come.
-/

namespace MarketMaker

variable {F : Type}

def OrderEvent.failedId : OrderEvent F → Option UInt64
  | .submissionFailed orderLinkId => some orderLinkId
  | .orderUpdate _ | .executionUpdate _ => none

def failedIds (events : List (OrderEvent F)) : List UInt64 := events.filterMap OrderEvent.failedId

@[simp]
theorem failedIds_append (first second : List (OrderEvent F)) :
    failedIds (first ++ second) = failedIds first ++ failedIds second := List.filterMap_append

@[simp]
theorem failedIds_map (ids : List UInt64) :
    failedIds (ids.map OrderEvent.submissionFailed : List (OrderEvent F)) = ids := by
  rw [failedIds, List.filterMap_map]
  exact List.filterMap_some

def OmsInput.taken : OmsInput F → List (OrderEvent F)
  | .event message => [message]
  | .forward _ _ => []

/-- The link id of a submission that was accepted. -/
def Request.acceptance (request : Request F) (outcome : RequestOutcome) : Option UInt64 :=
  request.submission.filter fun _ ↦ decide (outcome = .accepted)

theorem Request.submission_eq (request : Request F) (outcome : RequestOutcome) :
    request.submission.toList =
      (request.acceptance outcome).toList ++ (request.failure outcome).toList := by
  unfold acceptance failure
  by_cases haccepted : outcome = .accepted <;> cases request.submission <;>
    simp [haccepted, Option.filter]

namespace Activity

def requested : Activity F → List (Request F)
  | .turn _ _ requests => requests
  | _ => []

def answeredRequest : Activity F → List (Request F)
  | .answered request _ _ => [request]
  | _ => []

def accepted : Activity F → List UInt64
  | .answered request outcome _ => (request.acceptance outcome).toList
  | _ => []

def failed : Activity F → List UInt64
  | .answered request outcome _ => (request.failure outcome).toList
  | _ => []

end Activity

def submitted (log : List (Activity F)) : List UInt64 :=
  submittedIds (log.flatMap Activity.omsEffects).flatten

theorem submitted_append (first second : List (Activity F)) :
    submitted (first ++ second) = submitted first ++ submitted second := by
  simp [submitted, submittedIds]

/-- The link ids of the submissions whose answer is awaited. -/
def Threads.inFlight (threads : Threads F) : List UInt64 :=
  threads.requests.filterMap Request.submission

open Activity in
/-- An answered submission was accepted or failed. -/
theorem answered_perm (log : List (Activity F)) :
    ((log.flatMap answeredRequest).filterMap Request.submission).Perm
      (log.flatMap accepted ++ log.flatMap failed) := by
  induction log with
  | nil => exact List.Perm.refl _
  | cons activity rest ih =>
    have hsplit : (answeredRequest activity).filterMap Request.submission =
        accepted activity ++ failed activity := by
      cases activity with
      | answered request outcome events =>
        rw [accepted, failed, ← request.submission_eq outcome, answeredRequest]
        cases hsubmission : request.submission <;> simp [hsubmission]
      | _ => rfl
    simp only [List.flatMap_cons, List.filterMap_append, hsplit, List.append_assoc]
    apply List.Perm.append_left
    apply (ih.append_left _).trans
    rw [← List.append_assoc, ← List.append_assoc]
    exact List.perm_append_comm.append_right _

open Activity in
theorem takenByOms_eq (log : List (Activity F)) :
    log.flatMap takenByOms = (log.flatMap omsInput).flatMap OmsInput.taken := by
  rw [List.flatMap_assoc]
  congr 1
  funext activity
  cases activity with
  | turn input effects requests => cases input <;> rfl
  | _ => rfl

section Dispatch

variable [F64 F] [F64Format F] [LT F] [DecidableLT F] [OfScientific F]

/-- A call leads to a submission under the link id it was given. -/
theorem submission_dispatch {effect : Effect F} {request : Option (Request F)}
    (hrequest : OrderHandler.dispatch effect = .ok request) :
    request.bind Request.submission = effect.submittedId := by
  cases effect with
  | submitOrder order orderLinkId =>
    obtain ⟨body, -, rfl⟩ := map_eq_ok.mp hrequest
    rfl
  | amendOrder order =>
    obtain ⟨body, -, rfl⟩ := map_eq_ok.mp hrequest
    rfl
  | repayLiability coin =>
    rw [← Except.ok.inj hrequest]
    rfl
  | forcePush inventory =>
    rw [← Except.ok.inj hrequest]
    rfl

theorem submissions_dispatch {effects : List (Effect F)} {requests : List (Option (Request F))}
    (hrequests : effects.mapM OrderHandler.dispatch = .ok requests) :
    requests.reduceOption.filterMap Request.submission = submittedIds effects := by
  induction effects generalizing requests with
  | nil =>
    obtain rfl := Except.ok.inj hrequests
    rfl
  | cons effect rest ih =>
    simp only [List.mapM_cons, bind_eq_ok] at hrequests
    obtain ⟨request, hrequest, later, hlater, heq⟩ := hrequests
    obtain rfl := Except.ok.inj heq
    have hrest := ih hlater
    unfold submittedIds List.reduceOption at hrest ⊢
    rw [List.filterMap_filterMap] at hrest ⊢
    rw [List.filterMap_cons, List.filterMap_cons, ← hrest, ← submission_dispatch hrequest]
    rfl

end Dispatch

namespace PrivateWebSocket

variable [F64 F] [OfScientific F]

/-- The private stream reports no failed submission. -/
theorem failedId_of_sends {response : PrivateResponse} {receiver : Receiver} {event : OrderEvent F}
    (hmem : (receiver, some event) ∈ sends response) : event.failedId = none := by
  cases response with
  | order data =>
    simp only [sends, entrySends, List.mem_flatMap, List.mem_map, Prod.mk.injEq] at hmem
    obtain ⟨entry, -, -, -, -, hevent⟩ := hmem
    simp only [OrderEvent.fromOrder, bind, Option.bind_eq_some_iff, pure,
      Option.some.injEq] at hevent
    obtain ⟨_, -, _, -, _, -, _, -, _, -, _, -, rfl⟩ := hevent
    rfl
  | execution data =>
    simp only [sends, entrySends, List.mem_flatMap, List.mem_map, Prod.mk.injEq] at hmem
    obtain ⟨entry, -, -, -, -, hevent⟩ := hmem
    simp only [OrderEvent.fromExecution, bind, Option.bind_eq_some_iff, pure,
      Option.some.injEq] at hevent
    obtain ⟨_, -, _, -, _, -, _, -, _, -, _, -, _, -, rfl⟩ := hevent
    rfl
  | op | pong | other => simp [sends] at hmem

end PrivateWebSocket

namespace OrderManagementSystem

variable [F64 F] [Add F] [Sub F] [Mul F] [Div F] [LT F] [DecidableLT F] [BEq F] [OfScientific F]
variable {initial : UInt64} {oms next : OrderManagementSystem F} {input : OmsInput F}
  {effects : List (Effect F)}

/-- An order that waits for an answer after a transition waited before and was not told to have
failed, or was just submitted. -/
theorem Transition.waiting_cases (hindexed : oms.Indexed initial)
    (hlength : oms.orders.length ≤ 2 ^ 64) (htransition : oms.Transition input next effects)
    (hstatus : ∀ update, .orderUpdate update ∈ input.taken → update.orderStatus ≠ .submitted)
    {stored : Order F} (hmem : stored ∈ next.orders) (hwaits : stored.orderStatus = .submitted) :
    stored ∈ oms.orders ∧ stored.orderLinkId ∉ failedIds input.taken ∨
      stored.orderLinkId ∈ submittedIds effects ∧ input.taken = [] := by
  obtain ⟨k, hstored⟩ := List.mem_iff_getElem?.mp hmem
  obtain ⟨before, hbefore⟩ | ⟨-, builder, hbuild, heffects⟩ := htransition.order_origin hstored
  · left
    obtain hsame | ⟨message, rfl, -, hupdate⟩ | ⟨orderLinkId, -, -, hreject⟩ :=
      htransition.order_cases hbefore
    · obtain rfl := Option.some.inj (hstored.symm.trans hsame)
      refine ⟨List.mem_of_getElem? hbefore, ?_⟩
      intro hfailed
      cases input with
      | forward => simp [OmsInput.taken, failedIds] at hfailed
      | event event =>
        obtain rfl : event = .submissionFailed stored.orderLinkId := by
          cases event <;> simp_all [OmsInput.taken, failedIds, OrderEvent.failedId]
        have hkey := hindexed.lookup_linkId hlength (List.getElem?_eq_some_iff.mp hbefore).1
        rw [← hindexed.orderLinkId k stored hbefore] at hkey
        have haccept : oms.AcceptsFailure stored.orderLinkId k stored := ⟨hkey, hbefore, hwaits⟩
        cases htransition with
        | @failure _ slabId oldOrder haccept' =>
          obtain rfl := Option.some.inj (haccept'.1.symm.trans hkey)
          rw [orders_setOrder, List.getElem?_set_self (List.getElem?_eq_some_iff.mp hbefore).1]
            at hsame
          rw [← Option.some.inj hsame] at hwaits
          cases hwaits
        | discard hdiscard => exact hdiscard ⟨k, stored, haccept⟩
    · obtain rfl := Option.some.inj (hstored.symm.trans hupdate)
      exact absurd hwaits (hstatus message (List.mem_singleton_self _))
    · obtain rfl := Option.some.inj (hstored.symm.trans hreject)
      cases hwaits
  · right
    obtain ⟨hid, -⟩ := OrderBuilder.build_eq_some hbuild
    constructor
    · rw [hid, heffects]
      exact List.mem_singleton_self _
    · cases htransition with
      | submit | amend | hold => rfl
      | update | failure | discard => simp at heffects
      | execution =>
        unfold settlement at heffects
        split_ifs at heffects <;> simp at heffects

end OrderManagementSystem

namespace Threads

open Activity

variable [F64 F] [F64Format F] [Add F] [Sub F] [Mul F] [Div F] [Neg F] [LT F] [DecidableLT F]
  [LE F] [DecidableLE F] [BEq F] [DecidableEq F] [OfScientific F]

variable {threads next : Threads F} {move : ThreadStep F} {log : List (Activity F)}

namespace Transition

/-- Requests are added by the turns of the order management system and end with their answers. -/
theorem requests (htransition : threads.Transition move next log) :
    (threads.requests ++ log.flatMap requested).Perm
      (log.flatMap answeredRequest ++ next.requests) := by
  cases htransition with
  | @answer index request _ _ _ hrequest =>
    obtain ⟨hlt, rfl⟩ := List.getElem?_eq_some_iff.mp hrequest
    simpa [requested, answeredRequest] using (List.getElem_cons_eraseIdx_perm hlt).symm
  | takeOrder | takeEvent => simp [requested, answeredRequest]
  | _ => simp [requested, answeredRequest]

theorem submissions (htransition : threads.Transition move next log) :
    (log.flatMap requested).filterMap Request.submission = submitted log := by
  cases htransition with
  | takeOrder _ _ _ hrequests | takeEvent _ _ _ hrequests =>
    simpa [requested, submitted, omsEffects] using submissions_dispatch hrequests
  | _ => rfl

theorem failures (htransition : threads.Transition move next log)
    (hsends : ∀ receiver event rest,
      threads.privateSends = some ((receiver, some event) :: rest) → event.failedId = none) :
    failedIds (log.flatMap sentToOms) = log.flatMap failed := by
  cases htransition with
  | sendToOms hnext => simp [sentToOms, failed, failedIds, hsends _ _ _ hnext]
  | @answer _ _ _ _ events _ hanswer =>
    obtain rfl := Request.complete_eq_ok hanswer
    simp [sentToOms, failed]
  | _ => rfl

end Transition

variable {config : AppConfig F} {steps : List (ThreadStep F)}

/-- The private stream never has a failure to send. -/
theorem failedId_of_run (hrun : run (new config) steps = some (threads, log))
    {receiver : Receiver} {event : OrderEvent F} {rest : List (PrivateSend F)}
    (hsends : threads.privateSends = some ((receiver, some event) :: rest)) :
    event.failedId = none := by
  obtain ⟨response, hsuffix⟩ := sends_of_run hrun _ hsends
  exact PrivateWebSocket.failedId_of_sends (hsuffix.subset (List.mem_cons_self ..))

theorem requested_submissions (hrun : run (new config) steps = some (threads, log)) :
    (log.flatMap requested).filterMap Request.submission = submitted log := by
  apply Machine.play_history (motive := fun log _ ↦
    (log.flatMap requested).filterMap Request.submission = submitted log) rfl _ hrun
  intro log current move next output hlog hstep
  rw [List.flatMap_append, List.filterMap_append, submitted_append, hlog,
    (transition_of_step hstep).submissions]

/-- The failures sent to the order management system are those of the answers. -/
theorem failures_of_run (hrun : run (new config) steps = some (threads, log)) :
    failedIds (log.flatMap sentToOms) = log.flatMap failed := by
  apply Machine.play_induction (motive := fun log _ ↦
    failedIds (log.flatMap sentToOms) = log.flatMap failed) rfl _ hrun
  intro first log current move next output hfirst hlog hstep
  rw [List.flatMap_append, List.flatMap_append, failedIds_append, hlog]
  congr 1
  apply (transition_of_step hstep).failures
  intro receiver event rest hsends
  exact failedId_of_run hfirst hsends

/-- Every submission was accepted, failed or is in flight. -/
theorem submitted_perm (hrun : run (new config) steps = some (threads, log)) :
    (submitted log).Perm (log.flatMap accepted ++ log.flatMap failed ++ threads.inFlight) := by
  have hrequests := Machine.perm_of_play
    (fun _ _ _ _ hstep ↦ (transition_of_step hstep).requests) rfl hrun
  rw [← requested_submissions hrun]
  apply (hrequests.filterMap _).trans
  rw [List.filterMap_append]
  exact (answered_perm log).append_right _

omit [F64Format F] [Neg F] [LE F] [DecidableLE F] [DecidableEq F] in
theorem OmsRuns.nodup_submitted (hruns : threads.OmsRuns log)
    (hfew : (submitted log).length < 2 ^ 64) : (submitted log).Nodup := by
  obtain ⟨-, -, -, heffects⟩ | ⟨oms, omsConfig, _, _, _, -, -, -, hcycle⟩ := hruns
  · simp [submitted, heffects, submittedIds]
  · unfold submitted at hfew ⊢
    rw [OrderManagementSystem.length_submittedIds hcycle] at hfew
    exact OrderManagementSystem.nodup_submittedIds hcycle hfew

/-- In every interleaving, while the link ids have not wrapped: a submitted id is in flight,
accepted or failed, exactly one of these and once; and the order management system is told of each
failed one, once and in the order of the answers, and of no other. -/
theorem submissions_accounted (hrun : run (new config) steps = some (threads, log))
    (hfew : (submitted log).length < 2 ^ 64) :
    (submitted log).Perm (log.flatMap accepted ++ log.flatMap failed ++ threads.inFlight) ∧
    (log.flatMap accepted ++ log.flatMap failed ++ threads.inFlight).Nodup ∧
    failedIds (log.flatMap takenByOms) ++ failedIds threads.orderEvents = log.flatMap failed := by
  have hperm := submitted_perm hrun
  refine ⟨hperm, hperm.nodup_iff.mp ((omsRuns_of_run hrun).nodup_submitted hfew), ?_⟩
  rw [← failures_of_run hrun, ← failedIds_append, orderEvents_of_run hrun]

theorem submissions_accounted_sample : ∃ threads log,
    run (new sampleConfig) sampleSteps = some (threads, log) ∧
    (submitted log).Perm ([] ++ [91] ++ threads.inFlight) ∧ ([91] ++ threads.inFlight).Nodup ∧
    failedIds (log.flatMap takenByOms) ++ failedIds threads.orderEvents = [91] := by
  have hsample : (run (new sampleConfig) sampleSteps).any fun result ↦
      decide ((submitted result.2).length < 2 ^ 64) &&
        decide (result.2.flatMap accepted = [] ∧ result.2.flatMap failed = [91]) := by
    decide +kernel
  obtain ⟨⟨threads, log⟩, hrun, hfacts⟩ := (Option.any_eq_true ..).mp hsample
  simp only [Bool.and_eq_true, decide_eq_true_eq] at hfacts
  obtain ⟨hfew, haccepted, hfailed⟩ := hfacts
  obtain ⟨hperm, hnodup, hevents⟩ := submissions_accounted hrun hfew
  rw [haccepted, hfailed] at hperm hnodup
  exact ⟨threads, log, hrun, hperm, hnodup, hevents.trans hfailed⟩

/-- A failure that the order management system took is the failure of an id submitted before. -/
theorem submitted_of_taken (hrun : run (new config) steps = some (threads, log)) {id : UInt64}
    (hmem : id ∈ failedIds (log.flatMap takenByOms)) : id ∈ submitted log := by
  have hfailed : id ∈ log.flatMap failed := by
    rw [← failures_of_run hrun, orderEvents_of_run hrun, failedIds_append]
    exact List.mem_append_left _ hmem
  apply (submitted_perm hrun).mem_iff.mpr
  exact List.mem_append_left _ (List.mem_append_right _ hfailed)

/-- The order updates taken carry a status of the exchange, which never reports an order as
submitted. -/
def ExchangeStatuses (log : List (Activity F)) : Prop :=
  ∀ update, .orderUpdate update ∈ log.flatMap takenByOms → update.orderStatus ≠ .submitted

/-- An order that waits for an answer was not told to have failed. -/
theorem waiting_of_run (hrun : run (new config) steps = some (threads, log))
    (hfew : (submitted log).length < 2 ^ 64) (hstatus : ExchangeStatuses log) :
    ∀ oms, threads.oms = some oms → ∀ stored ∈ oms.orders, stored.orderStatus = .submitted →
      stored.orderLinkId ∉ failedIds (log.flatMap takenByOms) := by
  revert hfew hstatus
  apply Machine.play_induction (motive := fun log threads ↦
    (submitted log).length < 2 ^ 64 → ExchangeStatuses log →
    ∀ oms, threads.oms = some oms → ∀ stored ∈ oms.orders, stored.orderStatus = .submitted →
      stored.orderLinkId ∉ failedIds (log.flatMap takenByOms)) _ _ hrun
  · intro _ _ oms homs
    cases homs
  · intro first log current move next output hfirst hbefore hstep hfew hstatus oms homs stored hmem
      hwaits
    have htransition := transition_of_step hstep
    have hlength : (submitted log).length < 2 ^ 64 := by
      rw [submitted_append, List.length_append] at hfew
      omega
    have hstatusBefore : ExchangeStatuses log := by
      intro update hupdate
      apply hstatus update
      rw [List.flatMap_append]
      exact List.mem_append_left _ hupdate
    rw [List.flatMap_append, failedIds_append, List.mem_append, not_or]
    obtain ⟨hsame, -, hnoInput, -⟩ | ⟨omsConfig, _, _, _, -, hnew, -⟩ |
      ⟨before, after, input, effects, hbeforeOms, hafterOms, hturn, -, hinput, heffects⟩ :=
      htransition.oms
    · -- no turn of the order management system
      refine ⟨hbefore hlength hstatusBefore oms (hsame ▸ homs) stored hmem hwaits, ?_⟩
      rw [takenByOms_eq, hnoInput]
      exact List.not_mem_nil
    · -- its construction
      obtain rfl := Option.some.inj (hnew.symm.trans homs)
      cases hmem
    · obtain rfl := Option.some.inj (hafterOms.symm.trans homs)
      have htaken : output.flatMap takenByOms = input.taken := by
        rw [takenByOms_eq, hinput]
        exact List.append_nil _
      have hruns := omsRuns_of_run hfirst
      obtain ⟨hnone, -⟩ | ⟨_, omsConfig, _, _, _, hsome, -, -, hcycle⟩ := hruns
      · simp [hnone] at hbeforeOms
      obtain rfl := Option.some.inj (hbeforeOms.symm.trans hsome)
      have horders : before.orders.length ≤ 2 ^ 64 := by
        rw [← OrderManagementSystem.length_submittedIds hcycle]
        exact hlength.le
      rw [htaken]
      obtain ⟨hheld, hnot⟩ | ⟨hsubmitted, hnone⟩ :=
        (OrderManagementSystem.transition_of_step hturn).waiting_cases
          (OrderManagementSystem.indexed_of_cycle hcycle) horders (by
            intro update hupdate
            apply hstatus update
            rw [List.flatMap_append, htaken]
            exact List.mem_append_right _ hupdate) hmem hwaits
      · exact ⟨hbefore hlength hstatusBefore before hbeforeOms stored hheld hwaits, hnot⟩
      · -- a new id was not submitted before, and a failure is that of a submitted id
        refine ⟨?_, by simp [hnone, failedIds]⟩
        intro hfailed
        have hnodup := ((omsRuns_of_run hfirst).after htransition).nodup_submitted hfew
        rw [submitted_append] at hnodup
        apply (List.nodup_append.mp hnodup).2.2 _ (submitted_of_taken hfirst hfailed)
          stored.orderLinkId _ rfl
        simpa [submitted, heffects] using hsubmitted

/-- In every interleaving an order that waits for an answer was accepted by the exchange, or its
request is in flight, or its failure is on the way to the order management system. -/
theorem no_order_stuck (hrun : run (new config) steps = some (threads, log))
    (hfew : (submitted log).length < 2 ^ 64) (hstatus : ExchangeStatuses log)
    {oms : OrderManagementSystem F} (homs : threads.oms = some oms) {stored : Order F}
    (hmem : stored ∈ oms.orders) (hwaits : stored.orderStatus = .submitted) :
    stored.orderLinkId ∈ log.flatMap accepted ∨ stored.orderLinkId ∈ threads.inFlight ∨
      .submissionFailed stored.orderLinkId ∈ threads.orderEvents := by
  have hsubmitted : stored.orderLinkId ∈ submitted log := by
    obtain ⟨hnone, -⟩ | ⟨_, omsConfig, _, _, _, hsome, -, -, hcycle⟩ := omsRuns_of_run hrun
    · simp [hnone] at homs
    · obtain rfl := Option.some.inj (homs.symm.trans hsome)
      obtain ⟨builder, hsubmit, -⟩ := OrderManagementSystem.exists_submitOrder hcycle hmem
      exact List.mem_filterMap.mpr ⟨_, hsubmit, rfl⟩
  rw [(submitted_perm hrun).mem_iff, List.mem_append, List.mem_append] at hsubmitted
  obtain (haccepted | hfailed) | hinFlight := hsubmitted
  · exact .inl haccepted
  · rw [← failures_of_run hrun, orderEvents_of_run hrun, failedIds_append,
      List.mem_append] at hfailed
    obtain htaken | hqueued := hfailed
    · exact absurd htaken (waiting_of_run hrun hfew hstatus oms homs stored hmem hwaits)
    · right
      right
      obtain ⟨event, hevent, hid⟩ := List.mem_filterMap.mp hqueued
      cases event with
      | submissionFailed orderLinkId =>
        obtain rfl := Option.some.inj hid
        exact hevent
      | orderUpdate | executionUpdate => cases hid
  · exact .inr (.inl hinFlight)

theorem no_order_stuck_sample : ∃ threads log,
    run (new sampleConfig) sampleSteps = some (threads, log) ∧
    ((90 : UInt64) ∈ log.flatMap accepted ∨ 90 ∈ threads.inFlight ∨
      .submissionFailed 90 ∈ threads.orderEvents) := by
  have hsample : (run (new sampleConfig) sampleSteps).any fun result ↦
      decide ((submitted result.2).length < 2 ^ 64) &&
        (result.2.flatMap takenByOms).all (fun event ↦ match event with
          | .orderUpdate update => update.orderStatus != .submitted
          | .executionUpdate _ | .submissionFailed _ => true) &&
        result.1.oms.any fun oms ↦ oms.orders.any fun stored ↦
          stored.orderLinkId == 90 && stored.orderStatus == .submitted := by
    decide +kernel
  obtain ⟨⟨threads, log⟩, hrun, hfacts⟩ := (Option.any_eq_true ..).mp hsample
  simp only [Bool.and_eq_true, decide_eq_true_eq] at hfacts
  obtain ⟨⟨hfew, hevents⟩, homs⟩ := hfacts
  obtain ⟨oms, homs, hstored⟩ := (Option.any_eq_true ..).mp homs
  obtain ⟨stored, hmem, hwaits⟩ := List.any_eq_true.mp hstored
  rw [Bool.and_eq_true, beq_iff_eq, beq_iff_eq] at hwaits
  obtain ⟨hid, hwaits⟩ := hwaits
  have hstatus : ExchangeStatuses log := by
    intro update hupdate
    simpa using List.all_eq_true.mp hevents _ hupdate
  rw [← hid]
  exact ⟨threads, log, hrun, no_order_stuck hrun hfew hstatus homs hmem hwaits⟩

end Threads

end MarketMaker
