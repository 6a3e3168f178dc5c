import MarketMaker.Exchange.OrderBody
import MarketMaker.Oms.System

/-!
# The gateway

A call on the gateway builds the body of a request and leaves the request to a task of its own,
which waits for the answer.  The body is checked while the caller waits, the answer after the caller
went on.  Only a submission reports its outcome, and only when the outcome is not a success; an
outcome is unknown when no readable answer arrives.

URL, signature and headers carry nothing back into the bot and are left out.
-/

namespace MarketMaker

variable {F : Type}

/-- The fields of an answer that are read. -/
structure CommonResponse where
  retCode : UInt32
  retMsg : String

inductive RequestOutcome
  | accepted
  | rejected (retCode : UInt32)
  | unknown
  deriving DecidableEq

/-- What sending a request leads to: an error of the transport, a status other than success, a body
that is no text, or a text with the answer read from it, if it could be read. -/
inductive HttpResult
  | transportError
  | failureStatus
  | unreadable
  | text (url : String) (content : Option CommonResponse)

/-- A request whose answer is awaited.  The link id of an amendment is only logged, and so is the
placeholder of a repayment. -/
inductive Request (F : Type)
  | submit (orderLinkId : UInt64) (body : SubmitOrderBody F)
  | amend (orderLinkId : UInt64) (body : AmendOrderBody F)
  | repay

namespace OrderHandler

/-- An unknown code is a panic. -/
def classifyResponse (content : CommonResponse) (url : String) : Except Panic RequestOutcome :=
  if content.retCode = 0 then .ok .accepted
  else if content.retCode ∈ [10001, 10002, 170194, 170193, 170213] then
    .ok (.rejected content.retCode)
  else if content.retCode ∈ [10000, 10016] then .ok (.rejected content.retCode)
  else .error (.message
    s!"Failed {url} request. Code: {content.retCode}. Msg: {content.retMsg}")

def sendRequest : HttpResult → Except Panic RequestOutcome
  | .transportError | .failureStatus | .unreadable | .text _ none => .ok .unknown
  | .text url (some content) => classifyResponse content url

def reportSubmissionOutcome (outcome : RequestOutcome) (orderLinkId : UInt64) :
    List (OrderEvent F) :=
  if outcome ≠ .accepted then [.submissionFailed orderLinkId] else []

def knownCodes : List UInt32 :=
  [0, 10001, 10002, 170194, 170193, 170213, 10000, 10016]

theorem exists_classifyResponse_iff {content : CommonResponse} {url : String} :
    (∃ outcome, classifyResponse content url = .ok outcome) ↔ content.retCode ∈ knownCodes := by
  unfold classifyResponse knownCodes
  split_ifs with hzero hknown hserver
  · simp [hzero]
  · simp only [Except.ok.injEq, exists_eq', true_iff]
    simp only [List.mem_cons] at hknown ⊢
    tauto
  · simp only [Except.ok.injEq, exists_eq', true_iff]
    simp only [List.mem_cons] at hserver ⊢
    tauto
  · simp only [exists_false, false_iff]
    simp only [List.mem_cons, List.not_mem_nil] at hknown hserver ⊢
    tauto

/-- A submission counts as accepted exactly if the answer was read and says so. -/
theorem sendRequest_eq_accepted {result : HttpResult} :
    sendRequest result = .ok .accepted ↔
      ∃ url content, result = .text url (some content) ∧ content.retCode = 0 := by
  cases result with
  | transportError | failureStatus | unreadable => simp [sendRequest]
  | text url content =>
    cases content with
    | none => simp [sendRequest]
    | some content =>
      simp only [sendRequest, classifyResponse, HttpResult.text.injEq, Option.some.injEq]
      split_ifs with hzero <;> simp [hzero]

section Dispatch

variable [F64 F] [F64Format F] [LT F] [DecidableLT F] [OfScientific F]

/-- The request that a call leads to; `forcePush` is no call on the gateway. -/
def dispatch : Effect F → Except Panic (Option (Request F))
  | .submitOrder order orderLinkId =>
    (submitOrderBody order orderLinkId).map fun body ↦ some (.submit orderLinkId body)
  | .amendOrder order => (amendOrderBody order).map fun body ↦ some (.amend order.orderLinkId body)
  | .repayLiability _ => .ok (some .repay)
  | .forcePush _ => .ok none

end Dispatch

end OrderHandler

namespace Request

/-- The task of a request after its answer, with the outcome and the events reported. -/
def complete (request : Request F) (result : HttpResult) :
    Except Panic (RequestOutcome × List (OrderEvent F)) :=
  (OrderHandler.sendRequest result).map fun outcome ↦ (outcome, match request with
    | .submit orderLinkId _ => OrderHandler.reportSubmissionOutcome outcome orderLinkId
    | .amend _ _ | .repay => [])

def submission : Request F → Option UInt64
  | .submit orderLinkId _ => some orderLinkId
  | .amend _ _ | .repay => none

/-- The link id of a submission that was not accepted. -/
def failure (request : Request F) (outcome : RequestOutcome) : Option UInt64 :=
  request.submission.filter fun _ ↦ decide (outcome ≠ .accepted)

/-- An answer leads to the failure event of a submission that was not accepted, or to nothing. -/
theorem complete_eq_ok {request : Request F} {result : HttpResult} {outcome : RequestOutcome}
    {events : List (OrderEvent F)} (hcomplete : request.complete result = .ok (outcome, events)) :
    events = (request.failure outcome).toList.map OrderEvent.submissionFailed := by
  cases hresult : OrderHandler.sendRequest result with
  | error panic => simp [complete, hresult, Except.map] at hcomplete
  | ok sent =>
    simp only [complete, hresult, Except.map, Except.ok.injEq, Prod.mk.injEq] at hcomplete
    obtain ⟨rfl, rfl⟩ := hcomplete
    cases request with
    | submit orderLinkId body =>
      by_cases haccepted : sent = .accepted <;>
        simp [failure, submission, OrderHandler.reportSubmissionOutcome, haccepted, Option.filter]
    | amend orderLinkId body => rfl
    | repay => rfl

end Request

end MarketMaker
