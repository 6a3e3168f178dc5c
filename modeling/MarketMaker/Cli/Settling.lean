import MarketMaker.Cli.Progress
import MarketMaker.Cli.Submissions
import MarketMaker.Foundation.Settling

/-!
# The bot settles

When nothing comes from outside but the answers to its own requests and the strategy does not
iterate, the bot works off what is on its way.  Every order of the steps ends, after a number of
steps that is known beforehand, and behind the last one every channel is empty: each order was
forwarded, each event was taken by both receivers and each submission was answered.
-/

namespace MarketMaker

variable {F : Type}

/-- What a request still leads to: its answer, and for a submission an event. -/
def Request.work (request : Request F) : ℕ := 1 + 2 * request.submission.toList.length

theorem Request.work_le (request : Request F) : request.work ≤ 3 := by
  cases request <;> simp [work, submission]

def requestsWork (requests : List (Request F)) : ℕ := (requests.map Request.work).sum

theorem requestsWork_append (first second : List (Request F)) :
    requestsWork (first ++ second) = requestsWork first + requestsWork second := by
  simp [requestsWork]

/-- What the phase of the recorder adds when a book waits in its queue or does not. -/
def RecorderPhase.work (full : Bool) : RecorderPhase → ℕ
  | .polling => 1
  | .receiving => if full then 2 else 0
  | .returned => 0

/-- A book that is pushed keeps the recorder busy for two steps at most. -/
theorem RecorderPhase.work_push (phase : RecorderPhase) (full : Bool) :
    phase.work true ≤ phase.work full + 2 := by
  cases phase <;> cases full <;> decide

namespace Threads

/-- The work on its way.  A send to a queue weighs more than what it leaves there. -/
def work (threads : Threads F) : ℕ :=
  3 * threads.publications.length + 3 * (threads.privateSends.getD []).length +
    4 * threads.strategyOrders.length + 2 * threads.orderEvents.length +
    requestsWork threads.requests + 2 * threads.recorderEvents.length +
    threads.recorderPhase.work threads.orderBookQueue.isSome

/-- The steps that work off what is on its way. -/
def Works (threads : Threads F) : ThreadStep F → Prop
  | .publicSend | .privateSend | .takeOrder | .takeEvent | .answer _ _ => True
  | .pollOrderBook | .receiveEvent =>
    threads.orderBookQueue ≠ none ∨ threads.recorderEvents ≠ []
  | _ => False

/-- Nothing is on its way.  Only a recorder that has returned leaves a book in its queue. -/
structure Settled (threads : Threads F) : Prop where
  publications : threads.publications = []
  privateSends : threads.privateSends = none ∨ threads.privateSends = some []
  strategyOrders : threads.strategyOrders = []
  orderEvents : threads.orderEvents = []
  requests : threads.requests = []
  recorderEvents : threads.recorderEvents = []
  orderBookQueue : threads.orderBookQueue = none ∨ threads.recorderPhase = .returned

/-- An answer leads to fewer events than its request was counted for. -/
theorem requestsWork_of_answer {index : ℕ} {pending : List (Request F)} {request : Request F}
    {result : HttpResult} {outcome : RequestOutcome} {events : List (OrderEvent F)}
    (hrequest : pending[index]? = some request)
    (hanswer : request.complete result = .ok (outcome, events)) :
    requestsWork (pending.eraseIdx index) + 2 * events.length < requestsWork pending := by
  obtain ⟨hlt, rfl⟩ := List.getElem?_eq_some_iff.mp hrequest
  have hsum : pending[index].work + requestsWork (pending.eraseIdx index) =
      requestsWork pending := ((List.getElem_cons_eraseIdx_perm hlt).map Request.work).sum_eq
  have hevents : events.length ≤ pending[index].submission.toList.length := by
    obtain rfl := Request.complete_eq_ok hanswer
    rw [List.length_map, pending[index].submission_eq outcome, List.length_append]
    omega
  rw [← hsum, Request.work]
  omega

section Lowers

variable [F64 F] [F64Format F] [Add F] [Sub F] [Mul F] [Div F] [Neg F] [LT F] [DecidableLT F]
  [LE F] [DecidableLE F] [BEq F] [DecidableEq F] [OfScientific F]

variable {threads next : Threads F} {move : ThreadStep F} {log : List (Activity F)}
  {oms after : OrderManagementSystem F} {effects : List (Effect F)}
  {requests : List (Option (Request F))}

omit [Neg F] [LE F] [DecidableLE F] [DecidableEq F] in
/-- A forward makes one call on the gateway at most. -/
theorem requestsWork_of_forward {policy : RiskPolicy F} {order : OrderBuilder F}
    (hturn : oms.Transition (.forward policy order) after effects)
    (hrequests : effects.mapM OrderHandler.dispatch = .ok requests) :
    requestsWork requests.reduceOption ≤ 3 := by
  cases hturn with
  | hold =>
    obtain rfl := Except.ok.inj hrequests
    exact Nat.zero_le 3
  | submit | amend =>
    simp only [List.mapM_cons, List.mapM_nil, OrderHandler.dispatch, bind_eq_ok,
      map_eq_ok] at hrequests
    obtain ⟨_, ⟨body, -, rfl⟩, _, hnil, heq⟩ := hrequests
    obtain rfl := Except.ok.inj hnil
    obtain rfl := Except.ok.inj heq
    exact Request.work_le _

omit [Neg F] [LE F] [DecidableLE F] [DecidableEq F] in
/-- An event leads to a repayment at most. -/
theorem requestsWork_of_event {event : OrderEvent F}
    (hturn : oms.Transition (.event event) after effects)
    (hrequests : effects.mapM OrderHandler.dispatch = .ok requests) :
    requestsWork requests.reduceOption ≤ 1 := by
  cases hturn with
  | update | failure | discard =>
    obtain rfl := Except.ok.inj hrequests
    exact Nat.zero_le 1
  | execution =>
    unfold OrderManagementSystem.settlement at hrequests
    split_ifs at hrequests <;> obtain rfl := Except.ok.inj hrequests
    · exact Nat.le_refl 1
    · exact Nat.zero_le 1

/-- A step that works lowers the measure. -/
theorem Transition.work_lt (htransition : threads.Transition move next log)
    (hworks : threads.Works move) : next.work < threads.work := by
  cases htransition with
  | publish hnext =>
    simp only [work, hnext, List.length_cons]
    omega
  | push hnext =>
    have hpush := threads.recorderPhase.work_push threads.orderBookQueue.isSome
    simp only [work, hnext, List.length_cons, Option.isSome_some]
    omega
  | sendToOms hnext | sendToRecorder hnext =>
    simp only [work, hnext, Option.getD_some, List.length_cons, List.length_append,
      List.length_nil]
    omega
  | takeOrder homs hnext hturn hrequests =>
    have hadded := requestsWork_of_forward
      (OrderManagementSystem.transition_of_step hturn) hrequests
    simp only [work, hnext, List.length_cons, requestsWork_append]
    omega
  | takeEvent homs hnext hturn hrequests =>
    have hadded := requestsWork_of_event
      (OrderManagementSystem.transition_of_step hturn) hrequests
    simp only [work, hnext, List.length_cons, requestsWork_append]
    omega
  | answer hrequest hanswer =>
    have hanswered := requestsWork_of_answer hrequest hanswer
    simp only [work, List.length_append]
    omega
  | pollEmpty hphase hempty =>
    simp only [work, hphase, hempty, Option.isSome_none, RecorderPhase.work,
      Bool.false_eq_true, if_false]
    omega
  | pollOrderBook hphase hfull hprocess =>
    simp only [work, hphase, Option.isSome_none, RecorderPhase.work, Bool.false_eq_true, if_false]
    omega
  | receiveEvent hphase hnext =>
    simp only [work, hphase, hnext, List.length_cons, RecorderPhase.work]
    omega
  | timeout hphase hempty hconnected | disconnect hphase hempty hreturned =>
    -- without an event only a book that waits makes the receive work
    have hfull : threads.orderBookQueue.isSome :=
      Option.isSome_iff_ne_none.mpr (hworks.resolve_right (by simp [hempty]))
    simp only [work, hphase, hfull, RecorderPhase.work, if_true]
    omega
  | _ => cases hworks

/-- The order management system, once constructed, stays. -/
theorem isSome_oms_of_run {final : Threads F} {steps : List (ThreadStep F)}
    (hrun : run threads steps = some (final, log)) (homs : threads.oms.isSome) :
    final.oms.isSome := by
  apply Machine.play_history (motive := fun _ current ↦ current.oms.isSome) homs _ hrun
  intro _ current move next output hcurrent hstep
  cases transition_of_step hstep with
  | takeOrder | takeEvent | constructOms => rfl
  | _ => exact hcurrent

end Lowers

/-! ## Where the work ends -/

open Activity

/-- Everything that was sent was taken and everything that was submitted was answered. -/
structure Accounted (log : List (Activity F)) : Prop where
  orders : log.flatMap forwarded = log.flatMap issued
  events : log.flatMap takenByOms = log.flatMap sentToOms
  recorderEvents : log.flatMap takenByRecorder = log.flatMap sentToRecorder
  submissions : (submitted log).Perm (log.flatMap accepted ++ log.flatMap failed)

/-- A step of the bot's own work, for which the promises are kept. -/
def Own (threads : Threads ℚ) (move : ThreadStep ℚ) : Prop :=
  threads.Works move ∧ threads.Promised move

variable {threads final : Threads ℚ} {log output : List (Activity ℚ)} {config : AppConfig ℚ}
  {steps later : List (ThreadStep ℚ)}

/-- Where no own step can be taken, nothing is on its way. -/
theorem Sound.settled (hsound : threads.Sound) (hsize : 0 < threads.config.orderSize)
    (homs : threads.oms.isSome)
    (hreturned : threads.recorderPhase = .returned →
      threads.recorderEvents = [] ∧ threads.privateSends = none)
    (hexhausted : Machine.Exhausted Threads.step Own threads) : threads.Settled := by
  have hstuck : ∀ move, threads.Works move → threads.Promised move → ¬threads.Ready move := by
    intro move hworks hpromised hready
    have hstep := hsound.step hsize hpromised hready
    rw [hexhausted move ⟨hworks, hpromised⟩] at hstep
    cases hstep
  have hrecorder : threads.orderBookQueue ≠ none ∨ threads.recorderEvents ≠ [] →
      threads.recorderPhase = .returned := by
    intro hwaits
    cases hphase : threads.recorderPhase with
    | polling => exact absurd hphase (hstuck .pollOrderBook hwaits trivial)
    | receiving => exact absurd hphase (hstuck .receiveEvent hwaits trivial)
    | returned => rfl
  constructor
  · by_contra hnext
    exact hstuck .publicSend trivial trivial hnext
  · cases hsends : threads.privateSends with
    | none => exact .inl rfl
    | some sends =>
      cases sends with
      | nil => exact .inr rfl
      | cons send rest =>
        exact absurd ⟨send, rest, hsends⟩ (hstuck .privateSend trivial trivial)
  · by_contra hnext
    exact hstuck .takeOrder trivial trivial ⟨homs, hnext⟩
  · by_contra hnext
    exact hstuck .takeEvent trivial trivial ⟨homs, hnext⟩
  · by_contra hpending
    have hanswer : threads.Promised (.answer 0 .transportError) := by
      intro url content hresult
      cases hresult
    exact hstuck (.answer 0 .transportError) trivial hanswer (List.length_pos_iff.mpr hpending)
  · by_contra hwaits
    exact hwaits (hreturned (hrecorder (.inr hwaits))).1
  · by_cases hempty : threads.orderBookQueue = none
    · exact .inl hempty
    · exact .inr (hrecorder (.inl hempty))

/-- The log of a settled bot is accounted for. -/
theorem Settled.accounted (hrun : run (new config) steps = some (threads, log))
    (hsettled : threads.Settled) : Accounted log := by
  constructor
  · rw [strategyOrders_of_run hrun, hsettled.strategyOrders, List.append_nil]
  · rw [orderEvents_of_run hrun, hsettled.orderEvents, List.append_nil]
  · rw [recorderEvents_of_run hrun, hsettled.recorderEvents, List.append_nil]
  · have hperm := submitted_perm hrun
    rwa [inFlight, hsettled.requests, List.filterMap_nil, List.append_nil] at hperm

/-- In every state that an interleaving reaches while the promises are kept, the bot's own work runs
out: no order of own steps is longer than the work there is, there is one after which no own step
can be taken, and after each of those every channel is empty and everything is accounted for. -/
theorem work_runs_out (hsize : 0 < config.orderSize)
    (hrun : run (new config) steps = some (threads, log))
    (hpromised : Machine.Along step (fun current move _ ↦ current.Promised move) (new config) steps)
    (homs : threads.oms.isSome) :
    (∃ later final output, run threads later = some (final, output) ∧
      Machine.Internally step Own threads later ∧ Machine.Exhausted step Own final) ∧
    ∀ later final output, run threads later = some (final, output) →
      Machine.Internally step Own threads later →
      later.length + final.work ≤ threads.work ∧
        (Machine.Exhausted step Own final → final.Settled ∧ Accounted (log ++ output)) := by
  have hlowers : Machine.Lowers step Own work :=
    fun _ _ _ _ hown hstep ↦ (transition_of_step hstep).work_lt hown.1
  refine ⟨hlowers.exists_exhausted threads, ?_⟩
  intro later final output hlater howned
  refine ⟨hlowers.length_add_le hlater howned, ?_⟩
  intro hexhausted
  have hwhole : run (new config) (steps ++ later) = some (final, log ++ output) :=
    Machine.play_append hrun hlater
  have hsound : final.Sound :=
    (sound_of_run hrun hpromised).of_run (fun _ _ _ hown ↦ hown.2) hlater howned
  have hsettled := hsound.settled (by rw [config_of_run hwhole]; exact hsize)
    (isSome_oms_of_run hlater homs) (returned_of_run hwhole) hexhausted
  exact ⟨hsettled, hsettled.accounted hwhole⟩

/-- The sample run leaves eight steps of work at most. -/
theorem work_runs_out_sample : ∃ threads log,
    run (new sampleConfig) sampleWork = some (threads, log) ∧ threads.requests.length = 1 ∧
    threads.orderEvents.length = 1 ∧ threads.recorderEvents.length = 1 ∧
    ∃ later final output, run threads later = some (final, output) ∧ later.length ≤ 8 ∧
      final.Settled ∧ Accounted (log ++ output) := by
  have hsample : (run (new sampleConfig) sampleWork).any fun result ↦
      result.1.oms.isSome && decide (result.1.work = 8) &&
        decide (result.1.requests.length = 1) && decide (result.1.orderEvents.length = 1) &&
        decide (result.1.recorderEvents.length = 1) := by
    decide +kernel
  obtain ⟨⟨threads, log⟩, hrun, hfacts⟩ := (Option.any_eq_true ..).mp hsample
  simp only [Bool.and_eq_true, decide_eq_true_eq] at hfacts
  obtain ⟨⟨⟨⟨homs, hwork⟩, hrequests⟩, hevents⟩, hqueued⟩ := hfacts
  obtain ⟨⟨later, final, output, hlater, howned, hexhausted⟩, hall⟩ :=
    work_runs_out (by norm_num [sampleConfig]) hrun along_sampleWork homs
  obtain ⟨hbound, hends⟩ := hall later final output hlater howned
  have hlength : later.length ≤ 8 := by omega
  exact ⟨threads, log, hrun, hrequests, hevents, hqueued, later, final, output, hlater, hlength,
    hends hexhausted⟩

end Threads

end MarketMaker
