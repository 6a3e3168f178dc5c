import MarketMaker.Cli.Delivery
import MarketMaker.Recorder.Horizons

/-!
# No fill is lost to the recorder

The private stream sends an execution to the order management system and then to the recorder.  Both
receive the same executions in the same order, and between two entries of a message neither is
ahead.  Whatever the interleaving, a fill that the order management system took is on its way to the
recorder, or waits for its markout, or was logged with one, and never twice.
-/

namespace MarketMaker

variable {F : Type}

namespace PrivateWebSocket

/-- The sends that remain between two entries of a message: an order goes to the order management
system, an execution to both receivers. -/
inductive Aligned : List (PrivateSend F) → Prop
  | nil : Aligned []
  | order {event rest} (hevent : ∀ update, event = some update → update.execution = none)
      (hrest : Aligned rest) : Aligned ((.oms, event) :: rest)
  | execution {event rest}
      (hevent : ∀ update, event = some update → ∃ execution, update = .executionUpdate execution)
      (hrest : Aligned rest) : Aligned ((.oms, event) :: (.recorder, event) :: rest)

/-- The end of a message begins between two entries, or between the two sends of an execution. -/
theorem Aligned.of_suffix {sends remaining : List (PrivateSend F)} (haligned : Aligned sends)
    (hsuffix : remaining <:+ sends) :
    Aligned remaining ∨ ∃ event rest, remaining = (.recorder, event) :: rest ∧ Aligned rest ∧
      ∀ update, event = some update → ∃ execution, update = .executionUpdate execution := by
  induction haligned with
  | nil =>
    left
    rw [List.suffix_nil.mp hsuffix]
    exact .nil
  | order hevent hrest ih =>
    obtain rfl | hsuffix := List.suffix_cons_iff.mp hsuffix
    · exact .inl (.order hevent hrest)
    · exact ih hsuffix
  | execution hevent hrest ih =>
    obtain rfl | hsuffix := List.suffix_cons_iff.mp hsuffix
    · exact .inl (.execution hevent hrest)
    · obtain rfl | hsuffix := List.suffix_cons_iff.mp hsuffix
      · exact .inr ⟨_, _, rfl, hrest, hevent⟩
      · exact ih hsuffix

variable [F64 F]

theorem execution_fromOrder {src : BybitOrder} {event : OrderEvent F}
    (hevent : OrderEvent.fromOrder src = some event) : event.execution = none := by
  simp only [OrderEvent.fromOrder, bind, Option.bind_eq_some_iff, pure, Option.some.injEq] at hevent
  obtain ⟨_, -, _, -, _, -, _, -, _, -, _, -, rfl⟩ := hevent
  rfl

theorem execution_fromExecution [OfScientific F] {src : Execution} {event : OrderEvent F}
    (hevent : OrderEvent.fromExecution src = some event) :
    ∃ execution, event = .executionUpdate execution := by
  simp only [OrderEvent.fromExecution, bind, Option.bind_eq_some_iff, pure,
    Option.some.injEq] at hevent
  obtain ⟨_, -, _, -, _, -, _, -, _, -, _, -, _, -, rfl⟩ := hevent
  exact ⟨_, rfl⟩

theorem aligned_sends [OfScientific F] (response : PrivateResponse) :
    Aligned (sends response : List (PrivateSend F)) := by
  cases response with
  | order data =>
    simp only [sends, entrySends]
    induction data.filter fun entry ↦ entry.orderLinkId ≠ "" with
    | nil => exact .nil
    | cons entry rest ih => exact .order (fun _ hevent ↦ execution_fromOrder hevent) ih
  | execution data =>
    simp only [sends, entrySends]
    induction data.filter fun entry ↦ entry.orderLinkId ≠ "" with
    | nil => exact .nil
    | cons entry rest ih => exact .execution (fun _ hevent ↦ execution_fromExecution hevent) ih
  | op | pong | other => exact .nil

end PrivateWebSocket

theorem executions_complete {request : Request F} {result : HttpResult}
    {outcome : RequestOutcome} {events : List (OrderEvent F)}
    (hanswer : request.complete result = .ok (outcome, events)) : executions events = [] := by
  rw [Request.complete_eq_ok hanswer, executions, List.filterMap_map, List.filterMap_eq_nil_iff]
  exact fun _ _ ↦ rfl

namespace Threads

open Activity PrivateWebSocket

/-- The executions registered by the recorder are those of the events it took. -/
theorem registered_eq (log : List (Activity F)) :
    (log.flatMap markoutInput).filterMap MarkoutInput.execution =
      executions (log.flatMap takenByRecorder) := by
  rw [executions, List.filterMap_flatMap, List.filterMap_flatMap]
  congr 1
  funext activity
  cases activity with
  | handled event => cases event <;> rfl
  | _ => rfl

/-- The execution that the order management system was sent and the recorder was not yet. -/
def owed (threads : Threads F) : List (OrderExecution F) :=
  match threads.privateSends with
  | some ((.recorder, event) :: _) => (event.bind OrderEvent.execution).toList
  | _ => []

theorem owed_of_aligned {threads : Threads F} {sends : List (PrivateSend F)}
    (hsends : threads.privateSends = some sends) (haligned : Aligned sends) :
    threads.owed = [] := by
  unfold owed
  rw [hsends]
  cases haligned <;> rfl

variable [F64 F] [F64Format F] [Add F] [Sub F] [Mul F] [Div F] [Neg F] [LT F] [DecidableLT F]
  [LE F] [DecidableLE F] [BEq F] [DecidableEq F] [OfScientific F]

variable {threads next : Threads F} {move : ThreadStep F} {log : List (Activity F)}
  {config : AppConfig F} {steps : List (ThreadStep F)}

/-- What is owed is a queue between the executions sent to the order management system and those
sent to the recorder. -/
theorem Transition.owed (htransition : threads.Transition move next log)
    (hsends : ∀ sends, threads.privateSends = some sends →
      ∃ response, sends <:+ PrivateWebSocket.sends response) :
    threads.owed ++ executions (log.flatMap sentToOms) =
      executions (log.flatMap sentToRecorder) ++ next.owed := by
  cases htransition with
  | privateResponse hidle =>
    rw [owed_of_aligned hidle .nil, owed_of_aligned rfl (aligned_sends _)]
    rfl
  | @sendToOms event rest hnext =>
    obtain ⟨response, hsuffix⟩ := hsends _ hnext
    obtain haligned | ⟨_, _, heq, -⟩ := (aligned_sends response).of_suffix hsuffix
    · rw [owed_of_aligned hnext haligned]
      cases haligned with
      | order hevent hrest =>
        rw [owed_of_aligned rfl hrest]
        simp [sentToOms, sentToRecorder, executions_eq, hevent event rfl]
      | execution hevent hrest =>
        obtain ⟨execution, rfl⟩ := hevent event rfl
        rfl
    · cases heq
  | @sendToRecorder event rest hnext =>
    obtain ⟨response, hsuffix⟩ := hsends _ hnext
    obtain haligned | ⟨_, _, heq, hrest, hevent⟩ := (aligned_sends response).of_suffix hsuffix
    · cases haligned
    · obtain ⟨hhead, rfl⟩ := List.cons.inj heq
      obtain ⟨-, rfl⟩ := Prod.mk.inj hhead
      obtain ⟨execution, rfl⟩ := hevent event rfl
      have howed : threads.owed = [execution] := by
        unfold Threads.owed
        rw [hnext]
        rfl
      rw [howed, owed_of_aligned rfl hrest]
      rfl
  | privateReturn hidle =>
    rw [owed_of_aligned hidle .nil]
    rfl
  | @answer _ request _ outcome events _ hanswer =>
    have hnone :
        executions ([Activity.answered request outcome events].flatMap sentToOms) = [] := by
      simpa [sentToOms] using executions_complete hanswer
    rw [hnone]
    exact List.append_nil _
  | _ => exact List.append_nil _

/-- The executions sent to the order management system are those sent to the recorder and the one
that is owed. -/
theorem executions_mirrored (hrun : run (new config) steps = some (threads, log)) :
    executions (log.flatMap sentToOms) =
      executions (log.flatMap sentToRecorder) ++ threads.owed := by
  apply Machine.play_induction (motive := fun log threads ↦
    executions (log.flatMap sentToOms) =
      executions (log.flatMap sentToRecorder) ++ threads.owed) rfl _ hrun
  intro first log current move next output hfirst hlog hstep
  rw [List.flatMap_append, List.flatMap_append, executions_append, executions_append, hlog,
    List.append_assoc, (transition_of_step hstep).owed (sends_of_run hfirst), List.append_assoc]

/-! ## The recorder -/

/-- The recorder returns only after its last event. -/
theorem returned_of_run (hrun : run (new config) steps = some (threads, log))
    (hreturned : threads.recorderPhase = .returned) :
    threads.recorderEvents = [] ∧ threads.privateSends = none := by
  revert hreturned
  apply Machine.play_history (motive := fun _ threads ↦ threads.recorderPhase = .returned →
    threads.recorderEvents = [] ∧ threads.privateSends = none) _ _ hrun
  · intro hphase
    cases hphase
  · intro log current move next output hbefore hstep hphase
    cases transition_of_step hstep with
    | disconnect hphase hempty hreturned => exact ⟨hempty, hreturned⟩
    | pollEmpty | pollOrderBook | receiveEvent | timeout => cases hphase
    | privateResponse hidle | sendToOms hidle | sendToRecorder hidle | privateReturn hidle =>
      rw [(hbefore hphase).2] at hidle
      cases hidle
    | _ => exact hbefore hphase

/-- In every interleaving the recorder is in the state of the markout engine on the events and the
books it took.  It took the events in the order of the sends, all of them before it returned; the
books it took were pushed in this order, and a book is only missed for a newer one. -/
theorem recorder_follows_channels (hrun : run (new config) steps = some (threads, log)) :
    Machine.run MarkoutEngine.step MarkoutEngine.new (log.flatMap markoutInput) =
      some (threads.recorder, log.flatMap markouts) ∧
    (log.flatMap markoutInput).filterMap MarkoutInput.execution =
      executions (log.flatMap takenByRecorder) ∧
    log.flatMap sentToRecorder = log.flatMap takenByRecorder ++ threads.recorderEvents ∧
    (threads.recorderPhase = .returned →
      threads.recorderEvents = [] ∧ threads.privateSends = none) ∧
    Machine.Tracks (log.flatMap pushedBook) (log.flatMap processedBook) threads.orderBookQueue :=
  ⟨recorder_of_run hrun, registered_eq log, recorderEvents_of_run hrun, returned_of_run hrun,
    orderBookQueue_of_run hrun⟩

theorem recorder_follows_channels_sample : ∃ threads log,
    run (new sampleConfig) sampleSteps = some (threads, log) ∧
    Machine.run MarkoutEngine.step MarkoutEngine.new (log.flatMap markoutInput) =
      some (threads.recorder, log.flatMap markouts) ∧
    log.flatMap sentToRecorder = log.flatMap takenByRecorder ++ threads.recorderEvents ∧
    Machine.Tracks (log.flatMap pushedBook) (log.flatMap processedBook)
      threads.orderBookQueue := by
  obtain ⟨threads, log, _, hrun, -⟩ := exists_sampleSteps
  obtain ⟨hengine, -, hevents, -, hbooks⟩ := recorder_follows_channels hrun
  exact ⟨threads, log, hrun, hengine, hevents, hbooks⟩

/-- The executions sent to the order management system are those that the recorder registered, those
queued for it and the one that is owed to it. -/
theorem executions_split (hrun : run (new config) steps = some (threads, log)) :
    executions (log.flatMap sentToOms) =
      (log.flatMap markoutInput).filterMap MarkoutInput.execution ++
        executions threads.recorderEvents ++ threads.owed := by
  rw [executions_mirrored hrun, recorderEvents_of_run hrun, executions_append, registered_eq]

/-- While executions have distinct ids, every fill that the order management system took is on its
way to the recorder, or waits for its markout until a processed book is ten seconds younger, or was
logged exactly once; and nothing but fills sent to the order management system is logged. -/
theorem fills_recorded_once (hrun : run (new config) steps = some (threads, log))
    (hdistinct : ((executions (log.flatMap sentToOms)).map OrderExecution.execId).Nodup) :
    (∀ execution ∈ executions (log.flatMap takenByOms),
      execution ∈ threads.owed ∨ execution ∈ executions threads.recorderEvents ∨
      ∃ before after, log.flatMap markoutInput = before ++ .updateTrades execution :: after ∧
        threads.recorder.pending execution.execId = pendingAfter execution after ∧
        (MarkoutEngine.returnedFor execution.execId (log.flatMap markouts).flatten).length =
          if (firstAt execution.execTs 10000 after).isSome then 1 else 0) ∧
    ∀ markout ∈ (log.flatMap markouts).flatten,
      markout.execId ∈ (executions (log.flatMap sentToOms)).map OrderExecution.execId := by
  have hengine := recorder_of_run hrun
  have hsplit := executions_split hrun
  have hregistered : (registrations (log.flatMap markoutInput)).Nodup := by
    rw [registrations_eq_map]
    rw [hsplit, List.map_append, List.map_append] at hdistinct
    exact hdistinct.of_append_left.of_append_left
  constructor
  · intro execution htaken
    have hsent : execution ∈ executions (log.flatMap sentToOms) := by
      rw [orderEvents_of_run hrun, executions_append]
      exact List.mem_append_left _ htaken
    rw [hsplit, List.mem_append, List.mem_append] at hsent
    obtain (hmem | hqueued) | howed := hsent
    · right
      right
      obtain ⟨input, hinput, hexecution⟩ := List.mem_filterMap.mp hmem
      cases input with
      | processOrderBook orderBook => cases hexecution
      | updateTrades other =>
        obtain rfl := Option.some.inj hexecution
        obtain ⟨before, after, hinputs⟩ := List.append_of_mem hinput
        rw [hinputs] at hregistered hengine
        obtain ⟨hbefore, hafter⟩ := notMem_of_nodup hregistered
        obtain ⟨-, hpending, hcount⟩ := MarkoutEngine.registered_at hbefore hafter hengine
        exact ⟨before, after, hinputs, hpending, hcount⟩
    · exact .inr (.inl hqueued)
    · exact .inl howed
  · intro markout hmem
    have hreturned :
        MarkoutEngine.returnedFor markout.execId (log.flatMap markouts).flatten ≠ [] := by
      apply List.ne_nil_of_mem
      exact List.mem_filter.mpr ⟨hmem, by simp⟩
    have hid : markout.execId ∈ registrations (log.flatMap markoutInput) := by
      by_contra hnot
      exact hreturned (MarkoutEngine.absent_of_run hengine hnot).2
    rw [registrations_eq_map] at hid
    rw [hsplit, List.map_append, List.map_append]
    exact List.mem_append_left _ (List.mem_append_left _ hid)

/-- A book that is ten seconds younger than the fill follows. -/
def sampleCompletion : List (ThreadStep ℚ) :=
  sampleSteps ++ [.publicResponse { PublicWebSocket.sampleSnapshot with ts := 13000 }, .publicSend,
    .publicSend, .pollOrderBook]

theorem fills_recorded_once_sample : ∃ threads log,
    run (new sampleConfig) sampleCompletion = some (threads, log) ∧
    ∃ execution ∈ executions (log.flatMap takenByOms),
      threads.recorder.pending execution.execId = none ∧
      (MarkoutEngine.returnedFor execution.execId (log.flatMap markouts).flatten).length = 1 := by
  have hsample : (run (new sampleConfig) sampleCompletion).any fun result ↦
      result.1.owed.isEmpty && (executions result.1.recorderEvents).isEmpty &&
        result.1.recorder.trades.isEmpty && !(executions (result.2.flatMap takenByOms)).isEmpty &&
        decide ((executions (result.2.flatMap sentToOms)).map OrderExecution.execId).Nodup := by
    decide +kernel
  obtain ⟨⟨threads, log⟩, hrun, hfacts⟩ := (Option.any_eq_true ..).mp hsample
  simp only [Bool.and_eq_true, List.isEmpty_iff, Bool.not_eq_true', List.isEmpty_eq_false_iff,
    decide_eq_true_eq] at hfacts
  obtain ⟨⟨⟨⟨howed, hqueued⟩, htrades⟩, htaken⟩, hdistinct⟩ := hfacts
  obtain ⟨execution, hmem⟩ := List.exists_mem_of_ne_nil _ htaken
  obtain howes | hqueue | ⟨before, after, -, hpending, hcount⟩ :=
    (fills_recorded_once hrun hdistinct).1 execution hmem
  · rw [howed] at howes
    cases howes
  · rw [hqueued] at hqueue
    cases hqueue
  · have hnone : threads.recorder.pending execution.execId = none := by
      rw [MarkoutEngine.pending, htrades]
      rfl
    have hreached : (firstAt execution.execTs 10000 after).isSome := by
      by_contra hopen
      rw [hnone, pendingAfter, if_neg hopen] at hpending
      cases hpending
    rw [if_pos hreached] at hcount
    exact ⟨threads, log, hrun, execution, hmem, hnone, hcount⟩

end Threads

end MarketMaker
