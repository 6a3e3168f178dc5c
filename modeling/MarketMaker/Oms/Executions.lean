import MarketMaker.Oms.OrderTable

/-!
# Every execution counts once

The ledger says what counting executions once means: it reads the transcript of a run and keeps the
ids handed to the gateway and the executions that count, those with an execution id, for an issued
order and not counted before.  The order management system refines it: its index knows the issued
ids, its set of processed executions the keys of the counted ones, and its metrics, inventory pushes
and repayments are those of the counted executions in arrival order.
-/

namespace MarketMaker

variable {F : Type}

/-- What tells executions apart. -/
def OrderExecution.key (order : OrderExecution F) : UInt64 × String :=
  (order.orderLinkId, order.execId)

/-- The ids issued and the executions counted so far. -/
structure Ledger (F : Type) where
  issued : List UInt64
  accepted : List (OrderExecution F)

namespace Ledger

def empty : Ledger F := { issued := [], accepted := [] }

/-- The execution carried by an input, if it counts. -/
def accepts (ledger : Ledger F) : OmsInput F → Option (OrderExecution F)
  | .event (.executionUpdate order) =>
    if order.execId ≠ "" ∧ order.orderLinkId ∈ ledger.issued ∧
        order.key ∉ ledger.accepted.map OrderExecution.key then some order else none
  | _ => none

theorem accepts_execution_eq_some {ledger : Ledger F} {order : OrderExecution F} :
    ledger.accepts (.event (.executionUpdate order)) = some order ↔
      order.execId ≠ "" ∧ order.orderLinkId ∈ ledger.issued ∧
        order.key ∉ ledger.accepted.map OrderExecution.key := by
  simp only [accepts, Option.ite_none_right_eq_some, and_true]

theorem input_of_accepts {ledger : Ledger F} {input : OmsInput F} {order : OrderExecution F}
    (haccepts : ledger.accepts input = some order) :
    input = .event (.executionUpdate order) := by
  unfold accepts at haccepts
  split at haccepts
  · obtain ⟨-, heq⟩ := Option.ite_none_right_eq_some.mp haccepts
    rw [Option.some.inj heq]
  · simp at haccepts

/-- Read one entry of the transcript. -/
def record (ledger : Ledger F) (entry : OmsInput F × List (Effect F)) : Ledger F :=
  { issued := ledger.issued ++ submittedIds entry.2
    accepted := ledger.accepted ++ (ledger.accepts entry.1).toList }

theorem record_of_accepts_none {ledger : Ledger F} {input : OmsInput F}
    {effects : List (Effect F)} (hnone : ledger.accepts input = none) :
    ledger.record (input, effects) =
      { ledger with issued := ledger.issued ++ submittedIds effects } := by
  simp [record, hnone]

def ofRun (inputs : List (OmsInput F)) (outputs : List (List (Effect F))) : Ledger F :=
  (inputs.zip outputs).foldl record empty

theorem ofRun_append_singleton {inputs : List (OmsInput F)} {outputs : List (List (Effect F))}
    (hlength : outputs.length = inputs.length) (input : OmsInput F) (effects : List (Effect F)) :
    ofRun (inputs ++ [input]) (outputs ++ [effects]) =
      (ofRun inputs outputs).record (input, effects) := by
  rw [ofRun, List.zip_append hlength.symm, List.foldl_append]
  rfl

/-- Counted executions were received. -/
theorem mem_inputs_of_mem_accepted {inputs : List (OmsInput F)} {outputs : List (List (Effect F))}
    {order : OrderExecution F} (hmem : order ∈ (ofRun inputs outputs).accepted) :
    .event (.executionUpdate order) ∈ inputs := by
  revert hmem
  refine List.foldlRecOn (motive := fun ledger : Ledger F ↦ order ∈ ledger.accepted →
    .event (.executionUpdate order) ∈ inputs) (inputs.zip outputs) record ?_ ?_
  · exact fun hmem ↦ absurd hmem List.not_mem_nil
  · rintro ledger ih ⟨input, effects⟩ hentry hmem
    rcases List.mem_append.mp hmem with hmem | hmem
    · exact ih hmem
    · exact input_of_accepts (Option.mem_toList.mp hmem) ▸ (List.of_mem_zip hentry).1

/-- No key is counted twice. -/
theorem nodup_accepted (inputs : List (OmsInput F)) (outputs : List (List (Effect F))) :
    ((ofRun inputs outputs).accepted.map OrderExecution.key).Nodup := by
  refine List.foldlRecOn (motive := fun ledger : Ledger F ↦
    (ledger.accepted.map OrderExecution.key).Nodup) (inputs.zip outputs) record ?_ ?_
  · exact List.nodup_nil
  · rintro ledger ih ⟨input, effects⟩ -
    cases haccepts : ledger.accepts input with
    | none => simpa [record, haccepts] using ih
    | some order =>
      obtain rfl := input_of_accepts haccepts
      obtain ⟨-, -, hnew⟩ := accepts_execution_eq_some.mp haccepts
      rw [record, haccepts, Option.toList_some, List.map_append]
      exact ih.append (List.nodup_singleton _) (by simpa using hnew)

variable [F64 F] [Add F] [Sub F] [Mul F] [Div F] [LT F] [DecidableLT F] [BEq F] [OfScientific F]

/-- The metrics after each counted execution, starting with the configured ones. -/
def history (ledger : Ledger F) (config : OmsConfig F) : List (Metrics F) :=
  ledger.accepted.scanl Metrics.execute (Metrics.new config.inventory config.avgEntryPrice)

def metrics (ledger : Ledger F) (config : OmsConfig F) : Metrics F :=
  ledger.accepted.foldl Metrics.execute (Metrics.new config.inventory config.avgEntryPrice)

theorem metrics_record (ledger : Ledger F) (config : OmsConfig F)
    (entry : OmsInput F × List (Effect F)) :
    (ledger.record entry).metrics config =
      (ledger.accepts entry.1).toList.foldl Metrics.execute (ledger.metrics config) :=
  List.foldl_append

theorem history_record (ledger : Ledger F) (config : OmsConfig F)
    (entry : OmsInput F × List (Effect F)) :
    (ledger.record entry).history config = ledger.history config ++
      (ledger.accepts entry.1).toList.map (ledger.metrics config).execute := by
  rw [history, record, List.scanl_append]
  congr 1
  cases ledger.accepts entry.1 <;> rfl

end Ledger

/-! ## The calls made for executions -/

def Effect.pushed : Effect F → Option F
  | .forcePush inventory => some inventory
  | _ => none

def Effect.repaid : Effect F → Option String
  | .repayLiability coin => some coin
  | _ => none

def pushes (effects : List (Effect F)) : List F := effects.filterMap Effect.pushed

def repayments (effects : List (Effect F)) : List String := effects.filterMap Effect.repaid

variable [F64 F] [Add F] [Sub F] [Mul F] [Div F] [LT F] [DecidableLT F] [BEq F] [OfScientific F]

/-- The execution takes the inventory from negative to positive sign. -/
def Metrics.settlesShort (metrics : Metrics F) (order : OrderExecution F) : Bool :=
  F64.isSignNegative metrics.inventory && F64.isSignPositive (metrics.execute order).inventory

theorem Metrics.settlesShort_rat {metrics : Metrics ℚ} {order : OrderExecution ℚ} :
    metrics.settlesShort order ↔
      metrics.inventory < 0 ∧ 0 ≤ (metrics.execute order).inventory := by
  simp [Metrics.settlesShort]

namespace OrderManagementSystem

theorem pushes_settlement (coin : String) (metrics : Metrics F) (order : OrderExecution F) :
    pushes (settlement coin metrics order) = [(metrics.execute order).inventory] := by
  unfold settlement
  split <;> rfl

theorem repayments_settlement (coin : String) (metrics : Metrics F) (order : OrderExecution F) :
    repayments (settlement coin metrics order) =
      if metrics.settlesShort order then [coin] else [] := by
  unfold settlement Metrics.settlesShort
  split <;> rfl

/-- The order management system has counted what the ledger has. -/
structure Follows (config : OmsConfig F) (ledger : Ledger F) (oms : OrderManagementSystem F) :
    Prop where
  issued : ∀ id, id ∈ oms.idMap ↔ id ∈ ledger.issued
  processed : ∀ key,
    key ∈ oms.processedExecutions ↔ key ∈ ledger.accepted.map OrderExecution.key
  metrics : oms.metrics = ledger.metrics config
  coin : oms.coin = config.coin

variable {config : OmsConfig F} {ledger : Ledger F} {oms next : OrderManagementSystem F}
  {input : OmsInput F} {inputs : List (OmsInput F)} {effects : List (Effect F)}
  {outputs : List (List (Effect F))}

theorem follows_new : (new config).1.Follows config Ledger.empty where
  issued := fun id ↦ by simpa [new, Ledger.empty] using Finmap.notMem_empty
  processed := by simp [new, Ledger.empty]
  metrics := rfl
  coin := rfl

/-- The handler accepts an execution exactly when the ledger counts it. -/
theorem Follows.acceptsExecution_iff (hfollows : oms.Follows config ledger)
    (hindexed : oms.Indexed config.initialOrderLinkId) {order : OrderExecution F} :
    oms.AcceptsExecution order ↔
      ledger.accepts (.event (.executionUpdate order)) = some order := by
  have hknown : (∃ slabId, oms.idMap.lookup order.orderLinkId = some slabId ∧
      slabId < oms.orders.length) ↔ order.orderLinkId ∈ ledger.issued := by
    rw [← hfollows.issued, Finmap.mem_iff]
    constructor
    · rintro ⟨slabId, hlookup, -⟩
      exact ⟨slabId, hlookup⟩
    · rintro ⟨slabId, hlookup⟩
      exact ⟨slabId, hlookup, (hindexed.lookup_some _ _ hlookup).1⟩
  rw [AcceptsExecution, hknown, hfollows.processed, Ledger.accepts_execution_eq_some,
    OrderExecution.key]

theorem Follows.accepts_eq_none (hfollows : oms.Follows config ledger)
    (hindexed : oms.Indexed config.initialOrderLinkId) {order : OrderExecution F}
    (hdiscard : ¬oms.AcceptsExecution order) :
    ledger.accepts (.event (.executionUpdate order)) = none := by
  rw [hfollows.acceptsExecution_iff hindexed] at hdiscard
  simp only [Ledger.accepts] at hdiscard ⊢
  exact if_neg fun hcounted ↦ hdiscard (if_pos hcounted)

/-- What one transition does to the accounts, read off the ledger. -/
theorem Follows.calls_eq (hfollows : oms.Follows config ledger)
    (hindexed : oms.Indexed config.initialOrderLinkId)
    (htransition : oms.Transition input next effects) :
    match ledger.accepts input with
    | some order => next = oms.account order ∧
        effects = settlement config.coin (ledger.metrics config) order
    | none => next.metrics = oms.metrics ∧ next.processedExecutions = oms.processedExecutions ∧
        next.coin = oms.coin ∧ pushes effects = [] ∧ repayments effects = [] := by
  cases htransition with
  | submit | amend | hold | update | failure => exact ⟨rfl, rfl, rfl, rfl, rfl⟩
  | execution haccept =>
    rw [(hfollows.acceptsExecution_iff hindexed).mp haccept, ← hfollows.coin, ← hfollows.metrics]
    exact ⟨rfl, rfl⟩
  | @discard event hdiscard =>
    cases event with
    | orderUpdate | submissionFailed => exact ⟨rfl, rfl, rfl, rfl, rfl⟩
    | executionUpdate order =>
      rw [hfollows.accepts_eq_none hindexed hdiscard]
      exact ⟨rfl, rfl, rfl, rfl, rfl⟩

/-- The ids known after a transition are those known before and those it submitted. -/
theorem Transition.mem_idMap_iff (htransition : oms.Transition input next effects) (id : UInt64) :
    id ∈ next.idMap ↔ id ∈ oms.idMap ∨ id ∈ submittedIds effects := by
  cases htransition with
  | submit =>
    simp only [store, Finmap.mem_insert, submittedIds, Effect.submittedId, List.filterMap_cons,
      List.filterMap_nil, List.mem_singleton]
    exact or_comm
  | amend | hold | discard | update | failure => simp [submittedIds, Effect.submittedId]
  | execution =>
    simp only [account, submittedIds, settlement]
    split <;> simp [Effect.submittedId]

/-- The step lemma of the refinement. -/
theorem Follows.transition (hfollows : oms.Follows config ledger)
    (hindexed : oms.Indexed config.initialOrderLinkId)
    (htransition : oms.Transition input next effects) :
    next.Follows config (ledger.record (input, effects)) := by
  have hissued : ∀ id, id ∈ next.idMap ↔ id ∈ (ledger.record (input, effects)).issued := by
    intro id
    rw [htransition.mem_idMap_iff, hfollows.issued, Ledger.record, List.mem_append]
  have hcalls := hfollows.calls_eq hindexed htransition
  cases haccepts : ledger.accepts input with
  | none =>
    simp only [haccepts] at hcalls
    obtain ⟨hmetrics, hprocessed, hcoin, -, -⟩ := hcalls
    refine ⟨hissued, ?_, ?_, hcoin.trans hfollows.coin⟩
    · rw [hprocessed, Ledger.record_of_accepts_none haccepts]
      exact hfollows.processed
    · rw [hmetrics, Ledger.metrics_record, haccepts]
      exact hfollows.metrics
  | some order =>
    simp only [haccepts] at hcalls
    obtain ⟨rfl, -⟩ := hcalls
    refine ⟨hissued, ?_, ?_, hfollows.coin⟩
    · intro key
      simp only [account, Finset.mem_insert, hfollows.processed, Ledger.record, haccepts,
        Option.toList_some, List.map_append, List.map_cons, List.map_nil, List.mem_append,
        List.mem_singleton, OrderExecution.key]
      exact or_comm
    · rw [Ledger.metrics_record, haccepts, account, hfollows.metrics]
      rfl

theorem follows_of_cycle (hrun : (new config).1.cycle inputs = some (oms, outputs)) :
    oms.Follows config (Ledger.ofRun inputs outputs) := by
  refine Machine.run_history (motive := fun inputs state outputs ↦
    state.Follows config (Ledger.ofRun inputs outputs)) follows_new ?_ hrun
  intro first middle front input next output hfirst ih hstep
  rw [Ledger.ofRun_append_singleton (Machine.run_length hfirst)]
  exact ih.transition (indexed_of_cycle hfirst) (transition_of_step hstep)

/-- The pushed inventories follow the counted executions. -/
theorem pushes_of_cycle (hrun : (new config).1.cycle inputs = some (oms, outputs)) :
    pushes ((new config).2 ++ outputs.flatten) =
      ((Ledger.ofRun inputs outputs).history config).map Metrics.inventory := by
  refine Machine.run_history (motive := fun inputs _ outputs ↦
    pushes ((new config).2 ++ outputs.flatten) =
      ((Ledger.ofRun inputs outputs).history config).map Metrics.inventory) ?_ ?_ hrun
  · rfl
  · intro first middle front input next output hfirst ih hstep
    have hcalls := (follows_of_cycle hfirst).calls_eq (indexed_of_cycle hfirst)
      (transition_of_step hstep)
    have hpushes : pushes output = ((Ledger.ofRun first front).accepts input).toList.map
        fun order ↦ (((Ledger.ofRun first front).metrics config).execute order).inventory := by
      cases haccepts : (Ledger.ofRun first front).accepts input with
      | none =>
        simp only [haccepts] at hcalls
        exact hcalls.2.2.2.1
      | some order =>
        simp only [haccepts] at hcalls
        rw [hcalls.2, pushes_settlement]
        rfl
    rw [Ledger.ofRun_append_singleton (Machine.run_length hfirst), Ledger.history_record,
      List.map_append, ← ih, List.map_map, List.flatten_append, ← List.append_assoc]
    simpa [pushes, Function.comp_def] using hpushes

/-- After every run the metrics are the fold over the counted executions and the pushed inventories
are the configured one and the running ones.  At every point of the run a repayment is requested
exactly for a counted execution that takes the inventory from negative to positive sign, and an
execution that does not count leaves no trace. -/
theorem executions_count_once (hrun : (new config).1.cycle inputs = some (oms, outputs)) :
    oms.metrics = (Ledger.ofRun inputs outputs).metrics config ∧
    pushes ((new config).2 ++ outputs.flatten) =
      ((Ledger.ofRun inputs outputs).history config).map Metrics.inventory ∧
    ∀ first input rest state front next effects, inputs = first ++ input :: rest →
      (new config).1.cycle first = some (state, front) →
      state.step input = some (next, effects) →
      (repayments effects = match (Ledger.ofRun first front).accepts input with
        | some order =>
          if ((Ledger.ofRun first front).metrics config).settlesShort order then [config.coin]
          else []
        | none => []) ∧
      ∀ order, input = .event (.executionUpdate order) →
        (Ledger.ofRun first front).accepts input = none → next = state ∧ effects = [] := by
  refine ⟨(follows_of_cycle hrun).metrics, pushes_of_cycle hrun, ?_⟩
  rintro first input rest state front next effects - hfirst hstep
  have hfollows := follows_of_cycle hfirst
  have hindexed := indexed_of_cycle hfirst
  have hcalls := hfollows.calls_eq hindexed (transition_of_step hstep)
  constructor
  · cases haccepts : (Ledger.ofRun first front).accepts input with
    | none =>
      simp only [haccepts] at hcalls
      exact hcalls.2.2.2.2
    | some order =>
      simp only [haccepts] at hcalls
      rw [hcalls.2, repayments_settlement]
  · rintro order rfl hnone
    have hdiscard : ¬state.AcceptsExecution order := by
      intro haccept
      rw [(hfollows.acceptsExecution_iff hindexed).mp haccept] at hnone
      simp at hnone
    have hsame := (state.handleExecutionUpdate_cases order).resolve_left (fun h ↦ hdiscard h.1)
    have hresponse : state.handleExecutionUpdate order = (next, effects) := Option.some.inj hstep
    exact Prod.mk.inj (hresponse.symm.trans hsame.2)

/-- A fill delivered before its order was submitted, then twice after it. -/
theorem executions_count_once_sample :
    ∃ oms outputs, (new sampleConfig).1.cycle
        [.event (.executionUpdate sampleExecution),
          .forward RiskManager.evaluateOrder sampleBuy,
          .event (.executionUpdate sampleExecution),
          .event (.executionUpdate sampleExecution)] = some (oms, outputs) ∧
      oms.metrics = (Metrics.new 0 0).execute sampleExecution := by
  have houtputs : ((new sampleConfig).1.cycle
      [.event (.executionUpdate sampleExecution), .forward RiskManager.evaluateOrder sampleBuy,
        .event (.executionUpdate sampleExecution),
        .event (.executionUpdate sampleExecution)]).map Prod.snd =
      some [[], [.submitOrder sampleBuy 90], [.forcePush (249 / 10)], []] := by decide +kernel
  obtain ⟨⟨oms, outputs⟩, hrun, rfl⟩ := Option.map_eq_some_iff.mp houtputs
  exact ⟨oms, _, hrun, (executions_count_once hrun).1.trans (by decide +kernel)⟩

end OrderManagementSystem

end MarketMaker
