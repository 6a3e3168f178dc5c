import MarketMaker.Oms.Executions
import Mathlib.Algebra.BigOperators.Group.Finset.Basic

/-!
# The inventory as a sum, over exact rationals

The net and the gross inventory are folds over the counted executions, and each execution adds a
number that does not depend on the state.  The counted executions of a run are, up to order, the
distinct executions it received; so the inventories are sums over a finite set, whatever the order
and the number of deliveries.
-/

namespace MarketMaker

def bought (executions : List (OrderExecution ℚ)) : ℚ :=
  ((executions.filter fun order ↦ order.orderSide = .buy).map fun order ↦
    order.execQty - order.execFee).sum

def sold (executions : List (OrderExecution ℚ)) : ℚ :=
  ((executions.filter fun order ↦ order.orderSide = .sell).map OrderExecution.execQty).sum

theorem bought_cons (order : OrderExecution ℚ) (rest : List (OrderExecution ℚ)) :
    bought (order :: rest) =
      (if order.orderSide = .buy then order.execQty - order.execFee else 0) + bought rest := by
  by_cases hside : order.orderSide = .buy <;> simp [bought, hside]

theorem sold_cons (order : OrderExecution ℚ) (rest : List (OrderExecution ℚ)) :
    sold (order :: rest) = (if order.orderSide = .sell then order.execQty else 0) + sold rest := by
  by_cases hside : order.orderSide = .sell <;> simp [sold, hside]

theorem inventory_foldl (metrics : Metrics ℚ) (executions : List (OrderExecution ℚ)) :
    (executions.foldl Metrics.execute metrics).inventory =
      metrics.inventory + bought executions - sold executions := by
  induction executions generalizing metrics with
  | nil => simp [bought, sold]
  | cons order rest ih =>
    rw [List.foldl_cons, ih, bought_cons, sold_cons]
    cases hside : order.orderSide with
    | buy =>
      rw [Metrics.execute_buy hside, if_pos rfl, if_neg (by decide)]
      linarith
    | sell =>
      rw [Metrics.execute_sell hside, if_neg (by decide), if_pos rfl]
      linarith

def buyFees (executions : List (OrderExecution ℚ)) : ℚ :=
  ((executions.filter fun order ↦ order.orderSide = .buy).map OrderExecution.execFee).sum

theorem buyFees_cons (order : OrderExecution ℚ) (rest : List (OrderExecution ℚ)) :
    buyFees (order :: rest) =
      (if order.orderSide = .buy then order.execFee else 0) + buyFees rest := by
  by_cases hside : order.orderSide = .buy <;> simp [buyFees, hside]

/-- The gross inventory runs ahead of the net inventory by the buy fees. -/
theorem grossInventory_foldl (metrics : Metrics ℚ) (executions : List (OrderExecution ℚ)) :
    (executions.foldl Metrics.execute metrics).grossInventory -
        (executions.foldl Metrics.execute metrics).netInventory =
      metrics.grossInventory - metrics.netInventory + buyFees executions := by
  induction executions generalizing metrics with
  | nil => simp [buyFees]
  | cons order rest ih =>
    rw [List.foldl_cons, ih, buyFees_cons, ← add_assoc]
    congr 1
    cases hside : order.orderSide with
    | buy =>
      rw [if_pos rfl]
      simp only [Metrics.execute, Metrics.update, Metrics.newGrossInventory,
        Metrics.newNetInventory, hside]
      linarith
    | sell =>
      rw [if_neg (by decide)]
      simp only [Metrics.execute, Metrics.update, Metrics.newGrossInventory,
        Metrics.newNetInventory, hside]
      linarith

/-- Summing over a part of a list without repetitions is summing over the set. -/
theorem sum_filter_eq {executions : List (OrderExecution ℚ)} (hnodup : executions.Nodup)
    (side : OrderSide) (f : OrderExecution ℚ → ℚ) :
    ((executions.filter fun order ↦ order.orderSide = side).map f).sum =
      ∑ order ∈ executions.toFinset with order.orderSide = side, f order := by
  rw [← List.sum_toFinset f (hnodup.filter _), List.toFinset_filter]
  simp

namespace Ledger

variable {F : Type}

/-- What was counted stays counted. -/
theorem accepted_subset_foldl (ledger : Ledger F) (entries : List (OmsInput F × List (Effect F))) :
    ledger.accepted ⊆ (entries.foldl record ledger).accepted := by
  refine List.foldlRecOn (motive := fun later : Ledger F ↦ ledger.accepted ⊆ later.accepted)
    entries record (List.Subset.refl _) ?_
  intro later ih entry _
  exact List.Subset.trans ih (List.subset_append_left ..)

/-- An identified execution for an issued order is counted, now or under its key before. -/
theorem key_mem_accepted_record {ledger : Ledger F} {order : OrderExecution F}
    (effects : List (Effect F)) (hid : order.execId ≠ "")
    (hissued : order.orderLinkId ∈ ledger.issued) :
    order.key ∈ (ledger.record (.event (.executionUpdate order), effects)).accepted.map
      OrderExecution.key := by
  rw [record, List.map_append, List.mem_append]
  by_cases hcounted : order.key ∈ ledger.accepted.map OrderExecution.key
  · exact .inl hcounted
  · rw [accepts_execution_eq_some.mpr ⟨hid, hissued, hcounted⟩]
    exact .inr (List.mem_singleton_self _)

end Ledger

namespace OrderManagementSystem

variable {config : OmsConfig ℚ} {inputs : List (OmsInput ℚ)} {oms : OrderManagementSystem ℚ}
  {outputs : List (List (Effect ℚ))} {executions : Finset (OrderExecution ℚ)}

/-- The executions received are exactly those of the set, in any order and with any repetitions
of identical copies; they are told apart by their keys, and each arrives after its link id was
issued. -/
structure Receives (config : OmsConfig ℚ) (executions : Finset (OrderExecution ℚ))
    (inputs : List (OmsInput ℚ)) : Prop where
  identified : ∀ order ∈ executions, order.execId ≠ ""
  distinct : ∀ order ∈ executions, ∀ other ∈ executions, order.key = other.key → order = other
  received : ∀ order, .event (.executionUpdate order) ∈ inputs ↔ order ∈ executions
  issued : ∀ first order rest state front,
    inputs = first ++ .event (.executionUpdate order) :: rest →
    (new config).1.cycle first = some (state, front) →
    order.orderLinkId ∈ submittedIds front.flatten

/-- Every received execution is counted. -/
theorem key_mem_accepted (hrun : (new config).1.cycle inputs = some (oms, outputs))
    (hreceives : Receives config executions inputs) {order : OrderExecution ℚ}
    (hmem : order ∈ executions) :
    order.key ∈ (Ledger.ofRun inputs outputs).accepted.map OrderExecution.key := by
  obtain ⟨first, rest, rfl⟩ := List.append_of_mem ((hreceives.received order).mpr hmem)
  obtain ⟨state, front, back, hfirst, hback, rfl⟩ := Machine.run_append_eq_some.mp hrun
  obtain ⟨next, effects, later, -, -, rfl⟩ := Machine.run_cons_eq_some.mp hback
  have hissued : order.orderLinkId ∈ (Ledger.ofRun first front).issued := by
    rw [← (follows_of_cycle hfirst).issued, mem_idMap_iff_submitted hfirst]
    exact hreceives.issued first order rest state front rfl hfirst
  have hkey := Ledger.key_mem_accepted_record effects
    (hreceives.identified order hmem) hissued
  rw [Ledger.ofRun, List.zip_append (Machine.run_length hfirst).symm, List.foldl_append,
    List.zip_cons_cons, List.foldl_cons]
  exact List.map_subset _ (Ledger.accepted_subset_foldl _ _) hkey

/-- The counted executions are those of the set. -/
theorem toFinset_accepted (hrun : (new config).1.cycle inputs = some (oms, outputs))
    (hreceives : Receives config executions inputs) :
    (Ledger.ofRun inputs outputs).accepted.toFinset = executions := by
  have hsubset : ∀ order ∈ (Ledger.ofRun inputs outputs).accepted, order ∈ executions :=
    fun order hmem ↦ (hreceives.received order).mp (Ledger.mem_inputs_of_mem_accepted hmem)
  ext order
  rw [List.mem_toFinset]
  constructor
  · exact hsubset order
  · intro hmem
    obtain ⟨counted, hcounted, hkey⟩ := List.mem_map.mp (key_mem_accepted hrun hreceives hmem)
    rwa [← hreceives.distinct counted (hsubset counted hcounted) order hmem hkey]

/-- The inventories after a run that receives the executions of a finite set: the net inventory is
the configured one plus the net quantities of the buys minus the quantities of the sells, the gross
inventory exceeds it by the fees of the buys, and every other run that receives the same executions
ends with the same two. -/
theorem inventory_is_sum_of_fills (hrun : (new config).1.cycle inputs = some (oms, outputs))
    (hreceives : Receives config executions inputs) :
    oms.inventory = config.inventory +
      ∑ order ∈ executions with order.orderSide = .buy, (order.execQty - order.execFee) -
      ∑ order ∈ executions with order.orderSide = .sell, order.execQty ∧
    oms.metrics.grossInventory - oms.metrics.netInventory =
      ∑ order ∈ executions with order.orderSide = .buy, order.execFee ∧
    ∀ inputs' oms' outputs', (new config).1.cycle inputs' = some (oms', outputs') →
      Receives config executions inputs' →
      oms'.inventory = oms.inventory ∧
        oms'.metrics.grossInventory = oms.metrics.grossInventory := by
  have hsums : ∀ inputs oms outputs, (new config).1.cycle inputs = some (oms, outputs) →
      Receives config executions inputs →
      oms.metrics.netInventory = config.inventory +
        ∑ order ∈ executions with order.orderSide = .buy, (order.execQty - order.execFee) -
        ∑ order ∈ executions with order.orderSide = .sell, order.execQty ∧
      oms.metrics.grossInventory - oms.metrics.netInventory =
        ∑ order ∈ executions with order.orderSide = .buy, order.execFee := by
    intro inputs oms outputs hrun hreceives
    have hnodup : (Ledger.ofRun inputs outputs).accepted.Nodup :=
      (Ledger.nodup_accepted inputs outputs).of_map _
    have hset := toFinset_accepted hrun hreceives
    rw [(follows_of_cycle hrun).metrics, Ledger.metrics, ← hset]
    constructor
    · rw [← sum_filter_eq hnodup, ← sum_filter_eq hnodup]
      exact inventory_foldl _ _
    · rw [grossInventory_foldl, ← sum_filter_eq hnodup, Metrics.new, sub_self, zero_add]
      rfl
  obtain ⟨hnet, hgross⟩ := hsums inputs oms outputs hrun hreceives
  refine ⟨hnet, hgross, ?_⟩
  intro inputs' oms' outputs' hrun' hreceives'
  obtain ⟨hnet', hgross'⟩ := hsums inputs' oms' outputs' hrun' hreceives'
  exact ⟨hnet'.trans hnet.symm, by linarith⟩

def sampleSell : OrderBuilder ℚ := { sampleBuy with side := .sell }

def soldExecution : OrderExecution ℚ :=
  { sampleExecution with
    orderLinkId := 91, orderSide := .sell, execId := "exec-2", execFee := 1 / 20, execQty := 10 }

/-- A buy and a sell are submitted before anything is delivered. -/
def submissions : List (OmsInput ℚ) :=
  [.forward RiskManager.evaluateOrder sampleBuy, .forward RiskManager.evaluateOrder sampleSell]

theorem receives_submissions {deliveries : List (OmsInput ℚ)}
    (hdeliveries : ∀ order, .event (.executionUpdate order) ∈ deliveries ↔
      order ∈ ({sampleExecution, soldExecution} : Finset (OrderExecution ℚ))) :
    Receives sampleConfig {sampleExecution, soldExecution} (submissions ++ deliveries) where
  identified := by simp [sampleExecution, soldExecution]
  distinct := by decide +kernel
  received order := by simp [submissions, ← hdeliveries order]
  issued := by
    intro first order rest state front hinputs hfirst
    have hlater : ∃ middle, first = submissions ++ middle ∧
        deliveries = middle ++ .event (.executionUpdate order) :: rest := by
      rcases List.append_eq_append_iff.mp hinputs with hearly | ⟨middle, hsplit, hrest⟩
      · exact hearly
      · cases middle with
        | nil => exact ⟨[], by simpa using hsplit.symm, by simpa using hrest.symm⟩
        | cons input middle =>
          obtain ⟨rfl, -⟩ := List.cons.inj hrest
          have hearly : .event (.executionUpdate order) ∈ submissions := by simp [hsplit]
          simp [submissions] at hearly
    obtain ⟨middle, rfl, rfl⟩ := hlater
    obtain ⟨submitted, early, late, hearly, -, rfl⟩ := Machine.run_append_eq_some.mp hfirst
    have houtputs : (Machine.run step (new sampleConfig).1 submissions).map Prod.snd =
        some [[.submitOrder sampleBuy 90], [.submitOrder sampleSell 91]] := by decide +kernel
    rw [hearly] at houtputs
    obtain rfl : early = _ := Option.some.inj houtputs
    have hmem := (hdeliveries order).mp (by simp)
    simp only [Finset.mem_insert, Finset.mem_singleton] at hmem
    rcases hmem with rfl | rfl <;>
      simp [submittedIds, Effect.submittedId, sampleExecution, soldExecution]

/-- The fills arrive in both orders, one of them twice. -/
theorem inventory_is_sum_of_fills_sample :
    ∃ oms outputs oms' outputs',
      (new sampleConfig).1.cycle (submissions ++
        [.event (.executionUpdate sampleExecution), .event (.executionUpdate soldExecution),
          .event (.executionUpdate sampleExecution)]) = some (oms, outputs) ∧
      (new sampleConfig).1.cycle (submissions ++
        [.event (.executionUpdate soldExecution), .event (.orderUpdate sampleAcknowledgement),
          .event (.executionUpdate sampleExecution)]) = some (oms', outputs') ∧
      oms.inventory = 25 - 1 / 10 - 10 ∧
      oms.metrics.grossInventory - oms.metrics.netInventory = 1 / 10 ∧
      oms'.inventory = oms.inventory ∧
      oms'.metrics.grossInventory = oms.metrics.grossInventory := by
  have hsome : ((new sampleConfig).1.cycle (submissions ++
      [.event (.executionUpdate sampleExecution), .event (.executionUpdate soldExecution),
        .event (.executionUpdate sampleExecution)])).isSome := by decide +kernel
  have hsome' : ((new sampleConfig).1.cycle (submissions ++
      [.event (.executionUpdate soldExecution), .event (.orderUpdate sampleAcknowledgement),
        .event (.executionUpdate sampleExecution)])).isSome := by decide +kernel
  obtain ⟨⟨oms, outputs⟩, hrun⟩ := Option.isSome_iff_exists.mp hsome
  obtain ⟨⟨oms', outputs'⟩, hrun'⟩ := Option.isSome_iff_exists.mp hsome'
  obtain ⟨hnet, hgross, hsame⟩ := inventory_is_sum_of_fills hrun
    (receives_submissions fun order ↦ by simp [or_comm])
  obtain ⟨hinventory, hgrossInventory⟩ := hsame _ oms' outputs' hrun'
    (receives_submissions fun order ↦ by simp [or_comm])
  exact ⟨oms, outputs, oms', outputs', hrun, hrun', hnet.trans (by decide +kernel),
    hgross.trans (by decide +kernel), hinventory, hgrossInventory⟩

end OrderManagementSystem

end MarketMaker
