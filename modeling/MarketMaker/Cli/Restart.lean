import MarketMaker.Cli.Submissions
import MarketMaker.Oms.ForeignOrders

/-!
# Starting again

The first link id of a run is read from the clock in microseconds.  So a bot that is started again
uses other link ids than before, as long as the clock has moved on by more than the number of orders
submitted.  What the exchange still reports about the orders of the earlier run then leaves no trace
in the order management system.
-/

namespace MarketMaker

variable {F : Type}

/-- The input is an event about one of these link ids. -/
def OmsInput.concerns (ids : List UInt64) : OmsInput F → Bool
  | .event message => decide (message.orderLinkId ∈ ids)
  | .forward _ _ => false

namespace OrderManagementSystem

variable [F64 F] [Add F] [Sub F] [Mul F] [Div F] [LT F] [DecidableLT F] [BEq F] [OfScientific F]

variable {oms next final : OrderManagementSystem F} {input : OmsInput F}
  {inputs : List (OmsInput F)} {effects : List (Effect F)} {outputs : List (List (Effect F))}

/-- No link id is forgotten. -/
theorem Transition.mem_idMap (htransition : oms.Transition input next effects) {id : UInt64}
    (hmem : id ∈ oms.idMap) : id ∈ next.idMap := by
  cases htransition with
  | submit => exact Finmap.mem_insert.mpr (.inr hmem)
  | _ => exact hmem

theorem mem_idMap_of_cycle (hrun : oms.cycle inputs = some (final, outputs)) {id : UInt64}
    (hmem : id ∈ oms.idMap) : id ∈ final.idMap := by
  apply Machine.run_invariant (motive := fun state : OrderManagementSystem F ↦ id ∈ state.idMap) _
    hmem hrun
  intro current input _ after output hcurrent hstep
  exact (transition_of_step hstep).mem_idMap hcurrent

/-- Events about ids that never become known can be left out. -/
theorem cycle_without {ids : List UInt64} (hrun : oms.cycle inputs = some (final, outputs))
    (hunknown : ∀ id ∈ ids, id ∉ final.idMap) :
    ∃ kept, oms.cycle (inputs.filter fun input ↦ !input.concerns ids) = some (final, kept) ∧
      kept.flatten = outputs.flatten := by
  induction inputs generalizing oms outputs with
  | nil =>
    obtain ⟨rfl, rfl⟩ := Prod.mk.inj (Option.some.inj hrun)
    exact ⟨[], rfl, rfl⟩
  | cons input rest ih =>
    obtain ⟨next, output, later, hstep, hrest, rfl⟩ := Machine.run_cons_eq_some.mp hrun
    obtain ⟨kept, hkept, hsame⟩ := ih hrest
    cases hconcerns : input.concerns ids with
    | false =>
      rw [List.filter_cons_of_pos (by simp [hconcerns])]
      exact ⟨output :: kept, Machine.run_cons_eq_some.mpr ⟨next, output, kept, hstep, hkept, rfl⟩,
        by rw [List.flatten_cons, List.flatten_cons, hsame]⟩
    | true =>
      obtain ⟨event, rfl⟩ : ∃ event, input = .event event := by
        cases input with
        | event event => exact ⟨event, rfl⟩
        | forward => cases hconcerns
      have hevent : event.orderLinkId ∉ oms.idMap := by
        intro hmem
        have hid : event.orderLinkId ∈ ids := by simpa [OmsInput.concerns] using hconcerns
        exact hunknown _ hid (mem_idMap_of_cycle hrun hmem)
      have hdiscard : oms.step (.event event) = some (oms, []) := by
        rw [step, orderResponse_of_unknown hevent]
      obtain ⟨rfl, rfl⟩ := Prod.mk.inj (Option.some.inj (hdiscard.symm.trans hstep))
      rw [List.filter_cons_of_neg (by simp [hconcerns])]
      exact ⟨kept, hkept, hsame⟩

end OrderManagementSystem

namespace Threads

open Activity

variable [F64 F] [F64Format F] [Add F] [Sub F] [Mul F] [Div F] [Neg F] [LT F] [DecidableLT F]
  [LE F] [DecidableLE F] [BEq F] [DecidableEq F] [OfScientific F]

variable {config config' : AppConfig F} {steps steps' : List (ThreadStep F)}
  {threads threads' : Threads F} {log log' : List (Activity F)} {start start' : OmsConfig F}

/-- The loop that a log with a configuration is from. -/
theorem cycle_of_run (hrun : run (new config) steps = some (threads, log))
    (hstart : log.flatMap configuration = [start]) :
    ∃ oms, threads.oms = some oms ∧ (OrderManagementSystem.new start).1.cycle
      (log.flatMap omsInput) = some (oms, log.flatMap omsEffects) := by
  obtain ⟨-, hnone, -⟩ | ⟨oms, omsConfig, _, _, _, hsome, -, hlogged, hcycle⟩ := omsRuns_of_run hrun
  · simp [hnone] at hstart
  · obtain rfl := List.singleton_inj.mp (hlogged.symm.trans hstart)
    exact ⟨oms, hsome, hcycle⟩

/-- The link ids of a run that does not wrap follow on its first one. -/
theorem toNat_of_submitted (hrun : run (new config) steps = some (threads, log))
    (hstart : log.flatMap configuration = [start])
    (hroom : start.initialOrderLinkId.toNat + (submitted log).length ≤ 2 ^ 64) {id : UInt64}
    (hmem : id ∈ submitted log) :
    start.initialOrderLinkId.toNat ≤ id.toNat ∧
      id.toNat < start.initialOrderLinkId.toNat + (submitted log).length := by
  obtain ⟨oms, -, hcycle⟩ := cycle_of_run hrun hstart
  unfold submitted at hroom hmem ⊢
  rw [OrderManagementSystem.length_submittedIds hcycle] at hroom ⊢
  rw [OrderManagementSystem.submittedIds_of_cycle hcycle] at hmem
  obtain ⟨k, hk, rfl⟩ := List.mem_map.mp hmem
  rw [List.mem_range] at hk
  have hid : (linkId start.initialOrderLinkId k).toNat = start.initialOrderLinkId.toNat + k := by
    have hfits : k < UInt64.size := by
      change k < 2 ^ 64
      omega
    rw [linkId, UInt64.toNat_add, UInt64.toNat_ofNat_of_lt' hfits, Nat.mod_eq_of_lt (by omega)]
  omega

/-- When the clock of a second start has passed the link ids of the first run, the two runs submit
under different link ids, in every interleaving of each; and the order management system of the
second is in the state of its loop, and has made the calls, as if no event about an order of the
first had reached it. -/
theorem restart_leaves_no_trace (hrun : run (new config) steps = some (threads, log))
    (hagain : run (new config') steps' = some (threads', log'))
    (hstart : log.flatMap configuration = [start])
    (hstart' : log'.flatMap configuration = [start'])
    (hclock : start.initialOrderLinkId.toNat + (submitted log).length ≤
      start'.initialOrderLinkId.toNat)
    (hroom : start'.initialOrderLinkId.toNat + (submitted log').length ≤ 2 ^ 64) :
    (∀ id ∈ submitted log, id ∉ submitted log') ∧
      ∃ oms outputs, threads'.oms = some oms ∧
        (OrderManagementSystem.new start').1.cycle
          ((log'.flatMap omsInput).filter fun input ↦ !input.concerns (submitted log)) =
            some (oms, outputs) ∧
        outputs.flatten = (log'.flatMap omsEffects).flatten := by
  have hdisjoint : ∀ id ∈ submitted log, id ∉ submitted log' := by
    intro id hmem hmem'
    have hbefore := (toNat_of_submitted hrun hstart (by omega) hmem).2
    have hafter := (toNat_of_submitted hagain hstart' hroom hmem').1
    omega
  obtain ⟨oms, homs, hcycle⟩ := cycle_of_run hagain hstart'
  have hunknown : ∀ id ∈ submitted log, id ∉ oms.idMap := by
    intro id hmem hknown
    rw [OrderManagementSystem.mem_idMap_iff_submitted hcycle] at hknown
    exact hdisjoint id hmem hknown
  obtain ⟨outputs, hkept, hsame⟩ := OrderManagementSystem.cycle_without hcycle hunknown
  exact ⟨hdisjoint, oms, outputs, homs, hkept, hsame⟩

/-- Both quotes are submitted after a later start, and the fill of an order of `sampleSteps` arrives
late. -/
def sampleRestart : List (ThreadStep ℚ) :=
  .constructOms sampleBalance .null 92 :: sampleSteps.tail.take 9 ++
    [.privateResponse (.execution [sampleFill]), .privateSend, .takeEvent]

theorem restart_leaves_no_trace_sample : ∃ threads log oms, ∃ start : OmsConfig ℚ,
    run (new sampleConfig) sampleRestart = some (threads, log) ∧ threads.oms = some oms ∧
    (∀ id ∈ submitted log, id ∉ [90, 91]) ∧
    ∃ outputs, (OrderManagementSystem.new start).1.cycle ((log.flatMap omsInput).filter
      fun input ↦ !input.concerns [90, 91]) = some (oms, outputs) := by
  have hfirst : (run (new sampleConfig) sampleSteps).any fun result ↦
      decide (submitted result.2 = [90, 91] ∧
        (result.2.flatMap configuration).map OmsConfig.initialOrderLinkId = [90]) := by
    decide +kernel
  have hsecond : (run (new sampleConfig) sampleRestart).any fun result ↦
      decide (submitted result.2 = [92, 93] ∧
        (result.2.flatMap configuration).map OmsConfig.initialOrderLinkId = [92]) := by
    decide +kernel
  obtain ⟨⟨threads, log⟩, hrun, hfacts⟩ := (Option.any_eq_true ..).mp hfirst
  obtain ⟨hids, hclock⟩ := of_decide_eq_true hfacts
  obtain ⟨start, hstart, hinitial⟩ := List.map_eq_singleton_iff.mp hclock
  obtain ⟨⟨threads', log'⟩, hagain, hfacts⟩ := (Option.any_eq_true ..).mp hsecond
  obtain ⟨hids', hclock⟩ := of_decide_eq_true hfacts
  obtain ⟨start', hstart', hinitial'⟩ := List.map_eq_singleton_iff.mp hclock
  obtain ⟨hdisjoint, oms, outputs, homs, hcycle, -⟩ := restart_leaves_no_trace hrun hagain hstart
    hstart' (by rw [hinitial, hinitial', hids]; decide) (by rw [hinitial', hids']; decide)
  rw [hids] at hdisjoint hcycle
  exact ⟨threads', log', oms, start', hagain, homs, fun id hmem hold ↦ hdisjoint id hold hmem,
    outputs, hcycle⟩

end Threads

end MarketMaker
