import MarketMaker.Oms.System
import MarketMaker.Strategy.Runner

/-!
# The strategy sees the current inventory

The order management system and the strategy runner are threads that share the inventory queue and
start in any order.  A full queue holds the current inventory; an empty one means that the runner
has taken it, and that it has not changed since.  This holds after every interleaving of the steps
of both threads, so every iteration of the strategy uses the current inventory.
-/

namespace MarketMaker

variable {σ F : Type}

/-- Both threads and the queue between them; the order management system is `none` before its
construction. -/
structure Bot (σ F : Type) where
  queue : InventoryQueue F
  oms : Option (OrderManagementSystem F)
  runner : StrategyRunner σ F

/-- The atomic steps of the threads: those of the order management system are its construction
and the turns of its loop, those of the runner the first pop and the iterations. -/
inductive BotStep (F : Type)
  | construct (config : OmsConfig F)
  | oms (input : OmsInput F)
  | start
  | iterate (orderBook : OrderBook F)

/-- The pushes among the calls of a step. -/
def InventoryQueue.receive (queue : InventoryQueue F) (effects : List (Effect F)) :
    InventoryQueue F :=
  effects.foldl (fun queue effect ↦ match effect with
    | .forcePush inventory => queue.forcePush inventory
    | _ => queue) queue

namespace Bot

def new (strategy : σ) : Bot σ F :=
  { queue := none, oms := none, runner := StrategyRunner.new strategy }

/-- A full queue holds the current inventory, and beside an empty one the runner does. -/
def Fresh (bot : Bot σ F) : Prop :=
  ∀ oms, bot.oms = some oms →
    bot.queue = some oms.inventory ∨ bot.queue = none ∧ bot.runner.inventory = some oms.inventory

theorem fresh_new (strategy : σ) : (new strategy : Bot σ F).Fresh := by
  intro oms homs
  simp [new] at homs

variable [F64 F] [Add F] [Sub F] [Mul F] [Div F] [LT F] [DecidableLT F] [BEq F] [OfScientific F]

/-- A step and, for an iteration, the inventory passed to `execute` with the orders sent; `none`
is an abort or a step that the threads cannot take. -/
def step (execute : Strategy σ F) (bot : Bot σ F) :
    BotStep F → Option (Bot σ F × Option (F × List (OrderBuilder F)))
  | .construct config =>
    if bot.oms.isSome then none
    else
      let (oms, effects) := OrderManagementSystem.new config
      some ({ bot with oms := some oms, queue := bot.queue.receive effects }, none)
  | .oms input => bot.oms.bind fun oms ↦ (oms.step input).map fun (next, effects) ↦
      ({ bot with oms := some next, queue := bot.queue.receive effects }, none)
  | .start =>
    if bot.runner.inventory.isSome then none
    else
      let (runner, queue) := bot.runner.start bot.queue
      some ({ bot with runner, queue }, none)
  | .iterate orderBook => bot.runner.inventory.map fun inventory ↦
      let ((runner, queue), call) := bot.runner.iterate execute inventory bot.queue orderBook
      ({ bot with runner, queue }, some call)

/-- A turn of the order management system pushes its inventory or leaves it as it is. -/
theorem receive_transition {oms next : OrderManagementSystem F} {input : OmsInput F}
    {effects : List (Effect F)} (htransition : oms.Transition input next effects)
    (queue : InventoryQueue F) :
    queue.receive effects = some next.inventory ∨
      queue.receive effects = queue ∧ next.inventory = oms.inventory := by
  cases htransition with
  | submit | amend | hold | update | failure | discard => exact .inr ⟨rfl, rfl⟩
  | @execution order =>
    left
    unfold OrderManagementSystem.settlement InventoryQueue.receive
    split_ifs <;> rfl

variable {execute : Strategy σ F} {bot next : Bot σ F}
  {call : Option (F × List (OrderBuilder F))}

theorem Fresh.step (hfresh : bot.Fresh) {move : BotStep F}
    (hstep : bot.step execute move = some (next, call)) : next.Fresh := by
  intro oms homs
  cases move with
  | construct config =>
    simp only [Bot.step] at hstep
    split_ifs at hstep
    obtain ⟨rfl, -⟩ := Prod.mk.inj (Option.some.inj hstep)
    obtain rfl : (OrderManagementSystem.new config).1 = oms := Option.some.inj homs
    exact .inl rfl
  | oms input =>
    simp only [Bot.step, Option.bind_eq_some_iff, Option.map_eq_some_iff] at hstep
    obtain ⟨before, hbefore, ⟨after, effects⟩, hturn, heq⟩ := hstep
    obtain ⟨rfl, -⟩ := Prod.mk.inj heq
    obtain rfl : after = oms := Option.some.inj homs
    obtain hpush | ⟨hqueue, hinventory⟩ :=
      receive_transition (OrderManagementSystem.transition_of_step hturn) bot.queue
    · exact .inl hpush
    · simp only [hqueue, hinventory]
      exact hfresh before hbefore
  | start =>
    simp only [Bot.step] at hstep
    split_ifs at hstep with hstarted
    obtain ⟨rfl, -⟩ := Prod.mk.inj (Option.some.inj hstep)
    obtain hfull | ⟨-, hlocal⟩ := hfresh oms homs
    · exact .inr ⟨rfl, by simp [StrategyRunner.start, InventoryQueue.pop, hfull]⟩
    · simp [hlocal] at hstarted
  | iterate orderBook =>
    simp only [Bot.step, Option.map_eq_some_iff] at hstep
    obtain ⟨inventory, hinventory, heq⟩ := hstep
    obtain ⟨rfl, -⟩ := Prod.mk.inj heq
    refine .inr ⟨rfl, ?_⟩
    obtain hfull | ⟨hempty, hlocal⟩ := hfresh oms homs
    · simp [StrategyRunner.iterate, InventoryQueue.pop, hfull]
    · obtain rfl := Option.some.inj (hinventory.symm.trans hlocal)
      simp [StrategyRunner.iterate, InventoryQueue.pop, hempty]

/-- The steps of both threads in any order. -/
abbrev run (execute : Strategy σ F) (bot : Bot σ F) (moves : List (BotStep F)) :
    Option (Bot σ F × List (Option (F × List (OrderBuilder F)))) :=
  Machine.run (step execute) bot moves

theorem fresh_of_run {strategy : σ} {moves : List (BotStep F)}
    {calls : List (Option (F × List (OrderBuilder F)))}
    (hrun : run execute (new strategy) moves = some (bot, calls)) : bot.Fresh :=
  Machine.run_invariant (fun _ _ _ _ _ hfresh hstep ↦ hfresh.step hstep) (fresh_new strategy) hrun

/-- In every interleaving each iteration after the construction of the order management system
passes its inventory at that moment to the strategy. -/
theorem execute_sees_inventory {strategy : σ} {moves : List (BotStep F)}
    {calls : List (Option (F × List (OrderBuilder F)))}
    (hrun : run execute (new strategy) moves = some (bot, calls))
    {oms : OrderManagementSystem F} (hconstructed : bot.oms = some oms) {orderBook : OrderBook F}
    (hstep : bot.step execute (.iterate orderBook) = some (next, call)) :
    call = some (oms.inventory,
      (execute bot.runner.strategy orderBook oms.inventory).2) ∧ next.oms = some oms := by
  simp only [step, Option.map_eq_some_iff] at hstep
  obtain ⟨inventory, hinventory, heq⟩ := hstep
  obtain ⟨rfl, rfl⟩ := Prod.mk.inj heq
  refine ⟨?_, hconstructed⟩
  obtain hfull | ⟨hempty, hlocal⟩ := fresh_of_run hrun oms hconstructed
  · simp [StrategyRunner.iterate, InventoryQueue.pop, hfull]
  · obtain rfl := Option.some.inj (hinventory.symm.trans hlocal)
    simp [StrategyRunner.iterate, InventoryQueue.pop, hempty]

/-- A runner that starts and iterates before the construction, then after a fill. -/
def sampleMoves : List (BotStep ℚ) :=
  [.start, .iterate OrderBook.default, .construct sampleConfig,
    .oms (.forward RiskManager.evaluateOrder sampleBuy),
    .oms (.event (.executionUpdate sampleExecution))]

theorem execute_sees_inventory_sample :
    ∃ bot calls oms next call, run (fun _ _ _ ↦ ((), [])) (new ()) sampleMoves = some (bot, calls) ∧
      bot.oms = some oms ∧ oms.inventory = 249 / 10 ∧
      bot.step (fun _ _ _ ↦ ((), [])) (.iterate OrderBook.default) = some (next, call) ∧
      call = some (oms.inventory, []) := by
  have hrun : (run (fun _ _ _ ↦ ((), [])) (new ()) sampleMoves).any fun result ↦
      result.1.oms.any (fun oms ↦ decide (oms.inventory = 249 / 10)) &&
        (result.1.step (fun _ _ _ ↦ ((), [])) (.iterate OrderBook.default)).any fun _ ↦ true := by
    decide +kernel
  simp only [Option.any_eq_true, Bool.and_eq_true, decide_eq_true_eq] at hrun
  obtain ⟨⟨bot, calls⟩, hmoves, ⟨oms, hconstructed, hinventory⟩, ⟨next, call⟩, hstep, -⟩ := hrun
  exact ⟨bot, calls, oms, next, call, hmoves, hconstructed, hinventory, hstep,
    (execute_sees_inventory hmoves hconstructed hstep).1⟩

end Bot

end MarketMaker
