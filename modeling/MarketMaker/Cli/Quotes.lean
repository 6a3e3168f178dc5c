import MarketMaker.Cli.Delivery

/-!
# What the orders were quoted from

The strategy takes the inventory from the queue, reads the book of the triple buffer and sends its
orders, while the order management system and the public stream go on.  In every interleaving the
inventory is that of the order management system at the moment it was taken, and the book is the one
published last at the moment it was read, which mirrors the exchange's book up to the message being
processed.
-/

namespace MarketMaker

variable {F : Type}

def Publication.forStrategy : Publication F → Option (OrderBook F)
  | .publish orderBook => some orderBook
  | .forcePush _ => none

def Publication.forRecorder : Publication F → Option (OrderBook F)
  | .publish _ => none
  | .forcePush orderBook => some orderBook

def publicationsOf (orderBook : OrderBook F) : List (Publication F) :=
  [.publish orderBook, .forcePush orderBook]

namespace Activity

def response : Activity F → List BasePublicResponse
  | .received response => [response]
  | _ => []

def publication : Activity F → List (Publication F)
  | .published orderBook => [.publish orderBook]
  | .pushed orderBook => [.forcePush orderBook]
  | _ => []

def publishedBook : Activity F → List (OrderBook F)
  | .published orderBook => [orderBook]
  | _ => []

def ofStrategy : Activity F → Bool
  | .polled _ | .executed _ _ _ _ => true
  | _ => false

end Activity

open Activity

theorem publishedBook_eq (log : List (Activity F)) :
    log.flatMap publishedBook = (log.flatMap publication).filterMap Publication.forStrategy := by
  rw [List.filterMap_flatMap]
  congr 1
  funext activity
  cases activity <;> rfl

theorem pushedBook_eq (log : List (Activity F)) :
    log.flatMap pushedBook = (log.flatMap publication).filterMap Publication.forRecorder := by
  rw [List.filterMap_flatMap]
  congr 1
  funext activity
  cases activity <;> rfl

def bookAfter (log : List (Activity F)) : OrderBook F :=
  (log.flatMap publishedBook).getLast?.getD OrderBook.default

/-- The inventory of the order management system after a log, zero before its construction. -/
def inventoryAfter [F64 F] [Add F] [Sub F] [Mul F] [Div F] [LT F] [DecidableLT F] [BEq F]
    [OfScientific F] (log : List (Activity F)) : F :=
  match log.flatMap configuration with
  | [] => 0.0
  | omsConfig :: _ => ((OrderManagementSystem.new omsConfig).1.cycle (log.flatMap omsInput)).elim
      0.0 fun result ↦ result.1.inventory

namespace Threads

def inventory [OfScientific F] (threads : Threads F) : F :=
  threads.oms.elim 0.0 OrderManagementSystem.inventory

def localInventory (threads : Threads F) : Option F :=
  threads.strategy.bind fun strategy ↦ strategy.runner.inventory

/-- A full queue holds the current inventory; beside an empty one the strategy does, unless both
threads are at their beginning. -/
def Fresh [OfScientific F] (threads : Threads F) : Prop :=
  threads.inventoryQueue = some threads.inventory ∨
    threads.inventoryQueue = none ∧ (threads.localInventory = some threads.inventory ∨
      threads.localInventory = none ∧ threads.oms = none)

/-- A poll takes the current inventory. -/
theorem Fresh.poll [OfScientific F] {threads : Threads F} (hfresh : threads.Fresh)
    {strategy : StrategyThread F} {inventory : F} (hstrategy : threads.strategy = some strategy)
    (hinventory : strategy.runner.inventory = some inventory) :
    threads.inventoryQueue.getD inventory = threads.inventory := by
  obtain hfull | ⟨hempty, hlocal | ⟨hlocal, -⟩⟩ := hfresh
  · rw [hfull]
    rfl
  · simp only [localInventory, hstrategy, Option.bind_some, hinventory, Option.some.injEq] at hlocal
    rw [hempty, hlocal]
    rfl
  · simp [localInventory, hstrategy, hinventory] at hlocal

section Run

variable [F64 F] [F64Format F] [Add F] [Sub F] [Mul F] [Div F] [Neg F] [LT F] [DecidableLT F]
  [LE F] [DecidableLE F] [BEq F] [DecidableEq F] [OfScientific F]

variable {threads next : Threads F} {move : ThreadStep F} {log output : List (Activity F)}

/-- A step writes one entry at most. -/
theorem Transition.length_le_one (htransition : threads.Transition move next log) :
    log.length ≤ 1 := by
  cases htransition <;> simp

/-! ## The inventory -/

omit [F64Format F] [Neg F] [LE F] [DecidableLE F] [DecidableEq F] in
theorem Fresh.turn (hfresh : threads.Fresh) {oms after : OrderManagementSystem F}
    {input : OmsInput F} {effects : List (Effect F)} (homs : threads.oms = some oms)
    (hturn : oms.step input = some (after, effects)) (hafter : next.oms = some after)
    (hqueue : next.inventoryQueue = threads.inventoryQueue.receive effects)
    (hstrategy : next.strategy = threads.strategy) : next.Fresh := by
  have hnext : next.inventory = after.inventory := by rw [inventory, hafter]; rfl
  have hbefore : threads.inventory = oms.inventory := by rw [inventory, homs]; rfl
  obtain hpush | ⟨hkept, hinventory⟩ := Bot.receive_transition
    (OrderManagementSystem.transition_of_step hturn) threads.inventoryQueue
  · left
    rw [hqueue, hpush, hnext]
  · unfold Fresh localInventory at hfresh ⊢
    rw [hqueue, hkept, hnext, hinventory, ← hbefore, hstrategy, hafter]
    obtain hfull | ⟨hempty, hlocal | ⟨-, hnone⟩⟩ := hfresh
    · exact .inl hfull
    · exact .inr ⟨hempty, .inl hlocal⟩
    · rw [hnone] at homs
      cases homs

theorem Fresh.after (hfresh : threads.Fresh)
    (htransition : threads.Transition move next output) : next.Fresh := by
  cases htransition with
  | constructOms => exact .inl rfl
  | takeOrder homs hnext hturn => exact hfresh.turn homs hturn rfl rfl rfl
  | takeEvent homs hnext hturn => exact hfresh.turn homs hturn rfl rfl rfl
  | constructStrategy hnone =>
    obtain hfull | ⟨hempty, hlocal | ⟨-, homs⟩⟩ := hfresh
    · exact .inl hfull
    · simp [localInventory, hnone] at hlocal
    · exact .inr ⟨hempty, .inr ⟨rfl, homs⟩⟩
  | startStrategy hstrategy hinventory =>
    right
    refine ⟨rfl, .inl ?_⟩
    obtain hfull | ⟨hempty, hlocal | ⟨-, homs⟩⟩ := hfresh
    · simp [localInventory, inventory, hfull]
    · simp [localInventory, hstrategy, hinventory] at hlocal
    · simp [localInventory, inventory, hempty, homs]
  | pollInventory hstrategy hpolled hinventory =>
    right
    refine ⟨rfl, .inl ?_⟩
    obtain hfull | ⟨hempty, hlocal | ⟨hlocal, -⟩⟩ := hfresh
    · simp [localInventory, inventory, hfull]
    · simp only [localInventory, hstrategy, Option.bind_some, hinventory] at hlocal
      simp [localInventory, hempty, hlocal, inventory]
    · simp [localInventory, hstrategy, hinventory] at hlocal
  | execute hstrategy =>
    obtain hfull | ⟨hempty, hlocal⟩ := hfresh
    · exact .inl hfull
    · right
      refine ⟨hempty, ?_⟩
      simpa [localInventory, hstrategy, inventory] using hlocal
  | _ => exact hfresh

variable {config : AppConfig F} {steps : List (ThreadStep F)}

theorem fresh_of_run (hrun : run (new config) steps = some (threads, log)) : threads.Fresh := by
  apply Machine.play_history (motive := fun _ threads ↦ threads.Fresh) _ _ hrun
  · exact .inr ⟨rfl, .inr ⟨rfl, rfl⟩⟩
  · intro log current move next output hfresh hstep
    exact hfresh.after (transition_of_step hstep)

/-- The inventory of the order management system is the one computed from the log. -/
theorem inventory_of_run (hrun : run (new config) steps = some (threads, log)) :
    threads.inventory = inventoryAfter log := by
  obtain ⟨hnone, hconfiguration, -⟩ | ⟨oms, omsConfig, _, _, _, hsome, -, hconfiguration, hcycle⟩ :=
    omsRuns_of_run hrun
  · rw [inventory, hnone, inventoryAfter, hconfiguration]
    rfl
  · rw [inventory, hsome, inventoryAfter, hconfiguration]
    simp only [hcycle]
    rfl

/-! ## The iteration of the strategy -/

/-- The strategy is the configured one, and within an iteration the inventory it holds is the one it
polled last. -/
structure Iterates (config : AppConfig F) (threads : Threads F) (log : List (Activity F)) :
    Prop where
  constructed : ∀ strategy, threads.strategy = some strategy →
    ∃ instrumentsInfo, simpleStrategy config instrumentsInfo = .ok strategy.runner.strategy
  polled : ∀ strategy, threads.strategy = some strategy → strategy.polled = true →
    ∃ before inventory after, log = before ++ .polled inventory :: after ∧
      (∀ activity ∈ after, activity.ofStrategy = false) ∧
      strategy.runner.inventory = some inventory ∧ inventory = inventoryAfter before

omit [Neg F] [LE F] [DecidableLE F] [DecidableEq F] in
/-- A step of another thread. -/
theorem Iterates.of_same (hiterates : threads.Iterates config log)
    (hstrategy : next.strategy = threads.strategy)
    (hother : ∀ activity ∈ output, activity.ofStrategy = false) :
    next.Iterates config (log ++ output) where
  constructed := by
    rw [hstrategy]
    exact hiterates.constructed
  polled := by
    rw [hstrategy]
    intro strategy hsome hpolled
    obtain ⟨before, inventory, after, hlog, hafter, hlocal, hinventory⟩ :=
      hiterates.polled strategy hsome hpolled
    refine ⟨before, inventory, after ++ output, ?_, ?_, hlocal, hinventory⟩
    · rw [hlog, List.append_assoc]
      rfl
    · intro activity hmem
      exact (List.mem_append.mp hmem).elim (hafter activity) (hother activity)

theorem iterates_of_run (hrun : run (new config) steps = some (threads, log)) :
    threads.Iterates config log := by
  apply Machine.play_induction (motive := fun log threads ↦ threads.Iterates config log) _ _ hrun
  · exact ⟨by simp [new], by simp [new]⟩
  · intro first log current move next output hfirst hiterates hstep
    cases transition_of_step hstep with
    | constructStrategy hnone hstrategy =>
      constructor
      · intro strategy hsome
        obtain rfl := Option.some.inj hsome
        rw [config_of_run hfirst] at hstrategy
        exact ⟨_, hstrategy⟩
      · intro strategy hsome hpolled
        obtain rfl := Option.some.inj hsome
        cases hpolled
    | @startStrategy before hstrategy hinventory =>
      constructor
      · intro strategy hsome
        obtain rfl := Option.some.inj hsome
        exact hiterates.constructed before hstrategy
      · intro strategy hsome hpolled
        obtain rfl := Option.some.inj hsome
        obtain ⟨_, inventory, _, -, -, hlocal, -⟩ := hiterates.polled before hstrategy hpolled
        simp [hinventory] at hlocal
    | @pollInventory before _ hstrategy hpolled hinventory =>
      constructor
      · intro strategy hsome
        obtain rfl := Option.some.inj hsome
        exact hiterates.constructed before hstrategy
      · intro strategy hsome _
        obtain rfl := Option.some.inj hsome
        refine ⟨log, _, [], rfl, by simp, rfl, ?_⟩
        rw [(fresh_of_run hfirst).poll hstrategy hinventory, inventory_of_run hfirst]
    | @execute before _ _ hstrategy =>
      constructor
      · intro strategy hsome
        obtain rfl := Option.some.inj hsome
        exact hiterates.constructed before hstrategy
      · intro strategy hsome hpolled
        obtain rfl := Option.some.inj hsome
        cases hpolled
    | _ => exact hiterates.of_same rfl (by simp [ofStrategy])

theorem orderBook_of_run (hrun : run (new config) steps = some (threads, log)) :
    threads.orderBook = bookAfter log := by
  apply Machine.play_history (motive := fun log threads ↦ threads.orderBook = bookAfter log) rfl _
    hrun
  intro log current move next output hbook hstep
  cases transition_of_step hstep with
  | publish => simp [bookAfter, publishedBook]
  | _ => simpa [bookAfter, publishedBook] using hbook

/-- An execution of the strategy after the log: it is the configured one, the book is the one
published last, and the inventory is that of the order management system when this iteration took
it. -/
def QuotesCurrent (config : AppConfig F) (before : List (Activity F)) : Activity F → Prop
  | .executed strategy orderBook inventory orders =>
    strategy.execute orderBook inventory = .ok orders ∧
      (∃ instrumentsInfo, simpleStrategy config instrumentsInfo = .ok strategy) ∧
      orderBook = bookAfter before ∧
      ∃ first between, before = first ++ .polled inventory :: between ∧
        (∀ activity ∈ between, activity.ofStrategy = false) ∧ inventory = inventoryAfter first
  | _ => True

/-- Every execution of the strategy uses the current book and inventory. -/
theorem quotesCurrent_of_run (hrun : run (new config) steps = some (threads, log)) :
    ∀ before activity after, log = before ++ activity :: after →
      QuotesCurrent config before activity := by
  apply Machine.entry_of_play (motive := QuotesCurrent config) _ hrun
  intro first log current move next output hfirst hstep before activity after houtput
  cases activity with
  | executed strategy orderBook inventory orders =>
    cases transition_of_step hstep with
    | execute hstrategy hpolled hinventory horders =>
      obtain ⟨rfl, hentry⟩ | ⟨rest, rfl, hrest⟩ := List.cons_eq_append_iff.mp houtput
      · obtain ⟨hentry, -⟩ := List.cons.inj hentry
        obtain ⟨rfl, rfl, rfl, rfl⟩ := Activity.executed.inj hentry
        have hiterates := iterates_of_run hfirst
        rw [List.append_nil]
        refine ⟨horders, hiterates.constructed _ hstrategy, orderBook_of_run hfirst, ?_⟩
        obtain ⟨before, polled, after, hlog, hafter, hlocal, hpolled⟩ :=
          hiterates.polled _ hstrategy hpolled
        obtain rfl := Option.some.inj (hinventory.symm.trans hlocal)
        exact ⟨before, after, hlog, hafter, hpolled⟩
      · simp at hrest
    | _ => simp [List.cons_eq_append_iff] at houtput
  | _ => trivial

end Run

end Threads

/-! ## The books -/

section Feed

variable [LinearOrder F] [F64 F] [OfScientific F]

/-- One book for each message, which mirrors the reference after that message. -/
structure FollowsMessages (responses : List BasePublicResponse) (orderBooks : List (OrderBook F)) :
    Prop where
  length : orderBooks.length = responses.length
  mirrors : ∀ (k : ℕ) (orderBook : OrderBook F), orderBooks[k]? = some orderBook →
    orderBook.Mirrors (ReferenceBook.ofMessages (responses.take (k + 1)))

theorem FollowsMessages.message {responses : List BasePublicResponse}
    {orderBooks : List (OrderBook F)} (hfollows : FollowsMessages responses orderBooks)
    {message : BasePublicResponse} {orderBook : OrderBook F}
    (hmirrors : orderBook.Mirrors (ReferenceBook.ofMessages (responses ++ [message]))) :
    FollowsMessages (responses ++ [message]) (orderBooks ++ [orderBook]) := by
  constructor
  · rw [List.length_append, List.length_append, hfollows.length]
    rfl
  · intro k found hfound
    rw [List.getElem?_append] at hfound
    split_ifs at hfound with hk
    · rw [List.take_append_of_le_length (by rw [← hfollows.length]; omega)]
      exact hfollows.mirrors k found hfound
    · rw [List.getElem?_singleton] at hfound
      split_ifs at hfound with hzero
      obtain rfl := Option.some.inj hfound
      rw [List.take_of_length_le]
      · exact hmirrors
      · rw [List.length_append, ← hfollows.length, List.length_singleton]
        omega

/-- The local books after the messages so far: what was published of them, followed by what is still
to be published of the last one. -/
structure Threads.Feeds (threads : Threads F) (log : List (Activity F))
    (orderBooks : List (OrderBook F)) : Prop where
  follows : FollowsMessages (log.flatMap response) orderBooks
  publications : log.flatMap publication ++ threads.publications = orderBooks.flatMap publicationsOf
  remaining : threads.publications <:+ publicationsOf threads.publicWs.orderBook
  current : threads.publicWs.orderBook.Mirrors (ReferenceBook.ofMessages (log.flatMap response))

variable {threads next : Threads F} {log output : List (Activity F)}
  {orderBooks : List (OrderBook F)}

theorem Threads.Feeds.of_same (hfeeds : threads.Feeds log orderBooks)
    (hpublicWs : next.publicWs = threads.publicWs) (hresponse : output.flatMap response = [])
    (hpublications : threads.publications = output.flatMap publication ++ next.publications) :
    next.Feeds (log ++ output) orderBooks := by
  have hmessages : (log ++ output).flatMap response = log.flatMap response := by
    rw [List.flatMap_append, hresponse, List.append_nil]
  refine ⟨hmessages ▸ hfeeds.follows, ?_, ?_, ?_⟩
  · rw [List.flatMap_append, List.append_assoc, ← hpublications]
    exact hfeeds.publications
  · rw [hpublicWs]
    apply (List.suffix_append _ _).trans
    rw [← hpublications]
    exact hfeeds.remaining
  · rw [hmessages, hpublicWs]
    exact hfeeds.current

theorem Threads.Feeds.message (hfeeds : threads.Feeds log orderBooks)
    {message : BasePublicResponse} (hvalid : ValidResponse F message)
    (hidle : threads.publications = []) {publicWs : PublicWebSocket F}
    {publications : List (Publication F)}
    (hprocess : threads.publicWs.processOrderbookResponse message = some (publicWs, publications)) :
    Threads.Feeds { threads with publicWs, publications } (log ++ [.received message])
      (orderBooks ++ [publicWs.orderBook]) := by
  obtain ⟨next, hnext, hmirrors⟩ :=
    PublicWebSocket.processOrderbookResponse_mirrors hvalid hfeeds.current
  obtain ⟨rfl, rfl⟩ := Prod.mk.inj (Option.some.inj (hprocess.symm.trans hnext))
  have hmessages : (log ++ [Activity.received message]).flatMap response =
      log.flatMap response ++ [message] := by
    simp [response]
  have hcurrent : publicWs.orderBook.Mirrors
      (ReferenceBook.ofMessages (log.flatMap response ++ [message])) := by
    rw [ReferenceBook.ofMessages, List.foldl_append]
    exact hmirrors
  refine ⟨?_, ?_, List.suffix_refl _, ?_⟩
  · rw [hmessages]
    exact hfeeds.follows.message hcurrent
  · have hbefore := hfeeds.publications
    rw [hidle, List.append_nil] at hbefore
    simp [hbefore, publication, publicationsOf]
  · rw [hmessages]
    exact hcurrent

/-- The books of one receiver: those of the messages so far, up to the one still to be published. -/
theorem Threads.Feeds.received (hfeeds : threads.Feeds log orderBooks)
    {pick : Publication F → Option (OrderBook F)}
    (hpick : ∀ orderBook, (publicationsOf orderBook).filterMap pick = [orderBook]) :
    (log.flatMap publication).filterMap pick <+: orderBooks ∧
      (log.flatMap response).length ≤ ((log.flatMap publication).filterMap pick).length + 1 := by
  have hall : (log.flatMap publication).filterMap pick ++ threads.publications.filterMap pick =
      orderBooks := by
    rw [← List.filterMap_append, hfeeds.publications, List.filterMap_flatMap]
    simp [hpick]
  have hpending : (threads.publications.filterMap pick).length ≤ 1 := by
    have hsublist := hfeeds.remaining.sublist.filterMap pick
    rw [hpick] at hsublist
    exact hsublist.length_le
  refine ⟨⟨_, hall⟩, ?_⟩
  rw [← hfeeds.follows.length, ← hall, List.length_append]
  omega

end Feed

namespace Threads

section Books

variable [LinearOrder F] [F64 F] [F64Format F] [Add F] [Sub F] [Mul F] [Div F] [Neg F] [BEq F]
  [OfScientific F]

variable {threads : Threads F} {log : List (Activity F)} {config : AppConfig F}
  {steps : List (ThreadStep F)}

theorem feeds_of_run (hrun : run (new config) steps = some (threads, log))
    (hvalid : ∀ message ∈ log.flatMap response, ValidResponse F message) :
    ∃ orderBooks, threads.Feeds log orderBooks := by
  revert hvalid
  apply Machine.play_history (motive := fun log threads ↦
    (∀ message ∈ log.flatMap response, ValidResponse F message) →
      ∃ orderBooks, threads.Feeds log orderBooks) _ _ hrun
  · intro _
    exact ⟨[], ⟨rfl, by simp⟩, rfl, List.nil_suffix, PublicWebSocket.mirrors_new⟩
  · intro log current move next output hbefore hstep hvalid
    rw [List.flatMap_append] at hvalid
    obtain ⟨orderBooks, hfeeds⟩ := hbefore fun message hmem ↦
      hvalid message (List.mem_append_left _ hmem)
    cases transition_of_step hstep with
    | publicResponse hidle hprocess =>
      refine ⟨_, hfeeds.message (hvalid _ ?_) hidle hprocess⟩
      exact List.mem_append_right _ (List.mem_singleton_self _)
    | publish hnext | push hnext => exact ⟨orderBooks, hfeeds.of_same rfl rfl hnext⟩
    | _ => exact ⟨orderBooks, hfeeds.of_same rfl rfl rfl⟩

/-- In every interleaving the books published to the strategy and those pushed to the recorder are
the books after the messages, in order and each once, up to the message being processed; the
recorder takes them in this order and misses a book only for a newer one. -/
theorem books_follow_messages (hrun : run (new config) steps = some (threads, log))
    (hvalid : ∀ message ∈ log.flatMap response, ValidResponse F message) :
    ∃ orderBooks, FollowsMessages (log.flatMap response) orderBooks ∧
      (log.flatMap publishedBook <+: orderBooks ∧
        (log.flatMap response).length ≤ (log.flatMap publishedBook).length + 1) ∧
      (log.flatMap pushedBook <+: orderBooks ∧
        (log.flatMap response).length ≤ (log.flatMap pushedBook).length + 1) ∧
      Machine.Tracks (log.flatMap pushedBook) (log.flatMap processedBook)
        threads.orderBookQueue := by
  obtain ⟨orderBooks, hfeeds⟩ := feeds_of_run hrun hvalid
  rw [publishedBook_eq, pushedBook_eq]
  refine ⟨orderBooks, hfeeds.follows, ?_, ?_, ?_⟩
  · exact hfeeds.received fun _ ↦ rfl
  · exact hfeeds.received fun _ ↦ rfl
  · rw [← pushedBook_eq]
    exact orderBookQueue_of_run hrun

/-- The only message of the sample run can be read. -/
theorem exists_sampleResponses : ∃ threads log,
    run (new sampleConfig) sampleSteps = some (threads, log) ∧
    (∀ message ∈ log.flatMap response, ValidResponse ℚ message) ∧
    log.flatMap forwarded ≠ [] := by
  have hsample : (run (new sampleConfig) sampleSteps).any fun result ↦
      decide (result.2.flatMap response = [PublicWebSocket.sampleSnapshot]) &&
        !(result.2.flatMap forwarded).isEmpty := by
    decide +kernel
  obtain ⟨⟨threads, log⟩, hrun, hfacts⟩ := (Option.any_eq_true ..).mp hsample
  simp only [Bool.and_eq_true, decide_eq_true_eq, Bool.not_eq_true',
    List.isEmpty_eq_false_iff] at hfacts
  obtain ⟨hresponses, hforwarded⟩ := hfacts
  refine ⟨threads, log, hrun, ?_, hforwarded⟩
  intro message hmem
  rw [hresponses, List.mem_singleton] at hmem
  rw [hmem]
  exact PublicWebSocket.valid_sampleSnapshot

theorem books_follow_messages_sample : ∃ threads log,
    run (new sampleConfig) sampleSteps = some (threads, log) ∧
    ∃ orderBooks : List (OrderBook ℚ), FollowsMessages (log.flatMap response) orderBooks ∧
      log.flatMap publishedBook <+: orderBooks ∧ log.flatMap pushedBook <+: orderBooks := by
  obtain ⟨threads, log, hrun, hvalid, -⟩ := exists_sampleResponses
  obtain ⟨orderBooks, hfollows, ⟨hpublished, -⟩, ⟨hpushed, -⟩, -⟩ :=
    books_follow_messages hrun hvalid
  exact ⟨threads, log, hrun, orderBooks, hfollows, hpublished, hpushed⟩

/-- The book of the strategy mirrors the messages up to the one being processed. -/
theorem bookAfter_mirrors (hrun : run (new config) steps = some (threads, log))
    (hvalid : ∀ message ∈ log.flatMap response, ValidResponse F message) :
    ∃ count ≤ (log.flatMap response).length, (log.flatMap response).length ≤ count + 1 ∧
      (bookAfter log).Mirrors (ReferenceBook.ofMessages ((log.flatMap response).take count)) := by
  obtain ⟨orderBooks, hfeeds⟩ := feeds_of_run hrun hvalid
  have hfollows := hfeeds.follows
  have hpick : ∀ orderBook : OrderBook F,
      (publicationsOf orderBook).filterMap Publication.forStrategy = [orderBook] := fun _ ↦ rfl
  obtain ⟨hearlier, hclose⟩ := hfeeds.received hpick
  rw [← publishedBook_eq] at hearlier hclose
  refine ⟨(log.flatMap publishedBook).length, ?_, hclose, ?_⟩
  · rw [← hfollows.length]
    exact hearlier.length_le
  · unfold bookAfter
    rw [List.getLast?_eq_getElem?]
    cases hbook : (log.flatMap publishedBook)[(log.flatMap publishedBook).length - 1]? with
    | none =>
      have hempty : (log.flatMap publishedBook).length = 0 := by
        rw [List.getElem?_eq_none_iff] at hbook
        omega
      rw [hempty]
      exact PublicWebSocket.mirrors_new
    | some orderBook =>
      have hlt := (List.getElem?_eq_some_iff.mp hbook).1
      have hfound : orderBooks[(log.flatMap publishedBook).length - 1]? = some orderBook := by
        obtain ⟨rest, heq⟩ := hearlier
        rw [← heq, List.getElem?_append_left hlt, hbook]
      have hmirrors := hfollows.mirrors _ orderBook hfound
      rwa [Nat.sub_add_cancel (by omega)] at hmirrors

/-- In every interleaving each order that the order management system takes was quoted by the
configured strategy, from the book after some prefix of the messages received when it was quoted,
all but possibly the last one, and from the inventory that the order management system had when the
iteration began. -/
theorem orders_quoted_from_current_state (hrun : run (new config) steps = some (threads, log))
    (hvalid : ∀ message ∈ log.flatMap response, ValidResponse F message)
    {order : OrderBuilder F} (horder : order ∈ log.flatMap forwarded) :
    ∃ first between after strategy orderBook inventory orders,
      log = first ++ .polled inventory :: between ++
        .executed strategy orderBook inventory orders :: after ∧
      (∀ activity ∈ between, activity.ofStrategy = false) ∧
      order ∈ orders ∧ strategy.execute orderBook inventory = .ok orders ∧
      (∃ instrumentsInfo, simpleStrategy config instrumentsInfo = .ok strategy) ∧
      inventory = inventoryAfter first ∧
      ∃ messages, messages = (first ++ .polled inventory :: between).flatMap response ∧
        ∃ count ≤ messages.length, messages.length ≤ count + 1 ∧
          orderBook.Mirrors (ReferenceBook.ofMessages (messages.take count)) := by
  have hissued : order ∈ log.flatMap issued := by
    rw [strategyOrders_of_run hrun]
    exact List.mem_append_left _ horder
  obtain ⟨activity, hactivity, hmem⟩ := List.mem_flatMap.mp hissued
  cases activity with
  | executed strategy orderBook inventory orders =>
    obtain ⟨before, after, hlog⟩ := List.append_of_mem hactivity
    obtain ⟨hexecute, hstrategy, hbook, first, between, hbefore, hbetween, hinventory⟩ :=
      quotesCurrent_of_run hrun before _ after hlog
    obtain ⟨steps', current, hearlier⟩ := Machine.prefix_of_play (fun _ _ _ _ hstep ↦
      (transition_of_step hstep).length_le_one) hrun before _ after hlog
    obtain ⟨count, hle, hclose, hmirrors⟩ := bookAfter_mirrors hearlier fun message hmem ↦
      hvalid message (by rw [hlog, List.flatMap_append]; exact List.mem_append_left _ hmem)
    rw [← hbook] at hmirrors
    rw [hbefore] at hlog hle hclose hmirrors
    exact ⟨first, between, after, strategy, orderBook, inventory, orders, hlog, hbetween, hmem,
      hexecute, hstrategy, hinventory, _, rfl, count, hle, hclose, hmirrors⟩
  | _ => simp [issued] at hmem

theorem orders_quoted_from_current_state_sample : ∃ threads log,
    run (new sampleConfig) sampleSteps = some (threads, log) ∧
    ∃ order ∈ log.flatMap forwarded, ∃ first between after strategy orderBook inventory orders,
      log = first ++ .polled inventory :: between ++
        .executed strategy orderBook inventory orders :: after ∧
      order ∈ orders ∧ strategy.execute orderBook inventory = .ok orders ∧
      inventory = inventoryAfter first := by
  obtain ⟨threads, log, hrun, hvalid, hforwarded⟩ := exists_sampleResponses
  obtain ⟨order, horder⟩ := List.exists_mem_of_ne_nil _ hforwarded
  obtain ⟨first, between, after, strategy, orderBook, inventory, orders, hlog, -, hmem, hexecute, -,
    hinventory, -⟩ := orders_quoted_from_current_state hrun hvalid horder
  exact ⟨threads, log, hrun, order, horder, first, between, after, strategy, orderBook, inventory,
    orders, hlog, hmem, hexecute, hinventory⟩

end Books

end Threads

end MarketMaker
