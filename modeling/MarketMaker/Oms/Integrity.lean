import MarketMaker.Oms.Responses

/-!
# Integrity of the order table

What a reader of the table may rely on while fewer than `2^64` orders were submitted: the index is
a bijection between the ids handed to the gateway and the slab keys, an issued id leads to the
order built for it and any other id to nothing, and an order once stored stays under its key with
its identity.  Amendments and withheld orders leave the whole state as it is.
-/

namespace MarketMaker.OrderManagementSystem

variable {F : Type}

/-- The index maps the issued ids one to one onto the slab keys. -/
structure IndexBijective (issued : List UInt64) (oms : OrderManagementSystem F) : Prop where
  issued_iff : ∀ id, id ∈ issued ↔ ∃ k, oms.idMap.lookup id = some k
  key_iff : ∀ k, k < oms.orders.length ↔ ∃ id, oms.idMap.lookup id = some k
  injective : ∀ id id' k, oms.idMap.lookup id = some k → oms.idMap.lookup id' = some k → id = id'

/-- Every order of `oms` is still stored in `later`, under its key and with its identity. -/
def Retains (later oms : OrderManagementSystem F) : Prop :=
  ∀ (k : ℕ) (stored : Order F), oms.orders[k]? = some stored →
    ∃ stored', later.orders[k]? = some stored' ∧ stored'.identity = stored.identity

theorem order_eq_none {oms : OrderManagementSystem F} {id : UInt64} (hunknown : id ∉ oms.idMap) :
    oms.order id = none := by
  rw [order, Finmap.lookup_eq_none.mpr hunknown]
  rfl

variable [F64 F] [OfScientific F]

/-- A forward that submits nothing changes nothing. -/
theorem forwardOrders_of_not_newOrder {oms : OrderManagementSystem F}
    {riskPolicy : RiskPolicy F} {builder : OrderBuilder F} {outcome : Outcome F}
    (hpolicy : riskPolicy oms.orders builder oms.metrics.inventory
      oms.metrics.averageEntryPrice = some outcome)
    (hnew : ∀ order, outcome ≠ .newOrder order) :
    ∃ effects, oms.forwardOrders builder riskPolicy = some (oms, effects) ∧
      submittedIds effects = [] := by
  cases outcome with
  | newOrder order => exact absurd rfl (hnew order)
  | amendOrder order => exact ⟨[.amendOrder order], by simp [forwardOrders, hpolicy], rfl⟩
  | doNothing => exact ⟨[], by simp [forwardOrders, hpolicy], rfl⟩

variable [Add F] [Sub F] [Mul F] [Div F] [LT F] [DecidableLT F] [BEq F]
variable {config : OmsConfig F} {oms next : OrderManagementSystem F} {input : OmsInput F}
  {inputs : List (OmsInput F)} {effects : List (Effect F)} {outputs : List (List (Effect F))}

/-- A submission stores the order built for it. -/
theorem Transition.stored_of_submitOrder (htransition : oms.Transition input next effects)
    {builder : OrderBuilder F} {id : UInt64} (hmem : .submitOrder builder id ∈ effects) :
    ∃ stored, builder.build id = some stored ∧ next.orders = oms.orders ++ [stored] := by
  cases htransition with
  | @submit _ _ order stored _ hbuild =>
    obtain ⟨rfl, rfl⟩ : builder = order ∧ id = oms.idGenerator := by simpa using hmem
    exact ⟨stored, hbuild, rfl⟩
  | amend | hold | discard | update | failure => simp at hmem
  | execution =>
    unfold settlement at hmem
    split at hmem <;> simp at hmem

/-- A run loses no order. -/
theorem retains_of_cycle (hrun : oms.cycle inputs = some (next, outputs)) : next.Retains oms := by
  intro k stored hstored
  refine Machine.run_invariant (motive := fun state : OrderManagementSystem F ↦
    ∃ stored', state.orders[k]? = some stored' ∧ stored'.identity = stored.identity)
    ?_ ⟨stored, hstored, rfl⟩ hrun
  intro state _ _ later output hkept hstep
  obtain ⟨stored', hstored', hsame⟩ := hkept
  obtain ⟨stored'', hstored'', hsame'⟩ := (transition_of_step hstep).identity_eq hstored'
  exact ⟨stored'', hstored'', hsame'.trans hsame⟩

/-- Every submitted order is stored with the identity its builder gave it. -/
theorem stored_of_submitOrder (hrun : (new config).1.cycle inputs = some (oms, outputs))
    {builder : OrderBuilder F} {id : UInt64} (hmem : .submitOrder builder id ∈ outputs.flatten) :
    ∃ (k : ℕ) (stored : Order F), oms.orders[k]? = some stored ∧
      stored.identity = (id, builder.symbol, builder.side, builder.orderType) := by
  refine Machine.run_history (motive := fun _ (state : OrderManagementSystem F) outputs ↦
    .submitOrder builder id ∈ outputs.flatten → ∃ (k : ℕ) (stored : Order F),
      state.orders[k]? = some stored ∧
        stored.identity = (id, builder.symbol, builder.side, builder.orderType)) ?_ ?_ hrun hmem
  · simp
  · intro first middle front input next output _ ih hstep hmem
    rw [List.flatten_append, List.flatten_singleton, List.mem_append] at hmem
    rcases hmem with hmem | hmem
    · obtain ⟨k, stored, hstored, hidentity⟩ := ih hmem
      obtain ⟨stored', hstored', hsame⟩ := (transition_of_step hstep).identity_eq hstored
      exact ⟨k, stored', hstored', hsame.trans hidentity⟩
    · obtain ⟨stored, hbuild, horders⟩ := (transition_of_step hstep).stored_of_submitOrder hmem
      obtain ⟨hid, -, hsymbol, hside, htype, -⟩ := OrderBuilder.build_eq_some hbuild
      refine ⟨middle.orders.length, stored, by rw [horders, List.getElem?_concat_length], ?_⟩
      rw [Order.identity, hid, hsymbol, hside, htype]

/-- The number of submissions is the number of stored orders. -/
theorem length_submittedIds (hrun : (new config).1.cycle inputs = some (oms, outputs)) :
    (submittedIds outputs.flatten).length = oms.orders.length := by
  simp [submittedIds_of_cycle hrun]

/-- Before the counter wraps the submitted ids are distinct. -/
theorem nodup_submittedIds (hrun : (new config).1.cycle inputs = some (oms, outputs))
    (hlength : oms.orders.length < 2 ^ 64) : (submittedIds outputs.flatten).Nodup := by
  rw [submittedIds_of_cycle hrun]
  exact nodup_linkIds config.initialOrderLinkId hlength.le

theorem indexBijective_of_cycle (hrun : (new config).1.cycle inputs = some (oms, outputs))
    (hlength : oms.orders.length < 2 ^ 64) :
    oms.IndexBijective (submittedIds outputs.flatten) := by
  have hindexed := indexed_of_cycle hrun
  constructor
  · intro id
    rw [← mem_idMap_iff_submitted hrun, Finmap.mem_iff]
  · intro k
    constructor
    · intro hk
      exact ⟨_, hindexed.lookup_linkId hlength.le hk⟩
    · rintro ⟨id, hlookup⟩
      exact (hindexed.lookup_some id k hlookup).1
  · intro id id' k hid hid'
    exact (hindexed.lookup_some id k hid).2.trans (hindexed.lookup_some id' k hid').2.symm

/-- The order table of every run with fewer than `2^64` submissions: the index is a bijection
between the submitted ids and the slab keys; the submitted ids are distinct and count up from the
configured one modulo `2^64`; a submitted id leads to an order with this id and with the symbol,
side and type of its builder, any other id to nothing; every order stored at an earlier point of
the run is still stored and found; and a policy outcome other than a new order leaves the state
as it is. -/
theorem order_table_integrity (hrun : (new config).1.cycle inputs = some (oms, outputs))
    (hfew : (submittedIds outputs.flatten).length < 2 ^ 64) :
    oms.IndexBijective (submittedIds outputs.flatten) ∧
    (submittedIds outputs.flatten).Nodup ∧
    submittedIds outputs.flatten = (List.range (submittedIds outputs.flatten).length).map
      (linkId config.initialOrderLinkId) ∧
    (∀ builder id, .submitOrder builder id ∈ outputs.flatten →
      ∃ stored, oms.order id = some stored ∧
        stored.identity = (id, builder.symbol, builder.side, builder.orderType)) ∧
    (∀ id ∉ submittedIds outputs.flatten, oms.order id = none) ∧
    (∀ front back middle frontOutputs, inputs = front ++ back →
      (new config).1.cycle front = some (middle, frontOutputs) → oms.Retains middle ∧
        ∀ id stored, middle.order id = some stored →
          ∃ stored', oms.order id = some stored' ∧ stored'.identity = stored.identity) ∧
    ∀ (riskPolicy : RiskPolicy F) builder outcome,
      riskPolicy oms.orders builder oms.metrics.inventory oms.metrics.averageEntryPrice =
        some outcome → (∀ order, outcome ≠ .newOrder order) →
      ∃ effects, oms.forwardOrders builder riskPolicy = some (oms, effects) ∧
        submittedIds effects = [] := by
  have hindexed := indexed_of_cycle hrun
  have hcount := length_submittedIds hrun
  have hlength : oms.orders.length < 2 ^ 64 := by omega
  have hfound : ∀ stored ∈ oms.orders, oms.order stored.orderLinkId = some stored :=
    fun stored hmem ↦ (mem_orders_iff hindexed hlength.le).mp hmem
  refine ⟨indexBijective_of_cycle hrun hlength, nodup_submittedIds hrun hlength, ?_, ?_, ?_, ?_,
    fun _ _ _ hpolicy hnew ↦ forwardOrders_of_not_newOrder hpolicy hnew⟩
  · rw [hcount]
    exact submittedIds_of_cycle hrun
  · intro builder id hmem
    obtain ⟨k, stored, hstored, hidentity⟩ := stored_of_submitOrder hrun hmem
    have hid : stored.orderLinkId = id := congrArg Prod.fst hidentity
    exact ⟨stored, hid ▸ hfound stored (List.mem_of_getElem? hstored), hidentity⟩
  · intro id hid
    rw [← mem_idMap_iff_submitted hrun] at hid
    exact order_eq_none hid
  · rintro front back middle frontOutputs rfl hfront
    obtain ⟨_, _, _, hfront', hback, -⟩ := Machine.run_append_eq_some.mp hrun
    obtain ⟨rfl, rfl⟩ := Prod.mk.inj (Option.some.inj (hfront.symm.trans hfront'))
    have hretains := retains_of_cycle hback
    refine ⟨hretains, ?_⟩
    intro id stored hstored
    obtain ⟨k, -, hk⟩ := order_eq_some.mp hstored
    obtain ⟨stored', hstored', hsame⟩ := hretains k stored hk
    have hid : stored'.orderLinkId = id :=
      (congrArg Prod.fst hsame).trans (orderLinkId_of_order (indexed_of_cycle hfront) hstored)
    exact ⟨stored', hid ▸ hfound stored' (List.mem_of_getElem? hstored'), hsame⟩

/-- A counter that starts at the last id wraps between two submissions. -/
theorem order_table_integrity_sample :
    ∃ oms outputs, (new { sampleConfig with initialOrderLinkId := 18446744073709551615 }).1.cycle
        [.forward RiskManager.evaluateOrder sampleBuy,
          .event (.submissionFailed 18446744073709551615),
          .forward RiskManager.evaluateOrder sampleBuy] = some (oms, outputs) ∧
      submittedIds outputs.flatten = [18446744073709551615, 0] ∧
      (submittedIds outputs.flatten).Nodup ∧ oms.order 1 = none := by
  have houtputs : ((new { sampleConfig with initialOrderLinkId := 18446744073709551615 }).1.cycle
      [.forward RiskManager.evaluateOrder sampleBuy,
        .event (.submissionFailed 18446744073709551615),
        .forward RiskManager.evaluateOrder sampleBuy]).map Prod.snd =
      some [[.submitOrder sampleBuy 18446744073709551615], [], [.submitOrder sampleBuy 0]] := by
    decide +kernel
  obtain ⟨⟨oms, outputs⟩, hrun, rfl⟩ := Option.map_eq_some_iff.mp houtputs
  have hintegrity := order_table_integrity hrun (by decide)
  exact ⟨oms, _, hrun, by decide, hintegrity.2.1, hintegrity.2.2.2.2.1 1 (by decide)⟩

end MarketMaker.OrderManagementSystem
