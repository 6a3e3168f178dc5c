import MarketMaker.Oms.System

/-!
# The order table

The link between the id generator, the index and the slab, kept by every transition from any
initial link id: the order under slab key `k` carries the `k`-th id counted from the initial one
modulo `2^64`, and the index maps an issued id to a key that carries it.  While fewer than `2^64`
orders were submitted the ids are distinct and the index is exact.

A transition never changes the link id, symbol, side or type of a stored order.
-/

namespace MarketMaker

variable {F : Type}

/-- The link id of the submission number `k`, counted from zero. -/
def linkId (initial : UInt64) (k : ℕ) : UInt64 := initial + UInt64.ofNat k

theorem linkId_succ (initial : UInt64) (k : ℕ) : linkId initial (k + 1) = linkId initial k + 1 := by
  rw [linkId, linkId, UInt64.ofNat_add, UInt64.add_assoc]
  rfl

/-- Ids repeat only after the counter has wrapped. -/
theorem linkId_inj {initial : UInt64} {j k : ℕ} (hj : j < 2 ^ 64) (hk : k < 2 ^ 64)
    (heq : linkId initial j = linkId initial k) : j = k := by
  have hofNat : UInt64.ofNat j = UInt64.ofNat k := (UInt64.add_right_inj initial).mp heq
  rw [← UInt64.toNat_ofNat_of_lt' (n := j) hj, hofNat, UInt64.toNat_ofNat_of_lt' hk]

theorem nodup_linkIds (initial : UInt64) {n : ℕ} (hn : n ≤ 2 ^ 64) :
    ((List.range n).map (linkId initial)).Nodup := by
  apply List.Nodup.map_on _ List.nodup_range
  intro j hj k hk heq
  rw [List.mem_range] at hj hk
  exact linkId_inj (by omega) (by omega) heq

/-- What an order keeps for life. -/
def Order.identity (order : Order F) : UInt64 × String × OrderSide × OrderType :=
  (order.orderLinkId, order.symbol, order.side, order.orderType)

@[simp]
theorem Order.identity_copyUpdate (oldOrder : Order F) (order : OrderUpdate F) :
    (oldOrder.copyUpdate order).identity = oldOrder.identity := rfl

def Effect.submittedId : Effect F → Option UInt64
  | .submitOrder _ orderLinkId => some orderLinkId
  | _ => none

def submittedIds (effects : List (Effect F)) : List UInt64 := effects.filterMap Effect.submittedId

namespace OrderManagementSystem

@[simp]
theorem orders_setOrder (oms : OrderManagementSystem F) (slabId : ℕ) (changed : Order F) :
    (oms.setOrder slabId changed).orders = oms.orders.set slabId changed := rfl

@[simp]
theorem idMap_setOrder (oms : OrderManagementSystem F) (slabId : ℕ) (changed : Order F) :
    (oms.setOrder slabId changed).idMap = oms.idMap := rfl

@[simp]
theorem idGenerator_setOrder (oms : OrderManagementSystem F) (slabId : ℕ) (changed : Order F) :
    (oms.setOrder slabId changed).idGenerator = oms.idGenerator := rfl

@[simp]
theorem metrics_setOrder (oms : OrderManagementSystem F) (slabId : ℕ) (changed : Order F) :
    (oms.setOrder slabId changed).metrics = oms.metrics := rfl

@[simp]
theorem processedExecutions_setOrder (oms : OrderManagementSystem F) (slabId : ℕ)
    (changed : Order F) :
    (oms.setOrder slabId changed).processedExecutions = oms.processedExecutions := rfl

@[simp]
theorem orders_store (oms : OrderManagementSystem F) (stored : Order F) :
    (oms.store stored).orders = oms.orders ++ [stored] := rfl

@[simp]
theorem metrics_store (oms : OrderManagementSystem F) (stored : Order F) :
    (oms.store stored).metrics = oms.metrics := rfl

@[simp]
theorem processedExecutions_store (oms : OrderManagementSystem F) (stored : Order F) :
    (oms.store stored).processedExecutions = oms.processedExecutions := rfl

theorem lookup_store_self (oms : OrderManagementSystem F) (stored : Order F) :
    (oms.store stored).idMap.lookup oms.idGenerator = some oms.orders.length :=
  Finmap.lookup_insert _

theorem lookup_store_of_ne (oms : OrderManagementSystem F) (stored : Order F) {id : UInt64}
    (hne : id ≠ oms.idGenerator) : (oms.store stored).idMap.lookup id = oms.idMap.lookup id :=
  Finmap.lookup_insert_of_ne _ hne

/-- The table invariant for an initial link id. -/
structure Indexed (initial : UInt64) (oms : OrderManagementSystem F) : Prop where
  generator : oms.idGenerator = linkId initial oms.orders.length
  orderLinkId : ∀ k order, oms.orders[k]? = some order → order.orderLinkId = linkId initial k
  lookup_some : ∀ id k, oms.idMap.lookup id = some k →
    k < oms.orders.length ∧ id = linkId initial k
  lookup_isSome : ∀ k < oms.orders.length, (oms.idMap.lookup (linkId initial k)).isSome

namespace Indexed

variable {initial : UInt64} {oms next : OrderManagementSystem F}

theorem mem_idMap_iff (hindexed : oms.Indexed initial) {id : UInt64} :
    id ∈ oms.idMap ↔ ∃ k < oms.orders.length, id = linkId initial k := by
  constructor
  · intro hmem
    obtain ⟨k, hk⟩ := Finmap.mem_iff.mp hmem
    exact ⟨k, hindexed.lookup_some id k hk⟩
  · rintro ⟨k, hk, rfl⟩
    exact Finmap.lookup_isSome.mp (hindexed.lookup_isSome k hk)

/-- An indexed id leads to a stored order that carries it. -/
theorem exists_order (hindexed : oms.Indexed initial) {id : UInt64} {k : ℕ}
    (hlookup : oms.idMap.lookup id = some k) :
    ∃ order, oms.orders[k]? = some order ∧ order.orderLinkId = id := by
  obtain ⟨hk, rfl⟩ := hindexed.lookup_some id k hlookup
  obtain ⟨order, horder⟩ : ∃ order, oms.orders[k]? = some order := ⟨_, List.getElem?_eq_getElem hk⟩
  exact ⟨order, horder, hindexed.orderLinkId k order horder⟩

/-- Before the counter wraps the index is exact. -/
theorem lookup_linkId (hindexed : oms.Indexed initial) (hlength : oms.orders.length ≤ 2 ^ 64)
    {k : ℕ} (hk : k < oms.orders.length) : oms.idMap.lookup (linkId initial k) = some k := by
  obtain ⟨j, hj⟩ := Option.isSome_iff_exists.mp (hindexed.lookup_isSome k hk)
  obtain ⟨hlt, heq⟩ := hindexed.lookup_some _ j hj
  rw [hj, linkId_inj (by omega) (by omega) heq]

theorem new (config : OmsConfig F) :
    (OrderManagementSystem.new config).1.Indexed config.initialOrderLinkId where
  generator := by simp [OrderManagementSystem.new, linkId]
  orderLinkId := by simp [OrderManagementSystem.new]
  lookup_some := by simp [OrderManagementSystem.new]
  lookup_isSome := by simp [OrderManagementSystem.new]

/-- Rewriting a slab entry keeps the table as long as the entry keeps its identity. -/
theorem setOrder (hindexed : oms.Indexed initial) {slabId : ℕ} {oldOrder changed : Order F}
    (hold : oms.orders[slabId]? = some oldOrder) (hsame : changed.identity = oldOrder.identity) :
    (oms.setOrder slabId changed).Indexed initial where
  generator := by simpa using hindexed.generator
  orderLinkId := by
    intro k order horder
    rw [orders_setOrder, List.getElem?_set] at horder
    split_ifs at horder with hk hlt
    · obtain rfl := Option.some.inj horder
      subst hk
      have hid : changed.orderLinkId = oldOrder.orderLinkId := congrArg Prod.fst hsame
      exact hid.trans (hindexed.orderLinkId slabId oldOrder hold)
    · exact hindexed.orderLinkId k order horder
  lookup_some := by simpa using hindexed.lookup_some
  lookup_isSome := by simpa using hindexed.lookup_isSome

theorem store (hindexed : oms.Indexed initial) {stored : Order F}
    (hid : stored.orderLinkId = oms.idGenerator) : (oms.store stored).Indexed initial where
  generator := by
    change oms.idGenerator + 1 = _
    rw [hindexed.generator, orders_store, List.length_append, List.length_singleton, linkId_succ]
  orderLinkId := by
    intro k order horder
    rw [orders_store, List.getElem?_append] at horder
    split_ifs at horder with hk
    · exact hindexed.orderLinkId k order horder
    · obtain ⟨hzero, rfl⟩ : k = oms.orders.length ∧ stored = order := by
        rw [List.getElem?_singleton] at horder
        split_ifs at horder with hsub
        exact ⟨by omega, Option.some.inj horder⟩
      rw [hid, hindexed.generator, hzero]
  lookup_some := by
    intro id k hlookup
    rw [orders_store, List.length_append, List.length_singleton]
    by_cases hgen : id = oms.idGenerator
    · subst hgen
      rw [lookup_store_self] at hlookup
      obtain rfl := Option.some.inj hlookup
      exact ⟨Nat.lt_succ_self _, hindexed.generator⟩
    · rw [lookup_store_of_ne oms stored hgen] at hlookup
      obtain ⟨hk, heq⟩ := hindexed.lookup_some id k hlookup
      exact ⟨by omega, heq⟩
  lookup_isSome := by
    intro k hk
    rw [orders_store, List.length_append, List.length_singleton] at hk
    by_cases hgen : linkId initial k = oms.idGenerator
    · rw [hgen, lookup_store_self]
      rfl
    · rw [lookup_store_of_ne oms stored hgen]
      have hne : k ≠ oms.orders.length := fun heq ↦ hgen (heq ▸ hindexed.generator.symm)
      exact hindexed.lookup_isSome k (by omega)

end Indexed

variable {initial : UInt64} {oms next : OrderManagementSystem F}

theorem AcceptsUpdate.orderLinkId_eq (hindexed : oms.Indexed initial) {message : OrderUpdate F}
    {k : ℕ} {stored : Order F} (haccept : oms.AcceptsUpdate message k stored) :
    message.orderLinkId = stored.orderLinkId :=
  (hindexed.lookup_some _ k haccept.1).2.trans
    (hindexed.orderLinkId k stored haccept.2.1).symm

theorem AcceptsFailure.orderLinkId_eq (hindexed : oms.Indexed initial) {orderLinkId : UInt64}
    {k : ℕ} {stored : Order F} (haccept : oms.AcceptsFailure orderLinkId k stored) :
    orderLinkId = stored.orderLinkId :=
  (hindexed.lookup_some _ k haccept.1).2.trans
    (hindexed.orderLinkId k stored haccept.2.1).symm

variable [F64 F] [Add F] [Sub F] [Mul F] [Div F] [LT F] [DecidableLT F] [BEq F] [OfScientific F]
variable {input : OmsInput F} {effects : List (Effect F)}

theorem Indexed.transition (hindexed : oms.Indexed initial)
    (htransition : oms.Transition input next effects) : next.Indexed initial := by
  cases htransition with
  | submit _ hbuild => exact hindexed.store (OrderBuilder.build_eq_some hbuild).1
  | amend | hold | discard => exact hindexed
  | update haccept => exact hindexed.setOrder haccept.2.1 rfl
  | execution =>
    exact ⟨hindexed.generator, hindexed.orderLinkId, hindexed.lookup_some, hindexed.lookup_isSome⟩
  | failure haccept => exact hindexed.setOrder haccept.2.1 rfl

/-- The table invariant holds in every reachable state. -/
theorem indexed_of_cycle {config : OmsConfig F} {inputs : List (OmsInput F)}
    {outputs : List (List (Effect F))}
    (hrun : (new config).1.cycle inputs = some (oms, outputs)) :
    oms.Indexed config.initialOrderLinkId :=
  Machine.run_invariant
    (fun _ _ _ _ _ hindexed hstep ↦ hindexed.transition (transition_of_step hstep))
    (Indexed.new config) hrun

/-! ## What a transition does to one stored order -/

/-- A stored order stays as it is, takes over an accepted update or is rejected locally. -/
theorem Transition.order_cases (htransition : oms.Transition input next effects) {k : ℕ}
    {stored : Order F} (hstored : oms.orders[k]? = some stored) :
    next.orders[k]? = some stored ∨
      (∃ message, input = .event (.orderUpdate message) ∧ oms.AcceptsUpdate message k stored ∧
        next.orders[k]? = some (stored.copyUpdate message)) ∨
      ∃ orderLinkId, input = .event (.submissionFailed orderLinkId) ∧
        oms.AcceptsFailure orderLinkId k stored ∧
        next.orders[k]? = some { stored with orderStatus := .rejected } := by
  have hlt : k < oms.orders.length := (List.getElem?_eq_some_iff.mp hstored).1
  cases htransition with
  | submit => exact .inl (by simpa [List.getElem?_append, hlt] using hstored)
  | amend | hold | discard | execution => exact .inl hstored
  | @update message slabId oldOrder haccept =>
    by_cases hk : slabId = k
    · subst hk
      obtain rfl := Option.some.inj (haccept.2.1.symm.trans hstored)
      exact .inr (.inl ⟨message, rfl, haccept, by simp [hlt]⟩)
    · exact .inl (by simpa [List.getElem?_set, hk] using hstored)
  | @failure orderLinkId slabId oldOrder haccept =>
    by_cases hk : slabId = k
    · subst hk
      obtain rfl := Option.some.inj (haccept.2.1.symm.trans hstored)
      exact .inr (.inr ⟨orderLinkId, rfl, haccept, by simp [hlt]⟩)
    · exact .inl (by simpa [List.getElem?_set, hk] using hstored)

/-- A stored order keeps its key and its identity. -/
theorem Transition.identity_eq (htransition : oms.Transition input next effects) {k : ℕ}
    {stored : Order F} (hstored : oms.orders[k]? = some stored) :
    ∃ stored', next.orders[k]? = some stored' ∧ stored'.identity = stored.identity := by
  obtain hsame | ⟨_, -, -, hupdate⟩ | ⟨_, -, -, hreject⟩ := htransition.order_cases hstored
  · exact ⟨_, hsame, rfl⟩
  · exact ⟨_, hupdate, rfl⟩
  · exact ⟨_, hreject, rfl⟩

/-- An order after a transition was stored before or is the one just submitted. -/
theorem Transition.order_origin (htransition : oms.Transition input next effects) {k : ℕ}
    {stored : Order F} (hstored : next.orders[k]? = some stored) :
    (∃ before, oms.orders[k]? = some before) ∨
      k = oms.orders.length ∧ ∃ builder, builder.build oms.idGenerator = some stored ∧
        effects = [.submitOrder builder oms.idGenerator] := by
  by_cases hlt : k < oms.orders.length
  · exact .inl ⟨_, List.getElem?_eq_getElem hlt⟩
  right
  have hnext : k < next.orders.length := (List.getElem?_eq_some_iff.mp hstored).1
  cases htransition with
  | @submit _ _ builder order _ hbuild =>
    obtain rfl : k = oms.orders.length := by simp at hnext; omega
    obtain rfl : order = stored := by simpa using hstored
    exact ⟨rfl, builder, hbuild, rfl⟩
  | amend | hold | discard | execution => exact absurd hnext hlt
  | update | failure => exact absurd (by simpa using hnext) hlt

/-! ## Submitted ids -/

/-- The ids a transition hands to the gateway are those of the orders it adds. -/
theorem Transition.submittedIds_eq (hindexed : oms.Indexed initial)
    (htransition : oms.Transition input next effects) :
    submittedIds effects = (List.range' oms.orders.length
      (next.orders.length - oms.orders.length)).map (linkId initial) ∧
      oms.orders.length ≤ next.orders.length := by
  cases htransition with
  | submit =>
    simp [submittedIds, Effect.submittedId, hindexed.generator]
  | amend | hold | discard | update | failure => simp [submittedIds, Effect.submittedId]
  | execution =>
    simp only [submittedIds, settlement, account, Nat.sub_self, List.range'_zero, List.map_nil,
      le_refl, and_true]
    split <;> simp [Effect.submittedId]

/-- The ids handed to the gateway are the ids of the stored orders, in submission order. -/
theorem submittedIds_of_cycle {config : OmsConfig F} {inputs : List (OmsInput F)}
    {outputs : List (List (Effect F))}
    (hrun : (new config).1.cycle inputs = some (oms, outputs)) :
    submittedIds outputs.flatten =
      (List.range oms.orders.length).map (linkId config.initialOrderLinkId) := by
  refine Machine.run_history (motive := fun _ state produced ↦ submittedIds produced.flatten =
    (List.range state.orders.length).map (linkId config.initialOrderLinkId)) ?_ ?_ hrun
  · simp [new, submittedIds]
  · intro first middle front input next output hfirst ih hstep
    obtain ⟨hids, hle⟩ :=
      (transition_of_step hstep).submittedIds_eq (indexed_of_cycle hfirst)
    have hsplit : List.range next.orders.length = List.range middle.orders.length ++
        List.range' middle.orders.length (next.orders.length - middle.orders.length) := by
      have happend := @List.range'_append_1 0 middle.orders.length
        (next.orders.length - middle.orders.length)
      rw [Nat.zero_add, Nat.add_sub_cancel' hle] at happend
      simpa only [List.range_eq_range'] using happend.symm
    rw [hsplit, List.map_append, ← hids, ← ih]
    simp [submittedIds]

/-- Every stored order was handed to the gateway under its link id. -/
theorem exists_submitOrder {config : OmsConfig F} {inputs : List (OmsInput F)}
    {outputs : List (List (Effect F))}
    (hrun : (new config).1.cycle inputs = some (oms, outputs)) {stored : Order F}
    (hmem : stored ∈ oms.orders) :
    ∃ builder : OrderBuilder F, .submitOrder builder stored.orderLinkId ∈ outputs.flatten ∧
      builder.side = stored.side := by
  refine Machine.run_history (motive := fun _ (state : OrderManagementSystem F) outputs ↦
    ∀ stored ∈ state.orders, ∃ builder : OrderBuilder F,
      .submitOrder builder stored.orderLinkId ∈ outputs.flatten ∧ builder.side = stored.side)
    ?_ ?_ hrun stored hmem
  · simp [new]
  · intro first middle front input next output hfirst ih hstep stored hmem
    obtain ⟨k, hstored⟩ := List.mem_iff_getElem?.mp hmem
    have htransition := transition_of_step hstep
    rw [List.flatten_append, List.flatten_singleton]
    obtain ⟨before, hbefore⟩ | ⟨-, builder, hbuild, rfl⟩ := htransition.order_origin hstored
    · obtain ⟨stored', hstored', hsame⟩ := htransition.identity_eq hbefore
      obtain rfl := Option.some.inj (hstored.symm.trans hstored')
      simp only [Order.identity, Prod.mk.injEq] at hsame
      obtain ⟨builder, hsubmitted, hside⟩ := ih before (List.mem_of_getElem? hbefore)
      rw [hsame.1, hsame.2.2.1]
      exact ⟨builder, List.mem_append_left _ hsubmitted, hside⟩
    · obtain ⟨hid, -, -, hside, -⟩ := OrderBuilder.build_eq_some hbuild
      rw [hid]
      exact ⟨builder, List.mem_append_right _ (List.mem_singleton_self _), hside.symm⟩

/-- An id is indexed exactly when it was handed to the gateway. -/
theorem mem_idMap_iff_submitted {config : OmsConfig F} {inputs : List (OmsInput F)}
    {outputs : List (List (Effect F))}
    (hrun : (new config).1.cycle inputs = some (oms, outputs)) {id : UInt64} :
    id ∈ oms.idMap ↔ id ∈ submittedIds outputs.flatten := by
  rw [(indexed_of_cycle hrun).mem_idMap_iff, submittedIds_of_cycle hrun]
  simp [eq_comm]

end OrderManagementSystem

end MarketMaker
