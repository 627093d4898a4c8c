import GoUring.Foundation.BlockCyclic
import GoUring.Foundation.Runs
import GoUring.Reactor.NetDelivery

/-!
# Descriptors, shards and loops

`cbRegistry.shardNumAndFlattenIdx` (`reactor/registry.go`) deals the descriptors out to the
shards block by block, and `NetworkReactor.loopForFd` (`reactor/net.go`) chooses the loop of a
descriptor by a formula of its own.  `CbRegistry.Sharding` says what the first does, for every
granularity and every number of shards; it is the block-cyclic distribution of the library, and
its machine arithmetic does not overflow.

That the two formulas agree is what keeps the loops out of each other's shards.  `Homed` follows
the identifiers: whatever a loop holds was sent to it, so it belongs to the loop's own shard.
Entries leave a shard by the hand of the loop with the same number only.  This is not always its
consumer: the publisher takes the callback of a request out again when the submission queue has
no room for the request.
-/

namespace GoUring.Reactor

open Uring

/-! ## The sharding -/

namespace CbRegistry

variable {C : Type}

/-- `cbRegistry.shardNumAndFlattenIdx` in the machine's arithmetic: Go divides towards zero. -/
def shardNumAndFlattenIdxInt (granularity shardCnt fd : Int64) : Int64 × Int64 :=
  let gNum := fd / granularity
  (gNum % shardCnt, gNum / shardCnt * granularity + fd % granularity)

theorem bmod_of_lt {n : ℕ} (lt : n < 2 ^ 63) : (n : ℤ).bmod (2 ^ 64) = n :=
  Int.bmod_eq_of_le (by omega) (by omega)

theorem toInt_div_of_nat {x y : Int64} {n d : ℕ} (hx : x.toInt = n) (hy : y.toInt = d) :
    (x / y).toInt = (n / d : ℕ) := by
  have small : n < 2 ^ 63 := by
    have := x.toInt_lt
    omega
  rw [Int64.toInt_div, hx, hy, ← Int.ofNat_tdiv]
  exact bmod_of_lt ((Nat.div_le_self n d).trans_lt small)

theorem toInt_mod_of_nat {x y : Int64} {n d : ℕ} (hx : x.toInt = n) (hy : y.toInt = d) :
    (x % y).toInt = (n % d : ℕ) := by
  rw [Int64.toInt_mod, hx, hy, ← Int.ofNat_tmod]

/-- **No intermediate result overflows**, the index being no larger than the descriptor. -/
theorem toInt_shardNumAndFlattenIdxInt {granularity shardCnt fd : Int64} {g s n : ℕ}
    (hg : granularity.toInt = g) (hs : shardCnt.toInt = s) (hn : fd.toInt = n) :
    (shardNumAndFlattenIdxInt granularity shardCnt fd).1.toInt = (BlockCyclic.place g s n).1 ∧
      (shardNumAndFlattenIdxInt granularity shardCnt fd).2.toInt =
        (BlockCyclic.place g s n).2 := by
  have small : n < 2 ^ 63 := by
    have := fd.toInt_lt
    omega
  have le : n / g / s * g + n % g ≤ n := BlockCyclic.place_snd_le g s n
  have block := toInt_div_of_nat hn hg
  have start : (fd / granularity / shardCnt * granularity).toInt = (n / g / s * g : ℕ) := by
    rw [Int64.toInt_mul, toInt_div_of_nat block hs, hg, ← Int.natCast_mul]
    exact bmod_of_lt (by omega)
  refine ⟨toInt_mod_of_nat block hs, ?_⟩
  show (fd / granularity / shardCnt * granularity + fd % granularity).toInt = _
  rw [Int64.toInt_add, start, toInt_mod_of_nat hn hg, ← Int.natCast_add]
  exact bmod_of_lt (by omega)

/-- **The sharding of a registry.** -/
structure Sharding (r : CbRegistry C) : Prop where
  /-- Descriptors and pairs of a shard and an index correspond one to one. -/
  bijOn : Set.BijOn r.shardNumAndFlattenIdx Set.univ (Set.Iio r.shardCnt ×ˢ Set.univ)
  /-- An index is no larger than its descriptor, -/
  idx_le : ∀ fd, (r.shardNumAndFlattenIdx fd).2 ≤ fd
  /-- so the machine computes the same. -/
  machine : ∀ granularity shardCnt fd : Int64, granularity.toInt = r.granularity →
    shardCnt.toInt = r.shardCnt → 0 ≤ fd.toInt →
      (shardNumAndFlattenIdxInt granularity shardCnt fd).1.toInt =
          (r.shardNumAndFlattenIdx fd.toInt.toNat).1 ∧
        (shardNumAndFlattenIdxInt granularity shardCnt fd).2.toInt =
          (r.shardNumAndFlattenIdx fd.toInt.toNat).2
  /-- In a shard, no two descriptors share an index, -/
  injOn : ∀ i, Set.InjOn (fun fd => (r.shardNumAndFlattenIdx fd).2)
    {fd | (r.shardNumAndFlattenIdx fd).1 = i}
  /-- and every index below the boundary has a descriptor. -/
  surjOn : ∀ i < r.shardCnt, ∀ boundary, Set.SurjOn (fun fd => (r.shardNumAndFlattenIdx fd).2)
    {fd | (r.shardNumAndFlattenIdx fd).1 = i} (Set.Iio boundary)

theorem sharding (r : CbRegistry C) (granules : 0 < r.granularity) (shards : 0 < r.shardCnt) :
    r.Sharding where
  bijOn := BlockCyclic.bijOn_place granules shards
  idx_le fd := BlockCyclic.place_snd_le _ _ fd
  machine _ _ _ hg hs nonneg :=
    toInt_shardNumAndFlattenIdxInt hg hs (Int.toNat_of_nonneg nonneg).symm
  injOn i := BlockCyclic.injOn_place_snd granules i
  surjOn _ lt boundary := BlockCyclic.surjOn_place_snd granules lt boundary

variable {r : CbRegistry C}

/-- The entries of a shard are those of its descriptors. -/
theorem entry_shard (wf : r.WF) {i : ℕ} (lt : i < r.shardCnt) (idx : ℕ) :
    (r.shards.elem i).entry idx = r.flat.entry (r.fdOf (i, idx)) := by
  have back : r.shardNumAndFlattenIdx (r.fdOf (i, idx)) = (i, idx) :=
    BlockCyclic.place_item wf.granularity_pos lt
  show _ = (r.shardOf (r.fdOf (i, idx))).entry (r.shardNumAndFlattenIdx (r.fdOf (i, idx))).2
  rw [shardOf, back]

theorem shardNum_fdOf (wf : r.WF) {i : ℕ} (lt : i < r.shardCnt) (idx : ℕ) :
    (r.shardNumAndFlattenIdx (r.fdOf (i, idx))).1 = i :=
  congrArg Prod.fst (BlockCyclic.place_item wf.granularity_pos lt)

end CbRegistry

/-! ## What a step does to the registry -/

namespace NetReactor

variable {n : ℕ} {s s' : NetReactor} {e : NetEvent}

/-- The publisher of loop `l` cannot queue the request it is about to handle. -/
def QueueFails (s : NetReactor) (l : ℕ) (spec : UInt64) (reads : ℕ) : Prop :=
  ∃ req rest err e, (s.loops l).reqBuss = req :: rest ∧
    NetLoop.queueRequest (s.loops l).engine req spec reads = some (some err, e)

/-- The event is one in which loop `l` takes a callback out of the registry: its consumer
dispatches, or its publisher fails to queue a request. -/
def TakesFrom (s : NetReactor) (l : ℕ) (e : NetEvent) : Prop :=
  e = .dispatch l ∨ ∃ spec reads, e = .request l spec reads ∧ s.QueueFails l spec reads

/-- **What a step does to the registry.** -/
inductive RegistryMove (s : NetReactor) : NetEvent → CallbackRegistry ℕ → Prop
  | keep {e : NetEvent} : RegistryMove s e s.registry
  /-- A call for the descriptor `fd` registers; no entry is lost. -/
  | add {e : NetEvent} {r : CallbackRegistry ℕ} {fd : ℕ} (small : fd < 2 ^ 31)
      (same : s.registry.raw.SamePlaces r.raw)
      (kept : ∀ nonce, r.raw.flat.entry fd nonce = none →
        s.registry.raw.flat.entry fd nonce = none)
      (others : ∀ fd' ≠ fd, r.raw.flat.entry fd' = s.registry.raw.flat.entry fd') :
      RegistryMove s e r
  /-- A loop takes out the callback of user data it holds. -/
  | pop {e : NetEvent} {l : ℕ} {ud : UInt64} (takes : s.TakesFrom l e)
      (own : ud ∈ (s.loops l).held) : RegistryMove s e (s.registry.pop ud).2

/-- An entry is stored. -/
theorem RegistryMove.store {r : CallbackRegistry ℕ} {fd : ℕ} {nonce : UInt32} {cb : Option ℕ}
    (small : fd < 2 ^ 31) (same : s.registry.raw.SamePlaces r.raw)
    (entry : r.raw.flat.entry = Function.update s.registry.raw.flat.entry fd
      (Function.update (s.registry.raw.flat.entry fd) nonce (some cb))) : RegistryMove s e r := by
  refine .add small same (fun nonce' gone => ?_) fun fd' other => ?_
  · rw [entry, Function.update_self] at gone
    by_cases this : nonce' = nonce
    · rw [this, Function.update_self] at gone
      cases gone
    · rwa [Function.update_of_ne this] at gone
  · rw [entry, Function.update_of_ne other]

theorem registryMove_draw (k : ℕ) (args : QueueArgs) :
    RegistryMove s (.draw k) (s.drawNonce k args).registry := by
  unfold drawNonce
  dsimp only
  split
  · next fast =>
    obtain ⟨same, entry⟩ := s.registry.raw_addNonce args.op.fd fast
    refine .add args.op.fd_lt same (fun nonce gone => ?_) fun fd' _ => congrFun entry fd'
    exact (congrFun (congrFun entry args.op.fd) nonce).symm.trans gone
  · next slow =>
    obtain ⟨same, entry⟩ :=
      s.registry.raw_slowAdd args.op.fd (args.cb k) (Bool.eq_false_iff.mpr slow)
    exact .store args.op.fd_lt same entry

/-- Every step does one of these. -/
theorem step_registryMove (stepped : s.step n e = some s') : RegistryMove s e s'.registry := by
  obtain ⟨-, transition⟩ := step_transition stepped
  cases transition with
  | draw here => exact registryMove_draw _ _
  | @store k args nonce serial here fast =>
      obtain ⟨same, entry⟩ := s.registry.raw_storeCallback args.op.fd nonce (args.cb k) fast
      exact .store args.op.fd_lt same entry
  | @request l reads spec _ lt done =>
      obtain ⟨req, rest, err, e, -, head, queued, -, ⟨-, registry, -⟩ | ⟨failed, registry, -⟩⟩ :=
        requestCase_cases done
      · rw [registry]
        exact .keep
      · obtain ⟨err, rfl⟩ := Option.ne_none_iff_exists'.mp failed
        rw [registry]
        refine .pop (Or.inr ⟨spec, reads, rfl, req, rest, err, e, head, queued⟩) ?_
        rw [held_receive head]
        exact Multiset.mem_cons_self _ _
  | signal lt done =>
      obtain ⟨-, -, ⟨-, rfl⟩ | ⟨pc, idle, flag, e, -, -, -, -, rfl⟩⟩ := signalCase_cases done
      · exact .keep
      · exact .keep
  | @dispatch l _ lt done =>
      obtain ⟨cqe, e, taken, ⟨-, rfl⟩ | ⟨-, k, -, rfl⟩ | ⟨-, -, rfl⟩⟩ := dispatchOne_cases done
      · exact .keep
      · refine .pop (Or.inl rfl) ?_
        rw [held_take taken]
        exact Multiset.mem_cons_self _ _
      · exact .keep
  | _ => exact .keep

/-! ## Every loop keeps to its own shard -/

/-- The identifiers of a loop stay the same, or fewer. -/
theorem held_of_loop {l l' : ℕ} {loop : NetLoop} {ud : UInt64}
    (loops : s'.loops = Function.update s.loops l loop)
    (fewer : requestIDs loop.held ≤ requestIDs (s.loops l).held)
    (mem : ud ∈ requestIDs (s'.loops l').held) : ud ∈ requestIDs (s.loops l').held := by
  by_cases this : l' = l
  · subst this
    rw [held_of_eq loops] at mem
    exact Multiset.mem_of_le fewer mem
  · rwa [held_of_ne loops l' this] at mem

/-- The publisher hands the identifier of a request on to its ring, or drops it. -/
theorem held_requestCase {l reads : ℕ} {spec : UInt64}
    (done : s.requestCase l spec reads = some s') :
    ∃ loop : NetLoop, s'.loops = Function.update s.loops l loop ∧
      requestIDs loop.held ≤ requestIDs (s.loops l).held := by
  obtain ⟨req, rest, err, e, -, head, queued, ⟨loops, -⟩, -⟩ := requestCase_cases done
  obtain ⟨-, -, outcome⟩ := NetLoop.queueRequest_spec queued
  have received := held_receive head
  have after : ({ (s.loops l).withEngine e with reqBuss := rest, submitAllowed := 1 } :
      NetLoop).held = Multiset.ofList (rest.map SubSqeRequest.userData) + e.carried := rfl
  refine ⟨_, loops, ?_⟩
  cases outcome with
  | all room fits carried =>
      rw [after, received, ← Multiset.add_cons, requestIDs_add, requestIDs_add, carried]
  | nothing full same =>
      rw [after, received, same]
      exact Multiset.filter_le_filter _ (Multiset.le_cons_self _ _)
  | half timed last idle carried =>
      rw [after, received, carried, Multiset.add_cons]

/-- An identifier a loop holds after a step it held before, or it was sent there because it
belongs there. -/
theorem held_step {l : ℕ} {ud : UInt64} (stepped : s.step n e = some s')
    (mem : ud ∈ requestIDs (s'.loops l).held) :
    ud ∈ requestIDs (s.loops l).held ∨ loopForFd n (RequestID.fd ud) = l := by
  obtain ⟨-, transition⟩ := step_transition stepped
  cases transition with
  | queue here => exact Or.inl mem
  | cancel here => exact Or.inl mem
  | draw here =>
      rw [(loops_drawNonce s _ _).1] at mem
      exact Or.inl mem
  | store here fast => exact Or.inl mem
  | sendClosed target closed => exact Or.inl mem
  | @send k args nonce serial here opened =>
      by_cases this : l = loopForFd n args.op.fd
      · change ud ∈ requestIDs (Function.update s.loops _ _ l).held at mem
        rw [← this, Function.update_self, held_send] at mem
        change ud ∈ requestIDs ((args.op.ticket nonce serial).id ::ₘ (s.loops l).held) at mem
        rw [requestIDs_cons (Ticket.not_reserved _)] at mem
        rcases Multiset.mem_cons.mp mem with sent | old
        · right
          have small : args.op.fd < 2 ^ 32 := lt_trans args.op.fd_lt (by decide)
          rw [sent, this]
          exact congrArg (loopForFd n) (RequestID.fd_pack small nonce)
        · exact Or.inl old
      · change ud ∈ requestIDs (Function.update s.loops _ _ l).held at mem
        rw [Function.update_of_ne this] at mem
        exact Or.inl mem
  | sendCancel here opened =>
      refine Or.inl (held_of_loop rfl (le_of_eq ?_) mem)
      rw [held_send]
      exact requestIDs_cons_of_reserved (Or.inr rfl) _
  | request lt done =>
      obtain ⟨loop, loops, fewer⟩ := held_requestCase done
      exact Or.inl (held_of_loop loops fewer mem)
  | signal lt done =>
      obtain ⟨taken, -, ⟨-, rfl⟩ | ⟨pc, idle, flag, e, -, -, -, submitted, rfl⟩⟩ :=
        signalCase_cases done
      · exact Or.inl mem
      · obtain ⟨carried, -, -⟩ := submitCase_spec submitted
        refine Or.inl (held_of_loop rfl (le_of_eq (congrArg requestIDs ?_)) mem)
        exact held_withEngine (carried.trans (Engine.carried_goto taken pc idle))
  | consumer lt done =>
      refine Or.inl (held_of_loop rfl (le_of_eq (congrArg requestIDs ?_)) mem)
      exact held_withEngine (Engine.consumerStep_spec done).1
  | @dispatch l' _ lt done =>
      obtain ⟨cqe, e, taken, outcome⟩ := dispatchOne_cases done
      have fewer : requestIDs ((s.loops l').withEngine e).held ≤
          requestIDs (s.loops l').held := by
        rw [held_take taken]
        exact Multiset.filter_le_filter _ (Multiset.le_cons_self _ _)
      rcases outcome with ⟨-, rfl⟩ | ⟨-, k, -, rfl⟩ | ⟨-, -, rfl⟩
      · exact Or.inl (held_of_loop rfl fewer mem)
      · exact Or.inl (held_of_loop rfl fewer mem)
      · exact Or.inl mem
  | kernel lt done =>
      refine Or.inl (held_of_loop rfl (le_of_eq (congrArg requestIDs ?_)) mem)
      exact held_withEngine (Engine.kernelStep_spec done).1
  | @stop event o done =>
      refine Or.inl (held_of_loop rfl (le_of_eq (congrArg requestIDs ?_)) mem)
      show (s.loops o.loop).inReqBuss + o.shell.engine.carried = _
      rw [(stopStep_frame done).1]
      rfl

/-- **Everything is where it belongs.** -/
structure Homed (n : ℕ) (s : NetReactor) : Prop where
  granularity : s.registry.raw.granularity = fdPerGranule
  shardCnt : s.registry.raw.shardCnt = n
  /-- Only descriptors have entries. -/
  entries : ∀ fd nonce, s.registry.raw.flat.entry fd nonce ≠ none → fd < 2 ^ 31
  /-- The identifiers a loop holds belong to it. -/
  held : ∀ l, ∀ ud ∈ requestIDs (s.loops l).held, loopForFd n (RequestID.fd ud) = l

theorem homed_start (some_loop : 0 < n) (rings : ℕ → ReactorRing true) :
    Homed n (start n some_loop rings) where
  granularity := rfl
  shardCnt := rfl
  entries fd nonce present := by
    refine absurd ?_ present
    show (newCbRegistry ℕ n fdPerGranule).flat.entry fd nonce = none
    rw [CbRegistry.flat_newCbRegistry]
    rfl
  held l ud mem := by
    have none : ((start n some_loop rings).loops l).held = 0 := by
      show (0 : Multiset UInt64) + (Engine.start (rings l)).carried = 0
      rw [Engine.carried_start]
      rfl
    rw [none] at mem
    exact absurd mem (Multiset.notMem_zero ud)

theorem Homed.step (homed : Homed n s) (stepped : s.step n e = some s') : Homed n s' := by
  have held : ∀ l, ∀ ud ∈ requestIDs (s'.loops l).held, loopForFd n (RequestID.fd ud) = l := by
    intro l ud mem
    rcases held_step stepped mem with old | home
    · exact homed.held l ud old
    · exact home
  have move := step_registryMove stepped
  generalize after : s'.registry = r at move
  cases move with
  | keep =>
      refine ⟨?_, ?_, ?_, held⟩
      · rw [after]
        exact homed.granularity
      · rw [after]
        exact homed.shardCnt
      · rw [after]
        exact homed.entries
  | @add _ fd small same kept others =>
      refine ⟨?_, ?_, fun fd' nonce present => ?_, held⟩
      · rw [after, same.granularity]
        exact homed.granularity
      · rw [after, same.shardCnt]
        exact homed.shardCnt
      · by_cases this : fd' = fd
        · rw [this]
          exact small
        · rw [after, others fd' this] at present
          exact homed.entries fd' nonce present
  | @pop l ud takes own =>
      obtain ⟨same, entry⟩ := s.registry.raw_pop ud
      refine ⟨?_, ?_, fun fd nonce present => ?_, held⟩
      · rw [after, same.granularity]
        exact homed.granularity
      · rw [after, same.shardCnt]
        exact homed.shardCnt
      · rw [after, entry] at present
        by_cases this : fd = RequestID.fd ud
        · subst this
          rw [Function.update_self] at present
          by_cases popped : nonce = RequestID.nonce ud
          · rw [popped, Function.update_self] at present
            exact absurd rfl present
          · rw [Function.update_of_ne popped] at present
            exact homed.entries _ nonce present
        · rw [Function.update_of_ne this] at present
          exact homed.entries fd nonce present

/-- An identifier whose descriptor is one is not reserved. -/
theorem not_reserved_of_fd_lt {ud : UInt64} (small : RequestID.fd ud < 2 ^ 31) :
    ¬ Reserved ud := by
  rw [← RequestID.pack_fd_nonce ud]
  exact RequestID.not_reserved_pack small _

/-- **Each loop keeps to its own shard.** -/
structure OwnShards (n : ℕ) (s : NetReactor) : Prop where
  /-- The shard of a descriptor has the number of its loop. -/
  agree : ∀ fd, (s.registry.raw.shardNumAndFlattenIdx fd).1 = loopForFd n fd
  /-- A completion that the consumer of a loop dispatches has its callback in the loop's shard. -/
  consumer : ∀ l cqe e, (s.loops l).engine.take = some (cqe, e) → ¬ Reserved cqe.userData →
    (s.registry.raw.shardNumAndFlattenIdx (RequestID.fd cqe.userData)).1 = l
  /-- So has a request of `Queue` that the publisher of a loop handles. -/
  publisher : ∀ l req rest, (s.loops l).reqBuss = req :: rest → ¬ Reserved req.userData →
    (s.registry.raw.shardNumAndFlattenIdx (RequestID.fd req.userData)).1 = l
  /-- An entry leaves a shard only when the consumer of the loop with the number of the shard
  dispatches, or when the publisher of this loop fails to queue a request. -/
  leaves : ∀ e s', s.step n e = some s' → ∀ i < n, ∀ idx nonce,
    (s.registry.raw.shards.elem i).entry idx nonce ≠ none →
      (s'.registry.raw.shards.elem i).entry idx nonce = none → s.TakesFrom i e

theorem Homed.agree (homed : Homed n s) (fd : ℕ) :
    (s.registry.raw.shardNumAndFlattenIdx fd).1 = loopForFd n fd := by
  show fd / s.registry.raw.granularity % s.registry.raw.shardCnt = fd / fdPerGranule % n
  rw [homed.granularity, homed.shardCnt]

/-- Seen on the flat store: only the loop of a descriptor takes its entries out. -/
theorem Homed.takesFrom (homed : Homed n s) (stepped : s.step n e = some s') {fd : ℕ}
    {nonce : UInt32} (present : s.registry.raw.flat.entry fd nonce ≠ none)
    (gone : s'.registry.raw.flat.entry fd nonce = none) : s.TakesFrom (loopForFd n fd) e := by
  have move := step_registryMove stepped
  generalize s'.registry = r at move gone
  cases move with
  | keep => exact absurd gone present
  | @add _ fd' small same kept others =>
      by_cases this : fd = fd'
      · subst this
        exact absurd (kept nonce gone) present
      · rw [others fd this] at gone
        exact absurd gone present
  | @pop l ud takes own =>
      obtain ⟨-, entry⟩ := s.registry.raw_pop ud
      rw [entry] at gone
      by_cases this : fd = RequestID.fd ud
      · subst this
        have request := not_reserved_of_fd_lt (homed.entries _ nonce present)
        rw [homed.held l ud (mem_requestIDs.mpr ⟨own, request⟩)]
        exact takes
      · rw [Function.update_of_ne this] at gone
        exact absurd gone present

theorem Homed.ownShards (homed : Homed n s) : s.OwnShards n where
  agree := homed.agree
  consumer l cqe e taken request := by
    rw [homed.agree]
    refine homed.held l _ (mem_requestIDs.mpr ⟨?_, request⟩)
    rw [held_take taken]
    exact Multiset.mem_cons_self _ _
  publisher l req rest head request := by
    rw [homed.agree]
    refine homed.held l _ (mem_requestIDs.mpr ⟨?_, request⟩)
    rw [held_receive head]
    exact Multiset.mem_cons_self _ _
  leaves e s' stepped i lt idx nonce present gone := by
    have lt' : i < s.registry.raw.shardCnt := by rwa [homed.shardCnt]
    have lt'' : i < s'.registry.raw.shardCnt := by rwa [(homed.step stepped).shardCnt]
    have same : s'.registry.raw.fdOf (i, idx) = s.registry.raw.fdOf (i, idx) := by
      simp only [CbRegistry.fdOf, homed.granularity, homed.shardCnt,
        (homed.step stepped).granularity, (homed.step stepped).shardCnt]
    rw [CbRegistry.entry_shard s.registry.wf lt'] at present
    rw [CbRegistry.entry_shard s'.registry.wf lt'', same] at gone
    have home := homed.takesFrom stepped present gone
    rwa [← homed.agree, CbRegistry.shardNum_fdOf s.registry.wf lt'] at home

/-- **The sharding of descriptors is a bijection, and each loop keeps to its own shard**: for
every granularity and number of shards, and in every state a reactor reaches. -/
theorem sharding_bijective_and_owned (n : ℕ) (some_loop : 0 < n) (rings : ℕ → ReactorRing true)
    {p : List (NetReactor × NetEvent)} {s : NetReactor}
    (path : Runs.Path (step n) (start n some_loop rings) p s) :
    (∀ (C : Type) (r : CbRegistry C), 0 < r.granularity → 0 < r.shardCnt → r.Sharding) ∧
      s.OwnShards n := by
  refine ⟨fun C r granules shards => r.sharding granules shards, ?_⟩
  have homed : Homed n s :=
    Runs.Path.invariant_of_step (Homed n) (homed_start some_loop rings)
      (fun _ _ _ homed stepped => homed.step stepped) path
  exact homed.ownShards

/-- A request for descriptor 80, which is in the second granule. -/
def farArgs : QueueArgs where
  op := { op := nopOp, fd := 80, fd_lt := by decide }
  timeout := 0
  nilCallback := false

/-- The request on its way, up to the point where its completion is about to be dispatched. -/
def farRequest : List NetEvent :=
  [.queue 0 farArgs, .draw 0, .store 0, .send 0, .request 1 0 0, .signal 1 (.consumed 1),
    .kernel 1 (.complete 0 5 0), .consumer 1 .wait, .signal 1 (.consumed 0), .consumer 1 .peek]

/-- Of two loops the second one handles it, and its callback is in the second shard, at the index
5. -/
theorem sharding_bijective_and_owned_second_loop :
    ∃ p s, Runs.Path (step 2) (start 2 Nat.two_pos oneSlot) p s ∧
      (s.registry.raw.shards.elem 1).entry 5 1 = some (some 0) ∧
      (∀ (C : Type) (r : CbRegistry C), 0 < r.granularity → 0 < r.shardCnt → r.Sharding) ∧
      s.OwnShards 2 :=
  ⟨_, _, Runs.path_record farRequest rfl, rfl,
    sharding_bijective_and_owned 2 Nat.two_pos oneSlot (Runs.path_record farRequest rfl)⟩

/-- **A shard is not popped by its consumer only.**  The second of two requests finds the
submission queue full, and the publisher takes its callback out of the shard. -/
theorem publisher_pops_shard :
    ∃ p s s', Runs.Path (step 1) (start 1 Nat.one_pos oneSlot) p s ∧
      s.step 1 (.request 0 0 0) = some s' ∧
      (s.registry.raw.shards.elem 0).entry 3 2 = some (some 1) ∧
      (s'.registry.raw.shards.elem 0).entry 3 2 = none :=
  ⟨_, _, _, Runs.path_record overfull.dropLast rfl, rfl, rfl, rfl⟩

end NetReactor

end GoUring.Reactor
