import GoUring.Reactor.Registry
import GoUring.Reactor.Request
import Mathlib.Data.Nat.Bitwise

/-!
# Request identifiers and the table of callbacks

`RequestID` of `reactor/net.go` packs a file descriptor and a nonce into the 64
bits of user data that travel through the ring.  A descriptor below `2 ^ 31` never
yields user data that is reserved.

`CallbackRegistry` is a registry with its invariant.  Its operations cannot fail,
so they are total here; what each does is stated on the flat store the registry
refines, and `lookup` finds a callback by the request identifier.
-/

namespace GoUring.Reactor

/-- `packRequestID`. -/
def packRequestID (fd : ℕ) (nonce : UInt32) : UInt64 :=
  UInt64.ofNat fd ||| nonce.toUInt64 <<< 32

/-- `RequestID`. -/
abbrev RequestID := UInt64

/-- `RequestID.fd`. -/
def RequestID.fd (ud : RequestID) : ℕ := (ud &&& 4294967295).toNat

/-- `RequestID.nonce`. -/
def RequestID.nonce (ud : RequestID) : UInt32 := (ud >>> 32).toUInt32

namespace RequestID

theorem fd_eq_mod (ud : RequestID) : RequestID.fd ud = ud.toNat % 2 ^ 32 := by
  rw [RequestID.fd, UInt64.toNat_and]
  exact Nat.and_two_pow_sub_one_eq_mod _ 32

theorem toNat_nonce (ud : RequestID) : (RequestID.nonce ud).toNat = ud.toNat / 2 ^ 32 := by
  have bound : ud.toNat / 2 ^ 32 < 2 ^ 32 := by
    have := ud.toNat_lt
    omega
  rw [RequestID.nonce, UInt64.toNat_toUInt32, UInt64.toNat_shiftRight]
  show ud.toNat >>> 32 % 2 ^ 32 = _
  rw [Nat.shiftRight_eq_div_pow]
  exact Nat.mod_eq_of_lt bound

theorem toNat_pack {fd : ℕ} (small : fd < 2 ^ 32) (nonce : UInt32) :
    (packRequestID fd nonce).toNat = fd + nonce.toNat * 2 ^ 32 := by
  have high : (nonce.toUInt64 <<< 32).toNat = nonce.toNat <<< 32 := by
    rw [UInt64.toNat_shiftLeft, UInt32.toNat_toUInt64]
    show nonce.toNat <<< 32 % 2 ^ 64 = _
    have bound := nonce.toNat_lt
    refine Nat.mod_eq_of_lt ?_
    rw [Nat.shiftLeft_eq]
    omega
  have low : (UInt64.ofNat fd).toNat = fd :=
    UInt64.toNat_ofNat_of_lt' (lt_trans small (by decide))
  rw [packRequestID, UInt64.toNat_or, high, low, Nat.or_comm,
    ← Nat.shiftLeft_add_eq_or_of_lt small, Nat.shiftLeft_eq, Nat.add_comm]

theorem fd_pack {fd : ℕ} (small : fd < 2 ^ 32) (nonce : UInt32) :
    RequestID.fd (packRequestID fd nonce) = fd := by
  rw [fd_eq_mod, toNat_pack small, Nat.add_mul_mod_self_right, Nat.mod_eq_of_lt small]

theorem nonce_pack {fd : ℕ} (small : fd < 2 ^ 32) (nonce : UInt32) :
    RequestID.nonce (packRequestID fd nonce) = nonce := by
  refine UInt32.toNat_inj.mp ?_
  rw [toNat_nonce, toNat_pack small, Nat.add_mul_div_right _ _ (by decide),
    Nat.div_eq_of_lt small, Nat.zero_add]

/-- Every user data is the identifier of its own two halves. -/
theorem pack_fd_nonce (ud : RequestID) :
    packRequestID (RequestID.fd ud) (RequestID.nonce ud) = ud := by
  refine UInt64.toNat_inj.mp ?_
  have small : RequestID.fd ud < 2 ^ 32 := by
    rw [fd_eq_mod]
    exact Nat.mod_lt _ (by decide)
  rw [toNat_pack small, fd_eq_mod, toNat_nonce]
  omega

/-- A descriptor that fits 31 bits never yields a reserved identifier. -/
theorem not_reserved_pack {fd : ℕ} (small : fd < 2 ^ 31) (nonce : UInt32) :
    ¬ Reserved (packRequestID fd nonce) := by
  have low := fd_pack (lt_trans small (by decide)) nonce
  rintro (timeout | cancel)
  · rw [timeout] at low
    have : RequestID.fd timeoutNonce = 4294967295 := rfl
    omega
  · rw [cancel] at low
    have : RequestID.fd cancelNonce = 4294967294 := rfl
    omega

end RequestID

namespace CbRegistry

open GoMemory

variable {C : Type} {r : CbRegistry C}

/-- The first half of `cbRegistry.add` on the fast path. -/
def addNonce (r : CbRegistry C) (fd : ℕ) : Option (UInt32 × CbRegistry C) :=
  r.onShard fd fun sh idx => sh.addNonce idx

/-- The second half of `cbRegistry.add` on the fast path. -/
def storeCallback (r : CbRegistry C) (fd : ℕ) (n : UInt32) (cb : Option C) :
    Option (Unit × CbRegistry C) :=
  r.onShard fd fun sh idx => (sh.storeCallback idx n cb).map fun sh => ((), sh)

/-- `cbRegistry.add` on the slow path. -/
def slowAdd (r : CbRegistry C) (fd : ℕ) (cb : Option C) : Option (UInt32 × CbRegistry C) :=
  r.onShard fd fun sh idx => sh.slowAdd idx cb

/-- Two operations on the shard of one descriptor, one after the other. -/
theorem onShard_bind {β γ : Type} (r : CbRegistry C) (fd : ℕ)
    (f : Shard C → ℕ → Option (β × Shard C)) (g : β → Shard C → ℕ → Option (γ × Shard C)) :
    ((r.onShard fd f).bind fun x => x.2.onShard fd (g x.1)) =
      r.onShard fd fun sh idx => (f sh idx).bind fun x => g x.1 x.2 idx := by
  by_cases lt : (r.shardNumAndFlattenIdx fd).1 < r.shards.len
  · simp only [onShard, Slice.get_of_lt lt, Slice.set_of_lt lt, Option.bind_eq_bind,
      Option.bind_some, Option.pure_def]
    cases f (r.shards.elem (r.shardNumAndFlattenIdx fd).1) (r.shardNumAndFlattenIdx fd).2 with
    | none => rfl
    | some x =>
        -- The second operation finds the shard the first one put back.
        show (r.putShard (r.shardNumAndFlattenIdx fd).1 x.2).onShard fd (g x.1) = _
        have lt' : (r.shardNumAndFlattenIdx fd).1 <
            (r.putShard (r.shardNumAndFlattenIdx fd).1 x.2).shards.len := lt
        simp only [onShard, shardNumAndFlattenIdx_putShard, Slice.get_of_lt lt',
          Slice.set_of_lt lt', elem_putShard, Function.update_self, Function.update_idem,
          Option.bind_eq_bind, Option.bind_some, Option.pure_def]
        rfl
  · have missing : r.shards.get (r.shardNumAndFlattenIdx fd).1 = none := if_neg lt
    simp [onShard, missing]

theorem onShard_map {β γ : Type} (r : CbRegistry C) (fd : ℕ)
    (f : Shard C → ℕ → Option (β × Shard C)) (h : β → γ) :
    ((r.onShard fd f).map fun x => (h x.1, x.2)) =
      r.onShard fd fun sh idx => (f sh idx).map fun x => (h x.1, x.2) := by
  simp only [onShard, Option.bind_eq_bind, Option.pure_def]
  cases r.shards.get (r.shardNumAndFlattenIdx fd).1 with
  | none => rfl
  | some sh =>
      simp only [Option.bind_some]
      cases f sh (r.shardNumAndFlattenIdx fd).2 with
      | none => rfl
      | some x =>
          simp only [Option.bind_some, Option.map_some]
          cases r.shards.set (r.shardNumAndFlattenIdx fd).1 x.2 with
          | none => rfl
          | some shards => rfl

/-- On the fast path `cbRegistry.add` is its two halves. -/
theorem add_of_fast (wf : r.WF) {fd : ℕ} (fast : r.fast fd = true) (cb : Option C) :
    r.add fd cb =
      (r.addNonce fd).bind fun x => (x.2.storeCallback fd x.1 cb).map fun y => (x.1, y.2) := by
  have below : (r.shardNumAndFlattenIdx fd).2 < (r.shardOf fd).boundary :=
    of_decide_eq_true fast
  have lt : (r.shardNumAndFlattenIdx fd).1 < r.shards.len := by
    rw [wf.shards_len]
    exact Nat.mod_lt _ wf.shardCnt_pos
  have halves := r.onShard_bind fd (fun sh idx => sh.addNonce idx) fun n sh idx =>
    (sh.storeCallback idx n cb).map fun sh => (n, sh)
  have second : ∀ (q : CbRegistry C) (n : UInt32),
      (q.onShard fd fun sh idx => (sh.storeCallback idx n cb).map fun sh => (n, sh)) =
        (q.storeCallback fd n cb).map fun y => (n, y.2) := by
    intro q n
    rw [storeCallback, onShard_map q fd _ fun _ => n]
    simp only [Option.map_map]
    rfl
  simp only [second] at halves
  rw [addNonce, halves]
  simp only [add, onShard, Slice.get_of_lt lt, Option.bind_eq_bind, Option.bind_some]
  rw [shardOf] at below
  simp only [Shard.add, if_pos below, Option.bind_eq_bind, Option.pure_def, Option.map_eq_bind]
  rfl

/-- On the slow path `cbRegistry.add` is one locked section. -/
theorem add_of_slow (wf : r.WF) {fd : ℕ} (slow : r.fast fd = false) (cb : Option C) :
    r.add fd cb = r.slowAdd fd cb := by
  have beyond : ¬ (r.shardNumAndFlattenIdx fd).2 < (r.shardOf fd).boundary :=
    of_decide_eq_false slow
  have lt : (r.shardNumAndFlattenIdx fd).1 < r.shards.len := by
    rw [wf.shards_len]
    exact Nat.mod_lt _ wf.shardCnt_pos
  rw [shardOf] at beyond
  simp only [add, slowAdd, onShard, Slice.get_of_lt lt, Option.bind_eq_bind,
    Option.bind_some, Shard.add, if_neg beyond]

theorem addNonce_spec (wf : r.WF) {fd : ℕ} (fast : r.fast fd = true) :
    ∃ r', r.addNonce fd = some (r.flat.next fd, r') ∧ r'.WF ∧ r.SamePlaces r' ∧
      r'.flat = r.flat.set fd (r.flat.next fd) (r.flat.entry fd) :=
  onShard_spec wf (Shard.addNonce_spec (wf.shards_wf _) (of_decide_eq_true fast))

theorem storeCallback_spec (wf : r.WF) {fd : ℕ} (fast : r.fast fd = true) (n : UInt32)
    (cb : Option C) :
    ∃ r', r.storeCallback fd n cb = some ((), r') ∧ r'.WF ∧ r.SamePlaces r' ∧
      r'.flat = r.flat.set fd (r.flat.counter fd)
        (Function.update (r.flat.entry fd) n (some cb)) := by
  refine onShard_spec wf ?_
  obtain ⟨sh', stored, became⟩ :=
    Shard.storeCallback_spec (wf.shards_wf _) (of_decide_eq_true fast) n cb
  exact ⟨sh', by rw [shardOf, stored]; rfl, became⟩

theorem slowAdd_spec (wf : r.WF) {fd : ℕ} (slow : r.fast fd = false) (cb : Option C) :
    ∃ r', r.slowAdd fd cb = some (r.flat.next fd, r') ∧ r'.WF ∧ r.SamePlaces r' ∧
      r'.flat = (r.flat.add fd cb).2 :=
  onShard_spec wf (Shard.slowAdd_spec (wf.shards_wf _) (of_decide_eq_false slow) cb)

end CbRegistry

/-! ## The registry with its invariant -/

section Lookup

variable {C : Type}

/-- The callback stored under a request identifier. -/
def FlatStore.lookup (f : FlatStore C) (ud : RequestID) : Option C :=
  (f.entry (RequestID.fd ud) (RequestID.nonce ud)).getD none

/-- Changing one entry changes the callback of one identifier. -/
theorem FlatStore.lookup_set_update (f : FlatStore C) {fd : ℕ} (small : fd < 2 ^ 32)
    (counter : UInt32) (n : UInt32) (x : Option (Option C)) :
    (f.set fd counter (Function.update (f.entry fd) n x)).lookup =
      Function.update f.lookup (packRequestID fd n) (x.getD none) := by
  funext ud
  by_cases same : ud = packRequestID fd n
  · subst same
    simp [lookup, FlatStore.set, RequestID.fd_pack small, RequestID.nonce_pack small]
  · rw [Function.update_of_ne same]
    by_cases here : RequestID.fd ud = fd
    · have other : RequestID.nonce ud ≠ n := by
        rintro rfl
        exact same (by rw [← here, RequestID.pack_fd_nonce])
      simp [lookup, FlatStore.set, here, other]
    · simp [lookup, FlatStore.set, here]

end Lookup

/-- A registry with its invariant. -/
structure CallbackRegistry (C : Type) where
  raw : CbRegistry C
  wf : raw.WF

namespace CallbackRegistry

variable {C : Type}

/-- `newCbRegistry(shardCount, fdPerGranule)`. -/
def new (C : Type) (shardCount granularity : ℕ) (shards : 0 < shardCount)
    (granules : 0 < granularity) : CallbackRegistry C :=
  { raw := newCbRegistry C shardCount granularity
    wf := CbRegistry.wf_newCbRegistry shards granules }

/-- The nonce last given out for a descriptor. -/
def counter (r : CallbackRegistry C) : ℕ → UInt32 := r.raw.flat.counter

/-- The callback stored under a request identifier. -/
def lookup (r : CallbackRegistry C) : RequestID → Option C := r.raw.flat.lookup

theorem wf_of_result {β : Type} {op : Option (β × CbRegistry C)} {x : β × CbRegistry C}
    (ok : ∃ out r', op = some (out, r') ∧ r'.WF) (done : op = some x) : x.2.WF := by
  obtain ⟨out, r', eq, wf⟩ := ok
  rw [eq] at done
  cases done
  exact wf

theorem isSome_of_result {β : Type} {op : Option (β × CbRegistry C)}
    (ok : ∃ out r', op = some (out, r') ∧ r'.WF) : op.isSome = true := by
  obtain ⟨out, r', eq, -⟩ := ok
  rw [eq]
  rfl

/-- The result of an operation that cannot fail. -/
def ofResult {β : Type} (op : Option (β × CbRegistry C))
    (ok : ∃ out r', op = some (out, r') ∧ r'.WF) : β × CallbackRegistry C :=
  let x := op.get (isSome_of_result ok)
  (x.1, { raw := x.2, wf := wf_of_result ok (Option.some_get _).symm })

theorem ofResult_eq {β : Type} {op : Option (β × CbRegistry C)} {out : β}
    {r' : CbRegistry C} (done : op = some (out, r')) (wf : r'.WF)
    (ok : ∃ out r', op = some (out, r') ∧ r'.WF) :
    ofResult op ok = (out, { raw := r', wf := wf }) := by
  subst done
  rfl

/-- `atomic.AddUint32(&sh.nonces[idx], 1)`: the first step of `add` on the fast
path. -/
def addNonce (r : CallbackRegistry C) (fd : ℕ) (fast : r.raw.fast fd = true) :
    UInt32 × CallbackRegistry C :=
  ofResult (r.raw.addNonce fd) (by
    obtain ⟨r', done, wf, -⟩ := CbRegistry.addNonce_spec r.wf fast
    exact ⟨_, r', done, wf⟩)

/-- `sh.callbacks[idx][n] = cb` under the lock: the second step of `add` on the
fast path. -/
def storeCallback (r : CallbackRegistry C) (fd : ℕ) (n : UInt32) (cb : Option C)
    (fast : r.raw.fast fd = true) : CallbackRegistry C :=
  (ofResult (r.raw.storeCallback fd n cb) (by
    obtain ⟨r', done, wf, -⟩ := CbRegistry.storeCallback_spec r.wf fast n cb
    exact ⟨_, r', done, wf⟩)).2

/-- `add` on the slow path. -/
def slowAdd (r : CallbackRegistry C) (fd : ℕ) (cb : Option C)
    (slow : r.raw.fast fd = false) : UInt32 × CallbackRegistry C :=
  ofResult (r.raw.slowAdd fd cb) (by
    obtain ⟨r', done, wf, -⟩ := CbRegistry.slowAdd_spec r.wf slow cb
    exact ⟨_, r', done, wf⟩)

/-- `registry.pop(id.fd(), id.nonce())`. -/
def pop (r : CallbackRegistry C) (ud : RequestID) : Option C × CallbackRegistry C :=
  ofResult (r.raw.pop (RequestID.fd ud) (RequestID.nonce ud)) (by
    obtain ⟨r', done, wf, -⟩ :=
      CbRegistry.pop_spec r.wf (RequestID.fd ud) (RequestID.nonce ud)
    exact ⟨_, r', done, wf⟩)

theorem lookup_new (shardCount granularity : ℕ) (shards : 0 < shardCount)
    (granules : 0 < granularity) (ud : RequestID) :
    (new C shardCount granularity shards granules).lookup ud = none := by
  simp [lookup, new, CbRegistry.flat_newCbRegistry, FlatStore.lookup, FlatStore.empty]

theorem counter_new (shardCount granularity : ℕ) (shards : 0 < shardCount)
    (granules : 0 < granularity) (fd : ℕ) :
    (new C shardCount granularity shards granules).counter fd = 0 := by
  simp [counter, new, CbRegistry.flat_newCbRegistry, FlatStore.empty]

/-- **Drawing a nonce** on the fast path. -/
theorem addNonce_spec (r : CallbackRegistry C) (fd : ℕ) (fast : r.raw.fast fd = true) :
    (r.addNonce fd fast).1 = r.counter fd + 1 ∧
      (r.addNonce fd fast).2.counter =
        Function.update r.counter fd (r.counter fd + 1) ∧
      (r.addNonce fd fast).2.lookup = r.lookup := by
  obtain ⟨r', done, wf, -, flat⟩ := CbRegistry.addNonce_spec r.wf fast
  rw [addNonce, ofResult_eq done wf]
  refine ⟨rfl, ?_, ?_⟩
  · rw [counter, flat]
    rfl
  · funext ud
    simp only [lookup, flat, FlatStore.lookup, FlatStore.set, Function.update_eq_self]

/-- **Storing a callback** under the nonce drawn. -/
theorem storeCallback_spec (r : CallbackRegistry C) {fd : ℕ} (small : fd < 2 ^ 32)
    (n : UInt32) (cb : Option C) (fast : r.raw.fast fd = true) :
    (r.storeCallback fd n cb fast).counter = r.counter ∧
      (r.storeCallback fd n cb fast).lookup =
        Function.update r.lookup (packRequestID fd n) cb := by
  obtain ⟨r', done, wf, -, flat⟩ := CbRegistry.storeCallback_spec r.wf fast n cb
  rw [storeCallback, ofResult_eq done wf]
  refine ⟨?_, ?_⟩
  · rw [counter, flat]
    exact Function.update_eq_self _ _
  · rw [lookup, flat, FlatStore.lookup_set_update _ small]
    rfl

/-- **Drawing and storing** in one, on the slow path. -/
theorem slowAdd_spec (r : CallbackRegistry C) {fd : ℕ} (small : fd < 2 ^ 32)
    (cb : Option C) (slow : r.raw.fast fd = false) :
    (r.slowAdd fd cb slow).1 = r.counter fd + 1 ∧
      (r.slowAdd fd cb slow).2.counter =
        Function.update r.counter fd (r.counter fd + 1) ∧
      (r.slowAdd fd cb slow).2.lookup =
        Function.update r.lookup (packRequestID fd (r.counter fd + 1)) cb := by
  obtain ⟨r', done, wf, -, flat⟩ := CbRegistry.slowAdd_spec r.wf slow cb
  rw [slowAdd, ofResult_eq done wf]
  refine ⟨rfl, ?_, ?_⟩
  · rw [counter, flat]
    rfl
  · rw [lookup, flat]
    exact FlatStore.lookup_set_update _ small _ _ _

/-- **Popping** returns the callback of the identifier and forgets it. -/
theorem pop_spec (r : CallbackRegistry C) (ud : RequestID) :
    (r.pop ud).1 = r.lookup ud ∧ (r.pop ud).2.counter = r.counter ∧
      (r.pop ud).2.lookup = Function.update r.lookup ud none := by
  obtain ⟨r', done, wf, -, flat⟩ :=
    CbRegistry.pop_spec r.wf (RequestID.fd ud) (RequestID.nonce ud)
  rw [pop, ofResult_eq done wf]
  have small : RequestID.fd ud < 2 ^ 32 := by
    rw [RequestID.fd_eq_mod]
    exact Nat.mod_lt _ (by decide)
  refine ⟨rfl, ?_, ?_⟩
  · rw [counter, flat]
    exact Function.update_eq_self _ _
  · rw [lookup, flat]
    have forgotten := FlatStore.lookup_set_update r.raw.flat small
      (r.raw.flat.counter (RequestID.fd ud)) (RequestID.nonce ud) none
    rw [RequestID.pack_fd_nonce] at forgotten
    exact forgotten

/-! What the operations do to the entries of the registry itself, nil callbacks included. -/

theorem raw_addNonce (r : CallbackRegistry C) (fd : ℕ) (fast : r.raw.fast fd = true) :
    r.raw.SamePlaces (r.addNonce fd fast).2.raw ∧
      (r.addNonce fd fast).2.raw.flat.entry = r.raw.flat.entry := by
  obtain ⟨r', done, wf, same, flat⟩ := CbRegistry.addNonce_spec r.wf fast
  rw [addNonce, ofResult_eq done wf]
  refine ⟨same, ?_⟩
  rw [flat]
  exact Function.update_eq_self _ _

theorem raw_storeCallback (r : CallbackRegistry C) (fd : ℕ) (n : UInt32) (cb : Option C)
    (fast : r.raw.fast fd = true) :
    r.raw.SamePlaces (r.storeCallback fd n cb fast).raw ∧
      (r.storeCallback fd n cb fast).raw.flat.entry =
        Function.update r.raw.flat.entry fd
          (Function.update (r.raw.flat.entry fd) n (some cb)) := by
  obtain ⟨r', done, wf, same, flat⟩ := CbRegistry.storeCallback_spec r.wf fast n cb
  rw [storeCallback, ofResult_eq done wf]
  refine ⟨same, ?_⟩
  rw [flat]
  rfl

theorem raw_slowAdd (r : CallbackRegistry C) (fd : ℕ) (cb : Option C)
    (slow : r.raw.fast fd = false) :
    r.raw.SamePlaces (r.slowAdd fd cb slow).2.raw ∧
      (r.slowAdd fd cb slow).2.raw.flat.entry =
        Function.update r.raw.flat.entry fd
          (Function.update (r.raw.flat.entry fd) (r.raw.flat.next fd) (some cb)) := by
  obtain ⟨r', done, wf, same, flat⟩ := CbRegistry.slowAdd_spec r.wf slow cb
  rw [slowAdd, ofResult_eq done wf]
  refine ⟨same, ?_⟩
  rw [flat]
  rfl

theorem raw_pop (r : CallbackRegistry C) (ud : RequestID) :
    r.raw.SamePlaces (r.pop ud).2.raw ∧
      (r.pop ud).2.raw.flat.entry =
        Function.update r.raw.flat.entry (RequestID.fd ud)
          (Function.update (r.raw.flat.entry (RequestID.fd ud)) (RequestID.nonce ud) none) := by
  obtain ⟨r', done, wf, same, flat⟩ :=
    CbRegistry.pop_spec r.wf (RequestID.fd ud) (RequestID.nonce ud)
  rw [pop, ofResult_eq done wf]
  refine ⟨same, ?_⟩
  rw [flat]
  rfl

/-! Which descriptors are on the fast path never changes. -/

theorem fast_addNonce (r : CallbackRegistry C) (fd : ℕ) (fast : r.raw.fast fd = true)
    (fd' : ℕ) : (r.addNonce fd fast).2.raw.fast fd' = r.raw.fast fd' := by
  obtain ⟨r', done, wf, same, -⟩ := CbRegistry.addNonce_spec r.wf fast
  rw [addNonce, ofResult_eq done wf]
  exact same.fast_eq fd'

theorem fast_storeCallback (r : CallbackRegistry C) (fd : ℕ) (n : UInt32) (cb : Option C)
    (fast : r.raw.fast fd = true) (fd' : ℕ) :
    (r.storeCallback fd n cb fast).raw.fast fd' = r.raw.fast fd' := by
  obtain ⟨r', done, wf, same, -⟩ := CbRegistry.storeCallback_spec r.wf fast n cb
  rw [storeCallback, ofResult_eq done wf]
  exact same.fast_eq fd'

theorem fast_slowAdd (r : CallbackRegistry C) (fd : ℕ) (cb : Option C)
    (slow : r.raw.fast fd = false) (fd' : ℕ) :
    (r.slowAdd fd cb slow).2.raw.fast fd' = r.raw.fast fd' := by
  obtain ⟨r', done, wf, same, -⟩ := CbRegistry.slowAdd_spec r.wf slow cb
  rw [slowAdd, ofResult_eq done wf]
  exact same.fast_eq fd'

theorem fast_pop (r : CallbackRegistry C) (ud : RequestID) (fd' : ℕ) :
    (r.pop ud).2.raw.fast fd' = r.raw.fast fd' := by
  obtain ⟨r', done, wf, same, -⟩ :=
    CbRegistry.pop_spec r.wf (RequestID.fd ud) (RequestID.nonce ud)
  rw [pop, ofResult_eq done wf]
  exact same.fast_eq fd'

end CallbackRegistry

end GoUring.Reactor
