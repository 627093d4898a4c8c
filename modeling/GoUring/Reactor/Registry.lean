import GoUring.Foundation.BlockCyclic
import GoUring.Foundation.GoMemory
import Mathlib.Data.UInt

/-!
# The callback registry

`cbRegistry` of `reactor/registry.go`: callbacks keyed by a file descriptor and a
per-descriptor nonce.  Descriptors are spread over shards granule by granule; in
a shard, indices below `boundary` live in slices, the others in maps created on
demand.  The slice accesses and the map writes can fail in Go, so the functions
here return an `Option`.

What the registry is for is said by `FlatStore`: one counter per descriptor and
one map from descriptor and nonce to callback.  `CbRegistry.flat` reads a
registry as a flat store, and each operation is the one of the flat store,
whichever path it takes.  The fast path of `add` is two atomic steps — the
increment of the nonce and the locked store — and is modelled by its two parts.

The type of callbacks is a parameter; `none` is the nil callback.
-/

namespace GoUring.Reactor

open GoMemory

/-- `cbMap`. -/
abbrev CbMap (C : Type) := GoMap UInt32 (Option C)

/-- `shard`, less its mutex. -/
structure Shard (C : Type) where
  nonces : Slice UInt32
  callbacks : Slice (CbMap C)
  boundary : ℕ
  slowCallbacks : GoMap ℕ (CbMap C)
  slowNonces : GoMap ℕ UInt32

variable {C : Type}

/-- `newShard`. -/
def newShard (C : Type) (fCap : ℕ) : Shard C where
  callbacks := Slice.make fCap GoMap.make
  nonces := Slice.make fCap 0
  boundary := fCap
  slowCallbacks := GoMap.make
  slowNonces := GoMap.make

namespace Shard

/-- `atomic.AddUint32(&sh.nonces[idx], 1)`. -/
def addNonce (sh : Shard C) (idx : ℕ) : Option (UInt32 × Shard C) := do
  let n ← sh.nonces.get idx
  let nonces ← sh.nonces.set idx (n + 1)
  return (n + 1, { sh with nonces := nonces })

/-- `sh.callbacks[idx][n] = cb`, under the lock. -/
def storeCallback (sh : Shard C) (idx : ℕ) (n : UInt32) (cb : Option C) :
    Option (Shard C) := do
  let m ← sh.callbacks.get idx
  let m ← m.write n cb
  let callbacks ← sh.callbacks.set idx m
  return { sh with callbacks := callbacks }

/-- `slowCallbacks` with a map made for the index if there was none. -/
def ensureSlow (sh : Shard C) (idx : ℕ) : Option (GoMap ℕ (CbMap C)) :=
  match sh.slowCallbacks.find idx with
  | some _ => some sh.slowCallbacks
  | none => sh.slowCallbacks.write idx GoMap.make

/-- The slow path of `shard.add`, all of it under the lock. -/
def slowAdd (sh : Shard C) (idx : ℕ) (cb : Option C) : Option (UInt32 × Shard C) := do
  let n := (sh.slowNonces.find idx).getD 0 + 1
  let slowNonces ← sh.slowNonces.write idx n
  let slowCallbacks ← sh.ensureSlow idx
  let m ← ((slowCallbacks.find idx).getD .nil).write n cb
  let slowCallbacks ← slowCallbacks.write idx m
  return (n, { sh with slowNonces := slowNonces, slowCallbacks := slowCallbacks })

/-- `shard.add`. -/
def add (sh : Shard C) (idx : ℕ) (cb : Option C) : Option (UInt32 × Shard C) :=
  if idx < sh.boundary then do
    let (n, sh) ← sh.addNonce idx
    let sh ← sh.storeCallback idx n cb
    return (n, sh)
  else
    sh.slowAdd idx cb

/-- `shard.pop`: a missing entry reads as the nil callback, and deleting from a
nil map does nothing. -/
def pop (sh : Shard C) (idx : ℕ) (nonce : UInt32) : Option (Option C × Shard C) :=
  if idx < sh.boundary then do
    let m ← sh.callbacks.get idx
    let callbacks ← sh.callbacks.set idx (m.delete nonce)
    return ((m.find nonce).getD none, { sh with callbacks := callbacks })
  else
    match sh.slowCallbacks.find idx with
    | none => some (none, sh)
    | some m => do
        let slowCallbacks ← sh.slowCallbacks.write idx (m.delete nonce)
        return ((m.find nonce).getD none, { sh with slowCallbacks := slowCallbacks })

/-! ## A shard read as a flat store -/

/-- The nonce last given out for an index. -/
def counter (sh : Shard C) (idx : ℕ) : UInt32 :=
  if idx < sh.boundary then sh.nonces.elem idx else (sh.slowNonces.find idx).getD 0

/-- The entry of an index and a nonce. -/
def entry (sh : Shard C) (idx : ℕ) : UInt32 → Option (Option C) :=
  if idx < sh.boundary then (sh.callbacks.elem idx).find
  else ((sh.slowCallbacks.find idx).getD .nil).find

/-- **The invariant of a shard**: the slices reach up to the boundary, and every
map that is written has been made. -/
structure WF (sh : Shard C) : Prop where
  nonces_len : sh.nonces.len = sh.boundary
  callbacks_len : sh.callbacks.len = sh.boundary
  made : ∀ idx < sh.boundary, sh.callbacks.elem idx ≠ .nil
  slowNonces_made : sh.slowNonces ≠ .nil
  slowCallbacks_made : sh.slowCallbacks ≠ .nil
  slow_made : ∀ idx m, sh.slowCallbacks.find idx = some m → m ≠ .nil

theorem wf_newShard (fCap : ℕ) : (newShard C fCap).WF where
  nonces_len := rfl
  callbacks_len := rfl
  made := fun _ _ => GoMap.make_ne_nil
  slowNonces_made := GoMap.make_ne_nil
  slowCallbacks_made := GoMap.make_ne_nil
  slow_made := by simp [newShard]

theorem counter_newShard (fCap idx : ℕ) : (newShard C fCap).counter idx = 0 := by
  unfold counter
  split
  · rfl
  · rfl

theorem entry_newShard (fCap idx : ℕ) (n : UInt32) : (newShard C fCap).entry idx n = none := by
  unfold entry
  split
  · rfl
  · rfl

variable {sh : Shard C}

/-- What an operation of a shard does to its flat reading: one index gets the
given counter and the given entries, every other index keeps its own. -/
structure Becomes (sh sh' : Shard C) (idx : ℕ) (counter : UInt32)
    (entry : UInt32 → Option (Option C)) : Prop where
  wf : sh'.WF
  boundary : sh'.boundary = sh.boundary
  counter_eq : sh'.counter = Function.update sh.counter idx counter
  entry_eq : sh'.entry = Function.update sh.entry idx entry

theorem addNonce_spec (wf : sh.WF) {idx : ℕ} (fast : idx < sh.boundary) :
    ∃ sh', sh.addNonce idx = some (sh.counter idx + 1, sh') ∧
      sh.Becomes sh' idx (sh.counter idx + 1) (sh.entry idx) := by
  have lt : idx < sh.nonces.len := wf.nonces_len ▸ fast
  have current : sh.counter idx = sh.nonces.elem idx := if_pos fast
  refine ⟨{ sh with
    nonces := { sh.nonces with
      elem := Function.update sh.nonces.elem idx (sh.nonces.elem idx + 1) } }, ?_, ?_⟩
  · simp [addNonce, Slice.get_of_lt lt, Slice.set_of_lt lt, current]
  · refine ⟨⟨wf.nonces_len, wf.callbacks_len, wf.made, wf.slowNonces_made,
      wf.slowCallbacks_made, wf.slow_made⟩, rfl, ?_, (Function.update_eq_self _ _).symm⟩
    rw [current]
    funext j
    by_cases same : j = idx
    · subst same
      simp [counter, fast]
    · simp [counter, same]

theorem storeCallback_spec (wf : sh.WF) {idx : ℕ} (fast : idx < sh.boundary) (n : UInt32)
    (cb : Option C) :
    ∃ sh', sh.storeCallback idx n cb = some sh' ∧
      sh.Becomes sh' idx (sh.counter idx) (Function.update (sh.entry idx) n (some cb)) := by
  have lt : idx < sh.callbacks.len := wf.callbacks_len ▸ fast
  obtain ⟨m, written, made, find⟩ := GoMap.exists_write (wf.made idx fast) n cb
  refine ⟨{ sh with
    callbacks := { sh.callbacks with elem := Function.update sh.callbacks.elem idx m } },
    ?_, ?_⟩
  · simp [storeCallback, Slice.get_of_lt lt, written, Slice.set_of_lt lt]
  · refine ⟨⟨wf.nonces_len, wf.callbacks_len, ?_, wf.slowNonces_made,
      wf.slowCallbacks_made, wf.slow_made⟩, rfl, (Function.update_eq_self _ _).symm, ?_⟩
    · intro j below
      by_cases same : j = idx
      · subst same
        simpa using made
      · simpa [same] using wf.made j below
    · funext j
      by_cases same : j = idx
      · subst same
        simp [entry, fast, find]
      · simp [entry, same]

/-- After the check for its existence the map of the index is made, and holds
what the index held before. -/
theorem ensureSlow_spec (wf : sh.WF) {idx : ℕ} (slow : ¬ idx < sh.boundary) :
    ∃ created, sh.ensureSlow idx = some created ∧ created ≠ .nil ∧
      (∀ j ≠ idx, created.find j = sh.slowCallbacks.find j) ∧
      ∃ m, created.find idx = some m ∧ m ≠ .nil ∧ m.find = sh.entry idx := by
  unfold ensureSlow
  cases present : sh.slowCallbacks.find idx with
  | some m =>
      refine ⟨_, rfl, wf.slowCallbacks_made, fun _ _ => rfl, m, present,
        wf.slow_made idx m present, ?_⟩
      simp [entry, slow, present]
  | none =>
      obtain ⟨created, written, made, find⟩ :=
        GoMap.exists_write wf.slowCallbacks_made idx (GoMap.make : CbMap C)
      refine ⟨created, written, made, fun j other => ?_, GoMap.make, ?_, ?_, ?_⟩
      · rw [find, Function.update_of_ne other]
      · rw [find, Function.update_self]
      · exact GoMap.make_ne_nil
      · funext n
        simp [entry, slow, present]

theorem slowAdd_spec (wf : sh.WF) {idx : ℕ} (slow : ¬ idx < sh.boundary)
    (cb : Option C) :
    ∃ sh', sh.slowAdd idx cb = some (sh.counter idx + 1, sh') ∧
      sh.Becomes sh' idx (sh.counter idx + 1)
        (Function.update (sh.entry idx) (sh.counter idx + 1) (some cb)) := by
  have current : sh.counter idx = (sh.slowNonces.find idx).getD 0 := if_neg slow
  obtain ⟨nonces, nonces_written, nonces_made, nonces_find⟩ :=
    GoMap.exists_write wf.slowNonces_made idx (sh.counter idx + 1)
  obtain ⟨created, creation, created_made, created_find, created_idx⟩ :=
    ensureSlow_spec wf slow
  obtain ⟨m, m_eq, m_made, m_find⟩ := created_idx
  obtain ⟨m', m_written, m_made', m_find'⟩ :=
    GoMap.exists_write m_made (sh.counter idx + 1) cb
  obtain ⟨callbacks, callbacks_written, callbacks_made, callbacks_find⟩ :=
    GoMap.exists_write created_made idx m'
  refine ⟨{ sh with slowNonces := nonces, slowCallbacks := callbacks }, ?_, ?_⟩
  · simp only [slowAdd, ← current, nonces_written, creation, m_eq, Option.getD_some,
      m_written, callbacks_written, Option.bind_eq_bind, Option.bind_some, Option.pure_def]
  · refine ⟨⟨wf.nonces_len, wf.callbacks_len, wf.made, nonces_made, callbacks_made, ?_⟩,
      rfl, ?_, ?_⟩
    · intro j k found
      simp only [callbacks_find] at found
      by_cases same : j = idx
      · subst same
        rw [Function.update_self, Option.some.injEq] at found
        exact found ▸ m_made'
      · rw [Function.update_of_ne same, created_find j same] at found
        exact wf.slow_made j k found
    · funext j
      by_cases same : j = idx
      · subst same
        simp [counter, slow, nonces_find]
      · simp [counter, nonces_find, same]
    · funext j
      by_cases same : j = idx
      · subst same
        simp [entry, slow, callbacks_find, m_find', m_find]
      · simp [entry, callbacks_find, created_find j same, same]

/-- **`shard.add`** does the same on both paths. -/
theorem add_spec (wf : sh.WF) (idx : ℕ) (cb : Option C) :
    ∃ sh', sh.add idx cb = some (sh.counter idx + 1, sh') ∧
      sh.Becomes sh' idx (sh.counter idx + 1)
        (Function.update (sh.entry idx) (sh.counter idx + 1) (some cb)) := by
  by_cases fast : idx < sh.boundary
  · obtain ⟨mid, numbered, became⟩ := addNonce_spec wf fast
    have fast' : idx < mid.boundary := became.boundary ▸ fast
    obtain ⟨sh', stored, became'⟩ :=
      storeCallback_spec became.wf fast' (sh.counter idx + 1) cb
    refine ⟨sh', by simp [add, fast, numbered, stored], became'.wf, ?_, ?_, ?_⟩
    · exact became'.boundary.trans became.boundary
    · rw [became'.counter_eq, became.counter_eq, Function.update_idem, Function.update_self]
    · rw [became'.entry_eq, became.entry_eq, Function.update_idem, Function.update_self]
  · obtain ⟨sh', added, became⟩ := slowAdd_spec wf fast cb
    exact ⟨sh', by rw [add, if_neg fast, added], became⟩

/-- **`shard.pop`** does the same on both paths. -/
theorem pop_spec (wf : sh.WF) (idx : ℕ) (nonce : UInt32) :
    ∃ sh', sh.pop idx nonce = some ((sh.entry idx nonce).getD none, sh') ∧
      sh.Becomes sh' idx (sh.counter idx) (Function.update (sh.entry idx) nonce none) := by
  by_cases fast : idx < sh.boundary
  · have lt : idx < sh.callbacks.len := wf.callbacks_len ▸ fast
    refine ⟨{ sh with
      callbacks := { sh.callbacks with
        elem := Function.update sh.callbacks.elem idx
          ((sh.callbacks.elem idx).delete nonce) } }, ?_, ?_⟩
    · simp [pop, fast, Slice.get_of_lt lt, Slice.set_of_lt lt, entry]
    · refine ⟨⟨wf.nonces_len, wf.callbacks_len, ?_, wf.slowNonces_made,
        wf.slowCallbacks_made, wf.slow_made⟩, rfl, (Function.update_eq_self _ _).symm, ?_⟩
      · intro j below
        by_cases same : j = idx
        · subst same
          simpa using GoMap.delete_ne_nil (wf.made j below) nonce
        · simpa [same] using wf.made j below
      · funext j
        by_cases same : j = idx
        · subst same
          simp [entry, fast, GoMap.find_delete]
        · simp [entry, same]
  · cases present : sh.slowCallbacks.find idx with
    | none =>
        refine ⟨sh, ?_, wf, rfl, (Function.update_eq_self _ _).symm, ?_⟩
        · simp [pop, fast, present, entry]
        · have empty : sh.entry idx = fun _ => none := by
            funext n
            simp [entry, fast, present]
          rw [empty, Function.update_eq_self_iff.mpr rfl, ← empty, Function.update_eq_self]
    | some m =>
        have made := wf.slow_made idx m present
        obtain ⟨callbacks, written, callbacks_made, find⟩ :=
          GoMap.exists_write wf.slowCallbacks_made idx (m.delete nonce)
        refine ⟨{ sh with slowCallbacks := callbacks }, ?_, ?_⟩
        · simp [pop, fast, present, written, entry]
        · refine ⟨⟨wf.nonces_len, wf.callbacks_len, wf.made, wf.slowNonces_made,
            callbacks_made, ?_⟩, rfl, (Function.update_eq_self _ _).symm, ?_⟩
          · intro j k found
            simp only [find] at found
            by_cases same : j = idx
            · subst same
              rw [Function.update_self, Option.some.injEq] at found
              exact found ▸ GoMap.delete_ne_nil made nonce
            · rw [Function.update_of_ne same] at found
              exact wf.slow_made j k found
          · funext j
            by_cases same : j = idx
            · subst same
              simp [entry, fast, find, present, GoMap.find_delete]
            · simp [entry, find, same]

end Shard

/-- `cbRegistry`. -/
structure CbRegistry (C : Type) where
  shards : Slice (Shard C)
  granularity : ℕ
  shardCnt : ℕ

/-- `newCbRegistry`. -/
def newCbRegistry (C : Type) (shardCount granularity : ℕ) : CbRegistry C where
  granularity := granularity
  shardCnt := shardCount
  shards := Slice.make shardCount (newShard C (2 ^ 16 / shardCount))

/-- **One flat map**: per descriptor a counter and the callbacks stored under
its nonces. -/
@[ext]
structure FlatStore (C : Type) where
  counter : ℕ → UInt32
  entry : ℕ → UInt32 → Option (Option C)

namespace FlatStore

/-- No request was ever numbered or stored. -/
def empty : FlatStore C where
  counter _ := 0
  entry _ _ := none

/-- The descriptor's next nonce. -/
def next (f : FlatStore C) (fd : ℕ) : UInt32 := f.counter fd + 1

/-- Replace what is kept for one descriptor. -/
def set (f : FlatStore C) (fd : ℕ) (counter : UInt32)
    (entry : UInt32 → Option (Option C)) : FlatStore C where
  counter := Function.update f.counter fd counter
  entry := Function.update f.entry fd entry

/-- Number a request and store its callback. -/
def add (f : FlatStore C) (fd : ℕ) (cb : Option C) : UInt32 × FlatStore C :=
  (f.next fd, f.set fd (f.next fd) (Function.update (f.entry fd) (f.next fd) (some cb)))

/-- Take a callback out; the nil callback if there is none. -/
def pop (f : FlatStore C) (fd : ℕ) (nonce : UInt32) : Option C × FlatStore C :=
  ((f.entry fd nonce).getD none,
    f.set fd (f.counter fd) (Function.update (f.entry fd) nonce none))

end FlatStore

namespace CbRegistry

/-- `cbRegistry.shardNumAndFlattenIdx`. -/
def shardNumAndFlattenIdx (r : CbRegistry C) (fd : ℕ) : ℕ × ℕ :=
  let gNum := fd / r.granularity
  (gNum % r.shardCnt, gNum / r.shardCnt * r.granularity + fd % r.granularity)

/-- Run a shard operation on the shard and the index of a descriptor. -/
def onShard {β : Type} (r : CbRegistry C) (fd : ℕ)
    (f : Shard C → ℕ → Option (β × Shard C)) : Option (β × CbRegistry C) := do
  let (shardNum, idx) := r.shardNumAndFlattenIdx fd
  let sh ← r.shards.get shardNum
  let (out, sh) ← f sh idx
  let shards ← r.shards.set shardNum sh
  return (out, { r with shards := shards })

/-- `cbRegistry.add`. -/
def add (r : CbRegistry C) (fd : ℕ) (cb : Option C) : Option (UInt32 × CbRegistry C) :=
  r.onShard fd fun sh idx => sh.add idx cb

/-- `cbRegistry.pop`. -/
def pop (r : CbRegistry C) (fd : ℕ) (nonce : UInt32) : Option (Option C × CbRegistry C) :=
  r.onShard fd fun sh idx => sh.pop idx nonce

/-- The shard a descriptor belongs to. -/
def shardOf (r : CbRegistry C) (fd : ℕ) : Shard C :=
  r.shards.elem (r.shardNumAndFlattenIdx fd).1

/-- Whether a descriptor is on the fast path. -/
def fast (r : CbRegistry C) (fd : ℕ) : Bool :=
  decide ((r.shardNumAndFlattenIdx fd).2 < (r.shardOf fd).boundary)

/-- The registry read as one flat store. -/
def flat (r : CbRegistry C) : FlatStore C where
  counter fd := (r.shardOf fd).counter (r.shardNumAndFlattenIdx fd).2
  entry fd := (r.shardOf fd).entry (r.shardNumAndFlattenIdx fd).2

/-- **The invariant of the registry.** -/
structure WF (r : CbRegistry C) : Prop where
  granularity_pos : 0 < r.granularity
  shardCnt_pos : 0 < r.shardCnt
  shards_len : r.shards.len = r.shardCnt
  shards_wf : ∀ i, (r.shards.elem i).WF

theorem wf_newCbRegistry {shardCount granularity : ℕ} (some_shard : 0 < shardCount)
    (some_fd : 0 < granularity) : (newCbRegistry C shardCount granularity).WF where
  granularity_pos := some_fd
  shardCnt_pos := some_shard
  shards_len := rfl
  shards_wf := fun _ => Shard.wf_newShard _

theorem flat_newCbRegistry (shardCount granularity : ℕ) :
    (newCbRegistry C shardCount granularity).flat = FlatStore.empty := by
  refine FlatStore.ext ?_ ?_
  · funext fd
    exact Shard.counter_newShard _ _
  · funext fd nonce
    exact Shard.entry_newShard _ _ _

/-- The descriptor of a shard number and an index. -/
def fdOf (r : CbRegistry C) (place : ℕ × ℕ) : ℕ :=
  r.granularity * (r.shardCnt * (place.2 / r.granularity) + place.1) +
    place.2 % r.granularity

/-- A descriptor is determined by its shard and its index there. -/
theorem fdOf_shardNumAndFlattenIdx {r : CbRegistry C} (wf : r.WF) (fd : ℕ) :
    r.fdOf (r.shardNumAndFlattenIdx fd) = fd :=
  BlockCyclic.item_place wf.granularity_pos fd

theorem shardNumAndFlattenIdx_inj {r : CbRegistry C} (wf : r.WF) {fd fd' : ℕ}
    (same : r.shardNumAndFlattenIdx fd = r.shardNumAndFlattenIdx fd') : fd = fd' := by
  rw [← fdOf_shardNumAndFlattenIdx wf fd, same, fdOf_shardNumAndFlattenIdx wf]

/-- Where the registry keeps a descriptor does not change. -/
structure SamePlaces (r r' : CbRegistry C) : Prop where
  granularity : r'.granularity = r.granularity
  shardCnt : r'.shardCnt = r.shardCnt
  boundary : ∀ i, (r'.shards.elem i).boundary = (r.shards.elem i).boundary

theorem SamePlaces.fast_eq {r r' : CbRegistry C} (same : r.SamePlaces r') (fd : ℕ) :
    r'.fast fd = r.fast fd := by
  have places : r'.shardNumAndFlattenIdx fd = r.shardNumAndFlattenIdx fd := by
    simp only [shardNumAndFlattenIdx, same.granularity, same.shardCnt]
  unfold fast shardOf
  rw [places, same.boundary]

/-- The registry with one shard replaced. -/
def putShard (r : CbRegistry C) (i : ℕ) (sh : Shard C) : CbRegistry C :=
  { r with shards := { r.shards with elem := Function.update r.shards.elem i sh } }

@[simp] theorem elem_putShard (r : CbRegistry C) (i : ℕ) (sh : Shard C) :
    (r.putShard i sh).shards.elem = Function.update r.shards.elem i sh := rfl

@[simp] theorem shardNumAndFlattenIdx_putShard (r : CbRegistry C) (i : ℕ) (sh : Shard C)
    (fd : ℕ) : (r.putShard i sh).shardNumAndFlattenIdx fd = r.shardNumAndFlattenIdx fd := rfl

/-- **A shard operation, seen on the flat store.**  What it does to its index it
does to its descriptor, and to no other. -/
theorem onShard_spec {β : Type} {r : CbRegistry C} (wf : r.WF) {fd : ℕ}
    {f : Shard C → ℕ → Option (β × Shard C)} {out : β} {counter : UInt32}
    {entry : UInt32 → Option (Option C)}
    (spec : ∃ sh', f (r.shardOf fd) (r.shardNumAndFlattenIdx fd).2 = some (out, sh') ∧
      (r.shardOf fd).Becomes sh' (r.shardNumAndFlattenIdx fd).2 counter entry) :
    ∃ r', r.onShard fd f = some (out, r') ∧ r'.WF ∧ r.SamePlaces r' ∧
      r'.flat = r.flat.set fd counter entry := by
  obtain ⟨sh', done, became⟩ := spec
  have lt : (r.shardNumAndFlattenIdx fd).1 < r.shards.len := by
    rw [wf.shards_len]
    exact Nat.mod_lt _ wf.shardCnt_pos
  refine ⟨r.putShard (r.shardNumAndFlattenIdx fd).1 sh', ?_,
    ⟨wf.granularity_pos, wf.shardCnt_pos, wf.shards_len, fun i => ?_⟩,
    ⟨rfl, rfl, fun i => ?_⟩, ?_⟩
  · rw [shardOf] at done
    simp [onShard, Slice.get_of_lt lt, done, Slice.set_of_lt lt, putShard]
  · by_cases same : i = (r.shardNumAndFlattenIdx fd).1
    · subst same
      simpa using became.wf
    · simpa [same] using wf.shards_wf i
  · by_cases same : i = (r.shardNumAndFlattenIdx fd).1
    · subst same
      simpa [shardOf] using became.boundary
    · simp [same]
  · -- A descriptor other than `fd` is in another shard, or in this one at another index.
    have elsewhere : ∀ j ≠ fd,
        (r.shardNumAndFlattenIdx j).1 = (r.shardNumAndFlattenIdx fd).1 →
          (r.shardNumAndFlattenIdx j).2 ≠ (r.shardNumAndFlattenIdx fd).2 :=
      fun j other shard idx => other (shardNumAndFlattenIdx_inj wf (Prod.ext shard idx))
    refine FlatStore.ext ?_ ?_
    · funext j
      simp only [flat, shardOf, FlatStore.set, shardNumAndFlattenIdx_putShard, elem_putShard]
      by_cases this : j = fd
      · subst this
        rw [Function.update_self, Function.update_self, became.counter_eq,
          Function.update_self]
      · rw [Function.update_of_ne this]
        by_cases shard : (r.shardNumAndFlattenIdx j).1 = (r.shardNumAndFlattenIdx fd).1
        · rw [shard, Function.update_self, became.counter_eq,
            Function.update_of_ne (elsewhere j this shard), shardOf]
        · rw [Function.update_of_ne shard]
    · funext j
      simp only [flat, shardOf, FlatStore.set, shardNumAndFlattenIdx_putShard, elem_putShard]
      by_cases this : j = fd
      · subst this
        rw [Function.update_self, Function.update_self, became.entry_eq,
          Function.update_self]
      · rw [Function.update_of_ne this]
        by_cases shard : (r.shardNumAndFlattenIdx j).1 = (r.shardNumAndFlattenIdx fd).1
        · rw [shard, Function.update_self, became.entry_eq,
            Function.update_of_ne (elsewhere j this shard), shardOf]
        · rw [Function.update_of_ne shard]

variable {r : CbRegistry C}

/-- **`add` is the flat store's.** -/
theorem add_spec (wf : r.WF) (fd : ℕ) (cb : Option C) :
    ∃ r', r.add fd cb = some (r.flat.next fd, r') ∧ r'.WF ∧ r.SamePlaces r' ∧
      r'.flat = (r.flat.add fd cb).2 :=
  onShard_spec wf (Shard.add_spec (wf.shards_wf _) _ cb)

/-- **`pop` is the flat store's.** -/
theorem pop_spec (wf : r.WF) (fd : ℕ) (nonce : UInt32) :
    ∃ r', r.pop fd nonce = some ((r.flat.pop fd nonce).1, r') ∧ r'.WF ∧ r.SamePlaces r' ∧
      r'.flat = (r.flat.pop fd nonce).2 :=
  onShard_spec wf (Shard.pop_spec (wf.shards_wf _) _ nonce)

end CbRegistry

/-! ## Histories of calls -/

/-- A call on the registry. -/
inductive RegistryCall (C : Type)
  | add (fd : ℕ) (cb : Option C)
  | pop (fd : ℕ) (nonce : UInt32)

/-- What a call returns. -/
inductive RegistryResult (C : Type)
  | nonce (n : UInt32)
  | callback (cb : Option C)
  deriving DecidableEq, Repr

/-- The descriptor a call is about. -/
def RegistryCall.fd : RegistryCall C → ℕ
  | .add fd _ => fd
  | .pop fd _ => fd

/-- One call. -/
def CbRegistry.call (r : CbRegistry C) :
    RegistryCall C → Option (RegistryResult C × CbRegistry C)
  | .add fd cb => (r.add fd cb).map fun (n, r) => (.nonce n, r)
  | .pop fd nonce => (r.pop fd nonce).map fun (cb, r) => (.callback cb, r)

/-- The results of a history of calls; `none` when one of them fails. -/
def CbRegistry.results (r : CbRegistry C) :
    List (RegistryCall C) → Option (List (RegistryResult C))
  | [] => some []
  | c :: cs => do
      let (out, r) ← r.call c
      let outs ← r.results cs
      return out :: outs

namespace FlatStore

/-- One call. -/
def call (f : FlatStore C) : RegistryCall C → RegistryResult C × FlatStore C
  | .add fd cb => (.nonce (f.add fd cb).1, (f.add fd cb).2)
  | .pop fd nonce => (.callback (f.pop fd nonce).1, (f.pop fd nonce).2)

/-- The results of a history of calls. -/
def results (f : FlatStore C) : List (RegistryCall C) → List (RegistryResult C)
  | [] => []
  | c :: cs => (f.call c).1 :: (f.call c).2.results cs

/-- A call leaves the other descriptors alone. -/
theorem call_of_ne (f : FlatStore C) (c : RegistryCall C) {fd : ℕ} (other : fd ≠ c.fd) :
    (f.call c).2.counter fd = f.counter fd ∧ (f.call c).2.entry fd = f.entry fd := by
  cases c with
  | add fd' cb => exact ⟨Function.update_of_ne other _ _, Function.update_of_ne other _ _⟩
  | pop fd' nonce => exact ⟨Function.update_of_ne other _ _, Function.update_of_ne other _ _⟩

/-- What a call returns, and what it leaves behind for its descriptor, depends
only on what was kept for its descriptor. -/
theorem call_congr {f g : FlatStore C} (c : RegistryCall C)
    (counter : f.counter c.fd = g.counter c.fd) (entry : f.entry c.fd = g.entry c.fd) :
    (f.call c).1 = (g.call c).1 ∧
      (f.call c).2.counter c.fd = (g.call c).2.counter c.fd ∧
      (f.call c).2.entry c.fd = (g.call c).2.entry c.fd := by
  cases c with
  | add fd cb =>
      simp only [RegistryCall.fd] at counter entry
      simp [call, add, next, set, RegistryCall.fd, counter, entry]
  | pop fd nonce =>
      simp only [RegistryCall.fd] at counter entry
      simp [call, pop, set, RegistryCall.fd, counter, entry]

/-- The calls on one descriptor and their results do not depend on the calls on
the others. -/
theorem filter_results (fd : ℕ) :
    ∀ (calls : List (RegistryCall C)) (f g : FlatStore C),
      f.counter fd = g.counter fd → f.entry fd = g.entry fd →
        (calls.zip (f.results calls)).filter (fun x => x.1.fd = fd) =
          (calls.filter (·.fd = fd)).zip (g.results (calls.filter (·.fd = fd))) := by
  intro calls
  induction calls with
  | nil =>
      intro f g _ _
      rfl
  | cons c cs ih =>
      intro f g counter entry
      by_cases this : c.fd = fd
      · subst this
        obtain ⟨out, counter', entry'⟩ := call_congr c counter entry
        simp [results, out, ih _ _ counter' entry']
      · obtain ⟨counter', entry'⟩ := f.call_of_ne c (Ne.symm this)
        simp [results, this, ih _ _ (counter'.trans counter) (entry'.trans entry)]

end FlatStore

/-- Each call on a registry is the call on the flat store it reads as. -/
theorem CbRegistry.call_spec {r : CbRegistry C} (wf : r.WF) (c : RegistryCall C) :
    ∃ r', r.call c = some ((r.flat.call c).1, r') ∧ r'.WF ∧ r'.flat = (r.flat.call c).2 := by
  cases c with
  | add fd cb =>
      obtain ⟨r', added, wf', -, flat⟩ := add_spec wf fd cb
      exact ⟨r', by simp only [call, added]; rfl, wf', flat⟩
  | pop fd nonce =>
      obtain ⟨r', popped, wf', -, flat⟩ := pop_spec wf fd nonce
      exact ⟨r', by simp only [call, popped]; rfl, wf', flat⟩

theorem CbRegistry.results_eq :
    ∀ (calls : List (RegistryCall C)) {r : CbRegistry C}, r.WF →
      r.results calls = some (r.flat.results calls) := by
  intro calls
  induction calls with
  | nil =>
      intro r _
      rfl
  | cons c cs ih =>
      intro r wf
      obtain ⟨r', called, wf', flat⟩ := call_spec wf c
      simp [results, called, ih wf', flat, FlatStore.results]

/-- **The registry refines one flat map.**  For every number of shards and every
granularity, every history of `add` and `pop` calls goes through — no index is
out of range, no nil map is written — and returns what one flat store returns.
The results for one descriptor are those of its own calls alone. -/
theorem registry_refines_flat_store {shardCount granularity : ℕ} (shards : 1 ≤ shardCount)
    (granules : 1 ≤ granularity) (calls : List (RegistryCall C)) :
    (newCbRegistry C shardCount granularity).results calls =
        some (FlatStore.empty.results calls) ∧
      ∀ fd, (calls.zip (FlatStore.empty.results calls)).filter (fun x => x.1.fd = fd) =
        (calls.filter (·.fd = fd)).zip
          (FlatStore.empty.results (calls.filter (·.fd = fd))) := by
  refine ⟨?_, fun fd => FlatStore.filter_results fd calls _ _ rfl rfl⟩
  rw [CbRegistry.results_eq calls (CbRegistry.wf_newCbRegistry shards granules),
    CbRegistry.flat_newCbRegistry]

/-- Three shards: a descriptor on the fast path and one on the slow path, the
second one popped twice. -/
theorem registry_refines_flat_store_three_shards :
    (newCbRegistry ℕ 3 75).results
        [.add 4 (some 10), .add 70000 (some 11), .add 4 (some 12), .pop 70000 1,
          .pop 70000 1, .pop 4 2] =
      some [.nonce 1, .nonce 1, .nonce 2, .callback (some 11), .callback none,
        .callback (some 12)] :=
  (registry_refines_flat_store (by decide) (by decide) _).1

end GoUring.Reactor
