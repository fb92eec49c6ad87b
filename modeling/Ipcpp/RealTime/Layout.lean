import Ipcpp.RealTime.Index

/-!
# Where a real-time buffer lies

One call of `init_at` or `read_at` that nobody disturbs, with the spans it returns: the header, the
publisher entries, the subscriber entries and the message buffer, one after the other.  Addresses are
counted from the start of the memory.

The sizes are computed in three places.  `per_publisher_pool_size` and `message_buffer_size` multiply
two `uint_half_t` and lose what does not fit; `required_size_bytes` multiplies in 64 bits.  The check
`capacity > max` of `init_at` looks at a product that is already reduced, so it never fails
(`messageBufferSize_le`).  `poolSized_iff` and `layout_iff` say for which options the pool has the room it
should have, and for which ones the spans are where the comment on the memory layout puts them.
-/

namespace Ipcpp
namespace RealTime
namespace Layout
open Init hiding initAt

/-- a `std::span` in the memory: the address of the first element, and how many there are -/
structure Span where
  data : Nat
  size : Nat
deriving DecidableEq

/-- `RealTimeMessageBuffer` -/
structure Buffer where
  commonHeader : Nat
  publisherEntries : Span
  subscriberEntries : Span
  buffer : Span
  hWrapAroundValue : Nat
deriving DecidableEq

section
variable (messageSize : Nat)

/-- a loop of `init_at` over a span -/
def constructSpan (m : Memory) (s : Span) (x : Object) : Memory :=
  (List.range s.size).foldl (fun m i => m.constructAt messageSize (s.data + x.size messageSize * i) x) m

/-- `init_at`.  A `compare_exchange_weak` fails for no reason if its argument says so; every error is
`std::error_code(1)`. -/
def initAt (m : Memory) (sizeBytes : Nat) (o : Options) (spurious₁ spurious₂ : Bool) :
    Memory × Except Nat Buffer :=
  if sizeBytes < requiredSizeBytes messageSize o then (m, .error 1)
  else
    let capacity := o.messageBufferSize
    if capacity > 2^32 - 1 then (m, .error 1)
    else
      let m := { m with header := Header.new o }
      match exchange m .uninitialized .inInitialization spurious₁ with
      | none => (m, .error 1)
      | some m =>
        let perPublisherHeaders := Span.mk headerSize o.maxPublishers.toNat
        let m := constructSpan messageSize m perPublisherHeaders .publisherEntry
        let perSubscriberHeaders := Span.mk (headerSize + 128 * o.maxPublishers.toNat) o.maxSubscribers.toNat
        let m := constructSpan messageSize m perSubscriberHeaders .subscriberEntry
        let buffer := Span.mk
          (headerSize + 128 * o.maxPublishers.toNat + 64 * o.maxSubscribers.toNat) capacity
        let m := constructSpan messageSize m buffer .message
        match exchange m .inInitialization .initialized spurious₂ with
        | none => (m, .error 1)
        | some m =>
          (m, .ok ⟨0, perPublisherHeaders, perSubscriberHeaders, buffer,
            Index.hWrapAroundValue m.header.options⟩)

end

/-- `read_at` on memory that nobody changes meanwhile: the wait loop ends at once or in a timeout -/
def readAt (m : Memory) : Except Nat Buffer :=
  if m.header.initializationState = .initialized then
    let options := m.header.options
    let capacity := options.messageBufferSize
    let ppHeaders := Span.mk headerSize options.maxPublishers.toNat
    let psHeaders := Span.mk (headerSize + 128 * options.maxPublishers.toNat) options.maxSubscribers.toNat
    let buffer := Span.mk
      (headerSize + 128 * options.maxPublishers.toNat + 64 * options.maxSubscribers.toNat) capacity
    .ok ⟨0, ppHeaders, psHeaders, buffer, Index.hWrapAroundValue options⟩
  else .error 1

/-- `get_index`: the pool size is read from the header every time -/
def Buffer.getIndex (b : Buffer) (m : Memory) (publisherIdx localMessageId : Nat) : Nat :=
  (publisherIdx * m.header.options.perPublisherPoolSize + (localMessageId &&& b.hWrapAroundValue)) % 2^32

/-- the check `capacity > max` never fails: the capacity is a `uint_half_t` already -/
theorem messageBufferSize_le (o : Options) : o.messageBufferSize ≤ 2^32 - 1 :=
  Nat.le_pred_of_lt (Nat.mod_lt _ (by decide))

/-! ## `initAt` and the steps of a call -/

section
variable {messageSize : Nat}

theorem constructSpan_eq (m : Memory) (s : Span) (x : Object) :
    constructSpan messageSize m s x =
      ((List.range s.size).map fun i => (s.data + x.size messageSize * i, x)).foldl
        (fun m y => m.constructAt messageSize y.1 y.2) m := by
  rw [constructSpan, List.foldl_map]

/-- the spans of a buffer with the options `o` -/
def spans (o : Options) : Buffer where
  commonHeader := 0
  publisherEntries := ⟨headerSize, o.maxPublishers.toNat⟩
  subscriberEntries := ⟨headerSize + 128 * o.maxPublishers.toNat, o.maxSubscribers.toNat⟩
  buffer := ⟨headerSize + 128 * o.maxPublishers.toNat + 64 * o.maxSubscribers.toNat, o.messageBufferSize⟩
  hWrapAroundValue := Index.hWrapAroundValue o

def claimed (m : Memory) (o : Options) : Memory :=
  { m with header := { Header.new o with initializationState := .inInitialization } }

def constructed (messageSize : Nat) (m : Memory) (o : Options) : Memory :=
  (objects messageSize o).foldl (fun m y => m.constructAt messageSize y.1 y.2) (claimed m o)

/-- the memory a call leaves that returns a buffer -/
def initialized (messageSize : Nat) (m : Memory) (o : Options) : Memory :=
  let m := constructed messageSize m o
  { m with header := { m.header with initializationState := .initialized } }

theorem constructed_header (m : Memory) (o : Options) :
    (constructed messageSize m o).header = (claimed m o).header := by
  unfold constructed
  generalize objects messageSize o = l
  generalize claimed m o = m
  induction l generalizing m with
  | nil => rfl
  | cons y l ih => exact ih _

@[simp] theorem initialized_options (m : Memory) (o : Options) :
    (initialized messageSize m o).header.options = o := by
  show (constructed messageSize m o).header.options = o
  rw [constructed_header]
  rfl

theorem constructSpan_objects (o : Options) (m : Memory) :
    constructSpan messageSize
        (constructSpan messageSize
          (constructSpan messageSize (claimed m o) (spans o).publisherEntries .publisherEntry)
          (spans o).subscriberEntries .subscriberEntry)
        (spans o).buffer .message = constructed messageSize m o := by
  simp only [constructSpan_eq, ← List.foldl_append]
  rfl

theorem exchange_of_eq {m : Memory} {old : InitializationState} (new : InitializationState)
    (h : m.header.initializationState = old) :
    exchange m old new false = some { m with header := { m.header with initializationState := new } } :=
  if_pos ⟨h, rfl⟩

theorem exchange_spurious (m : Memory) (old new : InitializationState) : exchange m old new true = none :=
  if_neg (by simp)

theorem initAt_eq {m : Memory} {sizeBytes : Nat} {o : Options} (hacc : Accepts messageSize sizeBytes o)
    (spurious₁ spurious₂ : Bool) :
    initAt messageSize m sizeBytes o spurious₁ spurious₂ =
      if spurious₁ then ({ m with header := Header.new o }, .error 1)
      else if spurious₂ then (constructed messageSize m o, .error 1)
      else (initialized messageSize m o, .ok (spans o)) := by
  rw [initAt, if_neg hacc.1]
  dsimp only
  rw [if_neg hacc.2]
  cases spurious₁ with
  | true => rw [exchange_spurious, if_pos rfl]
  | false =>
    have hfirst : exchange { m with header := Header.new o } .uninitialized .inInitialization false =
        some (claimed m o) := exchange_of_eq _ rfl
    have hloops := @constructSpan_objects messageSize o m
    simp only [spans] at hloops
    rw [hfirst, if_neg Bool.false_ne_true]
    dsimp only
    rw [hloops]
    cases spurious₂ with
    | true => rw [exchange_spurious, if_pos rfl]
    | false =>
      have hstate : (constructed messageSize m o).header.initializationState = .inInitialization := by
        rw [constructed_header]
        rfl
      rw [exchange_of_eq .initialized hstate, if_neg Bool.false_ne_true]
      show (initialized messageSize m o, Except.ok (ε := Nat) (Buffer.mk _ _ _ _
        (Index.hWrapAroundValue (initialized messageSize m o).header.options))) = _
      rw [initialized_options]
      rfl

theorem initAt_ok {m m' : Memory} {sizeBytes : Nat} {o : Options} {spurious₁ spurious₂ : Bool} {b : Buffer}
    (h : initAt messageSize m sizeBytes o spurious₁ spurious₂ = (m', .ok b)) :
    Accepts messageSize sizeBytes o ∧ m' = initialized messageSize m o ∧ b = spans o := by
  by_cases hacc : Accepts messageSize sizeBytes o
  · refine ⟨hacc, ?_⟩
    rw [initAt_eq hacc] at h
    cases spurious₁ <;> cases spurious₂ <;> cases h
    exact ⟨rfl, rfl⟩
  · unfold initAt at h
    split at h
    · cases h
    · rename_i hsize
      dsimp only at h
      split at h
      · cases h
      · rename_i hcapacity
        exact absurd ⟨hsize, hcapacity⟩ hacc

theorem construct_run (todo : List (Nat × Object)) (m : Memory) (o : Options) (st : InitializationState)
    (writes : Nat) (as : List Init.Action) :
    Runs.run (Init.step messageSize) ⟨m, [⟨o, st, writes, .construct todo⟩]⟩
        (List.replicate todo.length (.go 0 false) ++ as) =
      Runs.run (Init.step messageSize)
        ⟨todo.foldl (fun m y => m.constructAt messageSize y.1 y.2) m,
          [⟨o, st, writes + todo.length, .construct []⟩]⟩ as := by
  induction todo generalizing m writes with
  | nil => rfl
  | cons y todo ih =>
    rw [List.length_cons, List.replicate_succ, List.cons_append, List.foldl_cons, Nat.add_comm todo.length,
      ← Nat.add_assoc]
    exact ih _ _

theorem next_constructed {m : Memory} (h : m.header.initializationState = .inInitialization) (c : Init.Call)
    (hpc : c.pc = .construct []) :
    c.next messageSize m false =
      some ({ m with header := { m.header with initializationState := .initialized } },
        { c with pc := .returned true, writes := c.writes + 1 }) := by
  unfold Init.Call.next
  rw [hpc]
  dsimp only
  rw [exchange_of_eq _ h]

/-- **A call of `Init.step` that nobody disturbs leaves what `initAt` leaves.** -/
theorem initAt_run {m : Memory} {sizeBytes : Nat} {o : Options} (hacc : Accepts messageSize sizeBytes o) :
    ∃ writes, Runs.run (Init.step messageSize) ⟨m, []⟩
        ([.start sizeBytes o, .go 0 false, .go 0 false] ++
          (List.replicate (objects messageSize o).length (.go 0 false) ++ [.go 0 false])) =
      some ⟨(initAt messageSize m sizeBytes o false false).1,
        [⟨o, m.header.initializationState, writes, .returned true⟩]⟩ := by
  refine ⟨(objects messageSize o).length + 3, ?_⟩
  have hstart : Runs.run (Init.step messageSize) ⟨m, []⟩ [.start sizeBytes o, .go 0 false, .go 0 false] =
      some ⟨claimed m o, [⟨o, m.header.initializationState, 2, .construct (objects messageSize o)⟩]⟩ := by
    simp only [Runs.run, Init.step, if_pos hacc, Option.bind_some]
    rfl
  have hstate : (constructed messageSize m o).header.initializationState = .inInitialization := by
    rw [constructed_header]
    rfl
  rw [Runs.run_append, hstart, initAt_eq hacc, Option.bind_some, construct_run]
  have hnext := @next_constructed messageSize _ hstate
    ⟨o, m.header.initializationState, 2 + (objects messageSize o).length, .construct []⟩ rfl
  show Option.bind (Option.map _ (Init.Call.next messageSize (constructed messageSize m o) _ false)) _ = _
  rw [hnext, Nat.add_comm 2]
  rfl

theorem readAt_initialized (m : Memory) (o : Options) :
    readAt (initialized messageSize m o) = .ok (spans o) := by
  unfold readAt
  rw [initialized_options]
  exact if_pos rfl

/-! ## the size of a pool -/

/-- what `ceil_to_power_of_two` is asked for: the product and the sum are computed in `uint_half_t` -/
def requested (o : Options) : Nat :=
  (o.maxSubscribers.toNat * o.maxConcurrentAcquires.toNat + 2) % 2^32

theorem requested_lt (o : Options) : requested o < 2^32 := Nat.mod_lt _ (by decide)

theorem pool_lt (o : Options) : o.perPublisherPoolSize < 2^32 := by
  rcases Index.pool_cases o with h | ⟨k, hk, h⟩
  · rw [h]
    decide
  · rw [h]
    exact Nat.pow_lt_pow_right Nat.one_lt_two hk

theorem pool_eq {o : Options} (h0 : 0 < requested o) (h : requested o ≤ 2^31) :
    o.perPublisherPoolSize = 2^Nat.clog 2 (requested o) := by
  refine Numeric.ceilToPowerOfTwo_eq h0 (requested_lt o) fun hshift => ?_
  exact Nat.not_lt.mpr h ((Numeric.shiftsByWidth_iff (requested_lt o)).mp hshift)

theorem pool_zero {o : Options} (h : requested o = 0) : o.perPublisherPoolSize = 0 := by
  show Numeric.ceilToPowerOfTwo 32 (requested o) = 0
  rw [h]
  rfl

/-- the pool of a publisher has the room it needs: the subscribers hold at most
`max_subscribers * max_concurrent_acquires` messages, the last one that was published stays, and one more
slot is written to -/
structure PoolSized (o : Options) : Prop where
  defined : ¬ Numeric.ShiftsByWidth 32 (requested o)
  power : ∃ k, o.perPublisherPoolSize = 2^k
  room : o.maxSubscribers.toNat * o.maxConcurrentAcquires.toNat + 2 ≤ o.perPublisherPoolSize

/-- **The pool of a publisher is a power of two with the room it needs exactly if that room is at most
the largest power of two of `uint_half_t`**, for all options. -/
theorem poolSized_iff (o : Options) :
    PoolSized o ↔ o.maxSubscribers.toNat * o.maxConcurrentAcquires.toNat + 2 ≤ 2^31 := by
  constructor
  · intro h
    obtain ⟨k, hk⟩ := h.power
    have hlt : k < 32 := by
      have := pool_lt o
      rw [hk] at this
      exact (Nat.pow_lt_pow_iff_right Nat.one_lt_two).mp this
    calc _ ≤ o.perPublisherPoolSize := h.room
      _ = 2^k := hk
      _ ≤ 2^31 := Nat.pow_le_pow_right Nat.two_pos (by omega)
  · intro h
    have hreq : requested o = o.maxSubscribers.toNat * o.maxConcurrentAcquires.toNat + 2 :=
      Nat.mod_eq_of_lt (by omega)
    have hpool := pool_eq (o := o) (by omega) (by omega)
    refine ⟨?_, ⟨_, hpool⟩, ?_⟩
    · rw [Numeric.shiftsByWidth_iff (requested_lt o)]
      omega
    · rw [hpool, ← hreq]
      exact Nat.le_pow_clog Nat.one_lt_two _

/-- two subscribers with 2^31 acquires each: the product wraps to zero, `init_at` returns a buffer, and the
pool has two slots -/
theorem product_wraps :
    (∃ m, initAt 192 Memory.zero 2000 ⟨1, 2, 2^31⟩ false false = (m, .ok (spans ⟨1, 2, 2^31⟩))) ∧
      (⟨1, 2, 2^31⟩ : Options).perPublisherPoolSize = 2 ∧ ¬ PoolSized ⟨1, 2, 2^31⟩ := by
  refine ⟨⟨_, initAt_eq (by decide +kernel) false false⟩, by decide +kernel, fun h => ?_⟩
  exact absurd h.room (by decide +kernel)

/-! ## the spans -/

def Span.bytes (s : Span) (elementSize : Nat) : Set Nat :=
  Set.Ico s.data (s.data + elementSize * s.size)

/-- the header and the three spans, as bytes of the memory -/
def Buffer.ranges (messageSize : Nat) (b : Buffer) : List (Set Nat) :=
  [(Span.mk b.commonHeader 1).bytes headerSize, b.publisherEntries.bytes 128, b.subscriberEntries.bytes 64,
    b.buffer.bytes messageSize]

/-- a buffer in the memory `m` that lies as the comment on the memory layout says, and whose slots belong
to one publisher each; no shift on the way to the pool size is one by the full width (which C++ leaves
undefined) -/
structure LaidOut (messageSize sizeBytes : Nat) (m : Memory) (b : Buffer) : Prop where
  defined : ¬ Numeric.ShiftsByWidth 32 (requested m.header.options)
  disjoint : (b.ranges messageSize).Pairwise Disjoint
  inside : ∀ r ∈ b.ranges messageSize, r ⊆ Set.Ico 0 sizeBytes
  same : readAt m = .ok b
  count : b.buffer.size = m.header.options.perPublisherPoolSize * m.header.options.maxPublishers.toNat
  index_lt : ∀ p < m.header.options.maxPublishers.toNat, ∀ x : UInt32, b.getIndex m p x.toNat < b.buffer.size
  owner : ∀ p < m.header.options.maxPublishers.toNat, ∀ q < m.header.options.maxPublishers.toNat,
    ∀ x y : UInt32, b.getIndex m p x.toNat = b.getIndex m q y.toNat → p = q

/-- the options have room in `uint_half_t` for the pool and for the number of slots, and in 64 bits for
the number of bytes -/
structure Fits (messageSize : Nat) (o : Options) : Prop where
  requested_le : requested o ≤ 2^31
  requested_pos : 0 < o.maxPublishers.toNat → 0 < requested o
  slots : 2^Nat.clog 2 (requested o) * o.maxPublishers.toNat < 2^32
  bytes : headerSize + 128 * o.maxPublishers.toNat + 64 * o.maxSubscribers.toNat
    + messageSize * (2^Nat.clog 2 (requested o) * o.maxPublishers.toNat) < 2^64

theorem ranges_disjoint (o : Options) : ((spans o).ranges messageSize).Pairwise Disjoint := by
  simp only [Buffer.ranges, Span.bytes, spans, List.pairwise_cons, List.mem_cons, List.not_mem_nil, or_false,
    forall_eq_or_imp, forall_eq, Set.Ico_disjoint_Ico, false_implies, implies_true, List.Pairwise.nil, and_true]
  omega

theorem getIndex_eq (m : Memory) (o : Options) (p x : Nat) :
    (spans o).getIndex (initialized messageSize m o) p x = Index.getIndex o p x := by
  rw [Buffer.getIndex, initialized_options]
  rfl

/-- in a pool of `2^k` slots the local id is masked to its last `k` bits -/
theorem getIndex_of_fits {o : Options} {k p x : Nat} (hk : k < 32) (hpool : o.perPublisherPoolSize = 2^k)
    (hslots : 2^k * o.maxPublishers.toNat < 2^32) (hp : p < o.maxPublishers.toNat) :
    Index.getIndex o p x = 2^k * p + x % 2^k ∧ 2^k * p + x % 2^k < 2^k * o.maxPublishers.toNat := by
  have hpow := Nat.two_pow_pos k
  have hx := Nat.mod_lt x hpow
  have hlt : 2^k * p + x % 2^k < 2^k * o.maxPublishers.toNat := by
    calc 2^k * p + x % 2^k < 2^k * p + 2^k := by omega
      _ = 2^k * (p + 1) := (Nat.mul_succ _ _).symm
      _ ≤ 2^k * o.maxPublishers.toNat := Nat.mul_le_mul_left _ hp
  refine ⟨?_, hlt⟩
  have hwrap : Index.hWrapAroundValue o = 2^k - 1 := by
    have hle : 2^k < 2^32 := Nat.pow_lt_pow_right Nat.one_lt_two hk
    rw [Index.hWrapAroundValue, hpool, show 2^k + (2^32 - 1) = (2^k - 1) + 2^32 by omega, Nat.add_mod_right,
      Nat.mod_eq_of_lt (by omega)]
  rw [Index.getIndex, hpool, hwrap, Nat.and_two_pow_sub_one_eq_mod, Nat.mul_comm p,
    Nat.mod_eq_of_lt (lt_trans hlt hslots)]

theorem Fits.pool_mul {o : Options} (h : Fits messageSize o) :
    o.perPublisherPoolSize * o.maxPublishers.toNat = 2^Nat.clog 2 (requested o) * o.maxPublishers.toNat := by
  rcases Nat.eq_zero_or_pos o.maxPublishers.toNat with h0 | hpos
  · rw [h0, Nat.mul_zero, Nat.mul_zero]
  · rw [pool_eq (h.requested_pos hpos) h.requested_le]

theorem Fits.laidOut {sizeBytes : Nat} {m : Memory} {o : Options} (h : Fits messageSize o)
    (hacc : Accepts messageSize sizeBytes o) :
    LaidOut messageSize sizeBytes (initialized messageSize m o) (spans o) := by
  have hmul := h.pool_mul
  have hslots := h.slots
  have hbytes := h.bytes
  have hcount : o.messageBufferSize = o.perPublisherPoolSize * o.maxPublishers.toNat := by
    rw [Options.messageBufferSize, hmul, Nat.mod_eq_of_lt hslots]
  have hrequired : headerSize + 128 * o.maxPublishers.toNat + 64 * o.maxSubscribers.toNat
      + messageSize * o.messageBufferSize ≤ sizeBytes := by
    have hle := Nat.not_lt.mp hacc.1
    rw [requiredSizeBytes, Nat.mul_assoc, hmul] at hle
    rw [hcount, hmul]
    exact (Nat.mod_eq_of_lt hbytes).symm.trans_le hle
  have hindex : ∀ p < o.maxPublishers.toNat, ∀ x, ∃ k, Index.getIndex o p x = 2^k * p + x % 2^k ∧
      2^k * p + x % 2^k < o.messageBufferSize ∧ k = Nat.clog 2 (requested o) := by
    intro p hp x
    have hk : Nat.clog 2 (requested o) < 32 :=
      Nat.lt_succ_of_le (Nat.clog_le_of_le_pow h.requested_le)
    have hpool := pool_eq (h.requested_pos (by omega)) h.requested_le
    obtain ⟨hx, hlt⟩ := getIndex_of_fits (x := x) hk hpool hslots hp
    exact ⟨_, hx, by rwa [hcount, hpool], rfl⟩
  refine ⟨?_, ranges_disjoint o, ?_, readAt_initialized m o, ?_, ?_, ?_⟩
  · rw [initialized_options, Numeric.shiftsByWidth_iff (requested_lt o)]
    exact Nat.not_lt.mpr h.requested_le
  · intro r hr
    simp only [Buffer.ranges, Span.bytes, spans, List.mem_cons, List.not_mem_nil, or_false] at hr
    rcases hr with rfl | rfl | rfl | rfl <;> refine Set.Ico_subset_Ico (Nat.zero_le _) ?_ <;> omega
  · rw [initialized_options]
    exact hcount
  · intro p hp x
    rw [initialized_options] at hp
    rw [getIndex_eq]
    obtain ⟨k, hx, hlt, -⟩ := hindex p hp x.toNat
    exact hx ▸ hlt
  · intro p hp q hq x y hxy
    rw [initialized_options] at hp hq
    rw [getIndex_eq, getIndex_eq] at hxy
    obtain ⟨k, hx, -, rfl⟩ := hindex p hp x.toNat
    obtain ⟨k, hy, -, rfl⟩ := hindex q hq y.toNat
    rw [hx, hy] at hxy
    -- the quotients by the pool size are the publishers
    have hpos := Nat.two_pow_pos (Nat.clog 2 (requested o))
    have hdiv := congrArg (· / 2^Nat.clog 2 (requested o)) hxy
    rwa [Nat.mul_add_div hpos, Nat.mul_add_div hpos, Nat.div_eq_of_lt (Nat.mod_lt _ hpos),
      Nat.div_eq_of_lt (Nat.mod_lt _ hpos)] at hdiv

theorem LaidOut.fits {sizeBytes : Nat} {m : Memory} {o : Options} (hsize : sizeBytes < 2^64)
    (h : LaidOut messageSize sizeBytes (initialized messageSize m o) (spans o)) : Fits messageSize o := by
  have hle : requested o ≤ 2^31 := by
    have hdef := h.defined
    rw [initialized_options, Numeric.shiftsByWidth_iff (requested_lt o)] at hdef
    exact Nat.not_lt.mp hdef
  have hcount : o.messageBufferSize = o.perPublisherPoolSize * o.maxPublishers.toNat := by
    have hc := h.count
    rwa [initialized_options] at hc
  have hpos : 0 < o.maxPublishers.toNat → 0 < requested o := by
    intro hn
    by_contra h0
    have hlt := h.index_lt 0 (by rwa [initialized_options]) 0
    have hempty : (spans o).buffer.size = 0 := by
      show o.messageBufferSize = 0
      rw [hcount, pool_zero (Nat.eq_zero_of_not_pos h0), Nat.zero_mul]
    rw [hempty] at hlt
    exact absurd hlt (Nat.not_lt_zero _)
  have hmul : o.messageBufferSize = 2^Nat.clog 2 (requested o) * o.maxPublishers.toNat := by
    rw [hcount]
    rcases Nat.eq_zero_or_pos o.maxPublishers.toNat with h0 | hn
    · rw [h0, Nat.mul_zero, Nat.mul_zero]
    · rw [pool_eq (hpos hn) hle]
  refine ⟨hle, hpos, ?_, ?_⟩
  · rw [← hmul]
    exact Nat.mod_lt _ (by decide)
  · rw [← hmul]
    have hpublishers := o.maxPublishers.toNat_lt
    have hsubscribers := o.maxSubscribers.toNat_lt
    rcases Nat.eq_zero_or_pos (messageSize * o.messageBufferSize) with h0 | hbytes
    · rw [h0, headerSize]
      omega
    · -- the last byte of the buffer is inside the memory
      have hlast := h.inside ((spans o).buffer.bytes messageSize) (by simp [Buffer.ranges])
        (a := (spans o).buffer.data + messageSize * o.messageBufferSize - 1)
      have hin := (hlast ⟨by show _ ≤ _; simp only [spans]; omega, by show _ < _; simp only [spans]; omega⟩).2
      simp only [spans] at hin
      omega

/-- **A buffer that `init_at` returns is laid out in its memory as it should be, and no slot belongs to
two publishers, exactly if the options fit**, for all options and sizes. -/
theorem layout_iff {m m' : Memory} {sizeBytes : Nat} {o : Options} {spurious₁ spurious₂ : Bool}
    {b : Buffer} (hsize : sizeBytes < 2^64)
    (h : initAt messageSize m sizeBytes o spurious₁ spurious₂ = (m', .ok b)) :
    LaidOut messageSize sizeBytes m' b ↔ Fits messageSize o := by
  obtain ⟨hacc, rfl, rfl⟩ := initAt_ok h
  exact ⟨fun hlaid => hlaid.fits hsize, fun hfits => hfits.laidOut hacc⟩

/-- the default options in 2000 bytes -/
theorem layout_default :
    LaidOut 192 2000 (initialized 192 Memory.zero {}) (spans {}) := by
  refine (layout_iff (m := Memory.zero) (o := {}) (by decide)
    (initAt_eq (by decide +kernel) false false)).mpr ?_
  exact ⟨by decide, fun _ => by decide, by decide +kernel, by decide +kernel⟩

/-- 2^30 publishers with pools of four slots: the number of slots wraps to zero and passes the check -/
theorem slots_wrap :
    ∃ m, initAt 192 Memory.zero (2^40) ⟨2^30, 1, 1⟩ false false = (m, .ok (spans ⟨2^30, 1, 1⟩)) ∧
      (spans ⟨2^30, 1, 1⟩).buffer.size = 0 ∧ ¬ LaidOut 192 (2^40) m (spans ⟨2^30, 1, 1⟩) := by
  refine ⟨_, initAt_eq (by decide +kernel) false false, by decide +kernel, fun h => ?_⟩
  have hcount := h.count
  rw [initialized_options] at hcount
  exact absurd hcount (by decide +kernel)

end

end Layout
end RealTime
end Ipcpp
