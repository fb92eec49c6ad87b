import Ipcpp.Lib.Runs
import Ipcpp.RealTime.Init
import Ipcpp.RealTime.Message

/-!
# The index a publisher announces

A topic that was initialised with the options `o` of its header, and publishers that come and go on it,
each created with options of its own.  The constructor of `RealTimePublisher` computes where the pool of
its entry starts twice:

* `_assigned_area`, the slots it writes, from the options in the header (`getIndex`);
* `_publisher_buffer_offset`, what it adds to the local index before it announces a message, from the
  options that were passed to `create`.

`publish` is run one step at a time, and between two steps anybody may change any slot of the buffer
(`Action.interfere`).  `published_index_iff`: a call announces the slot it wrote exactly if the two pool
sizes are the same, or make no difference for the entry of the publisher (`SameBase`).
-/

namespace Ipcpp
namespace RealTime
namespace Index
open Function Init

section
variable (o : Options)

/-- `_h_wrap_around_value` of the buffer, a `uint_half_t` -/
def hWrapAroundValue : Nat := (o.perPublisherPoolSize + (2^32 - 1)) % 2^32

/-- `RealTimeMessageBuffer::get_index`, computed in `uint_half_t` -/
def getIndex (publisherIdx localMessageId : Nat) : Nat :=
  (publisherIdx * o.perPublisherPoolSize + (localMessageId &&& hWrapAroundValue o)) % 2^32

end

/-- `RealTimeMessageBuffer::operator[]`: the index is converted to `uint_half_t` -/
def messageAt {α : Type} (buffer : Nat → Message α) (index : Nat) : Message α := buffer (index % 2^32)

/-- where a call of `publish` stands; a slot is named by its index in the buffer -/
inductive Pc (α : Type) where
  | idle
  | search (v : α)
  | emplace (v : α) (idx : Nat)
  | notify (idx slot : Nat) (message : Message α) (written : Nat → Message α)
  | count (slot : Nat)
  | acquire (slot : Nat)

/-- `RealTimePublisher`; `area` is the index of the first slot of `_assigned_area`, and `options` the
argument of `create` -/
structure Publisher (α : Type) where
  options : Options
  publisherBufferOffset : Nat
  area : Nat
  wrapAroundValue : Nat
  prevPublishedMessage : Option Nat
  pc : Pc α

/-- one call of `publish`, kept when it has stored `latest_published_idx`: the options and the entry of
its publisher, the slot and the message it emplaced there, the buffer right after that and the value it
stored -/
structure Call (α : Type) where
  options : Options
  entryIdx : Nat
  slot : Nat
  message : Message α
  written : Nat → Message α
  stored : Nat

structure State (α : Type) where
  buffer : Nat → Message α
  latestPublishedIdx : Nat
  nextMessageId : Nat
  nextLocalMessageId : Nat → Nat
  publishers : Nat → Option (Publisher α)
  calls : List (Call α)

inductive Action (α : Type) where
  /-- `RealTimePublisher::create` with these options, on a free entry -/
  | create (options : Options) (entryIdx : Nat)
  /-- a call of `publish` -/
  | publish (entryIdx : Nat) (v : α)
  /-- the next step of that call -/
  | go (entryIdx : Nat)
  /-- the destructor of a publisher -/
  | destroy (entryIdx : Nat)
  /-- somebody else writes to a slot -/
  | interfere (slot : Nat) (m : Message α)

section
variable {α : Type} (o : Options)

def State.init (α : Type) : State α :=
  ⟨fun _ => {}, 2^64 - 1, 2^64 - 1, fun _ => 0, fun _ => none, []⟩

/-- the constructor of `RealTimePublisher` on a topic with the options `o`; the product in
`_publisher_buffer_offset` is one of two `uint_half_t` -/
def Publisher.new (options : Options) (entryIdx : Nat) : Publisher α where
  options := options
  publisherBufferOffset := entryIdx * options.perPublisherPoolSize % 2^32
  area := getIndex o entryIdx 0
  wrapAroundValue := (o.perPublisherPoolSize + (2^64 - 1)) % 2^64 % 2^32
  prevPublishedMessage := none
  pc := .idle

/-- `Access::release` of `_prev_published_message` -/
def release (b : Nat → Message α) : Option Nat → Nat → Message α
  | none => b
  | some i => update b i (b i).release

def State.setPublisher (s : State α) (e : Nat) (p : Publisher α) : State α :=
  { s with publishers := update s.publishers e (some p) }

/-- one step of `publish` by the publisher `p` on entry `e` -/
def State.next (s : State α) (e : Nat) (p : Publisher α) : Option (State α) :=
  match p.pc with
  | .idle => none
  | .search v =>
    -- one round of the loop: the id is taken before the slot is looked at
    let idx := s.nextLocalMessageId e &&& p.wrapAroundValue
    let s := { s with
      nextLocalMessageId := update s.nextLocalMessageId e ((s.nextLocalMessageId e + 1) % 2^32) }
    some (if (s.buffer (p.area + idx)).messageId = invalidId then
        s.setPublisher e { p with pc := .emplace v idx }
      else s)
  | .emplace v idx =>
    let slot := p.area + idx
    let id := (p.publisherBufferOffset + idx) % 2^64
    let message := (s.buffer slot).emplace id v
    let b := update s.buffer slot message
    some ({ s with buffer := b }.setPublisher e { p with pc := .notify idx slot message b })
  | .notify idx slot message written =>
    let global := (p.publisherBufferOffset + idx) % 2^64
    some ({ s with
      latestPublishedIdx := global
      calls := ⟨p.options, e, slot, message, written, global⟩ :: s.calls }.setPublisher e
        { p with pc := .count slot })
  | .count slot =>
    some ({ s with nextMessageId := (s.nextMessageId + 1) % 2^64 }.setPublisher e
      { p with pc := .acquire slot })
  | .acquire slot =>
    let b := update s.buffer slot (s.buffer slot).acquireUnsafe
    some ({ s with buffer := release b p.prevPublishedMessage }.setPublisher e
      { p with prevPublishedMessage := some slot, pc := .idle })

def step (s : State α) : Action α → Option (State α)
  | .create options e =>
    if e < o.maxPublishers.toNat ∧ (s.publishers e).isNone then
      some ({ s with nextLocalMessageId := update s.nextLocalMessageId e 0 }.setPublisher e
        (Publisher.new o options e))
    else none
  | .publish e v =>
    match s.publishers e with
    | some ⟨options, off, area, wrap, prev, .idle⟩ =>
      some (s.setPublisher e ⟨options, off, area, wrap, prev, .search v⟩)
    | _ => none
  | .go e => (s.publishers e).bind fun p => s.next e p
  | .destroy e =>
    match s.publishers e with
    | some ⟨_, _, _, _, prev, .idle⟩ =>
      some { s with
        buffer := release s.buffer prev
        publishers := update s.publishers e none }
    | _ => none
  | .interfere slot m => some { s with buffer := update s.buffer slot m }

end

/-! ## the two offsets -/

/-- the pools of the two options start at the same slot of entry `e`: they have the same size, or `e`
times either size is zero in `uint_half_t` (as for `e = 0`) -/
def SameBase (o options : Options) (e : Nat) : Prop :=
  options.perPublisherPoolSize = o.perPublisherPoolSize ∨
    2^32 ∣ e * o.perPublisherPoolSize ∧ 2^32 ∣ e * options.perPublisherPoolSize

instance (o options : Options) (e : Nat) : Decidable (SameBase o options e) :=
  inferInstanceAs (Decidable (_ ∨ _ ∧ _))

theorem pool_cases (o : Options) :
    o.perPublisherPoolSize = 0 ∨ ∃ k < 32, o.perPublisherPoolSize = 2^k :=
  Numeric.ceilToPowerOfTwo_cases (Nat.mod_lt _ (by decide))

theorem dvd_of_modEq_two_pow {w e j k : Nat} (hjk : j < k) (h : e * 2^k % 2^w = e * 2^j % 2^w) :
    2^w ∣ e * 2^j := by
  obtain ⟨d, rfl⟩ := Nat.exists_eq_add_of_lt hjk
  have hle : e * 2^j ≤ e * 2^(j + d + 1) := Nat.mul_le_mul_left _ (Nat.pow_le_pow_right Nat.two_pos (by omega))
  have hdvd : 2^w ∣ e * 2^(j + d + 1) - e * 2^j :=
    (Nat.modEq_iff_dvd' hle).mp h.symm
  have hfactor : e * 2^(j + d + 1) - e * 2^j = e * 2^j * (2^(d + 1) - 1) := by
    rw [Nat.mul_sub, Nat.mul_one, Nat.mul_assoc, ← Nat.pow_add, Nat.add_assoc]
  have hodd : Nat.Coprime (2^w) (2^(d + 1) - 1) := by
    refine Nat.Coprime.pow_left _ ((Nat.coprime_two_left).mpr ?_)
    exact Nat.Even.sub_odd Nat.one_le_two_pow (Nat.even_pow.mpr ⟨even_two, by omega⟩) odd_one
  rw [hfactor] at hdvd
  exact hodd.dvd_of_dvd_mul_right hdvd

/-- **The two products agree exactly if `SameBase` does.** -/
theorem mul_pool_eq_iff (o options : Options) (e : Nat) :
    e * options.perPublisherPoolSize % 2^32 = e * o.perPublisherPoolSize % 2^32 ↔ SameBase o options e := by
  constructor
  · intro h
    have hzero : e * o.perPublisherPoolSize % 2^32 = 0 → SameBase o options e := fun h0 =>
      .inr ⟨Nat.dvd_of_mod_eq_zero h0, Nat.dvd_of_mod_eq_zero (h.trans h0)⟩
    rcases pool_cases o with hp | ⟨j, -, hp⟩
    · exact hzero (by rw [hp, Nat.mul_zero, Nat.zero_mod])
    · rcases pool_cases options with hq | ⟨k, -, hq⟩
      · exact hzero (by rw [← h, hq, Nat.mul_zero, Nat.zero_mod])
      · rw [hp, hq] at h
        rcases Nat.lt_trichotomy j k with hjk | rfl | hkj
        · exact hzero (by rw [hp]; exact Nat.mod_eq_zero_of_dvd (dvd_of_modEq_two_pow hjk h))
        · exact .inl (hq.trans hp.symm)
        · exact hzero (by rw [hp, ← h]; exact Nat.mod_eq_zero_of_dvd (dvd_of_modEq_two_pow hkj h.symm))
  · rintro (h | ⟨h1, h2⟩)
    · rw [h]
    · rw [Nat.mod_eq_zero_of_dvd h1, Nat.mod_eq_zero_of_dvd h2]

theorem getIndex_zero (o : Options) (e : Nat) : getIndex o e 0 = e * o.perPublisherPoolSize % 2^32 := by
  rw [getIndex, Nat.zero_and, Nat.add_zero]

theorem area_add_lt {α : Type} (o options : Options) (e n : Nat) :
    (Publisher.new (α := α) o options e).area + (n &&& (Publisher.new (α := α) o options e).wrapAroundValue)
      < 2^32 := by
  show getIndex o e 0 + (n &&& (o.perPublisherPoolSize + (2^64 - 1)) % 2^64 % 2^32) < 2^32
  rw [getIndex_zero]
  rcases pool_cases o with hp | ⟨k, hk, hp⟩
  · rw [hp, Nat.mul_zero, Nat.zero_mod, Nat.zero_add]
    exact lt_of_le_of_lt Nat.and_le_right (by decide)
  · have hwrap : (2^k + (2^64 - 1)) % 2^64 % 2^32 = 2^k - 1 := by
      have hpow := Nat.two_pow_pos k
      have hle : 2^k < 2^32 := Nat.pow_lt_pow_right Nat.one_lt_two hk
      rw [show 2^k + (2^64 - 1) = (2^k - 1) + 2^64 by omega, Nat.add_mod_right,
        Nat.mod_eq_of_lt (by omega), Nat.mod_eq_of_lt (by omega)]
    have hsplit : (2:Nat)^32 = 2^k * 2^(32 - k) := by rw [← Nat.pow_add, Nat.add_sub_cancel' hk.le]
    have hpos : 0 < 2^(32 - k) := Nat.two_pow_pos _
    have hn := Nat.mod_lt n (Nat.two_pow_pos k)
    rw [hp, hwrap, Nat.and_two_pow_sub_one_eq_mod, hsplit, Nat.mul_comm e, Nat.mul_mod_mul_left]
    calc 2^k * (e % 2^(32 - k)) + n % 2^k < 2^k * (e % 2^(32 - k)) + 2^k := by omega
      _ = 2^k * (e % 2^(32 - k) + 1) := (Nat.mul_succ _ _).symm
      _ ≤ 2^k * 2^(32 - k) := Nat.mul_le_mul_left _ (Nat.mod_lt e hpos)

/-! ## runs -/

section
variable {α : Type} {o : Options}

/-- what a publisher on entry `e` keeps: the values of its constructor, and where a call has come -/
structure Publisher.Ok (o : Options) (e : Nat) (p : Publisher α) : Prop where
  offset : p.publisherBufferOffset = (new (α := α) o p.options e).publisherBufferOffset
  area : p.area = (new (α := α) o p.options e).area
  wrap : p.wrapAroundValue = (new (α := α) o p.options e).wrapAroundValue
  emplace : ∀ v idx, p.pc = .emplace v idx → ∃ n, idx = n &&& p.wrapAroundValue
  notify : ∀ idx slot m b, p.pc = .notify idx slot m b →
    (∃ n, idx = n &&& p.wrapAroundValue) ∧ slot = p.area + idx ∧ b slot = m

/-- the slot of a call is in the pool of its publisher, and its index was computed from the other offset -/
structure Call.Ok (o : Options) (c : Call α) : Prop where
  index : ∃ n, let p := Publisher.new (α := α) o c.options c.entryIdx
    c.slot = p.area + (n &&& p.wrapAroundValue) ∧
      c.stored = (p.publisherBufferOffset + (n &&& p.wrapAroundValue)) % 2^64
  written : c.written c.slot = c.message

structure Inv (o : Options) (s : State α) : Prop where
  publishers : ∀ e p, s.publishers e = some p → p.Ok o e
  calls : ∀ c ∈ s.calls, c.Ok o

theorem inv_init : Inv o (State.init α) := ⟨nofun, nofun⟩

theorem Publisher.new_ok (options : Options) (e : Nat) : (new (α := α) o options e).Ok o e :=
  ⟨rfl, rfl, rfl, nofun, nofun⟩

theorem Publisher.Ok.withPc {e : Nat} {p : Publisher α} (h : p.Ok o e) (prev : Option Nat) (pc : Pc α)
    (h1 : ∀ v idx, pc ≠ .emplace v idx) (h2 : ∀ idx slot m b, pc ≠ .notify idx slot m b) :
    Ok o e { p with prevPublishedMessage := prev, pc := pc } :=
  ⟨h.offset, h.area, h.wrap, fun v idx hpc => absurd hpc (h1 v idx),
    fun idx slot m b hpc => absurd hpc (h2 idx slot m b)⟩

theorem Inv.set {s t : State α} (h : Inv o s) {e : Nat} {p : Publisher α} (hp : p.Ok o e)
    (hpub : t.publishers = update s.publishers e (some p)) (hcalls : ∀ c ∈ t.calls, c.Ok o) : Inv o t := by
  refine ⟨fun f q hq => ?_, hcalls⟩
  rw [hpub] at hq
  by_cases hf : f = e
  · subst hf
    rw [update_self] at hq
    exact Option.some.inj hq ▸ hp
  · rw [update_of_ne hf] at hq
    exact h.publishers f q hq

theorem Inv.next {s t : State α} (h : Inv o s) {e : Nat} {p : Publisher α}
    (hp : s.publishers e = some p) (ht : s.next e p = some t) : Inv o t := by
  have hok := h.publishers e p hp
  unfold State.next at ht
  split at ht
  · cases ht
  · rename_i v hpc
    obtain rfl := Option.some.inj ht
    dsimp only
    split
    · refine h.set ?_ rfl h.calls
      exact ⟨hok.offset, hok.area, hok.wrap, fun w idx hidx => by cases hidx; exact ⟨_, rfl⟩, nofun⟩
    · exact ⟨h.publishers, h.calls⟩
  · rename_i v idx hpc
    obtain rfl := Option.some.inj ht
    refine h.set ?_ rfl h.calls
    refine ⟨hok.offset, hok.area, hok.wrap, nofun, fun idx' slot m b hn => ?_⟩
    cases hn
    exact ⟨hok.emplace v idx hpc, rfl, update_self ..⟩
  · rename_i idx slot message written hpc
    obtain rfl := Option.some.inj ht
    obtain ⟨⟨n, hn⟩, hslot, hw⟩ := hok.notify idx slot message written hpc
    refine h.set (hok.withPc p.prevPublishedMessage (.count slot) nofun nofun) rfl fun c hc => ?_
    rcases List.mem_cons.mp hc with rfl | hc
    · refine ⟨⟨n, ?_, ?_⟩, hw⟩
      · dsimp only
        rw [hslot, hn, hok.area, hok.wrap]
      · dsimp only
        rw [hn, hok.offset, hok.wrap]
    · exact h.calls c hc
  · rename_i slot hpc
    obtain rfl := Option.some.inj ht
    exact h.set (hok.withPc p.prevPublishedMessage (.acquire slot) nofun nofun) rfl h.calls
  · rename_i slot hpc
    obtain rfl := Option.some.inj ht
    exact h.set (hok.withPc (some slot) .idle nofun nofun) rfl h.calls

theorem Inv.step {s t : State α} (h : Inv o s) (a : Action α) (ht : step o s a = some t) : Inv o t := by
  cases a with
  | create options e =>
    obtain ⟨-, hs⟩ := Option.ite_none_right_eq_some.mp ht
    obtain rfl := Option.some.inj hs
    exact h.set (Publisher.new_ok options e) rfl h.calls
  | publish e v =>
    simp only [Index.step] at ht
    split at ht
    · rename_i prev hp
      obtain rfl := Option.some.inj ht
      exact h.set ((h.publishers e _ hp).withPc prev (.search v) nofun nofun) rfl h.calls
    · cases ht
  | go e =>
    obtain ⟨p, hp, hnext⟩ := Option.bind_eq_some_iff.mp ht
    exact h.next hp hnext
  | destroy e =>
    simp only [Index.step] at ht
    split at ht
    · obtain rfl := Option.some.inj ht
      refine ⟨fun f q hq => ?_, h.calls⟩
      change update s.publishers e none f = some q at hq
      by_cases hf : f = e
      · rw [hf, update_self] at hq
        cases hq
      · rw [update_of_ne hf] at hq
        exact h.publishers f q hq
    · cases ht
  | interfere slot m =>
    obtain rfl := Option.some.inj ht
    exact ⟨h.publishers, h.calls⟩

theorem Call.Ok.stored_eq_iff {c : Call α} (h : c.Ok o) :
    c.stored = c.slot ↔ SameBase o c.options c.entryIdx := by
  obtain ⟨⟨n, hslot, hstored⟩, -⟩ := h
  have hidx : (n &&& (Publisher.new (α := α) o c.options c.entryIdx).wrapAroundValue) < 2^32 :=
    lt_of_le_of_lt Nat.and_le_right (Nat.mod_lt _ (by decide))
  have hoff : c.entryIdx * c.options.perPublisherPoolSize % 2^32 < 2^32 := Nat.mod_lt _ (by decide)
  rw [← mul_pool_eq_iff, hslot, hstored]
  show (c.entryIdx * c.options.perPublisherPoolSize % 2^32 + _) % 2^64 = getIndex o c.entryIdx 0 + _ ↔ _
  rw [getIndex_zero, Nat.mod_eq_of_lt (by omega), Nat.add_right_cancel_iff]

/-- **A call of `publish` announces the slot it has written, and a subscriber that indexes the buffer with
the announced value reads the message, exactly if the pools of both options start at the same slot**, for
every topic, any publishers with any options and any interleaving. -/
theorem published_index_iff (o : Options) (as : List (Action α)) (s : State α)
    (h : Runs.run (step o) (State.init α) as = some s) (c : Call α) (hc : c ∈ s.calls) :
    (c.stored = c.slot ∧ messageAt c.written c.stored = c.message) ↔ SameBase o c.options c.entryIdx := by
  have hinv : Inv o s := Runs.run_inv (fun _ a _ hs ht => hs.step a ht) as inv_init h
  have hok := hinv.calls c hc
  refine ⟨fun hprop => hok.stored_eq_iff.mp hprop.1, fun hsame => ?_⟩
  have heq := hok.stored_eq_iff.mpr hsame
  refine ⟨heq, ?_⟩
  obtain ⟨n, hslot, -⟩ := hok.index
  have hlt : c.slot < 2^32 := hslot ▸ area_add_lt o c.options c.entryIdx n
  rw [messageAt, heq, Nat.mod_eq_of_lt hlt]
  exact hok.written

/-- one call of `publish` on an entry whose pool is empty -/
def publishActions (options : Options) (e v : Nat) : List (Action Nat) :=
  [.create options e, .publish e v, .go e, .go e, .go e]

/-- two publishers, both with the options of the topic -/
theorem published_index_second_publisher :
    ∃ s, Runs.run (step ⟨2, 1, 1⟩) (State.init Nat)
        (publishActions ⟨2, 1, 1⟩ 0 5 ++ publishActions ⟨2, 1, 1⟩ 1 7) = some s ∧
      ∃ c ∈ s.calls, c.entryIdx = 1 ∧ c.stored = c.slot ∧ messageAt c.written c.stored = c.message := by
  refine ⟨_, rfl, _, List.mem_cons_self, rfl, ?_⟩
  refine (published_index_iff ⟨2, 1, 1⟩ (publishActions ⟨2, 1, 1⟩ 0 5 ++ publishActions ⟨2, 1, 1⟩ 1 7) _ rfl _
    List.mem_cons_self).mpr ?_
  exact .inl rfl

/-- the second publisher is created with options for eight acquires: it writes slot 4 and announces 16 -/
theorem second_publisher_announces_other_slot :
    ∃ s, Runs.run (step ⟨2, 1, 1⟩) (State.init Nat)
        (.create ⟨2, 1, 1⟩ 0 :: publishActions ⟨2, 1, 8⟩ 1 7) = some s ∧
      ∃ c ∈ s.calls, c.slot = 4 ∧ c.stored = 16 ∧ (messageAt c.written c.stored).optValue = none ∧
        c.message.optValue = some 7 :=
  ⟨_, rfl, _, List.mem_cons_self, by decide +kernel, by decide +kernel, by decide +kernel, by decide +kernel⟩

end

end Index
end RealTime
end Ipcpp
