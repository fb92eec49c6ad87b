import Ipcpp.Stl.PoolInvariant

/-!
# Allocation is a complete first fit

What is free is read off the live blocks alone: a byte is busy if it lies in a live block or in the node
header in front of it, and a `FreeRun` is a maximal run of bytes that are not.  The list of nodes does not
occur.

`freeRun_iff`: the free runs are exactly the free chunks, because no two neighbours in the list are free
and the chunks tile the pool.  So the test of one node at a time finds a place whenever there is one:
`first_fit` says that an allocation throws exactly if every free run is too short, and then changes
nothing; else it takes the lowest run that is long enough, and changes nothing outside of it except the
previous link of the node behind it.
-/

namespace Ipcpp
namespace Stl
open Chunks Runs PoolState

/-- a byte of a live block, or of the node header in front of one -/
def Busy (live : List Block) (x : Nat) : Prop := ∃ b ∈ live, b.off - nodeSize ≤ x ∧ x < b.off + b.size

/-- `[a, e)` is a maximal run of bytes of a pool of `size` bytes that are not busy -/
structure FreeRun (size : Nat) (live : List Block) (a e : Nat) : Prop where
  nonempty : a < e
  inside : e ≤ size - headerSize
  free : ∀ x, a ≤ x → x < e → ¬ Busy live x
  left : a = 0 ∨ Busy live (a - 1)
  right : e = size - headerSize ∨ Busy live e

/-- `p'` is `p` but for the bytes of `[a, e)`, and for the previous link of the node at `e` -/
structure OnlyRun (p p' : Pool) (a e : Nat) : Prop where
  size : p'.size = p.size
  head : p'.listHeadOffset = p.listHeadOffset
  byteBefore : ∀ x < a, p'.memory.byte x = p.memory.byte x
  nodeBefore : ∀ y, y + nodeSize ≤ a → p'.memory.record y = p.memory.record y
  byteBehind : ∀ x, e + nodeSize ≤ x → p'.memory.byte x = p.memory.byte x
  nodeBehind : ∀ y, e + nodeSize ≤ y → p'.memory.record y = p.memory.record y
  next : e ≠ p.size - headerSize → ∃ nd prev, p.memory.record e = some nd ∧
    p'.memory.record e = some { nd with prevOffset := prev }
  atEnd : e = p.size - headerSize → ∀ x, e ≤ x →
    p'.memory.byte x = p.memory.byte x ∧ p'.memory.record x = p.memory.record x

/-! ## the free runs are the free chunks -/

section
variable {p : Pool} {l : List Chunk} {live : List Block}

theorem PoolOk.busy_iff (h : PoolOk p l live) {c : Chunk} (hc : c ∈ l) {x : Nat} (h1 : c.off ≤ x)
    (h2 : x < c.stop) : Busy live x ↔ c.free = false := by
  constructor
  · rintro ⟨b, hb, hlo, hhi⟩
    obtain ⟨d, hd, hused, rfl⟩ := h.mem hb
    change d.off + nodeSize - nodeSize ≤ x at hlo
    change x < d.stop at hhi
    rcases h.chunked.tiled.eq_or_apart Chunk.off_le_stop hc hd with rfl | hcd | hdc
    · exact hused
    · omega
    · omega
  · intro hused
    refine ⟨c.block, h.live.mem_iff.mp (mem_used.mpr ⟨c, hc, hused, rfl⟩), ?_, h2⟩
    show c.off + nodeSize - nodeSize ≤ x
    omega

theorem Chunk.off_lt_stop (c : Chunk) : c.off < c.stop := by
  unfold stop nodeSize
  omega

/-- in front of a free chunk is the start of the pool, or a chunk in use -/
theorem PoolOk.left_of_free {L R : List Chunk} {c : Chunk} (h : PoolOk p (L ++ c :: R) live)
    (hc : c.free = true) : c.off = 0 ∨ Busy live (c.off - 1) := by
  have hz := chunked_iff_zipper.mp h.chunked
  rcases List.eq_nil_or_concat L with rfl | ⟨L', d, rfl⟩
  · exact .inl hz.tiledLeft.symm
  · rw [List.concat_eq_append] at h hz
    obtain ⟨m, -, hm, hstop⟩ := tiled_append.mp hz.tiledLeft
    have hstop : d.stop = c.off := hstop
    have hlt := d.off_lt_stop
    obtain ⟨-, -, hboth⟩ := List.isChain_append.mp h.coalesced
    have hd : d.free = false := by
      refine Bool.eq_false_iff.mpr fun hd => ?_
      exact hboth d (by simp) c rfl ⟨hd, hc⟩
    exact .inr ((h.busy_iff (by simp) (by omega) (by omega)).mpr hd)

theorem PoolOk.right_of_free {L R : List Chunk} {c : Chunk} (h : PoolOk p (L ++ c :: R) live)
    (hc : c.free = true) : c.stop = p.size - headerSize ∨ Busy live c.stop := by
  have hz := chunked_iff_zipper.mp h.chunked
  cases R with
  | nil => exact .inl hz.tiledRight
  | cons d R =>
    have hoff : d.off = c.stop := hz.tiledRight.1
    have hd : d.free = false := by
      refine Bool.eq_false_iff.mpr fun hd => ?_
      exact (List.isChain_cons.mp (List.isChain_append.mp h.coalesced).2.1).1 d rfl ⟨hc, hd⟩
    exact .inr ((h.busy_iff (by simp) hoff.le (hoff ▸ d.off_lt_stop)).mpr hd)

theorem PoolOk.freeRun {c : Chunk} (h : PoolOk p l live) (hc : c ∈ l) (hfree : c.free = true) :
    FreeRun p.size live c.off c.stop := by
  obtain ⟨L, R, rfl⟩ := List.append_of_mem hc
  refine ⟨c.off_lt_stop, (h.chunked.tiled.bounds Chunk.off_le_stop hc).2, fun x h1 h2 hbusy => ?_,
    h.left_of_free hfree, h.right_of_free hfree⟩
  rw [h.busy_iff hc h1 h2, hfree] at hbusy
  cases hbusy

/-- **The free runs are the free chunks.** -/
theorem PoolOk.freeRun_iff (h : PoolOk p l live) (a e : Nat) :
    FreeRun p.size live a e ↔ ∃ c ∈ l, c.free = true ∧ c.off = a ∧ c.stop = e := by
  constructor
  · intro hr
    have hne := hr.nonempty
    have hin := hr.inside
    obtain ⟨L, c, R, rfl, h1, h2⟩ := h.chunked.tiled.exists_mem (Nat.zero_le a) (by omega)
    have hc : c ∈ L ++ c :: R := by simp
    have hfree : c.free = true := by
      by_contra hused
      exact hr.free a le_rfl hne ((h.busy_iff hc h1 h2).mpr (Bool.eq_false_iff.mpr hused))
    have hrun := h.freeRun hc hfree
    refine ⟨c, hc, hfree, ?_, ?_⟩
    · -- else the byte in front of the run would be one of the chunk
      rcases hr.left with h0 | hbusy
      · omega
      · by_contra hoff
        exact hrun.free (a - 1) (by omega) (by omega) hbusy
    · rcases Nat.lt_trichotomy c.stop e with hlt | heq | hgt
      · rcases hrun.right with hend | hbusy
        · omega
        · exact absurd hbusy (hr.free c.stop h2.le hlt)
      · exact heq
      · have hstop := hrun.inside
        rcases hr.right with hend | hbusy
        · omega
        · exact absurd hbusy (hrun.free e (by omega) hgt)
  · rintro ⟨c, hc, hfree, rfl, rfl⟩
    exact h.freeRun hc hfree

end

/-! ## what an allocation writes -/

section
variable {p : Pool} {L R : List Chunk} {c : Chunk} {bytes : Nat}

theorem Zipper.next_off (h : Zipper p L c R) {d : Chunk} (hd : d ∈ R.head?) : d.off = c.stop := by
  cases R with
  | nil => cases hd
  | cons e R => exact Option.some.inj hd ▸ h.tiledRight.1

theorem Zipper.next (h : Zipper p L c R) (hne : c.stop ≠ p.size - headerSize) :
    ∃ d R', R = d :: R' ∧ d.off = c.stop ∧
      p.memory.record c.stop = some ⟨d.size, first Chunk.addr invalidOffset R', c.off, d.free⟩ := by
  cases R with
  | nil => exact absurd h.tiledRight hne
  | cons d R' =>
    have hoff : d.off = c.stop := h.tiledRight.1
    exact ⟨d, R', rfl, hoff, hoff ▸ h.right.1⟩

theorem takeNode_onlyRun (h : Zipper p L c R) (hb : bytes ≤ c.size) :
    ∃ p', (takeNode c.off bytes).run p = .ok (c.takenSize bytes) p' ∧ OnlyRun p p' c.off c.stop := by
  have hlt := c.off_lt_stop
  have hnode : c.off + nodeSize ≤ c.stop := Nat.le_add_right _ _
  by_cases hsplit : c.size - bytes > nodeSize
  · have hnew : c.off + nodeSize + bytes + nodeSize ≤ c.stop := by
      unfold Chunk.stop
      omega
    have hframe := splitPool_frame p L c R bytes
    have hbyte : ∀ x, (x < c.off ∨ c.stop ≤ x) → (∀ d ∈ R.head?, x < d.off ∨ d.off + nodeSize ≤ x) →
        (splitPool p L c R bytes).memory.byte x = p.memory.byte x := by
      intro x h1 h2
      refine hframe.byte x fun a ha => ?_
      simp only [List.mem_append, List.mem_singleton, Option.mem_toList, Option.map_eq_some_iff] at ha
      rcases ha with rfl | ⟨d, hd, rfl⟩ | rfl | rfl | rfl
      · omega
      · exact h2 d hd
      · omega
      · omega
      · omega
    have hrec : ∀ y, (y + nodeSize ≤ c.off ∨ c.stop ≤ y) →
        (∀ d ∈ R.head?, y + nodeSize ≤ d.off ∨ d.off + nodeSize ≤ y) →
        (splitPool p L c R bytes).memory.record y = p.memory.record y := fun y h1 h2 =>
      splitPool_record (by omega) (by omega) h2
    rw [Chunk.takenSize, if_pos hsplit]
    refine ⟨_, takeNode_split h hsplit, hframe.size, hframe.head, ?_, ?_, ?_, ?_, ?_, ?_⟩
    · exact fun x hx => hbyte x (.inl hx) fun d hd => .inl (by have := h.next_off hd; omega)
    · exact fun y hy => hrec y (.inl hy) fun d hd => .inl (by have := h.next_off hd; omega)
    · exact fun x hx => hbyte x (.inr (by omega)) fun d hd => .inr (by have := h.next_off hd; omega)
    · exact fun y hy => hrec y (.inr (by omega)) fun d hd => .inr (by have := h.next_off hd; omega)
    · intro hne
      obtain ⟨d, R', rfl, hoff, hrecord⟩ := h.next hne
      refine ⟨_, ((c.off + nodeSize + bytes : Nat) : Int), hrecord, ?_⟩
      rw [splitPool, putNode_record _ (.inr (by omega)), ← hoff]
      exact putNode_record_self _ _ _
    · intro hend x hx
      have hnone : R.head? = none := by
        cases R with
        | nil => rfl
        | cons d R =>
          have hd := h.right_le (List.mem_cons_self (a := d) (l := R))
          have hoff := h.next_off (d := d) rfl
          unfold nodeSize at hd
          omega
      rw [hnone] at hbyte hrec
      exact ⟨hbyte x (.inr hx) fun d hd => absurd hd (Option.not_mem_none d),
        hrec x (.inr hx) fun d hd => absurd hd (Option.not_mem_none d)⟩
  · rw [Chunk.takenSize, if_neg hsplit]
    refine ⟨_, takeNode_whole h hsplit, rfl, rfl, ?_, ?_, ?_, ?_, ?_, ?_⟩
    · exact fun x hx => Memory.putRec_byte _ _ _ (.inl hx)
    · exact fun y hy => putNode_record _ (.inl hy)
    · exact fun x hx => Memory.putRec_byte _ _ _ (.inr (by omega))
    · exact fun y hy => putNode_record _ (.inr (by omega))
    · intro hne
      obtain ⟨d, R', rfl, hoff, hrecord⟩ := h.next hne
      refine ⟨_, (c.off : Int), hrecord, ?_⟩
      rw [putNode_record _ (.inr (by omega))]
      exact hrecord
    · exact fun _ x hx => ⟨Memory.putRec_byte _ _ _ (.inr (by omega)), putNode_record _ (.inr (by omega))⟩

end

/-! ## the search only reads -/

theorem ofOption_ok {α : Type} {x : Option α} {a : α} {p p' : Pool}
    (h : (Prog.ofOption (ε := Error) x).run p = .ok a p') : p' = p := by
  cases x with
  | none => cases h
  | some b => cases h; rfl

theorem readNode_ok {a : Nat} {nd : AllocatorListNode} {p p' : Pool} (h : (readNode a).run p = .ok nd p') :
    p' = p := ofOption_ok (x := p.memory.record a) h

theorem deref_ok {off : Int} {a : Nat} {p p' : Pool} (h : (deref off).run p = .ok a p') : p' = p :=
  ofOption_ok (x := p.offsetToPointer off) h

/-- what the loop writes, it writes when it has found a node -/
theorem allocateLoop_ok {bytes a b n : Nat} {p p' : Pool} (fuel : Nat)
    (h : (allocateLoop bytes fuel a).run p = .ok (b, n) p') : (takeNode b bytes).run p = .ok n p' := by
  induction fuel generalizing a with
  | zero => cases h
  | succ fuel ih =>
    obtain ⟨nd, t, hread, hbody⟩ := Prog.of_bind_ok h
    obtain rfl := readNode_ok hread
    split at hbody
    · obtain ⟨size, u, htake, hpure⟩ := Prog.of_bind_ok hbody
      cases hpure
      exact htake
    · split at hbody
      · cases hbody
      · obtain ⟨next, u, hderef, hnext⟩ := Prog.of_bind_ok hbody
        obtain rfl := deref_ok hderef
        exact ih hnext

theorem allocateNode_ok {bytes b n : Nat} {p p' : Pool} (h : (allocateNode bytes).run p = .ok (b, n) p') :
    (takeNode b bytes).run p = .ok n p' := by
  obtain ⟨node, t, hderef, h⟩ := Prog.of_bind_ok (p := deref p.listHeadOffset) h
  obtain rfl := deref_ok hderef
  exact allocateLoop_ok _ h

/-! ## the theorem -/

/-- the outcome of a request for `b` bytes: `bad_alloc` and the pool as it was, exactly if every free run
is shorter than a node header and `b` bytes; else a block of at least `b` bytes at the start of the lowest
run that is not, and only this run is changed -/
structure CompleteFirstFit (p : Pool) (live : List Block) (b : Nat) (o : Prog.Outcome Error Pool (Int × Nat)) :
    Prop where
  throws_iff : o = .throw .badAlloc p ↔ ∀ a e, FreeRun p.size live a e → e - a < nodeSize + b
  lowest : (∃ a e, FreeRun p.size live a e ∧ nodeSize + b ≤ e - a) →
    ∃ (a e n : Nat) (p' : Pool), o = .ok ((a : Int) + nodeSize, n) p' ∧
      FreeRun p.size live a e ∧ nodeSize + b ≤ e - a ∧
      (∀ a' e', FreeRun p.size live a' e' → nodeSize + b ≤ e' - a' → a ≤ a') ∧
      b ≤ n ∧ a + nodeSize + n ≤ e ∧ OnlyRun p p' a e

/-- `[a, e)` is the lowest free run with room for a block of `b` bytes -/
structure LowestRun (size : Nat) (live : List Block) (b a e : Nat) : Prop where
  run : FreeRun size live a e
  room : nodeSize + b ≤ e - a
  lowest : ∀ a' e', FreeRun size live a' e' → nodeSize + b ≤ e' - a' → a ≤ a'

/-- the size of the block that is taken from a free run of `n` bytes: the rest is split off if it is more than
a node header -/
def takenBytes (n b : Nat) : Nat := if n - nodeSize - b > nodeSize then b else n - nodeSize

theorem Chunk.takenSize_eq (c : Chunk) (b : Nat) : c.takenSize b = takenBytes (c.stop - c.off) b := by
  have hlen : c.stop - c.off - nodeSize = c.size := by
    unfold stop
    omega
  unfold takenSize takenBytes
  rw [hlen]

section
variable {p : Pool} {l : List Chunk} {live : List Block} {b : Nat}

theorem FreeRun.end_le {size a e e' : Nat} (h : FreeRun size live a e) (h' : FreeRun size live a e') : e' ≤ e := by
  have hin := h'.inside
  rcases h.right with hend | hbusy
  · omega
  · exact Nat.not_lt.mp fun hlt => h'.free e h.nonempty.le hlt hbusy

theorem LowestRun.unique {size a e a' e' : Nat} (h : LowestRun size live b a e)
    (h' : LowestRun size live b a' e') : a = a' ∧ e = e' := by
  obtain rfl := le_antisymm (h.lowest a' e' h'.run h'.room) (h'.lowest a e h.run h.room)
  exact ⟨rfl, le_antisymm (h'.run.end_le h.run) (h.run.end_le h'.run)⟩

theorem PoolOk.long_run_iff (h : PoolOk p l live) (a e : Nat) :
    (FreeRun p.size live a e ∧ nodeSize + b ≤ e - a) ↔ ∃ c ∈ l, c.Fits b ∧ c.off = a ∧ c.stop = e := by
  rw [h.freeRun_iff]
  constructor
  · rintro ⟨⟨c, hc, hfree, rfl, rfl⟩, hle⟩
    refine ⟨c, hc, ⟨hfree, ?_⟩, rfl, rfl⟩
    unfold Chunk.stop at hle
    omega
  · rintro ⟨c, hc, ⟨hfree, hle⟩, rfl, rfl⟩
    refine ⟨⟨c, hc, hfree, rfl, rfl⟩, ?_⟩
    unfold Chunk.stop
    omega

theorem PoolOk.lowestRun {L R : List Chunk} {c : Chunk} (h : PoolOk p l live) (hfit : Stl.FirstFit l b L c R) :
    LowestRun p.size live b c.off c.stop := by
  obtain ⟨rfl, hfits, hfirst⟩ := hfit
  obtain ⟨hrun, hroom⟩ := h.long_run_iff c.off c.stop |>.mpr ⟨c, by simp, hfits, rfl, rfl⟩
  refine ⟨hrun, hroom, fun a' e' hrun' hle' => ?_⟩
  obtain ⟨d, hd, hdfits, rfl, -⟩ := (h.long_run_iff a' e').mp ⟨hrun', hle'⟩
  rcases List.mem_append.mp hd with hd | hd
  · exact absurd hdfits (hfirst d hd)
  · rcases List.mem_cons.mp hd with rfl | hd
    · exact le_rfl
    · have := (chunked_iff_zipper.mp h.chunked).right_start hd
      omega

/-- the block that is handed out is at the start of the lowest run with room for it -/
theorem PoolOk.allocate_lowest (h : PoolOk p l live) (h16 : 16 ∣ b) :
    (∃ a e p', LowestRun p.size live b a e ∧
      (allocateFromList b).run p = .ok ((a : Int) + nodeSize, takenBytes (e - a) b) p') ∨
    ((allocateFromList b).run p = .throw .badAlloc p ∧ ∀ a e, ¬ LowestRun p.size live b a e) := by
  rcases allocateNode_run h.chunked h.room h16 with ⟨L, c, R, p', hs, hrun, hall⟩ | ⟨hrun, hno⟩
  · refine .inl ⟨c.off, c.stop, p', h.lowestRun hall.fit, ?_⟩
    rw [← c.takenSize_eq]
    exact allocateFromList_ok hrun (h.allocates hall)
  · refine .inr ⟨Prog.bind_throw hrun, fun a e hlow => ?_⟩
    obtain ⟨c, hc, hfits, -⟩ := (h.long_run_iff a e).mp ⟨hlow.run, hlow.room⟩
    exact hno c hc hfits

/-- what the lowest free run gives, if there is one with room, is what is handed out -/
theorem PoolOk.forall_lowest_iff (h : PoolOk p l live) (h16 : 16 ∣ b) (P : Nat → Prop) :
    (∀ a e, LowestRun p.size live b a e → P (takenBytes (e - a) b)) ↔
      ∀ off n q, (allocateFromList b).run p = .ok (off, n) q → P n := by
  rcases h.allocate_lowest h16 with ⟨a, e, p', hlow, hgot⟩ | ⟨hno, hnone⟩
  · constructor
    · intro hall off n q hrun
      obtain ⟨hpair, -⟩ := Prog.Outcome.ok.inj (hgot.symm.trans hrun)
      obtain rfl := (Prod.mk.inj hpair).2
      exact hall a e hlow
    · intro hall a' e' hlow'
      obtain ⟨rfl, rfl⟩ := hlow.unique hlow'
      exact hall _ _ _ hgot
  · refine iff_of_true (fun a e hlow => absurd hlow (hnone a e)) fun off n q hrun => ?_
    rw [hno] at hrun
    cases hrun

theorem PoolOk.completeFirstFit (h : PoolOk p l live) (h16 : 16 ∣ b) :
    CompleteFirstFit p live b ((allocateFromList b).run p) := by
  rcases allocateNode_run h.chunked h.room h16 with ⟨L, c, R, p', hs, hrun, hall⟩ | ⟨hrun, hno⟩
  · have hlow := h.lowestRun hall.fit
    have hok := allocateFromList_ok hrun (h.allocates hall)
    have hfits := hall.fit.fits
    refine ⟨⟨fun hthrow => ?_, fun hshort => ?_⟩, fun _ => ?_⟩
    · rw [hok] at hthrow
      cases hthrow
    · exact absurd hlow.room (Nat.not_le.mpr (hshort _ _ hlow.run))
    · obtain ⟨q, htake, honly⟩ := takeNode_onlyRun (chunked_iff_zipper.mp (hall.fit.eq ▸ h.chunked)) hfits.2
      have hq := htake.symm.trans (allocateNode_ok hrun)
      cases hq
      refine ⟨c.off, c.stop, c.takenSize b, p', hok, hlow.run, hlow.room, hlow.lowest,
        Chunk.le_takenSize hfits.2, ?_, honly⟩
      have := hfits.2
      unfold Chunk.takenSize Chunk.stop
      split <;> omega
  · have hthrow : (allocateFromList b).run p = .throw .badAlloc p := Prog.bind_throw hrun
    refine ⟨iff_of_true hthrow fun a e hr => ?_, fun ⟨a, e, hr⟩ => ?_⟩
    · by_contra hge
      obtain ⟨c, hc, hfits, -⟩ := (h.long_run_iff a e).mp ⟨hr, Nat.not_lt.mp hge⟩
      exact hno c hc hfits
    · obtain ⟨c, hc, hfits, -⟩ := (h.long_run_iff a e).mp hr
      exact absurd hfits (hno c hc)

end

/-- **Allocation is a complete first fit and fails cleanly**, in every state that calls can lead to and
for every rounded byte count. -/
theorem first_fit {size : Nat} (hroom : headerSize + nodeSize ≤ size) {as : List Call} {s : PoolState}
    (hr : run PoolState.step (init size) as = some s) (b : Nat) (h16 : 16 ∣ b) :
    CompleteFirstFit s.pool s.live b ((allocateFromList b).run s.pool) := by
  obtain ⟨l, hl⟩ := (run_inv_pool hroom hr).ok
  exact hl.completeFirstFit h16

/-- after `exampleCalls` a block of 112 bytes still has room in a pool of 1024 bytes -/
theorem first_fit_example :
    ∃ s, run PoolState.step (init 1024) exampleCalls = some s ∧
      CompleteFirstFit s.pool s.live 112 ((allocateFromList 112).run s.pool) := by
  have hsome : (run PoolState.step (init 1024) exampleCalls).isSome = true := by decide +kernel
  obtain ⟨s, hs⟩ := Option.isSome_iff_exists.mp hsome
  exact ⟨s, hs, first_fit (by decide) hs 112 (by decide)⟩

end Stl
end Ipcpp
