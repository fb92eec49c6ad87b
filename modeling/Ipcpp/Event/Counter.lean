import Ipcpp.Lib.Answers

/-!
# Event counters

`ShmAtomicNotifier` and `ShmAtomicObserver` share one word of 64 bits.  A notification adds to the word, and
`receive` loads it again and again until it has not the value that it had last time.

The memory of a topic is the list of the values that its word has had.  An observer may load any of them that is
not older than the one it has loaded last: `load i n` is a turn of the loop of `receive` that sees `n` notifications
more.

`Mailboxes` is what the observers may count on: each has the notifications that it has not seen, in order, and a
load takes some of them out.

* `refines_mailboxes`   the observers of a topic share nothing: whatever is called, the words answer as the
                        mailboxes, so notifications go unnoticed only if they are loaded together and add up to
                        zero;
* `alternates`          two threads that notify each other and wait for each other, as in the benchmark, take
                        turns: no notification is missed or seen twice, and nobody waits for good.
-/

namespace Ipcpp
namespace ShmAtomic
open Runs

/-- `std::uint64_t` -/
abbrev Value := BitVec 64

structure Observer where
  topic : String
  /-- `_last_value` -/
  lastValue : Value
  /-- where it is in the list of the values -/
  seen : Nat

structure State where
  /-- the values that the word of a topic has had; there are none if the topic has no memory -/
  words : String → List Value
  notifiers : List String
  observers : List Observer

def init : State := ⟨fun _ => [], [], []⟩

inductive Call where
  | createNotifier (topic : String)
  | createObserver (topic : String) (n : Nat)
  | notifyObservers (j : Nat) (addVal : Value)
  /-- one turn of the loop of `receive` -/
  | load (i n : Nat)

inductive Answer where
  | created
  | notified
  | again
  | received (value : Value)
deriving DecidableEq

/-- what the call answers; `none` if it waits, or if there is no such object -/
def call (s : State) : Call → Option (State × Answer)
  | .createNotifier topic =>
    -- new memory is zero
    let word := if s.words topic = [] then [0] else s.words topic
    some (⟨Function.update s.words topic word, s.notifiers ++ [topic], s.observers⟩, .created)
  | .createObserver topic n =>
    (s.words topic)[n]?.map fun value => ({ s with observers := s.observers ++ [⟨topic, value, n⟩] }, .created)
  | .notifyObservers j addVal =>
    s.notifiers[j]?.bind fun topic => (s.words topic).getLast?.map fun value =>
      ({ s with words := Function.update s.words topic (s.words topic ++ [value + addVal]) }, .notified)
  | .load i n =>
    s.observers[i]?.bind fun o => (s.words o.topic)[o.seen + n]?.map fun value =>
      if value = o.lastValue then ({ s with observers := s.observers.set i { o with seen := o.seen + n } }, .again)
      else ({ s with observers := s.observers.set i ⟨o.topic, value, o.seen + n⟩ }, .received value)

/-! ## mailboxes -/

structure Mailbox where
  topic : String
  last : Value
  /-- the notifications that it has not seen -/
  unseen : List Value

structure Mailboxes where
  /-- the notifications of a topic, from the beginning -/
  sent : String → Option (List Value)
  notifiers : List String
  boxes : List Mailbox

namespace Mailboxes

def init : Mailboxes := ⟨fun _ => none, [], []⟩

def deliver (topic : String) (addVal : Value) (b : Mailbox) : Mailbox :=
  if b.topic = topic then { b with unseen := b.unseen ++ [addVal] } else b

def call (m : Mailboxes) : Call → Option (Mailboxes × Answer)
  | .createNotifier topic =>
    let sent := some ((m.sent topic).getD [])
    some (⟨Function.update m.sent topic sent, m.notifiers ++ [topic], m.boxes⟩, .created)
  | .createObserver topic n =>
    (m.sent topic).bind fun l =>
      if n ≤ l.length then
        some ({ m with boxes := m.boxes ++ [⟨topic, (l.take n).sum, l.drop n⟩] }, .created)
      else none
  | .notifyObservers j addVal =>
    m.notifiers[j]?.bind fun topic => (m.sent topic).map fun l =>
      (⟨Function.update m.sent topic (some (l ++ [addVal])), m.notifiers, m.boxes.map (deliver topic addVal)⟩,
        .notified)
  | .load i n =>
    m.boxes[i]?.bind fun b =>
      if n ≤ b.unseen.length then
        if (b.unseen.take n).sum = 0 then
          some ({ m with boxes := m.boxes.set i { b with unseen := b.unseen.drop n } }, .again)
        else
          let last := b.last + (b.unseen.take n).sum
          some ({ m with boxes := m.boxes.set i ⟨b.topic, last, b.unseen.drop n⟩ }, .received last)
      else none

end Mailboxes

/-! ## the values of a word -/

/-- the values of a word after the notifications `l` -/
def history (l : List Value) : List Value := l.scanl (· + ·) 0

section
variable {l : List Value}

theorem history_getElem? (l : List Value) (k : Nat) :
    (history l)[k]? = if k ≤ l.length then some (l.take k).sum else none := by
  unfold history
  rw [List.getElem?_scanl, List.sum_eq_foldl]

theorem history_ne_nil (l : List Value) : history l ≠ [] := List.scanl_ne_nil

theorem history_getLast? (l : List Value) : (history l).getLast? = some l.sum := by
  rw [List.getLast?_eq_getElem?, history_getElem?, history, List.length_scanl, Nat.add_sub_cancel, if_pos le_rfl,
    List.take_length]

theorem history_append (l : List Value) (a : Value) : history (l ++ [a]) = history l ++ [l.sum + a] := by
  unfold history
  rw [List.scanl_append, List.sum_eq_foldl]
  rfl

theorem sum_take_add (l : List Value) (k n : Nat) :
    (l.take (k + n)).sum = (l.take k).sum + ((l.drop k).take n).sum := by
  rw [List.take_add, List.sum_append]

end

/-! ## the words serve the mailboxes -/

/-- what an observer still has to see -/
def Observer.box (sent : String → Option (List Value)) (o : Observer) : Mailbox :=
  ⟨o.topic, o.lastValue, ((sent o.topic).getD []).drop o.seen⟩

structure Serves (s : State) (m : Mailboxes) : Prop where
  words : ∀ topic, s.words topic = (m.sent topic).elim [] history
  notifiers : m.notifiers = s.notifiers
  boxes : m.boxes = s.observers.map (Observer.box m.sent)
  placed : ∀ o ∈ s.observers,
    ∃ l, m.sent o.topic = some l ∧ o.seen ≤ l.length ∧ o.lastValue = (l.take o.seen).sum

section
variable {s : State} {m : Mailboxes}

theorem serves_init : Serves init Mailboxes.init := ⟨fun _ => rfl, rfl, rfl, nofun⟩

/-- the words of the topics after one of them has changed -/
theorem Serves.words_update (h : Serves s m) (topic : String) {word : List Value} {l : List Value}
    (hword : word = history l) (t : String) :
    Function.update s.words topic word t = (Function.update m.sent topic (some l) t).elim [] history := by
  by_cases ht : t = topic
  · rw [ht, Function.update_self, Function.update_self]
    exact hword
  · rw [Function.update_of_ne ht, Function.update_of_ne ht]
    exact h.words t

theorem Serves.createNotifier (h : Serves s m) (topic : String) :
    Serves ⟨Function.update s.words topic (if s.words topic = [] then [0] else s.words topic),
        s.notifiers ++ [topic], s.observers⟩
      ⟨Function.update m.sent topic (some ((m.sent topic).getD [])), m.notifiers ++ [topic], m.boxes⟩ := by
  have hgetD : ∀ t, (Function.update m.sent topic (some ((m.sent topic).getD [])) t).getD [] =
      (m.sent t).getD [] := fun t => by
    by_cases ht : t = topic
    · rw [ht, Function.update_self]
      rfl
    · rw [Function.update_of_ne ht]
  refine ⟨h.words_update topic ?_, congrArg (· ++ [topic]) h.notifiers, ?_, fun o ho => ?_⟩
  · have hword := h.words topic
    cases hsent : m.sent topic with
    | none =>
      rw [hsent] at hword
      rw [if_pos (show s.words topic = [] from hword)]
      rfl
    | some l =>
      rw [hsent] at hword
      rw [if_neg (hword.trans_ne (history_ne_nil l))]
      exact hword
  · refine h.boxes.trans (List.map_congr_left fun o _ => ?_)
    unfold Observer.box
    rw [hgetD]
  · obtain ⟨l, hl, hplace⟩ := h.placed o ho
    refine ⟨l, ?_, hplace⟩
    show Function.update m.sent topic _ o.topic = some l
    rw [Function.update_apply]
    split
    · rename_i ht
      rw [← ht, hl]
      rfl
    · exact hl

theorem Serves.createObserver (h : Serves s m) {topic : String} {l : List Value} (hl : m.sent topic = some l)
    {n : Nat} (hn : n ≤ l.length) :
    Serves { s with observers := s.observers ++ [⟨topic, (l.take n).sum, n⟩] }
      { m with boxes := m.boxes ++ [⟨topic, (l.take n).sum, l.drop n⟩] } := by
  refine ⟨h.words, h.notifiers, ?_, fun o ho => ?_⟩
  · show m.boxes ++ _ = (s.observers ++ _).map _
    rw [List.map_append, h.boxes, List.map_singleton]
    unfold Observer.box
    rw [hl]
    rfl
  · rcases List.mem_append.mp ho with ho | ho
    · exact h.placed o ho
    · rw [List.mem_singleton.mp ho]
      exact ⟨l, hl, hn, rfl⟩

theorem Serves.notifyObservers (h : Serves s m) {topic : String} {l : List Value} (hl : m.sent topic = some l)
    (addVal : Value) :
    Serves { s with words := Function.update s.words topic (s.words topic ++ [l.sum + addVal]) }
      ⟨Function.update m.sent topic (some (l ++ [addVal])), m.notifiers,
        m.boxes.map (Mailboxes.deliver topic addVal)⟩ := by
  refine ⟨h.words_update topic ?_, h.notifiers, ?_, fun o ho => ?_⟩
  · rw [h.words topic, hl, history_append]
    rfl
  · show m.boxes.map _ = s.observers.map _
    rw [h.boxes, List.map_map]
    refine List.map_congr_left fun o ho => ?_
    obtain ⟨l', hl', hseen, -⟩ := h.placed o ho
    show (if o.topic = topic then _ else o.box m.sent) =
      Mailbox.mk o.topic o.lastValue (((Function.update m.sent topic _ o.topic).getD []).drop o.seen)
    rw [Function.update_apply]
    split
    · rename_i ht
      obtain rfl : l' = l := Option.some.inj (hl'.symm.trans (ht ▸ hl))
      show Mailbox.mk o.topic o.lastValue (((m.sent o.topic).getD []).drop o.seen ++ [addVal]) =
        Mailbox.mk o.topic o.lastValue ((l' ++ [addVal]).drop o.seen)
      rw [hl', Option.getD_some, List.drop_append_of_le_length hseen]
    · rfl
  · obtain ⟨l', hl', hseen, hlast⟩ := h.placed o ho
    show ∃ l'', Function.update m.sent topic _ o.topic = some l'' ∧ _
    rw [Function.update_apply]
    split
    · rename_i ht
      obtain rfl : l' = l := Option.some.inj (hl'.symm.trans (ht ▸ hl))
      refine ⟨l' ++ [addVal], rfl, ?_, ?_⟩
      · rw [List.length_append]
        omega
      · rw [List.take_append_of_le_length hseen]
        exact hlast
    · exact ⟨l', hl', hseen, hlast⟩

/-- an observer that has seen `n` notifications more -/
theorem Serves.load (h : Serves s m) (i : Nat) {o : Observer} {l : List Value} (hl : m.sent o.topic = some l)
    {n : Nat} (hn : o.seen + n ≤ l.length) {value : Value} (hvalue : value = (l.take (o.seen + n)).sum) :
    Serves { s with observers := s.observers.set i ⟨o.topic, value, o.seen + n⟩ }
      { m with boxes := m.boxes.set i ⟨o.topic, value, (l.drop o.seen).drop n⟩ } := by
  refine ⟨h.words, h.notifiers, ?_, fun o' ho' => ?_⟩
  · show m.boxes.set i _ = (s.observers.set i _).map _
    rw [List.map_set, h.boxes]
    unfold Observer.box
    rw [hl, List.drop_drop]
    rfl
  · rcases List.mem_or_eq_of_mem_set ho' with ho' | rfl
    · exact h.placed o' ho'
    · exact ⟨l, hl, hn, hvalue⟩

theorem serves_call (h : Serves s m) (c : Call) : Option.Rel (SameAnswer Serves) (call s c) (m.call c) := by
  cases c with
  | createNotifier topic => exact .some ⟨h.createNotifier topic, rfl⟩
  | createObserver topic n =>
    have hword := h.words topic
    show Option.Rel _ ((s.words topic)[n]?.map _) ((m.sent topic).bind _)
    cases hl : m.sent topic with
    | none =>
      rw [hl] at hword
      rw [hword]
      exact .none
    | some l =>
      rw [hl] at hword
      rw [hword, Option.elim_some, history_getElem?, Option.bind_some]
      split
      · exact .some ⟨h.createObserver hl ‹_›, rfl⟩
      · exact .none
  | notifyObservers j addVal =>
    show Option.Rel _ (s.notifiers[j]?.bind _) (m.notifiers[j]?.bind _)
    rw [h.notifiers]
    cases s.notifiers[j]? with
    | none => exact .none
    | some topic =>
      have hword := h.words topic
      show Option.Rel _ ((s.words topic).getLast?.map _) ((m.sent topic).map _)
      cases hl : m.sent topic with
      | none =>
        rw [hl] at hword
        rw [hword]
        exact .none
      | some l =>
        rw [hl] at hword
        have hserves := h.notifyObservers hl addVal
        rw [hword, Option.elim_some] at hserves ⊢
        rw [history_getLast?]
        exact .some ⟨h.notifiers ▸ hserves, rfl⟩
  | load i n =>
    have hbox : m.boxes[i]? = s.observers[i]?.map (Observer.box m.sent) := by rw [h.boxes, List.getElem?_map]
    show Option.Rel _ (s.observers[i]?.bind _) (m.boxes[i]?.bind _)
    rw [hbox]
    cases ho : s.observers[i]? with
    | none => exact .none
    | some o =>
      obtain ⟨l, hl, hseen, hlast⟩ := h.placed o (List.mem_of_getElem? ho)
      have hword : s.words o.topic = history l := by rw [h.words, hl]; rfl
      have hbox : o.box m.sent = ⟨o.topic, o.lastValue, l.drop o.seen⟩ := by
        unfold Observer.box
        rw [hl]
        rfl
      have hvalue := sum_take_add l o.seen n
      rw [← hlast] at hvalue
      rw [Option.map_some, Option.bind_some, Option.bind_some, hbox]
      dsimp only
      rw [hword, history_getElem?, List.length_drop]
      by_cases hn : o.seen + n ≤ l.length
      · rw [if_pos hn, if_pos (Nat.le_sub_of_add_le' hn), Option.map_some]
        by_cases hzero : ((l.drop o.seen).take n).sum = 0
        · have hsame : (l.take (o.seen + n)).sum = o.lastValue := by rw [hvalue, hzero, add_zero]
          rw [if_pos hsame, if_pos hzero]
          exact .some ⟨h.load i hl hn hsame.symm, rfl⟩
        · have hother : (l.take (o.seen + n)).sum ≠ o.lastValue := by rwa [hvalue, ne_eq, add_eq_left]
          rw [if_neg hother, if_neg hzero]
          exact .some ⟨hvalue ▸ h.load i hl hn rfl, congrArg Answer.received hvalue⟩
      · rw [if_neg hn, if_neg fun hle => hn (by omega)]
        exact .none

/-- **Observers share nothing**: whatever is called, and whichever of the values a load sees, the words of the topics
answer as a mailbox for each observer, which has all the notifications that it has not seen. -/
theorem refines_mailboxes (cs : List Call) :
    (answers call init cs).map Prod.snd = (answers Mailboxes.call Mailboxes.init cs).map Prod.snd :=
  SameAnswer.map_snd (answers_rel (C := fun _ _ => True) (fun _ _ c h _ => serves_call h c) cs serves_init
    (obeys_of_forall (fun _ _ => trivial) _ cs))

/-- two notifications that cancel each other, and one that does not -/
example : (answers call init [.createNotifier "event", .createObserver "event" 0, .notifyObservers 0 (-1),
      .notifyObservers 0 1, .load 0 2, .notifyObservers 0 1, .load 0 0, .load 0 1]).map Prod.snd =
    some [.created, .created, .notified, .notified, .again, .notified, .again, .received 1] := by decide

end

/-! ## two threads that wait for each other -/

inductive Thread where
  | a2b
  | b2a
deriving DecidableEq

/-- `a2b()` and `b2a()` of the benchmark, and how many calls of each of them are over -/
structure Exchange where
  state : State
  a2b : Nat
  b2a : Nat

/-- the values of a word that had the value `x` and has got `k` notifications since -/
def values (x : Value) (k : Nat) : List Value := (List.range (k + 1)).map fun i => x + BitVec.ofNat 64 i

namespace Exchange

def calls (s : Exchange) : Thread → Nat
  | .a2b => s.a2b
  | .b2a => s.b2a

def pass (s : Exchange) (state : State) : Thread → Exchange
  | .a2b => ⟨state, s.a2b + 1, s.b2a⟩
  | .b2a => ⟨state, s.a2b, s.b2a + 1⟩

/-- the next call of a thread; `n` is what a turn of the loop of `receive` sees -/
def next (n k : Nat) : Thread → Call
  | .a2b => if k % 2 = 0 then .notifyObservers 0 1 else .load 0 n
  | .b2a => if k % 2 = 0 then .load 1 n else .notifyObservers 1 1

/-- a call of a thread, or a turn of the loop of its `receive` -/
def step (iterations : Nat) (s : Exchange) (a : Thread × Nat) : Option Exchange :=
  if s.calls a.1 < 2 * iterations then
    (call s.state (next a.2 (s.calls a.1) a.1)).map fun p =>
      if p.2 = .again then { s with state := p.1 } else s.pass p.1 a.1
  else none

/-- `sentA` notifications by `a2b`, of which `b2a` has received `gotB`, and `sentB` back, of which `a2b` has received
`gotA` -/
def after (x y : Value) (sentA gotB sentB gotA : Nat) : Exchange where
  state :=
    { words := fun topic =>
        if topic = "event_a2b" then values x sentA else if topic = "event_b2a" then values y sentB else []
      notifiers := ["event_a2b", "event_b2a"]
      observers :=
        [⟨"event_b2a", y + BitVec.ofNat 64 gotA, gotA⟩, ⟨"event_a2b", x + BitVec.ofNat 64 gotB, gotB⟩] }
  a2b := sentA + gotA
  b2a := gotB + sentB

/-- the threads behind their barrier; `x` and `y` are the values that the words have there -/
def start (x y : Value) : Exchange := after x y 0 0 0 0

/-- `t` calls are over -/
def stage (x y : Value) (t : Nat) : Exchange := after x y ((t + 3) / 4) ((t + 2) / 4) ((t + 1) / 4) (t / 4)

/-- whose call is the next one -/
def turn (t : Nat) : Thread := if t % 4 = 0 ∨ t % 4 = 3 then .a2b else .b2a

end Exchange

section
variable {s : State} {x : Value} {i j k n : Nat} {o : Observer}

theorem values_getElem? (x : Value) (k i : Nat) :
    (values x k)[i]? = if i ≤ k then some (x + BitVec.ofNat 64 i) else none := by
  unfold values
  rw [List.getElem?_map]
  by_cases hi : i ≤ k
  · rw [if_pos hi, List.getElem?_range (Nat.lt_succ_of_le hi)]
    rfl
  · rw [if_neg hi, List.getElem?_eq_none (by rw [List.length_range]; omega)]
    rfl

theorem ofNat_succ (x : Value) (k : Nat) : x + BitVec.ofNat 64 (k + 1) = x + BitVec.ofNat 64 k + 1 := by
  rw [BitVec.ofNat_add, add_assoc]
  rfl

theorem values_succ (x : Value) (k : Nat) : values x (k + 1) = values x k ++ [x + BitVec.ofNat 64 k + 1] := by
  unfold values
  rw [List.range_succ, List.map_append, List.map_singleton, ofNat_succ]

theorem values_getLast? (x : Value) (k : Nat) : (values x k).getLast? = some (x + BitVec.ofNat 64 k) := by
  unfold values
  rw [List.range_succ, List.map_append, List.map_singleton, List.getLast?_append]
  rfl

theorem call_notify (topic : String) (hj : s.notifiers[j]? = some topic) (hword : s.words topic = values x k) :
    call s (.notifyObservers j 1) =
      some ({ s with words := Function.update s.words topic (values x (k + 1)) }, .notified) := by
  show s.notifiers[j]?.bind _ = _
  rw [hj, Option.bind_some, hword, values_getLast?, values_succ]
  rfl

theorem call_load (ho : s.observers[i]? = some o) :
    call s (.load i n) = (s.words o.topic)[o.seen + n]?.map fun value =>
      if value = o.lastValue then ({ s with observers := s.observers.set i { o with seen := o.seen + n } }, .again)
      else ({ s with observers := s.observers.set i ⟨o.topic, value, o.seen + n⟩ }, .received value) := by
  show s.observers[i]?.bind _ = _
  rw [ho]
  rfl

theorem call_load_zero (ho : s.observers[i]? = some o) (hword : s.words o.topic = values x k) (hle : o.seen ≤ k)
    (hlast : o.lastValue = x + BitVec.ofNat 64 o.seen) : call s (.load i 0) = some (s, .again) := by
  rw [call_load ho, hword, values_getElem?, Nat.add_zero, if_pos hle, Option.map_some, if_pos hlast.symm]
  show some ({ s with observers := s.observers.set i o }, Answer.again) = _
  obtain ⟨hi, hget⟩ := List.getElem?_eq_some_iff.mp ho
  rw [← hget, List.set_getElem_self]

/-- an observer that has seen everything waits -/
theorem call_load_old (ho : s.observers[i]? = some o) (hword : s.words o.topic = values x o.seen)
    (hlast : o.lastValue = x + BitVec.ofNat 64 o.seen) :
    call s (.load i n) = if n = 0 then some (s, .again) else none := by
  by_cases hn : n = 0
  · rw [if_pos hn, hn, call_load_zero ho hword le_rfl hlast]
  · rw [if_neg hn, call_load ho, hword, values_getElem?, if_neg (by omega)]
    rfl

/-- and one that has seen everything but the last notification waits as long as it does not see this one -/
theorem call_load_new (ho : s.observers[i]? = some o) (hword : s.words o.topic = values x (o.seen + 1))
    (hlast : o.lastValue = x + BitVec.ofNat 64 o.seen) :
    call s (.load i n) =
      if n = 0 then some (s, .again)
      else if n = 1 then
        some ({ s with observers := s.observers.set i ⟨o.topic, x + BitVec.ofNat 64 (o.seen + 1), o.seen + 1⟩ },
          .received (x + BitVec.ofNat 64 (o.seen + 1)))
      else none := by
  by_cases hn : n = 0
  · rw [if_pos hn, hn, call_load_zero ho hword (Nat.le_succ _) hlast]
  · rw [if_neg hn, call_load ho, hword, values_getElem?]
    by_cases hn' : n = 1
    · have hother : x + BitVec.ofNat 64 (o.seen + 1) ≠ o.lastValue := by
        rw [ofNat_succ, ← hlast, ne_eq, add_eq_left]
        decide
      rw [if_pos hn', hn', if_pos le_rfl, Option.map_some, if_neg hother]
    · rw [if_neg hn', if_neg (by omega)]
      rfl

end

namespace Exchange

section
variable {x y : Value} {iterations sentA gotB sentB gotA got m t : Nat} {s u : Exchange} {thread : Thread}

theorem step_eq_some {a : Thread × Nat} :
    step iterations s a = some u ↔ s.calls a.1 < 2 * iterations ∧
      ∃ state answer, call s.state (next a.2 (s.calls a.1) a.1) = some (state, answer) ∧
        u = if answer = .again then { s with state := state } else s.pass state a.1 := by
  unfold step
  constructor
  · intro h
    split at h
    · rename_i hlt
      obtain ⟨⟨state, answer⟩, hcall, rfl⟩ := Option.map_eq_some_iff.mp h
      exact ⟨hlt, state, answer, hcall, rfl⟩
    · cases h
  · rintro ⟨hlt, state, answer, hcall, rfl⟩
    rw [if_pos hlt, hcall]
    rfl

theorem after_notify_a2b :
    call (after x y sentA gotB sentB gotA).state (.notifyObservers 0 1) =
      some ((after x y (sentA + 1) gotB sentB gotA).state, .notified) := by
  rw [call_notify (x := x) (k := sentA) "event_a2b" rfl rfl]
  refine congrArg (fun words => some (State.mk words _ _, Answer.notified)) (funext fun topic => ?_)
  rw [Function.update_apply]
  show (if topic = "event_a2b" then _ else if topic = "event_a2b" then _ else _) = _
  split <;> rfl

theorem after_notify_b2a :
    call (after x y sentA gotB sentB gotA).state (.notifyObservers 1 1) =
      some ((after x y sentA gotB (sentB + 1) gotA).state, .notified) := by
  rw [call_notify (x := y) (k := sentB) "event_b2a" rfl rfl]
  refine congrArg (fun words => some (State.mk words _ _, Answer.notified)) (funext fun topic => ?_)
  rw [Function.update_apply]
  split
  · rename_i htopic
    rw [htopic]
    rfl
  · rename_i htopic
    show (if topic = "event_a2b" then _ else if topic = "event_b2a" then _ else _) = _
    rw [if_neg htopic]

theorem after_load_b2a_old :
    call (after x y got got sentB gotA).state (.load 1 m) =
      if m = 0 then some ((after x y got got sentB gotA).state, .again) else none :=
  call_load_old (o := ⟨"event_a2b", x + BitVec.ofNat 64 got, got⟩) (x := x) rfl rfl rfl

theorem after_load_a2b_old :
    call (after x y sentA gotB got got).state (.load 0 m) =
      if m = 0 then some ((after x y sentA gotB got got).state, .again) else none :=
  call_load_old (o := ⟨"event_b2a", y + BitVec.ofNat 64 got, got⟩) (x := y) rfl rfl rfl

theorem after_load_b2a_new :
    call (after x y (got + 1) got sentB gotA).state (.load 1 m) =
      if m = 0 then some ((after x y (got + 1) got sentB gotA).state, .again)
      else if m = 1 then
        some ((after x y (got + 1) (got + 1) sentB gotA).state, .received (x + BitVec.ofNat 64 (got + 1)))
      else none :=
  call_load_new (o := ⟨"event_a2b", x + BitVec.ofNat 64 got, got⟩) (x := x) rfl rfl rfl

theorem after_load_a2b_new :
    call (after x y sentA gotB (got + 1) got).state (.load 0 m) =
      if m = 0 then some ((after x y sentA gotB (got + 1) got).state, .again)
      else if m = 1 then
        some ((after x y sentA gotB (got + 1) (got + 1)).state, .received (y + BitVec.ofNat 64 (got + 1)))
      else none :=
  call_load_new (o := ⟨"event_b2a", y + BitVec.ofNat 64 got, got⟩) (x := y) rfl rfl rfl

theorem stage_zero : stage x y (4 * got) = after x y got got got got := by
  unfold stage
  congr 1 <;> omega

theorem stage_one : stage x y (4 * got + 1) = after x y (got + 1) got got got := by
  unfold stage
  congr 1 <;> omega

theorem stage_two : stage x y (4 * got + 2) = after x y (got + 1) (got + 1) got got := by
  unfold stage
  congr 1 <;> omega

theorem stage_three : stage x y (4 * got + 3) = after x y (got + 1) (got + 1) (got + 1) got := by
  unfold stage
  congr 1 <;> omega

/-- the thread gets through its call, at the latest when it sees everything, and then the state is `state` -/
def Passes (s : Exchange) (thread : Thread) (state : State) : Prop :=
  (∃ answer, call s.state (next 1 (s.calls thread) thread) = some (state, answer) ∧ answer ≠ .again) ∧
    ∀ m state' answer, call s.state (next m (s.calls thread) thread) = some (state', answer) →
      (state' = s.state ∧ answer = .again) ∨ (state' = state ∧ answer ≠ .again)

theorem passes_of_notify {state : State}
    (hcall : ∀ m, call s.state (next m (s.calls thread) thread) = some (state, .notified)) :
    Passes s thread state := by
  refine ⟨⟨.notified, hcall 1, nofun⟩, fun m state' answer h => ?_⟩
  rw [hcall] at h
  obtain ⟨rfl, rfl⟩ := Prod.mk.inj (Option.some.inj h)
  exact .inr ⟨rfl, nofun⟩

theorem passes_of_receive {state : State} (value : Value)
    (hcall : ∀ m, call s.state (next m (s.calls thread) thread) =
      if m = 0 then some (s.state, .again) else if m = 1 then some (state, .received value) else none) :
    Passes s thread state := by
  refine ⟨⟨.received value, hcall 1, nofun⟩, fun m state' answer h => ?_⟩
  rw [hcall] at h
  split at h
  · obtain ⟨rfl, rfl⟩ := Prod.mk.inj (Option.some.inj h)
    exact .inl ⟨rfl, rfl⟩
  split at h
  · obtain ⟨rfl, rfl⟩ := Prod.mk.inj (Option.some.inj h)
    exact .inr ⟨rfl, nofun⟩
  · cases h

theorem exists_stage (t : Nat) : ∃ got, t = 4 * got ∨ t = 4 * got + 1 ∨ t = 4 * got + 2 ∨ t = 4 * got + 3 :=
  ⟨t / 4, by omega⟩

/-- the call of the thread whose turn it is -/
theorem passes_turn (x y : Value) (t : Nat) : Passes (stage x y t) (turn t) (stage x y (t + 1)).state := by
  obtain ⟨got, rfl | rfl | rfl | rfl⟩ := exists_stage t
  · rw [stage_zero, stage_one, show turn (4 * got) = .a2b from if_pos (by omega)]
    refine passes_of_notify fun m => ?_
    rw [show next m ((after x y got got got got).calls .a2b) .a2b = .notifyObservers 0 1 from
      if_pos (show (got + got) % 2 = 0 by omega)]
    exact after_notify_a2b
  · rw [stage_one, stage_two, show turn (4 * got + 1) = .b2a from if_neg (by omega)]
    refine passes_of_receive (x + BitVec.ofNat 64 (got + 1)) fun m => ?_
    rw [show next m ((after x y (got + 1) got got got).calls .b2a) .b2a = .load 1 m from
      if_pos (show (got + got) % 2 = 0 by omega)]
    exact after_load_b2a_new
  · rw [stage_two, stage_three, show turn (4 * got + 2) = .b2a from if_neg (by omega)]
    refine passes_of_notify fun m => ?_
    rw [show next m ((after x y (got + 1) (got + 1) got got).calls .b2a) .b2a = .notifyObservers 1 1 from
      if_neg (show ¬ (got + 1 + got) % 2 = 0 by omega)]
    exact after_notify_b2a
  · rw [stage_three, show 4 * got + 3 + 1 = 4 * (got + 1) from rfl, stage_zero,
      show turn (4 * got + 3) = .a2b from if_pos (by omega)]
    refine passes_of_receive (y + BitVec.ofNat 64 (got + 1)) fun m => ?_
    rw [show next m ((after x y (got + 1) (got + 1) (got + 1) got).calls .a2b) .a2b = .load 0 m from
      if_neg (show ¬ (got + 1 + got) % 2 = 0 by omega)]
    exact after_load_a2b_new

/-- the other thread has seen everything, and waits -/
theorem call_wait (x y : Value) (t : Nat) (hthread : thread ≠ turn t) :
    call (stage x y t).state (next m ((stage x y t).calls thread) thread) =
      if m = 0 then some ((stage x y t).state, .again) else none := by
  obtain ⟨got, rfl | rfl | rfl | rfl⟩ := exists_stage t
  · rw [show turn (4 * got) = .a2b from if_pos (by omega)] at hthread
    obtain rfl : thread = .b2a := by cases thread; exacts [(hthread rfl).elim, rfl]
    rw [stage_zero, show next m ((after x y got got got got).calls .b2a) .b2a = .load 1 m from
      if_pos (show (got + got) % 2 = 0 by omega)]
    exact after_load_b2a_old
  · rw [show turn (4 * got + 1) = .b2a from if_neg (by omega)] at hthread
    obtain rfl : thread = .a2b := by cases thread; exacts [rfl, (hthread rfl).elim]
    rw [stage_one, show next m ((after x y (got + 1) got got got).calls .a2b) .a2b = .load 0 m from
      if_neg (show ¬ (got + 1 + got) % 2 = 0 by omega)]
    exact after_load_a2b_old
  · rw [show turn (4 * got + 2) = .b2a from if_neg (by omega)] at hthread
    obtain rfl : thread = .a2b := by cases thread; exacts [rfl, (hthread rfl).elim]
    rw [stage_two, show next m ((after x y (got + 1) (got + 1) got got).calls .a2b) .a2b = .load 0 m from
      if_neg (show ¬ (got + 1 + got) % 2 = 0 by omega)]
    exact after_load_a2b_old
  · rw [show turn (4 * got + 3) = .a2b from if_pos (by omega)] at hthread
    obtain rfl : thread = .b2a := by cases thread; exacts [(hthread rfl).elim, rfl]
    rw [stage_three, show next m ((after x y (got + 1) (got + 1) (got + 1) got).calls .b2a) .b2a = .load 1 m from
      if_pos (show (got + 1 + (got + 1)) % 2 = 0 by omega)]
    exact after_load_b2a_old

theorem pass_stage (x y : Value) (t : Nat) :
    (stage x y t).pass (stage x y (t + 1)).state (turn t) = stage x y (t + 1) := by
  unfold turn
  split
  · show Exchange.mk _ ((t + 3) / 4 + t / 4 + 1) ((t + 2) / 4 + (t + 1) / 4) = Exchange.mk _ _ _
    congr 1 <;> (show _ = _ / 4 + _ / 4; omega)
  · show Exchange.mk _ ((t + 3) / 4 + t / 4) ((t + 2) / 4 + (t + 1) / 4 + 1) = Exchange.mk _ _ _
    congr 1 <;> (show _ = _ / 4 + _ / 4; omega)

/-- **One step**: only the thread whose turn it is goes on -/
theorem step_stage {a : Thread × Nat} (h : step iterations (stage x y t) a = some u) :
    u = stage x y t ∨ a.1 = turn t ∧ u = stage x y (t + 1) := by
  obtain ⟨-, state, answer, hcall, rfl⟩ := step_eq_some.mp h
  by_cases hturn : a.1 = turn t
  · rw [hturn] at hcall ⊢
    rcases (passes_turn x y t).2 a.2 state answer hcall with ⟨rfl, rfl⟩ | ⟨rfl, hanswer⟩
    · exact .inl rfl
    · rw [if_neg hanswer, pass_stage]
      exact .inr ⟨rfl, rfl⟩
  · rw [call_wait x y t hturn] at hcall
    split at hcall
    · obtain ⟨rfl, rfl⟩ := Prod.mk.inj (Option.some.inj hcall)
      exact .inl rfl
    · cases hcall

/-- it goes on as soon as it sees everything, until both loops are over -/
theorem step_turn (ht : t < 4 * iterations) :
    step iterations (stage x y t) (turn t, 1) = some (stage x y (t + 1)) := by
  obtain ⟨⟨answer, hcall, hanswer⟩, -⟩ := passes_turn x y t
  refine step_eq_some.mpr ⟨?_, _, answer, hcall, ?_⟩
  · unfold turn
    split
    · show (t + 3) / 4 + t / 4 < 2 * iterations
      omega
    · show (t + 2) / 4 + (t + 1) / 4 < 2 * iterations
      omega
  · rw [if_neg hanswer, pass_stage]

/-- neither of them goes on when both loops are over -/
theorem lt_of_step {a : Thread × Nat} (h : step iterations (stage x y t) a = some u) (hturn : a.1 = turn t) :
    t < 4 * iterations := by
  obtain ⟨hlt, -⟩ := step_eq_some.mp h
  rw [hturn] at hlt
  unfold turn at hlt
  split at hlt
  · have hlt' : (t + 3) / 4 + t / 4 < 2 * iterations := hlt
    omega
  · have hlt' : (t + 2) / 4 + (t + 1) / 4 < 2 * iterations := hlt
    omega

/-- **The threads take turns**, however their steps are interleaved and whatever their loads see: after `t` calls
each has received every notification of the other and none twice, but for the one that is under way, the thread whose
turn it is can go on until both loops are over, and the other one waits. -/
theorem alternates (x y : Value) {as : List (Thread × Nat)} (h : run (step iterations) (start x y) as = some s) :
    ∃ t ≤ 4 * iterations, s = stage x y t ∧
      (t < 4 * iterations → step iterations s (turn t, 1) = some (stage x y (t + 1))) ∧
      ∀ a u, step iterations s a = some u → u = s ∨ a.1 = turn t ∧ u = stage x y (t + 1) := by
  obtain ⟨t, hle, rfl⟩ : ∃ t ≤ 4 * iterations, s = stage x y t := by
    refine run_inv (I := fun s => ∃ t ≤ 4 * iterations, s = stage x y t) ?_ as ⟨0, Nat.zero_le _, ?_⟩ h
    · rintro _ a u ⟨t, hle, rfl⟩ hu
      rcases step_stage hu with rfl | ⟨hturn, rfl⟩
      · exact ⟨t, hle, rfl⟩
      · exact ⟨t + 1, lt_of_step hu hturn, rfl⟩
    · exact (stage_zero : stage x y (4 * 0) = after x y 0 0 0 0).symm
  exact ⟨t, hle, rfl, step_turn, fun _ _ => step_stage⟩

/-- one notification there and one back, with turns of the loops that see nothing new -/
theorem alternates_example : ∃ s, run (step 1) (start 5 (-1))
      [(.b2a, 0), (.a2b, 0), (.a2b, 0), (.b2a, 0), (.b2a, 1), (.b2a, 0), (.a2b, 1)] = some s ∧
    ∃ t ≤ 4 * 1, s = stage 5 (-1) t ∧ (t < 4 * 1 → step 1 s (turn t, 1) = some (stage 5 (-1) (t + 1))) ∧
      ∀ a u, step 1 s a = some u → u = s ∨ a.1 = turn t ∧ u = stage 5 (-1) (t + 1) := by
  obtain ⟨s, hrun⟩ := Option.isSome_iff_exists.mp (show (run (step 1) (start 5 (-1))
    [(.b2a, 0), (.a2b, 0), (.a2b, 0), (.b2a, 0), (.b2a, 1), (.b2a, 0), (.a2b, 1)]).isSome = true by decide)
  exact ⟨s, hrun, alternates 5 (-1) hrun⟩

end

end Exchange

end ShmAtomic
end Ipcpp
