import Ipcpp.Lib.Counting

/-!
# A log and its readers

A log only grows at its end.  Every attached reader has a position in it and moves forward one entry at a
time; it starts behind the last entry (`attach`), and it reads the entry at its position (`read`) or leaves it
out (`skip`).

An entry remembers how many readers were attached when it was appended, and how many have read it.  No more
than the former can ever read it: those that have, and those that still can, are among the readers it was
appended for (`Inv.owed`).
-/

namespace Logs
open Counting

structure Entry (α : Type*) where
  value : α
  /-- how many readers were attached when it was appended -/
  readers : Nat
  /-- how many have read it -/
  reads : Nat

structure Log (α : Type*) where
  entries : List (Entry α)
  /-- where each reader is; `none`: it is not attached -/
  positions : List (Option Nat)

namespace Log

section
variable {α : Type*} (l : Log α)

def empty : Log α := ⟨[], []⟩

/-- a reader at the position `c` has not gone by entry `m` -/
def before (m : Nat) : Option Nat → Bool
  | some c => decide (c ≤ m)
  | none => false

/-- how many readers are attached -/
def attached : Nat := l.positions.countP Option.isSome

/-- how many readers have not gone by entry `m` -/
def pending (m : Nat) : Nat := l.positions.countP (before m)

def append (v : α) : Log α := { l with entries := l.entries ++ [⟨v, l.attached, 0⟩] }

/-- a new reader -/
def enrol : Log α := { l with positions := l.positions ++ [none] }

def attach (i : Nat) : Log α := { l with positions := l.positions.set i (some l.entries.length) }

def detach (i : Nat) : Log α := { l with positions := l.positions.set i none }

/-- reader `i`, which is at `c`, leaves out its entry -/
def skip (i c : Nat) : Log α := { l with positions := l.positions.set i (some (c + 1)) }

/-- and reads it -/
def read (i c : Nat) : Log α :=
  { entries := l.entries.modify c fun e => { e with reads := e.reads + 1 }
    positions := l.positions.set i (some (c + 1)) }

structure Inv : Prop where
  inside : ∀ c, some c ∈ l.positions → c ≤ l.entries.length
  /-- the readers of an entry, past and to come, are among those it was appended for -/
  owed : ∀ m e, l.entries[m]? = some e → e.reads + l.pending m ≤ e.readers

end

section
variable {α : Type*} {l : Log α} {i c m : Nat}

theorem empty_inv : (empty : Log α).Inv := ⟨fun _ h => absurd h List.not_mem_nil, fun _ _ h => by cases h⟩

@[simp] theorem length_append (v : α) : (l.append v).entries.length = l.entries.length + 1 :=
  List.length_append

@[simp] theorem attached_enrol (l : Log α) : l.enrol.attached = l.attached := by
  show (l.positions ++ [none]).countP Option.isSome = _
  rw [List.countP_append]
  exact Nat.add_zero _

theorem attached_set {a b : Option Nat} (ha : l.positions[i]? = some a) :
    (l.positions.set i b).countP Option.isSome + (if a.isSome then 1 else 0) =
      l.attached + if b.isSome then 1 else 0 :=
  countP_set _ ha b

theorem pending_set {a b : Option Nat} (ha : l.positions[i]? = some a) (m : Nat) :
    (l.positions.set i b).countP (before m) + (if before m a then 1 else 0) =
      l.pending m + if before m b then 1 else 0 :=
  countP_set _ ha b

theorem pending_le_attached (m : Nat) : l.pending m ≤ l.attached :=
  List.countP_mono_left fun a _ h => by cases a <;> [cases h; rfl]

/-- a reader that is at `c` counts as one that has not gone by `c` -/
theorem pending_pos (hc : l.positions[i]? = some (some c)) : 0 < l.pending c := by
  have hset := pending_set (b := none) hc c
  rw [if_pos (show before c (some c) = true from decide_eq_true le_rfl),
    if_neg (show ¬ before c none = true from Bool.false_ne_true)] at hset
  omega

/-- a reader of an entry is still missing while one of them is at it -/
theorem Inv.reads_lt (h : l.Inv) {e : Entry α} (hc : l.positions[i]? = some (some c))
    (he : l.entries[c]? = some e) : e.reads < e.readers := by
  have howed := h.owed c e he
  have hpos := pending_pos hc
  omega

theorem Inv.append (h : l.Inv) (v : α) : (l.append v).Inv := by
  constructor
  · intro c hc
    have hle := h.inside c hc
    show c ≤ (l.entries ++ [_]).length
    rw [List.length_append]
    omega
  · intro m e he
    have he' : (l.entries ++ [⟨v, l.attached, 0⟩])[m]? = some e := he
    show e.reads + l.pending m ≤ e.readers
    rcases Nat.lt_or_ge m l.entries.length with hm | hm
    · rw [List.getElem?_append_left hm] at he'
      exact h.owed m e he'
    · obtain rfl : ⟨v, l.attached, 0⟩ = e := by
        rw [List.getElem?_append_right hm] at he'
        exact List.mem_singleton.mp (List.mem_of_getElem? he') |>.symm
      rw [Nat.zero_add]
      exact pending_le_attached m

theorem Inv.enrol (h : l.Inv) : l.enrol.Inv := by
  constructor
  · intro c hc
    rcases List.mem_append.mp hc with hc | hc
    · exact h.inside c hc
    · exact absurd (List.mem_singleton.mp hc) (Option.some_ne_none c)
  · intro m e he
    have hpending : l.enrol.pending m = l.pending m := by
      show (l.positions ++ [none]).countP (before m) = _
      rw [List.countP_append]
      exact Nat.add_zero _
    rw [hpending]
    exact h.owed m e he

/-- a reader that does not come to stand before an entry that it had gone by -/
theorem Inv.move (h : l.Inv) {a b : Option Nat} (ha : l.positions[i]? = some a)
    (hb : ∀ c, b = some c → c ≤ l.entries.length)
    (hab : ∀ m < l.entries.length, before m b = true → before m a = true) :
    ({ l with positions := l.positions.set i b } : Log α).Inv := by
  constructor
  · intro c hc
    rcases List.mem_or_eq_of_mem_set hc with hc | hc
    · exact h.inside c hc
    · exact hb c hc.symm
  · intro m e he
    have hm : m < l.entries.length := (List.getElem?_eq_some_iff.mp he).1
    have howed := h.owed m e he
    have hset := pending_set (b := b) ha m
    have hle : (l.positions.set i b).countP (before m) ≤ l.pending m := by
      by_cases hbm : before m b = true
      · rw [if_pos hbm, if_pos (hab m hm hbm)] at hset
        omega
      · rw [if_neg hbm] at hset
        omega
    exact (Nat.add_le_add_left hle _).trans howed

theorem Inv.attach (h : l.Inv) {a : Option Nat} (ha : l.positions[i]? = some a) : (l.attach i).Inv := by
  refine h.move ha (fun c hc => (Option.some.inj hc).symm.le) fun m hm hbefore => ?_
  exact absurd (of_decide_eq_true hbefore) (Nat.not_le.mpr hm)

theorem Inv.detach (h : l.Inv) {a : Option Nat} (ha : l.positions[i]? = some a) : (l.detach i).Inv :=
  h.move ha (fun _ hc => by cases hc) fun _ _ hbefore => by cases hbefore

theorem Inv.skip (h : l.Inv) (hc : l.positions[i]? = some (some c)) (hlt : c < l.entries.length) :
    (l.skip i c).Inv := by
  refine h.move hc (fun d hd => ?_) fun m _ hbefore => ?_
  · obtain rfl := Option.some.inj hd
    exact hlt
  · have hle : c + 1 ≤ m := of_decide_eq_true hbefore
    exact decide_eq_true (by omega)

theorem getElem?_read (i c m : Nat) :
    (l.read i c).entries[m]? = if c = m then (l.entries[m]?).map fun e => { e with reads := e.reads + 1 }
      else l.entries[m]? := by
  show (l.entries.modify c _)[m]? = _
  rw [List.getElem?_modify]
  split <;> simp

theorem Inv.read (h : l.Inv) (hc : l.positions[i]? = some (some c)) (hlt : c < l.entries.length) :
    (l.read i c).Inv := by
  have hskip := h.skip hc hlt
  constructor
  · intro d hd
    have hd' := hskip.inside d hd
    show d ≤ (l.entries.modify c _).length
    rw [List.length_modify]
    exact hd'
  · intro m e he
    rw [getElem?_read] at he
    split at he
    · subst c
      obtain ⟨e', he', rfl⟩ := Option.map_eq_some_iff.mp he
      have howed := h.owed m e' he'
      have hset := pending_set (b := some (m + 1)) hc m
      rw [if_pos (show before m (some m) = true from decide_eq_true le_rfl),
        if_neg (show ¬ before m (some (m + 1)) = true by simp [before])] at hset
      show e'.reads + 1 + (l.positions.set i (some (m + 1))).countP (before m) ≤ e'.readers
      omega
    · exact hskip.owed m e he

end

end Log

end Logs
