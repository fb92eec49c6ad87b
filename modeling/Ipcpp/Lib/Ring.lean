import Mathlib

/-!
# Windows of a ring

The slots of a ring are counted modulo its capacity `c`.  `slot c h n` is the one at distance `n` from slot
`h`, and `window f c h n` lists what `n` of them hold from slot `h` on.  A list that is kept in a ring is such
a window; the lemmas say how it changes when one end of the window moves or a slot behind it is written, and
how its length is read off the positions of its two ends (`slot_eq_self`, `length_of_lt`, `length_of_gt`).
-/

namespace Ring

def slot (c h n : Nat) : Nat := (h + n) % c

section
variable {c h n : Nat}

theorem slot_lt (hc : 0 < c) (h n : Nat) : slot c h n < c := Nat.mod_lt _ hc

theorem slot_zero (hh : h < c) : slot c h 0 = h := Nat.mod_eq_of_lt hh

theorem slot_succ (c h n : Nat) : slot c h (n + 1) = (slot c h n + 1) % c := by
  rw [slot, slot, Nat.mod_add_mod, Nat.add_assoc]

/-- counting from the slot behind `h` -/
theorem slot_behind (c h n : Nat) : slot c ((h + 1) % c) n = slot c h (n + 1) := by
  rw [slot, slot, Nat.mod_add_mod, Nat.add_assoc, Nat.add_comm 1 n]

theorem slot_eq (hh : h < c) (hn : n ≤ c) : slot c h n = if h + n < c then h + n else h + n - c := by
  unfold slot
  split
  · exact Nat.mod_eq_of_lt ‹_›
  · rw [Nat.mod_eq_sub_mod (by omega), Nat.mod_eq_of_lt (by omega)]

theorem slot_inj {i j : Nat} (hh : h < c) (hi : i < c) (hj : j < c) (he : slot c h i = slot c h j) : i = j := by
  rw [slot_eq hh hi.le, slot_eq hh hj.le] at he
  split at he <;> split at he <;> omega

/-- the slot in front of another one -/
theorem slot_pred (hh : h < c) (hn : n < c) :
    slot c h n = if slot c h (n + 1) = 0 then c - 1 else slot c h (n + 1) - 1 := by
  rw [slot_eq hh hn.le, slot_eq hh hn]
  split <;> split <;> split <;> omega

/-- the two ends meet when the window is empty and when it is the whole ring -/
theorem slot_eq_self (hh : h < c) (hn : n ≤ c) : slot c h n = h ↔ n = 0 ∨ n = c := by
  rw [slot_eq hh hn]
  split <;> omega

theorem length_of_gt (hh : h < c) (hn : n ≤ c) (hlt : h < slot c h n) : slot c h n - h = n := by
  rw [slot_eq hh hn] at hlt ⊢
  split <;> rename_i hs
  · omega
  · rw [if_neg hs] at hlt
    omega

theorem length_of_lt (hh : h < c) (hn : n ≤ c) (hlt : slot c h n < h) : slot c h n + c - h = n := by
  rw [slot_eq hh hn] at hlt ⊢
  split <;> rename_i hs
  · rw [if_pos hs] at hlt
    omega
  · omega

end

section
variable {α β : Type*} {f g : Nat → α} {c h n : Nat}

def window (f : Nat → α) (c h n : Nat) : List α := (List.range n).map fun i => f (slot c h i)

theorem window_succ (f : Nat → α) (c h n : Nat) : window f c h (n + 1) = window f c h n ++ [f (slot c h n)] := by
  rw [window, List.range_succ, List.map_append]
  rfl

theorem window_cons (f : Nat → α) (hh : h < c) (n : Nat) :
    window f c h (n + 1) = f h :: window f c ((h + 1) % c) n := by
  rw [window, List.range_succ_eq_map, List.map_cons, List.map_map, slot_zero hh, window]
  refine congrArg _ (List.map_congr_left fun i _ => ?_)
  rw [Function.comp_apply, slot_behind]

theorem window_congr (hfg : ∀ i < n, f (slot c h i) = g (slot c h i)) : window f c h n = window g c h n :=
  List.map_congr_left fun i hi => hfg i (List.mem_range.mp hi)

theorem window_write (hh : h < c) (hn : n < c) (v : α) :
    window (Function.update f (slot c h n) v) c h (n + 1) = window f c h n ++ [v] := by
  rw [window_succ, Function.update_self]
  refine congrArg (· ++ _) (window_congr fun i hi => Function.update_of_ne (fun he => ?_) _ _)
  exact Nat.ne_of_lt hi (slot_inj hh (hi.trans hn) hn he)

/-! ## a list that is a window -/

variable {l : List α}

theorem eq_head (hh : h < c) {v : α} (hl : window f c h l.length = l) (hv : l.head? = some v) : f h = v := by
  cases l with
  | nil => cases hv
  | cons a l =>
    rw [List.length_cons, window_cons f hh] at hl
    exact (List.cons.inj hl).1.trans (Option.some.inj hv)

theorem eq_last {v : α} (hl : window f c h l.length = l) (hv : l.getLast? = some v) :
    f (slot c h (l.length - 1)) = v := by
  obtain ⟨l', rfl⟩ := List.getLast?_eq_some_iff.mp hv
  rw [List.length_append, List.length_singleton, window_succ] at hl
  rw [List.length_append, List.length_singleton, Nat.add_sub_cancel]
  exact (List.cons.inj (List.append_inj' hl rfl).2).1

theorem window_tail (hh : h < c) {a : α} (hl : window f c h (a :: l).length = a :: l) :
    window f c ((h + 1) % c) l.length = l := by
  rw [List.length_cons, window_cons f hh] at hl
  exact (List.cons.inj hl).2

theorem window_dropLast {a : α} (hl : window f c h (l ++ [a]).length = l ++ [a]) : window f c h l.length = l := by
  rw [List.length_append, List.length_singleton, window_succ] at hl
  exact (List.append_inj' hl rfl).1

theorem window_push (hh : h < c) (hn : l.length < c) (hl : window f c h l.length = l) (v : α) :
    window (Function.update f (slot c h l.length) v) c h (l ++ [v]).length = l ++ [v] := by
  rw [List.length_append, List.length_singleton, window_write hh hn, hl]

/-! ## the bounded list -/

/-- a value is appended, unless the list has its full length -/
def push (c : Nat) (v : α) (l : List α) : List α := if l.length < c then l ++ [v] else l

theorem push_of_lt (hl : l.length < c) (v : α) : push c v l = l ++ [v] := if_pos hl

theorem push_of_eq (hl : l.length = c) (v : α) : push c v l = l := if_neg hl.not_lt

end

end Ring
