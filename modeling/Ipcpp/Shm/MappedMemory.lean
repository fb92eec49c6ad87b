import Ipcpp.Lib.Pages
import Ipcpp.Lib.Ring
import Ipcpp.Shm.SharedMemoryFile

/-!
# Mapped memory in the address space

`MappedMemory::open` maps a file once (`SINGLE`) or twice in a row (`DOUBLE`): for the latter it maps anonymous
memory of twice the size, and then the file over each half of it.  The destructor gives the pages back; it calls
`munmap` three times for a `DOUBLE` mapping, and the last call is about pages that are not mapped any more.
Another thread may have got them meanwhile.

The system: mapped memories that are opened (any call of `mmap` may fail), moved and destroyed, the calls of
`munmap` of each destructor one by one, and the rest of the process, which maps and unmaps pages of its own.

* `mappings_kept`   as long as nothing is mapped where a destructor is at work, every mapped memory shows its
                    file, every page that was mapped for one belongs to one mapped memory or to one destructor,
                    and no page of the rest of the process is unmapped;
* `double_window`   in a `DOUBLE` mapping of a file the window of a ring is an array, wherever it starts.
-/

namespace Ipcpp
namespace AddressSpace
open SharedMemoryFile Counting Runs

/-- `getpagesize()` -/
def pageSize : Nat := 4096

inductive Backing where
  /-- a page of a shared memory object -/
  | file (object page : Nat)
  | anonymous
  /-- a page of the rest of the process -/
  | foreign
deriving DecidableEq

def pages (bytes : Nat) : Nat := Pages.count pageSize bytes

/-- what a mapping shows; `object` is what its descriptor refers to, and a handle that is zero refers to none -/
def backing (object : Option Nat) (i : Nat) : Backing :=
  match object with
  | some o => .file o i
  | none => .anonymous

abbrev Space := Nat → Option Backing

/-- `_map_memory(expected_size, start_addr, ..)`; `mapped` is the address that `mmap` returns, if it does not fail -/
def mapMemory (expectedSize startAddr : Nat) (object mapped : Option Nat) (sp : Space) : Space × Option Nat :=
  if expectedSize = 0 ∨ startAddr % pageSize ≠ 0 then (sp, none)
  else
    match mapped with
    | none => (sp, none)
    | some a => (Pages.map sp (a / pageSize) (pages expectedSize) (backing object), some a)

def munmap (addr length : Nat) (sp : Space) : Space :=
  if length = 0 ∨ addr % pageSize ≠ 0 then sp else Pages.unmap sp (addr / pageSize) (pages length)

/-- the calls of `munmap` in the destructor -/
def munmaps (type : MappingType) (region size total : Nat) : List (Nat × Nat) :=
  if region = 0 then []
  else
    match type with
    | .single => [(region, total)]
    | .double => [(region, size), (region + size, size), (region, total)]

/-- what `mmap` answers: an address, and whether it maps to the addresses that it is told -/
structure Answers where
  first : Option Nat
  second : Bool
  third : Bool

def totalSize (type : MappingType) (size : Nat) : Nat :=
  match type with
  | .single => size
  | .double => size + size

/-- the mapping of `open`: the region, or none, and what the destructor of `self` still has to unmap then -/
def mapRegion (type : MappingType) (size : Nat) (object : Option Nat) (answers : Answers) (sp : Space) :
    Space × Option Nat × List (Nat × Nat) :=
  match type with
  | .single =>
    let (sp, region) := mapMemory size 0 object answers.first sp
    (sp, region, [])
  | .double =>
    match mapMemory (size + size) 0 none answers.first sp with
    | (sp, none) => (sp, none, [])
    | (sp, some region) =>
      match mapMemory size region object (if answers.second then some region else none) sp with
      | (sp, none) => (sp, none, munmaps .double region size (size + size))
      | (sp, some _) =>
        match mapMemory size (region + size) object (if answers.third then some (region + size) else none) sp with
        | (sp, none) => (sp, none, munmaps .double region size (size + size))
        | (sp, some _) => (sp, some region, [])

/-- a `MappedMemory` object; `object` (never read) is what the descriptor of its file refers to -/
structure Mapped where
  type : MappingType
  memory : MappedMemory
  object : Option Nat

/-! ## the system -/

structure State where
  world : World
  space : Space
  objects : List (Option Mapped)
  /-- the calls of `munmap` that each destructor has still to make -/
  destructors : List (List (Nat × Nat))

def init : State := ⟨.init, fun _ => none, [], []⟩

inductive Action where
  /-- `open(shm_file, access_mode)` -/
  | open (type : MappingType) (file : File) (accessMode : AccessMode) (object : Option Nat) (answers : Answers)
  | moveConstruct (j : Nat)
  | moveAssign (k j : Nat)
  | destroy (k : Nat)
  /-- the next call of `munmap` of destructor `j` -/
  | munmap (j : Nat)
  /-- the rest of the process maps or unmaps pages of its own -/
  | foreignMap (p n : Nat)
  | foreignUnmap (p n : Nat)

namespace State
variable (s : State)

def object (k : Nat) : Option Mapped := s.objects[k]?.join

/-- `mmap` finds a range of free pages, not at zero -/
def Fresh (a length : Nat) : Prop :=
  a ≠ 0 ∧ a % pageSize = 0 ∧ ∀ i < pages length, s.space (a / pageSize + i) = none

instance (a length : Nat) : Decidable (s.Fresh a length) := inferInstanceAs (Decidable (_ ∧ _ ∧ _))

def openMemory (type : MappingType) (file : File) (accessMode : AccessMode) (object : Option Nat)
    (answers : Answers) : State :=
  if file.accessMode = .read ∧ accessMode = .write then s
  else
    let (sp, region, calls) := mapRegion type file.size object answers s.space
    match MappedMemory.open type file accessMode region s.world with
    | (w, .ok m, _) => { s with world := w, space := sp, objects := s.objects ++ [some ⟨type, m, object⟩] }
    | (w, .error _, _) => { s with world := w, space := sp, destructors := s.destructors ++ [calls] }

/-- what the object that was moved from has, and the new one -/
def moveConstruct (j : Nat) (o : Mapped) : State :=
  { s with objects := s.objects.set j (some ⟨o.type, o.memory.moveConstruct.2, none⟩) ++
      [some ⟨o.type, o.memory.moveConstruct.1, o.object⟩] }

def moveAssign (k j : Nat) (o other : Mapped) : State :=
  let (w, m, m') := o.memory.moveAssign other.memory s.world
  { s with
    world := w
    objects := (s.objects.set k (some ⟨o.type, m, other.object⟩)).set j (some ⟨other.type, m', o.object⟩) }

def destroy (k : Nat) (o : Mapped) : State :=
  { s with
    world := o.memory.shmFile.release s.world
    objects := s.objects.set k none
    destructors := s.destructors ++
      [munmaps o.type o.memory.mappedRegion o.memory.size o.memory.totalSize] }

def step : Action → Option State
  | .open type file accessMode object answers =>
    if ∀ a ∈ answers.first, s.Fresh a (totalSize type file.size) then
      some (s.openMemory type file accessMode object answers)
    else none
  | .moveConstruct j => (s.object j).map (s.moveConstruct j)
  | .moveAssign k j => (s.object k).bind fun o => (s.object j).bind fun other =>
      if k = j then some s
      else
        match o.type, other.type with
        | .single, .single => some (s.moveAssign k j o other)
        | .double, .double => some (s.moveAssign k j o other)
        | _, _ => none
  | .destroy k => (s.object k).map (s.destroy k)
  | .munmap j =>
    match s.destructors[j]? with
    | some (c :: cs) =>
      some { s with space := AddressSpace.munmap c.1 c.2 s.space, destructors := s.destructors.set j cs }
    | _ => none
  | .foreignMap p n =>
    if ∀ i < n, s.space (p + i) = none then
      some { s with space := Pages.map s.space p n fun _ => .foreign }
    else none
  | .foreignUnmap p n =>
    if ∀ i < n, s.space (p + i) = some .foreign then
      some { s with space := Pages.unmap s.space p n }
    else none

end State

/-! ## who has a page -/

/-- what a mapped memory shows in page `p` -/
def Mapped.shows (o : Mapped) (p : Nat) : Option Backing :=
  let r := o.memory.mappedRegion / pageSize
  if o.memory.mappedRegion ≠ 0 ∧ r ≤ p ∧ p < r + pages o.memory.totalSize then
    some (backing o.object ((p - r) % pages o.memory.size))
  else none

/-- an object has page `p` -/
def has (p : Nat) (o : Option Mapped) : Bool := (o.bind fun o => o.shows p).isSome

/-- the last call of a destructor is about page `p` -/
def doomed (p : Nat) (calls : List (Nat × Nat)) : Bool :=
  match calls.getLast? with
  | some c => decide (c.1 / pageSize ≤ p ∧ p < c.1 / pageSize + pages c.2)
  | none => false

namespace State
variable (s : State)

/-- how many objects and destructors have page `p` -/
def owners (p : Nat) : Nat := s.objects.countP (has p) + s.destructors.countP (doomed p)

/-- nothing is mapped where a destructor is at work -/
def Clear : Action → Prop
  | .open type file _ _ answers => ∀ a ∈ answers.first, ∀ calls ∈ s.destructors,
      ∀ i < pages (totalSize type file.size), doomed (a / pageSize + i) calls = false
  | .foreignMap p n => ∀ calls ∈ s.destructors, ∀ i < n, doomed (p + i) calls = false
  | _ => True

instance : (a : Action) → Decidable (s.Clear a)
  | .open type file _ _ answers => inferInstanceAs (Decidable (∀ a ∈ answers.first, ∀ calls ∈ s.destructors,
      ∀ i < pages (totalSize type file.size), doomed (a / pageSize + i) calls = false))
  | .foreignMap p n => inferInstanceAs (Decidable (∀ calls ∈ s.destructors, ∀ i < n, doomed (p + i) calls = false))
  | .moveConstruct _ | .moveAssign _ _ | .destroy _ | .munmap _ | .foreignUnmap _ _ => isTrue trivial

end State

/-! ## what `open` maps -/

section
variable {type : MappingType} {size region total p : Nat} {object : Option Nat} {answers : Answers} {sp : Space}

theorem pageSize_pos : 0 < pageSize := by decide

theorem backing_ne_foreign (object : Option Nat) (i : Nat) : backing object i ≠ .foreign := by
  cases object <;> exact fun h => by cases h

/-- a page of a region -/
def InRegion (region total p : Nat) : Prop := region / pageSize ≤ p ∧ p < region / pageSize + pages total

theorem pages_double (h : size % pageSize = 0) : pages (size + size) = pages size + pages size := by
  obtain ⟨k, rfl⟩ := Nat.dvd_of_mod_eq_zero h
  unfold pages
  rw [Nat.mul_comm, Pages.count_mul pageSize_pos, ← Nat.add_mul, Pages.count_mul pageSize_pos]

theorem add_div_page (hr : region % pageSize = 0) (h : (region + size) % pageSize = 0) :
    size % pageSize = 0 ∧ (region + size) / pageSize = region / pageSize + pages size := by
  have hsize : size % pageSize = 0 := by
    rw [Nat.add_mod, hr, Nat.zero_add, Nat.mod_mod] at h
    exact h
  refine ⟨hsize, ?_⟩
  obtain ⟨k, rfl⟩ := Nat.dvd_of_mod_eq_zero hsize
  unfold pages
  rw [Nat.mul_comm, Pages.count_mul pageSize_pos, Nat.add_mul_div_right _ _ pageSize_pos]

/-- whatever fails behind the first mapping, its pages are not foreign, and the others are as they were -/
theorem reserved_pages (object : Option Nat) {sp' : Space}
    (h : sp' = Pages.map sp (region / pageSize) (pages (size + size)) (backing none) ∨
      sp' = Pages.map (Pages.map sp (region / pageSize) (pages (size + size)) (backing none)) (region / pageSize)
        (pages size) (backing object)) (p : Nat) :
    (InRegion region (size + size) p → sp' p ≠ some .foreign) ∧
      (¬ InRegion region (size + size) p → sp' p = sp p) := by
  have hle : pages size ≤ pages (size + size) := Pages.count_mono (Nat.le_add_left _ _)
  have hsome : ∀ o i, some (backing o i) ≠ some .foreign := fun o i h => backing_ne_foreign o i (Option.some.inj h)
  unfold InRegion
  rcases h with rfl | rfl
  · refine ⟨fun hp => ?_, Pages.map_of_not_mem⟩
    rw [Pages.map_of_mem hp]
    exact hsome _ _
  · refine ⟨fun hp => ?_, fun hp => ?_⟩
    · by_cases hp' : region / pageSize ≤ p ∧ p < region / pageSize + pages size
      · rw [Pages.map_of_mem hp']
        exact hsome _ _
      · rw [Pages.map_of_not_mem hp', Pages.map_of_mem hp]
        exact hsome _ _
    · rw [Pages.map_of_not_mem (by omega), Pages.map_of_not_mem hp]

/-- **What `open` has mapped**: the file, once or twice; or nothing; or something that its destructor unmaps. -/
theorem mapRegion_cases (hfirst : ∀ a ∈ answers.first, a % pageSize = 0) :
    mapRegion type size object answers sp = (sp, none, []) ∨
    (∃ a ∈ answers.first, 0 < size ∧ (type = .double → size % pageSize = 0) ∧
      mapRegion type size object answers sp = (Pages.map sp (a / pageSize) (pages (totalSize type size))
        (fun i => backing object (i % pages size)), some a, [])) ∨
    (∃ a ∈ answers.first, ∃ sp', 0 < size ∧
      mapRegion type size object answers sp = (sp', none, munmaps .double a size (size + size)) ∧ type = .double ∧
      ∀ p, (InRegion a (size + size) p → sp' p ≠ some .foreign) ∧
        (¬ InRegion a (size + size) p → sp' p = sp p)) := by
  have hnone : ∀ n r o (sp : Space), mapMemory n r o none sp = (sp, none) := fun n r o sp => by
    unfold mapMemory
    split <;> rfl
  rcases Nat.eq_zero_or_pos size with hsize | hsize
  · refine .inl ?_
    subst hsize
    cases type <;> rfl
  obtain ⟨first, second, third⟩ := answers
  cases first with
  | none =>
    refine .inl ?_
    cases type <;> (unfold mapRegion; simp only [hnone])
  | some a =>
    have ha : a % pageSize = 0 := hfirst a rfl
    have hmap : ∀ n r o (sp : Space), 0 < n → r % pageSize = 0 → ∀ b, mapMemory n r o (some b) sp =
        (Pages.map sp (b / pageSize) (pages n) (backing o), some b) := fun n r o sp hn hr b =>
      if_neg (not_or.mpr ⟨hn.ne', not_not.mpr hr⟩)
    cases type with
    | single =>
      refine .inr (.inl ⟨a, rfl, hsize, nofun, ?_⟩)
      unfold mapRegion
      simp only [hmap size 0 object sp hsize rfl a]
      exact congrArg (fun sp => (sp, some a, [])) (Pages.map_congr fun i hi => by rw [Nat.mod_eq_of_lt hi])
    | double =>
      unfold mapRegion
      simp only [hmap (size + size) 0 none sp (by omega) rfl a]
      cases second with
      | false =>
        simp only [Bool.false_eq_true, if_false, hnone]
        exact .inr (.inr ⟨a, rfl, _, hsize, rfl, trivial, reserved_pages object (.inl rfl)⟩)
      | true =>
        simp only [if_true, hmap size a object _ hsize ha a]
        by_cases hthird : third = true ∧ (a + size) % pageSize = 0
        · obtain ⟨rfl, haligned⟩ := hthird
          obtain ⟨hpage, hdiv⟩ := add_div_page ha haligned
          simp only [if_true, hmap size (a + size) object _ hsize haligned]
          refine .inr (.inl ⟨a, rfl, hsize, fun _ => hpage, ?_⟩)
          rw [hdiv, Pages.map_twice, totalSize, pages_double hpage, Pages.map_map]
        · have hfails : ∀ sp : Space,
              mapMemory size (a + size) object (if third = true then some (a + size) else none) sp =
                (sp, none) := fun sp => by
            unfold mapMemory
            by_cases haligned : (a + size) % pageSize = 0
            · rw [if_neg (not_or.mpr ⟨hsize.ne', not_not.mpr haligned⟩),
                if_neg fun h3 => hthird ⟨h3, haligned⟩]
            · rw [if_pos (.inr haligned)]
          simp only [hfails]
          exact .inr (.inr ⟨a, rfl, _, hsize, rfl, trivial, reserved_pages object (.inr rfl)⟩)

end

/-! ## the invariant -/

/-- the region of an object -/
def Mapped.Sized (o : Mapped) : Prop :=
  o.memory.mappedRegion ≠ 0 → o.memory.mappedRegion % pageSize = 0 ∧ 0 < o.memory.size ∧
    o.memory.totalSize = totalSize o.type o.memory.size ∧ (o.type = .double → o.memory.size % pageSize = 0)

/-- the last call of a destructor is about everything that the others are about -/
def Valid (calls : List (Nat × Nat)) : Prop :=
  ∀ c ∈ calls.getLast?, c.1 % pageSize = 0 ∧ 0 < c.2 ∧
    ∀ d ∈ calls, d.1 % pageSize = 0 → ∀ p, InRegion d.1 d.2 p → InRegion c.1 c.2 p

structure Inv (s : State) : Prop where
  sized : ∀ o, some o ∈ s.objects → o.Sized
  valid : ∀ calls ∈ s.destructors, Valid calls
  /-- a page has one owner -/
  single : ∀ p, s.owners p ≤ 1
  shown : ∀ o p b, some o ∈ s.objects → o.shows p = some b → s.space p = some b
  doomed : ∀ calls ∈ s.destructors, ∀ p, doomed p calls = true → s.space p ≠ some .foreign
  rest : ∀ p, s.owners p = 0 → s.space p = none ∨ s.space p = some .foreign

section
variable {s : State} {o : Mapped} {p : Nat} {calls : List (Nat × Nat)}

theorem init_inv : Inv init where
  sized := nofun
  valid := nofun
  single _ := Nat.zero_le _
  shown := nofun
  doomed := nofun
  rest _ _ := .inl rfl

theorem has_some : has p (some o) = true ↔
    o.memory.mappedRegion ≠ 0 ∧ InRegion o.memory.mappedRegion o.memory.totalSize p := by
  show (o.shows p).isSome = true ↔ _
  unfold Mapped.shows InRegion
  dsimp only
  split <;> simp_all

theorem doomed_of_last {c : Nat × Nat} (hc : calls.getLast? = some c) :
    doomed p calls = true ↔ InRegion c.1 c.2 p := by
  unfold AddressSpace.doomed
  rw [hc]
  exact decide_eq_true_iff

theorem doomed_nil : doomed p [] = false := rfl

/-- the destructor of an object takes over its pages -/
theorem doomed_munmaps (type : MappingType) (region size total : Nat) :
    doomed p (munmaps type region size total) = true ↔ region ≠ 0 ∧ InRegion region total p := by
  unfold munmaps
  split
  · rename_i h0
    exact iff_of_false (by rw [doomed_nil]; exact Bool.false_ne_true) fun h => h.1 h0
  · rename_i h0
    have hlast : ∀ calls, calls.getLast? = some (region, total) →
        (doomed p calls = true ↔ region ≠ 0 ∧ InRegion region total p) :=
      fun calls hc => (doomed_of_last hc).trans ⟨fun h => ⟨h0, h⟩, And.right⟩
    cases type <;> exact hlast _ rfl

theorem valid_munmaps (type : MappingType) {region size : Nat} (hr : region % pageSize = 0) (hsize : 0 < size) :
    Valid (munmaps type region size (totalSize type size)) := by
  unfold munmaps
  split
  · exact nofun
  · cases type with
    | single =>
      intro c hc
      obtain rfl : (region, size) = c := Option.some.inj hc
      refine ⟨hr, hsize, fun d hd _ p hp => ?_⟩
      rw [List.mem_singleton.mp hd] at hp
      exact hp
    | double =>
      intro c hc
      obtain rfl : (region, size + size) = c := Option.some.inj hc
      refine ⟨hr, Nat.add_pos_left hsize _, fun d hd hd' p hp => ?_⟩
      simp only [List.mem_cons, List.not_mem_nil, or_false] at hd
      unfold InRegion at hp ⊢
      rcases hd with rfl | rfl | rfl
      · have hle : pages size ≤ pages (size + size) := Pages.count_mono (Nat.le_add_left _ _)
        dsimp only at hp ⊢
        omega
      · obtain ⟨hpage, hdiv⟩ := add_div_page hr hd'
        have hpages := pages_double hpage
        dsimp only at hp ⊢
        omega
      · exact hp

theorem Mapped.Sized.valid (h : o.Sized) :
    Valid (munmaps o.type o.memory.mappedRegion o.memory.size o.memory.totalSize) := by
  by_cases h0 : o.memory.mappedRegion = 0
  · have hnil : munmaps o.type o.memory.mappedRegion o.memory.size o.memory.totalSize = [] := if_pos h0
    rw [hnil]
    exact nofun
  · obtain ⟨hr, hsize, htotal, -⟩ := h h0
    rw [htotal]
    exact valid_munmaps _ hr hsize

/-! ## one step -/

theorem object_eq_some {k : Nat} : s.object k = some o ↔ s.objects[k]? = some (some o) := Option.join_eq_some_iff

/-- a page that is free, and that no destructor is at, has no owner -/
theorem Inv.owners_eq_zero (h : Inv s) (hfree : s.space p = none)
    (hclear : ∀ calls ∈ s.destructors, AddressSpace.doomed p calls = false) : s.owners p = 0 := by
  have hobjects : s.objects.countP (has p) = 0 := by
    rw [List.countP_eq_zero]
    intro o ho hhas
    cases o with
    | none => cases hhas
    | some o =>
      obtain ⟨b, hb⟩ := Option.isSome_iff_exists.mp hhas
      rw [h.shown o p b ho hb] at hfree
      cases hfree
  have hdestructors : s.destructors.countP (AddressSpace.doomed p) = 0 := by
    rw [List.countP_eq_zero]
    intro calls hcalls hdoomed
    rw [hclear calls hcalls] at hdoomed
    cases hdoomed
  unfold State.owners
  omega

theorem owners_pos_of_has (ho : some o ∈ s.objects) (hp : has p (some o) = true) : 0 < s.owners p :=
  Nat.add_pos_left (List.countP_pos_iff.mpr ⟨_, ho, hp⟩) _

theorem owners_pos_of_doomed (hc : calls ∈ s.destructors) (hp : AddressSpace.doomed p calls = true) :
    0 < s.owners p := Nat.add_pos_right _ (List.countP_pos_iff.mpr ⟨_, hc, hp⟩)

/-- the rest of the process changes pages without an owner only -/
theorem Inv.of_space {sp : Space} (h : Inv s) (hkept : ∀ p, 0 < s.owners p → sp p = s.space p)
    (hrest : ∀ p, s.owners p = 0 → sp p = none ∨ sp p = some .foreign) : Inv { s with space := sp } := by
  refine ⟨h.sized, h.valid, h.single, fun o p b ho hb => ?_, fun calls hcalls p hp => ?_, hrest⟩
  · exact (hkept p (owners_pos_of_has ho (Option.isSome_iff_exists.mpr ⟨b, hb⟩))).trans (h.shown o p b ho hb)
  · show sp p ≠ _
    rw [hkept p (owners_pos_of_doomed hcalls hp)]
    exact h.doomed calls hcalls p hp

theorem Inv.add_object {sp : Space} {w : World} (h : Inv s) (ho : o.Sized)
    (hnew : ∀ p, has p (some o) = true → s.owners p = 0) (hshown : ∀ p b, o.shows p = some b → sp p = some b)
    (hothers : ∀ p, has p (some o) = false → sp p = s.space p) :
    Inv { s with world := w, space := sp, objects := s.objects ++ [some o] } := by
  have hkept : ∀ p, 0 < s.owners p → sp p = s.space p := fun p hp =>
    hothers p (Bool.eq_false_iff.mpr fun hhas => by have h0 := hnew p hhas; omega)
  have howners : ∀ p, State.owners { s with world := w, space := sp, objects := s.objects ++ [some o] } p =
      s.owners p + if has p (some o) then 1 else 0 := fun p => by
    unfold State.owners
    rw [List.countP_append, List.countP_singleton, Nat.add_right_comm]
  refine ⟨?_, h.valid, fun p => ?_, ?_, ?_, fun p hp => ?_⟩
  · intro o' ho'
    rcases List.mem_append.mp ho' with ho' | ho'
    · exact h.sized o' ho'
    · exact Option.some.inj (List.mem_singleton.mp ho') ▸ ho
  · rw [howners]
    split
    · rw [hnew p ‹_›]
    · exact h.single p
  · intro o' p b ho' hb
    rcases List.mem_append.mp ho' with ho' | ho'
    · rw [← h.shown o' p b ho' hb]
      exact hkept p (owners_pos_of_has ho' (Option.isSome_iff_exists.mpr ⟨b, hb⟩))
    · exact hshown p b (Option.some.inj (List.mem_singleton.mp ho') ▸ hb)
  · intro calls hcalls p hp
    show sp p ≠ _
    rw [hkept p (owners_pos_of_doomed hcalls hp)]
    exact h.doomed calls hcalls p hp
  · rw [howners] at hp
    have hhas : has p (some o) = false := by
      by_contra hhas
      rw [if_pos (Bool.not_eq_false _ ▸ hhas)] at hp
      omega
    show sp p = none ∨ sp p = _
    rw [hothers p hhas]
    exact h.rest p (by omega)

theorem Inv.add_destructor {sp : Space} {w : World} (h : Inv s) (hv : Valid calls)
    (hnew : ∀ p, AddressSpace.doomed p calls = true → s.owners p = 0)
    (hdoomed : ∀ p, AddressSpace.doomed p calls = true → sp p ≠ some .foreign)
    (hothers : ∀ p, AddressSpace.doomed p calls = false → sp p = s.space p) :
    Inv { s with world := w, space := sp, destructors := s.destructors ++ [calls] } := by
  have hkept : ∀ p, 0 < s.owners p → sp p = s.space p := fun p hp =>
    hothers p (Bool.eq_false_iff.mpr fun hd => by have h0 := hnew p hd; omega)
  have howners : ∀ p, State.owners { s with world := w, space := sp, destructors := s.destructors ++ [calls] } p =
      s.owners p + if AddressSpace.doomed p calls then 1 else 0 := fun p => by
    unfold State.owners
    rw [List.countP_append, List.countP_singleton, Nat.add_assoc]
  refine ⟨h.sized, ?_, fun p => ?_, ?_, ?_, fun p hp => ?_⟩
  · intro calls' hcalls
    rcases List.mem_append.mp hcalls with hcalls | hcalls
    · exact h.valid calls' hcalls
    · exact List.mem_singleton.mp hcalls ▸ hv
  · rw [howners]
    split
    · rw [hnew p ‹_›]
    · exact h.single p
  · intro o p b ho hb
    show sp p = _
    rw [hkept p (owners_pos_of_has ho (Option.isSome_iff_exists.mpr ⟨b, hb⟩))]
    exact h.shown o p b ho hb
  · intro calls' hcalls p hp
    rcases List.mem_append.mp hcalls with hcalls | hcalls
    · show sp p ≠ _
      rw [hkept p (owners_pos_of_doomed hcalls hp)]
      exact h.doomed calls' hcalls p hp
    · exact hdoomed p (List.mem_singleton.mp hcalls ▸ hp)
  · rw [howners] at hp
    have hd : AddressSpace.doomed p calls = false := by
      by_contra hd
      rw [if_pos (Bool.not_eq_false _ ▸ hd)] at hp
      omega
    show sp p = none ∨ sp p = _
    rw [hothers p hd]
    exact h.rest p (by omega)

theorem Inv.of_owners {s' : State} (h : Inv s) (hspace : s'.space = s.space) (howners : ∀ p, s'.owners p = s.owners p)
    (hobjects : ∀ o, some o ∈ s'.objects → o.Sized ∧ ∀ p b, o.shows p = some b → s.space p = some b)
    (hdestructors : ∀ calls ∈ s'.destructors, Valid calls ∧
      ∀ p, AddressSpace.doomed p calls = true → s.space p ≠ some .foreign) : Inv s' where
  sized o ho := (hobjects o ho).1
  valid calls hcalls := (hdestructors calls hcalls).1
  single p := howners p ▸ h.single p
  shown o p b ho hb := hspace ▸ (hobjects o ho).2 p b hb
  doomed calls hcalls p hp := hspace ▸ (hdestructors calls hcalls).2 p hp
  rest p hp := hspace ▸ h.rest p (howners p ▸ hp)

theorem Mapped.Sized.of_zero (h : o.memory.mappedRegion = 0) : o.Sized := fun h0 => absurd h h0

theorem shows_of_zero (h : o.memory.mappedRegion = 0) (p : Nat) : o.shows p = none := if_neg fun hp => hp.1 h

theorem shows_ne_foreign : o.shows p ≠ some .foreign := by
  unfold Mapped.shows
  dsimp only
  split
  · exact fun h => backing_ne_foreign _ _ (Option.some.inj h)
  · nofun

/-- a call of `munmap` changes pages of its range only, and takes them away -/
theorem munmap_cases (addr length : Nat) (sp : Space) (p : Nat) :
    munmap addr length sp p = sp p ∧ ¬ (0 < length ∧ addr % pageSize = 0 ∧ InRegion addr length p) ∨
    munmap addr length sp p = none ∧ 0 < length ∧ addr % pageSize = 0 ∧ InRegion addr length p := by
  unfold munmap InRegion
  split
  · exact .inl ⟨rfl, by omega⟩
  · by_cases hp : addr / pageSize ≤ p ∧ p < addr / pageSize + pages length
    · exact .inr ⟨Pages.unmap_of_mem hp, by omega, by omega, hp⟩
    · exact .inl ⟨Pages.unmap_of_not_mem hp, fun h => hp h.2.2⟩

theorem Valid.tail {c : Nat × Nat} (h : Valid (c :: calls)) : Valid calls := fun last hlast => by
  have hlast' : (c :: calls).getLast? = some last := by
    rw [List.getLast?_cons, hlast]
    rfl
  obtain ⟨hpage, hpos, hall⟩ := h last hlast'
  exact ⟨hpage, hpos, fun d hd => hall d (List.mem_cons_of_mem _ hd)⟩

/-- all that a destructor has unmapped when its last call returns -/
theorem doomed_tail {c : Nat × Nat} (h : calls ≠ []) : doomed p (c :: calls) = doomed p calls := by
  obtain ⟨last, hlast⟩ := Option.ne_none_iff_exists'.mp (mt List.getLast?_eq_none_iff.mp h)
  unfold AddressSpace.doomed
  rw [List.getLast?_cons, hlast]
  rfl

/-- what is mapped for an object is what it shows -/
theorem map_eq_or (h0 : o.memory.mappedRegion ≠ 0) (sp : Space) (p : Nat) :
    Pages.map sp (o.memory.mappedRegion / pageSize) (pages o.memory.totalSize)
      (fun i => backing o.object (i % pages o.memory.size)) p = (o.shows p).or (sp p) := by
  unfold Pages.map Mapped.shows
  dsimp only
  by_cases hp : o.memory.mappedRegion / pageSize ≤ p ∧
      p < o.memory.mappedRegion / pageSize + pages o.memory.totalSize
  · rw [if_pos hp, if_pos ⟨h0, hp⟩]
    rfl
  · rw [if_neg hp, if_neg fun h => hp h.2]
    rfl

theorem has_congr {o' : Mapped} (h : o'.shows p = o.shows p) : has p (some o') = has p (some o) :=
  congrArg Option.isSome h

theorem has_of_zero (h : o.memory.mappedRegion = 0) (p : Nat) : has p (some o) = false :=
  congrArg Option.isSome (shows_of_zero h p)

theorem Inv.moveConstruct {j : Nat} (h : Inv s) (hj : s.object j = some o) : Inv (s.moveConstruct j o) := by
  have hj' := object_eq_some.mp hj
  have hmem : some o ∈ s.objects := List.mem_of_getElem? hj'
  refine h.of_owners rfl (fun p => ?_) (fun o' ho' => ?_)
    fun calls hcalls => ⟨h.valid calls hcalls, h.doomed calls hcalls⟩
  · have hset := countP_set (has p) hj' (some ⟨o.type, o.memory.moveConstruct.2, none⟩)
    rw [has_of_zero (o := ⟨o.type, o.memory.moveConstruct.2, none⟩) rfl p, if_neg Bool.false_ne_true] at hset
    show List.countP _ (_ ++ _) + _ = _
    rw [List.countP_append, List.countP_singleton]
    unfold State.owners
    exact congrArg (· + _) hset
  · rcases List.mem_append.mp ho' with ho' | ho'
    · rcases mem_set_cases ho' with ho' | ⟨i, -, hi⟩
      · obtain rfl := Option.some.inj ho'
        refine ⟨.of_zero rfl, fun p b hb => ?_⟩
        rw [shows_of_zero (by rfl) p] at hb
        cases hb
      · exact ⟨h.sized o' (List.mem_of_getElem? hi), fun p b => h.shown o' p b (List.mem_of_getElem? hi)⟩
    · obtain rfl := Option.some.inj (List.mem_singleton.mp ho')
      exact ⟨h.sized o hmem, fun p b => h.shown o p b hmem⟩

theorem Inv.moveAssign {j k : Nat} {other : Mapped} (h : Inv s) (hk : s.object k = some o)
    (hj : s.object j = some other) (hkj : k ≠ j) (htype : o.type = other.type) :
    Inv (s.moveAssign k j o other) := by
  have hk' := object_eq_some.mp hk
  have hj' := object_eq_some.mp hj
  have hmem := List.mem_of_getElem? hk'
  have hmem' := List.mem_of_getElem? hj'
  let new : Mapped := ⟨o.type, (o.memory.moveAssign other.memory s.world).2.1, other.object⟩
  let old : Mapped := ⟨other.type, (o.memory.moveAssign other.memory s.world).2.2, o.object⟩
  refine h.of_owners rfl (fun p => ?_) (fun o' ho' => ?_)
    fun calls hcalls => ⟨h.valid calls hcalls, h.doomed calls hcalls⟩
  · have hset := countP_set (has p) hk' (some new)
    have hset' := countP_set (has p) (l := s.objects.set k (some new)) (k := j) (x := some other)
      ((List.getElem?_set_ne hkj).trans hj') (some old)
    have hnew : has p (some new) = has p (some other) := has_congr rfl
    have hold : has p (some old) = has p (some o) := has_congr rfl
    rw [hnew] at hset
    rw [hold] at hset'
    show List.countP _ _ + _ = List.countP _ _ + _
    refine congrArg (· + _) ?_
    show ((s.objects.set k (some new)).set j (some old)).countP (has p) = _
    omega
  · rcases mem_set_cases ho' with ho' | ⟨i, hi, hset⟩
    · obtain rfl := Option.some.inj ho'
      refine ⟨fun h0 => ?_, fun p b => h.shown o p b hmem⟩
      obtain ⟨hr, hsize, htotal, hdouble⟩ := h.sized o hmem h0
      exact ⟨hr, hsize, htype ▸ htotal, htype ▸ hdouble⟩
    · rcases mem_set_cases (List.mem_of_getElem? hset) with ho' | ⟨i, -, hi⟩
      · obtain rfl := Option.some.inj ho'
        refine ⟨fun h0 => ?_, fun p b => h.shown other p b hmem'⟩
        obtain ⟨hr, hsize, htotal, hdouble⟩ := h.sized other hmem' h0
        exact ⟨hr, hsize, htype ▸ htotal, htype ▸ hdouble⟩
      · exact ⟨h.sized o' (List.mem_of_getElem? hi), fun p b => h.shown o' p b (List.mem_of_getElem? hi)⟩

theorem Inv.destroy {k : Nat} (h : Inv s) (hk : s.object k = some o) : Inv (s.destroy k o) := by
  have hk' := object_eq_some.mp hk
  have hmem : some o ∈ s.objects := List.mem_of_getElem? hk'
  let calls := munmaps o.type o.memory.mappedRegion o.memory.size o.memory.totalSize
  have hcalls : ∀ p, AddressSpace.doomed p calls = has p (some o) := fun p =>
    Bool.eq_iff_iff.mpr ((doomed_munmaps _ _ _ _).trans has_some.symm)
  refine h.of_owners rfl (fun p => ?_) (fun o' ho' => ?_) fun calls' hcalls' => ?_
  · have hset := countP_set (has p) hk' none
    rw [show has p none = false from rfl, if_neg Bool.false_ne_true] at hset
    show List.countP _ _ + List.countP _ (_ ++ [calls]) = _
    rw [List.countP_append, List.countP_singleton, hcalls, ← Nat.add_assoc, Nat.add_right_comm]
    exact congrArg (· + _) hset
  · rcases mem_set_cases ho' with ho' | ⟨i, -, hi⟩
    · cases ho'
    · exact ⟨h.sized o' (List.mem_of_getElem? hi), fun p b => h.shown o' p b (List.mem_of_getElem? hi)⟩
  · rcases List.mem_append.mp hcalls' with hcalls' | hcalls'
    · exact ⟨h.valid calls' hcalls', h.doomed calls' hcalls'⟩
    · obtain rfl := List.mem_singleton.mp hcalls'
      refine ⟨(h.sized o hmem).valid, fun p hp => ?_⟩
      obtain ⟨b, hb⟩ := Option.isSome_iff_exists.mp ((hcalls p).symm.trans hp)
      rw [h.shown o p b hmem hb, ← hb]
      exact shows_ne_foreign

theorem Inv.doomed_of_call {j : Nat} {c : Nat × Nat} (h : Inv s) (hj : s.destructors[j]? = some (c :: calls))
    (hc : c.1 % pageSize = 0) (hp : InRegion c.1 c.2 p) : AddressSpace.doomed p (c :: calls) = true := by
  obtain ⟨last, hlast⟩ : ∃ last, (c :: calls).getLast? = some last :=
    Option.ne_none_iff_exists'.mp (mt List.getLast?_eq_none_iff.mp (List.cons_ne_nil _ _))
  exact (doomed_of_last hlast).mpr
    ((h.valid _ (List.mem_of_getElem? hj) last hlast).2.2 c List.mem_cons_self hc p hp)

/-- a destructor unmaps pages of its own, and its last call all that it has -/
theorem Inv.munmap {j : Nat} {c : Nat × Nat} (h : Inv s) (hj : s.destructors[j]? = some (c :: calls)) :
    Inv { s with space := AddressSpace.munmap c.1 c.2 s.space, destructors := s.destructors.set j calls } := by
  have hmem : c :: calls ∈ s.destructors := List.mem_of_getElem? hj
  have hset := fun p => countP_set (AddressSpace.doomed p) hj calls
  have htail : ∀ p, AddressSpace.doomed p calls = true → AddressSpace.doomed p (c :: calls) = true := fun p hp =>
    (doomed_tail fun hnil => by rw [hnil] at hp; cases hp).trans hp
  refine ⟨h.sized, fun calls' hcalls' => ?_, fun p => ?_, fun o p b ho hb => ?_, fun calls' hcalls' p hp => ?_,
    fun p hp => ?_⟩
  · rcases mem_set_cases hcalls' with rfl | ⟨i, -, hi⟩
    · exact (h.valid _ hmem).tail
    · exact h.valid calls' (List.mem_of_getElem? hi)
  · refine le_trans (Nat.add_le_add_left ?_ _) (h.single p)
    have hle : (if AddressSpace.doomed p calls then 1 else 0) ≤
        if AddressSpace.doomed p (c :: calls) then 1 else 0 := by
      split
      · rw [if_pos (htail p ‹_›)]
      · exact Nat.zero_le _
    have hset := hset p
    show (s.destructors.set j calls).countP _ ≤ _
    omega
  · rcases munmap_cases c.1 c.2 s.space p with ⟨hsame, -⟩ | ⟨-, -, hc, hr⟩
    · exact hsame.trans (h.shown o p b ho hb)
    · -- the page would have two owners
      have hobject : 0 < s.objects.countP (has p) :=
        List.countP_pos_iff.mpr ⟨some o, ho, Option.isSome_iff_exists.mpr ⟨b, hb⟩⟩
      have hdestructor : 0 < s.destructors.countP (AddressSpace.doomed p) :=
        List.countP_pos_iff.mpr ⟨_, hmem, h.doomed_of_call hj hc hr⟩
      have hsingle := h.single p
      unfold State.owners at hsingle
      omega
  · have hold : s.space p ≠ some .foreign := by
      rcases mem_set_cases hcalls' with rfl | ⟨i, -, hi⟩
      · exact h.doomed _ hmem p (htail p hp)
      · exact h.doomed _ (List.mem_of_getElem? hi) p hp
    rcases munmap_cases c.1 c.2 s.space p with ⟨hsame, -⟩ | ⟨hnone, -⟩
    · exact fun hforeign => hold (hsame ▸ hforeign)
    · exact fun hforeign => Option.some_ne_none _ (hforeign.symm.trans hnone)
  · rcases munmap_cases c.1 c.2 s.space p with ⟨hsame, hout⟩ | ⟨hnone, -⟩
    · have hfree : AddressSpace.doomed p (c :: calls) = AddressSpace.doomed p calls := by
        by_cases hnil : calls = []
        · subst hnil
          obtain ⟨hpage, hpos, -⟩ := h.valid _ hmem c rfl
          exact Bool.eq_false_iff.mpr fun hd => hout ⟨hpos, hpage, (doomed_of_last rfl).mp hd⟩
        · exact doomed_tail hnil
      have hset := hset p
      rw [hfree] at hset
      have hp : s.owners p = 0 := (congrArg (_ + ·) (Nat.add_right_cancel hset)).symm.trans hp
      show AddressSpace.munmap c.1 c.2 s.space p = none ∨ AddressSpace.munmap c.1 c.2 s.space p = _
      rw [hsame]
      exact h.rest p hp
    · exact .inl hnone

theorem Inv.openMemory {type : MappingType} {file : File} {accessMode : AccessMode} {object : Option Nat}
    {answers : Answers} (h : Inv s) (hfresh : ∀ a ∈ answers.first, s.Fresh a (totalSize type file.size))
    (hclear : s.Clear (.open type file accessMode object answers)) :
    Inv (s.openMemory type file accessMode object answers) := by
  -- the range that `mmap` finds has no owner
  have hfree : ∀ a ∈ answers.first, ∀ p, InRegion a (totalSize type file.size) p → s.owners p = 0 :=
    fun a ha p hp => by
      have hi : a / pageSize + (p - a / pageSize) = p := Nat.add_sub_cancel' hp.1
      have hlt : p - a / pageSize < pages (totalSize type file.size) := Nat.sub_lt_left_of_lt_add hp.1 hp.2
      exact h.owners_eq_zero (hi ▸ (hfresh a ha).2.2 _ hlt) fun calls hcalls => hi ▸ hclear a ha calls hcalls _ hlt
  unfold State.openMemory MappedMemory.open
  split
  · exact h
  · have hcases : mapRegion type file.size object answers s.space = _ ∨ _ :=
      mapRegion_cases fun a ha => (hfresh a ha).2.1
    rcases hcases with hmap | ⟨a, ha, hsize, hpage, hmap⟩ | ⟨a, ha, sp', hsize, hmap, rfl, hsp⟩
    · simp only [hmap]
      refine h.add_destructor nofun (fun p hp => ?_) (fun p hp => ?_) fun p _ => rfl
      · cases hp
      · cases hp
    · simp only [hmap]
      obtain ⟨h0, hr, -⟩ := hfresh a ha
      let new : Mapped := ⟨type, ⟨a, file.size, totalSize type file.size, file.moveConstruct.1⟩, object⟩
      have hspace := map_eq_or (o := new) h0 s.space
      refine h.add_object (o := new) (fun _ => ⟨hr, hsize, rfl, hpage⟩) (fun p hp => ?_) (fun p b hb => ?_)
        fun p hp => ?_
      · exact hfree a ha p (has_some.mp hp).2
      · exact (hspace p).trans (by rw [hb]; rfl)
      · have hnone : new.shows p = none := Option.not_isSome_iff_eq_none.mp (Bool.eq_false_iff.mp hp)
        exact (hspace p).trans (by rw [hnone]; rfl)
    · simp only [hmap]
      obtain ⟨h0, hr, -⟩ := hfresh a ha
      have hdoomed := fun p => doomed_munmaps (p := p) .double a file.size (file.size + file.size)
      refine h.add_destructor (valid_munmaps .double hr hsize) (fun p hp => ?_) (fun p hp => ?_) fun p hp => ?_
      · exact hfree a ha p ((hdoomed p).mp hp).2
      · exact (hsp p).1 ((hdoomed p).mp hp).2
      · refine (hsp p).2 fun hr => ?_
        rw [(hdoomed p).mpr ⟨h0, hr⟩] at hp
        cases hp

theorem Inv.ne_foreign (h : Inv s) (hp : 0 < s.owners p) : s.space p ≠ some .foreign := by
  unfold State.owners at hp
  rcases Nat.add_pos_iff_pos_or_pos.mp hp with hp | hp
  · obtain ⟨o, ho, hhas⟩ := List.countP_pos_iff.mp hp
    obtain ⟨o, rfl⟩ : ∃ o', o = some o' :=
      Option.ne_none_iff_exists'.mp fun hnone => by rw [hnone] at hhas; cases hhas
    obtain ⟨b, hb⟩ := Option.isSome_iff_exists.mp hhas
    rw [h.shown o p b ho hb, ← hb]
    exact shows_ne_foreign
  · obtain ⟨calls, hcalls, hdoomed⟩ := List.countP_pos_iff.mp hp
    exact h.doomed calls hcalls p hdoomed

theorem Inv.foreignMap {q n : Nat} (h : Inv s) (hfree : ∀ i < n, s.space (q + i) = none)
    (hclear : s.Clear (.foreignMap q n)) : Inv { s with space := Pages.map s.space q n fun _ => .foreign } := by
  have hzero : ∀ p, q ≤ p ∧ p < q + n → s.owners p = 0 := fun p hp => by
    have hi : q + (p - q) = p := Nat.add_sub_cancel' hp.1
    have hlt : p - q < n := Nat.sub_lt_left_of_lt_add hp.1 hp.2
    exact h.owners_eq_zero (hi ▸ hfree _ hlt) fun calls hcalls => hi ▸ hclear calls hcalls _ hlt
  refine h.of_space (fun p hp => Pages.map_of_not_mem fun hr => ?_) fun p hp => ?_
  · have h0 := hzero p hr
    omega
  · by_cases hr : q ≤ p ∧ p < q + n
    · exact .inr (Pages.map_of_mem hr)
    · rw [Pages.map_of_not_mem hr]
      exact h.rest p hp

theorem Inv.foreignUnmap {q n : Nat} (h : Inv s) (hforeign : ∀ i < n, s.space (q + i) = some .foreign) :
    Inv { s with space := Pages.unmap s.space q n } := by
  refine h.of_space (fun p hp => Pages.unmap_of_not_mem fun hr => h.ne_foreign hp ?_) fun p hp => ?_
  · rw [← Nat.add_sub_cancel' hr.1]
    exact hforeign _ (Nat.sub_lt_left_of_lt_add hr.1 hr.2)
  · by_cases hr : q ≤ p ∧ p < q + n
    · exact .inl (Pages.unmap_of_mem hr)
    · rw [Pages.unmap_of_not_mem hr]
      exact h.rest p hp

theorem Inv.step {a : Action} {s' : State} (h : Inv s) (hclear : s.Clear a) (hs : s.step a = some s') : Inv s' := by
  cases a with
  | «open» type file accessMode object answers =>
    simp only [State.step] at hs
    split at hs
    · rename_i hfresh
      exact Option.some.inj hs ▸ h.openMemory hfresh hclear
    · cases hs
  | moveConstruct j =>
    obtain ⟨o, ho, rfl⟩ := Option.map_eq_some_iff.mp hs
    exact h.moveConstruct ho
  | moveAssign k j =>
    obtain ⟨o, ho, hs⟩ := Option.bind_eq_some_iff.mp hs
    obtain ⟨other, hother, hs⟩ := Option.bind_eq_some_iff.mp hs
    split at hs
    · exact Option.some.inj hs ▸ h
    · rename_i hkj
      split at hs
      · rename_i ht ht'
        exact Option.some.inj hs ▸ h.moveAssign ho hother hkj (ht.trans ht'.symm)
      · rename_i ht ht'
        exact Option.some.inj hs ▸ h.moveAssign ho hother hkj (ht.trans ht'.symm)
      · cases hs
  | destroy k =>
    obtain ⟨o, ho, rfl⟩ := Option.map_eq_some_iff.mp hs
    exact h.destroy ho
  | munmap j =>
    simp only [State.step] at hs
    split at hs
    · rename_i hj
      exact Option.some.inj hs ▸ h.munmap hj
    · cases hs
  | foreignMap q n =>
    simp only [State.step] at hs
    split at hs
    · rename_i hfree
      exact Option.some.inj hs ▸ h.foreignMap hfree hclear
    · cases hs
  | foreignUnmap q n =>
    simp only [State.step] at hs
    split at hs
    · rename_i hforeign
      exact Option.some.inj hs ▸ h.foreignUnmap hforeign
    · cases hs

theorem openMemory_foreign {type : MappingType} {file : File} {accessMode : AccessMode} {object : Option Nat}
    {answers : Answers} (hfresh : ∀ a ∈ answers.first, s.Fresh a (totalSize type file.size))
    (hp : s.space p = some .foreign) :
    (s.openMemory type file accessMode object answers).space p = some .foreign := by
  have hout : ∀ a ∈ answers.first, ¬ InRegion a (totalSize type file.size) p := fun a ha hr => by
    have hnone := (hfresh a ha).2.2 _ (Nat.sub_lt_left_of_lt_add hr.1 hr.2)
    rw [Nat.add_sub_cancel' hr.1, hp] at hnone
    cases hnone
  unfold State.openMemory MappedMemory.open
  split
  · exact hp
  · have hcases : mapRegion type file.size object answers s.space = _ ∨ _ :=
      mapRegion_cases fun a ha => (hfresh a ha).2.1
    rcases hcases with hmap | ⟨a, ha, -, -, hmap⟩ | ⟨a, ha, sp', -, hmap, rfl, hsp⟩
    · simp only [hmap]
      exact hp
    · simp only [hmap]
      exact (Pages.map_of_not_mem (hout a ha)).trans hp
    · simp only [hmap]
      exact ((hsp p).2 (hout a ha)).trans hp

theorem Inv.foreign_kept {a : Action} {s' : State} (h : Inv s) (hs : s.step a = some s')
    (hp : s.space p = some .foreign) :
    s'.space p = some .foreign ∨ ∃ q n, a = .foreignUnmap q n ∧ q ≤ p ∧ p < q + n := by
  cases a with
  | «open» type file accessMode object answers =>
    simp only [State.step] at hs
    split at hs
    · rename_i hfresh
      exact .inl (Option.some.inj hs ▸ openMemory_foreign hfresh hp)
    · cases hs
  | moveConstruct j =>
    obtain ⟨o, -, rfl⟩ := Option.map_eq_some_iff.mp hs
    exact .inl hp
  | moveAssign k j =>
    obtain ⟨o, -, hs⟩ := Option.bind_eq_some_iff.mp hs
    obtain ⟨other, -, hs⟩ := Option.bind_eq_some_iff.mp hs
    split at hs
    · exact .inl (Option.some.inj hs ▸ hp)
    · split at hs
      · exact .inl (Option.some.inj hs ▸ hp)
      · exact .inl (Option.some.inj hs ▸ hp)
      · cases hs
  | destroy k =>
    obtain ⟨o, -, rfl⟩ := Option.map_eq_some_iff.mp hs
    exact .inl hp
  | munmap j =>
    simp only [State.step] at hs
    split at hs
    · rename_i c calls hj
      refine .inl (Option.some.inj hs ▸ ?_)
      rcases munmap_cases c.1 c.2 s.space p with ⟨hsame, -⟩ | ⟨-, -, hc, hr⟩
      · exact hsame.trans hp
      · exact absurd hp (h.doomed _ (List.mem_of_getElem? hj) p (h.doomed_of_call hj hc hr))
    · cases hs
  | foreignMap q n =>
    simp only [State.step] at hs
    split at hs
    · rename_i hfree
      have hout : ¬ (q ≤ p ∧ p < q + n) := fun hr => by
        have hnone := hfree _ (Nat.sub_lt_left_of_lt_add hr.1 hr.2)
        rw [Nat.add_sub_cancel' hr.1, hp] at hnone
        cases hnone
      exact .inl (Option.some.inj hs ▸ (Pages.map_of_not_mem (f := fun _ => .foreign) hout).trans hp)
    · cases hs
  | foreignUnmap q n =>
    simp only [State.step] at hs
    split at hs
    · by_cases hr : q ≤ p ∧ p < q + n
      · exact .inr ⟨q, n, rfl, hr⟩
      · exact .inl (Option.some.inj hs ▸ (Pages.unmap_of_not_mem hr).trans hp)
    · cases hs

/-! ## what the addresses of an object show -/

theorem Inv.byte (h : Inv s) (ho : some o ∈ s.objects) (h0 : o.memory.mappedRegion ≠ 0) {x : Nat}
    (hx : x < o.memory.totalSize) : Pages.byte s.space pageSize (o.memory.mappedRegion + x) =
      some (backing o.object (x % o.memory.size / pageSize), x % o.memory.size % pageSize) := by
  obtain ⟨hr, hsize, htotal, hdouble⟩ := h.sized o ho h0
  obtain ⟨r, hr'⟩ := Nat.dvd_of_mod_eq_zero hr
  have hdiv : o.memory.mappedRegion / pageSize = r := by
    rw [hr', Nat.mul_div_cancel_left _ pageSize_pos]
  have hpage : x / pageSize < pages o.memory.totalSize :=
    (Pages.lt_count_iff pageSize_pos _ _).mpr (lt_of_le_of_lt (Nat.div_mul_le_self x pageSize) hx)
  have hshows : o.shows (r + x / pageSize) = some (backing o.object (x / pageSize % pages o.memory.size)) := by
    unfold Mapped.shows
    dsimp only
    rw [hdiv, if_pos ⟨h0, Nat.le_add_right _ _, Nat.add_lt_add_left hpage _⟩, Nat.add_sub_cancel_left]
  rw [hr', Nat.mul_comm, Pages.byte_add pageSize_pos, h.shown o _ _ ho hshows]
  show some _ = some _
  -- the file repeats behind its last byte if that is the end of a page, or there is nothing behind it
  have hmod : x / pageSize % pages o.memory.size = x % o.memory.size / pageSize ∧
      x % pageSize = x % o.memory.size % pageSize := by
    cases ht : o.type with
    | single =>
      have hsingle : o.memory.totalSize = o.memory.size := htotal.trans (by rw [ht, totalSize])
      rw [hsingle] at hx hpage
      rw [Nat.mod_eq_of_lt hpage, Nat.mod_eq_of_lt hx]
      exact ⟨rfl, rfl⟩
    | double =>
      obtain ⟨k, hk⟩ := Nat.dvd_of_mod_eq_zero (hdouble ht)
      have hpages : pages o.memory.size = k := by
        rw [hk, Nat.mul_comm]
        exact Pages.count_mul pageSize_pos k
      rw [hpages, hk]
      exact ⟨(Nat.mod_mul_right_div_self x pageSize k).symm, (Nat.mod_mul_right_mod x pageSize k).symm⟩
  rw [hmod.1, hmod.2]

end

/-! ## the results -/

/-- **Mapped memories in a process.**  As long as nothing is mapped where a destructor is at work: a mapped memory
has its size once or twice, and shows its file once or twice in a row; every page that is not foreign belongs to one mapped memory or destructor;
and a foreign page stays, unless the rest of the process unmaps it. -/
theorem mappings_kept {as : List Action} {s : State} (hclear : Every State.step State.Clear init as)
    (hrun : run State.step init as = some s) :
    (∀ k o, s.object k = some o → o.memory.mappedRegion ≠ 0 →
      o.memory.totalSize = totalSize o.type o.memory.size ∧ ∀ x < o.memory.totalSize,
        Pages.byte s.space pageSize (o.memory.mappedRegion + x) =
          some (backing o.object (x % o.memory.size / pageSize), x % o.memory.size % pageSize)) ∧
    (∀ p b, s.space p = some b → b ≠ .foreign → s.owners p = 1) ∧
    ∀ a s', s.step a = some s' → ∀ p, s.space p = some .foreign →
      s'.space p = some .foreign ∨ ∃ q n, a = .foreignUnmap q n ∧ q ≤ p ∧ p < q + n := by
  have h : Inv s := run_inv_of_every (fun _ _ _ hI hC ht => hI.step hC ht) as init_inv hclear hrun
  refine ⟨fun k o ho h0 => ?_, fun p b hb hne => ?_, fun a s' hs p hp => h.foreign_kept hs hp⟩
  · have hmem : some o ∈ s.objects := List.mem_of_getElem? (object_eq_some.mp ho)
    exact ⟨(h.sized o hmem h0).2.2.1, fun x hx => h.byte hmem h0 hx⟩
  · refine le_antisymm (h.single p) (Nat.pos_of_ne_zero fun h0 => ?_)
    rcases h.rest p h0 with hnone | hforeign
    · rw [hb] at hnone
      cases hnone
    · rw [hb] at hforeign
      exact hne (Option.some.inj hforeign)

/-- a file of two pages -/
def twoPages : File := ⟨.write, "/ring", 3, 8192, true⟩

/-- a mapping of it, next to pages of the rest of the process -/
def openTwoPages : Action := .open .double twoPages .write (some 7) ⟨some 65536, true, true⟩

/-- the second page of the file behind its end, seen through the object that has the mapping after a move -/
theorem mappings_kept_example : ∃ s, run State.step init [openTwoPages, .foreignMap 20 2, .moveConstruct 0] = some s ∧
    Pages.byte s.space pageSize (65536 + 13000) = some (.file 7 1, 712) := by
  obtain ⟨s, hrun, hobject⟩ := Option.map_eq_some_iff.mp (show (run State.step init
    [openTwoPages, .foreignMap 20 2, .moveConstruct 0]).map (fun s => (s.object 1).map fun o =>
      (o.memory.mappedRegion, o.memory.size, o.memory.totalSize, o.object)) = some (some (65536, 8192, 16384, some 7))
    by decide +kernel)
  obtain ⟨o, ho, hmemory⟩ := Option.map_eq_some_iff.mp hobject
  obtain ⟨hregion, hsize, htotal, hfile⟩ := by simpa only [Prod.mk.injEq] using hmemory
  have hbyte := ((mappings_kept (by decide +kernel) hrun).1 1 o ho (by rw [hregion]; decide)).2 13000 (by omega)
  rw [hregion, hsize, hfile] at hbyte
  exact ⟨s, hrun, hbyte⟩

/-- the third call of the destructor takes pages away that another thread has got after the second one -/
example : (run State.step init [openTwoPages, .destroy 0, .munmap 0, .munmap 0, .foreignMap 16 1, .munmap 0]).map
    (fun s => s.space 16) = some none := by decide +kernel

/-- **In a `DOUBLE` mapping the window of a ring is an array**, wherever it starts: what `n` addresses from `start`
on hold is the window of the file. -/
theorem double_window {α : Type*} (content : Backing × Nat → α) {as : List Action} {s : State} {k : Nat}
    {o : Mapped} (hclear : Every State.step State.Clear init as) (hrun : run State.step init as = some s)
    (ho : s.object k = some o) (htype : o.type = .double) (h0 : o.memory.mappedRegion ≠ 0) {start n : Nat}
    (hstart : start < o.memory.size) (hn : n ≤ o.memory.size) :
    ((List.range n).map fun i => (Pages.byte s.space pageSize (o.memory.mappedRegion + (start + i))).map content) =
      (Ring.window (fun i => content (backing o.object (i / pageSize), i % pageSize)) o.memory.size start n).map
        some := by
  have h : Inv s := run_inv_of_every (fun _ _ _ hI hC ht => hI.step hC ht) as init_inv hclear hrun
  have hmem : some o ∈ s.objects := List.mem_of_getElem? (object_eq_some.mp ho)
  obtain ⟨-, -, htotal, -⟩ := h.sized o hmem h0
  have htotal : o.memory.totalSize = o.memory.size + o.memory.size := htotal.trans (by rw [htype, totalSize])
  unfold Ring.window Ring.slot
  rw [List.map_map]
  refine List.map_congr_left fun i hi => ?_
  have hi := List.mem_range.mp hi
  rw [h.byte hmem h0 (by omega)]
  rfl

end AddressSpace
end Ipcpp
