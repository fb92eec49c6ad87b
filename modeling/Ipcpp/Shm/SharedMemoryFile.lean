import Ipcpp.Lib.Counting
import Ipcpp.Lib.Registry
import Ipcpp.Lib.Runs
import Ipcpp.Stl.Runtime

/-!
# Shared memory files

`shared_memory_file` owns the descriptor of a shared memory object, and its name if it has created it;
`MappedMemory` owns such a file.  A handle that is zero counts as none.  The descriptors of the process and
the names of the system are registries: a number of a descriptor may be used again after `close`, by
`shm_open` or by another part of the process, and so may a name.

`files_owned_iff`: every descriptor is closed once or with one object, and so is every name that was created, and
`close` is never called with a number that is not open, as long as the steps are `Keeps`, and not longer.
-/

namespace Ipcpp
namespace SharedMemoryFile
open Counting Registry Runs

inductive AccessMode where
  | read
  | write
deriving DecidableEq

inductive Error where
  | creationError
  | resizeError
  | openError
  | fileNotFound
  | accessError
  | mappingError

/-- the descriptors of the process, and the names; `badCloses`: calls of `close` with a number that is not
open, or is open for somebody else -/
structure World where
  descriptors : Registry Nat
  names : Registry String
  badCloses : Nat

namespace World
variable (w : World)

def init : World := ⟨empty, empty, 0⟩

def close (n : Nat) : World :=
  { w with
    descriptors := w.descriptors.finish n
    badCloses := match w.descriptors.table n with
      | some (.mine _) => w.badCloses
      | _ => w.badCloses + 1 }

def shmUnlink (path : String) : World := { w with names := w.names.finish path }

/-- `shm_open` of a name that exists, with the answer `n` -/
def shmOpen (n : Nat) : World := { w with descriptors := w.descriptors.issue n }

/-- `shm_open` with `O_CREAT` of a name that does not exist -/
def shmCreate (path : String) (n : Nat) : World := { w.shmOpen n with names := w.names.issue path }

end World

/-- `shared_memory_file` -/
structure File where
  accessMode : AccessMode
  path : String
  nativeHandle : Nat
  size : Nat
  wasCreated : Bool

namespace File

/-- the constructor with a path and a size -/
def new (path : String) (size : Nat) : File := ⟨.read, path, 0, size, false⟩

/-- the descriptor that the destructor closes -/
def handle (f : File) : Option Nat := if f.nativeHandle = 0 then none else some f.nativeHandle

/-- the name that the destructor unlinks -/
def name (f : File) : Option String := if f.wasCreated then some f.path else none

/-- the destructor, which is also what the move assignment does first -/
def release (f : File) (w : World) : World :=
  let w := if f.nativeHandle ≠ 0 then w.close f.nativeHandle else w
  if f.wasCreated then w.shmUnlink f.path else w

/-- the move constructor: the new file, and the other one -/
def moveConstruct (other : File) : File × File :=
  (⟨other.accessMode, other.path, other.nativeHandle, other.size, other.wasCreated⟩,
    { other with path := "", nativeHandle := 0, size := 0, wasCreated := false })

/-- the move assignment: both files; what the target has is released first, and swapped all the same -/
def moveAssign (f other : File) (w : World) : World × File × File :=
  (f.release w, ⟨other.accessMode, other.path, other.nativeHandle, other.size, other.wasCreated⟩,
    { other with path := "", nativeHandle := f.nativeHandle, size := f.size, wasCreated := f.wasCreated })

end File

/-- what the system answers to `create`: `shm_open` fails, or returns a descriptor and `ftruncate` fails, or not -/
inductive CreateAnswer where
  | shmOpenFails
  | ftruncateFails (fd : Nat)
  | ok (fd : Nat)

/-- and to `open`; the size is the one of `fstat` -/
inductive OpenAnswer where
  | shmOpenFails
  | fstatFails (fd : Nat)
  | ok (fd size : Nat)

def CreateAnswer.descriptor : CreateAnswer → Option Nat
  | .shmOpenFails => none
  | .ftruncateFails fd => some fd
  | .ok fd => some fd

def OpenAnswer.descriptor : OpenAnswer → Option Nat
  | .shmOpenFails => none
  | .fstatFails fd => some fd
  | .ok fd _ => some fd

namespace File

/-- `create`: whatever it leaves, its local file is destroyed -/
def create (path : String) (size : Nat) (answer : CreateAnswer) (w : World) : World × Except Error File :=
  let self := { new path (Stl.pageUp size) with accessMode := .write }
  let w := w.shmUnlink path
  match answer with
  | .shmOpenFails => (self.release w, .error .creationError)
  | .ftruncateFails fd => (self.release (w.shmCreate path fd), .error .resizeError)
  | .ok fd =>
    let (result, self) := moveConstruct { self with nativeHandle := fd, wasCreated := true }
    (self.release (w.shmCreate path fd), .ok result)

/-- `open` -/
def «open» (path : String) (accessMode : AccessMode) (answer : OpenAnswer) (w : World) : World × Except Error File :=
  match answer with
  | .shmOpenFails => (w, .error .openError)
  | .fstatFails fd => (w.shmOpen fd, .error .fileNotFound)
  | .ok fd size =>
    let (result, self) := moveConstruct { new path size with accessMode := accessMode, nativeHandle := fd }
    (self.release (w.shmOpen fd), .ok result)

end File

inductive MappingType where
  | single
  | double

structure MappedMemory where
  mappedRegion : Nat
  size : Nat
  totalSize : Nat
  shmFile : File

namespace MappedMemory

def moveConstruct (other : MappedMemory) : MappedMemory × MappedMemory :=
  (⟨other.mappedRegion, other.size, other.totalSize, other.shmFile.moveConstruct.1⟩,
    ⟨0, 0, 0, other.shmFile.moveConstruct.2⟩)

def moveAssign (m other : MappedMemory) (w : World) : World × MappedMemory × MappedMemory :=
  let (w, f, f') := m.shmFile.moveAssign other.shmFile w
  (w, ⟨other.mappedRegion, other.size, other.totalSize, f⟩, ⟨m.mappedRegion, m.size, m.totalSize, f'⟩)

/-- `open(shm_file, access_mode)`, where `region` is what the mapping returns: the result, and the file that
was moved from -/
def «open» (type : MappingType) (file : File) (accessMode : AccessMode) (region : Option Nat) (w : World) :
    World × Except Error MappedMemory × File :=
  if file.accessMode = .read ∧ accessMode = .write then (w, .error .accessError, file)
  else
    let (f, file) := file.moveConstruct
    let total := match type with
      | .single => f.size
      | .double => f.size + f.size
    match region with
    | none => (f.release w, .error .mappingError, file)
    | some r => (w, .ok ⟨r, f.size, total, f⟩, file)

end MappedMemory

inductive Object where
  | file (f : File)
  | mapped (m : MappedMemory)

namespace Object

def shmFile : Object → File
  | .file f => f
  | .mapped m => m.shmFile

def moveConstruct : Object → Object × Object
  | .file f => (.file f.moveConstruct.1, .file f.moveConstruct.2)
  | .mapped m => (.mapped m.moveConstruct.1, .mapped m.moveConstruct.2)

/-- between objects of one type -/
def moveAssign (w : World) : Object → Object → Option (World × Object × Object)
  | .file f, .file other =>
    let (w, f, other) := f.moveAssign other w
    some (w, .file f, .file other)
  | .mapped m, .mapped other =>
    let (w, m, other) := m.moveAssign other w
    some (w, .mapped m, .mapped other)
  | _, _ => none

def handle (o : Object) : Option Nat := o.shmFile.handle

def name (o : Object) : Option String := o.shmFile.name

end Object

/-- what the objects of a list have, of one kind -/
def refs {K : Type} (f : Object → Option K) (l : List (Option Object)) : List K := l.filterMap fun o => o.bind f

/-! ## the system -/

structure State where
  world : World
  objects : List (Option Object)

inductive Action where
  | create (path : String) (size : Nat) (answer : CreateAnswer)
  | open (path : String) (accessMode : AccessMode) (answer : OpenAnswer)
  /-- `MappedMemory::open` with file `k` -/
  | map (type : MappingType) (k : Nat) (accessMode : AccessMode) (region : Option Nat)
  | moveConstruct (j : Nat)
  | moveAssign (k j : Nat)
  | destroy (k : Nat)
  /-- the rest of the process opens or closes a descriptor of its own -/
  | otherOpen (fd : Nat)
  | otherClose (fd : Nat)
  /-- somebody else creates a name -/
  | otherName (path : String)

namespace State

def init : State := ⟨.init, []⟩

section
variable (s : State)

def object (k : Nat) : Option Object := s.objects[k]?.join

def set (k : Nat) (o : Option Object) : State := { s with objects := s.objects.set k o }

/-- a new object, if there is one -/
def add (w : World) : Except Error Object → State
  | .ok o => ⟨w, s.objects ++ [some o]⟩
  | .error _ => { s with world := w }

/-- `shm_open` returns a number that is not in use -/
def free (fd : Option Nat) : Prop := ∀ n ∈ fd, s.world.descriptors.table n = none

instance (fd : Option Nat) : Decidable (s.free fd) :=
  inferInstanceAs (Decidable (∀ n ∈ fd, s.world.descriptors.table n = none))

def step : Action → Option State
  | .create path size answer =>
    if s.free answer.descriptor then
      let r := File.create path size answer s.world
      some (s.add r.1 (r.2.map .file))
    else none
  | .open path accessMode answer =>
    if s.free answer.descriptor then
      let r := File.open path accessMode answer s.world
      some (s.add r.1 (r.2.map .file))
    else none
  | .map type k accessMode region => (s.object k).bind fun o => match o with
    | .file f =>
      let r := MappedMemory.open type f accessMode region s.world
      some ((s.set k (some (.file r.2.2))).add r.1 (r.2.1.map .mapped))
    | .mapped _ => none
  | .moveConstruct j => (s.object j).map fun o =>
      (s.set j (some o.moveConstruct.2)).add s.world (.ok o.moveConstruct.1)
  | .moveAssign k j => (s.object k).bind fun o => (s.object j).bind fun other =>
      if k = j then some s
      else (o.moveAssign s.world other).map fun (w, o, other) =>
        { (s.set k (some o)).set j (some other) with world := w }
  | .destroy k => (s.object k).map fun o => { s.set k none with world := o.shmFile.release s.world }
  | .otherOpen fd =>
    if s.world.descriptors.table fd = none then
      some { s with world := { s.world with descriptors := s.world.descriptors.update fd (some .other) } }
    else none
  | .otherClose fd =>
    if s.world.descriptors.table fd = some .other then
      some { s with world := { s.world with descriptors := s.world.descriptors.update fd none } }
    else none
  | .otherName path =>
    if s.world.names.table path = none then
      some { s with world := { s.world with names := s.world.names.update path (some .other) } }
    else none

/-! ## what is meant to hold -/

/-- the descriptors that an object is going to close -/
def handles : List Nat := refs Object.handle s.objects

/-- the names that an object is going to unlink -/
def paths : List String := refs Object.name s.objects

/-- every descriptor that `shm_open` has returned was closed once, or one object has it, and no object has one
that is closed; the same holds of the names that were created; and nothing else was closed -/
structure Owned : Prop where
  descriptors : s.world.descriptors.Owned s.handles
  names : s.world.names.Owned s.paths
  noBadClose : s.world.badCloses = 0

/-- the condition on a step: no object has the name that is created, no error comes behind `shm_open`, which
does not return zero, and the target of a move assignment has no descriptor -/
def Keeps : Action → Prop
  | .create path _ answer => path ∉ s.paths ∧ match answer with
    | .shmOpenFails => True
    | .ftruncateFails _ => False
    | .ok fd => fd ≠ 0
  | .open _ _ answer => match answer with
    | .shmOpenFails => True
    | .fstatFails _ => False
    | .ok fd _ => fd ≠ 0
  | .moveAssign k j => k = j ∨ ∀ o, s.object k = some o → o.handle = none
  | _ => True

end

end State

/-! ## what the objects have -/

section
variable {K : Type} {f : Object → Option K} {l : List (Option Object)} {k j : Nat} {o o' : Object}

theorem refs_append (f : Object → Option K) (l : List (Option Object)) (o : Object) :
    refs f (l ++ [some o]) = refs f l ++ (f o).toList := by
  unfold refs
  rw [List.filterMap_append, List.filterMap_cons]
  show _ ++ (match f o with | none => [] | some b => [b]) = _
  cases f o <;> rfl

theorem mem_refs {a : K} (ho : some o ∈ l) (ha : f o = some a) : a ∈ refs f l :=
  List.mem_filterMap.mpr ⟨some o, ho, ha⟩

theorem refs_drop (hk : l[k]? = some (some o)) {e : Option Object} (he : e.bind f = none) :
    ((f o).toList ++ refs f (l.set k e)).Perm (refs f l) := by
  have hset := filterMap_set_perm (fun o : Option Object => o.bind f) hk e
  rw [he] at hset
  exact hset

theorem refs_move (hk : l[k]? = some (some o)) {e : Option Object} (he : e.bind f = none) (ho : f o' = f o) :
    (refs f l).Perm (refs f (l.set k e ++ [some o'])) := by
  rw [refs_append, ho]
  exact (refs_drop hk he).symm.trans List.perm_append_comm

theorem refs_assign {x x' : Object} (hk : l[k]? = some (some o)) (hj : l[j]? = some (some x)) (hkj : k ≠ j)
    (ho : f o = none) (ho' : f o' = f x) (hx' : f x' = none) :
    (refs f l).Perm (refs f ((l.set k (some o')).set j (some x'))) := by
  have hset : (refs f (l.set k (some o'))).Perm ((f x).toList ++ refs f l) := by
    have hset := filterMap_set_perm (fun o : Option Object => o.bind f) hk (some o')
    have hnone : (some o).bind f = none := ho
    have hsome : (some o').bind f = f x := ho'
    rwa [hnone, hsome] at hset
  have hj' : (l.set k (some o'))[j]? = some (some x) := by
    rw [List.getElem?_set_ne hkj]
    exact hj
  have hdrop := refs_drop (f := f) hj' (e := some x') hx'
  exact ((List.perm_append_left_iff _).mp (hdrop.trans hset)).symm

end

/-! ## releasing a file -/

theorem release_none {f : File} (hf : f.handle = none) (hn : f.name = none) (w : World) : f.release w = w := by
  have h0 : f.nativeHandle = 0 := by
    by_contra h
    rw [File.handle, if_neg h] at hf
    cases hf
  have hc : ¬ f.wasCreated = true := fun h => by
    rw [File.name, if_pos h] at hn
    cases hn
  unfold File.release
  rw [if_neg (not_not.mpr h0), if_neg hc]

theorem release_descriptors {f : File} {n : Nat} (hf : f.handle = some n) (w : World) :
    (f.release w).descriptors = w.descriptors.finish n := by
  have h0 : f.nativeHandle ≠ 0 := fun h => by
    rw [File.handle, if_pos h] at hf
    cases hf
  rw [File.handle, if_neg h0] at hf
  obtain rfl := Option.some.inj hf
  unfold File.release
  rw [if_pos h0]
  split <;> rfl

/-- the world and the keys that the objects have -/
structure World.Inv (w : World) (hs : List Nat) (ps : List String) : Prop where
  descriptors : w.descriptors.Inv hs
  names : w.names.Inv ps
  noBadClose : w.badCloses = 0

theorem World.Inv.perm {w : World} {hs hs' : List Nat} {ps ps' : List String} (h : w.Inv hs ps) (hh : hs.Perm hs')
    (hp : ps.Perm ps') : w.Inv hs' ps' :=
  ⟨h.descriptors.perm hh, h.names.perm hp, h.noBadClose⟩

theorem World.Inv.close {w : World} {n : Nat} {hs : List Nat} {ps : List String} (h : w.Inv (n :: hs) ps) :
    (w.close n).Inv hs ps := by
  refine ⟨h.descriptors.finish, h.names, ?_⟩
  obtain ⟨i, hi⟩ := h.descriptors.live n List.mem_cons_self
  show (match w.descriptors.table n with | some (.mine _) => w.badCloses | _ => w.badCloses + 1) = 0
  rw [hi]
  exact h.noBadClose

/-- **The owner of a descriptor and a name** closes and unlinks them. -/
theorem World.Inv.release {w : World} {f : File} {hs : List Nat} {ps : List String}
    (h : w.Inv (f.handle.toList ++ hs) (f.name.toList ++ ps)) : (f.release w).Inv hs ps := by
  have hclose : World.Inv (if f.nativeHandle ≠ 0 then w.close f.nativeHandle else w) hs (f.name.toList ++ ps) := by
    unfold File.handle at h
    by_cases h0 : f.nativeHandle = 0
    · rw [if_pos h0] at h
      rw [if_neg (not_not.mpr h0)]
      exact h
    · rw [if_neg h0] at h
      rw [if_pos h0]
      exact h.close
  unfold File.release
  unfold File.name at hclose
  by_cases hc : f.wasCreated = true
  · rw [if_pos hc] at hclose ⊢
    exact ⟨hclose.descriptors, hclose.names.finish, hclose.noBadClose⟩
  · rw [if_neg hc] at hclose ⊢
    exact hclose

namespace State

structure Inv (s : State) : Prop where
  world : s.world.Inv s.handles s.paths
  /-- who has created a name has the descriptor too -/
  created : ∀ o, some o ∈ s.objects → o.handle = none → o.name = none

variable {s t : State} {k j : Nat} {o : Object}

theorem object_iff : s.object k = some o ↔ s.objects[k]? = some (some o) := Option.join_eq_some_iff

theorem mem_of_object (h : s.object k = some o) : some o ∈ s.objects :=
  List.mem_of_getElem? (object_iff.mp h)

theorem Inv.owned (h : s.Inv) : s.Owned :=
  ⟨h.world.descriptors.toOwned, h.world.names.toOwned, h.world.noBadClose⟩

/-! ## one step -/

theorem Inv.add (h : s.Inv) {w : World} {n : Nat} (hw : w.Inv (n :: s.handles) (o.name.toList ++ s.paths))
    (ho : o.handle = some n) : (s.add w (.ok o)).Inv := by
  refine ⟨hw.perm ?_ ?_, fun o' ho' hh => ?_⟩
  · show (n :: s.handles).Perm (refs Object.handle (s.objects ++ [some o]))
    rw [refs_append, ho]
    exact (List.perm_append_singleton n _).symm
  · show (o.name.toList ++ s.paths).Perm (refs Object.name (s.objects ++ [some o]))
    rw [refs_append]
    exact List.perm_append_comm
  · rcases List.mem_append.mp ho' with ho' | ho'
    · exact h.created o' ho' hh
    · have heq : o' = o := Option.some.inj (List.mem_singleton.mp ho')
      rw [heq, ho] at hh
      cases hh

theorem create_ok (path : String) (size fd : Nat) (w : World) :
    ∃ f, File.create path size (.ok fd) w = ((w.shmUnlink path).shmCreate path fd, .ok f) ∧
      f.nativeHandle = fd ∧ f.path = path ∧ f.wasCreated = true :=
  ⟨_, rfl, rfl, rfl, rfl⟩

theorem open_ok (path : String) (accessMode : AccessMode) (fd size : Nat) (w : World) :
    ∃ f, File.open path accessMode (.ok fd size) w = (w.shmOpen fd, .ok f) ∧ f.nativeHandle = fd ∧
      f.wasCreated = false :=
  ⟨_, rfl, rfl, rfl⟩

theorem Inv.create (h : s.Inv) {path : String} {fd : Nat} {f : File} (hpath : path ∉ s.paths) (h0 : fd ≠ 0)
    (hfd : s.world.descriptors.table fd = none) (hf : f.nativeHandle = fd) (hp : f.path = path)
    (hc : f.wasCreated = true) : (s.add ((s.world.shmUnlink path).shmCreate path fd) (.ok (.file f))).Inv := by
  subst hf hp
  have hname : (Object.file f).name = some f.path := if_pos hc
  refine h.add ?_ (if_neg h0)
  rw [hname]
  exact ⟨h.world.descriptors.issue hfd, (h.world.names.finish_other hpath).issue finish_table_self,
    h.world.noBadClose⟩

theorem Inv.open (h : s.Inv) {fd : Nat} {f : File} (h0 : fd ≠ 0) (hfd : s.world.descriptors.table fd = none)
    (hf : f.nativeHandle = fd) (hc : f.wasCreated = false) : (s.add (s.world.shmOpen fd) (.ok (.file f))).Inv := by
  subst hf
  have hname : (Object.file f).name = none := if_neg (hc ▸ Bool.false_ne_true)
  refine h.add ?_ (if_neg h0)
  rw [hname]
  exact ⟨h.world.descriptors.issue hfd, h.world.names, h.world.noBadClose⟩

/-- object `j` is moved from: it has nothing any more, and a new object has it -/
theorem Inv.move (h : s.Inv) (hj : s.object j = some o) {o1 o2 : Object} (hh1 : o1.handle = o.handle)
    (hn1 : o1.name = o.name) (hh2 : o2.handle = none) (hn2 : o2.name = none) :
    ((s.set j (some o2)).add s.world (.ok o1)).Inv := by
  have hj' := object_iff.mp hj
  refine ⟨h.world.perm (refs_move hj' hh2 hh1) (refs_move hj' hn2 hn1), fun o' ho' hh => ?_⟩
  rcases List.mem_append.mp ho' with ho' | ho'
  · rcases List.mem_or_eq_of_mem_set ho' with ho' | heq
    · exact h.created o' ho' hh
    · exact Option.some.inj heq ▸ hn2
  · have heq : o' = o1 := Option.some.inj (List.mem_singleton.mp ho')
    rw [heq, hh1] at hh
    rw [heq, hn1]
    exact h.created o (mem_of_object hj) hh

theorem Inv.release (h : s.Inv) (hk : s.object k = some o) {e : Option Object} (hh : e.bind Object.handle = none)
    (hn : e.bind Object.name = none) : Inv { s.set k e with world := o.shmFile.release s.world } := by
  have hk' := object_iff.mp hk
  refine ⟨(h.world.perm (refs_drop hk' hh).symm (refs_drop hk' hn).symm).release, fun o' ho' hh' => ?_⟩
  rcases List.mem_or_eq_of_mem_set ho' with ho' | heq
  · exact h.created o' ho' hh'
  · rw [← heq] at hn
    exact hn

theorem Inv.map (h : s.Inv) {f : File} (hk : s.object k = some (.file f)) (type : MappingType)
    (accessMode : AccessMode) (region : Option Nat) {w : World} {r : Except Error MappedMemory} {f' : File}
    (hr : MappedMemory.open type f accessMode region s.world = (w, r, f')) :
    ((s.set k (some (.file f'))).add w (r.map .mapped)).Inv := by
  unfold MappedMemory.open at hr
  by_cases hmode : f.accessMode = .read ∧ accessMode = .write
  · rw [if_pos hmode] at hr
    cases hr
    have hsame : s.set k (some (.file f)) = s := by
      obtain ⟨hlt, hget⟩ := List.getElem?_eq_some_iff.mp (object_iff.mp hk)
      unfold State.set
      rw [← hget, List.set_getElem_self]
    rw [hsame]
    exact h
  · rw [if_neg hmode] at hr
    cases region with
    | none =>
      cases hr
      exact h.release hk rfl rfl
    | some a =>
      cases hr
      exact h.move hk rfl rfl rfl rfl

/-- the two objects after a move assignment, whatever their type -/
theorem moveAssign_cases {w w' : World} {o x o' x' : Object} (hr : o.moveAssign w x = some (w', o', x')) :
    w' = o.shmFile.release w ∧ o'.handle = x.handle ∧ o'.name = x.name ∧ x'.handle = o.handle ∧
      (o.shmFile.wasCreated = false → x'.name = none) := by
  cases o with
  | file f =>
    cases x with
    | file g =>
      cases hr
      exact ⟨rfl, rfl, rfl, rfl, fun hc => if_neg (hc ▸ Bool.false_ne_true)⟩
    | mapped g => cases hr
  | mapped m =>
    cases x with
    | file g => cases hr
    | mapped g =>
      cases hr
      exact ⟨rfl, rfl, rfl, rfl, fun hc => if_neg (hc ▸ Bool.false_ne_true)⟩

theorem Inv.moveAssign (h : s.Inv) {x : Object} (hk : s.object k = some o) (hj : s.object j = some x) (hkj : k ≠ j)
    (hnone : o.handle = none) {w : World} {o' x' : Object} (hr : o.moveAssign s.world x = some (w, o', x')) :
    Inv { (s.set k (some o')).set j (some x') with world := w } := by
  obtain ⟨rfl, hh', hn', hhx, hnx⟩ := moveAssign_cases hr
  have hname : o.name = none := h.created o (mem_of_object hk) hnone
  have hc : o.shmFile.wasCreated = false := Bool.eq_false_iff.mpr fun hc => by
    rw [show o.name = some o.shmFile.path from if_pos hc] at hname
    cases hname
  have hk' := object_iff.mp hk
  have hj' := object_iff.mp hj
  rw [release_none hnone hname]
  refine ⟨h.world.perm (refs_assign hk' hj' hkj hnone hh' (hhx.trans hnone))
    (refs_assign hk' hj' hkj hname hn' (hnx hc)), fun p hp hh => ?_⟩
  rcases List.mem_or_eq_of_mem_set hp with hp | heq
  · rcases List.mem_or_eq_of_mem_set hp with hp | heq
    · exact h.created p hp hh
    · rw [Option.some.inj heq, hh'] at hh
      rw [Option.some.inj heq, hn']
      exact h.created x (mem_of_object hj) hh
  · rw [Option.some.inj heq]
    exact hnx hc

/-- the rest of the system does something to a descriptor or a name that is not ours -/
theorem Inv.other (h : s.Inv) {w : World} (hw : w.Inv s.handles s.paths) : Inv { s with world := w } :=
  ⟨hw, h.created⟩

/-- **A step that meets its condition** keeps every descriptor and every name with one owner. -/
theorem Inv.step (h : s.Inv) {a : Action} (hC : s.Keeps a) (ht : s.step a = some t) : t.Inv := by
  have hw := h.world
  cases a with
  | create path size answer =>
    obtain ⟨hfree, ht⟩ := Option.ite_none_right_eq_some.mp ht
    obtain ⟨hpath, hanswer⟩ := hC
    cases answer with
    | shmOpenFails =>
      obtain rfl := Option.some.inj ht
      exact h.other ⟨hw.descriptors, hw.names.finish_other hpath, hw.noBadClose⟩
    | ftruncateFails fd => exact hanswer.elim
    | ok fd =>
      obtain rfl := Option.some.inj ht
      obtain ⟨f, hrun, hf, hp, hc⟩ := create_ok path size fd s.world
      rw [hrun]
      exact h.create hpath hanswer (hfree fd rfl) hf hp hc
  | «open» path accessMode answer =>
    obtain ⟨hfree, ht⟩ := Option.ite_none_right_eq_some.mp ht
    cases answer with
    | shmOpenFails =>
      obtain rfl := Option.some.inj ht
      exact h
    | fstatFails fd => exact hC.elim
    | ok fd size =>
      obtain rfl := Option.some.inj ht
      obtain ⟨f, hrun, hf, hc⟩ := open_ok path accessMode fd size s.world
      rw [hrun]
      exact h.open hC (hfree fd rfl) hf hc
  | map type k accessMode region =>
    obtain ⟨o, hk, ht⟩ := Option.bind_eq_some_iff.mp ht
    cases o with
    | file f =>
      obtain rfl := Option.some.inj ht
      exact h.map hk type accessMode region rfl
    | mapped m => cases ht
  | moveConstruct j =>
    obtain ⟨o, hj, rfl⟩ := Option.map_eq_some_iff.mp ht
    cases o with
    | file f => exact h.move hj rfl rfl rfl rfl
    | mapped m => exact h.move hj rfl rfl rfl rfl
  | moveAssign k j =>
    obtain ⟨o, hk, ht⟩ := Option.bind_eq_some_iff.mp ht
    obtain ⟨x, hj, ht⟩ := Option.bind_eq_some_iff.mp ht
    by_cases hkj : k = j
    · rw [if_pos hkj] at ht
      exact Option.some.inj ht ▸ h
    · rw [if_neg hkj] at ht
      obtain ⟨⟨w, o', x'⟩, hr, rfl⟩ := Option.map_eq_some_iff.mp ht
      exact h.moveAssign hk hj hkj (hC.resolve_left hkj o hk) hr
  | destroy k =>
    obtain ⟨o, hk, rfl⟩ := Option.map_eq_some_iff.mp ht
    exact h.release hk rfl rfl
  | otherOpen fd =>
    obtain ⟨hfd, ht⟩ := Option.ite_none_right_eq_some.mp ht
    obtain rfl := Option.some.inj ht
    exact h.other ⟨hw.descriptors.elsewhere hfd nofun nofun, hw.names, hw.noBadClose⟩
  | otherClose fd =>
    obtain ⟨hfd, ht⟩ := Option.ite_none_right_eq_some.mp ht
    obtain rfl := Option.some.inj ht
    exact h.other ⟨hw.descriptors.elsewhere hfd nofun nofun, hw.names, hw.noBadClose⟩
  | otherName path =>
    obtain ⟨hpath, ht⟩ := Option.ite_none_right_eq_some.mp ht
    obtain rfl := Option.some.inj ht
    exact h.other ⟨hw.descriptors, hw.names.elsewhere hpath nofun nofun, hw.noBadClose⟩

theorem not_owned_zero (h : s.Inv) {w : World} {fd : Nat} (hfd : s.world.descriptors.table fd = none)
    (hw : w.descriptors = s.world.descriptors.issue fd) (ho : o.handle = none) : ¬ (s.add w (.ok o)).Owned := by
  intro hT
  have hhandles : refs Object.handle (s.objects ++ [some o]) = s.handles := by
    rw [refs_append, ho]
    exact List.append_nil _
  have hdescriptors : w.descriptors.Owned (refs Object.handle (s.objects ++ [some o])) := hT.descriptors
  rw [hhandles, hw] at hdescriptors
  exact h.world.descriptors.not_owned_issue hfd hdescriptors

/-- **And a step that does not** leaves a descriptor or a name without an owner, with two, or with one that
has it no more. -/
theorem Inv.keeps (h : s.Inv) {a : Action} (hT : t.Owned) (ht : s.step a = some t) : s.Keeps a := by
  cases a with
  | create path size answer =>
    obtain ⟨hfree, ht⟩ := Option.ite_none_right_eq_some.mp ht
    cases answer with
    | shmOpenFails =>
      obtain rfl := Option.some.inj ht
      exact ⟨fun hpath => not_owned_finish hpath hT.names, trivial⟩
    | ftruncateFails fd =>
      obtain rfl := Option.some.inj ht
      exact absurd hT.descriptors (h.world.descriptors.not_owned_issue (hfree fd rfl))
    | ok fd =>
      obtain rfl := Option.some.inj ht
      obtain ⟨f, hrun, hf, hp, hc⟩ := create_ok path size fd s.world
      rw [hrun] at hT
      have hpaths := refs_append Object.name s.objects (.file f)
      refine ⟨fun hpath => ?_, fun h0 => not_owned_zero (o := .file f) h (hfree fd rfl) rfl (if_pos (hf.trans h0)) hT⟩
      have hnames : Registry.Owned ((s.world.names.finish path).issue path) (s.paths ++ [path]) := by
        have hname : (Object.file f).name = some path := hp ▸ if_pos hc
        rw [hname] at hpaths
        exact hpaths ▸ hT.names
      exact not_owned_issue_twice hpath (hnames.perm (List.perm_append_singleton path s.paths))
  | «open» path accessMode answer =>
    obtain ⟨hfree, ht⟩ := Option.ite_none_right_eq_some.mp ht
    cases answer with
    | shmOpenFails => exact trivial
    | fstatFails fd =>
      obtain rfl := Option.some.inj ht
      exact absurd hT.descriptors (h.world.descriptors.not_owned_issue (hfree fd rfl))
    | ok fd size =>
      obtain rfl := Option.some.inj ht
      obtain ⟨f, hrun, hf, hc⟩ := open_ok path accessMode fd size s.world
      rw [hrun] at hT
      exact fun h0 => not_owned_zero (o := .file f) h (hfree fd rfl) rfl (if_pos (hf.trans h0)) hT
  | moveAssign k j =>
    obtain ⟨o, hk, ht⟩ := Option.bind_eq_some_iff.mp ht
    obtain ⟨x, hj, ht⟩ := Option.bind_eq_some_iff.mp ht
    by_cases hkj : k = j
    · exact .inl hkj
    · rw [if_neg hkj] at ht
      obtain ⟨⟨w, o', x'⟩, hr, rfl⟩ := Option.map_eq_some_iff.mp ht
      obtain ⟨rfl, -, -, hhx, -⟩ := moveAssign_cases hr
      refine .inr fun p hp => ?_
      rw [hk] at hp
      obtain rfl := Option.some.inj hp
      by_contra hsome
      obtain ⟨n, hn⟩ := Option.ne_none_iff_exists'.mp hsome
      -- the source has the descriptor that was closed
      have hlt : j < (s.objects.set k (some o')).length := by
        rw [List.length_set]
        exact (List.getElem?_eq_some_iff.mp (object_iff.mp hj)).1
      have hmem : some x' ∈ (s.objects.set k (some o')).set j (some x') :=
        List.mem_of_getElem? (List.getElem?_set_self hlt)
      have hT' := hT.descriptors
      rw [show State.world _ = o.shmFile.release s.world from rfl, release_descriptors hn] at hT'
      exact not_owned_finish (mem_refs hmem (hhx.trans hn)) hT'
  | _ => exact trivial

theorem init_inv : init.Inv := ⟨⟨empty_inv, empty_inv, rfl⟩, fun _ ho => (List.not_mem_nil ho).elim⟩

/-! ## whole runs -/

/-- **Every descriptor is closed once and every name is unlinked once, by the last owner**, as long as all
steps meet their condition, and not longer. -/
theorem files_owned_iff (as : List Action) : Always step Owned init as ↔ Every step Keeps init as :=
  always_iff_every_of (fun _ h => h.owned) (fun _ _ _ h hC ht => h.step hC ht) (fun _ _ _ h hT ht => h.keeps hT ht)
    as init_inv

/-- a file is moved to one that has a descriptor of its own: the source gets the descriptor that was closed -/
theorem moved_onto_owner :
    ¬ Always step Owned init [.create "a" 1 (.ok 3), .create "b" 1 (.ok 4), .moveAssign 0 1] := by
  intro h
  have hlast := (((h.2 _ rfl).2 _ rfl).2 _ rfl).descriptors
  obtain ⟨i, hi⟩ := hlast.live 3 (by decide)
  exact Option.some_ne_none _ (hi.symm.trans rfl)

end State

end SharedMemoryFile
end Ipcpp
