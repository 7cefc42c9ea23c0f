import DeiChain.Data.CString
import DeiChain.Data.Extent
import DeiChain.Data.LittleEndian
import Mathlib.Data.Vector.Basic
import Mathlib.Data.List.Forall2

namespace Data

universe u

/-! # Memory behind pointers

What a segment holds is read through typed places. A place reads only the bytes
it covers, so a store changes what it is made to and leaves everything beside it
alone; records and tables of places inherit this from their parts.
-/

/-- The bytes of a segment by their offset. An access past the end is undefined
in C and an ordinary one here, so that whether it happens is something to prove. -/
abbrev Memory := Nat → UInt8

structure Write where
  start : Nat
  bytes : List UInt8
deriving DecidableEq, Repr

def Write.extent (write : Write) : Extent := ⟨write.start, write.bytes.length⟩

/-- An integer of `width` bytes. -/
def Write.word (width start value : Nat) : Write := ⟨start, leBytes width value⟩

/-- `strcpy` to the place at `start`. -/
def Write.string (start : Nat) (src : List UInt8) : Write := ⟨start, cstr src ++ [0]⟩

namespace Memory

def load (memory : Memory) (start length : Nat) : List UInt8 :=
  (List.range length).map fun i => memory (start + i)

@[simp] theorem load_length (memory : Memory) (start length : Nat) : (memory.load start length).length = length := by
  rw [load, List.length_map, List.length_range]

theorem load_getElem (memory : Memory) (start : Nat) {length i : Nat}
    (inside : i < (memory.load start length).length) : (memory.load start length)[i] = memory (start + i) := by
  simp only [load, List.getElem_map, List.getElem_range]

def store (memory : Memory) (write : Write) : Memory := fun address =>
  if write.start ≤ address then (write.bytes[address - write.start]?).getD (memory address)
  else memory address

def chars (n : Nat) (memory : Memory) (start : Nat) : CharArray n :=
  ⟨memory.load start n, memory.load_length start n⟩

def u32 (memory : Memory) (start : Nat) : UInt32 := .ofNat (leNat (memory.load start 4))
def u64 (memory : Memory) (start : Nat) : UInt64 := .ofNat (leNat (memory.load start 8))
def i32 (memory : Memory) (start : Nat) : Int32 := ⟨memory.u32 start⟩
def i64 (memory : Memory) (start : Nat) : Int64 := ⟨memory.u64 start⟩

end Memory

section

variable {α : Type u} {read : Memory → Nat → α} {length start offset : Nat} {memory : Memory} {write : Write}

/-- The value depends on `length` bytes from where it is read. -/
def Local (length : Nat) (read : Memory → Nat → α) : Prop :=
  ∀ left right start, (∀ i < length, left (start + i) = right (start + i)) → read left start = read right start

/-- The write stays in the `length` bytes from `start` on. -/
def Write.Within (write : Write) (start length : Nat) : Prop :=
  write.extent.Within ⟨start, length⟩

theorem Memory.store_apart {address : Nat}
    (apart : address < write.start ∨ write.extent.finish ≤ address) : memory.store write address = memory address := by
  rw [Memory.store]
  split
  · rename_i behind
    have past : write.bytes.length ≤ address - write.start := by
      simp only [Write.extent, Extent.finish] at apart
      omega
    rw [List.getElem?_eq_none past, Option.getD_none]
  · rfl

theorem Local.frame (reads : Local length read) (apart : Extent.Disjoint ⟨start, length⟩ write.extent) :
    read (memory.store write) start = read memory start := by
  apply reads
  intro i inside
  apply Memory.store_apart
  rcases apart with before | behind
  · exact .inl (Nat.lt_of_lt_of_le (Nat.add_lt_add_left inside start) before)
  · exact .inr (Nat.le_trans behind (Nat.le_add_right start i))

/-- The part of a record at an offset. -/
theorem Local.part (reads : Local length read) {whole : Nat} {left right : Memory}
    (same : ∀ i < whole, left (start + i) = right (start + i)) (room : offset + length ≤ whole) :
    read left (start + offset) = read right (start + offset) := by
  apply reads
  intro i inside
  rw [Nat.add_assoc]
  exact same (offset + i) (by omega)

/-- The first part of a record. -/
theorem Local.front (reads : Local length read) {whole : Nat} {left right : Memory}
    (same : ∀ i < whole, left (start + i) = right (start + i)) (room : length ≤ whole) :
    read left start = read right start :=
  reads left right start fun i inside => same i (Nat.lt_of_lt_of_le inside room)

theorem local_load : Local length fun memory start => memory.load start length := by
  intro left right start same
  exact List.map_congr_left fun i member => same i (List.mem_range.mp member)

theorem local_chars (n : Nat) : Local n (Memory.chars n) := by
  intro left right start same
  exact List.Vector.eq _ _ (local_load left right start same)

theorem local_u32 : Local 4 Memory.u32 := by
  intro left right start same
  exact congrArg (fun bytes => UInt32.ofNat (leNat bytes)) (local_load left right start same)

theorem local_u64 : Local 8 Memory.u64 := by
  intro left right start same
  exact congrArg (fun bytes => UInt64.ofNat (leNat bytes)) (local_load left right start same)

theorem local_i32 : Local 4 Memory.i32 := by
  intro left right start same
  rw [Memory.i32, local_u32 left right start same, Memory.i32]

theorem local_i64 : Local 8 Memory.i64 := by
  intro left right start same
  rw [Memory.i64, local_u64 left right start same, Memory.i64]

end

section

variable {memory : Memory} {start : Nat} {bytes text : List UInt8}

theorem Memory.load_store : (memory.store ⟨start, bytes⟩).load start bytes.length = bytes := by
  apply List.ext_getElem
  · exact Memory.load_length _ _ _
  · intro i inside bound
    rw [Memory.load_getElem, Memory.store]
    simp only [Nat.le_add_right, if_true, Nat.add_sub_cancel_left]
    rw [List.getElem?_eq_getElem bound, Option.getD_some]

theorem Memory.load_word (width value : Nat) :
    (memory.store (.word width start value)).load start width = leBytes width value := by
  have stored := @Memory.load_store memory start (leBytes width value)
  rwa [leBytes_length] at stored

theorem Memory.u32_stored (value : Nat) : (memory.store (.word 4 start value)).u32 start = .ofNat value := by
  rw [Memory.u32, Memory.load_word, leNat_leBytes]
  exact UInt32.ofNat_mod_size

theorem Memory.u64_stored (value : Nat) : (memory.store (.word 8 start value)).u64 start = .ofNat value := by
  rw [Memory.u64, Memory.load_word, leNat_leBytes]
  exact UInt64.ofNat_mod_size

theorem Memory.u32_word (value : UInt32) : (memory.store (.word 4 start value.toNat)).u32 start = value := by
  rw [Memory.u32_stored, UInt32.ofNat_toNat]

theorem Memory.u64_word (value : UInt64) : (memory.store (.word 8 start value.toNat)).u64 start = value := by
  rw [Memory.u64_stored, UInt64.ofNat_toNat]

theorem Memory.i32_word (value : Int32) :
    (memory.store (.word 4 start value.toUInt32.toNat)).i32 start = value := by
  rw [Memory.i32, Memory.u32_word]

theorem Memory.i64_word (value : Int64) :
    (memory.store (.word 8 start value.toUInt64.toNat)).i64 start = value := by
  rw [Memory.i64, Memory.u64_word]

/-- Text over the front of an array. -/
theorem Memory.chars_store {n : Nat} (fits : bytes.length ≤ n) :
    (memory.store ⟨start, bytes⟩).chars n start = overwrite (memory.chars n start) bytes := by
  apply List.Vector.eq
  change (memory.store ⟨start, bytes⟩).load start n = (bytes ++ (memory.load start n).drop bytes.length).take n
  have width : (bytes ++ (memory.load start n).drop bytes.length).length = n := by
    rw [List.length_append, List.length_drop, Memory.load_length]
    omega
  rw [List.take_of_length_le (Nat.le_of_eq width)]
  apply List.ext_getElem
  · rw [width, Memory.load_length]
  · intro i inside _
    rw [Memory.load_getElem, Memory.store]
    simp only [Nat.le_add_right, if_true, Nat.add_sub_cancel_left]
    by_cases written : i < bytes.length
    · rw [List.getElem?_eq_getElem written, Option.getD_some, List.getElem_append_left written]
    · have past := Nat.le_of_not_lt written
      rw [List.getElem?_eq_none past, Option.getD_none, List.getElem_append_right past, List.getElem_drop,
        Memory.load_getElem, Nat.add_sub_cancel' past]

theorem Memory.chars_array {n : Nat} (array : CharArray n) :
    (memory.store ⟨start, array.toList⟩).chars n start = array := by
  apply List.Vector.eq
  have stored := @Memory.load_store memory start array.toList
  rwa [array.toList_length] at stored

/-- One store may be taken as two. -/
theorem Memory.store_append (back : List UInt8) : memory.store ⟨start, bytes ++ back⟩ =
    (memory.store ⟨start, bytes⟩).store ⟨start + bytes.length, back⟩ := by
  funext address
  simp only [Memory.store]
  by_cases before : address < start
  · rw [if_neg (Nat.not_le_of_lt before), if_neg (by omega), if_neg (Nat.not_le_of_lt before)]
  · have behind := Nat.le_of_not_lt before
    rw [if_pos behind, if_pos behind]
    by_cases front : address - start < bytes.length
    · rw [if_neg (by omega), List.getElem?_append_left front]
    · rw [if_pos (by omega), List.getElem?_append_right (Nat.le_of_not_lt front),
        List.getElem?_eq_none (Nat.le_of_not_lt front), Option.getD_none, Nat.sub_sub]

theorem Memory.chars_string {n : Nat} (short : (cstr text).length < n) :
    (memory.store (.string start text)).chars n start = strcpy (memory.chars n start) text :=
  Memory.chars_store (by simpa [Nat.succ_le_iff] using short)

end

section

variable {memory : Memory} {write : Write} {start : Nat}

theorem Local.beside {α : Type u} {read : Memory → Nat → α} {length : Nat} (reads : Local length read)
    (apart : start + length ≤ write.start ∨ write.start + write.bytes.length ≤ start) :
    read (memory.store write) start = read memory start :=
  reads.frame apart

theorem Memory.chars_beside {n : Nat}
    (apart : start + n ≤ write.start ∨ write.start + write.bytes.length ≤ start) :
    (memory.store write).chars n start = memory.chars n start := (local_chars n).beside apart

theorem Memory.u32_beside (apart : start + 4 ≤ write.start ∨ write.start + write.bytes.length ≤ start) :
    (memory.store write).u32 start = memory.u32 start := local_u32.beside apart

theorem Memory.i32_beside (apart : start + 4 ≤ write.start ∨ write.start + write.bytes.length ≤ start) :
    (memory.store write).i32 start = memory.i32 start := local_i32.beside apart

theorem Memory.i64_beside (apart : start + 8 ≤ write.start ∨ write.start + write.bytes.length ≤ start) :
    (memory.store write).i64 start = memory.i64 start := local_i64.beside apart

@[simp] theorem Write.word_start (width start value : Nat) : (Write.word width start value).start = start := rfl

@[simp] theorem Write.word_length (width start value : Nat) :
    (Write.word width start value).bytes.length = width := leBytes_length width value

@[simp] theorem Write.string_start (start : Nat) (src : List UInt8) : (Write.string start src).start = start := rfl

@[simp] theorem Write.string_length (start : Nat) (src : List UInt8) :
    (Write.string start src).bytes.length = (cstr src).length + 1 := by
  simp [Write.string]

end

/-- What `memset` to zero leaves. -/
def Memory.zero : Memory := fun _ => 0

section

variable (start : Nat)

theorem Memory.load_zero (length : Nat) : Memory.zero.load start length = List.replicate length 0 := by
  rw [Memory.load, List.eq_replicate_iff]
  refine ⟨by rw [List.length_map, List.length_range], fun byte member => ?_⟩
  obtain ⟨i, _, rfl⟩ := List.mem_map.mp member
  rfl

@[simp] theorem Memory.chars_zero (n : Nat) : Memory.zero.chars n start = zeroArray n :=
  List.Vector.eq _ _ (Memory.load_zero start n)

@[simp] theorem Memory.u32_zero : Memory.zero.u32 start = 0 := by
  rw [Memory.u32, Memory.load_zero]
  rfl

@[simp] theorem Memory.u64_zero : Memory.zero.u64 start = 0 := by
  rw [Memory.u64, Memory.load_zero]
  rfl

@[simp] theorem Memory.i32_zero : Memory.zero.i32 start = 0 := by
  rw [Memory.i32, Memory.u32_zero]
  rfl

@[simp] theorem Memory.i64_zero : Memory.zero.i64 start = 0 := by
  rw [Memory.i64, Memory.u64_zero]
  rfl

/-- Fields stored before a place. -/
theorem Local.behind {α : Type u} {read : Memory → Nat → α} {length : Nat} (reads : Local length read)
    {writes : List Write} {memory : Memory}
    (before : ∀ write ∈ writes, write.start + write.bytes.length ≤ start) :
    read (writes.foldl Memory.store memory) start = read memory start := by
  induction writes generalizing memory with
  | nil => rfl
  | cons write writes ih =>
      obtain ⟨first, others⟩ := List.forall_mem_cons.mp before
      exact (ih others).trans (reads.beside (.inr first))

end

/-- A statement that stores once or not at all. What it stores, and whether, may
depend on what it reads. -/
abbrev Assignment := Memory → Option Write

def Memory.assign (memory : Memory) (assignment : Assignment) : Memory :=
  match assignment memory with
  | some write => memory.store write
  | none => memory

def Memory.run (memory : Memory) (assignments : List Assignment) : Memory := assignments.foldl Memory.assign memory

/-- Values in a row, each `width` bytes behind the one before. -/
def readTable {α : Type u} (read : Memory → Nat → α) (width count : Nat) (memory : Memory) (base : Nat) : List α :=
  (List.range count).map fun i => read memory (base + i * width)

def readVector {α : Type u} (read : Memory → Nat → α) (width count : Nat) (memory : Memory) (base : Nat) :
    List.Vector α count :=
  .ofFn fun i => read memory (base + i * width)

section

variable {α : Type u} {read : Memory → Nat → α} {width count length base i start : Nat} {memory : Memory}
  {assignment : Assignment} {change : α → α}

theorem Local.table (reads : Local width read) : Local (count * width) (readTable read width count) := by
  intro left right base same
  apply List.map_congr_left
  intro i member
  apply reads
  intro j inside
  have upTo : (i + 1) * width ≤ count * width := Nat.mul_le_mul_right width (List.mem_range.mp member)
  rw [Nat.succ_mul] at upTo
  rw [Nat.add_assoc]
  exact same (i * width + j) (by omega)

theorem Local.vector (reads : Local width read) : Local (count * width) (readVector read width count) := by
  intro left right base same
  apply List.Vector.ext
  intro i
  rw [readVector, readVector, List.Vector.get_ofFn, List.Vector.get_ofFn]
  apply reads
  intro j inside
  have upTo : (i.val + 1) * width ≤ count * width := Nat.mul_le_mul_right width i.isLt
  rw [Nat.succ_mul] at upTo
  rw [Nat.add_assoc]
  exact same (i * width + j) (by omega)

/-- An assignment stays in a place, and this is what it does to the value there. -/
structure Changes (read : Memory → Nat → α) (length start : Nat) (assignment : Assignment) (change : α → α) :
    Prop where
  within : ∀ memory write, assignment memory = some write → write.Within start length
  result : ∀ memory, read (memory.assign assignment) start = change (read memory start)

theorem Memory.assign_some {write : Write} (stores : assignment memory = some write) :
    memory.assign assignment = memory.store write := by
  rw [Memory.assign, stores]

/-- A place beside the one that is assigned to. -/
theorem Changes.beside {β : Type*} {other : Memory → Nat → β} {room place : Nat}
    (changes : Changes read length start assignment change) (reads : Local room other)
    (apart : place + room ≤ start ∨ start + length ≤ place) :
    other (memory.assign assignment) place = other memory place := by
  cases stores : assignment memory with
  | none => rw [Memory.assign, stores]
  | some write =>
      rw [Memory.assign_some stores]
      exact reads.frame (Extent.Within.disjoint ⟨Nat.le_refl _, Nat.le_refl _⟩
        (changes.within memory write stores) apart)

/-- One cell of a row. -/
theorem Changes.cell (changes : Changes read width (base + i * width) assignment change)
    (reads : Local width read) (j : Nat) :
    read (memory.assign assignment) (base + j * width) =
      if i = j then change (read memory (base + j * width)) else read memory (base + j * width) := by
  split
  · rename_i same
    subst same
    exact changes.result memory
  · rename_i other
    apply changes.beside reads
    rcases Nat.lt_or_gt_of_ne other with behind | before
    · have upTo : (i + 1) * width ≤ j * width := Nat.mul_le_mul_right width behind
      rw [Nat.succ_mul] at upTo
      omega
    · have upTo : (j + 1) * width ≤ i * width := Nat.mul_le_mul_right width before
      rw [Nat.succ_mul] at upTo
      omega

theorem Changes.table (changes : Changes read width (base + i * width) assignment change)
    (reads : Local width read) (count : Nat) :
    readTable read width count (memory.assign assignment) base =
      (readTable read width count memory base).modify i change := by
  apply List.ext_getElem
  · rw [List.length_modify, readTable, readTable, List.length_map, List.length_map]
  · intro j inside _
    rw [List.getElem_modify]
    simp only [readTable, List.getElem_map, List.getElem_range]
    exact changes.cell reads j

theorem Changes.vector {i : Fin count} (changes : Changes read width (base + i * width) assignment change)
    (reads : Local width read) :
    Changes (readVector read width count) (count * width) base assignment
      fun values => values.set i (change (values.get i)) where
  within memory write stores := by
    obtain ⟨lower, upper⟩ := changes.within memory write stores
    have upTo : (i.val + 1) * width ≤ count * width := Nat.mul_le_mul_right width i.isLt
    rw [Nat.succ_mul] at upTo
    simp only [Write.Within, Extent.Within, Extent.finish] at lower upper ⊢
    omega
  result memory := by
    apply List.Vector.ext
    intro j
    by_cases same : i = j
    · subst same
      rw [List.Vector.get_set_same]
      simp only [readVector, List.Vector.get_ofFn]
      exact changes.result memory
    · rw [List.Vector.get_set_of_ne same]
      simp only [readVector, List.Vector.get_ofFn]
      rw [changes.cell reads j, if_neg fun equal => same (Fin.ext equal)]

end

/-- `strcpy` of what is known before. -/
def copyString (start : Nat) (src : List UInt8) : Assignment := fun _ => some (.string start src)

def copyWord (width start value : Nat) : Assignment := fun _ => some (.word width start value)

/-- `*place = change(*place)` for the `unsigned int` at `start`. -/
def setWord (start : Nat) (change : UInt32 → UInt32) : Assignment := fun memory =>
  some (.word 4 start (change (memory.u32 start)).toNat)

section

variable {α : Type u} {read : Memory → Nat → α} {length start place : Nat} {change : α → α}

theorem copyString_changes {n : Nat} {src : List UInt8} (short : (cstr src).length < n) (lower : start ≤ place)
    (upper : place + n ≤ start + length)
    (result : ∀ memory : Memory, read (memory.store (.string place src)) start = change (read memory start)) :
    Changes read length start (copyString place src) change where
  within memory write stores := by
    cases stores
    have ends : place + ((cstr src).length + 1) ≤ place + n := Nat.add_le_add_left short place
    refine ⟨lower, ?_⟩
    simp only [Write.extent, Extent.finish, Write.string_start, Write.string_length]
    omega
  result := result

theorem copyWord_changes {width value : Nat} (lower : start ≤ place) (upper : place + width ≤ start + length)
    (result : ∀ memory : Memory,
      read (memory.store (.word width place value)) start = change (read memory start)) :
    Changes read length start (copyWord width place value) change where
  within memory write stores := by
    cases stores
    refine ⟨lower, ?_⟩
    simpa only [Write.extent, Extent.finish, Write.word_start, Write.word_length] using upper
  result := result

theorem setWord_changes (start : Nat) (change : UInt32 → UInt32) :
    Changes Memory.u32 4 start (setWord start change) change where
  within memory write stores := by
    cases stores
    exact ⟨Nat.le_refl _, by simp [Write.extent, Extent.finish]⟩
  result memory := Memory.u32_word _

theorem string_changes {n : Nat} {src : List UInt8} (short : (cstr src).length < n) :
    Changes (Memory.chars n) n start (copyString start src) fun array => strcpy array src :=
  copyString_changes short (Nat.le_refl _) (Nat.le_refl _) fun _ => Memory.chars_string short

end

/-- Nothing is stored past the end of a segment of `size` bytes. -/
def StaysInside (size : Int) (assignment : Assignment) : Prop :=
  ∀ memory write, assignment memory = some write → write.extent.Inside size

theorem Changes.inside {α : Type u} {read : Memory → Nat → α} {length start : Nat} {assignment : Assignment}
    {change : α → α} (changes : Changes read length start assignment change) {size : Int}
    (room : (start + length : Nat) ≤ size) : StaysInside size assignment :=
  fun memory write stores => (changes.within memory write stores).inside room

/-- In a segment that is as `holds` says the assignment stays inside, and what
is seen of the segment changes as `store` says. -/
structure Realizes {α : Type u} (holds : Memory → Prop) (size : Int) (view : Memory → α) (assignment : Assignment)
    (store : α → α) : Prop where
  inside : StaysInside size assignment
  kept : ∀ memory, holds memory → holds (memory.assign assignment)
  seen : ∀ memory, holds memory → view (memory.assign assignment) = store (view memory)

section

variable {α : Type u} {holds : Memory → Prop} {size : Int} {view : Memory → α} {assignments : List Assignment}
  {stores : List (α → α)} {memory : Memory}

/-- Assignments that realize one store each realize all of them in a row. -/
theorem realizes_run (each : List.Forall₂ (Realizes holds size view) assignments stores) (held : holds memory) :
    holds (memory.run assignments) ∧
      view (memory.run assignments) = stores.foldl (fun value store => store value) (view memory) := by
  induction each generalizing memory with
  | nil => exact ⟨held, rfl⟩
  | cons first _ ih =>
      obtain ⟨kept, seen⟩ := ih (first.kept memory held)
      refine ⟨kept, seen.trans ?_⟩
      rw [first.seen memory held]
      rfl

theorem realizes_inside (each : List.Forall₂ (Realizes holds size view) assignments stores) :
    ∀ assignment ∈ assignments, StaysInside size assignment := by
  induction each with
  | nil => simp
  | cons first _ ih => exact List.forall_mem_cons.mpr ⟨first.inside, ih⟩

end

end Data
