import RustyCore.DyadicBlocks
import RustyCore.RustArithmetic

namespace RustyCore

-- `bootloader_api::info`: the kernel only ever asks whether a region is `Usable`.
inductive MemoryRegionKind where
  | usable
  | bootloader
  | unknownUefi (code : UInt32)
  | unknownBios (code : UInt32)
  deriving DecidableEq, Repr

structure MemoryRegion where
  start : ℕ
  end_ : ℕ
  kind : MemoryRegionKind
  start_lt : start < 2^64
  end_lt : end_ < 2^64

def MemoryRegion.usable (start end_ : UInt64) : MemoryRegion := ⟨start.toNat,end_.toNat,.usable,start.toNat_lt,end_.toNat_lt⟩

def BUDDY_MAX_ORDER : ℕ := 12
def BUDDY_ORDERS : ℕ := BUDDY_MAX_ORDER+1
-- Irreducible so that `addr + FRAME_SIZE` is never unfolded one by one.
@[irreducible] def FRAME_SIZE : ℕ := 4096
def MIN_ADDR : ℕ := 0x1000

-- `PhysFrame<Size4KiB>`: its constructors align the address down and refuse bits 52..64.
structure PhysFrame where
  startAddress : ℕ
  aligned : startAddress % FRAME_SIZE = 0
  bounded : startAddress < 2^52
  deriving DecidableEq

def PhysFrame.containingAddress (addr : ℕ) : Except Fault PhysFrame :=
  if fits : addr < 2^52 then
    .ok ⟨addr-addr % FRAME_SIZE,by simp only [FRAME_SIZE]; omega,by omega⟩
  else .error (.panicked "physical addresses must not have any bits in the range 52 to 64 set")

theorem PhysFrame.containing_start (framed : PhysFrame.containingAddress addr = .ok f) (grain : FRAME_SIZE ∣ addr) :
    f.startAddress = addr := by
  unfold PhysFrame.containingAddress at framed
  split at framed
  · cases framed
    simp only [Nat.mod_eq_zero_of_dvd grain,Nat.sub_zero]
  · cases framed

def push (list : List ℕ) (addr : ℕ) : List ℕ := list ++ [addr]

def pop (list : List ℕ) : Option (ℕ × List ℕ) := list.getLast?.map (·,list.dropLast)

def swapRemove (list : List ℕ) (pos : ℕ) : List ℕ :=
  match list.getLast? with
  | none => list
  | some last => (list.set pos last).dropLast

-- `free_lists[o]`; only the orders `o ≤ BUDDY_MAX_ORDER` are ever read or written.
abbrev FreeLists := ℕ → List ℕ

def FreeLists.push (lists : FreeLists) (order addr : ℕ) : FreeLists :=
  Function.update lists order (RustyCore.push (lists order) addr)

structure BuddyFrameAllocator where
  regions : List MemoryRegion
  regionIdx : ℕ
  nextAddr : ℕ
  active : Bool
  freeLists : FreeLists
  allocated : ℕ

namespace BuddyFrameAllocator

def new (regions : List MemoryRegion) : BuddyFrameAllocator :=
  ⟨regions,0,0,false,fun _ => [],0⟩

-- The cursor loop of `bump_one`: `rest` is the map from `region_idx` on, and every
-- `continue` moves on with `next_addr = 0`. The last overflow guard returns instead,
-- and leaves the cursor where it stands.
def cursor : List MemoryRegion → ℕ → ℕ → Option ℕ × ℕ × ℕ
  | [],regionIdx,nextAddr => (none,regionIdx,nextAddr)
  | region :: rest,regionIdx,nextAddr =>
    if region.kind ≠ .usable then cursor rest (regionIdx+1) 0
    else match checkedNextMultipleOf region.start FRAME_SIZE with
      | none => cursor rest (regionIdx+1) 0
      | some aligned =>
        let addr := max (max aligned nextAddr) MIN_ADDR
        match checkedAdd addr FRAME_SIZE with
        | none => (none,regionIdx,nextAddr)
        | some frameEnd =>
          if frameEnd > region.end_ then cursor rest (regionIdx+1) 0
          else (some addr,regionIdx,frameEnd)

def bumpOne (a : BuddyFrameAllocator) : Option ℕ × BuddyFrameAllocator :=
  let (addr,regionIdx,nextAddr) := cursor (a.regions.drop a.regionIdx) a.regionIdx a.nextAddr
  (addr,{a with regionIdx := regionIdx, nextAddr := nextAddr})

-- The inner `loop` of `activate`, counting `order` down. At order 0 both exits break.
def fittingOrder (remaining start : ℕ) : ℕ → ℕ
  | 0 => 0
  | order+1 =>
    let size := 2^(order+1+12)
    if size ≤ remaining ∧ start % size = 0 then order+1 else fittingOrder remaining start order

-- `while start + FRAME_SIZE <= end`, one unit of fuel for each test of the condition.
def carve (p : Profile) (end_ : ℕ) : ℕ → ℕ → FreeLists → Except Fault FreeLists
  | 0,_,_ => .error .diverged
  | fuel+1,start,lists => do
    let next ← p.add start FRAME_SIZE
    if next ≤ end_ then
      let remaining ← p.sub end_ start
      let order := fittingOrder remaining start BUDDY_MAX_ORDER
      let start' ← p.add start (2^(order+12))
      carve p end_ fuel start' (lists.push order start)
    else .ok lists

-- The body of `activate`'s loop for the region at index `i`; `end & !(FRAME_SIZE - 1)`
-- clears the low twelve bits.
def listRegion (p : Profile) (fuel : ℕ) (regionIdx nextAddr i : ℕ) (region : MemoryRegion)
    (lists : FreeLists) : Except Fault FreeLists :=
  if region.kind ≠ .usable then .ok lists
  else if region.end_ ≤ region.start then .ok lists
  else do
    let start := max (← p.nextMultipleOf region.start FRAME_SIZE) MIN_ADDR
    if i = regionIdx then
      let start := max start (← p.nextMultipleOf nextAddr FRAME_SIZE)
      carve p (region.end_-region.end_ % FRAME_SIZE) fuel start lists
    else if i < regionIdx then .ok lists
    else carve p (region.end_-region.end_ % FRAME_SIZE) fuel start lists

def listRegions (p : Profile) (fuel : ℕ) (regionIdx nextAddr : ℕ) :
    ℕ → List MemoryRegion → FreeLists → Except Fault FreeLists
  | _,[],lists => .ok lists
  | i,region :: rest,lists => do
    let lists ← listRegion p fuel regionIdx nextAddr i region lists
    listRegions p fuel regionIdx nextAddr (i+1) rest lists

def activate (p : Profile) (fuel : ℕ) (a : BuddyFrameAllocator) : Except Fault BuddyFrameAllocator := do
  assert (!a.active) "buddy activate called twice"
  let lists ← listRegions p fuel a.regionIdx a.nextAddr 0 a.regions a.freeLists
  .ok {a with freeLists := lists, regionIdx := a.regions.length, nextAddr := U64_MAX, active := true}

-- `take_block`, recursive in the orders still above: with none left the order is past
-- `BUDDY_MAX_ORDER`.
def takeFrom (p : Profile) : ℕ → ℕ → FreeLists → Except Fault (Option ℕ × FreeLists)
  | 0,_,lists => .ok (none,lists)
  | above+1,order,lists =>
    match pop (lists order) with
    | some (addr,rest) => .ok (some addr,Function.update lists order rest)
    | none => do
      match ← takeFrom p above (order+1) lists with
      | (none,lists) => .ok (none,lists)
      | (some higher,lists) =>
        let parked ← p.add higher (2^(order+12))
        .ok (some higher,lists.push order parked)

def takeBlock (a : BuddyFrameAllocator) (p : Profile) (order : ℕ) :
    Except Fault (Option ℕ × BuddyFrameAllocator) := do
  let (addr,lists) ← takeFrom p (BUDDY_ORDERS-order) order a.freeLists
  .ok (addr,{a with freeLists := lists})

def freeFrames (p : Profile) (a : BuddyFrameAllocator) : Except Fault ℕ :=
  (List.range BUDDY_ORDERS).foldlM (fun n order => do
    p.add n (← p.mul (a.freeLists order).length (2^order))) 0

def allocatedFrames (a : BuddyFrameAllocator) : ℕ := a.allocated

def chooseAddr (a : BuddyFrameAllocator) (p : Profile) : Except Fault (Option ℕ × BuddyFrameAllocator) :=
  if a.active then a.takeBlock p 0 else .ok a.bumpOne

def allocateFrame (p : Profile) (a : BuddyFrameAllocator) :
    Except Fault (Option PhysFrame × BuddyFrameAllocator) := do
  match ← a.chooseAddr p with
  | (none,a) => .ok (none,a)
  | (some addr,a) =>
    p.debugAssert (addr % FRAME_SIZE == 0) "assertion `left == right` failed"
    p.debugAssert (decide (MIN_ADDR ≤ addr)) "buddy handed out the zero page"
    let allocated ← p.add a.allocated 1
    let frame ← PhysFrame.containingAddress addr
    .ok (some frame,{a with allocated := allocated})

-- The merge loop of `deallocate_frame`, recursive in the orders still above `order`.
def mergeFrom : ℕ → ℕ → ℕ → FreeLists → FreeLists
  | 0,order,addr,lists => lists.push order addr
  | above+1,order,addr,lists =>
    let buddy := addr ^^^ 2^(order+12)
    match (lists order).idxOf? buddy with
    | some pos =>
      mergeFrom above (order+1) (min addr buddy) (Function.update lists order (swapRemove (lists order) pos))
    | none => lists.push order addr

def deallocateFrame (frame : PhysFrame) (a : BuddyFrameAllocator) : Except Fault BuddyFrameAllocator := do
  assert a.active "buddy free before activate — nothing handed out in bump mode may be freed yet"
  let addr := frame.startAddress
  assert (addr % FRAME_SIZE == 0) "buddy free of unaligned frame"
  assert (decide (MIN_ADDR ≤ addr)) "buddy free of the zero page"
  .ok {a with freeLists := mergeFrom BUDDY_MAX_ORDER 0 addr a.freeLists, allocated := a.allocated-1}

end BuddyFrameAllocator

-- bump.rs

structure BootFrameAllocator where
  regions : List MemoryRegion
  regionIdx : ℕ
  nextAddr : ℕ

namespace BootFrameAllocator

def new (regions : List MemoryRegion) : BootFrameAllocator := ⟨regions,0,0⟩

def advance (a : BootFrameAllocator) : BootFrameAllocator := {a with regionIdx := a.regionIdx+1, nextAddr := 0}

-- The loop of `allocate_frame`, up to the address of the frame; `rest` is the map from
-- `region_idx` on. The source writes 4096 and 0x1000 out.
def walk : List MemoryRegion → BootFrameAllocator → Option ℕ × BootFrameAllocator
  | [],a => (none,a)
  | region :: rest,a =>
    if region.kind ≠ .usable then walk rest a.advance
    else match checkedNextMultipleOf region.start FRAME_SIZE with
      | none => walk rest a.advance
      | some aligned =>
        let addr := max (max aligned a.nextAddr) MIN_ADDR
        match checkedAdd addr FRAME_SIZE with
        | none => (none,a)
        | some frameEnd =>
          if frameEnd > region.end_ then walk rest a.advance
          else (some addr,{a with nextAddr := frameEnd})

def nextFrame (a : BootFrameAllocator) : Option ℕ × BootFrameAllocator := walk (a.regions.drop a.regionIdx) a

def allocateFrame (a : BootFrameAllocator) : Except Fault (Option PhysFrame × BootFrameAllocator) := do
  match a.nextFrame with
  | (none,a) => .ok (none,a)
  | (some addr,a) =>
    let frame ← PhysFrame.containingAddress addr
    .ok (some frame,a)

end BootFrameAllocator
end RustyCore
