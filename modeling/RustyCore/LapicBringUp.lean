import RustyCore.MmioWindow

namespace RustyCore
open PageTables RadixTables List

-- apic.rs

def APIC_BASE_MASK : BitVec 64 := 0x000FFFFFFFFFF000#64
def FALLBACK_BASE : ℕ := 0xFEE00000
def EOI_OFFSET : ℕ := 0xB0
def ID_OFFSET : ℕ := 0x20
def VER_OFFSET : ℕ := 0x30
def TPR_OFFSET : ℕ := 0x80
def SVR_OFFSET : ℕ := 0xF0
def LVT_TIMER_OFFSET : ℕ := 0x320
def DCR_OFFSET : ℕ := 0x3E0
def ICR_OFFSET : ℕ := 0x380
def CCR_OFFSET : ℕ := 0x390
def PIT_HZ : ℕ := 100
def CALIB_PIT_TICKS : ℕ := 10
@[irreducible] def SPIN_GUARD : ℕ := 10000000

structure Probe where
  present : Bool
  base : ℕ
  enabled : Bool
  bsp : Bool
  haveRsdp : Bool
  deriving DecidableEq, Repr

def probe (edx : BitVec 32) (msr : BitVec 64) (rsdpAddr : Option ℕ) : Probe :=
  let base := (msr &&& APIC_BASE_MASK).toNat
  { present := edx &&& (1#32 <<< 9) != 0#32
    base := if base = 0 then FALLBACK_BASE else base
    enabled := msr &&& (1#64 <<< 11) != 0#64
    bsp := msr &&& (1#64 <<< 8) != 0#64
    haveRsdp := rsdpAddr.isSome }

inductive Access where
  | read (phys : ℕ) (value : BitVec 32)
  | write (phys : ℕ) (value : BitVec 32)
  deriving DecidableEq, Repr

def Access.phys : Access → ℕ
  | .read phys _ => phys
  | .write phys _ => phys

-- What the program meets: the registers answer by what was done to them before, and the loads of
-- `TIMER_TICKS` return what the PIT has counted.
structure Hardware where
  cr3 : ℕ
  answer : List Access → ℕ → BitVec 32
  timerTicks : ℕ → ℕ

structure Lapic (α : Type) where
  tables : Tables
  frames : α
  lapicVirt : ℕ
  eoiBase : ℕ
  ticksPer10ms : ℕ
  accesses : List Access
  loads : ℕ

abbrev Apic (α β : Type) := ExceptT String (StateT (Lapic α) (Except Fault)) β

def Apic.on (x : Apic α β) (st : Lapic α) : Except Fault (Except String β × Lapic α) := StateT.run (ExceptT.run x) st

namespace Apic
variable {α : Type}

def checked (value : Except Fault β) : Apic α β := ExceptT.mk fun st => do
  let value ← value
  .ok (.ok value,st)

def change (f : Lapic α → Lapic α) : Apic α Unit := ExceptT.mk fun st => .ok (.ok (),f st)

def look (f : Lapic α → β) : Apic α β := ExceptT.mk fun st => .ok (.ok (f st),st)

-- A volatile access goes where the page tables say; a write needs the right to write.
def readVolatile (hw : Hardware) (virt : ℕ) : Apic α (BitVec 32) := ExceptT.mk fun st =>
  match translate st.tables hw.cr3 virt with
  | none => .error (.panicked "EXCEPTION: page fault")
  | some phys => .ok (.ok (hw.answer st.accesses phys),
      {st with accesses := st.accesses ++ [.read phys (hw.answer st.accesses phys)]})

def writeVolatile (hw : Hardware) (virt : ℕ) (value : BitVec 32) : Apic α Unit := ExceptT.mk fun st =>
  match translate st.tables hw.cr3 virt,writable (trail view st.tables hw.cr3 (path virt)) with
  | some phys,true => .ok (.ok (),{st with accesses := st.accesses ++ [.write phys value]})
  | _,_ => .error (.panicked "EXCEPTION: page fault")

def loadTimer (hw : Hardware) : Apic α ℕ := ExceptT.mk fun st => .ok (.ok (hw.timerTicks st.loads),{st with loads := st.loads+1})

def mapMmioWindow (x86 : Paging Fault) (allocate : α → Except Fault (Option ℕ × α)) (hw : Hardware) (phys : ℕ) : Apic α ℕ :=
  ExceptT.mk fun st => do
  let (answer,tables,frames) ← RustyCore.mapMmioWindow x86 allocate hw.cr3 phys st.tables st.frames
  .ok (answer,{st with tables := tables, frames := frames})

def lapicReg (winBase off : ℕ) : Apic α ℕ :=
  match checkedAdd winBase off with
  | some addr => pure addr
  | none => throw "apic register address overflows"

-- `apic::init`; what it reads at the end goes to the log.
def init (p : Profile) (x86 : Paging Fault) (allocate : α → Except Fault (Option ℕ × α)) (hw : Hardware) (probe : Probe) :
    Apic α Unit := do
  if !probe.present then throw "no local APIC present (CPUID bit 9 clear)"
  if !probe.enabled then throw "APIC soft-disabled (IA32_APIC_BASE bit 11 clear) — refusing to pretend"
  let base ← mapMmioWindow x86 allocate hw probe.base
  change ({· with lapicVirt := base})
  let eoi ← checked (p.add base EOI_OFFSET)
  change ({· with eoiBase := eoi})
  let svr ← lapicReg base SVR_OFFSET
  writeVolatile hw svr 0x1FF#32
  let lvtTimer ← lapicReg base LVT_TIMER_OFFSET
  let lvt ← readVolatile hw lvtTimer
  writeVolatile hw lvtTimer (lvt ||| 1#32 <<< 16)
  let tpr ← lapicReg base TPR_OFFSET
  writeVolatile hw tpr 0#32
  let _ ← readVolatile hw (← lapicReg base ID_OFFSET)
  let _ ← readVolatile hw (← lapicReg base VER_OFFSET)
  let _ ← readVolatile hw svr
  pure ()

def calibrateTicks (delta pitHz pitTicks : ℕ) : ℕ :=
  if pitHz = 0 ∨ pitTicks = 0 then 0
  else min (delta*(pitHz / 100)) U64_MAX / pitTicks

def rulerReached (hw : Hardware) (start : ℕ) : Apic α Bool := do
  let now ← loadTimer hw
  pure (decide (CALIB_PIT_TICKS ≤ (now+2^64-start) % 2^64))

def awaitRuler (hw : Hardware) (start : ℕ) : ℕ → Apic α Unit
  | 0 => do
    if ← rulerReached hw start then pure ()
    else throw "apic: PIT produced no ticks during calibration — timer dead?"
  | left+1 => do
    if ← rulerReached hw start then pure () else awaitRuler hw start left

def calibrateRound (hw : Hardware) (win : ℕ) : Apic α (BitVec 32) := do
  writeVolatile hw (← lapicReg win ICR_OFFSET) 0xFFFFFFFF#32
  let start ← loadTimer hw
  awaitRuler hw start SPIN_GUARD
  let cur ← readVolatile hw (← lapicReg win CCR_OFFSET)
  let delta := 0xFFFFFFFF#32-cur
  if delta = 0#32 then throw "apic: CCR delta is zero — MMIO writes lost (NO_CACHE missing?)"
  else pure delta

def median (a b c : ℕ) : ℕ := max (min a b) (min c (max a b))

def calibrate (hw : Hardware) : Apic α ℕ := do
  let win ← look (·.lapicVirt)
  if win = 0 then throw "apic: calibrate before init — LAPIC window not mapped"
  else do
    writeVolatile hw (← lapicReg win DCR_OFFSET) 0x3#32
    let a ← calibrateRound hw win
    let b ← calibrateRound hw win
    let c ← calibrateRound hw win
    let per10ms := calibrateTicks (median a.toNat b.toNat c.toNat) PIT_HZ CALIB_PIT_TICKS
    if per10ms = 0 then throw "apic: calibrated rate is zero — refusing to program it"
    else do
      change ({· with ticksPer10ms := per10ms})
      pure per10ms

def startPeriodic (hw : Hardware) : Apic α ℕ := do
  let win ← look (·.lapicVirt)
  if win = 0 then throw "apic: start_periodic before init — LAPIC window not mapped"
  else do
    let quantum ← look (·.ticksPer10ms)
    if quantum = 0 ∨ 2^32-1 < quantum then throw "apic: no calibrated rate — refusing to program a zero/huge ICR"
    else do
      writeVolatile hw (← lapicReg win LVT_TIMER_OFFSET) (0xEF#32 ||| 1#32 <<< 17)
      writeVolatile hw (← lapicReg win ICR_OFFSET) (BitVec.ofNat 32 quantum)
      pure quantum

section runs
variable {β γ : Type} {x : Apic α β} {f : β → Apic α γ} {st st' : Lapic α} {hw : Hardware}

theorem on_bind : (x >>= f).on st = (x.on st).bind fun r => match r with
    | (.ok a,st') => (f a).on st'
    | (.error e,st') => .ok (.error e,st') := by
  simp only [on,ExceptT.run_bind,StateT.run_bind]
  cases StateT.run (ExceptT.run x) st with
  | error fault => rfl
  | ok r =>
      obtain ⟨answer,st'⟩ := r
      cases answer <;> rfl

theorem on_step (ran : x.on st = .ok (.ok a,st')) : (x >>= f).on st = (f a).on st' := by
  simp [on_bind,ran,Except.bind]

theorem on_stop (ran : x.on st = .ok (.error e,st')) : (x >>= f).on st = .ok (.error e,st') := by
  simp [on_bind,ran,Except.bind]

@[simp] theorem on_pure (a : β) : (pure a : Apic α β).on st = .ok (.ok a,st) := rfl
@[simp] theorem on_throw (e : String) : (throw e : Apic α β).on st = .ok (.error e,st) := rfl
@[simp] theorem on_change (g : Lapic α → Lapic α) : (change g).on st = .ok (.ok (),g st) := rfl
@[simp] theorem on_look (g : Lapic α → β) : (look g).on st = .ok (.ok (g st),st) := rfl
@[simp] theorem on_checked (a : β) : (checked (.ok a) : Apic α β).on st = .ok (.ok a,st) := rfl
@[simp] theorem on_loadTimer : (loadTimer hw : Apic α ℕ).on st = .ok (.ok (hw.timerTicks st.loads),{st with loads := st.loads+1}) := rfl

end runs

structure Ready (hw : Hardware) (base : ℕ) (st : Lapic α) : Prop where
  device : DevicePage st.tables hw.cr3 base
  lapicVirt : st.lapicVirt = MMIO_WINDOW
  eoiBase : st.eoiBase = MMIO_WINDOW+EOI_OFFSET

section window
variable {γ : Type} {hw : Hardware} {base off : ℕ} {st : Lapic α} {tables : Tables}

theorem step_reg (inside : off < 4096) (k : ℕ → Apic α γ) : (lapicReg MMIO_WINDOW off >>= k).on st = (k (MMIO_WINDOW+off)).on st := by
  have fits : MMIO_WINDOW+off < 2^64 := by norm_num [MMIO_WINDOW]; omega
  simp only [lapicReg,checkedAdd,fits,if_true]
  exact on_step (on_pure _)

variable (device : DevicePage tables hw.cr3 base) (inside : off < 4096) (same : st.tables = tables)
include device inside same

theorem on_write (value : BitVec 32) : (writeVolatile hw (MMIO_WINDOW+off) value).on st =
    .ok (.ok (),{st with accesses := st.accesses ++ [.write (base+off) value]}) := by
  have shows := device.shows off inside
  have right := device.writable
  rw [← window_path inside] at right
  simp only [on,writeVolatile,ExceptT.run_mk,StateT.run,same,shows,right]

theorem step_write (value : BitVec 32) (k : Unit → Apic α γ) : (writeVolatile hw (MMIO_WINDOW+off) value >>= k).on st =
    (k ()).on {st with accesses := st.accesses ++ [.write (base+off) value]} :=
  on_step (on_write device inside same value)

theorem step_read (k : BitVec 32 → Apic α γ) : (readVolatile hw (MMIO_WINDOW+off) >>= k).on st =
    (k (hw.answer st.accesses (base+off))).on
      {st with accesses := st.accesses ++ [.read (base+off) (hw.answer st.accesses (base+off))]} := by
  have shows := device.shows off inside
  refine on_step ?_
  simp only [on,readVolatile,ExceptT.run_mk,StateT.run,same,shows]

end window

def enabling (base : ℕ) (lvt id ver svr : BitVec 32) : List Access :=
  [.write (base+SVR_OFFSET) 0x1FF#32,.read (base+LVT_TIMER_OFFSET) lvt,.write (base+LVT_TIMER_OFFSET) (lvt ||| 1#32 <<< 16),
    .write (base+TPR_OFFSET) 0#32,.read (base+ID_OFFSET) id,.read (base+VER_OFFSET) ver,.read (base+SVR_OFFSET) svr]

theorem on_init {st : Lapic α} {probe : Probe} (p : Profile) (present : probe.present = true) (enabled : probe.enabled = true)
    (mapped : RustyCore.mapMmioWindow x86 allocate hw.cr3 probe.base st.tables st.frames = .ok (.ok MMIO_WINDOW,tables,frames))
    (device : DevicePage tables hw.cr3 base) : ∃ lvt id ver svr, (init p x86 allocate hw probe).on st = .ok (.ok (),
      {st with
        tables := tables, frames := frames, lapicVirt := MMIO_WINDOW, eoiBase := MMIO_WINDOW+EOI_OFFSET
        accesses := st.accesses ++ enabling base lvt id ver svr}) := by
  have window : (mapMmioWindow x86 allocate hw probe.base).on st = .ok (.ok MMIO_WINDOW,{st with tables := tables, frames := frames}) := by
    simp only [on,mapMmioWindow,ExceptT.run_mk,StateT.run,mapped,ok_bind]
  have fits : p.add MMIO_WINDOW EOI_OFFSET = .ok (MMIO_WINDOW+EOI_OFFSET) :=
    Profile.add_small (by norm_num [MMIO_WINDOW,EOI_OFFSET])
  simp (disch := first | rfl | decide) only [init,present,enabled,Bool.not_true,Bool.false_eq_true,if_false,on_step window,
    on_step (on_change _),fits,on_step (on_checked _),step_reg,step_write device,step_read device,on_pure,
    append_assoc,cons_append,nil_append]
  exact ⟨_,_,_,_,rfl⟩

theorem probe_base (edx : BitVec 32) (msr : BitVec 64) (rsdpAddr : Option ℕ) :
    (probe edx msr rsdpAddr).base % 4096 = 0 ∧ (probe edx msr rsdpAddr).base < 2^52 := by
  have aligned : (msr &&& APIC_BASE_MASK).toNat % 4096 = 0 := addr_aligned
  have small : (msr &&& APIC_BASE_MASK).toNat ≤ APIC_BASE_MASK.toNat := by
    rw [BitVec.toNat_and]
    exact Nat.and_le_right
  have mask : APIC_BASE_MASK.toNat < 2^52 := by decide
  simp only [probe]
  split
  · exact ⟨by decide,by decide⟩
  · exact ⟨aligned,by omega⟩

def CanMap (probe : Probe) (T : Tables) (cr3 : ℕ) (pending : List ℕ) : Prop :=
  probe.present = true ∧ probe.enabled = true ∧ target view T cr3 (path MMIO_WINDOW) = none ∧
    missing T cr3 (path MMIO_WINDOW) ≤ pending.length

structure Enabled (hw : Hardware) (base : ℕ) (st st' : Lapic α) : Prop extends Ready hw base st' where
  rate : st'.ticksPer10ms = st.ticksPer10ms
  loads : st'.loads = st.loads
  accesses : ∃ lvt id ver svr, st'.accesses = st.accesses ++ enabling base lvt id ver svr

structure InitRun (stock : α → List ℕ → Prop) (limit : ℕ) (hw : Hardware) (probe : Probe) (pending : List ℕ) (st st' : Lapic α)
    (result : Except String Unit) (k : ℕ) (changed : List (List ℕ)) : Prop where
  few : k ≤ pending.length
  stocked : stock st'.frames (pending.drop k)
  intact : Intact st'.tables hw.cr3 3 limit (pending.drop k)
  grown : Grown (parentFlags MMIO_FLAGS) st.tables st'.tables hw.cr3 3 (pending.take k) changed
  only : ∀ page ∈ changed, page = path MMIO_WINDOW
  ending : result = .ok () ∧ CanMap probe st.tables hw.cr3 pending ∧ Enabled hw probe.base st st' ∨
    (∃ text, result = .error text) ∧ ¬ CanMap probe st.tables hw.cr3 pending ∧ changed = [] ∧
      st' = {st with tables := st'.tables, frames := st'.frames}

section init
variable {x86 : Paging Fault} {allocate : α → Except Fault (Option ℕ × α)} {stock : α → List ℕ → Prop} {limit : ℕ} {hw : Hardware}
  {st : Lapic α} {pending : List ℕ} (p : Profile) (documented : x86.Documented limit) (supplies : Supplies allocate stock)
  (intact : Intact st.tables hw.cr3 3 limit pending) (stocked : stock st.frames pending) (sound : RootSound st.tables hw.cr3)
include documented supplies intact stocked sound

theorem init_spec {found : Probe} (aligned : found.base % 4096 = 0) (small : found.base < 2^52) : ∃ result st' k changed,
    (init p x86 allocate hw found).on st = .ok (result,st') ∧ InitRun stock limit hw found pending st st' result k changed := by
  -- A refusal before the page tables are touched.
  have early : ∀ text, (init p x86 allocate hw found).on st = .ok (.error text,st) → ¬ CanMap found st.tables hw.cr3 pending →
      ∃ result st' k changed, (init p x86 allocate hw found).on st = .ok (result,st') ∧
        InitRun stock limit hw found pending st st' result k changed := fun text stops cannot =>
    ⟨.error text,st,0,[],stops,Nat.zero_le _,stocked,intact,Grown.refl ..,by simp,Or.inr ⟨⟨text,rfl⟩,cannot,rfl,rfl⟩⟩
  cases present : found.present with
  | false => exact early "no local APIC present (CPUID bit 9 clear)" (by simp [init,present]) (by simp [CanMap,present])
  | true =>
      cases enabled : found.enabled with
      | false =>
          exact early "APIC soft-disabled (IA32_APIC_BASE bit 11 clear) — refusing to pretend" (by simp [init,present,enabled])
            (by simp [CanMap,enabled])
      | true =>
          obtain ⟨result,T',s',k,changed,ran,few,stocked',intact',grown,call⟩ :=
            mapMmioWindow_spec documented supplies intact stocked sound small
          have refused : ∀ text, result = .error text →
              (init p x86 allocate hw found).on st = .ok (.error text,{st with tables := T', frames := s'}) := by
            rintro text rfl
            have window : (mapMmioWindow x86 allocate hw found.base).on st = .ok (.error text,{st with tables := T', frames := s'}) := by
              simp only [on,mapMmioWindow,ExceptT.run_mk,StateT.run,ran,ok_bind]
            simp only [init,present,enabled,Bool.not_true,Bool.false_eq_true,if_false,on_stop window]
          have only : ∀ page ∈ changed, page = path MMIO_WINDOW := fun page member => call.only member
          cases call with
          | unaligned odd => exact absurd aligned odd
          | occupied shown =>
              exact ⟨_,_,_,_,refused _ rfl,few,stocked',intact',grown,only,Or.inr ⟨⟨_,rfl⟩,fun can => shown can.2.2.1,rfl,rfl⟩⟩
          | short _ lacks =>
              exact ⟨_,_,_,_,refused _ rfl,few,stocked',intact',grown,only,
                Or.inr ⟨⟨_,rfl⟩,fun can => Nat.not_le.mpr lacks can.2.2.2,rfl,rfl⟩⟩
          | mapped _ free enough backs =>
              have device := backs_device backs aligned small
              obtain ⟨lvt,id,ver,svr,finish⟩ := on_init p present enabled ran device
              exact ⟨_,_,_,_,finish,few,stocked',intact',grown,only,
                Or.inl ⟨rfl,⟨present,enabled,free,enough⟩,⟨device,rfl,rfl⟩,rfl,rfl,lvt,id,ver,svr,rfl⟩⟩

-- On whatever the processor reports and the registers answer: `init` succeeds exactly when it can, and
-- then its accesses are those of the LAPIC and of nothing else; otherwise it leaves no trace but tables.
theorem apic_init_confined (edx : BitVec 32) (msr : BitVec 64) (rsdpAddr : Option ℕ) : ∃ result st',
    (init p x86 allocate hw (probe edx msr rsdpAddr)).on st = .ok (result,st') ∧
    (result = .ok () ↔ CanMap (probe edx msr rsdpAddr) st.tables hw.cr3 pending) ∧
    (∀ virt, Canonical virt → virt / 4096 ≠ MMIO_WINDOW / 4096 →
      translate st'.tables hw.cr3 virt = translate st.tables hw.cr3 virt) ∧
    (result = .ok () → Enabled hw (probe edx msr rsdpAddr).base st st') ∧
    ∀ text, result = .error text → st' = {st with tables := st'.tables, frames := st'.frames} ∧
      translate st'.tables hw.cr3 MMIO_WINDOW = translate st.tables hw.cr3 MMIO_WINDOW := by
  obtain ⟨aligned,small⟩ := probe_base edx msr rsdpAddr
  obtain ⟨result,st',k,changed,ran,run⟩ := init_spec p documented supplies intact stocked sound aligned small
  refine ⟨result,st',ran,?_,?_,?_,?_⟩
  · rcases run.ending with ⟨rfl,can,_⟩ | ⟨⟨_,rfl⟩,cannot,_⟩
    · exact iff_of_true rfl can
    · exact iff_of_false (by simp) cannot
  · intro virt canonical apart
    refine translate_same (run.grown.targets _ rfl fun member => apart ?_)
    exact (path_page canonical (Or.inr (by norm_num [MMIO_WINDOW]))).mp (run.only _ member)
  · rintro rfl
    exact run.ending.elim (fun done => done.2.2) fun failed => by simp at failed
  · rintro text rfl
    rcases run.ending with ⟨done,_⟩ | ⟨_,_,rfl,kept⟩
    · cases done
    · exact ⟨kept,translate_same (run.grown.targets _ rfl not_mem_nil)⟩

end init

-- An enabled APIC at the usual address, whose counter goes down by 1000 while the PIT ticks ten times.
def sampleHardware : Hardware := ⟨0x1000,fun _ _ => 0xFFFFFFFF#32-1000#32,fun load => 10*load⟩

def sampleProbe : Probe := probe (1#32 <<< 9) 0xFEE00900#64 none

def sampleLapic : Lapic (List ℕ) := ⟨blankTables,sampleShelf,0,0,0,[],0⟩

theorem sample_can : CanMap sampleProbe blankTables 0x1000 sampleShelf :=
  ⟨by decide,by decide,blank_vacant MMIO_WINDOW,by decide +kernel⟩

theorem apic_init_confined_sample : ∃ st',
    (init .release sampleMapper handOut sampleHardware sampleProbe).on sampleLapic = .ok (.ok (),st') ∧
    translate st'.tables 0x1000 (MMIO_WINDOW+EOI_OFFSET) = some 0xFEE000B0 ∧ translate st'.tables 0x1000 HEAP_START = none := by
  have sound : RootSound blankTables 0x1000 := by simp [RootSound,blank_vacant]
  obtain ⟨result,st',ran,answers,others,done,_⟩ := apic_init_confined .release sample_documented shelf_supplies
    (show Intact sampleLapic.tables sampleHardware.cr3 3 (2^47) sampleShelf from shelf_intact) rfl sound (1#32 <<< 9) 0xFEE00900#64 none
  obtain rfl := answers.mpr sample_can
  refine ⟨st',ran,(done rfl).device.shows EOI_OFFSET (by decide),?_⟩
  rw [show (0x1000 : ℕ) = sampleHardware.cr3 from rfl,
    others HEAP_START (Or.inr (by norm_num [HEAP_START])) (by norm_num [HEAP_START,MMIO_WINDOW])]
  decide

structure Kept (st st' : Lapic α) (more : List Access) : Prop where
  tables : st'.tables = st.tables
  frames : st'.frames = st.frames
  lapicVirt : st'.lapicVirt = st.lapicVirt
  eoiBase : st'.eoiBase = st.eoiBase
  rate : st'.ticksPer10ms = st.ticksPer10ms
  accesses : st'.accesses = st.accesses ++ more

theorem Kept.trans {st st' st'' : Lapic α} (first : Kept st st' more) (second : Kept st' st'' more') : Kept st st'' (more ++ more') := by
  obtain ⟨tables,frames,virt,eoi,rate,accesses⟩ := second
  obtain ⟨tables',frames',virt',eoi',rate',accesses'⟩ := first
  exact ⟨tables.trans tables',frames.trans frames',virt.trans virt',eoi.trans eoi',rate.trans rate',by simp [accesses,accesses']⟩

theorem Kept.ready {st st' : Lapic α} (kept : Kept st st' more) (ready : Ready hw base st) : Ready hw base st' where
  device := by simpa [kept.tables] using ready.device
  lapicVirt := kept.lapicVirt.trans ready.lapicVirt
  eoiBase := kept.eoiBase.trans ready.eoiBase

def Elapsed (hw : Hardware) (start load : ℕ) : Prop := CALIB_PIT_TICKS ≤ (hw.timerTicks load+2^64-start) % 2^64

instance (hw : Hardware) (start load : ℕ) : Decidable (Elapsed hw start load) := inferInstanceAs (Decidable (_ ≤ _))

-- A round that begins with the load `load` sees its ruler's end after `j` more.
structure RulerEnds (hw : Hardware) (load j : ℕ) : Prop where
  guarded : j ≤ SPIN_GUARD
  ends : Elapsed hw (hw.timerTicks load) (load+1+j)
  first : ∀ i < j, ¬ Elapsed hw (hw.timerTicks load) (load+1+i)

theorem RulerEnds.unique (one : RulerEnds hw load i) (other : RulerEnds hw load j) : i = j := by
  rcases Nat.lt_trichotomy i j with less | same | more
  · exact absurd one.ends (other.first i less)
  · exact same
  · exact absurd other.ends (one.first j more)

theorem on_rulerReached (hw : Hardware) (start : ℕ) (st : Lapic α) :
    (rulerReached hw start).on st = .ok (.ok (decide (Elapsed hw start st.loads)),{st with loads := st.loads+1}) := by
  rw [rulerReached,on_step on_loadTimer,on_pure]
  rfl

theorem on_awaitRuler (hw : Hardware) (start left : ℕ) (st : Lapic α) :
    (∃ j ≤ left, Elapsed hw start (st.loads+j) ∧ (∀ i < j, ¬ Elapsed hw start (st.loads+i)) ∧
      (awaitRuler hw start left).on st = .ok (.ok (),{st with loads := st.loads+j+1})) ∨
    (∀ j ≤ left, ¬ Elapsed hw start (st.loads+j)) ∧ (awaitRuler hw start left).on st =
      .ok (.error "apic: PIT produced no ticks during calibration — timer dead?",{st with loads := st.loads+left+1}) := by
  induction left generalizing st with
  | zero =>
      rw [awaitRuler,on_step (on_rulerReached hw start st)]
      by_cases now : Elapsed hw start st.loads <;> simp [now]
  | succ left ih =>
      rw [awaitRuler,on_step (on_rulerReached hw start st)]
      by_cases now : Elapsed hw start st.loads
      · exact Or.inl ⟨0,Nat.zero_le _,now,by simp,by simp [now]⟩
      · have shift : ∀ j, st.loads+1+j = st.loads+(j+1) := by omega
        rcases ih {st with loads := st.loads+1} with ⟨j,bound,elapsed,first,ran⟩ | ⟨silent,ran⟩
        · simp only [shift] at elapsed first ran
          refine Or.inl ⟨j+1,by omega,elapsed,?_,by simpa [now] using ran⟩
          intro i less
          cases i with
          | zero => exact now
          | succ i => exact first i (by omega)
        · simp only [shift] at silent ran
          refine Or.inr ⟨?_,by simpa [now] using ran⟩
          intro j bound
          cases j with
          | zero => exact now
          | succ j => exact silent j (by omega)

def roundAccesses (base : ℕ) (cur : BitVec 32) : List Access := [.write (base+ICR_OFFSET) 0xFFFFFFFF#32,.read (base+CCR_OFFSET) cur]

def counted (cur : BitVec 32) : BitVec 32 := 0xFFFFFFFF#32-cur

section calibration
variable {hw : Hardware} {base : ℕ} {st : Lapic α}

def counterAt (hw : Hardware) (base : ℕ) (trace : List Access) : BitVec 32 :=
  hw.answer (trace ++ [.write (base+ICR_OFFSET) 0xFFFFFFFF#32]) (base+CCR_OFFSET)

theorem on_round (ready : Ready hw base st) : ∃ st',
    (∃ j, RulerEnds hw st.loads j ∧ st'.loads = st.loads+j+2 ∧ Kept st st' (roundAccesses base (counterAt hw base st.accesses)) ∧
      (calibrateRound hw MMIO_WINDOW).on st = .ok (if counted (counterAt hw base st.accesses) = 0#32 then
        .error "apic: CCR delta is zero — MMIO writes lost (NO_CACHE missing?)"
        else .ok (counted (counterAt hw base st.accesses)),st')) ∨
    (∀ j, ¬ RulerEnds hw st.loads j) ∧ Kept st st' [.write (base+ICR_OFFSET) 0xFFFFFFFF#32] ∧
      (calibrateRound hw MMIO_WINDOW).on st = .ok (.error "apic: PIT produced no ticks during calibration — timer dead?",st') := by
  have device := ready.device
  rcases on_awaitRuler hw (hw.timerTicks st.loads) SPIN_GUARD
    {st with accesses := st.accesses ++ [.write (base+ICR_OFFSET) 0xFFFFFFFF#32], loads := st.loads+1} with
    ⟨j,bound,ends,first,waited⟩ | ⟨silent,waited⟩
  · obtain ⟨cur,read⟩ : ∃ cur, cur = counterAt hw base st.accesses := ⟨_,rfl⟩
    have answered : hw.answer (st.accesses ++ [.write (base+ICR_OFFSET) 0xFFFFFFFF#32]) (base+CCR_OFFSET) = cur := read.symm
    refine ⟨{st with accesses := st.accesses ++ roundAccesses base cur, loads := st.loads+1+j+1},
      Or.inl ⟨j,⟨bound,ends,first⟩,by dsimp only; omega,read ▸ ⟨rfl,rfl,rfl,rfl,rfl,rfl⟩,?_⟩⟩
    simp (disch := first | rfl | decide) only [calibrateRound,step_reg,step_write device,step_read device,on_step on_loadTimer,
      on_step waited,answered,append_assoc,cons_append,nil_append,← read]
    by_cases still : 0xFFFFFFFF#32-cur = 0#32 <;> simp [counted,still,roundAccesses]
  · refine ⟨{st with accesses := st.accesses ++ [.write (base+ICR_OFFSET) 0xFFFFFFFF#32], loads := st.loads+1+SPIN_GUARD+1},
      Or.inr ⟨fun j ruler => silent j ruler.guarded ruler.ends,⟨rfl,rfl,rfl,rfl,rfl,rfl⟩,?_⟩⟩
    simp (disch := first | rfl | decide) only [calibrateRound,step_reg,step_write device,on_step on_loadTimer,on_stop waited]

def Within (base : ℕ) (more : List Access) : Prop := ∀ access ∈ more, base ≤ access.phys ∧ access.phys < base+4096

theorem within_append (first : Within base more) (second : Within base more') : Within base (more ++ more') := by
  intro access member
  exact (mem_append.mp member).elim (first access) (second access)

theorem within_round (base : ℕ) (cur : BitVec 32) : Within base (roundAccesses base cur) := by
  simp [Within,roundAccesses,Access.phys,ICR_OFFSET,CCR_OFFSET]

-- The clocks let a calibration down in the rounds it has left, after `counts`: the ruler stands still or the counter
-- does, or the median of what was counted is below one tick in ten.
def StandsIn (hw : Hardware) (base : ℕ) : ℕ → List ℕ → List Access → ℕ → Prop
  | 0,counts,_,_ => ∃ a b c, counts = [a,b,c] ∧ median a b c < 10
  | rounds+1,counts,trace,load => (∀ j, ¬ RulerEnds hw load j) ∨ counted (counterAt hw base trace) = 0#32 ∨
      ∃ j, RulerEnds hw load j ∧ StandsIn hw base rounds (counts ++ [(counted (counterAt hw base trace)).toNat])
        (trace ++ roundAccesses base (counterAt hw base trace)) (load+j+2)

-- In the three rounds of a calibration that finds these accesses and loads made.
def Stands (hw : Hardware) (base : ℕ) (trace : List Access) (load : ℕ) : Prop :=
  StandsIn hw base 3 [] (trace ++ [.write (base+DCR_OFFSET) 0x3#32]) load

theorem standsIn_next (ruler : RulerEnds hw load j) (moves : counted (counterAt hw base trace) ≠ 0#32) :
    StandsIn hw base (rounds+1) counts trace load ↔ StandsIn hw base rounds (counts ++ [(counted (counterAt hw base trace)).toNat])
      (trace ++ roundAccesses base (counterAt hw base trace)) (load+j+2) := by
  constructor
  · rintro (dead | still | ⟨_,same,stands⟩)
    · exact absurd ruler (dead j)
    · exact absurd still moves
    · rwa [ruler.unique same]
  · exact fun stands => Or.inr (Or.inr ⟨j,ruler,stands⟩)

theorem round_then {P : Except Fault (Except String γ × Lapic α) → Prop} {k : BitVec 32 → Apic α γ} (ready : Ready hw base st)
    (goes : ∀ cur st', Kept st st' (roundAccesses base cur) →
      (∀ rounds counts, StandsIn hw base (rounds+1) counts st.accesses st.loads ↔
        StandsIn hw base rounds (counts ++ [(counted cur).toNat]) st'.accesses st'.loads) → P ((k (counted cur)).on st'))
    (ends : ∀ text more st', (∀ rounds counts, StandsIn hw base (rounds+1) counts st.accesses st.loads) → Kept st st' more →
      Within base more → P (.ok (.error text,st'))) : P ((calibrateRound hw MMIO_WINDOW >>= k).on st) := by
  obtain ⟨st',⟨j,ruler,loads,kept,ran⟩ | ⟨dead,kept,ran⟩⟩ := on_round ready
  · by_cases still : counted (counterAt hw base st.accesses) = 0#32
    · rw [if_pos still] at ran
      rw [on_stop ran]
      exact ends _ _ _ (fun _ _ => Or.inr (Or.inl still)) kept (within_round base _)
    · rw [if_neg still] at ran
      rw [on_step ran]
      refine goes _ st' kept fun rounds counts => ?_
      rw [kept.accesses,loads]
      exact standsIn_next ruler still
  · rw [on_stop ran]
    exact ends _ _ _ (fun _ _ => Or.inl dead) kept (by simp [Within,Access.phys,ICR_OFFSET])

structure Calibrated (base : ℕ) (st st' : Lapic α) (q : ℕ) (c₁ c₂ c₃ : BitVec 32) : Prop where
  kept : Kept st {st' with ticksPer10ms := st.ticksPer10ms}
    (.write (base+DCR_OFFSET) 0x3#32 :: (roundAccesses base c₁ ++ roundAccesses base c₂ ++ roundAccesses base c₃))
  rate : st'.ticksPer10ms = q
  value : q = median (counted c₁).toNat (counted c₂).toNat (counted c₃).toNat / 10
  positive : 0 < q

inductive Calibration (hw : Hardware) (base : ℕ) (st : Lapic α) : Except Fault (Except String ℕ × Lapic α) → Prop where
  | done : ¬ Stands hw base st.accesses st.loads → Calibrated base st st' q c₁ c₂ c₃ → Calibration hw base st (.ok (.ok q,st'))
  | failed : Stands hw base st.accesses st.loads → Kept st st' more → Within base more → Calibration hw base st (.ok (.error text,st'))

theorem calibrateTicks_rate (small : delta < 2^32) : calibrateTicks delta PIT_HZ CALIB_PIT_TICKS = delta / 10 := by
  simp only [calibrateTicks,PIT_HZ,CALIB_PIT_TICKS,U64_MAX]
  norm_num
  omega

theorem median_lt (left : a < n) (right : b < n) (last : c < n) : median a b c < n := by
  simp only [median]
  omega

theorem calibrate_spec (ready : Ready hw base st) : Calibration hw base st ((calibrate hw).on st) := by
  have nonzero : MMIO_WINDOW ≠ 0 := by norm_num [MMIO_WINDOW]
  rw [calibrate,on_step (on_look _),ready.lapicVirt,if_neg nonzero,step_reg (by decide),step_write ready.device (by decide) rfl]
  have begun : Kept st {st with accesses := st.accesses ++ [.write (base+DCR_OFFSET) 0x3#32]} [.write (base+DCR_OFFSET) 0x3#32] :=
    ⟨rfl,rfl,rfl,rfl,rfl,rfl⟩
  have near : Within base [.write (base+DCR_OFFSET) 0x3#32] := by simp [Within,Access.phys,DCR_OFFSET]
  refine round_then (begun.ready ready) (fun c₁ s₁ kept₁ same₁ => ?_) fun text more st' stands kept inside =>
    .failed (stands ..) (begun.trans kept) (within_append near inside)
  have near₁ := within_append near (within_round base c₁)
  have kept₁ := begun.trans kept₁
  refine round_then (kept₁.ready ready) (fun c₂ s₂ kept₂ same₂ => ?_) fun text more st' stands kept inside =>
    .failed ((same₁ ..).mpr (stands ..)) (kept₁.trans kept) (within_append near₁ inside)
  have near₂ := within_append near₁ (within_round base c₂)
  have kept₂ := kept₁.trans kept₂
  refine round_then (kept₂.ready ready) (fun c₃ s₃ kept₃ same₃ => ?_) fun text more st' stands kept inside =>
    .failed ((same₁ ..).mpr ((same₂ ..).mpr (stands ..))) (kept₂.trans kept) (within_append near₂ inside)
  have near₃ := within_append near₂ (within_round base c₃)
  have kept₃ := kept₂.trans kept₃
  have rate := calibrateTicks_rate (median_lt (counted c₁).isLt (counted c₂).isLt (counted c₃).isLt)
  have slow_iff : Stands hw base st.accesses st.loads ↔ median (counted c₁).toNat (counted c₂).toNat (counted c₃).toNat < 10 := by
    rw [Stands,same₁,same₂,same₃]
    simp [StandsIn]
  simp only [rate]
  by_cases slow : median (counted c₁).toNat (counted c₂).toNat (counted c₃).toNat / 10 = 0
  · simp only [slow,if_true,on_throw]
    exact .failed (slow_iff.mpr (by omega)) kept₃ near₃
  · simp only [slow,if_false,on_step (on_change _),on_pure]
    have all : s₃.accesses = st.accesses ++
        (.write (base+DCR_OFFSET) 0x3#32 :: (roundAccesses base c₁ ++ roundAccesses base c₂ ++ roundAccesses base c₃)) := by
      simpa using kept₃.accesses
    exact .done (fun stands => slow (Nat.div_eq_of_lt (slow_iff.mp stands)))
      ⟨⟨kept₃.tables,kept₃.frames,kept₃.lapicVirt,kept₃.eoiBase,rfl,all⟩,rfl,rfl,Nat.pos_of_ne_zero slow⟩

theorem on_startPeriodic (ready : Ready hw base st) (positive : 0 < st.ticksPer10ms) (small : st.ticksPer10ms < 2^32) : ∃ st',
    (startPeriodic hw).on st = .ok (.ok st.ticksPer10ms,st') ∧ Kept st st'
      [.write (base+LVT_TIMER_OFFSET) (0xEF#32 ||| 1#32 <<< 17),.write (base+ICR_OFFSET) (BitVec.ofNat 32 st.ticksPer10ms)] := by
  have nonzero : MMIO_WINDOW ≠ 0 := by norm_num [MMIO_WINDOW]
  have legal : ¬ (st.ticksPer10ms = 0 ∨ 2^32-1 < st.ticksPer10ms) := by omega
  rw [startPeriodic,on_step (on_look _),ready.lapicVirt,if_neg nonzero,on_step (on_look _),if_neg legal]
  simp (disch := first | rfl | decide) only [step_reg,step_write ready.device,on_pure]
  exact ⟨_,rfl,rfl,rfl,rfl,rfl,rfl,append_assoc _ _ _⟩

theorem Calibrated.ready {st' : Lapic α} (calibrated : Calibrated base st st' q c₁ c₂ c₃) (ready : Ready hw base st) : Ready hw base st' :=
  ⟨(calibrated.kept.ready ready).device,(calibrated.kept.ready ready).lapicVirt,(calibrated.kept.ready ready).eoiBase⟩

theorem Calibrated.small {st' : Lapic α} (calibrated : Calibrated base st st' q c₁ c₂ c₃) : q < 2^32 := by
  have bound := median_lt (counted c₁).isLt (counted c₂).isLt (counted c₃).isLt
  rw [calibrated.value]
  omega

theorem median_robust (most : 2 ≤ [a,b,c].countP fun d => decide (lo ≤ d ∧ d ≤ hi)) : lo ≤ median a b c ∧ median a b c ≤ hi := by
  simp only [countP_cons,countP_nil,decide_eq_true_eq] at most
  simp only [median]
  split_ifs at most <;> omega

theorem calibration_robust (ready : Ready hw base st) :
    (¬ Stands hw base st.accesses st.loads ↔ ∃ q st', (calibrate hw).on st = .ok (.ok q,st')) ∧
    ∀ q st', (calibrate hw).on st = .ok (.ok q,st') → ∃ c₁ c₂ c₃,
      st'.accesses = st.accesses ++
        (.write (base+DCR_OFFSET) 0x3#32 :: (roundAccesses base c₁ ++ roundAccesses base c₂ ++ roundAccesses base c₃)) ∧
      (∀ lo hi, 2 ≤ ([(counted c₁).toNat,(counted c₂).toNat,(counted c₃).toNat].countP fun d => decide (lo ≤ d ∧ d ≤ hi)) →
        lo / 10 ≤ q ∧ q ≤ hi / 10) ∧
      ∃ st'', (startPeriodic hw).on st' = .ok (.ok q,st'') ∧ (BitVec.ofNat 32 q).toNat = q ∧ Kept st' st''
        [.write (base+LVT_TIMER_OFFSET) (0xEF#32 ||| 1#32 <<< 17),.write (base+ICR_OFFSET) (BitVec.ofNat 32 q)] := by
  have spec := calibrate_spec ready
  generalize (calibrate hw).on st = run at spec ⊢
  cases spec with
  | failed stands => exact ⟨⟨fun moving => absurd stands moving,by rintro ⟨q,st',⟨⟩⟩⟩,by rintro q st' ⟨⟩⟩
  | done moves calibrated =>
      refine ⟨iff_of_true moves ⟨_,_,rfl⟩,?_⟩
      rintro q st' ⟨⟩
      have small := calibrated.small
      refine ⟨_,_,_,calibrated.kept.accesses,?_,?_⟩
      · intro lo hi most
        have between := median_robust most
        rw [calibrated.value]
        omega
      · obtain ⟨st'',started,kept⟩ := on_startPeriodic (calibrated.ready ready) (by rw [calibrated.rate]; exact calibrated.positive)
          (by rw [calibrated.rate]; exact small)
        rw [calibrated.rate] at started kept
        exact ⟨st'',started,by simpa using small,kept⟩

end calibration

theorem sample_ready : ∃ st : Lapic (List ℕ), Ready sampleHardware 0xFEE00000 st := by
  obtain ⟨result,st',k,changed,_,run⟩ := init_spec .release sample_documented shelf_supplies
    (show Intact sampleLapic.tables sampleHardware.cr3 3 (2^47) sampleShelf from shelf_intact) rfl
    (by simp [RootSound,blank_vacant,sampleLapic]) (show sampleProbe.base % 4096 = 0 by decide) (by decide)
  rcases run.ending with ⟨_,_,enabled⟩ | ⟨_,cannot,_⟩
  · exact ⟨st',enabled.toReady⟩
  · exact absurd sample_can cannot

theorem sample_ruler (load : ℕ) : RulerEnds sampleHardware load 0 where
  guarded := Nat.zero_le _
  ends := by
    simp only [Elapsed,sampleHardware,CALIB_PIT_TICKS]
    omega
  first := by simp

theorem sample_moves (trace : List Access) (load : ℕ) : ¬ Stands sampleHardware 0xFEE00000 trace load := by
  have counts : ∀ trace, (counted (counterAt sampleHardware 0xFEE00000 trace)).toNat = 1000 := fun _ => by
    simp only [counterAt,sampleHardware]
    decide
  have moves : ∀ trace, counted (counterAt sampleHardware 0xFEE00000 trace) ≠ 0#32 := fun _ => by
    simp only [counterAt,sampleHardware]
    decide
  rw [Stands,standsIn_next (sample_ruler _) (moves _),standsIn_next (sample_ruler _) (moves _),
    standsIn_next (sample_ruler _) (moves _)]
  simp only [counts]
  rintro ⟨a,b,c,same,slow⟩
  cases same
  revert slow
  decide

theorem calibration_robust_sample : ∃ (st : Lapic (List ℕ)) (q : ℕ) (st' : Lapic (List ℕ)), Ready sampleHardware 0xFEE00000 st ∧
    (calibrate sampleHardware).on st = .ok (.ok q,st') := by
  obtain ⟨st,ready⟩ := sample_ready
  obtain ⟨q,st',ran⟩ := (calibration_robust ready).1.mp (sample_moves _ _)
  exact ⟨st,q,st',ready,ran⟩

end Apic
end RustyCore
