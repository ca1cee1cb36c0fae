import RustyCore.SizeGrammar
import RustyCore.ContextSwitch

namespace RustyCore.StackLayout

open ByteMemory RustStrings BuildScript

-- `parse_stack_bytes`, evaluated at compile time over what build.rs printed: a byte that is no digit fails its
-- assertion and an overflow of the constant stops the build.
def parseStackBytes (s : Str) : Option ℕ := accumulate 0 s

structure Ram where
  mem : Memory
  written : List Word

def Ram.write (ram : Ram) (a v : Word) : Ram := ⟨write64 ram.mem a v,ram.written ++ [a]⟩

def Ram.writeSlots (ram : Ram) : Word → List Word → Ram
  | _,[] => ram
  | a,v :: vs => (ram.write a v).writeSlots (a+8) vs

-- A panic keeps the memory it happened in.
abbrev Stored (α : Type) := ExceptT Panic (StateM Ram) α

def check (condition : Bool) (panic : Panic) : Stored Unit := if condition then pure () else throw panic

def computed : Except Fault α → Stored α
  | .ok value => pure value
  | .error fault => throw (.arithmetic fault)

structure Window where
  bottom : ℕ
  top : ℕ

-- `TaskStack::new` over the backing the allocator returned at `raw`.
def newStack (p : Profile) (c : BuildConfig) (raw : ℕ) : Stored Window := do
  let bottom ← computed (p.nextMultipleOf raw STACK_ALIGN)
  let top ← computed (p.add bottom c.stackSizeBytes)
  check (bottom % STACK_ALIGN == 0) .stackBottomMisaligned
  check (top % STACK_ALIGN == 0) .stackTopMisaligned
  let limit ← computed (p.add raw c.stackAllocBytes)
  check (decide (top ≤ limit)) .stackEscaped
  modify (·.write (BitVec.ofNat 64 bottom) (BitVec.ofNat 64 STACK_CANARY))
  pure ⟨bottom,top⟩

def bootstrapWords (c : BuildConfig) : List Word := List.replicate 6 0 ++ [BitVec.ofNat 64 c.trampoline,0]

def initTaskContext (p : Profile) (c : BuildConfig) (top : ℕ) : Stored ℕ := do
  check (top % 16 == 0) .contextTopMisaligned
  let rsp ← computed (p.sub top 64)
  check (rsp % 16 == 0) .contextFrameMisaligned
  let resumed ← computed (p.add rsp 56)
  check (resumed % 16 == 8) .contextParity
  modify (·.writeSlots (BitVec.ofNat 64 rsp) (bootstrapWords c))
  pure rsp

def canaryOk (mem : Memory) (bottom : ℕ) : Bool := read64 mem (BitVec.ofNat 64 bottom) == BitVec.ofNat 64 STACK_CANARY

def contexts (p : Profile) (c : BuildConfig) (top : ℕ) : Stored (ℕ × FullFrame) := do
  let rsp ← initTaskContext p c top
  let preempt ← computed (FullFrame.fresh p c.trampoline c.cs top)
  pure (rsp,preempt)

def setUp (p : Profile) (c : BuildConfig) (raw : ℕ) : Stored (Window × ℕ × FullFrame) := do
  let stack ← newStack p c raw
  let saved ← contexts p c stack.top
  pure (stack,saved)

structure Laid (c : BuildConfig) (raw : ℕ) (stack : Window) (rsp : ℕ) (preempt : FullFrame) (ram : Ram) : Prop where
  aligned : stack.bottom % 16 = 0 ∧ stack.top % 16 = 0
  backed : raw ≤ stack.bottom ∧ stack.top ≤ raw+c.stackAllocBytes
  bootstrap : rsp+64 = stack.top
  inside : stack.bottom+8 ≤ stack.top ∧ stack.bottom ≤ rsp
  apart : stack.bottom+8 ≤ rsp ∨ rsp+64 ≤ stack.bottom
  written : ram.written = BitVec.ofNat 64 stack.bottom :: (List.range 8).map fun i => BitVec.ofNat 64 (rsp+8*i)
  canary : canaryOk ram.mem stack.bottom = true
  fresh : preempt.rsp+8 = stack.top

def Sound (p : Profile) (c : BuildConfig) (raw : ℕ) (mem : Memory) : Prop :=
  match (setUp p c raw).run ⟨mem,[]⟩ with
  | (.error _,ram) => ram = ⟨mem,[]⟩
  | (.ok (stack,rsp,preempt),ram) => Laid c raw stack rsp preempt ram

theorem check_true (held : condition = true) (panic : Panic) : check condition panic = pure () := if_pos held

theorem check_false (failed : condition = false) (panic : Panic) : check condition panic = throw panic :=
  if_neg (by simp [failed])

theorem computed_ok {outcome : Except Fault α} (ran : outcome = .ok result) : computed outcome = pure result := by
  rw [ran]
  rfl

theorem run_returns {action : Stored α} {next : α → Stored β} (ran : action.run ram = (.ok v,after)) :
    (action >>= next).run ram = (next v).run after := by
  show (ExceptT.bindCont next (action.run ram).1) (action.run ram).2 = _
  rw [ran]
  rfl

theorem run_panics {action : Stored α} {next : α → Stored β} (ran : action.run ram = (.error fault,after)) :
    (action >>= next).run ram = (.error fault,after) := by
  show (ExceptT.bindCont next (action.run ram).1) (action.run ram).2 = _
  rw [ran]
  rfl

structure Aligned (p : Profile) (c : BuildConfig) (raw bottom : ℕ) : Prop where
  start : p.nextMultipleOf raw STACK_ALIGN = .ok bottom
  end_ : p.add bottom c.stackSizeBytes = .ok (bottom+c.stackSizeBytes)
  limit : p.add raw c.stackAllocBytes = .ok (raw+c.stackAllocBytes)
  whole : bottom % STACK_ALIGN = 0
  rest : (bottom+c.stackSizeBytes) % STACK_ALIGN = c.stackSizeBytes % 16
  least : raw ≤ bottom
  most : bottom < raw+16
  inside : bottom+c.stackSizeBytes ≤ raw+c.stackAllocBytes

theorem aligned_window (p : Profile) (c : BuildConfig) (room : raw+c.stackAllocBytes < 2^64) :
    Aligned p c raw (alignUp raw STACK_ALIGN) := by
  have least := alignUp_ge raw STACK_ALIGN
  have most : alignUp raw STACK_ALIGN < raw+16 := alignUp_lt (by decide)
  have whole : alignUp raw STACK_ALIGN % STACK_ALIGN = 0 := Nat.mod_eq_zero_of_dvd (alignUp_dvd (by decide))
  have size : c.stackAllocBytes = c.stackSizeBytes+16 := rfl
  refine ⟨nextMultipleOf_small (by omega),Profile.add_small (by omega),Profile.add_small room,whole,?_,least,most,by omega⟩
  rw [Nat.add_mod,whole,Nat.zero_add,Nat.mod_mod]
  rfl

theorem newStack_run (p : Profile) (c : BuildConfig) (room : raw+c.stackAllocBytes < 2^64) (ram : Ram) :
    (newStack p c raw).run ram = if c.stackSizeBytes % 16 = 0 then
        (.ok ⟨alignUp raw STACK_ALIGN,alignUp raw STACK_ALIGN+c.stackSizeBytes⟩,
          ram.write (BitVec.ofNat 64 (alignUp raw STACK_ALIGN)) (BitVec.ofNat 64 STACK_CANARY))
      else (.error .stackTopMisaligned,ram) := by
  have window := aligned_window p c room
  rw [newStack,computed_ok window.start,pure_bind,computed_ok window.end_,pure_bind,check_true (beq_iff_eq.2 window.whole),pure_bind,
    window.rest]
  split
  · next whole =>
      rw [check_true (beq_iff_eq.2 whole),pure_bind,computed_ok window.limit,pure_bind,check_true (decide_eq_true window.inside),
        pure_bind]
      rfl
  · next odd =>
      rw [check_false (beq_eq_false_iff_ne.2 odd)]
      rfl

theorem initTaskContext_run (p : Profile) (c : BuildConfig) (aligned : top % 16 = 0) (low : 64 ≤ top) (high : top < 2^64)
    (ram : Ram) :
    (initTaskContext p c top).run ram = (.ok (top-64),ram.writeSlots (BitVec.ofNat 64 (top-64)) (bootstrapWords c)) := by
  have lower : (top-64) % 16 = 0 := by omega
  have parity : (top-64+56) % 16 = 8 := by omega
  rw [initTaskContext,check_true (by simp [aligned]),pure_bind,computed_ok (Profile.sub_small low),pure_bind,
    check_true (by simp [lower]),pure_bind,computed_ok (Profile.add_small (by omega)),pure_bind,check_true (by simp [parity]),
    pure_bind]
  rfl

theorem fresh_run (p : Profile) (c : BuildConfig) (aligned : top % 16 = 0) (low : 8 ≤ top) :
    FullFrame.fresh p c.trampoline c.cs top =
      .ok ⟨0,0,0,0,0,0,0,0,0,0,0,0,0,0,0,top-8,c.trampoline,c.cs,0x202,PREEMPT_MAGIC⟩ := by
  rw [FullFrame.fresh,assert,if_pos (by simp [aligned]),ok_bind,Profile.sub_small low,ok_bind]

theorem writeSlots_mem (ram : Ram) (a : Word) (vs : List Word) : (ram.writeSlots a vs).mem = writeWords ram.mem a vs := by
  induction vs generalizing ram a with
  | nil => rfl
  | cons v vs ih => exact ih _ _

theorem writeSlots_written (ram : Ram) (a : ℕ) (vs : List Word) :
    (ram.writeSlots (BitVec.ofNat 64 a) vs).written =
      ram.written ++ (List.range vs.length).map fun i => BitVec.ofNat 64 (a+8*i) := by
  induction vs generalizing ram a with
  | nil => simp [Ram.writeSlots]
  | cons v vs ih =>
      have next : BitVec.ofNat 64 a+8 = BitVec.ofNat 64 (a+8) := (BitVec.ofNat_add ..).symm
      have shift : ∀ i, a+8*(i+1) = a+8+8*i := by omega
      rw [Ram.writeSlots,next,ih,List.length_cons,List.range_succ_eq_map]
      simp [Ram.write,shift]

-- Writes are added and never taken back, whether an action returns or panics.
def Grows (action : Stored α) : Prop := ∀ ram, ram.written.length ≤ (action.run ram).2.written.length

theorem grows_bind {action : Stored α} {next : α → Stored β} (first : Grows action) (second : ∀ v, Grows (next v)) :
    Grows (action >>= next) := by
  intro ram
  have early := first ram
  rcases ran : action.run ram with ⟨fault | v,after⟩
  · rw [run_panics ran]
    rwa [ran] at early
  · rw [run_returns ran]
    rw [ran] at early
    exact Nat.le_trans early (second v after)

theorem grows_check (condition : Bool) (panic : Panic) : Grows (check condition panic) := by
  intro ram
  cases condition <;> exact Nat.le_refl _

theorem grows_computed (outcome : Except Fault α) : Grows (computed outcome) := by
  intro ram
  cases outcome <;> exact Nat.le_refl _

theorem contexts_grows (p : Profile) (c : BuildConfig) (top : ℕ) : Grows (contexts p c top) := by
  have planted : ∀ rsp, Grows (do
      modify (·.writeSlots (BitVec.ofNat 64 rsp) (bootstrapWords c))
      pure rsp : Stored ℕ) := by
    intro rsp ram
    show _ ≤ (ram.writeSlots (BitVec.ofNat 64 rsp) (bootstrapWords c)).written.length
    rw [writeSlots_written,List.length_append]
    exact Nat.le_add_right _ _
  refine grows_bind ?_ fun rsp => grows_bind (grows_computed _) fun preempt ram => Nat.le_refl _
  refine grows_bind (grows_check _ _) fun _ => grows_bind (grows_computed _) fun rsp => ?_
  refine grows_bind (grows_check _ _) fun _ => grows_bind (grows_computed _) fun _ => ?_
  exact grows_bind (grows_check _ _) fun _ => planted rsp

theorem contexts_run (p : Profile) (c : BuildConfig) (aligned : top % 16 = 0) (low : 64 ≤ top) (high : top < 2^64)
    (ram : Ram) :
    (contexts p c top).run ram =
      (.ok (top-64,⟨0,0,0,0,0,0,0,0,0,0,0,0,0,0,0,top-8,c.trampoline,c.cs,0x202,PREEMPT_MAGIC⟩),
        ram.writeSlots (BitVec.ofNat 64 (top-64)) (bootstrapWords c)) := by
  rw [contexts,run_returns (initTaskContext_run p c aligned low high ram),computed_ok (fresh_run p c aligned (by omega)),pure_bind]
  rfl

theorem canary_read (c : BuildConfig) (ram : Ram) (apart : Apart (BitVec.ofNat 64 bottom) 8 (BitVec.ofNat 64 rsp) 64) :
    read64 ((ram.write (BitVec.ofNat 64 bottom) (BitVec.ofNat 64 STACK_CANARY)).writeSlots (BitVec.ofNat 64 rsp)
      (bootstrapWords c)).mem (BitVec.ofNat 64 bottom) = BitVec.ofNat 64 STACK_CANARY := by
  have length : 8*(bootstrapWords c).length = 64 := rfl
  rw [writeSlots_mem]
  refine (read64_congr fun a inside => ?_).trans (read64_written ram.mem _ _)
  exact writeWords_outside (by rw [length]; decide) (by rw [length]; exact apart a inside)

theorem canary_kept (c : BuildConfig) (ram : Ram) (below : bottom+8 ≤ rsp) (fits : rsp+64 ≤ 2^64) :
    canaryOk ((ram.write (BitVec.ofNat 64 bottom) (BitVec.ofNat 64 STACK_CANARY)).writeSlots (BitVec.ofNat 64 rsp)
      (bootstrapWords c)).mem bottom = true := by
  refine beq_iff_eq.2 (canary_read c ram (separate_apart (Or.inl ?_)))
  simp only [BitVec.toNat_ofNat]
  omega

theorem wide_laid (p : Profile) (c : BuildConfig) (aligned : bottom % 16 = 0) (least : raw ≤ bottom) (most : bottom < raw+16)
    (room : raw+(c.stackSizeBytes+16) < 2^64) (whole : c.stackSizeBytes % 16 = 0) (wide : 72 ≤ c.stackSizeBytes) (mem : Memory) :
    ∃ saved ram, (contexts p c (bottom+c.stackSizeBytes)).run
        (Ram.write ⟨mem,[]⟩ (BitVec.ofNat 64 bottom) (BitVec.ofNat 64 STACK_CANARY)) = (.ok saved,ram) ∧
      Laid c raw ⟨bottom,bottom+c.stackSizeBytes⟩ saved.1 saved.2 ram := by
  refine ⟨_,_,contexts_run p c (by omega) (by omega) (by omega) _,?_⟩
  have room' : bottom+8 ≤ bottom+c.stackSizeBytes-64 := by omega
  constructor
  case aligned => exact ⟨aligned,by show (bottom+c.stackSizeBytes) % 16 = 0; omega⟩
  case backed => exact ⟨least,by show bottom+c.stackSizeBytes ≤ raw+(c.stackSizeBytes+16); omega⟩
  case bootstrap => exact Nat.sub_add_cancel (by omega)
  case inside => exact ⟨by show bottom+8 ≤ bottom+c.stackSizeBytes; omega,Nat.le_trans (Nat.le_add_right _ _) room'⟩
  case apart => exact Or.inl room'
  case written => exact writeSlots_written _ _ _
  case canary => exact canary_kept c _ room' (by omega)
  case fresh => exact Nat.sub_add_cancel (by omega)

theorem narrow_unsound (p : Profile) (c : BuildConfig) (narrow : c.stackSizeBytes < 72) (mem : Memory)
    (stack : (newStack p c raw).run ⟨mem,[]⟩ = (.ok ⟨bottom,bottom+c.stackSizeBytes⟩,Ram.write ⟨mem,[]⟩ a v)) :
    ¬ Sound p c raw mem := by
  intro sound
  have grows := contexts_grows p c (bottom+c.stackSizeBytes) (Ram.write ⟨mem,[]⟩ a v)
  rw [Sound,setUp,run_returns stack] at sound
  rcases ran : (contexts p c (bottom+c.stackSizeBytes)).run (Ram.write ⟨mem,[]⟩ a v) with ⟨fault | saved,after⟩
  · rw [run_panics ran] at sound
    rw [ran,show after = ⟨mem,[]⟩ from sound] at grows
    exact absurd grows (by simp [Ram.write])
  · rw [run_returns ran] at sound
    have laid : Laid c raw ⟨bottom,bottom+c.stackSizeBytes⟩ saved.1 saved.2 after := sound
    have bootstrap : saved.1+64 = bottom+c.stackSizeBytes := laid.bootstrap
    have canary : bottom+8 ≤ bottom+c.stackSizeBytes := laid.inside.1
    have apart : bottom+8 ≤ saved.1 ∨ saved.1+64 ≤ bottom := laid.apart
    omega

theorem sound_iff (p : Profile) (c : BuildConfig) (room : raw+c.stackAllocBytes < 2^64) (mem : Memory) :
    Sound p c raw mem ↔ c.stackSizeBytes % 16 ≠ 0 ∨ 72 ≤ c.stackSizeBytes := by
  have stack := newStack_run p c room ⟨mem,[]⟩
  by_cases whole : c.stackSizeBytes % 16 = 0
  · rw [if_pos whole] at stack
    by_cases wide : 72 ≤ c.stackSizeBytes
    · have window := aligned_window p c room
      obtain ⟨saved,ram,ran,laid⟩ := wide_laid p c window.whole window.least window.most room whole wide mem
      rw [Sound,setUp,run_returns stack,run_returns ran]
      exact ⟨fun _ => Or.inr wide,fun _ => laid⟩
    · exact ⟨fun sound => absurd sound (narrow_unsound p c (by omega) mem stack),fun either => absurd either (by omega)⟩
  · rw [if_neg whole] at stack
    rw [Sound,setUp,run_panics stack]
    exact ⟨fun _ => Or.inl whole,fun _ => rfl⟩

theorem parse_printed (accepted : parseSizeBytes v = some bytes) : parseStackBytes (decimal bytes) = some bytes := by
  obtain ⟨sign,digits,run,e,_,_,_,_,fits⟩ := parsed_taken accepted
  exact (accumulate_iff (by decide)).2 ⟨(decimal_number bytes).2,decimal_value bytes,fits⟩

theorem stack_layout (p : Profile) (c : BuildConfig) (v : Str) (bytes : ℕ) (accepted : parseSizeBytes v = some bytes)
    (constant : parseStackBytes (decimal bytes) = some c.stackSizeBytes) (room : raw+c.stackAllocBytes < 2^64) (mem : Memory) :
    Sound p c raw mem ↔ bytes % 16 ≠ 0 ∨ 72 ≤ bytes := by
  obtain rfl : bytes = c.stackSizeBytes := Option.some.inj ((parse_printed accepted).symm.trans constant)
  exact sound_iff p c room mem

def buildOf (size : ℕ) (fits : MAX_TASKS*(size+STACK_ALIGN) ≤ 0x100000) : BuildConfig := ⟨size,0x100000,0x200,0x8000,8,fits⟩

theorem configured_stack_sound : parseSizeBytes "128K".toList = some 0x20000 ∧
    Sound .dev (buildOf 0x20000 (by decide)) 0x200001 fun _ => 0 :=
  ⟨by decide +kernel,(stack_layout .dev (buildOf 0x20000 (by decide)) "128K".toList 0x20000 (by decide +kernel) (by decide +kernel)
    (by decide) fun _ => 0).2 (Or.inr (by decide))⟩

def observed (c : BuildConfig) (raw : ℕ) : Option (ℕ × ℕ × Bool) :=
  let ran := (setUp .release c raw).run ⟨fun _ => 0,[]⟩
  ran.1.toOption.map fun made => (made.1.bottom,made.2.1,canaryOk ran.2.mem made.1.bottom)

-- `stack_size = "64"` builds and the frame replaces the canary; with `"32"` the frame starts below the backing.
theorem small_stacks_unsound : parseSizeBytes "64".toList = some 64 ∧
    observed (buildOf 64 (by decide)) 0x200000 = some (0x200000,0x200000,false) ∧
    ¬ Sound .release (buildOf 64 (by decide)) 0x200000 (fun _ => 0) ∧
    parseSizeBytes "32".toList = some 32 ∧ observed (buildOf 32 (by decide)) 0x200000 = some (0x200000,0x1FFFE0,false) := by
  refine ⟨by decide +kernel,by decide +kernel,fun sound => ?_,by decide +kernel,by decide +kernel⟩
  have size := (sound_iff .release (buildOf 64 (by decide)) (by decide) fun _ => 0).1 sound
  exact absurd size (by decide)

theorem bind_returned {action : Stored α} {next : α → Stored β} (ran : (action >>= next).run ram = (.ok v,after)) :
    ∃ u mid, action.run ram = (.ok u,mid) ∧ (next u).run mid = (.ok v,after) := by
  rcases first : action.run ram with ⟨fault | u,mid⟩
  · rw [run_panics first] at ran
    cases ran
  · rw [run_returns first] at ran
    exact ⟨u,mid,rfl,ran⟩

theorem check_returned (ran : (check condition panicked).run ram = (.ok u,mid)) : condition = true ∧ mid = ram := by
  cases condition with
  | false => cases ran
  | true => cases ran; exact ⟨rfl,rfl⟩

theorem computed_returned {outcome : Except Fault α} (ran : (computed outcome).run ram = (.ok u,mid)) :
    outcome = .ok u ∧ mid = ram := by
  cases outcome with
  | error fault => cases ran
  | ok value => cases ran; exact ⟨rfl,rfl⟩

theorem initTaskContext_returned (ran : (initTaskContext p c top).run ram = (.ok rsp,after)) :
    RustyCore.initTaskContext p top = pure rsp ∧ p.sub top 64 = .ok rsp ∧ top % 16 = 0 ∧ rsp % 16 = 0 ∧
      after = ram.writeSlots (BitVec.ofNat 64 rsp) (bootstrapWords c) := by
  obtain ⟨_,_,first,rest₁⟩ := bind_returned ran
  obtain ⟨aligned,rfl⟩ := check_returned first
  obtain ⟨_,_,second,rest₂⟩ := bind_returned rest₁
  obtain ⟨below,rfl⟩ := computed_returned second
  obtain ⟨_,_,third,rest₃⟩ := bind_returned rest₂
  obtain ⟨lower,rfl⟩ := check_returned third
  obtain ⟨_,_,fourth,rest₄⟩ := bind_returned rest₃
  obtain ⟨above,rfl⟩ := computed_returned fourth
  obtain ⟨_,_,fifth,rest₅⟩ := bind_returned rest₄
  obtain ⟨parity,rfl⟩ := check_returned fifth
  cases rest₅
  refine ⟨?_,below,beq_iff_eq.1 aligned,beq_iff_eq.1 lower,rfl⟩
  simp only [RustyCore.initTaskContext,lift,below,above,aligned,pure_bind,lower,parity]
  rfl

-- The frame is the one a first `context_switch` resumes from.
theorem context_agrees (high : top < 2^64) (ran : (initTaskContext p c top).run ram = (.ok rsp,after)) :
    Coroutines.initTaskContext (BitVec.ofNat 64 c.trampoline) (BitVec.ofNat 64 top) ram.mem =
      some (BitVec.ofNat 64 rsp,after.mem) := by
  obtain ⟨_,below,aligned,_,rfl⟩ := initTaskContext_returned ran
  have word : (BitVec.ofNat 64 top).toNat = top := Nat.mod_eq_of_lt high
  have start : BitVec.ofNat 64 rsp = BitVec.ofNat 64 top-64 := by
    rcases Profile.sub_cases below with ⟨low,rfl⟩ | ⟨wrapped,rfl⟩ <;> bv_omega
  rw [writeSlots_mem,start]
  exact if_pos (Coroutines.aligned_parts (by rw [word]; exact aligned))

end RustyCore.StackLayout
