import RustyCore.PreemptStub

namespace RustyCore
open ByteMemory X86Fragment Function

section memory
variable (S : Statics) (m : Machine)

-- The EOI register is a device register, not one of the statics.
def EoiAway : Prop := read64 m.mem S.eoiBase ≠ 0 → ∀ area ∈ S.areas, Apart area.1 area.2 (read64 m.mem S.eoiBase) 4

def currentFrame : Word := frameAt S ((m.mem S.currentIdx).setWidth 64)

variable {S m}

theorem frameWords_length (m : Machine) : 8*(frameWords m).length = FRAME_STRIDE := by
  simp [frameWords,spilled,FRAME_STRIDE,SPILL_WORDS,DOWN_WORDS,HW_WORDS]

theorem stashed_outside (ticks : ¬ Within a S.apicTicks 8)
    (yanked : taken S m.mem = true → ¬ Within a S.preemptSwitches 8 ∧ ¬ Within a (currentFrame S m) FRAME_STRIDE) :
    stashed S m a = m.mem a := by
  have first : ticked S m.mem a = m.mem a := write64_outside ticks
  unfold stashed
  split
  · rename_i yes
    rw [writeWords_outside (by rw [frameWords_length]; decide) (yanked yes).2,write64_outside (yanked yes).1]
    exact first
  · exact first

theorem afterStub_outside (ticks : ¬ Within a S.apicTicks 8)
    (eoi : read64 m.mem S.eoiBase ≠ 0 → ¬ Within a (read64 m.mem S.eoiBase) 4)
    (yanked : taken S m.mem = true → ¬ Within a S.preemptSwitches 8 ∧ ¬ Within a (currentFrame S m) FRAME_STRIDE) :
    afterStub S m a = m.mem a := by
  unfold afterStub
  split
  · exact stashed_outside ticks yanked
  · rename_i present
    rw [write32_outside (eoi present)]
    exact stashed_outside ticks yanked

theorem afterStub_eoi (present : read64 m.mem S.eoiBase ≠ 0) (here : Within a (read64 m.mem S.eoiBase) 4) : afterStub S m a = 0 := by
  unfold Within at here
  rw [afterStub,if_neg present,write32,writeBytes,if_pos here]
  simp

theorem afterStub_area (away : EoiAway S m) (member : area ∈ S.areas) (here : Within a area.1 area.2) :
    afterStub S m a = stashed S m a := by
  unfold afterStub
  split
  · rfl
  · rename_i present
    exact write32_outside (away present area member a here)

theorem stashed_ticks : read64 (stashed S m) S.apicTicks = read64 m.mem S.apicTicks+1 := by
  have first : read64 (ticked S m.mem) S.apicTicks = read64 m.mem S.apicTicks+1 := read64_written _ _ _
  unfold stashed
  split
  · rename_i yes
    have counted : read64 (write64 (ticked S m.mem) S.preemptSwitches (read64 m.mem S.preemptSwitches+1)) S.apicTicks =
        read64 (ticked S m.mem) S.apicTicks := read64_kept (statics_apart S (i:=5) (j:=6) (by decide) rfl rfl) _ _
    have frames : Apart S.taskFrames (MAX_TASKS*FRAME_STRIDE) S.apicTicks 8 := statics_apart S (i:=3) (j:=5) (by decide) rfl rfl
    rw [← first,← counted]
    apply read64_congr
    intro a here
    apply writeWords_outside (by rw [frameWords_length]; decide)
    intro stored
    exact frames a (frame_within S _ (taken_iff.mp yes).2.1 stored) here
  · exact first

theorem stashed_switches : read64 (stashed S m) S.preemptSwitches =
    if taken S m.mem then read64 m.mem S.preemptSwitches+1 else read64 m.mem S.preemptSwitches := by
  unfold stashed
  split
  · rename_i yes
    have frames : Apart S.taskFrames (MAX_TASKS*FRAME_STRIDE) S.preemptSwitches 8 :=
      statics_apart S (i:=3) (j:=6) (by decide) rfl rfl
    refine (read64_congr ?_).trans (read64_written (ticked S m.mem) _ _)
    intro a here
    apply writeWords_outside (by rw [frameWords_length]; decide)
    intro stored
    exact frames a (frame_within S _ (taken_iff.mp yes).2.1 stored) here
  · exact read64_kept (apart_symm (statics_apart S (i:=5) (j:=6) (by decide) rfl rfl)) _ _

theorem stashed_frame (yes : taken S m.mem = true) : Holds (stashed S m) (currentFrame S m) (frameWords m) := by
  rw [stashed,if_pos yes]
  exact writeWords_holds _ _ (by rw [frameWords_length]; decide)

end memory

-- Everything the interrupted code can see is as it was; memory changed in the scratch
-- words and in the places listed, to the values listed.
structure Transparent (S : Statics) (m m' : Machine) : Prop where
  registers : m'.reg = m.reg
  rip : m'.rip = m.rip
  rflags : m'.rflags = m.rflags
  cs : m'.cs = m.cs
  ss : m'.ss = m.ss
  memory : ∀ a, ¬ Within a (scratch m) 160 → m'.mem a = afterStub S m a
  untouched : ∀ a, ¬ Within a (scratch m) 160 → ¬ Within a S.apicTicks 8 →
    (read64 m.mem S.eoiBase ≠ 0 → ¬ Within a (read64 m.mem S.eoiBase) 4) →
    (taken S m.mem = true → ¬ Within a S.preemptSwitches 8 ∧ ¬ Within a (currentFrame S m) FRAME_STRIDE) → m'.mem a = m.mem a
  eoi : read64 m.mem S.eoiBase ≠ 0 → ∀ a, Within a (read64 m.mem S.eoiBase) 4 → m'.mem a = 0
  ticks : EoiAway S m → read64 m'.mem S.apicTicks = read64 m.mem S.apicTicks+1
  switches : EoiAway S m → read64 m'.mem S.preemptSwitches =
    if taken S m.mem then read64 m.mem S.preemptSwitches+1 else read64 m.mem S.preemptSwitches

theorem stub_area {mem : Memory} (clear : Clear S m) (away : EoiAway S m)
    (memory : ∀ a, ¬ Within a (scratch m) 160 → mem a = afterStub S m a) (p : Word) (n : ℕ) (member : (p,n) ∈ S.areas)
    (here : Within a p n) : mem a = stashed S m a := by
  rw [memory a (fun inside => clear.statics (p,n) member a inside here)]
  exact afterStub_area away member here

theorem stub_transparent (S : Statics) (m : Machine) (clear : Clear S m) (selector : BitVec 16) (entry : Word) :
    ∃ m', exec none (lapicPreemptStub S) (m.deliver selector entry) = some m' ∧ Transparent S m m' := by
  obtain ⟨m',ran,regs,rip,flags,cs,ss,memory⟩ := stub_exec clear selector entry
  refine ⟨m',ran,regs,rip,flags,cs,ss,memory,?_,?_,?_,?_⟩
  · intro a outside ticks eoi yanked
    rw [memory a outside]
    exact afterStub_outside ticks eoi yanked
  · intro present a here
    rw [memory a (fun inside => clear.eoi present a inside here)]
    exact afterStub_eoi present here
  · intro away
    rw [← stashed_ticks]
    exact read64_congr fun a here => stub_area clear away memory S.apicTicks 8 (by simp [Statics.areas]) here
  · intro away
    rw [← stashed_switches]
    exact read64_congr fun a here => stub_area clear away memory S.preemptSwitches 8 (by simp [Statics.areas]) here

def sampleStatics : Statics where
  preemptible := 0x200000
  currentIdx := 0x200001
  slotUsed := 0x200002
  taskFrames := 0x201000
  eoiBase := 0x200010
  apicTicks := 0x200018
  preemptSwitches := 0x200020
  apart := List.Pairwise.imp separate_apart (by decide)

def sampleMachine : Machine where
  reg := fun r => if r = .rsp then 0x11FF08 else if r = .r15 then 15 else if r = .rax then 0x55 else 7
  rip := 0x8010
  rflags := 0x246
  cs := 8
  ss := 16
  mem := fun a => if a = 0x200000 ∨ a = 0x200002 then 1 else if a = 0x200010 then 0xB0 else if a = 0x200012 then 0xE0
    else if a = 0x200013 then 0xFE else 0
  undefined := fun _ => 0

theorem sample_eoi : read64 sampleMachine.mem sampleStatics.eoiBase = 0xFEE000B0 := by decide +kernel

theorem sample_clear : Clear sampleStatics sampleMachine := by
  constructor
  · have separate : ∀ area ∈ sampleStatics.areas, Separate (scratch sampleMachine,160) area := by decide +kernel
    intro area member
    exact separate_apart (separate area member)
  · intro _
    rw [sample_eoi]
    exact separate_apart (by decide +kernel)

theorem sample_away : EoiAway sampleStatics sampleMachine := by
  intro _ area member
  rw [sample_eoi]
  have separate : ∀ area ∈ sampleStatics.areas, Separate area (0xFEE000B0,4) := by decide +kernel
  exact separate_apart (separate area member)

theorem stub_transparent_sample : Clear sampleStatics sampleMachine ∧ EoiAway sampleStatics sampleMachine ∧
    taken sampleStatics sampleMachine.mem = true ∧
    ∃ m', exec none (lapicPreemptStub sampleStatics) (sampleMachine.deliver 8 0x9000) = some m' ∧
      Transparent sampleStatics sampleMachine m' :=
  ⟨sample_clear,sample_away,by decide +kernel,stub_transparent sampleStatics sampleMachine sample_clear 8 0x9000⟩

def exactWords (m : Machine) : List Word :=
  spilled.map m.reg ++ [m.reg .rsp,m.rip,m.cs.setWidth 64,m.rflags,BitVec.ofNat 64 PREEMPT_MAGIC]

-- The spill starts 160 bytes below the aligned RSP, and the stub adds only 0x90: the
-- stored RSP is 16 below the aligned one, never the interrupted one.
theorem aligned_differs (m : Machine) : alignedRsp m-16 ≠ m.reg .rsp := by
  have below : (alignedRsp m).toNat = (m.reg .rsp).toNat-(m.reg .rsp).toNat % 16 := align_toNat _
  have bound := (m.reg .rsp).isLt
  generalize alignedRsp m = top at below
  generalize m.reg .rsp = rsp at below bound
  intro same
  bv_omega

theorem words_differ (m : Machine) (framed : Holds mem p (frameWords m)) : ¬ Holds mem p (exactWords m) := by
  intro promised
  have stored := holds_get framed (k:=15) rfl
  have wanted := holds_get promised (k:=15) rfl
  exact aligned_differs m (stored.symm.trans wanted)

theorem stashed_rsp_never_exact (S : Statics) (m : Machine) (clear : Clear S m) (away : EoiAway S m) (yes : taken S m.mem = true)
    (selector : BitVec 16) (entry : Word) : ∃ m', exec none (lapicPreemptStub S) (m.deliver selector entry) = some m' ∧
      Holds m'.mem (currentFrame S m) (frameWords m) ∧ ¬ Holds m'.mem (currentFrame S m) (exactWords m) := by
  obtain ⟨m',ran,_,_,_,_,_,memory⟩ := stub_exec clear selector entry
  have framed : Holds m'.mem (currentFrame S m) (frameWords m) := by
    refine holds_congr (stashed_frame yes) (by rw [frameWords_length]; decide) ?_
    intro a here
    rw [frameWords_length] at here
    exact stub_area clear away memory S.taskFrames _ (by simp [Statics.areas])
      (frame_within S _ (taken_iff.mp yes).2.1 here)
  exact ⟨m',ran,framed,words_differ m framed⟩

theorem stashed_rsp_never_exact_sample : taken sampleStatics sampleMachine.mem = true ∧
    ∃ m', exec none (lapicPreemptStub sampleStatics) (sampleMachine.deliver 8 0x9000) = some m' ∧
      Holds m'.mem (currentFrame sampleStatics sampleMachine) (frameWords sampleMachine) ∧
      ¬ Holds m'.mem (currentFrame sampleStatics sampleMachine) (exactWords sampleMachine) :=
  ⟨by decide +kernel,stashed_rsp_never_exact sampleStatics sampleMachine sample_clear sample_away (by decide +kernel) 8 0x9000⟩

theorem stashed_rsp_off_by_24 : sampleMachine.reg .rsp = 0x11FF08 ∧
    (exec none (lapicPreemptStub sampleStatics) (sampleMachine.deliver 8 0x9000)).any (fun m' =>
      read64 m'.mem (sampleStatics.taskFrames+0x78) == 0x11FEF0) = true := by
  decide +kernel

end RustyCore
