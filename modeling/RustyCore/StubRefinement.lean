import RustyCore.StubTransparency
import RustyCore.TaskModel

namespace RustyCore
open ByteMemory X86Fragment Function

def FullFrame.words (frame : FullFrame) : List Word :=
  [frame.r15,frame.r14,frame.r13,frame.r12,frame.r11,frame.r10,frame.r9,frame.r8,frame.rdi,frame.rsi,frame.rbp,frame.rbx,
    frame.rdx,frame.rcx,frame.rax,frame.rsp,frame.rip,frame.cs,frame.rflags,frame.magic].map (BitVec.ofNat 64)

def interrupted (m : Machine) : Interrupted where
  r15 := (m.reg .r15).toNat
  r14 := (m.reg .r14).toNat
  r13 := (m.reg .r13).toNat
  r12 := (m.reg .r12).toNat
  r11 := (m.reg .r11).toNat
  r10 := (m.reg .r10).toNat
  r9 := (m.reg .r9).toNat
  r8 := (m.reg .r8).toNat
  rdi := (m.reg .rdi).toNat
  rsi := (m.reg .rsi).toNat
  rbp := (m.reg .rbp).toNat
  rbx := (m.reg .rbx).toNat
  rdx := (m.reg .rdx).toNat
  rcx := (m.reg .rcx).toNat
  rax := (m.reg .rax).toNat
  rsp := (m.reg .rsp).toNat
  rip := m.rip.toNat
  cs := m.cs.toNat
  rflags := m.rflags.toNat
  rsp_lt := (m.reg .rsp).isLt

-- The bytes at the statics against the kernel state.
structure Represents (S : Statics) (mem : Memory) (s : Kernel) : Prop where
  fence : (mem S.preemptible).toNat = s.preemptible
  index : (mem S.currentIdx).toNat = s.currentIdx
  slots : mem S.slotUsed = s.slotUsed
  ticks : (read64 mem S.apicTicks).toNat = s.apicTicks
  switches : (read64 mem S.preemptSwitches).toNat = s.preemptSwitches
  frames : ∀ i, i < MAX_TASKS → Holds mem (frameAt S (BitVec.ofNat 64 i)) (s.taskFrames i).words

theorem stash_words (m : Machine) : (interrupted m).stash.words = frameWords m := by
  have rsp : BitVec.ofNat 64 (interrupted m).stash.rsp = alignedRsp m-16 := by
    have below : (alignedRsp m).toNat = (m.reg .rsp).toNat-(m.reg .rsp).toNat % 16 := align_toNat _
    have bound := (m.reg .rsp).isLt
    rw [Interrupted.stash_rsp]
    apply BitVec.eq_of_toNat_eq
    show (BitVec.ofNat 64 (((m.reg .rsp).toNat-(m.reg .rsp).toNat % 16+2^64-16) % 2^64)).toNat = _
    have sixteen : (16 : Word).toNat = 16 := rfl
    rw [BitVec.toNat_ofNat,BitVec.toNat_sub,below,sixteen]
    omega
  unfold FullFrame.words
  simp only [List.map_cons,List.map_nil,rsp]
  simp [interrupted,Interrupted.stash,frameWords,spilled]

theorem words_length (frame : FullFrame) : 8*frame.words.length = FRAME_STRIDE := by
  simp [FullFrame.words,FRAME_STRIDE,SPILL_WORDS,DOWN_WORDS,HW_WORDS]

theorem frames_apart (S : Statics) (left : i < MAX_TASKS) (right : j < MAX_TASKS) (other : i ≠ j) :
    Apart (frameAt S (BitVec.ofNat 64 i)) FRAME_STRIDE (frameAt S (BitVec.ofNat 64 j)) FRAME_STRIDE := by
  have stride : FRAME_STRIDE = 160 := rfl
  unfold MAX_TASKS at left right
  intro a here there
  rw [frame_offset,stride,within_offset_iff (by omega)] at here there
  omega

theorem taken_kernel (before : Represents S mem s) : taken S mem = true ↔
    s.preemptible ≠ 0 ∧ s.currentIdx < MAX_TASKS ∧ s.slotUsed.getLsbD s.currentIdx = true := by
  have zero : mem S.preemptible = 0 ↔ s.preemptible = 0 := by
    rw [← before.fence]
    exact ⟨fun down => by rw [down]; rfl,fun down => BitVec.eq_of_toNat_eq down⟩
  rw [taken_iff,before.index,before.slots,ne_eq,zero]

section refinement
variable {S : Statics} {m : Machine} {mem : Memory} {s : Kernel} (clear : Clear S m) (away : EoiAway S m)
  (memory : ∀ a, ¬ Within a (scratch m) 160 → mem a = afterStub S m a)
include clear away memory

theorem refined_byte (member : (p,1) ∈ S.areas) (ticks : Apart p 1 S.apicTicks 8) (switches : Apart p 1 S.preemptSwitches 8)
    (frames : Apart p 1 S.taskFrames (MAX_TASKS*FRAME_STRIDE)) : mem p = m.mem p := by
  have here : Within p p 1 := by simp [Within]
  rw [stub_area clear away memory p 1 member here]
  refine stashed_outside (ticks p here) fun yes => ⟨switches p here,fun framed => frames p here ?_⟩
  exact frame_within S _ (taken_iff.mp yes).2.1 framed

theorem refined_word (member : (p,8) ∈ S.areas) : read64 mem p = read64 (stashed S m) p :=
  read64_congr fun _ here => stub_area clear away memory p 8 member here

theorem refined_frame (before : Represents S m.mem s) (inside : i < MAX_TASKS) :
    Holds mem (frameAt S (BitVec.ofNat 64 i)) (if taken S m.mem = true ∧ i = s.currentIdx then frameWords m else (s.taskFrames i).words) := by
  have table : ∀ a, Within a (frameAt S (BitVec.ofNat 64 i)) FRAME_STRIDE → Within a S.taskFrames (MAX_TASKS*FRAME_STRIDE) := by
    intro a here
    have small : (BitVec.ofNat 8 i).toNat = i := by
      rw [BitVec.toNat_ofNat]
      exact Nat.mod_eq_of_lt (Nat.lt_trans inside (by decide))
    refine frame_within S (BitVec.ofNat 8 i) (by rw [small]; exact inside) ?_
    rw [index_word,small]
    exact here
  have same : ∀ a, Within a (frameAt S (BitVec.ofNat 64 i)) FRAME_STRIDE → mem a = stashed S m a := fun a here =>
    stub_area clear away memory S.taskFrames _ (by simp [Statics.areas]) (table a here)
  have current : currentFrame S m = frameAt S (BitVec.ofNat 64 s.currentIdx) := by
    rw [currentFrame,index_word,before.index]
  split
  · rename_i caught
    have framed := stashed_frame caught.1
    rw [current,← caught.2] at framed
    refine holds_congr framed (by rw [frameWords_length]; decide) ?_
    rw [frameWords_length]
    exact same
  · rename_i passed
    refine holds_congr (before.frames i inside) (by rw [words_length]; decide) ?_
    rw [words_length]
    intro a here
    rw [same a here]
    refine stashed_outside ?_ ?_
    · intro ticks
      exact statics_apart S (i:=3) (j:=5) (by decide) rfl rfl a (table a here) ticks
    · intro yes
      refine ⟨fun switches => statics_apart S (i:=3) (j:=6) (by decide) rfl rfl a (table a here) switches,?_⟩
      rw [current]
      exact frames_apart S inside ((taken_kernel before).mp yes).2.1 (fun equal => passed ⟨yes,equal⟩) a here

-- A whole pass through the stub is one `tick` of the kernel model.
theorem stub_refines_tick (before : Represents S m.mem s) : Represents S mem (tick (interrupted m) s) := by
  have fence : mem S.preemptible = m.mem S.preemptible := refined_byte clear away memory (by simp [Statics.areas])
    (statics_apart S (i:=0) (j:=5) (by decide) rfl rfl) (statics_apart S (i:=0) (j:=6) (by decide) rfl rfl)
    (statics_apart S (i:=0) (j:=3) (by decide) rfl rfl)
  have index : mem S.currentIdx = m.mem S.currentIdx := refined_byte clear away memory (by simp [Statics.areas])
    (statics_apart S (i:=1) (j:=5) (by decide) rfl rfl) (statics_apart S (i:=1) (j:=6) (by decide) rfl rfl)
    (statics_apart S (i:=1) (j:=3) (by decide) rfl rfl)
  have slots : mem S.slotUsed = m.mem S.slotUsed := refined_byte clear away memory (by simp [Statics.areas])
    (statics_apart S (i:=2) (j:=5) (by decide) rfl rfl) (statics_apart S (i:=2) (j:=6) (by decide) rfl rfl)
    (statics_apart S (i:=2) (j:=3) (by decide) rfl rfl)
  have ticks : (read64 mem S.apicTicks).toNat = (s.apicTicks+1) % 2^64 := by
    rw [refined_word clear away memory (by simp [Statics.areas]),stashed_ticks,BitVec.toNat_add,before.ticks]
    rfl
  have switches := refined_word clear away memory (p:=S.preemptSwitches) (by simp [Statics.areas])
  rw [stashed_switches] at switches
  have frames := fun i inside => refined_frame clear away memory (i:=i) before inside
  by_cases yes : s.preemptible ≠ 0 ∧ s.currentIdx < MAX_TASKS ∧ s.slotUsed.getLsbD s.currentIdx = true
  · have ran : tick (interrupted m) s = {s with
        apicTicks := (s.apicTicks+1) % 2^64, preemptSwitches := (s.preemptSwitches+1) % 2^64
        taskFrames := update s.taskFrames s.currentIdx (interrupted m).stash} := by
      simp only [tick]
      rw [if_pos yes]
    rw [ran]
    refine ⟨by rw [fence]; exact before.fence,by rw [index]; exact before.index,by rw [slots]; exact before.slots,ticks,?_,?_⟩
    · rw [switches,if_pos ((taken_kernel before).mpr yes),BitVec.toNat_add,before.switches]
      rfl
    · intro i inside
      have framed := frames i inside
      by_cases equal : i = s.currentIdx
      · rw [if_pos ⟨(taken_kernel before).mpr yes,equal⟩] at framed
        rw [equal] at framed ⊢
        simp only [update_self,stash_words]
        exact framed
      · rw [if_neg (fun caught => equal caught.2)] at framed
        simp only [update_of_ne equal]
        exact framed
  · have no : ¬ taken S m.mem = true := fun caught => yes ((taken_kernel before).mp caught)
    have ran : tick (interrupted m) s = {s with apicTicks := (s.apicTicks+1) % 2^64} := by
      simp only [tick]
      rw [if_neg yes]
    rw [ran]
    refine ⟨by rw [fence]; exact before.fence,by rw [index]; exact before.index,by rw [slots]; exact before.slots,ticks,?_,?_⟩
    · rw [switches,if_neg no,before.switches]
    · intro i inside
      have framed := frames i inside
      rwa [if_neg (fun caught => no caught.1)] at framed

end refinement
end RustyCore
