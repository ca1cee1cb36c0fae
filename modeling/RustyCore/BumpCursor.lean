import RustyCore.BuddyBringUp
import RustyCore.CallSequences

namespace RustyCore
open CallSequences

def MemoryRegion.frames (region : MemoryRegion) : List ℕ :=
  ((List.range (region.end_ / FRAME_SIZE)).map (·*FRAME_SIZE)).filter fun f =>
    decide (region.kind = .usable ∧ MIN_ADDR ≤ f ∧ region.start ≤ f ∧ f+FRAME_SIZE ≤ region.end_)

theorem mem_frames : f ∈ region.frames ↔ UsableIn region f := by
  simp only [MemoryRegion.frames,List.mem_filter,List.mem_map,List.mem_range,decide_eq_true_eq]
  constructor
  · rintro ⟨⟨q,_,rfl⟩,usable,low,begins,ends⟩
    exact ⟨usable,Nat.dvd_mul_left _ _,low,begins,ends⟩
  · rintro ⟨usable,⟨q,rfl⟩,low,begins,ends⟩
    refine ⟨⟨q,?_,Nat.mul_comm _ _⟩,usable,low,begins,ends⟩
    rw [← Nat.mul_add_one,Nat.mul_comm] at ends
    exact (Nat.le_div_iff_mul_le frame_positive).mpr ends

theorem frames_sorted (region : MemoryRegion) : region.frames.Pairwise (· < ·) := by
  apply List.Pairwise.filter
  rw [List.pairwise_map]
  refine List.pairwise_lt_range.imp ?_
  intro q r less
  exact Nat.mul_lt_mul_of_pos_right less frame_positive

theorem no_frames {regions : List MemoryRegion} : regions.flatMap MemoryRegion.frames = [] ↔ ¬ ∃ f, UsableFrame regions f := by
  rw [List.flatMap_eq_nil_iff]
  constructor
  · rintro none ⟨f,region,member,inside⟩
    have listed := mem_frames.mpr inside
    rw [none region member] at listed
    cases listed
  · intro none region member
    rw [List.eq_nil_iff_forall_not_mem]
    intro f listed
    exact none ⟨f,region,member,mem_frames.mp listed⟩

namespace BuddyFrameAllocator
variable {regions rest : List MemoryRegion} {region : MemoryRegion} {nextAddr addr : ℕ}

-- A region the cursor never leaves: its candidate address reaches the last frame of the
-- address space, before the first frame of the region or after its last one.
def Blocks (region : MemoryRegion) : Prop :=
  region.kind = .usable ∧ region.start ≤ 2^64-FRAME_SIZE ∧
    (2^64-2*FRAME_SIZE < region.start ∨ 2^64-FRAME_SIZE ≤ region.end_)

instance : DecidablePred Blocks := fun region =>
  inferInstanceAs (Decidable (region.kind = .usable ∧ region.start ≤ 2^64-FRAME_SIZE ∧
    (2^64-2*FRAME_SIZE < region.start ∨ 2^64-FRAME_SIZE ≤ region.end_)))

def Hides (regions : List MemoryRegion) : Prop :=
  ∃ before region after, regions = before ++ region :: after ∧ Blocks region ∧ ∃ f, UsableFrame after f

-- What the cursor has still to hand out at a position of the map.
def pending : List MemoryRegion → ℕ → List ℕ
  | [],_ => []
  | region :: rest,nextAddr =>
    region.frames.filter (fun f => decide (nextAddr ≤ f)) ++ if Blocks region then [] else pending rest 0

def Placed : List MemoryRegion → ℕ → Prop
  | [],nextAddr => nextAddr = 0
  | region :: _,nextAddr => nextAddr = 0 ∨ ∃ f, UsableIn region f ∧ nextAddr = f+FRAME_SIZE

theorem placed_zero (rest : List MemoryRegion) : Placed rest 0 := by
  cases rest with
  | nil => rfl
  | cons => exact Or.inl rfl

theorem placed_cases (placed : Placed rest nextAddr) :
    nextAddr = 0 ∨ ∃ region f, rest[0]? = some region ∧ UsableIn region f ∧ nextAddr = f+FRAME_SIZE := by
  cases rest with
  | nil => exact Or.inl placed
  | cons region rest => exact placed.imp_right fun ⟨f,inside,equal⟩ => ⟨region,f,rfl,inside,equal⟩

theorem placed_grain (placed : Placed rest nextAddr) : FRAME_SIZE ∣ nextAddr := by
  rcases placed_cases placed with rfl | ⟨_,f,_,inside,rfl⟩
  · exact Nat.dvd_zero _
  · exact Nat.dvd_add inside.2.1 (Nat.dvd_refl _)

theorem alignUp_below (start : ℕ) : alignUp start FRAME_SIZE < start+FRAME_SIZE := by
  have positive := frame_positive
  unfold alignUp
  split <;> omega

theorem stuck_blocks (placed : Placed (region :: rest) nextAddr) (spent : Spent region nextAddr) :
    Stuck region nextAddr ↔ Blocks region := by
  have size : FRAME_SIZE = 4096 := by simp [FRAME_SIZE]
  have begins := alignUp_ge region.start FRAME_SIZE
  have near := alignUp_below region.start
  have whole : FRAME_SIZE ∣ alignUp region.start FRAME_SIZE := alignUp_dvd frame_positive
  have grain := placed_grain placed
  unfold Stuck Blocks
  refine and_congr_right ?_
  intro usable
  constructor
  · rintro ⟨word,late⟩
    simp only [MIN_ADDR] at late
    rcases placed with rfl | ⟨f,inside,rfl⟩
    · rw [size] at begins near whole word late ⊢
      exact ⟨by omega,Or.inl (by omega)⟩
    · have least := alignUp_least inside.2.1 inside.2.2.2.1
      have ends := inside.2.2.2.2
      have starts := inside.2.2.2.1
      have multiple := inside.2.1
      have bound := region.end_lt
      rw [size] at least ends multiple late ⊢
      exact ⟨by omega,Or.inr (by omega)⟩
  · rintro ⟨starts,late⟩
    refine ⟨alignUp_top starts,?_⟩
    rcases Nat.lt_or_ge (2^64-2*FRAME_SIZE) region.start with high | low
    · rw [size] at begins whole high ⊢
      omega
    · have ends := late.resolve_left (Nat.not_lt.mpr low)
      have last : UsableIn region (2^64-2*FRAME_SIZE) :=
        ⟨usable,⟨2^52-2,by simp [FRAME_SIZE]⟩,by simp [FRAME_SIZE,MIN_ADDR],low,by omega⟩
      have behind := spent _ last
      rw [size] at behind grain ⊢
      omega

theorem spent_frames (spent : Spent region nextAddr) : region.frames.filter (fun f => decide (nextAddr ≤ f)) = [] := by
  rw [List.filter_eq_nil_iff]
  intro f listed ahead
  have behind := spent f (mem_frames.mp listed)
  have ahead := of_decide_eq_true ahead
  omega

theorem next_frames (inside : UsableIn region addr) (ahead : nextAddr ≤ addr)
    (least : ∀ f, UsableIn region f → nextAddr ≤ f → addr ≤ f) :
    region.frames.filter (fun f => decide (nextAddr ≤ f)) =
      addr :: region.frames.filter (fun f => decide (addr+FRAME_SIZE ≤ f)) := by
  have positive := frame_positive
  have sorted := frames_sorted region
  refine (sorted.filter _).eq_of_mem_iff ?_ ?_
  · rw [List.pairwise_cons]
    refine ⟨?_,sorted.filter _⟩
    intro f listed
    have past := of_decide_eq_true (List.mem_filter.mp listed).2
    omega
  · intro f
    simp only [List.mem_cons,List.mem_filter,mem_frames,decide_eq_true_eq]
    constructor
    · rintro ⟨frame,later⟩
      have above := least f frame later
      obtain ⟨q,rfl⟩ := frame.2.1
      obtain ⟨r,rfl⟩ := inside.2.1
      refine (Nat.eq_or_lt_of_le above).imp Eq.symm ?_
      intro less
      refine ⟨frame,?_⟩
      rw [← Nat.mul_add_one]
      exact Nat.mul_le_mul_left _ (Nat.lt_of_mul_lt_mul_left less)
    · rintro (rfl | ⟨frame,past⟩)
      · exact ⟨inside,ahead⟩
      · exact ⟨frame,by omega⟩

theorem cursor_pending (placed : Placed rest nextAddr) (idx : ℕ) : ∃ skipped left next, rest = skipped ++ left ∧
    cursor rest idx nextAddr = ((pending rest nextAddr).head?,idx+skipped.length,next) ∧
    pending left next = (pending rest nextAddr).tail ∧ Placed left next := by
  induction rest generalizing idx nextAddr with
  | nil => exact ⟨[],[],nextAddr,rfl,rfl,rfl,placed⟩
  | cons region rest ih =>
      rcases cursor_region region rest idx (placed_grain placed) with
        ⟨spent,free,equal⟩ | ⟨addr,inside,ahead,least,equal⟩ | ⟨spent,stuck,equal⟩
      · rw [stuck_blocks placed spent] at free
        obtain ⟨skipped,left,next,split,ran,tail,kept⟩ := ih (placed_zero rest) (idx+1)
        have same : pending (region :: rest) nextAddr = pending rest 0 := by
          rw [pending,spent_frames spent,if_neg free,List.nil_append]
        refine ⟨region :: skipped,left,next,by rw [split]; rfl,?_,?_,kept⟩
        · rw [equal,ran,same,List.length_cons,Nat.add_assoc,Nat.add_comm 1]
        · rw [same,tail]
      · refine ⟨[],region :: rest,addr+FRAME_SIZE,rfl,?_,?_,Or.inr ⟨addr,inside,rfl⟩⟩
        · rw [equal,pending,next_frames inside ahead least]
          rfl
        · rw [pending,pending,next_frames inside ahead least]
          rfl
      · rw [stuck_blocks placed spent] at stuck
        have nothing : pending (region :: rest) nextAddr = [] := by
          rw [pending,spent_frames spent,if_pos stuck,List.nil_append]
        refine ⟨[],region :: rest,nextAddr,rfl,?_,?_,placed⟩
        · rw [equal,nothing]
          rfl
        · rw [nothing]
          rfl

abbrev pendingOf (a : BuddyFrameAllocator) : List ℕ := pending (a.regions.drop a.regionIdx) a.nextAddr

abbrev PlacedIn (a : BuddyFrameAllocator) : Prop := Placed (a.regions.drop a.regionIdx) a.nextAddr

theorem bumpOne_pending {a : BuddyFrameAllocator} (placed : PlacedIn a) :
    a.bumpOne.1 = (pendingOf a).head? ∧ pendingOf a.bumpOne.2 = (pendingOf a).tail ∧ PlacedIn a.bumpOne.2 := by
  obtain ⟨skipped,left,next,split,ran,tail,kept⟩ := cursor_pending placed a.regionIdx
  have moved : a.regions.drop (a.regionIdx+skipped.length) = left := by
    rw [← List.drop_drop,split]
    exact List.drop_left
  simp only [bumpOne,ran,pendingOf,PlacedIn,moved]
  exact ⟨trivial,tail,kept⟩

theorem bumpOne_enumerates {a : BuddyFrameAllocator} (placed : PlacedIn a) : Enumerates bumpOne a (pendingOf a) :=
  enumerates_pending (fun _ placed => bumpOne_pending placed) placed

theorem hides_cons : Hides (region :: rest) ↔ (Blocks region ∧ ∃ f, UsableFrame rest f) ∨ Hides rest := by
  constructor
  · rintro ⟨before,stuck,after,split,blocks,hidden⟩
    cases before with
    | nil =>
        cases split
        exact Or.inl ⟨blocks,hidden⟩
    | cons first before =>
        cases split
        exact Or.inr ⟨before,stuck,after,rfl,blocks,hidden⟩
  · rintro (⟨blocks,hidden⟩ | ⟨before,stuck,after,rfl,blocks,hidden⟩)
    · exact ⟨[],region,rest,rfl,blocks,hidden⟩
    · exact ⟨region :: before,stuck,after,rfl,blocks,hidden⟩

theorem hides_usable (hides : Hides regions) : ∃ f, UsableFrame regions f := by
  obtain ⟨before,stuck,after,rfl,_,f,region,member,inside⟩ := hides
  exact ⟨f,region,List.mem_append_right _ (List.mem_cons_of_mem _ member),inside⟩

theorem pending_start : pending (region :: rest) 0 = region.frames ++ if Blocks region then [] else pending rest 0 := by
  rw [pending,List.filter_eq_self.mpr fun f _ => decide_eq_true (Nat.zero_le f)]

theorem pending_complete : pending regions 0 = regions.flatMap MemoryRegion.frames ↔ ¬ Hides regions := by
  induction regions with
  | nil =>
      refine iff_of_true rfl ?_
      rintro ⟨before,_,_,split,_⟩
      cases before <;> cases split
  | cons region rest ih =>
      rw [pending_start,List.flatMap_cons,List.append_right_inj,hides_cons,not_or]
      by_cases blocks : Blocks region
      · rw [if_pos blocks,eq_comm,no_frames]
        constructor
        · intro none
          exact ⟨fun hidden => none hidden.2,fun hides => none (hides_usable hides)⟩
        · rintro ⟨clear,_⟩ hidden
          exact clear ⟨blocks,hidden⟩
      · rw [if_neg blocks,ih]
        exact ⟨fun shown => ⟨fun hidden => blocks hidden.1,shown⟩,And.right⟩

-- The loop of bump.rs is the loop of `bump_one`, and so are its answers.
theorem walk_cursor (rest : List MemoryRegion) (a : BootFrameAllocator) :
    a.walk rest = ((cursor rest a.regionIdx a.nextAddr).1,{a with
      regionIdx := (cursor rest a.regionIdx a.nextAddr).2.1, nextAddr := (cursor rest a.regionIdx a.nextAddr).2.2}) := by
  induction rest generalizing a with
  | nil => rfl
  | cons region rest ih =>
      have skip := ih a.advance
      simp only [BootFrameAllocator.advance] at skip
      simp only [BootFrameAllocator.walk,cursor,BootFrameAllocator.advance,skip]
      split
      · rfl
      · split
        · rfl
        · split
          · rfl
          · split <;> rfl

theorem boot_answers (regions : List MemoryRegion) (k : ℕ) :
    answer BootFrameAllocator.nextFrame k (.new regions) = answer bumpOne k (new regions) := by
  have each : ∀ (s : BootFrameAllocator) (t : BuddyFrameAllocator),
      s.regions = t.regions ∧ s.regionIdx = t.regionIdx ∧ s.nextAddr = t.nextAddr →
      s.nextFrame.1 = t.bumpOne.1 ∧ s.nextFrame.2.regions = t.bumpOne.2.regions ∧
        s.nextFrame.2.regionIdx = t.bumpOne.2.regionIdx ∧ s.nextFrame.2.nextAddr = t.bumpOne.2.nextAddr := by
    rintro s t ⟨map,idx,next⟩
    simp only [BootFrameAllocator.nextFrame,walk_cursor,bumpOne,map,idx,next,and_self]
  exact answer_simulates each ⟨rfl,rfl,rfl⟩ k

theorem bump_cursors_enumerate (regions : List MemoryRegion) :
    (∀ k, answer BootFrameAllocator.nextFrame k (.new regions) = answer bumpOne k (new regions)) ∧
    (Enumerates BootFrameAllocator.nextFrame (.new regions) (regions.flatMap MemoryRegion.frames) ∧
      Enumerates bumpOne (new regions) (regions.flatMap MemoryRegion.frames) ↔ ¬ Hides regions) := by
  have same := boot_answers regions
  have order : Enumerates bumpOne (new regions) (pending regions 0) := bumpOne_enumerates (placed_zero regions)
  refine ⟨same,?_⟩
  rw [← pending_complete]
  constructor
  · rintro ⟨_,enumerates⟩
    exact enumerates_unique order enumerates
  · intro complete
    rw [complete] at order
    exact ⟨fun k => (same k).trans (order k),order⟩

theorem pending_blocked (usable : region.kind = .usable) (late : 2^64-2*FRAME_SIZE < region.start)
    (starts : region.start ≤ 2^64-FRAME_SIZE) : pending (region :: rest) 0 = [] := by
  rw [pending,if_pos ⟨usable,starts,Or.inl late⟩,List.append_nil]
  apply spent_frames
  intro f inside
  have size : FRAME_SIZE = 4096 := by simp [FRAME_SIZE]
  have multiple := inside.2.1
  have begins := inside.2.2.2.1
  have word := usable_word inside
  rw [size] at late multiple word
  omega

def topmostFirst : List MemoryRegion := [.usable 0xFFFFFFFFFFFFF000 0xFFFFFFFFFFFFFFFF,.usable 0x1000 0x2000]

theorem topmost_region_hides : (∀ k, answer BootFrameAllocator.nextFrame k (.new topmostFirst) = none) ∧
    (∀ k, answer bumpOne k (new topmostFirst) = none) ∧ 0x1000 ∈ topmostFirst.flatMap MemoryRegion.frames := by
  have order : Enumerates bumpOne (new topmostFirst) (pending topmostFirst 0) := bumpOne_enumerates (placed_zero _)
  have size : FRAME_SIZE = 4096 := by simp [FRAME_SIZE]
  have nothing : pending topmostFirst 0 = [] :=
    pending_blocked rfl (by rw [size]; decide) (by rw [size]; decide)
  rw [nothing] at order
  refine ⟨fun k => (boot_answers topmostFirst k).trans (order k),order,?_⟩
  rw [List.mem_flatMap]
  refine ⟨_,List.mem_cons_of_mem _ List.mem_cons_self,mem_frames.mpr ⟨rfl,?_,Nat.le_refl _,Nat.le_refl _,?_⟩⟩
  · rw [size]
  · rw [size]
    decide

end BuddyFrameAllocator
end RustyCore
