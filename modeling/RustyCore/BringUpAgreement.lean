import RustyCore.BumpCursor
import RustyCore.BuddyOwnership

namespace RustyCore.BuddyFrameAllocator
open CallSequences DyadicBlocks

inductive Bumped (regions : List MemoryRegion) : ℕ → BuddyFrameAllocator → Prop where
  | new : Bumped regions 0 (new regions)
  | bump : Bumped regions k a → a.bumpOne = (some addr,next) → Bumped regions (k+1) next

def WalksAgree (a : BuddyFrameAllocator) : Prop := ∀ p : Profile, ∃ fuel next, activate p fuel a = .ok next ∧
  ∀ f, FRAME_SIZE ∣ f → (f ∈ covered next.freeLists ↔ ∃ k, answer bumpOne k a = some f)

-- No address of the two walks leaves the words, and no region hides a later one.
structure Tame (a : BuddyFrameAllocator) : Prop where
  roomy : ∀ i region, a.regions[i]? = some region → Roomy a.regionIdx i region
  shown : ¬ Hides (a.regions.drop a.regionIdx)

section walks
variable {a next : BuddyFrameAllocator} {regions rest : List MemoryRegion} {region : MemoryRegion} {idx nextAddr f : ℕ}

theorem bumped_kept (bumped : Bumped regions k a) :
    a.regions = regions ∧ a.active = false ∧ a.freeLists = (fun _ => []) ∧ PlacedIn a := by
  induction bumped with
  | new => exact ⟨rfl,rfl,rfl,placed_zero regions⟩
  | @bump k a addr next _ ran ih =>
      obtain rfl : a.bumpOne.2 = next := by rw [ran]
      obtain ⟨map,inactive,unlisted,placed⟩ := ih
      exact ⟨map,inactive,unlisted,(bumpOne_pending placed).2.2⟩

theorem placed_word (placed : Placed rest nextAddr) : nextAddr < 2^64 := by
  rcases placed_cases placed with rfl | ⟨region,f,_,inside,rfl⟩
  · decide
  · exact usable_word inside

theorem placed_small (placed : PlacedIn a) (roomy : ∀ i region, a.regions[i]? = some region → Roomy a.regionIdx i region) :
    a.nextAddr < 2^64-FRAME_SIZE := by
  rcases placed_cases placed with start | ⟨region,f,here,inside,behind⟩
  · rw [start]
    simp [FRAME_SIZE]
  · rw [List.getElem?_drop,Nat.add_zero] at here
    have ordered := usable_ico inside
    have room := (roomy _ region here inside.1 (Nat.lt_of_le_of_lt ordered.1 ordered.2)).2 (Nat.le_refl _)
    rw [behind]
    exact Nat.lt_of_le_of_lt inside.2.2.2.2 room.2

theorem mem_pending (shown : ¬ Hides rest) : f ∈ pending rest nextAddr ↔
    ∃ j region, rest[j]? = some region ∧ UsableIn region f ∧ (j = 0 → nextAddr ≤ f) := by
  cases rest with
  | nil => simp [pending]
  | cons region rest =>
      have whole := pending_complete.mpr shown
      rw [pending_start,List.flatMap_cons,List.append_right_inj] at whole
      rw [pending,whole,List.mem_append,List.mem_filter,mem_frames,decide_eq_true_eq,List.mem_flatMap]
      constructor
      · rintro (⟨inside,ahead⟩ | ⟨r,member,listed⟩)
        · exact ⟨0,region,rfl,inside,fun _ => ahead⟩
        · obtain ⟨j,found⟩ := List.getElem?_of_mem member
          exact ⟨j+1,r,found,mem_frames.mp listed,fun first => absurd first (Nat.succ_ne_zero j)⟩
      · rintro ⟨j,r,found,inside,ahead⟩
        cases j with
        | zero =>
            cases found
            exact Or.inl ⟨inside,ahead rfl⟩
        | succ j => exact Or.inr ⟨r,List.mem_of_getElem? found,mem_frames.mpr inside⟩

theorem pending_front {before after : List MemoryRegion} {stuck : MemoryRegion} (blocks : Blocks stuck)
    (waits : f ∈ pending (before ++ stuck :: after) nextAddr) :
    ∃ j region, (before ++ stuck :: after)[j]? = some region ∧ j ≤ before.length ∧ UsableIn region f := by
  induction before generalizing nextAddr with
  | nil =>
      rw [List.nil_append,pending,if_pos blocks,List.append_nil] at waits
      exact ⟨0,stuck,rfl,Nat.le_refl _,mem_frames.mp (List.mem_filter.mp waits).1⟩
  | cons region before ih =>
      rw [List.cons_append,pending,List.mem_append] at waits
      rcases waits with here | later
      · exact ⟨0,region,rfl,Nat.zero_le _,mem_frames.mp (List.mem_filter.mp here).1⟩
      · split at later
        · cases later
        · obtain ⟨j,r,found,within,inside⟩ := ih later
          exact ⟨j+1,r,found,Nat.succ_le_succ within,inside⟩

theorem hidden_skipped (disjoint : Disjointed rest) (hides : Hides rest) :
    ∃ f j region, rest[j+1]? = some region ∧ UsableIn region f ∧ ∀ nextAddr, f ∉ pending rest nextAddr := by
  obtain ⟨before,stuck,after,rfl,blocks,f,region,member,inside⟩ := hides
  obtain ⟨j,found⟩ := List.getElem?_of_mem member
  have there : (before ++ stuck :: after)[before.length+j+1]? = some region := by
    rw [Nat.add_assoc,List.getElem?_append_right (Nat.le_add_right _ _),Nat.add_sub_cancel_left]
    exact found
  refine ⟨f,before.length+j,region,there,inside,?_⟩
  intro nextAddr waits
  obtain ⟨j',r,earlier,within,inside'⟩ := pending_front blocks waits
  have equal := region_index disjoint earlier there inside'.1 inside.1 (usable_ico inside') (usable_ico inside)
  omega

theorem listRegion_checked (grain : FRAME_SIZE ∣ nextAddr) (small : nextAddr < 2^64)
    (ran : listRegion .dev fuel idx nextAddr i region lists = .ok after) : Roomy idx i region := by
  intro usable ordered
  have size : FRAME_SIZE = 4096 := by simp [FRAME_SIZE]
  have word : alignUp region.start FRAME_SIZE < 2^64 := by
    simp only [listRegion,usable,ne_eq,not_true_eq_false,if_false,if_neg (Nat.not_le.mpr ordered)] at ran
    obtain ⟨_,aligned,_⟩ := bind_ok ran
    exact nextMultipleOf_checked region.start_lt aligned
  have begins := alignUp_ge region.start FRAME_SIZE
  have multiple : FRAME_SIZE ∣ alignUp region.start FRAME_SIZE := alignUp_dvd frame_positive
  refine ⟨by rw [size] at begins multiple word ⊢; omega,?_⟩
  intro order
  rw [listRegion_eq .dev usable ordered word grain small order] at ran
  obtain ⟨starts,ends⟩ := carve_checked (first_dvd grain i) (last_dvd region) ran
  have least : alignUp region.start FRAME_SIZE ≤ first idx nextAddr i region :=
    Nat.le_trans (Nat.le_max_left _ _) (Nat.le_max_left _ _)
  simp only [last] at ends
  rw [size] at begins multiple least starts ends ⊢
  constructor
  · omega
  · omega

theorem listRegions_checked (grain : FRAME_SIZE ∣ nextAddr) (small : nextAddr < 2^64)
    (ran : listRegions .dev fuel idx nextAddr i rest lists = .ok after) : ∀ k r, rest[k]? = some r → Roomy idx (i+k) r := by
  induction rest generalizing i lists with
  | nil =>
      intro k r found
      cases found
  | cons region rest ih =>
      obtain ⟨middle,head,tail⟩ := bind_ok ran
      intro k r found
      cases k with
      | zero =>
          cases found
          exact listRegion_checked grain small head
      | succ k =>
          rw [show i+(k+1) = i+1+k by omega]
          exact ih tail k r found

theorem activate_checked (placed : PlacedIn a) (ran : activate .dev fuel a = .ok next) :
    ∀ i region, a.regions[i]? = some region → Roomy a.regionIdx i region := by
  obtain ⟨_,_,ran⟩ := bind_ok ran
  obtain ⟨lists,listing,_⟩ := bind_ok ran
  intro i region found
  have room := listRegions_checked (placed_grain placed) (placed_word placed) listing i region found
  rwa [Nat.zero_add] at room

theorem activate_remaining (disjoint : Disjointed regions) (bumped : Bumped regions k a)
    (roomy : ∀ i region, a.regions[i]? = some region → Roomy a.regionIdx i region) (ran : activate p fuel a = .ok next) :
    covered next.freeLists = Remaining a.regionIdx a.nextAddr 0 a.regions := by
  obtain ⟨rfl,_,unlisted,placed⟩ := bumped_kept bumped
  have listed := activate_lists unlisted disjoint roomy (placed_grain placed) (placed_small placed roomy) ran
  rw [listed.covers,show covered (fun _ => []) = ∅ from empty_cover _ _,Set.empty_union]

theorem bumped_goes (placed : PlacedIn a) (f : ℕ) : (∃ k, answer bumpOne k a = some f) ↔ f ∈ pendingOf a :=
  enumerates_mem (bumpOne_enumerates placed)

theorem agree_shown (disjoint : Disjointed regions) (bumped : Bumped regions k a)
    (roomy : ∀ i region, a.regions[i]? = some region → Roomy a.regionIdx i region) (ran : activate p fuel a = .ok next)
    (same : ∀ f, FRAME_SIZE ∣ f → (f ∈ covered next.freeLists ↔ ∃ k, answer bumpOne k a = some f)) :
    ¬ Hides (a.regions.drop a.regionIdx) := by
  obtain ⟨rfl,_,_,placed⟩ := bumped_kept bumped
  intro hides
  obtain ⟨f,j,region,there,inside,skipped⟩ := hidden_skipped (disjoint.sublist (List.drop_sublist _ _)) hides
  have listed : f ∈ covered next.freeLists := by
    rw [activate_remaining disjoint bumped roomy ran,remaining_frame inside.2.1]
    exact ⟨j+1,region,there,inside,fun first => absurd first (Nat.succ_ne_zero j)⟩
  exact skipped _ ((bumped_goes placed f).mp ((same f inside.2.1).mp listed))

theorem agree_tame (disjoint : Disjointed regions) (bumped : Bumped regions k a) (agree : WalksAgree a) : Tame a := by
  obtain ⟨fuel,next,ran,same⟩ := agree .dev
  have roomy := activate_checked (bumped_kept bumped).2.2.2 ran
  exact ⟨roomy,agree_shown disjoint bumped roomy ran same⟩

theorem activate_agrees (disjoint : Disjointed regions) (bumped : Bumped regions k a) : WalksAgree a ↔ Tame a := by
  refine ⟨agree_tame disjoint bumped,?_⟩
  rintro ⟨roomy,shown⟩ p
  obtain ⟨rfl,inactive,_,placed⟩ := bumped_kept bumped
  obtain ⟨fuel,next,ran⟩ := activate_returns p inactive roomy (placed_grain placed) (placed_small placed roomy)
  refine ⟨fuel,next,ran,?_⟩
  intro f multiple
  rw [activate_remaining disjoint bumped roomy ran,remaining_frame multiple,bumped_goes placed f,mem_pending shown]

end walks

theorem activate_agrees_sample : ∃ a, Bumped sampleMap.regions 2 a ∧ Tame a ∧ WalksAgree a := by
  have first : (new sampleMap.regions).bumpOne = (some 0x1000,(new sampleMap.regions).bumpOne.2) :=
    Prod.ext (by decide +kernel) rfl
  have second : (new sampleMap.regions).bumpOne.2.bumpOne = (some 0x2000,(new sampleMap.regions).bumpOne.2.bumpOne.2) :=
    Prod.ext (by decide +kernel) rfl
  have bumped : Bumped sampleMap.regions 2 (new sampleMap.regions).bumpOne.2.bumpOne.2 := .bump (.bump .new first) second
  have tame : Tame (new sampleMap.regions).bumpOne.2.bumpOne.2 := by
    refine ⟨map_roomy sampleMap,?_⟩
    rintro ⟨before,region,after,split,⟨usable,_,late⟩,_⟩
    have member : region ∈ sampleMap.regions :=
      List.mem_of_mem_drop (split ▸ List.mem_append_right before List.mem_cons_self)
    have low : ∀ r ∈ sampleMap.regions, r.start ≤ 2^52 := by decide +kernel
    have below := low region member
    have limit := sampleMap.bounded region member usable
    simp only [FRAME_SIZE] at late
    omega
  exact ⟨_,bumped,tame,(activate_agrees sampleMap.disjoint bumped).mpr tame⟩

-- An inverted region just below the top of the address space, then a good one: `activate`
-- lists the good frame, `bump_one` never returns it.
def invertedFirst : List MemoryRegion := [.usable 0xFFFFFFFFFFFFF000 0,.usable 0x1000 0x2000]

def insideTop : List MemoryRegion := [.usable 0xFFFFFFFFFFFFF001 0xFFFFFFFFFFFFFFFF]

theorem walks_disagree : (∀ p : Profile, ∃ next, activate p 2 (new invertedFirst) = .ok next ∧ next.freeLists 0 = [0x1000]) ∧
    (∀ k, answer bumpOne k (new invertedFirst) = none) ∧ ¬ WalksAgree (new invertedFirst) ∧
    (∀ fuel, activate .dev fuel (new insideTop) = .error (.panicked "attempt to add with overflow")) ∧
    ¬ WalksAgree (new insideTop) := by
  have size : FRAME_SIZE = 4096 := by simp [FRAME_SIZE]
  have panics : ∀ fuel, activate .dev fuel (new insideTop) = .error (.panicked "attempt to add with overflow") := by
    intro fuel
    have start : Profile.nextMultipleOf .dev (MemoryRegion.usable 0xFFFFFFFFFFFFF001 0xFFFFFFFFFFFFFFFF).start FRAME_SIZE =
        .error (.panicked "attempt to add with overflow") := by
      decide +kernel
    simp only [activate,new,insideTop,listRegions,listRegion,start]
    rfl
  refine ⟨?_,?_,?_,panics,?_⟩
  · intro p
    obtain ⟨next,ran,listed⟩ := ran_any (show (activate p 2 (new invertedFirst)).toOption.any
      (fun a => a.freeLists 0 == [0x1000]) = true by cases p <;> decide +kernel)
    exact ⟨next,ran,beq_iff_eq.mp listed⟩
  · have order : Enumerates bumpOne (new invertedFirst) (pending invertedFirst 0) := bumpOne_enumerates (placed_zero _)
    rwa [invertedFirst,pending_blocked rfl (by rw [size]; decide) (by rw [size]; decide)] at order
  · intro agree
    have disjoint : Disjointed invertedFirst := by
      simp [Disjointed,invertedFirst,MemoryRegion.usable]
    have shown := (agree_tame disjoint .new agree).shown
    refine shown ⟨[],_,_,rfl,⟨rfl,by rw [size]; decide,Or.inl (by rw [size]; decide)⟩,0x1000,_,List.mem_cons_self,rfl,?_⟩
    rw [size]
    decide
  · intro agree
    obtain ⟨fuel,next,ran,_⟩ := agree .dev
    cases (panics fuel).symm.trans ran

end RustyCore.BuddyFrameAllocator
