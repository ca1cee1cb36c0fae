import RustyCore.BringUpAgreement

namespace RustyCore.BuddyFrameAllocator
open CallSequences DyadicBlocks

def AllOut (map : MemoryMap) (out : Finset PhysFrame) : Prop :=
  ∀ f, UsableFrame map.regions f → ∃ g ∈ out, g.startAddress = f

def ListsNothing (p : Profile) (a : BuddyFrameAllocator) : Prop :=
  ∃ fuel next, activate p fuel a = .ok next ∧ covered next.freeLists = ∅

structure Refused (p : Profile) (a : BuddyFrameAllocator) (out : Finset PhysFrame) (next : BuddyFrameAllocator) : Prop where
  ledger : next.allocatedFrames = a.allocatedFrames
  lists : next.freeLists = a.freeLists
  bump : a.active = false → ListsNothing p a ∧ ListsNothing p next
  active : a.active = true → ∀ f ∈ out, ∃ freed, deallocateFrame f next = .ok freed ∧
    ∃ g after, allocateFrame p freed = .ok (some g,after)

structure FailsAtExhaustion (p : Profile) (map : MemoryMap) (a : BuddyFrameAllocator) (out : Finset PhysFrame) : Prop where
  answers : ∃ result next, allocateFrame p a = .ok (result,next) ∧ (result = none ↔ AllOut map out)
  refused : ∀ next, allocateFrame p a = .ok (none,next) → Refused p a out next

section exhaustion
variable {p : Profile} {map : MemoryMap} {a next : BuddyFrameAllocator} {out : Finset PhysFrame} {f : PhysFrame}

theorem owned_empty (owned : Owned map a out) : covered a.freeLists = ∅ ↔ AllOut map out := by
  constructor
  · intro empty f usable
    by_contra missing
    obtain ⟨_,_,inside⟩ := id usable
    have listed := (owned.free f inside.2.1).mpr ⟨usable,fun g held equal => missing ⟨g,held,equal⟩⟩
    rw [empty] at listed
    exact listed
  · intro all
    apply grainless_cover owned.tiled
    intro f grain listed
    rw [← frame_size] at grain
    obtain ⟨usable,unowned⟩ := (owned.free f grain).mp listed
    obtain ⟨g,held,equal⟩ := all f usable
    exact unowned g held equal

theorem owned_refills (owned : Owned map a out) (held : f ∈ out) : ∃ freed, deallocateFrame f a = .ok freed ∧
    ∃ g after, allocateFrame p freed = .ok (some g,after) := by
  obtain ⟨freed,ran,kept⟩ := owned_deallocate owned held
  refine ⟨freed,ran,?_⟩
  rcases owned_allocate p kept with ⟨g,after,allocated,_⟩ | ⟨_,empty⟩
  · exact ⟨g,after,allocated⟩
  · obtain ⟨g,left,equal⟩ := (owned_empty kept).mp empty f.startAddress (owned.usable f held)
    exact absurd (PhysFrame.same equal) (Finset.ne_of_mem_erase left)

theorem owned_exhaustion (owned : Owned map a out) : FailsAtExhaustion p map a out := by
  rcases owned_allocate p owned with ⟨g,next,ran,fresh,usable,_⟩ | ⟨ran,empty⟩
  · refine ⟨⟨some g,next,ran,iff_of_false nofun ?_⟩,fun after refused => by cases ran.symm.trans refused⟩
    intro all
    obtain ⟨h,held,equal⟩ := all _ usable
    exact fresh (PhysFrame.same equal ▸ held)
  · refine ⟨⟨none,a,ran,iff_of_true rfl ((owned_empty owned).mp empty)⟩,?_⟩
    intro next refused
    cases ran.symm.trans refused
    refine ⟨rfl,rfl,?_,fun _ f held => owned_refills owned held⟩
    intro inactive
    cases owned.active.symm.trans inactive

theorem bumping_lists (bumping : Bumping map a out) (all : AllOut map out) : ListsNothing p a := by
  obtain ⟨fuel,next,ran⟩ := activate_total p bumping
  exact ⟨fuel,next,ran,(owned_empty (activate_owned bumping ran)).mpr all⟩

theorem allocate_bumped (inactive : a.active = false) (ran : allocateFrame p a = .ok (found,next)) :
    (found = none ∧ next = a.bumpOne.2 ∧ a.bumpOne.1 = none) ∨
    ∃ f n addr, found = some f ∧ next = {a.bumpOne.2 with allocated := n} ∧ a.bumpOne.1 = some addr ∧
      PhysFrame.containingAddress addr = .ok f := by
  have chosen : a.chooseAddr p = .ok a.bumpOne := by simp only [chooseAddr,inactive]; rfl
  obtain ⟨⟨taken,mid⟩,equal,ran⟩ := bind_ok ran
  have same := Except.ok.inj (chosen.symm.trans equal)
  cases taken with
  | none =>
      cases ran
      exact Or.inl ⟨rfl,by rw [same],by rw [same]⟩
  | some addr =>
      obtain ⟨_,_,ran⟩ := bind_ok ran
      obtain ⟨_,_,ran⟩ := bind_ok ran
      obtain ⟨n,_,ran⟩ := bind_ok ran
      obtain ⟨f,frame,finish⟩ := bind_ok ran
      cases finish
      exact Or.inr ⟨f,n,addr,rfl,by rw [same],by rw [same],frame⟩

theorem pending_usable {rest : List MemoryRegion} (waits : x ∈ pending rest n) : UsableFrame rest x := by
  induction rest generalizing n with
  | nil => cases waits
  | cons region rest ih =>
      rw [pending,List.mem_append] at waits
      rcases waits with here | later
      · exact ⟨region,List.mem_cons_self,mem_frames.mp (List.mem_filter.mp here).1⟩
      · split at later
        · cases later
        · obtain ⟨r,member,inside⟩ := ih later
          exact ⟨r,List.mem_cons_of_mem _ member,inside⟩

theorem bumping_call (placed : PlacedIn a) (inactive : a.active = false) (ran : allocateFrame p a = .ok (found,next)) :
    found.map (·.startAddress) = (pendingOf a).head? ∧ pendingOf next = (pendingOf a).tail ∧ PlacedIn next := by
  obtain ⟨head,tail,kept⟩ := bumpOne_pending placed
  rcases allocate_bumped inactive ran with ⟨rfl,rfl,nothing⟩ | ⟨f,n,addr,rfl,rfl,taken,frame⟩
  · exact ⟨by rw [← head,nothing]; rfl,tail,kept⟩
  · refine ⟨?_,tail,kept⟩
    rw [head] at taken
    obtain ⟨_,_,inside⟩ := pending_usable (List.mem_of_head? taken)
    rw [taken,Option.map_some,PhysFrame.containing_start frame inside.2.1]

theorem run_placed (run : Run p map a out) (inactive : a.active = false) : PlacedIn a := by
  induction run with
  | start => exact placed_zero _
  | handed before ran ih =>
      rcases run_phase before with bumping | owned
      · exact (bumping_call (ih bumping.inactive) bumping.inactive ran).2.2
      · rcases owned_allocate p owned with ⟨_,_,equal,_,_,kept⟩ | ⟨equal,_⟩
        · cases ran.symm.trans equal
          cases kept.active.symm.trans inactive
        · cases ran.symm.trans equal
  | refused before ran ih =>
      rcases run_phase before with bumping | owned
      · exact (bumping_call (ih bumping.inactive) bumping.inactive ran).2.2
      · rcases owned_allocate p owned with ⟨_,_,equal,_⟩ | ⟨equal,_⟩
        · cases ran.symm.trans equal
        · cases ran.symm.trans equal
          cases owned.active.symm.trans inactive
  | activated _ ran _ => cases (activate_active ran).1.symm.trans inactive
  | freed before held ran _ =>
      rcases run_phase before with bumping | owned
      · simp only [deallocateFrame,assert,bumping.inactive] at ran
        cases ran
      · obtain ⟨_,equal,kept⟩ := owned_deallocate owned held
        cases ran.symm.trans equal
        cases kept.active.symm.trans inactive

theorem pending_out (bumping : Bumping map a out) (shown : ¬ Hides map.regions) : pendingOf a = [] ↔ AllOut map out := by
  have ahead : ¬ Hides (a.regions.drop a.regionIdx) := by
    rintro ⟨before,region,after,split,blocks,hidden⟩
    refine shown ⟨map.regions.take a.regionIdx ++ before,region,after,?_,blocks,hidden⟩
    rw [List.append_assoc,← split,bumping.regions,List.take_append_drop]
  rw [List.eq_nil_iff_forall_not_mem]
  constructor
  · rintro none f ⟨region,member,inside⟩
    obtain ⟨i,here⟩ := List.getElem?_of_mem member
    have high := usable_small map ⟨region,member,inside⟩
    refine ⟨⟨f,Nat.mod_eq_zero_of_dvd inside.2.1,high⟩,(bumping.consumed _).mpr ⟨i,region,here,inside,?_⟩,rfl⟩
    by_contra later
    simp only [not_or,not_and,Nat.not_lt] at later
    refine none f ((mem_pending ahead).mpr ⟨i-a.regionIdx,region,?_,inside,fun first => later.2 (by omega)⟩)
    rw [List.getElem?_drop,Nat.add_sub_cancel' later.1,bumping.regions]
    exact here
  · intro all f waits
    obtain ⟨j,region,here,inside,later⟩ := (mem_pending ahead).mp waits
    rw [List.getElem?_drop,bumping.regions] at here
    obtain ⟨g,held,rfl⟩ := all f ⟨region,List.mem_of_getElem? here,inside⟩
    exact cursor_fresh map.disjoint here inside (Nat.le_add_right _ _) (fun first => later (by omega))
      ((bumping.consumed g).mp held)

theorem bumping_exhaustion (bumping : Bumping map a out) (placed : PlacedIn a) (shown : ¬ Hides map.regions) :
    FailsAtExhaustion p map a out := by
  rcases bump_allocate p bumping with ⟨f,next,ran,_⟩ | ⟨next,ran,kept⟩
  · have head := (bumping_call placed bumping.inactive ran).1
    refine ⟨⟨some f,next,ran,iff_of_false nofun ?_⟩,fun after refused => by cases ran.symm.trans refused⟩
    intro all
    rw [(pending_out bumping shown).mpr all] at head
    cases head
  · have head := (bumping_call placed bumping.inactive ran).1
    have all := (pending_out bumping shown).mp (List.head?_eq_none_iff.mp head.symm)
    refine ⟨⟨none,next,ran,iff_of_true rfl all⟩,?_⟩
    intro after refused
    cases ran.symm.trans refused
    refine ⟨kept.count.trans bumping.count.symm,kept.unlisted.trans bumping.unlisted.symm,?_,?_⟩
    · intro _
      exact ⟨bumping_lists bumping all,bumping_lists kept all⟩
    · intro active
      cases active.symm.trans bumping.inactive

-- Bump mode can always be run until it refuses, and hands out only what was pending.
theorem bump_out (run : Run p map a out) (bumping : Bumping map a out) (placed : PlacedIn a)
    (old : ∀ g ∈ out, g.startAddress ∈ pending map.regions 0) (suffix : pendingOf a <:+ pending map.regions 0) :
    ∃ a out next, Run p map a out ∧ allocateFrame p a = .ok (none,next) ∧ ∀ g ∈ out, g.startAddress ∈ pending map.regions 0 := by
  induction size : (pendingOf a).length generalizing a out with
  | zero =>
      rcases bump_allocate p bumping with ⟨f,next,ran,_⟩ | ⟨next,ran,_⟩
      · have head := (bumping_call placed bumping.inactive ran).1
        rw [List.length_eq_zero_iff.mp size] at head
        cases head
      · exact ⟨a,out,next,run,ran,old⟩
  | succ n ih =>
      rcases bump_allocate p bumping with ⟨f,next,ran,_,_,kept⟩ | ⟨next,ran,_⟩
      · obtain ⟨head,tail,further⟩ := bumping_call placed bumping.inactive ran
        refine ih (.handed run ran) kept further ?_ ?_ ?_
        · intro g held
          rcases Finset.mem_insert.mp held with rfl | earlier
          · exact suffix.subset (List.mem_of_head? head.symm)
          · exact old g earlier
        · rw [tail]
          exact (List.tail_suffix _).trans suffix
        · rw [tail,List.length_tail,size,Nat.add_sub_cancel]
      · exact ⟨a,out,next,run,ran,old⟩

theorem allocation_exhausts (p : Profile) (map : MemoryMap) :
    (∀ a out, Run p map a out → FailsAtExhaustion p map a out) ↔ ¬ Hides map.regions := by
  constructor
  · intro exhausts hides
    obtain ⟨x,j,region,there,inside,skipped⟩ := hidden_skipped map.disjoint hides
    obtain ⟨a,out,next,run,ran,pended⟩ := bump_out .start (start_bumping map) (placed_zero _)
      (fun g held => absurd held (Finset.notMem_empty g)) (List.suffix_refl _)
    obtain ⟨result,next',ran',exhausted⟩ := (exhausts a out run).answers
    cases ran.symm.trans ran'
    obtain ⟨g,held,rfl⟩ := exhausted.mp rfl x ⟨region,List.mem_of_getElem? there,inside⟩
    exact skipped 0 (pended g held)
  · intro shown a out run
    rcases run_phase run with bumping | owned
    · exact bumping_exhaustion bumping (run_placed run bumping.inactive) shown
    · exact owned_exhaustion owned

end exhaustion

def invertedMap : MemoryMap where
  regions := invertedFirst
  disjoint := by simp [invertedFirst,MemoryRegion.usable]
  bounded := by
    simp only [invertedFirst,List.mem_cons,List.not_mem_nil,or_false]
    rintro r (rfl | rfl) _
    · decide
    · decide

-- Right after `new` the first call is refused, with nothing out and a usable frame that a
-- later `activate` lists.
theorem refused_too_early : UsableFrame invertedMap.regions 0x1000 ∧ ∀ p : Profile,
    Run p invertedMap (new invertedMap.regions) ∅ ∧ ¬ FailsAtExhaustion p invertedMap (new invertedMap.regions) ∅ ∧
    ∃ next listed, allocateFrame p (new invertedMap.regions) = .ok (none,next) ∧ activate p 2 next = .ok listed ∧
      listed.freeLists 0 = [0x1000] := by
  have usable : UsableFrame invertedMap.regions 0x1000 := by
    refine ⟨_,List.mem_cons_of_mem _ List.mem_cons_self,rfl,?_⟩
    simp [FRAME_SIZE,MIN_ADDR,MemoryRegion.usable]
  refine ⟨usable,?_⟩
  intro p
  obtain ⟨⟨found,next⟩,ran,checked⟩ := ran_any (show (allocateFrame p (new invertedMap.regions)).toOption.any (fun r =>
    r.1.isNone && (activate p 2 r.2).toOption.any fun a => a.freeLists 0 == [0x1000]) = true by cases p <;> decide +kernel)
  rw [Bool.and_eq_true,Option.isNone_iff_eq_none] at checked
  obtain ⟨rfl,checked⟩ := checked
  obtain ⟨listed,activated,same⟩ := ran_any checked
  refine ⟨.start,?_,next,listed,ran,activated,beq_iff_eq.mp same⟩
  intro fails
  obtain ⟨result,next',ran',exhausted⟩ := fails.answers
  cases ran.symm.trans ran'
  obtain ⟨g,held,_⟩ := exhausted.mp rfl 0x1000 usable
  exact Finset.notMem_empty g held

end RustyCore.BuddyFrameAllocator
