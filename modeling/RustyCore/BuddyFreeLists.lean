import RustyCore.FrameAllocator

namespace RustyCore
open DyadicBlocks Function

theorem push_perm (list : List ℕ) (addr : ℕ) : (push list addr).Perm (addr :: list) :=
  List.perm_append_singleton addr list

theorem pop_perm (popped : pop list = some (addr,rest)) : list.Perm (addr :: rest) := by
  obtain ⟨last,found,equal⟩ := Option.map_eq_some_iff.mp popped
  cases equal
  obtain ⟨front,rfl⟩ := List.getLast?_eq_some_iff.mp found
  rw [List.dropLast_concat]
  exact List.perm_append_singleton addr front

theorem pop_none (empty : pop list = none) : list = [] := by
  simpa [pop] using empty

theorem swapRemove_perm {list : List ℕ} (found : list.idxOf? addr = some pos) :
    list.Perm (addr :: swapRemove list pos) := by
  obtain ⟨bound,here,_⟩ := List.idxOf?_eq_some_iff.mp found
  rcases List.eq_nil_or_concat' list with rfl | ⟨front,last,rfl⟩
  · simp at bound
  · have final : (front ++ [last]).getLast? = some last := by simp
    simp only [swapRemove,final,List.set_append]
    split
    · rename_i inner
      rw [List.dropLast_concat]
      rw [List.getElem_append_left inner] at here
      have moved := List.set_perm_cons_eraseIdx inner last
      have removed := List.getElem_cons_eraseIdx_perm inner
      calc (front ++ [last]).Perm (last :: front) := List.perm_append_singleton last front
        _ |>.Perm (last :: addr :: front.eraseIdx pos) := (here ▸ removed).symm.cons last
        _ |>.Perm (addr :: last :: front.eraseIdx pos) := List.Perm.swap _ _ _
        _ |>.Perm (addr :: front.set pos last) := moved.symm.cons addr
    · rename_i outer
      have last_pos : pos-front.length = 0 := by simp at bound; omega
      have equal : addr = last := by
        rw [← here,List.getElem_append_right (by omega)]
        simp [last_pos]
      rw [last_pos,equal,List.set_cons_zero,List.dropLast_concat]
      exact List.perm_append_singleton last front

namespace BuddyFrameAllocator

abbrev Tiled (lists : FreeLists) : Prop := Tiling 12 BUDDY_MAX_ORDER lists
abbrev covered (lists : FreeLists) : Set ℕ := cover 12 BUDDY_MAX_ORDER lists
abbrev CoalescedLists (lists : FreeLists) : Prop := Coalesced 12 BUDDY_MAX_ORDER lists

-- The lists are `Vec<u64>`.
def Words (lists : FreeLists) : Prop := ∀ order addr, addr ∈ lists order → addr < 2^64

theorem push_tiled (tiled : Tiled lists) (within : order ≤ BUDDY_MAX_ORDER) (aligned : 2^(order+12) ∣ addr)
    (free : Disjoint (covered lists) (block (order+12) addr)) : Tiled (lists.push order addr) :=
  insert_tiling tiled within aligned free (push_perm _ _)

theorem push_covered (within : order ≤ BUDDY_MAX_ORDER) :
    covered (lists.push order addr) = covered lists ∪ block (order+12) addr :=
  insert_cover within (push_perm _ _)

theorem removed_covered (tiled : Tiled lists) (within : order ≤ BUDDY_MAX_ORDER)
    (taken : (lists order).Perm (addr :: rest)) :
    covered (update lists order rest) = covered lists \ block (order+12) addr :=
  remove_cover tiled within taken

theorem removed_words (words : Words lists) (taken : (lists order).Perm (addr :: rest)) :
    Words (update lists order rest) := by
  intro o b member
  by_cases same : o = order
  · subst same
    rw [update_self] at member
    exact words o b (taken.mem_iff.mpr (List.mem_cons_of_mem _ member))
  · rw [update_of_ne same] at member
    exact words o b member

theorem push_words (words : Words lists) (small : addr < 2^64) : Words (lists.push order addr) := by
  intro o b member
  by_cases same : o = order
  · subst same
    simp only [FreeLists.push,update_self,push,List.mem_append,List.mem_singleton] at member
    rcases member with old | rfl
    · exact words o b old
    · exact small
  · simp only [FreeLists.push,update_of_ne same] at member
    exact words o b member

structure Taken (lists : FreeLists) (order addr : ℕ) (after : FreeLists) : Prop where
  tiled : Tiled after
  aligned : 2^(order+12) ∣ addr
  inside : block (order+12) addr ⊆ covered lists
  rest : covered after = covered lists \ block (order+12) addr
  word : Words lists → addr < 2^64
  words : Words lists → Words after
  below : ∀ o, o < order → after o = lists o
  coalesced : CoalescedLists lists → CoalescedLists after

theorem popped_taken (tiled : Tiled lists) (within : order ≤ BUDDY_MAX_ORDER)
    (popped : pop (lists order) = some (addr,rest)) : Taken lists order addr (update lists order rest) := by
  have taken := pop_perm popped
  have listed : addr ∈ lists order := taken.mem_iff.mpr List.mem_cons_self
  refine ⟨remove_tiling tiled taken,tiled.aligned order addr within listed,listed_subset within listed,
    removed_covered tiled within taken,fun words => words order addr listed,fun words => removed_words words taken,?_,
    fun coalesced => remove_coalesced coalesced taken⟩
  intro o lower
  exact update_of_ne (by omega) _ _

theorem split_taken (higher : Taken lists (order+1) addr after) (within : order < BUDDY_MAX_ORDER)
    (empty : lists order = []) (small : addr+2^(order+12) < 2^64) :
    Taken lists order addr (after.push order (addr+2^(order+12))) := by
  have shape : order+1+12 = order+12+1 := by omega
  have whole := higher.aligned
  obtain ⟨low,high⟩ := order_aligned whole
  have halves : block (order+1+12) addr = block (order+12) addr ∪ block (order+12) (addr+2^(order+12)) := by
    rw [shape,block_halves]
  have apart := halves_disjoint (order+12) addr
  have inside := higher.inside
  rw [halves] at inside
  have free : Disjoint (covered after) (block (order+12) (addr+2^(order+12))) := by
    rw [higher.rest,halves]
    exact Set.disjoint_sdiff_left.mono_right Set.subset_union_right
  have unlisted : after order = [] := by rw [higher.below order (Nat.lt_succ_self _),empty]
  refine ⟨push_tiled higher.tiled within.le high free,low,Set.subset_union_left.trans inside,?_,
    higher.word,?_,?_,?_⟩
  · rw [push_covered within.le,higher.rest,halves]
    exact restore_half (Set.subset_union_right.trans inside) apart
  · intro words
    exact push_words (higher.words words) small
  · intro o lower
    rw [← higher.below o (by omega)]
    exact update_of_ne (by omega) _ _
  · intro coalesced
    refine insert_coalesced (higher.coalesced coalesced) within.le high free (push_perm _ _) ?_
    intro _
    rw [unlisted]
    exact List.not_mem_nil

-- The induction is on the orders left above: `order+above` stays one past the top.
theorem takeFrom_spec (p : Profile) (tiled : Tiled lists) (words : Words lists) (span : order+above = BUDDY_ORDERS) :
    (∃ addr after, takeFrom p above order lists = .ok (some addr,after) ∧ Taken lists order addr after) ∨
      (takeFrom p above order lists = .ok (none,lists) ∧
        ∀ o, order ≤ o → o ≤ BUDDY_MAX_ORDER → lists o = []) := by
  induction above generalizing order with
  | zero =>
      refine Or.inr ⟨rfl,?_⟩
      intro o least within
      simp only [BUDDY_ORDERS] at span
      omega
  | succ above ih =>
      have within : order ≤ BUDDY_MAX_ORDER := by simp only [BUDDY_ORDERS] at span; omega
      cases popped : pop (lists order) with
      | some entry =>
          obtain ⟨addr,rest⟩ := entry
          exact Or.inl ⟨addr,_,by simp only [takeFrom,popped],popped_taken tiled within popped⟩
      | none =>
          have empty := pop_none popped
          rcases @ih (order+1) (by omega) with ⟨addr,middle,ran,higher⟩ | ⟨ran,above_empty⟩
          · have strict : order < BUDDY_MAX_ORDER := by
              cases above with
              | zero => cases ran
              | succ above => simp only [BUDDY_ORDERS] at span; omega
            have room := aligned_end higher.aligned (by simp only [BUDDY_MAX_ORDER] at strict; omega) (higher.word words)
            have fits : addr+2^(order+12) < 2^64 := by
              have grows : 2^(order+12) < 2^(order+1+12) := Nat.pow_lt_pow_right (by decide) (by omega)
              omega
            refine Or.inl ⟨addr,_,?_,split_taken higher strict empty fits⟩
            simp only [takeFrom,popped,ran,ok_bind,Profile.add_small fits]
          · refine Or.inr ⟨by simp only [takeFrom,popped,ran,ok_bind],?_⟩
            intro o least bound
            rcases Nat.eq_or_lt_of_le least with rfl | larger
            · exact empty
            · exact above_empty o larger bound

structure Returned (lists : FreeLists) (order addr : ℕ) (after : FreeLists) : Prop where
  tiled : Tiled after
  covers : covered after = covered lists ∪ block (order+12) addr
  words : Words lists → addr < 2^64 → Words after
  coalesced : CoalescedLists lists → CoalescedLists after

theorem pushed_returned (tiled : Tiled lists) (within : order ≤ BUDDY_MAX_ORDER) (aligned : 2^(order+12) ∣ addr)
    (free : Disjoint (covered lists) (block (order+12) addr))
    (alone : order < BUDDY_MAX_ORDER → buddy (order+12) addr ∉ lists order) :
    Returned lists order addr (lists.push order addr) :=
  ⟨push_tiled tiled within aligned free,push_covered within,fun words small => push_words words small,
    fun coalesced => insert_coalesced coalesced within aligned free (push_perm _ _) alone⟩

theorem merged_returned (tiled : Tiled lists) (within : order ≤ BUDDY_MAX_ORDER) (aligned : 2^(order+12) ∣ addr)
    (taken : (lists order).Perm (buddy (order+12) addr :: rest))
    (larger : Returned (update lists order rest) (order+1) (min addr (buddy (order+12) addr)) after) :
    Returned lists order addr after := by
  have shape : order+1+12 = order+12+1 := by omega
  have listed : buddy (order+12) addr ∈ lists order := taken.mem_iff.mpr List.mem_cons_self
  refine ⟨larger.tiled,?_,?_,fun coalesced => larger.coalesced (remove_coalesced coalesced taken)⟩
  · rw [larger.covers,shape,merged_block aligned,removed_covered tiled within taken,
      Set.union_comm (block (order+12) addr),← Set.union_assoc,
      Set.sdiff_union_of_subset (listed_subset within listed)]
  · intro words small
    exact larger.words (removed_words words taken) (Nat.lt_of_le_of_lt (Nat.min_le_left _ _) small)

theorem mergeFrom_spec (tiled : Tiled lists) (span : order+above = BUDDY_MAX_ORDER)
    (aligned : 2^(order+12) ∣ addr) (free : Disjoint (covered lists) (block (order+12) addr)) :
    Returned lists order addr (mergeFrom above order addr lists) := by
  induction above generalizing order addr lists with
  | zero => exact pushed_returned tiled (by omega) aligned free (fun strict => by omega)
  | succ above ih =>
      have within : order ≤ BUDDY_MAX_ORDER := by omega
      have shape : order+1+12 = order+12+1 := by omega
      cases found : (lists order).idxOf? (buddy (order+12) addr) with
      | none =>
          have absent := List.idxOf?_eq_none_iff.mp found
          simp only [mergeFrom,show addr ^^^ 2^(order+12) = buddy (order+12) addr from rfl,found]
          exact pushed_returned tiled within aligned free (fun _ => absent)
      | some pos =>
          have taken := swapRemove_perm found
          simp only [mergeFrom,show addr ^^^ 2^(order+12) = buddy (order+12) addr from rfl,found]
          refine merged_returned tiled within aligned taken (ih (remove_tiling tiled taken) (by omega) ?_ ?_)
          · rw [shape]
            exact merged_aligned aligned
          · rw [shape,merged_block aligned,removed_covered tiled within taken,Set.disjoint_union_right]
            exact ⟨free.mono_left Set.sdiff_subset,Set.disjoint_sdiff_left⟩

-- The lists once the last block of order `k` has been split down to `order`: it is off its
-- list, and each order it came through has its high half at the end.
def splitDown (lists : FreeLists) (order k addr : ℕ) (front : List ℕ) : FreeLists := fun j =>
  if j = k then front
  else if order ≤ j ∧ j < k then lists j ++ [(addr+2^(j+12)) % 2^64]
  else lists j

section exact
variable {lists : FreeLists} {p : Profile} {order above k addr : ℕ} {front : List ℕ}

theorem takeFrom_none (empty : ∀ j, order ≤ j → j < order+above → lists j = []) :
    takeFrom p above order lists = .ok (none,lists) := by
  induction above generalizing order with
  | zero => rfl
  | succ above ih =>
      have here : pop (lists order) = none := by
        rw [empty order (Nat.le_refl _) (by omega)]
        rfl
      have higher := @ih (order+1) fun j least most => empty j (by omega) (by omega)
      simp only [takeFrom,here,higher,ok_bind]

theorem pop_last (last : list = front ++ [addr]) : pop list = some (addr,front) := by
  simp [pop,last]

theorem splitDown_step (lower : order < k) :
    (splitDown lists (order+1) k addr front).push order ((addr+2^(order+12)) % 2^64) = splitDown lists order k addr front := by
  funext j
  unfold FreeLists.push splitDown push
  by_cases same : j = order
  · subst same
    rw [update_self,if_neg (by omega),if_neg (by omega),if_neg (by omega),if_pos (by omega)]
  · rw [update_of_ne same]
    have range : order+1 ≤ j ∧ j < k ↔ order ≤ j ∧ j < k := by omega
    simp only [range]

theorem splitDown_own : update lists k front = splitDown lists k k addr front := by
  funext j
  unfold splitDown
  by_cases same : j = k
  · rw [same,update_self,if_pos rfl]
  · rw [update_of_ne same,if_neg same,if_neg (by omega)]

-- The induction is on the orders above `order`; the search ends at `k`, and with overflow
-- checks the first half to be parked is the largest.
theorem takeFrom_splits (least : order ≤ k) (most : k < order+above) (empty : ∀ j, order ≤ j → j < k → lists j = [])
    (last : lists k = front ++ [addr]) : takeFrom p above order lists =
      if p = .dev ∧ order < k ∧ 2^64 ≤ addr+2^(k-1+12) then .error (.panicked "attempt to add with overflow")
      else .ok (some addr,splitDown lists order k addr front) := by
  induction above generalizing order with
  | zero => omega
  | succ above ih =>
      rcases Nat.eq_or_lt_of_le least with rfl | lower
      · rw [if_neg (by omega)]
        simp only [takeFrom,pop_last last,← splitDown_own]
      have here : pop (lists order) = none := by
        rw [empty order (Nat.le_refl _) lower]
        rfl
      have higher := @ih (order+1) lower (by omega) fun j above below => empty j (by omega) below
      have smaller : 2^(order+12) ≤ 2^(k-1+12) := Nat.pow_le_pow_right (by decide) (by omega)
      by_cases earlier : p = .dev ∧ order+1 < k ∧ 2^64 ≤ addr+2^(k-1+12)
      · rw [if_pos earlier] at higher
        rw [if_pos ⟨earlier.1,by omega,earlier.2.2⟩]
        simp only [takeFrom,here,higher]
        rfl
      rw [if_neg earlier] at higher
      have parks : takeFrom p (above+1) order lists = p.add addr (2^(order+12)) >>= fun parked =>
          .ok (some addr,(splitDown lists (order+1) k addr front).push order parked) := by
        simp only [takeFrom,here,higher,ok_bind]
      rw [parks]
      by_cases first : p = .dev ∧ order < k ∧ 2^64 ≤ addr+2^(k-1+12)
      · obtain ⟨rfl,_,large⟩ := first
        obtain rfl : k = order+1 := by
          by_contra other
          exact earlier ⟨rfl,by omega,large⟩
        rw [if_pos ⟨rfl,lower,large⟩,Profile.add_panics (show 2^64 ≤ addr+2^(order+12) from large)]
        rfl
      · have fits : p = .dev → addr+2^(order+12) < 2^64 := by
          intro dev
          by_contra large
          exact first ⟨dev,lower,by omega⟩
        rw [if_neg first,Profile.add_returns fits,ok_bind,splitDown_step lower]

end exact

theorem take_block_exact (a : BuddyFrameAllocator) (p : Profile) (order : ℕ) :
    ((∀ j, order ≤ j → j ≤ BUDDY_MAX_ORDER → a.freeLists j = []) → a.takeBlock p order = .ok (none,a)) ∧
    ∀ k addr front, order ≤ k → k ≤ BUDDY_MAX_ORDER → (∀ j, order ≤ j → j < k → a.freeLists j = []) →
      a.freeLists k = front ++ [addr] → a.takeBlock p order =
        if p = .dev ∧ order < k ∧ 2^64 ≤ addr+2^(k-1+12) then .error (.panicked "attempt to add with overflow")
        else .ok (some addr,{a with freeLists := splitDown a.freeLists order k addr front}) := by
  constructor
  · intro empty
    have nothing : takeFrom p (BUDDY_ORDERS-order) order a.freeLists = .ok (none,a.freeLists) := by
      apply takeFrom_none
      intro j least most
      exact empty j least (by simp only [BUDDY_ORDERS] at most; omega)
    rw [takeBlock,nothing]
    rfl
  · intro k addr front least most empty last
    have inside : k < order+(BUDDY_ORDERS-order) := by simp only [BUDDY_ORDERS]; omega
    rw [takeBlock,takeFrom_splits least inside empty last]
    split <;> rfl

def sampleBlocks : BuddyFrameAllocator :=
  {new [] with active := true, freeLists := fun order => if order = 2 then [0x4000,0x8000] else []}

theorem take_block_exact_sample : sampleBlocks.takeBlock .dev 0 =
    .ok (some 0x8000,{sampleBlocks with freeLists := splitDown sampleBlocks.freeLists 0 2 0x8000 [0x4000]}) := by
  have exactly := (take_block_exact sampleBlocks .dev 0).2 2 0x8000 [0x4000] (by decide) (by decide)
    (by
      intro j _ below
      exact if_neg (Nat.ne_of_lt below)) rfl
  rwa [if_neg (by decide)] at exactly

def topmostBlock : BuddyFrameAllocator :=
  {new [] with active := true, freeLists := fun order => if order = 1 then [2^64-0x1000] else []}

theorem parked_half_wraps : topmostBlock.takeBlock .dev 0 = .error (.panicked "attempt to add with overflow") ∧
    ∃ after, topmostBlock.takeBlock .release 0 = .ok (some (2^64-0x1000),after) ∧ after.freeLists 0 = [0] := by
  constructor
  · rfl
  · exact ⟨_,rfl,rfl⟩

end BuddyFrameAllocator
end RustyCore
