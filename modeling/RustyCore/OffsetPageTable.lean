import RustyCore.PageMapping

namespace PageTables
open RadixTables List Function

-- A mapper that keeps the documentation: its tables are read and written through a window onto physical memory.

section mapper
variable {ε : Type} (panics : String → ε) (physOffset : ℕ)

def virtAddrNew (addr : ℕ) : Except ε ℕ :=
  if Canonical addr then .ok addr else .error (panics "virtual address must be sign extended in bits 48 to 64")

def virtAddrAdd (addr offset : ℕ) : Except ε ℕ :=
  if Canonical (addr+offset) then .ok (addr+offset) else .error (panics "attempt to add resulted in non-canonical virtual address")

def pointer (frame : ℕ) : Except ε Unit := do
  let _ ← virtAddrAdd panics physOffset frame
  .ok ()

def set (T : Tables) (t i : ℕ) (e : Entry) : Tables := update T t (update (T t) i e)

def zero (T : Tables) (t : ℕ) : Tables := update T t fun _ => 0#64

def createNextTable (allocate : α → Except ε (Option ℕ × α)) (insert : Flags) (t i : ℕ) (T : Tables) (s : α) :
    Except ε (Except MapToError ℕ × Tables × α) :=
  if isUnused (T t i) then do
    match ← allocate s with
    | (none,s) => .ok (.error .frameAllocationFailed,T,s)
    | (some frame,s) =>
      pointer panics physOffset frame
      .ok (.ok frame,zero (set T t i (entry frame insert)) frame,s)
  else
    let e := if has (T t i) insert then T t i else T t i ||| insert
    let T := set T t i e
    if !has e PRESENT then .error (panics "entry should be mapped at this point")
    else if has e HUGE_PAGE then .ok (.error .parentEntryHugePage,T,s)
    else do
      pointer panics physOffset (addrOf e)
      .ok (.ok (addrOf e),T,s)

def mapBelow (allocate : α → Except ε (Option ℕ × α)) (frame : ℕ) (flags insert : Flags) : ℕ → List ℕ → Tables → α →
    Except ε (Except MapToError Unit × Tables × α)
  | _,[],T,s => .ok (.ok (),T,s)
  | t,[i],T,s =>
    if isUnused (T t i) then .ok (.ok (),set T t i (entry frame flags),s)
    else .ok (.error (.pageAlreadyMapped frame),T,s)
  | t,i :: j :: rest,T,s => do
    match ← createNextTable panics physOffset allocate insert t i T s with
    | (.error e,T,s) => .ok (.error e,T,s)
    | (.ok next,T,s) => mapBelow allocate frame flags insert next (j :: rest) T s

-- At the last level the walk asks only whether the entry is used.
def translateBelow (T : Tables) (virt : ℕ) : ℕ → List ℕ → Except ε (Option ℕ)
  | _,[] => .ok none
  | t,[i] => .ok (if isUnused (T t i) then none else some (addrOf (T t i)+virt % 4096))
  | t,i :: j :: rest =>
    if !has (T t i) PRESENT then .ok none
    else if has (T t i) HUGE_PAGE then
      if 2 ≤ rest.length then .error (panics "level 4 entry has huge page bit set")
      else
        let size := 2^(12+9*(rest.length+1))
        .ok (some (addrOf (T t i)-addrOf (T t i) % size+virt % size))
    else do
      pointer panics physOffset (addrOf (T t i))
      translateBelow T virt (addrOf (T t i)) (j :: rest)

def offsetPageTable : Paging ε where
  virtAddrNew := virtAddrNew panics
  virtAddrAdd := virtAddrAdd panics
  rangeInclusive := fun first last => (pagesFrom first ((last-first) / 4096+1)).map .ok
  mapTo := fun allocate root virt frame flags T s =>
    mapBelow panics physOffset allocate frame flags (parentFlags flags) root (path virt) T s
  translateAddr := fun T root virt => translateBelow panics physOffset T virt root (path virt)

end mapper

theorem view_present (seen : view e = some x) : has e PRESENT = true := by
  unfold view at seen
  split at seen
  · assumption
  · cases seen

section steps
variable {above : Flags} {T : Tables} {root depth limit t i : ℕ} {p : List ℕ} {pending : List ℕ}

@[simp] theorem set_same (T : Tables) (t i : ℕ) (e : Entry) : set T t i e t i = e := by
  simp [set]

theorem set_other (T : Tables) (e : Entry) (other : (a,k) ≠ (t,i)) : set T t i e a k = T a k := by
  by_cases same : a = t
  · subst same
    have differ : k ≠ i := fun equal => other (by rw [equal])
    simp [set,differ]
  · simp [set,same]

-- A parent that is there is widened; no walk and no page can tell.
section widen
variable (legal : PageFlags above) (present : has (T t i) PRESENT = true)
include present

theorem widen_each (a k : ℕ) : Widened above (T a k) (set T t i (T t i ||| above) a k) := by
  by_cases here : (a,k) = (t,i)
  · cases here
    exact Or.inr ⟨present,set_same ..⟩
  · exact Or.inl (set_other T _ here)

include legal

theorem widen_walk : walk view (set T t i (T t i ||| above)) root q = walk view T root q :=
  walk_agrees (fun _ _ => widened_view legal) fun _ k a _ _ => widen_each present a k

theorem widen_trail : Forall₂ (Widened above) (trail view T root q) (trail view (set T t i (T t i ||| above)) root q) :=
  trail_agrees (fun _ _ => widened_view legal) fun _ k a _ _ => widen_each present a k

theorem widen_grown : Grown above T (set T t i (T t i ||| above)) root depth [] [] := by
  refine ⟨fun p a _ found => (widen_walk legal present).trans found,fun p a _ found => Or.inl ?_,?_,
    fun _ member => absurd member not_mem_nil,fun q _ _ => widen_trail legal present⟩
  · rwa [widen_walk legal present] at found
  · exact fun q _ _ => target_agrees (fun _ _ => widened_view legal) fun _ k a _ _ => widen_each present a k

theorem widen_held (reached : walk view T root p = some t) (held : ∀ e ∈ trail view T root p, has e above = true) :
    ∀ e ∈ trail view (set T t i (T t i ||| above)) root (p ++ [i]), has e above = true := by
  intro e member
  rw [trail_snoc (by rwa [widen_walk legal present]),set_same,mem_append,mem_singleton] at member
  rcases member with earlier | rfl
  · have same := trails_held (widen_trail legal present) held
    exact held e (same ▸ earlier)
  · exact has_inserted

end widen

theorem set_intact {e : Entry} (intact : Intact T root depth limit pending) (present : has e PRESENT = true)
    (walks : ∀ q, q.length ≤ depth → walk view (set T t i e) root q = walk view T root q) : Intact (set T t i e) root depth limit pending := by
  refine ⟨?_,?_,?_,?_,intact.once,intact.frames⟩
  · intro q r a short short' first second
    rw [walks q short] at first
    rw [walks r short'] at second
    exact intact.tree q r a short short' first second
  · intro q a k short found used
    rw [walks q short] at found
    by_cases here : (a,k) = (t,i)
    · cases here
      rwa [set_same]
    · rw [set_other T e here] at used ⊢
      exact intact.clean q a k short found used
  · rintro a ⟨q,short,found⟩
    rw [walks q short] at found
    exact intact.near a ⟨q,short,found⟩
  · rintro f member ⟨q,short,found⟩
    rw [walks q short] at found
    exact intact.fresh f member ⟨q,short,found⟩

theorem widen_intact (legal : PageFlags above) (present : has (T t i) PRESENT = true) (intact : Intact T root depth limit pending) :
    Intact (set T t i (T t i ||| above)) root depth limit pending :=
  set_intact intact (has_or present) fun _ _ => widen_walk legal present

theorem link_entry (intact : Intact T root depth limit (f :: pending)) (reached : walk view T root p = some t)
    (shallow : p.length < depth) : zero (set T t i (entry f above)) f t i = entry f above := by
  have apart : t ≠ f := by
    rintro rfl
    exact intact.fresh t mem_cons_self ⟨p,shallow.le,reached⟩
  rw [zero,update_of_ne apart,set_same]

-- A parent that is not there becomes the way to a frame from the stock, cleared.
theorem link_step (legal : PageFlags above) (intact : Intact T root depth limit (f :: pending))
    (reached : walk view T root p = some t) (shallow : p.length < depth) (unused : isUnused (T t i) = true) :
    Link view T (zero (set T t i (entry f above)) f) root depth p t i f := by
  obtain ⟨aligned,_,small⟩ := intact.frames f mem_cons_self
  refine ⟨reached,shallow,unused_view unused,?_,?_,?_,intact.fresh f mem_cons_self⟩
  · rw [link_entry intact reached shallow,entry_view legal aligned small]
  · intro k
    rw [zero,update_self]
    decide
  · intro a k other beside
    rw [zero,update_of_ne other,set_other T _ beside]

theorem link_grown (intact : Intact T root depth limit (f :: pending)) (link : Link view T T' root depth p t i f) :
    Grown above T T' root depth [f] [] := by
  refine ⟨?_,?_,?_,fun _ member => absurd member not_mem_nil,?_⟩
  · exact fun q a short found => (link.walk_cases intact.tree short).mpr (Or.inl found)
  · intro q a short found
    exact ((link.walk_cases intact.tree short).mp found).imp_right fun new => by simp [new.2]
  · exact fun q long _ => link.target_same intact.tree long
  · intro q long mapped
    rw [link.trail_same intact.tree long.le mapped]
    exact forall₂_same.mpr fun _ _ => Or.inl rfl

theorem link_held (legal : PageFlags above) (intact : Intact T root depth limit (f :: pending)) (reached : walk view T root p = some t)
    (shallow : p.length < depth) (unused : isUnused (T t i) = true) (held : ∀ e ∈ trail view T root p, has e above = true) :
    ∀ e ∈ trail view (zero (set T t i (entry f above)) f) root (p ++ [i]), has e above = true := by
  have link := link_step legal intact reached shallow unused
  obtain ⟨aligned,_,small⟩ := intact.frames f mem_cons_self
  intro e member
  rw [trail_snoc (link.walk_parent intact.tree),link.trail_parent intact.tree,link_entry intact reached shallow,mem_append,
    mem_singleton] at member
  rcases member with earlier | rfl
  · exact held e earlier
  · rw [has_entry aligned small legal.apart,has_iff]
    exact BitVec.and_self

theorem link_intact (legal : PageFlags above) (intact : Intact T root depth limit (f :: pending))
    (reached : walk view T root p = some t) (shallow : p.length < depth) (unused : isUnused (T t i) = true) :
    Intact (zero (set T t i (entry f above)) f) root depth limit pending := by
  have link := link_step legal intact reached shallow unused
  obtain ⟨aligned,_,small⟩ := intact.frames f mem_cons_self
  have walks := fun q a short => link.walk_cases (q:=q) (a:=a) intact.tree short
  obtain ⟨outside,once⟩ := nodup_cons.mp intact.once
  refine ⟨link.tree intact.tree,?_,?_,?_,once,fun g member => intact.frames g (mem_cons_of_mem _ member)⟩
  · intro q a k short found used
    rcases (walks q a short).mp found with old | ⟨_,rfl⟩
    · have other : a ≠ f := by
        rintro rfl
        exact link.fresh ⟨q,short,old⟩
      by_cases here : (a,k) = (t,i)
      · cases here
        rw [link_entry intact reached shallow,has_entry aligned small (by decide)]
        exact legal.present
      · rw [link.others a k other here] at used ⊢
        exact intact.clean q a k short old used
    · rw [zero,update_self] at used
      cases used
  · rintro a ⟨q,short,found⟩
    rcases (walks q a short).mp found with old | ⟨_,rfl⟩
    · exact intact.near a ⟨q,short,old⟩
    · exact (intact.frames a mem_cons_self).2.1
  · rintro g member ⟨q,short,found⟩
    rcases (walks q g short).mp found with old | ⟨_,rfl⟩
    · exact intact.fresh g (mem_cons_of_mem _ member) ⟨q,short,old⟩
    · exact outside member

theorem link_missing (tree : Tree view T root depth) (link : Link view T T' root depth p t i f) (long : q.length = depth+1)
    (within : p ++ [i] <+: q) : missing T root q = missing T' root q+1 := by
  have shallow := link.shallow
  have here : q.take (p.length+1) = p ++ [i] := by
    have taken := prefix_iff_eq_take.mp within
    rw [length_append,length_singleton] at taken
    exact taken.symm
  have parts : ∀ n ∈ Finset.range q.length, n ≠ p.length+1 →
      (walk view T' root (q.take n) = none ↔ walk view T root (q.take n) = none) := by
    intro n bound differ
    have short : (q.take n).length ≤ depth := by
      rw [length_take]
      have := Finset.mem_range.mp bound
      omega
    rw [Option.eq_none_iff_forall_ne_some,Option.eq_none_iff_forall_ne_some]
    refine forall_congr' fun a => not_congr ?_
    rw [link.walk_cases tree short]
    refine or_iff_left ?_
    rintro ⟨same,_⟩
    have length := congrArg List.length same
    have := Finset.mem_range.mp bound
    simp only [length_take,length_append,length_singleton] at length
    omega
  have erased : (Finset.range q.length).filter (fun n => walk view T' root (q.take n) = none) =
      ((Finset.range q.length).filter fun n => walk view T root (q.take n) = none).erase (p.length+1) := by
    ext n
    simp only [Finset.mem_filter,Finset.mem_erase]
    by_cases differ : n = p.length+1
    · subst differ
      simp [here,link.walk_child tree]
    · simp only [ne_eq,differ,not_false_eq_true,true_and]
      exact and_congr_right fun bound => parts n bound differ
  have member : p.length+1 ∈ (Finset.range q.length).filter fun n => walk view T root (q.take n) = none := by
    rw [Finset.mem_filter,Finset.mem_range,here]
    exact ⟨by omega,link.walk_before (prefix_refl _)⟩
  rw [missing,missing,erased,Finset.card_erase_of_mem member]
  have positive := Finset.card_pos.mpr ⟨_,member⟩
  omega

section leaf
variable {flags : Flags} {frame : ℕ} (intact : Intact T root depth limit pending) (reached : walk view T root p = some t)
  (deep : p.length = depth)
include intact reached deep

theorem leaf_reads (beside : q ≠ p ++ [i]) (long : q.length ≤ depth+1) (e : Entry) :
    ∀ r k a, r ++ [k] <+: q → walk view T root r = some a → T a k = set T t i e a k := by
  intro r k a within found
  have length := within.length_le
  rw [length_append,length_singleton] at length
  refine (set_other T e ?_).symm
  intro same
  cases same
  have equal := intact.tree r p t (by omega) deep.le found reached
  refine beside ((within.eq_of_length ?_).symm.trans (by rw [equal]))
  have depths := congrArg List.length equal
  rw [length_append,length_singleton]
  omega

theorem leaf_walk (short : q.length ≤ depth) (e : Entry) : walk view (set T t i e) root q = walk view T root q := by
  refine walk_agrees (fun _ _ same => congrArg view same) (leaf_reads intact reached deep ?_ (by omega) e)
  rintro rfl
  rw [length_append,length_singleton] at short
  omega

theorem leaf_grown (unused : isUnused (T t i) = true) (e : Entry) : Grown above T (set T t i e) root depth [] [p ++ [i]] := by
  have walks := fun q short => leaf_walk (i:=i) (q:=q) intact reached deep short e
  have vacant : target view T root (p ++ [i]) = none := by
    rw [target_below reached (by simp),target,unused_view unused]
  refine ⟨fun q a short found => (walks q short).trans found,fun q a short found => Or.inl ((walks q short).symm.trans found),?_,?_,?_⟩
  · intro q long beside
    rw [mem_singleton] at beside
    exact target_agrees (fun _ _ same => congrArg view same) (leaf_reads intact reached deep beside long.le e)
  · intro q member
    rw [mem_singleton] at member
    subst member
    exact ⟨by simp [deep],vacant⟩
  · intro q long mapped
    have beside : q ≠ p ++ [i] := by
      rintro rfl
      exact mapped vacant
    refine (trail_agrees (fun _ _ same => congrArg view same) (leaf_reads intact reached deep beside long.le e)).imp ?_
    exact fun _ _ same => Or.inl same.symm

theorem leaf_intact (e : Entry) (present : has e PRESENT = true) : Intact (set T t i e) root depth limit pending :=
  set_intact intact present fun _ short => leaf_walk intact reached deep short e

end leaf

end steps

theorem walk_part {p q : List ℕ} (reached : walk view T root p = some t) (within : q <+: p) : ∃ a, walk view T root q = some a := by
  obtain ⟨rest,rfl⟩ := within
  obtain ⟨a,first,_⟩ := walk_append.mp reached
  exact ⟨a,first⟩

theorem missing_none (reached : walk view T root p = some t) : missing T root (p ++ [i]) = 0 := by
  rw [missing,Finset.card_eq_zero,Finset.filter_eq_empty_iff]
  intro n bound
  rw [Finset.mem_range,length_append,length_singleton] at bound
  obtain ⟨a,found⟩ := walk_part reached ( take_prefix n p)
  rw [take_append_of_le_length (by omega),found]
  exact Option.some_ne_none a

theorem missing_grown (grown : ∀ q, q.length ≤ depth → walk view T' root q = walk view T root q) (long : page.length = depth+1) :
    missing T' root page = missing T root page := by
  refine congrArg Finset.card (Finset.filter_congr fun n bound => ?_)
  have := Finset.mem_range.mp bound
  rw [grown _ (by rw [length_take]; omega)]

theorem outcome_before (grown : Grown above T T₁ root depth taken []) (long : page.length = depth+1)
    (count : missing T root page = missing T₁ root page+taken.length) (vacant : taken ≠ [] → target view T root page = none)
    (known : ∀ q, q.length ≤ depth → (walk view T₁ root q).isSome → (walk view T root q).isSome ∨ q <+: page)
    (outcome : Outcome above flags T₁ T' root depth frame pending page result k) :
    Outcome above flags T T' root depth frame (taken ++ pending) page result (taken.length+k) := by
  have same := grown.targets page long not_mem_nil
  have none_taken : target view T root page ≠ none → taken = [] := fun mapped => by_contra fun new => mapped (vacant new)
  cases outcome with
  | mapped parents empty enough meaning entries held deep walks =>
      rw [Nat.add_comm,← count]
      refine .mapped parents (same ▸ empty) (by rw [length_append]; omega) meaning entries held deep ?_
      intro q short
      rw [walks q short]
      constructor
      · rintro (found | within)
        · exact known q short found
        · exact Or.inr within
      · rintro (found | within)
        · obtain ⟨a,found⟩ := Option.isSome_iff_exists.mp found
          exact Or.inl (Option.isSome_iff_exists.mpr ⟨a,grown.keeps q a short found⟩)
        · exact Or.inr within
  | short empty few =>
      rw [← length_append]
      exact .short (same ▸ empty) (by rw [length_append]; omega)
  | huge meaning =>
      rw [same] at meaning
      rw [none_taken (by rw [meaning]; exact Option.some_ne_none _)]
      exact .huge meaning
  | taken meaning =>
      rw [same] at meaning
      rw [none_taken (by rw [meaning]; exact Option.some_ne_none _)]
      exact .taken meaning

theorem mapped_before (grown : Grown above T T₁ root depth taken []) (long : page.length = depth+1)
    (count : missing T root page = missing T₁ root page+taken.length) (vacant : taken ≠ [] → target view T root page = none)
    (known : ∀ q, q.length ≤ depth → (walk view T₁ root q).isSome → (walk view T root q).isSome ∨ q <+: page)
    (mapped : Mapped stock above flags T₁ T' root depth limit frame pending page result s' k) :
    Mapped stock above flags T T' root depth limit frame (taken ++ pending) page result s' (taken.length+k) := by
  have rest : (taken ++ pending).drop (taken.length+k) = pending.drop k := drop_length_add_append ..
  refine ⟨by rw [length_append]; have := mapped.few; omega,by rw [rest]; exact mapped.stocked,by rw [rest]; exact mapped.intact,
    outcome_before grown long count vacant known mapped.outcome,?_⟩
  rw [take_length_add_append]
  exact grown.trans mapped.grown

theorem leaf_trail {e : Entry} (intact : Intact T root depth limit pending) (reached : walk view T root p = some t)
    (deep : p.length = depth) :
    trail view (set T t i e) root (p ++ [i]) = trail view T root p ++ [e] := by
  have same : walk view (set T t i e) root p = some t := (leaf_walk intact reached deep deep.le _).trans reached
  have beside : p ≠ p ++ [i] := by simp
  have parents : trail view T root p = trail view (set T t i e) root p := forall₂_eq_eq_eq ▸
    trail_agrees (fun _ _ same => congrArg view same) (leaf_reads intact reached deep beside (by omega) e)
  rw [trail_below same,← parents,trail,set_same]
  split <;> rfl

theorem leaf_mapped {stock : α → List ℕ → Prop} (legal : PageFlags flags) (aligned : frame % 4096 = 0) (small : frame < 2^52)
    (intact : Intact T root depth limit pending) (reached : walk view T root p = some t)
    (held : ∀ e ∈ trail view T root p, has e above = true) (deep : p.length = depth) (stocked : stock s pending)
    (unused : isUnused (T t i) = true) :
    Mapped stock above flags T (set T t i (entry frame flags)) root depth limit frame pending (p ++ [i]) (.ok ()) s 0 := by
  have present : has (entry frame flags) PRESENT = true := by
    rw [has_entry aligned small (by decide)]
    exact legal.present
  have walks := fun q short => leaf_walk (i:=i) (q:=q) intact reached deep short (entry frame flags)
  have grown : Grown above T (set T t i (entry frame flags)) root depth [] [p ++ [i]] := leaf_grown intact reached deep unused _
  have none := (grown.vacant _ mem_cons_self).2
  have whole := missing_none (i:=i) reached
  refine ⟨Nat.zero_le _,stocked,leaf_intact intact reached deep _ present,?_,grown⟩
  rw [← whole]
  refine .mapped (trail view T root p) none (by omega) ?_ (leaf_trail intact reached deep) held (by rw [trail_length reached,deep]) ?_
  · rw [target_below ((walks p deep.le).trans reached) (by simp),target,set_same,entry_view legal aligned small]
    rfl
  · intro q short
    rw [walks q short]
    refine ⟨Or.inl,?_⟩
    rintro (found | within)
    · exact found
    · have proper : q <+: p := prefix_of_prefix_length_le within (prefix_append p [i]) (by omega)
      exact Option.isSome_iff_exists.mpr (walk_part reached proper)

theorem vacant_below (reached : walk view T root p = some t) (unused : isUnused (T t i) = true) :
    target view T root (p ++ i :: rest) = none := by
  rw [target_below reached (by simp),target,unused_view unused]

theorem missing_pos (reached : walk view T root p = some t) (unused : isUnused (T t i) = true) (within : p ++ [i] <+: page)
    (proper : p.length+1 < page.length) : 0 < missing T root page := by
  have taken := prefix_iff_eq_take.mp within
  rw [length_append,length_singleton] at taken
  refine Finset.card_pos.mpr ⟨p.length+1,?_⟩
  rw [Finset.mem_filter,Finset.mem_range,← taken]
  exact ⟨proper,walk_stops reached (unused_view unused) (prefix_refl _)⟩

section mapping
variable {α ε : Type} {panics : String → ε} {physOffset : ℕ} {allocate : α → Except ε (Option ℕ × α)} {stock : α → List ℕ → Prop}
  {limit : ℕ} (supplies : Supplies allocate stock) (near : ∀ a, a < limit → pointer panics physOffset a = .ok ()) {flags above : Flags}
  (upper : PageFlags above)
include supplies near upper

theorem create_cases (intact : Intact T root depth limit pending) (reached : walk view T root p = some t)
    (shallow : p.length < depth) (stocked : stock s pending) :
    (∃ b, view (T t i) = some (b,true) ∧
      createNextTable panics physOffset allocate above t i T s = .ok (.error .parentEntryHugePage,set T t i (T t i ||| above),s)) ∨
    (∃ next, view (T t i) = some (next,false) ∧
      createNextTable panics physOffset allocate above t i T s = .ok (.ok next,set T t i (T t i ||| above),s)) ∨
    (isUnused (T t i) = true ∧ pending = [] ∧
      ∃ s', createNextTable panics physOffset allocate above t i T s = .ok (.error .frameAllocationFailed,T,s') ∧ stock s' []) ∨
    (isUnused (T t i) = true ∧ ∃ f rest s', pending = f :: rest ∧
      createNextTable panics physOffset allocate above t i T s = .ok (.ok f,zero (set T t i (entry f above)) f,s') ∧ stock s' rest) := by
  cases unused : isUnused (T t i) with
  | true =>
      cases pending with
      | nil =>
          obtain ⟨s',ran,later⟩ := supplies.ends s stocked
          exact Or.inr (Or.inr (Or.inl ⟨rfl,rfl,s',by simp [createNextTable,unused,ran,bind,Except.bind],later⟩))
      | cons f rest =>
          obtain ⟨s',ran,later⟩ := supplies.gives s f rest stocked
          have found := near f (intact.frames f mem_cons_self).2.1
          refine Or.inr (Or.inr (Or.inr ⟨rfl,f,rest,s',rfl,?_,later⟩))
          simp [createNextTable,unused,ran,found,bind,Except.bind]
  | false =>
      have present := intact.clean p t i shallow.le reached unused
      have widened : (if has (T t i) above then T t i else T t i ||| above) = T t i ||| above := by
        split
        · next held => exact (or_held held).symm
        · rfl
      have viewed : view (T t i ||| above) = view (T t i) := (widened_view upper (Or.inr ⟨present,rfl⟩)).symm
      have kept : has (T t i ||| above) PRESENT = true := has_or present
      rw [view,kept,view,present,if_pos rfl,if_pos rfl,Option.some.injEq,Prod.mk.injEq] at viewed
      cases large : has (T t i) HUGE_PAGE with
      | true =>
          refine Or.inl ⟨addrOf (T t i),by rw [view,present,if_pos rfl,large],?_⟩
          simp [createNextTable,unused,widened,kept,viewed.2,large]
      | false =>
          have seen : view (T t i) = some (addrOf (T t i),false) := by rw [view,present,if_pos rfl,large]
          have found := near (addrOf (T t i)) (intact.near _ ⟨p ++ [i],by simpa using shallow,walk_snoc.mpr ⟨t,reached,seen⟩⟩)
          refine Or.inr (Or.inl ⟨addrOf (T t i),seen,?_⟩)
          simp [createNextTable,unused,widened,kept,viewed.1,viewed.2,large,found,bind,Except.bind]

-- From the table at the end of `p` down the rest of the page's path, by induction on that rest.
theorem mapBelow_spec {q : List ℕ} (legal : PageFlags flags) (aligned : frame % 4096 = 0) (small : frame < 2^52)
    (intact : Intact T root depth limit pending) (reached : walk view T root p = some t)
    (held : ∀ e ∈ trail view T root p, has e above = true) (long : p.length+q.length = depth+1) (more : q ≠ [])
    (stocked : stock s pending) :
    ∃ result T' s' k, mapBelow panics physOffset allocate frame flags above t q T s = .ok (result,T',s') ∧
      Mapped stock above flags T T' root depth limit frame pending (p ++ q) result s' k := by
  -- Down the path: every table so far is there and every entry so far carries the flags of parents.
  induction q generalizing p t T s pending with
  | nil => exact absurd rfl more
  | cons i q ih =>
      cases q with
      | nil =>
          have deep : p.length = depth := by simpa using long
          cases unused : isUnused (T t i) with
          | true =>
              exact ⟨.ok (),_,s,0,by rw [mapBelow,if_pos unused],leaf_mapped legal aligned small intact reached held deep stocked unused⟩
          | false =>
              have present := intact.clean p t i deep.le reached unused
              refine ⟨.error (.pageAlreadyMapped frame),T,s,0,by rw [mapBelow,unused]; rfl,Nat.zero_le _,stocked,intact,
                .taken (b:=addrOf (T t i)) ?_,Grown.refl ..⟩
              rw [target_below reached (by simp),target,view,present]
              simp
      | cons j rest =>
          have shallow : p.length < depth := by
            simp only [length_cons] at long
            omega
          have page : (p ++ i :: j :: rest).length = depth+1 := by rwa [length_append]
          have split : p ++ [i] ++ j :: rest = p ++ i :: j :: rest := by simp
          have within : p ++ [i] <+: p ++ i :: j :: rest := by simp
          have shorter : (p ++ [i]).length+(j :: rest).length = depth+1 := by
            simp only [length_cons,length_append,length_nil] at long ⊢
            omega
          rcases create_cases supplies near upper (i:=i) intact reached shallow stocked with
            ⟨b,seen,ran⟩ | ⟨next,seen,ran⟩ | ⟨unused,rfl,s',ran,later⟩ | ⟨unused,f,stocks,s',rfl,ran,later⟩
          · have present := view_present seen
            refine ⟨.error .parentEntryHugePage,_,s,0,by rw [mapBelow,ran]; rfl,Nat.zero_le _,stocked,
              widen_intact upper present intact,.huge (b:=b) (n:=rest.length) ?_,widen_grown upper present⟩
            rw [target_below reached (by simp),target,seen]
            rfl
          · have present := view_present seen
            have grown : Grown above T (set T t i (T t i ||| above)) root depth [] [] := widen_grown upper present
            have walks : ∀ q, q.length ≤ depth → walk view (set T t i (T t i ||| above)) root q = walk view T root q :=
              fun _ _ => widen_walk upper present
            have reached' := walk_snoc.mpr ⟨t,reached,seen⟩
            rw [← widen_walk upper present] at reached'
            obtain ⟨result,T',s',k,finish,mapped⟩ := ih (widen_intact upper present intact) reached'
              (widen_held upper present reached held) shorter (by simp) stocked
            rw [split] at mapped
            have before := mapped_before grown page (missing_grown walks page).symm (fun new => absurd rfl new)
              (fun q short found => Or.inl (by rwa [walks q short] at found)) mapped
            rw [nil_append,length_nil,Nat.zero_add] at before
            exact ⟨result,T',s',k,by rw [mapBelow,ran]; exact finish,before⟩
          · refine ⟨.error .frameAllocationFailed,T,s',0,by rw [mapBelow,ran]; rfl,Nat.zero_le _,later,intact,
              .short (vacant_below reached unused) ?_,Grown.refl ..⟩
            exact missing_pos reached unused within (by simp)
          · have link := link_step upper intact reached shallow unused
            have grown : Grown above T _ root depth [f] [] := link_grown intact link
            obtain ⟨result,T',s',k,finish,mapped⟩ := ih (link_intact upper intact reached shallow unused)
              (link.walk_child intact.tree) (link_held upper intact reached shallow unused held) shorter (by simp) later
            rw [split] at mapped
            refine ⟨result,T',s',_,by rw [mapBelow,ran]; exact finish,
              mapped_before grown page (link_missing intact.tree link page within) (fun _ => vacant_below reached unused) ?_ mapped⟩
            intro q short found
            obtain ⟨a,found⟩ := Option.isSome_iff_exists.mp found
            rcases (link.walk_cases intact.tree short).mp found with old | ⟨rfl,_⟩
            · exact Or.inl (Option.isSome_iff_exists.mpr ⟨a,old⟩)
            · exact Or.inr within

omit supplies upper in
theorem translateBelow_spec (intact : Intact T root depth limit pending) (reached : walk view T root p = some t)
    (deep : p.length+q.length = depth+1) (virt : ℕ) : translateBelow panics physOffset T virt t q =
      match target view T t q with
      | some (base,below) => if below < 3 then .ok (some (base-base % 2^(12+9*below)+virt % 2^(12+9*below)))
          else .error (panics "level 4 entry has huge page bit set")
      | none => .ok none := by
  induction q generalizing p t with
  | nil => rfl
  | cons i q ih =>
      rw [length_cons] at deep
      have used := intact.clean p t i (by omega) reached
      cases q with
      | nil =>
          cases unused : isUnused (T t i) with
          | true => simp [translateBelow,target,unused,unused_view unused]
          | false => simp [translateBelow,target,unused,view,used unused,addr_aligned]
      | cons j rest =>
          rw [length_cons] at deep
          cases present : has (T t i) PRESENT with
          | false => simp [translateBelow,target,view,present]
          | true =>
              cases large : has (T t i) HUGE_PAGE with
              | true =>
                  by_cases high : 2 ≤ rest.length
                  · simp [translateBelow,target,view,present,large,high,show ¬ rest.length+1 < 3 by omega]
                  · simp [translateBelow,target,view,present,large,high,show rest.length+1 < 3 by omega]
              | false =>
                  have below : walk view T root (p ++ [i]) = some (addrOf (T t i)) :=
                    walk_snoc.mpr ⟨t,reached,by simp [view,present,large]⟩
                  have found := near _ (intact.near _ ⟨p ++ [i],by rw [length_append,length_singleton]; omega,below⟩)
                  have rest_spec := ih below (by rw [length_append,length_singleton,length_cons]; omega)
                  rw [target]
                  simpa [translateBelow,view,present,large,found,bind,Except.bind] using rest_spec

end mapping

theorem offset_documented (panics : String → ε) (window : 2^64-2^47 ≤ physOffset) (within : physOffset+limit ≤ 2^64) :
    (offsetPageTable panics physOffset).Documented limit := by
  have near : ∀ a, a < limit → pointer panics physOffset a = .ok () := by
    intro a low
    have canonical : Canonical (physOffset+a) := Or.inr ⟨by omega,by omega⟩
    rw [pointer,virtAddrAdd,if_pos canonical]
    rfl
  refine ⟨fun virt canonical => if_pos canonical,fun virt offset canonical => if_pos canonical,?_,?_,?_⟩
  · intro first left _ _ _
    simp only [offsetPageTable]
    congr 2
    omega
  · intro α allocate stock supplies flags legal parents frame aligned small T root pending s intact stocked virt
    exact mapBelow_spec (p:=[]) (q:=path virt) supplies near parents legal aligned small intact rfl
      (fun _ member => absurd member not_mem_nil) rfl (cons_ne_nil _ _) stocked
  · intro T root pending intact virt sound
    simp only [offsetPageTable]
    rw [translateBelow_spec (p:=[]) near intact rfl rfl virt,translate]
    cases meaning : target view T root (path virt) with
    | none => rfl
    | some shown => simp only [sound _ _ meaning,if_true]

end PageTables
