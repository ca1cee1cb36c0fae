import RustyCore.OffsetPageTable
import RustyCore.RustArithmetic

namespace RustyCore
open PageTables RadixTables List

def PHYS_MEM_OFFSET : ℕ := 0xFFFF800000000000
def HEAP_START : ℕ := 0xFFFF900000000000
def MMIO_WINDOW : ℕ := 0xFFFFA00000000000

def HEAP_FLAGS : Flags := PRESENT ||| WRITABLE ||| NO_EXECUTE

def mapHeapError : MapToError → String
  | .frameAllocationFailed => "heap map: out of frames for page tables"
  | .parentEntryHugePage => "heap map: huge page blocks heap range"
  | .pageAlreadyMapped _ => "heap page already mapped"

section mapper
variable {α : Type} (x86 : Paging Fault) (allocate : α → Except Fault (Option ℕ × α)) (root : ℕ)

-- The loop of `map_heap` beyond what the iterator of the range answers.
def mapPages : List (Except Fault ℕ) → Tables → α → Except Fault (Except String Unit × Tables × α)
  | [],T,s => .ok (.ok (),T,s)
  | answer :: rest,T,s => do
    let page ← answer
    match ← allocate s with
    | (none,s) => .ok (.error "out of frames for heap",T,s)
    | (some frame,s) =>
      match ← x86.mapTo allocate root page frame HEAP_FLAGS T s with
      | (.error e,T,s) => .ok (.error (mapHeapError e),T,s)
      | (.ok _,T,s) => mapPages rest T s

def mapHeap (start size : ℕ) (T : Tables) (s : α) : Except Fault (Except String Unit × Tables × α) :=
  if size = 0 then .ok (.error "heap size is zero",T,s)
  else match checkedAdd start size with
    | none => .ok (.error "heap range overflows",T,s)
    | some endAddr => do
      let first ← x86.virtAddrNew start
      let last ← x86.virtAddrNew (endAddr-1)
      mapPages x86 allocate root (x86.rangeInclusive (first / 4096*4096) (last / 4096*4096)) T s

end mapper

theorem heap_flags : PageFlags HEAP_FLAGS := by
  constructor <;> decide

theorem heap_parents : PageFlags (parentFlags HEAP_FLAGS) := by
  constructor <;> decide

theorem heap_held : has HEAP_FLAGS (parentFlags HEAP_FLAGS) = true := by decide

structure Furnished (T T' : Tables) (root : ℕ) (pending pages frames : List ℕ) : Prop where
  backs : Forall₂ (fun page frame => Backs (parentFlags HEAP_FLAGS) HEAP_FLAGS T' root 3 (path page) frame) pages frames
  own : frames <+ pending
  apart : ∀ f ∈ frames, ¬ Reached view T' root 3 f
  vacant : ∀ page ∈ pages, target view T root (path page) = none

theorem Furnished.cons {T₁ : Tables} (furnished : Furnished T₁ T' root rest pages frames) (unreached : ¬ Reached view T' root 3 f)
    (backs : Backs (parentFlags HEAP_FLAGS) HEAP_FLAGS T' root 3 (path page) f) (empty : target view T root (path page) = none)
    (same : ∀ q ∈ pages, target view T₁ root (path q) = target view T root (path q)) (own : rest <+ pending) :
    Furnished T T' root (f :: pending) (page :: pages) (f :: frames) where
  backs := .cons backs furnished.backs
  own := (furnished.own.trans own).cons_cons f
  apart := by
    intro g member
    rcases mem_cons.mp member with rfl | later
    · exact unreached
    · exact furnished.apart g later
  vacant := by
    intro q member
    rcases mem_cons.mp member with rfl | later
    · exact empty
    · exact (same q later).symm.trans (furnished.vacant q later)

inductive Served (T T' : Tables) (root : ℕ) (pending pages : List ℕ) : Except String Unit → ℕ → List (List ℕ) → Prop where
  | done (frames : List ℕ) : pages.length+(lacking T root (pages.map path)).card ≤ pending.length →
      Furnished T T' root (pending.take (pages.length+(lacking T root (pages.map path)).card)) pages frames →
      Served T T' root pending pages (.ok ()) (pages.length+(lacking T root (pages.map path)).card) (pages.map path)
  | noFrame : pending.length < pages.length+(lacking T root (pages.map path)).card → changed ⊆ pages.map path →
      Served T T' root pending pages (.error "out of frames for heap") pending.length changed
  | noTable : pending.length < pages.length+(lacking T root (pages.map path)).card → changed ⊆ pages.map path →
      Served T T' root pending pages (.error "heap map: out of frames for page tables") pending.length changed
  | huge : page ∈ pages → target view T root (path page) = some (b,n+1) → changed ⊆ pages.map path →
      Served T T' root pending pages (.error "heap map: huge page blocks heap range") k changed
  | taken : page ∈ pages → target view T root (path page) = some (b,0) → changed ⊆ pages.map path →
      Served T T' root pending pages (.error "heap page already mapped") k changed

theorem served_within (served : Served T T' root pending pages result k changed) : changed ⊆ pages.map path := by
  cases served with
  | done => exact Subset.refl _
  | noFrame _ within | noTable _ within | huge _ _ within | taken _ _ within => exact within

theorem served_cons {T T₁ T' : Tables} (intact : Intact T root 3 limit (f :: rest))
    (mapped : Mapped stock (parentFlags HEAP_FLAGS) HEAP_FLAGS T T₁ root 3 limit f rest (path page) (.ok ()) s₁ k₁)
    (grown : Grown (parentFlags HEAP_FLAGS) T₁ T' root 3 ((rest.drop k₁).take k₂) changed)
    (distinct : ((page :: pages).map path).Nodup) (served : Served T₁ T' root (rest.drop k₁) pages result k₂ changed) :
    Served T T' root (f :: rest) (page :: pages) result (1+k₁+k₂) (path page :: changed) := by
  obtain ⟨outside,once⟩ := nodup_cons.mp intact.once
  obtain ⟨other,_⟩ := nodup_cons.mp distinct
  have few := mapped.few
  obtain ⟨enough,empty,backs,known⟩ := mapped.outcome.done rfl
  -- A table that two pages share is lacking once, for the first of them.
  have total : (lacking T root ((page :: pages).map path)).card = k₁+(lacking T₁ root (pages.map path)).card := by
    rw [enough]
    refine lacking_step ?_ known
    intro q member
    obtain ⟨virt,_,rfl⟩ := mem_map.mp (show q ∈ (page :: pages).map path from member)
    rfl
  have same : ∀ q ∈ pages, target view T₁ root (path q) = target view T root (path q) := by
    intro q member
    refine mapped.grown.targets (path q) rfl ?_
    intro equal
    exact other (mem_singleton.mp equal ▸ mem_map_of_mem member)
  have unreached : ¬ Reached view T' root 3 f := by
    refine grown.unreached (mapped.grown.unreached (intact.fresh f mem_cons_self) ?_) ?_
    · exact fun new => outside (mem_of_mem_take new)
    · exact fun new => outside (mem_of_mem_drop (mem_of_mem_take new))
  have few' : (rest.drop k₁).length < pages.length+(lacking T₁ root (pages.map path)).card →
      (f :: rest).length < (page :: pages).length+(lacking T root ((page :: pages).map path)).card := by
    rw [total,length_drop,length_cons,length_cons]
    omega
  have all : 1+k₁+(rest.drop k₁).length = (f :: rest).length := by
    rw [length_drop,length_cons]
    omega
  cases served with
  | done frames fits furnished =>
      have count : 1+k₁+(pages.length+(lacking T₁ root (pages.map path)).card) =
          (page :: pages).length+(lacking T root ((page :: pages).map path)).card := by
        rw [total,length_cons]
        omega
      rw [length_drop] at fits
      rw [count]
      refine .done (f :: frames) (by rw [← count,length_cons]; omega) ?_
      rw [← count,Nat.add_assoc,Nat.add_comm,take_succ_cons,take_add]
      exact furnished.cons unreached (backs.grown heap_held grown) empty same (sublist_append_right _ _)
  | noFrame short within =>
      rw [all]
      exact .noFrame (few' short) (cons_subset_cons _ within)
  | noTable short within =>
      rw [all]
      exact .noTable (few' short) (cons_subset_cons _ within)
  | huge member meaning within =>
      exact .huge (mem_cons_of_mem _ member) ((same _ member).symm.trans meaning) (cons_subset_cons _ within)
  | taken member meaning within =>
      exact .taken (mem_cons_of_mem _ member) ((same _ member).symm.trans meaning) (cons_subset_cons _ within)

section heap
variable {α : Type} {x86 : Paging Fault} {allocate : α → Except Fault (Option ℕ × α)} {stock : α → List ℕ → Prop} {root limit : ℕ}
  (documented : x86.Documented limit) (supplies : Supplies allocate stock)
include documented supplies

theorem mapPages_spec {pages : List ℕ} (intact : Intact T root 3 limit pending) (stocked : stock s pending)
    (distinct : (pages.map path).Nodup) : ∃ result T' s' k changed, mapPages x86 allocate root (pages.map .ok) T s = .ok (result,T',s') ∧
      k ≤ pending.length ∧ stock s' (pending.drop k) ∧ Intact T' root 3 limit (pending.drop k) ∧
      Grown (parentFlags HEAP_FLAGS) T T' root 3 (pending.take k) changed ∧ Served T T' root pending pages result k changed := by
  induction pages generalizing T s pending with
  | nil =>
      refine ⟨.ok (),T,s,0,[],rfl,Nat.zero_le _,stocked,intact,Grown.refl ..,?_⟩
      exact .done [] (Nat.zero_le _) ⟨.nil,nil_sublist _,fun _ member => absurd member not_mem_nil,
        fun _ member => absurd member not_mem_nil⟩
  | cons page pages ih =>
      cases pending with
      | nil =>
          obtain ⟨s',ran,later⟩ := supplies.ends s stocked
          refine ⟨.error "out of frames for heap",T,s',0,[],by simp only [map_cons,mapPages,ran,ok_bind],Nat.zero_le _,later,intact,
            Grown.refl ..,.noFrame ?_ (nil_subset _)⟩
          rw [length_nil,length_cons]
          omega
      | cons f rest =>
          obtain ⟨s₀,ran,stocked⟩ := supplies.gives s f rest stocked
          obtain ⟨aligned,_,small⟩ := intact.frames f mem_cons_self
          obtain ⟨result,T₁,s₁,k₁,finish,mapped⟩ := documented.map supplies heap_flags heap_parents aligned small intact.tail
            stocked page
          have dropped : ∀ k, (f :: rest).drop (1+k) = rest.drop k := fun k => by rw [Nat.add_comm,drop_succ_cons]
          have taken : ∀ k, rest.take k ⊆ (f :: rest).take (1+k) := fun k => by
            rw [Nat.add_comm,take_succ_cons]
            exact subset_cons_self _ _
          cases result with
          | error e =>
              refine ⟨.error (mapHeapError e),T₁,s₁,1+k₁,[],by simp only [map_cons,mapPages,ran,ok_bind,finish],?_,
                by rw [dropped]; exact mapped.stocked,by rw [dropped]; exact mapped.intact,mapped.grown.mono (taken k₁),?_⟩
              · have few := mapped.few
                rw [length_cons]
                omega
              · cases mapped.outcome with
                | short empty few =>
                    have more := missing_le T root (path page) (pages.map path)
                    rw [Nat.add_comm,← length_cons (a:=f)]
                    refine .noTable ?_ (nil_subset _)
                    rw [length_cons,length_cons,map_cons]
                    omega
                | huge meaning => exact .huge mem_cons_self meaning (nil_subset _)
                | taken meaning => exact .taken mem_cons_self meaning (nil_subset _)
          | ok u =>
              obtain ⟨result,T',s',k₂,changed,later,few,stocked',intact',grown,served⟩ := ih mapped.intact mapped.stocked
                (nodup_cons.mp distinct).2
              have few₁ := mapped.few
              rw [length_drop] at few
              refine ⟨result,T',s',1+k₁+k₂,path page :: changed,by simp only [map_cons,mapPages,ran,ok_bind,finish,later],?_,?_,?_,?_,
                served_cons intact mapped grown distinct served⟩
              · rw [length_cons]
                omega
              · rw [Nat.add_assoc,dropped,← drop_drop]
                exact stocked'
              · rw [Nat.add_assoc,dropped,← drop_drop]
                exact intact'
              · have both := mapped.grown.trans grown
                rw [← take_add] at both
                rw [Nat.add_assoc]
                exact both.mono (taken _)

end heap

def rangePages (start size : ℕ) : List ℕ := pagesFrom (start / 4096*4096) ((start+size-1) / 4096-start / 4096+1)

-- A range of addresses in memory of its own: every page has its own frame, taken from the stock and
-- neither left in it nor used as a table; it can be written, but not executed and not by user code.
structure HeapBacked (T : Tables) (root start size : ℕ) (pending left : List ℕ) (frameOf : ℕ → ℕ) : Prop where
  translates : ∀ virt, start ≤ virt → virt < start+size → translate T root virt = some (frameOf (virt / 4096)+virt % 4096)
  rights : ∀ virt, start ≤ virt → virt < start+size → writable (trail view T root (path virt)) = true ∧
    executable (trail view T root (path virt)) = false ∧ userAccessible (trail view T root (path virt)) = false
  own : ∀ virt, start ≤ virt → virt < start+size → frameOf (virt / 4096) ∈ pending ∧ frameOf (virt / 4096) ∉ left ∧
    ¬ Reached view T root 3 (frameOf (virt / 4096))
  distinct : ∀ virt virt', start ≤ virt → virt < start+size → start ≤ virt' → virt' < start+size →
    frameOf (virt / 4096) = frameOf (virt' / 4096) → virt / 4096 = virt' / 4096

section range
variable {start size : ℕ} (upper : 2^64-2^47 ≤ start) (positive : 0 < size) (fits : start+size < 2^64)
include upper positive fits

theorem range_pages_path {page : ℕ} (member : page ∈ rangePages start size) :
    Canonical page ∧ start / 4096 ≤ page / 4096 ∧ page / 4096 ≤ (start+size-1) / 4096 := by
  obtain ⟨k,bound,rfl⟩ := mem_map.mp member
  rw [mem_range] at bound
  exact ⟨Or.inr ⟨by omega,by omega⟩,by omega,by omega⟩

theorem range_pages_distinct : ((rangePages start size).map path).Nodup := by
  refine Nodup.map_on ?_ (Nodup.map_on ?_ nodup_range)
  · intro page first page' second same
    have paths := (path_page (range_pages_path upper positive fits first).1 (range_pages_path upper positive fits second).1).mp same
    obtain ⟨k,_,rfl⟩ := mem_map.mp first
    obtain ⟨k',_,rfl⟩ := mem_map.mp second
    omega
  · intro k _ k' _ same
    omega

theorem range_page (low : start ≤ virt) (high : virt < start+size) :
    ∃ page, (rangePages start size)[virt / 4096-start / 4096]? = some page ∧ path page = path virt := by
  refine ⟨start / 4096*4096+4096*(virt / 4096-start / 4096),?_,?_⟩
  · rw [rangePages,pagesFrom,getElem?_map,getElem?_range (by omega)]
    rfl
  · refine (path_page (Or.inr ⟨by omega,by omega⟩) (Or.inr ⟨by omega,by omega⟩)).mpr ?_
    omega

theorem outside_same (grown : Grown above T T' root 3 taken changed) (within : changed ⊆ (rangePages start size).map path)
    (canonical : Canonical virt) (outside : virt / 4096 < start / 4096 ∨ (start+size-1) / 4096 < virt / 4096) :
    translate T' root virt = translate T root virt := by
  refine translate_same (grown.targets (path virt) rfl fun member => ?_)
  obtain ⟨page,listed,same⟩ := mem_map.mp (within member)
  obtain ⟨word,low,high⟩ := range_pages_path upper positive fits listed
  have := (path_page word canonical).mp same
  omega

theorem heap_backed (intact : Intact T root 3 limit pending)
    (furnished : Furnished T T' root (pending.take k) (rangePages start size) frames) :
    HeapBacked T' root start size pending (pending.drop k) fun page => (frames[page-start / 4096]?).getD 0 := by
  have listed : ∀ virt, start ≤ virt → virt < start+size → ∃ frame, frames[virt / 4096-start / 4096]? = some frame ∧
      frame % 4096 = 0 ∧ frame < 2^52 ∧ Backs (parentFlags HEAP_FLAGS) HEAP_FLAGS T' root 3 (path virt) frame := by
    intro virt low high
    obtain ⟨page,here,same⟩ := range_page upper positive fits low high
    obtain ⟨inside,rfl⟩ := List.getElem?_eq_some_iff.mp here
    obtain ⟨count,backs⟩ := forall₂_iff_get.mp furnished.backs
    have inside' : virt / 4096-start / 4096 < frames.length := count ▸ inside
    have backs := backs _ inside inside'
    have there : frames[virt / 4096-start / 4096]? = some (frames.get ⟨_,inside'⟩) := getElem?_eq_getElem inside'
    obtain ⟨aligned,_,small⟩ := intact.frames _ (mem_of_mem_take (furnished.own.subset (mem_of_getElem? there)))
    exact ⟨_,there,aligned,small,same ▸ backs⟩
  refine ⟨?_,?_,?_,?_⟩
  · intro virt low high
    obtain ⟨frame,there,aligned,_,backs⟩ := listed virt low high
    rw [there,Option.getD_some]
    exact backs.translates aligned
  · intro virt low high
    obtain ⟨frame,_,aligned,small,backs⟩ := listed virt low high
    exact ⟨backs.writes aligned small (by decide) (by decide),backs.guarded aligned small (by decide),
      backs.supervised aligned small (by decide)⟩
  · intro virt low high
    obtain ⟨frame,there,_⟩ := listed virt low high
    have member := mem_of_getElem? there
    have taken := furnished.own.subset member
    rw [there,Option.getD_some]
    refine ⟨mem_of_mem_take taken,?_,furnished.apart frame member⟩
    exact fun left => disjoint_take_drop intact.once (Nat.le_refl k) taken left
  · intro virt virt' low high low' high' same
    obtain ⟨frame,there,_⟩ := listed virt low high
    obtain ⟨frame',there',_⟩ := listed virt' low' high'
    rw [there,there',Option.getD_some,Option.getD_some] at same
    subst same
    have once : frames.Nodup := furnished.own.nodup (intact.once.sublist (take_sublist k pending))
    have position := (getElem?_inj (List.getElem?_eq_some_iff.mp there).1 once).mp (there.trans there'.symm)
    omega

end range

def handOut : List ℕ → Except Fault (Option ℕ × List ℕ)
  | [] => .ok (none,[])
  | f :: rest => .ok (some f,rest)

theorem shelf_supplies : Supplies handOut (· = ·) where
  gives := by
    rintro s f rest rfl
    exact ⟨rest,rfl,rfl⟩
  ends := by
    rintro s rfl
    exact ⟨[],rfl,rfl⟩

def sampleMapper : Paging Fault := offsetPageTable .panicked PHYS_MEM_OFFSET

theorem sample_documented : sampleMapper.Documented (2^47) :=
  offset_documented Fault.panicked (show 2^64-2^47 ≤ PHYS_MEM_OFFSET by norm_num [PHYS_MEM_OFFSET]) (by norm_num [PHYS_MEM_OFFSET])

def blankTables : Tables := fun _ _ => 0#64

theorem blank_walk : walk view blankTables root p = some a ↔ p = [] ∧ a = root := by
  cases p with
  | nil => simp [walk,eq_comm]
  | cons i p => simp [walk,blankTables,show view 0#64 = none by decide]

theorem blank_intact (once : pending.Nodup) (frames : ∀ f ∈ pending, f % 4096 = 0 ∧ 0x2000 ≤ f ∧ f < 2^47) :
    Intact blankTables 0x1000 3 (2^47) pending where
  tree := fun p q a _ _ first second => (blank_walk.mp first).1.trans (blank_walk.mp second).1.symm
  clean := fun _ _ _ _ _ used => by cases used
  near := by
    rintro t ⟨p,_,found⟩
    rw [(blank_walk.mp found).2]
    decide
  fresh := by
    rintro f member ⟨p,_,found⟩
    have low := (frames f member).2.1
    rw [(blank_walk.mp found).2] at low
    omega
  once := once
  frames := fun f member => ⟨(frames f member).1,(frames f member).2.2,by have := frames f member; omega⟩

theorem blank_vacant (virt : ℕ) : target view blankTables root (path virt) = none := by
  simp [path,target,blankTables,show view 0#64 = none by decide]

def sampleShelf : List ℕ := [0x2000,0x3000,0x4000,0x5000,0x6000,0x7000]

theorem shelf_intact : Intact blankTables 0x1000 3 (2^47) sampleShelf :=
  blank_intact (by decide) (by decide)

section heap
variable {α : Type} {x86 : Paging Fault} {allocate : α → Except Fault (Option ℕ × α)} {stock : α → List ℕ → Prop} {root limit start : ℕ}
  (documented : x86.Documented limit) (supplies : Supplies allocate stock) (upper : 2^64-2^47 ≤ start)

theorem mapHeap_zero (T : Tables) (s : α) : mapHeap x86 allocate root start 0 T s = .ok (.error "heap size is zero",T,s) := if_pos rfl

theorem mapHeap_overflows (positive : 0 < size) (beyond : 2^64 ≤ start+size) (T : Tables) (s : α) :
    mapHeap x86 allocate root start size T s = .ok (.error "heap range overflows",T,s) := by
  rw [mapHeap,if_neg (by omega),checkedAdd,if_neg (by omega)]

include documented supplies upper

theorem mapHeap_served (positive : 0 < size) (fits : start+size < 2^64) (intact : Intact T root 3 limit pending)
    (stocked : stock s pending) :
    ∃ result T' s' k changed, mapHeap x86 allocate root start size T s = .ok (result,T',s') ∧
      k ≤ pending.length ∧ stock s' (pending.drop k) ∧ Intact T' root 3 limit (pending.drop k) ∧
      Grown (parentFlags HEAP_FLAGS) T T' root 3 (pending.take k) changed ∧
      Served T T' root pending (rangePages start size) result k changed := by
  have spec := mapPages_spec documented supplies intact stocked (range_pages_distinct upper positive fits)
  have first := documented.new start (Or.inr ⟨upper,by omega⟩)
  have last := documented.new (start+size-1) (Or.inr ⟨by omega,by omega⟩)
  have range := documented.range (start / 4096*4096) ((start+size-1) / 4096-start / 4096) (by omega) (by omega) (by omega)
  have ends : start / 4096*4096+4096*((start+size-1) / 4096-start / 4096) = (start+size-1) / 4096*4096 := by omega
  have same : mapHeap x86 allocate root start size T s = mapPages x86 allocate root ((rangePages start size).map .ok) T s := by
    rw [mapHeap,if_neg (by omega),checkedAdd,if_pos fits]
    simp only [first,last,ok_bind]
    rw [← ends,range]
    rfl
  rwa [same]

theorem map_heap_isolated (size : ℕ) (intact : Intact T root 3 limit pending) (stocked : stock s pending) :
    ∃ result T' s' k, mapHeap x86 allocate root start size T s = .ok (result,T',s') ∧ stock s' (pending.drop k) ∧
      Intact T' root 3 limit (pending.drop k) ∧
      (∀ virt, Canonical virt → virt / 4096 < start / 4096 ∨ (start+size-1) / 4096 < virt / 4096 →
        translate T' root virt = translate T root virt) ∧
      (result = .ok () → ∃ frameOf, HeapBacked T' root start size pending (pending.drop k) frameOf) := by
  rcases Nat.eq_zero_or_pos size with rfl | positive
  · exact ⟨_,T,s,0,mapHeap_zero T s,stocked,intact,fun _ _ _ => rfl,fun done => by cases done⟩
  rcases Nat.lt_or_ge (start+size) (2^64) with fits | beyond
  · obtain ⟨result,T',s',k,changed,ran,few,stocked',intact',grown,served⟩ :=
      mapHeap_served documented supplies upper positive fits intact stocked
    refine ⟨result,T',s',k,ran,stocked',intact',?_,?_⟩
    · exact fun virt => outside_same upper positive fits grown (served_within served)
    · rintro rfl
      cases served with
      | done frames fits' furnished => exact ⟨_,heap_backed upper positive fits intact furnished⟩
  · exact ⟨_,T,s,0,mapHeap_overflows positive beyond T s,stocked,intact,fun _ _ _ => rfl,fun done => by cases done⟩

omit documented supplies upper in
theorem map_heap_isolated_sample :
    ∃ T' left, mapHeap sampleMapper handOut 0x1000 HEAP_START 0x2000 blankTables sampleShelf = .ok (.ok (),T',left) ∧
    (∃ frame, translate T' 0x1000 (HEAP_START+0x1234) = some (frame+0x234)) ∧ translate T' 0x1000 MMIO_WINDOW = none := by
  obtain ⟨result,T',left,k,ran,_,_,others,backed⟩ := map_heap_isolated sample_documented shelf_supplies
    (show 2^64-2^47 ≤ HEAP_START by norm_num [HEAP_START]) 0x2000 shelf_intact rfl
  obtain ⟨answer,same,checked⟩ := ran_any (show (mapHeap sampleMapper handOut 0x1000 HEAP_START 0x2000 blankTables
    sampleShelf).toOption.any (fun r => r.1.isOk) = true by decide +kernel)
  cases ran.symm.trans same
  cases result with
  | error e => cases checked
  | ok u =>
      obtain ⟨frameOf,backed⟩ := backed rfl
      refine ⟨T',left,ran,⟨frameOf ((HEAP_START+0x1234) / 4096),backed.translates (HEAP_START+0x1234) (by omega) (by omega)⟩,?_⟩
      rw [others MMIO_WINDOW (Or.inr (by norm_num [MMIO_WINDOW])) (by norm_num [MMIO_WINDOW,HEAP_START])]
      decide

theorem map_heap_answers (size : ℕ) (intact : Intact T root 3 limit pending) (stocked : stock s pending) :
    ∃ result T' s', mapHeap x86 allocate root start size T s = .ok (result,T',s') ∧
      (result = .ok () ↔ 0 < size ∧ start+size < 2^64 ∧ (∀ page ∈ rangePages start size, target view T root (path page) = none) ∧
        (rangePages start size).length+(lacking T root ((rangePages start size).map path)).card ≤ pending.length) ∧
      (result = .error "heap size is zero" ↔ size = 0) ∧
      (result = .error "heap range overflows" ↔ 0 < size ∧ 2^64 ≤ start+size) ∧
      ∀ text, result = .error text → size = 0 ∨ 2^64 ≤ start+size ∨
        (text = "out of frames for heap" ∨ text = "heap map: out of frames for page tables") ∧ stock s' [] ∧
          pending.length < (rangePages start size).length+(lacking T root ((rangePages start size).map path)).card ∨
        (text = "heap page already mapped" ∧ ∃ page ∈ rangePages start size, ∃ frame,
          target view T root (path page) = some (frame,0)) ∨
        text = "heap map: huge page blocks heap range" ∧ ∃ page ∈ rangePages start size, ∃ frame below,
          target view T root (path page) = some (frame,below+1) := by
  rcases Nat.eq_zero_or_pos size with rfl | positive
  · refine ⟨_,T,s,mapHeap_zero T s,by simp,by simp,by simp,?_⟩
    exact fun _ _ => Or.inl rfl
  have some_ : size ≠ 0 := Nat.pos_iff_ne_zero.mp positive
  rcases Nat.lt_or_ge (start+size) (2^64) with fits | beyond
  · obtain ⟨result,T',s',k,changed,ran,few,stocked',intact',grown,served⟩ :=
      mapHeap_served documented supplies upper positive fits intact stocked
    refine ⟨result,T',s',ran,?_,?_,?_,?_⟩
    · cases served with
      | done frames enough furnished => exact iff_of_true rfl ⟨positive,fits,furnished.vacant,enough⟩
      | noFrame short within => exact iff_of_false (by simp) fun holds => absurd holds.2.2.2 (by omega)
      | noTable short within => exact iff_of_false (by simp) fun holds => absurd holds.2.2.2 (by omega)
      | huge member meaning within => exact iff_of_false (by simp) fun holds => by simp [holds.2.2.1 _ member] at meaning
      | taken member meaning within => exact iff_of_false (by simp) fun holds => by simp [holds.2.2.1 _ member] at meaning
    · cases served <;> simp [some_]
    · refine iff_of_false ?_ fun holds => absurd holds.2 (Nat.not_le.mpr fits)
      cases served <;> simp
    · rintro text rfl
      refine Or.inr (Or.inr ?_)
      cases served with
      | noFrame short within =>
          rw [drop_length] at stocked'
          exact Or.inl ⟨Or.inl rfl,stocked',short⟩
      | noTable short within =>
          rw [drop_length] at stocked'
          exact Or.inl ⟨Or.inr rfl,stocked',short⟩
      | huge member meaning within => exact Or.inr (Or.inr ⟨rfl,_,member,_,_,meaning⟩)
      | taken member meaning within => exact Or.inr (Or.inl ⟨rfl,_,member,_,meaning⟩)
  · refine ⟨_,T,s,mapHeap_overflows positive beyond T s,iff_of_false (by simp) fun holds => absurd holds.2.1 (Nat.not_lt.mpr beyond),
      by simp [some_],iff_of_true rfl ⟨positive,beyond⟩,?_⟩
    exact fun _ _ => Or.inr (Or.inl beyond)

-- Two pages and their three tables take five frames; with four the heap is refused.
omit documented supplies upper in
theorem map_heap_answers_sample :
    (∃ T' left, mapHeap sampleMapper handOut 0x1000 HEAP_START 0x2000 blankTables sampleShelf = .ok (.ok (),T',left)) ∧
    ∃ text T' left, mapHeap sampleMapper handOut 0x1000 HEAP_START 0x2000 blankTables (sampleShelf.take 4) = .ok (.error text,T',left) := by
  have vacant : ∀ page ∈ rangePages HEAP_START 0x2000, target view blankTables 0x1000 (path page) = none := fun page _ => blank_vacant page
  have upper : 2^64-2^47 ≤ HEAP_START := by norm_num [HEAP_START]
  have fits : HEAP_START+0x2000 < 2^64 := by norm_num [HEAP_START]
  have few : Intact blankTables 0x1000 3 (2^47) (sampleShelf.take 4) := blank_intact (by decide) (by decide)
  obtain ⟨result,T',left,ran,exact,_⟩ := map_heap_answers sample_documented shelf_supplies upper 0x2000 shelf_intact rfl
  obtain ⟨result',T'',left',ran',exact',_⟩ := map_heap_answers sample_documented shelf_supplies upper 0x2000 few rfl
  refine ⟨⟨T',left,?_⟩,?_⟩
  · rw [ran,exact.mpr ⟨by decide,fits,vacant,by decide +kernel⟩]
  · cases result' with
    | error text => exact ⟨text,T'',left',ran'⟩
    | ok u => exact absurd (exact'.mp rfl).2.2.2 (by decide +kernel)

end heap

end RustyCore
