import RustyCore.PageTables

namespace PageTables
open RadixTables List Function

-- An allocator that hands out a list in order, and then refuses.
structure Supplies (allocate : α → Except ε (Option ℕ × α)) (stock : α → List ℕ → Prop) : Prop where
  gives : ∀ s f rest, stock s (f :: rest) → ∃ s', allocate s = .ok (some f,s') ∧ stock s' rest
  ends : ∀ s, stock s [] → ∃ s', allocate s = .ok (none,s') ∧ stock s' []

-- Tables that form a tree, with the frames that an allocator has still to give kept out of it.
-- The mapper finds its way to every frame below `limit`.
structure Intact (T : Tables) (root depth limit : ℕ) (pending : List ℕ) : Prop where
  tree : Tree view T root depth
  clean : ∀ p t i, p.length ≤ depth → walk view T root p = some t → isUnused (T t i) = false → has (T t i) PRESENT = true
  near : ∀ t, Reached view T root depth t → t < limit
  fresh : ∀ f ∈ pending, ¬ Reached view T root depth f
  once : pending.Nodup
  frames : ∀ f ∈ pending, f % 4096 = 0 ∧ f < limit ∧ f < 2^52

theorem Intact.tail (intact : Intact T root depth limit (f :: pending)) : Intact T root depth limit pending :=
  {intact with
    fresh := fun g member => intact.fresh g (mem_cons_of_mem _ member)
    once := (nodup_cons.mp intact.once).2
    frames := fun g member => intact.frames g (mem_cons_of_mem _ member)}

-- From one set of tables to another: the tree keeps its tables and gains some of the frames
-- `taken`, and of the pages only `changed` get a new meaning, where there was none.
structure Grown (above : Flags) (T T' : Tables) (root depth : ℕ) (taken : List ℕ) (changed : List (List ℕ)) : Prop where
  keeps : ∀ p a, p.length ≤ depth → walk view T root p = some a → walk view T' root p = some a
  gains : ∀ p a, p.length ≤ depth → walk view T' root p = some a → walk view T root p = some a ∨ a ∈ taken
  targets : ∀ q, q.length = depth+1 → q ∉ changed → target view T' root q = target view T root q
  vacant : ∀ q ∈ changed, q.length = depth+1 ∧ target view T root q = none
  trails : ∀ q, q.length = depth+1 → target view T root q ≠ none →
    Forall₂ (Widened above) (trail view T root q) (trail view T' root q)

theorem Grown.refl (above : Flags) (T : Tables) (root depth : ℕ) : Grown above T T root depth [] [] where
  keeps := fun _ _ _ found => found
  gains := fun _ _ _ found => Or.inl found
  targets := fun _ _ _ => rfl
  vacant := fun _ member => absurd member not_mem_nil
  trails := fun _ _ _ => forall₂_same.mpr fun _ _ => Or.inl rfl

theorem Grown.mono (grown : Grown above T T' root depth taken changed) (more : taken ⊆ taken') :
    Grown above T T' root depth taken' changed :=
  {grown with gains := fun p a short found => (grown.gains p a short found).imp_right fun member => more member}

theorem Grown.unreached (grown : Grown above T T' root depth taken changed) (outside : ¬ Reached view T root depth f) (fresh : f ∉ taken) :
    ¬ Reached view T' root depth f := by
  rintro ⟨q,short,found⟩
  rcases grown.gains q f short found with old | new
  · exact outside ⟨q,short,old⟩
  · exact fresh new

theorem trails_trans {entries entries' entries'' : List Entry} (first : Forall₂ (Widened above) entries entries')
    (second : Forall₂ (Widened above) entries' entries'') : Forall₂ (Widened above) entries entries'' := by
  induction first generalizing entries'' with
  | nil => exact second
  | cons grew _ ih =>
      cases second with
      | cons again rest => exact .cons (widened_trans grew again) (ih rest)

theorem trails_held {entries entries' : List Entry} (grew : Forall₂ (Widened above) entries entries')
    (held : ∀ e ∈ entries, has e above = true) : entries' = entries := by
  induction grew with
  | nil => rfl
  | cons widened _ ih =>
      rw [widened_held widened (held _ mem_cons_self),ih fun e member => held e (mem_cons_of_mem _ member)]

theorem Grown.trans (first : Grown above T T' root depth taken changed) (second : Grown above T' T'' root depth taken' changed') :
    Grown above T T'' root depth (taken ++ taken') (changed ++ changed') where
  keeps := fun p a short found => second.keeps p a short (first.keeps p a short found)
  gains := by
    intro p a short found
    rcases second.gains p a short found with earlier | new
    · exact (first.gains p a short earlier).imp_right fun member => mem_append_left _ member
    · exact Or.inr (mem_append_right _ new)
  targets := by
    intro q long beside
    rw [mem_append,not_or] at beside
    rw [second.targets q long beside.2,first.targets q long beside.1]
  vacant := by
    intro q member
    rcases mem_append.mp member with old | new
    · exact first.vacant q old
    · by_cases old : q ∈ changed
      · exact first.vacant q old
      · obtain ⟨long,none⟩ := second.vacant q new
        exact ⟨long,by rwa [first.targets q long old] at none⟩
  trails := by
    intro q long mapped
    have beside : q ∉ changed := fun member => mapped (first.vacant q member).2
    exact trails_trans (first.trails q long mapped) (second.trails q long (by rwa [first.targets q long beside]))

def missing (T : Tables) (root : ℕ) (page : List ℕ) : ℕ :=
  ((Finset.range page.length).filter fun n => walk view T root (page.take n) = none).card

def changedBy (page : List ℕ) : Except MapToError Unit → List (List ℕ)
  | .ok _ => [page]
  | .error _ => []

inductive Outcome (above flags : Flags) (T T' : Tables) (root depth frame : ℕ) (pending : List ℕ) (page : List ℕ) :
    Except MapToError Unit → ℕ → Prop where
  | mapped (parents : List Entry) : target view T root page = none → missing T root page ≤ pending.length →
      target view T' root page = some (frame,0) → trail view T' root page = parents ++ [entry frame flags] →
      (∀ e ∈ parents, has e above = true) →
      parents.length = depth →
      (∀ q, q.length ≤ depth → ((walk view T' root q).isSome ↔ (walk view T root q).isSome ∨ q <+: page)) →
      Outcome above flags T T' root depth frame pending page (.ok ()) (missing T root page)
  | short : target view T root page = none → pending.length < missing T root page →
      Outcome above flags T T' root depth frame pending page (.error .frameAllocationFailed) pending.length
  | huge : target view T root page = some (b,n+1) →
      Outcome above flags T T' root depth frame pending page (.error .parentEntryHugePage) 0
  | taken : target view T root page = some (b,0) →
      Outcome above flags T T' root depth frame pending page (.error (.pageAlreadyMapped held)) 0

structure Mapped (stock : α → List ℕ → Prop) (above flags : Flags) (T T' : Tables) (root depth limit frame : ℕ) (pending : List ℕ)
    (page : List ℕ) (result : Except MapToError Unit) (s' : α) (k : ℕ) : Prop where
  few : k ≤ pending.length
  stocked : stock s' (pending.drop k)
  intact : Intact T' root depth limit (pending.drop k)
  outcome : Outcome above flags T T' root depth frame pending page result k
  grown : Grown above T T' root depth (pending.take k) (changedBy page result)

def lacking (T : Tables) (root : ℕ) (pages : List (List ℕ)) : Finset (List ℕ) :=
  (pages.flatMap fun page => (range page.length).map page.take).toFinset.filter fun q => walk view T root q = none

theorem mem_lacking : q ∈ lacking T root pages ↔
    (∃ page ∈ pages, ∃ n < page.length, page.take n = q) ∧ walk view T root q = none := by
  simp [lacking]

theorem missing_lacking (T : Tables) (root : ℕ) (page : List ℕ) : missing T root page = (lacking T root [page]).card := by
  have images : lacking T root [page] =
      ((Finset.range page.length).filter fun n => walk view T root (page.take n) = none).image page.take := by
    ext q
    simp only [mem_lacking,mem_singleton,exists_eq_left,Finset.mem_image,Finset.mem_filter,Finset.mem_range]
    constructor
    · rintro ⟨⟨n,bound,rfl⟩,none⟩
      exact ⟨n,⟨bound,none⟩,rfl⟩
    · rintro ⟨n,⟨bound,none⟩,rfl⟩
      exact ⟨⟨n,bound,rfl⟩,none⟩
  rw [images,Finset.card_image_of_injOn,missing]
  intro n left k right same
  have length := congrArg List.length same
  simp only [Finset.coe_filter,Finset.mem_range,Set.mem_ofPred_eq,length_take] at left right length
  omega

theorem missing_le (T : Tables) (root : ℕ) (page : List ℕ) (pages : List (List ℕ)) :
    missing T root page ≤ (lacking T root (page :: pages)).card := by
  rw [missing_lacking]
  refine Finset.card_le_card fun q member => ?_
  obtain ⟨⟨r,here,part⟩,none⟩ := mem_lacking.mp member
  exact mem_lacking.mpr ⟨⟨r,mem_cons.mpr (Or.inl (mem_singleton.mp here)),part⟩,none⟩

theorem lacking_step (long : ∀ q ∈ page :: pages, q.length = depth+1)
    (known : ∀ q, q.length ≤ depth → ((walk view T' root q).isSome ↔ (walk view T root q).isSome ∨ q <+: page)) :
    (lacking T root (page :: pages)).card = missing T root page+(lacking T' root pages).card := by
  have short : ∀ r ∈ page :: pages, ∀ n < r.length, (r.take n).length ≤ depth := by
    intro r member n bound
    have := long r member
    rw [length_take]
    omega
  have none_iff : ∀ q, q.length ≤ depth → (walk view T' root q = none ↔ walk view T root q = none ∧ ¬ q <+: page) := by
    intro q bound
    rw [← Option.not_isSome_iff_eq_none,← Option.not_isSome_iff_eq_none,known q bound,not_or]
  have union : lacking T root (page :: pages) = lacking T root [page] ∪ lacking T' root pages := by
    ext q
    simp only [Finset.mem_union,mem_lacking,mem_cons,not_mem_nil,or_false,exists_eq_left]
    constructor
    · rintro ⟨⟨r,rfl | member,n,bound,rfl⟩,none⟩
      · exact Or.inl ⟨⟨n,bound,rfl⟩,none⟩
      · have fits := short r (mem_cons_of_mem _ member) n bound
        by_cases within : r.take n <+: page
        · refine Or.inl ⟨⟨(r.take n).length,?_,(prefix_iff_eq_take.mp within).symm⟩,none⟩
          have := long page mem_cons_self
          omega
        · exact Or.inr ⟨⟨r,member,n,bound,rfl⟩,(none_iff _ fits).mpr ⟨none,within⟩⟩
    · rintro (⟨⟨n,bound,rfl⟩,none⟩ | ⟨⟨r,member,n,bound,rfl⟩,none⟩)
      · exact ⟨⟨page,Or.inl rfl,n,bound,rfl⟩,none⟩
      · exact ⟨⟨r,Or.inr member,n,bound,rfl⟩,((none_iff _ (short r (mem_cons_of_mem _ member) n bound)).mp none).1⟩
  have apart : Disjoint (lacking T root [page]) (lacking T' root pages) := by
    rw [Finset.disjoint_left]
    intro q first second
    obtain ⟨⟨r,member,n,bound,rfl⟩,_⟩ := mem_lacking.mp first
    rw [mem_singleton] at member
    subst member
    have := (none_iff _ (short r mem_cons_self n bound)).mp (mem_lacking.mp second).2
    exact this.2 ( take_prefix n r)
  rw [union,Finset.card_union_of_disjoint apart,missing_lacking]

structure Backs (above flags : Flags) (T : Tables) (root depth : ℕ) (page : List ℕ) (frame : ℕ) : Prop where
  long : page.length = depth+1
  shows : target view T root page = some (frame,0)
  entries : ∃ parents, trail view T root page = parents ++ [entry frame flags] ∧ parents.length = depth ∧
    ∀ e ∈ parents, has e above = true

theorem Outcome.done (outcome : Outcome above flags T T' root depth frame pending page (.ok ()) k) (long : page.length = depth+1) :
    k = missing T root page ∧ target view T root page = none ∧ Backs above flags T' root depth page frame ∧
      ∀ q, q.length ≤ depth → ((walk view T' root q).isSome ↔ (walk view T root q).isSome ∨ q <+: page) := by
  cases outcome with
  | mapped parents empty _ meaning entries held deep known => exact ⟨rfl,empty,⟨long,meaning,parents,entries,deep,held⟩,known⟩

theorem Backs.translates (backs : Backs above flags T root 3 (path virt) frame) (aligned : frame % 4096 = 0) :
    translate T root virt = some (frame+virt % 4096) := by
  rw [translate,backs.shows]
  simp [aligned]

section rights
variable (backs : Backs above flags T root depth page frame) (aligned : frame % 4096 = 0) (small : frame < 2^52)
include backs aligned small

theorem Backs.writes (parents : has above WRITABLE = true) (own : has flags WRITABLE = true) :
    writable (trail view T root page) = true := by
  obtain ⟨_,entries,_,held⟩ := backs.entries
  rw [writable,entries,all_append,Bool.and_eq_true,all_eq_true]
  refine ⟨fun e member => has_sub (held e member) parents,?_⟩
  rw [all_cons,all_nil,Bool.and_true,has_entry aligned small (by decide)]
  exact own

theorem Backs.guarded (own : has flags NO_EXECUTE = true) : executable (trail view T root page) = false := by
  obtain ⟨_,entries,_,_⟩ := backs.entries
  rw [executable,entries,all_append,all_cons,has_entry aligned small (by decide),own]
  simp

theorem Backs.supervised (own : has flags USER_ACCESSIBLE = false) : userAccessible (trail view T root page) = false := by
  obtain ⟨_,entries,_,_⟩ := backs.entries
  rw [userAccessible,entries,all_append,all_cons,has_entry aligned small (by decide),own]
  simp

end rights

theorem Backs.grown (backs : Backs above flags T root depth page frame) (held : has flags above = true)
    (grown : Grown above T T' root depth taken changed) : Backs above flags T' root depth page frame := by
  obtain ⟨parents,trail_eq,count,each⟩ := backs.entries
  have mapped : target view T root page ≠ none := by
    rw [backs.shows]
    exact Option.some_ne_none _
  have beside : page ∉ changed := fun member => mapped (grown.vacant page member).2
  have whole : ∀ e ∈ trail view T root page, has e above = true := by
    intro e member
    rw [trail_eq,mem_append,mem_singleton] at member
    rcases member with earlier | rfl
    · exact each e earlier
    · rw [entry,BitVec.or_comm]
      exact has_or held
  have same := trails_held (grown.trails page backs.long mapped) whole
  exact ⟨backs.long,(grown.targets page backs.long beside).trans backs.shows,parents,same.trans trail_eq,count,each⟩

-- What the documentation of the crate says, for tables in order within reach of the mapper. `map_to` takes a frame for every table
-- that is missing from its allocator and from nowhere else, sets the flags of parents, maps the page it is given and no other,
-- and refuses for one of its three reasons; `translate_addr` says what the processor finds.
structure Paging.Documented (x86 : Paging ε) (limit : ℕ) : Prop where
  new : ∀ virt, Canonical virt → x86.virtAddrNew virt = .ok virt
  add : ∀ virt offset, Canonical (virt+offset) → x86.virtAddrAdd virt offset = .ok (virt+offset)
  range : ∀ first left, first % 4096 = 0 → 2^64-2^47 ≤ first → first+4096*left < 2^64 →
    x86.rangeInclusive first (first+4096*left) = (pagesFrom first (left+1)).map .ok
  map : ∀ {α : Type} {allocate : α → Except ε (Option ℕ × α)} {stock : α → List ℕ → Prop}, Supplies allocate stock →
    ∀ {flags : Flags}, PageFlags flags → PageFlags (parentFlags flags) → ∀ {frame : ℕ}, frame % 4096 = 0 → frame < 2^52 →
    ∀ {T : Tables} {root : ℕ} {pending : List ℕ} {s : α}, Intact T root 3 limit pending → stock s pending → ∀ virt,
    ∃ result T' s' k, x86.mapTo allocate root virt frame flags T s = .ok (result,T',s') ∧
      Mapped stock (parentFlags flags) flags T T' root 3 limit frame pending (path virt) result s' k
  translates : ∀ {T : Tables} {root : ℕ} {pending : List ℕ}, Intact T root 3 limit pending → ∀ virt,
    (∀ b n, target view T root (path virt) = some (b,n) → n < 3) → x86.translateAddr T root virt = .ok (translate T root virt)

end PageTables
