import RustyCore.ClockPromotion

namespace RustyCore.ClockPromotion

def Event.apicValue : Event → Option ℕ
  | .readApic value => some value
  | _ => none

def GateRead (events : List Event) : Prop :=
  (∃ v, SOAK_TICKS_EACH ≤ v ∧ .readTimer v ∈ events) ∧ ∃ v, SOAK_TICKS_EACH ≤ v ∧ .readApic v ∈ events

def Proven (trace : List Event) : Prop := ∃ before after base later, trace = before ++ .promote :: after ∧
  after.filterMap Event.apicValue = base :: later ∧ ∃ v ∈ later, base+SOAK_TICKS_EACH ≤ v

structure GateKept (r : Ending × Machine) : Prop where
  promoted : ∀ before after, r.2.trace = before ++ .promote :: after → GateRead before
  entered : r.1 = .scheduler → Proven r.2.trace
  halted : ¬ Proven r.2.trace → r.1 ≠ .scheduler ∧ (r.1 = .halted → r.2.irq0Masked = false)

-- `last_apic` of the watch after `k` more loads, from the load `start` on.
def shown (t : TickStreams) (start last : ℕ) : ℕ → ℕ
  | 0 => last
  | k+1 => shown t (start+1) (if last+20 ≤ t.apicTicks start then t.apicTicks start else last) k

-- The LAPIC clock stalls: the promotion went through, and no load of the watch reaches the
-- gate before the guard. With overflow checks the watch must also get that far.
def Stalls (p : Profile) (b : BringUp) (t : TickStreams) : Prop := ∃ m, beforeWatch p b t = .ok m ∧
  (∀ k ≤ SOAK_SPIN_GUARD, t.apicTicks (m.apicReads+1+k) < t.apicTicks m.apicReads+SOAK_TICKS_EACH) ∧
  (p = .dev → ∀ k ≤ SOAK_SPIN_GUARD, shown t (m.apicReads+1) (t.apicTicks m.apicReads) k+20 < 2^64)

def Watched (m m' : Machine) (values : List ℕ) : Prop :=
  ∃ added, m'.trace = m.trace ++ added ∧ .promote ∉ added ∧ added.filterMap Event.apicValue = values

structure Quiet (m m' : Machine) : Prop where
  masks : m'.masks = m.masks
  trace : ∃ values, Watched m m' values

def RolledBack (m : Machine) : Prop := m.trace.getLast? = some (.line .pitMasterAgain) ∧ m.irq0Masked = false

section sequence
variable {p : Profile} {b : BringUp} {t : TickStreams} {m m' m'' : Machine}

theorem watched_refl (m : Machine) : Watched m m [] := ⟨[],(List.append_nil _).symm,List.not_mem_nil,rfl⟩

theorem watched_trans (first : Watched m m' values) (second : Watched m' m'' values') : Watched m m'' (values ++ values') := by
  obtain ⟨added,trace,silent,reads⟩ := first
  obtain ⟨added',trace',silent',reads'⟩ := second
  refine ⟨added ++ added',by rw [trace',trace,List.append_assoc],?_,by rw [List.filterMap_append,reads,reads']⟩
  rw [List.mem_append]
  exact fun either => either.elim silent silent'

theorem watched_say (m : Machine) (line : Line) : Watched m (m.say line) [] := ⟨_,rfl,by simp,rfl⟩

theorem watched_timer (t : TickStreams) (m : Machine) : Watched m (m.loadTimer t).2 [] := ⟨_,rfl,by simp,rfl⟩

theorem watched_apic (t : TickStreams) (m : Machine) : Watched m (m.loadApic t).2 [t.apicTicks m.apicReads] :=
  ⟨_,rfl,by simp,rfl⟩

theorem quiet_trans (first : Quiet m m') (second : Quiet m' m'') : Quiet m m'' := by
  obtain ⟨_,earlier⟩ := first.trace
  obtain ⟨_,later⟩ := second.trace
  exact ⟨second.masks.trans first.masks,_,watched_trans earlier later⟩

theorem quiet_say (m : Machine) (line : Line) : Quiet m (m.say line) := ⟨rfl,_,watched_say m line⟩

theorem quiet_loads (t : TickStreams) (m : Machine) : Quiet m ((m.loadTimer t).2.loadApic t).2 :=
  ⟨rfl,_,watched_trans (watched_timer t m) (watched_apic t _)⟩

theorem soak_pass (left lastPic lastApic : ℕ) : ∃ m', Quiet m m' ∧
    (soak p t left lastPic lastApic m = .ok m' ∨
     (∃ fault, soak p t left lastPic lastApic m = .error (.panicked fault,m')) ∨
     soak p t left lastPic lastApic m = .error (.halted,m') ∨
     ∃ rest lastPic' lastApic', rest < left ∧ soak p t left lastPic lastApic m = soak p t rest lastPic' lastApic' m') := by
  have loads := quiet_loads t m
  rw [soak.eq_def]
  cases moved : progress p (m.loadTimer t).1 ((m.loadTimer t).2.loadApic t).1 lastPic lastApic with
  | error fault =>
      simp only [moved,checked]
      exact ⟨_,loads,Or.inr (Or.inl ⟨fault,rfl⟩)⟩
  | ok told =>
      simp only [moved,checked,ok_bind]
      -- The progress line does not change what comes next.
      obtain ⟨m₁,lp,la,same,quiet⟩ : ∃ m₁ lp la, (if told = true then ((m.loadTimer t).1,((m.loadTimer t).2.loadApic t).1,
          ((m.loadTimer t).2.loadApic t).2.say (.tick (m.loadTimer t).1 ((m.loadTimer t).2.loadApic t).1))
          else (lastPic,lastApic,((m.loadTimer t).2.loadApic t).2)) = (lp,la,m₁) ∧ Quiet m m₁ := by
        cases told
        · exact ⟨_,_,_,rfl,loads⟩
        · exact ⟨_,_,_,rfl,quiet_trans loads (quiet_say _ _)⟩
      rw [same]
      dsimp only
      split
      · exact ⟨m₁,quiet,Or.inl rfl⟩
      · split
        · exact ⟨_,quiet_trans quiet (quiet_say _ _),Or.inl rfl⟩
        · split
          · exact ⟨_,quiet_trans quiet (quiet_say _ _),Or.inl rfl⟩
          · cases left with
            | zero => exact ⟨_,quiet_trans quiet (quiet_say _ _),Or.inr (Or.inr (Or.inl rfl))⟩
            | succ rest => exact ⟨m₁,quiet,Or.inr (Or.inr (Or.inr ⟨rest,lp,la,Nat.lt_succ_self rest,rfl⟩))⟩

def Ends (x : Flow Machine) (next : Machine → Prop) (ended : Ending → Machine → Prop) : Prop :=
  match x with
  | .ok m => next m
  | .error (ending,m) => ended ending m

theorem soak_quiet (left lastPic lastApic : ℕ) :
    Ends (soak p t left lastPic lastApic m) (Quiet m) fun ending m' => Quiet m m' ∧ ending ≠ .scheduler := by
  induction left using Nat.strong_induction_on generalizing lastPic lastApic m with
  | _ left ih =>
      obtain ⟨m',quiet,done | ⟨fault,done⟩ | done | ⟨rest,pic,apic,less,again⟩⟩ :=
        soak_pass (p:=p) (t:=t) (m:=m) left lastPic lastApic
      · rw [done]
        exact quiet
      · rw [done]
        exact ⟨quiet,nofun⟩
      · rw [done]
        exact ⟨quiet,nofun⟩
      · rw [again]
        have later := @ih rest less m' pic apic
        revert later
        cases soak p t rest pic apic m' with
        | ok end_ => exact fun later => quiet_trans quiet later
        | error ended => exact fun later => ⟨quiet_trans quiet later.1,later.2⟩

theorem gateCheck_quiet (m : Machine) : Ends (gateCheck t m) (fun m' => Quiet m m' ∧ GateRead m'.trace)
    fun ending m' => Quiet m m' ∧ ending ≠ .scheduler := by
  have loads := quiet_loads t m
  unfold gateCheck
  dsimp only
  split
  · exact ⟨quiet_trans loads (quiet_say _ _),nofun⟩
  · next gate =>
      rw [not_or,Nat.not_lt,Nat.not_lt] at gate
      refine ⟨loads,⟨_,gate.1,?_⟩,_,gate.2,?_⟩
      · simp [Machine.loadTimer,Machine.loadApic]
      · simp [Machine.loadTimer,Machine.loadApic]

structure Promoted (m : Machine) (values : List ℕ) : Prop where
  split : ∃ before after, m.trace = before ++ .promote :: after ∧ .promote ∉ before ∧ .promote ∉ after ∧ GateRead before ∧
    after.filterMap Event.apicValue = values

theorem promoted_later (promoted : Promoted m values) (watched : Watched m m' values') : Promoted m' (values ++ values') := by
  obtain ⟨before,after,trace,first,once,gate,reads⟩ := promoted.split
  obtain ⟨added,grown,silent,more⟩ := watched
  refine ⟨before,after ++ added,by rw [grown,trace,List.append_assoc]; rfl,first,?_,gate,by rw [List.filterMap_append,reads,more]⟩
  rw [List.mem_append]
  exact fun either => either.elim once silent

theorem promoted_unique (promoted : Promoted m values) (trace : m.trace = before ++ .promote :: after) :
    GateRead before ∧ after.filterMap Event.apicValue = values := by
  obtain ⟨before',after',trace',first,once,gate,reads⟩ := promoted.split
  obtain ⟨rfl,_,rfl⟩ := (List.append_cons_inj_of_notMem first once).mp (trace'.symm.trans trace)
  exact ⟨gate,reads⟩

theorem promoted_proven (promoted : Promoted m (base :: later)) :
    Proven m.trace ↔ ∃ v ∈ later, base+SOAK_TICKS_EACH ≤ v := by
  constructor
  · rintro ⟨before,after,base',later',trace,reads,reached⟩
    obtain ⟨_,equal⟩ := promoted_unique promoted trace
    cases equal.symm.trans reads
    exact reached
  · intro reached
    obtain ⟨before,after,trace,_,_,_,reads⟩ := promoted.split
    exact ⟨before,after,base,later,trace,reads,reached⟩

theorem quiet_silent (quiet : Quiet Machine.start m) : .promote ∉ m.trace := by
  obtain ⟨_,added,trace,silent,_⟩ := quiet.trace
  rw [trace]
  exact silent

theorem beforeWatch_ends : Ends (beforeWatch p b t) (fun m => Promoted m [])
    fun ending m => ending ≠ .scheduler ∧ (Quiet Machine.start m ∨ ending ≠ .halted ∧ Promoted m []) := by
  unfold beforeWatch
  have soaked := @soak_quiet p t Machine.start SOAK_SPIN_GUARD 0 0
  revert soaked
  cases soak p t SOAK_SPIN_GUARD 0 0 Machine.start with
  | error ended => exact fun ⟨quiet,ending⟩ => ⟨ending,Or.inl quiet⟩
  | ok m₁ =>
      intro quiet
      rw [ok_bind]
      have checks := @gateCheck_quiet t (m₁.say (.soakDone b.spuriousHits))
      revert checks
      cases gateCheck t (m₁.say (.soakDone b.spuriousHits)) with
      | error ended => exact fun ⟨later,ending⟩ => ⟨ending,Or.inl (quiet_trans (quiet_trans quiet (quiet_say _ _)) later)⟩
      | ok m₂ =>
          rintro ⟨later,gate⟩
          rw [ok_bind]
          have silent := quiet_silent (quiet_trans (quiet_trans quiet (quiet_say _ _)) later)
          have called : Promoted {m₂ with trace := m₂.trace ++ [.promote]} [] :=
            ⟨m₂.trace,[],rfl,silent,List.not_mem_nil,gate,rfl⟩
          unfold callPromote promote
          dsimp only
          split
          · next m₃ done =>
              split at done
              · cases done
              · split at done
                · cases done
                · cases done
                  exact promoted_later called ⟨[.line .promoted,.line .promotionWatch],by simp [Machine.say],by simp,rfl⟩
          · exact ⟨nofun,Or.inr ⟨nofun,called⟩⟩

theorem showTick_cases (last : ℕ) (below : base ≤ apic) :
    (p = .dev ∧ 2^64 ≤ last+20 ∧ ∃ fault, showTick p base apic last m = .error (.panicked fault,m)) ∨
    ((p = .dev → last+20 < 2^64) ∧ ∃ last' m', showTick p base apic last m = .ok (last',m') ∧ Watched m m' [] ∧
      m'.apicReads = m.apicReads ∧ (p = .dev → last' = if last+20 ≤ apic then apic else last)) := by
  have difference : p.sub apic base = .ok (apic-base) := Profile.sub_small below
  unfold showTick
  cases limit : p.add last 20 with
  | error fault =>
      obtain ⟨dev,large⟩ := Profile.add_overflow limit
      exact Or.inl ⟨dev,large,fault,rfl⟩
  | ok next =>
      have sum : p = .dev → last+20 < 2^64 ∧ next = last+20 := fun dev => Profile.add_checked (dev ▸ limit)
      refine Or.inr ⟨fun dev => (sum dev).1,?_⟩
      simp only [checked,ok_bind,difference]
      split
      · next reached => exact ⟨apic,_,rfl,watched_say m _,rfl,fun dev => by rw [← (sum dev).2,if_pos reached]⟩
      · next early => exact ⟨last,m,rfl,watched_refl m,rfl,fun dev => by rw [← (sum dev).2,if_neg early]⟩

theorem rollback_said (m : Machine) (gained : ℕ) :
    Watched m ((rollbackToPit (m.say (.lapicStalled gained))).say .pitMasterAgain) [] ∧
      RolledBack ((rollbackToPit (m.say (.lapicStalled gained))).say .pitMasterAgain) := by
  constructor
  · refine ⟨[.line (.lapicStalled gained),.line .rolledBack,.line .pitMasterAgain],?_,by simp,rfl⟩
    simp [rollbackToPit,Machine.say]
  · refine ⟨List.getLast?_concat,?_⟩
    simp [Machine.irq0Masked,rollbackToPit,Machine.say]

theorem watch_pass (left last : ℕ) (below : base ≤ t.apicTicks m.apicReads) :
    ∃ m', Watched m m' [t.apicTicks m.apicReads] ∧ m'.apicReads = m.apicReads+1 ∧
      ((p = .dev ∧ 2^64 ≤ last+20 ∧ ∃ fault, watch p t base left last m = .error (.panicked fault,m')) ∨
       (base+SOAK_TICKS_EACH ≤ t.apicTicks m.apicReads ∧ watch p t base left last m = .ok m') ∨
       (t.apicTicks m.apicReads < base+SOAK_TICKS_EACH ∧ (p = .dev → last+20 < 2^64) ∧
         ((left = 0 ∧ watch p t base left last m = .ok m' ∧ RolledBack m') ∨ ∃ rest last', left = rest+1 ∧
           (p = .dev → last' = if last+20 ≤ t.apicTicks m.apicReads then t.apicTicks m.apicReads else last) ∧
           watch p t base left last m = watch p t base rest last' m'))) := by
  have load := watched_apic t m
  have difference : p.sub (m.loadApic t).1 base = .ok ((m.loadApic t).1-base) := Profile.sub_small below
  rw [watch.eq_def]
  dsimp only
  rcases showTick_cases (m:=(m.loadApic t).2) (p:=p) last below with
    ⟨dev,large,fault,failed⟩ | ⟨fits,last',m₁,done,silent,reads,told⟩
  · refine ⟨_,load,rfl,Or.inl ⟨dev,large,fault,?_⟩⟩
    rw [show (m.loadApic t).1 = t.apicTicks m.apicReads from rfl,failed]
    rfl
  · have watched : Watched m m₁ [t.apicTicks m.apicReads] := watched_trans load silent
    have index : m₁.apicReads = m.apicReads+1 := reads
    rw [show showTick p base (m.loadApic t).1 last (m.loadApic t).2 = .ok (last',m₁) from done,ok_bind]
    dsimp only
    rw [difference]
    simp only [checked,ok_bind,show (m.loadApic t).1 = t.apicTicks m.apicReads from rfl]
    split
    · next gained =>
        refine ⟨_,watched_trans watched (watched_trans (watched_timer t m₁) (watched_say _ _)),index,Or.inr (Or.inl ⟨?_,rfl⟩)⟩
        omega
    · next short =>
        have small : t.apicTicks m.apicReads < base+SOAK_TICKS_EACH := by omega
        cases left with
        | zero =>
            obtain ⟨rolled,masks⟩ := rollback_said m₁ (t.apicTicks m.apicReads-base)
            exact ⟨_,watched_trans watched rolled,index,Or.inr (Or.inr ⟨small,fits,Or.inl ⟨rfl,rfl,masks⟩⟩)⟩
        | succ rest => exact ⟨m₁,watched,index,Or.inr (Or.inr ⟨small,fits,Or.inr ⟨rest,last',rfl,told,rfl⟩⟩)⟩

-- The whole watch: the clock proves itself, or stalls to the end of the guard, or the
-- overflow check stops the count.
theorem watch_ends (left last : ℕ) (below : base ≤ t.apicTicks m.apicReads) : ∃ m' values, Watched m m' values ∧
    ((watch p t base left last m = .ok m' ∧ ∃ k ≤ left, base+SOAK_TICKS_EACH ≤ t.apicTicks (m.apicReads+k) ∧
        t.apicTicks (m.apicReads+k) ∈ values) ∨
     (watch p t base left last m = .ok m' ∧ RolledBack m' ∧ (∀ v ∈ values, v < base+SOAK_TICKS_EACH) ∧
        (∀ k ≤ left, t.apicTicks (m.apicReads+k) < base+SOAK_TICKS_EACH) ∧
        (p = .dev → ∀ k ≤ left, shown t m.apicReads last k+20 < 2^64)) ∨
     (∃ fault, watch p t base left last m = .error (.panicked fault,m')) ∧ p = .dev ∧
        ∃ k ≤ left, 2^64 ≤ shown t m.apicReads last k+20) := by
  induction left using Nat.strong_induction_on generalizing last m with
  | _ left ih =>
      obtain ⟨m',watched,index,⟨dev,large,failed⟩ | ⟨reached,done⟩ |
        ⟨short,fits,⟨rfl,done,rolled⟩ | ⟨rest,last',rfl,told,again⟩⟩⟩ := watch_pass (p:=p) left last below
      · exact ⟨m',_,watched,Or.inr (Or.inr ⟨failed,dev,0,Nat.zero_le _,large⟩)⟩
      · exact ⟨m',_,watched,Or.inl ⟨done,0,Nat.zero_le _,reached,List.mem_singleton_self _⟩⟩
      · refine ⟨m',_,watched,Or.inr (Or.inl ⟨done,rolled,?_,?_,?_⟩)⟩
        · rw [List.forall_mem_singleton]
          exact short
        · intro k least
          obtain rfl := Nat.le_zero.mp least
          exact short
        · intro dev k least
          obtain rfl := Nat.le_zero.mp least
          exact fits dev
      -- The reads and the shown values of the next pass are those of this one, one further on.
      · have step : ∀ k, m'.apicReads+k = m.apicReads+(k+1) := fun k => by rw [index,Nat.add_assoc,Nat.add_comm 1]
        have onward : base ≤ t.apicTicks m'.apicReads := Nat.le_trans below (t.apic_mono (by rw [index]; exact Nat.le_succ _))
        have later : p = .dev → ∀ k, shown t m'.apicReads last' k = shown t m.apicReads last (k+1) := by
          intro dev k
          rw [index,told dev]
          rfl
        rw [again]
        obtain ⟨m'',values,further,⟨done,k,least,reached,member⟩ | ⟨done,rolled,small,all,fit⟩ | ⟨failed,dev,k,least,large⟩⟩ :=
          ih rest (Nat.lt_succ_self rest) last' onward
        · rw [step] at reached member
          exact ⟨m'',_,watched_trans watched further,
            Or.inl ⟨done,k+1,Nat.succ_le_succ least,reached,List.mem_append_right _ member⟩⟩
        · refine ⟨m'',_,watched_trans watched further,Or.inr (Or.inl ⟨done,rolled,?_,?_,?_⟩)⟩
          · rw [List.forall_mem_append,List.forall_mem_singleton]
            exact ⟨short,small⟩
          · intro k least
            cases k with
            | zero => exact short
            | succ k =>
                rw [← step]
                exact all k (Nat.le_of_succ_le_succ least)
          · intro dev k least
            cases k with
            | zero => exact fits dev
            | succ k =>
                rw [← later dev]
                exact fit dev k (Nat.le_of_succ_le_succ least)
        · rw [later dev] at large
          exact ⟨m'',_,watched_trans watched further,Or.inr (Or.inr ⟨failed,dev,k+1,Nat.succ_le_succ least,large⟩)⟩

theorem kernelMain_watch (found : beforeWatch p b t = .ok m) : kernelMain p b t =
    match watch p t (t.apicTicks m.apicReads) SOAK_SPIN_GUARD (t.apicTicks m.apicReads) (m.loadApic t).2 with
    | .ok m => (.scheduler,m)
    | .error ended => ended := by
  simp only [kernelMain,found,ok_bind]
  rfl

theorem promoted_load (found : beforeWatch p b t = .ok m) : Promoted (m.loadApic t).2 [t.apicTicks m.apicReads] := by
  have before := @beforeWatch_ends p b t
  rw [found] at before
  exact promoted_later before (watched_apic t m)

theorem load_below (t : TickStreams) (m : Machine) : t.apicTicks m.apicReads ≤ t.apicTicks (m.loadApic t).2.apicReads :=
  t.apic_mono (Nat.le_succ _)

theorem stalls_schedules (stalls : Stalls p b t) : (kernelMain p b t).1 = .scheduler ∧ RolledBack (kernelMain p b t).2 ∧
    ¬ Proven (kernelMain p b t).2.trace := by
  obtain ⟨m,found,short,fits⟩ := stalls
  have load := promoted_load found
  rw [kernelMain_watch found]
  obtain ⟨m',values,watched,⟨_,k,least,reached,_⟩ | ⟨done,rolled,small,_,_⟩ | ⟨_,dev,k,least,large⟩⟩ :=
    watch_ends (p:=p) SOAK_SPIN_GUARD (t.apicTicks m.apicReads) (load_below t m)
  · exact absurd reached (Nat.not_le.mpr (short k least))
  · rw [done]
    refine ⟨rfl,rolled,?_⟩
    have proven := promoted_proven (promoted_later load watched)
    rintro proof
    obtain ⟨v,member,reached⟩ := proven.mp proof
    exact absurd reached (Nat.not_le.mpr (small v member))
  · exact absurd large (Nat.not_le.mpr (fits dev k least))

theorem ended_kept (found : beforeWatch p b t = .error ended) : GateKept ended := by
  have before := @beforeWatch_ends p b t
  rw [found] at before
  obtain ⟨ending,quiet | ⟨running,promoted⟩⟩ := before
  · refine ⟨?_,fun entered => absurd entered ending,fun _ => ⟨ending,fun _ => ?_⟩⟩
    · intro before after trace
      refine absurd ?_ (quiet_silent quiet)
      rw [trace]
      exact List.mem_append_right _ List.mem_cons_self
    · rw [Machine.irq0Masked,quiet.masks]
      rfl
  · exact ⟨fun before after trace => (promoted_unique promoted trace).1,fun entered => absurd entered ending,
      fun _ => ⟨ending,fun halted => absurd halted running⟩⟩

theorem watched_kept (found : beforeWatch p b t = .ok m) (steady : ¬ Stalls p b t) : GateKept (kernelMain p b t) := by
  have load := promoted_load found
  rw [kernelMain_watch found]
  obtain ⟨m',values,watched,⟨done,k,_,reached,member⟩ | ⟨_,_,_,short,fits⟩ | ⟨⟨fault,failed⟩,_⟩⟩ :=
    watch_ends (p:=p) SOAK_SPIN_GUARD (t.apicTicks m.apicReads) (load_below t m)
  · rw [done]
    have promoted := promoted_later load watched
    have proven : Proven m'.trace := (promoted_proven promoted).mpr ⟨_,member,reached⟩
    exact ⟨fun before after trace => (promoted_unique promoted trace).1,fun _ => proven,fun unproven => absurd proven unproven⟩
  · exact absurd ⟨m,found,short,fits⟩ steady
  · rw [failed]
    exact ⟨fun before after trace => (promoted_unique (promoted_later load watched) trace).1,nofun,fun _ => ⟨nofun,nofun⟩⟩

theorem promotion_gate (p : Profile) (b : BringUp) (t : TickStreams) : GateKept (kernelMain p b t) ↔ ¬ Stalls p b t := by
  constructor
  · intro kept stalls
    obtain ⟨entered,_,unproven⟩ := stalls_schedules stalls
    exact unproven (kept.entered entered)
  · intro steady
    cases found : beforeWatch p b t with
    | error ended =>
        have kept := ended_kept found
        simp only [kernelMain,found]
        exact kept
    | ok m => exact watched_kept found steady

end sequence

def frozenClocks : TickStreams :=
  ⟨fun _ => 100,fun _ => 100,monotone_const,monotone_const,fun _ => by decide,fun _ => by decide⟩

theorem frozen_shown (start k : ℕ) : shown frozenClocks start 100 k = 100 := by
  induction k generalizing start with
  | zero => rfl
  | succ k ih => exact ih (start+1)

theorem frozen_waits (fuel i : ℕ) : awaitTick frozenClocks 100 fuel i = none := by
  induction fuel generalizing i with
  | zero => rfl
  | succ fuel ih => exact ih (i+1)

theorem frozen_stalls (p : Profile) : Stalls p ⟨1,1,0⟩ frozenClocks := by
  have told : progress p 100 100 0 0 = .ok true := by cases p <;> decide
  have soaked : ∃ m, soak p frozenClocks SOAK_SPIN_GUARD 0 0 Machine.start = .ok m := by
    rw [soak.eq_def]
    exact ⟨_,by simp only [frozenClocks,Machine.loadTimer,Machine.loadApic,told]; rfl⟩
  obtain ⟨m,soaked⟩ := soaked
  refine ⟨_,by rw [beforeWatch,soaked]; rfl,?_,?_⟩
  · intro k _
    show 100 < 100+SOAK_TICKS_EACH
    decide
  · intro _ k _
    show shown frozenClocks _ 100 k+20 < 2^64
    rw [frozen_shown]
    decide

-- The driver then waits for a tick of the clock that it saw stall.
theorem stalled_clock_schedules : (∀ fuel i, awaitTick frozenClocks 100 fuel i = none) ∧
    ∀ p : Profile, (kernelMain p ⟨1,1,0⟩ frozenClocks).1 = .scheduler ∧ RolledBack (kernelMain p ⟨1,1,0⟩ frozenClocks).2 ∧
      ¬ Proven (kernelMain p ⟨1,1,0⟩ frozenClocks).2.trace ∧ ¬ GateKept (kernelMain p ⟨1,1,0⟩ frozenClocks) := by
  refine ⟨frozen_waits,?_⟩
  intro p
  obtain ⟨entered,rolled,unproven⟩ := stalls_schedules (frozen_stalls p)
  exact ⟨entered,rolled,unproven,fun kept => unproven (kept.entered entered)⟩

end RustyCore.ClockPromotion
