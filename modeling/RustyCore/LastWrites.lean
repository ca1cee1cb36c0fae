import Mathlib

namespace LastWrites

def lastSome (f : β → Option γ) (items : List β) : Option γ := items.reverse.findSome? f

theorem lastSome_append (f : β → Option γ) (front items : List β) :
    lastSome f (front ++ items) = (lastSome f items).or (lastSome f front) := by
  simp only [lastSome,List.reverse_append,List.findSome?_append]

theorem lastSome_cons (f : β → Option γ) (item : β) (items : List β) :
    lastSome f (item :: items) = (lastSome f items).or (f item) := by
  rw [← List.singleton_append,lastSome_append]
  rcases found : f item with _ | value <;> simp [lastSome,found]

theorem lastSome_single (f : β → Option γ) (item : β) : lastSome f [item] = f item := by
  rw [lastSome_cons]
  exact Option.none_or

theorem lastSome_congr {f g : β → Option γ} (same : ∀ item ∈ items, f item = g item) : lastSome f items = lastSome g items := by
  induction items with
  | nil => rfl
  | cons item items ih =>
      rw [List.forall_mem_cons] at same
      rw [lastSome_cons,lastSome_cons,same.1,ih same.2]

theorem lastSome_filter {items : List β} {keep : β → Bool} (unused : ∀ item ∈ items, keep item = false → f item = none) :
    lastSome f (items.filter keep) = lastSome f items := by
  induction items with
  | nil => rfl
  | cons item items ih =>
      rw [List.forall_mem_cons] at unused
      rw [lastSome_cons,← ih unused.2]
      by_cases kept : keep item = true
      · rw [List.filter_cons_of_pos kept,lastSome_cons]
      · rw [List.filter_cons_of_neg kept,unused.1 (by simpa using kept),Option.or_none]

theorem findSome_filter {f : β → Option γ} {items : List β} {keep : β → Bool}
    (unused : ∀ item ∈ items, keep item = false → f item = none) :
    (items.filter keep).findSome? f = items.findSome? f := by
  induction items with
  | nil => rfl
  | cons item items ih =>
      rw [List.forall_mem_cons] at unused
      by_cases kept : keep item = true
      · rw [List.filter_cons_of_pos kept,List.findSome?_cons,List.findSome?_cons,ih unused.2]
      · rw [List.filter_cons_of_neg kept,ih unused.2,List.findSome?_cons,unused.1 (by simpa using kept)]

abbrev Store (κ γ : Type*) := κ → Option γ

def Store.overlay (new old : Store κ γ) : Store κ γ := fun name => (new name).or (old name)

-- Every item fails or writes some of the names; the first failure ends the run.
def run (write : β → Except ε (Store κ γ)) (items : List β) (store : Store κ γ) : Except ε (Store κ γ) :=
  items.foldlM (fun store item => (write item).map (·.overlay store)) store

def fault : Except ε α → Option ε
  | .error e => some e
  | .ok _ => none

def firstFault (write : β → Except ε (Store κ γ)) (items : List β) : Option ε := items.findSome? fun item => fault (write item)

def writeOf (write : β → Except ε (Store κ γ)) (name : κ) (item : β) : Option γ := (write item).toOption.bind (· name)

def lastWrite (write : β → Except ε (Store κ γ)) (items : List β) (name : κ) : Option γ := lastSome (writeOf write name) items

theorem firstFault_cons (write : β → Except ε (Store κ γ)) (item : β) (items : List β) :
    firstFault write (item :: items) = (fault (write item)).or (firstFault write items) := by
  rw [firstFault,List.findSome?_cons]
  cases fault (write item) <;> rfl

theorem run_cons (write : β → Except ε (Store κ γ)) (item : β) (items : List β) (store : Store κ γ) :
    run write (item :: items) store = (write item).bind fun new => run write items (new.overlay store) := by
  rw [run,List.foldlM_cons]
  cases write item <;> rfl

theorem run_last (write : β → Except ε (Store κ γ)) (items : List β) (store : Store κ γ) :
    run write items store = match firstFault write items with
      | some e => .error e
      | none => .ok (Store.overlay (lastWrite write items) store) := by
  induction items generalizing store with
  | nil => rfl
  | cons item items ih =>
      rw [run_cons,firstFault_cons]
      cases wrote : write item with
      | error e => rfl
      | ok new =>
          rw [Except.bind,ih,fault,Option.none_or]
          cases firstFault write items with
          | some e => rfl
          | none =>
              refine congrArg Except.ok (funext fun name => ?_)
              simp only [Store.overlay,lastWrite,lastSome_cons,writeOf,wrote,Option.or_assoc]
              rfl

def outcome (bad : Option ε) (store : Store κ γ) : Except ε (Store κ γ) :=
  match bad with
  | some e => .error e
  | none => .ok store

theorem outcome_agree {bad worse : Option ε} {store other : Store κ γ} :
    outcome bad store = outcome worse other ↔ bad = worse ∧ (bad = none → ∀ name, store name = other name) := by
  cases bad <;> cases worse <;> simp [outcome,funext_iff]

theorem run_outcome {write : β → Except ε (Store κ γ)} {bad : β → Option ε} {value : κ → β → Option γ}
    (known : ∀ item, write item = outcome (bad item) fun name => value name item) (items : List β) :
    run write items (fun _ => none) = outcome (items.findSome? bad) fun name => lastSome (value name) items := by
  have faults : (fun item => fault (write item)) = bad := funext fun item => by
    rw [known]
    cases bad item <;> rfl
  rw [run_last,firstFault,faults]
  cases clean : items.findSome? bad with
  | some e => rfl
  | none =>
      refine congrArg Except.ok (funext fun name => ?_)
      rw [Store.overlay,Option.or_none]
      refine lastSome_congr fun item mem => ?_
      rw [writeOf,known,List.findSome?_eq_none_iff.1 clean item mem]
      rfl

end LastWrites
