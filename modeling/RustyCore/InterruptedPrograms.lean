import Mathlib

namespace InterruptedPrograms
open Relation

-- A sequential program of atomic actions on a state. An action may fault; nothing else
-- is said about it, and interrupts may arrive between any two actions.
inductive Prog (σ ε α : Type) : Type 1 where
  | ret (value : α) : Prog σ ε α
  | act {β : Type} (run : σ → Except ε (β × σ)) (next : β → Prog σ ε α) : Prog σ ε α

namespace Prog

def bind : Prog σ ε α → (α → Prog σ ε γ) → Prog σ ε γ
  | .ret value,k => k value
  | .act run next,k => .act run fun b => (next b).bind k

instance : Monad (Prog σ ε) where
  pure := .ret
  bind := bind

theorem bind_ret (p : Prog σ ε α) : p.bind .ret = p := by
  induction p with
  | ret value => rfl
  | act run next ih => simp [bind,ih]

theorem bind_bind (p : Prog σ ε α) (f : α → Prog σ ε β) (g : β → Prog σ ε γ) :
    (p.bind f).bind g = p.bind fun a => (f a).bind g := by
  induction p with
  | ret value => rfl
  | act run next ih => simp [bind,ih]

instance : LawfulMonad (Prog σ ε) :=
  LawfulMonad.mk' (Prog σ ε) (fun p => bind_ret p) (fun _ _ => rfl) (fun p f g => bind_bind p f g)

def perform (run : σ → Except ε (β × σ)) : Prog σ ε β := .act run .ret

def load (f : σ → β) : Prog σ ε β := perform fun s => .ok (f s,s)

def store (f : σ → σ) : Prog σ ε Unit := perform fun s => .ok ((),f s)

def fail (fault : ε) : Prog σ ε α := perform fun _ => .error fault

def alone : Prog σ ε α → σ → Except ε (α × σ)
  | .ret value,s => .ok (value,s)
  | .act run next,s => (run s).bind fun r => (next r.1).alone r.2

theorem alone_bind (p : Prog σ ε α) (k : α → Prog σ ε γ) (s : σ) :
    (p >>= k).alone s = (p.alone s).bind fun r => (k r.1).alone r.2 := by
  induction p generalizing s with
  | ret value => rfl
  | act run next ih =>
      change (run s).bind _ = ((run s).bind _).bind _
      cases run s with
      | error fault => rfl
      | ok r => exact ih r.1 r.2

theorem alone_perform (run : σ → Except ε (β × σ)) (s : σ) : (perform run).alone s = run s := by
  change (run s).bind _ = run s
  cases run s <;> rfl

-- A check of local values: no action of its own when it passes.
def require (holds : Bool) (fault : ε) : Prog σ ε Unit := if holds then .ret () else fail fault

end Prog

section semantics
variable (irq : σ → σ → Prop)

inductive Step : Prog σ ε α × σ → Prog σ ε α × σ → Prop where
  | interrupt : irq s s' → Step (p,s) (p,s')
  | act : run s = .ok (b,s') → Step (.act run next,s) (next b,s')

abbrev Reach : Prog σ ε α × σ → Prog σ ε α × σ → Prop := ReflTransGen (Step irq)

def Returns (p : Prog σ ε α) (s : σ) (value : α) (s' : σ) : Prop := Reach irq (p,s) (.ret value,s')

def Faults (p : Prog σ ε α) (s : σ) (fault : ε) : Prop :=
  ∃ (β : Type) (run : σ → Except ε (β × σ)) (next : β → Prog σ ε α) (s' : σ),
    Reach irq (p,s) (.act run next,s') ∧ run s' = .error fault

-- Every state on the way satisfies `I`, every fault `E`, every result `Q`, whatever
-- interrupts arrive before, between and after the actions.
def Safe (I : σ → Prop) (E : ε → Prop) : Prog σ ε α → (α → σ → Prop) → σ → Prop
  | .ret value,Q,s => ∀ s', ReflTransGen irq s s' → I s' ∧ Q value s'
  | .act run next,Q,s => ∀ s', ReflTransGen irq s s' → I s' ∧ (∀ e, run s' = .error e → E e) ∧
      ∀ b s'', run s' = .ok (b,s'') → Safe I E (next b) Q s''

end semantics

section rules
variable {irq : σ → σ → Prop} {I : σ → Prop} {E : ε → Prop}

theorem safe_interrupted {p : Prog σ ε α} (safe : Safe irq I E p Q s) (later : ReflTransGen irq s s') :
    Safe irq I E p Q s' := by
  cases p with
  | ret value => exact fun s'' more => safe s'' (later.trans more)
  | act run next => exact fun s'' more => safe s'' (later.trans more)

theorem safe_now {p : Prog σ ε α} (safe : Safe irq I E p Q s) : I s := by
  cases p with
  | ret value => exact (safe s .refl).1
  | act run next => exact (safe s .refl).1

theorem safe_step {c c' : Prog σ ε α × σ} (safe : Safe irq I E c.1 Q c.2) (step : Step irq c c') :
    Safe irq I E c'.1 Q c'.2 := by
  cases step with
  | interrupt fired => exact safe_interrupted safe (.single fired)
  | act ran => exact (safe _ .refl).2.2 _ _ ran

theorem safe_reach {c c' : Prog σ ε α × σ} (safe : Safe irq I E c.1 Q c.2) (reach : Reach irq c c') :
    Safe irq I E c'.1 Q c'.2 := by
  induction reach with
  | refl => exact safe
  | tail _ step ih => exact safe_step ih step

theorem safe_state {p p' : Prog σ ε α} (safe : Safe irq I E p Q s) (reach : Reach irq (p,s) (p',s')) : I s' :=
  safe_now (safe_reach safe reach)

theorem safe_returns {p : Prog σ ε α} (safe : Safe irq I E p Q s) (returns : Returns irq p s value s') : Q value s' :=
  (safe_reach safe returns s' .refl).2

theorem safe_faults {p : Prog σ ε α} (safe : Safe irq I E p Q s) (faults : Faults irq p s fault) : E fault := by
  obtain ⟨β,run,next,s',reach,ran⟩ := faults
  exact (safe_reach safe reach s' .refl).2.1 fault ran

theorem interrupts_reach (p : Prog σ ε α) (later : ReflTransGen irq s s') : Reach irq (p,s) (p,s') := by
  induction later with
  | refl => exact .refl
  | tail _ fired ih => exact .tail ih (.interrupt fired)

theorem returns_act {run : σ → Except ε (β × σ)} {next : β → Prog σ ε α} (returns : Returns irq (.act run next) s value s') :
    ∃ mid b after, ReflTransGen irq s mid ∧ run mid = .ok (b,after) ∧ Returns irq (next b) after value s' := by
  unfold Returns at returns
  generalize shape : ((Prog.act run next,s) : Prog σ ε α × σ) = c at returns
  induction returns using ReflTransGen.head_induction_on generalizing s with
  | refl => cases shape
  | head step rest ih =>
      cases step with
      | interrupt fired =>
          cases shape
          obtain ⟨mid,b,after,waits,ran,more⟩ := ih rfl
          exact ⟨mid,b,after,.head fired waits,ran,more⟩
      | act ran =>
          cases shape
          exact ⟨s,_,_,.refl,ran,rest⟩

theorem returns_ret {a value : α} (returns : Returns irq (.ret a : Prog σ ε α) s value s') : a = value ∧ ReflTransGen irq s s' := by
  unfold Returns at returns
  generalize shape : ((Prog.ret a,s) : Prog σ ε α × σ) = c at returns
  induction returns using ReflTransGen.head_induction_on generalizing s with
  | refl =>
      cases shape
      exact ⟨rfl,.refl⟩
  | head step rest ih =>
      cases step with
      | interrupt fired =>
          cases shape
          obtain ⟨same,later⟩ := ih rfl
          exact ⟨same,.head fired later⟩
      | act ran => cases shape

theorem returns_bind {p : Prog σ ε α} {k : α → Prog σ ε γ} (returns : Returns irq (p >>= k) s value s') :
    ∃ a mid, Returns irq p s a mid ∧ Returns irq (k a) mid value s' := by
  induction p generalizing s with
  | ret a => exact ⟨a,s,.refl,returns⟩
  | act run next ih =>
      obtain ⟨mid,b,after,waits,ran,rest⟩ := returns_act returns
      obtain ⟨a,last,first,second⟩ := ih b rest
      exact ⟨a,last,(interrupts_reach _ waits).trans (.head (.act ran) first),second⟩

theorem reach_bind {c c' : Prog σ ε α × σ} (k : α → Prog σ ε γ) (reach : Reach irq c c') :
    Reach irq (c.1 >>= k,c.2) (c'.1 >>= k,c'.2) := by
  induction reach with
  | refl => exact .refl
  | tail _ step ih =>
      cases step with
      | interrupt fired => exact .tail ih (.interrupt fired)
      | act ran => exact .tail ih (.act ran)

theorem bind_returns {p : Prog σ ε α} {k : α → Prog σ ε γ} (first : Returns irq p s a mid)
    (second : Returns irq (k a) mid value s') : Returns irq (p >>= k) s value s' :=
  (reach_bind k first).trans second

theorem returns_or_faults (p : Prog σ ε α) (s : σ) : (∃ value s', Returns irq p s value s') ∨ ∃ fault, Faults irq p s fault := by
  induction p generalizing s with
  | ret value => exact Or.inl ⟨value,s,.refl⟩
  | act run next ih =>
      cases ran : run s with
      | error fault => exact Or.inr ⟨fault,_,run,next,s,.refl,ran⟩
      | ok result =>
          have step : Step irq (.act run next,s) (next result.1,result.2) := .act ran
          rcases ih result.1 result.2 with ⟨value,s',returns⟩ | ⟨fault,β,run',next',s',reach,failed⟩
          · exact Or.inl ⟨value,s',.head step returns⟩
          · exact Or.inr ⟨fault,β,run',next',s',.head step reach,failed⟩

theorem safe_progress {p : Prog σ ε α} (safe : Safe irq I (fun _ => False) p Q s) : ∃ value s', Returns irq p s value s' := by
  rcases (returns_or_faults p s : (∃ value s', Returns irq p s value s') ∨ _) with returns | ⟨fault,faults⟩
  · exact returns
  · exact absurd (safe_faults safe faults) id

theorem returns_load {f : σ → β} {k : β → Prog σ ε α} (rest : Returns irq (k (f s)) s value s') :
    Returns irq (Prog.load f >>= k) s value s' :=
  .head (.act rfl) rest

theorem load_returns {f : σ → β} {k : β → Prog σ ε α} (returns : Returns irq (Prog.load f >>= k) s value s') :
    ∃ mid, ReflTransGen irq s mid ∧ Returns irq (k (f mid)) mid value s' := by
  obtain ⟨mid,b,after,waits,ran,rest⟩ := returns_act returns
  cases ran
  exact ⟨mid,waits,rest⟩

theorem store_returns {f : σ → σ} {k : Unit → Prog σ ε α} (returns : Returns irq (Prog.store f >>= k) s value s') :
    ∃ mid, ReflTransGen irq s mid ∧ Returns irq (k ()) (f mid) value s' := by
  obtain ⟨mid,b,after,waits,ran,rest⟩ := returns_act returns
  cases ran
  exact ⟨mid,waits,rest⟩

theorem fail_returns {fault : ε} (returns : Returns irq (Prog.fail fault : Prog σ ε α) s value s') : False := by
  obtain ⟨_,_,_,_,ran,_⟩ := returns_act returns
  cases ran

theorem safe_post {p : Prog σ ε α} (safe : Safe irq I E p Q s) (weaker : ∀ a s, Q a s → Q' a s) : Safe irq I E p Q' s := by
  induction p generalizing s with
  | ret value =>
      intro s' later
      exact ⟨(safe s' later).1,weaker value s' (safe s' later).2⟩
  | act run next ih =>
      intro s' later
      obtain ⟨inv,faults,rest⟩ := safe s' later
      exact ⟨inv,faults,fun b s'' ran => ih b (rest b s'' ran)⟩

theorem safe_map {p : Prog σ ε α} (f : α → γ) (safe : Safe irq I E p Q s) (weaker : ∀ a s, Q a s → Q' (f a) s) :
    Safe irq I E (p >>= fun a => .ret (f a)) Q' s := by
  induction p generalizing s with
  | ret value =>
      intro s' later
      exact ⟨(safe s' later).1,weaker value s' (safe s' later).2⟩
  | act run next ih =>
      intro s' later
      obtain ⟨inv,faults,rest⟩ := safe s' later
      exact ⟨inv,faults,fun b s'' ran => ih b (rest b s'' ran)⟩

theorem safe_bind {p : Prog σ ε α} {k : α → Prog σ ε γ}
    (safe : Safe irq I E p (fun a s => Safe irq I E (k a) Q s) s) : Safe irq I E (p >>= k) Q s := by
  induction p generalizing s with
  | ret value => exact (safe s .refl).2
  | act run next ih =>
      intro s' later
      obtain ⟨inv,faults,rest⟩ := safe s' later
      exact ⟨inv,faults,fun b s'' ran => ih b (rest b s'' ran)⟩

theorem safe_then {p : Prog σ ε α} {k : α → Prog σ ε γ} (first : Safe irq I E p P s)
    (next : ∀ a s, P a s → Safe irq I E (k a) Q s) : Safe irq I E (p >>= k) Q s :=
  safe_bind (safe_post first next)

theorem stable_later {P : σ → Prop} (stable : ∀ s s', P s → irq s s' → P s') (now : P s) (later : ReflTransGen irq s s') :
    P s' := by
  induction later with
  | refl => exact now
  | tail _ fired ih => exact stable _ _ ih fired

-- The outline rules: an assertion that interrupts keep holds whenever the action runs.
section outline
variable {P : σ → Prop} {Q : α → σ → Prop} (stable : ∀ s s', P s → irq s s' → P s') (inv : ∀ s, P s → I s)
include stable inv

theorem safe_ret (now : P s) (post : ∀ s, P s → Q value s) : Safe irq I E (.ret value : Prog σ ε α) Q s := by
  intro s' later
  have kept := stable_later stable now later
  exact ⟨inv s' kept,post s' kept⟩

theorem safe_perform {run : σ → Except ε (β × σ)} {k : β → Prog σ ε α} (now : P s)
    (faults : ∀ s e, P s → run s = .error e → E e)
    (next : ∀ s b s', P s → run s = .ok (b,s') → Safe irq I E (k b) Q s') :
    Safe irq I E (Prog.perform run >>= k) Q s := by
  intro s' later
  have kept := stable_later stable now later
  exact ⟨inv s' kept,fun e failed => faults s' e kept failed,fun b s'' ran => next s' b s'' kept ran⟩

theorem safe_load {f : σ → β} {k : β → Prog σ ε α} (now : P s) (next : ∀ s, P s → Safe irq I E (k (f s)) Q s) :
    Safe irq I E (Prog.load f >>= k) Q s := by
  refine safe_perform stable inv now (fun _ _ _ failed => by cases failed) ?_
  intro s b s' kept ran
  cases ran
  exact next s kept

theorem safe_store {f : σ → σ} {k : Unit → Prog σ ε α} (now : P s) (next : ∀ s, P s → Safe irq I E (k ()) Q (f s)) :
    Safe irq I E (Prog.store f >>= k) Q s := by
  refine safe_perform stable inv now (fun _ _ _ failed => by cases failed) ?_
  intro s b s' kept ran
  cases ran
  exact next s kept

theorem safe_fail (now : P s) (expected : E fault) : Safe irq I E (Prog.fail fault : Prog σ ε α) Q s := by
  intro s' later
  refine ⟨inv s' (stable_later stable now later),?_,?_⟩
  · intro e failed
    cases failed
    exact expected
  · intro b s'' ran
    cases ran

theorem safe_require {k : Unit → Prog σ ε α} (now : P s) (expected : holds = false → E fault)
    (next : holds = true → Safe irq I E (k ()) Q s) : Safe irq I E (Prog.require holds fault >>= k) Q s := by
  cases holds with
  | true => exact next rfl
  | false => exact safe_bind (safe_fail stable inv now (expected rfl))

end outline
end rules

def drive (fire : ι → σ → Option σ) : Prog σ ε α → List (List ι) → σ → Option (Prog σ ε α × σ)
  | .act run next,inputs :: schedule,s =>
    (inputs.foldlM (fun s i => fire i s) s).bind fun s' =>
      match run s' with
      | .error _ => none
      | .ok (b,s'') => drive fire (next b) schedule s''
  | p,_,s => some (p,s)

def returned : Prog σ ε α × σ → Option (α × σ)
  | (.ret value,s) => some (value,s)
  | _ => none

section drive
variable {irq : σ → σ → Prop} {fire : ι → σ → Option σ} (sound : ∀ i s s', fire i s = some s' → irq s s')
include sound

theorem fired_waits (p : Prog σ ε α) (ran : List.foldlM (fun s i => fire i s) s inputs = some s') : Reach irq (p,s) (p,s') := by
  induction inputs generalizing s with
  | nil => cases ran; exact .refl
  | cons i inputs ih =>
      rw [List.foldlM_cons] at ran
      obtain ⟨mid,fired,rest⟩ := Option.bind_eq_some_iff.mp ran
      exact .head (.interrupt (sound i s mid fired)) (ih rest)

theorem drive_reach {p : Prog σ ε α} (driven : drive fire p schedule s = some c) : Reach irq (p,s) c := by
  induction schedule generalizing p s with
  | nil =>
      cases p <;> cases driven <;> exact .refl
  | cons inputs schedule ih =>
      cases p with
      | ret value =>
          cases driven
          exact .refl
      | act run next =>
          rw [drive] at driven
          obtain ⟨mid,delivered,rest⟩ := Option.bind_eq_some_iff.mp driven
          split at rest
          · cases rest
          · rename_i b after ran
            exact .trans (.tail (fired_waits sound _ delivered) (.act ran)) (ih rest)

theorem drive_returns {p : Prog σ ε α} (driven : (drive fire p schedule s).bind returned = some (value,s')) :
    Returns irq p s value s' := by
  obtain ⟨⟨rest,t⟩,ran,ended⟩ := Option.bind_eq_some_iff.mp driven
  cases rest with
  | ret result =>
      cases ended
      exact drive_reach sound ran
  | act run next => cases ended

end drive

def press (fire : σ → Option σ) : ℕ → Prog σ ε α → σ → Option (α × σ)
  | 0,_,_ => none
  | _+1,.ret value,s => some (value,s)
  | fuel+1,.act run next,s =>
    match run ((fire s).getD s) with
    | .error _ => none
    | .ok (b,s') => press fire fuel (next b) s'

theorem press_returns {irq : σ → σ → Prop} {fire : σ → Option σ} (sound : ∀ s s', fire s = some s' → irq s s') {p : Prog σ ε α}
    (pressed : press fire fuel p s = some (value,s')) : Returns irq p s value s' := by
  induction fuel generalizing p s with
  | zero => cases pressed
  | succ fuel ih =>
      cases p with
      | ret result =>
          cases pressed
          exact .refl
      | act run next =>
          have waits : Reach irq (.act run next,s) (.act run next,(fire s).getD s) := by
            cases fired : fire s with
            | none => exact .refl
            | some s₁ => exact .single (.interrupt (sound s s₁ fired))
          rw [press] at pressed
          split at pressed
          · cases pressed
          · rename_i b after ran
            exact (waits.tail (.act ran)).trans (ih pressed)

end InterruptedPrograms
