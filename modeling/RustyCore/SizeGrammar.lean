import RustyCore.RustArithmetic
import RustyCore.RustStrings

namespace RustyCore.BuildScript

open RustStrings

def parseSizeBytes (v : Str) : Option ℕ :=
  let v := trim v
  let (digits,mult) :=
    match stripSuffix (oneOf ['K','k']) v with
    | some n => (trimEndMatches (oneOf ['B','b']) n,1024)
    | none =>
      match stripSuffix (oneOf ['M','m']) v with
      | some n => (trimEndMatches (oneOf ['B','b']) n,1024*1024)
      | none =>
        match stripSuffix (oneOf ['G','g']) v with
        | some n => (trimEndMatches (oneOf ['B','b']) n,1024*1024*1024)
        | none => (v,1)
  (parseU64 digits).bind fun n => checkedMul n mult

inductive Unit1024 : Char → ℕ → Prop where
  | K : Unit1024 'K' 1
  | k : Unit1024 'k' 1
  | M : Unit1024 'M' 2
  | m : Unit1024 'm' 2
  | G : Unit1024 'G' 3
  | g : Unit1024 'g' 3

def IsB (c : Char) : Prop := c = 'B' ∨ c = 'b'

-- The documented spellings of `digits` with the unit of exponent `e`.
inductive Spelled : Str → Str → ℕ → Prop where
  | plain : Spelled digits digits 0
  | unit (known : Unit1024 c e) : Spelled (digits ++ [c]) digits e
  | bytes (known : Unit1024 c e) (isB : IsB b) : Spelled (digits ++ [c,b]) digits e

def Spelling (w : Str) : Prop := ∃ digits e, Number digits ∧ Spelled w digits e

-- What the documentation of `parse_size_bytes` says about its result on `v`.
structure Documented (v : Str) (result : Option ℕ) : Prop where
  size : ∀ digits e, Number digits → Spelled (trim v) digits e →
    result = if value digits*1024^e < 2^64 then some (value digits*1024^e) else none
  other : ¬ Spelling (trim v) → result = none

-- What the code takes: a sign before the digits, and a run of `B`s before the unit instead of one after it.
inductive Taken : Str → Str → Str → Str → ℕ → Prop where
  | plain : Taken (sign ++ digits) sign digits [] 0
  | unit (known : Unit1024 c e) (bs : ∀ b ∈ run, IsB b) : Taken (sign ++ digits ++ run ++ [c]) sign digits run e

theorem unit_other (known : Unit1024 c e) : c.isDigit = false ∧ ¬ IsB c := by
  cases known <;> simp [IsB]

theorem isB_other (isB : IsB c) : c.isDigit = false := by
  rcases isB with rfl | rfl <;> decide

theorem oneOf_isB : oneOf ['B','b'] c = true ↔ IsB c := by
  simp [oneOf,IsB]

theorem parseSizeBytes_unit (known : Unit1024 c e) (trimmed : trim v = n ++ [c]) :
    parseSizeBytes v = (parseU64 (trimEndMatches (oneOf ['B','b']) n)).bind fun m => checkedMul m (1024^e) := by
  cases known <;> simp [parseSizeBytes,trimmed,oneOf]

theorem parseSizeBytes_plain (unknown : ∀ n c e, trim v = n ++ [c] → ¬ Unit1024 c e) :
    parseSizeBytes v = (parseU64 (trim v)).bind fun m => checkedMul m 1 := by
  rcases List.eq_nil_or_concat' (trim v) with empty | ⟨n,c,trimmed⟩
  · simp [parseSizeBytes,empty,stripSuffix]
  · have other : ∀ unit e, Unit1024 unit e → c ≠ unit := by
      rintro unit e known rfl
      exact unknown n c e trimmed known
    simp [parseSizeBytes,trimmed,oneOf,other _ _ .K,other _ _ .k,other _ _ .M,other _ _ .m,other _ _ .G,other _ _ .g]

theorem bind_checkedMul {parsed : Option ℕ} :
    (parsed.bind fun m => checkedMul m k) = some n ↔ ∃ m, parsed = some m ∧ m*k = n ∧ n < 2^64 := by
  simp only [Option.bind_eq_some_iff,checkedMul_iff]

theorem factor_fits (fits : m*1024^e < 2^64) : m < 2^64 :=
  Nat.lt_of_le_of_lt (Nat.le_mul_of_pos_right _ (by positivity)) fits

theorem taken_parsed (taken : Taken (trim v) sign digits run e) (signed : sign = [] ∨ sign = ['+']) (number : Number digits)
    (fits : value digits*1024^e < 2^64) : parseSizeBytes v = some (value digits*1024^e) := by
  have parsed : parseU64 (sign ++ digits) = some (value digits) :=
    parseU64_iff.2 ⟨sign,digits,rfl,signed,number,rfl,factor_fits fits⟩
  generalize trimmed : trim v = w at taken
  cases taken with
  | plain =>
      have unknown : ∀ n c e, trim v = n ++ [c] → ¬ Unit1024 c e := by
        intro n c e same known
        rcases List.eq_nil_or_concat' digits with rfl | ⟨front,last,rfl⟩
        · exact number.1 rfl
        · rw [trimmed,← List.append_assoc] at same
          obtain ⟨_,rfl⟩ := List.append_singleton_inj.1 same
          exact absurd number.last (by simp [unit_other known])
      rw [parseSizeBytes_plain unknown,trimmed]
      exact bind_checkedMul.2 ⟨_,parsed,by simp,by simpa using fits⟩
  | unit known bs =>
      rw [parseSizeBytes_unit known trimmed,
        trimEndMatches_number (fun c matched => isB_other (oneOf_isB.1 matched)) number fun c mem => oneOf_isB.2 (bs c mem)]
      exact bind_checkedMul.2 ⟨_,parsed,rfl,fits⟩

theorem parsed_taken (parsed : parseSizeBytes v = some n) :
    ∃ sign digits run e, Taken (trim v) sign digits run e ∧ (sign = [] ∨ sign = ['+']) ∧ Number digits ∧
      value digits*1024^e = n ∧ n < 2^64 := by
  by_cases unit : ∃ front c e, trim v = front ++ [c] ∧ Unit1024 c e
  · obtain ⟨front,c,e,trimmed,known⟩ := unit
    rw [parseSizeBytes_unit known trimmed] at parsed
    obtain ⟨m,read,product,fits⟩ := bind_checkedMul.1 parsed
    obtain ⟨sign,digits,split,signed,number,rfl,_⟩ := parseU64_iff.1 read
    obtain ⟨run,whole,bs⟩ := trimEndMatches_split (oneOf ['B','b']) front
    rw [split] at whole
    refine ⟨sign,digits,run,e,?_,signed,number,product,fits⟩
    rw [trimmed,whole]
    exact .unit known fun b mem => oneOf_isB.1 (bs b mem)
  · have unknown : ∀ front c e, trim v = front ++ [c] → ¬ Unit1024 c e :=
      fun front c e trimmed known => unit ⟨front,c,e,trimmed,known⟩
    rw [parseSizeBytes_plain unknown] at parsed
    obtain ⟨m,read,product,fits⟩ := bind_checkedMul.1 parsed
    obtain ⟨sign,digits,split,signed,number,rfl,_⟩ := parseU64_iff.1 read
    refine ⟨sign,digits,[],0,?_,signed,number,by simpa using product,fits⟩
    rw [split]
    exact .plain

def Refused (w : Str) : Prop :=
  ∃ digits c e b, w = digits ++ [c,b] ∧ Unit1024 c e ∧ IsB b ∧ Number digits ∧ value digits*1024^e < 2^64

def Indulged (w : Str) : Prop :=
  ∃ sign digits run e, Taken w sign digits run e ∧ (sign = ['+'] ∨ sign = [] ∧ run ≠ []) ∧ Number digits ∧
    value digits*1024^e < 2^64

theorem unit_exponent (known : Unit1024 c e) (again : Unit1024 c e') : e = e' := by
  cases known <;> cases again <;> rfl

theorem number_no_unit (number : Number (s ++ [c])) (known : Unit1024 c e) : False :=
  absurd number.last (by simp [unit_other known])

theorem bytes_refused (trimmed : trim v = front ++ [c,b]) (isB : IsB b) : parseSizeBytes v = none := by
  refine Option.eq_none_iff_forall_ne_some.2 fun n parsed => ?_
  obtain ⟨sign,digits,run,e,taken,_,number,_⟩ := parsed_taken parsed
  rw [trimmed,List.append_cons] at taken
  generalize same : front ++ [c] ++ [b] = w at taken
  cases taken with
  | plain =>
      rcases List.eq_nil_or_concat' digits with rfl | ⟨init,last,rfl⟩
      · exact number.1 rfl
      · rw [← List.append_assoc] at same
        obtain ⟨_,rfl⟩ := List.append_singleton_inj.1 same
        exact absurd number.last (by simp [isB_other isB])
  | unit known bs =>
      obtain ⟨_,rfl⟩ := List.append_singleton_inj.1 same
      exact (unit_other known).2 isB

theorem taken_iff : Taken w [] digits [] e ↔ w = digits ∧ e = 0 ∨ ∃ c, w = digits ++ [c] ∧ Unit1024 c e := by
  constructor
  · intro taken
    cases taken with
    | plain => exact Or.inl ⟨rfl,rfl⟩
    | unit known bs => exact Or.inr ⟨_,by simp,known⟩
  · rintro (⟨rfl,rfl⟩ | ⟨c,rfl,known⟩)
    · have taken : Taken ([] ++ w) [] w [] 0 := .plain
      exact taken
    · have taken : Taken ([] ++ digits ++ [] ++ [c]) [] digits [] e := .unit known nofun
      simpa using taken

theorem taken_unique (first : Taken w [] digits [] e) (again : Taken w [] digits' [] e') (number : Number digits)
    (number' : Number digits') : digits = digits' ∧ e = e' := by
  rcases taken_iff.1 first with ⟨rfl,rfl⟩ | ⟨c,rfl,known⟩
  · rcases taken_iff.1 again with ⟨rfl,rfl⟩ | ⟨c,rfl,known⟩
    · exact ⟨rfl,rfl⟩
    · exact (number_no_unit number known).elim
  · rcases taken_iff.1 again with ⟨rfl,rfl⟩ | ⟨c',whole,known'⟩
    · exact (number_no_unit number' known).elim
    · obtain ⟨rfl,rfl⟩ := List.append_singleton_inj.1 whole
      exact ⟨rfl,unit_exponent known known'⟩

theorem spelled_taken (spelled : Spelled w digits e) :
    Taken w [] digits [] e ∨ ∃ c b, w = digits ++ [c,b] ∧ Unit1024 c e ∧ IsB b := by
  cases spelled with
  | plain => exact Or.inl (taken_iff.2 (Or.inl ⟨rfl,rfl⟩))
  | unit known => exact Or.inl (taken_iff.2 (Or.inr ⟨_,rfl,known⟩))
  | bytes known isB => exact Or.inr ⟨_,_,rfl,known,isB⟩

theorem taken_spelled (taken : Taken w [] digits [] e) : Spelled w digits e := by
  rcases taken_iff.1 taken with ⟨rfl,rfl⟩ | ⟨c,rfl,known⟩
  · exact .plain
  · exact .unit known

theorem spelled_head (spelled : Spelled (c :: w) digits e) (number : Number digits) : c.isDigit = true := by
  generalize whole : c :: w = text at spelled
  cases digits with
  | nil => exact absurd rfl number.1
  | cons first rest =>
      cases spelled <;> · cases whole; exact number.head

theorem indulged_undocumented (taken : Taken w sign digits run e) (extra : sign = ['+'] ∨ sign = [] ∧ run ≠ []) :
    ¬ Spelling w := by
  rintro ⟨others,f,number,spelled⟩
  rcases extra with rfl | ⟨rfl,extra⟩
  · have signed : ∃ rest, w = '+' :: rest := by
      cases taken <;> exact ⟨_,rfl⟩
    obtain ⟨rest,rfl⟩ := signed
    exact absurd (spelled_head spelled number) (by decide)
  · obtain ⟨b,inside⟩ := List.exists_mem_of_ne_nil run extra
    generalize whole : w = text at spelled
    cases taken with
    | plain => exact extra rfl
    | unit known bs =>
        cases spelled with
        | plain => exact number_no_unit (whole ▸ number) known
        | unit known' =>
            obtain ⟨rfl,_⟩ := List.append_singleton_inj.1 whole
            exact absurd (number.2 b (by simp [inside])) (by simp [isB_other (bs b inside)])
        | bytes known' isB =>
            rw [List.append_cons others] at whole
            obtain ⟨_,rfl⟩ := List.append_singleton_inj.1 whole
            exact (unit_other known).2 isB

theorem size_grammar (v : Str) : Documented v (parseSizeBytes v) ↔ ¬ (Refused (trim v) ∨ Indulged (trim v)) := by
  constructor
  · rintro documented (⟨digits,c,e,b,trimmed,known,isB,number,fits⟩ | ⟨sign,digits,run,e,taken,extra,number,fits⟩)
    · have size := documented.size digits e number (trimmed ▸ .bytes known isB)
      rw [bytes_refused trimmed isB,if_pos fits] at size
      cases size
    · have none := documented.other (indulged_undocumented taken extra)
      have parsed := taken_parsed taken (extra.elim Or.inr fun plain => Or.inl plain.1) number fits
      rw [none] at parsed
      cases parsed
  · intro regular
    -- Outside the two exceptions whatever is accepted is a documented text.
    have accepted : ∀ n, parseSizeBytes v = some n → ∃ digits e, Taken (trim v) [] digits [] e ∧ Number digits ∧
        value digits*1024^e = n ∧ n < 2^64 := by
      intro n parsed
      obtain ⟨sign,digits,run,e,taken,signed,number,rfl,fits⟩ := parsed_taken parsed
      by_cases extra : sign = ['+'] ∨ sign = [] ∧ run ≠ []
      · exact absurd (Or.inr ⟨sign,digits,run,e,taken,extra,number,fits⟩) regular
      · obtain ⟨rfl,rfl⟩ : sign = [] ∧ run = [] := by grind
        exact ⟨digits,e,taken,number,rfl,fits⟩
    constructor
    · intro digits e number spelled
      split
      · next fits =>
          rcases spelled_taken spelled with taken | ⟨c,b,trimmed,known,isB⟩
          · exact taken_parsed taken (Or.inl rfl) number fits
          · exact absurd (Or.inl ⟨digits,c,e,b,trimmed,known,isB,number,fits⟩) regular
      · next large =>
          refine Option.eq_none_iff_forall_ne_some.2 fun n parsed => ?_
          rcases spelled_taken spelled with taken | ⟨c,b,trimmed,known,isB⟩
          · obtain ⟨digits',e',taken',number',rfl,fits⟩ := accepted n parsed
            obtain ⟨rfl,rfl⟩ := taken_unique taken taken' number number'
            exact large fits
          · rw [bytes_refused trimmed isB] at parsed
            cases parsed
    · intro undocumented
      refine Option.eq_none_iff_forall_ne_some.2 fun n parsed => ?_
      obtain ⟨digits,e,taken,number,_⟩ := accepted n parsed
      exact undocumented ⟨digits,e,number,taken_spelled taken⟩

theorem unit_bytes_refused : ¬ Documented "128KB".toList (parseSizeBytes "128KB".toList) ∧
    parseSizeBytes "128KB".toList = none ∧ parseSizeBytes "128K".toList = some 131072 ∧
    ¬ Documented "128BK".toList (parseSizeBytes "128BK".toList) ∧ parseSizeBytes "128BK".toList = some 131072 ∧
    ¬ Documented "+5".toList (parseSizeBytes "+5".toList) ∧ parseSizeBytes "+5".toList = some 5 := by
  have number : Number "128".toList := ⟨by decide,by simp⟩
  have trimmed : trim "128KB".toList = "128".toList ++ ['K','B'] := by decide
  have swapped : Taken ([] ++ "128".toList ++ ['B'] ++ ['K']) [] "128".toList ['B'] 1 := .unit .K (by simp [IsB])
  have undocumented : ¬ Spelling (trim "128BK".toList) := indulged_undocumented swapped (Or.inr ⟨rfl,by simp⟩)
  have plus : Taken (['+'] ++ ['5']) ['+'] ['5'] [] 0 := .plain
  have signed : ¬ Spelling (trim "+5".toList) := indulged_undocumented plus (Or.inl rfl)
  refine ⟨?_,by decide,by decide +kernel,?_,by decide +kernel,?_,by decide +kernel⟩
  · intro documented
    have size := documented.size "128".toList 1 number (trimmed ▸ .bytes .K (Or.inl rfl))
    revert size
    decide +kernel
  · intro documented
    have none := documented.other undocumented
    revert none
    decide +kernel
  · intro documented
    have none := documented.other signed
    revert none
    decide +kernel

end RustyCore.BuildScript
