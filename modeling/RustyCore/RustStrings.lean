import Mathlib

namespace RustStrings

abbrev Str := List Char

def isWhitespace (c : Char) : Bool :=
  (9 ≤ c.toNat && c.toNat ≤ 13) || c.toNat == 0x20 || c.toNat == 0x85 || c.toNat == 0xA0 || c.toNat == 0x1680 ||
    (0x2000 ≤ c.toNat && c.toNat ≤ 0x200A) || c.toNat == 0x2028 || c.toNat == 0x2029 || c.toNat == 0x202F ||
    c.toNat == 0x205F || c.toNat == 0x3000

def oneOf (chars : Str) (c : Char) : Bool := chars.contains c

def trimStartMatches (pattern : Char → Bool) (s : Str) : Str := s.dropWhile pattern

def trimEndMatches (pattern : Char → Bool) (s : Str) : Str := s.rdropWhile pattern

def trimMatches (pattern : Char → Bool) (s : Str) : Str := trimEndMatches pattern (trimStartMatches pattern s)

def trim (s : Str) : Str := trimMatches isWhitespace s

def stripPrefix (pattern : Char → Bool) : Str → Option Str
  | [] => none
  | c :: rest => if pattern c then some rest else none

def stripSuffix (pattern : Char → Bool) (s : Str) : Option Str :=
  match s.getLast? with
  | some c => if pattern c then some s.dropLast else none
  | none => none

def splitOnce (separator : Char) : Str → Option (Str × Str)
  | [] => none
  | c :: rest => if c = separator then some ([],rest) else (splitOnce separator rest).map fun halves => (c :: halves.1,halves.2)

def splitFirst (separator : Char) (s : Str) : Str := s.takeWhile (· != separator)

def replace (pattern : Char → Bool) (by_ : Char) (s : Str) : Str := s.map fun c => if pattern c then by_ else c

-- `split_inclusive('\n')`: each piece keeps its newline.
def splitInclusive : Str → List Str
  | [] => []
  | c :: rest =>
    if c = '\n' then [c] :: splitInclusive rest
    else match splitInclusive rest with
      | [] => [[c]]
      | piece :: pieces => (c :: piece) :: pieces

def withoutEnding (piece : Str) : Str :=
  match stripSuffix (· == '\n') piece with
  | none => piece
  | some line => (stripSuffix (· == '\r') line).getD line

def lines (s : Str) : List Str := (splitInclusive s).map withoutEnding

-- The loop of `u64::from_str` over the digits; each step is checked.
def accumulate : ℕ → Str → Option ℕ
  | n,[] => some n
  | n,c :: rest =>
    if c.isDigit then
      if 10*n+(c.toNat - '0'.toNat) < 2^64 then accumulate (10*n+(c.toNat - '0'.toNat)) rest else none
    else none

def parseDigits (s : Str) : Option ℕ := if s = [] then none else accumulate 0 s

-- `u64::from_str`: a leading `+` is taken, with or without it the digits are not empty.
def parseU64 (s : Str) : Option ℕ := parseDigits ((stripPrefix (· == '+') s).getD s)

def decimal (n : ℕ) : Str := Nat.toDigits 10 n

-- The case mappings of the Unicode tables, of which the ASCII part is fixed here.
structure CaseTable where
  upper : Char → Str
  lower : Str → Str
  upper_ascii : ∀ c, c.toNat < 128 → upper c = [c.toUpper]
  lower_ascii : ∀ s, (∀ c ∈ s, c.toNat < 128) → lower s = s.map Char.toLower

def CaseTable.toUppercase (table : CaseTable) (s : Str) : Str := s.flatMap table.upper

def CaseTable.toLowercase (table : CaseTable) (s : Str) : Str := table.lower s

def asciiTable : CaseTable := ⟨fun c => [c.toUpper],fun s => s.map Char.toLower,fun _ _ => rfl,fun _ _ => rfl⟩

theorem CaseTable.toUppercase_ascii (table : CaseTable) (ascii : s.all (·.toNat < 128) = true) :
    table.toUppercase s = s.map Char.toUpper := by
  induction s with
  | nil => rfl
  | cons c s ih =>
      rw [List.all_cons,Bool.and_eq_true] at ascii
      rw [toUppercase,List.flatMap_cons,table.upper_ascii c (of_decide_eq_true ascii.1),← toUppercase,ih ascii.2]
      rfl

@[simp]
theorem stripSuffix_concat : stripSuffix pattern (s ++ [c]) = if pattern c then some s else none := by
  simp [stripSuffix]

theorem stripSuffix_iff : stripSuffix pattern s = some rest ↔ ∃ c, s = rest ++ [c] ∧ pattern c = true := by
  constructor
  · intro stripped
    rcases List.eq_nil_or_concat' s with rfl | ⟨front,last,rfl⟩
    · cases stripped
    · rw [stripSuffix_concat] at stripped
      split at stripped
      · next matched => cases stripped; exact ⟨last,rfl,matched⟩
      · cases stripped
  · rintro ⟨c,rfl,matched⟩
    simp [matched]

theorem trim_concat (white : isWhitespace c = true) : trim (s ++ [c]) = trim s := by
  unfold trim trimMatches trimStartMatches trimEndMatches
  rw [List.dropWhile_append]
  split
  · next empty => simp [List.isEmpty_iff.1 empty,white]
  · rw [List.rdropWhile_concat_pos _ _ _ white]

theorem trimEndMatches_split (pattern : Char → Bool) (s : Str) :
    ∃ tail, s = trimEndMatches pattern s ++ tail ∧ ∀ c ∈ tail, pattern c = true :=
  ⟨s.rtakeWhile pattern,List.rdropWhile_append_rtakeWhile.symm,fun _ mem => List.mem_rtakeWhile_imp mem⟩

theorem trim_head (starts : trim s = c :: rest) : isWhitespace c = false := by
  obtain ⟨tail,whole,_⟩ := trimEndMatches_split isWhitespace (trimStartMatches isWhitespace s)
  have first := List.head?_dropWhile_not isWhitespace s
  rw [trim,trimMatches] at starts
  rw [starts] at whole
  rw [← trimStartMatches,whole] at first
  exact first

theorem trim_start (dark : isWhitespace c = false) : trim (c :: s) = trimEndMatches isWhitespace (c :: s) := by
  rw [trim,trimMatches,trimStartMatches,List.dropWhile_cons_of_neg (by simp [dark])]

theorem trim_trim (s : Str) : trim (trim s) = trim s := by
  cases starts : trim s with
  | nil => rfl
  | cons c rest =>
      rw [trim_start (trim_head starts),← starts]
      exact List.rdropWhile_idempotent _ _

theorem trim_keeps (dark : isWhitespace c = false) : ∃ rest, trim (c :: s) = c :: rest := by
  obtain ⟨tail,whole,white⟩ := trimEndMatches_split isWhitespace (c :: s)
  rw [trim_start dark]
  cases kept : trimEndMatches isWhitespace (c :: s) with
  | nil =>
      rw [kept,List.nil_append] at whole
      exact absurd (white c (whole ▸ List.mem_cons_self)) (by simp [dark])
  | cons first rest =>
      rw [kept,List.cons_append] at whole
      cases whole
      exact ⟨rest,rfl⟩

theorem trim_withoutEnding (piece : Str) : trim (withoutEnding piece) = trim piece := by
  unfold withoutEnding
  cases newline : stripSuffix (· == '\n') piece with
  | none => rfl
  | some line =>
      obtain ⟨c,rfl,matched⟩ := stripSuffix_iff.1 newline
      rw [eq_of_beq matched,trim_concat (by decide)]
      show trim ((stripSuffix (· == '\r') line).getD line) = trim line
      cases carriage : stripSuffix (· == '\r') line with
      | none => rfl
      | some rest =>
          obtain ⟨c,rfl,matched⟩ := stripSuffix_iff.1 carriage
          rw [Option.getD_some,eq_of_beq matched,trim_concat (by decide)]

theorem splitInclusive_break (s more : Str) :
    splitInclusive (s ++ '\n' :: more) = splitInclusive s ++ ['\n'] :: splitInclusive more ∨
      ∃ front piece, splitInclusive s = front ++ [piece] ∧
        splitInclusive (s ++ '\n' :: more) = front ++ (piece ++ ['\n']) :: splitInclusive more := by
  induction s with
  | nil => exact Or.inl rfl
  | cons c s ih =>
      rw [List.cons_append,splitInclusive,splitInclusive]
      split
      · rcases ih with own | ⟨front,piece,whole,broken⟩
        · exact Or.inl (by rw [own]; rfl)
        · exact Or.inr ⟨[c] :: front,piece,by rw [whole]; rfl,by rw [broken]; rfl⟩
      · rcases ih with own | ⟨front,piece,whole,broken⟩
        · rw [own]
          cases splitInclusive s with
          | nil => exact Or.inr ⟨[],[c],rfl,rfl⟩
          | cons piece pieces => exact Or.inl rfl
        · rw [whole,broken]
          cases front with
          | nil => exact Or.inr ⟨[],c :: piece,rfl,rfl⟩
          | cons first front => exact Or.inr ⟨(c :: first) :: front,piece,rfl,rfl⟩

-- Lines added after a newline leave the trimmed lines before them as they are, up to one empty line.
theorem lines_break (s more : Str) : ∃ gap, (∀ line ∈ gap, line = []) ∧
    (lines (s ++ '\n' :: more)).map trim = (lines s).map trim ++ gap ++ (lines more).map trim := by
  have trims : ∀ text, (lines text).map trim = (splitInclusive text).map trim := by
    intro text
    simp [lines,trim_withoutEnding]
  simp only [trims]
  rcases splitInclusive_break s more with own | ⟨front,piece,whole,broken⟩
  · refine ⟨[[]],by simp,?_⟩
    rw [own,List.map_append,List.map_cons,List.append_assoc]
    rfl
  · refine ⟨[],by simp,?_⟩
    rw [whole,broken]
    simp [trim_concat (show isWhitespace '\n' = true by decide)]

def Number (s : Str) : Prop := s ≠ [] ∧ ∀ c ∈ s, c.isDigit = true

abbrev value (s : Str) : ℕ := Nat.ofDigitChars 10 s 0

theorem ofDigitChars_grows (s : Str) (n : ℕ) : n ≤ Nat.ofDigitChars 10 s n := by
  induction s generalizing n with
  | nil => exact Nat.le_refl _
  | cons c s ih =>
      rw [Nat.ofDigitChars_cons]
      exact Nat.le_trans (by omega) (ih _)

theorem accumulate_iff (small : n < 2^64) :
    accumulate n s = some m ↔ (∀ c ∈ s, c.isDigit = true) ∧ Nat.ofDigitChars 10 s n = m ∧ m < 2^64 := by
  induction s generalizing n with
  | nil =>
      simp only [accumulate,Option.some.injEq,List.not_mem_nil,Nat.ofDigitChars_nil]
      constructor
      · rintro rfl
        exact ⟨fun _ listed => listed.elim,rfl,small⟩
      · exact fun accepted => accepted.2.1
  | cons c s ih =>
      rw [accumulate,Nat.ofDigitChars_cons,List.forall_mem_cons]
      split
      · next digit =>
          split
          · next fits =>
              rw [ih fits]
              exact ⟨fun accepted => ⟨⟨digit,accepted.1⟩,accepted.2⟩,fun accepted => ⟨accepted.1.2,accepted.2⟩⟩
          · next large =>
              have grows := ofDigitChars_grows s (10*n+(c.toNat - '0'.toNat))
              constructor
              · exact fun refused => by cases refused
              · rintro ⟨_,rfl,fits⟩
                omega
      · next other =>
          constructor
          · exact fun refused => by cases refused
          · exact fun accepted => absurd accepted.1.1 other

theorem stripPrefix_some (stripped : stripPrefix (· == x) s = some rest) : s = [x] ++ rest := by
  cases s with
  | nil => cases stripped
  | cons c s =>
      rw [stripPrefix] at stripped
      split at stripped
      · next same => cases stripped; rw [eq_of_beq same]; rfl
      · cases stripped

theorem parseDigits_iff : parseDigits s = some n ↔ Number s ∧ value s = n ∧ n < 2^64 := by
  unfold parseDigits Number
  split
  · next empty =>
      constructor
      · exact fun refused => by cases refused
      · exact fun accepted => absurd empty accepted.1.1
  · next present =>
      rw [accumulate_iff (by decide)]
      exact ⟨fun accepted => ⟨⟨present,accepted.1⟩,accepted.2⟩,fun accepted => ⟨accepted.1.2,accepted.2⟩⟩

theorem Number.head (number : Number (c :: s)) : c.isDigit = true := number.2 c List.mem_cons_self

theorem Number.unsigned (number : Number s) : stripPrefix (· == '+') s = none := by
  cases s with
  | nil => rfl
  | cons c s =>
      have other : c ≠ '+' := by
        rintro rfl
        exact absurd number.head (by decide)
      simp [stripPrefix,other]

theorem parseU64_iff :
    parseU64 s = some n ↔ ∃ sign digits, s = sign ++ digits ∧ (sign = [] ∨ sign = ['+']) ∧ Number digits ∧ value digits = n ∧
      n < 2^64 := by
  unfold parseU64
  constructor
  · intro accepted
    cases stripped : stripPrefix (· == '+') s with
    | none =>
        rw [stripped] at accepted
        exact ⟨[],s,rfl,Or.inl rfl,parseDigits_iff.1 accepted⟩
    | some rest =>
        rw [stripped] at accepted
        exact ⟨['+'],rest,stripPrefix_some stripped,Or.inr rfl,parseDigits_iff.1 accepted⟩
  · rintro ⟨sign,digits,rfl,rfl | rfl,number,read⟩
    · rw [List.nil_append,number.unsigned]
      exact parseDigits_iff.2 ⟨number,read⟩
    · exact parseDigits_iff.2 ⟨number,read⟩

theorem Number.last (number : Number (s ++ [c])) : c.isDigit = true := number.2 c (by simp)

theorem trimEndMatches_number (digits : ∀ c, pattern c = true → c.isDigit = false) (number : Number s)
    (all : ∀ c ∈ tail, pattern c = true) : trimEndMatches pattern (sign ++ s ++ tail) = sign ++ s := by
  induction tail using List.reverseRecOn with
  | nil =>
      rcases List.eq_nil_or_concat' s with rfl | ⟨front,last,rfl⟩
      · exact absurd rfl number.1
      · have other : ¬ pattern last = true := by
          intro matched
          exact absurd number.last (by simp [digits last matched])
        rw [List.append_nil,← List.append_assoc,trimEndMatches,List.rdropWhile_concat_neg _ _ _ other]
  | append_singleton tail c ih =>
      rw [List.forall_mem_append] at all
      rw [← List.append_assoc,trimEndMatches,List.rdropWhile_concat_pos _ _ _ (all.2 c (by simp))]
      exact ih all.1

theorem decimal_number (n : ℕ) : Number (decimal n) :=
  ⟨Nat.toDigits_ne_nil,fun _ mem => Nat.isDigit_of_mem_toDigits (by decide) (by decide) mem⟩

theorem decimal_value (n : ℕ) : value (decimal n) = n := Nat.ofDigitChars_toDigits (by decide) (by decide)

end RustStrings
