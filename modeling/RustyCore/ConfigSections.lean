import RustyCore.KernelConfig

namespace RustyCore.BuildScript

open RustStrings LastWrites

def entry (line : Str) : Str := trim (splitFirst '#' line)

-- How a line is meant to be read: the comment goes first, then it is a header or stands in its section.
def readEntry (f : Formatting) (line : Str) : Line Str :=
  if entry line = [] then .other
  else
    match headerName (entry line) with
    | some name => .header (f.toUppercase (normalized name))
    | none => .item (entry line)

def bodies (f : Formatting) (config : Str) : List (Str × Str) := inSections (readEntry f) [] (trimmedLines config)

def keyOf (line : Str × Str) : Option (Str × Str × Str) := (keyValue line.2).map fun pair => (line.1,pair)

structure SameSections (f : Formatting) (config other : Str) : Prop where
  memory : (bodies f config).filter (·.1 == "MEMORY".toList) = (bodies f other).filter (·.1 == "MEMORY".toList)
  sched : (bodies f config).filter (·.1 == "SCHED".toList) = (bodies f other).filter (·.1 == "SCHED".toList)

-- Blank lines, comments, headers and `key = value` lines, with or without a comment.
def WellFormed (config : Str) : Prop :=
  ∀ line ∈ trimmedLines config, entry line = [] ∨ (headerName (entry line)).isSome ∨ (splitOnce '=' (entry line)).isSome

-- What the header test sees of a line is what `cut` leaves of it: the script tests the whole line, and a header is
-- meant to be one with or without a comment.
def readWith (cut : Str → Str) (f : Formatting) (line : Str) : Line (Str × Str) :=
  if entry line = [] then .other
  else
    match headerName (cut line) with
    | some name => .header (f.toUppercase (normalized name))
    | none =>
      match keyValue (entry line) with
      | some pair => .item pair
      | none => .other

def keysBy (cut : Str → Str) (f : Formatting) (config : Str) : List (Str × Str × Str) :=
  inSections (readWith cut f) [] (trimmedLines config)

-- A key whose name, alone or behind its section, spells out another variable's.
def spells (f : Formatting) (name : Str) (key : Str × Str × Str) : Option Str :=
  let text := f.toUppercase key.2.1 ++ '=' :: key.2.2
  (text.dropPrefix? (name ++ ['='])).or (if key.1 = [] then none else (key.1 ++ '_' :: text).dropPrefix? (name ++ ['=']))

-- What a key says about a value. For the sizes nobody looks at its section.
def said (f : Formatting) (p : Profile) (setting : Setting) (key : Str × Str × Str) : Option Str :=
  let upper := f.toUppercase key.2.1
  match setting with
  | .stackSizeBytes =>
    if upper = "STACK_SIZE".toList then (stackBytes f key.2.2).toOption else spells f "STACK_SIZE_BYTES".toList key
  | .heapSizeBytes =>
    if upper = "HEAP_SIZE_KB".toList then (heapBytes f p key.2.2).toOption else spells f "HEAP_SIZE_BYTES".toList key
  | .frameAllocator =>
    if key.1 = "MEMORY".toList ∧ upper = "FRAME_ALLOCATOR".toList then some (f.toLowercase key.2.2) else none
  | .sched => if key.1 = "SCHED".toList ∧ upper = "DEFAULT".toList then some (f.toLowercase key.2.2) else none

-- What a key should say: the sizes are keys of [memory] as well.
def meant (f : Formatting) (p : Profile) (setting : Setting) (key : Str × Str × Str) : Option Str :=
  let upper := f.toUppercase key.2.1
  match setting with
  | .stackSizeBytes => if key.1 = "MEMORY".toList ∧ upper = "STACK_SIZE".toList then (stackBytes f key.2.2).toOption else none
  | .heapSizeBytes => if key.1 = "MEMORY".toList ∧ upper = "HEAP_SIZE_KB".toList then (heapBytes f p key.2.2).toOption else none
  | .frameAllocator =>
    if key.1 = "MEMORY".toList ∧ upper = "FRAME_ALLOCATOR".toList then some (f.toLowercase key.2.2) else none
  | .sched => if key.1 = "SCHED".toList ∧ upper = "DEFAULT".toList then some (f.toLowercase key.2.2) else none

def sizeFault (f : Formatting) (p : Profile) (key : Str × Str × Str) : Option Fault :=
  if f.toUppercase key.2.1 = "HEAP_SIZE_KB".toList then fault (heapBytes f p key.2.2)
  else if f.toUppercase key.2.1 = "STACK_SIZE".toList then fault (stackBytes f key.2.2)
  else none

-- The four values as they are meant: from the lines of [memory] and [sched] alone, the last line of a kind counting.
def intended (f : Formatting) (p : Profile) (config : Str) : Except Fault (Store Setting Str) :=
  outcome (((keysBy entry f config).filter (·.1 == "MEMORY".toList)).findSome? (sizeFault f p)) fun setting =>
    lastSome (meant f p setting) (keysBy entry f config)

-- Of all size lines under uncommented headers the first that cannot be read is the first such line of [memory]; and the
-- last key that says anything about a value says what the last right one does.
structure Undisturbed (f : Formatting) (p : Profile) (config : Str) : Prop where
  faults : (keysBy id f config).findSome? (sizeFault f p) =
    ((keysBy entry f config).filter (·.1 == "MEMORY".toList)).findSome? (sizeFault f p)
  values : (keysBy id f config).findSome? (sizeFault f p) = none → ∀ setting,
    lastSome (said f p setting) (keysBy id f config) = lastSome (meant f p setting) (keysBy entry f config)

def Setting.home : Setting → Str
  | .stackSizeBytes | .heapSizeBytes | .frameAllocator => "MEMORY".toList
  | .sched => "SCHED".toList

theorem meant_home (setting : Setting) (elsewhere : key.1 ≠ setting.home) : meant f p setting key = none := by
  cases setting <;> exact if_neg fun named => elsewhere named.1

theorem keyOf_section (found : keyOf line = some key) : key.1 = line.1 := by
  obtain ⟨pair,_,rfl⟩ := Option.map_eq_some_iff.1 found
  rfl

theorem keys_bodies (f : Formatting) (config : Str) : keysBy entry f config = (bodies f config).filterMap keyOf := by
  rw [bodies,keysBy]
  generalize ([] : Str) = section_
  induction trimmedLines config generalizing section_ with
  | nil => rfl
  | cons line rest ih =>
      rw [inSections,inSections,readEntry,readWith]
      by_cases blank : entry line = []
      · rw [if_pos blank,if_pos blank]
        exact ih section_
      · rw [if_neg blank,if_neg blank]
        cases headerName (entry line) with
        | some name => exact ih _
        | none =>
            simp only [List.filterMap_cons,keyOf]
            cases keyValue (entry line) with
            | none => exact ih section_
            | some pair => exact congrArg _ (ih section_)

theorem keys_section (f : Formatting) (config name : Str) :
    (keysBy entry f config).filter (·.1 == name) = ((bodies f config).filter (·.1 == name)).filterMap keyOf := by
  rw [keys_bodies]
  induction bodies f config with
  | nil => rfl
  | cons line rest ih =>
      cases found : keyOf line with
      | none =>
          rw [List.filterMap_cons_none found,ih,List.filter_cons]
          split
          · rw [List.filterMap_cons_none found]
          · rfl
      | some key =>
          rw [List.filterMap_cons_some found,List.filter_cons,List.filter_cons,ih,keyOf_section found]
          split
          · rw [List.filterMap_cons_some found]
          · rfl

theorem intended_sections (same : SameSections f config other) : intended f p config = intended f p other := by
  have keys : ∀ setting : Setting,
      (keysBy entry f config).filter (·.1 == setting.home) = (keysBy entry f other).filter (·.1 == setting.home) := by
    intro setting
    rw [keys_section,keys_section]
    cases setting with
    | stackSizeBytes | heapSizeBytes | frameAllocator => exact congrArg _ same.memory
    | sched => exact congrArg _ same.sched
  refine outcome_agree.2 ⟨congrArg _ (keys .stackSizeBytes),fun _ setting => ?_⟩
  have local_ : ∀ text, lastSome (meant f p setting) (keysBy entry f text) =
      lastSome (meant f p setting) ((keysBy entry f text).filter (·.1 == setting.home)) := by
    intro text
    exact (lastSome_filter fun key _ elsewhere => meant_home setting (ne_of_beq_false elsewhere)).symm
  rw [local_ config,local_ other,keys]

def intruder (digit : Char) : Str := "[zz]\nstack_size = ".toList ++ [digit]

theorem trimmedLines_intruder (config : Str) (chosen : digit = '1' ∨ digit = '2') : ∃ gap, (∀ line ∈ gap, line = []) ∧
    trimmedLines (config ++ '\n' :: intruder digit) =
      trimmedLines config ++ gap ++ ["[zz]".toList,"stack_size = ".toList ++ [digit]] := by
  obtain ⟨gap,empty,broken⟩ := lines_break config (intruder digit)
  refine ⟨gap,empty,broken.trans (congrArg _ ?_)⟩
  rcases chosen with rfl | rfl <;> decide

theorem inSections_append (read : Str → Line α) (front rest : List Str) (section_ : Str) :
    ∃ last, inSections read section_ (front ++ rest) = inSections read section_ front ++ inSections read last rest := by
  induction front generalizing section_ with
  | nil => exact ⟨section_,rfl⟩
  | cons line front ih =>
      rw [List.cons_append,inSections,inSections]
      cases read line with
      | other => exact ih section_
      | header name => exact ih name
      | item content =>
          obtain ⟨last,split⟩ := ih section_
          exact ⟨last,by rw [split]; rfl⟩

theorem inSections_gap {read : Str → Line α} (blank : read [] = .other) (empty : ∀ line ∈ gap, line = []) :
    inSections read section_ (gap ++ rest) = inSections read section_ rest := by
  induction gap with
  | nil => rfl
  | cons line gap ih =>
      rw [List.forall_mem_cons] at empty
      rw [List.cons_append,inSections,empty.1,blank]
      exact ih empty.2

theorem uppercase_zz (f : Formatting) : f.toUppercase (normalized "zz".toList) = "ZZ".toList := by
  rw [f.toUppercase_ascii (by decide)]
  decide

theorem bodies_intruder (f : Formatting) (config : Str) (chosen : digit = '1' ∨ digit = '2') :
    bodies f (config ++ '\n' :: intruder digit) = bodies f config ++ [("ZZ".toList,"stack_size = ".toList ++ [digit])] := by
  obtain ⟨gap,empty,whole⟩ := trimmedLines_intruder config chosen
  have header : readEntry f "[zz]".toList = .header "ZZ".toList := by
    rw [← uppercase_zz f]
    rfl
  have key : readEntry f ("stack_size = ".toList ++ [digit]) = .item ("stack_size = ".toList ++ [digit]) := by
    rcases chosen with rfl | rfl <;> rfl
  rw [bodies,whole,List.append_assoc]
  obtain ⟨last,split⟩ := inSections_append (readEntry f) (trimmedLines config)
    (gap ++ ["[zz]".toList,"stack_size = ".toList ++ [digit]]) []
  rw [split,inSections_gap rfl empty,inSections,header]
  simp only [inSections,key]
  rfl

theorem fold_gap (f : Formatting) (p : Profile) (s : Script) {gap : List Str} (empty : ∀ line ∈ gap, line = []) :
    gap.foldlM (processLine f p) s = .ok s := by
  induction gap with
  | nil => rfl
  | cons line gap ih =>
      rw [List.forall_mem_cons] at empty
      rw [List.foldlM_cons,empty.1]
      exact ih empty.2

theorem uppercase_stack_size (f : Formatting) : f.toUppercase "stack_size".toList = "STACK_SIZE".toList := by
  rw [f.toUppercase_ascii (by decide)]
  decide

def intruded (digit : Char) : List Str :=
  [directive "ZZ_STACK_SIZE".toList [digit],directive "STACK_SIZE".toList [digit],directive "STACK_SIZE_BYTES".toList [digit]]

theorem readConfig_intruder (read : readConfig f p config = .ok s) (chosen : digit = '1' ∨ digit = '2') :
    readConfig f p (config ++ '\n' :: intruder digit) =
      .ok { s with section_ := "ZZ".toList, output := s.output ++ intruded digit } := by
  obtain ⟨gap,empty,whole⟩ := trimmedLines_intruder config chosen
  have header : readLine f "[zz]".toList = .header "ZZ".toList := by
    rw [← uppercase_zz f]
    rfl
  have key : readLine f ("stack_size = ".toList ++ [digit]) = .item ("stack_size".toList,[digit]) := by
    rcases chosen with rfl | rfl <;> rfl
  have printed : keyOutput f p "ZZ".toList "STACK_SIZE".toList [digit] = .ok (intruded digit) := by
    rcases chosen with rfl | rfl <;> rfl
  rw [readConfig] at read
  rw [readConfig,whole,List.foldlM_append,List.foldlM_append,read]
  simp only [ok_bind,fold_gap f p s empty,List.foldlM_cons,List.foldlM_nil,processLine,header,key,setKey,uppercase_stack_size,
    printed,Except.map]
  rfl

theorem rustcEnv_intruded (output : List Str) (chosen : digit = '1' ∨ digit = '2') :
    rustcEnv "KERNEL_CONFIG_STACK_SIZE_BYTES".toList (output ++ intruded digit) = some [digit] := by
  rw [rustcEnv,lastSome_append]
  rcases chosen with rfl | rfl <;> rfl

theorem sections_intruder (f : Formatting) (config : Str) (chosen : digit = '1' ∨ digit = '2') :
    SameSections f config (config ++ '\n' :: intruder digit) := by
  constructor <;> rw [bodies_intruder f config chosen,List.filter_append] <;> exact (List.append_nil _).symm

theorem wellFormed_intruder (well : WellFormed config) (chosen : digit = '1' ∨ digit = '2') :
    WellFormed (config ++ '\n' :: intruder digit) := by
  obtain ⟨gap,empty,whole⟩ := trimmedLines_intruder config chosen
  intro line mem
  rw [whole] at mem
  simp only [List.mem_append,List.mem_cons,List.not_mem_nil,or_false] at mem
  rcases mem with (own | blank) | rfl | rfl
  · exact well line own
  · rw [empty line blank]
    exact Or.inl rfl
  · exact Or.inr (Or.inl rfl)
  · rcases chosen with rfl | rfl <;> exact Or.inr (Or.inr rfl)

theorem main_intruder (built : main f p features config = .ok output) (chosen : digit = '1' ∨ digit = '2') :
    main f p features (config ++ '\n' :: intruder digit) = .ok (output ++ intruded digit) := by
  obtain ⟨s,read,gates⟩ := bind_ok built
  rw [main,readConfig_intruder read chosen,ok_bind]
  obtain ⟨_,allocator,gates⟩ := bind_ok gates
  obtain ⟨_,scheduler,printed⟩ := bind_ok gates
  cases printed
  simp only [allocator,scheduler,ok_bind]

def PlainHeaders (config : Str) : Prop := ∀ line ∈ trimmedLines config, '#' ∈ line → (entry line).head? ≠ some '['

-- No size key stands outside [memory] either, and no key spells out the name of one of the printed sizes.
structure Tidy (f : Formatting) (config : Str) : Prop where
  headers : PlainHeaders config
  sizes : ∀ key ∈ keysBy entry f config,
    f.toUppercase key.2.1 = "STACK_SIZE".toList ∨ f.toUppercase key.2.1 = "HEAP_SIZE_KB".toList → key.1 = "MEMORY".toList
  names : ∀ key ∈ keysBy entry f config, spells f "STACK_SIZE_BYTES".toList key = none ∧ spells f "HEAP_SIZE_BYTES".toList key = none

theorem entry_starts {raw : Str} (starts : trim raw = c :: rest) (visible : c ≠ '#') : ∃ more, entry (c :: rest) = c :: more := by
  have first : splitFirst '#' (c :: rest) = c :: splitFirst '#' rest := by simp [splitFirst,visible]
  rw [entry,first]
  exact trim_keeps (trim_head starts)

theorem readLine_with (f : Formatting) (raw : Str) : readLine f (trim raw) = readWith id f (trim raw) := by
  cases starts : trim raw with
  | nil => rfl
  | cons c rest =>
      by_cases comment : c = '#'
      · subst comment
        rfl
      · obtain ⟨more,kept⟩ := entry_starts starts comment
        have visible : ¬ (c :: rest = [] ∨ (c :: rest).head? = some '#') := by simp [comment]
        have present : entry (c :: rest) ≠ [] := by simp [kept]
        rw [readLine,readWith,if_neg visible,if_neg present]
        rfl

theorem inSections_congr {read again : Str → Line α} (same : ∀ line ∈ text, read line = again line) (section_ : Str) :
    inSections read section_ text = inSections again section_ text := by
  induction text generalizing section_ with
  | nil => rfl
  | cons line rest ih =>
      rw [List.forall_mem_cons] at same
      rw [inSections,inSections,same.1]
      cases again line with
      | other => exact ih same.2 section_
      | header name => exact ih same.2 name
      | item content => exact congrArg _ (ih same.2 section_)

theorem seen_keys (f : Formatting) (config : Str) : seen f config = keysBy id f config := by
  refine inSections_congr (fun line mem => ?_) []
  obtain ⟨raw,_,rfl⟩ := List.mem_map.1 mem
  exact readLine_with f raw

theorem keys_plain (plain : PlainHeaders config) : keysBy id f config = keysBy entry f config := by
  refine inSections_congr (fun line mem => ?_) []
  obtain ⟨raw,_,rfl⟩ := List.mem_map.1 mem
  have tidy := plain _ mem
  cases starts : trim raw with
  | nil => rfl
  | cons c rest =>
      by_cases comment : c = '#'
      · subst comment
        rfl
      · obtain ⟨more,kept⟩ := entry_starts starts comment
        have header : headerName (c :: rest) = headerName (entry (c :: rest)) := by
          by_cases commented : '#' ∈ c :: rest
          · have other : c ≠ '[' := fun bracket => tidy (starts ▸ commented) (by rw [starts,kept,bracket]; rfl)
            have neither : ∀ line, headerName (c :: line) = none := by
              intro line
              simp [headerName,stripPrefix,other]
            rw [kept,neither,neither]
          · have whole : splitFirst '#' (c :: rest) = c :: rest :=
              List.takeWhile_eq_self_iff.2 fun x mem => by
                have : x ≠ '#' := fun same => commented (same ▸ mem)
                simpa using this
            rw [entry,whole,← starts,trim_trim]
        rw [readWith,readWith,id,header]

theorem keyOutput_stack (f : Formatting) (p : Profile) (section_ v : Str) :
    keyOutput f p section_ "STACK_SIZE".toList v = (stackBytes f v).map fun bytes =>
      keyDirectives section_ "STACK_SIZE".toList v ++ [directive "STACK_SIZE_BYTES".toList bytes] := by
  rw [keyOutput,heapDirectives,if_neg (by decide),stackDirectives,if_pos rfl,ok_bind]
  cases stackBytes f v with
  | error fault => rfl
  | ok bytes => exact congrArg Except.ok (by rw [List.append_nil])

theorem keyOutput_heap (f : Formatting) (p : Profile) (section_ v : Str) :
    keyOutput f p section_ "HEAP_SIZE_KB".toList v = (heapBytes f p v).map fun bytes =>
      keyDirectives section_ "HEAP_SIZE_KB".toList v ++ [directive "HEAP_SIZE_BYTES".toList bytes] := by
  rw [keyOutput,heapDirectives,if_pos rfl,stackDirectives,if_neg (by decide)]
  cases heapBytes f p v with
  | error fault => rfl
  | ok bytes => exact congrArg Except.ok (List.append_nil _)

theorem keyOutput_other (stack : upper ≠ "STACK_SIZE".toList) (heap : upper ≠ "HEAP_SIZE_KB".toList) :
    keyOutput f p section_ upper v = .ok (keyDirectives section_ upper v) := by
  rw [keyOutput,heapDirectives,if_neg heap,stackDirectives,if_neg stack,ok_bind,ok_bind,List.append_nil,List.append_nil]

theorem splitOnce_some (plain : '=' ∉ name) : splitOnce '=' line = some (name,v) ↔ line = name ++ '=' :: v := by
  induction name generalizing line with
  | nil =>
      cases line with
      | nil => simp [splitOnce]
      | cons c line =>
          by_cases found : c = '='
          · simp [splitOnce,found]
          · cases splitOnce '=' line <;> simp [splitOnce,found]
  | cons d name ih =>
      rw [List.mem_cons,not_or] at plain
      cases line with
      | nil => simp [splitOnce]
      | cons c line =>
          by_cases found : c = '='
          · simp [splitOnce,found,plain.1]
          · rw [splitOnce,if_neg found,List.cons_append,List.cons.injEq,← ih plain.2]
            rcases splitOnce '=' line with _ | ⟨front,back⟩
            · simp
            · simp [and_assoc]

-- Cargo finds a variable in a directive exactly if the text behind their common front spells out the rest of its name.
theorem assignment_spells (common : '=' ∉ front) (plain : '=' ∉ name) (text : Str) :
    assignment (front ++ name) (front ++ text) = text.dropPrefix? (name ++ ['=']) := by
  have whole : '=' ∉ front ++ name := by
    rw [List.mem_append,not_or]
    exact ⟨common,plain⟩
  refine Option.ext fun v => ?_
  have found : assignment (front ++ name) (front ++ text) = some v ↔ splitOnce '=' (front ++ text) = some (front ++ name,v) := by
    rw [assignment]
    rcases splitOnce '=' (front ++ text) with _ | ⟨left,right⟩
    · simp
    · rw [Option.bind_some,Option.ite_none_right_eq_some,Option.some.injEq,Option.some.injEq,Prod.mk.injEq]
  rw [found,splitOnce_some whole,List.append_assoc,List.append_cancel_left_eq,List.dropPrefix?_eq_some_iff]
  simp

theorem directive_text (name v : Str) : directive name v = "KERNEL_CONFIG_".toList ++ (name ++ '=' :: v) := List.append_assoc _ _ _

theorem env_spells (plain : '=' ∉ name) (key : Str × Str × Str) :
    rustcEnv ("KERNEL_CONFIG_".toList ++ name) (keyDirectives key.1 (f.toUppercase key.2.1) key.2.2) = spells f name key := by
  have common : '=' ∉ "KERNEL_CONFIG_".toList := by decide
  rw [rustcEnv,keyDirectives,lastSome_append,lastSome_single,directive_text,assignment_spells common plain,spells]
  refine congrArg _ ?_
  by_cases top : key.1 = []
  · rw [if_pos top,if_pos top]
    rfl
  · rw [if_neg top,if_neg top,lastSome_single,directive_text,assignment_spells common plain,List.append_assoc,List.cons_append]

theorem settings_ext {one two : Store Setting Str} (stack : one .stackSizeBytes = two .stackSizeBytes)
    (heap : one .heapSizeBytes = two .heapSizeBytes) (allocator : one .frameAllocator = two .frameAllocator)
    (scheduler : one .sched = two .sched) : one = two :=
  funext fun setting => by cases setting <;> assumption

theorem keyWrites_said (f : Formatting) (p : Profile) (key : Str × Str × Str) :
    keyWrites f p key = outcome (sizeFault f p key) fun setting => said f p setting key := by
  have stack : rustcEnv "KERNEL_CONFIG_STACK_SIZE_BYTES".toList (keyDirectives key.1 (f.toUppercase key.2.1) key.2.2) =
      spells f "STACK_SIZE_BYTES".toList key := env_spells (by decide) key
  have heap : rustcEnv "KERNEL_CONFIG_HEAP_SIZE_BYTES".toList (keyDirectives key.1 (f.toUppercase key.2.1) key.2.2) =
      spells f "HEAP_SIZE_BYTES".toList key := env_spells (by decide) key
  simp only [keyWrites,sizeFault]
  by_cases isStack : f.toUppercase key.2.1 = "STACK_SIZE".toList
  · rw [isStack] at stack heap
    rw [isStack,keyOutput_stack,if_neg (by decide),if_pos rfl]
    cases read : stackBytes f key.2.2 with
    | error fault => rfl
    | ok bytes =>
        refine congrArg Except.ok (settings_ext ?_ ((lastSome_append _ _ _).trans ?_) ?_ ?_)
        · simp only [said,isStack,if_true,read]
          exact lastSome_append _ _ _
        · simp only [said,isStack,if_neg (show "STACK_SIZE".toList ≠ "HEAP_SIZE_KB".toList by decide),← heap]
          rfl
        · simp only [said,isStack,frameAllocatorKey]
        · simp only [said,isStack,schedKey]
  · by_cases isHeap : f.toUppercase key.2.1 = "HEAP_SIZE_KB".toList
    · rw [isHeap] at stack heap
      rw [isHeap,keyOutput_heap,if_pos rfl]
      cases read : heapBytes f p key.2.2 with
      | error fault => rfl
      | ok bytes =>
          refine congrArg Except.ok (settings_ext ((lastSome_append _ _ _).trans ?_) ?_ ?_ ?_)
          · simp only [said,isHeap,if_neg (show "HEAP_SIZE_KB".toList ≠ "STACK_SIZE".toList by decide),← stack]
            rfl
          · simp only [said,isHeap,if_true,read]
            exact lastSome_append _ _ _
          · simp only [said,isHeap,frameAllocatorKey]
          · simp only [said,isHeap,schedKey]
    · rw [keyOutput_other isStack isHeap,if_neg isHeap,if_neg isStack]
      refine congrArg Except.ok (settings_ext ?_ ?_ rfl rfl)
      · simp only [said,if_neg isStack]
        exact stack
      · simp only [said,if_neg isHeap]
        exact heap

theorem derived_said (f : Formatting) (p : Profile) (config : Str) :
    derived f p config = outcome ((keysBy id f config).findSome? (sizeFault f p)) fun setting =>
      lastSome (said f p setting) (keysBy id f config) := by
  rw [derived_runs,seen_keys]
  exact run_outcome (keyWrites_said f p) _

theorem said_tidy (tidy : Tidy f config) (mem : key ∈ keysBy entry f config) (setting : Setting) :
    said f p setting key = meant f p setting key := by
  obtain ⟨stack,heap⟩ := tidy.names key mem
  have sizes := tidy.sizes key mem
  cases setting with
  | stackSizeBytes =>
      simp only [said,meant]
      by_cases isStack : f.toUppercase key.2.1 = "STACK_SIZE".toList
      · rw [if_pos isStack,if_pos ⟨sizes (Or.inl isStack),isStack⟩]
      · rw [if_neg isStack,if_neg fun named => isStack named.2,stack]
  | heapSizeBytes =>
      simp only [said,meant]
      by_cases isHeap : f.toUppercase key.2.1 = "HEAP_SIZE_KB".toList
      · rw [if_pos isHeap,if_pos ⟨sizes (Or.inr isHeap),isHeap⟩]
      · rw [if_neg isHeap,if_neg fun named => isHeap named.2,heap]
  | frameAllocator | sched => rfl

theorem sizeFault_other (elsewhere : ¬ (f.toUppercase key.2.1 = "STACK_SIZE".toList ∨ f.toUppercase key.2.1 = "HEAP_SIZE_KB".toList)) :
    sizeFault f p key = none := by
  rw [not_or] at elsewhere
  rw [sizeFault,if_neg elsewhere.2,if_neg elsewhere.1]

theorem tidy_undisturbed (tidy : Tidy f config) : Undisturbed f p config := by
  have one := keys_plain (f:=f) tidy.headers
  refine ⟨?_,fun _ setting => ?_⟩
  · rw [one]
    refine (findSome_filter fun key mem elsewhere => sizeFault_other fun size => ?_).symm
    exact ne_of_beq_false elsewhere (tidy.sizes key mem size)
  · rw [one]
    exact lastSome_congr fun key mem => said_tidy tidy mem setting

theorem derived_iff (f : Formatting) (p : Profile) (config : Str) : derived f p config = intended f p config ↔ Undisturbed f p config := by
  rw [derived_said,intended,outcome_agree]
  exact ⟨fun ⟨faults,values⟩ => ⟨faults,values⟩,fun ⟨faults,values⟩ => ⟨faults,values⟩⟩

theorem plain_gates (plain : PlainHeaders config) (script : derived f p config = .ok values) (right : intended f p config = .ok others) :
    values .frameAllocator = others .frameAllocator ∧ values .sched = others .sched := by
  rw [derived_said,keys_plain plain] at script
  rw [intended] at right
  generalize (keysBy entry f config).findSome? (sizeFault f p) = bad at script
  generalize ((keysBy entry f config).filter (·.1 == "MEMORY".toList)).findSome? (sizeFault f p) = worse at right
  cases bad with
  | some e => cases script
  | none =>
      cases worse with
      | some e => cases right
      | none =>
          cases script
          cases right
          exact ⟨rfl,rfl⟩

-- The four values are those of [memory] and [sched] exactly for an undisturbed text, and every tidy text is one; the gates
-- need uncommented headers alone. What is meant is a function of the two sections, so that tidy texts with the same two
-- sections agree; and no text that builds is safe from another section.
theorem config_sections (f : Formatting) (p : Profile) :
    (∀ config, derived f p config = intended f p config ↔ Undisturbed f p config) ∧
    (∀ config, Tidy f config → derived f p config = intended f p config) ∧
    (∀ config values others, PlainHeaders config → derived f p config = .ok values → intended f p config = .ok others →
      values .frameAllocator = others .frameAllocator ∧ values .sched = others .sched) ∧
    (∀ config other, SameSections f config other → intended f p config = intended f p other) ∧
    (∀ config other, Tidy f config → Tidy f other → SameSections f config other → derived f p config = derived f p other) ∧
    ∀ features config output, main f p features config = .ok output →
      ∃ other printed, SameSections f config other ∧ (WellFormed config → WellFormed other) ∧
        main f p features other = .ok printed ∧
        rustcEnv "KERNEL_CONFIG_STACK_SIZE_BYTES".toList printed ≠ rustcEnv "KERNEL_CONFIG_STACK_SIZE_BYTES".toList output := by
  have right : ∀ config, Tidy f config → derived f p config = intended f p config :=
    fun config tidy => (derived_iff f p config).2 (tidy_undisturbed tidy)
  refine ⟨derived_iff f p,right,fun config values others => plain_gates,fun config other same => intended_sections same,
    fun config other tidy again same => ?_,fun features config output built => ?_⟩
  · rw [right config tidy,right other again,intended_sections same]
  · have choice : ∃ digit, (digit = '1' ∨ digit = '2') ∧
        some [digit] ≠ rustcEnv "KERNEL_CONFIG_STACK_SIZE_BYTES".toList output := by
      by_cases one : some ['1'] = rustcEnv "KERNEL_CONFIG_STACK_SIZE_BYTES".toList output
      · exact ⟨'2',Or.inr rfl,by rw [← one]; decide⟩
      · exact ⟨'1',Or.inl rfl,one⟩
    obtain ⟨digit,chosen,differs⟩ := choice
    refine ⟨_,_,sections_intruder f config chosen,fun well => wellFormed_intruder well chosen,main_intruder built chosen,?_⟩
    rwa [rustcEnv_intruded output chosen]

def plainConfig : Str := "[memory]\nstack_size=128K\n[sched]\ndefault=rr".toList

def sizedQemu : Str := "[memory]\nstack_size=128K\n[sched]\ndefault=rr\n[qemu]\nstack_size=64K".toList

def commentedHeader : Str := "[memory]\nstack_size=128K\n[sched] # rr | cfs\ndefault=rr".toList

def valueOf (values : Except Fault (Store Setting Str)) (setting : Setting) : Option Str := values.toOption.bind (· setting)

theorem sections_leak : Tidy asciiFormatting plainConfig ∧
    WellFormed plainConfig ∧ WellFormed sizedQemu ∧ WellFormed commentedHeader ∧
    SameSections asciiFormatting plainConfig sizedQemu ∧ SameSections asciiFormatting plainConfig commentedHeader ∧
    valueOf (derived asciiFormatting .dev plainConfig) .stackSizeBytes = some "131072".toList ∧
    valueOf (derived asciiFormatting .dev sizedQemu) .stackSizeBytes = some "65536".toList ∧
    valueOf (derived asciiFormatting .dev plainConfig) .sched = some "rr".toList ∧
    valueOf (derived asciiFormatting .dev commentedHeader) .sched = none := by
  unfold WellFormed
  refine ⟨⟨by unfold PlainHeaders; decide +kernel,by decide +kernel,by decide +kernel⟩,by decide +kernel,by decide +kernel,
    by decide +kernel,    ⟨by decide +kernel,by decide +kernel⟩,⟨by decide +kernel,by decide +kernel⟩,by decide +kernel,by decide +kernel,
    by decide +kernel,by decide +kernel⟩

end RustyCore.BuildScript
