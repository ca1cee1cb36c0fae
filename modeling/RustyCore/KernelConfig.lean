import RustyCore.LastWrites
import RustyCore.SizeGrammar

namespace RustyCore.BuildScript

open RustStrings LastWrites

-- What the case functions and `{:?}` of a `str` take from the Unicode tables.
structure Formatting extends CaseTable where
  debug : Str → Str

def asciiFormatting : Formatting := { asciiTable with debug := fun s => '"' :: s ++ ['"'] }

structure Script where
  section_ : Str
  frameAllocatorCfg : Option Str
  schedCfg : Option Str
  output : List Str

def Script.start : Script := ⟨[],none,none,[]⟩

def normalized (name : Str) : Str := replace (oneOf ['-','.']) '_' (trim name)

def headerName (line : Str) : Option Str := (stripPrefix (· == '[') line).bind (stripSuffix (· == ']'))

def keyValue (line : Str) : Option (Str × Str) :=
  (splitOnce '=' line).map fun halves => (normalized halves.1,trim (trimMatches (· == '"') (trim halves.2)))

inductive Line (α : Type) where
  | other
  | header (section_ : Str)
  | item (content : α)

-- The comment is cut off after the line was tried as a header.
def readLine (f : Formatting) (line : Str) : Line (Str × Str) :=
  if line = [] ∨ line.head? = some '#' then .other
  else
    match headerName line with
    | some name => .header (f.toUppercase (normalized name))
    | none =>
      match keyValue (trim (splitFirst '#' line)) with
      | some pair => .item pair
      | none => .other

def directive (name v : Str) : Str := "KERNEL_CONFIG_".toList ++ name ++ '=' :: v

def keyDirectives (section_ upper v : Str) : List Str :=
  (if section_ = [] then [] else [directive (section_ ++ '_' :: upper) v]) ++ [directive upper v]

-- `heap_size_kb` in bytes, as it is printed; the product is a plain `*`.
def heapBytes (f : Formatting) (p : Profile) (v : Str) : Except Fault Str :=
  match parseU64 v with
  | some kb => (p.mul kb 1024).map decimal
  | none => .error (.panicked ("kernel_config.toml: heap_size_kb must be a plain number, got " ++ String.ofList (f.debug v)))

def stackBytes (f : Formatting) (v : Str) : Except Fault Str :=
  match parseSizeBytes v with
  | some bytes => .ok (decimal bytes)
  | none => .error (.panicked ("kernel_config.toml: stack_size must be like \"128K\", got " ++ String.ofList (f.debug v)))

def heapDirectives (f : Formatting) (p : Profile) (upper v : Str) : Except Fault (List Str) :=
  if upper = "HEAP_SIZE_KB".toList then (heapBytes f p v).map fun bytes => [directive "HEAP_SIZE_BYTES".toList bytes]
  else .ok []

def stackDirectives (f : Formatting) (upper v : Str) : Except Fault (List Str) :=
  if upper = "STACK_SIZE".toList then (stackBytes f v).map fun bytes => [directive "STACK_SIZE_BYTES".toList bytes]
  else .ok []

def keyOutput (f : Formatting) (p : Profile) (section_ upper v : Str) : Except Fault (List Str) := do
  let heap ← heapDirectives f p upper v
  let stack ← stackDirectives f upper v
  .ok (keyDirectives section_ upper v ++ heap ++ stack)

def frameAllocatorKey (f : Formatting) (section_ upper v : Str) : Option Str :=
  if section_ = "MEMORY".toList ∧ upper = "FRAME_ALLOCATOR".toList then some (f.toLowercase v) else none

def schedKey (f : Formatting) (section_ upper v : Str) : Option Str :=
  if section_ = "SCHED".toList ∧ upper = "DEFAULT".toList then some (f.toLowercase v) else none

def setKey (f : Formatting) (p : Profile) (s : Script) (k v : Str) : Except Fault Script :=
  let upper := f.toUppercase k
  (keyOutput f p s.section_ upper v).map fun printed =>
    { s with
      output := s.output ++ printed
      frameAllocatorCfg := (frameAllocatorKey f s.section_ upper v).or s.frameAllocatorCfg
      schedCfg := (schedKey f s.section_ upper v).or s.schedCfg }

def processLine (f : Formatting) (p : Profile) (s : Script) (line : Str) : Except Fault Script :=
  match readLine f line with
  | .other => .ok s
  | .header name => .ok { s with section_ := name }
  | .item (k,v) => setKey f p s k v

def trimmedLines (config : Str) : List Str := (lines config).map trim

def readConfig (f : Formatting) (p : Profile) (config : Str) : Except Fault Script :=
  (trimmedLines config).foldlM (processLine f p) Script.start

def featureGate (cfg : Option Str) (one two : Str) (hasOne hasTwo : Bool) (disagreement : Str → String) : Except Fault Unit :=
  match cfg with
  | none => .ok ()
  | some other =>
    if other = one ∧ hasOne ∧ ¬ hasTwo then .ok ()
    else if other = two ∧ hasTwo ∧ ¬ hasOne then .ok ()
    else .error (.panicked (disagreement other))

structure Features where
  bump : Bool
  buddy : Bool
  rr : Bool
  cfs : Bool

def frameAllocatorGate (f : Formatting) (features : Features) (cfg : Option Str) : Except Fault Unit :=
  featureGate cfg "bump".toList "buddy".toList features.bump features.buddy fun other =>
    "kernel_config.toml [memory] frame_allocator=" ++ String.ofList (f.debug other) ++
      " disagrees with Cargo features (alloc-bump=" ++ toString features.bump ++ ", alloc-buddy=" ++ toString features.buddy ++
      "): select exactly one, in both places"

def schedGate (f : Formatting) (features : Features) (cfg : Option Str) : Except Fault Unit :=
  featureGate cfg "rr".toList "cfs".toList features.rr features.cfs fun other =>
    "kernel_config.toml [sched] default=" ++ String.ofList (f.debug other) ++
      " disagrees with Cargo features (sched-rr=" ++ toString features.rr ++ ", sched-cfs=" ++ toString features.cfs ++
      "): select exactly one, in both places"

def main (f : Formatting) (p : Profile) (features : Features) (config : Str) : Except Fault (List Str) := do
  let s ← readConfig f p config
  frameAllocatorGate f features s.frameAllocatorCfg
  schedGate f features s.schedCfg
  .ok s.output

-- Cargo splits a directive at its first `=`, and the last one of a name counts.
def assignment (name : Str) (line : Str) : Option Str :=
  (splitOnce '=' line).bind fun halves => if halves.1 = name then some halves.2 else none

def rustcEnv (name : Str) (output : List Str) : Option Str := lastSome (assignment name) output

inductive Setting where
  | stackSizeBytes
  | heapSizeBytes
  | frameAllocator
  | sched
  deriving DecidableEq, Repr

def Script.values (s : Script) : Store Setting Str
  | .stackSizeBytes => rustcEnv "KERNEL_CONFIG_STACK_SIZE_BYTES".toList s.output
  | .heapSizeBytes => rustcEnv "KERNEL_CONFIG_HEAP_SIZE_BYTES".toList s.output
  | .frameAllocator => s.frameAllocatorCfg
  | .sched => s.schedCfg

def derived (f : Formatting) (p : Profile) (config : Str) : Except Fault (Store Setting Str) :=
  (readConfig f p config).map Script.values

def inSections (read : Str → Line α) : Str → List Str → List (Str × α)
  | _,[] => []
  | section_,line :: rest =>
    match read line with
    | .other => inSections read section_ rest
    | .header name => inSections read name rest
    | .item content => (section_,content) :: inSections read section_ rest

def seen (f : Formatting) (config : Str) : List (Str × Str × Str) := inSections (readLine f) [] (trimmedLines config)

def keyWrites (f : Formatting) (p : Profile) (key : Str × Str × Str) : Except Fault (Store Setting Str) :=
  let upper := f.toUppercase key.2.1
  (keyOutput f p key.1 upper key.2.2).map fun printed => fun
    | .stackSizeBytes => rustcEnv "KERNEL_CONFIG_STACK_SIZE_BYTES".toList printed
    | .heapSizeBytes => rustcEnv "KERNEL_CONFIG_HEAP_SIZE_BYTES".toList printed
    | .frameAllocator => frameAllocatorKey f key.1 upper key.2.2
    | .sched => schedKey f key.1 upper key.2.2

theorem fold_runs (f : Formatting) (p : Profile) (rest : List Str) (s : Script) :
    (rest.foldlM (processLine f p) s).map Script.values =
      run (keyWrites f p) (inSections (readLine f) s.section_ rest) s.values := by
  induction rest generalizing s with
  | nil => rfl
  | cons line rest ih =>
      rw [List.foldlM_cons,processLine,inSections]
      cases readLine f line with
      | other => exact ih s
      | header name => exact ih { s with section_ := name }
      | item content =>
          rw [run_cons]
          simp only [setKey,keyWrites]
          cases keyOutput f p s.section_ (f.toUppercase content.1) content.2 with
          | error fault => rfl
          | ok printed =>
              refine (ih _).trans (congrArg (run _ _) (funext fun setting => ?_))
              cases setting with
              | stackSizeBytes | heapSizeBytes => exact lastSome_append _ _ _
              | frameAllocator | sched => rfl

theorem derived_runs (f : Formatting) (p : Profile) (config : Str) :
    derived f p config = run (keyWrites f p) (seen f config) fun _ => none := by
  have started : Script.start.values = fun _ => none := funext fun setting => by cases setting <;> rfl
  rw [derived,readConfig,fold_runs,started]
  rfl

end RustyCore.BuildScript
