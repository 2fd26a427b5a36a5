import Fisics.Library.ProbeTable

/-!
# The memory-check runtime

The allocation tracker of `fisics_memcheck_runtime.c`: a table of the addresses
that were handed out, with open addressing and slots that stay taken, and the
counters of its report. Each of the four entry points makes at most one call to the
allocator of the host; `answer` is what that call returns.
-/

namespace Fisics.Memcheck

/-- `FISICS_MEMCHECK_CAPACITY` -/
def capacity : Nat := 262144

instance : NeZero capacity := ⟨by decide⟩

/-- An address. -/
abbrev Ptr := BitVec 64

def null : Ptr := 0

inductive SlotState
  | empty
  | active
  | freed
  deriving DecidableEq, Inhabited

structure Slot where
  ptr : Ptr
  size : BitVec 64
  allocFile : Option String
  allocLine : Int
  state : SlotState
  deriving DecidableEq, Inhabited

abbrev Slots := Fin capacity → Slot

inductive ReportPolicy
  | always
  | errors
  | leaks
  | never
  deriving DecidableEq, Inhabited

/-- The globals of the runtime, with what was written to `stderr`. -/
structure Tracker where
  slots : Slots
  activeCount : BitVec 64
  totalAllocs : BitVec 64
  totalFrees : BitVec 64
  doubleFrees : BitVec 64
  unknownFrees : BitVec 64
  trackerFailures : BitVec 64
  generation : BitVec 64
  atexitRegistered : Bool
  policyInitialized : Bool
  reportPolicy : ReportPolicy
  stderr : List String

def emptySlot : Slot := ⟨null, 0, none, 0, .empty⟩

/-- `__fisics_memcheck_reset` -/
def Tracker.reset (t : Tracker) : Tracker :=
  { t with
    slots := fun _ => emptySlot
    activeCount := 0, totalAllocs := 0, totalFrees := 0, doubleFrees := 0, unknownFrees := 0
    trackerFailures := 0, generation := 0 }

def Tracker.report (t : Tracker) (line : String) : Tracker :=
  { t with stderr := t.stderr ++ [line] }

-- The report at exit

/-- What the process answers: the variable `FISICS_MEMCHECK_REPORT` and `atexit`. -/
structure Environment where
  reportVariable : Option String
  atexitSucceeds : Bool
  deriving DecidableEq, Inhabited

def reportPolicyOf : Option String → ReportPolicy
  | none => .always
  | some raw =>
    if raw = "errors" ∨ raw = "error" then .errors
    else if raw = "leaks" ∨ raw = "leak" then .leaks
    else if raw = "never" ∨ raw = "manual" ∨ raw = "0" ∨ raw = "off" then .never
    else .always

def initReportPolicy (env : Environment) (t : Tracker) : Tracker :=
  if t.policyInitialized then t
  else { t with policyInitialized := true, reportPolicy := reportPolicyOf env.reportVariable }

def ensureAtexitRegistered (env : Environment) (t : Tracker) : Tracker :=
  let t := initReportPolicy env t
  if t.atexitRegistered || t.reportPolicy == .never then t
  else if env.atexitSucceeds then { t with atexitRegistered := true }
  else
    { t with trackerFailures := t.trackerFailures + 1, generation := t.generation + 1 }.report
      "[fisics:memory-check] tracker failure: atexit registration failed"

-- The table

def ptrHash (ptr : Ptr) : BitVec 64 :=
  let value := ptr ^^^ (ptr >>> 33)
  let value := value * 0xff51afd7ed558ccd
  value ^^^ (value >>> 33)

def startOf (ptr : Ptr) : Nat := (ptrHash ptr).toNat % capacity

def findSlotFrom (slots : Slots) (ptr : Ptr) (start : Nat) : (left i : Nat) →
    Option (Fin capacity)
  | 0, _ => none
  | left + 1, i =>
    let k := ProbeTable.turn capacity start i
    if (slots k).state = .empty then none
    else if (slots k).ptr = ptr then some k
    else findSlotFrom slots ptr start left (i + 1)

def findSlot (slots : Slots) (ptr : Ptr) : Option (Fin capacity) :=
  if ptr = null then none else findSlotFrom slots ptr (startOf ptr) capacity 0

def findInsertSlotFrom (slots : Slots) (ptr : Ptr) (start : Nat) :
    (firstFreed : Option (Fin capacity)) → (left i : Nat) → Option (Fin capacity)
  | firstFreed, 0, _ => firstFreed
  | firstFreed, left + 1, i =>
    let k := ProbeTable.turn capacity start i
    if (slots k).ptr = ptr then some k
    else
      let firstFreed := if (slots k).state = .freed ∧ firstFreed = none then some k else firstFreed
      if (slots k).state = .empty then some k
      else findInsertSlotFrom slots ptr start firstFreed left (i + 1)

def findInsertSlot (slots : Slots) (ptr : Ptr) : Option (Fin capacity) :=
  if ptr = null then none else findInsertSlotFrom slots ptr (startOf ptr) none capacity 0

structure Site where
  file : Option String
  line : Int
  deriving DecidableEq, Inhabited

def trackAllocation (t : Tracker) (ptr : Ptr) (size : BitVec 64) (site : Site) : Tracker :=
  if ptr = null then t
  else
    match findInsertSlot t.slots ptr with
    | none =>
      { t with trackerFailures := t.trackerFailures + 1, generation := t.generation + 1 }.report
        "[fisics:memory-check] tracker failure: allocation table full"
    | some k =>
      { t with
        activeCount :=
          if (t.slots k).state ≠ .active then t.activeCount + 1 else t.activeCount
        slots := Function.update t.slots k ⟨ptr, size, site.file, site.line, .active⟩
        totalAllocs := t.totalAllocs + 1
        generation := t.generation + 1 }

def markReleased (t : Tracker) (k : Fin capacity) : Tracker :=
  if (t.slots k).state ≠ .active then t
  else
    { t with
      slots := Function.update t.slots k
        { t.slots k with state := .freed, size := 0, allocFile := none, allocLine := 0 }
      activeCount := if 0 < t.activeCount then t.activeCount - 1 else t.activeCount
      totalFrees := t.totalFrees + 1
      generation := t.generation + 1 }

-- The entry points

inductive Call
  | malloc (size : BitVec 64)
  | calloc (count size : BitVec 64)
  | realloc (ptr : Ptr) (size : BitVec 64)
  | free (ptr : Ptr)
  deriving DecidableEq, Inhabited

structure Outcome where
  tracker : Tracker
  /-- `NULL` for `free`, which returns nothing. -/
  returned : Ptr
  /-- The call made to the host. -/
  host : Option Call

def displayFileName : Option String → String
  | none => "<unknown>"
  | some file =>
    if file = "" then "<unknown>"
    else
      String.ofList (file.toList.reverse.takeWhile fun c => c ≠ '/' ∧ c ≠ '\\').reverse

def reportFreeSite (site : Site) (t : Tracker) : Tracker :=
  if site.file.isSome ∧ 0 < site.line then
    t.report ("[fisics:memory-check]   free_site=" ++ displayFileName site.file ++ ":" ++
      toString site.line)
  else t

def mallocSite (size : BitVec 64) (site : Site) (answer : Ptr) (t : Tracker) : Outcome :=
  ⟨if answer ≠ null then trackAllocation t answer size site else t, answer, some (.malloc size)⟩

def callocSite (count size : BitVec 64) (site : Site) (answer : Ptr) (t : Tracker) : Outcome :=
  ⟨if answer ≠ null then trackAllocation t answer (count * size) site else t, answer,
    some (.calloc count size)⟩

def reallocSite (ptr : Ptr) (size : BitVec 64) (site : Site) (answer : Ptr) (t : Tracker) :
    Outcome :=
  if ptr = null then
    ⟨if answer ≠ null then trackAllocation t answer size site else t, answer, some (.realloc null size)⟩
  else
    match findSlot t.slots ptr with
    | none =>
      ⟨{ t with unknownFrees := t.unknownFrees + 1, generation := t.generation + 1 }.report
        "[fisics:memory-check] unknown pointer realloc", null, none⟩
    | some k =>
      match (t.slots k).state with
      | .empty =>
        ⟨{ t with unknownFrees := t.unknownFrees + 1, generation := t.generation + 1 }.report
          "[fisics:memory-check] unknown pointer realloc", null, none⟩
      | .freed =>
        ⟨{ t with doubleFrees := t.doubleFrees + 1, generation := t.generation + 1 }.report
          "[fisics:memory-check] realloc after free", null, none⟩
      | .active =>
        if answer = null then ⟨t, null, some (.realloc ptr size)⟩
        else
          ⟨trackAllocation (markReleased t k) answer size site, answer, some (.realloc ptr size)⟩

def freeSite (ptr : Ptr) (site : Site) (t : Tracker) : Outcome :=
  if ptr = null then ⟨t, null, none⟩
  else
    match findSlot t.slots ptr with
    | none =>
      ⟨reportFreeSite site
        ({ t with unknownFrees := t.unknownFrees + 1, generation := t.generation + 1 }.report
          "[fisics:memory-check] unknown pointer free"), null, none⟩
    | some k =>
      match (t.slots k).state with
      | .empty =>
        ⟨reportFreeSite site
          ({ t with unknownFrees := t.unknownFrees + 1, generation := t.generation + 1 }.report
            "[fisics:memory-check] unknown pointer free"), null, none⟩
      | .freed =>
        ⟨reportFreeSite site
          ({ t with doubleFrees := t.doubleFrees + 1, generation := t.generation + 1 }.report
            "[fisics:memory-check] double free"), null, none⟩
      | .active => ⟨markReleased t k, null, some (.free ptr)⟩

structure Event where
  call : Call
  site : Site
  env : Environment
  answer : Ptr
  deriving DecidableEq, Inhabited

def perform (ev : Event) (t : Tracker) : Outcome :=
  let t := ensureAtexitRegistered ev.env t
  match ev.call with
  | .malloc size => mallocSite size ev.site ev.answer t
  | .calloc count size => callocSite count size ev.site ev.answer t
  | .realloc ptr size => reallocSite ptr size ev.site ev.answer t
  | .free ptr => freeSite ptr ev.site t

end Fisics.Memcheck
