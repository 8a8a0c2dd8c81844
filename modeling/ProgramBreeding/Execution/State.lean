import ProgramBreeding.Execution.Error

/-!
# The state of a run

## Main definitions

* `Scope` — variables and their values.
* `Budget` — the limits of a run.
* `State` — variables, lists, output and the fuel spent.
* `Exec` — what a run does: it changes the state and yields a result or stops.
* `charge` — spends fuel, and now and then looks at the clock and the cancel flag.
* `cost`, `IsPrice` — the fuel that is charged at once.

## Design notes

A run that stops keeps its state, so a later call of the same session goes on from
there.  Fuel is counted in 64-bit words.  The sum of all charges stays at the greatest
word once it gets there.  The sum that sets the mark of the next look is a plain one: a
build that checks sums is aborted if it is not a word, and one that does not wraps it
around.  `Budget.checked` says which of them is run.
-/

namespace ProgramBreeding

/-- Variables and their values; a name occurs at most once. -/
abbrev Scope := List (String × Value)

namespace Scope

/-- The value of a variable. -/
def get? (scope : Scope) (name : String) : Option Value := scope.lookup name

/-- Gives a variable a value. -/
def insert (name : String) (value : Value) : Scope → Scope
  | [] => [(name, value)]
  | entry :: rest =>
    if entry.1 = name then (name, value) :: rest else entry :: insert name value rest

/-- Removes a variable. -/
def erase (scope : Scope) (name : String) : Scope := scope.filter fun entry => entry.1 ≠ name

@[simp] theorem get?_nil (x : String) : get? [] x = none := rfl

theorem get?_cons (entry : String × Value) (rest : Scope) (x : String) :
    get? (entry :: rest) x = if x = entry.1 then some entry.2 else get? rest x := by
  show List.lookup x ((entry.1, entry.2) :: rest) = _
  rw [List.lookup_cons]
  by_cases h : x = entry.1
  · simp [h]
  · rw [beq_false_of_ne h, if_neg h]
    rfl

theorem get?_insert (name : String) (value : Value) (x : String) : ∀ scope : Scope,
    (scope.insert name value).get? x = if x = name then some value else scope.get? x
  | [] => get?_cons _ _ _
  | entry :: rest => by
    unfold insert
    by_cases hentry : entry.1 = name
    · rw [if_pos hentry, get?_cons, get?_cons, hentry]
      by_cases hx : x = name
      · rw [if_pos hx, if_pos hx]
      · rw [if_neg hx, if_neg hx, if_neg hx]
    · rw [if_neg hentry, get?_cons, get?_cons, get?_insert name value x rest]
      by_cases hx : x = name
      · have hne : x ≠ entry.1 := fun h => hentry (h.symm.trans hx)
        rw [if_neg hne, if_pos hx, if_pos hx]
      · rw [if_neg hx, if_neg hx]

theorem get?_erase (name x : String) : ∀ scope : Scope,
    (scope.erase name).get? x = if x = name then none else scope.get? x
  | [] => by simp [erase]
  | entry :: rest => by
    have ih := get?_erase name x rest
    unfold erase at ih ⊢
    by_cases hentry : entry.1 = name
    · rw [List.filter_cons_of_neg (by simpa using hentry), ih, get?_cons, hentry]
      by_cases hx : x = name
      · rw [if_pos hx, if_pos hx]
      · rw [if_neg hx, if_neg hx, if_neg hx]
    · rw [List.filter_cons_of_pos (by simpa using hentry), get?_cons, get?_cons, ih]
      by_cases hx : x = name
      · have hne : x ≠ entry.1 := fun h => hentry (h.symm.trans hx)
        rw [if_neg hne, if_pos hx, if_pos hx]
      · rw [if_neg hx, if_neg hx]

/-- The scope in which a variable has a value, or none. -/
def put (scope : Scope) (name : String) : Option Value → Scope
  | some value => scope.insert name value
  | none => scope.erase name

theorem get?_put (name x : String) (value : Option Value) (scope : Scope) :
    (scope.put name value).get? x = if x = name then value else scope.get? x := by
  cases value with
  | some value => exact get?_insert name value x scope
  | none => exact get?_erase name x scope

end Scope

/-- The limits of a run.  Whether the run has been cancelled or its time is over may
depend on when it looks, that is on the fuel it has spent by then. -/
structure Budget where
  fuel : UInt64
  cancelled : UInt64 → Bool := fun _ => false
  expired : UInt64 → Bool := fun _ => false
  /-- Whether sums of words are checked. -/
  checked : Bool := false

/-- The fuel spent between two looks at the clock and the cancel flag. -/
def pollInterval : UInt64 := 256

/-- The greatest number of nested calls. -/
def maxCallDepth : Nat := 48

/-- The greatest number of elements of a list, and of bytes of a text, that one
operation may build. -/
def maxSequence : Nat := 1048576

/-- The number of bytes that the output stays below. -/
def maxOutput : Nat := 65536

/-- The state of a run. -/
structure State where
  /-- The variables of the module. -/
  globals : Scope := []
  /-- The variables of the calls that have not ended, the innermost first. -/
  frames : List Scope := []
  heap : Heap := #[]
  /-- The fuel spent. -/
  used : UInt64 := 0
  /-- The fuel at which the run looks at the clock and the cancel flag next. -/
  nextPoll : UInt64 := pollInterval
  output : String := ""

/-- What a run does. -/
abbrev Exec := EStateM Stop State

section

variable {α β : Type}

theorem run_bind_ok {m : Exec α} {f : α → Exec β} {a : α} {s t : State} (h : m.run s = .ok a t) :
    (m >>= f).run s = (f a).run t := by
  rw [EStateM.run_bind, h]

theorem run_bind_error {m : Exec α} {f : α → Exec β} {e : Stop} {s t : State}
    (h : m.run s = .error e t) : (m >>= f).run s = .error e t := by
  rw [EStateM.run_bind, h]

theorem run_bind_eq_ok {m : Exec α} {f : α → Exec β} {s u : State} {b : β}
    (h : (m >>= f).run s = .ok b u) : ∃ a t, m.run s = .ok a t ∧ (f a).run t = .ok b u := by
  cases hrun : m.run s with
  | ok a t =>
    rw [run_bind_ok hrun] at h
    exact ⟨a, t, rfl, h⟩
  | error e t =>
    rw [run_bind_error hrun] at h
    cases h

end

/-- Stops with an error of the program. -/
def raise {α : Type} (fault : Fault) : Exec α := throw (.fault fault)

/-- The result of a rule about values. -/
def ofExcept {α : Type} : Except Fault α → Exec α
  | .ok a => pure a
  | .error fault => raise fault

/-! ### Fuel -/

/-- The sum of two words, or the greatest word if the sum is greater. -/
def saturatingAdd (a b : UInt64) : UInt64 :=
  if a.toNat + b.toNat < UInt64.size then a + b else 0xFFFFFFFFFFFFFFFF

/-- Whether the sum that sets the next mark stops a run that has spent so much. -/
def Budget.overflows (budget : Budget) (used : UInt64) : Bool :=
  budget.checked && UInt64.size ≤ used.toNat + pollInterval.toNat

/-- Spends fuel.  A run that has spent more than its budget stops; one that has reached
the mark for a look moves the mark, and stops if it was cancelled or its time is over. -/
def charge (budget : Budget) (units : UInt64) : Exec Unit := do
  modify fun s => { s with used := saturatingAdd s.used units }
  let used := (← get).used
  if budget.fuel < used then throw (.outOfFuel budget.fuel)
  if (← get).nextPoll ≤ used then
    if budget.overflows used then throw .overflow
    modify fun s => { s with nextPoll := used + pollInterval }
    if budget.cancelled used then throw .cancelled
    if budget.expired used then throw .deadline

theorem toNat_saturatingAdd (a b : UInt64) :
    (saturatingAdd a b).toNat = min (a.toNat + b.toNat) (UInt64.size - 1) := by
  unfold saturatingAdd
  split
  · rename_i h
    rw [UInt64.toNat_add, Nat.mod_eq_of_lt h]
    exact (Nat.min_eq_left (Nat.le_sub_one_of_lt h)).symm
  · rename_i h
    have hmax : (0xFFFFFFFFFFFFFFFF : UInt64).toNat = UInt64.size - 1 := by decide
    rw [hmax]
    omega

/-- What a charge does. -/
theorem charge_eq (budget : Budget) (units : UInt64) (s : State) :
    (charge budget units).run s =
      let used := saturatingAdd s.used units
      let looked := { s with used, nextPoll := used + pollInterval }
      if budget.fuel < used then .error (.outOfFuel budget.fuel) { s with used }
      else if s.nextPoll ≤ used then
        if budget.overflows used then .error .overflow { s with used }
        else if budget.cancelled used then .error .cancelled looked
        else if budget.expired used then .error .deadline looked
        else .ok () looked
      else .ok () { s with used } := by
  by_cases hfuel : budget.fuel < saturatingAdd s.used units
  · simp [charge, hfuel]
  · by_cases hpoll : s.nextPoll ≤ saturatingAdd s.used units
    · cases hoverflows : budget.overflows (saturatingAdd s.used units) with
      | true => simp [charge, hfuel, hpoll, hoverflows]
      | false =>
        cases hcancelled : budget.cancelled (saturatingAdd s.used units) <;>
          cases hexpired : budget.expired (saturatingAdd s.used units) <;>
            simp [charge, hfuel, hpoll, hoverflows, hcancelled, hexpired]
    · simp [charge, hfuel, hpoll]

/-- The mark of the next look, once some fuel is spent. -/
def State.pollAfter (s : State) (used : UInt64) : UInt64 :=
  if s.nextPoll ≤ used then used + pollInterval else s.nextPoll

/-- What a charge does that nobody can cancel, where sums are not checked. -/
theorem charge_run (fuel units : UInt64) (s : State) :
    (charge { fuel } units).run s =
      let used := saturatingAdd s.used units
      if fuel < used then .error (.outOfFuel fuel) { s with used }
      else .ok () { s with used, nextPoll := s.pollAfter used } := by
  rw [charge_eq]
  unfold State.pollAfter
  dsimp only
  split
  · rfl
  · split <;> rfl

/-- The fuel for touching `count` elements, of which there are no more than a word can
count. -/
def cost (count : Nat) : UInt64 := (1 + min count 0xFFFFFFFFFFFFFFFF / 4).toUInt64

/-- The greatest number of units that are ever charged at once. -/
def maxUnits : UInt64 := 0x4000000000000000

/-- A number of units that is charged at once. -/
structure IsPrice (units : UInt64) : Prop where
  ne_zero : units ≠ 0
  le : units ≤ maxUnits

theorem toNat_cost (count : Nat) : (cost count).toNat = 1 + min count 0xFFFFFFFFFFFFFFFF / 4 := by
  refine Nat.mod_eq_of_lt ?_
  show _ < 0x10000000000000000
  omega

/-- Nothing is touched for free. -/
theorem isPrice_cost (count : Nat) : IsPrice (cost count) := by
  have hcost := toNat_cost count
  constructor
  · intro h
    rw [h] at hcost
    change 0 = _ at hcost
    omega
  · rw [UInt64.le_iff_toNat_le, hcost]
    show _ ≤ 0x4000000000000000
    omega

theorem isPrice_one : IsPrice 1 := ⟨by decide, by decide⟩

/-! ### Lists -/

/-- Makes a new list. -/
def newList (items : Array Value) : Exec Value := do
  let ref := (← get).heap.size
  modify fun s => { s with heap := s.heap.push items }
  return .list ref

/-- The items of a list. -/
def itemsOf (ref : Ref) : Exec (Array Value) := do
  return (← get).heap.items ref

/-- Changes the items of a list. -/
def updateList (ref : Ref) (f : Array Value → Array Value) : Exec Unit :=
  modify fun s => { s with heap := s.heap.modify ref f }

/-- The values that a loop over a value visits: the items of a list, or the characters
of a text. -/
def iterate (value : Value) : Exec (Array Value) := do
  match value with
  | .list ref => itemsOf ref
  | .str text => return (text.toList.map fun c => Value.str c.toString).toArray
  | value => raise (.notIterable value.kind)

/-- Whether a value counts as true in a condition. -/
def truth (value : Value) : Exec Bool := do
  return value.isTruthy (← get).heap

/-! ### Variables -/

/-- The variables of the innermost call, or of the module outside all calls. -/
def State.scope (s : State) : Scope := s.frames.headD s.globals

/-- Changes the variables of the innermost call, or of the module outside all calls. -/
def State.updateScope (f : Scope → Scope) (s : State) : State :=
  match s.frames with
  | [] => { s with globals := f s.globals }
  | frame :: frames => { s with frames := f frame :: frames }

@[simp] theorem State.updateScope_used (f : Scope → Scope) (s : State) :
    (s.updateScope f).used = s.used := by
  unfold updateScope
  split <;> rfl

@[simp] theorem State.updateScope_output (f : Scope → Scope) (s : State) :
    (s.updateScope f).output = s.output := by
  unfold updateScope
  split <;> rfl

/-- Gives a variable a value in the current scope. -/
def setVar (name : String) (value : Value) : Exec Unit :=
  modify (State.updateScope (Scope.insert name value))

/-- The value of a name: of the current scope, else of the module, else a built-in
function. -/
def State.lookup (s : State) (name : String) : Option Value :=
  ((s.frames.head?.bind fun frame => frame.get? name).or (s.globals.get? name)).or
    ((Builtin.ofName? name).map .builtin)

/-- The value of a name. -/
def getVar (name : String) : Exec Value := do
  match (← get).lookup name with
  | some value => return value
  | none => raise (.undefinedName name)

/-! ### Output -/

/-- Adds a line to the output, unless the output would grow too long. -/
def writeLine (line : String) : Exec Unit :=
  modify fun s =>
    if s.output.utf8ByteSize + line.utf8ByteSize < maxOutput then
      { s with output := s.output ++ line ++ "\n" }
    else s

end ProgramBreeding
