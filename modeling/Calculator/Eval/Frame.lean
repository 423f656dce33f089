import Calculator.Value.Basic

set_option autoImplicit false

namespace Calculator

/-- Bindings, in the order in which the names were first bound. -/
structure Frame where
  bindings : List (String × Value)

namespace Frame

def empty : Frame := ⟨[]⟩

def findIn (name : String) : List (String × Value) → Option Value
  | [] => none
  | (key, value) :: rest => if key = name then some value else findIn name rest

def insertIn (name : String) (value : Value) : List (String × Value) → List (String × Value)
  | [] => [(name, value)]
  | (key, old) :: rest =>
    if key = name then (key, value) :: rest else (key, old) :: insertIn name value rest

def find? (f : Frame) (name : String) : Option Value :=
  findIn name f.bindings

def insert (f : Frame) (name : String) (value : Value) : Frame :=
  ⟨insertIn name value f.bindings⟩

def contains (f : Frame) (name : String) : Bool :=
  (f.find? name).isSome

/-- The frame of a list of bindings; the last one counts for each name. -/
def ofList (bindings : List (String × Value)) : Frame :=
  bindings.foldl (fun f b => f.insert b.1 b.2) empty

def builtins : Frame :=
  ofList (Builtin.all.map fun b => (b.name, .builtin b))

/-- The bindings other than those of builtin functions to their own names, sorted by name. -/
def listing (f : Frame) : List (String × Value) :=
  let isOwn (b : String × Value) : Bool :=
    match b.2 with
    | .builtin function => function.name = b.1
    | _ => false
  (f.bindings.filter fun b => !isOwn b).mergeSort fun a b => a.1 ≤ b.1

theorem find?_insert (f : Frame) (name other : String) (value : Value) :
    (f.insert name value).find? other = if name = other then some value else f.find? other := by
  obtain ⟨bindings⟩ := f
  simp only [insert, find?]
  induction bindings with
  | nil => simp [insertIn, findIn]
  | cons b rest ih =>
    obtain ⟨key, old⟩ := b
    unfold insertIn
    split
    · rename_i h
      subst h
      simp only [findIn]
      split <;> rfl
    · rename_i h
      simp only [findIn, ih]
      split
      · rename_i k
        subst k
        rw [if_neg fun e => h e.symm]
      · rfl

end Frame

/-- The globals and the frames of the calls in progress, the innermost first. -/
structure CallStack where
  globals : Frame
  calls : List Frame

namespace CallStack

def initial : CallStack :=
  ⟨Frame.builtins, []⟩

/-- The frame of the innermost call, or the globals. -/
def top (s : CallStack) : Frame :=
  s.calls.headD s.globals

def setTop (s : CallStack) (f : Frame) : CallStack :=
  match s.calls with
  | [] => { s with globals := f }
  | _ :: rest => { s with calls := f :: rest }

def depth (s : CallStack) : Nat :=
  s.calls.length + 1

def find? (s : CallStack) (name : String) : Option Value :=
  (s.top.find? name).or (s.globals.find? name)

def bindGlobal (s : CallStack) (name : String) (value : Value) : CallStack :=
  { s with globals := s.globals.insert name value }

def bindLocal (s : CallStack) (name : String) (value : Value) : CallStack :=
  s.setTop (s.top.insert name value)

/-- Gives a name that has a value here another value, where it was found. -/
def assign? (s : CallStack) (name : String) (value : Value) : Option CallStack :=
  if s.top.contains name then some (s.bindLocal name value)
  else if s.globals.contains name then some (s.bindGlobal name value)
  else none

/-- Binds a name that has no value here to zero in the frame of the innermost call. -/
def declare (s : CallStack) (name : String) : CallStack :=
  if (s.find? name).isSome then s else s.bindLocal name .zero

def push (s : CallStack) (f : Frame) : CallStack :=
  { s with calls := f :: s.calls }

def pop (s : CallStack) : CallStack :=
  { s with calls := s.calls.tail }

def unwind (s : CallStack) : CallStack :=
  { s with calls := [] }

theorem top_setTop (s : CallStack) (f : Frame) : (s.setTop f).top = f := by
  obtain ⟨globals, calls⟩ := s
  cases calls <;> rfl

theorem depth_setTop (s : CallStack) (f : Frame) : (s.setTop f).depth = s.depth := by
  obtain ⟨globals, calls⟩ := s
  cases calls <;> rfl

end CallStack

end Calculator
