import JobControllerClient.Foundation.Program
import JobControllerClient.Messaging

/-! The Python C API behind `python_interface.rs`, as the environment of the code that
embeds the interpreter. The state counts the references of that code. Whatever breaks the rules
of the API is recorded as a fault and not excluded. -/
namespace JobControllerClient
namespace PythonApi

open Messaging

/-- The address of an object; NULL is `none`. -/
abbrev Obj := ℕ

/-- The address of a thread state. A sub-interpreter goes by the address of its first one. -/
abbrev ThreadState := ℕ

def pyNone : Obj := 0

def pyTrue : Obj := 1

/-- The fields of `BundleInterfaceInner`. -/
structure Bundle where
  interp : ThreadState
  bundleModule : Obj
  jsonModule : Obj
  tracebackModule : Obj
  bundleHash : String
  deriving DecidableEq

/-- The error indicator: raised by the API itself, or set with `PyErr_SetString`. -/
inductive Raised
  | python
  | set (type : Obj) (msg : String)
  deriving DecidableEq

/-- What the API forbids: a call without a thread state or without the GIL, waiting for the
GIL while holding it, printing an exception when there is none, and the use of an object or
thread state that may be gone. -/
inductive Fault
  | detached
  | noGil
  | gilHeld
  | noException
  | dead (o : Obj)
  | deadState (ts : ThreadState)
  deriving DecidableEq

/-- `owned` are the references that the running code has to give back, `kept` those of the cached
bundles and of the table of exceptions, `lent` the objects that others keep alive. `bundle` is
the entry of the calling thread in the thread bundle map, `saved` the static `STATE` of
`bundle_interface.rs`; `errorsLocked` and `errorObjects` are the mutex `BUNDLE_DB_ERRORS` and its
content. -/
@[ext]
structure Python where
  owned : Multiset Obj
  kept : Multiset Obj
  lent : Finset Obj
  error : Option Raised
  current : Option ThreadState
  gil : Bool
  states : List ThreadState
  mainTs : ThreadState
  saved : Option ThreadState
  mutex : Bool
  bundle : Option String
  cache : List (String × Bundle)
  errorsLocked : Bool
  errorObjects : List (String × Obj)
  faults : List Fault

namespace Python

def Live (x : Python) (o : Obj) : Prop :=
  o = pyNone ∨ o = pyTrue ∨ o ∈ x.lent ∨ o ∈ x.kept ∨ o ∈ x.owned

instance (x : Python) (o : Obj) : Decidable (x.Live o) := by
  unfold Live
  infer_instance

def Holds (x : Python) (o : Obj) : Prop := o ∈ x.owned

def own (x : Python) (o : Obj) : Python := { x with owned := o ::ₘ x.owned }

def raise (x : Python) : Python := { x with error := some .python }

def clear (x : Python) : Python := { x with error := none }

def blame (x : Python) (faults : List Fault) : Python := { x with faults := x.faults ++ faults }

/-- A call that needs the interpreter and touches the objects `uses`. -/
def check (x : Python) (uses : List Obj) : Python :=
  x.blame ((if x.current = none then [.detached] else []) ++ (if x.gil then [] else [.noGil]) ++
    (uses.filter fun o => !decide (x.Live o)).map .dead)

/-- Give up one reference. -/
def release (x : Python) (o : Obj) : Python :=
  if o ∈ x.owned then { x with owned := x.owned.erase o } else x.blame [.dead o]

def pin (x : Python) (o : Obj) : Python := { x with kept := o ::ₘ x.kept }

/-- A static takes the reference over. -/
def keep (x : Python) (o : Obj) : Python := (x.release o).pin o

end Python

/-- The functions that return a new reference, or NULL with an exception. -/
inductive New
  | getAttrString (obj : Obj) (name : String)
  | tupleNew (size : ℕ)
  | unicodeFromString (s : String)
  | longFromUnsignedLongLong (value : UInt64)
  | dictNew
  | importModule (name : String)
  | runString (globals locals : Obj)
  | repr (obj : Obj)
  | str (obj : Obj)
  | newException (name : String)
  | moduleCreate (name : String)
  deriving DecidableEq

def New.uses : New → List Obj
  | .getAttrString obj _ | .repr obj | .str obj => [obj]
  | .runString globals locals => [globals,locals]
  | _ => []

/-- The functions that return a status, with an exception if it is negative. -/
inductive Put
  | dictSetItemString (dict : Obj) (key : String) (value : Obj)
  | listAppend (list item : Obj)
  deriving DecidableEq

def Put.uses : Put → List Obj
  | .dictSetItemString dict _ value => [dict,value]
  | .listAppend list item => [list,item]

/-- `iterNext` carries how many items the finite iterator still has, `insertError` whether the
table takes the reference over. -/
inductive Call
  | new (f : New)
  | put (f : Put)
  | callObject (callable args : Obj)
  | getIter (obj : Obj)
  | iterNext (iter : Obj) (left : ℕ)
  | tupleGetItem (tuple : Obj) (pos : ℕ)
  | sysGetObject (name : String)
  | getBuiltins
  | tupleSetItem (tuple : Obj) (pos : ℕ) (item : Obj)
  | moduleAddObject (module : Obj) (name : String) (value : Obj)
  | callableCheck (obj : Obj)
  | unicodeAsUtf8 (obj : Obj)
  | longAsUnsignedLongLong (obj : Obj)
  | errOccurred
  | errFetch
  | errClear
  | errPrint
  | errSetString (type : Obj) (msg : String)
  | incRef (obj : Obj)
  | decRef (obj : Obj)
  | newInterpreter
  | endInterpreter (ts : ThreadState)
  | threadStateGet
  | threadStateSwap (ts : Option ThreadState)
  | threadStateNew (interp : ThreadState)
  | threadStateClear (ts : ThreadState)
  | threadStateDeleteCurrent
  | restoreThread (ts : ThreadState)
  | saveThread
  | getState
  | setState (saved : Option ThreadState)
  | getMainTs
  | lockPython
  | unlockPython
  | setCurrentThreadBundle (hash : String)
  | clearCurrentThreadBundle
  | getCurrentThreadBundle
  | lookupBundle (hash : String)
  | insertBundle (hash : String) (bundle : Bundle)
  | lockErrors
  | unlockErrors
  | lookupError (hash : String)
  | insertError (hash : String) (exc : Obj) (takes : Bool)
  | sendAndWait (msg : Message)
  | log (line : String)

namespace Call

/-- The objects that have to be alive. -/
def uses : Call → List Obj
  | .new f => f.uses
  | .put f => f.uses
  | .callObject callable args => [callable,args]
  | .getIter obj | .callableCheck obj | .unicodeAsUtf8 obj | .longAsUnsignedLongLong obj
  | .incRef obj => [obj]
  | .iterNext iter _ => [iter]
  | .tupleGetItem tuple _ | .tupleSetItem tuple _ _ => [tuple]
  | .moduleAddObject module _ value => [module,value]
  | .errSetString type _ => [type]
  | _ => []

/-- The references that are given up. -/
def releases : Call → List Obj
  | .tupleSetItem _ _ item => [item]
  | .moduleAddObject _ _ value => [value]
  | .decRef obj => [obj]
  | .insertBundle _ b => [b.bundleModule,b.jsonModule,b.tracebackModule]
  | _ => []

/-- A call into the interpreter. It may run Python code, if only the finalizer of an object. -/
def inPython : Call → Bool
  | .threadStateSwap _ | .threadStateNew _ | .restoreThread _ | .getState | .setState _
  | .getMainTs | .lockPython | .unlockPython | .setCurrentThreadBundle _
  | .clearCurrentThreadBundle | .getCurrentThreadBundle | .lookupBundle _ | .insertBundle _ _
  | .lockErrors | .unlockErrors | .lookupError _ | .insertError _ _ _ | .sendAndWait _ | .log _ =>
    false
  | _ => true

/-- What only the callbacks do. -/
def ofCallbacks : Call → Bool
  | .lockErrors | .unlockErrors | .lookupError _ | .insertError _ _ _ | .sendAndWait _ => true
  | _ => false

/-- The calls in which nobody decides anything. -/
def certain : Call → Bool
  | .errOccurred | .errClear | .errPrint | .errSetString _ _ | .incRef _ | .decRef _
  | .endInterpreter _ | .threadStateGet | .threadStateSwap _ | .threadStateClear _
  | .threadStateDeleteCurrent | .restoreThread _ | .saveThread | .getState | .setState _
  | .getMainTs | .unlockPython | .setCurrentThreadBundle _ | .clearCurrentThreadBundle
  | .lookupBundle _ | .insertBundle _ _ | .log _ => true
  | _ => false

end Call

/-- The three references of `PyErr_Fetch`. -/
structure Fetched where
  extype : Option Obj
  value : Option Obj
  traceback : Option Obj
  deriving DecidableEq

def Answer : Call → Type
  | .new _ | .callObject _ _ | .iterNext _ _ | .tupleGetItem _ _ | .sysGetObject _
  | .lookupError _ => Option Obj
  | .getIter _ => Option (Obj × ℕ)
  | .getBuiltins => Obj
  | .put _ | .tupleSetItem _ _ _ | .moduleAddObject _ _ _ | .callableCheck _ | .errOccurred => Bool
  | .unicodeAsUtf8 _ | .getCurrentThreadBundle => Option String
  | .longAsUnsignedLongLong _ => UInt64
  | .errFetch => Fetched
  | .newInterpreter | .threadStateGet | .threadStateSwap _ | .threadStateNew _ | .saveThread
  | .getState => Option ThreadState
  | .getMainTs => ThreadState
  | .lookupBundle _ => Option Bundle
  | .sendAndWait _ => Except String Message
  | _ => Unit

abbrev Py := Program Answer

/-- The functions of `_bundledb` and `_bundlelogging` that Python code calls, and those that make
the two modules. -/
inductive Native
  | createOrUpdateJob
  | getJobById
  | deleteJob
  | pyInitBundledb
  | writeLog
  | pyInitBundlelogging
  deriving DecidableEq

/-- What the interpreter and the server decide. Before a call answers, Python code may call back;
each callback comes with its arguments and with what is decided in it. -/
inductive Choice
  | go
  | null
  | quiet
  | obj (o : Obj)
  | objRaised (o : Obj)
  | items (o : Obj) (count : ℕ)
  | flag (b : Bool)
  | text (s : String)
  | number (n : UInt64)
  | fetched (extype : Obj) (value traceback : Option Obj)
  | state (ts : ThreadState)
  | lost
  | answer (result : Except String Message)
  | python (calls : List (Native × Obj × List Choice)) (c : Choice)

namespace Python

def inBundle (x : Python) (hash : Option String) : Python := { x with bundle := hash }

def lends (x : Python) (objs : Finset Obj) : Python := { x with lent := objs ∪ x.lent }

/-- The calling thread runs on the thread state, with the GIL. -/
def on (x : Python) (ts : ThreadState) : Python :=
  { x with current := some ts, gil := true, error := none }

def off (x : Python) : Python := { x with current := none, gil := false }

def withCurrent (x : Python) (ts : Option ThreadState) : Python := { x with current := ts }

def withSaved (x : Python) (ts : Option ThreadState) : Python := { x with saved := ts }

def withMutex (x : Python) (held : Bool) : Python := { x with mutex := held }

def withStates (x : Python) (states : List ThreadState) : Python := { x with states }

def withErrorsLocked (x : Python) (held : Bool) : Python := { x with errorsLocked := held }

def fail (x : Python) (type : Obj) (msg : String) : Python := { x with error := some (.set type msg) }

def withError (x : Python) (hash : String) (exc : Obj) : Python :=
  { x with errorObjects := (hash,exc) :: x.errorObjects }

/-- The cached bundle keeps its three modules. -/
def withBundle (x : Python) (hash : String) (b : Bundle) : Python :=
  { ((x.keep b.bundleModule).keep b.jsonModule).keep b.tracebackModule with
    cache := (hash,b) :: x.cache }

def ownSome (x : Python) : Option Obj → Python
  | none => x
  | some o => x.own o

/-- `PyErr_Fetch` hands its references over and clears the indicator. -/
def fetch (x : Python) (f : Fetched) : Python :=
  ((x.clear.ownSome f.extype).ownSome f.value).ownSome f.traceback

/-- The thread state that becomes current has no pending exception. -/
def attach (x : Python) (ts : ThreadState) : Python :=
  (x.blame ((if x.gil then [.gilHeld] else []) ++
    (if ts ∈ x.states then [] else [.deadState ts]))).on ts

end Python

/-- What a call does. One that returns a result may leave an exception behind only where the code
checks for it; NULL means an exception except for `PyObject_CallObject` and `PyIter_Next`. Where
`PyErr_Print` meets a `SystemExit` the process ends, and where a mutex is held by the thread
itself it waits for ever; these are no steps. -/
def effect (x : Python) : (r : Call) → Choice → Option (Python × Answer r)
  | .new _, .null => some (x.raise,none)
  | .new _, .obj o => some (x.own o,some o)
  | .put _, .flag b => some (if b then x else x.raise,b)
  | .callObject _ _, .null => some (x.raise,none)
  | .callObject _ _, .quiet => some (x,none)
  | .callObject _ _, .obj o => some (x.own o,some o)
  | .callObject _ _, .objRaised o => some ((x.own o).raise,some o)
  | .getIter _, .null => some (x.raise,none)
  | .getIter _, .items iter count => some (x.own iter,some (iter,count))
  | .iterNext _ _, .null => some (x.raise,none)
  | .iterNext _ 0, .quiet => some (x,none)
  | .iterNext _ (_ + 1), .obj o => some (x.own o,some o)
  | .tupleGetItem _ _, .null => some (x.raise,none)
  -- what follows a missing item of a tuple is missing too
  | .tupleGetItem _ _, .obj o => if x.error = none then some (x.lends {o},some o) else none
  | .sysGetObject _, .null => some (x,none)
  | .sysGetObject _, .obj o => some (x.lends {o},some o)
  | .getBuiltins, .obj o => some (x.lends {o},o)
  | .tupleSetItem _ _ item, .flag b =>
    some (if b then x.release item else (x.release item).raise,b)
  -- the module takes the reference over only when it succeeds
  | .moduleAddObject _ _ value, .flag b =>
    some (if b then (x.release value).lends {value} else x.raise,b)
  | .callableCheck _, .flag b => some (x,b)
  | .unicodeAsUtf8 _, .null => some (x.raise,none)
  | .unicodeAsUtf8 _, .text s => some (x,some s)
  | .longAsUnsignedLongLong _, .null => some (x.raise,UInt64.ofNat (2^64 - 1))
  | .longAsUnsignedLongLong _, .number n => some (x,n)
  | .errOccurred, .go => some (x,x.error.isSome)
  | .errFetch, .quiet => if x.error = none then some (x,⟨none,none,none⟩) else none
  | .errFetch, .fetched e v t =>
    if x.error = none then none else some (x.fetch ⟨some e,v,t⟩,⟨some e,v,t⟩)
  | .errClear, .go => some (x.clear,())
  | .errPrint, .go =>
    some ((x.blame (if x.error = none then [.noException] else [])).clear,())
  | .errSetString type msg, .go => some (x.fail type msg,())
  | .incRef o, .go => some (x.own o,())
  | .decRef o, .go => some (x.release o,())
  | .newInterpreter, .state ts =>
    if ts ∈ x.states then none
    else some ((x.withStates (ts :: x.states)).withCurrent (some ts),some ts)
  | .newInterpreter, .null => some (x,none)
  | .newInterpreter, .lost => some (x.withCurrent none,none)
  | .endInterpreter ts, .go =>
    some (((x.blame (if x.current = some ts then [] else [.deadState ts])).withStates
      (x.states.erase ts)).off,())
  | .threadStateGet, .go => some (x,x.current)
  | .threadStateSwap ts, .go =>
    some ((x.blame (if x.gil then [] else [.noGil])).withCurrent ts,x.current)
  | .threadStateNew interp, .state ts =>
    if ts ∈ x.states then none
    else some ((x.blame (if interp ∈ x.states then [] else [.deadState interp])).withStates
      (ts :: x.states),some ts)
  | .threadStateNew interp, .null =>
    some (x.blame (if interp ∈ x.states then [] else [.deadState interp]),none)
  | .threadStateClear ts, .go =>
    some ((x.blame (if ts ∈ x.states then [] else [.deadState ts])).clear,())
  | .threadStateDeleteCurrent, .go =>
    some (x.off.withStates (x.states.filter fun ts => some ts ≠ x.current),())
  | .restoreThread ts, .go => some (x.attach ts,())
  | .saveThread, .go => some (x.off,x.current)
  | .getState, .go => some (x,x.saved)
  | .setState saved, .go => some (x.withSaved saved,())
  | .getMainTs, .go => some (x,x.mainTs)
  | .lockPython, .go => if x.mutex then none else some (x.withMutex true,())
  | .unlockPython, .go => some (x.withMutex false,())
  | .setCurrentThreadBundle hash, .go => some (x.inBundle (some hash),())
  | .clearCurrentThreadBundle, .go => some (x.inBundle none,())
  | .getCurrentThreadBundle, .go => some (x,x.bundle)
  | .lookupBundle hash, .go => some (x,x.cache.lookup hash)
  | .insertBundle hash bundle, .go => some (x.withBundle hash bundle,())
  | .lockErrors, .go => if x.errorsLocked then none else some (x.withErrorsLocked true,())
  | .unlockErrors, .go => some (x.withErrorsLocked false,())
  | .lookupError hash, .go => some (x,x.errorObjects.lookup hash)
  | .insertError hash exc takes, .go => some ((cond takes (x.keep exc) x).withError hash exc,())
  | .sendAndWait _, .answer result => some (x,result)
  | .log _, .go => some (x,())
  | _, _ => none

/-- A call in which no Python code calls back. -/
def respond (x : Python) (r : Call) (c : Choice) : Option (Python × Answer r) :=
  effect (cond r.inPython (x.check r.uses) x) r c

namespace Python

/-- What the cached bundles and the table of exceptions refer to is alive. -/
structure Stored (x : Python) : Prop where
  modules : ∀ e ∈ x.cache, e.2.bundleModule ∈ x.kept ∧ e.2.jsonModule ∈ x.kept ∧
    e.2.tracebackModule ∈ x.kept
  errors : ∀ e ∈ x.errorObjects, e.2 ∈ x.kept ∨ e.2 ∈ x.lent

/-- The calling thread has a thread state, the GIL and `PYTHON_MUTEX`. -/
structure Running (x : Python) : Prop where
  stored : Stored x
  current : x.current ≠ none
  gil : x.gil = true
  mutex : x.mutex = true

structure Ready (x : Python) : Prop extends Running x where
  error : x.error = none

section States

variable {x : Python} {a b : Obj}

@[simp] theorem live_own : (x.own a).Live b ↔ b = a ∨ x.Live b := by
  simp only [Live,own,Multiset.mem_cons]
  tauto

@[simp] theorem running_own : (x.own a).Running ↔ x.Running :=
  ⟨fun h => ⟨⟨h.stored.1,h.stored.2⟩,h.2,h.3,h.4⟩,fun h => ⟨⟨h.stored.1,h.stored.2⟩,h.2,h.3,h.4⟩⟩

@[simp] theorem running_raise : x.raise.Running ↔ x.Running :=
  ⟨fun h => ⟨⟨h.stored.1,h.stored.2⟩,h.2,h.3,h.4⟩,fun h => ⟨⟨h.stored.1,h.stored.2⟩,h.2,h.3,h.4⟩⟩

@[simp] theorem running_clear : x.clear.Running ↔ x.Running :=
  ⟨fun h => ⟨⟨h.stored.1,h.stored.2⟩,h.2,h.3,h.4⟩,fun h => ⟨⟨h.stored.1,h.stored.2⟩,h.2,h.3,h.4⟩⟩

@[simp] theorem running_blame {faults : List Fault} : (x.blame faults).Running ↔ x.Running :=
  ⟨fun h => ⟨⟨h.stored.1,h.stored.2⟩,h.2,h.3,h.4⟩,fun h => ⟨⟨h.stored.1,h.stored.2⟩,h.2,h.3,h.4⟩⟩

@[simp] theorem ready_own : (x.own a).Ready ↔ x.Ready :=
  ⟨fun h => ⟨running_own.mp h.1,h.2⟩,fun h => ⟨running_own.mpr h.1,h.2⟩⟩

@[simp] theorem ready_clear : x.clear.Ready ↔ x.Running :=
  ⟨fun h => running_clear.mp h.1,fun h => ⟨running_clear.mpr h,rfl⟩⟩

@[simp] theorem live_raise : x.raise.Live b ↔ x.Live b := Iff.rfl

@[simp] theorem live_clear : x.clear.Live b ↔ x.Live b := Iff.rfl

@[simp] theorem own_raise : (x.own a).raise = x.raise.own a := rfl

@[simp] theorem own_clear : (x.own a).clear = x.clear.own a := rfl

@[simp] theorem raise_clear : x.raise.clear = x.clear := rfl

@[simp] theorem clear_clear : x.clear.clear = x.clear := rfl

theorem clear_of_none (h : x.error = none) : x.clear = x := by
  rw [clear,← h]

@[simp] theorem own_error : (x.own a).error = x.error := (rfl)

@[simp] theorem raise_error : x.raise.error = some .python := (rfl)

@[simp] theorem clear_error : x.clear.error = none := rfl

@[simp] theorem release_own_self : (x.own a).release a = x := by
  simp [release,own]

@[simp] theorem keep_own_self : (x.own a).keep a = x.pin a := by
  rw [keep,release_own_self]

@[simp] theorem own_pin : (x.own a).pin b = (x.pin b).own a := rfl

@[simp] theorem holds_own : (x.own b).Holds a ↔ a = b ∨ x.Holds a := Multiset.mem_cons

@[simp] theorem holds_raise : x.raise.Holds a ↔ x.Holds a := Iff.rfl

@[simp] theorem holds_clear : x.clear.Holds a ↔ x.Holds a := Iff.rfl

/-- A release passes the references taken later. -/
@[simp] theorem release_own_of_holds (h : x.Holds a) :
    (x.own b).release a = (x.release a).own b := by
  change a ∈ x.owned at h
  have hmem : a ∈ b ::ₘ x.owned := Multiset.mem_cons_of_mem h
  have herase : (b ::ₘ x.owned).erase a = b ::ₘ x.owned.erase a := by
    by_cases hab : b = a
    · subst hab
      rw [Multiset.erase_cons_head,Multiset.cons_erase h]
    · exact Multiset.erase_cons_tail x.owned hab
  simp [release,own,h,herase]

theorem own_comm (x : Python) (a b : Obj) : (x.own a).own b = (x.own b).own a := by
  simp [own,Multiset.cons_swap a b x.owned]

theorem own_rotate (x : Python) (a b c : Obj) :
    ((x.own b).own c).own a = ((x.own a).own b).own c := by
  rw [own_comm (x.own b) c a,own_comm x b a]

theorem own_blame {faults : List Fault} : (x.own a).blame faults = (x.blame faults).own a := rfl

@[simp] theorem blame_nil : x.blame [] = x := by
  simp [blame]

@[simp] theorem blame_blame {faults faults' : List Fault} :
    (x.blame faults).blame faults' = x.blame (faults ++ faults') := by
  simp [blame]

theorem check_eq {uses : List Obj} (h : x.Running) (hu : ∀ o ∈ uses, x.Live o) :
    x.check uses = x := by
  have hdead : (uses.filter fun o => !decide (x.Live o)) = [] := by
    rw [List.filter_eq_nil_iff]
    intro o ho
    simpa using hu o ho
  simp [check,h.current,h.gil,hdead]

section Bundle

variable {hash hash' : Option String}

@[simp] theorem running_inBundle : (x.inBundle hash).Running ↔ x.Running :=
  ⟨fun h => ⟨⟨h.stored.1,h.stored.2⟩,h.2,h.3,h.4⟩,fun h => ⟨⟨h.stored.1,h.stored.2⟩,h.2,h.3,h.4⟩⟩

@[simp] theorem ready_inBundle : (x.inBundle hash).Ready ↔ x.Ready :=
  ⟨fun h => ⟨running_inBundle.mp h.1,h.2⟩,fun h => ⟨running_inBundle.mpr h.1,h.2⟩⟩

@[simp] theorem live_inBundle : (x.inBundle hash).Live b ↔ x.Live b := Iff.rfl

@[simp] theorem own_inBundle : (x.own a).inBundle hash = (x.inBundle hash).own a := rfl

@[simp] theorem inBundle_inBundle : (x.inBundle hash).inBundle hash' = x.inBundle hash' := rfl

theorem inBundle_of_eq (h : x.bundle = hash) : x.inBundle hash = x := by
  rw [inBundle,← h]

end Bundle

section Lends

variable {objs objs' : Finset Obj}

@[simp] theorem live_lends : (x.lends objs).Live b ↔ b ∈ objs ∨ x.Live b := by
  simp only [Live,lends,Finset.mem_union]
  tauto

@[simp] theorem running_lends (h : x.Running) : (x.lends objs).Running :=
  ⟨⟨h.stored.1,fun e he => (h.stored.2 e he).imp_right (Finset.mem_union_right objs)⟩,h.2,h.3,h.4⟩

@[simp] theorem ready_lends (h : x.Ready) : (x.lends objs).Ready := ⟨running_lends h.1,h.2⟩

@[simp] theorem own_lends : (x.own a).lends objs = (x.lends objs).own a := rfl

@[simp] theorem lends_error : (x.lends objs).error = x.error := (rfl)

@[simp] theorem lends_raise : (x.lends objs).raise = x.raise.lends objs := rfl

@[simp] theorem lends_clear : (x.lends objs).clear = x.clear.lends objs := rfl

@[simp] theorem lends_blame {faults : List Fault} :
    (x.lends objs).blame faults = (x.blame faults).lends objs := rfl

@[simp] theorem lends_lends : (x.lends objs).lends objs' = x.lends (objs' ∪ objs) := by
  simp [lends,Finset.union_assoc]

end Lends

section Nullable

variable {o : Option Obj}

@[simp] theorem running_ownSome : (x.ownSome o).Running ↔ x.Running := by
  cases o <;> simp [ownSome]

@[simp] theorem ready_ownSome : (x.ownSome o).Ready ↔ x.Ready := by
  cases o <;> simp [ownSome]

theorem live_ownSome (h : x.Live b) : (x.ownSome o).Live b := by
  cases o <;> simp [ownSome,h]

@[simp] theorem clear_ownSome : (x.ownSome o).clear = x.clear.ownSome o := by
  cases o <;> rfl

/-- A release passes what is owned on top. -/
@[simp] theorem release_ownSome (h : x.Holds a) :
    (x.ownSome o).release a = (x.release a).ownSome o := by
  cases o with
  | none => rfl
  | some b => exact release_own_of_holds h

@[simp] theorem holds_ownSome : (x.ownSome o).Holds a ↔ o = some a ∨ x.Holds a := by
  cases o <;> simp [ownSome,eq_comm]

@[simp] theorem ownSome_error : (x.ownSome o).error = x.error := by
  cases o <;> rfl

@[simp] theorem raise_ownSome : (x.ownSome o).raise = x.raise.ownSome o := by
  cases o <;> rfl

theorem ownSome_own : (x.ownSome o).own a = (x.own a).ownSome o := by
  cases o with
  | none => rfl
  | some b => exact own_comm x b a

end Nullable

end States

end Python

open Python

/-- A call that correct code may make: it finds the interpreter entered, or acts without the GIL. -/
structure Python.Allows (x : Python) (r : Call) : Prop where
  uses : ∀ o ∈ r.uses, x.Live o
  releases : ∀ o ∈ r.releases, x.Holds o
  running : r.inPython = true → x.gil = true → x.Running
  own : r.ofCallbacks = false

/-- The observer of executions in which nobody calls back. -/
def alone : Program.Observer Python Answer where
  allows := Allows
  moves x r a y := ∃ c, respond x r c = some (y,a)

/-- Every call is allowed, and every execution ends with a result and a state in `Q`. -/
def Ensures {α : Type} (p : Py α) (Q : α → Python → Prop) (x : Python) : Prop :=
  Program.wp alone p Q x

section Rules

variable {α β : Type} {Q : α → Python → Prop} {x : Python}

@[simp] theorem ensures_pure {a : α} : Ensures (pure a) Q x ↔ Q a x := Iff.rfl

theorem Ensures.mono {p : Py α} {Q' : α → Python → Prop} (h : Ensures p Q x)
    (hq : ∀ a y, Q a y → Q' a y) : Ensures p Q' x := Program.wp_mono h hq

theorem Ensures.bind {p : Py β} {k : β → Py α} {P : β → Python → Prop} (h : Ensures p P x)
    (hk : ∀ b y, P b y → Ensures (k b) Q y) : Ensures (p >>= k) Q x := Program.wp_then h hk

/-- A call whose effect is a function of its answer. -/
theorem Ensures.then {p : Py β} {k : β → Py α} {f : β → Python}
    (h : Ensures p (fun b y => y = f b) x) (hk : ∀ b, Ensures (k b) Q (f b)) :
    Ensures (p >>= k) Q x := by
  refine h.bind ?_
  rintro b y rfl
  exact hk b

end Rules

def call (r : Call) : Py (Answer r) := .ask r .done

def getAttrString (obj : Obj) (name : String) : Py (Option Obj) := call (.new (.getAttrString obj name))

def tupleNew (size : ℕ) : Py (Option Obj) := call (.new (.tupleNew size))

def unicodeFromString (s : String) : Py (Option Obj) := call (.new (.unicodeFromString s))

def longFromUnsignedLongLong (value : UInt64) : Py (Option Obj) :=
  call (.new (.longFromUnsignedLongLong value))

def dictNew : Py (Option Obj) := call (.new .dictNew)

def importModule (name : String) : Py (Option Obj) := call (.new (.importModule name))

def runString (globals locals : Obj) : Py (Option Obj) := call (.new (.runString globals locals))

def objectRepr (obj : Obj) : Py (Option Obj) := call (.new (.repr obj))

def objectStr (obj : Obj) : Py (Option Obj) := call (.new (.str obj))

def newException (name : String) : Py (Option Obj) := call (.new (.newException name))

def moduleCreate (name : String) : Py (Option Obj) := call (.new (.moduleCreate name))

def dictSetItemString (dict : Obj) (key : String) (value : Obj) : Py Bool :=
  call (.put (.dictSetItemString dict key value))

def listAppend (list item : Obj) : Py Bool := call (.put (.listAppend list item))

def callObject (callable args : Obj) : Py (Option Obj) := call (.callObject callable args)

def tupleSetItem (tuple : Obj) (pos : ℕ) (item : Obj) : Py Bool := call (.tupleSetItem tuple pos item)

def moduleAddObject (module : Obj) (name : String) (value : Obj) : Py Bool :=
  call (.moduleAddObject module name value)

def tupleGetItem (tuple : Obj) (pos : ℕ) : Py (Option Obj) := call (.tupleGetItem tuple pos)

def getIter (obj : Obj) : Py (Option (Obj × ℕ)) := call (.getIter obj)

def iterNext (iter : Obj) (left : ℕ) : Py (Option Obj) := call (.iterNext iter left)

def callableCheck (obj : Obj) : Py Bool := call (.callableCheck obj)

def unicodeAsUtf8 (obj : Obj) : Py (Option String) := call (.unicodeAsUtf8 obj)

def longAsUnsignedLongLong (obj : Obj) : Py UInt64 := call (.longAsUnsignedLongLong obj)

def sysGetObject (name : String) : Py (Option Obj) := call (.sysGetObject name)

def getBuiltins : Py Obj := call .getBuiltins

def newInterpreter : Py (Option ThreadState) := call .newInterpreter

def endInterpreter (ts : ThreadState) : Py Unit := call (.endInterpreter ts)

def threadStateGet : Py (Option ThreadState) := call .threadStateGet

def threadStateSwap (ts : Option ThreadState) : Py (Option ThreadState) := call (.threadStateSwap ts)

def threadStateNew (interp : ThreadState) : Py (Option ThreadState) := call (.threadStateNew interp)

def threadStateClear (ts : ThreadState) : Py Unit := call (.threadStateClear ts)

def threadStateDeleteCurrent : Py Unit := call .threadStateDeleteCurrent

def restoreThread (ts : ThreadState) : Py Unit := call (.restoreThread ts)

def saveThread : Py (Option ThreadState) := call .saveThread

def errOccurred : Py Bool := call .errOccurred

def errFetch : Py Fetched := call .errFetch

def errClear : Py Unit := call .errClear

def errPrint : Py Unit := call .errPrint

def errSetString (type : Obj) (msg : String) : Py Unit := call (.errSetString type msg)

def incRef (obj : Obj) : Py Unit := call (.incRef obj)

def decRef (obj : Obj) : Py Unit := call (.decRef obj)

def getState : Py (Option ThreadState) := call .getState

def setState (saved : Option ThreadState) : Py Unit := call (.setState saved)

def getMainTs : Py ThreadState := call .getMainTs

def lockPython : Py Unit := call .lockPython

def unlockPython : Py Unit := call .unlockPython

def lookupBundle (hash : String) : Py (Option Bundle) := call (.lookupBundle hash)

def insertBundle (hash : String) (bundle : Bundle) : Py Unit := call (.insertBundle hash bundle)

def setCurrentThreadBundle (hash : String) : Py Unit := call (.setCurrentThreadBundle hash)

def clearCurrentThreadBundle : Py Unit := call .clearCurrentThreadBundle

def getCurrentThreadBundle : Py (Option String) := call .getCurrentThreadBundle

def lockErrors : Py Unit := call .lockErrors

def unlockErrors : Py Unit := call .unlockErrors

def lookupError (hash : String) : Py (Option Obj) := call (.lookupError hash)

def insertError (hash : String) (exc : Obj) (takes : Bool) : Py Unit :=
  call (.insertError hash exc takes)

def sendAndWait (msg : Message) : Py (Except String Message) := call (.sendAndWait msg)

def log (line : String) : Py Unit := call (.log line)

/-- `Py_XDECREF`. -/
def xdecRef : Option Obj → Py Unit
  | none => return
  | some obj => decRef obj

section Calls

variable {α : Type} {Q : α → Python → Prop} {x : Python}

theorem respond_eq {r : Call} {c : Choice} (hx : x.Running) (hu : ∀ o ∈ r.uses, x.Live o) :
    respond x r c = effect x r c := by
  unfold respond
  rw [check_eq hx hu]
  cases r.inPython <;> rfl

theorem ensures_call {r : Call} {k : Answer r → Py α} (hallows : x.Allows r)
    (hk : ∀ c y a, respond x r c = some (y,a) → Ensures (k a) Q y) :
    Ensures (call r >>= k) Q x := by
  refine ⟨hallows,?_⟩
  rintro a y ⟨c,hy⟩
  exact hk c y a hy

theorem ensures_api {r : Call} {k : Answer r → Py α} (hx : x.Running)
    (hu : ∀ o ∈ r.uses, x.Live o) (hr : ∀ o ∈ r.releases, x.Holds o) (hown : r.ofCallbacks = false)
    (hk : ∀ c y a, effect x r c = some (y,a) → Ensures (k a) Q y) :
    Ensures (call r >>= k) Q x := by
  refine ensures_call ⟨hu,hr,fun _ _ => hx,hown⟩ ?_
  intro c y a h
  rw [respond_eq hx hu] at h
  exact hk c y a h

theorem effect_certain {r : Call} {c : Choice} {e : Python × Answer r} (hr : r.certain = true)
    (h : effect x r c = some e) : c = .go := by
  cases r <;> cases hr <;> cases c <;> first
    | rfl
    | cases h

theorem ensures_go {r : Call} {k : Answer r → Py α} {y : Python} {a : Answer r}
    (hallows : x.Allows r) (hcertain : r.certain = true) (hgo : respond x r .go = some (y,a)) :
    Ensures (call r >>= k) Q x ↔ Ensures (k a) Q y := by
  constructor
  · intro hall
    exact hall.2 a y ⟨.go,hgo⟩
  · intro hk
    refine ensures_call hallows ?_
    intro c z b hz
    obtain rfl := effect_certain hcertain hz
    obtain ⟨rfl,rfl⟩ := Prod.mk.inj (Option.some.inj (hgo.symm.trans hz))
    exact hk

theorem ensures_api_go {r : Call} {k : Answer r → Py α} {y : Python} {a : Answer r}
    (hx : x.Running) (hu : ∀ o ∈ r.uses, x.Live o) (hr : ∀ o ∈ r.releases, x.Holds o)
    (hown : r.ofCallbacks = false) (hcertain : r.certain = true)
    (hgo : effect x r .go = some (y,a)) : Ensures (call r >>= k) Q x ↔ Ensures (k a) Q y := by
  refine ensures_go ⟨hu,hr,fun _ _ => hx,hown⟩ hcertain ?_
  rw [respond_eq hx hu,hgo]

theorem ensures_static {r : Call} {k : Answer r → Py α} {y : Python} {a : Answer r}
    (hin : r.inPython = false) (hu : r.uses = []) (hr : r.releases = [])
    (hown : r.ofCallbacks = false) (hcertain : r.certain = true)
    (hgo : effect x r .go = some (y,a)) : Ensures (call r >>= k) Q x ↔ Ensures (k a) Q y := by
  refine ensures_go ⟨by simp [hu],by simp [hr],by simp [hin],hown⟩ hcertain ?_
  rw [respond,hin]
  exact hgo

theorem ensures_new {f : New} {k : Option Obj → Py α} (hx : x.Running)
    (hu : ∀ o ∈ f.uses, x.Live o) (hnull : Ensures (k none) Q x.raise)
    (hobj : ∀ o, Ensures (k (some o)) Q (x.own o)) : Ensures (call (.new f) >>= k) Q x := by
  refine ensures_api hx hu (by simp [Call.releases]) rfl ?_
  intro c y a h
  cases c <;> cases h
  · exact hnull
  · exact hobj _

theorem ensures_put {f : Put} {k : Bool → Py α} (hx : x.Running)
    (hu : ∀ o ∈ f.uses, x.Live o) (hfail : Ensures (k false) Q x.raise)
    (hok : Ensures (k true) Q x) : Ensures (call (.put f) >>= k) Q x := by
  refine ensures_api hx hu (by simp [Call.releases]) rfl ?_
  intro c y (b : Bool) h
  cases c <;> cases h
  cases b
  · exact hfail
  · exact hok

/-- Python code may return anything, with or without an exception. -/
theorem ensures_callObject {f args : Obj} {k : Option Obj → Py α} (hx : x.Running)
    (hf : x.Live f) (hargs : x.Live args)
    (hnull : ∀ y, y = x ∨ y = x.raise → Ensures (k none) Q y)
    (hobj : ∀ o y, y = x.own o ∨ y = (x.own o).raise → Ensures (k (some o)) Q y) :
    Ensures (callObject f args >>= k) Q x := by
  refine ensures_api hx (by simp [Call.uses,hf,hargs]) (by simp [Call.releases]) rfl ?_
  intro c y a h
  cases c <;> cases h
  · exact hnull _ (.inr rfl)
  · exact hnull _ (.inl rfl)
  · exact hobj _ _ (.inl rfl)
  · exact hobj _ _ (.inr rfl)

/-- The item is gone in both cases. -/
theorem ensures_tupleSetItem {tuple item : Obj} {pos : ℕ} {k : Bool → Py α} (hx : x.Running)
    (ht : x.Live tuple) (hi : x.Holds item) (hfail : Ensures (k false) Q (x.release item).raise)
    (hok : Ensures (k true) Q (x.release item)) :
    Ensures (tupleSetItem tuple pos item >>= k) Q x := by
  refine ensures_api hx (by simp [Call.uses,ht]) (by simp [Call.releases,hi]) rfl ?_
  intro c y (b : Bool) h
  cases c <;> cases h
  cases b
  · exact hfail
  · exact hok

theorem ensures_moduleAddObject {module value : Obj} {name : String} {k : Bool → Py α}
    (hx : x.Running) (hm : x.Live module) (hv : x.Holds value) (hfail : Ensures (k false) Q x.raise)
    (hok : Ensures (k true) Q ((x.release value).lends {value})) :
    Ensures (moduleAddObject module name value >>= k) Q x := by
  have hlive : x.Live value := .inr (.inr (.inr (.inr hv)))
  refine ensures_api hx (by simp [Call.uses,hm,hlive]) (by simp [Call.releases,hv]) rfl ?_
  intro c y (b : Bool) h
  cases c <;> cases h
  cases b
  · exact hfail
  · exact hok

theorem ensures_callableCheck {o : Obj} {k : Bool → Py α} (hx : x.Running) (ho : x.Live o)
    (hk : ∀ b, Ensures (k b) Q x) : Ensures (callableCheck o >>= k) Q x := by
  refine ensures_api hx (by simp [Call.uses,ho]) (by simp [Call.releases]) rfl ?_
  intro c y a h
  cases c <;> cases h
  exact hk _

theorem ensures_unicodeAsUtf8 {o : Obj} {k : Option String → Py α} (hx : x.Running)
    (ho : x.Live o) (hnull : Ensures (k none) Q x.raise)
    (htext : ∀ s, Ensures (k (some s)) Q x) : Ensures (unicodeAsUtf8 o >>= k) Q x := by
  refine ensures_api hx (by simp [Call.uses,ho]) (by simp [Call.releases]) rfl ?_
  intro c y a h
  cases c <;> cases h
  · exact hnull
  · exact htext _

theorem ensures_longAsUnsignedLongLong {o : Obj} {k : UInt64 → Py α} (hx : x.Running)
    (ho : x.Live o) (hk : ∀ n y, y = x ∨ y = x.raise → Ensures (k n) Q y) :
    Ensures (longAsUnsignedLongLong o >>= k) Q x := by
  refine ensures_api hx (by simp [Call.uses,ho]) (by simp [Call.releases]) rfl ?_
  intro c y a h
  cases c <;> cases h
  · exact hk _ _ (.inr rfl)
  · exact hk _ _ (.inl rfl)

@[simp] theorem ensures_errOccurred {k : Bool → Py α} (hx : x.Running) :
    Ensures (errOccurred >>= k) Q x ↔ Ensures (k x.error.isSome) Q x :=
  ensures_api_go hx (by simp [Call.uses]) (by simp [Call.releases]) rfl rfl rfl

@[simp] theorem ensures_errClear {k : Unit → Py α} (hx : x.Running) :
    Ensures (errClear >>= k) Q x ↔ Ensures (k ()) Q x.clear :=
  ensures_api_go hx (by simp [Call.uses]) (by simp [Call.releases]) rfl rfl rfl

theorem ensures_errPrint_none {k : Unit → Py α} (hx : x.Ready) :
    Ensures (errPrint >>= k) Q x ↔ Ensures (k ()) Q (x.blame [.noException]) := by
  have hstate : (x.blame (if x.error = none then [.noException] else [])).clear =
      x.blame [.noException] := by
    rw [if_pos hx.error]
    exact clear_of_none hx.error
  exact ensures_api_go hx.1 (by simp [Call.uses]) (by simp [Call.releases]) rfl rfl
    (congrArg (fun y => some (y,())) hstate)

@[simp] theorem ensures_errPrint {k : Unit → Py α} (hx : x.Running)
    (he : x.error.isSome = true) : Ensures (errPrint >>= k) Q x ↔ Ensures (k ()) Q x.clear := by
  have hstate : (x.blame (if x.error = none then [.noException] else [])).clear = x.clear := by
    rw [if_neg (Option.isSome_iff_ne_none.mp he),blame_nil]
  exact ensures_api_go hx (by simp [Call.uses]) (by simp [Call.releases]) rfl rfl
    (congrArg (fun y => some (y,())) hstate)

@[simp] theorem ensures_decRef {o : Obj} {k : Unit → Py α} (hx : x.Running) (ho : x.Holds o) :
    Ensures (decRef o >>= k) Q x ↔ Ensures (k ()) Q (x.release o) :=
  ensures_api_go hx (by simp [Call.uses]) (by simp [Call.releases,ho]) rfl rfl rfl

@[simp] theorem ensures_incRef {o : Obj} {k : Unit → Py α} (hx : x.Running) (ho : x.Live o) :
    Ensures (incRef o >>= k) Q x ↔ Ensures (k ()) Q (x.own o) :=
  ensures_api_go hx (by simp [Call.uses,ho]) (by simp [Call.releases]) rfl rfl rfl

@[simp] theorem ensures_log {line : String} {k : Unit → Py α} :
    Ensures (log line >>= k) Q x ↔ Ensures (k ()) Q x :=
  ensures_static rfl rfl rfl rfl rfl rfl

@[simp] theorem ensures_setCurrentThreadBundle {hash : String} {k : Unit → Py α} :
    Ensures (setCurrentThreadBundle hash >>= k) Q x ↔ Ensures (k ()) Q (x.inBundle (some hash)) :=
  ensures_static rfl rfl rfl rfl rfl rfl

@[simp] theorem ensures_clearCurrentThreadBundle {k : Unit → Py α} :
    Ensures (clearCurrentThreadBundle >>= k) Q x ↔ Ensures (k ()) Q (x.inBundle none) :=
  ensures_static rfl rfl rfl rfl rfl rfl

theorem ensures_errFetch {k : Fetched → Py α} (hx : x.Running)
    (hnone : x.error = none → Ensures (k ⟨none,none,none⟩) Q x)
    (hsome : ∀ e v t, Ensures (k ⟨some e,v,t⟩) Q (x.fetch ⟨some e,v,t⟩)) :
    Ensures (errFetch >>= k) Q x := by
  refine ensures_api hx (by simp [Call.uses]) (by simp [Call.releases]) rfl ?_
  intro c y a h
  cases c <;> try cases h
  case quiet =>
    simp only [effect,Option.ite_none_right_eq_some,Option.some.injEq] at h
    obtain ⟨he,rfl,rfl⟩ := h
    exact hnone he
  case fetched e v t =>
    simp only [effect,Option.ite_none_left_eq_some,Option.some.injEq] at h
    obtain ⟨-,rfl,rfl⟩ := h
    exact hsome e v t

theorem ensures_getIter {o : Obj} {k : Option (Obj × ℕ) → Py α} (hx : x.Running) (ho : x.Live o)
    (hnull : Ensures (k none) Q x.raise)
    (hiter : ∀ iter n, Ensures (k (some (iter,n))) Q (x.own iter)) :
    Ensures (getIter o >>= k) Q x := by
  refine ensures_api hx (by simp [Call.uses,ho]) (by simp [Call.releases]) rfl ?_
  intro c y a h
  cases c <;> cases h
  · exact hnull
  · exact hiter _ _

theorem ensures_iterNext {iter : Obj} {left : ℕ} {k : Option Obj → Py α} (hx : x.Running)
    (hiter : x.Live iter) (hnull : ∀ y, y = x ∨ y = x.raise → Ensures (k none) Q y)
    (hitem : ∀ o, 0 < left → Ensures (k (some o)) Q (x.own o)) :
    Ensures (iterNext iter left >>= k) Q x := by
  refine ensures_api hx (by simp [Call.uses,hiter]) (by simp [Call.releases]) rfl ?_
  intro c y a h
  cases left <;> cases c <;> cases h
  · exact hnull _ (.inr rfl)
  · exact hnull _ (.inl rfl)
  · exact hnull _ (.inr rfl)
  · exact hitem _ (Nat.succ_pos _)

theorem ensures_sysGetObject {name : String} {k : Option Obj → Py α} (hx : x.Running)
    (hnull : Ensures (k none) Q x) (hobj : ∀ o, Ensures (k (some o)) Q (x.lends {o})) :
    Ensures (sysGetObject name >>= k) Q x := by
  refine ensures_api hx (by simp [Call.uses]) (by simp [Call.releases]) rfl ?_
  intro c y a h
  cases c <;> cases h
  · exact hnull
  · exact hobj _

theorem ensures_tupleGetItem {tuple : Obj} {pos : ℕ} {k : Option Obj → Py α} (hx : x.Running)
    (ht : x.Live tuple) (hnull : Ensures (k none) Q x.raise)
    (hobj : ∀ o, x.error = none → Ensures (k (some o)) Q (x.lends {o})) :
    Ensures (tupleGetItem tuple pos >>= k) Q x := by
  refine ensures_api hx (by simp [Call.uses,ht]) (by simp [Call.releases]) rfl ?_
  intro c y a h
  cases c <;> try cases h
  case null.refl => exact hnull
  case obj o =>
    simp only [effect,Option.ite_none_right_eq_some,Option.some.injEq] at h
    obtain ⟨he,rfl,rfl⟩ := h
    exact hobj o he

theorem ensures_errSetString {type : Obj} {msg : String} {k : Unit → Py α} (hx : x.Running)
    (ht : x.Live type) :
    Ensures (errSetString type msg >>= k) Q x ↔ Ensures (k ()) Q (x.fail type msg) :=
  ensures_api_go hx (by simp [Call.uses,ht]) (by simp [Call.releases]) rfl rfl rfl

theorem ensures_getBuiltins {k : Obj → Py α} (hx : x.Running)
    (hobj : ∀ o, Ensures (k o) Q (x.lends {o})) : Ensures (getBuiltins >>= k) Q x := by
  refine ensures_api hx (by simp [Call.uses]) (by simp [Call.releases]) rfl ?_
  intro c y a h
  cases c <;> cases h
  exact hobj _

/-- A failed call may have detached the thread; a new interpreter is entered at once. -/
theorem ensures_newInterpreter {k : Option ThreadState → Py α} (hx : x.Running)
    (hnull : ∀ y, y = x ∨ y = x.withCurrent none → Ensures (k none) Q y)
    (hnew : ∀ ts, ts ∉ x.states →
      Ensures (k (some ts)) Q ((x.withStates (ts :: x.states)).withCurrent (some ts))) :
    Ensures (newInterpreter >>= k) Q x := by
  refine ensures_api hx (by simp [Call.uses]) (by simp [Call.releases]) rfl ?_
  intro c y a h
  cases c <;> try cases h
  case null => exact hnull _ (.inl rfl)
  case lost => exact hnull _ (.inr rfl)
  case state ts =>
    simp only [effect,Option.ite_none_left_eq_some,Option.some.injEq] at h
    obtain ⟨hfresh,rfl,rfl⟩ := h
    exact hnew ts hfresh

theorem ensures_threadStateNew {interp : ThreadState} {k : Option ThreadState → Py α}
    (hi : interp ∈ x.states) (hnull : Ensures (k none) Q x)
    (hnew : ∀ ts, ts ∉ x.states → Ensures (k (some ts)) Q (x.withStates (ts :: x.states))) :
    Ensures (threadStateNew interp >>= k) Q x := by
  have hblame : x.blame (if interp ∈ x.states then [] else [.deadState interp]) = x := by
    simp [hi]
  refine ensures_call ⟨by simp [Call.uses],by simp [Call.releases],by simp [Call.inPython],rfl⟩ ?_
  intro c y a h
  cases c <;> try cases h
  case null =>
    rw [← hblame] at hnull
    exact hnull
  case state ts =>
    change effect x _ _ = _ at h
    simp only [effect,hblame,Option.ite_none_left_eq_some,Option.some.injEq] at h
    obtain ⟨hfresh,rfl,rfl⟩ := h
    exact hnew ts hfresh

theorem ensures_threadStateGet {k : Option ThreadState → Py α} (hx : x.Running) :
    Ensures (threadStateGet >>= k) Q x ↔ Ensures (k x.current) Q x :=
  ensures_api_go hx (by simp [Call.uses]) (by simp [Call.releases]) rfl rfl rfl

/-- Without the GIL a swap is a fault, but it is carried out. -/
theorem ensures_threadStateSwap {ts : Option ThreadState} {k : Option ThreadState → Py α} :
    Ensures (threadStateSwap ts >>= k) Q x ↔
      Ensures (k x.current) Q ((x.blame (if x.gil then [] else [.noGil])).withCurrent ts) :=
  ensures_static rfl rfl rfl rfl rfl rfl

/-- The same holds for the end of an interpreter that is current. -/
theorem ensures_endInterpreter {ts : ThreadState} {k : Unit → Py α} (hts : x.current = some ts)
    (hgil : x.gil = false) :
    Ensures (endInterpreter ts >>= k) Q x ↔
      Ensures (k ()) Q ((x.blame [.noGil]).withStates (x.states.erase ts)).off := by
  have hcheck : (x.check []).blame (if (x.check []).current = some ts then [] else
      [.deadState ts]) = x.blame [.noGil] := by
    simp [check,blame,hts,hgil]
  exact ensures_go ⟨by simp [Call.uses],by simp [Call.releases],by simp [hgil],rfl⟩ rfl
    (congrArg (fun y : Python => some ((y.withStates _).off,())) hcheck)

theorem ensures_threadStateClear {ts : ThreadState} {k : Unit → Py α} (hx : x.Running)
    (hts : ts ∈ x.states) :
    Ensures (threadStateClear ts >>= k) Q x ↔ Ensures (k ()) Q x.clear := by
  have hblame : x.blame (if ts ∈ x.states then [] else [.deadState ts]) = x := by
    simp [hts]
  exact ensures_api_go hx (by simp [Call.uses]) (by simp [Call.releases]) rfl rfl
    (congrArg (fun y : Python => some (y.clear,())) hblame)

theorem ensures_threadStateDeleteCurrent {k : Unit → Py α} (hx : x.Running) :
    Ensures (threadStateDeleteCurrent >>= k) Q x ↔
      Ensures (k ()) Q (x.off.withStates (x.states.filter fun ts => some ts ≠ x.current)) :=
  ensures_api_go hx (by simp [Call.uses]) (by simp [Call.releases]) rfl rfl rfl

theorem ensures_restoreThread {ts : ThreadState} {k : Unit → Py α} (hgil : x.gil = false)
    (hts : ts ∈ x.states) : Ensures (restoreThread ts >>= k) Q x ↔ Ensures (k ()) Q (x.on ts) := by
  have hattach : x.attach ts = x.on ts := by simp [attach,hgil,hts]
  exact ensures_static rfl rfl rfl rfl rfl (congrArg (fun y => some (y,())) hattach)

theorem ensures_saveThread {k : Option ThreadState → Py α} (hx : x.Running) :
    Ensures (saveThread >>= k) Q x ↔ Ensures (k x.current) Q x.off :=
  ensures_api_go hx (by simp [Call.uses]) (by simp [Call.releases]) rfl rfl rfl

theorem ensures_getState {k : Option ThreadState → Py α} :
    Ensures (getState >>= k) Q x ↔ Ensures (k x.saved) Q x :=
  ensures_static rfl rfl rfl rfl rfl rfl

theorem ensures_setState {saved : Option ThreadState} {k : Unit → Py α} :
    Ensures (setState saved >>= k) Q x ↔ Ensures (k ()) Q (x.withSaved saved) :=
  ensures_static rfl rfl rfl rfl rfl rfl

theorem ensures_getMainTs {k : ThreadState → Py α} :
    Ensures (getMainTs >>= k) Q x ↔ Ensures (k x.mainTs) Q x :=
  ensures_static rfl rfl rfl rfl rfl rfl

/-- A thread that holds the mutex waits for ever. -/
theorem ensures_lockPython {k : Unit → Py α}
    (hk : x.mutex = false → Ensures (k ()) Q (x.withMutex true)) :
    Ensures (lockPython >>= k) Q x := by
  refine ensures_call ⟨by simp [Call.uses],by simp [Call.releases],by simp [Call.inPython],rfl⟩ ?_
  intro c y a h
  cases c <;> try cases h
  change effect x _ _ = _ at h
  simp only [effect,Option.ite_none_left_eq_some,Option.some.injEq] at h
  obtain ⟨hfree,rfl,rfl⟩ := h
  exact hk (by simpa using hfree)

theorem ensures_unlockPython {k : Unit → Py α} :
    Ensures (unlockPython >>= k) Q x ↔ Ensures (k ()) Q (x.withMutex false) :=
  ensures_static rfl rfl rfl rfl rfl rfl

theorem ensures_lookupBundle {hash : String} {k : Option Bundle → Py α} :
    Ensures (lookupBundle hash >>= k) Q x ↔ Ensures (k (x.cache.lookup hash)) Q x :=
  ensures_static rfl rfl rfl rfl rfl rfl

theorem ensures_insertBundle {hash : String} {b : Bundle} {k : Unit → Py α}
    (hb : ∀ o ∈ [b.bundleModule,b.jsonModule,b.tracebackModule], x.Holds o) :
    Ensures (insertBundle hash b >>= k) Q x ↔ Ensures (k ()) Q (x.withBundle hash b) :=
  ensures_go ⟨by simp [Call.uses],hb,by simp [Call.inPython],rfl⟩ rfl rfl

theorem errOccurred_spec (hx : x.Running) :
    Ensures errOccurred (fun b y => b = x.error.isSome ∧ y = x) x :=
  (ensures_errOccurred (k := pure) hx).mpr ⟨rfl,rfl⟩

theorem errClear_spec (hx : x.Running) : Ensures errClear (fun _ y => y = x.clear) x :=
  (ensures_errClear (k := pure) hx).mpr rfl

@[simp] theorem ensures_errClear_last {Q : Unit → Python → Prop} (hx : x.Running) :
    Ensures errClear Q x ↔ Q () x.clear := ensures_errClear (k := pure) hx

@[simp] theorem ensures_decRef_last {o : Obj} {Q : Unit → Python → Prop} (hx : x.Running)
    (ho : x.Holds o) : Ensures (decRef o) Q x ↔ Q () (x.release o) :=
  ensures_decRef (k := pure) hx ho

@[simp] theorem ensures_log_last {line : String} {Q : Unit → Python → Prop} :
    Ensures (log line) Q x ↔ Q () x := ensures_log (k := pure)

@[simp] theorem ensures_xdecRef_none {k : Unit → Py α} :
    Ensures (xdecRef none >>= k) Q x ↔ Ensures (k ()) Q x := Iff.rfl

@[simp] theorem xdecRef_some (o : Obj) : xdecRef (some o) = decRef o := rfl

theorem ensures_xdecRef {o : Option Obj} {k : Unit → Py α} (hx : x.Running) :
    Ensures (xdecRef o >>= k) Q (x.ownSome o) ↔ Ensures (k ()) Q x := by
  cases o with
  | none => exact Iff.rfl
  | some o =>
    have hrun : (x.own o).Running := running_own.mpr hx
    exact (ensures_decRef hrun (holds_own.mpr (.inl rfl))).trans (by rw [release_own_self])

end Calls

end PythonApi
end JobControllerClient
