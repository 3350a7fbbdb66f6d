import Mathlib.Tactic

/-! A writer that takes items at once and hands them on later, in order. Its two parts
are the items handed on and the items still held; only their concatenation is fixed
by what has been written. -/

structure BufferedWriter (α : Type*) where
  passed : List α
  held : List α
  deriving DecidableEq

namespace BufferedWriter

variable {α : Type*}

def empty : BufferedWriter α := ⟨[],[]⟩

/-- Everything the writer has taken. -/
def all (w : BufferedWriter α) : List α := w.passed ++ w.held

def hold (w : BufferedWriter α) (items : List α) : BufferedWriter α :=
  { w with held := w.held ++ items }

/-- Hand on up to `n` of the items held. -/
def pass (w : BufferedWriter α) (n : ℕ) : BufferedWriter α :=
  ⟨w.passed ++ w.held.take n,w.held.drop n⟩

def flush (w : BufferedWriter α) : BufferedWriter α := ⟨w.all,[]⟩

@[simp] theorem all_hold (w : BufferedWriter α) (items : List α) :
    (w.hold items).all = w.all ++ items := by
  simp [all,hold]

@[simp] theorem all_pass (w : BufferedWriter α) (n : ℕ) : (w.pass n).all = w.all := by
  simp [all,pass]

@[simp] theorem all_flush (w : BufferedWriter α) : w.flush.all = w.all := by
  simp [all,flush]

end BufferedWriter
