import Mathlib.Tactic

/-! Checked arithmetic on 64-bit sizes and checked access to slices. Every operation
returns its value or the panic that ends the program. -/

namespace CheckedSlice

inductive Panic
  | overflow | outOfRange | unexpectedEof
  deriving DecidableEq

def sizeBound : ℕ := 2^64

def add (a b : ℕ) : Except Panic ℕ := if a + b < sizeBound then .ok (a + b) else .error .overflow

def sub (a b : ℕ) : Except Panic ℕ := if b ≤ a then .ok (a - b) else .error .overflow

variable {α : Type*}

/-- `xs[i]` -/
def item (xs : List α) (i : ℕ) : Except Panic α :=
  match xs[i]? with
  | some x => .ok x
  | none => .error .outOfRange

/-- `&xs[i..j]` -/
def slice (xs : List α) (i j : ℕ) : Except Panic (List α) :=
  if i ≤ j ∧ j ≤ xs.length then .ok ((xs.drop i).take (j - i)) else .error .outOfRange

/-- `&xs[i..]` -/
def sliceFrom (xs : List α) (i : ℕ) : Except Panic (List α) :=
  if i ≤ xs.length then .ok (xs.drop i) else .error .outOfRange

/-- A read of exactly `w` items from the front, unwrapped. -/
def readExact (xs : List α) (w : ℕ) : Except Panic (List α) :=
  if w ≤ xs.length then .ok (xs.take w) else .error .unexpectedEof

theorem ok_bind {α β : Type} (a : α) (f : α → Except Panic β) : (.ok a >>= f) = f a := rfl

variable {xs : List α} {a b i w n : ℕ}

theorem add_ok (h : a + b < sizeBound) : add a b = .ok (a + b) := if_pos h

theorem sub_ok (h : b ≤ a) : sub a b = .ok (a - b) := if_pos h

theorem slice_ok (h : i + n ≤ xs.length) : slice xs i (i + n) = .ok ((xs.drop i).take n) := by
  rw [slice,if_pos ⟨Nat.le_add_right i n,h⟩,Nat.add_sub_cancel_left]

theorem item_ok (h : i + 1 ≤ xs.length) : ∃ x, (xs.drop i).take 1 = [x] ∧ item xs i = .ok x := by
  have hi : i < xs.length := h
  refine ⟨xs[i],?_,by simp [item,hi]⟩
  rw [List.drop_eq_getElem_cons hi]
  rfl

theorem readExact_sliceFrom_ok (h : i + w ≤ xs.length) :
    (sliceFrom xs i >>= fun rest => readExact rest w) = .ok ((xs.drop i).take w) := by
  have hfrom : sliceFrom xs i = .ok (xs.drop i) := if_pos (by omega)
  have hread : w ≤ (xs.drop i).length := by
    rw [List.length_drop]
    omega
  rw [hfrom]
  exact if_pos hread

end CheckedSlice
