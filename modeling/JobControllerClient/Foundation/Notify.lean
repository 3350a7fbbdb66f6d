import Mathlib.Tactic

/-! A wake-up primitive with one stored permit. `notifyOne` wakes the longest-waiting
waiter or, when nobody waits, stores the permit; a waiter that has been woken keeps
its wake-up until it runs. Waiters are named by numbers. -/

structure Notify where
  waiters : List ℕ
  permit : Bool
  woken : List ℕ

namespace Notify

def new : Notify := ⟨[],false,[]⟩

def notifyOne (n : Notify) : Notify :=
  match n.waiters with
  | [] => { n with permit := true }
  | w :: ws => { n with waiters := ws, woken := w :: n.woken }

/-- The first poll of a new future: take the permit, or wait. -/
def poll (n : Notify) (i : ℕ) : Bool × Notify :=
  if n.permit then (true,{ n with permit := false })
  else (false,{ n with waiters := n.waiters ++ [i] })

/-- A waiter that was woken goes on; any other one stays where it is. -/
def resume (n : Notify) (i : ℕ) : Option Notify :=
  if i ∈ n.woken then some { n with woken := n.woken.erase i } else none

variable {n n' : Notify} {i j : ℕ}

theorem notifyOne_nil (h : n.waiters = []) : n.notifyOne = { n with permit := true } := by
  simp [notifyOne,h]

theorem notifyOne_cons {w : ℕ} {ws : List ℕ} (h : n.waiters = w :: ws) :
    n.notifyOne = { n with waiters := ws, woken := w :: n.woken } := by
  simp [notifyOne,h]

theorem poll_permit (h : n.permit = true) : n.poll i = (true,{ n with permit := false }) := by
  simp [poll,h]

theorem poll_wait (h : n.permit = false) :
    n.poll i = (false,{ n with waiters := n.waiters ++ [i] }) := by
  simp [poll,h]

theorem resume_eq_some : n.resume i = some n' ↔
    i ∈ n.woken ∧ n' = { n with woken := n.woken.erase i } := by
  simp [resume,eq_comm]

/-- Those whose futures are not finished: still waiting, or woken and not yet running. -/
def sleepers (n : Notify) : List ℕ := n.waiters ++ n.woken

theorem sleepers_notifyOne (n : Notify) : n.notifyOne.sleepers.Perm n.sleepers := by
  cases hw : n.waiters with
  | nil => simp [sleepers,notifyOne_nil hw]
  | cons w ws =>
    simp only [sleepers,notifyOne_cons hw,hw]
    exact List.perm_middle

theorem sleepers_poll_permit (h : n.permit = true) : (n.poll i).2.sleepers = n.sleepers := by
  simp [sleepers,poll_permit h]

theorem sleepers_poll_wait (h : n.permit = false) :
    ((n.poll i).2.sleepers).Perm (i :: n.sleepers) := by
  simp [sleepers,poll_wait h]

theorem sleepers_resume (h : n.resume i = some n') (hn : n.sleepers.Nodup) :
    n'.sleepers.Sublist n.sleepers ∧ i ∉ n'.sleepers ∧
      ∀ w ∈ n.sleepers, w ≠ i → w ∈ n'.sleepers := by
  obtain ⟨hi,rfl⟩ := resume_eq_some.mp h
  obtain ⟨-,hwoken,hdisjoint⟩ := List.nodup_append.mp hn
  refine ⟨(List.Sublist.refl _).append List.erase_sublist,fun hmem => ?_,fun w hw hne => ?_⟩
  · rcases List.mem_append.mp hmem with hwait | herased
    · exact hdisjoint i hwait i hi rfl
    · exact hwoken.not_mem_erase herased
  · rcases List.mem_append.mp hw with hwait | hold
    · exact List.mem_append_left _ hwait
    · exact List.mem_append_right _ ((List.mem_erase_of_ne hne).mpr hold)

theorem woken_iterate (h : j ∈ n.woken) (k : ℕ) : j ∈ (notifyOne^[k] n).woken := by
  induction k generalizing n with
  | zero => exact h
  | succ k ih =>
    refine ih ?_
    cases hw : n.waiters with
    | nil => rwa [notifyOne_nil hw]
    | cons w ws =>
      rw [notifyOne_cons hw]
      exact List.mem_cons_of_mem w h

theorem woken_of_first {ws : List ℕ} {k : ℕ} (h : n.waiters = j :: ws) (hk : 0 < k) :
    j ∈ (notifyOne^[k] n).woken := by
  obtain ⟨k,rfl⟩ := Nat.exists_eq_succ_of_ne_zero hk.ne'
  rw [Function.iterate_succ_apply,notifyOne_cons h]
  exact woken_iterate List.mem_cons_self k

end Notify
