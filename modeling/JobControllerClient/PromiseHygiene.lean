import JobControllerClient.RequestPromises

/-! The promise map holds entries of unresolved requests only, as long as no caller
drops a returned future early. `DbBridge` does so when its own timeout, of the same
length as the inner one, fires first. -/
namespace JobControllerClient
namespace PromiseHygiene

open Interleaving Websocket

/-- The call of `send_db_request` for `k` is executing, or its future is not resolved. -/
def unresolved (k : UInt32) : Task → Bool
  | .queueing _ key => key = some k
  | .request (.recheck k') | .request (.withdraw k') | .request (.awaiting k')
  | .request (.expired k') => k' = k
  | _ => false

def Hygienic (s : State) : Prop :=
  ∀ e ∈ s.shared.dbRequestPromises.entries, s.threads[e.2]?.any (unresolved e.1) = true

instance (s : State) : Decidable (Hygienic s) :=
  inferInstanceAs (Decidable (∀ e ∈ s.shared.dbRequestPromises.entries, _))

/-- The caller drops the future of a request that is still registered. -/
def abandons (s : State) : Move → Bool
  | .run i .abandon => match s.threads[i]? with
    | some (.request (.awaiting k)) => s.shared.dbRequestPromises.lookup k = some i
    | _ => false
  | _ => false

variable {s s' : State} {x : Client} {i j : ℕ} {k : UInt32} {t : Task} {move : Move}

theorem hygienic_iff_lookup : Hygienic s ↔ ∀ k o, s.shared.dbRequestPromises.lookup k = some o →
    ∃ t, s.threads[o]? = some t ∧ unresolved k t = true := by
  constructor
  · intro h k o hk
    exact (Option.any_eq_true _ _).mp (h ⟨k,o⟩ (AList.mem_lookup_iff.mp hk))
  · rintro h ⟨k,o⟩ he
    exact (Option.any_eq_true _ _).mpr (h k o (AList.mem_lookup_iff.mpr he))

theorem owner_unresolved (h : Owner x j k t) (ht : t ≠ .request (.done .abandoned)) :
    unresolved k t = true := by
  cases t
  case request pc =>
    cases pc
    case done outcome => cases outcome <;> simp_all [Owner,Task.receiving,Task.gaveUp]
    all_goals simp_all [Owner,Task.receiving,Task.gaveUp,unresolved]
  all_goals simp_all [Owner,Task.receiving,Task.gaveUp,unresolved]

theorem abandoned_of_act {c : Choice} {n : Next} {r : n.action.Answer} (h : act t c = some n)
    (hr : n.resume r = .request (.done .abandoned)) : c = .abandon ∧ n.action = .abandon ∧
      ∃ k, t = .request (.awaiting k) := by
  have hkind := act_kind h r
  rw [hr] at hkind
  cases t <;> simp only [Task.kind,reduceCtorEq] at hkind
  case request pc =>
    cases pc <;> cases c <;> cases h <;> dsimp only at hr
    case awaiting.go.refl k =>
      simp only [Task.request.injEq,RequestPc.done.injEq] at hr
      cases r <;> simp [afterPoll] at hr
    case awaiting.abandon.refl k => exact ⟨rfl,rfl,k,rfl⟩
    all_goals (try split at hr) <;> cases hr
  case queueing pc key =>
    rcases queueMessage_shape h r with ⟨pc',hr'⟩ | hr' <;> rw [hr'] at hr
    · cases hr
    · cases key <;> cases hr

theorem hygienic_step (hp : Each Promise s) (hs : Hygienic s) (ha : abandons s move = false)
    (h : system.machine.step s move = some s') : Hygienic s' := by
  rw [hygienic_iff_lookup] at hs ⊢
  intro k o hl
  cases move with
  | arrive t =>
    obtain ⟨-,rfl⟩ := step_arrive h
    obtain ⟨u,hu,hun⟩ := hs k o hl
    exact ⟨u,arrive_kept hu,hun⟩
  | run i c =>
    obtain ⟨t,t',new,ht⟩ := step_run h
    obtain ⟨n,r,hact,hperf,rfl,rfl⟩ := turn_access ht
    by_cases hoi : o = i
    · subst hoi
      refine ⟨_,ht.self,?_⟩
      obtain ⟨u,hu,howner⟩ := (promise_self hp ht.thread hact hperf).owner k hl
      obtain rfl := Option.some.inj hu
      refine owner_unresolved howner fun hdone => ?_
      obtain ⟨rfl,haction,k',rfl⟩ := abandoned_of_act hact hdone
      have hold : s.shared.dbRequestPromises.lookup k = some o := by
        rcases lookup_perform hperf hl with hold | ⟨hreg,-⟩
        · exact hold
        · rw [haction] at hreg
          cases hreg
      obtain ⟨u,hu,hun⟩ := hs k o hold
      rw [ht.thread,Option.some.injEq] at hu
      subst hu
      obtain rfl : k' = k := by simpa [unresolved] using hun
      simp [abandons,ht.thread,hold] at ha
    · rcases lookup_perform hperf hl with hold | ⟨-,hself⟩
      · obtain ⟨u,hu,hun⟩ := hs k o hold
        exact ⟨u,ht.kept hoi hu,hun⟩
      · exact absurd hself hoi

/-- Dropping a registered future leaves its entry behind. -/
theorem not_hygienic_of_abandons (h : abandons s move = true) :
    ∃ s', system.machine.step s move = some s' ∧ ¬ Hygienic s' := by
  unfold abandons at h
  split at h
  · rename_i i
    split at h
    · rename_i k ht
      have hk : s.shared.dbRequestPromises.lookup k = some i := by simpa using h
      refine ⟨⟨s.shared.setChannel i .receiverDropped,
        s.threads.set i (.request (.done .abandoned))⟩,?_,fun hs => ?_⟩
      · simp [machine,step,ht,system,Websocket.exec,act,sendDbRequest,access,Client.perform]
      · obtain ⟨u,hu,hun⟩ := hygienic_iff_lookup.mp hs k i hk
        have hlt := (List.getElem?_eq_some_iff.mp ht).1
        obtain rfl : Task.request (.done .abandoned) = u := by simpa [hlt] using hu
        cases hun
    · cases h
  · cases h

/-- Along every run the map stays clean in all states exactly if no step drops the
future of a request that is still registered. -/
theorem hygienic_run_iff (reconnectable : Bool) (moves : List Move) :
    (∀ before after s, moves = before ++ after →
        system.machine.run (initial reconnectable) before = some s → Hygienic s) ↔
      system.machine.Meets (fun s move => abandons s move = false) (initial reconnectable)
        moves := by
  constructor
  · intro h
    refine StepMachine.meets_iff.mpr fun before move after s hmoves hrun => ?_
    by_contra habandon
    obtain ⟨s',hstep,hdirty⟩ := not_hygienic_of_abandons (by simpa using habandon)
    refine hdirty (h (before ++ [move]) after s' (by simp [hmoves]) ?_)
    refine (StepMachine.run_append_eq_some _).mpr ⟨s,hrun,?_⟩
    exact (StepMachine.run_cons_eq_some _).mpr ⟨s',hstep,rfl⟩
  · rintro hmeets before after s rfl hrun
    have hbefore := ((StepMachine.meets_append hrun).mp hmeets).1
    have hinv := StepMachine.invariant (I := fun s => Each Promise s ∧ Hygienic s)
      (fun s move s' hs ha hstep =>
        ⟨promise_step hs.1 hstep,hygienic_step hs.1 hs.2 ha hstep⟩)
      ⟨promise_run (StepMachine.run_nil _ _),by simp [Hygienic,initial,Client.startWithToken,Client.new]⟩
      hbefore hrun
    exact hinv.2

/-- A request is sent on an open connection, and its caller's own timeout drops the
future before a response, the inner timeout or a disconnect. -/
def abandonedRequest : List Move :=
  opening ++ readying 1 ++ requesting 6 ++ [.run 6 .abandon]

theorem abandonedRequest_leaks : ∃ s,
    system.machine.run (initial true) abandonedRequest = some s ∧
      s.shared.connectionClosed = false ∧ s.shared.serverReady = true ∧ ¬ Hygienic s := by
  have h : (system.machine.run (initial true) abandonedRequest).any (fun s =>
      decide (s.shared.connectionClosed = false ∧ s.shared.serverReady = true ∧ ¬ Hygienic s)) =
      true := by decide +kernel
  obtain ⟨s,hs,hbad⟩ := (Option.any_eq_true _ _).mp h
  exact ⟨s,hs,of_decide_eq_true hbad⟩

end PromiseHygiene
end JobControllerClient
