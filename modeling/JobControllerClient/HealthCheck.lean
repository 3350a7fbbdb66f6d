import JobControllerClient.DisconnectMarks
import JobControllerClient.ResponseCorrelation

/-! The health check of `check_pings_internal` over whole runs. The two stamps are shared by all
connections: a connection that opens zeroes them, its pinger resets the pong stamp before every
ping, and its reader stores the time of a pong. The verdict of a pinger is about its own
connection as long as no superseded task writes a stamp. -/
namespace JobControllerClient
namespace HealthCheck

open Interleaving Websocket DisconnectMarks
open ResponseCorrelation (connectionId_le)

/-- What the pinger and the reader of a connection do to the health check. -/
inductive Health
  | reset (conn : ℕ)
  | pong (conn : ℕ)
  | passed (conn : ℕ)
  | failed (conn : ℕ)
  deriving DecidableEq

def Health.conn : Health → ℕ
  | .reset conn | .pong conn | .passed conn | .failed conn => conn

/-- The verdict is where the pinger goes from the check: on to the next ping or into
`handle_disconnect`. It counts on the current connection, and a pass only if a ping is out. -/
def seen (x : Client) : Task → Task → List Health
  | .pinger conn .resetPong, _ => [.reset conn]
  | .pinger conn (.loadPong _), .disconnecting .. =>
    if conn = x.connectionId then [.failed conn] else []
  | .pinger conn (.loadPong ping), .pinger _ .resetPong =>
    if conn = x.connectionId ∧ ping ≠ 0 then [.passed conn] else []
  | .reader conn .pongStore, _ => [.pong conn]
  | _, _ => []

def observe (s : State) : Move → List Health
  | .run i c => (s.threads[i]?.bind fun t =>
      (system.exec s.shared i t c).map fun r => seen s.shared t r.2.1).getD []
  | .arrive _ => []

/-- A superseded task writes a stamp, or the clock stands at the epoch. -/
def misstamps (x : Client) : Task → Choice → Bool
  | .pinger conn .resetPong, _ | .pinger conn .stampPing, _ => conn ≠ x.connectionId
  | .reader conn .pongStore, c => conn ≠ x.connectionId || c = .now 0
  | _, _ => false

def staleStamp (s : State) : Move → Bool
  | .run i c => s.threads[i]?.any (misstamps s.shared · c)
  | .arrive _ => false

def answer (conn : ℕ) (answered : Bool) : Health → Bool
  | .reset conn' => answered && conn' ≠ conn
  | .pong conn' => answered || conn' = conn
  | .passed _ | .failed _ => answered

/-- A pong of the connection has come since its last reset. -/
def answered (conn : ℕ) (l : List Health) : Bool := l.foldl (answer conn) false

/-- What has to come before a verdict. -/
def Sound (before : List Health) : Health → Prop
  | .failed conn => .reset conn ∈ before ∧ answered conn before = false
  | .passed conn => .reset conn ∈ before ∧ answered conn before = true
  | _ => True

/-- The supervisor has zeroed the stamps and is about to spawn the tasks. -/
def stamped : SupervisorPc → Bool
  | .openWriter _ | .spawning .. => true
  | _ => false

/-- The stamps are those of the current connection. -/
def Live (s : State) : Prop :=
  Staffed s s.shared.connectionId ∨
    ∃ pc, s.threads[0]? = some (.supervisor pc) ∧ stamped pc = true

def TaskHealth (x : Client) (l : List Health) : Task → Prop
  | .pinger conn .stampPing => .reset conn ∈ l
  | .pinger conn (.loadPong ping) => conn = x.connectionId → ping ≠ 0 → .reset conn ∈ l
  | _ => True

structure Checked (s : State) (l : List Health) : Prop where
  staffed : ∀ e ∈ l, Staffed s e.conn
  pong : Live s → (s.shared.pongTimestamp ≠ 0 ↔ answered s.shared.connectionId l = true)
  ping : Live s → s.shared.pingTimestamp ≠ 0 → .reset s.shared.connectionId ∈ l
  opening : ∀ conn, s.threads[0]? = some (.supervisor (.openPong conn)) →
    s.shared.pingTimestamp = 0
  tasks : ∀ (j : ℕ) t, s.threads[j]? = some t → TaskHealth s.shared l t
  verdicts : ∀ before e after, l = before ++ e :: after → Sound before e

variable {s s' : State} {x x' : Client} {i j conn : ℕ} {t t' : Task} {c : Choice} {n : Next}
  {new : List Task} {move : Move} {l : List Health} {e : Health}

section Events

theorem answered_concat : answered conn (l ++ [e]) = answer conn (answered conn l) e := by
  simp [answered]

theorem pong_of_answered (h : answered conn l = true) :
    ∃ before after, l = before ++ .pong conn :: after ∧ .reset conn ∉ after := by
  induction l using List.reverseRecOn with
  | nil => cases h
  | append_singleton l e ih =>
    rw [answered_concat] at h
    have hkeep : answered conn l = true → e ≠ .reset conn →
        ∃ before after, l ++ [e] = before ++ .pong conn :: after ∧ .reset conn ∉ after := by
      intro hl he
      obtain ⟨before,after,rfl,hafter⟩ := ih hl
      exact ⟨before,after ++ [e],by simp,by simp [hafter,he.symm]⟩
    cases e with
    | reset conn' =>
      simp only [answer,Bool.and_eq_true,decide_eq_true_eq] at h
      exact hkeep h.1 (by simpa using h.2)
    | pong conn' =>
      by_cases hconn : conn' = conn
      · subst hconn
        exact ⟨l,[],rfl,List.not_mem_nil⟩
      · simp only [answer,hconn,decide_false,Bool.or_false] at h
        exact hkeep h (by simp)
    | passed _ | failed _ => exact hkeep h (by simp)

theorem reset_of_unanswered (h : answered conn l = false) (hmem : .reset conn ∈ l) :
    ∃ before after, l = before ++ .reset conn :: after ∧ .pong conn ∉ after := by
  induction l using List.reverseRecOn with
  | nil => cases hmem
  | append_singleton l e ih =>
    rw [answered_concat] at h
    by_cases he : e = .reset conn
    · subst he
      exact ⟨l,[],rfl,List.not_mem_nil⟩
    · have hl : .reset conn ∈ l := by simpa [Ne.symm he] using hmem
      have hboth : answered conn l = false ∧ e ≠ .pong conn := by
        cases e with
        | reset conn' =>
          have hne : conn' ≠ conn := fun hconn => he (hconn ▸ rfl)
          exact ⟨by simpa [answer,hne] using h,by simp⟩
        | pong conn' => simpa [answer] using h
        | passed _ | failed _ => exact ⟨h,by simp⟩
      obtain ⟨before,after,rfl,hafter⟩ := ih hboth.1 hl
      exact ⟨before,after ++ [e],by simp,by simp [hafter,Ne.symm hboth.2]⟩

theorem sound_concat (hl : ∀ before e after, l = before ++ e :: after → Sound before e)
    (he : Sound l e) {before after : List Health} {e' : Health}
    (h : l ++ [e] = before ++ e' :: after) : Sound before e' := by
  rcases after.eq_nil_or_concat with rfl | ⟨after,last,rfl⟩
  · obtain ⟨rfl,hlast⟩ := List.append_inj' h rfl
    cases hlast
    exact he
  · rw [List.concat_eq_append,← List.cons_append,← List.append_assoc] at h
    exact hl before e' after (List.append_inj' h rfl).1

end Events

section Access

variable {a : Action} {r : a.Answer}

theorem perform_pong (h : x.perform i a = some (x',r)) :
    ((∀ value, a ≠ .storePong value) ∧ x'.pongTimestamp = x.pongTimestamp) ∨
      ∃ value, a = .storePong value ∧ x'.pongTimestamp = value := by
  cases a <;> simp only [Client.perform] at h <;> (repeat' split at h) <;>
    simp only [Option.some.injEq,Prod.mk.injEq,Option.map_eq_some_iff,reduceCtorEq] at h
  case storePong value =>
    obtain ⟨rfl,-⟩ := h
    exact .inr ⟨value,rfl,rfl⟩
  all_goals first
    | (obtain ⟨rfl,-⟩ := h; exact .inl ⟨by simp,rfl⟩)
    | (obtain ⟨_,-,rfl,-⟩ := h; exact .inl ⟨by simp,rfl⟩)

theorem perform_ping (h : x.perform i a = some (x',r)) :
    ((∀ value, a ≠ .storePing value) ∧ x'.pingTimestamp = x.pingTimestamp) ∨
      ∃ value, a = .storePing value ∧ x'.pingTimestamp = value := by
  cases a <;> simp only [Client.perform] at h <;> (repeat' split at h) <;>
    simp only [Option.some.injEq,Prod.mk.injEq,Option.map_eq_some_iff,reduceCtorEq] at h
  case storePing value =>
    obtain ⟨rfl,-⟩ := h
    exact .inr ⟨value,rfl,rfl⟩
  all_goals first
    | (obtain ⟨rfl,-⟩ := h; exact .inl ⟨by simp,rfl⟩)
    | (obtain ⟨_,-,rfl,-⟩ := h; exact .inl ⟨by simp,rfl⟩)

end Access

/-- Who stores a stamp, and which. -/
def Stamps (t : Task) (c : Choice) : Action → Prop
  | .storePong value => (value = 0 ∧ ∃ conn, t = .supervisor (.openPong conn)) ∨
      (value = 0 ∧ ∃ conn, t = .pinger conn .resetPong) ∨
      ∃ conn, t = .reader conn .pongStore ∧ c = .now value
  | .storePing value => (value = 0 ∧ ∃ conn, t = .supervisor (.openPing conn)) ∨
      ∃ conn, t = .pinger conn .stampPing
  | _ => True

theorem act_stamps (h : act t c = some n) : Stamps t c n.action := by
  cases t <;> simp only [act,reduceCtorEq] at h
  case' queueing => unfold queueMessage at h
  case' request => unfold sendDbRequest at h
  case' disconnecting => unfold handleDisconnect at h
  case' supervisor => unfold superviseConnections at h
  case' reader => unfold readLoop at h
  case' writer => unfold writeLoop at h
  case' scheduler => unfold schedule at h
  case' pinger => unfold pingLoop at h
  case' pruner => unfold pruneLoop at h
  all_goals split at h <;> cases h <;> simp [Stamps]

theorem seen_cases (hact : act t c = some n) :
    (∃ conn, t = .pinger conn .resetPong ∧ n.action = .storePong 0) ∨
      (∃ conn value, t = .reader conn .pongStore ∧ n.action = .storePong value) ∨
      (∃ conn ping, t = .pinger conn (.loadPong ping) ∧ n.action = .loadPong) ∨
      ∀ x t', seen x t t' = [] := by
  cases t with
  | pinger conn pc =>
    cases pc with
    | resetPong =>
      cases c <;> cases hact
      exact .inl ⟨conn,rfl,rfl⟩
    | loadPong ping =>
      cases c <;> cases hact
      exact .inr (.inr (.inl ⟨conn,ping,rfl,rfl⟩))
    | _ => exact .inr (.inr (.inr fun _ _ => rfl))
  | reader conn pc =>
    cases pc with
    | pongStore =>
      cases c <;> cases hact
      exact .inr (.inl ⟨conn,_,rfl,rfl⟩)
    | _ => exact .inr (.inr (.inr fun _ _ => rfl))
  | _ => exact .inr (.inr (.inr fun _ _ => rfl))

/-- The pinger gives a connection up exactly if its ping is out and unanswered. -/
theorem seen_verdict {ping : ℤ} {r : n.action.Answer}
    (hact : pingLoop conn (.loadPong ping) c = some n)
    (hperf : x.perform i n.action = some (x',r)) :
    seen x (.pinger conn (.loadPong ping)) (n.resume r) = [] ∨
    (conn = x.connectionId ∧ ping ≠ 0 ∧ seen x (.pinger conn (.loadPong ping)) (n.resume r) =
      [if x.pongTimestamp = 0 then .failed conn else .passed conn]) := by
  cases c <;> cases hact
  simp only [Client.perform,Option.some.injEq,Prod.mk.injEq] at hperf
  obtain ⟨-,rfl⟩ := hperf
  by_cases hid : conn = x.connectionId
  · by_cases hping : ping = 0
    · simp [hping,seen]
    · refine .inr ⟨hid,hping,?_⟩
      by_cases hpong : x.pongTimestamp = 0 <;> simp [hping,hpong,seen,hid]
  · refine .inl ?_
    by_cases hout : ping ≠ 0 ∧ x.pongTimestamp = 0 <;> simp [hout,seen,hid]

theorem seen_kind (h : e ∈ seen x t t') : ∃ role, t.kind = .worker e.conn role := by
  unfold seen at h
  split at h
  · rw [List.mem_singleton.mp h]
    exact ⟨.pinger,rfl⟩
  · split at h
    · rw [List.mem_singleton.mp h]
      exact ⟨.pinger,rfl⟩
    · cases h
  · split at h
    · rw [List.mem_singleton.mp h]
      exact ⟨.pinger,rfl⟩
    · cases h
  · rw [List.mem_singleton.mp h]
    exact ⟨.reader,rfl⟩
  · cases h

theorem answered_seen {r : n.action.Answer} (hact : act t c = some n)
    (hperf : x.perform i n.action = some (x',r)) (ha : ∀ value, n.action ≠ .storePong value) :
    answered conn (l ++ seen x t (n.resume r)) = answered conn l := by
  rcases seen_cases hact with ⟨_,-,hstore⟩ | ⟨_,value,-,hstore⟩ | ⟨conn',ping,rfl,-⟩ | hnone
  · exact absurd hstore (ha 0)
  · exact absurd hstore (ha value)
  · rcases seen_verdict hact hperf with hnil | ⟨-,-,hone⟩
    · rw [hnil,List.append_nil]
    · rw [hone,answered_concat]
      split <;> rfl
  · rw [hnone,List.append_nil]

theorem staffed_of_answered (hs : Checked s l) (h : answered conn l = true) : Staffed s conn := by
  obtain ⟨before,after,rfl,-⟩ := pong_of_answered h
  exact hs.staffed (.pong conn) (List.mem_append_right _ List.mem_cons_self)

theorem stamped_inv {pc pc' : SupervisorPc} {a : Action} {r : a.Answer}
    (hstep : SupervisorStep pc a r pc') (h : stamped pc' = true) :
    stamped pc = true ∨ ∃ conn, pc = .openPong conn := by
  cases hstep with
  | openPong conn => exact .inr ⟨conn,rfl⟩
  | openWriter | spawn => exact .inl rfl
  | _ => cases h

theorem openPong_inv {pc pc' : SupervisorPc} {a : Action} {r : a.Answer}
    (hstep : SupervisorStep pc a r pc') (h : pc' = .openPong conn) : a = .storePing 0 := by
  cases hstep <;> cases h
  rfl

section Turn

/-- The stamps of the current connection were its own before, or are being zeroed. -/
theorem live_turn (hlayout : Layout s) (ht : Turn system s s' i t c t' new) (h : Live s') :
    s'.shared.connectionId = s.shared.connectionId ∧
      (Live s ∨ ∃ conn, i = 0 ∧ t = .supervisor (.openPong conn)) := by
  obtain ⟨n,r,hact,hperf,rfl,-⟩ := turn_access ht
  by_cases hnext : n.action = .nextConnection
  · exfalso
    have hperforms := act_performs hact
    rw [hnext] at hperforms
    subst hperforms
    obtain rfl := hlayout.only i _ ht.thread
    rcases h with hstaffed | ⟨pc,h0,hpc⟩
    · cases c <;> cases hact
      have hlayout' := layout_supervisor hlayout ht
      exact unstaffed hlayout' ht.self rfl hstaffed
    · cases c <;> cases hact
      rw [ht.self] at h0
      cases h0
      cases hpc
  refine ⟨perform_connectionId hperf hnext,?_⟩
  rcases h with hstaffed | ⟨pc,h0,hpc⟩
  · rw [perform_connectionId hperf hnext] at hstaffed
    rcases staffed_turn ht hstaffed with hold | ⟨role,rest,rfl⟩
    · exact .inl (.inl hold)
    · obtain rfl := hlayout.only i _ ht.thread
      exact .inl (.inr ⟨_,ht.thread,rfl⟩)
  · rcases supervisor_turn hlayout ht h0 with hkept | ⟨rfl,ht',pc₀,rfl⟩
    · exact .inl (.inr ⟨pc,hkept,hpc⟩)
    · rcases stamped_inv (supervisorStep_of_resume hact ht') hpc with hpc₀ | ⟨conn,rfl⟩
      · exact .inl (.inr ⟨pc₀,ht.thread,hpc₀⟩)
      · exact .inr ⟨conn,rfl,rfl⟩

theorem staffed_health (hs : Checked s l) (ht : Turn system s s' i t c t' new)
    (he : e ∈ l ++ seen s.shared t t') : Staffed s' e.conn := by
  rcases List.mem_append.mp he with hold | hnew
  · exact staffed_step ht.step (hs.staffed e hold)
  · obtain ⟨role,hkind⟩ := seen_kind hnew
    exact staffed_step ht.step ⟨i,t,role,ht.thread,hkind⟩

theorem pong_turn (hlayout : Layout s) (hs : Checked s l) (ht : Turn system s s' i t c t' new)
    (hstale : misstamps s.shared t c = false) (hlive : Live s') :
    s'.shared.pongTimestamp ≠ 0 ↔
      answered s'.shared.connectionId (l ++ seen s.shared t t') = true := by
  obtain ⟨hid,hbefore⟩ := live_turn hlayout ht hlive
  obtain ⟨n,r,hact,hperf,rfl,-⟩ := turn_access ht
  have hstamps := act_stamps hact
  rw [hid]
  rcases perform_pong hperf with ⟨hnone,hsame⟩ | ⟨value,ha,hvalue⟩
  · rw [answered_seen hact hperf hnone,hsame]
    rcases hbefore with hold | ⟨conn,rfl,rfl⟩
    · exact hs.pong hold
    · cases c <;> cases hact
      exact absurd rfl (hnone 0)
  · rw [ha] at hstamps
    rw [hvalue]
    rcases hstamps with ⟨rfl,conn,rfl⟩ | ⟨rfl,conn,rfl⟩ | ⟨conn,rfl,rfl⟩
    · obtain rfl := hlayout.only i _ ht.thread
      have hno : answered s.shared.connectionId l ≠ true := fun hyes =>
        unstaffed hlayout ht.thread rfl (staffed_of_answered hs hyes)
      simp [seen,hno]
    · obtain rfl : conn = s.shared.connectionId := by simpa [misstamps] using hstale
      simp [seen,answered_concat,answer]
    · obtain ⟨rfl,hvalue⟩ : conn = s.shared.connectionId ∧ value ≠ 0 := by
        simpa [misstamps] using hstale
      simp [seen,answered_concat,answer,hvalue]

theorem ping_turn (hlayout : Layout s) (hs : Checked s l) (ht : Turn system s s' i t c t' new)
    (hstale : misstamps s.shared t c = false) (hlive : Live s')
    (hping : s'.shared.pingTimestamp ≠ 0) :
    .reset s'.shared.connectionId ∈ l ++ seen s.shared t t' := by
  obtain ⟨hid,hbefore⟩ := live_turn hlayout ht hlive
  obtain ⟨n,r,hact,hperf,rfl,-⟩ := turn_access ht
  have hstamps := act_stamps hact
  rw [hid]
  refine List.mem_append_left _ ?_
  rcases perform_ping hperf with ⟨-,hsame⟩ | ⟨value,ha,hvalue⟩
  · rw [hsame] at hping
    rcases hbefore with hold | ⟨conn,rfl,rfl⟩
    · exact hs.ping hold hping
    · exact absurd (hs.opening conn ht.thread) hping
  · rw [ha] at hstamps
    rcases hstamps with ⟨rfl,-⟩ | ⟨conn,rfl⟩
    · exact absurd hvalue hping
    · obtain rfl : conn = s.shared.connectionId := by simpa [misstamps] using hstale
      exact hs.tasks i _ ht.thread

theorem opening_turn (hlayout : Layout s) (hs : Checked s l) (ht : Turn system s s' i t c t' new)
    (hstale : misstamps s.shared t c = false)
    (h0 : s'.threads[0]? = some (.supervisor (.openPong conn))) :
    s'.shared.pingTimestamp = 0 := by
  obtain ⟨n,r,hact,hperf,rfl,-⟩ := turn_access ht
  have hstamps := act_stamps hact
  rcases perform_ping hperf with ⟨hnone,hsame⟩ | ⟨value,ha,hvalue⟩
  · rw [hsame]
    rcases supervisor_turn hlayout ht h0 with hkept | ⟨rfl,ht',pc₀,rfl⟩
    · exact hs.opening conn hkept
    · exact absurd (openPong_inv (supervisorStep_of_resume hact ht') rfl) (hnone 0)
  · rw [hvalue]
    rw [ha] at hstamps
    rcases hstamps with ⟨rfl,-⟩ | ⟨conn',rfl⟩
    · rfl
    · -- a pinger that is not superseded belongs to the current connection, which has no task yet
      have hconn : conn' = s.shared.connectionId := by simpa [misstamps] using hstale
      rcases supervisor_turn hlayout ht h0 with hkept | ⟨-,-,pc₀,hpc₀⟩
      · exact absurd ⟨i,_,.pinger,ht.thread,hconn ▸ rfl⟩ (unstaffed hlayout hkept rfl)
      · cases hpc₀

theorem taskHealth_kept (hle : x.connectionId ≤ x'.connectionId)
    (hbound : ∀ conn role, t.kind = .worker conn role → conn ≤ x.connectionId)
    (h : TaskHealth x l t) (new : List Health) : TaskHealth x' (l ++ new) t := by
  cases t with
  | pinger conn pc =>
    cases pc with
    | stampPing => exact List.mem_append_left _ h
    | loadPong ping =>
      intro hconn hping
      have hold := hbound conn .pinger rfl
      exact List.mem_append_left _ (h (by omega) hping)
    | _ => trivial
  | _ => trivial

theorem pinger_self {pc pc' : PingerPc} {r : n.action.Answer} (hact : pingLoop conn pc c = some n)
    (h : x.perform i n.action = some (x',r))
    (hping : conn = x.connectionId → x.pingTimestamp ≠ 0 → .reset conn ∈ l)
    (hr : n.resume r = .pinger conn pc') :
    TaskHealth x (l ++ seen x (.pinger conn pc) (.pinger conn pc')) (.pinger conn pc') := by
  cases pc with
  | resetPong =>
    cases c <;> cases hact
    cases hr
    exact List.mem_append_right _ List.mem_cons_self
  | loadPing =>
    cases c <;> cases hact
    cases hr
    simp only [Client.perform,Option.some.injEq,Prod.mk.injEq] at h
    obtain ⟨-,rfl⟩ := h
    exact fun hconn hne => List.mem_append_left _ (hping hconn hne)
  | checkId | checkClosed | loadPong _ | sendPing =>
    cases c <;> cases hact
    dsimp only at hr
    split at hr <;> cases hr <;> trivial
  | tick | stampPing | leaving =>
    cases c <;> cases hact
    cases hr
    trivial
  | done => cases c <;> cases hact

theorem tasks_turn (hlayout : Layout s) (hs : Checked s l) (ht : Turn system s s' i t c t' new)
    {u : Task} (hu : s'.threads[j]? = some u) :
    TaskHealth s'.shared (l ++ seen s.shared t t') u := by
  obtain ⟨n,r,hact,hperf,rfl,rfl⟩ := turn_access ht
  have hle := connectionId_le hperf
  rcases ht.thread_cases hu with ⟨rfl,rfl⟩ | ⟨-,hold⟩ | ⟨-,hnew⟩
  · have hkind := act_kind hact r
    cases hr : n.resume r with
    | pinger conn pc' =>
      rw [hr] at hkind
      have hbound : ∀ conn' role, (Task.pinger conn pc').kind = .worker conn' role →
          conn' ≤ s.shared.connectionId := fun conn' role hk =>
        hlayout.bound j t conn' role ht.thread (hkind ▸ hk)
      cases t with
      | pinger conn' pc =>
        cases hkind
        have hping : conn = s.shared.connectionId → s.shared.pingTimestamp ≠ 0 →
            .reset conn ∈ l := by
          rintro rfl
          exact hs.ping (.inl ⟨j,_,.pinger,ht.thread,rfl⟩)
        have hself := pinger_self hact hperf hping hr
        simpa using taskHealth_kept hle hbound hself []
      | disconnecting conn' pc caller =>
        rcases handleDisconnect_shape hact r with ⟨pc₁,hr'⟩ | hr'
        · cases hr'.symm.trans hr
        · rw [hr] at hr'
          cases caller <;> cases hr'
          trivial
      | queueing pc key => cases key <;> cases hkind
      | _ => cases hkind
    | _ => trivial
  · exact taskHealth_kept hle (fun conn role hk => hlayout.bound j u conn role hold hk)
      (hs.tasks j u hold) _
  · obtain ⟨conn,role,rest,-,rfl,-⟩ := act_spawned hact (by simpa using hnew)
    cases role <;> trivial

theorem verdict_turn (hs : Checked s l) (ht : Turn system s s' i t c t' new)
    {before after : List Health} (h : l ++ seen s.shared t t' = before ++ e :: after) :
    Sound before e := by
  have hone : ∀ {event}, seen s.shared t t' = [event] → Sound l event → Sound before e := by
    intro event hevent hsound
    rw [hevent] at h
    exact sound_concat hs.verdicts hsound h
  have hnil : seen s.shared t t' = [] → Sound before e := by
    intro hnone
    rw [hnone,List.append_nil] at h
    exact hs.verdicts before e after h
  obtain ⟨n,r,hact,hperf,rfl,-⟩ := turn_access ht
  rcases seen_cases hact with ⟨conn,rfl,-⟩ | ⟨conn,_,rfl,-⟩ | ⟨conn,ping,rfl,-⟩ | hnone
  · exact hone rfl trivial
  · exact hone rfl trivial
  · rcases seen_verdict hact hperf with hnone | ⟨rfl,hping,hverdict⟩
    · exact hnil hnone
    · have hreset := hs.tasks i _ ht.thread rfl hping
      have hpong := hs.pong (.inl ⟨i,_,.pinger,ht.thread,rfl⟩)
      refine hone hverdict ?_
      split
      · rename_i hzero
        exact ⟨hreset,by simpa [hzero] using hpong⟩
      · rename_i hne
        exact ⟨hreset,hpong.mp hne⟩
  · exact hnil (hnone _ _)

end Turn

theorem live_arrive {u : Task} (hu : entry u = true)
    (h : Live ⟨s.shared,s.threads ++ [u]⟩) : Live s := by
  rcases h with hstaffed | ⟨pc,h0,hpc⟩
  · exact .inl (staffed_arrive hu hstaffed)
  · exact .inr ⟨pc,arrive_old hu h0 rfl,hpc⟩

theorem checked_step (hlayout : Layout s) (hs : Checked s l) (hstale : staleStamp s move = false)
    (h : system.machine.step s move = some s') : Checked s' (l ++ observe s move) := by
  cases move with
  | arrive u =>
    have hstaffed := fun e he => staffed_step h (hs.staffed e he)
    obtain ⟨hu,rfl⟩ := step_arrive h
    rw [observe,List.append_nil]
    refine ⟨hstaffed,fun hlive => hs.pong (live_arrive hu hlive),
      fun hlive => hs.ping (live_arrive hu hlive),fun conn h0 => ?_,fun j t hj => ?_,hs.verdicts⟩
    · exact hs.opening conn (arrive_old hu h0 rfl)
    · rcases arrive_cases hj with hold | ⟨-,rfl⟩
      · exact hs.tasks j t hold
      · rcases entry_cases hu with ⟨_,_,_,rfl⟩ | ⟨_,rfl⟩ <;> trivial
  | run i c =>
    obtain ⟨t,t',new,ht⟩ := step_run h
    have hobserve : observe s (.run i c) = seen s.shared t t' := by
      simp [observe,ht.thread,ht.exec]
    have hmis : misstamps s.shared t c = false := by simpa [staleStamp,ht.thread] using hstale
    rw [hobserve]
    exact ⟨fun e he => staffed_health hs ht he,pong_turn hlayout hs ht hmis,
      ping_turn hlayout hs ht hmis,fun conn => opening_turn hlayout hs ht hmis,
      fun j u hu => tasks_turn hlayout hs ht hu,fun before e after => verdict_turn hs ht⟩

theorem checked_initial (reconnectable : Bool) : Checked (initial reconnectable) [] where
  staffed e he := by cases he
  pong hlive := by
    rcases hlive with hstaffed | ⟨pc,h0,hpc⟩
    · exact absurd ⟨_,hstaffed⟩ (unopened_initial reconnectable)
    · cases h0
      cases hpc
  ping hlive hping := absurd rfl hping
  opening conn h0 := by cases h0
  tasks j t hj := by
    rw [initial_thread hj]
    trivial
  verdicts before e after h := by simp at h

/-- In every interleaving in which no superseded task writes a stamp, a current connection is
given up by its health check only if no pong has come on it since the pinger's last reset, and
passes only if one has. -/
theorem health_verdicts (reconnectable : Bool) (moves : List Move) (s : State)
    (hrun : system.machine.run (initial reconnectable) moves = some s)
    (hcurrent : system.machine.Meets (fun s move => staleStamp s move = false)
      (initial reconnectable) moves) (conn : ℕ) (before after : List Health) :
    (system.machine.log observe (initial reconnectable) moves = before ++ .failed conn :: after →
      ∃ earlier later, before = earlier ++ .reset conn :: later ∧ .pong conn ∉ later) ∧
    (system.machine.log observe (initial reconnectable) moves = before ++ .passed conn :: after →
      .reset conn ∈ before ∧
        ∃ earlier later, before = earlier ++ .pong conn :: later ∧ .reset conn ∉ later) := by
  have hboth := StepMachine.log_invariant (I := fun s l => Layout s ∧ Checked s l)
    (fun _ _ _ _ hs hstale hstep =>
      ⟨layout_step hs.1 hstep,checked_step hs.1 hs.2 hstale hstep⟩)
    ⟨layout_initial reconnectable,checked_initial reconnectable⟩ hcurrent hrun
  rw [List.nil_append] at hboth
  constructor
  · intro hlog
    have hsound := hboth.2.verdicts before (.failed conn) after hlog
    exact reset_of_unanswered hsound.2 hsound.1
  · intro hlog
    have hsound := hboth.2.verdicts before (.passed conn) after hlog
    exact ⟨hsound.1,pong_of_answered hsound.2⟩

def pinging (i : ℕ) : List Move := [.run i .tick] ++ going i 5 ++ [.run i (.now 5)] ++ going i 1

def ponging (i : ℕ) : List Move := [.run i (.event .pong)] ++ going i 2

/-- The server answers the first ping and not the second one. -/
def fallenSilent : List Move :=
  opening ++ pinging 4 ++ ponging 1 ++ [.run 1 (.now 6)] ++ pinging 4 ++ [.run 4 .tick] ++ going 4 4

theorem health_verdicts_fallenSilent :
    system.machine.log observe (initial true) fallenSilent =
        [.reset 1,.pong 1,.passed 1,.reset 1,.failed 1] ∧
      (∃ earlier later, [.reset 1,.pong 1] = earlier ++ Health.pong 1 :: later ∧
        .reset 1 ∉ later) ∧
      ∃ earlier later, [.reset 1,.pong 1,.passed 1,.reset 1] = earlier ++ Health.reset 1 :: later ∧
        .pong 1 ∉ later := by
  have hlog : system.machine.log observe (initial true) fallenSilent =
      [.reset 1,.pong 1,.passed 1,.reset 1,.failed 1] := by
    decide +kernel
  have hrun : (system.machine.run (initial true) fallenSilent).isSome = true := by
    decide +kernel
  obtain ⟨s,hs⟩ := Option.isSome_iff_exists.mp hrun
  have hcurrent : system.machine.Meets (fun s move => staleStamp s move = false)
      (initial true) fallenSilent := by
    decide +kernel
  have hpassed := health_verdicts true fallenSilent s hs hcurrent 1 [.reset 1,.pong 1]
    [.reset 1,.failed 1]
  have hfailed := health_verdicts true fallenSilent s hs hcurrent 1
    [.reset 1,.pong 1,.passed 1,.reset 1] []
  exact ⟨hlog,(hpassed.2 hlog).2,hfailed.1 hlog⟩

/-- The reader of the first connection stores its pong when the pinger of the second connection
waits for one. -/
def latePong : List Move :=
  opening ++ pinging 4 ++ ponging 1 ++ going 2 2 ++ [.run 2 .tick,.run 2 .failed] ++ going 2 47 ++
    going 0 4 ++ opening ++ pinging 9 ++ [.run 1 (.now 6)] ++ [.run 9 .tick] ++ going 9 4

-- the second connection passes, and no pong has come on it
example : system.machine.log observe (initial true) latePong =
    [.reset 1,.reset 2,.pong 1,.passed 2] := by
  decide +kernel

end HealthCheck
end JobControllerClient
