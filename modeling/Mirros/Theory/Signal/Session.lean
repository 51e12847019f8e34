import Mirros.Lib.Run
import Mirros.Theory.Signal.Safe

/-!
# Runs with Signals

A session is the scheduler with its mutexes, the tasks that are alive, and the two numbers of
the pid map: how many entries are free, and where the search for a free one begins. The calls
are those of the scheduler and the mutexes, a fork, a fork that fails for want of memory, and
a signal of the current task.

A fork that fails has its pid by then and does not give it back, so the entry goes on leading to
what was to be the new task. Its memory may be that of another task later.

## Main definitions

* `SignalSession`, `SignalCall`: The kernel and the calls.
* `PidInv`: The entries of the live tasks.

## Theorems

* `pidInv_run`: The entry of a live task is its own, in every run.
* `sysSignal_safe`: When a signal does what it should.
-/

namespace Mirros

/-- The scheduler with the mutexes and the live tasks, and the numbers of the pid map. -/
structure SignalSession where
  mutex : MutexSession
  nrFree : Nat
  cursor : Nat

/-- A call. -/
inductive SignalCall where
  | mutex (c : MutexCall)
  | fork (t flag parent : Nat)
  | forkFails (t flag parent : Nat)
  | signal (fuel : Nat) (pid : Int) (sig : Nat)
  deriving DecidableEq, Repr

/-- The calls of a session with mutexes that do not fork. -/
def MutexCall.Plain : MutexCall → Prop
  | .fork _ _ _ _ => False
  | _ => True

instance (c : MutexCall) : Decidable c.Plain :=
  match c with
  | .fork _ _ _ _ => inferInstanceAs (Decidable False)
  | .sched _ => inferInstanceAs (Decidable True)
  | .initMutex _ => inferInstanceAs (Decidable True)
  | .lock _ _ => inferInstanceAs (Decidable True)
  | .resume => inferInstanceAs (Decidable True)
  | .unlock _ _ => inferInstanceAs (Decidable True)
  | .kill _ _ => inferInstanceAs (Decidable True)

/-- A new task that got its pid and its place in the family and then no memory. -/
def Sched.unborn (s : Sched) (t pid flag parent : Nat) : Sched :=
  let s := { s.addChild parent t with pidMap := Function.update s.pidMap pid t }
  (s.setTask t { s.task t with pid := pid, flag := flag, parent := parent }).initSchedStruct t

namespace SignalSession

/-- The scheduler. -/
def sched (s : SignalSession) : Sched :=
  s.mutex.sys.sched

/-- Replace the scheduler. -/
def setSched (s : SignalSession) (k : Sched) : SignalSession :=
  { s with mutex := { s.mutex with sys := { s.mutex.sys with sched := k } } }

/-- The pid `get_new_pid` finds. -/
def newPid (s : SignalSession) : Option Nat :=
  if s.nrFree = 0 then none
  else (List.range' s.cursor (pidMapNr - s.cursor)).find? (fun i => s.sched.pidMap i = 0)

/-- The session after a pid was taken. -/
def taken (s : SignalSession) : SignalSession :=
  { s with nrFree := s.nrFree - 1, cursor := s.cursor + 1 }

/-- A fork without a pid has only set the one of the new task. -/
def pidless (s : SignalSession) (t : Nat) : SignalSession :=
  s.setSched (s.sched.setTask t { s.sched.task t with pid := -1 })

/-- Make a call. -/
def call (s : SignalSession) : SignalCall → Option (Int × SignalSession)
  | .mutex c => (s.mutex.call c).map (fun r => (0, { s with mutex := r.2 }))
  | .fork t flag parent =>
      match s.newPid with
      | some pid => (s.mutex.call (.fork t pid flag parent)).map (fun r =>
          (0, { s.taken with mutex := r.2 }))
      | none => some (errNoMem, s.pidless t)
  | .forkFails t flag parent =>
      match s.newPid with
      | some pid => some (errNoMem, s.taken.setSched (s.sched.unborn t pid flag parent))
      | none => some (errNoMem, s.pidless t)
  | .signal fuel pid sig =>
      match s.mutex.sys.sysSignal fuel pid sig with
      | .ok (r, k) =>
          let killed := s.sched.pidMap pid.toNat
          some (r, { s with mutex :=
            if r = 0 ∧ pid ≠ (s.sched.task s.sched.current).pid then
              { s.mutex with
                sys := k
                published := s.mutex.published.erase killed
                waiting := s.mutex.waiting.filter (fun e => e.1 ≠ killed) }
            else { s.mutex with sys := k } })
      | .error _ => none

/-- Which calls can be made: a signal only by a live task, and if what is not tested holds. -/
def Allowed (s : SignalSession) (c : SignalCall) (_ : Int) : Prop :=
  match c with
  | .mutex c => c.Plain ∧ s.mutex.Allowed c .done
  | .fork t _ parent => s.mutex.suspended = none ∧ t ≠ 0 ∧ ¬s.mutex.Known t ∧ s.mutex.Known parent
  | .forkFails t _ parent =>
      s.mutex.suspended = none ∧ t ≠ 0 ∧ ¬s.mutex.Known t ∧ s.mutex.Known parent
  | .signal _ pid sig => s.mutex.suspended = none ∧ s.sched.current ∈ s.mutex.published ∧
      SignalCond s.mutex.sys s.mutex.published pid sig

/-- The session after `sched_init` and `build_idle_task`. -/
def booted (s : Sched) (count : Nat → Int) (idle : Nat) : SignalSession :=
  ⟨MutexSession.booted s count idle, pidMapNr, 0⟩

end SignalSession

instance (s : SignalSession) (c : SignalCall) (r : Int) : Decidable (s.Allowed c r) :=
  match c with
  | .mutex _ => inferInstanceAs (Decidable (_ ∧ _))
  | .fork _ _ _ => inferInstanceAs (Decidable (_ ∧ _ ∧ _ ∧ _))
  | .forkFails _ _ _ => inferInstanceAs (Decidable (_ ∧ _ ∧ _ ∧ _))
  | .signal _ _ _ => inferInstanceAs (Decidable (_ ∧ _ ∧ _))

/-- The entries behind the cursor are free, and a live task has one before it, which is its
    own. -/
structure PidInv (s : SignalSession) : Prop where
  numbers : s.nrFree + s.cursor = pidMapNr
  fresh : ∀ n, s.cursor ≤ n → n < pidMapNr → s.sched.pidMap n = 0
  nodup : s.mutex.published.Nodup
  entry : ∀ t ∈ s.mutex.published, t ≠ 0 ∧ ∃ n < s.cursor, (s.sched.task t).pid = n ∧
    s.sched.pidMap n = t

/-- The search ends where it begins. -/
theorem newPid_eq (s : SignalSession) (h : PidInv s) (pid : Nat) (hpid : s.newPid = some pid) :
    pid = s.cursor ∧ s.cursor < pidMapNr := by
  have hnumbers := h.numbers
  unfold SignalSession.newPid at hpid
  split_ifs at hpid with hfree
  have hlt : s.cursor < pidMapNr := by omega
  rcases Nat.exists_eq_add_one_of_ne_zero (Nat.sub_ne_zero_of_lt hlt) with ⟨n, hrange⟩
  have hempty := h.fresh s.cursor (Nat.le_refl _) hlt
  have hfind : (List.range' s.cursor (n + 1)).find? (fun i => decide (s.sched.pidMap i = 0)) =
      some s.cursor := by
    rw [List.range'_succ, List.find?_cons_of_pos]
    exact decide_eq_true hempty
  rw [hrange, hfind, Option.some.injEq] at hpid
  exact ⟨hpid.symm, hlt⟩

/-- What is left to show when neither the map nor a pid nor the live tasks change. -/
theorem pidInv_same (s s' : SignalSession) (h : PidInv s) (hsame : SamePids s.sched s'.sched)
    (hlive : s'.mutex.published = s.mutex.published) (hfree : s'.nrFree = s.nrFree)
    (hcursor : s'.cursor = s.cursor) : PidInv s' := by
  refine ⟨?_, fun n hn hlt => ?_, ?_, fun t ht => ?_⟩
  · rw [hfree, hcursor]
    exact h.numbers
  · rw [hsame.pidMap]
    exact h.fresh n (hcursor ▸ hn) hlt
  · rw [hlive]
    exact h.nodup
  · rw [hlive] at ht
    rcases h.entry t ht with ⟨hne, n, hn, hpid, hentry⟩
    refine ⟨hne, n, hcursor ▸ hn, ?_, ?_⟩
    · rw [hsame.pid]
      exact hpid
    · rw [hsame.pidMap]
      exact hentry

/-- A live task is killed: its entry is cleared, and no other entry of a live task is. -/
theorem pidInv_killed (s s' : SignalSession) (h : PidInv s) (t : Nat)
    (ht : t ∈ s.mutex.published)
    (hmap : s'.sched.pidMap = Function.update s.sched.pidMap (s.sched.task t).pid.toNat 0)
    (hpid : ∀ u, (s'.sched.task u).pid = (s.sched.task u).pid)
    (hlive : s'.mutex.published = s.mutex.published.erase t) (hfree : s'.nrFree = s.nrFree)
    (hcursor : s'.cursor = s.cursor) : PidInv s' := by
  rcases h.entry t ht with ⟨-, m, hm, htpid, htentry⟩
  rw [htpid, Int.toNat_natCast] at hmap
  refine ⟨?_, fun n hn hlt => ?_, ?_, fun u hu => ?_⟩
  · rw [hfree, hcursor]
    exact h.numbers
  · rw [hmap, Function.update_apply]
    split_ifs with hnm
    · rfl
    · exact h.fresh n (hcursor ▸ hn) hlt
  · rw [hlive]
    exact h.nodup.erase t
  · rw [hlive, h.nodup.mem_erase_iff] at hu
    rcases h.entry u hu.2 with ⟨hne, n, hn, hupid, huentry⟩
    refine ⟨hne, n, hcursor ▸ hn, (hpid u).trans hupid, ?_⟩
    have hnm : n ≠ m := by
      rintro rfl
      exact hu.1 (huentry.symm.trans htentry)
    rw [hmap, Function.update_of_ne hnm]
    exact huentry

/-- A pid is taken for a new task, which may be alive afterwards. -/
theorem pidInv_taken (s s' : SignalSession) (h : PidInv s) (t pid : Nat) (ht0 : t ≠ 0)
    (ht : t ∉ s.mutex.published) (hnew : s.newPid = some pid)
    (hmap : s'.sched.pidMap = Function.update s.sched.pidMap pid t)
    (hpid : ∀ u, (s'.sched.task u).pid = if u = t then (pid : Int) else (s.sched.task u).pid)
    (hlive : s'.mutex.published = s.mutex.published ∨
      s'.mutex.published = t :: s.mutex.published)
    (hfree : s'.nrFree = s.nrFree - 1) (hcursor : s'.cursor = s.cursor + 1) : PidInv s' := by
  rcases newPid_eq s h pid hnew with ⟨rfl, hlt⟩
  have hnumbers := h.numbers
  have hold : ∀ u ∈ s.mutex.published, u ≠ 0 ∧ ∃ n < s'.cursor, (s'.sched.task u).pid = n ∧
      s'.sched.pidMap n = u := by
    intro u hu
    rcases h.entry u hu with ⟨hne, n, hn, hupid, huentry⟩
    have hut : u ≠ t := fun hut => ht (hut ▸ hu)
    refine ⟨hne, n, by omega, ?_, ?_⟩
    · rw [hpid, if_neg hut]
      exact hupid
    · rw [hmap, Function.update_of_ne (Nat.ne_of_lt hn)]
      exact huentry
  refine ⟨by omega, fun n hn hn' => ?_, ?_, fun u hu => ?_⟩
  · rw [hmap, Function.update_of_ne (by omega)]
    exact h.fresh n (by omega) hn'
  · rcases hlive with hlive | hlive
    · rw [hlive]
      exact h.nodup
    · rw [hlive]
      exact List.nodup_cons.mpr ⟨ht, h.nodup⟩
  · rcases hlive with hlive | hlive
    · exact hold u (hlive ▸ hu)
    · rw [hlive, List.mem_cons] at hu
      rcases hu with rfl | hu
      · refine ⟨ht0, s.cursor, by omega, ?_, ?_⟩
        · rw [hpid, if_pos rfl]
        · rw [hmap, Function.update_self]
      · exact hold u hu

/-- A fork that gets no pid. The new task is not alive. -/
theorem pidInv_pidless (s : SignalSession) (h : PidInv s) (t : Nat) (ht : t ∉ s.mutex.published) :
    PidInv (s.pidless t) := by
  refine ⟨h.numbers, h.fresh, h.nodup, fun u hu => ?_⟩
  have hut : u ≠ t := fun hut => ht (hut ▸ hu)
  rcases h.entry u hu with ⟨hne, n, hn, hpid, hentry⟩
  refine ⟨hne, n, hn, ?_, hentry⟩
  change ((s.sched.setTask t { s.sched.task t with pid := -1 }).task u).pid = n
  rw [setTask_task_other _ _ _ _ hut]
  exact hpid

theorem samePids_initMutex (k : MutexSys) (m : Nat) : SamePids k.sched (k.initMutex m).sched :=
  ⟨rfl, fun _ => rfl⟩

/-- What a pass of `mutex_lock_timeout` leaves. -/
theorem passed_sys (s : MutexSession) (e : Nat × Nat × Int) (r : LockPass × MutexSys) :
    (s.passed e r).2.sys = r.2 ∧ (s.passed e r).2.published = s.published := by
  unfold MutexSession.passed
  dsimp only
  split
  · exact ⟨rfl, rfl⟩
  · exact ⟨rfl, rfl⟩

/-- The calls of the scheduler and the mutexes. -/
theorem pidInv_mutex (s : SignalSession) (h : PidInv s) (c : MutexCall) (hplain : c.Plain)
    (hallowed : s.mutex.Allowed c .done) (a : MutexAnswer) (m : MutexSession)
    (hcall : s.mutex.call c = some (a, m)) : PidInv { s with mutex := m } := by
  cases c with
  | fork t pid flag parent => exact absurd hplain id
  | sched c =>
      rcases Option.map_eq_some_iff.mp hcall with ⟨⟨u, ses⟩, hrun, heq⟩
      rw [Prod.mk.injEq] at heq
      rcases samePids_schedCall _ ses c hallowed.2.1 hrun with ⟨hsame, hlive⟩
      rw [← heq.2]
      exact pidInv_same s _ h hsame hlive rfl rfl
  | initMutex n =>
      rw [MutexSession.call, Option.some.injEq, Prod.mk.injEq] at hcall
      rw [← hcall.2]
      exact pidInv_same s _ h (samePids_initMutex _ n) rfl rfl rfl
  | lock n ms =>
      rcases Option.map_eq_some_iff.mp hcall with ⟨r, hrun, heq⟩
      rcases passed_sys s.mutex (s.mutex.sys.sched.current, n, ms) r with ⟨hsys, hlive⟩
      rw [heq] at hsys hlive
      refine pidInv_same s _ h ?_ hlive rfl rfl
      change SamePids s.mutex.sys.sched m.sys.sched
      rw [hsys]
      exact samePids_lockPass _ _ n ms r hrun
  | resume =>
      unfold MutexSession.call at hcall
      dsimp only at hcall
      split at hcall
      · rename_i e _
        rcases Option.map_eq_some_iff.mp hcall with ⟨r, hrun, heq⟩
        rcases passed_sys s.mutex e r with ⟨hsys, hlive⟩
        rw [heq] at hsys hlive
        refine pidInv_same s _ h ?_ hlive rfl rfl
        change SamePids s.mutex.sys.sched m.sys.sched
        rw [hsys]
        exact samePids_lockResume _ _ _ _ r hrun
      · cases hcall
  | unlock fuel n =>
      rcases Option.map_eq_some_iff.mp hcall with ⟨k, hrun, heq⟩
      rw [Prod.mk.injEq] at heq
      rw [← heq.2]
      exact pidInv_same s _ h (samePids_mutexUnlock fuel _ k n hrun) rfl rfl rfl
  | kill fuel t =>
      rcases Option.map_eq_some_iff.mp hcall with ⟨⟨r, k⟩, hrun, heq⟩
      rcases killTask_pids fuel _ k t r hrun with ⟨rfl, hsame⟩ | ⟨rfl, hmap, hpid⟩
      · have hrefused : ¬errInval = 0 := by decide
        rw [if_neg hrefused, Prod.mk.injEq] at heq
        rw [← heq.2]
        exact pidInv_same s _ h hsame rfl rfl rfl
      · rw [if_pos rfl, Prod.mk.injEq] at heq
        rw [← heq.2]
        exact pidInv_killed s _ h t hallowed.2 hmap hpid rfl rfl rfl

/-- The entry of a live task that is current is that of a sender. -/
theorem senderOk_of_live (s : SignalSession) (h : PidInv s)
    (hlive : s.sched.current ∈ s.mutex.published) : SenderOk s.mutex.sys := by
  have hnumbers := h.numbers
  rcases h.entry _ hlive with ⟨hne, n, hn, hpid, hentry⟩
  refine ⟨hne, ?_, ?_, ?_⟩
  · change 0 ≤ (s.sched.task s.sched.current).pid
    omega
  · change (s.sched.task s.sched.current).pid < pidMapNr
    omega
  · change s.sched.pidMap (s.sched.task s.sched.current).pid.toNat = s.sched.current
    rw [hpid, Int.toNat_natCast]
    exact hentry

/-- A signal for which what is not tested holds. -/
theorem pidInv_signal (s s' : SignalSession) (h : PidInv s) (fuel : Nat) (pid : Int) (sig : Nat)
    (r : Int) (hallowed : s.Allowed (.signal fuel pid sig) r)
    (hcall : s.call (.signal fuel pid sig) = some (r, s')) : PidInv s' := by
  rcases hallowed with ⟨-, hcurrent, hcond⟩
  have hsender := senderOk_of_live s h hcurrent
  have hfail : errInval ≠ 0 := by decide
  unfold SignalSession.call at hcall
  dsimp only at hcall
  split at hcall
  · rename_i r' k hsignal
    rw [Option.some.injEq, Prod.mk.injEq] at hcall
    rcases hcall with ⟨rfl, rfl⟩
    rcases sysSignal_ok _ k pid sig fuel r' hsender hsignal with
      ⟨rfl, rfl⟩ | ⟨hself, hsame⟩ | ⟨hother, hkill, hhigh, hne, hprio, hrun⟩
    · rw [if_neg (fun hc => hfail hc.1)]
      exact pidInv_same s _ h (samePids_refl _) rfl rfl rfl
    · rw [if_neg (fun hc => hc.2 hself)]
      exact pidInv_same s _ h hsame rfl rfl rfl
    · rcases killTask_pids fuel _ k _ r' hrun with ⟨rfl, hsame⟩ | ⟨rfl, hmap, hpid⟩
      · rw [if_neg (fun hc => hfail hc.1)]
        exact pidInv_same s _ h hsame rfl rfl rfl
      · -- Something that was a task is not killed, so this was alive.
        have hlive : s.sched.pidMap pid.toNat ∈ s.mutex.published := by
          by_contra hdead
          rcases hcond with hsig | ⟨-, hnot⟩
          · rw [hkill] at hsig
            exact absurd hsig (by decide)
          · refine hnot ⟨hkill, hother, hhigh, hne, hdead, hprio, ?_⟩
            by_contra hspent
            rw [(killTask_spent fuel _ _ hne).mpr hspent] at hrun
            exact hfail (Prod.mk.inj (Option.some.inj hrun)).1
        rw [if_pos ⟨rfl, hother⟩]
        exact pidInv_killed s _ h _ hlive hmap hpid rfl rfl rfl
  · cases hcall

theorem publish_pid (s : Sched) (t pid flag parent u : Nat) :
    ((s.publish t pid flag parent).task u).pid =
      if u = t then (pid : Int) else (s.task u).pid := by
  unfold Sched.publish
  dsimp only
  rw [(samePids_setTaskState _ t .prepare).pid, (samePids_initSchedStruct _ t).pid]
  unfold Sched.setTask
  dsimp only
  rw [Function.update_apply]
  split_ifs
  · rfl
  · rfl

theorem publish_pidMap (s : Sched) (t pid flag parent : Nat) :
    (s.publish t pid flag parent).pidMap = Function.update s.pidMap pid t := by
  unfold Sched.publish
  dsimp only
  rw [(samePids_setTaskState _ t .prepare).pidMap, (samePids_initSchedStruct _ t).pidMap]
  rfl

theorem unborn_pid (s : Sched) (t pid flag parent u : Nat) :
    ((s.unborn t pid flag parent).task u).pid =
      if u = t then (pid : Int) else (s.task u).pid := by
  unfold Sched.unborn
  dsimp only
  rw [(samePids_initSchedStruct _ t).pid]
  unfold Sched.setTask
  dsimp only
  rw [Function.update_apply]
  split_ifs
  · rfl
  · rfl

/-- Every call keeps the entries of the live tasks. -/
theorem pidInv_call (s s' : SignalSession) (h : PidInv s) (c : SignalCall) (r : Int)
    (hallowed : s.Allowed c r) (hcall : s.call c = some (r, s')) : PidInv s' := by
  cases c with
  | mutex c =>
      rcases Option.map_eq_some_iff.mp hcall with ⟨⟨a, m⟩, hrun, heq⟩
      rw [Prod.mk.injEq] at heq
      rw [← heq.2]
      exact pidInv_mutex s h c hallowed.1 hallowed.2 a m hrun
  | fork t flag parent =>
      have ht : t ∉ s.mutex.published := fun hc => hallowed.2.2.1 (Or.inl hc)
      rcases hnew : s.newPid with _ | pid
      · simp only [SignalSession.call, hnew, Option.some.injEq, Prod.mk.injEq] at hcall
        rw [← hcall.2]
        exact pidInv_pidless s h t ht
      · simp only [SignalSession.call, hnew, MutexSession.call, Option.map_some,
          Option.some.injEq, Prod.mk.injEq] at hcall
        rw [← hcall.2]
        exact pidInv_taken s _ h t pid hallowed.2.1 ht hnew
          (publish_pidMap (s.sched.addChild parent t) t pid flag parent)
          (publish_pid (s.sched.addChild parent t) t pid flag parent) (Or.inr rfl) rfl rfl
  | forkFails t flag parent =>
      have ht : t ∉ s.mutex.published := fun hc => hallowed.2.2.1 (Or.inl hc)
      rcases hnew : s.newPid with _ | pid
      · simp only [SignalSession.call, hnew, Option.some.injEq, Prod.mk.injEq] at hcall
        rw [← hcall.2]
        exact pidInv_pidless s h t ht
      · simp only [SignalSession.call, hnew, Option.some.injEq, Prod.mk.injEq] at hcall
        rw [← hcall.2]
        exact pidInv_taken s _ h t pid hallowed.2.1 ht hnew rfl
          (unborn_pid s.sched t pid flag parent) (Or.inl rfl) rfl rfl
  | signal fuel pid sig => exact pidInv_signal s s' h fuel pid sig r hallowed hcall

/-- After `sched_init` no entry is taken. -/
theorem pidInv_booted (s : Sched) (count : Nat → Int) (idle : Nat) :
    PidInv (SignalSession.booted s count idle) := by
  refine ⟨rfl, fun n _ hlt => ?_, List.nodup_nil, fun t ht => absurd ht List.not_mem_nil⟩
  change (if n < 1024 then 0 else s.pidMap n) = 0
  exact if_pos hlt

/-- The entry of a live task is its own, in every run. -/
theorem pidInv_run (s : Sched) (count : Nat → Int) (idle : Nat) (ses : SignalSession)
    (hrun : Run.Reaches SignalSession.call SignalSession.Allowed
      (SignalSession.booted s count idle) ses) : PidInv ses :=
  Run.invariant_of_reaches SignalSession.call SignalSession.Allowed PidInv
    (fun s c r s' h hallowed hcall => pidInv_call s s' h c r hallowed hcall) _ ses hrun
    (pidInv_booted s count idle)

/-- In every run whose signals meet the condition, and for every signal a live task sends then:
    it does what it should exactly when it meets the condition. -/
theorem sysSignal_safe (s : Sched) (count : Nat → Int) (idle : Nat) (ses : SignalSession)
    (hrun : Run.Reaches SignalSession.call SignalSession.Allowed
      (SignalSession.booted s count idle) ses)
    (hlive : ses.sched.current ∈ ses.mutex.published) (pid : Int) (sig : Nat) :
    SignalSafe ses.mutex.sys ses.mutex.published pid sig ↔
      SignalCond ses.mutex.sys ses.mutex.published pid sig :=
  signalSafe_iff ses.mutex.sys ses.mutex.published
    (senderOk_of_live ses (pidInv_run s count idle ses hrun) hlive) pid sig

/-- The task that kills is asleep and `init` runs. A signal to the pid behind its own, where a
    fork has failed, does what it should. -/
theorem sysSignal_safe_init :
    ∃ ses, Run.Reaches SignalSession.call SignalSession.Allowed
        (SignalSession.booted blankSched (fun _ => 0) 0x100) ses ∧
      ses.sched.current ∈ ses.mutex.published ∧
      SignalSafe ses.mutex.sys ses.mutex.published 2 processSignalKill := by
  have heval : (Run.follow SignalSession.call SignalSession.Allowed
      (SignalSession.booted blankSched (fun _ => 0) 0x100)
      [.fork 0x200 1 0x100, .fork 0x300 2 0x100, .mutex (.sched .idlePrio),
        .mutex (.sched .sched), .mutex (.sched (.suspend 0x200 (-1))),
        .forkFails 0x400 2 0x300]).map (fun ses =>
          (decide (ses.sched.current ∈ ses.mutex.published),
            decide (SignalCond ses.mutex.sys ses.mutex.published 2 processSignalKill))) =
      some (true, true) := by decide +kernel
  rcases Option.map_eq_some_iff.mp heval with ⟨ses, hses, hval⟩
  rw [Prod.mk.injEq, decide_eq_true_eq, decide_eq_true_eq] at hval
  have hrun := Run.reaches_of_follow SignalSession.call SignalSession.Allowed _ _ ses hses
  exact ⟨ses, hrun, hval.1,
    (sysSignal_safe blankSched (fun _ => 0) 0x100 ses hrun hval.1 2 processSignalKill).mpr hval.2⟩

/-- Any live task can have the entry in front of the map read. -/
theorem sysSignal_negative :
    ∃ ses, Run.Reaches SignalSession.call SignalSession.Allowed
        (SignalSession.booted blankSched (fun _ => 0) 0x100) ses ∧
      ses.sched.current ∈ ses.mutex.published ∧
      ses.mutex.sys.sysSignal 0 (-1) processSignalKill = .error (.index (-1)) ∧
      ¬SignalSafe ses.mutex.sys ses.mutex.published (-1) processSignalKill := by
  have heval : (Run.follow SignalSession.call SignalSession.Allowed
      (SignalSession.booted blankSched (fun _ => 0) 0x100)
      [.fork 0x200 1 0x100, .fork 0x300 2 0x100, .mutex (.sched .idlePrio),
        .mutex (.sched .sched), .mutex (.sched (.suspend 0x200 (-1)))]).map (fun ses =>
          decide (ses.sched.current ∈ ses.mutex.published)) = some true := by decide +kernel
  rcases Option.map_eq_some_iff.mp heval with ⟨ses, hses, hval⟩
  have hlive := of_decide_eq_true hval
  have hrun := Run.reaches_of_follow SignalSession.call SignalSession.Allowed _ _ ses hses
  have hsender := senderOk_of_live ses (pidInv_run blankSched (fun _ => 0) 0x100 ses hrun) hlive
  have hread := sysSignal_below ses.mutex.sys (-1) processSignalKill 0 hsender (by decide)
    (by decide)
  exact ⟨ses, hrun, hlive, hread, fun hsafe => hsafe.inside 0 (-1) hread⟩

end Mirros
